/-
The CSV log is read back as it was meant.

A module's name, or a forged notification, may hold quotes, commas and line ends, and the
details carry them; every one of the eight fields comes back, and every notification is one
row, whatever it holds.  The lines of `emit` are rows of the library's dialect (`emitLog_eq`), and
the rest is `Csv.read_rows`.

Two of the fields are texts, and `csv_field` puts them in quotes whatever they hold;
the library's reader undoes that.  The other six are written as they are.  They are
numbers and fixed words, without a quote, a comma or a line end in them, and are
shown `Clean` once, whatever the number is.
-/
import KernelGuard.Model.CsvLog
import KernelGuard.Lib.Csv

namespace KernelGuard.CsvLog

/-- Quotes, commas and line ends. -/
def dialect : Csv.Dialect UInt8 where
  quote := 34
  sep := 44
  eol := 10
  quote_ne_sep := by decide
  quote_ne_eol := by decide
  sep_ne_eol := by decide

/-- The text has nothing special in it. -/
def Clean (text : CStr) : Prop := ∀ c ∈ text, c ≠ dialect.quote ∧ c ≠ dialect.sep ∧ c ≠ dialect.eol

instance (text : CStr) : Decidable (Clean text) := inferInstanceAs (Decidable (∀ c ∈ text, _))

theorem Clean.append {xs ys : CStr} (hx : Clean xs) (hy : Clean ys) : Clean (xs ++ ys) := by
  intro c hc
  rcases List.mem_append.mp hc with hc | hc
  · exact hx c hc
  · exact hy c hc

/-! ### Numbers

Decimal and hexadecimal digits are written by one division loop, so they are read
back by one induction over it, with the base as a parameter.  The zeros that pad a
number change neither its value nor that it is clean.
-/

/-- The value of a digit, for bases up to 16. -/
def digitValue (c : UInt8) : Nat := if c ≤ 57 then c.toNat - 48 else c.toNat - 87

/-- A number as a reader of the log takes it. -/
def readNumber (b : Nat) (text : CStr) : Nat := text.foldl (fun n c => b * n + digitValue c) 0

def digitByte (c : Char) : UInt8 := UInt8.ofNat c.toNat

theorem digitValue_digitByte {d : Nat} (hd : d < 16) : digitValue (digitByte d.digitChar) = d := by
  have hall : ∀ i : Fin 16, digitValue (digitByte i.val.digitChar) = i.val := by decide
  exact hall ⟨d, hd⟩

theorem clean_digitByte {d : Nat} (hd : d < 16) : Clean [digitByte d.digitChar] := by
  have hall : ∀ i : Fin 16, Clean [digitByte i.val.digitChar] := by decide +kernel
  exact hall ⟨d, hd⟩

/-- The digits of a number are digits, and give the number. -/
theorem toDigits_read {b : Nat} (hb : 1 < b) (hb' : b ≤ 16) (n : Nat) :
    Clean ((Nat.toDigits b n).map digitByte) ∧ readNumber b ((Nat.toDigits b n).map digitByte) = n := by
  induction n using Nat.base_induction b hb with
  | single m hm =>
      rw [Nat.toDigits_of_lt_base hm]
      refine ⟨clean_digitByte (by omega), ?_⟩
      simp [readNumber, digitValue_digitByte (show m < 16 by omega)]
  | digit m k hk hm ih =>
      obtain ⟨hclean, hread⟩ := ih
      rw [← Nat.toDigits_append_toDigits hb hm hk, List.map_append, Nat.toDigits_of_lt_base hk]
      refine ⟨hclean.append (clean_digitByte (by omega)), ?_⟩
      rw [readNumber] at hread
      simp [readNumber, List.foldl_append, hread, digitValue_digitByte (show k < 16 by omega)]

theorem clean_decText (n : Nat) : Clean (decText n) := (toDigits_read (by decide) (by decide) n).1

theorem readNumber_decText (n : Nat) : readNumber 10 (decText n) = n :=
  (toDigits_read (by decide) (by decide) n).2

/-- Zeros in front of a number change neither. -/
theorem zeros_read (b k : Nat) (digits : CStr) (h : Clean digits) :
    Clean (List.replicate k 48 ++ digits) ∧
      readNumber b (List.replicate k 48 ++ digits) = readNumber b digits := by
  refine ⟨Clean.append (fun c hc => ?_) h, ?_⟩
  · rw [List.eq_of_mem_replicate hc]
    decide
  · have hzero : (List.replicate k (48 : UInt8)).foldl (fun n c => b * n + digitValue c) 0 = 0 := by
      induction k with
      | zero => rfl
      | succ k ih =>
          rw [List.replicate_succ, List.foldl_cons]
          simpa [digitValue] using ih
    rw [readNumber, List.foldl_append, hzero, readNumber]

theorem clean_padZero (w n : Nat) : Clean (padZero w (decText n)) :=
  (zeros_read 10 _ _ (clean_decText n)).1

theorem hexText_read (w n : Nat) : Clean (hexText w n) ∧ readNumber 16 (hexText w n) = n := by
  obtain ⟨hclean, hread⟩ := toDigits_read (b := 16) (by decide) (by decide) n
  obtain ⟨hc, hr⟩ := zeros_read 16 (w - ((Nat.toDigits 16 n).map digitByte).length) _ hclean
  exact ⟨hc, hr.trans hread⟩

/-! ### One line -/

theorem clean_tsString (localtime : UInt64 → Tm) (ns : UInt64) : Clean (tsString localtime ns) := by
  have hminus : Clean (str "-") := by decide +kernel
  have hspace : Clean (str " ") := by decide +kernel
  have hcolon : Clean (str ":") := by decide +kernel
  have hdot : Clean (str ".") := by decide +kernel
  exact ((((((((((((clean_decText _).append hminus).append (clean_padZero 2 _)).append
    hminus).append (clean_padZero 2 _)).append hspace).append (clean_padZero 2 _)).append
    hcolon).append (clean_padZero 2 _)).append hcolon).append (clean_padZero 2 _)).append
    hdot).append (clean_padZero 3 _)

theorem clean_levelText (l : UInt32) : Clean (levelText l) := by
  unfold levelText
  split
  · decide +kernel
  split <;> decide +kernel

def okText (hmacOk : Bool) : CStr := if hmacOk then str "OK" else str "FAIL"

theorem clean_okText (hmacOk : Bool) : Clean (okText hmacOk) := by
  cases hmacOk <;> decide +kernel

/-- A number of 64 bits in a log line. -/
def hexField (x : UInt64) : CStr := str "0x" ++ hexText 16 x.toNat

theorem clean_hexField (x : UInt64) : Clean (hexField x) :=
  Clean.append (by decide +kernel) (hexText_read 16 x.toNat).1

/-- The fields behind the time. -/
def logFields (n : KgNotification) (hmacOk : Bool) : List (Csv.Field dialect) :=
  [.plain (levelText n.alertLevel) (clean_levelText _), .quoted (alertText n.alertType),
    .plain (okText hmacOk) (clean_okText _), .plain (decText n.sequence.toNat) (clean_decText _),
    .plain (hexField n.param1) (clean_hexField _), .plain (hexField n.param2) (clean_hexField _),
    .quoted (formatDetails n)]

theorem csvField_eq (s : CStr) : csvField s = (Csv.Field.quoted (d := dialect) s).render := by
  have hdouble : (s.flatMap fun c => if c = 34 then [34, c] else [c])
      = Csv.Field.double dialect s := by
    refine List.flatMap_congr fun c _ => ?_
    by_cases hc : c = 34
    · simp [dialect, hc]
    · simp [dialect, hc]
  rw [csvField, hdouble]
  rfl

/-- A line of `emit` is a row. -/
theorem emitLog_eq (localtime : UInt64 → Tm) (n : KgNotification) (hmacOk : Bool) :
    emitLog localtime n hmacOk =
      Csv.renderRow dialect (.plain (tsString localtime n.timestamp) (clean_tsString _ _))
        (logFields n hmacOk) := by
  have hcomma : str "," = [dialect.sep] := by decide
  have hhex : str ",0x" = dialect.sep :: str "0x" := by decide
  have heol : str "\n" = [dialect.eol] := by decide
  simp only [emitLog, csvField_eq, hcomma, hhex, heol, Csv.renderRow, logFields, okText, hexField,
    List.flatMap_cons, List.flatMap_nil, Csv.Field.render, List.append_assoc, List.cons_append,
    List.nil_append, List.append_nil]

/-! ### The whole log

The reader goes over the file once, and rows that were there before are read in
front of the new ones.  That lines do not run into each other is the library's round
trip for rows; what is added here is that the fields of a row are those of the
notification.
-/

/-- What was emitted. -/
def emitted : List DrainEvent → List (KgNotification × Bool)
  | [] => []
  | .emit n hmacOk :: evs => (n, hmacOk) :: emitted evs
  | _ :: evs => emitted evs

def logRow (localtime : UInt64 → Tm) (e : KgNotification × Bool) :
    Csv.Field dialect × List (Csv.Field dialect) :=
  (.plain (tsString localtime e.1.timestamp) (clean_tsString _ _), logFields e.1 e.2)

theorem logEvents_eq (localtime : UInt64 → Tm) (file : CStr) (evs : List DrainEvent) :
    logEvents localtime file evs =
      file ++ ((emitted evs).map (logRow localtime)).flatMap fun r =>
        Csv.renderRow dialect r.1 r.2 := by
  induction evs generalizing file with
  | nil => simp [logEvents, emitted]
  | cons ev evs ih =>
      cases ev with
      | emit n hmacOk =>
          rw [logEvents, ih, emitLog_eq, emitted, List.map_cons, List.flatMap_cons, List.append_assoc]
          rfl
      | lost | overwritten | tamper => exact ih file

/-- What a row of the log says. -/
structure Entry where
  time : CStr
  level : CStr
  alertType : CStr
  hmacOk : Bool
  seq : Nat
  param1 : Nat
  param2 : Nat
  details : CStr
  deriving DecidableEq

/-- A row as a reader of the log takes it. -/
def entryOf : List CStr → Option Entry
  | [time, level, alertType, hmac, seq, param1, param2, details] =>
      some ⟨time, level, alertType, decide (hmac = str "OK"), readNumber 10 seq,
        readNumber 16 (param1.drop 2), readNumber 16 (param2.drop 2), details⟩
  | _ => none

/-- What a notification should say there. -/
def entryFor (localtime : UInt64 → Tm) (e : KgNotification × Bool) : Entry where
  time := tsString localtime e.1.timestamp
  level := levelText e.1.alertLevel
  alertType := alertText e.1.alertType
  hmacOk := e.2
  seq := e.1.sequence.toNat
  param1 := e.1.param1.toNat
  param2 := e.1.param2.toNat
  details := formatDetails e.1

theorem hexField_read (x : UInt64) : readNumber 16 ((hexField x).drop 2) = x.toNat := by
  have hlen : (str "0x").length = 2 := by decide
  rw [hexField, ← hlen, List.drop_left]
  exact (hexText_read 16 x.toNat).2

theorem okText_read (b : Bool) : decide (okText b = str "OK") = b := by
  cases b <;> decide

theorem entryOf_logRow (localtime : UInt64 → Tm) (e : KgNotification × Bool) :
    entryOf ((logRow localtime e).1.text :: (logRow localtime e).2.map Csv.Field.text)
      = some (entryFor localtime e) := by
  simp only [logRow, logFields, List.map_cons, List.map_nil, Csv.Field.text, entryOf, entryFor,
    okText_read, readNumber_decText, hexField_read]

/-- Whatever the monitor emits into a log that can be read, the log can be read again: the rows that
were there, and one row for each emitted notification, in order, that says exactly its time, level,
type, HMAC check, sequence number, parameters and details. -/
theorem csv_log_round_trip (localtime : UInt64 → Tm) (file : CStr) (rows : List (List CStr))
    (hfile : Csv.read dialect (openLog file) = some rows) (evs : List DrainEvent) :
    ∃ new, Csv.read dialect (logEvents localtime (openLog file) evs) = some (rows ++ new) ∧
      new.map entryOf = (emitted evs).map fun e => some (entryFor localtime e) := by
  refine ⟨_, by rw [logEvents_eq]; exact Csv.read_rows hfile _, ?_⟩
  rw [List.map_map, List.map_map]
  exact List.map_congr_left fun e _ => entryOf_logRow localtime e

/-- A module with a name made to look like another row. -/
def forgedName : KgNotification :=
  { KgNotification.zero with alertType := kgAlertModuleLoaded, param1 := 0x2c4b4f0a2c22 }

theorem csv_log_round_trip_forged :
    ∃ new, Csv.read dialect (logEvents (fun _ => ⟨2024, 1, 1, 0, 0, 0⟩) (openLog [])
        [.emit forgedName true, .tamper 1]) =
      some ([[str "Time", str "Level", str "AlertType", str "HMAC", str "Seq", str "Param1",
        str "Param2", str "Details"]] ++ new) ∧
      new.map entryOf = [some (entryFor (fun _ => ⟨2024, 1, 1, 0, 0, 0⟩) (forgedName, true))] :=
  csv_log_round_trip _ [] _ (by decide +kernel) [.emit forgedName true, .tamper 1]

end KernelGuard.CsvLog
