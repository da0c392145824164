/-
What the saved log says about the history.

The window writes its ring at the count modulo the size of the ring, and `SaveLog` reads it from
cell 0 on, as many cells as alerts were counted.  Up to the size of the ring these are the alerts in
order.  Behind it the file has too many lines, the older alerts of a cell replaced by the last
one, until the count wraps around: `2 ^ 32` is a multiple of the size, so the two agree once
more when the count is back at the size.
-/
import KernelGuard.Model.LogWindow
import KernelGuard.Lib.Run

namespace KernelGuard

/-! ### A line fits into its buffer

`_snwprintf` with a buffer that is too small would cut the line off.  The numbers
have a bounded width and the texts are from fixed tables, so the sum of the widths
settles it for every record.
-/

theorem length_padZero {width k : Nat} {d : CStr} (h : d.length ≤ k) (hk : width ≤ k) :
    (padZero width d).length ≤ k := by
  rw [padZero, List.length_append, List.length_replicate]
  omega

theorem length_decText {n k : Nat} (hk : 0 < k) (h : n < 10 ^ k) : (decText n).length ≤ k := by
  rw [decText, List.length_map]
  exact (Nat.length_toDigits_le_iff (by decide) hk).mpr h

theorem length_upperHexText (n : UInt64) : (upperHexText n.toNat).length ≤ 16 := by
  rw [upperHexText, List.length_map]
  exact (Nat.length_toDigits_le_iff (by decide) (by decide)).mpr n.toNat_lt

theorem length_levelText (level : UInt32) : (levelText level).length ≤ 8 := by
  unfold levelText
  split <;> decide

theorem length_hmacText (valid : Bool) :
    (if valid then str "OK" else str "FAIL").length ≤ 4 := by
  cases valid <;> decide

/-- The buffer has room for every line, so none is cut off and none is left out. -/
theorem length_saveLine (a : LogRecord) : 0 < (saveLine a).length ∧ (saveLine a).length < 512 := by
  have htime : ∀ x : UInt16, (padZero 2 (decText x.toNat)).length ≤ 5 := fun x =>
    length_padZero (length_decText (by decide) (by have := x.toNat_lt; omega)) (by decide)
  have hhex : ∀ x : UInt64, (padZero 16 (upperHexText x.toNat)).length ≤ 16 := fun x =>
    length_padZero (length_upperHexText x) (Nat.le_refl _)
  have hseq : (decText a.sequenceNumber.toNat).length ≤ 10 :=
    length_decText (by decide) (by have := a.sequenceNumber.toNat_lt; omega)
  have hhour := htime a.hour
  have hminute := htime a.minute
  have hsecond := htime a.second
  have hp1 := hhex a.param1
  have hp2 := hhex a.param2
  have hlevel := length_levelText a.alertLevel
  have hhmac := length_hmacText a.hmacValid
  have htype := a.typeText_fits
  have hdetails := a.details_fits
  have hcolon : (str ":").length = 1 := rfl
  have hcomma : (str ",").length = 1 := rfl
  have hprefix : (str ",0x").length = 3 := rfl
  have hend : (str "\r\n").length = 2 := rfl
  unfold saveLine
  generalize str ":" = colon at hcolon ⊢
  generalize str "," = comma at hcomma ⊢
  generalize str ",0x" = pre at hprefix ⊢
  generalize str "\r\n" = crlf at hend ⊢
  simp only [List.length_append]
  omega

theorem saveRound_eq (s : LogStore) (i : Nat) :
    saveRound s i = [saveLine (s.stored (Ring.cell storedMax i))] := by
  obtain ⟨hpos, hfits⟩ := length_saveLine (s.stored (Ring.cell storedMax i))
  unfold saveRound snprintfS
  simp only [if_pos hfits, Int.toNat_natCast, List.take_length]
  rw [if_pos (by omega)]

/-- The data lines: as many as were counted, from cell 0 on. -/
theorem saveLog_lines (s : LogStore) : (saveLog s).drop 2 =
    (List.range s.storedCount.toNat).map fun i => saveLine (s.stored (Ring.cell storedMax i)) := by
  show (List.range s.storedCount.toNat).flatMap (saveRound s) = _
  rw [List.flatMap_congr fun i _ => saveRound_eq s i, ← List.map_eq_flatMap]

/-! ### The ring

The count wraps and the index of the next cell is the count modulo the size, which
divides 2^32, so the cells are filled in turn without a break.  Each cell has the
last alert that fell to it.
-/

/-- The alerts since the log was last cleared. -/
def sinceClear (msgs : List LogMsg) : List LogRecord :=
  msgs.foldl (fun as m => match m with
    | .newAlert a => as ++ [a]
    | .clear => []) []

/-- The count and the ring, for these alerts. -/
structure Keeps (s : LogStore) (as : List LogRecord) : Prop where
  count : s.storedCount = UInt32.ofNat as.length
  ring : Ring.Holds as.length s.stored as

theorem cell_ofNat (n : Nat) :
    Ring.cell storedMax (UInt32.ofNat n).toNat = Ring.cell storedMax n := by
  rw [Ring.cell_eq_iff, UInt32.toNat_ofNat']
  exact Nat.mod_mod_of_dvd n (by decide)

theorem Keeps.newAlert {s : LogStore} {as : List LogRecord} (h : Keeps s as) (a : LogRecord) :
    Keeps (logDlgProc s (.newAlert a)) (as ++ [a]) := by
  refine ⟨?_, ?_⟩
  · show s.storedCount + 1 = _
    rw [h.count, Ring.serial_succ, List.length_append, List.length_singleton]
  · show Ring.Holds _ (Function.update s.stored (Ring.cell storedMax s.storedCount.toNat) a) _
    rw [h.count, cell_ofNat]
    exact h.ring.push a

/-- Without clearing, these are all alerts. -/
theorem sinceClear_newAlert (as : List LogRecord) : sinceClear (as.map .newAlert) = as := by
  induction as using List.reverseRecOn with
  | nil => rfl
  | append_singleton as a ih =>
      rw [List.map_append, sinceClear, List.foldl_append]
      show sinceClear (as.map .newAlert) ++ [a] = _
      rw [ih]

theorem keeps_run (s : LogStore) (h : s.storedCount = 0) (msgs : List LogMsg) :
    Keeps (Run.exec logDlgProc s msgs) (sinceClear msgs) := by
  induction msgs using List.reverseRecOn with
  | nil => exact ⟨h, Ring.Holds.nil _ _⟩
  | append_singleton msgs m ih =>
      rw [Run.exec_snoc, sinceClear, List.foldl_append]
      cases m with
      | newAlert a => exact ih.newAlert a
      | clear => exact ⟨rfl, Ring.Holds.nil _ _⟩

/-! ### The file

`SaveLog` reads from cell 0 on, and as many cells as were counted.  Reading a cell
that is behind the end of the ring again begins at cell 0; the file is the history
when that does not happen and the first cell is the oldest alert's.
-/

/-- The file has the last alerts, as many as fit into the ring, each once and in order. -/
def SavesHistory (s : LogStore) (as : List LogRecord) : Prop :=
  (saveLog s).drop 2 = (as.drop (as.length - storedMax)).map saveLine

/-- When the ring is read from the cell of the first alert that is to be in the file, the file is
the history. -/
theorem Keeps.saves {s : LogStore} {as : List LogRecord} (h : Keeps s as)
    (hcount : s.storedCount.toNat = as.length - (as.length - storedMax))
    (hfirst : (as.length - storedMax) % storedMax = 0) : SavesHistory s as := by
  unfold SavesHistory
  rw [saveLog_lines]
  refine List.ext_getElem ?_ fun i hi hi' => ?_
  · rw [List.length_map, List.length_range, List.length_map, List.length_drop, hcount]
  · rw [List.length_map, List.length_drop] at hi'
    have hlt : as.length - storedMax + i < as.length := by omega
    have hcell : Ring.cell storedMax i = Ring.cell storedMax (as.length - storedMax + i) := by
      rw [Ring.cell_eq_iff, Nat.add_mod, hfirst, Nat.zero_add, Nat.mod_mod]
    have hget := h.ring _ _ (List.getElem?_eq_getElem hlt) (by omega)
    rw [List.getElem_map, List.getElem_range, List.getElem_map, List.getElem_drop, hcell, hget]

/-- The file has as many lines as were counted. -/
theorem Keeps.count_of_saves {s : LogStore} {as : List LogRecord} (h : Keeps s as)
    (hsaves : SavesHistory s as) : as.length ≤ storedMax ∨ as.length % 2 ^ 32 = storedMax := by
  have hlen := congrArg List.length hsaves
  rw [saveLog_lines, List.length_map, List.length_range, List.length_map, List.length_drop,
    h.count, UInt32.toNat_ofNat'] at hlen
  have hmax : storedMax = 512 := rfl
  omega

/--
**The saved log is the history, up to the size of the ring.**  Whatever the window has received, the
data lines of the file are the last alerts exactly when no more came than the ring has cells, or
so many that the count has wrapped around to that number again.
-/
theorem log_is_history_iff (s : LogStore) (h : s.storedCount = 0) (msgs : List LogMsg) :
    SavesHistory (Run.exec logDlgProc s msgs) (sinceClear msgs) ↔
      (sinceClear msgs).length ≤ storedMax ∨ (sinceClear msgs).length % 2 ^ 32 = storedMax := by
  have hkeeps := keeps_run s h msgs
  generalize Run.exec logDlgProc s msgs = t at hkeeps
  generalize sinceClear msgs = as at hkeeps
  have hcount : t.storedCount.toNat = as.length % 2 ^ 32 := by
    rw [hkeeps.count, UInt32.toNat_ofNat']
  have hmax : storedMax = 512 := rfl
  refine ⟨hkeeps.count_of_saves, fun hcond => hkeeps.saves (by omega) ?_⟩
  rw [hmax] at hcond ⊢
  omega

/-- A record that says nothing but its number. -/
def plainRecord (n : UInt32) : LogRecord :=
  { alertType := 0, alertLevel := 0, param1 := 0, param2 := 0, sequenceNumber := n
    hmacValid := true, hour := 0, minute := 0, second := 0, typeText := [], details := []
    typeText_fits := by decide, details_fits := by decide }

/-- The window before its first message. -/
def LogStore.start : LogStore := ⟨fun _ => plainRecord 0, 0⟩

theorem log_is_history_iff_two :
    SavesHistory (Run.exec logDlgProc .start [.newAlert (plainRecord 1), .newAlert (plainRecord 2)])
      [plainRecord 1, plainRecord 2] :=
  (log_is_history_iff .start rfl
    [.newAlert (plainRecord 1), .newAlert (plainRecord 2)]).mpr (Or.inl (by decide))

/-- One alert more than the ring has cells, and the file has one line too many. -/
theorem log_of_513_is_not_history :
    ¬∀ msgs : List LogMsg, SavesHistory (Run.exec logDlgProc .start msgs) (sinceClear msgs) := by
  intro hall
  have hlen := (keeps_run .start rfl _).count_of_saves
    (hall ((List.replicate 513 (plainRecord 1)).map .newAlert))
  rw [sinceClear_newAlert, List.length_replicate] at hlen
  exact absurd hlen (by decide)

end KernelGuard
