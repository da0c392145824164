/-
Rows of fields as text, plain and quoted.

A quoted field may hold anything, its own quotes doubled; a plain one holds none of the three
special symbols.  The reader goes over the text once, symbol by symbol, and refuses what no
writer could have written.  It reads back every row that was rendered, behind any rows that were
there before (`read_rows`), so what a field holds can neither end its row nor begin another.
-/
import Mathlib.Data.List.Basic

namespace Csv

/-- The three special symbols. -/
structure Dialect (α : Type) where
  quote : α
  sep : α
  eol : α
  quote_ne_sep : quote ≠ sep
  quote_ne_eol : quote ≠ eol
  sep_ne_eol : sep ≠ eol

variable {α : Type} [DecidableEq α]

/-- A field, and how it is written. -/
inductive Field (d : Dialect α) where
  | plain (text : List α) (clean : ∀ c ∈ text, c ≠ d.quote ∧ c ≠ d.sep ∧ c ≠ d.eol)
  | quoted (text : List α)

namespace Field

variable {d : Dialect α}

def text : Field d → List α
  | .plain text _ => text
  | .quoted text => text

/-- The text with its quotes doubled. -/
def double (d : Dialect α) (text : List α) : List α :=
  text.flatMap fun c => if c = d.quote then [c, c] else [c]

def render : Field d → List α
  | .plain text _ => text
  | .quoted text => d.quote :: double d text ++ [d.quote]

end Field

/-- A row that is not empty: its first field, and the rest, each behind a separator. -/
def renderRow (d : Dialect α) (first : Field d) (rest : List (Field d)) : List α :=
  first.render ++ rest.flatMap (fun f => d.sep :: f.render) ++ [d.eol]

/-! ### The reader -/

/-- Where the reader is in a field. -/
inductive Mode where
  | start
  | plain
  | quoted
  /-- Behind a quote inside of a quoted field: the end of the field, or half of a doubled quote. -/
  | closing
  deriving DecidableEq

/-- What was read: whole rows, the fields of the row in progress, and the field in progress. -/
structure Reader (α : Type) where
  rows : List (List (List α))
  row : List (List α)
  field : List α
  mode : Mode

namespace Reader

/-- At the beginning of a row. -/
def fresh (rows : List (List (List α))) : Reader α := ⟨rows, [], [], .start⟩

def push (r : Reader α) (c : α) (mode : Mode) : Reader α :=
  { r with field := r.field ++ [c], mode := mode }

/-- A separator ends the field. -/
def endField (r : Reader α) : Reader α := ⟨r.rows, r.row ++ [r.field], [], .start⟩

/-- An end of line ends the field and the row. -/
def endRow (r : Reader α) : Reader α := fresh (r.rows ++ [r.row ++ [r.field]])

variable (d : Dialect α)

def step (r : Reader α) (c : α) : Option (Reader α) :=
  match r.mode with
  | .start =>
      if c = d.quote then some { r with mode := .quoted }
      else if c = d.sep then some r.endField
      else if c = d.eol then some r.endRow
      else some (r.push c .plain)
  | .plain =>
      if c = d.sep then some r.endField
      else if c = d.eol then some r.endRow
      else if c = d.quote then none
      else some (r.push c .plain)
  | .quoted => if c = d.quote then some { r with mode := .closing } else some (r.push c .quoted)
  | .closing =>
      if c = d.quote then some (r.push c .quoted)
      else if c = d.sep then some r.endField
      else if c = d.eol then some r.endRow
      else none

def run (r : Reader α) (text : List α) : Option (Reader α) := text.foldlM (step d) r

end Reader

/-- The rows of a text; the last one has to be ended. -/
def read (d : Dialect α) (text : List α) : Option (List (List (List α))) :=
  match (Reader.fresh []).run d text with
  | some ⟨rows, [], [], .start⟩ => some rows
  | _ => none

/-! ### Round trip -/

section

variable {d : Dialect α}

theorem Reader.run_append (r : Reader α) (xs ys : List α) :
    r.run d (xs ++ ys) = (r.run d xs).bind fun r' => r'.run d ys := by
  simp only [run, List.foldlM_append]
  rfl

/-- Inside of a quoted field nothing is special but the quote, and that is doubled. -/
theorem Reader.run_double (r : Reader α) (hr : r.mode = .quoted) (text : List α) :
    r.run d (Field.double d text) = some { r with field := r.field ++ text } := by
  induction text generalizing r with
  | nil => simp [Field.double, run]
  | cons c text ih =>
      have hstep : r.run d (if c = d.quote then [c, c] else [c]) = some (r.push c .quoted) := by
        split
        case isTrue hc => simp [run, step, hr, hc, push]
        case isFalse hc => simp [run, step, hr, hc]
      rw [Field.double, List.flatMap_cons, run_append, hstep, Option.bind_some]
      have hrest := ih (r.push c .quoted) rfl
      rw [Field.double] at hrest
      rw [hrest]
      simp [push, hr]

/-- A plain text, up to the symbol behind it. -/
theorem Reader.run_clean (r : Reader α) {m : Mode} (hr : r.mode = m) (hm : m = .start ∨ m = .plain)
    (text : List α) (clean : ∀ c ∈ text, c ≠ d.quote ∧ c ≠ d.sep ∧ c ≠ d.eol) :
    r.run d text =
      some { r with field := r.field ++ text, mode := if text = [] then m else .plain } := by
  induction text generalizing r m with
  | nil => simp [run, ← hr]
  | cons c text ih =>
      obtain ⟨hq, hs, he⟩ := clean c (by simp)
      have hone : r.run d [c] = some (r.push c .plain) := by
        rcases hm with rfl | rfl <;> simp [run, step, hr, hq, hs, he]
      have hrest := ih (r.push c .plain) rfl (.inr rfl) fun c' hc' => clean c' (by simp [hc'])
      rw [← List.singleton_append, run_append, hone, Option.bind_some, hrest]
      simp [push]

/-- A field, and the symbol that ends it. -/
theorem Reader.run_field (rows : List (List (List α))) (row : List (List α)) (f : Field d) (c : α)
    (hc : c = d.sep ∨ c = d.eol) :
    (⟨rows, row, [], .start⟩ : Reader α).run d (f.render ++ [c]) =
      some (if c = d.sep then ⟨rows, row ++ [f.text], [], .start⟩
        else fresh (rows ++ [row ++ [f.text]])) := by
  have hq : c ≠ d.quote := by
    rcases hc with rfl | rfl
    · exact d.quote_ne_sep.symm
    · exact d.quote_ne_eol.symm
  have hend (r : Reader α) (hr : r.mode ≠ .quoted) :
      r.run d [c] = some (if c = d.sep then r.endField else r.endRow) := by
    rcases hc with rfl | rfl
    · cases hm : r.mode <;> simp_all [run, step]
    · have hse := d.sep_ne_eol.symm
      cases hm : r.mode <;> simp_all [run, step]
  cases f with
  | plain text clean =>
      rw [Field.render, run_append, run_clean _ rfl (.inl rfl) text clean, Option.bind_some, hend]
      · split <;> simp [endField, endRow, Field.text]
      · split <;> simp
  | quoted text =>
      have hopen : (⟨rows, row, [], .start⟩ : Reader α).run d [d.quote]
          = some ⟨rows, row, [], .quoted⟩ := by
        simp [run, step]
      have hclose : (⟨rows, row, [] ++ text, .quoted⟩ : Reader α).run d [d.quote]
          = some ⟨rows, row, text, .closing⟩ := by
        simp [run, step]
      rw [Field.render, ← List.singleton_append, List.append_assoc, List.append_assoc, run_append,
        hopen, Option.bind_some, run_append, run_double _ rfl, Option.bind_some, run_append, hclose,
        Option.bind_some, hend _ (by simp)]
      split <;> simp [endField, endRow, Field.text]

/-- The rest of a row. -/
theorem Reader.run_rest (rest : List (Field d)) (rows : List (List (List α)))
    (row : List (List α)) (f : Field d) :
    (⟨rows, row, [], .start⟩ : Reader α).run d (renderRow d f rest) =
      some (fresh (rows ++ [row ++ f.text :: rest.map Field.text])) := by
  induction rest generalizing row f with
  | nil =>
      have h := run_field rows row f d.eol (.inr rfl)
      rw [if_neg d.sep_ne_eol.symm] at h
      simpa [renderRow] using h
  | cons g rest ih =>
      have h := run_field rows row f d.sep (.inl rfl)
      rw [if_pos rfl] at h
      have hsplit : renderRow d f (g :: rest) = (f.render ++ [d.sep]) ++ renderRow d g rest := by
        simp [renderRow]
      rw [hsplit, run_append, h, Option.bind_some, ih]
      simp

theorem Reader.run_rows (rows : List (Field d × List (Field d))) (before : List (List (List α))) :
    (fresh before).run d (rows.flatMap fun r => renderRow d r.1 r.2) =
      some (fresh (before ++ rows.map fun r => r.1.text :: r.2.map Field.text)) := by
  induction rows generalizing before with
  | nil => simp [run]
  | cons r rows ih =>
      have hrow := run_rest r.2 before [] r.1
      rw [List.flatMap_cons, run_append]
      simp only [fresh] at hrow ⊢
      rw [hrow, Option.bind_some]
      have hih := ih (before ++ [[] ++ r.1.text :: r.2.map Field.text])
      simp only [fresh] at hih
      rw [hih]
      simp

/-- Rows behind a text that is itself whole rows are read back as they were. -/
theorem read_rows {text : List α} {before : List (List (List α))} (h : read d text = some before)
    (rows : List (Field d × List (Field d))) :
    read d (text ++ rows.flatMap fun r => renderRow d r.1 r.2) =
      some (before ++ rows.map fun r => r.1.text :: r.2.map Field.text) := by
  have hrun : (Reader.fresh []).run d text = some (.fresh before) := by
    unfold read at h
    split at h
    · rename_i rows' hrun
      rw [Option.some.inj h] at hrun
      exact hrun
    · contradiction
  rw [read, Reader.run_append, hrun, Option.bind_some, Reader.run_rows]
  rfl

end

end Csv
