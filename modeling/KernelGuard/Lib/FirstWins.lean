/-
A table with a unique key into which rows are inserted unless their key is taken.

What is kept of a sequence of rows is the first row of each key (`mem_insertAll`).  Two
sequences with the same rows in another order therefore leave the same keys, but not the same
rows: whatever a row has besides its key depends on which came first.
-/
import Mathlib.Data.List.Basic

namespace FirstWins

variable {α κ : Type} [DecidableEq κ] (key : α → κ)

/-- Insert, or ignore a row whose key is taken. -/
def insertNew (rows : List α) (x : α) : List α :=
  if rows.any fun r => decide (key r = key x) then rows else rows ++ [x]

def insertAll (rows : List α) (xs : List α) : List α := xs.foldl (insertNew key) rows

variable {key}

theorem insertAll_append (rows xs ys : List α) :
    insertAll key rows (xs ++ ys) = insertAll key (insertAll key rows xs) ys :=
  List.foldl_append

theorem taken_iff {rows : List α} {k : κ} :
    (rows.any fun r => decide (key r = k)) = true ↔ ∃ r ∈ rows, key r = k := by
  simp

/-- What is in the table was there before, or is the first row of a key that was free. -/
theorem mem_insertAll {rows xs : List α} {x : α} :
    x ∈ insertAll key rows xs ↔
      x ∈ rows ∨ (∀ r ∈ rows, key r ≠ key x) ∧
        xs.find? (fun y => decide (key y = key x)) = some x := by
  induction xs generalizing rows with
  | nil => simp [insertAll]
  | cons y rest ih =>
      show x ∈ insertAll key (insertNew key rows y) rest ↔ _
      rw [ih, insertNew]
      by_cases htaken : ∃ r ∈ rows, key r = key y
      · rw [if_pos (taken_iff.mpr htaken)]
        obtain ⟨r, hr, hry⟩ := htaken
        by_cases hkey : key y = key x
        · -- The key of `x` is taken, so neither side lets it in.
          have hnot : ¬∀ r ∈ rows, key r ≠ key x := fun h => h r hr (hry.trans hkey)
          simp [hnot]
        · rw [List.find?_cons_of_neg (by simpa using hkey)]
      · rw [if_neg (fun h => htaken (taken_iff.mp h))]
        by_cases hkey : key y = key x
        · rw [List.find?_cons_of_pos (by simpa using hkey), List.mem_append, List.mem_singleton]
          have hfree : ∀ r ∈ rows, key r ≠ key x :=
            fun r hr heq => htaken ⟨r, hr, heq.trans hkey.symm⟩
          have hnot : ¬∀ r ∈ rows ++ [y], key r ≠ key x :=
            fun h => h y (List.mem_append_right _ (List.mem_singleton.mpr rfl)) hkey
          simp only [hnot, false_and, or_false, Option.some.injEq]
          refine or_congr Iff.rfl ⟨fun h => ⟨hfree, h.symm⟩, fun h => h.2.symm⟩
        · rw [List.find?_cons_of_neg (by simpa using hkey), List.mem_append, List.mem_singleton]
          have hne : x ≠ y := fun heq => hkey (by rw [heq])
          simp only [hne, or_false]
          refine or_congr Iff.rfl (and_congr ⟨fun h r hr => h r (List.mem_append_left _ hr),
            fun h r hr => ?_⟩ Iff.rfl)
          rcases List.mem_append.mp hr with hr | hr
          · exact h r hr
          · rw [List.mem_singleton.mp hr]
            exact hkey

end FirstWins
