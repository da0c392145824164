/-
A ring of `k` cells that keeps the last `k` entries of a growing history, and the
32-bit serial numbers its users see in place of positions in that history.

Entry `i` goes to cell `i % k`, so it stays until entry `i + k` is written.  A writer
that has begun the next entry has already given up the cell it will go to: `Holds m`
therefore says which entries are still there once `m` of them have been begun.
-/
import Mathlib.Logic.Function.Basic
import Mathlib.Data.Fin.Basic
import Mathlib.Algebra.GroupWithZero.Nat

namespace Ring

/-! ### Cells -/

section Cells

variable {α : Type} {k : Nat} [NeZero k]

/-- The cell of entry `i`. -/
def cell (k : Nat) [NeZero k] (i : Nat) : Fin k := Fin.ofNat k i

theorem cell_eq_iff {i j : Nat} : cell k i = cell k j ↔ i % k = j % k := by
  simp [cell, Fin.ext_iff]

/-- Two entries less than a ring apart are in different cells. -/
theorem cell_ne {i j : Nat} (hlt : i < j) (hnear : j < i + k) : cell k i ≠ cell k j := by
  intro h
  rw [cell_eq_iff] at h
  have hmod : (j - i) % k = 0 := Nat.sub_mod_eq_zero_of_mod_eq h.symm
  rw [Nat.mod_eq_of_lt (by omega)] at hmod
  omega

/-- Of the entries in `hist`, those within `k` of the `m`-th are in their cells. -/
def Holds (m : Nat) (ring : Fin k → α) (hist : List α) : Prop :=
  ∀ i n, hist[i]? = some n → m ≤ i + k → ring (cell k i) = n

theorem Holds.nil (m : Nat) (ring : Fin k → α) : Holds m ring [] := by
  intro i n hi
  simp at hi

/-- Beginning another entry gives up one cell. -/
theorem Holds.mono {m m' : Nat} {ring : Fin k → α} {hist : List α}
    (h : Holds m ring hist) (hle : m ≤ m') : Holds m' ring hist := by
  intro i n hi hm
  exact h i n hi (by omega)

/-- Writing to the cell of an entry that has been begun disturbs no entry before it. -/
theorem Holds.write {ring : Fin k → α} {hist : List α}
    (h : Holds (hist.length + 1) ring hist) (x : α) :
    Holds (hist.length + 1) (Function.update ring (cell k hist.length) x) hist := by
  intro i n hi hm
  have hlt : i < hist.length := (List.getElem?_eq_some_iff.mp hi).1
  rw [Function.update_of_ne (cell_ne hlt (by omega))]
  exact h i n hi hm

/-- An entry of an extended history is an old one, or the new one at the end. -/
theorem getElem?_snoc {hist : List α} {n x : α} {i : Nat} (h : (hist ++ [n])[i]? = some x) :
    hist[i]? = some x ∨ (i = hist.length ∧ n = x) := by
  rcases Nat.lt_or_ge i hist.length with hlt | hge
  · left
    rwa [List.getElem?_append_left hlt] at h
  · right
    have hi := (List.getElem?_eq_some_iff.mp h).1
    rw [List.length_append, List.length_singleton] at hi
    have hlen : i = hist.length := by omega
    subst hlen
    simp only [List.getElem?_concat_length, Option.some.injEq] at h
    exact ⟨rfl, h⟩

/-- The entry in the begun cell joins the history. -/
theorem Holds.append {ring : Fin k → α} {hist : List α} {n : α}
    (h : Holds (hist.length + 1) ring hist) (hn : ring (cell k hist.length) = n) :
    Holds (hist.length + 1) ring (hist ++ [n]) := by
  intro i x hx hm
  rcases getElem?_snoc hx with hold | ⟨rfl, rfl⟩
  · exact h i x hold hm
  · exact hn

/-- Beginning, writing and completing an entry in one go. -/
theorem Holds.push {ring : Fin k → α} {hist : List α} (h : Holds hist.length ring hist) (n : α) :
    Holds (hist ++ [n]).length (Function.update ring (cell k hist.length) n) (hist ++ [n]) := by
  rw [List.length_append, List.length_singleton]
  exact ((h.mono (Nat.le_succ _)).write n).append (Function.update_self _ _ _)

/-- The cell of `i` holds an entry later than `i`. -/
def Overwritten (ring : Fin k → α) (hist : List α) (i : Nat) : Prop :=
  ∃ j n, i < j ∧ cell k j = cell k i ∧ hist[j]? = some n ∧ ring (cell k i) = n

/-- An entry more than a ring behind has been overwritten. -/
theorem Holds.overwritten {ring : Fin k → α} {hist : List α} (h : Holds hist.length ring hist)
    {i : Nat} (hi : i + k < hist.length) : Overwritten ring hist i := by
  have hk : 0 < k := Nat.pos_of_ne_zero (NeZero.ne k)
  -- the last entry that shares the cell of `i`
  let q := (hist.length - 1 - i) / k
  have hmul : k * q ≤ hist.length - 1 - i := Nat.mul_div_le _ _
  have hlast : hist.length - 1 - i < k * q + k := by
    have := Nat.lt_mul_div_succ (hist.length - 1 - i) hk
    rwa [Nat.mul_succ] at this
  have hq : k ≤ k * q := by
    refine Nat.le_mul_of_pos_right _ ?_
    exact Nat.div_pos (by omega) hk
  have hj : i + k * q < hist.length := by omega
  have hcell : cell k (i + k * q) = cell k i := by
    rw [cell_eq_iff, Nat.add_mul_mod_self_left]
  refine ⟨i + k * q, hist[i + k * q], by omega, hcell, List.getElem?_eq_getElem hj, ?_⟩
  rw [← hcell]
  exact h _ _ (List.getElem?_eq_getElem hj) (by omega)

/-! ### Queues

The `n` cells from `h` on, as a queue: the head moves on when an entry is taken out, and an entry
is put in at `h + n`.
-/

/-- The entries of a queue, the oldest first. -/
def queue (ring : Fin k → α) (h n : Nat) : List α := (List.range n).map fun i => ring (cell k (h + i))

@[simp] theorem length_queue (ring : Fin k → α) (h n : Nat) : (queue ring h n).length = n := by
  rw [queue, List.length_map, List.length_range]

theorem cell_mod (i : Nat) : cell k (i % k) = cell k i := by
  rw [cell_eq_iff, Nat.mod_mod]

theorem queue_mod (ring : Fin k → α) (h n : Nat) : queue ring (h % k) n = queue ring h n := by
  refine List.map_congr_left fun i _ => ?_
  rw [cell_eq_iff.mpr (Nat.mod_add_mod h k i)]

theorem queue_push {ring : Fin k → α} {h n : Nat} (hroom : n < k) (x : α) :
    queue (Function.update ring (cell k (h + n)) x) h (n + 1) = queue ring h n ++ [x] := by
  rw [queue, List.range_succ, List.map_append, List.map_singleton, Function.update_self]
  congr 1
  refine List.map_congr_left fun i hi => ?_
  rw [List.mem_range] at hi
  rw [Function.update_of_ne (cell_ne (by omega) (by omega))]

theorem queue_pop (ring : Fin k → α) (h n : Nat) :
    queue ring h (n + 1) = ring (cell k h) :: queue ring (h + 1) n := by
  rw [queue, List.range_succ_eq_map, List.map_cons, List.map_map]
  congr 1
  refine List.map_congr_left fun i _ => ?_
  show ring (cell k (h + (i + 1))) = ring (cell k (h + 1 + i))
  rw [Nat.add_assoc, Nat.add_comm 1 i]

end Cells

/-! ### Serial numbers

`UInt32.ofNat i` is what a 32-bit counter shows for position `i`.  Differences of
serial numbers are right as long as the positions are less than `2 ^ 32` apart.
-/

theorem serial_sub {i j : Nat} (hle : i ≤ j) (hnear : j - i < 2 ^ 32) :
    (UInt32.ofNat j - UInt32.ofNat i).toNat = j - i := by
  rw [← UInt32.ofNat_sub hle, UInt32.toNat_ofNat']
  exact Nat.mod_eq_of_lt hnear

theorem serial_ne {i j : Nat} (hlt : i < j) (hnear : j - i < 2 ^ 32) :
    UInt32.ofNat j ≠ UInt32.ofNat i := by
  intro h
  have hsub := serial_sub (Nat.le_of_lt hlt) hnear
  rw [h, UInt32.sub_self] at hsub
  simp at hsub
  omega

theorem serial_succ (i : Nat) : UInt32.ofNat i + 1 = UInt32.ofNat (i + 1) := by
  rw [UInt32.ofNat_add]
  rfl

end Ring
