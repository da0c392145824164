/-
Binary search over the positions of a table.

The table is only seen through `cmp`, the sign of which says how an entry stands to what is
looked for.  Ascending order is what `Ascends` says of these signs: they are negative up to
some point, zero at most once, and positive from there on.
-/
import Mathlib.Data.Nat.Notation

namespace BinarySearch

/-- The candidates are `[lo, hi)`. -/
def search (cmp : Nat → Int) : Nat → Nat → Nat → Option Nat
  | 0, _, _ => none
  | fuel + 1, lo, hi =>
      if lo < hi then
        let mid := lo + (hi - lo) / 2
        if cmp mid = 0 then some mid
        else if cmp mid < 0 then search cmp fuel (mid + 1) hi
        else search cmp fuel lo mid
      else none

/-- In front of an entry that is not too large, all are too small. -/
def Ascends (cmp : Nat → Int) (n : Nat) : Prop :=
  ∀ i j, i < j → j < n → cmp j ≤ 0 → cmp i < 0

section

variable {cmp : Nat → Int} {n i mid : Nat}

theorem Ascends.eq_of_zero (h : Ascends cmp n) (hi : i < n) (hmid : mid < n) (hzero : cmp mid = 0)
    (hz : cmp i = 0) : mid = i := by
  rcases Nat.lt_trichotomy mid i with hlt | heq | hgt
  · have := h mid i hlt hi (by omega)
    omega
  · exact heq
  · have := h i mid hgt hmid (by omega)
    omega

theorem Ascends.behind (h : Ascends cmp n) (hmid : mid < n) (hneg : cmp mid < 0)
    (hz : cmp i = 0) : mid < i := by
  rcases Nat.lt_trichotomy mid i with hlt | rfl | hgt
  · exact hlt
  · omega
  · have := h i mid hgt hmid (by omega)
    omega

theorem Ascends.before (h : Ascends cmp n) (hi : i < n) (hpos : 0 < cmp mid) (hz : cmp i = 0) :
    i < mid := by
  rcases Nat.lt_trichotomy mid i with hlt | rfl | hgt
  · have := h mid i hlt hi (by omega)
    omega
  · omega
  · exact hgt

end

theorem search_iff {cmp : Nat → Int} {n fuel lo hi i : Nat} (h : Ascends cmp n) (hn : hi ≤ n)
    (hfuel : hi - lo ≤ fuel) :
    search cmp fuel lo hi = some i ↔ lo ≤ i ∧ i < hi ∧ cmp i = 0 := by
  induction fuel generalizing lo hi with
  | zero =>
      rw [search]
      exact ⟨nofun, by omega⟩
  | succ fuel ih =>
      rw [search]
      by_cases hne : lo < hi
      · rw [if_pos hne]
        dsimp only
        have hlow : lo ≤ lo + (hi - lo) / 2 := Nat.le_add_right _ _
        have hhigh : lo + (hi - lo) / 2 < hi := by omega
        generalize lo + (hi - lo) / 2 = mid at hlow hhigh
        by_cases hzero : cmp mid = 0
        · rw [if_pos hzero]
          refine ⟨fun heq => ?_, fun hr => ?_⟩
          · obtain rfl := Option.some.inj heq
            exact ⟨hlow, hhigh, hzero⟩
          · rw [h.eq_of_zero (by omega) (by omega) hzero hr.2.2]
        · rw [if_neg hzero]
          by_cases hneg : cmp mid < 0
          · rw [if_pos hneg, ih hn (by omega)]
            refine ⟨fun hr => ⟨by omega, hr.2.1, hr.2.2⟩, fun hr => ⟨?_, hr.2.1, hr.2.2⟩⟩
            exact h.behind (by omega) hneg hr.2.2
          · rw [if_neg hneg, ih (by omega) (by omega)]
            refine ⟨fun hr => ⟨hr.1, by omega, hr.2.2⟩, fun hr => ⟨hr.1, ?_, hr.2.2⟩⟩
            exact h.before (by omega) (by omega) hr.2.2
      · rw [if_neg hne]
        exact ⟨nofun, by omega⟩

/-- The candidates get fewer in every round, so as many rounds as there are candidates end the
search; more rounds change nothing. -/
theorem search_rounds {cmp : Nat → Int} {fuel fuel' lo hi : Nat} (h : hi - lo ≤ fuel)
    (h' : hi - lo ≤ fuel') : search cmp fuel lo hi = search cmp fuel' lo hi := by
  induction fuel generalizing fuel' lo hi with
  | zero =>
      cases fuel' with
      | zero => rfl
      | succ fuel' => rw [search, search, if_neg (by omega)]
  | succ fuel ih =>
      cases fuel' with
      | zero => rw [search, search, if_neg (by omega)]
      | succ fuel' =>
          rw [search, search]
          by_cases hne : lo < hi
          · rw [if_pos hne, if_pos hne]
            dsimp only
            rw [@ih fuel' (lo + (hi - lo) / 2 + 1) hi (by omega) (by omega),
              @ih fuel' lo (lo + (hi - lo) / 2) (by omega) (by omega)]
          · rw [if_neg hne, if_neg hne]

end BinarySearch
