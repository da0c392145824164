/-
Removing entries from an array without an order.

An entry is removed by moving the last one into its place.  The one that was moved has not
been looked at, so a loop that removes entries this way stays where it is after a removal.
What is left is what was to be kept, in some order (`compact_perm`).
-/
import Mathlib.Data.List.Basic
import Mathlib.Algebra.GroupWithZero.Nat

namespace Compact

variable {α : Type}

/-- The last entry goes to place `i`. -/
def fill (l : List α) (i : Nat) : List α :=
  match l.getLast? with
  | none => []
  | some x => (l.set i x).dropLast

/-- The loop, from place `i` on. -/
def compact (drop : α → Bool) : Nat → Nat → List α → List α
  | 0, _, l => l
  | fuel + 1, i, l =>
      match l[i]? with
      | none => l
      | some x => if drop x then compact drop fuel i (fill l i) else compact drop fuel (i + 1) l

theorem fill_append_last (pre : List α) (x : α) : fill (pre ++ [x]) pre.length = pre := by
  rw [fill, List.getLast?_concat]
  simp only [List.set_append_right _ _ (Nat.le_refl _), Nat.sub_self, List.set_cons_zero,
    List.dropLast_concat]

theorem fill_append_cons (pre mid : List α) (x y : α) :
    fill (pre ++ x :: (mid ++ [y])) pre.length = pre ++ y :: mid := by
  have hlast : (pre ++ x :: (mid ++ [y])).getLast? = some y := by
    rw [← List.cons_append, ← List.append_assoc, List.getLast?_concat]
  rw [fill, hlast]
  simp only [List.set_append_right _ _ (Nat.le_refl _), Nat.sub_self, List.set_cons_zero]
  rw [← List.cons_append, ← List.append_assoc, List.dropLast_concat]

/-- What is left when the entry behind `pre` is removed: `pre`, and the rest in another order. -/
theorem fill_perm (pre post : List α) (x : α) :
    ∃ rest, fill (pre ++ x :: post) pre.length = pre ++ rest ∧ rest.Perm post := by
  rcases List.eq_nil_or_concat post with rfl | ⟨mid, y, rfl⟩
  · exact ⟨[], by rw [fill_append_last, List.append_nil], List.Perm.refl _⟩
  · refine ⟨y :: mid, ?_, ?_⟩
    · rw [List.concat_eq_append, fill_append_cons]
    · rw [List.concat_eq_append]
      exact (List.perm_append_singleton y mid).symm

theorem compact_append (drop : α → Bool) (fuel : Nat) : ∀ pre post : List α, post.length ≤ fuel →
    ∃ rest, compact drop fuel pre.length (pre ++ post) = pre ++ rest ∧
      rest.Perm (post.filter (!drop ·)) := by
  induction fuel with
  | zero =>
      intro pre post hlen
      obtain rfl : post = [] := List.eq_nil_of_length_eq_zero (Nat.le_zero.mp hlen)
      exact ⟨[], rfl, List.Perm.refl _⟩
  | succ fuel ih =>
      intro pre post hlen
      cases post with
      | nil =>
          refine ⟨[], ?_, List.Perm.refl _⟩
          rw [compact, List.append_nil, List.getElem?_eq_none (Nat.le_refl _)]
      | cons x post =>
          rw [List.length_cons] at hlen
          have hget : (pre ++ x :: post)[pre.length]? = some x := by
            rw [List.getElem?_append_right (Nat.le_refl _), Nat.sub_self]
            rfl
          rw [compact, hget]
          simp only
          by_cases hx : drop x = true
          · obtain ⟨swapped, hfill, hperm⟩ := fill_perm pre post x
            rw [if_pos hx, hfill, List.filter_cons_of_neg (by simp [hx])]
            obtain ⟨rest, hrest, hkept⟩ := ih pre swapped (by rw [hperm.length_eq]; omega)
            exact ⟨rest, hrest, hkept.trans (hperm.filter _)⟩
          · rw [if_neg hx, List.filter_cons_of_pos (by simp [hx])]
            obtain ⟨rest, hrest, hkept⟩ := ih (pre ++ [x]) post (by omega)
            rw [List.length_append, List.length_singleton, List.append_assoc,
              List.singleton_append] at hrest
            refine ⟨x :: rest, ?_, hkept.cons x⟩
            rw [hrest, List.append_assoc, List.singleton_append]

/-- The loop over the whole array keeps what was to be kept. -/
theorem compact_perm (drop : α → Bool) {fuel : Nat} {l : List α} (h : l.length ≤ fuel) :
    (compact drop fuel 0 l).Perm (l.filter (!drop ·)) := by
  obtain ⟨rest, hrest, hperm⟩ := compact_append drop fuel [] l h
  rw [List.length_nil, List.nil_append, List.nil_append] at hrest
  rw [hrest]
  exact hperm

end Compact
