/-
Lists laid out in a memory.

A memory is a function from addresses.  `Holds mem p l` says that the cells from `p` on
hold the elements of `l`; a write outside of them changes nothing (`Holds.update`).
-/
import Mathlib.Data.List.GetD
import Mathlib.Logic.Function.Basic

namespace Memory

variable {α : Type}

/-- The cells from `p` on hold `l`. -/
def Holds (mem : Nat → α) : Nat → List α → Prop
  | _, [] => True
  | p, c :: l => mem p = c ∧ Holds mem (p + 1) l

theorem Holds.congr {mem mem' : Nat → α} {l : List α} :
    ∀ {p : Nat}, Holds mem p l → (∀ i, p ≤ i → i < p + l.length → mem' i = mem i) →
      Holds mem' p l := by
  induction l with
  | nil => exact fun _ _ => trivial
  | cons c l ih =>
      intro p h hsame
      rw [List.length_cons] at hsame
      refine ⟨?_, ih h.2 fun i hlo hhi => hsame i (by omega) (by omega)⟩
      rw [hsame p (Nat.le_refl p) (by omega)]
      exact h.1

/-- A write outside of the list. -/
theorem Holds.update {mem : Nat → α} {l : List α} {p q : Nat} {c : α} (h : Holds mem p l)
    (hq : q < p ∨ p + l.length ≤ q) : Holds (Function.update mem q c) p l := by
  refine h.congr fun i hlo hhi => Function.update_of_ne ?_ c mem
  omega

/-- A write behind the list makes it longer. -/
theorem Holds.snoc {mem : Nat → α} {l : List α} {c : α} :
    ∀ {p : Nat}, Holds mem p l → mem (p + l.length) = c → Holds mem p (l ++ [c]) := by
  induction l with
  | nil => exact fun _ hc => ⟨hc, trivial⟩
  | cons d l ih =>
      intro p h hc
      refine ⟨h.1, ih h.2 ?_⟩
      rw [← hc, List.length_cons]
      congr 1
      omega

theorem Holds.push {mem : Nat → α} {l : List α} {p : Nat} (h : Holds mem p l) (c : α) :
    Holds (Function.update mem (p + l.length) c) p (l ++ [c]) :=
  (h.update (Or.inr (Nat.le_refl _))).snoc (Function.update_self _ c mem)

/-- A list is a memory itself. -/
theorem holds_getD (d : α) (pre l post : List α) :
    Holds (fun i => (pre ++ (l ++ post)).getD i d) pre.length l := by
  induction l generalizing pre with
  | nil => trivial
  | cons c l ih =>
      refine ⟨?_, ?_⟩
      · simp only
        rw [List.getD_append_right _ _ _ _ (Nat.le_refl _), Nat.sub_self]
        rfl
      · have h := ih (pre ++ [c])
        rw [List.length_append, List.length_singleton, List.append_assoc,
          List.singleton_append] at h
        exact h

end Memory
