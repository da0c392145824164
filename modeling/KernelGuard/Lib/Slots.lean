/-
A fixed number of cells as a finite map.

Each cell is free or holds a key with a value.  `Represents` says that no key is held twice and
what the table says about each of them, so that an operation on cells is an update of a
function, whichever cell it picks.
-/
import Mathlib.Data.Fintype.Card
import Mathlib.Logic.Function.Basic

namespace Slots

variable {n : Nat} {K V W : Type}

structure Represents (t : Fin n → Option (K × V)) (g : K → Option V) : Prop where
  distinct : ∀ {i j k v w}, t i = some (k, v) → t j = some (k, w) → i = j
  get : ∀ {k v}, g k = some v ↔ ∃ i, t i = some (k, v)

variable {t : Fin n → Option (K × V)} {g : K → Option V}

theorem Represents.empty : Represents (fun _ : Fin n => (none : Option (K × V))) fun _ => none where
  distinct := by
    intro i j k v w h
    simp at h
  get := by simp

/-- Nothing is said about a key that is not held. -/
theorem Represents.none_iff (h : Represents t g) {k : K} :
    g k = none ↔ ∀ i v, t i ≠ some (k, v) := by
  rw [Option.eq_none_iff_forall_ne_some]
  constructor
  · intro hnone i v hi
    exact hnone v (h.get.mpr ⟨i, hi⟩)
  · intro hfree v hv
    obtain ⟨i, hi⟩ := h.get.mp hv
    exact hfree i v hi

section

variable {i : Fin n} {k : K}

/-- When `k` is written to its own cell, or to a free one if it has none, the other cells have
other keys. -/
theorem Represents.other (h : Represents t g)
    (hcell : (∃ w, t i = some (k, w)) ∨ (t i = none ∧ g k = none)) {j : Fin n} {x : K} {w : V}
    (hji : j ≠ i) (hj : t j = some (x, w)) : x ≠ k := by
  intro hx
  rw [hx] at hj
  rcases hcell with ⟨u, hu⟩ | ⟨-, hnone⟩
  · exact hji (h.distinct hj hu)
  · exact h.none_iff.mp hnone j w hj

theorem Represents.put_distinct (h : Represents t g)
    (hcell : (∃ w, t i = some (k, w)) ∨ (t i = none ∧ g k = none)) (v : V) {a b : Fin n} {x : K}
    {u w : V} (ha : Function.update t i (some (k, v)) a = some (x, u))
    (hb : Function.update t i (some (k, v)) b = some (x, w)) : a = b := by
  by_cases hai : a = i <;> by_cases hbi : b = i
  · rw [hai, hbi]
  · rw [hai, Function.update_self] at ha
    rw [Function.update_of_ne hbi] at hb
    simp only [Option.some.injEq, Prod.mk.injEq] at ha
    exact absurd ha.1.symm (h.other hcell hbi hb)
  · rw [Function.update_of_ne hai] at ha
    rw [hbi, Function.update_self] at hb
    simp only [Option.some.injEq, Prod.mk.injEq] at hb
    exact absurd hb.1.symm (h.other hcell hai ha)
  · rw [Function.update_of_ne hai] at ha
    rw [Function.update_of_ne hbi] at hb
    exact h.distinct ha hb

/-- The key that is written is found with its new value. -/
theorem Represents.put_get_self (h : Represents t g)
    (hcell : (∃ w, t i = some (k, w)) ∨ (t i = none ∧ g k = none)) {v w : V} :
    v = w ↔ ∃ j, Function.update t i (some (k, v)) j = some (k, w) := by
  constructor
  · rintro rfl
    exact ⟨i, Function.update_self ..⟩
  · rintro ⟨j, hj⟩
    by_cases hji : j = i
    · rw [hji, Function.update_self] at hj
      simpa using hj
    · rw [Function.update_of_ne hji] at hj
      exact absurd rfl (h.other hcell hji hj)

/-- The other keys are found where they were. -/
theorem put_get_other {x : K} (hx : x ≠ k)
    (hcell : (∃ w, t i = some (k, w)) ∨ (t i = none ∧ g k = none)) {v w : V} :
    (∃ j, t j = some (x, w)) ↔ ∃ j, Function.update t i (some (k, v)) j = some (x, w) := by
  refine exists_congr fun j => ?_
  by_cases hji : j = i
  · rw [hji, Function.update_self]
    refine iff_of_false (fun hj => ?_) (fun hj => ?_)
    · rcases hcell with ⟨u, hu⟩ | ⟨hfree, -⟩
      · rw [hu] at hj
        simp only [Option.some.injEq, Prod.mk.injEq] at hj
        exact hx hj.1.symm
      · rw [hfree] at hj
        simp at hj
    · simp only [Option.some.injEq, Prod.mk.injEq] at hj
      exact hx hj.1.symm
  · rw [Function.update_of_ne hji]

/-- Writing a key to its own cell, or to a free one if it has none. -/
theorem Represents.put [DecidableEq K] (h : Represents t g)
    (hcell : (∃ w, t i = some (k, w)) ∨ (t i = none ∧ g k = none)) (v : V) :
    Represents (Function.update t i (some (k, v))) (Function.update g k (some v)) := by
  refine ⟨h.put_distinct hcell v, fun {x w} => ?_⟩
  by_cases hx : x = k
  · rw [hx, Function.update_self, Option.some.injEq]
    exact h.put_get_self hcell
  · rw [Function.update_of_ne hx, h.get]
    exact put_get_other hx hcell

end

/-- Freeing the cell of a key. -/
theorem Represents.drop [DecidableEq K] (h : Represents t g) {i : Fin n} {k : K} {v : V}
    (hi : t i = some (k, v)) :
    Represents (Function.update t i none) (Function.update g k none) := by
  constructor
  · intro a b x u w ha hb
    by_cases hai : a = i
    · rw [hai, Function.update_self] at ha
      simp at ha
    by_cases hbi : b = i
    · rw [hbi, Function.update_self] at hb
      simp at hb
    rw [Function.update_of_ne hai] at ha
    rw [Function.update_of_ne hbi] at hb
    exact h.distinct ha hb
  · intro x w
    by_cases hx : x = k
    · subst hx
      rw [Function.update_self]
      constructor
      · intro hw
        simp at hw
      · intro hex
        obtain ⟨j, hj⟩ := hex
        by_cases hji : j = i
        · rw [hji, Function.update_self] at hj
          simp at hj
        · rw [Function.update_of_ne hji] at hj
          exact absurd (h.distinct hj hi) hji
    · rw [Function.update_of_ne hx, h.get]
      constructor
      · intro hex
        obtain ⟨j, hj⟩ := hex
        have hji : j ≠ i := by
          rintro rfl
          rw [hi] at hj
          simp only [Option.some.injEq, Prod.mk.injEq] at hj
          exact hx hj.1.symm
        exact ⟨j, by rw [Function.update_of_ne hji]; exact hj⟩
      · intro hex
        obtain ⟨j, hj⟩ := hex
        by_cases hji : j = i
        · rw [hji, Function.update_self] at hj
          simp at hj
        · rw [Function.update_of_ne hji] at hj
          exact ⟨j, hj⟩

/-- No more keys are held than there are cells. -/
theorem Represents.card_le (h : Represents t g) {S : Finset K} (hS : ∀ k ∈ S, g k ≠ none) :
    S.card ≤ n := by
  have hcell : ∀ k : S, ∃ i v, t i = some (k.1, v) := by
    intro k
    obtain ⟨v, hv⟩ := Option.ne_none_iff_exists'.mp (hS k.1 k.2)
    obtain ⟨i, hi⟩ := h.get.mp hv
    exact ⟨i, v, hi⟩
  choose f v hf using hcell
  have hinj : Function.Injective f := by
    intro k l hkl
    have hk := hf k
    rw [hkl, hf l] at hk
    simp only [Option.some.injEq, Prod.mk.injEq] at hk
    exact Subtype.ext hk.1.symm
  calc S.card = Fintype.card S := (Fintype.card_coe S).symm
    _ ≤ Fintype.card (Fin n) := Fintype.card_le_of_injective f hinj
    _ = n := Fintype.card_fin n

/-- Going over all cells, changing values and freeing cells by their value. -/
theorem Represents.filterMap (h : Represents t g) (f : V → Option W) :
    Represents (fun i => (t i).bind fun p => (f p.2).map fun w => (p.1, w))
      fun k => (g k).bind f := by
  have hcell : ∀ {i k w}, ((t i).bind fun p => (f p.2).map fun w => (p.1, w)) = some (k, w) ↔
      ∃ v, t i = some (k, v) ∧ f v = some w := by
    intro i k w
    simp only [Option.bind_eq_some_iff, Option.map_eq_some_iff, Prod.exists, Prod.mk.injEq]
    constructor
    · intro hex
      obtain ⟨x, v, hi, u, hu, rfl, rfl⟩ := hex
      exact ⟨v, hi, hu⟩
    · intro hex
      obtain ⟨v, hi, hw⟩ := hex
      exact ⟨k, v, hi, w, hw, rfl, rfl⟩
  constructor
  · intro i j k v w hi hj
    obtain ⟨u, hu, -⟩ := hcell.mp hi
    obtain ⟨u', hu', -⟩ := hcell.mp hj
    exact h.distinct hu hu'
  · intro k w
    rw [Option.bind_eq_some_iff]
    constructor
    · intro hex
      obtain ⟨v, hv, hw⟩ := hex
      obtain ⟨i, hi⟩ := h.get.mp hv
      exact ⟨i, hcell.mpr ⟨v, hi, hw⟩⟩
    · intro hex
      obtain ⟨i, hi⟩ := hex
      obtain ⟨v, hv, hw⟩ := hcell.mp hi
      exact ⟨v, h.get.mpr ⟨i, hv⟩, hw⟩

/-- There is a free cell for a new key if the old keys and the new one are at most as many as cells. -/
theorem Represents.exists_free [DecidableEq K] (h : Represents t g) {S : Finset K}
    (hS : ∀ k, g k ≠ none → k ∈ S) (hcard : S.card ≤ n) {k : K} (hk : k ∈ S) (hnew : g k = none) :
    ∃ i, t i = none := by
  by_contra hfull
  have hsome : ∀ i, ∃ p, t i = some p := fun i =>
    Option.ne_none_iff_exists'.mp (fun hi => hfull ⟨i, hi⟩)
  choose p hp using hsome
  -- the keys of the cells are `n` different elements of `S` without `k`
  have hinj : Function.Injective fun i => (p i).1 := by
    intro i j hij
    have hi : t i = some ((p i).1, (p i).2) := hp i
    have hj : t j = some ((p i).1, (p j).2) := by
      rw [hp j]
      exact congrArg some (Prod.ext hij.symm rfl)
    exact h.distinct hi hj
  have hmaps : ∀ i ∈ (Finset.univ : Finset (Fin n)), (p i).1 ∈ S.erase k := by
    intro i _
    have hget : g (p i).1 = some (p i).2 := h.get.mpr ⟨i, hp i⟩
    rw [Finset.mem_erase]
    refine ⟨fun heq => ?_, hS _ (by rw [hget]; simp)⟩
    rw [heq, hnew] at hget
    simp at hget
  have hle := Finset.card_le_card_of_injOn _ hmaps (fun i _ j _ hij => hinj hij)
  rw [Finset.card_univ, Fintype.card_fin] at hle
  have hpos : 0 < S.card := Finset.card_pos.mpr ⟨k, hk⟩
  rw [Finset.card_erase_of_mem hk] at hle
  omega

end Slots
