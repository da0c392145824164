/-
Rundown protection: how a resource is taken from users that come and go.

A user counts itself in, looks whether the gate is open, and uses the resource only if
it is; when it is done it counts itself out.  The owner shuts the gate first and then
waits to see the count at zero.  `Rules` says what one step of all the parties may do to
what matters here, and `Ok` is what every such step keeps: once the owner has seen the
zero, nobody uses the resource and nobody ever will.  A user may still be counted then:
it came late, and finds the gate shut.

The count itself is a word that wraps; `tally` is the number it stands for.
-/
import Mathlib.Algebra.GroupWithZero.Nat
import Mathlib.Data.Fintype.Card
import Mathlib.Data.Finset.Card

namespace Rundown

variable {ι : Type}

/-- What a rundown is about. -/
structure Ctl (ι : Type) where
  isOpen : Bool
  /-- Who has counted itself in. -/
  counted : ι → Bool
  /-- Who has found the gate open, and uses the resource. -/
  user : ι → Bool
  /-- The owner has seen the count at zero behind a shut gate. -/
  drained : Bool

/-- What a step may do. -/
structure Rules (r r' : Ctl ι) : Prop where
  /-- The gate is not opened again. -/
  shut : r'.isOpen = true → r.isOpen = true
  /-- A user is counted, and became one while the gate was open. -/
  user : ∀ i, r'.user i = true → r'.counted i = true ∧ (r.user i = true ∨ r.isOpen = true)
  /-- The owner goes on only when the gate is shut and the count is zero. -/
  drained : r'.drained = true →
    r.drained = true ∨ (r.isOpen = false ∧ ∀ i, r.counted i = false)

/-- What the rules keep. -/
structure Ok (r : Ctl ι) : Prop where
  counted : ∀ i, r.user i = true → r.counted i = true
  shut : r.drained = true → r.isOpen = false
  unused : r.drained = true → ∀ i, r.user i = false

theorem Ok.step {r r' : Ctl ι} (h : Ok r) (hr : Rules r r') : Ok r' := by
  have hgate (hd : r'.drained = true) : r.isOpen = false := by
    rcases hr.drained hd with hd | ⟨hopen, -⟩
    · exact h.shut hd
    · exact hopen
  have hnone (hd : r'.drained = true) (i : ι) : r.user i = false := by
    rcases hr.drained hd with hd | ⟨-, hzero⟩
    · exact h.unused hd i
    · by_contra hi
      have := h.counted i (by simpa using hi)
      rw [hzero i] at this
      contradiction
  refine ⟨fun i hi => (hr.user i hi).1, fun hd => ?_, fun hd i => ?_⟩
  · by_contra ho
    have := hr.shut (by simpa using ho)
    rw [hgate hd] at this
    contradiction
  · by_contra hi
    rcases (hr.user i (by simpa using hi)).2 with hu | ho
    · rw [hnone hd i] at hu
      contradiction
    · rw [hgate hd] at ho
      contradiction

/-! ### The count -/

section Count

variable [Fintype ι]

/-- How many there are. -/
def tally (f : ι → Bool) : Nat := (Finset.univ.filter fun i => f i = true).card

theorem tally_le (f : ι → Bool) : tally f ≤ Fintype.card ι := Finset.card_filter_le _ _

theorem tally_eq_zero {f : ι → Bool} : tally f = 0 ↔ ∀ i, f i = false := by
  simp [tally, Finset.filter_eq_empty_iff]

theorem tally_none : tally (fun _ : ι => false) = 0 := tally_eq_zero.mpr fun _ => rfl

theorem word_zero {f : ι → Bool} {c : UInt32} (hc : c.toNat = tally f) (h : c = 0) :
    ∀ i, f i = false := by
  apply tally_eq_zero.mp
  rw [← hc, h]
  rfl

variable [DecidableEq ι]

theorem tally_enter {f : ι → Bool} {i : ι} (hi : f i = false) :
    tally (Function.update f i true) = tally f + 1 := by
  have hset : (Finset.univ.filter fun j => Function.update f i true j = true)
      = insert i (Finset.univ.filter fun j => f j = true) := by
    ext j
    by_cases hj : j = i
    · simp [hj]
    · simp [hj]
  rw [tally, hset, Finset.card_insert_of_notMem (by simp [hi]), tally]

theorem tally_leave {f : ι → Bool} {i : ι} (hi : f i = true) :
    tally (Function.update f i false) + 1 = tally f := by
  have h := tally_enter (f := Function.update f i false) (i := i) (by simp)
  rw [← h, Function.update_idem, ← hi, Function.update_eq_self]

/-! A word holds the count while there are fewer than `2 ^ 32` users. -/

variable {f : ι → Bool} {c : UInt32} {i : ι}

theorem word_enter (hcard : Fintype.card ι < 2 ^ 32) (hc : c.toNat = tally f) (hi : f i = false) :
    (c + 1).toNat = tally (Function.update f i true) := by
  have hle := tally_le (Function.update f i true)
  rw [tally_enter hi] at hle ⊢
  rw [UInt32.toNat_add, hc]
  simp only [UInt32.toNat_one]
  omega

theorem word_leave (hc : c.toNat = tally f) (hi : f i = true) :
    (c - 1).toNat = tally (Function.update f i false) := by
  have hpos := tally_leave hi
  have hlt := c.toNat_lt
  rw [UInt32.toNat_sub, hc] at *
  simp only [UInt32.toNat_one]
  omega

end Count

end Rundown
