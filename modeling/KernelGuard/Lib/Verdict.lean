/-
A chain of checks and what it decides.

A validator reads, checks, reads on and returns what it found.  `Judges bad P a x`
says that the computation `x` accepts with `a` exactly when `P` holds, and refuses
with an error that `bad` allows otherwise; in particular it stops with no other
error.  The rules follow the chain from its first check on: `Judges.check` for a
test that ends it, `Judges.step` for a read that succeeds, `Judges.and` for one
validator after another.
-/

variable {ε α β : Type}

def Judges (bad : ε → Prop) (P : Prop) (a : α) (x : Except ε α) : Prop :=
  (P → x = .ok a) ∧ (¬P → ∃ e, bad e ∧ x = .error e)

namespace Judges

variable {bad : ε → Prop} {P Q : Prop} {a : α} {b : β} {x : Except ε α}

theorem accept (h : P) : Judges bad P a (.ok a) :=
  ⟨fun _ => rfl, fun hn => absurd h hn⟩

theorem refuse {e : ε} (hbad : bad e) (h : ¬P) : Judges bad P a (.error e) :=
  ⟨fun hp => absurd hp h, fun _ => ⟨e, hbad, rfl⟩⟩

/-- A test that ends the chain: it must be false of everything acceptable. -/
theorem check {c : Prop} [Decidable c] {e : ε} {k : Unit → Except ε α} (hbad : bad e)
    (hc : c → ¬P) (hk : ¬c → Judges bad P a (k ())) :
    Judges bad P a ((if c then .error e else .ok ()) >>= k) := by
  by_cases h : c
  · rw [if_pos h]
    exact refuse hbad (hc h)
  · rw [if_neg h]
    exact hk h

theorem step {y : Except ε β} {k : β → Except ε α} (hy : y = .ok b)
    (hk : Judges bad P a (k b)) : Judges bad P a (y >>= k) := by
  rw [hy]
  exact hk

theorem and {k : α → Except ε β} (hx : Judges bad P a x)
    (hk : P → Judges bad Q b (k a)) : Judges bad (P ∧ Q) b (x >>= k) := by
  by_cases hp : P
  · rw [hx.1 hp]
    refine ⟨fun h => (hk hp).1 h.2, fun h => (hk hp).2 fun hq => h ⟨hp, hq⟩⟩
  · obtain ⟨e, hbad, hxe⟩ := hx.2 hp
    rw [hxe]
    exact refuse hbad fun h => hp h.1

theorem congr (h : P ↔ Q) (hx : Judges bad P a x) : Judges bad Q a x :=
  ⟨fun hq => hx.1 (h.mpr hq), fun hq => hx.2 fun hp => hq (h.mp hp)⟩

end Judges
