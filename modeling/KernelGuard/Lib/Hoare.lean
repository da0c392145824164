/-
Pre- and postconditions for programs that have a state and may stop early.

`Triple P m Q E` says that `m`, started in a state with `P`, ends with `Q` or stops with `E`; an
early stop keeps the state it had.  There is one rule for each way programs are put together, and
for a loop over a list the invariant may speak of the elements that are left.

`Forgets m' m` says that `m'` is `m` with a second, ghost component of the state, which `m'` writes
and never looks at.  A property of the ghost component is proved of `m'`, and carries over to every
run of `m`.
-/

namespace Hoare

variable {ε σ τ α β : Type}

def Triple (P : σ → Prop) (m : EStateM ε σ α) (Q : α → σ → Prop) (E : ε → σ → Prop) : Prop :=
  ∀ s, P s → match m s with
    | .ok a s' => Q a s'
    | .error e s' => E e s'

namespace Triple

variable {P : σ → Prop} {Q Q' : α → σ → Prop} {R : β → σ → Prop} {E : ε → σ → Prop}

theorem pure {a : α} (h : ∀ s, P s → Q a s) : Triple P (pure a) Q E := h

theorem throw {e : ε} (h : ∀ s, P s → E e s) : Triple P (throw e) Q E := h

theorem bind {m : EStateM ε σ α} {k : α → EStateM ε σ β} (hm : Triple P m Q E)
    (hk : ∀ a, Triple (Q a) (k a) R E) : Triple P (m >>= k) R E := by
  intro s hs
  have hrun := hm s hs
  show match EStateM.bind m k s with
    | .ok b s' => R b s'
    | .error e s' => E e s'
  rw [EStateM.bind]
  cases hms : m s with
  | ok a s' =>
      rw [hms] at hrun
      exact hk a s' hrun
  | error e s' =>
      rw [hms] at hrun
      exact hrun

/-- A weaker postcondition. -/
theorem ensure {m : EStateM ε σ α} (hm : Triple P m Q E) (h : ∀ a s, Q a s → Q' a s) :
    Triple P m Q' E := by
  intro s hs
  have hrun := hm s hs
  cases hms : m s with
  | ok a s' =>
      rw [hms] at hrun
      exact h a s' hrun
  | error e s' =>
      rw [hms] at hrun
      exact hrun

/-- A precondition that does not speak of the state. -/
theorem assume {c : Prop} {m : EStateM ε σ α} (h : c → Triple P m Q E) :
    Triple (fun s => c ∧ P s) m Q E := fun s hs => h hs.1 s hs.2

/-- A loop; the invariant is over the accumulator and what is left of the list. -/
theorem foldlM {I : β → List α → σ → Prop} {f : β → α → EStateM ε σ β}
    (hstep : ∀ b a rest, Triple (I b (a :: rest)) (f b a) (fun b' => I b' rest) E) (b : β)
    (l : List α) : Triple (I b l) (l.foldlM f b) (fun b' => I b' []) E := by
  induction l generalizing b with
  | nil => exact pure fun s hs => hs
  | cons a rest ih =>
      rw [List.foldlM_cons]
      exact (hstep b a rest).bind ih

end Triple

/-- What is left of a result without the ghost component. -/
def forget : EStateM.Result ε (σ × τ) α → EStateM.Result ε σ α
  | .ok a s => .ok a s.1
  | .error e s => .error e s.1

def Forgets (m' : EStateM ε (σ × τ) α) (m : EStateM ε σ α) : Prop :=
  ∀ s t, forget (m' (s, t)) = m s

namespace Forgets

theorem pure (a : α) : Forgets (pure a : EStateM ε (σ × τ) α) (pure a) := fun _ _ => rfl

theorem throw (e : ε) : Forgets (throw e : EStateM ε (σ × τ) α) (throw e) := fun _ _ => rfl

theorem bind {m' : EStateM ε (σ × τ) α} {m : EStateM ε σ α} {k' : α → EStateM ε (σ × τ) β}
    {k : α → EStateM ε σ β} (hm : Forgets m' m) (hk : ∀ a, Forgets (k' a) (k a)) :
    Forgets (m' >>= k') (m >>= k) := by
  intro s t
  have hrun := hm s t
  show forget (EStateM.bind m' k' (s, t)) = EStateM.bind m k s
  rw [EStateM.bind, EStateM.bind, ← hrun]
  cases m' (s, t) with
  | ok a p => exact hk a p.1 p.2
  | error e p => rfl

theorem foldlM {f' : β → α → EStateM ε (σ × τ) β} {f : β → α → EStateM ε σ β}
    (hstep : ∀ b a, Forgets (f' b a) (f b a)) (b : β) (l : List α) :
    Forgets (l.foldlM f' b) (l.foldlM f b) := by
  induction l generalizing b with
  | nil => exact pure b
  | cons a rest ih =>
      rw [List.foldlM_cons, List.foldlM_cons]
      exact (hstep b a).bind ih

end Forgets

end Hoare
