/-
Runs of a deterministic machine.

A machine is a step function `σ → α → σ`, and a run is a list of actions.  Every
concurrent system of the development is put in this form: the actions of all its
parties are constructors of one type, so that a list of actions *is* an
interleaving, and "for every interleaving" is a quantifier over lists.

Two rules carry the proofs.  `exec_invariant` is the plain one; `exec_invariant_of`
lets a step use a condition that the run is known to meet at every step, which is
how the conditions on schedules enter.
-/
import Mathlib.Data.List.Induction

namespace Run

variable {σ α β : Type}

/-- The state a run ends in. -/
def exec (step : σ → α → σ) (s : σ) (acts : List α) : σ := acts.foldl step s

@[simp] theorem exec_nil (step : σ → α → σ) (s : σ) : exec step s [] = s := rfl

@[simp] theorem exec_cons (step : σ → α → σ) (s : σ) (a : α) (acts : List α) :
    exec step s (a :: acts) = exec step (step s a) acts := rfl

theorem exec_append (step : σ → α → σ) (s : σ) (xs ys : List α) :
    exec step s (xs ++ ys) = exec step (exec step s xs) ys := by
  simp [exec]

theorem exec_snoc (step : σ → α → σ) (s : σ) (xs : List α) (a : α) :
    exec step s (xs ++ [a]) = step (exec step s xs) a := by
  simp [exec]

/-- `C` holds at every step of the run, of the state before the step and the action. -/
def Along (step : σ → α → σ) (s : σ) (acts : List α) (C : σ → α → Prop) : Prop :=
  ∀ pre a post, acts = pre ++ a :: post → C (exec step s pre) a

theorem Along.left {step : σ → α → σ} {s : σ} {xs ys : List α} {C : σ → α → Prop}
    (h : Along step s (xs ++ ys) C) : Along step s xs C := by
  intro pre a post hsplit
  exact h pre a (post ++ ys) (by simp [hsplit])

theorem Along.right {step : σ → α → σ} {s : σ} {xs ys : List α} {C : σ → α → Prop}
    (h : Along step s (xs ++ ys) C) : Along step (exec step s xs) ys C := by
  intro pre a post hsplit
  have hC := h (xs ++ pre) a post (by simp [hsplit])
  rw [exec_append] at hC
  exact hC

theorem Along.last {step : σ → α → σ} {s : σ} {xs : List α} {a : α} {C : σ → α → Prop}
    (h : Along step s (xs ++ [a]) C) : C (exec step s xs) a :=
  h xs a [] rfl

theorem Along.nil (step : σ → α → σ) (s : σ) (C : σ → α → Prop) : Along step s [] C := by
  intro pre a post hsplit
  simp at hsplit

theorem Along.cons {step : σ → α → σ} {s : σ} {a : α} {acts : List α} {C : σ → α → Prop}
    (ha : C s a) (h : Along step (step s a) acts C) : Along step s (a :: acts) C := by
  intro pre b post hsplit
  rcases pre with _ | ⟨c, pre⟩
  · simp only [List.nil_append, List.cons.injEq] at hsplit
    rw [← hsplit.1]
    exact ha
  · simp only [List.cons_append, List.cons.injEq] at hsplit
    rw [← hsplit.1]
    exact h pre b post hsplit.2

theorem along_cons {step : σ → α → σ} {s : σ} {a : α} {acts : List α} {C : σ → α → Prop} :
    Along step s (a :: acts) C ↔ C s a ∧ Along step (step s a) acts C := by
  refine ⟨fun h => ⟨h [] a acts rfl, fun pre b post hsplit => ?_⟩, fun h => .cons h.1 h.2⟩
  exact h (a :: pre) b post (by rw [hsplit]; rfl)

/-- A condition that can be tested at a step can be tested along a run. -/
instance Along.decide {step : σ → α → σ} {C : σ → α → Prop} [∀ s a, Decidable (C s a)] :
    ∀ (s : σ) (acts : List α), Decidable (Along step s acts C)
  | s, [] => .isTrue (.nil step s C)
  | s, a :: acts =>
      have : Decidable (Along step (step s a) acts C) := Along.decide (step s a) acts
      decidable_of_iff _ along_cons.symm

/-- Splitting a run at one of its steps: the step is the last one, or it is inside the rest. -/
theorem split_snoc {xs pre post : List α} {x e : α}
    (h : xs ++ [x] = pre ++ e :: post) :
    (pre = xs ∧ e = x ∧ post = []) ∨ ∃ post', post = post' ++ [x] ∧ xs = pre ++ e :: post' := by
  rcases List.eq_nil_or_concat post with rfl | ⟨post', y, rfl⟩
  · left
    obtain ⟨hpre, he⟩ := List.append_inj' h rfl
    simp only [List.cons.injEq, and_true] at he
    exact ⟨hpre.symm, he.symm, rfl⟩
  · right
    rw [List.concat_eq_append] at h ⊢
    rw [← List.cons_append, ← List.append_assoc] at h
    obtain ⟨hxs, hx⟩ := List.append_inj' h rfl
    simp only [List.cons.injEq, and_true] at hx
    exact ⟨post', by rw [hx], hxs⟩

theorem Along.snoc {step : σ → α → σ} {s : σ} {xs : List α} {a : α} {C : σ → α → Prop}
    (h : Along step s xs C) (ha : C (exec step s xs) a) : Along step s (xs ++ [a]) C := by
  intro pre b post hsplit
  rcases split_snoc hsplit with ⟨rfl, rfl, -⟩ | ⟨post', -, hxs⟩
  · exact ha
  · exact h pre b post' hxs

/-- What holds at the start and survives a step holds at the end of every run. -/
theorem exec_invariant {step : σ → α → σ} {P : σ → Prop}
    (hstep : ∀ s a, P s → P (step s a)) {s : σ} (h : P s) (acts : List α) :
    P (exec step s acts) := by
  induction acts generalizing s with
  | nil => exact h
  | cons a rest ih => exact ih (hstep s a h)

/-- The same for an invariant that survives only the steps that meet `C`. -/
theorem exec_invariant_of {step : σ → α → σ} {P : σ → Prop} {C : σ → α → Prop}
    (hstep : ∀ s a, P s → C s a → P (step s a)) {s : σ} (h : P s) (acts : List α)
    (hC : Along step s acts C) : P (exec step s acts) := by
  induction acts using List.reverseRecOn with
  | nil => exact h
  | append_singleton xs a ih =>
      rw [exec_snoc]
      exact hstep _ _ (ih hC.left) hC.last

/-! ### Traces

An output is recorded together with the state it was produced in, so that a
statement about a trace can speak of what was true at that moment.
-/

/-- The outputs of a run, each with the state before the step that produced it. -/
def trace (step : σ → α → σ) (out : σ → α → List β) (s : σ) : List α → List (σ × β)
  | [] => []
  | a :: rest => (out s a).map (fun b => (s, b)) ++ trace step out (step s a) rest

theorem trace_snoc (step : σ → α → σ) (out : σ → α → List β) (s : σ) (xs : List α) (a : α) :
    trace step out s (xs ++ [a])
      = trace step out s xs
        ++ (out (exec step s xs) a).map (fun b => (exec step s xs, b)) := by
  induction xs generalizing s with
  | nil => simp [trace]
  | cons x rest ih => simp [trace, ih, List.append_assoc]

/-- The outputs alone. -/
def outputs (step : σ → α → σ) (out : σ → α → List β) (s : σ) : List α → List β
  | [] => []
  | a :: rest => out s a ++ outputs step out (step s a) rest

theorem outputs_snoc (step : σ → α → σ) (out : σ → α → List β) (s : σ) (xs : List α) (a : α) :
    outputs step out s (xs ++ [a]) = outputs step out s xs ++ out (exec step s xs) a := by
  induction xs generalizing s with
  | nil => simp [outputs]
  | cons x rest ih => simp [outputs, ih, List.append_assoc]

/-- Every output has its step. -/
theorem mem_outputs {step : σ → α → σ} {out : σ → α → List β} {s : σ} {acts : List α} {b : β} :
    b ∈ outputs step out s acts ↔
      ∃ pre a post, acts = pre ++ a :: post ∧ b ∈ out (exec step s pre) a := by
  constructor
  · intro h
    induction acts using List.reverseRecOn with
    | nil => simp [outputs] at h
    | append_singleton xs a ih =>
        rw [outputs_snoc, List.mem_append] at h
        rcases h with h | h
        · obtain ⟨pre, c, post, hxs, hb⟩ := ih h
          exact ⟨pre, c, post ++ [a], by simp [hxs], hb⟩
        · exact ⟨xs, a, [], rfl, h⟩
  · intro h
    obtain ⟨pre, a, post, rfl, hb⟩ := h
    induction pre generalizing s with
    | nil => exact List.mem_append_left _ hb
    | cons c pre ih => exact List.mem_append_right _ (ih hb)

/-- What holds at the start and not at the end was broken by some step. -/
theorem exec_crossing {step : σ → α → σ} {P : σ → Prop} {s : σ} (h : P s) (acts : List α)
    (hend : ¬ P (exec step s acts)) :
    ∃ pre a post, acts = pre ++ a :: post ∧ P (exec step s pre) ∧
      ¬ P (step (exec step s pre) a) := by
  induction acts using List.reverseRecOn with
  | nil => exact absurd h hend
  | append_singleton xs a ih =>
      rw [exec_snoc] at hend
      by_cases hxs : P (exec step s xs)
      · exact ⟨xs, a, [], rfl, hxs, hend⟩
      · obtain ⟨pre, c, post, hsplit, hpre, hstep⟩ := ih hxs
        exact ⟨pre, c, post ++ [a], by simp [hsplit], hpre, hstep⟩

/-- A loop that reports as it goes. -/
def loop (body : α → σ → List β × σ) (l : List α) (s : σ) : List β × σ :=
  (outputs (fun s a => (body a s).2) (fun s a => (body a s).1) s l,
    exec (fun s a => (body a s).2) s l)

theorem loop_cons (body : α → σ → List β × σ) (a : α) (l : List α) (s : σ) :
    loop body (a :: l) s
      = ((body a s).1 ++ (loop body l (body a s).2).1, (loop body l (body a s).2).2) := rfl

theorem mem_loop {body : α → σ → List β × σ} {l : List α} {s : σ} {b : β} :
    b ∈ (loop body l s).1 ↔
      ∃ pre a post, l = pre ++ a :: post ∧ b ∈ (body a (loop body pre s).2).1 := mem_outputs

/-- A loop reports a `P` if some element does, where each turn can be judged by its element. -/
theorem exists_mem_loop {body : α → σ → List β × σ} {l : List α} {s : σ} {P : β → Prop}
    {Q : α → Prop} (h : ∀ pre a post, l = pre ++ a :: post →
      ((∃ b ∈ (body a (loop body pre s).2).1, P b) ↔ Q a)) :
    (∃ b ∈ (loop body l s).1, P b) ↔ ∃ a ∈ l, Q a := by
  constructor
  · intro hexists
    obtain ⟨b, hb, hP⟩ := hexists
    obtain ⟨pre, a, post, hsplit, hb⟩ := mem_loop.mp hb
    exact ⟨a, by simp [hsplit], (h pre a post hsplit).mp ⟨b, hb, hP⟩⟩
  · intro hexists
    obtain ⟨a, ha, hQ⟩ := hexists
    obtain ⟨pre, post, hsplit⟩ := List.append_of_mem ha
    obtain ⟨b, hb, hP⟩ := (h pre a post hsplit).mpr hQ
    exact ⟨b, mem_loop.mpr ⟨pre, a, post, hsplit, hb⟩, hP⟩

/-- What every turn on an element of the list keeps, the loop keeps. -/
theorem loop_invariant {body : α → σ → List β × σ} {P : σ → Prop} {l : List α}
    (hbody : ∀ a ∈ l, ∀ s, P s → P (body a s).2) {s : σ} (h : P s) : P (loop body l s).2 := by
  refine exec_invariant_of (C := fun _ a => a ∈ l) (fun s a hs ha => hbody a ha s hs) h l ?_
  intro pre a post hsplit
  simp [hsplit]

/-! ### Views

A view maps the states of one machine to those of another, and a run of the first is
seen as a run of the second.
-/

section View

variable {τ : Type} {step : σ → α → σ} {step' : τ → α → τ} (view : σ → τ)

theorem exec_view {s : σ} {acts : List α}
    (h : Along step s acts fun s a => view (step s a) = step' (view s) a) :
    view (exec step s acts) = exec step' (view s) acts := by
  induction acts generalizing s with
  | nil => rfl
  | cons a rest ih =>
      rw [along_cons] at h
      rw [exec_cons, exec_cons, ih h.2, h.1]

/-- A condition on the view is a condition on the run that is seen. -/
theorem along_view {s : σ} {acts : List α} {C : τ → α → Prop}
    (h : Along step s acts fun s a => view (step s a) = step' (view s) a) :
    Along step s acts (fun s a => C (view s) a) ↔ Along step' (view s) acts C := by
  induction acts generalizing s with
  | nil => exact ⟨fun _ => .nil _ _ _, fun _ => .nil _ _ _⟩
  | cons a rest ih =>
      rw [along_cons] at h
      rw [along_cons, along_cons, ih h.2, h.1]

theorem outputs_view {out : σ → α → List β} {out' : τ → α → List β} {p : β → Bool} {s : σ}
    {acts : List α}
    (h : Along step s acts fun s a => view (step s a) = step' (view s) a)
    (hout : Along step s acts fun s a => (out s a).filter p = out' (view s) a) :
    (outputs step out s acts).filter p = outputs step' out' (view s) acts := by
  induction acts generalizing s with
  | nil => rfl
  | cons a rest ih =>
      rw [along_cons] at h hout
      rw [outputs, outputs, List.filter_append, hout.1, ih h.2 hout.2, h.1]

end View

end Run
