/-
Threads that run side by side, each with the list of operations it has still to do.

An operation changes what the threads share and may put other operations in front of the rest,
so that a function that is called is the operations it comes to.  Anything may happen between
two operations of a thread.

`Owed` is the rule for what a thread has begun: it is done, or an operation that does it is still
to come.  It is kept by every step, and when no thread has anything to do it is done.

`pending` is for how often it is done.  It counts the operations of a kind that are still to do,
and a turn takes the one that is done out of it and puts in those that it comes to
(`pending_next`); so over a run those done and those still to do are together what was put there.
-/
import Mathlib.Algebra.GroupWithZero.Nat
import Mathlib.Data.List.Basic

namespace Threads

/-- A thread; the tag does not change. -/
structure Thread (τ ω : Type) where
  tag : τ
  ops : List ω

structure State (σ τ ω : Type) where
  shared : σ
  threads : List (Thread τ ω)

variable {σ τ ω ε : Type}

/-- The next operation of a thread. -/
def next (exec : τ → ε → ω → σ → List ω × σ) (s : State σ τ ω) (i : Nat) (e : ε) : State σ τ ω :=
  match s.threads[i]? with
  | none => s
  | some t =>
      match t.ops with
      | [] => s
      | o :: rest =>
          let (more, shared) := exec t.tag e o s.shared
          ⟨shared, s.threads.set i ⟨t.tag, more ++ rest⟩⟩

/-- Another thread. -/
def spawn (s : State σ τ ω) (t : Thread τ ω) : State σ τ ω := { s with threads := s.threads ++ [t] }

/-- A thread that has nothing to do is given something. -/
def wake (s : State σ τ ω) (i : Nat) (ops : List ω) : State σ τ ω :=
  match s.threads[i]? with
  | none => s
  | some t => if t.ops.isEmpty then { s with threads := s.threads.set i ⟨t.tag, ops⟩ } else s

/-- No thread has anything to do. -/
def Quiet (s : State σ τ ω) : Prop := ∀ t ∈ s.threads, t.ops = []

/-- Everything that is to be done. -/
def Todo (s : State σ τ ω) (t : τ) (o : ω) : Prop := ∃ th ∈ s.threads, th.tag = t ∧ o ∈ th.ops

theorem Quiet.not_todo {s : State σ τ ω} (h : Quiet s) (t : τ) (o : ω) : ¬Todo s t o := by
  rintro ⟨th, hth, -, ho⟩
  rw [h th hth] at ho
  cases ho

section

variable {exec : τ → ε → ω → σ → List ω × σ} {s : State σ τ ω} {i : Nat} {e : ε}

/-- A step does nothing, or it is one operation of a thread. -/
theorem next_cases (exec : τ → ε → ω → σ → List ω × σ) (s : State σ τ ω) (i : Nat) (e : ε) :
    next exec s i e = s ∨
      ∃ t o rest, s.threads[i]? = some ⟨t, o :: rest⟩ ∧
        next exec s i e = ⟨(exec t e o s.shared).2,
          s.threads.set i ⟨t, (exec t e o s.shared).1 ++ rest⟩⟩ := by
  rw [next]
  split
  · exact .inl rfl
  · rename_i th hth
    obtain ⟨t, ops⟩ := th
    cases ops with
    | nil => exact .inl rfl
    | cons o rest => exact .inr ⟨t, o, rest, hth, rfl⟩

theorem todo_of_getElem? {t : τ} {o : ω} {rest : List ω}
    (h : s.threads[i]? = some ⟨t, o :: rest⟩) : Todo s t o :=
  ⟨_, List.mem_of_getElem? h, rfl, List.mem_cons_self⟩

/-- A step that changes what is shared is an operation, and what it comes to is to be done. -/
theorem next_did (exec : τ → ε → ω → σ → List ω × σ) (s : State σ τ ω) (i : Nat) (e : ε) :
    (next exec s i e).shared = s.shared ∨
      ∃ t o, Todo s t o ∧ (next exec s i e).shared = (exec t e o s.shared).2 ∧
        ∀ o' ∈ (exec t e o s.shared).1, Todo (next exec s i e) t o' := by
  obtain hsame | ⟨t, o, rest, hi, hnext⟩ := next_cases exec s i e
  · exact .inl (congrArg State.shared hsame)
  · obtain ⟨hlt, -⟩ := List.getElem?_eq_some_iff.mp hi
    refine .inr ⟨t, o, todo_of_getElem? hi, congrArg State.shared hnext, fun o' ho' => ?_⟩
    rw [hnext]
    exact ⟨_, List.mem_set hlt _, rfl, List.mem_append_left _ ho'⟩

/-- What is to be done after a step was to be done before it, or it comes from the operation that
was done. -/
theorem todo_next {t : τ} {o : ω} (h : Todo (next exec s i e) t o) :
    Todo s t o ∨ ∃ o', Todo s t o' ∧ o ∈ (exec t e o' s.shared).1 ∧
      (next exec s i e).shared = (exec t e o' s.shared).2 := by
  obtain hsame | ⟨t', o', rest, hi, hnext⟩ := next_cases exec s i e
  · exact .inl (hsame ▸ h)
  · rw [hnext] at h ⊢
    obtain ⟨th, hth, rfl, ho⟩ := h
    obtain hold | rfl := List.mem_or_eq_of_mem_set hth
    · exact .inl ⟨th, hold, rfl, ho⟩
    · obtain hmore | hrest := List.mem_append.mp ho
      · exact .inr ⟨o', todo_of_getElem? hi, hmore, rfl⟩
      · exact .inl ⟨_, List.mem_of_getElem? hi, rfl, List.mem_cons_of_mem _ hrest⟩

/-- What is to be done stays so, or the step has done it. -/
theorem todo_kept (exec : τ → ε → ω → σ → List ω × σ) (i : Nat) (e : ε) {t : τ} {o : ω}
    (h : Todo s t o) :
    Todo (next exec s i e) t o ∨
      ((next exec s i e).shared = (exec t e o s.shared).2 ∧
        ∀ o' ∈ (exec t e o s.shared).1, Todo (next exec s i e) t o') := by
  obtain hsame | ⟨t', o', rest, hi, hnext⟩ := next_cases exec s i e
  · exact .inl (hsame.symm ▸ h)
  · obtain ⟨th, hth, rfl, ho⟩ := h
    obtain ⟨hlt, -⟩ := List.getElem?_eq_some_iff.mp hi
    have hset : (⟨t', (exec t' e o' s.shared).1 ++ rest⟩ : Thread τ ω) ∈
        s.threads.set i ⟨t', (exec t' e o' s.shared).1 ++ rest⟩ := List.mem_set hlt _
    rw [hnext]
    by_cases hthread : th ∈ s.threads.set i ⟨t', (exec t' e o' s.shared).1 ++ rest⟩
    · exact .inl ⟨th, hthread, rfl, ho⟩
    · -- It is the thread that has moved.
      obtain rfl : th = ⟨t', o' :: rest⟩ := by
        obtain ⟨j, hj, hget⟩ := List.getElem_of_mem hth
        by_cases hij : i = j
        · subst hij
          rw [List.getElem?_eq_getElem hj, Option.some.injEq, hget] at hi
          exact hi
        · exact absurd (List.mem_of_getElem (h := by simpa using hj)
            (by rw [List.getElem_set_of_ne hij]; exact hget)) hthread
      obtain rfl | hrest := List.mem_cons.mp ho
      · exact .inr ⟨rfl, fun o'' ho'' => ⟨_, hset, rfl, List.mem_append_left _ ho''⟩⟩
      · exact .inl ⟨_, hset, rfl, List.mem_append_right _ hrest⟩

end

theorem todo_spawn {s : State σ τ ω} {th : Thread τ ω} {t : τ} {o : ω} :
    Todo (spawn s th) t o ↔ Todo s t o ∨ (th.tag = t ∧ o ∈ th.ops) := by
  simp only [Todo, spawn, List.mem_append, List.mem_singleton]
  constructor
  · rintro ⟨th', hth' | rfl, htag, ho⟩
    · exact .inl ⟨th', hth', htag, ho⟩
    · exact .inr ⟨htag, ho⟩
  · rintro (⟨th', hth', htag, ho⟩ | ⟨htag, ho⟩)
    · exact ⟨th', .inl hth', htag, ho⟩
    · exact ⟨th, .inr rfl, htag, ho⟩

theorem wake_shared (s : State σ τ ω) (i : Nat) (ops : List ω) :
    (wake s i ops).shared = s.shared := by
  rw [wake]
  split
  · rfl
  · split <;> rfl

/-- Only a thread that has nothing to do is woken. -/
theorem todo_wake {s : State σ τ ω} {i : Nat} {ops : List ω} {t : τ} {o : ω}
    (h : Todo s t o) : Todo (wake s i ops) t o := by
  rw [wake]
  split
  · exact h
  · rename_i th hth
    split
    · rename_i hempty
      obtain ⟨th', hth', rfl, ho⟩ := h
      refine ⟨th', ?_, rfl, ho⟩
      obtain ⟨j, hj, hget⟩ := List.getElem_of_mem hth'
      by_cases hij : i = j
      · subst hij
        rw [List.getElem?_eq_getElem hj, Option.some.injEq, hget] at hth
        rw [hth, List.isEmpty_iff.mp hempty] at ho
        cases ho
      · exact List.mem_of_getElem (h := by simpa using hj)
          (by rw [List.getElem_set_of_ne hij]; exact hget)
    · exact h

theorem of_todo_wake {s : State σ τ ω} {i : Nat} {ops : List ω} {t : τ} {o : ω}
    (h : Todo (wake s i ops) t o) :
    Todo s t o ∨ ((∃ th, s.threads[i]? = some th ∧ th.tag = t) ∧ o ∈ ops) := by
  rw [wake] at h
  split at h
  · exact .inl h
  · rename_i th hth
    split at h
    · obtain ⟨th', hth', htag, ho⟩ := h
      obtain hold | rfl := List.mem_or_eq_of_mem_set hth'
      · exact .inl ⟨th', hold, htag, ho⟩
      · exact .inr ⟨⟨th, hth, htag⟩, ho⟩
    · exact .inl h

/-! ### How many are to be done -/

/-- The operation that is done when a thread has its turn, with the tag of the thread. -/
def current (s : State σ τ ω) (i : Nat) : Option (τ × ω) :=
  match s.threads[i]? with
  | none => none
  | some t =>
      match t.ops with
      | [] => none
      | o :: _ => some (t.tag, o)

def pending (q : τ → ω → Bool) (s : State σ τ ω) : Nat :=
  (s.threads.map fun t => t.ops.countP (q t.tag)).sum

section

variable {q : τ → ω → Bool} {s : State σ τ ω}

theorem Quiet.pending (h : Quiet s) : pending q s = 0 := by
  have hnone : s.threads.map (fun t => t.ops.countP (q t.tag)) = s.threads.map fun _ => 0 :=
    List.map_congr_left fun t ht => by rw [h t ht, List.countP_nil]
  rw [Threads.pending, hnone]
  simp

theorem pending_spawn (t : Thread τ ω) :
    Threads.pending q (spawn s t) = Threads.pending q s + t.ops.countP (q t.tag) := by
  simp [Threads.pending, spawn]

/-- One thread has other operations. -/
theorem sum_set (threads : List (Thread τ ω)) {i : Nat} {t : Thread τ ω}
    (ht : threads[i]? = some t) (t' : Thread τ ω) :
    ((threads.set i t').map fun t => t.ops.countP (q t.tag)).sum + t.ops.countP (q t.tag)
      = (threads.map fun t => t.ops.countP (q t.tag)).sum + t'.ops.countP (q t'.tag) := by
  induction threads generalizing i with
  | nil => simp at ht
  | cons u rest ih =>
      cases i with
      | zero =>
          obtain rfl : u = t := by simpa using ht
          simp only [List.set_cons_zero, List.map_cons, List.sum_cons]
          omega
      | succ i =>
          have := ih (i := i) (by simpa using ht)
          simp only [List.set_cons_succ, List.map_cons, List.sum_cons]
          omega

/-- Operations of another kind are given to a thread. -/
theorem pending_wake {i : Nat} {ops : List ω} (hops : ∀ t, ∀ o ∈ ops, q t o = false) :
    Threads.pending q (wake s i ops) = Threads.pending q s := by
  rw [wake]
  split
  · rfl
  · rename_i t ht
    split
    · rename_i hempty
      have hset := sum_set (q := q) s.threads ht ⟨t.tag, ops⟩
      have hnone : ops.countP (q t.tag) = 0 :=
        List.countP_eq_zero.mpr fun o ho => by simp [hops t.tag o ho]
      rw [List.isEmpty_iff.mp hempty, List.countP_nil, hnone] at hset
      exact hset
    · rfl

/-- A turn, in which the operation that is done comes to `c` operations of the kind. -/
theorem pending_next (exec : τ → ε → ω → σ → List ω × σ) (s : State σ τ ω) (i : Nat) (e : ε)
    {c : τ → ω → Nat}
    (hc : ∀ t o, Todo s t o → (exec t e o s.shared).1.countP (q t) = c t o) :
    Threads.pending q (next exec s i e) + (current s i).toList.countP (fun d => q d.1 d.2)
      = Threads.pending q s + ((current s i).toList.map fun d => c d.1 d.2).sum := by
  rw [next, current]
  split
  · rfl
  · rename_i t ht
    obtain ⟨tag, ops⟩ := t
    cases ops with
    | nil => rfl
    | cons o rest =>
        have hset := sum_set (q := q) s.threads ht
          ⟨tag, (exec tag e o s.shared).1 ++ rest⟩
        have hmore := hc tag o (todo_of_getElem? ht)
        dsimp only at hset
        rw [List.countP_append, List.countP_cons, hmore] at hset
        simp only [Threads.pending, Option.toList_some, List.countP_cons, List.countP_nil,
          List.map_cons, List.map_nil, List.sum_cons, List.sum_nil]
        omega

end

/-! ### Tags -/

theorem tags_set {threads : List (Thread τ ω)} {i : Nat} {t : Thread τ ω}
    (ht : threads[i]? = some t) (ops : List ω) :
    (threads.set i ⟨t.tag, ops⟩).map (·.tag) = threads.map (·.tag) := by
  obtain ⟨hlt, rfl⟩ := List.getElem?_eq_some_iff.mp ht
  have hlt' : i < (threads.map (·.tag)).length := by simpa using hlt
  have hsame := List.set_getElem_self hlt'
  rw [List.getElem_map] at hsame
  rw [List.map_set]
  exact hsame

theorem tags_next (exec : τ → ε → ω → σ → List ω × σ) (s : State σ τ ω) (i : Nat) (e : ε) :
    (next exec s i e).threads.map (·.tag) = s.threads.map (·.tag) := by
  obtain hsame | ⟨t, o, rest, hi, hnext⟩ := next_cases exec s i e
  · rw [hsame]
  · rw [hnext]
    exact tags_set hi _

theorem tags_wake (s : State σ τ ω) (i : Nat) (ops : List ω) :
    (wake s i ops).threads.map (·.tag) = s.threads.map (·.tag) := by
  rw [wake]
  split
  · rfl
  · rename_i t ht
    split
    · exact tags_set ht ops
    · rfl

/-! ### What is owed -/

/-- It is done, or something that does it is still to be done. -/
def Owed (Done : σ → Prop) (P : τ → ω → Prop) (s : State σ τ ω) : Prop :=
  Done s.shared ∨ ∃ t o, P t o ∧ Todo s t o

namespace Owed

variable {Done : σ → Prop} {P : τ → ω → Prop} {s : State σ τ ω}

theorem done (h : Owed Done P s) (hquiet : Quiet s) : Done s.shared := by
  obtain hdone | ⟨t, o, -, htodo⟩ := h
  · exact hdone
  · exact absurd htodo (hquiet.not_todo t o)

/-- Each operation that does it does it, or puts another one there. -/
theorem next {exec : τ → ε → ω → σ → List ω × σ}
    (hkeep : ∀ t e o sh, Done sh → Done (exec t e o sh).2)
    (hpay : ∀ t e o sh, P t o → Done (exec t e o sh).2 ∨ ∃ o' ∈ (exec t e o sh).1, P t o')
    (h : Owed Done P s) (i : Nat) (e : ε) : Owed Done P (Threads.next exec s i e) := by
  obtain hdone | ⟨t, o, hP, htodo⟩ := h
  · obtain hsame | ⟨t, o, rest, -, hnext⟩ := next_cases exec s i e
    · exact .inl (hsame.symm ▸ hdone)
    · exact .inl (hnext ▸ hkeep t e o s.shared hdone)
  · obtain hstill | ⟨hshared, hmore⟩ := todo_kept exec i e htodo
    · exact .inr ⟨t, o, hP, hstill⟩
    · obtain hdone | ⟨o', ho', hP'⟩ := hpay t e o s.shared hP
      · exact .inl (hshared ▸ hdone)
      · exact .inr ⟨t, o', hP', hmore o' ho'⟩

theorem spawn (h : Owed Done P s) (th : Thread τ ω) : Owed Done P (Threads.spawn s th) :=
  h.imp_right fun ⟨t, o, hP, htodo⟩ => ⟨t, o, hP, todo_spawn.mpr (.inl htodo)⟩

theorem wake (h : Owed Done P s) (i : Nat) (ops : List ω) : Owed Done P (Threads.wake s i ops) := by
  obtain hdone | ⟨t, o, hP, htodo⟩ := h
  · exact .inl (wake_shared s i ops ▸ hdone)
  · exact .inr ⟨t, o, hP, todo_wake htodo⟩

/-- Only the shared part is changed, and what is done stays so. -/
theorem share (h : Owed Done P s) {shared : σ} (hkeep : Done s.shared → Done shared) :
    Owed Done P { s with shared := shared } :=
  h.imp hkeep id

end Owed

end Threads
