/-
Fail-safe mode on Windows, in every interleaving of the calls of `DispatchCrossModuleEvent` and the
integrity worker.

`EnterFailSafeMode` tests `FailSafeMode` and then sets it, and raises the CPUs one after the other,
with no lock; a second call that finds the mode set returns while the first is still raising them.
So it is when no call is under way that all CPUs are at the highest strategy (`FailSafeInv.cpus`);
what is on its way there is what the threads owe.

Each field of `FailSafeInv` is of the form "done, or owed by a thread", and such a field goes
through a step for two reasons: no operation undoes what is done, and the operation that is owed
does it or leaves it to one it comes to.  The first is a lemma about `kiExec` for each part of
the state, the second a lemma about the lists of operations (`mem_dispatchOps` and its like).  The
interleaving has no part in either.

That an alert has reached user mode says little when the same alert was raised before.  So the calls
are counted, too: `DeliveredEach` has every notification and every signal with the call it is for.
-/
import KernelGuard.Lib.Run
import KernelGuard.Model.IntegrityWorker

namespace KernelGuard

open Threads

/-- The events that lead to fail-safe mode. -/
def Grave (a : Alert) : Prop :=
  a.type = kgAlertTextPatch ∨ a.type = kgAlertDispatchHook ∨ a.type = kgAlertSharedStateCorrupt ∨
    (a.type = kgAlertVulnDriver ∧ a.level ≥ 2)

/-- The alert reaches user mode, by the channel or by the signal. -/
def Delivered (a : Alert) (s : KiShared) : Prop :=
  .notified a ∈ s.log ∨ .signalled a.type ∈ s.log

/-- What enters fail-safe mode, if it is not entered already. -/
def Enters (op : KiOp) : Prop := op = .enterFailSafeMode ∨ op = .failSafe

/-! ### What an event comes to

A dispatched event is a list of operations that depends on its type, its severity
and the level it is raised at.  The branches are exclusive, and the lemmas say of
each kind of operation for which events it is in the list.
-/

section

variable {passive : Bool} {cpu : Nat} {a : Alert} {op : KiOp}

theorem mem_dispatchOps (h : op ∈ dispatchOps passive cpu a) :
    op = kiDeliver passive a ∨ op = .secureCommNotify { a with level := 2 } ∨
      op = .escalate cpu ∨ op = .executeSecurityBoundaryFlush cpu ∨
      op = .enableSpeculationControls cpu ∨
      (a.type = kgAlertPciDiscrepancy ∧ op ∈ scanKeyboardDrivers) ∨
      (op = .enterFailSafeMode ∧ Grave a) := by
  rw [dispatchOps] at h
  repeat' split at h
  all_goals simp only [List.mem_append, List.mem_cons, List.not_mem_nil, or_false, false_or] at h
  all_goals grind [Grave]

theorem deliver_mem_dispatchOps (passive : Bool) (cpu : Nat) (a : Alert) :
    kiDeliver passive a ∈ dispatchOps passive cpu a := by
  rw [dispatchOps]
  repeat' split
  all_goals simp

/-- The types of the grave events come after those that have a branch of their own before them. -/
theorem enter_mem_dispatchOps (passive : Bool) (cpu : Nat) (h : Grave a) :
    .enterFailSafeMode ∈ dispatchOps passive cpu a := by
  rcases h with h | h | h | ⟨h, hlevel⟩
  · simp [dispatchOps, h, kgAlertPmuL1dAnomaly, kgAlertPmuL2Anomaly, kgAlertPmuRdtscRate,
      kgAlertUnauthorizedDma, kgAlertPciDiscrepancy, kgAlertIdtHook, kgAlertTextPatch]
  · simp [dispatchOps, h, kgAlertPmuL1dAnomaly, kgAlertPmuL2Anomaly, kgAlertPmuRdtscRate,
      kgAlertUnauthorizedDma, kgAlertPciDiscrepancy, kgAlertIdtHook, kgAlertDispatchHook]
  · simp [dispatchOps, h, kgAlertPmuL1dAnomaly, kgAlertPmuL2Anomaly, kgAlertPmuRdtscRate,
      kgAlertUnauthorizedDma, kgAlertPciDiscrepancy, kgAlertIdtHook, kgAlertTextPatch,
      kgAlertDispatchHook, kgAlertSharedStateCorrupt]
  · simp [dispatchOps, h, hlevel, kgAlertPmuL1dAnomaly, kgAlertPmuL2Anomaly, kgAlertPmuRdtscRate,
      kgAlertUnauthorizedDma, kgAlertPciDiscrepancy, kgAlertIdtHook, kgAlertTextPatch,
      kgAlertDispatchHook, kgAlertSharedStateCorrupt, kgAlertVulnDriver]

end

/-! ### What a check comes to

A check reads and compares, and where it finds something, it adds the same three
operations with other texts.  They are added one finding after the other, so
membership in the list says which finding an operation is for.
-/

/-- What a check comes to when it finds something: a signal, an event, and a flag that is set. -/
def KiReport (type : UInt32) (flag op : KiOp) : Prop :=
  op = logAlert type ∨ op = flag ∨ ∃ a, a.type = type ∧ op = .dispatchCrossModuleEvent a

theorem mem_idtVectorOps {w : KiWorld} {vector : Nat} {op : KiOp}
    (h : op ∈ idtVectorOps w vector) : KiReport kgAlertIdtHook .setIdtHook op := by
  simp only [idtVectorOps] at h
  split at h
  · cases h
  split at h
  · simp only [List.mem_cons, List.not_mem_nil, or_false] at h
    grind [KiReport]
  · simp only [List.mem_append] at h
    grind [KiReport]

theorem mem_checkDispatchHookOps {w : KiWorld} {name : CStr} {major : Nat} {op : KiOp}
    (h : op ∈ checkDispatchHookOps w name major) :
    KiReport kgAlertDispatchHook .setDispatchHook op := by
  simp only [checkDispatchHookOps, dispatchHookFound] at h
  repeat' split at h
  all_goals grind [KiReport]

theorem KiReport.not_enters {type : UInt32} {flag op : KiOp} (h : KiReport type flag op)
    (hflag : ¬Enters flag) : ¬Enters op := by
  rcases h with rfl | rfl | ⟨a, -, rfl⟩
  · simp [Enters, logAlert]
  · exact hflag
  · simp [Enters]

/-! ### What an operation does

The state has parts that do not affect each other: the log, the mode, the CPUs.  For
each there is a lemma that says which operations change it, and in which direction;
the log only grows, the mode is only entered, and a CPU is only raised.
-/

section

variable {numCpus : Nat} {sha : List UInt8 → KiDigest} {passive : Bool} {w : KiWorld} {op : KiOp}
  {s : KiShared}

/-- What the log has, with what an operation puts behind it. -/
theorem kiExec_log (numCpus : Nat) (sha : List UInt8 → KiDigest) (passive : Bool) (w : KiWorld)
    (op : KiOp) (s : KiShared) : s.log <+: (kiExec numCpus sha passive w op s).2.log := by
  cases op <;> simp only [kiExec, verifyModuleIntegrity]
  case verifyModuleIntegrity =>
    repeat' split
    all_goals simp [KiShared.put]
  case enableSpeculationControls =>
    split <;> simp [KiShared.put]
  all_goals simp [KiShared.put]

theorem kiExec_failSafe_kept (h : s.failSafeMode = true) :
    (kiExec numCpus sha passive w op s).2.failSafeMode = true := by
  cases op <;> simp only [kiExec, verifyModuleIntegrity]
  case verifyModuleIntegrity =>
    repeat' split
    all_goals exact h
  case enableSpeculationControls =>
    split <;> exact h
  all_goals exact h

/-- Only `EnterFailSafeMode` enters the mode. -/
theorem failSafe_of_kiExec (h : (kiExec numCpus sha passive w op s).2.failSafeMode = true) :
    s.failSafeMode = true ∨ op = .failSafe := by
  cases op <;> simp only [kiExec, verifyModuleIntegrity] at h
  case verifyModuleIntegrity =>
    repeat' split at h
    all_goals exact .inl h
  case enableSpeculationControls =>
    split at h <;> exact .inl h
  case failSafe => exact .inr rfl
  all_goals exact .inl h

/-- A CPU at the highest strategy stays there. -/
theorem kiExec_full_kept {cpu : Nat} (h : (s.mit cpu).strategy = .fullSpectrum) :
    ((kiExec numCpus sha passive w op s).2.mit cpu).strategy = .fullSpectrum := by
  cases op <;> simp only [kiExec, verifyModuleIntegrity]
  case verifyModuleIntegrity =>
    repeat' split
    all_goals exact h
  case enableSpeculationControls =>
    split <;> exact h
  case escalate c =>
    by_cases hc : cpu = c
    · rw [hc, Function.update_self]
    · rw [Function.update_of_ne hc]
      exact h
  all_goals exact h

/-- Only a call of `DispatchCrossModuleEvent` is logged as one. -/
theorem dispatched_of_kiExec {a : Alert}
    (h : .dispatched a ∈ (kiExec numCpus sha passive w op s).2.log) :
    .dispatched a ∈ s.log ∨ op = .dispatchCrossModuleEvent a := by
  cases op <;> simp only [kiExec, verifyModuleIntegrity] at h
  case verifyModuleIntegrity =>
    repeat' split at h
    all_goals simpa [KiShared.put] using h
  case enableSpeculationControls =>
    split at h <;> simpa [KiShared.put] using h
  all_goals simpa [KiShared.put, eq_comm] using h

/-- What enters fail-safe mode comes from `EnterFailSafeMode`, and that from a grave event. -/
theorem enters_of_mem_kiExec {o : KiOp} (ho : o ∈ (kiExec numCpus sha passive w op s).1)
    (h : Enters o) : Enters op ∨ ∃ a, Grave a ∧ op = .dispatchCrossModuleEvent a := by
  cases op <;> simp only [kiExec, verifyModuleIntegrity] at ho
  case idtVector vector =>
    exact absurd h ((mem_idtVectorOps ho).not_enters (by simp [Enters]))
  case checkDispatchHook name major =>
    exact absurd h ((mem_checkDispatchHookOps ho).not_enters (by simp [Enters]))
  case verifyModuleIntegrity =>
    repeat' split at ho
    all_goals grind [Enters, textPatchFound, logAlert]
  case verifySharedStateIntegrity =>
    repeat' split at ho
    all_goals grind [Enters, logAlert]
  case dispatchCrossModuleEvent a =>
    refine .inr ⟨a, ?_, rfl⟩
    rcases mem_dispatchOps ho with rfl | rfl | rfl | rfl | rfl | ⟨-, hscan⟩ | ⟨-, hgrave⟩
    · rw [kiDeliver] at h
      split at h <;> simp [Enters] at h
    · simp [Enters] at h
    · simp [Enters] at h
    · simp [Enters] at h
    · simp [Enters] at h
    · obtain ⟨t, -, hmajor⟩ := List.mem_flatMap.mp hscan
      obtain ⟨major, -, rfl⟩ := List.mem_map.mp hmajor
      simp [Enters] at h
    · exact hgrave
  case enterFailSafeMode => exact .inl (.inl rfl)
  case failSafe => exact .inl (.inr rfl)
  all_goals cases ho

end

/-! ### What holds at every time

Every field is "done, or owed".  `owed_step` is the half that is the same for all of
them: an operation that has not been run is still in the list of its thread.  The
other half is what the operation does when its turn comes.
-/

def kiRun (numCpus : Nat) (sha : List UInt8 → KiDigest) (s : KiState) (acts : List KiMove) :
    KiState :=
  Run.exec (kiStep numCpus sha) s acts

theorem kiRun_append (numCpus : Nat) (sha : List UInt8 → KiDigest) (s : KiState)
    (xs ys : List KiMove) :
    kiRun numCpus sha s (xs ++ ys) = kiRun numCpus sha (kiRun numCpus sha s xs) ys :=
  Run.exec_append _ s xs ys

def FullSpectrum (cpu : Nat) (s : KiShared) : Prop := (s.mit cpu).strategy = .fullSpectrum

def FailSafeSignalled (s : KiShared) : Prop := .signalled failSafeAlert.type ∈ s.log

structure FailSafeInv (numCpus : Nat) (s : KiState) : Prop where
  /-- The mode is not entered without a grave event. -/
  cause : s.shared.failSafeMode = true ∨ (∃ t o, Enters o ∧ Todo s t o) →
    ∃ a, Grave a ∧ .dispatched a ∈ s.shared.log
  response : ∀ a, Grave a → .dispatched a ∈ s.shared.log →
    Owed (·.failSafeMode = true) (fun _ => Enters) s
  cpus : s.shared.failSafeMode = true → ∀ cpu < numCpus,
    Owed (FullSpectrum cpu) (fun _ o => o = .escalate cpu) s
  signal : s.shared.failSafeMode = true →
    Owed FailSafeSignalled (fun _ o => o = .secureCommMsrSignal failSafeAlert.type) s
  delivered : ∀ a, .dispatched a ∈ s.shared.log →
    Owed (Delivered a) (fun passive o => o = kiDeliver passive a) s

section

variable {numCpus : Nat} {sha : List UInt8 → KiDigest} {s : KiState}

/-- What is owed stays owed, where the policy and its hash have no part in it. -/
theorem owed_step {Done : KiShared → Prop} {P : Bool → KiOp → Prop}
    (hkeep : ∀ passive w op sh, Done sh → Done (kiExec numCpus sha passive w op sh).2)
    (hpay : ∀ passive w op sh, P passive op → Done (kiExec numCpus sha passive w op sh).2 ∨
      ∃ o ∈ (kiExec numCpus sha passive w op sh).1, P passive o)
    (hpolicy : ∀ sh policy, Done sh → Done { sh with policy := policy })
    (hhash : ∀ sh hash, Done sh → Done { sh with stateHash := hash })
    (h : Owed Done P s) (m : KiMove) : Owed Done P (kiStep numCpus sha s m) := by
  cases m with
  | event passive a => exact h.spawn _
  | timeout => exact h.wake 0 _
  | step i w => exact h.next hkeep hpay i w
  | updateHash bc =>
      refine h.share fun hdone => ?_
      rw [updateSharedStateHash]
      split
      · exact hdone
      · exact hhash _ _ hdone
  | tamper policy => exact h.share (hpolicy _ policy)

theorem enters_owed (h : Owed (·.failSafeMode = true) (fun _ => Enters) s) (m : KiMove) :
    Owed (·.failSafeMode = true) (fun _ => Enters) (kiStep numCpus sha s m) := by
  refine owed_step (fun _ _ _ _ => kiExec_failSafe_kept) ?_ (fun _ _ => id) (fun _ _ => id) h m
  rintro passive w op sh (rfl | rfl)
  · simp only [kiExec]
    cases hmode : sh.failSafeMode with
    | true => exact .inl rfl
    | false => exact .inr ⟨.failSafe, by simp, .inr rfl⟩
  · exact .inl rfl

theorem fullSpectrum_owed {cpu : Nat}
    (h : Owed (FullSpectrum cpu) (fun _ o => o = .escalate cpu) s) (m : KiMove) :
    Owed (FullSpectrum cpu) (fun _ o => o = .escalate cpu) (kiStep numCpus sha s m) := by
  refine owed_step (fun _ _ _ _ => kiExec_full_kept) ?_ (fun _ _ => id) (fun _ _ => id) h m
  rintro passive w op sh rfl
  refine .inl ?_
  simp [FullSpectrum, kiExec]

theorem kiExec_mem_log {passive : Bool} {w : KiWorld} {op : KiOp} {sh : KiShared} {out : KiOutput}
    (h : out ∈ sh.log) : out ∈ (kiExec numCpus sha passive w op sh).2.log :=
  (kiExec_log numCpus sha passive w op sh).subset h

theorem signalled_owed
    (h : Owed FailSafeSignalled (fun _ o => o = .secureCommMsrSignal failSafeAlert.type) s)
    (m : KiMove) :
    Owed FailSafeSignalled (fun _ o => o = .secureCommMsrSignal failSafeAlert.type)
      (kiStep numCpus sha s m) := by
  refine owed_step (fun _ _ _ _ => kiExec_mem_log) ?_ (fun _ _ => id) (fun _ _ => id) h m
  rintro passive w op sh rfl
  refine .inl ?_
  simp [FailSafeSignalled, kiExec, KiShared.put]

theorem delivered_owed {a : Alert}
    (h : Owed (Delivered a) (fun passive o => o = kiDeliver passive a) s) (m : KiMove) :
    Owed (Delivered a) (fun passive o => o = kiDeliver passive a) (kiStep numCpus sha s m) := by
  refine owed_step (fun _ _ _ _ h => h.imp kiExec_mem_log kiExec_mem_log) ?_
    (fun _ _ => id) (fun _ _ => id) h m
  rintro passive w op sh rfl
  refine .inl ?_
  cases passive
  · exact .inr (by simp [kiDeliver, kiExec, KiShared.put])
  · exact .inl (by simp [kiDeliver, kiExec, KiShared.put])

/-! ### Steps

A step runs one operation of one thread, starts a turn of the worker, brings an
event from outside, or writes to the policy or its hash.  Only the first changes what
is done; a turn and an event add to what is owed, and the policy has no part in
either.
-/

theorem updateSharedStateHash_log (bc : BCryptCalls) (sh : KiShared) :
    (updateSharedStateHash sha bc sh).log = sh.log := by
  rw [updateSharedStateHash]
  split <;> rfl

theorem updateSharedStateHash_failSafe (bc : BCryptCalls) (sh : KiShared) :
    (updateSharedStateHash sha bc sh).failSafeMode = sh.failSafeMode := by
  rw [updateSharedStateHash]
  split <;> rfl

theorem kiStep_mem_log {m : KiMove} {out : KiOutput} (h : out ∈ s.shared.log) :
    out ∈ (kiStep numCpus sha s m).shared.log := by
  cases m with
  | event passive a => exact h
  | timeout =>
      rw [kiStep, wake_shared]
      exact h
  | step i w =>
      rw [kiStep]
      obtain hsame | ⟨t, o, -, hdid, -⟩ := next_did (kiExec numCpus sha) s i w
      · rw [hsame]
        exact h
      · rw [hdid]
        exact kiExec_mem_log h
  | updateHash bc =>
      rw [kiStep, updateSharedStateHash_log]
      exact h
  | tamper policy => exact h

/-- A call of `DispatchCrossModuleEvent` leaves to its thread what it comes to. -/
theorem dispatched_step {m : KiMove} {a : Alert}
    (h : .dispatched a ∈ (kiStep numCpus sha s m).shared.log) :
    .dispatched a ∈ s.shared.log ∨
      ∃ passive cpu, ∀ o ∈ dispatchOps passive cpu a, Todo (kiStep numCpus sha s m) passive o := by
  cases m with
  | event passive a => exact .inl h
  | timeout =>
      rw [kiStep, wake_shared] at h
      exact .inl h
  | step i w =>
      rw [kiStep] at h ⊢
      obtain hsame | ⟨t, o, -, hdid, hmore⟩ := next_did (kiExec numCpus sha) s i w
      · rw [hsame] at h
        exact .inl h
      · rw [hdid] at h
        obtain hold | rfl := dispatched_of_kiExec h
        · exact .inl hold
        · exact .inr ⟨t, w.cpu, hmore⟩
  | updateHash bc =>
      rw [kiStep, updateSharedStateHash_log] at h
      exact .inl h
  | tamper policy => exact .inl h

/-- The thread that enters the mode was to do so, and owes the rest. -/
theorem failSafe_step {m : KiMove} (h : (kiStep numCpus sha s m).shared.failSafeMode = true) :
    s.shared.failSafeMode = true ∨ ∃ passive, Todo s passive .failSafe ∧
      ∀ o ∈ failSafeOps numCpus passive, Todo (kiStep numCpus sha s m) passive o := by
  cases m with
  | event passive a => exact .inl h
  | timeout =>
      rw [kiStep, wake_shared] at h
      exact .inl h
  | step i w =>
      rw [kiStep] at h ⊢
      obtain hsame | ⟨t, o, htodo, hdid, hmore⟩ := next_did (kiExec numCpus sha) s i w
      · rw [hsame] at h
        exact .inl h
      · rw [hdid] at h
        obtain hold | rfl := failSafe_of_kiExec h
        · exact .inl hold
        · exact .inr ⟨t, htodo, hmore⟩
  | updateHash bc =>
      rw [kiStep, updateSharedStateHash_failSafe] at h
      exact .inl h
  | tamper policy => exact .inl h

/-- Neither the worker nor a part of the driver enters the mode but through an event. -/
theorem enters_step {m : KiMove} {t : Bool} {o : KiOp} (ho : Enters o)
    (h : Todo (kiStep numCpus sha s m) t o) :
    (∃ o', Enters o' ∧ Todo s t o') ∨
      ∃ a, Grave a ∧ .dispatched a ∈ (kiStep numCpus sha s m).shared.log := by
  cases m with
  | event passive a =>
      obtain hold | ⟨-, hnew⟩ := todo_spawn.mp h
      · exact .inl ⟨o, ho, hold⟩
      · rw [List.mem_singleton.mp hnew] at ho
        simp [Enters] at ho
  | timeout =>
      obtain hold | ⟨-, hnew⟩ := of_todo_wake h
      · exact .inl ⟨o, ho, hold⟩
      · simp only [integrityWorkerTurn, idtVerifyKeyboardHandler, scanKeyboardDrivers,
          List.mem_append, List.mem_map, List.mem_flatMap] at hnew
        grind [Enters]
  | step i w =>
      obtain hold | ⟨o', htodo, hmem, hdid⟩ := todo_next h
      · exact .inl ⟨o, ho, hold⟩
      · obtain henters | ⟨a, hgrave, rfl⟩ := enters_of_mem_kiExec hmem ho
        · exact .inl ⟨o', henters, htodo⟩
        · refine .inr ⟨a, hgrave, ?_⟩
          rw [kiStep, hdid]
          simp [kiExec, KiShared.put]
  | updateHash bc => exact .inl ⟨o, ho, h⟩
  | tamper policy => exact .inl ⟨o, ho, h⟩

theorem FailSafeInv.step (h : FailSafeInv numCpus s) (m : KiMove) :
    FailSafeInv numCpus (kiStep numCpus sha s m) where
  cause := by
    have hbefore : (s.shared.failSafeMode = true ∨ ∃ t o, Enters o ∧ Todo s t o) →
        ∃ a, Grave a ∧ .dispatched a ∈ (kiStep numCpus sha s m).shared.log := fun hs =>
      (h.cause hs).imp fun a ha => ⟨ha.1, kiStep_mem_log ha.2⟩
    rintro (hmode | ⟨t, o, ho, htodo⟩)
    · obtain hmode | ⟨t, htodo, -⟩ := failSafe_step hmode
      · exact hbefore (.inl hmode)
      · exact hbefore (.inr ⟨t, _, .inr rfl, htodo⟩)
    · obtain ⟨o', ho', htodo⟩ | hnew := enters_step ho htodo
      · exact hbefore (.inr ⟨t, o', ho', htodo⟩)
      · exact hnew
  response := fun a hgrave ha => by
    obtain hold | ⟨passive, cpu, hmore⟩ := dispatched_step ha
    · exact enters_owed (h.response a hgrave hold) m
    · exact .inr ⟨passive, _, .inl rfl, hmore _ (enter_mem_dispatchOps passive cpu hgrave)⟩
  cpus := fun hmode cpu hcpu => by
    obtain hold | ⟨passive, -, hmore⟩ := failSafe_step hmode
    · exact fullSpectrum_owed (h.cpus hold cpu hcpu) m
    · exact .inr ⟨passive, _, rfl, hmore _ (by simp [failSafeOps, hcpu])⟩
  signal := fun hmode => by
    obtain hold | ⟨passive, -, hmore⟩ := failSafe_step hmode
    · exact signalled_owed (h.signal hold) m
    · exact .inr ⟨passive, _, rfl, hmore _ (by simp [failSafeOps])⟩
  delivered := fun a ha => by
    obtain hold | ⟨passive, cpu, hmore⟩ := dispatched_step ha
    · exact delivered_owed (h.delivered a hold) m
    · exact .inr ⟨passive, _, rfl, hmore _ (deliver_mem_dispatchOps passive cpu a)⟩

/-- The mode is not left, and a CPU at the highest strategy stays there. -/
theorem kept_step {m : KiMove} :
    (s.shared.failSafeMode = true → (kiStep numCpus sha s m).shared.failSafeMode = true) ∧
      ∀ cpu, FullSpectrum cpu s.shared → FullSpectrum cpu (kiStep numCpus sha s m).shared := by
  cases m with
  | event passive a => exact ⟨id, fun _ => id⟩
  | timeout =>
      rw [kiStep, wake_shared]
      exact ⟨id, fun _ => id⟩
  | step i w =>
      rw [kiStep]
      obtain hsame | ⟨t, o, -, hdid, -⟩ := next_did (kiExec numCpus sha) s i w
      · rw [hsame]
        exact ⟨id, fun _ => id⟩
      · rw [hdid]
        exact ⟨kiExec_failSafe_kept, fun _ => kiExec_full_kept⟩
  | updateHash bc =>
      rw [kiStep, updateSharedStateHash]
      split <;> exact ⟨id, fun _ => id⟩
  | tamper policy => exact ⟨id, fun _ => id⟩

/-! ### How often an alert is delivered

At `PASSIVE_LEVEL` a call ends with a notification, above it with a signal.  Each is an operation
that was put there by its call, so the operations that are done are counted with those still
to do (`Threads.pending`), against what put them there.  What else puts such an operation there is
known too: a patched text and a dispatch hook are announced at level 2 before fail-safe mode, and
fail-safe mode has an alert of its own.  Above `PASSIVE_LEVEL` there are no checks, whose `LogAlert`
would be in the count.
-/

/-- The operation that a step does, with whether its thread is at `PASSIVE_LEVEL`. -/
def kiDid (s : KiState) : KiMove → List (Bool × KiOp)
  | .step i _ => (current s i).toList
  | _ => []

/-- The operations of a run. -/
def kiDone (numCpus : Nat) (sha : List UInt8 → KiDigest) (s : KiState) (acts : List KiMove) :
    List (Bool × KiOp) :=
  Run.outputs (kiStep numCpus sha) kiDid s acts

/-- A call that announces `a` before it enters fail-safe mode. -/
def AnnouncesAlert (a : Alert) : KiOp → Prop
  | .dispatchCrossModuleEvent b =>
      (b.type = kgAlertTextPatch ∨ b.type = kgAlertDispatchHook) ∧ { b with level := 2 } = a
  | _ => False

instance (a : Alert) (op : KiOp) : Decidable (AnnouncesAlert a op) := by
  cases op <;> unfold AnnouncesAlert <;> infer_instance

/-- A call for an alert of this type. -/
def Reports (type : UInt32) : KiOp → Prop
  | .dispatchCrossModuleEvent b => b.type = type
  | _ => False

instance (type : UInt32) (op : KiOp) : Decidable (Reports type op) := by
  cases op <;> unfold Reports <;> infer_instance

def KiOp.isCheck : KiOp → Bool
  | .idtVector _ | .checkDispatchHook _ _ | .verifyModuleIntegrity
  | .verifySharedStateIntegrity => true
  | _ => false

/-- How many notifications of `a` an operation at `PASSIVE_LEVEL` comes to. -/
def notifies (a : Alert) (op : KiOp) : Nat :=
  (if op = .dispatchCrossModuleEvent a then 1 else 0) + (if AnnouncesAlert a op then 1 else 0) +
    if op = .failSafe ∧ a = failSafeAlert then 1 else 0

/-- How many signals of this type an operation above it comes to. -/
def signals (type : UInt32) (op : KiOp) : Nat :=
  (if Reports type op then 1 else 0) +
    if op = .failSafe ∧ type = failSafeAlert.type then 1 else 0

theorem scanKeyboardDrivers_eq {o : KiOp} (h : o ∈ scanKeyboardDrivers) :
    ∃ name major, o = .checkDispatchHook name major := by
  obtain ⟨t, -, hmajor⟩ := List.mem_flatMap.mp h
  obtain ⟨major, -, rfl⟩ := List.mem_map.mp hmajor
  exact ⟨t.1, major, rfl⟩

/-- A patched text or a dispatch hook. -/
theorem dispatchOps_tamper (passive : Bool) (cpu : Nat) {b : Alert}
    (h : b.type = kgAlertTextPatch ∨ b.type = kgAlertDispatchHook) :
    dispatchOps passive cpu b
      = [.secureCommNotify { b with level := 2 }, .enterFailSafeMode, kiDeliver passive b] := by
  rcases h with h | h <;>
    simp [dispatchOps, h, kgAlertPmuL1dAnomaly, kgAlertPmuL2Anomaly, kgAlertPmuRdtscRate,
      kgAlertUnauthorizedDma, kgAlertPciDiscrepancy, kgAlertIdtHook, kgAlertTextPatch,
      kgAlertDispatchHook]

theorem countP_notify_dispatchOps (cpu : Nat) (a b : Alert) :
    (dispatchOps true cpu b).countP (fun o => decide (o = .secureCommNotify a))
      = notifies a (.dispatchCrossModuleEvent b) := by
  by_cases hb : b.type = kgAlertTextPatch ∨ b.type = kgAlertDispatchHook
  · simp only [dispatchOps_tamper true cpu hb, kiDeliver, notifies, AnnouncesAlert, hb, if_true,
      List.countP_cons, List.countP_nil]
    simp
  · have hscan : scanKeyboardDrivers.countP (fun o => decide (o = .secureCommNotify a)) = 0 :=
      List.countP_eq_zero.mpr fun o ho => by
        obtain ⟨name, major, rfl⟩ := scanKeyboardDrivers_eq ho
        simp
    rw [dispatchOps, if_neg hb]
    repeat' split
    all_goals simp [List.countP_append, List.countP_cons, hscan, kiDeliver, notifies,
      AnnouncesAlert, hb]

/-- A check that finds something calls; it does not notify itself. -/
theorem countP_notify_of_report {type : UInt32} {flag : KiOp} {a : Alert} {ops : List KiOp}
    (hflag : flag ≠ .secureCommNotify a) (h : ∀ o ∈ ops, KiReport type flag o) :
    ops.countP (fun o => decide (o = .secureCommNotify a)) = 0 := by
  refine List.countP_eq_zero.mpr fun o ho => ?_
  rcases h o ho with rfl | rfl | ⟨b, -, rfl⟩
  · simp [logAlert]
  · simpa using hflag
  · simp

theorem countP_notify_kiExec (w : KiWorld) (op : KiOp) (sh : KiShared) (a : Alert) :
    (kiExec numCpus sha true w op sh).1.countP (fun o => decide (o = .secureCommNotify a))
      = notifies a op := by
  cases op <;> simp only [kiExec, verifyModuleIntegrity]
  case idtVector vector =>
    exact countP_notify_of_report (by simp) fun o => mem_idtVectorOps
  case checkDispatchHook name major =>
    exact countP_notify_of_report (by simp) fun o => mem_checkDispatchHookOps
  case verifyModuleIntegrity =>
    repeat' split
    all_goals simp [textPatchFound, logAlert, notifies, AnnouncesAlert]
  case verifySharedStateIntegrity =>
    repeat' split
    all_goals simp [logAlert, notifies, AnnouncesAlert]
  case dispatchCrossModuleEvent b => exact countP_notify_dispatchOps w.cpu a b
  case enterFailSafeMode =>
    split <;> simp [notifies, AnnouncesAlert]
  case failSafe =>
    have hraised : ((List.range numCpus).map KiOp.escalate).countP
        (fun o => decide (o = .secureCommNotify a)) = 0 := by
      simp [List.countP_map, Function.comp_def]
    simp [failSafeOps, List.countP_append, List.countP_cons, hraised, notifies, AnnouncesAlert, eq_comm]
  all_goals simp [notifies, AnnouncesAlert]

theorem countP_signal_dispatchOps (cpu : Nat) (type : UInt32) (b : Alert) :
    (dispatchOps false cpu b).countP (fun o => decide (o = .secureCommMsrSignal type))
      = signals type (.dispatchCrossModuleEvent b) := by
  simp only [dispatchOps, Bool.false_eq_true, if_false]
  repeat' split
  all_goals simp [List.countP_cons, kiDeliver, signals, Reports]

theorem countP_signal_kiExec (w : KiWorld) {op : KiOp} (hop : op.isCheck = false) (sh : KiShared)
    (type : UInt32) :
    (kiExec numCpus sha false w op sh).1.countP (fun o => decide (o = .secureCommMsrSignal type))
      = signals type op := by
  cases op <;> simp only [kiExec]
  case dispatchCrossModuleEvent b => exact countP_signal_dispatchOps w.cpu type b
  case enterFailSafeMode =>
    split <;> simp [signals, Reports]
  case failSafe =>
    have hraised : ((List.range numCpus).map KiOp.escalate).countP
        (fun o => decide (o = .secureCommMsrSignal type)) = 0 := by
      simp [List.countP_map, Function.comp_def]
    simp [failSafeOps, List.countP_append, List.countP_cons, hraised, signals, Reports, eq_comm]
  case idtVector | checkDispatchHook | verifyModuleIntegrity | verifySharedStateIntegrity =>
    simp [KiOp.isCheck] at hop
  all_goals simp [signals, Reports]

/-- The checks are the worker's, which is at `PASSIVE_LEVEL`, or `ScanKeyboardDrivers`. -/
structure ChecksPassive (s : KiState) : Prop where
  worker : (s.threads.map (·.tag)).head? = some true
  checks : ∀ o, o.isCheck = true → ¬Todo s false o

theorem check_of_mem_kiExec {w : KiWorld} {op o : KiOp} {sh : KiShared}
    (ho : o ∈ (kiExec numCpus sha false w op sh).1) (hop : op.isCheck = false) :
    o.isCheck = false := by
  cases op <;> simp only [kiExec] at ho
  case dispatchCrossModuleEvent b =>
    simp only [dispatchOps, Bool.false_eq_true, if_false, kiDeliver] at ho
    repeat' split at ho
    all_goals
      simp only [List.mem_append, List.mem_cons, List.not_mem_nil, or_false, false_or] at ho
      grind [KiOp.isCheck]
  case enterFailSafeMode =>
    split at ho
    · cases ho
    · rw [List.mem_singleton.mp ho]
      rfl
  case failSafe =>
    simp only [failSafeOps, Bool.false_eq_true, if_false, List.append_nil, List.mem_append,
      List.mem_map, List.mem_singleton] at ho
    rcases ho with ⟨cpu, -, rfl⟩ | rfl <;> rfl
  case idtVector | checkDispatchHook | verifyModuleIntegrity | verifySharedStateIntegrity =>
    simp [KiOp.isCheck] at hop
  all_goals cases ho

theorem ChecksPassive.step (h : ChecksPassive s) (m : KiMove) :
    ChecksPassive (kiStep numCpus sha s m) := by
  cases m with
  | event passive a =>
      refine ⟨?_, fun o ho htodo => ?_⟩
      · rw [kiStep, spawn, List.map_append, List.head?_append, h.worker]
        rfl
      · obtain hold | ⟨-, hnew⟩ := todo_spawn.mp htodo
        · exact h.checks o ho hold
        · rw [List.mem_singleton.mp hnew] at ho
          cases ho
  | timeout =>
      refine ⟨by rw [kiStep, tags_wake]; exact h.worker, fun o ho htodo => ?_⟩
      obtain hold | ⟨⟨th, hth, htag⟩, -⟩ := of_todo_wake htodo
      · exact h.checks o ho hold
      · have hworker := h.worker
        rw [List.head?_eq_getElem?, List.getElem?_map, hth, Option.map_some, htag] at hworker
        cases hworker
  | step i w =>
      refine ⟨by rw [kiStep, tags_next]; exact h.worker, fun o ho htodo => ?_⟩
      obtain hold | ⟨o', htodo', hmem, -⟩ := todo_next htodo
      · exact h.checks o ho hold
      · by_cases ho' : o'.isCheck = true
        · exact h.checks o' ho' htodo'
        · rw [check_of_mem_kiExec hmem (by simpa using ho')] at ho
          cases ho
  | updateHash bc => exact ⟨h.worker, h.checks⟩
  | tamper policy => exact ⟨h.worker, h.checks⟩

theorem ChecksPassive.start (policy : PolicyBlock) (mit : Nat → CpuMitigations)
    (baseline : List BaselineEntry) : ChecksPassive (.start policy mit baseline) where
  worker := rfl
  checks := by
    rintro o - ⟨th, hth, htag, -⟩
    rw [List.mem_singleton.mp hth] at htag
    cases htag

/-- A kind of operations that every operation puts there as often as `c` says; neither the worker's
turn nor a call begins with one. -/
structure Counts (numCpus : Nat) (sha : List UInt8 → KiDigest) (q : Bool → KiOp → Bool)
    (c : Bool → KiOp → Nat) : Prop where
  event : ∀ p a, q p (.dispatchCrossModuleEvent a) = false
  check : ∀ p o, o.isCheck = true → q p o = false
  exec : ∀ p w o sh, (o.isCheck = true → p = true) →
    (kiExec numCpus sha p w o sh).1.countP (q p) = c p o

theorem isCheck_of_mem_turn {sh : KiShared} {o : KiOp} (h : o ∈ integrityWorkerTurn sh) :
    o.isCheck = true := by
  simp only [integrityWorkerTurn, idtVerifyKeyboardHandler, List.mem_append, List.mem_map,
    List.mem_singleton] at h
  rcases h with ((⟨vector, -, rfl⟩ | hscan) | hverify) | rfl
  · rfl
  · obtain ⟨name, major, rfl⟩ := scanKeyboardDrivers_eq hscan
    rfl
  · split at hverify
    · rw [List.mem_singleton.mp hverify]
      rfl
    · cases hverify
  · rfl

/-- A step: what is done and what is to be done are together what was put there. -/
theorem Counts.step {q : Bool → KiOp → Bool} {c : Bool → KiOp → Nat}
    (hcount : Counts numCpus sha q c) (h : ChecksPassive s) (m : KiMove) :
    pending q (kiStep numCpus sha s m) + (kiDid s m).countP (fun d => q d.1 d.2)
      = pending q s + ((kiDid s m).map fun d => c d.1 d.2).sum := by
  cases m with
  | event passive a =>
      have hnone : [KiOp.dispatchCrossModuleEvent a].countP (q passive) = 0 := by
        simp [hcount.event passive a]
      have hspawn := pending_spawn (q := q) (s := s) ⟨passive, [.dispatchCrossModuleEvent a]⟩
      simpa [kiStep, kiDid, hnone] using hspawn
  | timeout =>
      have hwake : pending q (wake s 0 (integrityWorkerTurn s.shared)) = pending q s :=
        pending_wake fun p o ho => hcount.check p o (isCheck_of_mem_turn ho)
      simpa [kiStep, kiDid] using hwake
  | step i w =>
      refine pending_next (kiExec numCpus sha) s i w fun p o htodo => ?_
      refine hcount.exec p w o s.shared fun ho => ?_
      by_contra hp
      obtain rfl : p = false := by simpa using hp
      exact h.checks o ho htodo
  | updateHash bc => rfl
  | tamper policy => rfl

/-- And so over a run. -/
theorem Counts.run {q : Bool → KiOp → Bool} {c : Bool → KiOp → Nat}
    (hcount : Counts numCpus sha q c) (h : ChecksPassive s) (acts : List KiMove) :
    pending q (kiRun numCpus sha s acts)
        + (kiDone numCpus sha s acts).countP (fun d => q d.1 d.2)
      = pending q s + ((kiDone numCpus sha s acts).map fun d => c d.1 d.2).sum := by
  induction acts using List.reverseRecOn with
  | nil => rfl
  | append_singleton acts m ih =>
      have hchecks : ChecksPassive (kiRun numCpus sha s acts) :=
        Run.exec_invariant (fun _ m hs => hs.step m) h acts
      have hstep := hcount.step hchecks m
      rw [kiRun_append, kiDone, Run.outputs_snoc]
      simp only [List.countP_append, List.map_append, List.sum_append]
      simp only [kiRun, kiDone, Run.exec_cons, Run.exec_nil] at hstep ih ⊢
      omega

theorem counts_notify (a : Alert) :
    Counts numCpus sha (fun p o => p && decide (o = .secureCommNotify a))
      (fun p o => if p then notifies a o else 0) where
  event := by simp
  check := by
    intro p o ho
    cases o <;> simp [KiOp.isCheck] at ho ⊢
  exec := by
    intro p w o sh _
    cases p with
    | true => simpa using countP_notify_kiExec w o sh a
    | false => simp

theorem counts_signal (type : UInt32) :
    Counts numCpus sha (fun p o => !p && decide (o = .secureCommMsrSignal type))
      (fun p o => if p then 0 else signals type o) where
  event := by simp
  check := by
    intro p o ho
    cases o <;> simp [KiOp.isCheck] at ho ⊢
  exec := by
    intro p w o sh ho
    cases p with
    | true => simp
    | false =>
        have hop : o.isCheck = false := by
          by_contra hcheck
          simpa using ho (by simpa using hcheck)
        simpa using countP_signal_kiExec w hop sh type

theorem sum_notifies (done : List (Bool × KiOp)) (a : Alert) :
    (done.map fun d => if d.1 then notifies a d.2 else 0).sum
      = done.count (true, .dispatchCrossModuleEvent a)
        + done.countP (fun d => d.1 && decide (AnnouncesAlert a d.2))
        + if a = failSafeAlert then done.count (true, .failSafe) else 0 := by
  induction done with
  | nil => simp
  | cons d rest ih =>
      obtain ⟨p, o⟩ := d
      rw [List.map_cons, List.sum_cons, ih, List.count_cons, List.count_cons, List.countP_cons]
      cases p with
      | false => simp
      | true =>
          by_cases ha : a = failSafeAlert
          all_goals
            simp only [notifies, ↓reduceIte, Bool.true_and, decide_eq_true_eq, beq_iff_eq,
              Prod.mk.injEq, true_and, ha, and_true, and_false]
            omega

theorem sum_signals (done : List (Bool × KiOp)) (type : UInt32) :
    (done.map fun d => if d.1 then 0 else signals type d.2).sum
      = done.countP (fun d => !d.1 && decide (Reports type d.2))
        + if type = failSafeAlert.type then done.count (false, .failSafe) else 0 := by
  induction done with
  | nil => simp
  | cons d rest ih =>
      obtain ⟨p, o⟩ := d
      rw [List.map_cons, List.sum_cons, ih, List.count_cons, List.countP_cons]
      cases p with
      | true => simp
      | false =>
          by_cases ht : type = failSafeAlert.type
          all_goals
            simp only [signals, ↓reduceIte, Bool.not_false, Bool.true_and, decide_eq_true_eq,
              beq_iff_eq, Prod.mk.injEq, true_and, ht, and_true, and_false, Bool.false_eq_true]
            omega

/-- Every call at `PASSIVE_LEVEL` is notified once, and every call above it signalled once.  Besides
there are the announcements in front of fail-safe mode, and the alert of fail-safe mode. -/
structure DeliveredEach (done : List (Bool × KiOp)) : Prop where
  notified : ∀ a, done.count (true, .secureCommNotify a)
    = done.count (true, .dispatchCrossModuleEvent a)
      + done.countP (fun d => d.1 && decide (AnnouncesAlert a d.2))
      + if a = failSafeAlert then done.count (true, .failSafe) else 0
  signalled : ∀ type, done.count (false, .secureCommMsrSignal type)
    = done.countP (fun d => !d.1 && decide (Reports type d.2))
      + if type = failSafeAlert.type then done.count (false, .failSafe) else 0

/-- When nothing is to be done, what is done is what was put there. -/
theorem Counts.quiet {q : Bool → KiOp → Bool} {c : Bool → KiOp → Nat}
    (hcount : Counts numCpus sha q c) {policy : PolicyBlock} {mit : Nat → CpuMitigations}
    {baseline : List BaselineEntry} {acts : List KiMove}
    (hquiet : Quiet (kiRun numCpus sha (.start policy mit baseline) acts)) :
    (kiDone numCpus sha (.start policy mit baseline) acts).countP (fun d => q d.1 d.2)
      = ((kiDone numCpus sha (.start policy mit baseline) acts).map fun d => c d.1 d.2).sum := by
  have hrun := hcount.run (.start policy mit baseline) acts
  have hstart : pending q (KiState.start policy mit baseline) = 0 := rfl
  rw [hquiet.pending, hstart, Nat.zero_add, Nat.zero_add] at hrun
  exact hrun

theorem delivered_each {policy : PolicyBlock} {mit : Nat → CpuMitigations}
    {baseline : List BaselineEntry} {acts : List KiMove}
    (hquiet : Quiet (kiRun numCpus sha (.start policy mit baseline) acts)) :
    DeliveredEach (kiDone numCpus sha (.start policy mit baseline) acts) where
  notified a := by
    rw [← sum_notifies, ← (counts_notify a).quiet hquiet]
    refine List.countP_congr fun d _ => ?_
    obtain ⟨p, o⟩ := d
    cases p <;> simp
  signalled type := by
    rw [← sum_signals, ← (counts_signal type).quiet hquiet]
    refine List.countP_congr fun d _ => ?_
    obtain ⟨p, o⟩ := d
    cases p <;> simp

end

/-! ### Runs -/

section

variable (numCpus : Nat) (sha : List UInt8 → KiDigest)

theorem FailSafeInv.start (policy : PolicyBlock) (mit : Nat → CpuMitigations)
    (baseline : List BaselineEntry) : FailSafeInv numCpus (.start policy mit baseline) where
  cause := by
    rintro (hmode | ⟨t, o, -, th, hth, -, ho⟩)
    · cases hmode
    · obtain rfl := List.mem_singleton.mp hth
      cases ho
  response := fun _ _ ha => by cases ha
  cpus := fun hmode => by cases hmode
  signal := fun hmode => by cases hmode
  delivered := fun _ ha => by cases ha

theorem FailSafeInv.run (policy : PolicyBlock) (mit : Nat → CpuMitigations)
    (baseline : List BaselineEntry) (acts : List KiMove) :
    FailSafeInv numCpus (kiRun numCpus sha (.start policy mit baseline) acts) :=
  Run.exec_invariant (fun _ m h => h.step m) (.start numCpus policy mit baseline) acts

theorem kept_run (s : KiState) (acts : List KiMove) :
    (s.shared.failSafeMode = true → (kiRun numCpus sha s acts).shared.failSafeMode = true) ∧
      ∀ cpu, FullSpectrum cpu s.shared → FullSpectrum cpu (kiRun numCpus sha s acts).shared :=
  ⟨fun h => Run.exec_invariant (P := fun s : KiState => s.shared.failSafeMode = true)
      (fun _ _ h => kept_step.1 h) h acts,
    fun cpu h => Run.exec_invariant (P := fun s : KiState => FullSpectrum cpu s.shared)
      (fun _ _ h => kept_step.2 cpu h) h acts⟩

/-- In every interleaving of the worker with events on any CPU and at any IRQL: fail-safe mode is
entered only after a grave event; it is never left, and no CPU comes back from the highest
strategy; and when no call is under way, every event that was dispatched has reached user mode,
each call by a notification or a signal of its own, and if one of them was grave, the mode is
entered and signalled and every CPU is at the highest strategy. -/
theorem fail_safe_run (policy : PolicyBlock) (mit : Nat → CpuMitigations)
    (baseline : List BaselineEntry) (acts : List KiMove) :
    let s := kiRun numCpus sha (.start policy mit baseline) acts
    (s.shared.failSafeMode = true → ∃ a, Grave a ∧ .dispatched a ∈ s.shared.log) ∧
      (∀ more,
        (s.shared.failSafeMode = true → (kiRun numCpus sha s more).shared.failSafeMode = true) ∧
          ∀ cpu, FullSpectrum cpu s.shared → FullSpectrum cpu (kiRun numCpus sha s more).shared) ∧
      (Quiet s →
        (∀ a, .dispatched a ∈ s.shared.log → Delivered a s.shared) ∧
          DeliveredEach (kiDone numCpus sha (.start policy mit baseline) acts) ∧
          ((∃ a, Grave a ∧ .dispatched a ∈ s.shared.log) →
            s.shared.failSafeMode = true ∧ FailSafeSignalled s.shared ∧
              ∀ cpu < numCpus, FullSpectrum cpu s.shared)) := by
  intro s
  have h : FailSafeInv numCpus s := .run numCpus sha policy mit baseline acts
  refine ⟨fun hmode => h.cause (.inl hmode), kept_run numCpus sha s, fun hquiet =>
    ⟨fun a ha => (h.delivered a ha).done hquiet, delivered_each hquiet, ?_⟩⟩
  rintro ⟨a, hgrave, ha⟩
  have hmode : s.shared.failSafeMode = true := (h.response a hgrave ha).done hquiet
  exact ⟨hmode, (h.signal hmode).done hquiet, fun cpu hcpu => (h.cpus hmode cpu hcpu).done hquiet⟩

end

end KernelGuard
