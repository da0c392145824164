/-
The integrity worker in a system where nothing is wrong: it reports nothing.

What a sound gate and a sound dispatch routine are is said in their own terms (`IdtEntry64.Sound`,
`DispatchSound`), and the checks find exactly what is not so.  The worker is created before the
hash of the shared state is taken; if its first turn came earlier, the policy would be taken for
tampered with.

`Unharmed` is the invariant of the memory and `Silent` the one of the threads: what
a thread still has to do is a list of operations, and each is silent in a state
where nothing has been found yet.  An operation of a silent list leaves the state
unharmed and pushes silent operations only, so the run lemma is one induction over
the moves, whatever their order.  What it needs of the moves from outside is said by
`CleanMove`: the system stays clean, the policy is left alone, and other parts of
the driver bring no grave event.
-/
import KernelGuard.Proofs.IntegrityWorker

namespace KernelGuard

open Threads

/-- A gate as Windows sets it up, whose handler is in the kernel, where that is known. -/
def IdtEntry64.Sound (e : IdtEntry64) (ntBase : UInt64) (ntSize : UInt32) : Prop :=
  e.present = true → (e.gateType = 0xE ∨ e.gateType = 0xF) ∧ e.dpl = 0 ∧
    (e.selector = 0x10 ∨ e.selector = 0x08) ∧
    (ntBase ≠ 0 → ntBase ≤ e.handler ∧ e.handler < ntBase + ntSize.toUInt64)

/-- A jump or call in place of the first instruction, a push and a return, the load of an address,
or breakpoints. -/
def Hooked (p : Nat → UInt8) : Prop :=
  p 0 = 0xE9 ∨ p 0 = 0xE8 ∨ (p 0 = 0x68 ∧ p 5 = 0xC3) ∨ (p 0 = 0xFF ∧ p 1 = 0x25) ∨
    (p 0 = 0x48 ∧ p 1 = 0xB8) ∨ (p 0 = 0xCC ∧ p 1 = 0xCC)

/-- The routine is the driver's own and begins as it was compiled. -/
def DispatchSound (w : KiWorld) (drv : DriverObject) (major : Nat) : Prop :=
  drv.majorFunction major ≠ 0 →
    drv.driverStart ≤ drv.majorFunction major ∧
      drv.majorFunction major < drv.driverStart + drv.driverSize.toUInt64 ∧
      ∀ p, w.prologue (drv.majorFunction major) = some p → ¬Hooked p

theorem findIdx_hookSigs (p : Nat → UInt8) :
    hookSigs.findIdx? (hookMatches p) = none ↔ ¬Hooked p := by
  simp only [List.findIdx?_eq_none_iff, hookSigs, hookMatches, Hooked, List.forall_mem_cons,
    List.not_mem_nil, List.all_cons, List.all_nil, Bool.and_true, Bool.and_eq_false_imp,
    beq_iff_eq, beq_eq_false_iff_ne]
  tauto

theorem idtVectorOps_eq_nil {w : KiWorld} {v : Nat} :
    idtVectorOps w v = [] ↔ (w.idt v).Sound w.ntBase w.ntSize := by
  simp only [idtVectorOps, IdtEntry64.Sound]
  cases hpresent : (w.idt v).present with
  | false => simp
  | true =>
      simp only [Bool.not_true, Bool.false_eq_true, if_false, forall_const]
      split
      · rename_i hgate
        simp [hgate.1, hgate.2]
      · rename_i hgate
        rw [List.append_eq_nil_iff, List.append_eq_nil_iff]
        simp only [ite_eq_right_iff, reduceCtorEq, imp_false, not_not, not_and_or, not_or,
          UInt64.not_lt, UInt64.not_le, ge_iff_le]
        tauto

theorem checkDispatchHookOps_eq_nil {w : KiWorld} {name : CStr} {major : Nat} :
    checkDispatchHookOps w name major = [] ↔
      ∀ drv, w.driver name = some drv → DispatchSound w drv major := by
  rw [checkDispatchHookOps]
  cases w.driver name with
  | none => simp
  | some drv =>
      simp only [Option.some.injEq, forall_eq', DispatchSound, dispatchHookFound]
      split
      · rename_i hzero
        simp [hzero]
      split
      · rename_i hzero hout
        refine iff_of_false (by simp) fun h => ?_
        obtain ⟨hstart, hend, -⟩ := h hzero
        rcases hout with hout | hout
        · exact absurd hstart (UInt64.not_le.mpr hout)
        · exact absurd hend (UInt64.not_lt.mpr hout)
      · rename_i hzero hin
        obtain ⟨hstart, hend⟩ := not_or.mp hin
        rw [UInt64.not_lt] at hstart
        rw [ge_iff_le, UInt64.not_le] at hend
        simp only [ne_eq, hzero, not_false_eq_true, forall_const, hstart, hend, true_and]
        cases w.prologue (drv.majorFunction major) with
        | none => simp
        | some p =>
            simp only [Option.some.injEq, forall_eq', ← findIdx_hookSigs]
            split
            · rename_i hnone
              simp [hnone]
            · rename_i i hsome
              simp [hsome]

/-- A world in which nothing is wrong, for the modules of the baseline. -/
structure Clean (sha : List UInt8 → KiDigest) (baseline : List BaselineEntry) (w : KiWorld) :
    Prop where
  bcrypt : w.bcrypt.Fine
  idt : ∀ v ∈ kbdVectors, (w.idt v).Sound w.ntBase w.ntSize
  drivers : ∀ t ∈ kbdTargets, ∀ major ∈ t.2, ∀ drv, w.driver t.1 = some drv →
    DispatchSound w drv major
  text : ∀ e ∈ baseline, sha (w.text e.textSectionBase e.textSectionSize) = e.sha256Hash

/-- What threads have to do when nothing is found; `ext` are the events from outside, and `ready`
is whether the hash of the shared state is taken. -/
def Silent (ext : Alert → Prop) (ready : Bool) : KiOp → Prop
  | .idtVector v => v ∈ kbdVectors
  | .checkDispatchHook name major => ∃ t ∈ kbdTargets, t.1 = name ∧ major ∈ t.2
  | .verifySharedStateIntegrity => ready = true
  | .dispatchCrossModuleEvent a => ext a
  | .enterFailSafeMode | .failSafe | .setIdtHook | .setDispatchHook | .setTextPatch _ => False
  | _ => True

/-- Nothing is found so far. -/
structure Unharmed (sha : List UInt8 → KiDigest) (ext : Alert → Prop)
    (baseline : List BaselineEntry) (policy : PolicyBlock) (ready : Bool) (sh : KiShared) :
    Prop where
  samePolicy : sh.policy = policy
  hash : ready = true → sh.stateHash = sha policy.bytes
  fixed : sh.baseline.map BaselineEntry.fixed = baseline.map BaselineEntry.fixed
  normal : sh.failSafeMode = false
  valid : sh.integrityValid = true
  idtHook : sh.idtHookDetected = false
  dispatchHook : sh.dispatchHookDetected = false
  textPatch : sh.textPatchDetected = false
  log : ∀ a, .dispatched a ∈ sh.log → ext a

section

variable {numCpus : Nat} {sha : List UInt8 → KiDigest} {ext : Alert → Prop}
  {baseline : List BaselineEntry} {policy : PolicyBlock} {ready passive : Bool} {w : KiWorld}
  {op : KiOp} {sh : KiShared}

theorem silent_scan (h : op ∈ scanKeyboardDrivers) : Silent ext ready op := by
  obtain ⟨t, ht, hop⟩ := List.mem_flatMap.mp h
  obtain ⟨major, hmajor, rfl⟩ := List.mem_map.mp hop
  exact ⟨t, ht, rfl, hmajor⟩

theorem silent_dispatch {cpu : Nat} {a : Alert} (ha : ¬Grave a)
    (h : op ∈ dispatchOps passive cpu a) : Silent ext ready op := by
  rcases mem_dispatchOps h with rfl | rfl | rfl | rfl | rfl | ⟨-, hscan⟩ | ⟨-, hgrave⟩
  · cases passive <;> exact trivial
  · exact trivial
  · exact trivial
  · exact trivial
  · exact trivial
  · exact silent_scan hscan
  · exact absurd hgrave ha

theorem Unharmed.put (h : Unharmed sha ext baseline policy ready sh) {out : KiOutput}
    (hout : ∀ a, out = .dispatched a → ext a) :
    Unharmed sha ext baseline policy ready (sh.put out) :=
  { h with
    log := fun a ha => by
      rcases List.mem_append.mp ha with hold | hnew
      · exact h.log a hold
      · exact hout a (List.mem_singleton.mp hnew).symm }

/-- The check of a module of the baseline finds its text as it was. -/
theorem Unharmed.verify (h : Unharmed sha ext baseline policy ready sh)
    (hclean : Clean sha baseline w) {i : Nat} {e : BaselineEntry} (he : sh.baseline[i]? = some e) :
    ∃ baseline', verifyModuleIntegrity sha w i e sh = ([], { sh with baseline := baseline' }) ∧
      baseline'.map BaselineEntry.fixed = baseline.map BaselineEntry.fixed := by
  obtain ⟨baseline', heq, hbaseline⟩ | ⟨-, d, hd, hne⟩ := verifyModuleIntegrity_cases sha w i e sh
  · refine ⟨baseline', heq, ?_⟩
    rcases hbaseline with rfl | rfl
    · exact h.fixed
    · refine Eq.trans ?_ h.fixed
      exact map_fixed_set he rfl
  · have hmem : e.fixed ∈ baseline.map BaselineEntry.fixed :=
      h.fixed ▸ List.mem_map_of_mem (List.mem_of_getElem? he)
    obtain ⟨e', he', hfixed⟩ := List.mem_map.mp hmem
    have htext := hclean.text e' he'
    simp only [BaselineEntry.fixed, BaselineEntry.mk.injEq] at hfixed
    rw [hfixed.1, hfixed.2.1, hfixed.2.2.1, ← computeSha256_some hd] at htext
    exact absurd htext hne

/-- An operation that finds nothing changes nothing but what is counted, logged or raised. -/
theorem Unharmed.kiExec (h : Unharmed sha ext baseline policy ready sh)
    (hext : ∀ a, ext a → ¬Grave a) (hop : Silent ext ready op) (hclean : Clean sha baseline w) :
    (∀ o ∈ (kiExec numCpus sha passive w op sh).1, Silent ext ready o) ∧
      Unharmed sha ext baseline policy ready (kiExec numCpus sha passive w op sh).2 := by
  cases op with
  | idtVector v =>
      rw [KernelGuard.kiExec, idtVectorOps_eq_nil.mpr (hclean.idt v hop)]
      exact ⟨by simp, h⟩
  | checkDispatchHook name major =>
      obtain ⟨t, ht, rfl, hmajor⟩ := hop
      rw [KernelGuard.kiExec, checkDispatchHookOps_eq_nil.mpr (hclean.drivers t ht major hmajor)]
      exact ⟨by simp, h⟩
  | verifyModuleIntegrity =>
      rw [KernelGuard.kiExec]
      dsimp only
      split
      · exact ⟨by simp, h⟩
      · rename_i e he
        have hput : Unharmed sha ext baseline policy ready
            { sh.put (.checked (sh.verifyIdx.toNat % sh.baseline.length)) with
              verifyIdx := sh.verifyIdx + 1 } :=
          { h.put (by simp) with }
        obtain ⟨baseline', heq, hbaseline⟩ := hput.verify hclean he
        rw [heq]
        exact ⟨by simp, { hput with fixed := hbaseline }⟩
  | verifySharedStateIntegrity =>
      have hsame : computeSha256 sha w.bcrypt sh.policy.bytes = some sh.stateHash := by
        rw [hclean.bcrypt.computeSha256, h.samePolicy, h.hash hop]
      have heq : constantTimeMemEq sh.stateHash sh.stateHash = true :=
        constantTimeMemEq_iff.mpr rfl
      simp only [KernelGuard.kiExec, hsame, heq]
      exact ⟨by simp, { h with valid := rfl }⟩
  | dispatchCrossModuleEvent a =>
      exact ⟨fun o ho => silent_dispatch (hext a hop) ho,
        h.put fun a' ha' => KiOutput.dispatched.inj ha' ▸ hop⟩
  | escalate cpu => exact ⟨by simp [KernelGuard.kiExec], { h with }⟩
  | executeSecurityBoundaryFlush cpu =>
      exact ⟨by simp [KernelGuard.kiExec], { h.put (by simp) with }⟩
  | enableSpeculationControls cpu =>
      rw [KernelGuard.kiExec]
      dsimp only
      split
      · exact ⟨by simp, h⟩
      · exact ⟨by simp, h.put (by simp)⟩
  | enterFailSafeMode | failSafe | setIdtHook | setDispatchHook | setTextPatch =>
      exact absurd hop id
  | secureCommNotify a => exact ⟨by simp [KernelGuard.kiExec], h.put (by simp)⟩
  | secureCommMsrSignal type => exact ⟨by simp [KernelGuard.kiExec], h.put (by simp)⟩

end

/-! ### Runs

Before the hash of the shared state is taken the worker has not begun, and
afterwards the check of the hash is one of the silent operations.  `ready` keeps the
two apart; it changes once, at the move that takes the hash, and `SilentInv.taken`
says that it does not change back.
-/

structure SilentInv (sha : List UInt8 → KiDigest) (ext : Alert → Prop)
    (baseline : List BaselineEntry) (policy : PolicyBlock) (ready : Bool) (s : KiState) :
    Prop where
  unharmed : Unharmed sha ext baseline policy ready s.shared
  todo : ∀ t o, Todo s t o → Silent ext ready o

/-- What is wrong in neither of these moves. -/
structure CleanMove (sha : List UInt8 → KiDigest) (ext : Alert → Prop)
    (baseline : List BaselineEntry) (ready : Bool) (m : KiMove) : Prop where
  world : ∀ i w, m = .step i w → Clean sha baseline w
  event : ∀ passive a, m = .event passive a → ext a
  untouched : ∀ policy, m ≠ .tamper policy
  turn : m = .timeout → ready = true

section

variable {numCpus : Nat} {sha : List UInt8 → KiDigest} {ext : Alert → Prop}
  {baseline : List BaselineEntry} {policy : PolicyBlock} {ready : Bool} {s : KiState}

theorem Unharmed.updateHash {sh : KiShared} (h : Unharmed sha ext baseline policy ready sh)
    (bc : BCryptCalls) :
    Unharmed sha ext baseline policy ready (updateSharedStateHash sha bc sh) := by
  rw [updateSharedStateHash]
  split
  · exact h
  · rename_i hash hhash
    refine { h with hash := fun _ => ?_ }
    rw [← h.samePolicy]
    exact computeSha256_some hhash

theorem silent_turn (h : ready = true) {sh : KiShared} {o : KiOp}
    (ho : o ∈ integrityWorkerTurn sh) : Silent ext ready o := by
  simp only [integrityWorkerTurn, List.mem_append, List.mem_singleton] at ho
  rcases ho with ((hidt | hscan) | hverify) | rfl
  · obtain ⟨v, hv, rfl⟩ := List.mem_map.mp hidt
    exact hv
  · exact silent_scan hscan
  · split at hverify
    · rw [List.mem_singleton.mp hverify]
      exact trivial
    · cases hverify
  · exact h

theorem SilentInv.step (h : SilentInv sha ext baseline policy ready s)
    (hext : ∀ a, ext a → ¬Grave a) {m : KiMove} (hm : CleanMove sha ext baseline ready m) :
    SilentInv sha ext baseline policy ready (kiStep numCpus sha s m) := by
  cases m with
  | event passive a =>
      refine ⟨h.unharmed, fun t o ho => ?_⟩
      obtain hold | ⟨-, hnew⟩ := todo_spawn.mp ho
      · exact h.todo t o hold
      · rw [List.mem_singleton.mp hnew]
        exact hm.event passive a rfl
  | timeout =>
      rw [kiStep]
      refine ⟨by rw [wake_shared]; exact h.unharmed, fun t o ho => ?_⟩
      obtain hold | ⟨-, hnew⟩ := of_todo_wake ho
      · exact h.todo t o hold
      · exact silent_turn (hm.turn rfl) hnew
  | step i w =>
      rw [kiStep]
      have hclean := hm.world i w rfl
      refine ⟨?_, fun t o ho => ?_⟩
      · obtain hsame | ⟨t, o, htodo, hdid, -⟩ := next_did (kiExec numCpus sha) s i w
        · rw [hsame]
          exact h.unharmed
        · rw [hdid]
          exact (h.unharmed.kiExec hext (h.todo t o htodo) hclean).2
      · obtain hold | ⟨o', htodo, hmem, -⟩ := todo_next ho
        · exact h.todo t o hold
        · exact (h.unharmed.kiExec hext (h.todo t o' htodo) hclean).1 o hmem
  | updateHash bc => exact ⟨h.unharmed.updateHash bc, h.todo⟩
  | tamper policy' => exact absurd rfl (hm.untouched policy')

variable (numCpus) in
theorem SilentInv.run (h : SilentInv sha ext baseline policy ready s)
    (hext : ∀ a, ext a → ¬Grave a) (acts : List KiMove)
    (hacts : ∀ m ∈ acts, CleanMove sha ext baseline ready m) :
    SilentInv sha ext baseline policy ready (kiRun numCpus sha s acts) := by
  induction acts using List.reverseRecOn with
  | nil => exact h
  | append_singleton acts m ih =>
      rw [kiRun, Run.exec_snoc]
      exact (ih fun m' hm' => hacts m' (List.mem_append_left _ hm')).step hext
        (hacts m (by simp))

/-- From then on the worker may look at the shared state. -/
theorem SilentInv.taken (numCpus : Nat) (h : SilentInv sha ext baseline policy false s)
    {bc : BCryptCalls} (hbc : bc.Fine) :
    SilentInv sha ext baseline policy true (kiStep numCpus sha s (.updateHash bc)) := by
  have hunharmed := h.unharmed.updateHash bc
  refine ⟨{ hunharmed with hash := fun _ => ?_ }, fun t o ho => ?_⟩
  · rw [kiStep, updateSharedStateHash, hbc.computeSha256, h.unharmed.samePolicy]
  · have hsilent := h.todo t o ho
    cases o <;> first | exact hsilent | exact rfl

end

/-- While the system is clean, the policy is left alone and no grave event comes from another part
of the driver, nothing is reported but those events, and no flag is set: in every interleaving, if
the worker has its first turn after `UpdateSharedStateHash`. -/
theorem clean_run (numCpus : Nat) (sha : List UInt8 → KiDigest) (policy : PolicyBlock)
    (mit : Nat → CpuMitigations) (baseline : List BaselineEntry) (before acts : List KiMove)
    {bc : BCryptCalls} (hbc : bc.Fine) (hbefore : .timeout ∉ before)
    (hclean : ∀ i w, .step i w ∈ before ++ acts → Clean sha baseline w)
    (hevents : ∀ passive a, .event passive a ∈ before ++ acts → ¬Grave a)
    (hpolicy : ∀ policy', .tamper policy' ∉ before ++ acts) :
    let s := (kiRun numCpus sha (.start policy mit baseline)
      (before ++ .updateHash bc :: acts)).shared
    (s.failSafeMode = false ∧ s.integrityValid = true ∧ s.idtHookDetected = false ∧
        s.dispatchHookDetected = false ∧ s.textPatchDetected = false) ∧
      ∀ a, .dispatched a ∈ s.log → ∃ passive, .event passive a ∈ before ++ acts := by
  intro s
  have hext : ∀ a, (∃ passive, .event passive a ∈ before ++ acts) → ¬Grave a :=
    fun a ⟨passive, ha⟩ => hevents passive a ha
  have hmove : ∀ ready, ∀ m ∈ before ++ acts, (m = .timeout → ready = true) →
      CleanMove sha (fun a => ∃ passive, .event passive a ∈ before ++ acts) baseline ready m :=
    fun ready m hm hturn =>
      { world := fun i w heq => hclean i w (heq ▸ hm)
        event := fun passive a heq => ⟨passive, heq ▸ hm⟩
        untouched := fun policy' heq => hpolicy policy' (heq ▸ hm)
        turn := hturn }
  have hstart : SilentInv sha (fun a => ∃ passive, .event passive a ∈ before ++ acts) baseline
      policy false (.start policy mit baseline) :=
    { unharmed :=
        ⟨rfl, (fun h => by cases h), rfl, rfl, rfl, rfl, rfl, rfl, fun a ha => by cases ha⟩
      todo := by
        rintro t o ⟨th, hth, -, ho⟩
        obtain rfl := List.mem_singleton.mp hth
        cases ho }
  have htaken := (hstart.run numCpus hext before fun m hm =>
    hmove false m (List.mem_append_left _ hm) fun heq => absurd (heq ▸ hm) hbefore).taken
    numCpus hbc
  have hend := (htaken.run numCpus hext acts fun m hm =>
    hmove true m (List.mem_append_right _ hm) fun _ => rfl).unharmed
  have hs : s = (kiRun numCpus sha (kiStep numCpus sha
      (kiRun numCpus sha (.start policy mit baseline) before) (.updateHash bc)) acts).shared := by
    simp only [s, kiRun_append]
    rfl
  rw [hs]
  exact ⟨⟨hend.normal, hend.valid, hend.idtHook, hend.dispatchHook, hend.textPatch⟩, hend.log⟩

/-- An interrupt gate to a routine of the kernel. -/
def soundGate : IdtEntry64 := ⟨0x1000, 0x10, 0xE, 0, true, 0x0010, 0xFFFFF800⟩

/-- A driver whose routines are all in its image. -/
def soundDriver : DriverObject := ⟨0xFFFFF80100000000, 0x8000, fun _ => 0xFFFFF80100001000⟩

/-- Every gate is present, and the keyboard drivers are loaded; their routines begin by saving a
register. -/
def loadedWorld : KiWorld :=
  { plainWorld 4 with
    idt := fun _ => soundGate
    ntBase := 0xFFFFF80000000000
    ntSize := 0x1000000
    driver := fun _ => some soundDriver
    prologue := fun _ => some fun i => [0x48, 0x89, 0x5C, 0x24, 0x08, 0x57, 0x48, 0x83].getD i 0 }

theorem soundGate_sound : soundGate.Sound 0xFFFFF80000000000 0x1000000 := by
  unfold IdtEntry64.Sound
  decide

theorem soundDriver_sound (major : Nat) : DispatchSound loadedWorld soundDriver major := by
  have hstart : (0xFFFFF80100000000 : UInt64) ≤ 0xFFFFF80100001000 := by decide
  have hend : (0xFFFFF80100001000 : UInt64) < 0xFFFFF80100000000 + (0x8000 : UInt32).toUInt64 := by
    decide
  refine fun _ => ⟨hstart, hend, fun p hp => ?_⟩
  obtain rfl := Option.some.inj hp
  unfold Hooked
  decide

theorem clean_loadedWorld : Clean firstBytes twoModules loadedWorld where
  bcrypt := workingBCrypt_fine
  idt := fun _ _ => soundGate_sound
  drivers := fun _ _ major _ drv h => by
    obtain rfl : soundDriver = drv := Option.some.inj h
    exact soundDriver_sound major
  text := by
    intro e he
    simp only [twoModules_eq, List.mem_cons, List.not_mem_nil, or_false] at he
    rcases he with rfl | rfl <;> rfl

/-- A turn of the worker, an alert about a keyboard filter, and another turn. -/
def cleanMoves : List KiMove :=
  .timeout :: List.replicate 11 (.step 0 loadedWorld) ++
    .event true ⟨kgAlertKbdFilterNeutralized, 2, 0, 0⟩ :: List.replicate 2 (.step 1 loadedWorld) ++
    .timeout :: List.replicate 11 (.step 0 loadedWorld)

theorem mem_cleanMoves {m : KiMove} (h : m ∈ [] ++ cleanMoves) :
    m = .timeout ∨ (∃ i, m = .step i loadedWorld) ∨
      m = .event true ⟨kgAlertKbdFilterNeutralized, 2, 0, 0⟩ := by
  simp only [List.nil_append, cleanMoves, List.mem_append, List.mem_cons] at h
  rcases h with ((rfl | h) | rfl | h) | rfl | h
  · exact .inl rfl
  · exact .inr (.inl ⟨0, List.eq_of_mem_replicate h⟩)
  · exact .inr (.inr rfl)
  · exact .inr (.inl ⟨1, List.eq_of_mem_replicate h⟩)
  · exact .inl rfl
  · exact .inr (.inl ⟨0, List.eq_of_mem_replicate h⟩)

theorem keyboardAlert_ungrave : ¬Grave ⟨kgAlertKbdFilterNeutralized, 2, 0, 0⟩ := by
  unfold Grave
  decide

theorem clean_run_two_turns :
    let s := (kiRun 1 firstBytes (.start plainPolicy plainCpus twoModules)
      ([] ++ .updateHash workingBCrypt :: cleanMoves)).shared
    s.failSafeMode = false ∧ s.idtHookDetected = false ∧ s.dispatchHookDetected = false := by
  obtain ⟨⟨hmode, -, hidt, hdispatch, -⟩, -⟩ := clean_run 1 firstBytes plainPolicy plainCpus
    twoModules [] cleanMoves workingBCrypt_fine (by simp)
    (fun i w hm => by
      obtain heq | ⟨j, heq⟩ | heq := mem_cleanMoves hm
      · cases heq
      · exact (KiMove.step.inj heq).2 ▸ clean_loadedWorld
      · cases heq)
    (fun passive a hm => by
      obtain heq | ⟨j, heq⟩ | heq := mem_cleanMoves hm
      · cases heq
      · cases heq
      · exact (KiMove.event.inj heq).2 ▸ keyboardAlert_ungrave)
    (fun policy' hm => by
      obtain heq | ⟨j, heq⟩ | heq := mem_cleanMoves hm <;> cases heq)
  exact ⟨hmode, hidt, hdispatch⟩

/-- Without the hash the first turn takes the policy for tampered with. -/
example :
    (kiRun 1 firstBytes (.start plainPolicy plainCpus twoModules)
      (plainTurn 4)).shared.failSafeMode = true := by
  decide +kernel

end KernelGuard
