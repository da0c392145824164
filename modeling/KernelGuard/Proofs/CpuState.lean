/-
What the passes over the CPUs' control state notice.

`kg_cpu_base` is a record of what every CPU showed when it was last seen, up to the bits nobody
looks at (`Records`), so a change of a register or of the IDTR base is noticed on the CPU it
happens on.  The gates are another matter: one copy serves all CPUs, it is compared through the
first CPU only, and the limit of an IDTR is never compared at all.  What the passes notice of an
IDT that stays where it is, is therefore what shows in the gates of the first CPU (`ShownByFirst`).

The history of a run is kept beside the module's state: the passes so far, the baseline first.
-/
import KernelGuard.Model.CpuState
import KernelGuard.Proofs.Pmu

namespace KernelGuard

open Run Sweep

/-! ### One CPU

Masks cover up the bits nobody looks at, so what is recorded and what was shown
differ in general.  Comparing through the same masks makes the difference invisible,
and a record that is right up to the masks is as good as an exact one
(`Records.regsDiffer`).
-/

theorem mem_kgMsrs (r : KgMsr) : r ∈ kgMsrs := by
  cases r <;> decide

theorem kgMsrs_nodup : kgMsrs.Nodup := by decide

/-- `b` holds what a CPU showed as `c`, as far as it is compared. -/
structure Records (idtEnabled : Bool) (b c : KgCpust) : Prop where
  valid : b.valid = true
  msr : b.msr = c.msr
  wp : b.cr0 &&& x86Cr0Wp = c.cr0 &&& x86Cr0Wp
  pins : b.cr4 &&& kgCr4Pins = c.cr4 &&& kgCr4Pins
  idtr : idtEnabled = true → b.idtBase = c.idtBase

/-- A register that is compared differs. -/
def RegsDiffer (b c : KgCpust) : Prop :=
  (∃ r, b.msr r ≠ c.msr r) ∨ b.cr0 &&& x86Cr0Wp ≠ c.cr0 &&& x86Cr0Wp ∨
    b.cr4 &&& kgCr4Pins ≠ c.cr4 &&& kgCr4Pins

/-- Only the compared part of a record matters. -/
theorem Records.regsDiffer {e : Bool} {b p c : KgCpust} (h : Records e b p) :
    RegsDiffer b c ↔ RegsDiffer p c := by
  unfold RegsDiffer
  rw [h.msr, h.wp, h.pins]

/-- The alerts that tampering with the control state raises. -/
def Alert.Tampering (a : Alert) : Prop :=
  a.level = kgLevelCritical ∧ (a.type = kgAlertIdtHook ∨ a.type = kgAlertCtrlRegTamper)

theorem checkMsr_snd (cpu : Nat) (c : KgCpust) (r : KgMsr) (b : UInt64) :
    (checkMsr cpu c r b).2 = c.msr r := by
  unfold checkMsr
  split
  · rfl
  · rename_i hsame
    exact not_not.mp hsame

theorem mem_checkMsr {cpu : Nat} {c : KgCpust} {r : KgMsr} {b : UInt64} {a : Alert} :
    a ∈ (checkMsr cpu c r b).1 ↔ b ≠ c.msr r ∧ a = kgRegAlert cpu r.reg (c.msr r) := by
  unfold checkMsr
  split <;> simp_all

theorem checkBits_snd (cpu : Nat) (reg : UInt32) (mask c b : UInt64) :
    (checkBits cpu reg mask c b).2 &&& mask = c &&& mask := by
  unfold checkBits
  split
  · rfl
  · rename_i hsame
    exact not_not.mp hsame

theorem mem_checkBits {cpu : Nat} {reg : UInt32} {mask c b : UInt64} {a : Alert} :
    a ∈ (checkBits cpu reg mask c b).1 ↔ b &&& mask ≠ c &&& mask ∧ a = kgRegAlert cpu reg c := by
  unfold checkBits
  split <;> simp_all

theorem checkIdtr_snd {e : Bool} (he : e = true) (c b : UInt64) : (checkIdtr e c b).2 = c := by
  unfold checkIdtr
  split
  · rfl
  · rename_i hsame
    exact not_not.mp (fun hne => hsame ⟨he, hne⟩)

theorem mem_checkIdtr {e : Bool} {c b : UInt64} {a : Alert} :
    a ∈ (checkIdtr e c b).1 ↔
      (e = true ∧ b ≠ c) ∧ a = ⟨kgAlertIdtHook, kgLevelCritical, c, 0x100⟩ := by
  unfold checkIdtr
  split <;> simp_all

/-- After a comparison the record is up to date. -/
theorem compare_records {e : Bool} {cpu : Nat} {c b : KgCpust} (hvalid : b.valid = true) :
    Records e (kgCpustCompare e cpu c b).2 c := by
  refine ⟨hvalid, ?_, checkBits_snd .., checkBits_snd .., fun he => checkIdtr_snd he _ _⟩
  funext r
  show (sweep (checkMsr cpu c) kgMsrs b.msr).2 r = _
  rw [sweep_snd _ kgMsrs_nodup, if_pos (mem_kgMsrs r), checkMsr_snd]

theorem mem_compare {e : Bool} {cpu : Nat} {c b : KgCpust} {a : Alert} :
    a ∈ (kgCpustCompare e cpu c b).1 ↔
      (∃ r, b.msr r ≠ c.msr r ∧ a = kgRegAlert cpu r.reg (c.msr r)) ∨
      (b.cr0 &&& x86Cr0Wp ≠ c.cr0 &&& x86Cr0Wp ∧ a = kgRegAlert cpu kgRegCr0 c.cr0) ∨
      (b.cr4 &&& kgCr4Pins ≠ c.cr4 &&& kgCr4Pins ∧ a = kgRegAlert cpu kgRegCr4 c.cr4) ∨
      ((e = true ∧ b.idtBase ≠ c.idtBase) ∧
        a = ⟨kgAlertIdtHook, kgLevelCritical, c.idtBase, 0x100⟩) := by
  show a ∈ (sweep (checkMsr cpu c) kgMsrs b.msr).1 ++ (checkBits cpu kgRegCr0 x86Cr0Wp c.cr0 b.cr0).1
    ++ (checkBits cpu kgRegCr4 kgCr4Pins c.cr4 b.cr4).1 ++ (checkIdtr e c.idtBase b.idtBase).1 ↔ _
  simp only [List.mem_append, mem_sweep_fst kgMsrs_nodup, mem_checkMsr, mem_checkBits,
    mem_checkIdtr, mem_kgMsrs, true_and, or_assoc]

/-- A comparison raises something exactly if something that is compared differs. -/
theorem compare_alerts_iff {e : Bool} {cpu : Nat} {c b : KgCpust} :
    (∃ a, a ∈ (kgCpustCompare e cpu c b).1) ↔
      RegsDiffer b c ∨ e = true ∧ b.idtBase ≠ c.idtBase := by
  simp only [mem_compare, exists_or, exists_and_left, exists_eq, and_true, RegsDiffer, or_assoc]
  rw [exists_comm]
  simp only [exists_and_left, exists_eq, and_true]

theorem compare_tampering {e : Bool} {cpu : Nat} {c b : KgCpust} {a : Alert}
    (h : a ∈ (kgCpustCompare e cpu c b).1) : a.Tampering := by
  rcases mem_compare.mp h with ⟨r, -, rfl⟩ | ⟨-, rfl⟩ | ⟨-, rfl⟩ | ⟨-, rfl⟩
  · exact ⟨rfl, Or.inr rfl⟩
  · exact ⟨rfl, Or.inr rfl⟩
  · exact ⟨rfl, Or.inr rfl⟩
  · exact ⟨rfl, Or.inl rfl⟩

/-! ### The gates

A pass over the gates overwrites each entry of the copy that it finds different.  So
the copy after a pass is what the pass saw, and what it raises are the indices at
which the two differed before.
-/

theorem mem_verifyGate {m : CodeMap} {cur : Nat → GateDesc} {v : Nat} {base : GateDesc} {a : Alert} :
    a ∈ (kgIdtVerifyGate m false cur v base).1 ↔
      cur v ≠ base ∧ a = ⟨kgAlertIdtHook, kgLevelCritical, gateOffset (cur v), v.toUInt64⟩ := by
  unfold kgIdtVerifyGate
  by_cases hsame : cur v = base <;> simp [hsame]

/-- A pass reports the gates that differ from the copy, and those only. -/
theorem mem_verify {m : CodeMap} {scene : CpuScene} {c : KgCpust} {base : Nat → GateDesc}
    {a : Alert} :
    a ∈ (kgIdtVerify m scene c false base).1 ↔ ∃ v < c.gates, scene.cur c v ≠ base v ∧
      a = ⟨kgAlertIdtHook, kgLevelCritical, gateOffset (scene.cur c v), v.toUInt64⟩ := by
  unfold kgIdtVerify
  simp only [mem_sweep_fst List.nodup_range, mem_verifyGate, List.mem_range]

/-- A visit leaves the gate it found, whether it was new or not. -/
theorem verifyGate_snd {m : CodeMap} {baselinePass : Bool} {cur : Nat → GateDesc} {v : Nat}
    {base : GateDesc} (h : baselinePass = true → base = cur v) :
    (kgIdtVerifyGate m baselinePass cur v base).2 = cur v := by
  cases baselinePass with
  | true =>
      unfold kgIdtVerifyGate
      rw [h rfl]
      simp only
      split
      · rfl
      · split <;> rfl
  | false =>
      unfold kgIdtVerifyGate
      by_cases hsame : cur v = base <;> simp [hsame]

theorem verify_copy {m : CodeMap} {scene : CpuScene} {c : KgCpust} {baselinePass : Bool}
    {base : Nat → GateDesc} (h : baselinePass = true → base = scene.cur c) (v : Nat) :
    (kgIdtVerify m scene c baselinePass base).2 v
      = if v < c.gates then scene.cur c v else base v := by
  unfold kgIdtVerify
  rw [sweep_snd _ List.nodup_range]
  simp only [List.mem_range]
  split
  · exact verifyGate_snd (fun hb => congrFun (h hb) v)
  · rfl

/-! ### What the CPUs showed before

A CPU is compared with what it showed when it was last seen, which may be
several passes back.  The table entry of a CPU is written when the CPU is seen and at
no other time; that is the invariant, and it goes through because a pass visits the
CPUs that are online and only those.
-/

/-- The last pass that saw the CPU. -/
def lastSeen (cpu : Nat) (hist : List CpuScene) : Option CpuScene :=
  hist.reverse.find? fun scene => decide (cpu ∈ scene.topo.onlineCpus)

theorem lastSeen_snoc (cpu : Nat) (hist : List CpuScene) (scene : CpuScene) :
    lastSeen cpu (hist ++ [scene])
      = if cpu ∈ scene.topo.onlineCpus then some scene else lastSeen cpu hist := by
  unfold lastSeen
  rw [List.reverse_append, List.reverse_singleton, List.singleton_append, List.find?_cons]
  by_cases hup : cpu ∈ scene.topo.onlineCpus
  · rw [if_pos hup, decide_eq_true hup]
  · rw [if_neg hup, decide_eq_false hup]

theorem lastSeen_of_online {cpu : Nat} (hist : List CpuScene) (scene : CpuScene) {prev : CpuScene}
    (hup : cpu ∈ scene.topo.onlineCpus) (h : lastSeen cpu (hist ++ [scene]) = some prev) :
    prev = scene := by
  rw [lastSeen_snoc, if_pos hup, Option.some.injEq] at h
  exact h.symm

section Changes

variable (f : CpuFeatures) (prev now : CpuScene) (cpu : Nat)

/-- A gate of the IDT that the IDTR of the CPU designates. -/
def GatesChanged : Prop :=
  ∃ v < (now.now f cpu).gates, prev.cur (prev.now f cpu) v ≠ now.cur (now.now f cpu) v

/-- The limit of the CPU's IDT is not what it was, or a gate below the limit is not. -/
def TableChanged : Prop :=
  (prev.now f cpu).idtLimit ≠ (now.now f cpu).idtLimit ∨ GatesChanged f prev now cpu

def ControlChanged : Prop :=
  RegsDiffer (prev.now f cpu) (now.now f cpu) ∨
    (prev.now f cpu).idtBase ≠ (now.now f cpu).idtBase ∨ TableChanged f prev now cpu

end Changes

/-- A run of passes: what they found so far, the baseline first, and the state they left. -/
structure CpuRun where
  hist : List CpuScene
  st : KgCpuBase

variable (f : CpuFeatures) (m : CodeMap)

def cpuRunInit (scene : CpuScene) : CpuRun := ⟨[scene], (kgCpuStateBaseline f m scene).2⟩

def cpuRunStep (r : CpuRun) (scene : CpuScene) : CpuRun :=
  ⟨r.hist ++ [scene], cpuStateStep f m r.st scene⟩

@[simp] theorem cpuRunStep_st (r : CpuRun) (scene : CpuScene) :
    (cpuRunStep f m r scene).st = cpuStateStep f m r.st scene := rfl

/-- The table records what each CPU showed when it was last seen. -/
structure BaseOK (r : CpuRun) : Prop where
  unseen : ∀ cpu, lastSeen cpu r.hist = none → (r.st.cpu cpu).valid = false
  seen : ∀ cpu prev, lastSeen cpu r.hist = some prev →
    Records r.st.idtEnabled (r.st.cpu cpu) (prev.now f cpu)

theorem now_of_online (scene : CpuScene) {cpu : Nat} (hup : cpu ∈ scene.topo.onlineCpus) :
    scene.now f cpu = kgCpustCollect f (scene.regs cpu) := if_pos hup

/-- What the turn of a CPU leaves in its entry. -/
theorem check_records {e : Bool} {scene : CpuScene} {cpu : Nat} (b : KgCpust)
    (hup : cpu ∈ scene.topo.onlineCpus) :
    Records e (kgCpuCheck e (scene.now f) cpu b).2 (scene.now f cpu) := by
  have hvalid : (scene.now f cpu).valid = true := by
    rw [now_of_online f _ hup]
    rfl
  unfold kgCpuCheck
  rw [if_neg (by simp [hvalid])]
  by_cases hb : b.valid = true
  · rw [if_neg (by simp [hb])]
    exact compare_records hb
  · rw [if_pos (by simp [hb])]
    exact ⟨hvalid, rfl, rfl, rfl, fun _ => rfl⟩

theorem step_cpu (st : KgCpuBase) (scene : CpuScene) (cpu : Nat) :
    (cpuStateStep f m st scene).cpu cpu = if cpu ∈ scene.topo.onlineCpus
      then (kgCpuCheck st.idtEnabled (scene.now f) cpu (st.cpu cpu)).2 else st.cpu cpu := by
  rw [← sweep_snd (kgCpuCheck st.idtEnabled (scene.now f)) scene.topo.onlineCpus_nodup]
  unfold cpuStateStep kgCpuStateCheck
  split
  · split <;> rfl
  · rfl

theorem step_idtEnabled (st : KgCpuBase) (scene : CpuScene) :
    (cpuStateStep f m st scene).idtEnabled = st.idtEnabled := by
  unfold cpuStateStep kgCpuStateCheck
  split
  · split <;> rfl
  · rfl

theorem init_idtEnabled (scene : CpuScene) : (cpuRunInit f m scene).st.idtEnabled = !f.fred := by
  unfold cpuRunInit kgCpuStateBaseline
  dsimp only
  split
  · split <;> rfl
  · rfl

/-- The copy is taken from the first CPU. -/
theorem init_copy {scene : CpuScene} (first : Nat) (hfred : f.fred = false)
    (hfirst : (scene.topo.onlineCpus.find? fun cpu => (scene.now f cpu).valid) = some first)
    (v : Nat) : (cpuRunInit f m scene).st.idt v = scene.cur (scene.now f first) v := by
  unfold cpuRunInit kgCpuStateBaseline
  simp only [hfirst, hfred, Bool.not_false, if_true]
  rw [verify_copy (fun _ => rfl), ite_self]

/-- And kept up to date through the first CPU, as far as its IDT goes. -/
theorem step_copy {st : KgCpuBase} (scene : CpuScene) {first : Nat} (he : st.idtEnabled = true)
    (hfirst : st.first f scene = some first) (v : Nat) :
    (cpuStateStep f m st scene).idt v = if v < (scene.now f first).gates
      then scene.cur (scene.now f first) v else st.idt v := by
  unfold cpuStateStep kgCpuStateCheck
  simp only [hfirst, he, if_true]
  exact verify_copy (fun hb => absurd hb (by decide)) v

theorem init_base (scene : CpuScene) : BaseOK f (cpuRunInit f m scene) := by
  have hcpu : ∀ cpu, (kgCpuStateBaseline f m scene).2.cpu cpu
      = if cpu ∈ scene.topo.onlineCpus then scene.now f cpu else .zero := by
    intro cpu
    unfold kgCpuStateBaseline
    dsimp only
    split
    · split <;> rfl
    · rfl
  have hseen : ∀ cpu, lastSeen cpu (cpuRunInit f m scene).hist
      = if cpu ∈ scene.topo.onlineCpus then some scene else none := by
    intro cpu
    exact lastSeen_snoc cpu [] scene
  refine ⟨?_, ?_⟩
  · intro cpu hnone
    rw [hseen] at hnone
    show ((kgCpuStateBaseline f m scene).2.cpu cpu).valid = false
    rw [hcpu]
    split
    · rename_i hup
      rw [if_pos hup] at hnone
      exact absurd hnone nofun
    · rfl
  · intro cpu prev hsome
    rw [hseen] at hsome
    show Records _ ((kgCpuStateBaseline f m scene).2.cpu cpu) _
    rw [hcpu]
    split
    · rename_i hup
      rw [if_pos hup, Option.some.injEq] at hsome
      subst hsome
      refine ⟨?_, rfl, rfl, rfl, fun _ => rfl⟩
      rw [now_of_online f _ hup]
      rfl
    · rename_i hdown
      rw [if_neg hdown] at hsome
      exact absurd hsome nofun

/-- A pass brings the record of every CPU it sees up to date. -/
theorem step_base {r : CpuRun} (h : BaseOK f r) (scene : CpuScene) :
    BaseOK f (cpuRunStep f m r scene) := by
  refine ⟨?_, ?_⟩
  · intro cpu hnone
    change lastSeen cpu (r.hist ++ [scene]) = none at hnone
    show ((cpuStateStep f m r.st scene).cpu cpu).valid = false
    rw [lastSeen_snoc] at hnone
    rw [step_cpu]
    by_cases hup : cpu ∈ scene.topo.onlineCpus
    · rw [if_pos hup] at hnone
      exact absurd hnone nofun
    · rw [if_neg hup] at hnone ⊢
      exact h.unseen cpu hnone
  · intro cpu prev hsome
    change lastSeen cpu (r.hist ++ [scene]) = some prev at hsome
    show Records (cpuStateStep f m r.st scene).idtEnabled ((cpuStateStep f m r.st scene).cpu cpu) _
    rw [lastSeen_snoc] at hsome
    rw [step_cpu, step_idtEnabled]
    by_cases hup : cpu ∈ scene.topo.onlineCpus
    · rw [if_pos hup, Option.some.injEq] at hsome
      subst hsome
      rw [if_pos hup]
      exact check_records f _ hup
    · rw [if_neg hup] at hsome ⊢
      exact h.seen cpu prev hsome

theorem run_base (scene : CpuScene) (passes : List CpuScene) :
    BaseOK f (exec (cpuRunStep f m) (cpuRunInit f m scene) passes) :=
  exec_invariant (P := BaseOK f) (fun _ now h => step_base f m h now) (init_base f m scene) passes

/-! ### What a pass raises

A pass is its visits, one for each online CPU, and the visit of the first one, which
also looks at the gates.  Nothing else raises an alert of tampering, so an alert is
traced to a visit and a visit to a difference.
-/

theorem first_spec {r : CpuRun} (h : BaseOK f r) {now : CpuScene} {first : Nat}
    (hfirst : r.st.first f now = some first) :
    first ∈ now.topo.onlineCpus ∧ ∃ prev, lastSeen first r.hist = some prev := by
  refine ⟨List.mem_of_find?_eq_some hfirst, ?_⟩
  have hvalid := List.find?_some hfirst
  simp only [Bool.and_eq_true] at hvalid
  cases hseen : lastSeen first r.hist with
  | none =>
      rw [h.unseen first hseen] at hvalid
      exact absurd hvalid.2 (by decide)
  | some prev => exact ⟨prev, rfl⟩

theorem first_of_head {r : CpuRun} (h : BaseOK f r) {now : CpuScene} (prev : CpuScene) {cpu : Nat}
    {rest : List Nat} (honline : now.topo.onlineCpus = cpu :: rest)
    (hseen : lastSeen cpu r.hist = some prev) : r.st.first f now = some cpu := by
  unfold KgCpuBase.first
  rw [honline, List.find?_cons_of_pos]
  rw [now_of_online f _ (by rw [honline]; exact List.mem_cons_self), (h.seen cpu prev hseen).valid]
  rfl

/-- The turn of a CPU raises something exactly if its registers or its IDTR base changed. -/
theorem check_alerts_iff {r : CpuRun} (h : BaseOK f r) {now : CpuScene} {cpu : Nat}
    (hup : cpu ∈ now.topo.onlineCpus) :
    (∃ a, a ∈ (kgCpuCheck r.st.idtEnabled (now.now f) cpu (r.st.cpu cpu)).1) ↔
      ∃ prev, lastSeen cpu r.hist = some prev ∧ (RegsDiffer (prev.now f cpu) (now.now f cpu) ∨
        r.st.idtEnabled = true ∧ (prev.now f cpu).idtBase ≠ (now.now f cpu).idtBase) := by
  have hvalid : (now.now f cpu).valid = true := by
    rw [now_of_online f _ hup]
    rfl
  unfold kgCpuCheck
  rw [if_neg (by simp [hvalid])]
  cases hseen : lastSeen cpu r.hist with
  | none => simp [h.unseen cpu hseen]
  | some prev =>
      have hrec := h.seen cpu prev hseen
      rw [if_neg (by simp [hrec.valid]), compare_alerts_iff, hrec.regsDiffer]
      have hidtr : (r.st.idtEnabled = true ∧ (r.st.cpu cpu).idtBase ≠ (now.now f cpu).idtBase) ↔
          (r.st.idtEnabled = true ∧ (prev.now f cpu).idtBase ≠ (now.now f cpu).idtBase) := by
        refine and_congr_right ?_
        intro he
        rw [hrec.idtr he]
      rw [hidtr]
      constructor
      · intro hdiffer
        exact ⟨prev, rfl, hdiffer⟩
      · intro hexists
        obtain ⟨prev', heq, hdiffer⟩ := hexists
        rw [Option.some.inj heq]
        exact hdiffer

/-- The gates of the first CPU against the copy. -/
def FirstDiffers (r : CpuRun) (now : CpuScene) : Prop :=
  ∃ first, r.st.first f now = some first ∧
    ∃ v < (now.now f first).gates, now.cur (now.now f first) v ≠ r.st.idt v

theorem mem_alerts {st : KgCpuBase} {now : CpuScene} {a : Alert} :
    a ∈ cpuStateAlerts f m st now ↔
      (∃ cpu ∈ now.topo.onlineCpus,
        a ∈ (kgCpuCheck st.idtEnabled (now.now f) cpu (st.cpu cpu)).1) ∨
      (st.idtEnabled = true ∧ ∃ first, st.first f now = some first ∧
        a ∈ (kgIdtVerify m now (now.now f first) false st.idt).1) := by
  rw [← mem_sweep_fst now.topo.onlineCpus_nodup]
  unfold cpuStateAlerts kgCpuStateCheck
  cases hfirst : st.first f now with
  | none => simp
  | some first =>
      cases henabled : st.idtEnabled with
      | false => simp
      | true => simp [List.mem_append]

/-- Nothing else is raised by a pass. -/
theorem alerts_tampering {st : KgCpuBase} {now : CpuScene} {a : Alert}
    (h : a ∈ cpuStateAlerts f m st now) : a.Tampering := by
  rcases (mem_alerts f m).mp h with ⟨cpu, -, ha⟩ | ⟨-, first, -, ha⟩
  · unfold kgCpuCheck at ha
    split at ha
    · simp at ha
    · split at ha
      · simp at ha
      · exact compare_tampering ha
  · obtain ⟨v, -, -, rfl⟩ := mem_verify.mp ha
    exact ⟨rfl, Or.inl rfl⟩

/-- When a pass raises something. -/
theorem alerts_iff {r : CpuRun} (h : BaseOK f r) (now : CpuScene) :
    (∃ a ∈ cpuStateAlerts f m r.st now, a.Tampering) ↔
      (∃ cpu ∈ now.topo.onlineCpus, ∃ prev, lastSeen cpu r.hist = some prev ∧
        (RegsDiffer (prev.now f cpu) (now.now f cpu) ∨
          r.st.idtEnabled = true ∧ (prev.now f cpu).idtBase ≠ (now.now f cpu).idtBase)) ∨
      (r.st.idtEnabled = true ∧ FirstDiffers f r now) := by
  constructor
  · intro hraised
    obtain ⟨a, ha, -⟩ := hraised
    rcases (mem_alerts f m).mp ha with ⟨cpu, hup, ha⟩ | ⟨he, first, hfirst, ha⟩
    · exact Or.inl ⟨cpu, hup, (check_alerts_iff f h hup).mp ⟨a, ha⟩⟩
    · obtain ⟨v, hv, hne, -⟩ := mem_verify.mp ha
      exact Or.inr ⟨he, first, hfirst, v, hv, hne⟩
  · intro hchange
    have hmem : ∃ a, a ∈ cpuStateAlerts f m r.st now := by
      rcases hchange with ⟨cpu, hup, hdiffer⟩ | ⟨he, first, hfirst, v, hv, hne⟩
      · obtain ⟨a, ha⟩ := (check_alerts_iff f h hup).mpr hdiffer
        exact ⟨a, (mem_alerts f m).mpr (Or.inl ⟨cpu, hup, ha⟩)⟩
      · exact ⟨_, (mem_alerts f m).mpr
          (Or.inr ⟨he, first, hfirst, mem_verify.mpr ⟨v, hv, hne, rfl⟩⟩)⟩
    obtain ⟨a, ha⟩ := hmem
    exact ⟨a, ha, alerts_tampering f m ha⟩

/-! ### Changes and alerts -/

/-- The pass raises an alert exactly if the control state of a CPU it knew has changed. -/
def DetectsChanges (r : CpuRun) (now : CpuScene) : Prop :=
  (∃ a ∈ cpuStateAlerts f m r.st now, a.Tampering) ↔
    ∃ cpu ∈ now.topo.onlineCpus, ∃ prev, lastSeen cpu r.hist = some prev ∧
      ControlChanged f prev now cpu

/--
The IDTs change only where the pass looks.  With the IDT check on, the copy is what the first CPU
showed when it was last seen, and if the limit or a gate of some CPU changed and its base did not,
then a gate of the first changed.  With it off, no IDT changes.
-/
structure ShownByFirst (r : CpuRun) (now : CpuScene) : Prop where
  copy : r.st.idtEnabled = true → ∀ first prev, r.st.first f now = some first →
    lastSeen first r.hist = some prev →
      ∀ v < (now.now f first).gates, prev.cur (prev.now f first) v = r.st.idt v
  shown : r.st.idtEnabled = true → ∀ cpu ∈ now.topo.onlineCpus, ∀ prev,
    lastSeen cpu r.hist = some prev → (prev.now f cpu).idtBase = (now.now f cpu).idtBase →
    TableChanged f prev now cpu →
      ∃ first before, r.st.first f now = some first ∧ lastSeen first r.hist = some before ∧
        GatesChanged f before now first
  off : r.st.idtEnabled = false → ∀ cpu ∈ now.topo.onlineCpus, ∀ prev,
    lastSeen cpu r.hist = some prev →
      (prev.now f cpu).idtBase = (now.now f cpu).idtBase ∧ ¬ TableChanged f prev now cpu

/-- Where the copy is what the first CPU showed, differing from it is having changed. -/
theorem ShownByFirst.changed {r : CpuRun} (h : BaseOK f r) {now : CpuScene}
    (hshown : ShownByFirst f r now) (he : r.st.idtEnabled = true) (hdiffers : FirstDiffers f r now) :
    ∃ cpu ∈ now.topo.onlineCpus, ∃ prev,
      lastSeen cpu r.hist = some prev ∧ TableChanged f prev now cpu := by
  obtain ⟨first, hfirst, v, hv, hne⟩ := hdiffers
  obtain ⟨hup, prev, hprev⟩ := first_spec f h hfirst
  refine ⟨first, hup, prev, hprev, Or.inr ⟨v, hv, ?_⟩⟩
  rw [hshown.copy he first prev hfirst hprev v hv]
  exact hne.symm

/-- What changed in a table that stayed where it was shows in the first CPU's. -/
theorem ShownByFirst.differs {r : CpuRun} {now : CpuScene} (hshown : ShownByFirst f r now)
    (he : r.st.idtEnabled = true) {cpu : Nat} {prev : CpuScene}
    (hup : cpu ∈ now.topo.onlineCpus) (hprev : lastSeen cpu r.hist = some prev)
    (hbase : (prev.now f cpu).idtBase = (now.now f cpu).idtBase)
    (htable : TableChanged f prev now cpu) : FirstDiffers f r now := by
  obtain ⟨first, before, hfirst, hbefore, v, hv, hne⟩ :=
    hshown.shown he cpu hup prev hprev hbase htable
  refine ⟨first, hfirst, v, hv, ?_⟩
  rw [← hshown.copy he first before hfirst hbefore v hv]
  exact hne.symm

theorem step_detects {r : CpuRun} (h : BaseOK f r) {now : CpuScene}
    (hshown : ShownByFirst f r now) : DetectsChanges f m r now := by
  refine (alerts_iff f m h now).trans ?_
  cases he : r.st.idtEnabled with
  | true =>
      constructor
      · intro halert
        rcases halert with ⟨cpu, hup, prev, hprev, hregs | ⟨-, hidtr⟩⟩ | ⟨-, hdiffers⟩
        · exact ⟨cpu, hup, prev, hprev, Or.inl hregs⟩
        · exact ⟨cpu, hup, prev, hprev, Or.inr (Or.inl hidtr)⟩
        · obtain ⟨cpu, hup, prev, hprev, htable⟩ := hshown.changed f h he hdiffers
          exact ⟨cpu, hup, prev, hprev, Or.inr (Or.inr htable)⟩
      · intro hchanged
        obtain ⟨cpu, hup, prev, hprev, hregs | hidtr | htable⟩ := hchanged
        · exact Or.inl ⟨cpu, hup, prev, hprev, Or.inl hregs⟩
        · exact Or.inl ⟨cpu, hup, prev, hprev, Or.inr ⟨rfl, hidtr⟩⟩
        by_cases hbase : (prev.now f cpu).idtBase = (now.now f cpu).idtBase
        · exact Or.inr ⟨rfl, hshown.differs f he hup hprev hbase htable⟩
        · -- A table that moved is noticed by its base, whatever is in it.
          exact Or.inl ⟨cpu, hup, prev, hprev, Or.inr ⟨rfl, hbase⟩⟩
  | false =>
      constructor
      · intro halert
        rcases halert with ⟨cpu, hup, prev, hprev, hregs | ⟨hoff, -⟩⟩ | ⟨hoff, -⟩
        · exact ⟨cpu, hup, prev, hprev, Or.inl hregs⟩
        · exact absurd hoff (by decide)
        · exact absurd hoff (by decide)
      · intro hchanged
        obtain ⟨cpu, hup, prev, hprev, hchange⟩ := hchanged
        obtain ⟨hidtr, htable⟩ := hshown.off he cpu hup prev hprev
        rcases hchange with hregs | hmoved | htable'
        · exact Or.inl ⟨cpu, hup, prev, hprev, Or.inl hregs⟩
        · exact absurd hidtr hmoved
        · exact absurd htable' htable

/-- In every run whose IDTs change only where the passes look, every pass tells. -/
theorem control_changes_detected (scene : CpuScene) (passes : List CpuScene)
    (hshown : Along (cpuRunStep f m) (cpuRunInit f m scene) passes (ShownByFirst f)) :
    Along (cpuRunStep f m) (cpuRunInit f m scene) passes (DetectsChanges f m) := by
  intro pre now post hsplit
  exact step_detects f m (run_base f m scene pre) (hshown pre now post hsplit)

/-! Two CPUs and an IDT that one of them leaves. -/

def twoUp : Topology := ⟨⟨2, two_lt_nrCpuIds⟩, fun _ => true, fun cpu => [cpu]⟩

def stockGate : GateDesc := ⟨0x1000, 0x10, 0x8e00, 0x8100, 0xffffffff, 0⟩

def stockRegs (idtr : UInt64) : CpuRegs := ⟨idtr, 0xfff, fun _ => some 0, 0x80050033, 0x3706f0⟩

def sharedIdt : CpuScene := ⟨twoUp, fun _ => stockRegs 0x1000, fun _ => stockGate⟩

/-- CPU 1 has moved to a table of its own, with the same gates in it. -/
def ownIdt : CpuScene :=
  { sharedIdt with regs := fun cpu => if cpu = 1 then stockRegs 0x5000 else stockRegs 0x1000 }

/-- The divide error of that table goes elsewhere. -/
def ownIdtHooked : CpuScene :=
  { ownIdt with
    gate := fun addr => if addr = 0x5000 then { stockGate with offsetMiddle := 0xc000 } else stockGate }

def noFred : CpuFeatures := ⟨true, true, false⟩

def noText : CodeMap := ⟨0, 0, 0, 0, []⟩

/-- The move is noticed. -/
theorem control_changes_detected_move :
    ∃ a ∈ cpuStateAlerts noFred noText (cpuRunInit noFred noText sharedIdt).st ownIdt,
      a.Tampering := by
  have hshown : ShownByFirst noFred (cpuRunInit noFred noText sharedIdt) ownIdt := by
    refine ⟨?_, ?_, ?_⟩
    · intro _ first prev hfirst hprev v _
      obtain ⟨hup, -⟩ := first_spec noFred (init_base noFred noText sharedIdt) hfirst
      rw [init_copy noFred noText 0 rfl (by decide)]
      rw [lastSeen_of_online [] sharedIdt hup hprev]
      rfl
    · intro _ cpu hup prev hprev _ htable
      rw [lastSeen_of_online [] sharedIdt hup hprev] at htable
      rcases htable with hlimit | ⟨v, -, hgate⟩
      · rw [now_of_online noFred ownIdt hup, now_of_online noFred sharedIdt hup] at hlimit
        refine absurd ?_ hlimit
        show (0xfff : UInt16) = (if cpu = 1 then stockRegs 0x5000 else stockRegs 0x1000).idtrSize
        split <;> rfl
      · exact absurd rfl hgate
    · intro hoff
      rw [init_idtEnabled] at hoff
      exact absurd hoff (by decide)
  have hdetects := control_changes_detected noFred noText sharedIdt [ownIdt]
    (.cons hshown (.nil _ _ _)) [] ownIdt [] rfl
  exact hdetects.mpr ⟨1, by decide, sharedIdt, rfl, Or.inr (Or.inl (by decide))⟩

/-- What happens in the table it moved to is not. -/
theorem own_idt_hook_missed :
    ¬ ∀ passes : List CpuScene, Along (cpuRunStep noFred noText)
      (cpuRunInit noFred noText sharedIdt) passes (DetectsChanges noFred noText) := by
  intro hall
  have hdetects := hall [ownIdt, ownIdtHooked] [ownIdt] ownIdtHooked [] rfl
  have hraised := (alerts_iff noFred noText (run_base noFred noText sharedIdt [ownIdt])
    ownIdtHooked).mp (hdetects.mpr
      ⟨1, by decide, ownIdt, rfl, Or.inr (Or.inr (Or.inr ⟨0, by decide, by decide⟩))⟩)
  rcases hraised with ⟨cpu, hup, prev, hprev, hdiffer⟩ | ⟨he, first, hfirst, v, hv, hne⟩
  · -- no register differs from the pass before
    rw [lastSeen_of_online [sharedIdt] ownIdt hup hprev] at hdiffer
    rcases hdiffer with (⟨r, hmsr⟩ | hwp | hpins) | ⟨-, hidtr⟩
    · exact hmsr rfl
    · exact hwp rfl
    · exact hpins rfl
    · exact hidtr rfl
  · -- and the first CPU still has the table the copy was taken from
    have hzero : (exec (cpuRunStep noFred noText) (cpuRunInit noFred noText sharedIdt)
        [ownIdt]).st.first noFred ownIdtHooked = some 0 :=
      first_of_head noFred (run_base noFred noText sharedIdt [ownIdt]) ownIdt rfl rfl
    rw [hzero, Option.some.injEq] at hfirst
    subst hfirst
    have hcopy : (exec (cpuRunStep noFred noText) (cpuRunInit noFred noText sharedIdt)
        [ownIdt]).st.idt v = stockGate := by
      have hstep := step_copy noFred noText ownIdt
        ((init_idtEnabled noFred noText sharedIdt).trans rfl)
        (first_of_head noFred (init_base noFred noText sharedIdt) sharedIdt rfl rfl) v
      rw [if_pos (show v < (ownIdt.now noFred 0).gates from hv)] at hstep
      rw [exec_cons, exec_nil, cpuRunStep_st, hstep]
      rfl
    have hgate : ownIdtHooked.cur (ownIdtHooked.now noFred 0) v = stockGate := by
      refine if_neg ?_
      intro haddr
      have hlt : v < 256 := Nat.lt_of_lt_of_le hv (Nat.min_le_left _ _)
      have hnat : (0x1000 + 16 * v.toUInt64 : UInt64).toNat = (0x5000 : UInt64).toNat :=
        congrArg UInt64.toNat haddr
      have hv64 : v.toUInt64.toNat = v := by
        show (UInt64.ofNat v).toNat = v
        rw [UInt64.toNat_ofNat', Nat.mod_eq_of_lt (by omega)]
      simp only [UInt64.toNat_add, UInt64.toNat_mul, hv64, UInt64.reduceToNat] at hnat
      omega
    exact hne (hgate.trans hcopy.symm)

end KernelGuard
