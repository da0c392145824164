/-
A critical core and its mitigation strategy.

The critical flag lives in the sampler and the strategy in the guarded table, and five writers
touch one or the other.  Reports, raises and the decay never take a CPU off full spectrum
(`Hardens`), and the sampler's relax pass leaves alone what is hot.  Two writers do not look at
the flags: an operator's step down from HIGH restores every baseline, and a CPU that comes up
gets its probed strategy even if its core partner is critical.
-/
import KernelGuard.Proofs.PmuLevels
import KernelGuard.Proofs.Response

namespace KernelGuard

open Run

variable {D : Type} (sha : List UInt8 → Option D) (mac : List UInt8 → KgMac)

/-! ### Writers that only harden

`Hardens` is an order, and the writers that keep to it compose.  A proof about a
report then says nothing of the table but this, and a critical CPU at full spectrum
remains so.
-/

def KgGuard.Full (g : KgGuard D) (cpu : Nat) : Prop := (g.cpu cpu).strategy = kgStratFull

/-- The same machine, and no CPU is taken off full spectrum. -/
structure Hardens (s s' : KgSys D) : Prop where
  topo : s'.topo = s.topo
  ncpu : s'.guard.hdr.ncpu = s.guard.hdr.ncpu
  full : ∀ cpu, s.guard.Full cpu → s'.guard.Full cpu

theorem Hardens.refl (s : KgSys D) : Hardens s s := ⟨rfl, rfl, fun _ h => h⟩

theorem Hardens.trans {s t u : KgSys D} (h : Hardens s t) (h' : Hardens t u) : Hardens s u :=
  ⟨h'.topo.trans h.topo, h'.ncpu.trans h.ncpu, fun cpu hfull => h'.full cpu (h.full cpu hfull)⟩

/-- Nothing but the table and the topology matters. -/
theorem Hardens.of_eq {s s' t : KgSys D} (h : Hardens s t) (hguard : s'.guard = t.guard)
    (htopo : s'.topo = t.topo) : Hardens s s' := by
  refine ⟨htopo.trans h.topo, ?_, ?_⟩
  · rw [hguard]
    exact h.ncpu
  · rw [hguard]
    exact h.full

theorem setCpu_full (g : KgGuard D) {m : KgCpuMit} {cpu i : Nat} (h : g.Full i)
    (hm : i = cpu → m.strategy = kgStratFull) :
    (kgGuardUnlockRelease sha (g.setCpu cpu m)).Full i := by
  unfold KgGuard.Full
  rw [release_cpu]
  show (Function.update g.cpu cpu m i).strategy = _
  by_cases hi : i = cpu
  · subst hi
    rw [Function.update_self]
    exact hm rfl
  · rw [Function.update_of_ne hi]
    exact h

theorem escalate_hardens (cpu : Int) (s : KgSys D) :
    Hardens s { s with guard := kgMitEscalateCpu sha cpu s.guard } := by
  refine ⟨rfl, congrArg KgGuardHdr.ncpu (escalateCpu_hdr sha cpu s.guard), ?_⟩
  intro i hfull
  show (kgMitEscalateCpu sha cpu s.guard).Full i
  unfold kgMitEscalateCpu
  by_cases hr : s.guard.cpuOutOfRange cpu = true
  · rw [if_pos hr]
    exact hfull
  · rw [if_neg hr]
    exact setCpu_full sha s.guard hfull (fun _ => rfl)

/-- An index of the table is in range for the functions that take an `int`. -/
theorem inRange {g : KgGuard D} {nr : NrCpuIds} (hncpu : g.hdr.ncpu = nr.val) {cpu : Nat}
    (hlt : cpu < nr.val.toNat) : g.cpuOutOfRange cpu = false := by
  unfold KgGuard.cpuOutOfRange
  rw [hncpu, asInt_of_lt nr.lt]
  simp only [Bool.or_eq_false_iff, decide_eq_false_iff_not]
  omega

theorem escalate_full {g : KgGuard D} {nr : NrCpuIds} (hncpu : g.hdr.ncpu = nr.val) {cpu : Nat}
    (hlt : cpu < nr.val.toNat) : (kgMitEscalateCpu sha cpu g).Full cpu := by
  unfold kgMitEscalateCpu KgGuard.Full
  rw [if_neg (by rw [inRange hncpu hlt]; decide), release_cpu]
  show (Function.update g.cpu cpu _ cpu).strategy = _
  rw [Function.update_self]

/-- Along the sibling list: what was passed and is up is escalated, and nothing is taken back. -/
theorem flushLoop_hardens (cpu : Nat) (l : List Nat) (t : KgSys D) :
    let t' := l.foldl (fun s sib =>
      if sib = (cpu : Int).toNat || !s.topo.online sib then s
      else { s with guard := kgMitEscalateCpu sha sib s.guard }) t
    Hardens t t' ∧ (t.guard.hdr.ncpu = t.topo.nrCpuIds.val → ∀ sib ∈ l, sib ≠ cpu →
      sib ∈ t.topo.onlineCpus → t'.guard.Full sib) := by
  induction l generalizing t with
  | nil => exact ⟨Hardens.refl t, by simp⟩
  | cons sib rest ih =>
      rw [List.foldl_cons]
      by_cases hskip : (decide (sib = (cpu : Int).toNat) || !t.topo.online sib) = true
      · rw [if_pos hskip]
        obtain ⟨hhard, hfull⟩ := ih t
        refine ⟨hhard, ?_⟩
        intro hncpu i hi hne hup
        rcases List.mem_cons.mp hi with rfl | hi
        · simp only [Int.toNat_natCast, Bool.or_eq_true, decide_eq_true_eq,
            Bool.not_eq_true'] at hskip
          rcases hskip with heq | hdown
          · exact absurd heq hne
          · rw [(Topology.mem_onlineCpus.mp hup).2] at hdown
            exact absurd hdown (by decide)
        · exact hfull hncpu i hi hne hup
      · rw [if_neg hskip]
        have hstep := escalate_hardens sha sib t
        obtain ⟨hhard, hfull⟩ := ih { t with guard := kgMitEscalateCpu sha sib t.guard }
        refine ⟨hstep.trans hhard, ?_⟩
        intro hncpu i hi hne hup
        rcases List.mem_cons.mp hi with rfl | hi
        · exact hhard.full i (escalate_full sha hncpu (Topology.mem_onlineCpus.mp hup).1)
        · exact hfull (hstep.ncpu.trans hncpu) i hi hne hup

/-- The siblings that are up are escalated, and nothing is taken back. -/
theorem flushSiblings_hardens (cpu : Nat) (s : KgSys D) :
    Hardens s (kgMitFlushSiblings sha cpu s) ∧
      (cpu < s.topo.nrCpuIds.val.toNat → s.guard.hdr.ncpu = s.topo.nrCpuIds.val →
        ∀ sib ∈ s.topo.siblings cpu, sib ≠ cpu → sib ∈ s.topo.onlineCpus →
          (kgMitFlushSiblings sha cpu s).guard.Full sib) := by
  unfold kgMitFlushSiblings
  by_cases hr : (decide ((cpu : Int) < 0) || decide ((cpu : Int) ≥ s.topo.nrCpuIds.val.toNat)) = true
  · rw [if_pos hr]
    refine ⟨Hardens.refl s, ?_⟩
    intro hlt
    simp only [Bool.or_eq_true, decide_eq_true_eq] at hr
    omega
  · rw [if_neg hr]
    obtain ⟨hhard, hfull⟩ := flushLoop_hardens sha cpu (s.topo.siblings cpu) s
    exact ⟨hhard, fun _ => hfull⟩

theorem setPosture_ncpu (posture : UInt32) (g : KgGuard D) :
    (kgMitSetPosture sha posture g).hdr.ncpu = g.hdr.ncpu := by
  unfold kgMitSetPosture
  rw [release_hdr]

/-- A posture change keeps full spectrum unless it steps down from HIGH. -/
theorem setPosture_full {posture : UInt32} {g : KgGuard D}
    (h : posture < kgPostureHigh → g.hdr.posture < kgPostureHigh) {cpu : Nat} (hfull : g.Full cpu) :
    (kgMitSetPosture sha posture g).Full cpu := by
  unfold kgMitSetPosture KgGuard.Full
  rw [release_cpu]
  show ((if posture ≥ kgPostureHigh then _ else _ : Nat → KgCpuMit) cpu).strategy = _
  by_cases hup : posture ≥ kgPostureHigh
  · rw [if_pos hup, setStrategies_apply]
    split
    · rfl
    · exact hfull
  · rw [if_neg hup, if_neg (UInt32.not_le.mpr (h (UInt32.not_le.mp hup)))]
    exact hfull

theorem raise_hardens (env : Env) (target trigger : UInt32) (s : KgSys D) :
    Hardens s (kgPostureRaise sha mac env target trigger s) := by
  by_cases hready : s.pos.ready = true
  · unfold kgPostureRaise
    rw [kgPostureRaiseWith_eq sha _ env target trigger s hready]
    have hnoted : (raiseNoted env target trigger s).topo = s.topo := by
      unfold raiseNoted
      by_cases h : capped s target ≥ kgPostureElevated
      · simp only [if_pos h]
      · simp only [if_neg h]
    by_cases hup : capped s target > kgPosture s
    · rw [if_pos hup]
      obtain ⟨c, hc⟩ := kgPosAfterUp_comms sha mac env (capped s target)
        (kgPosArmDecayLocked
          (kgPosApplyLocked sha env (capped s target) (raiseNoted env target trigger s)))
      obtain ⟨b, hb⟩ := kgPosArmDecayLocked_pending
        (kgPosApplyLocked sha env (capped s target) (raiseNoted env target trigger s))
      rw [hc, hb]
      have hguard := raiseNoted_guard env target trigger s
      refine ⟨hnoted, ?_, ?_⟩
      · show (kgMitSetPosture sha _ (raiseNoted env target trigger s).guard).hdr.ncpu = _
        rw [setPosture_ncpu, hguard]
      · intro cpu hfull
        show (kgMitSetPosture sha _ (raiseNoted env target trigger s).guard).Full cpu
        rw [hguard]
        exact setPosture_full sha (fun hlow => UInt32.lt_trans hup hlow) hfull
    · rw [if_neg hup]
      obtain ⟨b, hb⟩ := kgPosArmDecayLocked_pending (raiseNoted env target trigger s)
      rw [hb]
      exact (Hardens.refl s).of_eq (raiseNoted_guard env target trigger s) hnoted
  · unfold kgPostureRaise kgPostureRaiseWith
    rw [if_pos (by simpa using hready)]
    exact Hardens.refl s

theorem escalated_hardens (cpu : Int) (s : KgSys D) : Hardens s (escalated sha cpu s) := by
  unfold escalated
  split
  · rename_i hcpu
    have hflush := (flushSiblings_hardens sha cpu.toNat
      { s with guard := kgMitEscalateCpu sha cpu s.guard }).1
    rw [Int.toNat_of_nonneg hcpu.1] at hflush
    exact (escalate_hardens sha cpu s).trans hflush
  · exact Hardens.refl s

/-- The CPU a PMU alert names is escalated together with its siblings. -/
theorem escalated_full {s : KgSys D} (hncpu : s.guard.hdr.ncpu = s.topo.nrCpuIds.val) {cpu : Nat}
    (hup : cpu ∈ s.topo.onlineCpus) :
    (escalated sha cpu s).guard.Full cpu ∧ ∀ sib ∈ s.topo.siblings cpu, sib ∈ s.topo.onlineCpus →
      (escalated sha cpu s).guard.Full sib := by
  obtain ⟨hlt, honline⟩ := Topology.mem_onlineCpus.mp hup
  have hcond : (cpu : Int) ≥ 0 ∧ (cpu : Int) < s.topo.nrCpuIds.val.toNat ∧
      s.topo.online (cpu : Int).toNat = true := by
    rw [Int.toNat_natCast]
    exact ⟨Int.natCast_nonneg cpu, Int.ofNat_lt.mpr hlt, honline⟩
  unfold escalated
  rw [if_pos hcond]
  have hstep := escalate_hardens sha cpu s
  obtain ⟨hhard, hsibs⟩ := flushSiblings_hardens sha cpu
    { s with guard := kgMitEscalateCpu sha cpu s.guard }
  have hself := hhard.full cpu (escalate_full sha hncpu hlt)
  refine ⟨hself, ?_⟩
  intro sib hsib hsibup
  by_cases hsame : sib = cpu
  · rw [hsame]
    exact hself
  · exact hsibs hlt (hstep.ncpu.trans hncpu) sib hsib hsame hsibup

theorem report_hardens (env : Env) (a : Alert) (s : KgSys D) :
    Hardens s (kgReport sha mac env a s) := by
  rw [kgReport_eq]
  unfold kgReportWith
  have hsent : Hardens s { s with comms := (kgCommsNotify mac env a s.comms).2 } :=
    (Hardens.refl s).of_eq rfl rfl
  rcases kgDispatchWith_escalates sha (kgReport sha mac) env a
      { s with comms := (kgCommsNotify mac env a s.comms).2 } with h | ⟨t, target, ht, h⟩
  · rw [h]
    exact hsent
  · rw [h]
    refine hsent.trans (Hardens.trans ?_ (raise_hardens sha mac env target a.type t))
    rcases ht with rfl | ⟨cpu, rfl⟩
    · exact Hardens.refl _
    · exact escalated_hardens sha cpu _

/-- A critical PMU alert leaves its CPU and the siblings that are up at full spectrum. -/
theorem report_pmu_full (env : Env) {a : Alert} {s : KgSys D}
    (htype : a.type = kgAlertPmuL1dAnomaly ∨ a.type = kgAlertPmuL2Anomaly)
    (hlevel : a.level ≥ kgLevelCritical) (hncpu : s.guard.hdr.ncpu = s.topo.nrCpuIds.val)
    {cpu : Nat} (hcpu : asInt (a.p2 >>> 32).toUInt32 = cpu) (hup : cpu ∈ s.topo.onlineCpus) :
    (kgReport sha mac env a s).guard.Full cpu ∧
      ∀ sib ∈ s.topo.siblings cpu, sib ∈ s.topo.onlineCpus →
        (kgReport sha mac env a s).guard.Full sib := by
  rw [kgReport_eq]
  unfold kgReportWith kgDispatchWith
  rw [if_pos htype, if_pos hlevel, hcpu]
  have hraise := raise_hardens sha mac env kgPostureElevated a.type
    (escalated sha cpu { s with comms := (kgCommsNotify mac env a s.comms).2 })
  have hfull := escalated_full sha
    (s := { s with comms := (kgCommsNotify mac env a s.comms).2 }) hncpu hup
  exact ⟨hraise.full cpu hfull.1, fun sib hsib hsibup => hraise.full sib (hfull.2 sib hsib hsibup)⟩

theorem decay_hardens (env : Env) (s : KgSys D) : Hardens s (kgPosDecayFn sha mac env s) := by
  by_cases hdue : decayDue env s = true
  · rw [kgPosDecayFn_of_due sha mac hdue]
    obtain ⟨c, hc⟩ := kgPosAnnounce_comms sha mac env kgPostureElevated kgPostureNormal
      kgPostureWhyDecay s.pos.trigger (kgPosApplyLocked sha env kgPostureNormal
        { s with pos := { s.pos with decayPending := false } })
    rw [hc]
    have hel : kgPosture s = kgPostureElevated := by
      simp only [decayDue, Bool.and_eq_true, beq_iff_eq] at hdue
      exact hdue.1.2
    refine ⟨rfl, setPosture_ncpu sha _ _, ?_⟩
    intro cpu hfull
    refine setPosture_full sha (fun _ => ?_) hfull
    show kgPosture s < _
    rw [hel]
    decide
  · unfold kgPosDecayFn
    have hkeep : ∀ pos, Hardens s { s with pos := pos } := fun _ => (Hardens.refl s).of_eq rfl rfl
    by_cases hel : (s.pos.ready && kgPosDecayS s != 0 && kgPosture s == kgPostureElevated) = true
    · have hlate : ¬ env.mono ≥ s.pos.triggerMono + (kgPosDecayS s).toUInt64 * nsecPerSec := by
        intro hge
        exact hdue (Bool.and_eq_true_iff.mpr ⟨hel, by simpa using hge⟩)
      rw [if_pos (by simpa [kgPosture] using hel), if_neg hlate]
      exact hkeep _
    · rw [if_neg (by simpa [kgPosture] using hel)]
      exact hkeep _

/-- What an operator's request leaves of the table. -/
theorem set_guard (env : Env) (target : UInt32) (s : KgSys D) :
    (kgPostureSet sha mac env target s).2.topo = s.topo ∧
      (kgPostureSet sha mac env target s).2.guard
        = if setMoves target s then kgMitSetPosture sha target s.guard else s.guard := by
  by_cases hmoves : setMoves target s = true
  · rw [kgPostureSet_of_moves sha mac hmoves, if_pos hmoves]
    have happlied : (setApplied sha env target s).topo = s.topo ∧
        (setApplied sha env target s).guard = kgMitSetPosture sha target s.guard := by
      unfold setApplied
      obtain ⟨b, hb⟩ := kgPosArmDecayLocked_pending
        { kgPosApplyLocked sha env target s with
          pos := { (kgPosApplyLocked sha env target s).pos with triggerMono := env.mono } }
      simp only
      rw [hb]
      exact ⟨rfl, rfl⟩
    by_cases hup : target > kgPosture s
    · obtain ⟨c, hc⟩ := kgPosAfterUp_comms sha mac env target (setApplied sha env target s)
      obtain ⟨d, hd⟩ := kgPosAnnounce_comms sha mac env (kgPosture s) target
        kgPostureWhyOperator s.pos.trigger
        (kgPosAfterUp (kgReport sha mac) env target (setApplied sha env target s))
      rw [if_pos hup, hd, hc]
      exact happlied
    · obtain ⟨d, hd⟩ := kgPosAnnounce_comms sha mac env (kgPosture s) target
        kgPostureWhyOperator s.pos.trigger (setApplied sha env target s)
      rw [if_neg hup, hd]
      exact happlied
  · rw [(kgPostureSet_of_not_moves sha mac (by simpa using hmoves)).1, if_neg hmoves]
    exact ⟨rfl, rfl⟩

/-! ### The flags

Flags and levels are written by the sampler and the hot-plug callbacks only.  What a
run leaves in the flag of a CPU is decided by the levels it leaves on the same CPU.
-/

/-- A counter of the CPU is at critical level. -/
def KgPmuCpu.Raised (pc : KgPmuCpu) : Prop :=
  ∃ kind, (pc.counter kind).ev = true ∧ (pc.counter kind).track.level ≥ kgLevelCritical

/-- A sampler run sets the flag of a CPU exactly if it leaves a counter at critical level. -/
theorem sampleCpu_crit_iff (p : KgPmuParams) (denomMs now : UInt64) (cpu : Nat) (pc : KgPmuCpu) :
    (kgPmuSampleCpu p denomMs now cpu pc).2.crit = true ↔
      (kgPmuSampleCpu p denomMs now cpu pc).2.Raised := by
  have hafter : ∀ kind, (kgPmuSampleCpu p denomMs now cpu pc).2.counter kind
      = pc.drained p denomMs now cpu kind := fun kind => sampleCpu_counter p denomMs now cpu kind pc
  have hllc := sampleKind_counter p denomMs now cpu .l1d .llc pc
  rw [if_neg (by decide)] at hllc
  have hsame : ((kgPmuSampleKind p denomMs now cpu .l1d pc).2.judged p denomMs now cpu .llc).after
      = (pc.judged p denomMs now cpu .llc).after := by
    simp only [KgPmuCpu.judged, PmuJudged.after, PmuJudged.lvl, PmuJudged.rate, hllc]
  have hraised : (kgPmuSampleCpu p denomMs now cpu pc).2.Raised ↔
      ∃ kind, (pc.counter kind).ev = true ∧
        (pc.judged p denomMs now cpu kind).after.level ≥ kgLevelCritical := by
    unfold KgPmuCpu.Raised
    refine exists_congr ?_
    intro kind
    rw [hafter]
    unfold KgPmuCpu.drained
    cases hev : (pc.counter kind).ev <;> simp [hev]
  rw [hraised]
  show (kgPmuSampleCpu p denomMs now cpu pc).1.any _ = true ↔ _
  rw [sampleCpu_judged, List.any_append, Bool.or_eq_true]
  constructor
  · intro h
    rcases h with h | h
    · refine ⟨.l1d, ?_⟩
      cases hev : (pc.counter .l1d).ev with
      | false => simp [hev] at h
      | true => simpa [hev] using h
    · refine ⟨.llc, ?_⟩
      cases hev : (pc.counter .llc).ev with
      | false => simp [hev] at h
      | true => simpa [hev, hsame] using h
  · intro h
    obtain ⟨kind, hev, hlevel⟩ := h
    cases kind with
    | l1d =>
        left
        simpa [hev] using hlevel
    | llc =>
        right
        simpa [hev, hsame] using hlevel

theorem kgPmuOverflow_flags (p : KgPmuParams) (stop busy : Bool) (kind : KgEv)
    (user : Option Tgid) (pc : KgPmuCpu) :
    (kgPmuOverflow p stop busy kind user pc).2.crit = pc.crit ∧
      ((kgPmuOverflow p stop busy kind user pc).2.Raised ↔ pc.Raised) := by
  have hvote : ∀ (pc : KgPmuCpu) (t : Int32), (pc.vote t).crit = pc.crit := by
    intro pc t
    unfold KgPmuCpu.vote
    split
    · rfl
    · split <;> rfl
  cases hignored : stop || busy with
  | true =>
      rw [kgPmuOverflow_ignored hignored]
      exact ⟨rfl, Iff.rfl⟩
  | false =>
      refine ⟨?_, ?_⟩
      · unfold kgPmuOverflow
        rw [if_neg (by simp [hignored])]
        cases user with
        | none => rfl
        | some t => exact hvote _ t.val
      · unfold KgPmuCpu.Raised
        rw [kgPmuOverflow_counter hignored]
        refine exists_congr ?_
        intro k
        by_cases hk : k = kind
        · subst hk
          rw [Function.update_self]
        · rw [Function.update_of_ne hk]

/-! ### A run of the sampler

First the levels are judged, then the alerts are reported, then what is not hot is
relaxed.  A CPU whose flag the run sets is escalated by its own alert, or was at full
spectrum already, and the relax pass does not come to it.
-/

theorem alert_cpu {j : PmuJudged} (hlt : j.cpu < 2 ^ 31) :
    asInt (j.alert.p2 >>> 32).toUInt32 = j.cpu := by
  have hrate := j.rate.toUInt32.toNat_lt
  have hcpu : j.cpu.toUInt64.toNat = j.cpu := by
    show (UInt64.ofNat j.cpu).toNat = _
    rw [UInt64.toNat_ofNat', Nat.mod_eq_of_lt (by omega)]
  have hshift : (j.cpu.toUInt64 <<< 32).toNat = j.cpu <<< 32 := by
    rw [UInt64.toNat_shiftLeft, hcpu]
    show j.cpu <<< 32 % 2 ^ 64 = _
    rw [Nat.shiftLeft_eq, Nat.mod_eq_of_lt (by omega)]
  have hword : (j.alert.p2 >>> 32).toNat = j.cpu := by
    show ((j.cpu.toUInt64 <<< 32 ||| j.rate.toUInt32.toUInt64) >>> 32).toNat = _
    rw [UInt64.toNat_shiftRight, UInt64.toNat_or, hshift, UInt32.toNat_toUInt64]
    show (j.cpu <<< 32 ||| j.rate.toUInt32.toNat) >>> 32 = _
    rw [← Nat.shiftLeft_add_eq_or_of_lt hrate, Nat.shiftRight_eq_div_pow, Nat.shiftLeft_eq]
    omega
  have hlow : (j.alert.p2 >>> 32).toUInt32.toNat = j.cpu := by
    rw [UInt64.toNat_toUInt32, hword, Nat.mod_eq_of_lt (by omega)]
  rw [asInt_of_lt (by rw [hlow]; exact hlt), hlow]

/-- The reports of a run, in order. -/
def reportAll (env : Env) (js : List PmuJudged) (s : KgSys D) : KgSys D :=
  (js.filter PmuJudged.due).foldl (fun sys j => kgReport sha mac env j.alert sys) s

theorem reports_harden (env : Env) (js : List PmuJudged) (s : KgSys D) :
    Hardens s (js.foldl (fun sys j => kgReport sha mac env j.alert sys) s) := by
  induction js generalizing s with
  | nil => exact Hardens.refl s
  | cons j rest ih => exact (report_hardens sha mac env j.alert s).trans (ih _)

/-- Every critical alert of the run has done its work by the end of the reports. -/
theorem reportAll_full (env : Env) {js : List PmuJudged} {s : KgSys D}
    (hncpu : s.guard.hdr.ncpu = s.topo.nrCpuIds.val) {j : PmuJudged} (hj : j ∈ js)
    (hdue : j.due = true) (hlvl : j.lvl ≥ kgLevelCritical) (hup : j.cpu ∈ s.topo.onlineCpus) :
    (reportAll sha mac env js s).guard.Full j.cpu ∧
      ∀ sib ∈ s.topo.siblings j.cpu, sib ∈ s.topo.onlineCpus →
        (reportAll sha mac env js s).guard.Full sib := by
  unfold reportAll
  have hmem : j ∈ js.filter PmuJudged.due := List.mem_filter.mpr ⟨hj, hdue⟩
  generalize js.filter PmuJudged.due = l at hmem
  induction l generalizing s with
  | nil => simp at hmem
  | cons i rest ih =>
      rw [List.foldl_cons]
      have hstep := report_hardens sha mac env i.alert s
      rcases List.mem_cons.mp hmem with rfl | hmem
      · have hlt : j.cpu < 2 ^ 31 :=
          Nat.lt_trans (Topology.mem_onlineCpus.mp hup).1 s.topo.nrCpuIds.lt
        have htype : j.alert.type = kgAlertPmuL1dAnomaly ∨ j.alert.type = kgAlertPmuL2Anomaly := by
          show (if j.kind = .l1d then _ else _) = _ ∨ (if j.kind = .l1d then _ else _) = _
          split
          · exact Or.inl rfl
          · exact Or.inr rfl
        have hfull := report_pmu_full sha mac env htype hlvl hncpu (alert_cpu hlt) hup
        have hrest := reports_harden sha mac env rest (kgReport sha mac env j.alert s)
        exact ⟨hrest.full _ hfull.1,
          fun sib hsib hsibup => hrest.full sib (hfull.2 sib hsib hsibup)⟩
      · have hih := ih (s := kgReport sha mac env i.alert s)
          (by rw [hstep.ncpu, hstep.topo]; exact hncpu) (by rw [hstep.topo]; exact hup) hmem
        rw [hstep.topo] at hih
        exact hih

/-- The relax pass leaves what is hot alone. -/
theorem relax_keeps (m : KgPmu) (cpus : List Nat) (s : KgSys D) :
    (kgPmuRelax sha m cpus s).topo = s.topo ∧
      (kgPmuRelax sha m cpus s).guard.hdr.ncpu = s.guard.hdr.ncpu ∧
      ∀ cpu, s.guard.Full cpu → kgPmuHot s.topo m cpu = true →
        (kgPmuRelax sha m cpus s).guard.Full cpu := by
  unfold kgPmuRelax
  induction cpus generalizing s with
  | nil => exact ⟨rfl, rfl, fun _ h _ => h⟩
  | cons c rest ih =>
      rw [List.foldl_cons]
      split
      · rename_i hrelax
        obtain ⟨htopo, hncpu, hfull⟩ := ih { s with guard := kgMitRelaxCpu sha c s.guard }
        have hhdr : (kgMitRelaxCpu sha c s.guard).hdr = s.guard.hdr := by
          unfold kgMitRelaxCpu
          split
          · rfl
          · rw [release_hdr]
            split <;> rfl
        refine ⟨htopo, hncpu.trans (congrArg KgGuardHdr.ncpu hhdr), ?_⟩
        intro cpu hcpu hhot
        refine hfull cpu ?_ hhot
        have hne : cpu ≠ c := by
          intro heq
          rw [heq] at hhot
          simp [hhot] at hrelax
        show (kgMitRelaxCpu sha c s.guard).Full cpu
        unfold kgMitRelaxCpu
        split
        · exact hcpu
        · split
          · exact setCpu_full sha s.guard hcpu (fun heq => absurd (by simpa using heq) hne)
          · unfold KgGuard.Full
            rw [release_cpu]
            exact hcpu
      · exact ih s

/-! ### The invariant

`CriticalFull` is the property and `CoreOK` what it needs of the rest of the state.
The second is kept by every step; the first by those that harden or leave the flags
alone.
-/

/-- Every CPU is among its own siblings, and sharing a core is mutual. -/
structure SmtTopology (topo : Topology) : Prop where
  refl : ∀ cpu, cpu ∈ topo.siblings cpu
  symm : ∀ cpu sib, sib ∈ topo.siblings cpu → cpu ∈ topo.siblings sib

/-- A critical CPU that is up, and each of its siblings that is up, is at full spectrum. -/
def CriticalFull (s : PmuSys D) : Prop :=
  ∀ cpu ∈ s.sys.topo.onlineCpus, (s.pmu.cpu cpu).crit = true →
    s.sys.guard.Full cpu ∧ ∀ sib ∈ s.sys.topo.siblings cpu, sib ∈ s.sys.topo.onlineCpus →
      s.sys.guard.Full sib

/-- What the rest of the state keeps, whatever the strategies are. -/
structure CoreOK (s : PmuSys D) : Prop where
  ncpu : s.sys.guard.hdr.ncpu = s.sys.topo.nrCpuIds.val
  smt : SmtTopology s.sys.topo
  /-- A counter at critical level has set the flag of its CPU. -/
  flagged : ∀ cpu ∈ s.sys.topo.onlineCpus, (s.pmu.cpu cpu).Raised → (s.pmu.cpu cpu).crit = true
  /-- The flag of a CPU that is down is clear. -/
  down : ∀ cpu, cpu ∉ s.sys.topo.onlineCpus → (s.pmu.cpu cpu).crit = false

/-- A step of the module alone. -/
theorem CoreOK.hardens {s : PmuSys D} (h : CoreOK s) {sys : KgSys D} (hhard : Hardens s.sys sys) :
    CoreOK { s with sys := sys } := by
  refine ⟨?_, ?_, ?_, ?_⟩
  · rw [hhard.ncpu, hhard.topo]
    exact h.ncpu
  · rw [hhard.topo]
    exact h.smt
  · rw [hhard.topo]
    exact h.flagged
  · rw [hhard.topo]
    exact h.down

theorem CriticalFull.hardens {s : PmuSys D} (h : CriticalFull s) {sys : KgSys D}
    (hhard : Hardens s.sys sys) : CriticalFull { s with sys := sys } := by
  intro cpu hup hcrit
  rw [hhard.topo] at hup ⊢
  obtain ⟨hself, hsibs⟩ := h cpu hup hcrit
  exact ⟨hhard.full cpu hself, fun sib hsib hsibup => hhard.full sib (hsibs sib hsib hsibup)⟩

/-- A step of the detector that touches neither flags nor levels. -/
theorem CoreOK.flags {s : PmuSys D} (h : CoreOK s) {m : KgPmu}
    (hcrit : ∀ cpu, (m.cpu cpu).crit = (s.pmu.cpu cpu).crit)
    (hraised : ∀ cpu, (m.cpu cpu).Raised ↔ (s.pmu.cpu cpu).Raised) :
    CoreOK { s with pmu := m } := by
  refine ⟨h.ncpu, h.smt, ?_, ?_⟩
  · intro cpu hup hr
    rw [hcrit]
    exact h.flagged cpu hup ((hraised cpu).mp hr)
  · intro cpu hdown
    rw [hcrit]
    exact h.down cpu hdown

theorem CriticalFull.flags {s : PmuSys D} (h : CriticalFull s) {m : KgPmu}
    (hcrit : ∀ cpu, (m.cpu cpu).crit = (s.pmu.cpu cpu).crit) : CriticalFull { s with pmu := m } := by
  intro cpu hup hc
  rw [hcrit] at hc
  exact h cpu hup hc

theorem overflow_flags (s : PmuSt) (cpu : Nat) (kind : KgEv) (busy : Bool) (user : Option Tgid)
    (c : Nat) :
    (((pmuStep s (.overflow cpu kind busy user)).pmu.cpu c).crit = (s.pmu.cpu c).crit) ∧
      (((pmuStep s (.overflow cpu kind busy user)).pmu.cpu c).Raised ↔ (s.pmu.cpu c).Raised) := by
  have hstep := pmuStep_cpu s (.overflow cpu kind busy user) c
  generalize (pmuEvents s (.overflow cpu kind busy user)).filter (ofCpu c) = evs at hstep
  generalize (pmuStep s (.overflow cpu kind busy user)).pmu.cpu c = pc' at hstep
  cases hstep with
  | idle => exact ⟨rfl, Iff.rfl⟩
  | overflow => exact kgPmuOverflow_flags ..

/-- What a sampler run does to the flag of a CPU that is up. -/
theorem sampled_crit_iff {s : PmuSys D} {cpu : Nat} (hup : cpu ∈ s.sys.topo.onlineCpus)
    (now : UInt64) :
    (((kgPmuSample s.sys.topo now s.pmu).2.cpu cpu).crit = true ↔
      ((kgPmuSample s.sys.topo now s.pmu).2.cpu cpu).Raised) := by
  have hpc := sampleCpus_cpu s.pmu.params (kgPmuDenom s.pmu.params s.pmu.lastNs now) now
    s.sys.topo.onlineCpus_nodup s.pmu.cpu cpu
  rw [if_pos hup] at hpc
  show ((kgPmuSampleCpus _ _ _ _ _).2 cpu).crit = true ↔ ((kgPmuSampleCpus _ _ _ _ _).2 cpu).Raised
  rw [hpc]
  exact sampleCpu_crit_iff ..

/-- A critical level after a run was raised by it, or was there before it. -/
theorem sampled_raised {s : PmuSys D} {cpu : Nat} (hup : cpu ∈ s.sys.topo.onlineCpus)
    {now : UInt64} (h : ((kgPmuSample s.sys.topo now s.pmu).2.cpu cpu).Raised) :
    (s.pmu.cpu cpu).Raised ∨
      ∃ j ∈ (kgPmuSample s.sys.topo now s.pmu).1, j.cpu = cpu ∧ j.due = true ∧
        j.lvl ≥ kgLevelCritical := by
  obtain ⟨kind, hev, hlevel⟩ := h
  have hpc := sampleCpus_cpu s.pmu.params (kgPmuDenom s.pmu.params s.pmu.lastNs now) now
    s.sys.topo.onlineCpus_nodup s.pmu.cpu cpu
  rw [if_pos hup] at hpc
  have hev' : ((s.pmu.cpu cpu).counter kind).ev = true := by
    change (((kgPmuSampleCpus _ _ _ _ _).2 cpu).counter kind).ev = true at hev
    rw [hpc, sampleCpu_counter] at hev
    unfold KgPmuCpu.drained at hev
    split at hev
    · exact ‹_›
    · exact hev
  rcases (pmuStep_cpu ⟨s.sys.topo, s.pmu⟩ (.sample now) cpu).track kind with
    ⟨-, hsame⟩ | ⟨j, hjs, -, hbefore, hafter⟩ | ⟨created, hop, -, -⟩
  · left
    refine ⟨kind, hev', ?_⟩
    rw [← hsame]
    exact hlevel
  · have hlevel' : j.after.level ≥ kgLevelCritical := by
      rw [← hafter]
      exact hlevel
    cases hdue : j.due with
    | false =>
        left
        refine ⟨kind, hev', ?_⟩
        rw [← hbefore]
        exact UInt32.le_trans hlevel' (PmuJudged.after_of_not_due hdue).2
    | true =>
        right
        rw [PmuJudged.after_of_due hdue] at hlevel'
        have hmem : j ∈ ((pmuEvents ⟨s.sys.topo, s.pmu⟩ (.sample now)).filter
            (ofCpu cpu)).filterMap (judgedAt cpu kind) := by
          rw [hjs]
          exact List.mem_cons_self
        obtain ⟨e, he, hej⟩ := List.mem_filterMap.mp hmem
        obtain ⟨rfl, hcpu, -⟩ := judgedAt_eq_some hej
        obtain ⟨i, hi, heq⟩ := List.mem_map.mp (List.mem_filter.mp he).1
        rw [PmuEvent.judged.injEq] at heq
        subst heq
        exact ⟨i, hi, hcpu, hdue, hlevel'⟩
  · exact absurd hop nofun

theorem sampled_down {s : PmuSys D} {cpu : Nat} (hdown : cpu ∉ s.sys.topo.onlineCpus)
    (now : UInt64) : (kgPmuSample s.sys.topo now s.pmu).2.cpu cpu = s.pmu.cpu cpu := by
  have hpc := sampleCpus_cpu s.pmu.params (kgPmuDenom s.pmu.params s.pmu.lastNs now) now
    s.sys.topo.onlineCpus_nodup s.pmu.cpu cpu
  rw [if_neg hdown] at hpc
  exact hpc

theorem hot_of_crit {topo : Topology} {m : KgPmu} {cpu sib : Nat} (hmem : cpu ∈ topo.siblings sib)
    (hcrit : (m.cpu cpu).crit = true) : kgPmuHot topo m sib = true :=
  List.any_eq_true.mpr ⟨cpu, hmem, hcrit⟩

/-- A run of the sampler keeps the invariant. -/
theorem sample_core (env : Env) {s : PmuSys D} (h : CoreOK s) :
    CoreOK (kgPmuSampleFn sha mac env s) ∧
      (CriticalFull s → CriticalFull (kgPmuSampleFn sha mac env s)) := by
  have hreports : Hardens s.sys
      (reportAll sha mac env (kgPmuSample s.sys.topo env.mono s.pmu).1 s.sys) :=
    reports_harden sha mac env _ s.sys
  obtain ⟨htopo, hncpu, hkept⟩ := relax_keeps sha (kgPmuSample s.sys.topo env.mono s.pmu).2
    s.sys.topo.onlineCpus (reportAll sha mac env (kgPmuSample s.sys.topo env.mono s.pmu).1 s.sys)
  have htopo' : (kgPmuSampleFn sha mac env s).sys.topo = s.sys.topo := htopo.trans hreports.topo
  rw [hreports.topo] at hkept
  refine ⟨⟨?_, ?_, ?_, ?_⟩, ?_⟩
  · rw [htopo']
    exact (hncpu.trans hreports.ncpu).trans h.ncpu
  · rw [htopo']
    exact h.smt
  · intro cpu hup hraised
    rw [htopo'] at hup
    exact (sampled_crit_iff hup env.mono).mpr hraised
  · intro cpu hdown
    rw [htopo'] at hdown
    exact (congrArg KgPmuCpu.crit (sampled_down hdown env.mono)).trans (h.down cpu hdown)
  · intro hfull cpu hup hcrit
    rw [htopo'] at hup ⊢
    -- at the end of the reports the core is at full spectrum
    have hreported : (reportAll sha mac env (kgPmuSample s.sys.topo env.mono s.pmu).1
          s.sys).guard.Full cpu ∧
        ∀ sib ∈ s.sys.topo.siblings cpu, sib ∈ s.sys.topo.onlineCpus →
          (reportAll sha mac env (kgPmuSample s.sys.topo env.mono s.pmu).1 s.sys).guard.Full sib := by
      rcases sampled_raised hup ((sampled_crit_iff hup env.mono).mp hcrit) with
        hold | ⟨j, hj, rfl, hdue, hlvl⟩
      · obtain ⟨hself, hsibs⟩ := hfull cpu hup (h.flagged cpu hup hold)
        exact ⟨hreports.full cpu hself,
          fun sib hsib hsibup => hreports.full sib (hsibs sib hsib hsibup)⟩
      · exact reportAll_full sha mac env h.ncpu hj hdue hlvl hup
    refine ⟨hkept cpu hreported.1 (hot_of_crit (h.smt.refl cpu) hcrit), ?_⟩
    intro sib hsib hsibup
    exact hkept sib (hreported.2 sib hsib hsibup)
      (hot_of_crit (h.smt.symm cpu sib hsib) hcrit)

/-! ### Hot-plug

A CPU that comes up has no flag of its own, but it may join a core whose other
thread has one.  That is the case the condition is about, and there it is exact.
-/

theorem mem_setOnline {topo : Topology} {cpu c : Nat} {up : Bool} :
    c ∈ (topo.setOnline cpu up).onlineCpus ↔
      if c = cpu then c < topo.nrCpuIds.val.toNat ∧ up = true else c ∈ topo.onlineCpus := by
  rw [Topology.mem_onlineCpus]
  show c < topo.nrCpuIds.val.toNat ∧ Function.update topo.online cpu up c = true ↔ _
  by_cases hc : c = cpu
  · subst hc
    rw [if_pos rfl, Function.update_self]
  · rw [if_neg hc, Function.update_of_ne hc, Topology.mem_onlineCpus]

/-- The strategy a CPU comes up with. -/
def plugStrategy (s : PmuSys D) (probe : KgProbe) : UInt8 :=
  if kgPosture s.sys ≥ kgPostureHigh then kgStratFull else probe.strategy

theorem store_strategy (cpu c : Nat) (probe : KgProbe) (s : PmuSys D) :
    ((kgMitStore sha cpu probe s.sys.guard).cpu c).strategy
      = if c = cpu then plugStrategy s probe else (s.sys.guard.cpu c).strategy := by
  unfold kgMitStore
  rw [release_cpu]
  show (Function.update s.sys.guard.cpu cpu _ c).strategy = _
  by_cases hc : c = cpu
  · subst hc
    rw [Function.update_self, if_pos rfl]
    rfl
  · rw [Function.update_of_ne hc, if_neg hc]

theorem store_ncpu (cpu : Nat) (probe : KgProbe) (g : KgGuard D) :
    (kgMitStore sha cpu probe g).hdr.ncpu = g.hdr.ncpu := by
  unfold kgMitStore
  rw [release_hdr]
  rfl

theorem online_not_raised (created : KgEv → Bool) (pc : KgPmuCpu) :
    ¬ (kgPmuCpuOnline created pc).Raised := by
  intro h
  obtain ⟨kind, -, hlevel⟩ := h
  exact absurd (show (0 : UInt32) ≥ kgLevelCritical from hlevel) (by decide)

theorem cpuUp_core {cpu : Nat} {probe : KgProbe} {created : KgEv → Bool} {s : PmuSys D}
    (h : CoreOK s) (hdown : cpu ∉ s.sys.topo.onlineCpus) :
    CoreOK (cpuUp sha cpu probe created s) := by
  refine ⟨(store_ncpu sha cpu probe s.sys.guard).trans h.ncpu, ⟨h.smt.refl, h.smt.symm⟩, ?_, ?_⟩
  · intro c hup hraised
    have hup' := mem_setOnline.mp hup
    change ((s.pmu.setCpu cpu _).cpu c).Raised at hraised
    show ((s.pmu.setCpu cpu _).cpu c).crit = true
    rw [KgPmu.setCpu_cpu] at hraised ⊢
    by_cases hc : c = cpu
    · rw [if_pos hc] at hraised
      exact absurd hraised (online_not_raised created _)
    · rw [if_neg hc] at hraised hup' ⊢
      exact h.flagged c hup' hraised
  · intro c hup
    show ((s.pmu.setCpu cpu _).cpu c).crit = false
    rw [KgPmu.setCpu_cpu]
    by_cases hc : c = cpu
    · rw [if_pos hc]
      exact h.down cpu hdown
    · rw [if_neg hc]
      refine h.down c (fun hmem => hup (mem_setOnline.mpr ?_))
      rw [if_neg hc]
      exact hmem

theorem cpuDown_core {cpu : Nat} {s : PmuSys D} (h : CoreOK s) :
    CoreOK (cpuDown cpu s) ∧ (CriticalFull s → CriticalFull (cpuDown cpu s)) := by
  have hpc : ∀ c, (cpuDown cpu s).pmu.cpu c
      = if c = cpu then kgPmuCpuOffline (s.pmu.cpu cpu) else s.pmu.cpu c :=
    fun c => KgPmu.setCpu_cpu s.pmu cpu c _
  have hup : ∀ c, c ∈ (cpuDown cpu s).sys.topo.onlineCpus →
      c ≠ cpu ∧ c ∈ s.sys.topo.onlineCpus := by
    intro c hc
    have hc' := mem_setOnline.mp hc
    by_cases hsame : c = cpu
    · rw [if_pos hsame] at hc'
      exact absurd hc'.2 (by decide)
    · rw [if_neg hsame] at hc'
      exact ⟨hsame, hc'⟩
  refine ⟨⟨h.ncpu, ⟨h.smt.refl, h.smt.symm⟩, ?_, ?_⟩, ?_⟩
  · intro c hc hraised
    obtain ⟨hne, honline⟩ := hup c hc
    rw [hpc, if_neg hne] at hraised ⊢
    exact h.flagged c honline hraised
  · intro c hc
    rw [hpc]
    split
    · rfl
    · rename_i hne
      refine h.down c (fun hmem => hc (mem_setOnline.mpr ?_))
      rw [if_neg hne]
      exact hmem
  · intro hfull c hc hcrit
    obtain ⟨hne, honline⟩ := hup c hc
    rw [hpc, if_neg hne] at hcrit
    obtain ⟨hself, hsibs⟩ := hfull c honline hcrit
    exact ⟨hself, fun sib hsib hsibup => hsibs sib hsib (hup sib hsibup).2⟩

theorem cpuUp_crit (cpu c : Nat) (probe : KgProbe) (created : KgEv → Bool) (s : PmuSys D) :
    ((cpuUp sha cpu probe created s).pmu.cpu c).crit = (s.pmu.cpu c).crit := by
  show ((s.pmu.setCpu cpu _).cpu c).crit = _
  rw [KgPmu.setCpu_cpu]
  split
  · rename_i hc
    rw [hc]
    rfl
  · rfl

theorem cpuUp_full (cpu c : Nat) (probe : KgProbe) (created : KgEv → Bool) (s : PmuSys D) :
    (cpuUp sha cpu probe created s).sys.guard.Full c ↔
      (if c = cpu then plugStrategy s probe else (s.sys.guard.cpu c).strategy) = kgStratFull := by
  show ((kgMitStore sha cpu probe s.sys.guard).cpu c).strategy = _ ↔ _
  rw [store_strategy]

/-- A CPU that comes up disturbs exactly the critical core it joins. -/
theorem cpuUp_full_iff {cpu : Nat} {probe : KgProbe} {created : KgEv → Bool} {s : PmuSys D}
    (h : CoreOK s) (hlt : cpu < s.sys.topo.nrCpuIds.val.toNat)
    (hdown : cpu ∉ s.sys.topo.onlineCpus) (hfull : CriticalFull s) :
    CriticalFull (cpuUp sha cpu probe created s) ↔
      ((∃ c ∈ s.sys.topo.onlineCpus, (s.pmu.cpu c).crit = true ∧ cpu ∈ s.sys.topo.siblings c) →
        plugStrategy s probe = kgStratFull) := by
  have hne : ∀ c ∈ s.sys.topo.onlineCpus, c ≠ cpu := fun c hc heq => hdown (heq ▸ hc)
  constructor
  · intro hup hexists
    obtain ⟨c, hc, hc', hsib⟩ := hexists
    have honline : c ∈ (cpuUp sha cpu probe created s).sys.topo.onlineCpus := by
      refine mem_setOnline.mpr ?_
      rw [if_neg (hne c hc)]
      exact hc
    have hself := (hup c honline ((cpuUp_crit sha cpu c probe created s).trans hc')).2 cpu hsib
      (mem_setOnline.mpr (by rw [if_pos rfl]; exact ⟨hlt, rfl⟩))
    rw [cpuUp_full, if_pos rfl] at hself
    exact hself
  · intro hplug c hc hc'
    rw [cpuUp_crit] at hc'
    have hold : c ∈ s.sys.topo.onlineCpus := by
      by_contra hgone
      rw [h.down c hgone] at hc'
      exact absurd hc' (by decide)
    obtain ⟨hself, hsibs⟩ := hfull c hold hc'
    refine ⟨?_, ?_⟩
    · rw [cpuUp_full, if_neg (hne c hold)]
      exact hself
    · intro sib hsib hsibup
      have hsibup' := mem_setOnline.mp hsibup
      rw [cpuUp_full]
      by_cases hs : sib = cpu
      · rw [if_pos hs]
        rw [hs] at hsib
        exact hplug ⟨c, hold, hc', hsib⟩
      · rw [if_neg hs]
        rw [if_neg hs] at hsibup'
        exact hsibs sib hsib hsibup'

/-! ### The operator's step down

Stepping down from HIGH writes every baseline back at once, without a look at the
flags.  It is harmless exactly when the CPUs of every critical core have full
spectrum as their baseline.
-/

/-- An accepted request that leaves HIGH or more for less. -/
def stepsDown (target : UInt32) (s : KgSys D) : Bool :=
  setMoves target s && decide (target < kgPostureHigh) && decide (kgPosture s ≥ kgPostureHigh)

theorem set_hardens (env : Env) {target : UInt32} {s : KgSys D} (h : stepsDown target s = false) :
    Hardens s (kgPostureSet sha mac env target s).2 := by
  obtain ⟨htopo, hguard⟩ := set_guard sha mac env target s
  by_cases hmoves : setMoves target s = true
  · rw [if_pos hmoves] at hguard
    refine ⟨htopo, ?_, ?_⟩
    · rw [hguard]
      exact setPosture_ncpu sha target s.guard
    · intro cpu hfull
      rw [hguard]
      refine setPosture_full sha ?_ hfull
      intro hlow
      simpa [stepsDown, hmoves, hlow, kgPosture] using h
  · rw [if_neg hmoves] at hguard
    exact (Hardens.refl s).of_eq hguard htopo

theorem set_stepsDown (env : Env) {target : UInt32} {s : KgSys D}
    (hncpu : s.guard.hdr.ncpu = s.topo.nrCpuIds.val) (h : stepsDown target s = true) {cpu : Nat}
    (hlt : cpu < s.topo.nrCpuIds.val.toNat) :
    (kgPostureSet sha mac env target s).2.guard.Full cpu ↔
      (s.guard.cpu cpu).baseStrategy = kgStratFull := by
  simp only [stepsDown, Bool.and_eq_true, decide_eq_true_eq] at h
  obtain ⟨⟨hmoves, hlow⟩, hhigh⟩ := h
  have hbound : cpu < s.guard.loopBound := by
    unfold KgGuard.loopBound
    rw [hncpu, asInt_of_lt s.topo.nrCpuIds.lt]
    exact hlt
  rw [(set_guard sha mac env target s).2, if_pos hmoves]
  unfold kgMitSetPosture KgGuard.Full
  rw [release_cpu]
  show ((if target ≥ kgPostureHigh then _ else _ : Nat → KgCpuMit) cpu).strategy = _ ↔ _
  rw [if_neg (UInt32.not_le.mpr hlow), if_pos (show s.guard.hdr.posture ≥ _ from hhigh),
    setStrategies_apply, if_pos hbound]

theorem set_core (env : Env) {target : UInt32} {s : PmuSys D} (h : CoreOK s) :
    CoreOK { s with sys := (kgPostureSet sha mac env target s.sys).2 } := by
  obtain ⟨htopo, hguard⟩ := set_guard sha mac env target s.sys
  refine ⟨?_, ?_, ?_, ?_⟩
  · show (kgPostureSet sha mac env target s.sys).2.guard.hdr.ncpu = _
    rw [hguard, htopo, ← h.ncpu]
    split
    · exact setPosture_ncpu sha target s.sys.guard
    · rfl
  · rw [htopo]
    exact h.smt
  · rw [htopo]
    exact h.flagged
  · rw [htopo]
    exact h.down

theorem set_full_iff (env : Env) {target : UInt32} {s : PmuSys D} (h : CoreOK s)
    (hdown : stepsDown target s.sys = true) :
    CriticalFull { s with sys := (kgPostureSet sha mac env target s.sys).2 } ↔
      ∀ cpu ∈ s.sys.topo.onlineCpus, (s.pmu.cpu cpu).crit = true →
        ∀ sib ∈ s.sys.topo.siblings cpu, sib ∈ s.sys.topo.onlineCpus →
          (s.sys.guard.cpu sib).baseStrategy = kgStratFull := by
  have htopo := (set_guard sha mac env target s.sys).1
  have hbase : ∀ cpu ∈ s.sys.topo.onlineCpus,
      ((kgPostureSet sha mac env target s.sys).2.guard.Full cpu ↔
        (s.sys.guard.cpu cpu).baseStrategy = kgStratFull) := by
    intro cpu hup
    exact set_stepsDown sha mac env h.ncpu hdown (Topology.mem_onlineCpus.mp hup).1
  unfold CriticalFull
  rw [htopo]
  constructor
  · intro hfull cpu hup hcrit sib hsib hsibup
    exact (hbase sib hsibup).mp ((hfull cpu hup hcrit).2 sib hsib hsibup)
  · intro hbases cpu hup hcrit
    refine ⟨(hbase cpu hup).mpr (hbases cpu hup hcrit cpu (h.smt.refl cpu) hup), ?_⟩
    intro sib hsib hsibup
    exact (hbase sib hsibup).mpr (hbases cpu hup hcrit sib hsib hsibup)

/-! ### Every step

Each kind of step has its lemma, and the condition names the two kinds that may go
wrong.  So a step from a good state leads to a good one exactly if it spares the
critical cores, and runs follow.
-/

/--
The step leaves critical cores alone.  Only the two writers that do not look at the flags have to
be watched: one that restores baselines, and a CPU that joins a core.
-/
def SparesCritical (s : PmuSys D) : CoreOp → Prop
  | .set _ target =>
      stepsDown target s.sys = true →
        ∀ cpu ∈ s.sys.topo.onlineCpus, (s.pmu.cpu cpu).crit = true →
          ∀ sib ∈ s.sys.topo.siblings cpu, sib ∈ s.sys.topo.onlineCpus →
            (s.sys.guard.cpu sib).baseStrategy = kgStratFull
  | .online cpu probe _ =>
      cpu < s.sys.topo.nrCpuIds.val.toNat → s.sys.topo.online cpu = false →
        (∃ c ∈ s.sys.topo.onlineCpus,
          (s.pmu.cpu c).crit = true ∧ cpu ∈ s.sys.topo.siblings c) →
          plugStrategy s probe = kgStratFull
  | _ => True

theorem coreStep_ok {s : PmuSys D} (h : CoreOK s) (op : CoreOp) :
    CoreOK (coreStep sha mac s op) := by
  unfold coreStep
  split
  · rename_i cpu kind busy user
    have hflags := overflow_flags ⟨s.sys.topo, s.pmu⟩ cpu kind busy user
    exact h.flags (fun c => (hflags c).1) (fun c => (hflags c).2)
  · exact (sample_core sha mac _ h).1
  · exact h.flags (fun _ => rfl) (fun _ => Iff.rfl)
  · exact h.hardens (report_hardens sha mac _ _ s.sys)
  · exact h.hardens (raise_hardens sha mac _ _ _ s.sys)
  · exact set_core sha mac _ h
  · exact h.hardens (decay_hardens sha mac _ s.sys)
  · rename_i cpu probe created
    split
    · rename_i hplug
      refine cpuUp_core sha h ?_
      intro hup
      rw [(Topology.mem_onlineCpus.mp hup).2] at hplug
      simp at hplug
    · exact h
  · split
    · exact (cpuDown_core h).1
    · exact h

/-- From a good state, the next one is good exactly if the step spares the critical cores. -/
theorem coreStep_full_iff {s : PmuSys D} (h : CoreOK s) (hfull : CriticalFull s) (op : CoreOp) :
    CriticalFull (coreStep sha mac s op) ↔ SparesCritical s op := by
  cases op with
  | overflow cpu kind busy user =>
      have hflags := overflow_flags ⟨s.sys.topo, s.pmu⟩ cpu kind busy user
      exact iff_of_true (hfull.flags (fun c => (hflags c).1)) trivial
  | sample env => exact iff_of_true ((sample_core sha mac env h).2 hfull) trivial
  | writeParams p => exact iff_of_true (hfull.flags (fun _ => rfl)) trivial
  | report env a => exact iff_of_true (hfull.hardens (report_hardens sha mac env a s.sys)) trivial
  | raise env target trigger =>
      exact iff_of_true (hfull.hardens (raise_hardens sha mac env target trigger s.sys)) trivial
  | decay env => exact iff_of_true (hfull.hardens (decay_hardens sha mac env s.sys)) trivial
  | set env target =>
      by_cases hdown : stepsDown target s.sys = true
      · exact (set_full_iff sha mac env h hdown).trans ⟨fun hb _ => hb, fun hb => hb hdown⟩
      · refine iff_of_true (hfull.hardens (set_hardens sha mac env ?_)) ?_
        · simpa using hdown
        · intro hd
          exact absurd hd hdown
  | online cpu probe created =>
      by_cases hplug : cpu < s.sys.topo.nrCpuIds.val.toNat ∧ s.sys.topo.online cpu = false
      · have hout : cpu ∉ s.sys.topo.onlineCpus := by
          intro hup
          rw [(Topology.mem_onlineCpus.mp hup).2] at hplug
          exact absurd hplug.2 (by decide)
        have hstep : coreStep sha mac s (.online cpu probe created)
            = cpuUp sha cpu probe created s := if_pos (by simpa using hplug)
        rw [hstep]
        exact (cpuUp_full_iff sha h hplug.1 hout hfull).trans
          ⟨fun hb _ _ => hb, fun hb => hb hplug.1 hplug.2⟩
      · have hstep : coreStep sha mac s (.online cpu probe created) = s :=
          if_neg (by simpa using hplug)
        rw [hstep]
        refine iff_of_true hfull ?_
        intro hlt hoff
        exact absurd ⟨hlt, hoff⟩ hplug
  | offline cpu =>
      refine iff_of_true ?_ trivial
      show CriticalFull (if s.sys.topo.online cpu then cpuDown cpu s else s)
      split
      · exact (cpuDown_core h).2 hfull
      · exact hfull

/-- The state the module is loaded into. -/
theorem init_core {s : PmuSys D} {p : KgPmuParams} {now : UInt64} {created : Nat → KgEv → Bool}
    (hncpu : s.sys.guard.hdr.ncpu = s.sys.topo.nrCpuIds.val) (hsmt : SmtTopology s.sys.topo)
    (hpmu : s.pmu = kgPmuInit p s.sys.topo now created) : CoreOK s ∧ CriticalFull s := by
  have hcrit : ∀ cpu, (s.pmu.cpu cpu).crit = false := by
    intro cpu
    rw [hpmu]
    unfold kgPmuInit
    dsimp only
    split <;> rfl
  refine ⟨⟨hncpu, hsmt, ?_, fun cpu _ => hcrit cpu⟩, ?_⟩
  · intro cpu hup hraised
    rw [hpmu] at hraised
    unfold kgPmuInit at hraised
    dsimp only at hraised
    rw [if_pos hup] at hraised
    exact absurd hraised (online_not_raised (created cpu) .zero)
  · intro cpu _ hc
    rw [hcrit cpu] at hc
    exact absurd hc (by decide)

theorem critical_core_full_iff {s₀ : PmuSys D} {p : KgPmuParams} {now : UInt64}
    {created : Nat → KgEv → Bool} (hncpu : s₀.sys.guard.hdr.ncpu = s₀.sys.topo.nrCpuIds.val)
    (hsmt : SmtTopology s₀.sys.topo) (hpmu : s₀.pmu = kgPmuInit p s₀.sys.topo now created)
    (ops : List CoreOp) :
    (∀ pre post, ops = pre ++ post → CriticalFull (exec (coreStep sha mac) s₀ pre)) ↔
      Along (coreStep sha mac) s₀ ops SparesCritical := by
  obtain ⟨hok₀, hfull₀⟩ := init_core hncpu hsmt hpmu
  constructor
  · intro hfull pre op post hops
    have hok := exec_invariant (P := CoreOK) (fun _ op h => coreStep_ok sha mac h op) hok₀ pre
    have hnext := hfull (pre ++ [op]) post (by simp [hops])
    rw [exec_snoc] at hnext
    exact (coreStep_full_iff sha mac hok (hfull pre (op :: post) hops) op).mp hnext
  · intro halong pre post hops
    rw [hops] at halong
    have hinv : CoreOK (exec (coreStep sha mac) s₀ pre) ∧
        CriticalFull (exec (coreStep sha mac) s₀ pre) := by
      refine exec_invariant_of (P := fun s => CoreOK s ∧ CriticalFull s) ?_ ⟨hok₀, hfull₀⟩ pre
        halong.left
      intro s op hs hop
      exact ⟨coreStep_ok sha mac hs.1 op, (coreStep_full_iff sha mac hs.1 hs.2 op).mpr hop⟩
    exact hinv.2

/-! A core of two threads, the second of them parked. -/

def oneCore : Topology :=
  ⟨⟨2, two_lt_nrCpuIds⟩, fun cpu => cpu == 0, fun cpu => [cpu / 2 * 2, cpu / 2 * 2 + 1]⟩

theorem oneCore_smt : SmtTopology oneCore := by
  constructor
  · intro cpu
    simp only [oneCore, List.mem_cons, List.not_mem_nil, or_false]
    omega
  · intro cpu sib hsib
    simp only [oneCore, List.mem_cons, List.not_mem_nil, or_false] at hsib ⊢
    omega

def parkedSibling : PmuSys (List UInt8) where
  sys := { freshSys with topo := oneCore }
  pmu := kgPmuInit ⟨100, 1, 2⟩ oneCore 0 fun _ _ => true

def envOneSecond : Env := ⟨1000000000, by decide, 1000000000, 0⟩

/-- Two overflows within the first second are critical here. -/
def criticalCore : List CoreOp :=
  [.overflow 0 .l1d false none, .overflow 0 .l1d false none, .sample envOneSecond]

/-- What the probe finds on the thread that comes up: VERW. -/
def verwProbe : KgProbe := ⟨0, 1, 50, 0, 0, 0⟩

/-- The thread that went critical is at full spectrum. -/
theorem critical_core_full_iff_alone :
    let s := exec (coreStep (okSha id) checksumMac) parkedSibling criticalCore
    (s.pmu.cpu 0).crit = true ∧ s.sys.guard.Full 0 := by
  intro s
  have hfull : CriticalFull s := by
    refine (critical_core_full_iff (okSha id) checksumMac (by decide) oneCore_smt rfl
      criticalCore).mpr ?_ criticalCore [] (by simp)
    exact .cons trivial (.cons trivial (.cons trivial (.nil _ _ _)))
  have hcrit : (s.pmu.cpu 0).crit = true := by decide
  exact ⟨hcrit, (hfull 0 (by decide) hcrit).1⟩

/-- Its sibling comes up with the strategy of its own probe. -/
theorem plugged_sibling_not_full :
    ¬ ∀ ops : List CoreOp,
      CriticalFull (exec (coreStep (okSha id) checksumMac) parkedSibling ops) := by
  intro hfull
  have hsib := (hfull (criticalCore ++ [.online 1 verwProbe fun _ => true]) 0 (by decide)
    (by decide)).2 1 (by decide) (by decide)
  have hverw : ((exec (coreStep (okSha id) checksumMac) parkedSibling
      (criticalCore ++ [.online 1 verwProbe fun _ => true])).sys.guard.cpu 1).strategy = 1 := by
    decide
  rw [KgGuard.Full, hverw] at hsib
  exact absurd hsib (by decide)

end KernelGuard
