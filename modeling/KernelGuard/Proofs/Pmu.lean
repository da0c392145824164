/-
The overflow counters, seen from one CPU.

A step of the detector does one of five things to a CPU and its part of the log (`CpuStep`), and
what is said about a whole run is carried by that list alone.  The first use of it is the count
itself: the counter holds the overflows since it was last drained, so that with a threshold above
one neither a silent window nor a single overflow can set anything off.  The thresholds are above
one unless `w + 1` wraps.
-/
import KernelGuard.Model.Pmu
import KernelGuard.Lib.Run
import KernelGuard.Lib.Sweep

namespace KernelGuard

open Run Sweep

/-! ### The loops of the sampler

A run of the sampler visits the CPUs that are online, and on each of them the two
counters.  The visits write to different parts of the state, so the run is seen from
one CPU as the visits to this CPU alone.
-/

section Sampler

variable (p : KgPmuParams) (denomMs now : UInt64)

theorem KgPmuCpu.setCounter_self (pc : KgPmuCpu) (kind : KgEv) (c : KgPmuCounter) :
    (pc.setCounter kind c).counter kind = c :=
  Function.update_self ..

theorem KgPmuCpu.setCounter_of_ne (pc : KgPmuCpu) {kind k : KgEv} (h : k ≠ kind)
    (c : KgPmuCounter) : (pc.setCounter kind c).counter k = pc.counter k :=
  Function.update_of_ne h ..

/-- The counter after a sampler run: drained and judged, if it is there at all. -/
def KgPmuCpu.drained (pc : KgPmuCpu) (cpu : Nat) (kind : KgEv) : KgPmuCounter :=
  if (pc.counter kind).ev then
    { pc.counter kind with ovf := 0, track := (pc.judged p denomMs now cpu kind).after }
  else pc.counter kind

theorem sampleKind_counter (cpu : Nat) (kind k : KgEv) (pc : KgPmuCpu) :
    (kgPmuSampleKind p denomMs now cpu kind pc).2.counter k
      = if k = kind then pc.drained p denomMs now cpu kind else pc.counter k := by
  unfold kgPmuSampleKind KgPmuCpu.drained
  cases hev : (pc.counter kind).ev with
  | false =>
      by_cases hk : k = kind
      · simp [hk]
      · simp [hk]
  | true =>
      have hcand : ∀ (b : Bool) (pc : KgPmuCpu),
          (if b then { pc with candTgid := 0, candCnt := 0 } else pc).counter = pc.counter := by
        intro b pc
        cases b <;> rfl
      simp only [Bool.not_true, Bool.false_eq_true, if_false, if_true, hcand]
      by_cases hk : k = kind
      · rw [if_pos hk, hk, KgPmuCpu.setCounter_self, hev]
      · rw [if_neg hk, KgPmuCpu.setCounter_of_ne pc hk]

/-- Neither counter's judgement reads what the other one's wrote, the candidate apart. -/
theorem sampleCpu_counter (cpu : Nat) (k : KgEv) (pc : KgPmuCpu) :
    (kgPmuSampleCpu p denomMs now cpu pc).2.counter k = pc.drained p denomMs now cpu k := by
  show (kgPmuSampleKind p denomMs now cpu .llc (kgPmuSampleKind p denomMs now cpu .l1d pc).2).2.counter
    k = _
  rw [sampleKind_counter]
  cases k with
  | l1d => rw [if_neg (by decide), sampleKind_counter, if_pos rfl]
  | llc =>
      rw [if_pos rfl]
      have hllc := sampleKind_counter p denomMs now cpu .l1d .llc pc
      rw [if_neg (by decide)] at hllc
      simp only [KgPmuCpu.drained, KgPmuCpu.judged, PmuJudged.after, PmuJudged.lvl, PmuJudged.rate,
        hllc]

theorem sampleKind_cpu (cpu : Nat) (kind : KgEv) (pc : KgPmuCpu) :
    ∀ j ∈ (kgPmuSampleKind p denomMs now cpu kind pc).1, j.cpu = cpu := by
  unfold kgPmuSampleKind
  cases (pc.counter kind).ev with
  | false => simp
  | true => simp [KgPmuCpu.judged]

theorem sampleCpu_cpu (cpu : Nat) (pc : KgPmuCpu) :
    ∀ j ∈ (kgPmuSampleCpu p denomMs now cpu pc).1, j.cpu = cpu := by
  intro j hj
  rcases List.mem_append.mp hj with hj | hj
  · exact sampleKind_cpu p denomMs now cpu .l1d pc j hj
  · exact sampleKind_cpu p denomMs now cpu .llc _ j hj

theorem sampleCpus_eq_sweep (cpus : List Nat) (t : Nat → KgPmuCpu) :
    kgPmuSampleCpus p denomMs now cpus t = sweep (kgPmuSampleCpu p denomMs now) cpus t := by
  induction cpus generalizing t with
  | nil => rfl
  | cons c rest ih =>
      unfold kgPmuSampleCpus sweep
      simp only [ih]

theorem sampleCpus_cpu {cpus : List Nat} (hnodup : cpus.Nodup) (t : Nat → KgPmuCpu) (cpu : Nat) :
    (kgPmuSampleCpus p denomMs now cpus t).2 cpu
      = if cpu ∈ cpus then (kgPmuSampleCpu p denomMs now cpu (t cpu)).2 else t cpu := by
  rw [sampleCpus_eq_sweep]
  exact sweep_snd _ hnodup t cpu

theorem sampleCpus_judged {cpus : List Nat} (hnodup : cpus.Nodup) (t : Nat → KgPmuCpu)
    (cpu : Nat) :
    (kgPmuSampleCpus p denomMs now cpus t).1.filter (fun j => decide (j.cpu = cpu))
      = if cpu ∈ cpus then (kgPmuSampleCpu p denomMs now cpu (t cpu)).1 else [] := by
  rw [sampleCpus_eq_sweep]
  exact sweep_filter (sampleCpu_cpu p denomMs now) hnodup t cpu

end Sampler

theorem Topology.onlineCpus_nodup (topo : Topology) : topo.onlineCpus.Nodup :=
  List.nodup_range.filter _

theorem Topology.mem_onlineCpus {topo : Topology} {cpu : Nat} :
    cpu ∈ topo.onlineCpus ↔ cpu < topo.nrCpuIds.val.toNat ∧ topo.online cpu = true := by
  simp [Topology.onlineCpus]

/-! ### What a step does to one CPU

`CpuStep` is the inversion lemma of the whole detector: an overflow, a judgement of
both counters, the two hot-plug callbacks, or nothing.  Every invariant about a CPU
is one case for each.
-/

def PmuEvent.cpu : PmuEvent → Nat
  | .overflow cpu _ _ _ => cpu
  | .judged j => j.cpu
  | .online cpu => cpu

def ofCpu (cpu : Nat) (e : PmuEvent) : Bool := decide (e.cpu = cpu)

/-- The five things a step can do to a CPU: its new record, and what it adds to the CPU's log. -/
inductive CpuStep (cpu : Nat) (s : PmuSt) (pc : KgPmuCpu) :
    PmuOp → List PmuEvent → KgPmuCpu → Prop where
  | idle (op : PmuOp) : CpuStep cpu s pc op [] pc
  | offline : CpuStep cpu s pc (.offline cpu) [] (kgPmuCpuOffline pc)
  | overflow (kind : KgEv) (busy : Bool) (user : Option Tgid) :
      CpuStep cpu s pc (.overflow cpu kind busy user)
        [.overflow cpu kind user (kgPmuOverflow s.pmu.params s.pmu.stop busy kind user pc).1]
        (kgPmuOverflow s.pmu.params s.pmu.stop busy kind user pc).2
  | sample (now : UInt64) (hup : cpu ∈ s.topo.onlineCpus) :
      CpuStep cpu s pc (.sample now)
        ((kgPmuSampleCpu s.pmu.params (kgPmuDenom s.pmu.params s.pmu.lastNs now) now cpu pc).1.map
          .judged)
        (kgPmuSampleCpu s.pmu.params (kgPmuDenom s.pmu.params s.pmu.lastNs now) now cpu pc).2
  | online (created : KgEv → Bool) :
      CpuStep cpu s pc (.online cpu created) [.online cpu] (kgPmuCpuOnline created pc)

theorem KgPmu.setCpu_cpu (m : KgPmu) (cpu c : Nat) (pc : KgPmuCpu) :
    (m.setCpu cpu pc).cpu c = if c = cpu then pc else m.cpu c := by
  show Function.update m.cpu cpu pc c = _
  by_cases hc : c = cpu
  · rw [hc, Function.update_self, if_pos rfl]
  · rw [Function.update_of_ne hc, if_neg hc]

/-- A step on one CPU, seen from another: nothing. -/
theorem CpuStep.elsewhere {cpu c : Nat} {s : PmuSt} {op : PmuOp} {evs : List PmuEvent}
    {pc : KgPmuCpu} (h : CpuStep c s (s.pmu.cpu c) op evs pc) (hevs : ∀ e ∈ evs, e.cpu = c) :
    CpuStep cpu s (s.pmu.cpu cpu) op (evs.filter (ofCpu cpu)) ((s.pmu.setCpu c pc).cpu cpu) := by
  rw [KgPmu.setCpu_cpu]
  by_cases hc : cpu = c
  · subst hc
    have hlog : evs.filter (ofCpu cpu) = evs :=
      List.filter_eq_self.mpr (fun e he => decide_eq_true (hevs e he))
    rw [hlog, if_pos rfl]
    exact h
  · have hlog : evs.filter (ofCpu cpu) = [] := by
      refine List.filter_eq_nil_iff.mpr ?_
      intro e he heq
      exact hc ((of_decide_eq_true heq).symm.trans (hevs e he))
    rw [hlog, if_neg hc]
    exact .idle _

theorem pmuStep_cpu (s : PmuSt) (op : PmuOp) (cpu : Nat) :
    CpuStep cpu s (s.pmu.cpu cpu) op ((pmuEvents s op).filter (ofCpu cpu))
      ((pmuStep s op).pmu.cpu cpu) := by
  cases op with
  | overflow c kind busy user =>
      unfold pmuStep pmuEvents
      by_cases hcount : s.counting c kind = true
      · simp only [hcount, if_true]
        exact (CpuStep.overflow kind busy user).elsewhere (by simp [PmuEvent.cpu])
      · simp only [hcount]
        exact .idle _
  | sample now =>
      have hnodup := s.topo.onlineCpus_nodup
      have hlog : (pmuEvents s (.sample now)).filter (ofCpu cpu)
          = ((kgPmuSample s.topo now s.pmu).1.filter fun j => decide (j.cpu = cpu)).map .judged := by
        unfold pmuEvents
        rw [List.filter_map]
        rfl
      have hjs := sampleCpus_judged s.pmu.params (kgPmuDenom s.pmu.params s.pmu.lastNs now) now hnodup
        s.pmu.cpu cpu
      have hpc := sampleCpus_cpu s.pmu.params (kgPmuDenom s.pmu.params s.pmu.lastNs now) now hnodup
        s.pmu.cpu cpu
      rw [hlog]
      show CpuStep cpu s (s.pmu.cpu cpu) (.sample now)
        ((List.filter _ (kgPmuSampleCpus _ _ _ _ _).1).map .judged) ((kgPmuSampleCpus _ _ _ _ _).2 cpu)
      rw [hjs, hpc]
      by_cases hup : cpu ∈ s.topo.onlineCpus
      · rw [if_pos hup, if_pos hup]
        exact .sample now hup
      · rw [if_neg hup, if_neg hup]
        exact .idle _
  | online c created =>
      unfold pmuStep pmuEvents
      by_cases hup : (decide (c < s.topo.nrCpuIds.val.toNat) && !s.topo.online c) = true
      · simp only [hup, if_true]
        exact (CpuStep.online created).elsewhere (by simp [PmuEvent.cpu])
      · simp only [hup]
        exact .idle _
  | offline c =>
      unfold pmuStep
      by_cases hup : s.topo.online c = true
      · simp only [hup, if_true]
        exact CpuStep.offline.elsewhere (by simp)
      · simp only [hup]
        exact .idle _
  | writeParams p => exact .idle _

/-! ### Runs

An invariant of a CPU's record and its log is proved from its five cases once
(`cpu_invariant`), and the files about levels and votes use it, too.
-/

/-- Everything an observer sees of a run. -/
def pmuLog (s : PmuSt) (ops : List PmuOp) : List PmuEvent := outputs pmuStep pmuEvents s ops

theorem pmuLog_snoc (s : PmuSt) (ops : List PmuOp) (op : PmuOp) :
    pmuLog s (ops ++ [op]) = pmuLog s ops ++ pmuEvents (exec pmuStep s ops) op :=
  outputs_snoc ..

/-- What the steps of a run keep of a CPU's record and its log holds after the run. -/
theorem cpu_invariant_of {cpu : Nat} {P : List PmuEvent → KgPmuCpu → Prop} {C : PmuOp → Prop}
    (hstep : ∀ log s pc op evs pc', P log pc → C op → CpuStep cpu s pc op evs pc' →
      P (log ++ evs) pc')
    {s : PmuSt} (h : P [] (s.pmu.cpu cpu)) (ops : List PmuOp) (hops : ∀ op ∈ ops, C op) :
    P ((pmuLog s ops).filter (ofCpu cpu)) ((exec pmuStep s ops).pmu.cpu cpu) := by
  induction ops using List.reverseRecOn with
  | nil => exact h
  | append_singleton ops op ih =>
      rw [pmuLog_snoc, exec_snoc, List.filter_append]
      have hpre := ih (fun op hop => hops op (List.mem_append_left _ hop))
      have hlast := hops op (List.mem_append_right _ List.mem_cons_self)
      exact hstep _ _ _ _ _ _ hpre hlast (pmuStep_cpu _ op cpu)

theorem cpu_invariant {cpu : Nat} {P : List PmuEvent → KgPmuCpu → Prop}
    (hstep : ∀ log s pc op evs pc', P log pc → CpuStep cpu s pc op evs pc' → P (log ++ evs) pc')
    {s : PmuSt} (h : P [] (s.pmu.cpu cpu)) (ops : List PmuOp) :
    P ((pmuLog s ops).filter (ofCpu cpu)) ((exec pmuStep s ops).pmu.cpu cpu) :=
  cpu_invariant_of (C := fun _ => True) (fun log s pc op evs pc' h _ => hstep log s pc op evs pc' h)
    h ops (fun _ _ => trivial)

/-! ### The count

A counter is set to zero where it is drained and goes on by one with an overflow,
unless there is none.  So it holds the overflows since the last drain, as the log has
them.
-/

/-- Counting the overflows of one counter, from its last drain on. -/
def drainTally (cpu : Nat) (kind : KgEv) (n : Nat) : PmuEvent → Nat
  | .overflow c k _ did => if c = cpu ∧ k = kind ∧ did.counted then n + 1 else n
  | .judged j => if j.cpu = cpu ∧ j.kind = kind then 0 else n
  | .online c => if c = cpu then 0 else n

def overflowsSinceDrain (cpu : Nat) (kind : KgEv) (log : List PmuEvent) : Nat :=
  log.foldl (drainTally cpu kind) 0

theorem overflowsSinceDrain_append (cpu : Nat) (kind : KgEv) (log evs : List PmuEvent) :
    overflowsSinceDrain cpu kind (log ++ evs)
      = evs.foldl (drainTally cpu kind) (overflowsSinceDrain cpu kind log) :=
  List.foldl_append

/-- What is made of a log by events of one CPU only can be made of that CPU's part of it. -/
theorem foldl_ofCpu {β : Type} {cpu : Nat} {f : β → PmuEvent → β}
    (hf : ∀ b e, e.cpu ≠ cpu → f b e = b) (log : List PmuEvent) (b : β) :
    (log.filter (ofCpu cpu)).foldl f b = log.foldl f b := by
  rw [List.foldl_filter]
  congr
  funext b e
  by_cases he : ofCpu cpu e = true
  · rw [if_pos he]
  · rw [if_neg he]
    exact (hf b e (by simpa [ofCpu] using he)).symm

/-- What happens on other CPUs does not count. -/
theorem overflowsSinceDrain_ofCpu (cpu : Nat) (kind : KgEv) (log : List PmuEvent) :
    overflowsSinceDrain cpu kind (log.filter (ofCpu cpu)) = overflowsSinceDrain cpu kind log := by
  refine foldl_ofCpu ?_ log 0
  intro n e he
  cases e with
  | overflow c k user did => exact if_neg (fun h => he h.1)
  | judged j => exact if_neg (fun h => he h.1)
  | online c => exact if_neg he

theorem KgPmuCpu.vote_counter (pc : KgPmuCpu) (tgid : Int32) :
    (pc.vote tgid).counter = pc.counter := by
  unfold KgPmuCpu.vote
  split
  · rfl
  · split <;> rfl

theorem kgPmuOverflow_ignored {p : KgPmuParams} {stop busy : Bool} (h : (stop || busy) = true)
    (kind : KgEv) (user : Option Tgid) (pc : KgPmuCpu) :
    kgPmuOverflow p stop busy kind user pc = (⟨false, false, false⟩, pc) := by
  unfold kgPmuOverflow
  rw [if_pos h]

theorem kgPmuOverflow_counter {p : KgPmuParams} {stop busy : Bool} (h : (stop || busy) = false)
    (kind : KgEv) (user : Option Tgid) (pc : KgPmuCpu) :
    (kgPmuOverflow p stop busy kind user pc).2.counter
      = Function.update pc.counter kind
          { pc.counter kind with ovf := (pc.counter kind).ovf + 1 } := by
  unfold kgPmuOverflow
  rw [if_neg (by simp [h])]
  cases user with
  | none => rfl
  | some tgid => exact KgPmuCpu.vote_counter _ tgid.val

/-- The judgements on a CPU: the L1D counter's, then the LLC counter's. -/
theorem sampleCpu_judged (p : KgPmuParams) (denomMs now : UInt64) (cpu : Nat) (pc : KgPmuCpu) :
    (kgPmuSampleCpu p denomMs now cpu pc).1
      = (if (pc.counter .l1d).ev then [pc.judged p denomMs now cpu .l1d] else [])
        ++ (if (pc.counter .llc).ev then
              [(kgPmuSampleKind p denomMs now cpu .l1d pc).2.judged p denomMs now cpu .llc]
            else []) := by
  have hkind : ∀ (kind : KgEv) (pc : KgPmuCpu), (kgPmuSampleKind p denomMs now cpu kind pc).1
      = if (pc.counter kind).ev then [pc.judged p denomMs now cpu kind] else [] := by
    intro kind pc
    unfold kgPmuSampleKind
    cases (pc.counter kind).ev <;> rfl
  have hllc := sampleKind_counter p denomMs now cpu .l1d .llc pc
  rw [if_neg (by decide)] at hllc
  show (kgPmuSampleKind p denomMs now cpu .l1d pc).1
    ++ (kgPmuSampleKind p denomMs now cpu .llc (kgPmuSampleKind p denomMs now cpu .l1d pc).2).1 = _
  rw [hkind, hkind, hllc]

theorem foldl_drainTally_sample (p : KgPmuParams) (denomMs now : UInt64) (cpu : Nat)
    (pc : KgPmuCpu) (kind : KgEv) (n : Nat) :
    ((kgPmuSampleCpu p denomMs now cpu pc).1.map .judged).foldl (drainTally cpu kind) n
      = if (pc.counter kind).ev then 0 else n := by
  rw [sampleCpu_judged]
  cases kind with
  | l1d =>
      cases (pc.counter .l1d).ev <;> cases (pc.counter .llc).ev <;>
        simp [drainTally, KgPmuCpu.judged]
  | llc =>
      cases (pc.counter .l1d).ev <;> cases (pc.counter .llc).ev <;>
        simp [drainTally, KgPmuCpu.judged]

/-- The counters of a CPU hold what its log says was counted. -/
def Counted (cpu : Nat) (log : List PmuEvent) (pc : KgPmuCpu) : Prop :=
  ∀ kind, (pc.counter kind).ovf = Int64.ofNat (overflowsSinceDrain cpu kind log)

theorem Counted.step {cpu : Nat} {log evs : List PmuEvent} {s : PmuSt} {pc pc' : KgPmuCpu}
    {op : PmuOp} (h : Counted cpu log pc) (hstep : CpuStep cpu s pc op evs pc') :
    Counted cpu (log ++ evs) pc' := by
  intro k
  rw [overflowsSinceDrain_append]
  cases hstep with
  | idle => exact h k
  | offline => exact h k
  | overflow kind busy user =>
      cases hignored : s.pmu.stop || busy with
      | true =>
          rw [kgPmuOverflow_ignored hignored]
          simpa [drainTally] using h k
      | false =>
          rw [kgPmuOverflow_counter hignored]
          have hcounted : (kgPmuOverflow s.pmu.params s.pmu.stop busy kind user pc).1.counted = true := by
            unfold kgPmuOverflow
            rw [if_neg (by simp [hignored])]
          by_cases hk : k = kind
          · subst hk
            rw [Function.update_self]
            simp only [List.foldl_cons, List.foldl_nil, drainTally, hcounted, and_self, if_true]
            rw [Int64.ofNat_add, ← h k]
            rfl
          · rw [Function.update_of_ne hk]
            simpa [drainTally, Ne.symm hk] using h k
  | sample now =>
      rw [sampleCpu_counter, foldl_drainTally_sample]
      unfold KgPmuCpu.drained
      cases (pc.counter k).ev with
      | true => rfl
      | false => exact h k
  | online created => simp [drainTally, kgPmuCpuOnline]

theorem counted_run {s : PmuSt} {cpu : Nat} (h : Counted cpu [] (s.pmu.cpu cpu))
    (ops : List PmuOp) : Counted cpu (pmuLog s ops) ((exec pmuStep s ops).pmu.cpu cpu) := by
  intro kind
  rw [← overflowsSinceDrain_ofCpu]
  exact cpu_invariant (fun _ _ _ _ _ _ h hstep => h.step hstep) h ops kind

theorem kgPmuInit_cpu (p : KgPmuParams) (topo : Topology) (now : UInt64)
    (created : Nat → KgEv → Bool) (cpu : Nat) :
    (kgPmuInit p topo now created).cpu cpu
      = if cpu ∈ topo.onlineCpus then kgPmuCpuOnline (created cpu) .zero else .zero :=
  rfl

theorem kgPmuInit_counted (p : KgPmuParams) (topo : Topology) (now : UInt64)
    (created : Nat → KgEv → Bool) (cpu : Nat) :
    Counted cpu [] ((kgPmuInit p topo now created).cpu cpu) := by
  intro kind
  rw [kgPmuInit_cpu]
  split <;> rfl

/-! ### The thresholds

With both thresholds above one a rate of zero has no level, and one overflow does
not force a flush.  The level thresholds come from the parameters by a clamp and one
addition; the addition is the whole question.
-/

theorem warn_pos (p : KgPmuParams) : 1 ≤ (kgPmuThresholds p).1 := by
  rw [UInt32.le_iff_toNat_le]
  show _ ≤ (max p.warn 1).toNat
  rw [UInt32.toNat_max]
  exact Nat.le_max_right ..

/-- The comparison holds unless `w + 1` wraps. -/
theorem warn_lt_crit_iff (p : KgPmuParams) :
    (kgPmuThresholds p).1 < (kgPmuThresholds p).2 ↔ p.warn ≠ 0xFFFFFFFF := by
  have hwarn := p.warn.toNat_lt
  have hcrit := p.crit.toNat_lt
  have hlast : p.warn = 0xFFFFFFFF ↔ p.warn.toNat = 2 ^ 32 - 1 := by
    rw [← UInt32.toNat_inj]
    rfl
  rw [ne_eq, hlast, UInt32.lt_iff_toNat_lt]
  show (max p.warn 1).toNat < (max p.crit (max p.warn 1 + 1)).toNat ↔ _
  rw [UInt32.toNat_max, UInt32.toNat_max, UInt32.toNat_add, UInt32.toNat_max, UInt32.toNat_one]
  omega

theorem two_le_crit {p : KgPmuParams} (h : p.warn ≠ 0xFFFFFFFF) :
    2 ≤ (kgPmuThresholds p).2.toNat := by
  have hone := UInt32.le_iff_toNat_le.mp (warn_pos p)
  have hlt := UInt32.lt_iff_toNat_lt.mp ((warn_lt_crit_iff p).mpr h)
  rw [UInt32.toNat_one] at hone
  omega

theorem kgPmuLevel_eq (p : KgPmuParams) (rate : UInt64) :
    kgPmuLevel p rate
      = if rate ≥ (kgPmuThresholds p).2.toUInt64 then kgLevelCritical
        else if rate ≥ (kgPmuThresholds p).1.toUInt64 then kgLevelWatch
        else 0 :=
  rfl

/-- A rate of zero has no level when both thresholds are above zero. -/
theorem kgPmuLevel_zero {p : KgPmuParams} (h : p.warn ≠ 0xFFFFFFFF) : kgPmuLevel p 0 = 0 := by
  have hone := UInt32.le_iff_toNat_le.mp (warn_pos p)
  have htwo := two_le_crit h
  rw [UInt32.toNat_one] at hone
  have hnot : ∀ x : UInt32, 1 ≤ x.toNat → ¬ (0 : UInt64) ≥ x.toUInt64 := by
    intro x hx hle
    rw [ge_iff_le, UInt64.le_iff_toNat_le, UInt32.toNat_toUInt64, UInt64.toNat_zero] at hle
    omega
  rw [kgPmuLevel_eq, if_neg (hnot _ (by omega)), if_neg (hnot _ hone)]

/-- `(long)crit` is the threshold itself. -/
theorem toInt_crit (x : UInt32) : x.toUInt64.toInt64.toInt = x.toNat := by
  have hlt := x.toNat_lt
  have hcast : x.toUInt64.toInt64 = Int64.ofNat x.toNat := by
    rw [← UInt64.toInt64_ofNat', ← UInt32.toNat_toUInt64, UInt64.ofNat_toNat]
  rw [hcast, Int64.toInt_ofNat_of_lt (by omega)]

/-- A first overflow does not reach a threshold above one. -/
theorem not_forced_first {p : KgPmuParams} (h : p.warn ≠ 0xFFFFFFFF) {stop busy : Bool}
    {kind : KgEv} {user : Option Tgid} {pc : KgPmuCpu} (hzero : (pc.counter kind).ovf = 0) :
    (kgPmuOverflow p stop busy kind user pc).1.forced = false := by
  have htwo := two_le_crit h
  cases hignored : stop || busy with
  | true => rw [kgPmuOverflow_ignored hignored]
  | false =>
      unfold kgPmuOverflow
      rw [if_neg (by simp [hignored]), hzero]
      show decide _ = false
      rw [decide_eq_false_iff_not, ge_iff_le, Int64.le_iff_toInt_le, toInt_crit,
        show ((0 : Int64) + 1).toInt = 1 from rfl]
      omega

/-- What a silent CPU can rely on at a step of a run with `log` behind it. -/
structure Quiet (s : PmuSt) (log : List PmuEvent) (op : PmuOp) : Prop where
  warn : 1 ≤ (kgPmuThresholds s.pmu.params).1
  crit : (kgPmuThresholds s.pmu.params).1 < (kgPmuThresholds s.pmu.params).2
  /-- A run that drains nothing computes no level. -/
  silent : ∀ j, .judged j ∈ pmuEvents s op → j.n = 0 → j.lvl = 0
  /-- A flush is forced by the second overflow since the drain at the earliest. -/
  forced : ∀ cpu kind user did, .overflow cpu kind user did ∈ pmuEvents s op → did.forced = true →
    2 ≤ overflowsSinceDrain cpu kind (log ++ pmuEvents s op)

/-- Where an event comes from: the step on its own CPU. -/
theorem event_step {s : PmuSt} {op : PmuOp} {e : PmuEvent} (h : e ∈ pmuEvents s op) :
    ∃ evs pc', CpuStep e.cpu s (s.pmu.cpu e.cpu) op evs pc' ∧
      evs = (pmuEvents s op).filter (ofCpu e.cpu) ∧ e ∈ evs :=
  ⟨_, _, pmuStep_cpu s op e.cpu, rfl, List.mem_filter.mpr ⟨h, by simp [ofCpu]⟩⟩

/-- What a judgement in the log was made from. -/
structure JudgedFrom (s : PmuSt) (op : PmuOp) (j : PmuJudged) : Prop where
  op : op = .sample j.now
  counting : s.counting j.cpu j.kind = true
  params : j.params = s.pmu.params
  denomMs : j.denomMs = kgPmuDenom s.pmu.params s.pmu.lastNs j.now
  n : j.n = ((s.pmu.cpu j.cpu).counter j.kind).ovf.toUInt64

theorem KgPmuCpu.judged_from {s : PmuSt} {cpu : Nat} {kind : KgEv} {now : UInt64} {pc : KgPmuCpu}
    (hcount : s.counting cpu kind = true)
    (hsame : pc.counter kind = (s.pmu.cpu cpu).counter kind) :
    JudgedFrom s (.sample now)
      (pc.judged s.pmu.params (kgPmuDenom s.pmu.params s.pmu.lastNs now) now cpu kind) :=
  ⟨rfl, hcount, rfl, rfl, congrArg (fun c => c.ovf.toUInt64) hsame⟩

theorem judged_facts {s : PmuSt} {op : PmuOp} {j : PmuJudged} (h : .judged j ∈ pmuEvents s op) :
    JudgedFrom s op j := by
  obtain ⟨evs, pc', hstep, -, hmem⟩ := event_step h
  cases hstep with
  | idle => simp at hmem
  | offline => simp at hmem
  | overflow kind busy user => simp at hmem
  | sample now hup =>
      rw [sampleCpu_judged] at hmem
      simp only [List.mem_map, List.mem_append] at hmem
      obtain ⟨j', hj', hj⟩ := hmem
      have hcount : ∀ kind, ((s.pmu.cpu j.cpu).counter kind).ev = true →
          s.counting j.cpu kind = true := by
        intro kind hev
        exact Bool.and_eq_true_iff.mpr ⟨decide_eq_true hup, hev⟩
      rw [← PmuEvent.judged.inj hj]
      rcases hj' with hj' | hj'
      · split at hj'
        · rename_i hev
          rw [List.mem_singleton] at hj'
          rw [hj']
          exact KgPmuCpu.judged_from (hcount _ hev) rfl
        · simp at hj'
      · split at hj'
        · rename_i hev
          rw [List.mem_singleton] at hj'
          rw [hj']
          refine KgPmuCpu.judged_from (hcount _ hev) ?_
          rw [sampleKind_counter, if_neg (by decide)]
        · simp at hj'
  | online created => simp at hmem

/-- Every counter that is there is judged by every run. -/
theorem sample_judges {s : PmuSt} {cpu : Nat} {kind : KgEv} (h : s.counting cpu kind = true)
    (now : UInt64) :
    ∃ j, .judged j ∈ pmuEvents s (.sample now) ∧ j.cpu = cpu ∧ j.kind = kind := by
  simp only [PmuSt.counting, Bool.and_eq_true, decide_eq_true_eq] at h
  have hmem : ∀ j ∈ (kgPmuSampleCpu s.pmu.params (kgPmuDenom s.pmu.params s.pmu.lastNs now) now cpu
      (s.pmu.cpu cpu)).1, .judged j ∈ pmuEvents s (.sample now) := by
    intro j hj
    have hjs := sampleCpus_judged s.pmu.params (kgPmuDenom s.pmu.params s.pmu.lastNs now) now
      s.topo.onlineCpus_nodup s.pmu.cpu cpu
    rw [if_pos h.1] at hjs
    rw [← hjs] at hj
    exact List.mem_map_of_mem (List.mem_filter.mp hj).1
  rw [sampleCpu_judged] at hmem
  cases kind with
  | l1d =>
      have hj := hmem _ (List.mem_append_left _ (by rw [if_pos h.2]; exact List.mem_cons_self))
      exact ⟨_, hj, rfl, rfl⟩
  | llc =>
      have hj := hmem _ (List.mem_append_right _ (by rw [if_pos h.2]; exact List.mem_cons_self))
      exact ⟨_, hj, rfl, rfl⟩

/-- The overflow that forces a flush is not the first since the drain. -/
theorem forced_second {s : PmuSt} {log : List PmuEvent} (hwarn : s.pmu.params.warn ≠ 0xFFFFFFFF)
    {op : PmuOp} {cpu : Nat} {kind : KgEv} {user : Option Tgid} {did : KgPmuOverflow}
    (hcount : Counted cpu log (s.pmu.cpu cpu))
    (hmem : .overflow cpu kind user did ∈ pmuEvents s op) (hforced : did.forced = true) :
    2 ≤ overflowsSinceDrain cpu kind (log ++ pmuEvents s op) := by
  obtain ⟨evs, pc', hstep, hevs, hmem⟩ := event_step hmem
  rw [← overflowsSinceDrain_ofCpu, List.filter_append, overflowsSinceDrain_append,
    overflowsSinceDrain_ofCpu]
  rw [show (PmuEvent.overflow cpu kind user did).cpu = cpu from rfl] at hevs
  rw [← hevs]
  cases hstep with
  | idle => simp at hmem
  | offline => simp at hmem
  | overflow kind' busy user' =>
      rw [List.mem_singleton, PmuEvent.overflow.injEq] at hmem
      obtain ⟨-, rfl, -, hdid⟩ := hmem
      rw [hdid] at hforced
      have hcounted : (kgPmuOverflow s.pmu.params s.pmu.stop busy kind user'
          (s.pmu.cpu cpu)).1.counted = true := by
        cases hignored : s.pmu.stop || busy with
        | true =>
            rw [kgPmuOverflow_ignored hignored] at hforced
            simp at hforced
        | false =>
            unfold kgPmuOverflow
            rw [if_neg (by simp [hignored])]
      simp only [PmuEvent.cpu, List.foldl_cons, List.foldl_nil, drainTally, hcounted, and_self,
        if_true]
      -- one overflow alone would mean that the counter stood at zero
      by_contra hlow
      have hzero : overflowsSinceDrain cpu kind log = 0 := by omega
      have hovf := hcount kind
      rw [hzero] at hovf
      rw [show (PmuEvent.overflow cpu kind user did).cpu = cpu from rfl,
        not_forced_first hwarn hovf] at hforced
      simp at hforced
  | sample now => simp at hmem
  | online created => simp at hmem

theorem quiet_step {s : PmuSt} {log : List PmuEvent} (hwarn : s.pmu.params.warn ≠ 0xFFFFFFFF)
    (hcount : ∀ cpu, Counted cpu log (s.pmu.cpu cpu)) (op : PmuOp) : Quiet s log op := by
  refine ⟨warn_pos _, (warn_lt_crit_iff _).mpr hwarn, ?_, ?_⟩
  · intro j hj hn
    have hrate : j.rate = 0 := by
      unfold PmuJudged.rate kgPmuRate
      rw [hn, UInt64.zero_mul, UInt64.zero_div]
    unfold PmuJudged.lvl
    rw [hrate, (judged_facts hj).params]
    exact kgPmuLevel_zero hwarn
  · intro cpu kind user did hmem hforced
    exact forced_second hwarn (hcount cpu) hmem hforced

/-- A silent CPU never alarms, at any step of any run, exactly as long as `pmu_warn` is not the
one value whose successor wraps. -/
theorem silent_cpu_never_alarms_iff (p : KgPmuParams) (topo : Topology) (now : UInt64)
    (created : Nat → KgEv → Bool) (ops : List PmuOp) :
    (∀ pre op post, ops = pre ++ op :: post →
      Quiet (exec pmuStep ⟨topo, kgPmuInit p topo now created⟩ pre)
        (pmuLog ⟨topo, kgPmuInit p topo now created⟩ pre) op) ↔
      Along pmuStep ⟨topo, kgPmuInit p topo now created⟩ ops
        (fun s _ => s.pmu.params.warn ≠ 0xFFFFFFFF) := by
  constructor
  · intro hquiet pre op post hops
    exact (warn_lt_crit_iff _).mp (hquiet pre op post hops).crit
  · intro halong pre op post hops
    refine quiet_step (halong pre op post hops) ?_ op
    intro cpu
    exact counted_run (kgPmuInit_counted p topo now created cpu) pre

/-- One CPU with both counters. -/
def oneCpu : Topology := ⟨⟨1, by decide⟩, fun cpu => cpu == 0, fun cpu => [cpu]⟩

/-- With `pmu_warn=4294967295 pmu_crit=0` an idle machine is critical at the first run. -/
theorem wrapped_threshold_alarms :
    ¬ ∀ (p : KgPmuParams) (ops : List PmuOp) (pre : List PmuOp) (op : PmuOp) (post : List PmuOp),
      ops = pre ++ op :: post →
        Quiet (exec pmuStep ⟨oneCpu, kgPmuInit p oneCpu 0 fun _ _ => true⟩ pre)
          (pmuLog ⟨oneCpu, kgPmuInit p oneCpu 0 fun _ _ => true⟩ pre) op := by
  intro h
  have hquiet := h ⟨1000, 0xFFFFFFFF, 0⟩ [.sample 1000000000] [] (.sample 1000000000) [] rfl
  exact absurd (hquiet.silent _ List.mem_cons_self rfl) (by decide)

end KernelGuard
