/-
Side-channel detection through the performance counters (`linux/module/kg_pmu.c`).

Every CPU has two counters.  Their overflow handler runs in NMI context: it counts, votes for
the user task it interrupted, and from the critical threshold on forces a flush and wakes the
sampler.  The sampler drains the counts and turns them into rates, levels and alerts.

A call of the handler and a run of the sampler are one step each.  The sampler's loop over the
CPUs reads nothing that the alerts it raises write, so a run is split here: first the
judgements of the loop in the order it makes them, then their reports in the same order, then
the relax pass.
-/
import KernelGuard.Model.Posture

namespace KernelGuard

/-- `KG_EV_L1D`, `KG_EV_LLC`. -/
inductive KgEv where
  | l1d
  | llc
  deriving DecidableEq, Repr

/-- `KG_PMU_CALM_WINDOWS`. -/
def kgPmuCalmWindows : Nat := 3

def nsecPerMsec : UInt64 := 1000000

/-- `pmu_window_ms`, `pmu_warn` and `pmu_crit`, all writable at run time. -/
structure KgPmuParams where
  windowMs : UInt32
  warn : UInt32
  crit : UInt32
  deriving DecidableEq, Repr

def kgPmuThresholds (p : KgPmuParams) : UInt32 × UInt32 :=
  let w := max p.warn 1
  (w, max p.crit (w + 1))

/-- The thread group of a task in user mode; the kernel numbers them from 1. -/
structure Tgid where
  val : Int32
  pos : 0 < val
  deriving DecidableEq

/--
What the sampler keeps for one counter: `level[kind]`, `calm[kind]`, `last_alert_ns[kind]`.
The level is one of the `KG_LEVEL_*` and `calm` stays below `KG_PMU_CALM_WINDOWS`, so their
`u8` is not modelled.
-/
structure KgPmuTrack where
  level : UInt32
  calm : Nat
  lastAlertNs : UInt64
  deriving DecidableEq, Repr

/-- One counter of one CPU; `ev` is `ev[kind] != NULL`. -/
structure KgPmuCounter where
  ev : Bool
  ovf : Int64
  track : KgPmuTrack
  deriving DecidableEq

/-- `struct kg_pmu_cpu`. -/
structure KgPmuCpu where
  counter : KgEv → KgPmuCounter
  candTgid : Int32
  candCnt : Int32
  crit : Bool

def KgPmuCpu.setCounter (pc : KgPmuCpu) (kind : KgEv) (c : KgPmuCounter) : KgPmuCpu :=
  { pc with counter := Function.update pc.counter kind c }

/-! ### The overflow handler -/

/-- The majority vote of `kg_pmu_overflow`, one candidate and one counter. -/
def KgPmuCpu.vote (pc : KgPmuCpu) (tgid : Int32) : KgPmuCpu :=
  if pc.candTgid = tgid then { pc with candCnt := pc.candCnt + 1 }
  else if pc.candCnt ≤ 0 then { pc with candTgid := tgid, candCnt := 1 }
  else { pc with candCnt := pc.candCnt - 1 }

/-- What a call of the handler did: counted the overflow, forced a flush, woke the sampler. -/
structure KgPmuOverflow where
  counted : Bool
  forced : Bool
  wake : Bool
  deriving DecidableEq, Repr

/-- `user` is the task that was running, if it was in user mode; `busy` is `kg_self_busy`. -/
def kgPmuOverflow (p : KgPmuParams) (stop busy : Bool) (kind : KgEv) (user : Option Tgid)
    (pc : KgPmuCpu) : KgPmuOverflow × KgPmuCpu :=
  if stop || busy then (⟨false, false, false⟩, pc)
  else
    let n := (pc.counter kind).ovf + 1
    let pc := pc.setCounter kind { pc.counter kind with ovf := n }
    let pc :=
      match user with
      | some tgid => pc.vote tgid.val
      | none => pc
    let crit := (kgPmuThresholds p).2.toUInt64.toInt64
    (⟨true, decide (n ≥ crit), decide (n ≥ crit) && decide (n = crit)⟩, pc)

/-! ### The sampler -/

/-- `denom_ms`: a woken run divides by the whole window all the same. -/
def kgPmuDenom (p : KgPmuParams) (lastNs now : UInt64) : UInt64 :=
  let elapsedMs := max ((now - lastNs) / nsecPerMsec) 1
  max elapsedMs (max p.windowMs 100).toUInt64

def kgPmuRate (n denomMs : UInt64) : UInt64 := n * 1000 / denomMs

def kgPmuLevel (p : KgPmuParams) (rate : UInt64) : UInt32 :=
  let (warn, crit) := kgPmuThresholds p
  if rate ≥ crit.toUInt64 then kgLevelCritical
  else if rate ≥ warn.toUInt64 then kgLevelWatch
  else 0

/-- An escalation a second after the last alert, or a repeat after ten. -/
def KgPmuTrack.due (t : KgPmuTrack) (now : UInt64) (lvl : UInt32) : Bool :=
  (decide (lvl > t.level) && decide (now - t.lastAlertNs ≥ nsecPerSec)) ||
    (lvl != 0 && lvl == t.level && decide (now - t.lastAlertNs ≥ 10 * nsecPerSec))

/-- The three-way branch of the sampler. -/
def KgPmuTrack.judge (t : KgPmuTrack) (now : UInt64) (lvl : UInt32) : KgPmuTrack :=
  if t.due now lvl then { level := lvl, calm := 0, lastAlertNs := now }
  else if lvl < t.level then
    if t.calm + 1 ≥ kgPmuCalmWindows then { t with level := lvl, calm := 0 }
    else { t with calm := t.calm + 1 }
  else { t with calm := 0 }

/-- One pass through the sampler's inner loop: what it drained, computed and found. -/
structure PmuJudged where
  cpu : Nat
  kind : KgEv
  now : UInt64
  params : KgPmuParams
  denomMs : UInt64
  /-- The overflows drained. -/
  n : UInt64
  /-- The bookkeeping it found. -/
  before : KgPmuTrack
  /-- The candidate at that moment; taken only if an alert is due. -/
  tgid : Int32

namespace PmuJudged

variable (j : PmuJudged)

def rate : UInt64 := kgPmuRate j.n j.denomMs

def lvl : UInt32 := kgPmuLevel j.params j.rate

def due : Bool := j.before.due j.now j.lvl

/-- The bookkeeping it left. -/
def after : KgPmuTrack := j.before.judge j.now j.lvl

/-- The arguments of the `kg_report` it makes when an alert is due. -/
def alert : Alert where
  type := if j.kind = .l1d then kgAlertPmuL1dAnomaly else kgAlertPmuL2Anomaly
  level := j.lvl
  p1 := if j.tgid > 0 then j.tgid.toInt64.toUInt64 else 0
  p2 := (j.cpu.toUInt64 <<< 32) ||| j.rate.toUInt32.toUInt64

end PmuJudged

def KgPmuCpu.judged (pc : KgPmuCpu) (p : KgPmuParams) (denomMs now : UInt64) (cpu : Nat)
    (kind : KgEv) : PmuJudged where
  cpu := cpu
  kind := kind
  now := now
  params := p
  denomMs := denomMs
  n := (pc.counter kind).ovf.toUInt64
  before := (pc.counter kind).track
  tgid := pc.candTgid

/-- The body of the inner loop: nothing for a counter the machine does not have. -/
def kgPmuSampleKind (p : KgPmuParams) (denomMs now : UInt64) (cpu : Nat) (kind : KgEv)
    (pc : KgPmuCpu) : List PmuJudged × KgPmuCpu :=
  if !(pc.counter kind).ev then ([], pc)
  else
    let j := pc.judged p denomMs now cpu kind
    let pc := pc.setCounter kind { pc.counter kind with ovf := 0, track := j.after }
    ([j], if j.due then { pc with candTgid := 0, candCnt := 0 } else pc)

def kgPmuSampleCpu (p : KgPmuParams) (denomMs now : UInt64) (cpu : Nat) (pc : KgPmuCpu) :
    List PmuJudged × KgPmuCpu :=
  let (l1d, pc) := kgPmuSampleKind p denomMs now cpu .l1d pc
  let (llc, pc) := kgPmuSampleKind p denomMs now cpu .llc pc
  let js := l1d ++ llc
  (js, { pc with crit := js.any fun j => decide (j.after.level ≥ kgLevelCritical) })

/-- The loop over the CPUs that are up. -/
def kgPmuSampleCpus (p : KgPmuParams) (denomMs now : UInt64) :
    List Nat → (Nat → KgPmuCpu) → List PmuJudged × (Nat → KgPmuCpu)
  | [], t => ([], t)
  | cpu :: rest, t =>
      let (js, pc) := kgPmuSampleCpu p denomMs now cpu (t cpu)
      let (js', t) := kgPmuSampleCpus p denomMs now rest (Function.update t cpu pc)
      (js ++ js', t)

/-- The module's state: parameters, `kg_pmu_stop`, `kg_pmu_last_ns` and the per-CPU records. -/
structure KgPmu where
  params : KgPmuParams
  stop : Bool
  lastNs : UInt64
  cpu : Nat → KgPmuCpu

/-- `for_each_online_cpu`. -/
def Topology.onlineCpus (topo : Topology) : List Nat :=
  (List.range topo.nrCpuIds.val.toNat).filter topo.online

/-- A run of the sampler up to its reports. -/
def kgPmuSample (topo : Topology) (now : UInt64) (m : KgPmu) : List PmuJudged × KgPmu :=
  let denomMs := kgPmuDenom m.params m.lastNs now
  let (js, cpu) := kgPmuSampleCpus m.params denomMs now topo.onlineCpus m.cpu
  (js, { m with lastNs := now, cpu := cpu })

/-! ### Hot-plug and initialisation -/

def KgPmuTrack.zero : KgPmuTrack := ⟨0, 0, 0⟩

/-- The static per-CPU record. -/
def KgPmuCpu.zero : KgPmuCpu := ⟨fun _ => ⟨false, 0, .zero⟩, 0, 0, false⟩

/-- `created kind` says whether perf could create the counter. -/
def kgPmuCpuOnline (created : KgEv → Bool) (pc : KgPmuCpu) : KgPmuCpu :=
  { pc with
    counter := fun kind =>
      { ev := created kind
        ovf := 0
        track := { (pc.counter kind).track with level := 0, calm := 0 } }
    candTgid := 0
    candCnt := 0 }

def kgPmuCpuOffline (pc : KgPmuCpu) : KgPmuCpu :=
  { pc with counter := fun kind => { pc.counter kind with ev := false }, crit := false }

/-- What `kg_pmu_init` leaves behind when it returns 0. -/
def kgPmuInit (p : KgPmuParams) (topo : Topology) (now : UInt64) (created : Nat → KgEv → Bool) :
    KgPmu where
  params := p
  stop := false
  lastNs := now
  cpu := fun cpu =>
    if cpu ∈ topo.onlineCpus then kgPmuCpuOnline (created cpu) .zero else .zero

/-! ### The detector by itself -/

structure PmuSt where
  topo : Topology
  pmu : KgPmu

def KgPmu.setCpu (m : KgPmu) (cpu : Nat) (pc : KgPmuCpu) : KgPmu :=
  { m with cpu := Function.update m.cpu cpu pc }

def Topology.setOnline (topo : Topology) (cpu : Nat) (up : Bool) : Topology :=
  { topo with online := Function.update topo.online cpu up }

/-- A counter that can overflow: it exists, on a CPU that is up. -/
def PmuSt.counting (s : PmuSt) (cpu : Nat) (kind : KgEv) : Bool :=
  decide (cpu ∈ s.topo.onlineCpus) && ((s.pmu.cpu cpu).counter kind).ev

inductive PmuOp where
  | overflow (cpu : Nat) (kind : KgEv) (busy : Bool) (user : Option Tgid)
  | sample (now : UInt64)
  | online (cpu : Nat) (created : KgEv → Bool)
  | offline (cpu : Nat)
  | writeParams (p : KgPmuParams)

/-- What the handler does to the CPU it runs on. -/
def PmuSt.handle (s : PmuSt) (cpu : Nat) (kind : KgEv) (busy : Bool) (user : Option Tgid) :
    KgPmuOverflow × KgPmuCpu :=
  kgPmuOverflow s.pmu.params s.pmu.stop busy kind user (s.pmu.cpu cpu)

def pmuStep (s : PmuSt) : PmuOp → PmuSt
  | .overflow cpu kind busy user =>
      if s.counting cpu kind then
        { s with pmu := s.pmu.setCpu cpu (s.handle cpu kind busy user).2 }
      else s
  | .sample now => { s with pmu := (kgPmuSample s.topo now s.pmu).2 }
  | .online cpu created =>
      if cpu < s.topo.nrCpuIds.val.toNat && !s.topo.online cpu then
        { topo := s.topo.setOnline cpu true
          pmu := s.pmu.setCpu cpu (kgPmuCpuOnline created (s.pmu.cpu cpu)) }
      else s
  | .offline cpu =>
      if s.topo.online cpu then
        { topo := s.topo.setOnline cpu false
          pmu := s.pmu.setCpu cpu (kgPmuCpuOffline (s.pmu.cpu cpu)) }
      else s
  | .writeParams p => { s with pmu := { s.pmu with params := p } }

/-- What an observer of the detector sees. -/
inductive PmuEvent where
  | overflow (cpu : Nat) (kind : KgEv) (user : Option Tgid) (did : KgPmuOverflow)
  | judged (j : PmuJudged)
  | online (cpu : Nat)

def pmuEvents (s : PmuSt) : PmuOp → List PmuEvent
  | .overflow cpu kind busy user =>
      if s.counting cpu kind then [.overflow cpu kind user (s.handle cpu kind busy user).1] else []
  | .sample now => (kgPmuSample s.topo now s.pmu).1.map .judged
  | .online cpu _ =>
      if cpu < s.topo.nrCpuIds.val.toNat && !s.topo.online cpu then [.online cpu] else []
  | .offline _ => []
  | .writeParams _ => []

/-! ### The detector and the guarded table -/

variable {D : Type} (sha : List UInt8 → Option D) (mac : List UInt8 → KgMac)

/-- The CPU or one that shares its core is critical. -/
def kgPmuHot (topo : Topology) (m : KgPmu) (cpu : Nat) : Bool :=
  (topo.siblings cpu).any fun sib => (m.cpu sib).crit

/-- The sampler's second loop: back to the normal strategy where nothing is critical any more. -/
def kgPmuRelax (m : KgPmu) (cpus : List Nat) (s : KgSys D) : KgSys D :=
  cpus.foldl
    (fun s cpu =>
      if !kgPmuHot s.topo m cpu && decide (kgPosture s < kgPostureHigh) &&
          (s.guard.cpu cpu).strategy != (s.guard.cpu cpu).baseStrategy then
        { s with guard := kgMitRelaxCpu sha cpu s.guard }
      else s) s

structure PmuSys (D : Type) where
  sys : KgSys D
  pmu : KgPmu

/-- A whole run of the sampler. -/
def kgPmuSampleFn (env : Env) (s : PmuSys D) : PmuSys D :=
  let (js, m) := kgPmuSample s.sys.topo env.mono s.pmu
  let sys := (js.filter PmuJudged.due).foldl (fun sys j => kgReport sha mac env j.alert sys) s.sys
  { sys := kgPmuRelax sha m s.sys.topo.onlineCpus sys, pmu := m }

/-- A CPU comes up: the probe of `kg_mit_cpu_online`, then the counters. -/
def cpuUp (cpu : Nat) (probe : KgProbe) (created : KgEv → Bool) (s : PmuSys D) : PmuSys D where
  sys := { s.sys with
    guard := kgMitStore sha cpu probe s.sys.guard
    topo := s.sys.topo.setOnline cpu true }
  pmu := s.pmu.setCpu cpu (kgPmuCpuOnline created (s.pmu.cpu cpu))

def cpuDown (cpu : Nat) (s : PmuSys D) : PmuSys D where
  sys := { s.sys with topo := s.sys.topo.setOnline cpu false }
  pmu := s.pmu.setCpu cpu (kgPmuCpuOffline (s.pmu.cpu cpu))

/-- Whatever writes a CPU's strategy or its critical flag, and whatever leads to it. -/
inductive CoreOp where
  | overflow (cpu : Nat) (kind : KgEv) (busy : Bool) (user : Option Tgid)
  | sample (env : Env)
  | writeParams (p : KgPmuParams)
  | report (env : Env) (a : Alert)
  | raise (env : Env) (target trigger : UInt32)
  | set (env : Env) (target : UInt32)
  | decay (env : Env)
  | online (cpu : Nat) (probe : KgProbe) (created : KgEv → Bool)
  | offline (cpu : Nat)

def coreStep (s : PmuSys D) : CoreOp → PmuSys D
  | .overflow cpu kind busy user =>
      { s with pmu := (pmuStep ⟨s.sys.topo, s.pmu⟩ (.overflow cpu kind busy user)).pmu }
  | .sample env => kgPmuSampleFn sha mac env s
  | .writeParams p => { s with pmu := { s.pmu with params := p } }
  | .report env a => { s with sys := kgReport sha mac env a s.sys }
  | .raise env target trigger => { s with sys := kgPostureRaise sha mac env target trigger s.sys }
  | .set env target => { s with sys := (kgPostureSet sha mac env target s.sys).2 }
  | .decay env => { s with sys := kgPosDecayFn sha mac env s.sys }
  | .online cpu probe created =>
      if cpu < s.sys.topo.nrCpuIds.val.toNat && !s.sys.topo.online cpu then
        cpuUp sha cpu probe created s
      else s
  | .offline cpu => if s.sys.topo.online cpu then cpuDown cpu s else s

end KernelGuard
