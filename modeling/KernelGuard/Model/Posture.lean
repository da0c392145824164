/-
Alert dispatch and the graduated response (`linux/module/kg_state.c`, `kg_posture.c`).

`kg_report` delivers an alert and dispatches it; dispatching may raise the posture;
entering fail-safe reports an alert of its own.  The functions of that cycle take
the report function as an argument, and `kgReport` ties the knot: the inner report
is the fail-safe announcement, whose dispatch is the `default` case, so two levels
are the whole recursion (`kgReport_eq` in `Proofs/Posture.lean`).

Each function is one step of the module at one instant, with the clocks in `Env`.
Work that only reads the state (cache flushes, kicks of the scanners, log lines)
is not modelled.
-/
import KernelGuard.Model.Guard
import KernelGuard.Model.Comms

namespace KernelGuard

/-- `KG_POSTURE_MAX_DECAY_S`. -/
def kgPostureMaxDecayS : UInt32 := 1000000

def nsecPerSec : UInt64 := 1000000000

/-- The bookkeeping `kg_pos_lock` protects; `decayPending` is the delayed work's state. -/
structure KgPos where
  ready : Bool
  untrusted : Bool
  sinceNs : UInt64
  triggerNs : UInt64
  triggerMono : UInt64
  trigger : UInt32
  entered : UInt32 → UInt64
  decayPending : Bool

/-- The module parameters the posture code reads; both are writable at run time. -/
structure KgParams where
  maxPosture : UInt32
  postureDecayS : UInt32
  deriving DecidableEq, Repr

/-- What the CPU code asks the kernel: which CPUs are up, and who shares a core. -/
structure Topology where
  nrCpuIds : NrCpuIds
  online : Nat → Bool
  siblings : Nat → List Nat

structure KgSys (D : Type) where
  guard : KgGuard D
  comms : KgComms
  pos : KgPos
  params : KgParams
  topo : Topology
  /-- `kg_state_corrupt_reported` of `kg_integrity.c`. -/
  corruptReported : Bool

variable {D : Type} (sha : List UInt8 → Option D) (mac : List UInt8 → KgMac)

def kgPosture (s : KgSys D) : UInt32 := s.guard.hdr.posture

def kgPosDecayS (s : KgSys D) : UInt32 := min s.params.postureDecayS kgPostureMaxDecayS

/-- Lock held: (re)start the quiet-period timer. -/
def kgPosArmDecayLocked (s : KgSys D) : KgSys D :=
  if s.pos.ready && kgPosDecayS s != 0 && kgPosture s == kgPostureElevated then
    { s with pos := { s.pos with decayPending := true } }
  else s

/-- Lock held: record that the posture changed to `target` and apply it. -/
def kgPosApplyLocked (env : Env) (target : UInt32) (s : KgSys D) : KgSys D :=
  { s with
    guard := kgMitSetPosture sha target s.guard
    pos := { s.pos with
      sinceNs := env.real
      entered := Function.update s.pos.entered target (s.pos.entered target + 1) } }

/-- The type of `kg_report`, for the functions it is handed to. -/
abbrev Report (D : Type) := Env → Alert → KgSys D → KgSys D

/-- What follows a raise, with no lock held; only the fail-safe entry reports. -/
def kgPosAfterUp (report : Report D) (env : Env) (target : UInt32) (s : KgSys D) : KgSys D :=
  if target = kgPostureFailsafe then
    report env ⟨kgAlertFailSafeEntered, kgLevelCritical, 0, 0⟩ s
  else s

def kgPostureRaiseWith (report : Report D) (env : Env) (target trigger : UInt32) (s : KgSys D) :
    KgSys D :=
  let cap := min s.params.maxPosture kgPostureFailsafe
  let target := min target cap
  if !s.pos.ready then s
  else
    let untrusted := s.pos.untrusted || decide (trigger = kgAlertSharedStateCorrupt)
    let s := { s with pos := { s.pos with untrusted := untrusted } }
    let old := kgPosture s
    -- A trigger that does not raise anything still counts as "not quiet yet".
    let s :=
      if target ≥ kgPostureElevated then
        { s with pos := { s.pos with
          triggerNs := env.real, triggerMono := env.mono, trigger := trigger } }
      else s
    let up := decide (target > old)
    let s := if up then kgPosApplyLocked sha env target s else s
    let s := kgPosArmDecayLocked s
    if up then kgPosAfterUp report env target s else s

/-- Escalate the SMT siblings of `cpu` that are up. -/
def kgMitFlushSiblings (cpu : Int) (s : KgSys D) : KgSys D :=
  if cpu < 0 || cpu ≥ s.topo.nrCpuIds.val.toNat then s
  else
    (s.topo.siblings cpu.toNat).foldl
      (fun s sib =>
        if sib = cpu.toNat || !s.topo.online sib then s
        else { s with guard := kgMitEscalateCpu sha sib s.guard }) s

/-- The cross-module event router. -/
def kgDispatchWith (report : Report D) (env : Env) (a : Alert) (s : KgSys D) : KgSys D :=
  let raise := fun target s => kgPostureRaiseWith sha report env target a.type s
  if a.type = kgAlertPmuL1dAnomaly ∨ a.type = kgAlertPmuL2Anomaly then
    if a.level ≥ kgLevelCritical then
      let cpu := asInt (a.p2 >>> 32).toUInt32
      let s :=
        if cpu ≥ 0 ∧ cpu < s.topo.nrCpuIds.val.toNat ∧ s.topo.online cpu.toNat then
          kgMitFlushSiblings sha cpu { s with guard := kgMitEscalateCpu sha cpu s.guard }
        else s
      raise kgPostureElevated s
    else s
  else if a.type = kgAlertUnauthorizedDma then raise kgPostureElevated s
  else if a.type = kgAlertPciDiscrepancy then raise kgPostureElevated s
  else if a.type = kgAlertUnauthorizedKbdFilter ∨ a.type = kgAlertKbdFilterNeutralized ∨
      a.type = kgAlertDeviceBmeDisabled then raise kgPostureElevated s
  else if a.type = kgAlertModuleLoaded then
    if a.level ≥ kgLevelWatch then raise kgPostureElevated s else s
  else if a.type = kgAlertVulnDriver then
    raise (if a.level ≥ kgLevelCritical then kgPostureHigh else kgPostureElevated) s
  else if a.type = kgAlertDriverBlocked then
    if a.level ≥ kgLevelCritical then raise kgPostureElevated s else s
  else if a.type = kgAlertIdtHook ∨ a.type = kgAlertCtrlRegTamper then
    if a.level ≥ kgLevelCritical then raise kgPostureHigh s else s
  else if a.type = kgAlertTextPatch ∨ a.type = kgAlertDispatchHook then
    if a.level ≥ kgLevelCritical then raise kgPostureFailsafe s else s
  else if a.type = kgAlertSharedStateCorrupt then raise kgPostureFailsafe s
  else s

/-- `kg_report`: deliver first, then dispatch. -/
def kgReportWith (report : Report D) : Report D := fun env a s =>
  kgDispatchWith sha report env a { s with comms := (kgCommsNotify mac env a s.comms).2 }

/-- Two levels: the inner report is the fail-safe announcement, which dispatches nothing. -/
def kgReport : Report D := kgReportWith sha mac (kgReportWith sha mac fun _ _ s => s)

def kgPostureRaise (env : Env) (target trigger : UInt32) (s : KgSys D) : KgSys D :=
  kgPostureRaiseWith sha (kgReport sha mac) env target trigger s

/-- The audit trail of a change nobody was told about by another alert. -/
def kgPosAnnounce (env : Env) (old new why trigger : UInt32) (s : KgSys D) : KgSys D :=
  kgReport sha mac env
    { type := kgAlertPostureChanged
      level := if why = kgPostureWhyDecay then kgLevelInfo else kgLevelWatch
      p1 := (old.toUInt64 <<< 32) ||| new.toUInt64
      p2 := (why.toUInt64 <<< 32) ||| trigger.toUInt64 } s

/-- The delayed work fires: it is no longer pending, unless it re-arms itself. -/
def kgPosDecayFn (env : Env) (s : KgSys D) : KgSys D :=
  let secs := kgPosDecayS s
  let s := { s with pos := { s.pos with decayPending := false } }
  if s.pos.ready && secs != 0 && kgPosture s == kgPostureElevated then
    let due := s.pos.triggerMono + secs.toUInt64 * nsecPerSec
    if env.mono ≥ due then
      let trigger := s.pos.trigger
      kgPosAnnounce sha mac env kgPostureElevated kgPostureNormal kgPostureWhyDecay trigger
        (kgPosApplyLocked sha env kgPostureNormal s)
    else { s with pos := { s.pos with decayPending := true } }
  else s

/-- `KG_IOC_SET_POSTURE`: `-EINVAL`, `-ENODEV`, `-EUCLEAN`, or 0. -/
def kgPostureSet (env : Env) (target : UInt32) (s : KgSys D) : Int × KgSys D :=
  if target ≥ kgPostureCount then (-22, s)
  else if !s.pos.ready then (-19, s)
  else
    let old := kgPosture s
    if target = old then (0, s)
    else if target < old ∧ old ≥ kgPostureHigh ∧ s.pos.untrusted then (-117, s)
    else
      let trigger := s.pos.trigger
      let s := kgPosApplyLocked sha env target s
      -- An operator step restarts the quiet period.
      let s := { s with pos := { s.pos with triggerMono := env.mono } }
      let s := kgPosArmDecayLocked s
      let s := if target > old then kgPosAfterUp (kgReport sha mac) env target s else s
      (0, kgPosAnnounce sha mac env old target kgPostureWhyOperator trigger s)

/--
The policy-state check of `kg_integ_workfn`.  The control-register and text checks
that the same work item makes before it reach this state only through the alerts
they report, which are `kgReport` steps of their own.
-/
def kgIntegWorkfn [DecidableEq D] (env : Env) (s : KgSys D) : KgSys D :=
  if kgGuardVerify sha s.guard then { s with corruptReported := false }
  else if !s.corruptReported then
    kgReport sha mac env ⟨kgAlertSharedStateCorrupt, kgLevelCritical, 0, 0⟩
      { s with corruptReported := true }
  else s

/-- `kg_posture_init`: the ladder is ready, at the bottom. -/
def kgPostureInit (real : UInt64) : KgPos :=
  { ready := true
    untrusted := false
    sinceNs := real
    triggerNs := 0
    triggerMono := 0
    trigger := 0
    entered := fun p => if p = kgPostureNormal then 1 else 0
    decayPending := false }

end KernelGuard
