/-
The escalation engine of the monitor (`linux/monitor/kg_policy.c`, `kg_policy.h`).

The engine is a fixed table of incidents and three operations on it.  It runs nothing
itself: an action is a call of the `run` callback, and here these calls are the output
of an operation, in order.  The callback gets pointers into the policy and into the
incident; the record of a call holds what it finds there.
-/
import KernelGuard.Model.Uapi
import Mathlib.Logic.Function.Basic

namespace KernelGuard

def kgpMaxActions : Nat := 16
def kgpMaxRules : Nat := 32
def kgpMaxCodes : Nat := 16
def kgpMaxIncidents : Nat := 64
def kgpMaxArgs : Nat := 16
def kgpMaxRepeat : Nat := 16
def kgpNameLen : Nat := 32

instance : NeZero kgpMaxIncidents := ⟨by decide⟩
instance : NeZero kgpMaxRepeat := ⟨by decide⟩

/-- `enum kgp_level`. -/
def kgpInfo : Int := 0
def kgpWarning : Int := 1
def kgpCritical : Int := 2
def kgpForged : Int := 3

/-- The pseudo alerts kgmon raises itself. -/
def kgpAlertForged : UInt32 := 0x10001
def kgpAlertOverrun : UInt32 := 0x10002
def kgpAlertTamper : UInt32 := 0x10003

/-- `struct kgp_alert`. -/
structure KgpAlert where
  code : UInt32
  level : Int
  seq : UInt32
  param1 : UInt64
  param2 : UInt64
  timeNs : UInt64
  details : List UInt8
  deriving DecidableEq, Repr

def KgpAlert.zero : KgpAlert := ⟨0, 0, 0, 0, 0, 0, []⟩

/-- `struct kgp_action`; `argc` is the length of `argv`. -/
structure KgpAction where
  name : List UInt8
  argv : List (List UInt8)
  timeoutS : UInt32
  deriving DecidableEq, Repr

/-- `struct kgp_rule`; `ncodes` is the length of `codes`. -/
structure KgpRule where
  name : List UInt8
  codes : List UInt32
  minLevel : Int
  throttleS : UInt32
  doMask : UInt32
  repeatN : UInt32
  repeatWindowS : UInt32
  unackedS : UInt32
  thenMask : UInt32
  resetS : UInt32
  deriving DecidableEq, Repr

def KgpRule.zero : KgpRule := ⟨[], [], 0, 0, 0, 0, 0, 0, 0, 0⟩

/-- `struct kgp_policy`; `nactions` and `nrules` are the lengths. -/
structure KgpPolicy where
  actions : List KgpAction
  rules : List KgpRule
  deriving DecidableEq, Repr

/-- `pol->rules[i]`: what lies beyond `nrules` is zeroed memory. -/
def KgpPolicy.rule (pol : KgpPolicy) (i : Nat) : KgpRule := pol.rules.getD i KgpRule.zero

/-- `struct kgp_incident`. -/
structure KgpIncident where
  used : Bool
  rule : Nat
  code : UInt32
  p1 : UInt64
  firstS : UInt64
  lastS : UInt64
  lastRunS : UInt64
  lastSeq : UInt32
  count : UInt32
  recent : Fin kgpMaxRepeat → UInt64
  escalated : Bool
  acked : Bool
  last : KgpAlert

/-- `memset(in, 0, sizeof(*in))`. -/
def KgpIncident.zero : KgpIncident :=
  ⟨false, 0, 0, 0, 0, 0, 0, 0, 0, fun _ => 0, false, false, KgpAlert.zero⟩

/-- The incidents of a `struct kgp_engine`; the policy is passed beside it. -/
abbrev KgpEngine := Fin kgpMaxIncidents → KgpIncident

/-- `kgp_init`. -/
def kgpInit : KgpEngine := fun _ => KgpIncident.zero

/-- One call of the `run` callback: the action's and the rule's index, and the other arguments. -/
structure KgpRun where
  action : Nat
  rule : Nat
  alert : KgpAlert
  tier : Nat
  count : UInt32
  firstS : UInt64
  deriving DecidableEq, Repr

def ruleMatches (r : KgpRule) (al : KgpAlert) : Bool :=
  if al.level < r.minLevel then false
  else if r.codes.length = 0 then true
  else r.codes.any (· = al.code)

/-- The actions of `mask`, in the order of their definition. -/
def maskActions (pol : KgpPolicy) (mask : UInt32) : List Nat :=
  (List.range pol.actions.length).filter fun i => mask &&& ((1 : UInt32) <<< UInt32.ofNat i) ≠ 0

def runMask (pol : KgpPolicy) (mask : UInt32) (inc : KgpIncident) (tier : Nat) : List KgpRun :=
  (maskActions pol mask).map fun i => ⟨i, inc.rule, inc.last, tier, inc.count, inc.firstS⟩

/-- The incident is in use, for this rule, code and first parameter. -/
def KgpIncident.isFor (inc : KgpIncident) (rule : Nat) (code : UInt32) (p1 : UInt64) : Bool :=
  inc.used && inc.rule = rule && inc.code = code && inc.p1 = p1

/-- The scan of `incident_slot`, with its two candidates so far. -/
def incidentScan (e : KgpEngine) (rule : Nat) (code : UInt32) (p1 : UInt64) :
    List (Fin kgpMaxIncidents) → Option (Fin kgpMaxIncidents) → Option (Fin kgpMaxIncidents) →
      Option (Fin kgpMaxIncidents) × Bool
  | [], freeSlot, oldest => (freeSlot.or oldest, true)
  | i :: rest, freeSlot, oldest =>
      if (e i).isFor rule code p1 then (some i, false)
      else
        incidentScan e rule code p1 rest
          (if !(e i).used && freeSlot.isNone then some i else freeSlot)
          (match oldest with
            | none => if (e i).used then some i else none
            | some o => if (e i).used && (e i).lastS < (e o).lastS then some i else some o)

/--
`incident_slot`: the incident for this key, or a free slot, or the least recently used
one; the flag is `fresh`.  The table is not empty, so there is always a slot.
-/
def incidentSlot (e : KgpEngine) (rule : Nat) (code : UInt32) (p1 : UInt64) :
    Fin kgpMaxIncidents × Bool :=
  let r := incidentScan e rule code p1 (List.finRange kgpMaxIncidents) none none
  (r.1.getD 0, r.2)

/-- The bookkeeping of one arrival, up to and including `count++`. -/
def KgpIncident.arrive (ri : Nat) (now : UInt64) (al : KgpAlert) (fresh : Bool)
    (inc : KgpIncident) : KgpIncident :=
  let inc :=
    if fresh then
      { KgpIncident.zero with
        used := true, rule := ri, code := al.code, p1 := al.param1, firstS := now }
    else inc
  { inc with
    last := al
    lastS := now
    lastSeq := al.seq
    recent := Function.update inc.recent (Fin.ofNat kgpMaxRepeat inc.count.toNat) now
    count := inc.count + 1 }

/-- The do-actions: on a fresh incident, or when the throttle has run out. -/
def KgpIncident.runBase (pol : KgpPolicy) (r : KgpRule) (now : UInt64) (fresh : Bool)
    (inc : KgpIncident) : KgpIncident × List KgpRun :=
  if fresh || now - inc.lastRunS ≥ r.throttleS.toUInt64 then
    let inc := { inc with lastRunS := now }
    (inc, runMask pol r.doMask inc 0)
  else (inc, [])

/-- The escalation by repetition: the Nth most recent arrival is recent enough. -/
def KgpIncident.runRepeat (pol : KgpPolicy) (r : KgpRule) (now : UInt64) (inc : KgpIncident) :
    KgpIncident × List KgpRun :=
  if r.repeatN ≠ 0 && !inc.escalated && inc.count ≥ r.repeatN then
    let nth := inc.recent (Fin.ofNat kgpMaxRepeat (inc.count - r.repeatN).toNat)
    if now - nth ≤ r.repeatWindowS.toUInt64 then
      let inc := { inc with escalated := true }
      (inc, runMask pol r.thenMask inc 1)
    else (inc, [])
  else (inc, [])

/-- The body of the loop in `kgp_alert`, for a rule that matches. -/
def kgpAlertRule (pol : KgpPolicy) (ri : Nat) (r : KgpRule) (now : UInt64) (al : KgpAlert)
    (e : KgpEngine) : KgpEngine × List KgpRun :=
  let slot := incidentSlot e ri al.code al.param1
  -- an acknowledged incident that comes back is a new episode
  let fresh := slot.2 || (e slot.1).acked
  let inc := (e slot.1).arrive ri now al fresh
  let base := inc.runBase pol r now fresh
  let esc := base.1.runRepeat pol r now
  (Function.update e slot.1 esc.1, base.2 ++ esc.2)

/-- The loop of `kgp_alert`, from rule `ri` on. -/
def kgpAlertFrom (pol : KgpPolicy) (now : UInt64) (al : KgpAlert) :
    Nat → List KgpRule → KgpEngine → KgpEngine × List KgpRun
  | _, [], e => (e, [])
  | ri, r :: rest, e =>
      if ruleMatches r al then
        let one := kgpAlertRule pol ri r now al e
        let more := kgpAlertFrom pol now al (ri + 1) rest one.1
        (more.1, one.2 ++ more.2)
      else kgpAlertFrom pol now al (ri + 1) rest e

/-- `kgp_alert`: every matching rule, in order. -/
def kgpAlert (pol : KgpPolicy) (now : UInt64) (al : KgpAlert) (e : KgpEngine) :
    KgpEngine × List KgpRun :=
  kgpAlertFrom pol now al 0 pol.rules e

/-- The body of the loop in `kgp_tick`: forget, or escalate what nobody acknowledged. -/
def KgpIncident.tick (pol : KgpPolicy) (now : UInt64) (inc : KgpIncident) :
    KgpIncident × List KgpRun :=
  if !inc.used then (inc, [])
  else
    let r := pol.rule inc.rule
    if now - inc.lastS ≥ r.resetS.toUInt64 then (KgpIncident.zero, [])
    else if r.unackedS ≠ 0 && !inc.acked && !inc.escalated
        && now - inc.firstS ≥ r.unackedS.toUInt64 then
      let inc := { inc with escalated := true }
      (inc, runMask pol r.thenMask inc 1)
    else (inc, [])

/-- `kgp_tick`: slot after slot, none of which looks at another. -/
def kgpTick (pol : KgpPolicy) (now : UInt64) (e : KgpEngine) : KgpEngine × List KgpRun :=
  (fun i => ((e i).tick pol now).1,
    (List.finRange kgpMaxIncidents).flatMap fun i => ((e i).tick pol now).2)

/-- `(int32_t)(up_to_seq - last_seq) >= 0`. -/
def seqCovered (upToSeq seq : UInt32) : Bool := (upToSeq - seq).toNat < 2 ^ 31

/-- `kgp_ack`. -/
def kgpAck (upToSeq : UInt32) (e : KgpEngine) : KgpEngine :=
  fun i => if (e i).used && seqCovered upToSeq (e i).lastSeq then { e i with acked := true } else e i

end KernelGuard
