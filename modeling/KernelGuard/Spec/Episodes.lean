/-
What the escalation engine is for, without its bounds.

For every key there is at most one incident, and the incident knows all arrivals of its
current episode.  Times and counts are natural numbers, nothing is ever evicted, and no
arrival is forgotten while the episode lasts.  The engine's table of 64 incidents, its
ring of 16 arrival times and its 32-bit counter are compared with this in
`Proofs/Refinement.lean`.
-/
import KernelGuard.Proofs.Engine

namespace KernelGuard

/-- An incident since it began, or since it came back after an acknowledgement. -/
structure Episode where
  /-- All arrivals, oldest first. -/
  arrivals : List Nat
  nonempty : arrivals ≠ []
  /-- When the do-actions were last run. -/
  lastRun : Nat
  escalated : Bool
  acked : Bool
  last : KgpAlert

/-- One action run for an incident. -/
structure EpisodeRun where
  action : Nat
  rule : Nat
  alert : KgpAlert
  tier : Nat
  count : Nat
  first : Nat
  deriving DecidableEq, Repr

namespace Episode

def first (ep : Episode) : Nat := ep.arrivals.head ep.nonempty

def latest (ep : Episode) : Nat := ep.arrivals.getLast ep.nonempty

def count (ep : Episode) : Nat := ep.arrivals.length

/-- The `n`-th most recent arrival, if there are so many. -/
def nthLast (ep : Episode) (n : Nat) : Nat := ep.arrivals.getD (ep.count - n) 0

/-- There are `n` arrivals, and the last `n` of them span at most `w` seconds. -/
def burst (ep : Episode) (n w : Nat) : Bool := n ≤ ep.count && ep.latest ≤ ep.nthLast n + w

/-- The actions of `mask` for this episode. -/
def run (pol : KgpPolicy) (k : KgpKey) (mask : UInt32) (tier : Nat) (ep : Episode) :
    List EpisodeRun :=
  (maskActions pol mask).map fun i => ⟨i, k.rule, ep.last, tier, ep.count, ep.first⟩

def begin (now : Nat) (al : KgpAlert) : Episode := ⟨[now], by simp, now, false, false, al⟩

def again (now : Nat) (al : KgpAlert) (ep : Episode) : Episode :=
  { ep with arrivals := ep.arrivals ++ [now], nonempty := by simp, last := al }

/-- The do-actions, unless they were run less than the throttle time ago. -/
def doActions (pol : KgpPolicy) (k : KgpKey) (r : KgpRule) (now : Nat) (begins : Bool)
    (ep : Episode) : Episode × List EpisodeRun :=
  if begins || ep.lastRun + r.throttleS.toNat ≤ now then
    let ep := { ep with lastRun := now }
    (ep, ep.run pol k r.doMask 0)
  else (ep, [])

/-- The then-actions. -/
def escalate (pol : KgpPolicy) (k : KgpKey) (r : KgpRule) (ep : Episode) :
    Episode × List EpisodeRun :=
  let ep := { ep with escalated := true }
  (ep, ep.run pol k r.thenMask 1)

/-- The escalation by repetition, once in an episode. -/
def escalateBurst (pol : KgpPolicy) (k : KgpKey) (r : KgpRule) (ep : Episode) :
    Episode × List EpisodeRun :=
  if r.repeatN ≠ 0 && !ep.escalated && ep.burst r.repeatN.toNat r.repeatWindowS.toNat then
    ep.escalate pol k r
  else (ep, [])

end Episode

/-- A first arrival begins an episode, and so does one after an acknowledgement. -/
def beginsEpisode (old : Option Episode) : Bool :=
  match old with
  | some ep => ep.acked
  | none => true

def episodeArrive (now : Nat) (al : KgpAlert) (old : Option Episode) : Episode :=
  match old with
  | some ep => if ep.acked then .begin now al else ep.again now al
  | none => .begin now al

/-- An arrival under rule `r`. -/
def episodeAlert (pol : KgpPolicy) (k : KgpKey) (r : KgpRule) (now : Nat) (al : KgpAlert)
    (old : Option Episode) : Episode × List EpisodeRun :=
  let base := (episodeArrive now al old).doActions pol k r now (beginsEpisode old)
  let esc := base.1.escalateBurst pol k r
  (esc.1, base.2 ++ esc.2)

/-- A tick: silence is looked at before age. -/
def episodeTick (pol : KgpPolicy) (k : KgpKey) (now : Nat) (ep : Episode) :
    Option Episode × List EpisodeRun :=
  let r := pol.rule k.rule
  if ep.latest + r.resetS.toNat ≤ now then (none, [])
  else if r.unackedS ≠ 0 && !ep.acked && !ep.escalated && ep.first + r.unackedS.toNat ≤ now then
    let esc := ep.escalate pol k r
    (some esc.1, esc.2)
  else (some ep, [])

/-- An acknowledgement covers the sequence numbers up to `upToSeq`, modulo wrap-around. -/
def episodeAck (upToSeq : UInt32) (ep : Episode) : Episode :=
  if 0 ≤ (upToSeq - ep.last.seq).toInt32 then { ep with acked := true } else ep

/-- What an operation does to the incident of key `k`, and what it runs for it. -/
def episodeAct (pol : KgpPolicy) (k : KgpKey) (old : Option Episode) :
    EngOp → Option Episode × List EpisodeRun
  | .alert now al =>
      match k.ruleFor pol al with
      | some r =>
          let one := episodeAlert pol k r now.toNat al old
          (some one.1, one.2)
      | none => (old, [])
  | .tick now =>
      match old with
      | some ep => episodeTick pol k now.toNat ep
      | none => (none, [])
  | .ack upToSeq => (old.map (episodeAck upToSeq), [])

/-- An incident for every key. -/
abbrev Spec := KgpKey → Option Episode

def specInit : Spec := fun _ => none

def specStep (pol : KgpPolicy) (s : Spec) (op : EngOp) : Spec :=
  fun k => (episodeAct pol k (s k) op).1

def specRuns (pol : KgpPolicy) (s : Spec) (op : EngOp) (k : KgpKey) : List EpisodeRun :=
  (episodeAct pol k (s k) op).2

/-- The keys that have an incident. -/
def Spec.live (s : Spec) : Set KgpKey := { k | (s k).isSome = true }

end KernelGuard
