/-
The kernel side of the notification channel (`linux/module/kg_comms.c`).

`kg_comms_notify` runs under the ring's spinlock, so it is one function on the
channel's state: the rate limiter may refuse it, the HMAC may fail, and otherwise
the next sequence number is published.  `Model/Seqlock.lean` takes the publication
apart into its single stores; here it is one step.
-/
import KernelGuard.Model.Uapi
import Mathlib.Logic.Function.Basic

namespace KernelGuard

/-- `KG_RL_BURST` and `KG_RL_INTERVAL_NS` (100 ms). -/
def kgRlBurst : UInt32 := 32
def kgRlIntervalNs : UInt64 := 100000000

/--
What one call reads from outside the module: `ktime_get_ns`, `ktime_get_real_ns`
and the return value of the crypto API.  A `ktime_t` is a signed 64-bit count of
nanoseconds, so the monotonic clock stays below `2 ^ 63`.
-/
structure Env where
  mono : UInt64
  mono_lt : mono.toNat < 2 ^ 63
  real : UInt64
  hmacRet : Int

/-- `struct kg_comms` with the counters of `kg_stats` it drives; `alive` is `kc != NULL`. -/
structure KgComms where
  alive : Bool
  ring : KgSharedRegion
  rlLastNs : UInt64
  rlTokens : UInt32
  /-- `uevent_work` is queued. -/
  ueventQueued : Bool
  notificationsSent : UInt64
  notificationsDropped : UInt64

/-- The token bucket for everything below critical. -/
def kgRlAllow (now : UInt64) (c : KgComms) : Bool × KgComms :=
  let add := (now - c.rlLastNs) / kgRlIntervalNs
  let c :=
    if add ≠ 0 then
      { c with
        rlTokens := (min kgRlBurst.toUInt64 (c.rlTokens.toUInt64 + add)).toUInt32
        rlLastNs := c.rlLastNs + add * kgRlIntervalNs }
    else c
  if c.rlTokens = 0 then (false, c)
  else (true, { c with rlTokens := c.rlTokens - 1 })

/-- The notification a call builds, with its HMAC over the first 40 bytes. -/
def notificationOf (mac : List UInt8 → KgMac) (seq : UInt32) (timestamp : UInt64) (a : Alert) :
    KgNotification :=
  let n : KgNotification :=
    { KgNotification.zero with
      magic := kgNotifyMagic
      sequence := seq
      alertType := a.type
      alertLevel := a.level
      timestamp := timestamp
      param1 := a.p1
      param2 := a.p2 }
  { n with hmac := mac n.authBytes }

/-- Publish `n`: the slot, then `write_index`. -/
def KgSharedRegion.publish (r : KgSharedRegion) (n : KgNotification) : KgSharedRegion :=
  { writeIndex := n.sequence + 1
    driverNonce := r.driverNonce + 1
    notifications := Function.update r.notifications (slotOf n.sequence) n }

/--
`kg_comms_notify`: `-ENODEV` before the channel exists, `-EBUSY` when the limiter
refuses, the crypto error when the HMAC fails (the sequence number is handed back),
and 0 when the notification is in the ring.
-/
def kgCommsNotify (mac : List UInt8 → KgMac) (env : Env) (a : Alert) (c : KgComms) :
    Int × KgComms :=
  if !c.alive then (-19, c)
  else
    let allowed := if a.level < kgLevelCritical then kgRlAllow env.mono c else (true, c)
    let c := allowed.2
    if !allowed.1 then
      (-16, { c with notificationsDropped := c.notificationsDropped + 1 })
    else if env.hmacRet ≠ 0 then
      -- `driver_nonce++`, and the `driver_nonce--` that hands the number back
      let nonce := c.ring.driverNonce + 1
      (env.hmacRet, { c with ring := { c.ring with driverNonce := nonce - 1 } })
    else
      let n := notificationOf mac c.ring.driverNonce env.real a
      (0, { c with
        ring := c.ring.publish n
        notificationsSent := c.notificationsSent + 1
        ueventQueued := c.ueventQueued || decide (a.level ≥ kgLevelWatch) })

/-- The zeroed page `kg_comms_init` maps. -/
def KgSharedRegion.zero : KgSharedRegion := ⟨0, 0, fun _ => KgNotification.zero⟩

/-- `kg_comms_init` when its allocations succeed, at monotonic time `now`. -/
def kgCommsInit (now : UInt64) : KgComms :=
  { alive := true
    ring := KgSharedRegion.zero
    rlLastNs := now
    rlTokens := kgRlBurst
    ueventQueued := false
    notificationsSent := 0
    notificationsDropped := 0 }

end KernelGuard
