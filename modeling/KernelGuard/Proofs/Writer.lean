/-
The writer's side of the ring, over any history of calls.

`kg_comms_notify` has three ways out: the rate limiter drops the call, the HMAC fails
and the sequence number is handed back, or the notification is published.  Only the
last one leaves a trace in the shared page.  The calls that took it are therefore all
there is to say about the page: the two counters show how many there were, and the last
16 of them are in their slots.

The proof is one induction over the calls from the end of the history: the last call
has published, and its notification is in its slot with the sixteenth before it
overwritten, or it has failed and the page is as it was.  That the page shows the
last 16 is then a fact about rings; that the notification in a slot is the one of a
certain call is carried along by `Carries`, which names the call by its number among
the successful ones.
-/
import KernelGuard.Proofs.Drain

namespace KernelGuard

open Run Ring

variable (mac : List UInt8 → KgMac)

/-- A call of `kg_comms_notify`, with what it reads from outside the module. -/
structure NotifyCall where
  env : Env
  alert : Alert

def notifyStep (c : KgComms) (call : NotifyCall) : KgComms :=
  (kgCommsNotify mac call.env call.alert c).2

/-- The call, if it returns 0. -/
def succeeding (c : KgComms) (call : NotifyCall) : List NotifyCall :=
  if (kgCommsNotify mac call.env call.alert c).1 = 0 then [call] else []

/-- `n` is notification number `i`, made by `call`. -/
structure Carries (i : Nat) (call : NotifyCall) (n : KgNotification) : Prop where
  magic : n.magic = kgNotifyMagic
  sequence : n.sequence = UInt32.ofNat i
  alertType : n.alertType = call.alert.type
  alertLevel : n.alertLevel = call.alert.level
  timestamp : n.timestamp = call.env.real
  param1 : n.param1 = call.alert.p1
  param2 : n.param2 = call.alert.p2
  hmac : n.hmac = mac n.authBytes

theorem notificationOf_carries (i : Nat) (call : NotifyCall) :
    Carries mac i call (notificationOf mac (UInt32.ofNat i) call.env.real call.alert) :=
  ⟨rfl, rfl, rfl, rfl, rfl, rfl, rfl, rfl⟩

/-- What the calls in `done` have published, numbered from 0. -/
def notificationsOf (done : List NotifyCall) : List KgNotification :=
  done.mapIdx fun i call => notificationOf mac (UInt32.ofNat i) call.env.real call.alert

@[simp] theorem length_notificationsOf (done : List NotifyCall) :
    (notificationsOf mac done).length = done.length := by
  simp [notificationsOf]

theorem notificationsOf_snoc (done : List NotifyCall) (call : NotifyCall) :
    notificationsOf mac (done ++ [call]) = notificationsOf mac done
      ++ [notificationOf mac (UInt32.ofNat done.length) call.env.real call.alert] := by
  simp [notificationsOf, List.mapIdx_append]

theorem publish_slot (r : KgSharedRegion) (n : KgNotification) :
    (r.publish n).notifications (slotOf n.sequence) = n :=
  Function.update_self _ _ _

theorem publish_other (r : KgSharedRegion) {n : KgNotification} {j : Fin kgNotifySlots}
    (hj : j ≠ slotOf n.sequence) : (r.publish n).notifications j = r.notifications j :=
  Function.update_of_ne hj _ _

/-- The page between two calls is what the successful ones have made of it. -/
theorem channelHolds_run (now : UInt64) (calls : List NotifyCall) :
    ChannelHolds mac (exec (notifyStep mac) (kgCommsInit now) calls)
      (notificationsOf mac
        (outputs (notifyStep mac) (succeeding mac) (kgCommsInit now) calls)) := by
  induction calls using List.reverseRecOn with
  | nil => exact ⟨rfl, rfl, by intro i n hn; simp [outputs, notificationsOf] at hn, .nil _ _⟩
  | append_singleton calls call ih =>
      have hcall := ih.call mac call.env call.alert
      rw [exec_snoc, outputs_snoc]
      rw [ih.nonce, length_notificationsOf] at hcall
      unfold succeeding
      by_cases hret : (kgCommsNotify mac call.env call.alert
          (exec (notifyStep mac) (kgCommsInit now) calls)).1 = 0
      · rw [if_pos hret] at hcall ⊢
        rw [notificationsOf_snoc]
        exact hcall
      · rw [if_neg hret] at hcall ⊢
        rw [List.append_nil]
        exact hcall

/--
**The ring writer.**  After any calls, the two counters agree and show how many of them
succeeded, and the last 16 that did are in their slots.  The next call publishes exactly
the next number, or leaves the page as it is.
-/
theorem ring_writer_run (now : UInt64) (calls : List NotifyCall) :
    let c := exec (notifyStep mac) (kgCommsInit now) calls
    let done := outputs (notifyStep mac) (succeeding mac) (kgCommsInit now) calls
    c.ring.driverNonce = c.ring.writeIndex ∧
      c.ring.writeIndex = UInt32.ofNat done.length ∧
      (∀ i call, done[i]? = some call → done.length ≤ i + kgNotifySlots →
        Carries mac i call (c.ring.notifications (slotOf (UInt32.ofNat i)))) ∧
      ∀ call : NotifyCall,
        let r := kgCommsNotify mac call.env call.alert c
        (r.1 ≠ 0 → r.2.ring = c.ring) ∧
          (r.1 = 0 → r.2.ring.driverNonce = c.ring.driverNonce + 1 ∧
            r.2.ring.writeIndex = c.ring.writeIndex + 1 ∧
            Carries mac done.length call (r.2.ring.notifications (slotOf c.ring.writeIndex)) ∧
            ∀ j, j ≠ slotOf c.ring.writeIndex →
              r.2.ring.notifications j = c.ring.notifications j) := by
  intro c done
  have h : ChannelHolds mac c (notificationsOf mac done) := channelHolds_run mac now calls
  have hnonce := h.nonce
  have hindex := h.writeIndex
  rw [length_notificationsOf] at hnonce hindex
  refine ⟨hnonce.trans hindex.symm, hindex, ?_, ?_⟩
  · intro i call hcall hnear
    have hn : (notificationsOf mac done)[i]?
        = some (notificationOf mac (UInt32.ofNat i) call.env.real call.alert) := by
      simp [notificationsOf, hcall]
    rw [slotOf_ofNat, h.holds i _ hn (by simpa using hnear)]
    exact notificationOf_carries mac i call
  · intro call r
    obtain ⟨-, ⟨hret, hring⟩ | ⟨hret, hring⟩⟩ := kgCommsNotify_cases mac call.env call.alert c
    · refine ⟨fun hne => absurd hret hne, fun _ => ?_⟩
      rw [hnonce] at hring
      rw [show r.2.ring = _ from hring, hnonce, hindex]
      refine ⟨by rw [← hnonce]; rfl, rfl, ?_, ?_⟩
      · have hslot := publish_slot c.ring
          (notificationOf mac (UInt32.ofNat done.length) call.env.real call.alert)
        rw [(notificationOf_carries mac done.length call).sequence] at hslot
        rw [hslot]
        exact notificationOf_carries mac done.length call
      · intro j hj
        exact publish_other c.ring hj
    · exact ⟨fun _ => hring, fun hzero => absurd hzero hret⟩

end KernelGuard
