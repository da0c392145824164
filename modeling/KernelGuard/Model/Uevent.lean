/-
The fallback channel (`kg_uevent_workfn` and `kg_comms_set_device` of
`linux/module/kg_comms.c`): uevents sent from a work item that follows the ring with a
cursor of its own.

Three parties share the state: callers of `kg_comms_notify`, the workqueue that runs the
item, and whoever sets or clears the device.  `queue_work` marks the item queued, also while
an instance of it runs; the workqueue runs one instance at a time.  What the work reads and
writes under the lock is one step, and `kobject_uevent_env`, which follows it, belongs to the
same step: no other instance can come between.
-/
import KernelGuard.Model.Comms
import KernelGuard.Model.Monitor
import KernelGuard.Lib.Run

namespace KernelGuard

open Bytes

variable {δ : Type}

/-- `struct kg_comms` with the fields of the fallback channel; `δ` is `struct device`. -/
structure KgFallback (δ : Type) where
  comms : KgComms
  dev : Option δ
  ueCursor : UInt32
  /-- An instance of `kg_uevent_workfn` is between two turns of its loop. -/
  running : Bool
  fallbackSignalsSent : UInt64

/-- A call of `kobject_uevent_env`: the device, and the notification it is about. -/
structure Uevent (δ : Type) where
  dev : δ
  note : KgNotification

/-- `envp`: uevents are world-readable, so they carry no addresses and no parameters. -/
def Uevent.envp (u : Uevent δ) : List CStr :=
  [ str "KERNELGUARD_ALERT=0x" ++ hexText 4 u.note.alertType.toNat,
    str "KERNELGUARD_LEVEL=" ++ decText u.note.alertLevel.toNat,
    str "KERNELGUARD_SEQ=" ++ decText u.note.sequence.toNat ]

/-- The position the next turn takes: the cursor, or the oldest one left when it was lapped. -/
def KgFallback.taken (c : KgFallback δ) : UInt32 :=
  if c.comms.ring.writeIndex - c.ueCursor > UInt32.ofNat kgNotifySlots then
    c.comms.ring.writeIndex - UInt32.ofNat kgNotifySlots
  else c.ueCursor

/--
One turn of `kg_uevent_workfn`'s loop: the run ends without a device or with nothing left to
read, and otherwise the cursor moves on and a valid notification that is not informational
gives a uevent.  `ret` is what `kobject_uevent_env` returns.
-/
def kgUeventTurn (ret : Int) (c : KgFallback δ) : List (Uevent δ) × KgFallback δ :=
  match c.dev with
  | none => ([], { c with running := false })
  | some dev =>
      if c.ueCursor = c.comms.ring.writeIndex then ([], { c with running := false })
      else
        let i := c.taken
        let snap := c.comms.ring.notifications (slotOf i)
        let c := { c with ueCursor := i + 1 }
        if ¬ (snap.magic = kgNotifyMagic ∧ snap.sequence = i) ∨ snap.alertLevel < kgLevelWatch then
          ([], c)
        else if ret = 0 then
          ([⟨dev, snap⟩], { c with fallbackSignalsSent := c.fallbackSignalsSent + 1 })
        else ([⟨dev, snap⟩], c)

/--
`kg_comms_set_device`: a new device queues the work, so that what was raised before is sent;
taking the device away cancels the work and waits for an instance that still runs.
-/
def kgCommsSetDevice (dev : Option δ) (c : KgFallback δ) : KgFallback δ :=
  if !c.comms.alive then c
  else if dev.isSome then { c with dev := dev, comms := { c.comms with ueventQueued := true } }
  else { c with dev := dev, running := false, comms := { c.comms with ueventQueued := false } }

/-- The workqueue takes the item off its list and calls it. -/
def startWork (c : KgFallback δ) : KgFallback δ :=
  if c.comms.ueventQueued && !c.running then
    { c with running := true, comms := { c.comms with ueventQueued := false } }
  else c

/-- The steps of the system. -/
inductive UeAct (δ : Type) where
  | notify (env : Env) (a : Alert)
  | start
  | turn (ret : Int)
  | setDevice (dev : Option δ)

def ueStep (mac : List UInt8 → KgMac) (c : KgFallback δ) : UeAct δ → KgFallback δ
  | .notify env a => { c with comms := (kgCommsNotify mac env a c.comms).2 }
  | .start => startWork c
  | .turn ret => if c.running then (kgUeventTurn ret c).2 else c
  | .setDevice dev => kgCommsSetDevice dev c

/-- The uevents a step attempts. -/
def ueSent (c : KgFallback δ) : UeAct δ → List (Uevent δ)
  | .turn ret => if c.running then (kgUeventTurn ret c).1 else []
  | _ => []

/-- The notification a step puts in the ring. -/
def uePublished (mac : List UInt8 → KgMac) (c : KgFallback δ) : UeAct δ → List KgNotification
  | .notify env a =>
      if (kgCommsNotify mac env a c.comms).1 = 0 then
        [notificationOf mac c.comms.ring.driverNonce env.real a]
      else []
  | _ => []

/-- The channel after `kg_comms_init`, which zeroes the cursor and sets no device. -/
def ueInit (now : UInt64) : KgFallback δ := ⟨kgCommsInit now, none, 0, false, 0⟩

end KernelGuard
