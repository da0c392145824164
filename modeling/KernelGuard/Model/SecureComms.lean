/-
The Windows notification channel: `SecureCommNotify` (`windows/src/secure_comms.c`) and the
thread that polls the ring (`PollThreadProc`, `windows/usermode/driver_comm.c`).

The shared region has the layout of the Linux one, and its constants have the same values, so
`KgSharedRegion` and `KgNotification` stand for `SHARED_MEM_REGION` and `SECURE_NOTIFICATION`.
What differs is the numbering: a call claims its slot with `DriverNonce` and announces it with
`WriteIndex`, and the agent counts for itself.

A call and an iteration of the polling loop are single steps.  Of an `ALERT_RECORD` the
texts for the display and the local time are left out.
-/
import KernelGuard.Model.Uapi
import Mathlib.Logic.Function.Basic
import Mathlib.Algebra.Group.Int.Defs

namespace KernelGuard

/-! ### The driver -/

/-- `NT_SUCCESS`: an `NTSTATUS` is a signed number. -/
def NtSuccess (st : Int) : Prop := 0 ≤ st

instance (st : Int) : Decidable (NtSuccess st) := inferInstanceAs (Decidable (0 ≤ st))

def statusSuccess : Int := 0
def statusDeviceNotReady : Int := 0xC00000A3 - 2 ^ 32

/--
What one call reads from outside the driver: the performance counter, the status of the last
BCrypt call it makes, and the bytes a computation that fails leaves in `Hmac`.
-/
structure NotifyEnv where
  timestamp : UInt64
  status : Int
  leftover : KgMac

/-- `g_SharedMemKernel` and the counter `NotificationsSent`. -/
structure SecureComm where
  shared : Option KgSharedRegion
  notificationsSent : UInt32

/-- After `SecureCommInitialize`. -/
def SecureComm.initialized : SecureComm :=
  { shared := some
      { writeIndex := 0
        driverNonce := 0
        notifications := fun _ => KgNotification.zero }
    notificationsSent := 0 }

section

variable (mac : List UInt8 → KgMac)

/-- The slot as a call leaves it. -/
def fillNotification (env : NotifyEnv) (slotIdx : UInt32) (a : Alert) : KgNotification :=
  let notif : KgNotification :=
    { magic := kgNotifyMagic
      sequence := slotIdx
      alertType := a.type
      alertLevel := a.level
      timestamp := env.timestamp
      param1 := a.p1
      param2 := a.p2
      hmac := ⟨0, 0, 0, 0⟩ }
  { notif with hmac := if NtSuccess env.status then mac notif.authBytes else env.leftover }

def secureCommNotify (env : NotifyEnv) (a : Alert) (s : SecureComm) : Int × SecureComm :=
  match s.shared with
  | none => (statusDeviceNotReady, s)
  | some r =>
      let slotIdx := r.driverNonce
      let r : KgSharedRegion :=
        { r with
          driverNonce := r.driverNonce + 1
          notifications := Function.update r.notifications (slotOf slotIdx)
            (fillNotification mac env slotIdx a) }
      if ¬NtSuccess env.status then (env.status, { s with shared := some r })
      else
        (statusSuccess,
          { shared := some { r with writeIndex := r.writeIndex + 1 }
            notificationsSent := s.notificationsSent + 1 })

/-! ### The agent -/

/-- `ALERT_RECORD`. -/
structure AlertRecord where
  alertType : UInt32
  alertLevel : UInt32
  param1 : UInt64
  param2 : UInt64
  sequenceNumber : UInt32
  hmacValid : Bool
  deriving DecidableEq, Repr

/-- The statics of `driver_comm.c` and the polling thread's cursor. -/
structure DriverComm where
  /-- `s_SharedMem` is mapped. -/
  mapped : Bool
  hmacKeyValid : Bool
  /-- `s_Callback` is set. -/
  callback : Bool
  localRead : UInt32

/-- `HmacSha256Verify`; `bcrypt` says whether the BCrypt calls succeed. -/
def hmacSha256Verify (keyValid bcrypt : Bool) (n : KgNotification) : Bool :=
  keyValid && bcrypt && decide (mac n.authBytes = n.hmac)

/-- `DriverComm_FormatAlert`. -/
def formatAlert (keyValid bcrypt : Bool) (n : KgNotification) : AlertRecord :=
  { alertType := n.alertType
    alertLevel := n.alertLevel
    param1 := n.param1
    param2 := n.param2
    sequenceNumber := n.sequence
    hmacValid := hmacSha256Verify mac keyValid bcrypt n }

/--
The inner loop: the alerts that go to the callback, each with the cursor it was found at, and
where the cursor ends.  `bcrypt` answers for each notification that is verified.
-/
def pollLoop (keyValid : Bool) (bcrypt : UInt32 → Bool) (r : KgSharedRegion) (writeIdx : UInt32) :
    Nat → UInt32 → List (UInt32 × AlertRecord) × UInt32
  | 0, localRead => ([], localRead)
  | fuel + 1, localRead =>
      if localRead ≠ writeIdx then
        let n := r.notifications (slotOf localRead)
        let rest := pollLoop keyValid bcrypt r writeIdx fuel (localRead + 1)
        if n.magic = kgNotifyMagic ∧ n.sequence = localRead then
          ((localRead, formatAlert mac keyValid (bcrypt localRead) n) :: rest.1, rest.2)
        else rest
      else ([], localRead)

/-- One iteration of `PollThreadProc`. -/
def pollThreadProc (bcrypt : UInt32 → Bool) (r : KgSharedRegion) (d : DriverComm) :
    List (UInt32 × AlertRecord) × DriverComm :=
  if !d.mapped then ([], d)
  else
    let res := pollLoop mac d.hmacKeyValid bcrypt r r.writeIndex
      (r.writeIndex - d.localRead).toNat d.localRead
    (if d.callback then res.1 else [], { d with localRead := res.2 })

/-! ### Both -/

/-- A call of `SecureCommNotify`: what it wrote and what it returned. -/
structure WinCall where
  notif : KgNotification
  status : Int

def WinCall.ok (c : WinCall) : Bool := decide (NtSuccess c.status)

/--
An alert in the hands of the callback: which call's slot it was read from, and whether the
agent had the key and the means to verify it.
-/
structure Handed where
  call : Nat
  able : Bool
  alert : AlertRecord

/--
The driver and the agent.  From `calls` on the fields are history: the calls so far, how many
of them came before the last poll, whose call a slot was last written by, and what the
callback has been given.
-/
structure WinChannel where
  comm : SecureComm
  agent : DriverComm
  calls : List WinCall
  polled : Nat
  owner : Fin kgNotifySlots → Nat
  handed : List Handed

inductive WinOp where
  /-- A call of `SecureCommNotify`. -/
  | notify (env : NotifyEnv) (a : Alert)
  /-- An iteration of `PollThreadProc`. -/
  | poll (bcrypt : UInt32 → Bool)

namespace WinChannel

/-- The empty ring, and an agent that has opened it and begun to poll. -/
def start (keyValid : Bool) : WinChannel :=
  { comm := SecureComm.initialized
    agent := { mapped := true, hmacKeyValid := keyValid, callback := true, localRead := 0 }
    calls := []
    polled := 0
    owner := fun _ => 0
    handed := [] }

def step (s : WinChannel) (op : WinOp) : WinChannel :=
  match s.comm.shared, op with
  | none, _ => s
  | some r, .notify env a =>
      let ret := secureCommNotify mac env a s.comm
      { s with
        comm := ret.2
        calls := s.calls ++ [⟨fillNotification mac env r.driverNonce a, ret.1⟩]
        owner := Function.update s.owner (slotOf r.driverNonce) s.calls.length }
  | some r, .poll bcrypt =>
      let ret := pollThreadProc mac bcrypt r s.agent
      { s with
        agent := ret.2
        polled := s.calls.length
        handed := s.handed ++ ret.1.map fun (seq, alert) =>
          ⟨s.owner (slotOf seq), s.agent.hmacKeyValid && bcrypt seq, alert⟩ }

end WinChannel

end

end KernelGuard
