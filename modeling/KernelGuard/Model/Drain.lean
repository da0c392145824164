/-
The ring reader of the monitor (`linux/monitor/kgmon.c`): `read_slot`, `drain` and
the loop of `cmd_monitor` around it.

The reader is a thread with a program counter.  Every load of shared memory ends a
step, because that is where the kernel may get in between; what the reader computes
from a loaded value belongs to the same step.  In this module `read_slot` and a
whole `kg_comms_notify` are single steps; `Model/Seqlock.lean` runs the same reader
over the single words.
-/
import KernelGuard.Model.Comms

namespace KernelGuard

/-- What `drain` tells the sinks, the operator and the policy. -/
inductive DrainEvent where
  /-- `emit`, with the outcome of the HMAC check. -/
  | emit (n : KgNotification) (hmacOk : Bool)
  /-- "ring overrun - count notification(s) lost", raised at the old cursor. -/
  | lost (cursor count : UInt32)
  /-- "notification cursor overwritten before it could be read". -/
  | overwritten (cursor : UInt32)
  /-- "TAMPER? slot for notification cursor is unreadable or has a wrong sequence number". -/
  | tamper (cursor : UInt32)
  deriving DecidableEq, Repr

/-- How many sequence numbers an event moves the cursor over. -/
def DrainEvent.width : DrainEvent → Nat
  | .lost _ count => count.toNat
  | _ => 1

/-- How many notifications an event reports as lost. -/
def DrainEvent.lostCount : DrainEvent → Nat
  | .lost _ count => count.toNat
  | .overwritten _ => 1
  | _ => 0

/-- The options and counters the reader uses; `stop` is `g_stop`. -/
structure Reader where
  newOnly : Bool
  once : Bool
  maxAlerts : Int
  cursor : UInt32
  shown : Int
  stop : Bool
  deriving Repr

namespace Reader

/-- Where `cmd_monitor` starts, given the `write_index` it loads after connecting. -/
def connect (w : UInt32) (r : Reader) : Reader :=
  { r with
    cursor :=
      if r.newOnly then w
      else if w > (16 : UInt32) then w - 16
      else 0 }

/-- The head of `drain`: a reader more than a ring behind moves up and says so. -/
def lapCheck (w : UInt32) (r : Reader) : Reader × List DrainEvent :=
  if w - r.cursor > (16 : UInt32) then
    ({ r with cursor := w - 16 }, [.lost r.cursor (w - r.cursor - 16)])
  else (r, [])

/-- The tail of the loop body: `(*cursor)++` and the `max_alerts` test. -/
def advance (r : Reader) : Reader :=
  { r with
    cursor := r.cursor + 1
    stop := r.stop || (r.maxAlerts ≠ 0 && r.shown ≥ r.maxAlerts) }

/-- `SLOT_OK`: check the HMAC and `emit`, whatever the outcome. -/
def accept (mac : List UInt8 → KgMac) (n : KgNotification) (r : Reader) :
    Reader × List DrainEvent :=
  (advance { r with shown := r.shown + 1 }, [.emit n (decide (mac n.authBytes = n.hmac))])

/-- Anything else: the fresh `write_index` decides between an overrun and a tampered ring. -/
def reject (w2 : UInt32) (r : Reader) : Reader × List DrainEvent :=
  (r.advance,
    [if w2 - r.cursor > (16 - 1 : UInt32) then .overwritten r.cursor else .tamper r.cursor])

/-- The condition of the `while` in `drain`. -/
def more (w : UInt32) (r : Reader) : Bool := r.cursor ≠ w && !r.stop

end Reader

/-- `enum slot_result`; the copy is only looked at when it is good. -/
inductive SlotResult where
  | ok (n : KgNotification)
  | retry
  | bad
  deriving DecidableEq, Repr

/-- `read_slot` on a slot that does not change meanwhile. -/
def readSlot (r : KgSharedRegion) (seq : UInt32) : SlotResult :=
  let s := r.notifications (slotOf seq)
  if s.magic ≠ kgNotifyMagic then .retry
  else if s.sequence = seq then .ok s
  else .bad

/-- The number of attempts `drain` makes at a slot. -/
def slotTries : Nat := 50

/-- Where the reader thread is; `w` is the local variable of `drain`. -/
inductive DrainPc where
  /-- Connected, about to load `write_index` for the first time. -/
  | connect
  /-- At the head of `drain`. -/
  | load
  /-- At the attempt number `tries` at the slot under the cursor. -/
  | slot (w : UInt32) (tries : Nat)
  /-- About to load `write_index` again, after the attempts failed. -/
  | confirm (w : UInt32)
  /-- At the condition of the loop in `cmd_monitor`. -/
  | loop
  | exited
  deriving DecidableEq, Repr

/-- After the loop body: the next slot, or out of `drain`. -/
def DrainPc.next (w : UInt32) (r : Reader) : DrainPc :=
  if r.more w then .slot w 0 else .loop

/--
The kernel's channel and one reader.  The last three fields are history variables,
which no step reads: every notification published so far, and the position among
them the reader started from and has come to.  They are what `write_index` and the
cursor are without the 32-bit wrap.
-/
structure RingSys where
  comms : KgComms
  reader : Reader
  pc : DrainPc
  published : List KgNotification
  start : Nat
  index : Nat

/-- The actions of the kernel, the reader and whoever sends it a signal. -/
inductive RingOp where
  | notify (env : Env) (a : Alert)
  | read
  | signal

namespace RingSys

/-- `kg_comms_notify` in the kernel. -/
def notify (mac : List UInt8 → KgMac) (env : Env) (a : Alert) (s : RingSys) : RingSys :=
  let r := kgCommsNotify mac env a s.comms
  { s with
    comms := r.2
    published :=
      if r.1 = 0 then
        s.published ++ [notificationOf mac s.comms.ring.driverNonce env.real a]
      else s.published }

/-- Go on at `pc` with what a step made of the reader, `index` following the cursor. -/
def resume (s : RingSys) (r : Reader × List DrainEvent) (pc : Reader → DrainPc) :
    RingSys × List DrainEvent :=
  ({ s with
      reader := r.1
      pc := pc r.1
      index := s.index + (r.2.map DrainEvent.width).sum }, r.2)

/-- One step of the reader thread. -/
def read (mac : List UInt8 → KgMac) (s : RingSys) : RingSys × List DrainEvent :=
  let w := s.comms.ring.writeIndex
  match s.pc with
  | .connect =>
      let r := s.reader.connect w
      let index := s.published.length - (w - r.cursor).toNat
      ({ s with reader := r, pc := .load, start := index, index := index }, [])
  | .load => s.resume (s.reader.lapCheck w) (DrainPc.next w)
  | .slot w₀ tries =>
      match readSlot s.comms.ring s.reader.cursor with
      | .ok n => s.resume (s.reader.accept mac n) (DrainPc.next w₀)
      | .retry =>
          ({ s with pc := if tries + 1 < slotTries then .slot w₀ (tries + 1) else .confirm w₀ }, [])
      | .bad => ({ s with pc := .confirm w₀ }, [])
  | .confirm w₀ => s.resume (s.reader.reject w) (DrainPc.next w₀)
  | .loop => ({ s with pc := if s.reader.stop || s.reader.once then .exited else .load }, [])
  | .exited => (s, [])

/-- One action, with what the reader reports during it. -/
def act (mac : List UInt8 → KgMac) (s : RingSys) : RingOp → RingSys × List DrainEvent
  | .notify env a => (s.notify mac env a, [])
  | .read => s.read mac
  | .signal => ({ s with reader := { s.reader with stop := true } }, [])

def step (mac : List UInt8 → KgMac) (s : RingSys) (op : RingOp) : RingSys := (s.act mac op).1

def events (mac : List UInt8 → KgMac) (s : RingSys) (op : RingOp) : List DrainEvent :=
  (s.act mac op).2

/-- A freshly loaded module and a monitor that has just connected to it. -/
def boot (now : UInt64) (newOnly once : Bool) (maxAlerts : Int) : RingSys :=
  { comms := kgCommsInit now
    reader := ⟨newOnly, once, maxAlerts, 0, 0, false⟩
    pc := .connect
    published := []
    start := 0
    index := 0 }

/-- How many published notifications the reader has not passed yet. -/
def lag (s : RingSys) : Nat := s.published.length - s.index

end RingSys

end KernelGuard
