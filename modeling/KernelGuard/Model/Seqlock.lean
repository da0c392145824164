/-
The notification ring, one word at a time.

The kernel publishes a notification with single stores (`kg_comms_notify`, under its
spinlock): invalidate the slot, fill its words, validate it, count it.  The monitor
reads it with single loads (`read_slot`): the magic, the words of the `memcpy`, the
magic again.  Here every 4- or 8-byte access is a step of its own, in program order,
and the two threads interleave freely.

The reader's arithmetic is the one of `Model/Drain.lean`.
-/
import KernelGuard.Model.Drain

namespace KernelGuard

/-- The words of a `struct kg_notification`, as the stores and the `memcpy` move them. -/
inductive Word where
  | magic | sequence | alertType | alertLevel
  | timestamp | param1 | param2
  | hmac0 | hmac1 | hmac2 | hmac3
  deriving DecidableEq, Repr

namespace Word

/-- All of them, in memory order. -/
def all : List Word :=
  [magic, sequence, alertType, alertLevel, timestamp, param1, param2, hmac0, hmac1, hmac2, hmac3]

/-- Those that `kg_comms_notify` fills between its two stores to the magic, in program order. -/
def body : List Word :=
  [sequence, alertType, alertLevel, timestamp, param1, param2, hmac0, hmac1, hmac2, hmac3]

/-- The value of a word. -/
def get : Word → KgNotification → UInt64
  | magic, n => n.magic.toUInt64
  | sequence, n => n.sequence.toUInt64
  | alertType, n => n.alertType.toUInt64
  | alertLevel, n => n.alertLevel.toUInt64
  | timestamp, n => n.timestamp
  | param1, n => n.param1
  | param2, n => n.param2
  | hmac0, n => n.hmac.w0
  | hmac1, n => n.hmac.w1
  | hmac2, n => n.hmac.w2
  | hmac3, n => n.hmac.w3

/-- Copy one word of `src` into `dst`. -/
def move (src : KgNotification) : Word → KgNotification → KgNotification
  | magic, dst => { dst with magic := src.magic }
  | sequence, dst => { dst with sequence := src.sequence }
  | alertType, dst => { dst with alertType := src.alertType }
  | alertLevel, dst => { dst with alertLevel := src.alertLevel }
  | timestamp, dst => { dst with timestamp := src.timestamp }
  | param1, dst => { dst with param1 := src.param1 }
  | param2, dst => { dst with param2 := src.param2 }
  | hmac0, dst => { dst with hmac := { dst.hmac with w0 := src.hmac.w0 } }
  | hmac1, dst => { dst with hmac := { dst.hmac with w1 := src.hmac.w1 } }
  | hmac2, dst => { dst with hmac := { dst.hmac with w2 := src.hmac.w2 } }
  | hmac3, dst => { dst with hmac := { dst.hmac with w3 := src.hmac.w3 } }

end Word

/-- The holder of the ring's spinlock; `n` is its local notification, ready to be published. -/
inductive WriterPc where
  /-- Nobody holds the lock. -/
  | idle
  /-- About to store `magic = 0`. -/
  | invalidate (n : KgNotification)
  /-- About to fill the words `todo`; once they are filled, about to store the magic. -/
  | fill (n : KgNotification) (todo : List Word)
  /-- About to store `write_index`. -/
  | count (n : KgNotification)
  deriving DecidableEq, Repr

/-- The reader thread, as in `DrainPc`, with `read_slot` taken apart. -/
inductive ReaderPc where
  | connect
  | load
  /-- Attempt number `tries` at a slot: about to load its magic for the first time. -/
  | first (w : UInt32) (tries : Nat)
  /-- About to copy the words `todo` to `out`; once they are, about to load the magic again. -/
  | copy (w : UInt32) (tries : Nat) (todo : List Word) (out : KgNotification)
  | confirm (w : UInt32)
  | loop
  | exited
  deriving DecidableEq, Repr

def ReaderPc.next (w : UInt32) (r : Reader) : ReaderPc :=
  if r.more w then .first w 0 else .loop

/-- `SLOT_RETRY`: another attempt, up to 50 of them. -/
def ReaderPc.retry (w : UInt32) (tries : Nat) : ReaderPc :=
  if tries + 1 < slotTries then .first w (tries + 1) else .confirm w

/--
The shared page, the writer and the reader.  `published` and `index` are history
variables: every notification counted so far, and the position of the one under the
cursor.  Of the positions that fit the cursor it is the latest at the time `drain`
loads `write_index`.
-/
structure SeqSys where
  ring : KgSharedRegion
  writer : WriterPc
  reader : Reader
  pc : ReaderPc
  published : List KgNotification
  index : Nat

inductive SeqOp where
  /-- A caller of `kg_comms_notify` gets the lock and past the limiter. -/
  | publish (timestamp : UInt64) (a : Alert)
  /-- The next store of the lock's holder. -/
  | store
  /-- The next load of the reader. -/
  | read
  | signal

namespace SeqSys

/-- Write slot `seq % KG_NOTIFY_SLOTS` with what `f` makes of it. -/
def setSlot (s : SeqSys) (seq : UInt32) (f : KgNotification → KgNotification) : SeqSys :=
  { s with
    ring := { s.ring with
      notifications :=
        Function.update s.ring.notifications (slotOf seq) (f (s.ring.notifications (slotOf seq))) } }

/-- Take the lock and the next number; other callers spin. -/
def publish (mac : List UInt8 → KgMac) (timestamp : UInt64) (a : Alert) (s : SeqSys) : SeqSys :=
  match s.writer with
  | .idle =>
      { s with
        ring := { s.ring with driverNonce := s.ring.driverNonce + 1 }
        writer := .invalidate (notificationOf mac s.ring.driverNonce timestamp a) }
  | _ => s

/-- One store of `kg_comms_notify`. -/
def store (s : SeqSys) : SeqSys :=
  match s.writer with
  | .idle => s
  | .invalidate n =>
      { s.setSlot n.sequence fun d => { d with magic := 0 } with writer := .fill n Word.body }
  | .fill n (f :: todo) => { s.setSlot n.sequence (f.move n) with writer := .fill n todo }
  | .fill n [] =>
      { s.setSlot n.sequence fun d => { d with magic := kgNotifyMagic } with writer := .count n }
  | .count n =>
      { s with
        ring := { s.ring with writeIndex := n.sequence + 1 }
        writer := .idle
        published := s.published ++ [n] }

/-- Report, and go on behind the slot. -/
def resume (s : SeqSys) (w : UInt32) (r : Reader × List DrainEvent) : SeqSys × List DrainEvent :=
  ({ s with reader := r.1, pc := ReaderPc.next w r.1, index := s.index + 1 }, r.2)

/-- One load of the monitor. -/
def read (mac : List UInt8 → KgMac) (s : SeqSys) : SeqSys × List DrainEvent :=
  let w := s.ring.writeIndex
  let slot := s.ring.notifications (slotOf s.reader.cursor)
  match s.pc with
  | .connect =>
      let r := s.reader.connect w
      ({ s with reader := r, pc := .load, index := s.published.length - (w - r.cursor).toNat }, [])
  | .load =>
      let r := s.reader.lapCheck w
      ({ s with
          reader := r.1
          pc := ReaderPc.next w r.1
          index := s.published.length - (w - r.1.cursor).toNat }, r.2)
  | .first w₀ tries =>
      if slot.magic ≠ kgNotifyMagic then ({ s with pc := ReaderPc.retry w₀ tries }, [])
      else ({ s with pc := .copy w₀ tries Word.all KgNotification.zero }, [])
  | .copy w₀ tries (f :: todo) out => ({ s with pc := .copy w₀ tries todo (f.move slot out) }, [])
  | .copy w₀ tries [] out =>
      if slot.magic ≠ kgNotifyMagic then ({ s with pc := ReaderPc.retry w₀ tries }, [])
      else if out.sequence = s.reader.cursor then s.resume w₀ (s.reader.accept mac out)
      else ({ s with pc := .confirm w₀ }, [])
  | .confirm w₀ => s.resume w₀ (s.reader.reject w)
  | .loop => ({ s with pc := if s.reader.stop || s.reader.once then .exited else .load }, [])
  | .exited => (s, [])

/-- One action, with what the reader reports during it. -/
def act (mac : List UInt8 → KgMac) (s : SeqSys) : SeqOp → SeqSys × List DrainEvent
  | .publish timestamp a => (s.publish mac timestamp a, [])
  | .store => (s.store, [])
  | .read => s.read mac
  | .signal => ({ s with reader := { s.reader with stop := true } }, [])

def step (mac : List UInt8 → KgMac) (s : SeqSys) (op : SeqOp) : SeqSys := (s.act mac op).1

def events (mac : List UInt8 → KgMac) (s : SeqSys) (op : SeqOp) : List DrainEvent :=
  (s.act mac op).2

/-- The zeroed page of a freshly loaded module, and a monitor that has just connected. -/
def boot (newOnly once : Bool) (maxAlerts : Int) : SeqSys :=
  { ring := KgSharedRegion.zero
    writer := .idle
    reader := ⟨newOnly, once, maxAlerts, 0, 0, false⟩
    pc := .connect
    published := []
    index := 0 }

end SeqSys

end KernelGuard
