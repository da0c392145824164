/-
Waiting for the ring: `kg_comms_open` and `kg_comms_poll` (`linux/module/kg_comms.c`) and
the loop of `cmd_monitor` around `poll` (`linux/monitor/kgmon.c`).

The kernel keeps one number for each open file, the `write_index` it last showed the
file's owner.  `poll(2)` asks `kg_comms_poll` whether that is still the present one, and
puts the monitor to sleep if it is; a publication, the timeout or a signal ends the sleep.
A publication, a check of `kg_comms_poll` and a whole `drain` are single steps here.  What
the loop does after `drain` (reaping helpers, the ack file, the engine's tick) touches
neither the ring nor the cursor and belongs to the step of the loop condition.
-/
import KernelGuard.Model.Monitor

namespace KernelGuard

/-- `kg_comms_open`. -/
def kgCommsOpen (c : KgComms) : UInt32 := if c.alive then c.ring.writeIndex else 0

/-- What `kg_comms_poll` returns. -/
inductive PollMask where
  /-- `EPOLLERR`. -/
  | err
  /-- `EPOLLIN | EPOLLRDNORM`. -/
  | readable
  /-- 0: the caller may sleep. -/
  | nothing
  deriving DecidableEq, Repr

/-- `kg_comms_poll`, with what it leaves in `*seen`. -/
def kgCommsPoll (c : KgComms) (seen : UInt32) : PollMask × UInt32 :=
  if !c.alive then (.err, seen)
  else
    let w := c.ring.writeIndex
    if w ≠ seen then (.readable, w) else (.nothing, seen)

/-- Where the monitor is. -/
inductive LoopPc where
  | connOpen
  | connect
  | drain
  /-- At the condition of the `while` in `cmd_monitor`. -/
  | loop
  /-- In `poll(2)`, about to ask `kg_comms_poll`, for the first time or after a sleep. -/
  | poll
  | exited
  deriving DecidableEq, Repr

/--
The channel, one open file and the monitor that polls it.  The last two fields are
history variables: how many notifications have been published, and how many there were
when `*seen` was last compared with `write_index`.
-/
structure PollSys where
  comms : KgComms
  seen : UInt32
  monitor : Monitor
  pc : LoopPc
  published : Nat
  compared : Nat

inductive PollOp where
  /-- A call of `kg_comms_notify`. -/
  | notify (env : Env) (a : Alert)
  /-- The monitor's next step. -/
  | run (host : Host)
  /-- `poll(2)` returns because its time is up, or because of a signal. -/
  | timeout
  /-- `SIGINT` or `SIGTERM`. -/
  | signal

namespace PollSys

variable (mac : List UInt8 → KgMac)

def notify (env : Env) (a : Alert) (s : PollSys) : PollSys :=
  let r := kgCommsNotify mac env a s.comms
  { s with comms := r.2, published := if r.1 = 0 then s.published + 1 else s.published }

/-- One step of the monitor. -/
def run (host : Host) (s : PollSys) : PollSys :=
  match s.pc with
  | .connOpen => { s with seen := kgCommsOpen s.comms, compared := s.published, pc := .connect }
  | .connect =>
      let reader := s.monitor.reader.connect s.comms.ring.writeIndex
      { s with monitor := { s.monitor with reader := reader }, pc := .drain }
  | .drain => { s with monitor := (s.monitor.drain mac host s.comms.ring).1, pc := .loop }
  | .loop =>
      { s with pc := if s.monitor.reader.stop || s.monitor.reader.once then .exited else .poll }
  | .poll =>
      let r := kgCommsPoll s.comms s.seen
      { s with
        seen := r.2
        compared := s.published
        pc :=
          match r.1 with
          | .err => .exited
          | .readable => .drain
          | .nothing => .poll }
  | .exited => s

def step (s : PollSys) : PollOp → PollSys
  | .notify env a => s.notify mac env a
  | .run host => s.run mac host
  | .timeout => { s with pc := if s.pc = .poll then .drain else s.pc }
  | .signal =>
      { s with monitor := { s.monitor with reader := { s.monitor.reader with stop := true } } }

/-- A freshly loaded module, and a monitor about to open its device. -/
def boot (now : UInt64) (monitor : Monitor) : PollSys :=
  { comms := kgCommsInit now
    seen := 0
    monitor := monitor
    pc := .connOpen
    published := 0
    compared := 0 }

end PollSys

end KernelGuard
