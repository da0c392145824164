/-
Three lifetimes: the kernel module, the monitor process and the ack file
(`cmd_monitor`, `policy_check_ack` and `cmd_ack` in `linux/monitor/kgmon.c`, `kg_comms_init`
in `linux/module/kg_comms.c`).

Sequence numbers belong to a load of the module: every load starts a ring of its own at 0,
with a key of its own.  The monitor has an engine and the identity of the ack file it has
read last; both start from nothing.  The file stays on disk.  An open device keeps the
module loaded (`kg_fops.owner`), so an unload while a monitor runs is refused, and a
running monitor has only ever seen one load; a lock file keeps a second monitor out.

A publication, a `kgmon ack`, a `drain`, a `policy_check_ack` and a `kgp_tick` are single
steps, and a run is any list of them.  `kgmon ack` makes a regular file of mode 0600, under
the user who runs it; which inode and time it gets is up to the system.
-/
import KernelGuard.Model.Monitor

namespace KernelGuard

/-- What `policy_check_ack` knows a file by: `st_ino` and `st_mtim`. -/
structure AckId where
  ino : Nat
  sec : Int
  nsec : Nat
  deriving DecidableEq, Repr

/-- `ack_seen` of a monitor that has read no file yet. -/
def AckId.zero : AckId := ⟨0, 0, 0⟩

/--
The ack file.  The last two fields are history variables: when `kgmon ack` wrote it, and
under which load.
-/
structure AckFile where
  id : AckId
  uid : Nat
  seq : UInt32
  issued : Nat
  load : Nat
  deriving DecidableEq, Repr

/-- A loaded module; `log` is a history variable, the time of each publication. -/
structure KgModule where
  comms : KgComms
  mac : List UInt8 → KgMac
  log : List Nat

/-- A running monitor, with the key it fetched when it connected. -/
structure MonProc where
  monitor : Monitor
  mac : List UInt8 → KgMac
  euid : Nat
  ackSeen : AckId

/-- The command line of `kgmon monitor`, with the policy file it names already read. -/
structure MonOpts where
  useNotify : Bool
  policy : Option KgpPolicy
  newOnly : Bool
  once : Bool
  maxAlerts : Int
  euid : Nat

/-- `cmd_monitor` up to its first `drain`; with `--once` no policy is loaded. -/
def MonProc.start (o : MonOpts) (md : KgModule) : MonProc :=
  let reader : Reader := ⟨o.newOnly, o.once, o.maxAlerts, 0, 0, false⟩
  { monitor :=
      { useNotify := o.useNotify
        policy := if o.once then none else o.policy
        eng := kgpInit
        children := fun _ => none
        forks := 0
        reader := reader.connect md.comms.ring.writeIndex }
    mac := md.mac
    euid := o.euid
    ackSeen := AckId.zero }

/--
`policy_check_ack`.  Of its checks only the one of the owner is here: a file made by `kgmon ack` is
regular and of mode 0600, so `S_ISREG` and the test of the write bits never fail on it.  `fopen`
and `fscanf` are taken to succeed.  Both programs have opened the device, whose node is root's
and 0600; a monitor that is let in by other means and cannot read the file remembers its
identity like this one, and acknowledges nothing.
-/
def MonProc.policyCheckAck (file : Option AckFile) (p : MonProc) : MonProc :=
  match file with
  | none => p
  | some f =>
      if f.id = p.ackSeen then p
      else if f.uid ≠ 0 && f.uid ≠ p.euid then { p with ackSeen := f.id }
      else
        { p with
          ackSeen := f.id
          monitor := { p.monitor with eng := kgpAck f.seq p.monitor.eng } }

/-- `kgp_tick` with `run_action` as its callback. -/
def Monitor.kgpTickRun (host : Host) (pol : KgpPolicy) (m : Monitor) :
    Monitor × List Monitor.ActionCall :=
  let r := kgpTick pol (host.monoS 0) m.eng
  Monitor.runActions host 0 pol r.2 { m with eng := r.1 }

/-- The whole system; `clock` and `loads` are history variables. -/
structure AckSys where
  clock : Nat
  loads : Nat
  module : Option KgModule
  ackFile : Option AckFile
  proc : Option MonProc

inductive AckOp where
  /-- `insmod`: `kg_comms_init` at monotonic time `now`, with the HMAC of a new key. -/
  | load (now : UInt64) (mac : List UInt8 → KgMac)
  /-- `rmmod`. -/
  | unload
  /-- A call of `kg_comms_notify`. -/
  | notify (env : Env) (a : Alert)
  /-- `kgmon ack` by user `uid`; the file gets the identity `id`. -/
  | ack (id : AckId) (uid : Nat)
  | start (opts : MonOpts)
  | stop
  | drain (host : Host)
  | checkAck
  | tick (host : Host)

namespace AckSys

/-- A call of `kg_comms_notify` publishes or not; `clock` is the time of the step. -/
def notifyModule (env : Env) (a : Alert) (clock : Nat) (md : KgModule) : KgModule :=
  let r := kgCommsNotify md.mac env a md.comms
  { md with comms := r.2, log := if r.1 = 0 then md.log ++ [clock] else md.log }

/-- `cmd_ack`: everything below the present `write_index`, if there is anything. -/
def cmdAck (id : AckId) (uid : Nat) (md : KgModule) (s : AckSys) : AckSys :=
  let w := md.comms.ring.writeIndex
  if w = 0 then s
  else { s with ackFile := some ⟨id, uid, w - 1, s.clock, s.loads⟩ }

/-- What a step does, the clock aside. -/
def act (s : AckSys) : AckOp → AckSys
  | .load now mac =>
      match s.module with
      | some _ => s
      | none =>
          { s with loads := s.loads + 1, module := some ⟨kgCommsInit now, mac, []⟩ }
  | .unload =>
      match s.proc with
      | some _ => s
      | none => { s with module := none }
  | .notify env a => { s with module := s.module.map (notifyModule env a s.clock) }
  | .ack id uid =>
      match s.module with
      | none => s
      | some md => s.cmdAck id uid md
  | .start opts =>
      match s.module, s.proc with
      | some md, none => { s with proc := some (MonProc.start opts md) }
      | _, _ => s
  | .stop => { s with proc := none }
  | .drain host =>
      match s.module, s.proc with
      | some md, some p =>
          { s with proc := some { p with monitor := (p.monitor.drain p.mac host md.comms.ring).1 } }
      | _, _ => s
  | .checkAck =>
      match s.proc with
      | none => s
      | some p =>
          if p.monitor.policy.isSome then { s with proc := some (p.policyCheckAck s.ackFile) }
          else s
  | .tick host =>
      match s.proc with
      | none => s
      | some p =>
          match p.monitor.policy with
          | none => s
          | some pol => { s with proc := some { p with monitor := (p.monitor.kgpTickRun host pol).1 } }

def step (s : AckSys) (op : AckOp) : AckSys := { s.act op with clock := s.clock + 1 }

/-- Nothing loaded, nothing running, and no ack file on disk yet. -/
def boot : AckSys := ⟨0, 0, none, none, none⟩

/-- What the monitor has in a slot of its engine. -/
def incident (s : AckSys) (i : Fin kgpMaxIncidents) : Option KgpIncident :=
  s.proc.map fun p => p.monitor.eng i

end AckSys

end KernelGuard
