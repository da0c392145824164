/-
The monitor behind its ring reader (`linux/monitor/kgmon.c`): what `drain` does with the
notifications it reads.

`emit` raises desktop notifications and feeds the escalation engine, and both of these
start helper processes, which share one table of 32.  In this module a whole `drain` is
one function on a ring that does not change meanwhile; the reader's own steps are those
of `Model/Drain.lean`, and their events are handed to the sinks here.

The CSV log is in `Model/CsvLog.lean`, next to what reads it back.  The console line and syslog
are left out.
-/
import KernelGuard.Model.Drain
import KernelGuard.Model.PolicyParse

namespace KernelGuard

open Bytes

/-! ### Alert texts -/

/-- `%u`. -/
def decText (n : Nat) : CStr := (Nat.toDigits 10 n).map fun c => UInt8.ofNat c.toNat

/-- `%0wx`; with `w = 0` it is `%x`. -/
def hexText (w n : Nat) : CStr :=
  let digits := (Nat.toDigits 16 n).map fun c => UInt8.ofNat c.toNat
  List.replicate (w - digits.length) 48 ++ digits

/-- `posture_text`. -/
def postureText (p : UInt32) : CStr :=
  str ((["NORMAL", "ELEVATED", "HIGH", "FAIL-SAFE"][p.toNat]?).getD "?")

/-- Handler and module names travel in `param1 | param2` as 16 bytes of ASCII. -/
def unpackName (p1 p2 : UInt64) : CStr :=
  ((le64 p1 ++ le64 p2).map fun c => if c ≠ 0 && (c < 0x20 || c > 0x7e) then 63 else c).takeWhile
    (· ≠ 0)

/-- A bit of `mask` is set. -/
def hasBit (x mask : UInt64) : Bool := x &&& mask ≠ 0

def loadPolicyText (weak raw : UInt64) : CStr :=
  let yesNo := fun b : Bool => if b then str "yes" else str "no"
  str "sig_enforce=" ++ yesNo (hasBit raw 1) ++ str " lockdown=" ++ yesNo (hasBit raw 2)
    ++ str " secure_boot=" ++ yesNo (hasBit raw 4) ++ str "  "
    ++ (if hasBit weak 0xff then str "weak:" else str "all on")
    ++ (if hasBit weak 1 then str " sig_enforce" else [])
    ++ (if hasBit weak 2 then str " lockdown" else [])
    ++ (if hasBit weak 4 then str " secure_boot" else [])

/-- `(unsigned)(x >> shift) & mask`. -/
def field (x : UInt64) (shift mask : UInt64) : Nat := ((x >>> shift) &&& mask).toNat

/-- `%04x:%02x:%02x.%x` of a PCI address packed in `param1`. -/
def pciText (p1 : UInt64) : CStr :=
  hexText 4 (field p1 24 0xffff) ++ str ":" ++ hexText 2 (field p1 16 0xff) ++ str ":"
    ++ hexText 2 (field p1 8 0xff) ++ str "." ++ hexText 0 (field p1 0 0xf)

/-- `id %04x:%04x` of the PCI identity in the low half of `param2`. -/
def pciIdText (p2 : UInt64) : CStr :=
  str "  id " ++ hexText 4 (field p2 16 0xffff) ++ str ":" ++ hexText 4 (field p2 0 0xffff)

/-- `format_details`; every text is far shorter than the buffers it is printed to. -/
def formatDetails (n : KgNotification) : CStr :=
  let p1 := n.param1
  let p2 := n.param2
  let t := n.alertType
  if t = kgAlertPmuL1dAnomaly ∨ t = kgAlertPmuL2Anomaly then
    str "offender tgid: " ++ decText p1.toNat ++ str "  cpu: " ++ decText (field p2 32 0xffffffff)
      ++ str "  overflows/s: " ++ decText (field p2 0 0xffffffff)
  else if t = kgAlertUnauthorizedKbdFilter ∨ t = kgAlertKbdFilterNeutralized ∨
      t = kgAlertModuleLoaded ∨ t = kgAlertVulnDriver ∨ t = kgAlertDriverBlocked then
    str "name: \"" ++ unpackName p1 p2 ++ str "\""
  else if t = kgAlertLoadPolicy then loadPolicyText p1 p2
  else if t = kgAlertUnauthorizedDma ∨ t = kgAlertDeviceBmeDisabled then
    pciText p1 ++ pciIdText p2
  else if t = kgAlertPciDiscrepancy then
    let kinds := ["?", "hidden from OS", "missing in hardware", "identity mismatch"]
    pciText p1 ++ str "  " ++ str ((kinds[field p2 32 0xffffffff]?).getD "?") ++ pciIdText p2
  else if t = kgAlertIdtHook then
    str "Handler: 0x" ++ hexText 16 p1.toNat ++ str "  vector: " ++ decText p2.toNat
  else if t = kgAlertDispatchHook then
    str "Callback: 0x" ++ hexText 16 p1.toNat ++ str "  kind: " ++ decText (p2 >>> 32).toNat
  else if t = kgAlertTextPatch then
    str "Addr: 0x" ++ hexText 16 p1.toNat ++ str "  Len: " ++ decText (field p2 0 0xffffffff)
      ++ (if hasBit (p2 >>> 32) 1 then str "  [kernel]" else str "  [module]")
      ++ (if hasBit (p2 >>> 32) 2 then str " [unknown branch target]" else [])
      ++ (if hasBit (p2 >>> 32) 4 then str " [int3]" else [])
  else if t = kgAlertCtrlRegTamper then
    str "cpu " ++ decText (field p1 32 0xffffffff) ++ str "  reg 0x"
      ++ hexText 0 (field p1 0 0xffffffff) ++ str "  new 0x" ++ hexText 0 p2.toNat
  else if t = kgAlertPostureChanged then
    postureText (p1 >>> 32).toUInt32 ++ str " -> " ++ postureText p1.toUInt32 ++ str "  ("
      ++ (if (p2 >>> 32).toUInt32 = kgPostureWhyDecay then str "quiet period elapsed"
          else str "operator request") ++ str ")"
  else str "Param1: 0x" ++ hexText 0 p1.toNat ++ str "  Param2: 0x" ++ hexText 0 p2.toNat

/-! ### Helper processes -/

def maxChildren : Nat := 32
def notifyTimeoutS : UInt32 := 10

/-- `struct child`; a free slot, with `pid == 0`, is `none` in the table. -/
structure Child where
  pid : Nat
  deadline : UInt64
  name : CStr
  deriving DecidableEq, Repr

/-- `g_children`. -/
abbrev Children := Fin maxChildren → Option Child

def childFreeSlot (c : Children) : Option (Fin maxChildren) :=
  (List.finRange maxChildren).find? fun i => (c i).isNone

/--
What the monitor asks of the system: the two clocks, read once in each pass of a loop,
and the process id `fork` returns the n-th time it is called, if it succeeds.
-/
structure Host where
  monoS : Nat → UInt64
  realNs : Nat → UInt64
  fork : Nat → Option Nat

/--
The monitor process: `struct sinks` and the options it copies, the table of helper
processes, the cursor, and how often it has called `fork`.  Without a policy
(`have_policy == 0`) the engine is not used.
-/
structure Monitor where
  useNotify : Bool
  policy : Option KgpPolicy
  eng : KgpEngine
  children : Children
  forks : Nat
  reader : Reader

namespace Monitor

variable (mac : List UInt8 → KgMac) (host : Host) (pass : Nat)

/-- Take a slot, fork, and track the child; the flag says whether there was a slot. -/
def spawn (timeoutS : UInt32) (name : CStr) (m : Monitor) : Bool × Monitor :=
  match childFreeSlot m.children with
  | none => (false, m)
  | some slot =>
      match host.fork m.forks with
      | none => (true, { m with forks := m.forks + 1 })
      | some pid =>
          let child : Child := ⟨pid, host.monoS pass + timeoutS.toUInt64, name⟩
          (true, { m with
            forks := m.forks + 1
            children := Function.update m.children slot (some child) })

def notifyDesktop (m : Monitor) : Monitor :=
  (m.spawn host pass notifyTimeoutS (str "notify-send")).2

/-- A policy action the engine asked for, and whether it found a slot. -/
structure ActionCall where
  run : KgpRun
  slot : Bool
  deriving DecidableEq, Repr

/-- `run_action`, the callback of the engine. -/
def runAction (pol : KgpPolicy) (run : KgpRun) (m : Monitor) : Monitor × List ActionCall :=
  let act := pol.actions.getD run.action ⟨[], [], 0⟩
  let r := m.spawn host pass act.timeoutS (act.name.take (kgpNameLen - 1))
  (r.2, [⟨run, r.1⟩])

/-- The calls the engine makes, in order. -/
def runActions (pol : KgpPolicy) : List KgpRun → Monitor → Monitor × List ActionCall
  | [], m => (m, [])
  | run :: runs, m =>
      let one := m.runAction host pass pol run
      let more := runActions pol runs one.1
      (more.1, one.2 ++ more.2)

/-- `kgp_alert` with `run_action` as its callback; the engine never looks at the callback's work. -/
def kgpAlertRun (pol : KgpPolicy) (al : KgpAlert) (m : Monitor) : Monitor × List ActionCall :=
  let r := kgpAlert pol (host.monoS pass) al m.eng
  runActions host pass pol r.2 { m with eng := r.1 }

/-- Something kgmon itself concluded. -/
def policyPseudo (code : UInt32) (level : Int) (seq : UInt32) (details : CStr) (m : Monitor) :
    Monitor × List ActionCall :=
  match m.policy with
  | none => (m, [])
  | some pol =>
      m.kgpAlertRun host pass pol
        { KgpAlert.zero with
          code := code, level := level, seq := seq, timeNs := host.realNs pass, details := details }

def levelToPolicy (l : UInt32) : Int :=
  if l ≥ kgLevelCritical then kgpCritical else if l = kgLevelWatch then kgpWarning else kgpInfo

/-- The alert an authenticated notification becomes. -/
def alertOf (n : KgNotification) (details : CStr) : KgpAlert :=
  { code := n.alertType
    level := levelToPolicy n.alertLevel
    seq := n.sequence
    param1 := n.param1
    param2 := n.param2
    timeNs := n.timestamp
    details := details }

def policyFeed (n : KgNotification) (hmacOk : Bool) (details : CStr) (m : Monitor) :
    Monitor × List ActionCall :=
  match m.policy with
  | none => (m, [])
  | some pol =>
      if !hmacOk then
        m.policyPseudo host pass kgpAlertForged kgpForged n.sequence
          (str "notification " ++ decText n.sequence.toNat ++ str " failed HMAC verification")
      else m.kgpAlertRun host pass pol (alertOf n details)

/-- The desktop notifications of `emit`: one from WATCH on, and another when the HMAC fails. -/
def emitNotify (n : KgNotification) (hmacOk : Bool) (m : Monitor) : Monitor :=
  let m := if m.useNotify && decide (n.alertLevel ≥ kgLevelWatch) then m.notifyDesktop host pass else m
  if m.useNotify && !hmacOk then m.notifyDesktop host pass else m

def emit (n : KgNotification) (hmacOk : Bool) (m : Monitor) : Monitor × List ActionCall :=
  (m.emitNotify host pass n hmacOk).policyFeed host pass n hmacOk (formatDetails n)

/-- What the sinks do with an event of the reader. -/
def handle (m : Monitor) : DrainEvent → Monitor × List ActionCall
  | .emit n hmacOk => m.emit host pass n hmacOk
  | .lost cursor count =>
      m.policyPseudo host pass kgpAlertOverrun kgpCritical cursor
        (decText count.toNat ++ str " notification(s) lost: the ring was lapped")
  | .overwritten cursor =>
      m.policyPseudo host pass kgpAlertOverrun kgpCritical cursor
        (str "notification " ++ decText cursor.toNat ++ str " was overwritten before it could be read")
  | .tamper cursor =>
      m.policyPseudo host pass kgpAlertTamper kgpForged cursor
        (str "slot for notification " ++ decText cursor.toNat
          ++ str " is unreadable or has a wrong sequence number")

def handleAll : List DrainEvent → Monitor → Monitor × List ActionCall
  | [], m => (m, [])
  | ev :: evs, m =>
      let one := m.handle host pass ev
      let more := handleAll evs one.1
      (more.1, one.2 ++ more.2)

/--
The reader at the slot under its cursor.  A slot that is not readable stays so during
the 50 attempts, and the second load of `write_index` finds what the first did.
-/
def atSlot (ring : KgSharedRegion) (r : Reader) : Reader × List DrainEvent :=
  match readSlot ring r.cursor with
  | .ok n => r.accept mac n
  | .retry => r.reject ring.writeIndex
  | .bad => r.reject ring.writeIndex

/-- The `while` of `drain`, at most `fuel` passes of it. -/
def drainLoop (ring : KgSharedRegion) (w : UInt32) :
    Nat → Nat → Monitor → Monitor × List ActionCall
  | 0, _, m => (m, [])
  | fuel + 1, pass, m =>
      if m.reader.more w then
        let slot := atSlot mac ring m.reader
        let one := handleAll host pass slot.2 { m with reader := slot.1 }
        let more := drainLoop ring w fuel (pass + 1) one.1
        (more.1, one.2 ++ more.2)
      else (m, [])

/-- `drain`: every pass moves the cursor one up, so `w - cursor` passes are all there can be. -/
def drain (ring : KgSharedRegion) (m : Monitor) : Monitor × List ActionCall :=
  let w := ring.writeIndex
  let lap := m.reader.lapCheck w
  let one := handleAll host 0 lap.2 { m with reader := lap.1 }
  let more := drainLoop mac host ring w (w - lap.1.cursor).toNat 1 one.1
  (more.1, one.2 ++ more.2)

end Monitor

end KernelGuard
