/-
The driver-load gate (`linux/module/kg_modgate.c`).

The two lists are parsed once from the module parameters; a module notifier then judges
every module that is COMING.  `mod_lock` can be switched on at run time, which records
the modules that are loaded right then.

The character classes are those of the kernel, whose `isalnum` also takes the letters of
Latin-1.
-/
import KernelGuard.Model.Modules
import KernelGuard.Model.Posture
import KernelGuard.Lib.Bytes

namespace KernelGuard

open Bytes

/-! ### Names in alerts -/

/-- `strscpy_pad` to 16 bytes. -/
def padName (s : CStr) : List UInt8 :=
  let b := strscpy 16 s
  b ++ List.replicate (16 - b.length) 0

/-- A little-endian word of memory. -/
def wordOf (b : List UInt8) : UInt64 := UInt64.ofNat (leValue b)

/-- `kg_pack_name`: the two words a name travels in. -/
def kgPackName (s : CStr) : UInt64 × UInt64 :=
  (wordOf ((padName s).take 8), wordOf ((padName s).drop 8))

/-! ### The kernel's character classes -/

def chAt : UInt8 := 64
def chUnderscore : UInt8 := 95
def chDot : UInt8 := 46

def kIsUpper (c : UInt8) : Bool := (65 ≤ c && c ≤ 90) || (0xC0 ≤ c && c ≤ 0xDE && c ≠ 0xD7)
def kIsLower (c : UInt8) : Bool := (97 ≤ c && c ≤ 122) || (0xDF ≤ c && c ≠ 0xF7)
def kIsAlnum (c : UInt8) : Bool := isDigit c || kIsUpper c || kIsLower c
def kIsXdigit (c : UInt8) : Bool := isDigit c || (65 ≤ c && c ≤ 70) || (97 ≤ c && c ≤ 102)
def kToUpper (c : UInt8) : UInt8 := if kIsLower c then c - 32 else c
def kToLower (c : UInt8) : UInt8 := if kIsUpper c then c + 32 else c

/-- `!strcasecmp(a, b)` in the kernel. -/
def kEqNoCase (a b : CStr) : Bool := a.map kToLower = b.map kToLower

/-! ### Parsing -/

def kgGateListMax : Nat := 64
def kgGateSrcverMax : Nat := 32

def kgGateSep (c : UInt8) : Bool := c = chComma || c = chSpace || c = chTab || c = chNewline

/-- `kg_gate_next`: the next entry, empty at the end, and what follows it. -/
def kgGateNext (p : CStr) : CStr × CStr :=
  let p := p.dropWhile kgGateSep
  (p.takeWhile (!kgGateSep ·), p.dropWhile (!kgGateSep ·))

def kgGateNameOk (s : CStr) : Bool :=
  s.length ≠ 0 && s.length < moduleNameLen
    && s.all fun c => kIsAlnum c || c = chUnderscore || c = chMinus || c = chDot

def kgGateHexOk (s : CStr) : Bool :=
  s.length ≠ 0 && s.length < kgGateSrcverMax && s.all kIsXdigit

/-- `struct kg_gate_deny`; an empty `srcver` is every version. -/
structure KgGateDeny where
  name : CStr
  srcver : CStr
  deriving DecidableEq, Repr

/-- The state of the gate: the lists, the lock-mode baseline, the flags and the counters. -/
structure KgGate where
  deny : List KgGateDeny
  allow : List CStr
  ignored : Nat
  base : List CStr
  lock : Bool
  ready : Bool
  denyHits : Nat
  lockHits : Nat
  blocked : Nat
  deriving DecidableEq, Repr

def KgGate.zero : KgGate := ⟨[], [], 0, [], false, false, 0, 0, 0⟩

/-- Module names use `_`, whatever the file is called. -/
def normalise (name : CStr) : CStr := name.map fun c => if c = chMinus then chUnderscore else c

/-- The body of the loop in `kg_gate_parse`, for one entry. -/
def kgGateEntry (isDeny : Bool) (entry : CStr) (g : KgGate) : KgGate :=
  let name := entry.takeWhile (· ≠ chAt)
  let hasAt := decide (chAt ∈ entry)
  let ver := (entry.dropWhile (· ≠ chAt)).tail
  if !kgGateNameOk name || (hasAt && (!isDeny || !kgGateHexOk ver)) then
    { g with ignored := g.ignored + 1 }
  else if (if isDeny then g.deny.length else g.allow.length) ≥ kgGateListMax then
    { g with ignored := g.ignored + 1 }
  else if isDeny then { g with deny := g.deny ++ [⟨normalise name, ver.map kToUpper⟩] }
  else { g with allow := g.allow ++ [normalise name] }

/-- The loop of `kg_gate_parse`, at most `fuel` rounds of it. -/
def kgGateLoop (isDeny : Bool) : Nat → CStr → KgGate → KgGate
  | 0, _, g => g
  | fuel + 1, p, g =>
      let next := kgGateNext p
      if next.1 = [] then g else kgGateLoop isDeny fuel next.2 (kgGateEntry isDeny next.1 g)

/-- `kg_gate_parse`: an entry takes at least one character. -/
def kgGateParse (csv : CStr) (isDeny : Bool) (g : KgGate) : KgGate :=
  kgGateLoop isDeny csv.length csv g

/-! ### Verdicts -/

def kgGateDenied (g : KgGate) (m : KModule) : Bool :=
  g.deny.any fun d =>
    d.name = m.name.chars &&
      (d.srcver = [] || (match m.srcversion with
        | none => false
        | some v => kEqNoCase d.srcver v))

def kgGateTrusted (g : KgGate) (name : CStr) : Bool :=
  g.allow.any (· = name) || g.base.any (· = name)

/-! ### Lock mode -/

/-- `KG_GATE_BASE_MAX`. -/
def kgGateBaseMax : Nat := 1024

def kgGateSnapCb (x : Loaded) (tab : List CStr) : List CStr :=
  if tab.length < kgGateBaseMax then tab ++ [strscpy moduleNameLen x.mod.name.chars] else tab

/-- `kg_gate_snapshot`: the table is built aside and swapped in. -/
def kgGateSnapshot (this : Nat) (alloc allocScratch : Bool) (mods : List Loaded) (g : KgGate) :
    Int × KgGate :=
  if !alloc then (-12, g)
  else
    let r := kgForEachLiveModule this allocScratch mods kgGateSnapCb []
    if r.1 ≠ 0 then (r.1, g) else (0, { g with base := r.2 })

/-- `kg_gate_cfg_set_lock`; `val` is what `param_set_bool` makes of the text written. -/
def kgGateCfgSetLock (this : Nat) (alloc allocScratch : Bool) (mods : List Loaded)
    (val : Except Int Bool) (g : KgGate) : Int × KgGate :=
  match val with
  | .error ret => (ret, g)
  | .ok v =>
      let was := g.lock
      let g := { g with lock := v }
      if g.ready && g.lock && !was then
        let r := kgGateSnapshot this alloc allocScratch mods g
        if r.1 ≠ 0 then (r.1, { r.2 with lock := was }) else r
      else (0, g)

/-! ### The gate -/

/-- The `enforce` and `auto_enforce` parameters. -/
structure EnforceParams where
  enforce : Bool
  autoEnforce : Bool
  deriving DecidableEq, Repr

variable {D : Type} (sha : List UInt8 → Option D) (mac : List UInt8 → KgMac)

def kgEnforcing (p : EnforceParams) (s : KgSys D) : Bool :=
  p.enforce || (p.autoEnforce && decide (kgPosture s ≥ kgPostureHigh))

/-- The notifier's answer: let it pass, or `notifier_from_errno(-EPERM)`. -/
inductive GateAnswer where
  | done
  | eperm
  deriving DecidableEq, Repr

/-- The module with the gate in it. -/
structure GateSys (D : Type) where
  sys : KgSys D
  gate : KgGate
  params : EnforceParams

/-- `kg_gate_notify` at `MODULE_STATE_COMING`; other actions and kernelguard itself pass. -/
def kgGateNotify (this : Nat) (env : Env) (coming : Bool) (m : KModule) (s : GateSys D) :
    GateAnswer × GateSys D :=
  if !coming || m.addr = this then (.done, s)
  else
    let denied := kgGateDenied s.gate m
    let locked := !denied && s.gate.lock && !kgGateTrusted s.gate m.name.chars
    if !denied && !locked then (.done, s)
    else
      let gate :=
        if denied then { s.gate with denyHits := s.gate.denyHits + 1 }
        else { s.gate with lockHits := s.gate.lockHits + 1 }
      let np := kgPackName m.name.chars
      if kgEnforcing s.params s.sys then
        let level := if denied then kgLevelCritical else kgLevelWatch
        (.eperm, { s with
          gate := { gate with blocked := gate.blocked + 1 }
          sys := kgReport sha mac env ⟨kgAlertDriverBlocked, level, np.1, np.2⟩ s.sys })
      else if denied then
        (.done, { s with
          gate := gate
          sys := kgReport sha mac env ⟨kgAlertVulnDriver, kgLevelCritical, np.1, np.2⟩ s.sys })
      else
        (.done, { s with
          gate := gate
          sys := kgReport sha mac env ⟨kgAlertModuleLoaded, kgLevelWatch, np.1, np.2⟩ s.sys })

end KernelGuard
