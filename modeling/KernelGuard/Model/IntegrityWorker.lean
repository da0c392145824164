/-
The integrity worker on Windows (`windows/src/kernel_integrity.c`), `DispatchCrossModuleEvent`
and fail-safe mode (`windows/src/shared_state.c`), and `ExecuteSecurityBoundaryFlush` of
`KernelGuard.h`.

`DispatchCrossModuleEvent` is called by every part of the driver, on any CPU and at any IRQL, and
takes no lock; so a call is a thread of its own, and the worker is one more.  An operation is what
such a thread does at once: it reads what is in memory at that time, and comes to the operations
that follow from it.  `VerifyModuleIntegrity` is one operation: the text of a module is read at
one time here, where `ComputeSha256` works through it while others may write to it.  The digest
of a text that is changed while it is hashed is not modelled.

`LogAlert` is the signal it sends.  `ScanKeyboardDrivers` names the class driver `Kbclass`, as it
stands in `kTargets`; the driver of the system is called `Kbdclass`.
-/
import KernelGuard.Lib.Bytes
import KernelGuard.Lib.Threads
import KernelGuard.Model.PolicyParse
import KernelGuard.Model.Uapi
import Mathlib.Logic.Function.Basic

namespace KernelGuard

open Threads

/-! ### SHA-256 through BCrypt -/

def hashChunkSize : Nat := 64 * 1024

/-- `UCHAR[32]`. -/
abbrev KiDigest := Fin 32 → UInt8

/-- Which of the calls in a `ComputeSha256` succeed; `hashed i` is the `i`-th `BCryptHashData`. -/
structure BCryptCalls where
  opened : Bool
  created : Bool
  hashed : Nat → Bool
  finished : Bool

/-- The loop over the chunks, with `rest` to go; what was given to the hash. -/
def hashChunks (bc : BCryptCalls) : Nat → Nat → List UInt8 → List UInt8 → Option (List UInt8)
  | 0, _, _, given => some given
  | fuel + 1, i, rest, given =>
      if rest.isEmpty then some given
      else if bc.hashed i then
        hashChunks bc fuel (i + 1) (rest.drop hashChunkSize) (given ++ rest.take hashChunkSize)
      else none

/-- `ComputeSha256`. -/
def computeSha256 (sha : List UInt8 → KiDigest) (bc : BCryptCalls) (data : List UInt8) :
    Option KiDigest :=
  if bc.opened && bc.created then
    match hashChunks bc data.length 0 data [] with
    | none => none
    | some given => if bc.finished then some (sha given) else none
  else none

/-- `ConstantTimeMemEq`. -/
def constantTimeMemEq (a b : KiDigest) : Bool :=
  ((List.finRange 32).foldl (fun diff i => diff ||| (a i ^^^ b i).toUInt32) (0 : UInt32)) == 0

/-! ### State -/

/-- `MITIGATION_STRATEGY`. -/
inductive MitigationStrategy where
  | none
  | verwOnly
  | l1dFlushOnly
  | verwPlusL1d
  | fullSpectrum
  deriving DecidableEq

/-- `CPU_MITIGATIONS`. -/
structure CpuMitigations where
  features : UInt32
  strategy : MitigationStrategy

def cpuFeatIbrsAll : UInt32 := 0x0008
def cpuFeatL1dFlush : UInt32 := 0x0020

/-- What a flush executes. -/
inductive FlushInstr where
  | verw
  | l1dFlush
  | barrier
  deriving DecidableEq

/-- The part of `DRIVER_SHARED_STATE` in front of `StateLock`. -/
structure PolicyBlock where
  policyVersion : UInt32
  enforceMode : UInt32
  currentClos : UInt32
  lockMode : UInt32
  deriving DecidableEq

def PolicyBlock.bytes (p : PolicyBlock) : List UInt8 :=
  Bytes.leBytes 4 p.policyVersion.toNat ++ Bytes.leBytes 4 p.enforceMode.toNat ++
    Bytes.leBytes 4 p.currentClos.toNat ++ Bytes.leBytes 4 p.lockMode.toNat

/-- `BASELINE_ENTRY`. -/
structure BaselineEntry where
  textSectionBase : UInt64
  textSectionSize : UInt32
  sha256Hash : KiDigest
  verified : Bool
  hashComputed : Bool

/-! ### The baseline -/

def maxBaselineEntries : Nat := 128

/-- Bytes of memory; `none` where it cannot be read. -/
def readBytes (mem : UInt64 → Option UInt8) (addr : UInt64) (n : Nat) : Option (List UInt8) :=
  (List.range n).mapM fun i => mem (addr + UInt64.ofNat i)

/-- A number of `n` bytes. -/
def readLe (mem : UInt64 → Option UInt8) (addr : UInt64) (n : Nat) : Option Nat :=
  (readBytes mem addr n).map Bytes.leValue

/-- The header of the first section whose name begins with `.text`, of the `n` from `sec` on. -/
def findTextSection (mem : UInt64 → Option UInt8) : Nat → UInt64 → Option (Option UInt64)
  | 0, _ => some none
  | n + 1, sec => do
      let name ← readBytes mem sec 5
      if name = str ".text" then some (some sec) else findTextSection mem n (sec + 40)

/-- The body of the loop over the modules: the entry, or none.  The outer `none` is an exception,
after which the loop goes on. -/
def baselineEntry (sha : List UInt8 → KiDigest) (bc : BCryptCalls) (mem : UInt64 → Option UInt8)
    (base : UInt64) : Option (Option BaselineEntry) := do
  let magic ← readLe mem base 2
  if magic ≠ 0x5A4D then return none
  let lfanew ← readLe mem (base + 0x3C) 4
  let nt := base + (UInt32.ofNat lfanew).toInt32.toInt64.toUInt64
  let signature ← readLe mem nt 4
  if signature ≠ 0x4550 then return none
  let sections ← readLe mem (nt + 6) 2
  let optional ← readLe mem (nt + 20) 2
  match ← findTextSection mem sections (nt + 24 + UInt64.ofNat optional) with
  | none => return none
  | some sec =>
      let virtualSize ← readLe mem (sec + 8) 4
      let virtualAddress ← readLe mem (sec + 12) 4
      let textSectionBase := base + UInt64.ofNat virtualAddress
      let text ← readBytes mem textSectionBase virtualSize
      match computeSha256 sha bc text with
      | none => return none
      | some hash =>
          return some ⟨textSectionBase, UInt32.ofNat virtualSize, hash, false, true⟩

/-- `BuildIntegrityBaseline`, for the images at `bases`; `bc` are the calls for each. -/
def buildIntegrityBaseline (sha : List UInt8 → KiDigest) (bc : UInt64 → BCryptCalls)
    (mem : UInt64 → Option UInt8) (bases : List UInt64) : List BaselineEntry :=
  bases.foldl (fun entries base =>
    if entries.length ≥ maxBaselineEntries ∨ base = 0 then entries
    else
      match baselineEntry sha (bc base) mem base with
      | some (some e) => entries ++ [e]
      | _ => entries) []

/-- What is seen from outside. -/
inductive KiOutput where
  /-- `DispatchCrossModuleEvent` is called. -/
  | dispatched (a : Alert)
  /-- `SecureCommNotify`. -/
  | notified (a : Alert)
  /-- `SecureCommMsrSignal`. -/
  | signalled (type : UInt32)
  | flushed (cpu : Nat) (instrs : List FlushInstr)
  /-- IBRS and STIBP are switched on. -/
  | controlsOn (cpu : Nat)
  /-- `VerifyModuleIntegrity` of this entry. -/
  | checked (i : Nat)
  deriving DecidableEq

/-- `g_SharedState`, `g_CpuMit`, the first `g_BaselineCount` entries of `g_Baseline`, `verifyIdx`
of the worker, and what was put out. -/
structure KiShared where
  policy : PolicyBlock
  failSafeMode : Bool
  integrityValid : Bool
  stateHash : KiDigest
  idtHookDetected : Bool
  dispatchHookDetected : Bool
  textPatchDetected : Bool
  failedModuleHashCount : UInt32
  totalFlushCount : UInt32
  mit : Nat → CpuMitigations
  baseline : List BaselineEntry
  verifyIdx : UInt32
  log : List KiOutput

/-! ### What is read -/

/-- `IDT_ENTRY_64`. -/
structure IdtEntry64 where
  offsetLow : UInt16
  selector : UInt16
  gateType : UInt8
  dpl : UInt8
  present : Bool
  offsetMid : UInt16
  offsetHigh : UInt32

def IdtEntry64.handler (e : IdtEntry64) : UInt64 :=
  e.offsetHigh.toUInt64 <<< 32 ||| e.offsetMid.toUInt64 <<< 16 ||| e.offsetLow.toUInt64

/-- `DRIVER_OBJECT`. -/
structure DriverObject where
  driverStart : UInt64
  driverSize : UInt32
  majorFunction : Nat → UInt64

/-- What an operation finds: the CPU it is on and its IDT, the drivers, and memory. -/
structure KiWorld where
  cpu : Nat
  idt : Nat → IdtEntry64
  /-- `GetNtoskrnlBase`, `GetNtoskrnlSize`. -/
  ntBase : UInt64
  ntSize : UInt32
  /-- `ObReferenceObjectByName`. -/
  driver : CStr → Option DriverObject
  /-- The first eight bytes there, if they can be read. -/
  prologue : UInt64 → Option (Nat → UInt8)
  /-- The bytes there. -/
  text : UInt64 → UInt32 → List UInt8
  bcrypt : BCryptCalls

/-! ### Operations -/

inductive KiOp where
  /-- A turn of the loop in `IdtVerifyKeyboardHandler`. -/
  | idtVector (vector : Nat)
  /-- `CheckDispatchHook`, for a driver of this name. -/
  | checkDispatchHook (name : CStr) (major : Nat)
  | verifyModuleIntegrity
  | verifySharedStateIntegrity
  | dispatchCrossModuleEvent (a : Alert)
  /-- `g_CpuMit[cpu].Strategy = MitigateFullSpectrum`. -/
  | escalate (cpu : Nat)
  | executeSecurityBoundaryFlush (cpu : Nat)
  | enableSpeculationControls (cpu : Nat)
  | enterFailSafeMode
  /-- The rest of `EnterFailSafeMode`, where `FailSafeMode` was found unset. -/
  | failSafe
  | secureCommNotify (a : Alert)
  | secureCommMsrSignal (type : UInt32)
  | setIdtHook
  | setDispatchHook
  /-- The end of `VerifyModuleIntegrity` when the hash differs. -/
  | setTextPatch (i : Nat)
  deriving DecidableEq

/-- `kTargets`, each with what is in front of its `0xFF`. -/
def kbdTargets : List (CStr × List Nat) :=
  [(str "\\Driver\\Kbclass", [0x03, 0x0e]), (str "\\Driver\\Kbdhid", [0x03, 0x0f]),
    (str "\\Driver\\i8042prt", [0x03, 0x0f])]

/-- `ScanKeyboardDrivers`. -/
def scanKeyboardDrivers : List KiOp :=
  kbdTargets.flatMap fun t => t.2.map (.checkDispatchHook t.1)

/-- `kbdVectors`. -/
def kbdVectors : List Nat := [0x21, 0x24, 0x31]

/-- `IdtVerifyKeyboardHandler`. -/
def idtVerifyKeyboardHandler : List KiOp := kbdVectors.map .idtVector

/-- `g_HookSigs`: a byte of the prologue with what it has to be. -/
def hookSigs : List (List (Nat × UInt8)) :=
  [[(0, 0xE9)], [(0, 0x68), (5, 0xC3)], [(0, 0xFF), (1, 0x25)], [(0, 0x48), (1, 0xB8)],
    [(0, 0xCC), (1, 0xCC)], [(0, 0xE8)]]

def hookMatches (prologue : Nat → UInt8) (sig : List (Nat × UInt8)) : Bool :=
  sig.all fun b => prologue b.1 == b.2

/-- `LogAlert`. -/
def logAlert (type : UInt32) : KiOp := .secureCommMsrSignal type

/-- The body of the loop over the vectors. -/
def idtVectorOps (w : KiWorld) (vector : Nat) : List KiOp :=
  let entry := w.idt vector
  let handler := entry.handler
  let vec := UInt64.ofNat vector
  if !entry.present then []
  else if entry.gateType ≠ 0xE ∧ entry.gateType ≠ 0xF then
    [logAlert kgAlertIdtHook, .dispatchCrossModuleEvent ⟨kgAlertIdtHook, 2, vec, handler⟩,
      .setIdtHook]
  else
    (if entry.dpl ≠ 0 then
      [logAlert kgAlertIdtHook, .dispatchCrossModuleEvent ⟨kgAlertIdtHook, 1, vec, handler⟩]
    else []) ++
    (if entry.selector ≠ 0x10 ∧ entry.selector ≠ 0x08 then [logAlert kgAlertIdtHook] else []) ++
    (if w.ntBase ≠ 0 ∧ (handler < w.ntBase ∨ handler ≥ w.ntBase + w.ntSize.toUInt64) then
      [logAlert kgAlertIdtHook, .dispatchCrossModuleEvent ⟨kgAlertIdtHook, 2, handler, w.ntBase⟩,
        .setIdtHook]
    else [])

/-- What `CheckDispatchHook` reports. -/
def dispatchHookFound (p1 p2 : UInt64) : List KiOp :=
  [logAlert kgAlertDispatchHook, .dispatchCrossModuleEvent ⟨kgAlertDispatchHook, 2, p1, p2⟩,
    .setDispatchHook]

/-- `CheckDispatchHook`; a driver that is not there is skipped by the caller. -/
def checkDispatchHookOps (w : KiWorld) (name : CStr) (major : Nat) : List KiOp :=
  match w.driver name with
  | none => []
  | some drv =>
      let addr := drv.majorFunction major
      if addr = 0 then []
      else if addr < drv.driverStart ∨ addr ≥ drv.driverStart + drv.driverSize.toUInt64 then
        dispatchHookFound addr drv.driverStart
      else
        match w.prologue addr with
        | none => []
        | some prologue =>
            match hookSigs.findIdx? (hookMatches prologue) with
            | none => []
            | some i => dispatchHookFound addr (UInt64.ofNat i)

/-- The end of `DispatchCrossModuleEvent`. -/
def kiDeliver (passive : Bool) (a : Alert) : KiOp :=
  if passive then .secureCommNotify a else .secureCommMsrSignal a.type

def textPatchAlert (e : BaselineEntry) : Alert :=
  ⟨kgAlertTextPatch, 2, e.textSectionBase, e.textSectionSize.toUInt64⟩

/-- What `VerifyModuleIntegrity` reports. -/
def textPatchFound (i : Nat) (e : BaselineEntry) : List KiOp :=
  [logAlert kgAlertTextPatch, .dispatchCrossModuleEvent (textPatchAlert e), .setTextPatch i]

/-- `DispatchCrossModuleEvent`, on the CPU it is called on. -/
def dispatchOps (passive : Bool) (cpu : Nat) (a : Alert) : List KiOp :=
  if a.type = kgAlertPmuL1dAnomaly ∨ a.type = kgAlertPmuL2Anomaly then
    (if a.level ≥ 2 then [.escalate cpu, .executeSecurityBoundaryFlush cpu] else []) ++
      [kiDeliver passive a]
  else if a.type = kgAlertPmuRdtscRate then [.enableSpeculationControls cpu, kiDeliver passive a]
  else if a.type = kgAlertUnauthorizedDma then
    [.executeSecurityBoundaryFlush cpu, kiDeliver passive a]
  else if a.type = kgAlertPciDiscrepancy then
    (if passive then scanKeyboardDrivers else []) ++ [kiDeliver passive a]
  else if a.type = kgAlertIdtHook then
    [.escalate cpu, .executeSecurityBoundaryFlush cpu, kiDeliver passive a]
  else if a.type = kgAlertTextPatch ∨ a.type = kgAlertDispatchHook then
    [.secureCommNotify { a with level := 2 }, .enterFailSafeMode, kiDeliver passive a]
  else if a.type = kgAlertSharedStateCorrupt then [.enterFailSafeMode, kiDeliver passive a]
  else if a.type = kgAlertVulnDriver then
    if a.level ≥ 2 then [kiDeliver passive a, .enterFailSafeMode] else [kiDeliver passive a]
  else [kiDeliver passive a]

/-- The `switch` of `ExecuteSecurityBoundaryFlush`. -/
def flushInstrs (m : CpuMitigations) : List FlushInstr :=
  let l1d := if m.features &&& cpuFeatL1dFlush ≠ 0 then [.l1dFlush] else []
  match m.strategy with
  | .none => []
  | .verwOnly => [.verw]
  | .l1dFlushOnly => l1d
  | .verwPlusL1d => .verw :: l1d
  | .fullSpectrum => .verw :: l1d ++ [.barrier]

def KiShared.put (s : KiShared) (out : KiOutput) : KiShared := { s with log := s.log ++ [out] }

/-- The alert of `EnterFailSafeMode`. -/
def failSafeAlert : Alert := ⟨kgAlertFailSafeEntered, 2, 0, 0⟩

/-- `EnterFailSafeMode`, behind the assignment. -/
def failSafeOps (numCpus : Nat) (passive : Bool) : List KiOp :=
  (List.range numCpus).map .escalate ++
    (if passive then [.secureCommNotify failSafeAlert] else []) ++
    [.secureCommMsrSignal failSafeAlert.type]

section

variable (numCpus : Nat) (sha : List UInt8 → KiDigest)

/-- `VerifyModuleIntegrity`, of entry `i`. -/
def verifyModuleIntegrity (w : KiWorld) (i : Nat) (e : BaselineEntry) (s : KiShared) :
    List KiOp × KiShared :=
  if !e.hashComputed then ([], s)
  else
    match computeSha256 sha w.bcrypt (w.text e.textSectionBase e.textSectionSize) with
    | none => ([], s)
    | some currentHash =>
        if constantTimeMemEq currentHash e.sha256Hash then
          ([], { s with baseline := s.baseline.set i { e with verified := true } })
        else (textPatchFound i e, s)

/-- What an operation of a thread does; `passive` is whether the thread is at `PASSIVE_LEVEL`. -/
def kiExec (passive : Bool) (w : KiWorld) (op : KiOp) (s : KiShared) : List KiOp × KiShared :=
  match op with
  | .idtVector vector => (idtVectorOps w vector, s)
  | .checkDispatchHook name major => (checkDispatchHookOps w name major, s)
  | .verifyModuleIntegrity =>
      let i := s.verifyIdx.toNat % s.baseline.length
      match s.baseline[i]? with
      | none => ([], s)
      | some e =>
          verifyModuleIntegrity sha w i e
            { s.put (.checked i) with verifyIdx := s.verifyIdx + 1 }
  | .verifySharedStateIntegrity =>
      let ok :=
        match computeSha256 sha w.bcrypt s.policy.bytes with
        | none => false
        | some computed => constantTimeMemEq computed s.stateHash
      (if ok then []
        else [logAlert kgAlertSharedStateCorrupt,
          .dispatchCrossModuleEvent ⟨kgAlertSharedStateCorrupt, 2, 0, 0⟩],
        { s with integrityValid := ok })
  | .dispatchCrossModuleEvent a => (dispatchOps passive w.cpu a, s.put (.dispatched a))
  | .escalate cpu =>
      ([], { s with mit := Function.update s.mit cpu { s.mit cpu with strategy := .fullSpectrum } })
  | .executeSecurityBoundaryFlush cpu =>
      ([], { s.put (.flushed cpu (flushInstrs (s.mit cpu))) with
        totalFlushCount := s.totalFlushCount + 1 })
  | .enableSpeculationControls cpu =>
      ([], if (s.mit cpu).features &&& cpuFeatIbrsAll = 0 then s else s.put (.controlsOn cpu))
  | .enterFailSafeMode => (if s.failSafeMode then [] else [.failSafe], s)
  | .failSafe => (failSafeOps numCpus passive, { s with failSafeMode := true })
  | .secureCommNotify a => ([], s.put (.notified a))
  | .secureCommMsrSignal type => ([], s.put (.signalled type))
  | .setIdtHook => ([], { s with idtHookDetected := true })
  | .setDispatchHook => ([], { s with dispatchHookDetected := true })
  | .setTextPatch i =>
      ([], { s with
        baseline := s.baseline.modify i ({ · with verified := false })
        textPatchDetected := true
        failedModuleHashCount := s.failedModuleHashCount + 1 })

/-- One turn of `IntegrityWorkerThread`. -/
def integrityWorkerTurn (s : KiShared) : List KiOp :=
  idtVerifyKeyboardHandler ++ scanKeyboardDrivers ++
    (if s.baseline.length > 0 then [.verifyModuleIntegrity] else []) ++
    [.verifySharedStateIntegrity]

abbrev KiState := State KiShared Bool KiOp

inductive KiMove where
  /-- A part of the driver calls `DispatchCrossModuleEvent`. -/
  | event (passive : Bool) (a : Alert)
  /-- The wait of the worker times out. -/
  | timeout
  /-- The next operation of a thread. -/
  | step (i : Nat) (w : KiWorld)
  /-- `UpdateSharedStateHash` at the end of `DriverEntry`. -/
  | updateHash (bc : BCryptCalls)
  /-- Something writes to the block of the policy. -/
  | tamper (policy : PolicyBlock)

/-- `UpdateSharedStateHash`. -/
def updateSharedStateHash (bc : BCryptCalls) (s : KiShared) : KiShared :=
  match computeSha256 sha bc s.policy.bytes with
  | none => s
  | some h => { s with stateHash := h }

/-- The worker is thread `0`. -/
def kiStep (s : KiState) : KiMove → KiState
  | .event passive a => spawn s ⟨passive, [.dispatchCrossModuleEvent a]⟩
  | .timeout => wake s 0 (integrityWorkerTurn s.shared)
  | .step i w => next (kiExec numCpus sha) s i w
  | .updateHash bc => { s with shared := updateSharedStateHash sha bc s.shared }
  | .tamper policy => { s with shared := { s.shared with policy := policy } }

end

/-- When the thread of the worker is created: the policy is read, the CPUs are probed, and the
baseline is taken; the hash of the shared state is not there yet. -/
def KiState.start (policy : PolicyBlock) (mit : Nat → CpuMitigations)
    (baseline : List BaselineEntry) : KiState where
  shared :=
    { policy := policy
      failSafeMode := false
      integrityValid := true
      stateHash := fun _ => 0
      idtHookDetected := false
      dispatchHookDetected := false
      textPatchDetected := false
      failedModuleHashCount := 0
      totalFlushCount := 0
      mit := mit
      baseline := baseline
      verifyIdx := 0
      log := [] }
  threads := [⟨true, []⟩]

end KernelGuard
