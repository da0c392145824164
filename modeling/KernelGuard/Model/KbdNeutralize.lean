/-
Keyboard filters on Windows (`src/windows/src/hw_keylogger_detect.c`): the walk of
`PciDetectDiscrepancies` over the device stacks, `NeutralizeKbdFilterDriver`,
`EnsureNeutralizedStillPatched`, `NeutralizePassThroughDispatch` and the unload, between
drivers that write to their own dispatch tables and stacks that change.

A step is one access to a stack, one critical section under `g_NeutralizedLock`, or something
that happens outside; what another driver writes comes before or after a critical section.
Devices and drivers are not deleted while they are in the table, the clock and the rest of the
monitor's pass are not modelled, and `DispatchCrossModuleEvent` is an output.
-/
import KernelGuard.Model.PolicyParse

namespace KernelGuard

def maxNeutralizedFilters : Nat := 16
def maxReportedFilters : Nat := 16

/-- The entries of `MajorFunction` the driver patches. -/
inductive IrpMajor where
  | read
  | internalDeviceControl
  deriving DecidableEq

/-- A dispatch routine: `NeutralizePassThroughDispatch`, or one of the driver's own. -/
inductive Dispatch where
  | passThrough
  | own (addr : Nat)
  deriving DecidableEq

/-- What does not change: the objects, `RtlUpcaseUnicodeChar`, and `KgEnforcing()`, which is
set once at the start. -/
structure KbdObjects where
  /-- `DriverObject` of a device. -/
  driver : Nat → Option Nat
  /-- `DriverName` of a driver, if it has a buffer. -/
  name : Nat → Option (List UInt16)
  upcase : UInt16 → UInt16
  enforcing : Bool

/-- `NEUTRALIZED_FILTER`; `original` is `OriginalRead` and `OriginalIntDc`. -/
structure NeutralizedFilter where
  unauthorizedDev : Nat
  lowerDev : Option Nat
  original : IrpMajor → Option Dispatch
  driverName : CStr

/-- Where the thread that walks the stacks is. -/
inductive KbdAt where
  | idle
  /-- At the top of the loop over a stack. -/
  | look (prev : Option Nat) (current : Nat)
  /-- In `NeutralizeKbdFilterDriver`, in front of the lock. -/
  | neutralize (prev : Option Nat) (current drv : Nat) (isTopmost : Bool)
  /-- `IoDetachDevice` is next. -/
  | detach (lower current drv : Nat)
  /-- The alert of `NeutralizeKbdFilterDriver` is next. -/
  | alert (current drv : Nat) (isTopmost : Bool)
  /-- `AttachedDevice` of the device is next. -/
  | advance (current : Nat)
  /-- The thread has ended and the tables are restored. -/
  | unloaded
  deriving DecidableEq

structure KbdState where
  /-- The first `g_NeutralizedCount` entries of `g_NeutralizedFilters`. -/
  filters : List NeutralizedFilter
  reported : List Nat
  /-- `g_SharedState.HwDiscrepancyCount`. -/
  discrepancies : UInt32
  major : Nat → IrpMajor → Dispatch
  attached : Nat → Option Nat
  at_ : KbdAt

inductive KbdMove where
  /-- `IoGetDeviceObjectPointer` gives this device for the next keyboard. -/
  | keyboard (dev : Nat)
  /-- The next step of the walk. -/
  | step
  /-- `EnsureNeutralizedStillPatched`. -/
  | ensure
  /-- `HwKeyloggerUninitialize`. -/
  | unload
  /-- A driver writes a routine of its own to its dispatch table. -/
  | rewrite (drv : Nat) (slot : IrpMajor) (addr : Nat)
  /-- A device is attached on the topmost device of a stack, and the one on `lower` detached. -/
  | attach (top dev : Nat)
  | detach (lower : Nat)
  /-- The I/O manager calls the routine of the device's driver. -/
  | irp (dev : Nat) (slot : IrpMajor)
  deriving DecidableEq

inductive KbdEvent where
  /-- "Unauthorized keyboard filter detected: %wZ%s", the second without enforcement
  " (detect-only: not neutralized)". -/
  | unauthorized (dev drv : Nat) (enforcing : Bool)
  /-- "Neutralized filter table full — cannot neutralize %s". -/
  | tableFull (name : CStr)
  /-- "Keyboard filter neutralized: %s (patch+%s)", and the cross-module event. -/
  | neutralized (dev : Nat) (name : CStr) (isTopmost : Bool)
  /-- "Filter %s restored handler — re-patched". -/
  | repatched (name : CStr)
  /-- `IoDetachDevice`. -/
  | detached (lower : Nat)
  /-- An IRP is passed to the device below. -/
  | forwarded (dev lower : Nat)
  /-- An IRP is completed with `STATUS_DEVICE_NOT_CONNECTED`. -/
  | notConnected (dev : Nat)
  /-- An IRP is handled by the driver's own routine. -/
  | handled (dev addr : Nat)
  deriving DecidableEq

/-- `g_WhitelistedDrivers`. -/
def whitelistedDrivers : List (List UInt16) :=
  [str "\\Driver\\Kbdclass", str "\\Driver\\Kbdhid", str "\\Driver\\i8042prt",
    str "\\Driver\\KernelGuard"].map fun name => name.map (·.toUInt16)

/-- `IsWhitelistedDriver`; `RtlEqualUnicodeString` compares without case. -/
def isWhitelistedDriver (upcase : UInt16 → UInt16) (name : List UInt16) : Bool :=
  whitelistedDrivers.any fun w => name.map upcase = w.map upcase

namespace KbdObjects

/-- The driver of a device, if the walk takes the device for an unauthorized filter. -/
def unauthorized (w : KbdObjects) (dev : Nat) : Option Nat := do
  let drv ← w.driver dev
  let name ← w.name drv
  if isWhitelistedDriver w.upcase name then none else some drv

/-- `nameBuf`. -/
def nameBuf (w : KbdObjects) (drv : Nat) : CStr :=
  match w.name drv with
  | none => str "<unknown>"
  | some name => (name.take 127).map (·.toUInt8)

end KbdObjects

/-- Whether the device is in the table. -/
def isNeutralized (filters : List NeutralizedFilter) (dev : Nat) : Bool :=
  filters.any fun nf => nf.unauthorizedDev = dev

/-- Write `LowerDev` of the entry of a device. -/
def setLower (dev : Nat) (lower : Option Nat) : List NeutralizedFilter → List NeutralizedFilter
  | [] => []
  | nf :: rest =>
      if nf.unauthorizedDev = dev then { nf with lowerDev := lower } :: rest
      else nf :: setLower dev lower rest

/-- The loop of `EnsureNeutralizedStillPatched`: the entries, the dispatch tables, and the name
of the last driver that had a routine restored. -/
def ensureLoop (w : KbdObjects) :
    List NeutralizedFilter → (Nat → IrpMajor → Dispatch) →
      List NeutralizedFilter × (Nat → IrpMajor → Dispatch) × Option CStr
  | [], major => ([], major, none)
  | nf :: rest, major =>
      match w.driver nf.unauthorizedDev with
      | none =>
          let (rest', major', name) := ensureLoop w rest major
          (nf :: rest', major', name)
      | some drv =>
          let tampered :=
            major drv .read ≠ .passThrough ∨ major drv .internalDeviceControl ≠ .passThrough
          let nf' := { nf with
            original := fun slot =>
              if major drv slot = .passThrough then nf.original slot else some (major drv slot) }
          let (rest', major', name) :=
            ensureLoop w rest (Function.update major drv fun _ => .passThrough)
          (nf' :: rest', major', name <|> if tampered then some nf.driverName else none)

/-- What the unload writes to a slot of the driver of an entry. -/
def NeutralizedFilter.restore (nf : NeutralizedFilter) (major : IrpMajor → Dispatch)
    (slot : IrpMajor) : Dispatch :=
  match nf.original slot with
  | some original => if major slot = .passThrough then original else major slot
  | none => major slot

/-- The loop of `HwKeyloggerUninitialize`. -/
def restoreLoop (w : KbdObjects) :
    List NeutralizedFilter → (Nat → IrpMajor → Dispatch) → Nat → IrpMajor → Dispatch
  | [], major => major
  | nf :: rest, major =>
      match w.driver nf.unauthorizedDev with
      | none => restoreLoop w rest major
      | some drv =>
          restoreLoop w rest (Function.update major drv (nf.restore (major drv)))

namespace KbdState

/-- The first half of a turn of the walk: the device is judged and, once, reported. -/
def lookAt (w : KbdObjects) (prev : Option Nat) (current : Nat) (s : KbdState) :
    List KbdEvent × KbdState :=
  match w.unauthorized current with
  | none => ([], { s with at_ := .advance current })
  | some drv =>
      let inTable := isNeutralized s.filters current
      let seen := !w.enforcing && s.reported.contains current
      let at_ :=
        if w.enforcing then .neutralize prev current drv (s.attached current).isNone
        else .advance current
      if inTable || seen then ([], { s with at_ := at_ })
      else
        ([.unauthorized current drv w.enforcing],
          { s with
            reported :=
              if !w.enforcing && s.reported.length < maxReportedFilters then s.reported ++ [current]
              else s.reported
            discrepancies := s.discrepancies + 1
            at_ := at_ })

/-- The entry `NeutralizeKbdFilterDriver` makes; the routines are saved unless the stub is there. -/
def entryFor (s : KbdState) (w : KbdObjects) (lower : Option Nat) (dev drv : Nat) :
    NeutralizedFilter where
  unauthorizedDev := dev
  lowerDev := lower
  original := fun slot => if s.major drv .read = .passThrough then none else some (s.major drv slot)
  driverName := w.nameBuf drv

/-- Where it goes on behind the lock: the topmost device of a stack is detached. -/
def behindPatch (lower : Option Nat) (dev drv : Nat) (isTopmost : Bool) : KbdAt :=
  match isTopmost, lower with
  | true, some l => .detach l dev drv
  | _, _ => .alert dev drv isTopmost

/-- The critical section of `NeutralizeKbdFilterDriver`. -/
def neutralizeKbdFilterDriver (w : KbdObjects) (lower : Option Nat) (dev drv : Nat)
    (isTopmost : Bool) (s : KbdState) : List KbdEvent × KbdState :=
  if isNeutralized s.filters dev then
    ([], { s with filters := setLower dev lower s.filters, at_ := .advance dev })
  else if s.filters.length ≥ maxNeutralizedFilters then
    ([.tableFull (w.nameBuf drv)], { s with at_ := .advance dev })
  else
    ([],
      { s with
        filters := s.filters ++ [s.entryFor w lower dev drv]
        major :=
          if s.major drv .read = .passThrough then s.major
          else Function.update s.major drv fun _ => .passThrough
        at_ := behindPatch lower dev drv isTopmost })

/-- The next step of the walk. -/
def next (w : KbdObjects) (s : KbdState) : List KbdEvent × KbdState :=
  match s.at_ with
  | .idle | .unloaded => ([], s)
  | .look prev current => s.lookAt w prev current
  | .neutralize prev current drv isTopmost =>
      s.neutralizeKbdFilterDriver w prev current drv isTopmost
  | .detach lower current drv =>
      ([.detached lower],
        { s with
          attached := Function.update s.attached lower none
          at_ := .alert current drv true })
  | .alert current drv isTopmost =>
      ([.neutralized current (w.nameBuf drv) isTopmost], { s with at_ := .advance current })
  | .advance current =>
      match s.attached current with
      | none => ([], { s with at_ := .idle })
      | some above => ([], { s with at_ := .look (some current) above })

/-- `NeutralizePassThroughDispatch`. -/
def passThroughDispatch (s : KbdState) (dev : Nat) : KbdEvent :=
  match (s.filters.find? fun nf => nf.unauthorizedDev = dev).bind (·.lowerDev) with
  | none => .notConnected dev
  | some lower => .forwarded dev lower

end KbdState

def kbdMove (w : KbdObjects) (s : KbdState) : KbdMove → List KbdEvent × KbdState
  | .keyboard dev =>
      if s.at_ = .idle then ([], { s with at_ := .look none dev }) else ([], s)
  | .step => s.next w
  | .ensure =>
      if s.at_ = .idle then
        let (filters, major, name) := ensureLoop w s.filters s.major
        ((name.map .repatched).toList, { s with filters := filters, major := major })
      else ([], s)
  | .unload =>
      if s.at_ = .idle then
        ([], { s with major := restoreLoop w s.filters s.major, at_ := .unloaded })
      else ([], s)
  | .rewrite drv slot addr =>
      ([], { s with
        major := Function.update s.major drv (Function.update (s.major drv) slot (.own addr)) })
  | .attach top dev =>
      if s.attached top = none then
        ([], { s with attached := Function.update s.attached top (some dev) })
      else ([], s)
  | .detach lower => ([], { s with attached := Function.update s.attached lower none })
  | .irp dev slot =>
      match w.driver dev with
      | none => ([], s)
      | some drv =>
          match s.major drv slot with
          | .passThrough => ([s.passThroughDispatch dev], s)
          | .own addr => ([.handled dev addr], s)

/-- `HwKeyloggerInitialize`, in front of the first walk. -/
def KbdState.start (first : Nat → IrpMajor → Nat) (attached : Nat → Option Nat)
    (discrepancies : UInt32) : KbdState where
  filters := []
  reported := []
  discrepancies := discrepancies
  major := fun drv slot => .own (first drv slot)
  attached := attached
  at_ := .idle

end KernelGuard
