/-
Loading and unloading the kernel module (`linux/module/kg_main.c` `kg_init` and `kg_exit`, with
the `*_init` and `*_exit` of its parts), against everything that runs meanwhile: notifiers, the
counters' interrupts, the device file, and the work items on `kg_wq`.

The two functions are a program for the thread that runs them; what is allocated in them is a
resource.  A party is listed with what it may use and what it may queue: whoever calls
`kg_report` may raise the posture, and so kick the scans (`kg_pos_after_up`), arm the decay and
queue the uevents.  `kg_input_kick` and its like test a flag and then call `mod_delayed_work`.

Two things are simpler than in the source.  What `kg_init` itself reports is a callback that is
registered only meanwhile, and so may also come twice at a time.  A delay is not modelled, so a
work item that is queued may run at once.
-/
import KernelGuard.Lib.Lifecycle
import Mathlib.Data.Fintype.OfMap

namespace KernelGuard

open Lifecycle

/-- What calls the module from outside. -/
inductive KgCallback where
  | gateNotifier
  | moduleNotifier
  | pciNotifier
  /-- `kg_input_handler`, its `connect`; while it is registered there may be keyboards. -/
  | inputHandler
  /-- The overflow handler of the counters, and its `irq_work`. -/
  | pmuCounters
  | mitHotplug
  /-- An open device file; `rmmod` waits for its end. -/
  | devFile
  /-- Not a callback: what `kg_init` reports itself. -/
  | initReports
  deriving DecidableEq

/-- The work items on `kg_wq`. -/
inductive KgWork where
  | input
  | hw
  | integ
  | pmu
  | decay
  | uevent
  deriving DecidableEq

inductive KgResource where
  /-- `kg_base` of the gate. -/
  | gateBase
  /-- `kg_cur` and `kg_base` of the PCI scan. -/
  | pciTables
  /-- `kg_cpu_base`, `kg_idt_base`, `kg_tmp` and the text regions. -/
  | integTables
  /-- `kg_guard.cpu`. -/
  | guardCpus
  /-- `kc`. -/
  | comms
  /-- `kg_sha_tfm`. -/
  | sha
  deriving DecidableEq

def kgCallbacks : List KgCallback :=
  [.gateNotifier, .moduleNotifier, .pciNotifier, .inputHandler, .pmuCounters, .mitHotplug, .devFile,
    .initReports]

def kgWorks : List KgWork := [.input, .hw, .integ, .pmu, .decay, .uevent]

def kgResources : List KgResource :=
  [.gateBase, .pciTables, .integTables, .guardCpus, .comms, .sha]

theorem mem_kgCallbacks (c : KgCallback) : c ∈ kgCallbacks := by
  cases c <;> decide

theorem mem_kgWorks (w : KgWork) : w ∈ kgWorks := by
  cases w <;> decide

theorem mem_kgResources (r : KgResource) : r ∈ kgResources := by
  cases r <;> decide

instance : Fintype KgCallback := .ofList kgCallbacks mem_kgCallbacks
instance : Fintype KgWork := .ofList kgWorks mem_kgWorks
instance : Fintype KgResource := .ofList kgResources mem_kgResources

abbrev KgOp := Op KgCallback KgWork KgResource
abbrev KgParty := Party KgCallback KgWork

/-- Those that may raise the posture. -/
def kgRaisers : List KgParty :=
  [.callback .gateNotifier, .callback .moduleNotifier, .callback .devFile, .callback .initReports,
    .work .input, .work .hw, .work .integ, .work .pmu]

/-- Those that call `kg_report`. -/
def kgReporters : List KgParty := .work .decay :: kgRaisers

def kgSystem : System KgCallback KgWork KgResource where
  scope
    | .input => some .inputHandler
    | _ => none
  users
    | .gateBase => [.callback .gateNotifier]
    | .pciTables => [.work .hw]
    | .integTables => [.callback .moduleNotifier, .work .integ]
    | .guardCpus => .callback .pmuCounters :: .callback .mitHotplug :: kgReporters
    | .comms => .work .uevent :: kgReporters
    | .sha => .callback .mitHotplug :: kgReporters
  kickers
    | .input => .callback .inputHandler :: kgRaisers
    | .hw => .callback .pciNotifier :: kgRaisers
    | .integ => kgRaisers
    | .pmu => [.callback .pmuCounters, .work .pmu]
    | .decay | .uevent => []
  armers
    | .decay => kgReporters
    | _ => []
  posters
    | .uevent => kgReporters
    | _ => []

/-! ### The parts

A part may be switched off by a parameter, or fail in `kg_init`, which cleans it up at once and
goes on without it; either way it is left out here.  A notifier that could not be registered is
one that never comes.
-/

def kgStateInitOps : List KgOp := [.make .sha]
def kgStateExitOps : List KgOp := [.free .sha]

def kgCommsInitOps : List KgOp := [.make .comms, .prepare .uevent]
def kgCommsExitOps : List KgOp := [.cancel .uevent, .cancel .uevent, .free .comms]

def kgMitInitOps : List KgOp := [.make .guardCpus, .register .mitHotplug]
def kgMitExitOps : List KgOp := [.unregister .mitHotplug, .free .guardCpus]

def kgPostureInitOps : List KgOp := [.prepare .decay, .permit .decay]
def kgPostureExitOps : List KgOp := [.forbid .decay, .cancel .decay]

/-- Something `kg_init` reports. -/
def kgInitReports : List KgOp := [.register .initReports, .unregister .initReports]

def kgModgateInitOps : List KgOp := .make .gateBase :: .register .gateNotifier :: kgInitReports
def kgModgateExitOps : List KgOp := [.unregister .gateNotifier, .free .gateBase]

def kgIntegrityInitOps : List KgOp :=
  [.make .integTables, .register .moduleNotifier, .prepare .integ, .permit .integ, .queue .integ]

def kgIntegrityExitOps : List KgOp :=
  [.unregister .moduleNotifier, .forbid .integ, .cancel .integ, .free .integTables]

def kgHwInitOps : List KgOp :=
  [.make .pciTables, .prepare .hw, .permit .hw, .register .pciNotifier, .queue .hw]

def kgHwExitOps : List KgOp :=
  [.forbid .hw, .unregister .pciNotifier, .cancel .hw, .free .pciTables]

/-- `kg_input_kick` tests `kg_input_running` too, so `permit` is where that is set. -/
def kgInputInitOps : List KgOp :=
  .prepare .input :: .register .inputHandler :: kgInitReports ++ [.permit .input, .queue .input]

def kgInputExitOps : List KgOp := [.forbid .input, .cancel .input, .unregister .inputHandler]

def kgPmuInitOps : List KgOp := [.permit .pmu, .prepare .pmu, .register .pmuCounters, .queue .pmu]
def kgPmuExitOps : List KgOp := [.forbid .pmu, .unregister .pmuCounters, .cancel .pmu]

/-- What must not fail in `kg_init`. -/
inductive KgInitFailure where
  | state
  | comms
  | mit
  | misc
  deriving DecidableEq

theorem mem_kgInitFailures (f : KgInitFailure) :
    f ∈ [KgInitFailure.state, .comms, .mit, .misc] := by
  cases f <;> decide

instance : Fintype KgInitFailure := .ofList _ mem_kgInitFailures

/-- The parts that run. -/
structure KgConfig where
  gate : Bool
  integrity : Bool
  hw : Bool
  input : Bool
  pmu : Bool

/-- The operations of a part, if it runs. -/
def ifRuns (part : Bool) (ops : List KgOp) : List KgOp := if part then ops else []

/-- `kg_init` up to `misc_register`. -/
def kgInit (cfg : KgConfig) : List KgOp :=
  kgStateInitOps ++ kgCommsInitOps ++ kgMitInitOps ++ kgPostureInitOps ++
    ifRuns cfg.gate kgModgateInitOps ++
    ifRuns cfg.integrity kgIntegrityInitOps ++ ifRuns cfg.hw kgHwInitOps ++
    ifRuns cfg.input kgInputInitOps ++ ifRuns cfg.pmu kgPmuInitOps

/-- `kg_exit`; `kg_comms_set_device(NULL)` is first. -/
def kgExit (cfg : KgConfig) : List KgOp :=
  .cancel .uevent :: ifRuns cfg.gate kgModgateExitOps ++ ifRuns cfg.pmu kgPmuExitOps ++
    ifRuns cfg.input kgInputExitOps ++ ifRuns cfg.hw kgHwExitOps ++
    ifRuns cfg.integrity kgIntegrityExitOps ++ kgPostureExitOps ++ kgMitExitOps ++ kgCommsExitOps ++
    kgStateExitOps ++ [.drain]

/-- The label `err_monitors` of `kg_init`; the gate goes after the scans. -/
def kgErrMonitors (cfg : KgConfig) : List KgOp :=
  ifRuns cfg.pmu kgPmuExitOps ++ ifRuns cfg.input kgInputExitOps ++ ifRuns cfg.hw kgHwExitOps ++
    ifRuns cfg.integrity kgIntegrityExitOps ++ ifRuns cfg.gate kgModgateExitOps ++
    kgPostureExitOps ++ kgMitExitOps ++ kgCommsExitOps ++ kgStateExitOps ++ [.drain]

/-- All that happens to the module: it is loaded and at some time unloaded, or loading fails. -/
def kgLife (cfg : KgConfig) : Option KgInitFailure → List KgOp
  | none => kgInit cfg ++ .register .devFile :: .queue .uevent :: .unregister .devFile :: kgExit cfg
  | some .state => [.drain]
  | some .comms => kgStateInitOps ++ kgStateExitOps ++ [.drain]
  | some .mit => kgStateInitOps ++ kgCommsInitOps ++ kgCommsExitOps ++ kgStateExitOps ++ [.drain]
  | some .misc => kgInit cfg ++ kgErrMonitors cfg

/-- The stop flags as they are in the image: the PCI and integrity scans are off, the keyboard
scan does not run, and `kg_pos_ready` is not set. -/
def kgStopped : List KgWork := [.hw, .integ, .input, .decay]

def kgLoaded (cfg : KgConfig) (failure : Option KgInitFailure) :
    State KgCallback KgWork KgResource :=
  .initial kgStopped.contains (kgLife cfg failure)

end KernelGuard
