/-
The table of monitored text regions (`linux/module/kg_integrity.c`), from
`kg_integrity_init` on.

The table is filled from two sources: init enumerates the modules that are LIVE, and a
notifier, registered after that, follows the modules that come and go.  Init is cut
into its steps (its own text, the snapshot of the LIVE modules, one `kg_module_add` and
one `module_put` for each module the snapshot pinned, the registration), so that the
loader can act between any two of them.  A module that reaches LIVE or GOING does so in
one step with the notifier call that announces it.

The loader does not unload a module that is pinned, and kernelguard itself stays.  The
baseline copy of a region and its base address are not modelled.
-/
import KernelGuard.Model.Modules

namespace KernelGuard

/--
`struct kg_region`.  `mod` is an address that is compared and never followed; `born` is
the history variable that tells which load of a module at that address it was made for.
-/
structure KgRegion where
  name : CStr
  size : Nat
  kernel : Bool
  mod : Option Nat
  born : Nat
  deriving DecidableEq

/-- Where `kg_integrity_init` stands: what it does next. -/
inductive InitStep where
  /-- `kg_module_add(THIS_MODULE)`. -/
  | own
  /-- The walk over the module list. -/
  | snapshot
  /-- `kg_module_add` of the first module held, or the end of the loop. -/
  | add (held : List Loaded)
  /-- `module_put` of the module that was just added. -/
  | put (mod : Loaded) (held : List Loaded)
  /-- `register_module_notifier`. -/
  | register
  /-- It has returned. -/
  | returned
  deriving DecidableEq

structure Integrity where
  /-- The kernel's module list. -/
  loader : ModList
  /-- `THIS_MODULE`. -/
  guard : Loaded
  textEnabled : Bool
  textModules : Bool
  textMaxMb : Nat
  regions : List KgRegion
  copyBytes : Nat
  step : InitStep
  /-- History: the module list as the snapshot found it. -/
  seen : List Loaded

def Integrity.this (s : Integrity) : Nat := s.guard.mod.addr

/-- The notifier is registered. -/
def Integrity.watching (s : Integrity) : Bool := s.step = .returned

/-- The modules whose reference count init holds up. -/
def InitStep.pinned : InitStep → List Loaded
  | .add held => held
  | .put mod held => mod :: held
  | _ => []

/-! ### The table -/

/-- `kg_region_add`; `alloc` says whether the allocations succeed. -/
def kgRegionAdd (alloc : Bool) (r : KgRegion) (s : Integrity) : Int × Integrity :=
  if r.size = 0 then (0, s)
  else if s.copyBytes + r.size > s.textMaxMb * 2 ^ 20 then (-28, s)
  else if !alloc then (-12, s)
  else (0, { s with regions := s.regions ++ [r], copyBytes := s.copyBytes + r.size })

/-- The region `kg_module_add` makes of a module. -/
def regionOf (x : Loaded) : KgRegion where
  name := strscpy moduleNameLen x.mod.name.chars
  size := x.mod.textSize
  kernel := false
  mod := some x.mod.addr
  born := x.born

def kgModuleAdd (alloc : Bool) (x : Loaded) (s : Integrity) : Integrity :=
  if !s.textEnabled || x.mod.textSize = 0 then s
  else if !s.textModules && x.mod.addr ≠ s.this then s
  else (kgRegionAdd alloc (regionOf x) s).2

/-- `kg_module_remove`: the first region of the module goes. -/
def kgModuleRemove (addr : Nat) (s : Integrity) : Integrity :=
  match s.regions.find? (·.mod = some addr) with
  | none => s
  | some r =>
      { s with
        regions := s.regions.eraseP (·.mod = some addr)
        copyBytes := s.copyBytes - r.size }

/-! ### The steps -/

/-- The next step of `kg_integrity_init`. -/
def initStep (alloc : Bool) (s : Integrity) : Integrity :=
  match s.step with
  | .own => { kgModuleAdd alloc s.guard s with step := .snapshot }
  | .snapshot =>
      let held := if alloc then kgLiveModules s.this s.loader.mods else []
      { s with step := .add held, seen := s.loader.mods }
  | .add [] => { s with step := .register }
  | .add (x :: held) => { kgModuleAdd alloc x s with step := .put x held }
  | .put _ held => { s with step := .add held }
  | .register => { s with step := .returned }
  | .returned => s

/-- The entry at `addr`, if it is in one of the states `old`. -/
def ModList.entry? (l : ModList) (addr : Nat) (old : List ModState) : Option Loaded :=
  l.mods.find? fun x => x.isAt addr && old.contains x.state

/-- `kg_module_notify` at `MODULE_STATE_LIVE`. -/
def notifyLive (alloc : Bool) (x : Loaded) (s : Integrity) : Integrity :=
  if x.mod.addr = s.this then s else kgModuleAdd alloc x s

/-- `kg_module_notify` at `MODULE_STATE_GOING`. -/
def notifyGoing (x : Loaded) (s : Integrity) : Integrity :=
  if x.mod.addr = s.this then s else kgModuleRemove x.mod.addr s

/-- A step of the loader, with the notifier call it makes once the notifier is registered. -/
def loaderStep (alloc : Bool) (op : ModOp) (s : Integrity) : Integrity :=
  let moved := { s with loader := s.loader.step op }
  match op with
  | .load _ => moved
  | .free _ => moved
  | .live addr =>
      match s.loader.entry? addr [.coming] with
      | none => s
      | some x => if s.watching then notifyLive alloc x moved else moved
  | .going addr =>
      match s.loader.entry? addr [.coming, .live] with
      | none => s
      | some x =>
          if x.mod.addr = s.this || s.step.pinned.any (·.isAt addr) then s
          else if s.watching then notifyGoing x moved
          else moved

inductive IntegrityOp where
  | init (alloc : Bool)
  | loader (op : ModOp) (alloc : Bool)

def Integrity.next (s : Integrity) : IntegrityOp → Integrity
  | .init alloc => initStep alloc s
  | .loader op alloc => loaderStep alloc op s

/--
`kg_integrity_init` once it has baselined the kernel's own text: only the region of the
core image is there, and kernelguard is in the list.
-/
def integrityStart (loader : ModList) (guard : Loaded) (vmlinux : Nat) (textMaxMb : Nat) :
    Integrity where
  loader := loader
  guard := guard
  textEnabled := true
  textModules := true
  textMaxMb := textMaxMb
  regions := [⟨[118, 109, 108, 105, 110, 117, 120], vmlinux, true, none, 0⟩]
  copyBytes := vmlinux
  step := .own
  seen := []

end KernelGuard
