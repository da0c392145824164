/-
The kernel's module list and the walk over it (`kg_for_each_live_module` in
`linux/module/kg_integrity.c`).

The list is circular.  Its head is a bare `list_head` in the kernel's data, outside the
module area, which is how the walk recognises it; a module that is being loaded goes in
right behind the head.  Here the list is the modules from the head on, newest first.  The
walk starts behind kernelguard's own entry.

`try_module_get` succeeds on a LIVE module.
-/
import KernelGuard.Model.PolicyParse

namespace KernelGuard

/-- `MODULE_NAME_LEN` on a 64-bit kernel. -/
def moduleNameLen : Nat := 56

/-- `mod->name`: a C string that fits its array. -/
structure ModName where
  chars : CStr
  noNul : (0 : UInt8) ∉ chars
  fits : chars.length < moduleNameLen
  deriving DecidableEq

/-- `strscpy(dst, src, size)`. -/
def strscpy (size : Nat) (src : CStr) : CStr := src.take (size - 1)

/--
What kernelguard looks at in a `struct module`: where it is, its name, its `srcversion`
(which may be NULL), and the size of its text.
-/
structure KModule where
  addr : Nat
  name : ModName
  srcversion : Option CStr
  textSize : Nat
  deriving DecidableEq

/-- `enum module_state`, from the moment the module is in the list. -/
inductive ModState where
  | coming
  | live
  | going
  deriving DecidableEq, Repr

/--
An entry of the list.  `born` is a history variable: the number of the load that made
it, by which two modules that get the same address one after the other are told apart.
-/
structure Loaded where
  mod : KModule
  state : ModState
  born : Nat
  deriving DecidableEq

/-- A node of the circular list. -/
inductive ListNode where
  | head
  | entry (x : Loaded)

/-- The entry is the module at address `addr`. -/
def Loaded.isAt (addr : Nat) (x : Loaded) : Bool := x.mod.addr = addr

/-- The nodes from the one behind the entry at `this` around to that entry again. -/
def ringBehind (this : Nat) (mods : List Loaded) : List ListNode :=
  let behind := (mods.dropWhile fun x => !x.isAt this).tail
  let before := mods.takeWhile fun x => !x.isAt this
  behind.map .entry ++ .head :: before.map .entry

/-- `KG_MAX_BOOT_MODULES`. -/
def kgMaxBootModules : Nat := 1024

/-- The body of `list_for_each_entry_rcu`: the modules it pins, in order. -/
def liveWalk (this : Nat) : List ListNode → List Loaded → List Loaded
  | [], held => held
  | node :: rest, held =>
      match node with
      -- the address computed from the head fails `kg_in_module_area`
      | .head => held
      | .entry x =>
          if x.isAt this || x.state ≠ .live then liveWalk this rest held
          else if held.length < kgMaxBootModules then liveWalk this rest (held ++ [x])
          else liveWalk this rest held

/-- The modules that are `held` when the RCU read side is left. -/
def kgLiveModules (this : Nat) (mods : List Loaded) : List Loaded :=
  liveWalk this (ringBehind this mods) []

/--
`kg_for_each_live_module`: `fn` is called for each held module, in order; `alloc` says
whether the scratch table could be allocated.
-/
def kgForEachLiveModule {S : Type} (this : Nat) (alloc : Bool) (mods : List Loaded)
    (fn : Loaded → S → S) (s : S) : Int × S :=
  if !alloc then (-12, s)
  else (0, (kgLiveModules this mods).foldl (fun s x => fn x s) s)

/-! ### Loading and unloading -/

/-- The list, and how many modules have been loaded so far. -/
structure ModList where
  mods : List Loaded
  loads : Nat

inductive ModOp where
  /-- The loader puts the module into the list. -/
  | load (m : KModule)
  /-- Its `init` has returned. -/
  | live (addr : Nat)
  /-- It is being unloaded, or its `init` has failed. -/
  | going (addr : Nat)
  /-- It is taken out of the list and freed. -/
  | free (addr : Nat)

/-- Change the state of the entry at `addr`, if it is in one of the states `old`. -/
def setState (addr : Nat) (old : List ModState) (new : ModState) (mods : List Loaded) :
    List Loaded :=
  mods.map fun x => if x.isAt addr && old.contains x.state then { x with state := new } else x

/-- One operation of the loader; the address of a module in the list is not given out again. -/
def ModList.step (l : ModList) : ModOp → ModList
  | .load m =>
      if l.mods.any (·.isAt m.addr) then l
      else { mods := ⟨m, .coming, l.loads⟩ :: l.mods, loads := l.loads + 1 }
  | .live addr => { l with mods := setState addr [.coming] .live l.mods }
  | .going addr => { l with mods := setState addr [.coming, .live] .going l.mods }
  | .free addr => { l with mods := l.mods.filter fun x => !(x.isAt addr && x.state = .going) }

end KernelGuard
