/-
Handlers on the keyboards (`linux/module/kg_input.c`).

A scan goes over the tracked keyboards.  Of each it gathers the handles that are attached,
judges their handlers by name and their callbacks by where they lie, and under enforcement
detaches what is not authorised.  What was said about a handle is remembered in a bounded table
under its address, and forgotten once no handle has that address.

Between scans handles come and go.  An address is that of at most one live handle, but a dead
one's may be used again; `att` numbers the attachments, so that an observer can tell them apart.
The module never reads it.

From outside come the symbols, the readable memory, and whether the module is enforcing when a
keyboard is done, which depends on the posture and so on the alerts themselves.  A scan is one
step and its allocations succeed.  Exclusive grabs, counters and texts are not modelled.
-/
import KernelGuard.Lib.Run
import KernelGuard.Model.Modgate

namespace KernelGuard

open Run

def kgMaxHandles : Nat := 24
def kgMaxBase : Nat := 48
def kgMaxReported : Nat := 96

/-- `KG_BUILTIN_HANDLERS`, its words. -/
def kgBuiltinHandlers : CStr := str "kbd,evdev,sysrq,leds,rfkill,mousedev,joydev,kernelguard"

/-- `struct input_handler`: its address, its name if it has one, its callbacks. -/
structure InputHandler where
  addr : UInt64
  name : Option CStr
  /-- `event`, `events`, `filter`, `match`, `connect`, `disconnect`, `start`. -/
  cb : Fin 7 → UInt64

/-- `struct input_handle` on the list of a keyboard. -/
structure InputHandle where
  att : Nat
  addr : UInt64
  opened : Nat
  handler : Option InputHandler

/-- `struct kg_kbd` and the `h_list` of its device. -/
structure KgKbd where
  /-- The address of our own handle. -/
  own : UInt64
  hList : List InputHandle

/-- An entry of `kg_reported`. -/
structure KgReported where
  handle : UInt64
  cb : UInt64
  kind : UInt8
  deriving DecidableEq

/-- `kg_kbd_allow`, `kg_base_names`, `kg_reported` and `kg_input_baselining`. -/
structure KgInput where
  allow : CStr
  base : List CStr
  reported : List KgReported
  baselining : Bool

/-- What a scan can look up. -/
structure KernelView where
  /-- `copy_from_kernel_nofault`. -/
  readKernel : UInt64 → Nat → Option (List UInt8)
  /-- `sprint_symbol_no_offset`. -/
  symbol : UInt64 → CStr

/-! ### Bookkeeping -/

/-- Whether the comma or space separated list has the word. -/
def kgListContains (csv name : CStr) : Bool :=
  !name.isEmpty && (csv.splitOnP fun c => c = chComma || c = chSpace).contains name

def kgHandlerAuthorised (st : KgInput) (name : CStr) : Bool :=
  kgListContains kgBuiltinHandlers name || kgListContains st.allow name || st.base.contains name

def kgBaseAdd (name : CStr) (st : KgInput) : KgInput :=
  if st.base.contains name then st
  else if st.base.length < kgMaxBase then { st with base := st.base ++ [strscpy 32 name] }
  else st

def kgWasReported (st : KgInput) (handle cb : UInt64) (kind : UInt8) : Bool :=
  st.reported.contains ⟨handle, cb, kind⟩

/-- In a full table nothing is marked. -/
def kgMarkReported (handle cb : UInt64) (kind : UInt8) (st : KgInput) : KgInput :=
  if st.reported.length < kgMaxReported then
    { st with reported := st.reported ++ [⟨handle, cb, kind⟩] }
  else st

/-! ### Callback integrity -/

/-- `enum kg_hook_kind`. -/
inductive KgHookKind where
  | none
  | unknownMem
  | foreignModule
  | detourForeign
  | detourUnknown
  | int3
  deriving DecidableEq, Repr

def KgHookKind.code : KgHookKind → UInt8
  | .none => 0
  | .unknownMem => 1
  | .foreignModule => 2
  | .detourForeign => 3
  | .detourUnknown => 4
  | .int3 => 5

/-- Whether the address has a symbol, and the module of the symbol; empty for the kernel image. -/
def kgSymModule (view : KernelView) (addr : UInt64) : Bool × CStr :=
  let buf := view.symbol addr
  if buf.take 2 = str "0x" then (false, [])
  else
    -- "name [mod]" or "name [mod build_id]"
    let inside := (buf.dropWhile (· ≠ 91)).drop 1
    if buf.contains 91 && inside.contains 93 then
      let mod := strscpy moduleNameLen (inside.takeWhile (· ≠ 93))
      (true, mod.takeWhile (· ≠ chSpace))
    else (true, [])

/-- `(long)rel` for the `s32` at the head. -/
def rel32 (b : List UInt8) : UInt64 :=
  (wordOf (b.take 4)).toUInt32.toInt32.toInt64.toUInt64

/-- Where the instruction `p` at `addr` jumps, 0 if it is none of the detours. -/
def kgDetourTarget (view : KernelView) (addr : UInt64) (p : List UInt8) : UInt64 :=
  if p.getD 0 0 = 0xe9 then addr + 5 + rel32 (p.drop 1)
  else if p.getD 0 0 = 0xff ∧ p.getD 1 0 = 0x25 then
    match view.readKernel (addr + 6 + rel32 (p.drop 2)) 8 with
    | some slot => wordOf slot
    | none => 0
  else if p.getD 0 0 = 0x48 ∧ p.getD 1 0 = 0xb8 ∧ p.getD 10 0 = 0xff ∧ p.getD 11 0 = 0xe0 then
    wordOf ((p.drop 2).take 8)
  else if p.getD 0 0 = 0x68 ∧ p.getD 5 0 = 0xc3 then rel32 (p.drop 1)
  else 0

/-- One pass of `kg_check_entry`; `none` where it goes on. -/
def kgCheckEntryAt (view : KernelView) (fn : UInt64) (fnMod : CStr) (b : List UInt8) (off : Nat) :
    Option KgHookKind :=
  let p := b.drop off
  if p.getD 0 0 = 0xcc then some .int3
  else
    let tgt := kgDetourTarget view (fn + off.toUInt64) p
    if tgt ≠ 0 then
      let (found, mod) := kgSymModule view tgt
      if !found then some .detourUnknown
      -- built-in targets are fine, another module is not
      else if !mod.isEmpty && mod != fnMod then some .detourForeign
      else some .none
    else none

def kgCheckEntry (view : KernelView) (fn : UInt64) (fnMod : CStr) : KgHookKind :=
  match view.readKernel fn 24 with
  | none => .none
  | some b =>
      match kgCheckEntryAt view fn fnMod b 0 with
      | some kind => kind
      | none =>
          -- after an endbr64
          if b.take 4 = [0xf3, 0x0f, 0x1e, 0xfa] then
            (kgCheckEntryAt view fn fnMod b 4).getD .none
          else .none

/-- `struct kg_hinfo`. -/
structure KgHinfo where
  att : Nat
  handle : UInt64
  opened : Bool
  name : CStr
  handlerAddr : UInt64
  cb : Fin 7 → UInt64

/-- An alert and the attachment it is about. -/
structure KbdAlert where
  att : Nat
  alert : Alert

def kgCallbackKind (view : KernelView) (hi : KgHinfo) (cb : UInt64) : KgHookKind :=
  let (hfound, hmod) := kgSymModule view hi.handlerAddr
  let (cfound, cmod) := kgSymModule view cb
  if !cfound then .unknownMem
  else if hfound && hmod != cmod then .foreignModule
  else kgCheckEntry view cb cmod

def KgHookKind.level : KgHookKind → UInt32
  | .detourUnknown => kgLevelWatch
  | .int3 => kgLevelWatch
  | _ => kgLevelCritical

/-- One callback of a handler. -/
def kgCheckCallback (view : KernelView) (hi : KgHinfo) (i : Fin 7) (st : KgInput) :
    List KbdAlert × KgInput :=
  if hi.cb i = 0 then ([], st)
  else
    let kind := kgCallbackKind view hi (hi.cb i)
    if kind = .none || kgWasReported st hi.handle (hi.cb i) kind.code then ([], st)
    else
      ([⟨hi.att, ⟨kgAlertDispatchHook, kind.level, hi.cb i, kind.code.toUInt64 <<< 32⟩⟩],
        kgMarkReported hi.handle (hi.cb i) kind.code st)

def kgCheckCallbacks (view : KernelView) (hi : KgHinfo) (st : KgInput) :
    List KbdAlert × KgInput :=
  loop (kgCheckCallback view hi) (List.finRange 7) st

/-! ### One keyboard -/

/-- What is copied of a handle; a name counts up to its 31st byte. -/
def kgHinfo (h : InputHandle) (hd : InputHandler) : KgHinfo where
  att := h.att
  handle := h.addr
  opened := decide (h.opened > 0)
  name := strscpy 32 (hd.name.getD (str "?"))
  handlerAddr := hd.addr
  cb := hd.cb

/-- The handles that can be gathered: not our own, and with a handler. -/
def KgKbd.others (k : KgKbd) : List KgHinfo :=
  k.hList.filterMap fun h => if h.addr = k.own then none else h.handler.map (kgHinfo h)

def KgKbd.gather (k : KgKbd) : List KgHinfo := k.others.take kgMaxHandles

/-- The first half of the loop body of `kg_scan_kbd`: the name, or in the baseline its entry. -/
def kgJudgeName (hi : KgHinfo) (st : KgInput) : List KbdAlert × KgInput :=
  if st.baselining then ([], kgBaseAdd hi.name st)
  else if !kgHandlerAuthorised st hi.name && !kgWasReported st hi.handle 0 0 then
    let np := kgPackName hi.name
    let level := if hi.opened then kgLevelCritical else kgLevelWatch
    ([⟨hi.att, ⟨kgAlertUnauthorizedKbdFilter, level, np.1, np.2⟩⟩],
      kgMarkReported hi.handle 0 0 st)
  else ([], st)

/-- The whole body: the name, then the callbacks. -/
def kgScanHandle (view : KernelView) (hi : KgHinfo) (st : KgInput) : List KbdAlert × KgInput :=
  let (alerts, st) := kgJudgeName hi st
  let (hooks, st) := kgCheckCallbacks view hi st
  (alerts ++ hooks, st)

/-- True if the handle was still on the list; `locked` is `!mutex_lock_interruptible`. -/
def kgDetachHandle (locked : Bool) (handle : UInt64) (k : KgKbd) : Bool × KgKbd :=
  if locked && k.hList.any fun h => h.addr = handle then
    (true, { k with hList := k.hList.eraseP fun h => h.addr = handle })
  else (false, k)

/-- The second loop of `kg_scan_kbd`, for one handle. -/
def kgNeutralise (st : KgInput) (locked : Bool) (hi : KgHinfo) (k : KgKbd) :
    List KbdAlert × KgKbd :=
  if kgHandlerAuthorised st hi.name then ([], k)
  else
    let np := kgPackName hi.name
    let r := kgDetachHandle locked hi.handle k
    (if r.1 then [⟨hi.att, ⟨kgAlertKbdFilterNeutralized, kgLevelCritical, np.1, np.2⟩⟩] else [], r.2)

/-- What a scan gets from outside. -/
structure ScanView extends KernelView where
  /-- `kg_enforcing()` after the first loop over a keyboard. -/
  enforcing : KgKbd → Bool
  locked : Bool

/-- Enforcement is asked for after every keyboard. -/
def kgNeutraliseAll (view : ScanView) (st : KgInput) (his : List KgHinfo) (k : KgKbd) :
    List KbdAlert × KgKbd :=
  if view.enforcing k && !st.baselining then loop (kgNeutralise st view.locked) his k else ([], k)

def kgScanKbd (view : ScanView) (k : KgKbd) (st : KgInput) : List KbdAlert × KgInput × KgKbd :=
  let (alerts, st) := loop (kgScanHandle view.toKernelView) k.gather st
  let (gone, k') := kgNeutraliseAll view st k.gather k
  (alerts ++ gone, st, k')

/-! ### All keyboards -/

structure KbdSys where
  kbds : List KgKbd
  input : KgInput
  /-- The number of the next attachment. -/
  next : Nat

/-- The handles that are attached. -/
def KbdSys.live (s : KbdSys) : List InputHandle := s.kbds.flatMap KgKbd.hList

/-- Entries whose handle has gone are forgotten. -/
def kgPruneReported (s : KbdSys) : KbdSys :=
  { s with input := { s.input with
      reported := s.input.reported.filter fun e => s.live.any fun h => h.addr = e.handle } }

/-- One turn of the loop over the keyboards, with those already done. -/
def kgScanTurn (view : ScanView) (k : KgKbd) (t : KgInput × List KgKbd) :
    List KbdAlert × (KgInput × List KgKbd) :=
  let (alerts, st, k) := kgScanKbd view k t.1
  (alerts, (st, t.2 ++ [k]))

def kgInputScanAll (view : ScanView) (s : KbdSys) : List KbdAlert × KbdSys :=
  let (alerts, st, kbds) := loop (kgScanTurn view) s.kbds (s.input, [])
  (alerts, kgPruneReported { s with input := st, kbds := kbds })

/-- What `kg_input_init` finds, and the scan that makes it the baseline. -/
def kgInputInit (view : ScanView) (allow : CStr) (kbds : List KgKbd) (next : Nat) :
    List KbdAlert × KbdSys :=
  let (alerts, s) := kgInputScanAll view ⟨kbds, ⟨allow, [], [], true⟩, next⟩
  (alerts, { s with input := { s.input with baselining := false } })

/-! ### Between scans -/

/-- `input_register_handle`: filters go first. -/
def KgKbd.attach (k : KgKbd) (front : Bool) (h : InputHandle) : KgKbd :=
  { k with hList := if front then h :: k.hList else k.hList ++ [h] }

/-- A handle that is on a list already is not at that address again. -/
def KbdSys.inUse (s : KbdSys) (addr : UInt64) : Bool := s.live.any fun h => h.addr = addr

def KbdSys.onHandle (s : KbdSys) (addr : UInt64) (f : InputHandle → InputHandle) : KbdSys :=
  { s with kbds := s.kbds.map fun k =>
      { k with hList := k.hList.map fun h => if h.addr = addr then f h else h } }

inductive KbdOp where
  /-- A keyboard appears, and `kg_input_connect` registers the module's handle. -/
  | connect (own : UInt64) (self : InputHandler)
  | disconnect (i : Nat)
  | attach (i : Nat) (front : Bool) (addr : UInt64) (handler : Option InputHandler)
  | opens (addr : UInt64)
  | closes (addr : UInt64)
  | detach (addr : UInt64)
  | scan (view : ScanView)

def kbdStep (s : KbdSys) : KbdOp → KbdSys
  | .connect own self =>
      if s.inUse own then s
      else
        let handle := ⟨s.next, own, 0, some { self with name := some (str "kernelguard") }⟩
        { s with kbds := s.kbds ++ [⟨own, [handle]⟩], next := s.next + 1 }
  | .disconnect i => { s with kbds := s.kbds.eraseIdx i }
  | .attach i front addr handler =>
      if s.inUse addr then s
      else
        { s with
          kbds := s.kbds.modify i fun k => k.attach front ⟨s.next, addr, 0, handler⟩
          next := s.next + 1 }
  | .opens addr => s.onHandle addr fun h => { h with opened := h.opened + 1 }
  | .closes addr => s.onHandle addr fun h => { h with opened := h.opened - 1 }
  | .detach addr =>
      { s with kbds := s.kbds.map fun k =>
          { k with hList := k.hList.filter fun h => h.addr ≠ addr } }
  | .scan view => (kgInputScanAll view s).2

def kbdAlerts (s : KbdSys) : KbdOp → List KbdAlert
  | .scan view => (kgInputScanAll view s).1
  | _ => []

end KernelGuard
