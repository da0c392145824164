/-
The registry of sensitive pages (`windows/src/cache_mitigation.c`): `SensAllocatePool`,
`SensFreePool` and `SensIsPageTagged`.

All of them run under one lock.  The pool is outside: a call says what address it returned.  The
table is the used part of `g_SensPages`, and the number of its entries that other parts of the
driver see is counted apart.
-/
import KernelGuard.Lib.Compact

namespace KernelGuard

def maxSensitivePages : Nat := 65536
def pageShift : Nat := 12
def pageSize : Nat := 2 ^ pageShift

/-- `SENS_PAGE_ENTRY`. -/
structure SensPageEntry where
  pageFrameNumber : Nat
  sensitivityFlags : UInt8
  owningProcessId : UInt32
  deriving DecidableEq, Repr

/-- `g_SensPages` up to `g_SensPageCount`, and `g_SharedState.SensPageCount`. -/
structure SensTable where
  pages : List SensPageEntry
  shared : UInt32
  deriving DecidableEq, Repr

def sensStartPfn (ptr : UInt64) : Nat := ptr.toNat >>> pageShift

/-- The end is computed in 64 bits. -/
def sensEndPfn (ptr size : UInt64) : Nat :=
  ((ptr.toNat + size.toNat + pageSize - 1) % 2 ^ 64) >>> pageShift

/-- The loop of `SensAllocatePool`, with `n` pages to go. -/
def sensEnter (flags : UInt8) (pid : UInt32) : Nat → Nat → SensTable → SensTable
  | 0, _, t => t
  | n + 1, pfn, t =>
      if t.pages.length ≥ maxSensitivePages then t
      else sensEnter flags pid n (pfn + 1) ⟨t.pages ++ [⟨pfn, flags, pid⟩], t.shared + 1⟩

/-- `SensAllocatePool`, when the pool returns `ptr`. -/
def sensAllocatePool (t : SensTable) (ptr size : UInt64) (flags : UInt8) (pid : UInt32) :
    SensTable :=
  if ptr = 0 then t
  else sensEnter flags pid (sensEndPfn ptr size - sensStartPfn ptr) (sensStartPfn ptr) t

/-- The loop of `SensFreePool`, at entry `i`. -/
def sensRemove (startPfn : Nat) : Nat → Nat → SensTable → SensTable
  | 0, _, t => t
  | fuel + 1, i, t =>
      match t.pages[i]? with
      | none => t
      | some e =>
          if e.pageFrameNumber = startPfn then
            sensRemove startPfn fuel i ⟨Compact.fill t.pages i, t.shared - 1⟩
          else sensRemove startPfn fuel (i + 1) t

/-- `SensFreePool`. -/
def sensFreePool (t : SensTable) (ptr : UInt64) : SensTable :=
  if ptr = 0 then t else sensRemove (sensStartPfn ptr) t.pages.length 0 t

/-- `SensIsPageTagged`. -/
def sensIsPageTagged (t : SensTable) (pfn : Nat) : Bool := t.pages.any (·.pageFrameNumber = pfn)

/-! ### The pool -/

/-- A block of the pool. -/
structure SensBlock where
  addr : UInt64
  size : UInt64
  deriving DecidableEq, Repr

/-- The table, and the blocks that are allocated. -/
structure SensWorld where
  table : SensTable
  live : List SensBlock
  deriving DecidableEq, Repr

inductive SensCall where
  | allocate (ptr size : UInt64) (flags : UInt8) (pid : UInt32)
  | free (ptr : UInt64)
  deriving DecidableEq, Repr

def sensCall (w : SensWorld) : SensCall → SensWorld
  | .allocate ptr size flags pid =>
      { table := sensAllocatePool w.table ptr size flags pid
        live := if ptr = 0 then w.live else w.live ++ [⟨ptr, size⟩] }
  | .free ptr =>
      { table := sensFreePool w.table ptr
        live := if ptr = 0 then w.live else w.live.eraseP (·.addr = ptr) }

def SensWorld.start : SensWorld := ⟨⟨[], 0⟩, []⟩

end KernelGuard
