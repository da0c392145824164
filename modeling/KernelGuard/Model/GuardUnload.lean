/-
Taking the driver-load guard down (`windows/src/driver_load_guard.c`): what
`LgImageNotify`, `LgWorker` and `DriverLoadGuardUninitialize` do to the memory they share.

Any number of threads load images and run the callback, again and again; one
worker; one thread unloads.  A step is one access to what is shared: a read or a
write of a global, an interlocked operation, taking the spin lock, one access through a
pointer that was read before.  So a block can be freed between the read of its
pointer and the access.  Accesses are seen by everybody in the order of the steps.
`PsRemoveLoadImageNotifyRoutine` only stops new calls: a callback that was called
before may still be anywhere, also in front of its first instruction.  A call that
returns at the checks of its arguments touches nothing and is no step.
What the queue holds, and in which order, is in `KernelGuard.Model.LoadGuard`; here it is
only counted.  What a comparison or a file read finds is part of the step.
-/
import KernelGuard.Model.LoadGuard

namespace KernelGuard

/-- What the guard allocates. -/
inductive LgBlock where
  /-- `g_LgTable`. -/
  | table
  /-- `g_LgClass`. -/
  | classes
  /-- `g_LgDeny.Items`. -/
  | deny
  /-- `g_LgAllow.Items`. -/
  | allow
  /-- `g_LgBaselinePaths`. -/
  | baseline
  /-- `g_LgQueue`. -/
  | queue
  /-- The worker's `item`. -/
  | item
  deriving DecidableEq

/-- A block, and the pointer to it. -/
structure LgCell where
  /-- The pointer is not `NULL`. -/
  ptr : Bool
  /-- The block is allocated. -/
  live : Bool

/-- Where a thread's callback is. -/
inductive LgNotifyAt where
  /-- Not in a callback. -/
  | idle
  /-- `InterlockedIncrement(&g_LgInFlight)` is next. -/
  | called
  /-- `g_LgRunning` is to be read. -/
  | counted
  /-- It was `TRUE`; `g_LgQueue` is to be read. -/
  | running
  | locking
  /-- The lock is held; `g_LgCount` and `&g_LgQueue[g_LgTail]` are next. -/
  | locked
  /-- The copy through `it`, which is `NULL` or not, is next. -/
  | writing (it : Bool)
  | unlocking (queued : Bool)
  /-- The semaphore, or the counter of the dropped, is next. -/
  | unlocked (queued : Bool)
  /-- `InterlockedDecrement(&g_LgInFlight)` is next. -/
  | leaving
  deriving DecidableEq

/-- Whose path `LgProcessPath` works on. -/
inductive LgSource where
  | item
  /-- Row `i` of `g_LgBaselinePaths`, through the pointer as it was read. -/
  | present (i : Nat) (ptr : Bool)
  deriving DecidableEq

/-- Where `LgProcessPath` is. -/
inductive LgDecideAt where
  /-- `LgHashFile`. -/
  | hash
  /-- `LgListContains(&g_LgAllow, ..)`: the test of `Items`, and the search. -/
  | allow
  | allowScan
  /-- `LgBuiltinFind`: the test of `g_LgTable`, and the search. -/
  | table
  | tableScan
  /-- `LgListContains(&g_LgDeny, ..)`; whether the table had the digest is known. -/
  | deny (found : Bool)
  | denyScan (found : Bool)
  /-- `g_LgClass[idx]`: the pointer, and the access through it. -/
  | classes
  | classesRead (ptr : Bool)
  /-- `KgLockMode() && !Baseline`. -/
  | lockMode
  /-- One of the reports, which read the path. -/
  | report
  deriving DecidableEq

/-- Where `LgWorker` is. -/
inductive LgWorkAt where
  /-- At its wait. -/
  | waiting
  /-- In `LgDequeue`. -/
  | locking
  | locked
  /-- The copy out of the queue, through `g_LgQueue` as it was read. -/
  | copying (queue : Bool)
  | unlocking (have_ : Bool)
  | decide (src : LgSource) (at_ : LgDecideAt)
  /-- In `LgBaselinePass`, at the head of the loop. -/
  | baseline (i : Nat)
  /-- `g_LgBaselinePaths[i]` is to be read. -/
  | row (i : Nat)
  | freeBaseline
  | nullBaseline
  /-- Behind the loop; the item is to be freed. -/
  | exiting
  /-- It is freed, and `PsTerminateSystemThread` is next. -/
  | ending
  | terminated
  deriving DecidableEq

/-- Where `DriverLoadGuardUninitialize` is. -/
inductive LgUnloadAt where
  | notCalled
  /-- `g_LgRunning = FALSE` is next. -/
  | clear
  | remove
  /-- In the loop that waits for the callbacks. -/
  | poll (i : Nat)
  /-- `if (g_LgInFlight)`. -/
  | check
  /-- `g_LgQueue = NULL` is next. -/
  | forget
  | setStop
  | join
  | cancel
  /-- In `LgFreeState`. -/
  | free (rest : List LgBlock)
  | null (b : LgBlock) (rest : List LgBlock)
  | returned
  deriving DecidableEq

/-- The guard as far as its end is concerned. -/
structure LgLife (ι : Type) where
  mem : LgBlock → LgCell
  /-- `g_LgCount`. -/
  count : Nat
  /-- `g_LgItems`. -/
  items : Nat
  /-- `g_LgQueueLock` is held. -/
  lock : Bool
  /-- `g_LgInFlight`, a `LONG`. -/
  inFlight : UInt32
  /-- `g_LgDropped`. -/
  dropped : UInt32
  running : Bool
  /-- The kernel calls the callback. -/
  registered : Bool
  initialised : Bool
  /-- `g_LgStop` is set. -/
  stop : Bool
  /-- `g_LgBaselineTimer` is set, and will expire. -/
  timerSet : Bool
  /-- It has expired, and nobody has waited for it yet. -/
  timer : Bool
  baselineCount : Nat
  /-- `g_LgThread` is not `NULL`. -/
  thread : Bool
  notify : ι → LgNotifyAt
  worker : LgWorkAt
  unload : LgUnloadAt

inductive LgMove (ι : Type) where
  /-- The kernel calls the callback on a thread that loads a driver. -/
  | call (t : ι)
  /-- A thread's callback makes its next step. -/
  | notify (t : ι)
  /-- The timer expires. -/
  | expire
  /-- The worker's next step; `hit` is what it finds, where it looks. -/
  | work (hit : Bool)
  /-- The next step of the unloading. -/
  | unload

/-- What may go wrong, and what is done to the blocks. -/
inductive LgMemEvent where
  | useAfterFree (b : LgBlock)
  | nullAccess (b : LgBlock)
  | doubleFree (b : LgBlock)
  | freed (b : LgBlock)
  /-- "a load-image callback is still running; not freeing its queue". -/
  | stillRunning
  deriving DecidableEq

variable {ι : Type}

namespace LgLife

def setCell (s : LgLife ι) (b : LgBlock) (c : LgCell) : LgLife ι :=
  { s with mem := Function.update s.mem b c }

def at_ [DecidableEq ι] (s : LgLife ι) (t : ι) (p : LgNotifyAt) : LgLife ι :=
  { s with notify := Function.update s.notify t p }

/-- An access to a block through a pointer that was read before. -/
def touch (s : LgLife ι) (b : LgBlock) (ptr : Bool) : List LgMemEvent :=
  if ptr then if (s.mem b).live then [] else [.useAfterFree b] else [.nullAccess b]

/-- `ExFreePoolWithTag` of a block, through a pointer that is not `NULL`. -/
def release (s : LgLife ι) (b : LgBlock) : List LgMemEvent × LgLife ι :=
  (if (s.mem b).live then [.freed b] else [.doubleFree b],
    s.setCell b ⟨(s.mem b).ptr, false⟩)

end LgLife

/-- The next step of `LgImageNotify` on thread `t`. -/
def lgNotifyStep [DecidableEq ι] (s : LgLife ι) (t : ι) : List LgMemEvent × LgLife ι :=
  match s.notify t with
  | .idle => ([], s)
  | .called => ([], { s.at_ t .counted with inFlight := s.inFlight + 1 })
  | .counted => ([], s.at_ t (if s.running then .running else .leaving))
  | .running => ([], s.at_ t (if (s.mem .queue).ptr then .locking else .leaving))
  | .locking => if s.lock then ([], s) else ([], { s.at_ t .locked with lock := true })
  | .locked =>
      ([], s.at_ t (if s.count < lgQueueSize then .writing (s.mem .queue).ptr
        else .unlocking false))
  | .writing it => (s.touch .queue it, { s.at_ t (.unlocking true) with count := s.count + 1 })
  | .unlocking queued => ([], { s.at_ t (.unlocked queued) with lock := false })
  | .unlocked true => ([], { s.at_ t .leaving with items := s.items + 1 })
  | .unlocked false => ([], { s.at_ t .leaving with dropped := s.dropped + 1 })
  | .leaving => ([], { s.at_ t .idle with inFlight := s.inFlight - 1 })

/-- The path of `LgProcessPath` is read. -/
def lgTouchPath (s : LgLife ι) : LgSource → List LgMemEvent
  | .item => s.touch .item true
  | .present _ ptr => s.touch .baseline ptr

/-- Behind `LgProcessPath`. -/
def LgSource.after : LgSource → LgWorkAt
  | .item => .waiting
  | .present i _ => .baseline (i + 1)

/-- Behind `LgListContains(&g_LgDeny, ..)`. -/
def lgFound (found listed : Bool) : LgDecideAt :=
  if found then .classes else if listed then .report else .lockMode

/-- The next step of `LgProcessPath`: the accesses, and where the worker is then. -/
def lgDecideStep (s : LgLife ι) (src : LgSource) (hit : Bool) :
    LgDecideAt → List LgMemEvent × LgWorkAt
  | .hash =>
      (lgTouchPath s src,
        if hit then .decide src .allow else if src = .item then .decide src .report else src.after)
  | .allow => ([], .decide src (if (s.mem .allow).ptr then .allowScan else .table))
  | .allowScan => (s.touch .allow true, if hit then src.after else .decide src .table)
  | .table => ([], .decide src (if (s.mem .table).ptr then .tableScan else .deny false))
  | .tableScan => (s.touch .table true, .decide src (.deny hit))
  | .deny found =>
      ([], .decide src (if (s.mem .deny).ptr then .denyScan found else lgFound found false))
  | .denyScan found => (s.touch .deny true, .decide src (lgFound found hit))
  | .classes => ([], .decide src (.classesRead (s.mem .classes).ptr))
  | .classesRead ptr => (s.touch .classes ptr, .decide src .report)
  | .lockMode => ([], if hit && src = .item then .decide src .report else src.after)
  | .report => (lgTouchPath s src, src.after)

/-- The wait of `LgWorker`: the first of its objects that is signalled ends it. -/
def lgWait (s : LgLife ι) : LgLife ι :=
  if s.stop then { s with worker := .exiting }
  else if 0 < s.items then
    { s with items := s.items - 1, worker := if (s.mem .item).ptr then .locking else .waiting }
  else if s.timer then { s with timer := false, worker := .baseline 0 }
  else s

/-- The next step of `LgWorker`. -/
def lgWorkStep (s : LgLife ι) (hit : Bool) : List LgMemEvent × LgLife ι :=
  match s.worker with
  | .waiting => ([], lgWait s)
  | .locking => if s.lock then ([], s) else ([], { s with lock := true, worker := .locked })
  | .locked =>
      ([], { s with
        worker := if s.count ≠ 0 then .copying (s.mem .queue).ptr else .unlocking false })
  | .copying queue =>
      (s.touch .queue queue ++ s.touch .item true,
        { s with count := s.count - 1, worker := .unlocking true })
  | .unlocking have_ =>
      ([], { s with lock := false, worker := if have_ then .decide .item .hash else .waiting })
  | .decide src at_ =>
      let (out, next) := lgDecideStep s src hit at_
      (out, { s with worker := next })
  | .baseline i =>
      ([], { s with
        worker := if i < s.baselineCount ∧ s.stop = false then .row i else .freeBaseline })
  | .row i => ([], { s with worker := .decide (.present i (s.mem .baseline).ptr) .hash })
  | .freeBaseline =>
      if (s.mem .baseline).ptr then
        let (out, s') := s.release .baseline
        (out, { s' with worker := .nullBaseline })
      else ([.nullAccess .baseline], { s with worker := .nullBaseline })
  | .nullBaseline =>
      ([], { s.setCell .baseline ⟨false, (s.mem .baseline).live⟩ with
        baselineCount := 0, worker := .waiting })
  | .exiting =>
      if (s.mem .item).ptr then
        let (out, s') := s.release .item
        (out, { s' with worker := .ending })
      else ([], { s with worker := .terminated })
  | .ending =>
      ([], { s.setCell .item ⟨false, (s.mem .item).live⟩ with worker := .terminated })
  | .terminated => ([], s)

/-- The order in which `LgFreeState` frees. -/
def lgFreeOrder : List LgBlock := [.table, .classes, .deny, .allow, .baseline, .queue]

/-- How often the unloading looks for running callbacks. -/
def lgPollRounds : Nat := 500

/-- The next step of `DriverLoadGuardUninitialize`, or a call of it. -/
def lgUnloadStep (s : LgLife ι) : List LgMemEvent × LgLife ι :=
  match s.unload with
  | .notCalled => ([], { s with unload := if s.initialised then .clear else .returned })
  | .clear => ([], { s with running := false, unload := .remove })
  | .remove => ([], { s with registered := false, unload := .poll 0 })
  | .poll i =>
      ([], { s with
        unload := if i < lgPollRounds ∧ s.inFlight ≠ 0 then .poll (i + 1) else .check })
  | .check =>
      if s.inFlight ≠ 0 then ([.stillRunning], { s with unload := .forget })
      else ([], { s with unload := .setStop })
  | .forget => ([], { s.setCell .queue ⟨false, (s.mem .queue).live⟩ with unload := .setStop })
  | .setStop =>
      ([], { s with stop := true, unload := if s.thread then .join else .cancel })
  | .join =>
      if s.worker = .terminated then ([], { s with thread := false, unload := .cancel })
      else ([], s)
  | .cancel => ([], { s with timerSet := false, unload := .free lgFreeOrder })
  | .free [] => ([], { s with baselineCount := 0, initialised := false, unload := .returned })
  | .free (b :: rest) =>
      if (s.mem b).ptr then
        let (out, s') := s.release b
        (out, { s' with unload := .null b rest })
      else ([], { s with unload := .free rest })
  | .null b rest =>
      ([], { s.setCell b ⟨false, (s.mem b).live⟩ with unload := .free rest })
  | .returned => ([], { s with unload := if s.initialised then .clear else .returned })

/-- One step of one of them. -/
def lgLifeStep [DecidableEq ι] (s : LgLife ι) : LgMove ι → List LgMemEvent × LgLife ι
  | .call t => ([], if s.registered ∧ s.notify t = .idle then s.at_ t .called else s)
  | .notify t => lgNotifyStep s t
  | .expire => ([], if s.timerSet then { s with timerSet := false, timer := true } else s)
  | .work hit => lgWorkStep s hit
  | .unload => lgUnloadStep s

/-- What `DriverLoadGuardInitialize` could get. -/
structure LgBoot where
  /-- The built-in table, whose two blocks are there together or not at all. -/
  table : Bool
  deny : Bool
  allow : Bool
  /-- The worker's item. -/
  item : Bool
  /-- How many drivers `LgCollectBaseline` found; the paths are kept only if there are any. -/
  present : Nat
  /-- `PsSetLoadImageNotifyRoutine` succeeded. -/
  registered : Bool

/-- Which blocks are allocated then; without the queue the guard does not start. -/
def LgBoot.has (boot : LgBoot) : LgBlock → Bool
  | .table => boot.table
  | .classes => boot.table
  | .deny => boot.deny
  | .allow => boot.allow
  | .baseline => decide (0 < boot.present)
  | .queue => true
  | .item => boot.item

/-- After `DriverLoadGuardInitialize`, with a reference to the worker's thread or without. -/
def LgLife.start (boot : LgBoot) (thread : Bool) : LgLife ι where
  mem := fun b => ⟨boot.has b, boot.has b⟩
  count := 0
  items := 0
  lock := false
  inFlight := 0
  dropped := 0
  running := true
  registered := boot.registered
  initialised := true
  stop := false
  timerSet := boot.has .baseline
  timer := false
  baselineCount := boot.present
  thread := thread
  notify := fun _ => .idle
  worker := .waiting
  unload := .notCalled

end KernelGuard
