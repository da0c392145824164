/-
The queue of the driver-load guard (`windows/src/driver_load_guard.c`): `LgImageNotify`,
`LgDequeue` and the loop of `LgWorker`, while the guard runs; and how its alerts name a driver,
`LgPackName`.

Any number of load-image callbacks run at once, and one worker.  A step is what one of them does
at once: a callback's locked section, its `KeReleaseSemaphore` or its interlocked increment,
the end of the worker's wait, and the worker's locked section with the path it then
processes.  A list of steps is an interleaving; a step that its thread is not at does
nothing.  The worker's buffer is allocated, `g_LgStop` is not set, and `g_LgInFlight`, which only the
unloading looks at, is left out.
-/
import KernelGuard.Model.Modgate
import KernelGuard.Lib.Ring

namespace KernelGuard

def lgQueueSize : Nat := 64
def lgPathChars : Nat := 260

instance : NeZero lgQueueSize := ⟨by decide⟩

/-- `LG_ITEM`; `Chars` is the length of the path. -/
structure LgItem where
  path : List UInt16
  fits : path.length ≤ lgPathChars - 1
  deriving DecidableEq

/-- The path as it is copied to the queue, cut to the room there is. -/
def lgItem (name : List UInt16) : LgItem :=
  ⟨name.take (lgPathChars - 1), List.length_take_le _ _⟩

/-- What a callback is called with; `none` is a null pointer. -/
structure LgImage where
  fullImageName : Option (List UInt16)
  processId : UInt64
  /-- `ImageInfo->SystemModeImage`. -/
  systemModeImage : Option Bool

/-- The checks in front: kernel-mode images with a name. -/
def lgWanted (img : LgImage) : Option (List UInt16) :=
  if img.processId ≠ 0 || img.systemModeImage ≠ some true then none
  else
    match img.fullImageName with
    | none => none
    | some name => if name = [] then none else some name

/-- Where a callback is. -/
inductive LgPhase where
  /-- Not called yet. -/
  | idle
  /-- Its path is in the queue, and the semaphore is to be released. -/
  | queued
  /-- The queue was full, and the path is to be counted. -/
  | full
  | done
  deriving DecidableEq

/-- Where the worker is: at its wait, or behind a wait that the semaphore ended. -/
inductive LgWorkerAt where
  | waiting
  | woken
  deriving DecidableEq

/-- The queue, the semaphore, the counter, and where the threads are. -/
structure LgState where
  queue : Fin lgQueueSize → LgItem
  head : Nat
  tail : Nat
  count : Nat
  /-- `g_LgItems`. -/
  items : Nat
  /-- `g_LgDropped`, a `LONG`. -/
  dropped : UInt32
  phase : Nat → LgPhase
  worker : LgWorkerAt

inductive LgStep where
  /-- The callback `id` is called, up to the end of its locked section. -/
  | notify (id : Nat) (img : LgImage)
  | release (id : Nat)
  | countDropped (id : Nat)
  /-- The wait is over because of the semaphore. -/
  | wake
  /-- The wait is over because of the timer; the start pass does not touch the queue. -/
  | baseline
  /-- `LgDequeue`, and `LgProcessPath` for what it found. -/
  | dequeue

/-- What there is to see. -/
inductive LgEvent where
  | queued (id : Nat) (item : LgItem)
  | full (id : Nat)
  | counted (id : Nat)
  /-- `KeReleaseSemaphore` raises an exception: the limit is passed. -/
  | limitExceeded
  /-- `LgDequeue` finds nothing. -/
  | nothingFound
  | processed (item : LgItem)
  deriving DecidableEq

def LgState.setPhase (s : LgState) (id : Nat) (p : LgPhase) : LgState :=
  { s with phase := Function.update s.phase id p }

/-- The locked section of `LgImageNotify`. -/
def lgEnqueue (s : LgState) (id : Nat) (item : LgItem) : List LgEvent × LgState :=
  if s.count < lgQueueSize then
    ([.queued id item],
      { s.setPhase id .queued with
        queue := Function.update s.queue (Ring.cell lgQueueSize s.tail) item
        tail := (s.tail + 1) % lgQueueSize
        count := s.count + 1 })
  else ([.full id], s.setPhase id .full)

/-- `LgImageNotify` up to the end of its locked section. -/
def lgImageNotify (s : LgState) (id : Nat) (img : LgImage) : List LgEvent × LgState :=
  match lgWanted img with
  | none => ([], s.setPhase id .done)
  | some name => lgEnqueue s id (lgItem name)

/-- `KeReleaseSemaphore`. -/
def lgRelease (s : LgState) (id : Nat) : List LgEvent × LgState :=
  if s.items < lgQueueSize then ([], { s.setPhase id .done with items := s.items + 1 })
  else ([.limitExceeded], s.setPhase id .done)

/-- `LgDequeue`, and what its caller does with what it found. -/
def lgDequeue (s : LgState) : List LgEvent × LgState :=
  if s.count ≠ 0 then
    ([.processed (s.queue (Ring.cell lgQueueSize s.head))],
      { s with head := (s.head + 1) % lgQueueSize, count := s.count - 1, worker := .waiting })
  else ([.nothingFound], { s with worker := .waiting })

/-- One step of one of the threads. -/
def lgStep (s : LgState) : LgStep → List LgEvent × LgState
  | .notify id img => if s.phase id = .idle then lgImageNotify s id img else ([], s)
  | .release id => if s.phase id = .queued then lgRelease s id else ([], s)
  | .countDropped id =>
      if s.phase id = .full then
        ([.counted id], { s.setPhase id .done with dropped := s.dropped + 1 })
      else ([], s)
  | .wake =>
      if s.worker = .waiting ∧ 0 < s.items then
        ([], { s with items := s.items - 1, worker := .woken })
      else ([], s)
  | .baseline => ([], s)
  | .dequeue => if s.worker = .woken then lgDequeue s else ([], s)

/-- After `DriverLoadGuardInitialize`; the queue is as the pool gave it. -/
def LgState.start (queue : Fin lgQueueSize → LgItem) : LgState where
  queue := queue
  head := 0
  tail := 0
  count := 0
  items := 0
  dropped := 0
  phase := fun _ => .idle
  worker := .waiting

/-! ### Names in alerts -/

/-- A character of the name as it is packed. -/
def lgPackChar (c : UInt16) : UInt8 := if 0x20 ≤ c && c < 0x7F then c.toUInt8 else 63

/-- The loop of `LgPackName`, with room for so many characters from `i` on. -/
def lgPackLoop (name : List UInt16) : Nat → Nat → List UInt8 → List UInt8
  | 0, _, b => b
  | room + 1, i, b =>
      if name.getD i 0 ≠ 0 then lgPackLoop name room (i + 1) (b.set i (lgPackChar (name.getD i 0)))
      else b

/-- `LgPackName`: the two words a name travels in; a NUL is behind the name. -/
def lgPackName (name : List UInt16) : UInt64 × UInt64 :=
  let b := lgPackLoop name 16 0 (List.replicate 16 0)
  (wordOf (b.take 8), wordOf (b.drop 8))

end KernelGuard
