/-
No freed memory is touched when the driver-load guard is taken down, whatever the order
of the steps.

The callback and the unloading follow `Rundown.Rules`: the gate is `g_LgRunning`, the count is
`g_LgInFlight`, and the owner has drained it when it found no callback behind the loop.  So
behind that point nobody is between the test of `g_LgRunning` and its last access
(`LgOrder.drained`).  If it does find one, `g_LgQueue` becomes `NULL` and the queue is never
freed (`LgQueuePtr`); what can go wrong then is an access through that `NULL`.

The invariant is in parts, each over the parts of the state it is about, so that a step has to
say something only about the parts it changes.
-/
import KernelGuard.Model.GuardUnload
import KernelGuard.Lib.Rundown
import KernelGuard.Lib.Run

namespace KernelGuard

open Rundown

variable {ι : Type}

/-- The steps of an interleaving, one after the other. -/
def lgLifeRun [DecidableEq ι] (s : LgLife ι) (acts : List (LgMove ι)) : List LgMemEvent × LgLife ι :=
  Run.loop (fun a s => lgLifeStep s a) acts s

theorem lgLifeRun_snoc [DecidableEq ι] (s : LgLife ι) (acts : List (LgMove ι)) (a : LgMove ι) :
    lgLifeRun s (acts ++ [a]) =
      ((lgLifeRun s acts).1 ++ (lgLifeStep (lgLifeRun s acts).2 a).1,
        (lgLifeStep (lgLifeRun s acts).2 a).2) := by
  unfold lgLifeRun Run.loop
  rw [Run.outputs_snoc, Run.exec_snoc]

/-! ### Places

What the invariant asks of a thread depends on where it is.  These functions say it for each
place once: whether a callback is counted and may use the queue, which blocks the worker relies
on, how far the unloading is.  The unloading goes forward only, so a rank is enough for it.
-/

/-- The callback is counted in `g_LgInFlight`. -/
def LgNotifyAt.counts : LgNotifyAt → Bool
  | .idle | .called => false
  | _ => true

/-- The callback has found `g_LgRunning` set, and may use the queue. -/
def LgNotifyAt.uses : LgNotifyAt → Bool
  | .running | .locking | .locked | .writing _ | .unlocking _ | .unlocked _ => true
  | _ => false

theorem LgNotifyAt.counts_of_uses {p : LgNotifyAt} (h : p.uses = true) : p.counts = true := by
  cases p <;> first | rfl | contradiction

/-- How far the unloading is. -/
def LgUnloadAt.rank : LgUnloadAt → Nat
  | .notCalled => 0
  | .clear => 1
  | .remove => 2
  | .poll _ => 3
  | .check => 4
  | .forget => 5
  | .setStop => 6
  | .join => 7
  | .cancel => 8
  | .free _ | .null _ _ => 9
  | .returned => 10

/-- What the unloading has still to free. -/
def LgUnloadAt.todo : LgUnloadAt → List LgBlock
  | .free rest => rest
  | .null b rest => b :: rest
  | .returned => []
  | _ => lgFreeOrder

/-- The block that is freed while the pointer to it is not yet `NULL`. -/
def LgUnloadAt.nulls : LgUnloadAt → Option LgBlock
  | .null b _ => some b
  | _ => none

def LgWorkAt.nulls : LgWorkAt → Option LgBlock
  | .nullBaseline => some .baseline
  | .ending => some .item
  | _ => none

/-- The source of the path is in `LgBaselinePass`. -/
def LgSource.inPass : LgSource → Bool
  | .item => false
  | .present _ _ => true

/-- The worker is in `LgBaselinePass`. -/
def LgWorkAt.inPass : LgWorkAt → Bool
  | .decide src _ => src.inPass
  | .baseline _ | .row _ | .freeBaseline | .nullBaseline => true
  | _ => false

def LgSource.needs : LgSource → LgBlock
  | .item => .item
  | .present _ _ => .baseline

/-- The blocks `LgProcessPath` has found to be there. -/
def LgDecideAt.needs : LgDecideAt → List LgBlock
  | .allowScan => [.allow]
  | .tableScan => [.table]
  | .deny true => [.table]
  | .denyScan true => [.deny, .table]
  | .denyScan false => [.deny]
  | .classes => [.table]
  | .classesRead _ => [.table]
  | _ => []

/-- The blocks whose pointers the worker relies on. -/
def LgWorkAt.needs : LgWorkAt → List LgBlock
  | .locking | .locked | .copying _ | .unlocking true => [.item]
  | .decide src at_ => src.needs :: at_.needs
  | .baseline _ | .row _ | .freeBaseline => [.baseline]
  | _ => []

def LgSource.holds : LgSource → Bool
  | .item => true
  | .present _ ptr => ptr

def LgDecideAt.holds : LgDecideAt → Bool
  | .classesRead ptr => ptr
  | _ => true

/-- The pointers the worker holds were not `NULL`, the one to the queue apart. -/
def LgWorkAt.holds : LgWorkAt → Bool
  | .decide src at_ => src.holds && at_.holds
  | _ => true

/-- The unloading has found a callback running. -/
def lgLeaks (out : List LgMemEvent) : Bool := out.contains .stillRunning

/-! ### The invariant -/

/-- The rundown of the callbacks, as the library sees it. -/
def lgCtl (notify : ι → LgNotifyAt) (running : Bool) (rank : Nat)
    (out : List LgMemEvent) : Ctl ι where
  isOpen := running
  counted := fun t => (notify t).counts
  user := fun t => (notify t).uses
  drained := decide (6 ≤ rank) && !lgLeaks out

/-- The order of the unloading. -/
structure LgOrder (rank : Nat) (running initialised thread : Bool) (worker : LgWorkAt)
    (out : List LgMemEvent) : Prop where
  shut : 2 ≤ rank → running = false
  initialised : initialised = decide (rank < 10)
  thread : rank ≤ 7 → thread = true
  joined : 8 ≤ rank → worker = .terminated
  found : rank = 5 → lgLeaks out = true
  unfound : rank ≤ 4 → lgLeaks out = false

/-- `g_LgQueue` is `NULL` before the end only where the queue is given up. -/
structure LgQueuePtr (rank : Nat) (ptr : Bool) (out : List LgMemEvent) : Prop where
  kept : rank ≤ 8 → lgLeaks out = false ∨ rank ≤ 5 → ptr = true
  given : 6 ≤ rank → lgLeaks out = true → ptr = false

/-- The blocks, their pointers, and what was freed. -/
structure LgBlocks (boot : LgBoot) (mem : LgBlock → LgCell) (unload : LgUnloadAt)
    (worker : LgWorkAt) (out : List LgMemEvent) : Prop where
  /-- A pointer to a freed block is about to become `NULL`. -/
  live : ∀ b, (mem b).ptr = true →
    (mem b).live = true ∨ unload.nulls = some b ∨ worker.nulls = some b
  /-- A block that nothing points at is the queue, given up. -/
  lost : ∀ b, (mem b).live = true → (mem b).ptr = false → b = .queue ∧ lgLeaks out = true
  paired : unload.rank ≤ 8 → (mem .classes).ptr = (mem .table).ptr
  account : ∀ b, out.count (.freed b) + (mem b).live.toNat = (boot.has b).toNat
  done : ∀ b ∈ lgFreeOrder, b ∉ unload.todo → (mem b).ptr = false
  item : worker = .terminated → (mem .item).ptr = false
  nulling : ∀ b, unload.nulls = some b ∨ worker.nulls = some b → (mem b).live = false

/-- A pointer to the queue, as it was read: the block is there, or the queue was given up. -/
structure LgQueueRef (mem : LgBlock → LgCell) (out : List LgMemEvent) (ptr : Bool) : Prop where
  live : ptr = true → (mem .queue).live = true
  given : ptr = false → lgLeaks out = true

/-- What the threads hold. -/
structure LgHold (mem : LgBlock → LgCell) (notify : ι → LgNotifyAt) (worker : LgWorkAt)
    (out : List LgMemEvent) : Prop where
  writing : ∀ t it, notify t = .writing it → LgQueueRef mem out it
  copying : ∀ q, worker = .copying q → LgQueueRef mem out q
  needs : ∀ b ∈ worker.needs, (mem b).ptr = true
  holds : worker.holds = true

/-- The start pass happens once. -/
structure LgPass (mem : LgBlock → LgCell) (worker : LgWorkAt) (timerSet timer : Bool) : Prop where
  once : timerSet.toNat + timer.toNat + worker.inPass.toNat ≤ 1
  paths : worker ≠ .terminated → timerSet = true ∨ timer = true → (mem .baseline).ptr = true

/-- What did not happen. -/
structure LgSafe (out : List LgMemEvent) : Prop where
  noUse : ∀ b, .useAfterFree b ∉ out
  noDouble : ∀ b, .doubleFree b ∉ out
  noNull : ∀ b, .nullAccess b ∈ out → b = .queue ∧ lgLeaks out = true

structure LgLifeInv [Fintype ι] (boot : LgBoot) (s : LgLife ι) (out : List LgMemEvent) : Prop where
  inFlight : s.inFlight.toNat = tally fun t => (s.notify t).counts
  rundown : Ok (lgCtl s.notify s.running s.unload.rank out)
  order : LgOrder s.unload.rank s.running s.initialised s.thread s.worker out
  queue : LgQueuePtr s.unload.rank (s.mem .queue).ptr out
  blocks : LgBlocks boot s.mem s.unload s.worker out
  hold : LgHold s.mem s.notify s.worker out
  pass : LgPass s.mem s.worker s.timerSet s.timer
  safe : LgSafe out

theorem LgLifeInv.start [Fintype ι] (boot : LgBoot) :
    LgLifeInv boot (.start boot true : LgLife ι) [] where
  inFlight := tally_none.symm
  rundown := ⟨fun _ h => absurd h (by simp [lgCtl, LgLife.start, LgNotifyAt.uses]),
    fun h => absurd h (by simp [lgCtl, LgLife.start, LgUnloadAt.rank]), fun _ _ => rfl⟩
  order := ⟨fun h => absurd h (by simp [LgLife.start, LgUnloadAt.rank]), rfl, fun _ => rfl,
    fun h => absurd h (by simp [LgLife.start, LgUnloadAt.rank]),
    fun h => absurd h (by simp [LgLife.start, LgUnloadAt.rank]), fun _ => rfl⟩
  queue := ⟨fun _ _ => rfl, fun h => absurd h (by simp [LgLife.start, LgUnloadAt.rank])⟩
  blocks := {
    live := fun b h => .inl h
    lost := by
      intro b hl hp
      simp only [LgLife.start] at hl hp
      rw [hl] at hp
      contradiction
    paired := fun _ => rfl
    account := fun b => by simp [LgLife.start]
    done := by
      intro b hb hn
      exact absurd hb hn
    item := fun h => absurd h (by simp [LgLife.start])
    nulling := fun b h => absurd h (by simp [LgLife.start, LgUnloadAt.nulls, LgWorkAt.nulls]) }
  hold := ⟨by simp [LgLife.start], by simp [LgLife.start], by simp [LgLife.start, LgWorkAt.needs],
    rfl⟩
  pass := {
    once := by
      have := (boot.has .baseline).toNat_le
      simpa [LgLife.start, LgWorkAt.inPass] using this
    paths := by simp [LgLife.start] }
  safe := ⟨by simp, by simp, by simp⟩

section Steps

variable [Fintype ι] {boot : LgBoot} {s : LgLife ι} {out : List LgMemEvent}

/-! ### Accesses

A pointer that was read is good for as long as nobody frees the block.  For the worker's blocks
that is until it has ended, since the unloading waits for it.  For the queue it is until the
rundown is over, and the argument is by cases on `lgLeaks`: without the message nobody uses the
queue behind the loop, and with it the queue is not freed.
-/

theorem lgLeaks_iff {out : List LgMemEvent} : lgLeaks out = true ↔ .stillRunning ∈ out := by
  simp [lgLeaks]

theorem lgLeaks_append (out es : List LgMemEvent) :
    lgLeaks (out ++ es) = (lgLeaks out || lgLeaks es) := by
  simp [lgLeaks]

/-- An access through `NULL` changes nothing the invariant is about but what is seen. -/
theorem LgLifeInv.fault (h : LgLifeInv boot s out) (hl : lgLeaks out = true) :
    LgLifeInv boot s (out ++ [.nullAccess .queue]) := by
  have hleaks : lgLeaks (out ++ [.nullAccess .queue]) = lgLeaks out := by
    rw [lgLeaks_append, hl, Bool.true_or]
  obtain ⟨inFlight, rundown, order, queue, blocks, hold, pass, safe⟩ := h
  refine ⟨inFlight, ?_, ?_, ?_, ?_, ?_, pass, ?_⟩
  · simpa only [lgCtl, hleaks] using rundown
  · exact ⟨order.shut, order.initialised, order.thread, order.joined,
      hleaks ▸ order.found, hleaks ▸ order.unfound⟩
  · exact ⟨hleaks ▸ queue.kept, hleaks ▸ queue.given⟩
  · exact ⟨blocks.live, hleaks ▸ blocks.lost, blocks.paired,
      fun b => by simpa [List.count_append] using blocks.account b, blocks.done, blocks.item,
      blocks.nulling⟩
  · have href {q : Bool} (hq : LgQueueRef s.mem out q) :
        LgQueueRef s.mem (out ++ [.nullAccess .queue]) q := ⟨hq.live, fun _ => hleaks.trans hl⟩
    exact ⟨fun t it ht => href (hold.writing t it ht), fun q hq => href (hold.copying q hq),
      hold.needs, hold.holds⟩
  · refine ⟨fun b => by simp [safe.noUse b], fun b => by simp [safe.noDouble b], fun b hb => ?_⟩
    rw [hleaks]
    rcases List.mem_append.mp hb with hb | hb
    · exact safe.noNull b hb
    · simp only [List.mem_singleton, LgMemEvent.nullAccess.injEq] at hb
      exact ⟨hb, hl⟩

/-- An access to the queue through a pointer that a thread holds. -/
theorem LgLifeInv.touchQueue (h : LgLifeInv boot s out) {q : Bool} (hq : LgQueueRef s.mem out q) :
    LgLifeInv boot s (out ++ s.touch .queue q) := by
  cases q with
  | true => simpa [LgLife.touch, hq.live rfl] using h
  | false => simpa [LgLife.touch] using h.fault (hq.given rfl)

/-- While the worker runs, the unloading has freed nothing. -/
theorem LgLifeInv.rank_of_worker (h : LgLifeInv boot s out) (hw : s.worker ≠ .terminated) :
    s.unload.rank ≤ 7 := by
  by_contra hr
  exact hw (h.order.joined (by omega))

theorem LgUnloadAt.rank_of_nulls {u : LgUnloadAt} {b : LgBlock} (h : u.nulls = some b) :
    u.rank = 9 := by
  cases u <;> first | rfl | contradiction

theorem LgUnloadAt.nulls_of_rank {u : LgUnloadAt} (h : u.rank ≤ 8) : u.nulls = none := by
  cases u <;> first | rfl | simp [rank] at h

theorem LgWorkAt.nulls_ne_queue (w : LgWorkAt) : w.nulls ≠ some .queue := by
  cases w <;> simp [nulls]

/-- What the worker relies on is there. -/
theorem LgLifeInv.live_of_needs (h : LgLifeInv boot s out) (hw : s.worker ≠ .terminated)
    (hn : s.worker.nulls = none) {b : LgBlock} (hb : (s.mem b).ptr = true) :
    (s.mem b).live = true := by
  rcases h.blocks.live b hb with hl | hu | hnull
  · exact hl
  · have := LgUnloadAt.rank_of_nulls hu
    have := h.rank_of_worker hw
    omega
  · rw [hn] at hnull
    contradiction

theorem LgLifeInv.touch_needs (h : LgLifeInv boot s out) (hw : s.worker ≠ .terminated)
    (hn : s.worker.nulls = none) {b : LgBlock} (hb : (s.mem b).ptr = true) :
    s.touch b true = [] := by
  simp [LgLife.touch, h.live_of_needs hw hn hb]

/-- A callback in its use of the queue reads `g_LgQueue`. -/
theorem LgLifeInv.ref_of_uses (h : LgLifeInv boot s out) {t : ι}
    (ht : (s.notify t).uses = true) : LgQueueRef s.mem out (s.mem .queue).ptr := by
  have hdrained (hr : 6 ≤ s.unload.rank) : lgLeaks out = true := by
    by_contra hl
    have := h.rundown.unused (by simpa [lgCtl, hr] using hl) t
    simp only [lgCtl, ht] at this
    contradiction
  constructor
  · intro hp
    rcases h.blocks.live .queue hp with hl | hu | hw
    · exact hl
    · have hr : 6 ≤ s.unload.rank := by
        rw [LgUnloadAt.rank_of_nulls hu]
        decide
      rw [h.queue.given hr (hdrained hr)] at hp
      contradiction
    · exact absurd hw (LgWorkAt.nulls_ne_queue _)
  · intro hp
    by_contra hl
    have hr : ¬ 6 ≤ s.unload.rank := fun hr => hl (hdrained hr)
    have := h.queue.kept (by omega) (.inr (by omega))
    rw [this] at hp
    contradiction

/-- The worker reads `g_LgQueue`. -/
theorem LgLifeInv.ref_of_worker (h : LgLifeInv boot s out) (hw : s.worker ≠ .terminated)
    (hn : s.worker.nulls = none) : LgQueueRef s.mem out (s.mem .queue).ptr := by
  refine ⟨h.live_of_needs hw hn, fun hp => ?_⟩
  by_contra hl
  have hr := h.rank_of_worker hw
  have := h.queue.kept (by omega) (.inl (by simpa using hl))
  rw [this] at hp
  contradiction

/-! ### The worker

Most steps of the worker only move it on: what the new place relies on is what the old place did,
or was tested in the step (`workOn`).  `LgProcessPath` is called from two places and is done
once for both (`Deciding`).
-/

/-- The worker goes to `w`, without a change to the blocks. -/
theorem LgLifeInv.workTo (h : LgLifeInv boot s out) (hw : s.worker ≠ .terminated)
    (hn : s.worker.nulls = none) {w : LgWorkAt} {timer : Bool} (hw' : w ≠ .terminated)
    (hn' : w.nulls = none) (hcopy : ∀ q, w = .copying q → LgQueueRef s.mem out q)
    (hneeds : ∀ b ∈ w.needs, (s.mem b).ptr = true) (hholds : w.holds = true)
    (honce : s.timerSet.toNat + timer.toNat + w.inPass.toNat ≤ 1)
    (htimer : timer = true → s.timer = true) (count items : Nat) (lock : Bool) :
    LgLifeInv boot { s with
      worker := w, timer := timer, count := count, items := items, lock := lock } out := by
  have hr := h.rank_of_worker hw
  refine ⟨h.inFlight, h.rundown, ?_, h.queue, ?_, ⟨h.hold.writing, hcopy, hneeds, hholds⟩,
    ⟨honce, fun _ ht => h.pass.paths hw (ht.imp_right htimer)⟩, h.safe⟩
  · exact ⟨h.order.shut, h.order.initialised, h.order.thread,
      fun hr' => absurd hr' (Nat.not_le.mpr (Nat.lt_succ_of_le hr)), h.order.found, h.order.unfound⟩
  · refine ⟨fun b hb => .inl (h.live_of_needs hw hn hb), h.blocks.lost, h.blocks.paired,
      h.blocks.account, h.blocks.done, fun hw'' => absurd hw'' hw', fun b hb => ?_⟩
    have hu : s.unload.nulls = none := LgUnloadAt.nulls_of_rank (Nat.le_succ_of_le hr)
    simp [hu, hn'] at hb

/-- Where `LgProcessPath` goes, and that it touches nothing that is not there. -/
structure DecidesOk (mem : LgBlock → LgCell) (src : LgSource) (out : List LgMemEvent)
    (next : LgWorkAt) : Prop where
  quiet : out = []
  stays : next ≠ .terminated ∧ next.nulls = none ∧ ∀ q, next ≠ .copying q
  needs : ∀ b ∈ next.needs, (mem b).ptr = true
  holds : next.holds = true
  pass : next.inPass = src.inPass

section Decide

variable {mem : LgBlock → LgCell} {src : LgSource}

/-- The place behind `LgProcessPath` needs what the path was in. -/
theorem DecidesOk.after (hsrc : (mem src.needs).ptr = true) : DecidesOk mem src [] src.after := by
  cases src with
  | item =>
      exact ⟨rfl, by simp [LgSource.after, LgWorkAt.nulls], by simp [LgSource.after, LgWorkAt.needs],
        rfl, rfl⟩
  | present i ptr =>
      refine ⟨rfl, by simp [LgSource.after, LgWorkAt.nulls], fun b hb => ?_, rfl, rfl⟩
      obtain rfl := List.mem_singleton.mp hb
      exact hsrc

/-- A place inside of `LgProcessPath`. -/
theorem DecidesOk.inside {at_ : LgDecideAt} (hsrc : (mem src.needs).ptr = true)
    (hhold : src.holds = true) (hneeds : ∀ b ∈ at_.needs, (mem b).ptr = true)
    (hholds : at_.holds = true) : DecidesOk mem src [] (.decide src at_) where
  quiet := rfl
  stays := by simp [LgWorkAt.nulls]
  needs := by
    intro b hb
    rcases List.mem_cons.mp hb with rfl | hb
    · exact hsrc
    · exact hneeds b hb
  holds := by rw [LgWorkAt.holds, hhold, hholds, Bool.and_self]
  pass := rfl

/-- Behind the deny list: the class is read only for a digest that is in the table. -/
theorem DecidesOk.found {found listed : Bool} (hsrc : (mem src.needs).ptr = true)
    (hhold : src.holds = true) (htable : found = true → (mem .table).ptr = true) :
    DecidesOk mem src [] (.decide src (lgFound found listed)) := by
  cases found with
  | true => exact .inside hsrc hhold (by simpa [lgFound, LgDecideAt.needs] using htable) rfl
  | false => cases listed <;> exact .inside hsrc hhold (by simp [lgFound, LgDecideAt.needs]) rfl

end Decide

theorem LgLifeInv.touchPath (h : LgLifeInv boot s out) {src : LgSource} {at_ : LgDecideAt}
    (hw : s.worker = .decide src at_) (hsrc : (s.mem src.needs).ptr = true)
    (hhold : src.holds = true) : lgTouchPath s src = [] := by
  cases src with
  | item => exact h.touch_needs (by simp [hw]) (by rw [hw]; rfl) hsrc
  | present i ptr =>
      obtain rfl : ptr = true := hhold
      exact h.touch_needs (by simp [hw]) (by rw [hw]; rfl) hsrc

/-- What the invariant says to a worker in `LgProcessPath`. -/
structure Deciding (s : LgLife ι) (src : LgSource) (at_ : LgDecideAt) : Prop where
  source : (s.mem src.needs).ptr = true
  needs : ∀ b ∈ at_.needs, (s.mem b).ptr = true
  sourceHolds : src.holds = true
  holds : at_.holds = true
  quiet : ∀ b, (s.mem b).ptr = true → s.touch b true = []
  path : lgTouchPath s src = []
  /-- The classes come and go with the table. -/
  paired : (s.mem .classes).ptr = (s.mem .table).ptr

theorem LgLifeInv.deciding (h : LgLifeInv boot s out) {src : LgSource} {at_ : LgDecideAt}
    (hw : s.worker = .decide src at_) : Deciding s src at_ := by
  have hsrc : (s.mem src.needs).ptr = true :=
    h.hold.needs _ (by rw [hw]; exact List.mem_cons_self)
  have hholds := h.hold.holds
  rw [hw, LgWorkAt.holds, Bool.and_eq_true] at hholds
  exact {
    source := hsrc
    needs := fun b hb => h.hold.needs b (by rw [hw]; exact List.mem_cons_of_mem _ hb)
    sourceHolds := hholds.1
    holds := hholds.2
    quiet := fun b hb => h.touch_needs (by simp [hw]) (by rw [hw]; rfl) hb
    path := h.touchPath hw hsrc hholds.1
    paired := h.blocks.paired (Nat.le_succ_of_le (h.rank_of_worker (by simp [hw]))) }

section Places

variable {src : LgSource} {at_ : LgDecideAt}

omit [Fintype ι]

/-- The next place needs no block but the one the path is in. -/
theorem Deciding.bare (h : Deciding s src at_) {p : LgDecideAt} (hneeds : p.needs = [])
    (hholds : p.holds = true) : DecidesOk s.mem src [] (.decide src p) :=
  .inside h.source h.sourceHolds (by simp [hneeds]) hholds

/-- The pointer to a block is tested, and the block searched only if it is there. -/
theorem Deciding.test (h : Deciding s src at_) {b : LgBlock} {p q : LgDecideAt}
    (hp : p.needs = [b]) (hholds : p.holds = true) (hq : q.needs = []) (hholds' : q.holds = true) :
    DecidesOk s.mem src [] (.decide src (if (s.mem b).ptr then p else q)) := by
  split
  case isTrue hb => exact .inside h.source h.sourceHolds (by simpa [hp] using hb) hholds
  case isFalse => exact h.bare hq hholds'

theorem Deciding.hash (h : Deciding s src .hash) (hit : Bool) :
    DecidesOk s.mem src (lgDecideStep s src hit .hash).1 (lgDecideStep s src hit .hash).2 := by
  simp only [lgDecideStep, h.path]
  cases hit with
  | true => exact h.bare rfl rfl
  | false =>
      have hreport := h.bare (p := .report) rfl rfl
      by_cases hi : src = .item
      · simpa [hi] using hi ▸ hreport
      · simpa [hi] using DecidesOk.after h.source

theorem Deciding.allowScan (h : Deciding s src .allowScan) (hit : Bool) :
    DecidesOk s.mem src (lgDecideStep s src hit .allowScan).1
      (lgDecideStep s src hit .allowScan).2 := by
  simp only [lgDecideStep, h.quiet .allow (h.needs _ List.mem_cons_self)]
  cases hit with
  | true => exact .after h.source
  | false => exact h.bare rfl rfl

theorem Deciding.tableScan (h : Deciding s src .tableScan) (hit : Bool) :
    DecidesOk s.mem src (lgDecideStep s src hit .tableScan).1
      (lgDecideStep s src hit .tableScan).2 := by
  have htable := h.needs .table List.mem_cons_self
  simp only [lgDecideStep, h.quiet .table htable]
  cases hit with
  | true =>
      exact .inside h.source h.sourceHolds (by simpa [LgDecideAt.needs] using htable) rfl
  | false => exact h.bare rfl rfl

theorem Deciding.deny {found : Bool} (h : Deciding s src (.deny found)) (hit : Bool) :
    DecidesOk s.mem src (lgDecideStep s src hit (.deny found)).1
      (lgDecideStep s src hit (.deny found)).2 := by
  have htable (hf : found = true) : (s.mem .table).ptr = true :=
    h.needs .table (by rw [hf]; exact List.mem_cons_self)
  simp only [lgDecideStep]
  split
  case isTrue hp =>
    refine .inside h.source h.sourceHolds ?_ rfl
    cases found with
    | true => simpa [LgDecideAt.needs, hp] using htable
    | false => simpa [LgDecideAt.needs] using hp
  case isFalse => exact .found h.source h.sourceHolds htable

theorem Deciding.denyScan {found : Bool} (h : Deciding s src (.denyScan found)) (hit : Bool) :
    DecidesOk s.mem src (lgDecideStep s src hit (.denyScan found)).1
      (lgDecideStep s src hit (.denyScan found)).2 := by
  have htable (hf : found = true) : (s.mem .table).ptr = true :=
    h.needs .table (by simp [hf, LgDecideAt.needs])
  have hdeny : (s.mem .deny).ptr = true :=
    h.needs .deny (by cases found <;> exact List.mem_cons_self)
  simp only [lgDecideStep, h.quiet .deny hdeny]
  exact .found h.source h.sourceHolds htable

/-- The pointer to the classes is read: it is there as the table is. -/
theorem Deciding.classes (h : Deciding s src .classes) :
    DecidesOk s.mem src [] (.decide src (.classesRead (s.mem .classes).ptr)) := by
  have htable := h.needs .table List.mem_cons_self
  exact .inside h.source h.sourceHolds (by simpa [LgDecideAt.needs] using htable)
    (h.paired.trans htable)

theorem Deciding.classesRead {ptr : Bool} (h : Deciding s src (.classesRead ptr)) (hit : Bool) :
    DecidesOk s.mem src (lgDecideStep s src hit (.classesRead ptr)).1
      (lgDecideStep s src hit (.classesRead ptr)).2 := by
  obtain rfl : ptr = true := h.holds
  have htable := h.needs .table List.mem_cons_self
  simp only [lgDecideStep, h.quiet .classes (h.paired.trans htable)]
  exact h.bare rfl rfl

/-- Every step of `LgProcessPath`. -/
theorem Deciding.step (h : Deciding s src at_) (hit : Bool) :
    DecidesOk s.mem src (lgDecideStep s src hit at_).1 (lgDecideStep s src hit at_).2 := by
  cases at_ with
  | hash => exact h.hash hit
  | allow => exact h.test rfl rfl rfl rfl
  | allowScan => exact h.allowScan hit
  | table => exact h.test rfl rfl rfl rfl
  | tableScan => exact h.tableScan hit
  | deny found => exact h.deny hit
  | denyScan found => exact h.denyScan hit
  | classes => exact h.classes
  | classesRead ptr => exact h.classesRead hit
  | lockMode =>
      simp only [lgDecideStep]
      split
      · exact h.bare rfl rfl
      · exact .after h.source
  | report =>
      simp only [lgDecideStep, h.path]
      exact .after h.source

end Places

/-! ### Frees

A free and the `NULL` behind it are two steps.  Between them the pointer is bad, and who is
between them is known from the place (`nulls`), which is why nobody else reads it there.
-/

theorem lgLeaks_freed (out : List LgMemEvent) (b : LgBlock) :
    lgLeaks (out ++ [.freed b]) = lgLeaks out := by
  simp [lgLeaks]

theorem LgSafe.freed (h : LgSafe out) (b : LgBlock) : LgSafe (out ++ [.freed b]) := by
  refine ⟨fun c => by simp [h.noUse c], fun c => by simp [h.noDouble c], fun c hc => ?_⟩
  rw [lgLeaks_freed]
  exact h.noNull c (by simpa using hc)

section Cells

variable {mem : LgBlock → LgCell} {unload unload' : LgUnloadAt} {worker worker' : LgWorkAt}
  {b : LgBlock}

/-- A block is freed once: behind its free the pointer to it is the next thing to go. -/
theorem LgBlocks.free (h : LgBlocks boot mem unload worker out) (hl : (mem b).live = true)
    (hp : (mem b).ptr = true) (hu : unload.nulls = none) (hw : worker.nulls = none)
    (hnull : ∀ c, unload'.nulls = some c ∨ worker'.nulls = some c ↔ c = b)
    (hpair : unload'.rank ≤ 8 → unload.rank ≤ 8) (htodo : unload'.todo = unload.todo)
    (hend : worker' = .terminated → worker = .terminated) :
    LgBlocks boot (Function.update mem b ⟨true, false⟩) unload' worker' (out ++ [.freed b]) where
  live c hc := by
    by_cases hcb : c = b
    · exact .inr ((hnull c).mpr hcb)
    · rw [Function.update_of_ne hcb] at hc ⊢
      exact .inl (by simpa [hu, hw] using h.live c hc)
  lost c hc hcp := by
    rw [lgLeaks_freed]
    by_cases hcb : c = b
    · simp [hcb] at hc
    · rw [Function.update_of_ne hcb] at hc hcp
      exact h.lost c hc hcp
  paired hr := by
    have hptr (c : LgBlock) : (Function.update mem b ⟨true, false⟩ c).ptr = (mem c).ptr := by
      by_cases hcb : c = b
      · rw [hcb, Function.update_self, hp]
      · rw [Function.update_of_ne hcb]
    rw [hptr, hptr]
    exact h.paired (hpair hr)
  account c := by
    have hc := h.account c
    by_cases hcb : c = b
    · subst hcb
      rw [hl, Bool.toNat_true] at hc
      rw [Function.update_self, List.count_append, List.count_singleton_self, Bool.toNat_false]
      exact hc
    · rw [Function.update_of_ne hcb, List.count_append, List.count_singleton, if_neg]
      · exact hc
      · simpa using Ne.symm hcb
  done c hc hn := by
    have hcp := h.done c hc (htodo ▸ hn)
    by_cases hcb : c = b
    · rw [hcb, hp] at hcp
      contradiction
    · rwa [Function.update_of_ne hcb]
  item ht := by
    have hi := h.item (hend ht)
    by_cases hcb : .item = b
    · rw [hcb, hp] at hi
      contradiction
    · rwa [Function.update_of_ne hcb]
  nulling c hc := by
    rw [(hnull c).mp hc, Function.update_self]

/-- The pointer to a freed block goes. -/
theorem LgBlocks.null (h : LgBlocks boot mem unload worker out)
    (hnulls : ∀ c, unload.nulls = some c ∨ worker.nulls = some c ↔ c = b)
    (hu : unload'.nulls = none) (hw : worker'.nulls = none)
    (hpair : unload'.rank ≤ 8 → unload.rank ≤ 8 ∧ b ≠ .classes ∧ b ≠ .table)
    (htodo : ∀ c, c ∉ unload'.todo → c = b ∨ c ∉ unload.todo)
    (hend : worker' = .terminated → worker = .terminated ∨ b = .item) :
    LgBlocks boot (Function.update mem b ⟨false, (mem b).live⟩) unload' worker' out where
  live c hc := by
    by_cases hcb : c = b
    · simp [hcb] at hc
    · rw [Function.update_of_ne hcb] at hc ⊢
      rcases h.live c hc with hl | hnull
      · exact .inl hl
      · exact absurd ((hnulls c).mp hnull) hcb
  lost c hc hcp := by
    by_cases hcb : c = b
    · rw [hcb, Function.update_self, h.nulling b ((hnulls b).mpr rfl)] at hc
      contradiction
    · rw [Function.update_of_ne hcb] at hc hcp
      exact h.lost c hc hcp
  paired hr := by
    obtain ⟨hr', hc, ht⟩ := hpair hr
    rw [Function.update_of_ne hc.symm, Function.update_of_ne ht.symm]
    exact h.paired hr'
  account c := by
    have hc := h.account c
    by_cases hcb : c = b
    · subst hcb
      rwa [Function.update_self]
    · rwa [Function.update_of_ne hcb]
  done c hc hn := by
    by_cases hcb : c = b
    · rw [hcb, Function.update_self]
    · rw [Function.update_of_ne hcb]
      exact h.done c hc ((htodo c hn).resolve_left hcb)
  item ht := by
    by_cases hcb : .item = b
    · rw [hcb, Function.update_self]
    · rw [Function.update_of_ne hcb]
      exact h.item ((hend ht).resolve_right (Ne.symm hcb))
  nulling c hc := by
    simp [hu, hw] at hc

/-- A held pointer to the queue is good while the queue is not freed. -/
theorem LgQueueRef.update {q : Bool} {c : LgCell} (h : LgQueueRef mem out q)
    (hb : b = .queue → c.live = (mem .queue).live) :
    LgQueueRef (Function.update mem b c) out q := by
  refine ⟨fun hq => ?_, h.given⟩
  by_cases hbq : .queue = b
  · rw [← hbq, Function.update_self, hb hbq.symm]
    exact h.live hq
  · rw [Function.update_of_ne hbq]
    exact h.live hq

theorem LgQueueRef.freed {q : Bool} (h : LgQueueRef mem out q) (b : LgBlock) :
    LgQueueRef mem (out ++ [.freed b]) q :=
  ⟨h.live, fun hq => (lgLeaks_freed out b).trans (h.given hq)⟩

end Cells

theorem LgWorkAt.queue_notMem_needs (w : LgWorkAt) : .queue ∉ w.needs := by
  cases w with
  | decide src at_ =>
      cases src <;> cases at_ with
        | deny f => cases f <;> simp [needs, LgSource.needs, LgDecideAt.needs]
        | denyScan f => cases f <;> simp [needs, LgSource.needs, LgDecideAt.needs]
        | _ => simp [needs, LgSource.needs, LgDecideAt.needs]
  | unlocking f => cases f <;> simp [needs]
  | _ => simp [needs]

/-- The order is not touched by the worker before it ends. -/
theorem LgOrder.work {rank : Nat} {running initialised thread : Bool} {worker : LgWorkAt}
    (h : LgOrder rank running initialised thread worker out) (hr : rank ≤ 7) (w : LgWorkAt) :
    LgOrder rank running initialised thread w out :=
  ⟨h.shut, h.initialised, h.thread,
    fun hr' => absurd hr' (Nat.not_le.mpr (Nat.lt_succ_of_le hr)), h.found, h.unfound⟩

section Seen

/-! What is seen matters to most of the invariant only as far as the queue was given up. -/

variable {out' : List LgMemEvent} (ho : lgLeaks out' = lgLeaks out)

include ho

theorem LgOrder.seen {rank : Nat} {running initialised thread : Bool} {worker : LgWorkAt}
    (h : LgOrder rank running initialised thread worker out) :
    LgOrder rank running initialised thread worker out' :=
  ⟨h.shut, h.initialised, h.thread, h.joined, fun hr => ho.trans (h.found hr),
    fun hr => ho.trans (h.unfound hr)⟩

theorem LgQueuePtr.seen {rank : Nat} {ptr : Bool} (h : LgQueuePtr rank ptr out) :
    LgQueuePtr rank ptr out' :=
  ⟨ho ▸ h.kept, ho ▸ h.given⟩

theorem LgLifeInv.rundown_seen (h : LgLifeInv boot s out) :
    Ok (lgCtl s.notify s.running s.unload.rank out') := by
  rw [lgCtl, ho]
  exact h.rundown

end Seen

omit [Fintype ι] in
theorem LgLife.release_eq {b : LgBlock} (hl : (s.mem b).live = true) (hp : (s.mem b).ptr = true) :
    s.release b = ([.freed b], { s with mem := Function.update s.mem b ⟨true, false⟩ }) := by
  simp [LgLife.release, LgLife.setCell, hl, hp]

/-- The worker frees one of its own: the paths of the start pass, or its item. -/
theorem LgLifeInv.workFree (h : LgLifeInv boot s out) {b : LgBlock} (hb : b ≠ .queue)
    (hw : s.worker ≠ .terminated) (hn : s.worker.nulls = none) (hl : (s.mem b).live = true)
    (hp : (s.mem b).ptr = true) {w : LgWorkAt} (hw' : w.nulls = some b)
    (hpass : w.inPass = s.worker.inPass) :
    LgLifeInv boot { s with mem := Function.update s.mem b ⟨true, false⟩, worker := w }
      (out ++ [.freed b]) := by
  have hr := h.rank_of_worker hw
  have hu : s.unload.nulls = none := LgUnloadAt.nulls_of_rank (Nat.le_succ_of_le hr)
  have hcopy (q : Bool) : w ≠ .copying q := by
    rintro rfl
    contradiction
  have hneeds : w.needs = [] ∧ w.holds = true ∧ w ≠ .terminated := by
    cases w <;> simp_all [LgWorkAt.nulls, LgWorkAt.needs, LgWorkAt.holds]
  obtain ⟨hneeds, hholds, hend⟩ := hneeds
  have hseen := lgLeaks_freed out b
  have hrundown := h.rundown_seen hseen
  refine ⟨h.inFlight, hrundown, (h.order.work hr w).seen hseen, ?_, ?_, ?_, ?_, h.safe.freed b⟩
  · simp only [Function.update_of_ne hb.symm]
    exact h.queue.seen hseen
  · exact h.blocks.free hl hp hu hn (fun c => by simp [hu, hw', eq_comm]) id rfl
      (fun ht => absurd ht hend)
  · refine ⟨fun t it ht => ?_, fun q hq => absurd hq (hcopy q), by simp [hneeds], hholds⟩
    exact ((h.hold.writing t it ht).update fun hq => absurd hq hb).freed b
  · refine ⟨hpass ▸ h.pass.once, fun _ ht => ?_⟩
    have hpaths := h.pass.paths hw ht
    by_cases hbb : .baseline = b
    · simp only [← hbb, Function.update_self]
    · simpa only [Function.update_of_ne hbb] using hpaths

/-- And forgets it. -/
theorem LgLifeInv.workNull (h : LgLifeInv boot s out) {b : LgBlock} (hb : s.worker.nulls = some b)
    {w : LgWorkAt} (hw : w = .waiting ∧ b = .baseline ∨ w = .terminated ∧ b = .item)
    (count : Nat) :
    LgLifeInv boot { s.setCell b ⟨false, (s.mem b).live⟩ with baselineCount := count, worker := w }
      out := by
  have hne : s.worker ≠ .terminated := by
    intro ht
    rw [ht] at hb
    contradiction
  have hr := h.rank_of_worker hne
  have hu : s.unload.nulls = none := LgUnloadAt.nulls_of_rank (Nat.le_succ_of_le hr)
  have hbq : b ≠ .queue := by
    rintro rfl
    exact LgWorkAt.nulls_ne_queue _ hb
  have hplain : w.nulls = none ∧ w.needs = [] ∧ w.holds = true ∧ w.inPass = false ∧
      ∀ q, w ≠ .copying q := by
    rcases hw with ⟨rfl, -⟩ | ⟨rfl, -⟩ <;> simp [LgWorkAt.nulls, LgWorkAt.needs, LgWorkAt.holds,
      LgWorkAt.inPass]
  obtain ⟨hnulls, hneeds, hholds, hin, hcopy⟩ := hplain
  refine ⟨h.inFlight, h.rundown, h.order.work hr w, ?_, ?_, ?_, ?_, h.safe⟩
  · simp only [LgLife.setCell, Function.update_of_ne hbq.symm]
    exact h.queue
  · refine h.blocks.null (fun c => by simp [hu, hb, eq_comm]) hu hnulls
      (fun hr' => ⟨hr', ?_⟩) (fun c hc => .inr hc) (fun ht => ?_)
    · rcases hw with ⟨-, rfl⟩ | ⟨-, rfl⟩ <;> simp
    · rcases hw with ⟨rfl, -⟩ | ⟨-, rfl⟩
      · contradiction
      · exact .inr rfl
  · refine ⟨fun t it ht => ?_, fun q hq => absurd hq (hcopy q), by simp [hneeds], hholds⟩
    exact (h.hold.writing t it ht).update fun hq => absurd hq hbq
  · have honce := h.pass.once
    refine ⟨?_, fun hw' ht => ?_⟩
    · simp only [LgLife.setCell, hin, Bool.toNat_false]
      omega
    · -- The timer has expired once, for the pass that ends here.
      exfalso
      rcases hw with ⟨-, rfl⟩ | ⟨hw, -⟩
      · have hpass : s.worker.inPass = true := by
          cases hs : s.worker <;> simp_all [LgWorkAt.nulls, LgWorkAt.inPass]
        simp only [LgLife.setCell] at ht
        rw [hpass, Bool.toNat_true] at honce
        rcases ht with ht | ht <;> · rw [ht, Bool.toNat_true] at honce; omega
      · exact hw' hw

/-- The worker ends without an item. -/
theorem LgLifeInv.endPlain (h : LgLifeInv boot s out) (hw : s.worker = .exiting)
    (hp : (s.mem .item).ptr = false) : LgLifeInv boot { s with worker := .terminated } out := by
  have hr := h.rank_of_worker (by simp [hw])
  have hu : s.unload.nulls = none := LgUnloadAt.nulls_of_rank (Nat.le_succ_of_le hr)
  have honce := h.pass.once
  refine ⟨h.inFlight, h.rundown, h.order.work hr _, h.queue, ?_, ?_, ?_, h.safe⟩
  · exact ⟨fun b hb => .inl (h.live_of_needs (by simp [hw]) (by rw [hw]; rfl) hb), h.blocks.lost,
      h.blocks.paired, h.blocks.account, h.blocks.done, fun _ => hp,
      fun b hb => by simp [hu, LgWorkAt.nulls] at hb⟩
  · exact ⟨h.hold.writing, by simp, by simp [LgWorkAt.needs], rfl⟩
  · refine ⟨?_, by simp⟩
    simp only [LgWorkAt.inPass, Bool.toNat_false]
    omega

/-- The end of the worker's wait. -/
theorem LgLifeInv.wait (h : LgLifeInv boot s out) (hw : s.worker = .waiting) :
    LgLifeInv boot (lgWait s) out := by
  have honce := h.pass.once
  have hsame (w : LgWorkAt) (hin : w.inPass = false) :
      s.timerSet.toNat + s.timer.toNat + w.inPass.toNat ≤ 1 := by
    rw [hin, Bool.toNat_false]
    omega
  have hne : s.worker ≠ .terminated := by simp [hw]
  have hn : s.worker.nulls = none := by
    rw [hw]
    rfl
  unfold lgWait
  split
  · exact h.workTo hne hn (by simp) rfl (by simp) (by simp [LgWorkAt.needs]) rfl (hsame _ rfl) id
      s.count s.items s.lock
  split
  · by_cases hp : (s.mem .item).ptr = true
    · rw [if_pos hp]
      exact h.workTo hne hn (by simp) rfl (by simp) (by simpa [LgWorkAt.needs] using hp) rfl
        (hsame _ rfl) id s.count (s.items - 1) s.lock
    · rw [if_neg hp]
      exact h.workTo hne hn (by simp) rfl (by simp) (by simp [LgWorkAt.needs]) rfl (hsame _ rfl) id
        s.count (s.items - 1) s.lock
  split
  case isTrue ht =>
    have hpaths := h.pass.paths hne (.inr ht)
    refine h.workTo hne hn (by simp) rfl (by simp) (by simpa [LgWorkAt.needs] using hpaths) rfl ?_
      (by simp) s.count s.items s.lock
    rw [ht, hw] at honce
    simpa [LgWorkAt.inPass] using honce
  case isFalse => exact h

/-- A step of the worker that leaves the blocks and the timer as they are. -/
theorem LgLifeInv.workOn (h : LgLifeInv boot s out) {v w : LgWorkAt} (hv : s.worker = v)
    (hne : v ≠ .terminated) (hn : v.nulls = none) (hne' : w ≠ .terminated) (hn' : w.nulls = none)
    (hcopy : ∀ q, w = .copying q → LgQueueRef s.mem out q)
    (hneeds : ∀ b ∈ w.needs, (s.mem b).ptr = true) (hholds : w.holds = true)
    (hin : w.inPass = v.inPass) (count : Nat) (lock : Bool) :
    LgLifeInv boot { s with worker := w, count := count, lock := lock } out := by
  subst hv
  exact h.workTo hne hn hne' hn' hcopy hneeds hholds (hin ▸ h.pass.once) id count s.items lock

/-- Under the lock the worker looks whether there is something to take. -/
theorem LgLifeInv.workLocked (h : LgLifeInv boot s out) (hw : s.worker = .locked) :
    LgLifeInv boot { s with
      worker := if s.count ≠ 0 then .copying (s.mem .queue).ptr else .unlocking false } out := by
  have hneeds := h.hold.needs
  rw [hw] at hneeds
  split
  · refine h.workOn (w := .copying _) hw (by simp) rfl (by simp) rfl (fun q hq => ?_) hneeds rfl
      rfl s.count s.lock
    obtain rfl : (s.mem .queue).ptr = q := by simpa using hq
    exact h.ref_of_worker (by simp [hw]) (by rw [hw]; rfl)
  · exact h.workOn (w := .unlocking false) hw (by simp) rfl (by simp) rfl (by simp)
      (by simp [LgWorkAt.needs]) rfl rfl s.count s.lock

/-- The copy out of the queue. -/
theorem LgLifeInv.workCopy (h : LgLifeInv boot s out) {q : Bool} (hw : s.worker = .copying q) :
    LgLifeInv boot { s with count := s.count - 1, worker := .unlocking true }
      (out ++ (s.touch .queue q ++ s.touch .item true)) := by
  have hneeds := h.hold.needs
  rw [hw] at hneeds
  have hitem := h.touch_needs (by simp [hw]) (by rw [hw]; rfl) (hneeds .item List.mem_cons_self)
  rw [hitem, List.append_nil]
  exact (h.touchQueue (h.hold.copying q hw)).workOn (w := .unlocking true) hw (by simp) rfl
    (by simp) rfl (by simp) hneeds rfl rfl (s.count - 1) s.lock

theorem LgLifeInv.workUnlock (h : LgLifeInv boot s out) {have_ : Bool}
    (hw : s.worker = .unlocking have_) :
    LgLifeInv boot { s with
      lock := false, worker := if have_ then .decide .item .hash else .waiting } out := by
  have hneeds := h.hold.needs
  rw [hw] at hneeds
  cases have_ with
  | true =>
      exact h.workOn (w := .decide .item .hash) hw (by simp) rfl (by simp) rfl (by simp) hneeds rfl
        rfl s.count false
  | false =>
      exact h.workOn (w := .waiting) hw (by simp) rfl (by simp) rfl (by simp)
        (by simp [LgWorkAt.needs]) rfl rfl s.count false

/-- A step of `LgProcessPath`. -/
theorem LgLifeInv.workDecide (h : LgLifeInv boot s out) {src : LgSource} {at_ : LgDecideAt}
    (hw : s.worker = .decide src at_) (hit : Bool) :
    LgLifeInv boot { s with worker := (lgDecideStep s src hit at_).2 }
      (out ++ (lgDecideStep s src hit at_).1) := by
  obtain ⟨hquiet, ⟨hend, hnulls, hcopy⟩, hneeds, hholds, hpass⟩ := (h.deciding hw).step hit
  rw [hquiet, List.append_nil]
  exact h.workOn hw (by simp) rfl hend hnulls (fun q hq => absurd hq (hcopy q)) hneeds hholds hpass
    s.count s.lock

/-- The head of the loop of the start pass. -/
theorem LgLifeInv.workBaseline (h : LgLifeInv boot s out) {i : Nat}
    (hw : s.worker = .baseline i) :
    LgLifeInv boot { s with
      worker := if i < s.baselineCount ∧ s.stop = false then .row i else .freeBaseline } out := by
  have hneeds := h.hold.needs
  rw [hw] at hneeds
  split
  · exact h.workOn (w := .row i) hw (by simp) rfl (by simp) rfl (by simp) hneeds rfl rfl s.count
      s.lock
  · exact h.workOn (w := .freeBaseline) hw (by simp) rfl (by simp) rfl (by simp) hneeds rfl rfl
      s.count s.lock

/-- A path of the start pass is next. -/
theorem LgLifeInv.workRow (h : LgLifeInv boot s out) {i : Nat} (hw : s.worker = .row i) :
    LgLifeInv boot { s with worker := .decide (.present i (s.mem .baseline).ptr) .hash } out := by
  have hneeds := h.hold.needs
  rw [hw] at hneeds
  rw [hneeds .baseline List.mem_cons_self]
  exact h.workOn (w := .decide (.present i true) .hash) hw (by simp) rfl (by simp) rfl (by simp)
    hneeds rfl rfl s.count s.lock

/-- The worker frees a block of its own that it found to be there. -/
theorem LgLifeInv.workRelease (h : LgLifeInv boot s out) {b : LgBlock} {v w : LgWorkAt}
    (hv : s.worker = v) (hb : b ≠ .queue) (hne : v ≠ .terminated) (hn : v.nulls = none)
    (hp : (s.mem b).ptr = true) (hw : w.nulls = some b) (hpass : w.inPass = v.inPass) :
    LgLifeInv boot { (s.release b).2 with worker := w } (out ++ (s.release b).1) := by
  subst hv
  have hl := h.live_of_needs hne hn hp
  rw [LgLife.release_eq hl hp]
  exact h.workFree hb hne hn hl hp hw hpass

theorem LgLifeInv.work (h : LgLifeInv boot s out) (hit : Bool) :
    LgLifeInv boot (lgWorkStep s hit).2 (out ++ (lgWorkStep s hit).1) := by
  have hneeds := h.hold.needs
  unfold lgWorkStep
  split
  case h_1 hw => simpa using h.wait hw
  case h_2 hw =>
    rw [hw] at hneeds
    split
    · simpa using h
    · rw [List.append_nil]
      exact h.workOn (w := .locked) hw (by simp) rfl (by simp) rfl (by simp) hneeds rfl rfl s.count
        true
  case h_3 hw =>
    rw [List.append_nil]
    exact h.workLocked hw
  case h_4 q hw => exact h.workCopy hw
  case h_5 have_ hw =>
    rw [List.append_nil]
    exact h.workUnlock hw
  case h_6 src at_ hw => exact h.workDecide hw hit
  case h_7 i hw =>
    rw [List.append_nil]
    exact h.workBaseline hw
  case h_8 i hw =>
    rw [List.append_nil]
    exact h.workRow hw
  case h_9 hw =>
    rw [hw] at hneeds
    have hp := hneeds .baseline List.mem_cons_self
    rw [if_pos hp]
    exact h.workRelease hw (by simp) (by simp) rfl hp rfl rfl
  case h_10 hw =>
    rw [List.append_nil]
    exact h.workNull (by rw [hw]; rfl) (.inl ⟨rfl, rfl⟩) 0
  case h_11 hw =>
    split
    case isTrue hp => exact h.workRelease hw (by simp) (by simp) rfl hp rfl rfl
    case isFalse hp =>
      rw [List.append_nil]
      exact h.endPlain hw (by simpa using hp)
  case h_12 hw =>
    rw [List.append_nil]
    exact h.workNull (by rw [hw]; rfl) (.inr ⟨rfl, rfl⟩) s.baselineCount
  case h_13 => simpa using h

theorem LgLifeInv.expire (h : LgLifeInv boot s out) :
    LgLifeInv boot (if s.timerSet then { s with timerSet := false, timer := true } else s) out := by
  split
  case isTrue ht =>
    refine ⟨h.inFlight, h.rundown, h.order, h.queue, h.blocks, h.hold, ⟨?_, fun hw _ => ?_⟩, h.safe⟩
    · have honce := h.pass.once
      rw [ht] at honce
      simp only [Bool.toNat_true, Bool.toNat_false] at honce ⊢
      omega
    · exact h.pass.paths hw (.inl ht)
  case isFalse => exact h

/-! ### The unloading

The ranks in front of the look at `g_LgInFlight` (`early`), between it and `LgFreeState` (`late`),
and in `LgFreeState` (`skip`, `unloadFree`, `unloadNull`) are alike, and a place has little to add.
The look itself is where the rundown is drained or the queue given up.
-/

/-- A step of the unloading that leaves the blocks as they are. -/
theorem LgLifeInv.unloadTo (h : LgLifeInv boot s out) {u : LgUnloadAt}
    {running initialised thread timerSet : Bool}
    (horder : LgOrder u.rank running initialised thread s.worker out)
    (hqueue : LgQueuePtr u.rank (s.mem .queue).ptr out)
    (hgate : running = true → s.running = true)
    (hdrained : 6 ≤ u.rank → 6 ≤ s.unload.rank ∨ lgLeaks out = true ∨
      (s.running = false ∧ s.inFlight = 0))
    (hpaired : u.rank ≤ 8 → s.unload.rank ≤ 8) (htodo : ∀ b, b ∉ u.todo → b ∉ s.unload.todo)
    (hnull : s.unload.nulls = none) (hnull' : u.nulls = none)
    (htimer : timerSet = true → s.timerSet = true) (registered stop : Bool) (count : Nat) :
    LgLifeInv boot { s with
      unload := u, running := running, initialised := initialised, thread := thread,
      timerSet := timerSet, registered := registered, stop := stop, baselineCount := count } out := by
  refine ⟨h.inFlight, h.rundown.step ⟨hgate, fun t ht => ⟨LgNotifyAt.counts_of_uses ht, .inl ht⟩,
    fun hd => ?_⟩, horder, hqueue, ?_, h.hold, ?_, h.safe⟩
  · simp only [lgCtl, Bool.and_eq_true, decide_eq_true_eq, Bool.not_eq_true'] at hd ⊢
    rcases hdrained hd.1 with hr | hl | ⟨hrun, hzero⟩
    · exact .inl ⟨hr, hd.2⟩
    · rw [hl] at hd
      simp at hd
    · exact .inr ⟨hrun, word_zero h.inFlight hzero⟩
  · refine ⟨fun b hb => ?_, h.blocks.lost, fun hr => h.blocks.paired (hpaired hr),
      h.blocks.account, fun b hb hn => h.blocks.done b hb (htodo b hn), h.blocks.item,
      fun b hb => h.blocks.nulling b ?_⟩
    · simpa [hnull, hnull'] using h.blocks.live b hb
    · simpa [hnull, hnull'] using hb
  · refine ⟨?_, fun hw ht => h.pass.paths hw (ht.imp_left htimer)⟩
    have honce := h.pass.once
    have hle : timerSet.toNat ≤ s.timerSet.toNat := by
      cases timerSet with
      | false => exact Nat.zero_le _
      | true => rw [htimer rfl]
    simp only
    omega

/-- A callback is found running behind the loop. -/
theorem LgLifeInv.find (h : LgLifeInv boot s out) (hu : s.unload = .check) :
    LgLifeInv boot { s with unload := .forget } (out ++ [.stillRunning]) := by
  have hleaks : lgLeaks (out ++ [.stillRunning]) = true := by simp [lgLeaks]
  have horder := h.order
  have hqueue := h.queue
  have hblocks := h.blocks
  rw [hu] at horder hqueue hblocks
  refine ⟨h.inFlight, h.rundown.step ⟨id, fun t ht => ⟨LgNotifyAt.counts_of_uses ht, .inl ht⟩,
    fun hd => ?_⟩, ?_, ?_, ?_, ?_, h.pass, ?_⟩
  · simp [lgCtl, hleaks] at hd
  · exact ⟨fun _ => horder.shut (by decide), horder.initialised, fun _ => horder.thread (by decide),
      fun hr => absurd hr (by simp [LgUnloadAt.rank]), fun _ => hleaks,
      fun hr => absurd hr (by simp [LgUnloadAt.rank])⟩
  · exact ⟨fun hr _ => hqueue.kept (by decide) (.inr (by decide)),
      fun hr => absurd hr (by simp [LgUnloadAt.rank])⟩
  · refine ⟨fun b hb => ?_, fun b hl hp => ⟨(hblocks.lost b hl hp).1, hleaks⟩,
      fun _ => hblocks.paired (by decide), fun b => ?_, fun b hb hn => absurd hb hn, hblocks.item,
      fun b hb => hblocks.nulling b ?_⟩
    · simpa [LgUnloadAt.nulls] using hblocks.live b hb
    · simpa [List.count_append] using hblocks.account b
    · simpa [LgUnloadAt.nulls] using hb
  · have href {q : Bool} (hq : LgQueueRef s.mem out q) :
        LgQueueRef s.mem (out ++ [.stillRunning]) q := ⟨hq.live, fun _ => hleaks⟩
    exact ⟨fun t it ht => href (h.hold.writing t it ht), fun q hq => href (h.hold.copying q hq),
      h.hold.needs, h.hold.holds⟩
  · refine ⟨fun b => by simp [h.safe.noUse b], fun b => by simp [h.safe.noDouble b], fun b hb => ?_⟩
    have hb' : .nullAccess b ∈ out := by simpa using hb
    exact ⟨(h.safe.noNull b hb').1, hleaks⟩

/-- The queue is given up: it stays, and nothing points at it. -/
theorem LgBlocks.forget {mem : LgBlock → LgCell} {worker : LgWorkAt}
    (h : LgBlocks boot mem .forget worker out) (hleaks : lgLeaks out = true) :
    LgBlocks boot (Function.update mem .queue ⟨false, (mem .queue).live⟩) .setStop worker out := by
  have hne {b : LgBlock} (hb : b ≠ .queue) :
      Function.update mem .queue ⟨false, (mem .queue).live⟩ b = mem b :=
    Function.update_of_ne hb _ _
  refine ⟨fun b hb => ?_, fun b hl hp => ?_, fun _ => ?_, fun b => ?_,
    fun b hb hn => absurd hb hn, fun hw => ?_, fun b hb => ?_⟩
  · by_cases hbq : b = .queue
    · simp [hbq] at hb
    · rw [hne hbq] at hb ⊢
      simpa [LgUnloadAt.nulls] using h.live b hb
  · by_cases hbq : b = .queue
    · exact ⟨hbq, hleaks⟩
    · rw [hne hbq] at hl hp
      exact h.lost b hl hp
  · rw [hne (by simp), hne (by simp)]
    exact h.paired (by decide)
  · by_cases hbq : b = .queue
    · have := h.account b
      subst hbq
      simpa using this
    · simpa only [hne hbq] using h.account b
  · rw [hne (by simp)]
    exact h.item hw
  · have hb' : worker.nulls = some b := by simpa [LgUnloadAt.nulls] using hb
    have hbq : b ≠ .queue := by
      rintro rfl
      exact LgWorkAt.nulls_ne_queue _ hb'
    rw [hne hbq]
    exact h.nulling b (.inr hb')

theorem LgLifeInv.giveUp (h : LgLifeInv boot s out) (hu : s.unload = .forget) :
    LgLifeInv boot { s.setCell .queue ⟨false, (s.mem .queue).live⟩ with unload := .setStop } out := by
  have horder := h.order
  have hblocks := h.blocks
  rw [hu] at horder hblocks
  have hleaks := horder.found rfl
  have hne {b : LgBlock} (hb : b ≠ .queue) :
      Function.update s.mem .queue ⟨false, (s.mem .queue).live⟩ b = s.mem b :=
    Function.update_of_ne hb _ _
  refine ⟨h.inFlight, h.rundown.step ⟨id, fun t ht => ⟨LgNotifyAt.counts_of_uses ht, .inl ht⟩,
    fun hd => ?_⟩, ?_, ?_, ?_, ?_, ?_, h.safe⟩
  · simp [lgCtl, hleaks] at hd
  · exact ⟨fun _ => horder.shut (by decide), horder.initialised, fun _ => horder.thread (by decide),
      fun hr => absurd hr (by simp [LgUnloadAt.rank]), fun hr => absurd hr (by simp [LgUnloadAt.rank]),
      fun hr => absurd hr (by simp [LgUnloadAt.rank])⟩
  · refine ⟨fun _ hor => ?_, fun _ _ => by simp [LgLife.setCell]⟩
    rcases hor with hl | hr
    · rw [hleaks] at hl
      contradiction
    · exact absurd hr (by simp [LgUnloadAt.rank])
  · exact hblocks.forget hleaks
  · refine ⟨fun t it ht => (h.hold.writing t it ht).update fun _ => rfl,
      fun q hq => (h.hold.copying q hq).update fun _ => rfl, fun b hb => ?_, h.hold.holds⟩
    have hbq : b ≠ .queue := by
      rintro rfl
      exact LgWorkAt.queue_notMem_needs _ hb
    simp only [LgLife.setCell, hne hbq]
    exact h.hold.needs b hb
  · refine ⟨h.pass.once, fun hw ht => ?_⟩
    simp only [LgLife.setCell]
    rw [hne (by simp)]
    exact h.pass.paths hw ht

/-- Nobody holds a pointer to the queue when `LgFreeState` finds one to free. -/
theorem LgLifeInv.queue_unused (h : LgLifeInv boot s out) (hr : s.unload.rank = 9)
    (hp : (s.mem .queue).ptr = true) (t : ι) : (s.notify t).uses = false := by
  have hl : lgLeaks out = false := by
    by_contra hl
    rw [h.queue.given (by omega) (by simpa using hl)] at hp
    contradiction
  exact h.rundown.unused (by simp [lgCtl, hr, hl]) t

/-- `LgFreeState` frees a block. -/
theorem LgLifeInv.unloadFree (h : LgLifeInv boot s out) {b : LgBlock} {rest : List LgBlock}
    (hu : s.unload = .free (b :: rest)) (hl : (s.mem b).live = true)
    (hp : (s.mem b).ptr = true) :
    LgLifeInv boot { s with mem := Function.update s.mem b ⟨true, false⟩, unload := .null b rest }
      (out ++ [.freed b]) := by
  have hr : s.unload.rank = 9 := by
    rw [hu]
    rfl
  have hw := h.order.joined (by omega)
  have hseen := lgLeaks_freed out b
  have horder := h.order.seen hseen
  have hqueue := h.queue.seen hseen
  have hrundown := h.rundown_seen hseen
  rw [hu] at horder hqueue hrundown
  refine ⟨h.inFlight, hrundown, horder, ?_, ?_, ?_, ?_, h.safe.freed b⟩
  · refine ⟨fun hr' => absurd hr' (by simp [LgUnloadAt.rank]), fun hr' hl' => ?_⟩
    have hq := hqueue.given hr' hl'
    by_cases hbq : .queue = b
    · rw [← hbq, hq] at hp
      contradiction
    · simpa only [Function.update_of_ne hbq] using hq
  · refine h.blocks.free hl hp (by rw [hu]; rfl) (by rw [hw]; rfl) (fun c => ?_)
      (fun hr' => absurd hr' (by simp [LgUnloadAt.rank])) (by rw [hu]; rfl) id
    rw [hw]
    simp [LgUnloadAt.nulls, LgWorkAt.nulls, eq_comm]
  · refine ⟨fun t it ht => ?_, fun q hq => ?_, fun c hc => ?_, h.hold.holds⟩
    · by_cases hbq : b = .queue
      · have := h.queue_unused hr (hbq ▸ hp) t
        simp only at ht
        rw [ht] at this
        contradiction
      · exact ((h.hold.writing t it ht).update fun hq => absurd hq hbq).freed b
    · simp only [hw] at hq
      contradiction
    · simp [hw, LgWorkAt.needs] at hc
  · exact ⟨h.pass.once, fun hw' => absurd hw hw'⟩

/-- And forgets it. -/
theorem LgLifeInv.unloadNull (h : LgLifeInv boot s out) {b : LgBlock} {rest : List LgBlock}
    (hu : s.unload = .null b rest) :
    LgLifeInv boot { s.setCell b ⟨false, (s.mem b).live⟩ with unload := .free rest } out := by
  have hr : s.unload.rank = 9 := by
    rw [hu]
    rfl
  have hw := h.order.joined (by omega)
  have horder := h.order
  have hqueue := h.queue
  have hrundown := h.rundown
  rw [hu] at horder hqueue hrundown
  refine ⟨h.inFlight, hrundown, horder, ?_, ?_, ?_, ?_, h.safe⟩
  · refine ⟨fun hr' => absurd hr' (by simp [LgUnloadAt.rank]), fun hr' hl' => ?_⟩
    have hq := hqueue.given hr' hl'
    by_cases hbq : .queue = b
    · simp [LgLife.setCell, ← hbq]
    · simpa only [LgLife.setCell, Function.update_of_ne hbq] using hq
  · refine h.blocks.null (fun c => ?_) rfl (by simp only [LgLife.setCell]; rw [hw]; rfl)
      (fun hr' => absurd hr' (by simp [LgUnloadAt.rank])) (fun c hc => ?_) .inl
    · rw [hu, hw]
      simp [LgUnloadAt.nulls, LgWorkAt.nulls, eq_comm]
    · rw [hu]
      simp only [LgUnloadAt.todo, List.mem_cons, not_or] at hc ⊢
      tauto
  · refine ⟨fun t it ht => (h.hold.writing t it ht).update fun hb => by rw [hb],
      fun q hq => ?_, fun c hc => ?_, h.hold.holds⟩
    · simp only [LgLife.setCell, hw] at hq
      contradiction
    · simp [LgLife.setCell, hw, LgWorkAt.needs] at hc
  · exact ⟨h.pass.once, fun hw' => absurd hw hw'⟩

theorem LgUnloadAt.todo_of_rank {u : LgUnloadAt} (h : u.rank ≤ 8) : u.todo = lgFreeOrder := by
  cases u <;> first | rfl | simp [rank] at h

/-- A step in front of `LgFreeState`. -/
theorem LgLifeInv.before (h : LgLifeInv boot s out) (hr : s.unload.rank ≤ 8) {u : LgUnloadAt}
    {running thread timerSet : Bool}
    (horder : LgOrder u.rank running s.initialised thread s.worker out)
    (hqueue : LgQueuePtr u.rank (s.mem .queue).ptr out)
    (hgate : running = true → s.running = true)
    (hdrained : 6 ≤ u.rank → 6 ≤ s.unload.rank ∨ lgLeaks out = true ∨
      (s.running = false ∧ s.inFlight = 0))
    (htodo : u.todo = lgFreeOrder) (hnull : u.nulls = none)
    (htimer : timerSet = true → s.timerSet = true) (registered stop : Bool) :
    LgLifeInv boot { s with
      unload := u, running := running, thread := thread, timerSet := timerSet,
      registered := registered, stop := stop } out :=
  h.unloadTo horder hqueue hgate hdrained (fun _ => hr)
    (by rw [htodo, LgUnloadAt.todo_of_rank hr]; exact fun _ => id)
    (LgUnloadAt.nulls_of_rank hr) hnull htimer registered stop s.baselineCount

/-- A step in front of the look at `g_LgInFlight`. -/
theorem LgLifeInv.early (h : LgLifeInv boot s out) (hr : s.unload.rank ≤ 4) {u : LgUnloadAt}
    (hr' : u.rank ≤ 4) {running : Bool} (hgate : running = true → s.running = true)
    (hshut : 2 ≤ u.rank → running = false) (registered : Bool) :
    LgLifeInv boot { s with unload := u, running := running, registered := registered } out := by
  have hleaks := h.order.unfound hr
  have hini : s.initialised = true := by
    rw [h.order.initialised]
    exact decide_eq_true (by omega)
  refine h.before (by omega) ⟨hshut, ?_, fun _ => h.order.thread (by omega), fun hr'' => ?_,
    fun hr'' => ?_, fun _ => hleaks⟩ ⟨fun _ _ => h.queue.kept (by omega) (.inl hleaks), fun hr'' => ?_⟩
    hgate (fun hr'' => ?_) (LgUnloadAt.todo_of_rank (by omega)) (LgUnloadAt.nulls_of_rank (by omega))
    id registered s.stop
  · rw [hini, eq_comm]
    exact decide_eq_true (by omega)
  all_goals exfalso; omega

/-- A step between this look and `LgFreeState`. -/
theorem LgLifeInv.late (h : LgLifeInv boot s out) (hr : 6 ≤ s.unload.rank) (hr' : s.unload.rank ≤ 8)
    {u : LgUnloadAt} (hu : s.unload.rank ≤ u.rank) (hu' : u.rank ≤ 9) {thread timerSet : Bool}
    (hthread : u.rank ≤ 7 → thread = s.thread) (hjoin : 8 ≤ u.rank → s.worker = .terminated)
    (htodo : u.todo = lgFreeOrder) (hnull : u.nulls = none)
    (htimer : timerSet = true → s.timerSet = true) (stop : Bool) :
    LgLifeInv boot { s with
      unload := u, thread := thread, timerSet := timerSet, stop := stop } out := by
  refine h.before hr' ⟨fun _ => h.order.shut (by omega), ?_, fun hr'' => ?_, hjoin,
    fun hr'' => ?_, fun hr'' => ?_⟩ ⟨fun hr'' hor => h.queue.kept hr' (hor.imp_right ?_),
    fun _ hl => h.queue.given hr hl⟩ id (fun _ => .inl hr) htodo hnull htimer s.registered stop
  · rw [h.order.initialised, decide_eq_true (by omega), decide_eq_true (by omega)]
  · rw [hthread hr'']
    exact h.order.thread (by omega)
  · exfalso
    omega
  · exfalso
    omega
  · omega

/-- No callback is found behind the loop: the rundown is over. -/
theorem LgLifeInv.drain (h : LgLifeInv boot s out) (hu : s.unload = .check)
    (hzero : s.inFlight = 0) : LgLifeInv boot { s with unload := .setStop } out := by
  have horder := h.order
  have hqueue := h.queue
  rw [hu] at horder hqueue
  have hleaks := horder.unfound (by decide)
  exact h.before (by simp [hu, LgUnloadAt.rank]) (u := .setStop)
    ⟨fun _ => horder.shut (by decide), horder.initialised, fun _ => horder.thread (by decide),
      by simp [LgUnloadAt.rank], by simp [LgUnloadAt.rank], by simp [LgUnloadAt.rank]⟩
    ⟨fun _ _ => hqueue.kept (by decide) (.inl hleaks), fun _ hl => by simp [hleaks] at hl⟩
    id (fun _ => .inr (.inr ⟨horder.shut (by decide), hzero⟩)) rfl rfl id s.registered s.stop

/-- A step of `LgFreeState` that frees nothing. -/
theorem LgLifeInv.skip (h : LgLifeInv boot s out) {u : LgUnloadAt} (hr : 9 ≤ s.unload.rank)
    (hu : 9 ≤ u.rank) (htodo : ∀ b, b ∉ u.todo → (s.mem b).ptr = true → b ∉ s.unload.todo)
    (hnull : s.unload.nulls = none) (hnull' : u.nulls = none) (count : Nat) :
    LgLifeInv boot { s with
      unload := u, initialised := decide (u.rank < 10), baselineCount := count } out := by
  have hw := h.order.joined (by omega)
  refine ⟨h.inFlight, h.rundown.step ⟨id, fun t ht => ⟨LgNotifyAt.counts_of_uses ht, .inl ht⟩,
    fun hd => .inl ?_⟩, ⟨fun _ => h.order.shut (by omega), rfl, fun hr' => ?_, fun _ => hw,
    fun hr' => ?_, fun hr' => ?_⟩, ⟨fun hr' => ?_, fun _ hl => h.queue.given (by omega) hl⟩, ?_,
    h.hold, h.pass, h.safe⟩
  · simp only [lgCtl, Bool.and_eq_true, decide_eq_true_eq] at hd ⊢
    exact ⟨by omega, hd.2⟩
  · exfalso
    simp only at hr'
    omega
  · exfalso
    simp only at hr'
    omega
  · exfalso
    simp only at hr'
    omega
  · exfalso
    simp only at hr'
    omega
  · refine ⟨fun b hb => ?_, h.blocks.lost, fun hr' => ?_, h.blocks.account, fun b hb hn => ?_,
      h.blocks.item, fun b hb => h.blocks.nulling b ?_⟩
    · simpa [hnull, hnull'] using h.blocks.live b hb
    · exfalso
      simp only at hr'
      omega
    · by_contra hp
      rw [Bool.not_eq_false] at hp
      rw [h.blocks.done b hb (htodo b hn hp)] at hp
      contradiction
    · simpa [hnull, hnull'] using hb

/-- The look at `g_LgInFlight` behind the loop. -/
theorem LgLifeInv.look (h : LgLifeInv boot s out) (hu : s.unload = .check) :
    LgLifeInv boot (lgUnloadStep s).2 (out ++ (lgUnloadStep s).1) := by
  simp only [lgUnloadStep, hu]
  by_cases hzero : s.inFlight = 0
  · rw [if_neg (by simpa using hzero), List.append_nil]
    exact h.drain hu hzero
  · rw [if_pos hzero]
    exact h.find hu

/-- `g_LgStop` is set, and the worker's thread is there to be waited for. -/
theorem LgLifeInv.stopping (h : LgLifeInv boot s out) (hu : s.unload = .setStop) :
    LgLifeInv boot
      { s with stop := true, unload := if s.thread then .join else .cancel } out := by
  have horder := h.order
  rw [hu] at horder
  rw [if_pos (horder.thread (by decide))]
  exact h.late (by simp [hu, LgUnloadAt.rank]) (by simp [hu, LgUnloadAt.rank])
    (by simp [hu, LgUnloadAt.rank]) (by simp [LgUnloadAt.rank]) (fun _ => rfl)
    (by simp [LgUnloadAt.rank]) rfl rfl id true

/-- The worker has ended. -/
theorem LgLifeInv.joined (h : LgLifeInv boot s out) (hu : s.unload = .join)
    (hw : s.worker = .terminated) :
    LgLifeInv boot { s with thread := false, unload := .cancel } out :=
  h.late (by simp [hu, LgUnloadAt.rank]) (by simp [hu, LgUnloadAt.rank])
    (by simp [hu, LgUnloadAt.rank]) (by simp [LgUnloadAt.rank]) (by simp [LgUnloadAt.rank])
    (fun _ => hw) rfl rfl id s.stop

theorem LgLifeInv.cancel (h : LgLifeInv boot s out) (hu : s.unload = .cancel) :
    LgLifeInv boot { s with timerSet := false, unload := .free lgFreeOrder } out := by
  have horder := h.order
  rw [hu] at horder
  exact h.late (by simp [hu, LgUnloadAt.rank]) (by simp [hu, LgUnloadAt.rank])
    (by simp [hu, LgUnloadAt.rank]) (by simp [LgUnloadAt.rank]) (by simp [LgUnloadAt.rank])
    (fun _ => horder.joined (by decide)) rfl rfl (by simp) s.stop

/-- `LgFreeState` passes by a block that is not there. -/
theorem LgLifeInv.passBy (h : LgLifeInv boot s out) {b : LgBlock} {rest : List LgBlock}
    (hu : s.unload = .free (b :: rest)) (hp : (s.mem b).ptr ≠ true) :
    LgLifeInv boot { s with unload := .free rest } out := by
  have hini : s.initialised = decide ((LgUnloadAt.free rest).rank < 10) := by
    have horder := h.order
    rw [hu] at horder
    exact horder.initialised
  have hskip := h.skip (u := .free rest) (by simp [hu, LgUnloadAt.rank]) (by simp [LgUnloadAt.rank])
    ?_ (by rw [hu]; rfl) rfl s.baselineCount
  · rw [← hini] at hskip
    exact hskip
  · intro c hc hcp
    have hcb : c ≠ b := by
      rintro rfl
      exact hp hcp
    simpa [hu, LgUnloadAt.todo, hcb] using hc

/-- The next block in `LgFreeState`. -/
theorem LgLifeInv.freeNext (h : LgLifeInv boot s out) {b : LgBlock} {rest : List LgBlock}
    (hu : s.unload = .free (b :: rest)) :
    LgLifeInv boot (lgUnloadStep s).2 (out ++ (lgUnloadStep s).1) := by
  simp only [lgUnloadStep, hu]
  by_cases hp : (s.mem b).ptr = true
  · have hw : s.worker.nulls = none := by
      rw [h.order.joined (by simp [hu, LgUnloadAt.rank])]
      rfl
    have hl : (s.mem b).live = true := by
      simpa [hu, hw, LgUnloadAt.nulls] using h.blocks.live b hp
    rw [if_pos hp, LgLife.release_eq hl hp]
    exact h.unloadFree hu hl hp
  · rw [if_neg hp, List.append_nil]
    exact h.passBy hu hp

/-- A second call finds nothing to take down. -/
theorem LgLifeInv.again (h : LgLifeInv boot s out) (hu : s.unload = .returned) :
    LgLifeInv boot { s with unload := if s.initialised then .clear else .returned } out := by
  have horder := h.order
  rw [hu] at horder
  have hini : s.initialised = false := horder.initialised
  rw [hini]
  exact h.skip (u := .returned) (by simp [hu, LgUnloadAt.rank]) (by simp [LgUnloadAt.rank])
    (by simp [hu, LgUnloadAt.todo]) (by rw [hu]; rfl) rfl s.baselineCount

theorem LgLifeInv.unload (h : LgLifeInv boot s out) :
    LgLifeInv boot (lgUnloadStep s).2 (out ++ (lgUnloadStep s).1) := by
  have horder := h.order
  cases hu : s.unload with
  | check => exact h.look hu
  | free rest =>
      cases rest with
      | nil =>
          simp only [lgUnloadStep, hu, List.append_nil]
          exact h.skip (u := .returned) (by simp [hu, LgUnloadAt.rank]) (by simp [LgUnloadAt.rank])
            (by simp [hu, LgUnloadAt.todo]) (by rw [hu]; rfl) rfl 0
      | cons b rest => exact h.freeNext hu
  | notCalled =>
      have hini : s.initialised = true := by
        rw [hu] at horder
        exact horder.initialised
      simp only [lgUnloadStep, hu, if_pos hini, List.append_nil]
      exact h.early (by simp [hu, LgUnloadAt.rank]) (by simp [LgUnloadAt.rank]) id
        (by simp [LgUnloadAt.rank]) s.registered
  | clear =>
      simp only [lgUnloadStep, hu, List.append_nil]
      exact h.early (by simp [hu, LgUnloadAt.rank]) (by simp [LgUnloadAt.rank]) (by simp)
        (by simp) s.registered
  | remove =>
      rw [hu] at horder
      simp only [lgUnloadStep, hu, List.append_nil]
      exact h.early (by simp [hu, LgUnloadAt.rank]) (by simp [LgUnloadAt.rank]) id
        (fun _ => horder.shut (by decide)) false
  | poll i =>
      rw [hu] at horder
      simp only [lgUnloadStep, hu, List.append_nil]
      refine h.early (by simp [hu, LgUnloadAt.rank]) ?_ id
        (fun _ => horder.shut (by simp [LgUnloadAt.rank])) s.registered
      split <;> simp [LgUnloadAt.rank]
  | forget =>
      simp only [lgUnloadStep, hu, List.append_nil]
      exact h.giveUp hu
  | setStop =>
      simp only [lgUnloadStep, hu, List.append_nil]
      exact h.stopping hu
  | join =>
      simp only [lgUnloadStep, hu]
      split
      case isTrue hw => simpa using h.joined hu hw
      case isFalse => simpa using h
  | cancel =>
      simp only [lgUnloadStep, hu, List.append_nil]
      exact h.cancel hu
  | null b rest =>
      simp only [lgUnloadStep, hu, List.append_nil]
      exact h.unloadNull hu
  | returned =>
      simp only [lgUnloadStep, hu, List.append_nil]
      exact h.again hu

/-! ### The callbacks

A callback that passes the gate is counted, and the gate was open: the count is not zero behind
the point at which the gate is shut, and so the rundown is not over before it has left.
-/

section Callbacks

variable [DecidableEq ι]

omit [Fintype ι] in
theorem counts_update (notify : ι → LgNotifyAt) (t : ι) (p : LgNotifyAt) :
    (fun u => (Function.update notify t p u).counts)
      = Function.update (fun u => (notify u).counts) t p.counts := by
  funext u
  by_cases hu : u = t
  · subst hu
    simp
  · simp [hu]

/-- A callback goes to `p`. -/
theorem LgLifeInv.moveTo (h : LgLifeInv boot s out) {t : ι} {p : LgNotifyAt} {n : UInt32}
    (hn : n.toNat = tally fun u => (Function.update s.notify t p u).counts)
    (huse : p.uses = true → (s.notify t).uses = true ∨ s.running = true)
    (href : ∀ it, p = .writing it → LgQueueRef s.mem out it)
    (count items : Nat) (lock : Bool) (dropped : UInt32) :
    LgLifeInv boot { s.at_ t p with
      inFlight := n, count := count, items := items, lock := lock, dropped := dropped } out := by
  refine ⟨hn, h.rundown.step ⟨id, fun u hu => ?_, .inl⟩, h.order, h.queue, h.blocks, ?_, h.pass,
    h.safe⟩
  · simp only [lgCtl, LgLife.at_] at hu ⊢
    refine ⟨LgNotifyAt.counts_of_uses hu, ?_⟩
    by_cases ht : u = t
    · subst ht
      rw [Function.update_self] at hu
      exact huse hu
    · rw [Function.update_of_ne ht] at hu
      exact .inl hu
  · refine ⟨fun u it hu => ?_, h.hold.copying, h.hold.needs, h.hold.holds⟩
    simp only [LgLife.at_] at hu
    by_cases ht : u = t
    · subst ht
      rw [Function.update_self] at hu
      exact href it hu
    · rw [Function.update_of_ne ht] at hu
      exact h.hold.writing u it hu

/-- The same between places that are counted alike. -/
theorem LgLifeInv.moveOn (h : LgLifeInv boot s out) {t : ι} {p : LgNotifyAt}
    (hc : p.counts = (s.notify t).counts)
    (huse : p.uses = true → (s.notify t).uses = true ∨ s.running = true)
    (href : ∀ it, p = .writing it → LgQueueRef s.mem out it)
    (count items : Nat) (lock : Bool) (dropped : UInt32) :
    LgLifeInv boot { s.at_ t p with
      count := count, items := items, lock := lock, dropped := dropped } out := by
  refine h.moveTo (n := s.inFlight) ?_ huse href count items lock dropped
  rw [counts_update, hc, Function.update_eq_self]
  exact h.inFlight

/-- The gate: only here does a callback begin to use the queue. -/
theorem LgLifeInv.gate (h : LgLifeInv boot s out) {t : ι} (hp : s.notify t = .counted) :
    LgLifeInv boot (s.at_ t (if s.running then .running else .leaving)) out := by
  refine h.moveOn ?_ ?_ ?_ s.count s.items s.lock s.dropped
  · rw [hp]
    split <;> rfl
  · intro hu
    by_cases hr : s.running = true
    · exact .inr hr
    · simp [hr, LgNotifyAt.uses] at hu
  · intro it hit
    split at hit <;> contradiction

/-- Under the lock the callback takes the place in the queue, or finds it full. -/
theorem LgLifeInv.place (h : LgLifeInv boot s out) {t : ι} (hp : s.notify t = .locked) :
    LgLifeInv boot (s.at_ t (if s.count < lgQueueSize then .writing (s.mem .queue).ptr
      else .unlocking false)) out := by
  have hu : (s.notify t).uses = true := by
    rw [hp]
    rfl
  refine h.moveOn ?_ (fun _ => .inl hu) ?_ s.count s.items s.lock s.dropped
  · rw [hp]
    split <;> rfl
  · intro it hit
    split at hit
    · obtain rfl : (s.mem .queue).ptr = it := by simpa using hit
      exact h.ref_of_uses hu
    · contradiction

theorem LgLifeInv.notify (hcard : Fintype.card ι < 2 ^ 32) (h : LgLifeInv boot s out) (t : ι) :
    LgLifeInv boot (lgNotifyStep s t).2 (out ++ (lgNotifyStep s t).1) := by
  unfold lgNotifyStep
  split
  case h_1 => simpa using h
  case h_2 hp =>
    rw [List.append_nil]
    refine h.moveTo ?_ (by simp [LgNotifyAt.uses]) (by simp) s.count s.items s.lock s.dropped
    rw [counts_update]
    exact word_enter hcard h.inFlight (by simp [hp, LgNotifyAt.counts])
  case h_3 hp =>
    rw [List.append_nil]
    exact h.gate hp
  case h_4 hp =>
    rw [List.append_nil]
    refine h.moveOn ?_ (fun _ => .inl (by rw [hp]; rfl)) ?_ s.count s.items s.lock s.dropped
    · rw [hp]
      split <;> rfl
    · intro it hit
      split at hit <;> contradiction
  case h_5 hp =>
    split
    · simpa using h
    · rw [List.append_nil]
      exact h.moveOn (by rw [hp]; rfl) (fun _ => .inl (by rw [hp]; rfl)) (by simp) s.count s.items
        true s.dropped
  case h_6 hp =>
    rw [List.append_nil]
    exact h.place hp
  case h_7 it hp =>
    have href := h.hold.writing t it hp
    exact (h.touchQueue href).moveOn (by rw [hp]; rfl) (fun _ => .inl (by rw [hp]; rfl)) (by simp)
      (s.count + 1) s.items s.lock s.dropped
  case h_8 queued hp =>
    rw [List.append_nil]
    exact h.moveOn (by rw [hp]; rfl) (fun _ => .inl (by rw [hp]; rfl)) (by simp) s.count s.items
      false s.dropped
  case h_9 hp =>
    rw [List.append_nil]
    exact h.moveOn (by rw [hp]; rfl) (by simp [LgNotifyAt.uses]) (by simp) s.count (s.items + 1)
      s.lock s.dropped
  case h_10 hp =>
    rw [List.append_nil]
    exact h.moveOn (by rw [hp]; rfl) (by simp [LgNotifyAt.uses]) (by simp) s.count s.items s.lock
      (s.dropped + 1)
  case h_11 hp =>
    rw [List.append_nil]
    refine h.moveTo ?_ (by simp [LgNotifyAt.uses]) (by simp) s.count s.items s.lock s.dropped
    rw [counts_update]
    exact word_leave h.inFlight (by simp [hp, LgNotifyAt.counts])

theorem LgLifeInv.call (h : LgLifeInv boot s out) (t : ι) :
    LgLifeInv boot (if s.registered ∧ s.notify t = .idle then s.at_ t .called else s) out := by
  split
  case isTrue hc =>
    exact h.moveOn (by rw [hc.2]; rfl) (by simp [LgNotifyAt.uses]) (by simp) s.count s.items s.lock
      s.dropped
  case isFalse => exact h

/-! ### Runs -/

theorem LgLifeInv.step (hcard : Fintype.card ι < 2 ^ 32) (h : LgLifeInv boot s out) (a : LgMove ι) :
    LgLifeInv boot (lgLifeStep s a).2 (out ++ (lgLifeStep s a).1) := by
  cases a with
  | call t =>
      simp only [lgLifeStep, List.append_nil]
      exact h.call t
  | notify t => exact h.notify hcard t
  | expire =>
      simp only [lgLifeStep, List.append_nil]
      exact h.expire
  | work hit => exact h.work hit
  | unload => exact h.unload

theorem LgLifeInv.run (hcard : Fintype.card ι < 2 ^ 32) (boot : LgBoot) (acts : List (LgMove ι)) :
    LgLifeInv boot (lgLifeRun (.start boot true) acts).2 (lgLifeRun (.start boot true) acts).1 := by
  induction acts using List.reverseRecOn with
  | nil => exact .start boot
  | append_singleton acts a ih =>
      rw [lgLifeRun_snoc]
      exact ih.step hcard a

end Callbacks

/-- When the unloading has returned, only a queue that was given up is left. -/
theorem LgLifeInv.returned (h : LgLifeInv boot s out) (hu : s.unload = .returned) (b : LgBlock)
    (hb : boot.has b = true) (hq : b ≠ .queue ∨ lgLeaks out = false) :
    out.count (.freed b) = 1 := by
  have horder := h.order
  rw [hu] at horder
  have hptr : (s.mem b).ptr = false := by
    by_cases hin : b ∈ lgFreeOrder
    · exact h.blocks.done b hin (by simp [hu, LgUnloadAt.todo])
    · obtain rfl : b = .item := by
        cases b <;> simp [lgFreeOrder] at hin
        rfl
      exact h.blocks.item (horder.joined (by decide))
  have hdead : (s.mem b).live = false := by
    by_contra hl
    obtain ⟨rfl, hleaks⟩ := h.blocks.lost b (by simpa using hl) hptr
    rcases hq with hq | hq
    · exact hq rfl
    · rw [hleaks] at hq
      contradiction
  have := h.blocks.account b
  rwa [hdead, hb] at this

end Steps

/-- In every interleaving of the callbacks, the timer, the worker and the unloading, no step touches
or frees a block that is freed already.  An access through `NULL` is one to the queue, behind the
message that a callback was still running.  When the unloading has returned, every block was
freed exactly once, the queue apart if that message was there.

`DriverLoadGuardInitialize` goes on without `g_LgThread` when `ObReferenceObjectByHandle` fails.
That call is for a handle it has just got, and the theorem is for a start in which it succeeded:
the unloading waits for the worker only through that reference (`joins_nobody`). -/
theorem load_guard_unload [Fintype ι] [DecidableEq ι] (hcard : Fintype.card ι < 2 ^ 32)
    (boot : LgBoot) (acts : List (LgMove ι)) :
    let (out, s) := lgLifeRun (.start boot true : LgLife ι) acts
    (∀ b, .useAfterFree b ∉ out ∧ .doubleFree b ∉ out) ∧
      (∀ b, .nullAccess b ∈ out → b = .queue ∧ .stillRunning ∈ out) ∧
      (s.unload = .returned → ∀ b, boot.has b = true →
        b ≠ .queue ∨ .stillRunning ∉ out → out.count (.freed b) = 1) := by
  have h := LgLifeInv.run hcard boot acts
  refine ⟨fun b => ⟨h.safe.noUse b, h.safe.noDouble b⟩, fun b hb => ?_, fun hu b hb hq => ?_⟩
  · obtain ⟨hbq, hleaks⟩ := h.safe.noNull b hb
    exact ⟨hbq, lgLeaks_iff.mp hleaks⟩
  · refine h.returned hu b hb (hq.imp_right fun hq => ?_)
    rw [← Bool.not_eq_true]
    exact mt lgLeaks_iff.mp hq

/-- A callback comes late, while the guard is taken down: everything is freed once. -/
def lateCallback : List (LgMove (Fin 2)) :=
  [.call 0, .notify 0, .unload, .unload, .notify 0, .notify 0] ++ List.replicate 4 .unload
    ++ List.replicate 3 (.work false) ++ List.replicate 20 .unload

theorem load_guard_unload_late :
    let (out, _) := lgLifeRun (.start ⟨true, true, true, true, 1, true⟩ true) lateCallback
    .useAfterFree .queue ∉ out ∧ out.count (.freed .queue) = 1 :=
  have h := load_guard_unload (by simp) ⟨true, true, true, true, 1, true⟩ lateCallback
  ⟨(h.1 .queue).1, h.2.2 (by decide) .queue rfl (.inr (by decide))⟩

/-- The worker has taken a path and is in `LgListContains` when the unloading comes, which has no
reference to wait for. -/
def workerInList : List (LgMove (Fin 1)) :=
  .call 0 :: List.replicate 9 (.notify 0) ++ List.replicate 7 (.work true)
    ++ List.replicate 20 .unload ++ [.work true]

/-- Without the reference, the worker searches a list that is freed. -/
theorem joins_nobody :
    .useAfterFree .allow ∈
      (lgLifeRun (.start ⟨true, true, true, true, 0, true⟩ false) workerInList).1 := by
  decide

end KernelGuard
