/-
The queue of the driver-load guard over all interleavings.

The number of queued paths and the semaphore are changed at different times by different threads, so
they are not equal.  What is between them is owed: a callback that has queued its path has
not released the semaphore yet, and the worker that was woken has not taken a path out
yet.  `Owes` has the callbacks of the first kind in a list; with it the count is the semaphore,
the length of this list and the worker's one (`LgInv.owed`), and everything about the semaphore
follows.

Paths are accounted for by the callback that brought them: the events of the run name those whose
paths were queued, in order, and what was processed and what still waits are these paths, one
after the other (`LgInv.fifo`).
-/
import KernelGuard.Model.LoadGuard
import KernelGuard.Lib.Run
import Mathlib.Data.List.Nodup

namespace KernelGuard

/-! ### What a run shows

The three lists are read off the events.  Each step adds at most one element to one
of them, at the end, so a step lemma says which list grows, and the other two are as
before.
-/

/-- The steps of an interleaving, one after the other. -/
def lgRun (s : LgState) (acts : List LgStep) : List LgEvent × LgState :=
  Run.loop (fun a s => lgStep s a) acts s

theorem lgRun_snoc (s : LgState) (acts : List LgStep) (a : LgStep) :
    lgRun s (acts ++ [a]) =
      ((lgRun s acts).1 ++ (lgStep (lgRun s acts).2 a).1, (lgStep (lgRun s acts).2 a).2) := by
  unfold lgRun Run.loop
  rw [Run.outputs_snoc, Run.exec_snoc]

/-- The callbacks whose paths were queued, in order, with these paths. -/
def queuedBy (out : List LgEvent) : List (Nat × LgItem) :=
  out.filterMap fun
    | .queued id item => some (id, item)
    | _ => none

/-- The paths that were processed, in order. -/
def processedItems (out : List LgEvent) : List LgItem :=
  out.filterMap fun
    | .processed item => some item
    | _ => none

/-- The callbacks that counted their paths as dropped. -/
def countedBy (out : List LgEvent) : List Nat :=
  out.filterMap fun
    | .counted id => some id
    | _ => none

section

variable (out : List LgEvent) (e : LgEvent)

theorem queuedBy_snoc : queuedBy (out ++ [e]) = queuedBy out ++ queuedBy [e] :=
  List.filterMap_append ..

theorem processedItems_snoc :
    processedItems (out ++ [e]) = processedItems out ++ processedItems [e] :=
  List.filterMap_append ..

theorem countedBy_snoc : countedBy (out ++ [e]) = countedBy out ++ countedBy [e] :=
  List.filterMap_append ..

variable {e}

-- Most events show nothing of a kind.
theorem queuedBy_skip (h : queuedBy [e] = []) : queuedBy (out ++ [e]) = queuedBy out := by
  rw [queuedBy_snoc, h, List.append_nil]

theorem processedItems_skip (h : processedItems [e] = []) :
    processedItems (out ++ [e]) = processedItems out := by
  rw [processedItems_snoc, h, List.append_nil]

theorem countedBy_skip (h : countedBy [e] = []) : countedBy (out ++ [e]) = countedBy out := by
  rw [countedBy_snoc, h, List.append_nil]

end

/-! ### The invariant

`Owes` carries a list and not only its length, because a release must be paid by a
callback that owes it; the list has no repetitions, so paying makes it shorter by
one.
-/

/-- The callbacks in `pend` are those that still have to release the semaphore. -/
structure Owes (phase : Nat → LgPhase) (pend : List Nat) : Prop where
  nodup : pend.Nodup
  mem : ∀ id, id ∈ pend ↔ phase id = .queued

theorem Owes.start : Owes (fun _ => .idle) [] := ⟨List.nodup_nil, by simp⟩

/-- A callback that owes nothing and goes on to owe nothing. -/
theorem Owes.other {phase : Nat → LgPhase} {pend : List Nat} (h : Owes phase pend) {id : Nat}
    {p : LgPhase} (hid : phase id ≠ .queued) (hp : p ≠ .queued) :
    Owes (Function.update phase id p) pend := by
  refine ⟨h.nodup, fun j => ?_⟩
  by_cases hj : j = id
  · rw [hj, Function.update_self, h.mem]
    exact iff_of_false hid hp
  · rw [Function.update_of_ne hj, h.mem]

theorem Owes.add {phase : Nat → LgPhase} {pend : List Nat} (h : Owes phase pend) {id : Nat}
    (hid : phase id ≠ .queued) : Owes (Function.update phase id .queued) (id :: pend) := by
  refine ⟨List.nodup_cons.mpr ⟨fun hin => hid ((h.mem id).mp hin), h.nodup⟩, fun j => ?_⟩
  by_cases hj : j = id
  · rw [hj, Function.update_self]
    exact iff_of_true List.mem_cons_self rfl
  · rw [Function.update_of_ne hj, List.mem_cons, h.mem]
    exact ⟨fun hor => hor.resolve_left hj, Or.inr⟩

theorem Owes.pay {phase : Nat → LgPhase} {pend : List Nat} (h : Owes phase pend) (id : Nat) :
    Owes (Function.update phase id .done) (pend.erase id) := by
  refine ⟨h.nodup.erase id, fun j => ?_⟩
  rw [h.nodup.mem_erase_iff]
  by_cases hj : j = id
  · rw [hj, Function.update_self]
    exact iff_of_false (fun hand => hand.1 rfl) (by simp)
  · rw [Function.update_of_ne hj, h.mem]
    exact ⟨And.right, fun hq => ⟨hj, hq⟩⟩

/-- The worker that was woken has one path to take out. -/
def LgWorkerAt.owes : LgWorkerAt → Nat
  | .waiting => 0
  | .woken => 1

/-- Who brought what, and where these callbacks are. -/
structure LgAccounts (phase : Nat → LgPhase) (dropped : UInt32) (out : List LgEvent) : Prop where
  queuedOnce : ((queuedBy out).map Prod.fst).Nodup
  countedOnce : (countedBy out).Nodup
  apart : ∀ id ∈ (queuedBy out).map Prod.fst, id ∉ countedBy out
  queuedAt : ∀ id ∈ (queuedBy out).map Prod.fst, phase id = .queued ∨ phase id = .done
  countedAt : ∀ id ∈ countedBy out, phase id = .done
  fullAt : ∀ id, .full id ∈ out → phase id = .full ∨ id ∈ countedBy out
  dropped : dropped = UInt32.ofNat (countedBy out).length

/-- What holds after every step, of the state and of what was seen so far. -/
structure LgInv (s : LgState) (out : List LgEvent) : Prop where
  tail : s.tail = (s.head + s.count) % lgQueueSize
  room : s.count ≤ lgQueueSize
  owed : ∃ pend, Owes s.phase pend ∧ s.count = s.items + pend.length + s.worker.owes
  fifo : processedItems out ++ Ring.queue s.queue s.head s.count = (queuedBy out).map Prod.snd
  inLimit : .limitExceeded ∉ out
  found : .nothingFound ∉ out
  accounts : LgAccounts s.phase s.dropped out

theorem LgInv.start (queue : Fin lgQueueSize → LgItem) : LgInv (.start queue) [] where
  tail := rfl
  room := Nat.zero_le _
  owed := ⟨[], Owes.start, rfl⟩
  fifo := rfl
  inLimit := List.not_mem_nil
  found := List.not_mem_nil
  accounts := ⟨List.nodup_nil, List.nodup_nil, nofun, nofun, nofun, nofun, rfl⟩

/-! ### Accounts

A callback leaves a trace in one of the lists at one place of its program.  What is
known of a callback at a place is thus whether it has left a trace already, and
which.
-/

section

variable {phase : Nat → LgPhase} {dropped : UInt32} {out : List LgEvent} {id : Nat}

/-- A callback that has not been called has left no trace. -/
theorem LgAccounts.unseen (h : LgAccounts phase dropped out) (hid : phase id = .idle) :
    id ∉ (queuedBy out).map Prod.fst ∧ id ∉ countedBy out ∧ .full id ∉ out := by
  have hcounted : id ∉ countedBy out := fun hin =>
    absurd ((h.countedAt id hin).symm.trans hid) (by decide)
  refine ⟨fun hin => ?_, hcounted, fun hin => ?_⟩
  · rcases h.queuedAt id hin with hq | hd
    · exact absurd (hq.symm.trans hid) (by decide)
    · exact absurd (hd.symm.trans hid) (by decide)
  · rcases h.fullAt id hin with hf | hc
    · exact absurd (hf.symm.trans hid) (by decide)
    · exact hcounted hc

/-- A callback that has left no trace goes on. -/
theorem LgAccounts.move (h : LgAccounts phase dropped out) (hid : phase id = .idle) (p : LgPhase) :
    LgAccounts (Function.update phase id p) dropped out := by
  obtain ⟨hq, hc, hf⟩ := h.unseen hid
  exact { h with
    queuedAt := fun j hj => by
      have hne : j ≠ id := fun heq => hq (heq ▸ hj)
      rw [Function.update_of_ne hne]
      exact h.queuedAt j hj
    countedAt := fun j hj => by
      have hne : j ≠ id := fun heq => hc (heq ▸ hj)
      rw [Function.update_of_ne hne]
      exact h.countedAt j hj
    fullAt := fun j hj => by
      have hne : j ≠ id := fun heq => hf (heq ▸ hj)
      rw [Function.update_of_ne hne]
      exact h.fullAt j hj }

theorem LgAccounts.queued (h : LgAccounts phase dropped out) (hid : phase id = .idle)
    (item : LgItem) :
    LgAccounts (Function.update phase id .queued) dropped (out ++ [.queued id item]) := by
  obtain ⟨hq, hc, -⟩ := h.unseen hid
  have hmoved := h.move hid .queued
  have hids : (queuedBy (out ++ [.queued id item])).map Prod.fst
      = (queuedBy out).map Prod.fst ++ [id] := by
    rw [queuedBy_snoc, List.map_append]
    rfl
  have hcounted : countedBy (out ++ [.queued id item]) = countedBy out := countedBy_skip out rfl
  have hcases : ∀ j ∈ (queuedBy out).map Prod.fst ++ [id], j ∈ (queuedBy out).map Prod.fst ∨ j = id :=
    fun j hj => (List.mem_append.mp hj).imp_right List.mem_singleton.mp
  refine ⟨?_, ?_, ?_, ?_, ?_, ?_, ?_⟩
  · rw [hids, ← List.concat_eq_append]
    exact List.Nodup.concat hq h.queuedOnce
  · rw [hcounted]
    exact h.countedOnce
  · rw [hids, hcounted]
    intro j hj
    rcases hcases j hj with hold | rfl
    · exact h.apart j hold
    · exact hc
  · rw [hids]
    intro j hj
    rcases hcases j hj with hold | rfl
    · exact hmoved.queuedAt j hold
    · exact Or.inl (Function.update_self _ _ _)
  · rw [hcounted]
    exact hmoved.countedAt
  · rw [hcounted]
    exact fun j hj => hmoved.fullAt j (by simpa using hj)
  · rw [hcounted]
    exact h.dropped

/-- An event that shows no path and no count; a full queue is seen by a callback that knows. -/
theorem LgAccounts.pass (h : LgAccounts phase dropped out) {e : LgEvent} (hq : queuedBy [e] = [])
    (hc : countedBy [e] = []) (hf : ∀ id, e = .full id → phase id = .full) :
    LgAccounts phase dropped (out ++ [e]) := by
  have hqueued := queuedBy_skip out hq
  have hcounted := countedBy_skip out hc
  refine ⟨?_, ?_, ?_, ?_, ?_, ?_, ?_⟩
  · rw [hqueued]
    exact h.queuedOnce
  · rw [hcounted]
    exact h.countedOnce
  · rw [hqueued, hcounted]
    exact h.apart
  · rw [hqueued]
    exact h.queuedAt
  · rw [hcounted]
    exact h.countedAt
  · rw [hcounted]
    intro j hj
    rcases List.mem_append.mp hj with hold | hnew
    · exact h.fullAt j hold
    · exact Or.inl (hf j (List.mem_singleton.mp hnew).symm)
  · rw [hcounted]
    exact h.dropped

theorem LgAccounts.full (h : LgAccounts phase dropped out) (hid : phase id = .idle) :
    LgAccounts (Function.update phase id .full) dropped (out ++ [.full id]) := by
  refine (h.move hid .full).pass rfl rfl fun j hj => ?_
  rw [← LgEvent.full.inj hj]
  exact Function.update_self _ _ _

/-- The semaphore is released. -/
theorem LgAccounts.released (h : LgAccounts phase dropped out) (hid : phase id = .queued) :
    LgAccounts (Function.update phase id .done) dropped out := by
  exact { h with
    queuedAt := fun j hj => by
      by_cases heq : j = id
      · exact Or.inr (by rw [heq]; exact Function.update_self _ _ _)
      · rw [Function.update_of_ne heq]
        exact h.queuedAt j hj
    countedAt := fun j hj => by
      by_cases heq : j = id
      · rw [heq]
        exact Function.update_self _ _ _
      · rw [Function.update_of_ne heq]
        exact h.countedAt j hj
    fullAt := fun j hj => by
      rcases h.fullAt j hj with hf | hc
      · left
        have hne : j ≠ id := fun heq => by
          rw [heq, hid] at hf
          exact absurd hf (by decide)
        rw [Function.update_of_ne hne]
        exact hf
      · exact Or.inr hc }

theorem LgAccounts.counted (h : LgAccounts phase dropped out) (hid : phase id = .full) :
    LgAccounts (Function.update phase id .done) (dropped + 1) (out ++ [.counted id]) := by
  have hqueued : queuedBy (out ++ [.counted id]) = queuedBy out := queuedBy_skip out rfl
  have hcounted : countedBy (out ++ [.counted id]) = countedBy out ++ [id] := countedBy_snoc ..
  have hq : id ∉ (queuedBy out).map Prod.fst := fun hin => by
    rcases h.queuedAt id hin with hp | hp
    · exact absurd (hp.symm.trans hid) (by decide)
    · exact absurd (hp.symm.trans hid) (by decide)
  have hc : id ∉ countedBy out := fun hin =>
    absurd ((h.countedAt id hin).symm.trans hid) (by decide)
  refine ⟨?_, ?_, ?_, ?_, ?_, ?_, ?_⟩
  · rw [hqueued]
    exact h.queuedOnce
  · rw [hcounted, ← List.concat_eq_append]
    exact List.Nodup.concat hc h.countedOnce
  · rw [hqueued, hcounted]
    intro j hj hin
    rcases List.mem_append.mp hin with hold | hnew
    · exact h.apart j hj hold
    · exact hq (List.mem_singleton.mp hnew ▸ hj)
  · rw [hqueued]
    intro j hj
    have hne : j ≠ id := fun heq => hq (heq ▸ hj)
    rw [Function.update_of_ne hne]
    exact h.queuedAt j hj
  · rw [hcounted]
    intro j hj
    by_cases heq : j = id
    · rw [heq]
      exact Function.update_self _ _ _
    · rw [Function.update_of_ne heq]
      exact h.countedAt j ((List.mem_append.mp hj).resolve_right fun hin =>
        heq (List.mem_singleton.mp hin))
  · rw [hcounted]
    intro j hj
    by_cases heq : j = id
    · exact Or.inr (List.mem_append_right _ (List.mem_singleton.mpr heq))
    · rw [Function.update_of_ne heq]
      exact (h.fullAt j (by simpa using hj)).imp_right (List.mem_append_left _)
  · rw [hcounted, h.dropped, Ring.serial_succ, List.length_append, List.length_singleton]

end

/-! ### One step

The bound on the queue gives the bound on the semaphore: the limit of the semaphore
is the size of the queue, and what is still owed comes on top of it within the
count.
-/

section

variable {s : LgState} {out : List LgEvent} {id : Nat}

theorem LgInv.enqueue (h : LgInv s out) (hid : s.phase id = .idle) (item : LgItem) :
    LgInv (lgEnqueue s id item).2 (out ++ (lgEnqueue s id item).1) := by
  obtain ⟨pend, hpend, hcount⟩ := h.owed
  have hidle : s.phase id ≠ .queued := by
    rw [hid]
    decide
  unfold lgEnqueue
  by_cases hroom : s.count < lgQueueSize
  · rw [if_pos hroom]
    have hprocessed : processedItems (out ++ [.queued id item]) = processedItems out :=
      processedItems_skip out rfl
    refine ⟨?_, hroom, ⟨id :: pend, hpend.add hidle, ?_⟩, ?_, by simpa using h.inLimit,
      by simpa using h.found, h.accounts.queued hid item⟩
    · show (s.tail + 1) % lgQueueSize = (s.head + (s.count + 1)) % lgQueueSize
      rw [h.tail, Nat.mod_add_mod, Nat.add_assoc]
    · show s.count + 1 = s.items + (id :: pend).length + s.worker.owes
      rw [hcount, List.length_cons]
      omega
    · show _ ++ Ring.queue (Function.update s.queue (Ring.cell lgQueueSize s.tail) item) s.head
        (s.count + 1) = _
      rw [hprocessed, queuedBy_snoc, List.map_append, ← h.fifo, h.tail, Ring.cell_mod,
        Ring.queue_push hroom, List.append_assoc]
      rfl
  · rw [if_neg hroom]
    refine ⟨h.tail, h.room, ⟨pend, hpend.other hidle (by decide), hcount⟩, ?_,
      by simpa using h.inLimit, by simpa using h.found, h.accounts.full hid⟩
    rw [processedItems_skip out rfl, queuedBy_skip out rfl]
    exact h.fifo

theorem LgInv.notify (h : LgInv s out) (hid : s.phase id = .idle) (img : LgImage) :
    LgInv (lgImageNotify s id img).2 (out ++ (lgImageNotify s id img).1) := by
  unfold lgImageNotify
  cases lgWanted img with
  | none =>
      obtain ⟨pend, hpend, hcount⟩ := h.owed
      rw [List.append_nil]
      exact { h with
        owed := ⟨pend, hpend.other (by rw [hid]; decide) (by decide), hcount⟩
        accounts := h.accounts.move hid .done }
  | some name => exact h.enqueue hid (lgItem name)

/-- A callback that owes a release is in the count, so there is room below the limit. -/
theorem LgInv.release (h : LgInv s out) (hid : s.phase id = .queued) :
    LgInv (lgRelease s id).2 (out ++ (lgRelease s id).1) := by
  obtain ⟨pend, hpend, hcount⟩ := h.owed
  have hin : id ∈ pend := (hpend.mem id).mpr hid
  have hpos : 0 < pend.length := List.length_pos_of_mem hin
  have hroom := h.room
  have hitems : s.items < lgQueueSize := by omega
  unfold lgRelease
  rw [if_pos hitems, List.append_nil]
  exact { h with
    owed := ⟨pend.erase id, hpend.pay id, by
      show s.count = s.items + 1 + (pend.erase id).length + s.worker.owes
      rw [List.length_erase_of_mem hin]
      omega⟩
    accounts := h.accounts.released hid }

theorem LgInv.countDropped (h : LgInv s out) (hid : s.phase id = .full) :
    LgInv { s.setPhase id .done with dropped := s.dropped + 1 } (out ++ [.counted id]) := by
  obtain ⟨pend, hpend, hcount⟩ := h.owed
  refine ⟨h.tail, h.room, ⟨pend, hpend.other (by rw [hid]; decide) (by decide), hcount⟩, ?_,
    by simpa using h.inLimit, by simpa using h.found, h.accounts.counted hid⟩
  rw [processedItems_skip out rfl, queuedBy_skip out rfl]
  exact h.fifo

/-- The worker that was woken owes one, so there is a path to take out. -/
theorem LgInv.dequeue (h : LgInv s out) (hw : s.worker = .woken) :
    LgInv (lgDequeue s).2 (out ++ (lgDequeue s).1) := by
  obtain ⟨pend, hpend, hcount⟩ := h.owed
  rw [hw] at hcount
  have hsome : s.count ≠ 0 := by
    rw [hcount]
    exact Nat.succ_ne_zero _
  obtain ⟨n, hn⟩ : ∃ n, s.count = n + 1 := ⟨s.count - 1, by omega⟩
  have hroom := h.room
  unfold lgDequeue
  rw [if_pos hsome]
  refine ⟨?_, ?_, ⟨pend, hpend, ?_⟩, ?_, by simpa using h.inLimit, by simpa using h.found,
    h.accounts.pass rfl rfl nofun⟩
  · show s.tail = ((s.head + 1) % lgQueueSize + (s.count - 1)) % lgQueueSize
    rw [h.tail, Nat.mod_add_mod, hn, Nat.add_sub_cancel, Nat.add_assoc, Nat.add_comm 1 n]
  · show s.count - 1 ≤ lgQueueSize
    omega
  · show s.count - 1 = s.items + pend.length + 0
    rw [hcount]
    rfl
  · have hfifo := h.fifo
    rw [hn, Ring.queue_pop] at hfifo
    show processedItems (out ++ [_]) ++ Ring.queue s.queue ((s.head + 1) % lgQueueSize) (s.count - 1)
      = (queuedBy (out ++ [_])).map Prod.snd
    rw [processedItems_snoc, queuedBy_skip out rfl, Ring.queue_mod, hn, Nat.add_sub_cancel]
    show (processedItems out ++ [_]) ++ _ = (queuedBy out).map Prod.snd
    rw [List.append_assoc, List.singleton_append, hfifo]

theorem LgInv.step (h : LgInv s out) (a : LgStep) :
    LgInv (lgStep s a).2 (out ++ (lgStep s a).1) := by
  have hstay : LgInv s (out ++ []) := by
    rw [List.append_nil]
    exact h
  cases a with
  | notify id img =>
      rw [lgStep]
      split
      · next hid => exact h.notify hid img
      · exact hstay
  | release id =>
      rw [lgStep]
      split
      · next hid => exact h.release hid
      · exact hstay
  | countDropped id =>
      rw [lgStep]
      split
      · next hid => exact h.countDropped hid
      · exact hstay
  | wake =>
      rw [lgStep]
      split
      · next hw =>
          obtain ⟨pend, hpend, hcount⟩ := h.owed
          rw [hw.1] at hcount
          refine { hstay with owed := ⟨pend, hpend, ?_⟩ }
          show s.count = s.items - 1 + pend.length + 1
          have hzero : LgWorkerAt.waiting.owes = 0 := rfl
          omega
      · exact hstay
  | baseline => exact hstay
  | dequeue =>
      rw [lgStep]
      split
      · next hw => exact h.dequeue hw
      · exact hstay

end

/-- Every interleaving keeps the invariant. -/
theorem LgInv.run (queue : Fin lgQueueSize → LgItem) (acts : List LgStep) :
    LgInv (lgRun (.start queue) acts).2 (lgRun (.start queue) acts).1 := by
  induction acts using List.reverseRecOn with
  | nil => exact LgInv.start queue
  | append_singleton acts a ih =>
      rw [lgRun_snoc]
      exact ih.step a

/-! ### What becomes of a path

Fates are read off the invariant at the end of a run.  That nothing becomes of a path
twice is that a callback occurs once in the list of those that queued, and that it
went one way at its test.
-/

/-- Processed as the `i`-th path, in the queue behind `i` others, or dropped; between a full queue
and the counter, it is about to be. -/
inductive LgFate where
  | processed (i : Nat)
  | waiting (i : Nat)
  | dropped
  | dropping

/-- What has become of the path that the callback `id` brought. -/
def HasFate (s : LgState) (out : List LgEvent) (id : Nat) (item : LgItem) : LgFate → Prop
  | .processed i =>
      (queuedBy out)[i]? = some (id, item) ∧ (processedItems out)[i]? = some item
  | .waiting i =>
      (queuedBy out)[(processedItems out).length + i]? = some (id, item) ∧
        (Ring.queue s.queue s.head s.count)[i]? = some item
  | .dropped => id ∈ countedBy out
  | .dropping => s.phase id = .full

section

variable {s : LgState} {out : List LgEvent} {id : Nat} {item : LgItem}

/-- A callback whose path was queued stands once among those. -/
theorem LgAccounts.index_unique {phase : Nat → LgPhase} {dropped : UInt32}
    (h : LgAccounts phase dropped out) {i j : Nat} (hi : (queuedBy out)[i]? = some (id, item))
    (hj : (queuedBy out)[j]? = some (id, item)) : i = j := by
  have hfst : ∀ {k}, (queuedBy out)[k]? = some (id, item) →
      ((queuedBy out).map Prod.fst)[k]? = some id := fun hk => by
    rw [List.getElem?_map, hk]
    rfl
  obtain ⟨hil, hi'⟩ := List.getElem?_eq_some_iff.mp (hfst hi)
  obtain ⟨hjl, hj'⟩ := List.getElem?_eq_some_iff.mp (hfst hj)
  exact (List.Nodup.getElem_inj_iff h.queuedOnce).mp (hi'.trans hj'.symm)

theorem LgInv.fate_of_queued (h : LgInv s out) (hin : .queued id item ∈ out) :
    ∃ fate, HasFate s out id item fate := by
  have hmem : (id, item) ∈ queuedBy out := List.mem_filterMap.mpr ⟨_, hin, rfl⟩
  obtain ⟨i, hi⟩ := List.getElem?_of_mem hmem
  have hitem : (processedItems out ++ Ring.queue s.queue s.head s.count)[i]? = some item := by
    rw [h.fifo, List.getElem?_map, hi]
    rfl
  by_cases hlt : i < (processedItems out).length
  · rw [List.getElem?_append_left hlt] at hitem
    exact ⟨.processed i, hi, hitem⟩
  · obtain ⟨j, rfl⟩ : ∃ j, i = (processedItems out).length + j :=
      ⟨i - (processedItems out).length, by omega⟩
    rw [List.getElem?_append_right (Nat.le_add_right _ _), Nat.add_sub_cancel_left] at hitem
    exact ⟨.waiting j, hi, hitem⟩

theorem LgInv.fate_of_full (h : LgInv s out) (hin : .full id ∈ out) :
    ∃ fate, HasFate s out id item fate := by
  rcases h.accounts.fullAt id hin with hfull | hcounted
  · exact ⟨.dropping, hfull⟩
  · exact ⟨.dropped, hcounted⟩

theorem HasFate.mem_queued {i : Nat} (h : (queuedBy out)[i]? = some (id, item)) :
    id ∈ (queuedBy out).map Prod.fst :=
  List.mem_map.mpr ⟨_, List.mem_of_getElem? h, rfl⟩

/-- Nothing becomes of a path twice. -/
theorem LgInv.fate_unique (h : LgInv s out) {f g : LgFate} (hf : HasFate s out id item f)
    (hg : HasFate s out id item g) : f = g := by
  have hapart : ∀ {i}, (queuedBy out)[i]? = some (id, item) → id ∉ countedBy out := fun hi =>
    h.accounts.apart id (HasFate.mem_queued hi)
  have hnotFull : ∀ {i}, (queuedBy out)[i]? = some (id, item) → s.phase id ≠ .full := fun hi hp => by
    rcases h.accounts.queuedAt id (HasFate.mem_queued hi) with hq | hd
    · exact absurd (hq.symm.trans hp) (by decide)
    · exact absurd (hd.symm.trans hp) (by decide)
  have hlt : ∀ {i}, (processedItems out)[i]? = some item → i < (processedItems out).length :=
    fun hi => (List.getElem?_eq_some_iff.mp hi).1
  cases f with
  | processed i =>
      cases g with
      | processed j => rw [h.accounts.index_unique hf.1 hg.1]
      | waiting j =>
          have hsame := h.accounts.index_unique hf.1 hg.1
          have := hlt hf.2
          omega
      | dropped => exact absurd hg (hapart hf.1)
      | dropping => exact absurd hg (hnotFull hf.1)
  | waiting i =>
      cases g with
      | processed j =>
          have hsame := h.accounts.index_unique hf.1 hg.1
          have := hlt hg.2
          omega
      | waiting j =>
          have hsame := h.accounts.index_unique hf.1 hg.1
          rw [Nat.add_left_cancel hsame]
      | dropped => exact absurd hg (hapart hf.1)
      | dropping => exact absurd hg (hnotFull hf.1)
  | dropped =>
      cases g with
      | processed j => exact absurd hf (hapart hg.1)
      | waiting j => exact absurd hf (hapart hg.1)
      | dropped => rfl
      | dropping => exact absurd ((h.accounts.countedAt id hf).symm.trans hg) (by decide)
  | dropping =>
      cases g with
      | processed j => exact absurd hf (hnotFull hg.1)
      | waiting j => exact absurd hf (hnotFull hg.1)
      | dropped => exact absurd ((h.accounts.countedAt id hg).symm.trans hf) (by decide)
      | dropping => rfl

end

/-- A callback with a path to look at queues it or finds the queue full. -/
theorem lgStep_notify {s : LgState} {id : Nat} {img : LgImage} {name : List UInt16}
    (hid : s.phase id = .idle) (hname : lgWanted img = some name) :
    .queued id (lgItem name) ∈ (lgStep s (.notify id img)).1 ∨
      .full id ∈ (lgStep s (.notify id img)).1 := by
  rw [lgStep, if_pos hid, lgImageNotify, hname]
  simp only [lgEnqueue]
  split
  · exact Or.inl List.mem_cons_self
  · exact Or.inr List.mem_cons_self

/--
**The queue of the load guard.**  In every interleaving of callbacks and worker, the semaphore is
at most the number of queued paths, which is at most the size of the queue; releasing it never
passes its limit, and a woken worker finds a path.  Paths are processed in the order they were
queued: those processed and those still in the queue are, one after the other, those that were
queued.  And of every path a callback brought exactly one thing has become: it was
processed, once; it is in the queue; or it was dropped, and `g_LgDropped` has counted it or, as
long as the callback has not returned, is about to.
-/
theorem load_guard_queue (queue : Fin lgQueueSize → LgItem) (acts : List LgStep) :
    let out := (lgRun (.start queue) acts).1
    let s := (lgRun (.start queue) acts).2
    s.items ≤ s.count ∧ s.count ≤ lgQueueSize ∧ .limitExceeded ∉ out ∧ .nothingFound ∉ out ∧
      processedItems out ++ Ring.queue s.queue s.head s.count = (queuedBy out).map Prod.snd ∧
      (∀ pre id img post name, acts = pre ++ .notify id img :: post →
        (lgRun (.start queue) pre).2.phase id = .idle → lgWanted img = some name →
          ∃! fate, HasFate s out id (lgItem name) fate) ∧
      (countedBy out).Nodup ∧ s.dropped = UInt32.ofNat (countedBy out).length := by
  intro out s
  have hinv : LgInv s out := LgInv.run queue acts
  obtain ⟨pend, -, hcount⟩ := hinv.owed
  refine ⟨by omega, hinv.room, hinv.inLimit, hinv.found, hinv.fifo, ?_, hinv.accounts.countedOnce,
    hinv.accounts.dropped⟩
  intro pre id img post name hacts hidle hname
  have hseen : ∀ e ∈ (lgStep (lgRun (.start queue) pre).2 (.notify id img)).1, e ∈ out := fun e he =>
    Run.mem_loop.mpr ⟨pre, _, post, hacts, he⟩
  have hfate : ∃ fate, HasFate s out id (lgItem name) fate := by
    rcases lgStep_notify hidle hname with hqueued | hfull
    · exact hinv.fate_of_queued (hseen _ hqueued)
    · exact hinv.fate_of_full (hseen _ hfull)
  obtain ⟨fate, hf⟩ := hfate
  exact ⟨fate, hf, fun g hg => hinv.fate_unique hg hf⟩

/-- A driver with a name of one character. -/
def shortImage (c : UInt16) : LgImage := ⟨some [c], 0, some true⟩

/-- Two callbacks queue their paths, the second releases the semaphore first, and the worker takes
out the path of the other; then that one releases it, too, and the worker is woken again. -/
def overtaken : List LgStep :=
  [.notify 7 (shortImage 97), .notify 3 (shortImage 98), .release 3, .wake, .dequeue, .release 7,
    .wake]

theorem load_guard_queue_overtaken :
    processedItems (lgRun (.start fun _ => lgItem []) overtaken).1 = [lgItem [97]] ∧
    (∃! fate, HasFate (lgRun (.start fun _ => lgItem []) overtaken).2
      (lgRun (.start fun _ => lgItem []) overtaken).1 7 (lgItem [97]) fate) ∧
    ∃! fate, HasFate (lgRun (.start fun _ => lgItem []) overtaken).2
      (lgRun (.start fun _ => lgItem []) overtaken).1 3 (lgItem [98]) fate := by
  obtain ⟨-, -, -, -, -, hfate, -⟩ := load_guard_queue (fun _ => lgItem []) overtaken
  refine ⟨rfl, ?_, ?_⟩
  · exact hfate [] 7 (shortImage 97) (overtaken.drop 1) [97] rfl rfl rfl
  · exact hfate [.notify 7 (shortImage 97)] 3 (shortImage 98) (overtaken.drop 2) [98] rfl rfl rfl

end KernelGuard
