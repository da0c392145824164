/-
What the sinks of the monitor do with an event of the reader.

Helper processes only ever change the table of helper processes, so an event comes down
to two things: the slots its desktop notifications take, and the one alert it puts into
the engine.  The alert always carries the sequence number the event is about.

The proofs about policies and acknowledgements build on `handle_eq`: which helpers
could be started is a matter of free slots, and nothing else of the monitor depends
on it.  So a field of the monitor can be followed through an event, and through a
whole `drain`, without the table of helpers.
-/
import KernelGuard.Model.Monitor

namespace KernelGuard

/-- What is read is the slot as it is, under the sequence number that was asked for. -/
theorem readSlot_eq_ok {ring : KgSharedRegion} {seq : UInt32} {n : KgNotification}
    (h : readSlot ring seq = .ok n) :
    n = ring.notifications (slotOf seq) ∧ n.sequence = seq := by
  unfold readSlot at h
  simp only at h
  split at h
  · exact absurd h (by simp)
  split at h
  · next hseq =>
      simp only [SlotResult.ok.injEq] at h
      rw [← h]
      exact ⟨rfl, hseq⟩
  · exact absurd h (by simp)

namespace Monitor

variable (mac : List UInt8 → KgMac) (host : Host) (pass : Nat)

/-! ### Starting helpers

A helper that finds no slot is given up, and the monitor goes on.  To the engine the
call was made all the same.
-/

/-- `m'` is `m` with other helper processes. -/
structure SameButChildren (m m' : Monitor) : Prop where
  useNotify : m'.useNotify = m.useNotify
  policy : m'.policy = m.policy
  eng : m'.eng = m.eng
  reader : m'.reader = m.reader

theorem SameButChildren.refl (m : Monitor) : SameButChildren m m := ⟨rfl, rfl, rfl, rfl⟩

theorem SameButChildren.trans {m m' m'' : Monitor} (h : SameButChildren m m')
    (h' : SameButChildren m' m'') : SameButChildren m m'' :=
  ⟨h'.useNotify.trans h.useNotify, h'.policy.trans h.policy, h'.eng.trans h.eng,
    h'.reader.trans h.reader⟩

theorem spawn_same (timeoutS : UInt32) (name : CStr) (m : Monitor) :
    SameButChildren m (m.spawn host pass timeoutS name).2 := by
  unfold spawn
  cases childFreeSlot m.children with
  | none => exact .refl m
  | some slot =>
      cases host.fork m.forks with
      | none => exact ⟨rfl, rfl, rfl, rfl⟩
      | some pid => exact ⟨rfl, rfl, rfl, rfl⟩

theorem runActions_same (pol : KgpPolicy) (runs : List KgpRun) (m : Monitor) :
    SameButChildren m (runActions host pass pol runs m).1 := by
  induction runs generalizing m with
  | nil => exact .refl m
  | cons run runs ih => exact (spawn_same host pass _ _ m).trans (ih _)

/-- Every call of the engine is made, in its order; only the slots are a matter of luck. -/
theorem runActions_runs (pol : KgpPolicy) (runs : List KgpRun) (m : Monitor) :
    (runActions host pass pol runs m).2.map ActionCall.run = runs := by
  induction runs generalizing m with
  | nil => rfl
  | cons run runs ih =>
      simp only [runActions, runAction, List.map_append, ih]
      rfl

theorem emitNotify_same (n : KgNotification) (hmacOk : Bool) (m : Monitor) :
    SameButChildren m (m.emitNotify host pass n hmacOk) := by
  have hone : ∀ (b : Bool) (m : Monitor),
      SameButChildren m (if b then m.notifyDesktop host pass else m) := by
    intro b m
    cases b with
    | true => exact spawn_same host pass _ _ m
    | false => exact .refl m
  exact (hone _ m).trans (hone _ _)

/-! ### One event

`SameButChildren` composes.  The desktop notifications of an event are of that kind,
and so are the actions that its alert makes the engine run.
-/

/-- The table of helpers after the desktop notifications of an event. -/
def noticed (m : Monitor) : DrainEvent → Monitor
  | .emit n hmacOk => m.emitNotify host pass n hmacOk
  | .lost _ _ => m
  | .overwritten _ => m
  | .tamper _ => m

theorem noticed_same (ev : DrainEvent) (m : Monitor) :
    SameButChildren m (m.noticed host pass ev) := by
  cases ev with
  | emit n hmacOk => exact emitNotify_same host pass n hmacOk m
  | lost cursor count => exact .refl m
  | overwritten cursor => exact .refl m
  | tamper cursor => exact .refl m

/-- A pseudo alert, as `policy_pseudo` fills it in. -/
def pseudoAlert (code : UInt32) (level : Int) (seq : UInt32) (details : CStr) : KgpAlert :=
  { KgpAlert.zero with
    code := code, level := level, seq := seq, timeNs := host.realNs pass, details := details }

/-- The alert an event puts into the engine. -/
def alertFor : DrainEvent → KgpAlert
  | .emit n true => alertOf n (formatDetails n)
  | .emit n false =>
      pseudoAlert host pass kgpAlertForged kgpForged n.sequence
        (str "notification " ++ decText n.sequence.toNat ++ str " failed HMAC verification")
  | .lost cursor count =>
      pseudoAlert host pass kgpAlertOverrun kgpCritical cursor
        (decText count.toNat ++ str " notification(s) lost: the ring was lapped")
  | .overwritten cursor =>
      pseudoAlert host pass kgpAlertOverrun kgpCritical cursor
        (str "notification " ++ decText cursor.toNat ++ str " was overwritten before it could be read")
  | .tamper cursor =>
      pseudoAlert host pass kgpAlertTamper kgpForged cursor
        (str "slot for notification " ++ decText cursor.toNat
          ++ str " is unreadable or has a wrong sequence number")

/-- **An event**: its desktop notifications, then its alert. -/
theorem handle_eq (m : Monitor) (ev : DrainEvent) :
    m.handle host pass ev
      = match m.policy with
        | none => (m.noticed host pass ev, [])
        | some pol =>
            (m.noticed host pass ev).kgpAlertRun host pass pol (alertFor host pass ev) := by
  cases ev with
  | emit n hmacOk =>
      have hpolicy := (emitNotify_same host pass n hmacOk m).policy
      show (m.emitNotify host pass n hmacOk).policyFeed host pass n hmacOk (formatDetails n) = _
      unfold policyFeed
      rw [hpolicy]
      cases hpol : m.policy with
      | none => rfl
      | some pol =>
          cases hmacOk with
          | true => rfl
          | false =>
              unfold policyPseudo
              simp only [Bool.not_false, if_true, hpolicy, hpol]
              rfl
  | lost cursor count => rfl
  | overwritten cursor => rfl
  | tamper cursor => rfl

/-- What an event leaves of the monitor, helper processes aside. -/
structure Fed (m : Monitor) (al : KgpAlert) (m' : Monitor) : Prop where
  useNotify : m'.useNotify = m.useNotify
  policy : m'.policy = m.policy
  reader : m'.reader = m.reader
  eng : m'.eng
    = match m.policy with
      | none => m.eng
      | some pol => (kgpAlert pol (host.monoS pass) al m.eng).1

theorem handle_fed (m : Monitor) (ev : DrainEvent) :
    Fed host pass m (alertFor host pass ev) (m.handle host pass ev).1 := by
  have hnoticed := noticed_same host pass ev m
  rw [handle_eq]
  cases hpol : m.policy with
  | none =>
      exact ⟨hnoticed.useNotify, by rw [hnoticed.policy], hnoticed.reader,
        by rw [hpol]; exact hnoticed.eng⟩
  | some pol =>
      have hrun := runActions_same host pass pol
        (kgpAlert pol (host.monoS pass) (alertFor host pass ev) (m.noticed host pass ev).eng).2
        { m.noticed host pass ev with
          eng := (kgpAlert pol (host.monoS pass) (alertFor host pass ev)
            (m.noticed host pass ev).eng).1 }
      refine ⟨hrun.useNotify.trans hnoticed.useNotify, hrun.policy.trans hnoticed.policy,
        hrun.reader.trans hnoticed.reader, ?_⟩
      rw [hpol]
      show (runActions host pass pol _ _).1.eng = _
      rw [hrun.eng, hnoticed.eng]

/-! ### The cursor

The cursor moves one up for each slot, whatever was found in it.  So the passes that
are needed are known beforehand, and the fuel of the model's loop is enough.
-/

/-- An event of the reader at `cursor` is about that sequence number. -/
theorem atSlot_seq {ring : KgSharedRegion} {r : Reader} {ev : DrainEvent}
    (h : ev ∈ (atSlot mac ring r).2) : (alertFor host pass ev).seq = r.cursor := by
  unfold atSlot at h
  cases hslot : readSlot ring r.cursor with
  | ok n =>
      have hseq := (readSlot_eq_ok hslot).2
      rw [hslot] at h
      simp only [Reader.accept, List.mem_singleton] at h
      rw [h]
      cases decide (mac n.authBytes = n.hmac) with
      | true => exact hseq
      | false => exact hseq
  | retry | bad =>
      rw [hslot] at h
      simp only [Reader.reject, List.mem_singleton] at h
      rw [h]
      split
      · rfl
      · rfl

/-- One pass moves the cursor one up. -/
theorem atSlot_cursor (ring : KgSharedRegion) (r : Reader) :
    (atSlot mac ring r).1.cursor = r.cursor + 1 := by
  unfold atSlot
  cases readSlot ring r.cursor with
  | ok n => rfl
  | retry => rfl
  | bad => rfl

theorem handleAll_reader (evs : List DrainEvent) (m : Monitor) :
    (handleAll host pass evs m).1.reader = m.reader := by
  induction evs generalizing m with
  | nil => rfl
  | cons ev evs ih =>
      simp only [handleAll, ih]
      exact (handle_fed host pass m ev).reader

/-- With as many passes as there are slots, `drain` comes to the end of the ring or is stopped. -/
theorem drainLoop_done (ring : KgSharedRegion) (w : UInt32) (fuel : Nat) (pass : Nat) (m : Monitor)
    (hfuel : (w - m.reader.cursor).toNat = fuel) :
    (drainLoop mac host ring w fuel pass m).1.reader.more w = false := by
  induction fuel generalizing pass m with
  | zero =>
      have hcursor : m.reader.cursor = w := by
        have hzero : w - m.reader.cursor = 0 := UInt32.toNat_inj.mp hfuel
        have := congrArg (· + m.reader.cursor) hzero
        simp only [UInt32.sub_add_cancel, UInt32.zero_add] at this
        exact this.symm
      simp [drainLoop, Reader.more, hcursor]
  | succ fuel ih =>
      unfold drainLoop
      by_cases hmore : m.reader.more w = true
      · rw [if_pos hmore]
        refine ih _ _ ?_
        rw [handleAll_reader]
        show (w - (atSlot mac ring m.reader).1.cursor).toNat = fuel
        rw [atSlot_cursor]
        have hsub : w - (m.reader.cursor + 1) = w - m.reader.cursor - 1 := by grind
        rw [hsub, UInt32.toNat_sub_of_le _ _ (by rw [UInt32.le_iff_toNat_le, hfuel]; simp), hfuel]
        rfl
      · rw [if_neg hmore]
        exact Bool.not_eq_true _ ▸ hmore

end Monitor

end KernelGuard
