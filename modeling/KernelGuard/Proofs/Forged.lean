/-
What a notification that fails authentication can do to the monitor.

`policy_feed` lets nothing of it through to the engine but its sequence number, so two
rings that differ only in forged slots put the same alerts into the engine.  The table of
helper processes is another matter: `emit` raises a desktop notification for the level of
a notification before it looks at the HMAC, and that notification takes a slot which a
policy action may be in need of.

So the two runs agree, with everything in them, exactly when desktop notifications are
off or the forged slots are on the same side of `KG_LEVEL_WATCH`.  In the other direction
a table with one slot too few, and a rule whose throttle runs out in the pass where the
two first differ, show the difference.
-/
import KernelGuard.Proofs.Monitor
import KernelGuard.Proofs.Engine
import KernelGuard.Proofs.Accepted
import KernelGuard.Proofs.Comms

namespace KernelGuard

variable (mac : List UInt8 → KgMac)

/-- Two rings that differ only in what an unauthenticated slot says. -/
structure RingsAgree (ring ring' : KgSharedRegion) : Prop where
  writeIndex : ring.writeIndex = ring'.writeIndex
  magic : ∀ j, (ring.notifications j).magic = (ring'.notifications j).magic
  sequence : ∀ j, (ring.notifications j).sequence = (ring'.notifications j).sequence
  /-- A slot is the same in both, or its HMAC fails in both. -/
  content : ∀ j, ring.notifications j = ring'.notifications j ∨
    (mac (ring.notifications j).authBytes ≠ (ring.notifications j).hmac ∧
      mac (ring'.notifications j).authBytes ≠ (ring'.notifications j).hmac)

/-- The level asks for a desktop notification. -/
def Raised (n : KgNotification) : Prop := n.alertLevel ≥ kgLevelWatch

instance (n : KgNotification) : Decidable (Raised n) :=
  inferInstanceAs (Decidable (n.alertLevel ≥ kgLevelWatch))

namespace Monitor

/-! ### Which slots `drain` looks at

The cursors depend on the indices of the ring and on where the reader stands, not on
what is in the slots, so they are the same for both rings and can be computed before
anything is read.
-/

/-- The cursors of the passes `drainLoop` makes. -/
def visits (ring : KgSharedRegion) (w : UInt32) : Nat → Reader → List UInt32
  | 0, _ => []
  | fuel + 1, r => if r.more w then r.cursor :: visits ring w fuel (atSlot mac ring r).1 else []

/-- The sequence numbers `drain` looks up in the ring. -/
def drainVisits (ring : KgSharedRegion) (r : Reader) : List UInt32 :=
  let r := (r.lapCheck ring.writeIndex).1
  visits mac ring ring.writeIndex (ring.writeIndex - r.cursor).toNat r

/-- At `seq` both rings ask for a desktop notification, or none does. -/
def SameSide (ring ring' : KgSharedRegion) (seq : UInt32) : Prop :=
  ∀ n n', readSlot ring seq = .ok n → readSlot ring' seq = .ok n' → (Raised n ↔ Raised n')

/-! ### Two rings, one pass

A slot that differs between the rings fails authentication in both.  The pass then
does the same in both runs up to the desktop notification, which is the only use
that is made of a field of a forged notification before the HMAC is looked at.
-/

section Agree

variable {ring ring' : KgSharedRegion} (agree : RingsAgree mac ring ring')
include agree

/-- What the reader finds at `seq` in the two rings. -/
theorem readSlot_agree (seq : UInt32) :
    (readSlot ring seq = readSlot ring' seq) ∨
      ∃ n n', readSlot ring seq = .ok n ∧ readSlot ring' seq = .ok n' ∧
        n.sequence = seq ∧ n'.sequence = seq ∧
        mac n.authBytes ≠ n.hmac ∧ mac n'.authBytes ≠ n'.hmac := by
  have hmagic := agree.magic (slotOf seq)
  have hseq := agree.sequence (slotOf seq)
  rcases agree.content (slotOf seq) with hsame | ⟨hbad, hbad'⟩
  · left
    unfold readSlot
    rw [hsame]
  · unfold readSlot
    simp only
    rw [← hmagic, ← hseq]
    by_cases hm : (ring.notifications (slotOf seq)).magic ≠ kgNotifyMagic
    · left
      rw [if_pos hm, if_pos hm]
    by_cases hs : (ring.notifications (slotOf seq)).sequence = seq
    · right
      rw [if_neg hm, if_neg hm, if_pos hs, if_pos hs]
      exact ⟨_, _, rfl, rfl, hs, hseq ▸ hs, hbad, hbad'⟩
    · left
      rw [if_neg hm, if_neg hm, if_neg hs, if_neg hs]

/-- The reader moves alike, and tells the sinks the same but for a forged notification. -/
theorem atSlot_agree (r : Reader) :
    atSlot mac ring r = atSlot mac ring' r ∨
      ∃ n n', readSlot ring r.cursor = .ok n ∧ readSlot ring' r.cursor = .ok n' ∧
        n.sequence = n'.sequence ∧ (atSlot mac ring r).1 = (atSlot mac ring' r).1 ∧
        (atSlot mac ring r).2 = [.emit n false] ∧ (atSlot mac ring' r).2 = [.emit n' false] := by
  rcases readSlot_agree mac agree r.cursor with hsame | ⟨n, n', hn, hn', hs, hs', hbad, hbad'⟩
  · left
    unfold atSlot
    rw [hsame, agree.writeIndex]
  · right
    refine ⟨n, n', hn, hn', hs.trans hs'.symm, ?_, ?_, ?_⟩
    · simp only [atSlot, hn, hn']
      rfl
    · simp only [atSlot, hn, Reader.accept, decide_eq_false hbad]
    · simp only [atSlot, hn', Reader.accept, decide_eq_false hbad']

end Agree

/-- A forged notification reaches the sinks with its sequence number and its level's side. -/
theorem emit_forged (host : Host) (pass : Nat) (m : Monitor) {n n' : KgNotification}
    (hseq : n.sequence = n'.sequence) (hside : m.useNotify = true → (Raised n ↔ Raised n')) :
    m.emit host pass n false = m.emit host pass n' false := by
  have hnotify : m.emitNotify host pass n false = m.emitNotify host pass n' false := by
    unfold emitNotify
    cases huse : m.useNotify with
    | false => simp [huse]
    | true =>
        have hlevel : decide (n.alertLevel ≥ kgLevelWatch) = decide (n'.alertLevel ≥ kgLevelWatch) :=
          decide_eq_decide.mpr (hside huse)
        rw [hlevel]
  unfold emit policyFeed
  rw [hnotify]
  simp only [Bool.not_false, if_true, hseq]

/-! ### Rings that do not sway the monitor

A pass is a function of the reader, the engine, the helpers and the host, and the
two runs start it with the same ones.  They end it with the same ones again, and so
the induction over the passes needs no relation between the two states but equality.
-/

theorem handleAll_useNotify (host : Host) (pass : Nat) (evs : List DrainEvent) (m : Monitor) :
    (handleAll host pass evs m).1.useNotify = m.useNotify := by
  induction evs generalizing m with
  | nil => rfl
  | cons ev evs ih =>
      simp only [handleAll, ih]
      exact (handle_fed host pass m ev).useNotify

/-- One pass of `drain`'s loop. -/
def onePass (host : Host) (ring : KgSharedRegion) (pass : Nat) (m : Monitor) :
    Monitor × List ActionCall :=
  handleAll host pass (atSlot mac ring m.reader).2 { m with reader := (atSlot mac ring m.reader).1 }

theorem drainLoop_succ (host : Host) (ring : KgSharedRegion) {w : UInt32} (fuel pass : Nat)
    {m : Monitor} (hmore : m.reader.more w = true) :
    drainLoop mac host ring w (fuel + 1) pass m
      = ((drainLoop mac host ring w fuel (pass + 1) (onePass mac host ring pass m).1).1,
        (onePass mac host ring pass m).2
          ++ (drainLoop mac host ring w fuel (pass + 1) (onePass mac host ring pass m).1).2) := by
  rw [drainLoop, if_pos hmore]
  rfl

theorem onePass_reader (host : Host) (ring : KgSharedRegion) (pass : Nat) (m : Monitor) :
    (onePass mac host ring pass m).1.reader = (atSlot mac ring m.reader).1 :=
  handleAll_reader host pass _ _

theorem onePass_useNotify (host : Host) (ring : KgSharedRegion) (pass : Nat) (m : Monitor) :
    (onePass mac host ring pass m).1.useNotify = m.useNotify :=
  handleAll_useNotify host pass _ { m with reader := (atSlot mac ring m.reader).1 }

section Agree

variable {ring ring' : KgSharedRegion} (agree : RingsAgree mac ring ring')
include agree

theorem onePass_agree (host : Host) (pass : Nat) (m : Monitor)
    (hside : m.useNotify = true → SameSide ring ring' m.reader.cursor) :
    onePass mac host ring pass m = onePass mac host ring' pass m := by
  unfold onePass
  rcases atSlot_agree mac agree m.reader with heq | ⟨n, n', hn, hn', hseq, hreader, hev, hev'⟩
  · rw [heq]
  · rw [hev, hev', hreader]
    simp only [handleAll, handle]
    rw [emit_forged host pass _ hseq]
    intro huse
    exact hside huse n n' hn hn'

theorem drainLoop_agree (host : Host) (w : UInt32) (fuel pass : Nat) (m : Monitor)
    (hside : m.useNotify = true →
      ∀ seq ∈ visits mac ring w fuel m.reader, SameSide ring ring' seq) :
    drainLoop mac host ring w fuel pass m = drainLoop mac host ring' w fuel pass m := by
  induction fuel generalizing pass m with
  | zero => rfl
  | succ fuel ih =>
      by_cases hmore : m.reader.more w = true
      · rw [visits, if_pos hmore] at hside
        have hpass := onePass_agree mac agree host pass m
          (fun huse => hside huse _ List.mem_cons_self)
        rw [drainLoop_succ mac host ring fuel pass hmore,
          drainLoop_succ mac host ring' fuel pass hmore, ← hpass]
        rw [ih (pass + 1) (onePass mac host ring pass m).1]
        intro huse seq hseq
        rw [onePass_useNotify] at huse
        rw [onePass_reader] at hseq
        exact hside huse seq (List.mem_cons_of_mem _ hseq)
      · rw [drainLoop, drainLoop, if_neg hmore, if_neg hmore]

end Agree

/-! ### A monitor that is swayed

For the converse one monitor is enough, and it is built so that nothing but the
difference decides: its only rule matches forged notifications, is throttled until a
minute has passed, and pages.  Before the clock moves, every forged notification
costs at most a slot of the table of helpers.
-/

/-- How many helper processes may still be started. -/
def freeCount (c : Children) : Nat := (Finset.univ.filter fun i => c i = none).card

/-- If `fork` never fails, a helper gets a slot exactly when there is one, and keeps it. -/
theorem spawn_free (host : Host) (hfork : ∀ k, (host.fork k).isSome = true) (pass : Nat)
    (timeoutS : UInt32) (name : CStr) (m : Monitor) :
    (m.spawn host pass timeoutS name).1 = decide (0 < freeCount m.children) ∧
      freeCount (m.spawn host pass timeoutS name).2.children = freeCount m.children - 1 := by
  unfold spawn
  cases hslot : childFreeSlot m.children with
  | none =>
      have hnone : freeCount m.children = 0 := by
        unfold freeCount
        rw [Finset.card_eq_zero, Finset.filter_eq_empty_iff]
        intro i _ hi
        have := List.find?_eq_none.mp hslot i (List.mem_finRange i)
        simp [hi] at this
      simp [hnone]
  | some i =>
      have hfree : m.children i = none := by
        have := List.find?_some hslot
        simpa using this
      have hmem : i ∈ Finset.univ.filter fun j => m.children j = none := by simp [hfree]
      have hpos : 0 < freeCount m.children := Finset.card_pos.mpr ⟨i, hmem⟩
      obtain ⟨pid, hpid⟩ := Option.isSome_iff_exists.mp (hfork m.forks)
      rw [hpid]
      refine ⟨(decide_eq_true hpos).symm, ?_⟩
      unfold freeCount
      rw [← Finset.card_erase_of_mem hmem]
      congr 1
      ext j
      by_cases hj : j = i
      · simp [hj]
      · simp [hj]

/-- A policy file with one rule, which pages when a notification is forged. -/
def pageForgedText : CStr :=
  str "action page /usr/bin/page\n" ++ str "rule forged alert=FORGED level=forged do=page\n"

def pageForgedRule : KgpRule :=
  { KgpRule.zero with
    name := str "forged", codes := [kgpAlertForged], minLevel := kgpForged, throttleS := 60
    doMask := 1, resetS := 3600 }

def pageForged : KgpPolicy where
  actions := [⟨str "page", [str "/usr/bin/page"], 10⟩]
  rules := [pageForgedRule]

theorem pageForged_accepted : kgpParse pageForgedText none = .ok pageForged :=
  kgpParse_of_parsesTo (by decide +kernel)

/-- The rule's incident is open, and its do-actions were last run at time 0. -/
structure PagedAtZero (e : KgpEngine) : Prop where
  isFor : (e 0).isFor 0 kgpAlertForged 0 = true
  acked : (e 0).acked = false
  lastRun : (e 0).lastRunS = 0

theorem PagedAtZero.slot {e : KgpEngine} (h : PagedAtZero e) :
    incidentSlot e 0 kgpAlertForged 0 = (0, false) := by
  have hrange : List.finRange kgpMaxIncidents = 0 :: (List.finRange 63).map Fin.succ :=
    List.finRange_succ
  have hisFor : (e (0 : Fin (63 + 1))).isFor 0 kgpAlertForged 0 = true := h.isFor
  unfold incidentSlot
  simp only [hrange, incidentScan]
  rw [if_pos hisFor]
  rfl

theorem pageForged_silent (now : UInt64) {al : KgpAlert} (e : KgpEngine)
    (h : ruleMatches pageForgedRule al = false) : kgpAlert pageForged now al e = (e, []) := by
  show kgpAlertFrom pageForged now al 0 [pageForgedRule] e = _
  rw [kgpAlertFrom_cons_neg _ _ _ _ _ (by simp [h])]
  rfl

/-- The pseudo alert of a forged notification. -/
structure IsForged (al : KgpAlert) : Prop where
  code : al.code = kgpAlertForged
  level : al.level = kgpForged
  param1 : al.param1 = 0

theorem pageForged_alert (now : UInt64) {al : KgpAlert} (hal : IsForged al) {e : KgpEngine}
    (h : PagedAtZero e) :
    let base := ((e 0).arrive 0 now al false).runBase pageForged pageForgedRule now false
    kgpAlert pageForged now al e = (Function.update e 0 base.1, base.2) := by
  intro base
  have hmatch : ruleMatches pageForgedRule al = true := by
    simp [ruleMatches, pageForgedRule, hal.code, hal.level]
  have hrepeat : base.1.runRepeat pageForged pageForgedRule now = (base.1, []) := by
    simp [KgpIncident.runRepeat, pageForgedRule, KgpRule.zero]
  show kgpAlertFrom pageForged now al 0 [pageForgedRule] e = _
  rw [kgpAlertFrom_cons_pos _ _ _ _ _ hmatch]
  simp only [kgpAlertFrom, List.append_nil, kgpAlertRule, hal.code, hal.param1, h.slot, h.acked,
    Bool.or_self]
  rw [hrepeat, List.append_nil]

/-- At time 0 the rule is throttled. -/
theorem pageForged_throttled {al : KgpAlert} (hal : IsForged al) {e : KgpEngine}
    (h : PagedAtZero e) :
    PagedAtZero (kgpAlert pageForged 0 al e).1 ∧ (kgpAlert pageForged 0 al e).2 = [] := by
  have hbase : ((e 0).arrive 0 0 al false).runBase pageForged pageForgedRule 0 false
      = ((e 0).arrive 0 0 al false, []) := by
    simp [KgpIncident.runBase, KgpIncident.arrive, h.lastRun, pageForgedRule]
  have hself : (kgpAlert pageForged 0 al e).1 0 = (e 0).arrive 0 0 al false := by
    rw [pageForged_alert 0 hal h, hbase]
    exact Function.update_self (0 : Fin kgpMaxIncidents) _ e
  refine ⟨⟨?_, ?_, ?_⟩, ?_⟩
  · rw [hself]
    exact h.isFor
  · rw [hself]
    exact h.acked
  · rw [hself]
    exact h.lastRun
  · rw [pageForged_alert 0 hal h, hbase]

/-- A minute later it pages. -/
theorem pageForged_pages {al : KgpAlert} (hal : IsForged al) {e : KgpEngine}
    (h : PagedAtZero e) : ∃ run, (kgpAlert pageForged 60 al e).2 = [run] := by
  have hactions : maskActions pageForged pageForgedRule.doMask = [0] := by decide
  have hthrottle : (60 : UInt64) - ((e 0).arrive 0 60 al false).lastRunS
      ≥ pageForgedRule.throttleS.toUInt64 := by
    show (60 : UInt64) - (e 0).lastRunS ≥ _
    rw [h.lastRun]
    decide
  rw [pageForged_alert 60 hal h]
  simp only [KgpIncident.runBase, hthrottle, decide_true, Bool.or_true, if_true, runMask, hactions,
    List.map_cons, List.map_nil]
  exact ⟨_, rfl⟩

/-! ### The pass in which the two rings differ

The first slot on different sides is the one to use.  Up to it the two runs are the
same and run nothing; the number of free slots is chosen so that one is left for the page
there if the level raises no desktop notification, and none if it does.
-/

/-- Time stands still until pass `k` and is a minute later from then on; `fork` never fails. -/
def lateHost (k : Nat) : Host where
  monoS := fun pass => if pass < k then 0 else 60
  realNs := fun _ => 0
  fork := fun n => some (n + 1)

/-- A monitor that will page at the first forged notification after time 0. -/
structure Ready (m : Monitor) (free : Nat) : Prop where
  useNotify : m.useNotify = true
  policy : m.policy = some pageForged
  eng : PagedAtZero m.eng
  free : freeCount m.children = free

/-- How many desktop notifications an event raises. -/
def notices : DrainEvent → Nat
  | .emit n hmacOk => (if Raised n then 1 else 0) + (if hmacOk then 0 else 1)
  | .lost _ _ => 0
  | .overwritten _ => 0
  | .tamper _ => 0

theorem notices_le (ev : DrainEvent) : notices ev ≤ 2 := by
  cases ev with
  | emit n hmacOk =>
      show (if Raised n then 1 else 0) + (if hmacOk then 0 else 1) ≤ 2
      split <;> split <;> omega
  | lost cursor count => exact Nat.zero_le _
  | overwritten cursor => exact Nat.zero_le _
  | tamper cursor => exact Nat.zero_le _

theorem notifyDesktop_ready (k pass : Nat) {m : Monitor} {free : Nat} (h : Ready m free) :
    Ready (m.notifyDesktop (lateHost k) pass) (free - 1) := by
  have hsame := spawn_same (lateHost k) pass notifyTimeoutS (str "notify-send") m
  have hfree := (spawn_free (lateHost k) (fun _ => rfl) pass notifyTimeoutS
    (str "notify-send") m).2
  rw [h.free] at hfree
  exact ⟨hsame.useNotify.trans h.useNotify, hsame.policy.trans h.policy, hsame.eng.symm ▸ h.eng,
    hfree⟩

theorem noticed_ready (k pass : Nat) {m : Monitor} {free : Nat} (h : Ready m free)
    (ev : DrainEvent) : Ready (m.noticed (lateHost k) pass ev) (free - notices ev) := by
  cases ev with
  | emit n hmacOk =>
      show Ready (m.emitNotify (lateHost k) pass n hmacOk)
        (free - ((if Raised n then 1 else 0) + (if hmacOk then 0 else 1)))
      have hlevel : Ready (if m.useNotify && decide (n.alertLevel ≥ kgLevelWatch) then
          m.notifyDesktop (lateHost k) pass else m) (free - if Raised n then 1 else 0) := by
        rw [h.useNotify]
        by_cases hr : Raised n
        · rw [if_pos hr, if_pos (by rw [Bool.true_and]; exact decide_eq_true hr)]
          exact notifyDesktop_ready k pass h
        · rw [if_neg hr, if_neg (by rw [Bool.true_and, decide_eq_true_eq]; exact hr)]
          exact h
      rw [Nat.sub_add_eq]
      unfold emitNotify
      simp only [hlevel.useNotify, Bool.true_and]
      cases hmacOk with
      | true => exact hlevel
      | false => exact notifyDesktop_ready k pass hlevel
  | lost cursor count => exact h
  | overwritten cursor => exact h
  | tamper cursor => exact h

theorem alertFor_forged (host : Host) (pass : Nat) (n : KgNotification) :
    IsForged (alertFor host pass (.emit n false)) := ⟨rfl, rfl, rfl⟩

/-- Only the pseudo alert of a forged notification matches the rule. -/
theorem alertFor_cases (host : Host) (pass : Nat) (ev : DrainEvent) :
    IsForged (alertFor host pass ev) ∨ ruleMatches pageForgedRule (alertFor host pass ev) = false := by
  cases ev with
  | emit n hmacOk =>
      cases hmacOk with
      | true =>
          right
          have hlevel : levelToPolicy n.alertLevel < kgpForged := by
            unfold levelToPolicy
            split
            · decide
            split
            · decide
            · decide
          simp [ruleMatches, alertFor, alertOf, pageForgedRule, hlevel]
      | false => exact Or.inl (alertFor_forged host pass n)
  | lost cursor count => exact Or.inr rfl
  | overwritten cursor => exact Or.inr rfl
  | tamper cursor => exact Or.inr rfl

/-- Before the clock moves, an event costs its notifications and nothing is run. -/
theorem handle_early {k pass : Nat} (hpass : pass < k) {m : Monitor} {free : Nat}
    (h : Ready m free) (ev : DrainEvent) :
    Ready (m.handle (lateHost k) pass ev).1 (free - notices ev) ∧
      (m.handle (lateHost k) pass ev).2 = [] := by
  have hready := noticed_ready k pass h ev
  have hnow : (lateHost k).monoS pass = 0 := if_pos hpass
  rw [handle_eq, h.policy]
  simp only [kgpAlertRun, hnow]
  rcases alertFor_cases (lateHost k) pass ev with hforged | hother
  · obtain ⟨heng, hruns⟩ := pageForged_throttled hforged hready.eng
    rw [hruns]
    exact ⟨⟨hready.useNotify, hready.policy, heng, hready.free⟩, rfl⟩
  · rw [pageForged_silent 0 _ hother]
    exact ⟨hready, rfl⟩

/-- After that, a forged notification pages if it has left a slot for it. -/
theorem handle_late {k pass : Nat} (hpass : k ≤ pass) {m : Monitor} {free : Nat}
    (h : Ready m free) (n : KgNotification) :
    ∃ run, (m.handle (lateHost k) pass (.emit n false)).2
      = [⟨run, decide (0 < free - notices (.emit n false))⟩] := by
  have hready := noticed_ready k pass h (.emit n false)
  have hnow : (lateHost k).monoS pass = 60 := if_neg (Nat.not_lt.mpr hpass)
  obtain ⟨run, hrun⟩ := pageForged_pages (alertFor_forged (lateHost k) pass n) hready.eng
  rw [handle_eq, h.policy]
  simp only [kgpAlertRun, hnow, hrun, runActions, runAction, List.append_nil]
  refine ⟨run, ?_⟩
  rw [(spawn_free (lateHost k) (fun _ => rfl) pass _ _ _).1, ← hready.free]

theorem atSlot_single (ring : KgSharedRegion) (r : Reader) :
    ∃ ev, (atSlot mac ring r).2 = [ev] := by
  unfold atSlot
  cases readSlot ring r.cursor with
  | ok n => exact ⟨_, rfl⟩
  | retry => exact ⟨_, rfl⟩
  | bad => exact ⟨_, rfl⟩

theorem onePass_single {ring : KgSharedRegion} {m : Monitor} {ev : DrainEvent}
    (hev : (atSlot mac ring m.reader).2 = [ev]) (host : Host) (pass : Nat) :
    onePass mac host ring pass m
      = { m with reader := (atSlot mac ring m.reader).1 }.handle host pass ev := by
  unfold onePass
  rw [hev]
  simp only [handleAll, List.append_nil]

theorem Ready.withReader {m : Monitor} {free : Nat} (h : Ready m free) (r : Reader) :
    Ready { m with reader := r } free :=
  ⟨h.useNotify, h.policy, h.eng, h.free⟩

section Agree

variable {ring ring' : KgSharedRegion} (agree : RingsAgree mac ring ring')
include agree

/-- Where the levels are on different sides, both rings hold a forged notification. -/
theorem atSlot_differ {r : Reader} (hdiff : ¬ SameSide ring ring' r.cursor) :
    ∃ n n', ¬ (Raised n ↔ Raised n') ∧ (atSlot mac ring r).2 = [.emit n false] ∧
      (atSlot mac ring' r).2 = [.emit n' false] := by
  unfold SameSide at hdiff
  push Not at hdiff
  obtain ⟨n, n', hn, hn', hne⟩ := hdiff
  have hlevels : ¬ (Raised n ↔ Raised n') := by
    intro h
    rcases hne with ⟨hr, hr'⟩ | ⟨hr, hr'⟩
    · exact hr' (h.mp hr)
    · exact hr (h.mpr hr')
  rcases readSlot_agree mac agree r.cursor with hsame | ⟨x, x', hx, hx', -, -, hbad, hbad'⟩
  · rw [hn, hn'] at hsame
    simp only [SlotResult.ok.injEq] at hsame
    exact absurd (by rw [hsame]) hlevels
  · rw [hn, SlotResult.ok.injEq] at hx
    rw [hn', SlotResult.ok.injEq] at hx'
    subst hx hx'
    refine ⟨n, n', hlevels, ?_, ?_⟩
    · simp only [atSlot, hn, Reader.accept, decide_eq_false hbad]
    · simp only [atSlot, hn', Reader.accept, decide_eq_false hbad']

/-- With two slots left, the page of the differing pass finds one in exactly one of the runs. -/
theorem onePass_differ {m : Monitor} (hdiff : ¬ SameSide ring ring' m.reader.cursor)
    (h : Ready m 2) (pass : Nat) :
    ∃ run run' flag, (onePass mac (lateHost pass) ring pass m).2 = [⟨run, flag⟩] ∧
      (onePass mac (lateHost pass) ring' pass m).2 = [⟨run', !flag⟩] := by
  obtain ⟨n, n', hlevels, hev, hev'⟩ := atSlot_differ mac agree hdiff
  obtain ⟨run, hrun⟩ := handle_late (Nat.le_refl pass) (h.withReader (atSlot mac ring m.reader).1) n
  obtain ⟨run', hrun'⟩ :=
    handle_late (Nat.le_refl pass) (h.withReader (atSlot mac ring' m.reader).1) n'
  rw [onePass_single mac hev, onePass_single mac hev', hrun, hrun']
  refine ⟨run, run', _, rfl, ?_⟩
  by_cases hr : Raised n
  · have hr' : ¬ Raised n' := fun h' => hlevels ⟨fun _ => h', fun _ => hr⟩
    simp [notices, hr, hr']
  · have hr' : Raised n' := by
      by_contra h'
      exact hlevels ⟨fun h => absurd h hr, fun h => absurd h h'⟩
    simp [notices, hr, hr']

/--
If some slot is on different sides, some monitor tells the two rings apart: the first
such slot is at pass `p`, and the passes before it raise `c` notifications.
-/
theorem drainLoop_differ (w : UInt32) (fuel : Nat) (r : Reader)
    (hdiff : ∃ seq ∈ visits mac ring w fuel r, ¬ SameSide ring ring' seq) :
    ∃ p c, p < fuel ∧ c ≤ 2 * p ∧ ∀ pass m, m.reader = r → Ready m (c + 2) →
      (drainLoop mac (lateHost (pass + p)) ring w fuel pass m).2
        ≠ (drainLoop mac (lateHost (pass + p)) ring' w fuel pass m).2 := by
  induction fuel generalizing r with
  | zero =>
      obtain ⟨seq, hseq, -⟩ := hdiff
      exact absurd hseq (by simp [visits])
  | succ fuel ih =>
      obtain ⟨seq, hseq, hne⟩ := hdiff
      by_cases hmore : r.more w = true
      · rw [visits, if_pos hmore] at hseq
        by_cases hside : SameSide ring ring' r.cursor
        · have htail : seq ∈ visits mac ring w fuel (atSlot mac ring r).1 := by
            rcases List.mem_cons.mp hseq with rfl | hseq
            · exact absurd hside hne
            · exact hseq
          obtain ⟨p, c, hp, hc, hloop⟩ := ih _ ⟨seq, htail, hne⟩
          obtain ⟨ev, hev⟩ := atSlot_single mac ring r
          refine ⟨p + 1, c + notices ev, by omega, by have := notices_le ev; omega, ?_⟩
          intro pass m hreader hready
          subst hreader
          have hlate : pass + (p + 1) = pass + 1 + p := by omega
          rw [hlate]
          rw [drainLoop_succ mac _ ring fuel pass hmore, drainLoop_succ mac _ ring' fuel pass hmore,
            ← onePass_agree mac agree _ pass m (fun _ => hside)]
          have hearly := handle_early (show pass < pass + 1 + p by omega)
            (hready.withReader (atSlot mac ring m.reader).1) ev
          rw [← onePass_single mac hev] at hearly
          rw [hearly.2, List.nil_append, List.nil_append]
          refine hloop (pass + 1) _ (onePass_reader mac _ ring pass m) ?_
          have hfree : c + notices ev + 2 - notices ev = c + 2 := by omega
          exact hfree ▸ hearly.1
        · refine ⟨0, 0, Nat.succ_pos _, Nat.le_refl _, ?_⟩
          intro pass m hreader hready
          subst hreader
          obtain ⟨run, run', flag, hrun, hrun'⟩ := onePass_differ mac agree hside hready pass
          rw [Nat.add_zero]
          rw [drainLoop_succ mac _ ring fuel pass hmore, drainLoop_succ mac _ ring' fuel pass hmore,
            hrun, hrun']
          simp
      · rw [visits, if_neg hmore] at hseq
        exact absurd hseq (by simp)

end Agree

/-- After the lap check the reader is at most a ring behind. -/
theorem lapCheck_near (w : UInt32) (r : Reader) : (w - (r.lapCheck w).1.cursor).toNat ≤ 16 := by
  unfold Reader.lapCheck
  split
  · show (w - (w - 16)).toNat ≤ 16
    have hsub : w - (w - 16) = 16 := by grind
    rw [hsub]
    decide
  · next hnear => exact UInt32.le_iff_toNat_le.mp (UInt32.not_lt.mp hnear)

/-- A table with `free` free slots. -/
def childrenWith (free : Nat) : Children := fun i => if i.val < free then none else some ⟨1, 0, []⟩

theorem freeCount_childrenWith {free : Nat} (h : free ≤ maxChildren) :
    freeCount (childrenWith free) = free := by
  have hall : ∀ k : Fin (maxChildren + 1), freeCount (childrenWith k.val) = k.val := by decide
  exact hall ⟨free, by omega⟩

/-- The engine after a forged notification at time 0. -/
def pagedEngine : KgpEngine :=
  fun i => if i = 0 then { KgpIncident.zero with used := true, code := kgpAlertForged }
    else KgpIncident.zero

theorem pagedEngine_paged : PagedAtZero pagedEngine := ⟨rfl, rfl, rfl⟩

/-- The head of `drain` raises no desktop notification and runs nothing before the clock moves. -/
theorem lap_early {k : Nat} (hk : 0 < k) (w : UInt32) (r : Reader) {m : Monitor} {free : Nat}
    (h : Ready m free) :
    Ready (handleAll (lateHost k) 0 (r.lapCheck w).2 m).1 free ∧
      (handleAll (lateHost k) 0 (r.lapCheck w).2 m).2 = [] := by
  unfold Reader.lapCheck
  split
  · simp only [handleAll, List.append_nil]
    exact handle_early hk h (.lost r.cursor (w - r.cursor - 16))
  · exact ⟨h, rfl⟩

section Agree

variable {ring ring' : KgSharedRegion} (agree : RingsAgree mac ring ring')
include agree

theorem drain_agree (host : Host) (m : Monitor)
    (hside : m.useNotify = true →
      ∀ seq ∈ drainVisits mac ring m.reader, SameSide ring ring' seq) :
    drain mac host ring m = drain mac host ring' m := by
  unfold drain
  rw [← agree.writeIndex]
  have hreader := handleAll_reader host 0 (m.reader.lapCheck ring.writeIndex).2
    { m with reader := (m.reader.lapCheck ring.writeIndex).1 }
  have huse := handleAll_useNotify host 0 (m.reader.lapCheck ring.writeIndex).2
    { m with reader := (m.reader.lapCheck ring.writeIndex).1 }
  simp only
  rw [drainLoop_agree mac agree host ring.writeIndex _ 1]
  intro hnotify
  rw [hreader]
  exact hside (huse.symm.trans hnotify)

/-- The monitor of `drainLoop_differ`, put in front of a whole `drain`. -/
theorem drain_differ (r : Reader)
    (hdiff : ∃ seq ∈ drainVisits mac ring r, ¬ SameSide ring ring' seq) :
    ∃ children host,
      (drain mac host ring ⟨true, some pageForged, pagedEngine, children, 0, r⟩).2
        ≠ (drain mac host ring' ⟨true, some pageForged, pagedEngine, children, 0, r⟩).2 := by
  obtain ⟨p, c, hp, hc, hloop⟩ := drainLoop_differ mac agree ring.writeIndex _ _ hdiff
  have hnear := lapCheck_near ring.writeIndex r
  have hready : Ready
      ⟨true, some pageForged, pagedEngine, childrenWith (c + 2), 0,
        (r.lapCheck ring.writeIndex).1⟩ (c + 2) :=
    ⟨rfl, rfl, pagedEngine_paged, freeCount_childrenWith (show c + 2 ≤ 32 by omega)⟩
  obtain ⟨hlap, hquiet⟩ := lap_early (show 0 < 1 + p by omega) ring.writeIndex r hready
  refine ⟨childrenWith (c + 2), lateHost (1 + p), ?_⟩
  unfold drain
  rw [← agree.writeIndex]
  simp only
  rw [hquiet, List.nil_append, List.nil_append]
  exact hloop 1 _ (handleAll_reader _ 0 _ _) hlap

/--
**Forged content and policy actions.**  For given rings, options and cursor, no policy,
engine, table of helpers or clock ever shows a difference exactly when desktop
notifications are off, or every slot `drain` looks at is on the same side of
`KG_LEVEL_WATCH` in both rings.
-/
theorem forged_content_unswayed_iff (useNotify : Bool) (r : Reader) :
    (∀ policy eng children forks host,
      let m : Monitor := ⟨useNotify, policy, eng, children, forks, r⟩
      (drain mac host ring m).1.eng = (drain mac host ring' m).1.eng ∧
        (drain mac host ring m).2 = (drain mac host ring' m).2)
    ↔ useNotify = false ∨ ∀ seq ∈ drainVisits mac ring r, SameSide ring ring' seq := by
  refine ⟨?_, ?_⟩
  · intro h
    cases useNotify with
    | false => exact Or.inl rfl
    | true =>
        right
        by_contra hnot
        push Not at hnot
        obtain ⟨children, host, hne⟩ := drain_differ mac agree r hnot
        exact hne (h (some pageForged) pagedEngine children 0 host).2
  · intro h policy eng children forks host m
    have heq : drain mac host ring m = drain mac host ring' m := by
      refine drain_agree mac agree host m ?_
      intro huse
      rcases h with hoff | hside
      · rw [show m.useNotify = false from hoff] at huse
        exact absurd huse (by simp)
      · exact hside
    rw [heq]
    exact ⟨rfl, rfl⟩

end Agree

/-- One published notification, of the given level, with a wrong HMAC. -/
def forgedRing (level : UInt32) : KgSharedRegion :=
  ⟨1, 1, fun _ => { KgNotification.zero with magic := kgNotifyMagic, alertLevel := level }⟩

theorem forgedRing_agree {level level' : UInt32}
    (h : checksumMac ((forgedRing level).notifications 0).authBytes ≠ ⟨0, 0, 0, 0⟩)
    (h' : checksumMac ((forgedRing level').notifications 0).authBytes ≠ ⟨0, 0, 0, 0⟩) :
    RingsAgree checksumMac (forgedRing level) (forgedRing level') :=
  ⟨rfl, fun _ => rfl, fun _ => rfl, fun _ => Or.inr ⟨h, h'⟩⟩

theorem readSlot_forgedRing {level seq : UInt32} {n : KgNotification}
    (h : readSlot (forgedRing level) seq = .ok n) : n.alertLevel = level := by
  rw [(readSlot_eq_ok h).1]
  rfl

/-- A reader at the start of the ring. -/
def firstReader : Reader := ⟨false, false, 0, 0, 0, false⟩

/-- A forged level that is raised either way, WATCH or CRITICAL, sways nothing. -/
theorem forged_content_unswayed_iff_raised :
    RingsAgree checksumMac (forgedRing kgLevelWatch) (forgedRing kgLevelCritical) ∧
      ∀ policy eng children forks host,
        let m : Monitor := ⟨true, policy, eng, children, forks, firstReader⟩
        (drain checksumMac host (forgedRing kgLevelWatch) m).1.eng
            = (drain checksumMac host (forgedRing kgLevelCritical) m).1.eng ∧
          (drain checksumMac host (forgedRing kgLevelWatch) m).2
            = (drain checksumMac host (forgedRing kgLevelCritical) m).2 := by
  have agree : RingsAgree checksumMac (forgedRing kgLevelWatch) (forgedRing kgLevelCritical) :=
    forgedRing_agree (by decide +kernel) (by decide +kernel)
  refine ⟨agree, (forged_content_unswayed_iff checksumMac agree true firstReader).mpr (Or.inr ?_)⟩
  intro seq _ n n' hn hn'
  unfold Raised
  rw [readSlot_forgedRing hn, readSlot_forgedRing hn']
  decide

/-- Forged content never steers an action, whatever the rest of the run. -/
def ForgedNeverSteers : Prop :=
  ∀ (ring ring' : KgSharedRegion), RingsAgree mac ring ring' → ∀ (m : Monitor) (host : Host),
    (drain mac host ring m).1.eng = (drain mac host ring' m).1.eng ∧
      (drain mac host ring m).2 = (drain mac host ring' m).2

/-- With a policy file that pages for forged notifications, raising the level of one to WATCH takes
the slot of the page it causes. -/
theorem forged_level_takes_last_slot :
    kgpParse pageForgedText none = .ok pageForged ∧ ¬ ForgedNeverSteers checksumMac := by
  refine ⟨pageForged_accepted, fun h => ?_⟩
  have hsame := (h (forgedRing kgLevelInfo) (forgedRing kgLevelWatch)
    (forgedRing_agree (by decide +kernel) (by decide +kernel))
    ⟨true, some pageForged, kgpInit, childrenWith 2, 0, firstReader⟩ (lateHost 0)).2
  exact absurd hsame (by decide +kernel)

end Monitor

end KernelGuard
