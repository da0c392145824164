/-
Whether an incident that nobody acknowledges is escalated.

`unacked=SEC` promises an escalation once the incident is that old.  `kgp_tick` looks
at the silence first, though: an incident that has been silent for `reset=` seconds is
forgotten, whether or not its escalation is due.  With `unacked` above `reset` a single
alert is forgotten before anybody is told.

The proof follows one incident through the run.  `Phase` says where it is: it waits for
its escalation, it has been escalated, or it is gone.  Two things are carried along:
what has been run for it, and whether a tick ever found it silent while it waited.
-/
import KernelGuard.Proofs.Incidents
import KernelGuard.Proofs.Accepted

namespace KernelGuard

/-! ### What is run for an incident

A call carries the incident and the time it began.  So the calls for one incident can
be told from those for a later incident of the same key.
-/

/-- The then-actions of rule `r` are among the calls, for the incident `k` begun at `first`. -/
def EscalatedIn (pol : KgpPolicy) (r : KgpRule) (k : KgpKey) (first : UInt64)
    (runs : List KgpRun) : Prop :=
  ∀ a ∈ maskActions pol r.thenMask,
    ∃ run ∈ runs, run.action = a ∧ run.key = k ∧ run.tier = 1 ∧ run.firstS = first

/-- No call is an escalation of an incident begun at `first`. -/
def QuietIn (first : UInt64) (runs : List KgpRun) : Prop :=
  ∀ run ∈ runs, run.tier = 1 → run.firstS ≠ first

section Runs

variable {pol : KgpPolicy} {r : KgpRule} {k : KgpKey} {first : UInt64} {xs ys : List KgpRun}

theorem EscalatedIn.left (h : EscalatedIn pol r k first xs) : EscalatedIn pol r k first (xs ++ ys) := by
  intro a ha
  obtain ⟨run, hrun, hprops⟩ := h a ha
  exact ⟨run, List.mem_append_left _ hrun, hprops⟩

theorem EscalatedIn.right (h : EscalatedIn pol r k first ys) :
    EscalatedIn pol r k first (xs ++ ys) := by
  intro a ha
  obtain ⟨run, hrun, hprops⟩ := h a ha
  exact ⟨run, List.mem_append_right _ hrun, hprops⟩

theorem QuietIn.append (hx : QuietIn first xs) (hy : QuietIn first ys) :
    QuietIn first (xs ++ ys) := by
  intro run hrun
  rcases List.mem_append.mp hrun with hrun | hrun
  · exact hx run hrun
  · exact hy run hrun

theorem QuietIn.nil : QuietIn first [] := by
  intro run hrun
  exact absurd hrun (by simp)

theorem quietIn_of_tier (h : ∀ run ∈ xs, run.tier = 0) : QuietIn first xs := by
  intro run hrun htier
  rw [h run hrun] at htier
  exact absurd htier (by simp)

theorem quietIn_of_firstS (h : ∀ run ∈ xs, first < run.firstS) : QuietIn first xs := by
  intro run hrun _ heq
  have hlt := h run hrun
  rw [heq] at hlt
  exact absurd hlt (UInt64.lt_irrefl _)

/-- An escalation runs the then-actions. -/
theorem runMask_escalatedIn {inc : KgpIncident} (hkeyed : inc.Keyed) (hkey : inc.key = k)
    (hfirst : inc.firstS = first) : EscalatedIn pol r k first (runMask pol r.thenMask inc 1) := by
  intro a ha
  exact ⟨_, List.mem_map.mpr ⟨a, ha, rfl⟩, rfl, hkeyed.trans hkey, rfl, hfirst⟩

end Runs

theorem runRepeat_cases (pol : KgpPolicy) (r : KgpRule) (now : UInt64) (inc : KgpIncident) :
    inc.runRepeat pol r now = (inc, []) ∨
      (inc.escalated = false ∧ inc.runRepeat pol r now
        = ({ inc with escalated := true },
          runMask pol r.thenMask { inc with escalated := true } 1)) := by
  rw [runRepeat_eq]
  split
  · next h =>
      simp only [Bool.and_eq_true, Bool.not_eq_true'] at h
      exact Or.inr ⟨h.1.2, rfl⟩
  · exact Or.inl rfl

/-- When the incident that an arrival belongs to began. -/
def episodeStart (now : UInt64) (old : Option KgpIncident) : UInt64 :=
  match old with
  | some inc => if inc.acked then now else inc.firstS
  | none => now

/-- Whether the incident that an arrival belongs to has been escalated before. -/
def wasEscalated (old : Option KgpIncident) : Bool :=
  match old with
  | some inc => !inc.acked && inc.escalated
  | none => false

/-- An arrival either escalates the incident, which was not escalated, or leaves that as it is. -/
theorem alertIncident_cases (pol : KgpPolicy) {ri : Nat} (r : KgpRule) (now : UInt64)
    {al : KgpAlert} {old : Option KgpIncident}
    (hold : ∀ inc, old = some inc → inc.used = true ∧ inc.key = al.keyFor ri) :
    (alertIncident pol ri r now al old).1.firstS = episodeStart now old ∧
      (∀ run ∈ (alertIncident pol ri r now al old).2, run.firstS = episodeStart now old) ∧
      (((alertIncident pol ri r now al old).1.escalated = wasEscalated old ∧
          ∀ run ∈ (alertIncident pol ri r now al old).2, run.tier = 0) ∨
        (wasEscalated old = false ∧
          (alertIncident pol ri r now al old).1.escalated = true ∧
          EscalatedIn pol r (al.keyFor ri) (episodeStart now old)
            (alertIncident pol ri r now al old).2)) := by
  set start := (old.getD KgpIncident.zero).arrive ri now al (old.elim true (·.acked)) with hstart
  have hfirst : start.firstS = episodeStart now old := by
    rcases old with _ | inc
    · rfl
    · cases hacked : inc.acked with
      | true => simp [hstart, episodeStart, KgpIncident.arrive, hacked]
      | false => simp [hstart, episodeStart, KgpIncident.arrive, hacked]
  have hesc : start.escalated = wasEscalated old := by
    rcases old with _ | inc
    · rfl
    · cases hacked : inc.acked with
      | true => simp [hstart, wasEscalated, KgpIncident.arrive, hacked, KgpIncident.zero]
      | false => simp [hstart, wasEscalated, KgpIncident.arrive, hacked]
  have harr : Arrived ri now al start := arrive_old ri now al hold
  obtain ⟨lastRun, hbase, hbaseRuns⟩ := runBase_cases pol r now (old.elim true (·.acked)) start
  have hmid := harr.runBase pol r (old.elim true (·.acked))
  rw [hbase] at hmid
  have heq : alertIncident pol ri r now al old
      = ((({ start with lastRunS := lastRun } : KgpIncident).runRepeat pol r now).1,
        (start.runBase pol r now (old.elim true (·.acked))).2
          ++ (({ start with lastRunS := lastRun } : KgpIncident).runRepeat pol r now).2) := by
    rw [← hbase]
    rfl
  rw [← hfirst, ← hesc, heq]
  rcases runRepeat_cases pol r now { start with lastRunS := lastRun } with hrep | ⟨hnot, hrep⟩
  · rw [hrep, List.append_nil]
    exact ⟨rfl, fun run hrun => (hbaseRuns run hrun).1,
      Or.inl ⟨rfl, fun run hrun => (hbaseRuns run hrun).2⟩⟩
  · rw [hrep]
    refine ⟨rfl, ?_, Or.inr ⟨hnot, rfl, ?_⟩⟩
    · intro run hrun
      rcases List.mem_append.mp hrun with hrun | hrun
      · exact (hbaseRuns run hrun).1
      · exact (runMask_firstS run hrun).1
    · have hkeyed := hmid.keyed
      exact (runMask_escalatedIn hkeyed hmid.key rfl).right

/-! ### Following one incident

`Phase` is followed through every operation: the phases are left in one direction
only, and what was run in each of them is part of the invariant.  An arrival after
the incident is gone begins another one, which is not followed.
-/

/-- No tick finds the incident begun at `first` silent for its reset time before it is escalated. -/
def HeardFrom (pol : KgpPolicy) (first : UInt64) (st : Option KgpIncident) : EngOp → Prop
  | .tick now => ∀ inc, st = some inc → inc.firstS = first → inc.escalated = false →
      ¬ inc.silent pol now
  | .alert _ _ => True
  | .ack _ => True

/-- The incident begun at `first` is not acknowledged. -/
def NotAcked (first : UInt64) (st : Option KgpIncident) : EngOp → Prop
  | .ack upToSeq => ∀ inc, st = some inc → inc.firstS = first →
      seqCovered upToSeq inc.lastSeq = false
  | .alert _ _ => True
  | .tick _ => True

/-- The incident of key `k` begun at `first`, still unacknowledged at `now`. -/
structure Current (k : KgpKey) (first now : UInt64) (inc : KgpIncident) : Prop where
  used : inc.used = true
  key : inc.key = k
  keyed : inc.Keyed
  firstS : inc.firstS = first
  acked : inc.acked = false
  since : first ≤ inc.lastS
  past : inc.lastS ≤ now

theorem Current.mono {k : KgpKey} {first now now' : UInt64} {inc : KgpIncident}
    (h : Current k first now inc) (hnow : now ≤ now') : Current k first now' inc :=
  { h with past := UInt64.le_trans h.past hnow }

/--
Where the incident is at `now`: `heard` says that no tick found it silent while it was
waiting, `runs` is what has been run since it began.
-/
inductive Phase (pol : KgpPolicy) (r : KgpRule) (k : KgpKey) (first : UInt64) (heard : Prop)
    (runs : List KgpRun) (now : UInt64) (st : Option KgpIncident) : Prop
  | waiting (inc : KgpIncident) (eq : st = some inc) (cur : Current k first now inc)
      (esc : inc.escalated = false) (ok : heard) (quiet : QuietIn first runs)
  | escalated (inc : KgpIncident) (eq : st = some inc) (cur : Current k first now inc)
      (esc : inc.escalated = true) (ok : heard) (done : EscalatedIn pol r k first runs)
  | gone (past : first < now) (later : ∀ inc, st = some inc → first < inc.firstS)
      (outcome : (heard ∧ EscalatedIn pol r k first runs) ∨ (¬ heard ∧ QuietIn first runs))

/-- The states of the machine of key `k`. -/
def KeyOK (k : KgpKey) (st : Option KgpIncident) : Prop :=
  ∀ inc, st = some inc → inc.used = true ∧ inc.key = k ∧ inc.Keyed

section Follow

variable {pol : KgpPolicy} {r : KgpRule} {k : KgpKey} {first now : UInt64} {heard : Prop}
  {runs : List KgpRun} {st : Option KgpIncident}

/-- What is run for an incident that began later is none of this one's business. -/
theorem Phase.later {more : List KgpRun} {now' : UInt64} {st' : Option KgpIncident}
    (hpast : first < now) (hnow : now ≤ now')
    (houtcome : (heard ∧ EscalatedIn pol r k first runs) ∨ (¬ heard ∧ QuietIn first runs))
    (hlater : ∀ inc, st' = some inc → first < inc.firstS)
    (hmore : ∀ run ∈ more, first < run.firstS) :
    Phase pol r k first heard (runs ++ more) now' st' := by
  refine .gone (UInt64.lt_of_lt_of_le hpast hnow) hlater ?_
  rcases houtcome with ⟨hok, hdone⟩ | ⟨hnot, hquiet⟩
  · exact Or.inl ⟨hok, hdone.left⟩
  · exact Or.inr ⟨hnot, hquiet.append (quietIn_of_firstS hmore)⟩

/-- The incident right after an arrival, given what it was before. -/
theorem Current.alert (pol : KgpPolicy) {old : Option KgpIncident} {al : KgpAlert} {ri : Nat}
    (r : KgpRule)
    (hold : ∀ inc, old = some inc → inc.used = true ∧ inc.key = al.keyFor ri)
    (hstart : episodeStart now old = first) (hle : first ≤ now) :
    Current (al.keyFor ri) first now (alertIncident pol ri r now al old).1 := by
  have harr := alertIncident_arrived pol ri r now al hold
  have hfirst := (alertIncident_cases pol r now hold).1
  exact ⟨harr.used, harr.key, harr.keyed, hfirst.trans hstart, harr.acked,
    by rw [harr.lastS]; exact hle, by rw [harr.lastS]; exact UInt64.le_refl _⟩

/-- An open incident is the same one after the next arrival. -/
theorem Current.arrival (pol : KgpPolicy) {now' : UInt64} {al : KgpAlert} {inc : KgpIncident}
    (r : KgpRule) (cur : Current k first now inc) (hst : st = some inc)
    (hk : k = al.keyFor k.rule) (hnow : now ≤ now') :
    Current k first now' (alertIncident pol k.rule r now' al st).1 := by
  have hold : ∀ i, st = some i → i.used = true ∧ i.key = al.keyFor k.rule := by
    intro i hi
    obtain rfl : inc = i := Option.some.inj (hst.symm.trans hi)
    exact ⟨cur.used, cur.key.trans hk⟩
  have hstart : episodeStart now' st = first := by
    rw [hst]
    simp only [episodeStart, cur.acked, cur.firstS, Bool.false_eq_true, if_false]
  have hle : first ≤ now' := UInt64.le_trans cur.since (UInt64.le_trans cur.past hnow)
  have halert := Current.alert pol r hold hstart hle
  rw [← hk] at halert
  exact halert

/-- A step that does not concern the incident. -/
theorem Phase.idle {now' : UInt64} (h : Phase pol r k first heard runs now st)
    (hnow : now ≤ now') : Phase pol r k first heard (runs ++ []) now' st := by
  rw [List.append_nil]
  cases h with
  | waiting inc eq cur esc ok quiet => exact .waiting inc eq (cur.mono hnow) esc ok quiet
  | escalated inc eq cur esc ok done => exact .escalated inc eq (cur.mono hnow) esc ok done
  | gone past later outcome => exact .gone (UInt64.lt_of_lt_of_le past hnow) later outcome

theorem lt_episodeStart {now' : UInt64} (hnow : first < now')
    (hlater : ∀ inc, st = some inc → first < inc.firstS) : first < episodeStart now' st := by
  unfold episodeStart
  split
  · next inc =>
      split
      · exact hnow
      · exact hlater inc rfl
  · exact hnow

/-- One arrival. -/
theorem Phase.alert (hst : KeyOK k st) (h : Phase pol r k first heard runs now st)
    (hr : pol.rules[k.rule]? = some r) {now' : UInt64} (hnow : now ≤ now') (al : KgpAlert) :
    Phase pol r k first heard (runs ++ keyRuns pol k st (.alert now' al)) now'
      (keyStep pol k st (.alert now' al)) := by
  unfold keyRuns keyStep
  cases hrule : k.ruleFor pol al with
  | none =>
      rw [keyAct_alert_none hrule]
      exact h.idle hnow
  | some q =>
      obtain ⟨hk, hq, -⟩ := ruleFor_eq_some.mp hrule
      obtain rfl : q = r := Option.some.inj (hq.symm.trans hr)
      rw [keyAct_alert hrule]
      have hold : ∀ inc, st = some inc → inc.used = true ∧ inc.key = al.keyFor k.rule := by
        intro inc hinc
        obtain ⟨hused, hkey, -⟩ := hst inc hinc
        exact ⟨hused, hkey.trans hk⟩
      obtain ⟨hfirst, hruns, hcases⟩ := alertIncident_cases pol q now' hold
      cases h with
      | waiting inc eq cur esc ok quiet =>
          have hwas : wasEscalated st = false := by
            rw [eq]
            simp [wasEscalated, esc]
          have cur' := cur.arrival pol q eq hk hnow
          rcases hcases with ⟨hesc, htier⟩ | ⟨-, hesc, hdone⟩
          · exact .waiting _ rfl cur' (hesc.trans hwas) ok (quiet.append (quietIn_of_tier htier))
          · refine .escalated _ rfl cur' hesc ok ?_
            rw [← hk, ← hfirst, cur'.firstS] at hdone
            exact hdone.right
      | escalated inc eq cur esc ok done =>
          have hwas : wasEscalated st = true := by
            rw [eq]
            simp [wasEscalated, esc, cur.acked]
          rcases hcases with ⟨hesc, -⟩ | ⟨hnot, -⟩
          · exact .escalated _ rfl (cur.arrival pol q eq hk hnow) (hesc.trans hwas) ok done.left
          · rw [hwas] at hnot
            exact absurd hnot (by simp)
      | gone past later outcome =>
          have hlater := lt_episodeStart (UInt64.lt_of_lt_of_le past hnow) later
          refine .later past hnow outcome ?_ ?_
          · intro inc hinc
            rw [← Option.some.inj hinc, hfirst]
            exact hlater
          · intro run hrun
            rw [hruns run hrun]
            exact hlater

/-- An incident that a tick forgets has seen the clock move. -/
theorem Current.lt_of_silent {now' : UInt64} {inc : KgpIncident} (cur : Current k first now inc)
    (hnow : now ≤ now') (hreset : 1 ≤ (pol.rule inc.rule).resetS.toNat)
    (hsilent : inc.silent pol now') : first < now' := by
  have hpast := UInt64.le_trans cur.past hnow
  unfold KgpIncident.silent at hsilent
  rw [ge_iff_le, UInt64.le_iff_toNat_le, UInt32.toNat_toUInt64, UInt64.toNat_sub_of_le _ _ hpast]
    at hsilent
  have hsince := UInt64.le_iff_toNat_le.mp cur.since
  rw [UInt64.lt_iff_toNat_lt]
  omega

theorem Phase.congr {heard' : Prop} (h : Phase pol r k first heard runs now st)
    (hheard : heard ↔ heard') : Phase pol r k first heard' runs now st := by
  rw [propext hheard] at h
  exact h

theorem Current.rule_eq {inc : KgpIncident} (cur : Current k first now inc)
    (hr : pol.rule k.rule = r) : pol.rule inc.rule = r := by
  rw [← hr, ← cur.key]
  rfl

/-- A tick while the incident waits: it is forgotten, escalated or kept. -/
theorem Phase.tick_waiting {inc : KgpIncident} (cur : Current k first now inc)
    (esc : inc.escalated = false) (ok : heard) (quiet : QuietIn first runs)
    (hr : pol.rule k.rule = r) (hreset : 1 ≤ r.resetS.toNat) {now' : UInt64} (hnow : now ≤ now') :
    Phase pol r k first (heard ∧ HeardFrom pol first (some inc) (.tick now'))
      (runs ++ keyRuns pol k (some inc) (.tick now')) now'
      (keyStep pol k (some inc) (.tick now')) := by
  have hrule := cur.rule_eq hr
  have hheard : HeardFrom pol first (some inc) (.tick now') ↔ ¬ inc.silent pol now' := by
    refine ⟨fun hh => hh inc rfl cur.firstS esc, fun hh inc' hinc' _ _ => ?_⟩
    rw [← Option.some.inj hinc']
    exact hh
  unfold keyRuns keyStep
  rcases keyAct_tick_cases cur.used k now' with
    ⟨hsilent, heq⟩ | ⟨hsilent, -, heq⟩ | ⟨hsilent, -, heq⟩
  · -- forgotten without having been escalated
    rw [heq, List.append_nil]
    refine .gone (cur.lt_of_silent hnow (by rw [hrule]; exact hreset) hsilent)
      (fun inc' hinc' => absurd hinc' (by simp)) (Or.inr ⟨?_, quiet⟩)
    exact fun hh => hheard.mp hh.2 hsilent
  · rw [heq, hrule]
    have hcur := cur.mono hnow
    have hkeyed : KgpIncident.Keyed { inc with escalated := true } := cur.keyed
    refine .escalated _ rfl { hcur with } rfl ⟨ok, hheard.mpr hsilent⟩ ?_
    exact (runMask_escalatedIn hkeyed cur.key cur.firstS).right
  · rw [heq, List.append_nil]
    exact .waiting inc rfl (cur.mono hnow) esc ⟨ok, hheard.mpr hsilent⟩ quiet

/-- A tick after the escalation: the incident is forgotten or kept. -/
theorem Phase.tick_escalated {inc : KgpIncident} (cur : Current k first now inc)
    (esc : inc.escalated = true) (ok : heard) (done : EscalatedIn pol r k first runs)
    (hr : pol.rule k.rule = r) (hreset : 1 ≤ r.resetS.toNat) {now' : UInt64} (hnow : now ≤ now') :
    Phase pol r k first (heard ∧ HeardFrom pol first (some inc) (.tick now'))
      (runs ++ keyRuns pol k (some inc) (.tick now')) now'
      (keyStep pol k (some inc) (.tick now')) := by
  have hrule := cur.rule_eq hr
  have hheard : HeardFrom pol first (some inc) (.tick now') := by
    intro inc' hinc' _ hesc
    rw [← Option.some.inj hinc', esc] at hesc
    exact absurd hesc (by simp)
  unfold keyRuns keyStep
  rcases keyAct_tick_cases cur.used k now' with ⟨hsilent, heq⟩ | ⟨-, hdue, -⟩ | ⟨-, -, heq⟩
  · rw [heq, List.append_nil]
    exact .gone (cur.lt_of_silent hnow (by rw [hrule]; exact hreset) hsilent)
      (fun inc' hinc' => absurd hinc' (by simp)) (Or.inl ⟨⟨ok, hheard⟩, done⟩)
  · -- an escalation happens once
    simp [KgpIncident.overdue, esc] at hdue
  · rw [heq, List.append_nil]
    exact .escalated inc rfl (cur.mono hnow) esc ⟨ok, hheard⟩ done

/-- What a tick leaves of an incident that began later, and what it runs for it. -/
theorem tick_later (pol : KgpPolicy) (hst : KeyOK k st) (later : ∀ inc, st = some inc → first < inc.firstS)
    (now' : UInt64) :
    (∀ inc, keyStep pol k st (.tick now') = some inc → first < inc.firstS) ∧
      ∀ run ∈ keyRuns pol k st (.tick now'), first < run.firstS := by
  unfold keyRuns keyStep
  rcases st with _ | inc
  · exact ⟨fun inc hinc => absurd hinc (by simp [keyAct]),
      fun run hrun => absurd hrun (by simp [keyAct])⟩
  · have hlater := later inc rfl
    obtain ⟨hused, -, -⟩ := hst inc rfl
    rcases keyAct_tick_cases hused k now' with ⟨-, heq⟩ | ⟨-, -, heq⟩ | ⟨-, -, heq⟩
    · rw [heq]
      exact ⟨fun inc' hinc' => absurd hinc' (by simp), fun run hrun => absurd hrun (by simp)⟩
    · rw [heq]
      refine ⟨?_, ?_⟩
      · intro inc' hinc'
        rw [← Option.some.inj hinc']
        exact hlater
      · intro run hrun
        rw [(runMask_firstS run hrun).1]
        exact hlater
    · rw [heq]
      exact ⟨later, fun run hrun => absurd hrun (by simp)⟩

/-- One tick. -/
theorem Phase.tick (hst : KeyOK k st) (h : Phase pol r k first heard runs now st)
    (hr : pol.rule k.rule = r) (hreset : 1 ≤ r.resetS.toNat) {now' : UInt64} (hnow : now ≤ now') :
    Phase pol r k first (heard ∧ HeardFrom pol first st (.tick now'))
      (runs ++ keyRuns pol k st (.tick now')) now' (keyStep pol k st (.tick now')) := by
  cases h with
  | waiting inc eq cur esc ok quiet =>
      subst eq
      exact Phase.tick_waiting cur esc ok quiet hr hreset hnow
  | escalated inc eq cur esc ok done =>
      subst eq
      exact Phase.tick_escalated cur esc ok done hr hreset hnow
  | gone past later outcome =>
      have hheard : heard ↔ heard ∧ HeardFrom pol first st (.tick now') := by
        refine ⟨fun hh => ⟨hh, fun inc hinc hfirst => ?_⟩, fun hh => hh.1⟩
        have hlt := later inc hinc
        rw [hfirst] at hlt
        exact absurd hlt (UInt64.lt_irrefl _)
      obtain ⟨hstate, hruns⟩ := tick_later pol hst later now'
      exact (Phase.later past hnow outcome hstate hruns).congr hheard

/-- One acknowledgement, of other incidents. -/
theorem Phase.ack (h : Phase pol r k first heard runs now st) {upToSeq : UInt32}
    (hnot : NotAcked first st (.ack upToSeq)) :
    Phase pol r k first heard (runs ++ keyRuns pol k st (.ack upToSeq)) now
      (keyStep pol k st (.ack upToSeq)) := by
  have hsame : ∀ inc, st = some inc → inc.firstS = first →
      keyStep pol k st (.ack upToSeq) = some inc := by
    intro inc hinc hfirst
    have hcov := hnot inc hinc hfirst
    simp [keyStep, keyAct, hinc, hcov]
  rw [show keyRuns pol k st (.ack upToSeq) = [] from rfl, List.append_nil]
  cases h with
  | waiting inc eq cur esc ok quiet =>
      exact .waiting inc (hsame inc eq cur.firstS) cur esc ok quiet
  | escalated inc eq cur esc ok done =>
      exact .escalated inc (hsame inc eq cur.firstS) cur esc ok done
  | gone past later outcome =>
      refine .gone past ?_ outcome
      intro inc hinc
      obtain ⟨old, hold, heq⟩ := Option.map_eq_some_iff.mp hinc
      have hlater := later old hold
      rw [← heq]
      split
      · exact hlater
      · exact hlater

theorem KeyOK.step (hst : KeyOK k st) (op : EngOp) : KeyOK k (keyStep pol k st op) := by
  unfold keyStep
  cases op with
  | alert t al =>
      cases hrule : k.ruleFor pol al with
      | none =>
          rw [keyAct_alert_none hrule]
          exact hst
      | some q =>
          obtain ⟨hk, -, -⟩ := ruleFor_eq_some.mp hrule
          rw [keyAct_alert hrule]
          intro inc hinc
          have hold : ∀ old, st = some old → old.used = true ∧ old.key = al.keyFor k.rule :=
            fun old hold => ⟨(hst old hold).1, (hst old hold).2.1.trans hk⟩
          have harr := alertIncident_arrived pol k.rule q t al hold
          rw [← Option.some.inj hinc]
          exact ⟨harr.used, harr.key.trans hk.symm, harr.keyed⟩
  | tick t =>
      rcases st with _ | old
      · exact hst
      · obtain ⟨hused, hkey, hkeyed⟩ := hst old rfl
        intro inc hinc
        rcases keyAct_tick_cases hused k t with ⟨-, heq⟩ | ⟨-, -, heq⟩ | ⟨-, -, heq⟩
        · rw [heq] at hinc
          exact absurd hinc (by simp)
        · rw [heq] at hinc
          rw [← Option.some.inj hinc]
          exact ⟨hused, hkey, hkeyed⟩
        · rw [heq] at hinc
          rw [← Option.some.inj hinc]
          exact ⟨hused, hkey, hkeyed⟩
  | ack upToSeq =>
      intro inc hinc
      obtain ⟨old, hold, heq⟩ := Option.map_eq_some_iff.mp hinc
      have hok := hst old hold
      rw [← heq]
      split
      · exact hok
      · exact hok

/-- The clock after an operation. -/
theorem Chronological.clock {op : EngOp} {rest : List EngOp} (h : Chronological (op :: rest))
    (hnow : ∀ o ∈ op :: rest, ∀ t, o.time = some t → now ≤ t) :
    now ≤ op.time.getD now ∧ ∀ o ∈ rest, ∀ t, o.time = some t → op.time.getD now ≤ t := by
  cases hop : op.time with
  | none => exact ⟨UInt64.le_refl _, fun o ho => hnow o (List.mem_cons_of_mem _ ho)⟩
  | some s => exact ⟨hnow op (by simp) s hop, h.first hop⟩

/-- One operation. -/
theorem Phase.step (hst : KeyOK k st) (h : Phase pol r k first heard runs now st)
    (hr : pol.rules[k.rule]? = some r) (hreset : 1 ≤ r.resetS.toNat) {op : EngOp}
    (hnow : now ≤ op.time.getD now) (hack : NotAcked first st op) :
    Phase pol r k first (heard ∧ HeardFrom pol first st op) (runs ++ keyRuns pol k st op)
      (op.time.getD now) (keyStep pol k st op) := by
  cases op with
  | alert t al => exact (h.alert hst hr hnow al).congr (by simp [HeardFrom])
  | tick t =>
      refine h.tick hst ?_ hreset hnow
      rw [KgpPolicy.rule, List.getD_eq_getElem?_getD, hr, Option.getD_some]
  | ack upToSeq => exact (h.ack hack).congr (by simp [HeardFrom])

/-- A whole run. -/
theorem Phase.run (hr : pol.rules[k.rule]? = some r) (hreset : 1 ≤ r.resetS.toNat)
    {ops : List EngOp} (hst : KeyOK k st) (h : Phase pol r k first heard runs now st)
    (hchron : Chronological ops) (hnow : ∀ o ∈ ops, ∀ t, o.time = some t → now ≤ t)
    (hack : Run.Along (keyStep pol k) st ops (NotAcked first)) :
    ∃ now', Phase pol r k first
      (heard ∧ Run.Along (keyStep pol k) st ops (HeardFrom pol first))
      (runs ++ Run.outputs (keyStep pol k) (keyRuns pol k) st ops) now'
      (Run.exec (keyStep pol k) st ops) := by
  induction ops generalizing heard runs now st with
  | nil =>
      refine ⟨now, ?_⟩
      rw [Run.outputs, List.append_nil]
      exact h.congr ⟨fun hh => ⟨hh, .nil _ _ _⟩, fun hh => hh.1⟩
  | cons op rest ih =>
      rw [Run.along_cons] at hack
      have hchron' : Chronological rest := hchron.tail
      obtain ⟨hle, hnow'⟩ := hchron.clock hnow
      obtain ⟨now', hend⟩ := ih (hst.step op) (h.step hst hr hreset hle hack.1) hchron' hnow' hack.2
      refine ⟨now', ?_⟩
      rw [Run.outputs, ← List.append_assoc, Run.exec_cons]
      exact hend.congr (by rw [Run.along_cons, and_assoc])

/-- A tick at or after the due time leaves no incident waiting. -/
theorem escalated_of_due (hst : KeyOK k st) (hr : pol.rule k.rule = r) (hunacked : r.unackedS ≠ 0)
    {t : UInt64} (hdue : first.toNat + r.unackedS.toNat ≤ t.toNat) {inc : KgpIncident}
    (hinc : keyStep pol k st (.tick t) = some inc) (hfirst : inc.firstS = first)
    (hacked : inc.acked = false) : inc.escalated = true := by
  unfold keyStep at hinc
  rcases st with _ | old
  · exact absurd hinc (by simp [keyAct])
  obtain ⟨hused, hkey, -⟩ := hst old rfl
  rcases keyAct_tick_cases hused k t with ⟨-, heq⟩ | ⟨-, -, heq⟩ | ⟨-, hnotDue, heq⟩
  · rw [heq] at hinc
    exact absurd hinc (by simp)
  · rw [heq] at hinc
    rw [← Option.some.inj hinc]
  · rw [heq] at hinc
    obtain rfl : old = inc := Option.some.inj hinc
    have hrule : pol.rule old.rule = r := by
      rw [← hr, ← hkey]
      rfl
    have hage : t - old.firstS ≥ r.unackedS.toUInt64 := by
      have hle : old.firstS ≤ t := by
        rw [UInt64.le_iff_toNat_le, hfirst]
        omega
      rw [ge_iff_le, UInt64.le_iff_toNat_le, UInt32.toNat_toUInt64,
        UInt64.toNat_sub_of_le _ _ hle, hfirst]
      omega
    by_contra hesc
    simp [KgpIncident.overdue, hrule, hunacked, hacked, hesc, hage] at hnotDue

end Follow

/-! ### The engine

In the engine the incident of a key is its own machine, by the refinement, and the
calls for the key are those of the machine.  So the theorem about the machine is the
theorem.
-/

/--
An incident of an unacked rule, from the alert that begins it to the first tick at which
its escalation is due: `pre` is the run before, `mid` what happens in between.
-/
structure UnackedEpisode (pol : KgpPolicy) (pre : List EngOp) (now : UInt64) (al : KgpAlert)
    (mid : List EngOp) (t : UInt64) (ri : Nat) (r : KgpRule) : Prop where
  chron : Chronological (pre ++ .alert now al :: (mid ++ [.tick t]))
  fits : Run.Along (engStep pol) kgpInit (pre ++ .alert now al :: (mid ++ [.tick t])) (Fits pol)
  rule : pol.rules[ri]? = some r
  unacked : r.unackedS ≠ 0
  isMatch : ruleMatches r al = true
  -- there is no incident for this key yet, or it was acknowledged
  begins : ∀ inc, findIncident (Run.exec (engStep pol) kgpInit pre) (al.keyFor ri) = some inc →
    inc.acked = true
  notAcked : Run.Along (engStep pol)
    (engStep pol (Run.exec (engStep pol) kgpInit pre) (.alert now al)) mid
    fun e => NotAcked now (findIncident e (al.keyFor ri))
  early : ∀ s, .tick s ∈ mid → s.toNat < now.toNat + r.unackedS.toNat
  due : now.toNat + r.unackedS.toNat ≤ t.toNat

/-- The calls made since the incident began, up to and including that tick. -/
def episodeRuns (pol : KgpPolicy) (pre : List EngOp) (now : UInt64) (al : KgpAlert)
    (mid : List EngOp) (t : UInt64) : List KgpRun :=
  Run.outputs (engStep pol) (engRuns pol) (Run.exec (engStep pol) kgpInit pre)
    (.alert now al :: (mid ++ [.tick t]))

/-- No tick on the way finds the incident silent for its reset time before it is escalated. -/
def NeverSilent (pol : KgpPolicy) (pre : List EngOp) (now : UInt64) (al : KgpAlert)
    (mid : List EngOp) (t : UInt64) (ri : Nat) : Prop :=
  Run.Along (engStep pol) (engStep pol (Run.exec (engStep pol) kgpInit pre) (.alert now al))
    (mid ++ [.tick t]) fun e => HeardFrom pol now (findIncident e (al.keyFor ri))

section Engine

variable {pol : KgpPolicy} {r : KgpRule} {k : KgpKey} {first : UInt64} {runs : List KgpRun}

theorem escalatedIn_filter :
    EscalatedIn pol r k first (runs.filter (·.key = k)) ↔ EscalatedIn pol r k first runs := by
  refine ⟨fun h a ha => ?_, fun h a ha => ?_⟩
  · obtain ⟨run, hrun, hprops⟩ := h a ha
    exact ⟨run, List.mem_of_mem_filter hrun, hprops⟩
  · obtain ⟨run, hrun, haction, hkey, hrest⟩ := h a ha
    exact ⟨run, List.mem_filter.mpr ⟨hrun, by simpa using hkey⟩, haction, hkey, hrest⟩

/-- If there is anything to run, being quiet is not having escalated. -/
theorem QuietIn.not_escalatedIn (h : QuietIn first runs)
    (hact : HasAction pol.actions.length r.thenMask) : ¬ EscalatedIn pol r k first runs := by
  intro hesc
  obtain ⟨i, hi, hbit⟩ := hact
  have hmem : i ∈ maskActions pol r.thenMask := by
    simpa [maskActions] using ⟨hi, hbit⟩
  obtain ⟨run, hrun, -, -, htier, hfirst⟩ := hesc i hmem
  exact h run hrun htier hfirst

/-- The alert that begins an incident. -/
theorem Phase.begin {al : KgpAlert} (now : UInt64) {st : Option KgpIncident} (hst : KeyOK k st)
    (hrule : k.ruleFor pol al = some r) (hbegins : ∀ inc, st = some inc → inc.acked = true) :
    Phase pol r k now True (keyRuns pol k st (.alert now al)) now
      (keyStep pol k st (.alert now al)) := by
  obtain ⟨hk, -, -⟩ := ruleFor_eq_some.mp hrule
  have hold : ∀ inc, st = some inc → inc.used = true ∧ inc.key = al.keyFor k.rule :=
    fun inc hinc => ⟨(hst inc hinc).1, (hst inc hinc).2.1.trans hk⟩
  have hstart : episodeStart now st = now ∧ wasEscalated st = false := by
    rcases st with _ | inc
    · exact ⟨rfl, rfl⟩
    · have hacked := hbegins inc rfl
      simp [episodeStart, wasEscalated, hacked]
  have hcur := Current.alert pol r hold hstart.1 (UInt64.le_refl _)
  obtain ⟨-, -, hcases⟩ := alertIncident_cases pol r now hold
  rw [← hk] at hcur hcases
  unfold keyRuns keyStep
  rw [keyAct_alert hrule]
  rw [hstart.1, hstart.2] at hcases
  rcases hcases with ⟨hesc, htier⟩ | ⟨-, hesc, hdone⟩
  · exact .waiting _ rfl hcur hesc trivial (quietIn_of_tier htier)
  · exact .escalated _ rfl hcur hesc trivial hdone

/-- The same for the machine of one key. -/
theorem key_escalated_iff {al : KgpAlert} {now t : UInt64} {mid : List EngOp}
    {st : Option KgpIncident} (hst : KeyOK k st) (hrule : k.ruleFor pol al = some r)
    (hok : RuleOK pol.actions.length r) (hunacked : r.unackedS ≠ 0)
    (hbegins : ∀ inc, st = some inc → inc.acked = true)
    (hchron : Chronological (.alert now al :: (mid ++ [.tick t])))
    (hack : Run.Along (keyStep pol k) (keyStep pol k st (.alert now al)) mid (NotAcked now))
    (hdue : now.toNat + r.unackedS.toNat ≤ t.toNat) :
    EscalatedIn pol r k now (Run.outputs (keyStep pol k) (keyRuns pol k) st
        (.alert now al :: (mid ++ [.tick t]))) ↔
      Run.Along (keyStep pol k) (keyStep pol k st (.alert now al)) (mid ++ [.tick t])
        (HeardFrom pol now) := by
  obtain ⟨-, hr, -⟩ := ruleFor_eq_some.mp hrule
  have hbegin := Phase.begin now hst hrule hbegins
  have hst' : KeyOK k (keyStep pol k st (.alert now al)) := hst.step _
  have hchron' : Chronological (mid ++ [.tick t]) :=
    hchron.tail
  obtain ⟨now', hend⟩ :=
    hbegin.run hr hok.reset.1 hst' hchron' (hchron.first rfl) (hack.snoc trivial)
  rw [Run.outputs]
  rw [true_and] at hend
  cases hend with
  | waiting inc eq cur esc ok quiet =>
      -- the last tick would have escalated it
      rw [Run.exec_snoc] at eq
      have hmid : KeyOK k (Run.exec (keyStep pol k) (keyStep pol k st (.alert now al)) mid) :=
        Run.exec_invariant (fun _ op h => h.step op) hst' mid
      have hrule' : pol.rule k.rule = r := by
        rw [KgpPolicy.rule, List.getD_eq_getElem?_getD, hr, Option.getD_some]
      have := escalated_of_due hmid hrule' hunacked hdue eq cur.firstS cur.acked
      rw [esc] at this
      exact absurd this (by simp)
  | escalated inc eq cur esc ok done => exact iff_of_true done ok
  | gone past later outcome =>
      rcases outcome with ⟨ok, done⟩ | ⟨hnot, quiet⟩
      · exact iff_of_true done ok
      · exact iff_of_false (quiet.not_escalatedIn (hok.thenMask (Or.inr hunacked))) hnot

/-- And for the engine, which is the machine of that key when seen through it. -/
theorem UnackedEpisode.escalated_iff {pre mid : List EngOp} {now t : UInt64} {al : KgpAlert}
    {ri : Nat} (h : UnackedEpisode pol pre now al mid t ri r)
    (hrule : RuleOK pol.actions.length r) :
    EscalatedIn pol r (al.keyFor ri) now (episodeRuns pol pre now al mid t) ↔
      NeverSilent pol pre now al mid t ri := by
  set k := al.keyFor ri with hk
  set e := Run.exec (engStep pol) kgpInit pre with he
  have hok : EngineOK e := engineOK_run pol pre
  have hfits : Run.Along (engStep pol) e (.alert now al :: (mid ++ [.tick t])) (Fits pol) :=
    h.fits.right
  -- through the key of the incident, the engine is the machine of that key
  have hview := along_refines hok hfits k
  have hruns := (table_refines hok hfits k).2
  have hst : KeyOK k (findIncident e k) := fun inc hinc => hok.find hinc
  rw [Run.along_cons] at hview
  have hrest : Run.Along (engStep pol) (engStep pol e (.alert now al)) (mid ++ [.tick t])
      fun e op => findIncident (engStep pol e op) k = keyStep pol k (findIncident e k) op :=
    fun a op b hsplit => (hview.2 a op b hsplit).1
  have hack := (Run.along_view (findIncident · k) hrest.left).mp h.notAcked
  have hheard := Run.along_view (findIncident · k) (C := HeardFrom pol now) hrest
  unfold NeverSilent episodeRuns
  rw [← escalatedIn_filter, hruns, hheard]
  rw [hview.1.1] at hack ⊢
  exact key_escalated_iff hst (ruleFor_eq_some.mpr ⟨rfl, h.rule, h.isMatch⟩) hrule h.unacked
    h.begins h.chron.right hack h.due

/--
**When an unacknowledged incident is escalated.**  By the first tick at which its age is
due, the then-actions have been run for it if and only if no tick up to then found it
silent for its reset time.
-/
theorem escalated_iff_never_silent {text : CStr} {checkFs : Option KgpFs} {pol : KgpPolicy}
    (hpol : kgpParse text checkFs = .ok pol) {pre mid : List EngOp} {now t : UInt64}
    {al : KgpAlert} {ri : Nat} {r : KgpRule} (h : UnackedEpisode pol pre now al mid t ri r) :
    EscalatedIn pol r (al.keyFor ri) now (episodeRuns pol pre now al mid t) ↔
      NeverSilent pol pre now al mid t ri :=
  h.escalated_iff ((kgpParse_ok hpol).rules r (List.mem_of_getElem? h.rule))

end Engine

/-! ### Silent for longer than the reset time

With one alert and one tick the machine can be computed.  The default `reset=` is an
hour, so any `unacked=` above an hour is forgotten by the tick that should escalate
it.
-/

/-- A policy file with one rule that escalates what is unacknowledged for so many seconds. -/
def unackedText (seconds : String) : CStr :=
  str "action page /usr/bin/page\n"
    ++ (str "rule late do=page unacked=" ++ str seconds ++ str " then=page\n")

/-- The rule of that file, which has the default `reset=`. -/
def unackedRule (seconds : UInt32) : KgpRule :=
  { KgpRule.zero with
    name := str "late", throttleS := 60, doMask := 1, unackedS := seconds, thenMask := 1
    resetS := 3600 }

def unackedPolicy (seconds : UInt32) : KgpPolicy where
  actions := [⟨str "page", [str "/usr/bin/page"], 10⟩]
  rules := [unackedRule seconds]

def lateAlert : KgpAlert := ⟨kgAlertTextPatch, kgpCritical, 0, 0, 0, 0, []⟩

/-- What one alert leaves in an empty engine. -/
theorem find_lateAlert (seconds : UInt32) :
    findIncident (engStep (unackedPolicy seconds) kgpInit (.alert 0 lateAlert))
        (lateAlert.keyFor 0)
      = some (alertIncident (unackedPolicy seconds) 0 (unackedRule seconds) 0 lateAlert none).1 := by
  have hfit : Fits (unackedPolicy seconds) kgpInit (.alert 0 lateAlert) :=
    fits_init (by simp [unackedPolicy, kgpMaxIncidents]) 0 lateAlert
  have hrule : (lateAlert.keyFor 0).ruleFor (unackedPolicy seconds) lateAlert
      = some (unackedRule seconds) := ruleFor_eq_some.mpr ⟨rfl, rfl, rfl⟩
  rw [(engAct_refines engineOK_init hfit (lateAlert.keyFor 0)).1, keyStep, keyAct_alert hrule,
    findIncident_init]
  rfl

theorem unackedEpisode_late {seconds : UInt32} (hseconds : seconds ≠ 0) :
    UnackedEpisode (unackedPolicy seconds) [] 0 lateAlert [] seconds.toUInt64 0
      (unackedRule seconds) where
  chron := by simp [Chronological, EngOp.time]
  fits := .cons (fits_init (by simp [unackedPolicy, kgpMaxIncidents]) 0 lateAlert)
    (.cons trivial (.nil _ _ _))
  rule := rfl
  unacked := hseconds
  isMatch := rfl
  begins := fun inc hinc => by
    rw [Run.exec_nil, findIncident_init] at hinc
    exact absurd hinc (by simp)
  notAcked := .nil _ _ _
  early := fun s hs => absurd hs (by simp)
  due := by simp [unackedRule]

/-- With a single alert, the incident is heard of long enough if `unacked` is below `reset`. -/
theorem neverSilent_late (seconds : UInt32) :
    NeverSilent (unackedPolicy seconds) [] 0 lateAlert [] seconds.toUInt64 0 ↔
      seconds.toNat < 3600 := by
  have hsilent : ∀ inc : KgpIncident, inc.lastS = 0 → inc.rule = 0 →
      (inc.silent (unackedPolicy seconds) seconds.toUInt64 ↔ 3600 ≤ seconds.toNat) := by
    intro inc hlast hrule
    unfold KgpIncident.silent
    rw [hlast, hrule, UInt64.sub_zero, ge_iff_le, UInt64.le_iff_toNat_le, UInt32.toNat_toUInt64,
      UInt32.toNat_toUInt64]
    rfl
  unfold NeverSilent
  rw [List.nil_append, Run.along_cons, Run.exec_nil, find_lateAlert]
  refine ⟨fun h => ?_, fun h => ⟨?_, .nil _ _ _⟩⟩
  · have hheard := h.1 _ rfl rfl rfl
    rw [hsilent _ rfl rfl] at hheard
    omega
  · intro inc hinc _ _
    rw [← Option.some.inj hinc, hsilent _ rfl rfl]
    omega

theorem unackedPolicy_accepted_600 :
    kgpParse (unackedText "600") none = .ok (unackedPolicy 600) :=
  kgpParse_of_parsesTo (by decide +kernel)

theorem unackedPolicy_accepted_7200 :
    kgpParse (unackedText "7200") none = .ok (unackedPolicy 7200) :=
  kgpParse_of_parsesTo (by decide +kernel)

/-- Unacknowledged after ten minutes, and escalated. -/
theorem escalated_iff_never_silent_600 :
    EscalatedIn (unackedPolicy 600) (unackedRule 600) (lateAlert.keyFor 0) 0
      (episodeRuns (unackedPolicy 600) [] 0 lateAlert [] 600) :=
  (escalated_iff_never_silent unackedPolicy_accepted_600
    (unackedEpisode_late (by decide))).mpr ((neverSilent_late 600).mpr (by decide))

/-- Every unacknowledged incident is escalated by the first tick at which it is due. -/
def AlwaysEscalated : Prop :=
  ∀ (text : CStr) (checkFs : Option KgpFs) (pol : KgpPolicy), kgpParse text checkFs = .ok pol →
    ∀ (pre : List EngOp) (now : UInt64) (al : KgpAlert) (mid : List EngOp) (t : UInt64) (ri : Nat)
      (r : KgpRule), UnackedEpisode pol pre now al mid t ri r →
      EscalatedIn pol r (al.keyFor ri) now (episodeRuns pol pre now al mid t)

/--
`unacked=7200` with the default `reset=3600`: one alert, nobody acknowledges it, and the
tick that should escalate it forgets it.
-/
theorem reset_defeats_unacked : ¬ AlwaysEscalated := by
  intro h
  have hseconds : (7200 : UInt32) ≠ 0 := by decide
  have hepisode := unackedEpisode_late hseconds
  have hesc := h (unackedText "7200") none (unackedPolicy 7200) unackedPolicy_accepted_7200
    [] 0 lateAlert [] _ 0 _ hepisode
  have hrule : RuleOK _ (unackedRule 7200) :=
    (kgpParse_ok unackedPolicy_accepted_7200).rules _ (by simp [unackedPolicy])
  have hheard := (hepisode.escalated_iff hrule).mp hesc
  exact absurd ((neverSilent_late 7200).mp hheard) (by decide)

end KernelGuard
