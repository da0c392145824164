/-
The escalation engine refines its specification.

`table_refines` has already taken the table apart: what is left is one incident against
one episode.  `Simulates` relates the two.  The ring of the last 16 arrivals is the ring
of `Lib/Ring.lean`, whose history is the list of arrivals, and an accepted rule never
looks further back than that; the unsigned differences are differences, because nothing
comes from the future; and the counter counts, as long as it does not wrap around.

It does wrap around after 2^32 arrivals in one episode, and then an incident that
repeats is not escalated.
-/
import KernelGuard.Proofs.Incidents
import KernelGuard.Proofs.Accepted
import KernelGuard.Spec.Episodes
import KernelGuard.Lib.Ring
import Mathlib.Data.Set.Card

namespace KernelGuard

/-- A call of the `run` callback, with numbers in place of machine words. -/
def KgpRun.abs (run : KgpRun) : EpisodeRun :=
  ⟨run.action, run.rule, run.alert, run.tier, run.count.toNat, run.firstS.toNat⟩

/-- The incident of key `k` is a faithful record of the episode. -/
structure Simulates (k : KgpKey) (inc : KgpIncident) (ep : Episode) : Prop where
  rule : inc.rule = k.rule
  firstS : inc.firstS.toNat = ep.first
  lastS : inc.lastS.toNat = ep.latest
  lastRunS : inc.lastRunS.toNat = ep.lastRun
  lastSeq : inc.lastSeq = ep.last.seq
  count : inc.count.toNat = ep.count
  recent : Ring.Holds ep.count (fun i => (inc.recent i).toNat) ep.arrivals
  escalated : inc.escalated = ep.escalated
  acked : inc.acked = ep.acked
  last : inc.last = ep.last

/-- Nothing in the episode is later than `now`. -/
structure Episode.Past (now : Nat) (ep : Episode) : Prop where
  arrivals : ∀ a ∈ ep.arrivals, a ≤ now
  lastRun : ep.lastRun ≤ now

theorem Episode.Past.first {now : Nat} {ep : Episode} (h : ep.Past now) : ep.first ≤ now :=
  h.arrivals _ (List.head_mem _)

theorem Episode.Past.latest {now : Nat} {ep : Episode} (h : ep.Past now) : ep.latest ≤ now :=
  h.arrivals _ (List.getLast_mem _)

/-! ### Machine words

Times are unsigned and differences are compared with durations.  With the earlier
time first, the difference is the true one; that the earlier one is first is what
"nothing comes from the future" is for.
-/

/-- An unsigned difference against a duration, when the earlier time is the earlier one. -/
theorem le_elapsed_iff {now since : UInt64} {d : UInt32} (h : since.toNat ≤ now.toNat) :
    now - since ≥ d.toUInt64 ↔ since.toNat + d.toNat ≤ now.toNat := by
  rw [ge_iff_le, UInt64.le_iff_toNat_le, UInt32.toNat_toUInt64,
    UInt64.toNat_sub_of_le _ _ (UInt64.le_iff_toNat_le.mpr h)]
  omega

theorem elapsed_le_iff {now since : UInt64} {d : UInt32} (h : since.toNat ≤ now.toNat) :
    now - since ≤ d.toUInt64 ↔ now.toNat ≤ since.toNat + d.toNat := by
  rw [UInt64.le_iff_toNat_le, UInt32.toNat_toUInt64,
    UInt64.toNat_sub_of_le _ _ (UInt64.le_iff_toNat_le.mpr h)]
  omega

theorem seqCovered_iff (upToSeq seq : UInt32) :
    seqCovered upToSeq seq = true ↔ 0 ≤ (upToSeq - seq).toInt32 := by
  unfold seqCovered
  rw [decide_eq_true_eq, Int32.le_iff_toInt_le]
  generalize upToSeq - seq = x
  have hint : x.toInt32.toInt = x.toBitVec.toInt := rfl
  have hnat : x.toBitVec.toNat = x.toNat := rfl
  have hlt := x.toNat_lt
  rw [hint, BitVec.toInt_eq_toNat_cond, hnat]
  simp only [Int32.toInt_zero]
  split <;> omega

/-- Writing to a ring of times, seen as numbers. -/
theorem toNat_update (ring : Fin kgpMaxRepeat → UInt64) (i : Fin kgpMaxRepeat) (t : UInt64) :
    (fun j => (Function.update ring i t j).toNat)
      = Function.update (fun j => (ring j).toNat) i t.toNat := by
  funext j
  by_cases hj : j = i
  · subst hj
    rw [Function.update_self, Function.update_self]
  · rw [Function.update_of_ne hj, Function.update_of_ne hj]

/-! ### What is run

A call of the `run` callback has the action, the rule, the alert and three numbers,
and the two sides agree in all of them.
-/

section Sim

variable {pol : KgpPolicy} {k : KgpKey} {r : KgpRule} {now : UInt64} {al : KgpAlert}
  {inc : KgpIncident} {ep : Episode}

theorem Simulates.runMask (h : Simulates k inc ep) (mask : UInt32) (tier : Nat) :
    (runMask pol mask inc tier).map KgpRun.abs = ep.run pol k mask tier := by
  unfold KernelGuard.runMask Episode.run
  rw [List.map_map]
  refine List.map_congr_left fun i _ => ?_
  simp only [Function.comp_apply, KgpRun.abs, h.rule, h.last, h.count, h.firstS]

theorem Simulates.escalate (h : Simulates k inc ep) :
    Simulates k { inc with escalated := true } (ep.escalate pol k r).1 ∧
      (KernelGuard.runMask pol r.thenMask { inc with escalated := true } 1).map KgpRun.abs
        = (ep.escalate pol k r).2 := by
  have hsim : Simulates k { inc with escalated := true } (ep.escalate pol k r).1 :=
    { h with escalated := rfl }
  exact ⟨hsim, hsim.runMask r.thenMask 1⟩

/-! ### Arrivals

An arrival begins an episode or belongs to one, and the code tells the two apart by
whether the slot is in use.  In the second case the ring of arrival times overwrites
its oldest entry, and an accepted rule asks for at most as many arrivals as the ring
has.
-/

/-- The bookkeeping of an arrival that begins an episode, with the do-actions run. -/
theorem simulates_begin (ri : Nat) (now : UInt64) (al : KgpAlert) (old : KgpIncident) :
    Simulates (al.keyFor ri) { old.arrive ri now al true with lastRunS := now }
      { Episode.begin now.toNat al with lastRun := now.toNat } where
  rule := rfl
  firstS := rfl
  lastS := rfl
  lastRunS := rfl
  lastSeq := rfl
  count := rfl
  recent := by
    show Ring.Holds 1 (fun j => (Function.update KgpIncident.zero.recent
      (Fin.ofNat kgpMaxRepeat 0) now j).toNat) [now.toNat]
    rw [toNat_update]
    exact Ring.Holds.push (Ring.Holds.nil _ _) now.toNat
  escalated := rfl
  acked := rfl
  last := rfl

/-- The bookkeeping of an arrival that belongs to an episode, up to the 2^32-th. -/
theorem Simulates.again (h : Simulates k inc ep) (hcount : ep.count + 1 < 2 ^ 32) (ri : Nat)
    (now : UInt64) (al : KgpAlert) :
    Simulates k (inc.arrive ri now al false) (ep.again now.toNat al) where
  rule := h.rule
  firstS := by
    rw [show (ep.again now.toNat al).first = ep.first from List.head_append_left ep.nonempty]
    exact h.firstS
  lastS := List.getLast_concat.symm
  lastRunS := h.lastRunS
  lastSeq := rfl
  count := by
    show (inc.count + 1).toNat = (ep.arrivals ++ [now.toNat]).length
    have hlen : ep.arrivals.length = inc.count.toNat := h.count.symm
    have hlt : inc.count.toNat + 1 < 2 ^ 32 := by
      rw [h.count]
      exact hcount
    rw [UInt32.toNat_add, List.length_append, List.length_singleton, hlen]
    exact Nat.mod_eq_of_lt hlt
  recent := by
    show Ring.Holds (ep.arrivals ++ [now.toNat]).length
      (fun j => (Function.update inc.recent (Fin.ofNat kgpMaxRepeat inc.count.toNat) now j).toNat)
      (ep.arrivals ++ [now.toNat])
    rw [toNat_update, h.count]
    exact h.recent.push now.toNat
  escalated := h.escalated
  acked := h.acked
  last := rfl

theorem Simulates.runBase (h : Simulates k inc ep) (hpast : ep.lastRun ≤ now.toNat) :
    Simulates k (inc.runBase pol r now false).1 (ep.doActions pol k r now.toNat false).1 ∧
      (inc.runBase pol r now false).2.map KgpRun.abs
        = (ep.doActions pol k r now.toNat false).2 := by
  have hdue : now - inc.lastRunS ≥ r.throttleS.toUInt64 ↔
      ep.lastRun + r.throttleS.toNat ≤ now.toNat := by
    rw [le_elapsed_iff (by rw [h.lastRunS]; exact hpast), h.lastRunS]
  unfold KgpIncident.runBase Episode.doActions
  simp only [Bool.false_or, decide_eq_true_eq]
  by_cases hthrottle : ep.lastRun + r.throttleS.toNat ≤ now.toNat
  · rw [if_pos hthrottle, if_pos (hdue.mpr hthrottle)]
    have hsim : Simulates k { inc with lastRunS := now } { ep with lastRun := now.toNat } :=
      { h with lastRunS := rfl }
    exact ⟨hsim, hsim.runMask r.doMask 0⟩
  · rw [if_neg hthrottle, if_neg fun hcode => hthrottle (hdue.mp hcode)]
    exact ⟨h, rfl⟩

theorem nthLast_eq {n : Nat} (hpos : 0 < n) (hle : n ≤ ep.count) :
    ep.arrivals[ep.count - n]? = some (ep.nthLast n) := by
  have hlt : ep.count - n < ep.arrivals.length := by
    show ep.count - n < ep.count
    omega
  rw [Episode.nthLast, List.getD_eq_getElem?_getD, List.getElem?_eq_getElem hlt, Option.getD_some]

/-- The ring still has the arrival that an accepted rule asks for. -/
theorem Simulates.nth (h : Simulates k inc ep) {n : Nat} (hpos : 0 < n) (hn : n ≤ kgpMaxRepeat)
    (hle : n ≤ ep.count) :
    (inc.recent (Fin.ofNat kgpMaxRepeat (ep.count - n))).toNat = ep.nthLast n :=
  h.recent (ep.count - n) _ (nthLast_eq hpos hle) (by omega)

theorem Simulates.repeats_iff (h : Simulates k inc ep) (hnow : ep.latest = now.toNat)
    (hpast : ep.Past now.toNat) (hpos : 0 < r.repeatN.toNat)
    (hmax : r.repeatN.toNat ≤ kgpMaxRepeat) :
    inc.repeats r now = ep.burst r.repeatN.toNat r.repeatWindowS.toNat := by
  have hcount : inc.count ≥ r.repeatN ↔ r.repeatN.toNat ≤ ep.count := by
    rw [ge_iff_le, UInt32.le_iff_toNat_le, h.count]
  unfold KgpIncident.repeats Episode.burst
  rw [Bool.eq_iff_iff, Bool.and_eq_true, Bool.and_eq_true, decide_eq_true_eq, decide_eq_true_eq,
    decide_eq_true_eq, decide_eq_true_eq, hcount]
  refine and_congr_right fun hle => ?_
  have hidx : (inc.count - r.repeatN).toNat = ep.count - r.repeatN.toNat := by
    rw [UInt32.toNat_sub_of_le _ _ (hcount.mpr hle), h.count]
  have hnth := h.nth hpos hmax hle
  have hmem : ep.nthLast r.repeatN.toNat ∈ ep.arrivals :=
    List.mem_of_getElem? (nthLast_eq hpos hle)
  rw [hidx, elapsed_le_iff (by rw [hnth]; exact hpast.arrivals _ hmem), hnth, hnow]

theorem Simulates.runRepeat (h : Simulates k inc ep) (pol : KgpPolicy)
    (hnow : ep.latest = now.toNat) (hpast : ep.Past now.toNat) (hr : OptionsOK r) :
    Simulates k (inc.runRepeat pol r now).1 (ep.escalateBurst pol k r).1 ∧
      (inc.runRepeat pol r now).2.map KgpRun.abs = (ep.escalateBurst pol k r).2 := by
  have hcond : (r.repeatN ≠ 0 && !inc.escalated && inc.repeats r now)
      = (r.repeatN ≠ 0 && !ep.escalated
        && ep.burst r.repeatN.toNat r.repeatWindowS.toNat) := by
    rw [h.escalated]
    by_cases hne : r.repeatN = 0
    · simp [hne]
    · obtain ⟨htwo, hmax⟩ := hr.repeatN.resolve_left hne
      rw [h.repeats_iff hnow hpast (by omega) hmax]
  rw [runRepeat_eq, Episode.escalateBurst, hcond]
  split
  · exact h.escalate
  · exact ⟨h, rfl⟩

end Sim

/-! ### Nothing comes from the future

This is about the specification alone: the times in an episode are those of the
operations so far.
-/

section Past

variable {pol : KgpPolicy} {k : KgpKey} {r : KgpRule} {t now : Nat} {al : KgpAlert}
  {ep : Episode} {old : Option Episode}

theorem episodeArrive_past (ht : t ≤ now) (h : ∀ ep, old = some ep → ep.Past now) :
    (episodeArrive t al old).Past now := by
  have hbegin : (Episode.begin t al).Past now :=
    ⟨fun a ha => Nat.le_trans (Nat.le_of_eq (List.mem_singleton.mp ha)) ht, ht⟩
  unfold episodeArrive
  split
  · next ep =>
      split
      · exact hbegin
      · have hep := h ep rfl
        refine ⟨fun a ha => ?_, hep.lastRun⟩
        rcases List.mem_append.mp ha with ha | ha
        · exact hep.arrivals a ha
        · exact Nat.le_trans (Nat.le_of_eq (List.mem_singleton.mp ha)) ht
  · exact hbegin

theorem episodeArrive_latest : (episodeArrive t al old).latest = t := by
  unfold episodeArrive
  split
  · split
    · rfl
    · exact List.getLast_concat
  · rfl

/-- The do-actions leave the arrivals alone. -/
theorem doActions_fst (begins : Bool) :
    (ep.doActions pol k r t begins).1 = ep ∨
      (ep.doActions pol k r t begins).1 = { ep with lastRun := t } := by
  unfold Episode.doActions
  split
  · exact Or.inr rfl
  · exact Or.inl rfl

theorem Episode.Past.doActions (h : ep.Past now) (ht : t ≤ now) (begins : Bool) :
    (ep.doActions pol k r t begins).1.Past now := by
  rcases doActions_fst begins with heq | heq
  · rw [heq]
    exact h
  · rw [heq]
    exact ⟨h.arrivals, ht⟩

theorem doActions_latest (begins : Bool) :
    (ep.doActions pol k r t begins).1.latest = ep.latest := by
  rcases doActions_fst begins with heq | heq
  · rw [heq]
  · rw [heq]
    rfl

theorem Episode.Past.escalateBurst (h : ep.Past now) : (ep.escalateBurst pol k r).1.Past now := by
  unfold Episode.escalateBurst
  split
  · exact ⟨h.arrivals, h.lastRun⟩
  · exact h

theorem episodeTick_fst {ep' : Episode} (h : (episodeTick pol k t ep).1 = some ep') :
    ep'.arrivals = ep.arrivals ∧ ep'.lastRun = ep.lastRun := by
  unfold episodeTick at h
  simp only at h
  split at h
  · exact absurd h (by simp)
  · split at h
    · rw [← Option.some.inj h]
      exact ⟨rfl, rfl⟩
    · rw [← Option.some.inj h]
      exact ⟨rfl, rfl⟩

theorem episodeAct_past {op : EngOp} (hop : ∀ t, op.time = some t → t.toNat ≤ now)
    (h : ∀ ep, old = some ep → ep.Past now) :
    ∀ ep, (episodeAct pol k old op).1 = some ep → ep.Past now := by
  intro ep hep
  cases op with
  | alert t al =>
      have ht := hop t rfl
      simp only [episodeAct] at hep
      split at hep
      · rw [← Option.some.inj hep]
        exact ((episodeArrive_past ht h).doActions ht _).escalateBurst
      · exact h ep hep
  | tick t =>
      simp only [episodeAct] at hep
      split at hep
      · next ep₀ =>
          obtain ⟨harr, hrun⟩ := episodeTick_fst hep
          have hold := h ep₀ rfl
          exact ⟨by rw [harr]; exact hold.arrivals, by rw [hrun]; exact hold.lastRun⟩
      · exact absurd hep (by simp)
  | ack upToSeq =>
      obtain ⟨ep₀, hep₀, rfl⟩ := Option.map_eq_some_iff.mp hep
      have hold := h ep₀ hep₀
      unfold episodeAck
      split
      · exact ⟨hold.arrivals, hold.lastRun⟩
      · exact hold

/-- Nothing in the specification is later than the last operation. -/
theorem spec_past (pol : KgpPolicy) (now : UInt64) (ops : List EngOp)
    (hops : ∀ o ∈ ops, ∀ t, o.time = some t → t ≤ now) :
    ∀ k ep, Run.exec (specStep pol) specInit ops k = some ep → ep.Past now.toNat := by
  refine Run.exec_invariant_of (P := fun s : Spec => ∀ k ep, s k = some ep → ep.Past now.toNat)
    (C := fun _ o => ∀ t, o.time = some t → t.toNat ≤ now.toNat)
    (fun s o h ho k => episodeAct_past ho (h k)) ?_ ops ?_
  · intro k ep hep
    exact absurd hep (by simp [specInit])
  · intro pre o post hsplit t ht
    exact UInt64.le_iff_toNat_le.mp (hops o (by simp [hsplit]) t ht)

end Past

/-! ### One operation, one key

The simulation is per key.  Each kind of operation has a lemma, from `Simulates`
before to `Simulates` after with the same calls in between, and only the arrival
needs the bound on the counter.
-/

section Step

variable {pol : KgpPolicy} {k : KgpKey} {r : KgpRule} {now : UInt64} {al : KgpAlert}
  {st : Option KgpIncident} {old : Option Episode}

/-- The bookkeeping of an arrival and its do-actions. -/
theorem simulates_base (pol : KgpPolicy) (r : KgpRule) (h : Option.Rel (Simulates k) st old)
    (hk : k = al.keyFor k.rule) (hpast : ∀ ep, old = some ep → ep.Past now.toNat)
    (hcount : ∀ ep, old = some ep → ep.acked = false → ep.count + 1 < 2 ^ 32) :
    let fresh := st.elim true (·.acked)
    let base := ((st.getD KgpIncident.zero).arrive k.rule now al fresh).runBase pol r now fresh
    let spec := (episodeArrive now.toNat al old).doActions pol k r now.toNat (beginsEpisode old)
    Simulates k base.1 spec.1 ∧ base.2.map KgpRun.abs = spec.2 := by
  have hbegin : ∀ inc : KgpIncident,
      Simulates k ((inc.arrive k.rule now al true).runBase pol r now true).1
          ((Episode.begin now.toNat al).doActions pol k r now.toNat true).1 ∧
        ((inc.arrive k.rule now al true).runBase pol r now true).2.map KgpRun.abs
          = ((Episode.begin now.toNat al).doActions pol k r now.toNat true).2 := by
    intro inc
    have hsim := simulates_begin k.rule now al inc
    rw [← hk] at hsim
    exact ⟨hsim, hsim.runMask r.doMask 0⟩
  cases h with
  | none => exact hbegin KgpIncident.zero
  | @some inc ep hsim =>
      simp only [Option.elim_some, Option.getD_some, beginsEpisode, episodeArrive, hsim.acked]
      cases hacked : ep.acked with
      | true => exact hbegin inc
      | false =>
          have hagain := hsim.again (hcount ep rfl hacked) k.rule now al
          exact hagain.runBase (hpast ep rfl).lastRun

/-- An arrival. -/
theorem simulates_alert (h : Option.Rel (Simulates k) st old) (hk : k = al.keyFor k.rule)
    (hr : OptionsOK r) (hpast : ∀ ep, old = some ep → ep.Past now.toNat)
    (hcount : ∀ ep, old = some ep → ep.acked = false → ep.count + 1 < 2 ^ 32) :
    Simulates k (alertIncident pol k.rule r now al st).1
        (episodeAlert pol k r now.toNat al old).1 ∧
      (alertIncident pol k.rule r now al st).2.map KgpRun.abs
        = (episodeAlert pol k r now.toNat al old).2 := by
  obtain ⟨hbase, hbaseRuns⟩ := simulates_base pol r h hk hpast hcount
  have harrive : (episodeArrive now.toNat al old).Past now.toNat :=
    episodeArrive_past (Nat.le_refl _) hpast
  obtain ⟨hesc, hescRuns⟩ := hbase.runRepeat pol
    ((doActions_latest _).trans episodeArrive_latest) (harrive.doActions (Nat.le_refl _) _) hr
  refine ⟨hesc, ?_⟩
  unfold alertIncident episodeAlert
  simp only
  rw [List.map_append, hbaseRuns, hescRuns]

/-- A tick. -/
theorem simulates_tick {inc : KgpIncident} {ep : Episode} (h : Simulates k inc ep)
    (hused : inc.used = true) (hpast : ep.Past now.toNat) :
    Option.Rel (Simulates k) (keyStep pol k (some inc) (.tick now))
        (episodeTick pol k now.toNat ep).1 ∧
      (keyRuns pol k (some inc) (.tick now)).map KgpRun.abs
        = (episodeTick pol k now.toNat ep).2 := by
  have hsilent : inc.silent pol now ↔
      ep.latest + (pol.rule k.rule).resetS.toNat ≤ now.toNat := by
    unfold KgpIncident.silent
    rw [h.rule, le_elapsed_iff (by rw [h.lastS]; exact hpast.latest), h.lastS]
  have hoverdue : inc.overdue pol now
      = ((pol.rule k.rule).unackedS ≠ 0 && !ep.acked && !ep.escalated
        && ep.first + (pol.rule k.rule).unackedS.toNat ≤ now.toNat) := by
    have hage : now - inc.firstS ≥ (pol.rule k.rule).unackedS.toUInt64 ↔
        ep.first + (pol.rule k.rule).unackedS.toNat ≤ now.toNat := by
      rw [le_elapsed_iff (by rw [h.firstS]; exact hpast.first), h.firstS]
    unfold KgpIncident.overdue
    rw [h.rule, h.acked, h.escalated, decide_eq_decide.mpr hage]
  unfold keyStep keyRuns episodeTick
  rcases keyAct_tick_cases hused k now with ⟨hs, heq⟩ | ⟨hs, hdue, heq⟩ | ⟨hs, hdue, heq⟩
  · rw [heq]
    simp only
    rw [if_pos (hsilent.mp hs)]
    exact ⟨.none, rfl⟩
  · rw [heq]
    simp only
    rw [hoverdue] at hdue
    have hrule : pol.rule inc.rule = pol.rule k.rule := by rw [h.rule]
    rw [if_neg fun hspec => hs (hsilent.mpr hspec), if_pos hdue, hrule]
    exact ⟨.some h.escalate.1, h.escalate.2⟩
  · rw [heq]
    simp only
    rw [hoverdue] at hdue
    rw [if_neg fun hspec => hs (hsilent.mpr hspec), if_neg (by rw [hdue]; simp)]
    exact ⟨.some h, rfl⟩

/-- An acknowledgement. -/
theorem simulates_ack (h : Option.Rel (Simulates k) st old) (upToSeq : UInt32) :
    Option.Rel (Simulates k) (keyStep pol k st (.ack upToSeq)) (old.map (episodeAck upToSeq)) := by
  cases h with
  | none => exact .none
  | @some inc ep hsim =>
      refine .some ?_
      unfold episodeAck
      beta_reduce
      have hcov := seqCovered_iff upToSeq ep.last.seq
      rw [← hsim.lastSeq] at hcov ⊢
      by_cases hseq : seqCovered upToSeq inc.lastSeq = true
      · rw [if_pos hseq, if_pos (hcov.mp hseq)]
        exact { hsim with acked := rfl }
      · rw [if_neg hseq, if_neg fun hspec => hseq (hcov.mpr hspec)]
        exact hsim

theorem episodeAlert_arrivals (pol : KgpPolicy) (k : KgpKey) (r : KgpRule) (t : Nat)
    (al : KgpAlert) (old : Option Episode) :
    (episodeAlert pol k r t al old).1.arrivals = (episodeArrive t al old).arrivals := by
  unfold episodeAlert Episode.escalateBurst
  simp only
  rcases doActions_fst (beginsEpisode old) with heq | heq
  · rw [heq]
    split <;> rfl
  · rw [heq]
    split <;> rfl

/-- One operation. -/
theorem simulates_step (hpol : PolicyOK pol) {op : EngOp} (h : Option.Rel (Simulates k) st old)
    (hused : ∀ inc, st = some inc → inc.used = true)
    (hpast : ∀ t, op.time = some t → ∀ ep, old = some ep → ep.Past t.toNat)
    (hcount : ∀ ep, (episodeAct pol k old op).1 = some ep → ep.count < 2 ^ 32) :
    Option.Rel (Simulates k) (keyStep pol k st op) (episodeAct pol k old op).1 ∧
      (keyRuns pol k st op).map KgpRun.abs = (episodeAct pol k old op).2 := by
  cases op with
  | alert now al =>
      cases hrule : k.ruleFor pol al with
      | none =>
          simp only [keyStep, keyRuns, keyAct, episodeAct, hrule]
          exact ⟨h, rfl⟩
      | some r =>
          obtain ⟨hk, hr, -⟩ := ruleFor_eq_some.mp hrule
          simp only [keyStep, keyRuns, keyAct, episodeAct, hrule] at hcount ⊢
          have hoptions := (hpol.rules r (List.mem_of_getElem? hr)).toOptionsOK
          have hcount' : ∀ ep, old = some ep → ep.acked = false → ep.count + 1 < 2 ^ 32 := by
            intro ep hep hacked
            have hnew := hcount _ rfl
            unfold Episode.count at hnew ⊢
            rw [episodeAlert_arrivals, hep] at hnew
            simpa [episodeArrive, hacked, Episode.again] using hnew
          obtain ⟨hsim, hruns⟩ := simulates_alert h hk hoptions (hpast now rfl) hcount'
          exact ⟨.some hsim, hruns⟩
  | tick now =>
      cases h with
      | none => exact ⟨.none, rfl⟩
      | @some inc ep hsim => exact simulates_tick hsim (hused inc rfl) (hpast now rfl ep rfl)
  | ack upToSeq => exact ⟨simulates_ack h upToSeq, rfl⟩

end Step

/-! ### Whole runs

The table of the engine needs room, which is stated over the specification: at most
64 live episodes.  That the engine then has room is part of the induction, since its
live incidents are the live episodes so far.
-/

theorem isSome_of_rel {k : KgpKey} {st : Option KgpIncident} {old : Option Episode}
    (h : Option.Rel (Simulates k) st old) : st.isSome = old.isSome := by
  cases h with
  | none => rfl
  | some _ => rfl

/-- The incidents that are live after an alert. -/
theorem mem_live_alert {pol : KgpPolicy} {s : Spec} {now : UInt64} {al : KgpAlert} {k : KgpKey} :
    k ∈ (specStep pol s (.alert now al)).live ↔ k ∈ s.live ∨ k ∈ matchingKeys pol al := by
  rw [← ruleFor_isSome_iff]
  unfold Spec.live specStep
  simp only [Set.mem_ofPred_eq]
  cases hrule : k.ruleFor pol al with
  | none => simp [episodeAct, hrule]
  | some r => simp [episodeAct, hrule]

/-- If the specification has at most 64 incidents after the alert, the table has room for it. -/
theorem fits_of_live {pol : KgpPolicy} {e : KgpEngine} {s : Spec} {op : EngOp}
    (hrel : ∀ k, Option.Rel (Simulates k) (findIncident e k) (s k))
    (hlive : (specStep pol s op).live.encard ≤ kgpMaxIncidents) : Fits pol e op := by
  cases op with
  | alert now al =>
      have heq : (↑(liveKeys e ∪ (matchingKeys pol al).toFinset) : Set KgpKey)
          = (specStep pol s (.alert now al)).live := by
        ext k
        rw [mem_live_alert, Finset.mem_coe, Finset.mem_union, mem_liveKeys_iff_find,
          List.mem_toFinset, isSome_of_rel (hrel k)]
        rfl
      rw [← heq, Set.encard_coe_eq_coe_finsetCard] at hlive
      exact ENat.natCast_le_natCast.mp hlive
  | tick now => trivial
  | ack upToSeq => trivial

/-- The engine and the specification after the same operations. -/
def Agree (pol : KgpPolicy) (ops : List EngOp) : Prop :=
  ∀ k, Option.Rel (Simulates k) (findIncident (Run.exec (engStep pol) kgpInit ops) k)
    (Run.exec (specStep pol) specInit ops k)

/-- For every incident, the engine runs what the specification runs at the next operation. -/
def SameRuns (pol : KgpPolicy) (ops : List EngOp) (op : EngOp) : Prop :=
  ∀ k, ((engRuns pol (Run.exec (engStep pol) kgpInit ops) op).filter (·.key = k)).map KgpRun.abs
    = specRuns pol (Run.exec (specStep pol) specInit ops) op k

theorem agree_nil (pol : KgpPolicy) : Agree pol [] := by
  intro k
  rw [Run.exec_nil, findIncident_init]
  exact .none

theorem agree_snoc {pol : KgpPolicy} (hpol : PolicyOK pol) {ops : List EngOp} {op : EngOp}
    (hchron : Chronological (ops ++ [op])) (hagree : Agree pol ops)
    (hlive : (Run.exec (specStep pol) specInit (ops ++ [op])).live.encard ≤ kgpMaxIncidents)
    (hcount : ∀ k ep, Run.exec (specStep pol) specInit (ops ++ [op]) k = some ep →
      ep.count < 2 ^ 32) :
    Agree pol (ops ++ [op]) ∧ SameRuns pol ops op := by
  have hok := engineOK_run pol ops
  rw [Run.exec_snoc] at hlive hcount
  have hfit : Fits pol _ op := fits_of_live hagree hlive
  have hstep : ∀ k, Option.Rel (Simulates k)
        (keyStep pol k (findIncident (Run.exec (engStep pol) kgpInit ops) k) op)
        (episodeAct pol k (Run.exec (specStep pol) specInit ops k) op).1 ∧
      (keyRuns pol k (findIncident (Run.exec (engStep pol) kgpInit ops) k) op).map KgpRun.abs
        = (episodeAct pol k (Run.exec (specStep pol) specInit ops k) op).2 := by
    intro k
    refine simulates_step hpol (hagree k) (fun inc hinc => (hok.find hinc).1) ?_ (hcount k)
    intro t ht
    exact spec_past pol t ops (hchron.last ht) k
  refine ⟨?_, ?_⟩
  · intro k
    rw [Run.exec_snoc, Run.exec_snoc, (engAct_refines hok hfit k).1]
    exact (hstep k).1
  · intro k
    rw [(engAct_refines hok hfit k).2]
    exact (hstep k).2

/-- At most 64 incidents are ever live in the specification. -/
def FewLive (pol : KgpPolicy) (ops : List EngOp) : Prop :=
  ∀ pre, pre <+: ops → (Run.exec (specStep pol) specInit pre).live.encard ≤ kgpMaxIncidents

/-- No episode has 2^32 arrivals. -/
def CountsFit (pol : KgpPolicy) (ops : List EngOp) : Prop :=
  ∀ pre, pre <+: ops → ∀ k ep, Run.exec (specStep pol) specInit pre k = some ep →
    ep.count < 2 ^ 32

/-- In every state of the run the two agree, and they run the same at every operation. -/
structure Refines (pol : KgpPolicy) (ops : List EngOp) : Prop where
  states : ∀ pre, pre <+: ops → Agree pol pre
  runs : ∀ pre op, pre ++ [op] <+: ops → SameRuns pol pre op

theorem agree_run {pol : KgpPolicy} (hpol : PolicyOK pol) {ops : List EngOp}
    (hchron : Chronological ops) (hlive : FewLive pol ops) (hcount : CountsFit pol ops) :
    Agree pol ops := by
  induction ops using List.reverseRecOn with
  | nil => exact agree_nil pol
  | append_singleton ops op ih =>
      have hpre : ∀ pre, pre <+: ops → pre <+: ops ++ [op] :=
        fun pre h => h.trans (List.prefix_append _ _)
      have hagree := ih hchron.left (fun pre h => hlive pre (hpre pre h))
        fun pre h => hcount pre (hpre pre h)
      exact (agree_snoc hpol hchron hagree (hlive _ (List.prefix_refl _))
        (hcount _ (List.prefix_refl _))).1

theorem Chronological.of_prefix {ops pre : List EngOp} (h : Chronological ops)
    (hpre : pre <+: ops) : Chronological pre := by
  obtain ⟨post, rfl⟩ := hpre
  exact h.left

theorem refines_of_ok {pol : KgpPolicy} (hpol : PolicyOK pol) {ops : List EngOp}
    (hchron : Chronological ops) (hlive : FewLive pol ops) (hcount : CountsFit pol ops) :
    Refines pol ops := by
  have hstates : ∀ pre, pre <+: ops → Agree pol pre := by
    intro pre hpre
    exact agree_run hpol (hchron.of_prefix hpre) (fun p hp => hlive p (hp.trans hpre))
      fun p hp => hcount p (hp.trans hpre)
  refine ⟨hstates, ?_⟩
  intro pre op hpre
  have hagree := hstates pre ((List.prefix_append pre [op]).trans hpre)
  exact (agree_snoc hpol (hchron.of_prefix hpre) hagree (hlive _ hpre) (hcount _ hpre)).2

/--
**The engine refines its specification.**  For an accepted policy and non-decreasing
times, as long as at most 64 incidents are live and no episode has 2^32 arrivals.
-/
theorem engine_refines_spec {text : CStr} {checkFs : Option KgpFs} {pol : KgpPolicy}
    (hpol : kgpParse text checkFs = .ok pol) {ops : List EngOp} (hchron : Chronological ops)
    (hlive : FewLive pol ops) (hcount : CountsFit pol ops) : Refines pol ops :=
  refines_of_ok (kgpParse_ok hpol) hchron hlive hcount

/-! ### Simple bounds on a run

The two conditions of the theorem can be had from the length of the run and from the
keys of its alerts.
-/

theorem episodeArrive_count_le (t : Nat) (al : KgpAlert) {n : Nat} {old : Option Episode}
    (h : ∀ ep, old = some ep → ep.count ≤ n) : (episodeArrive t al old).count ≤ n + 1 := by
  unfold episodeArrive
  split
  · next ep =>
      split
      · exact Nat.le_add_left 1 n
      · have hep := h ep rfl
        simpa [Episode.count, Episode.again] using hep
  · exact Nat.le_add_left 1 n

/-- An episode has no more arrivals than there were operations. -/
theorem spec_count_le (pol : KgpPolicy) (ops : List EngOp) :
    ∀ k ep, Run.exec (specStep pol) specInit ops k = some ep → ep.count ≤ ops.length := by
  induction ops using List.reverseRecOn with
  | nil =>
      intro k ep hep
      exact absurd hep (by simp [specInit])
  | append_singleton ops op ih =>
      intro k ep hep
      rw [Run.exec_snoc, specStep] at hep
      rw [List.length_append, List.length_singleton]
      cases op with
      | alert now al =>
          simp only [episodeAct] at hep
          split at hep
          · rw [← Option.some.inj hep, Episode.count, episodeAlert_arrivals]
            exact episodeArrive_count_le _ al (ih k)
          · exact Nat.le_succ_of_le (ih k ep hep)
      | tick now =>
          simp only [episodeAct] at hep
          split at hep
          · next ep₀ hep₀ =>
              rw [Episode.count, (episodeTick_fst hep).1]
              exact Nat.le_succ_of_le (ih k ep₀ hep₀)
          · exact absurd hep (by simp)
      | ack upToSeq =>
          obtain ⟨ep₀, hep₀, rfl⟩ := Option.map_eq_some_iff.mp hep
          have hold := Nat.le_succ_of_le (ih k ep₀ hep₀)
          unfold episodeAck
          split
          · exact hold
          · exact hold

theorem countsFit_of_length (pol : KgpPolicy) {ops : List EngOp} (h : ops.length < 2 ^ 32) :
    CountsFit pol ops := by
  intro pre hpre k ep hep
  have hle := spec_count_le pol pre k ep hep
  have hlen := hpre.length_le
  omega

theorem isSome_of_tick {pol : KgpPolicy} {k : KgpKey} {now : UInt64} {old : Option Episode}
    (h : (episodeAct pol k old (.tick now)).1.isSome = true) : old.isSome = true := by
  cases old with
  | none => exact h
  | some ep => rfl

/-- An incident is only live if one of the alerts belongs to it. -/
theorem spec_live_subset (pol : KgpPolicy) (ops : List EngOp) :
    ∀ k ∈ (Run.exec (specStep pol) specInit ops).live,
      ∃ now al, EngOp.alert now al ∈ ops ∧ k ∈ matchingKeys pol al := by
  induction ops using List.reverseRecOn with
  | nil =>
      intro k hk
      exact absurd hk (by simp [Spec.live, specInit])
  | append_singleton ops op ih =>
      intro k hk
      have hold : k ∈ (Run.exec (specStep pol) specInit ops).live →
          ∃ now al, EngOp.alert now al ∈ ops ++ [op] ∧ k ∈ matchingKeys pol al := by
        intro hk
        obtain ⟨now, al, hmem, hkey⟩ := ih k hk
        exact ⟨now, al, List.mem_append_left _ hmem, hkey⟩
      rw [Run.exec_snoc] at hk
      cases op with
      | alert now al =>
          rcases mem_live_alert.mp hk with hk | hk
          · exact hold hk
          · exact ⟨now, al, by simp, hk⟩
      | tick now => exact hold (isSome_of_tick hk)
      | ack upToSeq =>
          refine hold ?_
          have hmap : ((Run.exec (specStep pol) specInit ops k).map (episodeAck upToSeq)).isSome
            = true := hk
          rw [Option.isSome_map] at hmap
          exact hmap

/-! ### A counter that wraps around

The run is far too long to be computed.  It is described by an invariant of the
specification in the number of alerts so far, and the engine is only looked at once,
at the wrap.
-/

/-- A policy file with a rule that escalates two arrivals within one second. -/
def oftenText : CStr :=
  str "action page /usr/bin/page\n" ++ str "rule often do=page repeat=2/1 then=page\n"

def oftenRule : KgpRule :=
  { KgpRule.zero with
    name := str "often", throttleS := 60, doMask := 1, repeatN := 2, repeatWindowS := 1
    thenMask := 1, resetS := 3600 }

def oftenPolicy : KgpPolicy where
  actions := [⟨str "page", [str "/usr/bin/page"], 10⟩]
  rules := [oftenRule]

def oftenAlert : KgpAlert := ⟨kgAlertTextPatch, kgpCritical, 0, 0, 0, 0, []⟩

theorem oftenPolicy_accepted : kgpParse oftenText none = .ok oftenPolicy :=
  kgpParse_of_parsesTo (by decide +kernel)

theorem often_ruleFor :
    (oftenAlert.keyFor 0).ruleFor oftenPolicy oftenAlert = some oftenRule :=
  ruleFor_eq_some.mpr ⟨rfl, rfl, rfl⟩

/-- However often the alert comes, there is one incident. -/
theorem often_fewLive {ops : List EngOp}
    (hops : ∀ now al, EngOp.alert now al ∈ ops → al = oftenAlert) : FewLive oftenPolicy ops := by
  intro pre hpre
  have hsub : (Run.exec (specStep oftenPolicy) specInit pre).live ⊆ {oftenAlert.keyFor 0} := by
    intro k hk
    obtain ⟨now, al, hmem, hkey⟩ := spec_live_subset oftenPolicy pre k hk
    rw [hops now al (hpre.subset hmem)] at hkey
    obtain ⟨ri, r, hr, -, rfl⟩ := mem_matchingKeys.mp hkey
    have hri : ri = 0 := by
      have := (List.getElem?_eq_some_iff.mp hr).1
      simpa [oftenPolicy] using this
    rw [hri]
    rfl
  refine (Set.encard_le_encard hsub).trans ?_
  rw [Set.encard_singleton]
  exact Nat.one_le_cast.mpr (by decide)

/-- Two arrivals within a second are escalated, as the specification says. -/
theorem engine_refines_spec_twice :
    Refines oftenPolicy [.alert 5 oftenAlert, .alert 6 oftenAlert, .tick 7] := by
  refine engine_refines_spec oftenPolicy_accepted (by decide) (often_fewLive ?_)
    (countsFit_of_length _ (by decide))
  intro now al hmem
  simp only [List.mem_cons, EngOp.alert.injEq, List.not_mem_nil, reduceCtorEq, or_false] at hmem
  rcases hmem with ⟨-, rfl⟩ | ⟨-, rfl⟩
  · rfl
  · rfl

/-- The alert, every other second, `n` times. -/
def steady (n : Nat) : List EngOp :=
  (List.range n).map fun i => .alert (UInt64.ofNat (2 * i)) oftenAlert

theorem steady_succ (n : Nat) :
    steady (n + 1) = steady n ++ [.alert (UInt64.ofNat (2 * n)) oftenAlert] := by
  simp [steady, List.range_succ]

/-- The episode after `n` of them. -/
structure Steady (n : Nat) (ep : Episode) : Prop where
  arrivals : ep.arrivals = (List.range n).map (2 * ·)
  escalated : ep.escalated = false
  acked : ep.acked = false

theorem Steady.not_burst {n : Nat} {ep : Episode} (h : Steady (n + 1) ep) :
    ep.burst 2 1 = false := by
  have hcount : ep.count = n + 1 := by
    simp [Episode.count, h.arrivals]
  have hlatest : ep.latest = 2 * n := by
    have hlast : ep.arrivals.getLast? = some ep.latest := List.getLast?_eq_some_getLast _
    rw [h.arrivals, List.range_succ, List.map_append] at hlast
    simpa using hlast.symm
  unfold Episode.burst
  by_cases hle : 2 ≤ ep.count
  · have hnth := nthLast_eq (by decide : 0 < 2) hle
    rw [h.arrivals, hcount, List.getElem?_map, List.getElem?_range (by omega)] at hnth
    simp only [Option.map_some, Option.some.injEq] at hnth
    rw [hlatest, ← hnth]
    simp
    omega
  · simp [hle]

theorem Steady.doActions {n t : Nat} {ep : Episode} (h : Steady n ep) (pol : KgpPolicy)
    (k : KgpKey) (r : KgpRule) (begins : Bool) :
    Steady n (ep.doActions pol k r t begins).1 := by
  rcases doActions_fst begins with heq | heq
  · rw [heq]
    exact h
  · rw [heq]
    exact ⟨h.arrivals, h.escalated, h.acked⟩

/-- One more arrival, two seconds later. -/
theorem Steady.next {n : Nat} {old : Option Episode} (pol : KgpPolicy) (k : KgpKey)
    (hold : Steady (n + 1) (episodeArrive (2 * n) oftenAlert old)) :
    Steady (n + 1) (episodeAlert pol k oftenRule (2 * n) oftenAlert old).1 := by
  have hbase := hold.doActions (t := 2 * n) pol k oftenRule (beginsEpisode old)
  unfold episodeAlert Episode.escalateBurst
  simp only
  rw [if_neg]
  · exact hbase
  · have hburst := hbase.not_burst
    rw [Bool.and_eq_true, not_and_or]
    right
    show ¬ Episode.burst _ 2 1 = true
    rw [hburst]
    simp

theorem steady_time {n : Nat} (hn : n < 2 ^ 32) : (UInt64.ofNat (2 * n)).toNat = 2 * n :=
  UInt64.toNat_ofNat_of_lt' (by show 2 * n < 2 ^ 64; omega)

theorem often_act (old : Option Episode) (now : UInt64) :
    episodeAct oftenPolicy (oftenAlert.keyFor 0) old (.alert now oftenAlert)
      = (some (episodeAlert oftenPolicy (oftenAlert.keyFor 0) oftenRule now.toNat oftenAlert old).1,
        (episodeAlert oftenPolicy (oftenAlert.keyFor 0) oftenRule now.toNat oftenAlert old).2) := by
  simp only [episodeAct, often_ruleFor]

/-- The specification after `n + 1` of them. -/
theorem steady_spec {n : Nat} (hn : n < 2 ^ 32) :
    ∃ ep, Run.exec (specStep oftenPolicy) specInit (steady (n + 1)) (oftenAlert.keyFor 0)
        = some ep ∧ Steady (n + 1) ep := by
  induction n with
  | zero =>
      refine ⟨_, congrArg Prod.fst (often_act none 0), ?_⟩
      exact Steady.next (n := 0) _ _ ⟨rfl, rfl, rfl⟩
  | succ n ih =>
      obtain ⟨ep, hep, hsteady⟩ := ih (by omega)
      refine ⟨(episodeAlert oftenPolicy (oftenAlert.keyFor 0) oftenRule (2 * (n + 1)) oftenAlert
        (some ep)).1, ?_, ?_⟩
      · rw [steady_succ, Run.exec_snoc, specStep, often_act, hep, steady_time hn]
      · refine Steady.next _ _ ⟨?_, ?_, ?_⟩
        · simp [episodeArrive, hsteady.acked, Episode.again, hsteady.arrivals, List.range_succ]
        · simp [episodeArrive, hsteady.acked, Episode.again, hsteady.escalated]
        · simp [episodeArrive, hsteady.acked, Episode.again]

/-- A counter at zero hides every repetition. -/
theorem runRepeat_of_count_eq_zero (pol : KgpPolicy) {r : KgpRule} (now : UInt64)
    {inc : KgpIncident} (hr : r.repeatN ≠ 0) (hcount : inc.count = 0) :
    inc.runRepeat pol r now = (inc, []) := by
  have hge : ¬ inc.count ≥ r.repeatN := by
    rw [hcount, ge_iff_le, UInt32.le_iff_toNat_le]
    intro hle
    exact hr (UInt32.toNat_inj.mp (Nat.le_zero.mp hle))
  rw [runRepeat_eq, if_neg]
  simp [KgpIncident.repeats, hge]

/-- It is back at zero at the 2^32-th arrival. -/
theorem wrapped_quiet {pol : KgpPolicy} {ri : Nat} {r : KgpRule} {now : UInt64} {al : KgpAlert}
    {inc : KgpIncident} (hacked : inc.acked = false) (hcount : inc.count.toNat + 1 = 2 ^ 32)
    (hr : r.repeatN ≠ 0) :
    ∀ run ∈ (alertIncident pol ri r now al (some inc)).2, run.tier = 0 := by
  have hzero : inc.count + 1 = 0 := by
    rw [← UInt32.toNat_inj, UInt32.toNat_add, UInt32.toNat_one, hcount]
    rfl
  obtain ⟨lastRun, hbase, hbaseRuns⟩ :=
    runBase_cases pol r now false (inc.arrive ri now al false)
  have hcount' : ((inc.arrive ri now al false).runBase pol r now false).1.count = 0 := by
    rw [hbase]
    exact hzero
  have hnone := runRepeat_of_count_eq_zero pol now hr hcount'
  unfold alertIncident
  simp only [Option.elim_some, Option.getD_some, hacked]
  rw [hnone, List.append_nil]
  exact fun run hrun => (hbaseRuns run hrun).2

/-- The specification escalates an arrival in the same second as the one before. -/
theorem steady_burst {n : Nat} {ep : Episode} (h : Steady (n + 1) ep) (k : KgpKey) :
    ∃ run ∈ (episodeAlert oftenPolicy k oftenRule (2 * n) oftenAlert (some ep)).2,
      run.tier = 1 := by
  have harrive : episodeArrive (2 * n) oftenAlert (some ep) = ep.again (2 * n) oftenAlert := by
    simp [episodeArrive, h.acked]
  set base := ((ep.again (2 * n) oftenAlert).doActions oftenPolicy k oftenRule (2 * n)
    (beginsEpisode (some ep))).1 with hbase
  have hbaseEq : base.arrivals = ep.arrivals ++ [2 * n] ∧ base.escalated = false := by
    have hfst : base = ep.again (2 * n) oftenAlert ∨
        base = { ep.again (2 * n) oftenAlert with lastRun := 2 * n } := doActions_fst _
    rcases hfst with heq | heq
    · rw [heq]
      exact ⟨rfl, h.escalated⟩
    · rw [heq]
      exact ⟨rfl, h.escalated⟩
  have hburst : base.burst 2 1 = true := by
    have hcount : base.count = n + 2 := by
      simp [Episode.count, hbaseEq.1, h.arrivals]
    have hlatest : base.latest = 2 * n := by
      have hlast : base.arrivals.getLast? = some base.latest := List.getLast?_eq_some_getLast _
      rw [hbaseEq.1] at hlast
      simpa using hlast.symm
    have htwo : 2 ≤ base.count := by omega
    have hnth := nthLast_eq (by decide : 0 < 2) htwo
    have hidx : base.count - 2 = n := by omega
    rw [hidx, hbaseEq.1, h.arrivals, List.getElem?_append_left (by simp), List.getElem?_map,
      List.getElem?_range (by omega)] at hnth
    simp only [Option.map_some, Option.some.injEq] at hnth
    simp [Episode.burst, hcount, hlatest, ← hnth]
  have hesc : base.escalateBurst oftenPolicy k oftenRule = base.escalate oftenPolicy k oftenRule := by
    unfold Episode.escalateBurst
    rw [if_pos]
    rw [hbaseEq.2]
    exact hburst
  refine ⟨⟨0, k.rule, base.last, 1, base.count, base.first⟩, ?_, rfl⟩
  unfold episodeAlert
  rw [harrive]
  simp only
  rw [← hbase, hesc]
  refine List.mem_append_right _ ?_
  exact List.mem_map.mpr ⟨0, by decide, rfl⟩

/-- The engine refines the specification in every run with at most 64 live incidents. -/
def AlwaysRefines : Prop :=
  ∀ (text : CStr) (checkFs : Option KgpFs) (pol : KgpPolicy), kgpParse text checkFs = .ok pol →
    ∀ ops : List EngOp, Chronological ops → FewLive pol ops → Refines pol ops

theorem steady_times (n : Nat) :
    (steady n).filterMap EngOp.time = (List.range n).map fun i => UInt64.ofNat (2 * i) := by
  simp [steady, List.filterMap_map, Function.comp_def, EngOp.time]

theorem steady_chronological {n : Nat} (hn : n < 2 ^ 32) :
    Chronological (steady (n + 1) ++ [.alert (UInt64.ofNat (2 * n)) oftenAlert]) := by
  have hmono : ∀ i j, i ≤ j → j ≤ n → UInt64.ofNat (2 * i) ≤ UInt64.ofNat (2 * j) := by
    intro i j hij hj
    rw [UInt64.le_iff_toNat_le, steady_time (by omega), steady_time (by omega)]
    omega
  unfold Chronological
  rw [List.filterMap_append, steady_times, List.pairwise_append]
  refine ⟨?_, by simp [EngOp.time], ?_⟩
  · rw [List.pairwise_map]
    refine List.Pairwise.imp_of_mem ?_ List.pairwise_lt_range
    intro i j _ hj hij
    have := List.mem_range.mp hj
    exact hmono i j (by omega) (by omega)
  · intro a ha b hb
    obtain ⟨i, hi, rfl⟩ := List.mem_map.mp ha
    have := List.mem_range.mp hi
    obtain rfl : b = UInt64.ofNat (2 * n) := List.mem_singleton.mp hb
    exact hmono i n (by omega) (Nat.le_refl _)

theorem exists_of_rel_some {k : KgpKey} {st : Option KgpIncident} {ep : Episode}
    (h : Option.Rel (Simulates k) st (some ep)) : ∃ inc, st = some inc ∧ Simulates k inc ep := by
  cases h with
  | @some inc _ hsim => exact ⟨inc, rfl, hsim⟩

theorem wrap_not_refines {n : Nat} (hn : n + 2 = 2 ^ 32) : ¬ AlwaysRefines := by
  intro h
  have hn' : n < 2 ^ 32 := by omega
  have hlive : FewLive oftenPolicy
      (steady (n + 1) ++ [.alert (UInt64.ofNat (2 * n)) oftenAlert]) := by
    refine often_fewLive fun now al hmem => ?_
    rcases List.mem_append.mp hmem with hmem | hmem
    · obtain ⟨i, -, heq⟩ := List.mem_map.mp hmem
      exact (EngOp.alert.inj heq).2.symm
    · exact (EngOp.alert.inj (List.mem_singleton.mp hmem)).2
  have hrefines := h oftenText none oftenPolicy oftenPolicy_accepted _
    (steady_chronological hn') hlive
  -- before the last arrival, the two agree on an episode of 2^32 - 1 arrivals
  have hagree := hrefines.states (steady (n + 1)) (List.prefix_append _ _)
  have hruns := hrefines.runs (steady (n + 1)) _ (List.prefix_refl _) (oftenAlert.keyFor 0)
  obtain ⟨ep, hep, hsteady⟩ := steady_spec hn'
  have hrel := hagree (oftenAlert.keyFor 0)
  rw [hep] at hrel
  obtain ⟨inc, hfind, hsim⟩ := exists_of_rel_some hrel
  have hcount : inc.count.toNat + 1 = 2 ^ 32 := by
    rw [hsim.count, Episode.count, hsteady.arrivals, List.length_map, List.length_range]
    omega
  -- the specification escalates it, the engine does not
  have hfit : Fits oftenPolicy (Run.exec (engStep oftenPolicy) kgpInit (steady (n + 1)))
      (.alert (UInt64.ofNat (2 * n)) oftenAlert) := by
    have hlast := hlive _ (List.prefix_refl _)
    rw [Run.exec_snoc] at hlast
    exact fits_of_live hagree hlast
  rw [(engAct_refines (engineOK_run _ _) hfit _).2, hfind, keyRuns, keyAct_alert often_ruleFor,
    specRuns, hep, often_act, steady_time hn'] at hruns
  obtain ⟨run, hrun, htier⟩ := steady_burst hsteady (oftenAlert.keyFor 0)
  rw [← hruns] at hrun
  obtain ⟨code, hcode, rfl⟩ := List.mem_map.mp hrun
  have hquiet := wrapped_quiet (hsim.acked.trans hsteady.acked) hcount (by decide) code hcode
  have : code.tier = 1 := htier
  omega

/--
An alert every other second, 2^32 - 1 times; the next one comes in the same second as the
last.  The specification escalates it, and the engine, whose counter is back at zero,
does not.
-/
theorem wrapped_count_hides_burst : ¬ AlwaysRefines :=
  wrap_not_refines (n := 2 ^ 32 - 2) (by omega)

end KernelGuard
