/-
Whom an alert names.

The candidate of a CPU is the majority vote of `Lib/Majority.lean` over the user tasks at the
overflows of *both* its counters since it was last reset, and it is reset by an alert of either
counter and by the CPU's coming online, not by a sampler run.  So an alert names the majority of
those votes, and the majority of one counter's votes since the last run only where the two agree.

The vote is the one of the library, and the kernel's record of it is a number and a
count; the count is signed, which is why the theorem asks for fewer than 2^31 votes.
What one would like to count is one counter's votes since the last run, and the two
differ in both respects, so the theorem compares two elections and says that they may
elect the same task.
-/
import KernelGuard.Lib.Majority
import KernelGuard.Proofs.Pmu
import Mathlib.Data.List.Count

namespace KernelGuard

open Run Majority

/-! ### Votes

Both tallies are folds over the log of the run, with a reset at their events.  They
are stated over the log and not over the state, so that a vote is what it is in the
run, and not what the kernel has kept of it.
-/

/-- The user tasks at the overflows of a CPU, from the last reset of its candidate on. -/
def voteTally (cpu : Nat) (votes : List Tgid) : PmuEvent → List Tgid
  | .overflow c _ (some t) did => if c = cpu ∧ did.counted then votes ++ [t] else votes
  | .overflow _ _ none _ => votes
  | .judged j => if j.cpu = cpu ∧ j.due then [] else votes
  | .online c => if c = cpu then [] else votes

def votesSinceReset (cpu : Nat) (log : List PmuEvent) : List Tgid := log.foldl (voteTally cpu) []

/-- The same for one counter, from the sampler's last run on. -/
def kindTally (cpu : Nat) (kind : KgEv) (votes : List Tgid) : PmuEvent → List Tgid
  | .overflow c k (some t) did => if c = cpu ∧ k = kind ∧ did.counted then votes ++ [t] else votes
  | .overflow _ _ none _ => votes
  | .judged j => if j.cpu = cpu ∧ j.kind = kind then [] else votes
  | .online c => if c = cpu then [] else votes

def votesSinceRun (cpu : Nat) (kind : KgEv) (log : List PmuEvent) : List Tgid :=
  log.foldl (kindTally cpu kind) []

theorem votesSinceReset_snoc (cpu : Nat) (log : List PmuEvent) (e : PmuEvent) :
    votesSinceReset cpu (log ++ [e]) = voteTally cpu (votesSinceReset cpu log) e := by
  simp [votesSinceReset]

theorem votesSinceReset_ofCpu (cpu : Nat) (log : List PmuEvent) :
    votesSinceReset cpu (log.filter (ofCpu cpu)) = votesSinceReset cpu log := by
  refine foldl_ofCpu ?_ log []
  intro votes e he
  cases e with
  | overflow c k user did =>
      cases user with
      | none => rfl
      | some t => exact if_neg (fun h => he h.1)
  | judged j => exact if_neg (fun h => he h.1)
  | online c => exact if_neg he

/-! ### The candidate

The invariant says that the record is the ballot of the votes since the reset, now
and at each judgement of the past.  An overflow votes; a judgement reads the
candidate and may reset it; nothing else touches it.
-/

/-- The ballot of the votes since the reset, on the numbers the kernel keeps. -/
def ballot (votes : List Tgid) : Ballot Int32 := poll 0 (votes.map Tgid.val)

theorem ballot_snoc (votes : List Tgid) (t : Tgid) :
    ballot (votes ++ [t]) = (ballot votes).vote t.val := by
  unfold ballot
  rw [List.map_append]
  exact poll_snoc ..

theorem ballot_cnt_le (votes : List Tgid) : (ballot votes).cnt ≤ votes.length := by
  have h := poll_cnt_le 0 (votes.map Tgid.val)
  rwa [List.length_map] at h

theorem Tgid.val_injective : Function.Injective Tgid.val := by
  intro a b h
  cases a
  cases b
  cases h
  rfl

/-- The majority of the votes is elected. -/
theorem majority_ballot {t : Tgid} {votes : List Tgid} (h : IsMajority t votes) :
    (ballot votes).cand = t.val := by
  have hval : IsMajority t.val (votes.map Tgid.val) := by
    unfold IsMajority
    rw [List.length_map, List.count_map_of_injective _ _ Tgid.val_injective]
    exact h
  exact hval.elected 0

/-- `cand_tgid` and `cand_cnt` hold the ballot. -/
def KgPmuCpu.Holds (pc : KgPmuCpu) (b : Ballot Int32) : Prop :=
  pc.candTgid = b.cand ∧ pc.candCnt = Int32.ofNat b.cnt

/-- The handler votes as the ballot does, as long as the counter does not reach the sign. -/
theorem KgPmuCpu.Holds.vote {pc : KgPmuCpu} {b : Ballot Int32} (h : pc.Holds b)
    (hlt : b.cnt < 2 ^ 31) (x : Int32) : (pc.vote x).Holds (b.vote x) := by
  obtain ⟨hcand, hcnt⟩ := h
  unfold KgPmuCpu.vote Ballot.vote
  rw [hcand, hcnt]
  by_cases hx : b.cand = x
  · rw [if_pos hx, if_pos hx]
    exact ⟨rfl, (Int32.ofNat_add b.cnt 1).symm⟩
  · rw [if_neg hx, if_neg hx]
    have hzero : Int32.ofNat b.cnt ≤ 0 ↔ b.cnt = 0 := by
      rw [Int32.le_iff_toInt_le, Int32.toInt_ofNat_of_lt hlt, Int32.toInt_zero]
      omega
    by_cases hfree : b.cnt = 0
    · rw [if_pos (hzero.mpr hfree), if_pos hfree]
      exact ⟨rfl, rfl⟩
    · rw [if_neg (fun hle => hfree (hzero.mp hle)), if_neg hfree]
      refine ⟨rfl, ?_⟩
      have hpred : Int32.ofNat b.cnt = Int32.ofNat (b.cnt - 1) + 1 := by
        conv_lhs => rw [show b.cnt = b.cnt - 1 + 1 by omega, Int32.ofNat_add]
        rfl
      show Int32.ofNat b.cnt - 1 = Int32.ofNat (b.cnt - 1)
      rw [hpred, Int32.add_sub_cancel]

/-- The candidate of a CPU is its ballot, now and at every judgement so far. -/
structure Voted (cpu : Nat) (log : List PmuEvent) (pc : KgPmuCpu) : Prop where
  now : (votesSinceReset cpu log).length < 2 ^ 31 → pc.Holds (ballot (votesSinceReset cpu log))
  named : ∀ pre j post, log = pre ++ .judged j :: post →
    (votesSinceReset cpu pre).length < 2 ^ 31 → j.tgid = (ballot (votesSinceReset cpu pre)).cand

namespace Voted

variable {cpu : Nat} {log : List PmuEvent} {pc : KgPmuCpu}

/-- An event that judges nothing. -/
theorem push {pc' : KgPmuCpu} {e : PmuEvent} (h : Voted cpu log pc) (he : ∀ j, e ≠ .judged j)
    (hnow : (votesSinceReset cpu (log ++ [e])).length < 2 ^ 31 →
      pc'.Holds (ballot (votesSinceReset cpu (log ++ [e])))) :
    Voted cpu (log ++ [e]) pc' := by
  refine ⟨hnow, ?_⟩
  intro pre j post hsplit
  rcases split_snoc hsplit with ⟨-, hj, -⟩ | ⟨post', -, hlog⟩
  · exact absurd hj.symm (he j)
  · exact h.named pre j post' hlog

theorem overflow (h : Voted cpu log pc) (p : KgPmuParams) (stop busy : Bool) (kind : KgEv)
    (user : Option Tgid) :
    Voted cpu (log ++ [.overflow cpu kind user (kgPmuOverflow p stop busy kind user pc).1])
      (kgPmuOverflow p stop busy kind user pc).2 := by
  refine h.push (fun _ => nofun) ?_
  rw [votesSinceReset_snoc]
  cases hignored : stop || busy with
  | true =>
      rw [kgPmuOverflow_ignored hignored]
      cases user with
      | none => exact h.now
      | some t => simpa [voteTally] using h.now
  | false =>
      unfold kgPmuOverflow
      rw [if_neg (by simp [hignored])]
      cases user with
      | none => exact h.now
      | some t =>
          simp only [voteTally, and_self, if_true, ballot_snoc, List.length_append,
            List.length_singleton]
          intro hlt
          have hcnt := ballot_cnt_le (votesSinceReset cpu log)
          have hheld : (pc.setCounter kind { pc.counter kind with
              ovf := (pc.counter kind).ovf + 1 }).Holds (ballot (votesSinceReset cpu log)) :=
            h.now (by omega)
          exact hheld.vote (by omega) t.val

/-- One pass of the inner loop reads the candidate, and resets it with an alert. -/
theorem sampleKind (h : Voted cpu log pc) (p : KgPmuParams) (denomMs now : UInt64) (kind : KgEv) :
    Voted cpu (log ++ (kgPmuSampleKind p denomMs now cpu kind pc).1.map .judged)
      (kgPmuSampleKind p denomMs now cpu kind pc).2 := by
  unfold kgPmuSampleKind
  cases (pc.counter kind).ev with
  | false => simpa using h
  | true =>
      show Voted cpu (log ++ [.judged (pc.judged p denomMs now cpu kind)])
        (if (pc.judged p denomMs now cpu kind).due then _ else _)
      refine ⟨?_, ?_⟩
      · have hvotes : votesSinceReset cpu (log ++ [.judged (pc.judged p denomMs now cpu kind)])
            = if (pc.judged p denomMs now cpu kind).due then [] else votesSinceReset cpu log := by
          rw [votesSinceReset_snoc]
          show (if cpu = cpu ∧ _ then _ else _) = _
          simp only [true_and]
        rw [hvotes]
        cases (pc.judged p denomMs now cpu kind).due with
        | true => exact fun _ => ⟨rfl, rfl⟩
        | false => exact h.now
      · intro pre j post hsplit hlt
        rcases split_snoc hsplit with ⟨hpre, hj, -⟩ | ⟨post', -, hlog⟩
        · subst hpre
          rw [PmuEvent.judged.inj hj]
          exact (h.now hlt).1
        · exact h.named pre j post' hlog hlt

theorem step {s : PmuSt} {pc' : KgPmuCpu} {op : PmuOp} {evs : List PmuEvent}
    (h : Voted cpu log pc) (hstep : CpuStep cpu s pc op evs pc') : Voted cpu (log ++ evs) pc' := by
  cases hstep with
  | idle =>
      rw [List.append_nil]
      exact h
  | offline =>
      rw [List.append_nil]
      exact ⟨h.now, h.named⟩
  | overflow kind busy user => exact h.overflow s.pmu.params s.pmu.stop busy kind user
  | sample now hup =>
      have hl1d := h.sampleKind s.pmu.params (kgPmuDenom s.pmu.params s.pmu.lastNs now) now .l1d
      have hllc := hl1d.sampleKind s.pmu.params (kgPmuDenom s.pmu.params s.pmu.lastNs now) now .llc
      rw [List.append_assoc, ← List.map_append] at hllc
      exact ⟨hllc.now, hllc.named⟩
  | online created =>
      refine h.push (fun _ => nofun) ?_
      rw [votesSinceReset_snoc]
      intro _
      simp only [voteTally, if_true]
      exact ⟨rfl, rfl⟩

end Voted

theorem kgPmuInit_voted (p : KgPmuParams) (topo : Topology) (now : UInt64)
    (created : Nat → KgEv → Bool) (cpu : Nat) :
    Voted cpu [] ((kgPmuInit p topo now created).cpu cpu) := by
  refine ⟨?_, by simp⟩
  intro _
  rw [kgPmuInit_cpu]
  split <;> exact ⟨rfl, rfl⟩

/-- Every judgement of a run read the ballot of its CPU. -/
theorem judged_tgid {s : PmuSt} {cpu : Nat} (h : Voted cpu [] (s.pmu.cpu cpu)) {ops : List PmuOp}
    {pre : List PmuEvent} {j : PmuJudged} {post : List PmuEvent}
    (hlog : pmuLog s ops = pre ++ .judged j :: post) (hcpu : j.cpu = cpu)
    (hlt : (votesSinceReset cpu pre).length < 2 ^ 31) :
    j.tgid = (ballot (votesSinceReset cpu pre)).cand := by
  have hrun := cpu_invariant (fun _ _ _ _ _ _ h hstep => Voted.step h hstep) h ops
  have hsplit : (pmuLog s ops).filter (ofCpu cpu)
      = pre.filter (ofCpu cpu) ++ .judged j :: post.filter (ofCpu cpu) := by
    rw [hlog, List.filter_append, List.filter_cons_of_pos]
    exact decide_eq_true hcpu
  have hnamed := hrun.named _ j _ hsplit
  rw [votesSinceReset_ofCpu] at hnamed
  exact hnamed hlt

/-! ### Attribution

The parameter of an alert is the number of the task, widened to 64 bits.  No number
is lost in that, so an alert names a task exactly when the ballot elects it.
-/

/-- `(u64)tgid`. -/
def Tgid.param (t : Tgid) : UInt64 := t.val.toInt64.toUInt64

theorem toInt64_toUInt64_inj {x y : Int32} (h : x.toInt64.toUInt64 = y.toInt64.toUInt64) :
    x = y := by
  have hcast := congrArg UInt64.toInt64 h
  rw [Int64.toInt64_toUInt64, Int64.toInt64_toUInt64] at hcast
  rw [← Int32.toInt_inj, ← Int32.toInt_toInt64, hcast, Int32.toInt_toInt64]

theorem alert_p1_iff (j : PmuJudged) (t : Tgid) : j.alert.p1 = t.param ↔ j.tgid = t.val := by
  show (if j.tgid > 0 then j.tgid.toInt64.toUInt64 else 0) = t.val.toInt64.toUInt64 ↔ _
  by_cases hpos : j.tgid > 0
  · rw [if_pos hpos]
    exact ⟨toInt64_toUInt64_inj, fun h => by rw [h]⟩
  · rw [if_neg hpos]
    constructor
    · intro h
      have hzero : (0 : Int32) = t.val := toInt64_toUInt64_inj h
      exact absurd t.pos (by rw [← hzero]; decide)
    · intro h
      exact absurd (h ▸ t.pos) hpos

/-- An alert names the task with the majority of its counter's votes since the last run. -/
def Attributed (log : List PmuEvent) (j : PmuJudged) : Prop :=
  j.due = true → ∀ t, IsMajority t (votesSinceRun j.cpu j.kind log) → j.alert.p1 = t.param

/-- The votes of both counters since the reset elect the same task. -/
def Elected (log : List PmuEvent) (j : PmuJudged) : Prop :=
  j.due = true → ∀ t, IsMajority t (votesSinceRun j.cpu j.kind log) →
    (ballot (votesSinceReset j.cpu log)).cand = t.val

/-- **Whom an alert names.**  The attribution is right exactly where the votes since the reset
elect the same task; a majority of those is always elected. -/
theorem offender_named_iff (p : KgPmuParams) (topo : Topology) (now : UInt64)
    (created : Nat → KgEv → Bool) (ops : List PmuOp) (pre : List PmuEvent) (j : PmuJudged)
    (post : List PmuEvent)
    (hlog : pmuLog ⟨topo, kgPmuInit p topo now created⟩ ops = pre ++ .judged j :: post)
    (hfew : (votesSinceReset j.cpu pre).length < 2 ^ 31) :
    (Attributed pre j ↔ Elected pre j) ∧
      ((∀ t, IsMajority t (votesSinceRun j.cpu j.kind pre) →
        IsMajority t (votesSinceReset j.cpu pre)) → Attributed pre j) := by
  have htgid := judged_tgid (kgPmuInit_voted p topo now created j.cpu) hlog rfl hfew
  unfold Attributed Elected
  simp only [alert_p1_iff, htgid, true_and]
  intro hmost _ t ht
  exact majority_ballot (hmost t ht)

/-- One CPU with `pmu_warn=1`. -/
def watchful : KgPmu := kgPmuInit ⟨100, 1, 100⟩ oneCpu 0 fun _ _ => true

def missBy (kind : KgEv) (t : Tgid) : PmuOp := .overflow 0 kind false (some t)

def task5 : Tgid := ⟨5, by decide⟩
def task7 : Tgid := ⟨7, by decide⟩

/-- A task that is alone on the machine is named. -/
theorem offender_named_iff_alone :
    ∃ pre j post, pmuLog ⟨oneCpu, watchful⟩ [missBy .l1d task5, .sample 1000000000]
        = pre ++ .judged j :: post ∧ j.due = true ∧ j.alert.p1 = 5 := by
  refine ⟨[_], _, [_], rfl, by decide, ?_⟩
  refine (offender_named_iff ⟨100, 1, 100⟩ oneCpu 0 (fun _ _ => true)
    [missBy .l1d task5, .sample 1000000000] [_] _ [_] rfl (by decide)).2 ?_ (by decide) task5
    (by decide)
  exact fun t ht => ht

/-- Two LLC misses of task 7 outvote the one L1D miss of task 5: the L1D alert names task 7. -/
theorem other_counter_names_offender :
    ¬ ∀ (ops : List PmuOp) (pre : List PmuEvent) (j : PmuJudged) (post : List PmuEvent),
      pmuLog ⟨oneCpu, watchful⟩ ops = pre ++ .judged j :: post → Attributed pre j := by
  intro h
  have hnamed := h
    [missBy .llc task7, missBy .llc task7, missBy .l1d task5, .sample 1000000000] [_, _, _] _ [_]
    rfl (by decide) task5 (by decide)
  exact absurd hnamed (by decide)

end KernelGuard
