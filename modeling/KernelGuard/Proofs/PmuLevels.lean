/-
The levels of a counter: hysteresis, spacing and deferral.

The judgements on one counter form a chain: each finds the bookkeeping the one before it left
(`Tracked`), unless the CPU came online in between, which lowers the level and forgets the calm
windows.  Everything below is about such chains.  Alerts move the reference time, so that two of
them are a second apart; the calm windows are counted by consecutive judgements.  A deferred
escalation leaves no mark in the chain, so it is raised later only if the rate is still there.
-/
import KernelGuard.Proofs.Pmu

namespace KernelGuard

open Run

/-! ### One judgement

The code branches three ways, on a rise, on a repeat and on a fall, and writes
different fields in each.  What the later lemmas use is only which of the fields
moved and under which comparison of times.
-/

theorem KgPmuTrack.due_iff (t : KgPmuTrack) (now : UInt64) (lvl : UInt32) :
    t.due now lvl = true ↔
      (lvl > t.level ∧ now - t.lastAlertNs ≥ nsecPerSec) ∨
      (lvl ≠ 0 ∧ lvl = t.level ∧ now - t.lastAlertNs ≥ 10 * nsecPerSec) := by
  simp [KgPmuTrack.due, and_assoc]

/-- What the three-way branch can do. -/
theorem KgPmuTrack.judge_cases (t : KgPmuTrack) (now : UInt64) (lvl : UInt32) :
    (t.due now lvl = true ∧ t.judge now lvl = ⟨lvl, 0, now⟩) ∨
    (t.due now lvl = false ∧ lvl < t.level ∧ t.calm + 1 ≥ kgPmuCalmWindows ∧
      t.judge now lvl = ⟨lvl, 0, t.lastAlertNs⟩) ∨
    (t.due now lvl = false ∧ lvl < t.level ∧ t.judge now lvl = { t with calm := t.calm + 1 }) ∨
    (t.due now lvl = false ∧ t.judge now lvl = { t with calm := 0 }) := by
  unfold KgPmuTrack.judge
  by_cases hdue : t.due now lvl = true
  · exact Or.inl ⟨hdue, if_pos hdue⟩
  · rw [if_neg hdue]
    have hnot : t.due now lvl = false := by simpa using hdue
    by_cases hlow : lvl < t.level
    · rw [if_pos hlow]
      by_cases hcalm : t.calm + 1 ≥ kgPmuCalmWindows
      · exact Or.inr (Or.inl ⟨hnot, hlow, hcalm, if_pos hcalm⟩)
      · exact Or.inr (Or.inr (Or.inl ⟨hnot, hlow, if_neg hcalm⟩))
    · exact Or.inr (Or.inr (Or.inr ⟨hnot, if_neg hlow⟩))

theorem toNat_add_le_of_sub {a b c : UInt64} (hle : a ≤ b) (h : b - a ≥ c) :
    a.toNat + c.toNat ≤ b.toNat := by
  rw [ge_iff_le, UInt64.le_iff_toNat_le, UInt64.toNat_sub_of_le _ _ hle] at h
  rw [UInt64.le_iff_toNat_le] at hle
  omega

namespace PmuJudged

variable {j : PmuJudged}

theorem after_of_due (h : j.due = true) : j.after = ⟨j.lvl, 0, j.now⟩ := by
  rcases j.before.judge_cases j.now j.lvl with hc | hc | hc | hc
  · exact hc.2
  · exact absurd h (by rw [due, hc.1]; decide)
  · exact absurd h (by rw [due, hc.1]; decide)
  · exact absurd h (by rw [due, hc.1]; decide)

/-- Without an alert the reference time stays and the level does not rise. -/
theorem after_of_not_due (h : j.due = false) :
    j.after.lastAlertNs = j.before.lastAlertNs ∧ j.after.level ≤ j.before.level := by
  unfold after
  rcases j.before.judge_cases j.now j.lvl with hc | hc | hc | hc
  · exact absurd hc.1 (by rw [← due, h]; decide)
  · rw [hc.2.2.2]
    exact ⟨rfl, UInt32.le_of_lt hc.2.1⟩
  · rw [hc.2.2]
    exact ⟨rfl, UInt32.le_refl _⟩
  · rw [hc.2]
    exact ⟨rfl, UInt32.le_refl _⟩

/-- An alert comes at least a second after the one before. -/
theorem gap_of_due (h : j.due = true) : j.now - j.before.lastAlertNs ≥ nsecPerSec := by
  rcases (KgPmuTrack.due_iff _ _ _).mp h with ⟨-, hgap⟩ | ⟨-, -, hgap⟩
  · exact hgap
  · exact UInt64.le_trans (by decide) hgap

/-- An alert that does not change the level is a repeat. -/
theorem repeat_gap_of_due (h : j.due = true) (hsame : j.after.level = j.before.level) :
    j.now - j.before.lastAlertNs ≥ 10 * nsecPerSec := by
  rcases (KgPmuTrack.due_iff _ _ _).mp h with ⟨hlvl, -⟩ | ⟨-, -, hgap⟩
  · rw [after_of_due h] at hsame
    exact absurd hsame (UInt32.ne_of_lt hlvl).symm
  · exact hgap

theorem due_of_rise (h : j.before.level < j.after.level) : j.due = true := by
  by_contra hnot
  exact UInt32.not_lt.mpr (after_of_not_due (by simpa using hnot)).2 h

/-- A level that falls does so after enough calm windows. -/
theorem calm_of_fall (h : j.after.level < j.before.level) :
    j.lvl < j.before.level ∧ j.before.calm + 1 ≥ kgPmuCalmWindows := by
  unfold after at h
  rcases j.before.judge_cases j.now j.lvl with hc | hc | hc | hc
  · rw [hc.2] at h
    rcases (KgPmuTrack.due_iff _ _ _).mp hc.1 with ⟨hup, -⟩ | ⟨-, hsame, -⟩
    · exact absurd (UInt32.lt_trans h hup) (UInt32.lt_irrefl _)
    · exact absurd h (by rw [← hsame]; exact UInt32.lt_irrefl _)
  · exact ⟨hc.2.1, hc.2.2.1⟩
  · rw [hc.2.2] at h
    exact absurd h (UInt32.lt_irrefl _)
  · rw [hc.2] at h
    exact absurd h (UInt32.lt_irrefl _)

/-- A calm window is counted by a judgement below the level, which it leaves as it is. -/
theorem calm_of_pos (h : j.after.calm ≠ 0) :
    j.lvl < j.after.level ∧ j.after.level = j.before.level ∧ j.after.calm = j.before.calm + 1 := by
  unfold after at h ⊢
  rcases j.before.judge_cases j.now j.lvl with hc | hc | hc | hc
  · exact absurd (by rw [hc.2]) h
  · exact absurd (by rw [hc.2.2.2]) h
  · rw [hc.2.2]
    exact ⟨hc.2.1, rfl, rfl⟩
  · exact absurd (by rw [hc.2]) h

end PmuJudged

/-! ### The judgements on one counter

`Tracked` is a chain with a parameter for what may happen between two judgements.
Without hot-plug this is equality, and with it `Resumes`, so the same lemmas about
chains serve both.
-/

/-- `t` and `t'` with the judgements `js` between them; `R` is what may happen in the meantime. -/
def Tracked (R : KgPmuTrack → KgPmuTrack → Prop) :
    KgPmuTrack → List PmuJudged → KgPmuTrack → Prop
  | t, [], t' => R t t'
  | t, j :: js, t' => R t j.before ∧ Tracked R j.after js t'

namespace Tracked

variable {R : KgPmuTrack → KgPmuTrack → Prop}

theorem append {t t' : KgPmuTrack} {pre post : List PmuJudged} {j : PmuJudged}
    (h : Tracked R t (pre ++ j :: post) t') :
    Tracked R t pre j.before ∧ Tracked R j.after post t' := by
  induction pre generalizing t with
  | nil => exact h
  | cons i pre ih => exact ⟨⟨h.1, (ih h.2).1⟩, (ih h.2).2⟩

theorem snoc {t : KgPmuTrack} {js : List PmuJudged} {j : PmuJudged} (hrefl : ∀ t, R t t)
    (h : Tracked R t js j.before) : Tracked R t (js ++ [j]) j.after := by
  induction js generalizing t with
  | nil => exact ⟨h, hrefl _⟩
  | cons i js ih => exact ⟨h.1, ih h.2⟩

theorem trans {t t' t'' : KgPmuTrack} {js : List PmuJudged}
    (htrans : ∀ {a b c}, R a b → R b c → R a c) (h : Tracked R t js t') (hR : R t' t'') :
    Tracked R t js t'' := by
  induction js generalizing t with
  | nil => exact htrans h hR
  | cons i js ih => exact ⟨h.1, ih h.2⟩

end Tracked

def judgedAt (cpu : Nat) (kind : KgEv) : PmuEvent → Option PmuJudged
  | .judged j => if j.cpu = cpu ∧ j.kind = kind then some j else none
  | _ => none

theorem judgedAt_eq_some {cpu : Nat} {kind : KgEv} {e : PmuEvent} {j : PmuJudged}
    (h : judgedAt cpu kind e = some j) : e = .judged j ∧ j.cpu = cpu ∧ j.kind = kind := by
  cases e with
  | overflow c k user did => exact absurd h nofun
  | online c => exact absurd h nofun
  | judged i =>
      change (if i.cpu = cpu ∧ i.kind = kind then some i else none) = some j at h
      split at h
      · rename_i hat
        rw [Option.some.injEq] at h
        subst h
        exact ⟨rfl, hat⟩
      · exact absurd h nofun

/-- The judgements of a run on one counter. -/
def judgements (s : PmuSt) (ops : List PmuOp) (cpu : Nat) (kind : KgEv) : List PmuJudged :=
  (pmuLog s ops).filterMap (judgedAt cpu kind)

def PmuSt.track (s : PmuSt) (cpu : Nat) (kind : KgEv) : KgPmuTrack :=
  ((s.pmu.cpu cpu).counter kind).track

theorem judgements_ofCpu (s : PmuSt) (ops : List PmuOp) (cpu : Nat) (kind : KgEv) :
    judgements s ops cpu kind = ((pmuLog s ops).filter (ofCpu cpu)).filterMap (judgedAt cpu kind) := by
  unfold judgements
  rw [List.filterMap_filter]
  congr
  funext e
  by_cases he : ofCpu cpu e = true
  · rw [if_pos he]
  · rw [if_neg he]
    simp only [ofCpu, decide_eq_true_eq] at he
    cases e with
    | judged j => exact if_neg (fun h => he h.1)
    | overflow c k user did => rfl
    | online c => rfl

theorem filterMap_sample (p : KgPmuParams) (denomMs now : UInt64) (cpu : Nat) (pc : KgPmuCpu)
    (kind : KgEv) :
    ∃ pc' : KgPmuCpu, pc'.counter kind = pc.counter kind ∧
      ((kgPmuSampleCpu p denomMs now cpu pc).1.map .judged).filterMap (judgedAt cpu kind)
        = if (pc.counter kind).ev then [pc'.judged p denomMs now cpu kind] else [] := by
  rw [sampleCpu_judged]
  cases kind with
  | l1d =>
      refine ⟨pc, rfl, ?_⟩
      cases (pc.counter .l1d).ev <;> cases (pc.counter .llc).ev <;>
        simp [judgedAt, KgPmuCpu.judged]
  | llc =>
      refine ⟨(kgPmuSampleKind p denomMs now cpu .l1d pc).2, ?_, ?_⟩
      · rw [sampleKind_counter, if_neg (by decide)]
      · cases (pc.counter .l1d).ev <;> cases (pc.counter .llc).ev <;>
          simp [judgedAt, KgPmuCpu.judged]

/-- What a step does to the bookkeeping of one counter. -/
theorem CpuStep.track {cpu : Nat} {s : PmuSt} {pc pc' : KgPmuCpu} {op : PmuOp}
    {evs : List PmuEvent} (h : CpuStep cpu s pc op evs pc') (kind : KgEv) :
    (evs.filterMap (judgedAt cpu kind) = [] ∧
      (pc'.counter kind).track = (pc.counter kind).track) ∨
    (∃ j, evs.filterMap (judgedAt cpu kind) = [j] ∧ op = .sample j.now ∧
      j.before = (pc.counter kind).track ∧ (pc'.counter kind).track = j.after) ∨
    (∃ created, op = .online cpu created ∧ evs.filterMap (judgedAt cpu kind) = [] ∧
      (pc'.counter kind).track = { (pc.counter kind).track with level := 0, calm := 0 }) := by
  cases h with
  | idle => exact Or.inl ⟨rfl, rfl⟩
  | offline => exact Or.inl ⟨rfl, rfl⟩
  | overflow k busy user =>
      refine Or.inl ⟨rfl, ?_⟩
      cases hignored : s.pmu.stop || busy with
      | true => rw [kgPmuOverflow_ignored hignored]
      | false =>
          rw [kgPmuOverflow_counter hignored]
          by_cases hk : kind = k
          · subst hk
            rw [Function.update_self]
          · rw [Function.update_of_ne hk]
  | sample now hup =>
      obtain ⟨pc₁, hsame, hjs⟩ := filterMap_sample s.pmu.params (kgPmuDenom s.pmu.params s.pmu.lastNs now) now
        cpu pc kind
      rw [hjs, sampleCpu_counter]
      unfold KgPmuCpu.drained
      cases hev : (pc.counter kind).ev with
      | false => exact Or.inl ⟨rfl, rfl⟩
      | true =>
          refine Or.inr (Or.inl ⟨pc₁.judged _ _ _ cpu kind, rfl, rfl, ?_, ?_⟩)
          · exact congrArg KgPmuCounter.track hsame
          · simp only [if_true, KgPmuCpu.judged, PmuJudged.after, PmuJudged.lvl, PmuJudged.rate,
              hsame]
  | online created => exact Or.inr (Or.inr ⟨created, rfl, rfl, rfl⟩)

/-- Coming online lowers the level and forgets the calm windows; the last alert is remembered. -/
def Resumes (t t' : KgPmuTrack) : Prop := t' = t ∨ t' = { t with level := 0, calm := 0 }

theorem Resumes.trans {a b c : KgPmuTrack} (hab : Resumes a b) (hbc : Resumes b c) :
    Resumes a c := by
  rcases hab with rfl | rfl
  · exact hbc
  · rcases hbc with rfl | rfl
    · exact Or.inr rfl
    · exact Or.inr rfl

/-- The CPU is not taken up or down. -/
def PmuOp.Keeps (cpu : Nat) : PmuOp → Prop
  | .online c _ => c ≠ cpu
  | .offline c => c ≠ cpu
  | _ => True

section Chain

variable (s : PmuSt) (ops : List PmuOp) (cpu : Nat) (kind : KgEv)

theorem tracked_run {R : KgPmuTrack → KgPmuTrack → Prop} {C : PmuOp → Prop} (hrefl : ∀ t, R t t)
    (htrans : ∀ {a b c}, R a b → R b c → R a c)
    (honline : ∀ created t, C (.online cpu created) → R t { t with level := 0, calm := 0 })
    (hops : ∀ op ∈ ops, C op) :
    Tracked R (s.track cpu kind) (judgements s ops cpu kind)
      ((exec pmuStep s ops).track cpu kind) := by
  rw [judgements_ofCpu]
  refine cpu_invariant_of (C := C)
    (P := fun log pc => Tracked R (s.track cpu kind) (log.filterMap (judgedAt cpu kind))
      (pc.counter kind).track) ?_ (hrefl _) ops hops
  intro log s pc op evs pc' hlog hop hstep
  rw [List.filterMap_append]
  rcases hstep.track kind with ⟨hjs, htrack⟩ | ⟨j, hjs, -, hbefore, htrack⟩ |
    ⟨created, rfl, hjs, htrack⟩
  · rw [hjs, htrack, List.append_nil]
    exact hlog
  · rw [hjs, htrack]
    rw [← hbefore] at hlog
    exact hlog.snoc hrefl
  · rw [hjs, htrack, List.append_nil]
    exact hlog.trans htrans (honline created _ hop)

theorem judgements_tracked :
    Tracked Resumes (s.track cpu kind) (judgements s ops cpu kind)
      ((exec pmuStep s ops).track cpu kind) :=
  tracked_run s ops cpu kind (C := fun _ => True) (fun _ => Or.inl rfl) Resumes.trans
    (fun _ _ _ => Or.inr rfl) (fun _ _ => trivial)

theorem judgements_tracked_eq (hops : ∀ op ∈ ops, op.Keeps cpu) :
    Tracked Eq (s.track cpu kind) (judgements s ops cpu kind)
      ((exec pmuStep s ops).track cpu kind) :=
  tracked_run s ops cpu kind (fun _ => rfl) Eq.trans (fun _ _ h => absurd rfl h) hops

/-- The time of a sampler run. -/
def PmuOp.time : PmuOp → Option UInt64
  | .sample now => some now
  | _ => none

/-- The judgements come in the order of the runs. -/
theorem judgements_sublist :
    ((judgements s ops cpu kind).map PmuJudged.now).Sublist (ops.filterMap PmuOp.time) := by
  rw [judgements_ofCpu]
  induction ops using List.reverseRecOn with
  | nil => exact List.Sublist.refl _
  | append_singleton ops op ih =>
      rw [pmuLog_snoc, List.filter_append, List.filterMap_append, List.map_append,
        List.filterMap_append]
      refine ih.append ?_
      have hstep := pmuStep_cpu (exec pmuStep s ops) op cpu
      rcases hstep.track kind with ⟨hjs, -⟩ | ⟨j, hjs, rfl, -, -⟩ | ⟨created, rfl, hjs, -⟩
      · rw [hjs]
        exact List.nil_sublist _
      · rw [hjs]
        exact List.Sublist.refl _
      · rw [hjs]
        exact List.nil_sublist _

end Chain

/-! ### Hysteresis and spacing

Everything is said of one judgement and those before it, and is proved along the
chain from the front.  The times are compared as 64-bit numbers; they do not
decrease, so no difference wraps.
-/

namespace Tracked

/-- An alert comes a second after any moment that was not after the reference time. -/
theorem alert_gap {t t' : KgPmuTrack} {mid : List PmuJudged} {b : PmuJudged}
    (h : Tracked Eq t (mid ++ [b]) t') (hnow : ∀ j ∈ mid ++ [b], t.lastAlertNs ≤ j.now)
    (hsorted : ((mid ++ [b]).map PmuJudged.now).Pairwise (· ≤ ·)) (hb : b.due = true) :
    t.lastAlertNs.toNat + nsecPerSec.toNat ≤ b.now.toNat ∧
      ((∀ j ∈ mid ++ [b], j.after.level = j.before.level) →
        t.lastAlertNs.toNat + (10 * nsecPerSec).toNat ≤ b.now.toNat) := by
  induction mid generalizing t with
  | nil =>
      have hbefore : t = b.before := h.1
      have hle := hnow b List.mem_cons_self
      rw [hbefore] at hle ⊢
      refine ⟨toNat_add_le_of_sub hle (PmuJudged.gap_of_due hb), ?_⟩
      intro hsame
      exact toNat_add_le_of_sub hle
        (PmuJudged.repeat_gap_of_due hb (hsame b List.mem_cons_self))
  | cons i mid ih =>
      have hbefore : t = i.before := h.1
      rw [List.cons_append, List.map_cons, List.pairwise_cons] at hsorted
      have hi := hnow i List.mem_cons_self
      have hlater : ∀ j ∈ mid ++ [b], i.now ≤ j.now := by
        intro j hj
        exact hsorted.1 j.now (List.mem_map_of_mem hj)
      -- the reference time moves forward, to a run before the rest
      have hafter : t.lastAlertNs ≤ i.after.lastAlertNs ∧
          ∀ j ∈ mid ++ [b], i.after.lastAlertNs ≤ j.now := by
        cases hdue : i.due with
        | true =>
            rw [PmuJudged.after_of_due hdue]
            exact ⟨hi, hlater⟩
        | false =>
            rw [(PmuJudged.after_of_not_due hdue).1, ← hbefore]
            exact ⟨UInt64.le_refl _, fun j hj => hnow j (List.mem_cons_of_mem i hj)⟩
      have hmono := UInt64.le_iff_toNat_le.mp hafter.1
      obtain ⟨hspace, hrepeat⟩ := ih h.2 hafter.2 hsorted.2
      refine ⟨by omega, ?_⟩
      intro hsame
      have hten := hrepeat (fun j hj => hsame j (List.mem_cons_of_mem i hj))
      omega

/-- A calm window that has been counted was counted by the judgement just before. -/
theorem calm_back {t t' : KgPmuTrack} {js : List PmuJudged} (h : Tracked Eq t js t')
    (hstart : t.calm = 0) (hcalm : t'.calm ≠ 0) :
    ∃ pre i, js = pre ++ [i] ∧ Tracked Eq t pre i.before ∧ i.lvl < t'.level ∧
      i.before.level = t'.level ∧ t'.calm = i.before.calm + 1 := by
  rcases List.eq_nil_or_concat js with rfl | ⟨pre, i, rfl⟩
  · have heq : t = t' := h
    exact absurd (heq ▸ hstart) hcalm
  · rw [List.concat_eq_append] at h ⊢
    obtain ⟨hpre, hlast⟩ := h.append
    have heq : i.after = t' := hlast
    subst heq
    obtain ⟨hlvl, hlevel, hplus⟩ := PmuJudged.calm_of_pos hcalm
    exact ⟨pre, i, rfl, hpre, hlvl, hlevel.symm, hplus⟩

end Tracked

/-- What the judgements `js` on a counter keep to, from the bookkeeping `t` to `t'`. -/
structure Hysteresis (t : KgPmuTrack) (js : List PmuJudged) (t' : KgPmuTrack) : Prop where
  /-- Only the judgements change the bookkeeping. -/
  tracked : Tracked Eq t js t'
  /-- Two alerts are a second apart, -/
  spacing : ∀ pre a mid b post, js = pre ++ a :: mid ++ b :: post → a.due = true → b.due = true →
    a.now.toNat + nsecPerSec.toNat ≤ b.now.toNat
  /-- and ten if the level has not changed since the first. -/
  repeats : ∀ pre a mid b post, js = pre ++ a :: mid ++ b :: post → a.due = true → b.due = true →
    (∀ j ∈ mid ++ [b], j.after.level = j.before.level) →
    a.now.toNat + (10 * nsecPerSec).toNat ≤ b.now.toNat
  /-- The level rises with an alert at the new level, -/
  rises : ∀ j ∈ js, j.before.level < j.after.level → j.due = true ∧ j.alert.level = j.after.level
  /-- and falls at the end of `KG_PMU_CALM_WINDOWS` runs below it. -/
  falls : ∀ pre j post, js = pre ++ j :: post → j.after.level < j.before.level →
    ∃ before calm, pre = before ++ calm ∧ calm.length + 1 = kgPmuCalmWindows ∧
      ∀ i ∈ calm ++ [j], i.lvl < j.before.level

theorem Tracked.falls {t t' : KgPmuTrack} {pre post : List PmuJudged} {j : PmuJudged}
    (h : Tracked Eq t (pre ++ j :: post) t') (hstart : t.calm = 0)
    (hfall : j.after.level < j.before.level) :
    ∃ before calm, pre = before ++ calm ∧ calm.length + 1 = kgPmuCalmWindows ∧
      ∀ i ∈ calm ++ [j], i.lvl < j.before.level := by
  obtain ⟨hlvl, hcalm⟩ := PmuJudged.calm_of_fall hfall
  unfold kgPmuCalmWindows at hcalm
  -- two calm windows before this one, each counted by the judgement before it
  obtain ⟨pre₁, b, rfl, h₁, hb, hblevel, hbcalm⟩ := h.append.1.calm_back hstart (by omega)
  obtain ⟨pre₂, a, rfl, -, ha, halevel, -⟩ := h₁.calm_back hstart (by omega)
  refine ⟨pre₂, [a, b], by simp, rfl, ?_⟩
  intro i hi
  simp only [List.cons_append, List.nil_append, List.mem_cons, List.not_mem_nil, or_false] at hi
  rcases hi with rfl | rfl | rfl
  · rw [← hblevel]
    exact ha
  · exact hb
  · exact hlvl

/-- Hysteresis and spacing of one counter's levels, over every run that leaves its CPU up. -/
theorem pmu_hysteresis (s : PmuSt) (ops : List PmuOp) (cpu : Nat) (kind : KgEv)
    (hfresh : (s.track cpu kind).calm = 0) (hplug : ∀ op ∈ ops, op.Keeps cpu)
    (htime : (ops.filterMap PmuOp.time).Pairwise (· ≤ ·)) :
    Hysteresis (s.track cpu kind) (judgements s ops cpu kind)
      ((exec pmuStep s ops).track cpu kind) := by
  have htracked := judgements_tracked_eq s ops cpu kind hplug
  have hsorted := htime.sublist (judgements_sublist s ops cpu kind)
  -- after an alert the chain starts again from its time
  have hgap : ∀ pre a mid b post, judgements s ops cpu kind = pre ++ a :: mid ++ b :: post →
      a.due = true → b.due = true → a.now.toNat + nsecPerSec.toNat ≤ b.now.toNat ∧
        ((∀ j ∈ mid ++ [b], j.after.level = j.before.level) →
          a.now.toNat + (10 * nsecPerSec).toNat ≤ b.now.toNat) := by
    intro pre a mid b post hjs ha hb
    have hshape : pre ++ a :: mid ++ b :: post = pre ++ a :: (mid ++ b :: post) := by simp
    rw [hjs, hshape] at htracked hsorted
    rw [List.map_append, List.map_cons] at hsorted
    have hsuffix := (List.pairwise_append.mp hsorted).2.1
    have hmid : (mid ++ [b]).Sublist (mid ++ b :: post) :=
      (List.Sublist.refl mid).append (List.singleton_sublist.mpr List.mem_cons_self)
    have hrest := (List.pairwise_cons.mp hsuffix)
    have hafter := PmuJudged.after_of_due ha
    obtain ⟨hbefore, -⟩ := htracked.append.2.append
    have hchain : Tracked Eq a.after (mid ++ [b]) b.after := hbefore.snoc (fun _ => rfl)
    have hnow : ∀ j ∈ mid ++ [b], a.after.lastAlertNs ≤ j.now := by
      intro j hj
      rw [hafter]
      exact hrest.1 j.now (List.mem_map_of_mem (hmid.subset hj))
    have hres := hchain.alert_gap hnow (hrest.2.sublist (hmid.map PmuJudged.now)) hb
    rw [hafter] at hres
    exact hres
  refine ⟨htracked, ?_, ?_, ?_, ?_⟩
  · intro pre a mid b post hjs ha hb
    exact (hgap pre a mid b post hjs ha hb).1
  · intro pre a mid b post hjs ha hb
    exact (hgap pre a mid b post hjs ha hb).2
  · intro j _ hrise
    have hdue := PmuJudged.due_of_rise hrise
    refine ⟨hdue, ?_⟩
    rw [PmuJudged.after_of_due hdue]
    rfl
  · intro pre j post hjs hfall
    rw [hjs] at htracked
    exact htracked.falls hfresh hfall

/-- One CPU, a window of 100 ms, `pmu_warn=1` and `pmu_crit=2`. -/
def twitchy : PmuSt := ⟨oneCpu, kgPmuInit ⟨100, 1, 2⟩ oneCpu 0 fun _ _ => true⟩

def missL1d : PmuOp := .overflow 0 .l1d false none

/-- A watch alert after a second, and half a second later a critical rate. -/
def burst : List PmuOp := [missL1d, .sample 1000000000, missL1d, .sample 1500000000]

theorem pmu_hysteresis_burst :
    (twitchy.track 0 .l1d).calm = 0 ∧
      Hysteresis (twitchy.track 0 .l1d) (judgements twitchy burst 0 .l1d)
        ((exec pmuStep twitchy burst).track 0 .l1d) := by
  refine ⟨rfl, pmu_hysteresis twitchy burst 0 .l1d rfl ?_ (by decide)⟩
  intro op hop
  simp only [burst, missL1d, List.mem_cons, List.not_mem_nil, or_false] at hop
  rcases hop with rfl | rfl | rfl | rfl
  all_goals exact trivial

/-! ### Deferral

Inside the spacing interval a judgement computes a level and does not raise it.  The
next one computes its level anew from its own window, so what was deferred is made
up for exactly if that level is still high.
-/

/-- The rate reaches a threshold of `lvl` or above. -/
def Reaches (p : KgPmuParams) (rate : UInt64) (lvl : UInt32) : Prop :=
  (kgPmuThresholds p).2.toUInt64 ≤ rate ∨
    (lvl ≤ kgLevelWatch ∧ (kgPmuThresholds p).1.toUInt64 ≤ rate)

theorem kgPmuLevel_le (p : KgPmuParams) (rate : UInt64) : kgPmuLevel p rate ≤ kgLevelCritical := by
  rw [kgPmuLevel_eq]
  split
  · decide
  · split <;> decide

theorem le_kgPmuLevel_iff {p : KgPmuParams} {rate : UInt64} {lvl : UInt32} (hpos : 0 < lvl)
    (hle : lvl ≤ kgLevelCritical) : lvl ≤ kgPmuLevel p rate ↔ Reaches p rate lvl := by
  rw [kgPmuLevel_eq]
  unfold Reaches
  by_cases hcrit : rate ≥ (kgPmuThresholds p).2.toUInt64
  · rw [if_pos hcrit]
    exact ⟨fun _ => Or.inl hcrit, fun _ => hle⟩
  · rw [if_neg hcrit]
    by_cases hwarn : rate ≥ (kgPmuThresholds p).1.toUInt64
    · rw [if_pos hwarn]
      exact ⟨fun h => Or.inr ⟨h, hwarn⟩, fun h => h.elim (fun h => absurd h hcrit) (fun h => h.1)⟩
    · rw [if_neg hwarn]
      refine ⟨fun h => absurd (UInt32.lt_of_lt_of_le hpos h) (UInt32.lt_irrefl _), ?_⟩
      intro h
      rcases h with h | h
      · exact absurd h hcrit
      · exact absurd h.2 hwarn

/-- Inside the spacing interval nothing is raised, and the level can only fall. -/
theorem Tracked.quiet {t t' : KgPmuTrack} {js : List PmuJudged} (h : Tracked Resumes t js t')
    (hsoon : ∀ j ∈ js, j.now - t.lastAlertNs < nsecPerSec) :
    t'.lastAlertNs = t.lastAlertNs ∧ t'.level ≤ t.level := by
  have hresumes : ∀ {t t' : KgPmuTrack}, Resumes t t' →
      t'.lastAlertNs = t.lastAlertNs ∧ t'.level ≤ t.level := by
    intro t t' h
    rcases h with rfl | rfl
    · exact ⟨rfl, UInt32.le_refl _⟩
    · exact ⟨rfl, UInt32.zero_le⟩
  induction js generalizing t with
  | nil => exact hresumes h
  | cons j js ih =>
      obtain ⟨hlast, hlevel⟩ := hresumes h.1
      have hnot : j.due = false := by
        by_contra hdue
        have hgap := PmuJudged.gap_of_due (by simpa using hdue)
        rw [hlast] at hgap
        exact UInt64.not_lt.mpr hgap (hsoon j List.mem_cons_self)
      obtain ⟨hafter, hfall⟩ := PmuJudged.after_of_not_due hnot
      rw [hlast] at hafter
      obtain ⟨hlast', hlevel'⟩ := ih h.2 (by
        intro i hi
        rw [hafter]
        exact hsoon i (List.mem_cons_of_mem j hi))
      exact ⟨hlast'.trans hafter,
        UInt32.le_trans hlevel' (UInt32.le_trans hfall hlevel)⟩

/-- A deferred escalation is made up for at the first run a second after the last alert exactly
if the rate of that run still reaches the level. -/
theorem deferred_escalation_iff (s : PmuSt) (ops : List PmuOp) (cpu : Nat) (kind : KgEv)
    (pre : List PmuJudged) (a : PmuJudged) (mid : List PmuJudged) (b : PmuJudged)
    (post : List PmuJudged) (hjs : judgements s ops cpu kind = pre ++ a :: mid ++ b :: post)
    (hlvl : a.lvl > a.before.level) (hdefer : a.now - a.before.lastAlertNs < nsecPerSec)
    (hmid : ∀ j ∈ mid, j.now - a.before.lastAlertNs < nsecPerSec)
    (hfirst : b.now - a.before.lastAlertNs ≥ nsecPerSec) :
    (b.due = true ∧ b.alert.level ≥ a.lvl) ↔ Reaches b.params b.rate a.lvl := by
  have htracked := judgements_tracked s ops cpu kind
  rw [hjs, show pre ++ a :: mid ++ b :: post = pre ++ a :: (mid ++ b :: post) by simp] at htracked
  have hbetween : Tracked Resumes a.before (a :: mid) b.before :=
    ⟨Or.inl rfl, htracked.append.2.append.1⟩
  obtain ⟨hlast, hlevel⟩ := hbetween.quiet (by
    intro j hj
    rcases List.mem_cons.mp hj with rfl | hj
    · exact hdefer
    · exact hmid j hj)
  have hpos : 0 < a.lvl := UInt32.lt_of_le_of_lt UInt32.zero_le hlvl
  rw [← le_kgPmuLevel_iff hpos (kgPmuLevel_le _ _)]
  constructor
  · exact fun h => h.2
  · intro hreach
    refine ⟨(KgPmuTrack.due_iff _ _ _).mpr (Or.inl ⟨?_, ?_⟩), hreach⟩
    · exact UInt32.lt_of_le_of_lt hlevel (UInt32.lt_of_lt_of_le hlvl hreach)
    · rw [hlast]
      exact hfirst

/-- The burst that goes on is raised as critical at the next run. -/
theorem deferred_escalation_iff_lasting :
    ∃ pre a b, judgements twitchy (burst ++ [missL1d, missL1d, .sample 2500000000]) 0 .l1d
        = pre ++ a :: [] ++ b :: [] ∧ a.lvl = kgLevelCritical ∧
      b.due = true ∧ b.alert.level ≥ a.lvl := by
  refine ⟨[_], _, _, rfl, by decide, ?_⟩
  refine (deferred_escalation_iff twitchy (burst ++ [missL1d, missL1d, .sample 2500000000]) 0 .l1d
    [_] _ [] _ [] rfl (by decide) (by decide) (by simp) (by decide)).mpr ?_
  exact Or.inl (by decide)

/-- A burst that ends inside the spacing interval is never raised. -/
theorem deferred_escalation_lost :
    ¬ ∀ (ops : List PmuOp) (pre : List PmuJudged) (a : PmuJudged) (mid : List PmuJudged)
      (b : PmuJudged) (post : List PmuJudged),
      judgements twitchy ops 0 .l1d = pre ++ a :: mid ++ b :: post → a.lvl > a.before.level →
      a.now - a.before.lastAlertNs < nsecPerSec →
      (∀ j ∈ mid, j.now - a.before.lastAlertNs < nsecPerSec) →
      b.now - a.before.lastAlertNs ≥ nsecPerSec → b.due = true ∧ b.alert.level ≥ a.lvl := by
  intro h
  have hraised := h (burst ++ [.sample 2500000000]) [_] _ [] _ [] rfl (by decide) (by decide)
    (by simp) (by decide)
  exact absurd hraised (by decide)

end KernelGuard
