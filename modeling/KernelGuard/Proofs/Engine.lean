/-
The incident table of the escalation engine.

`incident_slot` is a least-recently-used table: `cells` is the engine seen as one, and
`incidentSlot_picks` says that the scan takes the cell that `Lru.Picks` describes.
The rest of the file is what one operation does to the table, for the proofs about
whole runs to use.

The scan keeps two candidates, a free slot and the oldest used one, and the
invariant of its loop says what they are for the slots passed so far; it is an
induction over the slots that are left.  Behind it the proofs speak of `cells` only.
A touch of a key in a table whose keys are distinct leaves them distinct, which is
why one invariant, `TableInv`, carries the whole run.
-/
import KernelGuard.Model.Policy
import KernelGuard.Lib.Lru
import KernelGuard.Lib.Run

namespace KernelGuard

open Lru

/-- What an incident is about: one rule, one alert type, one first parameter. -/
structure KgpKey where
  rule : Nat
  code : UInt32
  p1 : UInt64
  deriving DecidableEq, Repr

def KgpIncident.key (inc : KgpIncident) : KgpKey := ⟨inc.rule, inc.code, inc.p1⟩

/-- The key of the incident that `al` belongs to under rule `ri`. -/
def KgpAlert.keyFor (al : KgpAlert) (ri : Nat) : KgpKey := ⟨ri, al.code, al.param1⟩

/-- The engine as a table of keys, stamped with the time of the last arrival. -/
def cells (e : KgpEngine) : Table kgpMaxIncidents KgpKey :=
  fun i => if (e i).used then some ((e i).key, (e i).lastS.toNat) else none

theorem cells_eq_some {e : KgpEngine} {i : Fin kgpMaxIncidents} {k : KgpKey} {s : Nat} :
    cells e i = some (k, s) ↔ (e i).used = true ∧ (e i).key = k ∧ (e i).lastS.toNat = s := by
  unfold cells
  by_cases h : (e i).used = true
  · rw [if_pos h]
    simp [h]
  · rw [if_neg h]
    simp [h]

theorem cells_eq_none {e : KgpEngine} {i : Fin kgpMaxIncidents} :
    cells e i = none ↔ (e i).used = false := by
  unfold cells
  by_cases h : (e i).used = true
  · simp [h]
  · simp [h]

theorem isFor_iff {inc : KgpIncident} {rule : Nat} {code : UInt32} {p1 : UInt64} :
    inc.isFor rule code p1 = true ↔ inc.used = true ∧ inc.key = ⟨rule, code, p1⟩ := by
  simp [KgpIncident.isFor, KgpIncident.key, and_assoc]

/-! ### The scan

A hit ends the scan at once, so the candidates matter only if there is none.
"Oldest" is strict in the code, hence the first of several oldest slots is taken,
and the induction has to keep which one it was.
-/

section Scan

variable {e : KgpEngine} {rule : Nat} {code : UInt32} {p1 : UInt64}

/-- `o` is the first of the least recently used among the used slots of `pre`. -/
structure Oldest (e : KgpEngine) (pre : List (Fin kgpMaxIncidents)) (o : Fin kgpMaxIncidents) :
    Prop where
  mem : o ∈ pre
  used : (e o).used = true
  least : ∀ j ∈ pre, (e j).used = true → (e o).lastS ≤ (e j).lastS
  first : ∀ j ∈ pre, (e j).used = true → j < o → (e o).lastS < (e j).lastS

theorem forall_mem_snoc {pre : List (Fin kgpMaxIncidents)} {i : Fin kgpMaxIncidents}
    {P : Fin kgpMaxIncidents → Prop} (h : ∀ j ∈ pre, P j) (hi : P i) : ∀ j ∈ pre ++ [i], P j :=
  List.forall_mem_append.mpr ⟨h, List.forall_mem_singleton.mpr hi⟩

/-- The first used slot, or a strictly older one, is the new candidate. -/
theorem Oldest.new {pre : List (Fin kgpMaxIncidents)} {i : Fin kgpMaxIncidents}
    (hi : (e i).used = true) (hpre : ∀ j ∈ pre, (e j).used = true → (e i).lastS < (e j).lastS) :
    Oldest e (pre ++ [i]) i where
  mem := by simp
  used := hi
  least := forall_mem_snoc (fun j hj hused => UInt64.le_of_lt (hpre j hj hused))
    fun _ => UInt64.le_refl _
  first := forall_mem_snoc (fun j hj hused _ => hpre j hj hused)
    fun _ hlt => absurd hlt (Fin.lt_irrefl i)

/-- A slot that is unused or not strictly older leaves the candidate. -/
theorem Oldest.keep {pre : List (Fin kgpMaxIncidents)} {i o : Fin kgpMaxIncidents}
    (h : Oldest e pre o) (hi : (e i).used = true → ¬ (e i).lastS < (e o).lastS)
    (hafter : o < i) : Oldest e (pre ++ [i]) o where
  mem := List.mem_append_left _ h.mem
  used := h.used
  least := forall_mem_snoc h.least fun hused => UInt64.not_lt.mp (hi hused)
  first := forall_mem_snoc h.first fun _ hlt => absurd hafter (Fin.lt_asymm hlt)

/-- What the candidates are when the scan has passed `pre` without a hit. -/
structure ScanOK (e : KgpEngine) (rule : Nat) (code : UInt32) (p1 : UInt64)
    (pre : List (Fin kgpMaxIncidents)) (freeSlot oldest : Option (Fin kgpMaxIncidents)) :
    Prop where
  miss : ∀ j ∈ pre, (e j).isFor rule code p1 = false
  free : ∀ f, freeSlot = some f → (e f).used = false
  noFree : freeSlot = none → ∀ j ∈ pre, (e j).used = true
  old : ∀ o, oldest = some o → Oldest e pre o
  noOld : oldest = none → ∀ j ∈ pre, (e j).used = false

/-- The free candidate after one more slot. -/
theorem freeSlot_step {pre : List (Fin kgpMaxIncidents)} {freeSlot : Option (Fin kgpMaxIncidents)}
    {i : Fin kgpMaxIncidents} (hfree : ∀ f, freeSlot = some f → (e f).used = false)
    (hnoFree : freeSlot = none → ∀ j ∈ pre, (e j).used = true) :
    (∀ f, (if !(e i).used && freeSlot.isNone then some i else freeSlot) = some f →
        (e f).used = false) ∧
      ((if !(e i).used && freeSlot.isNone then some i else freeSlot) = none →
        ∀ j ∈ pre ++ [i], (e j).used = true) := by
  by_cases hnew : (!(e i).used && freeSlot.isNone) = true
  · rw [if_pos hnew]
    refine ⟨?_, fun hnone => absurd hnone (by simp)⟩
    intro f hf
    rw [← Option.some.inj hf]
    simp only [Bool.and_eq_true, Bool.not_eq_true'] at hnew
    exact hnew.1
  · rw [if_neg hnew]
    refine ⟨hfree, fun hnone => forall_mem_snoc (hnoFree hnone) ?_⟩
    simpa [hnone] using hnew

/-- The oldest candidate, as `incidentScan` updates it. -/
def nextOldest (e : KgpEngine) (i : Fin kgpMaxIncidents) (oldest : Option (Fin kgpMaxIncidents)) :
    Option (Fin kgpMaxIncidents) :=
  match oldest with
  | none => if (e i).used then some i else none
  | some o => if (e i).used && (e i).lastS < (e o).lastS then some i else some o

/-- The oldest candidate after one more slot. -/
theorem oldest_step {pre : List (Fin kgpMaxIncidents)} {oldest : Option (Fin kgpMaxIncidents)}
    {i : Fin kgpMaxIncidents} (hafter : ∀ j ∈ pre, j < i)
    (hold : ∀ o, oldest = some o → Oldest e pre o)
    (hnoOld : oldest = none → ∀ j ∈ pre, (e j).used = false) :
    (∀ o, nextOldest e i oldest = some o → Oldest e (pre ++ [i]) o) ∧
      (nextOldest e i oldest = none → ∀ j ∈ pre ++ [i], (e j).used = false) := by
  unfold nextOldest
  rcases oldest with _ | o'
  · by_cases hused : (e i).used = true
    · simp only [hused, if_true]
      refine ⟨?_, fun hnone => absurd hnone (by simp)⟩
      intro o ho
      rw [← Option.some.inj ho]
      refine Oldest.new hused fun j hj hj' => ?_
      rw [hnoOld rfl j hj] at hj'
      exact absurd hj' (by simp)
    · simp only [hused, if_false, Bool.false_eq_true]
      exact ⟨fun o ho => absurd ho (by simp),
        fun _ => forall_mem_snoc (hnoOld rfl) (by simpa using hused)⟩
  · have hold' := hold o' rfl
    by_cases hlt : ((e i).used && decide ((e i).lastS < (e o').lastS)) = true
    · simp only [hlt, if_true]
      refine ⟨?_, fun hnone => absurd hnone (by simp)⟩
      intro o ho
      rw [← Option.some.inj ho]
      simp only [Bool.and_eq_true, decide_eq_true_eq] at hlt
      exact Oldest.new hlt.1 fun j hj hused =>
        UInt64.lt_of_lt_of_le hlt.2 (hold'.least j hj hused)
    · simp only [hlt, if_false, Bool.false_eq_true]
      refine ⟨?_, fun hnone => absurd hnone (by simp)⟩
      intro o ho
      rw [← Option.some.inj ho]
      simp only [Bool.and_eq_true, decide_eq_true_eq, not_and] at hlt
      exact hold'.keep hlt (hafter o' hold'.mem)

/-- One round of the scan. -/
theorem ScanOK.step {pre : List (Fin kgpMaxIncidents)}
    {freeSlot oldest : Option (Fin kgpMaxIncidents)} {i : Fin kgpMaxIncidents}
    (hmiss : (e i).isFor rule code p1 = false) (hafter : ∀ j ∈ pre, j < i)
    (h : ScanOK e rule code p1 pre freeSlot oldest) :
    ScanOK e rule code p1 (pre ++ [i])
      (if !(e i).used && freeSlot.isNone then some i else freeSlot) (nextOldest e i oldest) := by
  obtain ⟨hfree, hnoFree⟩ := freeSlot_step h.free h.noFree
  obtain ⟨hold, hnoOld⟩ := oldest_step hafter h.old h.noOld
  exact ⟨forall_mem_snoc h.miss hmiss, hfree, hnoFree, hold, hnoOld⟩

/-- The scan ends with a hit, or with the candidates of the whole list. -/
theorem incidentScan_spec (l : List (Fin kgpMaxIncidents)) :
    ∀ (pre : List (Fin kgpMaxIncidents)) (freeSlot oldest : Option (Fin kgpMaxIncidents)),
      ScanOK e rule code p1 pre freeSlot oldest → (pre ++ l).Pairwise (· < ·) →
      (∃ i, incidentScan e rule code p1 l freeSlot oldest = (some i, false) ∧
          (e i).isFor rule code p1 = true) ∨
        ∃ f o, incidentScan e rule code p1 l freeSlot oldest = (f.or o, true) ∧
          ScanOK e rule code p1 (pre ++ l) f o := by
  induction l with
  | nil =>
      intro pre freeSlot oldest h _
      exact Or.inr ⟨freeSlot, oldest, rfl, by simpa using h⟩
  | cons i rest ih =>
      intro pre freeSlot oldest h hsorted
      unfold incidentScan
      by_cases hhit : (e i).isFor rule code p1 = true
      · rw [if_pos hhit]
        exact Or.inl ⟨i, rfl, hhit⟩
      · rw [if_neg hhit]
        have hafter : ∀ j ∈ pre, j < i := by
          intro j hj
          exact (List.pairwise_append.mp hsorted).2.2 j hj i (by simp)
        have hstep := ScanOK.step (by simpa using hhit) hafter h
        have hcons : pre ++ i :: rest = pre ++ [i] ++ rest := by simp
        rw [hcons] at hsorted ⊢
        exact ih _ _ (nextOldest e i oldest) hstep hsorted

/-- What `incident_slot` returns. -/
inductive SlotOf (e : KgpEngine) (rule : Nat) (code : UInt32) (p1 : UInt64)
    (i : Fin kgpMaxIncidents) (fresh : Bool) : Prop
  | hit (old : fresh = false) (isFor : (e i).isFor rule code p1 = true)
  | free (new : fresh = true) (miss : ∀ j, (e j).isFor rule code p1 = false)
      (unused : (e i).used = false)
  | evict (new : fresh = true) (miss : ∀ j, (e j).isFor rule code p1 = false)
      (full : ∀ j, (e j).used = true) (oldest : Oldest e (List.finRange kgpMaxIncidents) i)

theorem incidentSlot_spec (e : KgpEngine) (rule : Nat) (code : UInt32) (p1 : UInt64) :
    SlotOf e rule code p1 (incidentSlot e rule code p1).1 (incidentSlot e rule code p1).2 := by
  have hstart : ScanOK e rule code p1 [] none none :=
    ⟨by simp, by simp, by simp, by simp, by simp⟩
  have hmem : ∀ j : Fin kgpMaxIncidents, j ∈ List.finRange kgpMaxIncidents := List.mem_finRange
  rcases incidentScan_spec (List.finRange kgpMaxIncidents) [] none none hstart
      (List.pairwise_lt_finRange _) with ⟨i, heq, hhit⟩ | ⟨f, o, heq, hok⟩
  · have hslot : incidentSlot e rule code p1 = (i, false) := by simp [incidentSlot, heq]
    rw [hslot]
    exact .hit rfl hhit
  · simp only [List.nil_append] at hok
    have hmiss : ∀ j, (e j).isFor rule code p1 = false := fun j => hok.miss j (hmem j)
    rcases f with _ | f
    · have hfull : ∀ j, (e j).used = true := fun j => hok.noFree rfl j (hmem j)
      rcases o with _ | o
      · have hnone := hok.noOld rfl 0 (hmem 0)
        rw [hfull 0] at hnone
        exact absurd hnone (by simp)
      · have hslot : incidentSlot e rule code p1 = (o, true) := by simp [incidentSlot, heq]
        rw [hslot]
        exact .evict rfl hmiss hfull (hok.old o rfl)
    · have hslot : incidentSlot e rule code p1 = (f, true) := by simp [incidentSlot, heq]
      rw [hslot]
      exact .free rfl hmiss (hok.free f rfl)

/-- The scan takes the cell that a least-recently-used table takes. -/
theorem incidentSlot_picks (e : KgpEngine) (rule : Nat) (code : UInt32) (p1 : UInt64) :
    Picks (cells e) ⟨rule, code, p1⟩ (incidentSlot e rule code p1).1 := by
  have hnot : (∀ j, (e j).isFor rule code p1 = false) → ¬ Held (cells e) ⟨rule, code, p1⟩ := by
    rintro hmiss ⟨j, s, hj⟩
    obtain ⟨hused, hkey, -⟩ := cells_eq_some.mp hj
    have := isFor_iff.mpr ⟨hused, hkey⟩
    rw [hmiss j] at this
    exact absurd this (by simp)
  cases incidentSlot_spec e rule code p1 with
  | hit _ isFor =>
      obtain ⟨hused, hkey⟩ := isFor_iff.mp isFor
      exact .hit (cells_eq_some.mpr ⟨hused, hkey, rfl⟩)
  | free _ miss unused => exact .free (hnot miss) (cells_eq_none.mpr unused)
  | evict _ miss full oldest =>
      refine .evict (hnot miss) (cells_eq_some.mpr ⟨oldest.used, rfl, rfl⟩) ?_ ?_ ?_
      · intro j hj
        rw [cells_eq_none, full j] at hj
        exact absurd hj (by simp)
      · intro j y r hj
        obtain ⟨hused, -, rfl⟩ := cells_eq_some.mp hj
        exact UInt64.le_iff_toNat_le.mp (oldest.least j (List.mem_finRange j) hused)
      · intro j y r hj hlt
        obtain ⟨hused, -, rfl⟩ := cells_eq_some.mp hj
        exact UInt64.lt_iff_toNat_lt.mp (oldest.first j (List.mem_finRange j) hused hlt)

end Scan

/-! ### One arrival

The `run` callbacks of an arrival change times and counters of the incident but not
its key and not the time of the arrival, so what is entered in the slot can be
described before they run.
-/

/-- The incident that rule `ri` has for `al` right after it arrived at `now`. -/
structure Arrived (ri : Nat) (now : UInt64) (al : KgpAlert) (inc : KgpIncident) : Prop where
  used : inc.used = true
  key : inc.key = al.keyFor ri
  lastS : inc.lastS = now
  last : inc.last = al
  acked : inc.acked = false

theorem Arrived.runBase {ri : Nat} {now : UInt64} {al : KgpAlert} {inc : KgpIncident}
    (h : Arrived ri now al inc) (pol : KgpPolicy) (r : KgpRule) (fresh : Bool) :
    Arrived ri now al (inc.runBase pol r now fresh).1 := by
  unfold KgpIncident.runBase
  split
  · exact ⟨h.used, h.key, h.lastS, h.last, h.acked⟩
  · exact h

theorem Arrived.runRepeat {ri : Nat} {now : UInt64} {al : KgpAlert} {inc : KgpIncident}
    (h : Arrived ri now al inc) (pol : KgpPolicy) (r : KgpRule) :
    Arrived ri now al (inc.runRepeat pol r now).1 := by
  unfold KgpIncident.runRepeat
  split
  · simp only
    split
    · exact ⟨h.used, h.key, h.lastS, h.last, h.acked⟩
    · exact h
  · exact h

/-- A slot that `incident_slot` returned, after the alert has been entered there. -/
theorem arrive_arrived {e : KgpEngine} {ri : Nat} {al : KgpAlert} {i : Fin kgpMaxIncidents}
    {fresh : Bool} (h : SlotOf e ri al.code al.param1 i fresh) (now : UInt64) :
    Arrived ri now al ((e i).arrive ri now al (fresh || (e i).acked)) := by
  by_cases hfresh : (fresh || (e i).acked) = true
  · simp only [KgpIncident.arrive, hfresh, if_true]
    exact ⟨rfl, rfl, rfl, rfl, rfl⟩
  · have hold : fresh = false ∧ (e i).acked = false := by simpa using hfresh
    cases h with
    | hit old isFor =>
        obtain ⟨hused, hkey⟩ := isFor_iff.mp isFor
        simp only [KgpIncident.arrive, hfresh, if_false, Bool.false_eq_true]
        exact ⟨hused, hkey, rfl, rfl, hold.2⟩
    | free new => exact absurd new (by simp [hold.1])
    | evict new => exact absurd new (by simp [hold.1])

/-- The test of `kgp_alert` for a repetition. -/
def KgpIncident.repeats (r : KgpRule) (now : UInt64) (inc : KgpIncident) : Bool :=
  inc.count ≥ r.repeatN
    && now - inc.recent (Fin.ofNat kgpMaxRepeat (inc.count - r.repeatN).toNat)
      ≤ r.repeatWindowS.toUInt64

theorem runRepeat_eq (pol : KgpPolicy) (r : KgpRule) (now : UInt64) (inc : KgpIncident) :
    inc.runRepeat pol r now
      = if r.repeatN ≠ 0 && !inc.escalated && inc.repeats r now then
          ({ inc with escalated := true },
            runMask pol r.thenMask { inc with escalated := true } 1)
        else (inc, []) := by
  unfold KgpIncident.runRepeat KgpIncident.repeats
  by_cases hready : (r.repeatN ≠ 0 && !inc.escalated && inc.count ≥ r.repeatN) = true
  · rw [if_pos hready]
    rw [← Bool.and_assoc, hready, Bool.true_and]
    simp only [decide_eq_true_eq]
  · rw [if_neg hready, if_neg]
    intro hall
    rw [← Bool.and_assoc, Bool.and_eq_true] at hall
    exact hready hall.1

/-- The slot that rule `ri` enters `al` in. -/
def alertSlot (e : KgpEngine) (ri : Nat) (al : KgpAlert) : Fin kgpMaxIncidents :=
  (incidentSlot e ri al.code al.param1).1

/-- A matching rule changes one slot, and leaves the alert's incident there. -/
theorem kgpAlertRule_arrived (pol : KgpPolicy) (ri : Nat) (r : KgpRule) (now : UInt64)
    (al : KgpAlert) (e : KgpEngine) :
    ∃ inc, Arrived ri now al inc ∧
      (kgpAlertRule pol ri r now al e).1 = Function.update e (alertSlot e ri al) inc := by
  have harr := arrive_arrived (incidentSlot_spec e ri al.code al.param1) now
  exact ⟨_, (harr.runBase pol r _).runRepeat pol r, rfl⟩

/-- In the table, that is a touch of its key. -/
theorem cells_update {e : KgpEngine} {ri : Nat} {now : UInt64} {al : KgpAlert}
    {inc : KgpIncident} (h : Arrived ri now al inc) (i : Fin kgpMaxIncidents) :
    cells (Function.update e i inc) = touch (cells e) i (al.keyFor ri) now.toNat := by
  funext j
  by_cases hj : j = i
  · subst hj
    rw [touch, Function.update_self, cells_eq_some, Function.update_self]
    exact ⟨h.used, h.key, by rw [h.lastS]⟩
  · rw [touch, Function.update_of_ne hj]
    simp only [cells, Function.update_of_ne hj]

theorem cells_kgpAlertRule (pol : KgpPolicy) (ri : Nat) (r : KgpRule) (now : UInt64)
    (al : KgpAlert) (e : KgpEngine) :
    cells (kgpAlertRule pol ri r now al e).1
      = touch (cells e) (alertSlot e ri al) (al.keyFor ri) now.toNat := by
  obtain ⟨inc, harr, heq⟩ := kgpAlertRule_arrived pol ri r now al e
  rw [heq, cells_update harr]

/-! ### One alert

An alert may match several rules, and each enters it under a key of its own.  The
keys are distinct because the rule's index is part of them, so the turns of one
alert do not meet.
-/

/-- The indices of the rules that match, counted from `ri`. -/
def matchingFrom (al : KgpAlert) : Nat → List KgpRule → List Nat
  | _, [] => []
  | ri, r :: rest =>
      if ruleMatches r al then ri :: matchingFrom al (ri + 1) rest
      else matchingFrom al (ri + 1) rest

theorem mem_matchingFrom {al : KgpAlert} {rules : List KgpRule} :
    ∀ {ri i : Nat}, i ∈ matchingFrom al ri rules ↔
      ∃ j r, rules[j]? = some r ∧ i = ri + j ∧ ruleMatches r al = true := by
  induction rules with
  | nil => simp [matchingFrom]
  | cons r rest ih =>
      intro ri i
      have hsplit : (∃ j q, (r :: rest)[j]? = some q ∧ i = ri + j ∧ ruleMatches q al = true) ↔
          (i = ri ∧ ruleMatches r al = true) ∨
            ∃ j q, rest[j]? = some q ∧ i = ri + 1 + j ∧ ruleMatches q al = true := by
        refine ⟨?_, ?_⟩
        · rintro ⟨j, q, hq, hi, hm⟩
          rcases j with _ | j
          · simp only [List.getElem?_cons_zero, Option.some.injEq] at hq
            exact Or.inl ⟨hi, hq ▸ hm⟩
          · exact Or.inr ⟨j, q, by simpa using hq, by omega, hm⟩
        · rintro (⟨hi, hm⟩ | ⟨j, q, hq, hi, hm⟩)
          · exact ⟨0, r, rfl, hi, hm⟩
          · exact ⟨j + 1, q, by simpa using hq, by omega, hm⟩
      rw [matchingFrom, hsplit, ← ih]
      by_cases hm : ruleMatches r al = true
      · rw [if_pos hm, List.mem_cons]
        simp [hm]
      · rw [if_neg hm]
        simp [hm]

theorem matchingFrom_nodup (al : KgpAlert) (rules : List KgpRule) :
    ∀ ri, (matchingFrom al ri rules).Nodup := by
  induction rules with
  | nil => simp [matchingFrom]
  | cons r rest ih =>
      intro ri
      unfold matchingFrom
      by_cases hm : ruleMatches r al = true
      · rw [if_pos hm, List.nodup_cons]
        refine ⟨?_, ih (ri + 1)⟩
        intro hmem
        obtain ⟨j, q, -, hi, -⟩ := mem_matchingFrom.mp hmem
        omega
      · rw [if_neg hm]
        exact ih (ri + 1)

/-- The keys an alert touches, in the order of the rules. -/
def matchingKeys (pol : KgpPolicy) (al : KgpAlert) : List KgpKey :=
  (matchingFrom al 0 pol.rules).map al.keyFor

theorem mem_matchingKeys {pol : KgpPolicy} {al : KgpAlert} {k : KgpKey} :
    k ∈ matchingKeys pol al ↔
      ∃ ri r, pol.rules[ri]? = some r ∧ ruleMatches r al = true ∧ k = al.keyFor ri := by
  simp only [matchingKeys, List.mem_map, mem_matchingFrom, Nat.zero_add]
  refine ⟨?_, ?_⟩
  · rintro ⟨i, ⟨j, r, hr, rfl, hm⟩, rfl⟩
    exact ⟨i, r, hr, hm, rfl⟩
  · rintro ⟨ri, r, hr, hm, rfl⟩
    exact ⟨ri, ⟨ri, r, hr, rfl, hm⟩, rfl⟩

theorem keyFor_injective (al : KgpAlert) : Function.Injective al.keyFor := by
  intro i j h
  exact congrArg KgpKey.rule h

theorem matchingKeys_nodup (pol : KgpPolicy) (al : KgpAlert) : (matchingKeys pol al).Nodup :=
  (matchingFrom_nodup al pol.rules 0).map (keyFor_injective al)

/-- The rule of the key `k`, if the alert belongs to the incident `k` and the rule matches. -/
def KgpKey.ruleFor (pol : KgpPolicy) (al : KgpAlert) (k : KgpKey) : Option KgpRule :=
  if k = al.keyFor k.rule then (pol.rules[k.rule]?).filter (ruleMatches · al) else none

theorem ruleFor_eq_some {pol : KgpPolicy} {al : KgpAlert} {k : KgpKey} {r : KgpRule} :
    k.ruleFor pol al = some r ↔
      k = al.keyFor k.rule ∧ pol.rules[k.rule]? = some r ∧ ruleMatches r al = true := by
  unfold KgpKey.ruleFor
  by_cases hk : k = al.keyFor k.rule
  · rw [if_pos hk, Option.filter_eq_some_iff]
    exact ⟨fun h => ⟨hk, h⟩, fun h => h.2⟩
  · rw [if_neg hk]
    exact ⟨fun h => absurd h (by simp), fun h => absurd h.1 hk⟩

theorem ruleFor_isSome_iff {pol : KgpPolicy} {al : KgpAlert} {k : KgpKey} :
    (k.ruleFor pol al).isSome = true ↔ k ∈ matchingKeys pol al := by
  rw [Option.isSome_iff_exists, mem_matchingKeys]
  simp only [ruleFor_eq_some]
  refine ⟨?_, ?_⟩
  · rintro ⟨r, hk, hr, hm⟩
    exact ⟨k.rule, r, hr, hm, hk⟩
  · rintro ⟨ri, r, hr, hm, rfl⟩
    exact ⟨r, rfl, hr, hm⟩

/-- One round of the loop of `kgp_alert`, for a rule that matches. -/
theorem kgpAlertFrom_cons_pos (pol : KgpPolicy) (now : UInt64) {al : KgpAlert} (ri : Nat)
    {r : KgpRule} (rest : List KgpRule) (e : KgpEngine) (hm : ruleMatches r al = true) :
    kgpAlertFrom pol now al ri (r :: rest) e
      = ((kgpAlertFrom pol now al (ri + 1) rest (kgpAlertRule pol ri r now al e).1).1,
        (kgpAlertRule pol ri r now al e).2
          ++ (kgpAlertFrom pol now al (ri + 1) rest (kgpAlertRule pol ri r now al e).1).2) := by
  rw [kgpAlertFrom, if_pos hm]

theorem kgpAlertFrom_cons_neg (pol : KgpPolicy) (now : UInt64) {al : KgpAlert} (ri : Nat)
    {r : KgpRule} (rest : List KgpRule) (e : KgpEngine) (hm : ¬ ruleMatches r al = true) :
    kgpAlertFrom pol now al ri (r :: rest) e = kgpAlertFrom pol now al (ri + 1) rest e := by
  rw [kgpAlertFrom, if_neg hm]

/-- An alert touches the keys of the matching rules, one after the other. -/
theorem kgpAlertFrom_touches (pol : KgpPolicy) (now : UInt64) (al : KgpAlert)
    (rules : List KgpRule) :
    ∀ ri e, Touches now.toNat (cells e) ((matchingFrom al ri rules).map al.keyFor)
      (cells (kgpAlertFrom pol now al ri rules e).1) := by
  induction rules with
  | nil => exact fun ri e => .nil _
  | cons r rest ih =>
      intro ri e
      unfold matchingFrom
      by_cases hm : ruleMatches r al = true
      · rw [if_pos hm, kgpAlertFrom_cons_pos pol now ri rest e hm, List.map_cons]
        refine .cons (incidentSlot_picks e ri al.code al.param1) ?_
        show Touches _ (touch (cells e) (alertSlot e ri al) (al.keyFor ri) now.toNat) _ _
        rw [← cells_kgpAlertRule pol ri r now al e]
        exact ih (ri + 1) _
      · rw [if_neg hm, kgpAlertFrom_cons_neg pol now ri rest e hm]
        exact ih (ri + 1) e

theorem kgpAlert_touches (pol : KgpPolicy) (now : UInt64) (al : KgpAlert) (e : KgpEngine) :
    Touches now.toNat (cells e) (matchingKeys pol al) (cells (kgpAlert pol now al e).1) :=
  kgpAlertFrom_touches pol now al pol.rules 0 e

/-! ### One tick

A tick goes over the slots and frees those that have been silent for long enough,
and may run the escalation of one that is not.  It moves no incident and enters none.
-/

/-- An incident is due for escalation at `now` because nobody acknowledged it. -/
def KgpIncident.overdue (pol : KgpPolicy) (now : UInt64) (inc : KgpIncident) : Bool :=
  (pol.rule inc.rule).unackedS ≠ 0 && !inc.acked && !inc.escalated
    && now - inc.firstS ≥ (pol.rule inc.rule).unackedS.toUInt64

/-- An incident has been silent for the reset time of its rule. -/
def KgpIncident.silent (pol : KgpPolicy) (now : UInt64) (inc : KgpIncident) : Prop :=
  now - inc.lastS ≥ (pol.rule inc.rule).resetS.toUInt64

/-- What a tick can do to a slot. -/
inductive Ticked (pol : KgpPolicy) (now : UInt64) (inc : KgpIncident)
    (res : KgpIncident × List KgpRun) : Prop
  | idle (unused : inc.used = false) (eq : res = (inc, []))
  | forget (used : inc.used = true) (silent : inc.silent pol now)
      (eq : res = (KgpIncident.zero, []))
  | escalate (used : inc.used = true) (heard : ¬ inc.silent pol now)
      (overdue : inc.overdue pol now = true)
      (eq : res = ({ inc with escalated := true },
        runMask pol (pol.rule inc.rule).thenMask { inc with escalated := true } 1))
  | keep (used : inc.used = true) (heard : ¬ inc.silent pol now)
      (notDue : inc.overdue pol now = false) (eq : res = (inc, []))

theorem tick_cases (pol : KgpPolicy) (now : UInt64) (inc : KgpIncident) :
    Ticked pol now inc (inc.tick pol now) := by
  unfold KgpIncident.tick
  by_cases hused : inc.used = true
  · rw [if_neg (by simp [hused])]
    by_cases hsilent : inc.silent pol now
    · simp only [if_pos (show now - inc.lastS ≥ (pol.rule inc.rule).resetS.toUInt64 from hsilent)]
      exact .forget hused hsilent rfl
    · simp only [if_neg (show ¬ now - inc.lastS ≥ (pol.rule inc.rule).resetS.toUInt64 from hsilent)]
      by_cases hdue : inc.overdue pol now = true
      · rw [if_pos (by exact hdue)]
        exact .escalate hused hsilent hdue rfl
      · rw [if_neg (by exact hdue)]
        exact .keep hused hsilent (by simpa using hdue) rfl
  · rw [if_pos (by simp [hused])]
    exact .idle (by simpa using hused) rfl

/-! ### Whole runs

Times are those the monitor reads, and the theorems ask that they do not decrease.
The invariant needs this for one thing, that no stamp is from the future; without it
the oldest incident would not be the least recently used one.
-/

inductive EngOp where
  | alert (now : UInt64) (al : KgpAlert)
  | tick (now : UInt64)
  | ack (upToSeq : UInt32)

/-- The clock an operation is given; an acknowledgement is given none. -/
def EngOp.time : EngOp → Option UInt64
  | .alert now _ => some now
  | .tick now => some now
  | .ack _ => none

/-- One operation, with the calls of the `run` callback it makes. -/
def engAct (pol : KgpPolicy) (e : KgpEngine) : EngOp → KgpEngine × List KgpRun
  | .alert now al => kgpAlert pol now al e
  | .tick now => kgpTick pol now e
  | .ack upToSeq => (kgpAck upToSeq e, [])

def engStep (pol : KgpPolicy) (e : KgpEngine) (op : EngOp) : KgpEngine := (engAct pol e op).1

def engRuns (pol : KgpPolicy) (e : KgpEngine) (op : EngOp) : List KgpRun := (engAct pol e op).2

/-- The times of a run do not decrease. -/
def Chronological (ops : List EngOp) : Prop := (ops.filterMap EngOp.time).Pairwise (· ≤ ·)

instance (ops : List EngOp) : Decidable (Chronological ops) :=
  inferInstanceAs (Decidable ((ops.filterMap EngOp.time).Pairwise (· ≤ ·)))

theorem Chronological.left {ops rest : List EngOp} (h : Chronological (ops ++ rest)) :
    Chronological ops := by
  unfold Chronological at h ⊢
  rw [List.filterMap_append] at h
  exact (List.pairwise_append.mp h).1

theorem Chronological.right {ops rest : List EngOp} (h : Chronological (ops ++ rest)) :
    Chronological rest := by
  unfold Chronological at h ⊢
  rw [List.filterMap_append] at h
  exact (List.pairwise_append.mp h).2.1

theorem Chronological.tail {op : EngOp} {rest : List EngOp} (h : Chronological (op :: rest)) :
    Chronological rest := by
  rw [← List.singleton_append] at h
  exact h.right

/-- Whatever comes after the first operation comes at or after its time. -/
theorem Chronological.first {op : EngOp} {rest : List EngOp} {now : UInt64}
    (h : Chronological (op :: rest)) (hop : op.time = some now) :
    ∀ o ∈ rest, ∀ t, o.time = some t → now ≤ t := by
  intro o ho t ht
  unfold Chronological at h
  rw [List.filterMap_cons_some hop, List.pairwise_cons] at h
  exact h.1 t (List.mem_filterMap.mpr ⟨o, ho, ht⟩)

/-- Whatever came before the last operation came at or before its time. -/
theorem Chronological.last {ops : List EngOp} {op : EngOp} {now : UInt64}
    (h : Chronological (ops ++ [op])) (hop : op.time = some now) :
    ∀ o ∈ ops, ∀ t, o.time = some t → t ≤ now := by
  intro o ho t ht
  unfold Chronological at h
  rw [List.filterMap_append] at h
  refine (List.pairwise_append.mp h).2.2 t ?_ now ?_
  · exact List.mem_filterMap.mpr ⟨o, ho, ht⟩
  · simp [hop]

/-- A tick frees slots and touches none. -/
theorem cells_kgpTick (pol : KgpPolicy) (now : UInt64) (e : KgpEngine) (i : Fin kgpMaxIncidents) :
    cells (kgpTick pol now e).1 i = cells e i ∨ cells (kgpTick pol now e).1 i = none := by
  show cells (fun i => ((e i).tick pol now).1) i = cells e i ∨
    cells (fun i => ((e i).tick pol now).1) i = none
  simp only [cells]
  cases tick_cases pol now (e i) with
  | idle _ eq => exact Or.inl (by rw [eq])
  | forget _ _ eq => exact Or.inr (by rw [eq]; rfl)
  | escalate _ _ _ eq => exact Or.inl (by rw [eq]; rfl)
  | keep _ _ _ eq => exact Or.inl (by rw [eq])

/-- An acknowledgement touches nothing either. -/
theorem cells_kgpAck (upToSeq : UInt32) (e : KgpEngine) : cells (kgpAck upToSeq e) = cells e := by
  funext i
  simp only [cells, kgpAck]
  split_ifs with h <;> rfl

/-- No two incidents for one key, and none from the future. -/
structure TableInv (now : Nat) (e : KgpEngine) : Prop where
  distinct : Distinct (cells e)
  past : Past now (cells e)

theorem tableInv_init (now : Nat) : TableInv now kgpInit := by
  have hnone : ∀ i, cells kgpInit i = none := fun _ => rfl
  refine ⟨?_, ?_⟩
  · intro i j k s r hi
    rw [hnone i] at hi
    exact absurd hi (by simp)
  · intro i k s hi
    rw [hnone i] at hi
    exact absurd hi (by simp)

theorem cells_of_lost {e e' : KgpEngine}
    (hcells : ∀ i, cells e' i = cells e i ∨ cells e' i = none) {i : Fin kgpMaxIncidents}
    {k : KgpKey} {s : Nat} (hi : cells e' i = some (k, s)) : cells e i = some (k, s) := by
  rcases hcells i with hsame | hnone
  · rw [← hsame]
    exact hi
  · rw [hnone] at hi
    exact absurd hi (by simp)

/-- A table that lost some of its cells. -/
theorem TableInv.of_cells {now : Nat} {e e' : KgpEngine} (h : TableInv now e)
    (hcells : ∀ i, cells e' i = cells e i ∨ cells e' i = none) : TableInv now e' :=
  ⟨fun i j k s r hi hj =>
      h.distinct i j k s r (cells_of_lost hcells hi) (cells_of_lost hcells hj),
    fun i k s hi => h.past i k s (cells_of_lost hcells hi)⟩

theorem TableInv.step {pol : KgpPolicy} {now : UInt64} {e : KgpEngine}
    (h : TableInv now.toNat e) (op : EngOp) (hop : ∀ t, op.time = some t → t ≤ now) :
    TableInv now.toNat (engStep pol e op) := by
  cases op with
  | alert t al =>
      have ht := UInt64.le_iff_toNat_le.mp (hop t rfl)
      have htouch := kgpAlert_touches pol t al e
      exact ⟨htouch.distinct h.distinct, htouch.past ht h.past⟩
  | tick t => exact h.of_cells (cells_kgpTick pol t e)
  | ack upToSeq => exact h.of_cells fun i => Or.inl (congrFun (cells_kgpAck upToSeq e) i)

/-- **The table in every reachable state.** -/
theorem tableInv_run (pol : KgpPolicy) (now : UInt64) (ops : List EngOp)
    (hops : ∀ o ∈ ops, ∀ t, o.time = some t → t ≤ now) :
    TableInv now.toNat (Run.exec (engStep pol) kgpInit ops) := by
  refine Run.exec_invariant_of (P := TableInv now.toNat)
    (C := fun _ o => ∀ t, o.time = some t → t ≤ now)
    (fun e o h ho => h.step o ho) (tableInv_init _) ops ?_
  intro pre o post hsplit
  exact hops o (by simp [hsplit])

end KernelGuard
