/-
The incident table without its bound.

As long as the live incidents and those an alert is about to open fit into the table,
nothing is evicted, and every incident leads a life of its own: what an operation does
to the incident of a key, and which actions it runs for it, depends on that incident
alone.  `keyAct` is that life, and `table_refines` says the table of 64 slots is
nothing but one such machine for every key.

The proofs about single incidents then never mention slots again.
-/
import KernelGuard.Proofs.Engine

namespace KernelGuard

open Lru

/-! ### The incident of a key

With distinct keys there is at most one slot for a key, so "the incident of a key"
is a function of the table.  What an arrival makes of it is then a function of the
incident that was there, or of none.
-/

/-- The incident for `k`, if the table has one. -/
def findIncident (e : KgpEngine) (k : KgpKey) : Option KgpIncident :=
  ((List.finRange kgpMaxIncidents).find? fun i => (e i).isFor k.rule k.code k.p1).map e

theorem findIncident_eq_none {e : KgpEngine} {k : KgpKey} :
    findIncident e k = none ↔ ∀ i, (e i).used = true → (e i).key ≠ k := by
  simp only [findIncident, Option.map_eq_none_iff, List.find?_eq_none, List.mem_finRange,
    true_implies, isFor_iff, not_and]

theorem isFor_of_find {e : KgpEngine} {k : KgpKey} {i : Fin kgpMaxIncidents}
    (h : (List.finRange kgpMaxIncidents).find? (fun i => (e i).isFor k.rule k.code k.p1) = some i) :
    (e i).used = true ∧ (e i).key = k := by
  have hfor : (e i).isFor k.rule k.code k.p1 = true := by simpa using List.find?_some h
  exact isFor_iff.mp hfor

theorem findIncident_eq_some {e : KgpEngine} (hd : Distinct (cells e)) {k : KgpKey}
    {inc : KgpIncident} :
    findIncident e k = some inc ↔ ∃ i, (e i).used = true ∧ (e i).key = k ∧ e i = inc := by
  refine ⟨?_, ?_⟩
  · intro h
    obtain ⟨i, hi, rfl⟩ := Option.map_eq_some_iff.mp h
    obtain ⟨hused, hkey⟩ := isFor_of_find hi
    exact ⟨i, hused, hkey, rfl⟩
  · rintro ⟨i, hused, hkey, rfl⟩
    cases hfind : findIncident e k with
    | none => exact absurd hkey (findIncident_eq_none.mp hfind i hused)
    | some inc =>
        obtain ⟨j, hj, rfl⟩ := Option.map_eq_some_iff.mp hfind
        obtain ⟨hjused, hjkey⟩ := isFor_of_find hj
        have hij : j = i := hd j i k _ _ (cells_eq_some.mpr ⟨hjused, hjkey, rfl⟩)
          (cells_eq_some.mpr ⟨hused, hkey, rfl⟩)
        rw [hij]

/-- What an arrival makes of the incident of its key, if there is one, and what it runs. -/
def alertIncident (pol : KgpPolicy) (ri : Nat) (r : KgpRule) (now : UInt64) (al : KgpAlert)
    (old : Option KgpIncident) : KgpIncident × List KgpRun :=
  let fresh := old.elim true (·.acked)
  let inc := (old.getD KgpIncident.zero).arrive ri now al fresh
  let base := inc.runBase pol r now fresh
  let esc := base.1.runRepeat pol r now
  (esc.1, base.2 ++ esc.2)

/-- A fresh incident owes nothing to what was in the slot before. -/
theorem arrive_fresh (ri : Nat) (now : UInt64) (al : KgpAlert) (inc : KgpIncident) :
    inc.arrive ri now al true = KgpIncident.zero.arrive ri now al true := rfl

/-- One rule of `kgp_alert`, in terms of the incident of its key. -/
theorem kgpAlertRule_eq (pol : KgpPolicy) (ri : Nat) (r : KgpRule) (now : UInt64) (al : KgpAlert)
    {e : KgpEngine} (hd : Distinct (cells e)) :
    kgpAlertRule pol ri r now al e
      = (Function.update e (alertSlot e ri al)
          (alertIncident pol ri r now al (findIncident e (al.keyFor ri))).1,
        (alertIncident pol ri r now al (findIncident e (al.keyFor ri))).2) := by
  have hspec := incidentSlot_spec e ri al.code al.param1
  have hmiss : (∀ j, (e j).isFor ri al.code al.param1 = false) →
      findIncident e (al.keyFor ri) = none := by
    intro hmiss
    rw [findIncident_eq_none]
    intro j hused hkey
    have := isFor_iff.mpr ⟨hused, hkey⟩
    rw [hmiss j] at this
    exact absurd this (by simp)
  unfold kgpAlertRule alertIncident alertSlot
  cases hspec with
  | hit old isFor =>
      obtain ⟨hused, hkey⟩ := isFor_iff.mp isFor
      have hfind : findIncident e (al.keyFor ri) = some (e (incidentSlot e ri al.code al.param1).1) :=
        (findIncident_eq_some hd).mpr ⟨_, hused, hkey, rfl⟩
      simp only [hfind, old, Bool.false_or, Option.elim_some, Option.getD_some]
  | free new miss unused =>
      simp only [hmiss miss, new, Bool.true_or, Option.elim_none, Option.getD_none]
      rw [arrive_fresh ri now al (e _)]
  | evict new miss full oldest =>
      simp only [hmiss miss, new, Bool.true_or, Option.elim_none, Option.getD_none]
      rw [arrive_fresh ri now al (e _)]

theorem arrive_old (ri : Nat) (now : UInt64) (al : KgpAlert) {old : Option KgpIncident}
    (hold : ∀ inc, old = some inc → inc.used = true ∧ inc.key = al.keyFor ri) :
    Arrived ri now al
      ((old.getD KgpIncident.zero).arrive ri now al (old.elim true (·.acked))) := by
  cases old with
  | none => exact ⟨rfl, rfl, rfl, rfl, rfl⟩
  | some inc =>
      obtain ⟨hused, hkey⟩ := hold inc rfl
      simp only [Option.getD_some, Option.elim_some]
      cases hacked : inc.acked with
      | true => exact ⟨rfl, rfl, rfl, rfl, rfl⟩
      | false => exact ⟨hused, hkey, rfl, rfl, hacked⟩

theorem alertIncident_arrived (pol : KgpPolicy) (ri : Nat) (r : KgpRule) (now : UInt64)
    (al : KgpAlert) {old : Option KgpIncident}
    (hold : ∀ inc, old = some inc → inc.used = true ∧ inc.key = al.keyFor ri) :
    Arrived ri now al (alertIncident pol ri r now al old).1 :=
  ((arrive_old ri now al hold).runBase pol r _).runRepeat pol r

/-! ### No eviction

`Fits` is about the keys that are alive and those an alert opens.  If they fit, the
scan finds the key or a free slot, because used slots are distinct live keys and all
of them together would be too many.
-/

/-- The keys of the live incidents. -/
def liveKeys (e : KgpEngine) : Finset KgpKey :=
  (Finset.univ.filter fun i => (e i).used = true).image fun i => (e i).key

theorem mem_liveKeys {e : KgpEngine} {k : KgpKey} :
    k ∈ liveKeys e ↔ ∃ i, (e i).used = true ∧ (e i).key = k := by
  simp [liveKeys]

/-- The live incidents and those an alert opens fit into the table. -/
def Fits (pol : KgpPolicy) (e : KgpEngine) : EngOp → Prop
  | .alert _ al => (liveKeys e ∪ (matchingKeys pol al).toFinset).card ≤ kgpMaxIncidents
  | .tick _ => True
  | .ack _ => True

instance (pol : KgpPolicy) (e : KgpEngine) (op : EngOp) : Decidable (Fits pol e op) :=
  match op with
  | .alert _ _ => inferInstanceAs (Decidable (_ ≤ _))
  | .tick _ => inferInstanceAs (Decidable True)
  | .ack _ => inferInstanceAs (Decidable True)

theorem length_matchingFrom_le (al : KgpAlert) (rules : List KgpRule) :
    ∀ ri, (matchingFrom al ri rules).length ≤ rules.length := by
  induction rules with
  | nil => exact fun _ => Nat.le_refl _
  | cons r rest ih =>
      intro ri
      have hrest := ih (ri + 1)
      unfold matchingFrom
      split
      · simpa using hrest
      · exact Nat.le_succ_of_le hrest

/-- An empty table has room for every rule there can be. -/
theorem fits_init {pol : KgpPolicy} (hrules : pol.rules.length ≤ kgpMaxIncidents) (now : UInt64)
    (al : KgpAlert) : Fits pol kgpInit (.alert now al) := by
  have hnone : liveKeys kgpInit = ∅ := by
    ext k
    simp [mem_liveKeys, kgpInit, KgpIncident.zero]
  show (liveKeys kgpInit ∪ (matchingKeys pol al).toFinset).card ≤ kgpMaxIncidents
  rw [hnone, Finset.empty_union]
  refine Nat.le_trans (List.toFinset_card_le _) ?_
  rw [matchingKeys, List.length_map]
  exact Nat.le_trans (length_matchingFrom_le al pol.rules 0) hrules

theorem card_liveKeys_of_full {e : KgpEngine} (hd : Distinct (cells e))
    (hfull : ∀ i, (e i).used = true) : (liveKeys e).card = kgpMaxIncidents := by
  have hall : (Finset.univ.filter fun i => (e i).used = true) = Finset.univ :=
    Finset.filter_true_of_mem fun i _ => hfull i
  unfold liveKeys
  rw [hall, Finset.card_image_of_injective, Finset.card_univ, Fintype.card_fin]
  intro i j hij
  exact hd i j (e i).key _ _ (cells_eq_some.mpr ⟨hfull i, rfl, rfl⟩)
    (cells_eq_some.mpr ⟨hfull j, hij.symm, rfl⟩)

/-- A slot is only overwritten by the incident it holds, if the new key fits. -/
theorem alertSlot_key {e : KgpEngine} (hd : Distinct (cells e)) {ri : Nat} {al : KgpAlert}
    (hfit : (insert (al.keyFor ri) (liveKeys e)).card ≤ kgpMaxIncidents)
    (hused : (e (alertSlot e ri al)).used = true) :
    (e (alertSlot e ri al)).key = al.keyFor ri := by
  have hspec := incidentSlot_spec e ri al.code al.param1
  cases hspec with
  | hit _ isFor => exact (isFor_iff.mp isFor).2
  | free _ _ unused =>
      rw [show (e (alertSlot e ri al)).used = false from unused] at hused
      exact absurd hused (by simp)
  | evict _ miss full _ =>
      have hnew : al.keyFor ri ∉ liveKeys e := by
        intro hmem
        obtain ⟨j, hj, hkey⟩ := mem_liveKeys.mp hmem
        have := isFor_iff.mpr ⟨hj, hkey⟩
        rw [miss j] at this
        exact absurd this (by simp)
      rw [Finset.card_insert_of_notMem hnew, card_liveKeys_of_full hd full] at hfit
      omega

/-- What entering an incident does to the others: nothing. -/
theorem findIncident_update {e : KgpEngine} {i : Fin kgpMaxIncidents} {inc : KgpIncident}
    (hd : Distinct (cells e)) (hd' : Distinct (cells (Function.update e i inc)))
    (hused : inc.used = true) (hslot : (e i).used = true → (e i).key = inc.key) (k : KgpKey) :
    findIncident (Function.update e i inc) k
      = if k = inc.key then some inc else findIncident e k := by
  by_cases hk : k = inc.key
  · rw [if_pos hk, findIncident_eq_some hd']
    exact ⟨i, by rw [Function.update_self]; exact hused, by rw [Function.update_self, hk],
      Function.update_self _ _ _⟩
  · rw [if_neg hk]
    -- slot `i` held no incident of key `k` before, and holds none now
    have hother : ∀ j, (Function.update e i inc j).used = true →
        (Function.update e i inc j).key = k → j ≠ i := by
      rintro j - hjk rfl
      rw [Function.update_self] at hjk
      exact hk hjk.symm
    cases hfind : findIncident e k with
    | none =>
        rw [findIncident_eq_none] at hfind ⊢
        intro j hj hjk
        have hji := hother j hj hjk
        rw [Function.update_of_ne hji] at hj hjk
        exact hfind j hj hjk
    | some old =>
        obtain ⟨j, hj, hjk, rfl⟩ := (findIncident_eq_some hd).mp hfind
        have hji : j ≠ i := by
          rintro rfl
          exact hk (hjk.symm.trans (hslot hj))
        rw [findIncident_eq_some hd']
        exact ⟨j, by rw [Function.update_of_ne hji]; exact hj,
          by rw [Function.update_of_ne hji]; exact hjk, Function.update_of_ne hji _ _⟩

/-! ### What an incident runs

Each call of the `run` callback carries the incident it is for.  So the calls of the
engine can be sorted by key, and the machine of a key is compared with the calls for
this key only.
-/

/-- The incident a call of the `run` callback is for. -/
def KgpRun.key (run : KgpRun) : KgpKey := run.alert.keyFor run.rule

/-- The last alert of an incident has the incident's own key. -/
def KgpIncident.Keyed (inc : KgpIncident) : Prop := inc.last.keyFor inc.rule = inc.key

theorem Arrived.keyed {ri : Nat} {now : UInt64} {al : KgpAlert} {inc : KgpIncident}
    (h : Arrived ri now al inc) : inc.Keyed := by
  have hrule : inc.rule = ri := congrArg KgpKey.rule h.key
  unfold KgpIncident.Keyed
  rw [h.last, h.key, hrule]

theorem runMask_key {pol : KgpPolicy} {mask : UInt32} {inc : KgpIncident} {tier : Nat}
    (h : inc.Keyed) : ∀ run ∈ runMask pol mask inc tier, run.key = inc.key := by
  intro run hrun
  obtain ⟨i, -, rfl⟩ := List.mem_map.mp hrun
  exact h

theorem runMask_firstS {pol : KgpPolicy} {mask : UInt32} {inc : KgpIncident} {tier : Nat} :
    ∀ run ∈ runMask pol mask inc tier, run.firstS = inc.firstS ∧ run.tier = tier := by
  intro run hrun
  obtain ⟨i, -, rfl⟩ := List.mem_map.mp hrun
  exact ⟨rfl, rfl⟩

/-- The do-actions change nothing about the incident but the time they were run. -/
theorem runBase_cases (pol : KgpPolicy) (r : KgpRule) (now : UInt64) (fresh : Bool)
    (inc : KgpIncident) :
    ∃ lastRun, (inc.runBase pol r now fresh).1 = { inc with lastRunS := lastRun } ∧
      ∀ run ∈ (inc.runBase pol r now fresh).2, run.firstS = inc.firstS ∧ run.tier = 0 := by
  unfold KgpIncident.runBase
  split
  · exact ⟨now, rfl, fun run hrun => runMask_firstS run hrun⟩
  · exact ⟨inc.lastRunS, rfl, fun run hrun => absurd hrun (by simp)⟩

/-- Everything a rule runs for an alert, it runs for the alert's incident. -/
theorem alertIncident_runs_key {pol : KgpPolicy} {ri : Nat} {r : KgpRule} {now : UInt64}
    {al : KgpAlert} {old : Option KgpIncident}
    (hold : ∀ inc, old = some inc → inc.used = true ∧ inc.key = al.keyFor ri) :
    ∀ run ∈ (alertIncident pol ri r now al old).2, run.key = al.keyFor ri := by
  have harr := arrive_old ri now al hold
  intro run hrun
  rcases List.mem_append.mp hrun with hbase | hesc
  · unfold KgpIncident.runBase at hbase
    split at hbase
    · exact (runMask_key harr.keyed run hbase).trans harr.key
    · exact absurd hbase (by simp)
  · have hbase := harr.runBase pol r (old.elim true (·.acked))
    unfold KgpIncident.runRepeat at hesc
    split at hesc
    · simp only at hesc
      split at hesc
      · exact (runMask_key hbase.keyed run hesc).trans hbase.key
      · exact absurd hesc (by simp)
    · exact absurd hesc (by simp)

/-- The tables that occur: one incident for a key, with an alert of that key. -/
structure EngineOK (e : KgpEngine) : Prop where
  distinct : Distinct (cells e)
  keyed : ∀ i, (e i).used = true → (e i).Keyed

theorem EngineOK.find {e : KgpEngine} (h : EngineOK e) {k : KgpKey} {inc : KgpIncident}
    (hfind : findIncident e k = some inc) :
    inc.used = true ∧ inc.key = k ∧ inc.Keyed := by
  obtain ⟨i, hused, hkey, rfl⟩ := (findIncident_eq_some h.distinct).mp hfind
  exact ⟨hused, hkey, h.keyed i hused⟩

/-! ### The life of one incident -/

/-- What an operation does to the incident of the key `k`, and what it runs for it. -/
def keyAct (pol : KgpPolicy) (k : KgpKey) (old : Option KgpIncident) :
    EngOp → Option KgpIncident × List KgpRun
  | .alert now al =>
      match k.ruleFor pol al with
      | some r =>
          let one := alertIncident pol k.rule r now al old
          (some one.1, one.2)
      | none => (old, [])
  | .tick now =>
      match old with
      | some inc =>
          let one := inc.tick pol now
          (if one.1.used then some one.1 else none, one.2)
      | none => (none, [])
  | .ack upToSeq =>
      (old.map fun inc =>
        if seqCovered upToSeq inc.lastSeq then { inc with acked := true } else inc, [])

def keyStep (pol : KgpPolicy) (k : KgpKey) (old : Option KgpIncident) (op : EngOp) :
    Option KgpIncident :=
  (keyAct pol k old op).1

def keyRuns (pol : KgpPolicy) (k : KgpKey) (old : Option KgpIncident) (op : EngOp) : List KgpRun :=
  (keyAct pol k old op).2

theorem keyAct_alert {pol : KgpPolicy} {k : KgpKey} {al : KgpAlert} {r : KgpRule}
    (hrule : k.ruleFor pol al = some r) (now : UInt64) (old : Option KgpIncident) :
    keyAct pol k old (.alert now al)
      = (some (alertIncident pol k.rule r now al old).1,
        (alertIncident pol k.rule r now al old).2) := by
  simp only [keyAct, hrule]

theorem keyAct_alert_none {pol : KgpPolicy} {k : KgpKey} {al : KgpAlert}
    (hrule : k.ruleFor pol al = none) (now : UInt64) (old : Option KgpIncident) :
    keyAct pol k old (.alert now al) = (old, []) := by
  simp only [keyAct, hrule]

/-- A tick, as the machine of one key sees it. -/
theorem keyAct_tick_cases {pol : KgpPolicy} {inc : KgpIncident} (hused : inc.used = true)
    (k : KgpKey) (now : UInt64) :
    (inc.silent pol now ∧ keyAct pol k (some inc) (.tick now) = (none, [])) ∨
      (¬ inc.silent pol now ∧ inc.overdue pol now = true ∧
        keyAct pol k (some inc) (.tick now) = (some { inc with escalated := true },
          runMask pol (pol.rule inc.rule).thenMask { inc with escalated := true } 1)) ∨
      (¬ inc.silent pol now ∧ inc.overdue pol now = false ∧
        keyAct pol k (some inc) (.tick now) = (some inc, [])) := by
  cases tick_cases pol now inc with
  | idle unused _ =>
      rw [hused] at unused
      exact absurd unused (by simp)
  | forget _ silent eq =>
      refine Or.inl ⟨silent, ?_⟩
      simp only [keyAct, eq]
      rfl
  | escalate _ heard overdue eq =>
      refine Or.inr (Or.inl ⟨heard, overdue, ?_⟩)
      simp only [keyAct, eq, hused, if_true]
  | keep _ heard notDue eq =>
      refine Or.inr (Or.inr ⟨heard, notDue, ?_⟩)
      simp only [keyAct, eq, hused, if_true]

/-! ### An alert

The rules take their turns one after the other.  The turn of a rule changes the
incident of its own key; before and behind it the incident is left alone, and this
frame makes the turns of an alert independent of their order.
-/

theorem mem_liveKeys_iff_find {e : KgpEngine} {k : KgpKey} :
    k ∈ liveKeys e ↔ (findIncident e k).isSome = true := by
  rw [mem_liveKeys, ← not_iff_not, Bool.not_eq_true, Option.isSome_eq_false_iff,
    Option.isNone_iff_eq_none, findIncident_eq_none]
  simp

/-- The incidents alive in `e` and the keys `ks` fit into the table together. -/
def FitsWith (e : KgpEngine) (ks : List KgpKey) : Prop :=
  (liveKeys e ∪ ks.toFinset).card ≤ kgpMaxIncidents

section Rule

variable {e : KgpEngine} {pol : KgpPolicy} {ri : Nat} {r : KgpRule} {now : UInt64}
  {al : KgpAlert} {ks : List KgpKey}

theorem EngineOK.hold (h : EngineOK e) (ri : Nat) (al : KgpAlert) :
    ∀ inc, findIncident e (al.keyFor ri) = some inc →
      inc.used = true ∧ inc.key = al.keyFor ri := by
  intro inc hfind
  exact ⟨(h.find hfind).1, (h.find hfind).2.1⟩

theorem EngineOK.alertRule (h : EngineOK e) (pol : KgpPolicy) (ri : Nat) (r : KgpRule)
    (now : UInt64) (al : KgpAlert) : EngineOK (kgpAlertRule pol ri r now al e).1 := by
  obtain ⟨inc, harr, heq⟩ := kgpAlertRule_arrived pol ri r now al e
  refine ⟨?_, ?_⟩
  · rw [cells_kgpAlertRule]
    exact h.distinct.touch (incidentSlot_picks e ri al.code al.param1)
  · rw [heq]
    intro i
    by_cases hi : i = alertSlot e ri al
    · subst hi
      rw [Function.update_self]
      exact fun _ => harr.keyed
    · rw [Function.update_of_ne hi]
      exact h.keyed i

/-- One rule of an alert changes the incident of its own key, and no other. -/
theorem findIncident_alertRule (h : EngineOK e) (hfit : FitsWith e (al.keyFor ri :: ks))
    (k : KgpKey) :
    findIncident (kgpAlertRule pol ri r now al e).1 k
      = if k = al.keyFor ri then
          some (alertIncident pol ri r now al (findIncident e (al.keyFor ri))).1
        else findIncident e k := by
  have harr := alertIncident_arrived pol ri r now al (h.hold ri al)
  have hok := h.alertRule pol ri r now al
  rw [kgpAlertRule_eq pol ri r now al h.distinct] at hok ⊢
  have hupdate := findIncident_update h.distinct hok.distinct harr.used ?_ k
  · rw [harr.key] at hupdate
    exact hupdate
  intro hused
  rw [harr.key]
  refine alertSlot_key h.distinct (Nat.le_trans (Finset.card_le_card ?_) hfit) hused
  intro x hx
  rcases Finset.mem_insert.mp hx with rfl | hx
  · simp
  · exact Finset.mem_union_left _ hx

theorem FitsWith.alertRule (h : EngineOK e) (hfit : FitsWith e (al.keyFor ri :: ks)) :
    FitsWith (kgpAlertRule pol ri r now al e).1 ks := by
  refine Nat.le_trans (Finset.card_le_card ?_) hfit
  intro k hk
  rw [Finset.mem_union, mem_liveKeys_iff_find, findIncident_alertRule h hfit] at hk
  rw [Finset.mem_union, mem_liveKeys_iff_find, List.mem_toFinset, List.mem_cons]
  by_cases hkey : k = al.keyFor ri
  · exact Or.inr (Or.inl hkey)
  · rw [if_neg hkey, List.mem_toFinset] at hk
    rcases hk with hk | hk
    · exact Or.inl hk
    · exact Or.inr (Or.inr hk)

theorem alertRule_runs_key (h : EngineOK e) :
    ∀ run ∈ (kgpAlertRule pol ri r now al e).2, run.key = al.keyFor ri := by
  rw [kgpAlertRule_eq pol ri r now al h.distinct]
  exact alertIncident_runs_key (h.hold ri al)

end Rule

theorem filter_key_of_ne {runs : List KgpRun} {k k' : KgpKey}
    (h : ∀ run ∈ runs, run.key = k') (hk : k ≠ k') : runs.filter (·.key = k) = [] := by
  rw [List.filter_eq_nil_iff]
  intro run hrun
  rw [h run hrun]
  simpa using hk.symm

theorem filter_key_self {runs : List KgpRun} {k : KgpKey}
    (h : ∀ run ∈ runs, run.key = k) : runs.filter (·.key = k) = runs := by
  rw [List.filter_eq_self]
  intro run hrun
  simpa using h run hrun

section Alert

variable {pol : KgpPolicy} {now : UInt64} {al : KgpAlert}

/-- The rest of the loop leaves an incident alone that belongs to none of its rules. -/
theorem kgpAlertFrom_frame (pol : KgpPolicy) (now : UInt64) (rules : List KgpRule) :
    ∀ (ri : Nat) (e : KgpEngine), EngineOK e →
      FitsWith e ((matchingFrom al ri rules).map al.keyFor) →
      ∀ k, k ∉ (matchingFrom al ri rules).map al.keyFor →
        findIncident (kgpAlertFrom pol now al ri rules e).1 k = findIncident e k ∧
          (kgpAlertFrom pol now al ri rules e).2.filter (·.key = k) = [] := by
  induction rules with
  | nil =>
      intro ri e _ _ k _
      exact ⟨rfl, rfl⟩
  | cons r rest ih =>
      intro ri e h hfit k hk
      unfold matchingFrom at hfit hk
      by_cases hm : ruleMatches r al = true
      · rw [if_pos hm] at hfit hk
        rw [kgpAlertFrom_cons_pos pol now ri rest e hm]
        rw [List.map_cons, List.mem_cons, not_or] at hk
        obtain ⟨hstate, hruns⟩ := ih (ri + 1) _ (h.alertRule pol ri r now al)
          (hfit.alertRule h) k hk.2
        refine ⟨?_, ?_⟩
        · rw [hstate, findIncident_alertRule h hfit, if_neg hk.1]
        · rw [List.filter_append, hruns, filter_key_of_ne (alertRule_runs_key h) hk.1]
          rfl
      · rw [if_neg hm] at hfit hk
        rw [kgpAlertFrom_cons_neg pol now ri rest e hm]
        exact ih (ri + 1) e h hfit k hk

/-- A matching rule's turn comes once, and nothing else touches its incident. -/
theorem kgpAlertFrom_hit (pol : KgpPolicy) (now : UInt64) (rules : List KgpRule) :
    ∀ (ri : Nat) (e : KgpEngine), EngineOK e →
      FitsWith e ((matchingFrom al ri rules).map al.keyFor) →
      ∀ j r, rules[j]? = some r → ruleMatches r al = true →
        let one := alertIncident pol (ri + j) r now al (findIncident e (al.keyFor (ri + j)))
        findIncident (kgpAlertFrom pol now al ri rules e).1 (al.keyFor (ri + j)) = some one.1 ∧
          (kgpAlertFrom pol now al ri rules e).2.filter (·.key = al.keyFor (ri + j)) = one.2 := by
  induction rules with
  | nil =>
      intro ri e _ _ j r hr
      exact absurd hr (by simp)
  | cons q rest ih =>
      intro ri e h hfit j r hr hmr one
      unfold matchingFrom at hfit
      rcases j with _ | j
      · -- its turn is now; the rules after it have other keys
        simp only [List.getElem?_cons_zero, Option.some.injEq] at hr
        subst hr
        rw [if_pos hmr] at hfit
        rw [kgpAlertFrom_cons_pos pol now ri rest e hmr]
        have hother : al.keyFor ri ∉ (matchingFrom al (ri + 1) rest).map al.keyFor := by
          intro hmem
          obtain ⟨i, hi, hkey⟩ := List.mem_map.mp hmem
          obtain ⟨j, -, -, hij, -⟩ := mem_matchingFrom.mp hi
          have := keyFor_injective al hkey
          omega
        obtain ⟨hstate, hruns⟩ := kgpAlertFrom_frame pol now rest (ri + 1) _
          (h.alertRule pol ri q now al) (hfit.alertRule h) _ hother
        simp only [one, Nat.add_zero]
        refine ⟨?_, ?_⟩
        · rw [hstate, findIncident_alertRule h hfit, if_pos rfl]
        · rw [List.filter_append, hruns, filter_key_self (alertRule_runs_key h),
            List.append_nil, kgpAlertRule_eq pol ri q now al h.distinct]
      · rw [List.getElem?_cons_succ] at hr
        have hidx : ri + (j + 1) = ri + 1 + j := by omega
        by_cases hm : ruleMatches q al = true
        · rw [if_pos hm] at hfit
          rw [kgpAlertFrom_cons_pos pol now ri rest e hm]
          have hne : al.keyFor (ri + 1 + j) ≠ al.keyFor ri := by
            intro hkey
            have := keyFor_injective al hkey
            omega
          obtain ⟨hstate, hruns⟩ := ih (ri + 1) _ (h.alertRule pol ri q now al)
            (hfit.alertRule h) j r hr hmr
          rw [findIncident_alertRule h hfit, if_neg hne] at hstate hruns
          simp only [one, hidx]
          refine ⟨hstate, ?_⟩
          rw [List.filter_append, hruns, filter_key_of_ne (alertRule_runs_key h) hne,
            List.nil_append]
        · rw [if_neg hm] at hfit
          rw [kgpAlertFrom_cons_neg pol now ri rest e hm]
          simp only [one, hidx]
          exact ih (ri + 1) e h hfit j r hr hmr

/-- **An alert, key by key.** -/
theorem kgpAlert_refines {e : KgpEngine} (h : EngineOK e) (hfit : Fits pol e (.alert now al))
    (k : KgpKey) :
    findIncident (kgpAlert pol now al e).1 k = keyStep pol k (findIncident e k) (.alert now al) ∧
      (kgpAlert pol now al e).2.filter (·.key = k)
        = keyRuns pol k (findIncident e k) (.alert now al) := by
  unfold keyStep keyRuns
  cases hrule : k.ruleFor pol al with
  | none =>
      rw [keyAct_alert_none hrule]
      refine kgpAlertFrom_frame pol now pol.rules 0 e h hfit k ?_
      show k ∉ matchingKeys pol al
      rw [← ruleFor_isSome_iff, hrule]
      simp
  | some r =>
      obtain ⟨hk, hr, hm⟩ := ruleFor_eq_some.mp hrule
      have hhit := kgpAlertFrom_hit pol now pol.rules 0 e h hfit k.rule r hr hm
      simp only [Nat.zero_add, ← hk] at hhit
      rw [keyAct_alert hrule]
      exact hhit

theorem EngineOK.kgpAlertFrom (rules : List KgpRule) :
    ∀ (ri : Nat) (e : KgpEngine), EngineOK e →
      EngineOK (kgpAlertFrom pol now al ri rules e).1 := by
  induction rules with
  | nil => exact fun _ _ h => h
  | cons r rest ih =>
      intro ri e h
      by_cases hm : ruleMatches r al = true
      · rw [kgpAlertFrom_cons_pos pol now ri rest e hm]
        exact ih (ri + 1) _ (h.alertRule pol ri r now al)
      · rw [kgpAlertFrom_cons_neg pol now ri rest e hm]
        exact ih (ri + 1) e h

end Alert

/-! ### A tick and an acknowledgement

Both look at each slot by itself.  The lemmas say what they do to the incident of a
key by saying what they do to the one slot that holds it.
-/

/-- An incident that survives a tick is the one it was. -/
theorem tick_used {pol : KgpPolicy} {now : UInt64} {inc : KgpIncident}
    (h : (inc.tick pol now).1.used = true) :
    inc.used = true ∧ (inc.tick pol now).1.key = inc.key ∧
      (inc.Keyed → (inc.tick pol now).1.Keyed) := by
  cases tick_cases pol now inc with
  | idle unused eq =>
      rw [eq] at h
      exact absurd h (by simp [unused])
  | forget _ _ eq =>
      rw [eq] at h
      exact absurd h (by simp [KgpIncident.zero])
  | escalate used _ _ eq =>
      rw [eq]
      exact ⟨used, rfl, fun hkeyed => hkeyed⟩
  | keep used _ _ eq =>
      rw [eq]
      exact ⟨used, rfl, fun hkeyed => hkeyed⟩

theorem tick_runs_key {pol : KgpPolicy} {now : UInt64} {inc : KgpIncident}
    (hkeyed : inc.used = true → inc.Keyed) :
    ∀ run ∈ (inc.tick pol now).2, inc.used = true ∧ run.key = inc.key := by
  intro run hrun
  cases tick_cases pol now inc with
  | idle _ eq =>
      rw [eq] at hrun
      exact absurd hrun (by simp)
  | forget _ _ eq =>
      rw [eq] at hrun
      exact absurd hrun (by simp)
  | escalate used _ _ eq =>
      rw [eq] at hrun
      have hkey : run.key = KgpIncident.key { inc with escalated := true } :=
        runMask_key (hkeyed used) run hrun
      exact ⟨used, hkey⟩
  | keep _ _ _ eq =>
      rw [eq] at hrun
      exact absurd hrun (by simp)

/-- A flattened list whose parts are empty but for one. -/
theorem flatMap_eq_of_unique {α β : Type} {l : List α} (hnodup : l.Nodup) {f : α → List β}
    {a : α} (ha : a ∈ l) (hf : ∀ b ∈ l, b ≠ a → f b = []) : l.flatMap f = f a := by
  obtain ⟨pre, post, rfl⟩ := List.append_of_mem ha
  rw [List.nodup_append, List.nodup_cons] at hnodup
  obtain ⟨-, ⟨hpost, -⟩, hpre⟩ := hnodup
  have hempty : ∀ m : List α, (∀ b ∈ m, b ∈ pre ++ a :: post ∧ b ≠ a) → m.flatMap f = [] := by
    intro m hm
    rw [List.flatMap_eq_nil_iff]
    exact fun b hb => hf b (hm b hb).1 (hm b hb).2
  rw [List.flatMap_append, List.flatMap_cons,
    hempty pre fun b hb => ⟨by simp [hb], hpre b hb a (by simp)⟩,
    hempty post fun b hb => ⟨by simp [hb], fun h => hpost (h ▸ hb)⟩]
  simp

section Tick

variable {e : KgpEngine} {pol : KgpPolicy}

theorem EngineOK.kgpTick (h : EngineOK e) (now : UInt64) : EngineOK (kgpTick pol now e).1 := by
  refine ⟨?_, ?_⟩
  · intro i j k s r hi hj
    exact h.distinct i j k s r (cells_of_lost (cells_kgpTick pol now e) hi)
      (cells_of_lost (cells_kgpTick pol now e) hj)
  · intro i hi
    obtain ⟨hused, -, hkeyed⟩ := tick_used hi
    exact hkeyed (h.keyed i hused)

theorem findIncident_kgpTick (h : EngineOK e) (now : UInt64) (k : KgpKey) :
    findIncident (kgpTick pol now e).1 k = keyStep pol k (findIncident e k) (.tick now) := by
  have hok : EngineOK (kgpTick pol now e).1 := h.kgpTick now
  unfold keyStep keyAct
  cases hfind : findIncident e k with
  | none =>
      show _ = none
      rw [findIncident_eq_none] at hfind ⊢
      intro i hi hik
      obtain ⟨hused, hkey, -⟩ := tick_used hi
      exact hfind i hused (hkey.symm.trans hik)
  | some inc =>
      obtain ⟨i, hused, hkey, rfl⟩ := (findIncident_eq_some h.distinct).mp hfind
      show _ = if ((e i).tick pol now).1.used then some ((e i).tick pol now).1 else none
      by_cases hi : ((e i).tick pol now).1.used = true
      · rw [if_pos hi, findIncident_eq_some hok.distinct]
        exact ⟨i, hi, (tick_used hi).2.1.trans hkey, rfl⟩
      · rw [if_neg hi, findIncident_eq_none]
        intro j hj hjk
        obtain ⟨hjused, hjkey, -⟩ := tick_used hj
        have hji : j = i := h.distinct j i k _ _
          (cells_eq_some.mpr ⟨hjused, hjkey.symm.trans hjk, rfl⟩)
          (cells_eq_some.mpr ⟨hused, hkey, rfl⟩)
        subst hji
        exact hi hj

theorem kgpTick_runs (h : EngineOK e) (now : UInt64) (k : KgpKey) :
    (kgpTick pol now e).2.filter (·.key = k) = keyRuns pol k (findIncident e k) (.tick now) := by
  have hruns : ∀ i, ∀ run ∈ ((e i).tick pol now).2, (e i).used = true ∧ run.key = (e i).key :=
    fun i => tick_runs_key (h.keyed i)
  have hother : ∀ i, ¬ ((e i).used = true ∧ (e i).key = k) →
      ((e i).tick pol now).2.filter (·.key = k) = [] := by
    intro i hi
    rw [List.filter_eq_nil_iff]
    intro run hrun
    obtain ⟨hused, hkey⟩ := hruns i run hrun
    rw [hkey]
    simpa using fun heq => hi ⟨hused, heq⟩
  unfold kgpTick
  simp only [List.filter_flatMap]
  unfold keyRuns keyAct
  cases hfind : findIncident e k with
  | none =>
      rw [findIncident_eq_none] at hfind
      show _ = []
      rw [List.flatMap_eq_nil_iff]
      exact fun i _ => hother i fun hi => hfind i hi.1 hi.2
  | some inc =>
      obtain ⟨i, hused, hkey, rfl⟩ := (findIncident_eq_some h.distinct).mp hfind
      show _ = ((e i).tick pol now).2
      rw [flatMap_eq_of_unique (List.nodup_finRange _) (List.mem_finRange i),
        filter_key_self fun run hrun => (hruns i run hrun).2.trans hkey]
      intro j _ hji
      refine hother j fun hj => hji ?_
      exact h.distinct j i k _ _ (cells_eq_some.mpr ⟨hj.1, hj.2, rfl⟩)
        (cells_eq_some.mpr ⟨hused, hkey, rfl⟩)

/-- An acknowledgement changes nothing about a slot but the `acked` flag. -/
theorem kgpAck_slot (upToSeq : UInt32) (e : KgpEngine) (i : Fin kgpMaxIncidents) :
    (kgpAck upToSeq e i).used = (e i).used ∧ (kgpAck upToSeq e i).key = (e i).key ∧
      ((e i).Keyed → (kgpAck upToSeq e i).Keyed) := by
  unfold kgpAck
  split
  · exact ⟨rfl, rfl, fun hkeyed => hkeyed⟩
  · exact ⟨rfl, rfl, fun hkeyed => hkeyed⟩

theorem EngineOK.kgpAck (h : EngineOK e) (upToSeq : UInt32) : EngineOK (kgpAck upToSeq e) := by
  refine ⟨?_, ?_⟩
  · rw [cells_kgpAck]
    exact h.distinct
  · intro i hi
    obtain ⟨hused, -, hkeyed⟩ := kgpAck_slot upToSeq e i
    exact hkeyed (h.keyed i (hused ▸ hi))

theorem findIncident_kgpAck (h : EngineOK e) (upToSeq : UInt32) (k : KgpKey) :
    findIncident (kgpAck upToSeq e) k = keyStep pol k (findIncident e k) (.ack upToSeq) := by
  have hok : EngineOK (kgpAck upToSeq e) := h.kgpAck upToSeq
  unfold keyStep keyAct
  cases hfind : findIncident e k with
  | none =>
      show _ = none
      rw [findIncident_eq_none] at hfind ⊢
      intro i
      obtain ⟨hused, hkey, -⟩ := kgpAck_slot upToSeq e i
      rw [hused, hkey]
      exact hfind i
  | some inc =>
      obtain ⟨i, hused, hkey, rfl⟩ := (findIncident_eq_some h.distinct).mp hfind
      obtain ⟨hused', hkey', -⟩ := kgpAck_slot upToSeq e i
      refine (findIncident_eq_some hok.distinct).mpr ?_
      refine ⟨i, hused'.trans hused, hkey'.trans hkey, ?_⟩
      simp only [KernelGuard.kgpAck, hused, Bool.true_and]

end Tick

/-! ### Whole runs

The refinement is step by step and for all keys at once.  `Fits` is asked of every
state in which an alert comes, with what the alert opens, and of no other state.
-/

theorem engineOK_init : EngineOK kgpInit :=
  ⟨(tableInv_init 0).distinct, fun i hi => absurd hi (by simp [kgpInit, KgpIncident.zero])⟩

theorem EngineOK.step {pol : KgpPolicy} {e : KgpEngine} (h : EngineOK e) (op : EngOp) :
    EngineOK (engStep pol e op) := by
  cases op with
  | alert now al => exact EngineOK.kgpAlertFrom pol.rules 0 e h
  | tick now => exact h.kgpTick now
  | ack upToSeq => exact h.kgpAck upToSeq

theorem engineOK_run (pol : KgpPolicy) (ops : List EngOp) :
    EngineOK (Run.exec (engStep pol) kgpInit ops) :=
  Run.exec_invariant (fun _ op h => h.step op) engineOK_init ops

/-- One operation on the table is one step of every incident. -/
theorem engAct_refines {pol : KgpPolicy} {e : KgpEngine} (h : EngineOK e) {op : EngOp}
    (hfit : Fits pol e op) (k : KgpKey) :
    findIncident (engStep pol e op) k = keyStep pol k (findIncident e k) op ∧
      (engRuns pol e op).filter (·.key = k) = keyRuns pol k (findIncident e k) op := by
  cases op with
  | alert now al => exact kgpAlert_refines h hfit k
  | tick now => exact ⟨findIncident_kgpTick h now k, kgpTick_runs h now k⟩
  | ack upToSeq => exact ⟨findIncident_kgpAck h upToSeq k, rfl⟩

theorem findIncident_init (k : KgpKey) : findIncident kgpInit k = none := by
  rw [findIncident_eq_none]
  intro i hi
  exact absurd hi (by simp [kgpInit, KgpIncident.zero])

/-- The engine is seen, through one key, as the machine of that key. -/
theorem along_refines {pol : KgpPolicy} {e : KgpEngine} (h : EngineOK e) {ops : List EngOp}
    (hfits : Run.Along (engStep pol) e ops (Fits pol)) (k : KgpKey) :
    Run.Along (engStep pol) e ops fun e op =>
      findIncident (engStep pol e op) k = keyStep pol k (findIncident e k) op ∧
        (engRuns pol e op).filter (·.key = k) = keyRuns pol k (findIncident e k) op := by
  intro pre op post hsplit
  have hok : EngineOK (Run.exec (engStep pol) e pre) :=
    Run.exec_invariant (fun _ op h => h.step op) h pre
  exact engAct_refines hok (hfits pre op post hsplit) k

/--
**The table is one machine for every key.**  In a run in which the live incidents always
fit into the table, the incident of every key is where its own machine is, and what is
run for it is what its own machine runs.
-/
theorem table_refines {pol : KgpPolicy} {e : KgpEngine} (h : EngineOK e) {ops : List EngOp}
    (hfits : Run.Along (engStep pol) e ops (Fits pol)) (k : KgpKey) :
    findIncident (Run.exec (engStep pol) e ops) k
        = Run.exec (keyStep pol k) (findIncident e k) ops ∧
      (Run.outputs (engStep pol) (engRuns pol) e ops).filter (·.key = k)
        = Run.outputs (keyStep pol k) (keyRuns pol k) (findIncident e k) ops := by
  have halong := along_refines h hfits k
  refine ⟨Run.exec_view (findIncident · k) fun pre op post hsplit => ?_,
    Run.outputs_view (findIncident · k) (fun pre op post hsplit => ?_)
      fun pre op post hsplit => ?_⟩
  · exact (halong pre op post hsplit).1
  · exact (halong pre op post hsplit).1
  · exact (halong pre op post hsplit).2

end KernelGuard
