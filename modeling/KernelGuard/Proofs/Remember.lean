/-
Whether an alert is remembered under every rule that matches it.

`kgp_alert` enters the alert rule by rule, and each rule may need a slot of the
incident table.  The clock has a resolution of one second, so a burst of alerts can
stamp all 64 slots with the present second; from then on "the least recently used
slot" is slot 0, and one rule evicts what the rule before it has just entered.

The condition under which that does not happen is exact, and it is the one of
`Lru.held_iff`: every matching rule whose incident is not already stamped with the
present second uses up one slot that is not.
-/
import KernelGuard.Proofs.Engine
import KernelGuard.Proofs.Accepted

namespace KernelGuard

open Lru

/-- The matching rules that have no incident stamped with `now` yet. -/
def slotsNeeded (pol : KgpPolicy) (now : UInt64) (al : KgpAlert) (e : KgpEngine) : Nat :=
  (matchingKeys pol al).countP fun k =>
    ¬ ∃ i, (e i).used = true ∧ (e i).key = k ∧ (e i).lastS = now

/-- The slots that are free or were last touched before `now`. -/
def slotsAvailable (now : UInt64) (e : KgpEngine) : Nat :=
  (Finset.univ.filter fun i : Fin kgpMaxIncidents =>
    ¬ ((e i).used = true ∧ (e i).lastS = now)).card

/--
There are enough slots, or there is one too few and slot 0, which will be taken for
it, holds an incident of this second that belongs to no matching rule.
-/
def EnoughSlots (pol : KgpPolicy) (now : UInt64) (al : KgpAlert) (e : KgpEngine) : Prop :=
  slotsNeeded pol now al e ≤ slotsAvailable now e ∨
    (slotsNeeded pol now al e = slotsAvailable now e + 1 ∧
      (e 0).used = true ∧ (e 0).lastS = now ∧ (e 0).key ∉ matchingKeys pol al)

/-- Every matching rule has exactly one open incident for the alert, and it is up to date. -/
def Remembered (pol : KgpPolicy) (now : UInt64) (al : KgpAlert) (e : KgpEngine) : Prop :=
  ∀ ri r, pol.rules[ri]? = some r → ruleMatches r al = true →
    (∃! i, (e i).used = true ∧ (e i).acked = false ∧ (e i).key = al.keyFor ri) ∧
      ∀ i, (e i).used = true → (e i).acked = false → (e i).key = al.keyFor ri →
        (e i).last = al ∧ (e i).lastS = now

/-! ### In terms of the table

Counting rules and counting slots become counting keys and cells, and the condition
becomes that of the library.
-/

theorem cells_stamped {e : KgpEngine} {i : Fin kgpMaxIncidents} {k : KgpKey} {now : UInt64} :
    cells e i = some (k, now.toNat) ↔
      (e i).used = true ∧ (e i).key = k ∧ (e i).lastS = now := by
  rw [cells_eq_some, UInt64.toNat_inj]

theorem slotsNeeded_eq (pol : KgpPolicy) (now : UInt64) (al : KgpAlert) (e : KgpEngine) :
    slotsNeeded pol now al e = need now.toNat (cells e) (matchingKeys pol al) := by
  unfold slotsNeeded need
  refine List.countP_congr fun k _ => ?_
  simp only [Stamped, cells_stamped, decide_eq_true_eq]

theorem slotsAvailable_eq (now : UInt64) (e : KgpEngine) :
    slotsAvailable now e = avail now.toNat (cells e) := by
  unfold slotsAvailable avail
  congr 1
  ext i
  simp only [Finset.mem_filter, Finset.mem_univ, true_and, not_iff_not]
  refine ⟨fun h => fresh_of_eq (cells_stamped.mpr ⟨h.1, rfl, h.2⟩), fun h => ?_⟩
  obtain ⟨k, hk⟩ := h.eq
  obtain ⟨hused, -, hlast⟩ := cells_stamped.mp hk
  exact ⟨hused, hlast⟩

theorem enoughSlots_iff (pol : KgpPolicy) (now : UInt64) (al : KgpAlert) (e : KgpEngine) :
    EnoughSlots pol now al e ↔
      Room now.toNat (cells e) (matchingKeys pol al) (matchingKeys pol al) := by
  unfold EnoughSlots Room
  rw [slotsNeeded_eq, slotsAvailable_eq]
  refine or_congr Iff.rfl (and_congr Iff.rfl ?_)
  refine ⟨?_, ?_⟩
  · rintro ⟨hused, hlast, hkey⟩
    exact ⟨(e 0).key, cells_stamped.mpr ⟨hused, rfl, hlast⟩, hkey⟩
  · rintro ⟨k, hk, hmem⟩
    obtain ⟨hused, rfl, hlast⟩ := cells_stamped.mp hk
    exact ⟨hused, hlast, hmem⟩

/-! ### What is found in the end was entered by this call

A matching rule may find its incident of earlier alerts at the end only if it was
entered anew in its turn.  The induction is over the rules, with those whose turn has
been in `done`.
-/

/--
One rule.  `done` are the rules whose turn has been: whatever incident is in the table
for one of them is the one this call left there.
-/
theorem kgpAlertRule_done (pol : KgpPolicy) (now : UInt64) (al : KgpAlert) (ri : Nat) (r : KgpRule)
    {e : KgpEngine} {done : Nat → Prop} (hdist : Distinct (cells e))
    (hdone : ∀ i k, done k → (e i).used = true → (e i).key = al.keyFor k → Arrived k now al (e i)) :
    ∀ i k, (done k ∨ k = ri) → ((kgpAlertRule pol ri r now al e).1 i).used = true →
      ((kgpAlertRule pol ri r now al e).1 i).key = al.keyFor k →
      Arrived k now al ((kgpAlertRule pol ri r now al e).1 i) := by
  obtain ⟨inc, harr, heq⟩ := kgpAlertRule_arrived pol ri r now al e
  have hdist' : Distinct (cells (kgpAlertRule pol ri r now al e).1) := by
    rw [cells_kgpAlertRule]
    exact hdist.touch (incidentSlot_picks e ri al.code al.param1)
  intro j k hk hused hkey
  by_cases hj : j = alertSlot e ri al
  · subst hj
    rw [heq, Function.update_self] at hkey ⊢
    have hkri : k = ri := keyFor_injective al (hkey.symm.trans harr.key)
    rw [hkri]
    exact harr
  · rcases hk with hk | rfl
    · rw [heq, Function.update_of_ne hj] at hused hkey ⊢
      exact hdone j k hk hused hkey
    · -- the key of this rule is in the slot just written, and only there
      refine absurd ?_ hj
      refine hdist' j (alertSlot e k al) (al.keyFor k) _ _
        (cells_eq_some.mpr ⟨hused, hkey, rfl⟩) (cells_eq_some.mpr ⟨?_, ?_, rfl⟩)
      · rw [heq, Function.update_self]
        exact harr.used
      · rw [heq, Function.update_self]
        exact harr.key

/-- The induction over the rules. -/
theorem kgpAlertFrom_arrived (pol : KgpPolicy) (now : UInt64) (al : KgpAlert)
    (rules : List KgpRule) :
    ∀ (ri : Nat) (e : KgpEngine) (done : Nat → Prop), Distinct (cells e) →
      (∀ i k, done k → (e i).used = true → (e i).key = al.keyFor k → Arrived k now al (e i)) →
      ∀ i k, (done k ∨ k ∈ matchingFrom al ri rules) →
        ((kgpAlertFrom pol now al ri rules e).1 i).used = true →
        ((kgpAlertFrom pol now al ri rules e).1 i).key = al.keyFor k →
        Arrived k now al ((kgpAlertFrom pol now al ri rules e).1 i) := by
  induction rules with
  | nil =>
      intro ri e done _ hdone i k hk
      rcases hk with hk | hk
      · exact hdone i k hk
      · exact absurd hk (by simp [matchingFrom])
  | cons r rest ih =>
      intro ri e done hdist hdone i k hk
      by_cases hm : ruleMatches r al = true
      · have hdist' : Distinct (cells (kgpAlertRule pol ri r now al e).1) := by
          rw [cells_kgpAlertRule]
          exact hdist.touch (incidentSlot_picks e ri al.code al.param1)
        rw [kgpAlertFrom_cons_pos pol now ri rest e hm]
        refine ih (ri + 1) _ (fun k => done k ∨ k = ri) hdist'
          (kgpAlertRule_done pol now al ri r hdist hdone) i k ?_
        rw [matchingFrom, if_pos hm, List.mem_cons] at hk
        rcases hk with hk | rfl | hk
        · exact Or.inl (Or.inl hk)
        · exact Or.inl (Or.inr rfl)
        · exact Or.inr hk
      · rw [matchingFrom, if_neg hm] at hk
        rw [kgpAlertFrom_cons_neg pol now ri rest e hm]
        exact ih (ri + 1) e done hdist hdone i k hk

theorem kgpAlert_arrived {pol : KgpPolicy} {now : UInt64} {al : KgpAlert} {e : KgpEngine}
    (hdist : Distinct (cells e)) {ri : Nat} {r : KgpRule} (hr : pol.rules[ri]? = some r)
    (hm : ruleMatches r al = true) {i : Fin kgpMaxIncidents}
    (hused : ((kgpAlert pol now al e).1 i).used = true)
    (hkey : ((kgpAlert pol now al e).1 i).key = al.keyFor ri) :
    Arrived ri now al ((kgpAlert pol now al e).1 i) := by
  refine kgpAlertFrom_arrived pol now al pol.rules 0 e (fun _ => False) hdist
    (fun i k hk => hk.elim) i ri (Or.inr ?_) hused hkey
  exact mem_matchingFrom.mpr ⟨ri, r, hr, by omega, hm⟩

/-- So remembering is a matter of the keys being in the table. -/
theorem remembered_iff_held {pol : KgpPolicy} {now : UInt64} {al : KgpAlert} {e : KgpEngine}
    (hdist : Distinct (cells e)) :
    Remembered pol now al (kgpAlert pol now al e).1 ↔
      ∀ k ∈ matchingKeys pol al, Held (cells (kgpAlert pol now al e).1) k := by
  have hdist' := (kgpAlert_touches pol now al e).distinct hdist
  refine ⟨?_, ?_⟩
  · intro h k hk
    obtain ⟨ri, r, hr, hm, rfl⟩ := mem_matchingKeys.mp hk
    obtain ⟨⟨i, ⟨hused, -, hkey⟩, -⟩, -⟩ := h ri r hr hm
    exact ⟨i, _, cells_eq_some.mpr ⟨hused, hkey, rfl⟩⟩
  · intro h ri r hr hm
    obtain ⟨i, s, hi⟩ := h (al.keyFor ri) (mem_matchingKeys.mpr ⟨ri, r, hr, hm, rfl⟩)
    obtain ⟨hused, hkey, -⟩ := cells_eq_some.mp hi
    have harr := kgpAlert_arrived hdist hr hm hused hkey
    refine ⟨⟨i, ⟨hused, harr.acked, hkey⟩, ?_⟩, ?_⟩
    · rintro j ⟨hjused, -, hjkey⟩
      exact hdist' j i (al.keyFor ri) _ _ (cells_eq_some.mpr ⟨hjused, hjkey, rfl⟩) hi
    · intro j hjused _ hjkey
      have hj := kgpAlert_arrived hdist hr hm hjused hjkey
      exact ⟨hj.last, hj.lastS⟩

theorem remembered_iff_of_inv {pol : KgpPolicy} {now : UInt64} {al : KgpAlert} {e : KgpEngine}
    (hinv : TableInv now.toNat e) :
    Remembered pol now al (kgpAlert pol now al e).1 ↔ EnoughSlots pol now al e := by
  rw [remembered_iff_held hinv.distinct, enoughSlots_iff]
  exact held_iff (kgpAlert_touches pol now al e) hinv.distinct hinv.past
    (matchingKeys_nodup pol al) (fun k hk => hk) (fun k hk => Or.inl hk)

/--
**When all matching rules remember an alert.**  In every state reachable with
non-decreasing times, `kgp_alert` leaves exactly one open and up-to-date incident for
every matching rule if and only if there are enough slots.
-/
theorem remembered_iff_enough_slots (pol : KgpPolicy) (ops : List EngOp) (now : UInt64)
    (al : KgpAlert) (hchron : Chronological (ops ++ [.alert now al])) :
    let e := Run.exec (engStep pol) kgpInit ops
    Remembered pol now al (kgpAlert pol now al e).1 ↔ EnoughSlots pol now al e := by
  intro e
  exact remembered_iff_of_inv (tableInv_run pol now ops (hchron.last rfl))

/-! ### A burst within one second

The policy and the alerts are chosen so that all 64 slots have the present second
when the third alert comes.  From then on each rule takes the slot the rule before it
has just filled.
-/

/-- Two decimal digits. -/
def twoDigits (i : Nat) : CStr := [UInt8.ofNat (48 + i / 10), UInt8.ofNat (48 + i % 10)]

/-- A policy file with one action and 32 rules that match every alert. -/
def burstText : CStr :=
  str "action page /usr/bin/page\n"
    ++ (List.range 32).flatMap fun i => str "rule r" ++ twoDigits i ++ str " do=page\n"

def burstPolicy : KgpPolicy where
  actions := [⟨str "page", [str "/usr/bin/page"], 10⟩]
  rules := (List.range 32).map fun i =>
    { KgpRule.zero with
      name := str "r" ++ twoDigits i, throttleS := 60, doMask := 1, resetS := 3600 }

theorem burstPolicy_accepted : kgpParse burstText none = .ok burstPolicy :=
  kgpParse_of_parsesTo (by decide +kernel)

/-- A critical alert about offender `p`. -/
def burstAlert (p : UInt64) : KgpAlert := ⟨kgAlertTextPatch, kgpCritical, 0, p, 0, 0, []⟩

theorem burst_need {now : Nat} {t : Table kgpMaxIncidents KgpKey} (p : UInt64)
    (h : ∀ k ∈ matchingKeys burstPolicy (burstAlert p), ¬ Held t k) :
    need now t (matchingKeys burstPolicy (burstAlert p)) = 32 := by
  rw [need_eq_length h, matchingKeys, List.length_map]
  rfl

theorem empty_not_held (k : KgpKey) : ¬ Held (cells kgpInit) k := by
  rintro ⟨i, s, hi⟩
  exact absurd hi (by simp [cells, kgpInit, KgpIncident.zero])

theorem empty_avail (now : Nat) : avail now (cells kgpInit) = 64 := by
  have hall : (Finset.univ.filter fun i => ¬ Fresh now (cells kgpInit) i) = Finset.univ := by
    refine Finset.filter_true_of_mem fun i _ => ?_
    simp [Fresh, cells, kgpInit, KgpIncident.zero]
  rw [avail, hall, Finset.card_univ, Fintype.card_fin]
  rfl

/-- The first alert finds an empty table, and all 32 rules remember it. -/
theorem remembered_iff_enough_slots_first :
    Remembered burstPolicy 0 (burstAlert 0) (kgpAlert burstPolicy 0 (burstAlert 0) kgpInit).1 := by
  refine (remembered_iff_enough_slots burstPolicy [] 0 (burstAlert 0)
    (by simp [Chronological, EngOp.time])).mpr (Or.inl ?_)
  rw [slotsNeeded_eq, slotsAvailable_eq]
  show need _ (cells kgpInit) _ ≤ avail _ (cells kgpInit)
  rw [burst_need 0 fun k _ => empty_not_held k, empty_avail]
  decide

/-- Every alert is remembered under every rule that matches it. -/
def AlwaysRemembered : Prop :=
  ∀ (text : CStr) (checkFs : Option KgpFs) (pol : KgpPolicy), kgpParse text checkFs = .ok pol →
    ∀ (ops : List EngOp) (now : UInt64) (al : KgpAlert), Chronological (ops ++ [.alert now al]) →
      Remembered pol now al (kgpAlert pol now al (Run.exec (engStep pol) kgpInit ops)).1

/-- The keys of one alert are not in a table that has only seen others. -/
theorem burst_not_held {t t' : Table kgpMaxIncidents KgpKey} {now : Nat} {p q : UInt64}
    (h : Touches now t (matchingKeys burstPolicy (burstAlert p)) t') (hpq : q ≠ p)
    (ht : ∀ k ∈ matchingKeys burstPolicy (burstAlert q), ¬ Held t k) :
    ∀ k ∈ matchingKeys burstPolicy (burstAlert q), ¬ Held t' k := by
  intro k hk
  refine h.not_held ?_ (ht k hk)
  intro hkp
  obtain ⟨i, -, -, -, rfl⟩ := mem_matchingKeys.mp hk
  obtain ⟨j, -, -, -, heq⟩ := mem_matchingKeys.mp hkp
  exact hpq (congrArg KgpKey.p1 heq)

/--
Three alerts about different offenders in one second.  The first two fill the table;
for the third, every rule takes slot 0, and only the last one remembers it.
-/
theorem burst_evicts_itself : ¬ AlwaysRemembered := by
  intro h
  have hrem := h burstText none burstPolicy burstPolicy_accepted
    [.alert 0 (burstAlert 0), .alert 0 (burstAlert 1)] 0 (burstAlert 2)
    (by simp [Chronological, EngOp.time])
  have hinv : ∀ ops : List EngOp, (∀ o ∈ ops, ∀ t, o.time = some t → t ≤ 0) →
      TableInv (0 : UInt64).toNat (Run.exec (engStep burstPolicy) kgpInit ops) :=
    tableInv_run burstPolicy 0
  set e₁ := (kgpAlert burstPolicy 0 (burstAlert 0) kgpInit).1 with he₁
  set e₂ := (kgpAlert burstPolicy 0 (burstAlert 1) e₁).1 with he₂
  have hinv₁ : TableInv (0 : UInt64).toNat e₁ :=
    hinv [.alert 0 (burstAlert 0)] (by simp [EngOp.time])
  have hinv₂ : TableInv (0 : UInt64).toNat e₂ :=
    hinv [.alert 0 (burstAlert 0), .alert 0 (burstAlert 1)] (by simp [EngOp.time])
  have ht₁ := kgpAlert_touches burstPolicy 0 (burstAlert 0) kgpInit
  have ht₂ := kgpAlert_touches burstPolicy 0 (burstAlert 1) e₁
  rw [← he₁] at ht₁
  rw [← he₂] at ht₂
  have hnew₁ := burst_not_held (q := 1) ht₁ (by decide) fun k _ => empty_not_held k
  have hnew₂ := burst_not_held (q := 2) ht₂ (by decide)
    (burst_not_held ht₁ (by decide) fun k _ => empty_not_held k)
  -- 32 slots are used up twice
  have havail₁ := ht₁.avail (tableInv_init 0).distinct (tableInv_init 0).past
    (matchingKeys_nodup _ _)
    (by rw [burst_need 0 fun k _ => empty_not_held k, empty_avail]; decide)
  rw [burst_need 0 fun k _ => empty_not_held k, empty_avail] at havail₁
  have havail₂ := ht₂.avail hinv₁.distinct hinv₁.past (matchingKeys_nodup _ _)
    (by rw [burst_need 1 hnew₁]; omega)
  rw [burst_need 1 hnew₁] at havail₂
  have hneed : need (0 : UInt64).toNat (cells e₂) _ = 32 := burst_need 2 hnew₂
  have henough := (remembered_iff_of_inv hinv₂).mp hrem
  rcases henough with hle | ⟨heq, -⟩
  · rw [slotsNeeded_eq, slotsAvailable_eq, hneed] at hle
    omega
  · rw [slotsNeeded_eq, slotsAvailable_eq, hneed] at heq
    omega

end KernelGuard
