/-
Two offenders, and the incidents they are.

A handler or a module travels by its name, packed into the two parameter words of an
alert.  The engine tells incidents apart by the first word only, so what it sees of a
name is its first eight bytes: two offenders are two incidents exactly when these differ.

One direction asks for a fresh engine state for the second name, whatever the policy
and whatever happened before: as long as no alert about the same first word came, no
incident for the key is open (`NoLive` is kept by every other step).  For the other
direction one policy is enough, a rule for everything with the default throttle,
under which a second alert of the same key in the same second runs nothing.
-/
import KernelGuard.Lib.Tokens
import KernelGuard.Model.Modgate
import KernelGuard.Model.Monitor
import KernelGuard.Proofs.Comms
import KernelGuard.Proofs.Incidents
import KernelGuard.Proofs.PackName
import KernelGuard.Proofs.Accepted

namespace KernelGuard

open Run Bytes

/-! ### The packed name -/

/-- The name of an input handler or of a module: a C string. -/
structure CName where
  chars : CStr
  noNul : (0 : UInt8) ∉ chars

theorem padName_take (s : CStr) : (padName s).take 8 = padTo 8 s := by
  rw [padName_eq, take_padTo (by omega), padTo_take (by omega)]

/-- A name without NUL ends where its padding begins. -/
theorem take_eq_of_padTo_eq {k : Nat} {s t : CStr} (hs : (0 : UInt8) ∉ s) (ht : (0 : UInt8) ∉ t)
    (h : padTo k s = padTo k t) : s.take k = t.take k := by
  have hs' : (0 : UInt8) ∉ s.take k := fun h0 => hs (List.mem_of_mem_take h0)
  have ht' : (0 : UInt8) ∉ t.take k := fun h0 => ht (List.mem_of_mem_take h0)
  rw [padTo, padTo] at h
  rw [← Tokens.takeWhile_ne_replicate hs' (k - s.length), h, Tokens.takeWhile_ne_replicate ht']

/-- The first word is the first eight bytes. -/
theorem packName_fst_eq_iff (a b : CName) :
    (kgPackName a.chars).1 = (kgPackName b.chars).1 ↔ a.chars.take 8 = b.chars.take 8 := by
  constructor
  · intro h
    have hle64 : ∀ s : CStr, le64 (kgPackName s).1 = padTo 8 s := fun s => by
      rw [← padName_take]
      exact le64_leValue (by rw [padName_take, length_padTo])
    have hbytes : padTo 8 a.chars = padTo 8 b.chars := by rw [← hle64, h, hle64]
    exact take_eq_of_padTo_eq a.noNul b.noNul hbytes
  · intro h
    have hpad : padTo 8 a.chars = padTo 8 b.chars := by
      rw [← padTo_take (Nat.le_refl 8) a.chars, h, padTo_take (Nat.le_refl 8)]
    show wordOf _ = wordOf _
    rw [padName_take, padName_take, hpad]

/-! ### Fresh incidents

An incident for a key can only be opened by an alert with this key.  Ticks and
acknowledgements close incidents, and alerts about other names change the slots of
other keys, or evict.
-/

/-- No incident for the key is open: there is none, or it has been acknowledged. -/
def NoLive (e : KgpEngine) (k : KgpKey) : Prop :=
  ∀ i, (e i).used = true → (e i).key = k → (e i).acked = true

theorem NoLive.alertRule {e : KgpEngine} {k : KgpKey} (h : NoLive e k) (pol : KgpPolicy)
    {ri : Nat} (r : KgpRule) (now : UInt64) {al : KgpAlert} (hother : al.keyFor ri ≠ k) :
    NoLive (kgpAlertRule pol ri r now al e).1 k := by
  obtain ⟨inc, harr, heq⟩ := kgpAlertRule_arrived pol ri r now al e
  rw [heq]
  intro i hused hkey
  by_cases hi : i = alertSlot e ri al
  · rw [hi, Function.update_self] at hkey
    exact absurd (harr.key.symm.trans hkey) hother
  · rw [Function.update_of_ne hi] at hused hkey ⊢
    exact h i hused hkey

theorem NoLive.alertFrom (pol : KgpPolicy) (now : UInt64) {al : KgpAlert} {k : KgpKey}
    (rules : List KgpRule) : ∀ (ri : Nat) (e : KgpEngine), NoLive e k →
      (∀ j, ri ≤ j → al.keyFor j ≠ k) → NoLive (kgpAlertFrom pol now al ri rules e).1 k := by
  induction rules with
  | nil => exact fun _ _ h _ => h
  | cons r rest ih =>
      intro ri e h hother
      have hrest : ∀ j, ri + 1 ≤ j → al.keyFor j ≠ k := fun j hj => hother j (by omega)
      by_cases hm : ruleMatches r al = true
      · rw [kgpAlertFrom_cons_pos pol now ri rest e hm]
        exact ih (ri + 1) _ (h.alertRule pol r now (hother ri (Nat.le_refl _))) hrest
      · rw [kgpAlertFrom_cons_neg pol now ri rest e hm]
        exact ih (ri + 1) e h hrest

theorem NoLive.kgpTick {e : KgpEngine} {k : KgpKey} (h : NoLive e k) (pol : KgpPolicy)
    (now : UInt64) : NoLive (kgpTick pol now e).1 k := by
  intro i hused hkey
  have hslot : (KernelGuard.kgpTick pol now e).1 i = ((e i).tick pol now).1 := rfl
  rw [hslot] at hused hkey ⊢
  cases tick_cases pol now (e i) with
  | idle unused eq =>
      rw [eq, unused] at hused
      exact absurd hused (by simp)
  | forget used silent eq =>
      rw [eq] at hused
      exact absurd hused (by simp [KgpIncident.zero])
  | escalate used heard overdue eq =>
      rw [eq] at hused hkey ⊢
      exact h i hused hkey
  | keep used heard notDue eq =>
      rw [eq] at hused hkey ⊢
      exact h i hused hkey

theorem NoLive.kgpAck {e : KgpEngine} {k : KgpKey} (h : NoLive e k) (upToSeq : UInt32) :
    NoLive (kgpAck upToSeq e) k := by
  intro i hused hkey
  unfold KernelGuard.kgpAck at hused hkey ⊢
  by_cases hcov : ((e i).used && seqCovered upToSeq (e i).lastSeq) = true
  · simp only [hcov, if_true]
  · simp only [hcov, if_false, Bool.false_eq_true] at hused hkey ⊢
    exact h i hused hkey

/-- The step is not an alert of this type with this first parameter. -/
def NotAbout (code : UInt32) (p1 : UInt64) : EngOp → Prop
  | .alert _ al => ¬ (al.code = code ∧ al.param1 = p1)
  | .tick _ => True
  | .ack _ => True

theorem NoLive.step {e : KgpEngine} {k : KgpKey} (h : NoLive e k) (pol : KgpPolicy) {op : EngOp}
    (hop : NotAbout k.code k.p1 op) : NoLive (engStep pol e op) k := by
  cases op with
  | alert now al =>
      refine NoLive.alertFrom pol now pol.rules 0 e h fun j _ hkey => hop ?_
      exact ⟨congrArg KgpKey.code hkey, congrArg KgpKey.p1 hkey⟩
  | tick now => exact h.kgpTick pol now
  | ack upToSeq => exact h.kgpAck upToSeq

/-- A rule whose incident is not open runs its do-actions, as for the first time. -/
theorem fresh_alertRule (pol : KgpPolicy) {ri : Nat} (r : KgpRule) (now : UInt64) {al : KgpAlert}
    {e : KgpEngine} (h : NoLive e (al.keyFor ri)) {i : Nat} (hi : i ∈ maskActions pol r.doMask) :
    (⟨i, ri, al, 0, 1, now⟩ : KgpRun) ∈ (kgpAlertRule pol ri r now al e).2 := by
  have hfresh : ((incidentSlot e ri al.code al.param1).2
      || (e (incidentSlot e ri al.code al.param1).1).acked) = true := by
    cases incidentSlot_spec e ri al.code al.param1 with
    | hit _ isFor =>
        obtain ⟨hused, hkey⟩ := isFor_iff.mp isFor
        rw [h _ hused hkey, Bool.or_true]
    | free new => rw [new, Bool.true_or]
    | evict new => rw [new, Bool.true_or]
  unfold kgpAlertRule
  simp only [hfresh]
  refine List.mem_append_left _ ?_
  unfold KgpIncident.runBase
  rw [if_pos (by simp)]
  exact List.mem_map.mpr ⟨i, hi, rfl⟩

theorem fresh_alertFrom (pol : KgpPolicy) (now : UInt64) {al : KgpAlert} {r : KgpRule}
    (hm : ruleMatches r al = true) {i : Nat} (hi : i ∈ maskActions pol r.doMask)
    (rules : List KgpRule) : ∀ (ri j : Nat) (e : KgpEngine), rules[j]? = some r →
      NoLive e (al.keyFor (ri + j)) →
      (⟨i, ri + j, al, 0, 1, now⟩ : KgpRun) ∈ (kgpAlertFrom pol now al ri rules e).2 := by
  induction rules with
  | nil => exact fun _ _ _ hr _ => absurd hr (by simp)
  | cons q rest ih =>
      intro ri j e hr h
      cases j with
      | zero =>
          have hq : q = r := by simpa using hr
          rw [hq, kgpAlertFrom_cons_pos pol now ri rest e hm]
          exact List.mem_append_left _ (fresh_alertRule pol r now h hi)
      | succ j =>
          have hidx : ri + (j + 1) = ri + 1 + j := by omega
          rw [hidx] at h ⊢
          by_cases hq : ruleMatches q al = true
          · rw [kgpAlertFrom_cons_pos pol now ri rest e hq]
            refine List.mem_append_right _ (ih (ri + 1) j _ (by simpa using hr) ?_)
            refine h.alertRule pol q now fun hkey => ?_
            have := keyFor_injective al hkey
            omega
          · rw [kgpAlertFrom_cons_neg pol now ri rest e hq]
            exact ih (ri + 1) j e (by simpa using hr) h

/-! ### Two offenders

Between the two alerts anything may happen that is not about the second name.  The
witness of the other direction does nothing there: the alerts come one right after
the other.
-/

/-- The alerts that name an input handler or a module. -/
def namedAlerts : List UInt32 :=
  [kgAlertUnauthorizedKbdFilter, kgAlertKbdFilterNeutralized, kgAlertModuleLoaded,
    kgAlertVulnDriver, kgAlertDriverBlocked]

/-- The alert the engine gets for the offender `name`, from the kernel's report on. -/
def offenderAlert (mac : List UInt8 → KgMac) (type : UInt32) (name : CName) (seq : UInt32)
    (timestamp : UInt64) (level : UInt32) : KgpAlert :=
  let np := kgPackName name.chars
  let n := notificationOf mac seq timestamp ⟨type, level, np.1, np.2⟩
  Monitor.alertOf n (formatDetails n)

/--
`b` is a new incident after `a`: under every accepted policy, for every rule that matches
the alert, and in every engine in which no incident of the rule is open for `b`, an alert
about `a` is followed, with any steps in between that are not about `b`, by an alert
about `b` of the same type, and the do-actions of the rule are run for it as for the
first alert of an incident.
-/
def NewIncidentAfter (mac : List UInt8 → KgMac) (a b : CName) : Prop :=
  ∀ type ∈ namedAlerts, ∀ (text : CStr) (checkFs : Option KgpFs) (pol : KgpPolicy),
    kgpParse text checkFs = .ok pol →
    ∀ (ri : Nat) (r : KgpRule), pol.rules[ri]? = some r →
    ∀ (seqA seqB : UInt32) (timeA timeB : UInt64) (levelA levelB : UInt32),
    let alA := offenderAlert mac type a seqA timeA levelA
    let alB := offenderAlert mac type b seqB timeB levelB
    ruleMatches r alA = true → ruleMatches r alB = true →
    ∀ e : KgpEngine, NoLive e (alB.keyFor ri) →
    ∀ (nowA nowB : UInt64) (mid : List EngOp),
      Chronological (.alert nowA alA :: mid ++ [.alert nowB alB]) →
      (∀ op ∈ mid, NotAbout type alB.param1 op) →
      ∀ i ∈ maskActions pol r.doMask,
        (⟨i, ri, alB, 0, 1, nowB⟩ : KgpRun) ∈
          (kgpAlert pol nowB alB (exec (engStep pol) e (.alert nowA alA :: mid))).2

theorem newIncident_of_ne (mac : List UInt8 → KgMac) {a b : CName}
    (h : (kgPackName a.chars).1 ≠ (kgPackName b.chars).1) : NewIncidentAfter mac a b := by
  intro type _ text checkFs pol _ ri r hr seqA seqB timeA timeB levelA levelB alA alB _ hmB e
    hnone nowA nowB mid _ hmid i hi
  have hother : NotAbout type alB.param1 (.alert nowA alA) := fun habout => h habout.2
  have hlater : NoLive (exec (engStep pol) e (.alert nowA alA :: mid)) (alB.keyFor ri) := by
    refine exec_invariant_of (P := fun e => NoLive e (alB.keyFor ri))
      (C := fun _ op => NotAbout type alB.param1 op) (fun e op hn hop => hn.step pol hop) hnone _ ?_
    intro pre op post hsplit
    have hmem : op ∈ EngOp.alert nowA alA :: mid := by rw [hsplit]; simp
    rcases List.mem_cons.mp hmem with rfl | hin
    · exact hother
    · exact hmid op hin
  have hrun := fresh_alertFrom pol nowB hmB hi pol.rules 0 ri
    (exec (engStep pol) e (.alert nowA alA :: mid)) hr (by rw [Nat.zero_add]; exact hlater)
  rw [Nat.zero_add] at hrun
  exact hrun

/-- A policy file with one rule for everything, which has the default `throttle=`. -/
def pageText : CStr := str "action page /usr/bin/page\nrule all do=page\n"

def pageRule : KgpRule :=
  { KgpRule.zero with name := str "all", throttleS := 60, doMask := 1, resetS := 3600 }

def pagePolicy : KgpPolicy where
  actions := [⟨str "page", [str "/usr/bin/page"], 10⟩]
  rules := [pageRule]

theorem pagePolicy_accepted : kgpParse pageText none = .ok pagePolicy :=
  kgpParse_of_parsesTo (by decide +kernel)

/-- What one alert leaves in an empty engine. -/
theorem find_firstAlert {al : KgpAlert} (hm : ruleMatches pageRule al = true) :
    findIncident (kgpAlert pagePolicy 0 al kgpInit).1 (al.keyFor 0)
      = some (alertIncident pagePolicy 0 pageRule 0 al none).1 := by
  have hfit : Fits pagePolicy kgpInit (.alert 0 al) :=
    fits_init (by simp [pagePolicy, kgpMaxIncidents]) 0 al
  have hrule : (al.keyFor 0).ruleFor pagePolicy al = some pageRule :=
    ruleFor_eq_some.mpr ⟨rfl, rfl, hm⟩
  have hstep := (engAct_refines engineOK_init hfit (al.keyFor 0)).1
  rw [keyStep, keyAct_alert hrule, findIncident_init] at hstep
  exact hstep

/-- The throttle keeps the same incident quiet within the second. -/
theorem throttled (alA alB : KgpAlert) :
    (alertIncident pagePolicy 0 pageRule 0 alB
      (some (alertIncident pagePolicy 0 pageRule 0 alA none).1)).2 = [] := by
  have hthrottle : ¬ (0 - 0 : UInt64) ≥ (60 : UInt32).toUInt64 := by decide
  simp only [alertIncident, KgpIncident.arrive, KgpIncident.runBase, KgpIncident.runRepeat,
    pageRule, KgpRule.zero, KgpIncident.zero, Option.elim_none, Option.getD_none, Option.elim_some,
    Option.getD_some, Bool.true_or, Bool.false_or, if_true, hthrottle, decide_false, if_false,
    ne_eq, not_true_eq_false, Bool.false_and, Bool.false_eq_true, List.append_nil]

/-- A second alert with the same key, in the same second, runs nothing. -/
theorem second_alert_quiet {alA alB : KgpAlert} (hmA : ruleMatches pageRule alA = true)
    (hmB : ruleMatches pageRule alB = true) (hkey : alB.keyFor 0 = alA.keyFor 0) :
    (kgpAlert pagePolicy 0 alB (kgpAlert pagePolicy 0 alA kgpInit).1).2 = [] := by
  have hok : EngineOK (kgpAlert pagePolicy 0 alA kgpInit).1 :=
    EngineOK.step engineOK_init (.alert 0 alA)
  show (kgpAlertFrom pagePolicy 0 alB 0 [pageRule] _).2 = []
  rw [kgpAlertFrom_cons_pos pagePolicy 0 0 [] _ hmB, kgpAlertRule_eq pagePolicy 0 pageRule 0 alB
    hok.distinct, hkey, find_firstAlert hmA]
  show (alertIncident pagePolicy 0 pageRule 0 alB _).2 ++ [] = []
  rw [throttled, List.append_nil]

theorem ne_of_newIncident (mac : List UInt8 → KgMac) {a b : CName} (h : NewIncidentAfter mac a b) :
    (kgPackName a.chars).1 ≠ (kgPackName b.chars).1 := by
  intro hword
  have hrun := h kgAlertModuleLoaded (by simp [namedAlerts]) pageText none pagePolicy
    pagePolicy_accepted 0 pageRule rfl 0 0 0 0 kgLevelCritical kgLevelCritical rfl rfl kgpInit
    (fun i hused => absurd hused (by simp [kgpInit, KgpIncident.zero])) 0 0 []
    (by simp [Chronological, EngOp.time]) (by simp) 0 (by decide)
  have hquiet : (kgpAlert pagePolicy 0 (offenderAlert mac kgAlertModuleLoaded b 0 0 kgLevelCritical)
      (kgpAlert pagePolicy 0 (offenderAlert mac kgAlertModuleLoaded a 0 0 kgLevelCritical)
        kgpInit).1).2 = [] :=
    second_alert_quiet rfl rfl (congrArg (KgpKey.mk 0 kgAlertModuleLoaded) hword.symm)
  rw [exec_cons, exec_nil] at hrun
  rw [show engStep pagePolicy kgpInit (.alert 0 _) = (kgpAlert pagePolicy 0 _ kgpInit).1 from rfl,
    hquiet] at hrun
  exact absurd hrun (by simp)

/--
**When two offenders are two incidents.**  For every two names, an alert about `b` after
one about `a` is a fresh incident, whatever the policy, the engine and the throttle,
exactly when the names differ in their first eight bytes.
-/
theorem offenders_distinct_iff (mac : List UInt8 → KgMac) (a b : CName) :
    NewIncidentAfter mac a b ↔ a.chars.take 8 ≠ b.chars.take 8 := by
  rw [Ne, ← packName_fst_eq_iff]
  exact ⟨ne_of_newIncident mac, newIncident_of_ne mac⟩

/-- Two modules of one family. -/
def familyA : CName := ⟨str "rootkit_a", by decide⟩
def familyB : CName := ⟨str "rootkit_b", by decide⟩

/-- They differ, and the second one is taken for the first. -/
theorem family_taken_for_one :
    ¬ ∀ a b : CName, a ≠ b → NewIncidentAfter checksumMac a b := by
  intro h
  have hdiffer : familyA ≠ familyB := fun heq => absurd (congrArg CName.chars heq) (by decide)
  refine ne_of_newIncident _ (h familyA familyB hdiffer) ?_
  exact (packName_fst_eq_iff familyA familyB).mpr (by decide)

end KernelGuard
