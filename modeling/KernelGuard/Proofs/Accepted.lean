/-
What an accepted policy file guarantees.

The engine relies on the parser: a repetition count has to fit into the ring of arrival
times, an incident has to be silent for some time before it is forgotten, and an
escalation has to have something to run.  `RuleWf` is what the checks of `parse_rule`
come down to for a rule that can use the actions defined so far, and `ActionWf` what those of
`parse_action` do.

The invariant of the option loop is the part of `RuleWf` that is checked option by
option; the rest is checked by `finishRule`, behind the loop.  A line leaves the policy as it
is or adds one entry behind the others (`parseLine_cases`), and a file is its lines one after
the other, so a file that fails does so at a line whose predecessors alone are accepted.
-/
import KernelGuard.Model.PolicyParse
import KernelGuard.Lib.Tokens
import Mathlib.Data.List.Induction
import Mathlib.Data.List.Nodup

namespace KernelGuard

/-- The mask has an action among the first `n`. -/
def HasAction (n : Nat) (mask : UInt32) : Prop :=
  ∃ i, i < n ∧ mask &&& ((1 : UInt32) <<< UInt32.ofNat i) ≠ 0

/-- The options of a rule that are checked one by one. -/
structure OptionsOK (r : KgpRule) : Prop where
  throttle : r.throttleS.toNat ≤ 86400
  reset : 1 ≤ r.resetS.toNat ∧ r.resetS.toNat ≤ 30 * 86400
  unacked : r.unackedS.toNat ≤ 30 * 86400
  repeatN : r.repeatN = 0 ∨ (2 ≤ r.repeatN.toNat ∧ r.repeatN.toNat ≤ kgpMaxRepeat)
  window : r.repeatWindowS.toNat ≤ 86400

/-- A rule of a policy with `n` actions. -/
structure RuleOK (n : Nat) (r : KgpRule) : Prop extends OptionsOK r where
  doMask : HasAction n r.doMask
  thenMask : r.repeatN ≠ 0 ∨ r.unackedS ≠ 0 → HasAction n r.thenMask

structure PolicyOK (pol : KgpPolicy) : Prop where
  actions : pol.actions.length ≤ kgpMaxActions
  rules : ∀ r ∈ pol.rules, RuleOK pol.actions.length r

/-! ### Well-formed entries -/

/-- The mask names some of the first `n` actions, and no others. -/
def Known (n : Nat) (mask : UInt32) : Prop := mask.toNat < 2 ^ n

/-- An action. -/
structure ActionWf (a : KgpAction) : Prop where
  name : validName a.name = true
  args : 1 ≤ a.argv.length ∧ a.argv.length ≤ kgpMaxArgs
  program : ∃ path, a.argv.head? = some (chSlash :: path)
  timeout : 1 ≤ a.timeoutS.toNat ∧ a.timeoutS.toNat ≤ 3600

/-- A rule behind `n` actions. -/
structure RuleWf (n : Nat) (r : KgpRule) : Prop extends OptionsOK r where
  name : validName r.name = true
  codes : r.codes.length ≤ kgpMaxCodes
  level : kgpInfo ≤ r.minLevel ∧ r.minLevel ≤ kgpForged
  repeatWindow : r.repeatN ≠ 0 → 1 ≤ r.repeatWindowS.toNat
  doSome : r.doMask ≠ 0
  doKnown : Known n r.doMask
  thenKnown : Known n r.thenMask
  thenSome : r.thenMask ≠ 0 ↔ r.repeatN ≠ 0 ∨ r.unackedS ≠ 0

/-- A policy, apart from what its rules say. -/
structure PolicyWf (pol : KgpPolicy) : Prop where
  nactions : pol.actions.length ≤ kgpMaxActions
  nrules : pol.rules.length ≤ kgpMaxRules
  actions : ∀ a ∈ pol.actions, ActionWf a
  actionNames : (pol.actions.map (·.name)).Nodup
  ruleNames : (pol.rules.map (·.name)).Nodup

/-! ### Single options

One fact for each way an option can be read: a number within its bounds, a bit for a
name that is defined, a list of codes that is not too long.  What they say of a mask
is relative to the number of actions defined so far, and actions are only ever
added, so it stays true of every later policy (`Known.mono`).
-/

theorem parseUint_bounds {s : CStr} {lo hi : Nat} {v : UInt32} (h : parseUint s lo hi = some v)
    (hhi : hi < 2 ^ 32) : lo ≤ v.toNat ∧ v.toNat ≤ hi := by
  unfold parseUint at h
  split at h
  · exact absurd h (by simp)
  · simp only at h
    split at h
    · exact absurd h (by simp)
    · next hrange =>
        simp only [Option.some.injEq] at h
        simp only [Bool.or_eq_true, decide_eq_true_eq, not_or, Nat.not_lt] at hrange
        have hlt : (strtoul s 10).value < 2 ^ 32 := by omega
        rw [← h, UInt32.toNat_ofNat_of_lt' hlt]
        omega

theorem toNat_bit {i : Nat} (hi : i < 32) : ((1 : UInt32) <<< UInt32.ofNat i).toNat = 2 ^ i := by
  have hall : ∀ j < 32, ((1 : UInt32) <<< UInt32.ofNat j).toNat = 2 ^ j := by decide
  exact hall i hi

theorem testBit_lt {x n i : Nat} (hx : x < 2 ^ n) (hbit : x.testBit i = true) : i < n := by
  by_contra hge
  have hsmall := Nat.lt_of_lt_of_le hx (Nat.pow_le_pow_right (by decide) (Nat.not_lt.mp hge))
  rw [Nat.testBit_lt_two_pow hsmall] at hbit
  exact absurd hbit (by decide)

/-- A mask that is not empty has one of the actions it may name. -/
theorem Known.hasAction {n : Nat} {mask : UInt32} (h : Known n mask) (hne : mask ≠ 0) :
    HasAction n mask := by
  have hnat : mask.toNat ≠ 0 := fun h0 => hne (UInt32.toNat_inj.mp h0)
  obtain ⟨i, hbit⟩ := Nat.exists_testBit_of_ne_zero hnat
  refine ⟨i, testBit_lt h hbit, fun h0 => ?_⟩
  have hzero := congrArg (fun x : UInt32 => x.toNat.testBit i) h0
  simp only [UInt32.toNat_and, toNat_bit (testBit_lt mask.toNat_lt hbit), Nat.testBit_and, Nat.testBit_two_pow_self, hbit,
    UInt32.toNat_zero, Nat.zero_testBit, Bool.and_self, Bool.true_eq_false] at hzero

theorem Known.mono {n m : Nat} {mask : UInt32} (h : Known n mask) (hnm : n ≤ m) : Known m mask :=
  Nat.lt_of_lt_of_le h (Nat.pow_le_pow_right (by decide) hnm)

/-- Only actions that are defined get a bit. -/
theorem actionMask_known {pol : KgpPolicy} (hpol : pol.actions.length ≤ kgpMaxActions)
    (toks : List CStr) :
    ∀ mask m, Known pol.actions.length mask → actionMask pol toks mask = .ok m →
      Known pol.actions.length m := by
  induction toks with
  | nil =>
      intro mask m hmask h
      simp only [actionMask, Except.ok.injEq] at h
      rwa [← h]
  | cons t rest ih =>
      intro mask m hmask h
      unfold actionMask at h
      cases hidx : actionIndex pol t with
      | none =>
          rw [hidx] at h
          exact absurd h (by simp)
      | some i =>
          rw [hidx] at h
          refine ih _ m ?_ h
          have hi : i < pol.actions.length := (List.findIdx?_eq_some_iff_findIdx_eq.mp hidx).1
          have hi16 : i < 16 := Nat.lt_of_lt_of_le hi hpol
          unfold Known
          rw [UInt32.toNat_or, toNat_bit (by omega)]
          exact Nat.or_lt_two_pow hmask (Nat.pow_lt_pow_right (by decide) hi)

theorem parseActionList_known {pol : KgpPolicy} (hpol : pol.actions.length ≤ kgpMaxActions)
    {list : CStr} {mask : UInt32} (h : parseActionList pol list = .ok mask) :
    mask ≠ 0 ∧ Known pol.actions.length mask := by
  unfold parseActionList at h
  cases hmask : actionMask pol (commaTokens list) 0 with
  | error e =>
      rw [hmask] at h
      exact absurd h (by simp)
  | ok m =>
      rw [hmask] at h
      simp only at h
      by_cases hm : m = 0
      · rw [if_pos hm] at h
        exact absurd h (by simp)
      · rw [if_neg hm, Except.ok.injEq] at h
        rw [← h]
        exact ⟨hm, actionMask_known hpol _ 0 m (Nat.two_pow_pos _) hmask⟩

theorem parseCodes_length (toks : List CStr) :
    ∀ codes cs, codes.length ≤ kgpMaxCodes → parseCodes toks codes = .ok cs →
      cs.length ≤ kgpMaxCodes := by
  induction toks with
  | nil =>
      intro codes cs hlen h
      simp only [parseCodes, Except.ok.injEq] at h
      rwa [← h]
  | cons t rest ih =>
      intro codes cs hlen h
      unfold parseCodes at h
      split at h
      · simp only [Except.ok.injEq] at h
        rw [← h]
        exact Nat.zero_le _
      split at h
      · exact absurd h (by simp)
      next hroom =>
      split at h
      · exact absurd h (by simp)
      · refine ih _ cs ?_ h
        rw [List.length_append, List.length_singleton]
        exact Nat.lt_of_not_le hroom

theorem levelFromName_range {s : CStr} {l : Int} (h : levelFromName s = some l) :
    kgpInfo ≤ l ∧ l ≤ kgpForged := by
  have hall : ∀ p ∈ kgpLevelNames, kgpInfo ≤ p.1 ∧ p.1 ≤ kgpForged := by decide
  obtain ⟨p, hp, rfl⟩ := Option.map_eq_some_iff.mp h
  exact hall p (List.mem_of_find?_eq_some hp)

/-! ### The option loop

The loop keeps its results in locals and checks nothing across them, so its
invariant can only be the bounds of the single locals.  `OptionSets` says which local
an accepted option changes, and with what value; the invariant is then one case for
each option, and what relates two locals waits for `finishRule`.
-/

/-- What the loop of `parse_rule` keeps true of its locals. -/
structure RuleStateWf (n : Nat) (name : CStr) (s : RuleState) : Prop where
  options : OptionsOK s.rule
  name : s.rule.name = name
  codes : s.rule.codes.length ≤ kgpMaxCodes
  level : kgpInfo ≤ s.rule.minLevel ∧ s.rule.minLevel ≤ kgpForged
  repeatWindow : s.rule.repeatN ≠ 0 → 1 ≤ s.rule.repeatWindowS.toNat
  doMask : s.haveDo = true → s.rule.doMask ≠ 0 ∧ Known n s.rule.doMask
  thenMask : s.rule.thenMask = 0

theorem uintOption_ok {v : CStr} {lo hi : Nat} {bad range : String} {set : UInt32 → KgpRule}
    {s s' : RuleState} (h : uintOption v lo hi bad range set s = .ok s') (hhi : hi < 2 ^ 32) :
    ∃ x : UInt32, lo ≤ x.toNat ∧ x.toNat ≤ hi ∧ s' = { s with rule := set x } := by
  unfold uintOption at h
  cases hv : parseUint v lo hi with
  | none =>
      rw [hv] at h
      exact absurd h (by simp)
  | some x =>
      rw [hv] at h
      simp only [Except.ok.injEq] at h
      obtain ⟨hlo, hx⟩ := parseUint_bounds hv hhi
      exact ⟨x, hlo, hx, h.symm⟩

section

variable {pol : KgpPolicy} {name : CStr} {s s' : RuleState}

/-- What one `key=value` of a rule line sets, if it is accepted. -/
inductive OptionSets (pol : KgpPolicy) (s : RuleState) : CStr → CStr → RuleState → Prop where
  | alert {v : CStr} {codes : List UInt32} (h : parseCodes (commaTokens v) [] = .ok codes) :
      OptionSets pol s (str "alert") v { s with rule := { s.rule with codes := codes } }
  | level {v : CStr} {l : Int} (h : levelFromName v = some l) :
      OptionSets pol s (str "level") v { s with rule := { s.rule with minLevel := l } }
  | throttle {v : CStr} {x : UInt32} (h : x.toNat ≤ 86400) :
      OptionSets pol s (str "throttle") v { s with rule := { s.rule with throttleS := x } }
  | reset {v : CStr} {x : UInt32} (h : 1 ≤ x.toNat ∧ x.toNat ≤ 30 * 86400) :
      OptionSets pol s (str "reset") v { s with rule := { s.rule with resetS := x } }
  | unacked {v : CStr} {x : UInt32} (h : x.toNat ≤ 30 * 86400) :
      OptionSets pol s (str "unacked") v { s with rule := { s.rule with unackedS := x } }
  | repeats {v : CStr} {n w : UInt32} (hn : 2 ≤ n.toNat ∧ n.toNat ≤ kgpMaxRepeat)
      (hw : 1 ≤ w.toNat ∧ w.toNat ≤ 86400) :
      OptionSets pol s (str "repeat") v
        { s with rule := { s.rule with repeatN := n, repeatWindowS := w } }
  | does {v : CStr} {mask : UInt32} (h : parseActionList pol v = .ok mask) :
      OptionSets pol s (str "do") v
        { s with rule := { s.rule with doMask := mask }, haveDo := true }
  | thens {v : CStr} : OptionSets pol s (str "then") v { s with thenList := some v }

theorem repeatOption_sets {v : CStr} (h : repeatOption v s = .ok s') :
    OptionSets pol s (str "repeat") v s' := by
  unfold repeatOption at h
  split at h
  · exact absurd h (by simp)
  split at h
  · next n w hn hw =>
      simp only [Except.ok.injEq] at h
      rw [← h]
      exact .repeats (parseUint_bounds hn (by decide)) (parseUint_bounds hw (by decide))
  · exact absurd h (by simp)

/-- An accepted option is one of the eight. -/
theorem ruleOption_sets {t : CStr} (h : ruleOption pol t s = .ok s') :
    t.contains chEquals = true ∧
      OptionSets pol s (t.takeWhile (· ≠ chEquals)) ((t.dropWhile (· ≠ chEquals)).drop 1) s' := by
  unfold ruleOption at h
  split at h
  · exact absurd h (by simp)
  next heq =>
  refine ⟨by simpa using heq, ?_⟩
  simp only at h
  split at h
  · next hkey =>
      rw [hkey]
      split at h
      · exact absurd h (by simp)
      · next codes hcodes =>
          simp only [Except.ok.injEq] at h
          rw [← h]
          exact .alert hcodes
  split at h
  · next hkey =>
      rw [hkey]
      split at h
      · exact absurd h (by simp)
      · next l hl =>
          simp only [Except.ok.injEq] at h
          rw [← h]
          exact .level hl
  split at h
  · next hkey =>
      obtain ⟨x, -, hx, rfl⟩ := uintOption_ok h (by decide)
      rw [hkey]
      exact .throttle hx
  split at h
  · next hkey =>
      obtain ⟨x, hlo, hx, rfl⟩ := uintOption_ok h (by decide)
      rw [hkey]
      exact .reset ⟨hlo, hx⟩
  split at h
  · next hkey =>
      obtain ⟨x, -, hx, rfl⟩ := uintOption_ok h (by decide)
      rw [hkey]
      exact .unacked hx
  split at h
  · next hkey =>
      rw [hkey]
      exact repeatOption_sets h
  split at h
  · next hkey =>
      rw [hkey]
      split at h
      · exact absurd h (by simp)
      · next mask hmask =>
          simp only [Except.ok.injEq] at h
          rw [← h]
          exact .does hmask
  split at h
  · next hkey =>
      simp only [Except.ok.injEq] at h
      rw [hkey, ← h]
      exact .thens
  · exact absurd h (by simp)

theorem RuleStateWf.ruleOption (hpol : pol.actions.length ≤ kgpMaxActions) {t : CStr}
    (hs : RuleStateWf pol.actions.length name s) (h : ruleOption pol t s = .ok s') :
    RuleStateWf pol.actions.length name s' := by
  obtain ⟨-, hsets⟩ := ruleOption_sets h
  generalize t.takeWhile (· ≠ chEquals) = key at hsets
  cases hsets with
  | alert hcodes =>
      exact { hs with
        options := { hs.options with }
        codes := parseCodes_length _ [] _ (Nat.zero_le _) hcodes }
  | level hl => exact { hs with options := { hs.options with }, level := levelFromName_range hl }
  | throttle hx => exact { hs with options := { hs.options with throttle := hx } }
  | reset hx => exact { hs with options := { hs.options with reset := hx } }
  | unacked hx => exact { hs with options := { hs.options with unacked := hx } }
  | repeats hn hw =>
      exact { hs with
        options := { hs.options with repeatN := Or.inr hn, window := hw.2 }
        repeatWindow := fun _ => hw.1 }
  | does hmask =>
      exact { hs with
        options := { hs.options with }
        doMask := fun _ => parseActionList_known hpol hmask }
  | thens => exact { hs with }

theorem RuleStateWf.ruleOptions (hpol : pol.actions.length ≤ kgpMaxActions) (opts : List CStr) :
    ∀ s s', RuleStateWf pol.actions.length name s → ruleOptions pol opts s = .ok s' →
      RuleStateWf pol.actions.length name s' := by
  induction opts with
  | nil =>
      intro s s' hs h
      simp only [KernelGuard.ruleOptions, Except.ok.injEq] at h
      rwa [← h]
  | cons t rest ih =>
      intro s s' hs h
      unfold KernelGuard.ruleOptions at h
      cases hopt : KernelGuard.ruleOption pol t s with
      | error e =>
          rw [hopt] at h
          exact absurd h (by simp)
      | ok s₁ =>
          rw [hopt] at h
          exact ih s₁ s' (hs.ruleOption hpol hopt) h

theorem RuleStateWf.finishRule (hpol : pol.actions.length ≤ kgpMaxActions)
    (hname : validName name = true) (hs : RuleStateWf pol.actions.length name s) {r : KgpRule}
    (h : finishRule pol s = .ok r) : r.name = name ∧ RuleWf pol.actions.length r := by
  unfold KernelGuard.finishRule at h
  split at h
  · exact absurd h (by simp)
  next hdo =>
  obtain ⟨hsome, hknown⟩ := hs.doMask (by simpa using hdo)
  have hvalid : validName s.rule.name = true := by rw [hs.name]; exact hname
  split at h
  · split at h
    · exact absurd h (by simp)
    · next mask hthen =>
        split at h
        · exact absurd h (by simp)
        · next huse =>
            obtain ⟨hne, hmask⟩ := parseActionList_known hpol hthen
            simp only [Except.ok.injEq] at h
            rw [← h]
            refine ⟨hs.name, { hs.options with
              name := hvalid, codes := hs.codes, level := hs.level, repeatWindow := hs.repeatWindow
              doSome := hsome, doKnown := hknown, thenKnown := hmask
              thenSome := ⟨fun _ => ?_, fun _ => hne⟩ }⟩
            simp only [Bool.and_eq_true, decide_eq_true_eq] at huse
            exact Decidable.not_and_iff_not_or_not.mp huse
  · split at h
    · exact absurd h (by simp)
    · next hnone =>
        simp only [Except.ok.injEq] at h
        rw [← h]
        simp only [Bool.or_eq_true, decide_eq_true_eq] at hnone
        refine ⟨hs.name, { hs.options with
          name := hvalid, codes := hs.codes, level := hs.level, repeatWindow := hs.repeatWindow
          doSome := hsome, doKnown := hknown
          thenKnown := by rw [hs.thenMask]; exact Nat.two_pow_pos _
          thenSome := ⟨fun hne => absurd hs.thenMask hne, fun huse => absurd huse hnone⟩ }⟩

end

/-! ### Lines

A line without words leaves the policy as it is, and an action or a rule is put
behind the others of its kind.  Earlier rules are not looked at again: an action that
is added later cannot make them wrong, because their masks name earlier actions.
-/

theorem parseRule_cases {pol pol' : KgpPolicy} (hpol : pol.actions.length ≤ kgpMaxActions)
    {tok : List CStr} (h : parseRule pol tok = .ok pol') :
    ∃ r, pol' = { pol with rules := pol.rules ++ [r] } ∧ RuleWf pol.actions.length r ∧
      pol.rules.length < kgpMaxRules ∧ r.name ∉ pol.rules.map (·.name) := by
  unfold parseRule at h
  split at h
  · next name opts =>
      split at h
      · exact absurd h (by simp)
      split at h
      · exact absurd h (by simp)
      next hroom =>
      split at h
      · exact absurd h (by simp)
      next hname =>
      split at h
      · exact absurd h (by simp)
      next hnew =>
      simp only at h
      split at h
      · exact absurd h (by simp)
      next s hopts =>
      split at h
      · exact absurd h (by simp)
      next r hfinish =>
      simp only [Except.ok.injEq] at h
      -- the defaults pass their own checks
      have hstart : RuleStateWf pol.actions.length name
          ⟨{ KgpRule.zero with name := name, throttleS := 60, resetS := 3600 }, false, none⟩ :=
        { options := ⟨(by decide : (60 : UInt32).toNat ≤ 86400),
            (by decide : 1 ≤ (3600 : UInt32).toNat ∧ (3600 : UInt32).toNat ≤ 30 * 86400),
            Nat.zero_le _, Or.inl rfl, Nat.zero_le _⟩
          name := rfl
          codes := Nat.zero_le _
          level := (by decide : kgpInfo ≤ kgpInfo ∧ kgpInfo ≤ kgpForged)
          repeatWindow := fun h0 => absurd rfl h0
          doMask := fun hdo => absurd hdo (by simp)
          thenMask := rfl }
      have hs := RuleStateWf.ruleOptions hpol opts _ s hstart hopts
      obtain ⟨hrname, hrule⟩ := hs.finishRule hpol (by simpa using hname) hfinish
      refine ⟨r, h.symm, hrule, Nat.lt_of_not_le hroom, ?_⟩
      rw [hrname]
      intro hmem
      obtain ⟨q, hq, hqname⟩ := List.mem_map.mp hmem
      exact hnew (List.any_eq_true.mpr ⟨q, hq, by simpa using hqname⟩)
  · exact absurd h (by simp)

theorem actionOptions_timeout (toks : List CStr) :
    ∀ t toks' t', 1 ≤ t.toNat ∧ t.toNat ≤ 3600 → actionOptions toks t = .ok (toks', t') →
      1 ≤ t'.toNat ∧ t'.toNat ≤ 3600 := by
  induction toks with
  | nil =>
      intro t toks' t' ht h
      simp only [actionOptions, Except.ok.injEq, Prod.mk.injEq] at h
      rwa [← h.2]
  | cons c rest ih =>
      intro t toks' t' ht h
      unfold actionOptions at h
      split at h
      · split at h
        · split at h
          · exact absurd h (by simp)
          · next v hv => exact ih v toks' t' (parseUint_bounds hv (by decide)) h
        · exact absurd h (by simp)
      · simp only [Except.ok.injEq, Prod.mk.injEq] at h
        rwa [← h.2]

theorem parseAction_cases {pol pol' : KgpPolicy} {tok : List CStr} {checkFs : Option KgpFs}
    (h : parseAction pol tok checkFs = .ok pol') :
    ∃ a, pol' = { pol with actions := pol.actions ++ [a] } ∧ ActionWf a ∧
      pol.actions.length < kgpMaxActions ∧ a.name ∉ pol.actions.map (·.name) := by
  unfold parseAction at h
  split at h
  · next name args =>
    split at h
    · exact absurd h (by simp)
    split at h
    · exact absurd h (by simp)
    next hroom =>
    split at h
    · exact absurd h (by simp)
    next hname =>
    split at h
    · exact absurd h (by simp)
    next hnew =>
    split at h
    · exact absurd h (by simp)
    · exact absurd h (by simp)
    next prog argv timeoutS hopts =>
    split at h
    · exact absurd h (by simp)
    next hargs =>
    split at h
    · exact absurd h (by simp)
    split at h
    · exact absurd h (by simp)
    next hpath =>
    simp only [Except.ok.injEq] at h
    refine ⟨_, h.symm, ⟨by simpa using hname, ?_, ?_, ?_⟩, Nat.lt_of_not_le hroom, ?_⟩
    · exact ⟨Nat.succ_le_of_lt (Nat.zero_lt_succ _), Nat.le_of_not_lt hargs⟩
    · cases prog with
      | nil => exact absurd hpath (by simp)
      | cons c path =>
          have hc : c = chSlash := by simpa using hpath
          exact ⟨path, by rw [hc]; rfl⟩
    · exact actionOptions_timeout args 10 _ timeoutS (by decide) hopts
    · intro hmem
      obtain ⟨a, ha, haname⟩ := List.mem_map.mp hmem
      refine hnew ?_
      rw [actionIndex, List.findIdx?_isSome, List.any_eq_true]
      exact ⟨a, ha, by simpa using haname⟩
  · exact absurd h (by simp)

/-- What a line that is accepted does to the policy. -/
theorem parseLine_cases {pol pol' : KgpPolicy} (hpol : pol.actions.length ≤ kgpMaxActions)
    {line : CStr} {checkFs : Option KgpFs} (h : parseLine checkFs pol line = .ok pol') :
    pol' = pol ∨
      (∃ a, pol' = { pol with actions := pol.actions ++ [a] } ∧ ActionWf a ∧
        pol.actions.length < kgpMaxActions ∧ a.name ∉ pol.actions.map (·.name)) ∨
      ∃ r, pol' = { pol with rules := pol.rules ++ [r] } ∧ RuleWf pol.actions.length r ∧
        pol.rules.length < kgpMaxRules ∧ r.name ∉ pol.rules.map (·.name) := by
  unfold parseLine at h
  split at h
  · exact absurd h (by simp)
  · simp only [Except.ok.injEq] at h
    exact .inl h.symm
  · split at h
    · exact .inr (.inl (parseAction_cases h))
    split at h
    · exact .inr (.inr (parseRule_cases hpol h))
    · exact absurd h (by simp)

theorem PolicyWf.parseLine {pol pol' : KgpPolicy} (hpol : PolicyWf pol) {line : CStr}
    {checkFs : Option KgpFs} (h : parseLine checkFs pol line = .ok pol') : PolicyWf pol' := by
  rcases parseLine_cases hpol.nactions h with rfl | ⟨a, rfl, ha, hroom, hnew⟩ | ⟨r, rfl, -, hroom, hnew⟩
  · exact hpol
  · refine { hpol with nactions := ?_, actions := ?_, actionNames := ?_ }
    · rw [List.length_append]
      exact hroom
    · intro b hb
      rcases List.mem_append.mp hb with hb | hb
      · exact hpol.actions b hb
      · rw [List.mem_singleton.mp hb]
        exact ha
    · rw [List.map_append, List.map_singleton, ← List.concat_eq_append]
      exact hpol.actionNames.concat hnew
  · refine { hpol with nrules := ?_, ruleNames := ?_ }
    · rw [List.length_append]
      exact hroom
    · rw [List.map_append, List.map_singleton, ← List.concat_eq_append]
      exact hpol.ruleNames.concat hnew

/-! ### Files

The loop over the lines stops at the first error, and the induction is over the
lines from the front with the policy so far as the accumulator.  A rule comes from a
line, so the statement carries the lines already read, and a failing file is split
at the line whose predecessors alone are accepted.
-/

/-- A rule comes from a line behind those that define the actions it names. -/
def RuleFrom (checkFs : Option KgpFs) (lines : List CStr) (pol : KgpPolicy) (r : KgpRule) : Prop :=
  ∃ pre line post before, lines = pre ++ line :: post ∧
    parseLines checkFs pre 0 KgpPolicy.zero = .ok before ∧
    parseLine checkFs before line = .ok { before with rules := before.rules ++ [r] } ∧
    before.actions <+: pol.actions ∧ RuleWf before.actions.length r

theorem parseLines_append (checkFs : Option KgpFs) (xs ys : List CStr) :
    ∀ n pol, parseLines checkFs (xs ++ ys) n pol =
      match parseLines checkFs xs n pol with
      | .error e => .error e
      | .ok p => parseLines checkFs ys (n + xs.length) p := by
  induction xs with
  | nil => exact fun n pol => rfl
  | cons x rest ih =>
      intro n pol
      rw [List.cons_append, parseLines, parseLines]
      cases parseLine checkFs pol x with
      | error e => rfl
      | ok p =>
          simp only [ih, List.length_cons]
          rw [show n + 1 + rest.length = n + (rest.length + 1) by omega]

theorem parseLines_snoc {checkFs : Option KgpFs} {lines : List CStr} {line : CStr} {n : Nat}
    {pol pol' : KgpPolicy} (h : parseLines checkFs (lines ++ [line]) n pol = .ok pol') :
    ∃ p, parseLines checkFs lines n pol = .ok p ∧ parseLine checkFs p line = .ok pol' := by
  rw [parseLines_append] at h
  cases hp : parseLines checkFs lines n pol with
  | error e =>
      rw [hp] at h
      exact absurd h (by simp)
  | ok p =>
      rw [hp] at h
      refine ⟨p, rfl, ?_⟩
      simp only [parseLines] at h
      cases hline : parseLine checkFs p line with
      | error e =>
          rw [hline] at h
          exact absurd h (by simp)
      | ok q =>
          rw [hline] at h
          rw [← Except.ok.inj h]

/-- The line where a file fails. -/
theorem parseLines_error {checkFs : Option KgpFs} (lines : List CStr) :
    ∀ n pol k e, parseLines checkFs lines n pol = .error (k, e) →
      ∃ i, k = n + i + 1 ∧ (∃ p, parseLines checkFs (lines.take i) n pol = .ok p) ∧
        parseLines checkFs (lines.take (i + 1)) n pol = .error (k, e) := by
  induction lines with
  | nil =>
      intro n pol k e h
      exact absurd h (by simp [parseLines])
  | cons line rest ih =>
      intro n pol k e h
      rw [parseLines] at h
      cases hline : parseLine checkFs pol line with
      | error e' =>
          rw [hline] at h
          simp only [Except.error.injEq, Prod.mk.injEq] at h
          refine ⟨0, h.1.symm, ⟨pol, rfl⟩, ?_⟩
          rw [List.take_succ_cons, parseLines, hline]
          simp only [h.1, h.2]
      | ok p =>
          rw [hline] at h
          obtain ⟨i, hk, ⟨q, hq⟩, herr⟩ := ih (n + 1) p k e h
          refine ⟨i + 1, by omega, ⟨q, ?_⟩, ?_⟩
          · rw [List.take_succ_cons, parseLines, hline]
            exact hq
          · rw [List.take_succ_cons, parseLines, hline]
            exact herr

/-- The invariant of the loop over the lines. -/
theorem parseLines_wf {checkFs : Option KgpFs} (lines : List CStr) :
    ∀ pol, parseLines checkFs lines 0 KgpPolicy.zero = .ok pol →
      PolicyWf pol ∧ ∀ r ∈ pol.rules, RuleFrom checkFs lines pol r := by
  induction lines using List.reverseRecOn with
  | nil =>
      intro pol h
      simp only [parseLines, Except.ok.injEq] at h
      rw [← h]
      exact ⟨⟨Nat.zero_le _, Nat.zero_le _, nofun, List.nodup_nil, List.nodup_nil⟩, nofun⟩
  | append_singleton lines line ih =>
      intro pol h
      obtain ⟨p, hp, hline⟩ := parseLines_snoc h
      obtain ⟨hwf, hrules⟩ := ih p hp
      refine ⟨hwf.parseLine hline, ?_⟩
      -- the rules that were there before stay where they come from
      have hold : p.actions <+: pol.actions → ∀ r ∈ p.rules, RuleFrom checkFs (lines ++ [line]) pol r := by
        intro hmore r hr
        obtain ⟨pre, l, post, before, rfl, hpre, hl, hact, hrule⟩ := hrules r hr
        exact ⟨pre, l, post ++ [line], before, by simp, hpre, hl, hact.trans hmore, hrule⟩
      rcases parseLine_cases hwf.nactions hline with rfl | ⟨a, rfl, -⟩ | ⟨r, rfl, hrule, -⟩
      · exact hold (List.prefix_refl _)
      · exact hold (List.prefix_append _ _)
      · intro q hq
        rcases List.mem_append.mp hq with hq | hq
        · exact hold (List.prefix_refl _) q hq
        · rw [List.mem_singleton.mp hq]
          exact ⟨lines, line, [], p, rfl, hp, hline, List.prefix_refl _, hrule⟩

theorem RuleWf.ok {n m : Nat} {r : KgpRule} (h : RuleWf n r) (hnm : n ≤ m) : RuleOK m r :=
  { h.toOptionsOK with
    doMask := (h.doKnown.mono hnm).hasAction h.doSome
    thenMask := fun huse => (h.thenKnown.mono hnm).hasAction (h.thenSome.mpr huse) }

/-- **An accepted policy**, as the engine uses it. -/
theorem kgpParse_ok {text : CStr} {checkFs : Option KgpFs} {pol : KgpPolicy}
    (h : kgpParse text checkFs = .ok pol) : PolicyOK pol := by
  obtain ⟨hwf, hrules⟩ := parseLines_wf _ pol h
  refine ⟨hwf.nactions, fun r hr => ?_⟩
  obtain ⟨-, -, -, before, -, -, -, hact, hrule⟩ := hrules r hr
  exact hrule.ok hact.length_le

/-- A test whether a file parses to a given policy, for files that are written down. -/
def parsesTo (text : CStr) (checkFs : Option KgpFs) (pol : KgpPolicy) : Bool :=
  match kgpParse text checkFs with
  | .ok p => p = pol
  | .error _ => false

theorem kgpParse_of_parsesTo {text : CStr} {checkFs : Option KgpFs} {pol : KgpPolicy}
    (h : parsesTo text checkFs pol = true) : kgpParse text checkFs = .ok pol := by
  unfold parsesTo at h
  cases hp : kgpParse text checkFs with
  | ok p =>
      rw [hp] at h
      rw [of_decide_eq_true h]
  | error e =>
      rw [hp] at h
      exact absurd h (by simp)

/-! ### Well formed or nothing -/

/-- The lines of a file. -/
def kgpLines (text : CStr) : List CStr := textLines (text.takeWhile (· ≠ 0))

/-- The file cut off behind its line `n`. -/
def firstLines (n : Nat) (text : CStr) : CStr :=
  ((kgpLines text).take n).flatMap (· ++ [chNewline])

theorem mem_kgpLines {text : CStr} : ∀ l ∈ kgpLines text, 0 ∉ l ∧ chNewline ∉ l := by
  intro l hl
  have hsplit : l ∈ (text.takeWhile (· ≠ 0)).splitOn chNewline := by
    unfold kgpLines textLines at hl
    simp only at hl
    split at hl
    · exact List.dropLast_subset _ hl
    · exact hl
  have hchars := Tokens.mem_splitOn l hsplit
  refine ⟨fun h0 => ?_, fun h0 => (hchars _ h0).2 rfl⟩
  simpa using List.mem_takeWhile_imp (hchars 0 h0).1

theorem kgpLines_firstLines (n : Nat) (text : CStr) :
    kgpLines (firstLines n text) = (kgpLines text).take n := by
  have hmem : ∀ l ∈ (kgpLines text).take n, 0 ∉ l ∧ chNewline ∉ l := fun l hl =>
    mem_kgpLines l (List.mem_of_mem_take hl)
  have hnul : ∀ c ∈ firstLines n text, decide (c ≠ 0) = true := by
    intro c hc
    obtain ⟨l, hl, hcl⟩ := List.mem_flatMap.mp hc
    rcases List.mem_append.mp hcl with hin | hnl
    · simpa using fun h0 : c = 0 => (hmem l hl).1 (h0 ▸ hin)
    · rw [List.mem_singleton.mp hnl]
      decide
  unfold kgpLines textLines
  rw [List.takeWhile_eq_self_iff.mpr hnul]
  unfold firstLines
  rw [Tokens.splitOn_flatMap fun l hl => (hmem l hl).2]
  simp only [List.getLast?_concat, if_true, List.dropLast_concat]
  rfl

/--
**Well formed or nothing.**  A text that is accepted leaves a policy whose actions and rules meet
every bound the engine relies on, each rule coming from a line behind the actions it names.  A text
that is not is refused at a line before which it is accepted, and leaves all zeros, whatever
the line had filled in.
-/
theorem policy_well_formed_or_nothing (partly : KgpSlots) (text : CStr) :
    let r := kgpParseSlots partly text none
    (r.1 = 0 → ∃ pol, r.2 = pol.slots ∧ PolicyWf pol ∧
        ∀ q ∈ pol.rules, RuleFrom none (kgpLines text) pol q) ∧
      (0 < r.1 → (kgpParseSlots partly (firstLines (r.1 - 1) text) none).1 = 0 ∧
        (kgpParseSlots partly (firstLines r.1 text) none).1 ≠ 0 ∧
        r.2 = ⟨List.replicate kgpMaxActions KgpAction.zero, 0,
          List.replicate kgpMaxRules KgpRule.zero, 0⟩) := by
  intro r
  have hcut : ∀ n, kgpParse (firstLines n text) none
      = parseLines none ((kgpLines text).take n) 0 KgpPolicy.zero := fun n => by
    rw [← kgpLines_firstLines]
    rfl
  cases hparse : kgpParse text none with
  | ok pol =>
      have hr : r = (0, pol.slots) := by
        show kgpParseSlots partly text none = _
        rw [kgpParseSlots, hparse]
      obtain ⟨hwf, hrules⟩ := parseLines_wf _ pol hparse
      rw [hr]
      exact ⟨fun _ => ⟨pol, rfl, hwf, hrules⟩, fun h0 => absurd h0 (by simp)⟩
  | error err =>
      obtain ⟨k, e⟩ := err
      have hr : r = (k, kgpFree partly) := by
        show kgpParseSlots partly text none = _
        rw [kgpParseSlots, hparse]
      obtain ⟨i, hk, ⟨p, hp⟩, herr⟩ := parseLines_error _ 0 _ k e hparse
      have hi : k - 1 = i := by omega
      rw [hr]
      refine ⟨fun h0 => absurd h0 (by simp only; omega), fun _ => ⟨?_, ?_, rfl⟩⟩
      · have hok : kgpParse (firstLines (k - 1) text) none = .ok p := by
          rw [hcut, hi]
          exact hp
        rw [kgpParseSlots, hok]
      · have hbad : kgpParse (firstLines k text) none = .error (k, e) := by
          rw [hcut, hk, Nat.zero_add]
          rw [hk, Nat.zero_add] at herr
          exact herr
        rw [kgpParseSlots, hbad]
        simp only
        omega

end KernelGuard
