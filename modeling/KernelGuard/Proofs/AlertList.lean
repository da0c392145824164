/-
Which alerts a rule is about.

A rule without codes is about all alerts, and so the empty list of codes stands both for the
rule that has no `alert=` and for the one whose list names nothing.  `strtok_r` drops empty
elements, so a list may well be empty without looking so.  The other lists of a rule line
go through `parse_action_list`, which refuses an empty one.

`NamesOnly` is what a rule should be about.  An accepted rule line meets it exactly when its last
`alert=` has an element.
-/
import KernelGuard.Proofs.Accepted

namespace KernelGuard

/-- The list of an `alert=` option. -/
def alertValue (t : CStr) : Option CStr :=
  if t.contains chEquals ∧ t.takeWhile (· ≠ chEquals) = str "alert" then
    some ((t.dropWhile (· ≠ chEquals)).drop 1)
  else none

/-- The last `alert=` list of a rule line. -/
def lastAlertList (tok : List CStr) : Option CStr := ((tok.drop 2).filterMap alertValue).getLast?

/-- A rule is about all alerts only if its line says so, and otherwise about the alerts the line
names; alerts below its level apart. -/
structure NamesOnly (tok : List CStr) (r : KgpRule) : Prop where
  wildcard : (∀ al : KgpAlert, r.minLevel ≤ al.level → ruleMatches r al = true) →
    lastAlertList tok = none ∨ ∃ v, lastAlertList tok = some v ∧ str "*" ∈ commaTokens v
  named : ∀ v, lastAlertList tok = some v → str "*" ∉ commaTokens v →
    ∀ al : KgpAlert, r.minLevel ≤ al.level →
      (ruleMatches r al = true ↔ ∃ t ∈ commaTokens v, kgpCodeFromName t = some al.code)

/-! ### Lists of codes -/

/-- A wildcard leaves no codes; any other list leaves one for each element. -/
theorem parseCodes_cases (toks : List CStr) : ∀ codes cs, parseCodes toks codes = .ok cs →
    (str "*" ∈ toks ∧ cs = []) ∨
      (str "*" ∉ toks ∧ cs = codes ++ toks.filterMap kgpCodeFromName ∧
        cs.length = codes.length + toks.length) := by
  induction toks with
  | nil =>
      intro codes cs h
      simp only [parseCodes, Except.ok.injEq] at h
      rw [← h]
      exact Or.inr ⟨List.not_mem_nil, by simp, by simp⟩
  | cons t rest ih =>
      intro codes cs h
      unfold parseCodes at h
      split at h
      · next hstar =>
          simp only [Except.ok.injEq] at h
          exact Or.inl ⟨hstar ▸ List.mem_cons_self, h.symm⟩
      next hstar =>
      split at h
      · exact absurd h (by simp)
      split at h
      · exact absurd h (by simp)
      next c hc =>
      rcases ih _ cs h with ⟨hin, hcs⟩ | ⟨hout, hcs, hlen⟩
      · exact Or.inl ⟨List.mem_cons_of_mem t hin, hcs⟩
      · refine Or.inr ⟨?_, ?_, ?_⟩
        · rw [List.mem_cons, not_or]
          exact ⟨Ne.symm hstar, hout⟩
        · rw [hcs, List.filterMap_cons_some hc, List.append_assoc, List.singleton_append]
        · rw [hlen, List.length_append, List.length_singleton, List.length_cons]
          omega

/-- There are codes no name stands for. -/
theorem kgpCodeFromName_lt {name : CStr} {c : UInt32} (h : kgpCodeFromName name = some c) :
    c.toNat < 0x20000 := by
  have htable : ∀ p ∈ kgpNames, p.1.toNat < 0x20000 := by decide
  unfold kgpCodeFromName at h
  split at h
  · next p hp =>
      rw [Option.some.injEq] at h
      rw [← h]
      exact htable p (List.mem_of_find?_eq_some hp)
  · split at h
    · split at h
      · simp only at h
        split at h
        · next hv =>
            rw [Option.some.injEq] at h
            rw [Bool.and_eq_true, decide_eq_true_eq, decide_eq_true_eq] at hv
            rw [← h, UInt32.toNat_ofNat_of_lt' (Nat.lt_of_le_of_lt hv.2 (by decide))]
            omega
        · exact absurd h (by simp)
      · exact absurd h (by simp)
    · exact absurd h (by simp)

/-! ### The option loop

A later `alert=` overwrites the codes of an earlier one and no other option touches
them, so the codes at the end are those of the last list.  The induction is over the
options, with what the loop started from in place of the initial codes.
-/

/-- Only an `alert=` option changes the codes. -/
theorem ruleOption_codes {pol : KgpPolicy} {t : CStr} {s s' : RuleState}
    (h : ruleOption pol t s = .ok s') :
    match alertValue t with
    | none => s'.rule.codes = s.rule.codes
    | some v => parseCodes (commaTokens v) [] = .ok s'.rule.codes := by
  obtain ⟨heq, hsets⟩ := ruleOption_sets h
  unfold alertValue
  generalize t.takeWhile (· ≠ chEquals) = key at hsets ⊢
  cases hsets with
  | alert hcodes =>
      rw [if_pos ⟨heq, rfl⟩]
      exact hcodes
  | level | throttle | reset | unacked | repeats | does | thens =>
      rw [if_neg fun hand => absurd hand.2 (by decide)]

/-- The last `alert=` option decides. -/
theorem ruleOptions_codes {pol : KgpPolicy} (opts : List CStr) : ∀ s s',
    ruleOptions pol opts s = .ok s' →
    match (opts.filterMap alertValue).getLast? with
    | none => s'.rule.codes = s.rule.codes
    | some v => parseCodes (commaTokens v) [] = .ok s'.rule.codes := by
  induction opts with
  | nil =>
      intro s s' h
      simp only [ruleOptions, Except.ok.injEq] at h
      rw [← h]
      rfl
  | cons t rest ih =>
      intro s s' h
      unfold ruleOptions at h
      split at h
      · exact absurd h (by simp)
      next s₁ hopt =>
      have hrest := ih s₁ s' h
      have hhead := ruleOption_codes hopt
      cases ht : alertValue t with
      | none =>
          rw [ht] at hhead
          rw [List.filterMap_cons_none ht]
          cases hlast : (rest.filterMap alertValue).getLast? with
          | none =>
              rw [hlast] at hrest
              exact hrest.trans hhead
          | some v =>
              rw [hlast] at hrest
              exact hrest
      | some u =>
          rw [ht] at hhead
          rw [List.filterMap_cons_some ht, List.getLast?_cons]
          cases hlast : (rest.filterMap alertValue).getLast? with
          | none =>
              rw [hlast] at hrest
              simp only [Option.getD_none]
              rw [show s'.rule.codes = s₁.rule.codes from hrest]
              exact hhead
          | some v =>
              rw [hlast] at hrest
              exact hrest

theorem finishRule_codes {pol : KgpPolicy} {s : RuleState} {r : KgpRule}
    (h : finishRule pol s = .ok r) : r.codes = s.rule.codes := by
  unfold finishRule at h
  split at h
  · exact absurd h (by simp)
  split at h
  · split at h
    · exact absurd h (by simp)
    · split at h
      · exact absurd h (by simp)
      · simp only [Except.ok.injEq] at h
        rw [← h]
  · split at h
    · exact absurd h (by simp)
    · simp only [Except.ok.injEq] at h
      rw [← h]

/-- The codes of an accepted rule, from its line. -/
theorem parseRule_codes {pol pol' : KgpPolicy} {tok : List CStr} (h : parseRule pol tok = .ok pol') :
    ∃ r, pol' = { pol with rules := pol.rules ++ [r] } ∧
      match lastAlertList tok with
      | none => r.codes = []
      | some v => parseCodes (commaTokens v) [] = .ok r.codes := by
  unfold parseRule at h
  split at h
  · next first name opts =>
      split at h
      · exact absurd h (by simp)
      split at h
      · exact absurd h (by simp)
      split at h
      · exact absurd h (by simp)
      split at h
      · exact absurd h (by simp)
      simp only at h
      split at h
      · exact absurd h (by simp)
      next s hopts =>
      split at h
      · exact absurd h (by simp)
      next r hfinish =>
      simp only [Except.ok.injEq] at h
      refine ⟨r, h.symm, ?_⟩
      rw [finishRule_codes hfinish]
      exact ruleOptions_codes opts _ s hopts
  · exact absurd h (by simp)

/-! ### What a rule is about

An empty list of codes is read as no restriction.  The codes of a rule are empty in
two ways, by the wildcard that the line asks for and by a list without elements, and
only the second is not what the line says.
-/

theorem ruleMatches_of_nil {r : KgpRule} (h : r.codes = []) {al : KgpAlert}
    (hlevel : r.minLevel ≤ al.level) : ruleMatches r al = true := by
  unfold ruleMatches
  rw [if_neg (Int.not_lt.mpr hlevel), h]
  rfl

theorem ruleMatches_iff {r : KgpRule} (h : r.codes ≠ []) {al : KgpAlert}
    (hlevel : r.minLevel ≤ al.level) : ruleMatches r al = true ↔ al.code ∈ r.codes := by
  unfold ruleMatches
  rw [if_neg (Int.not_lt.mpr hlevel), if_neg (fun h0 => h (List.eq_nil_of_length_eq_zero h0)),
    List.any_eq_true]
  simp

section

variable {tok : List CStr} {r : KgpRule}

theorem namesOnly_of_none (hlast : lastAlertList tok = none) : NamesOnly tok r := by
  refine ⟨fun _ => Or.inl hlast, fun v hv => ?_⟩
  rw [hlast] at hv
  exact absurd hv nofun

variable {v : CStr} (hlast : lastAlertList tok = some v)
variable (hcodes : parseCodes (commaTokens v) [] = .ok r.codes)

include hlast hcodes

/-- An empty list leaves no codes, and the rule is about everything. -/
theorem not_namesOnly_of_empty (hempty : commaTokens v = []) : ¬NamesOnly tok r := by
  intro hnames
  have hnil : r.codes = [] := by
    rw [hempty] at hcodes
    simpa [parseCodes] using hcodes.symm
  rcases hnames.wildcard fun al => ruleMatches_of_nil hnil with hnone | ⟨u, hu, hstar⟩
  · rw [hlast] at hnone
    exact absurd hnone (Option.some_ne_none v)
  · obtain rfl : v = u := by simpa [hlast] using hu
    rw [hempty] at hstar
    exact absurd hstar List.not_mem_nil

theorem namesOnly_of_listed (hne : commaTokens v ≠ []) : NamesOnly tok r := by
  rcases parseCodes_cases _ _ _ hcodes with ⟨hstar, -⟩ | ⟨hstar, hcs, hlen⟩
  · refine ⟨fun _ => Or.inr ⟨v, hlast, hstar⟩, fun u hu hno => ?_⟩
    obtain rfl : v = u := by simpa [hlast] using hu
    exact absurd hstar hno
  have hcne : r.codes ≠ [] := by
    intro h0
    rw [h0, List.length_nil, Nat.zero_add] at hlen
    exact hne (List.eq_nil_of_length_eq_zero hlen.symm)
  have hnamed : ∀ c, c ∈ r.codes ↔ ∃ t ∈ commaTokens v, kgpCodeFromName t = some c := by
    intro c
    rw [hcs, List.nil_append, List.mem_filterMap]
  refine ⟨fun hall => ?_, fun u hu _ al hlevel => ?_⟩
  · -- a code that no name stands for
    have hmax := (ruleMatches_iff hcne (Int.le_refl _)).mp
      (hall { KgpAlert.zero with code := 0xffffffff, level := r.minLevel } (Int.le_refl _))
    obtain ⟨t, -, ht⟩ := (hnamed _).mp hmax
    have hlt : (0xffffffff : UInt32).toNat < 0x20000 := kgpCodeFromName_lt ht
    exact absurd hlt (by decide)
  · obtain rfl : v = u := by simpa [hlast] using hu
    rw [ruleMatches_iff hcne hlevel, hnamed]

end

/--
**Only a wildcard is a wildcard, unless the list is empty.**  For every rule line that is accepted,
the rule is about what the line names exactly when its last `alert=`, if it has one, has an
element.
-/
theorem rule_names_only_iff (pol pol' : KgpPolicy) (tok : List CStr)
    (h : parseRule pol tok = .ok pol') :
    ∃ r, pol'.rules = pol.rules ++ [r] ∧
      (NamesOnly tok r ↔ ∀ v, lastAlertList tok = some v → commaTokens v ≠ []) := by
  obtain ⟨r, rfl, hcodes⟩ := parseRule_codes h
  refine ⟨r, rfl, ?_⟩
  cases hlast : lastAlertList tok with
  | none => exact iff_of_true (namesOnly_of_none hlast) (by simp)
  | some v =>
      rw [hlast] at hcodes
      constructor
      · intro hnames w hw hempty
        obtain rfl : v = w := by simpa using hw
        exact not_namesOnly_of_empty hlast hcodes hempty hnames
      · exact fun hsome => namesOnly_of_listed hlast hcodes (hsome v rfl)

/-- One action for rules to run. -/
def wallPolicy : KgpPolicy := ⟨[⟨str "wall", [str "/bin/wall"], 10⟩], []⟩

/-- A rule for wall with these options, as it is accepted. -/
def wallRule (codes : List UInt32) : KgpRule :=
  { KgpRule.zero with name := str "r", codes := codes, throttleS := 60, resetS := 3600, doMask := 1 }

theorem rule_names_only_iff_named : ∃ r, (({ wallPolicy with rules := [wallRule [0x4001]] } :
      KgpPolicy)).rules = wallPolicy.rules ++ [r] ∧
    (NamesOnly [str "rule", str "r", str "alert=0x4001", str "do=wall"] r ↔
      ∀ v, lastAlertList [str "rule", str "r", str "alert=0x4001", str "do=wall"] = some v →
        commaTokens v ≠ []) :=
  rule_names_only_iff wallPolicy _ _ (by rfl)

/-- `rule r alert= do=wall` is accepted, and is about every alert. -/
theorem empty_alert_list_matches_all :
    ¬∀ (pol pol' : KgpPolicy) (tok : List CStr), parseRule pol tok = .ok pol' →
      ∃ r, pol'.rules = pol.rules ++ [r] ∧ NamesOnly tok r := by
  intro hall
  obtain ⟨r, hr, hnames⟩ := hall wallPolicy { wallPolicy with rules := [wallRule []] }
    [str "rule", str "r", str "alert=", str "do=wall"] (by rfl)
  obtain rfl : r = wallRule [] := by simpa [wallPolicy] using hr.symm
  rcases hnames.wildcard fun al => ruleMatches_of_nil rfl with hnone | ⟨v, hv, hstar⟩
  · exact absurd hnone (by decide)
  · have hlist : lastAlertList [str "rule", str "r", str "alert=", str "do=wall"] = some [] := by
      decide
    obtain rfl : [] = v := by simpa [hlist] using hv
    exact absurd hstar (by decide)

end KernelGuard
