/-
What the gate makes of its two lists.

An entry is a maximal run of non-separators.  `readGate` says which entries are well formed and
what is stored of them, in the words of the manual: a module name, in the deny list
optionally followed by `@` and a source version.  The loop of `kg_gate_parse` takes the
runs one by one, and what one round does to the list and to the counter depends on
what was read of that entry and on nothing else of it (`kgGateEntry_deny`, `kgGateEntry_allow`).
-/
import KernelGuard.Model.Modgate
import KernelGuard.Lib.Tokens

namespace KernelGuard

open Tokens

/-- The entries of a parameter string. -/
def gateEntries (csv : CStr) : List CStr := runs kgGateSep csv

/-- What is stored of an entry; `none` if it is malformed. -/
def readGate (isDeny : Bool) (e : CStr) : Option KgGateDeny :=
  if kgGateNameOk e then some ⟨normalise e, []⟩
  else if isDeny then
    match e.splitOn chAt with
    | [name, ver] =>
        if kgGateNameOk name && kgGateHexOk ver then some ⟨normalise name, ver.map kToUpper⟩ else none
    | _ => none
  else none

/-- The first 64 well-formed entries. -/
def firstEntries (isDeny : Bool) (csv : CStr) : List KgGateDeny :=
  kept kgGateListMax (readGate isDeny) (gateEntries csv)

/-- The number of the other entries. -/
def otherEntries (isDeny : Bool) (csv : CStr) : Nat :=
  (gateEntries csv).length - (firstEntries isDeny csv).length

/-! ### One entry

The source cuts an entry at its `@` and tests the parts one after the other;
`readGate` asks everything at once.  They come to the same because each failing test
has the same effect: the entry is counted as ignored, and nothing is stored.
-/

/-- A name has no `@` in it. -/
theorem at_not_mem_name {s : CStr} (h : kgGateNameOk s = true) : chAt ∉ s := by
  intro hat
  simp only [kgGateNameOk, Bool.and_eq_true, List.all_eq_true] at h
  exact absurd (h.2 chAt hat) (by decide)

theorem at_not_mem_hex {s : CStr} (h : kgGateHexOk s = true) : chAt ∉ s := by
  intro hat
  simp only [kgGateHexOk, Bool.and_eq_true, List.all_eq_true] at h
  exact absurd (h.2 chAt hat) (by decide)

theorem readGate_name {isDeny : Bool} {name : CStr} (h : kgGateNameOk name = true) :
    readGate isDeny name = some ⟨normalise name, []⟩ := if_pos h

theorem readGate_version {name ver : CStr} (hname : kgGateNameOk name = true)
    (hver : kgGateHexOk ver = true) :
    readGate true (name ++ chAt :: ver) = some ⟨normalise name, ver.map kToUpper⟩ := by
  have hbad : kgGateNameOk (name ++ chAt :: ver) = false :=
    Bool.eq_false_iff.mpr fun hok => at_not_mem_name hok (by simp)
  rw [readGate, hbad, List.splitOn_append_cons_self_of_not_mem (at_not_mem_name hname),
    List.splitOn_eq_singleton (at_not_mem_hex hver)]
  simp [hname, hver]

/-- The checks of the source are those of `readGate`. -/
theorem readGate_eq (isDeny : Bool) (e : CStr) :
    readGate isDeny e =
      if !kgGateNameOk (e.takeWhile (· ≠ chAt)) ||
          (decide (chAt ∈ e) && (!isDeny || !kgGateHexOk (e.dropWhile (· ≠ chAt)).tail)) then none
      else some ⟨normalise (e.takeWhile (· ≠ chAt)), ((e.dropWhile (· ≠ chAt)).tail).map kToUpper⟩ := by
  by_cases hat : chAt ∈ e
  · obtain ⟨name, ver, rfl, hname⟩ := List.eq_append_cons_of_mem hat
    have htake := takeWhile_ne_append hname ver
    have hdrop : (name ++ chAt :: ver).dropWhile (· ≠ chAt) = chAt :: ver := by
      rw [List.dropWhile_append_of_pos (forall_ne hname), List.dropWhile_cons_of_neg (by simp)]
    have hbad : kgGateNameOk (name ++ chAt :: ver) = false :=
      Bool.eq_false_iff.mpr fun hok => at_not_mem_name hok hat
    rw [htake, hdrop, readGate, hbad, List.splitOn_append_cons_self_of_not_mem hname]
    simp only [hat, decide_true, Bool.true_and, List.tail_cons, Bool.false_eq_true, if_false]
    cases isDeny with
    | false => simp
    | true =>
        by_cases hver : chAt ∈ ver
        · -- a second `@` is no hex digit
          obtain ⟨v, rest, rfl, hv⟩ := List.eq_append_cons_of_mem hver
          have hhex : kgGateHexOk (v ++ chAt :: rest) = false :=
            Bool.eq_false_iff.mpr fun hok => at_not_mem_hex hok hver
          obtain ⟨r, rs, hrest⟩ := List.exists_cons_of_ne_nil (List.splitOn_ne_nil chAt rest)
          rw [List.splitOn_append_cons_self_of_not_mem hv, hrest, hhex]
          simp
        · rw [List.splitOn_eq_singleton hver]
          cases hn : kgGateNameOk name <;> cases hh : kgGateHexOk ver <;> simp [hn, hh]
  · have htake := takeWhile_ne_self hat
    have hdrop : e.dropWhile (· ≠ chAt) = [] := List.dropWhile_eq_nil_iff.mpr (forall_ne hat)
    have hsplit : e.splitOn chAt = [e] := List.splitOn_eq_singleton hat
    rw [htake, hdrop, readGate, hsplit]
    simp only [hat, decide_false, Bool.false_and, Bool.or_false, List.tail_nil, List.map_nil]
    cases kgGateNameOk e <;> cases isDeny <;> rfl

/-- One round of the loop, for the deny list. -/
theorem kgGateEntry_deny (e : CStr) (g : KgGate) :
    kgGateEntry true e g =
      let t := keep kgGateListMax (readGate true) (g.deny, g.ignored) e
      { g with deny := t.1, ignored := t.2 } := by
  unfold kgGateEntry keep
  rw [readGate_eq]
  simp only [if_true]
  split
  · rfl
  · simp only
    by_cases hfull : g.deny.length ≥ kgGateListMax
    · rw [if_pos hfull, if_neg (Nat.not_lt.mpr hfull)]
    · rw [if_neg hfull, if_pos (Nat.not_le.mp hfull)]

/-- One round of the loop, for the allow list. -/
theorem kgGateEntry_allow (e : CStr) (g : KgGate) :
    kgGateEntry false e g =
      let t := keep kgGateListMax (fun e => (readGate false e).map (·.name)) (g.allow, g.ignored) e
      { g with allow := t.1, ignored := t.2 } := by
  unfold kgGateEntry keep
  simp only [readGate_eq, Bool.false_eq_true, if_false]
  split
  · rfl
  · simp only [Option.map_some]
    by_cases hfull : g.allow.length ≥ kgGateListMax
    · rw [if_pos hfull, if_neg (Nat.not_lt.mpr hfull)]
    · rw [if_neg hfull, if_pos (Nat.not_le.mp hfull)]

/-! ### The loop

The induction is over the entries that are left, with the list and the counter so
far in front.  A full list still counts what comes: that is the only way in which an
entry's turn depends on the entries before it.
-/

theorem kgGateLoop_eq (isDeny : Bool) (fuel : Nat) :
    ∀ (p : CStr) (g : KgGate), p.length ≤ fuel →
      kgGateLoop isDeny fuel p g = (gateEntries p).foldl (fun g e => kgGateEntry isDeny e g) g := by
  induction fuel with
  | zero =>
      intro p g hlen
      rw [List.length_eq_zero_iff.mp (Nat.le_zero.mp hlen)]
      rfl
  | succ fuel ih =>
      intro p g hlen
      unfold kgGateLoop kgGateNext gateEntries
      rw [← runs_skip]
      have hskip := (List.dropWhile_suffix kgGateSep (l := p)).length_le
      simp only
      by_cases hrun : (p.dropWhile kgGateSep).takeWhile (!kgGateSep ·) = []
      · -- only separators are left
        rw [if_pos hrun]
        cases hrest : p.dropWhile kgGateSep with
        | nil => rfl
        | cons c rest =>
            have hc := List.head?_dropWhile_not kgGateSep p
            rw [hrest, List.head?_cons] at hc
            rw [hrest, List.takeWhile_cons_of_pos (by simpa using hc)] at hrun
            exact absurd hrun (by simp)
      · rw [if_neg hrun, runs_take hrun, List.foldl_cons]
        refine ih _ _ ?_
        have hcut := congrArg List.length
          (List.takeWhile_append_dropWhile (p := (!kgGateSep ·)) (l := p.dropWhile kgGateSep))
        have hpos := List.length_pos_iff.mpr hrun
        rw [List.length_append] at hcut
        omega

/-- The deny list after `kg_gate_parse`; nothing but the list and the counter changes. -/
theorem kgGateParse_deny (csv : CStr) (g : KgGate) :
    kgGateParse csv true g =
      let t := (gateEntries csv).foldl (keep kgGateListMax (readGate true)) (g.deny, g.ignored)
      { g with deny := t.1, ignored := t.2 } := by
  rw [kgGateParse, kgGateLoop_eq true _ csv g (Nat.le_refl _)]
  generalize gateEntries csv = es
  induction es generalizing g with
  | nil => rfl
  | cons e rest ih =>
      rw [List.foldl_cons, ih, kgGateEntry_deny]
      rfl

theorem kgGateParse_allow (csv : CStr) (g : KgGate) :
    kgGateParse csv false g =
      let t := (gateEntries csv).foldl
        (keep kgGateListMax fun e => (readGate false e).map (·.name)) (g.allow, g.ignored)
      { g with allow := t.1, ignored := t.2 } := by
  rw [kgGateParse, kgGateLoop_eq false _ csv g (Nat.le_refl _)]
  generalize gateEntries csv = es
  induction es generalizing g with
  | nil => rfl
  | cons e rest ih =>
      rw [List.foldl_cons, ih, kgGateEntry_allow]
      rfl

/-! ### The two lists

Leaving out an entry that was not stored leaves the lists as they are, and the
counter is one less.  So the lists are determined by the first well-formed entries
and the counter by the rest.
-/

/-- `csv'` is `csv` without one entry, which is malformed or comes after 64 others. -/
def WithoutIdle (isDeny : Bool) (csv csv' : CStr) : Prop :=
  ∃ pre e post, gateEntries csv = pre ++ e :: post ∧ gateEntries csv' = pre ++ post ∧
    (readGate isDeny e = none ∨ kgGateListMax ≤ (pre.filterMap (readGate isDeny)).length)

theorem firstEntries_without {isDeny : Bool} {csv csv' : CStr} (h : WithoutIdle isDeny csv csv') :
    firstEntries isDeny csv' = firstEntries isDeny csv := by
  obtain ⟨pre, e, post, hcsv, hcsv', hidle⟩ := h
  unfold firstEntries
  rw [hcsv, hcsv', kept_without kgGateListMax (readGate isDeny) hidle]

theorem parse_deny_new (csv : CStr) {g : KgGate} (hnew : g.deny = []) :
    kgGateParse csv true g =
      { g with deny := firstEntries true csv, ignored := g.ignored + otherEntries true csv } := by
  rw [kgGateParse_deny, foldl_keep, hnew]
  rfl

theorem parse_allow_new (csv : CStr) {g : KgGate} (hnew : g.allow = []) :
    kgGateParse csv false g =
      { g with
        allow := (firstEntries false csv).map (·.name)
        ignored := g.ignored + otherEntries false csv } := by
  have hkept : kept kgGateListMax (fun e => (readGate false e).map (·.name)) (gateEntries csv)
      = (firstEntries false csv).map (·.name) := by
    rw [firstEntries, kept, kept, List.map_take, List.map_filterMap]
  rw [kgGateParse_allow, foldl_keep, hnew]
  simp only [List.length_nil, Nat.sub_zero, hkept, List.nil_append, List.length_map]
  rfl

theorem kgGateDenied_iff (g : KgGate) (m : KModule) :
    kgGateDenied g m = true ↔ ∃ d ∈ g.deny, d.name = m.name.chars ∧
      (d.srcver = [] ∨ ∃ v, m.srcversion = some v ∧ kEqNoCase d.srcver v = true) := by
  unfold kgGateDenied
  cases m.srcversion <;> simp

/--
**The lists of the gate.**  The two parameters are parsed into empty lists.  Each list is then
the first 64 well-formed entries of its parameter, in order, and the counter has grown by the
number of the others; the verdict on a module is decided by the stored entries.  An entry
that is malformed or surplus could as well not be there.
-/
theorem gate_list_semantics (deny allow : CStr) :
    let g₁ := kgGateParse deny true KgGate.zero
    let g := kgGateParse allow false g₁
    (g.deny = firstEntries true deny ∧ g₁.ignored = KgGate.zero.ignored + otherEntries true deny) ∧
      (g.allow = (firstEntries false allow).map (·.name) ∧
        g.ignored = g₁.ignored + otherEntries false allow) ∧
      (∀ m : KModule, kgGateDenied g m = true ↔ ∃ d ∈ firstEntries true deny, d.name = m.name.chars ∧
        (d.srcver = [] ∨ ∃ v, m.srcversion = some v ∧ kEqNoCase d.srcver v = true)) ∧
      (∀ deny', WithoutIdle true deny deny' →
        (kgGateParse deny' true KgGate.zero).deny = g₁.deny) ∧
      ∀ allow', WithoutIdle false allow allow' → (kgGateParse allow' false g₁).allow = g.allow := by
  intro g₁ g
  have hg₁ : g₁ = { KgGate.zero with
      deny := firstEntries true deny
      ignored := KgGate.zero.ignored + otherEntries true deny } := parse_deny_new deny rfl
  have hnew : g₁.allow = [] := by rw [hg₁]; rfl
  have hg : g = { g₁ with
      allow := (firstEntries false allow).map (·.name)
      ignored := g₁.ignored + otherEntries false allow } := parse_allow_new allow hnew
  have hdeny : g.deny = firstEntries true deny := by rw [hg, hg₁]
  refine ⟨⟨hdeny, by rw [hg₁]⟩, ⟨by rw [hg], by rw [hg]⟩, fun m => ?_, fun deny' h => ?_,
    fun allow' h => ?_⟩
  · rw [kgGateDenied_iff, hdeny]
  · rw [parse_deny_new deny' rfl, hg₁]
    exact firstEntries_without h
  · rw [parse_allow_new allow' hnew, hg]
    exact congrArg (List.map (·.name)) (firstEntries_without h)

/-- The hostile parameter of the guest test. -/
example : (firstEntries true (str "bad@,,kg_test_stub, ,x@,@zz,foo@GHI,ok@1F"),
    otherEntries true (str "bad@,,kg_test_stub, ,x@,@zz,foo@GHI,ok@1F"))
      = ([⟨str "kg_test_stub", []⟩, ⟨str "ok", str "1F"⟩], 4) := by
  decide +kernel

end KernelGuard
