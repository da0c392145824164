/-
The entry `kgmon modid` prints, given to the gate.

The two parsers agree on what an entry is: whatever the tool accepts, the gate takes as
one entry.  They do not agree on which module it names.  The gate turns `-` into `_` in
the entry and compares with the module's name as it is; and the tool passes over an
empty value and takes a later one of the same key, which the kernel does not.
-/
import KernelGuard.Proofs.Modinfo
import KernelGuard.Proofs.GateList
import KernelGuard.Lib.Bytes
import Mathlib.Data.List.TakeWhile

namespace KernelGuard

open Bytes

/-! ### What was read

Acceptance is all that is used of the parser: which characters the two fields have,
and which values of the section they come from.
-/

/-- What acceptance by the tool says about the two fields. -/
structure Accepted (mi : List UInt8) (m : KgModid) : Prop where
  name : m.name = ((modinfoValues keyName mi).find? (· ≠ [])).getD []
  srcversion : m.srcversion = ((modinfoValues keySrcversion mi).find? (· ≠ [])).getD []
  nameOk : nameCharsOk m.name = true
  nameLen : m.name.length < kgModidNameMax
  hexOk : m.srcversion ≠ [] → hexCharsOk m.srcversion = true
  hexLen : m.srcversion.length < kgModidSrcverMax

theorem kgModidParse_accepted {sha256 : List UInt8 → List UInt8} {img mi : List UInt8}
    {m : KgModid} (h : kgModidParse sha256 img = .ok m) (hmi : modinfoOf img = .ok mi) :
    Accepted mi m := by
  unfold kgModidParse at h
  rw [hmi] at h
  obtain ⟨w, hw, hm⟩ := Loops.bind_eq_ok (x := parseModinfo mi).mp h
  obtain ⟨⟨hname, hsrc, -, -⟩, hnameOk, hhexOk⟩ := parseModinfo_ok.mp hw
  rw [← Except.ok.inj hm]
  exact ⟨congrArg (·.getD []) hname.value, congrArg (·.getD []) hsrc.value, hnameOk,
    hname.length_lt (by decide), hhexOk, hsrc.length_lt (by decide)⟩

/-! ### The entry

The entry is printed as `name` or `name@version`.  The characters that the tool lets
through are those the gate takes for a name and for a version, neither separator nor
`@` among them, so the gate reads the entry as one and cuts it at the same place.
-/

/-- What the tool lets into a name, the gate lets in too, and it ends no entry. -/
theorem nameChar_gate (c : UInt8) :
    (isAlnum c || c = chUnderscore || c = chMinus || c = chDot) = true →
      (kIsAlnum c || c = chUnderscore || c = chMinus || c = chDot) = true ∧
        kgGateSep c = false := by
  revert c
  apply forall_byte
  decide +kernel

theorem hexChar_gate (c : UInt8) :
    (isDigit c || (97 ≤ c && c ≤ 102) || (65 ≤ c && c ≤ 70)) = true →
      kIsXdigit c = true ∧ kgGateSep c = false ∧ kToLower (kToUpper c) = kToLower c := by
  revert c
  apply forall_byte
  decide +kernel

theorem nameCharsOk_gate {s : CStr} (h : nameCharsOk s = true) (hlen : s.length < kgModidNameMax) :
    kgGateNameOk s = true ∧ ∀ c ∈ s, kgGateSep c = false := by
  simp only [nameCharsOk, Bool.and_eq_true, decide_eq_true_eq, List.all_eq_true] at h
  have hchar := fun c hc => nameChar_gate c (h.2 c hc)
  refine ⟨?_, fun c hc => (hchar c hc).2⟩
  simp only [kgGateNameOk, Bool.and_eq_true, decide_eq_true_eq, List.all_eq_true]
  exact ⟨⟨Nat.ne_of_gt (List.length_pos_iff.mpr h.1), hlen⟩, fun c hc => (hchar c hc).1⟩

theorem hexCharsOk_gate {s : CStr} (h : hexCharsOk s = true) (hlen : s.length < kgModidSrcverMax) :
    kgGateHexOk s = true ∧ (∀ c ∈ s, kgGateSep c = false) ∧ kEqNoCase (s.map kToUpper) s = true := by
  simp only [hexCharsOk, Bool.and_eq_true, decide_eq_true_eq, List.all_eq_true] at h
  have hchar := fun c hc => hexChar_gate c (h.2 c hc)
  refine ⟨?_, fun c hc => (hchar c hc).2.1, ?_⟩
  · simp only [kgGateHexOk, Bool.and_eq_true, decide_eq_true_eq, List.all_eq_true]
    exact ⟨⟨Nat.ne_of_gt (List.length_pos_iff.mpr h.1), hlen⟩, fun c hc => (hchar c hc).1⟩
  · simp only [kEqNoCase, decide_eq_true_eq, List.map_map]
    exact List.map_congr_left fun c hc => (hchar c hc).2.2

/-- A list of one entry is parsed as that entry. -/
theorem kgGateParse_one {e : CStr} (isDeny : Bool) (g : KgGate) (hne : e ≠ [])
    (hsep : ∀ c ∈ e, kgGateSep c = false) :
    kgGateParse e isDeny g = kgGateEntry isDeny e g := by
  have hall : ∀ c ∈ e, (!kgGateSep c) = true := fun c hc => by simp [hsep c hc]
  have htake : e.takeWhile (!kgGateSep ·) = e := List.takeWhile_eq_self_iff.mpr hall
  have hentries : gateEntries e = [e] := by
    rw [gateEntries, Tokens.runs_take (by rw [htake]; exact hne), htake,
      List.dropWhile_eq_nil_iff.mpr hall, Tokens.runs_nil]
  rw [kgGateParse, kgGateLoop_eq isDeny _ e g (Nat.le_refl _), hentries]
  rfl

/-- The entry of a module the tool accepts, parsed by the gate. -/
theorem kgGateParse_modid {mi : List UInt8} {m : KgModid} (h : Accepted mi m) :
    kgGateParse (kgModidEntry modidEntrySize m) true KgGate.zero
      = { KgGate.zero with deny := [⟨normalise m.name, m.srcversion.map kToUpper⟩] } := by
  obtain ⟨hname, hnameSep⟩ := nameCharsOk_gate h.nameOk h.nameLen
  have hnameLen : m.name.length < 56 := h.nameLen
  have hhexLen : m.srcversion.length < 32 := h.hexLen
  have hparse : ∀ {e : CStr} {d : KgGateDeny}, e ≠ [] → (∀ c ∈ e, kgGateSep c = false) →
      readGate true e = some d →
        kgGateParse e true KgGate.zero = { KgGate.zero with deny := [d] } := by
    intro e d hne hsep hread
    rw [kgGateParse_one true _ hne hsep, kgGateEntry_deny]
    simp only [Tokens.keep, hread]
    rfl
  by_cases hsrc : m.srcversion = []
  · have hentry : kgModidEntry modidEntrySize m = m.name := by
      unfold kgModidEntry
      rw [if_neg (by simp [hsrc])]
      exact List.take_of_length_le (by unfold modidEntrySize; omega)
    have hnameNe : m.name ≠ [] := by
      intro hnil
      rw [hnil] at hname
      simp [kgGateNameOk] at hname
    rw [hentry, hsrc]
    exact hparse hnameNe hnameSep (readGate_name hname)
  · have hentry : kgModidEntry modidEntrySize m = m.name ++ chAt :: m.srcversion := by
      unfold kgModidEntry
      rw [if_pos hsrc, List.append_assoc, List.singleton_append]
      refine List.take_of_length_le ?_
      simp only [List.length_append, List.length_cons, modidEntrySize]
      omega
    obtain ⟨hhex, hhexSep, -⟩ := hexCharsOk_gate (h.hexOk hsrc) h.hexLen
    rw [hentry]
    refine hparse (by simp) ?_ (readGate_version hname hhex)
    intro c hc
    rcases List.mem_append.mp hc with hc | hc
    · exact hnameSep c hc
    · rcases List.mem_cons.mp hc with rfl | hc
      · decide
      · exact hhexSep c hc

/-! ### The verdict

The verdict is a conjunction, of the names and of the versions, and each half has
its exact condition.  The name fails by the character the gate replaces, the version
by the first value of the key when it is empty.
-/

theorem normalise_eq_self {s : CStr} : normalise s = s ↔ chMinus ∉ s := by
  induction s with
  | nil => simp [normalise]
  | cons c rest ih =>
      have hcons : normalise (c :: rest)
          = (if c = chMinus then chUnderscore else c) :: normalise rest := rfl
      rw [hcons, List.cons.injEq, ih, List.mem_cons, not_or]
      by_cases hc : c = chMinus
      · simp [hc, chMinus, chUnderscore]
      · simp [hc, Ne.symm hc]

/-- The first value of all is the first one that is not empty, unless it is empty itself. -/
theorem find?_of_head? {l : List CStr} {v : CStr} (h : l.head? = some v) (hv : v ≠ []) :
    l.find? (· ≠ []) = some v := by
  cases l with
  | nil => simp at h
  | cons a rest =>
      rw [List.head?_cons, Option.some.injEq] at h
      rw [List.find?_cons_of_pos (by simpa [h] using hv), h]

/-- The name in the entry is the module's, as the gate sees it, unless it has a `-` or is empty. -/
theorem name_matches_iff {mi : List UInt8} {m : KgModid} (h : Accepted mi m) {name : CStr}
    (hname : (modinfoValues keyName mi).head? = some name) :
    normalise m.name = name ↔ name ≠ [] ∧ chMinus ∉ name := by
  by_cases hnil : name = []
  · -- The tool found a later name, which is not empty.
    have hne : m.name ≠ [] := by
      intro hempty
      have := h.nameOk
      simp [hempty, nameCharsOk] at this
    simp [hnil, normalise, hne]
  · have hsame : m.name = name := by
      rw [h.name, find?_of_head? hname hnil]
      rfl
    rw [hsame, normalise_eq_self]
    exact ⟨fun hminus => ⟨hnil, hminus⟩, fun hboth => hboth.2⟩

/-- The part of `kg_gate_denied` that compares the versions. -/
def versionMatches (srcver : CStr) (version : Option CStr) : Bool :=
  srcver = [] || (match version with
    | none => false
    | some v => kEqNoCase srcver v)

/-- The version in the entry is the module's, unless the first one is empty and a later one is not. -/
theorem version_matches_iff {mi : List UInt8} {m : KgModid} (h : Accepted mi m)
    {version : Option CStr} (hversion : (modinfoValues keySrcversion mi).head? = version) :
    versionMatches (m.srcversion.map kToUpper) version = true ↔
      (version = some [] → ∀ v ∈ modinfoValues keySrcversion mi, v = []) := by
  have hsrc := h.srcversion
  unfold versionMatches
  by_cases hempty : m.srcversion = []
  · have hnone : ∀ v ∈ modinfoValues keySrcversion mi, v = [] := by
      cases hfind : (modinfoValues keySrcversion mi).find? (· ≠ []) with
      | none =>
          intro v hv
          simpa using List.find?_eq_none.mp hfind v hv
      | some v =>
          have hv : v ≠ [] := by simpa using List.find?_some hfind
          rw [hfind] at hsrc
          exact absurd (hsrc.symm.trans hempty) hv
    simp only [hempty, List.map_nil, decide_true, Bool.true_or, true_iff]
    exact fun _ => hnone
  · have hmap : decide (m.srcversion.map kToUpper = []) = false := by simp [hempty]
    rw [hmap, Bool.false_or]
    -- The field was filled, so the key occurs, and it has a first value.
    obtain ⟨s, hs⟩ : ∃ s, (modinfoValues keySrcversion mi).find? (· ≠ []) = some s := by
      rw [← Option.isSome_iff_exists]
      by_contra hnot
      rw [Bool.not_eq_true, Option.isSome_eq_false_iff, Option.isNone_iff_eq_none] at hnot
      rw [hnot] at hsrc
      exact hempty hsrc
    have hmem := List.mem_of_find?_eq_some hs
    have hsne : s ≠ [] := by simpa using List.find?_some hs
    cases version with
    | none =>
        rw [List.head?_eq_none_iff.mp hversion] at hmem
        simp at hmem
    | some v =>
        simp only [Option.some.injEq]
        by_cases hv : v = []
        · rw [hv]
          have hno : kEqNoCase (m.srcversion.map kToUpper) [] = false := by
            simp [kEqNoCase, hempty]
          simp only [hno, Bool.false_eq_true, true_implies, false_iff]
          exact fun hall => hsne (hall s hmem)
        · have hsame : m.srcversion = v := by
            rw [hsrc, find?_of_head? hversion hv]
            rfl
          rw [← hsame]
          have hyes := (hexCharsOk_gate (h.hexOk hempty) h.hexLen).2.2
          simp [hyes, hempty]

/--
**When the printed entry denies the module.**  Take any image the tool accepts, and the
module the kernel makes of it, whose name and `srcversion` are the first values of these
keys in `.modinfo`.  The gate takes the printed string as exactly one entry, ignores
nothing, and denies the module, exactly when the name is not empty and has no `-` and
the first `srcversion` is not empty, unless all of them are.
-/
theorem modid_entry_denies_iff (sha256 : List UInt8 → List UInt8) (img mi : List UInt8)
    (out : KgModid) (m : KModule) (hparse : kgModidParse sha256 img = .ok out)
    (hmi : modinfoOf img = .ok mi)
    (hname : (modinfoValues keyName mi).head? = some m.name.chars)
    (hversion : (modinfoValues keySrcversion mi).head? = m.srcversion) :
    let g := kgGateParse (kgModidEntry modidEntrySize out) true KgGate.zero
    (g.deny.length = 1 ∧ g.ignored = 0 ∧ kgGateDenied g m = true) ↔
      (m.name.chars ≠ [] ∧ chMinus ∉ m.name.chars) ∧
        (m.srcversion = some [] → ∀ v ∈ modinfoValues keySrcversion mi, v = []) := by
  intro g
  have hacc := kgModidParse_accepted hparse hmi
  have hg : g = { KgGate.zero with deny := [⟨normalise out.name, out.srcversion.map kToUpper⟩] } :=
    kgGateParse_modid hacc
  have hdenied : kgGateDenied g m = true ↔
      normalise out.name = m.name.chars ∧
        versionMatches (out.srcversion.map kToUpper) m.srcversion = true := by
    rw [hg]
    simp only [kgGateDenied, List.any_cons, List.any_nil, Bool.or_false, Bool.and_eq_true,
      decide_eq_true_eq]
    rfl
  rw [hdenied, name_matches_iff hacc hname, version_matches_iff hacc hversion, hg]
  simp [KgGate.zero]

/-! A module file with a given `.modinfo`, as the self-test of the tool builds it. -/

/-- A section header. -/
def shdr (name type off size : Nat) : List UInt8 :=
  leBytes 4 name ++ leBytes 4 type ++ leBytes 16 0 ++ leBytes 8 off ++ leBytes 8 size ++ leBytes 24 0

/-- The ELF header, `.modinfo`, the section names, and the headers of the two sections. -/
def moduleFile (mi : List UInt8) : List UInt8 :=
  let names := str ".modinfo" ++ [0]
  [0x7f, 0x45, 0x4c, 0x46, 2, 1, 1, 0] ++ leBytes 8 0 ++ leBytes 2 etRel ++ leBytes 22 0 ++
    leBytes 8 (64 + mi.length + names.length) ++ leBytes 10 0 ++ leBytes 2 shdrSize ++
    leBytes 2 2 ++ leBytes 2 1 ++ mi ++ names ++
    shdr 0 1 64 mi.length ++ shdr 0 shtStrtab (64 + mi.length) names.length

def evilInfo : List UInt8 := str "name=evil" ++ [0] ++ str "srcversion=AB12"
def plainInfo : List UInt8 := str "name=plain-mod" ++ [0]

def evilModule : KModule := ⟨0xe000, ⟨str "evil", by decide, by decide⟩, some (str "AB12"), 4096⟩
def plainModule : KModule := ⟨0xf000, ⟨str "plain-mod", by decide, by decide⟩, none, 4096⟩

/-- What the tool reads from the two files. -/
def evilModid : KgModid := ⟨str "evil", str "AB12", [], [], false, []⟩
def plainModid : KgModid := ⟨str "plain-mod", [], [], [], false, []⟩

/-- The printed entry of an ordinary module denies it. -/
theorem modid_entry_denies_iff_evil :
    let g := kgGateParse (kgModidEntry modidEntrySize evilModid) true KgGate.zero
    g.deny.length = 1 ∧ g.ignored = 0 ∧ kgGateDenied g evilModule = true :=
  (modid_entry_denies_iff (fun _ => []) (moduleFile evilInfo) evilInfo evilModid evilModule
    (by decide +kernel) (by decide +kernel) (by decide +kernel) (by decide +kernel)).mpr
    (by decide +kernel)

/-- The printed entry denies every module it was printed for. -/
def EntryAlwaysDenies : Prop :=
  ∀ (sha256 : List UInt8 → List UInt8) (img mi : List UInt8) (out : KgModid) (m : KModule),
    kgModidParse sha256 img = .ok out → modinfoOf img = .ok mi →
    (modinfoValues keyName mi).head? = some m.name.chars →
    (modinfoValues keySrcversion mi).head? = m.srcversion →
    let g := kgGateParse (kgModidEntry modidEntrySize out) true KgGate.zero
    g.deny.length = 1 ∧ g.ignored = 0 ∧ kgGateDenied g m = true

/-- A module with a `-` in its name is not denied by its own entry. -/
theorem dashed_name_not_denied : ¬ EntryAlwaysDenies := by
  intro h
  have hdenied := (h (fun _ => []) (moduleFile plainInfo) plainInfo plainModid plainModule
    (by decide +kernel) (by decide +kernel) (by decide +kernel) (by decide +kernel)).2.2
  exact absurd hdenied (by decide +kernel)

end KernelGuard
