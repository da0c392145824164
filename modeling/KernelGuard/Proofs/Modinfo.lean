/-
What the tool reads from `.modinfo`.

Each wanted key is read on its own: the loop over the strings succeeds exactly when it does
for each of the four keys alone (`wantStrings_ok`), and for one key it takes the first value that
is not empty, if that fits (`wantFields_none`).  The first entry of a key is the one the kernel
takes; the two differ where a key comes with an empty value first.

The strings of the section are its entries between NULs.  For one key the loop is a
small machine with two states, empty and filled, that ignores empty values and stays
where it is once it is filled; that is `takenValue`.  The four machines do not
influence each other, apart from a failure of one that ends the loop, so what is
accepted is the conjunction.
-/
import KernelGuard.Model.Modid
import KernelGuard.Lib.Loops
import KernelGuard.Lib.Tokens
import Mathlib.Data.List.TakeWhile

namespace KernelGuard

/-! ### One key

The invariant is only whether the field is filled, so the two lemmas about the loop
are one for each state, and the second is used in the proof of the first.
-/

/-- The value of a string `key=value`. -/
def modinfoValue (key s : CStr) : Option CStr :=
  if key ++ [chEquals] <+: s then some (s.drop (key.length + 1)) else none

/-- The values of a key, in the order of the section. -/
def modinfoValues (key : CStr) (mi : List UInt8) : List CStr :=
  (modinfoStrings mi.length mi).filterMap (modinfoValue key)

/-- What is left of a field after one string: a value that is not empty fills it. -/
theorem wantField_none (key : CStr) (cap : Nat) (s : CStr) :
    wantField key cap s none
      = match modinfoValue key s with
        | none => .ok none
        | some v =>
            if v = [] then .ok none
            else if v.length ≥ cap then .error .badField
            else .ok (some v) := by
  unfold wantField modinfoValue
  by_cases hpre : key ++ [chEquals] <+: s
  · obtain ⟨v, rfl⟩ := hpre
    have hdrop : (key ++ [chEquals] ++ v).drop (key.length + 1) = v := by
      rw [show key.length + 1 = (key ++ [chEquals]).length by simp, List.drop_left]
    have htake : (key ++ [chEquals] ++ v).take key.length = key := by simp
    have hat : (key ++ [chEquals] ++ v).getD key.length 0 = chEquals := by simp
    have hlen : (key ++ [chEquals] ++ v).length = key.length + 1 + v.length := by simp; omega
    rw [if_pos (List.prefix_append _ _), hdrop, htake, hat, hlen]
    by_cases hv : v = []
    · simp [hv]
    · have hpos := List.length_pos_iff.mpr hv
      have hvlen : key.length + 1 + v.length - key.length - 1 = v.length := by omega
      have hlong : ¬ key.length + 1 + v.length ≤ key.length + 1 := by omega
      rw [if_neg (by simp only [Option.isSome_none, decide_eq_false hlong, ne_eq, not_true_eq_false,
        decide_false, Bool.or_self, Bool.false_eq_true, not_false_eq_true]), hvlen]
      simp only [if_neg hv]
  · rw [if_neg hpre]
    refine if_pos ?_
    by_contra hno
    simp only [Option.isSome_none, Bool.false_or, Bool.or_eq_true, decide_eq_true_eq, not_or,
      Nat.not_le, ne_eq, Decidable.not_not] at hno
    obtain ⟨⟨hlen, htake⟩, hat⟩ := hno
    refine hpre ⟨s.drop (key.length + 1), ?_⟩
    have hin : key.length < s.length := by omega
    have hget : s[key.length] = chEquals := by
      simpa [List.getD, List.getElem?_eq_getElem hin] using hat
    conv_rhs => rw [← List.take_append_drop key.length s, htake, List.drop_eq_getElem_cons hin, hget]
    rw [List.append_assoc, List.singleton_append]

theorem wantField_some (key : CStr) (cap : Nat) (s v : CStr) :
    wantField key cap s (some v) = .ok (some v) := by
  simp [wantField]

/-- The first value of a key that is not empty. -/
def takenValue (key : CStr) (mi : List UInt8) : Option CStr := (modinfoValues key mi).find? (· ≠ [])

theorem wantFields_some (key : CStr) (cap : Nat) (strings : List CStr) (v : CStr) :
    strings.foldlM (fun field s => wantField key cap s field) (some v) = .ok (some v) := by
  induction strings with
  | nil => rfl
  | cons s rest ih =>
      rw [List.foldlM_cons, wantField_some]
      exact ih

/-- The loop for one key. -/
theorem wantFields_none (key : CStr) (cap : Nat) (strings : List CStr) :
    strings.foldlM (fun field s => wantField key cap s field) none
      = match (strings.filterMap (modinfoValue key)).find? (· ≠ []) with
        | none => .ok none
        | some v => if v.length ≥ cap then .error .badField else .ok (some v) := by
  induction strings with
  | nil => rfl
  | cons s rest ih =>
      rw [List.foldlM_cons, wantField_none]
      cases hv : modinfoValue key s with
      | none =>
          rw [List.filterMap_cons_none hv, ← ih]
          rfl
      | some v =>
          rw [List.filterMap_cons_some hv]
          by_cases hempty : v = []
          · simp only [if_pos hempty]
            rw [List.find?_cons_of_neg (by simpa using hempty), ← ih]
            rfl
          · simp only [if_neg hempty]
            rw [List.find?_cons_of_pos (by simpa using hempty)]
            by_cases hlong : v.length ≥ cap
            · simp only [if_pos hlong]
              rfl
            · simp only [if_neg hlong]
              exact wantFields_some key cap rest v

/-! ### The four keys -/

theorem wantString_ok {w w' : Wanted} {s : CStr} :
    wantString w s = .ok w' ↔
      wantField keyName kgModidNameMax s w.name = .ok w'.name ∧
        wantField keySrcversion kgModidSrcverMax s w.srcversion = .ok w'.srcversion ∧
        wantField (str "version") kgModidStrMax s w.version = .ok w'.version ∧
        wantField (str "vermagic") kgModidStrMax s w.vermagic = .ok w'.vermagic := by
  unfold wantString
  simp only [Loops.bind_eq_ok]
  constructor
  · rintro ⟨name, hname, src, hsrc, ver, hver, magic, hmagic, hw⟩
    rw [← Except.ok.inj hw]
    exact ⟨hname, hsrc, hver, hmagic⟩
  · rintro ⟨hname, hsrc, hver, hmagic⟩
    exact ⟨_, hname, _, hsrc, _, hver, _, hmagic, rfl⟩

/-- The loop over the strings is four loops. -/
theorem wantStrings_ok {strings : List CStr} {w w' : Wanted} :
    strings.foldlM wantString w = .ok w' ↔
      strings.foldlM (fun field s => wantField keyName kgModidNameMax s field) w.name
          = .ok w'.name ∧
        strings.foldlM (fun field s => wantField keySrcversion kgModidSrcverMax s field) w.srcversion
          = .ok w'.srcversion ∧
        strings.foldlM (fun field s => wantField (str "version") kgModidStrMax s field) w.version
          = .ok w'.version ∧
        strings.foldlM (fun field s => wantField (str "vermagic") kgModidStrMax s field) w.vermagic
          = .ok w'.vermagic := by
  induction strings generalizing w with
  | nil =>
      obtain ⟨name, src, ver, magic⟩ := w
      obtain ⟨name', src', ver', magic'⟩ := w'
      simp [pure, Except.pure]
  | cons s rest ih =>
      simp only [List.foldlM_cons, Loops.bind_eq_ok, wantString_ok, ih]
      constructor
      · rintro ⟨w₁, ⟨hname, hsrc, hver, hmagic⟩, rname, rsrc, rver, rmagic⟩
        exact ⟨⟨_, hname, rname⟩, ⟨_, hsrc, rsrc⟩, ⟨_, hver, rver⟩, ⟨_, hmagic, rmagic⟩⟩
      · rintro ⟨⟨name, hname, rname⟩, ⟨src, hsrc, rsrc⟩, ⟨ver, hver, rver⟩, ⟨magic, hmagic, rmagic⟩⟩
        exact ⟨⟨name, src, ver, magic⟩, ⟨hname, hsrc, hver, hmagic⟩, rname, rsrc, rver, rmagic⟩

/-- A field of the result: the value that is taken, if there is one, fits. -/
structure TakesFirst (key : CStr) (cap : Nat) (mi : List UInt8) (field : Option CStr) : Prop where
  value : field = takenValue key mi
  fits : ∀ v, takenValue key mi = some v → v.length < cap

theorem takesFirst_iff {key : CStr} {cap : Nat} {mi : List UInt8} {field : Option CStr} :
    (modinfoStrings mi.length mi).foldlM (fun field s => wantField key cap s field) none = .ok field
      ↔ TakesFirst key cap mi field := by
  have hfind : ((modinfoStrings mi.length mi).filterMap (modinfoValue key)).find? (· ≠ [])
      = takenValue key mi := rfl
  rw [wantFields_none, hfind]
  cases htaken : takenValue key mi with
  | none =>
      constructor
      · intro h
        exact ⟨by rw [htaken]; exact (Except.ok.inj h).symm, fun v hv => absurd hv (by simp [htaken])⟩
      · intro h
        rw [h.value, htaken]
  | some v =>
      simp only
      split_ifs with hlong
      · exact ⟨nofun, fun h => absurd (h.fits v htaken) (Nat.not_lt.mpr hlong)⟩
      · constructor
        · intro h
          refine ⟨by rw [htaken]; exact (Except.ok.inj h).symm, fun u hu => ?_⟩
          rw [htaken] at hu
          rw [← Option.some.inj hu]
          exact Nat.not_le.mp hlong
        · intro h
          rw [h.value, htaken]

theorem TakesFirst.length_lt {key : CStr} {cap : Nat} {mi : List UInt8} {field : Option CStr}
    (h : TakesFirst key cap mi field) (hcap : 0 < cap) : (field.getD []).length < cap := by
  rw [h.value]
  cases htaken : takenValue key mi with
  | none => exact hcap
  | some v => exact h.fits v htaken

/-- Exactly what the tool accepts, and what it makes of it. -/
theorem parseModinfo_ok {mi : List UInt8} {w : Wanted} :
    parseModinfo mi = .ok w ↔
      (TakesFirst keyName kgModidNameMax mi w.name ∧ TakesFirst keySrcversion kgModidSrcverMax mi w.srcversion ∧
        TakesFirst (str "version") kgModidStrMax mi w.version ∧
        TakesFirst (str "vermagic") kgModidStrMax mi w.vermagic) ∧
      nameCharsOk (w.name.getD []) = true ∧
      (w.srcversion.getD [] ≠ [] → hexCharsOk (w.srcversion.getD []) = true) := by
  unfold parseModinfo
  rw [Loops.bind_eq_ok]
  simp only [wantStrings_ok, takesFirst_iff]
  constructor
  · rintro ⟨w', hfold, h⟩
    simp only [bind, Except.bind] at h
    split_ifs at h with hno hbad
    have hw : w' = w := by simpa [pure, Except.pure] using h
    subst hw
    simp only [Bool.or_eq_true, Bool.not_eq_true', Bool.and_eq_true, decide_eq_true_eq, not_or,
      not_and, Bool.not_eq_false] at hbad
    exact ⟨hfold, hbad.1, hbad.2⟩
  · rintro ⟨hfold, hname, hsrc⟩
    refine ⟨w, hfold, ?_⟩
    have hne : w.name.getD [] ≠ [] := by
      intro hempty
      rw [hempty] at hname
      exact absurd hname (by decide)
    rw [if_neg hne, if_neg]
    · rfl
    · simp only [Bool.or_eq_true, Bool.not_eq_true', Bool.and_eq_true, decide_eq_true_eq, not_or,
        not_and, Bool.not_eq_false]
      exact ⟨hname, hsrc⟩

/-! ### The first entry of a key

This is what the kernel makes of the section, in terms of its entries and without a
loop.  The loop of the source walks over the same entries (`valuesIn_strings`), the
empty ones between two NULs included.
-/

/-- The keys, with the sizes of their fields. -/
def modinfoKeys : List (CStr × Nat) :=
  [(keyName, kgModidNameMax), (keySrcversion, kgModidSrcverMax), (str "version", kgModidStrMax),
   (str "vermagic", kgModidStrMax)]

/-- The fields of the result, in the order of the keys. -/
def Wanted.fields (w : Wanted) : List (Option CStr) := [w.name, w.srcversion, w.version, w.vermagic]

/-- The values of a key among entries. -/
def valuesIn (key : CStr) (entries : List CStr) : List CStr := entries.filterMap (modinfoValue key)

/-- The section split at its NULs. -/
def entriesOf (mi : List UInt8) : List CStr := mi.splitOn 0

/-- The value of the first entry of a key, empty if there is none. -/
def firstValue (key : CStr) (mi : List UInt8) : CStr := (valuesIn key (entriesOf mi)).headD []

/-- The entries without those of a key that come after the first of it. -/
def dropLater (key : CStr) : List CStr → List CStr
  | [] => []
  | s :: rest =>
      if (modinfoValue key s).isSome then s :: rest.filter fun t => (modinfoValue key t).isNone
      else s :: dropLater key rest

def withoutLater (key : CStr) (mi : List UInt8) : List UInt8 :=
  [0].intercalate (dropLater key (entriesOf mi))

/-- What the tool is to make of a section. -/
structure ReadsFirst (mi : List UInt8) : Prop where
  values : ∀ w, parseModinfo mi = .ok w →
    w.fields.map (·.getD []) = modinfoKeys.map fun k => firstValue k.1 mi
  later : ∀ w, parseModinfo mi = .ok w → ∀ k ∈ modinfoKeys, parseModinfo (withoutLater k.1 mi) = .ok w
  long : ∀ k ∈ modinfoKeys, k.2 ≤ (firstValue k.1 mi).length → ∃ e, parseModinfo mi = .error e

/-- An empty value of a key is not followed by one that is not. -/
def NoEmptyFirst (mi : List UInt8) : Prop :=
  ∀ k ∈ modinfoKeys, firstValue k.1 mi = [] → ∀ v ∈ valuesIn k.1 (entriesOf mi), v = []

/-- A section that is refused in any case. -/
def SectionRefused (mi : List UInt8) : Prop :=
  (∃ k ∈ modinfoKeys, ∃ v, (valuesIn k.1 (entriesOf mi)).find? (· ≠ []) = some v ∧ k.2 ≤ v.length) ∨
    nameCharsOk (((valuesIn keyName (entriesOf mi)).find? (· ≠ [])).getD []) = false ∨
    ∃ v, (valuesIn keySrcversion (entriesOf mi)).find? (· ≠ []) = some v ∧ hexCharsOk v = false

theorem modinfoValue_nil (key : CStr) : modinfoValue key [] = none := by
  unfold modinfoValue
  rw [if_neg]
  intro h
  simpa using h.length_le

/-- A string ends at its NUL or at the end of the section. -/
theorem cut_at_nul (mi : List UInt8) :
    mi.splitOn 0 = mi.takeWhile (· ≠ 0) ::
        (if 0 ∈ mi then (mi.drop ((mi.takeWhile (· ≠ 0)).length + 1)).splitOn 0 else []) := by
  induction mi with
  | nil => rfl
  | cons c rest ih =>
      rw [List.splitOn_cons_eq_if_modifyHead]
      by_cases hc : c = 0
      · simp [hc]
      · have hbeq : (c == 0) = false := by simpa using hc
        have hmem : (0 ∈ c :: rest) = (0 ∈ rest) := by simp [Ne.symm hc]
        rw [hbeq, ih, if_neg (by decide)]
        simp [hc, Ne.symm hc]

theorem modinfoStrings_cons (fuel : Nat) {mi : List UInt8} (h : mi ≠ []) :
    modinfoStrings (fuel + 1) mi = mi.takeWhile (· ≠ 0) ::
      modinfoStrings fuel (mi.drop ((mi.takeWhile (· ≠ 0)).length + 1)) := by
  cases mi with
  | nil => exact absurd rfl h
  | cons c rest => rfl

/-- The loop of the source walks over the entries. -/
theorem valuesIn_strings (key : CStr) (fuel : Nat) :
    ∀ mi : List UInt8, mi.length ≤ fuel →
      valuesIn key (modinfoStrings fuel mi) = valuesIn key (entriesOf mi) := by
  have hnil : ∀ fuel, valuesIn key (modinfoStrings fuel []) = [] := by
    intro fuel
    cases fuel <;> rfl
  have hend : valuesIn key (entriesOf []) = [] := by
    simp [valuesIn, entriesOf, modinfoValue_nil]
  induction fuel with
  | zero =>
      intro mi hlen
      rw [List.length_eq_zero_iff.mp (Nat.le_zero.mp hlen), hnil, hend]
  | succ fuel ih =>
      intro mi hlen
      by_cases hmi : mi = []
      · rw [hmi, hnil, hend]
      · have hpos := List.length_pos_iff.mpr hmi
        have hrest := ih (mi.drop ((mi.takeWhile (· ≠ 0)).length + 1))
          (by rw [List.length_drop]; omega)
        rw [modinfoStrings_cons fuel hmi, entriesOf, cut_at_nul]
        unfold valuesIn at hrest ⊢
        rw [List.filterMap_cons, List.filterMap_cons, hrest]
        by_cases hnul : 0 ∈ mi
        · rw [if_pos hnul]
          rfl
        · -- the last string has no NUL, and nothing follows it
          rw [if_neg hnul, Tokens.takeWhile_ne_self hnul, List.drop_eq_nil_of_le (Nat.le_succ _)]
          unfold valuesIn at hend
          rw [hend, List.filterMap_nil]

theorem takenValue_eq (key : CStr) (mi : List UInt8) :
    takenValue key mi = (valuesIn key (entriesOf mi)).find? (· ≠ []) := by
  rw [← valuesIn_strings key mi.length mi (Nat.le_refl _)]
  rfl

theorem takenValue_ne_nil {key : CStr} {mi : List UInt8} {v : CStr}
    (h : takenValue key mi = some v) : v ≠ [] := by
  simpa using List.find?_some h

/-- What the tool accepts, key by key. -/
theorem parseModinfo_fields {mi : List UInt8} {w : Wanted} :
    parseModinfo mi = .ok w ↔
      w.fields = modinfoKeys.map (fun k => takenValue k.1 mi) ∧
        (∀ k ∈ modinfoKeys, ∀ v, takenValue k.1 mi = some v → v.length < k.2) ∧
        nameCharsOk ((takenValue keyName mi).getD []) = true ∧
        ∀ v, takenValue keySrcversion mi = some v → hexCharsOk v = true := by
  have hfields : w.fields = modinfoKeys.map (fun k => takenValue k.1 mi) ↔
      w.name = takenValue keyName mi ∧ w.srcversion = takenValue keySrcversion mi ∧
        w.version = takenValue (str "version") mi ∧ w.vermagic = takenValue (str "vermagic") mi := by
    simp [Wanted.fields, modinfoKeys]
  have hfits : (∀ k ∈ modinfoKeys, ∀ v, takenValue k.1 mi = some v → v.length < k.2) ↔
      (∀ v, takenValue keyName mi = some v → v.length < kgModidNameMax) ∧
        (∀ v, takenValue keySrcversion mi = some v → v.length < kgModidSrcverMax) ∧
        (∀ v, takenValue (str "version") mi = some v → v.length < kgModidStrMax) ∧
        ∀ v, takenValue (str "vermagic") mi = some v → v.length < kgModidStrMax := by
    simp [modinfoKeys]
  -- a value that was taken is not empty
  have hhex : ((takenValue keySrcversion mi).getD [] ≠ [] →
        hexCharsOk ((takenValue keySrcversion mi).getD []) = true) ↔
      ∀ v, takenValue keySrcversion mi = some v → hexCharsOk v = true := by
    cases htaken : takenValue keySrcversion mi with
    | none => simp
    | some v => simp [takenValue_ne_nil htaken]
  rw [parseModinfo_ok, hfields, hfits, ← hhex]
  constructor
  · rintro ⟨⟨⟨name, nfit⟩, ⟨src, sfit⟩, ⟨ver, vfit⟩, ⟨magic, mfit⟩⟩, nameOk, hexOk⟩
    rw [name] at nameOk
    rw [src] at hexOk
    exact ⟨⟨name, src, ver, magic⟩, ⟨nfit, sfit, vfit, mfit⟩, nameOk, hexOk⟩
  · rintro ⟨⟨name, src, ver, magic⟩, ⟨nfit, sfit, vfit, mfit⟩, nameOk, hexOk⟩
    rw [← name] at nameOk
    rw [← src] at hexOk
    exact ⟨⟨⟨name, nfit⟩, ⟨src, sfit⟩, ⟨ver, vfit⟩, ⟨magic, mfit⟩⟩, nameOk, hexOk⟩

theorem parseModinfo_congr {mi mi' : List UInt8}
    (h : ∀ k ∈ modinfoKeys, takenValue k.1 mi = takenValue k.1 mi') {w : Wanted}
    (hok : parseModinfo mi = .ok w) : parseModinfo mi' = .ok w := by
  have hname := h (keyName, kgModidNameMax) (by simp [modinfoKeys])
  have hsrc := h (keySrcversion, kgModidSrcverMax) (by simp [modinfoKeys])
  obtain ⟨hfields, hfits, hnameOk, hhexOk⟩ := parseModinfo_fields.mp hok
  refine parseModinfo_fields.mpr ⟨?_, ?_, ?_, ?_⟩
  · rw [hfields]
    exact List.map_congr_left h
  · intro k hk v hv
    exact hfits k hk v (by rw [h k hk, hv])
  · rw [← hname]
    exact hnameOk
  · rw [← hsrc]
    exact hhexOk

/-- Not to be refused is to be accepted. -/
theorem accepted_iff {mi : List UInt8} : (∃ w, parseModinfo mi = .ok w) ↔ ¬ SectionRefused mi := by
  unfold SectionRefused
  simp only [← takenValue_eq, not_or, not_exists, not_and, Nat.not_le, Bool.not_eq_false,
    parseModinfo_fields]
  constructor
  · rintro ⟨w, -, hfits, hname, hhex⟩
    exact ⟨hfits, hname, hhex⟩
  · rintro ⟨hfits, hname, hhex⟩
    exact ⟨⟨_, _, _, _⟩, rfl, hfits, hname, hhex⟩

/-! ### Entries that come later

Dropping the later entries of a key changes the values of this key only.  So the
theorem can be shown for one key, and the four keys differ in the size of the field
alone.
-/

theorem modinfoValue_isSome {key s : CStr} :
    (modinfoValue key s).isSome ↔ key ++ [chEquals] <+: s := by
  unfold modinfoValue
  split <;> simp [*]

/-- An entry is of one key. -/
theorem modinfoValue_unique {k k' s : CStr} (hk : chEquals ∉ k) (hk' : chEquals ∉ k')
    (h : (modinfoValue k s).isSome) (h' : (modinfoValue k' s).isSome) : k = k' := by
  have hkey : ∀ {k : CStr}, chEquals ∉ k → (modinfoValue k s).isSome →
      s.takeWhile (· ≠ chEquals) = k := by
    intro k hk h
    obtain ⟨v, rfl⟩ := modinfoValue_isSome.mp h
    rw [List.append_assoc, List.singleton_append, Tokens.takeWhile_ne_append hk]
  rw [← hkey hk h, hkey hk' h']

theorem valuesIn_cons_none {key s : CStr} (h : modinfoValue key s = none) (es : List CStr) :
    valuesIn key (s :: es) = valuesIn key es := List.filterMap_cons_none h

theorem valuesIn_dropLater_self (key : CStr) (es : List CStr) :
    valuesIn key (dropLater key es) = (valuesIn key es).take 1 := by
  induction es with
  | nil => rfl
  | cons s rest ih =>
      cases hv : modinfoValue key s with
      | none =>
          rw [dropLater, hv, if_neg (by simp), valuesIn_cons_none hv, ih, valuesIn_cons_none hv]
      | some v =>
          have hrest : (rest.filter fun t => (modinfoValue key t).isNone).filterMap
              (modinfoValue key) = [] := by
            rw [List.filterMap_eq_nil_iff]
            intro t ht
            simpa using List.of_mem_filter ht
          rw [dropLater, hv, if_pos Option.isSome_some, valuesIn, valuesIn, List.filterMap_cons_some hv, hrest,
            List.filterMap_cons_some hv]
          rfl

theorem valuesIn_dropLater_other {key key' : CStr} (hkey : chEquals ∉ key) (hkey' : chEquals ∉ key')
    (hne : key' ≠ key) (es : List CStr) :
    valuesIn key' (dropLater key es) = valuesIn key' es := by
  have hnone : ∀ {t}, (modinfoValue key t).isSome → modinfoValue key' t = none := by
    intro t ht
    by_contra hsome
    exact hne (modinfoValue_unique hkey' hkey (Option.isSome_iff_ne_none.mpr hsome) ht)
  induction es with
  | nil => rfl
  | cons s rest ih =>
      rw [dropLater]
      split
      · next hs =>
          rw [valuesIn_cons_none (hnone hs), valuesIn_cons_none (hnone hs)]
          unfold valuesIn
          rw [List.filterMap_filter]
          refine List.filterMap_congr fun t _ => ?_
          cases ht : modinfoValue key t with
          | none => simp
          | some v => simp [hnone (t := t) (by simp [ht])]
      · unfold valuesIn at ih ⊢
        rw [List.filterMap_cons, List.filterMap_cons, ih]

theorem dropLater_subset (key : CStr) {es : List CStr} : ∀ s ∈ dropLater key es, s ∈ es := by
  induction es with
  | nil => exact fun s hs => hs
  | cons t rest ih =>
      intro s hs
      rw [dropLater] at hs
      split at hs
      · rcases List.mem_cons.mp hs with rfl | hin
        · exact List.mem_cons_self
        · exact List.mem_cons_of_mem t (List.mem_of_mem_filter hin)
      · rcases List.mem_cons.mp hs with rfl | hin
        · exact List.mem_cons_self
        · exact List.mem_cons_of_mem t (ih s hin)

theorem entriesOf_withoutLater (key : CStr) (mi : List UInt8) :
    entriesOf (withoutLater key mi) = dropLater key (entriesOf mi) := by
  refine List.splitOn_intercalate 0 (fun s hs h0 =>
    (Tokens.mem_splitOn s (dropLater_subset key s hs) 0 h0).2 rfl) ?_
  unfold entriesOf
  rw [cut_at_nul, dropLater]
  split <;> simp

/-- Without an empty value in front, the value taken is the first. -/
theorem taken_first {key : CStr} {mi : List UInt8}
    (h : firstValue key mi = [] → ∀ v ∈ valuesIn key (entriesOf mi), v = []) :
    takenValue key mi = ((valuesIn key (entriesOf mi)).take 1).find? (· ≠ []) := by
  rw [takenValue_eq]
  unfold firstValue at h
  cases hvals : valuesIn key (entriesOf mi) with
  | nil => rfl
  | cons v rest =>
      rw [hvals, List.headD_cons] at h
      by_cases hv : v = []
      · have hall : ∀ l ⊆ v :: rest, l.find? (· ≠ []) = none := by
          intro l hl
          rw [List.find?_eq_none]
          intro u hu
          simpa using h hv u (hl hu)
        rw [hall _ (List.Subset.refl _), hall _ (List.take_subset 1 _)]
      · rw [List.find?_cons_of_pos (by simpa using hv), List.take_succ_cons,
          List.find?_cons_of_pos (by simpa using hv)]

theorem taken_without_later {mi : List UInt8} (h : NoEmptyFirst mi) {k j : CStr × Nat}
    (hk : k ∈ modinfoKeys) (hj : j ∈ modinfoKeys) :
    takenValue j.1 (withoutLater k.1 mi) = takenValue j.1 mi := by
  have hequals : ∀ k ∈ modinfoKeys, chEquals ∉ k.1 := by decide
  rw [takenValue_eq, entriesOf_withoutLater]
  by_cases hsame : j.1 = k.1
  · rw [hsame, valuesIn_dropLater_self, taken_first (h k hk)]
  · rw [valuesIn_dropLater_other (hequals k hk) (hequals j hj) hsame, takenValue_eq]

theorem taken_eq_first {key : CStr} {mi : List UInt8} (h : firstValue key mi ≠ []) :
    takenValue key mi = some (firstValue key mi) := by
  rw [taken_first (fun h0 => absurd h0 h)]
  unfold firstValue at h ⊢
  cases hvals : valuesIn key (entriesOf mi) with
  | nil => rw [hvals] at h; exact absurd rfl h
  | cons v rest =>
      rw [hvals] at h
      exact List.find?_cons_of_pos (by simpa using h)

/-- The value a field ends up with is the first exactly if no empty one hides another. -/
theorem taken_getD_iff {key : CStr} {mi : List UInt8} :
    (takenValue key mi).getD [] = firstValue key mi ↔
      (firstValue key mi = [] → ∀ v ∈ valuesIn key (entriesOf mi), v = []) := by
  by_cases hfirst : firstValue key mi = []
  · simp only [hfirst, true_implies]
    rw [takenValue_eq]
    cases hfind : (valuesIn key (entriesOf mi)).find? (· ≠ []) with
    | none =>
        rw [List.find?_eq_none] at hfind
        simpa using hfind
    | some v =>
        have hv : v ≠ [] := by simpa using List.find?_some hfind
        simp only [Option.getD_some]
        exact ⟨fun h => absurd h hv, fun h => h v (List.mem_of_find?_eq_some hfind)⟩
  · rw [taken_eq_first hfirst]
    exact ⟨fun _ h0 => absurd h0 hfirst, fun _ => rfl⟩

/--
**When `.modinfo` is read as it should be.**  The fields hold the first value of each key,
no later entry matters and a first value that is too long is an error, exactly when no
key comes with an empty value before another one, or the section is refused anyway.
-/
theorem modinfo_reads_first_iff (mi : List UInt8) :
    ReadsFirst mi ↔ NoEmptyFirst mi ∨ SectionRefused mi := by
  constructor
  · intro h
    by_cases hrefused : SectionRefused mi
    · exact .inr hrefused
    · left
      obtain ⟨w, hw⟩ := accepted_iff.mpr hrefused
      have hvalues := h.values w hw
      rw [(parseModinfo_fields.mp hw).1, List.map_map] at hvalues
      intro k hk
      exact taken_getD_iff.mp (List.map_inj_left.mp hvalues k hk)
  · intro h
    have hclean : ∀ {w}, parseModinfo mi = .ok w → NoEmptyFirst mi := fun hw =>
      h.resolve_right (accepted_iff.mp ⟨_, hw⟩)
    refine ⟨fun w hw => ?_, fun w hw k hk => ?_, fun k hk hlong => ?_⟩
    · rw [(parseModinfo_fields.mp hw).1, List.map_map]
      exact List.map_congr_left fun k hk => taken_getD_iff.mpr (hclean hw k hk)
    · exact parseModinfo_congr (fun j hj => (taken_without_later (hclean hw) hk hj).symm) hw
    · -- a value that is too long is not empty, so it is the one that is taken
      have hcap : ∀ k ∈ modinfoKeys, 0 < k.2 := by decide
      have hne : firstValue k.1 mi ≠ [] := by
        intro h0
        rw [h0, List.length_nil] at hlong
        exact absurd (hcap k hk) (Nat.not_lt.mpr hlong)
      cases hparse : parseModinfo mi with
      | error e => exact ⟨e, rfl⟩
      | ok w =>
          have hfits := (parseModinfo_fields.mp hparse).2.1 k hk _ (taken_eq_first hne)
          omega

/-- An empty `srcversion` in front of another one. -/
def emptyFirstInfo : List UInt8 :=
  str "name=evil" ++ [0] ++ str "srcversion=" ++ [0] ++ str "srcversion=AB12" ++ [0]

/-- The second value is read. -/
theorem empty_first_skipped : ¬ ReadsFirst emptyFirstInfo := by
  intro h
  have hvalues := h.values ⟨some (str "evil"), some (str "AB12"), none, none⟩ (by rfl)
  exact absurd hvalues (by decide +kernel)

end KernelGuard
