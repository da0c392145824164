/-
What `build_table` makes of a dataset.

The loops over entries and samples are a reading, which may raise, followed by a fold that
counts and inserts.  Of the fold only the mentions matter for the table, the pairs of a digest
and a class in the order they are read; the class '1' is never given up, so the order of the
mentions leaves no trace.

Python's exceptions are the other half: a dataset with a value of the wrong type
makes the tool raise, and then there is no table.  Reading is separated from counting
to have them in one place; the fold behind it cannot fail, and its two invariants,
about the keys and about the class of a key, are inductions over the mentions.
-/
import KernelGuard.Model.LolDrivers
import KernelGuard.Lib.Loops

namespace KernelGuard

open Loops

/-! ### Reading

The two loops read a category and its samples, and only then count and insert.  Since
nothing that is counted or inserted is read again, reading everything first makes no
difference.
-/

/-- What the loops read of one entry: its category and the digests of its samples. -/
def entryReads (e : PyVal) : Except PyRaise (Text × List Text) := do
  let category ← entryCategory e
  let samples ← entrySamples e
  let digests ← samples.mapM sampleDigest
  pure (category, digests)

/-- What the loops do with it. -/
def countReads (acc : DigestTable × TableStats) (r : Text × List Text) :
    DigestTable × TableStats :=
  r.2.foldl (addDigest (countEntry r.1 acc.2).1) (acc.1, (countEntry r.1 acc.2).2)

theorem addEntry_eq (acc : DigestTable × TableStats) (e : PyVal) :
    addEntry acc e = countReads acc <$> entryReads e := by
  simp only [addEntry, entryReads, foldlM_read, map_bind, map_pure]
  apply bind_congr
  intro category
  apply bind_congr
  intro samples
  rw [map_eq_pure_bind]
  rfl

theorem buildTable_eq (entries : List PyVal) :
    ∃ stats, buildTable entries =
      (fun rs => rs.foldl countReads (∅, stats)) <$> entries.mapM entryReads := by
  refine ⟨{ drivers := entries.length, vulnerable := 0, malicious := 0, samples := 0, noHash := 0,
            other := ∅ }, ?_⟩
  rw [buildTable, ← foldlM_read]
  congr 1
  funext acc e
  exact addEntry_eq acc e

/-! ### Digests

A digest is stripped and made lower case before it is matched.  The match is anchored
by `$`, which in Python also allows one line break at the end; a stripped text has
none there, in lower case neither.
-/

theorem matchEnd_eq {p : Text → Bool} {s : Text} (h : s.getLast? ≠ some '\n') :
    matchEnd p s = p s := by
  rw [matchEnd, decide_eq_false h, Bool.false_and, Bool.or_false]

theorem toLower_newline {c : Char} (h : c.toLower = '\n') : c = '\n' := by
  delta Char.toLower at h
  split at h
  · rename_i hupper
    have hval := congrArg (fun d : Char => d.val.toNat) h
    have hlow : 65 ≤ c.val.toNat := hupper.1
    have hhigh : c.val.toNat ≤ 90 := hupper.2
    have hsum : (c.val.toNat + 32) % 2 ^ 32 = 10 := hval
    omega
  · exact h

/-- A stripped text does not end in a line break, also in lower case. -/
theorem getLast?_lower_strip (s : Text) : (lower (strip s)).getLast? ≠ some '\n' := by
  intro h
  rw [lower, List.getLast?_map, Option.map_eq_some_iff] at h
  obtain ⟨c, hc, hlow⟩ := h
  have hne : (s.dropWhile pyIsSpace).rdropWhile pyIsSpace ≠ [] := by
    intro hnil
    rw [strip, hnil] at hc
    exact absurd hc nofun
  have hlast := List.rdropWhile_last_not pyIsSpace (s.dropWhile pyIsSpace) hne
  rw [strip, List.getLast?_eq_some_getLast hne] at hc
  rw [Option.some.inj hc, toLower_newline hlow] at hlast
  exact hlast (by decide)

theorem strip_eq_ok {v : PyVal} {x : Text} (h : v.strip = .ok x) :
    ∃ s, v = .str s ∧ strip s = x := by
  cases v with
  | str s => exact ⟨s, rfl, Except.ok.inj h⟩
  | none | bool | int | float | list | dict => exact absurd h nofun

theorem sampleDigest_lower {sample : PyVal} {x : Text} (h : sampleDigest sample = .ok x) :
    ∃ s, lower (strip s) = x := by
  obtain ⟨auth, -, h⟩ := bind_eq_ok.mp h
  obtain ⟨digest, -, h⟩ := bind_eq_ok.mp h
  obtain ⟨y, hy, rfl⟩ := map_eq_ok.mp h
  obtain ⟨s, -, rfl⟩ := strip_eq_ok hy
  exact ⟨s, rfl⟩

theorem hex64Match_sampleDigest {sample : PyVal} {x : Text} (h : sampleDigest sample = .ok x) :
    hex64Match x = isHex 64 x := by
  obtain ⟨s, rfl⟩ := sampleDigest_lower h
  exact matchEnd_eq (getLast?_lower_strip s)

/-! ### Mentions

A mention inserts a key that is new, and raises the class of one that is not when
the mention is malicious.  So the class is whether some mention of the key so far is
malicious.
-/

/-- The digests of an entry that are well formed, with the class of the entry. -/
def mentions (r : Text × List Text) : List (Text × Char) :=
  (r.2.filter hex64Match).map fun x => (x, if r.1 = malicious then '1' else '0')

def addMention (t : DigestTable) (p : Text × Char) : DigestTable :=
  t.insert p.1 (if p.2 = '1' ∨ t.lookup p.1 = some '1' then '1' else '0')

theorem countEntry_class (category : Text) (stats : TableStats) :
    (countEntry category stats).1 = if category = malicious then '1' else '0' := by
  rw [countEntry]
  split
  · rfl
  · dsimp only
    split
    · rfl
    · rfl

theorem addDigests_table (klass : Char) (ds : List Text) (acc : DigestTable × TableStats) :
    (ds.foldl (addDigest klass) acc).1 =
      ((ds.filter hex64Match).map fun x => (x, klass)).foldl addMention acc.1 := by
  induction ds generalizing acc with
  | nil => rfl
  | cons x rest ih =>
      rw [List.foldl_cons, ih, addDigest]
      by_cases hx : hex64Match x = true
      · rw [List.filter_cons_of_pos hx, hx]
        rfl
      · rw [List.filter_cons_of_neg hx, Bool.eq_false_iff.mpr hx]
        rfl

theorem countReads_table (rs : List (Text × List Text)) (acc : DigestTable × TableStats) :
    (rs.foldl countReads acc).1 = (rs.flatMap mentions).foldl addMention acc.1 := by
  induction rs generalizing acc with
  | nil => rfl
  | cons r rest ih =>
      rw [List.foldl_cons, ih, List.flatMap_cons, List.foldl_append, countReads,
        addDigests_table, countEntry_class]
      rfl

section

variable {t : DigestTable} {x : Text}

theorem mem_addMention {p : Text × Char} : x ∈ addMention t p ↔ x = p.1 ∨ x ∈ t :=
  Finmap.mem_insert

theorem lookup_addMention_one {p : Text × Char} :
    (addMention t p).lookup x = some '1' ↔ t.lookup x = some '1' ∨ p = (x, '1') := by
  obtain ⟨y, k⟩ := p
  rw [addMention, Prod.mk.injEq]
  by_cases hxy : x = y
  · subst hxy
    rw [Finmap.lookup_insert, Option.some.injEq]
    by_cases hk : k = '1' ∨ t.lookup x = some '1'
    · rw [if_pos hk]
      refine ⟨fun _ => hk.symm.imp id fun h => ⟨rfl, h⟩, fun _ => rfl⟩
    · rw [if_neg hk]
      exact ⟨nofun, fun h => absurd (h.symm.imp And.right id) hk⟩
  · rw [Finmap.lookup_insert_of_ne t hxy]
    exact ⟨.inl, fun h => h.resolve_right fun hy => hxy hy.1.symm⟩

theorem lookup_addMention_class {p : Text × Char}
    (h : ∀ y k, t.lookup y = some k → k = '0' ∨ k = '1') {k : Char}
    (hk : (addMention t p).lookup x = some k) : k = '0' ∨ k = '1' := by
  rw [addMention] at hk
  by_cases hxy : x = p.1
  · subst hxy
    rw [Finmap.lookup_insert, Option.some.injEq] at hk
    rw [← hk]
    split
    · exact .inr rfl
    · exact .inl rfl
  · rw [Finmap.lookup_insert_of_ne t hxy] at hk
    exact h x k hk

end

theorem mem_addMentions {m : List (Text × Char)} {t : DigestTable} {x : Text} :
    x ∈ m.foldl addMention t ↔ x ∈ t ∨ ∃ k, (x, k) ∈ m := by
  induction m generalizing t with
  | nil => simp
  | cons p rest ih =>
      rw [List.foldl_cons, ih, mem_addMention]
      constructor
      · rintro ((rfl | hx) | ⟨k, hk⟩)
        · exact .inr ⟨p.2, List.mem_cons_self⟩
        · exact .inl hx
        · exact .inr ⟨k, List.mem_cons_of_mem p hk⟩
      · rintro (hx | ⟨k, hk⟩)
        · exact .inl (.inr hx)
        · rcases List.mem_cons.mp hk with rfl | hin
          · exact .inl (.inl rfl)
          · exact .inr ⟨k, hin⟩

theorem lookup_addMentions_one {m : List (Text × Char)} {t : DigestTable} {x : Text} :
    (m.foldl addMention t).lookup x = some '1' ↔ t.lookup x = some '1' ∨ (x, '1') ∈ m := by
  induction m generalizing t with
  | nil => simp
  | cons p rest ih =>
      rw [List.foldl_cons, ih, lookup_addMention_one, List.mem_cons, or_assoc,
        eq_comm (a := p)]

theorem lookup_addMentions_class {m : List (Text × Char)} {t : DigestTable}
    (h : ∀ y k, t.lookup y = some k → k = '0' ∨ k = '1') {x : Text} {k : Char}
    (hk : (m.foldl addMention t).lookup x = some k) : k = '0' ∨ k = '1' := by
  induction m generalizing t with
  | nil => exact h x k hk
  | cons p rest ih => exact ih (fun y j hj => lookup_addMention_class h hj) hk

/-! ### The table

What is left is to say "some mention" in terms of the dataset: an entry of the
category, with a sample that has the digest.
-/

/-- A sample of the dataset has this digest, as the loop reads it. -/
def HasDigest (entries : List PyVal) (x : Text) : Prop :=
  ∃ e ∈ entries, ∃ samples, entrySamples e = .ok samples ∧
    ∃ sample ∈ samples, sampleDigest sample = .ok x

/-- A sample of an entry of category malicious has. -/
def HasMaliciousDigest (entries : List PyVal) (x : Text) : Prop :=
  ∃ e ∈ entries, entryCategory e = .ok malicious ∧ ∃ samples, entrySamples e = .ok samples ∧
    ∃ sample ∈ samples, sampleDigest sample = .ok x

theorem entryReads_eq_ok {e : PyVal} {r : Text × List Text} (h : entryReads e = .ok r) :
    entryCategory e = .ok r.1 ∧
      ∃ samples, entrySamples e = .ok samples ∧ samples.mapM sampleDigest = .ok r.2 := by
  obtain ⟨category, hcategory, h⟩ := bind_eq_ok.mp h
  obtain ⟨samples, hsamples, h⟩ := bind_eq_ok.mp h
  obtain ⟨digests, hdigests, h⟩ := bind_eq_ok.mp h
  obtain rfl := Except.ok.inj h
  exact ⟨hcategory, samples, hsamples, hdigests⟩

theorem mem_mentions {entries : List PyVal} {rs : List (Text × List Text)}
    (h : entries.mapM entryReads = .ok rs) {x : Text} {k : Char} :
    (x, k) ∈ rs.flatMap mentions ↔ isHex 64 x = true ∧ ∃ e ∈ entries, ∃ category,
      entryCategory e = .ok category ∧ (k = if category = malicious then '1' else '0') ∧
        ∃ samples, entrySamples e = .ok samples ∧
          ∃ sample ∈ samples, sampleDigest sample = .ok x := by
  rw [List.mem_flatMap]
  constructor
  · rintro ⟨r, hr, hmem⟩
    obtain ⟨e, he, hreads⟩ := (mem_of_mapM h).mp hr
    obtain ⟨hcategory, samples, hsamples, hdigests⟩ := entryReads_eq_ok hreads
    rw [mentions, List.mem_map] at hmem
    obtain ⟨y, hy, heq⟩ := hmem
    obtain ⟨rfl, rfl⟩ := Prod.mk.inj heq
    obtain ⟨hin, hmatch⟩ := List.mem_filter.mp hy
    obtain ⟨sample, hsample, hdigest⟩ := (mem_of_mapM hdigests).mp hin
    rw [hex64Match_sampleDigest hdigest] at hmatch
    exact ⟨hmatch, e, he, r.1, hcategory, rfl, samples, hsamples, sample, hsample, hdigest⟩
  · rintro ⟨hhex, e, he, category, hcategory, rfl, samples, hsamples, sample, hsample, hdigest⟩
    obtain ⟨r, hr⟩ := ok_of_mapM h he
    obtain ⟨hcategory', samples', hsamples', hdigests⟩ := entryReads_eq_ok hr
    rw [hcategory] at hcategory'
    rw [hsamples] at hsamples'
    obtain rfl := Except.ok.inj hsamples'
    refine ⟨r, (mem_of_mapM h).mpr ⟨e, he, hr⟩, ?_⟩
    rw [mentions, List.mem_map]
    refine ⟨x, List.mem_filter.mpr ⟨(mem_of_mapM hdigests).mpr ⟨sample, hsample, hdigest⟩, ?_⟩, ?_⟩
    · rw [hex64Match_sampleDigest hdigest]
      exact hhex
    · rw [Except.ok.inj hcategory']

/-- The keys of the table are the well-formed digests of the dataset, and the class is '1' for
those that a malicious entry has. -/
structure TableOf (entries : List PyVal) (t : DigestTable) : Prop where
  keys : ∀ x, x ∈ t ↔ isHex 64 x = true ∧ HasDigest entries x
  one : ∀ x, t.lookup x = some '1' ↔ isHex 64 x = true ∧ HasMaliciousDigest entries x
  classes : ∀ x k, t.lookup x = some k → k = '0' ∨ k = '1'

theorem buildTable_spec {entries : List PyVal} {t : DigestTable} {stats : TableStats}
    (h : buildTable entries = .ok (t, stats)) : TableOf entries t := by
  obtain ⟨stats₀, heq⟩ := buildTable_eq entries
  rw [heq] at h
  obtain ⟨rs, hrs, hfold⟩ := map_eq_ok.mp h
  have ht : t = (rs.flatMap mentions).foldl addMention ∅ := by
    rw [← countReads_table rs (∅, stats₀), hfold]
  constructor
  · intro x
    rw [ht, mem_addMentions]
    constructor
    · rintro (hx | ⟨k, hk⟩)
      · exact absurd hx Finmap.notMem_empty
      · obtain ⟨hhex, e, he, -, -, -, hcarries⟩ := (mem_mentions hrs).mp hk
        exact ⟨hhex, e, he, hcarries⟩
    · rintro ⟨hhex, e, he, hcarries⟩
      obtain ⟨r, hr⟩ := ok_of_mapM hrs he
      exact .inr ⟨_, (mem_mentions hrs).mpr
        ⟨hhex, e, he, r.1, (entryReads_eq_ok hr).1, rfl, hcarries⟩⟩
  · intro x
    rw [ht, lookup_addMentions_one, mem_mentions hrs]
    constructor
    · rintro (hx | ⟨hhex, e, he, category, hcategory, hk, hcarries⟩)
      · exact absurd hx (by simp)
      · have hmal : category = malicious := by
          by_contra hne
          rw [if_neg hne] at hk
          exact absurd hk (by decide)
        exact ⟨hhex, e, he, hmal ▸ hcategory, hcarries⟩
    · rintro ⟨hhex, e, he, hcategory, hcarries⟩
      exact .inr ⟨hhex, e, he, malicious, hcategory, (if_pos rfl).symm, hcarries⟩
  · intro x k hk
    rw [ht] at hk
    exact lookup_addMentions_class (fun y j hj => absurd hj (by simp)) hk

end KernelGuard
