/-
When the database has the digests of the built-in table.

Both are made from the same dataset, by loops that differ.  `build_table` reads a digest where it
is nested and raises when it is no string; the import also reads the flat key, and skips what it
cannot use.  What is nested they read alike (`clean_nested`), so the flat keys are all that the
database can have over the table.

The two loops run over the same entries in the same order, so the comparison is made
once, at a single sample, and lifted over the samples and the entries by membership:
neither tool lets one entry influence what it reads of another.
-/
import KernelGuard.Proofs.Blocklist
import KernelGuard.Proofs.LolTable

namespace KernelGuard

open Loops FirstWins

/-! ### What the two read

What the one raises at, the other skips, and on a dataset that the first gets
through they clean the same strings.  The import looks under two keys, and the flat
one is where the two part: `HasFlatDigest` is what it finds there and the table does
not have.
-/

/-- The database has this value as the SHA-256 Authentihash of a Windows driver. -/
def Db.StoresAuthentihash (db : Db) (v : Text) : Prop :=
  ∃ r ∈ db.signatures, r.key = ⟨.windows, .authentihash, .sha256, v⟩

/-- A sample of the dataset has this digest under the flat key. -/
def HasFlatDigest (entries : List PyVal) (x : Text) : Prop :=
  ∃ e ∈ entries, ∃ samples, entrySamples e = .ok samples ∧
    ∃ sample ∈ samples, ∃ s, sample.get "AuthentihashSHA256" = .ok (.str s) ∧ lower (strip s) = x

/-- A source alone in a database has a row for every signature it mentions. -/
theorem exists_row_iff {s : Nat} {ms : List Mention} (hms : ∀ m ∈ ms, m.1.OnPlatform)
    {k : SigKey} :
    (∃ r ∈ insertAll SigRow.unique [] (ms.map (Mention.row s)), r.key = k) ↔ ∃ c, (k, c) ∈ ms := by
  have hrows : ms.map (Mention.row s) = sourceRows [(s, ms)] := by
    rw [sourceRows, List.flatMap_singleton]
  have hplatform : ∀ p ∈ [(s, ms)], ∀ m ∈ p.2, m.1.OnPlatform := by
    intro p hp
    obtain rfl := List.mem_singleton.mp hp
    exact hms
  rw [hrows]
  constructor
  · rintro ⟨r, hr, rfl⟩
    obtain ⟨p, hp, m, rfl, hfirst⟩ :=
      (mem_insertAll_sourceRows (List.pairwise_singleton _ _) hplatform).mp hr
    obtain rfl := List.mem_singleton.mp hp
    exact ⟨m.2, (firstMention_key hfirst).2⟩
  · rintro ⟨c, hc⟩
    obtain ⟨c', hfirst⟩ := exists_firstMention hc
    refine ⟨Mention.row s (k, c'), ?_, rfl⟩
    exact (mem_insertAll_sourceRows (List.pairwise_singleton _ _) hplatform).mpr
      ⟨_, List.mem_singleton.mpr rfl, (k, c'), rfl, hfirst⟩

/-- Both tools read the nested digest alike. -/
theorem clean_nested {sample : PyVal} {x : Text} (h : sampleDigest sample = .ok x) :
    clean (((sample.field "Authentihash").orElse (.dict [])).field "SHA256") = x := by
  obtain ⟨auth, hauth, h⟩ := bind_eq_ok.mp h
  obtain ⟨digest, hdigest, h⟩ := bind_eq_ok.mp h
  obtain ⟨y, hy, rfl⟩ := map_eq_ok.mp h
  obtain ⟨s, hs, rfl⟩ := strip_eq_ok hy
  rw [PyVal.field_of_get hauth, PyVal.field_of_get hdigest]
  rw [PyVal.orElse] at hs
  by_cases htruthy : digest.truthy = true
  · rw [if_pos htruthy] at hs
    rw [hs]
    rfl
  · rw [if_neg htruthy] at hs
    obtain rfl : [] = s := PyVal.str.inj hs
    cases digest with
    | str s =>
        cases s with
        | nil => rfl
        | cons c rest => exact absurd rfl htruthy
    | none | bool | int | float | list | dict => rfl

theorem clean_eq_iff {v : PyVal} {x : Text} (hx : isHex 64 x = true) :
    clean v = x ↔ ∃ s, v = .str s ∧ lower (strip s) = x := by
  have hne : ([] : Text) ≠ x := by
    rintro rfl
    exact absurd hx (by decide)
  cases v with
  | str s => exact ⟨fun h => ⟨s, rfl, h⟩, fun ⟨s', hs, h⟩ => PyVal.str.inj hs ▸ h⟩
  | none | bool | int | float | list | dict =>
      exact ⟨fun h => absurd h hne, fun ⟨s, hs, _⟩ => absurd hs nofun⟩

theorem field_eq_str {v : PyVal} {key : String} {s : Text} :
    v.field key = .str s ↔ v.get key = .ok (.str s) := by
  rw [PyVal.field]
  cases v.get key with
  | error e => simp
  | ok w => rw [Except.ok.injEq]

/-- The Authentihashes a sample mentions. -/
theorem mem_sampleMentions {klass c : SigClass} {sample : PyVal} {x : Text} :
    (⟨.windows, .authentihash, .sha256, x⟩, c) ∈ sampleMentions klass sample ↔
      isHex 64 x = true ∧ c = klass ∧
        (clean (((sample.field "Authentihash").orElse (.dict [])).field "SHA256") = x ∨
          clean (sample.field "AuthentihashSHA256") = x) := by
  have hflat : "Authentihash" ++ SigAlgo.sha256.upper = "AuthentihashSHA256" := by decide
  simp only [sampleMentions, sampleAlgos, sampleRaws, List.flatMap_cons, List.flatMap_nil,
    List.append_nil, List.mem_append, mem_rawMention, Prod.mk.injEq, SigKey.mk.injEq, true_and,
    reduceCtorEq, false_and, and_false, or_false, hflat]
  constructor
  · rintro (⟨⟨rfl, rfl⟩, hhex⟩ | ⟨⟨rfl, rfl⟩, hhex⟩)
    · exact ⟨hhex, rfl, .inl rfl⟩
    · exact ⟨hhex, rfl, .inr rfl⟩
  · rintro ⟨hhex, rfl, rfl | rfl⟩
    · exact .inl ⟨⟨rfl, rfl⟩, hhex⟩
    · exact .inr ⟨⟨rfl, rfl⟩, hhex⟩

/-- On a dataset that `build_table` reads, the database has the nested and the flat digests. -/
theorem mem_lolMentions {entries : List PyVal} {rs : List (Text × List Text)}
    (h : entries.mapM entryReads = .ok rs) {x : Text} :
    (∃ c, (⟨.windows, .authentihash, .sha256, x⟩, c) ∈ lolMentions entries) ↔
      isHex 64 x = true ∧ (HasDigest entries x ∨ HasFlatDigest entries x) := by
  constructor
  · rintro ⟨c, hc⟩
    obtain ⟨e, he, hc⟩ := List.mem_flatMap.mp hc
    obtain ⟨r, hr⟩ := ok_of_mapM h he
    obtain ⟨hcategory, samples, hsamples, hdigests⟩ := entryReads_eq_ok hr
    rw [entryMentions, hcategory, hsamples] at hc
    obtain ⟨sample, hsample, hc⟩ := List.mem_flatMap.mp hc
    obtain ⟨hhex, -, hnested | hflat⟩ := mem_sampleMentions.mp hc
    · obtain ⟨y, hy⟩ := ok_of_mapM hdigests hsample
      rw [clean_nested hy] at hnested
      exact ⟨hhex, .inl ⟨e, he, samples, hsamples, sample, hsample, hnested ▸ hy⟩⟩
    · obtain ⟨s, hs, hlow⟩ := (clean_eq_iff hhex).mp hflat
      exact ⟨hhex, .inr ⟨e, he, samples, hsamples, sample, hsample, s, field_eq_str.mp hs, hlow⟩⟩
  · -- The class is that of the entry the digest was found in.
    have hmem : ∀ e ∈ entries, ∀ samples, entrySamples e = .ok samples → ∀ sample ∈ samples,
        ∀ m : SigClass → Mention, (∀ klass, m klass ∈ sampleMentions klass sample) →
        ∃ c, m c ∈ lolMentions entries := by
      intro e he samples hsamples sample hsample m hm
      obtain ⟨r, hr⟩ := ok_of_mapM h he
      obtain ⟨hcategory, -⟩ := entryReads_eq_ok hr
      refine ⟨entryClass r.1, List.mem_flatMap.mpr ⟨e, he, ?_⟩⟩
      rw [entryMentions, hcategory, hsamples]
      exact List.mem_flatMap.mpr ⟨sample, hsample, hm _⟩
    rintro ⟨hhex, ⟨e, he, samples, hsamples, sample, hsample, hdigest⟩ |
      ⟨e, he, samples, hsamples, sample, hsample, s, hs, hlow⟩⟩
    · refine hmem e he samples hsamples sample hsample (Prod.mk _) fun klass => ?_
      exact mem_sampleMentions.mpr ⟨hhex, rfl, .inl (clean_nested hdigest)⟩
    · refine hmem e he samples hsamples sample hsample (Prod.mk _) fun klass => ?_
      have hflat := (clean_eq_iff hhex).mpr ⟨s, field_eq_str.mpr hs, hlow⟩
      exact mem_sampleMentions.mpr ⟨hhex, rfl, .inr hflat⟩

/-- The database has the same digests as the built-in table exactly when no digest of the dataset
stands under the flat key alone. -/
theorem database_agrees_with_table (entries : List PyVal) (t : DigestTable) (stats : TableStats)
    (db : Db) (n : Nat) (htable : buildTable entries = .ok (t, stats))
    (himport : importLoldrivers .empty entries = .ok (db, n)) :
    (∀ v, db.StoresAuthentihash v ↔ v ∈ t) ↔
      ∀ v, isHex 64 v = true → HasFlatDigest entries v → HasDigest entries v := by
  have hstores : ∀ v, db.StoresAuthentihash v ↔
      isHex 64 v = true ∧ (HasDigest entries v ∨ HasFlatDigest entries v) := by
    intro v
    obtain ⟨stats₀, heq⟩ := buildTable_eq entries
    rw [heq] at htable
    obtain ⟨rs, hrs, -⟩ := map_eq_ok.mp htable
    rw [← mem_lolMentions hrs, ← exists_row_iff fun m hm => (lolMentions_spec hm).1,
      Db.StoresAuthentihash, (importLoldrivers_imported himport).signatures]
    rfl
  have hkeys := (buildTable_spec htable).keys
  constructor
  · intro hsame v hhex hflat
    have hstored := (hstores v).mpr ⟨hhex, .inr hflat⟩
    exact ((hkeys v).mp ((hsame v).mp hstored)).2
  · intro hcond v
    rw [hstores v, hkeys v]
    constructor
    · rintro ⟨hhex, hnested | hflat⟩
      · exact ⟨hhex, hnested⟩
      · exact ⟨hhex, hcond v hhex hflat⟩
    · rintro ⟨hhex, hnested⟩
      exact ⟨hhex, .inl hnested⟩

/-- A dataset of one entry with one sample. -/
def sampleEntry (sample : List (Text × PyVal)) : List PyVal :=
  [.dict [("Id".toList, .str ['a']),
    ("KnownVulnerableSamples".toList, .list [.dict sample])]]

/-- The digest stands under both keys. -/
def bothKeys : List PyVal :=
  sampleEntry [("Authentihash".toList, .dict [("SHA256".toList, .str (List.replicate 64 'A'))]),
    ("AuthentihashSHA256".toList, .str (List.replicate 64 'a'))]

/-- The digest stands under the flat key alone. -/
def flatKey : List PyVal :=
  sampleEntry [("AuthentihashSHA256".toList, .str (List.replicate 64 '5'))]

theorem database_agrees_bothKeys :
    ∃ t stats db n, buildTable bothKeys = .ok (t, stats) ∧
      importLoldrivers .empty bothKeys = .ok (db, n) ∧ ∀ v, db.StoresAuthentihash v ↔ v ∈ t := by
  obtain ⟨t, stats, htable⟩ : ∃ t stats, buildTable bothKeys = .ok (t, stats) := ⟨_, _, rfl⟩
  obtain ⟨db, n, himport⟩ : ∃ db n, importLoldrivers .empty bothKeys = .ok (db, n) := ⟨_, _, rfl⟩
  refine ⟨t, stats, db, n, htable, himport,
    (database_agrees_with_table bothKeys t stats db n htable himport).mpr fun v hhex hflat => ?_⟩
  obtain ⟨e, he, samples, hsamples, sample, hsample, s, hs, rfl⟩ := hflat
  obtain rfl := List.mem_singleton.mp he
  obtain rfl := Except.ok.inj hsamples
  obtain rfl := List.mem_singleton.mp hsample
  obtain rfl := PyVal.str.inj (Except.ok.inj hs)
  exact ⟨_, List.mem_singleton.mpr rfl, _, rfl, _, List.mem_singleton.mpr rfl, rfl⟩

theorem database_has_flatKey :
    ∃ t stats db n, buildTable flatKey = .ok (t, stats) ∧
      importLoldrivers .empty flatKey = .ok (db, n) ∧
      db.StoresAuthentihash (List.replicate 64 '5') ∧ List.replicate 64 '5' ∉ t := by
  obtain ⟨t, stats, htable⟩ : ∃ t stats, buildTable flatKey = .ok (t, stats) := ⟨_, _, rfl⟩
  obtain ⟨db, n, himport⟩ : ∃ db n, importLoldrivers .empty flatKey = .ok (db, n) := ⟨_, _, rfl⟩
  have hcard : (buildTable flatKey).toOption.map (fun r => r.1.keys.card) = some 0 := by
    decide +kernel
  have hrows : (importLoldrivers .empty flatKey).toOption.map (fun r => r.1.signatures) =
      some [⟨1, ⟨.windows, .authentihash, .sha256, List.replicate 64 '5'⟩, .vulnerable⟩] := by
    decide +kernel
  rw [htable] at hcard
  rw [himport] at hrows
  refine ⟨t, stats, db, n, htable, himport, ?_, fun hmem => ?_⟩
  · have hrows : db.signatures = _ := Option.some.inj hrows
    rw [Db.StoresAuthentihash, hrows]
    exact ⟨_, List.mem_singleton.mpr rfl, rfl⟩
  · have hnone := Finset.card_eq_zero.mp (Option.some.inj hcard)
    have hkey := Finmap.mem_keys.mpr hmem
    rw [hnone] at hkey
    exact absurd hkey (Finset.notMem_empty _)

end KernelGuard
