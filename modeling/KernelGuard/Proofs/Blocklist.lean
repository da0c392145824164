/-
When the view shows the worst class.

The view takes the worst of the rows it finds, but a source has only one row for a signature:
the first one it mentioned (`FirstWins`).  The header and the local lists never mention a
signature with two classes.  The dataset does, as soon as a malicious entry and another one
list the same sample, and then the order of its entries shows in the view.

A rank orders the three classes, and the view's expression is the largest rank of
the rows of a signature.  So the theorem comes down to which rows there are: one for
each source that names the signature, with the class of its first mention, and that
class is the worst one unless a worse mention of the same source came later.
-/
import KernelGuard.Proofs.BlocklistRows

namespace KernelGuard

open Loops FirstWins

/-! ### The worst of some classes

The view computes with numbers and turns the largest of them back into a class.  The
ranks are distinct, so nothing is lost on the way.
-/

/-- The worst class with this property. -/
structure IsWorst (c : SigClass) (P : SigClass → Prop) : Prop where
  among : P c
  worst : ∀ c', P c' → c'.rank ≤ c.rank

theorem classOfRank_rank (c : SigClass) : classOfRank c.rank = c := by
  cases c with
  | deny => rfl
  | vulnerable => rfl
  | malicious => rfl

theorem eq_malicious_of_rank {c : SigClass} (h : 3 ≤ c.rank) : c = .malicious := by
  cases c with
  | deny => exact absurd h (by decide)
  | vulnerable => exact absurd h (by decide)
  | malicious => rfl

theorem foldl_max_spec (l : List Nat) (a : Nat) :
    a ≤ l.foldl max a ∧ (∀ x ∈ l, x ≤ l.foldl max a) ∧ (l.foldl max a = a ∨ l.foldl max a ∈ l) := by
  induction l generalizing a with
  | nil => exact ⟨Nat.le_refl a, fun x hx => absurd hx List.not_mem_nil, .inl rfl⟩
  | cons y rest ih =>
      obtain ⟨hstart, hall, hin⟩ := ih (max a y)
      rw [List.foldl_cons]
      refine ⟨by omega, fun x hx => ?_, ?_⟩
      · rcases List.mem_cons.mp hx with rfl | hx
        · omega
        · exact hall x hx
      · rcases hin with heq | hmem
        · rcases Nat.le_total a y with hle | hle
          · exact .inr (List.mem_cons.mpr (.inl (by omega)))
          · exact .inl (by omega)
        · exact .inr (List.mem_cons_of_mem y hmem)

/-- The view's expression for a class. -/
theorem isWorst_maxRank {l : List SigClass} (h : l ≠ []) :
    IsWorst (classOfRank ((l.map SigClass.rank).foldl max 0)) (· ∈ l) := by
  obtain ⟨-, hall, hin⟩ := foldl_max_spec (l.map SigClass.rank) 0
  have hmem : (l.map SigClass.rank).foldl max 0 ∈ l.map SigClass.rank := by
    rcases hin with hzero | hmem
    · obtain ⟨c, rest, rfl⟩ := List.exists_cons_of_ne_nil h
      have hc := hall c.rank (by simp)
      rw [hzero] at hc
      cases c with
      | deny => exact absurd hc (by decide)
      | vulnerable => exact absurd hc (by decide)
      | malicious => exact absurd hc (by decide)
    · exact hmem
  obtain ⟨c, hc, hrank⟩ := List.mem_map.mp hmem
  rw [← hrank, classOfRank_rank]
  refine ⟨hc, fun c' hc' => ?_⟩
  rw [hrank]
  exact hall _ (List.mem_map_of_mem hc')

/-- The rows of a key have this class among them. -/
def Db.HasClass (db : Db) (k : SigKey) (c : SigClass) : Prop :=
  ∃ r ∈ db.signatures, r.key = k ∧ r.klass = c

theorem blocklist_spec (db : Db) (k : SigKey) :
    (db.blocklist k = none ∧ ∀ c, ¬db.HasClass k c) ∨
      ∃ row, db.blocklist k = some row ∧ IsWorst row.klass (db.HasClass k) := by
  have hgroup : ∀ c, db.HasClass k c ↔
      c ∈ (db.signatures.filter fun r => decide (r.key = k)).map SigRow.klass := by
    intro c
    rw [Db.HasClass, List.mem_map]
    constructor
    · rintro ⟨r, hr, hk, hc⟩
      exact ⟨r, List.mem_filter.mpr ⟨hr, by simpa using hk⟩, hc⟩
    · rintro ⟨r, hr, hc⟩
      obtain ⟨hr, hk⟩ := List.mem_filter.mp hr
      exact ⟨r, hr, by simpa using hk, hc⟩
  rw [Db.blocklist]
  cases hg : db.signatures.filter fun r => decide (r.key = k) with
  | nil =>
      left
      refine ⟨rfl, fun c hc => ?_⟩
      rw [hgroup, hg] at hc
      exact absurd hc List.not_mem_nil
  | cons r rest =>
      right
      refine ⟨_, rfl, ?_⟩
      have hworst := isWorst_maxRank (l := (r :: rest).map SigRow.klass) (by simp)
      rw [List.map_map] at hworst
      refine ⟨?_, fun c' hc' => ?_⟩
      · rw [hgroup, hg]
        exact hworst.among
      · rw [hgroup, hg] at hc'
        exact hworst.worst c' hc'

/-! ### One row for each source

`INSERT OR IGNORE` on a key that includes the source keeps the first mention of a
signature and drops the later ones.  The rows of different sources never meet, so a
build is described by the mentions of each source alone, each cut down to its first
ones.
-/

/-- The platform goes with the kind. -/
def SigKey.OnPlatform (k : SigKey) : Prop :=
  k.platform = match k.kind with
    | .module => .linux
    | _ => .windows

theorem unique_iff {s s' : Nat} {m m' : Mention} (h : m.1.OnPlatform) (h' : m'.1.OnPlatform) :
    (Mention.row s m).unique = (Mention.row s' m').unique ↔ s = s' ∧ m.1 = m'.1 := by
  obtain ⟨⟨platform, kind, algo, value⟩, c⟩ := m
  obtain ⟨⟨platform', kind', algo', value'⟩, c'⟩ := m'
  simp only [Mention.row, SigRow.unique, Prod.mk.injEq, SigKey.mk.injEq]
  constructor
  · rintro ⟨rfl, rfl, rfl, rfl⟩
    exact ⟨rfl, h.trans h'.symm, rfl, rfl, rfl⟩
  · rintro ⟨rfl, -, rfl, rfl, rfl⟩
    exact ⟨rfl, rfl, rfl, rfl⟩

/-- The first mention of a signature. -/
def firstMention (ms : List Mention) (k : SigKey) : Option Mention :=
  ms.find? fun m => decide (m.1 = k)

theorem firstMention_key {ms : List Mention} {k : SigKey} {m : Mention}
    (h : firstMention ms k = some m) : m.1 = k ∧ m ∈ ms :=
  ⟨by simpa using List.find?_some h, List.mem_of_find?_eq_some h⟩

theorem exists_firstMention {ms : List Mention} {k : SigKey} {c : SigClass} (h : (k, c) ∈ ms) :
    ∃ c', firstMention ms k = some (k, c') := by
  obtain ⟨m, hm⟩ : ∃ m, firstMention ms k = some m := by
    rw [← Option.isSome_iff_exists, firstMention, List.find?_isSome]
    exact ⟨(k, c), h, by simp⟩
  obtain ⟨rfl, -⟩ := firstMention_key hm
  exact ⟨m.2, hm⟩

/-- Looking for a row of a source among its mentions. -/
theorem find?_row {s s' : Nat} {ms : List Mention} {m : Mention}
    (hms : ∀ m ∈ ms, m.1.OnPlatform) (hm : m.1.OnPlatform) :
    (ms.map (Mention.row s)).find? (fun r => decide (r.unique = (Mention.row s' m).unique)) =
      if s = s' then (firstMention ms m.1).map (Mention.row s) else none := by
  rw [List.find?_map]
  by_cases hs : s = s'
  · rw [if_pos hs, firstMention, ← List.head?_filter, ← List.head?_filter]
    congr 2
    apply List.filter_congr
    intro m' hm'
    simp only [Function.comp_apply, unique_iff (hms m' hm') hm, hs, true_and]
  · rw [if_neg hs, Option.map_eq_none_iff, List.find?_eq_none]
    intro m' hm'
    simp only [Function.comp_apply, unique_iff (hms m' hm') hm, hs, false_and, decide_false,
      Bool.false_eq_true, not_false_eq_true]

theorem mem_rawMention {klass : SigClass} {algo : SigAlgo} {size : Nat} {raw : SigKind × PyVal}
    {m : Mention} :
    m ∈ rawMention klass algo size raw ↔
      m = (⟨.windows, raw.1, algo, clean raw.2⟩, klass) ∧ isHex size (clean raw.2) = true := by
  rw [rawMention]
  split
  · rename_i hhex
    rw [List.mem_singleton, and_iff_left hhex]
  · rename_i hhex
    exact ⟨fun h => absurd h List.not_mem_nil, fun h => absurd h.2 hhex⟩

theorem sampleMentions_spec {klass : SigClass} {s : PyVal} {m : Mention}
    (h : m ∈ sampleMentions klass s) : m.1.OnPlatform ∧ m.2 = klass := by
  rw [sampleMentions, List.mem_flatMap] at h
  obtain ⟨p, -, h⟩ := h
  obtain ⟨raw, hraw, h⟩ := List.mem_flatMap.mp h
  obtain ⟨rfl, -⟩ := mem_rawMention.mp h
  simp only [sampleRaws, List.mem_cons, List.not_mem_nil, or_false] at hraw
  rcases hraw with rfl | rfl | rfl
  · exact ⟨rfl, rfl⟩
  · exact ⟨rfl, rfl⟩
  · exact ⟨rfl, rfl⟩

theorem lolMentions_spec {entries : List PyVal} {m : Mention} (h : m ∈ lolMentions entries) :
    m.1.OnPlatform ∧ 2 ≤ m.2.rank := by
  rw [lolMentions, List.mem_flatMap] at h
  obtain ⟨e, -, h⟩ := h
  rw [entryMentions] at h
  split at h
  · obtain ⟨s, -, h⟩ := List.mem_flatMap.mp h
    obtain ⟨hplatform, hclass⟩ := sampleMentions_spec h
    refine ⟨hplatform, ?_⟩
    rw [hclass, entryClass]
    split
    · decide
    · decide
  · exact absurd h List.not_mem_nil

/-- The header mentions a signature with one class only. -/
theorem headerMentions_spec {text : Text} {m : Mention} (h : m ∈ headerMentions text) :
    m.1.OnPlatform ∧ ∀ m' ∈ headerMentions text, m'.1 = m.1 → m' = m := by
  rw [headerMentions] at h ⊢
  split at h
  · obtain ⟨d, -, rfl⟩ := List.mem_map.mp h
    refine ⟨rfl, fun m' hm' hkey => ?_⟩
    obtain ⟨d', -, rfl⟩ := List.mem_map.mp hm'
    obtain rfl : d' = d := congrArg SigKey.value hkey
    rfl
  · exact absurd h List.not_mem_nil

theorem localKey_onPlatform {file : LocalFile} {line : Text} {k : SigKey}
    (h : localKey file line = some k) : k.OnPlatform := by
  obtain ⟨v, -, h⟩ := Option.bind_eq_some_iff.mp h
  cases file with
  | sha256Deny =>
      dsimp only at h
      split at h
      · obtain rfl := Option.some.inj h
        rfl
      · exact absurd h nofun
  | modulesDeny =>
      dsimp only at h
      split at h
      · obtain rfl := Option.some.inj h
        rfl
      · exact absurd h nofun

theorem fileMentions_spec {file : LocalFile} {text : Option Text} {m : Mention}
    (h : m ∈ fileMentions file text) : m.1.OnPlatform ∧ m.2 = .deny := by
  cases text with
  | none => exact absurd h List.not_mem_nil
  | some text =>
      obtain ⟨line, -, h⟩ := List.mem_flatMap.mp h
      rw [lineMention] at h
      split at h
      · exact absurd h List.not_mem_nil
      · rename_i k hk
        obtain rfl := List.mem_singleton.mp h
        exact ⟨localKey_onPlatform hk, rfl⟩

section

variable {a : BuildInputs} {m : Mention}

theorem BuildInputs.lol_spec (h : m ∈ a.lol) : m.1.OnPlatform ∧ 2 ≤ m.2.rank := by
  rw [BuildInputs.lol] at h
  cases hlol : a.loldrivers with
  | none =>
      rw [hlol] at h
      exact absurd h List.not_mem_nil
  | some entries =>
      rw [hlol] at h
      exact lolMentions_spec h

theorem BuildInputs.hdr_spec (h : m ∈ a.hdr) :
    m.1.OnPlatform ∧ ∀ m' ∈ a.hdr, m'.1 = m.1 → m' = m := by
  rw [BuildInputs.hdr] at h ⊢
  cases hhdr : a.header with
  | none =>
      rw [hhdr] at h
      exact absurd h List.not_mem_nil
  | some text =>
      rw [hhdr] at h
      exact headerMentions_spec h

theorem BuildInputs.loc_spec (h : m ∈ a.loc) : m.1.OnPlatform ∧ m.2 = .deny := by
  rw [BuildInputs.loc, localMentions] at h
  rcases List.mem_append.mp h with h | h
  · exact fileMentions_spec h
  · exact fileMentions_spec h

end

theorem row_inj {s : Nat} {m m' : Mention} (h : Mention.row s m = Mention.row s m') : m = m' :=
  Prod.ext (congrArg SigRow.key h) (congrArg SigRow.klass h)

theorem map_row_eq {s : Nat} {o : Option Mention} {m : Mention} :
    o.map (Mention.row s) = some (Mention.row s m) ↔ o = some m := by
  rw [Option.map_eq_some_iff]
  constructor
  · rintro ⟨m', rfl, heq⟩
    rw [row_inj heq]
  · rintro rfl
    exact ⟨m, rfl, rfl⟩

/-- The rows of the sources, which come one after the other. -/
def sourceRows (src : List (Nat × List Mention)) : List SigRow :=
  src.flatMap fun p => p.2.map (Mention.row p.1)

/-- The first row of a signature under an id is the first mention of it by the source. -/
theorem find?_sourceRows {src : List (Nat × List Mention)}
    (hids : src.Pairwise fun p q => p.1 ≠ q.1)
    (hplatform : ∀ p ∈ src, ∀ m ∈ p.2, m.1.OnPlatform) {r : SigRow} :
    (sourceRows src).find? (fun y => decide (y.unique = r.unique)) = some r ↔
      ∃ p ∈ src, ∃ m, Mention.row p.1 m = r ∧ firstMention p.2 m.1 = some m := by
  induction src with
  | nil => simp [sourceRows]
  | cons p rest ih =>
      obtain ⟨hne, hids⟩ := List.pairwise_cons.mp hids
      have hhead := hplatform p List.mem_cons_self
      have ih := ih hids fun q hq => hplatform q (List.mem_cons_of_mem p hq)
      rw [sourceRows, List.flatMap_cons, List.find?_append, Option.or_eq_some_iff]
      constructor
      · rintro (hfirst | ⟨-, hrest⟩)
        · obtain ⟨m, hm, rfl⟩ := List.mem_map.mp (List.mem_of_find?_eq_some hfirst)
          rw [find?_row hhead (hhead m hm), if_pos rfl, map_row_eq] at hfirst
          exact ⟨p, List.mem_cons_self, m, rfl, hfirst⟩
        · obtain ⟨q, hq, hrow⟩ := ih.mp hrest
          exact ⟨q, List.mem_cons_of_mem p hq, hrow⟩
      · rintro ⟨q, hq, m, rfl, hfirst⟩
        have hm := hplatform q hq m (firstMention_key hfirst).2
        rw [find?_row hhead hm]
        rcases List.mem_cons.mp hq with rfl | hq
        · rw [if_pos rfl, map_row_eq]
          exact .inl hfirst
        · rw [if_neg (hne q hq)]
          exact .inr ⟨rfl, ih.mpr ⟨q, hq, m, rfl, hfirst⟩⟩

theorem mem_insertAll_sourceRows {src : List (Nat × List Mention)}
    (hids : src.Pairwise fun p q => p.1 ≠ q.1)
    (hplatform : ∀ p ∈ src, ∀ m ∈ p.2, m.1.OnPlatform) {r : SigRow} :
    r ∈ insertAll SigRow.unique [] (sourceRows src) ↔
      ∃ p ∈ src, ∃ m, Mention.row p.1 m = r ∧ firstMention p.2 m.1 = some m := by
  rw [mem_insertAll, ← find?_sourceRows hids hplatform]
  simp

/-- The mentions of a build, source by source. -/
def BuildInputs.mentions (a : BuildInputs) : List (List Mention) := [a.lol, a.hdr, a.loc]

theorem BuildInputs.mentions_onPlatform {a : BuildInputs} {ms : List Mention}
    (hms : ms ∈ a.mentions) : ∀ m ∈ ms, m.1.OnPlatform := by
  intro m hm
  simp only [BuildInputs.mentions, List.mem_cons, List.not_mem_nil, or_false] at hms
  rcases hms with rfl | rfl | rfl
  · exact (BuildInputs.lol_spec hm).1
  · exact (BuildInputs.hdr_spec hm).1
  · exact (BuildInputs.loc_spec hm).1

/-- The rows of a build are the first mentions of its sources. -/
theorem hasClass_iff {a : BuildInputs} {db : Db} (h : buildTo a = .ok db) {k : SigKey}
    (c : SigClass) :
    db.HasClass k c ↔ ∃ ms ∈ a.mentions, firstMention ms k = some (k, c) := by
  obtain ⟨s₁, s₂, s₃, h₁₂, h₁₃, h₂₃, hsig⟩ := buildTo_signatures h
  have hrows : db.signatures =
      insertAll SigRow.unique [] (sourceRows ([s₁, s₂, s₃].zip a.mentions)) := by
    rw [hsig, List.append_assoc]
    simp [sourceRows, BuildInputs.mentions]
  have hids : ([s₁, s₂, s₃].zip a.mentions).Pairwise fun p q => p.1 ≠ q.1 := by
    simp [BuildInputs.mentions, h₁₂, h₁₃, h₂₃]
  have hplatform : ∀ p ∈ [s₁, s₂, s₃].zip a.mentions, ∀ m ∈ p.2, m.1.OnPlatform :=
    fun p hp => BuildInputs.mentions_onPlatform (List.of_mem_zip hp).2
  rw [Db.HasClass, hrows]
  constructor
  · rintro ⟨r, hr, rfl, rfl⟩
    obtain ⟨p, hp, m, rfl, hfirst⟩ := (mem_insertAll_sourceRows hids hplatform).mp hr
    exact ⟨p.2, (List.of_mem_zip hp).2, hfirst⟩
  · rintro ⟨ms, hms, hfirst⟩
    obtain ⟨s, hs⟩ : ∃ s, (s, ms) ∈ [s₁, s₂, s₃].zip a.mentions := by
      simp only [BuildInputs.mentions, List.mem_cons, List.not_mem_nil, or_false] at hms
      rcases hms with rfl | rfl | rfl
      · exact ⟨s₁, by simp [BuildInputs.mentions]⟩
      · exact ⟨s₂, by simp [BuildInputs.mentions]⟩
      · exact ⟨s₃, by simp [BuildInputs.mentions]⟩
    refine ⟨Mention.row s (k, c), ?_, rfl, rfl⟩
    exact (mem_insertAll_sourceRows hids hplatform).mpr ⟨_, hs, (k, c), rfl, hfirst⟩

/-! ### The view

Of the three sources two name a signature with one class only, and for them the
first mention is as good as any.  What remains is the dataset, where the condition of
the theorem speaks of the order of its entries.
-/

/-- A source of the build names the signature with this class. -/
def BuildInputs.Names (a : BuildInputs) (k : SigKey) (c : SigClass) : Prop :=
  (k, c) ∈ a.lol ∨ (k, c) ∈ a.hdr ∨ (k, c) ∈ a.loc

/-- The view has a row for the signature when a source names it, with the worst class. -/
def ShowsWorst (a : BuildInputs) (db : Db) (k : SigKey) : Prop :=
  (db.blocklist k = none ∧ ∀ c, ¬a.Names k c) ∨
    ∃ row, db.blocklist k = some row ∧ IsWorst row.klass (a.Names k)

theorem names_iff {a : BuildInputs} {k : SigKey} {c : SigClass} :
    a.Names k c ↔ ∃ ms ∈ a.mentions, (k, c) ∈ ms := by
  simp [BuildInputs.Names, BuildInputs.mentions]

theorem names_of_hasClass {a : BuildInputs} {db : Db} (h : buildTo a = .ok db) {k : SigKey}
    {c : SigClass} (hc : db.HasClass k c) : a.Names k c := by
  obtain ⟨ms, hms, hfirst⟩ := (hasClass_iff h c).mp hc
  exact names_iff.mpr ⟨ms, hms, (firstMention_key hfirst).2⟩

/-- Of what a source names, the first mention is in the table. -/
theorem hasClass_of_mem {a : BuildInputs} {db : Db} (h : buildTo a = .ok db) {k : SigKey}
    {c : SigClass} {ms : List Mention} (hms : ms ∈ a.mentions) (hc : (k, c) ∈ ms) :
    ∃ c', db.HasClass k c' ∧ (k, c') ∈ ms := by
  obtain ⟨c', hfirst⟩ := exists_firstMention hc
  exact ⟨c', (hasClass_iff h c').mpr ⟨ms, hms, hfirst⟩, (firstMention_key hfirst).2⟩

/-- The header and the local lists are folded in whole, and of the dataset what is not malicious. -/
theorem hasClass_above {a : BuildInputs} {db : Db} (h : buildTo a = .ok db) {k : SigKey}
    {c : SigClass} (hc : a.Names k c) (hlol : (k, c) ∈ a.lol → c ≠ .malicious) :
    ∃ c', db.HasClass k c' ∧ c.rank ≤ c'.rank := by
  rcases hc with hc | hc | hc
  · obtain ⟨c', hc', hmem⟩ := hasClass_of_mem h (by simp [BuildInputs.mentions]) hc
    refine ⟨c', hc', ?_⟩
    have hrank := (BuildInputs.lol_spec hmem).2
    have hle : c.rank ≤ 2 := by
      have hne := hlol hc
      cases c with
      | deny => decide
      | vulnerable => decide
      | malicious => exact absurd rfl hne
    exact Nat.le_trans hle hrank
  · obtain ⟨c', hc', hmem⟩ := hasClass_of_mem h (by simp [BuildInputs.mentions]) hc
    refine ⟨c', hc', ?_⟩
    have hsame := (BuildInputs.hdr_spec hc).2 _ hmem rfl
    rw [(Prod.mk.inj hsame).2]
  · obtain ⟨c', hc', hmem⟩ := hasClass_of_mem h (by simp [BuildInputs.mentions]) hc
    refine ⟨c', hc', ?_⟩
    have hdeny : c = .deny := (BuildInputs.loc_spec hc).2
    have hdeny' : c' = .deny := (BuildInputs.loc_spec hmem).2
    rw [hdeny, hdeny']

/-- The view shows the worst class of every signature exactly when no signature that a malicious
entry of the dataset lists is listed before by an entry that is not, unless the header has it as
malicious. -/
theorem blocklist_worst_iff (a : BuildInputs) (db : Db) (h : buildTo a = .ok db) :
    (∀ k, ShowsWorst a db k) ↔
      ∀ k, (k, SigClass.malicious) ∈ a.lol →
        firstMention a.lol k = some (k, .malicious) ∨ (k, SigClass.malicious) ∈ a.hdr := by
  constructor
  · intro hview k hk
    have hnames : a.Names k .malicious := .inl hk
    rcases hview k with ⟨-, hnone⟩ | ⟨row, hrow, hworst⟩
    · exact absurd hnames (hnone _)
    · have hmal : row.klass = .malicious := eq_malicious_of_rank (hworst.worst _ hnames)
      rcases blocklist_spec db k with ⟨hnone, -⟩ | ⟨row', hrow', hworst'⟩
      · rw [hnone] at hrow
        exact absurd hrow nofun
      · rw [hrow] at hrow'
        obtain rfl := Option.some.inj hrow'
        rw [hmal] at hworst'
        obtain ⟨ms, hms, hfirst⟩ := (hasClass_iff h _).mp hworst'.among
        simp only [BuildInputs.mentions, List.mem_cons, List.not_mem_nil, or_false] at hms
        rcases hms with rfl | rfl | rfl
        · exact .inl hfirst
        · exact .inr (firstMention_key hfirst).2
        · have hdeny : SigClass.malicious = .deny :=
            (BuildInputs.loc_spec (firstMention_key hfirst).2).2
          exact absurd hdeny (by decide)
  · intro hcond k
    rcases blocklist_spec db k with ⟨hnone, hno⟩ | ⟨row, hrow, hworst⟩
    · refine .inl ⟨hnone, fun c hc => ?_⟩
      obtain ⟨ms, hms, hc⟩ := names_iff.mp hc
      obtain ⟨c', hc', -⟩ := hasClass_of_mem h hms hc
      exact hno c' hc'
    · refine .inr ⟨row, hrow, names_of_hasClass h hworst.among, fun c hc => ?_⟩
      by_cases hbad : (k, c) ∈ a.lol ∧ c = .malicious
      · -- The class is malicious, and so is a row of the signature.
        obtain ⟨hlol, rfl⟩ := hbad
        rcases hcond k hlol with hfirst | hhdr
        · exact hworst.worst _ ((hasClass_iff h _).mpr ⟨a.lol, List.mem_cons_self, hfirst⟩)
        · obtain ⟨c', hc', hmem⟩ := hasClass_of_mem h (by simp [BuildInputs.mentions]) hhdr
          have hsame := (BuildInputs.hdr_spec hhdr).2 _ hmem rfl
          rw [(Prod.mk.inj hsame).2] at hc'
          exact hworst.worst _ hc'
      · obtain ⟨c', hc', hle⟩ := hasClass_above h hc fun hlol hmal => hbad ⟨hlol, hmal⟩
        exact Nat.le_trans hle (hworst.worst c' hc')

/-- An entry with an id and one sample, of which the file hash is given. -/
def fileEntry (id category : String) (digest : Text) : PyVal :=
  .dict [("Id".toList, .str id.toList), ("Category".toList, .str category.toList),
    ("KnownVulnerableSamples".toList, .list [.dict [("SHA256".toList, .str digest)]])]

/-- A build from nothing but a dataset. -/
def datasetOnly (entries : List PyVal) : BuildInputs := ⟨some entries, none, none, none⟩

def maliciousFirst : BuildInputs :=
  datasetOnly [fileEntry "a" "malicious" (List.replicate 64 '3'),
    fileEntry "b" "vulnerable driver" (List.replicate 64 '3')]

def maliciousLast : BuildInputs :=
  datasetOnly [fileEntry "b" "vulnerable driver" (List.replicate 64 '3'),
    fileEntry "a" "malicious" (List.replicate 64 '3')]

theorem blocklist_worst_maliciousFirst :
    ∃ db, buildTo maliciousFirst = .ok db ∧ ∀ k, ShowsWorst maliciousFirst db k := by
  obtain ⟨db, hdb⟩ : ∃ db, buildTo maliciousFirst = .ok db := ⟨_, rfl⟩
  refine ⟨db, hdb, (blocklist_worst_iff maliciousFirst db hdb).mpr fun k hk => .inl ?_⟩
  have hall : ∀ m ∈ maliciousFirst.lol, m.2 = .malicious →
      firstMention maliciousFirst.lol m.1 = some m := by
    decide +kernel
  exact hall _ hk rfl

/-- The same two entries the other way round. -/
theorem blocklist_keeps_first_class :
    ∃ db db', buildTo maliciousLast = .ok db ∧ buildTo maliciousFirst = .ok db' ∧
      ¬ShowsWorst maliciousLast db ⟨.windows, .file, .sha256, List.replicate 64 '3'⟩ ∧
      db.blocklist ⟨.windows, .file, .sha256, List.replicate 64 '3'⟩ =
        some ⟨.vulnerable, 1⟩ ∧
      db'.blocklist ⟨.windows, .file, .sha256, List.replicate 64 '3'⟩ =
        some ⟨.malicious, 1⟩ := by
  obtain ⟨db, hdb⟩ : ∃ db, buildTo maliciousLast = .ok db := ⟨_, rfl⟩
  obtain ⟨db', hdb'⟩ : ∃ db, buildTo maliciousFirst = .ok db := ⟨_, rfl⟩
  have hrow : (buildTo maliciousLast).toOption.bind
      (Db.blocklist · ⟨.windows, .file, .sha256, List.replicate 64 '3'⟩) =
        some ⟨.vulnerable, 1⟩ := by
    decide +kernel
  have hrow' : (buildTo maliciousFirst).toOption.bind
      (Db.blocklist · ⟨.windows, .file, .sha256, List.replicate 64 '3'⟩) =
        some ⟨.malicious, 1⟩ := by
    decide +kernel
  rw [hdb] at hrow
  rw [hdb'] at hrow'
  refine ⟨db, db', hdb, hdb', fun hworst => ?_, hrow, hrow'⟩
  have hrow : db.blocklist ⟨.windows, .file, .sha256, List.replicate 64 '3'⟩ =
      some ⟨.vulnerable, 1⟩ := hrow
  rcases hworst with ⟨hnone, -⟩ | ⟨row, heq, hworst⟩
  · rw [hrow] at hnone
    exact absurd hnone nofun
  · rw [hrow] at heq
    obtain rfl := Option.some.inj heq
    have hmal : maliciousLast.Names ⟨.windows, .file, .sha256, List.replicate 64 '3'⟩
        .malicious := .inl (by decide +kernel)
    exact absurd (hworst.worst _ hmal) (by decide)

end KernelGuard
