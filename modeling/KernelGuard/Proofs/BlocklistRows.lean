/-
What the imports put into the table of signatures.

A source mentions signatures, each with a class, in some order; the import inserts them one by
one under the source's id.  The loops that find the mentions can raise, and read one field
after the other, but an import that returns has done nothing else to the table than insert the
mentions (`Grows`).  `lolMentions`, `headerMentions` and `localMentions` are these lists, read
off the inputs without exceptions.

The invariant of every loop is `Grows`, which composes (`Grows.trans`), so a loop is
as good as its rounds and an import as good as its loops.  Exceptions need no case of
their own: a build that raises leaves no database to speak about.
-/
import KernelGuard.Model.BlocklistDb
import KernelGuard.Lib.Loops

namespace KernelGuard

open Loops FirstWins

/-- A signature and the class it is mentioned with. -/
abbrev Mention := SigKey × SigClass

def Mention.row (sid : Nat) (m : Mention) : SigRow := ⟨sid, m.1, m.2⟩

/-- The sources are the same, and the mentions have been inserted. -/
structure Grows (sid : Nat) (db db' : Db) (ms : List Mention) : Prop where
  sources : db'.sources = db.sources
  signatures : db'.signatures = insertAll SigRow.unique db.signatures (ms.map (Mention.row sid))

section

variable {sid : Nat} {db db' db'' : Db} {ms ms' : List Mention}

theorem Grows.refl (sid : Nat) (db : Db) : Grows sid db db [] := ⟨rfl, rfl⟩

theorem Grows.trans (h : Grows sid db db' ms) (h' : Grows sid db' db'' ms') :
    Grows sid db db'' (ms ++ ms') := by
  refine ⟨h'.sources.trans h.sources, ?_⟩
  rw [h'.signatures, h.signatures, List.map_append, insertAll_append]

/-- What holds of the rounds of a loop holds of the loop. -/
theorem Grows.foldlM {α β : Type} (view : β → Db) {f : β → α → Except PyRaise β}
    (mentions : α → List Mention)
    (hstep : ∀ b a b', f b a = .ok b' → Grows sid (view b) (view b') (mentions a)) {l : List α}
    {b b' : β} (h : l.foldlM f b = .ok b') :
    Grows sid (view b) (view b') (l.flatMap mentions) := by
  induction l generalizing b with
  | nil =>
      obtain rfl := Except.ok.inj h
      exact Grows.refl sid _
  | cons a rest ih =>
      rw [List.foldlM_cons] at h
      obtain ⟨c, hc, h⟩ := bind_eq_ok.mp h
      rw [List.flatMap_cons]
      exact (hstep b a c hc).trans (ih h)

theorem addSig_grows (key : SigKey) {klass : SigClass} {s : PyVal}
    (h : addSig db sid key.platform key.kind key.algo key.value klass s = .ok db') :
    Grows sid db db' [(key, klass)] := by
  obtain ⟨_, -, h⟩ := bind_eq_ok.mp h
  obtain rfl := Except.ok.inj h
  exact ⟨rfl, rfl⟩

end

/-! ### The dataset

Each nesting level of the import has its list of mentions and its own lemma, from
the single value up to the whole dataset.  A value that is no digest of the right
size is skipped on both sides, so the lists need no side condition.
-/

/-- `v.get(key)` of a value that has the method. -/
def PyVal.field (v : PyVal) (key : String) : PyVal :=
  match v.get key with
  | .ok w => w
  | .error _ => .none

theorem PyVal.field_of_get {v w : PyVal} {key : String} (h : v.get key = .ok w) :
    v.field key = w := by
  rw [PyVal.field, h]

/-- The mention a value makes, when it is a digest of this size. -/
def rawMention (klass : SigClass) (algo : SigAlgo) (size : Nat) (raw : SigKind × PyVal) :
    List Mention :=
  if isHex size (clean raw.2) then [(⟨.windows, raw.1, algo, clean raw.2⟩, klass)] else []

/-- The nested and the flat Authentihash and the file hash of a sample. -/
def sampleRaws (s : PyVal) (algo : SigAlgo) : List (SigKind × PyVal) :=
  [(.authentihash, ((s.field "Authentihash").orElse (.dict [])).field algo.upper),
    (.authentihash, s.field ("Authentihash" ++ algo.upper)), (.file, s.field algo.upper)]

def sampleMentions (klass : SigClass) (s : PyVal) : List Mention :=
  sampleAlgos.flatMap fun p => (sampleRaws s p.1).flatMap (rawMention klass p.1 p.2)

def entryClass (category : Text) : SigClass :=
  if category = malicious then .malicious else .vulnerable

def entryMentions (e : PyVal) : List Mention :=
  match entryCategory e, entrySamples e with
  | .ok category, .ok samples => samples.flatMap (sampleMentions (entryClass category))
  | _, _ => []

def lolMentions (entries : List PyVal) : List Mention := entries.flatMap entryMentions

theorem addRaw_grows {sid : Nat} {klass : SigClass} {s : PyVal} {algo : SigAlgo} {size : Nat}
    {acc acc' : Db × Nat} {raw : SigKind × PyVal}
    (h : addRaw sid klass s algo size acc raw = .ok acc') :
    Grows sid acc.1 acc'.1 (rawMention klass algo size raw) := by
  rw [addRaw] at h
  rw [rawMention]
  by_cases hhex : isHex size (clean raw.2) = true
  · rw [if_pos hhex] at h ⊢
    obtain ⟨db, hdb, h⟩ := bind_eq_ok.mp h
    obtain rfl := Except.ok.inj h
    exact addSig_grows ⟨.windows, raw.1, algo, clean raw.2⟩ hdb
  · rw [if_neg hhex] at h ⊢
    obtain rfl := Except.ok.inj h
    exact Grows.refl sid _

theorem rawValues_eq {auth s : PyVal} {algo : SigAlgo} {raws : List (SigKind × PyVal)}
    (h : rawValues auth s algo = .ok raws) :
    raws = [(.authentihash, auth.field algo.upper),
      (.authentihash, s.field ("Authentihash" ++ algo.upper)), (.file, s.field algo.upper)] := by
  obtain ⟨nested, hnested, h⟩ := bind_eq_ok.mp h
  obtain ⟨flat, hflat, h⟩ := bind_eq_ok.mp h
  obtain ⟨file, hfile, h⟩ := bind_eq_ok.mp h
  obtain rfl := Except.ok.inj h
  rw [PyVal.field_of_get hnested, PyVal.field_of_get hflat, PyVal.field_of_get hfile]

theorem addSampleSigs_grows {sid : Nat} {klass : SigClass} {acc acc' : Db × Nat} {s : PyVal}
    (h : addSampleSigs sid klass acc s = .ok acc') :
    Grows sid acc.1 acc'.1 (sampleMentions klass s) := by
  obtain ⟨auth, hauth, h⟩ := bind_eq_ok.mp h
  apply Grows.foldlM Prod.fst (fun p => (sampleRaws s p.1).flatMap (rawMention klass p.1 p.2)) _ h
  intro b p b' hround
  obtain ⟨raws, hraws, hround⟩ := bind_eq_ok.mp hround
  rw [sampleRaws, PyVal.field_of_get hauth, ← rawValues_eq hraws]
  exact Grows.foldlM Prod.fst (rawMention klass p.1 p.2)
    (fun _ _ _ hraw => addRaw_grows hraw) hround

theorem addDriver_grows {sid : Nat} {db db' : Db} {e : PyVal} (h : addDriver db sid e = .ok db') :
    Grows sid db db' [] := by
  obtain ⟨id, -, h⟩ := bind_eq_ok.mp h
  obtain ⟨extId, -, h⟩ := bind_eq_ok.mp h
  split at h
  · exact absurd h nofun
  · obtain rfl := Except.ok.inj h
    exact ⟨rfl, rfl⟩

theorem addDriverEntry_grows {sid : Nat} {acc acc' : Db × Nat} {e : PyVal}
    (h : addDriverEntry sid acc e = .ok acc') :
    Grows sid acc.1 acc'.1 (entryMentions e) := by
  obtain ⟨category, hcategory, h⟩ := bind_eq_ok.mp h
  obtain ⟨db, hdb, h⟩ := bind_eq_ok.mp h
  obtain ⟨samples, hsamples, h⟩ := bind_eq_ok.mp h
  rw [entryMentions, hcategory, hsamples]
  have hloop := Grows.foldlM Prod.fst (sampleMentions (entryClass category))
    (fun _ _ _ hsample => addSampleSigs_grows hsample) h
  exact (addDriver_grows hdb).trans hloop

theorem addSource_eq {db db' : Db} {name : String} {sid : Nat}
    (h : addSource db name = .ok (sid, db')) :
    sid = db.sources.length + 1 ∧ db' = { db with sources := db.sources ++ [name] } := by
  rw [addSource] at h
  split at h
  · exact absurd h nofun
  · obtain ⟨rfl, rfl⟩ := Prod.mk.inj (Except.ok.inj h)
    exact ⟨rfl, rfl⟩

/-- A source was added and has mentioned these. -/
structure Imported (name : String) (db db' : Db) (ms : List Mention) : Prop where
  sources : db'.sources = db.sources ++ [name]
  signatures : db'.signatures = insertAll SigRow.unique db.signatures
    (ms.map (Mention.row (db.sources.length + 1)))

theorem importLoldrivers_imported {db : Db} {res : Db × Nat} {entries : List PyVal}
    (h : importLoldrivers db entries = .ok res) :
    Imported "loldrivers" db res.1 (lolMentions entries) := by
  obtain ⟨⟨sid, db₁⟩, hsource, h⟩ := bind_eq_ok.mp h
  obtain ⟨rfl, rfl⟩ := addSource_eq hsource
  have hloop : Grows _ _ res.1 (lolMentions entries) :=
    Grows.foldlM Prod.fst entryMentions (fun _ _ _ => addDriverEntry_grows) h
  exact ⟨hloop.sources, hloop.signatures⟩

/-! ### The header -/

def headerMention (table : DigestTable) (d : Text) : Mention :=
  (⟨.windows, .authentihash, .sha256, d⟩,
    if table.lookup d = some '1' then .malicious else .vulnerable)

def headerMentions (text : Text) : List Mention :=
  match parseExisting text with
  | .ok table => (sortedDigests table).map (headerMention table)
  | .error _ => []

theorem importHeader_imported {db : Db} {res : Db × Nat} {text : Text}
    (h : importHeader db text = .ok res) :
    Imported "header" db res.1 (headerMentions text) := by
  obtain ⟨table, htable, h⟩ := bind_eq_ok.mp h
  obtain ⟨⟨sid, db₁⟩, hsource, h⟩ := bind_eq_ok.mp h
  obtain ⟨rfl, rfl⟩ := addSource_eq hsource
  obtain ⟨db₂, hloop, h⟩ := bind_eq_ok.mp h
  obtain rfl := Except.ok.inj h
  have hgrows := Grows.foldlM id (fun d => [headerMention table d])
    (fun b d b' hround => addSig_grows (headerMention table d).1 hround) hloop
  rw [← List.map_eq_flatMap] at hgrows
  rw [headerMentions, htable]
  exact ⟨hgrows.sources, hgrows.signatures⟩

/-! ### The local lists -/

def lineMention (file : LocalFile) (line : Text) : List Mention :=
  match localKey file line with
  | none => []
  | some k => [(k, .deny)]

def fileMentions (file : LocalFile) (text : Option Text) : List Mention :=
  match text with
  | none => []
  | some text => (splitlines text).flatMap (lineMention file)

def localMentions (sha256Deny modulesDeny : Option Text) : List Mention :=
  fileMentions .sha256Deny sha256Deny ++ fileMentions .modulesDeny modulesDeny

theorem addLocalLine_grows {file : LocalFile} {sid : Nat} {acc acc' : Db × Nat} {line : Text}
    (h : addLocalLine file sid acc line = .ok acc') :
    Grows sid acc.1 acc'.1 (lineMention file line) := by
  rw [addLocalLine] at h
  rw [lineMention]
  cases hkey : localKey file line with
  | none =>
      rw [hkey] at h
      obtain rfl := Except.ok.inj h
      exact Grows.refl sid _
  | some k =>
      rw [hkey] at h
      obtain ⟨db, hdb, h⟩ := bind_eq_ok.mp h
      obtain rfl := Except.ok.inj h
      exact addSig_grows k hdb

theorem localLines_grows {file : LocalFile} {sid : Nat} {acc acc' : Db × Nat} {text : Text}
    (h : (splitlines text).foldlM (addLocalLine file sid) acc = .ok acc') :
    Grows sid acc.1 acc'.1 (fileMentions file (some text)) :=
  Grows.foldlM Prod.fst (lineMention file) (fun _ _ _ hline => addLocalLine_grows hline) h

/-- The first file there is adds the source. -/
theorem importLocalFile_first {db : Db} {n : Nat} {file : LocalFile} {text : Text}
    {res : Option Nat × Db × Nat} (h : importLocalFile (none, db, n) (file, some text) = .ok res) :
    res.1 = some (db.sources.length + 1) ∧
      Imported "local" db res.2.1 (fileMentions file (some text)) := by
  obtain ⟨⟨sid, db₁⟩, hsource, h⟩ := bind_eq_ok.mp h
  obtain ⟨rfl, rfl⟩ := addSource_eq hsource
  obtain ⟨acc, hloop, h⟩ := bind_eq_ok.mp h
  obtain rfl := Except.ok.inj h
  have hgrows := localLines_grows hloop
  exact ⟨rfl, hgrows.sources, hgrows.signatures⟩

/-- A later file adds to it. -/
theorem importLocalFile_later {db : Db} {n sid : Nat} {p : LocalFile × Option Text}
    {res : Option Nat × Db × Nat} (h : importLocalFile (some sid, db, n) p = .ok res) :
    Grows sid db res.2.1 (fileMentions p.1 p.2) := by
  obtain ⟨file, text⟩ := p
  cases text with
  | none =>
      obtain rfl := Except.ok.inj h
      exact Grows.refl sid _
  | some text =>
      obtain ⟨⟨sid', db₁⟩, hsource, h⟩ := bind_eq_ok.mp h
      obtain ⟨rfl, rfl⟩ := Prod.mk.inj (Except.ok.inj hsource)
      obtain ⟨acc, hloop, h⟩ := bind_eq_ok.mp h
      obtain rfl := Except.ok.inj h
      exact localLines_grows hloop

theorem Imported.grow {name : String} {db db' db'' : Db} {ms ms' : List Mention}
    (h : Imported name db db' ms) (h' : Grows (db.sources.length + 1) db' db'' ms') :
    Imported name db db'' (ms ++ ms') := by
  refine ⟨h'.sources.trans h.sources, ?_⟩
  rw [h'.signatures, h.signatures, List.map_append, insertAll_append]

theorem importLocal_cases {db : Db} {res : Db × Nat} {sha256Deny modulesDeny : Option Text}
    (h : importLocal db sha256Deny modulesDeny = .ok res) :
    (localMentions sha256Deny modulesDeny = [] ∧ res.1 = db) ∨
      Imported "local" db res.1 (localMentions sha256Deny modulesDeny) := by
  obtain ⟨out, hfiles, h⟩ := bind_eq_ok.mp h
  obtain rfl := Except.ok.inj h
  rw [List.foldlM_cons] at hfiles
  obtain ⟨mid, hfirst, hfiles⟩ := bind_eq_ok.mp hfiles
  rw [List.foldlM_cons] at hfiles
  obtain ⟨out', hsecond, hend⟩ := bind_eq_ok.mp hfiles
  obtain rfl : out' = out := Except.ok.inj hend
  rw [localMentions]
  cases sha256Deny with
  | none =>
      obtain rfl := Except.ok.inj hfirst
      cases modulesDeny with
      | none =>
          obtain rfl := Except.ok.inj hsecond
          exact .inl ⟨rfl, rfl⟩
      | some text => exact .inr (importLocalFile_first hsecond).2
  | some text =>
      obtain ⟨hsid, himported⟩ := importLocalFile_first hfirst
      obtain ⟨sid, db₁, n⟩ := mid
      obtain rfl : sid = _ := hsid
      exact .inr (himported.grow (importLocalFile_later hsecond))

/-! ### A build

Each stage that adds a source inserts under the next id, which no earlier stage
used.  A stage with nothing to import adds no source and no rows, and is described by
an id that stands for none.
-/

/-- What the dataset, the header and the local lists of a build mention. -/
def BuildInputs.lol (a : BuildInputs) : List Mention := (a.loldrivers.map lolMentions).getD []
def BuildInputs.hdr (a : BuildInputs) : List Mention := (a.header.map headerMentions).getD []
def BuildInputs.loc (a : BuildInputs) : List Mention := localMentions a.sha256Deny a.modulesDeny

/-- A stage of a build that mentions `ms`: under the next id, or, when there is nothing to import,
under an id that stands for none. -/
def Stage (none : Nat) (db db' : Db) (ms : List Mention) : Prop :=
  ∃ sid, db'.signatures = insertAll SigRow.unique db.signatures (ms.map (Mention.row sid)) ∧
    (sid = db.sources.length + 1 ∧ db'.sources.length = db.sources.length + 1 ∨
      sid = none ∧ db'.sources.length = db.sources.length)

theorem Stage.skip (none : Nat) (db : Db) : Stage none db db [] :=
  ⟨none, rfl, .inr ⟨rfl, rfl⟩⟩

theorem Imported.stage {name : String} {db db' : Db} {ms : List Mention}
    (h : Imported name db db' ms) (none : Nat) : Stage none db db' ms := by
  refine ⟨db.sources.length + 1, h.signatures, .inl ⟨rfl, ?_⟩⟩
  rw [h.sources, List.length_append, List.length_singleton]

theorem importIf_stage {α : Type} {run : Db → α → Except PyRaise (Db × Nat)}
    (mentions : α → List Mention) {name : String}
    (hrun : ∀ db x res, run db x = .ok res → Imported name db res.1 (mentions x))
    {db db' : Db} {input : Option α} (h : importIf run db input = .ok db') (none : Nat) :
    Stage none db db' ((input.map mentions).getD []) := by
  cases input with
  | none =>
      obtain rfl := Except.ok.inj h
      exact Stage.skip none _
  | some x =>
      obtain ⟨res, hres, rfl⟩ := map_eq_ok.mp h
      exact (hrun db x res hres).stage none

/-- The stages of a build. -/
theorem buildTo_stages {a : BuildInputs} {db : Db} (h : buildTo a = .ok db) (n₁ n₂ n₃ : Nat) :
    ∃ db₁ db₂, Stage n₁ Db.empty db₁ a.lol ∧ Stage n₂ db₁ db₂ a.hdr ∧ Stage n₃ db₂ db a.loc := by
  obtain ⟨db₁, h₁, h⟩ := bind_eq_ok.mp h
  obtain ⟨db₂, h₂, h⟩ := bind_eq_ok.mp h
  refine ⟨db₁, db₂,
    importIf_stage lolMentions (fun _ _ _ hrun => importLoldrivers_imported hrun) h₁ n₁,
    importIf_stage headerMentions (fun _ _ _ hrun => importHeader_imported hrun) h₂ n₂, ?_⟩
  obtain ⟨res, hres, rfl⟩ := map_eq_ok.mp h
  rw [BuildInputs.loc]
  rcases importLocal_cases hres with ⟨hnone, heq⟩ | himported
  · rw [hnone, heq]
    exact Stage.skip n₃ _
  · exact himported.stage n₃

/-- A build inserts what its sources mention, under ids of their own. -/
theorem buildTo_signatures {a : BuildInputs} {db : Db} (h : buildTo a = .ok db) :
    ∃ s₁ s₂ s₃ : Nat, s₁ ≠ s₂ ∧ s₁ ≠ s₃ ∧ s₂ ≠ s₃ ∧
      db.signatures = insertAll SigRow.unique []
        (a.lol.map (Mention.row s₁) ++ a.hdr.map (Mention.row s₂) ++
          a.loc.map (Mention.row s₃)) := by
  -- No build has more than three sources.
  obtain ⟨db₁, db₂, ⟨s₁, hsig₁, hid₁⟩, ⟨s₂, hsig₂, hid₂⟩, ⟨s₃, hsig₃, hid₃⟩⟩ :=
    buildTo_stages h 4 5 6
  have hempty : Db.empty.sources.length = 0 := rfl
  refine ⟨s₁, s₂, s₃, by omega, by omega, by omega, ?_⟩
  rw [hsig₃, hsig₂, hsig₁, insertAll_append, insertAll_append]
  rfl

end KernelGuard
