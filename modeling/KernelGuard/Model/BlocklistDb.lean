/-
The blocklist database: `tools/blocklist_db.py`.

Three sources are read one after the other into the table `signatures`, each under a source id
of its own, and the view `blocklist` folds the rows of one signature together.  A row is added
with `INSERT OR IGNORE`, and the schema's `UNIQUE (source_id, kind, algo, value)` decides what
is ignored.

The columns that only describe a driver or a sample are left out, and so is the `driver_id` of
a signature.  What reading them can raise is not: an import that raises leaves no database.
-/
import KernelGuard.Model.LolDrivers
import KernelGuard.Lib.FirstWins

namespace KernelGuard

/-! ### The schema -/

inductive Platform where
  | windows
  | linux
  deriving DecidableEq, Repr

inductive SigKind where
  | authentihash
  | file
  | module
  deriving DecidableEq, Repr

inductive SigAlgo where
  | sha256
  | sha1
  | md5
  | modid
  deriving DecidableEq, Repr

inductive SigClass where
  | deny
  | vulnerable
  | malicious
  deriving DecidableEq, Repr

/-- `RANK`, which the view has, too. -/
def SigClass.rank : SigClass → Nat
  | .deny => 1
  | .vulnerable => 2
  | .malicious => 3

/-- What the view groups by. -/
structure SigKey where
  platform : Platform
  kind : SigKind
  algo : SigAlgo
  value : Text
  deriving DecidableEq

/-- A row of `signatures`. -/
structure SigRow where
  sourceId : Nat
  key : SigKey
  klass : SigClass
  deriving DecidableEq

/-- `UNIQUE (source_id, kind, algo, value)`. -/
def SigRow.unique (r : SigRow) : Nat × SigKind × SigAlgo × Text :=
  (r.sourceId, r.key.kind, r.key.algo, r.key.value)

/-- The rows of the three tables; the ids of sources count from 1. -/
structure Db where
  sources : List String
  /-- `source_id` and `ext_id`. -/
  drivers : List (Nat × Text)
  signatures : List SigRow

def Db.empty : Db := ⟨[], [], []⟩

/-- A row of the view. -/
structure BlocklistRow where
  klass : SigClass
  sources : Nat
  deriving DecidableEq

/-- `CASE MAX(...) WHEN 3 ... WHEN 2 ... ELSE ... END`. -/
def classOfRank (n : Nat) : SigClass :=
  if n = 3 then .malicious else if n = 2 then .vulnerable else .deny

/-- The view `blocklist`: its row for a key, when some signature has the key. -/
def Db.blocklist (db : Db) (key : SigKey) : Option BlocklistRow :=
  match db.signatures.filter fun r => decide (r.key = key) with
  | [] => none
  | group => some
      { klass := classOfRank ((group.map fun r => r.klass.rank).foldl max 0)
        sources := (group.map SigRow.sourceId).dedup.length }

/-! ### Inserting -/

/-- The check of a bound parameter. -/
def bindValue : PyVal → Except PyRaise Unit
  | .int n => if -(2 ^ 63) ≤ n ∧ n < 2 ^ 63 then .ok () else .error .overflowError
  | .list _ => .error .interfaceError
  | .dict _ => .error .interfaceError
  | _ => .ok ()

def addSource (db : Db) (name : String) : Except PyRaise (Nat × Db) :=
  if name ∈ db.sources then .error .integrityError
  else .ok (db.sources.length + 1, { db with sources := db.sources ++ [name] })

/-- The columns of a signature that describe its sample. -/
def sampleColumns (s : PyVal) : Except PyRaise Unit := do
  let s := s.orElse (.dict [])
  let filename ← s.get "Filename"
  let original ← s.get "OriginalFilename"
  let company ← s.get "Company"
  let product ← s.get "Product"
  let version ← s.get "FileVersion"
  bindValue ((filename.orElse original).orElse .none)
  bindValue (company.orElse .none)
  bindValue (product.orElse .none)
  bindValue (version.orElse .none)

def addSig (db : Db) (sid : Nat) (platform : Platform) (kind : SigKind) (algo : SigAlgo)
    (value : Text) (klass : SigClass) (s : PyVal) : Except PyRaise Db := do
  sampleColumns s
  pure { db with
    signatures := FirstWins.insertNew SigRow.unique db.signatures
      ⟨sid, ⟨platform, kind, algo, value⟩, klass⟩ }

/-! ### `import_loldrivers` -/

def clean : PyVal → Text
  | .str s => lower (strip s)
  | _ => []

/-- What `cves.update` takes in of one field, and what `c.strip()` can raise on it. -/
def cveField (field : PyVal) : Except PyRaise Unit :=
  match field with
  | .str _ => .ok ()
  | _ => do
      let items ← (field.orElse (.list [])).iter
      items.forM fun c =>
        match c with
        | .list _ => .error .typeError
        | .dict _ => .error .typeError
        | .str _ => .ok ()
        | c => if c.truthy then .error .attributeError else .ok ()

/-- `(e.get('Tags') or [None])[0]`. -/
def firstTag (tags : PyVal) : Except PyRaise PyVal :=
  match tags.orElse (.list [.none]) with
  | .list l => .ok (l.headD .none)
  | .str s => .ok (.str (s.take 1))
  | .dict _ => .error .keyError
  | _ => .error .typeError

/-- `'\n'.join(v or [])`. -/
def joinLines (v : PyVal) : Except PyRaise Unit := do
  let items ← (v.orElse (.list [])).iter
  items.forM fun x =>
    match x with
    | .str _ => .ok ()
    | _ => .error .typeError

/-- The `Id` of an entry, with what the columns beside it can raise. -/
def driverColumns (e : PyVal) : Except PyRaise PyVal := do
  cveField (← e.get "CVE")
  cveField (← e.get "CVEs")
  let cmd := (← e.get "Commands").orElse (.dict [])
  let id ← e.item "Id"
  let name ← firstTag (← e.get "Tags")
  let description ← cmd.get "Description"
  joinLines (← e.get "Resources")
  bindValue name
  bindValue (description.orElse .none)
  pure id

/-- A value in a column of type `TEXT NOT NULL`. -/
def textColumn (v : PyVal) : Except PyRaise Text := do
  bindValue v
  match v with
  | .str s => pure s
  | .int n => pure (toString n).toList
  | .bool b => pure [if b then '1' else '0']
  | .float text _ => pure text
  | _ => .error .integrityError

/-- The row of `drivers`. -/
def addDriver (db : Db) (sid : Nat) (e : PyVal) : Except PyRaise Db := do
  let id ← driverColumns e
  let extId ← textColumn id
  if (sid, extId) ∈ db.drivers then .error .integrityError
  else pure { db with drivers := db.drivers ++ [(sid, extId)] }

/-- `algo.upper()`. -/
def SigAlgo.upper : SigAlgo → String
  | .sha256 => "SHA256"
  | .sha1 => "SHA1"
  | .md5 => "MD5"
  | .modid => "MODID"

def sampleAlgos : List (SigAlgo × Nat) := [(.sha256, 64), (.sha1, 40), (.md5, 32)]

/-- The three values of one algorithm. -/
def rawValues (auth s : PyVal) (algo : SigAlgo) : Except PyRaise (List (SigKind × PyVal)) := do
  let nested ← auth.get algo.upper
  let flat ← s.get ("Authentihash" ++ algo.upper)
  let file ← s.get algo.upper
  pure [(.authentihash, nested), (.authentihash, flat), (.file, file)]

/-- One round of the innermost loop; the second component counts. -/
def addRaw (sid : Nat) (klass : SigClass) (s : PyVal) (algo : SigAlgo) (size : Nat)
    (acc : Db × Nat) (raw : SigKind × PyVal) : Except PyRaise (Db × Nat) :=
  let d := clean raw.2
  if isHex size d then do
    let db ← addSig acc.1 sid .windows raw.1 algo d klass s
    pure (db, acc.2 + 1)
  else pure acc

def addSampleSigs (sid : Nat) (klass : SigClass) (acc : Db × Nat) (s : PyVal) :
    Except PyRaise (Db × Nat) := do
  let auth := (← s.get "Authentihash").orElse (.dict [])
  sampleAlgos.foldlM (fun acc p => do
    (← rawValues auth s p.1).foldlM (addRaw sid klass s p.1 p.2) acc) acc

def addDriverEntry (sid : Nat) (acc : Db × Nat) (e : PyVal) : Except PyRaise (Db × Nat) := do
  let category ← entryCategory e
  let klass := if category = malicious then SigClass.malicious else .vulnerable
  let db ← addDriver acc.1 sid e
  let samples ← entrySamples e
  samples.foldlM (addSampleSigs sid klass) (db, acc.2)

/-- `import_loldrivers`, from the entries `load_dataset` has returned. -/
def importLoldrivers (db : Db) (entries : List PyVal) : Except PyRaise (Db × Nat) := do
  let (sid, db) ← addSource db "loldrivers"
  entries.foldlM (addDriverEntry sid) (db, 0)

/-! ### `import_header` -/

/-- The rows of a header's table; the order of a dictionary's items leaves no trace. -/
def importHeader (db : Db) (text : Text) : Except PyRaise (Db × Nat) := do
  let table ← parseExisting text
  let (sid, db) ← addSource db "header"
  let db ← (sortedDigests table).foldlM (fun db d =>
    addSig db sid .windows .authentihash .sha256 d
      (if table.lookup d = some '1' then .malicious else .vulnerable) .none) db
  pure (db, table.keys.card)

/-! ### `import_local` -/

/-- Where `str.splitlines` breaks a text that `read_text` has returned. -/
def isLineBreak (c : Char) : Bool :=
  [0x0a, 0x0b, 0x0c, 0x1c, 0x1d, 0x1e, 0x85, 0x2028, 0x2029].contains c.toNat

def splitlines (text : Text) : List Text :=
  let pieces := text.splitOnP isLineBreak
  if pieces.getLast? = some [] then pieces.dropLast else pieces

/-- The first word in front of a comment. -/
def firstWord (line : Text) : Option Text :=
  let word := ((line.takeWhile (· != '#')).dropWhile pyIsSpace).takeWhile (!pyIsSpace ·)
  if word.isEmpty then none else some word

/-- A full match of `[0-9A-Fa-f]{64}`. -/
def isHexEither (s : Text) : Bool := decide (s.length = 64) && s.all fun c => Hex.isDigit c.toLower

/-- `MODULE.match`. -/
def moduleMatch : Text → Bool :=
  matchEnd fun s =>
    let name := s.takeWhile (· != '@')
    !name.isEmpty && name.all (fun c => c.isAlphanum || c == '_' || c == '.' || c == '-') &&
      match s.drop name.length with
      | [] => true
      | _ :: srcversion => !srcversion.isEmpty && srcversion.all Char.isAlphanum

/-- The two files of `import_local`. -/
inductive LocalFile where
  | sha256Deny
  | modulesDeny
  deriving DecidableEq

/-- The signature a line of a file names. -/
def localKey (file : LocalFile) (line : Text) : Option SigKey :=
  (firstWord line).bind fun v =>
    match file with
    | .sha256Deny => if isHexEither v then some ⟨.windows, .file, .sha256, lower v⟩ else none
    | .modulesDeny => if moduleMatch v then some ⟨.linux, .module, .modid, v⟩ else none

def addLocalLine (file : LocalFile) (sid : Nat) (acc : Db × Nat) (line : Text) :
    Except PyRaise (Db × Nat) :=
  match localKey file line with
  | none => pure acc
  | some k => do
      let db ← addSig acc.1 sid k.platform k.kind k.algo k.value .deny .none
      pure (db, acc.2 + 1)

/-- One round of the loop over the files; the source is added with the first file there is. -/
def importLocalFile (acc : Option Nat × Db × Nat) (p : LocalFile × Option Text) :
    Except PyRaise (Option Nat × Db × Nat) :=
  match p.2 with
  | none => pure acc
  | some text => do
      let (sid, db) ←
        match acc.1 with
        | some sid => pure (sid, acc.2.1)
        | none => addSource acc.2.1 "local"
      let res ← (splitlines text).foldlM (addLocalLine p.1 sid) (db, acc.2.2)
      pure (some sid, res)

def importLocal (db : Db) (sha256Deny modulesDeny : Option Text) : Except PyRaise (Db × Nat) := do
  let res ← [(LocalFile.sha256Deny, sha256Deny), (.modulesDeny, modulesDeny)].foldlM
    importLocalFile (none, db, 0)
  pure res.2

/-! ### `build_to` -/

/-- What a build reads: no dataset with `--offline`, and a file only where there is one. -/
structure BuildInputs where
  loldrivers : Option (List PyVal)
  header : Option Text
  sha256Deny : Option Text
  modulesDeny : Option Text

/-- An import that is made only when its input is there. -/
def importIf {α : Type} (run : Db → α → Except PyRaise (Db × Nat)) (db : Db) :
    Option α → Except PyRaise Db
  | none => pure db
  | some input => Prod.fst <$> run db input

/-- `build_to`, up to the file that holds the database. -/
def buildTo (a : BuildInputs) : Except PyRaise Db := do
  let db ← importIf importLoldrivers .empty a.loldrivers
  let db ← importIf importHeader db a.header
  Prod.fst <$> importLocal db a.sha256Deny a.modulesDeny

end KernelGuard
