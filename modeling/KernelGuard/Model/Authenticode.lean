/-
The Authenticode digest of a PE image, which the repository computes twice:
`windows/src/pe_authenticode.c` in the driver and `tools/pe_authentihash.py` beside it.

The C walk is modelled with its `PEA_U64` arithmetic explicit (`u64`, `sub64`), over
an `Update` that may do anything to its context and may fail.  An access C does not
allow, outside the file, outside the section array or of an entry of it that was
never written, is `PeaStop.fault`; the model does not read zeros there.  The Python
code has unbounded integers; a read outside the data is the `struct.error` that
`unpack_from` raises.
-/
import KernelGuard.Model.Image

namespace KernelGuard

/-! ### `pe_authenticode.c` -/

/-- What `PEA_U64` keeps of a number, and its subtraction. -/
def u64 (n : Nat) : Nat := n % 2 ^ 64
def sub64 (a b : Nat) : Nat := u64 (2 ^ 64 + a - b)

/-- `File[0..Length)`; `Length` is a `PEA_U64`. -/
structure PeFile where
  bytes : List UInt8
  length_lt : bytes.length < 2 ^ 64

/-- `PEA_OK`, `PEA_E_FORMAT`, `PEA_E_HASH`. -/
inductive PeaRc where
  | ok
  | eFormat
  | eHash
  deriving DecidableEq, Repr

/-- Why the walk stops before its end. -/
inductive PeaStop where
  | ret (rc : PeaRc)
  | fault
  deriving DecidableEq, Repr

def peaMaxSections : Nat := 96
def peaChunk : Nat := 0x100000

namespace PeFile

def length (f : PeFile) : Nat := f.bytes.length

/-- `n` bytes at `File + off`. -/
def read (f : PeFile) (off n : Nat) : Except PeaStop (List UInt8) :=
  if off + n ≤ f.length then .ok (slice f.bytes off n) else .error .fault

def rd8 (f : PeFile) (off : Nat) : Except PeaStop Nat :=
  if off + 1 ≤ f.length then .ok (byteAt f.bytes off) else .error .fault

def rd16 (f : PeFile) (off : Nat) : Except PeaStop Nat :=
  if off + 2 ≤ f.length then .ok (KernelGuard.rd16 f.bytes off) else .error .fault

def rd32 (f : PeFile) (off : Nat) : Except PeaStop Nat :=
  if off + 4 ≤ f.length then .ok (KernelGuard.rd32 f.bytes off) else .error .fault

end PeFile

/-- `if (c) return PEA_E_FORMAT;` -/
def rejectIf (c : Prop) [Decidable c] : Except PeaStop Unit :=
  if c then .error (.ret .eFormat) else .ok ()

/-- What the headers say: `certEntry` is `none` without `haveCertEntry`. -/
structure PeaLayout where
  checkOff : Nat
  sizeOfHeaders : Nat
  nSections : Nat
  secTab : Nat
  certEntry : Option Nat
  certOff : Nat
  certSize : Nat
  deriving DecidableEq, Repr

/-- `ddOff` and `nDirs`, by the magic number. -/
def peaDirectories (f : PeFile) (magic opt optSize : Nat) : Except PeaStop (Nat × Nat) :=
  if magic = 0x10b then do
    let nDirs ← if optSize ≥ 96 then f.rd32 (opt + 92) else .ok 0
    return (u64 (opt + 96), nDirs)
  else if magic = 0x20b then do
    rejectIf (optSize < 112)
    let nDirs ← f.rd32 (opt + 108)
    return (u64 (opt + 112), nDirs)
  else .error (.ret .eFormat)

/-- The Certificate Table is data directory number 4. -/
def peaCertEntry (f : PeFile) (nDirs ddOff opt optSize : Nat) :
    Except PeaStop (Option Nat × Nat × Nat) :=
  if nDirs > 4 ∧ u64 (ddOff + 5 * 8) ≤ u64 (opt + optSize) then do
    let certEntry := u64 (ddOff + 4 * 8)
    let certOff ← f.rd32 certEntry
    let certSize ← f.rd32 (certEntry + 4)
    return (some certEntry, certOff, certSize)
  else .ok (none, 0, 0)

/-- The DOS header and the file header: `opt`, `optSize` and `nSections`. -/
def peaFileHeader (f : PeFile) : Except PeaStop (Nat × Nat × Nat) := do
  let len := f.length
  rejectIf (len < 0x40)
  rejectIf ((← f.rd8 0) ≠ 0x4d)
  rejectIf ((← f.rd8 1) ≠ 0x5a)
  let lfanew ← f.rd32 0x3c
  rejectIf (lfanew < 0x40 ∨ lfanew > len ∨ sub64 len lfanew < 24)
  rejectIf ((← f.rd8 lfanew) ≠ 0x50)
  rejectIf ((← f.rd8 (lfanew + 1)) ≠ 0x45)
  rejectIf ((← f.rd8 (lfanew + 2)) ≠ 0)
  rejectIf ((← f.rd8 (lfanew + 3)) ≠ 0)
  let nSections ← f.rd16 (lfanew + 6)
  let optSize ← f.rd16 (lfanew + 20)
  let opt := u64 (lfanew + 24)
  rejectIf (nSections > peaMaxSections ∨ opt > len ∨ optSize > sub64 len opt ∨ optSize < 96)
  return (opt, optSize, nSections)

/-- The header checks of `PeaAuthenticodeHash`, up to the section table. -/
def peaLayout (f : PeFile) : Except PeaStop PeaLayout := do
  let (opt, optSize, nSections) ← peaFileHeader f
  let magic ← f.rd16 opt
  let (ddOff, nDirs) ← peaDirectories f magic opt optSize
  let checkOff := u64 (opt + 64)
  let sizeOfHeaders ← f.rd32 (opt + 60)
  rejectIf (u64 (checkOff + 4) > u64 (opt + optSize) ∨ sizeOfHeaders > f.length)
  let (certEntry, certOff, certSize) ← peaCertEntry f nDirs ddOff opt optSize
  rejectIf (u64 (checkOff + 4) > sizeOfHeaders)
  rejectIf (∃ e ∈ certEntry, e < u64 (checkOff + 4) ∨ u64 (e + 8) > sizeOfHeaders)
  let secTab := u64 (opt + optSize)
  rejectIf (secTab > f.length ∨ u64 (nSections * 40) > sub64 f.length secTab)
  return { checkOff, sizeOfHeaders, nSections, secTab, certEntry, certOff, certSize }

/-- `PEA_SECTION`. -/
structure PeaSection where
  offset : Nat
  size : Nat
  deriving DecidableEq, Repr

/-- `PEA_SECTION sec[PEA_MAX_SECTIONS]`; an entry not written yet is `none`. -/
abbrev PeaSections := List (Option PeaSection)

def getSection (sec : PeaSections) (j : Nat) : Except PeaStop PeaSection :=
  match sec[j]? with
  | some (some s) => .ok s
  | _ => .error .fault

def setSection (sec : PeaSections) (j : Nat) (s : PeaSection) : Except PeaStop PeaSections :=
  if j < sec.length then .ok (sec.set j (some s)) else .error .fault

/-- The inner loop, with `j` counting down: entries with a larger offset move up. -/
def insertSection (cur : PeaSection) : Nat → PeaSections → Except PeaStop PeaSections
  | 0, sec => setSection sec 0 cur
  | j + 1, sec => do
    let prev ← getSection sec j
    if prev.offset > cur.offset then
      let sec' ← setSection sec (j + 1) prev
      insertSection cur j sec'
    else
      setSection sec (j + 1) cur

/-- One round of the loop over the section table. -/
def readSection (f : PeFile) (secTab : Nat) (sec : PeaSections) (i : Nat) :
    Except PeaStop PeaSections := do
  let s := secTab + u64 (i * 40)
  let size ← f.rd32 (s + 16)
  let offset ← f.rd32 (s + 20)
  insertSection ⟨offset, size⟩ i sec

def readSections (f : PeFile) (lay : PeaLayout) : Except PeaStop PeaSections :=
  (List.range lay.nSections).foldlM (readSection f lay.secTab)
    (List.replicate peaMaxSections none)

section Walk

variable {σ : Type} (f : PeFile) (update : σ → List UInt8 → Int × σ)

/-- `Update(Ctx, File + Off, n)`. -/
def callUpdate (off n : Nat) : EStateM PeaStop σ Unit := fun ctx =>
  match f.read off n with
  | .error e => .error e ctx
  | .ok data =>
      let (rc, ctx') := update ctx data
      if rc ≠ 0 then .error (.ret .eHash) ctx' else .ok () ctx'

/-- The loop of `HashRange`.  Every round takes at least a byte off `len`, so `len`
rounds are enough. -/
def hashRangeLoop : Nat → Nat → Nat → EStateM PeaStop σ Unit
  | _, _, 0 => pure ()
  | 0, _, _ + 1 => throw .fault
  | fuel + 1, off, len => do
    let n := if len > peaChunk then peaChunk else len
    callUpdate f update off n
    hashRangeLoop fuel (u64 (off + n)) (sub64 len n)

def hashRange (off len : Nat) : EStateM PeaStop σ Unit := hashRangeLoop f update len off len

/-- Steps 1 to 3: the headers, minus CheckSum and the certificate entry. -/
def hashHeaders (lay : PeaLayout) : EStateM PeaStop σ Unit := do
  hashRange f update 0 lay.checkOff
  let rest := u64 (lay.checkOff + 4)
  match lay.certEntry with
  | some e => do
      hashRange f update rest (sub64 e rest)
      hashRange f update (u64 (e + 8)) (sub64 lay.sizeOfHeaders (u64 (e + 8)))
  | none => hashRange f update rest (sub64 lay.sizeOfHeaders rest)

/-- One round of step 4; `sum` is the running total. -/
def hashSection (sum : Nat) (s : PeaSection) : EStateM PeaStop σ Nat :=
  if s.size = 0 then pure sum
  else if u64 (s.offset + s.size) > f.length ∨ u64 (sum + s.size) > f.length then
    throw (.ret .eFormat)
  else do
    hashRange f update s.offset s.size
    return u64 (sum + s.size)

/-- Step 5: what follows the last section, without the certificate blob. -/
def hashTail (lay : PeaLayout) (sum : Nat) : EStateM PeaStop σ Unit :=
  if f.length > sum then
    let extra := sub64 f.length sum
    if lay.certSize = 0 then hashRange f update sum extra
    else if u64 (lay.certOff + lay.certSize) > f.length ∨ lay.certSize > extra then
      throw (.ret .eFormat)
    else hashRange f update sum (sub64 extra lay.certSize)
  else pure ()

/-- A part of the walk that does not touch the context. -/
def PeaStop.lift {α : Type} (x : Except PeaStop α) : EStateM PeaStop σ α := fun ctx =>
  match x with
  | .ok a => .ok a ctx
  | .error e => .error e ctx

def peaWalk : EStateM PeaStop σ Unit := do
  let lay ← PeaStop.lift (peaLayout f)
  let sec ← PeaStop.lift (readSections f lay)
  hashHeaders f update lay
  let sum ← (List.range lay.nSections).foldlM (fun sum i => do
    let s ← PeaStop.lift (getSection sec i)
    hashSection f update sum s) lay.sizeOfHeaders
  hashTail f update lay sum

/-- The return code, `none` where C has no behaviour, and the context afterwards. -/
def peaAuthenticodeHash (ctx : σ) : Option PeaRc × σ :=
  match peaWalk f update ctx with
  | .ok () ctx' => (some .ok, ctx')
  | .error (.ret rc) ctx' => (some rc, ctx')
  | .error .fault ctx' => (none, ctx')

end Walk

/-- An `Update` that never fails and records its input. -/
def recordUpdate (ctx data : List UInt8) : Int × List UInt8 := (0, ctx ++ data)

/-! ### `pe_authentihash.py` -/

/-- The exceptions: `PEFormatError` with its text, and `struct.error`. -/
inductive PyErr where
  | peFormat (msg : String)
  | structError
  deriving DecidableEq, Repr

/-- `data[a:b]`. -/
def pySlice (data : List UInt8) (a b : Nat) : List UInt8 := slice data a (b - a)

def pyU16 (data : List UInt8) (o : Nat) : Except PyErr Nat :=
  if o + 2 ≤ data.length then .ok (rd16 data o) else .error .structError

def pyU32 (data : List UInt8) (o : Nat) : Except PyErr Nat :=
  if o + 4 ≤ data.length then .ok (rd32 data o) else .error .structError

def raiseIf (c : Prop) [Decidable c] (msg : String) : Except PyErr Unit :=
  if c then .error (.peFormat msg) else .ok ()

def maxSections : Nat := 96

/-- The dictionary `parse_layout` returns. -/
structure PyLayout where
  checksum : Nat
  headers : Nat
  nsec : Nat
  sectab : Nat
  certEntry : Option Nat
  certOff : Nat
  certSize : Nat
  deriving DecidableEq, Repr

/-- `dd` and `ndirs_off`, by the magic number. -/
def pyDirectories (magic opt optSize : Nat) : Except PyErr (Nat × Nat) :=
  if magic = 0x10b then .ok (opt + 96, opt + 92)
  else if magic = 0x20b then do
    raiseIf (optSize < 112) "optional header too small for PE32+"
    return (opt + 112, opt + 108)
  else
    .error (.peFormat ("unknown optional header magic 0x" ++ String.ofList (Nat.toDigits 16 magic)))

def pyCertEntry (data : List UInt8) (ndirs dd opt optSize : Nat) :
    Except PyErr (Option Nat × Nat × Nat) :=
  if ndirs > 4 ∧ dd + 5 * 8 ≤ opt + optSize then do
    let certOff ← pyU32 data (dd + 4 * 8)
    let certSize ← pyU32 data (dd + 4 * 8 + 4)
    return (some (dd + 4 * 8), certOff, certSize)
  else .ok (none, 0, 0)

/-- The first part of `parse_layout`: `opt`, `opt_size` and `nsec`. -/
def pyFileHeader (data : List UInt8) : Except PyErr (Nat × Nat × Nat) := do
  let n := data.length
  raiseIf (n < 0x40 ∨ pySlice data 0 2 ≠ [0x4d, 0x5a]) "not a PE file (no MZ header)"
  let lfanew ← pyU32 data 0x3c
  raiseIf (lfanew < 0x40 ∨ lfanew + 24 > n ∨
    pySlice data lfanew (lfanew + 4) ≠ [0x50, 0x45, 0, 0]) "bad PE signature"
  let nsec ← pyU16 data (lfanew + 6)
  let optSize ← pyU16 data (lfanew + 20)
  let opt := lfanew + 24
  raiseIf (nsec > maxSections ∨ opt + optSize > n ∨ optSize < 96) "bad file header"
  return (opt, optSize, nsec)

def parseLayout (data : List UInt8) : Except PyErr PyLayout := do
  let n := data.length
  let (opt, optSize, nsec) ← pyFileHeader data
  let magic ← pyU16 data opt
  let (dd, ndirsOff) ← pyDirectories magic opt optSize
  let ndirs ← pyU32 data ndirsOff
  let checksum := opt + 64
  let headers ← pyU32 data (opt + 60)
  let sectab := opt + optSize
  let (certEntry, certOff, certSize) ← pyCertEntry data ndirs dd opt optSize
  raiseIf (headers > n ∨ checksum + 4 > headers) "SizeOfHeaders is inconsistent"
  raiseIf (∃ ce ∈ certEntry, ce < checksum + 4 ∨ ce + 8 > headers)
    "certificate entry outside the headers"
  raiseIf (sectab + nsec * 40 > n) "section table runs past the end of the file"
  return { checksum, headers, nsec, sectab, certEntry, certOff, certSize }

/-- The loop over `skips`: what lies between them, and the rest of the headers. -/
def headerPieces (headers : Nat) : Nat → List (Nat × Nat) → List (Nat × Nat)
  | pos, [] => [(pos, headers)]
  | pos, (a, b) :: skips => (pos, a) :: headerPieces headers b skips

/-- The sections with raw data, as `(ptr, size)`. -/
def pySections (data : List UInt8) (lay : PyLayout) : Except PyErr (List (Nat × Nat)) :=
  (List.range lay.nsec).foldlM (fun secs i => do
    let base := lay.sectab + i * 40
    let size ← pyU32 data (base + 16)
    let ptr ← pyU32 data (base + 20)
    return if size ≠ 0 then secs ++ [(ptr, size)] else secs) []

/-- One round of the loop over the sorted sections: `pieces` and `hashed`. -/
def sectionPiece (n : Nat) (acc : List (Nat × Nat) × Nat) (s : Nat × Nat) :
    Except PyErr (List (Nat × Nat) × Nat) := do
  let (pieces, hashed) := acc
  let (ptr, size) := s
  raiseIf (ptr + size > n ∨ hashed + size > n)
    "a section runs past the end of the file (or overlaps another)"
  return (pieces ++ [(ptr, ptr + size)], hashed + size)

/-- The piece after the sections, if there is anything. -/
def tailPiece (n : Nat) (lay : PyLayout) (hashed : Nat) : Except PyErr (List (Nat × Nat)) :=
  if n > hashed then
    if lay.certSize ≠ 0 then do
      raiseIf (lay.certOff + lay.certSize > n ∨ lay.certSize > n - hashed)
        "certificate blob does not fit"
      return [(hashed, hashed + (n - hashed - lay.certSize))]
    else .ok [(hashed, hashed + (n - hashed))]
  else .ok []

def authenticodePieces (data : List UInt8) : Except PyErr (List (Nat × Nat)) := do
  let lay ← parseLayout data
  let n := data.length
  let skips := (lay.checksum, lay.checksum + 4) ::
    (lay.certEntry.map fun ce => (ce, ce + 8)).toList
  let secs ← pySections data lay
  let (pieces, hashed) ← (secs.mergeSort fun a b => a.1 ≤ b.1).foldlM (sectionPiece n)
    (headerPieces lay.headers 0 skips, lay.headers)
  let tail ← tailPiece n lay hashed
  return (pieces ++ tail).filter fun (a, b) => b > a

end KernelGuard
