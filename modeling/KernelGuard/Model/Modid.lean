/-
What identifies a module file to the gate (`linux/monitor/kg_modid.c`).

The file is a list of bytes.  All offsets are natural numbers: the source computes them in
64 bits after comparing with the length, so nothing wraps.  The SHA-256 of the file is a
parameter; it is printed and not matched on.
-/
import KernelGuard.Model.Modgate
import KernelGuard.Model.Image

namespace KernelGuard

/-! ### Sections -/

def shdrSize : Nat := 64
def shtStrtab : Nat := 3
def shtNobits : Nat := 8
def etRel : Nat := 1

/-- `struct sec`. -/
structure Sec where
  name : Nat
  type : Nat
  off : Nat
  size : Nat

def readSec (img : List UInt8) (shoff idx : Nat) : Sec :=
  let h := shoff + idx * shdrSize
  ⟨rd32 img h, rd32 img (h + 4), rd64 img (h + 24), rd64 img (h + 32)⟩

def secInFile (s : Sec) (len : Nat) : Bool :=
  s.type ≠ shtNobits && s.off ≤ len && s.size ≤ len - s.off

/-! ### The fields -/

def kgModidNameMax : Nat := 56
def kgModidSrcverMax : Nat := 32
def kgModidStrMax : Nat := 128

/-- `struct kg_modid`; a field that was not found is empty. -/
structure KgModid where
  name : CStr
  srcversion : CStr
  version : CStr
  vermagic : CStr
  sigMarker : Bool
  sha256 : List UInt8
  deriving DecidableEq

/-- The `KG_MODID_E_*` codes. -/
inductive KgModidErr where
  | compressed
  | notElf
  | unsupported
  | badElf
  | noModinfo
  | noName
  | badField
  deriving DecidableEq, Repr

def nameCharsOk (s : CStr) : Bool :=
  s ≠ [] && s.all fun c => isAlnum c || c = chUnderscore || c = chMinus || c = chDot

def hexCharsOk (s : CStr) : Bool :=
  s ≠ [] && s.all fun c => isDigit c || (97 ≤ c && c ≤ 102) || (65 ≤ c && c ≤ 70)

/-- The strings of `.modinfo`, at most `fuel` of them: each ends at a NUL or at the end. -/
def modinfoStrings : Nat → List UInt8 → List CStr
  | 0, _ => []
  | _ + 1, [] => []
  | fuel + 1, p =>
      let s := p.takeWhile (· ≠ 0)
      s :: modinfoStrings fuel (p.drop (s.length + 1))

/-- The fields found so far; `none` is one that was not `seen`. -/
structure Wanted where
  name : Option CStr
  srcversion : Option CStr
  version : Option CStr
  vermagic : Option CStr

/-- The inner loop of `parse_modinfo`, for one wanted key. -/
def wantField (key : CStr) (cap : Nat) (s : CStr) (field : Option CStr) :
    Except KgModidErr (Option CStr) :=
  if field.isSome || s.length ≤ key.length + 1 || s.take key.length ≠ key ||
      s.getD key.length 0 ≠ chEquals then .ok field
  else if s.length - key.length - 1 ≥ cap then .error .badField
  else .ok (some (s.drop (key.length + 1)))

def keyName : CStr := str "name"
def keySrcversion : CStr := str "srcversion"

def wantString (w : Wanted) (s : CStr) : Except KgModidErr Wanted := do
  let name ← wantField keyName kgModidNameMax s w.name
  let srcversion ← wantField keySrcversion kgModidSrcverMax s w.srcversion
  let version ← wantField (str "version") kgModidStrMax s w.version
  let vermagic ← wantField (str "vermagic") kgModidStrMax s w.vermagic
  pure ⟨name, srcversion, version, vermagic⟩

def parseModinfo (p : List UInt8) : Except KgModidErr Wanted := do
  let w ← (modinfoStrings p.length p).foldlM wantString ⟨none, none, none, none⟩
  let name := w.name.getD []
  let srcversion := w.srcversion.getD []
  if name = [] then throw .noName
  if !nameCharsOk name || (srcversion ≠ [] && !hexCharsOk srcversion) then throw .badField
  pure w

/-! ### The file -/

/-- The loop over the sections from `i` on, `n` of them: the first one that is `.modinfo`. -/
def findModinfo (img : List UInt8) (shoff : Nat) (strs : Sec) : Nat → Nat → Option Sec
  | _, 0 => none
  | i, n + 1 =>
      let s := readSec img shoff i
      let want := str ".modinfo" ++ [0]
      if s.name ≥ strs.size || strs.size - s.name < want.length then
        findModinfo img shoff strs (i + 1) n
      else if slice img (strs.off + s.name) want.length ≠ want then
        findModinfo img shoff strs (i + 1) n
      else some s

/-- `kg_modid_parse` up to the section: the bytes of `.modinfo`. -/
def modinfoOf (img : List UInt8) : Except KgModidErr (List UInt8) :=
  let len := img.length
  if (len ≥ 2 && slice img 0 2 = [0x1f, 0x8b]) ||
      (len ≥ 4 && slice img 0 4 = [0x28, 0xb5, 0x2f, 0xfd]) ||
      (len ≥ 6 && slice img 0 6 = [0xfd, 0x37, 0x7a, 0x58, 0x5a, 0x00]) then .error .compressed
  else if len < 64 || slice img 0 4 ≠ [0x7f, 0x45, 0x4c, 0x46] then .error .notElf
  else if byteAt img 4 ≠ 2 || byteAt img 5 ≠ 1 || rd16 img 16 ≠ etRel then .error .unsupported
  else
    let shoff := rd64 img 0x28
    let shnum := rd16 img 0x3c
    let shstrndx := rd16 img 0x3e
    if rd16 img 0x3a ≠ shdrSize || shnum = 0 || shstrndx ≥ shnum then .error .badElf
    else if shoff > len || shnum * shdrSize > len - shoff then .error .badElf
    else
      let strs := readSec img shoff shstrndx
      if strs.type ≠ shtStrtab || !secInFile strs len || strs.size = 0 then .error .badElf
      else
        match findModinfo img shoff strs 0 shnum with
        | none => .error .noModinfo
        | some s => if !secInFile s len then .error .badElf else .ok (slice img s.off s.size)

/-- `kg_sig_marker`, the end of a file with an appended signature. -/
def kgSigMarker : CStr := str "~Module signature appended~\n"

def kgModidParse (sha256 : List UInt8 → List UInt8) (img : List UInt8) :
    Except KgModidErr KgModid := do
  let w ← parseModinfo (← modinfoOf img)
  pure
    { name := w.name.getD []
      srcversion := w.srcversion.getD []
      version := w.version.getD []
      vermagic := w.vermagic.getD []
      sigMarker := img.length ≥ kgSigMarker.length &&
        img.drop (img.length - kgSigMarker.length) = kgSigMarker
      sha256 := sha256 img }

/-- `kg_modid_entry`: `snprintf` to a buffer of `len` bytes. -/
def kgModidEntry (len : Nat) (m : KgModid) : CStr :=
  (if m.srcversion ≠ [] then m.name ++ [chAt] ++ m.srcversion else m.name).take (len - 1)

/-- The size of the buffer in `cmd_modid`. -/
def modidEntrySize : Nat := 96

end KernelGuard
