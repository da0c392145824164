/-
`kg_modid_parse` as it touches memory (`linux/monitor/kg_modid.c`).

`Model/Modid.lean` says what the parser makes of a file.  Here it reads the file through
pointers, compares 64-bit header values before it uses them and fills the caller's
`struct kg_modid` by `memcpy` to an offset.  A read outside the file, a write that does not
stay inside one field and a string without its NUL are `ModidStop.fault`.

A pointer is its offset in the file; it does not wrap.  `memcmp` and `memchr` read all
the bytes they are given, even where the answer is known before the last of them.
-/
import KernelGuard.Model.Modid
import KernelGuard.Model.Authenticode
import KernelGuard.Model.Hmac

namespace KernelGuard

/-- `img[0..len)`; `len` is a `size_t`. -/
structure ModidFile where
  bytes : List UInt8
  length_lt : bytes.length < 2 ^ 64

/-- Why the parser stops before its end. -/
inductive ModidStop where
  | ret (e : KgModidErr)
  | fault
  deriving DecidableEq, Repr

/-! ### Reading -/

namespace ModidFile

def len (f : ModidFile) : Nat := f.bytes.length

/-- `n` bytes at `img + p`. -/
def read (f : ModidFile) (p n : Nat) : Except ModidStop (List UInt8) :=
  if p + n ≤ f.len then .ok (slice f.bytes p n) else .error .fault

def rd16 (f : ModidFile) (p : Nat) : Except ModidStop Nat := do
  let b ← f.read p 2
  return KernelGuard.rd16 b 0

def rd32 (f : ModidFile) (p : Nat) : Except ModidStop Nat := do
  let b ← f.read p 4
  return KernelGuard.rd32 b 0

def rd64 (f : ModidFile) (p : Nat) : Except ModidStop Nat := do
  let low ← f.rd32 p
  let high ← f.rd32 (p + 4)
  return low + 2 ^ 32 * high

/-- `read_sec`. -/
def readSec (f : ModidFile) (shoff idx : Nat) : Except ModidStop Sec := do
  let h := shoff + u64 (idx * shdrSize)
  let name ← f.rd32 h
  let type ← f.rd32 (h + 4)
  let off ← f.rd64 (h + 24)
  let size ← f.rd64 (h + 32)
  return ⟨name, type, off, size⟩

/-- `len >= n && !memcmp(img, magic, n)`. -/
def startsWith (f : ModidFile) (magic : List UInt8) : Except ModidStop Bool :=
  if f.len ≥ magic.length then do
    let b ← f.read 0 magic.length
    return b = magic
  else .ok false

end ModidFile

/-- `sec_in_file`. -/
def secInFile64 (s : Sec) (len : Nat) : Bool :=
  s.type ≠ shtNobits && s.off ≤ len && s.size ≤ sub64 len s.off

/-! ### The result -/

/-- `offsetof` and `sizeof` of the fields of `struct kg_modid`. -/
def modidFields : List (Nat × Nat) := [(0, 56), (56, 32), (88, 128), (216, 128), (344, 4), (348, 32)]

def modidSize : Nat := 380

/-- The bytes `b` copied to `out + off`. -/
def outWrite (out : List UInt8) (off : Nat) (b : List UInt8) : Except ModidStop (List UInt8) :=
  if ∃ f ∈ modidFields, f.1 ≤ off ∧ off + b.length ≤ f.1 + f.2 then .ok (Bytes.overwrite out off b)
  else .error .fault

/-- The string in a field. -/
def outString (out : List UInt8) (off size : Nat) : Except ModidStop CStr :=
  if 0 ∈ slice out off size then .ok ((slice out off size).takeWhile (· ≠ 0)) else .error .fault

/-! ### `.modinfo` -/

/-- A row of `want`. -/
structure WantRow where
  key : CStr
  off : Nat
  cap : Nat

def want : List WantRow :=
  [⟨keyName, 0, kgModidNameMax⟩, ⟨keySrcversion, 56, kgModidSrcverMax⟩,
   ⟨str "version", 88, kgModidStrMax⟩, ⟨str "vermagic", 216, kgModidStrMax⟩]

/-- `seen` and `out`. -/
structure ModinfoState where
  seen : List Bool
  out : List UInt8

/-- The body of the inner loop, for the string of `n` bytes at `p`. -/
def wantRow (f : ModidFile) (p n : Nat) (st : ModinfoState) (row : WantRow × Nat) :
    Except ModidStop ModinfoState := do
  let (w, i) := row
  let kl := w.key.length
  if st.seen.getD i false || n ≤ kl + 1 then return st
  if (← f.read p kl) ≠ w.key then return st
  if (← f.read (p + kl) 1) ≠ [chEquals] then return st
  if n - kl - 1 ≥ w.cap then throw (.ret .badField)
  let value ← f.read (p + kl + 1) (n - kl - 1)
  let out ← outWrite st.out w.off value
  return ⟨st.seen.set i true, out⟩

/-- The `while` loop. -/
def modinfoLoop (f : ModidFile) (fin p : Nat) (st : ModinfoState) :
    Except ModidStop ModinfoState :=
  if p < fin then do
    let rest ← f.read p (fin - p)
    let n := (rest.findIdx? (· = 0)).getD (fin - p)
    let st ← want.zipIdx.foldlM (wantRow f p n) st
    modinfoLoop f fin (p + n + 1) st
  else .ok st
termination_by fin - p

/-- `parse_modinfo`. -/
def parseModinfoMem (f : ModidFile) (p size : Nat) (out : List UInt8) :
    Except ModidStop (List UInt8) := do
  let st ← modinfoLoop f (p + size) p ⟨List.replicate want.length false, out⟩
  let name ← outString st.out 0 kgModidNameMax
  if name = [] then throw (.ret .noName)
  let srcversion ← outString st.out 56 kgModidSrcverMax
  if !nameCharsOk name || (srcversion ≠ [] && !hexCharsOk srcversion) then throw (.ret .badField)
  return st.out

/-! ### The file -/

/-- The loop over the sections from `i` on, `n` of them. -/
def findModinfoMem (f : ModidFile) (shoff : Nat) (strs : Sec) :
    Nat → Nat → Except ModidStop (Option Sec)
  | _, 0 => .ok none
  | i, n + 1 => do
      let s ← f.readSec shoff i
      let want := str ".modinfo" ++ [0]
      if s.name ≥ strs.size || sub64 strs.size s.name < want.length then
        findModinfoMem f shoff strs (i + 1) n
      else if (← f.read (strs.off + s.name) want.length) ≠ want then
        findModinfoMem f shoff strs (i + 1) n
      else return some s

/-- The checks of `kg_modid_parse` before the section headers: `shoff`, `shnum` and `shstrndx`. -/
def elfHeaderMem (f : ModidFile) : Except ModidStop (Nat × Nat × Nat) := do
  if (← f.startsWith [0x1f, 0x8b]) || (← f.startsWith [0x28, 0xb5, 0x2f, 0xfd]) ||
      (← f.startsWith [0xfd, 0x37, 0x7a, 0x58, 0x5a, 0x00]) then throw (.ret .compressed)
  if f.len < 64 then throw (.ret .notElf)
  if (← f.read 0 4) ≠ [0x7f, 0x45, 0x4c, 0x46] then throw (.ret .notElf)
  if (← f.read 4 1) ≠ [2] then throw (.ret .unsupported)
  if (← f.read 5 1) ≠ [1] then throw (.ret .unsupported)
  if (← f.rd16 16) ≠ etRel then throw (.ret .unsupported)
  let shoff ← f.rd64 0x28
  let shnum ← f.rd16 0x3c
  let shstrndx ← f.rd16 0x3e
  if (← f.rd16 0x3a) ≠ shdrSize || shnum = 0 || shstrndx ≥ shnum then throw (.ret .badElf)
  if shoff > f.len || u64 (shnum * shdrSize) > sub64 f.len shoff then throw (.ret .badElf)
  return (shoff, shnum, shstrndx)

/-- The section `.modinfo` of the file. -/
def modinfoSecMem (f : ModidFile) : Except ModidStop Sec := do
  let (shoff, shnum, shstrndx) ← elfHeaderMem f
  let strs ← f.readSec shoff shstrndx
  if strs.type ≠ shtStrtab || !secInFile64 strs f.len || strs.size = 0 then throw (.ret .badElf)
  match ← findModinfoMem f shoff strs 0 shnum with
  | none => throw (.ret .noModinfo)
  | some s => if !secInFile64 s f.len then throw (.ret .badElf) else return s

/-- `sig_marker`. -/
def sigMarkerMem (f : ModidFile) : Except ModidStop Bool :=
  if f.len ≥ kgSigMarker.length then do
    let b ← f.read (f.len - kgSigMarker.length) kgSigMarker.length
    return b = kgSigMarker
  else .ok false

/-- `kg_modid_parse`: the bytes of `*out`.  `buf` is what the SHA-256 context holds at first. -/
def kgModidParseMem (buf : List UInt8) (hbuf : buf.length = 64) (f : ModidFile) :
    Except ModidStop (List UInt8) := do
  let s ← modinfoSecMem f
  let out ← parseModinfoMem f s.off s.size (List.replicate modidSize 0)
  let marker ← sigMarkerMem f
  let out ← outWrite out 344 [if marker then 1 else 0, 0, 0, 0]
  let img ← f.read 0 f.len
  outWrite out 348 (kgSha256Stream buf hbuf [img])

end KernelGuard
