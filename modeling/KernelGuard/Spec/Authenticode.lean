/-
What the Authenticode digest covers, and of which files it is defined.

The accessors name the numbers a PE file holds at the places the format gives them.
`HeadersOk` is what the headers must satisfy, `Digestible` adds the sections and the
certificate blob, and `digested` is the byte stream.  Nothing here depends on an order
of checks: that the sections fit is said of their sum, not of a running total.
-/
import KernelGuard.Model.Image

namespace KernelGuard

namespace Pe

variable (img : List UInt8)

def ntOff : Nat := rd32 img 0x3c

def sectionCount : Nat := rd16 img (ntOff img + 6)

def optSize : Nat := rd16 img (ntOff img + 20)

def optOff : Nat := ntOff img + 24

def magic : Nat := rd16 img (optOff img)

/-- The data directory, behind the fields of PE32 or of PE32+, and its length. -/
def dirOff : Nat := optOff img + if magic img = 0x10b then 96 else 112
def dirCount : Nat := rd32 img (optOff img + if magic img = 0x10b then 92 else 108)

def checksumOff : Nat := optOff img + 64

def headerSize : Nat := rd32 img (optOff img + 60)

def secTab : Nat := optOff img + optSize img

/-- The fifth entry of the data directory, when there is one. -/
def certEntry : Option Nat :=
  if 4 < dirCount img ∧ dirOff img + 40 ≤ secTab img then some (dirOff img + 32) else none

def certOff : Nat := if (certEntry img).isSome then rd32 img (dirOff img + 32) else 0
def certSize : Nat := if (certEntry img).isSome then rd32 img (dirOff img + 36) else 0

/-- Where a section's raw data starts, and how long it is. -/
def sectionAt (i : Nat) : Nat × Nat :=
  (rd32 img (secTab img + i * 40 + 20), rd32 img (secTab img + i * 40 + 16))

/-- The sections with raw data, in the order of the file. -/
def rawData : List (Nat × Nat) :=
  (((List.range (sectionCount img)).map (sectionAt img)).filter fun s => s.2 ≠ 0).mergeSort
    fun a b => a.1 ≤ b.1

def hashedSize : Nat := headerSize img + ((rawData img).map Prod.snd).sum

/-- The DOS header and the file header. -/
structure FileHeaderOk : Prop where
  dos : 0x40 ≤ img.length
  mz : byteAt img 0 = 0x4d ∧ byteAt img 1 = 0x5a
  nt : 0x40 ≤ ntOff img
  ntEnd : ntOff img + 24 ≤ img.length
  pe : byteAt img (ntOff img) = 0x50 ∧ byteAt img (ntOff img + 1) = 0x45 ∧
    byteAt img (ntOff img + 2) = 0 ∧ byteAt img (ntOff img + 3) = 0
  sections : sectionCount img ≤ 96
  optEnd : secTab img ≤ img.length
  optMin : 96 ≤ optSize img

/-- The optional header, and that the section table is in the file. -/
structure OptHeaderOk : Prop where
  known : magic img = 0x10b ∨ magic img = 0x20b ∧ 112 ≤ optSize img
  headersEnd : headerSize img ≤ img.length
  checksum : checksumOff img + 4 ≤ headerSize img
  cert : ∀ e ∈ certEntry img, checksumOff img + 4 ≤ e ∧ e + 8 ≤ headerSize img
  table : secTab img + sectionCount img * 40 ≤ img.length

def HeadersOk : Prop := FileHeaderOk img ∧ OptHeaderOk img

structure SectionsOk : Prop where
  inFile : ∀ s ∈ rawData img, s.1 + s.2 ≤ img.length
  total : hashedSize img ≤ img.length

def CertOk : Prop :=
  hashedSize img < img.length → certSize img ≠ 0 →
    certOff img + certSize img ≤ img.length ∧ certSize img ≤ img.length - hashedSize img

def Digestible : Prop := HeadersOk img ∧ SectionsOk img ∧ CertOk img

/-- The headers without the CheckSum field and the certificate entry. -/
def headerBytes : List UInt8 :=
  slice img 0 (checksumOff img) ++
    match certEntry img with
    | some e => slice img (checksumOff img + 4) (e - (checksumOff img + 4)) ++
        slice img (e + 8) (headerSize img - (e + 8))
    | none => slice img (checksumOff img + 4) (headerSize img - (checksumOff img + 4))

def sectionBytes : List UInt8 := (rawData img).flatMap fun s => slice img s.1 s.2

/-- What follows the sections, without as many bytes as the certificate has. -/
def tailBytes : List UInt8 :=
  slice img (hashedSize img) (img.length - hashedSize img - certSize img)

def digested : List UInt8 := headerBytes img ++ sectionBytes img ++ tailBytes img

end Pe

end KernelGuard
