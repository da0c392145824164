/-
A file as a list of bytes, and the little-endian numbers in it.

The readers are total: outside the file they read zeros.  A program that must not read there
says so where it calls them, as `Model/Authenticode.lean` does.
-/
import Mathlib.Data.List.Basic
import Mathlib.Algebra.GroupWithZero.Nat

namespace KernelGuard

def byteAt (img : List UInt8) (off : Nat) : Nat := (img.getD off 0).toNat

def rd16 (img : List UInt8) (off : Nat) : Nat := byteAt img off + 256 * byteAt img (off + 1)

def rd32 (img : List UInt8) (off : Nat) : Nat := rd16 img off + 2 ^ 16 * rd16 img (off + 2)

def rd64 (img : List UInt8) (off : Nat) : Nat := rd32 img off + 2 ^ 32 * rd32 img (off + 4)

/-- `len` bytes of the file from `off` on. -/
def slice (img : List UInt8) (off len : Nat) : List UInt8 := (img.drop off).take len

end KernelGuard
