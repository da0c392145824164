/-
`kg_list_contains` as it touches memory (`linux/module/kg_state.c`).

`Model/KbdScan.lean` says what the allow lists are asked.  Here the question is answered the
way the module does it: a pointer walks the list, and every character is read before it is
looked at.  A pointer is its offset in a buffer; a read outside of the buffer is `none`, and
so is a loop that has not ended after as many rounds as the buffer has bytes.
-/
import KernelGuard.Model.KbdScan
import KernelGuard.Lib.Tokens

namespace KernelGuard

/-! ### The string functions -/

/-- `strlen(s)`. -/
def strlen (s : List UInt8) : Option Nat := Tokens.scan (fun c => c = 0) s s.length 0

/-- `strcspn(s + p, reject)`. -/
def strcspn (s : List UInt8) (p : Nat) (reject : CStr) : Option Nat :=
  Tokens.scan (fun c => c = 0 || reject.contains c) s s.length p

/-- `strncmp(s + p, t + q, count)`. -/
def strncmp (s t : List UInt8) : Nat → Nat → Nat → Option Int
  | 0, _, _ => some 0
  | count + 1, p, q => do
      let c1 ← s[p]?
      let c2 ← t[q]?
      if c1 ≠ c2 then return if c1 < c2 then -1 else 1
      if c1 = 0 then return 0
      strncmp s t count (p + 1) (q + 1)

/-! ### The list -/

def kgListSep (c : UInt8) : Bool := c = chComma || c = chSpace

/-- `while (*p == ',' || *p == ' ') p++;`. -/
def skipSeps (csv : List UInt8) (p : Nat) : Option Nat := do
  let n ← Tokens.scan (fun c => !kgListSep c) csv csv.length p
  return p + n

/-- The loop of `kg_list_contains`, for so many rounds. -/
def kgListLoop (csv name : List UInt8) (nlen : Nat) : Nat → Nat → Option Bool
  | 0, _ => none
  | fuel + 1, p => do
      let c ← csv[p]?
      if c = 0 then return false
      let p ← skipSeps csv p
      let n ← strcspn csv p (str ", ")
      if n = nlen then
        if (← strncmp csv name n p 0) = 0 then return true
      kgListLoop csv name nlen fuel (p + n)

def kgListContainsMem (csv name : List UInt8) : Option Bool := do
  let nlen ← strlen name
  if nlen = 0 then return false
  kgListLoop csv name nlen csv.length 0

end KernelGuard
