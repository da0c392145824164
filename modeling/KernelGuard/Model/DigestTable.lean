/-
The driver's end of the deny list: `windows/src/digest_table.c`, and `LgLoadBuiltin` and
`LgBuiltinFind` of `windows/src/driver_load_guard.c`.

Between the two stands the compiler, which turns the generated header into two arrays.
`compileHeader` reads as much of C as the header has: comments, one `#define`, string literals
without escapes, and the limits of an array's size.
-/
import KernelGuard.Model.LolDrivers
import KernelGuard.Lib.Search

namespace KernelGuard

/-! ### `digest_table.c` -/

/-- `DT_DIGEST`. -/
structure DtDigest where
  bytes : List UInt8
  length_eq : bytes.length = 32
  deriving DecidableEq

/-- `DtCompare`. -/
def dtCompare : List UInt8 → List UInt8 → Int
  | a :: as, b :: bs => if a ≠ b then (if a < b then -1 else 1) else dtCompare as bs
  | _, _ => 0

/-- `DtIsAscending`. -/
def dtIsAscending : List DtDigest → Bool
  | a :: b :: rest => if dtCompare a.bytes b.bytes ≥ 0 then false else dtIsAscending (b :: rest)
  | _ => true

/-- `(int)n`. -/
def castInt (n : Nat) : Int := (BitVec.ofNat 32 n).toInt

/-- `DtFind`; no table is a null pointer. -/
def dtFind (table : Option (List DtDigest)) (sorted : Bool) (digest : DtDigest) : Int :=
  match table with
  | none => -1
  | some table =>
      if table.isEmpty then -1
      else
        let found :=
          if sorted then
            BinarySearch.search
              (fun i => dtCompare ((table[i]?.map DtDigest.bytes).getD []) digest.bytes)
              table.length 0 table.length
          else table.findIdx? fun entry => decide (dtCompare entry.bytes digest.bytes = 0)
        match found with
        | some i => castInt i
        | none => -1

/-! ### The header, compiled -/

end KernelGuard
