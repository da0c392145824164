/-
Python values as `json.loads` returns them, and what the tools under `tools/` do with them.

The dataset is loosely typed, and the tools do not check it: a method the value does not have
is an `AttributeError`, a loop over a number a `TypeError`.  The model raises where they do.
`lower` maps the ASCII letters only.  The tools compare its result with ASCII patterns, and no
other character has a lower case that occurs in one of them on its own.
-/
import KernelGuard.Lib.Hex
import Mathlib.Data.List.DropRight

namespace KernelGuard

abbrev Text := List Char

/-- The exceptions that end a tool. -/
inductive PyRaise where
  | attributeError
  | typeError
  | keyError
  | valueError
  | overflowError
  /-- `sqlite3.InterfaceError`: a value SQLite has no type for. -/
  | interfaceError
  /-- `sqlite3.IntegrityError`: a constraint of the schema. -/
  | integrityError
  deriving DecidableEq, Repr

inductive PyVal where
  | none
  | bool (b : Bool)
  | int (n : Int)
  /-- Of a float only its text in a database and its truth are ever looked at. -/
  | float (text : Text) (nonzero : Bool)
  | str (s : Text)
  | list (l : List PyVal)
  | dict (items : List (Text × PyVal))

namespace PyVal

/-- `bool(v)`. -/
def truthy : PyVal → Bool
  | .none => false
  | .bool b => b
  | .int n => n ≠ 0
  | .float _ nonzero => nonzero
  | .str s => !s.isEmpty
  | .list l => !l.isEmpty
  | .dict items => !items.isEmpty

/-- `v or w`. -/
def orElse (v w : PyVal) : PyVal := if v.truthy then v else w

/-- `v.get(key)`. -/
def get (v : PyVal) (key : String) : Except PyRaise PyVal :=
  match v with
  | .dict items => .ok ((items.lookup key.toList).getD .none)
  | _ => .error .attributeError

/-- `v[key]`. -/
def item (v : PyVal) (key : String) : Except PyRaise PyVal :=
  match v with
  | .dict items =>
      match items.lookup key.toList with
      | some w => .ok w
      | Option.none => .error .keyError
  | _ => .error .typeError

/-- `for x in v`. -/
def iter : PyVal → Except PyRaise (List PyVal)
  | .list l => .ok l
  | .dict items => .ok (items.map fun p => .str p.1)
  | .str s => .ok (s.map fun c => .str [c])
  | _ => .error .typeError

end PyVal

/-! ### Text -/

/-- `str.isspace`. -/
def pyIsSpace (c : Char) : Bool :=
  let n := c.toNat
  9 ≤ n && n ≤ 13 || 28 ≤ n && n ≤ 32 || n = 0x85 || n = 0xa0 || n = 0x1680 ||
    0x2000 ≤ n && n ≤ 0x200a || n = 0x2028 || n = 0x2029 || n = 0x202f || n = 0x205f ||
    n = 0x3000

def strip (s : Text) : Text := (s.dropWhile pyIsSpace).rdropWhile pyIsSpace

def lower (s : Text) : Text := s.map Char.toLower

/-- `v.strip()`. -/
def PyVal.strip : PyVal → Except PyRaise Text
  | .str s => .ok (KernelGuard.strip s)
  | _ => .error .attributeError

/-- A full match of `[0-9a-f]{n}`. -/
def isHex (n : Nat) (s : Text) : Bool := decide (s.length = n) && s.all Hex.isDigit

/-- What follows in a pattern that ends in `$`: the end of the text, or a line break there. -/
def matchEnd (p : Text → Bool) (s : Text) : Bool :=
  p s || decide (s.getLast? = some '\n') && p s.dropLast

/-- `HEX64.match`. -/
def hex64Match (s : Text) : Bool := matchEnd (isHex 64) s

end KernelGuard
