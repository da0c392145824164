/-
`kgmon modid` (`linux/monitor/kgmon.c`): `read_module_file` and `cmd_modid`.

The file is read in the pieces the system gives, into a buffer that grows.  A schedule has one
entry for each turn of the loop: whether `realloc` succeeds, should it be called, and what `read`
does.  A `read` returns at least one byte while there is one, and never more than it was asked for
or than there are; new memory holds anything.
-/
import KernelGuard.Model.Modid
import KernelGuard.Model.Monitor

namespace KernelGuard

open Bytes

def modidMaxBytes : Nat := 256 * 2 ^ 20

/-- What one `read` does. -/
inductive ReadResult where
  /-- It returns up to `more + 1` bytes. -/
  | data (more : Nat)
  | eintr
  | error (errno : CStr)
  deriving DecidableEq

/-- `buf`, `len`, and what is still to come from the file; the capacity is the length of `buf`. -/
structure ModuleBuf where
  buf : List UInt8
  len : Nat
  rest : List UInt8

/-- How the loop ends, and what must not happen. -/
inductive ModuleRead where
  | done (buf : List UInt8) (len : Nat)
  | tooLarge
  | outOfMemory
  | failed (errno : CStr)
  /-- A write behind the end of the buffer. -/
  | overrun
  /-- The schedule is over. -/
  | reading
  deriving DecidableEq

variable (junk : Nat → Nat → UInt8)

/-- `realloc` to twice the size. -/
def growBuf (b : ModuleBuf) : ModuleBuf :=
  { b with
    buf := b.buf ++ (List.range b.buf.length).map fun i =>
      junk (2 * b.buf.length) (b.buf.length + i) }

/-- The `read` of one turn, of so many bytes; the loop goes on behind it with `go`. -/
def readInto (b : ModuleBuf) (go : ModuleBuf → ModuleRead) : ReadResult → ModuleRead
  | .eintr => go b
  | .error errno => .failed errno
  | .data more =>
      let n := min (more + 1) (min (b.buf.length - b.len) b.rest.length)
      if b.buf.length < b.len + n then .overrun
      else if n = 0 then .done b.buf b.len
      else go ⟨overwrite b.buf b.len (b.rest.take n), b.len + n, b.rest.drop n⟩

/-- The loop of `read_module_file`. -/
def moduleLoop : List (Bool × ReadResult) → ModuleBuf → ModuleRead
  | [], _ => .reading
  | (room, result) :: schedule, b =>
      if b.len = b.buf.length then
        if b.buf.length ≥ modidMaxBytes then .tooLarge
        else if !room then .outOfMemory
        else readInto (growBuf junk b) (moduleLoop schedule) result
      else readInto b (moduleLoop schedule) result

/-- `read_module_file`, of a file with this content that could be opened. -/
def readModuleFile (schedule : List (Bool × ReadResult)) (file : List UInt8) : ModuleRead :=
  moduleLoop junk schedule ⟨(List.range (2 ^ 20)).map (junk (2 ^ 20)), 0, file⟩

/-- `kg_modid_strerror`. -/
def kgModidStrerror : KgModidErr → CStr
  | .compressed =>
      str "compressed module: decompress it first (for example `zstd -dc x.ko.zst | kgmon modid -`)"
  | .notElf => str "not an ELF file"
  | .unsupported => str "not a 64-bit little-endian relocatable object (.ko)"
  | .badElf => str "damaged ELF: a header or section points outside the file"
  | .noModinfo => str "no .modinfo section: not a kernel module"
  | .noName => str ".modinfo has no name= entry"
  | .badField => str "a .modinfo field is too long or has characters the gate would not accept"

/-- What `kgmon modid` does: it prints, or dies with a message. -/
inductive ModidOut where
  | printed (text : CStr)
  | died (message : CStr)
  | overrun
  | reading
  deriving DecidableEq

/-- `%02x` of every byte. -/
def hexBytes (b : List UInt8) : CStr := b.flatMap fun x => hexText 2 x.toNat

/-- What `cmd_modid` prints about a module. -/
def modidReport (entryOnly : Bool) (m : KgModid) : CStr :=
  let entry := kgModidEntry modidEntrySize m
  if entryOnly then entry ++ str "\n"
  else
    str "module      : " ++ m.name ++ str "\n" ++
    str "srcversion  : " ++ (if m.srcversion ≠ [] then m.srcversion
      else str "(none: an entry matches every version)") ++ str "\n" ++
    str "version     : " ++ (if m.version ≠ [] then m.version else str "(none)") ++ str "\n" ++
    str "vermagic    : " ++ (if m.vermagic ≠ [] then m.vermagic else str "(none)") ++ str "\n" ++
    str "signature   : " ++ (if m.sigMarker then str "appended (the kernel checks it at load)"
      else str "not appended (refused when the kernel enforces signatures)") ++ str "\n" ++
    str "sha256      : " ++ hexBytes m.sha256 ++ str "\n" ++
    str "mod_deny    : " ++ entry ++ str "\n"

/-- The path as messages show it. -/
def shownPath (path : CStr) : CStr := if path = str "-" then str "(stdin)" else path

/-- `cmd_modid` behind its arguments. -/
def cmdModid (sha256 : List UInt8 → List UInt8) (entryOnly : Bool) (path : CStr)
    (schedule : List (Bool × ReadResult)) (file : List UInt8) : ModidOut :=
  match readModuleFile junk schedule file with
  | .done buf len =>
      match kgModidParse sha256 (buf.take len) with
      | .error rc => .died (shownPath path ++ str ": " ++ kgModidStrerror rc)
      | .ok m => .printed (modidReport entryOnly m)
  | .tooLarge => .died (path ++ str ": larger than 256 MiB, not a kernel module")
  | .outOfMemory => .died (str "out of memory")
  | .failed errno => .died (path ++ str ": " ++ errno)
  | .overrun => .overrun
  | .reading => .reading

end KernelGuard
