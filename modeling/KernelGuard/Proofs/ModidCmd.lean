/-
What `kgmon modid` prints does not depend on how the system cut the file into pieces.

`ModuleBuf.Holds` is the invariant of the loop: the buffer begins with what was read, the rest of
the file is still to come, and the size is the first size doubled some times, so that the limit is
met exactly.  Short reads and interrupted ones keep it; a file of 256 MiB is refused, also when it
ends there.

The schedule of the reads is a parameter, so the loop is followed turn by turn: an
interrupted read changes nothing, a read of some bytes moves them from what is to
come to what is there, and a read of nothing at the end of the file ends the loop.
Termination is counted in the turns that read something, since any number of
interruptions may come in between.
-/
import KernelGuard.Model.ModidCmd

namespace KernelGuard

open Bytes

/-- The buffer holds the first `len` bytes of the file. -/
structure ModuleBuf.Holds (file : List UInt8) (b : ModuleBuf) : Prop where
  split : file = b.buf.take b.len ++ b.rest
  inside : b.len ≤ b.buf.length
  size : ∃ j ≤ 8, b.buf.length = 2 ^ (20 + j)

section

variable {junk : Nat → Nat → UInt8} {file : List UInt8} {b : ModuleBuf}

theorem ModuleBuf.Holds.start :
    ModuleBuf.Holds file ⟨(List.range (2 ^ 20)).map (junk (2 ^ 20)), 0, file⟩ where
  split := rfl
  inside := Nat.zero_le _
  size := ⟨0, by omega, by rw [List.length_map, List.length_range]⟩

/-- The buffer is full, and may grow. -/
theorem ModuleBuf.Holds.grow (junk : Nat → Nat → UInt8) (h : b.Holds file) (hfull : b.len = b.buf.length)
    (hmax : b.buf.length < modidMaxBytes) :
    (growBuf junk b).Holds file ∧ (growBuf junk b).len < (growBuf junk b).buf.length := by
  obtain ⟨j, hj, hsize⟩ := h.size
  have hlen : (growBuf junk b).buf.length = 2 * b.buf.length := by
    simp only [growBuf, List.length_append, List.length_map, List.length_range]
    omega
  have hpos : 0 < b.buf.length := by
    rw [hsize]
    exact Nat.two_pow_pos _
  have hj' : j < 8 := by
    by_contra hge
    obtain rfl : j = 8 := by omega
    rw [hsize] at hmax
    exact absurd hmax (by decide)
  refine ⟨⟨?_, ?_, j + 1, hj', ?_⟩, ?_⟩
  · have htake : (growBuf junk b).buf.take b.len = b.buf.take b.len := by
      rw [growBuf, List.take_append_of_le_length (by omega)]
    rw [show (growBuf junk b).len = b.len from rfl, htake]
    exact h.split
  · rw [hlen]
    simp only [growBuf]
    omega
  · rw [hlen, hsize, show 20 + (j + 1) = (20 + j) + 1 from rfl, Nat.pow_succ, Nat.mul_comm]
  · rw [hlen]
    simp only [growBuf]
    omega

/-- A piece of the file is put behind what is there. -/
theorem ModuleBuf.Holds.piece (h : b.Holds file) {n : Nat} (hn : n ≤ b.rest.length)
    (hroom : b.len + n ≤ b.buf.length) :
    ModuleBuf.Holds file ⟨overwrite b.buf b.len (b.rest.take n), b.len + n, b.rest.drop n⟩ where
  split := by
    have hlen : (b.rest.take n).length = n := by rw [List.length_take]; omega
    have htake := @take_overwrite b.buf (b.rest.take n) b.len (by rw [hlen]; exact hroom)
    rw [hlen] at htake
    simp only [htake, List.append_assoc, List.take_append_drop]
    exact h.split
  inside := by simpa using hroom
  size := by simpa using h.size

/-- What the end of the loop says about the file. -/
def ModuleRead.Right (file : List UInt8) : ModuleRead → Prop
  | .done buf len => buf.take len = file ∧ file.length < modidMaxBytes
  | .tooLarge => modidMaxBytes ≤ file.length
  | .overrun => False
  | .outOfMemory | .failed _ | .reading => True

theorem readInto_right (h : b.Holds file) (hroom : b.len < b.buf.length)
    {go : ModuleBuf → ModuleRead} (hgo : ∀ b', b'.Holds file → (go b').Right file)
    (result : ReadResult) : (readInto b go result).Right file := by
  cases result with
  | eintr => exact hgo b h
  | error errno => trivial
  | data more =>
      simp only [readInto]
      have hle : min (more + 1) (min (b.buf.length - b.len) b.rest.length) ≤ b.rest.length := by omega
      split
      · omega
      split
      case isTrue hzero =>
        -- The file is over: there was room for more.
        have hrest : b.rest = [] := List.eq_nil_of_length_eq_zero (by omega)
        have hfile : file = b.buf.take b.len := by
          have := h.split
          rwa [hrest, List.append_nil] at this
        obtain ⟨j, hj, hsize⟩ := h.size
        have hcap : b.buf.length ≤ 2 ^ 28 := by
          rw [hsize]
          exact Nat.pow_le_pow_right (by decide) (by omega)
        refine ⟨hfile.symm, ?_⟩
        rw [hfile, List.length_take, show modidMaxBytes = 2 ^ 28 from rfl]
        omega
      case isFalse => exact hgo _ (h.piece hle (by omega))

theorem moduleLoop_right (schedule : List (Bool × ReadResult)) (h : b.Holds file) :
    (moduleLoop junk schedule b).Right file := by
  induction schedule generalizing b with
  | nil => trivial
  | cons turn schedule ih =>
      obtain ⟨room, result⟩ := turn
      rw [moduleLoop]
      split
      case isTrue hfull =>
        split
        case isTrue hmax =>
          have hlen := congrArg List.length h.split
          rw [List.length_append, List.length_take] at hlen
          rw [ModuleRead.Right]
          omega
        split
        · trivial
        · obtain ⟨hgrown, hroom⟩ := h.grow junk hfull (by omega)
          exact readInto_right hgrown hroom (fun _ => ih) result
      case isFalse hfull =>
        have := h.inside
        exact readInto_right h (by omega) (fun _ => ih) result

/-! ### The end of the loop

A turn that reads takes at least one byte of the file away.  So as many such turns as
the file has bytes, and one more for its end, are enough.
-/

/-- A turn in which nothing goes wrong. -/
def SmoothTurn (turn : Bool × ReadResult) : Prop := turn.1 = true ∧ ∀ errno, turn.2 ≠ .error errno

/-- The turns of a schedule in which something is read. -/
def dataTurns (schedule : List (Bool × ReadResult)) : Nat :=
  (schedule.filter fun turn => decide (turn.2 ≠ .eintr)).length

/-- The loop has ended by itself. -/
def ModuleRead.Ended : ModuleRead → Prop
  | .done _ _ | .tooLarge => True
  | .outOfMemory | .failed _ | .overrun | .reading => False

/-- Every turn that reads something takes a byte of the file, or is the last. -/
theorem moduleLoop_ended (schedule : List (Bool × ReadResult))
    (hsmooth : ∀ turn ∈ schedule, SmoothTurn turn) (h : b.Holds file)
    (hmany : b.rest.length < dataTurns schedule) : (moduleLoop junk schedule b).Ended := by
  induction schedule generalizing b with
  | nil => simp [dataTurns] at hmany
  | cons turn schedule ih =>
      obtain ⟨room, result⟩ := turn
      obtain ⟨hroom', herr⟩ := hsmooth _ List.mem_cons_self
      obtain rfl : room = true := hroom'
      have hrest := fun turn hturn => hsmooth turn (List.mem_cons_of_mem _ hturn)
      have hread {b' : ModuleBuf} (hb' : b'.Holds file) (hroom : b'.len < b'.buf.length)
          (hsame : b'.rest = b.rest) :
          (readInto b' (moduleLoop junk schedule) result).Ended := by
        cases result with
        | error errno => exact absurd rfl (herr errno)
        | eintr =>
            refine ih hrest hb' ?_
            rw [hsame]
            simpa [dataTurns] using hmany
        | data more =>
            have hmany' : b.rest.length < dataTurns schedule + 1 := by
              simpa [dataTurns] using hmany
            simp only [readInto]
            split
            · omega
            split
            · trivial
            · refine ih hrest (hb'.piece (by omega) (by omega)) ?_
              rw [List.length_drop, hsame]
              rw [hsame] at *
              omega
      rw [moduleLoop]
      split
      case isTrue hfull =>
        split
        · trivial
        · obtain ⟨hgrown, hroom⟩ := h.grow junk hfull (by omega)
          exact hread hgrown hroom rfl
      case isFalse hfull =>
        have := h.inside
        exact hread h (by omega) rfl

end

/-- What `kgmon modid` should say about a file. -/
def modidOf (sha256 : List UInt8 → List UInt8) (entryOnly : Bool) (path : CStr)
    (file : List UInt8) : ModidOut :=
  if modidMaxBytes ≤ file.length then
    .died (path ++ str ": larger than 256 MiB, not a kernel module")
  else
    match kgModidParse sha256 file with
    | .error rc => .died (shownPath path ++ str ": " ++ kgModidStrerror rc)
    | .ok m => .printed (modidReport entryOnly m)

/-- However the file comes in, in pieces of any size and with interruptions, `kgmon modid` says what
it should about the whole of it: it parses exactly the bytes of the file, and refuses exactly
those from 256 MiB on. -/
theorem modid_any_pieces (junk : Nat → Nat → UInt8) (sha256 : List UInt8 → List UInt8)
    (entryOnly : Bool) (path : CStr) (schedule : List (Bool × ReadResult)) (file : List UInt8)
    (hsmooth : ∀ turn ∈ schedule, SmoothTurn turn) (hmany : file.length < dataTurns schedule) :
    cmdModid junk sha256 entryOnly path schedule file = modidOf sha256 entryOnly path file := by
  have hright : (readModuleFile junk schedule file).Right file := moduleLoop_right schedule .start
  have hended : (readModuleFile junk schedule file).Ended :=
    moduleLoop_ended schedule hsmooth .start hmany
  rw [cmdModid, modidOf]
  cases hread : readModuleFile junk schedule file with
  | done buf len =>
      rw [hread] at hright
      obtain ⟨htake, hlt⟩ := hright
      rw [if_neg (by omega)]
      cases hparse : kgModidParse sha256 file with
      | error rc => simp only [htake, hparse]
      | ok m => simp only [htake, hparse]
  | tooLarge =>
      rw [hread] at hright
      exact (if_pos hright).symm
  | outOfMemory | failed | overrun | reading =>
      rw [hread] at hended
      exact hended.elim

/-- A short file, byte by byte and with an interruption. -/
theorem modid_any_pieces_short :
    cmdModid (fun _ _ => 0xcc) (fun _ => []) true (str "x.ko")
        ((true, .eintr) :: List.replicate 4 (true, .data 0)) [0x7f, 0x45, 0x4c]
      = .died (str "x.ko: not an ELF file") :=
  (modid_any_pieces _ _ _ _ _ _ (by
      intro turn hturn
      rcases List.mem_cons.mp hturn with rfl | hturn
      · simp [SmoothTurn]
      · rw [List.eq_of_mem_replicate hturn]
        simp [SmoothTurn]) (by decide)).trans (by decide +kernel)

end KernelGuard
