/-
SHA-256 as FIPS 180-4 defines it, and HMAC as RFC 2104 does.

Messages are sequences of bytes here, so that a length of `l` bits is `8 * length`.  The
constants are not listed but computed: the standard takes them from the fractional parts of
the square roots of the first 8 and the cube roots of the first 64 primes.

The lemmas are about how a message falls into blocks, which is what an implementation that
gets it piece by piece has to keep track of.
-/
import KernelGuard.Lib.Bytes

namespace Sha256

/-! ### Functions and constants (sections 4.1.2, 4.2.2, 5.3.3) -/

def rotr (n x : UInt32) : UInt32 := (x >>> n) ||| (x <<< (32 - n))

def ch (x y z : UInt32) : UInt32 := (x &&& y) ^^^ (~~~x &&& z)
def maj (x y z : UInt32) : UInt32 := (x &&& y) ^^^ (x &&& z) ^^^ (y &&& z)

def bigSigma0 (x : UInt32) : UInt32 := rotr 2 x ^^^ rotr 13 x ^^^ rotr 22 x
def bigSigma1 (x : UInt32) : UInt32 := rotr 6 x ^^^ rotr 11 x ^^^ rotr 25 x
def smallSigma0 (x : UInt32) : UInt32 := rotr 7 x ^^^ rotr 18 x ^^^ (x >>> 3)
def smallSigma1 (x : UInt32) : UInt32 := rotr 17 x ^^^ rotr 19 x ^^^ (x >>> 10)

/-- The largest number below `2 ^ bits` whose `k`-th power is at most `n`. -/
def root (k n : Nat) : Nat → Nat
  | 0 => 0
  | bits + 1 =>
      let r := 2 * root k (n / 2 ^ k) bits
      if (r + 1) ^ k ≤ n then r + 1 else r

/-- The first 32 bits of the fractional part of the `k`-th root of `p`. -/
def rootBits (k p : Nat) : UInt32 := UInt32.ofNat (root k (p * 2 ^ (32 * k)) 37)

/-- The first 64 primes. -/
def primes : List Nat :=
  [2, 3, 5, 7, 11, 13, 17, 19, 23, 29, 31, 37, 41, 43, 47, 53,
   59, 61, 67, 71, 73, 79, 83, 89, 97, 101, 103, 107, 109, 113, 127, 131,
   137, 139, 149, 151, 157, 163, 167, 173, 179, 181, 191, 193, 197, 199, 211, 223,
   227, 229, 233, 239, 241, 251, 257, 263, 269, 271, 277, 281, 283, 293, 307, 311]

/-- `K`. -/
def roundConstants : List UInt32 := primes.map (rootBits 3)

/-- The eight words of a hash value, and the eight working variables. -/
structure Words where
  a : UInt32
  b : UInt32
  c : UInt32
  d : UInt32
  e : UInt32
  f : UInt32
  g : UInt32
  h : UInt32
  deriving DecidableEq, Repr

def Words.ofList (l : List UInt32) : Words :=
  ⟨l.getD 0 0, l.getD 1 0, l.getD 2 0, l.getD 3 0, l.getD 4 0, l.getD 5 0, l.getD 6 0, l.getD 7 0⟩

def Words.toList (s : Words) : List UInt32 := [s.a, s.b, s.c, s.d, s.e, s.f, s.g, s.h]

def Words.add (s t : Words) : Words :=
  ⟨s.a + t.a, s.b + t.b, s.c + t.c, s.d + t.d, s.e + t.e, s.f + t.f, s.g + t.g, s.h + t.h⟩

/-- The initial hash value. -/
def initial : Words := Words.ofList ((primes.take 8).map (rootBits 2))

/-! ### One block (section 6.2.2) -/

/-- The number that bytes stand for, most significant first. -/
def beValue (b : List UInt8) : Nat := b.foldl (fun acc x => 256 * acc + x.toNat) 0

/-- The `k` low bytes of `n`, most significant first. -/
def beBytes (k n : Nat) : List UInt8 := (Bytes.leBytes k n).reverse

/-- The 16 words of a block. -/
def blockWords (block : List UInt8) : List UInt32 :=
  (List.range 16).map fun j => UInt32.ofNat (beValue ((block.drop (4 * j)).take 4))

/-- The message schedule up to `W` number `15 + n`. -/
def schedule (m : List UInt32) : Nat → List UInt32
  | 0 => m
  | n + 1 =>
      let w := schedule m n
      let t := 16 + n
      w ++ [smallSigma1 (w.getD (t - 2) 0) + w.getD (t - 7) 0 + smallSigma0 (w.getD (t - 15) 0)
        + w.getD (t - 16) 0]

def round (k w : UInt32) (s : Words) : Words :=
  let t1 := s.h + bigSigma1 s.e + ch s.e s.f s.g + k + w
  let t2 := bigSigma0 s.a + maj s.a s.b s.c
  ⟨t1 + t2, s.a, s.b, s.c, s.d + t1, s.e, s.f, s.g⟩

/-- The working variables after `t` rounds. -/
def rounds (w : List UInt32) (s : Words) : Nat → Words
  | 0 => s
  | t + 1 => round (roundConstants.getD t 0) (w.getD t 0) (rounds w s t)

def compress (s : Words) (block : List UInt8) : Words :=
  (rounds (schedule (blockWords block) 48) s 64).add s

/-! ### Messages (sections 5.1.1, 5.2.1) -/

/-- The number of zero bytes after the byte that holds the one bit: the least that lets 8 bytes fit. -/
def zeroCount (length : Nat) : Nat := (119 - length % 64) % 64

def pad (msg : List UInt8) : List UInt8 :=
  msg ++ [0x80] ++ List.replicate (zeroCount msg.length) 0 ++ beBytes 8 (8 * msg.length)

/-- The whole blocks of 64 bytes. -/
def blocks (l : List UInt8) : List (List UInt8) :=
  (List.range (l.length / 64)).map fun i => (l.drop (64 * i)).take 64

def digest (msg : List UInt8) : List UInt8 :=
  ((blocks (pad msg)).foldl compress initial).toList.flatMap fun w => beBytes 4 w.toNat

/-! ### HMAC (RFC 2104) -/

/-- The key, hashed if it is longer than a block and filled up with zeros. -/
def hmacKey (key : List UInt8) : List UInt8 :=
  let k := if key.length > 64 then digest key else key
  k ++ List.replicate (64 - k.length) 0

def hmac (key text : List UInt8) : List UInt8 :=
  digest ((hmacKey key).map (· ^^^ 0x5c)
    ++ digest ((hmacKey key).map (· ^^^ 0x36) ++ text))

/-! ### Block by block -/

/-- Bytes that fill the open block complete it; fewer leave it open. -/
theorem blocks_append {d x : List UInt8} (hle : d.length % 64 + x.length ≤ 64) :
    blocks (d ++ x) = if d.length % 64 + x.length = 64 then
      blocks d ++ [d.drop (64 * (d.length / 64)) ++ x] else blocks d := by
  -- the blocks of `d` are not touched
  have hold : ∀ i < d.length / 64,
      ((d ++ x).drop (64 * i)).take 64 = (d.drop (64 * i)).take 64 := by
    intro i hi
    rw [List.drop_append_of_le_length (by omega), List.take_append_of_le_length]
    rw [List.length_drop]
    omega
  have hmap : (List.range (d.length / 64)).map (fun i => ((d ++ x).drop (64 * i)).take 64)
      = blocks d := by
    refine List.map_congr_left ?_
    intro i hi
    exact hold i (List.mem_range.mp hi)
  unfold blocks at hmap ⊢
  rw [List.length_append]
  split_ifs with hfull
  · rw [show (d.length + x.length) / 64 = d.length / 64 + 1 by omega, List.range_succ,
      List.map_append, hmap, List.map_singleton, List.drop_append_of_le_length (by omega),
      List.take_of_length_le]
    rw [List.length_append, List.length_drop]
    omega
  · rw [show (d.length + x.length) / 64 = d.length / 64 by omega, hmap]

theorem length_digest (msg : List UInt8) : (digest msg).length = 32 := by
  simp [digest, Words.toList, beBytes]

end Sha256
