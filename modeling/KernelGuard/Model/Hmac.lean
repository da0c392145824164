/-
SHA-256 and HMAC-SHA256 of the monitor, from linux/monitor/kg_hmac.c.

The monitor carries its own implementation, so that nothing it could be linked against decides
whether an alert is genuine.  The context is filled by any number of `kg_sha256_update` calls and
emptied by `kg_sha256_final`.
-/
import KernelGuard.Lib.Sha256

namespace KernelGuard

open Sha256 (Words)

/-- `K`. -/
def kgShaK : List UInt32 :=
  [0x428a2f98, 0x71374491, 0xb5c0fbcf, 0xe9b5dba5, 0x3956c25b, 0x59f111f1, 0x923f82a4, 0xab1c5ed5,
   0xd807aa98, 0x12835b01, 0x243185be, 0x550c7dc3, 0x72be5d74, 0x80deb1fe, 0x9bdc06a7, 0xc19bf174,
   0xe49b69c1, 0xefbe4786, 0x0fc19dc6, 0x240ca1cc, 0x2de92c6f, 0x4a7484aa, 0x5cb0a9dc, 0x76f988da,
   0x983e5152, 0xa831c66d, 0xb00327c8, 0xbf597fc7, 0xc6e00bf3, 0xd5a79147, 0x06ca6351, 0x14292967,
   0x27b70a85, 0x2e1b2138, 0x4d2c6dfc, 0x53380d13, 0x650a7354, 0x766a0abb, 0x81c2c92e, 0x92722c85,
   0xa2bfe8a1, 0xa81a664b, 0xc24b8b70, 0xc76c51a3, 0xd192e819, 0xd6990624, 0xf40e3585, 0x106aa070,
   0x19a4c116, 0x1e376c08, 0x2748774c, 0x34b0bcb5, 0x391c0cb3, 0x4ed8aa4a, 0x5b9cca4f, 0x682e6ff3,
   0x748f82ee, 0x78a5636f, 0x84c87814, 0x8cc70208, 0x90befffa, 0xa4506ceb, 0xbef9a3f7, 0xc67178f2]

/-- `ROR`. -/
def ror (x n : UInt32) : UInt32 := (x >>> n) ||| (x <<< (32 - n))

/-- `w[i]` as it is loaded from the block. -/
def loadWord (p : List UInt8) (i : Nat) : UInt32 :=
  (p.getD (i * 4) 0).toUInt32 <<< 24 ||| (p.getD (i * 4 + 1) 0).toUInt32 <<< 16 |||
    (p.getD (i * 4 + 2) 0).toUInt32 <<< 8 ||| (p.getD (i * 4 + 3) 0).toUInt32

/-- `w[i]` from the words before it.  The words from `i` on are not yet there. -/
def extendWord (w : List UInt32) (i : Nat) : List UInt32 :=
  let s0 := ror (w.getD (i - 15) 0) 7 ^^^ ror (w.getD (i - 15) 0) 18 ^^^ (w.getD (i - 15) 0 >>> 3)
  let s1 := ror (w.getD (i - 2) 0) 17 ^^^ ror (w.getD (i - 2) 0) 19 ^^^ (w.getD (i - 2) 0 >>> 10)
  w ++ [w.getD (i - 16) 0 + s0 + w.getD (i - 7) 0 + s1]

/-- One turn of the loop over the rounds; the variables are `a` to `hh`. -/
def shaRound (w : List UInt32) (v : Words) (i : Nat) : Words :=
  let t1 := v.h + (ror v.e 6 ^^^ ror v.e 11 ^^^ ror v.e 25) + ((v.e &&& v.f) ^^^ (~~~v.e &&& v.g))
    + kgShaK.getD i 0 + w.getD i 0
  let t2 := (ror v.a 2 ^^^ ror v.a 13 ^^^ ror v.a 22)
    + ((v.a &&& v.b) ^^^ (v.a &&& v.c) ^^^ (v.b &&& v.c))
  { h := v.g, g := v.f, f := v.e, e := v.d + t1, d := v.c, c := v.b, b := v.a, a := t1 + t2 }

def sha256Block (h : Words) (p : List UInt8) : Words :=
  let loaded := (List.range 16).map (loadWord p)
  let w := (List.range' 16 48).foldl extendWord loaded
  let v := (List.range 64).foldl (shaRound w) h
  { a := h.a + v.a, b := h.b + v.b, c := h.c + v.c, d := h.d + v.d,
    e := h.e + v.e, f := h.f + v.f, g := h.g + v.g, h := h.h + v.h }

/-- `struct kg_sha256`.  Between two calls the buffer is never full. -/
structure KgSha256 where
  h : Words
  total : UInt64
  buf : List UInt8
  fill : Nat
  buf_len : buf.length = 64
  fill_lt : fill < 64

/-- The buffer keeps what it held. -/
def kgSha256Init (buf : List UInt8) (hbuf : buf.length = 64) : KgSha256 where
  h := { a := 0x6a09e667, b := 0xbb67ae85, c := 0x3c6ef372, d := 0xa54ff53a,
         e := 0x510e527f, f := 0x9b05688c, g := 0x1f83d9ab, h := 0x5be0cd19 }
  total := 0
  buf := buf
  fill := 0
  buf_len := hbuf
  fill_lt := by decide

/-- How many bytes one turn of the loop of `kg_sha256_update` takes. -/
def KgSha256.room (c : KgSha256) (len : Nat) : Nat :=
  if 64 - c.fill > len then len else 64 - c.fill

theorem KgSha256.room_le (c : KgSha256) (len : Nat) : c.fill + c.room len ≤ 64 := by
  have := c.fill_lt
  unfold KgSha256.room
  split <;> omega

theorem KgSha256.room_le_length (c : KgSha256) (len : Nat) : c.room len ≤ len := by
  unfold KgSha256.room
  split <;> omega

theorem KgSha256.room_pos (c : KgSha256) {len : Nat} (h : len ≠ 0) : 0 < c.room len := by
  have := c.fill_lt
  unfold KgSha256.room
  split <;> omega

/-- One turn of the loop of `kg_sha256_update`. -/
def KgSha256.take (c : KgSha256) (p : List UInt8) : KgSha256 :=
  let n := c.room p.length
  let buf := Bytes.overwrite c.buf c.fill (p.take n)
  have hbuf : buf.length = 64 := by rw [Bytes.length_overwrite, c.buf_len]
  if hfull : c.fill + n = 64 then
    { c with h := sha256Block c.h buf, buf := buf, fill := 0, buf_len := hbuf, fill_lt := by decide }
  else
    { c with
      buf := buf, fill := c.fill + n, buf_len := hbuf
      fill_lt := Nat.lt_of_le_of_ne (c.room_le p.length) hfull }

/-- The loop of `kg_sha256_update`: a turn takes at least one byte. -/
def KgSha256.takeAll (c : KgSha256) (p : List UInt8) : KgSha256 :=
  if p.length = 0 then c else (c.take p).takeAll (p.drop (c.room p.length))
termination_by p.length
decreasing_by
  have := c.room_pos ‹p.length ≠ 0›
  rw [List.length_drop]
  omega

def kgSha256Update (c : KgSha256) (data : List UInt8) : KgSha256 :=
  { c with total := c.total + UInt64.ofNat data.length }.takeAll data

theorem KgSha256.fill_take (c : KgSha256) (p : List UInt8) :
    (c.take p).fill = (c.fill + c.room p.length) % 64 := by
  unfold KgSha256.take
  by_cases hfull : c.fill + c.room p.length = 64
  · rw [dif_pos hfull, hfull]
  · rw [dif_neg hfull]
    exact (Nat.mod_eq_of_lt (Nat.lt_of_le_of_ne (c.room_le p.length) hfull)).symm

theorem kgSha256Update_byte_fill (c : KgSha256) (x : UInt8) :
    (kgSha256Update c [x]).fill = (c.fill + 1) % 64 := by
  have hroom : ∀ c : KgSha256, c.room 1 = 1 := fun c =>
    Nat.le_antisymm (c.room_le_length 1) (c.room_pos Nat.one_ne_zero)
  unfold kgSha256Update
  rw [KgSha256.takeAll, if_neg (by simp), KgSha256.takeAll, if_pos, KgSha256.fill_take]
  · rw [List.length_singleton, hroom]
  · rw [List.length_drop, List.length_singleton, hroom]

/-- The `while` of `kg_sha256_final`: zeros up to the place of the length. -/
def KgSha256.zeros (c : KgSha256) : KgSha256 :=
  if c.fill ≠ 56 then (kgSha256Update c [0]).zeros else c
termination_by (120 - c.fill) % 64
decreasing_by
  have := c.fill_lt
  rw [kgSha256Update_byte_fill]
  omega

/-- What is left in the context, and `out`. -/
def kgSha256Final (c : KgSha256) : KgSha256 × List UInt8 :=
  let bits := c.total * 8
  let len := (List.range 8).map fun i => (bits >>> UInt64.ofNat (56 - 8 * i)).toUInt8
  let c := kgSha256Update (kgSha256Update c [0x80]).zeros len
  (c, c.h.toList.flatMap fun w : UInt32 =>
    [(w >>> 24).toUInt8, (w >>> 16).toUInt8, (w >>> 8).toUInt8, w.toUInt8])

/-- `init`, one update for each chunk, `final`. -/
def kgSha256Stream (buf : List UInt8) (hbuf : buf.length = 64) (chunks : List (List UInt8)) :
    List UInt8 :=
  (kgSha256Final (chunks.foldl kgSha256Update (kgSha256Init buf hbuf))).2

/-- `kg_sha256_init` on a used context. -/
def KgSha256.reset (c : KgSha256) : KgSha256 := kgSha256Init c.buf c.buf_len

/-- `kg_hmac_sha256`; `buf` is what the context on the stack holds. -/
def kgHmacSha256 (buf : List UInt8) (hbuf : buf.length = 64) (key msg : List UInt8) : List UInt8 :=
  let c := kgSha256Init buf hbuf
  let k : List UInt8 := List.replicate 64 0
  let (c, k) :=
    if key.length > 64 then
      let (c, out) := kgSha256Final (kgSha256Update c key)
      (c, Bytes.overwrite k 0 out)
    else (c, Bytes.overwrite k 0 key) -- the context is not used before the next `kg_sha256_init`
  let ipad := k.map (· ^^^ 0x36)
  let opad := k.map (· ^^^ 0x5c)
  let (c, inner) := kgSha256Final (kgSha256Update (kgSha256Update c.reset ipad) msg)
  (kgSha256Final (kgSha256Update (kgSha256Update c.reset opad) inner)).2

end KernelGuard
