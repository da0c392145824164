/-
The monitor's SHA-256 is the standard's, however the message comes in.

`Absorbed d c` says what a context holds after the bytes `d`: the hash of the whole blocks of
`d`, and the bytes of the block that is still open.  One turn of the loop of
`kg_sha256_update` keeps it (`Absorbed.take`), so any sequence of updates does, and
`kg_sha256_final` is then nothing but three more updates.

The round of the compression function and the table of constants are compared with
the standard's one word at a time, so that the block function is equal to the
standard's and the two loops over blocks are the same fold.  What is left is
bookkeeping about lengths: the counter of bits, and where in the open block the
padding begins.
-/
import KernelGuard.Model.Hmac
import Mathlib.Tactic.IntervalCases

namespace KernelGuard

open Sha256

/-! ### One block

Words are put together from four bytes by shifts, and the message schedule is
extended in place.  Both are the standard's definitions read in another order, and
the induction is over the words written so far.
-/

/-- The table of the source is the standard's. -/
theorem kgShaK_eq : kgShaK = roundConstants := by decide +kernel

theorem initial_eq : initial = ⟨0x6a09e667, 0xbb67ae85, 0x3c6ef372, 0xa54ff53a,
    0x510e527f, 0x9b05688c, 0x1f83d9ab, 0x5be0cd19⟩ := by
  decide +kernel

theorem ror_eq (x n : UInt32) : ror x n = rotr n x := rfl

/-- Four bytes shifted into place are the number they stand for. -/
theorem word_of_bytes (a b c d : UInt8) :
    a.toUInt32 <<< 24 ||| b.toUInt32 <<< 16 ||| c.toUInt32 <<< 8 ||| d.toUInt32
      = UInt32.ofNat (beValue [a, b, c, d]) := by
  have ha := a.toNat_lt
  have hb := b.toNat_lt
  have hc := c.toNat_lt
  have hd := d.toNat_lt
  -- each shift stays inside the word
  have hshift : ∀ {x : Nat} {k : UInt32}, x * 2 ^ (k.toNat % 32) < 2 ^ 32 →
      x <<< (k.toNat % 32) % 2 ^ 32 = x * 2 ^ (k.toNat % 32) := by
    intro x k hx
    rw [Nat.shiftLeft_eq, Nat.mod_eq_of_lt hx]
  apply UInt32.toNat.inj
  simp only [UInt32.toNat_or, UInt32.toNat_shiftLeft, UInt8.toNat_toUInt32]
  rw [hshift (by simp; omega), hshift (by simp; omega), hshift (by simp; omega)]
  rw [show (24 : UInt32).toNat % 32 = 24 from rfl, show (16 : UInt32).toNat % 32 = 16 from rfl,
    show (8 : UInt32).toNat % 32 = 8 from rfl, Bytes.mul_two_pow_or (by omega)]
  rw [show a.toNat * 2 ^ 24 + b.toNat * 2 ^ 16 = (a.toNat * 2 ^ 8 + b.toNat) * 2 ^ 16 by omega,
    Bytes.mul_two_pow_or (by omega)]
  rw [show (a.toNat * 2 ^ 8 + b.toNat) * 2 ^ 16 + c.toNat * 2 ^ 8
      = ((a.toNat * 2 ^ 8 + b.toNat) * 2 ^ 8 + c.toNat) * 2 ^ 8 by omega,
    Bytes.mul_two_pow_or (by omega)]
  simp only [beValue, List.foldl_cons, List.foldl_nil, UInt32.toNat_ofNat']
  omega

theorem take_four {l : List UInt8} (h : 4 ≤ l.length) :
    l.take 4 = [l.getD 0 0, l.getD 1 0, l.getD 2 0, l.getD 3 0] := by
  match l, h with
  | a :: b :: c :: d :: rest, _ => rfl

theorem loadWord_eq {p : List UInt8} (hp : p.length = 64) {j : Nat} (hj : j < 16) :
    loadWord p j = UInt32.ofNat (beValue ((p.drop (4 * j)).take 4)) := by
  rw [take_four (by rw [List.length_drop]; omega), loadWord, word_of_bytes]
  simp only [List.getD_eq_getElem?_getD, List.getElem?_drop, Nat.add_zero, Nat.mul_comm]

theorem extend_loop (m : List UInt32) (n : Nat) :
    (List.range' 16 n).foldl extendWord m = schedule m n := by
  induction n with
  | zero => rfl
  | succ n ih =>
      rw [List.range'_concat, List.foldl_append, ih, List.foldl_cons, List.foldl_nil]
      simp only [extendWord, schedule, Nat.one_mul, smallSigma0, smallSigma1, ror_eq]
      congr 2
      ac_rfl

theorem shaRound_eq (w : List UInt32) (v : Words) (i : Nat) :
    shaRound w v i = round (roundConstants.getD i 0) (w.getD i 0) v := by
  rw [← kgShaK_eq]
  rfl

theorem round_loop (w : List UInt32) (v : Words) (n : Nat) :
    (List.range n).foldl (shaRound w) v = rounds w v n := by
  induction n with
  | zero => rfl
  | succ n ih =>
      rw [List.range_succ, List.foldl_append, ih, List.foldl_cons, List.foldl_nil, shaRound_eq]
      rfl

theorem sha256Block_eq (h : Words) {p : List UInt8} (hp : p.length = 64) :
    sha256Block h p = compress h p := by
  have hload : (List.range 16).map (loadWord p) = blockWords p :=
    List.map_congr_left fun j hj => loadWord_eq hp (List.mem_range.mp hj)
  unfold sha256Block compress
  simp only [hload, extend_loop, round_loop, Words.add, UInt32.add_comm]

/-! ### Updates

One turn of the loop takes as many bytes as the open block has room for.  The bytes
taken are a prefix of those left, and each turn takes at least one, so the loop ends
with all of them absorbed.
-/

/-- What a context holds after the bytes `d`. -/
structure Absorbed (d : List UInt8) (c : KgSha256) : Prop where
  hash : c.h = (blocks d).foldl compress initial
  fill : c.fill = d.length % 64
  rest : c.buf.take c.fill = d.drop (64 * (d.length / 64))

theorem absorbed_init (buf : List UInt8) (hbuf : buf.length = 64) :
    Absorbed [] (kgSha256Init buf hbuf) where
  hash := initial_eq.symm
  fill := rfl
  rest := rfl

theorem Absorbed.take {d : List UInt8} {c : KgSha256} (hc : Absorbed d c) (p : List UInt8) :
    Absorbed (d ++ p.take (c.room p.length)) (c.take p) := by
  have hlen : (p.take (c.room p.length)).length = c.room p.length := by
    rw [List.length_take]
    exact Nat.min_eq_left (c.room_le_length p.length)
  have hle := c.room_le p.length
  have hfill := hc.fill
  have hbuf : (Bytes.overwrite c.buf c.fill (p.take (c.room p.length))).take
      (c.fill + c.room p.length) = d.drop (64 * (d.length / 64)) ++ p.take (c.room p.length) := by
    have hcopy := @Bytes.take_overwrite c.buf (p.take (c.room p.length)) c.fill
      (by rw [hlen, c.buf_len]; exact hle)
    rwa [hlen, hc.rest] at hcopy
  have hblocks := blocks_append (d := d) (x := p.take (c.room p.length)) (by omega)
  unfold KgSha256.take
  by_cases hfull : c.fill + c.room p.length = 64
  · -- the block is complete
    have hbuflen : (Bytes.overwrite c.buf c.fill (p.take (c.room p.length))).length = 64 := by
      rw [Bytes.length_overwrite, c.buf_len]
    rw [hfull, List.take_of_length_le (Nat.le_of_eq hbuflen)] at hbuf
    rw [dif_pos hfull]
    refine ⟨?_, ?_, ?_⟩
    · rw [hblocks, if_pos (by omega), List.foldl_append, ← hc.hash, ← hbuf]
      exact sha256Block_eq _ hbuflen
    · rw [List.length_append, hlen]
      dsimp only
      omega
    · rw [List.drop_eq_nil_of_le]
      · rfl
      · rw [List.length_append, hlen]
        omega
  · rw [dif_neg hfull]
    refine ⟨?_, ?_, ?_⟩
    · rw [hblocks, if_neg (by omega)]
      exact hc.hash
    · rw [List.length_append, hlen]
      dsimp only
      omega
    · rw [List.length_append, hlen,
        show (d.length + c.room p.length) / 64 = d.length / 64 by omega,
        List.drop_append_of_le_length (by omega)]
      exact hbuf

theorem Absorbed.takeAll {d : List UInt8} {c : KgSha256} (hc : Absorbed d c) (p : List UInt8) :
    Absorbed (d ++ p) (c.takeAll p) := by
  fun_induction KgSha256.takeAll c p generalizing d with
  | case1 c p hnil =>
      rw [List.length_eq_zero_iff.mp hnil, List.append_nil]
      exact hc
  | case2 c p _ ih =>
      have hstep := ih (hc.take p)
      rwa [List.append_assoc, List.take_append_drop] at hstep

theorem Absorbed.update {d : List UInt8} {c : KgSha256} (hc : Absorbed d c) (data : List UInt8) :
    Absorbed (d ++ data) (kgSha256Update c data) :=
  Absorbed.takeAll (c := { c with total := c.total + UInt64.ofNat data.length })
    ⟨hc.hash, hc.fill, hc.rest⟩ data

theorem total_take (c : KgSha256) (p : List UInt8) : (c.take p).total = c.total := by
  unfold KgSha256.take
  dsimp only
  split <;> rfl

theorem total_takeAll (c : KgSha256) (p : List UInt8) : (c.takeAll p).total = c.total := by
  fun_induction KgSha256.takeAll c p with
  | case1 c p _ => rfl
  | case2 c p _ ih => rw [ih, total_take]

theorem total_update (c : KgSha256) (data : List UInt8) :
    (kgSha256Update c data).total = c.total + UInt64.ofNat data.length :=
  total_takeAll _ _

/-! ### The last update

The padding is a byte, then zeros up to the place of the length, then the length.  If
the open block is too full for the length, the zeros run over into one more block;
counting modulo 64 takes both cases together.
-/

/-- The zeros reach the place of the length. -/
theorem Absorbed.zeros {d : List UInt8} {c : KgSha256} (hc : Absorbed d c) :
    Absorbed (d ++ List.replicate ((120 - d.length % 64) % 64) 0) c.zeros := by
  fun_induction KgSha256.zeros c generalizing d with
  | case1 c hmore ih =>
      have hfill := hc.fill
      have hlt := c.fill_lt
      have hcount : (120 - d.length % 64) % 64
          = (120 - (d ++ [(0 : UInt8)]).length % 64) % 64 + 1 := by
        rw [List.length_append, List.length_singleton]
        omega
      rw [hcount, List.replicate_succ, List.append_cons]
      exact ih (hc.update [0])
  | case2 c hdone =>
      have hfill := hc.fill
      rw [show (120 - d.length % 64) % 64 = 0 by omega, List.replicate_zero, List.append_nil]
      exact hc

theorem byte_of_shift (x : UInt64) {k : Nat} (hk : k < 64) :
    (x >>> UInt64.ofNat k).toUInt8 = UInt8.ofNat (x.toNat / 2 ^ k) := by
  apply UInt8.toNat.inj
  rw [UInt64.toNat_toUInt8, UInt64.toNat_shiftRight, UInt64.toNat_ofNat', UInt8.toNat_ofNat',
    Nat.mod_eq_of_lt (show k < 2 ^ 64 by omega), Nat.mod_eq_of_lt hk, Nat.shiftRight_eq_div_pow]

/-- The eight bytes of the length. -/
theorem length_bytes (n : Nat) :
    (List.range 8).map (fun i => ((UInt64.ofNat n * 8) >>> UInt64.ofNat (56 - 8 * i)).toUInt8)
      = beBytes 8 (8 * n) := by
  have hbits : (UInt64.ofNat n * 8).toNat = 8 * n % 2 ^ 64 := by
    rw [UInt64.toNat_mul, UInt64.toNat_ofNat', show (8 : UInt64).toNat = 8 from rfl]
    omega
  have hbytes : ∀ i ∈ List.range 8,
      ((UInt64.ofNat n * 8) >>> UInt64.ofNat (56 - 8 * i)).toUInt8
        = UInt8.ofNat (8 * n / 2 ^ (56 - 8 * i)) := by
    intro i hi
    rw [byte_of_shift _ (by omega), hbits]
    apply UInt8.toNat.inj
    rw [UInt8.toNat_ofNat', UInt8.toNat_ofNat']
    rw [List.mem_range] at hi
    interval_cases i <;> omega
  rw [List.map_congr_left hbytes]
  simp [List.range_succ, beBytes, Bytes.leBytes, Nat.div_div_eq_div_mul]

/-- The four bytes of a word of the hash. -/
theorem word_bytes (w : UInt32) :
    [(w >>> 24).toUInt8, (w >>> 16).toUInt8, (w >>> 8).toUInt8, w.toUInt8] = beBytes 4 w.toNat := by
  simp only [beBytes, Bytes.leBytes, Nat.div_div_eq_div_mul, List.reverse_cons, List.reverse_nil,
    List.nil_append, List.cons_append]
  refine congrArg₂ _ ?_ (congrArg₂ _ ?_ (congrArg₂ _ ?_ (congrArg₂ _ ?_ rfl)))
  all_goals
    apply UInt8.toNat.inj
    simp [Nat.shiftRight_eq_div_pow]

theorem Absorbed.final {d : List UInt8} {c : KgSha256} (hc : Absorbed d c)
    (htotal : c.total = UInt64.ofNat d.length) : (kgSha256Final c).2 = digest d := by
  have hpad := ((hc.update [0x80]).zeros).update (beBytes 8 (8 * d.length))
  have hcount : (120 - (d ++ [(0x80 : UInt8)]).length % 64) % 64 = zeroCount d.length := by
    rw [List.length_append, List.length_singleton, zeroCount]
    omega
  rw [hcount] at hpad
  simp only [kgSha256Final, word_bytes, htotal, length_bytes, hpad.hash, digest, pad]

/-! ### Whole messages and HMAC

HMAC is two hashes, each over a block made of the key and a message that is known in
full.  A key longer than a block is hashed first, and any other is overwritten into
zeros.
-/

/-- After any number of updates the context holds what they brought. -/
theorem updates_absorbed {d : List UInt8} {c : KgSha256} (hc : Absorbed d c)
    (htotal : c.total = UInt64.ofNat d.length) (chunks : List (List UInt8)) :
    Absorbed (d ++ chunks.flatten) (chunks.foldl kgSha256Update c) ∧
      (chunks.foldl kgSha256Update c).total = UInt64.ofNat (d ++ chunks.flatten).length := by
  induction chunks generalizing d c with
  | nil =>
      rw [List.flatten_nil, List.append_nil]
      exact ⟨hc, htotal⟩
  | cons x rest ih =>
      rw [List.foldl_cons, List.flatten_cons, ← List.append_assoc]
      refine ih (hc.update x) ?_
      rw [total_update, htotal, List.length_append, UInt64.ofNat_add]

theorem stream_digest (buf : List UInt8) (hbuf : buf.length = 64) (chunks : List (List UInt8)) :
    kgSha256Stream buf hbuf chunks = digest chunks.flatten := by
  obtain ⟨habs, htotal⟩ := updates_absorbed (absorbed_init buf hbuf) rfl chunks
  exact habs.final htotal

theorem overwrite_zeros {x : List UInt8} (h : x.length ≤ 64) :
    Bytes.overwrite (List.replicate 64 0) 0 x = x ++ List.replicate (64 - x.length) 0 := by
  refine List.ext_getElem? fun i => ?_
  rcases Nat.lt_or_ge i x.length with hi | hi
  · have hin := @Bytes.overwrite_inside (List.replicate 64 0) x 0 i (by simpa using h) hi
    rw [Nat.zero_add] at hin
    rw [hin, List.getElem?_append_left hi]
  · rw [Bytes.overwrite_outside (.inr (by omega)), List.getElem?_append_right hi]
    simp only [List.getElem?_replicate]
    congr 1
    exact propext (by omega)

theorem hmac_spec (buf : List UInt8) (hbuf : buf.length = 64) (key msg : List UInt8) :
    kgHmacSha256 buf hbuf key msg = hmac key msg := by
  have hone : (kgSha256Final (kgSha256Update (kgSha256Init buf hbuf) key)).2 = digest key := by
    have h := stream_digest buf hbuf [key]
    rwa [List.flatten_singleton] at h
  have htwo : ∀ (c : KgSha256) (a b : List UInt8),
      (kgSha256Final (kgSha256Update (kgSha256Update c.reset a) b)).2 = digest (a ++ b) := by
    intro c a b
    have h := stream_digest c.buf c.buf_len [a, b]
    rwa [List.flatten_cons, List.flatten_singleton] at h
  unfold kgHmacSha256 hmac hmacKey
  by_cases hlong : key.length > 64
  · simp only [if_pos hlong, hone, htwo]
    rw [overwrite_zeros (by rw [length_digest]; decide)]
  · simp only [if_neg hlong, htwo]
    rw [overwrite_zeros (Nat.le_of_not_gt hlong)]

/-- However a message is cut into updates the monitor computes its SHA-256, and over that
its HMAC, whatever the context held before. -/
theorem sha256_and_hmac (buf : List UInt8) (hbuf : buf.length = 64) :
    (∀ chunks, kgSha256Stream buf hbuf chunks = digest chunks.flatten) ∧
      ∀ key msg, kgHmacSha256 buf hbuf key msg = hmac key msg :=
  ⟨stream_digest buf hbuf, hmac_spec buf hbuf⟩

/-- "abc" in three updates, and the second case of RFC 4231. -/
theorem sha256_and_hmac_vectors :
    kgSha256Stream (List.replicate 64 0) rfl ["a".toUTF8.toList, [], "bc".toUTF8.toList]
        = [0xba, 0x78, 0x16, 0xbf, 0x8f, 0x01, 0xcf, 0xea, 0x41, 0x41, 0x40, 0xde, 0x5d, 0xae, 0x22,
           0x23, 0xb0, 0x03, 0x61, 0xa3, 0x96, 0x17, 0x7a, 0x9c, 0xb4, 0x10, 0xff, 0x61, 0xf2, 0x00,
           0x15, 0xad] ∧
      kgHmacSha256 (List.replicate 64 0) rfl "Jefe".toUTF8.toList
          "what do ya want for nothing?".toUTF8.toList
        = [0x5b, 0xdc, 0xc1, 0x46, 0xbf, 0x60, 0x75, 0x4e, 0x6a, 0x04, 0x24, 0x26, 0x08, 0x95, 0x75,
           0xc7, 0x5a, 0x00, 0x3f, 0x08, 0x9d, 0x27, 0x39, 0x83, 0x9d, 0xec, 0x58, 0xb9, 0x64, 0xec,
           0x38, 0x43] := by
  obtain ⟨hstream, hhmac⟩ := sha256_and_hmac (List.replicate 64 0) rfl
  rw [hstream, hhmac]
  decide +kernel

end KernelGuard
