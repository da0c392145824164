/-
What one call of `kg_comms_notify` can do to the channel.

Either the next notification is in the ring, or the ring is as it was; which of the
two is the rate limiter's decision for everything below critical.

`kg_comms_notify` fails for three reasons: the channel is down, the bucket is empty,
or the HMAC fails.  Only the last one comes after a sequence number has been taken,
and there it is handed back, so a failure is not seen by the next call.
`kgCommsNotify_cases` is the one lemma by which the runs of the channel know this
function.
-/
import KernelGuard.Model.Comms
import Mathlib.Tactic.SplitIfs

namespace KernelGuard

variable (mac : List UInt8 → KgMac)

/-! ### The token bucket

The bucket is two small counters and a time.  A refill adds what the elapsed time has
earned, up to the burst, so it leaves at least one token; hence the test for a token
and the test for an elapsed interval together say when a call is admitted.
-/

/-- The bucket admits a call at `now`: a token is left, or one refill interval has passed. -/
def hasToken (now : UInt64) (c : KgComms) : Prop :=
  c.rlTokens ≠ 0 ∨ (now - c.rlLastNs) / kgRlIntervalNs ≠ 0

/-- A refill leaves at least one token: the sum of the two widths cannot wrap to zero. -/
theorem refill_ne_zero (tokens : UInt32) (d : UInt64) (h : d / kgRlIntervalNs ≠ 0) :
    (min kgRlBurst.toUInt64 (tokens.toUInt64 + d / kgRlIntervalNs)).toUInt32 ≠ 0 := by
  have hadd : (d / kgRlIntervalNs).toNat ≠ 0 := fun h0 => h (UInt64.toNat_inj.mp h0)
  have hdiv : (d / kgRlIntervalNs).toNat = d.toNat / 100000000 := UInt64.toNat_div _ _
  have hd := d.toNat_lt
  have ht := tokens.toNat_lt
  have hsum : (tokens.toUInt64 + d / kgRlIntervalNs).toNat
      = tokens.toNat + (d / kgRlIntervalNs).toNat := by
    rw [UInt64.toNat_add, UInt32.toNat_toUInt64]
    omega
  intro hzero
  have hz := congrArg UInt32.toNat hzero
  rw [UInt64.toNat_toUInt32] at hz
  have hburst : kgRlBurst.toUInt64.toNat = 32 := rfl
  -- `min` picks one of the two, and neither is a multiple of `2 ^ 32`.
  by_cases hle : kgRlBurst.toUInt64 ≤ tokens.toUInt64 + d / kgRlIntervalNs
  · rw [show min kgRlBurst.toUInt64 (tokens.toUInt64 + d / kgRlIntervalNs) = kgRlBurst.toUInt64
      from if_pos hle, hburst] at hz
    simp at hz
  · rw [show min kgRlBurst.toUInt64 (tokens.toUInt64 + d / kgRlIntervalNs)
      = tokens.toUInt64 + d / kgRlIntervalNs from if_neg hle, hsum] at hz
    have hlt := UInt64.lt_iff_toNat_lt.mp (UInt64.not_le.mp hle)
    rw [hsum, hburst] at hlt
    simp only [UInt32.toNat_zero] at hz
    omega

/-- The limiter's answer, and that it never touches the ring. -/
theorem kgRlAllow_spec (now : UInt64) (c : KgComms) :
    ((kgRlAllow now c).1 = true ↔ hasToken now c) ∧ (kgRlAllow now c).2.ring = c.ring ∧
      (kgRlAllow now c).2.alive = c.alive := by
  unfold kgRlAllow hasToken
  by_cases hadd : (now - c.rlLastNs) / kgRlIntervalNs ≠ 0
  · have hne := refill_ne_zero c.rlTokens (now - c.rlLastNs) hadd
    simp only [if_pos hadd, if_neg hne]
    exact ⟨⟨fun _ => Or.inr hadd, fun _ => trivial⟩, trivial, trivial⟩
  · simp only [if_neg hadd]
    by_cases htok : c.rlTokens = 0
    · rw [if_pos htok]
      exact ⟨⟨by simp, fun h => (h.resolve_right hadd htok).elim⟩, rfl, rfl⟩
    · rw [if_neg htok]
      exact ⟨⟨fun _ => Or.inl htok, fun _ => rfl⟩, rfl, rfl⟩

/-! ### One call

The alternatives are stated with all they leave behind, guards included.  A step
lemma of the channel then splits on them, and does not unfold the call.
-/

/-- A sequence number that is handed back leaves the ring as it was. -/
theorem handedBack (r : KgSharedRegion) : { r with driverNonce := r.driverNonce + 1 - 1 } = r := by
  rw [UInt32.add_sub_cancel]

/-- **What a call can do**: publish the notification it built, or fail and leave the ring alone. -/
theorem kgCommsNotify_cases (env : Env) (a : Alert) (c : KgComms) :
    (kgCommsNotify mac env a c).2.alive = c.alive ∧
      (((kgCommsNotify mac env a c).1 = 0 ∧ (kgCommsNotify mac env a c).2.ring
          = c.ring.publish (notificationOf mac c.ring.driverNonce env.real a)) ∨
        ((kgCommsNotify mac env a c).1 ≠ 0 ∧ (kgCommsNotify mac env a c).2.ring = c.ring)) := by
  obtain ⟨-, hring, halive⟩ := kgRlAllow_spec env.mono c
  unfold kgCommsNotify
  simp only
  split_ifs with hdead hlevel hrefused hhmac hrefused' hhmac'
  · exact ⟨rfl, Or.inr ⟨by simp, rfl⟩⟩
  · exact ⟨halive, Or.inr ⟨by simp, hring⟩⟩
  · exact ⟨halive, Or.inr ⟨hhmac, by rw [handedBack]; exact hring⟩⟩
  · refine ⟨halive, Or.inl ⟨rfl, ?_⟩⟩
    show (kgRlAllow env.mono c).2.ring.publish _ = _
    rw [hring]
  · exact ⟨rfl, Or.inr ⟨by simp, rfl⟩⟩
  · exact ⟨rfl, Or.inr ⟨hhmac', handedBack _⟩⟩
  · exact ⟨rfl, Or.inl ⟨rfl, rfl⟩⟩

/-- The channel is up, and the next number to hand out is the number published so far. -/
structure ChannelOK (c : KgComms) : Prop where
  alive : c.alive = true
  nonce : c.ring.driverNonce = c.ring.writeIndex

theorem kgCommsNotify_ok (env : Env) (a : Alert) (c : KgComms) (h : ChannelOK c) :
    ChannelOK (kgCommsNotify mac env a c).2 := by
  obtain ⟨halive, ⟨-, hring⟩ | ⟨-, hring⟩⟩ := kgCommsNotify_cases mac env a c
  · exact ⟨halive.trans h.alive, by rw [hring]; rfl⟩
  · exact ⟨halive.trans h.alive, by rw [hring]; exact h.nonce⟩

/-- A non-critical notification reaches the ring exactly when the bucket admits it. -/
theorem kgCommsNotify_below_critical (env : Env) (a : Alert) (c : KgComms) (h : ChannelOK c)
    (hhmac : env.hmacRet = 0) (hlevel : a.level < kgLevelCritical) :
    (hasToken env.mono c →
      (kgCommsNotify mac env a c).2.ring
        = c.ring.publish (notificationOf mac c.ring.driverNonce env.real a)) ∧
    (¬ hasToken env.mono c → (kgCommsNotify mac env a c).2.ring = c.ring) := by
  obtain ⟨hallow, hring, -⟩ := kgRlAllow_spec env.mono c
  unfold kgCommsNotify
  rw [if_neg (by simp [h.alive])]
  simp only [if_pos hlevel]
  refine ⟨fun htok => ?_, fun htok => ?_⟩
  · rw [if_neg (by simp [hallow.mpr htok]), if_neg (by simp [hhmac])]
    show (kgRlAllow env.mono c).2.ring.publish _ = _
    rw [hring]
  · have hno : (kgRlAllow env.mono c).1 = false := by
      simpa using fun ht => htok (hallow.mp ht)
    rw [if_pos (by simp [hno])]
    exact hring

/-! ### A concrete channel -/

/-- A stand-in for the HMAC: a polynomial checksum of the authenticated bytes. -/
def checksumMac (m : List UInt8) : KgMac :=
  ⟨m.foldl (fun h b => h * 31 + b.toUInt64) 7, 0, 0, 0⟩

/-- A call at time zero whose HMAC succeeds. -/
def envZero : Env := ⟨0, by decide, 0, 0⟩

end KernelGuard
