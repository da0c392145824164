/-
The limiter of the notification channel, as a token bucket.

`kg_rl_allow` counts in `u64` and `u32`.  The clock is never behind the reference time and stays
below `2 ^ 63`, and the tokens never exceed the burst, so nothing wraps and the limiter is the
bucket of `Lib/TokenBucket.lean` (`kgRlAllow_bucket`).  What the channel does besides leaves it
alone: a critical call does not ask it, and a failed HMAC does not give the token back.

The bounds themselves are facts about buckets and are proved in the library, over
any burst and interval.  What is done here is to follow the limiter through the
calls: only the calls below critical ask it, their times do not decrease, and the
sequence of those that are admitted is the bucket's.
-/
import KernelGuard.Lib.Run
import KernelGuard.Lib.TokenBucket
import KernelGuard.Proofs.Writer

namespace KernelGuard

open Run TokenBucket

/-- `KG_RL_BURST` and `KG_RL_INTERVAL_NS`, as numbers. -/
def rlBurst : Nat := 32
def rlInterval : Nat := 100000000

theorem rlInterval_pos : 0 < rlInterval := by decide

/-- The limiter's state, as a bucket. -/
def KgComms.bucket (c : KgComms) : Bucket := ⟨c.rlLastNs.toNat, c.rlTokens.toNat⟩

/-- The limiter never has more tokens than the burst. -/
def KgComms.TokensOK (c : KgComms) : Prop := c.rlTokens.toNat ≤ rlBurst

section Arithmetic

variable {now last : UInt64} {tokens : UInt32}

/-- The whole intervals that have passed. -/
theorem toNat_intervals (hle : last ≤ now) :
    ((now - last) / kgRlIntervalNs).toNat = (now.toNat - last.toNat) / rlInterval := by
  rw [UInt64.toNat_div, UInt64.toNat_sub_of_le _ _ hle]
  rfl

theorem toNat_newLast (hle : last ≤ now) :
    (last + (now - last) / kgRlIntervalNs * kgRlIntervalNs).toNat
      = last.toNat + (now.toNat - last.toNat) / rlInterval * rlInterval := by
  have hmul := Nat.div_mul_le_self (now.toNat - last.toNat) rlInterval
  have hnow := now.toNat_lt
  have hle' := UInt64.le_iff_toNat_le.mp hle
  have hprod : ((now - last) / kgRlIntervalNs * kgRlIntervalNs).toNat
      = (now.toNat - last.toNat) / rlInterval * rlInterval := by
    rw [UInt64.toNat_mul, toNat_intervals hle]
    apply Nat.mod_eq_of_lt
    show (now.toNat - last.toNat) / rlInterval * rlInterval < 2 ^ 64
    omega
  rw [UInt64.toNat_add, hprod]
  apply Nat.mod_eq_of_lt
  omega

theorem toNat_newTokens (hle : last ≤ now) (htokens : tokens.toNat ≤ rlBurst) :
    (min kgRlBurst.toUInt64 (tokens.toUInt64 + (now - last) / kgRlIntervalNs)).toUInt32.toNat
      = min rlBurst (tokens.toNat + (now.toNat - last.toNat) / rlInterval) := by
  have hdiv := Nat.div_le_self (now.toNat - last.toNat) rlInterval
  have hsmall : (now.toNat - last.toNat) / rlInterval < 2 ^ 64 / rlInterval + 1 := by
    have hnow := now.toNat_lt
    have := Nat.div_le_div_right (c := rlInterval) (by omega : now.toNat - last.toNat ≤ 2 ^ 64)
    omega
  have hconst : 2 ^ 64 / rlInterval + 1 + rlBurst < 2 ^ 64 := by decide
  have hsum : (tokens.toUInt64 + (now - last) / kgRlIntervalNs).toNat
      = tokens.toNat + (now.toNat - last.toNat) / rlInterval := by
    rw [UInt64.toNat_add, toNat_intervals hle, UInt32.toNat_toUInt64]
    apply Nat.mod_eq_of_lt
    omega
  have hburst : kgRlBurst.toUInt64.toNat = rlBurst := rfl
  rw [UInt64.toNat_toUInt32]
  by_cases hfull : kgRlBurst.toUInt64 ≤ tokens.toUInt64 + (now - last) / kgRlIntervalNs
  · have hnat := UInt64.le_iff_toNat_le.mp hfull
    rw [hburst, hsum] at hnat
    rw [show min kgRlBurst.toUInt64 _ = kgRlBurst.toUInt64 from if_pos hfull, hburst,
      Nat.min_eq_left hnat]
    rfl
  · have hnat := UInt64.lt_iff_toNat_lt.mp (UInt64.not_le.mp hfull)
    rw [hburst, hsum] at hnat
    rw [show min kgRlBurst.toUInt64 _ = tokens.toUInt64 + (now - last) / kgRlIntervalNs
      from if_neg hfull, hsum, Nat.min_eq_right (Nat.le_of_lt hnat)]
    apply Nat.mod_eq_of_lt
    exact Nat.lt_trans hnat (by decide)

end Arithmetic

/-- The refill of a call, whether or not an interval has passed. -/
def refilled (now : UInt64) (c : KgComms) : KgComms :=
  if (now - c.rlLastNs) / kgRlIntervalNs ≠ 0 then
    { c with
      rlTokens := (min kgRlBurst.toUInt64
        (c.rlTokens.toUInt64 + (now - c.rlLastNs) / kgRlIntervalNs)).toUInt32
      rlLastNs := c.rlLastNs + (now - c.rlLastNs) / kgRlIntervalNs * kgRlIntervalNs }
  else c

theorem kgRlAllow_eq (now : UInt64) (c : KgComms) :
    kgRlAllow now c =
      if (refilled now c).rlTokens = 0 then (false, refilled now c)
      else (true, { refilled now c with rlTokens := (refilled now c).rlTokens - 1 }) :=
  rfl

theorem refilled_bucket {now : UInt64} {c : KgComms} (hle : c.rlLastNs ≤ now) (h : c.TokensOK) :
    (refilled now c).bucket = refill rlBurst rlInterval now.toNat c.bucket := by
  unfold refilled
  by_cases hadd : (now - c.rlLastNs) / kgRlIntervalNs ≠ 0
  · rw [if_pos hadd, KgComms.bucket, toNat_newLast hle, toNat_newTokens hle h]
    rfl
  · rw [if_neg hadd]
    have hzero := toNat_intervals hle
    rw [not_not.mp hadd] at hzero
    have hzero : (now.toNat - c.bucket.last) / rlInterval = 0 := hzero.symm
    rw [refill, hzero, Nat.zero_mul, Nat.add_zero, Nat.add_zero]
    rw [Nat.min_eq_right (show c.bucket.tokens ≤ rlBurst from h)]

/-- **The limiter is a token bucket.** -/
theorem kgRlAllow_bucket {now : UInt64} {c : KgComms} (hle : c.rlLastNs ≤ now) (h : c.TokensOK) :
    (kgRlAllow now c).1 = (allow rlBurst rlInterval now.toNat c.bucket).1 ∧
      (kgRlAllow now c).2.bucket = (allow rlBurst rlInterval now.toNat c.bucket).2 := by
  have hrefill := refilled_bucket hle h
  have htokens : (refilled now c).rlTokens.toNat
      = (refill rlBurst rlInterval now.toNat c.bucket).tokens := by
    rw [← hrefill]
    rfl
  rw [kgRlAllow_eq, allow]
  by_cases hz : (refilled now c).rlTokens = 0
  · have hz' : (refill rlBurst rlInterval now.toNat c.bucket).tokens = 0 := by
      rw [← htokens, hz]
      rfl
    rw [if_pos hz]
    simp only [if_pos hz', true_and]
    exact hrefill
  · have hz' : (refill rlBurst rlInterval now.toNat c.bucket).tokens ≠ 0 := by
      rw [← htokens]
      intro h0
      exact hz (UInt32.toNat_inj.mp h0)
    rw [if_neg hz]
    simp only [if_neg hz', true_and]
    rw [← hrefill] at hz' ⊢
    have hone : (1 : UInt32) ≤ (refilled now c).rlTokens := by
      rw [UInt32.le_iff_toNat_le]
      exact Nat.one_le_iff_ne_zero.mpr hz'
    show (⟨_, _⟩ : Bucket) = ⟨_, _⟩
    rw [UInt32.toNat_sub_of_le _ _ hone]
    rfl

/-! ### Calls

A call below critical is refused exactly when the module's counter of dropped
notifications goes up.  That is how a run shows a refusal, and it keeps the statement
free of the limiter's internal state.
-/

variable (mac : List UInt8 → KgMac)

/-- The limiter is asked. -/
def NotifyCall.Limited (call : NotifyCall) : Prop := call.alert.level < kgLevelCritical

instance (call : NotifyCall) : Decidable call.Limited :=
  inferInstanceAs (Decidable (call.alert.level < kgLevelCritical))

def NotifyCall.time (call : NotifyCall) : Nat := call.env.mono.toNat

/-- The limiter refuses the call: the module counts it as dropped. -/
def Refused (c : KgComms) (call : NotifyCall) : Prop :=
  (notifyStep mac c call).notificationsDropped ≠ c.notificationsDropped

instance (c : KgComms) (call : NotifyCall) : Decidable (Refused mac c call) :=
  inferInstanceAs (Decidable (_ ≠ _))

/-- The time of a non-critical call that is admitted. -/
def admission (c : KgComms) (call : NotifyCall) : List Nat :=
  if call.Limited ∧ ¬ Refused mac c call then [call.time] else []

theorem refilled_dropped (now : UInt64) (c : KgComms) :
    (refilled now c).notificationsDropped = c.notificationsDropped := by
  unfold refilled
  by_cases hadd : (now - c.rlLastNs) / kgRlIntervalNs ≠ 0
  · rw [if_pos hadd]
  · rw [if_neg hadd]

theorem kgRlAllow_dropped (now : UInt64) (c : KgComms) :
    (kgRlAllow now c).2.notificationsDropped = c.notificationsDropped := by
  rw [kgRlAllow_eq]
  by_cases hz : (refilled now c).rlTokens = 0
  · rw [if_pos hz]
    exact refilled_dropped now c
  · rw [if_neg hz]
    exact refilled_dropped now c

theorem succ_ne_self (x : UInt64) : x + 1 ≠ x := by
  intro h
  have hnat := congrArg UInt64.toNat h
  rw [UInt64.toNat_add, UInt64.toNat_one] at hnat
  have hlt := x.toNat_lt
  omega

/-- **A critical call** is not refused, and the limiter is as it was. -/
theorem notify_critical {c : KgComms} {call : NotifyCall} (h : ¬ call.Limited) :
    ¬ Refused mac c call ∧ (notifyStep mac c call).rlLastNs = c.rlLastNs ∧
      (notifyStep mac c call).rlTokens = c.rlTokens := by
  rw [NotifyCall.Limited] at h
  unfold Refused notifyStep kgCommsNotify
  simp only [if_neg h]
  by_cases halive : (!c.alive) = true
  · simp [halive]
  · by_cases hmac : call.env.hmacRet ≠ 0
    · simp [halive, hmac]
    · simp [halive, not_not.mp hmac]

/-- **A non-critical call** is refused when the limiter says so, and leaves what the limiter left. -/
theorem notify_limited {c : KgComms} {call : NotifyCall} (halive : c.alive = true)
    (h : call.Limited) :
    (Refused mac c call ↔ (kgRlAllow call.env.mono c).1 = false) ∧
      (notifyStep mac c call).bucket = (kgRlAllow call.env.mono c).2.bucket := by
  have hdropped := kgRlAllow_dropped call.env.mono c
  rw [NotifyCall.Limited] at h
  unfold Refused notifyStep kgCommsNotify
  simp only [halive, Bool.not_true, Bool.false_eq_true, if_false, if_pos h]
  cases hallow : (kgRlAllow call.env.mono c).1 with
  | false =>
      simp only [Bool.not_false, if_true, hdropped]
      exact ⟨⟨fun _ => trivial, fun _ => succ_ne_self _⟩, rfl⟩
  | true =>
      simp only [Bool.not_true, Bool.false_eq_true, if_false]
      by_cases hmac : call.env.hmacRet ≠ 0
      · simp only [if_pos hmac, hdropped]
        exact ⟨⟨fun hne => absurd rfl hne, fun hno => absurd hno nofun⟩, rfl⟩
      · simp only [if_neg hmac, hdropped]
        exact ⟨⟨fun hne => absurd rfl hne, fun hno => absurd hno nofun⟩, rfl⟩

/-- The channel is up, and its limiter has no more tokens than the burst. -/
structure LimiterOK (c : KgComms) : Prop where
  alive : c.alive = true
  tokens : c.TokensOK

/-- The times of the calls that ask the limiter. -/
def limitedTimes (calls : List NotifyCall) : List Nat :=
  (calls.filter fun call => decide call.Limited).map NotifyCall.time

/-- The calls are made at non-decreasing times, the first not before `start`. -/
def InTime (start : UInt64) (calls : List NotifyCall) : Prop :=
  (start :: calls.map fun call => call.env.mono).Pairwise (· ≤ ·)

theorem InTime.head_le {start : UInt64} {call : NotifyCall} {rest : List NotifyCall}
    (h : InTime start (call :: rest)) : start ≤ call.env.mono :=
  (List.pairwise_cons.mp h).1 _ List.mem_cons_self

theorem InTime.tail {start start' : UInt64} {call : NotifyCall} {rest : List NotifyCall}
    (h : InTime start (call :: rest)) (hle : start' ≤ call.env.mono) : InTime start' rest := by
  obtain ⟨hrest, htimes⟩ := List.pairwise_cons.mp (List.pairwise_cons.mp h).2
  refine List.pairwise_cons.mpr ⟨?_, htimes⟩
  intro t ht
  exact UInt64.le_trans hle (hrest t ht)

/-- What a call leaves of the limiter. -/
theorem notifyStep_limiter {c : KgComms} {call : NotifyCall} (h : LimiterOK c)
    (hle : c.rlLastNs ≤ call.env.mono) :
    LimiterOK (notifyStep mac c call) ∧ (notifyStep mac c call).rlLastNs ≤ call.env.mono := by
  have halive : (notifyStep mac c call).alive = true :=
    (kgCommsNotify_cases mac call.env call.alert c).1.trans h.alive
  by_cases hlim : call.Limited
  · obtain ⟨-, hbucket⟩ := notify_limited mac h.alive hlim
    rw [(kgRlAllow_bucket hle h.tokens).2] at hbucket
    refine ⟨⟨halive, ?_⟩, ?_⟩
    · have htokens := allow_tokens_le rlBurst rlInterval c.bucket call.env.mono.toNat
      rw [← hbucket] at htokens
      exact htokens
    · have hlast := allow_last_le rlBurst rlInterval (b := c.bucket) (UInt64.le_iff_toNat_le.mp hle)
      rw [← hbucket] at hlast
      exact UInt64.le_iff_toNat_le.mpr hlast
  · obtain ⟨-, hlast, htokens⟩ := notify_critical mac (c := c) hlim
    refine ⟨⟨halive, ?_⟩, ?_⟩
    · show (notifyStep mac c call).rlTokens.toNat ≤ rlBurst
      rw [htokens]
      exact h.tokens
    · rw [hlast]
      exact hle

/-- After any calls in time the limiter is in order. -/
theorem exec_limiter {c : KgComms} (h : LimiterOK c) {calls rest : List NotifyCall}
    (htime : InTime c.rlLastNs (calls ++ rest)) :
    LimiterOK (exec (notifyStep mac) c calls) ∧
      InTime (exec (notifyStep mac) c calls).rlLastNs rest := by
  induction calls generalizing c with
  | nil => exact ⟨h, htime⟩
  | cons call calls ih =>
      obtain ⟨hok, hlast⟩ := notifyStep_limiter mac h htime.head_le
      exact ih hok (htime.tail hlast)

/-- The admissions of the channel are those of the bucket. -/
theorem admissions_eq {c : KgComms} (h : LimiterOK c) {calls : List NotifyCall}
    (htime : InTime c.rlLastNs calls) :
    outputs (notifyStep mac) (admission mac) c calls
      = admitted rlBurst rlInterval c.bucket (limitedTimes calls) := by
  induction calls generalizing c with
  | nil => rfl
  | cons call calls ih =>
      obtain ⟨hok, hlast⟩ := notifyStep_limiter mac h htime.head_le
      rw [outputs, ih hok (htime.tail hlast), admission]
      by_cases hlim : call.Limited
      · obtain ⟨hrefused, hbucket⟩ := notify_limited mac h.alive hlim
        obtain ⟨hallow, hnext⟩ := kgRlAllow_bucket htime.head_le h.tokens
        have htimes : limitedTimes (call :: calls) = call.time :: limitedTimes calls := by
          rw [limitedTimes, List.filter_cons_of_pos (by simpa using hlim)]
          rfl
        rw [htimes, admitted, hbucket, hnext]
        congr 1
        rw [hallow] at hrefused
        show _ = if (allow rlBurst rlInterval call.env.mono.toNat c.bucket).1 = true then _ else _
        by_cases hyes : (allow rlBurst rlInterval call.env.mono.toNat c.bucket).1 = true
        · have hno : ¬ Refused mac c call := by
            intro hr
            rw [hrefused.mp hr] at hyes
            exact absurd hyes Bool.false_ne_true
          rw [if_pos hyes, if_pos ⟨hlim, hno⟩]
        · have hno : Refused mac c call := hrefused.mpr (Bool.eq_false_iff.mpr hyes)
          rw [if_neg hyes, if_neg fun hboth => hboth.2 hno]
      · obtain ⟨-, hlast, htokens⟩ := notify_critical mac (c := c) hlim
        have htimes : limitedTimes (call :: calls) = limitedTimes calls := by
          rw [limitedTimes, List.filter_cons_of_neg (by simpa using hlim)]
          rfl
        rw [if_neg fun hboth => hlim hboth.1, htimes, List.nil_append, KgComms.bucket, hlast,
          htokens]
        rfl

theorem limitedTimes_inOrder {start : UInt64} {calls : List NotifyCall} (h : InTime start calls) :
    InOrder start.toNat (limitedTimes calls) := by
  obtain ⟨hstart, htimes⟩ := List.pairwise_cons.mp h
  refine List.pairwise_cons.mpr ⟨?_, ?_⟩
  · intro t ht
    obtain ⟨call, hcall, rfl⟩ := List.mem_map.mp ht
    exact UInt64.le_iff_toNat_le.mp
      (hstart _ (List.mem_map.mpr ⟨call, List.mem_of_mem_filter hcall, rfl⟩))
  · rw [limitedTimes, List.pairwise_map]
    refine List.Pairwise.filter _ ?_
    rw [List.pairwise_map] at htimes
    exact htimes.imp fun hle => UInt64.le_iff_toNat_le.mp hle

theorem kgCommsInit_limiter (now : UInt64) : LimiterOK (kgCommsInit now) :=
  ⟨rfl, Nat.le_refl 32⟩

/-- Critical calls leave the reference time alone. -/
theorem exec_critical_last {c : KgComms} {calls : List NotifyCall}
    (h : ∀ call ∈ calls, ¬ call.Limited) :
    (exec (notifyStep mac) c calls).rlLastNs = c.rlLastNs := by
  induction calls generalizing c with
  | nil => rfl
  | cons call rest ih =>
      have hrest := ih (c := notifyStep mac c call) fun x hx => h x (List.mem_cons_of_mem _ hx)
      have hhead := (notify_critical mac (c := c) (h call List.mem_cons_self)).2.1
      exact hrest.trans hhead

/-- A non-critical call one interval behind the one before it is admitted. -/
theorem spaced_call_admitted {c : KgComms} (h : LimiterOK c) {prev call : NotifyCall}
    {mid : List NotifyCall} (htime : InTime c.rlLastNs (prev :: mid ++ [call]))
    (hmid : ∀ x ∈ mid, ¬ x.Limited) (hcall : call.Limited)
    (hspace : prev.time + rlInterval ≤ call.time) :
    ¬ Refused mac (exec (notifyStep mac) c (prev :: mid)) call := by
  obtain ⟨hok, hnext⟩ := exec_limiter mac h htime
  have hlast : (exec (notifyStep mac) c (prev :: mid)).rlLastNs ≤ prev.env.mono := by
    rw [exec_cons, exec_critical_last mac hmid]
    exact (notifyStep_limiter mac h htime.head_le).2
  obtain ⟨hrefused, -⟩ := notify_limited mac hok.alive hcall
  rw [hrefused, Bool.not_eq_false, (kgRlAllow_bucket hnext.head_le hok.tokens).1]
  apply allow_of_interval rlBurst rlInterval rlInterval_pos (by decide)
  have hnat := UInt64.le_iff_toNat_le.mp hlast
  show (exec (notifyStep mac) c (prev :: mid)).rlLastNs.toNat + rlInterval ≤ call.time
  exact Nat.le_trans (Nat.add_le_add_right hnat _) hspace

/-- The bounds of the limiter, over every sequence of calls from the start of the channel on. -/
theorem rate_limiter_bounds (start : UInt64) (calls : List NotifyCall) (htime : InTime start calls) :
    (∀ t₁ t₂ : Nat,
      within t₁ t₂ (outputs (notifyStep mac) (admission mac) (kgCommsInit start) calls)
        ≤ 32 + (t₂ - t₁) / 100000000 + 1) ∧
    (∀ pre prev mid call post, calls = pre ++ (prev :: mid ++ call :: post) →
      (∀ x ∈ mid, ¬ x.Limited) → prev.Limited → call.Limited →
      prev.time + 100000000 ≤ call.time →
      ¬ Refused mac (exec (notifyStep mac) (kgCommsInit start) (pre ++ prev :: mid)) call) ∧
    ∀ pre call post, calls = pre ++ call :: post → ¬ call.Limited →
      ¬ Refused mac (exec (notifyStep mac) (kgCommsInit start) pre) call ∧
      (exec (notifyStep mac) (kgCommsInit start) (pre ++ [call])).bucket
        = (exec (notifyStep mac) (kgCommsInit start) pre).bucket := by
  have hinit := kgCommsInit_limiter start
  have hstart : (kgCommsInit start).rlLastNs = start := rfl
  refine ⟨?_, ?_, ?_⟩
  · intro t₁ t₂
    rw [admissions_eq mac hinit htime]
    exact within_admitted_le rlBurst rlInterval rlInterval_pos (limitedTimes_inOrder htime)
  · intro pre prev mid call post hcalls hmid _ hcall hspace
    have hsplit : calls = pre ++ ((prev :: mid ++ [call]) ++ post) := by
      rw [hcalls]
      simp
    rw [hsplit] at htime
    obtain ⟨hok, hrest⟩ := exec_limiter mac hinit htime
    have hrest : InTime (exec (notifyStep mac) (kgCommsInit start) pre).rlLastNs
        (prev :: mid ++ [call]) := by
      exact List.Pairwise.sublist
        (List.Sublist.cons_cons _ (List.Sublist.map _ (List.sublist_append_left _ _))) hrest
    rw [exec_append]
    exact spaced_call_admitted mac hok hrest hmid hcall hspace
  · intro pre call post _ hcrit
    obtain ⟨hno, hlast, htokens⟩ :=
      notify_critical mac (c := exec (notifyStep mac) (kgCommsInit start) pre) hcrit
    refine ⟨hno, ?_⟩
    rw [exec_snoc, KgComms.bucket, hlast, htokens]
    rfl

/-- A non-critical call when the channel starts, a critical one, and a non-critical one 100 ms
later. -/
def threeCalls : List NotifyCall :=
  [⟨⟨0, envZero.mono_lt, 0, 0⟩, ⟨kgAlertUnauthorizedDma, kgLevelWatch, 0, 0⟩⟩,
    ⟨⟨50000000, by decide, 0, 0⟩, ⟨kgAlertIdtHook, kgLevelCritical, 0, 0⟩⟩,
    ⟨⟨100000000, by decide, 0, 0⟩, ⟨kgAlertUnauthorizedDma, kgLevelWatch, 0, 0⟩⟩]

theorem rate_limiter_bounds_three :
    InTime 0 threeCalls ∧
      within 0 100000000 (outputs (notifyStep checksumMac) (admission checksumMac) (kgCommsInit 0)
        threeCalls) ≤ 32 + (100000000 - 0) / 100000000 + 1 := by
  have htime : InTime 0 threeCalls := by
    unfold InTime
    decide
  exact ⟨htime, (rate_limiter_bounds checksumMac 0 threeCalls htime).1 0 100000000⟩

end KernelGuard
