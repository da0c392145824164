/-
A token bucket that is refilled lazily.

The bucket holds up to `burst` tokens and gains one every `w` units of time.  Nothing runs in
between: a call counts the whole intervals since the reference time, adds as many tokens and
moves the reference time on by just these intervals, so that what is left of the last one is
never lost.

Both bounds come from there.  From a state with `k` tokens and reference time `l`, no more than
`k + (t - l) / w` calls are admitted up to `t` (`admitted_le`); and after any call less than one
interval is left over, so one interval later there is a token (`allow_of_interval`).
-/
import Mathlib.Data.List.Basic

namespace TokenBucket

structure Bucket where
  last : Nat
  tokens : Nat
  deriving DecidableEq, Repr

variable (burst w : Nat)

/-- Add a token for every whole interval since the reference time. -/
def refill (now : Nat) (b : Bucket) : Bucket :=
  { last := b.last + (now - b.last) / w * w
    tokens := min burst (b.tokens + (now - b.last) / w) }

/-- One call: refill, then take a token if there is one. -/
def allow (now : Nat) (b : Bucket) : Bool × Bucket :=
  let b := refill burst w now b
  if b.tokens = 0 then (false, b) else (true, { b with tokens := b.tokens - 1 })

/-- The times of the calls that are admitted. -/
def admitted (b : Bucket) : List Nat → List Nat
  | [] => []
  | now :: rest =>
      (if (allow burst w now b).1 then [now] else []) ++ admitted (allow burst w now b).2 rest

variable {b : Bucket} {now : Nat}

/-! ### One call -/

@[simp] theorem allow_last (b : Bucket) (now : Nat) : (allow burst w now b).2.last = (refill burst w now b).last := by
  unfold allow
  by_cases h : (refill burst w now b).tokens = 0
  · simp only [if_pos h]
  · simp only [if_neg h]

theorem refill_last_le (hle : b.last ≤ now) : (refill burst w now b).last ≤ now := by
  have hdiv := Nat.div_mul_le_self (now - b.last) w
  simp only [refill]
  omega

theorem allow_last_le (hle : b.last ≤ now) : (allow burst w now b).2.last ≤ now := by
  rw [allow_last]
  exact refill_last_le burst w hle

/-- Less than an interval is left over. -/
theorem lt_refill_last (b : Bucket) (now : Nat) (hw : 0 < w) : now < (refill burst w now b).last + w := by
  have hmod := Nat.div_add_mod' (now - b.last) w
  have hlt := Nat.mod_lt (now - b.last) hw
  simp only [refill]
  omega

/-- A refill at the same time changes nothing any more. -/
theorem refill_refill (hle : b.last ≤ now) (hw : 0 < w) :
    refill burst w now (refill burst w now b) = refill burst w now b := by
  have hend := refill_last_le burst w hle
  have hlt := lt_refill_last burst w b now hw
  have hnone : (now - (refill burst w now b).last) / w = 0 := Nat.div_eq_of_lt (by omega)
  generalize hr : refill burst w now b = r at hnone ⊢
  have htokens : r.tokens ≤ burst := by
    rw [← hr]
    exact Nat.min_le_left _ _
  rw [refill, hnone, Nat.zero_mul, Nat.add_zero, Nat.add_zero, Nat.min_eq_right htokens]

/-- A call sees the bucket as a refill at its time leaves it. -/
theorem allow_refill (hle : b.last ≤ now) (hw : 0 < w) :
    allow burst w now (refill burst w now b) = allow burst w now b := by
  unfold allow
  rw [refill_refill burst w hle hw]

theorem allow_tokens_le (b : Bucket) (now : Nat) : (allow burst w now b).2.tokens ≤ burst := by
  have hmin : (refill burst w now b).tokens ≤ burst := Nat.min_le_left _ _
  unfold allow
  by_cases hz : (refill burst w now b).tokens = 0
  · simp only [if_pos hz]
    exact hmin
  · simp only [if_neg hz]
    omega

/-- **No starvation.**  One interval after the reference time there is a token. -/
theorem allow_of_interval (hw : 0 < w) (hburst : 0 < burst) (h : b.last + w ≤ now) :
    (allow burst w now b).1 = true := by
  have hadd : 1 ≤ (now - b.last) / w := by
    rw [Nat.le_div_iff_mul_le hw]
    omega
  have hne : (refill burst w now b).tokens ≠ 0 := by
    simp only [refill]
    omega
  unfold allow
  simp only [if_neg hne]

/-! ### Many calls -/

/-- What is left to give away up to `t`: the tokens, and those that `t` will have added. -/
def supply (t : Nat) (b : Bucket) : Nat := b.tokens + (t - b.last) / w

/-- A call takes what it gives out of the supply. -/
theorem supply_allow (hw : 0 < w) (hle : b.last ≤ now) {t : Nat} (ht : now ≤ t) :
    (if (allow burst w now b).1 then 1 else 0) + supply w t (allow burst w now b).2
      ≤ supply w t b := by
  have hend := refill_last_le burst w hle
  have hsupply : supply w t (refill burst w now b) ≤ supply w t b := by
    simp only [supply, refill] at hend ⊢
    have hsplit : (t - b.last) / w
        = (t - (b.last + (now - b.last) / w * w)) / w + (now - b.last) / w := by
      rw [← Nat.add_mul_div_right _ _ hw]
      congr 1
      omega
    rw [hsplit]
    omega
  refine Nat.le_trans ?_ hsupply
  unfold allow
  by_cases hz : (refill burst w now b).tokens = 0
  · simp only [if_pos hz]
    simp
  · simp only [if_neg hz, supply]
    simp only [if_true]
    omega

/-- The calls are made in the order of time, from the reference time on. -/
def InOrder (start : Nat) (times : List Nat) : Prop := (start :: times).Pairwise (· ≤ ·)

theorem InOrder.head_le {start t : Nat} {rest : List Nat} (h : InOrder start (t :: rest)) :
    start ≤ t :=
  (List.pairwise_cons.mp h).1 t List.mem_cons_self

theorem InOrder.tail {start t : Nat} {rest : List Nat} (h : InOrder start (t :: rest)) :
    InOrder t rest :=
  (List.pairwise_cons.mp h).2

theorem InOrder.mono {start start' : Nat} {times : List Nat} (h : InOrder start times)
    (hle : start' ≤ start) : InOrder start' times := by
  obtain ⟨hstart, htimes⟩ := List.pairwise_cons.mp h
  refine List.pairwise_cons.mpr ⟨?_, htimes⟩
  intro t ht
  exact Nat.le_trans hle (hstart t ht)

theorem InOrder.after_allow (burst w : Nat) {t : Nat} {rest : List Nat} (h : InOrder b.last (t :: rest)) :
    InOrder (allow burst w t b).2.last rest :=
  h.tail.mono (allow_last_le burst w h.head_le)

theorem mem_admitted {times : List Nat} {t : Nat} (h : t ∈ admitted burst w b times) :
    t ∈ times := by
  induction times generalizing b with
  | nil => exact h
  | cons now rest ih =>
      rw [admitted, List.mem_append] at h
      rcases h with h | h
      · split at h
        · rw [List.mem_singleton.mp h]
          exact List.mem_cons_self
        · exact absurd h List.not_mem_nil
      · exact List.mem_cons_of_mem _ (ih h)

/-- How many of the admitted calls were made in `[lo, hi]`. -/
def within (lo hi : Nat) (times : List Nat) : Nat :=
  times.countP fun t => decide (lo ≤ t) && decide (t ≤ hi)

theorem within_eq_zero {lo hi : Nat} {times : List Nat} (h : ∀ t ∈ times, ¬ (lo ≤ t ∧ t ≤ hi)) :
    within lo hi times = 0 := by
  rw [within, List.countP_eq_zero]
  intro t ht
  simpa using h t ht

theorem admitted_le (hw : 0 < w) {lo hi : Nat} {times : List Nat} (h : InOrder b.last times) :
    within lo hi (admitted burst w b times) ≤ supply w hi b := by
  induction times generalizing b with
  | nil => exact Nat.zero_le _
  | cons now rest ih =>
      by_cases hnow : now ≤ hi
      · have hrest := ih (h.after_allow burst w)
        have htake := supply_allow burst w hw h.head_le hnow
        refine Nat.le_trans ?_ htake
        rw [admitted, within, List.countP_append]
        refine Nat.add_le_add ?_ hrest
        by_cases hyes : (allow burst w now b).1 = true
        · rw [if_pos hyes, if_pos hyes]
          exact List.countP_le_length
        · rw [if_neg hyes, if_neg hyes]
          exact Nat.le_refl 0
      · -- This call and all later ones are made behind `hi`.
        have hzero : within lo hi (admitted burst w b (now :: rest)) = 0 := by
          apply within_eq_zero
          intro t ht
          have hle : now ≤ t := by
            rcases List.mem_cons.mp (mem_admitted burst w ht) with heq | hin
            · omega
            · exact (List.pairwise_cons.mp h.tail).1 t hin
          omega
        rw [hzero]
        exact Nat.zero_le _

/-- **The burst bound.**  In any interval no more than `burst` calls are admitted, and one for
each time unit `w` that begins in it. -/
theorem within_admitted_le (hw : 0 < w) {lo hi : Nat} {times : List Nat} (h : InOrder b.last times) :
    within lo hi (admitted burst w b times) ≤ burst + (hi - lo) / w + 1 := by
  induction times generalizing b with
  | nil => exact Nat.zero_le _
  | cons now rest ih =>
      by_cases hlo : now < lo
      · have hrest := ih (h.after_allow burst w)
        rw [admitted, within, List.countP_append]
        have hhead : (if (allow burst w now b).1 then [now] else []).countP
            (fun t => decide (lo ≤ t) && decide (t ≤ hi)) = 0 := by
          rw [List.countP_eq_zero]
          intro t ht
          split at ht
          · rw [List.mem_singleton.mp ht]
            simp only [Bool.and_eq_true, decide_eq_true_eq]
            omega
          · exact absurd ht List.not_mem_nil
        rw [hhead, Nat.zero_add]
        exact hrest
      · -- The first call of the interval: the bucket is at most full, less than `w` behind.
        have hsame : admitted burst w b (now :: rest)
            = admitted burst w (refill burst w now b) (now :: rest) := by
          rw [admitted, admitted, allow_refill burst w h.head_le hw]
        have horder : InOrder (refill burst w now b).last (now :: rest) :=
          List.pairwise_cons.mpr ⟨fun t ht => by
            rcases List.mem_cons.mp ht with heq | hin
            · rw [heq]
              exact refill_last_le burst w h.head_le
            · exact Nat.le_trans (refill_last_le burst w h.head_le) ((List.pairwise_cons.mp h.tail).1 t hin),
            h.tail⟩
        rw [hsame]
        refine Nat.le_trans (admitted_le burst w hw horder) ?_
        have hfull : (refill burst w now b).tokens ≤ burst := Nat.min_le_left _ _
        have hlast := lt_refill_last burst w b now hw
        have hdiv : (hi - (refill burst w now b).last) / w ≤ (hi - lo) / w + 1 := by
          rw [← Nat.add_div_right _ hw]
          apply Nat.div_le_div_right
          omega
        simp only [supply]
        omega

end TokenBucket
