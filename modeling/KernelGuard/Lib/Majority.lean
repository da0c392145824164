/-
The majority vote with one candidate and one counter.

A vote for the candidate adds one, any other vote takes one away, and at zero the next vote
becomes the candidate.  The counter pairs every vote that is not accounted for by it with a vote
for somebody else, so that a value with more than half of the votes cannot be voted out.
-/
import Mathlib.Data.List.Induction

namespace Majority

variable {α : Type} [DecidableEq α]

/-- The candidate and its counter. -/
structure Ballot (α : Type) where
  cand : α
  cnt : Nat

def Ballot.vote (b : Ballot α) (x : α) : Ballot α :=
  if b.cand = x then { b with cnt := b.cnt + 1 }
  else if b.cnt = 0 then ⟨x, 1⟩
  else { b with cnt := b.cnt - 1 }

def poll (start : α) (votes : List α) : Ballot α := votes.foldl Ballot.vote ⟨start, 0⟩

/-- `x` has more than half of the votes. -/
def IsMajority (x : α) (votes : List α) : Prop := votes.length < 2 * votes.count x

instance (x : α) (votes : List α) : Decidable (IsMajority x votes) := Nat.decLt _ _

theorem poll_snoc (start : α) (votes : List α) (x : α) :
    poll start (votes ++ [x]) = (poll start votes).vote x := by
  simp [poll]

/-- What the counter knows about `t` after `votes`. -/
structure Counts (t : α) (votes : List α) (b : Ballot α) : Prop where
  le : b.cnt ≤ votes.length
  cand : b.cand = t → 2 * votes.count t ≤ votes.length + b.cnt
  other : b.cand ≠ t → 2 * votes.count t + b.cnt ≤ votes.length

section

variable {t : α} {votes : List α} {b : Ballot α}

theorem count_snoc (t x : α) (votes : List α) :
    (votes ++ [x]).count t = votes.count t + if x = t then 1 else 0 := by
  by_cases hx : x = t
  · subst hx
    simp
  · simp [hx]

/-- A vote for the candidate. -/
theorem Counts.support {x : α} (h : Counts t votes b) (hcand : b.cand = x) :
    Counts t (votes ++ [x]) { b with cnt := b.cnt + 1 } := by
  have hle := h.le
  constructor
  · show b.cnt + 1 ≤ _
    rw [List.length_append, List.length_singleton]
    omega
  · intro hbt
    have hold := h.cand hbt
    rw [count_snoc, List.length_append, List.length_singleton, if_pos (hcand.symm.trans hbt)]
    show _ ≤ _ + (b.cnt + 1)
    omega
  · intro hbt
    have hold := h.other hbt
    rw [count_snoc, List.length_append, List.length_singleton,
      if_neg (fun hxt => hbt (hcand.trans hxt))]
    show _ + (b.cnt + 1) ≤ _
    omega

/-- The seat is free: nobody has more than half so far. -/
theorem Counts.elect (h : Counts t votes b) (hzero : b.cnt = 0) (x : α) :
    Counts t (votes ++ [x]) ⟨x, 1⟩ := by
  have hold : 2 * votes.count t ≤ votes.length := by
    by_cases hbt : b.cand = t
    · have := h.cand hbt
      omega
    · have := h.other hbt
      omega
  constructor
  · show 1 ≤ _
    rw [List.length_append, List.length_singleton]
    omega
  · intro hxt
    rw [count_snoc, List.length_append, List.length_singleton, if_pos hxt]
    show _ ≤ _ + 1
    omega
  · intro hxt
    rw [count_snoc, List.length_append, List.length_singleton, if_neg hxt]
    show _ + 1 ≤ _
    omega

/-- A vote against the candidate. -/
theorem Counts.oppose {x : α} (h : Counts t votes b) (hcand : b.cand ≠ x) (hzero : b.cnt ≠ 0) :
    Counts t (votes ++ [x]) { b with cnt := b.cnt - 1 } := by
  have hle := h.le
  constructor
  · show b.cnt - 1 ≤ _
    rw [List.length_append, List.length_singleton]
    omega
  · intro hbt
    have hold := h.cand hbt
    rw [count_snoc, List.length_append, List.length_singleton,
      if_neg (fun hxt => hcand (hbt.trans hxt.symm))]
    show _ ≤ _ + (b.cnt - 1)
    omega
  · intro hbt
    have hold := h.other hbt
    rw [count_snoc, List.length_append, List.length_singleton]
    show _ + (b.cnt - 1) ≤ _
    by_cases hxt : x = t
    · rw [if_pos hxt]
      omega
    · rw [if_neg hxt]
      omega

theorem Counts.vote (h : Counts t votes b) (x : α) : Counts t (votes ++ [x]) (b.vote x) := by
  unfold Ballot.vote
  by_cases hcand : b.cand = x
  · rw [if_pos hcand]
    exact h.support hcand
  · rw [if_neg hcand]
    by_cases hzero : b.cnt = 0
    · rw [if_pos hzero]
      exact h.elect hzero x
    · rw [if_neg hzero]
      exact h.oppose hcand hzero

end

theorem poll_counts (start t : α) (votes : List α) : Counts t votes (poll start votes) := by
  induction votes using List.reverseRecOn with
  | nil => exact ⟨Nat.le_refl _, fun _ => Nat.zero_le _, fun _ => Nat.le_refl _⟩
  | append_singleton votes x ih =>
      rw [poll_snoc]
      exact ih.vote x

theorem poll_cnt_le (start : α) (votes : List α) : (poll start votes).cnt ≤ votes.length :=
  (poll_counts start start votes).le

/-- **The majority is elected**, whoever sat there first. -/
theorem IsMajority.elected {t : α} {votes : List α} (h : IsMajority t votes) (start : α) :
    (poll start votes).cand = t := by
  by_contra hne
  have hother := (poll_counts start t votes).other hne
  unfold IsMajority at h
  omega

end Majority
