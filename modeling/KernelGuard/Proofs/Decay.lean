/-
When the quiet-period timer runs.

Every change of the posture ends in `kg_pos_arm_decay_locked`, and the work item that fires early
arms itself again, so an ELEVATED posture has its timer running whenever the parameter asks for
one.  The parameter is not told about that: with `posture_decay_s` at 0 nothing is armed, and
writing another value later arms nothing either.

The invariant is the property itself, `DecayArmed`, for every step but one: each way
to change the posture arms the timer behind it, and the work item arms it again or
lowers the posture.  The write of the parameter is the exception, since it changes
what is wanted and does nothing about it.  `SwitchedInTime` is stated of the state
before such a write, so the condition of the run theorem is on the steps and not on
the states in between.
-/
import KernelGuard.Proofs.Posture

namespace KernelGuard

open Run

variable {D : Type} (sha : List UInt8 → Option D) (mac : List UInt8 → KgMac)

/-- The decay of an ELEVATED posture is under way. -/
def DecayArmed (s : KgSys D) : Prop :=
  s.pos.ready = true → kgPosture s = kgPostureElevated → s.params.postureDecayS ≠ 0 →
    s.pos.decayPending = true

/-- The clamp does not touch zero. -/
theorem kgPosDecayS_ne_zero {s : KgSys D} (h : s.params.postureDecayS ≠ 0) : kgPosDecayS s ≠ 0 := by
  unfold kgPosDecayS
  by_cases hle : s.params.postureDecayS ≤ kgPostureMaxDecayS
  · rw [show min s.params.postureDecayS kgPostureMaxDecayS = _ from if_pos hle]
    exact h
  · rw [show min s.params.postureDecayS kgPostureMaxDecayS = _ from if_neg hle]
    decide

theorem decayWanted {s : KgSys D} (hready : s.pos.ready = true)
    (hel : kgPosture s = kgPostureElevated) (hsecs : s.params.postureDecayS ≠ 0) :
    (s.pos.ready && kgPosDecayS s != 0 && kgPosture s == kgPostureElevated) = true := by
  simp [hready, hel, kgPosDecayS_ne_zero hsecs]

/-! ### One step -/

theorem DecayArmed.comms {s : KgSys D} (h : DecayArmed s) (c : KgComms) :
    DecayArmed { s with comms := c } := h

/-- Whatever the state was, arming leaves it armed. -/
theorem kgPosArmDecayLocked_armed (s : KgSys D) : DecayArmed (kgPosArmDecayLocked s) := by
  unfold kgPosArmDecayLocked
  by_cases h : (s.pos.ready && kgPosDecayS s != 0 && kgPosture s == kgPostureElevated) = true
  · rw [if_pos h]
    intro _ _ _
    rfl
  · rw [if_neg h]
    intro hready hel hsecs
    exact absurd (decayWanted hready hel hsecs) h

theorem kgPostureRaise_armed (env : Env) (target trigger : UInt32) {s : KgSys D}
    (h : DecayArmed s) : DecayArmed (kgPostureRaise sha mac env target trigger s) := by
  unfold kgPostureRaise
  by_cases hready : s.pos.ready = true
  · rw [kgPostureRaiseWith_eq sha _ env target trigger s hready]
    by_cases hup : capped s target > kgPosture s
    · rw [if_pos hup]
      obtain ⟨c, hc⟩ := kgPosAfterUp_comms sha mac env (capped s target)
        (kgPosArmDecayLocked
          (kgPosApplyLocked sha env (capped s target) (raiseNoted env target trigger s)))
      rw [hc]
      exact (kgPosArmDecayLocked_armed _).comms c
    · rw [if_neg hup]
      exact kgPosArmDecayLocked_armed _
  · unfold kgPostureRaiseWith
    rw [if_pos (by simpa using hready)]
    exact h

theorem kgPostureSet_armed (env : Env) (target : UInt32) {s : KgSys D} (h : DecayArmed s) :
    DecayArmed (kgPostureSet sha mac env target s).2 := by
  by_cases hmoves : setMoves target s = true
  · have happlied : DecayArmed (setApplied sha env target s) := kgPosArmDecayLocked_armed _
    rw [kgPostureSet_of_moves sha mac hmoves]
    by_cases hup : target > kgPosture s
    · obtain ⟨c, hc⟩ := kgPosAfterUp_comms sha mac env target (setApplied sha env target s)
      obtain ⟨d, hd⟩ := kgPosAnnounce_comms sha mac env (kgPosture s) target
        kgPostureWhyOperator s.pos.trigger
        (kgPosAfterUp (kgReport sha mac) env target (setApplied sha env target s))
      rw [if_pos hup, hd, hc]
      exact (happlied.comms c).comms d
    · obtain ⟨d, hd⟩ := kgPosAnnounce_comms sha mac env (kgPosture s) target
        kgPostureWhyOperator s.pos.trigger (setApplied sha env target s)
      rw [if_neg hup, hd]
      exact happlied.comms d
  · rw [(kgPostureSet_of_not_moves sha mac (by simpa using hmoves)).1]
    exact h

/-- The work item lowers the posture, or is pending again, or has nothing to wait for. -/
theorem kgPosDecayFn_armed (env : Env) (s : KgSys D) : DecayArmed (kgPosDecayFn sha mac env s) := by
  by_cases hdue : decayDue env s = true
  · rw [kgPosDecayFn_of_due sha mac hdue]
    obtain ⟨c, hc⟩ := kgPosAnnounce_comms sha mac env kgPostureElevated kgPostureNormal
      kgPostureWhyDecay s.pos.trigger (kgPosApplyLocked sha env kgPostureNormal
        { s with pos := { s.pos with decayPending := false } })
    rw [hc]
    intro _ hel _
    have hnormal : kgPosture (kgPosApplyLocked sha env kgPostureNormal
        { s with pos := { s.pos with decayPending := false } }) = kgPostureNormal :=
      setPosture_posture sha _ _
    exact absurd (hnormal.symm.trans hel) (by decide)
  · unfold kgPosDecayFn
    by_cases hwant : (s.pos.ready && kgPosDecayS s != 0 && kgPosture s == kgPostureElevated) = true
    · have hlate : ¬ env.mono ≥ s.pos.triggerMono + (kgPosDecayS s).toUInt64 * nsecPerSec := by
        intro hge
        exact hdue (Bool.and_eq_true_iff.mpr ⟨hwant, by simpa using hge⟩)
      rw [if_pos (by simpa [kgPosture] using hwant), if_neg hlate]
      intro _ _ _
      rfl
    · rw [if_neg (by simpa [kgPosture] using hwant)]
      intro hready hel hsecs
      exact absurd (decayWanted hready hel hsecs) hwant

/-! ### Runs

A write that comes too late leaves a state from which only another raise or set
would arm the timer.  That one such state is found is what the converse needs, and it
is found at once, right behind the write.
-/

/-- A write of `posture_decay_s` does not switch the decay on behind an ELEVATED posture: the
parameter was not zero before, or the work item has not fired since it was. -/
def SwitchedInTime (s : KgSys D) (op : PosOp) : Prop :=
  ∀ v, op = .writeDecayS v → v ≠ 0 → kgPosture s = kgPostureElevated →
    s.params.postureDecayS = 0 → s.pos.decayPending = true

theorem posStep_armed {s : KgSys D} {op : PosOp} (h : DecayArmed s) (hready : s.pos.ready = true)
    (hop : SwitchedInTime s op) : DecayArmed (posStep sha mac s op) := by
  cases op with
  | raise env target trigger => exact kgPostureRaise_armed sha mac env target trigger h
  | set env target => exact kgPostureSet_armed sha mac env target h
  | decay env => exact kgPosDecayFn_armed sha mac env s
  | writeMaxPosture v => exact h
  | writeDecayS v =>
      intro _ hel hv
      by_cases hzero : s.params.postureDecayS = 0
      · exact hop v rfl hv hel hzero
      · exact h hready hel hzero

/-- A write that comes too late leaves the posture ELEVATED for good. -/
theorem posStep_not_armed {s : KgSys D} {op : PosOp} (hready : s.pos.ready = true)
    (hop : ¬ SwitchedInTime s op) : ¬ DecayArmed (posStep sha mac s op) := by
  unfold SwitchedInTime at hop
  push Not at hop
  obtain ⟨v, rfl, hv, hel, -, hpending⟩ := hop
  intro harmed
  exact hpending (harmed hready hel hv)

theorem posRun_ready {s : KgSys D} (h : s.pos.ready = true) (ops : List PosOp) :
    (exec (posStep sha mac) s ops).pos.ready = true := by
  induction ops generalizing s with
  | nil => exact h
  | cons op rest ih => exact ih (posStep_flags sha mac s h op).1

/-- In every state of a run the decay of an ELEVATED posture is armed exactly when no write of
the parameter switched it on too late. -/
theorem decay_armed_iff (real : UInt64) (s₀ : KgSys D) (hpos : s₀.pos = kgPostureInit real)
    (hposture : kgPosture s₀ = kgPostureNormal) (ops : List PosOp) :
    (∀ pre post, ops = pre ++ post → DecayArmed (exec (posStep sha mac) s₀ pre)) ↔
      Along (posStep sha mac) s₀ ops SwitchedInTime := by
  have hready₀ : s₀.pos.ready = true := by
    rw [hpos]
    rfl
  constructor
  · intro harmed pre op post hops
    have hready := posRun_ready sha mac hready₀ pre
    have hnext := harmed (pre ++ [op]) post (by simp [hops])
    rw [exec_snoc] at hnext
    by_contra hlate
    exact posStep_not_armed sha mac hready hlate hnext
  · intro halong pre post hops
    rw [hops] at halong
    have hinit : DecayArmed s₀ ∧ s₀.pos.ready = true := by
      refine ⟨?_, hready₀⟩
      intro _ hel _
      exact absurd (hposture.symm.trans hel) (by decide)
    have hinv : DecayArmed (exec (posStep sha mac) s₀ pre) ∧
        (exec (posStep sha mac) s₀ pre).pos.ready = true := by
      refine exec_invariant_of (P := fun s => DecayArmed s ∧ s.pos.ready = true) ?_ hinit pre
        halong.left
      intro s op hs hop
      exact ⟨posStep_armed sha mac hs.1 hs.2 hop, (posStep_flags sha mac s hs.2 op).1⟩
    exact hinv.1

/-- After a DMA alert the decay is armed. -/
theorem decay_armed_iff_dma :
    DecayArmed (exec (posStep (okSha id) checksumMac) freshSys
      [.raise envZero kgPostureElevated kgAlertUnauthorizedDma]) := by
  refine (decay_armed_iff (okSha id) checksumMac 0 freshSys rfl (by decide)
    [.raise envZero kgPostureElevated kgAlertUnauthorizedDma]).mpr ?_ _ [] rfl
  refine along_cons.mpr ⟨?_, .nil _ _ _⟩
  intro v hop
  simp at hop

/-- `freshSys` loaded with `posture_decay_s=0`. -/
def noDecaySys : KgSys (List UInt8) := { freshSys with params := ⟨kgPostureFailsafe, 0⟩ }

/-- Writing ten minutes to the parameter behind an ELEVATED posture arms nothing. -/
theorem late_switch_leaves_unarmed :
    ¬ ∀ ops : List PosOp,
      DecayArmed (exec (posStep (okSha id) checksumMac) noDecaySys ops) := by
  intro harmed
  have hpending := harmed
    [.raise envZero kgPostureElevated kgAlertUnauthorizedDma, .writeDecayS 600]
    (by decide) (by decide) (by decide)
  exact absurd hpending (by decide)

end KernelGuard
