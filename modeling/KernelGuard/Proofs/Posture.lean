/-
The posture ladder.

The first half says once what each entry point of `kg_posture.c` does to the four
fields the ladder is about: the posture, the quiet-period clock, the untrusted flag
and the parameters.  Announcements only touch the notification channel, so they
drop out there.  The second half is the discipline of the ladder over whole runs,
which needs one invariant: the clock is never behind the last step that restarted
it, and a corruption that was ever seen is still remembered.
-/
import KernelGuard.Model.Posture
import KernelGuard.Proofs.Guard
import KernelGuard.Proofs.Comms

namespace KernelGuard

open Run

variable {D : Type} (sha : List UInt8 → Option D) (mac : List UInt8 → KgMac)

/-! ### The report cycle closes after two levels

Raising the posture reports a change, and a report may raise the posture.  The
source's recursion ends since the two alerts about the posture itself are not
dispatched; the model unrolls it that far, and `kgReport_eq` shows that it satisfies
the recursive equation.
-/

/-- The two alerts the posture code raises itself are not dispatched any further. -/
theorem kgDispatchWith_quiet (report : Report D) (env : Env) {a : Alert}
    (h : a.type = kgAlertFailSafeEntered ∨ a.type = kgAlertPostureChanged) (s : KgSys D) :
    kgDispatchWith sha report env a s = s := by
  unfold kgDispatchWith
  rcases h with h | h <;> rw [h] <;> rfl

theorem kgReportWith_quiet (report : Report D) (env : Env) {a : Alert}
    (h : a.type = kgAlertFailSafeEntered ∨ a.type = kgAlertPostureChanged) (s : KgSys D) :
    kgReportWith sha mac report env a s
      = { s with comms := (kgCommsNotify mac env a s.comms).2 } :=
  kgDispatchWith_quiet sha report env h _

theorem kgReport_quiet (env : Env) {a : Alert}
    (h : a.type = kgAlertFailSafeEntered ∨ a.type = kgAlertPostureChanged) (s : KgSys D) :
    kgReport sha mac env a s = { s with comms := (kgCommsNotify mac env a s.comms).2 } :=
  kgReportWith_quiet sha mac _ env h s

theorem kgPosAfterUp_congr {r r' : Report D}
    (h : ∀ env s, r env ⟨kgAlertFailSafeEntered, kgLevelCritical, 0, 0⟩ s
      = r' env ⟨kgAlertFailSafeEntered, kgLevelCritical, 0, 0⟩ s)
    (env : Env) (target : UInt32) (s : KgSys D) :
    kgPosAfterUp r env target s = kgPosAfterUp r' env target s := by
  unfold kgPosAfterUp
  rw [h env s]

/-- `kgReport` satisfies the source's recursive equation. -/
theorem kgReport_eq : kgReport (D := D) sha mac = kgReportWith sha mac (kgReport sha mac) := by
  have hafter : ∀ env target (s : KgSys D),
      kgPosAfterUp (kgReportWith sha mac fun _ _ s => s) env target s
        = kgPosAfterUp (kgReport sha mac) env target s :=
    kgPosAfterUp_congr fun env s => by
      rw [kgReportWith_quiet sha mac _ env (Or.inl rfl), kgReport_quiet sha mac env (Or.inl rfl)]
  have hraise : ∀ env target trigger (s : KgSys D),
      kgPostureRaiseWith sha (kgReportWith sha mac fun _ _ s => s) env target trigger s
        = kgPostureRaiseWith sha (kgReport sha mac) env target trigger s := by
    intro env target trigger s
    simp only [kgPostureRaiseWith, hafter]
  funext env a s
  show kgDispatchWith sha _ env a _ = kgDispatchWith sha _ env a _
  simp only [kgDispatchWith, hraise]

/-! ### What each entry point does

There are three, for a raise, for the decay and for an operator's request.  Each gets
one lemma with all it can do to the ladder, guards included, and the runs below know
the entry points by these.
-/

@[simp] theorem setPosture_posture (posture : UInt32) (g : KgGuard D) :
    (kgMitSetPosture sha posture g).hdr.posture = posture := by
  simp [kgMitSetPosture]

theorem kgPosAfterUp_comms (env : Env) (target : UInt32) (s : KgSys D) :
    ∃ c, kgPosAfterUp (kgReport sha mac) env target s = { s with comms := c } := by
  unfold kgPosAfterUp
  by_cases h : target = kgPostureFailsafe
  · rw [if_pos h, kgReport_quiet sha mac env (Or.inl rfl)]
    exact ⟨_, rfl⟩
  · rw [if_neg h]
    exact ⟨s.comms, rfl⟩

theorem kgPosAnnounce_comms (env : Env) (old new why trigger : UInt32) (s : KgSys D) :
    ∃ c, kgPosAnnounce sha mac env old new why trigger s = { s with comms := c } :=
  ⟨_, kgReport_quiet sha mac env (Or.inr rfl) s⟩

theorem kgPosArmDecayLocked_pending (s : KgSys D) :
    ∃ b, kgPosArmDecayLocked s = { s with pos := { s.pos with decayPending := b } } := by
  unfold kgPosArmDecayLocked
  by_cases h : (s.pos.ready && kgPosDecayS s != 0 && kgPosture s == kgPostureElevated) = true
  · rw [if_pos h]; exact ⟨true, rfl⟩
  · rw [if_neg h]; exact ⟨s.pos.decayPending, rfl⟩

/-- The rung a raise aims at: the target, bounded by `max_posture` and by the ladder. -/
def capped (s : KgSys D) (target : UInt32) : UInt32 :=
  min target (min s.params.maxPosture kgPostureFailsafe)

/-- A raise, as far as the ladder and the guarded table are concerned. -/
structure RaiseEffect (env : Env) (target trigger : UInt32) (s s' : KgSys D) : Prop where
  guard : s'.guard
    = if capped s target > kgPosture s then kgMitSetPosture sha (capped s target) s.guard
      else s.guard
  clock : s'.pos.triggerMono
    = if capped s target ≥ kgPostureElevated then env.mono else s.pos.triggerMono
  untrusted : s'.pos.untrusted
    = (s.pos.untrusted || decide (trigger = kgAlertSharedStateCorrupt))
  ready : s'.pos.ready = true
  params : s'.params = s.params

/-- The bookkeeping of a raise, before it decides whether the posture moves. -/
def raiseNoted (env : Env) (target trigger : UInt32) (s : KgSys D) : KgSys D :=
  let untrusted := s.pos.untrusted || decide (trigger = kgAlertSharedStateCorrupt)
  let s' := { s with pos := { s.pos with untrusted := untrusted } }
  if capped s target ≥ kgPostureElevated then
    { s' with pos := { s'.pos with
      triggerNs := env.real, triggerMono := env.mono, trigger := trigger } }
  else s'

theorem RaiseEffect.posture {env : Env} {target trigger : UInt32} {s s' : KgSys D}
    (h : RaiseEffect sha env target trigger s s') :
    kgPosture s' = if capped s target > kgPosture s then capped s target else kgPosture s := by
  show s'.guard.hdr.posture = _
  rw [h.guard]
  by_cases hup : capped s target > kgPosture s
  · rw [if_pos hup, if_pos hup, setPosture_posture]
  · rw [if_neg hup, if_neg hup]
    rfl

theorem raiseNoted_guard (env : Env) (target trigger : UInt32) (s : KgSys D) :
    (raiseNoted env target trigger s).guard = s.guard := by
  unfold raiseNoted
  by_cases h : capped s target ≥ kgPostureElevated
  · simp only [if_pos h]
  · simp only [if_neg h]

/-- The bookkeeping alone has the effect of a raise that does not move the posture. -/
theorem raiseNoted_effect (env : Env) (target trigger : UInt32) (s : KgSys D)
    (hready : s.pos.ready = true) (hno : ¬ capped s target > kgPosture s) :
    RaiseEffect sha env target trigger s (raiseNoted env target trigger s) := by
  refine ⟨by rw [raiseNoted_guard, if_neg hno], ?_, ?_, ?_, ?_⟩ <;> unfold raiseNoted <;>
    by_cases h : capped s target ≥ kgPostureElevated <;> simp [h, hready]

theorem kgPostureRaiseWith_eq (report : Report D) (env : Env) (target trigger : UInt32)
    (s : KgSys D) (hready : s.pos.ready = true) :
    kgPostureRaiseWith sha report env target trigger s
      = if capped s target > kgPosture s then
          kgPosAfterUp report env (capped s target)
            (kgPosArmDecayLocked
              (kgPosApplyLocked sha env (capped s target) (raiseNoted env target trigger s)))
        else kgPosArmDecayLocked (raiseNoted env target trigger s) := by
  unfold kgPostureRaiseWith
  rw [if_neg (by simp [hready])]
  show (if decide (capped s target > kgPosture s) = true then
      kgPosAfterUp report env (capped s target)
        (kgPosArmDecayLocked
          (if decide (capped s target > kgPosture s) = true then
            kgPosApplyLocked sha env (capped s target) (raiseNoted env target trigger s)
          else raiseNoted env target trigger s))
    else
      kgPosArmDecayLocked
        (if decide (capped s target > kgPosture s) = true then
          kgPosApplyLocked sha env (capped s target) (raiseNoted env target trigger s)
        else raiseNoted env target trigger s)) = _
  by_cases hup : capped s target > kgPosture s
  · simp only [hup, decide_true, if_true]
  · simp only [hup, decide_false, Bool.false_eq_true, if_false]

theorem kgPostureRaise_effect (env : Env) (target trigger : UInt32) (s : KgSys D)
    (hready : s.pos.ready = true) :
    RaiseEffect sha env target trigger s (kgPostureRaise sha mac env target trigger s) := by
  unfold kgPostureRaise
  rw [kgPostureRaiseWith_eq sha _ env target trigger s hready]
  by_cases hup : capped s target > kgPosture s
  · rw [if_pos hup]
    obtain ⟨c, hc⟩ := kgPosAfterUp_comms sha mac env (capped s target)
      (kgPosArmDecayLocked
        (kgPosApplyLocked sha env (capped s target) (raiseNoted env target trigger s)))
    obtain ⟨b, hb⟩ := kgPosArmDecayLocked_pending
      (kgPosApplyLocked sha env (capped s target) (raiseNoted env target trigger s))
    rw [hc, hb]
    refine ⟨?_, ?_, ?_, ?_, ?_⟩
    · rw [if_pos hup, ← raiseNoted_guard env target trigger s]
      rfl
    all_goals
      unfold kgPosApplyLocked raiseNoted
      by_cases h : capped s target ≥ kgPostureElevated <;> simp [h, hready]
  · rw [if_neg hup]
    obtain ⟨b, hb⟩ := kgPosArmDecayLocked_pending (raiseNoted env target trigger s)
    have hno := raiseNoted_effect sha env target trigger s hready hup
    rw [hb]
    exact ⟨hno.guard, hno.clock, hno.untrusted, hno.ready, hno.params⟩

/-- A step that leaves the ladder's fields alone, except perhaps for the channel and the timer. -/
structure LadderSame (s s' : KgSys D) : Prop where
  posture : kgPosture s' = kgPosture s
  clock : s'.pos.triggerMono = s.pos.triggerMono
  untrusted : s'.pos.untrusted = s.pos.untrusted
  ready : s'.pos.ready = s.pos.ready

/-- The quiet period has passed: what lets the decay work lower the posture. -/
def decayDue (env : Env) (s : KgSys D) : Bool :=
  s.pos.ready && kgPosDecayS s != 0 && kgPosture s == kgPostureElevated &&
    decide (env.mono ≥ s.pos.triggerMono + (kgPosDecayS s).toUInt64 * nsecPerSec)

/-- A decay that is due lowers the posture and announces it. -/
theorem kgPosDecayFn_of_due {env : Env} {s : KgSys D} (h : decayDue env s = true) :
    kgPosDecayFn sha mac env s
      = kgPosAnnounce sha mac env kgPostureElevated kgPostureNormal kgPostureWhyDecay
          s.pos.trigger (kgPosApplyLocked sha env kgPostureNormal
            { s with pos := { s.pos with decayPending := false } }) := by
  unfold decayDue at h
  obtain ⟨hel, hdue⟩ := Bool.and_eq_true_iff.mp h
  unfold kgPosDecayFn
  rw [if_pos (by simpa [kgPosture] using hel), if_pos (by simpa using hdue)]

/-- The decay work either lowers ELEVATED to NORMAL, when it is due, or changes no rung. -/
theorem kgPosDecayFn_cases (env : Env) (s : KgSys D) :
    (decayDue env s = true ∧ kgPosture s = kgPostureElevated ∧
      kgPosture (kgPosDecayFn sha mac env s) = kgPostureNormal ∧
      (kgPosDecayFn sha mac env s).pos.triggerMono = s.pos.triggerMono ∧
      (kgPosDecayFn sha mac env s).pos.untrusted = s.pos.untrusted ∧
      (kgPosDecayFn sha mac env s).pos.ready = s.pos.ready) ∨
    (decayDue env s = false ∧ LadderSame s (kgPosDecayFn sha mac env s)) := by
  by_cases hdue : decayDue env s = true
  · rw [kgPosDecayFn_of_due sha mac hdue]
    obtain ⟨c, hc⟩ := kgPosAnnounce_comms sha mac env kgPostureElevated kgPostureNormal
      kgPostureWhyDecay s.pos.trigger (kgPosApplyLocked sha env kgPostureNormal
        { s with pos := { s.pos with decayPending := false } })
    rw [hc]
    have hel : kgPosture s = kgPostureElevated := by
      simp only [decayDue, Bool.and_eq_true, beq_iff_eq] at hdue
      exact hdue.1.2
    exact Or.inl ⟨hdue, hel, setPosture_posture sha _ _, rfl, rfl, rfl⟩
  · refine Or.inr ⟨by simpa using hdue, ?_⟩
    unfold kgPosDecayFn
    by_cases hel : (s.pos.ready && kgPosDecayS s != 0 && kgPosture s == kgPostureElevated) = true
    · have hlate : ¬ env.mono ≥ s.pos.triggerMono + (kgPosDecayS s).toUInt64 * nsecPerSec := by
        intro hge
        exact hdue (Bool.and_eq_true_iff.mpr ⟨hel, by simpa using hge⟩)
      rw [if_pos (by simpa [kgPosture] using hel), if_neg hlate]
      exact ⟨rfl, rfl, rfl, rfl⟩
    · rw [if_neg (by simpa [kgPosture] using hel)]
      exact ⟨rfl, rfl, rfl, rfl⟩

/-- A request that moves the posture: in range, the ladder is ready, and nothing forbids it. -/
def setMoves (target : UInt32) (s : KgSys D) : Bool :=
  decide (target < kgPostureCount) && s.pos.ready && decide (target ≠ kgPosture s) &&
    !(decide (target < kgPosture s) && decide (kgPosture s ≥ kgPostureHigh) && s.pos.untrusted)

/-- The state an accepted request leaves, before anything is reported about it. -/
def setApplied (env : Env) (target : UInt32) (s : KgSys D) : KgSys D :=
  let s := kgPosApplyLocked sha env target s
  kgPosArmDecayLocked { s with pos := { s.pos with triggerMono := env.mono } }

/-- A request that moves the posture applies it, reports a raise, and announces the change. -/
theorem kgPostureSet_of_moves {env : Env} {target : UInt32} {s : KgSys D}
    (h : setMoves target s = true) :
    kgPostureSet sha mac env target s
      = (0, kgPosAnnounce sha mac env (kgPosture s) target kgPostureWhyOperator s.pos.trigger
          (if target > kgPosture s then
            kgPosAfterUp (kgReport sha mac) env target (setApplied sha env target s)
          else setApplied sha env target s)) := by
  simp only [setMoves, Bool.and_eq_true, decide_eq_true_eq, Bool.not_eq_true'] at h
  obtain ⟨⟨⟨hcount, hready⟩, hne⟩, hallowed⟩ := h
  have hrefuse : ¬ (target < kgPosture s ∧ kgPosture s ≥ kgPostureHigh ∧
      s.pos.untrusted = true) := by
    rintro ⟨hlt, hhigh, hu⟩
    simp [hlt, hhigh, hu] at hallowed
  unfold kgPostureSet
  rw [if_neg (UInt32.not_le.mpr hcount), if_neg (by simp [hready])]
  simp only
  rw [if_neg hne, if_neg hrefuse]
  rfl

/-- A request that does not move the posture changes nothing. -/
theorem kgPostureSet_of_not_moves {env : Env} {target : UInt32} {s : KgSys D}
    (h : setMoves target s = false) :
    (kgPostureSet sha mac env target s).2 = s ∧
      ((kgPostureSet sha mac env target s).1 = 0 → target = kgPosture s) := by
  unfold kgPostureSet
  by_cases hcount : target ≥ kgPostureCount
  · rw [if_pos hcount]
    exact ⟨rfl, by simp⟩
  rw [if_neg hcount]
  by_cases hready : s.pos.ready = true
  swap
  · rw [if_pos (by simpa using hready)]
    exact ⟨rfl, by simp⟩
  rw [if_neg (by simp [hready])]
  simp only
  by_cases hsame : target = kgPosture s
  · rw [if_pos hsame]
    exact ⟨rfl, fun _ => hsame⟩
  rw [if_neg hsame]
  by_cases hrefuse : target < kgPosture s ∧ kgPosture s ≥ kgPostureHigh ∧ s.pos.untrusted = true
  · rw [if_pos hrefuse]
    exact ⟨rfl, by simp⟩
  -- None of the early returns applies, so the request moves the posture.
  exfalso
  simp only [setMoves, UInt32.not_le.mp hcount, hready, hsame, decide_true, ne_eq,
    not_false_eq_true, Bool.and_self, Bool.true_and, Bool.not_eq_false', Bool.and_eq_true,
    decide_eq_true_eq] at h
  exact hrefuse ⟨h.1.1, h.1.2, h.2⟩

theorem setApplied_effect (env : Env) (target : UInt32) (s : KgSys D) :
    kgPosture (setApplied sha env target s) = target ∧
      (setApplied sha env target s).pos.triggerMono = env.mono ∧
      (setApplied sha env target s).pos.untrusted = s.pos.untrusted ∧
      (setApplied sha env target s).pos.ready = s.pos.ready := by
  unfold setApplied
  obtain ⟨b, hb⟩ := kgPosArmDecayLocked_pending
    { kgPosApplyLocked sha env target s with
      pos := { (kgPosApplyLocked sha env target s).pos with triggerMono := env.mono } }
  simp only
  rw [hb]
  exact ⟨setPosture_posture sha _ _, rfl, rfl, rfl⟩

/-- An operator request either moves the posture to its target or changes nothing. -/
theorem kgPostureSet_cases (env : Env) (target : UInt32) (s : KgSys D) :
    (setMoves target s = true ∧ (kgPostureSet sha mac env target s).1 = 0 ∧
      kgPosture (kgPostureSet sha mac env target s).2 = target ∧
      (kgPostureSet sha mac env target s).2.pos.triggerMono = env.mono ∧
      (kgPostureSet sha mac env target s).2.pos.untrusted = s.pos.untrusted ∧
      (kgPostureSet sha mac env target s).2.pos.ready = s.pos.ready) ∨
    (setMoves target s = false ∧ (kgPostureSet sha mac env target s).2 = s ∧
      ((kgPostureSet sha mac env target s).1 = 0 → target = kgPosture s)) := by
  by_cases hmoves : setMoves target s = true
  · have happlied := setApplied_effect sha env target s
    rw [kgPostureSet_of_moves sha mac hmoves]
    refine Or.inl ⟨hmoves, rfl, ?_⟩
    by_cases hup : target > kgPosture s
    · obtain ⟨c, hc⟩ := kgPosAfterUp_comms sha mac env target (setApplied sha env target s)
      obtain ⟨d, hd⟩ := kgPosAnnounce_comms sha mac env (kgPosture s) target
        kgPostureWhyOperator s.pos.trigger
        (kgPosAfterUp (kgReport sha mac) env target (setApplied sha env target s))
      rw [if_pos hup, hd, hc]
      exact happlied
    · obtain ⟨d, hd⟩ := kgPosAnnounce_comms sha mac env (kgPosture s) target
        kgPostureWhyOperator s.pos.trigger (setApplied sha env target s)
      rw [if_neg hup, hd]
      exact happlied
  · have hno : setMoves target s = false := by simpa using hmoves
    exact Or.inr ⟨hno, kgPostureSet_of_not_moves sha mac hno⟩

/-! ### Runs of the ladder

The invariant relates the clock to the history: it is the time of the last step that
restarted the quiet period.  A step either leaves the clock or sets it to its own
time, which is not before any earlier one.
-/

/-- What can happen to the posture machine: its three entry points and the two parameters. -/
inductive PosOp where
  | raise (env : Env) (target trigger : UInt32)
  | set (env : Env) (target : UInt32)
  | decay (env : Env)
  | writeMaxPosture (v : UInt32)
  | writeDecayS (v : UInt32)

def posStep (s : KgSys D) : PosOp → KgSys D
  | .raise env target trigger => kgPostureRaise sha mac env target trigger s
  | .set env target => (kgPostureSet sha mac env target s).2
  | .decay env => kgPosDecayFn sha mac env s
  | .writeMaxPosture v => { s with params := { s.params with maxPosture := v } }
  | .writeDecayS v => { s with params := { s.params with postureDecayS := v } }

def PosOp.time : PosOp → Option UInt64
  | .raise env _ _ => some env.mono
  | .set env _ => some env.mono
  | .decay env => some env.mono
  | .writeMaxPosture _ => none
  | .writeDecayS _ => none

/-- The steps happen at non-decreasing times. -/
def Timed (ops : List PosOp) : Prop := (ops.filterMap PosOp.time).Pairwise (· ≤ ·)

/--
The time at which a step restarts the quiet period, if it does: a raise whose capped
target is ELEVATED or more, or an operator request that is accepted and asks for
another rung than the current one.
-/
def restart (s : KgSys D) : PosOp → Option UInt64
  | .raise env target _ => if capped s target ≥ kgPostureElevated then some env.mono else none
  | .set env target =>
      if (kgPostureSet sha mac env target s).1 = 0 ∧ target ≠ kgPosture s then some env.mono
      else none
  | .decay _ => none
  | .writeMaxPosture _ => none
  | .writeDecayS _ => none

/-- A corruption of the policy state has been reported to the ladder. -/
def CorruptSeen (ops : List PosOp) : Prop :=
  ∃ pre env target post, ops = pre ++ .raise env target kgAlertSharedStateCorrupt :: post

/-- What a run leaves behind in the ladder's bookkeeping. -/
structure LadderInv (s₀ : KgSys D) (ops : List PosOp) (s : KgSys D) : Prop where
  ready : s.pos.ready = true
  /-- The quiet-period clock shows the time of some earlier step. -/
  clock : s.pos.triggerMono = 0 ∨
    (∃ e ∈ ops, e.time = some s.pos.triggerMono) ∧ s.pos.triggerMono.toNat < 2 ^ 63
  /-- No step that restarted the clock is later than what the clock shows. -/
  restarts : ∀ pre e post t, ops = pre ++ e :: post →
    restart sha mac (exec (posStep sha mac) s₀ pre) e = some t → t ≤ s.pos.triggerMono
  corrupt : CorruptSeen ops → s.pos.untrusted = true

/-- A step either leaves the clock alone or sets it to its own time, as `restart` says. -/
theorem posStep_clock (s : KgSys D) (hready : s.pos.ready = true) (op : PosOp) :
    (restart sha mac s op = none ∧ (posStep sha mac s op).pos.triggerMono = s.pos.triggerMono) ∨
    (∃ t, restart sha mac s op = some t ∧ (posStep sha mac s op).pos.triggerMono = t ∧
      op.time = some t ∧ t.toNat < 2 ^ 63) := by
  cases op with
  | raise env target trigger =>
      have heff := kgPostureRaise_effect sha mac env target trigger s hready
      by_cases hel : capped s target ≥ kgPostureElevated
      · exact Or.inr ⟨env.mono, if_pos hel, heff.clock.trans (if_pos hel), rfl, env.mono_lt⟩
      · exact Or.inl ⟨if_neg hel, heff.clock.trans (if_neg hel)⟩
  | set env target =>
      rcases kgPostureSet_cases sha mac env target s with
        ⟨hmoves, hret, -, hclock, -, -⟩ | ⟨-, hsame, hret⟩
      · have hne : target ≠ kgPosture s := by
          simp only [setMoves, Bool.and_eq_true, decide_eq_true_eq] at hmoves
          exact hmoves.1.2
        exact Or.inr ⟨env.mono, if_pos ⟨hret, hne⟩, hclock, rfl, env.mono_lt⟩
      · refine Or.inl ⟨if_neg fun h => h.2 (hret h.1), ?_⟩
        show (kgPostureSet sha mac env target s).2.pos.triggerMono = _
        rw [hsame]
  | decay env =>
      refine Or.inl ⟨rfl, ?_⟩
      rcases kgPosDecayFn_cases sha mac env s with ⟨-, -, -, hclock, -, -⟩ | ⟨-, hsame⟩
      · exact hclock
      · exact hsame.clock
  | writeMaxPosture v => exact Or.inl ⟨rfl, rfl⟩
  | writeDecayS v => exact Or.inl ⟨rfl, rfl⟩

/-- No step makes the ladder unready or forgets a corruption, and the raise that reports one sets it. -/
theorem posStep_flags (s : KgSys D) (hready : s.pos.ready = true) (op : PosOp) :
    (posStep sha mac s op).pos.ready = true ∧
    (s.pos.untrusted = true → (posStep sha mac s op).pos.untrusted = true) ∧
    (∀ env target, op = .raise env target kgAlertSharedStateCorrupt →
      (posStep sha mac s op).pos.untrusted = true) := by
  cases op with
  | raise env target trigger =>
      have heff := kgPostureRaise_effect sha mac env target trigger s hready
      refine ⟨heff.ready, fun h => ?_, fun env' target' h => ?_⟩
      · show (kgPostureRaise sha mac env target trigger s).pos.untrusted = true
        rw [heff.untrusted, h, Bool.true_or]
      · injection h with _ _ htrigger
        show (kgPostureRaise sha mac env target trigger s).pos.untrusted = true
        rw [heff.untrusted, htrigger]
        simp
  | set env target =>
      rcases kgPostureSet_cases sha mac env target s with
        ⟨-, -, -, -, hu, hr⟩ | ⟨-, hsame, -⟩
      · exact ⟨hr.trans hready, fun h => hu.trans h, by simp⟩
      · refine ⟨?_, fun h => ?_, by simp⟩
        · show (kgPostureSet sha mac env target s).2.pos.ready = true
          rw [hsame]; exact hready
        · show (kgPostureSet sha mac env target s).2.pos.untrusted = true
          rw [hsame]; exact h
  | decay env =>
      rcases kgPosDecayFn_cases sha mac env s with ⟨-, -, -, -, hu, hr⟩ | ⟨-, hsame⟩
      · exact ⟨hr.trans hready, fun h => hu.trans h, by simp⟩
      · exact ⟨hsame.ready.trans hready, fun h => hsame.untrusted.trans h, by simp⟩
  | writeMaxPosture v => exact ⟨hready, fun h => h, by simp⟩
  | writeDecayS v => exact ⟨hready, fun h => h, by simp⟩

theorem LadderInv.step {s₀ : KgSys D} {ops : List PosOp} {op : PosOp}
    (h : LadderInv sha mac s₀ ops (exec (posStep sha mac) s₀ ops)) (htime : Timed (ops ++ [op])) :
    LadderInv sha mac s₀ (ops ++ [op]) (exec (posStep sha mac) s₀ (ops ++ [op])) := by
  rw [exec_snoc]
  set s := exec (posStep sha mac) s₀ ops with hs
  obtain ⟨hready', hkeep, hset⟩ := posStep_flags sha mac s h.ready op
  -- The clock only moves forward: it shows the time of an earlier step or of this one.
  have hle : s.pos.triggerMono ≤ (posStep sha mac s op).pos.triggerMono := by
    rcases posStep_clock sha mac s h.ready op with ⟨-, hclock⟩ | ⟨t, -, hclock, ht, -⟩
    · rw [hclock]; exact UInt64.le_refl _
    · rw [hclock]
      rcases h.clock with hzero | ⟨⟨e, he, hetime⟩, -⟩
      · rw [hzero]; exact UInt64.zero_le
      · unfold Timed at htime
        rw [List.filterMap_append, List.pairwise_append] at htime
        refine htime.2.2 _ (List.mem_filterMap.mpr ⟨e, he, hetime⟩) t ?_
        exact List.mem_filterMap.mpr ⟨op, by simp, ht⟩
  refine ⟨hready', ?_, ?_, ?_⟩
  · rcases posStep_clock sha mac s h.ready op with ⟨-, hclock⟩ | ⟨t, -, hclock, ht, hlt⟩
    · rw [hclock]
      rcases h.clock with hzero | ⟨⟨e, he, hetime⟩, hlt⟩
      · exact Or.inl hzero
      · exact Or.inr ⟨⟨e, List.mem_append_left _ he, hetime⟩, hlt⟩
    · rw [hclock]
      exact Or.inr ⟨⟨op, by simp, ht⟩, hlt⟩
  · intro pre e post t hsplit hrestart
    rcases split_snoc hsplit with ⟨rfl, rfl, -⟩ | ⟨post', -, hin⟩
    · rcases posStep_clock sha mac s h.ready e with ⟨hnone, -⟩ | ⟨t', hsome, hclock, -, -⟩
      · rw [hs, hrestart] at hnone
        simp at hnone
      · rw [hs, hrestart] at hsome
        rw [hclock, Option.some.inj hsome]
        exact UInt64.le_refl _
    · exact UInt64.le_trans (h.restarts pre e post' t hin hrestart) hle
  · rintro ⟨pre, env, target, post, hsplit⟩
    rcases split_snoc hsplit with ⟨-, hop, -⟩ | ⟨post', -, hin⟩
    · exact hset env target hop.symm
    · exact hkeep (h.corrupt ⟨pre, env, target, post', hin⟩)

theorem ladderInv_run (real : UInt64) {s₀ : KgSys D} (hpos : s₀.pos = kgPostureInit real)
    (ops : List PosOp) (htime : Timed ops) :
    LadderInv sha mac s₀ ops (exec (posStep sha mac) s₀ ops) := by
  induction ops using List.reverseRecOn with
  | nil =>
      refine ⟨?_, ?_, ?_, ?_⟩
      · rw [exec_nil, hpos]; rfl
      · rw [exec_nil, hpos]; exact Or.inl rfl
      · intro pre e post t hsplit
        simp at hsplit
      · rintro ⟨pre, env, target, post, hsplit⟩
        simp at hsplit
  | append_singleton ops op ih =>
      refine LadderInv.step sha mac (ih ?_) htime
      unfold Timed at htime ⊢
      rw [List.filterMap_append, List.pairwise_append] at htime
      exact htime.1

/-! ### The discipline of the ladder

Each part of the theorem is about one step in a reachable state, so it follows from
what the entry points do and the invariant, without another induction.
-/

/-- The quiet period in nanoseconds does not wrap: both summands are far below `2 ^ 64`. -/
theorem due_toNat {clock : UInt64} (hclock : clock.toNat < 2 ^ 63) (s : KgSys D) :
    (clock + (kgPosDecayS s).toUInt64 * nsecPerSec).toNat
      = clock.toNat + (kgPosDecayS s).toNat * 1000000000 := by
  have hsecs : (kgPosDecayS s).toNat ≤ 1000000 := by
    have hmin : kgPosDecayS s ≤ kgPostureMaxDecayS := by
      unfold kgPosDecayS
      exact Std.min_le_right
    exact UInt32.le_iff_toNat_le.mp hmin
  rw [UInt64.toNat_add, UInt64.toNat_mul, UInt32.toNat_toUInt64,
    show nsecPerSec.toNat = 1000000000 from rfl]
  omega

theorem u32_left_le_max (a b : UInt32) : a ≤ max a b := by
  show a ≤ if a ≤ b then b else a
  by_cases h : a ≤ b
  · rw [if_pos h]; exact h
  · rw [if_neg h]; exact UInt32.le_refl a

theorem u32_right_le_max (a b : UInt32) : b ≤ max a b := by
  show b ≤ if a ≤ b then b else a
  by_cases h : a ≤ b
  · rw [if_pos h]; exact UInt32.le_refl b
  · rw [if_neg h]; exact UInt32.le_of_lt (UInt32.not_le.mp h)

/-- A raise does not lower the posture, nor raise it beyond the ceiling. -/
theorem raise_bounds {s : KgSys D} (hready : s.pos.ready = true) (env : Env)
    (target trigger : UInt32) :
    kgPosture s ≤ kgPosture (posStep sha mac s (.raise env target trigger)) ∧
      kgPosture (posStep sha mac s (.raise env target trigger))
        ≤ max (kgPosture s) (min s.params.maxPosture kgPostureFailsafe) := by
  have heff := kgPostureRaise_effect sha mac env target trigger s hready
  show kgPosture s ≤ kgPosture (kgPostureRaise sha mac env target trigger s) ∧
    kgPosture (kgPostureRaise sha mac env target trigger s) ≤ _
  rw [heff.posture]
  by_cases hup : capped s target > kgPosture s
  · rw [if_pos hup]
    exact ⟨UInt32.le_of_lt hup, UInt32.le_trans Std.min_le_right (u32_right_le_max _ _)⟩
  · rw [if_neg hup]
    exact ⟨UInt32.le_refl _, u32_left_le_max _ _⟩

/-- An operator request that lowers the posture was accepted. -/
theorem set_lowers {s : KgSys D} {env : Env} {target : UInt32}
    (hlow : kgPosture (posStep sha mac s (.set env target)) < kgPosture s) :
    (kgPostureSet sha mac env target s).1 = 0 := by
  rcases kgPostureSet_cases sha mac env target s with ⟨-, hret, -⟩ | ⟨-, hsame, -⟩
  · exact hret
  · rw [show posStep sha mac s (.set env target) = s from hsame] at hlow
    exact absurd hlow (UInt32.lt_irrefl _)

/-- After a corruption, no operator request lowers a high posture. -/
theorem set_keeps_high {s : KgSys D} (huntrusted : s.pos.untrusted = true)
    (hhigh : kgPosture s ≥ kgPostureHigh) (env : Env) (target : UInt32) :
    kgPosture s ≤ kgPosture (posStep sha mac s (.set env target)) := by
  rcases kgPostureSet_cases sha mac env target s with ⟨hmoves, -, hposture, -⟩ | ⟨-, hsame, -⟩
  · rw [show kgPosture (posStep sha mac s (.set env target)) = target from hposture]
    by_contra hlt
    simp [setMoves, huntrusted, hhigh, UInt32.not_le.mp hlt] at hmoves
  · rw [show posStep sha mac s (.set env target) = s from hsame]
    exact UInt32.le_refl _

/-- A decay that lowers the posture goes one rung down, after the quiet period. -/
theorem decay_lowers {s₀ s : KgSys D} {pre : List PosOp} (hinv : LadderInv sha mac s₀ pre s)
    {env : Env} (hlow : kgPosture (posStep sha mac s (.decay env)) < kgPosture s) :
    kgPosture s = kgPostureElevated ∧
      kgPosture (posStep sha mac s (.decay env)) = kgPostureNormal ∧ kgPosDecayS s ≠ 0 ∧
      ∀ pre₁ e pre₂ t, pre = pre₁ ++ e :: pre₂ →
        restart sha mac (exec (posStep sha mac) s₀ pre₁) e = some t →
        t.toNat + (kgPosDecayS s).toNat * 1000000000 ≤ env.mono.toNat := by
  rcases kgPosDecayFn_cases sha mac env s with ⟨hdue, hel, hnorm, -⟩ | ⟨-, hsame⟩
  · refine ⟨hel, hnorm, ?_, ?_⟩
    · simp only [decayDue, Bool.and_eq_true, bne_iff_ne] at hdue
      exact hdue.1.1.2
    · intro pre₁ e pre₂ t hsplit hrestart
      have hle := hinv.restarts pre₁ e pre₂ t hsplit hrestart
      have hclock : s.pos.triggerMono.toNat < 2 ^ 63 := by
        rcases hinv.clock with hzero | ⟨-, hlt⟩
        · rw [hzero]; decide
        · exact hlt
      simp only [decayDue, Bool.and_eq_true, decide_eq_true_eq] at hdue
      have hpassed := UInt64.le_iff_toNat_le.mp hdue.2
      rw [due_toNat hclock s] at hpassed
      have := UInt64.le_iff_toNat_le.mp hle
      omega
  · rw [show kgPosture (posStep sha mac s (.decay env)) = kgPosture s from hsame.posture] at hlow
    exact absurd hlow (UInt32.lt_irrefl _)

/-- A decay leaves a high posture alone. -/
theorem decay_keeps_high {s : KgSys D} (hhigh : kgPosture s ≥ kgPostureHigh) (env : Env) :
    kgPosture s ≤ kgPosture (posStep sha mac s (.decay env)) := by
  rcases kgPosDecayFn_cases sha mac env s with ⟨-, hel, -⟩ | ⟨-, hsame⟩
  · rw [hel] at hhigh
    exact absurd hhigh (by decide)
  · rw [show kgPosture (posStep sha mac s (.decay env)) = kgPosture s from hsame.posture]
    exact UInt32.le_refl _

/--
**The discipline of the ladder.**  In every run of the posture machine after
`kg_posture_init`, with run-time writes to its parameters, at any non-decreasing
times, and for every step of it:

* a raise never lowers the posture and leaves it at most at the old rung or at the
  `max_posture` that call read;
* the posture goes down only by an accepted operator request or by the decay from
  ELEVATED to NORMAL, and that only once the configured quiet period, which is not
  zero, has passed since every step that restarted it;
* after a corruption of the policy state was reported, no step lowers a posture
  that is HIGH or FAILSAFE.
-/
theorem posture_ladder (real : UInt64) (s₀ : KgSys D) (hpos : s₀.pos = kgPostureInit real)
    (pre : List PosOp) (op : PosOp) (htime : Timed (pre ++ [op])) :
    let s := exec (posStep sha mac) s₀ pre
    let s' := posStep sha mac s op
    (∀ env target trigger, op = .raise env target trigger →
      kgPosture s ≤ kgPosture s' ∧
        kgPosture s' ≤ max (kgPosture s) (min s.params.maxPosture kgPostureFailsafe)) ∧
    (kgPosture s' < kgPosture s →
      (∃ env target, op = .set env target ∧ (kgPostureSet sha mac env target s).1 = 0) ∨
      (∃ env, op = .decay env ∧ kgPosture s = kgPostureElevated ∧
        kgPosture s' = kgPostureNormal ∧ kgPosDecayS s ≠ 0 ∧
        ∀ pre₁ e pre₂ t, pre = pre₁ ++ e :: pre₂ →
          restart sha mac (exec (posStep sha mac) s₀ pre₁) e = some t →
          t.toNat + (kgPosDecayS s).toNat * 1000000000 ≤ env.mono.toNat)) ∧
    (CorruptSeen pre → kgPosture s ≥ kgPostureHigh → kgPosture s ≤ kgPosture s') := by
  intro s s'
  have hinv : LadderInv sha mac s₀ pre s := by
    refine ladderInv_run sha mac real hpos pre ?_
    unfold Timed at htime ⊢
    rw [List.filterMap_append, List.pairwise_append] at htime
    exact htime.1
  cases op with
  | raise env target trigger =>
      have hbounds := raise_bounds sha mac hinv.ready env target trigger
      refine ⟨?_, fun h => absurd h (UInt32.not_lt.mpr hbounds.1), fun _ _ => hbounds.1⟩
      exact fun _ _ _ _ => hbounds
  | set env target =>
      refine ⟨by simp, ?_, ?_⟩
      · intro hlow
        exact Or.inl ⟨env, target, rfl, set_lowers sha mac hlow⟩
      · intro hseen hhigh
        exact set_keeps_high sha mac (hinv.corrupt hseen) hhigh env target
  | decay env =>
      refine ⟨by simp, ?_, ?_⟩
      · intro hlow
        exact Or.inr ⟨env, rfl, decay_lowers sha mac hinv hlow⟩
      · intro _ hhigh
        exact decay_keeps_high sha mac hhigh env
  | writeMaxPosture v =>
      exact ⟨by simp, fun h => absurd h (UInt32.lt_irrefl _), fun _ _ => UInt32.le_refl _⟩
  | writeDecayS v =>
      exact ⟨by simp, fun h => absurd h (UInt32.lt_irrefl _), fun _ _ => UInt32.le_refl _⟩

/-! A two-CPU machine fresh from initialisation, for the concrete runs. -/

def freshSys : KgSys (List UInt8) where
  guard := twoCpus
  comms := kgCommsInit 0
  pos := kgPostureInit 0
  params := ⟨kgPostureFailsafe, 600⟩
  topo := ⟨⟨2, two_lt_nrCpuIds⟩, fun _ => true, fun _ => []⟩
  corruptReported := false

def envTenMinutes : Env := ⟨600000000000, by decide, 600000000000, 0⟩

/-- Ten quiet minutes after a DMA alert the posture decays, and only then. -/
theorem posture_ladder_dma_decay :
    let s := exec (posStep (okSha id) checksumMac) freshSys
      [.raise envZero kgPostureElevated kgAlertUnauthorizedDma]
    kgPosture (posStep (okSha id) checksumMac s (.decay envTenMinutes)) < kgPosture s ∧
      kgPosDecayS s ≠ 0 := by
  intro s
  have hladder := posture_ladder (okSha id) checksumMac 0 freshSys rfl
    [.raise envZero kgPostureElevated kgAlertUnauthorizedDma] (.decay envTenMinutes)
    (by simp [Timed, PosOp.time, envZero, envTenMinutes])
  have hlow : kgPosture (posStep (okSha id) checksumMac s (.decay envTenMinutes)) < kgPosture s := by
    decide
  rcases hladder.2.1 hlow with ⟨env, target, hop, -⟩ | ⟨env, -, -, -, hsecs, -⟩
  · simp at hop
  · exact ⟨hlow, hsecs⟩

end KernelGuard
