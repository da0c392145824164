/-
What the module does about an alert, and what it tells the monitor about it.

Two properties that read like one line of code and are not.  A posture that goes
down is announced through `kg_report` at INFO or WATCH, so the announcement passes
the token bucket that every other non-critical alert drains; it reaches the ring
exactly when a token is left.  And the answer to a corrupted policy table compares
its target with the posture stored in that table, so it acts exactly when the
corruption left a posture below FAILSAFE there.
-/
import KernelGuard.Proofs.Posture
import Mathlib.Tactic.SplitIfs

namespace KernelGuard

open Run

variable {D : Type} (sha : List UInt8 → Option D) (mac : List UInt8 → KgMac)

/-! ### What a dispatch can do

The branches of the dispatch differ in what they raise the posture to, and one of
them escalates CPUs first.  For the proofs below they are alike: nothing, or a raise
of a table whose header is as it was.
-/

/-- Two states that differ at most in the per-CPU strategies. -/
structure SameButTable (s s' : KgSys D) : Prop where
  hdr : s'.guard.hdr = s.guard.hdr
  comms : s'.comms = s.comms
  pos : s'.pos = s.pos
  params : s'.params = s.params

theorem escalateCpu_hdr (cpu : Int) (g : KgGuard D) :
    (kgMitEscalateCpu sha cpu g).hdr = g.hdr := by
  unfold kgMitEscalateCpu
  by_cases hr : g.cpuOutOfRange cpu = true
  · rw [if_pos hr]
  · rw [if_neg hr, release_hdr]
    rfl

theorem kgMitFlushSiblings_same (cpu : Int) (s : KgSys D) :
    SameButTable s (kgMitFlushSiblings sha cpu s) := by
  unfold kgMitFlushSiblings
  by_cases hr : (decide (cpu < 0) || decide (cpu ≥ s.topo.nrCpuIds.val.toNat)) = true
  · rw [if_pos hr]
    exact ⟨rfl, rfl, rfl, rfl⟩
  rw [if_neg hr]
  -- Along the sibling list, each escalation keeps everything but its table entry.
  suffices h : ∀ (l : List Nat) (t : KgSys D), SameButTable s t →
      SameButTable s (l.foldl (fun s sib =>
        if sib = cpu.toNat || !s.topo.online sib then s
        else { s with guard := kgMitEscalateCpu sha sib s.guard }) t) from
    h _ s ⟨rfl, rfl, rfl, rfl⟩
  intro l
  induction l with
  | nil => intro t h; exact h
  | cons sib rest ih =>
      intro t h
      refine ih _ ?_
      beta_reduce
      by_cases hskip : (decide (sib = cpu.toNat) || !t.topo.online sib) = true
      · rw [if_pos hskip]; exact h
      · rw [if_neg hskip]
        exact ⟨(escalateCpu_hdr sha _ _).trans h.hdr, h.comms, h.pos, h.params⟩

/-- The CPUs a critical PMU alert escalates before it raises the posture. -/
def escalated (cpu : Int) (s : KgSys D) : KgSys D :=
  if cpu ≥ 0 ∧ cpu < s.topo.nrCpuIds.val.toNat ∧ s.topo.online cpu.toNat then
    kgMitFlushSiblings sha cpu { s with guard := kgMitEscalateCpu sha cpu s.guard }
  else s

theorem escalated_same (cpu : Int) (s : KgSys D) : SameButTable s (escalated sha cpu s) := by
  unfold escalated
  split
  · have hsib := kgMitFlushSiblings_same sha cpu
      { s with guard := kgMitEscalateCpu sha cpu s.guard }
    exact ⟨hsib.hdr.trans (escalateCpu_hdr sha cpu s.guard), hsib.comms, hsib.pos, hsib.params⟩
  · exact ⟨rfl, rfl, rfl, rfl⟩

/-- A raise, perhaps after escalating a core, or nothing. -/
def Escalates (report : Report D) (env : Env) (a : Alert) (s x : KgSys D) : Prop :=
  x = s ∨ ∃ t target, (t = s ∨ ∃ cpu, t = escalated sha cpu s) ∧
    x = kgPostureRaiseWith sha report env target a.type t

theorem Escalates.ite {report : Report D} {env : Env} {a : Alert} {s x y : KgSys D} {c : Prop}
    [Decidable c] (hx : Escalates sha report env a s x) (hy : Escalates sha report env a s y) :
    Escalates sha report env a s (if c then x else y) := by
  by_cases hc : c
  · rw [if_pos hc]; exact hx
  · rw [if_neg hc]; exact hy

theorem kgDispatchWith_escalates (report : Report D) (env : Env) (a : Alert) (s : KgSys D) :
    Escalates sha report env a s (kgDispatchWith sha report env a s) := by
  have hraise : ∀ target, Escalates sha report env a s
      (kgPostureRaiseWith sha report env target a.type s) :=
    fun target => Or.inr ⟨s, target, Or.inl rfl, rfl⟩
  have hnone : Escalates sha report env a s s := Or.inl rfl
  have hpmu : ∀ cpu : Int, Escalates sha report env a s
      (kgPostureRaiseWith sha report env kgPostureElevated a.type (escalated sha cpu s)) :=
    fun cpu => Or.inr ⟨_, _, Or.inr ⟨cpu, rfl⟩, rfl⟩
  unfold kgDispatchWith
  refine .ite sha (.ite sha (hpmu _) hnone) ?_
  refine .ite sha (hraise _) (.ite sha (hraise _) (.ite sha (hraise _) ?_))
  refine .ite sha (.ite sha (hraise _) hnone) (.ite sha (hraise _) ?_)
  refine .ite sha (.ite sha (hraise _) hnone) (.ite sha (.ite sha (hraise _) hnone) ?_)
  exact .ite sha (.ite sha (hraise _) hnone) (.ite sha (hraise _) hnone)

/-- What a dispatch leaves: nothing happened, or a raise, after perhaps escalating some CPUs. -/
def Dispatched (report : Report D) (env : Env) (a : Alert) (s x : KgSys D) : Prop :=
  x = s ∨ ∃ t target, SameButTable s t ∧ x = kgPostureRaiseWith sha report env target a.type t

theorem kgDispatchWith_cases (report : Report D) (env : Env) (a : Alert) (s : KgSys D) :
    Dispatched sha report env a s (kgDispatchWith sha report env a s) := by
  rcases kgDispatchWith_escalates sha report env a s with hnone | ⟨t, target, ht, hraise⟩
  · exact Or.inl hnone
  · refine Or.inr ⟨t, target, ?_, hraise⟩
    rcases ht with rfl | ⟨cpu, rfl⟩
    · exact ⟨rfl, rfl, rfl, rfl⟩
    · exact escalated_same sha cpu s

/-- Nothing a report does lowers the posture. -/
theorem kgPostureRaise_mono (env : Env) (target trigger : UInt32) (s : KgSys D) :
    kgPosture s ≤ kgPosture (kgPostureRaise sha mac env target trigger s) := by
  by_cases hready : s.pos.ready = true
  · rw [(kgPostureRaise_effect sha mac env target trigger s hready).posture]
    by_cases hup : capped s target > kgPosture s
    · rw [if_pos hup]; exact UInt32.le_of_lt hup
    · rw [if_neg hup]; exact UInt32.le_refl _
  · unfold kgPostureRaise kgPostureRaiseWith
    rw [if_pos (by simpa using hready)]
    exact UInt32.le_refl _

theorem kgReport_mono (env : Env) (a : Alert) (s : KgSys D) :
    kgPosture s ≤ kgPosture (kgReport sha mac env a s) := by
  rw [kgReport_eq]
  unfold kgReportWith
  rcases kgDispatchWith_cases sha (kgReport sha mac) env a
      { s with comms := (kgCommsNotify mac env a s.comms).2 } with h | ⟨t, target, hsame, h⟩
  · rw [h]
    exact UInt32.le_refl _
  · rw [h]
    have hposture : kgPosture t = kgPosture s := congrArg KgGuardHdr.posture hsame.hdr
    rw [← hposture]
    exact kgPostureRaise_mono sha mac env target a.type t

/-! ### The channel through a step of the module

What every publication attempt preserves, every step of the module preserves: the
channel changes through `kg_comms_notify` only.
-/

theorem kgPosArmDecayLocked_comms (s : KgSys D) : (kgPosArmDecayLocked s).comms = s.comms := by
  obtain ⟨b, hb⟩ := kgPosArmDecayLocked_pending s
  rw [hb]

theorem raiseNoted_comms (env : Env) (target trigger : UInt32) (s : KgSys D) :
    (raiseNoted env target trigger s).comms = s.comms := by
  unfold raiseNoted
  by_cases h : capped s target ≥ kgPostureElevated
  · simp only [if_pos h]
  · simp only [if_neg h]

section Channel

variable {P : KgComms → Prop} (hP : ∀ env a c, P c → P (kgCommsNotify mac env a c).2)

include hP

theorem kgPosAfterUp_channel (env : Env) (target : UInt32) {s : KgSys D} (h : P s.comms) :
    P (kgPosAfterUp (kgReport sha mac) env target s).comms := by
  unfold kgPosAfterUp
  by_cases ht : target = kgPostureFailsafe
  · rw [if_pos ht, kgReport_quiet sha mac env (Or.inl rfl)]
    exact hP _ _ _ h
  · rw [if_neg ht]
    exact h

theorem kgPostureRaise_channel (env : Env) (target trigger : UInt32) {s : KgSys D}
    (h : P s.comms) : P (kgPostureRaise sha mac env target trigger s).comms := by
  by_cases hready : s.pos.ready = true
  · unfold kgPostureRaise
    rw [kgPostureRaiseWith_eq sha _ env target trigger s hready]
    by_cases hup : capped s target > kgPosture s
    · rw [if_pos hup]
      refine kgPosAfterUp_channel sha mac hP env _ ?_
      rw [kgPosArmDecayLocked_comms]
      show P (raiseNoted env target trigger s).comms
      rw [raiseNoted_comms]
      exact h
    · rw [if_neg hup, kgPosArmDecayLocked_comms, raiseNoted_comms]
      exact h
  · unfold kgPostureRaise kgPostureRaiseWith
    rw [if_pos (by simpa using hready)]
    exact h

theorem kgReport_channel (env : Env) (a : Alert) {s : KgSys D} (h : P s.comms) :
    P (kgReport sha mac env a s).comms := by
  rw [kgReport_eq]
  unfold kgReportWith
  have hsent : P (kgCommsNotify mac env a s.comms).2 := hP env a _ h
  rcases kgDispatchWith_cases sha (kgReport sha mac) env a
      { s with comms := (kgCommsNotify mac env a s.comms).2 } with hd | ⟨t, target, hsame, hd⟩
  · rw [hd]
    exact hsent
  · rw [hd]
    refine kgPostureRaise_channel sha mac hP env target a.type ?_
    rw [hsame.comms]
    exact hsent

theorem kgPosDecayFn_channel (env : Env) {s : KgSys D} (h : P s.comms) :
    P (kgPosDecayFn sha mac env s).comms := by
  unfold kgPosDecayFn
  simp only
  split_ifs
  · exact kgReport_channel sha mac hP env _ h
  · exact h
  · exact h

theorem kgPostureSet_channel (env : Env) (target : UInt32) {s : KgSys D} (h : P s.comms) :
    P (kgPostureSet sha mac env target s).2.comms := by
  unfold kgPostureSet
  simp only
  split_ifs
  any_goals exact h
  · refine kgReport_channel sha mac hP env _ (kgPosAfterUp_channel sha mac hP env target ?_)
    rw [kgPosArmDecayLocked_comms]
    exact h
  · refine kgReport_channel sha mac hP env _ ?_
    rw [kgPosArmDecayLocked_comms]
    exact h

end Channel

/-! ### Every lowered posture, and the token bucket

An announcement is at INFO or WATCH, so it asks the limiter.  The step that lowers
the posture has no other call below critical before it, so whether a token is left
can be read off the state before the step.
-/

/-- The step put `n` into the ring, as the next notification, and nothing else. -/
def PublishedBy (s s' : KgSys D) (n : KgNotification) : Prop :=
  s'.comms.ring = s.comms.ring.publish n ∧ n.sequence = s.comms.ring.writeIndex

theorem PublishedBy.writeIndex {s s' : KgSys D} {n : KgNotification} (h : PublishedBy s s' n) :
    s'.comms.ring.writeIndex = s.comms.ring.writeIndex + 1 := by
  rw [h.1, ← h.2]
  rfl

/-- A publication moves the write index, so a ring that did not move was not published to. -/
theorem not_publishedBy {s s' : KgSys D}
    (h : s'.comms.ring.writeIndex = s.comms.ring.writeIndex) (n : KgNotification) :
    ¬ PublishedBy s s' n := by
  intro hpub
  have hnat := congrArg UInt32.toNat (h.symm.trans hpub.writeIndex)
  rw [UInt32.toNat_add, UInt32.toNat_one] at hnat
  have := s.comms.ring.writeIndex.toNat_lt
  omega

/-- The notification that records a posture change from `old` to `new`. -/
def Announces (old new : UInt32) (n : KgNotification) : Prop :=
  n.alertType = kgAlertPostureChanged ∧ n.param1 = (old.toUInt64 <<< 32) ||| new.toUInt64

/-- An announcement is published exactly when the bucket admits it. -/
theorem announce_iff (env : Env) (hhmac : env.hmacRet = 0) (old new why trigger : UInt32)
    {s x : KgSys D} (hx : x.comms = s.comms) (hok : ChannelOK s.comms) :
    (∃ n, PublishedBy s (kgPosAnnounce sha mac env old new why trigger x) n ∧
      Announces old new n) ↔ hasToken env.mono s.comms := by
  unfold kgPosAnnounce
  rw [kgReport_quiet sha mac env (Or.inr rfl), hx]
  set a : Alert :=
    { type := kgAlertPostureChanged
      level := if why = kgPostureWhyDecay then kgLevelInfo else kgLevelWatch
      p1 := (old.toUInt64 <<< 32) ||| new.toUInt64
      p2 := (why.toUInt64 <<< 32) ||| trigger.toUInt64 } with ha
  have hlevel : a.level < kgLevelCritical := by
    rw [ha]
    by_cases hw : why = kgPostureWhyDecay
    · simp only [if_pos hw]; decide
    · simp only [if_neg hw]; decide
  obtain ⟨hyes, hno⟩ := kgCommsNotify_below_critical mac env a s.comms hok hhmac hlevel
  constructor
  · rintro ⟨n, hpub, -⟩
    by_contra htok
    exact not_publishedBy (congrArg KgSharedRegion.writeIndex (hno htok)) n hpub
  · intro htok
    exact ⟨_, ⟨hyes htok, hok.nonce⟩, rfl, rfl⟩

/-- The steps of the module a run is made of. -/
inductive SysOp where
  | report (env : Env) (a : Alert)
  | decay (env : Env)
  | set (env : Env) (target : UInt32)

def SysOp.env : SysOp → Env
  | .report env _ => env
  | .decay env => env
  | .set env _ => env

def sysStep (s : KgSys D) : SysOp → KgSys D
  | .report env a => kgReport sha mac env a s
  | .decay env => kgPosDecayFn sha mac env s
  | .set env target => (kgPostureSet sha mac env target s).2

theorem sysStep_channel {P : KgComms → Prop} (hP : ∀ env a c, P c → P (kgCommsNotify mac env a c).2)
    (s : KgSys D) (op : SysOp) (h : P s.comms) : P (sysStep sha mac s op).comms := by
  cases op with
  | report env a => exact kgReport_channel sha mac hP env a h
  | decay env => exact kgPosDecayFn_channel sha mac hP env h
  | set env target => exact kgPostureSet_channel sha mac hP env target h

theorem sysRun_channelOK (now : UInt64) {s₀ : KgSys D} (hcomms : s₀.comms = kgCommsInit now)
    (ops : List SysOp) : ChannelOK (exec (sysStep sha mac) s₀ ops).comms := by
  refine exec_invariant (P := fun s : KgSys D => ChannelOK s.comms)
    (fun s op h => sysStep_channel sha mac (kgCommsNotify_ok mac) s op h) ?_ ops
  rw [hcomms]
  exact ⟨rfl, rfl⟩

/--
**When a lowered posture is in the log.**  In every run of the module after
`kg_comms_init`, a step that lowers the posture publishes the notification of that
change exactly when, in the state before the step, the token bucket of the
non-critical alerts has a token or is due for a refill.
-/
theorem lowered_posture_logged_iff (now : UInt64) (s₀ : KgSys D)
    (hcomms : s₀.comms = kgCommsInit now) (ops : List SysOp) (op : SysOp)
    (hhmac : op.env.hmacRet = 0) :
    let s := exec (sysStep sha mac) s₀ ops
    let s' := sysStep sha mac s op
    kgPosture s' < kgPosture s →
      ((∃ n, PublishedBy s s' n ∧ Announces (kgPosture s) (kgPosture s') n) ↔
        hasToken op.env.mono s.comms) := by
  intro s s' hlow
  have hok : ChannelOK s.comms := sysRun_channelOK sha mac now hcomms ops
  cases op with
  | report env a =>
      exact absurd hlow (UInt32.not_lt.mpr (kgReport_mono sha mac env a s))
  | decay env =>
      rcases kgPosDecayFn_cases sha mac env s with ⟨hdue, hold, hnew, -⟩ | ⟨-, hsame⟩
      · have hnew' : kgPosture s' = kgPostureNormal := hnew
        rw [hold, hnew']
        show (∃ n, PublishedBy s (kgPosDecayFn sha mac env s) n ∧ _) ↔ _
        rw [kgPosDecayFn_of_due sha mac hdue]
        exact announce_iff sha mac env hhmac kgPostureElevated kgPostureNormal _ _ rfl hok
      · exact absurd hlow (by rw [show kgPosture s' = _ from hsame.posture]; exact UInt32.lt_irrefl _)
  | set env target =>
      rcases kgPostureSet_cases sha mac env target s with
        ⟨hmoves, -, hnew, -⟩ | ⟨-, hsame, -⟩
      · have hnew' : kgPosture s' = target := hnew
        rw [hnew'] at hlow ⊢
        show (∃ n, PublishedBy s (kgPostureSet sha mac env target s).2 n ∧ _) ↔ _
        rw [kgPostureSet_of_moves sha mac hmoves,
          if_neg (UInt32.not_lt.mpr (UInt32.le_of_lt hlow))]
        refine announce_iff sha mac env hhmac (kgPosture s) target _ _ ?_ hok
        unfold setApplied
        rw [kgPosArmDecayLocked_comms]
        rfl
      · exact absurd hlow (by rw [show s' = s from hsame]; exact UInt32.lt_irrefl _)

/-- An operator who raises and lowers the posture of a quiet system finds both in the log. -/
theorem lowered_posture_logged_iff_quiet :
    let s := exec (sysStep (okSha id) checksumMac) freshSys [.set envZero kgPostureElevated]
    let s' := sysStep (okSha id) checksumMac s (.set envZero kgPostureNormal)
    kgPosture s' < kgPosture s ∧
      ∃ n, PublishedBy s s' n ∧ Announces (kgPosture s) (kgPosture s') n := by
  intro s s'
  have hlow : kgPosture s' < kgPosture s := by decide
  refine ⟨hlow, ?_⟩
  refine (lowered_posture_logged_iff (okSha id) checksumMac 0 freshSys rfl
    [.set envZero kgPostureElevated] (.set envZero kgPostureNormal) rfl hlow).mpr ?_
  exact Or.inl (by decide)

/-- Every lowered posture is in the log, whatever else the module reported before. -/
def LoweringAlwaysLogged : Prop :=
  ∀ (now : UInt64) (s₀ : KgSys D), s₀.comms = kgCommsInit now →
    ∀ (ops : List SysOp) (op : SysOp), (∀ o ∈ ops ++ [op], o.env.hmacRet = 0) →
    let s := exec (sysStep sha mac) s₀ ops
    let s' := sysStep sha mac s op
    kgPosture s' < kgPosture s →
      ∃ n, PublishedBy s s' n ∧ Announces (kgPosture s) (kgPosture s') n

/-- A raise by the operator, then 31 informational alerts in the same instant: the bucket is empty. -/
def drainBucket : List SysOp :=
  .set envZero kgPostureElevated ::
    List.replicate 31 (.report envZero ⟨kgAlertLoadPolicy, kgLevelInfo, 0, 0⟩)

/-- The step back down that follows in the same instant leaves no trace in the ring. -/
theorem drained_bucket_hides_lowering :
    ¬ LoweringAlwaysLogged (okSha (D := List UInt8) id) checksumMac := by
  intro h
  have hlow : kgPosture (sysStep (okSha id) checksumMac
        (exec (sysStep (okSha id) checksumMac) freshSys drainBucket) (.set envZero kgPostureNormal))
      < kgPosture (exec (sysStep (okSha id) checksumMac) freshSys drainBucket) := by
    decide +kernel
  obtain ⟨n, hpub, -⟩ := h 0 freshSys rfl drainBucket (.set envZero kgPostureNormal)
    (by simp [drainBucket, SysOp.env, envZero]) hlow
  exact not_publishedBy (by decide +kernel) n hpub

/-! ### The answer to a corrupted table

The adversary may have written anything to the header and the table.  What the raise
computes with is the posture it finds there, and comparing its target with this
number is all that can go wrong.
-/

/-- What the fail-safe posture is supposed to leave in the guarded table. -/
structure Contained [DecidableEq D] (g : KgGuard D) : Prop where
  posture : g.hdr.posture = kgPostureFailsafe
  failsafe : g.hdr.failsafe = 1
  strategy : ∀ i < g.hdr.ncpu.toNat, (g.cpu i).strategy = kgStratFull
  verifies : kgGuardVerify sha g = true

/-- The corruption alert asks for the top rung. -/
theorem kgReport_corrupt (env : Env) (s : KgSys D) :
    kgReport sha mac env ⟨kgAlertSharedStateCorrupt, kgLevelCritical, 0, 0⟩ s
      = kgPostureRaise sha mac env kgPostureFailsafe kgAlertSharedStateCorrupt
          { s with comms := (kgCommsNotify mac env
            ⟨kgAlertSharedStateCorrupt, kgLevelCritical, 0, 0⟩ s.comms).2 } := by
  rw [kgReport_eq]
  rfl

/-- The top rung, applied to any table whose `ncpu` is intact, contains it. -/
theorem setPosture_failsafe_contained [DecidableEq D] (hash : List UInt8 → D) {nr : NrCpuIds}
    {g : KgGuard D} (halloc : g.cpuAlloc = true) (hncpu : g.hdr.ncpu = nr.val) :
    Contained (okSha hash) (kgMitSetPosture (okSha hash) kgPostureFailsafe g) := by
  have hbound : g.loopBound = g.hdr.ncpu.toNat := by
    unfold KgGuard.loopBound
    rw [hncpu, asInt_of_lt nr.lt]
    rfl
  refine ⟨setPosture_posture _ _ _, ?_, ?_, (setPosture_sealed hash halloc _).verify⟩
  · simp [kgMitSetPosture]
  · intro i hi
    have hi' : i < g.hdr.ncpu.toNat := by simpa [kgMitSetPosture] using hi
    have hhigh : kgPostureFailsafe ≥ kgPostureHigh := by decide
    simp [kgMitSetPosture, hhigh, setStrategies_apply, hbound, hi']

/--
**The answer to a corruption, exactly.**  Let the verification fail for the first
time, with any content in the header and the table but `ncpu` intact, the ladder
ready and `max_posture` at the top.  The table is contained after the report exactly
when the corruption left a posture below FAILSAFE in the header.
-/
theorem corrupt_contained_iff [DecidableEq D] (hash : List UInt8 → D) (env : Env) (nr : NrCpuIds)
    (s : KgSys D) (halloc : s.guard.cpuAlloc = true) (hncpu : s.guard.hdr.ncpu = nr.val)
    (hready : s.pos.ready = true) (hmax : s.params.maxPosture = kgPostureFailsafe)
    (hfirst : s.corruptReported = false) (hverify : kgGuardVerify (okSha hash) s.guard = false) :
    Contained (okSha hash) (kgIntegWorkfn (okSha hash) mac env s).guard ↔
      s.guard.hdr.posture < kgPostureFailsafe := by
  have hwork : kgIntegWorkfn (okSha hash) mac env s
      = kgReport (okSha hash) mac env ⟨kgAlertSharedStateCorrupt, kgLevelCritical, 0, 0⟩
          { s with corruptReported := true } := by
    unfold kgIntegWorkfn
    rw [if_neg (by simp [hverify]), if_pos (by simp [hfirst])]
  rw [hwork, kgReport_corrupt]
  set t : KgSys D := { s with
    corruptReported := true
    comms := (kgCommsNotify mac env
      ⟨kgAlertSharedStateCorrupt, kgLevelCritical, 0, 0⟩ s.comms).2 } with ht
  have heff := kgPostureRaise_effect (okSha hash) mac env kgPostureFailsafe
    kgAlertSharedStateCorrupt t hready
  have hcap : capped t kgPostureFailsafe = kgPostureFailsafe := by
    show min kgPostureFailsafe (min s.params.maxPosture kgPostureFailsafe) = _
    rw [hmax]
    rfl
  have hguard := heff.guard
  rw [hcap] at hguard
  show Contained (okSha hash)
    (kgPostureRaise (okSha hash) mac env kgPostureFailsafe kgAlertSharedStateCorrupt t).guard ↔ _
  by_cases hup : kgPostureFailsafe > kgPosture t
  · rw [hguard, if_pos hup]
    exact ⟨fun _ => hup, fun _ => setPosture_failsafe_contained hash halloc hncpu⟩
  · rw [hguard, if_neg hup]
    refine ⟨fun hc => ?_, fun hlt => absurd hlt hup⟩
    -- The raise did not act, so the table still fails its verification.
    exact absurd (hverify.symm.trans hc.verifies) (by simp)

/-- `freshSys` after an adversary write to the table that leaves `posture` in the header. -/
def tamperedSys (posture : UInt32) : KgSys (List UInt8) :=
  { freshSys with
    guard := { twoCpus with
      hdr := { twoCpus.hdr with posture := posture }
      cpu := weakBaseline } }

/-- A write that leaves a low posture is answered in full. -/
theorem corrupt_contained_iff_elevated :
    Contained (okSha id)
      (kgIntegWorkfn (okSha id) checksumMac envZero (tamperedSys kgPostureElevated)).guard :=
  (corrupt_contained_iff checksumMac id envZero ⟨2, by decide⟩ (tamperedSys kgPostureElevated)
    rfl rfl rfl rfl rfl (by decide)).mpr (by decide)

/-- A corruption is always answered in full, whatever it left in the table. -/
def CorruptionAlwaysContained [DecidableEq D] (hash : List UInt8 → D) : Prop :=
  ∀ (env : Env) (nr : NrCpuIds) (s : KgSys D), s.guard.cpuAlloc = true →
    s.guard.hdr.ncpu = nr.val → s.pos.ready = true → s.params.maxPosture = kgPostureFailsafe →
    s.corruptReported = false → kgGuardVerify (okSha hash) s.guard = false →
    Contained (okSha hash) (kgIntegWorkfn (okSha hash) mac env s).guard

/-- A write that also stores FAILSAFE in the posture field is not answered at all. -/
theorem stored_failsafe_defeats_response :
    ¬ CorruptionAlwaysContained (D := List UInt8) checksumMac id := by
  intro h
  have hcontained := h envZero ⟨2, by decide⟩ (tamperedSys kgPostureFailsafe)
    rfl rfl rfl rfl rfl (by decide)
  exact absurd (hcontained.strategy 0 (by decide)) (by decide)

end KernelGuard
