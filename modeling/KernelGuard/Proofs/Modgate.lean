/-
The gate under `auto_enforce`.

The gate refuses nothing until the posture is HIGH.  What makes it HIGH is the report of
the first denied module itself: the alert is dispatched, the dispatch raises the posture,
and from then on `kg_enforcing` holds, because no report and no decay lowers a posture
that is HIGH.  So the module whose report closed the gate is the last denied one that
gets in.

A run is a list of steps, each of them one call: the notifier calls are serialised, and
the reports, the decay work and the operator's requests of the rest of the module come
in between in any order.
-/
import KernelGuard.Model.Modgate
import KernelGuard.Proofs.Response

namespace KernelGuard

open Run

variable {D : Type} (sha : List UInt8 → Option D) (mac : List UInt8 → KgMac)

/-! ### What no step of the module changes

The theorem is about a configuration, and the configuration is read again at every
step.  Nothing in the module writes to it, which is shown once for each function and
used everywhere.
-/

/-- The parameters, and whether the ladder is ready, are as before. -/
structure SameSettings (s s' : KgSys D) : Prop where
  params : s'.params = s.params
  ready : s'.pos.ready = s.pos.ready

theorem SameSettings.trans {s t u : KgSys D} (h : SameSettings s t) (h' : SameSettings t u) :
    SameSettings s u :=
  ⟨h'.params.trans h.params, h'.ready.trans h.ready⟩

theorem kgPostureRaise_settings (env : Env) (target trigger : UInt32) (s : KgSys D) :
    SameSettings s (kgPostureRaise sha mac env target trigger s) := by
  by_cases hready : s.pos.ready = true
  · have heff := kgPostureRaise_effect sha mac env target trigger s hready
    exact ⟨heff.params, heff.ready.trans hready.symm⟩
  · unfold kgPostureRaise kgPostureRaiseWith
    rw [if_pos (by simpa using hready)]
    exact ⟨rfl, rfl⟩

theorem kgReport_settings (env : Env) (a : Alert) (s : KgSys D) :
    SameSettings s (kgReport sha mac env a s) := by
  rw [kgReport_eq]
  unfold kgReportWith
  rcases kgDispatchWith_cases sha (kgReport sha mac) env a
      { s with comms := (kgCommsNotify mac env a s.comms).2 } with h | ⟨t, target, hsame, h⟩
  · rw [h]
    exact ⟨rfl, rfl⟩
  · rw [h]
    have hbefore : SameSettings s t := ⟨hsame.params, congrArg KgPos.ready hsame.pos⟩
    exact hbefore.trans (kgPostureRaise_settings sha mac env target a.type t)

theorem kgPosDecayFn_settings (env : Env) (s : KgSys D) :
    SameSettings s (kgPosDecayFn sha mac env s) := by
  unfold kgPosDecayFn
  simp only
  split_ifs
  · obtain ⟨c, hc⟩ := kgPosAnnounce_comms sha mac env kgPostureElevated kgPostureNormal
      kgPostureWhyDecay s.pos.trigger (kgPosApplyLocked sha env kgPostureNormal
        { s with pos := { s.pos with decayPending := false } })
    rw [hc]
    exact ⟨rfl, rfl⟩
  · exact ⟨rfl, rfl⟩
  · exact ⟨rfl, rfl⟩

theorem setApplied_settings (env : Env) (target : UInt32) (s : KgSys D) :
    SameSettings s (setApplied sha env target s) := by
  refine ⟨?_, (setApplied_effect sha env target s).2.2.2⟩
  unfold setApplied
  obtain ⟨b, hb⟩ := kgPosArmDecayLocked_pending
    { kgPosApplyLocked sha env target s with
      pos := { (kgPosApplyLocked sha env target s).pos with triggerMono := env.mono } }
  simp only
  rw [hb]
  rfl

theorem kgPostureSet_settings (env : Env) (target : UInt32) (s : KgSys D) :
    SameSettings s (kgPostureSet sha mac env target s).2 := by
  by_cases hmoves : setMoves target s = true
  · rw [kgPostureSet_of_moves sha mac hmoves]
    dsimp only
    unfold kgPosAnnounce
    refine SameSettings.trans ?_ (kgReport_settings sha mac env _ _)
    by_cases hup : target > kgPosture s
    · obtain ⟨c, hc⟩ := kgPosAfterUp_comms sha mac env target (setApplied sha env target s)
      rw [if_pos hup, hc]
      exact (setApplied_settings sha env target s).trans ⟨rfl, rfl⟩
    · rw [if_neg hup]
      exact setApplied_settings sha env target s
  · rw [(kgPostureSet_of_not_moves sha mac (by simpa using hmoves)).1]
    exact ⟨rfl, rfl⟩

theorem sysStep_settings (s : KgSys D) (op : SysOp) : SameSettings s (sysStep sha mac s op) := by
  cases op with
  | report env a => exact kgReport_settings sha mac env a s
  | decay env => exact kgPosDecayFn_settings sha mac env s
  | set env target => exact kgPostureSet_settings sha mac env target s

/-! ### A high posture stays high

The decay leaves a posture of HIGH alone, and a report can only raise.  The operator
is the one who can lower it; what follows is for an operator who does not.
-/

/-- The operator does not ask for a rung below the present one. -/
def NoStepDown (s : KgSys D) : SysOp → Prop
  | .set _ target => kgPosture s ≤ target
  | _ => True

theorem sysStep_keeps_high {s : KgSys D} (hhigh : kgPosture s ≥ kgPostureHigh) {op : SysOp}
    (hop : NoStepDown s op) : kgPosture (sysStep sha mac s op) ≥ kgPostureHigh := by
  cases op with
  | report env a => exact UInt32.le_trans hhigh (kgReport_mono sha mac env a s)
  | decay env => exact UInt32.le_trans hhigh (decay_keeps_high sha mac hhigh env)
  | set env target =>
      rcases kgPostureSet_cases sha mac env target s with ⟨-, -, hnew, -⟩ | ⟨-, hsame, -⟩
      · show kgPosture (kgPostureSet sha mac env target s).2 ≥ _
        rw [hnew]
        exact UInt32.le_trans hhigh hop
      · show kgPosture (kgPostureSet sha mac env target s).2 ≥ _
        rw [hsame]
        exact hhigh

/-- The report of a denied module that is let in makes the posture HIGH at least. -/
theorem kgReport_vulnDriver (env : Env) (p1 p2 : UInt64) {s : KgSys D}
    (hready : s.pos.ready = true) (hmax : s.params.maxPosture ≥ kgPostureHigh) :
    kgPosture (kgReport sha mac env ⟨kgAlertVulnDriver, kgLevelCritical, p1, p2⟩ s)
      ≥ kgPostureHigh := by
  set t : KgSys D := { s with
    comms := (kgCommsNotify mac env ⟨kgAlertVulnDriver, kgLevelCritical, p1, p2⟩ s.comms).2 }
    with ht
  have hraise : kgReport sha mac env ⟨kgAlertVulnDriver, kgLevelCritical, p1, p2⟩ s
      = kgPostureRaise sha mac env kgPostureHigh kgAlertVulnDriver t := by
    rw [kgReport_eq]
    rfl
  have hcap : capped t kgPostureHigh = kgPostureHigh := by
    have hceiling : kgPostureHigh ≤ min t.params.maxPosture kgPostureFailsafe := by
      rw [Std.le_min_iff]
      exact ⟨hmax, by decide⟩
    show (if kgPostureHigh ≤ _ then _ else _) = _
    rw [if_pos hceiling]
  rw [hraise, (kgPostureRaise_effect sha mac env kgPostureHigh kgAlertVulnDriver t hready).posture,
    hcap]
  by_cases hup : kgPostureHigh > kgPosture t
  · rw [if_pos hup]
    exact UInt32.le_refl _
  · rw [if_neg hup]
    exact UInt32.not_lt.mp hup

/-! ### What the notifier does -/

/-- A notifier call changes the rest of the module by at most one report. -/
structure Notified (env : Env) (s s' : GateSys D) : Prop where
  params : s'.params = s.params
  sys : s'.sys = s.sys ∨ ∃ a, s'.sys = kgReport sha mac env a s.sys

theorem kgGateNotify_notified (this : Nat) (env : Env) (coming : Bool) (m : KModule)
    (s : GateSys D) : Notified sha mac env s (kgGateNotify sha mac this env coming m s).2 := by
  unfold kgGateNotify
  simp only
  split_ifs
  any_goals exact ⟨rfl, Or.inl rfl⟩
  all_goals
    refine ⟨rfl, Or.inr ?_⟩
    dsimp only
    exact ⟨_, rfl⟩

theorem Notified.settings {env : Env} {s s' : GateSys D} (h : Notified sha mac env s s') :
    SameSettings s.sys s'.sys := by
  rcases h.sys with hsame | ⟨a, hreport⟩
  · rw [hsame]
    exact ⟨rfl, rfl⟩
  · rw [hreport]
    exact kgReport_settings sha mac env a s.sys

theorem Notified.mono {env : Env} {s s' : GateSys D} (h : Notified sha mac env s s') :
    kgPosture s.sys ≤ kgPosture s'.sys := by
  rcases h.sys with hsame | ⟨a, hreport⟩
  · rw [hsame]
    exact UInt32.le_refl _
  · rw [hreport]
    exact kgReport_mono sha mac env a s.sys

/-- A denied module is refused while the gate enforces. -/
theorem kgGateNotify_refused {this : Nat} {env : Env} {m : KModule} {s : GateSys D}
    (hother : m.addr ≠ this) (hdenied : kgGateDenied s.gate m = true)
    (henf : kgEnforcing s.params s.sys = true) :
    (kgGateNotify sha mac this env true m s).1 = .eperm := by
  unfold kgGateNotify
  rw [if_neg (by simp [hother])]
  simp [hdenied, henf]

/-- A denied module that comes while the gate does not enforce leaves a high posture behind. -/
theorem kgGateNotify_admitted {this : Nat} {env : Env} {m : KModule} {s : GateSys D}
    (hother : m.addr ≠ this) (hdenied : kgGateDenied s.gate m = true)
    (henf : kgEnforcing s.params s.sys = false) (hready : s.sys.pos.ready = true)
    (hmax : s.sys.params.maxPosture ≥ kgPostureHigh) :
    kgPosture (kgGateNotify sha mac this env true m s).2.sys ≥ kgPostureHigh := by
  unfold kgGateNotify
  rw [if_neg (by simp [hother])]
  simp only [hdenied, henf, Bool.not_true, Bool.false_and, Bool.false_eq_true,
    if_false, if_true]
  exact kgReport_vulnDriver sha mac env _ _ hready hmax

/-! ### Runs

The invariant is a disjunction: either no denied module has been let in, or the
posture is HIGH.  A step that lets one in ends the first and begins the second, and
the second lasts.
-/

/-- What happens around the gate: modules that are COMING, and the rest of kernelguard. -/
inductive GateOp where
  | coming (env : Env) (m : KModule)
  | sys (op : SysOp)

def gateStep (this : Nat) (s : GateSys D) : GateOp → GateSys D
  | .coming env m => (kgGateNotify sha mac this env true m s).2
  | .sys op => { s with sys := sysStep sha mac s.sys op }

/-- What the gate answers for a module, other than kernelguard itself, that is on the deny list. -/
def deniedAnswer (this : Nat) (s : GateSys D) : GateOp → List GateAnswer
  | .coming env m =>
      if m.addr ≠ this ∧ kgGateDenied s.gate m = true then
        [(kgGateNotify sha mac this env true m s).1]
      else []
  | .sys _ => []

def OperatorKeeps (s : GateSys D) : GateOp → Prop
  | .coming _ _ => True
  | .sys op => NoStepDown s.sys op

/-- The configuration in which the gate closes by itself. -/
structure AutoEnforcing (s : GateSys D) : Prop where
  auto : s.params.autoEnforce = true
  manual : s.params.enforce = false
  ready : s.sys.pos.ready = true
  ceiling : s.sys.params.maxPosture ≥ kgPostureHigh

theorem AutoEnforcing.of_settings {s s' : GateSys D} (h : AutoEnforcing s)
    (hparams : s'.params = s.params) (hsys : SameSettings s.sys s'.sys) : AutoEnforcing s' := by
  refine ⟨?_, ?_, hsys.ready.trans h.ready, ?_⟩
  · rw [hparams]; exact h.auto
  · rw [hparams]; exact h.manual
  · rw [hsys.params]; exact h.ceiling

theorem AutoEnforcing.enforcing {s : GateSys D} (h : AutoEnforcing s) :
    kgEnforcing s.params s.sys = decide (kgPosture s.sys ≥ kgPostureHigh) := by
  unfold kgEnforcing
  rw [h.auto, h.manual]
  rfl

theorem gateStep_autoEnforcing (this : Nat) {s : GateSys D} (h : AutoEnforcing s) (op : GateOp) :
    AutoEnforcing (gateStep sha mac this s op) := by
  cases op with
  | coming env m =>
      have hn := kgGateNotify_notified sha mac this env true m s
      exact h.of_settings hn.params hn.settings
  | sys op => exact h.of_settings rfl (sysStep_settings sha mac s.sys op)

theorem gateStep_keeps_high (this : Nat) {s : GateSys D} {op : GateOp}
    (hhigh : kgPosture s.sys ≥ kgPostureHigh) (hop : OperatorKeeps s op) :
    kgPosture (gateStep sha mac this s op).sys ≥ kgPostureHigh := by
  cases op with
  | coming env m =>
      exact UInt32.le_trans hhigh (kgGateNotify_notified sha mac this env true m s).mono
  | sys op => exact sysStep_keeps_high sha mac hhigh hop

/-- An answer for a denied module is a refusal, or the last thing before the posture is high. -/
theorem gateStep_answers (this : Nat) {s : GateSys D} (h : AutoEnforcing s) (op : GateOp) :
    (kgPosture s.sys ≥ kgPostureHigh → ∀ a ∈ deniedAnswer sha mac this s op, a = .eperm) ∧
      (deniedAnswer sha mac this s op ≠ [] →
        kgPosture (gateStep sha mac this s op).sys ≥ kgPostureHigh) := by
  cases op with
  | sys op => exact ⟨fun _ a ha => absurd ha (by simp [deniedAnswer]), fun hne => absurd rfl hne⟩
  | coming env m =>
      by_cases hjudged : m.addr ≠ this ∧ kgGateDenied s.gate m = true
      · have hanswer : deniedAnswer sha mac this s (.coming env m)
            = [(kgGateNotify sha mac this env true m s).1] := if_pos hjudged
        rw [hanswer]
        refine ⟨fun hhigh a ha => ?_, fun _ => ?_⟩
        · rw [List.mem_singleton.mp ha]
          refine kgGateNotify_refused sha mac hjudged.1 hjudged.2 ?_
          rw [h.enforcing]
          simpa using hhigh
        · by_cases hhigh : kgPosture s.sys ≥ kgPostureHigh
          · exact UInt32.le_trans hhigh (kgGateNotify_notified sha mac this env true m s).mono
          · refine kgGateNotify_admitted sha mac hjudged.1 hjudged.2 ?_ h.ready h.ceiling
            rw [h.enforcing]
            simpa using hhigh
      · have hnone : deniedAnswer sha mac this s (.coming env m) = [] := if_neg hjudged
        rw [hnone]
        exact ⟨fun _ a ha => absurd ha (by simp), fun hne => absurd rfl hne⟩

/-- Once the posture is high, every denied module is refused. -/
theorem denied_refused_of_high (this : Nat) {s : GateSys D} (h : AutoEnforcing s)
    (hhigh : kgPosture s.sys ≥ kgPostureHigh) (ops : List GateOp)
    (hops : Along (gateStep sha mac this) s ops OperatorKeeps) :
    ∀ a ∈ outputs (gateStep sha mac this) (deniedAnswer sha mac this) s ops, a = .eperm := by
  induction ops generalizing s with
  | nil => simp [outputs]
  | cons op rest ih =>
      rw [along_cons] at hops
      intro a ha
      rw [outputs, List.mem_append] at ha
      rcases ha with ha | ha
      · exact (gateStep_answers sha mac this h op).1 hhigh a ha
      · exact ih (gateStep_autoEnforcing sha mac this h op)
          (gateStep_keeps_high sha mac this hhigh hops.1) hops.2 a ha

theorem deniedAnswer_length (this : Nat) (s : GateSys D) (op : GateOp) :
    (deniedAnswer sha mac this s op).length ≤ 1 := by
  cases op with
  | sys op => exact Nat.zero_le _
  | coming env m =>
      simp only [deniedAnswer]
      split_ifs
      · exact Nat.le_refl _
      · exact Nat.zero_le _

/--
**The gate closes behind the first denied driver.**  With `auto_enforce` on and
`enforce` off, `max_posture` at HIGH or above and the ladder ready, take any run of
COMING notifications, reports, decay firings and operator requests in which the operator
does not step down.  Of the modules on the deny list at most one is admitted, and every
one after the first gets `-EPERM`.
-/
theorem auto_enforce_closes (this : Nat) (s : GateSys D) (h : AutoEnforcing s)
    (ops : List GateOp) (hops : Along (gateStep sha mac this) s ops OperatorKeeps) :
    let answers := outputs (gateStep sha mac this) (deniedAnswer sha mac this) s ops
    answers.count .done ≤ 1 ∧ ∀ a ∈ answers.tail, a = .eperm := by
  intro answers
  have htail : ∀ a ∈ answers.tail, a = .eperm := by
    induction ops generalizing s with
    | nil => simp [answers, outputs]
    | cons op rest ih =>
        rw [along_cons] at hops
        have hauto := gateStep_autoEnforcing sha mac this h op
        have hlen := deniedAnswer_length sha mac this s op
        -- The first answer, if it is given here, leaves a high posture to the rest.
        by_cases hnone : deniedAnswer sha mac this s op = []
        · have hrest := ih (gateStep sha mac this s op) hauto hops.2
          simpa [answers, outputs, hnone] using hrest
        · obtain ⟨x, hx⟩ : ∃ x, deniedAnswer sha mac this s op = [x] :=
            List.length_eq_one_iff.mp (by
              have := List.length_pos_iff.mpr hnone
              omega)
          have hhigh := (gateStep_answers sha mac this h op).2 hnone
          have hrest := denied_refused_of_high sha mac this hauto hhigh rest hops.2
          simpa [answers, outputs, hx] using hrest
  refine ⟨?_, htail⟩
  clear_value answers
  cases answers with
  | nil => exact Nat.zero_le _
  | cons x rest =>
      have hzero : rest.count .done = 0 := by
        rw [List.count_eq_zero]
        intro hmem
        exact absurd (htail _ hmem) (by decide)
      rw [List.count_cons, hzero]
      split_ifs
      · exact Nat.le_refl _
      · exact Nat.zero_le _

/-- A machine with `auto_enforce` and one module on the deny list, which is not kernelguard. -/
def autoGate : GateSys (List UInt8) where
  sys := freshSys
  gate := kgGateParse [98] true KgGate.zero
  params := ⟨false, true⟩

def deniedModule : KModule := ⟨0xb000, ⟨[98], by decide, by decide⟩, none, 4096⟩

/-- The first load of it passes, and the second one, ten quiet minutes later, does not. -/
theorem auto_enforce_closes_twice :
    let ops : List GateOp :=
      [.coming envZero deniedModule, .sys (.decay envTenMinutes), .coming envTenMinutes deniedModule]
    let answers := outputs (gateStep (okSha id) checksumMac 0xa000)
      (deniedAnswer (okSha id) checksumMac 0xa000) autoGate ops
    answers = [.done, .eperm] ∧ answers.count .done ≤ 1 ∧ ∀ a ∈ answers.tail, a = .eperm := by
  intro ops answers
  refine ⟨by decide +kernel, auto_enforce_closes (okSha id) checksumMac 0xa000 autoGate ?_ ops ?_⟩
  · exact ⟨rfl, rfl, rfl, by decide⟩
  · refine .cons trivial (.cons trivial (.cons trivial (.nil _ _ _)))

end KernelGuard
