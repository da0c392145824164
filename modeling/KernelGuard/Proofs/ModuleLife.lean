/-
What may be relied on while the kernel module is loaded and unloaded, in every interleaving with
its callbacks and work items.

The order of the `*_exit` in `kg_exit` is what makes it so: before a thing is freed, all that may
use it is stopped, and so is all that may queue what uses it.  `kgPlan` goes through the two
functions and checks that (`kgLife_accepted`).

One thing the order does not give.  `kg_hw_kick` tests `kg_hw_stop` and then queues the scan; the
integrity scan, the decay and the others that may raise the posture are still there when
`kg_hw_exit` cancels it, so that one of them may be between the two.  The scan is then queued
again, and `kg_cur` is gone when it runs.  Where `kg_init` fails the notifier of the gate is there
longer, and so the integrity scan may be queued that way too.
-/
import KernelGuard.Model.ModuleLife
import Mathlib.Data.Fintype.Option

namespace KernelGuard

open Lifecycle

/-- The work items whose kick has to come before they are cancelled, or not at all. -/
def kgLate : Option KgInitFailure → KgWork → Bool
  | some .misc, .integ => true
  | _, .hw => true
  | _, _ => false

def kgPlan : Plan KgCallback KgWork KgResource := .initial kgCallbacks kgWorks kgResources kgStopped

theorem kgPlan_ok : kgPlan.ok kgSystem = true := by
  decide

/-- The plan goes through to the end of the work queue. -/
def kgAccepts (failure : Option KgInitFailure) (cfg : KgConfig) : Bool :=
  (Plan.run kgSystem (kgLate failure) (kgLife cfg failure) kgPlan).any (·.dead)

/-- Whichever parts run, and wherever `kg_init` fails. -/
theorem kgLife_accepted : ∀ (failure : Option KgInitFailure) (gate integrity hw input pmu : Bool),
    kgAccepts failure ⟨gate, integrity, hw, input, pmu⟩ = true := by
  decide +kernel

/-- What is allocated is freed in the end. -/
theorem kgLife_absentBehind : ∀ (failure : Option KgInitFailure)
    (gate integrity hw input pmu : Bool) (r : KgResource),
    absentBehind (fun _ => true) (kgLife ⟨gate, integrity, hw, input, pmu⟩ failure) r = true := by
  decide +kernel

/-- In every interleaving of loading and unloading, also of a loading that fails, with the
callbacks and the work items: nothing is used before it is allocated or after it is freed, and no
work item is queued that is not initialised, unless a kick comes late.  When `kg_exit` has
returned nothing is registered, nothing runs, nothing is queued and all is freed, and it can
always return. -/
theorem kg_module_life (cfg : KgConfig) (failure : Option KgInitFailure)
    (acts : List (Move KgCallback KgWork KgResource))
    (htimely : Timely kgSystem (kgLate failure) (kgLoaded cfg failure) acts) :
    let s := Run.exec (step kgSystem) (kgLoaded cfg failure) acts
    s.crashed = false ∧
      (s.program = [] → s.threads = [] ∧ (∀ c, s.registered c = false) ∧
        (∀ w, s.pending w = false) ∧ ∀ r, s.absent r = true) ∧
      ∃ rest, (Run.exec (step kgSystem) s rest).program = [] := by
  obtain ⟨gate, integrity, hw, input, pmu⟩ := cfg
  intro s
  obtain ⟨hfine, hover⟩ := safe mem_kgResources kgPlan_ok
    (kgLife_accepted failure gate integrity hw input pmu) acts htimely
  refine ⟨hfine, fun hnil => ?_, can_finish kgSystem s⟩
  obtain ⟨hthreads, hregistered, hpending⟩ := hover hnil
  refine ⟨hthreads, hregistered, hpending, fun r => ?_⟩
  have hleft := left_over kgSystem kgStopped.contains _ acts hnil
  exact (congrFun hleft r).trans (kgLife_absentBehind failure gate integrity hw input pmu r)

/-- The integrity scan kicks the PCI scan while `kg_hw_exit` runs. -/
def kickWhileExiting (exitSteps : Nat) : List (Move KgCallback KgWork KgResource) :=
  List.replicate 43 .main ++ [.run .integ, .thread 0 (.test .hw)] ++
    List.replicate exitSteps .main ++ [.thread 0 .queue]

/-- It comes before the cancel; everything is taken down. -/
def kickInTime : List (Move KgCallback KgWork KgResource) :=
  kickWhileExiting 2 ++ .thread 0 .finish :: List.replicate 30 .main

theorem kickInTime_timely :
    Timely kgSystem (kgLate none) (kgLoaded ⟨true, true, true, true, true⟩ none) kickInTime := by
  unfold Timely
  decide +kernel

theorem kickInTime_over :
    (Run.exec (step kgSystem) (kgLoaded ⟨true, true, true, true, true⟩ none) kickInTime).program
      = [] := by
  decide +kernel

theorem kg_module_life_kick :
    let s := Run.exec (step kgSystem) (kgLoaded ⟨true, true, true, true, true⟩ none) kickInTime
    s.crashed = false ∧ ∀ r, s.absent r = true := by
  obtain ⟨hfine, hover, -⟩ := kg_module_life _ none kickInTime kickInTime_timely
  exact ⟨hfine, (hover kickInTime_over).2.2.2⟩

/-- It comes behind the cancel; the scan runs on `kg_cur` that is gone. -/
example :
    (Run.exec (step kgSystem) (kgLoaded ⟨true, true, true, true, true⟩ none)
      (kickWhileExiting 4 ++ [.run .hw, .thread 1 (.touch .pciTables)])).crashed = true := by
  decide +kernel

end KernelGuard
