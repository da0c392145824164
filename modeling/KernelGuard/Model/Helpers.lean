/-
The helper processes of the monitor (`linux/monitor/kgmon.c`): the table `g_children`, the
fork of `notify_desktop` and `run_action`, and `children_reap`, between processes that end
and process ids that are given out again.

A step is one system call, or one access to the table, of the monitor, or something that
happens outside.  A process id belongs to nobody, to a helper, which keeps it after its end
until the monitor has waited for it, or to a process of somebody else.  `fork` returns an
id that belonged to nobody.  Nothing is assumed about when a helper ends, also after a
`kill`.  Whether `fork` succeeds, and the clock, are part of the step.
-/
import KernelGuard.Model.Monitor

namespace KernelGuard

/-- How a process ended, as `waitpid` tells it. -/
inductive ExitStatus where
  | exited (status : UInt8)
  | signaled (sig : Nat)
  deriving DecidableEq

def sigkill : Nat := 9

/-- Whose a process id is. -/
inductive PidUse where
  | free
  /-- A helper that runs. -/
  | running
  /-- A helper that has ended and was not waited for. -/
  | ended (st : ExitStatus)
  | other
  deriving DecidableEq

/-- The id is that of a helper. -/
def PidUse.mine : PidUse → Bool
  | .running | .ended _ => true
  | .free | .other => false

/-- Where the monitor is. -/
inductive HelperAt where
  /-- Outside of these functions. -/
  | idle
  /-- `child_free_slot` has found a slot, and `fork` is next. -/
  | fork (slot : Fin maxChildren) (timeoutS : UInt32) (name : CStr)
  /-- `child_track` is next. -/
  | track (slot : Fin maxChildren) (pid : Nat) (timeoutS : UInt32) (name : CStr)
  /-- In `children_reap`, in front of the `waitpid` for slot `i`. -/
  | wait (i : Nat)
  /-- The helper of the slot runs; the clock is next. -/
  | late (i : Fin maxChildren)
  | killGroup (i : Fin maxChildren)
  | kill (i : Fin maxChildren)
  /-- The new deadline is next. -/
  | rearm (i : Fin maxChildren)

structure HelperState where
  children : Children
  use : Nat → PidUse
  at_ : HelperAt

inductive HelperMove where
  /-- A helper ends. -/
  | exit (pid : Nat) (st : ExitStatus)
  /-- A process of somebody else begins, and ends. -/
  | begins (pid : Nat)
  | ends (pid : Nat)
  /-- `notify_desktop` or `run_action` is called. -/
  | spawn (timeoutS : UInt32) (name : CStr)
  /-- `fork` returns in the parent; `none` is a failure. -/
  | forked (pid : Option Nat)
  /-- `children_reap` is called. -/
  | reap
  /-- The next step of the monitor; a clock it reads shows `now`. -/
  | step (now : UInt64)

inductive HelperEvent where
  /-- "too many helper processes running", or "too many actions running". -/
  | tooMany (name : CStr)
  | forkFailed
  | started (pid : Nat) (name : CStr)
  | reaped (pid : Nat) (st : ExitStatus)
  /-- A line about a helper that failed. -/
  | failed (name : CStr) (st : ExitStatus)
  | timedOut (name : CStr)
  /-- `kill` with this id or its group, and whose the id is at that moment. -/
  | kill (pid : Nat) (hit : PidUse)
  deriving DecidableEq

/-- `children_reap` has a line for a bad status, and for a signal that is not its own. -/
def ExitStatus.reported : ExitStatus → Bool
  | .exited status => status != 0
  | .signaled sig => sig != sigkill

namespace HelperState

def setChild (s : HelperState) (i : Fin maxChildren) (c : Option Child) : HelperState :=
  { s with children := Function.update s.children i c }

def setUse (s : HelperState) (pid : Nat) (u : PidUse) : HelperState :=
  { s with use := Function.update s.use pid u }

/-- `child_track`. -/
def childTrack (s : HelperState) (slot : Fin maxChildren) (pid : Nat) (timeoutS : UInt32)
    (name : CStr) (now : UInt64) : HelperState :=
  s.setChild slot (some ⟨pid, now + timeoutS.toUInt64, name.take (kgpNameLen - 1)⟩)

/-- The `waitpid` of `children_reap` for the helper `c` of slot `i`, and what follows at once. -/
def waitFor (s : HelperState) (i : Fin maxChildren) (c : Child) : List HelperEvent × HelperState :=
  match s.use c.pid with
  | .running => ([], { s with at_ := .late i })
  | .ended st =>
      (.reaped c.pid st :: (if st.reported then [.failed c.name st] else []),
        { (s.setChild i none).setUse c.pid .free with at_ := .wait (i + 1) })
  -- `ECHILD`
  | .free | .other => ([], { s.setChild i none with at_ := .wait (i + 1) })

/-- A step of `children_reap` behind the `waitpid`, for the helper `c` of slot `i`. -/
def overdue (s : HelperState) (now : UInt64) (c : Child) :
    HelperAt → List HelperEvent × HelperState
  | .late i =>
      if now ≥ c.deadline then ([.timedOut c.name], { s with at_ := .killGroup i })
      else ([], { s with at_ := .wait (i + 1) })
  | .killGroup i => ([.kill c.pid (s.use c.pid)], { s with at_ := .kill i })
  | .kill i => ([.kill c.pid (s.use c.pid)], { s with at_ := .rearm i })
  | .rearm i =>
      ([], { s.setChild i (some { c with deadline := now + 5 }) with at_ := .wait (i + 1) })
  | _ => ([], s)

/-- The next step of the monitor. -/
def next (s : HelperState) (now : UInt64) : List HelperEvent × HelperState :=
  match s.at_ with
  | .idle | .fork _ _ _ => ([], s)
  | .track slot pid timeoutS name =>
      ([.started pid name], { s.childTrack slot pid timeoutS name now with at_ := .idle })
  | .wait i =>
      if h : i < maxChildren then
        match s.children ⟨i, h⟩ with
        | none => ([], { s with at_ := .wait (i + 1) })
        | some c => s.waitFor ⟨i, h⟩ c
      else ([], { s with at_ := .idle })
  | .late i | .killGroup i | .kill i | .rearm i =>
      match s.children i with
      | none => ([], s)
      | some c => s.overdue now c s.at_

end HelperState

def helperStep (s : HelperState) : HelperMove → List HelperEvent × HelperState
  | .exit pid st => ([], if s.use pid = .running then s.setUse pid (.ended st) else s)
  | .begins pid => ([], if s.use pid = .free then s.setUse pid .other else s)
  | .ends pid => ([], if s.use pid = .other then s.setUse pid .free else s)
  | .spawn timeoutS name =>
      match s.at_ with
      | .idle =>
          match childFreeSlot s.children with
          | none => ([.tooMany name], s)
          | some slot => ([], { s with at_ := .fork slot timeoutS name })
      | _ => ([], s)
  | .forked pid =>
      match s.at_, pid with
      | .fork _ _ _, none => ([.forkFailed], { s with at_ := .idle })
      | .fork slot timeoutS name, some pid =>
          if s.use pid = .free then
            ([], { s.setUse pid .running with at_ := .track slot pid timeoutS name })
          else ([], s)
      | _, _ => ([], s)
  | .reap =>
      match s.at_ with
      | .idle => ([], { s with at_ := .wait 0 })
      | _ => ([], s)
  | .step now => s.next now

/-- The monitor starts without helpers; the other ids are as they are. -/
def HelperState.start (others : Nat → Bool) : HelperState where
  children := fun _ => none
  use := fun pid => if others pid then .other else .free
  at_ := .idle

end KernelGuard
