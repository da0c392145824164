/-
No wake-up is lost.

Three counters are in play, moved by different parties: `write_index` by the kernel's
publications, the monitor's cursor by `drain`, and `*seen` by `kg_comms_poll`, which never
learns what `drain` has read.  What saves the day is the order: `*seen` is brought up to
date only by a check whose answer sends the monitor into `drain`, so at every check the
cursor stands between `*seen` and `write_index`.  If the check finds the outer two equal,
the one between them is equal, too.

Positions are compared, not the 32-bit numbers: two numbers that are equal stand for one
position only while fewer than 2^32 notifications come between two checks.
-/
import KernelGuard.Model.Poll
import KernelGuard.Proofs.Monitor
import KernelGuard.Proofs.Drain

namespace KernelGuard

open Run Ring

variable (mac : List UInt8 → KgMac)

namespace PollSys

/-- The cursor stands between what `*seen` shows and what is published. -/
def Between (s : PollSys) : Prop :=
  ∃ i, s.monitor.reader.cursor = UInt32.ofNat i ∧ s.compared ≤ i ∧ i ≤ s.published

/-- What is known of the cursor, by where the monitor is. -/
def CursorOK (s : PollSys) : Prop :=
  match s.pc with
  | .connOpen => True
  | .connect => True
  | .drain => True
  | .loop => s.monitor.reader.stop = true ∨ Between s
  | .poll => Between s
  | .exited => True

structure Inv (s : PollSys) : Prop where
  channel : ChannelOK s.comms
  writeIndex : s.comms.ring.writeIndex = UInt32.ofNat s.published
  seen : s.pc ≠ .connOpen → s.seen = UInt32.ofNat s.compared
  compared : s.compared ≤ s.published
  cursor : CursorOK s

/-- A publication moves `write_index` further ahead, and nothing else. -/
theorem Inv.grow {s : PollSys} (h : Inv s) {c : KgComms} {n : Nat} (hchannel : ChannelOK c)
    (hindex : c.ring.writeIndex = UInt32.ofNat n) (hn : s.published ≤ n) :
    Inv { s with comms := c, published := n } := by
  refine ⟨hchannel, hindex, h.seen, Nat.le_trans h.compared hn, ?_⟩
  have hbetween : Between s → Between { s with comms := c, published := n } := by
    intro hb
    obtain ⟨i, hi, hlow, hhigh⟩ := hb
    exact ⟨i, hi, hlow, Nat.le_trans hhigh hn⟩
  have hcursor := h.cursor
  unfold CursorOK at hcursor ⊢
  cases hpc : s.pc with
  | connOpen | connect | drain | exited => trivial
  | loop =>
      rw [hpc] at hcursor
      exact hcursor.imp id hbetween
  | poll =>
      rw [hpc] at hcursor
      exact hbetween hcursor

theorem Inv.notify {s : PollSys} (h : Inv s) (env : Env) (a : Alert) : Inv (s.notify mac env a) := by
  have hchannel := kgCommsNotify_ok mac env a s.comms h.channel
  unfold PollSys.notify
  obtain ⟨-, ⟨hret, hring⟩ | ⟨hret, hring⟩⟩ := kgCommsNotify_cases mac env a s.comms
  · simp only [hret, if_true]
    refine h.grow hchannel ?_ (Nat.le_succ _)
    rw [hring]
    show s.comms.ring.driverNonce + 1 = _
    rw [h.channel.nonce, h.writeIndex, serial_succ]
  · simp only [hret, if_false]
    refine h.grow hchannel ?_ (Nat.le_refl _)
    rw [hring]
    exact h.writeIndex

/-- `drain` ends at the `write_index` it has loaded, unless it is stopped. -/
theorem drain_cursor (host : Host) (ring : KgSharedRegion) (m : Monitor) :
    (m.drain mac host ring).1.reader.stop = true ∨
      (m.drain mac host ring).1.reader.cursor = ring.writeIndex := by
  have hdone := Monitor.drainLoop_done mac host ring ring.writeIndex _ 1
    (Monitor.handleAll host 0 (m.reader.lapCheck ring.writeIndex).2
      { m with reader := (m.reader.lapCheck ring.writeIndex).1 }).1
    (by rw [Monitor.handleAll_reader])
  unfold Reader.more at hdone
  rw [Bool.and_eq_false_iff] at hdone
  rcases hdone with hcursor | hstop
  · right
    exact of_not_not (of_decide_eq_false hcursor)
  · left
    rwa [Bool.not_eq_false'] at hstop

/-- A check finds nothing new exactly when `write_index` is what `*seen` shows. -/
theorem Inv.poll_cases {s : PollSys} (h : Inv s) :
    (s.comms.ring.writeIndex ≠ s.seen ∧
        kgCommsPoll s.comms s.seen = (.readable, s.comms.ring.writeIndex)) ∨
      (s.comms.ring.writeIndex = s.seen ∧ kgCommsPoll s.comms s.seen = (.nothing, s.seen)) := by
  unfold kgCommsPoll
  rw [if_neg (by simp [h.channel.alive])]
  by_cases hnew : s.comms.ring.writeIndex ≠ s.seen
  · exact Or.inl ⟨hnew, if_pos hnew⟩
  · exact Or.inr ⟨of_not_not hnew, if_neg hnew⟩

/-- If so, nothing has been published since the last check. -/
theorem Inv.nothing_new {s : PollSys} (h : Inv s) (hpc : s.pc = .poll)
    (hnear : s.published - s.compared < 2 ^ 32) (hsame : s.comms.ring.writeIndex = s.seen) :
    s.compared = s.published := by
  rw [h.writeIndex, h.seen (by simp [hpc])] at hsame
  rcases Nat.lt_or_ge s.compared s.published with hlt | hge
  · exact absurd hsame (serial_ne hlt hnear)
  · exact Nat.le_antisymm h.compared hge

/-- Then the cursor is at the end. -/
theorem Inv.cursor_at_end {s : PollSys} (h : Inv s) (hpc : s.pc = .poll)
    (hsame : s.compared = s.published) :
    s.monitor.reader.cursor = UInt32.ofNat s.published := by
  have hcursor := h.cursor
  unfold CursorOK at hcursor
  rw [hpc] at hcursor
  obtain ⟨i, hi, hlow, hhigh⟩ := hcursor
  rw [hi, show i = s.published by omega]

/-- **One step of the monitor.** -/
theorem Inv.run {s : PollSys} (h : Inv s) (host : Host)
    (hnear : s.pc = .poll → s.published - s.compared < 2 ^ 32) : Inv (s.run mac host) := by
  have hcursor := h.cursor
  unfold CursorOK at hcursor
  unfold PollSys.run
  cases hpc : s.pc with
  | connOpen =>
      refine ⟨h.channel, h.writeIndex, ?_, Nat.le_refl _, trivial⟩
      intro _
      show kgCommsOpen s.comms = _
      unfold kgCommsOpen
      rw [if_pos h.channel.alive]
      exact h.writeIndex
  | connect =>
      exact ⟨h.channel, h.writeIndex, fun _ => h.seen (by simp [hpc]), h.compared, trivial⟩
  | drain =>
      refine ⟨h.channel, h.writeIndex, fun _ => h.seen (by simp [hpc]), h.compared, ?_⟩
      rcases drain_cursor mac host s.comms.ring s.monitor with hstop | hend
      · exact Or.inl hstop
      · exact Or.inr ⟨s.published, hend.trans h.writeIndex, h.compared, Nat.le_refl _⟩
  | loop =>
      rw [hpc] at hcursor
      by_cases hleave : (s.monitor.reader.stop || s.monitor.reader.once) = true
      · simp only [if_pos hleave]
        exact ⟨h.channel, h.writeIndex, fun _ => h.seen (by simp [hpc]), h.compared, trivial⟩
      · simp only [if_neg hleave]
        refine ⟨h.channel, h.writeIndex, fun _ => h.seen (by simp [hpc]), h.compared, ?_⟩
        refine hcursor.resolve_left ?_
        intro hstop
        exact hleave (by rw [hstop, Bool.true_or])
  | poll =>
      rcases h.poll_cases with ⟨-, hpoll⟩ | ⟨hsame, hpoll⟩
      · rw [hpoll]
        exact ⟨h.channel, h.writeIndex, fun _ => h.writeIndex, Nat.le_refl _, trivial⟩
      · rw [hpoll]
        have heq := h.nothing_new hpc (hnear hpc) hsame
        refine ⟨h.channel, h.writeIndex, fun _ => ?_, Nat.le_refl _, ?_⟩
        · rw [← hsame]
          exact h.writeIndex
        · exact ⟨s.published, h.cursor_at_end hpc heq, Nat.le_refl _, Nat.le_refl _⟩
  | exited =>
      simp only
      exact h

/-- Fewer than 2^32 notifications are published between two checks. -/
def PolledInTime (s : PollSys) : PollOp → Prop
  | .run _ => s.pc = .poll → s.published - s.compared < 2 ^ 32
  | .notify _ _ => True
  | .timeout => True
  | .signal => True

instance : ∀ (s : PollSys) (op : PollOp), Decidable (PolledInTime s op)
  | s, .run _ =>
      inferInstanceAs (Decidable (s.pc = .poll → s.published - s.compared < 2 ^ 32))
  | _, .notify _ _ => isTrue trivial
  | _, .timeout => isTrue trivial
  | _, .signal => isTrue trivial

theorem Inv.step {s : PollSys} (h : Inv s) (op : PollOp) (hop : PolledInTime s op) :
    Inv (s.step mac op) := by
  cases op with
  | notify env a => exact h.notify mac env a
  | run host => exact h.run mac host hop
  | timeout =>
      refine ⟨h.channel, h.writeIndex, ?_, h.compared, ?_⟩
      · intro hne
        refine h.seen ?_
        intro hpc
        refine hne ?_
        show (if s.pc = .poll then LoopPc.drain else s.pc) = .connOpen
        rw [hpc]
        rfl
      · show CursorOK { s with pc := if s.pc = .poll then .drain else s.pc }
        by_cases hpc : s.pc = .poll
        · rw [if_pos hpc]
          trivial
        · rw [if_neg hpc]
          exact h.cursor
  | signal =>
      refine ⟨h.channel, h.writeIndex, h.seen, h.compared, ?_⟩
      have hcursor := h.cursor
      unfold CursorOK at hcursor
      show CursorOK { s with monitor := _ }
      unfold CursorOK
      cases hpc : s.pc with
      | connOpen | connect | drain | exited => trivial
      | loop => exact Or.inl rfl
      | poll =>
          rw [hpc] at hcursor
          exact hcursor

theorem inv_boot (now : UInt64) (monitor : Monitor) : Inv (boot now monitor) :=
  ⟨⟨rfl, rfl⟩, rfl, fun hne => absurd rfl hne, Nat.le_refl _, trivial⟩

/--
**No lost wake-up.**  However publications, checks, drains, timeouts and signals come
together: whenever `kg_comms_poll` returns 0, the monitor has read up to `write_index`.
-/
theorem no_lost_wakeup (now : UInt64) (monitor : Monitor) (ops : List PollOp)
    (htime : Along (step mac) (boot now monitor) ops PolledInTime) (pre post : List PollOp)
    (host : Host) (hops : ops = pre ++ .run host :: post) :
    let s := exec (step mac) (boot now monitor) pre
    s.pc = .poll → (kgCommsPoll s.comms s.seen).1 = .nothing →
      s.monitor.reader.cursor = s.comms.ring.writeIndex := by
  intro s hpc hnothing
  have hinv : Inv s := by
    refine exec_invariant_of (fun s op h hop => h.step mac op hop) (inv_boot now monitor) pre ?_
    rw [hops] at htime
    exact htime.left
  have hnear : s.published - s.compared < 2 ^ 32 := htime pre (.run host) post hops hpc
  rcases hinv.poll_cases with ⟨-, hpoll⟩ | ⟨hsame, -⟩
  · rw [hpoll] at hnothing
    exact absurd hnothing (by simp)
  · rw [hinv.cursor_at_end hpc (hinv.nothing_new hpc hnear hsame)]
    exact hinv.writeIndex.symm

/-- A monitor without a policy, and a system on which no time passes. -/
def plainMonitor : Monitor :=
  ⟨false, none, kgpInit, fun _ => none, 0, ⟨false, false, 0, 0, 0, false⟩⟩

def quietHost : Host := ⟨fun _ => 0, fun _ => 0, fun _ => none⟩

/-- A notification before the monitor opens the device, one before its first check. -/
def wakeOnce : List PollOp :=
  let publish := PollOp.notify envZero ⟨kgAlertTextPatch, kgLevelCritical, 0, 0⟩
  publish :: List.replicate 4 (.run quietHost) ++ publish :: List.replicate 3 (.run quietHost)

/-- The first check sees the second notification; after the drain it has caused, nothing is left. -/
theorem no_lost_wakeup_once :
    let s := exec (step checksumMac) (boot 0 plainMonitor) wakeOnce
    s.pc = .poll ∧ (kgCommsPoll s.comms s.seen).1 = .nothing ∧
      s.monitor.reader.cursor = s.comms.ring.writeIndex :=
  ⟨by decide +kernel, by decide +kernel,
    no_lost_wakeup checksumMac 0 plainMonitor (wakeOnce ++ [.run quietHost]) (by decide +kernel)
      wakeOnce [] quietHost rfl (by decide +kernel) (by decide +kernel)⟩

end PollSys

end KernelGuard
