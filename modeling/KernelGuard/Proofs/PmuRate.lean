/-
Whether a sustained miss rate is seen.

The trace is timed here: overflows and sampler runs with the moments they happen at, where a run
comes a window after the one before or at once after an overflow that wakes the sampler.  The
handler compares a raw count with the threshold and the sampler divides by the window, so the
counts never pass the threshold between two runs, and with a window above a second no run can
ever be critical.  With a window of at most a second a wake-up is itself critical, and two runs a
whole window apart see the whole rate.  What is left is a wake-up by another counter, which
drains this one before its time.

Such a wake-up is harmless in two ways.  It may keep out of two windows in a row; then the runs in
them are own wake-ups or a whole window apart.  Or it may find nothing of this counter each time;
then it only begins the window anew, and since something overflows within a window of the first
run, that cannot go on for longer than a window.
-/
import KernelGuard.Proofs.Pmu

namespace KernelGuard

open Run

/-! ### Timed traces

A trace has moments, and the schedule says where runs may be.  Time is the module's
own: a run is at most a window after the one before, and earlier only when it is
woken.
-/

inductive Tick where
  | overflow (time : UInt64) (cpu : Nat) (kind : KgEv) (busy : Bool) (user : Option Tgid)
  | sample (time : UInt64)

namespace Tick

def time : Tick → UInt64
  | .overflow t _ _ _ _ => t
  | .sample t => t

def op : Tick → PmuOp
  | .overflow _ cpu kind busy user => .overflow cpu kind busy user
  | .sample t => .sample t

/-- An overflow of the counter that the handler does not ignore, in `[x, y)`. -/
def counts (cpu : Nat) (kind : KgEv) (x y : Nat) : Tick → Bool
  | .overflow t c k busy _ => c == cpu && k == kind && !busy && x ≤ t.toNat && t.toNat < y
  | .sample _ => false

end Tick

/-- The detector, the time of the last event, and whether that event woke the sampler. -/
structure Clocked where
  st : PmuSt
  now : UInt64
  woken : Bool

/-- The overflow wakes the sampler: its count has just reached the threshold. -/
def wakes (s : PmuSt) : Tick → Bool
  | .overflow _ cpu kind busy user => s.counting cpu kind && (s.handle cpu kind busy user).1.wake
  | .sample _ => false

def tickStep (s : Clocked) (k : Tick) : Clocked where
  st := pmuStep s.st k.op
  now := k.time
  woken := wakes s.st k

def tickLog (s : Clocked) (ticks : List Tick) : List PmuEvent :=
  outputs tickStep (fun s k => pmuEvents s.st k.op) s ticks

/-- `max(pmu_window_ms, 100)`, in milliseconds. -/
def windowMs (p : KgPmuParams) : Nat := (max p.windowMs 100).toNat

def windowNs (p : KgPmuParams) : Nat := windowMs p * 1000000

def critOf (p : KgPmuParams) : Nat := (kgPmuThresholds p).2.toNat

def lastRun (s : Clocked) : Nat := s.st.pmu.lastNs.toNat

/-- The sampler runs a window after its last run, or at once when it is woken. -/
def OnSchedule (p : KgPmuParams) (s : Clocked) : Tick → Prop
  | .overflow t _ _ _ _ =>
      s.woken = false ∧ s.now ≤ t ∧ t.toNat < lastRun s + windowNs p
  | .sample t => if s.woken then t = s.now else t.toNat = lastRun s + windowNs p

/-! ### What a trace leaves alone

Most lemmas are about one kind of step, and the other kind is dealt with here: an
overflow does not move the last run, and neither kind takes a counter away.
-/

theorem pmuStep_overflow (s : PmuSt) (cpu : Nat) (kind : KgEv) (busy : Bool)
    (user : Option Tgid) :
    pmuStep s (.overflow cpu kind busy user)
      = if s.counting cpu kind then
          { s with pmu := s.pmu.setCpu cpu (s.handle cpu kind busy user).2 }
        else s :=
  rfl

theorem pmuStep_tick (s : PmuSt) (k : Tick) :
    (pmuStep s k.op).topo = s.topo ∧ (pmuStep s k.op).pmu.params = s.pmu.params ∧
      (pmuStep s k.op).pmu.stop = s.pmu.stop := by
  cases k with
  | overflow t cpu kind busy user =>
      rw [Tick.op, pmuStep_overflow]
      split <;> exact ⟨rfl, rfl, rfl⟩
  | sample t => exact ⟨rfl, rfl, rfl⟩

theorem lastRun_overflow (s : Clocked) (t : UInt64) (cpu : Nat) (kind : KgEv) (busy : Bool)
    (user : Option Tgid) : lastRun (tickStep s (.overflow t cpu kind busy user)) = lastRun s := by
  show (pmuStep s.st (.overflow cpu kind busy user)).pmu.lastNs.toNat = _
  rw [pmuStep_overflow]
  split <;> rfl

/-- The counters that are there stay there. -/
theorem counting_tick (s : PmuSt) (k : Tick) (cpu : Nat) (kind : KgEv) :
    (pmuStep s k.op).counting cpu kind = s.counting cpu kind := by
  have hev : ((((pmuStep s k.op).pmu.cpu cpu).counter kind).ev)
      = ((s.pmu.cpu cpu).counter kind).ev := by
    have hstep := pmuStep_cpu s k.op cpu
    generalize (pmuEvents s k.op).filter (ofCpu cpu) = evs at hstep
    generalize hpc : (pmuStep s k.op).pmu.cpu cpu = pc' at hstep
    generalize hop : k.op = op at hstep
    cases hstep with
    | idle => rfl
    | offline =>
        cases k with
        | overflow => simp [Tick.op] at hop
        | sample => simp [Tick.op] at hop
    | overflow kind' busy user =>
        cases hignored : s.pmu.stop || busy with
        | true => rw [kgPmuOverflow_ignored hignored]
        | false =>
            rw [kgPmuOverflow_counter hignored]
            by_cases hk : kind = kind'
            · subst hk
              rw [Function.update_self]
            · rw [Function.update_of_ne hk]
    | sample now hup =>
        rw [sampleCpu_counter]
        unfold KgPmuCpu.drained
        split <;> rfl
    | online created =>
        cases k with
        | overflow => simp [Tick.op] at hop
        | sample => simp [Tick.op] at hop
  unfold PmuSt.counting
  rw [hev, (pmuStep_tick s k).1]

/-! ### Time

`InWindow` is the invariant about the schedule alone.  From it come the two facts the
counting needs: a run is within a window of the one before, and what is counted has
overflowed since then.
-/

/-- The detector runs with the parameters `p`, and no run is overdue. -/
structure InWindow (p : KgPmuParams) (s : Clocked) : Prop where
  params : s.st.pmu.params = p
  running : s.st.pmu.stop = false
  last : lastRun s ≤ s.now.toNat
  due : s.now.toNat ≤ lastRun s + windowNs p

theorem InWindow.time_le {p : KgPmuParams} {s : Clocked} (h : InWindow p s) {k : Tick}
    (hk : OnSchedule p s k) : s.now.toNat ≤ k.time.toNat := by
  cases k with
  | overflow t cpu kind busy user => exact UInt64.le_iff_toNat_le.mp hk.2.1
  | sample t =>
      have hdue := h.due
      change (if s.woken then t = s.now else t.toNat = lastRun s + windowNs p) at hk
      show s.now.toNat ≤ t.toNat
      split at hk
      · exact Nat.le_of_eq (congrArg UInt64.toNat hk.symm)
      · omega

/-- A run is never later than a window after the one before. -/
theorem InWindow.sample_le {p : KgPmuParams} {s : Clocked} (h : InWindow p s) {t : UInt64}
    (hk : OnSchedule p s (.sample t)) : t.toNat ≤ lastRun s + windowNs p := by
  have hdue := h.due
  change (if s.woken then t = s.now else t.toNat = lastRun s + windowNs p) at hk
  split at hk
  · rw [hk]
    exact hdue
  · omega

theorem InWindow.step {p : KgPmuParams} {s : Clocked} (h : InWindow p s) {k : Tick}
    (hk : OnSchedule p s k) : InWindow p (tickStep s k) := by
  obtain ⟨-, hparams, hstop⟩ := pmuStep_tick s.st k
  have htime := h.time_le hk
  have hlast := h.last
  refine ⟨hparams.trans h.params, hstop.trans h.running, ?_, ?_⟩
  · cases k with
    | overflow t cpu kind busy user =>
        rw [lastRun_overflow]
        exact Nat.le_trans hlast htime
    | sample t => exact Nat.le_refl _
  · cases k with
    | overflow t cpu kind busy user =>
        rw [lastRun_overflow]
        exact Nat.le_of_lt hk.2.2
    | sample t => exact Nat.le_add_right ..

section Trace

variable {p : KgPmuParams} {s : Clocked} {ticks : List Tick}

theorem inWindow_run (h : InWindow p s) (hticks : Along tickStep s ticks (OnSchedule p)) :
    InWindow p (exec tickStep s ticks) :=
  exec_invariant_of (fun _ _ hs hk => hs.step hk) h ticks hticks

theorem counting_run (s : Clocked) (ticks : List Tick) (cpu : Nat) (kind : KgEv) :
    (exec tickStep s ticks).st.counting cpu kind = s.st.counting cpu kind := by
  refine exec_invariant
    (P := fun s' : Clocked => s'.st.counting cpu kind = s.st.counting cpu kind) ?_ rfl ticks
  intro s' k hs'
  exact (counting_tick s'.st k cpu kind).trans hs'

/-- Nothing happens before the time the trace has reached. -/
theorem now_le_time (h : InWindow p s) (hticks : Along tickStep s ticks (OnSchedule p)) :
    ∀ k ∈ ticks, s.now.toNat ≤ k.time.toNat := by
  induction ticks generalizing s with
  | nil => simp
  | cons k rest ih =>
      rw [along_cons] at hticks
      have hk := h.time_le hticks.1
      intro k' hk'
      rcases List.mem_cons.mp hk' with rfl | hk'
      · exact hk
      · exact Nat.le_trans hk (ih (h.step hticks.1) hticks.2 k' hk')

/-- The last run only moves forward, and what overflowed so far did so within a window of it. -/
theorem overflow_time_lt (h : InWindow p s) (hticks : Along tickStep s ticks (OnSchedule p)) :
    ∀ k ∈ ticks, (∀ t, k ≠ .sample t) →
      k.time.toNat < lastRun (exec tickStep s ticks) + windowNs p := by
  induction ticks using List.reverseRecOn with
  | nil => simp
  | append_singleton rest k ih =>
      have hrest := inWindow_run h hticks.left
      have hk := hticks.last
      have hlast : lastRun (exec tickStep s rest) ≤ lastRun (exec tickStep s (rest ++ [k])) := by
        rw [exec_snoc]
        cases k with
        | overflow t cpu kind busy user => exact Nat.le_of_eq (lastRun_overflow ..).symm
        | sample t => exact Nat.le_trans hrest.last (hrest.time_le hk)
      intro k' hk' hover
      rcases List.mem_append.mp hk' with hk' | hk'
      · have hlt := ih hticks.left k' hk' hover
        omega
      · rw [List.mem_singleton] at hk'
        subst hk'
        cases k' with
        | overflow t cpu kind busy user =>
            have hlt := hk.2.2
            show t.toNat < _
            omega
        | sample t => exact absurd rfl (hover t)

end Trace

/-! ### Counts

A wake-up comes with the overflow that makes the count equal to the threshold, not
above it, and the run that follows at once drains the counter.  So between two events
a count is below the threshold.
-/

def ovfOf (s : Clocked) (cpu : Nat) (kind : KgEv) : Int64 :=
  ((s.st.pmu.cpu cpu).counter kind).ovf

theorem ovfOf_overflow {s : Clocked} (hrun : s.st.pmu.stop = false) {cpu : Nat} {kind : KgEv}
    (hcount : s.st.counting cpu kind = true) (t : UInt64) (c : Nat) (k : KgEv) (busy : Bool)
    (user : Option Tgid) :
    ovfOf (tickStep s (.overflow t c k busy user)) cpu kind
      = if c = cpu ∧ k = kind ∧ busy = false then ovfOf s cpu kind + 1 else ovfOf s cpu kind := by
  unfold ovfOf
  show (((pmuStep s.st (.overflow c k busy user)).pmu.cpu cpu).counter kind).ovf = _
  rw [pmuStep_overflow]
  by_cases hc : c = cpu
  · subst hc
    by_cases hck : s.st.counting c k = true
    · rw [if_pos hck]
      show ((Function.update s.st.pmu.cpu c (s.st.handle c k busy user).2 c).counter kind).ovf = _
      rw [Function.update_self]
      unfold PmuSt.handle
      cases busy with
      | true =>
          rw [kgPmuOverflow_ignored (by simp), if_neg (by simp)]
      | false =>
          rw [kgPmuOverflow_counter (by simp [hrun])]
          by_cases hk : k = kind
          · subst hk
            rw [Function.update_self, if_pos ⟨rfl, rfl, rfl⟩]
          · rw [Function.update_of_ne (Ne.symm hk), if_neg (fun h => hk h.2.1)]
    · rw [if_neg hck, if_neg]
      intro h
      rw [h.2.1] at hck
      exact hck hcount
  · rw [if_neg (show ¬ (c = cpu ∧ k = kind ∧ busy = false) from fun h => hc h.1)]
    split
    · show ((Function.update s.st.pmu.cpu c _ cpu).counter kind).ovf = _
      rw [Function.update_of_ne (Ne.symm hc)]
    · rfl

theorem ovfOf_sample {s : Clocked} {cpu : Nat} {kind : KgEv}
    (hcount : s.st.counting cpu kind = true) (t : UInt64) :
    ovfOf (tickStep s (.sample t)) cpu kind = 0 := by
  simp only [PmuSt.counting, Bool.and_eq_true, decide_eq_true_eq] at hcount
  unfold ovfOf
  show (((kgPmuSampleCpus _ _ _ _ _).2 cpu).counter kind).ovf = 0
  rw [sampleCpus_cpu _ _ _ s.st.topo.onlineCpus_nodup, if_pos hcount.1, sampleCpu_counter]
  unfold KgPmuCpu.drained
  rw [if_pos hcount.2]

/-- The wake-up comes with the overflow that makes the count equal to the threshold. -/
theorem wake_iff (p : KgPmuParams) (user : Option Tgid) {kind : KgEv} {pc : KgPmuCpu} {n : Nat}
    (hn : (pc.counter kind).ovf = Int64.ofNat n) (hlt : n + 1 < 2 ^ 63) :
    (kgPmuOverflow p false false kind user pc).1.wake = true ↔ n + 1 = critOf p := by
  have hsucc : (pc.counter kind).ovf + 1 = Int64.ofNat (n + 1) := by
    rw [hn, Int64.ofNat_add]
    rfl
  have heq : Int64.ofNat (n + 1) = (kgPmuThresholds p).2.toUInt64.toInt64 ↔ n + 1 = critOf p := by
    rw [← Int64.toInt_inj, Int64.toInt_ofNat_of_lt hlt, toInt_crit]
    exact Int.natCast_inj
  unfold kgPmuOverflow
  rw [if_neg (by simp), hsucc]
  show (decide _ && decide _) = true ↔ _
  rw [Bool.and_eq_true, decide_eq_true_eq, decide_eq_true_eq, heq]
  refine ⟨fun h => h.2, fun h => ⟨?_, h⟩⟩
  rw [heq.mpr h]
  exact Int64.le_refl _

/-- As long as the sampler is not woken every counter is below the threshold. -/
def Below (p : KgPmuParams) (s : Clocked) : Prop :=
  ∀ cpu kind, s.st.counting cpu kind = true →
    ∃ n, ovfOf s cpu kind = Int64.ofNat n ∧ n ≤ critOf p ∧ (s.woken = false → n < critOf p)

theorem critOf_lt (p : KgPmuParams) : critOf p < 2 ^ 32 := (kgPmuThresholds p).2.toNat_lt

theorem Below.step {p : KgPmuParams} (hcrit : 1 ≤ critOf p) {s : Clocked} (hwin : InWindow p s)
    (h : Below p s) {k : Tick} (hk : OnSchedule p s k) : Below p (tickStep s k) := by
  intro cpu kind hcount
  rw [show (tickStep s k).st = pmuStep s.st k.op from rfl, counting_tick] at hcount
  obtain ⟨n, hn, -, hless⟩ := h cpu kind hcount
  have hmax := critOf_lt p
  cases k with
  | sample t => exact ⟨0, ovfOf_sample hcount t, Nat.zero_le _, fun _ => hcrit⟩
  | overflow t c kd busy user =>
      have hlt := hless hk.1
      rw [ovfOf_overflow hwin.running hcount]
      by_cases hown : c = cpu ∧ kd = kind ∧ busy = false
      · rw [if_pos hown, hn]
        obtain ⟨rfl, rfl, rfl⟩ := hown
        refine ⟨n + 1, by rw [Int64.ofNat_add]; rfl, hlt, ?_⟩
        intro hquiet
        have hwake : ¬ n + 1 = critOf p := by
          intro heq
          have hyes := (wake_iff p user hn (by omega)).mpr heq
          have hno : (tickStep s (.overflow t c kd false user)).woken = true := by
            show (s.st.counting c kd && (s.st.handle c kd false user).1.wake) = true
            rw [hcount, PmuSt.handle, hwin.params, hwin.running, hyes]
            rfl
          rw [hno] at hquiet
          exact absurd hquiet (by decide)
        omega
      · rw [if_neg hown]
        exact ⟨n, hn, Nat.le_of_lt hlt, fun _ => hlt⟩

/-! ### Rates

The sampler divides by the time that has passed, but at least by a window.  For runs
that are not late this is the window itself, and being critical is a comparison of a
count with a product.
-/

theorem windowMs_pos (p : KgPmuParams) : 100 ≤ windowMs p := by
  unfold windowMs
  rw [UInt32.toNat_max]
  exact Nat.le_max_right ..

/-- A run inside the window divides by the whole window. -/
theorem denom_toNat {p : KgPmuParams} {last now : UInt64} (hle : last.toNat ≤ now.toNat)
    (hdue : now.toNat ≤ last.toNat + windowNs p) : (kgPmuDenom p last now).toNat = windowMs p := by
  have hpos := windowMs_pos p
  have hmsec : nsecPerMsec.toNat = 1000000 := rfl
  have helapsed : (now - last).toNat / 1000000 ≤ windowMs p := by
    rw [UInt64.toNat_sub_of_le _ _ (UInt64.le_iff_toNat_le.mpr hle)]
    unfold windowNs at hdue
    omega
  unfold kgPmuDenom
  simp only [UInt64.toNat_max, UInt64.toNat_div, UInt64.toNat_one, UInt32.toNat_toUInt64, hmsec]
  rw [show (max p.windowMs 100).toNat = windowMs p from rfl]
  omega

theorem kgPmuLevel_critical_iff (p : KgPmuParams) (rate : UInt64) :
    kgPmuLevel p rate = kgLevelCritical ↔ critOf p ≤ rate.toNat := by
  have hle : rate ≥ (kgPmuThresholds p).2.toUInt64 ↔ critOf p ≤ rate.toNat := by
    rw [ge_iff_le, UInt64.le_iff_toNat_le, UInt32.toNat_toUInt64]
    rfl
  rw [kgPmuLevel_eq, ← hle]
  by_cases hcrit : rate ≥ (kgPmuThresholds p).2.toUInt64
  · rw [if_pos hcrit]
    exact ⟨fun _ => hcrit, fun _ => rfl⟩
  · rw [if_neg hcrit]
    refine ⟨fun h => ?_, fun h => absurd h hcrit⟩
    split at h <;> exact absurd h (by decide)

theorem rate_toNat {n : Nat} (hn : n < 2 ^ 32) (denomMs : UInt64) :
    (kgPmuRate (Int64.ofNat n).toUInt64 denomMs).toNat = n * 1000 / denomMs.toNat := by
  unfold kgPmuRate
  rw [UInt64.toNat_div, UInt64.toNat_mul, Int64.toUInt64_ofNat', UInt64.toNat_ofNat']
  rw [show (1000 : UInt64).toNat = 1000 from rfl, Nat.mod_eq_of_lt (by omega : n < 2 ^ 64),
    Nat.mod_eq_of_lt (by omega)]

/-- A run is critical exactly if the count, spread over the window, reaches the threshold. -/
theorem judged_critical_iff {p : KgPmuParams} {s : Clocked} (hwin : InWindow p s) {t : UInt64}
    (hk : OnSchedule p s (.sample t)) {j : PmuJudged} (hj : .judged j ∈ pmuEvents s.st (.sample t))
    {n : Nat} (hn : ovfOf s j.cpu j.kind = Int64.ofNat n) (hle : n < 2 ^ 32) :
    j.lvl = kgLevelCritical ↔ critOf p ≤ n * 1000 / windowMs p := by
  have hfrom := judged_facts hj
  have hnow : t = j.now := PmuOp.sample.inj hfrom.op
  have hdenom : j.denomMs.toNat = windowMs p := by
    rw [hfrom.denomMs, hwin.params, ← hnow]
    exact denom_toNat (Nat.le_trans hwin.last (hwin.time_le hk)) (hwin.sample_le hk)
  have hcount : j.n = (Int64.ofNat n).toUInt64 := by
    rw [hfrom.n, ← hn]
    rfl
  unfold PmuJudged.lvl PmuJudged.rate
  rw [kgPmuLevel_critical_iff, hfrom.params, hwin.params, hcount, rate_toNat hle, hdenom]

/-! ### The stretch

What "sustained" and "seen" mean, and the two ways in which other counters may be
kept out.  All of them speak of moments and not of states.
-/

/-- The overflows of a counter in `[x, y)`. -/
def overflowsIn (cpu : Nat) (kind : KgEv) (x y : Nat) (ticks : List Tick) : Nat :=
  ticks.countP (Tick.counts cpu kind x y)

/-- Every window inside the three from `start` on has enough overflows for the threshold. -/
def Sustained (p : KgPmuParams) (cpu : Nat) (kind : KgEv) (start : Nat) (ticks : List Tick) : Prop :=
  ∀ x, start ≤ x → x + windowNs p ≤ start + 3 * windowNs p →
    (critOf p * windowMs p + 999) / 1000 ≤ overflowsIn cpu kind x (x + windowNs p) ticks

/-- No other counter wakes the sampler in the two windows from `y` on. -/
def NoForeignWake (p : KgPmuParams) (cpu : Nat) (kind : KgEv) (s : Clocked) (ticks : List Tick)
    (y : Nat) : Prop :=
  ∀ pre t c k busy user post, ticks = pre ++ .overflow t c k busy user :: post →
    y ≤ t.toNat → t.toNat < y + 2 * windowNs p →
    wakes (exec tickStep s pre).st (.overflow t c k busy user) = true → c = cpu ∧ k = kind

/-- No other counter that wakes the sampler in the three windows from `start` on makes it drain
anything of this one. -/
def NoForeignDrain (p : KgPmuParams) (cpu : Nat) (kind : KgEv) (s : Clocked) (ticks : List Tick)
    (start : Nat) : Prop :=
  ∀ pre t c k busy user post, ticks = pre ++ .overflow t c k busy user :: post →
    start ≤ t.toNat → t.toNat < start + 3 * windowNs p →
    wakes (exec tickStep s pre).st (.overflow t c k busy user) = true →
    (c = cpu ∧ k = kind) ∨ ovfOf (exec tickStep s pre) cpu kind = 0

/-- The counter has two windows to itself, or is left alone in all three. -/
def LeftToItself (p : KgPmuParams) (cpu : Nat) (kind : KgEv) (s : Clocked) (ticks : List Tick)
    (start : Nat) : Prop :=
  (∃ y, start ≤ y ∧ y ≤ start + windowNs p ∧ NoForeignWake p cpu kind s ticks y) ∨
    NoForeignDrain p cpu kind s ticks start

/-- Some run inside the stretch is critical for the counter. -/
def SeenCritical (p : KgPmuParams) (cpu : Nat) (kind : KgEv) (start : Nat)
    (log : List PmuEvent) : Prop :=
  ∃ j, .judged j ∈ log ∧ j.cpu = cpu ∧ j.kind = kind ∧ start ≤ j.now.toNat ∧
    j.now.toNat ≤ start + 3 * windowNs p ∧ j.lvl = kgLevelCritical

/-- The run at `t` is critical for the counter. -/
def CriticalRun (cpu : Nat) (kind : KgEv) (t : UInt64) (log : List PmuEvent) : Prop :=
  ∃ j, .judged j ∈ log ∧ j.cpu = cpu ∧ j.kind = kind ∧ j.now = t ∧ j.lvl = kgLevelCritical

theorem CriticalRun.mem_log {cpu : Nat} {kind : KgEv} {t : UInt64} {s : Clocked}
    {ticks pre post : List Tick} (hsplit : ticks = pre ++ .sample t :: post)
    (h : CriticalRun cpu kind t (pmuEvents (exec tickStep s pre).st (.sample t))) :
    CriticalRun cpu kind t (tickLog s ticks) := by
  obtain ⟨j, hj, hfacts⟩ := h
  exact ⟨j, mem_outputs.mpr ⟨pre, _, post, hsplit, hj⟩, hfacts⟩

theorem CriticalRun.seen {p : KgPmuParams} {cpu : Nat} {kind : KgEv} {t : UInt64} {start : Nat}
    {log : List PmuEvent} (h : CriticalRun cpu kind t log) (hlow : start ≤ t.toNat)
    (hhigh : t.toNat ≤ start + 3 * windowNs p) : SeenCritical p cpu kind start log := by
  obtain ⟨j, hj, hcpu, hkind, rfl, hlvl⟩ := h
  exact ⟨j, hj, hcpu, hkind, hlow, hhigh, hlvl⟩

/-- A run that finds enough overflows for the window is critical. -/
theorem run_critical {p : KgPmuParams} {s : Clocked} (hwin : InWindow p s) {t : UInt64}
    (hk : OnSchedule p s (.sample t)) {cpu : Nat} {kind : KgEv}
    (hcount : s.st.counting cpu kind = true) {n : Nat} (hn : ovfOf s cpu kind = Int64.ofNat n)
    (hlt : n < 2 ^ 32) (hrate : critOf p * windowMs p ≤ n * 1000) :
    CriticalRun cpu kind t (pmuEvents s.st (.sample t)) := by
  obtain ⟨j, hj, hcpu, hkind⟩ := sample_judges hcount t
  refine ⟨j, hj, hcpu, hkind, (PmuOp.sample.inj (judged_facts hj).op).symm, ?_⟩
  rw [judged_critical_iff hwin hk hj (by rw [hcpu, hkind]; exact hn) hlt]
  have hpos := windowMs_pos p
  exact (Nat.le_div_iff_mul_le (by omega)).mpr hrate

/-- The first run after a moment. -/
theorem first_run_after {s : Clocked} {ticks : List Tick} {y : Nat} (hstart : lastRun s ≤ y)
    (hend : y < lastRun (exec tickStep s ticks)) :
    ∃ pre t post, ticks = pre ++ .sample t :: post ∧ lastRun (exec tickStep s pre) ≤ y ∧
      y < t.toNat := by
  obtain ⟨pre, k, post, hsplit, hpre, hcross⟩ :=
    exec_crossing (P := fun s => lastRun s ≤ y) hstart ticks (Nat.not_le.mpr hend)
  cases k with
  | overflow t c kd busy user =>
      rw [lastRun_overflow] at hcross
      exact absurd hpre hcross
  | sample t => exact ⟨pre, t, post, hsplit, hpre, Nat.not_le.mp hcross⟩

theorem first_sample (ticks : List Tick) :
    (∀ k ∈ ticks, ∀ t, k ≠ .sample t) ∨
      ∃ m t r, ticks = m ++ .sample t :: r ∧ ∀ k ∈ m, ∀ t, k ≠ .sample t := by
  induction ticks with
  | nil => exact Or.inl (by simp)
  | cons k rest ih =>
      cases k with
      | sample t => exact Or.inr ⟨[], t, rest, rfl, by simp⟩
      | overflow t c kd busy user =>
          rcases ih with hnone | ⟨m, t', r, hrest, hm⟩
          · refine Or.inl ?_
            intro k hk t'
            rcases List.mem_cons.mp hk with rfl | hk
            · nofun
            · exact hnone k hk t'
          · refine Or.inr ⟨.overflow t c kd busy user :: m, t', r, by rw [hrest]; rfl, ?_⟩
            intro k hk t'
            rcases List.mem_cons.mp hk with rfl | hk
            · nofun
            · exact hm k hk t'

theorem lastRun_of_no_sample {s : Clocked} {m : List Tick}
    (hm : ∀ k ∈ m, ∀ t, k ≠ .sample t) : lastRun (exec tickStep s m) = lastRun s := by
  induction m generalizing s with
  | nil => rfl
  | cons k rest ih =>
      rw [exec_cons, ih (fun k' hk' => hm k' (List.mem_cons_of_mem k hk'))]
      cases k with
      | overflow t c kd busy user => exact lastRun_overflow ..
      | sample t => exact absurd rfl (hm _ List.mem_cons_self t)

/-- The sampler was woken by the overflow just before. -/
theorem waker {s : Clocked} (hs : s.woken = false) {m : List Tick}
    (h : (exec tickStep s m).woken = true) :
    ∃ pre t c k busy user, m = pre ++ [.overflow t c k busy user] ∧
      wakes (exec tickStep s pre).st (.overflow t c k busy user) = true ∧
      (exec tickStep s m).now = t := by
  rcases List.eq_nil_or_concat m with rfl | ⟨pre, k, rfl⟩
  · rw [exec_nil, hs] at h
    exact absurd h (by decide)
  · rw [List.concat_eq_append] at h ⊢
    rw [exec_snoc] at h ⊢
    cases k with
    | overflow t c kd busy user => exact ⟨pre, t, c, kd, busy, user, rfl, h, rfl⟩
    | sample t => exact absurd h (by show ¬ (false = true); decide)

/-! ### The runs of the stretch

The runs in an undisturbed window are of two kinds.  One that was woken was woken by
the counter itself and is critical; one that was not is a whole window behind the
run before it, and has seen all that overflowed in it.
-/

section Stretch

variable {p : KgPmuParams} {s : Clocked} {ticks : List Tick} {cpu : Nat} {kind : KgEv}

/-- A trace on schedule from a state where nothing has been counted. -/
structure Started (p : KgPmuParams) (s : Clocked) : Prop where
  window : InWindow p s
  woken : s.woken = false
  zero : ∀ cpu kind, ovfOf s cpu kind = 0

theorem Started.below (h : Started p s) (hcrit : 1 ≤ critOf p)
    (hticks : Along tickStep s ticks (OnSchedule p)) : Below p (exec tickStep s ticks) := by
  have hinit : InWindow p s ∧ Below p s := by
    refine ⟨h.window, ?_⟩
    intro cpu kind _
    exact ⟨0, h.zero cpu kind, Nat.zero_le _, fun _ => hcrit⟩
  have hrun : InWindow p (exec tickStep s ticks) ∧ Below p (exec tickStep s ticks) := by
    refine exec_invariant_of (P := fun s => InWindow p s ∧ Below p s) ?_ hinit ticks hticks
    intro s k hs hk
    exact ⟨hs.1.step hk, hs.2.step hcrit hs.1 hk⟩
  exact hrun.2

/-- The run that an overflow of this very counter wakes is critical, if the window is at most a
second. -/
theorem own_wake_critical (h : Started p s) (hcrit : 1 ≤ critOf p) (hwindow : windowMs p ≤ 1000)
    {pre : List Tick} {t₀ t : UInt64} {busy : Bool} {user : Option Tgid}
    (hticks : Along tickStep s (pre ++ [.overflow t₀ cpu kind busy user] ++ [.sample t])
      (OnSchedule p))
    (hwake : wakes (exec tickStep s pre).st (.overflow t₀ cpu kind busy user) = true) :
    CriticalRun cpu kind t (pmuEvents
      (exec tickStep s (pre ++ [.overflow t₀ cpu kind busy user])).st (.sample t)) := by
  have hwin := inWindow_run h.window hticks.left.left
  have hwin' := inWindow_run h.window hticks.left
  have hcount : (exec tickStep s pre).st.counting cpu kind = true ∧
      ((exec tickStep s pre).st.handle cpu kind busy user).1.wake = true :=
    Bool.and_eq_true_iff.mp hwake
  have hbusy : busy = false := by
    by_contra hbusy
    have hignored := hcount.2
    rw [PmuSt.handle, kgPmuOverflow_ignored (by simp [hbusy])] at hignored
    simp at hignored
  subst hbusy
  obtain ⟨n, hn, hle, -⟩ := h.below hcrit hticks.left.left cpu kind hcount.1
  have hmax := critOf_lt p
  have heq : n + 1 = critOf p := by
    refine (wake_iff p user hn (by omega)).mp ?_
    have hyes := hcount.2
    rw [PmuSt.handle, hwin.params, hwin.running] at hyes
    exact hyes
  have hfull : ovfOf (exec tickStep s (pre ++ [.overflow t₀ cpu kind false user])) cpu kind
      = Int64.ofNat (critOf p) := by
    rw [exec_snoc, ovfOf_overflow hwin.running hcount.1, if_pos ⟨rfl, rfl, rfl⟩, hn, ← heq,
      Int64.ofNat_add]
    rfl
  have hcount' : (exec tickStep s (pre ++ [.overflow t₀ cpu kind false user])).st.counting cpu kind
      = true := by
    rw [counting_run, ← counting_run s pre]
    exact hcount.1
  exact run_critical hwin' hticks.last hcount' hfull hmax (Nat.mul_le_mul_left _ hwindow)

/-- A run that was woken, with the overflow that woke it; if that is one of this very counter, the
run is critical. -/
theorem woken_run (cpu : Nat) (kind : KgEv) (h : Started p s) (hcrit : 1 ≤ critOf p) (hwindow : windowMs p ≤ 1000)
    (hticks : Along tickStep s ticks (OnSchedule p)) {pre : List Tick} {t : UInt64}
    {post : List Tick} (hsplit : ticks = pre ++ .sample t :: post)
    (hwoken : (exec tickStep s pre).woken = true) :
    ∃ pre' c k busy user, pre = pre' ++ [.overflow t c k busy user] ∧
      wakes (exec tickStep s pre').st (.overflow t c k busy user) = true ∧
      t.toNat < lastRun (exec tickStep s pre) + windowNs p ∧
      (c = cpu ∧ k = kind → CriticalRun cpu kind t (tickLog s ticks)) := by
  have hk := hticks pre (.sample t) post hsplit
  obtain ⟨pre', t₀, c, k, busy, user, rfl, hwake, hnow⟩ := waker h.woken hwoken
  obtain rfl : t = t₀ := by
    change (if _ then t = _ else _) at hk
    rw [if_pos hwoken, hnow] at hk
    exact hk
  refine ⟨pre', c, k, busy, user, rfl, hwake, ?_, ?_⟩
  · obtain ⟨-, -, hlt⟩ := hticks pre' (.overflow t c k busy user) (.sample t :: post)
      (by simp [hsplit])
    rw [exec_snoc, lastRun_overflow]
    exact hlt
  · rintro ⟨rfl, rfl⟩
    have hall : Along tickStep s
        ((pre' ++ [.overflow t c k busy user] ++ [.sample t]) ++ post) (OnSchedule p) := by
      rw [List.append_assoc, List.singleton_append, ← hsplit]
      exact hticks
    exact (own_wake_critical h hcrit hwindow hall.left hwake).mem_log hsplit

/-- A run woken inside the undisturbed time is critical. -/
theorem woken_run_critical (h : Started p s) (hcrit : 1 ≤ critOf p) (hwindow : windowMs p ≤ 1000)
    (hticks : Along tickStep s ticks (OnSchedule p)) {y : Nat}
    (hund : NoForeignWake p cpu kind s ticks y) {pre : List Tick} {t : UInt64} {post : List Tick}
    (hsplit : ticks = pre ++ .sample t :: post) (hwoken : (exec tickStep s pre).woken = true)
    (hy : y ≤ t.toNat) (hle : lastRun (exec tickStep s pre) ≤ y + windowNs p) :
    CriticalRun cpu kind t (tickLog s ticks) := by
  obtain ⟨pre', c, k, busy, user, rfl, hwake, hlt, hown⟩ :=
    woken_run cpu kind h hcrit hwindow hticks hsplit hwoken
  exact hown (hund pre' t c k busy user (.sample t :: post) (by simp [hsplit]) hy (by omega) hwake)

theorem lastRun_between (s : Clocked) (pre : List Tick) (t : UInt64) {m : List Tick}
    (hm : ∀ k ∈ m, ∀ t, k ≠ .sample t) :
    lastRun (exec tickStep s (pre ++ .sample t :: m)) = t.toNat := by
  rw [exec_append, exec_cons, lastRun_of_no_sample hm]
  rfl

theorem overflowsIn_snoc (cpu : Nat) (kind : KgEv) (x y : Nat) (m : List Tick) (k : Tick) :
    overflowsIn cpu kind x y (m ++ [k])
      = overflowsIn cpu kind x y m + if Tick.counts cpu kind x y k = true then 1 else 0 := by
  unfold overflowsIn
  rw [List.countP_append, List.countP_singleton]

/-- Between two runs the counter counts exactly what overflows, and stays below the threshold. -/
theorem ovf_between (h : Started p s) (hcrit : 1 ≤ critOf p)
    (hcount : s.st.counting cpu kind = true) {pre m : List Tick} {t : UInt64}
    (hticks : Along tickStep s (pre ++ .sample t :: m) (OnSchedule p))
    (hm : ∀ k ∈ m, ∀ t, k ≠ .sample t) :
    ovfOf (exec tickStep s (pre ++ .sample t :: m)) cpu kind
        = Int64.ofNat (overflowsIn cpu kind t.toNat (t.toNat + windowNs p) m) ∧
      overflowsIn cpu kind t.toNat (t.toNat + windowNs p) m ≤ critOf p := by
  have hmax := critOf_lt p
  induction m using List.reverseRecOn with
  | nil =>
      rw [exec_snoc, ovfOf_sample (by rw [counting_run]; exact hcount)]
      exact ⟨rfl, Nat.zero_le _⟩
  | append_singleton m k ih =>
      have hassoc : pre ++ .sample t :: (m ++ [k]) = (pre ++ .sample t :: m) ++ [k] := by simp
      rw [hassoc] at hticks ⊢
      have hm' : ∀ k ∈ m, ∀ t, k ≠ .sample t :=
        fun k hk => hm k (List.mem_append_left _ hk)
      obtain ⟨hovf, hle⟩ := ih hticks.left hm'
      have hwin := inWindow_run h.window hticks.left
      have hlast := lastRun_between s pre t hm'
      have hcount' : (exec tickStep s (pre ++ .sample t :: m)).st.counting cpu kind = true := by
        rw [counting_run]
        exact hcount
      have hstep : ovfOf (exec tickStep s ((pre ++ .sample t :: m) ++ [k])) cpu kind
          = Int64.ofNat (overflowsIn cpu kind t.toNat (t.toNat + windowNs p) (m ++ [k])) := by
        rw [overflowsIn_snoc, exec_snoc]
        cases k with
        | sample t => exact absurd rfl (hm _ (by simp) t)
        | overflow t₀ c kd busy user =>
            obtain ⟨-, hfrom, hto⟩ := hticks.last
            have hx : t.toNat ≤ t₀.toNat := by
              have hnow := UInt64.le_iff_toNat_le.mp hfrom
              have hlow := hwin.last
              omega
            have hy : t₀.toNat < t.toNat + windowNs p := by omega
            rw [ovfOf_overflow hwin.running hcount', hovf]
            have hcounts : Tick.counts cpu kind t.toNat (t.toNat + windowNs p)
                (.overflow t₀ c kd busy user) = true ↔ (c = cpu ∧ kd = kind ∧ busy = false) := by
              simp [Tick.counts, hx, hy, and_assoc]
            by_cases hown : c = cpu ∧ kd = kind ∧ busy = false
            · rw [if_pos hown, if_pos (hcounts.mpr hown), Int64.ofNat_add]
              rfl
            · rw [if_neg hown, if_neg (fun hc => hown (hcounts.mp hc)), Nat.add_zero]
      refine ⟨hstep, ?_⟩
      -- one more overflow than before does not wrap, so the bound on the counter is one on the count
      obtain ⟨n, hn, hnle, -⟩ := h.below hcrit hticks cpu kind (by rw [counting_run]; exact hcount)
      have hsnoc : overflowsIn cpu kind t.toNat (t.toNat + windowNs p) (m ++ [k])
          ≤ overflowsIn cpu kind t.toNat (t.toNat + windowNs p) m + 1 := by
        rw [overflowsIn_snoc]
        split <;> omega
      have hsame := congrArg Int64.toInt (hstep.symm.trans hn)
      rw [Int64.toInt_ofNat_of_lt (by omega), Int64.toInt_ofNat_of_lt (by omega)] at hsame
      omega

/-- Nothing that overflowed before a run on time was as late as that run. -/
theorem before_timer_run (cpu : Nat) (kind : KgEv) (h : Started p s) {pre : List Tick}
    (hpre : Along tickStep s pre (OnSchedule p)) {t : UInt64}
    (ht : t.toNat = lastRun (exec tickStep s pre) + windowNs p) (y : Nat) :
    overflowsIn cpu kind t.toNat y pre = 0 := by
  refine List.countP_eq_zero.mpr ?_
  intro k hkp
  cases k with
  | sample t => simp [Tick.counts]
  | overflow t₀ c kd busy user =>
      have hlt := overflow_time_lt h.window hpre _ hkp (fun _ => nofun)
      rw [← ht] at hlt
      have hnot : ¬ t.toNat ≤ t₀.toNat := Nat.not_le.mpr hlt
      simp [Tick.counts, hnot]

/-- What overflows in the window after a run, up to the next run, is all there is in it, if nothing
before the run is as late. -/
theorem overflowsIn_between (h : Started p s) (hticks : Along tickStep s ticks (OnSchedule p))
    {pre m r : List Tick} {t t' : UInt64}
    (hsplit : ticks = (pre ++ .sample t :: m) ++ .sample t' :: r)
    (hbefore : overflowsIn cpu kind t.toNat (t.toNat + windowNs p) pre = 0)
    (ht' : t'.toNat = t.toNat + windowNs p) :
    overflowsIn cpu kind t.toNat (t.toNat + windowNs p) ticks
      = overflowsIn cpu kind t.toNat (t.toNat + windowNs p) m := by
  have hpre' : Along tickStep s (pre ++ .sample t :: m) (OnSchedule p) :=
    Along.left (hsplit ▸ hticks)
  have hafter : overflowsIn cpu kind t.toNat (t.toNat + windowNs p) r = 0 := by
    refine List.countP_eq_zero.mpr ?_
    have hrest := (along_cons.mp (Along.right (hsplit ▸ hticks))).2
    have hwin := (inWindow_run h.window hpre').step (hticks _ _ _ hsplit)
    intro k hkr
    have hle := now_le_time hwin hrest k hkr
    cases k with
    | sample t => simp [Tick.counts]
    | overflow t₀ c kd busy user =>
        have hnot : ¬ t₀.toNat < t.toNat + windowNs p := by
          have hle' : t'.toNat ≤ t₀.toNat := hle
          omega
        simp [Tick.counts, hnot]
  unfold overflowsIn at hbefore hafter ⊢
  rw [hsplit, List.countP_append, List.countP_append, List.countP_cons, List.countP_cons,
    hbefore, hafter]
  simp [Tick.counts]

/-- A run a whole window after another, with no run between them, sees what overflowed between. -/
theorem timer_run_critical (h : Started p s) (hcrit : 1 ≤ critOf p)
    (hticks : Along tickStep s ticks (OnSchedule p)) (hcount : s.st.counting cpu kind = true)
    {pre m r : List Tick} {t t' : UInt64}
    (hsplit : ticks = (pre ++ .sample t :: m) ++ .sample t' :: r)
    (hbefore : overflowsIn cpu kind t.toNat (t.toNat + windowNs p) pre = 0)
    (hm : ∀ k ∈ m, ∀ t, k ≠ .sample t) (ht' : t'.toNat = t.toNat + windowNs p)
    (hrate : (critOf p * windowMs p + 999) / 1000
      ≤ overflowsIn cpu kind t.toNat (t.toNat + windowNs p) ticks) :
    CriticalRun cpu kind t' (tickLog s ticks) := by
  have hpre' : Along tickStep s (pre ++ .sample t :: m) (OnSchedule p) :=
    Along.left (hsplit ▸ hticks)
  rw [overflowsIn_between h hticks hsplit hbefore ht'] at hrate
  obtain ⟨hovf, hle⟩ := ovf_between h hcrit hcount hpre' hm
  have hcount' : (exec tickStep s (pre ++ .sample t :: m)).st.counting cpu kind = true := by
    rw [counting_run]
    exact hcount
  have hmax := critOf_lt p
  exact (run_critical (inWindow_run h.window hpre') (hticks _ _ _ hsplit) hcount' hovf (by omega)
    (by omega)).mem_log hsplit

/-- Two undisturbed windows of the stretch have a critical run. -/
theorem stretch_critical (h : Started p s) (hcrit : 1 ≤ critOf p) (hwindow : windowMs p ≤ 1000)
    (hticks : Along tickStep s ticks (OnSchedule p)) (hcount : s.st.counting cpu kind = true)
    {start y : Nat} (hstart : lastRun s ≤ y) (hlow : start ≤ y) (hhigh : y ≤ start + windowNs p)
    (hund : NoForeignWake p cpu kind s ticks y)
    (hcover : start + 2 * windowNs p < lastRun (exec tickStep s ticks))
    (hrate : Sustained p cpu kind start ticks) :
    SeenCritical p cpu kind start (tickLog s ticks) := by
  have hpos := windowMs_pos p
  have hns : 0 < windowNs p := by
    unfold windowNs
    omega
  obtain ⟨pre, t, post, hsplit, hpre, hty⟩ := first_run_after hstart
    (show y < lastRun (exec tickStep s ticks) by omega)
  have hk := hticks pre (.sample t) post hsplit
  have htle := (inWindow_run h.window (Along.left (hsplit ▸ hticks))).sample_le hk
  by_cases hwoken : (exec tickStep s pre).woken = true
  · have hrun := woken_run_critical h hcrit hwindow hticks hund hsplit hwoken (by omega) (by omega)
    exact hrun.seen (by omega) (by omega)
  · have ht : t.toNat = lastRun (exec tickStep s pre) + windowNs p := by
      change (if _ then _ else _) at hk
      rwa [if_neg hwoken] at hk
    -- the run after that one
    rcases first_sample post with hnone | ⟨m, t', r, hpost, hm⟩
    · rw [hsplit, lastRun_between s pre t hnone] at hcover
      omega
    · have hsplit' : ticks = (pre ++ .sample t :: m) ++ .sample t' :: r := by
        simp [hsplit, hpost]
      have hk' := hticks _ _ _ hsplit'
      have hwin' := inWindow_run h.window (Along.left (hsplit' ▸ hticks))
      have hlast := lastRun_between s pre t hm
      have htle' := hwin'.sample_le hk'
      have htime := hwin'.time_le hk'
      have hlow' := hwin'.last
      change _ ≤ t'.toNat at htime
      by_cases hwoken' : (exec tickStep s (pre ++ .sample t :: m)).woken = true
      · have hrun := woken_run_critical h hcrit hwindow hticks hund hsplit' hwoken' (by omega)
          (by omega)
        exact hrun.seen (by omega) (by omega)
      · have ht' : t'.toNat = t.toNat + windowNs p := by
          change (if _ then _ else _) at hk'
          rw [if_neg hwoken', hlast] at hk'
          exact hk'
        have hbefore := before_timer_run cpu kind h
          (Along.left (hsplit ▸ hticks)) ht (t.toNat + windowNs p)
        have hrun := timer_run_critical h hcrit hticks hcount hsplit' hbefore hm ht'
          (hrate t.toNat (by omega) (by omega))
        exact hrun.seen (by omega) (by omega)

/-! ### Wake-ups that take nothing away

A foreign wake-up that finds nothing counted only begins a window anew.  It does no harm while
nothing has overflowed since the first run of the stretch, and something does within a window of
that run; so the run that finds it is at most two windows later.
-/

/-- Everything in a trace has happened by the time it has reached. -/
theorem time_le_now (hwin : InWindow p s) (hticks : Along tickStep s ticks (OnSchedule p)) :
    ∀ k ∈ ticks, k.time.toNat ≤ (exec tickStep s ticks).now.toNat := by
  induction ticks using List.reverseRecOn with
  | nil => simp
  | append_singleton rest k ih =>
      have hrest := inWindow_run hwin hticks.left
      have hle := hrest.time_le hticks.last
      rw [exec_snoc]
      intro k' hk'
      rcases List.mem_append.mp hk' with hold | hnew
      · exact Nat.le_trans (ih hticks.left k' hold) hle
      · rw [List.mem_singleton.mp hnew]
        exact Nat.le_refl _

theorem overflowsIn_late {x : Nat} (y : Nat) (h : ∀ k ∈ ticks, k.time.toNat < x) :
    overflowsIn cpu kind x y ticks = 0 := by
  refine List.countP_eq_zero.mpr fun k hk => ?_
  have hlt := h k hk
  cases k with
  | sample t => simp [Tick.counts]
  | overflow t c kd busy user =>
      have hnot : ¬ x ≤ t.toNat := Nat.not_le.mpr hlt
      simp [Tick.counts, hnot]

theorem overflowsIn_early (x : Nat) {y : Nat} (h : ∀ k ∈ ticks, y ≤ k.time.toNat) :
    overflowsIn cpu kind x y ticks = 0 := by
  refine List.countP_eq_zero.mpr fun k hk => ?_
  have hle := h k hk
  cases k with
  | sample t => simp [Tick.counts]
  | overflow t c kd busy user =>
      have hnot : ¬ t.toNat < y := Nat.not_lt.mpr hle
      simp [Tick.counts, hnot]

/-- Where nothing is counted, nothing has overflowed since the last run. -/
theorem counted_by_last (h : Started p s) (hcrit : 1 ≤ critOf p)
    (hticks : Along tickStep s ticks (OnSchedule p)) (hcount : s.st.counting cpu kind = true)
    (hzero : ovfOf (exec tickStep s ticks) cpu kind = 0) {x : Nat}
    (hx : lastRun (exec tickStep s ticks) < x) (y : Nat) :
    overflowsIn cpu kind x y ticks = 0 := by
  induction ticks using List.reverseRecOn with
  | nil => rfl
  | append_singleton rest k ih =>
      have hwin := inWindow_run h.window hticks.left
      have hcount' : (exec tickStep s rest).st.counting cpu kind = true := by
        rw [counting_run]
        exact hcount
      rw [exec_snoc] at hzero hx
      rw [overflowsIn_snoc]
      cases k with
      | sample t =>
          have hle := hwin.time_le hticks.last
          have hlt : t.toNat < x := hx
          have hpast : overflowsIn cpu kind x y rest = 0 := overflowsIn_late y fun k hk =>
            Nat.lt_of_le_of_lt (Nat.le_trans (time_le_now h.window hticks.left k hk) hle) hlt
          rw [hpast]
          simp [Tick.counts]
      | overflow t c kd busy user =>
          rw [lastRun_overflow] at hx
          rw [ovfOf_overflow hwin.running hcount'] at hzero
          by_cases hown : c = cpu ∧ kd = kind ∧ busy = false
          · -- one more than a count below the threshold is not zero
            obtain ⟨n, hn, hle, -⟩ := h.below hcrit hticks.left cpu kind hcount'
            have hmax := critOf_lt p
            rw [if_pos hown, hn] at hzero
            have hsucc : Int64.ofNat (n + 1) = Int64.ofNat 0 := by
              rw [Int64.ofNat_add]
              exact hzero
            have hsame := congrArg Int64.toInt hsucc
            rw [Int64.toInt_ofNat_of_lt (by omega), Int64.toInt_ofNat_of_lt (by omega)] at hsame
            omega
          · rw [if_neg hown] at hzero
            rw [ih hticks.left hzero hx, if_neg]
            intro hc
            simp only [Tick.counts, Bool.and_eq_true, beq_iff_eq, Bool.not_eq_true'] at hc
            exact hown ⟨hc.1.1.1.1, hc.1.1.1.2, hc.1.1.2⟩

/-- Between two runs everything overflows in the window after the first of them. -/
theorem overflowsIn_window (cpu : Nat) (kind : KgEv) (h : Started p s) {pre m : List Tick} {t : UInt64}
    (hticks : Along tickStep s (pre ++ .sample t :: m) (OnSchedule p))
    (hm : ∀ k ∈ m, ∀ t, k ≠ .sample t) (x y : Nat) :
    overflowsIn cpu kind x y m ≤ overflowsIn cpu kind t.toNat (t.toNat + windowNs p) m := by
  have hpre := inWindow_run h.window hticks.left
  have hrest := along_cons.mp hticks.right
  have hwin := hpre.step hrest.1
  have hlast := lastRun_between s pre t hm
  refine List.countP_mono_left fun k hk hc => ?_
  have hlow := now_le_time hwin hrest.2 k hk
  have hhigh := overflow_time_lt h.window hticks k
    (List.mem_append_right _ (List.mem_cons_of_mem _ hk)) (hm k hk)
  rw [hlast] at hhigh
  cases k with
  | sample t => exact absurd rfl (hm _ hk t)
  | overflow t₀ c kd busy user =>
      have hlow' : t.toNat ≤ t₀.toNat := hlow
      have hhigh' : t₀.toNat < t.toNat + windowNs p := hhigh
      simp only [Tick.counts, Bool.and_eq_true, decide_eq_true_eq] at hc ⊢
      exact ⟨⟨hc.1.1, hlow'⟩, hhigh'⟩

/-- A woken run of the stretch is critical or finds nothing. -/
theorem woken_run_drained (h : Started p s) (hcrit : 1 ≤ critOf p) (hwindow : windowMs p ≤ 1000)
    (hticks : Along tickStep s ticks (OnSchedule p)) (hcount : s.st.counting cpu kind = true)
    {start : Nat} (hund : NoForeignDrain p cpu kind s ticks start) {pre post : List Tick}
    {t : UInt64} (hsplit : ticks = pre ++ .sample t :: post)
    (hwoken : (exec tickStep s pre).woken = true) (hlow : start ≤ t.toNat)
    (hhigh : t.toNat < start + 3 * windowNs p) :
    CriticalRun cpu kind t (tickLog s ticks) ∨ ovfOf (exec tickStep s pre) cpu kind = 0 := by
  obtain ⟨pre', c, k, busy, user, rfl, hwake, -, hown⟩ :=
    woken_run cpu kind h hcrit hwindow hticks hsplit hwoken
  by_cases hmine : c = cpu ∧ k = kind
  · exact .inl (hown hmine)
  have hprefix : Along tickStep s (pre' ++ [.overflow t c k busy user]) (OnSchedule p) :=
    Along.left (hsplit ▸ hticks)
  have hzero := (hund pre' t c k busy user (.sample t :: post) (by simp [hsplit]) hlow hhigh
    hwake).resolve_left hmine
  rw [exec_snoc, ovfOf_overflow (inWindow_run h.window hprefix.left).running
    (by rw [counting_run]; exact hcount), if_neg fun hc => hmine ⟨hc.1, hc.2.1⟩]
  exact .inr hzero

section Clean

variable {start first : Nat} {pre m r : List Tick} {t t' : UInt64}
  (hsplit : ticks = (pre ++ .sample t :: m) ++ .sample t' :: r)
  (hclean : ∀ y, overflowsIn cpu kind first y pre = 0)

include hsplit

/-- Something overflows within a window of the first run, and a run that is behind it finds it. -/
theorem clean_soon (h : Started p s) (hcrit : 1 ≤ critOf p)
    (hticks : Along tickStep s ticks (OnSchedule p)) (hlow : start ≤ first)
    (hhigh : first ≤ start + windowNs p) (hrate : Sustained p cpu kind start ticks)
    (hbefore : overflowsIn cpu kind first (first + windowNs p) (pre ++ .sample t :: m) = 0) :
    t'.toNat < first + windowNs p := by
  by_contra hlate
  have hneed := hrate first hlow (by omega)
  have hafter : overflowsIn cpu kind first (first + windowNs p) r = 0 := by
    have hwin := (inWindow_run h.window (Along.left (hsplit ▸ hticks))).step (hticks _ _ _ hsplit)
    have hrest := (along_cons.mp (Along.right (hsplit ▸ hticks))).2
    refine overflowsIn_early first fun k hk => ?_
    have hnow : t'.toNat ≤ k.time.toNat := now_le_time hwin hrest k hk
    omega
  have hall : overflowsIn cpu kind first (first + windowNs p) ticks = 0 := by
    unfold overflowsIn at hbefore hafter ⊢
    rw [hsplit, List.countP_append, List.countP_cons, hbefore, hafter]
    simp [Tick.counts]
  have hpos := windowMs_pos p
  have hone : 1 * 100 ≤ critOf p * windowMs p := Nat.mul_le_mul hcrit hpos
  omega

include hclean

/-- If the next run finds nothing, nothing before it is as late as the first run. -/
theorem clean_step (h : Started p s) (hcrit : 1 ≤ critOf p)
    (hticks : Along tickStep s ticks (OnSchedule p)) (hcount : s.st.counting cpu kind = true)
    (hm : ∀ k ∈ m, ∀ t, k ≠ .sample t)
    (hnothing : ovfOf (exec tickStep s (pre ++ .sample t :: m)) cpu kind = 0) (y : Nat) :
    overflowsIn cpu kind first y (pre ++ .sample t :: m) = 0 := by
  have hprefix : Along tickStep s (pre ++ .sample t :: m) (OnSchedule p) :=
    Along.left (hsplit ▸ hticks)
  have hempty : overflowsIn cpu kind t.toNat (t.toNat + windowNs p) m = 0 := by
    obtain ⟨hovf, hmax⟩ := ovf_between h hcrit hcount hprefix hm
    have hlt := critOf_lt p
    have hsame := congrArg Int64.toInt (hovf.symm.trans hnothing)
    rw [Int64.toInt_ofNat_of_lt (by omega), show (0 : Int64) = Int64.ofNat 0 from rfl,
      Int64.toInt_ofNat_of_lt (by omega)] at hsame
    omega
  have hle := overflowsIn_window cpu kind h hprefix hm first y
  have hold := hclean y
  unfold overflowsIn at hle hold hempty ⊢
  rw [List.countP_append, List.countP_cons, hold]
  simp only [Tick.counts, Bool.false_eq_true, if_false]
  omega

end Clean

/-- From a run on before which nothing is as late as the first one, a critical run follows. -/
theorem clean_run_seen (h : Started p s) (hcrit : 1 ≤ critOf p) (hwindow : windowMs p ≤ 1000)
    (hticks : Along tickStep s ticks (OnSchedule p)) (hcount : s.st.counting cpu kind = true)
    {start : Nat} (first : Nat) (hlow : start ≤ first) (hhigh : first ≤ start + windowNs p)
    (hund : NoForeignDrain p cpu kind s ticks start)
    (hcover : start + 2 * windowNs p < lastRun (exec tickStep s ticks))
    (hrate : Sustained p cpu kind start ticks) {pre post : List Tick} {t : UInt64}
    (hsplit : ticks = pre ++ .sample t :: post) (hfirst : first ≤ t.toNat)
    (hsoon : t.toNat < first + windowNs p) (hclean : ∀ y, overflowsIn cpu kind first y pre = 0) :
    SeenCritical p cpu kind start (tickLog s ticks) := by
  induction hlen : post.length using Nat.strongRecOn generalizing pre post t with
  | ind len ih =>
  rcases first_sample post with hnone | ⟨m, t', r, rfl, hm⟩
  · rw [hsplit, lastRun_between s pre t hnone] at hcover
    omega
  have hsplit' : ticks = (pre ++ .sample t :: m) ++ .sample t' :: r := by simp [hsplit]
  have hwin := inWindow_run h.window (Along.left (hsplit' ▸ hticks))
  have hk' := hticks _ _ _ hsplit'
  have hlast := lastRun_between s pre t hm
  have hle := hwin.sample_le hk'
  rw [hlast] at hle
  by_cases hwoken : (exec tickStep s (pre ++ .sample t :: m)).woken = true
  · have hge : t.toNat ≤ t'.toNat := by
      have hnow := Nat.le_trans hwin.last (hwin.time_le hk')
      rwa [hlast] at hnow
    obtain hrun | hnothing := woken_run_drained h hcrit hwindow hticks hcount hund hsplit' hwoken
      (by omega) (by omega)
    · exact hrun.seen (by omega) (by omega)
    have hclean' := clean_step hsplit' hclean h hcrit hticks hcount hm hnothing
    have hsoon' := clean_soon hsplit' h hcrit hticks hlow hhigh hrate
      (hclean' (first + windowNs p))
    refine ih r.length ?_ hsplit' (by omega) hsoon' hclean' rfl
    rw [← hlen, List.length_append, List.length_cons]
    omega
  · have ht' : t'.toNat = t.toNat + windowNs p := by
      change (if _ then _ else _) at hk'
      rw [if_neg hwoken, hlast] at hk'
      exact hk'
    have hbefore : overflowsIn cpu kind t.toNat (t.toNat + windowNs p) pre = 0 := by
      refine Nat.le_zero.mp (Nat.le_trans ?_ (Nat.le_of_eq (hclean (t.toNat + windowNs p))))
      refine List.countP_mono_left fun k _ hc => ?_
      cases k with
      | sample t => exact hc
      | overflow t₀ c kd busy user =>
          simp only [Tick.counts, Bool.and_eq_true, decide_eq_true_eq] at hc ⊢
          exact ⟨⟨hc.1.1, by omega⟩, hc.2⟩
    have hrun := timer_run_critical h hcrit hticks hcount hsplit' hbefore hm ht'
      (hrate t.toNat (by omega) (by omega))
    exact hrun.seen (by omega) (by omega)

/-- A stretch in which no foreign wake-up drains anything of the counter has a critical run. -/
theorem undrained_critical (h : Started p s) (hcrit : 1 ≤ critOf p) (hwindow : windowMs p ≤ 1000)
    (hticks : Along tickStep s ticks (OnSchedule p)) (hcount : s.st.counting cpu kind = true)
    {start : Nat} (hstart : lastRun s ≤ start) (hund : NoForeignDrain p cpu kind s ticks start)
    (hcover : start + 2 * windowNs p < lastRun (exec tickStep s ticks))
    (hrate : Sustained p cpu kind start ticks) :
    SeenCritical p cpu kind start (tickLog s ticks) := by
  have hns : 0 < windowNs p := by
    have hpos := windowMs_pos p
    unfold windowNs
    omega
  obtain ⟨pre, t, post, hsplit, hpre, hlate⟩ := first_run_after hstart
    (show start < lastRun (exec tickStep s ticks) by omega)
  have hprefix : Along tickStep s pre (OnSchedule p) := Along.left (hsplit ▸ hticks)
  have hk := hticks pre (.sample t) post hsplit
  have hle := (inWindow_run h.window hprefix).sample_le hk
  have hgoOn : (∀ y, overflowsIn cpu kind t.toNat y pre = 0) →
      SeenCritical p cpu kind start (tickLog s ticks) := fun hclean =>
    clean_run_seen h hcrit hwindow hticks hcount t.toNat (by omega) (by omega) hund hcover hrate
      hsplit (Nat.le_refl _) (by omega) hclean
  by_cases hwoken : (exec tickStep s pre).woken = true
  · obtain hrun | hnothing := woken_run_drained h hcrit hwindow hticks hcount hund hsplit hwoken
      (by omega) (by omega)
    · exact hrun.seen (by omega) (by omega)
    · exact hgoOn fun y => counted_by_last h hcrit hprefix hcount hnothing (by omega) y
  · have ht : t.toNat = lastRun (exec tickStep s pre) + windowNs p := by
      change (if _ then _ else _) at hk
      rwa [if_neg hwoken] at hk
    exact hgoOn (before_timer_run cpu kind h hprefix ht)

/-! ### The threshold and the window

Both ends of the range are outside of the argument above: with a threshold of zero
there is nothing to reach, and with a window above a second the division makes the
threshold unreachable.
-/

/-- With a threshold of zero every run is critical. -/
theorem zero_crit_critical (h : Started p s) (hcrit : critOf p = 0)
    (hticks : Along tickStep s ticks (OnSchedule p)) (hcount : s.st.counting cpu kind = true)
    {start : Nat} (hstart : lastRun s ≤ start)
    (hcover : start + 2 * windowNs p < lastRun (exec tickStep s ticks)) :
    SeenCritical p cpu kind start (tickLog s ticks) := by
  obtain ⟨pre, t, post, hsplit, hbefore, hlow⟩ := first_run_after hstart
    (show start < lastRun (exec tickStep s ticks) by omega)
  have hwin := inWindow_run h.window (Along.left (hsplit ▸ hticks))
  have htle := hwin.sample_le (hticks pre (.sample t) post hsplit)
  have hcount' : (exec tickStep s pre).st.counting cpu kind = true := by
    rw [counting_run]
    exact hcount
  obtain ⟨j, hj, hcpu, hkind⟩ := sample_judges hcount' t
  have hfrom := judged_facts hj
  have hrun : CriticalRun cpu kind t (pmuEvents (exec tickStep s pre).st (.sample t)) := by
    refine ⟨j, hj, hcpu, hkind, (PmuOp.sample.inj hfrom.op).symm, ?_⟩
    unfold PmuJudged.lvl
    rw [kgPmuLevel_critical_iff, hfrom.params, hwin.params, hcrit]
    exact Nat.zero_le _
  exact (hrun.mem_log hsplit).seen (by omega) (by omega)

/-- With a window above a second no run is ever critical. -/
theorem long_window_never_critical (h : Started p s) (hcrit : 1 ≤ critOf p)
    (hwindow : 1000 < windowMs p) (hticks : Along tickStep s ticks (OnSchedule p))
    {j : PmuJudged} (hj : .judged j ∈ tickLog s ticks) : j.lvl ≠ kgLevelCritical := by
  obtain ⟨pre, k, post, hsplit, hj⟩ := mem_outputs.mp hj
  have hpre : Along tickStep s pre (OnSchedule p) := Along.left (hsplit ▸ hticks)
  have hk := hticks pre k post hsplit
  have hfrom := judged_facts hj
  cases k with
  | overflow t c kd busy user => exact absurd hfrom.op nofun
  | sample t =>
      obtain ⟨n, hn, hle, -⟩ := h.below hcrit hpre j.cpu j.kind hfrom.counting
      have hmax := critOf_lt p
      rw [ne_eq, judged_critical_iff (inWindow_run h.window hpre) hk hj hn (by omega), Nat.not_le,
        Nat.div_lt_iff_lt_mul (by omega)]
      calc n * 1000 ≤ critOf p * 1000 := Nat.mul_le_mul_right _ hle
        _ < critOf p * windowMs p := Nat.mul_lt_mul_of_pos_left hwindow hcrit

end Stretch

/-- The detector right after `kg_pmu_init` at `boot`. -/
def bootClock (p : KgPmuParams) (topo : Topology) (boot : UInt64) (created : Nat → KgEv → Bool) :
    Clocked :=
  ⟨⟨topo, kgPmuInit p topo boot created⟩, boot, false⟩

theorem bootClock_started (p : KgPmuParams) (topo : Topology) (boot : UInt64)
    (created : Nat → KgEv → Bool) : Started p (bootClock p topo boot created) := by
  refine ⟨⟨rfl, rfl, Nat.le_refl _, Nat.le_add_right _ _⟩, rfl, ?_⟩
  intro cpu kind
  exact kgPmuInit_counted p topo boot created cpu kind

/-- **A sustained rate is seen as critical** when the window is at most a second and two windows
of the stretch pass without a wake-up by another counter, or no such wake-up in the stretch drains
anything of this one.  With a longer window it never is. -/
theorem sustained_rate_seen (p : KgPmuParams) (topo : Topology) (boot : UInt64)
    (created : Nat → KgEv → Bool) (ticks : List Tick)
    (hticks : Along tickStep (bootClock p topo boot created) ticks (OnSchedule p)) (cpu : Nat)
    (kind : KgEv) (hcount : (bootClock p topo boot created).st.counting cpu kind = true)
    (start : Nat) (hstart : boot.toNat ≤ start)
    (hcover : start + 2 * windowNs p
      < lastRun (exec tickStep (bootClock p topo boot created) ticks))
    (hrate : Sustained p cpu kind start ticks) :
    (critOf p = 0 ∨ (windowMs p ≤ 1000 ∧
        LeftToItself p cpu kind (bootClock p topo boot created) ticks start) →
      SeenCritical p cpu kind start (tickLog (bootClock p topo boot created) ticks)) ∧
    (critOf p ≠ 0 → 1000 < windowMs p →
      ¬ SeenCritical p cpu kind start (tickLog (bootClock p topo boot created) ticks)) := by
  have hboot := bootClock_started p topo boot created
  constructor
  · intro hcond
    by_cases hzero : critOf p = 0
    · exact zero_crit_critical hboot hzero hticks hcount hstart hcover
    · have hcrit := Nat.one_le_iff_ne_zero.mpr hzero
      rcases hcond with hcond | ⟨hwindow, ⟨y, hlow, hhigh, hund⟩ | hund⟩
      · exact absurd hcond hzero
      · exact stretch_critical hboot hcrit hwindow hticks hcount (Nat.le_trans hstart hlow) hlow
          hhigh hund hcover hrate
      · exact undrained_critical hboot hcrit hwindow hticks hcount hstart hund hcover hrate
  · intro hcrit hwindow hseen
    obtain ⟨j, hj, -, -, -, -, hlvl⟩ := hseen
    exact long_window_never_critical hboot (Nat.one_le_iff_ne_zero.mpr hcrit) hwindow hticks hj hlvl

instance (p : KgPmuParams) (s : Clocked) : ∀ k : Tick, Decidable (OnSchedule p s k)
  | .overflow t _ _ _ _ =>
      inferInstanceAs (Decidable (s.woken = false ∧ s.now ≤ t ∧ t.toNat < lastRun s + windowNs p))
  | .sample t =>
      inferInstanceAs (Decidable (if s.woken then t = s.now else t.toNat = lastRun s + windowNs p))

/-- An L1D miss on CPU 0, in milliseconds. -/
def missAt (ms : UInt64) : Tick := .overflow (ms * 1000000) 0 .l1d false none

def runAt (ms : UInt64) : Tick := .sample (ms * 1000000)

theorem counts_missAt {ms : UInt64} {n x y : Nat} (htime : (ms * 1000000).toNat = n)
    (hx : x ≤ n) (hy : n < y) : Tick.counts 0 .l1d x y (missAt ms) = true := by
  unfold missAt Tick.counts
  simp only [beq_self_eq_true, Bool.not_false, Bool.true_and, Bool.and_eq_true, decide_eq_true_eq,
    htime]
  exact ⟨hx, hy⟩

/-- One overflow in the middle of each of three windows of 100 ms. -/
def steadyMisses : List Tick := [missAt 50, runAt 100, missAt 150, runAt 200, missAt 250, runAt 300]

theorem sustained_rate_seen_steady :
    SeenCritical ⟨100, 1, 2⟩ 0 .l1d 0
      (tickLog (bootClock ⟨100, 1, 2⟩ oneCpu 0 fun _ _ => true) steadyMisses) := by
  have hrate : Sustained ⟨100, 1, 2⟩ 0 .l1d 0 steadyMisses := by
    intro x _ hx
    have hw : windowNs ⟨100, 1, 2⟩ = 100000000 := by decide
    have hneed : (critOf ⟨100, 1, 2⟩ * windowMs ⟨100, 1, 2⟩ + 999) / 1000 = 1 := by decide
    rw [hw] at hx ⊢
    rw [hneed]
    refine List.countP_pos_iff.mpr ?_
    by_cases h₁ : x ≤ 50000000
    · exact ⟨missAt 50, by simp [steadyMisses], counts_missAt (by decide) h₁ (by omega)⟩
    · by_cases h₂ : x ≤ 150000000
      · exact ⟨missAt 150, by simp [steadyMisses], counts_missAt (by decide) h₂ (by omega)⟩
      · exact ⟨missAt 250, by simp [steadyMisses],
          counts_missAt (n := 250000000) (by decide) (by omega) (by omega)⟩
  refine (sustained_rate_seen ⟨100, 1, 2⟩ oneCpu 0 (fun _ _ => true) steadyMisses
    (by decide +kernel) 0 .l1d (by decide) 0 (by decide) (by decide +kernel) hrate).1
    (Or.inr ⟨by decide, .inl ⟨0, Nat.le_refl _, Nat.le_add_right _ _, ?_⟩⟩)
  intro pre t c k busy user post hsplit _ _ _
  have hmem : Tick.overflow t c k busy user ∈ steadyMisses := by simp [hsplit]
  simp only [steadyMisses, missAt, runAt, List.mem_cons, List.not_mem_nil, Tick.overflow.injEq,
    reduceCtorEq, or_false, false_or] at hmem
  rcases hmem with h | h | h
  · exact ⟨h.2.1, h.2.2.1⟩
  · exact ⟨h.2.1, h.2.2.1⟩
  · exact ⟨h.2.1, h.2.2.1⟩

/-- Four misses within 3 ms, each second one of which wakes the sampler. -/
def volley (ms : UInt64) : List Tick :=
  [missAt ms, missAt (ms + 1), runAt (ms + 1), missAt (ms + 2), missAt (ms + 3), runAt (ms + 3)]

theorem volley_counts {m : UInt64} {n x y : Nat} (h₀ : (m * 1000000).toNat = n)
    (h₁ : ((m + 1) * 1000000).toNat = n + 1000000) (h₂ : ((m + 2) * 1000000).toNat = n + 2000000)
    (h₃ : ((m + 3) * 1000000).toNat = n + 3000000) (hx : x ≤ n) (hy : n + 3000000 < y) :
    4 ≤ (volley m).countP (Tick.counts 0 .l1d x y) := by
  have c₀ := counts_missAt h₀ hx (show n < y by omega)
  have c₁ := counts_missAt h₁ (show x ≤ n + 1000000 by omega) (show n + 1000000 < y by omega)
  have c₂ := counts_missAt h₂ (show x ≤ n + 2000000 by omega) (show n + 2000000 < y by omega)
  have c₃ := counts_missAt h₃ (show x ≤ n + 3000000 by omega) hy
  simp only [volley, List.countP_cons, List.countP_nil, c₀, c₁, c₂, c₃, if_true]
  omega

/-- With `pmu_window_ms=2000 pmu_warn=1 pmu_crit=2`: four misses in every two seconds, and each
run that is woken by the second of them divides by the whole window. -/
def volleys : List Tick := volley 1000 ++ volley 2900 ++ volley 4800

theorem long_window_misses_rate :
    ¬ ∀ (p : KgPmuParams) (ticks : List Tick),
      Along tickStep (bootClock p oneCpu 0 fun _ _ => true) ticks (OnSchedule p) →
      ∀ (cpu : Nat) (kind : KgEv) (start : Nat),
        (bootClock p oneCpu 0 fun _ _ => true).st.counting cpu kind = true →
        start + 2 * windowNs p < lastRun (exec tickStep (bootClock p oneCpu 0 fun _ _ => true) ticks) →
        Sustained p cpu kind start ticks →
        SeenCritical p cpu kind start (tickLog (bootClock p oneCpu 0 fun _ _ => true) ticks) := by
  intro h
  have hticks : Along tickStep (bootClock ⟨2000, 1, 2⟩ oneCpu 0 fun _ _ => true) volleys
      (OnSchedule ⟨2000, 1, 2⟩) := by decide +kernel
  have hrate : Sustained ⟨2000, 1, 2⟩ 0 .l1d 0 volleys := by
    intro x _ hx
    have hw : windowNs ⟨2000, 1, 2⟩ = 2000000000 := by decide
    have hneed : (critOf ⟨2000, 1, 2⟩ * windowMs ⟨2000, 1, 2⟩ + 999) / 1000 = 4 := by decide
    rw [hw] at hx ⊢
    rw [hneed]
    unfold overflowsIn volleys
    rw [List.countP_append, List.countP_append]
    by_cases h₁ : x ≤ 1000000000
    · have hfour := volley_counts (x := x) (y := x + 2000000000) (m := 1000) (n := 1000000000)
        (by decide) (by decide) (by decide) (by decide) h₁ (by omega)
      omega
    · by_cases h₂ : x ≤ 2900000000
      · have hfour := volley_counts (x := x) (y := x + 2000000000) (m := 2900) (n := 2900000000)
          (by decide) (by decide) (by decide) (by decide) h₂ (by omega)
        omega
      · have hfour := volley_counts (x := x) (y := x + 2000000000) (m := 4800) (n := 4800000000)
          (by decide) (by decide) (by decide) (by decide) (by omega) (by omega)
        omega
  obtain ⟨j, hj, -, -, -, -, hlvl⟩ := h ⟨2000, 1, 2⟩ volleys hticks 0 .l1d 0 (by decide)
    (by decide +kernel) hrate
  exact long_window_never_critical (bootClock_started _ _ _ _) (by decide) (by decide) hticks hj hlvl

end KernelGuard
