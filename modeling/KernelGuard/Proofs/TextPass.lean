/-
What one pass over a region does with the differences it finds.

The loops of `kg_chunk_check` find the clusters of the differing bytes in the chunk
(`chunkLoop_spans`), so a pass is a list of spans handled one after the other.  The
lists of the chunks fit together: a run that starts in the overlap is left to the next
chunk, and what a run that starts before it has taken of the overlap is equal by then.
Every differing byte is therefore handled once, whatever the chunks cut in two.
-/
import KernelGuard.Lib.Clusters
import KernelGuard.Model.TextPatch

namespace KernelGuard

open Clusters

/-! ### Finding a run

A run is a cluster of the library: it begins at a differing byte and ends before
four that agree, or with the chunk.  The two loops are compared with the library's
definition once, and are not met again.
-/

section Runs

variable {cur old : Nat → UInt8} {n : Nat}

theorem skipEqual_spec (cur old : Nat → UInt8) (fuel : Nat) {i : Nat} (hfuel : n ≤ i + fuel)
    (hi : i ≤ n) :
    i ≤ kgSkipEqual cur old n fuel i ∧ kgSkipEqual cur old n fuel i ≤ n ∧
    (∀ q, i ≤ q → q < kgSkipEqual cur old n fuel i → cur q = old q) ∧
    (kgSkipEqual cur old n fuel i < n →
      cur (kgSkipEqual cur old n fuel i) ≠ old (kgSkipEqual cur old n fuel i)) := by
  induction fuel generalizing i with
  | zero =>
      simp only [kgSkipEqual]
      exact ⟨Nat.le_refl i, hi, by omega, by omega⟩
  | succ fuel ih =>
      rw [kgSkipEqual]
      by_cases h : i < n ∧ cur i = old i
      · rw [if_pos h]
        obtain ⟨hle, hn, hskip, hstop⟩ := ih (i := i + 1) (by omega) (by omega)
        refine ⟨by omega, hn, ?_, hstop⟩
        intro q hq hlt
        rcases Nat.eq_or_lt_of_le hq with rfl | hgt
        · exact h.2
        · exact hskip q hgt hlt
      · rw [if_neg h]
        refine ⟨Nat.le_refl i, hi, by omega, ?_⟩
        intro hlt heq
        exact h ⟨hlt, heq⟩

/-- The loop that grows a run stops at the end of the chunk, or when four bytes agree. -/
theorem growRun_stop {j re gap lo : Nat} (hend : ¬ (j < n ∧ gap ≤ 3)) (hj : j = re + gap)
    (hjn : j ≤ n) (hclear : ∀ q, re ≤ q → q < j → cur q = old q)
    (hlo : cur lo ≠ old lo) (hlt : lo < re)
    (hdense : ∀ p, lo ≤ p → p + 1 < re → ∃ q, p < q ∧ q ≤ p + 4 ∧ q < re ∧ cur q ≠ old q) :
    IsCluster (fun k => cur k ≠ old k) 4 n ⟨lo, re⟩ := by
  refine ⟨hlo, hlt, by simp only; omega, hdense, ?_⟩
  intro q hq hnear hqn
  simp only at hq hnear
  exact not_not_intro (hclear q hq (by omega))

/--
The run `[lo, re)` so far is dense and the `gap` bytes behind it agree; the loop ends with
the cluster that opens at `lo`.
-/
theorem growRun_spec {fuel j re gap lo : Nat} (hfuel : n ≤ j + fuel) (hj : j = re + gap)
    (hjn : j ≤ n) (hclear : ∀ q, re ≤ q → q < j → cur q = old q)
    (hlo : cur lo ≠ old lo) (hlt : lo < re)
    (hdense : ∀ p, lo ≤ p → p + 1 < re → ∃ q, p < q ∧ q ≤ p + 4 ∧ q < re ∧ cur q ≠ old q) :
    IsCluster (fun k => cur k ≠ old k) 4 n ⟨lo, kgGrowRun cur old n fuel j re gap⟩ := by
  induction fuel generalizing j re gap with
  | zero => exact growRun_stop (by omega) hj hjn hclear hlo hlt hdense
  | succ fuel ih =>
      rw [kgGrowRun]
      by_cases h : j < n ∧ gap ≤ 3
      · rw [if_pos h]
        by_cases hd : cur j ≠ old j
        · -- the run reaches `j`: whatever lies between is at most four bytes from it
          rw [if_pos hd]
          refine ih (by omega) rfl (by omega) (by omega) (by omega) ?_
          intro p hp hin
          rcases Nat.lt_or_ge (p + 1) re with hold | hnew
          · obtain ⟨q, hgt, hnear, hq, hdq⟩ := hdense p hp hold
            exact ⟨q, hgt, hnear, by omega, hdq⟩
          · exact ⟨j, by omega, by omega, by omega, hd⟩
        · rw [if_neg hd]
          refine ih (by omega) (by omega) (by omega) ?_ hlt hdense
          intro q hq hlt'
          rcases Nat.eq_or_lt_of_le (Nat.le_of_lt_succ hlt') with rfl | hlow
          · exact not_not.mp hd
          · exact hclear q hq hlow
      · rw [if_neg h]
        exact growRun_stop h hj hjn hclear hlo hlt hdense

/-- The run that opens at a differing byte. -/
theorem growRun_cluster (cur old : Nat → UInt8) {lo : Nat} (hlo : cur lo ≠ old lo) (hlt : lo < n) :
    IsCluster (fun k => cur k ≠ old k) 4 n
      ⟨lo, kgGrowRun cur old n (n - (lo + 1)) (lo + 1) (lo + 1) 0⟩ :=
  growRun_spec (by omega) rfl (by omega) (by omega) hlo (by omega) (by omega)

end Runs

/-! ### Handling the runs

Handling a run copies its bytes and judges them, so a pass over a list of spans is a
fold, of which the copy, the alerts and the list of handled runs are followed one by
one.
-/

/-- The state before a pass over `r`. -/
def TextRegion.pass (r : TextRegion) : TextPass := ⟨r, 0, 0, [], []⟩

/-- The live text differs from the copy there. -/
def Differs (live : Nat → UInt8) (t : TextPass) (p : Nat) : Prop := live p ≠ t.region.copy p

/-- `kg_handle_run` for one span after the other, with the new bytes taken from `live`. -/
def handleSpans (m : CodeMap) (live : Nat → UInt8) (l : List Span) (t : TextPass) : TextPass :=
  l.foldl (fun t s => kgHandleRun m s.lo s.hi (fun k => live (s.lo + k)) t) t

section Handle

variable (m : CodeMap) (live : Nat → UInt8)

@[simp] theorem kgHandleRun_extent (rs re : Nat) (newb : Nat → UInt8) (t : TextPass) :
    (kgHandleRun m rs re newb t).region.toTextExtent = t.region.toTextExtent := rfl

theorem kgHandleRun_copy (s : Span) (t : TextPass) (p : Nat) :
    (kgHandleRun m s.lo s.hi (fun k => live (s.lo + k)) t).region.copy p =
      if s.Has p then live p else t.region.copy p := by
  show (if s.Has p then live (s.lo + (p - s.lo)) else t.region.copy p) = _
  by_cases h : s.Has p
  · rw [if_pos h, if_pos h, Nat.add_sub_cancel' h.1]
  · rw [if_neg h, if_neg h]

theorem kgHandleRun_handled (rs re : Nat) (newb : Nat → UInt8) (t : TextPass) :
    (kgHandleRun m rs re newb t).handled =
      t.handled ++ [⟨rs, re, (kgClassify m t.region rs re newb).v⟩] := rfl

/-- What `kg_handle_run` reports of a run. -/
def runAlerts (r : TextRegion) (rs re : Nat) (newb : Nat → UInt8) : List Alert :=
  (kgReportRun rs re (kgClassify m r rs re newb) r.pass).alerts

theorem runAlerts_benign {r : TextRegion} {rs re : Nat} {newb : Nat → UInt8}
    (h : (kgClassify m r rs re newb).v = .benign) : runAlerts m r rs re newb = [] := by
  rw [runAlerts, kgReportRun, h]
  rfl

theorem runAlerts_critical {r : TextRegion} {rs re : Nat} {newb : Nat → UInt8}
    (h : (kgClassify m r rs re newb).v = .critical) :
    ∃ a ∈ runAlerts m r rs re newb, a.type = kgAlertTextPatch ∧ a.level = kgLevelCritical := by
  rw [runAlerts, kgReportRun, h]
  exact ⟨_, List.mem_singleton_self _, rfl, rfl⟩

theorem kgHandleRun_alerts (rs re : Nat) (newb : Nat → UInt8) (t : TextPass) :
    (kgHandleRun m rs re newb t).alerts = t.alerts ++ runAlerts m t.region rs re newb := by
  show (kgReportRun rs re (kgClassify m t.region rs re newb) t).alerts = _
  rw [runAlerts, kgReportRun, kgReportRun]
  split <;> simp [TextRegion.pass]

@[simp] theorem handleSpans_nil (t : TextPass) : handleSpans m live [] t = t := rfl

@[simp] theorem handleSpans_cons (s : Span) (l : List Span) (t : TextPass) :
    handleSpans m live (s :: l) t =
      handleSpans m live l (kgHandleRun m s.lo s.hi (fun k => live (s.lo + k)) t) := rfl

theorem handleSpans_append (l l' : List Span) (t : TextPass) :
    handleSpans m live (l ++ l') t = handleSpans m live l' (handleSpans m live l t) :=
  List.foldl_append

@[simp] theorem handleSpans_extent (l : List Span) (t : TextPass) :
    (handleSpans m live l t).region.toTextExtent = t.region.toTextExtent := by
  induction l generalizing t with
  | nil => rfl
  | cons s l ih => rw [handleSpans_cons, ih, kgHandleRun_extent]

@[simp] theorem handleSpans_size (l : List Span) (t : TextPass) :
    (handleSpans m live l t).region.size = t.region.size := by
  rw [handleSpans_extent]

/-- The new bytes have become the copy inside the spans, and nothing else has changed. -/
theorem handleSpans_copy (l : List Span) (t : TextPass) (p : Nat) :
    (handleSpans m live l t).region.copy p =
      if ∃ s ∈ l, s.Has p then live p else t.region.copy p := by
  induction l generalizing t with
  | nil => simp
  | cons s l ih =>
      rw [handleSpans_cons, ih, kgHandleRun_copy]
      by_cases hl : ∃ s ∈ l, s.Has p
      · have hcons : ∃ u ∈ s :: l, u.Has p := by
          obtain ⟨u, hu, hp⟩ := hl
          exact ⟨u, List.mem_cons_of_mem _ hu, hp⟩
        rw [if_pos hl, if_pos hcons]
      · by_cases hs : s.Has p
        · rw [if_neg hl, if_pos hs, if_pos ⟨s, List.mem_cons_self, hs⟩]
        · have hcons : ¬ ∃ u ∈ s :: l, u.Has p := by
            rintro ⟨u, hu, hp⟩
            rcases List.mem_cons.mp hu with rfl | hu
            · exact hs hp
            · exact hl ⟨u, hu, hp⟩
          rw [if_neg hl, if_neg hs, if_neg hcons]

/-- Alerts are only added. -/
theorem handleSpans_alerts (l : List Span) (t : TextPass) :
    ∃ more, (handleSpans m live l t).alerts = t.alerts ++ more := by
  induction l generalizing t with
  | nil => exact ⟨[], by simp⟩
  | cons s l ih =>
      obtain ⟨more, hmore⟩ := ih (kgHandleRun m s.lo s.hi (fun k => live (s.lo + k)) t)
      rw [handleSpans_cons, hmore, kgHandleRun_alerts, List.append_assoc]
      exact ⟨_, rfl⟩

/-- The runs that were handled are the spans, in their order. -/
theorem handleSpans_handled (l : List Span) (t : TextPass) :
    ∃ runs, (handleSpans m live l t).handled = t.handled ++ runs ∧
      runs.map (fun h => Span.mk h.rs h.re) = l := by
  induction l generalizing t with
  | nil => exact ⟨[], by simp, rfl⟩
  | cons s l ih =>
      obtain ⟨runs, hruns, hmap⟩ := ih (kgHandleRun m s.lo s.hi (fun k => live (s.lo + k)) t)
      rw [handleSpans_cons, hruns, kgHandleRun_handled, List.append_assoc]
      exact ⟨_, rfl, by simp [hmap]⟩

end Handle

/-! ### One chunk

The live text is the same at every read of the pass; that is what the theorem
assumes.  With it the loop finds the clusters of the text as it was, although it
changes the copy while it goes.
-/

section Pass

variable {m : CodeMap} {live : Nat → UInt8}

/-- A run that has been handled leaves what lies behind it as it was. -/
theorem differs_handleRun {s : Span} {t : TextPass} {q : Nat} (hq : s.hi ≤ q) :
    Differs live t q ↔
      Differs live (kgHandleRun m s.lo s.hi (fun k => live (s.lo + k)) t) q := by
  have hout : ¬ s.Has q := fun hhas => by
    have := hhas.2
    omega
  rw [Differs, Differs, kgHandleRun_copy, if_neg hout]

/-- The bytes that are skipped do not differ. -/
theorem skipEqual_none (live : Nat → UInt8) (off : Nat) (t : TextPass) {i rs : Nat}
    (hskip : ∀ q, i ≤ q → q < rs → live (off + q) = t.region.copy (off + q)) (q : Nat)
    (hq : off + i ≤ q) (hlt : q < off + rs) : ¬ Differs live t q := by
  have heq := hskip (q - off) (by omega) (by omega)
  rw [Nat.add_sub_cancel' (by omega : off ≤ q)] at heq
  exact not_not_intro heq

/-- The run that opens behind them is a cluster. -/
theorem growRun_differs (live : Nat → UInt8) (off : Nat) {n : Nat} (t : TextPass) {rs : Nat}
    (hdiff : live (off + rs) ≠ t.region.copy (off + rs)) (hrs : rs < n) :
    IsCluster (Differs live t) 4 (off + n) ⟨off + rs, off +
      kgGrowRun (fun k => live (off + k)) (fun k => t.region.copy (off + k)) n (n - (rs + 1))
        (rs + 1) (rs + 1) 0⟩ :=
  (growRun_cluster (fun k => live (off + k)) (fun k => t.region.copy (off + k)) hdiff hrs).shift
    (d := Differs live t)

/--
The loop of `kg_chunk_check` over a text that does not change: it finds the clusters of
the chunk, and handles those that do not start in the overlap.
-/
theorem chunkLoop_spans (m : CodeMap) (live : Nat → UInt8) (off n fuel : Nat) {i : Nat}
    (t : TextPass) (hfuel : n ≤ i + fuel) (hi : i ≤ n) :
    ∃ l, Split (Differs live t) 4 (off + n) (off + i) l ∧
      kgChunkLoop m off n (fun k => live (off + k)) fuel i t =
        handleSpans m live
          (l.filter fun s => s.lo < off + kgChunk ∨ off + n ≥ t.region.size) t := by
  induction fuel generalizing i t with
  | zero =>
      refine ⟨[], .nil ?_, rfl⟩
      intro q hq hlt
      omega
  | succ fuel ih =>
      obtain ⟨hge, hle, hskip, hstop⟩ := skipEqual_spec (fun k => live (off + k))
        (fun k => t.region.copy (off + k)) (n - i) (by omega) hi
      rw [kgChunkLoop]
      generalize kgSkipEqual (fun k => live (off + k)) (fun k => t.region.copy (off + k)) n
        (n - i) i = rs at hge hle hskip hstop ⊢
      have hnone := skipEqual_none live off t hskip
      by_cases hend : rs ≥ n
      · refine ⟨[], .nil ?_, ?_⟩
        · intro q hq hlt
          exact hnone q hq (by omega)
        · simp only [hend, ↓reduceIte, List.filter_nil, handleSpans_nil]
      · have hdiff := hstop (by omega)
        have hrs : rs < n := by omega
        have hcl := growRun_differs live off t hdiff hrs
        simp only [if_neg hend]
        generalize kgGrowRun (fun k => live (off + k)) (fun k => t.region.copy (off + k)) n
          (n - (rs + 1)) (rs + 1) (rs + 1) 0 = re at hcl ⊢
        have hre : re ≤ n := Nat.le_of_add_le_add_left hcl.le
        have hlt : rs < re := Nat.lt_of_add_lt_add_left hcl.lt
        have hnew : (fun k => live (off + (rs + k))) = fun k => live (off + rs + k) := by
          funext k
          rw [Nat.add_assoc]
        rw [hnew]
        by_cases hhere : rs < kgChunk ∨ off + n ≥ t.region.size
        · -- the run is handled, and the bytes behind it are as they were
          rw [if_pos hhere]
          obtain ⟨l, hl, hloop⟩ := ih (i := re)
            (kgHandleRun m (off + rs) (off + re) (fun k => live (off + rs + k)) t)
            (by omega) hre
          refine ⟨⟨off + rs, off + re⟩ :: l, .cons (by simp only; omega) hnone hcl ?_, ?_⟩
          · refine hl.congr ?_
            intro q hq hqn
            exact (differs_handleRun (s := ⟨off + rs, off + re⟩) hq).symm
          · rw [hloop, List.filter_cons_of_pos]
            · rfl
            · simp only [decide_eq_true_eq]
              omega
        · rw [if_neg hhere]
          obtain ⟨l, hl, hloop⟩ := ih (i := re) t (by omega) hre
          refine ⟨⟨off + rs, off + re⟩ :: l, .cons (by simp only; omega) hnone hcl hl, ?_⟩
          rw [hloop, List.filter_cons_of_neg]
          simp only [decide_eq_true_eq]
          omega

/-- The live text stays the same during the pass. -/
def stableReads (live : Nat → UInt8) : ChunkReads := ⟨live, live, live⟩

theorem chunkCheck_stable (off n : Nat) (t : TextPass) :
    kgChunkCheck m off n (stableReads live) t =
      kgChunkLoop m off n (fun k => live (off + k)) n 0 t := by
  simp [kgChunkCheck, stableReads]

/-- What a chunk handles of the clusters it finds. -/
def chunkSpans (off n size : Nat) (l : List Span) : List Span :=
  if size ≤ off + n then l else before (off + kgChunk) l

theorem chunkCheck_spans (m : CodeMap) (live : Nat → UInt8) (off n : Nat) (t : TextPass) :
    ∃ l, Split (Differs live t) 4 (off + n) off l ∧
      kgChunkCheck m off n (stableReads live) t =
        handleSpans m live (chunkSpans off n t.region.size l) t := by
  obtain ⟨l, hl, hloop⟩ := chunkLoop_spans m live off n n t (Nat.le_add_left n 0) (Nat.zero_le n)
  refine ⟨l, hl, ?_⟩
  rw [chunkCheck_stable, hloop, chunkSpans]
  by_cases hend : t.region.size ≤ off + n
  · rw [if_pos hend, List.filter_eq_self.mpr]
    intro s _
    simpa using Or.inr hend
  · rw [if_neg hend, before]
    congr 1
    refine List.filter_congr ?_
    intro s _
    simp only [decide_eq_decide]
    omega

/-- A chunk that compares equal has nothing to handle, so the comparison only saves time. -/
theorem chunk_spans (m : CodeMap) (live : Nat → UInt8) (off n : Nat) (t : TextPass) :
    ∃ l, Split (Differs live t) 4 (off + n) off l ∧
      (if ∀ i < n, (stableReads live).compared (off + i) = t.region.copy (off + i) then t
        else kgChunkCheck m off n (stableReads live) t) =
        handleSpans m live (chunkSpans off n t.region.size l) t := by
  by_cases hsame : ∀ i < n, (stableReads live).compared (off + i) = t.region.copy (off + i)
  · rw [if_pos hsame]
    refine ⟨[], .nil ?_, ?_⟩
    · intro q hq hlt
      have heq := hsame (q - off) (by omega)
      rw [Nat.add_sub_cancel' hq] at heq
      exact not_not_intro heq
    · rw [chunkSpans, before, List.filter_nil, ite_self, handleSpans_nil]
  · rw [if_neg hsame]
    exact chunkCheck_spans m live off n t

/-! ### The whole region

The invariant of the loop over the chunks is how far the region is settled: up to
this place the copy is the live text, and every difference below it was in exactly
one of the runs.
-/

/-- Handling the spans that cover `[i, j)` settles that part and leaves the rest alone. -/
theorem differs_handled {i j : Nat} {l : List Span} {t : TextPass}
    (hcov : Covers (Differs live t) j i l) {q : Nat} (hi : i ≤ q) (hj : q < j) :
    ¬ Differs live (handleSpans m live l t) q := by
  rw [Differs, handleSpans_copy, not_not]
  by_cases hd : Differs live t q
  · rw [if_pos (hcov.exists_has hi hj hd)]
  · rw [Differs, not_not] at hd
    rw [← hd, ite_self]

theorem differs_behind {i j : Nat} {l : List Span} {t : TextPass}
    (hcov : Covers (Differs live t) j i l) {q : Nat} (hj : j ≤ q) :
    Differs live (handleSpans m live l t) q ↔ Differs live t q := by
  have hout : ¬ ∃ s ∈ l, s.Has q := by
    rintro ⟨s, hs, hhas⟩
    have hend := (hcov.within s hs).2
    have := hhas.2
    omega
  rw [Differs, handleSpans_copy, if_neg hout, Differs]

/-- The bytes a chunk compares, with the overlap. -/
def chunkLen (size off : Nat) : Nat := min (kgChunk + kgOverlap) (size - off)

theorem verifyLoop_chunk (m : CodeMap) (live : Nat → UInt8) (fuel k : Nat) {t : TextPass}
    (hoff : k * kgChunk < t.region.size) :
    ∃ l, Split (Differs live t) 4 (k * kgChunk + chunkLen t.region.size (k * kgChunk))
        (k * kgChunk) l ∧
      kgVerifyLoop m (fun _ => stableReads live) (fuel + 1) k t =
        kgVerifyLoop m (fun _ => stableReads live) fuel (k + 1)
          (handleSpans m live (chunkSpans (k * kgChunk) (chunkLen t.region.size (k * kgChunk))
            t.region.size l) t) := by
  obtain ⟨l, hl, hchunk⟩ := chunk_spans m live (k * kgChunk)
    (chunkLen t.region.size (k * kgChunk)) t
  refine ⟨l, hl, ?_⟩
  rw [kgVerifyLoop, if_pos hoff, ← hchunk]
  rfl

/-- What one chunk settles: everything up to the overlap, and up to the end of its last run. -/
theorem chunkSpans_covers {off size : Nat} {d : Nat → Prop} {l : List Span}
    (hoff : off < size) (hl : Split d 4 (off + chunkLen size off) off l) :
    ∃ j, off ≤ j ∧ min (off + kgChunk) size ≤ j ∧ j ≤ size ∧
      Covers d j off (chunkSpans off (chunkLen size off) size l) := by
  rw [chunkSpans]
  have hn : chunkLen size off = min (kgChunk + kgOverlap) (size - off) := rfl
  generalize chunkLen size off = n at hn hl ⊢
  by_cases hend : size ≤ off + n
  · have heq : off + n = size := by omega
    rw [if_pos hend]
    rw [heq] at hl
    exact ⟨size, by omega, by omega, Nat.le_refl _, hl.covers⟩
  · rw [if_neg hend]
    obtain ⟨-, j, hij, hbj, hjn, hcov, -⟩ := hl.cut (b := off + kgChunk) (by omega) (by omega)
    exact ⟨j, hij, by omega, by omega, hcov⟩

/-- A pass handles spans that cover the whole region. -/
theorem verifyLoop_covers (m : CodeMap) (live : Nat → UInt8) (fuel k : Nat) (t : TextPass)
    (hfuel : t.region.size ≤ (k + fuel) * kgChunk) :
    ∃ l, Covers (Differs live t) t.region.size (min (k * kgChunk) t.region.size) l ∧
      kgVerifyLoop m (fun _ => stableReads live) fuel k t = handleSpans m live l t := by
  induction fuel generalizing k t with
  | zero =>
      refine ⟨[], .nil ?_, rfl⟩
      intro q hq hlt
      rw [Nat.add_zero] at hfuel
      omega
  | succ fuel ih =>
      by_cases hoff : k * kgChunk < t.region.size
      · obtain ⟨l, hl, hchunk⟩ := verifyLoop_chunk m live fuel k hoff
        obtain ⟨j, hij, hbj, hjn, hcov⟩ := chunkSpans_covers hoff hl
        rw [hchunk]
        generalize chunkSpans (k * kgChunk) (chunkLen t.region.size (k * kgChunk)) t.region.size l
          = h at hcov ⊢
        obtain ⟨l', hl', hloop⟩ := ih (k + 1) (handleSpans m live h t) (by
          rw [handleSpans_size]
          rw [show k + 1 + fuel = k + (fuel + 1) by omega]
          exact hfuel)
        rw [handleSpans_size] at hl'
        -- the rest starts behind what the chunk has settled
        have hstart : (k + 1) * kgChunk = k * kgChunk + kgChunk := Nat.succ_mul _ _
        have hrest : Covers (Differs live t) t.region.size j l' := by
          have hmoved := hl'.move (j := j) (by omega) fun q hq hlt =>
            differs_handled hcov (by omega) hlt
          exact hmoved.congr fun q hq _ => differs_behind hcov hq
        refine ⟨h ++ l', ?_, ?_⟩
        · rw [Nat.min_eq_left (by omega)]
          exact hcov.append hrest hjn hij
        · rw [hloop, handleSpans_append]
      · refine ⟨[], .nil ?_, by rw [kgVerifyLoop, if_neg hoff, handleSpans_nil]⟩
        intro q hq hlt
        omega

/-- Where nothing differs there is nothing to cover. -/
theorem covers_none {n i : Nat} {t : TextPass} {l : List Span}
    (hsame : ∀ p < n, live p = t.region.copy p) (hcov : Covers (Differs live t) n i l) : l = [] := by
  cases hcov with
  | nil => rfl
  | cons hle hskip hhead hlt hend hrest => exact absurd (hsame _ (by omega)) hhead

theorem regionVerify_covers (m : CodeMap) (live : Nat → UInt8) (t : TextPass) :
    ∃ l, Covers (Differs live t) t.region.size 0 l ∧
      kgRegionVerify m (fun _ => stableReads live) t = handleSpans m live l t := by
  have hfuel : t.region.size ≤ (0 + t.region.size) * kgChunk := by
    rw [kgChunk]
    omega
  obtain ⟨l, hl, hloop⟩ := verifyLoop_covers m live t.region.size 0 t hfuel
  rw [Nat.zero_mul, Nat.zero_min] at hl
  exact ⟨l, hl, hloop⟩

/-- After a pass the copy is the live text. -/
theorem regionVerify_copy (m : CodeMap) (live : Nat → UInt8) (t : TextPass) {p : Nat}
    (hp : p < t.region.size) :
    (kgRegionVerify m (fun _ => stableReads live) t).region.copy p = live p := by
  obtain ⟨l, hcov, hpass⟩ := regionVerify_covers m live t
  rw [hpass]
  exact (not_not.mp (differs_handled hcov (Nat.zero_le p) hp)).symm

/-- A pass over text that agrees with the copy does nothing. -/
theorem regionVerify_same (m : CodeMap) {t : TextPass}
    (hsame : ∀ p < t.region.size, live p = t.region.copy p) :
    kgRegionVerify m (fun _ => stableReads live) t = t := by
  obtain ⟨l, hcov, hpass⟩ := regionVerify_covers m live t
  rw [hpass, covers_none hsame hcov, handleSpans_nil]

/--
Each modification is handled exactly once: every byte that differs lies in exactly one run,
the copy is the live text afterwards, and a second pass changes nothing, so it handles no run
and raises no alert.
-/
theorem regionVerify_once (m : CodeMap) (live : Nat → UInt8) (t : TextPass) :
    (∃ runs, (kgRegionVerify m (fun _ => stableReads live) t).handled = t.handled ++ runs ∧
      (∀ run ∈ runs, run.re ≤ t.region.size) ∧
      ∀ p < t.region.size, live p ≠ t.region.copy p →
        (runs.filter fun run => run.rs ≤ p ∧ p < run.re).length = 1) ∧
    (∀ p < t.region.size,
      (kgRegionVerify m (fun _ => stableReads live) t).region.copy p = live p) ∧
    kgRegionVerify m (fun _ => stableReads live)
        (kgRegionVerify m (fun _ => stableReads live) t) =
      kgRegionVerify m (fun _ => stableReads live) t := by
  obtain ⟨l, hcov, hpass⟩ := regionVerify_covers m live t
  refine ⟨?_, fun p hp => regionVerify_copy m live t hp, ?_⟩
  · obtain ⟨runs, hruns, hmap⟩ := handleSpans_handled m live l t
    refine ⟨runs, by rw [hpass, hruns], ?_, ?_⟩
    · intro run hrun
      have hmem : Span.mk run.rs run.re ∈ l := by
        rw [← hmap]
        exact List.mem_map_of_mem hrun
      exact (hcov.within _ hmem).2
    · intro p hp hd
      have hone := hcov.exactly_one (Nat.zero_le p) hp hd
      rw [← hmap, List.filter_map, List.length_map] at hone
      exact hone
  · refine regionVerify_same m ?_
    intro p hp
    rw [hpass, handleSpans_size] at hp
    exact (regionVerify_copy m live t hp).symm

end Pass

end KernelGuard
