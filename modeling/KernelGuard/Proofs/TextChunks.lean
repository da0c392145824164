/-
Chunks and runs.

A pass forms its runs chunk by chunk.  A run that starts before the end of its chunk may
use `KG_OVERLAP` bytes of the next one; a run that reaches further is cut there, and its
two pieces are classified on their own.  `verifyLoop_split` says that nothing else goes
wrong: without such a run the pass is the check of the region as one chunk.

With one it need not be.  Three calls that are patched in next to each other across a seam
(`seamRegion`) are benign as one run; the cut falls into the third of them, and half a
displacement leads out of the region.
-/
import KernelGuard.Spec.TextPatch
import KernelGuard.Proofs.TextPass

namespace KernelGuard

open Clusters

section Split

variable {m : CodeMap} {live : Nat → UInt8}

/--
No run reaches from below the end of a chunk to more than `KG_OVERLAP` bytes past it, where
the runs are those of the region as one piece.
-/
def FitsOverlap (live : Nat → UInt8) (t : TextPass) : Prop :=
  ∀ s, IsCluster (Differs live t) 4 t.region.size s →
    ∀ c, s.lo < c * kgChunk → s.hi ≤ c * kgChunk + kgOverlap

/-- Runs that fit are handled as if the region were one chunk. -/
theorem verifyLoop_split (m : CodeMap) (live : Nat → UInt8) (fuel k : Nat) (t : TextPass)
    {l : List Span} (hfuel : t.region.size ≤ (k + fuel) * kgChunk)
    (hl : Split (Differs live t) 4 t.region.size (min (k * kgChunk) t.region.size) l)
    (hfit : ∀ s ∈ l, ∀ c, s.lo < c * kgChunk → s.hi ≤ c * kgChunk + kgOverlap) :
    kgVerifyLoop m (fun _ => stableReads live) fuel k t = handleSpans m live l t := by
  induction fuel generalizing k t l with
  | zero =>
      rw [Nat.add_zero] at hfuel
      rw [hl.eq_nil (by omega)]
      rfl
  | succ fuel ih =>
      have hstart : (k + 1) * kgChunk = k * kgChunk + kgChunk := Nat.succ_mul _ _
      by_cases hoff : k * kgChunk < t.region.size
      · rw [Nat.min_eq_left (by omega)] at hl
        obtain ⟨l', hl', hchunk⟩ := verifyLoop_chunk m live fuel k hoff
        rw [hchunk, chunkSpans]
        have hn : chunkLen t.region.size (k * kgChunk) =
            min (kgChunk + kgOverlap) (t.region.size - k * kgChunk) := rfl
        generalize chunkLen t.region.size (k * kgChunk) = n at hn hl' ⊢
        have hfuel' : t.region.size ≤ (k + 1 + fuel) * kgChunk := by
          rw [show k + 1 + fuel = k + (fuel + 1) by omega]
          exact hfuel
        by_cases hend : t.region.size ≤ k * kgChunk + n
        · -- the last chunk that has anything to handle
          have heq : k * kgChunk + n = t.region.size := by omega
          rw [heq] at hl'
          rw [if_pos hend, hl'.unique hl]
          have hdone := ih (k + 1) (handleSpans m live l t) (by rw [handleSpans_size]; exact hfuel')
            (.nil fun q hq hlt => ?_) (by simp)
          · rw [hdone, handleSpans_nil]
          · rw [handleSpans_size] at hq hlt
            exact differs_handled hl.covers (by omega) hlt
        · rw [if_neg hend]
          have hfull : n = kgChunk + kgOverlap := by omega
          have hbefore : before (k * kgChunk + kgChunk) l' = before (k * kgChunk + kgChunk) l := by
            refine hl.before_eq hl' (by omega) ?_ (by omega)
            intro s hs hlt
            have := hfit s hs (k + 1) (by omega)
            omega
          obtain ⟨happ, j, hij, hbj, hjn, hcov, hsince⟩ :=
            hl.cut (b := k * kgChunk + kgChunk) (by omega) (by omega)
          rw [hbefore, ih (k + 1) _ (by rw [handleSpans_size]; exact hfuel') ?_ ?_,
            ← handleSpans_append, ← happ]
          · -- the later runs, seen from the start of the next chunk
            rw [handleSpans_size]
            have hmoved := hsince.congr fun q hq _ => (differs_behind (m := m) hcov hq).symm
            rw [hstart]
            have hnext : k * kgChunk ≤ min (k * kgChunk + kgChunk) t.region.size :=
              Nat.le_min.mpr ⟨Nat.le_add_right _ _, Nat.le_of_lt hoff⟩
            refine hmoved.earlier (Nat.le_trans (Nat.min_le_left _ _) hbj) fun q hq hlt => ?_
            exact differs_handled hcov (Nat.le_trans hnext hq) hlt
          · intro s hs
            exact hfit s (List.mem_of_mem_filter hs)
      · rw [kgVerifyLoop, if_neg hoff]
        rw [hl.eq_nil (by omega)]
        rfl

/-- The pass of a region whose runs fit is the check of the region as a single chunk. -/
theorem regionVerify_eq_chunkCheck (m : CodeMap) {live : Nat → UInt8} {t : TextPass}
    (hfit : FitsOverlap live t) :
    kgRegionVerify m (fun _ => stableReads live) t =
      kgChunkCheck m 0 t.region.size (stableReads live) t := by
  obtain ⟨l, hl, hchunk⟩ := chunkCheck_spans m live 0 t.region.size t
  rw [Nat.zero_add] at hl
  have hfuel : t.region.size ≤ (0 + t.region.size) * kgChunk := by
    rw [kgChunk]
    omega
  rw [hchunk, chunkSpans, if_pos (by omega)]
  refine verifyLoop_split m live t.region.size 0 t hfuel (by simpa using hl) ?_
  intro s hs
  exact hfit s (hl.isCluster s hs)

end Split

/-! ### Alerts

Alerts are added at the end and a critical one is never taken back, so whether there
is one depends on the verdicts of the runs only.
-/

/-- A CRITICAL TEXT_PATCH alert was raised. -/
def TextPass.Critical (t : TextPass) : Prop :=
  ∃ a ∈ t.alerts, a.type = kgAlertTextPatch ∧ a.level = kgLevelCritical

theorem critical_append {t t' : TextPass} {more : List Alert} (h : t.Critical)
    (happ : t'.alerts = t.alerts ++ more) : t'.Critical := by
  obtain ⟨a, ha, hcrit⟩ := h
  exact ⟨a, by rw [happ]; exact List.mem_append_left _ ha, hcrit⟩

/-- Where every run fits its chunk and the overlap, chunking is invisible. -/
theorem chunking_invisible (m : CodeMap) (r : TextRegion) (live : Nat → UInt8)
    (hfit : FitsOverlap live r.pass) :
    (kgRegionVerify m (fun _ => stableReads live) r.pass).Critical ↔
      (kgChunkCheck m 0 r.size (stableReads live) r.pass).Critical := by
  rw [regionVerify_eq_chunkCheck m hfit]
  rfl

/-! ### A run across a seam

The verdicts of a run and of its two pieces need not be related.  A piece that ends
inside of a window has lost the rest of it, and shows old bytes there.
-/

/-- A region that ends ten bytes into its second chunk, with three NOP5 at its end. -/
def seamRegion : TextRegion where
  base := 0
  size := 65546
  kernel := true
  copy p := if p < 65531 then 0x90 else [0x0f, 0x1f, 0x44, 0x00, 0x00].getD ((p - 65531) % 5) 0

/-- The same text with three calls, each to 16 bytes before its own end. -/
def seamLive (p : Nat) : UInt8 :=
  if p < 65531 then 0x90 else [0xe8, 0xf0, 0xff, 0xff, 0xff].getD ((p - 65531) % 5) 0

theorem seam_differs {p : Nat} : Differs seamLive seamRegion.pass p ↔ 65531 ≤ p := by
  show seamLive p ≠ seamRegion.copy p ↔ _
  rw [seamLive, seamRegion]
  by_cases h : p < 65531
  · simp only [h, ↓reduceIte, ne_eq, not_true_eq_false, false_iff]
    omega
  · have hmod : (p - 65531) % 5 < 5 := Nat.mod_lt _ (by decide)
    have hbytes : ∀ k < 5, [0xe8, 0xf0, 0xff, 0xff, 0xff].getD k (0 : UInt8) ≠
        [0x0f, 0x1f, 0x44, 0x00, 0x00].getD k 0 := by decide
    simp only [h, ↓reduceIte]
    exact ⟨fun _ => by omega, fun _ => hbytes _ hmod⟩

/-- The same region cut off behind the second NOP5, which is within the overlap. -/
def shortSeam : TextRegion := { seamRegion with size := 65541 }

theorem chunking_invisible_short :
    FitsOverlap seamLive shortSeam.pass ∧
    ((kgRegionVerify nowhere (fun _ => stableReads seamLive) shortSeam.pass).Critical ↔
      (kgChunkCheck nowhere 0 shortSeam.size (stableReads seamLive) shortSeam.pass).Critical) := by
  have hfit : FitsOverlap seamLive shortSeam.pass := by
    intro s hs c hc
    have hend : s.hi ≤ 65541 := hs.le
    have hpos : 1 * kgChunk ≤ c * kgChunk := Nat.mul_le_mul_right _ (by
      by_contra hzero
      rw [show c = 0 by omega, Nat.zero_mul] at hc
      exact absurd hc (Nat.not_lt_zero _))
    rw [Nat.one_mul] at hpos
    exact Nat.le_trans hend (Nat.add_le_add hpos (by decide : 5 ≤ kgOverlap))
  exact ⟨hfit, chunking_invisible nowhere shortSeam seamLive hfit⟩

/-- All of the last bytes are one run, wherever the scan ends. -/
theorem seam_split {n : Nat} (hn : 65531 < n) :
    Split (Differs seamLive seamRegion.pass) 4 n 0 [⟨65531, n⟩] := by
  refine .cons (Nat.zero_le _) ?_ ⟨?_, hn, Nat.le_refl n, ?_, ?_⟩ (.nil ?_)
  · intro q _ hlt hd
    rw [seam_differs] at hd
    simp only at hlt
    omega
  · exact seam_differs.mpr (Nat.le_refl _)
  · intro p hp hin
    simp only at hp hin
    exact ⟨p + 1, by omega, by omega, by simp only; omega, seam_differs.mpr (by omega)⟩
  · intro q hq _ hlt
    simp only at hq
    omega
  · intro q hq hlt
    simp only at hq
    omega

/-- The first chunk ends inside the third call, which it takes for a call out of the region. -/
theorem seam_first_chunk (fuel : Nat) :
    ∃ t, kgVerifyLoop nowhere (fun _ => stableReads seamLive) (fuel + 1) 0 seamRegion.pass =
        kgVerifyLoop nowhere (fun _ => stableReads seamLive) fuel 1 t ∧
      t.region.size = 65546 ∧ t.Critical := by
  obtain ⟨l, hl, hchunk⟩ := verifyLoop_chunk nowhere seamLive fuel 0 (t := seamRegion.pass)
    (by decide)
  have hlen : chunkLen seamRegion.pass.region.size (0 * kgChunk) = 65544 := rfl
  have hspans : chunkSpans 0 65544 65546 [⟨65531, 65544⟩] = [⟨65531, 65544⟩] := by decide
  have hsize : seamRegion.pass.region.size = 65546 := rfl
  rw [hlen, Nat.zero_mul, Nat.zero_add] at hl
  rw [hl.unique (seam_split (by omega)), hlen, hsize, Nat.zero_mul, hspans] at hchunk
  refine ⟨handleSpans nowhere seamLive [⟨65531, 65544⟩] seamRegion.pass, hchunk, rfl, ?_⟩
  · have hcut : (kgClassify nowhere seamRegion 65531 65544
        (fun k => seamLive (65531 + k))).v = .critical := by decide +kernel
    obtain ⟨a, ha, hcrit⟩ := runAlerts_critical nowhere hcut
    refine ⟨a, ?_, hcrit⟩
    rw [handleSpans_cons, handleSpans_nil, kgHandleRun_alerts]
    exact List.mem_append_right _ ha

theorem seam_single_chunk :
    ¬ (kgChunkCheck nowhere 0 seamRegion.size (stableReads seamLive) seamRegion.pass).Critical := by
  obtain ⟨l, hl, hchunk⟩ := chunkCheck_spans nowhere seamLive 0 65546 seamRegion.pass
  rw [hl.unique (seam_split (by omega))] at hchunk
  show ¬ (kgChunkCheck nowhere 0 65546 (stableReads seamLive) seamRegion.pass).Critical
  rw [hchunk]
  show ¬ (handleSpans nowhere seamLive [⟨65531, 65546⟩] seamRegion.pass).Critical
  have hwhole : (kgClassify nowhere seamRegion 65531 65546
      (fun k => seamLive (65531 + k))).v = .benign := by decide +kernel
  rintro ⟨a, ha, -⟩
  rw [handleSpans_cons, handleSpans_nil, kgHandleRun_alerts, List.mem_append] at ha
  rcases ha with ha | ha
  · exact absurd ha List.not_mem_nil
  · have hnil := runAlerts_benign nowhere hwhole
    exact absurd (hnil ▸ ha) List.not_mem_nil

theorem chunking_visible_seam :
    ¬ ((kgRegionVerify nowhere (fun _ => stableReads seamLive) seamRegion.pass).Critical ↔
      (kgChunkCheck nowhere 0 seamRegion.size (stableReads seamLive) seamRegion.pass).Critical) := by
  intro hiff
  refine seam_single_chunk (hiff.mp ?_)
  obtain ⟨t, hpass, hsize, hcrit⟩ := seam_first_chunk 65545
  obtain ⟨l, -, hrest⟩ := verifyLoop_covers nowhere seamLive 65545 1 t (by
    rw [hsize, kgChunk]
    omega)
  obtain ⟨more, hmore⟩ := handleSpans_alerts nowhere seamLive l t
  rw [kgRegionVerify, show seamRegion.pass.region.size = 65545 + 1 from rfl, hpass, hrest]
  exact critical_append hcrit hmore

end KernelGuard
