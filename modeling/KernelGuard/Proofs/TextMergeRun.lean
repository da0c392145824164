/-
Runs of patch sites.

`Proofs/TextMerge.lean` has the match at the first changed byte of every site.  Here the
loop of `kg_classify` goes from site to site: where it stands, no site is cut in two
(`Boundary`), so the next differing byte is the first changed byte of its site.  A run is
then benign exactly when every shifted site but the first of the run is saved by the
coincidence (`classify_benign_iff`), and a chunk is benign when all its runs are.

The induction is over the rest of the run.  A match that is found is benign and takes
whole sites, so that the loop stands at a boundary again behind it; a match that is
not found, at a shifted site without the coincidence, ends the benign verdict of the run,
and a verdict never gets better.
-/
import KernelGuard.Proofs.TextMerge

namespace KernelGuard

open Clusters

section Run

variable {m : CodeMap} {r : TextRegion} {edits : List SiteEdit} {e : SiteEdit}
  {rs re pos stop : Nat}

/-- Nothing changes within four bytes of the run. -/
structure Isolated (r : TextRegion) (edits : List SiteEdit) (rs re : Nat) : Prop where
  before : ∀ q, q < rs → rs ≤ q + 4 → edited r edits q = r.copy q
  after : ∀ q, re ≤ q → q < re + 4 → edited r edits q = r.copy q

/-- The rest of the text is out of reach of a match in the run. -/
theorem run_match (h : PatchSites m r edits) (hiso : Isolated r edits rs re) (hlo : rs ≤ pos)
    (hhi : pos < re) (first : Bool) :
    kgMatchSite m r rs re (fun k => edited r edits (rs + k)) pos first =
      kgMatchSite m r 0 r.size (edited r edits) pos first := by
  have hnear : SameNear r r.copy (kgNewAt r 0 r.size (edited r edits))
      (kgNewAt r rs re (fun k => edited r edits (rs + k))) pos := by
    refine ⟨fun _ _ _ => rfl, fun q hq hlt => ?_⟩
    rw [newAt_whole h, kgNewAt]
    by_cases hin : rs ≤ q ∧ q < re
    · rw [if_pos hin, Nat.add_sub_cancel' hin.1]
    · rw [if_neg hin]
      rcases Nat.lt_or_ge q rs with hbelow | habove
      · exact (hiso.before q hbelow (by omega)).symm
      · exact (hiso.after q (by omega) (by omega)).symm
  exact matchSite_congr hnear

/-- No site has changed bytes on both sides of `pos`. -/
def Boundary (r : TextRegion) (edits : List SiteEdit) (pos : Nat) : Prop :=
  ∀ a ∈ edits, ∀ x, a.First r x → ∀ c, a.Has c → pos ≤ c → edited r edits c ≠ r.copy c → pos ≤ x

theorem boundary_run (h : PatchSites m r edits) (hiso : Isolated r edits rs re) :
    Boundary r edits rs := by
  intro a ha x hx c hc hle _
  by_contra hlt
  have hlen := (h.site a ha).len
  have hhi : a.hi = a.lo + a.len := rfl
  have hc2 := hc.2
  have hx1 := hx.has.1
  have hsame := hiso.before x (by omega) (by omega)
  rw [edited_inside h ha hx.has] at hsame
  exact hx.changed hsame

/-- The next differing byte is the first changed one of its site. -/
theorem boundary_first (h : PatchSites m r edits) (hb : Boundary r edits pos)
    (hd : edited r edits pos ≠ r.copy pos) : ∃ e ∈ edits, e.First r pos := by
  obtain ⟨e, he, hhas, x, hx, hle⟩ := site_of_changed h hd
  have hge := hb e he x hx pos hhas (Nat.le_refl pos) hd
  obtain rfl : x = pos := by omega
  exact ⟨e, he, hx⟩

theorem boundary_gap (h : PatchSites m r edits) (hb : Boundary r edits pos)
    (hsame : edited r edits pos = r.copy pos) : Boundary r edits (pos + 1) := by
  intro a ha x hx c hc hle hd
  have hge := hb a ha x hx c hc (by omega) hd
  have hne : x ≠ pos := by
    rintro rfl
    rw [edited_inside h ha hx.has] at hsame
    exact hx.changed hsame
  omega

theorem boundary_takes (h : PatchSites m r edits) (hb : Boundary r edits pos) (he : e ∈ edits)
    (hp : e.First r pos) (ht : Takes r edits e pos stop) : Boundary r edits stop := by
  intro a ha x hx c hc hle hd
  have hlt := ht.lt
  have hge := hb a ha x hx c hc (by omega) hd
  have hend := hc.2
  by_contra hless
  rcases Nat.eq_or_lt_of_le hge with rfl | hgt
  · obtain rfl := h.same ha he hx.has hp.has
    have := ht.whole
    omega
  · have := (ht.others a ha x hx hgt (by omega)).2
    omega

/-- The shifted sites of `[lo, hi)` are saved by the coincidence. -/
def Saved (r : TextRegion) (edits : List SiteEdit) (lo hi : Nat) : Prop :=
  ∀ a ∈ edits, ∀ x, a.First r x → a.lo < x → lo ≤ x → x < hi →
    Coincidence r (edited r edits) x

/-- What a match takes holds no other shifted site. -/
theorem saved_takes (ht : Takes r edits e pos stop) :
    Saved r edits (pos + 1) re ↔ Saved r edits stop re := by
  have hlt := ht.lt
  constructor
  · intro hall a ha x hx hshift hge hless
    exact hall a ha x hx hshift (by omega) hless
  · intro hall a ha x hx hshift hge hless
    rcases Nat.lt_or_ge x stop with hin | hout
    · have := (ht.others a ha x hx (by omega) hin).1
      omega
    · exact hall a ha x hx hshift hout hless

theorem add_benign {out : KgVerdictInfo} {seg : KgSeg} (h : seg.v = .benign) :
    (out.add seg).v = out.v := by
  have hrank : ¬ seg.v.rank > out.v.rank := by
    rw [h]
    exact Nat.not_lt_zero _
  rw [KgVerdictInfo.add, if_neg hrank]

/-- The match at a site that is found: benign, and what it takes. -/
theorem match_found (h : PatchSites m r edits) (he : e ∈ edits) (hp : e.First r pos)
    (first : Bool) (hok : pos = e.lo ∨ first = true ∨ Coincidence r (edited r edits) pos) :
    ∃ seg, kgMatchSite m r 0 r.size (edited r edits) pos first = some seg ∧ seg.v = .benign ∧
      Takes r edits e pos seg.stop := by
  by_cases hstart : pos = e.lo
  · exact ⟨_, match_unshifted h he hp hstart first, rfl, takes_site h he hp⟩
  · have hlt : e.lo < pos := by
      have := hp.has.1
      omega
    by_cases hc : Coincidence r (edited r edits) pos
    · exact ⟨_, match_coincidence h he hp hlt hc first, rfl, takes_coincidence h he hp hlt hc⟩
    · obtain rfl : first = true := (hok.resolve_left hstart).resolve_right hc
      exact ⟨_, match_shifted_first h he hp hlt hc, rfl, takes_site h he hp⟩

/-- The rest of a run, behind its first site. -/
theorem loop_benign_iff (h : PatchSites m r edits) (hiso : Isolated r edits rs re) (fuel : Nat)
    (out : KgVerdictInfo) (hfuel : re ≤ pos + fuel) (hlo : rs ≤ pos)
    (hb : Boundary r edits pos) :
    (kgClassifyLoop m r rs re (fun k => edited r edits (rs + k)) fuel pos false out).v = .benign ↔
      out.v = .benign ∧ Saved r edits pos re := by
  induction fuel generalizing pos out with
  | zero =>
      refine ⟨fun hv => ⟨hv, fun a _ x _ _ hge hless => ?_⟩, fun hv => hv.1⟩
      omega
  | succ fuel ih =>
      rw [kgClassifyLoop]
      by_cases hlt : pos < re
      · rw [if_pos hlt, Nat.add_sub_cancel' hlo]
        by_cases hsame : edited r edits pos = r.copy pos
        · rw [if_pos hsame, ih out (by omega) (by omega) (boundary_gap h hb hsame)]
          refine and_congr_right fun _ => ⟨fun hall a ha x hx hshift hge hless => ?_,
            fun hall a ha x hx hshift hge hless => hall a ha x hx hshift (by omega) hless⟩
          have hne : x ≠ pos := by
            rintro rfl
            rw [edited_inside h ha hx.has] at hsame
            exact hx.changed hsame
          exact hall a ha x hx hshift (by omega) hless
        · rw [if_neg hsame, run_match h hiso hlo hlt]
          obtain ⟨e, he, hp⟩ := boundary_first h hb hsame
          by_cases hok : pos = e.lo ∨ Coincidence r (edited r edits) pos
          · obtain ⟨seg, hseg, hv, ht⟩ := match_found h he hp false
              (hok.imp_right Or.inr)
            rw [hseg]
            simp only [if_pos ht.lt]
            rw [ih _ (by have := ht.lt; omega) (by have := ht.lt; omega)
              (boundary_takes h hb he hp ht), add_benign hv, ← saved_takes ht]
            refine and_congr_right fun _ => ⟨fun hall a ha x hx hshift hge hless => ?_,
              fun hall a ha x hx hshift hge hless => hall a ha x hx hshift (by omega) hless⟩
            rcases Nat.eq_or_lt_of_le hge with rfl | hgt
            · obtain rfl := h.same ha he hx.has hp.has
              exact hok.resolve_left (by omega)
            · exact hall a ha x hx hshift hgt hless
          · -- a retarget behind another site: nothing matches, and the verdict is not benign
            rw [not_or] at hok
            have hshift : e.lo < pos := by
              have := hp.has.1
              omega
            rw [match_shifted_later h he hp hshift hok.2]
            refine ⟨fun hv => ?_, fun hv => ?_⟩
            · have hrank := noSite_rank r rs re (fun k => edited r edits (rs + k)) pos out
              simp only at hv
              rw [hv] at hrank
              exact absurd hrank (by decide)
            · exact absurd (hv.2 e he pos hp hshift (Nat.le_refl pos) hlt) hok.2
      · rw [if_neg hlt]
        refine ⟨fun hv => ⟨hv, fun a _ x _ _ hge hless => ?_⟩, fun hv => hv.1⟩
        omega

/-- A run of sites is benign when the shifted ones behind its first byte are saved. -/
theorem classify_benign_iff (h : PatchSites m r edits) (hiso : Isolated r edits rs re)
    (hlt : rs < re) (hd : edited r edits rs ≠ r.copy rs) :
    (kgClassify m r rs re (fun k => edited r edits (rs + k))).v = .benign ↔
      Saved r edits (rs + 1) re := by
  have hb := boundary_run h hiso
  obtain ⟨e, he, hp⟩ := boundary_first h hb hd
  obtain ⟨seg, hseg, hv, ht⟩ := match_found h he hp true (.inr (.inl rfl))
  have hfuel : re - rs = re - rs - 1 + 1 := by omega
  rw [kgClassify, hfuel, kgClassifyLoop, if_pos hlt, Nat.sub_self, Nat.add_zero, if_neg hd,
    run_match h hiso (Nat.le_refl rs) hlt, hseg]
  simp only [if_pos ht.lt]
  have hstop := ht.lt
  rw [loop_benign_iff h hiso _ _ (by omega) (by omega) (boundary_takes h hb he hp ht),
    add_benign hv, saved_takes ht]
  exact ⟨fun hall => hall.2, fun hall => ⟨rfl, hall⟩⟩

/-! ### A chunk

The runs of a chunk are far enough apart to be judged each with the text as it was,
and a chunk that holds all the sites leaves none of its runs to the next one.
-/

/-- The verdicts of the runs are those of the runs taken each on its own. -/
theorem handleSpans_verdicts {live : Nat → UInt8} {n i : Nat} {l : List Span} {t : TextPass}
    {c : Nat → UInt8} {d : Nat → Prop} (hl : Split d 4 n i l)
    (hregion : t.region = { r with copy := c })
    (hold : ∀ s ∈ l, ∀ q, s.lo ≤ q + 4 → c q = r.copy q) :
    ∃ runs, (handleSpans m live l t).handled = t.handled ++ runs ∧
      ((∀ run ∈ runs, run.v = .benign) ↔
        ∀ s ∈ l, (kgClassify m r s.lo s.hi (fun k => live (s.lo + k))).v = .benign) := by
  induction l generalizing t c i with
  | nil => exact ⟨[], by simp, by simp⟩
  | cons s l ih =>
      have hverdict : kgClassify m t.region s.lo s.hi (fun k => live (s.lo + k)) =
          kgClassify m r s.lo s.hi (fun k => live (s.lo + k)) := by
        rw [hregion]
        exact classify_congr (hold s List.mem_cons_self)
      have hapart := hl.apart
      have hrest : Split d 4 n s.hi l := by
        cases hl with
        | cons _ _ _ hrest => exact hrest
      have hregion' : (kgHandleRun m s.lo s.hi (fun k => live (s.lo + k)) t).region =
          { r with copy := kgNewAt t.region s.lo s.hi (fun k => live (s.lo + k)) } := by
        have hext : t.region.toTextExtent = r.toTextExtent := by rw [hregion]
        show (⟨t.region.toTextExtent, _⟩ : TextRegion) = _
        rw [hext]
      obtain ⟨runs, hruns, hiff⟩ := ih hrest hregion' (by
        intro s' hs' q hq
        have hfar := hapart s' hs'
        rw [kgNewAt, if_neg (by omega), hregion]
        exact hold s' (List.mem_cons_of_mem _ hs') q hq)
      rw [handleSpans_cons, hruns, kgHandleRun_handled, List.append_assoc]
      refine ⟨_, rfl, ?_⟩
      rw [List.singleton_append, List.forall_mem_cons, List.forall_mem_cons, hiff, hverdict]

/-- In a chunk that holds all that changed, no run is left to the next chunk. -/
theorem chunkSpans_all {off n size : Nat} {l : List Span}
    (hl : Split (fun q => edited r edits q ≠ r.copy q) 4 (off + n) off l)
    (hchanged : ∀ q, edited r edits q ≠ r.copy q → off ≤ q ∧ q < off + min n kgChunk) :
    chunkSpans off n size l = l := by
  rw [chunkSpans]
  split_ifs
  · rfl
  · rw [before, List.filter_eq_self]
    intro s hs
    have := (hchanged s.lo (hl.isCluster s hs).head).2
    simp only [decide_eq_true_eq]
    omega

theorem isolated_of_split {off n : Nat} {l : List Span}
    (hl : Split (fun q => edited r edits q ≠ r.copy q) 4 (off + n) off l)
    (hchanged : ∀ q, edited r edits q ≠ r.copy q → off ≤ q ∧ q < off + n) :
    ∀ s ∈ l, Isolated r edits s.lo s.hi := by
  intro s hs
  refine ⟨fun q hlt hnear => ?_, fun q hge hnear => ?_⟩
  · by_contra hd
    exact hl.clear_before s hs q (hchanged q hd).1 hlt (by omega) hd
  · by_contra hd
    exact (hl.isCluster s hs).clear q hge hnear (hchanged q hd).2 hd

/-- The runs of a chunk that holds all the sites. -/
theorem chunk_benign_iff (h : PatchSites m r edits) {off n : Nat}
    (hin : ∀ e ∈ edits, off ≤ e.lo ∧ e.hi ≤ off + min n kgChunk) :
    (∀ run ∈ (kgChunkCheck m off n (stableReads (edited r edits)) r.pass).handled,
      run.v = .benign) ↔
    ∀ e ∈ edits, ∀ p, e.First r p → e.lo < p →
      (∃ q, q < p ∧ p ≤ q + 4 ∧ edited r edits q ≠ r.copy q) →
      Coincidence r (edited r edits) p := by
  obtain ⟨l, hl, hcheck⟩ := chunkCheck_spans m (edited r edits) off n r.pass
  have hchanged : ∀ q, edited r edits q ≠ r.copy q → off ≤ q ∧ q < off + min n kgChunk := by
    intro q hq
    obtain ⟨e, he, hhas, -⟩ := site_of_changed h hq
    have := hin e he
    have := hhas.1
    have := hhas.2
    omega
  have hspans : chunkSpans off n r.pass.region.size l = l := chunkSpans_all hl hchanged
  have hiso : ∀ s ∈ l, Isolated r edits s.lo s.hi := by
    refine isolated_of_split hl fun q hq => ⟨(hchanged q hq).1, ?_⟩
    have := (hchanged q hq).2
    omega
  obtain ⟨runs, hruns, hiff⟩ := handleSpans_verdicts (m := m) (r := r) (t := r.pass)
    (c := r.copy) hl rfl (fun _ _ _ _ => rfl)
  rw [hcheck, hspans, hruns, show r.pass.handled = [] from rfl, List.nil_append, hiff]
  have hrun : ∀ s ∈ l, ((kgClassify m r s.lo s.hi
      (fun k => edited r edits (s.lo + k))).v = .benign ↔ Saved r edits (s.lo + 1) s.hi) := by
    intro s hs
    exact classify_benign_iff h (hiso s hs) (hl.isCluster s hs).lt (hl.isCluster s hs).head
  constructor
  · rintro hall e he p hp hshift ⟨q, hlt, hnear, hd⟩
    have hdp : edited r edits p ≠ r.copy p := by
      rw [edited_inside h he hp.has]
      exact hp.changed
    have hpin := hchanged p hdp
    obtain ⟨s, hs, hhas⟩ := hl.covers.exists_has hpin.1 (by omega) hdp
    -- the changed byte close before it is in the same run
    have hlo : s.lo < p := by
      by_contra hge
      have hstart : s.lo = p := by
        have := hhas.1
        omega
      exact hd ((hiso s hs).before q (by omega) (by omega))
    exact (hrun s hs).mp (hall s hs) e he p hp hshift hlo hhas.2
  · intro hall s hs
    rw [hrun s hs]
    intro e he p hp hshift hge hlt
    obtain ⟨q, -, hlt', hnear, hd⟩ := (hl.isCluster s hs).near (by omega) hge hlt
    exact hall e he p hp hshift ⟨q, hlt', hnear, hd⟩

/-- A patch site that changes alone is benign. -/
theorem chunk_alone (he : IsPatchSite m r e) {off n : Nat}
    (hin : off ≤ e.lo ∧ e.hi ≤ off + min n kgChunk) :
    ∀ run ∈ (kgChunkCheck m off n (stableReads (edited r [e])) r.pass).handled,
      run.v = .benign := by
  have hone : PatchSites m r [e] := by
    refine ⟨?_, List.pairwise_singleton _ _⟩
    intro a ha
    rw [List.mem_singleton.mp ha]
    exact he
  rw [chunk_benign_iff hone (by simpa using hin)]
  rintro a ha p hp hshift ⟨q, hlt, hnear, hd⟩
  obtain ⟨b, hb, hhas, -⟩ := site_of_changed hone hd
  rw [List.mem_singleton] at ha hb
  subst ha hb
  rw [edited_inside hone (by simp) hhas] at hd
  exact absurd (hp.before q hhas.1 hlt) hd

end Run

/--
Patch sites that change together, within one chunk: each of them alone is benign, and all of
them are exactly when every site that keeps its first byte is the first to change in its run
(no changed byte in the four before its own), or the coincidence saves it.
-/
theorem patch_sites_together (m : CodeMap) (r : TextRegion) (edits : List SiteEdit) (off n : Nat)
    (h : PatchSites m r edits) (hin : ∀ e ∈ edits, off ≤ e.lo ∧ e.hi ≤ off + min n kgChunk) :
    (∀ e ∈ edits, ∀ run ∈ (kgChunkCheck m off n (stableReads (edited r [e])) r.pass).handled,
      run.v = .benign) ∧
    ((∀ run ∈ (kgChunkCheck m off n (stableReads (edited r edits)) r.pass).handled,
      run.v = .benign) ↔
    ∀ e ∈ edits, ∀ p, e.First r p → e.lo < p →
      (∃ q, q < p ∧ p ≤ q + 4 ∧ edited r edits q ≠ r.copy q) →
      Coincidence r (edited r edits) p) :=
  ⟨fun e he => chunk_alone (h.site e he) (hin e he), chunk_benign_iff h hin⟩

/-! ### A call behind a NOP

The smallest case: two sites next to each other, of which the second keeps its
opcode.
-/

/-- A NOP5 and a call to its own start behind it. -/
def nopAndCall : TextRegion where
  base := 0
  size := 10
  kernel := true
  copy p := [0x0f, 0x1f, 0x44, 0x00, 0x00, 0xe8, 0xfb, 0xff, 0xff, 0xff].getD p 0

/-- The NOP5 becomes a call. -/
def callEdit : SiteEdit := ⟨0, 5, fun p => [0xe8, 0xfb, 0xff, 0xff, 0xff].getD p 0⟩

/-- The call gets another target. -/
def retargetEdit : SiteEdit := ⟨5, 5, fun p => [0xe8, 0xf6, 0xff, 0xff, 0xff].getD (p - 5) 0⟩

/-- Either change alone is benign; together they are one run, and it is CRITICAL. -/
theorem patch_sites_critical :
    callEdit.hi ≤ retargetEdit.lo ∧
    (∀ e ∈ [callEdit, retargetEdit],
      (kgChunkCheck nowhere 0 10 (stableReads (edited nopAndCall [e])) nopAndCall.pass).handled.map
        (·.v) = [.benign]) ∧
    (kgChunkCheck nowhere 0 10 (stableReads (edited nopAndCall [callEdit, retargetEdit]))
      nopAndCall.pass).handled = [⟨0, 7, .critical⟩] := by
  decide +kernel

theorem patch_sites_together_two :
    PatchSites nowhere nopAndCall [callEdit, retargetEdit] ∧
    (∀ e ∈ [callEdit, retargetEdit], 0 ≤ e.lo ∧ e.hi ≤ 0 + min 10 kgChunk) ∧
    ((∀ run ∈ (kgChunkCheck nowhere 0 10 (stableReads
        (edited nopAndCall [callEdit, retargetEdit])) nopAndCall.pass).handled, run.v = .benign) ↔
    ∀ e ∈ [callEdit, retargetEdit], ∀ p, e.First nopAndCall p → e.lo < p →
      (∃ q, q < p ∧ p ≤ q + 4 ∧
        edited nopAndCall [callEdit, retargetEdit] q ≠ nopAndCall.copy q) →
      Coincidence nopAndCall (edited nopAndCall [callEdit, retargetEdit]) p) := by
  have hcall : IsPatchSite nowhere nopAndCall callEdit := by
    refine ⟨.inr rfl, by decide, ?_⟩
    intro p hp
    obtain rfl : p = 0 := by
      by_contra hne
      exact absurd (hp.before 0 (Nat.le_refl 0) (by omega)) (by decide)
    decide +kernel
  have hretarget : IsPatchSite nowhere nopAndCall retargetEdit := by
    refine ⟨.inr rfl, by decide, ?_⟩
    intro p hp
    have hall : ∀ q < 10, 5 ≤ q → retargetEdit.new q ≠ nopAndCall.copy q → q = 6 := by decide
    obtain rfl : p = 6 := hall p hp.has.2 hp.has.1 hp.changed
    decide +kernel
  have hsites : PatchSites nowhere nopAndCall [callEdit, retargetEdit] := by
    refine ⟨?_, List.pairwise_pair.mpr (by decide)⟩
    intro e he
    rcases List.mem_pair.mp he with rfl | rfl
    · exact hcall
    · exact hretarget
  have hin : ∀ e ∈ [callEdit, retargetEdit], 0 ≤ e.lo ∧ e.hi ≤ 0 + min 10 kgChunk := by decide
  exact ⟨hsites, hin, (patch_sites_together _ _ _ _ _ hsites hin).2⟩

end KernelGuard
