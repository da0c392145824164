/-
What `kg_classify` accepts.

A window of five bytes is judged by its two forms alone, apart from the target
(`judge_*`), so a site that matches as benign is a patch window (`matchSite_benign`).  The
loop of `kg_classify` consumes a run window by window; only the first window may start
before the byte that differs, and every later one starts behind the one before it, so the
windows of a run are disjoint.

Only the soundness of the benign verdict is shown here, for one run and any text:
`Proofs/TextMerge.lean` and `Proofs/TextMergeRun.lean` have the converse for texts
made of sites.  The verdicts are ordered and a run has the worst of its windows, so a
benign run has benign windows only.
-/
import KernelGuard.Spec.TextPatch

namespace KernelGuard

open Clusters

/-! ### Forms

A form is read off the bytes of a window.  There are three between which the target
decides, NOP5, CALL and JMP; XOR5 and RET5 may stand in for a call, and whatever
else there is has the form `other`.
-/

/-- NOP5, CALL and JMP. -/
def KgForm.Branchable (f : KgForm) : Prop := f = .nop5 ∨ f = .call ∨ f = .jmp

theorem form_cases (f : KgForm) : f = .other ∨ (f = .xor5 ∨ f = .ret5) ∨ f.Branchable := by
  cases f <;> simp [KgForm.Branchable]

theorem form_nop5 {b : List UInt8} : kgForm5 b = .nop5 ↔ Nop5 b := by
  rw [kgForm5, Nop5]
  split_ifs with h <;> simp [h]

theorem nop5_head {b : List UInt8} (h : Nop5 b) : b.getD 0 0 = 0x0f ∨ b.getD 0 0 = 0x66 := by
  rcases h with rfl | rfl
  · exact .inl rfl
  · exact .inr rfl

theorem form_call {b : List UInt8} : kgForm5 b = .call ↔ CallRel32 b := by
  rw [CallRel32]
  constructor
  · intro h
    rw [kgForm5] at h
    split_ifs at h with _ hcall
    exact hcall
  · intro h
    have hnop : ¬ (b = [0x0f, 0x1f, 0x44, 0x00, 0x00] ∨ b = [0x66, 0x66, 0x90, 0x66, 0x90]) := by
      intro hnop
      rcases nop5_head hnop with h' | h' <;> rw [h'] at h <;> exact absurd h (by decide)
    rw [kgForm5, if_neg hnop, if_pos h]

theorem form_jmp {b : List UInt8} : kgForm5 b = .jmp ↔ JmpRel32 b := by
  rw [JmpRel32]
  constructor
  · intro h
    rw [kgForm5] at h
    split_ifs at h with _ _ hjmp
    exact hjmp
  · intro h
    have hnop : ¬ (b = [0x0f, 0x1f, 0x44, 0x00, 0x00] ∨ b = [0x66, 0x66, 0x90, 0x66, 0x90]) := by
      intro hnop
      rcases nop5_head hnop with h' | h' <;> rw [h'] at h <;> exact absurd h (by decide)
    rw [kgForm5, if_neg hnop, if_neg (by rw [h]; decide), if_pos h]

theorem form_branchable {b : List UInt8} :
    (kgForm5 b).Branchable ↔ Nop5 b ∨ CallRel32 b ∨ JmpRel32 b := by
  rw [KgForm.Branchable, form_nop5, form_call, form_jmp]

/-! ### One window

The judgement of a window is a table, with the old form at one side and the new one
at the other.  Between branches the target decides, which is why the map of known
code appears only here.
-/

section Window

variable {m : CodeMap} {r : TextRegion} {delta s : Nat} {fo fn : KgForm} {n : List UInt8}

/-- Arbitrary bytes on either side are no patch site, unless they become a jump. -/
theorem judge_none (hother : fo = .other ∨ fn = .other)
    (hprobe : ¬ (fo = .other ∧ fn = .jmp ∧ delta = 0)) :
    kgJudgeWindow m r delta s fo fn n = none := by
  rw [kgJudgeWindow]
  by_cases hboth : fo = .other ∧ fn = .other
  · rw [if_pos hboth]
  · rw [if_neg hboth, if_pos hother, if_neg hprobe]

theorem judge_probe (hfn : fn = .jmp) (hdelta : delta = 0) :
    ∃ seg, kgJudgeWindow m r delta s .other fn n = some seg ∧ seg.v ≠ .benign := by
  subst hfn hdelta
  rw [kgJudgeWindow, if_neg (by decide), if_pos (by decide), if_pos ⟨rfl, rfl, rfl⟩]
  refine ⟨_, rfl, ?_⟩
  simp only
  split_ifs <;> decide

theorem judge_watch (hfo : fo ≠ .other) (hfn : fn ≠ .other)
    (hret : (fo = .xor5 ∨ fo = .ret5) ∨ (fn = .xor5 ∨ fn = .ret5)) :
    ∃ seg, kgJudgeWindow m r delta s fo fn n = some seg ∧ seg.v ≠ .benign := by
  rw [kgJudgeWindow, if_neg (fun h => hfo h.1), if_neg (fun h => h.elim hfo hfn),
    if_pos (by rw [← or_assoc]; exact hret)]
  exact ⟨_, rfl, nofun⟩

theorem KgForm.Branchable.ne {f : KgForm} (h : f.Branchable) :
    f ≠ .other ∧ ¬ (f = .xor5 ∨ f = .ret5) := by
  rcases h with rfl | rfl | rfl <;> decide

/-- The test for known code, as the code writes it. -/
theorem knownTarget_iff (t : UInt64) (call : Bool) :
    ((kgAddrInKernelText m t || kgRegionContains r.toTextExtent t) ||
      (call && (kgInTrackedModule m t || kgInModuleArea m t))) = true ↔
      KnownTarget m r (call = true) t := by
  simp only [KnownTarget, Bool.or_eq_true, Bool.and_eq_true, or_assoc]

/-- Between NOP5, CALL and JMP the target decides. -/
theorem judge_branchable (delta : Nat) (hfo : fo.Branchable) (hfn : fn.Branchable) :
    (fn = .call ∨ fn = .jmp → KnownTarget m r (fn = .call) (kgBranchTarget (r.addr s) n)) ∧
      kgJudgeWindow m r delta s fo fn n = some ⟨s + 5, .benign, 0, r.addr s⟩ ∨
    ¬ (fn = .call ∨ fn = .jmp → KnownTarget m r (fn = .call) (kgBranchTarget (r.addr s) n)) ∧
      ∃ seg, kgJudgeWindow m r delta s fo fn n = some seg ∧ seg.v ≠ .benign := by
  have hret : ¬ (fo = .xor5 ∨ fo = .ret5 ∨ fn = .xor5 ∨ fn = .ret5) := by
    rw [← or_assoc]
    exact fun h => h.elim hfo.ne.2 hfn.ne.2
  rw [kgJudgeWindow, if_neg (fun h => hfo.ne.1 h.1), if_neg (fun h => h.elim hfo.ne.1 hfn.ne.1),
    if_neg hret]
  by_cases hbranch : fn = .call ∨ fn = .jmp
  · have hiff := knownTarget_iff (m := m) (r := r) (kgBranchTarget (r.addr s) n)
      (decide (fn = .call))
    rw [decide_eq_true_iff] at hiff
    rw [if_pos hbranch]
    by_cases hknown : KnownTarget m r (fn = .call) (kgBranchTarget (r.addr s) n)
    · left
      exact ⟨fun _ => hknown, if_pos (hiff.mpr hknown)⟩
    · right
      refine ⟨fun h => hknown (h hbranch), _, if_neg (fun h => hknown (hiff.mp h)), ?_⟩
      simp only
      split_ifs <;> nofun
  · left
    exact ⟨fun h => absurd h hbranch, if_neg hbranch⟩

theorem judge_none_iff : kgJudgeWindow m r delta s fo fn n = none ↔
    (fo = .other ∨ fn = .other) ∧ ¬ (fo = .other ∧ fn = .jmp ∧ delta = 0) := by
  refine ⟨fun h => ?_, fun h => judge_none h.1 h.2⟩
  have hno : ¬ ∃ seg, kgJudgeWindow m r delta s fo fn n = some seg := by
    rintro ⟨seg, hseg⟩
    rw [h] at hseg
    cases hseg
  have hother : fo = .other ∨ fn = .other := by
    by_contra hneither
    rw [not_or] at hneither
    by_cases hret : (fo = .xor5 ∨ fo = .ret5) ∨ (fn = .xor5 ∨ fn = .ret5)
    · obtain ⟨seg, hseg, -⟩ := judge_watch hneither.1 hneither.2 hret
      exact hno ⟨seg, hseg⟩
    · rw [not_or] at hret
      have hbo := ((form_cases fo).resolve_left hneither.1).resolve_left hret.1
      have hbn := ((form_cases fn).resolve_left hneither.2).resolve_left hret.2
      rcases judge_branchable delta hbo hbn with ⟨-, hseg⟩ | ⟨-, seg, hseg, -⟩
      · exact hno ⟨_, hseg⟩
      · exact hno ⟨seg, hseg⟩
  refine ⟨hother, ?_⟩
  rintro ⟨rfl, hjmp, hdelta⟩
  obtain ⟨seg, hseg, -⟩ := judge_probe hjmp hdelta
  exact hno ⟨seg, hseg⟩

/-- A window judged benign is a patch of five bytes. -/
theorem judge_benign {new : Nat → UInt8} {seg : KgSeg}
    (h : kgJudgeWindow m r delta s (kgForm5 (kgBytes5 r.copy s)) (kgForm5 (kgBytes5 new s))
      (kgBytes5 new s) = some seg)
    (hv : seg.v = .benign) : LongPatch m r new s ∧ seg = ⟨s + 5, .benign, 0, r.addr s⟩ := by
  generalize hfo : kgForm5 (kgBytes5 r.copy s) = fo at h
  generalize hfn : kgForm5 (kgBytes5 new s) = fn at h
  have hno : (∃ seg', kgJudgeWindow m r delta s fo fn (kgBytes5 new s) = some seg' ∧
      seg'.v ≠ .benign) → False := by
    rintro ⟨seg', hseg', hv'⟩
    rw [h, Option.some.injEq] at hseg'
    exact hv' (hseg' ▸ hv)
  have hother : ¬ (fo = .other ∨ fn = .other) := by
    intro hother
    by_cases hprobe : fo = .other ∧ fn = .jmp ∧ delta = 0
    · rw [hprobe.1] at hno
      exact hno (judge_probe hprobe.2.1 hprobe.2.2)
    · rw [judge_none hother hprobe] at h
      cases h
  rw [not_or] at hother
  have hret : ¬ ((fo = .xor5 ∨ fo = .ret5) ∨ (fn = .xor5 ∨ fn = .ret5)) :=
    fun hret => hno (judge_watch hother.1 hother.2 hret)
  rw [not_or] at hret
  have hbo : fo.Branchable := ((form_cases fo).resolve_left hother.1).resolve_left hret.1
  have hbn : fn.Branchable := ((form_cases fn).resolve_left hother.2).resolve_left hret.2
  rcases judge_branchable delta hbo hbn with ⟨hknown, hseg⟩ | ⟨-, hseg⟩
  · rw [h, Option.some.injEq] at hseg
    refine ⟨⟨?_, ?_, ?_⟩, hseg⟩
    · rw [← form_branchable, hfo]
      exact hbo
    · rw [← form_branchable, hfn]
      exact hbn
    · rw [← form_call, ← form_jmp, hfn]
      exact hknown
  · exact (hno hseg).elim

end Window

/-! ### One site

A site tries the window starts in order, from the byte at hand backwards, and takes
the first that matches.  The starts in front of the byte are tried at the head of a
run only.
-/

section Site

variable {m : CodeMap} {r : TextRegion} {rs re : Nat} {newb : Nat → UInt8}

theorem matchShort_some {pos : Nat} (hin : pos + 2 ≤ r.size)
    (h : ShortPatch r.copy (kgNewAt r rs re newb) pos) :
    kgMatchShort r rs re newb pos = some ⟨pos + 2, .benign, 0, r.addr pos⟩ := by
  rw [kgMatchShort, if_pos hin]
  exact if_pos h

theorem matchShort_none {pos : Nat}
    (h : ¬ (pos + 2 ≤ r.size ∧ ShortPatch r.copy (kgNewAt r rs re newb) pos)) :
    kgMatchShort r rs re newb pos = none := by
  rw [kgMatchShort]
  by_cases hin : pos + 2 ≤ r.size
  · rw [if_pos hin]
    exact if_neg fun hshort => h ⟨hin, hshort⟩
  · rw [if_neg hin]

theorem matchWindow_benign {pos delta : Nat} {seg : KgSeg}
    (h : kgMatchWindow m r rs re newb pos delta = some seg) (hv : seg.v = .benign) :
    pos - delta + 5 ≤ r.size ∧ LongPatch m r (kgNewAt r rs re newb) (pos - delta) ∧
      seg = ⟨pos - delta + 5, .benign, 0, r.addr (pos - delta)⟩ := by
  rw [kgMatchWindow] at h
  by_cases hin : pos - delta + 5 > r.size
  · rw [if_pos hin] at h
    cases h
  · rw [if_neg hin] at h
    simp only at h
    split_ifs at h with hop
    exact ⟨by omega, judge_benign h hv⟩

/-- A window with a long patch matches, from its start or behind an opcode that stays. -/
theorem matchWindow_long {pos delta : Nat} (hin : pos - delta + 5 ≤ r.size)
    (hlong : LongPatch m r (kgNewAt r rs re newb) (pos - delta))
    (hop : delta ≠ 0 → kgNewAt r rs re newb (pos - delta) = r.copy (pos - delta) ∧
      (r.copy (pos - delta) = 0xe8 ∨ r.copy (pos - delta) = 0xe9)) :
    kgMatchWindow m r rs re newb pos delta =
      some ⟨pos - delta + 5, .benign, 0, r.addr (pos - delta)⟩ := by
  have hpass : ¬ (delta ≠ 0 ∧ (r.copy (pos - delta) ≠ kgNewAt r rs re newb (pos - delta) ∨
      (r.copy (pos - delta) ≠ 0xe8 ∧ r.copy (pos - delta) ≠ 0xe9))) := by
    rintro ⟨hdelta, hbad⟩
    obtain ⟨hsame, hbranch⟩ := hop hdelta
    rcases hbad with hne | ⟨hcall, hjmp⟩
    · exact hne hsame.symm
    · exact hbranch.elim hcall hjmp
  rw [kgMatchWindow, if_neg (by omega)]
  refine (if_neg hpass).trans ?_
  rcases judge_branchable delta (form_branchable.mpr hlong.before)
    (form_branchable.mpr hlong.after) with ⟨-, hseg⟩ | ⟨hbad, -⟩
  · exact hseg
  · refine absurd ?_ hbad
    rw [form_call, form_jmp]
    exact hlong.target

/-- A window whose first byte stays and is before `pos` matches when it is a branch. -/
theorem matchWindow_before {pos delta : Nat} (hdelta : delta ≠ 0)
    (hsame : kgNewAt r rs re newb (pos - delta) = r.copy (pos - delta)) :
    kgMatchWindow m r rs re newb pos delta = none ↔
      ¬ (pos - delta + 5 ≤ r.size ∧
        (r.copy (pos - delta) = 0xe8 ∨ r.copy (pos - delta) = 0xe9)) := by
  have hold : (kgBytes5 r.copy (pos - delta)).getD 0 0 = r.copy (pos - delta) := rfl
  have hnew : (kgBytes5 (kgNewAt r rs re newb) (pos - delta)).getD 0 0 =
      r.copy (pos - delta) := hsame
  rw [kgMatchWindow]
  by_cases hin : pos - delta + 5 > r.size
  · rw [if_pos hin]
    simp only [true_iff]
    omega
  · rw [if_neg hin]
    simp only [hold, hnew, ne_eq, not_true_eq_false, false_or]
    by_cases hop : r.copy (pos - delta) = 0xe8 ∨ r.copy (pos - delta) = 0xe9
    · have hpass : ¬ (¬ delta = 0 ∧ ¬ r.copy (pos - delta) = 0xe8 ∧
          ¬ r.copy (pos - delta) = 0xe9) := fun h => hop.elim h.2.1 h.2.2
      have hfo : kgForm5 (kgBytes5 r.copy (pos - delta)) ≠ .other := by
        refine (KgForm.Branchable.ne ?_).1
        rw [form_branchable, CallRel32, JmpRel32, hold]
        exact .inr hop
      have hfn : kgForm5 (kgBytes5 (kgNewAt r rs re newb) (pos - delta)) ≠ .other := by
        refine (KgForm.Branchable.ne ?_).1
        rw [form_branchable, CallRel32, JmpRel32, hnew]
        exact .inr hop
      rw [if_neg hpass, judge_none_iff]
      refine ⟨fun h => absurd h.1 ?_, fun h => absurd ⟨by omega, hop⟩ h⟩
      exact fun h => h.elim hfo hfn
    · have hstop : ¬ delta = 0 ∧ ¬ r.copy (pos - delta) = 0xe8 ∧
          ¬ r.copy (pos - delta) = 0xe9 := ⟨hdelta, not_or.mp hop⟩
      rw [if_pos hstop]
      simp only [true_iff]
      exact fun h => hop h.2

/-- The window from `pos` on, where no opcode has to stay. -/
theorem matchWindow_at {pos : Nat} (hin : pos + 5 ≤ r.size) :
    kgMatchWindow m r rs re newb pos 0 = kgJudgeWindow m r 0 pos (kgForm5 (kgBytes5 r.copy pos))
      (kgForm5 (kgBytes5 (kgNewAt r rs re newb) pos)) (kgBytes5 (kgNewAt r rs re newb) pos) := by
  rw [kgMatchWindow, Nat.sub_zero, if_neg (by omega)]
  exact if_neg fun h => h.1 rfl

/-- The loop over the window starts ends at the first one that matches. -/
theorem matchLoop_some {pos : Nat} {deltas : List Nat} {seg : KgSeg}
    (hsorted : deltas.Pairwise (· < ·)) (h : kgMatchLoop m r rs re newb pos deltas = some seg) :
    ∃ delta ∈ deltas, delta ≤ pos ∧ kgMatchWindow m r rs re newb pos delta = some seg ∧
      ∀ delta' ∈ deltas, delta' < delta → kgMatchWindow m r rs re newb pos delta' = none := by
  induction deltas with
  | nil => cases h
  | cons delta rest ih =>
      obtain ⟨hlt, hrest⟩ := List.pairwise_cons.mp hsorted
      rw [kgMatchLoop] at h
      by_cases hle : delta > pos
      · rw [if_pos hle] at h
        cases h
      · rw [if_neg hle] at h
        cases hwin : kgMatchWindow m r rs re newb pos delta with
        | some seg' =>
            rw [hwin] at h
            simp only [Option.some.injEq] at h
            subst h
            refine ⟨delta, List.mem_cons_self, by omega, hwin, ?_⟩
            intro delta' hmem hless
            rcases List.mem_cons.mp hmem with rfl | hmem
            · omega
            · have := hlt delta' hmem
              omega
        | none =>
            rw [hwin] at h
            obtain ⟨delta', hmem, hle', hwin', hearlier⟩ := ih hrest h
            refine ⟨delta', List.mem_cons_of_mem _ hmem, hle', hwin', ?_⟩
            intro delta'' hmem'' hless
            rcases List.mem_cons.mp hmem'' with rfl | hmem''
            · exact hwin
            · exact hearlier delta'' hmem'' hless

theorem matchLoop_eq_some {pos delta : Nat} {deltas : List Nat} {seg : KgSeg}
    (hsorted : deltas.Pairwise (· < ·)) (hmem : delta ∈ deltas) (hle : delta ≤ pos)
    (hwin : kgMatchWindow m r rs re newb pos delta = some seg)
    (hearlier : ∀ delta' ∈ deltas, delta' < delta →
      kgMatchWindow m r rs re newb pos delta' = none) :
    kgMatchLoop m r rs re newb pos deltas = some seg := by
  induction deltas with
  | nil => exact absurd hmem List.not_mem_nil
  | cons d rest ih =>
      obtain ⟨hlt, hrest⟩ := List.pairwise_cons.mp hsorted
      rw [kgMatchLoop]
      rcases List.mem_cons.mp hmem with rfl | hmem
      · rw [if_neg (by omega), hwin]
      · have hless := hlt delta hmem
        rw [if_neg (by omega), hearlier d List.mem_cons_self hless]
        exact ih hrest hmem fun delta' hmem' => hearlier delta' (List.mem_cons_of_mem _ hmem')

theorem deltas_sorted (first : Bool) :
    (if first then [0, 1, 2, 3, 4] else [0] : List Nat).Pairwise (· < ·) := by
  cases first <;> decide

theorem mem_deltas {first : Bool} {delta : Nat} :
    delta ∈ (if first then [0, 1, 2, 3, 4] else [0] : List Nat) ↔
      delta ≤ 4 ∧ (first = false → delta = 0) := by
  cases first with
  | true =>
      simp only [if_true, List.mem_cons, List.not_mem_nil, or_false]
      exact ⟨fun h => ⟨by omega, nofun⟩, fun h => by omega⟩
  | false =>
      simp only [Bool.false_eq_true, if_false, List.mem_singleton]
      exact ⟨fun h => ⟨by omega, fun _ => h⟩, fun h => h.2 trivial⟩

theorem mem_deltas_first {delta : Nat} (h : delta ≤ 4) :
    delta ∈ (if true then [0, 1, 2, 3, 4] else [0] : List Nat) :=
  mem_deltas.mpr ⟨h, fun hlater => absurd hlater (by decide)⟩

/-- The window starts are tried in order, so that `break` leaves out only later ones. -/
theorem matchLoop_none_iff {pos : Nat} {deltas : List Nat} (hsorted : deltas.Pairwise (· < ·)) :
    kgMatchLoop m r rs re newb pos deltas = none ↔
      ∀ delta ∈ deltas, delta ≤ pos → kgMatchWindow m r rs re newb pos delta = none := by
  induction deltas with
  | nil => simp [kgMatchLoop]
  | cons delta rest ih =>
      obtain ⟨hlt, hrest⟩ := List.pairwise_cons.mp hsorted
      rw [kgMatchLoop, List.forall_mem_cons]
      by_cases hle : delta > pos
      · rw [if_pos hle]
        refine ⟨fun _ => ⟨fun h => absurd h (by omega), ?_⟩, fun _ => rfl⟩
        intro delta' hmem h
        have := hlt delta' hmem
        omega
      · rw [if_neg hle]
        cases hwin : kgMatchWindow m r rs re newb pos delta with
        | some seg =>
            simp only [reduceCtorEq, false_iff]
            intro h
            exact absurd (h.1 (by omega)) nofun
        | none =>
            simp only [implies_true, true_and]
            exact ih hrest

/-- A site found benign at `pos` is a patch window around `pos`, and from `pos` on unless
it is the first of the run. -/
theorem matchSite_benign {pos : Nat} {first : Bool} {seg : KgSeg}
    (h : kgMatchSite m r rs re newb pos first = some seg) (hv : seg.v = .benign) :
    ∃ w, PatchWindow m r (kgNewAt r rs re newb) w ∧ w.Has pos ∧ seg.stop = w.hi ∧
      (first = false → w.lo = pos) := by
  rw [kgMatchSite] at h
  by_cases hshort : pos + 2 ≤ r.size ∧ ShortPatch r.copy (kgNewAt r rs re newb) pos
  · rw [matchShort_some hshort.1 hshort.2] at h
    simp only [Option.some.injEq] at h
    subst h
    exact ⟨⟨pos, pos + 2⟩, .short hshort.1 hshort.2, ⟨Nat.le_refl pos, by simp⟩, rfl, fun _ => rfl⟩
  · rw [matchShort_none hshort] at h
    obtain ⟨delta, hmem, hle, hwin, -⟩ := matchLoop_some (deltas_sorted first) h
    obtain ⟨hin, hlong, rfl⟩ := matchWindow_benign hwin hv
    have hdelta := mem_deltas.mp hmem
    refine ⟨⟨pos - delta, pos - delta + 5⟩, .long hin hlong, ⟨?_, ?_⟩, rfl, ?_⟩
    · exact Nat.sub_le pos delta
    · simp only
      omega
    · intro hfirst
      simp only [hdelta.2 hfirst, Nat.sub_zero]

/-! ### A run

The loop consumes a window or a single byte.  `WindowsFrom` has the windows so far in
order, and the next one may not begin before the end of the last.
-/

theorem rank_eq_zero {v : KgVerdict} (h : v.rank ≤ KgVerdict.benign.rank) : v = .benign := by
  cases v with
  | benign => rfl
  | watch => exact absurd h (by decide)
  | critical => exact absurd h (by decide)

theorem add_rank (out : KgVerdictInfo) (seg : KgSeg) :
    out.v.rank ≤ (out.add seg).v.rank ∧ seg.v.rank ≤ (out.add seg).v.rank := by
  rw [KgVerdictInfo.add]
  by_cases h : seg.v.rank > out.v.rank
  · simp only [h, if_true]
    omega
  · simp only [h, if_false]
    omega

theorem noSite_rank (r : TextRegion) (rs re : Nat) (newb : Nat → UInt8) (pos : Nat)
    (out : KgVerdictInfo) :
    1 ≤ (kgNoSite r rs re newb pos out).v.rank := by
  rw [kgNoSite]
  split_ifs
  · show 1 ≤ (out.v.max .watch).rank
    cases out.v <;> decide
  · exact Nat.le_succ 1

theorem noSite_not_benign {r : TextRegion} {rs re : Nat} {newb : Nat → UInt8} {pos : Nat}
    {out : KgVerdictInfo} : (kgNoSite r rs re newb pos out).v ≠ .benign := by
  intro h
  have hrank := noSite_rank r rs re newb pos out
  rw [h] at hrank
  exact absurd hrank (by decide)

/-- The verdict only gets worse. -/
theorem classifyLoop_rank (fuel pos : Nat) (first : Bool) (out : KgVerdictInfo)
    (h : (kgClassifyLoop m r rs re newb fuel pos first out).v = .benign) : out.v = .benign := by
  induction fuel generalizing pos first out with
  | zero => exact h
  | succ fuel ih =>
      rw [kgClassifyLoop] at h
      split_ifs at h with hpos hgap
      · exact ih _ _ _ h
      · cases hsite : kgMatchSite m r rs re newb pos first with
        | none =>
            rw [hsite] at h
            exact absurd h noSite_not_benign
        | some seg =>
            rw [hsite] at h
            have hadd := ih _ _ _ h
            have hrank := (add_rank out seg).1
            rw [hadd] at hrank
            exact rank_eq_zero hrank
      · exact h

/--
The windows of a run from `pos` on, in order.  Behind the first window the bytes up to
`pos` are consumed, so no later window starts before it.
-/
structure WindowsFrom (m : CodeMap) (r : TextRegion) (rs re : Nat) (newb : Nat → UInt8) (pos : Nat)
    (first : Bool) (ws : List Span) : Prop where
  disjoint : ws.Pairwise fun a b => a.hi ≤ b.lo
  windows : ∀ w ∈ ws, PatchWindow m r (kgNewAt r rs re newb) w
  behind : first = false → ∀ w ∈ ws, pos ≤ w.lo
  covers : ∀ p, pos ≤ p → p < re → newb (p - rs) ≠ r.copy p → ∃ w ∈ ws, w.Has p

theorem WindowsFrom.nil {pos : Nat} {first : Bool} (h : re ≤ pos) :
    WindowsFrom m r rs re newb pos first [] :=
  ⟨List.Pairwise.nil, by simp, by simp, by omega⟩

/-- A gap byte. -/
theorem WindowsFrom.skip {pos : Nat} {first : Bool} {ws : List Span}
    (h : WindowsFrom m r rs re newb (pos + 1) first ws) (hgap : newb (pos - rs) = r.copy pos) :
    WindowsFrom m r rs re newb pos first ws := by
  refine ⟨h.disjoint, h.windows, ?_, ?_⟩
  · intro hfirst w hw
    exact Nat.le_of_succ_le (h.behind hfirst w hw)
  · intro p hp hpre hd
    rcases Nat.eq_or_lt_of_le hp with rfl | hgt
    · exact absurd hgap hd
    · exact h.covers p hgt hpre hd

/-- A window, and what is behind it. -/
theorem WindowsFrom.cons {pos : Nat} {first : Bool} {w : Span} {ws : List Span}
    (h : WindowsFrom m r rs re newb w.hi false ws)
    (hw : PatchWindow m r (kgNewAt r rs re newb) w) (hhas : w.Has pos)
    (hlo : first = false → w.lo = pos) :
    WindowsFrom m r rs re newb pos first (w :: ws) := by
  refine ⟨List.pairwise_cons.mpr ⟨h.behind rfl, h.disjoint⟩, ?_, ?_, ?_⟩
  · intro w' hw'
    rcases List.mem_cons.mp hw' with rfl | hw'
    · exact hw
    · exact h.windows w' hw'
  · intro hfirst w' hw'
    rcases List.mem_cons.mp hw' with rfl | hw'
    · exact Nat.le_of_eq (hlo hfirst).symm
    · exact Nat.le_trans (Nat.le_of_lt hhas.2) (h.behind rfl w' hw')
  · intro p hp hpre hd
    rcases Nat.lt_or_ge p w.hi with hin | hout
    · exact ⟨w, List.mem_cons_self, Nat.le_trans hhas.1 hp, hin⟩
    · obtain ⟨w', hw', hp'⟩ := h.covers p hout hpre hd
      exact ⟨w', List.mem_cons_of_mem _ hw', hp'⟩

theorem classifyLoop_benign (fuel pos : Nat) (first : Bool) (out : KgVerdictInfo)
    (hfuel : re ≤ pos + fuel) (hpos : rs ≤ pos)
    (h : (kgClassifyLoop m r rs re newb fuel pos first out).v = .benign) :
    ∃ ws : List Span, WindowsFrom m r rs re newb pos first ws := by
  induction fuel generalizing pos first out with
  | zero => exact ⟨[], .nil hfuel⟩
  | succ fuel ih =>
      rw [kgClassifyLoop] at h
      split_ifs at h with hlt hgap
      · obtain ⟨ws, hws⟩ := ih (pos + 1) first out (by omega) (by omega) h
        exact ⟨ws, hws.skip hgap⟩
      · cases hsite : kgMatchSite m r rs re newb pos first with
        | none =>
            rw [hsite] at h
            exact absurd h noSite_not_benign
        | some seg =>
            rw [hsite] at h
            simp only at h
            have hv : seg.v = .benign := by
              have hadd := classifyLoop_rank _ _ _ _ h
              have hrank := (add_rank out seg).2
              rw [hadd] at hrank
              exact rank_eq_zero hrank
            obtain ⟨w, hw, hhas, hstop, hlo⟩ := matchSite_benign hsite hv
            have hend : pos < seg.stop := hstop ▸ hhas.2
            rw [if_pos hend] at h
            obtain ⟨ws, hws⟩ := ih seg.stop false _ (by omega) (by omega) h
            rw [hstop] at hws
            exact ⟨w :: ws, hws.cons hw hhas hlo⟩
      · exact ⟨[], .nil (by omega)⟩

end Site

/--
Soundness of the benign verdict: every byte of the run that differs lies in one of a
sequence of disjoint windows, and each of them is a patch site of the kernel.
-/
theorem kgClassify_benign (m : CodeMap) (r : TextRegion) (rs re : Nat) (newb : Nat → UInt8)
    (h : (kgClassify m r rs re newb).v = .benign) :
    ∃ ws : List Span, ws.Pairwise (fun a b => a.hi ≤ b.lo) ∧
      (∀ w ∈ ws, PatchWindow m r (kgNewAt r rs re newb) w) ∧
      ∀ p, rs ≤ p → p < re → newb (p - rs) ≠ r.copy p → ∃ w ∈ ws, w.Has p := by
  obtain ⟨ws, hws⟩ := classifyLoop_benign (re - rs) rs true _ (by omega) (Nat.le_refl rs) h
  exact ⟨ws, hws.disjoint, hws.windows, hws.covers⟩

/-- Two NOP5 behind each other. -/
def twoNops : TextRegion where
  base := 0
  size := 10
  kernel := false
  copy p := [0x0f, 0x1f, 0x44, 0x00, 0x00].getD (p % 5) 0

/-- Two calls, each to its own start. -/
def twoCalls (p : Nat) : UInt8 := [0xe8, 0xfb, 0xff, 0xff, 0xff].getD (p % 5) 0

theorem kgClassify_benign_twoCalls :
    (kgClassify nowhere twoNops 0 10 twoCalls).v = .benign ∧
    ∃ ws : List Span, ws.Pairwise (fun a b => a.hi ≤ b.lo) ∧
      (∀ w ∈ ws, PatchWindow nowhere twoNops (kgNewAt twoNops 0 10 twoCalls) w) ∧
      ∀ p, 0 ≤ p → p < 10 → twoCalls (p - 0) ≠ twoNops.copy p → ∃ w ∈ ws, w.Has p := by
  have h : (kgClassify nowhere twoNops 0 10 twoCalls).v = .benign := by decide +kernel
  exact ⟨h, kgClassify_benign _ _ _ _ _ h⟩

end KernelGuard
