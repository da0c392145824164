/-
A lone breakpoint.

The rule for an int3 comes last in `kg_classify`, behind the windows, so it is reached only
where no window matches.  `breakpoint_watch_iff` says when that is: a window does match when
one of the four bytes before the breakpoint happens to be the opcode of a call or a jump,
because the change is then a new displacement of it; and when the breakpoint gives way to a
jump, which is what an optimised kprobe looks like.
-/
import KernelGuard.Proofs.TextSite

namespace KernelGuard

section Breakpoint

variable {m : CodeMap} {r : TextRegion} {p : Nat} {b : UInt8}

/-- The text with the one byte at `p` changed to `b`. -/
theorem newAt_single (r : TextRegion) (p : Nat) (b : UInt8) (q : Nat) :
    kgNewAt r p (p + 1) (fun _ => b) q = if q = p then b else r.copy q := by
  rw [kgNewAt]
  by_cases h : q = p
  · rw [if_pos h, if_pos (by omega)]
  · rw [if_neg h, if_neg (by omega)]

/-- The run is one byte, so the first site decides. -/
theorem classify_single (hne : b ≠ r.copy p) :
    kgClassify m r p (p + 1) (fun _ => b) =
      match kgMatchSite m r p (p + 1) (fun _ => b) p true with
      | none => kgNoSite r p (p + 1) (fun _ => b) p
          ⟨.benign, if r.kernel then kgTextfKernel else 0, r.addr p, 1⟩
      | some seg => KgVerdictInfo.add
          ⟨.benign, if r.kernel then kgTextfKernel else 0, r.addr p, 1⟩ seg := by
  rw [kgClassify, Nat.add_sub_cancel_left, kgClassifyLoop, if_pos (Nat.lt_succ_self p),
    if_neg hne]
  rfl

/-- No form starts with an int3. -/
theorem form_int3 {l : List UInt8} (h : l.getD 0 0 = 0xcc) : kgForm5 l = .other := by
  rw [kgForm5]
  split_ifs with hnop hcall hjmp hxor hret
  · rcases hnop with rfl | rfl <;> exact absurd h (by decide)
  · exact absurd (h.symm.trans hcall) (by decide)
  · exact absurd (h.symm.trans hjmp) (by decide)
  · rw [hxor] at h
    exact absurd h (by decide)
  · rw [hret] at h
    exact absurd h (by decide)
  · rfl

theorem no_short (hcc : b = 0xcc ∨ r.copy p = 0xcc) :
    ¬ ShortPatch r.copy (kgNewAt r p (p + 1) (fun _ => b)) p := by
  rw [ShortPatch, newAt_single, if_pos rfl]
  rintro (⟨hold, -, hnew⟩ | ⟨hnew, -, hold⟩) <;> rcases hcc with hcc | hcc <;>
    first
      | exact absurd (hcc.symm.trans hnew) (by decide)
      | exact absurd (hcc.symm.trans hold) (by decide)

/-- The window that starts at the breakpoint matches when it becomes a jump. -/
theorem window_at_int3 (hcc : b = 0xcc ∨ r.copy p = 0xcc) :
    kgMatchWindow m r p (p + 1) (fun _ => b) p 0 = none ↔
      ¬ (p + 5 ≤ r.size ∧ r.copy p = 0xcc ∧ b = 0xe9) := by
  have hold : (kgBytes5 r.copy p).getD 0 0 = r.copy p := rfl
  have hnew : (kgBytes5 (kgNewAt r p (p + 1) (fun _ => b)) p).getD 0 0 = b := by
    show kgNewAt r p (p + 1) (fun _ => b) p = b
    rw [newAt_single, if_pos rfl]
  by_cases hin : p + 5 > r.size
  · rw [kgMatchWindow, Nat.sub_zero, if_pos hin]
    simp only [true_iff]
    omega
  · rw [matchWindow_at (by omega), judge_none_iff]
    generalize kgBytes5 r.copy p = o at hold ⊢
    generalize kgBytes5 (kgNewAt r p (p + 1) (fun _ => b)) p = n at hnew ⊢
    have hother : kgForm5 o = .other ∨ kgForm5 n = .other := by
      rcases hcc with hcc | hcc
      · exact .inr (form_int3 (hnew.trans hcc))
      · exact .inl (form_int3 (hold.trans hcc))
    constructor
    · rintro ⟨-, hno⟩ ⟨-, hint3, hjump⟩
      exact hno ⟨form_int3 (hold.trans hint3), form_jmp.mpr (hnew.trans hjump), rfl⟩
    · intro hno
      refine ⟨hother, ?_⟩
      rintro ⟨-, hfn, -⟩
      have hb : b = 0xe9 := hnew.symm.trans (form_jmp.mp hfn)
      rcases hcc with hcc | hcc
      · rw [hcc] at hb
        exact absurd hb (by decide)
      · exact hno ⟨by omega, hcc, hb⟩

/-- An earlier window matches when it starts with the opcode of a branch. -/
theorem window_before_int3 {delta : Nat} (hdelta : delta ≠ 0) (hle : delta ≤ p) :
    kgMatchWindow m r p (p + 1) (fun _ => b) p delta = none ↔
      ¬ (p - delta + 5 ≤ r.size ∧ (r.copy (p - delta) = 0xe8 ∨ r.copy (p - delta) = 0xe9)) := by
  refine matchWindow_before hdelta ?_
  rw [newAt_single, if_neg (by omega)]

/--
The change of the byte at `p` to `b` is taken for that of a branch: the breakpoint becomes
a jump, or a branch opcode stands at most four bytes before it.
-/
def TakenForBranch (r : TextRegion) (p : Nat) (b : UInt8) : Prop :=
  (p + 5 ≤ r.size ∧ r.copy p = 0xcc ∧ b = 0xe9) ∨
  ∃ delta, 1 ≤ delta ∧ delta ≤ 4 ∧ delta ≤ p ∧ p - delta + 5 ≤ r.size ∧
    (r.copy (p - delta) = 0xe8 ∨ r.copy (p - delta) = 0xe9)

theorem matchSite_int3 (hcc : b = 0xcc ∨ r.copy p = 0xcc) :
    kgMatchSite m r p (p + 1) (fun _ => b) p true = none ↔ ¬ TakenForBranch r p b := by
  rw [kgMatchSite, matchShort_none fun h => no_short hcc h.2]
  rw [matchLoop_none_iff (deltas_sorted true)]
  constructor
  · rintro hnone (hjump | ⟨delta, hpos, hmax, hle, hbranch⟩)
    · exact (window_at_int3 hcc).mp (hnone 0 (by decide) (Nat.zero_le p)) hjump
    · have hmem := mem_deltas_first hmax
      exact (window_before_int3 (by omega) hle).mp (hnone delta hmem hle) hbranch
  · intro hno delta hmem hle
    by_cases hzero : delta = 0
    · subst hzero
      exact (window_at_int3 hcc).mpr fun hjump => hno (.inl hjump)
    · refine (window_before_int3 hzero hle).mpr fun hbranch => hno (.inr ?_)
      exact ⟨delta, by omega, (mem_deltas.mp hmem).1, hle, hbranch⟩

/-- A site that matches never carries the breakpoint flag. -/
theorem judge_flags {delta s : Nat} {fo fn : KgForm} {n : List UInt8} {seg : KgSeg}
    (h : kgJudgeWindow m r delta s fo fn n = some seg) :
    seg.flags = 0 ∨ seg.flags = kgTextfUnknownTarget := by
  rw [kgJudgeWindow] at h
  simp only at h
  split_ifs at h <;> cases h <;> simp

theorem matchSite_flags {rs re pos : Nat} {newb : Nat → UInt8} {first : Bool} {seg : KgSeg}
    (h : kgMatchSite m r rs re newb pos first = some seg) :
    seg.flags = 0 ∨ seg.flags = kgTextfUnknownTarget := by
  rw [kgMatchSite] at h
  by_cases hshort : pos + 2 ≤ r.size ∧ ShortPatch r.copy (kgNewAt r rs re newb) pos
  · rw [matchShort_some hshort.1 hshort.2] at h
    cases h
    exact .inl rfl
  · rw [matchShort_none hshort] at h
    obtain ⟨delta, -, -, hwin, -⟩ := matchLoop_some (deltas_sorted first) h
    rw [kgMatchWindow] at hwin
    simp only at hwin
    split_ifs at hwin
    exact judge_flags hwin

theorem add_flags (out : KgVerdictInfo) (seg : KgSeg) :
    (out.add seg).flags = out.flags ||| seg.flags := by
  rw [KgVerdictInfo.add]
  split_ifs <;> rfl

/--
A byte that alone changes to or from an int3 is a watch with the breakpoint flag exactly when
it is not taken for the change of a branch.
-/
theorem breakpoint_watch_iff (m : CodeMap) (r : TextRegion) (p : Nat) (b : UInt8)
    (hne : b ≠ r.copy p) (hcc : b = 0xcc ∨ r.copy p = 0xcc) :
    ((kgClassify m r p (p + 1) (fun _ => b)).v = .watch ∧
      (kgClassify m r p (p + 1) (fun _ => b)).flags &&& kgTextfBreakpoint ≠ 0) ↔
      ¬ TakenForBranch r p b := by
  rw [← matchSite_int3 (m := m) hcc, classify_single hne]
  cases hsite : kgMatchSite m r p (p + 1) (fun _ => b) p true with
  | none =>
      simp only [iff_true]
      rw [kgNoSite, if_pos ⟨by omega, hcc⟩]
      refine ⟨rfl, ?_⟩
      show ((if r.kernel then kgTextfKernel else 0) ||| kgTextfBreakpoint) &&&
        kgTextfBreakpoint ≠ 0
      cases r.kernel <;> decide
  | some seg =>
      simp only [reduceCtorEq, iff_false]
      rintro ⟨-, hflag⟩
      rw [add_flags] at hflag
      rcases matchSite_flags hsite with h | h <;> rw [h] at hflag <;>
        cases hk : r.kernel <;> simp only [hk] at hflag <;> exact hflag (by decide)

end Breakpoint

/-! ### A probe behind a subtraction

A byte that reads as the opcode of a call need not be one.  In `sub eax, 1` it is the
byte that names the register, and the four bytes behind it, which would be the
displacement, reach over the probed `push`.  Nothing about this is rare: it is an
ordinary function prologue.
-/

/-- `sub eax, 1; push rbp; mov rbp, rsp; nop`, with the kprobe on the `push`. -/
def probedText : TextRegion where
  base := 0
  size := 8
  kernel := true
  copy p := [0x83, 0xe8, 0x01, 0x55, 0x48, 0x89, 0xe5, 0x90].getD p 0

/-- The immediate of the subtraction and what follows are taken for a call's displacement. -/
theorem breakpoint_critical :
    (0xcc : UInt8) ≠ probedText.copy 3 ∧
    ¬ ((kgClassify nowhere probedText 3 4 (fun _ => 0xcc)).v = .watch ∧
      (kgClassify nowhere probedText 3 4 (fun _ => 0xcc)).flags &&& kgTextfBreakpoint ≠ 0) ∧
    (kgClassify nowhere probedText 3 4 (fun _ => 0xcc)).v = .critical := by
  decide +kernel

theorem breakpoint_watch_last :
    (0xcc : UInt8) ≠ probedText.copy 7 ∧
    (((kgClassify nowhere probedText 7 8 (fun _ => 0xcc)).v = .watch ∧
      (kgClassify nowhere probedText 7 8 (fun _ => 0xcc)).flags &&& kgTextfBreakpoint ≠ 0) ↔
      ¬ TakenForBranch probedText 7 0xcc) :=
  ⟨by decide, breakpoint_watch_iff nowhere probedText 7 0xcc (by decide) (.inl rfl)⟩

end KernelGuard
