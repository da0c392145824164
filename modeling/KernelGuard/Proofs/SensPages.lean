/-
The registry of sensitive pages against the blocks that are allocated.

An allocation enters every page of its block, and a page that two blocks share twice.  Freeing a
block removes the entries of its first page only, and all of them.  So after a free the
registry is right only if the other blocks left nothing on the first page and cover whatever else
the block was on (`free_exact_iff`).  An allocation goes wrong only at the ends of the range: a
block of no bytes is on no page, and a block in the last page of the address space makes the
end wrap around to zero (`allocate_exact_iff`).
-/
import KernelGuard.Model.SensPages
import KernelGuard.Lib.Run

namespace KernelGuard

/-- The block covers part of the page. -/
def SensBlock.Covers (b : SensBlock) (pfn : Nat) : Prop :=
  ∃ x, b.addr.toNat ≤ x ∧ x < b.addr.toNat + b.size.toNat ∧ x / pageSize = pfn

def CoveredBy (live : List SensBlock) (pfn : Nat) : Prop := ∃ b ∈ live, b.Covers pfn

/-- A page is tagged exactly when some block that is allocated covers part of it. -/
def TagsExact (w : SensWorld) : Prop :=
  ∀ pfn, sensIsPageTagged w.table pfn = true ↔ CoveredBy w.live pfn

/-- No byte in common, and different addresses. -/
def SensBlock.Apart (b c : SensBlock) : Prop :=
  b.addr ≠ c.addr ∧ (b.addr.toNat + b.size.toNat ≤ c.addr.toNat ∨
    c.addr.toNat + c.size.toNat ≤ b.addr.toNat)

/-- What the pool returns, and what is given back to it; and the table has room. -/
def PoolOk (w : SensWorld) : SensCall → Prop
  | .allocate ptr size _ _ =>
      ptr = 0 ∨ (ptr.toNat + size.toNat ≤ 2 ^ 64 ∧ (∀ b ∈ w.live, b.Apart ⟨ptr, size⟩) ∧
        w.table.pages.length + (sensEndPfn ptr size - sensStartPfn ptr) ≤ maxSensitivePages)
  | .free ptr => ptr = 0 ∨ ∃ b ∈ w.live, b.addr = ptr

/-- The calls after which the tags are still right.  An allocation has a byte, or begins with a page,
or is on a page that is covered anyway; and its end does not wrap around, or all its pages are
covered anyway.  A block that is freed leaves its first page to no other block, and every
further page to some other block. -/
def KeepsTags (w : SensWorld) : SensCall → Prop
  | .allocate ptr size _ _ =>
      ptr = 0 ∨
        if ptr.toNat + size.toNat + pageSize - 1 < 2 ^ 64 then
          size ≠ 0 ∨ ptr.toNat % pageSize = 0 ∨ CoveredBy w.live (ptr.toNat / pageSize)
        else ∀ pfn, SensBlock.Covers ⟨ptr, size⟩ pfn → CoveredBy w.live pfn
  | .free ptr =>
      ptr = 0 ∨
        (¬CoveredBy (w.live.eraseP (·.addr = ptr)) (ptr.toNat / pageSize) ∧
          ∀ b, w.live.find? (·.addr = ptr) = some b → ∀ pfn, pfn ≠ ptr.toNat / pageSize →
            b.Covers pfn → CoveredBy (w.live.eraseP (·.addr = ptr)) pfn)

/-! ### Pages of a block

A block covers the pages from that of its first byte to that of its last.  This is
the specification, in bytes, with no shift or mask in it.
-/

theorem SensBlock.covers_iff (b : SensBlock) (pfn : Nat) : b.Covers pfn ↔ b.size ≠ 0 ∧
    b.addr.toNat / pageSize ≤ pfn ∧
      pfn ≤ (b.addr.toNat + b.size.toNat - 1) / pageSize := by
  have hps : pageSize = 4096 := rfl
  have hzero : b.size ≠ 0 ↔ b.size.toNat ≠ 0 := by
    rw [ne_eq, ne_eq, ← UInt64.toNat_inj]
    rfl
  unfold SensBlock.Covers
  rw [hzero, hps]
  constructor
  · rintro ⟨x, hlo, hhi, hx⟩
    omega
  · rintro ⟨hsize, hlo, hhi⟩
    by_cases hfirst : pfn = b.addr.toNat / 4096
    · exact ⟨b.addr.toNat, Nat.le_refl _, by omega, hfirst.symm⟩
    · -- the first byte of the page is in the block
      exact ⟨pfn * 4096, by omega, by omega, by omega⟩

theorem coveredBy_append (live : List SensBlock) (b : SensBlock) (pfn : Nat) :
    CoveredBy (live ++ [b]) pfn ↔ CoveredBy live pfn ∨ b.Covers pfn := by
  unfold CoveredBy
  simp only [List.mem_append, List.mem_singleton]
  constructor
  · rintro ⟨c, hc | rfl, hcov⟩
    · exact Or.inl ⟨c, hc, hcov⟩
    · exact Or.inr hcov
  · rintro (⟨c, hc, hcov⟩ | hcov)
    · exact ⟨c, Or.inl hc, hcov⟩
    · exact ⟨b, Or.inr rfl, hcov⟩

/-- A block that is taken out, and the others. -/
theorem coveredBy_eraseP {live : List SensBlock} {ptr : UInt64} {b : SensBlock}
    (hb : live.find? (·.addr = ptr) = some b) (pfn : Nat) :
    CoveredBy live pfn ↔ CoveredBy (live.eraseP (·.addr = ptr)) pfn ∨ b.Covers pfn := by
  obtain ⟨hp, pre, post, rfl, hpre⟩ := List.find?_eq_some_iff_append.mp hb
  have herase : (pre ++ b :: post).eraseP (·.addr = ptr) = pre ++ post := by
    rw [List.eraseP_append_right _ fun c hc => by simpa using hpre c hc]
    exact congrArg (pre ++ ·) (List.eraseP_cons_of_pos (p := fun c : SensBlock => c.addr = ptr) hp)
  rw [herase]
  unfold CoveredBy
  simp only [List.mem_append, List.mem_cons]
  constructor
  · rintro ⟨c, hc | rfl | hc, hcov⟩
    · exact Or.inl ⟨c, Or.inl hc, hcov⟩
    · exact Or.inr hcov
    · exact Or.inl ⟨c, Or.inr hc, hcov⟩
  · rintro (⟨c, hc | hc, hcov⟩ | hcov)
    · exact ⟨c, Or.inl hc, hcov⟩
    · exact ⟨c, Or.inr (Or.inr hc), hcov⟩
    · exact ⟨b, Or.inr (Or.inl rfl), hcov⟩

/-! ### The table

The table may have several entries for one page, and a page is tagged if there is
one.  Removal compacts the table in place; what is left are the entries of other
pages, in their order.
-/

theorem tagged_iff (t : SensTable) (pfn : Nat) :
    sensIsPageTagged t pfn = true ↔ ∃ e ∈ t.pages, e.pageFrameNumber = pfn := by
  rw [sensIsPageTagged, List.any_eq_true]
  simp

theorem sensEnter_tagged (flags : UInt8) (pid : UInt32) (n : Nat) : ∀ pfn t,
    t.pages.length + n ≤ maxSensitivePages → ∀ q,
      (sensIsPageTagged (sensEnter flags pid n pfn t) q = true ↔
        sensIsPageTagged t q = true ∨ (pfn ≤ q ∧ q < pfn + n)) := by
  induction n with
  | zero =>
      intro pfn t _ q
      rw [sensEnter]
      exact ⟨Or.inl, fun h => h.resolve_right (by omega)⟩
  | succ n ih =>
      intro pfn t hroom q
      have hone : sensIsPageTagged ⟨t.pages ++ [⟨pfn, flags, pid⟩], t.shared + 1⟩ q = true ↔
          sensIsPageTagged t q = true ∨ pfn = q := by
        simp [sensIsPageTagged]
      have hlen : (t.pages ++ [SensPageEntry.mk pfn flags pid]).length + n
          ≤ maxSensitivePages := by
        rw [List.length_append, List.length_singleton]
        omega
      rw [sensEnter, if_neg (by omega), ih _ _ hlen, hone, or_assoc]
      exact or_congr_right (by omega)

/-- The loop of `SensFreePool` compacts the table. -/
theorem sensRemove_pages (startPfn fuel : Nat) : ∀ i t, (sensRemove startPfn fuel i t).pages =
    Compact.compact (fun e => decide (e.pageFrameNumber = startPfn)) fuel i t.pages := by
  induction fuel with
  | zero => exact fun i t => rfl
  | succ fuel ih =>
      intro i t
      rw [sensRemove, Compact.compact]
      cases t.pages[i]? with
      | none => rfl
      | some e =>
          simp only [decide_eq_true_eq]
          split
          · rw [ih]
          · rw [ih]

theorem sensFreePool_tagged {t : SensTable} {ptr : UInt64} (h : ptr ≠ 0) (q : Nat) :
    sensIsPageTagged (sensFreePool t ptr) q = true ↔
      sensIsPageTagged t q = true ∧ q ≠ sensStartPfn ptr := by
  rw [tagged_iff, tagged_iff, sensFreePool, if_neg h, sensRemove_pages]
  have hperm := Compact.compact_perm (fun e : SensPageEntry => decide (e.pageFrameNumber =
    sensStartPfn ptr)) (Nat.le_refl t.pages.length)
  constructor
  · rintro ⟨e, he, rfl⟩
    obtain ⟨hin, hne⟩ := List.mem_filter.mp (hperm.mem_iff.mp he)
    exact ⟨⟨e, hin, rfl⟩, by simpa using hne⟩
  · rintro ⟨⟨e, he, rfl⟩, hne⟩
    exact ⟨e, hperm.mem_iff.mpr (List.mem_filter.mpr ⟨he, by simpa using hne⟩), rfl⟩

/-! ### One call

Both calls are answered by an equivalence, since the theorem is one.  From a registry
that is right before the call, it is right after it exactly under the call's own
condition.
-/

/-- The end of a block that does not wrap around. -/
theorem sensEndPfn_eq {ptr size : UInt64} (h : ptr.toNat + size.toNat + pageSize - 1 < 2 ^ 64) :
    sensEndPfn ptr size = (ptr.toNat + size.toNat + pageSize - 1) / pageSize := by
  rw [sensEndPfn, Nat.mod_eq_of_lt h, Nat.shiftRight_eq_div_pow]
  rfl

/-- A block that ends in the last page of the address space. -/
theorem sensEndPfn_wrapped {ptr size : UInt64} (hpool : ptr.toNat + size.toNat ≤ 2 ^ 64)
    (h : ¬ptr.toNat + size.toNat + pageSize - 1 < 2 ^ 64) : sensEndPfn ptr size = 0 := by
  have hps : pageSize = 4096 := rfl
  rw [hps] at h
  have hmod : (ptr.toNat + size.toNat + 4096 - 1) % 2 ^ 64 < 4096 := by omega
  rw [sensEndPfn, Nat.shiftRight_eq_div_pow]
  exact Nat.div_eq_of_lt hmod

theorem sensStartPfn_eq (ptr : UInt64) : sensStartPfn ptr = ptr.toNat / pageSize := by
  rw [sensStartPfn, Nat.shiftRight_eq_div_pow]
  rfl

/-- After an allocation a page is right if it was covered, or if it is entered exactly when it is
new. -/
theorem allocate_pages_iff {w : SensWorld} (h : TagsExact w) {ptr size : UInt64} (flags : UInt8)
    (pid : UInt32) (hnull : ptr ≠ 0)
    (hroom : w.table.pages.length + (sensEndPfn ptr size - sensStartPfn ptr) ≤ maxSensitivePages) :
    TagsExact (sensCall w (.allocate ptr size flags pid)) ↔
      ∀ pfn, CoveredBy w.live pfn ∨
        ((ptr.toNat / pageSize ≤ pfn ∧ pfn < sensEndPfn ptr size) ↔
          SensBlock.Covers ⟨ptr, size⟩ pfn) := by
  unfold TagsExact
  refine forall_congr' fun pfn => ?_
  show (sensIsPageTagged (sensAllocatePool w.table ptr size flags pid) pfn = true ↔
    CoveredBy (if ptr = 0 then w.live else w.live ++ [⟨ptr, size⟩]) pfn) ↔ _
  rw [sensAllocatePool, if_neg hnull, if_neg hnull, sensEnter_tagged flags pid _ _ _ hroom, h pfn,
    coveredBy_append, sensStartPfn_eq]
  have hrange : (ptr.toNat / pageSize ≤ pfn ∧
      pfn < ptr.toNat / pageSize + (sensEndPfn ptr size - ptr.toNat / pageSize)) ↔
      (ptr.toNat / pageSize ≤ pfn ∧ pfn < sensEndPfn ptr size) := by omega
  rw [hrange]
  by_cases hcov : CoveredBy w.live pfn
  · exact iff_of_true (iff_of_true (Or.inl hcov) (Or.inl hcov)) (Or.inl hcov)
  · rw [or_iff_right hcov, or_iff_right hcov, or_iff_right hcov]

section

variable {covered : Nat → Prop} {ptr size : UInt64}

/-- Of a block without bytes nothing is covered, but the page of its address may be entered. -/
theorem entered_iff_of_empty (hsize : size = 0)
    (hwrap : ptr.toNat + size.toNat + pageSize - 1 < 2 ^ 64) :
    (∀ pfn, covered pfn ∨ ((ptr.toNat / pageSize ≤ pfn ∧ pfn < sensEndPfn ptr size) ↔
      SensBlock.Covers ⟨ptr, size⟩ pfn)) ↔
      ptr.toNat % pageSize = 0 ∨ covered (ptr.toNat / pageSize) := by
  have hps : pageSize = 4096 := rfl
  have hnat : size.toNat = 0 := by
    rw [hsize]
    rfl
  have hnone : ∀ pfn, ¬SensBlock.Covers ⟨ptr, size⟩ pfn := fun pfn hcov =>
    ((SensBlock.covers_iff _ _).mp hcov).1 hsize
  rw [sensEndPfn_eq hwrap, hps, hnat]
  constructor
  · intro hall
    by_cases haligned : ptr.toNat % 4096 = 0
    · exact Or.inl haligned
    · right
      refine (hall (ptr.toNat / 4096)).resolve_right fun hiff => ?_
      exact hnone _ (hiff.mp ⟨Nat.le_refl _, by omega⟩)
  · intro hor pfn
    by_cases hpage : pfn = ptr.toNat / 4096 ∧ ptr.toNat % 4096 ≠ 0
    · rw [hpage.1]
      exact Or.inl (hor.resolve_left hpage.2)
    · exact Or.inr (iff_of_false (by omega) (hnone pfn))

/-- The pages a block with bytes is entered for are those it covers. -/
theorem entered_iff_covers (hsize : size ≠ 0)
    (hwrap : ptr.toNat + size.toNat + pageSize - 1 < 2 ^ 64) (pfn : Nat) :
    (ptr.toNat / pageSize ≤ pfn ∧ pfn < sensEndPfn ptr size) ↔
      SensBlock.Covers ⟨ptr, size⟩ pfn := by
  have hps : pageSize = 4096 := rfl
  have hnat : size.toNat ≠ 0 := fun h0 => hsize (UInt64.toNat_inj.mp h0)
  rw [sensEndPfn_eq hwrap, SensBlock.covers_iff, hps]
  dsimp only
  constructor
  · intro hin
    exact ⟨hsize, by omega⟩
  · intro hcov
    have hpages := hcov.2
    omega

/-- A block whose end wraps around is not entered at all. -/
theorem entered_iff_of_wraps (hend : ptr.toNat + size.toNat ≤ 2 ^ 64)
    (hwrap : ¬ptr.toNat + size.toNat + pageSize - 1 < 2 ^ 64) :
    (∀ pfn, covered pfn ∨ ((ptr.toNat / pageSize ≤ pfn ∧ pfn < sensEndPfn ptr size) ↔
      SensBlock.Covers ⟨ptr, size⟩ pfn)) ↔
      ∀ pfn, SensBlock.Covers ⟨ptr, size⟩ pfn → covered pfn := by
  rw [sensEndPfn_wrapped hend hwrap]
  refine forall_congr' fun pfn => ?_
  have hnone : ¬(ptr.toNat / pageSize ≤ pfn ∧ pfn < 0) := by omega
  rw [iff_false_left hnone, or_comm, imp_iff_not_or]

end

theorem allocate_exact_iff {w : SensWorld} (h : TagsExact w) (ptr size : UInt64) (flags : UInt8)
    (pid : UInt32) (hpool : PoolOk w (.allocate ptr size flags pid)) :
    TagsExact (sensCall w (.allocate ptr size flags pid)) ↔
      KeepsTags w (.allocate ptr size flags pid) := by
  by_cases hnull : ptr = 0
  · have hsame : sensCall w (.allocate ptr size flags pid) = w := by
      simp only [sensCall, sensAllocatePool, if_pos hnull]
    rw [hsame]
    exact iff_of_true h (Or.inl hnull)
  obtain ⟨hend, -, hroom⟩ := hpool.resolve_left hnull
  rw [allocate_pages_iff h flags pid hnull hroom, KeepsTags, or_iff_right hnull]
  by_cases hwrap : ptr.toNat + size.toNat + pageSize - 1 < 2 ^ 64
  · rw [if_pos hwrap]
    by_cases hsize : size = 0
    · rw [entered_iff_of_empty hsize hwrap, or_iff_right (not_not.mpr hsize)]
    · exact iff_of_true (fun pfn => Or.inr (entered_iff_covers hsize hwrap pfn)) (Or.inl hsize)
  · rw [if_neg hwrap]
    exact entered_iff_of_wraps hend hwrap

theorem free_exact_iff {w : SensWorld} (h : TagsExact w) (ptr : UInt64)
    (hpool : PoolOk w (.free ptr)) :
    TagsExact (sensCall w (.free ptr)) ↔ KeepsTags w (.free ptr) := by
  by_cases hnull : ptr = 0
  · have hsame : sensCall w (.free ptr) = w := by
      simp only [sensCall, sensFreePool, if_pos hnull]
    rw [hsame]
    exact iff_of_true h (Or.inl hnull)
  obtain ⟨c, hc, hptr⟩ := hpool.resolve_left hnull
  obtain ⟨b, hb⟩ : ∃ b, w.live.find? (·.addr = ptr) = some b := by
    rw [← Option.isSome_iff_exists, List.find?_isSome]
    exact ⟨c, hc, by simpa using hptr⟩
  have hpages : TagsExact (sensCall w (.free ptr)) ↔ ∀ pfn,
      ((CoveredBy (w.live.eraseP (·.addr = ptr)) pfn ∨ b.Covers pfn) ∧
        pfn ≠ ptr.toNat / pageSize ↔ CoveredBy (w.live.eraseP (·.addr = ptr)) pfn) := by
    unfold TagsExact
    refine forall_congr' fun pfn => ?_
    show (sensIsPageTagged (sensFreePool w.table ptr) pfn = true ↔
      CoveredBy (if ptr = 0 then w.live else w.live.eraseP (·.addr = ptr)) pfn) ↔ _
    rw [if_neg hnull, sensFreePool_tagged hnull, h pfn, coveredBy_eraseP hb, sensStartPfn_eq]
  rw [hpages, KeepsTags, or_iff_right hnull]
  constructor
  · intro hall
    refine ⟨fun hfirst => ((hall _).mpr hfirst).2 rfl, fun b' hb' pfn hne hcov => ?_⟩
    obtain rfl : b = b' := Option.some.inj (hb.symm.trans hb')
    exact (hall pfn).mp ⟨Or.inr hcov, hne⟩
  · rintro ⟨hfirst, hrest⟩ pfn
    constructor
    · rintro ⟨hcov | hcov, hne⟩
      · exact hcov
      · exact hrest b hb pfn hne hcov
    · intro hcov
      exact ⟨Or.inl hcov, fun heq => hfirst (heq ▸ hcov)⟩

theorem call_exact_iff {w : SensWorld} (h : TagsExact w) (c : SensCall) (hpool : PoolOk w c) :
    TagsExact (sensCall w c) ↔ KeepsTags w c := by
  cases c with
  | allocate ptr size flags pid => exact allocate_exact_iff h ptr size flags pid hpool
  | free ptr => exact free_exact_iff h ptr hpool

theorem tagsExact_start : TagsExact .start := by
  intro pfn
  exact iff_of_false (by simp [SensWorld.start, sensIsPageTagged]) (by simp [SensWorld.start, CoveredBy])

/--
**The registry is right as long as no call breaks it.**  For every sequence of calls that the pool
and the size of the table allow, the tags are exact in every state that is reached if and only
if every call keeps them so: see `KeepsTags`.
-/
theorem registry_exact_iff (calls : List SensCall) (hpool : Run.Along sensCall .start calls PoolOk) :
    (∀ pre post, calls = pre ++ post → TagsExact (Run.exec sensCall .start pre)) ↔
      Run.Along sensCall .start calls KeepsTags := by
  constructor
  · intro hall pre c post hsplit
    have hbefore := hall pre (c :: post) hsplit
    have hafter := hall (pre ++ [c]) post (by rw [hsplit, List.append_assoc, List.singleton_append])
    rw [Run.exec_snoc] at hafter
    exact (call_exact_iff hbefore c (hpool pre c post hsplit)).mp hafter
  · intro hkeeps pre post hsplit
    rw [hsplit] at hpool hkeeps
    refine Run.exec_invariant_of (C := fun w c => PoolOk w c ∧ KeepsTags w c) ?_ tagsExact_start pre ?_
    · exact fun w c hw hc => (call_exact_iff hw c hc.1).mpr hc.2
    · exact fun p c q hp => ⟨hpool.left p c q hp, hkeeps.left p c q hp⟩

/-- Two pages are allocated, and freed again. -/
def twoPageCalls : List SensCall := [.allocate 0x1000 0x2000 1 4, .free 0x1000]

theorem twoPageCalls_pool : Run.Along sensCall .start twoPageCalls PoolOk := by
  refine .cons (Or.inr ⟨by decide, by simp [SensWorld.start], by decide⟩) (.cons (Or.inr ?_) (.nil _ _ _))
  exact ⟨⟨0x1000, 0x2000⟩, by decide, rfl⟩

/-- The second page of a block stays tagged when the block is gone. -/
theorem second_page_stays_tagged :
    ¬∀ calls, Run.Along sensCall .start calls PoolOk →
      TagsExact (Run.exec sensCall .start calls) := by
  intro hall
  have htagged := (hall twoPageCalls twoPageCalls_pool 2).mp (by decide)
  obtain ⟨b, hb, -⟩ := htagged
  have hlive : (Run.exec sensCall .start twoPageCalls).live = [] := by decide
  rw [hlive] at hb
  exact absurd hb List.not_mem_nil

/-- Two blocks meet in page 2, and the first of them is freed: page 1 is its own, and page 2 is the
other's as well. -/
def sharedPageCalls : List SensCall :=
  [.allocate 0x1800 0x1000 1 4, .allocate 0x2800 0x100 1 4, .free 0x1800]

theorem sharedPageCalls_pool : Run.Along sensCall .start sharedPageCalls PoolOk := by
  refine .cons (Or.inr ⟨by decide, by simp [SensWorld.start], by decide⟩)
    (.cons (Or.inr ⟨by decide, ?_, by decide⟩) (.cons (Or.inr ?_) (.nil _ _ _)))
  · intro b hb
    have hlive : (sensCall .start (.allocate 0x1800 0x1000 1 4)).live = [⟨0x1800, 0x1000⟩] := by
      decide
    rw [hlive, List.mem_singleton] at hb
    rw [hb]
    exact ⟨by decide, .inl (by decide)⟩
  · exact ⟨⟨0x1800, 0x1000⟩, by decide, rfl⟩

theorem sharedPageCalls_keeps : Run.Along sensCall .start sharedPageCalls KeepsTags := by
  refine .cons (Or.inr ?_) (.cons (Or.inr ?_) (.cons (Or.inr ⟨?_, ?_⟩) (.nil _ _ _)))
  · rw [if_pos (by decide)]
    exact Or.inl (by decide)
  · rw [if_pos (by decide)]
    exact Or.inl (by decide)
  all_goals
    have hlive : (sensCall (sensCall .start (.allocate 0x1800 0x1000 1 4))
      (.allocate 0x2800 0x100 1 4)).live = [⟨0x1800, 0x1000⟩, ⟨0x2800, 0x100⟩] := by decide
    rw [hlive, show ([⟨0x1800, 0x1000⟩, ⟨0x2800, 0x100⟩] : List SensBlock).eraseP
      (·.addr = 0x1800) = [⟨0x2800, 0x100⟩] by decide]
  · rintro ⟨b, hb, hcovers⟩
    rw [List.mem_singleton.mp hb, SensBlock.covers_iff] at hcovers
    exact absurd hcovers.2.1 (by decide)
  · intro b hb pfn hne hcovers
    obtain rfl : (⟨0x1800, 0x1000⟩ : SensBlock) = b := Option.some.inj hb
    obtain ⟨-, hlow, hhigh⟩ := (SensBlock.covers_iff _ _).mp hcovers
    have hlow' : 1 ≤ pfn := hlow
    have hhigh' : pfn ≤ 2 := hhigh
    have hne' : pfn ≠ 1 := hne
    obtain rfl : pfn = 2 := by omega
    refine ⟨_, List.mem_singleton.mpr rfl, (SensBlock.covers_iff _ _).mpr ?_⟩
    exact ⟨by decide, by decide, by decide⟩

theorem registry_exact_iff_shared_page :
    TagsExact (Run.exec sensCall .start sharedPageCalls) :=
  (registry_exact_iff sharedPageCalls sharedPageCalls_pool).mpr sharedPageCalls_keeps _ [] rfl

end KernelGuard
