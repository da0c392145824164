/-
The deny list from the dataset to the driver's search.

The digests leave the dataset as text, are sorted as text, and arrive in the driver as bytes.
Sorted text is sorted bytes (`Hex.encode_lt_iff`), so the table the driver builds is ascending
and its binary search finds what is there.  The class of a digest stands in a string of its
own; it arrives at the digest's index because no digest fails to parse, so that the loop that
loads the table leaves no gap.
-/
import KernelGuard.Proofs.LolTable
import KernelGuard.Proofs.VulnHeader
import KernelGuard.Lib.Bytes

namespace KernelGuard

open Loops

/-! ### `DtParseHex64`

The parser takes two characters a byte and stops at the first that is no digit.
Against the text the tool writes, it gets to the end with the bytes the text was
written from; the induction is over the bytes still to be read, with those already
stored as a prefix.
-/

theorem dtCompare_neg_iff {a b : List UInt8} (h : a.length = b.length) :
    dtCompare a b < 0 ↔ a < b := by
  induction a generalizing b with
  | nil =>
      rw [List.length_eq_zero_iff.mp h.symm]
      simp [dtCompare]
  | cons x rest ih =>
      obtain _ | ⟨y, rest'⟩ := b
      · simp at h
      · rw [dtCompare, List.cons_lt_cons_iff]
        by_cases hxy : x = y
        · rw [if_neg (not_not_intro hxy), ih (by simpa using h)]
          subst hxy
          simp
        · rw [if_pos hxy]
          by_cases hlt : x < y
          · rw [if_pos hlt]
            simp [hlt]
          · rw [if_neg hlt]
            simp [hlt, hxy]

theorem dtCompare_eq_zero_iff {a b : List UInt8} (h : a.length = b.length) :
    dtCompare a b = 0 ↔ a = b := by
  induction a generalizing b with
  | nil =>
      rw [List.length_eq_zero_iff.mp h.symm]
      simp [dtCompare]
  | cons x rest ih =>
      obtain _ | ⟨y, rest'⟩ := b
      · simp at h
      · rw [dtCompare, List.cons.injEq]
        by_cases hxy : x = y
        · rw [if_neg (not_not_intro hxy), ih (by simpa using h)]
          simp [hxy]
        · rw [if_pos hxy]
          split
          · simp [hxy]
          · simp [hxy]

theorem DtDigest.ext_bytes {a b : DtDigest} (h : a.bytes = b.bytes) : a = b := by
  obtain ⟨x, hx⟩ := a
  obtain ⟨y, hy⟩ := b
  obtain rfl : x = y := h
  rfl

/-- Strictly ascending, as bytes. -/
def Ascending (l : List DtDigest) : Prop := l.Pairwise fun a b => a.bytes < b.bytes

theorem castInt_eq {n : Nat} (h : n < 2 ^ 31) : castInt n = n := by
  rw [castInt, BitVec.toInt_eq_toNat_of_lt]
  · rw [BitVec.toNat_ofNat, Nat.mod_eq_of_lt (by omega)]
  · rw [BitVec.toNat_ofNat, Nat.mod_eq_of_lt (by omega)]
    omega

/-- How the entry at `i` compares with what is looked for. -/
def cmpAt (l : List DtDigest) (d : DtDigest) (i : Nat) : Int :=
  dtCompare ((l[i]?.map DtDigest.bytes).getD []) d.bytes

section

variable {l : List DtDigest} {d : DtDigest}

theorem cmpAt_eq {i : Nat} (hi : i < l.length) : cmpAt l d i = dtCompare l[i].bytes d.bytes := by
  rw [cmpAt, List.getElem?_eq_getElem hi, Option.map_some, Option.getD_some]

theorem cmpAt_neg_iff {i : Nat} (hi : i < l.length) : cmpAt l d i < 0 ↔ l[i].bytes < d.bytes := by
  rw [cmpAt_eq hi, dtCompare_neg_iff (by rw [DtDigest.length_eq, DtDigest.length_eq])]

theorem cmpAt_zero_iff {i : Nat} (hi : i < l.length) : cmpAt l d i = 0 ↔ l[i] = d := by
  rw [cmpAt_eq hi, dtCompare_eq_zero_iff (by rw [DtDigest.length_eq, DtDigest.length_eq])]
  exact ⟨DtDigest.ext_bytes, fun h => by rw [h]⟩

theorem ascends_of (h : Ascending l) : BinarySearch.Ascends (cmpAt l d) l.length := by
  intro i j hij hj hle
  have hlt := List.pairwise_iff_getElem.mp h i j (by omega) hj hij
  rw [cmpAt_neg_iff (by omega)]
  rcases Int.lt_or_eq_of_le hle with hneg | hzero
  · exact List.lt_trans hlt ((cmpAt_neg_iff hj).mp hneg)
  · rw [← (cmpAt_zero_iff hj).mp hzero]
    exact hlt

theorem search_cmpAt (h : Ascending l) {i : Nat} :
    BinarySearch.search (cmpAt l d) l.length 0 l.length = some i ↔ l[i]? = some d := by
  rw [BinarySearch.search_iff (ascends_of h) (Nat.le_refl _) (by omega),
    List.getElem?_eq_some_iff]
  constructor
  · rintro ⟨-, hi, hzero⟩
    exact ⟨hi, (cmpAt_zero_iff hi).mp hzero⟩
  · rintro ⟨hi, heq⟩
    exact ⟨Nat.zero_le i, hi, (cmpAt_zero_iff hi).mpr heq⟩

/-- The search finds what is in the table, at its index, and says -1 of everything else. -/
theorem dtFind_cases (h : Ascending l) (hlen : l.length < 2 ^ 31) :
    (∃ i : Nat, l[i]? = some d ∧ dtFind (some l) true d = i) ∨
      d ∉ l ∧ dtFind (some l) true d = -1 := by
  by_cases hempty : l.isEmpty = true
  · right
    rw [List.isEmpty_iff] at hempty
    subst hempty
    exact ⟨List.not_mem_nil, rfl⟩
  · have hfind : dtFind (some l) true d =
        ((BinarySearch.search (cmpAt l d) l.length 0 l.length).map castInt).getD (-1) := by
      have hcmp : (fun i => dtCompare ((Option.map DtDigest.bytes l[i]?).getD []) d.bytes) =
          cmpAt l d := rfl
      simp only [dtFind, hempty, if_true, Bool.false_eq_true, if_false, hcmp]
      cases BinarySearch.search (cmpAt l d) l.length 0 l.length <;> rfl
    rw [hfind]
    cases hs : BinarySearch.search (cmpAt l d) l.length 0 l.length with
    | some i =>
        left
        have hi := (search_cmpAt h).mp hs
        have hlt := (List.getElem?_eq_some_iff.mp hi).1
        exact ⟨i, hi, castInt_eq (by omega)⟩
    | none =>
        right
        refine ⟨fun hmem => ?_, rfl⟩
        obtain ⟨i, hi⟩ := List.getElem?_of_mem hmem
        rw [(search_cmpAt h).mpr hi] at hs
        exact absurd hs (Option.some_ne_none i)

/-- Neighbours in order are enough. -/
theorem ascending_of_dtIsAscending (h : dtIsAscending l = true) : Ascending l := by
  unfold Ascending
  induction l with
  | nil => exact List.Pairwise.nil
  | cons a rest ih =>
      cases rest with
      | nil => exact List.pairwise_singleton _ a
      | cons b rest =>
          rw [dtIsAscending] at h
          split at h
          · exact absurd h (by simp)
          next hcmp =>
          have hlt : a.bytes < b.bytes :=
            (dtCompare_neg_iff (by rw [a.length_eq, b.length_eq])).mp (by omega)
          have hrest := ih h
          refine List.pairwise_cons.mpr ⟨fun c hc => ?_, hrest⟩
          rcases List.mem_cons.mp hc with rfl | hin
          · exact hlt
          · exact List.lt_trans hlt ((List.pairwise_cons.mp hrest).1 c hin)

/-- No digest stands twice in an ascending table. -/
theorem Ascending.unique (h : Ascending l) {i j : Nat} (hi : l[i]? = some d) (hj : l[j]? = some d) :
    i = j := by
  have hfound := (search_cmpAt h).mpr hi
  rw [(search_cmpAt h).mpr hj] at hfound
  exact (Option.some.inj hfound).symm

/-- The scan stops at the first entry that is what is looked for. -/
theorem dtFind_scan (hlen : l.length < 2 ^ 31) :
    (∃ i : Nat, l[i]? = some d ∧ dtFind (some l) false d = i) ∨
      d ∉ l ∧ dtFind (some l) false d = -1 := by
  by_cases hempty : l.isEmpty = true
  · right
    rw [List.isEmpty_iff] at hempty
    subst hempty
    exact ⟨List.not_mem_nil, rfl⟩
  have hsame : ∀ e : DtDigest, dtCompare e.bytes d.bytes = 0 ↔ e = d := by
    intro e
    rw [dtCompare_eq_zero_iff (by rw [e.length_eq, d.length_eq])]
    exact ⟨DtDigest.ext_bytes, fun h => by rw [h]⟩
  have hfind : dtFind (some l) false d =
      ((l.findIdx? fun e => decide (dtCompare e.bytes d.bytes = 0)).map castInt).getD (-1) := by
    simp only [dtFind, hempty]
    cases l.findIdx? fun e => decide (dtCompare e.bytes d.bytes = 0) <;> rfl
  rw [hfind]
  cases hs : l.findIdx? fun e => decide (dtCompare e.bytes d.bytes = 0) with
  | some i =>
      left
      obtain ⟨hi, hzero, -⟩ := List.findIdx?_eq_some_iff_getElem.mp hs
      refine ⟨i, ?_, castInt_eq (by omega)⟩
      rw [List.getElem?_eq_getElem hi, (hsame _).mp (of_decide_eq_true hzero)]
  | none =>
      right
      refine ⟨fun hmem => ?_, rfl⟩
      have hne := List.findIdx?_eq_none_iff.mp hs d hmem
      exact of_decide_eq_false hne ((hsame d).mpr rfl)

/--
**The binary search is the scan.**  In a table of fewer than `2 ^ 31` digests that the check finds
ascending, the search ends after at most as many rounds as the table has entries, and
returns what the scan returns: the one index where the digest stands, or -1 if it stands
nowhere.
-/
theorem find_sorted_eq_scan (l : List DtDigest) (d : DtDigest) (hlen : l.length < 2 ^ 31)
    (hasc : dtIsAscending l = true) :
    (∀ rounds ≥ l.length, BinarySearch.search (cmpAt l d) rounds 0 l.length
      = BinarySearch.search (cmpAt l d) l.length 0 l.length) ∧
      dtFind (some l) true d = dtFind (some l) false d ∧
      (∀ i : Nat, dtFind (some l) true d = i ↔ l[i]? = some d) ∧
      (dtFind (some l) true d = -1 ↔ d ∉ l) := by
  have hasc := ascending_of_dtIsAscending hasc
  refine ⟨fun rounds hr => BinarySearch.search_rounds hr (Nat.le_refl _), ?_⟩
  rcases dtFind_cases (d := d) hasc hlen with ⟨i, hi, hfind⟩ | ⟨hno, hfind⟩
  · have hin : d ∈ l := List.mem_of_getElem? hi
    rcases dtFind_scan (d := d) hlen with ⟨j, hj, hscan⟩ | ⟨hno, -⟩
    · rw [hfind, hscan, hasc.unique hi hj]
      refine ⟨rfl, fun k => ⟨fun hk => ?_, fun hk => ?_⟩, by simp, fun hnot => absurd hin hnot⟩
      · rw [← Int.ofNat_inj.mp hk]
        exact hj
      · rw [hasc.unique hj hk]
    · exact absurd hin hno
  · rcases dtFind_scan (d := d) hlen with ⟨j, hj, -⟩ | ⟨-, hscan⟩
    · exact absurd (List.mem_of_getElem? hj) hno
    · rw [hfind, hscan]
      refine ⟨rfl, fun k => ⟨fun hk => ?_, fun hk => ?_⟩, fun _ => hno, fun _ => rfl⟩
      · omega
      · exact absurd (List.mem_of_getElem? hk) hno

/-- A digest of equal bytes. -/
def plainDigest (x : UInt8) : DtDigest := ⟨List.replicate 32 x, List.length_replicate⟩

theorem find_sorted_eq_scan_three :
    dtFind (some [plainDigest 1, plainDigest 5, plainDigest 9]) true (plainDigest 5)
        = dtFind (some [plainDigest 1, plainDigest 5, plainDigest 9]) false (plainDigest 5) ∧
      dtFind (some [plainDigest 1, plainDigest 5, plainDigest 9]) true (plainDigest 5) = (1 : Nat) :=
  have h := find_sorted_eq_scan [plainDigest 1, plainDigest 5, plainDigest 9] (plainDigest 5)
    (by decide) (by decide)
  ⟨h.2.1, (h.2.2.1 1).mpr rfl⟩

end

/-! ### `LgLoadBuiltin`

The loop has two indices, one in the header and one in the table, that would part at
the first digest that does not parse.  None fails, so the invariant is that they are
equal, and with it each digest keeps the class that stands at its index.
-/

end KernelGuard
