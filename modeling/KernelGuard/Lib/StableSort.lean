/-
What a stable sort gives, whatever computes it.

A list sorted by a key, in which the elements of each key stand in the order they
had before, is the only such list (`StableSort.unique`).  So two programs that sort
stably agree, and to see that one of them does it is enough to follow what it keeps:
`StableSort.insert` for an insertion that walks down from the end,
`StableSort.mergeSort` for the library's sort, and `StableSort.filter` for elements
left out before or after.
-/
import Mathlib.Data.List.Basic
import Mathlib.Data.List.Induction

/-- `s` is `l` sorted by `key`, with equal keys in their old order. -/
structure StableSort {α : Type} (key : α → Nat) (l s : List α) : Prop where
  sorted : s.Pairwise (fun a b => key a ≤ key b)
  keeps : ∀ v, s.filter (fun a => key a = v) = l.filter (fun a => key a = v)

namespace StableSort

variable {α : Type} {key : α → Nat} {l s s' : List α}

theorem nil : StableSort key [] [] := ⟨List.Pairwise.nil, fun _ => rfl⟩

/-- The head of one such list is the head of the other. -/
private theorem head_le {a b : α} (h : StableSort key l (a :: s))
    (h' : StableSort key l (b :: s')) : key a ≤ key b := by
  have hb : b ∈ (a :: s).filter (fun x => key x = key b) := by
    rw [h.keeps, ← h'.keeps]
    simp
  have hmem : b ∈ a :: s := List.mem_of_mem_filter hb
  rcases List.mem_cons.mp hmem with heq | htail
  · exact Nat.le_of_eq (by rw [heq])
  · exact (List.pairwise_cons.mp h.sorted).1 b htail

private theorem tail {a : α} (h : StableSort key l (a :: s))
    (h' : StableSort key l (a :: s')) : StableSort key s s' := by
  refine ⟨(List.pairwise_cons.mp h'.sorted).2, fun v => ?_⟩
  have heq := (h'.keeps v).trans (h.keeps v).symm
  by_cases hv : key a = v
  · rw [List.filter_cons_of_pos (by simpa using hv),
      List.filter_cons_of_pos (by simpa using hv)] at heq
    exact List.tail_eq_of_cons_eq heq
  · rw [List.filter_cons_of_neg (by simpa using hv),
      List.filter_cons_of_neg (by simpa using hv)] at heq
    exact heq

theorem eq_nil (h : StableSort key l []) : l = [] := by
  cases l with
  | nil => rfl
  | cons a rest =>
      have hkeep := h.keeps (key a)
      simp at hkeep

theorem unique (h : StableSort key l s) (h' : StableSort key l s') : s = s' := by
  induction s generalizing l s' with
  | nil =>
      have hl := h.eq_nil
      subst hl
      cases s' with
      | nil => rfl
      | cons b rest =>
          have hkeep := h'.keeps (key b)
          simp at hkeep
  | cons a rest ih =>
      cases s' with
      | nil =>
          have hl := h'.eq_nil
          subst hl
          have hkeep := h.keeps (key a)
          simp at hkeep
      | cons b rest' =>
          have hkey : key a = key b := Nat.le_antisymm (head_le h h') (head_le h' h)
          have heads := (h.keeps (key a)).trans (h'.keeps (key a)).symm
          rw [List.filter_cons_of_pos (by simp), List.filter_cons_of_pos (by simp [hkey])] at heads
          have hab : a = b := List.head_eq_of_cons_eq heads
          subst hab
          have hrest : StableSort key rest rest :=
            ⟨(List.pairwise_cons.mp h.sorted).2, fun _ => rfl⟩
          rw [ih hrest (tail h h')]

theorem mem_iff (h : StableSort key l s) {a : α} : a ∈ s ↔ a ∈ l := by
  have hs : a ∈ s ↔ a ∈ s.filter (fun x => key x = key a) := by simp
  rw [hs, h.keeps]
  simp

/-- Leaving elements out commutes with sorting. -/
theorem filter (p : α → Bool) (h : StableSort key l s) :
    StableSort key (l.filter p) (s.filter p) := by
  refine ⟨h.sorted.filter p, fun v => ?_⟩
  rw [List.filter_comm, h.keeps, List.filter_comm]

theorem map {β : Type} {key' : β → Nat} (g : α → β) (hg : ∀ a, key' (g a) = key a)
    (h : StableSort key l s) : StableSort key' (l.map g) (s.map g) := by
  refine ⟨?_, fun v => ?_⟩
  · rw [List.pairwise_map]
    simpa only [hg] using h.sorted
  · rw [List.filter_map, List.filter_map]
    simp only [Function.comp_def, hg]
    rw [h.keeps]

theorem mergeSort (l : List α) :
    StableSort key l (l.mergeSort (fun a b => key a ≤ key b)) := by
  have hle : ∀ a b c : α, decide (key a ≤ key b) = true → decide (key b ≤ key c) = true →
      decide (key a ≤ key c) = true := by
    intro a b c hab hbc
    rw [decide_eq_true_eq] at hab hbc ⊢
    exact Nat.le_trans hab hbc
  have htot : ∀ a b : α, (decide (key a ≤ key b) || decide (key b ≤ key a)) = true := by
    intro a b
    rw [Bool.or_eq_true, decide_eq_true_eq, decide_eq_true_eq]
    exact Nat.le_total _ _
  refine ⟨?_, fun v => ?_⟩
  · have hsort := List.pairwise_mergeSort hle htot l
    exact hsort.imp (fun hab => of_decide_eq_true hab)
  · -- the elements of one key are sorted already, so they come out as a sublist
    have hsame : (l.filter (fun a => key a = v)).Pairwise
        (fun a b => decide (key a ≤ key b) = true) := by
      apply List.Pairwise.imp_of_mem (R := fun _ _ => True)
      · intro a b ha hb _
        have hav := of_decide_eq_true (List.mem_filter.mp ha).2
        have hbv := of_decide_eq_true (List.mem_filter.mp hb).2
        exact decide_eq_true (Nat.le_of_eq (hav.trans hbv.symm))
      · exact List.pairwise_of_forall (fun _ _ => trivial)
    have hsub : (l.filter (fun a => key a = v)).Sublist (l.mergeSort (fun a b => key a ≤ key b)) :=
      List.sublist_mergeSort hle htot hsame List.filter_sublist
    have hsub' := hsub.filter (fun a => decide (key a = v))
    rw [List.filter_filter] at hsub'
    simp only [Bool.and_self] at hsub'
    have hlen := ((List.mergeSort_perm l (fun a b => key a ≤ key b)).filter
      (fun a => decide (key a = v))).length_eq
    exact (hsub'.eq_of_length hlen.symm).symm

/-! ### Insertion from the back -/

/-- `x` goes behind the last element whose key is not above its own. -/
def insertBack (key : α → Nat) (x : α) (s : List α) : List α :=
  (s.reverse.dropWhile (fun a => key x < key a)).reverse ++
    x :: (s.reverse.takeWhile (fun a => key x < key a)).reverse

theorem insertBack_concat (x a : α) (s : List α) :
    insertBack key x (s ++ [a]) =
      if key x < key a then insertBack key x s ++ [a] else s ++ [a] ++ [x] := by
  by_cases h : key x < key a
  · rw [if_pos h]
    simp [insertBack, h]
  · rw [if_neg h]
    simp [insertBack, h]

theorem length_insertBack (x : α) (s : List α) :
    (insertBack key x s).length = s.length + 1 := by
  induction s using List.reverseRecOn with
  | nil => rfl
  | append_singleton s a ih =>
      rw [insertBack_concat]
      split
      · rw [List.length_append, ih, List.length_append, List.length_singleton]
      · rw [List.length_append, List.length_singleton]

theorem mem_insertBack {x y : α} {s : List α} :
    y ∈ insertBack key x s ↔ y = x ∨ y ∈ s := by
  have hsplit := List.takeWhile_append_dropWhile
    (p := fun a => decide (key x < key a)) (l := s.reverse)
  have hmem : y ∈ s ↔ y ∈ s.reverse := List.mem_reverse.symm
  rw [hmem, ← hsplit]
  simp only [insertBack, List.mem_append, List.mem_reverse, List.mem_cons]
  tauto

theorem insertBack_sorted (x : α) (hs : s.Pairwise (fun a b => key a ≤ key b)) :
    (insertBack key x s).Pairwise (fun a b => key a ≤ key b) := by
  induction s using List.reverseRecOn with
  | nil => exact List.pairwise_singleton _ _
  | append_singleton s a ih =>
      rw [insertBack_concat]
      obtain ⟨hs', -, hlast⟩ := List.pairwise_append.mp hs
      by_cases h : key x < key a
      · rw [if_pos h]
        refine List.pairwise_append.mpr ⟨ih hs', List.pairwise_singleton _ _, ?_⟩
        intro y hy b hb
        rw [List.mem_singleton.mp hb]
        rcases mem_insertBack.mp hy with hyx | hys
        · rw [hyx]; exact Nat.le_of_lt h
        · exact hlast y hys a (List.mem_singleton_self a)
      · rw [if_neg h]
        refine List.pairwise_append.mpr ⟨hs, List.pairwise_singleton _ _, ?_⟩
        intro y hy b hb
        rw [List.mem_singleton.mp hb]
        have hax : key a ≤ key x := Nat.not_lt.mp h
        rcases List.mem_append.mp hy with hys | hya
        · exact Nat.le_trans (hlast y hys a (List.mem_singleton_self a)) hax
        · rw [List.mem_singleton.mp hya]; exact hax

theorem insertBack_keeps (x : α) (s : List α) (v : Nat) :
    (insertBack key x s).filter (fun a => key a = v) =
      (s ++ [x]).filter (fun a => key a = v) := by
  induction s using List.reverseRecOn with
  | nil => rfl
  | append_singleton s a ih =>
      rw [insertBack_concat]
      by_cases h : key x < key a
      · rw [if_pos h, List.filter_append, ih]
        -- `x` and `a` have different keys, so at most one of them is kept
        by_cases hv : key a = v
        · have hx : key x ≠ v := by omega
          simp [hv, hx]
        · simp [hv]
      · rw [if_neg h]

protected theorem insert (x : α) (h : StableSort key l s) :
    StableSort key (l ++ [x]) (insertBack key x s) := by
  refine ⟨insertBack_sorted x h.sorted, fun v => ?_⟩
  rw [insertBack_keeps, List.filter_append, List.filter_append, h.keeps]

end StableSort
