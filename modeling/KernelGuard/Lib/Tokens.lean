/-
Entries of a text and the table they are kept in.

`runs` are the maximal runs of non-separators of a text, in order.  A scanner that skips
separators and then takes characters up to the next one finds them one by one (`runs_skip`,
`runs_take`).  `IsRun` says what such a run is without saying how it is found, and
`mem_runs_iff` that these are the same.

`scan` walks a buffer until it sees an element of a kind.  A text that is ended by such an
element is never left (`scan_ended`).

`keep` puts what can be read of one entry into a table of limited size and counts the
entry otherwise; `foldl_keep` is what a whole text leaves in the table.
-/
import Mathlib.Data.List.TakeWhile
import Mathlib.Tactic.Conv

namespace Tokens

variable {α β : Type}

/-! ### Runs -/

def runs (sep : α → Bool) (l : List α) : List (List α) :=
  (l.splitOnP sep).filter fun r => !r.isEmpty

theorem runs_nil (sep : α → Bool) : runs sep [] = [] := rfl

theorem runs_cons_sep {sep : α → Bool} {c : α} (hc : sep c = true) (l : List α) :
    runs sep (c :: l) = runs sep l := by
  unfold runs
  rw [List.splitOnP_cons_eq_if_modifyHead, if_pos hc]
  rfl

/-- Separators in front do not matter. -/
theorem runs_skip (sep : α → Bool) (l : List α) : runs sep (l.dropWhile sep) = runs sep l := by
  induction l with
  | nil => rfl
  | cons c rest ih =>
      by_cases hc : sep c = true
      · rw [List.dropWhile_cons_of_pos hc, ih, runs_cons_sep hc]
      · rw [List.dropWhile_cons_of_neg hc]

/-- The first run of a text that does not begin with a separator. -/
theorem runs_take {sep : α → Bool} {l : List α} (h : l.takeWhile (!sep ·) ≠ []) :
    runs sep l = l.takeWhile (!sep ·) :: runs sep (l.dropWhile (!sep ·)) := by
  have hrun : ∀ c ∈ l.takeWhile (!sep ·), sep c = false := by
    intro c hc
    simpa using List.mem_takeWhile_imp hc
  have hkept : ∀ rest, (l.takeWhile (!sep ·) :: rest).filter (fun r => !r.isEmpty)
      = l.takeWhile (!sep ·) :: rest.filter fun r => !r.isEmpty := fun rest =>
    List.filter_cons_of_pos (by simpa [List.isEmpty_iff] using h)
  conv_lhs => rw [← List.takeWhile_append_dropWhile (p := (!sep ·)) (l := l)]
  cases hrest : l.dropWhile (!sep ·) with
  | nil =>
      rw [List.append_nil, runs, List.splitOnP_eq_singleton hrun, hkept]
      rfl
  | cons c rest =>
      have hc : sep c = true := by
        have hhead := List.head?_dropWhile_not (!sep ·) l
        rw [hrest, List.head?_cons] at hhead
        simpa using hhead
      rw [runs_cons_sep hc, runs, List.splitOnP_append_cons_of_forall_mem hrun c hc, hkept]
      rfl

/-- A non-empty text is the next run, or one of those behind the next run. -/
theorem mem_runs_step {sep : α → Bool} {l w : List α} (hw : w ≠ []) :
    w ∈ runs sep l ↔ w = l.takeWhile (!sep ·) ∨ w ∈ runs sep (l.dropWhile (!sep ·)) := by
  by_cases hrun : l.takeWhile (!sep ·) = []
  · have hsame : l.dropWhile (!sep ·) = l := by
      conv_rhs => rw [← List.takeWhile_append_dropWhile (p := (!sep ·)) (l := l), hrun]
      rfl
    rw [hsame, hrun]
    exact ⟨Or.inr, fun h => h.resolve_left hw⟩
  · rw [runs_take hrun, List.mem_cons]

theorem runs_append_sep {sep : α → Bool} {c : α} (hc : sep c = true) (a l : List α) :
    runs sep (a ++ c :: l) = runs sep a ++ runs sep l := by
  unfold runs
  rw [List.splitOnP_append_cons a l hc, List.filter_append]

/-- `r` stands in `l` and has no separator in it; on either side is a separator or nothing. -/
def IsRun (sep : α → Bool) (l r : List α) : Prop :=
  (∀ c ∈ r, sep c = false) ∧ ∃ pre post, l = pre ++ (r ++ post) ∧
    (∀ c ∈ pre.getLast?, sep c = true) ∧ ∀ c ∈ post.head?, sep c = true

theorem IsRun.append_sep {sep : α → Bool} {c : α} {l r : List α} (h : IsRun sep l r)
    (hc : sep c = true) (a : List α) : IsRun sep (a ++ c :: l) r := by
  obtain ⟨hin, pre, post, hl, hpre, hpost⟩ := h
  refine ⟨hin, a ++ c :: pre, post, by rw [hl, List.append_assoc, List.cons_append], ?_, hpost⟩
  intro d hd
  rw [List.getLast?_append, List.getLast?_cons, Option.some_or, Option.mem_some] at hd
  cases hlast : pre.getLast? with
  | none =>
      rw [hlast, Option.getD_none] at hd
      rw [← hd]
      exact hc
  | some e =>
      rw [hlast, Option.getD_some] at hd
      exact hpre d (by rw [hlast, hd]; rfl)

/-- What a text begins with, up to its first separator. -/
theorem isRun_takeWhile (sep : α → Bool) (l : List α) : IsRun sep l (l.takeWhile (!sep ·)) := by
  refine ⟨?_, [], l.dropWhile (!sep ·), List.takeWhile_append_dropWhile.symm, nofun, ?_⟩
  · intro c hc
    simpa using List.mem_takeWhile_imp hc
  · intro c hc
    have hhead := List.head?_dropWhile_not (!sep ·) l
    rw [Option.mem_def.mp hc] at hhead
    simpa using hhead

theorem ne_nil_of_mem_runs {sep : α → Bool} {r l : List α} (h : r ∈ runs sep l) : r ≠ [] := by
  intro hr
  rw [hr, runs, List.mem_filter] at h
  exact absurd h.2 (by simp)

theorem isRun_of_mem_runs {sep : α → Bool} {r l : List α} (h : r ∈ runs sep l) :
    IsRun sep l r := by
  have hne := ne_nil_of_mem_runs h
  -- each round takes the next run and the separator behind it
  induction hn : l.length using Nat.strong_induction_on generalizing l with
  | _ n ih =>
      rcases (mem_runs_step hne).mp h with rfl | hrest
      · exact isRun_takeWhile sep l
      · cases hdrop : l.dropWhile (!sep ·) with
        | nil =>
            rw [hdrop, runs_nil] at hrest
            exact absurd hrest List.not_mem_nil
        | cons c rest =>
            have hl : l = l.takeWhile (!sep ·) ++ c :: rest := by
              rw [← hdrop, List.takeWhile_append_dropWhile]
            have hc : sep c = true := by
              have hhead := List.head?_dropWhile_not (!sep ·) l
              rw [hdrop, List.head?_cons] at hhead
              simpa using hhead
            have hlen := congrArg List.length hl
            rw [List.length_append, List.length_cons] at hlen
            rw [hdrop, runs_cons_sep hc] at hrest
            rw [hl]
            exact (ih rest.length (by omega) hrest rfl).append_sep hc _

/-- The runs are the maximal ones. -/
theorem mem_runs_iff {sep : α → Bool} {l r : List α} :
    r ∈ runs sep l ↔ r ≠ [] ∧ IsRun sep l r := by
  constructor
  · exact fun h => ⟨ne_nil_of_mem_runs h, isRun_of_mem_runs h⟩
  · rintro ⟨hne, hin, pre, post, rfl, hpre, hpost⟩
    have hstop : post.takeWhile (!sep ·) = [] := by
      cases post with
      | nil => rfl
      | cons c rest => rw [List.takeWhile_cons_of_neg (by simp [hpost c rfl])]
    have hfirst : r ∈ runs sep (r ++ post) := by
      rw [mem_runs_step hne, List.takeWhile_append_of_pos (by simpa using hin), hstop,
        List.append_nil]
      exact Or.inl rfl
    rcases pre.eq_nil_or_concat with rfl | ⟨a, c, rfl⟩
    · exact hfirst
    · have hc : sep c = true := hpre c (by simp)
      rw [List.concat_append, runs_append_sep hc]
      exact List.mem_append_right _ hfirst

/-! ### Walking a buffer -/

/-- How many elements from `p` on are none of those to stop at; `none` where the buffer is left or
the rounds run out. -/
def scan (stop : α → Bool) (buf : List α) : Nat → Nat → Option Nat
  | 0, _ => none
  | fuel + 1, p => do
      let c ← buf[p]?
      if stop c then return 0
      let n ← scan stop buf fuel (p + 1)
      return n + 1

/-- Behind the elements of `l` that are `go` the walk stops, at the end `z` at last. -/
theorem scan_ended {stop go : α → Bool} {z : α} (hz : stop z = true) (pre : List α) {l : List α}
    {fuel : Nat} (hgo : ∀ c ∈ l, stop c = !go c) (hfuel : l.length < fuel) :
    scan stop (pre ++ (l ++ [z])) fuel pre.length = some (l.takeWhile go).length := by
  induction l generalizing pre fuel with
  | nil =>
      obtain ⟨k, rfl⟩ := Nat.exists_eq_add_of_lt hfuel
      simp [scan, hz]
  | cons c rest ih =>
      obtain ⟨k, rfl⟩ : ∃ k, fuel = k + 1 := ⟨fuel - 1, by omega⟩
      have hc := hgo c List.mem_cons_self
      have hget : (pre ++ (c :: rest ++ [z]))[pre.length]? = some c := by simp
      rw [scan, hget]
      cases hg : go c with
      | false => simp [hc, hg]
      | true =>
          have hrest := ih (pre ++ [c]) (fun d hd => hgo d (List.mem_cons_of_mem c hd))
            (Nat.lt_of_succ_lt_succ hfuel)
          rw [List.length_append, List.length_singleton, List.append_assoc,
            List.singleton_append] at hrest
          simp [hc, hg, hrest]

section Until

variable [DecidableEq α] {a : α} {l : List α}

theorem forall_ne (h : a ∉ l) : ∀ c ∈ l, decide (c ≠ a) = true := by
  intro c hc
  rw [decide_eq_true_eq]
  intro heq
  exact h (heq ▸ hc)

/-- What comes before the first `a`. -/
theorem takeWhile_ne_append (h : a ∉ l) (m : List α) : (l ++ a :: m).takeWhile (· ≠ a) = l := by
  rw [List.takeWhile_append_of_pos (forall_ne h), List.takeWhile_cons_of_neg (by simp),
    List.append_nil]

/-- A stop behind the list changes nothing. -/
theorem takeWhile_append_stop (l : List α) (a : α) :
    (l ++ [a]).takeWhile (· ≠ a) = l.takeWhile (· ≠ a) := by
  rw [List.takeWhile_append]
  split
  · next hall =>
      rw [List.takeWhile_cons_of_neg (by simp), List.append_nil]
      exact ((List.takeWhile_prefix _).eq_of_length hall).symm
  · rfl

theorem takeWhile_ne_self (h : a ∉ l) : l.takeWhile (· ≠ a) = l :=
  List.takeWhile_eq_self_iff.mpr (forall_ne h)

/-- Padding is dropped again. -/
theorem takeWhile_ne_replicate (h : a ∉ l) (n : Nat) :
    (l ++ List.replicate n a).takeWhile (· ≠ a) = l := by
  cases n with
  | zero => rw [List.replicate_zero, List.append_nil, takeWhile_ne_self h]
  | succ n => rw [List.replicate_succ, takeWhile_ne_append h]

end Until

/-- What stands between two separators. -/
theorem mem_splitOn [BEq α] [LawfulBEq α] {a : α} {l : List α} :
    ∀ s ∈ l.splitOn a, ∀ c ∈ s, c ∈ l ∧ c ≠ a := by
  induction l with
  | nil => simp
  | cons x rest ih =>
      intro s hs c hc
      rw [List.splitOn_cons_eq_if_modifyHead] at hs
      split at hs
      · rcases List.mem_cons.mp hs with rfl | hin
        · exact absurd hc List.not_mem_nil
        · exact ⟨List.mem_cons_of_mem x (ih s hin c hc).1, (ih s hin c hc).2⟩
      · next hx =>
          obtain ⟨r, rs, hsplit⟩ := List.exists_cons_of_ne_nil (List.splitOn_ne_nil a rest)
          rw [hsplit, List.modifyHead_cons] at hs
          rw [hsplit] at ih
          rcases List.mem_cons.mp hs with rfl | hin
          · rcases List.mem_cons.mp hc with rfl | hc'
            · exact ⟨List.mem_cons_self, fun h0 => hx (by rw [h0]; exact BEq.rfl)⟩
            · have hmem := ih r List.mem_cons_self c hc'
              exact ⟨List.mem_cons_of_mem x hmem.1, hmem.2⟩
          · have hmem := ih s (List.mem_cons_of_mem r hin) c hc
            exact ⟨List.mem_cons_of_mem x hmem.1, hmem.2⟩

/-- Lines that were ended one by one are found again. -/
theorem splitOn_flatMap [BEq α] [LawfulBEq α] {a : α} {ls : List (List α)} (h : ∀ s ∈ ls, a ∉ s) :
    (ls.flatMap (· ++ [a])).splitOn a = ls ++ [[]] := by
  induction ls with
  | nil => rfl
  | cons s rest ih =>
      rw [List.flatMap_cons, List.append_assoc, List.singleton_append,
        List.splitOn_append_cons_self_of_not_mem (h s List.mem_cons_self),
        ih fun t ht => h t (List.mem_cons_of_mem s ht)]
      rfl

/-- Parts joined by a separator: all but the last are ended by it. -/
theorem intercalate_concat (a : α) (ls : List (List α)) (w : List α) :
    [a].intercalate (ls ++ [w]) = ls.flatMap (· ++ [a]) ++ w := by
  induction ls with
  | nil => simp
  | cons l rest ih =>
      rw [List.cons_append, List.intercalate_cons_of_ne_nil (by simp), ih, List.flatMap_cons]
      simp only [List.append_assoc]

/-! ### A table of the first entries -/

/-- The table and the number of entries that are not in it, after one more entry. -/
def keep (cap : Nat) (read : α → Option β) (t : List β × Nat) (e : α) : List β × Nat :=
  match read e with
  | none => (t.1, t.2 + 1)
  | some d => if t.1.length < cap then (t.1 ++ [d], t.2) else (t.1, t.2 + 1)

/-- What is kept of a list of entries. -/
def kept (cap : Nat) (read : α → Option β) (es : List α) : List β := (es.filterMap read).take cap

theorem length_kept_le (cap : Nat) (read : α → Option β) (es : List α) :
    (kept cap read es).length ≤ es.length :=
  Nat.le_trans (List.length_take_le' cap _) (List.length_filterMap_le read es)

theorem foldl_keep (cap : Nat) (read : α → Option β) (es : List α) (t : List β × Nat) :
    es.foldl (keep cap read) t =
      (t.1 ++ kept (cap - t.1.length) read es,
        t.2 + (es.length - (kept (cap - t.1.length) read es).length)) := by
  induction es generalizing t with
  | nil => simp [kept]
  | cons e rest ih =>
      have hle := fun k => length_kept_le k read rest
      rw [List.foldl_cons, ih]
      unfold keep
      cases hread : read e with
      | none =>
          have hsame : ∀ k, kept k read (e :: rest) = kept k read rest := fun k => by
            rw [kept, List.filterMap_cons_none hread, kept]
          have := hle (cap - t.1.length)
          simp only [hsame, List.length_cons]
          congr 1
          omega
      | some d =>
          have hcons : ∀ k, kept (k + 1) read (e :: rest) = d :: kept k read rest := fun k => by
            rw [kept, List.filterMap_cons_some hread, List.take_succ_cons, kept]
          by_cases hroom : t.1.length < cap
          · have hsucc : cap - t.1.length = cap - (t.1 ++ [d]).length + 1 := by
              rw [List.length_append, List.length_singleton]
              omega
            simp only [if_pos hroom, hsucc, hcons, List.length_cons, List.append_assoc,
              List.singleton_append, Nat.add_sub_add_right]
          · have hfull : cap - t.1.length = 0 := by omega
            simp only [if_neg hroom, hfull, kept, List.take_zero, List.length_nil, List.length_cons]
            congr 1
            omega

/-- An entry that cannot be read, or that finds the table full, changes nothing for the others. -/
theorem kept_without (cap : Nat) (read : α → Option β) {pre post : List α} {e : α}
    (h : read e = none ∨ cap ≤ (pre.filterMap read).length) :
    kept cap read (pre ++ e :: post) = kept cap read (pre ++ post) := by
  unfold kept
  rcases h with hnone | hfull
  · rw [List.filterMap_append, List.filterMap_cons_none hnone, List.filterMap_append]
  · rw [List.filterMap_append, List.filterMap_append, List.take_append_of_le_length hfull,
      List.take_append_of_le_length hfull]

end Tokens
