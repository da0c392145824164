/-
Marked positions that lie close together, joined into spans.

A scan of `[0, n)` that meets a marked position opens a span there and lets it grow as
long as the next marked position is at most `g` further on.  `IsCluster` says what such a
span is, `Split` what a scan from `i` on finds; there is only one answer
(`Split.unique`), and it depends on nothing outside `[i, n)`.

`Covers` is what remains when the scan is cut into pieces: spans one after the other that
start at a marked position and leave none out.  Each marked position is then in exactly
one of them (`Covers.exactly_one`).
-/
import Mathlib.Data.List.Basic

namespace Clusters

/-- The positions `[lo, hi)`. -/
structure Span where
  lo : Nat
  hi : Nat
  deriving DecidableEq, Repr

def Span.Has (s : Span) (p : Nat) : Prop := s.lo ≤ p ∧ p < s.hi

instance (s : Span) (p : Nat) : Decidable (s.Has p) := inferInstanceAs (Decidable (_ ∧ _))

structure IsCluster (d : Nat → Prop) (g n : Nat) (s : Span) : Prop where
  head : d s.lo
  lt : s.lo < s.hi
  le : s.hi ≤ n
  dense : ∀ p, s.lo ≤ p → p + 1 < s.hi → ∃ q, p < q ∧ q ≤ p + g ∧ q < s.hi ∧ d q
  clear : ∀ q, s.hi ≤ q → q < s.hi + g → q < n → ¬ d q

/-- The clusters of `[i, n)`, in order. -/
inductive Split (d : Nat → Prop) (g n : Nat) : Nat → List Span → Prop
  | nil {i : Nat} (hnone : ∀ q, i ≤ q → q < n → ¬ d q) : Split d g n i []
  | cons {i : Nat} {s : Span} {rest : List Span} (hle : i ≤ s.lo)
      (hskip : ∀ q, i ≤ q → q < s.lo → ¬ d q) (hs : IsCluster d g n s)
      (hrest : Split d g n s.hi rest) : Split d g n i (s :: rest)

/-- Spans of `[i, n)` one after the other, with every marked position in one of them. -/
inductive Covers (d : Nat → Prop) (n : Nat) : Nat → List Span → Prop
  | nil {i : Nat} (hnone : ∀ q, i ≤ q → q < n → ¬ d q) : Covers d n i []
  | cons {i : Nat} {s : Span} {rest : List Span} (hle : i ≤ s.lo)
      (hskip : ∀ q, i ≤ q → q < s.lo → ¬ d q) (hhead : d s.lo) (hlt : s.lo < s.hi)
      (hend : s.hi ≤ n) (hrest : Covers d n s.hi rest) : Covers d n i (s :: rest)

variable {d d' : Nat → Prop} {g n i j : Nat} {s s' : Span} {l l' : List Span}

/-! ### One cluster -/

theorem IsCluster.hi_le (h : IsCluster d g n s) (h' : IsCluster d g n s') (hlo : s.lo = s'.lo) :
    s'.hi ≤ s.hi := by
  by_contra hlt
  have hpos := h.lt
  obtain ⟨q, hgt, hnear, hin, hq⟩ := h'.dense (s.hi - 1) (by omega) (by omega)
  have hle := h'.le
  exact h.clear q (by omega) (by omega) (by omega) hq

theorem IsCluster.unique (h : IsCluster d g n s) (h' : IsCluster d g n s')
    (hlo : s.lo = s'.lo) : s = s' := by
  have hle := h.hi_le h' hlo
  have hge := h'.hi_le h hlo.symm
  cases s
  cases s'
  simp only [Span.mk.injEq] at *
  omega

/-- A shorter scan finds the cluster too, as long as it reaches its end. -/
theorem IsCluster.restrict {n' : Nat} (h : IsCluster d g n s) (hle : s.hi ≤ n') (hn : n' ≤ n) :
    IsCluster d g n' s := by
  refine ⟨h.head, h.lt, hle, h.dense, ?_⟩
  intro q hq hnear hlt
  exact h.clear q hq hnear (by omega)

theorem IsCluster.congr (h : IsCluster d g n s) (hd : ∀ q, s.lo ≤ q → q < n → (d q ↔ d' q)) :
    IsCluster d' g n s := by
  have hlt := h.lt
  have hle := h.le
  refine ⟨(hd _ (Nat.le_refl _) (by omega)).mp h.head, hlt, hle, ?_, ?_⟩
  · intro p hp hin
    obtain ⟨q, hgt, hnear, hq, hdq⟩ := h.dense p hp hin
    exact ⟨q, hgt, hnear, hq, (hd q (by omega) (by omega)).mp hdq⟩
  · intro q hq hnear hqn hdq
    exact h.clear q hq hnear hqn ((hd q (by omega) hqn).mpr hdq)

/-- Positions counted from `off` on. -/
theorem IsCluster.shift {off : Nat} (h : IsCluster (fun k => d (off + k)) g n s) :
    IsCluster d g (off + n) ⟨off + s.lo, off + s.hi⟩ := by
  have hlt := h.lt
  have hle := h.le
  refine ⟨h.head, by simpa using hlt, by simpa using hle, ?_, ?_⟩
  · intro p hp hin
    simp only at hp hin ⊢
    obtain ⟨q, hgt, hnear, hq, hdq⟩ := h.dense (p - off) (by omega) (by omega)
    exact ⟨off + q, by omega, by omega, by omega, hdq⟩
  · intro q hq hnear hqn
    simp only at hq hnear
    have hclear := h.clear (q - off) (by omega) (by omega) (by omega)
    rwa [Nat.add_sub_cancel' (by omega)] at hclear

/-! ### A whole scan -/

theorem Split.unique (h : Split d g n i l) (h' : Split d g n i l') : l = l' := by
  induction h generalizing l' with
  | nil hnone =>
      cases h' with
      | nil => rfl
      | cons hle hskip hs hrest =>
          have hlt := hs.lt
          have hend := hs.le
          exact absurd hs.head (hnone _ hle (by omega))
  | @cons i s rest hle hskip hs hrest ih =>
      have hlt := hs.lt
      have hend := hs.le
      cases h' with
      | nil hnone => exact absurd hs.head (hnone _ hle (by omega))
      | @cons _ s' rest' hle' hskip' hs' hrest' =>
          have hlo : s.lo = s'.lo := by
            rcases Nat.lt_trichotomy s.lo s'.lo with hlow | heq | hhigh
            · exact absurd hs.head (hskip' _ hle hlow)
            · exact heq
            · exact absurd hs'.head (hskip _ hle' hhigh)
          obtain rfl := hs.unique hs' hlo
          rw [ih hrest']

theorem Split.eq_nil (h : Split d g n i l) (hle : n ≤ i) : l = [] := by
  refine h.unique (.nil ?_)
  intro q hq hlt
  omega

theorem Split.congr (h : Split d g n i l) (hd : ∀ q, i ≤ q → q < n → (d q ↔ d' q)) :
    Split d' g n i l := by
  induction h with
  | nil hnone =>
      refine .nil ?_
      intro q hq hlt hdq
      exact hnone q hq hlt ((hd q hq hlt).mpr hdq)
  | @cons i s rest hle hskip hs hrest ih =>
      have hlt := hs.lt
      have hend := hs.le
      refine .cons hle ?_ (hs.congr ?_) (ih ?_)
      · intro q hq hlow hdq
        exact hskip q hq hlow ((hd q hq (by omega)).mpr hdq)
      · intro q hq hqn
        exact hd q (by omega) hqn
      · intro q hq hqn
        exact hd q (by omega) hqn

/-- Where nothing is marked, the scan may as well start earlier. -/
theorem Split.earlier (h : Split d g n i l) (hle : j ≤ i)
    (hnone : ∀ q, j ≤ q → q < i → ¬ d q) : Split d g n j l := by
  cases h with
  | nil hrest =>
      refine .nil ?_
      intro q hq hlt hdq
      rcases Nat.lt_or_ge q i with hlow | hge
      · exact hnone q hq hlow hdq
      · exact hrest q hge hlt hdq
  | cons hlo hskip hs hrest =>
      refine .cons (Nat.le_trans hle hlo) ?_ hs hrest
      intro q hq hlow hdq
      rcases Nat.lt_or_ge q i with hlt | hge
      · exact hnone q hq hlt hdq
      · exact hskip q hge hlow hdq

theorem Split.lo_ge (h : Split d g n i l) : ∀ s ∈ l, i ≤ s.lo := by
  induction h with
  | nil => simp
  | cons hle hskip hs hrest ih =>
      have hlt := hs.lt
      intro t ht
      rcases List.mem_cons.mp ht with rfl | ht
      · exact hle
      · have := ih t ht
        omega

theorem Split.isCluster (h : Split d g n i l) : ∀ s ∈ l, IsCluster d g n s := by
  induction h with
  | nil => simp
  | cons hle hskip hs hrest ih =>
      intro t ht
      rcases List.mem_cons.mp ht with rfl | ht
      · exact hs
      · exact ih t ht

/-- Nothing is marked close before a cluster. -/
theorem Split.clear_before (h : Split d g n i l) : ∀ s ∈ l, ∀ q, i ≤ q → q < s.lo →
    s.lo < q + 1 + g → ¬ d q := by
  induction h with
  | nil => simp
  | @cons i s rest hle hskip hs hrest ih =>
      intro t ht q hq hlt hnear hdq
      rcases List.mem_cons.mp ht with rfl | ht
      · exact hskip q hq hlt hdq
      · have hlo := hrest.lo_ge t ht
        have htc := hrest.isCluster t ht
        have htlt := htc.lt
        have htle := htc.le
        rcases Nat.lt_or_ge q s.hi with hin | hout
        · exact hs.clear t.lo hlo (by omega) (by omega) htc.head
        · exact ih t ht q hout hlt hnear hdq

theorem Split.apart (h : Split d g n i (s :: l)) : ∀ t ∈ l, s.hi + g ≤ t.lo := by
  intro t ht
  cases h with
  | cons hle hskip hs hrest =>
      have hlo := hrest.lo_ge t ht
      have htc := hrest.isCluster t ht
      have htlt := htc.lt
      have htle := htc.le
      by_contra hnear
      exact hs.clear t.lo hlo (by omega) (by omega) htc.head

/-- Inside a cluster something is marked close before every position. -/
theorem IsCluster.near (h : IsCluster d g n s) (hg : 0 < g) {p : Nat} (hlo : s.lo < p)
    (hhi : p < s.hi) : ∃ q, s.lo ≤ q ∧ q < p ∧ p ≤ q + g ∧ d q := by
  rcases Nat.lt_or_ge (s.lo + g) p with hfar | hnear
  · obtain ⟨q, hgt, hle, hq, hdq⟩ := h.dense (p - g - 1) (by omega) (by omega)
    exact ⟨q, by omega, by omega, by omega, hdq⟩
  · exact ⟨s.lo, Nat.le_refl _, hlo, hnear, h.head⟩

theorem Split.covers (h : Split d g n i l) : Covers d n i l := by
  induction h with
  | nil hnone => exact .nil hnone
  | cons hle hskip hs hrest ih => exact .cons hle hskip hs.head hs.lt hs.le ih

/-! ### Cutting a scan -/

/-- The spans that open before `b`. -/
def before (b : Nat) (l : List Span) : List Span := l.filter fun s => s.lo < b

/-- The spans that open at `b` or later. -/
def since (b : Nat) (l : List Span) : List Span := l.filter fun s => b ≤ s.lo

theorem before_cons {b : Nat} (h : s.lo < b) : before b (s :: l) = s :: before b l :=
  List.filter_cons_of_pos (by simpa using h)

theorem since_cons {b : Nat} (h : s.lo < b) : since b (s :: l) = since b l :=
  List.filter_cons_of_neg (by simpa using h)

theorem before_eq_nil {b : Nat} (h : ∀ s ∈ l, b ≤ s.lo) : before b l = [] := by
  rw [before, List.filter_eq_nil_iff]
  intro s hs
  have := h s hs
  simpa using this

theorem since_eq_self {b : Nat} (h : ∀ s ∈ l, b ≤ s.lo) : since b l = l := by
  rw [since, List.filter_eq_self]
  intro s hs
  simpa using h s hs

/--
A scan falls apart at `b`: what opens before it covers everything up to some `j` at or
behind `b`, and the rest is the scan from `j` on.
-/
theorem Split.cut {b : Nat} (h : Split d g n i l) (hi : i ≤ n) (hb : b ≤ n) :
    l = before b l ++ since b l ∧ ∃ j, i ≤ j ∧ b ≤ j ∧ j ≤ n ∧
      Covers d j i (before b l) ∧ Split d g n j (since b l) := by
  induction h with
  | nil hnone =>
      refine ⟨rfl, n, hi, hb, Nat.le_refl n, .nil hnone, .nil ?_⟩
      intro q hq hlt
      omega
  | @cons i s rest hle hskip hs hrest ih =>
      have hlt := hs.lt
      have hend := hs.le
      rcases Nat.lt_or_ge s.lo b with hlow | hhigh
      · obtain ⟨happ, j, hij, hbj, hjn, hcov, hsince⟩ := ih hend
        rw [before_cons hlow, since_cons hlow]
        refine ⟨by rw [List.cons_append, ← happ], j, by omega, hbj, hjn, ?_, hsince⟩
        exact .cons hle hskip hs.head hlt hij hcov
      · have hall : ∀ t ∈ s :: rest, b ≤ t.lo := by
          intro t ht
          rcases List.mem_cons.mp ht with rfl | ht
          · exact hhigh
          · have := hrest.lo_ge t ht
            omega
        rw [before_eq_nil hall, since_eq_self hall]
        refine ⟨rfl, s.lo, hle, hhigh, by omega, .nil hskip, ?_⟩
        exact .cons (Nat.le_refl _) (fun q hq hq' => by omega) hs hrest

/-- A shorter scan finds the same spans before `b` when these do not reach past its end. -/
theorem Split.before_eq {b n' : Nat} (h : Split d g n i l) (h' : Split d g n' i l')
    (hn : n' ≤ n) (hin : ∀ s ∈ l, s.lo < b → s.hi ≤ n') (hb : b ≤ n') :
    before b l' = before b l := by
  induction h generalizing l' with
  | nil hnone =>
      have hempty : Split d g n' _ [] := .nil fun q hq hlt => hnone q hq (by omega)
      rw [h'.unique hempty]
  | @cons i s rest hle hskip hs hrest ih =>
      rcases Nat.lt_or_ge s.lo b with hlow | hhigh
      · -- the first span of both scans
        have hs' : IsCluster d g n' s := hs.restrict (hin s (by simp) hlow) hn
        have hlt := hs'.lt
        have hend := hs'.le
        cases h' with
        | nil hnone => exact absurd hs.head (hnone _ hle (by omega))
        | @cons _ t rest' hle' hskip' ht hrest' =>
            have hlo : s.lo = t.lo := by
              rcases Nat.lt_trichotomy s.lo t.lo with hless | heq | hmore
              · exact absurd hs.head (hskip' _ hle hless)
              · exact heq
              · exact absurd ht.head (hskip _ hle' hmore)
            obtain rfl := hs'.unique ht hlo
            rw [before_cons hlow, before_cons hlow,
              ih hrest' fun u hu => hin u (List.mem_cons_of_mem _ hu)]
      · -- nothing is marked before `b`, so neither scan opens a span there
        have hnone : ∀ q, i ≤ q → q < b → ¬ d q := fun q hq hlt => hskip q hq (by omega)
        have hall : ∀ t ∈ s :: rest, b ≤ t.lo := by
          intro t ht
          by_contra hlt
          have hmem := (Split.cons hle hskip hs hrest).isCluster t ht
          have hge := (Split.cons hle hskip hs hrest).lo_ge t ht
          exact hnone _ hge (by omega) hmem.head
        have hall' : ∀ t ∈ l', b ≤ t.lo := by
          intro t ht
          by_contra hlt
          exact hnone _ (h'.lo_ge t ht) (by omega) (h'.isCluster t ht).head
        rw [before_eq_nil hall, before_eq_nil hall']

/-! ### Covers -/

theorem Covers.append (h : Covers d j i l) (h' : Covers d n j l') (hjn : j ≤ n) (hij : i ≤ j) :
    Covers d n i (l ++ l') := by
  induction h with
  | nil hnone =>
      cases h' with
      | nil hrest =>
          refine .nil fun q hq hlt hdq => ?_
          rcases Nat.lt_or_ge q j with hlow | hge
          · exact hnone q hq hlow hdq
          · exact hrest q hge hlt hdq
      | cons hle hskip hhead hlt hend hrest =>
          refine .cons (by omega) (fun q hq hlow hdq => ?_) hhead hlt hend hrest
          rcases Nat.lt_or_ge q j with hlow' | hge
          · exact hnone q hq hlow' hdq
          · exact hskip q hge hlow hdq
  | cons hle hskip hhead hlt hend hrest ih =>
      exact .cons hle hskip hhead hlt (by omega) (ih hend)

theorem Covers.congr (h : Covers d n i l) (hd : ∀ q, i ≤ q → q < n → (d q ↔ d' q)) :
    Covers d' n i l := by
  induction h with
  | nil hnone => exact .nil fun q hq hlt hdq => hnone q hq hlt ((hd q hq hlt).mpr hdq)
  | @cons i s rest hle hskip hhead hlt hend hrest ih =>
      refine .cons hle ?_ ((hd _ hle (by omega)).mp hhead) hlt hend (ih ?_)
      · intro q hq hlow hdq
        exact hskip q hq hlow ((hd q hq (by omega)).mpr hdq)
      · intro q hq hqn
        exact hd q (by omega) hqn

theorem Covers.move (h : Covers d n i l) (hle : i ≤ j) (hnone : ∀ q, i ≤ q → q < j → ¬ d q) :
    Covers d n j l := by
  cases h with
  | nil hrest => exact .nil fun q hq hlt => hrest q (by omega) hlt
  | cons hlo hskip hhead hlt hend hrest =>
      refine .cons ?_ (fun q hq hlow => hskip q (by omega) hlow) hhead hlt hend hrest
      by_contra hgt
      exact hnone _ hlo (by omega) hhead

theorem Covers.within (h : Covers d n i l) : ∀ s ∈ l, i ≤ s.lo ∧ s.hi ≤ n := by
  induction h with
  | nil => simp
  | cons hle hskip hhead hlt hend hrest ih =>
      intro t ht
      rcases List.mem_cons.mp ht with rfl | ht
      · exact ⟨hle, hend⟩
      · have := ih t ht
        omega

/-- Every marked position is in exactly one span. -/
theorem Covers.exactly_one (h : Covers d n i l) {p : Nat} (hp : i ≤ p) (hpn : p < n) (hd : d p) :
    (l.filter fun s => s.Has p).length = 1 := by
  induction h with
  | nil hnone => exact absurd hd (hnone p hp hpn)
  | @cons i s rest hle hskip hhead hlt hend hrest ih =>
      have hlo : s.lo ≤ p := by
        by_contra hlow
        exact hskip p hp (by omega) hd
      rcases Nat.lt_or_ge p s.hi with hin | hout
      · have hrest' : rest.filter (fun t => t.Has p) = [] := by
          rw [List.filter_eq_nil_iff]
          intro t ht
          have hge := (hrest.within t ht).1
          have hno : ¬ t.Has p := fun hhas => by
            have := hhas.1
            omega
          simpa using hno
        have hyes : s.Has p := ⟨hlo, hin⟩
        rw [List.filter_cons_of_pos (by simpa using hyes), hrest']
        rfl
      · have hno : ¬ s.Has p := fun hhas => by
          have := hhas.2
          omega
        rw [List.filter_cons_of_neg (by simpa using hno)]
        exact ih hout

theorem Covers.exists_has (h : Covers d n i l) {p : Nat} (hp : i ≤ p) (hpn : p < n) (hd : d p) :
    ∃ s ∈ l, s.Has p := by
  have hone := h.exactly_one hp hpn hd
  have hne : l.filter (fun s => s.Has p) ≠ [] := by
    intro hnil
    simp [hnil] at hone
  obtain ⟨s, hs⟩ := List.exists_mem_of_ne_nil _ hne
  rw [List.mem_filter] at hs
  exact ⟨s, hs.1, by simpa using hs.2⟩

end Clusters
