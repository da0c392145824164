/-
A depth-limited walk over a forest that remembers where it has been.

A node is entered at most once, whatever the edges are.  What the memory can spoil is
completeness: a node met first on a long way would be cut off from what lies below it.  In a
forest there is one way to every node, so the trees below two children of a node, or below
two roots, never meet, and the walk enters all nodes that are near enough to a root.
-/
import Mathlib.Data.List.Induction
import Mathlib.Data.List.Nodup

namespace TreeWalk

variable {ι : Type} [DecidableEq ι]

/-- Enter `v` and the trees below it, at most `left` nodes deep; the result is the order of entry. -/
def walk (children : ι → List ι) : Nat → ι → List ι → List ι
  | 0, _, seen => seen
  | left + 1, v, seen =>
      if v ∈ seen then seen
      else (children v).foldl (fun seen c => walk children left c seen) (seen ++ [v])

/-- The trees below several nodes, one after the other. -/
def walkAll (children : ι → List ι) (left : Nat) (vs : List ι) (seen : List ι) : List ι :=
  vs.foldl (fun seen c => walk children left c seen) seen

/-- There are `k` edges from `u` down to `v`. -/
inductive Below (children : ι → List ι) : Nat → ι → ι → Prop
  | refl (u : ι) : Below children 0 u u
  | step {k : Nat} {u c v : ι} : c ∈ children u → Below children k c v → Below children (k + 1) u v

/-- Edges lead to nodes of higher rank, and at most one edge leads to a node. -/
structure Forest (children : ι → List ι) (rank : ι → Nat) : Prop where
  rank : ∀ {u c}, c ∈ children u → rank u < rank c
  parent : ∀ {u u' c}, c ∈ children u → c ∈ children u' → u = u'
  nodup : ∀ u, (children u).Nodup

variable {children : ι → List ι}

/-! ### The walk only adds, and nothing twice -/

theorem mem_walkAll_of_mem {left : Nat} {x : ι}
    (hwalk : ∀ v seen, x ∈ seen → x ∈ walk children left v seen) :
    ∀ (vs seen : List ι), x ∈ seen → x ∈ walkAll children left vs seen := by
  intro vs
  induction vs with
  | nil => intro seen h; exact h
  | cons v rest ih =>
      intro seen h
      exact ih _ (hwalk v seen h)

theorem mem_walk_of_mem {x : ι} :
    ∀ (left : Nat) (v : ι) (seen : List ι), x ∈ seen → x ∈ walk children left v seen := by
  intro left
  induction left with
  | zero => intro v seen h; exact h
  | succ left ih =>
      intro v seen h
      unfold walk
      by_cases hv : v ∈ seen
      · rw [if_pos hv]
        exact h
      · rw [if_neg hv]
        exact mem_walkAll_of_mem ih (children v) _ (List.mem_append_left _ h)

theorem walkAll_nodup {left : Nat}
    (hwalk : ∀ v seen, seen.Nodup → (walk children left v seen).Nodup) :
    ∀ (vs seen : List ι), seen.Nodup → (walkAll children left vs seen).Nodup := by
  intro vs
  induction vs with
  | nil => intro seen h; exact h
  | cons v rest ih =>
      intro seen h
      exact ih _ (hwalk v seen h)

theorem walk_nodup :
    ∀ (left : Nat) (v : ι) (seen : List ι), seen.Nodup → (walk children left v seen).Nodup := by
  intro left
  induction left with
  | zero => intro v seen h; exact h
  | succ left ih =>
      intro v seen h
      unfold walk
      by_cases hv : v ∈ seen
      · rw [if_pos hv]
        exact h
      · rw [if_neg hv]
        refine walkAll_nodup ih (children v) _ ?_
        rw [List.nodup_append]
        refine ⟨h, List.nodup_singleton v, ?_⟩
        intro x hx y hy hxy
        rw [List.mem_singleton] at hy
        exact hv (hy ▸ hxy ▸ hx)

/-! ### Only what is below is entered -/

theorem walkAll_sound {left : Nat} {x : ι}
    (hwalk : ∀ v seen, x ∈ walk children left v seen → x ∈ seen ∨ ∃ k < left, Below children k v x) :
    ∀ (vs seen : List ι), x ∈ walkAll children left vs seen →
      x ∈ seen ∨ ∃ v ∈ vs, ∃ k < left, Below children k v x := by
  intro vs
  induction vs with
  | nil => intro seen h; exact Or.inl h
  | cons v rest ih =>
      intro seen h
      rcases ih _ h with hin | ⟨c, hc, hbelow⟩
      · rcases hwalk v seen hin with hseen | hbelow
        · exact Or.inl hseen
        · exact Or.inr ⟨v, by simp, hbelow⟩
      · exact Or.inr ⟨c, List.mem_cons_of_mem _ hc, hbelow⟩

theorem walk_sound {x : ι} :
    ∀ (left : Nat) (v : ι) (seen : List ι), x ∈ walk children left v seen →
      x ∈ seen ∨ ∃ k < left, Below children k v x := by
  intro left
  induction left with
  | zero => intro v seen h; exact Or.inl h
  | succ left ih =>
      intro v seen h
      unfold walk at h
      by_cases hv : v ∈ seen
      · rw [if_pos hv] at h
        exact Or.inl h
      · rw [if_neg hv] at h
        rcases walkAll_sound ih (children v) _ h with hin | ⟨c, hc, k, hk, hbelow⟩
        · rw [List.mem_append, List.mem_singleton] at hin
          rcases hin with hseen | rfl
          · exact Or.inl hseen
          · exact Or.inr ⟨0, by omega, .refl x⟩
        · exact Or.inr ⟨k + 1, by omega, .step hc hbelow⟩

/-! ### Trees do not meet -/

section Forest

variable {rank : ι → Nat} (hf : Forest children rank)

omit [DecidableEq ι] in
/-- The last edge of a way down. -/
theorem Below.parent {k : Nat} {u v : ι} (h : Below children (k + 1) u v) :
    ∃ p, Below children k u p ∧ v ∈ children p := by
  induction k generalizing u with
  | zero =>
      obtain _ | ⟨hc, hbelow⟩ := h
      cases hbelow
      exact ⟨u, .refl u, hc⟩
  | succ k ih =>
      obtain _ | ⟨hc, hbelow⟩ := h
      obtain ⟨p, hp, hv⟩ := ih hbelow
      exact ⟨p, .step hc hp, hv⟩

include hf

omit [DecidableEq ι] in
theorem Below.rank_le {k : Nat} {u v : ι} (h : Below children k u v) : rank u ≤ rank v := by
  induction h with
  | refl => exact Nat.le_refl _
  | step hc _ ih => exact Nat.le_trans (Nat.le_of_lt (hf.rank hc)) ih

omit [DecidableEq ι] in
/-- Two ways down to one node: the shorter is the end of the longer. -/
theorem Below.join {j k : Nat} {a b x : ι} (ha : Below children j a x) (hb : Below children k b x)
    (hjk : j ≤ k) : Below children (k - j) b a := by
  induction j generalizing k x with
  | zero =>
      cases ha
      exact hb
  | succ j ih =>
      obtain ⟨k, rfl⟩ : ∃ k', k = k' + 1 := ⟨k - 1, by omega⟩
      obtain ⟨p, hp, hx⟩ := ha.parent
      obtain ⟨q, hq, hx'⟩ := hb.parent
      rw [hf.parent hx' hx] at hq
      have := ih hp hq (by omega)
      rwa [show k + 1 - (j + 1) = k - j by omega]

omit [DecidableEq ι] in
/-- The trees below two children of a node have nothing in common. -/
theorem siblings_apart {u c d x : ι} {j k : Nat} (hc : c ∈ children u) (hd : d ∈ children u)
    (hcx : Below children j c x) (hdx : Below children k d x) : c = d := by
  have key : ∀ {c d : ι} {j k : Nat}, c ∈ children u → d ∈ children u → Below children j c x →
      Below children k d x → j ≤ k → c = d := by
    intro c d j k hc hd hcx hdx hjk
    have hdc := hcx.join hf hdx hjk
    cases hlen : k - j with
    | zero =>
        rw [hlen] at hdc
        cases hdc
        rfl
    | succ n =>
        rw [hlen] at hdc
        obtain ⟨p, hp, hcp⟩ := hdc.parent
        rw [hf.parent hcp hc] at hp
        have hle := hp.rank_le hf
        have hlt := hf.rank hd
        omega
  rcases Nat.le_total j k with hjk | hkj
  · exact key hc hd hcx hdx hjk
  · exact (key hd hc hdx hcx hkj).symm

omit [DecidableEq ι] in
/-- Neither have the trees below two roots. -/
theorem roots_apart {r s x : ι} {j k : Nat} (hr : ∀ u, r ∉ children u) (hs : ∀ u, s ∉ children u)
    (hrx : Below children j r x) (hsx : Below children k s x) : r = s := by
  have key : ∀ {r s : ι} {j k : Nat}, (∀ u, r ∉ children u) → Below children j r x →
      Below children k s x → j ≤ k → r = s := by
    intro r s j k hr hrx hsx hjk
    have hsr := hrx.join hf hsx hjk
    cases hlen : k - j with
    | zero =>
        rw [hlen] at hsr
        cases hsr
        rfl
    | succ n =>
        rw [hlen] at hsr
        obtain ⟨p, -, hp⟩ := hsr.parent
        exact absurd hp (hr p)
  rcases Nat.le_total j k with hjk | hkj
  · exact key hr hrx hsx hjk
  · exact (key hs hsx hrx hkj).symm

/-! ### Everything near enough is entered -/

omit hf in
/-- Trees that are apart from one another are entered one after the other. -/
theorem walkAll_complete {left : Nat}
    (hwalk : ∀ v seen, (∀ k x, Below children k v x → x ∉ seen) →
      ∀ k < left, ∀ x, Below children k v x → x ∈ walk children left v seen)
    (vs seen : List ι) (hvs : vs.Nodup)
    (hapart : ∀ c ∈ vs, ∀ d ∈ vs, ∀ j k x, Below children j c x → Below children k d x → c = d)
    (hfresh : ∀ c ∈ vs, ∀ k x, Below children k c x → x ∉ seen) :
    ∀ c ∈ vs, ∀ k < left, ∀ x, Below children k c x → x ∈ walkAll children left vs seen := by
  induction vs generalizing seen with
  | nil => intro c hc; simp at hc
  | cons v rest ih =>
      intro c hc k hk x hx
      rw [List.nodup_cons] at hvs
      rcases List.mem_cons.mp hc with rfl | hrest
      · refine mem_walkAll_of_mem (mem_walk_of_mem left) rest _ ?_
        exact hwalk c seen (hfresh c (by simp)) k hk x hx
      · refine ih (walk children left v seen) hvs.2 ?_ ?_ c hrest k hk x hx
        · intro c hc d hd
          exact hapart c (List.mem_cons_of_mem _ hc) d (List.mem_cons_of_mem _ hd)
        · intro d hd j y hy hmem
          rcases walk_sound left v seen hmem with hseen | ⟨i, -, hi⟩
          · exact hfresh d (List.mem_cons_of_mem _ hd) j y hy hseen
          · have hdv := hapart d (List.mem_cons_of_mem _ hd) v (by simp) j i y hy hi
            exact hvs.1 (hdv ▸ hd)

theorem walk_complete :
    ∀ (left : Nat) (v : ι) (seen : List ι), (∀ k x, Below children k v x → x ∉ seen) →
      ∀ k < left, ∀ x, Below children k v x → x ∈ walk children left v seen := by
  intro left
  induction left with
  | zero => intro v seen _ k hk; omega
  | succ left ih =>
      intro v seen hfresh k hk x hx
      unfold walk
      rw [if_neg (hfresh 0 v (.refl v))]
      obtain _ | @⟨k, _, c, _, hc, hbelow⟩ := hx
      · exact mem_walkAll_of_mem (mem_walk_of_mem left) _ _ (by simp)
      · refine walkAll_complete ih (children v) (seen ++ [v]) (hf.nodup v) ?_ ?_ c hc k
          (by omega) x hbelow
        · intro c hc d hd j k y hcy hdy
          exact siblings_apart hf hc hd hcy hdy
        · intro c hc k y hy hmem
          rw [List.mem_append, List.mem_singleton] at hmem
          rcases hmem with hseen | rfl
          · exact hfresh (k + 1) y (.step hc hy) hseen
          · have hle := hy.rank_le hf
            have hlt := hf.rank hc
            omega

/-- **A walk from the roots enters exactly the nodes that are near enough to one of them.** -/
theorem mem_walkAll_roots (left : Nat) (roots : List ι) (hroots : ∀ r ∈ roots, ∀ u, r ∉ children u)
    (x : ι) :
    x ∈ walkAll children left roots [] ↔ ∃ r ∈ roots, ∃ k < left, Below children k r x := by
  constructor
  · intro h
    exact (walkAll_sound (walk_sound left) roots [] h).resolve_left (by simp)
  · intro h
    induction roots using List.reverseRecOn with
    | nil =>
        obtain ⟨r, hr, -⟩ := h
        simp at hr
    | append_singleton rs r ih =>
        have hrs : ∀ s ∈ rs, ∀ u, s ∉ children u := fun s hs => hroots s (by simp [hs])
        have hsnoc : walkAll children left (rs ++ [r]) []
            = walk children left r (walkAll children left rs []) := by
          simp [walkAll]
        rw [hsnoc]
        obtain ⟨s, hs, k, hk, hbelow⟩ := h
        by_cases hold : s ∈ rs
        · exact mem_walk_of_mem left r _ (ih hrs ⟨s, hold, k, hk, hbelow⟩)
        · -- `s` is the new root, and what was entered so far is below other roots
          have hsr : s = r := by simpa [hold] using hs
          subst hsr
          refine walk_complete hf left s _ ?_ k hk x hbelow
          intro j y hy hmem
          obtain ⟨q, hq, i, -, hi⟩ :=
            (walkAll_sound (walk_sound left) rs [] hmem).resolve_left (by simp)
          have hqs := roots_apart hf (hrs q hq) (hroots s (by simp)) hi hy
          exact hold (hqs ▸ hq)

end Forest

end TreeWalk
