/-
A bounded table with least-recently-used replacement, on a clock that stands still.

Each of `n` cells is free or holds a key with the time it was last touched.  Touching
a key takes the cell that holds it, else a free cell, else the first of the cells with
the oldest time stamp.  When many keys are touched at one and the same time, cells
that were stamped in that very instant become the oldest ones, and the table starts to
evict what it has only just taken in.

`held_iff` says exactly when that happens.  A cell is available at time `now` if it is
free or was stamped before.  Every key not yet stamped with `now` uses up one
available cell, whichever it is; when none is left, the first cell of the table is
taken again and again.
-/
import Mathlib.Data.Fintype.Card
import Mathlib.Data.Fintype.Basic
import Mathlib.Logic.Function.Basic
import Mathlib.Data.List.Count
import Mathlib.Algebra.GroupWithZero.Nat

namespace Lru

variable {K : Type} {n : Nat}

/-- A cell is free, or holds a key and the time it was last touched. -/
abbrev Table (n : Nat) (K : Type) := Fin n → Option (K × Nat)

def Held (t : Table n K) (k : K) : Prop := ∃ i s, t i = some (k, s)

/-- Some cell holds `k` and was touched at `now`. -/
def Stamped (now : Nat) (t : Table n K) (k : K) : Prop := ∃ i, t i = some (k, now)

/-- Cell `i` was touched at `now`. -/
def Fresh (now : Nat) (t : Table n K) (i : Fin n) : Prop := (t i).map Prod.snd = some now

instance [DecidableEq K] (now : Nat) (t : Table n K) (k : K) : Decidable (Stamped now t k) :=
  inferInstanceAs (Decidable (∃ i, t i = some (k, now)))

instance (now : Nat) (t : Table n K) (i : Fin n) : Decidable (Fresh now t i) :=
  inferInstanceAs (Decidable ((t i).map Prod.snd = some now))

/-- No key is held twice. -/
def Distinct (t : Table n K) : Prop :=
  ∀ i j k s r, t i = some (k, s) → t j = some (k, r) → i = j

/-- Nothing in the table is stamped later than `now`. -/
def Past (now : Nat) (t : Table n K) : Prop := ∀ i k s, t i = some (k, s) → s ≤ now

/-- The cell that a touch of `k` takes. -/
inductive Picks (t : Table n K) (k : K) (i : Fin n) : Prop
  | hit {s : Nat} (h : t i = some (k, s))
  | free (hk : ¬ Held t k) (h : t i = none)
  | evict {x : K} {s : Nat} (hk : ¬ Held t k) (h : t i = some (x, s)) (full : ∀ j, t j ≠ none)
      (least : ∀ j y r, t j = some (y, r) → s ≤ r)
      (first : ∀ j y r, t j = some (y, r) → j < i → s < r)

/-- Touch `k` in cell `i`. -/
def touch (t : Table n K) (i : Fin n) (k : K) (now : Nat) : Table n K :=
  Function.update t i (some (k, now))

/-- `t'` comes from `t` by touching the keys one after the other, all at `now`. -/
inductive Touches (now : Nat) : Table n K → List K → Table n K → Prop
  | nil (t : Table n K) : Touches now t [] t
  | cons {t t' : Table n K} {k : K} {ks : List K} {i : Fin n} (pick : Picks t k i)
      (rest : Touches now (touch t i k now) ks t') : Touches now t (k :: ks) t'

theorem Touches.append {now : Nat} {t t' t'' : Table n K} {ks ls : List K}
    (h : Touches now t ks t') (h' : Touches now t' ls t'') : Touches now t (ks ++ ls) t'' := by
  induction h with
  | nil t => exact h'
  | cons pick rest ih => exact .cons pick (ih h')

/-! ### One touch -/

section One

variable {t : Table n K} {k : K} {i : Fin n} {now : Nat}

theorem stamped_touch_self : Stamped now (touch t i k now) k :=
  ⟨i, Function.update_self _ _ _⟩

theorem fresh_of_eq {x : K} (h : t i = some (x, now)) : Fresh now t i := by
  simp [Fresh, h]

theorem Fresh.eq (h : Fresh now t i) : ∃ x, t i = some (x, now) := by
  unfold Fresh at h
  cases hc : t i with
  | none => simp [hc] at h
  | some p =>
      obtain ⟨x, s⟩ := p
      simp only [hc, Option.map_some, Option.some.injEq] at h
      exact ⟨x, by rw [h]⟩

/-- Another key survives in every cell but the one taken. -/
theorem touch_eq_of_ne {x : K} {s : Nat} {j : Fin n} (hx : x ≠ k)
    (h : touch t i k now j = some (x, s)) : j ≠ i ∧ t j = some (x, s) := by
  by_cases hj : j = i
  · subst hj
    rw [touch, Function.update_self] at h
    simp only [Option.some.injEq, Prod.mk.injEq] at h
    exact absurd h.1.symm hx
  · rw [touch, Function.update_of_ne hj] at h
    exact ⟨hj, h⟩

/-- Taking a cell that is not fresh stamps one more key and loses none. -/
theorem stamped_touch_iff (hi : ¬ Fresh now t i) {x : K} :
    Stamped now (touch t i k now) x ↔ x = k ∨ Stamped now t x := by
  refine ⟨?_, ?_⟩
  · rintro ⟨j, hj⟩
    by_cases hx : x = k
    · exact Or.inl hx
    · exact Or.inr ⟨j, (touch_eq_of_ne hx hj).2⟩
  · rintro (rfl | ⟨j, hj⟩)
    · exact stamped_touch_self
    · refine ⟨j, ?_⟩
      have hne : j ≠ i := fun h => hi (fresh_of_eq (h ▸ hj))
      rw [touch, Function.update_of_ne hne]
      exact hj

/-- A touch never leaves a key twice in the table. -/
theorem Distinct.touch (hd : Distinct t) (hp : Picks t k i) : Distinct (touch t i k now) := by
  -- the cell taken is the only one that can hold `k`
  have honly : ∀ j s, t j = some (k, s) → j = i := by
    intro j s hj
    cases hp with
    | hit h => exact hd j i k _ _ hj h
    | free hk h => exact absurd ⟨j, s, hj⟩ hk
    | evict hk h => exact absurd ⟨j, s, hj⟩ hk
  have hcell : ∀ j x s, Lru.touch t i k now j = some (x, s) → j = i ∨ (x ≠ k ∧ t j = some (x, s)) := by
    intro j x s hj
    by_cases hji : j = i
    · exact Or.inl hji
    · rw [Lru.touch, Function.update_of_ne hji] at hj
      refine Or.inr ⟨?_, hj⟩
      rintro rfl
      exact hji (honly j s hj)
  intro a b x s r ha hb
  rcases hcell a x s ha with rfl | ⟨hxa, hta⟩
  · rcases hcell b x r hb with rfl | ⟨hxb, -⟩
    · rfl
    · rw [Lru.touch, Function.update_self] at ha
      simp only [Option.some.injEq, Prod.mk.injEq] at ha
      exact absurd ha.1.symm hxb
  · obtain ⟨-, htb⟩ := touch_eq_of_ne hxa hb
    exact hd a b x s r hta htb

theorem Past.touch {r : Nat} (hp : Past now t) (hr : r ≤ now) : Past now (touch t i k r) := by
  intro j x s hj
  by_cases hji : j = i
  · subst hji
    rw [Lru.touch, Function.update_self] at hj
    simp only [Option.some.injEq, Prod.mk.injEq] at hj
    omega
  · rw [Lru.touch, Function.update_of_ne hji] at hj
    exact hp j x s hj

/-- A key that is not held appears only by being touched. -/
theorem not_held_touch {x : K} (hx : x ≠ k) (h : ¬ Held t x) : ¬ Held (touch t i k now) x := by
  rintro ⟨j, s, hj⟩
  exact h ⟨j, s, (touch_eq_of_ne hx hj).2⟩

end One

theorem Touches.not_held {now : Nat} {t t' : Table n K} {ks : List K} (h : Touches now t ks t')
    {x : K} (hx : x ∉ ks) (ht : ¬ Held t x) : ¬ Held t' x := by
  induction h with
  | nil t => exact ht
  | cons pick rest ih =>
      rw [List.mem_cons, not_or] at hx
      exact ih hx.2 (not_held_touch hx.1 ht)

theorem Touches.distinct {now : Nat} {t t' : Table n K} {ks : List K} (h : Touches now t ks t')
    (ht : Distinct t) : Distinct t' := by
  induction h with
  | nil t => exact ht
  | cons pick rest ih => exact ih (ht.touch pick)

theorem Touches.past {r now : Nat} {t t' : Table n K} {ks : List K} (h : Touches r t ks t')
    (hr : r ≤ now) (ht : Past now t) : Past now t' := by
  induction h with
  | nil t => exact ht
  | cons pick rest ih => exact ih (ht.touch hr)

/-! ### Counting -/

/-- The number of cells that are free or were touched before `now`. -/
def avail (now : Nat) (t : Table n K) : Nat :=
  (Finset.univ.filter fun i => ¬ Fresh now t i).card

/-- The number of keys of the list that are not stamped with `now` yet. -/
def need [DecidableEq K] (now : Nat) (t : Table n K) (ks : List K) : Nat :=
  ks.countP fun k => ¬ Stamped now t k

section Count

variable {t : Table n K} {k : K} {i : Fin n} {now : Nat}

theorem avail_touch (hi : ¬ Fresh now t i) : avail now (touch t i k now) + 1 = avail now t := by
  have hfilter : (Finset.univ.filter fun j => ¬ Fresh now (touch t i k now) j)
      = (Finset.univ.filter fun j => ¬ Fresh now t j).erase i := by
    ext j
    simp only [Finset.mem_filter, Finset.mem_univ, true_and, Finset.mem_erase]
    by_cases hj : j = i
    · subst hj
      simp [Fresh, touch]
    · simp [Fresh, touch, hj]
  unfold avail
  rw [hfilter]
  exact Finset.card_erase_add_one (Finset.mem_filter.mpr ⟨Finset.mem_univ i, hi⟩)

theorem avail_touch_fresh (hi : Fresh now t i) : avail now (touch t i k now) = avail now t := by
  unfold avail
  congr 1
  ext j
  simp only [Finset.mem_filter, Finset.mem_univ, true_and, not_iff_not]
  by_cases hj : j = i
  · subst hj
    simp only [hi, iff_true]
    simp [Fresh, touch]
  · simp [Fresh, touch, Function.update_of_ne hj]

theorem fresh_of_avail_eq_zero (h : avail now t = 0) (j : Fin n) : Fresh now t j := by
  by_contra hj
  have hmem : j ∈ Finset.univ.filter fun i => ¬ Fresh now t i :=
    Finset.mem_filter.mpr ⟨Finset.mem_univ j, hj⟩
  rw [avail, Finset.card_eq_zero] at h
  rw [h] at hmem
  exact absurd hmem (Finset.notMem_empty j)

/-- As long as cells are available, a key that is not stamped yet takes one of them. -/
theorem Picks.not_fresh (hp : Picks t k i) (hpast : Past now t) (hk : ¬ Stamped now t k)
    (havail : 0 < avail now t) : ¬ Fresh now t i := by
  intro hi
  obtain ⟨x, hx⟩ := hi.eq
  cases hp with
  | hit h =>
      rw [h] at hx
      simp only [Option.some.injEq, Prod.mk.injEq] at hx
      exact hk ⟨i, by rw [h, hx.2]⟩
  | free _ h =>
      rw [h] at hx
      exact absurd hx (by simp)
  | evict _ h full least first =>
      rw [h] at hx
      simp only [Option.some.injEq, Prod.mk.injEq] at hx
      obtain ⟨j, hj⟩ := Finset.card_pos.mp havail
      rw [Finset.mem_filter] at hj
      -- the cell still available is older, so the one taken would not be the oldest
      cases hc : t j with
      | none => exact full j hc
      | some p =>
          obtain ⟨y, r⟩ := p
          have hle := least j y r hc
          have hr := hpast j y r hc
          have hrnow : r = now := by omega
          exact hj.2 (fresh_of_eq (by rw [hc, hrnow]))

/-- With nothing left, the first cell of the table is taken. -/
theorem Picks.eq_zero [NeZero n] (hp : Picks t k i) (hk : ¬ Stamped now t k)
    (havail : avail now t = 0) : i = 0 := by
  have hfresh := fresh_of_avail_eq_zero havail
  cases hp with
  | hit h =>
      obtain ⟨x, hx⟩ := (hfresh i).eq
      rw [h] at hx
      simp only [Option.some.injEq, Prod.mk.injEq] at hx
      exact absurd ⟨i, by rw [h, hx.2]⟩ hk
  | free _ h =>
      obtain ⟨x, hx⟩ := (hfresh i).eq
      rw [h] at hx
      exact absurd hx (by simp)
  | evict _ h full least first =>
      by_contra hne
      obtain ⟨x, hx⟩ := (hfresh i).eq
      obtain ⟨y, hy⟩ := (hfresh 0).eq
      rw [h] at hx
      simp only [Option.some.injEq, Prod.mk.injEq] at hx
      have := first 0 y now hy ((Fin.pos_iff_ne_zero' i).mpr hne)
      omega

end Count

/-! ### Many touches at one time -/

section Many

variable {t t' : Table n K} {k : K} {i : Fin n} {now : Nat}

/-- Touching a key that is stamped already changes nothing. -/
theorem touch_of_stamped (hd : Distinct t) (hp : Picks t k i) (hk : Stamped now t k) :
    touch t i k now = t := by
  obtain ⟨j, hj⟩ := hk
  cases hp with
  | hit h =>
      have hij : i = j := hd i j k _ _ h hj
      rw [← hij] at hj
      rw [touch, ← hj, Function.update_eq_self]
  | free hk h => exact absurd ⟨j, now, hj⟩ hk
  | evict hk h => exact absurd ⟨j, now, hj⟩ hk

/-- Taking a fresh cell loses the key in it, and nothing else. -/
theorem stamped_touch_fresh (hd : Distinct t) {x : K} (hx : t i = some (x, now)) (hxk : x ≠ k)
    {y : K} : Stamped now (touch t i k now) y ↔ y = k ∨ (y ≠ x ∧ Stamped now t y) := by
  refine ⟨?_, ?_⟩
  · rintro ⟨j, hj⟩
    by_cases hy : y = k
    · exact Or.inl hy
    · obtain ⟨hji, htj⟩ := touch_eq_of_ne hy hj
      refine Or.inr ⟨?_, j, htj⟩
      rintro rfl
      exact hji (hd j i y _ _ htj hx)
  · rintro (rfl | ⟨hyx, j, hj⟩)
    · exact stamped_touch_self
    · refine ⟨j, ?_⟩
      have hji : j ≠ i := by
        rintro rfl
        rw [hx] at hj
        simp only [Option.some.injEq, Prod.mk.injEq] at hj
        exact hyx hj.1.symm
      rw [touch, Function.update_of_ne hji]
      exact hj

/-- The key that was in a taken cell is gone from the table. -/
theorem not_held_touch_fresh (hd : Distinct t) {x : K} {s : Nat} (hx : t i = some (x, s))
    (hxk : x ≠ k) : ¬ Held (touch t i k now) x := by
  rintro ⟨j, r, hj⟩
  obtain ⟨hji, htj⟩ := touch_eq_of_ne hxk hj
  exact hji (hd j i x _ _ htj hx)

/-- A touch that loses no key of this instant. -/
theorem pending_cons {ks keys : List K} (hdone : ∀ x ∈ keys, x ∈ k :: ks ∨ Stamped now t x)
    (hk : Stamped now t' k) (hkeep : ∀ x, Stamped now t x → Stamped now t' x) :
    ∀ x ∈ keys, x ∈ ks ∨ Stamped now t' x := by
  intro x hx
  rcases hdone x hx with hmem | hst
  · rcases List.mem_cons.mp hmem with rfl | hmem
    · exact Or.inr hk
    · exact Or.inl hmem
  · exact Or.inr (hkeep x hst)

/-- A touch that loses the key of its cell, which does not matter if that is touched again. -/
theorem pending_cons_fresh {ks keys : List K} {x : K} (hd : Distinct t)
    (hx : t i = some (x, now)) (hxk : x ≠ k)
    (hdone : ∀ y ∈ keys, y ∈ k :: ks ∨ Stamped now t y) (hlost : x ∈ keys → x ∈ ks) :
    ∀ y ∈ keys, y ∈ ks ∨ Stamped now (touch t i k now) y := by
  intro y hy
  by_cases hyks : y ∈ ks
  · exact Or.inl hyks
  · refine Or.inr ((stamped_touch_fresh hd hx hxk).mpr ?_)
    rcases hdone y hy with hmem | hst
    · exact Or.inl ((List.mem_cons.mp hmem).resolve_right hyks)
    · refine Or.inr ⟨?_, hst⟩
      rintro rfl
      exact hyks (hlost hy)

variable [DecidableEq K]

theorem need_cons_of_stamped {ks : List K} (hk : Stamped now t k) :
    need now t (k :: ks) = need now t ks := by
  unfold need
  rw [List.countP_cons_of_neg (by simp [hk])]

theorem need_cons_of_not_stamped {ks : List K} (hk : ¬ Stamped now t k) :
    need now t (k :: ks) = need now t ks + 1 := by
  unfold need
  rw [List.countP_cons_of_pos (by simp [hk])]

theorem need_congr {ks : List K} (h : ∀ x ∈ ks, (Stamped now t x ↔ Stamped now t' x)) :
    need now t ks = need now t' ks := by
  unfold need
  refine List.countP_congr fun x hx => ?_
  simp [h x hx]

/-- Keys that are not in the table need a cell each. -/
theorem need_eq_length {ks : List K} (h : ∀ x ∈ ks, ¬ Held t x) : need now t ks = ks.length := by
  unfold need
  rw [List.countP_eq_length]
  intro x hx
  rw [decide_eq_true_eq]
  rintro ⟨j, hj⟩
  exact h x hx ⟨j, now, hj⟩

/-- Taking an available cell leaves the other keys as they are. -/
theorem need_touch {ks : List K} (hi : ¬ Fresh now t i) (hk : k ∉ ks) :
    need now (touch t i k now) ks = need now t ks := by
  refine need_congr fun x hx => ?_
  rw [stamped_touch_iff hi, or_iff_right]
  rintro rfl
  exact hk hx

/-- A key of this instant that loses its cell needs one again. -/
theorem need_touch_lost {ks : List K} {x : K} (hd : Distinct t) (hx : t i = some (x, now))
    (hxk : x ≠ k) (hxks : x ∈ ks) : need now (touch t i k now) ks ≠ 0 := by
  refine Nat.ne_of_gt (List.countP_pos_iff.mpr ⟨x, hxks, ?_⟩)
  rw [decide_eq_true_eq, stamped_touch_fresh hd hx hxk]
  simp [hxk]

/-- Taking its cell leaves the other keys as they are. -/
theorem need_touch_fresh {ks : List K} {x : K} (hd : Distinct t) (hx : t i = some (x, now))
    (hxk : x ≠ k) (hk : k ∉ ks) (hxks : x ∉ ks) :
    need now (touch t i k now) ks = need now t ks := by
  refine need_congr fun y hy => ?_
  rw [stamped_touch_fresh hd hx hxk]
  have hyk : y ≠ k := fun h => hk (h ▸ hy)
  have hyx : y ≠ x := fun h => hxks (h ▸ hy)
  simp [hyk, hyx]

/-- If there are enough cells, the keys use up exactly as many as they need. -/
theorem Touches.avail {ks : List K} (h : Touches now t ks t') (hd : Distinct t)
    (hpast : Past now t) (hnodup : ks.Nodup) (hfit : need now t ks ≤ avail now t) :
    avail now t' + need now t ks = avail now t := by
  induction h with
  | nil t => rfl
  | @cons t t' k ks i pick rest ih =>
      rw [List.nodup_cons] at hnodup
      by_cases hk : Stamped now t k
      · rw [need_cons_of_stamped hk] at hfit ⊢
        rw [touch_of_stamped hd pick hk] at ih
        exact ih hd hpast hnodup.2 hfit
      · rw [need_cons_of_not_stamped hk] at hfit ⊢
        have hi := pick.not_fresh hpast hk (by omega)
        have havail := avail_touch (k := k) hi
        have hneed := need_touch hi hnodup.1
        have := ih (hd.touch pick) (hpast.touch (Nat.le_refl _)) hnodup.2 (by omega)
        omega

variable [NeZero n]

/--
The table has room for `ks` without losing any of `keys`: the available cells suffice,
or a single one is missing and the first cell of the table holds a key of this instant
that may be given up.
-/
def Room (now : Nat) (t : Table n K) (ks keys : List K) : Prop :=
  need now t ks ≤ avail now t ∨
    (need now t ks = avail now t + 1 ∧ ∃ x, t 0 = some (x, now) ∧ x ∉ keys)

theorem room_cons_of_stamped {ks keys : List K} (hk : Stamped now t k) :
    Room now t (k :: ks) keys ↔ Room now t ks keys := by
  unfold Room
  rw [need_cons_of_stamped hk]

/-- While cells are available, a touch changes nothing about the room for the rest. -/
theorem room_touch {ks keys : List K} (hi : ¬ Fresh now t i) (hk : ¬ Stamped now t k)
    (hks : k ∉ ks) (hkeys : k ∈ keys) :
    Room now (touch t i k now) ks keys ↔ Room now t (k :: ks) keys := by
  have hcell : (∃ x, touch t i k now 0 = some (x, now) ∧ x ∉ keys) ↔
      ∃ x, t 0 = some (x, now) ∧ x ∉ keys := by
    by_cases h0 : 0 = i
    · refine ⟨?_, ?_⟩
      · rintro ⟨x, hx, hnx⟩
        rw [h0, touch, Function.update_self] at hx
        simp only [Option.some.injEq, Prod.mk.injEq, and_true] at hx
        exact absurd (hx ▸ hkeys) hnx
      · rintro ⟨x, hx, -⟩
        exact absurd (fresh_of_eq (h0 ▸ hx)) hi
    · rw [touch, Function.update_of_ne h0]
  have havail := avail_touch (k := k) hi
  unfold Room
  rw [need_touch hi hks, need_cons_of_not_stamped hk, hcell]
  refine or_congr ?_ (and_congr ?_ Iff.rfl)
  · omega
  · omega

/-- With no cell left, there is room for one key only, and at the cost of the first cell. -/
theorem room_cons_full {ks keys : List K} {x : K} (havail : avail now t = 0)
    (hx : t 0 = some (x, now)) (hk : ¬ Stamped now t k) :
    Room now t (k :: ks) keys ↔ need now t ks = 0 ∧ x ∉ keys := by
  unfold Room
  rw [need_cons_of_not_stamped hk, havail]
  refine ⟨?_, ?_⟩
  · rintro (hle | ⟨heq, y, hy, hny⟩)
    · omega
    · rw [hx] at hy
      simp only [Option.some.injEq, Prod.mk.injEq, and_true] at hy
      exact ⟨by omega, hy ▸ hny⟩
  · rintro ⟨hneed, hnx⟩
    exact Or.inr ⟨by omega, x, hx, hnx⟩

/-- After that there is room for what needs no cell, and for nothing more. -/
theorem room_touch_full {ks keys : List K} {x : K} (havail : avail now t = 0)
    (hx : t 0 = some (x, now)) (hkeys : k ∈ keys) :
    Room now (touch t 0 k now) ks keys ↔ need now (touch t 0 k now) ks = 0 := by
  unfold Room
  rw [avail_touch_fresh (fresh_of_eq hx), havail]
  refine ⟨?_, fun h => Or.inl (by omega)⟩
  rintro (hle | ⟨-, y, hy, hny⟩)
  · omega
  · rw [touch, Function.update_self] at hy
    simp only [Option.some.injEq, Prod.mk.injEq, and_true] at hy
    exact absurd (hy ▸ hkeys) hny

/--
**Which keys are in the table in the end.**  `keys` are those to be touched and those
touched at `now` before; all of them are held in the end exactly when there is room.
-/
theorem held_iff {ks : List K} (h : Touches now t ks t') (hd : Distinct t)
    (hpast : Past now t) (hnodup : ks.Nodup) {keys : List K} (hsub : ∀ k ∈ ks, k ∈ keys)
    (hdone : ∀ k ∈ keys, k ∈ ks ∨ Stamped now t k) :
    (∀ k ∈ keys, Held t' k) ↔ Room now t ks keys := by
  induction h with
  | nil t =>
      refine ⟨fun _ => Or.inl (Nat.zero_le _), fun _ k hk => ?_⟩
      rcases hdone k hk with hmem | ⟨i, hi⟩
      · exact absurd hmem (by simp)
      · exact ⟨i, now, hi⟩
  | @cons t t' k ks i pick rest ih =>
      rw [List.nodup_cons] at hnodup
      have hkmem : k ∈ keys := hsub k (by simp)
      have hsub' : ∀ x ∈ ks, x ∈ keys := fun x hx => hsub x (List.mem_cons_of_mem _ hx)
      have ih := ih (hd.touch pick) (hpast.touch (Nat.le_refl _)) hnodup.2 hsub'
      by_cases hk : Stamped now t k
      · -- the key is there already: nothing happens
        rw [touch_of_stamped hd pick hk] at ih
        rw [room_cons_of_stamped hk]
        exact ih (pending_cons hdone hk fun _ hst => hst)
      rcases Nat.eq_zero_or_pos (Lru.avail now t) with hzero | hpos
      · -- no cell is left: the first one is taken, and the key in it is lost
        obtain rfl : i = 0 := pick.eq_zero hk hzero
        obtain ⟨x, hx⟩ := (fresh_of_avail_eq_zero hzero 0).eq
        have hxk : x ≠ k := by
          rintro rfl
          exact hk ⟨0, hx⟩
        have hpending := pending_cons_fresh hd hx hxk hdone
        rw [room_cons_full hzero hx hk]
        by_cases hxkeys : x ∈ keys
        · rw [iff_false_right (by simp [hxkeys])]
          by_cases hxks : x ∈ ks
          · -- its own touch is still to come, and will find no cell either
            rw [ih (hpending fun _ => hxks), room_touch_full hzero hx hkmem]
            exact need_touch_lost hd hx hxk hxks
          · intro hall
            exact rest.not_held hxks (not_held_touch_fresh hd hx hxk) (hall x hxkeys)
        · rw [ih (hpending fun h => absurd h hxkeys), room_touch_full hzero hx hkmem,
            need_touch_fresh hd hx hxk hnodup.1 fun h => hxkeys (hsub' x h)]
          simp [hxkeys]
      · -- an available cell is taken, and no key of the instant is lost
        have hi := pick.not_fresh hpast hk hpos
        rw [← room_touch hi hk hnodup.1 hkmem]
        exact ih (pending_cons hdone stamped_touch_self fun _ hst =>
          (stamped_touch_iff hi).mpr (Or.inr hst))

end Many

end Lru
