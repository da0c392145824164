/-
Loops that may be left by an exception.

A loop whose body first reads something, which may raise, and then updates its state, which may
not, is a reading of the whole list followed by an ordinary fold (`foldlM_read`).  What is read
is then spoken of as a list, and the fold has no exceptions in it.
-/
import Mathlib.Data.List.Forall2
import Mathlib.Control.Basic

namespace Loops

variable {ε α β γ : Type}

section

variable {m : Type → Type} [Monad m] [LawfulMonad m]

/-- Read everything, then fold. -/
theorem foldlM_read (read : α → m γ) (update : β → γ → β) (b : β) (l : List α) :
    l.foldlM (fun b a => update b <$> read a) b =
      (fun cs => cs.foldl update b) <$> l.mapM read := by
  induction l generalizing b with
  | nil => simp
  | cons a rest ih =>
      simp only [List.foldlM_cons, List.mapM_cons, map_bind, bind_map_left, map_pure, ih]
      apply bind_congr
      intro c
      rw [map_eq_pure_bind]
      rfl

end

theorem bind_eq_ok {x : Except ε α} {f : α → Except ε β} {b : β} :
    (x >>= f) = .ok b ↔ ∃ a, x = .ok a ∧ f a = .ok b := by
  cases x with
  | error e => exact ⟨nofun, fun ⟨a, ha, _⟩ => absurd ha nofun⟩
  | ok a => exact ⟨fun h => ⟨a, rfl, h⟩, fun ⟨a', ha, hf⟩ => by rwa [Except.ok.inj ha]⟩

theorem map_eq_ok {x : Except ε α} {f : α → β} {b : β} :
    f <$> x = .ok b ↔ ∃ a, x = .ok a ∧ f a = b := by
  cases x with
  | error e => exact ⟨nofun, fun ⟨a, ha, _⟩ => absurd ha nofun⟩
  | ok a =>
      refine ⟨fun h => ⟨a, rfl, Except.ok.inj h⟩, fun ⟨a', ha, hf⟩ => ?_⟩
      rw [Except.ok.inj ha]
      exact congrArg Except.ok hf

theorem mapM_eq_ok {f : α → Except ε β} {l : List α} {r : List β} :
    l.mapM f = .ok r ↔ List.Forall₂ (fun a b => f a = .ok b) l r := by
  induction l generalizing r with
  | nil =>
      rw [List.mapM_nil, List.forall₂_nil_left_iff]
      exact ⟨fun h => (Except.ok.inj h).symm, fun h => by rw [h]; rfl⟩
  | cons a rest ih =>
      rw [List.mapM_cons, bind_eq_ok, List.forall₂_cons_left_iff]
      constructor
      · rintro ⟨b, hb, h⟩
        obtain ⟨bs, hbs, hr⟩ := bind_eq_ok.mp h
        exact ⟨b, bs, hb, ih.mp hbs, (Except.ok.inj hr).symm⟩
      · rintro ⟨b, bs, hb, hbs, rfl⟩
        exact ⟨b, hb, bind_eq_ok.mpr ⟨bs, ih.mpr hbs, rfl⟩⟩

/-- What was read from some element of the list. -/
theorem mem_of_mapM {f : α → Except ε β} {l : List α} {r : List β} (h : l.mapM f = .ok r)
    {b : β} : b ∈ r ↔ ∃ a ∈ l, f a = .ok b := by
  rw [mapM_eq_ok] at h
  induction h with
  | nil => simp
  | @cons a b' l' r' hab _ ih =>
      rw [List.mem_cons, ih]
      constructor
      · rintro (rfl | ⟨a', ha', hf⟩)
        · exact ⟨a, List.mem_cons_self, hab⟩
        · exact ⟨a', List.mem_cons_of_mem a ha', hf⟩
      · rintro ⟨a', ha', hf⟩
        rcases List.mem_cons.mp ha' with rfl | hin
        · rw [hab] at hf
          exact .inl (Except.ok.inj hf).symm
        · exact .inr ⟨a', hin, hf⟩

/-- Every element of a list that was read was read. -/
theorem ok_of_mapM {f : α → Except ε β} {l : List α} {r : List β} (h : l.mapM f = .ok r) {a : α}
    (ha : a ∈ l) : ∃ b, f a = .ok b := by
  rw [mapM_eq_ok] at h
  obtain ⟨i, hi, rfl⟩ := List.getElem_of_mem ha
  exact ⟨_, h.get hi (h.length_eq ▸ hi)⟩

end Loops
