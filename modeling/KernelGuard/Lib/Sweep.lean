/-
Sweeps over a table.

A sweep visits entries of a table one after another; each visit reads and rewrites its own
entry only, and may report something.  If no entry is visited twice, the visits do not see each
other: what a sweep reports, and what it leaves, can be read off the table it found
(`sweep_fst`, `sweep_snd`, `sweep_filter`).
-/
import Mathlib.Logic.Function.Basic
import Mathlib.Data.List.Nodup

namespace Sweep

variable {κ τ β : Type} [DecidableEq κ]

def sweep (visit : κ → τ → List β × τ) : List κ → (κ → τ) → List β × (κ → τ)
  | [], t => ([], t)
  | k :: rest, t =>
      let (out, v) := visit k (t k)
      let (outs, t) := sweep visit rest (Function.update t k v)
      (out ++ outs, t)

/-- What is left of an entry: the visit it got, if it got one. -/
theorem sweep_snd (visit : κ → τ → List β × τ) {ks : List κ} (hnodup : ks.Nodup) (t : κ → τ)
    (k : κ) : (sweep visit ks t).2 k = if k ∈ ks then (visit k (t k)).2 else t k := by
  induction ks generalizing t with
  | nil => simp [sweep]
  | cons j rest ih =>
      obtain ⟨hj, hrest⟩ := List.nodup_cons.mp hnodup
      show (sweep visit rest (Function.update t j _)).2 k = _
      rw [ih hrest]
      by_cases hk : k = j
      · subst hk
        rw [if_neg hj, Function.update_self, if_pos List.mem_cons_self]
      · rw [Function.update_of_ne hk]
        simp only [List.mem_cons, hk, false_or]

/-- What is reported: one visit after another, each of the entry as the sweep found it. -/
theorem sweep_fst (visit : κ → τ → List β × τ) {ks : List κ} (hnodup : ks.Nodup) (t : κ → τ) :
    (sweep visit ks t).1 = ks.flatMap fun k => (visit k (t k)).1 := by
  induction ks generalizing t with
  | nil => rfl
  | cons j rest ih =>
      obtain ⟨hj, hrest⟩ := List.nodup_cons.mp hnodup
      show (visit j (t j)).1 ++ (sweep visit rest (Function.update t j _)).1 = _
      rw [ih hrest, List.flatMap_cons]
      congr 1
      refine List.flatMap_congr ?_
      intro k hk
      have hne : k ≠ j := by
        intro heq
        exact hj (heq ▸ hk)
      rw [Function.update_of_ne hne]

/-- Where every report names its entry, those about an entry are the ones its visit made. -/
theorem sweep_filter {visit : κ → τ → List β × τ} {name : β → κ}
    (hname : ∀ k v, ∀ b ∈ (visit k v).1, name b = k) {ks : List κ} (hnodup : ks.Nodup) (t : κ → τ)
    (k : κ) :
    (sweep visit ks t).1.filter (fun b => decide (name b = k))
      = if k ∈ ks then (visit k (t k)).1 else [] := by
  induction ks generalizing t with
  | nil => rfl
  | cons j rest ih =>
      obtain ⟨hj, hrest⟩ := List.nodup_cons.mp hnodup
      show ((visit j (t j)).1 ++ (sweep visit rest (Function.update t j _)).1).filter _ = _
      rw [List.filter_append, ih hrest]
      by_cases hk : k = j
      · subst hk
        rw [if_neg hj, if_pos List.mem_cons_self, List.append_nil]
        exact List.filter_eq_self.mpr (fun b hb => decide_eq_true (hname k _ b hb))
      · rw [Function.update_of_ne hk, List.filter_eq_nil_iff.mpr, List.nil_append]
        · simp only [List.mem_cons, hk, false_or]
        · intro b hb
          rw [decide_eq_true_eq, hname j _ b hb]
          exact fun heq => hk heq.symm

theorem mem_sweep_fst {visit : κ → τ → List β × τ} {ks : List κ} (hnodup : ks.Nodup) {t : κ → τ}
    {b : β} : b ∈ (sweep visit ks t).1 ↔ ∃ k ∈ ks, b ∈ (visit k (t k)).1 := by
  rw [sweep_fst visit hnodup, List.mem_flatMap]

end Sweep
