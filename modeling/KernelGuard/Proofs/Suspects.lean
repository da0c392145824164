/-
PCI discrepancies are reported once, in the second scan in a row that notes them.

Slots are searched, filled and cleared in an order that depends on all suspects at once.  What
a slot holds does not: as long as there is a free slot for every new suspect, the table is a
finite map from suspicions to marks, a scan visits the marks of the suspicions it notes, each
once, and drops the others.  The mark of a suspicion then is a function of the number of scans
in a row that noted it, and nobody else's.
-/
import KernelGuard.Model.PciScan
import KernelGuard.Lib.Slots
import KernelGuard.Lib.Sweep
import Mathlib.Data.Finset.Card
import Mathlib.Data.Finset.Dedup
import Mathlib.Data.List.Chain
import Mathlib.Tactic.SplitIfs

namespace KernelGuard

open Run Slots Sweep

/-! ### The table as a map

Slots are cells with keys, as in the library.  Noting a suspicion is then an update
of one key, and which slot it sits in does not matter.
-/

/-- What is suspected of which device. -/
structure Suspicion where
  addr : PciAddr
  kind : SuspectKind
  deriving DecidableEq

def SuspectNote.key (n : SuspectNote) : Suspicion := ⟨n.e.toPciAddr, n.kind⟩

/-- What the table keeps about a suspicion. -/
structure Mark where
  seen : UInt8
  reported : Bool
  touched : Bool
  deriving DecidableEq

def SuspectTable.cells (t : SuspectTable) (i : Fin kgMaxSuspect) : Option (Suspicion × Mark) :=
  if (t.susp i).seen = 0 then none
  else some ((t.susp i).note.key, ⟨(t.susp i).seen, (t.susp i).reported, t.touched i⟩)

/-- `seen` goes up to 255 and stays there. -/
def bump (seen : UInt8) : UInt8 := if seen < 255 then seen + 1 else seen

/-- What `kg_note_suspect` does to the mark of the suspicion it notes. -/
def visitMark (k : Suspicion) : Option Mark → List Suspicion × Option Mark
  | none => ([], some ⟨1, false, true⟩)
  | some m =>
      (if bump m.seen ≥ 2 ∧ !m.reported then [k] else [],
        some ⟨bump m.seen, m.reported || bump m.seen ≥ 2, true⟩)

theorem suspectIsFor_iff {s : KgSuspect} {n : SuspectNote} :
    s.isFor n = true ↔ s.seen ≠ 0 ∧ s.note.key = n.key := by
  simp only [KgSuspect.isFor, kgSameDev, SuspectNote.key, Bool.and_eq_true, decide_eq_true_eq,
    Suspicion.mk.injEq, ne_eq]
  constructor
  · intro h
    exact ⟨h.1.1, h.2, h.1.2⟩
  · intro h
    exact ⟨⟨h.1, h.2.2⟩, h.2.1⟩

theorem bump_ne_zero {x : UInt8} (hx : x ≠ 0) : bump x ≠ 0 := by
  have hpos : 0 < x.toNat := Nat.pos_of_ne_zero fun h => hx (UInt8.toNat_inj.mp h)
  unfold bump
  split_ifs with hlt
  · intro h0
    have hlt' := UInt8.lt_iff_toNat_lt.mp hlt
    have h0' := congrArg UInt8.toNat h0
    rw [UInt8.toNat_add, UInt8.toNat_one, UInt8.toNat_zero] at h0'
    rw [show (255 : UInt8).toNat = 255 from rfl] at hlt'
    omega
  · exact hx

/-- Rewriting a slot rewrites its cell. -/
theorem suspectCells_update (t : SuspectTable) (i : Fin kgMaxSuspect) (s : KgSuspect) (hs : s.seen ≠ 0) :
    SuspectTable.cells ⟨Function.update t.susp i s, Function.update t.touched i true⟩
      = Function.update t.cells i (some (s.note.key, ⟨s.seen, s.reported, true⟩)) := by
  funext j
  by_cases hj : j = i
  · subst hj
    simp [SuspectTable.cells, hs]
  · simp [SuspectTable.cells, Function.update_of_ne hj]

section Note

variable {t : SuspectTable} {g : Suspicion → Option Mark} (h : Represents t.cells g)

include h

theorem suspectSlot_some {n : SuspectNote} {i : Fin kgMaxSuspect} (hi : suspectSlot t n = some i) :
    (t.susp i).seen ≠ 0 ∧ (t.susp i).note.key = n.key ∧
      g n.key = some ⟨(t.susp i).seen, (t.susp i).reported, t.touched i⟩ := by
  unfold suspectSlot at hi
  have hfor := List.find?_some hi
  obtain ⟨hseen, hkey⟩ := suspectIsFor_iff.mp hfor
  refine ⟨hseen, hkey, h.get.mpr ⟨i, ?_⟩⟩
  unfold SuspectTable.cells
  rw [if_neg hseen, hkey]

theorem suspectSlot_none {n : SuspectNote} (hnone : suspectSlot t n = none) : g n.key = none := by
  rw [h.none_iff]
  intro i m hi
  have hfor := List.find?_eq_none.mp hnone i (List.mem_finRange i)
  refine hfor (suspectIsFor_iff.mpr ?_)
  unfold SuspectTable.cells at hi
  split_ifs at hi with hseen
  simp only [Option.some.injEq, Prod.mk.injEq] at hi
  exact ⟨hseen, hi.1⟩

omit h in
theorem freeSlot_some {i : Fin kgMaxSuspect} (hi : freeSlot t = some i) : t.cells i = none := by
  have hseen := List.find?_some hi
  unfold SuspectTable.cells
  rw [if_pos (by simpa using hseen)]

omit h in
theorem freeSlot_none (hnone : freeSlot t = none) (i : Fin kgMaxSuspect) : t.cells i ≠ none := by
  have hused := List.find?_eq_none.mp hnone i (List.mem_finRange i)
  unfold SuspectTable.cells
  rw [if_neg (by simpa using hused)]
  simp

/-- A suspicion that has a mark: it is bumped, and reported if that makes two. -/
theorem kgNoteSuspect_old {n : SuspectNote} (hold : g n.key ≠ none) :
    (kgNoteSuspect n t).1.map SuspectNote.key = (visitMark n.key (g n.key)).1 ∧
      Represents (kgNoteSuspect n t).2.cells
        (Function.update g n.key (visitMark n.key (g n.key)).2) := by
  cases hslot : suspectSlot t n with
  | none => exact absurd (suspectSlot_none h hslot) hold
  | some i =>
      obtain ⟨hseen, hkey, hget⟩ := suspectSlot_some h hslot
      have hcell : ∃ w, t.cells i = some (n.key, w) := by
        refine ⟨⟨(t.susp i).seen, (t.susp i).reported, t.touched i⟩, ?_⟩
        unfold SuspectTable.cells
        rw [if_neg hseen, hkey]
      have hbump := bump_ne_zero hseen
      have hput : ∀ r : Bool, Represents (SuspectTable.cells
          ⟨Function.update t.susp i ⟨(t.susp i).note, bump (t.susp i).seen, r⟩,
            Function.update t.touched i true⟩)
          (Function.update g n.key (some ⟨bump (t.susp i).seen, r, true⟩)) := by
        intro r
        rw [suspectCells_update t i _ hbump]
        show Represents (Function.update _ i (some ((t.susp i).note.key, _))) _
        rw [hkey]
        exact h.put (Or.inl hcell) _
      have hnote : kgNoteSuspect n t
          = if bump (t.susp i).seen ≥ 2 ∧ (!(t.susp i).reported) = true then
              ([(t.susp i).note], ⟨Function.update t.susp i
                ⟨(t.susp i).note, bump (t.susp i).seen, true⟩, Function.update t.touched i true⟩)
            else ([], ⟨Function.update t.susp i
                ⟨(t.susp i).note, bump (t.susp i).seen, (t.susp i).reported⟩,
              Function.update t.touched i true⟩) := by
        unfold kgNoteSuspect
        rw [hslot]
        rfl
      rw [hget, hnote]
      simp only [visitMark]
      by_cases hrep : bump (t.susp i).seen ≥ 2 ∧ (!(t.susp i).reported) = true
      · rw [if_pos hrep, if_pos hrep]
        refine ⟨by simp [hkey], ?_⟩
        rw [show ((t.susp i).reported || decide (bump (t.susp i).seen ≥ 2)) = true by simp [hrep.1]]
        exact hput true
      · rw [if_neg hrep, if_neg hrep]
        refine ⟨rfl, ?_⟩
        have hsame : ((t.susp i).reported || decide (bump (t.susp i).seen ≥ 2))
            = (t.susp i).reported := by
          cases hr : (t.susp i).reported with
          | true => rfl
          | false => simpa [hr] using hrep
        rw [hsame]
        exact hput _

/-- A suspicion that has none: it gets one if a slot is free, and is not reported. -/
theorem kgNoteSuspect_new {n : SuspectNote} (hnew : g n.key = none) :
    (kgNoteSuspect n t).1 = [] ∧
      ((∃ i, t.cells i = none) → Represents (kgNoteSuspect n t).2.cells
        (Function.update g n.key (visitMark n.key (g n.key)).2)) ∧
      ((∀ i, t.cells i ≠ none) → (kgNoteSuspect n t).2 = t) := by
  unfold kgNoteSuspect
  cases hslot : suspectSlot t n with
  | some i =>
      obtain ⟨-, -, hget⟩ := suspectSlot_some h hslot
      rw [hnew] at hget
      exact absurd hget (by simp)
  | none =>
      cases hfree : freeSlot t with
      | some i =>
          have hcell := freeSlot_some hfree
          refine ⟨rfl, fun _ => ?_, fun hfull => absurd hcell (hfull i)⟩
          show Represents (SuspectTable.cells ⟨Function.update t.susp i ⟨n, 1, false⟩,
            Function.update t.touched i true⟩) _
          rw [suspectCells_update t i ⟨n, 1, false⟩ (show (1 : UInt8) ≠ 0 by decide), hnew]
          exact h.put (Or.inr ⟨hcell, hnew⟩) _
      | none =>
          refine ⟨rfl, fun hex => ?_, fun _ => rfl⟩
          obtain ⟨i, hi⟩ := hex
          exact absurd hi (freeSlot_none hfree i)

end Note

/-! ### One scan

A scan notes each suspicion at most once.  The sweep of the library visits the marks
of a list of keys without repetitions, and the visits do not meet.
-/

/-- **With room for all, noting is a sweep over the marks.** -/
theorem loop_note_eq_sweep {S : Finset Suspicion} (hcard : S.card ≤ kgMaxSuspect) :
    ∀ (notes : List SuspectNote) (t : SuspectTable) (g : Suspicion → Option Mark),
      Represents t.cells g → (∀ k, g k ≠ none → k ∈ S) → (∀ n ∈ notes, n.key ∈ S) →
      (loop kgNoteSuspect notes t).1.map SuspectNote.key
          = (sweep visitMark (notes.map SuspectNote.key) g).1 ∧
        Represents (loop kgNoteSuspect notes t).2.cells
          (sweep visitMark (notes.map SuspectNote.key) g).2 := by
  intro notes
  induction notes with
  | nil => intro t g h _ _; exact ⟨rfl, h⟩
  | cons n rest ih =>
      intro t g h hS hnotes
      have hn : n.key ∈ S := hnotes n (by simp)
      have hstep : (kgNoteSuspect n t).1.map SuspectNote.key = (visitMark n.key (g n.key)).1 ∧
          Represents (kgNoteSuspect n t).2.cells
            (Function.update g n.key (visitMark n.key (g n.key)).2) := by
        by_cases hnew : g n.key = none
        · obtain ⟨hout, hfree, -⟩ := kgNoteSuspect_new h hnew
          refine ⟨?_, hfree (h.exists_free hS hcard hn hnew)⟩
          rw [hout, hnew]
          rfl
        · exact kgNoteSuspect_old h hnew
      have hS' : ∀ k, Function.update g n.key (visitMark n.key (g n.key)).2 k ≠ none → k ∈ S := by
        intro k hk
        by_cases hkn : k = n.key
        · rw [hkn]
          exact hn
        · rw [Function.update_of_ne hkn] at hk
          exact hS k hk
      obtain ⟨hout, hrep⟩ := ih _ _ hstep.2 hS' (fun m hm => hnotes m (List.mem_cons_of_mem _ hm))
      rw [loop_cons]
      refine ⟨?_, hrep⟩
      rw [List.map_append, hstep.1, hout]
      rfl

/-- Without marks nothing is reported, however full the table gets. -/
theorem loop_note_fresh :
    ∀ (notes : List SuspectNote) (t : SuspectTable) (g : Suspicion → Option Mark),
      Represents t.cells g → (notes.map SuspectNote.key).Nodup → (∀ n ∈ notes, g n.key = none) →
      (loop kgNoteSuspect notes t).1 = [] := by
  intro notes
  induction notes with
  | nil => intro t g _ _ _; rfl
  | cons n rest ih =>
      intro t g h hnodup hfresh
      rw [List.map_cons, List.nodup_cons] at hnodup
      obtain ⟨hout, hfree, hfull⟩ := kgNoteSuspect_new h (hfresh n (by simp))
      have hrest : (loop kgNoteSuspect rest (kgNoteSuspect n t).2).1 = [] := by
        by_cases hex : ∃ i, t.cells i = none
        · refine ih _ _ (hfree hex) hnodup.2 ?_
          intro m hm
          have hne : m.key ≠ n.key := by
            intro heq
            exact hnodup.1 (heq ▸ List.mem_map.mpr ⟨m, hm, rfl⟩)
          rw [Function.update_of_ne hne]
          exact hfresh m (List.mem_cons_of_mem _ hm)
        · rw [hfull (fun i hi => hex ⟨i, hi⟩)]
          exact ih t g h hnodup.2 (fun m hm => hfresh m (List.mem_cons_of_mem _ hm))
      rw [loop_cons, hout, hrest]
      rfl

/-- The end of a scan drops what was not touched. -/
def keepTouched (m : Mark) : Option Mark :=
  if m.touched then some { m with touched := false } else none

theorem clearUntouched_represents {t : SuspectTable} {g : Suspicion → Option Mark}
    (h : Represents t.cells g) :
    Represents (SuspectTable.cells ⟨clearUntouched t, fun _ => false⟩)
      fun k => (g k).bind keepTouched := by
  have hcells : SuspectTable.cells ⟨clearUntouched t, fun _ => false⟩
      = fun i => (t.cells i).bind fun p => (keepTouched p.2).map fun m => (p.1, m) := by
    funext i
    unfold SuspectTable.cells clearUntouched keepTouched
    by_cases hseen : (t.susp i).seen = 0
    · simp [hseen]
    · by_cases htouched : t.touched i = true
      · simp [hseen, htouched]
      · simp [hseen, htouched, KgSuspect.zero]
  rw [hcells]
  exact h.filterMap keepTouched

/-! ### Stretches

The number of scans in a row is not stored: the mark has a byte that stops at 255.
It is enough to tell the first, the second and the later ones apart.
-/

/-- How many scans in a row, up to the last, note the suspicion. -/
def streak (k : Suspicion) (scans : List (List SuspectNote)) : Nat :=
  (scans.reverse.takeWhile fun S => k ∈ S.map SuspectNote.key).length

theorem streak_snoc (k : Suspicion) (scans : List (List SuspectNote)) (S : List SuspectNote) :
    streak k (scans ++ [S]) = if k ∈ S.map SuspectNote.key then streak k scans + 1 else 0 := by
  unfold streak
  rw [List.reverse_append, List.reverse_singleton, List.singleton_append]
  split_ifs with hk
  · rw [List.takeWhile_cons_of_pos (by simpa using hk), List.length_cons]
  · rw [List.takeWhile_cons_of_neg (by simpa using hk), List.length_nil]

/-- The mark of a suspicion that has been noted `k` times in a row. -/
def markOf (k : Nat) : Option Mark :=
  if k = 0 then none else some ⟨UInt8.ofNat (min k 255), decide (2 ≤ k), false⟩

theorem bump_ofNat (k : Nat) :
    bump (UInt8.ofNat (min k 255)) = UInt8.ofNat (min (k + 1) 255) := by
  have hval : (UInt8.ofNat (min k 255)).toNat = min k 255 := by
    rw [UInt8.toNat_ofNat', Nat.mod_eq_of_lt (by omega)]
  unfold bump
  by_cases hlt : UInt8.ofNat (min k 255) < 255
  · rw [if_pos hlt]
    rw [UInt8.lt_iff_toNat_lt, hval, show (255 : UInt8).toNat = 255 from rfl] at hlt
    rw [← UInt8.toNat_inj, UInt8.toNat_add, hval, UInt8.toNat_ofNat', UInt8.toNat_one]
    omega
  · rw [if_neg hlt]
    rw [UInt8.lt_iff_toNat_lt, hval, show (255 : UInt8).toNat = 255 from rfl] at hlt
    rw [← UInt8.toNat_inj, hval, UInt8.toNat_ofNat']
    omega

/-- Noting it once more: it is reported the second time, and marked as noted `k + 1` times. -/
theorem visitMark_markOf (s : Suspicion) (k : Nat) :
    (visitMark s (markOf k)).1 = (if k = 1 then [s] else []) ∧
      ((visitMark s (markOf k)).2).bind keepTouched = markOf (k + 1) := by
  by_cases hk : k = 0
  · subst hk
    exact ⟨rfl, rfl⟩
  · have htwo : UInt8.ofNat (min (k + 1) 255) ≥ 2 := by
      rw [ge_iff_le, UInt8.le_iff_toNat_le, UInt8.toNat_ofNat',
        Nat.mod_eq_of_lt (by omega), show (2 : UInt8).toNat = 2 from rfl]
      omega
    unfold markOf
    rw [if_neg hk, if_neg (Nat.succ_ne_zero k)]
    simp only [visitMark, htwo, true_and, decide_true, Bool.or_true, keepTouched, if_true,
      Option.bind_some, bump_ofNat]
    constructor
    · by_cases hone : k = 1
      · simp [hone]
      · rw [if_neg hone, if_neg]
        simp
        omega
    · rw [show decide (2 ≤ k + 1) = true by simp; omega]

/-! ### Whole runs

Room is a matter of two scans in a row, since what the last scan did not note was
dropped at its end.  With room, the mark of a suspicion is a function of its streak;
the induction is over the scans.
-/

/-- The table after a sequence of scans, each given by the suspects it notes. -/
def suspRun (scans : List (List SuspectNote)) : Fin kgMaxSuspect → KgSuspect :=
  exec (fun susp notes => (noteAll notes susp).2) (fun _ => .zero) scans

/-- The suspects that a scan reports after those before it. -/
def reportsIn (before : List (List SuspectNote)) (S : List SuspectNote) : List Suspicion :=
  (noteAll S (suspRun before)).1.map SuspectNote.key

/-- The table says of every suspicion how often it was noted in a row. -/
def Marked (susp : Fin kgMaxSuspect → KgSuspect) (scans : List (List SuspectNote)) : Prop :=
  Represents (SuspectTable.cells ⟨susp, fun _ => false⟩) fun k => markOf (streak k scans)

theorem marked_nil : Marked (suspRun []) [] := by
  show Represents (SuspectTable.cells ⟨fun _ => .zero, fun _ => false⟩) fun _ => none
  exact Represents.empty

/-- The suspicions of two scans. -/
def together (A B : List SuspectNote) : Finset Suspicion := ((A ++ B).map SuspectNote.key).toFinset

theorem mem_together_left {A : List SuspectNote} (B : List SuspectNote) {k : Suspicion}
    (h : k ∈ A.map SuspectNote.key) : k ∈ together A B := by
  unfold together
  rw [List.mem_toFinset, List.map_append]
  exact List.mem_append_left _ h

theorem mem_together_right (A : List SuspectNote) {B : List SuspectNote} {k : Suspicion}
    (h : k ∈ B.map SuspectNote.key) : k ∈ together A B := by
  unfold together
  rw [List.mem_toFinset, List.map_append]
  exact List.mem_append_right _ h

/-- A visit reports nothing but what it visits. -/
theorem visitMark_names (k : Suspicion) (m : Option Mark) : ∀ b ∈ (visitMark k m).1, b = k := by
  intro b hb
  cases m with
  | none => simp [visitMark] at hb
  | some m =>
      simp only [visitMark] at hb
      split_ifs at hb
      · exact List.mem_singleton.mp hb
      · simp at hb

/-- **One scan** with room for its suspects beside those of the scan before. -/
theorem Marked.scan {susp : Fin kgMaxSuspect → KgSuspect} {scans : List (List SuspectNote)}
    (h : Marked susp scans) (last : List SuspectNote) {S : List SuspectNote}
    (hlast : ∀ k, streak k scans ≠ 0 → k ∈ last.map SuspectNote.key)
    (hroom : (together last S).card ≤ kgMaxSuspect) (hnodup : (S.map SuspectNote.key).Nodup) :
    Marked (noteAll S susp).2 (scans ++ [S]) ∧
      ∀ k, ((noteAll S susp).1.map SuspectNote.key).count k
        = if streak k (scans ++ [S]) = 2 then 1 else 0 := by
  have hS : ∀ k, markOf (streak k scans) ≠ none → k ∈ together last S := by
    intro k hk
    have hne : streak k scans ≠ 0 := by
      intro h0
      rw [h0] at hk
      exact hk rfl
    exact mem_together_left S (hlast k hne)
  have hnotes : ∀ n ∈ S, n.key ∈ together last S := fun n hn =>
    mem_together_right last (List.mem_map.mpr ⟨n, hn, rfl⟩)
  obtain ⟨hout, hrep⟩ := loop_note_eq_sweep hroom S _ _ h hS hnotes
  constructor
  · have hclear := clearUntouched_represents hrep
    have hmarks : (fun k => ((sweep visitMark (S.map SuspectNote.key)
        fun k => markOf (streak k scans)).2 k).bind keepTouched)
        = fun k => markOf (streak k (scans ++ [S])) := by
      funext k
      rw [sweep_snd visitMark hnodup, streak_snoc]
      split_ifs with hk
      · exact (visitMark_markOf k _).2
      · show (markOf (streak k scans)).bind keepTouched = none
        unfold markOf
        split_ifs <;> rfl
    rw [hmarks] at hclear
    exact hclear
  · intro k
    show ((loop kgNoteSuspect S ⟨susp, fun _ => false⟩).1.map SuspectNote.key).count k = _
    have hname : ∀ k m, ∀ b ∈ (visitMark k m).1, id b = k := visitMark_names
    have hcount : ∀ l : List Suspicion,
        l.count k = (l.filter fun b => decide (id b = k)).length := by
      intro l
      rw [List.count_eq_countP, List.countP_eq_length_filter]
      rfl
    rw [hout, streak_snoc, hcount, sweep_filter hname hnodup, (visitMark_markOf k _).1]
    by_cases hk : k ∈ S.map SuspectNote.key
    · rw [if_pos hk, if_pos hk]
      by_cases hone : streak k scans = 1
      · rw [if_pos hone, if_pos (by omega)]
        rfl
      · rw [if_neg hone, if_neg (by omega)]
        rfl
    · rw [if_neg hk, if_neg hk, if_neg (by omega)]
      rfl

/-- Two scans in a row leave room for each other's suspects. -/
def Roomy (A B : List SuspectNote) : Prop := (together A B).card ≤ kgMaxSuspect

theorem suspRun_snoc (scans : List (List SuspectNote)) (S : List SuspectNote) :
    suspRun (scans ++ [S]) = (noteAll S (suspRun scans)).2 := exec_snoc _ _ _ _

/-- What has a streak was noted by the last scan. -/
theorem streak_last {k : Suspicion} {scans : List (List SuspectNote)} {S : List SuspectNote}
    (h : streak k (scans ++ [S]) ≠ 0) : k ∈ S.map SuspectNote.key := by
  rw [streak_snoc] at h
  by_contra hk
  rw [if_neg hk] at h
  exact h rfl

/-- The first scan reports nothing, even if it notes more suspects than the table has slots. -/
theorem reportsIn_first {S : List SuspectNote} (hnodup : (S.map SuspectNote.key).Nodup) :
    reportsIn [] S = [] := by
  have hnone := loop_note_fresh S ⟨fun _ => .zero, fun _ => false⟩ _ marked_nil hnodup
    (fun n _ => rfl)
  show ((loop kgNoteSuspect S ⟨fun _ => .zero, fun _ => false⟩).1).map _ = []
  rw [hnone]
  rfl

/-- After the first scan the next one sees to it that there was room. -/
theorem together_self_le {A B : List SuspectNote} (h : Roomy A B) :
    (together [] A).card ≤ kgMaxSuspect := by
  refine Nat.le_trans (Finset.card_le_card ?_) h
  intro k hk
  unfold together at hk ⊢
  rw [List.mem_toFinset, List.map_append] at hk ⊢
  exact List.mem_append_left _ (by simpa using hk)

theorem isChain_snoc {scans : List (List SuspectNote)} {S : List SuspectNote}
    (h : (scans ++ [S]).IsChain Roomy) :
    scans.IsChain Roomy ∧ ∀ pre L, scans = pre ++ [L] → Roomy L S := by
  rw [List.isChain_append] at h
  refine ⟨h.1, ?_⟩
  intro pre L hlast
  exact h.2.2 L (by rw [hlast]; simp) S (by simp)

/-- As long as another scan comes, every scan before it had room. -/
theorem suspRun_marked {scans : List (List SuspectNote)} {S : List SuspectNote}
    (hnodup : ∀ A ∈ scans, (A.map SuspectNote.key).Nodup)
    (hroom : (scans ++ [S]).IsChain Roomy) : Marked (suspRun scans) scans := by
  induction scans using List.reverseRecOn generalizing S with
  | nil => exact marked_nil
  | append_singleton scans L ih =>
      obtain ⟨hchain, hnext⟩ := isChain_snoc hroom
      have hmarked := ih (fun A hA => hnodup A (by simp [hA])) hchain
      have hL : (L.map SuspectNote.key).Nodup := hnodup L (by simp)
      rw [suspRun_snoc]
      rcases List.eq_nil_or_concat scans with rfl | ⟨pre, P, rfl⟩
      · refine (hmarked.scan [] ?_ (together_self_le (hnext [] L rfl)) hL).1
        intro k hk
        exact absurd rfl hk
      · rw [List.concat_eq_append] at hmarked ⊢
        refine (hmarked.scan P (fun k hk => streak_last hk) ?_ hL).1
        exact (isChain_snoc hchain).2 pre P List.concat_eq_append

/-- **The law of the table**: a suspicion is reported by the second scan in a row that notes it. -/
theorem reportsIn_count {scans : List (List SuspectNote)} {S : List SuspectNote}
    (hnodup : ∀ A ∈ scans ++ [S], (A.map SuspectNote.key).Nodup)
    (hroom : (scans ++ [S]).IsChain Roomy) (k : Suspicion) :
    (reportsIn scans S).count k = if streak k (scans ++ [S]) = 2 then 1 else 0 := by
  have hS : (S.map SuspectNote.key).Nodup := hnodup S (by simp)
  have hmarked := suspRun_marked (fun A hA => hnodup A (by simp [hA])) hroom
  rcases List.eq_nil_or_concat scans with rfl | ⟨pre, L, rfl⟩
  · rw [reportsIn_first hS, streak_snoc, List.count_nil]
    by_cases hk : k ∈ S.map SuspectNote.key
    · rw [if_pos hk, if_neg (by simp [streak])]
    · rw [if_neg hk, if_neg (by omega)]
  · rw [List.concat_eq_append] at hmarked hroom ⊢
    exact (hmarked.scan L (fun k hk => streak_last hk) ((isChain_snoc hroom).2 pre L rfl) hS).2 k

/-- `mid` is a maximal stretch of consecutive scans that note the suspicion. -/
structure Stretch (k : Suspicion) (pre mid post : List (List SuspectNote)) : Prop where
  notes : ∀ S ∈ mid, k ∈ S.map SuspectNote.key
  before : ∀ L ∈ pre.getLast?, k ∉ L.map SuspectNote.key
  after : ∀ N ∈ post.head?, k ∉ N.map SuspectNote.key

theorem streak_append {k : Suspicion} (pre mid : List (List SuspectNote))
    (hmid : ∀ S ∈ mid, k ∈ S.map SuspectNote.key) :
    streak k (pre ++ mid) = streak k pre + mid.length := by
  induction mid using List.reverseRecOn with
  | nil => rw [List.append_nil, List.length_nil, Nat.add_zero]
  | append_singleton mid S ih =>
      rw [← List.append_assoc, streak_snoc, if_pos (hmid S (by simp)),
        ih (fun A hA => hmid A (by simp [hA])), List.length_append, List.length_singleton]
      omega

theorem Stretch.streak_before {k : Suspicion} {pre mid post : List (List SuspectNote)}
    (h : Stretch k pre mid post) : streak k pre = 0 := by
  rcases List.eq_nil_or_concat pre with rfl | ⟨pre, L, rfl⟩
  · rfl
  · rw [List.concat_eq_append] at h ⊢
    rw [streak_snoc, if_neg (h.before L (by simp))]

/--
**Discrepancies are debounced and reported once.**  For every sequence of scans in which any
two consecutive ones have at most `KG_MAX_SUSPECT` suspects together: a scan that does not note
a suspicion does not report it, and of a maximal stretch of scans that do, the second reports
it, once, and no other.
-/
theorem discrepancies_debounced (scans : List (List SuspectNote))
    (hnodup : ∀ S ∈ scans, (S.map SuspectNote.key).Nodup) (hroom : scans.IsChain Roomy)
    (k : Suspicion) :
    (∀ pre S post, scans = pre ++ S :: post → k ∉ S.map SuspectNote.key →
      (reportsIn pre S).count k = 0) ∧
    (∀ pre mid post, scans = pre ++ mid ++ post → Stretch k pre mid post →
      ∀ before S after, mid = before ++ S :: after →
        (reportsIn (pre ++ before) S).count k = if before.length = 1 then 1 else 0) := by
  have hlaw : ∀ pre S post, scans = pre ++ S :: post →
      (reportsIn pre S).count k = if streak k (pre ++ [S]) = 2 then 1 else 0 := by
    intro pre S post hsplit
    have happ : scans = (pre ++ [S]) ++ post := by rw [hsplit]; simp
    rw [happ] at hnodup hroom
    exact reportsIn_count (fun A hA => hnodup A (List.mem_append_left _ hA))
      hroom.left_of_append k
  constructor
  · intro pre S post hsplit hk
    rw [hlaw pre S post hsplit, streak_snoc, if_neg hk, if_neg (by omega)]
  · intro pre mid post hsplit hstretch before S after hmid
    have hin : ∀ A ∈ before ++ [S], k ∈ A.map SuspectNote.key := by
      intro A hA
      refine hstretch.notes A ?_
      rw [hmid]
      simp only [List.mem_append, List.mem_cons, List.not_mem_nil, or_false] at hA ⊢
      exact hA.imp id Or.inl
    have hstreak : streak k (pre ++ before ++ [S]) = before.length + 1 := by
      rw [List.append_assoc, streak_append pre _ hin, hstretch.streak_before]
      simp
    rw [hlaw (pre ++ before) S (after ++ post) (by rw [hsplit, hmid]; simp), hstreak]
    by_cases hone : before.length = 1
    · rw [if_pos hone, if_pos (by omega)]
    · rw [if_neg hone, if_neg (by omega)]

instance : DecidableRel Roomy := fun A B => inferInstanceAs (Decidable ((together A B).card ≤ _))

/-- A device the OS does not know. -/
def hiddenNote : SuspectNote := ⟨⟨⟨0, 3, 0, 0⟩, 0x8086, 0x1234, 0, 0, 0, true⟩, .hiddenFromOs⟩

/-- Noted in three scans in a row, it is reported in the second of them. -/
theorem discrepancies_debounced_three :
    (reportsIn [[], [hiddenNote]] [hiddenNote]).count hiddenNote.key = 1 ∧
      (reportsIn [[], [hiddenNote], [hiddenNote]] [hiddenNote]).count hiddenNote.key = 0 := by
  have h := discrepancies_debounced [[], [hiddenNote], [hiddenNote], [hiddenNote]] (by decide)
    (by decide) hiddenNote.key
  have hstretch : Stretch hiddenNote.key [[]] [[hiddenNote], [hiddenNote], [hiddenNote]] [] :=
    ⟨by decide, by decide, by decide⟩
  exact ⟨h.2 [[]] _ [] rfl hstretch [[hiddenNote]] [hiddenNote] [[hiddenNote]] rfl,
    h.2 [[]] _ [] rfl hstretch [[hiddenNote], [hiddenNote]] [hiddenNote] [] rfl⟩

end KernelGuard
