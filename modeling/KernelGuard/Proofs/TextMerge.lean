/-
Patch sites that change together.

Sites that `kg_match_site` finds one by one (`IsPatchSite`) are changed all at once.  Runs
join neighbouring sites, and only the first site of a run may be matched from a byte before
the one that differs: a call or a jump that keeps its opcode and gets a new displacement is
recognised there and nowhere else in the run.  `merged_benign_iff` says that this is the only
thing that goes wrong, with one coincidence: the changed part of the displacement may
happen to be a patch site itself, when with the sites behind it it becomes a NOP5.
-/
import KernelGuard.Proofs.TextSite
import KernelGuard.Proofs.TextPass
import Mathlib.Data.List.Pairwise

namespace KernelGuard

open Clusters

/-! ### What a match reads

A match looks at four bytes on either side at the most.  Where the texts agree on
these, it gives the same answer, and so what a site is does not depend on the sites
further away.
-/

section Congr

variable {m : CodeMap} {r : TextRegion} {c : Nat → UInt8} {rs re rs' re' : Nat}
  {newb newb' : Nat → UInt8} {pos : Nat}

/-- The old and the new text agree on the bytes a match at `pos` can read. -/
structure SameNear (r : TextRegion) (c : Nat → UInt8) (new new' : Nat → UInt8) (pos : Nat) :
    Prop where
  old : ∀ q, pos ≤ q + 4 → q < pos + 5 → c q = r.copy q
  new : ∀ q, pos ≤ q + 4 → q < pos + 5 → new' q = new q

theorem bytes5_congr {t t' : Nat → UInt8} {s : Nat} (h : ∀ k < 5, t' (s + k) = t (s + k)) :
    kgBytes5 t' s = kgBytes5 t s := by
  rw [kgBytes5, kgBytes5]
  rw [show t' s = t s from h 0 (by omega), h 1 (by omega), h 2 (by omega), h 3 (by omega),
    h 4 (by omega)]

theorem matchShort_congr
    (h : SameNear r c (kgNewAt r rs re newb) (kgNewAt { r with copy := c } rs' re' newb') pos) :
    kgMatchShort { r with copy := c } rs' re' newb' pos = kgMatchShort r rs re newb pos := by
  rw [kgMatchShort, kgMatchShort, h.new pos (by omega) (by omega),
    h.new (pos + 1) (by omega) (by omega)]
  simp only [h.old pos (by omega) (by omega), h.old (pos + 1) (by omega) (by omega)]
  rfl

theorem matchWindow_congr {delta : Nat}
    (h : SameNear r c (kgNewAt r rs re newb) (kgNewAt { r with copy := c } rs' re' newb') pos)
    (hle : delta ≤ pos) (hmax : delta ≤ 4) :
    kgMatchWindow m { r with copy := c } rs' re' newb' pos delta =
      kgMatchWindow m r rs re newb pos delta := by
  have hold : kgBytes5 c (pos - delta) = kgBytes5 r.copy (pos - delta) :=
    bytes5_congr fun k hk => h.old _ (by omega) (by omega)
  have hnew : kgBytes5 (kgNewAt { r with copy := c } rs' re' newb') (pos - delta) =
      kgBytes5 (kgNewAt r rs re newb) (pos - delta) :=
    bytes5_congr fun k hk => h.new _ (by omega) (by omega)
  rw [kgMatchWindow, kgMatchWindow, hnew]
  simp only [hold]
  rfl

theorem matchLoop_congr {deltas : List Nat}
    (h : SameNear r c (kgNewAt r rs re newb) (kgNewAt { r with copy := c } rs' re' newb') pos)
    (hmax : ∀ delta ∈ deltas, delta ≤ 4) :
    kgMatchLoop m { r with copy := c } rs' re' newb' pos deltas =
      kgMatchLoop m r rs re newb pos deltas := by
  induction deltas with
  | nil => rfl
  | cons delta rest ih =>
      rw [kgMatchLoop, kgMatchLoop]
      by_cases hle : delta > pos
      · rw [if_pos hle, if_pos hle]
      · rw [if_neg hle, if_neg hle,
          matchWindow_congr h (by omega) (hmax delta List.mem_cons_self),
          ih fun delta' hmem => hmax delta' (List.mem_cons_of_mem _ hmem)]

theorem matchSite_congr {first : Bool}
    (h : SameNear r c (kgNewAt r rs re newb) (kgNewAt { r with copy := c } rs' re' newb') pos) :
    kgMatchSite m { r with copy := c } rs' re' newb' pos first =
      kgMatchSite m r rs re newb pos first := by
  rw [kgMatchSite, kgMatchSite, matchShort_congr h, matchLoop_congr h]
  intro delta hmem
  exact (mem_deltas.mp hmem).1

/-- A copy that differs only well before the run gives the same verdict. -/
theorem classify_congr (hold : ∀ q, rs ≤ q + 4 → c q = r.copy q) :
    kgClassify m { r with copy := c } rs re newb = kgClassify m r rs re newb := by
  have hloop : ∀ fuel pos first out, rs ≤ pos →
      kgClassifyLoop m { r with copy := c } rs re newb fuel pos first out =
        kgClassifyLoop m r rs re newb fuel pos first out := by
    intro fuel
    induction fuel with
    | zero =>
        intro pos first out _
        rfl
    | succ fuel ih =>
        intro pos first out hpos
        have hnear : SameNear r c (kgNewAt r rs re newb)
            (kgNewAt { r with copy := c } rs re newb) pos := by
          refine ⟨fun q hq _ => hold q (by omega), fun q hq _ => ?_⟩
          rw [kgNewAt, kgNewAt]
          simp only [hold q (by omega)]
        rw [kgClassifyLoop, kgClassifyLoop, matchSite_congr hnear]
        simp only [hold pos (by omega)]
        have hno : kgNoSite { r with copy := c } rs re newb pos out =
            kgNoSite r rs re newb pos out := by
          rw [kgNoSite, kgNoSite]
          simp only [hold rs (by omega)]
          rfl
        split_ifs
        · exact ih _ _ _ (by omega)
        · cases hsite : kgMatchSite m r rs re newb pos first with
          | none => exact hno
          | some seg =>
              refine ih _ _ _ ?_
              split_ifs <;> omega
        · rfl
  exact hloop _ _ _ _ (Nat.le_refl rs)

end Congr

/-! ### Sites and their first changed byte

A scan comes to a site at its first changed byte, which is not its first byte if the
opcode stays.  The sites that keep their first byte are the shifted ones, and they
are calls and jumps.
-/

/-- New contents for the window `[lo, lo + len)`; `new` is a function of the offset. -/
structure SiteEdit where
  lo : Nat
  len : Nat
  new : Nat → UInt8

namespace SiteEdit

def hi (e : SiteEdit) : Nat := e.lo + e.len

def Has (e : SiteEdit) (p : Nat) : Prop := e.lo ≤ p ∧ p < e.hi

instance (e : SiteEdit) (p : Nat) : Decidable (e.Has p) := inferInstanceAs (Decidable (_ ∧ _))

/-- The first byte of the site that the edit changes. -/
structure First (r : TextRegion) (e : SiteEdit) (p : Nat) : Prop where
  has : e.Has p
  changed : e.new p ≠ r.copy p
  before : ∀ q, e.lo ≤ q → q < p → e.new q = r.copy q

/-- The matcher's answer at `p` when only this site changes. -/
def matchAlone (m : CodeMap) (r : TextRegion) (e : SiteEdit) (p : Nat) : Option KgSeg :=
  kgMatchSite m r e.lo e.hi (fun k => e.new (e.lo + k)) p true

end SiteEdit

/-- A patch site: a window of 2 or 5 bytes, which the matcher finds when it alone changes. -/
structure IsPatchSite (m : CodeMap) (r : TextRegion) (e : SiteEdit) : Prop where
  len : e.len = 2 ∨ e.len = 5
  inside : e.hi ≤ r.size
  found : ∀ p, e.First r p → e.matchAlone m r p = some ⟨e.hi, .benign, 0, r.addr e.lo⟩

/-- The text with all the edits made. -/
def edited (r : TextRegion) (edits : List SiteEdit) (p : Nat) : UInt8 :=
  match edits.find? fun e => e.Has p with
  | some e => e.new p
  | none => r.copy p

section Sites

variable {m : CodeMap} {r : TextRegion}

theorem exists_first {e : SiteEdit} {q : Nat} (hq : e.Has q) (hd : e.new q ≠ r.copy q) :
    ∃ p, e.First r p ∧ p ≤ q := by
  induction q using Nat.strongRecOn with
  | _ q ih =>
      by_cases hall : ∀ k, e.lo ≤ k → k < q → e.new k = r.copy k
      · exact ⟨q, ⟨hq, hd, hall⟩, Nat.le_refl q⟩
      · rw [not_forall] at hall
        obtain ⟨k, hk⟩ := hall
        rw [Classical.not_imp, Classical.not_imp] at hk
        obtain ⟨hlo, hlt, hne⟩ := hk
        have hhi := hq.2
        obtain ⟨p, hp, hle⟩ := ih k hlt ⟨hlo, by omega⟩ hne
        exact ⟨p, hp, by omega⟩

/-- With a site alone, the new text is the site's inside the window and the old one outside. -/
theorem newAt_alone (e : SiteEdit) (q : Nat) :
    kgNewAt r e.lo e.hi (fun k => e.new (e.lo + k)) q = if e.Has q then e.new q else r.copy q := by
  show (if e.Has q then e.new (e.lo + (q - e.lo)) else r.copy q) = _
  by_cases h : e.Has q
  · rw [if_pos h, if_pos h, Nat.add_sub_cancel' h.1]
  · rw [if_neg h, if_neg h]

/-- Addresses of offsets that are close together differ. -/
theorem addr_inj {a b : Nat} (hle : a ≤ b) (hnear : b < a + 5) (h : r.addr b = r.addr a) :
    a = b := by
  rw [TextRegion.addr, TextRegion.addr, UInt64.add_right_inj] at h
  have hmod := congrArg UInt64.toNat h
  rw [UInt64.toNat_ofNat', UInt64.toNat_ofNat'] at hmod
  have hsub : (b - a) % 2 ^ 64 = 0 := Nat.sub_mod_eq_zero_of_mod_eq hmod
  rw [Nat.mod_eq_of_lt (by omega)] at hsub
  omega

/-- The bytes a patch site can put in place of its first one when it changes it. -/
def Opener (b : UInt8) : Prop := b = 0xeb ∨ b = 0x66 ∨ b = 0x0f ∨ b = 0xe8 ∨ b = 0xe9

instance (b : UInt8) : Decidable (Opener b) := inferInstanceAs (Decidable (_ ∨ _))

/--
How a site is matched: from its first byte, as a short or a long patch; or behind it, as a
call or a jump that keeps its opcode, where nothing else matches before.
-/
inductive Matched (m : CodeMap) (r : TextRegion) (e : SiteEdit) (p : Nat) : Prop
  | short (hlen : e.len = 2) (hp : p = e.lo) (h : ShortPatch r.copy e.new p)
  | long (hlen : e.len = 5) (hp : p = e.lo) (hno : ¬ ShortPatch r.copy e.new p)
      (h : LongPatch m r e.new e.lo)
  | shifted (hlen : e.len = 5) (hp : e.lo < p) (h : LongPatch m r e.new e.lo)
      (hop : r.copy e.lo = 0xe8 ∨ r.copy e.lo = 0xe9)
      (hno : ¬ (p + 2 ≤ r.size ∧
        ShortPatch r.copy (kgNewAt r e.lo e.hi (fun k => e.new (e.lo + k))) p))
      (hnone : ∀ delta, delta < p - e.lo →
        kgMatchWindow m r e.lo e.hi (fun k => e.new (e.lo + k)) p delta = none)

theorem newAt_inside {e : SiteEdit} {q : Nat} (h : e.Has q) :
    kgNewAt r e.lo e.hi (fun k => e.new (e.lo + k)) q = e.new q := by
  rw [newAt_alone, if_pos h]

/-- A long patch depends on the five bytes of its window. -/
theorem LongPatch.congr {new new' : Nat → UInt8} {s : Nat} (h : LongPatch m r new s)
    (heq : ∀ k < 5, new' (s + k) = new (s + k)) : LongPatch m r new' s := by
  have hbytes : kgBytes5 new' s = kgBytes5 new s := bytes5_congr heq
  refine ⟨h.before, ?_, ?_⟩
  · rw [hbytes]
    exact h.after
  · rw [hbytes]
    exact h.target

theorem IsPatchSite.matched {e : SiteEdit} (he : IsPatchSite m r e) {p : Nat}
    (hp : e.First r p) : Matched m r e p := by
  have hfound := he.found p hp
  have hlo := hp.has.1
  have hhi : p < e.lo + e.len := hp.has.2
  have hhi' : e.hi = e.lo + e.len := rfl
  have hlen := he.len
  rw [SiteEdit.matchAlone, kgMatchSite] at hfound
  by_cases hshort : p + 2 ≤ r.size ∧
      ShortPatch r.copy (kgNewAt r e.lo e.hi (fun k => e.new (e.lo + k))) p
  · -- the two bytes from `p` on, and so the whole site
    rw [matchShort_some hshort.1 hshort.2] at hfound
    simp only [Option.some.injEq, KgSeg.mk.injEq, true_and] at hfound
    have hstart : e.lo = p := addr_inj hlo (by omega) hfound.2
    have hpatch := hshort.2
    rw [ShortPatch, newAt_inside hp.has, newAt_inside ⟨by omega, by omega⟩] at hpatch
    exact .short (by omega) hstart.symm hpatch
  · rw [matchShort_none hshort] at hfound
    obtain ⟨delta, hmem, hle, hwin, hearlier⟩ := matchLoop_some (deltas_sorted true) hfound
    have hmax := (mem_deltas.mp hmem).1
    obtain ⟨hin, hlong, hseg⟩ := matchWindow_benign hwin rfl
    simp only [KgSeg.mk.injEq, true_and] at hseg
    -- a window that ended with the site but started elsewhere would be three bytes off
    have hstart : p - delta = e.lo := by
      rcases Nat.le_total (p - delta) e.lo with hbelow | habove
      · exact addr_inj hbelow (by omega) hseg.2
      · exact (addr_inj habove (by omega) hseg.2.symm).symm
    have hlen5 : e.len = 5 := by omega
    have hpatch : LongPatch m r e.new e.lo := by
      rw [hstart] at hlong
      refine hlong.congr fun k hk => ?_
      rw [newAt_inside ⟨by omega, by omega⟩]
    by_cases hzero : p = e.lo
    · refine .long hlen5 hzero ?_ hpatch
      intro hno
      refine hshort ⟨by omega, ?_⟩
      rw [ShortPatch, newAt_inside hp.has, newAt_inside ⟨by omega, by omega⟩]
      exact hno
    · refine .shifted hlen5 (by omega) hpatch ?_ hshort ?_
      · by_contra hop
        have hsame : kgNewAt r e.lo e.hi (fun k => e.new (e.lo + k)) (p - delta) =
            r.copy (p - delta) := by
          rw [newAt_inside ⟨by omega, by omega⟩, hp.before _ (by omega) (by omega)]
        have hnone := (matchWindow_before (m := m) (by omega : delta ≠ 0) hsame).mpr (by
          rw [hstart]
          exact fun h => hop h.2)
        rw [hnone] at hwin
        cases hwin
      · intro delta' hlt
        exact hearlier delta' (mem_deltas_first (by omega)) (by omega)

end Sites

/-! ### All sites at once

The sites are disjoint, so the text inside of each is its own.  What a match at one
site can see of the others are the bytes behind it, and the bytes in front of it
where another site ends.
-/

/-- Disjoint patch sites. -/
structure PatchSites (m : CodeMap) (r : TextRegion) (edits : List SiteEdit) : Prop where
  site : ∀ e ∈ edits, IsPatchSite m r e
  disjoint : edits.Pairwise fun a b => a.hi ≤ b.lo ∨ b.hi ≤ a.lo

section Merged

variable {m : CodeMap} {r : TextRegion} {edits : List SiteEdit} {e : SiteEdit} {p : Nat}

theorem PatchSites.apart (h : PatchSites m r edits) {a b : SiteEdit} (ha : a ∈ edits)
    (hb : b ∈ edits) (hne : a ≠ b) : a.hi ≤ b.lo ∨ b.hi ≤ a.lo := by
  have : Std.Symm fun a b : SiteEdit => a.hi ≤ b.lo ∨ b.hi ≤ a.lo := ⟨fun _ _ => Or.symm⟩
  exact h.disjoint.forall ha hb hne

/-- A position lies in one site only. -/
theorem PatchSites.same (h : PatchSites m r edits) {a b : SiteEdit} (ha : a ∈ edits)
    (hb : b ∈ edits) {q : Nat} (haq : a.Has q) (hbq : b.Has q) : a = b := by
  by_contra hne
  have hapart := h.apart ha hb hne
  have ha1 := haq.1
  have ha2 := haq.2
  have hb1 := hbq.1
  have hb2 := hbq.2
  omega

theorem edited_inside (h : PatchSites m r edits) (he : e ∈ edits) {q : Nat} (hq : e.Has q) :
    edited r edits q = e.new q := by
  rw [edited]
  cases hfind : edits.find? fun e => e.Has q with
  | none =>
      have hno := List.find?_eq_none.mp hfind e he
      exact absurd hq (by simpa using hno)
  | some a =>
      have hmem := List.mem_of_find?_eq_some hfind
      have haq : a.Has q := by simpa using List.find?_some hfind
      rw [h.same hmem he haq hq]

theorem edited_outside {q : Nat} (hq : ∀ e ∈ edits, ¬ e.Has q) :
    edited r edits q = r.copy q := by
  rw [edited]
  have hnone : (edits.find? fun e => e.Has q) = none := by
    rw [List.find?_eq_none]
    intro e he
    simpa using hq e he
  rw [hnone]

/-- A changed byte belongs to a site, whose first changed byte is not behind it. -/
theorem site_of_changed (h : PatchSites m r edits) {q : Nat} (hq : edited r edits q ≠ r.copy q) :
    ∃ e ∈ edits, e.Has q ∧ ∃ p, e.First r p ∧ p ≤ q := by
  by_cases hout : ∀ e ∈ edits, ¬ e.Has q
  · exact absurd (edited_outside hout) hq
  · rw [not_forall] at hout
    obtain ⟨e, hno⟩ := hout
    rw [Classical.not_imp, not_not] at hno
    rw [edited_inside h hno.1 hno.2] at hq
    exact ⟨e, hno.1, hno.2, exists_first hno.2 hq⟩

theorem edited_end (h : PatchSites m r edits) {q : Nat} (hq : r.size ≤ q) :
    edited r edits q = r.copy q := by
  refine edited_outside fun e he hhas => ?_
  have hin := (h.site e he).inside
  have := hhas.2
  omega

theorem newAt_whole (h : PatchSites m r edits) (q : Nat) :
    kgNewAt r 0 r.size (edited r edits) q = edited r edits q := by
  rw [kgNewAt]
  by_cases hq : 0 ≤ q ∧ q < r.size
  · rw [if_pos hq, Nat.sub_zero]
  · rw [if_neg hq, edited_end h (by omega)]

theorem newAt_whole_eq (h : PatchSites m r edits) :
    kgNewAt r 0 r.size (edited r edits) = edited r edits := funext (newAt_whole h)

/-- What a changed site shows at its start, and when that is the 66 of a NOP2. -/
theorem site_start (h : PatchSites m r edits) (he : e ∈ edits) (hp : e.First r p) :
    Opener (edited r edits e.lo) ∧
      (edited r edits e.lo = 0x66 → edited r edits (e.lo + 1) ≠ 0x66 →
        p = e.lo ∧ e.len = 2 ∧ r.copy e.lo = 0xeb) := by
  have hhi : e.hi = e.lo + e.len := rfl
  have hlen := (h.site e he).len
  have hstart : edited r edits e.lo = e.new e.lo := edited_inside h he ⟨Nat.le_refl _, by omega⟩
  have hnext : edited r edits (e.lo + 1) = e.new (e.lo + 1) :=
    edited_inside h he ⟨by omega, by omega⟩
  rw [hstart, hnext]
  cases (h.site e he).matched hp with
  | short hlen hp h =>
      subst hp
      rcases h with ⟨-, -, hnew⟩ | ⟨hnew, -, hold⟩
      · refine ⟨.inl hnew, fun h66 => ?_⟩
        rw [hnew] at h66
        exact absurd h66 (by decide)
      · exact ⟨.inr (.inl hnew), fun _ _ => ⟨rfl, hlen, hold⟩⟩
  | long hlen hp hno h =>
      rcases h.after with (hnop | hnop) | hcall | hjmp
      · simp only [kgBytes5, List.cons.injEq] at hnop
        refine ⟨.inr (.inr (.inl hnop.1)), fun h66 => ?_⟩
        rw [hnop.1] at h66
        exact absurd h66 (by decide)
      · simp only [kgBytes5, List.cons.injEq] at hnop
        exact ⟨.inr (.inl hnop.1), fun _ h66 => absurd hnop.2.1 h66⟩
      · have hcall : e.new e.lo = 0xe8 := hcall
        refine ⟨.inr (.inr (.inr (.inl hcall))), fun h66 => ?_⟩
        rw [hcall] at h66
        exact absurd h66 (by decide)
      · have hjmp : e.new e.lo = 0xe9 := hjmp
        refine ⟨.inr (.inr (.inr (.inr hjmp))), fun h66 => ?_⟩
        rw [hjmp] at h66
        exact absurd h66 (by decide)
  | shifted hlen hlt h hop hno hnone =>
      have hsame : e.new e.lo = r.copy e.lo := hp.before _ (Nat.le_refl _) hlt
      rw [hsame]
      rcases hop with hop | hop
      · refine ⟨.inr (.inr (.inr (.inl hop))), fun h66 => ?_⟩
        rw [hop] at h66
        exact absurd h66 (by decide)
      · refine ⟨.inr (.inr (.inr (.inr hop))), fun h66 => ?_⟩
        rw [hop] at h66
        exact absurd h66 (by decide)

/--
Five bytes with the start of a site among the last four are no NOP5, XOR5 or RET5, except
the NOP5 that holds two NOP2.
-/
theorem form_with_opener {text : Nat → UInt8} {x : Nat} (hgt : p < x) (hlt : x < p + 5)
    (hopen : Opener (text x)) :
    kgForm5 (kgBytes5 text p) = .other ∨ text p = 0xe8 ∨ text p = 0xe9 ∨
      (kgBytes5 text p = [0x66, 0x66, 0x90, 0x66, 0x90] ∧
        text x = 0x66 ∧ text (x + 1) ≠ 0x66 ∧ x + 2 ≤ p + 5) := by
  have hx : x = p + 1 ∨ x = p + 2 ∨ x = p + 3 ∨ x = p + 4 := by omega
  have hno : ∀ {a b c d f : UInt8}, kgBytes5 text p = [a, b, c, d, f] →
      ¬ Opener b → ¬ Opener c → ¬ Opener d → ¬ Opener f → False := by
    intro a b c d f hbytes hb hc hd hf
    simp only [kgBytes5, List.cons.injEq, and_true] at hbytes
    obtain ⟨-, h1, h2, h3, h4⟩ := hbytes
    rcases hx with rfl | rfl | rfl | rfl
    · exact hb (h1 ▸ hopen)
    · exact hc (h2 ▸ hopen)
    · exact hd (h3 ▸ hopen)
    · exact hf (h4 ▸ hopen)
  rw [kgForm5]
  split_ifs with hnop hcall hjmp hxor hret
  · rcases hnop with hnop | hnop
    · exact (hno hnop (by decide) (by decide) (by decide) (by decide)).elim
    · right; right; right
      refine ⟨hnop, ?_⟩
      simp only [kgBytes5, List.cons.injEq, and_true] at hnop
      obtain ⟨-, h1, h2, h3, h4⟩ := hnop
      rcases hx with rfl | rfl | rfl | rfl
      · rw [h1, h2]
        exact ⟨rfl, by decide, by omega⟩
      · rw [h2] at hopen
        exact absurd hopen (by decide)
      · rw [h3, h4]
        exact ⟨rfl, by decide, by omega⟩
      · rw [h4] at hopen
        exact absurd hopen (by decide)
  · exact .inr (.inl hcall)
  · exact .inr (.inr (.inl hjmp))
  · exact (hno hxor (by decide) (by decide) (by decide) (by decide)).elim
  · exact (hno hret (by decide) (by decide) (by decide) (by decide)).elim
  · exact .inl rfl

/--
The coincidence: the changed part of a displacement starts with a branch opcode, and from
there on the text becomes the NOP5 that holds two NOP2.
-/
def Coincidence (r : TextRegion) (text : Nat → UInt8) (p : Nat) : Prop :=
  p + 5 ≤ r.size ∧ (r.copy p = 0xe8 ∨ r.copy p = 0xe9) ∧
    kgBytes5 text p = [0x66, 0x66, 0x90, 0x66, 0x90]

/-- Inside the site, and behind it where nothing changes, the text is that of the site alone. -/
theorem edited_eq_alone (h : PatchSites m r edits) (he : e ∈ edits) {q : Nat}
    (hq : e.Has q ∨ edited r edits q = r.copy q) :
    edited r edits q = kgNewAt r e.lo e.hi (fun k => e.new (e.lo + k)) q := by
  rw [newAt_alone]
  by_cases hhas : e.Has q
  · rw [if_pos hhas, edited_inside h he hhas]
  · rw [if_neg hhas]
    exact hq.resolve_left hhas

/-- A byte behind the site that changes belongs to a site that starts behind it. -/
theorem site_behind (h : PatchSites m r edits) (he : e ∈ edits) {q : Nat} (hlo : e.lo ≤ q)
    (hne : edited r edits q ≠ kgNewAt r e.lo e.hi (fun k => e.new (e.lo + k)) q) :
    ∃ a ∈ edits, e.hi ≤ a.lo ∧ a.Has q ∧ ∃ x, a.First r x := by
  have hout : ¬ e.Has q := fun hhas => hne (edited_eq_alone h he (.inl hhas))
  have hchanged : edited r edits q ≠ r.copy q := fun hsame =>
    hne (edited_eq_alone h he (.inr hsame))
  obtain ⟨a, ha, haq, x, hx, -⟩ := site_of_changed h hchanged
  have haq2 := haq.2
  have hge : e.hi ≤ q := by
    by_contra hlt
    exact hout ⟨hlo, by omega⟩
  have hapart := h.apart ha he (fun heq => hout (heq ▸ haq))
  exact ⟨a, ha, by omega, haq, x, hx⟩

/-- A shifted site is no short patch either, whatever follows it. -/
theorem shifted_no_short (h : PatchSites m r edits) (he : e ∈ edits) (hp : e.First r p)
    (hlt : e.lo < p) : ¬ (p + 2 ≤ r.size ∧ ShortPatch r.copy (edited r edits) p) := by
  cases (h.site e he).matched hp with
  | short _ hstart _ => omega
  | long _ hstart _ _ => omega
  | shifted hlen _ _ _ hno _ =>
      rintro ⟨hin, hshort⟩
      have hhead := edited_eq_alone h he (.inl hp.has)
      rw [ShortPatch, hhead] at hshort
      by_cases hnext : edited r edits (p + 1) =
          kgNewAt r e.lo e.hi (fun k => e.new (e.lo + k)) (p + 1)
      · rw [hnext] at hshort
        exact hno ⟨hin, hshort⟩
      · rcases hshort with hnop | ⟨-, h90, -⟩
        · exact hno ⟨hin, .inl hnop⟩
        · -- the next byte is the start of a site, and no site starts with 90
          obtain ⟨a, ha, hbehind, haq, x, hx⟩ := site_behind h he (by omega) hnext
          have hstart : a.lo = p + 1 := by
            have := haq.1
            have := hp.has.2
            omega
          have hopen := (site_start h ha hx).1
          rw [hstart, h90] at hopen
          exact absurd hopen (by decide)

/-- The window from the first changed byte of a shifted site on, without the coincidence. -/
theorem shifted_window_none (h : PatchSites m r edits) (he : e ∈ edits) (hp : e.First r p)
    (hlt : e.lo < p) (hno : ¬ Coincidence r (edited r edits) p) :
    kgMatchWindow m r 0 r.size (edited r edits) p 0 = none := by
  by_cases hin : p + 5 ≤ r.size
  · cases (h.site e he).matched hp with
    | short _ hstart _ => omega
    | long _ hstart _ _ => omega
    | shifted hlen _ _ _ _ hnone =>
        have halone := hnone 0 (by omega)
        rw [matchWindow_at hin, judge_none_iff] at halone
        rw [matchWindow_at hin, newAt_whole_eq h, judge_none_iff]
        have hhead : edited r edits p = kgNewAt r e.lo e.hi (fun k => e.new (e.lo + k)) p :=
          edited_eq_alone h he (.inl hp.has)
        by_cases hsame : ∀ k < 5, edited r edits (p + k) =
            kgNewAt r e.lo e.hi (fun k => e.new (e.lo + k)) (p + k)
        · rw [bytes5_congr hsame]
          exact halone
        · rw [not_forall] at hsame
          obtain ⟨k, hk⟩ := hsame
          rw [Classical.not_imp] at hk
          obtain ⟨a, ha, hbehind, haq, x, hx⟩ := site_behind h he (by omega) hk.2
          have hgt : p < a.lo := Nat.lt_of_lt_of_le hp.has.2 hbehind
          have hend : a.lo < p + 5 := by
            have := haq.1
            omega
          obtain ⟨hopen, hnop2⟩ := site_start h ha hx
          rcases form_with_opener hgt hend hopen with hother | hcall | hjmp | ⟨hnop, h66, h90, -⟩
          · rw [hother]
            exact ⟨.inr rfl, fun h => nomatch h.2.1⟩
          · have hfa : kgForm5 (kgBytes5 (kgNewAt r e.lo e.hi (fun k => e.new (e.lo + k))) p) =
                .call := form_call.mpr (hhead.symm.trans hcall)
            have hfn : kgForm5 (kgBytes5 (edited r edits) p) = .call := form_call.mpr hcall
            rw [hfa] at halone
            rw [hfn]
            exact ⟨.inl (halone.1.resolve_right nofun), fun h => nomatch h.2.1⟩
          · have hfa : kgForm5 (kgBytes5 (kgNewAt r e.lo e.hi (fun k => e.new (e.lo + k))) p) =
                .jmp := form_jmp.mpr (hhead.symm.trans hjmp)
            rw [hfa] at halone
            exact absurd ⟨halone.1.resolve_right nofun, rfl, rfl⟩ halone.2
          · -- a short jump that becomes a NOP2 stands behind, so the old bytes are a branch
            have heb := (hnop2 h66 h90).2.2
            have hfn : kgForm5 (kgBytes5 (edited r edits) p) = .nop5 := form_nop5.mpr (.inr hnop)
            rw [hfn]
            refine ⟨.inl ?_, fun h => nomatch h.2.1⟩
            have hopen' : Opener (r.copy a.lo) := .inl heb
            rcases form_with_opener hgt hend hopen' with hother | hcall | hjmp | ⟨-, h66', -⟩
            · exact hother
            · exact absurd ⟨hin, .inl hcall, hnop⟩ hno
            · exact absurd ⟨hin, .inr hjmp, hnop⟩ hno
            · rw [heb] at h66'
              exact absurd h66' (by decide)
  · rw [kgMatchWindow, Nat.sub_zero, if_pos (by omega)]

theorem coincidence_window (h : PatchSites m r edits)
    (hc : Coincidence r (edited r edits) p) :
    kgMatchWindow m r 0 r.size (edited r edits) p 0 = some ⟨p + 5, .benign, 0, r.addr p⟩ := by
  obtain ⟨hin, hop, hnop⟩ := hc
  refine matchWindow_long hin ?_ (fun h => absurd rfl h)
  rw [newAt_whole_eq h, Nat.sub_zero]
  refine ⟨.inr hop, .inl (.inr hnop), ?_⟩
  intro hbranch
  rw [hnop] at hbranch
  exact absurd hbranch (by simp [CallRel32, JmpRel32])

/-! ### The match at the first changed byte of a site

A site that changes its first byte is matched from there, whatever is around it.  A
shifted one would have to be matched from its opcode, in front of the byte at hand,
and only at the head of a run may a match begin there.
-/

theorem shortPatch_edited (h : PatchSites m r edits) (he : e ∈ edits) (hp : e.Has p)
    (hnext : e.Has (p + 1)) :
    ShortPatch r.copy (edited r edits) p ↔ ShortPatch r.copy e.new p := by
  rw [ShortPatch, ShortPatch, edited_inside h he hp, edited_inside h he hnext]

theorem longPatch_edited (h : PatchSites m r edits) (he : e ∈ edits) (hlen : e.len = 5)
    (hlong : LongPatch m r e.new e.lo) : LongPatch m r (edited r edits) e.lo := by
  refine hlong.congr fun k hk => edited_inside h he ⟨by omega, ?_⟩
  rw [SiteEdit.hi]
  omega

/-- A site that changes its first byte is matched as it is alone. -/
theorem match_unshifted (h : PatchSites m r edits) (he : e ∈ edits) (hp : e.First r p)
    (hstart : p = e.lo) (first : Bool) :
    kgMatchSite m r 0 r.size (edited r edits) p first =
      some ⟨e.hi, .benign, 0, r.addr e.lo⟩ := by
  have hin := (h.site e he).inside
  have hhi : e.hi = e.lo + e.len := rfl
  rw [kgMatchSite]
  cases (h.site e he).matched hp with
  | short hlen _ hshort =>
      have hpatch := (shortPatch_edited h he hp.has ⟨by omega, by omega⟩).mpr hshort
      rw [← newAt_whole_eq h] at hpatch
      rw [matchShort_some (by omega) hpatch, hstart, hhi, hlen]
  | long hlen _ hno hlong =>
      have hnone : ¬ (p + 2 ≤ r.size ∧
          ShortPatch r.copy (kgNewAt r 0 r.size (edited r edits)) p) := by
        rw [newAt_whole_eq h, shortPatch_edited h he hp.has ⟨by omega, by omega⟩]
        exact fun hshort => hno hshort.2
      have hlong' : LongPatch m r (kgNewAt r 0 r.size (edited r edits)) (p - 0) := by
        rw [newAt_whole_eq h, Nat.sub_zero, hstart]
        exact longPatch_edited h he hlen hlong
      have hwin := matchWindow_long (by omega) hlong' (fun h => absurd rfl h)
      rw [matchShort_none hnone, matchLoop_eq_some (deltas_sorted first)
        (mem_deltas.mpr ⟨Nat.zero_le 4, fun _ => rfl⟩) (Nat.zero_le p) hwin
        (fun _ _ hless => absurd hless (Nat.not_lt_zero _)), Nat.sub_zero, hstart, hhi, hlen]
  | shifted _ hlt _ _ _ _ => omega

/-- With the coincidence, the match is that of the five bytes from the change on. -/
theorem match_coincidence (h : PatchSites m r edits) (he : e ∈ edits) (hp : e.First r p)
    (hlt : e.lo < p) (hc : Coincidence r (edited r edits) p) (first : Bool) :
    kgMatchSite m r 0 r.size (edited r edits) p first = some ⟨p + 5, .benign, 0, r.addr p⟩ := by
  have hno := shifted_no_short h he hp hlt
  rw [← newAt_whole_eq h] at hno
  rw [kgMatchSite, matchShort_none hno]
  exact matchLoop_eq_some (deltas_sorted first) (mem_deltas.mpr ⟨Nat.zero_le 4, fun _ => rfl⟩)
    (Nat.zero_le p) (coincidence_window h hc) (fun _ _ hless => absurd hless (Nat.not_lt_zero _))

/-- At the head of a run the opcode before the change is found. -/
theorem match_shifted_first (h : PatchSites m r edits) (he : e ∈ edits) (hp : e.First r p)
    (hlt : e.lo < p) (hno : ¬ Coincidence r (edited r edits) p) :
    kgMatchSite m r 0 r.size (edited r edits) p true =
      some ⟨e.hi, .benign, 0, r.addr e.lo⟩ := by
  have hin := (h.site e he).inside
  have hhi : e.hi = e.lo + e.len := rfl
  have hend := hp.has.2
  have hshort := shifted_no_short h he hp hlt
  rw [← newAt_whole_eq h] at hshort
  rw [kgMatchSite, matchShort_none hshort]
  cases (h.site e he).matched hp with
  | short _ hstart _ => omega
  | long _ hstart _ _ => omega
  | shifted hlen _ hlong hop _ hnone =>
      -- before the change the site is as it was
      have hsame : ∀ delta, delta ≠ 0 → delta ≤ p - e.lo →
          kgNewAt r 0 r.size (edited r edits) (p - delta) = r.copy (p - delta) := by
        intro delta hdelta hle
        rw [newAt_whole h, edited_inside h he ⟨by omega, by omega⟩]
        exact hp.before _ (by omega) (by omega)
      have hsub : p - (p - e.lo) = e.lo := by omega
      have hlong' : LongPatch m r (kgNewAt r 0 r.size (edited r edits)) (p - (p - e.lo)) := by
        rw [newAt_whole_eq h, hsub]
        exact longPatch_edited h he hlen hlong
      have hwin := matchWindow_long (by omega) hlong' (fun hdelta => by
        refine ⟨hsame _ hdelta (Nat.le_refl _), ?_⟩
        rw [hsub]
        exact hop)
      rw [hsub] at hwin
      rw [matchLoop_eq_some (deltas_sorted true)
        (mem_deltas_first (by omega : p - e.lo ≤ 4)) (by omega) hwin, hhi, hlen]
      intro delta hmem hless
      by_cases hzero : delta = 0
      · subst hzero
        exact shifted_window_none h he hp hlt hno
      · have halone : kgNewAt r e.lo e.hi (fun k => e.new (e.lo + k)) (p - delta) =
            r.copy (p - delta) := by
          rw [newAt_inside ⟨by omega, by omega⟩]
          exact hp.before _ (by omega) (by omega)
        have hbranch := (matchWindow_before hzero halone).mp (hnone delta hless)
        exact (matchWindow_before hzero (hsame delta hzero (by omega))).mpr hbranch

/-- Behind another site of the run it is not. -/
theorem match_shifted_later (h : PatchSites m r edits) (he : e ∈ edits) (hp : e.First r p)
    (hlt : e.lo < p) (hno : ¬ Coincidence r (edited r edits) p) :
    kgMatchSite m r 0 r.size (edited r edits) p false = none := by
  have hshort := shifted_no_short h he hp hlt
  rw [← newAt_whole_eq h] at hshort
  rw [kgMatchSite, matchShort_none hshort, matchLoop_none_iff (deltas_sorted false)]
  intro delta hmem _
  rw [(mem_deltas.mp hmem).2 rfl]
  exact shifted_window_none h he hp hlt hno

/--
A benign match at the first changed byte of a site: it takes the whole site, and of the
sites behind it only whole ones that change their first byte.
-/
structure Takes (r : TextRegion) (edits : List SiteEdit) (e : SiteEdit) (p stop : Nat) : Prop where
  lt : p < stop
  whole : e.hi ≤ stop
  others : ∀ a ∈ edits, ∀ x, a.First r x → p < x → x < stop → x = a.lo ∧ a.hi ≤ stop

theorem takes_site (h : PatchSites m r edits) (he : e ∈ edits) (hp : e.First r p) :
    Takes r edits e p e.hi := by
  refine ⟨hp.has.2, Nat.le_refl _, ?_⟩
  intro a ha x hx hgt hlt
  -- a byte between is the site's own, and the site's first changed byte is `p`
  have hlo := hp.has.1
  obtain rfl := h.same ha he hx.has ⟨by omega, hlt⟩
  exact absurd (hx.before p hlo hgt) hp.changed

theorem takes_coincidence (h : PatchSites m r edits) (he : e ∈ edits) (hp : e.First r p)
    (hlt : e.lo < p) (hc : Coincidence r (edited r edits) p) : Takes r edits e p (p + 5) := by
  have hhi : e.hi = e.lo + e.len := rfl
  have hlen := (h.site e he).len
  have hhas := hp.has
  refine ⟨by omega, by omega, ?_⟩
  intro a ha x hx hgt hxlt
  have hne : a ≠ e := by
    rintro rfl
    exact absurd (hx.before p hhas.1 hgt) hp.changed
  have hxlo := hx.has.1
  have hxhi := hx.has.2
  have hhas1 := hhas.1
  have hhas2 := hhas.2
  have hapart := h.apart ha he hne
  have hagt : p < a.lo := by omega
  obtain ⟨hopen, hnop2⟩ := site_start h ha hx
  rcases form_with_opener hagt (by omega) hopen with hother | hcall | hjmp | ⟨-, h66, h90, hroom⟩
  · rw [form_nop5.mpr (.inr hc.2.2)] at hother
    cases hother
  · have hhead := hc.2.2
    simp only [kgBytes5, List.cons.injEq] at hhead
    rw [hhead.1] at hcall
    exact absurd hcall (by decide)
  · have hhead := hc.2.2
    simp only [kgBytes5, List.cons.injEq] at hhead
    rw [hhead.1] at hjmp
    exact absurd hjmp (by decide)
  · obtain ⟨hstart, hlen2, -⟩ := hnop2 h66 h90
    refine ⟨hstart, ?_⟩
    rw [SiteEdit.hi, hlen2]
    exact hroom

end Merged

end KernelGuard
