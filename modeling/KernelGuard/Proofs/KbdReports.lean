/-
The reports about keyboard filters on Windows, and where the stub sends requests.

All of it is bookkeeping over the run, in three invariants.

`ReportInv` compares the reports with what is remembered, and needs to know where the walk is, since
with enforcement a device is reported one step before it is recorded.  That alone bounds the reports
from above: what is remembered was reported once, and a second report means a full table.  It would
hold of a walk that reports nothing, too.

`JudgedInv` is the bound from below, and says that nothing else is reported.  It goes over the
devices the walk has come to, whatever it made of them; a turn that keeps silent about an
unauthorized device found it remembered, so it leans on `ReportInv`.

`ToldInv` compares the table with the calls of `NeutralizeKbdFilterDriver`: the last call about a
device is what the stub goes by.
-/
import KernelGuard.Proofs.KbdNeutralize

namespace KernelGuard

variable {w : KbdObjects}

/-! ### Reports -/

/-- The report of a device that is not authorised. -/
def KbdEvent.reports (dev : Nat) : KbdEvent → Bool
  | .unauthorized d _ _ => d = dev
  | _ => false

def KbdEvent.isReport : KbdEvent → Bool
  | .unauthorized _ _ _ => true
  | _ => false

/-- The devices that are not reported again. -/
def KbdState.remembered (w : KbdObjects) (s : KbdState) : List Nat :=
  if w.enforcing then s.filters.map (·.unauthorizedDev) else s.reported

def maxRemembered : Nat := 16

structure ReportInv (w : KbdObjects) (n : UInt32) (out : List KbdEvent) (s : KbdState) : Prop where
  room : (s.remembered w).length ≤ maxRemembered
  /-- What is remembered was reported once. -/
  known : ∀ dev ∈ s.remembered w, out.countP (KbdEvent.reports dev) = 1
  /-- What was reported is remembered, or about to be, or there is no room. -/
  kept : ∀ dev, 1 ≤ out.countP (KbdEvent.reports dev) → dev ∈ s.remembered w ∨
    (s.remembered w).length = maxRemembered ∨
    ∃ prev drv isTopmost, s.at_ = .neutralize prev dev drv isTopmost
  pending : ∀ prev dev drv isTopmost, s.at_ = .neutralize prev dev drv isTopmost →
    w.enforcing = true ∧ (dev ∈ s.remembered w ∨ (s.remembered w).length = maxRemembered ∨
      out.countP (KbdEvent.reports dev) = 1)
  again : ∀ dev, 2 ≤ out.countP (KbdEvent.reports dev) → (s.remembered w).length = maxRemembered
  number : s.discrepancies = n + UInt32.ofNat (out.countP KbdEvent.isReport)

theorem reports_isReport {dev : Nat} {e : KbdEvent} (h : e.reports dev = true) :
    e.isReport = true := by
  cases e <;> simp_all [KbdEvent.reports, KbdEvent.isReport]

/-- Where the walk is not in front of the lock. -/
def KbdAt.Aside (p : KbdAt) : Prop :=
  ∀ prev dev drv isTopmost, p ≠ .neutralize prev dev drv isTopmost

namespace ReportInv

variable {n : UInt32} {out : List KbdEvent} {s : KbdState}

theorem start (first : Nat → IrpMajor → Nat) (attached : Nat → Option Nat) (n : UInt32) :
    ReportInv w n [] (.start first attached n) := by
  have hnone : (KbdState.start first attached n).remembered w = [] := by
    rw [KbdState.remembered]
    split <;> rfl
  exact {
    room := by simp [hnone]
    known := by simp [hnone]
    kept := by simp
    pending := by simp [KbdState.start]
    again := by simp
    number := by simp [KbdState.start] }

/-- Steps that report nothing. -/
theorem keep (h : ReportInv w n out s) {es : List KbdEvent} {s' : KbdState}
    (hes : ∀ e ∈ es, e.isReport = false) (hrem : s'.remembered w = s.remembered w)
    (hnum : s'.discrepancies = s.discrepancies)
    (hat : s'.at_ = s.at_ ∨ s.at_.Aside ∧ s'.at_.Aside) : ReportInv w n (out ++ es) s' := by
  have hzero : ∀ dev, es.countP (KbdEvent.reports dev) = 0 := by
    intro dev
    rw [List.countP_eq_zero]
    intro e he hreports
    exact absurd (reports_isReport hreports) (by rw [hes e he]; simp)
  have hcount : ∀ dev, (out ++ es).countP (KbdEvent.reports dev)
      = out.countP (KbdEvent.reports dev) := by
    intro dev
    rw [List.countP_append, hzero, Nat.add_zero]
  have hall : (out ++ es).countP KbdEvent.isReport = out.countP KbdEvent.isReport := by
    have hnone : es.countP KbdEvent.isReport = 0 := by
      rw [List.countP_eq_zero]
      intro e he
      simp [hes e he]
    rw [List.countP_append, hnone, Nat.add_zero]
  exact {
    room := by rw [hrem]; exact h.room
    known := by
      rw [hrem]
      intro dev hdev
      rw [hcount]
      exact h.known dev hdev
    kept := by
      intro dev hdev
      rw [hcount] at hdev
      rw [hrem]
      refine (h.kept dev hdev).imp_right (Or.imp_right fun hpending => ?_)
      obtain ⟨prev, drv, isTopmost, heq⟩ := hpending
      rcases hat with hsame | ⟨haside, -⟩
      · exact ⟨prev, drv, isTopmost, hsame.trans heq⟩
      · exact absurd heq (haside _ _ _ _)
    pending := by
      intro prev dev drv isTopmost heq
      rw [hcount, hrem]
      rcases hat with hsame | ⟨-, haside⟩
      · exact h.pending prev dev drv isTopmost (hsame.symm.trans heq)
      · exact absurd heq (haside _ _ _ _)
    again := by
      intro dev hdev
      rw [hcount] at hdev
      rw [hrem]
      exact h.again dev hdev
    number := by rw [hnum, hall]; exact h.number }

theorem unreported (h : ReportInv w n out s)
    (hfull : ¬(s.remembered w).length = maxRemembered) (haside : s.at_.Aside) {dev : Nat}
    (hdev : dev ∉ s.remembered w) : out.countP (KbdEvent.reports dev) = 0 := by
  by_contra hne
  rcases h.kept dev (by omega) with hmem | hlen | ⟨prev, drv, isTopmost, heq⟩
  · exact hdev hmem
  · exact hfull hlen
  · exact haside _ _ _ _ heq

theorem remembered_on (s : KbdState) (hon : w.enforcing = true) :
    s.remembered w = s.filters.map (·.unauthorizedDev) := by
  rw [KbdState.remembered, if_pos hon]

theorem remembered_off (s : KbdState) (hoff : w.enforcing = false) :
    s.remembered w = s.reported := by
  rw [KbdState.remembered, if_neg (by simp [hoff])]

end ReportInv

/-- A turn that reports a device: it was not remembered, and is from now on if there is room.
With enforcement it is remembered a step later, behind the lock. -/
structure ReportTurn (w : KbdObjects) (s : KbdState) (dev drv : Nat) (s' : KbdState) : Prop where
  aside : s.at_.Aside
  new : dev ∉ s.remembered w
  remembered : s'.remembered w = s.remembered w ∧
      (w.enforcing = false → (s.remembered w).length = maxRemembered) ∨
    s'.remembered w = s.remembered w ++ [dev] ∧ (s.remembered w).length < maxRemembered
  counted : s'.discrepancies = s.discrepancies + 1
  goesOn : w.enforcing = true → ∃ prev isTopmost, s'.at_ = .neutralize prev dev drv isTopmost
  stays : w.enforcing = false → s'.at_.Aside

theorem countP_report_self (w : KbdObjects) (out : List KbdEvent) (dev drv : Nat) :
    (out ++ [KbdEvent.unauthorized dev drv w.enforcing]).countP (KbdEvent.reports dev) =
      out.countP (KbdEvent.reports dev) + 1 := by
  simp [List.countP_append, KbdEvent.reports]

theorem countP_report_other (w : KbdObjects) (out : List KbdEvent) {dev d : Nat} (drv : Nat)
    (h : d ≠ dev) :
    (out ++ [KbdEvent.unauthorized dev drv w.enforcing]).countP (KbdEvent.reports d) =
      out.countP (KbdEvent.reports d) := by
  simp [List.countP_append, KbdEvent.reports, Ne.symm h]

namespace ReportTurn

variable {n : UInt32} {out : List KbdEvent} {s s' : KbdState} {dev drv : Nat}
  (ht : ReportTurn w s dev drv s') (h : ReportInv w n out s)

include ht

theorem mem {d : Nat} (hd : d ∈ s.remembered w) : d ∈ s'.remembered w := by
  rcases ht.remembered with ⟨hsame, -⟩ | ⟨hsnoc, -⟩
  · rw [hsame]
    exact hd
  · rw [hsnoc]
    exact List.mem_append_left _ hd

theorem full (hfull : (s.remembered w).length = maxRemembered) :
    (s'.remembered w).length = maxRemembered := by
  rcases ht.remembered with ⟨hsame, -⟩ | ⟨-, hlt⟩
  · rw [hsame]
    exact hfull
  · omega

include h

/-- With room, this is the first report. -/
theorem first (hfull : ¬(s.remembered w).length = maxRemembered) :
    out.countP (KbdEvent.reports dev) = 0 := h.unreported hfull ht.aside ht.new

theorem room : (s'.remembered w).length ≤ maxRemembered := by
  rcases ht.remembered with ⟨hsame, -⟩ | ⟨hsnoc, hlt⟩
  · rw [hsame]
    exact h.room
  · rw [hsnoc, List.length_append, List.length_singleton]
    exact hlt

theorem known {d : Nat} (hd : d ∈ s'.remembered w) :
    (out ++ [KbdEvent.unauthorized dev drv w.enforcing]).countP (KbdEvent.reports d) = 1 := by
  by_cases hdd : d = dev
  · subst hdd
    rcases ht.remembered with ⟨hsame, -⟩ | ⟨-, hlt⟩
    · exact absurd (hsame ▸ hd) ht.new
    · rw [countP_report_self, ht.first h (by omega)]
  · rw [countP_report_other w out drv hdd]
    refine h.known d ?_
    rcases ht.remembered with ⟨hsame, -⟩ | ⟨hsnoc, -⟩
    · rwa [hsame] at hd
    · rw [hsnoc, List.mem_append, List.mem_singleton] at hd
      exact hd.resolve_right hdd

theorem kept {d : Nat}
    (hd : 1 ≤ (out ++ [KbdEvent.unauthorized dev drv w.enforcing]).countP (KbdEvent.reports d)) :
    d ∈ s'.remembered w ∨ (s'.remembered w).length = maxRemembered ∨
      ∃ prev r isTopmost, s'.at_ = .neutralize prev d r isTopmost := by
  by_cases hdd : d = dev
  · subst hdd
    rcases ht.remembered with ⟨-, hroom⟩ | ⟨hsnoc, -⟩
    · cases hon : w.enforcing with
      | true =>
          obtain ⟨prev, isTopmost, heq⟩ := ht.goesOn hon
          exact .inr (.inr ⟨prev, drv, isTopmost, heq⟩)
      | false => exact .inr (.inl (ht.full (hroom hon)))
    · rw [hsnoc]
      exact .inl (List.mem_append_right _ (List.mem_singleton.mpr rfl))
  · rw [countP_report_other w out drv hdd] at hd
    rcases h.kept d hd with hmem | hfull | ⟨prev, r, isTopmost, heq⟩
    · exact .inl (ht.mem hmem)
    · exact .inr (.inl (ht.full hfull))
    · exact absurd heq (ht.aside _ _ _ _)

theorem pending {prev : Option Nat} {d r : Nat} {isTopmost : Bool}
    (heq : s'.at_ = .neutralize prev d r isTopmost) :
    w.enforcing = true ∧ (d ∈ s'.remembered w ∨ (s'.remembered w).length = maxRemembered ∨
      (out ++ [KbdEvent.unauthorized dev drv w.enforcing]).countP (KbdEvent.reports d) = 1) := by
  cases hon : w.enforcing with
  | false => exact absurd heq (ht.stays hon _ _ _ _)
  | true =>
      obtain ⟨prev', isTopmost', heq'⟩ := ht.goesOn hon
      rw [heq', KbdAt.neutralize.injEq] at heq
      obtain ⟨-, rfl, -, -⟩ := heq
      refine ⟨rfl, ?_⟩
      by_cases hfull : (s.remembered w).length = maxRemembered
      · exact .inr (.inl (ht.full hfull))
      · rw [← hon, countP_report_self, ht.first h hfull]
        exact .inr (.inr rfl)

theorem again {d : Nat}
    (hd : 2 ≤ (out ++ [KbdEvent.unauthorized dev drv w.enforcing]).countP (KbdEvent.reports d)) :
    (s'.remembered w).length = maxRemembered := by
  by_cases hdd : d = dev
  · subst hdd
    rw [countP_report_self] at hd
    refine ht.full ?_
    by_contra hfull
    rw [ht.first h hfull] at hd
    omega
  · rw [countP_report_other w out drv hdd] at hd
    exact ht.full (h.again d hd)

theorem number : s'.discrepancies = n + UInt32.ofNat
    ((out ++ [KbdEvent.unauthorized dev drv w.enforcing]).countP KbdEvent.isReport) := by
  have hone : (out ++ [KbdEvent.unauthorized dev drv w.enforcing]).countP KbdEvent.isReport
      = out.countP KbdEvent.isReport + 1 := by
    simp [List.countP_append, KbdEvent.isReport]
  rw [ht.counted, h.number, hone, UInt32.ofNat_add, UInt32.add_assoc]
  rfl

/-- A device that is not remembered is reported, and remembered if there is room. -/
theorem report : ReportInv w n (out ++ [.unauthorized dev drv w.enforcing]) s' where
  room := ht.room h
  known _ hd := ht.known h hd
  kept _ hd := ht.kept h hd
  pending _ _ _ _ heq := ht.pending h heq
  again _ hd := ht.again h hd
  number := ht.number h

end ReportTurn

namespace ReportInv

variable {n : UInt32} {out : List KbdEvent} {s : KbdState}

/-- A device that is remembered is neutralized again. -/
theorem again_at (h : ReportInv w n out s) (haside : s.at_.Aside) (hon : w.enforcing = true)
    {prev : Option Nat} {dev drv : Nat} {isTopmost : Bool} (hdev : dev ∈ s.remembered w) :
    ReportInv w n out { s with at_ := .neutralize prev dev drv isTopmost } where
  room := h.room
  known := h.known
  kept := by
    intro d hd
    refine (h.kept d hd).imp_right (Or.imp_right fun hpending => ?_)
    obtain ⟨p, r, t, heq⟩ := hpending
    exact absurd heq (haside _ _ _ _)
  pending := by
    intro p d r t heq
    rw [KbdAt.neutralize.injEq] at heq
    obtain ⟨-, rfl, -, -⟩ := heq
    exact ⟨hon, .inl hdev⟩
  again := h.again
  number := h.number

theorem aside_advance (dev : Nat) : (KbdAt.advance dev).Aside := by simp [KbdAt.Aside]

theorem lookAt_on (h : ReportInv w n out s) (haside : s.at_.Aside) (hon : w.enforcing = true)
    (prev : Option Nat) (current : Nat) :
    ReportInv w n (out ++ (s.lookAt w prev current).1) (s.lookAt w prev current).2 := by
  rw [KbdState.lookAt]
  cases hdrv : w.unauthorized current with
  | none => exact h.keep (by simp) rfl rfl (.inr ⟨haside, aside_advance current⟩)
  | some drv =>
      have hmem : isNeutralized s.filters current = true ↔ current ∈ s.remembered w := by
        rw [remembered_on _ hon, isNeutralized_iff]
      simp only [hon, Bool.not_true, Bool.false_and, Bool.or_false, if_true]
      split
      · rw [List.append_nil]
        exact h.again_at haside hon (hmem.mp (by assumption))
      · have hturn : ReportTurn w s current drv { s with
            discrepancies := s.discrepancies + 1
            at_ := .neutralize prev current drv (s.attached current).isNone } :=
          { aside := haside
            new := fun hin => absurd (hmem.mpr hin) (by assumption)
            remembered := .inl ⟨by rw [remembered_on _ hon, remembered_on _ hon],
              fun hoff => by simp [hon] at hoff⟩
            counted := rfl
            goesOn := fun _ => ⟨prev, _, rfl⟩
            stays := fun hoff => by simp [hon] at hoff }
        have hreport := hturn.report h
        rw [hon] at hreport
        exact hreport

theorem lookAt_off (h : ReportInv w n out s) (haside : s.at_.Aside) (hoff : w.enforcing = false)
    (hnone : s.filters = []) (prev : Option Nat) (current : Nat) :
    ReportInv w n (out ++ (s.lookAt w prev current).1) (s.lookAt w prev current).2 := by
  rw [KbdState.lookAt]
  cases hdrv : w.unauthorized current with
  | none => exact h.keep (by simp) rfl rfl (.inr ⟨haside, aside_advance current⟩)
  | some drv =>
      have hfilters : isNeutralized s.filters current = false := by rw [hnone]; rfl
      simp only [hoff, hfilters, Bool.not_false, Bool.true_and, Bool.false_or, Bool.false_eq_true,
        if_false]
      split
      · exact h.keep (by simp) rfl rfl (.inr ⟨haside, aside_advance current⟩)
      · rename_i hknown
        have hdev : current ∉ s.remembered w := by
          rw [remembered_off _ hoff]
          simpa using hknown
        have hturn : ReportTurn w s current drv { s with
            reported :=
              if decide (s.reported.length < maxReportedFilters) = true then s.reported ++ [current]
              else s.reported
            discrepancies := s.discrepancies + 1
            at_ := .advance current } :=
          { aside := haside
            new := hdev
            remembered := by
              rw [remembered_off _ hoff, remembered_off _ hoff]
              by_cases hroom : s.reported.length < maxReportedFilters
              · exact .inr ⟨by simp [hroom], hroom⟩
              · refine .inl ⟨by simp [hroom], fun _ => ?_⟩
                have hle := h.room
                rw [remembered_off _ hoff] at hle
                exact Nat.le_antisymm hle (Nat.le_of_not_lt hroom)
            counted := rfl
            goesOn := fun hon => by simp [hoff] at hon
            stays := fun _ => aside_advance current }
        have hreport := hturn.report h
        rw [hoff] at hreport
        exact hreport

/-- The entry of a device that was reported once. -/
theorem inserted (h : ReportInv w n out s) {prev : Option Nat} {dev drv : Nat} {isTopmost : Bool}
    (hat : s.at_ = .neutralize prev dev drv isTopmost) (hdev : dev ∉ s.remembered w)
    (hroom : (s.remembered w).length < maxRemembered) {s' : KbdState}
    (hrem : s'.remembered w = s.remembered w ++ [dev]) (hnum : s'.discrepancies = s.discrepancies)
    (haside : s'.at_.Aside) : ReportInv w n out s' where
  room := by
    rw [hrem, List.length_append, List.length_singleton]
    exact hroom
  known := by
    intro d hd
    rw [hrem, List.mem_append, List.mem_singleton] at hd
    rcases hd with hd | rfl
    · exact h.known d hd
    · rcases (h.pending _ _ _ _ hat).2 with hmem | hfull | hone
      · exact absurd hmem hdev
      · omega
      · exact hone
  kept := by
    intro d hd
    rw [hrem, List.mem_append, List.mem_singleton]
    rcases h.kept d hd with hmem | hfull | ⟨p, r, t, heq⟩
    · exact .inl (.inl hmem)
    · omega
    · rw [hat, KbdAt.neutralize.injEq] at heq
      exact .inl (.inr heq.2.1.symm)
  pending := fun _ _ _ _ heq => absurd heq (haside _ _ _ _)
  again := by
    intro d hd
    have hfull := h.again d hd
    omega
  number := by rw [hnum]; exact h.number

/-- A device that is in the table already, or that finds it full. -/
theorem passed (h : ReportInv w n out s) {prev : Option Nat} {dev drv : Nat} {isTopmost : Bool}
    (hat : s.at_ = .neutralize prev dev drv isTopmost)
    (hdev : dev ∈ s.remembered w ∨ (s.remembered w).length = maxRemembered) (s' : KbdState)
    (hrem : s'.remembered w = s.remembered w) (hnum : s'.discrepancies = s.discrepancies)
    (haside : s'.at_.Aside) : ReportInv w n out s' where
  room := by rw [hrem]; exact h.room
  known := by rw [hrem]; exact h.known
  kept := by
    intro d hd
    rw [hrem]
    rcases h.kept d hd with hmem | hfull | ⟨p, r, t, heq⟩
    · exact .inl hmem
    · exact .inr (.inl hfull)
    · rw [hat, KbdAt.neutralize.injEq] at heq
      rw [← heq.2.1]
      exact hdev.imp_right .inl
  pending := fun _ _ _ _ heq => absurd heq (haside _ _ _ _)
  again := by rw [hrem]; exact h.again
  number := by rw [hnum]; exact h.number

/-- An event that is no report. -/
theorem quiet (h : ReportInv w n out s) {e : KbdEvent} (he : e.isReport = false) :
    ReportInv w n (out ++ [e]) s := by
  refine h.keep ?_ rfl rfl (.inl rfl)
  intro e' he'
  rw [List.mem_singleton.mp he']
  exact he

theorem neutralize (h : ReportInv w n out s) {prev : Option Nat} {dev drv : Nat}
    {isTopmost : Bool} (hat : s.at_ = .neutralize prev dev drv isTopmost) :
    ReportInv w n (out ++ (s.neutralizeKbdFilterDriver w prev dev drv isTopmost).1)
      (s.neutralizeKbdFilterDriver w prev dev drv isTopmost).2 := by
  have hon := (h.pending _ _ _ _ hat).1
  rw [KbdState.neutralizeKbdFilterDriver]
  split
  · rename_i hin
    rw [List.append_nil]
    refine h.passed hat (.inl ?_) _ ?_ rfl (aside_advance dev)
    · rw [remembered_on _ hon]
      exact isNeutralized_iff.mp hin
    · rw [remembered_on _ hon, remembered_on _ hon, setLower_devs]
  split
  · rename_i hfull
    have hlen : (s.remembered w).length = maxRemembered := by
      refine Nat.le_antisymm h.room ?_
      rw [remembered_on _ hon, List.length_map]
      exact hfull
    refine (h.passed hat (.inr hlen) { s with at_ := .advance dev } ?_ rfl
      (aside_advance dev)).quiet rfl
    rw [remembered_on _ hon, remembered_on _ hon]
  · rename_i hnew hroom
    rw [List.append_nil]
    refine h.inserted hat ?_ ?_ ?_ rfl (KbdState.behindPatch_ne prev dev drv isTopmost).2
    · rw [remembered_on _ hon]
      exact fun hin => hnew (isNeutralized_iff.mpr hin)
    · rw [remembered_on _ hon, List.length_map]
      exact Nat.lt_of_not_le hroom
    · rw [remembered_on _ hon, remembered_on _ hon, List.map_append]
      rfl

theorem next (h : ReportInv w n out s) (hoff : w.enforcing = false → s.filters = []) :
    ReportInv w n (out ++ (s.next w).1) (s.next w).2 := by
  rw [KbdState.next]
  split <;> rename_i hat
  · simpa using h
  · simpa using h
  · have haside : s.at_.Aside := by rw [hat]; simp [KbdAt.Aside]
    cases hon : w.enforcing with
    | true => exact h.lookAt_on haside hon _ _
    | false => exact h.lookAt_off haside hon (hoff hon) _ _
  · exact h.neutralize hat
  · exact h.keep (by simp [KbdEvent.isReport]) rfl rfl (.inr (by simp [hat, KbdAt.Aside]))
  · exact h.keep (by simp [KbdEvent.isReport]) rfl rfl (.inr (by simp [hat, KbdAt.Aside]))
  · split
    · exact h.keep (by simp) rfl rfl (.inr (by simp [hat, KbdAt.Aside]))
    · exact h.keep (by simp) rfl rfl (.inr (by simp [hat, KbdAt.Aside]))

theorem step (h : ReportInv w n out s) (hoff : w.enforcing = false → s.filters = [])
    (a : KbdMove) : ReportInv w n (out ++ (kbdMove w s a).1) (kbdMove w s a).2 := by
  cases a with
  | keyboard dev =>
      rw [kbdMove]
      split
      · rename_i hat
        exact h.keep (by simp) rfl rfl (.inr (by simp [hat, KbdAt.Aside]))
      · simpa using h
  | step => exact h.next hoff
  | ensure =>
      rw [kbdMove]
      split
      · refine h.keep ?_ ?_ rfl (.inl rfl)
        · intro e he
          simp only [Option.mem_toList, Option.map_eq_some_iff] at he
          obtain ⟨name, -, rfl⟩ := he
          rfl
        · simp only [KbdState.remembered, ensureLoop_devs]
      · simpa using h
  | unload =>
      rw [kbdMove]
      split
      · rename_i hat
        exact h.keep (by simp) rfl rfl (.inr (by simp [hat, KbdAt.Aside]))
      · simpa using h
  | rewrite drv slot addr => exact h.keep (by simp [kbdMove]) rfl rfl (.inl rfl)
  | attach top dev =>
      rw [kbdMove]
      split
      · exact h.keep (by simp) rfl rfl (.inl rfl)
      · simpa using h
  | detach lower => exact h.keep (by simp [kbdMove]) rfl rfl (.inl rfl)
  | irp dev slot =>
      rw [kbdMove]
      split
      · simpa using h
      split
      · refine h.quiet ?_
        rw [KbdState.passThroughDispatch]
        split <;> rfl
      · exact h.quiet rfl

end ReportInv

theorem ReportInv.run (first : Nat → IrpMajor → Nat) (attached : Nat → Option Nat) (n : UInt32)
    (acts : List KbdMove) :
    ReportInv w n (kbdRun w (.start first attached n) acts).1
      (kbdRun w (.start first attached n) acts).2 := by
  induction acts using List.reverseRecOn with
  | nil => exact .start first attached n
  | append_singleton acts a ih =>
      rw [kbdRun_snoc]
      exact ih.step (KbdInv.run first attached n acts).off a

/-! ### What the walk has judged

The other half of "exactly once": a device that `IsWhitelistedDriver` does not know is counted by
the time the walk has passed it, since a turn that does not report it found it remembered, and what
is remembered was reported.  `KbdState.judged` is read off the place of the walk alone.
-/

/-- The device whose driver a step of the walk judges. -/
def KbdState.judged (s : KbdState) : KbdMove → List Nat
  | .step =>
      match s.at_ with
      | .look _ current => [current]
      | _ => []
  | _ => []

/-- The devices that were judged in the run. -/
def kbdJudged (w : KbdObjects) (s : KbdState) (acts : List KbdMove) : List Nat :=
  Run.outputs (fun s a => (kbdMove w s a).2) KbdState.judged s acts

theorem kbdJudged_snoc (s : KbdState) (acts : List KbdMove) (a : KbdMove) :
    kbdJudged w s (acts ++ [a]) = kbdJudged w s acts ++ (kbdRun w s acts).2.judged a :=
  Run.outputs_snoc _ _ s acts a

structure JudgedInv (w : KbdObjects) (judged : List Nat) (out : List KbdEvent) : Prop where
  counted : ∀ dev ∈ judged, (w.unauthorized dev).isSome →
    1 ≤ out.countP (KbdEvent.reports dev)
  /-- Nothing else is reported. -/
  only : ∀ dev drv enforcing, .unauthorized dev drv enforcing ∈ out →
    w.unauthorized dev = some drv ∧ enforcing = w.enforcing ∧ dev ∈ judged

/-- A turn over an unauthorized device reports it, or it was reported before. -/
theorem ReportInv.lookAt_counts {n : UInt32} {out : List KbdEvent} {s : KbdState}
    (h : ReportInv w n out s) (hoff : w.enforcing = false → s.filters = []) (prev : Option Nat)
    {current : Nat} (hun : (w.unauthorized current).isSome) :
    1 ≤ (out ++ (s.lookAt w prev current).1).countP (KbdEvent.reports current) := by
  obtain ⟨drv, hdrv⟩ := Option.isSome_iff_exists.mp hun
  simp only [KbdState.lookAt, hdrv]
  split
  case isTrue hseen =>
    have hmem : current ∈ s.remembered w := by
      cases hon : w.enforcing with
      | true =>
          rw [remembered_on _ hon]
          exact isNeutralized_iff.mp (by simpa [hon] using hseen)
      | false =>
          rw [remembered_off _ hon]
          simpa [hon, hoff hon, isNeutralized] using hseen
    rw [List.append_nil]
    exact Nat.le_of_eq (h.known current hmem).symm
  case isFalse =>
    rw [countP_report_self]
    omega

theorem lookAt_reports {s : KbdState} {prev : Option Nat} {current dev drv : Nat} {enforcing : Bool}
    (hin : .unauthorized dev drv enforcing ∈ (s.lookAt w prev current).1) :
    w.unauthorized dev = some drv ∧ enforcing = w.enforcing ∧ dev = current := by
  rw [KbdState.lookAt] at hin
  split at hin
  · simp at hin
  next hdrv =>
    dsimp only at hin
    split at hin
    · simp at hin
    · rw [List.mem_singleton, KbdEvent.unauthorized.injEq] at hin
      obtain ⟨rfl, rfl, rfl⟩ := hin
      exact ⟨hdrv, rfl, rfl⟩

/-- A report is made where a device is judged. -/
theorem kbdMove_reports {s : KbdState} {a : KbdMove} {dev drv : Nat} {enforcing : Bool}
    (hin : .unauthorized dev drv enforcing ∈ (kbdMove w s a).1) :
    w.unauthorized dev = some drv ∧ enforcing = w.enforcing ∧ dev ∈ s.judged a := by
  cases a with
  | step =>
      have hnext : .unauthorized dev drv enforcing ∈ (s.next w).1 := hin
      rw [KbdState.next] at hnext
      split at hnext
      case h_3 prev current hat =>
        obtain ⟨hun, hmode, rfl⟩ := lookAt_reports hnext
        exact ⟨hun, hmode, by simp [KbdState.judged, hat]⟩
      case h_4 =>
        rw [KbdState.neutralizeKbdFilterDriver] at hnext
        split at hnext <;> try split at hnext
        all_goals simp at hnext
      case h_7 => split at hnext <;> simp at hnext
      all_goals simp at hnext
  | keyboard dev =>
      rw [kbdMove] at hin
      split at hin <;> simp at hin
  | ensure =>
      rw [kbdMove] at hin
      split at hin <;> simp at hin
  | unload =>
      rw [kbdMove] at hin
      split at hin <;> simp at hin
  | rewrite drv slot addr => simp [kbdMove] at hin
  | attach top dev =>
      rw [kbdMove] at hin
      split at hin <;> simp at hin
  | detach lower => simp [kbdMove] at hin
  | irp dev slot =>
      rw [kbdMove] at hin
      split at hin
      · simp at hin
      split at hin
      · rw [KbdState.passThroughDispatch] at hin
        split at hin <;> simp at hin
      · simp at hin

theorem JudgedInv.step {n : UInt32} {judged : List Nat} {out : List KbdEvent} {s : KbdState}
    (h : JudgedInv w judged out) (hreport : ReportInv w n out s)
    (hoff : w.enforcing = false → s.filters = []) (a : KbdMove) :
    JudgedInv w (judged ++ s.judged a) (out ++ (kbdMove w s a).1) where
  counted := by
    intro dev hdev hun
    rcases List.mem_append.mp hdev with hold | hnew
    · have hone := h.counted dev hold hun
      rw [List.countP_append]
      omega
    · cases a with
      | step =>
          cases hat : s.at_ with
          | look prev current =>
              have hcurrent : dev = current := by simpa [KbdState.judged, hat] using hnew
              subst hcurrent
              have hnext : kbdMove w s .step = s.lookAt w prev dev := by
                rw [kbdMove, KbdState.next, hat]
              rw [hnext]
              exact hreport.lookAt_counts hoff prev hun
          | _ => simp [KbdState.judged, hat] at hnew
      | _ => simp [KbdState.judged] at hnew
  only := by
    intro dev drv enforcing hin
    rcases List.mem_append.mp hin with hold | hnew
    · obtain ⟨hun, hmode, hmem⟩ := h.only dev drv enforcing hold
      exact ⟨hun, hmode, List.mem_append_left _ hmem⟩
    · obtain ⟨hun, hmode, hmem⟩ := kbdMove_reports hnew
      exact ⟨hun, hmode, List.mem_append_right _ hmem⟩

theorem JudgedInv.run (first : Nat → IrpMajor → Nat) (attached : Nat → Option Nat) (n : UInt32)
    (acts : List KbdMove) :
    JudgedInv w (kbdJudged w (.start first attached n) acts)
      (kbdRun w (.start first attached n) acts).1 := by
  induction acts using List.reverseRecOn with
  | nil => exact ⟨by simp [kbdJudged, Run.outputs], by simp [kbdRun, Run.loop, Run.outputs]⟩
  | append_singleton acts a ih =>
      rw [kbdRun_snoc, kbdJudged_snoc]
      exact ih.step (.run first attached n acts) (KbdInv.run first attached n acts).off a

/-- Once judged, an unauthorized device was reported once and is remembered, or about to be; or the
table is full without it, and it was reported at least once. -/
theorem ReportInv.reported {n : UInt32} {out : List KbdEvent} {s : KbdState}
    (h : ReportInv w n out s) {dev : Nat} (hone : 1 ≤ out.countP (KbdEvent.reports dev)) :
    (out.countP (KbdEvent.reports dev) = 1 ∧
      (dev ∈ s.remembered w ∨ ∃ prev drv isTopmost, s.at_ = .neutralize prev dev drv isTopmost)) ∨
    ((s.remembered w).length = maxRemembered ∧ dev ∉ s.remembered w) := by
  by_cases hmem : dev ∈ s.remembered w
  · exact .inl ⟨h.known dev hmem, .inl hmem⟩
  by_cases hfull : (s.remembered w).length = maxRemembered
  · exact .inr ⟨hfull, hmem⟩
  · rcases h.kept dev hone with hin | hlen | ⟨prev, drv, isTopmost, hat⟩
    · exact absurd hin hmem
    · exact absurd hlen hfull
    · rcases (h.pending _ _ _ _ hat).2 with hin | hlen | hcount
      · exact absurd hin hmem
      · exact absurd hlen hfull
      · exact .inl ⟨hcount, .inr ⟨prev, drv, isTopmost, hat⟩⟩

/-! ### Where requests go

The table is written to by the insertion of an entry and by a later call about a
device that is in it.  Both record what was found below the device, so what an entry
holds is what the last call said, and repairing a dispatch table does not touch it.
-/

/-- What a step of the walk tells `NeutralizeKbdFilterDriver`: a device, and the one below it. -/
def KbdState.told (s : KbdState) : KbdMove → List (Nat × Option Nat)
  | .step =>
      match s.at_ with
      | .neutralize prev current _ _ => [(current, prev)]
      | _ => []
  | _ => []

theorem KbdState.told_of_ne (s : KbdState) {a : KbdMove} (h : a ≠ .step) : s.told a = [] := by
  cases a with
  | step => exact absurd rfl h
  | _ => rfl

/-- What it was told in the run. -/
def kbdTold (w : KbdObjects) (s : KbdState) (acts : List KbdMove) : List (Nat × Option Nat) :=
  Run.outputs (fun s a => (kbdMove w s a).2) KbdState.told s acts

theorem kbdTold_snoc (s : KbdState) (acts : List KbdMove) (a : KbdMove) :
    kbdTold w s (acts ++ [a]) = kbdTold w s acts ++ (kbdRun w s acts).2.told a :=
  Run.outputs_snoc _ _ s acts a

/-- The last it was told about a device. -/
def lastTold (told : List (Nat × Option Nat)) (dev : Nat) : Option (Nat × Option Nat) :=
  told.reverse.find? fun p => p.1 = dev

theorem lastTold_snoc (told : List (Nat × Option Nat)) (dev : Nat) (lower : Option Nat) (d : Nat) :
    lastTold (told ++ [(dev, lower)]) d
      = if dev = d then some (dev, lower) else lastTold told d := by
  by_cases h : dev = d
  · simp [lastTold, h]
  · simp [lastTold, h]

/-- The entry of a device, as it was told. -/
def heldLower (filters : List NeutralizedFilter) (dev : Nat) : Option (Nat × Option Nat) :=
  (filters.map fun nf => (nf.unauthorizedDev, nf.lowerDev)).find? fun p => p.1 = dev

theorem heldLower_eq (filters : List NeutralizedFilter) (dev : Nat) :
    heldLower filters dev
      = (filters.find? fun nf => nf.unauthorizedDev = dev).map
          fun nf => (nf.unauthorizedDev, nf.lowerDev) := by
  rw [heldLower, List.find?_map]
  rfl

theorem heldLower_isSome {filters : List NeutralizedFilter} {dev : Nat} :
    (heldLower filters dev).isSome = isNeutralized filters dev := by
  rw [heldLower_eq, Option.isSome_map, List.isSome_find?, isNeutralized]

theorem heldLower_setLower (filters : List NeutralizedFilter) (dev : Nat) (lower : Option Nat)
    (h : isNeutralized filters dev = true) (d : Nat) :
    heldLower (setLower dev lower filters) d
      = if dev = d then some (dev, lower) else heldLower filters d := by
  induction filters with
  | nil => simp [isNeutralized] at h
  | cons nf rest ih =>
      rw [setLower]
      by_cases hnf : nf.unauthorizedDev = dev
      · rw [if_pos hnf]
        by_cases hd : dev = d
        · simp [heldLower, hnf, hd]
        · simp [heldLower, hnf, hd]
      · rw [if_neg hnf]
        have hrest : isNeutralized rest dev = true := by
          simpa [isNeutralized, hnf] using h
        have ih' := ih hrest
        rw [heldLower] at ih' ⊢
        rw [List.map_cons]
        by_cases hd : nf.unauthorizedDev = d
        · have hne : dev ≠ d := fun heq => hnf (hd.trans heq.symm)
          simp [heldLower, hd, hne]
        · rw [List.find?_cons_of_neg (by simpa using hd), ih']
          simp [heldLower, hd]

theorem heldLower_append (filters : List NeutralizedFilter) (nf : NeutralizedFilter)
    (h : isNeutralized filters nf.unauthorizedDev ≠ true) (d : Nat) :
    heldLower (filters ++ [nf]) d
      = if nf.unauthorizedDev = d then some (nf.unauthorizedDev, nf.lowerDev)
        else heldLower filters d := by
  by_cases hd : nf.unauthorizedDev = d
  · subst hd
    have hnone : heldLower filters nf.unauthorizedDev = none := by
      rw [← Option.isNone_iff_eq_none, ← Option.not_isSome, heldLower_isSome]
      simpa using h
    rw [heldLower] at hnone ⊢
    rw [List.map_append, List.find?_append, hnone]
    simp
  · rw [heldLower, List.map_append, List.find?_append]
    simp [heldLower, hd]

/-- The table has what it was told last. -/
structure ToldInv (told : List (Nat × Option Nat)) (s : KbdState) : Prop where
  last : ∀ dev p, heldLower s.filters dev = some p → lastTold told dev = some p
  /-- A device is left out for want of room only. -/
  held : ∀ p ∈ told, isNeutralized s.filters p.1 = true ∨ s.filters.length = maxNeutralizedFilters

namespace ToldInv

variable {told : List (Nat × Option Nat)} {s : KbdState}

theorem keep (h : ToldInv told s) {s' : KbdState} (hfilters : s'.filters = s.filters) :
    ToldInv told s' where
  last := by rw [hfilters]; exact h.last
  held := by rw [hfilters]; exact h.held

/-- What one call of `NeutralizeKbdFilterDriver` does to the table. -/
theorem write (h : ToldInv told s) {dev : Nat} {lower : Option Nat} {s' : KbdState}
    (hheld : ∀ d, heldLower s'.filters d
      = if dev = d then some (dev, lower) else heldLower s.filters d)
    (hlen : s.filters.length = maxNeutralizedFilters → s'.filters.length = maxNeutralizedFilters) :
    ToldInv (told ++ [(dev, lower)]) s' where
  last := by
    intro d p hp
    rw [hheld] at hp
    rw [lastTold_snoc]
    split at hp
    · rw [if_pos (by assumption)]
      exact hp
    · rw [if_neg (by assumption)]
      exact h.last d p hp
  held := by
    intro p hp
    have hin : ∀ d, isNeutralized s'.filters d = true ↔
        dev = d ∨ isNeutralized s.filters d = true := by
      intro d
      rw [← heldLower_isSome, ← heldLower_isSome, hheld]
      split <;> simp_all
    rw [hin]
    rcases List.mem_append.mp hp with hp | hp
    · rcases h.held p hp with hmem | hfull
      · exact .inl (.inr hmem)
      · exact .inr (hlen hfull)
    · rw [List.mem_singleton.mp hp]
      exact .inl (.inl rfl)

theorem neutralize (h : ToldInv told s) (hroom : s.filters.length ≤ maxNeutralizedFilters)
    (lower : Option Nat) (dev drv : Nat) (isTopmost : Bool) :
    ToldInv (told ++ [(dev, lower)]) (s.neutralizeKbdFilterDriver w lower dev drv isTopmost).2 := by
  rw [KbdState.neutralizeKbdFilterDriver]
  split
  · rename_i hin
    refine h.write (heldLower_setLower s.filters dev lower hin) ?_
    intro hfull
    have hlen := congrArg List.length (setLower_devs dev lower s.filters)
    simp only [List.length_map] at hlen
    exact hlen.trans hfull
  split
  · rename_i hnew hfull
    have hlen : s.filters.length = maxNeutralizedFilters := Nat.le_antisymm hroom hfull
    refine ⟨fun d p hp => ?_, fun p hp => .inr hlen⟩
    rw [lastTold_snoc]
    split
    · rename_i hd
      subst hd
      have hsome := congrArg Option.isSome hp
      rw [heldLower_isSome] at hsome
      exact absurd hsome hnew
    · exact h.last d p hp
  · rename_i hnew hless
    refine h.write (heldLower_append s.filters (s.entryFor w lower dev drv) hnew) ?_
    intro hfull
    exact absurd hfull (Nat.ne_of_lt (Nat.lt_of_not_le hless))

theorem next (h : ToldInv told s) (hroom : s.filters.length ≤ maxNeutralizedFilters) :
    ToldInv (told ++ s.told .step) (s.next w).2 := by
  cases hat : s.at_ with
  | idle | unloaded =>
      simp only [KbdState.next, KbdState.told, hat, List.append_nil]
      exact h
  | look prev current =>
      simp only [KbdState.next, KbdState.told, hat, List.append_nil]
      rw [KbdState.lookAt]
      split
      · exact h.keep rfl
      · dsimp only
        split <;> exact h.keep rfl
  | neutralize prev current drv isTopmost =>
      simp only [KbdState.next, KbdState.told, hat]
      exact h.neutralize hroom _ _ _ _
  | detach lower current drv | alert current drv isTopmost =>
      simp only [KbdState.next, KbdState.told, hat, List.append_nil]
      exact h.keep rfl
  | advance current =>
      simp only [KbdState.next, KbdState.told, hat, List.append_nil]
      split <;> exact h.keep rfl

theorem ensure (h : ToldInv told s) :
    ToldInv (told ++ s.told .ensure) (kbdMove w s .ensure).2 := by
  rw [KbdState.told_of_ne s (by simp), List.append_nil, kbdMove]
  split
  · have hheld : ∀ d,
        heldLower (ensureLoop w s.filters s.major).1 d = heldLower s.filters d := by
      intro d
      rw [heldLower, ensureLoop_pairs, heldLower]
    have hlen := congrArg List.length (ensureLoop_devs (w := w) s.filters s.major)
    simp only [List.length_map] at hlen
    refine ⟨fun d p hp => h.last d p ((hheld d).symm.trans hp), fun p hp => ?_⟩
    dsimp only
    rw [← heldLower_isSome, hheld, heldLower_isSome, hlen]
    exact h.held p hp
  · exact h

theorem step (h : ToldInv told s) (hroom : s.filters.length ≤ maxNeutralizedFilters)
    (a : KbdMove) : ToldInv (told ++ s.told a) (kbdMove w s a).2 := by
  cases a with
  | keyboard dev =>
      rw [KbdState.told_of_ne s (by simp), List.append_nil, kbdMove]
      split
      · exact h.keep rfl
      · exact h
  | step => exact h.next hroom
  | ensure => exact h.ensure
  | unload =>
      rw [KbdState.told_of_ne s (by simp), List.append_nil, kbdMove]
      split
      · exact h.keep rfl
      · exact h
  | rewrite drv slot addr =>
      rw [KbdState.told_of_ne s (by simp), List.append_nil]
      exact h.keep rfl
  | attach top dev =>
      rw [KbdState.told_of_ne s (by simp), List.append_nil, kbdMove]
      split
      · exact h.keep rfl
      · exact h
  | detach lower =>
      rw [KbdState.told_of_ne s (by simp), List.append_nil]
      exact h.keep rfl
  | irp dev slot =>
      rw [KbdState.told_of_ne s (by simp), List.append_nil, kbdMove]
      split
      · exact h
      · split <;> exact h

end ToldInv

theorem ToldInv.run (first : Nat → IrpMajor → Nat) (attached : Nat → Option Nat) (n : UInt32)
    (acts : List KbdMove) :
    ToldInv (kbdTold w (.start first attached n) acts)
      (kbdRun w (.start first attached n) acts).2 := by
  induction acts using List.reverseRecOn with
  | nil =>
      exact ⟨by simp [kbdRun, Run.loop, KbdState.start, heldLower], by simp [kbdTold, Run.outputs]⟩
  | append_singleton acts a ih =>
      rw [kbdRun_snoc, kbdTold_snoc]
      exact ih.step (KbdInv.run first attached n acts).room a

/-- What the stub should do with a request: pass it to the device that was last found below. -/
def passOn (told : List (Nat × Option Nat)) (dev : Nat) : KbdEvent :=
  match lastTold told dev with
  | some (_, some lower) => .forwarded dev lower
  | _ => .notConnected dev

/-- In every run: an unauthorized device that the walk has judged was reported, exactly once unless
sixteen others were remembered before it, and nothing else is reported; the counter counts the
reports; the stub passes a request for a recorded device to the device that the walk last found
below it, and fails it for any other; and only a full table leaves a device out. -/
theorem kbd_filters_run (w : KbdObjects) (first : Nat → IrpMajor → Nat)
    (attached : Nat → Option Nat) (n : UInt32) (acts : List KbdMove) :
    let out := (kbdRun w (.start first attached n) acts).1
    let s := (kbdRun w (.start first attached n) acts).2
    let judged := kbdJudged w (.start first attached n) acts
    let told := kbdTold w (.start first attached n) acts
    (∀ dev ∈ judged, (w.unauthorized dev).isSome →
      (out.countP (KbdEvent.reports dev) = 1 ∧ (dev ∈ s.remembered w ∨
        ∃ prev drv isTopmost, s.at_ = .neutralize prev dev drv isTopmost)) ∨
      (1 ≤ out.countP (KbdEvent.reports dev) ∧
        (s.remembered w).length = maxRemembered ∧ dev ∉ s.remembered w)) ∧
    (∀ dev drv enforcing, .unauthorized dev drv enforcing ∈ out →
      w.unauthorized dev = some drv ∧ enforcing = w.enforcing ∧ dev ∈ judged) ∧
    (∀ dev ∈ s.remembered w, out.countP (KbdEvent.reports dev) = 1) ∧
    (∀ dev, 2 ≤ out.countP (KbdEvent.reports dev) →
      (s.remembered w).length = maxRemembered ∧ dev ∉ s.remembered w) ∧
    s.discrepancies = n + UInt32.ofNat (out.countP KbdEvent.isReport) ∧
    (∀ dev drv slot, w.driver dev = some drv → s.major drv slot = .passThrough →
      (kbdMove w s (.irp dev slot)).1
        = [if isNeutralized s.filters dev then passOn told dev else .notConnected dev]) ∧
    (∀ p ∈ told,
      isNeutralized s.filters p.1 = true ∨ s.filters.length = maxNeutralizedFilters) := by
  intro out s judged told
  have hreport : ReportInv w n out s := .run first attached n acts
  have hjudged : JudgedInv w judged out := .run first attached n acts
  have htold : ToldInv told s := .run first attached n acts
  refine ⟨fun dev hdev hun => ?_, hjudged.only, hreport.known,
    fun dev hdev => ⟨hreport.again dev hdev, fun hmem => ?_⟩, hreport.number,
    fun dev drv slot hdrv hstub => ?_, htold.held⟩
  · have hone := hjudged.counted dev hdev hun
    exact (hreport.reported hone).imp_right fun hfull => ⟨hone, hfull⟩
  · have hone := hreport.known dev hmem
    omega
  · rw [kbdMove, hdrv]
    dsimp only
    rw [hstub]
    dsimp only
    rw [KbdState.passThroughDispatch]
    cases hfind : s.filters.find? fun nf => nf.unauthorizedDev = dev with
    | none =>
        have hout : isNeutralized s.filters dev = false := by
          rw [← heldLower_isSome, heldLower_eq, hfind]
          rfl
        rw [hout]
        rfl
    | some nf =>
        have hheld : heldLower s.filters dev = some (nf.unauthorizedDev, nf.lowerDev) := by
          rw [heldLower_eq, hfind]
          rfl
        have hin : isNeutralized s.filters dev = true := by
          rw [← heldLower_isSome, hheld]
          rfl
        rw [hin, if_pos rfl, passOn, htold.last dev _ hheld, Option.bind_some]
        cases nf.lowerDev <;> rfl

end KernelGuard
