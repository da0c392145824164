/-
What a scan of the keyboards says about a handle that is listening.

Whether the identity alert is raised depends on two things only: whether the handle is among the
first twenty-four that can be gathered, and whether its address is already in `kg_reported`
(`scan_critical_iff`).  Other handles cannot change that in the middle of a scan, because live
handles have different addresses, and the marks of callbacks are other entries.

An entry does not say at which level its alert was raised.  A handle that was attached but not
open when it was first seen has its entry, and opening it later changes nothing.
-/
import KernelGuard.Model.KbdScan
import Mathlib.Data.List.Flatten
import Mathlib.Data.List.Nodup
import Mathlib.Data.List.Pairwise

namespace KernelGuard

open Run

/-! ### What is remembered

Entries are made and never taken back.  Marking a handle can therefore only make a
later answer about the same address different, and with distinct addresses there is
no such answer in one scan.
-/

/-- The address has an identity entry. -/
def KgInput.marked (st : KgInput) (addr : UInt64) : Bool := kgWasReported st addr 0 0

/-- Marking another entry does not touch this one, whether the table is full or not. -/
theorem kgMarkReported_marked {handle cb addr : UInt64} {kind : UInt8} (st : KgInput)
    (h : handle ≠ addr ∨ cb ≠ 0) :
    (kgMarkReported handle cb kind st).marked addr = st.marked addr := by
  unfold kgMarkReported
  split
  · show (st.reported ++ [_]).contains _ = st.reported.contains _
    have hne : ¬ (⟨addr, 0, 0⟩ : KgReported) = ⟨handle, cb, kind⟩ := by
      intro heq
      simp only [KgReported.mk.injEq] at heq
      rcases h with h | h
      · exact h heq.1.symm
      · exact h heq.2.1.symm
    simp [hne]
  · rfl

/-- The rules by which names are judged, which only the baseline changes. -/
structure SameRules (st st' : KgInput) : Prop where
  allow : st'.allow = st.allow
  base : st'.base = st.base
  baselining : st'.baselining = st.baselining

theorem SameRules.refl (st : KgInput) : SameRules st st := ⟨rfl, rfl, rfl⟩

theorem SameRules.trans {a b c : KgInput} (h : SameRules a b) (h' : SameRules b c) :
    SameRules a c :=
  ⟨h'.allow.trans h.allow, h'.base.trans h.base, h'.baselining.trans h.baselining⟩

theorem SameRules.authorised {st st' : KgInput} (h : SameRules st st') (name : CStr) :
    kgHandlerAuthorised st' name = kgHandlerAuthorised st name := by
  unfold kgHandlerAuthorised
  rw [h.allow, h.base]

theorem kgMarkReported_rules (handle cb : UInt64) (kind : UInt8) (st : KgInput) :
    SameRules st (kgMarkReported handle cb kind st) := by
  unfold kgMarkReported
  split <;> exact ⟨rfl, rfl, rfl⟩

/-! ### One handle

The alerts about a handle are of two types, those about its name and those about its
callbacks, and the second are not looked at.  Whether one of the first is raised is
decided by what was marked before the turn of the handle.
-/

/-- An alert that a handler is listening, about the attachment. -/
def KbdAlert.CriticalFor (att : Nat) (a : KbdAlert) : Prop :=
  a.att = att ∧ a.alert.type = kgAlertUnauthorizedKbdFilter ∧ a.alert.level = kgLevelCritical

theorem kgCheckCallback_keeps (view : KernelView) (hi : KgHinfo) (i : Fin 7) (st : KgInput) :
    SameRules st (kgCheckCallback view hi i st).2 ∧
      ∀ addr, (kgCheckCallback view hi i st).2.marked addr = st.marked addr := by
  unfold kgCheckCallback
  split
  · exact ⟨.refl st, fun _ => rfl⟩
  · rename_i hcb
    dsimp only
    split
    · exact ⟨.refl st, fun _ => rfl⟩
    · exact ⟨kgMarkReported_rules .., fun addr => kgMarkReported_marked st (Or.inr hcb)⟩

theorem kgCheckCallbacks_keeps (view : KernelView) (hi : KgHinfo) (st : KgInput) :
    SameRules st (kgCheckCallbacks view hi st).2 ∧
      ∀ addr, (kgCheckCallbacks view hi st).2.marked addr = st.marked addr := by
  refine loop_invariant
    (P := fun st' => SameRules st st' ∧ ∀ addr, st'.marked addr = st.marked addr) ?_
    ⟨.refl st, fun _ => rfl⟩
  intro i _ st' hst'
  obtain ⟨hrules, hmarked⟩ := kgCheckCallback_keeps view hi i st'
  exact ⟨hst'.1.trans hrules, fun addr => (hmarked addr).trans (hst'.2 addr)⟩

/-- The alerts about callbacks are of another type. -/
theorem kgCheckCallbacks_type {view : KernelView} {hi : KgHinfo} {st : KgInput} {a : KbdAlert}
    (h : a ∈ (kgCheckCallbacks view hi st).1) : a.alert.type = kgAlertDispatchHook := by
  obtain ⟨pre, i, post, -, ha⟩ := mem_loop.mp h
  unfold kgCheckCallback at ha
  split at ha
  · simp at ha
  · dsimp only at ha
    split at ha
    · simp at ha
    · rw [List.mem_singleton] at ha
      rw [ha]

theorem kgJudgeName_rules {hi : KgHinfo} {st : KgInput} (hst : st.baselining = false) :
    SameRules st (kgJudgeName hi st).2 := by
  unfold kgJudgeName
  rw [if_neg (by simp [hst])]
  split
  · exact kgMarkReported_rules ..
  · exact .refl st

theorem kgJudgeName_marked {hi : KgHinfo} {st : KgInput} {addr : UInt64}
    (hst : st.baselining = false) (hne : hi.handle ≠ addr) :
    (kgJudgeName hi st).2.marked addr = st.marked addr := by
  unfold kgJudgeName
  rw [if_neg (by simp [hst])]
  split
  · exact kgMarkReported_marked st (Or.inl hne)
  · rfl

theorem kgScanHandle_rules {view : KernelView} {hi : KgHinfo} {st : KgInput}
    (hst : st.baselining = false) : SameRules st (kgScanHandle view hi st).2 :=
  (kgJudgeName_rules hst).trans (kgCheckCallbacks_keeps view hi (kgJudgeName hi st).2).1

/-- A handle at another address does not matter. -/
theorem kgScanHandle_marked {view : KernelView} {hi : KgHinfo} {st : KgInput} {addr : UInt64}
    (hst : st.baselining = false) (hne : hi.handle ≠ addr) :
    (kgScanHandle view hi st).2.marked addr = st.marked addr :=
  ((kgCheckCallbacks_keeps view hi (kgJudgeName hi st).2).2 addr).trans (kgJudgeName_marked hst hne)

/-- A gathered handle that is open, not authorised and not remembered. -/
def KgHinfo.Alarming (hi : KgHinfo) (st : KgInput) : Prop :=
  hi.opened = true ∧ kgHandlerAuthorised st hi.name = false ∧ st.marked hi.handle = false

theorem kgJudgeName_critical_iff {hi : KgHinfo} {st : KgInput} {att : Nat}
    (hst : st.baselining = false) :
    (∃ a ∈ (kgJudgeName hi st).1, a.CriticalFor att) ↔ hi.att = att ∧ hi.Alarming st := by
  unfold kgJudgeName KgHinfo.Alarming KgInput.marked
  rw [if_neg (by simp [hst])]
  by_cases hnew : (!kgHandlerAuthorised st hi.name && !kgWasReported st hi.handle 0 0) = true
  · rw [if_pos hnew]
    simp only [Bool.and_eq_true, Bool.not_eq_true'] at hnew
    simp only [List.mem_singleton, exists_eq_left]
    unfold KbdAlert.CriticalFor
    cases hopen : hi.opened with
    | true => simp [hnew]
    | false => simp [kgLevelCritical, kgLevelWatch]
  · rw [if_neg hnew]
    refine iff_of_false (by simp) ?_
    intro h
    obtain ⟨-, -, hauth, hmarked⟩ := h
    exact hnew (by simp [hauth, hmarked])

theorem kgScanHandle_critical_iff {view : KernelView} {hi : KgHinfo} {st : KgInput} {att : Nat}
    (hst : st.baselining = false) :
    (∃ a ∈ (kgScanHandle view hi st).1, a.CriticalFor att) ↔ hi.att = att ∧ hi.Alarming st := by
  rw [← kgJudgeName_critical_iff hst]
  constructor
  · intro h
    obtain ⟨a, ha, hcrit⟩ := h
    rcases List.mem_append.mp ha with ha | ha
    · exact ⟨a, ha, hcrit⟩
    · have htype := hcrit.2.1
      rw [kgCheckCallbacks_type ha] at htype
      exact absurd htype (by decide)
  · intro h
    obtain ⟨a, ha, hcrit⟩ := h
    exact ⟨a, List.mem_append_left _ ha, hcrit⟩

/-! ### What is gathered

The table of a scan has room for a few handles, and takes the first.  So being
gathered is a question about the position on the list, and not about what the other
handles are.
-/

theorem mem_others {k : KgKbd} {hi : KgHinfo} :
    hi ∈ k.others ↔ ∃ h ∈ k.hList, h.addr ≠ k.own ∧ ∃ hd, h.handler = some hd ∧ kgHinfo h hd = hi := by
  unfold KgKbd.others
  rw [List.mem_filterMap]
  refine exists_congr ?_
  intro h
  refine and_congr_right ?_
  intro _
  by_cases hown : h.addr = k.own
  · simp [hown]
  · rw [if_neg hown, Option.map_eq_some_iff]
    simp [hown]

theorem mem_gather {k : KgKbd} {hi : KgHinfo} (h : hi ∈ k.gather) :
    ∃ x ∈ k.hList, ∃ hd, x.handler = some hd ∧ kgHinfo x hd = hi := by
  obtain ⟨x, hx, -, hd, hhd, heq⟩ := mem_others.mp (List.mem_of_mem_take h)
  exact ⟨x, hx, hd, hhd, heq⟩

/-- The gathered handles have the addresses of handles on the list, each at most once. -/
theorem gather_sublist (k : KgKbd) :
    (k.gather.map KgHinfo.handle).Sublist (k.hList.map InputHandle.addr) := by
  have hothers : ∀ l : List InputHandle,
      ((l.filterMap fun h => if h.addr = k.own then none else h.handler.map (kgHinfo h)).map
        KgHinfo.handle).Sublist (l.map InputHandle.addr) := by
    intro l
    induction l with
    | nil => exact .slnil
    | cons h rest ih =>
        rw [List.filterMap_cons, List.map_cons]
        split
        · exact ih.cons _
        · rename_i hi hsome
          have hhandle : hi.handle = h.addr := by
            split at hsome
            · exact absurd hsome nofun
            · obtain ⟨hd, -, rfl⟩ := Option.map_eq_some_iff.mp hsome
              rfl
          rw [List.map_cons, hhandle]
          exact ih.cons_cons _
  exact ((List.take_sublist _ _).map _).trans (hothers k.hList)

/-! ### One keyboard

The handles are judged one after the other, and each leaves the state as it was for
the others.  So the alert about a handle can be taken out of its turn, as if it were
judged first.
-/

/-- Handles at other addresses do not matter, however many. -/
theorem scanHandles_keeps (view : KernelView) (his : List KgHinfo) {st : KgInput}
    (hst : st.baselining = false) :
    SameRules st (loop (kgScanHandle view) his st).2 ∧
      ∀ addr, (∀ hi ∈ his, hi.handle ≠ addr) →
        (loop (kgScanHandle view) his st).2.marked addr = st.marked addr := by
  refine loop_invariant
    (P := fun st' => SameRules st st' ∧
      ∀ addr, (∀ hi ∈ his, hi.handle ≠ addr) → st'.marked addr = st.marked addr) ?_
    ⟨.refl st, fun _ _ => rfl⟩
  intro hi hmem st' hst'
  have hoff := hst'.1.baselining.trans hst
  refine ⟨hst'.1.trans (kgScanHandle_rules hoff), ?_⟩
  intro addr hne
  exact (kgScanHandle_marked hoff (hne hi hmem)).trans (hst'.2 addr hne)

theorem KgHinfo.Alarming.congr {hi : KgHinfo} {st st' : KgInput} (hrules : SameRules st st')
    (hmarked : st'.marked hi.handle = st.marked hi.handle) : hi.Alarming st' ↔ hi.Alarming st := by
  unfold KgHinfo.Alarming
  rw [hrules.authorised, hmarked]

theorem scanHandles_critical_iff (view : KernelView) {his : List KgHinfo} {st : KgInput} {att : Nat}
    (hst : st.baselining = false) (hnodup : (his.map KgHinfo.handle).Nodup) :
    (∃ a ∈ (loop (kgScanHandle view) his st).1, a.CriticalFor att) ↔
      ∃ hi ∈ his, hi.att = att ∧ hi.Alarming st := by
  refine exists_mem_loop ?_
  intro pre hi post hsplit
  -- when its turn comes, nothing new has been said at the address of a handle
  obtain ⟨hrules, hmarked⟩ := scanHandles_keeps view pre hst
  rw [kgScanHandle_critical_iff (hrules.baselining.trans hst)]
  refine and_congr_right fun _ => KgHinfo.Alarming.congr hrules (hmarked hi.handle ?_)
  intro other hother heq
  rw [hsplit, List.map_append, List.nodup_append, List.map_cons] at hnodup
  exact hnodup.2.2 _ (List.mem_map_of_mem hother) _ List.mem_cons_self heq

theorem kgNeutralise_type {st : KgInput} {locked : Bool} {hi : KgHinfo} {k : KgKbd} {a : KbdAlert}
    (h : a ∈ (kgNeutralise st locked hi k).1) : a.alert.type = kgAlertKbdFilterNeutralized := by
  unfold kgNeutralise at h
  split at h
  · simp at h
  · dsimp only at h
    split at h
    · rw [List.mem_singleton] at h
      rw [h]
    · simp at h

theorem kgNeutralise_sublist (st : KgInput) (locked : Bool) (hi : KgHinfo) (k : KgKbd) :
    (kgNeutralise st locked hi k).2.hList.Sublist k.hList := by
  have hdetach : (kgDetachHandle locked hi.handle k).2.hList.Sublist k.hList := by
    unfold kgDetachHandle
    split
    · exact List.eraseP_sublist
    · exact .refl _
  unfold kgNeutralise
  split
  · exact .refl _
  · exact hdetach

/-- Enforcement only takes handles away, and says so in alerts of its own. -/
theorem kgNeutraliseAll_spec (view : ScanView) (st : KgInput) (his : List KgHinfo) (k : KgKbd) :
    (kgNeutraliseAll view st his k).2.hList.Sublist k.hList ∧
      ∀ a ∈ (kgNeutraliseAll view st his k).1, a.alert.type = kgAlertKbdFilterNeutralized := by
  unfold kgNeutraliseAll
  split
  · refine ⟨?_, ?_⟩
    · refine loop_invariant (P := fun k' : KgKbd => k'.hList.Sublist k.hList) ?_ (List.Sublist.refl _)
      intro hi _ k' hk'
      exact (kgNeutralise_sublist st view.locked hi k').trans hk'
    · intro a ha
      obtain ⟨pre, hi, post, -, ha⟩ := mem_loop.mp ha
      exact kgNeutralise_type ha
  · exact ⟨.refl _, by simp⟩

theorem kgScanKbd_critical_iff {view : ScanView} {k : KgKbd} {st : KgInput} {att : Nat}
    (hst : st.baselining = false) (hnodup : (k.hList.map InputHandle.addr).Nodup) :
    (∃ a ∈ (kgScanKbd view k st).1, a.CriticalFor att) ↔
      ∃ hi ∈ k.gather, hi.att = att ∧ hi.Alarming st := by
  rw [← scanHandles_critical_iff view.toKernelView hst
    ((gather_sublist k).nodup hnodup)]
  constructor
  · intro h
    obtain ⟨a, ha, hcrit⟩ := h
    rcases List.mem_append.mp ha with ha | ha
    · exact ⟨a, ha, hcrit⟩
    · have htype := hcrit.2.1
      rw [(kgNeutraliseAll_spec view _ k.gather k).2 a ha] at htype
      exact absurd htype (by decide)
  · intro h
    obtain ⟨a, ha, hcrit⟩ := h
    exact ⟨a, List.mem_append_left _ ha, hcrit⟩

/-! ### All keyboards

A handle stands on the list of one keyboard, so the turns of the other keyboards are
only a detour for it.  Enforcement may take handles away behind a turn, and takes
away only those that were judged.
-/

/-- Live handles have different addresses and different attachment numbers. -/
structure KbdOK (s : KbdSys) : Prop where
  addrs : (s.live.map InputHandle.addr).Nodup
  atts : (s.live.map InputHandle.att).Nodup
  next : ∀ h ∈ s.live, h.att < s.next
  baselining : s.input.baselining = false

theorem mem_live {s : KbdSys} {h : InputHandle} : h ∈ s.live ↔ ∃ k ∈ s.kbds, h ∈ k.hList :=
  List.mem_flatMap

theorem live_eq_of_att {s : KbdSys} (hok : KbdOK s) {h h' : InputHandle} (hh : h ∈ s.live)
    (hh' : h' ∈ s.live) (hatt : h.att = h'.att) : h = h' :=
  List.inj_on_of_nodup_map hok.atts hh hh' hatt

/-- A handle is on the list of one keyboard only. -/
theorem kbd_unique {s : KbdSys} (hok : KbdOK s) {k k' : KgKbd} (hk : k ∈ s.kbds)
    (hk' : k' ∈ s.kbds) {h : InputHandle} (hh : h ∈ k.hList) (hh' : h ∈ k'.hList) : k = k' := by
  have hdisjoint := (List.nodup_flatMap.mp (List.Nodup.of_map _ hok.addrs)).2
  by_cases hsame : k = k'
  · exact hsame
  · have hsymm : Std.Symm (Function.onFun List.Disjoint KgKbd.hList) := ⟨fun _ _ hd _ ha hb => hd hb ha⟩
    have hapart : List.Disjoint k.hList k'.hList := hdisjoint.forall hk hk' hsame
    exact absurd hh' (hapart hh)

/-- The keyboards already scanned say nothing about the handles of the others. -/
theorem scanTurns_keeps (view : ScanView) (kbds : List KgKbd) {st : KgInput} (done : List KgKbd)
    (hst : st.baselining = false) :
    SameRules st (loop (kgScanTurn view) kbds (st, done)).2.1 ∧
      ∀ addr, (∀ k ∈ kbds, ∀ h ∈ k.hList, h.addr ≠ addr) →
        (loop (kgScanTurn view) kbds (st, done)).2.1.marked addr = st.marked addr := by
  refine loop_invariant
    (P := fun t : KgInput × List KgKbd => SameRules st t.1 ∧
      ∀ addr, (∀ k ∈ kbds, ∀ h ∈ k.hList, h.addr ≠ addr) → t.1.marked addr = st.marked addr) ?_
    ⟨.refl st, fun _ _ => rfl⟩
  intro k hk t ht
  obtain ⟨hrules, hmarked⟩ := scanHandles_keeps view.toKernelView k.gather
    (ht.1.baselining.trans hst)
  refine ⟨ht.1.trans hrules, ?_⟩
  intro addr hne
  refine (hmarked addr ?_).trans (ht.2 addr hne)
  intro hi hmem
  obtain ⟨x, hx, hd, -, rfl⟩ := mem_gather hmem
  exact hne k hk x hx

theorem scanAll_critical_iff {view : ScanView} {s : KbdSys} (hok : KbdOK s) {att : Nat} :
    (∃ a ∈ (kgInputScanAll view s).1, a.CriticalFor att) ↔
      ∃ k ∈ s.kbds, ∃ hi ∈ k.gather, hi.att = att ∧ hi.Alarming s.input := by
  refine exists_mem_loop ?_
  intro pre k post hsplit
  have hlive : (((pre.flatMap KgKbd.hList).map InputHandle.addr) ++
      ((k.hList.map InputHandle.addr) ++ ((post.flatMap KgKbd.hList).map InputHandle.addr))).Nodup := by
    have haddrs := hok.addrs
    unfold KbdSys.live at haddrs
    rw [hsplit] at haddrs
    simpa using haddrs
  obtain ⟨-, hrest, hapart⟩ := List.nodup_append.mp hlive
  obtain ⟨hrules, hmarked⟩ := scanTurns_keeps view pre [] hok.baselining
  refine (kgScanKbd_critical_iff (hrules.baselining.trans hok.baselining)
    (List.nodup_append.mp hrest).1).trans ?_
  refine exists_congr fun hi => and_congr_right fun hmem => and_congr_right fun _ =>
    KgHinfo.Alarming.congr hrules (hmarked hi.handle ?_)
  intro k' hk' x hx heq
  obtain ⟨y, hy, hd, -, rfl⟩ := mem_gather hmem
  refine hapart x.addr ?_ y.addr ?_ heq
  · exact List.mem_map_of_mem (List.mem_flatMap.mpr ⟨k', hk', hx⟩)
  · exact List.mem_append_left _ (List.mem_map_of_mem hy)

/-! ### Runs

Attaching, opening and closing keep live handles at different addresses.  Freed
addresses are given out again, with a new number: that is why an alert counts for
the attachment it was raised for.
-/

/-- A run: the state, and every alert so far. -/
structure KbdRun where
  sys : KbdSys
  log : List KbdAlert

def kbdRunStep (r : KbdRun) (op : KbdOp) : KbdRun :=
  ⟨kbdStep r.sys op, r.log ++ kbdAlerts r.sys op⟩

/-- The module is loaded while `kbds` are there. -/
def kbdRunInit (view : ScanView) (allow : CStr) (kbds : List KgKbd) (next : Nat) : KbdRun :=
  ⟨(kgInputInit view allow kbds next).2, (kgInputInit view allow kbds next).1⟩

/-- A subset of the live handles is as good. -/
theorem KbdOK.sublist {s s' : KbdSys} (h : KbdOK s) (hlive : s'.live.Sublist s.live)
    (hnext : s'.next = s.next) (hbase : s'.input.baselining = false) : KbdOK s' := by
  refine ⟨(hlive.map _).nodup h.addrs, (hlive.map _).nodup h.atts, ?_, hbase⟩
  intro x hx
  rw [hnext]
  exact h.next x (hlive.subset hx)

/-- One handle more, at an address that was free and with the next number. -/
theorem KbdOK.cons {s s' : KbdSys} (h : KbdOK s) {x : InputHandle}
    (hlive : s'.live.Perm (x :: s.live)) (hatt : x.att = s.next) (hnext : s'.next = s.next + 1)
    (hfree : s.inUse x.addr = false) (hinput : s'.input = s.input) : KbdOK s' := by
  refine ⟨?_, ?_, ?_, ?_⟩
  · refine (hlive.map _).nodup_iff.mpr (List.nodup_cons.mpr ⟨?_, h.addrs⟩)
    intro hmem
    obtain ⟨y, hy, heq⟩ := List.mem_map.mp hmem
    unfold KbdSys.inUse at hfree
    rw [List.any_eq_false] at hfree
    exact hfree y hy (by simpa using heq)
  · refine (hlive.map _).nodup_iff.mpr (List.nodup_cons.mpr ⟨?_, h.atts⟩)
    intro hmem
    obtain ⟨y, hy, heq⟩ := List.mem_map.mp hmem
    have hlt := h.next y hy
    omega
  · intro y hy
    rcases List.mem_cons.mp (hlive.mem_iff.mp hy) with rfl | hy
    · omega
    · have hlt := h.next y hy
      omega
  · rw [hinput]
    exact h.baselining

/-- The keyboards after a scan have at most the handles they had. -/
theorem scanTurns_live (view : ScanView) (kbds : List KgKbd) (st : KgInput) (done : List KgKbd) :
    ((loop (kgScanTurn view) kbds (st, done)).2.2.flatMap KgKbd.hList).Sublist
      (done.flatMap KgKbd.hList ++ kbds.flatMap KgKbd.hList) := by
  induction kbds generalizing st done with
  | nil => simp [loop]
  | cons k rest ih =>
      refine (ih (kgScanKbd view k st).2.1 (done ++ [(kgScanKbd view k st).2.2])).trans ?_
      rw [List.flatMap_append, List.flatMap_singleton, List.flatMap_cons, List.append_assoc]
      exact ((kgNeutraliseAll_spec view _ k.gather k).1.append_right _).append_left _

theorem scanAll_ok {view : ScanView} {s : KbdSys} (h : KbdOK s) :
    KbdOK (kgInputScanAll view s).2 := by
  refine h.sublist (scanTurns_live view s.kbds s.input []) rfl ?_
  exact (scanTurns_keeps view s.kbds [] h.baselining).1.baselining.trans h.baselining

theorem live_modify_perm (kbds : List KgKbd) (front : Bool) (x : InputHandle) (i : Nat) :
    ((kbds.modify i fun k => k.attach front x).flatMap KgKbd.hList).Perm (x :: kbds.flatMap KgKbd.hList) ∨
      kbds.modify i (fun k => k.attach front x) = kbds := by
  induction kbds generalizing i with
  | nil => right; simp
  | cons k rest ih =>
      cases i with
      | zero =>
          left
          rw [List.modify_zero_cons, List.flatMap_cons, List.flatMap_cons]
          cases front with
          | true => exact .refl _
          | false =>
              show ((k.hList ++ [x]) ++ rest.flatMap KgKbd.hList).Perm _
              rw [List.append_assoc]
              exact List.perm_middle
      | succ i =>
          rw [List.modify_succ_cons, List.flatMap_cons, List.flatMap_cons]
          rcases ih i with hperm | hsame
          · left
            exact (hperm.append_left _).trans List.perm_middle
          · right
            rw [hsame]

/-- Opening and closing concerns the count only. -/
theorem onHandle_ok {s : KbdSys} (h : KbdOK s) (addr : UInt64) {f : InputHandle → InputHandle}
    (haddr : ∀ x, (f x).addr = x.addr) (hatt : ∀ x, (f x).att = x.att) :
    KbdOK (s.onHandle addr f) := by
  have hlive : (s.onHandle addr f).live = s.live.map fun x => if x.addr = addr then f x else x := by
    unfold KbdSys.live KbdSys.onHandle
    rw [List.flatMap_map, List.map_flatMap]
  have hmap : ∀ {β : Type} (g : InputHandle → β), (∀ x, g (f x) = g x) →
      (s.onHandle addr f).live.map g = s.live.map g := by
    intro β g hg
    rw [hlive, List.map_map]
    refine List.map_congr_left fun x _ => ?_
    show g (if x.addr = addr then f x else x) = g x
    split
    · exact hg x
    · rfl
  refine ⟨?_, ?_, ?_, h.baselining⟩
  · rw [hmap InputHandle.addr haddr]
    exact h.addrs
  · rw [hmap InputHandle.att hatt]
    exact h.atts
  · intro y hy
    have hmem : y.att ∈ s.live.map InputHandle.att := by
      rw [← hmap InputHandle.att hatt]
      exact List.mem_map_of_mem hy
    obtain ⟨x, hx, heq⟩ := List.mem_map.mp hmem
    rw [← heq]
    exact h.next x hx

theorem step_ok {s : KbdSys} (h : KbdOK s) (op : KbdOp) : KbdOK (kbdStep s op) := by
  cases op with
  | connect own self =>
      show KbdOK (if s.inUse own then s else _)
      split
      · exact h
      · rename_i hfree
        refine h.cons (x := ⟨s.next, own, 0, some { self with name := some (str "kernelguard") }⟩) ?_ rfl rfl (by simpa using hfree) rfl
        show ((s.kbds ++ [_]).flatMap KgKbd.hList).Perm _
        rw [List.flatMap_append, List.flatMap_singleton]
        exact List.perm_append_singleton _ _
  | disconnect i => exact h.sublist ((List.eraseIdx_sublist _ _).flatMap _) rfl h.baselining
  | attach i front addr handler =>
      show KbdOK (if s.inUse addr then s else _)
      split
      · exact h
      · rename_i hfree
        rcases live_modify_perm s.kbds front ⟨s.next, addr, 0, handler⟩ i with hperm | hsame
        · exact h.cons hperm rfl rfl (by simpa using hfree) rfl
        · -- there is no such keyboard
          rw [hsame]
          refine ⟨h.addrs, h.atts, ?_, h.baselining⟩
          intro x hx
          exact Nat.lt_succ_of_lt (h.next x hx)
  | opens addr => exact onHandle_ok h addr (fun _ => rfl) (fun _ => rfl)
  | closes addr => exact onHandle_ok h addr (fun _ => rfl) (fun _ => rfl)
  | detach addr =>
      refine h.sublist ?_ rfl h.baselining
      show ((s.kbds.map _).flatMap KgKbd.hList).Sublist _
      rw [List.flatMap_map]
      exact List.Sublist.flatMap_right _ fun k _ => List.filter_sublist
  | scan view => exact scanAll_ok h

theorem init_ok {view : ScanView} {allow : CStr} {kbds : List KgKbd} {next : Nat}
    (haddrs : ((kbds.flatMap KgKbd.hList).map InputHandle.addr).Nodup)
    (hatts : ((kbds.flatMap KgKbd.hList).map InputHandle.att).Nodup)
    (hnext : ∀ h ∈ kbds.flatMap KgKbd.hList, h.att < next) :
    KbdOK (kbdRunInit view allow kbds next).sys := by
  have hfound : KbdOK ⟨kbds, ⟨allow, [], [], false⟩, next⟩ := ⟨haddrs, hatts, hnext, rfl⟩
  exact hfound.sublist (scanTurns_live view kbds ⟨allow, [], [], true⟩ []) rfl rfl

/-! ### Listeners

What has to hold after a scan is turned into what has to hold before it, handle by
handle (`reported_iff_fresh`).  With that the theorem about runs needs only their
invariant.
-/

/-- An open handle on a keyboard, of a handler whose name is not authorised. -/
structure Listening (s : KbdSys) (k : KgKbd) (h : InputHandle) (hd : InputHandler) : Prop where
  kbd : k ∈ s.kbds
  attached : h ∈ k.hList
  handler : h.handler = some hd
  opened : 0 < h.opened
  unauthorised : kgHandlerAuthorised s.input (kgHinfo h hd).name = false

/-- What decides whether the scan itself raises the alert about a listener. -/
theorem scan_critical_iff (view : ScanView) {s : KbdSys} (hok : KbdOK s) {k : KgKbd}
    {h : InputHandle} {hd : InputHandler} (hlisten : Listening s k h hd) :
    (∃ a ∈ (kgInputScanAll view s).1, a.CriticalFor h.att) ↔
      s.input.marked h.addr = false ∧ kgHinfo h hd ∈ k.gather := by
  rw [scanAll_critical_iff hok]
  constructor
  · intro hexists
    obtain ⟨k', hk', hi, hmem, hatt, -, -, hmarked⟩ := hexists
    obtain ⟨x, hx, hd', hhd', rfl⟩ := mem_gather hmem
    -- the attachment number says which handle it was, and so which keyboard
    have hsame : x = h := live_eq_of_att hok (mem_live.mpr ⟨k', hk', hx⟩)
      (mem_live.mpr ⟨k, hlisten.kbd, hlisten.attached⟩) hatt
    subst hsame
    rw [hlisten.handler, Option.some.injEq] at hhd'
    rw [← hhd', kbd_unique hok hk' hlisten.kbd hx hlisten.attached] at hmem
    exact ⟨hmarked, hmem⟩
  · intro hfresh
    exact ⟨k, hlisten.kbd, kgHinfo h hd, hfresh.2, rfl, decide_eq_true hlisten.opened,
      hlisten.unauthorised, hfresh.1⟩

/-- By the end of a scan every listener has been reported as critical. -/
def ListenersReported (r : KbdRun) : KbdOp → Prop
  | .scan view => ∀ k h hd, Listening r.sys k h hd →
      ∃ a ∈ (kbdRunStep r (.scan view)).log, a.CriticalFor h.att
  | _ => True

/--
Before a scan, every listener has been reported as critical, or it is among the handles the scan
gathers and its address has no entry.
-/
def ListenersFresh (r : KbdRun) : KbdOp → Prop
  | .scan _ => ∀ k h hd, Listening r.sys k h hd →
      (∃ a ∈ r.log, a.CriticalFor h.att) ∨
        (r.sys.input.marked h.addr = false ∧ kgHinfo h hd ∈ k.gather)
  | _ => True

theorem reported_iff_fresh {r : KbdRun} (hok : KbdOK r.sys) (op : KbdOp) :
    ListenersReported r op ↔ ListenersFresh r op := by
  cases op with
  | scan view =>
      refine forall_congr' fun k => forall_congr' fun h => forall_congr' fun hd =>
        forall_congr' fun hlisten => ?_
      rw [← scan_critical_iff view hok hlisten]
      show (∃ a ∈ r.log ++ (kgInputScanAll view r.sys).1, a.CriticalFor h.att) ↔ _
      simp only [List.mem_append, or_and_right, exists_or]
  | _ => exact Iff.rfl

theorem listeners_reported_iff (view : ScanView) (allow : CStr) (kbds : List KgKbd) (next : Nat)
    (haddrs : ((kbds.flatMap KgKbd.hList).map InputHandle.addr).Nodup)
    (hatts : ((kbds.flatMap KgKbd.hList).map InputHandle.att).Nodup)
    (hnext : ∀ h ∈ kbds.flatMap KgKbd.hList, h.att < next) (ops : List KbdOp) :
    Along kbdRunStep (kbdRunInit view allow kbds next) ops ListenersReported ↔
      Along kbdRunStep (kbdRunInit view allow kbds next) ops ListenersFresh := by
  have hok : ∀ pre, KbdOK (exec kbdRunStep (kbdRunInit view allow kbds next) pre).sys := by
    intro pre
    exact exec_invariant (P := fun r : KbdRun => KbdOK r.sys) (fun _ op h => step_ok h op)
      (init_ok haddrs hatts hnext) pre
  constructor
  · intro hreported pre op post hsplit
    exact (reported_iff_fresh (hok pre) op).mp (hreported pre op post hsplit)
  · intro hfresh pre op post hsplit
    exact (reported_iff_fresh (hok pre) op).mpr (hfresh pre op post hsplit)

/-! A keyboard with nothing but the module's own handle, and a handler that comes later. -/

def plainView : ScanView where
  readKernel := fun _ _ => none
  symbol := fun _ => str "sniff_event [sniff]"
  enforcing := fun _ => false
  locked := true

def plainKbd : KgKbd :=
  ⟨0x10, [⟨0, 0x10, 0, some ⟨0x1000, some (str "kernelguard"), fun _ => 0⟩⟩]⟩

def sniffHandler : InputHandler := ⟨0x2000, some (str "sniff"), fun _ => 0⟩

def sniffHandle : InputHandle := ⟨1, 0x20, 1, some sniffHandler⟩

def loadedRun : KbdRun := kbdRunInit plainView [] [plainKbd] 1

/-- The handler listens before a scan has seen it. -/
def opensFirst : List KbdOp := [.attach 0 false 0x20 (some sniffHandler), .opens 0x20]

/-- It waits for a scan, and listens then. -/
def opensLater : List KbdOp :=
  [.attach 0 false 0x20 (some sniffHandler), .scan plainView, .opens 0x20]

theorem listeners_reported_iff_opensFirst :
    ∃ a ∈ (exec kbdRunStep loadedRun (opensFirst ++ [.scan plainView])).log, a.CriticalFor 1 := by
  have hfresh : ListenersFresh (exec kbdRunStep loadedRun opensFirst) (.scan plainView) := by
    intro k h hd hlisten
    have hk : k = ⟨0x10, plainKbd.hList ++ [sniffHandle]⟩ := List.mem_singleton.mp hlisten.kbd
    subst hk
    rcases List.mem_append.mp hlisten.attached with hown | hsniff
    · -- the module's own handle is never opened
      rw [List.mem_singleton.mp hown] at hlisten
      exact absurd hlisten.opened (by decide)
    · have hh : h = sniffHandle := List.mem_singleton.mp hsniff
      subst hh
      have hhd : hd = sniffHandler := (Option.some.inj hlisten.handler).symm
      subst hhd
      right
      exact ⟨by decide, List.mem_singleton.mpr rfl⟩
  have halong : Along kbdRunStep loadedRun (opensFirst ++ [.scan plainView]) ListenersFresh :=
    .snoc (.cons trivial (.cons trivial (.nil _ _ _))) hfresh
  have hreported := (listeners_reported_iff plainView [] [plainKbd] 1 (by decide) (by decide)
    (by decide) (opensFirst ++ [KbdOp.scan plainView])).mpr halong opensFirst (.scan plainView) [] rfl
  rw [exec_snoc]
  exact hreported ⟨0x10, plainKbd.hList ++ [sniffHandle]⟩ sniffHandle sniffHandler
    ⟨List.mem_singleton.mpr rfl, List.mem_append_right _ (List.mem_singleton.mpr rfl), rfl,
      by decide, by decide⟩

theorem late_listener_not_reported :
    ¬ ∀ ops : List KbdOp, Along kbdRunStep loadedRun ops ListenersReported := by
  intro hall
  obtain ⟨a, ha, hcrit⟩ := hall (opensLater ++ [.scan plainView]) opensLater (.scan plainView) [] rfl
    ⟨0x10, plainKbd.hList ++ [sniffHandle]⟩ sniffHandle sniffHandler
    ⟨List.mem_singleton.mpr rfl, List.mem_append_right _ (List.mem_singleton.mpr rfl), rfl,
      by decide, by decide⟩
  have hlog : ((exec kbdRunStep loadedRun (opensLater ++ [.scan plainView])).log.map
      fun a => a.alert.level) = [kgLevelWatch] := by
    decide
  rw [exec_snoc] at hlog
  have hlevel := List.mem_map_of_mem (f := fun a : KbdAlert => a.alert.level) ha
  rw [hlog, List.mem_singleton, hcrit.2.2] at hlevel
  exact absurd hlevel (by decide)

end KernelGuard
