/-
The table of helper processes over all runs.

What the table is for is a finite map: which helpers the monitor has to wait for, and until
when each may run.  `HelperInv` says that the cells represent such a map, and that its keys are
exactly the ids that belong to helpers, a helper apart that was forked just now.  A key is
dropped in the same step in which `waitpid` gives the id back, and so an id in the table is
never somebody else's.

The second half is about one pass of `children_reap`, with whatever happens meanwhile: `ReapPass`
has the slots that the pass has not come to as they were, and says what it did about those
behind it.
-/
import KernelGuard.Model.Helpers
import KernelGuard.Lib.Slots
import KernelGuard.Lib.Run

namespace KernelGuard

/-- The steps, one after the other. -/
def helperRun (s : HelperState) (acts : List HelperMove) : List HelperEvent × HelperState :=
  Run.loop (fun a s => helperStep s a) acts s

theorem helperRun_snoc (s : HelperState) (acts : List HelperMove) (a : HelperMove) :
    helperRun s (acts ++ [a]) =
      ((helperRun s acts).1 ++ (helperStep (helperRun s acts).2 a).1,
        (helperStep (helperRun s acts).2 a).2) := by
  unfold helperRun Run.loop
  rw [Run.outputs_snoc, Run.exec_snoc]

/-! ### The invariant

The library's table is about cells with keys; here the key of a cell is the id of a
process, and the map behind it has the deadlines.  An id changes hands only when it
belongs to nobody, and a helper's id belongs to the helper until it is waited for,
so the system cannot give it to another process while it is in the table.
-/

/-- The table as cells with keys. -/
def helperRows (children : Children) : Fin maxChildren → Option (Nat × UInt64 × CStr) :=
  fun i => (children i).map fun c => (c.pid, c.deadline, c.name)

theorem helperRows_of {children : Children} {i : Fin maxChildren} {c : Child}
    (h : children i = some c) : helperRows children i = some (c.pid, c.deadline, c.name) := by
  rw [helperRows, h]
  rfl

theorem helperRows_update (children : Children) (i : Fin maxChildren) (c : Option Child) :
    helperRows (Function.update children i c)
      = Function.update (helperRows children) i (c.map fun c => (c.pid, c.deadline, c.name)) := by
  funext j
  by_cases hj : j = i
  · subst hj
    simp [helperRows]
  · simp [helperRows, hj]

/-- The helper that was forked and is not in the table yet. -/
def HelperAt.pending : HelperAt → Option Nat
  | .track _ pid _ _ => some pid
  | _ => none

/-- What the place of the monitor says about the table. -/
def HelperAt.Fits (children : Children) : HelperAt → Prop
  | .idle | .wait _ => True
  | .fork slot _ _ | .track slot _ _ _ => children slot = none
  | .late i | .killGroup i | .kill i | .rearm i => children i ≠ none

/-- The table is the map `g` of the helpers to wait for, and every other id is not a helper's. -/
structure HelperInv (s : HelperState) (g : Nat → Option (UInt64 × CStr)) : Prop where
  table : Slots.Represents (helperRows s.children) g
  mine : ∀ pid, (s.use pid).mine = true ↔ g pid ≠ none ∨ s.at_.pending = some pid
  fresh : ∀ pid, s.at_.pending = some pid → g pid = none
  fits : s.at_.Fits s.children

theorem HelperInv.start (others : Nat → Bool) :
    HelperInv (.start others) fun _ => none where
  table := .empty
  mine pid := by
    cases h : others pid <;> simp [HelperState.start, h, PidUse.mine, HelperAt.pending]
  fresh _ h := by simp [HelperState.start, HelperAt.pending] at h
  fits := trivial

section Steps

variable {s : HelperState} {g : Nat → Option (UInt64 × CStr)}

/-- A helper in the table has its own id. -/
theorem HelperInv.mine_of_child (h : HelperInv s g) {i : Fin maxChildren} {c : Child}
    (hi : s.children i = some c) : (s.use c.pid).mine = true := by
  have hg : g c.pid = some (c.deadline, c.name) := h.table.get.mpr ⟨i, helperRows_of hi⟩
  exact (h.mine c.pid).mpr (.inl (by simp [hg]))

/-- The monitor goes on without a change to the table or the ids. -/
theorem HelperInv.goTo (h : HelperInv s g) {p : HelperAt} (hp : s.at_.pending = none)
    (hp' : p.pending = none) (hfits : p.Fits s.children) : HelperInv { s with at_ := p } g where
  table := h.table
  mine pid := by
    rw [h.mine pid, hp, hp']
  fresh pid hpid := by
    rw [hp'] at hpid
    simp at hpid
  fits := hfits

/-- An id changes hands, but not between a helper and another. -/
theorem HelperInv.setUse (h : HelperInv s g) {pid : Nat} {u : PidUse}
    (hu : u.mine = (s.use pid).mine) : HelperInv (s.setUse pid u) g where
  table := h.table
  mine p := by
    refine Iff.trans ?_ (h.mine p)
    by_cases hp : p = pid
    · simp only [HelperState.setUse, hp, Function.update_self, hu]
    · simp only [HelperState.setUse, Function.update_of_ne hp]
  fresh := h.fresh
  fits := h.fits

theorem childFreeSlot_some {children : Children} {slot : Fin maxChildren}
    (h : childFreeSlot children = some slot) : children slot = none := by
  simpa using List.find?_some h

/-- `fork`: the new id was nobody's. -/
theorem HelperInv.forked (h : HelperInv s g) {slot : Fin maxChildren} {timeoutS : UInt32}
    {name : CStr} {pid : Nat} (hat : s.at_ = .fork slot timeoutS name) (hfree : s.use pid = .free) :
    HelperInv { s.setUse pid .running with at_ := .track slot pid timeoutS name } g := by
  have hpend : s.at_.pending = none := by rw [hat]; rfl
  have hfits := h.fits
  rw [hat] at hfits
  have hnone : g pid = none := by
    by_contra hg
    have := (h.mine pid).mpr (.inl hg)
    rw [hfree] at this
    contradiction
  refine ⟨h.table, fun p => ?_, fun p hp => ?_, hfits⟩
  · by_cases hp : p = pid
    · subst hp
      simp [HelperState.setUse, HelperAt.pending, PidUse.mine]
    · have hmine := h.mine p
      rw [hpend] at hmine
      simpa [HelperState.setUse, HelperAt.pending, hp, Ne.symm hp] using hmine
  · obtain rfl : pid = p := by simpa [HelperAt.pending] using hp
    exact hnone

/-- `child_track`. -/
theorem HelperInv.tracked (h : HelperInv s g) {slot : Fin maxChildren} {pid : Nat}
    {timeoutS : UInt32} {name : CStr} (hat : s.at_ = .track slot pid timeoutS name)
    (now : UInt64) :
    ∃ g', HelperInv { s.childTrack slot pid timeoutS name now with at_ := .idle } g' := by
  have hfits := h.fits
  rw [hat] at hfits
  have hnone := h.fresh pid (by rw [hat]; rfl)
  have hfree : helperRows s.children slot = none := by
    rw [helperRows, show s.children slot = none from hfits]
    rfl
  refine ⟨Function.update g pid (some (now + timeoutS.toUInt64, name.take (kgpNameLen - 1))),
    ?_, fun p => ?_, fun p hp => by simp [HelperAt.pending] at hp, trivial⟩
  · simp only [HelperState.childTrack, HelperState.setChild]
    rw [helperRows_update]
    exact h.table.put (.inr ⟨hfree, hnone⟩) _
  · have hmine := h.mine p
    rw [hat] at hmine
    by_cases hp : p = pid
    · subst hp
      simpa [HelperState.childTrack, HelperState.setChild, HelperAt.pending] using hmine
    · simpa [HelperState.childTrack, HelperState.setChild, HelperAt.pending, hp, Ne.symm hp]
        using hmine

/-- `waitpid` gives a helper's id back, and the slot is free. -/
theorem HelperInv.reaped (h : HelperInv s g) {i : Fin maxChildren} {c : Child} {n : Nat}
    (hat : s.at_ = .wait i) (hi : s.children i = some c) :
    ∃ g', HelperInv { (s.setChild i none).setUse c.pid .free with at_ := .wait n } g' := by
  refine ⟨Function.update g c.pid none, ?_, fun p => ?_,
    fun p hp => by simp [HelperAt.pending] at hp, trivial⟩
  · simp only [HelperState.setChild, HelperState.setUse]
    rw [helperRows_update]
    exact h.table.drop (helperRows_of hi)
  · have hmine := h.mine p
    rw [hat] at hmine
    by_cases hp : p = c.pid
    · subst hp
      simp [HelperState.setUse, HelperState.setChild, HelperAt.pending, PidUse.mine]
    · simpa [HelperState.setUse, HelperState.setChild, HelperAt.pending, hp] using hmine

/-- A new deadline for a helper that does not end. -/
theorem HelperInv.rearmed (h : HelperInv s g) {i : Fin maxChildren} {c : Child}
    (hat : s.at_ = .rearm i) (hi : s.children i = some c) (deadline : UInt64) (n : Nat) :
    ∃ g', HelperInv
      { s.setChild i (some { c with deadline := deadline }) with at_ := .wait n } g' := by
  have hg : g c.pid = some (c.deadline, c.name) := h.table.get.mpr ⟨i, helperRows_of hi⟩
  refine ⟨Function.update g c.pid (some (deadline, c.name)), ?_, fun p => ?_,
    fun p hp => by simp [HelperAt.pending] at hp, trivial⟩
  · simp only [HelperState.setChild]
    rw [helperRows_update]
    exact h.table.put (.inl ⟨_, helperRows_of hi⟩) _
  · have hmine := h.mine p
    rw [hat] at hmine
    by_cases hp : p = c.pid
    · subst hp
      simpa [HelperState.setChild, HelperAt.pending, hg] using hmine
    · simpa [HelperState.setChild, HelperAt.pending, hp] using hmine

theorem HelperInv.waitFor (h : HelperInv s g) {i : Fin maxChildren} {c : Child}
    (hat : s.at_ = .wait i) (hi : s.children i = some c) : ∃ g', HelperInv (s.waitFor i c).2 g' := by
  have hmine := h.mine_of_child hi
  unfold HelperState.waitFor
  split
  · exact ⟨g, h.goTo (by rw [hat]; rfl) rfl (by simp [HelperAt.Fits, hi])⟩
  · exact h.reaped hat hi
  · rename_i hu
    rw [hu] at hmine
    contradiction
  · rename_i hu
    rw [hu] at hmine
    contradiction

theorem HelperInv.overdue (h : HelperInv s g) {i : Fin maxChildren} {c : Child} (now : UInt64)
    (hi : s.children i = some c)
    (hat : s.at_ = .late i ∨ s.at_ = .killGroup i ∨ s.at_ = .kill i ∨ s.at_ = .rearm i) :
    ∃ g', HelperInv (s.overdue now c s.at_).2 g' := by
  have hfits {p : HelperAt} (hp : p = .killGroup i ∨ p = .kill i ∨ p = .rearm i) :
      p.Fits s.children := by
    rcases hp with rfl | rfl | rfl <;> simp [HelperAt.Fits, hi]
  rcases hat with hat | hat | hat | hat <;> rw [hat]
  · simp only [HelperState.overdue]
    split
    · exact ⟨g, h.goTo (by rw [hat]; rfl) rfl (hfits (.inl rfl))⟩
    · exact ⟨g, h.goTo (by rw [hat]; rfl) rfl trivial⟩
  · exact ⟨g, h.goTo (by rw [hat]; rfl) rfl (hfits (.inr (.inl rfl)))⟩
  · exact ⟨g, h.goTo (by rw [hat]; rfl) rfl (hfits (.inr (.inr rfl)))⟩
  · exact h.rearmed hat hi _ _

theorem HelperInv.next (h : HelperInv s g) (now : UInt64) : ∃ g', HelperInv (s.next now).2 g' := by
  unfold HelperState.next
  split
  case h_1 => exact ⟨g, h⟩
  case h_2 => exact ⟨g, h⟩
  case h_3 slot pid timeoutS name hat => exact h.tracked hat now
  case h_4 i hat =>
    split
    case isTrue hlt =>
      split
      · exact ⟨g, h.goTo (by rw [hat]; rfl) rfl trivial⟩
      · rename_i c hi
        exact h.waitFor hat hi
    case isFalse => exact ⟨g, h.goTo (by rw [hat]; rfl) rfl trivial⟩
  all_goals
    rename_i i hat
    split
    · exact ⟨g, h⟩
    · rename_i c hi
      exact h.overdue now hi (by simp [hat])

theorem HelperInv.step (h : HelperInv s g) (a : HelperMove) :
    ∃ g', HelperInv (helperStep s a).2 g' := by
  cases a with
  | exit pid st =>
      simp only [helperStep]
      split
      case isTrue hu => exact ⟨g, h.setUse (by rw [hu]; rfl)⟩
      case isFalse => exact ⟨g, h⟩
  | begins pid =>
      simp only [helperStep]
      split
      case isTrue hu => exact ⟨g, h.setUse (by rw [hu]; rfl)⟩
      case isFalse => exact ⟨g, h⟩
  | ends pid =>
      simp only [helperStep]
      split
      case isTrue hu => exact ⟨g, h.setUse (by rw [hu]; rfl)⟩
      case isFalse => exact ⟨g, h⟩
  | spawn timeoutS name =>
      simp only [helperStep]
      split
      case h_1 hat =>
        split
        · exact ⟨g, h⟩
        · rename_i slot hslot
          exact ⟨g, h.goTo (by rw [hat]; rfl) rfl (childFreeSlot_some hslot)⟩
      case h_2 => exact ⟨g, h⟩
  | forked pid =>
      simp only [helperStep]
      split
      case h_1 hat => exact ⟨g, h.goTo (by rw [hat]; rfl) rfl trivial⟩
      case h_2 hat =>
        split
        case isTrue hu => exact ⟨g, h.forked hat hu⟩
        case isFalse => exact ⟨g, h⟩
      case h_3 => exact ⟨g, h⟩
  | reap =>
      simp only [helperStep]
      split
      case h_1 hat => exact ⟨g, h.goTo (by rw [hat]; rfl) rfl trivial⟩
      case h_2 => exact ⟨g, h⟩
  | step now => exact h.next now

/-! ### Kills

A signal is sent to an id that was read from the table.  What is killed is therefore
a helper by the invariant, and nothing has to be known about the step that sends it
but where it took the id from.
-/

/-- The events of a step: what is killed is a helper. -/
def KillsMine (es : List HelperEvent) : Prop := ∀ pid hit, .kill pid hit ∈ es → hit.mine = true

theorem KillsMine.nil : KillsMine [] := by simp [KillsMine]

theorem KillsMine.append {es es' : List HelperEvent} (h : KillsMine es) (h' : KillsMine es') :
    KillsMine (es ++ es') := by
  intro pid hit hk
  rcases List.mem_append.mp hk with hk | hk
  · exact h pid hit hk
  · exact h' pid hit hk

theorem waitFor_kills (s : HelperState) (i : Fin maxChildren) (c : Child) :
    KillsMine (s.waitFor i c).1 := by
  unfold HelperState.waitFor KillsMine
  split
  · simp
  · split <;> simp
  · simp
  · simp

theorem HelperInv.overdue_kills (h : HelperInv s g) {i : Fin maxChildren} {c : Child} (now : UInt64)
    (hi : s.children i = some c) (p : HelperAt) : KillsMine (s.overdue now c p).1 := by
  have hmine := h.mine_of_child hi
  unfold HelperState.overdue KillsMine
  split
  · split <;> simp
  · simp only [List.mem_singleton, HelperEvent.kill.injEq]
    rintro pid hit ⟨-, rfl⟩
    exact hmine
  · simp only [List.mem_singleton, HelperEvent.kill.injEq]
    rintro pid hit ⟨-, rfl⟩
    exact hmine
  · simp
  · simp

theorem HelperInv.next_kills (h : HelperInv s g) (now : UInt64) : KillsMine (s.next now).1 := by
  unfold HelperState.next
  split
  case h_1 => exact .nil
  case h_2 => exact .nil
  case h_3 => simp [KillsMine]
  case h_4 =>
    split
    · split
      · exact .nil
      · exact waitFor_kills _ _ _
    · exact .nil
  all_goals
    split
    · exact .nil
    · rename_i c hi
      exact h.overdue_kills now hi _

theorem HelperInv.step_kills (h : HelperInv s g) (a : HelperMove) :
    KillsMine (helperStep s a).1 := by
  cases a with
  | exit | begins | ends => exact .nil
  | spawn timeoutS name =>
      simp only [helperStep]
      split
      · split
        · simp [KillsMine]
        · exact .nil
      · exact .nil
  | forked pid =>
      simp only [helperStep]
      split
      · simp [KillsMine]
      · split <;> exact .nil
      · exact .nil
  | reap =>
      simp only [helperStep]
      split <;> exact .nil
  | step now => exact h.next_kills now

/-! ### What the invariant says

The map is not part of any statement: its keys are the helpers that were not waited
for, so they can be counted and looked up in the table without it.
-/

theorem HelperInv.distinct (h : HelperInv s g) {i j : Fin maxChildren} {c d : Child}
    (hi : s.children i = some c) (hj : s.children j = some d) (hpid : c.pid = d.pid) : i = j :=
  h.table.distinct (helperRows_of hi) (by rw [hpid]; exact helperRows_of hj)

/-- Every helper that was not waited for is in the table, or about to be. -/
theorem HelperInv.tracked_of_mine (h : HelperInv s g) {pid : Nat} (hp : (s.use pid).mine = true) :
    (∃ i c, s.children i = some c ∧ c.pid = pid) ∨ s.at_.pending = some pid := by
  rcases (h.mine pid).mp hp with hg | hpend
  · obtain ⟨v, hv⟩ := Option.ne_none_iff_exists'.mp hg
    obtain ⟨i, hi⟩ := h.table.get.mp hv
    simp only [helperRows, Option.map_eq_some_iff, Prod.mk.injEq] at hi
    obtain ⟨c, hc, hpid, -⟩ := hi
    exact .inl ⟨i, c, hc, hpid⟩
  · exact .inr hpend

/-- There are never more helpers than slots: a slot is kept for the one that is forked. -/
theorem HelperInv.card_le (h : HelperInv s g) {S : Finset Nat}
    (hS : ∀ pid ∈ S, (s.use pid).mine = true) : S.card ≤ maxChildren := by
  cases hpend : s.at_.pending with
  | none =>
      refine h.table.card_le fun pid hp => ?_
      simpa [hpend] using (h.mine pid).mp (hS pid hp)
  | some pid =>
      obtain ⟨slot, timeoutS, name, hat⟩ :
          ∃ slot timeoutS name, s.at_ = .track slot pid timeoutS name := by
        cases hat : s.at_ <;> simp_all [HelperAt.pending]
      have hfits := h.fits
      rw [hat] at hfits
      have hfree : helperRows s.children slot = none := by
        rw [helperRows, show s.children slot = none from hfits]
        rfl
      have hput := h.table.put (.inr ⟨hfree, h.fresh pid hpend⟩) ((0 : UInt64), ([] : CStr))
      refine hput.card_le fun p hp => ?_
      by_cases hpp : p = pid
      · simp [hpp]
      · have := (h.mine p).mp (hS p hp)
        simpa [hpend, hpp, Ne.symm hpp] using this

theorem HelperInv.run (others : Nat → Bool) (acts : List HelperMove) :
    (∃ g, HelperInv (helperRun (.start others) acts).2 g) ∧
      KillsMine (helperRun (.start others) acts).1 := by
  induction acts using List.reverseRecOn with
  | nil => exact ⟨⟨_, .start others⟩, .nil⟩
  | append_singleton acts a ih =>
      obtain ⟨⟨g, h⟩, hkills⟩ := ih
      rw [helperRun_snoc]
      exact ⟨h.step a, hkills.append (h.step_kills a)⟩

end Steps

/-- The monitor's `spawn`, which is one step there, is three steps here with nothing between them. -/
theorem spawn_steps (host : Host) (pass : Nat) (timeoutS : UInt32) (name : CStr) (m : Monitor)
    (use : Nat → PidUse) (hname : name.length ≤ kgpNameLen - 1)
    (hfork : ∀ pid, host.fork m.forks = some pid → use pid = .free) :
    (m.spawn host pass timeoutS name).2.children =
      (helperRun ⟨m.children, use, .idle⟩
        [.spawn timeoutS name, .forked (host.fork m.forks), .step (host.monoS pass)]).2.children := by
  cases hslot : childFreeSlot m.children with
  | none =>
      simp [Monitor.spawn, hslot, helperRun, Run.loop, helperStep, HelperState.next]
  | some slot =>
      cases hpid : host.fork m.forks with
      | none => simp [Monitor.spawn, hslot, hpid, helperRun, Run.loop, helperStep, HelperState.next]
      | some pid =>
          simp [Monitor.spawn, hslot, hpid, helperRun, Run.loop, helperStep, HelperState.next,
            hfork pid hpid, HelperState.childTrack, HelperState.setChild, HelperState.setUse,
            List.take_of_length_le hname]

/-- Over every run, with helpers that end and ids that are given out again at any moment: whatever
is killed is a helper that was not waited for, every such helper is in one slot of the table or
about to be put there, every slot holds one, and there are never more than 32. -/
theorem helper_table (others : Nat → Bool) (acts : List HelperMove) :
    let (out, s) := helperRun (.start others) acts
    (∀ pid hit, .kill pid hit ∈ out → hit.mine = true) ∧
      (∀ pid, (s.use pid).mine = true →
        (∃ i c, s.children i = some c ∧ c.pid = pid) ∨ s.at_.pending = some pid) ∧
      (∀ i c, s.children i = some c → (s.use c.pid).mine = true) ∧
      (∀ i j c d, s.children i = some c → s.children j = some d → c.pid = d.pid → i = j) ∧
      ∀ S : Finset Nat, (∀ pid ∈ S, (s.use pid).mine = true) → S.card ≤ maxChildren := by
  obtain ⟨⟨g, h⟩, hkills⟩ := HelperInv.run others acts
  exact ⟨hkills, fun _ => h.tracked_of_mine, fun _ _ => h.mine_of_child,
    fun _ _ _ _ => h.distinct, fun _ => h.card_le⟩

/-! ### One pass of `children_reap`

The slots are visited in order, each once.  In front of the pass the table is as it
was when the pass began, since nothing else is called meanwhile; behind it every
helper has been served, and being served is not undone by what happens outside.
-/

/-- The first slot the pass is not done with. -/
def HelperAt.slot : HelperAt → Nat
  | .wait i => i
  | .late i | .killGroup i | .kill i | .rearm i => i
  | _ => maxChildren

/-- The monitor is in the pass, or behind it. -/
def HelperAt.inPass : HelperAt → Bool
  | .fork _ _ _ | .track _ _ _ _ => false
  | _ => true

/-- What happens during a pass: nothing else is called meanwhile. -/
def HelperMove.inPass : HelperMove → Bool
  | .exit _ _ | .begins _ | .ends _ | .step _ => true
  | .spawn _ _ | .forked _ | .reap => false

/-- A clock that is read shows at least `t`. -/
def HelperMove.notBefore (t : UInt64) : HelperMove → Prop
  | .step now => t ≤ now
  | _ => True

/-- What the pass has to do about a helper: it is waited for if it had ended, and it is killed if
it was overdue, unless it ended meanwhile and was waited for. -/
structure Served (acts : List HelperMove) (use : PidUse) (c : Child) (out : List HelperEvent) :
    Prop where
  ended : ∀ st, use = .ended st → .reaped c.pid st ∈ out
  overdue : (∀ a ∈ acts, a.notBefore c.deadline) →
    (∃ st, .reaped c.pid st ∈ out) ∨ ∃ hit, .kill c.pid hit ∈ out

theorem Served.mono {acts : List HelperMove} {use : PidUse} {c : Child} {out : List HelperEvent}
    (h : Served acts use c out) (a : HelperMove) (es : List HelperEvent) :
    Served (acts ++ [a]) use c (out ++ es) where
  ended st hst := List.mem_append_left _ (h.ended st hst)
  overdue hacts := by
    rcases h.overdue fun b hb => hacts b (List.mem_append_left _ hb) with ⟨st, hst⟩ | ⟨hit, hhit⟩
    · exact .inl ⟨st, List.mem_append_left _ hst⟩
    · exact .inr ⟨hit, List.mem_append_left _ hhit⟩

/-- A pass that began in `s₀`. -/
structure ReapPass (s₀ s : HelperState) (acts : List HelperMove) (out : List HelperEvent) :
    Prop where
  ours : ∃ g, HelperInv s g
  place : s.at_.inPass = true
  /-- The slots in front of the pass are as they were, -/
  ahead : ∀ j : Fin maxChildren, s.at_.slot ≤ j → s.children j = s₀.children j
  /-- and who had ended there has not been waited for. -/
  unwaited : ∀ (j : Fin maxChildren) c st, s.at_.slot ≤ j → s₀.children j = some c →
    s₀.use c.pid = .ended st → s.use c.pid = .ended st
  /-- The helper of the slot the pass is in was running. -/
  runs : ∀ i c st, s.at_ = .late i ∨ s.at_ = .killGroup i ∨ s.at_ = .kill i ∨ s.at_ = .rearm i →
    s₀.children i = some c → s₀.use c.pid ≠ .ended st
  killed : ∀ i c, s.at_ = .rearm i → s₀.children i = some c → ∃ hit, .kill c.pid hit ∈ out
  behind : ∀ (j : Fin maxChildren) c, j < s.at_.slot → s₀.children j = some c →
    Served acts (s₀.use c.pid) c out

section Pass

variable {s₀ s : HelperState} {acts : List HelperMove} {out : List HelperEvent}

theorem ReapPass.start {g : Nat → Option (UInt64 × CStr)} (h : HelperInv s₀ g)
    (hat : s₀.at_ = .wait 0) : ReapPass s₀ s₀ [] [] where
  ours := ⟨g, h⟩
  place := by rw [hat]; rfl
  ahead _ _ := rfl
  unwaited _ _ _ _ _ hst := hst
  runs := by simp [hat]
  killed := by simp [hat]
  behind := by simp [hat, HelperAt.slot]

/-- Something happens outside of the monitor. -/
theorem ReapPass.outside (h : ReapPass s₀ s acts out) {pid : Nat} {u : PidUse}
    (hmine : u.mine = (s.use pid).mine) (hended : ∀ st, s.use pid ≠ .ended st) (a : HelperMove) :
    ReapPass s₀ (s.setUse pid u) (acts ++ [a]) (out ++ []) where
  ours := by
    obtain ⟨g, hg⟩ := h.ours
    exact ⟨g, hg.setUse hmine⟩
  place := h.place
  ahead := h.ahead
  unwaited j c st hj hc hst := by
    have hu := h.unwaited j c st hj hc hst
    have hne : c.pid ≠ pid := by
      rintro rfl
      exact hended st hu
    simpa only [HelperState.setUse, Function.update_of_ne hne] using hu
  runs := h.runs
  killed i c hat hc := by
    rw [List.append_nil]
    exact h.killed i c hat hc
  behind j c hj hc := (h.behind j c hj hc).mono a []

/-- Nothing happens. -/
theorem ReapPass.stay (h : ReapPass s₀ s acts out) (a : HelperMove) :
    ReapPass s₀ s (acts ++ [a]) (out ++ []) :=
  ⟨h.ours, h.place, h.ahead, h.unwaited, h.runs, by rw [List.append_nil]; exact h.killed,
    fun j c hj hc => (h.behind j c hj hc).mono a []⟩

/-- The pass goes on inside of slot `i`. -/
theorem ReapPass.inside (h : ReapPass s₀ s acts out) {i : Fin maxChildren} {p : HelperAt}
    (hslot : s.at_.slot = i) (hp : p = .late i ∨ p = .killGroup i ∨ p = .kill i ∨ p = .rearm i)
    (hours : ∃ g, HelperInv { s with at_ := p } g)
    (hruns : ∀ c st, s₀.children i = some c → s₀.use c.pid ≠ .ended st) (a : HelperMove)
    (es : List HelperEvent)
    (hkilled : p = .rearm i → ∀ c, s₀.children i = some c → ∃ hit, .kill c.pid hit ∈ es) :
    ReapPass s₀ { s with at_ := p } (acts ++ [a]) (out ++ es) := by
  have hslot' : p.slot = i := by
    rcases hp with rfl | rfl | rfl | rfl <;> rfl
  have hsame : p.slot = s.at_.slot := hslot'.trans hslot.symm
  have hplace : p.inPass = true := by
    rcases hp with rfl | rfl | rfl | rfl <;> rfl
  have hi (i' : Fin maxChildren)
      (hp' : p = .late i' ∨ p = .killGroup i' ∨ p = .kill i' ∨ p = .rearm i') : i' = i := by
    rcases hp' with rfl | rfl | rfl | rfl <;> exact Fin.ext hslot'
  refine ⟨hours, hplace, fun j hj => h.ahead j (hsame ▸ hj),
    fun j c st hj => h.unwaited j c st (hsame ▸ hj), fun i' c st hp' hc => ?_,
    fun i' c hp' hc => ?_, fun j c hj hc => (h.behind j c (hsame ▸ hj) hc).mono a es⟩
  · rw [hi i' hp'] at hc
    exact hruns c st hc
  · obtain rfl := hi i' (by simp [show p = .rearm i' from hp'])
    obtain ⟨hit, hhit⟩ := hkilled hp' c hc
    exact ⟨hit, List.mem_append_right _ hhit⟩

/-- The pass is done with slot `i`. -/
theorem ReapPass.advance (h : ReapPass s₀ s acts out) {i : Fin maxChildren} {s' : HelperState}
    (hslot : s.at_.slot = i) (hat : s'.at_ = .wait (i + 1)) (hours : ∃ g, HelperInv s' g)
    (hahead : ∀ j, j ≠ i → s'.children j = s.children j)
    (huse : ∀ (j : Fin maxChildren) c, j ≠ i → s.children j = some c → s'.use c.pid = s.use c.pid)
    (a : HelperMove) (es : List HelperEvent)
    (hserved : ∀ c, s₀.children i = some c →
      Served (acts ++ [a]) (s₀.use c.pid) c (out ++ es)) :
    ReapPass s₀ s' (acts ++ [a]) (out ++ es) := by
  have hne {j : Fin maxChildren} (hj : s'.at_.slot ≤ j) : j ≠ i ∧ s.at_.slot ≤ j := by
    rw [hat] at hj
    have hj' : (i : Nat) + 1 ≤ j := hj
    refine ⟨?_, by omega⟩
    rintro rfl
    omega
  refine ⟨hours, by rw [hat]; rfl, fun j hj => ?_, fun j c st hj hc hst => ?_, by simp [hat],
    by simp [hat], fun j c hj hc => ?_⟩
  · obtain ⟨hji, hj'⟩ := hne hj
    exact (hahead j hji).trans (h.ahead j hj')
  · obtain ⟨hji, hj'⟩ := hne hj
    rw [huse j c hji ((h.ahead j hj').trans hc)]
    exact h.unwaited j c st hj' hc hst
  · by_cases hji : j = i
    · rw [hji] at hc
      exact hserved c hc
    · rw [hat] at hj
      have hj' : (j : Nat) < i + 1 := hj
      have hji' : (j : Nat) ≠ i := fun heq => hji (Fin.ext heq)
      exact (h.behind j c (by omega) hc).mono a es

/-- The `waitpid` of a slot. -/
theorem ReapPass.waitFor (h : ReapPass s₀ s acts out) {i : Fin maxChildren} {c : Child}
    (hat : s.at_ = .wait i) (hi : s.children i = some c) (a : HelperMove) :
    ReapPass s₀ (s.waitFor i c).2 (acts ++ [a]) (out ++ (s.waitFor i c).1) := by
  obtain ⟨g, hg⟩ := h.ours
  have hslot : s.at_.slot = i := by
    rw [hat]
    rfl
  have hmine := hg.mine_of_child hi
  have hstart : s₀.children i = some c := (h.ahead i hslot.le).symm.trans hi
  have hstate := hg.waitFor hat hi
  unfold HelperState.waitFor at hstate ⊢
  split at hstate
  case h_1 hu =>
    refine h.inside hslot (.inl rfl) hstate (fun c' st hc' hst => ?_) a [] (by simp)
    have := h.unwaited i c' st hslot.le hc' hst
    rw [hstart] at hc'
    obtain rfl := Option.some.inj hc'
    rw [hu] at this
    contradiction
  case h_2 st hu =>
    refine h.advance hslot rfl hstate (fun j hj => ?_) (fun j d hj hd => ?_) a _
      fun c' hc' => ⟨fun st' hst' => ?_, fun _ => .inl ⟨st, ?_⟩⟩
    · simp only [HelperState.setUse, HelperState.setChild, Function.update_of_ne hj]
    · -- Another slot has another id.
      have hne : d.pid ≠ c.pid := fun heq => hj (hg.distinct hd hi heq)
      simp only [HelperState.setUse, HelperState.setChild, Function.update_of_ne hne]
    · rw [hstart] at hc'
      obtain rfl := Option.some.inj hc'
      have := h.unwaited i c st' hslot.le hstart hst'
      rw [hu, PidUse.ended.injEq] at this
      rw [this]
      exact List.mem_append_right _ List.mem_cons_self
    · rw [hstart] at hc'
      obtain rfl := Option.some.inj hc'
      exact List.mem_append_right _ List.mem_cons_self
  case h_3 hu =>
    rw [hu] at hmine
    contradiction
  case h_4 hu =>
    rw [hu] at hmine
    contradiction

/-- A step behind the `waitpid`. -/
theorem ReapPass.overdue (h : ReapPass s₀ s acts out) {i : Fin maxChildren} {c : Child}
    {now : UInt64} (hi : s.children i = some c)
    (hat : s.at_ = .late i ∨ s.at_ = .killGroup i ∨ s.at_ = .kill i ∨ s.at_ = .rearm i) :
    ReapPass s₀ (s.overdue now c s.at_).2 (acts ++ [.step now]) (out ++ (s.overdue now c s.at_).1) := by
  obtain ⟨g, hg⟩ := h.ours
  have hslot : s.at_.slot = i := by
    rcases hat with hat | hat | hat | hat <;> rw [hat] <;> rfl
  have hstart : s₀.children i = some c := (h.ahead i hslot.le).symm.trans hi
  have hruns (c' : Child) (st : ExitStatus) (hc' : s₀.children i = some c') :
      s₀.use c'.pid ≠ .ended st := h.runs i c' st hat hc'
  have hstate := hg.overdue now hi hat
  rcases hat with hat | hat | hat | hat <;> rw [hat] at hstate ⊢
  · simp only [HelperState.overdue] at hstate ⊢
    split at hstate
    case isTrue hnow =>
      rw [if_pos hnow]
      exact h.inside hslot (.inr (.inl rfl)) hstate hruns _ _ (by simp)
    case isFalse hnow =>
      rw [if_neg hnow]
      refine h.advance hslot rfl hstate (fun _ _ => rfl) (fun _ _ _ _ => rfl) _ _ fun c' hc' =>
        ⟨fun st hst => absurd hst (hruns c' st hc'), fun hacts => ?_⟩
      rw [hstart] at hc'
      obtain rfl := Option.some.inj hc'
      exact absurd (hacts (.step now) (by simp)) hnow
  · exact h.inside hslot (.inr (.inr (.inl rfl))) hstate hruns _ _ (by simp)
  · refine h.inside hslot (.inr (.inr (.inr rfl))) hstate hruns _ _ fun _ c' hc' => ?_
    rw [hstart] at hc'
    obtain rfl := Option.some.inj hc'
    exact ⟨_, List.mem_singleton_self _⟩
  · refine h.advance hslot rfl hstate (fun j hj => ?_) (fun _ _ _ _ => rfl) _ _ fun c' hc' =>
      ⟨fun st hst => absurd hst (hruns c' st hc'), fun _ => .inr ?_⟩
    · exact Function.update_of_ne hj _ _
    · obtain ⟨hit, hhit⟩ := h.killed i c' hat hc'
      exact ⟨hit, List.mem_append_left _ hhit⟩

theorem ReapPass.next (h : ReapPass s₀ s acts out) (now : UInt64) :
    ReapPass s₀ (s.next now).2 (acts ++ [.step now]) (out ++ (s.next now).1) := by
  have hplace := h.place
  obtain ⟨g, hg⟩ := h.ours
  unfold HelperState.next
  split
  case h_1 => exact h.stay _
  case h_2 hat =>
    rw [hat] at hplace
    contradiction
  case h_3 hat =>
    rw [hat] at hplace
    contradiction
  case h_4 i hat =>
    split
    case isTrue hlt =>
      split
      · rename_i hnone
        refine h.advance (i := ⟨i, hlt⟩) (by rw [hat]; rfl) rfl
          ⟨g, hg.goTo (p := .wait (i + 1)) (by rw [hat]; rfl) rfl trivial⟩ (fun _ _ => rfl)
          (fun _ _ _ _ => rfl) _ _ fun c hc => ?_
        rw [← h.ahead ⟨i, hlt⟩ (by rw [hat]; exact Nat.le_refl i), hnone] at hc
        simp at hc
      · rename_i c hi
        exact h.waitFor hat hi _
    case isFalse hge =>
      refine ⟨⟨g, hg.goTo (by rw [hat]; rfl) rfl trivial⟩, rfl, fun j hj => ?_,
        fun j c st hj => ?_, by simp, by simp, fun j c _ hc => ?_⟩
      · exact absurd j.isLt (Nat.not_lt.mpr hj)
      · exact absurd j.isLt (Nat.not_lt.mpr hj)
      · refine (h.behind j c ?_ hc).mono _ []
        rw [hat]
        exact Nat.lt_of_lt_of_le j.isLt (Nat.le_of_not_lt hge)
  all_goals
    rename_i i hat
    split
    · rename_i hnone
      have hfits := hg.fits
      rw [hat] at hfits
      exact absurd hnone hfits
    · rename_i c hi
      exact h.overdue hi (by simp [hat])

theorem ReapPass.step (h : ReapPass s₀ s acts out) {a : HelperMove} (ha : a.inPass = true) :
    ReapPass s₀ (helperStep s a).2 (acts ++ [a]) (out ++ (helperStep s a).1) := by
  cases a with
  | exit pid st =>
      simp only [helperStep]
      split
      case isTrue hu => exact h.outside (by rw [hu]; rfl) (by simp [hu]) _
      case isFalse => exact h.stay _
  | begins pid =>
      simp only [helperStep]
      split
      case isTrue hu => exact h.outside (by rw [hu]; rfl) (by simp [hu]) _
      case isFalse => exact h.stay _
  | ends pid =>
      simp only [helperStep]
      split
      case isTrue hu => exact h.outside (by rw [hu]; rfl) (by simp [hu]) _
      case isFalse => exact h.stay _
  | step now => exact h.next now
  | spawn | forked | reap => contradiction

theorem ReapPass.run {g : Nat → Option (UInt64 × CStr)} (h : HelperInv s₀ g)
    (hat : s₀.at_ = .wait 0) (acts : List HelperMove) (hacts : ∀ a ∈ acts, a.inPass = true) :
    ReapPass s₀ (helperRun s₀ acts).2 acts (helperRun s₀ acts).1 := by
  induction acts using List.reverseRecOn with
  | nil => exact .start h hat
  | append_singleton acts a ih =>
      rw [helperRun_snoc]
      exact (ih fun b hb => hacts b (List.mem_append_left _ hb)).step (hacts a (by simp))

/-! ### A pass ends

`waitpid` is called with `WNOHANG`, so a step never waits for a helper: whatever the helpers do,
each step of the monitor brings the pass nearer to its end.  A slot takes five steps at most, the
`waitpid`, the clock, two `kill`s and the new deadline, and one more ends the loop.
-/

/-- The steps of the monitor a pass can still take. -/
def HelperAt.left : HelperAt → Nat
  | .wait i => 5 * (maxChildren - i) + 1
  | .late i => 5 * (maxChildren - i)
  | .killGroup i => 5 * (maxChildren - i) - 1
  | .kill i => 5 * (maxChildren - i) - 2
  | .rearm i => 5 * (maxChildren - i) - 3
  | .idle | .fork _ _ _ | .track _ _ _ _ => 0

def HelperMove.isStep : HelperMove → Bool
  | .step _ => true
  | _ => false

theorem HelperAt.idle_of_left {p : HelperAt} (hplace : p.inPass = true) (hleft : p.left = 0) :
    p = .idle := by
  cases p with
  | idle => rfl
  | fork | track => contradiction
  | wait i => simp [HelperAt.left] at hleft
  | late i | killGroup i | kill i | rearm i =>
      have hlt := i.isLt
      simp only [HelperAt.left] at hleft
      omega

theorem HelperState.overdue_left (s : HelperState) (now : UInt64) (c : Child) {i : Fin maxChildren}
    (hat : s.at_ = .late i ∨ s.at_ = .killGroup i ∨ s.at_ = .kill i ∨ s.at_ = .rearm i) :
    (s.overdue now c s.at_).2.at_.left ≤ s.at_.left - 1 := by
  have hlt := i.isLt
  rcases hat with hat | hat | hat | hat <;> rw [hat] <;> simp only [HelperState.overdue]
  · split <;> simp only [HelperAt.left] <;> omega
  all_goals
    simp only [HelperAt.left]
    omega

theorem HelperState.waitFor_left (s : HelperState) (i : Fin maxChildren) (c : Child) :
    (s.waitFor i c).2.at_.left ≤ 5 * (maxChildren - i) := by
  have hlt := i.isLt
  unfold HelperState.waitFor
  split <;> simp only [HelperAt.left] <;> omega

theorem HelperState.next_left {s : HelperState} (hplace : s.at_.inPass = true)
    (hfits : s.at_.Fits s.children) (now : UInt64) :
    (s.next now).2.at_.left ≤ s.at_.left - 1 := by
  unfold HelperState.next
  split
  case h_1 hat => simp [hat, HelperAt.left]
  case h_2 hat | h_3 hat =>
    rw [hat] at hplace
    contradiction
  case h_4 i hat =>
    rw [hat]
    split
    case isTrue hlt =>
      split
      · simp only [HelperAt.left]
        omega
      · exact s.waitFor_left ⟨i, hlt⟩ _
    case isFalse => simp [HelperAt.left]
  all_goals
    rename_i i hat
    split
    · rename_i hnone
      rw [hat] at hfits
      exact absurd hnone hfits
    · exact s.overdue_left (i := i) now _ (by simp [hat])

theorem ReapPass.step_left (h : ReapPass s₀ s acts out) {a : HelperMove} (ha : a.inPass = true) :
    (helperStep s a).2.at_.left ≤ s.at_.left - if a.isStep then 1 else 0 := by
  cases a with
  | step now =>
      obtain ⟨g, hg⟩ := h.ours
      exact HelperState.next_left h.place hg.fits now
  | exit pid st | begins pid | ends pid =>
      simp only [helperStep]
      split <;> exact Nat.le_refl _
  | spawn | forked | reap => contradiction

theorem ReapPass.run_left {g : Nat → Option (UInt64 × CStr)} (h : HelperInv s₀ g)
    (hat : s₀.at_ = .wait 0) (acts : List HelperMove) (hacts : ∀ a ∈ acts, a.inPass = true) :
    (helperRun s₀ acts).2.at_.left ≤ 5 * maxChildren + 1 - acts.countP HelperMove.isStep := by
  induction acts using List.reverseRecOn with
  | nil =>
      rw [show (helperRun s₀ []).2 = s₀ from rfl, hat]
      exact Nat.le_refl _
  | append_singleton acts a ih =>
      have hbefore := fun b hb => hacts b (List.mem_append_left _ hb)
      have hle := ih hbefore
      have hstep := (ReapPass.run h hat acts hbefore).step_left (hacts a (by simp))
      rw [helperRun_snoc, List.countP_append, List.countP_singleton]
      dsimp only
      omega

end Pass

/-- A pass of `children_reap`, with helpers that end meanwhile and ids that are given out: after
`5 * 32 + 1` steps of the monitor it is over, and when it is, each helper of the table that had
ended before was waited for, and each one that is overdue by every clock of the pass was killed,
unless it ended meanwhile and was waited for. -/
theorem children_reap_pass (others : Nat → Bool) (before acts : List HelperMove)
    (hat : (helperRun (.start others) before).2.at_ = .wait 0)
    (hacts : ∀ a ∈ acts, a.inPass = true) :
    let s := (helperRun (.start others) before).2
    let out := (helperRun s acts).1
    (5 * maxChildren < acts.countP HelperMove.isStep → (helperRun s acts).2.at_ = .idle) ∧
    ((helperRun s acts).2.at_ = .idle → ∀ i c, s.children i = some c →
      (∀ st, s.use c.pid = .ended st → .reaped c.pid st ∈ out) ∧
        ((∀ a ∈ acts, a.notBefore c.deadline) →
          (∃ st, .reaped c.pid st ∈ out) ∨ ∃ hit, .kill c.pid hit ∈ out)) := by
  obtain ⟨⟨g, h⟩, -⟩ := HelperInv.run others before
  have hpass := ReapPass.run h hat acts hacts
  intro s out
  refine ⟨fun hsteps => ?_, fun hend i c hi => ?_⟩
  · have hleft : (helperRun s acts).2.at_.left ≤ _ := ReapPass.run_left h hat acts hacts
    exact HelperAt.idle_of_left hpass.place (by omega)
  · have hserved := hpass.behind i c (by rw [hend]; exact i.isLt) hi
    exact ⟨hserved.ended, hserved.overdue⟩

/-- Two helpers; the first has ended when the pass begins, the second is overdue. -/
def twoHelpers : List HelperMove :=
  [.spawn 10 [97], .forked (some 5), .step 0, .spawn 10 [98], .forked (some 6), .step 0,
    .exit 5 (.exited 0), .reap]

theorem children_reap_pass_two :
    let s := (helperRun (.start fun _ => false) twoHelpers).2
    let out := (helperRun s (List.replicate 161 (.step 20))).1
    .reaped 5 (.exited 0) ∈ out ∧ ((∃ st, .reaped 6 st ∈ out) ∨ ∃ hit, .kill 6 hit ∈ out) := by
  have hsteps : 5 * maxChildren
      < (List.replicate 161 (HelperMove.step 20)).countP HelperMove.isStep := by
    rw [List.countP_replicate]
    decide
  obtain ⟨hover, hserved⟩ := children_reap_pass (fun _ => false) twoHelpers
    (List.replicate 161 (.step 20)) rfl fun a ha => by rw [List.eq_of_mem_replicate ha]; rfl
  have hboth := hserved (hover hsteps)
  refine ⟨(hboth ⟨0, by decide⟩ ⟨5, 10, [97]⟩ rfl).1 (.exited 0) rfl, ?_⟩
  refine (hboth ⟨1, by decide⟩ ⟨6, 10, [98]⟩ rfl).2 fun a ha => ?_
  rw [List.eq_of_mem_replicate ha, HelperMove.notBefore]
  decide

end KernelGuard
