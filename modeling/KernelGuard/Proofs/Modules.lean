/-
The walk over the module list, and the baseline of lock mode.

The loader puts each module right behind the head of the list, so the list is sorted by
the time of loading, newest first.  The walk starts behind kernelguard's own entry and
stops at the head: what it meets are the modules that were loaded before kernelguard.  A
module that was loaded after it stands between the head and kernelguard, where the walk
never comes, and lock mode then does not know that module.
-/
import KernelGuard.Model.Modgate
import KernelGuard.Lib.Run
import Mathlib.Data.List.Nodup

namespace KernelGuard

open Run

/-! ### The list along a run

A module is linked behind the head and unlinked wherever it stands.  Both keep the
list sorted, and addresses are in use once, so a module on the list can be known by
its address.
-/

/-- What loading and unloading keep of the list. -/
structure ModList.Ok (l : ModList) : Prop where
  newest : l.mods.Pairwise fun x y => y.born < x.born
  addrs : l.mods.Pairwise fun x y => x.mod.addr ≠ y.mod.addr
  counted : ∀ x ∈ l.mods, x.born < l.loads

theorem setState_mod (addr : Nat) (old : List ModState) (new : ModState) (x : Loaded) :
    (if x.isAt addr && old.contains x.state then { x with state := new } else x).mod = x.mod ∧
      (if x.isAt addr && old.contains x.state then { x with state := new } else x).born
        = x.born := by
  split <;> exact ⟨rfl, rfl⟩

theorem ModList.Ok.setState {l : ModList} (h : l.Ok) (addr : Nat) (old : List ModState)
    (new : ModState) : ModList.Ok { l with mods := KernelGuard.setState addr old new l.mods } := by
  refine ⟨?_, ?_, ?_⟩
  · refine h.newest.map _ fun x y hxy => ?_
    rw [(setState_mod addr old new x).2, (setState_mod addr old new y).2]
    exact hxy
  · refine h.addrs.map _ fun x y hxy => ?_
    rw [(setState_mod addr old new x).1, (setState_mod addr old new y).1]
    exact hxy
  · intro y hy
    obtain ⟨x, hx, rfl⟩ := List.mem_map.mp hy
    rw [(setState_mod addr old new x).2]
    exact h.counted x hx

theorem ModList.Ok.step {l : ModList} (h : l.Ok) (op : ModOp) : (l.step op).Ok := by
  cases op with
  | load m =>
      simp only [ModList.step]
      by_cases hused : l.mods.any (·.isAt m.addr) = true
      · rw [if_pos hused]
        exact h
      · rw [if_neg hused]
        have hfree : ∀ x ∈ l.mods, x.mod.addr ≠ m.addr := by
          simpa [Loaded.isAt] using hused
        refine ⟨?_, ?_, ?_⟩
        · exact List.pairwise_cons.mpr ⟨fun x hx => h.counted x hx, h.newest⟩
        · exact List.pairwise_cons.mpr ⟨fun x hx => (hfree x hx).symm, h.addrs⟩
        · intro x hx
          rcases List.mem_cons.mp hx with rfl | hx
          · exact Nat.lt_succ_self _
          · exact Nat.lt_succ_of_lt (h.counted x hx)
  | live addr => exact h.setState addr _ _
  | going addr => exact h.setState addr _ _
  | free addr =>
      refine ⟨h.newest.filter _, h.addrs.filter _, ?_⟩
      intro x hx
      exact h.counted x (List.mem_filter.mp hx).1

/-- The module list before anything is loaded. -/
def ModList.empty : ModList := ⟨[], 0⟩

theorem modList_ok (ops : List ModOp) : (exec ModList.step ModList.empty ops).Ok :=
  exec_invariant (P := ModList.Ok) (fun _ op h => h.step op)
    ⟨.nil, .nil, by simp [ModList.empty]⟩ ops

/-! ### The walk

The list is circular and the code begins in the middle, so the walk sees the part
behind the start and ends at the head.  `ModList.Ok.split` cuts the list there.
-/

/-- What the walk looks for: a LIVE module that is not kernelguard. -/
def Loaded.wanted (this : Nat) (x : Loaded) : Bool := !x.isAt this && x.state = .live

/-- Up to the head, the walk pins the modules it looks for, as long as its table has room. -/
theorem liveWalk_entries (this : Nat) (xs : List Loaded) (rest : List ListNode)
    (held : List Loaded) :
    liveWalk this (xs.map .entry ++ .head :: rest) held
      = held ++ (xs.filter (Loaded.wanted this)).take (kgMaxBootModules - held.length) := by
  induction xs generalizing held with
  | nil => simp [liveWalk]
  | cons x xs ih =>
      rw [List.map_cons, List.cons_append, liveWalk]
      by_cases hw : x.wanted this = true
      · have hgo : (x.isAt this || decide (x.state ≠ .live)) = false := by
          simpa [Loaded.wanted] using hw
        simp only [hgo, Bool.false_eq_true, if_false]
        rw [List.filter_cons_of_pos hw]
        by_cases hroom : held.length < kgMaxBootModules
        · obtain ⟨n, hn⟩ : ∃ n, kgMaxBootModules - held.length = n + 1 :=
            ⟨kgMaxBootModules - held.length - 1, by omega⟩
          have hn' : kgMaxBootModules - (held ++ [x]).length = n := by
            simp only [List.length_append, List.length_singleton]
            omega
          rw [if_pos hroom, ih, hn, hn', List.take_succ_cons, List.append_assoc,
            List.singleton_append]
        · have hfull : kgMaxBootModules - held.length = 0 := by omega
          rw [if_neg hroom, ih, hfull, List.take_zero, List.take_zero]
      · have hskip : (x.isAt this || decide (x.state ≠ .live)) = true := by
          by_cases hat : x.isAt this = true
          · simp [hat]
          · simpa [Loaded.wanted, hat] using hw
        simp only [hskip, if_true]
        rw [ih, List.filter_cons_of_neg hw]

/-- Kernelguard's entry, with what stands in front of it and behind it. -/
theorem ModList.Ok.split {l : ModList} (h : l.Ok) {k : Loaded} (hk : k ∈ l.mods) :
    ∃ newer older, l.mods = newer ++ k :: older ∧
      ringBehind k.mod.addr l.mods = older.map .entry ++ .head :: newer.map .entry ∧
      (∀ x ∈ newer, k.born < x.born) ∧ (∀ x ∈ older, x.born < k.born) := by
  obtain ⟨newer, older, hmods⟩ := List.append_of_mem hk
  have hnew := h.newest
  have haddr := h.addrs
  rw [hmods, List.pairwise_append] at hnew haddr
  have hfront : ∀ x ∈ newer, (!x.isAt k.mod.addr) = true := by
    intro x hx
    have := haddr.2.2 x hx k List.mem_cons_self
    simpa [Loaded.isAt] using this
  have hself : (!k.isAt k.mod.addr) = false := by simp [Loaded.isAt]
  refine ⟨newer, older, hmods, ?_, ?_, ?_⟩
  · unfold ringBehind
    rw [hmods, List.dropWhile_append_of_pos hfront, List.takeWhile_append_of_pos hfront]
    simp [hself]
  · intro x hx
    exact hnew.2.2 x hx k List.mem_cons_self
  · intro x hx
    exact (List.pairwise_cons.mp hnew.2.1).1 x hx

theorem ModList.Ok.eq_of_addr {l : ModList} (h : l.Ok) {x y : Loaded} (hx : x ∈ l.mods)
    (hy : y ∈ l.mods) (haddr : x.mod.addr = y.mod.addr) : x = y := by
  have hnodup : (l.mods.map (·.mod.addr)).Nodup := List.pairwise_map.mpr h.addrs
  exact List.inj_on_of_nodup_map hnodup hx hy haddr

theorem ModList.Ok.eq_of_born {l : ModList} (h : l.Ok) {x y : Loaded} (hx : x ∈ l.mods)
    (hy : y ∈ l.mods) (hborn : x.born = y.born) : x = y := by
  have hnodup : (l.mods.map (·.born)).Nodup := List.pairwise_map.mpr (h.newest.imp Nat.ne_of_gt)
  exact List.inj_on_of_nodup_map hnodup hx hy hborn

theorem ModList.Ok.nodup {l : ModList} (h : l.Ok) : l.mods.Nodup :=
  h.newest.imp fun hlt heq => absurd hlt (by rw [heq]; exact Nat.lt_irrefl _)

/-- The LIVE modules that were loaded before the module `k`, newest first. -/
def liveBefore (k : Loaded) (mods : List Loaded) : List Loaded :=
  mods.filter fun x => x.state = .live && x.born < k.born

theorem mem_liveBefore {k x : Loaded} {mods : List Loaded} :
    x ∈ liveBefore k mods ↔ x ∈ mods ∧ x.state = .live ∧ x.born < k.born := by
  simp [liveBefore]

/-- What the walk pins: the first 1024 LIVE modules that were loaded before kernelguard. -/
theorem ModList.Ok.liveModules {l : ModList} (h : l.Ok) {k : Loaded} (hk : k ∈ l.mods) :
    kgLiveModules k.mod.addr l.mods = (liveBefore k l.mods).take kgMaxBootModules := by
  obtain ⟨newer, older, hmods, hring, hnewer, holder⟩ := h.split hk
  have hfront : newer.filter (fun x => x.state = .live && x.born < k.born) = [] := by
    rw [List.filter_eq_nil_iff]
    intro x hx
    have := hnewer x hx
    simp only [Bool.and_eq_true, decide_eq_true_eq, not_and, Nat.not_lt]
    omega
  have hself : (k :: older).filter (fun x => x.state = .live && x.born < k.born)
      = older.filter (fun x => x.state = .live && x.born < k.born) :=
    List.filter_cons_of_neg (by simp)
  have haddr := h.addrs
  rw [hmods, List.pairwise_append] at haddr
  have hbehind : older.filter (Loaded.wanted k.mod.addr)
      = older.filter (fun x => x.state = .live && x.born < k.born) := by
    refine List.filter_congr fun x hx => ?_
    have hother : x.mod.addr ≠ k.mod.addr := ((List.pairwise_cons.mp haddr.2.1).1 x hx).symm
    simp [Loaded.wanted, Loaded.isAt, hother, holder x hx]
  unfold kgLiveModules liveBefore
  rw [hring, liveWalk_entries, hmods, List.filter_append, hfront, hself, hbehind]
  rfl

/-- With at most 1024 modules LIVE, none is left out. -/
theorem ModList.Ok.mem_liveModules {l : ModList} (h : l.Ok) {k : Loaded} (hk : k ∈ l.mods)
    (hfew : (l.mods.filter (·.state = .live)).length ≤ kgMaxBootModules) (x : Loaded) :
    x ∈ kgLiveModules k.mod.addr l.mods ↔ x ∈ l.mods ∧ x.state = .live ∧ x.born < k.born := by
  have hlen : (liveBefore k l.mods).length ≤ kgMaxBootModules := by
    have hsub : liveBefore k l.mods
        = (l.mods.filter (·.state = .live)).filter (·.born < k.born) := by
      rw [List.filter_filter]
      unfold liveBefore
      exact List.filter_congr fun x _ => Bool.and_comm _ _
    rw [hsub]
    exact Nat.le_trans (List.length_filter_le _ _) hfew
  rw [h.liveModules hk, List.take_of_length_le hlen]
  exact mem_liveBefore

theorem ModList.Ok.liveModules_nodup {l : ModList} (h : l.Ok) {k : Loaded} (hk : k ∈ l.mods) :
    (kgLiveModules k.mod.addr l.mods).Nodup := by
  rw [h.liveModules hk]
  exact (h.nodup.filter _).take

/-! ### The baseline of lock mode

The walk calls its function for the modules it has pinned, and the snapshot writes
their names into a table of the same size.  Hence nothing is lost on the way from the
walk to the baseline, and the baseline is incomplete exactly where the walk is.
-/

/-- `fn` is called exactly once on each LIVE module other than `this`, and on nothing else. -/
def CallsEachOnce (this : Nat) (mods : List Loaded) : Prop :=
  ∃ calls : List Loaded,
    (∀ (S : Type) (fn : Loaded → S → S) (s : S),
      kgForEachLiveModule this true mods fn s = (0, calls.foldl (fun s x => fn x s) s)) ∧
    calls.Nodup ∧ ∀ x, x ∈ calls ↔ x ∈ mods ∧ x.state = .live ∧ x.mod.addr ≠ this

/-- Once the lock is switched on, the gate trusts each LIVE module other than `this`. -/
def TrustsEach (this : Nat) (mods : List Loaded) (g : KgGate) : Prop :=
  ∀ x ∈ mods, x.state = .live → x.mod.addr ≠ this →
    kgGateTrusted (kgGateCfgSetLock this true true mods (.ok true) g).2 x.mod.name.chars = true

/-- The calls a walk makes, read off with an `fn` that writes them down. -/
theorem calls_eq {this : Nat} {mods calls : List Loaded}
    (h : ∀ (S : Type) (fn : Loaded → S → S) (s : S),
      kgForEachLiveModule this true mods fn s = (0, calls.foldl (fun s x => fn x s) s)) :
    calls = kgLiveModules this mods := by
  have hlog : ∀ xs acc : List Loaded, xs.foldl (fun s x => s ++ [x]) acc = acc ++ xs := by
    intro xs
    induction xs with
    | nil => simp
    | cons x xs ih => intro acc; simp [ih]
  have hrec := h (List Loaded) (fun x log => log ++ [x]) []
  rw [hlog] at hrec
  simp only [kgForEachLiveModule, Bool.not_true, Bool.false_eq_true, if_false, hlog,
    List.nil_append, Prod.mk.injEq, true_and] at hrec
  exact hrec.symm

theorem strscpy_name (name : ModName) : strscpy moduleNameLen name.chars = name.chars :=
  List.take_of_length_le (by have := name.fits; omega)

/-- The snapshot holds the name of every module it was called with. -/
theorem snapCb_fold (xs : List Loaded) (tab : List CStr)
    (hroom : tab.length + xs.length ≤ kgGateBaseMax) :
    xs.foldl (fun tab x => kgGateSnapCb x tab) tab = tab ++ xs.map (·.mod.name.chars) := by
  induction xs generalizing tab with
  | nil => simp
  | cons x xs ih =>
      rw [List.length_cons] at hroom
      have hone : kgGateSnapCb x tab = tab ++ [x.mod.name.chars] := by
        unfold kgGateSnapCb
        rw [if_pos (by omega), strscpy_name]
      rw [List.foldl_cons, hone, ih _ (by simp only [List.length_append, List.length_singleton]; omega)]
      simp

theorem liveWalk_length (this : Nat) (nodes : List ListNode) (held : List Loaded)
    (h : held.length ≤ kgMaxBootModules) :
    (liveWalk this nodes held).length ≤ kgMaxBootModules := by
  induction nodes generalizing held with
  | nil => exact h
  | cons node rest ih =>
      cases node with
      | head => exact h
      | entry x =>
          rw [liveWalk]
          split_ifs with hskip hfull
          · exact ih held h
          · exact ih _ (by simp only [List.length_append, List.length_singleton]; omega)
          · exact ih held h

/-- Switching the lock on makes the walked modules the baseline. -/
theorem setLock_base (this : Nat) (mods : List Loaded) {g : KgGate} (hready : g.ready = true)
    (hoff : g.lock = false) :
    (kgGateCfgSetLock this true true mods (.ok true) g).2
      = { g with lock := true, base := (kgLiveModules this mods).map (·.mod.name.chars) } := by
  have hlen : (kgLiveModules this mods).length ≤ kgGateBaseMax :=
    liveWalk_length this _ [] (Nat.zero_le _)
  unfold kgGateCfgSetLock kgGateSnapshot kgForEachLiveModule
  simp only [hready, hoff, Bool.not_true, Bool.false_eq_true, if_false, Bool.not_false,
    Bool.and_self, if_true, ne_eq, not_true_eq_false]
  rw [snapCb_fold _ _ (by simpa using hlen), List.nil_append]

/--
**The baseline of lock mode, exactly.**  After any sequence of loads and unloads that
leaves kernelguard's entry `k` in the list with at most 1024 modules LIVE, the walk calls
its function exactly once on each LIVE module other than kernelguard, and switching
`mod_lock` on makes the gate trust each of them, exactly when no module loaded after
kernelguard is LIVE.
-/
theorem lock_baseline_iff (ops : List ModOp) (k : Loaded) (g : KgGate)
    (hk : k ∈ (exec ModList.step ModList.empty ops).mods)
    (hfew : ((exec ModList.step ModList.empty ops).mods.filter (·.state = .live)).length
      ≤ kgMaxBootModules)
    (hready : g.ready = true) (hoff : g.lock = false) :
    let mods := (exec ModList.step ModList.empty ops).mods
    (CallsEachOnce k.mod.addr mods ∧ TrustsEach k.mod.addr mods g) ↔
      ∀ x ∈ mods, x.state = .live → x.born ≤ k.born := by
  intro mods
  have hok := modList_ok ops
  have hnodup := hok.liveModules_nodup hk
  have hmem := hok.mem_liveModules hk hfew
  constructor
  · intro h x hx hlive
    obtain ⟨⟨calls, hcalls, -, hall⟩, -⟩ := h
    by_cases hself : x.mod.addr = k.mod.addr
    · exact Nat.le_of_eq (congrArg Loaded.born (hok.eq_of_addr hx hk hself))
    · have hin := (hall x).mpr ⟨hx, hlive, hself⟩
      rw [calls_eq hcalls] at hin
      exact Nat.le_of_lt ((hmem x).mp hin).2.2
  · intro hold
    have hwalked : ∀ x, x ∈ kgLiveModules k.mod.addr mods ↔
        x ∈ mods ∧ x.state = .live ∧ x.mod.addr ≠ k.mod.addr := by
      intro x
      rw [hmem]
      constructor
      · intro hx
        refine ⟨hx.1, hx.2.1, fun haddr => ?_⟩
        rw [hok.eq_of_addr hx.1 hk haddr] at hx
        exact Nat.lt_irrefl _ hx.2.2
      · intro hx
        refine ⟨hx.1, hx.2.1, Nat.lt_of_le_of_ne (hold x hx.1 hx.2.1) fun hborn => ?_⟩
        exact hx.2.2 (by rw [hok.eq_of_born hx.1 hk hborn])
    refine ⟨⟨_, fun S fn s => rfl, hnodup, hwalked⟩, ?_⟩
    intro x hx hlive hother
    rw [setLock_base _ _ hready hoff]
    simp only [kgGateTrusted, Bool.or_eq_true, List.any_eq_true, decide_eq_true_eq]
    exact Or.inr ⟨_, List.mem_map.mpr ⟨x, (hwalked x).mpr ⟨hx, hlive, hother⟩, rfl⟩, rfl⟩

/-! A machine with one module older than kernelguard, and one that is loaded after it. -/

def olderModule : KModule := ⟨0x1000, ⟨[111], by decide, by decide⟩, none, 4096⟩
def guardModule : KModule := ⟨0x2000, ⟨[103], by decide, by decide⟩, none, 4096⟩
def newerModule : KModule := ⟨0x3000, ⟨[110], by decide, by decide⟩, none, 4096⟩

def loadGuard : List ModOp := [.load olderModule, .live 0x1000, .load guardModule, .live 0x2000]
def loadNewer : List ModOp := loadGuard ++ [.load newerModule, .live 0x3000]

/-- Kernelguard's entry in the two lists. -/
def guardEntry : Loaded := ⟨guardModule, .live, 1⟩

/-- With older modules only, the baseline is complete. -/
theorem lock_baseline_iff_older :
    let mods := (exec ModList.step ModList.empty loadGuard).mods
    CallsEachOnce 0x2000 mods ∧ TrustsEach 0x2000 mods { KgGate.zero with ready := true } := by
  intro mods
  refine (lock_baseline_iff loadGuard guardEntry { KgGate.zero with ready := true }
    ?_ ?_ rfl rfl).mpr ?_
  · decide
  · decide
  · decide

/-- The baseline is complete whatever was loaded before and after kernelguard. -/
def BaselineComplete : Prop :=
  ∀ (ops : List ModOp) (k : Loaded) (g : KgGate),
    let mods := (exec ModList.step ModList.empty ops).mods
    k ∈ mods → (mods.filter (·.state = .live)).length ≤ kgMaxBootModules →
    g.ready = true → g.lock = false →
    CallsEachOnce k.mod.addr mods ∧ TrustsEach k.mod.addr mods g

/-- A module that was loaded after kernelguard is LIVE, and the lock refuses to know it. -/
theorem newer_module_untrusted : ¬ BaselineComplete := by
  intro h
  have htrust := (h loadNewer guardEntry { KgGate.zero with ready := true }
    (by decide) (by decide) rfl rfl).2
  exact absurd (htrust ⟨newerModule, .live, 2⟩ (by decide) rfl (by decide)) (by decide)

end KernelGuard
