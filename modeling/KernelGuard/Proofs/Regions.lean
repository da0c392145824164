/-
The region table against the module list.

Once the notifier is registered the table follows the list step by step.  What it
follows from is another matter: the enumeration saw the list as it was at the snapshot,
and only the modules that had been loaded before kernelguard, while the notifier tells
of nothing that happened before its registration.  Between the two lies a window.  The
table is right from init's return on exactly when the modules that are LIVE at the
registration are those the snapshot pinned.
-/
import KernelGuard.Model.Regions
import KernelGuard.Proofs.Modules

namespace KernelGuard

open Run

/-! ### Which module a region belongs to

Addresses are used again when a module has gone.  A load is known by the address and
the number of the load, and a region belongs to a load.
-/

/-- One load of a module: its address, and which of the loads at that address it is. -/
def Loaded.key (x : Loaded) : Nat × Nat := (x.mod.addr, x.born)

/-- The region was made for this load of the module. -/
def KgRegion.belongsTo (x : Loaded) (r : KgRegion) : Bool :=
  r.mod = some x.mod.addr && r.born = x.born

/-- The loads the table has regions for, in the order of the table. -/
def Integrity.owners (s : Integrity) : List (Nat × Nat) :=
  s.regions.filterMap fun r => r.mod.map fun addr => (addr, r.born)

/-- The loads of those of the modules `xs` that have text. -/
def textKeys (xs : List Loaded) : List (Nat × Nat) :=
  (xs.filter (·.mod.textSize ≠ 0)).map Loaded.key

/--
What the table is for: each LIVE module with text has exactly one region, and no region
belongs to a module that has gone.
-/
structure Tracks (s : Integrity) : Prop where
  one : ∀ x ∈ s.loader.mods, x.state = .live → x.mod.textSize ≠ 0 →
    (s.regions.filter (·.belongsTo x)).length = 1
  present : ∀ r ∈ s.regions, r.mod ≠ none →
    ∃ x ∈ s.loader.mods, r.belongsTo x = true ∧ x.state ≠ .going

theorem regions_owned (x : Loaded) (s : Integrity) :
    (s.regions.filter (·.belongsTo x)).length = s.owners.count x.key := by
  unfold Integrity.owners
  induction s.regions with
  | nil => rfl
  | cons r rest ih =>
      rcases r with ⟨name, size, kernel, mod, born⟩
      cases mod with
      | none => simpa [KgRegion.belongsTo] using ih
      | some addr =>
          by_cases hown : addr = x.mod.addr ∧ born = x.born
          · rw [List.filter_cons_of_pos (by simp [KgRegion.belongsTo, hown.1, hown.2]),
              List.length_cons, ih]
            simp [Loaded.key, hown.1, hown.2]
          · have hkey : (addr, born) ≠ (x.mod.addr, x.born) := by
              intro heq
              exact hown (Prod.mk.inj heq)
            rw [List.filter_cons_of_neg (by simpa [KgRegion.belongsTo] using hown), ih]
            simp [Loaded.key, List.count_cons_of_ne hkey]

theorem mem_textKeys {xs : List Loaded} {o : Nat × Nat} :
    o ∈ textKeys xs ↔ ∃ x ∈ xs, x.mod.textSize ≠ 0 ∧ x.key = o := by
  simp [textKeys, and_assoc]

theorem textKeys_nodup {xs : List Loaded} (h : xs.Pairwise fun x y => y.born < x.born) :
    (textKeys xs).Nodup := by
  refine List.Pairwise.map _ ?_ (h.filter _)
  intro x y hlt heq
  have hborn : x.born = y.born := congrArg Prod.snd heq
  omega

/-! ### What the table's operations do

Adding appends a region, removing erases the first one with the module's address;
both are described by what they do to the list of owners.  Erasing the first is
filtering where there is only one.
-/

/-- `kg_module_add` with room and memory: the module's region, if it has text. -/
theorem kgModuleAdd_owners {x : Loaded} {s : Integrity} (hen : s.textEnabled = true)
    (hmods : s.textModules = true) (hroom : s.copyBytes + x.mod.textSize ≤ s.textMaxMb * 2 ^ 20) :
    (kgModuleAdd true x s).owners = s.owners ++ textKeys [x] := by
  unfold kgModuleAdd
  by_cases htext : x.mod.textSize = 0
  · rw [if_pos (by simp [htext])]
    simp [textKeys, htext]
  · rw [if_neg (by simp [hen, htext]), if_neg (by simp [hmods])]
    unfold kgRegionAdd
    rw [if_neg (show ¬ (regionOf x).size = 0 from htext),
      if_neg (show ¬ s.copyBytes + (regionOf x).size > _ from Nat.not_lt.mpr hroom),
      if_neg (by simp)]
    simp [Integrity.owners, textKeys, htext, regionOf, Loaded.key]

theorem kgModuleAdd_same (alloc : Bool) (x : Loaded) (s : Integrity) :
    ∃ rs n, kgModuleAdd alloc x s = { s with regions := rs, copyBytes := n } := by
  unfold kgModuleAdd kgRegionAdd
  split_ifs <;> exact ⟨_, _, rfl⟩

theorem kgModuleRemove_same (addr : Nat) (s : Integrity) :
    ∃ n, kgModuleRemove addr s
      = { s with regions := s.regions.eraseP (·.mod = some addr), copyBytes := n } := by
  unfold kgModuleRemove
  cases hfind : s.regions.find? (·.mod = some addr) with
  | none =>
      refine ⟨s.copyBytes, ?_⟩
      rw [List.eraseP_of_forall_not (List.find?_eq_none.mp hfind)]
  | some r => exact ⟨_, rfl⟩

theorem owners_eraseP (addr : Nat) (rs : List KgRegion) :
    (rs.eraseP (·.mod = some addr)).filterMap (fun r => r.mod.map fun a => (a, r.born))
      = (rs.filterMap fun r => r.mod.map fun a => (a, r.born)).eraseP (·.1 = addr) := by
  induction rs with
  | nil => rfl
  | cons r rest ih =>
      rcases r with ⟨name, size, kernel, mod, born⟩
      cases mod with
      | none => simpa using ih
      | some a =>
          by_cases ha : a = addr
          · simp [ha]
          · simpa [ha] using ih

/-- Where at most one element qualifies, erasing the first one is filtering. -/
theorem eraseP_eq_filter {α : Type} {p : α → Bool} {l : List α}
    (h : l.Pairwise fun a b => ¬ (p a = true ∧ p b = true)) :
    l.eraseP p = l.filter (fun a => !p a) := by
  induction l with
  | nil => rfl
  | cons a rest ih =>
      obtain ⟨hhead, hrest⟩ := List.pairwise_cons.mp h
      by_cases ha : p a = true
      · have hnone : ∀ b ∈ rest, (!p b) = true := by
          intro b hb
          simpa [ha] using hhead b hb
        rw [List.eraseP_cons_of_pos ha, List.filter_cons_of_neg (by simp [ha]),
          List.filter_eq_self.mpr hnone]
      · rw [List.eraseP_cons_of_neg ha, List.filter_cons_of_pos (by simpa using ha), ih hrest]

/-! ### The modules the table should hold

What should be in the table depends on the module list alone, and each step of the
loader changes it in one entry: the module it loads, that goes, or that is freed.
-/

/-- The load `o` is of a module with text that is LIVE, or kernelguard's own. -/
def Watched (this : Nat) (mods : List Loaded) (o : Nat × Nat) : Prop :=
  ∃ x ∈ mods, x.key = o ∧ x.mod.textSize ≠ 0 ∧ (x.state = .live ∨ x.mod.addr = this)

theorem entry?_some {l : ModList} {addr : Nat} {old : List ModState} {x : Loaded}
    (h : l.entry? addr old = some x) :
    x ∈ l.mods ∧ x.mod.addr = addr ∧ x.state ∈ old := by
  have hp := List.find?_some h
  simp only [Bool.and_eq_true, Loaded.isAt, decide_eq_true_eq, List.contains_iff_mem] at hp
  exact ⟨List.mem_of_find?_eq_some h, hp.1, hp.2⟩

/-- The entry that changes its state, and the entries that do not. -/
theorem mem_setState {l : ModList} (hok : l.Ok) {addr : Nat} {old : List ModState}
    {new : ModState} {x : Loaded} (h : l.entry? addr old = some x) (z : Loaded) :
    z ∈ setState addr old new l.mods ↔
      z = { x with state := new } ∨ (z ∈ l.mods ∧ z.mod.addr ≠ addr) := by
  obtain ⟨hx, haddr, hold⟩ := entry?_some h
  unfold setState
  rw [List.mem_map]
  constructor
  · intro hz
    obtain ⟨y, hy, rfl⟩ := hz
    by_cases hat : y.mod.addr = addr
    · have hyx : y = x := hok.eq_of_addr hy hx (hat.trans haddr.symm)
      rw [hyx, if_pos (by simp [Loaded.isAt, haddr, hold])]
      exact Or.inl rfl
    · rw [if_neg (by simp [Loaded.isAt, hat])]
      exact Or.inr ⟨hy, hat⟩
  · intro hz
    rcases hz with rfl | ⟨hz, hat⟩
    · exact ⟨x, hx, if_pos (by simp [Loaded.isAt, haddr, hold])⟩
    · exact ⟨z, hz, if_neg (by simp [Loaded.isAt, hat])⟩

theorem watched_live {l : ModList} (hok : l.Ok) {this addr : Nat} {x : Loaded}
    (h : l.entry? addr [.coming] = some x) (o : Nat × Nat) :
    Watched this (setState addr [.coming] .live l.mods) o ↔
      Watched this l.mods o ∨ (x.key = o ∧ x.mod.textSize ≠ 0) := by
  obtain ⟨hx, haddr, hold⟩ := entry?_some h
  unfold Watched
  simp only [mem_setState hok h]
  constructor
  · intro hw
    obtain ⟨z, rfl | ⟨hz, hat⟩, hkey, htext, hlive⟩ := hw
    · exact Or.inr ⟨hkey, htext⟩
    · exact Or.inl ⟨z, hz, hkey, htext, hlive⟩
  · intro hw
    rcases hw with ⟨z, hz, hkey, htext, hlive⟩ | ⟨hkey, htext⟩
    · by_cases hat : z.mod.addr = addr
      · rw [hok.eq_of_addr hz hx (hat.trans haddr.symm)] at hkey htext
        exact ⟨_, Or.inl rfl, hkey, htext, Or.inl rfl⟩
      · exact ⟨z, Or.inr ⟨hz, hat⟩, hkey, htext, hlive⟩
    · exact ⟨_, Or.inl rfl, hkey, htext, Or.inl rfl⟩

theorem watched_going {l : ModList} (hok : l.Ok) {this addr : Nat} {x : Loaded}
    (h : l.entry? addr [.coming, .live] = some x) (hother : addr ≠ this) (o : Nat × Nat) :
    Watched this (setState addr [.coming, .live] .going l.mods) o ↔
      Watched this l.mods o ∧ o.1 ≠ addr := by
  obtain ⟨hx, haddr, hold⟩ := entry?_some h
  unfold Watched
  simp only [mem_setState hok h]
  constructor
  · intro hw
    obtain ⟨z, rfl | ⟨hz, hat⟩, hkey, htext, hlive⟩ := hw
    · exfalso
      rcases hlive with hlive | hthis
      · exact absurd hlive (by simp)
      · exact hother (haddr.symm.trans hthis)
    · exact ⟨⟨z, hz, hkey, htext, hlive⟩, by rw [← hkey]; exact hat⟩
  · intro hw
    obtain ⟨⟨z, hz, hkey, htext, hlive⟩, hat⟩ := hw
    rw [← hkey] at hat
    exact ⟨z, Or.inr ⟨hz, hat⟩, hkey, htext, hlive⟩

theorem watched_load {this : Nat} {mods : List Loaded} {x : Loaded} (hcoming : x.state = .coming)
    (hother : x.mod.addr ≠ this) (o : Nat × Nat) :
    Watched this (x :: mods) o ↔ Watched this mods o := by
  unfold Watched
  constructor
  · intro hw
    obtain ⟨z, hz, hkey, htext, hlive⟩ := hw
    rcases List.mem_cons.mp hz with rfl | hz
    · rcases hlive with hlive | hthis
      · exact absurd (hcoming.symm.trans hlive) (by decide)
      · exact absurd hthis hother
    · exact ⟨z, hz, hkey, htext, hlive⟩
  · intro hw
    obtain ⟨z, hz, hrest⟩ := hw
    exact ⟨z, List.mem_cons_of_mem _ hz, hrest⟩

theorem watched_free {this addr : Nat} {mods : List Loaded}
    (hstays : ∀ x ∈ mods, x.mod.addr = this → x.state ≠ .going) (o : Nat × Nat) :
    Watched this (mods.filter fun x => !(x.isAt addr && x.state = .going)) o ↔
      Watched this mods o := by
  unfold Watched
  constructor
  · intro hw
    obtain ⟨z, hz, hrest⟩ := hw
    exact ⟨z, (List.mem_filter.mp hz).1, hrest⟩
  · intro hw
    obtain ⟨z, hz, hkey, htext, hlive⟩ := hw
    have hnot : z.state ≠ .going := by
      rcases hlive with hlive | hthis
      · rw [hlive]; decide
      · exact hstays z hz hthis
    exact ⟨z, List.mem_filter.mpr ⟨hz, by simp [hnot]⟩, hkey, htext, hlive⟩

/-! ### The machine

The steps of init and those of the loader come in any order.  `Integrity.Base` is
what holds at all times and does not mention the table.
-/

/-- The module whose text a step wants to baseline. -/
def baselined (s : Integrity) : IntegrityOp → Option Loaded
  | .init _ =>
      match s.step with
      | .own => some s.guard
      | .add (x :: _) => some x
      | _ => none
  | .loader (.live addr) _ => if s.watching then s.loader.entry? addr [.coming] else none
  | .loader _ _ => none

def IntegrityOp.alloc : IntegrityOp → Bool
  | .init alloc => alloc
  | .loader _ alloc => alloc

/-- The step gets its memory and does not run into `text_max_mb`. -/
def Unhindered (s : Integrity) (op : IntegrityOp) : Prop :=
  op.alloc = true ∧
    ∀ x ∈ baselined s op, s.copyBytes + x.mod.textSize ≤ s.textMaxMb * 2 ^ 20

/-- What holds of the machine in every state. -/
structure Integrity.Base (s : Integrity) : Prop where
  ok : s.loader.Ok
  enabled : s.textEnabled = true
  modules : s.textModules = true
  guard : ∃ k ∈ s.loader.mods, k.mod = s.guard.mod ∧ k.born = s.guard.born ∧ k.state ≠ .going

/-- Kernelguard's entry is the only one at its address. -/
theorem Integrity.Base.stays {s : Integrity} (h : s.Base) {x : Loaded} (hx : x ∈ s.loader.mods)
    (hthis : x.mod.addr = s.this) :
    x.mod = s.guard.mod ∧ x.born = s.guard.born ∧ x.state ≠ .going := by
  obtain ⟨k, hk, hmod, hborn, hstate⟩ := h.guard
  have haddr : x.mod.addr = k.mod.addr := by rw [hthis, hmod]; rfl
  rw [h.ok.eq_of_addr hx hk haddr]
  exact ⟨hmod, hborn, hstate⟩

/-- What a step of the loader does to everything but the table. -/
theorem loaderStep_frame (alloc : Bool) (op : ModOp) (s : Integrity) :
    ∃ l rs n, loaderStep alloc op s
        = { s with loader := l, regions := rs, copyBytes := n } ∧
      (l = s.loader ∨ l = s.loader.step op ∧ ∀ addr, op = .going addr → addr ≠ s.this) ∧
      (s.watching = false → rs = s.regions) := by
  cases op with
  | load m => exact ⟨_, _, _, rfl, Or.inr ⟨rfl, by simp⟩, fun _ => rfl⟩
  | free addr => exact ⟨_, _, _, rfl, Or.inr ⟨rfl, by simp⟩, fun _ => rfl⟩
  | live addr =>
      simp only [loaderStep]
      cases hentry : s.loader.entry? addr [.coming] with
      | none => exact ⟨_, _, _, rfl, Or.inl rfl, fun _ => rfl⟩
      | some x =>
          by_cases hw : s.watching = true
          · simp only [hw, if_true, notifyLive]
            split_ifs
            · exact ⟨_, _, _, rfl, Or.inr ⟨rfl, by simp⟩, fun _ => rfl⟩
            · obtain ⟨rs, n, hadd⟩ := kgModuleAdd_same alloc x
                { s with loader := s.loader.step (.live addr) }
              rw [hadd]
              exact ⟨_, _, _, rfl, Or.inr ⟨rfl, by simp⟩, fun h => absurd h (by simp)⟩
          · simp only [hw]
            exact ⟨_, _, _, rfl, Or.inr ⟨rfl, by simp⟩, fun _ => rfl⟩
  | going addr =>
      simp only [loaderStep]
      cases hentry : s.loader.entry? addr [.coming, .live] with
      | none => exact ⟨_, _, _, rfl, Or.inl rfl, fun _ => rfl⟩
      | some x =>
          have haddr := (entry?_some hentry).2.1
          by_cases hstay : (decide (x.mod.addr = s.this) || s.step.pinned.any (·.isAt addr)) = true
          · simp only [hstay, if_true]
            exact ⟨_, _, _, rfl, Or.inl rfl, fun _ => rfl⟩
          · have hother : addr ≠ s.this := by
              intro heq
              rw [haddr, heq] at hstay
              simp at hstay
            have hgoing : ∀ a, ModOp.going addr = .going a → a ≠ s.this := by
              intro a ha
              rw [← ModOp.going.inj ha]
              exact hother
            by_cases hw : s.watching = true
            · simp only [hstay, hw, if_true, notifyGoing]
              have hne : ¬ x.mod.addr = s.this := by rw [haddr]; exact hother
              obtain ⟨n, hrem⟩ := kgModuleRemove_same x.mod.addr
                { s with loader := s.loader.step (.going addr) }
              rw [if_neg (show ¬ x.mod.addr = Integrity.this
                { s with loader := s.loader.step (.going addr) } from hne), hrem]
              exact ⟨_, _, _, rfl, Or.inr ⟨rfl, hgoing⟩, fun h => absurd h (by simp)⟩
            · simp only [hstay, hw]
              exact ⟨_, _, _, rfl, Or.inr ⟨rfl, hgoing⟩, fun _ => rfl⟩

theorem initStep_frame (alloc : Bool) (s : Integrity) :
    ∃ rs n st seen, initStep alloc s
      = { s with regions := rs, copyBytes := n, step := st, seen := seen } := by
  unfold initStep
  split
  · obtain ⟨rs, n, hadd⟩ := kgModuleAdd_same alloc s.guard s
    rw [hadd]
    exact ⟨_, _, _, _, rfl⟩
  · exact ⟨_, _, _, _, rfl⟩
  · exact ⟨_, _, _, _, rfl⟩
  · rename_i x held _
    obtain ⟨rs, n, hadd⟩ := kgModuleAdd_same alloc x s
    rw [hadd]
    exact ⟨_, _, _, _, rfl⟩
  · exact ⟨_, _, _, _, rfl⟩
  · exact ⟨_, _, _, _, rfl⟩
  · exact ⟨_, _, _, _, rfl⟩

/-- An entry that is not at the address of the step, or does not go, is still there. -/
theorem ModList.step_keeps {l : ModList} {op : ModOp} {k : Loaded} (hk : k ∈ l.mods)
    (hstate : k.state ≠ .going) (hop : ∀ addr, op = .going addr → addr ≠ k.mod.addr) :
    ∃ k' ∈ (l.step op).mods, k'.mod = k.mod ∧ k'.born = k.born ∧ k'.state ≠ .going := by
  cases op with
  | load m =>
      simp only [ModList.step]
      split_ifs
      · exact ⟨k, hk, rfl, rfl, hstate⟩
      · exact ⟨k, List.mem_cons_of_mem _ hk, rfl, rfl, hstate⟩
  | free addr =>
      exact ⟨k, List.mem_filter.mpr ⟨hk, by simp [hstate]⟩, rfl, rfl, hstate⟩
  | live addr =>
      refine ⟨_, List.mem_map.mpr ⟨k, hk, rfl⟩, ?_⟩
      split_ifs
      · exact ⟨rfl, rfl, by simp⟩
      · exact ⟨rfl, rfl, hstate⟩
  | going addr =>
      refine ⟨k, List.mem_map.mpr ⟨k, hk, ?_⟩, rfl, rfl, hstate⟩
      exact if_neg (by simp [Loaded.isAt, (hop addr rfl).symm])

theorem Integrity.Base.next {s : Integrity} (h : s.Base) (op : IntegrityOp) :
    (s.next op).Base := by
  cases op with
  | init alloc =>
      obtain ⟨rs, n, st, seen, heq⟩ := initStep_frame alloc s
      show (initStep alloc s).Base
      rw [heq]
      exact ⟨h.ok, h.enabled, h.modules, h.guard⟩
  | loader op alloc =>
      obtain ⟨l, rs, n, heq, hl, -⟩ := loaderStep_frame alloc op s
      show (loaderStep alloc op s).Base
      rw [heq]
      rcases hl with rfl | ⟨rfl, hgoing⟩
      · exact ⟨h.ok, h.enabled, h.modules, h.guard⟩
      · obtain ⟨k, hk, hmod, hborn, hstate⟩ := h.guard
        have hstays : ∀ addr, op = .going addr → addr ≠ k.mod.addr := by
          intro addr hop
          rw [hmod]
          exact hgoing addr hop
        obtain ⟨k', hk', hmod', hborn', hstate'⟩ := ModList.step_keeps hk hstate hstays
        exact ⟨h.ok.step op, h.enabled, h.modules, k', hk', hmod'.trans hmod, hborn'.trans hborn,
          hstate'⟩

/-! ### The window between the snapshot and the registration

The present list is compared with an earlier one: which of its entries were there
already, and in what order they stood.  `SeenBy` is kept by every step of the loader,
for any earlier list.
-/

/-- Where an entry comes from: it is the module just loaded, or it was there, no further on. -/
theorem ModList.step_origin {l : ModList} {op : ModOp} {z : Loaded} (hz : z ∈ (l.step op).mods) :
    z.born = l.loads ∨
      ∃ y ∈ l.mods, y.mod = z.mod ∧ y.born = z.born ∧ (z.state = .coming → y.state = .coming) := by
  cases op with
  | load m =>
      simp only [ModList.step] at hz
      split_ifs at hz
      · exact Or.inr ⟨z, hz, rfl, rfl, id⟩
      · rcases List.mem_cons.mp hz with rfl | hz
        · exact Or.inl rfl
        · exact Or.inr ⟨z, hz, rfl, rfl, id⟩
  | free addr => exact Or.inr ⟨z, (List.mem_filter.mp hz).1, rfl, rfl, id⟩
  | live addr =>
      obtain ⟨y, hy, rfl⟩ := List.mem_map.mp hz
      refine Or.inr ⟨y, hy, ?_⟩
      split_ifs
      · exact ⟨rfl, rfl, by simp⟩
      · exact ⟨rfl, rfl, id⟩
  | going addr =>
      obtain ⟨y, hy, rfl⟩ := List.mem_map.mp hz
      refine Or.inr ⟨y, hy, ?_⟩
      split_ifs
      · exact ⟨rfl, rfl, by simp⟩
      · exact ⟨rfl, rfl, id⟩

theorem ModList.loads_le_step (l : ModList) (op : ModOp) : l.loads ≤ (l.step op).loads := by
  cases op with
  | load m =>
      simp only [ModList.step]
      split_ifs
      · exact Nat.le_refl _
      · exact Nat.le_succ _
  | free addr => exact Nat.le_refl _
  | live addr => exact Nat.le_refl _
  | going addr => exact Nat.le_refl _

/-- An earlier state of the list, as the present one remembers it. -/
structure SeenBy (seen : List Loaded) (l : ModList) : Prop where
  newest : seen.Pairwise fun x y => y.born < x.born
  counted : ∀ y ∈ seen, y.born < l.loads
  same : ∀ y ∈ seen, ∀ x ∈ l.mods, x.born = y.born →
    x.mod = y.mod ∧ (y.state = .live → x.state ≠ .coming)

theorem SeenBy.step {seen : List Loaded} {l : ModList} (h : SeenBy seen l) (op : ModOp) :
    SeenBy seen (l.step op) := by
  refine ⟨h.newest, fun y hy => Nat.lt_of_lt_of_le (h.counted y hy) (l.loads_le_step op), ?_⟩
  intro y hy x hx hborn
  rcases ModList.step_origin hx with hnew | ⟨z, hz, hmod, hzborn, hstate⟩
  · have := h.counted y hy
    omega
  · obtain ⟨hsame, hlive⟩ := h.same y hy z hz (hzborn.trans hborn)
    exact ⟨hmod.symm.trans hsame, fun hy hx => hlive hy (hstate hx)⟩

theorem ModList.Ok.seen {l : ModList} (h : l.Ok) : SeenBy l.mods l := by
  refine ⟨h.newest, h.counted, ?_⟩
  intro y hy x hx hborn
  rw [h.eq_of_born hx hy hborn]
  exact ⟨rfl, fun hlive => by rw [hlive]; decide⟩

/-- The modules the snapshot pinned. -/
def Integrity.pinnedAtSnapshot (s : Integrity) : List Loaded :=
  (liveBefore s.guard s.seen).take kgMaxBootModules

/-- How far the table is, for each step of init. -/
def Enumerated (s : Integrity) : Prop :=
  match s.step with
  | .own => s.owners = []
  | .snapshot => s.owners = textKeys [s.guard]
  | .add held =>
      ∃ done, s.pinnedAtSnapshot = done ++ held ∧ s.owners = textKeys (s.guard :: done)
  | .put x held =>
      ∃ done, s.pinnedAtSnapshot = done ++ x :: held ∧
        s.owners = textKeys (s.guard :: (done ++ [x]))
  | .register => s.owners = textKeys (s.guard :: s.pinnedAtSnapshot)
  | .returned => True

theorem textKeys_append (xs ys : List Loaded) : textKeys (xs ++ ys) = textKeys xs ++ textKeys ys := by
  simp [textKeys]

/-- The machine in any state: the list, what the snapshot saw of it, and the table. -/
structure Integrity.Inv (s : Integrity) : Prop extends s.Base where
  seenBy : SeenBy s.seen s.loader
  enumerated : Enumerated s

/-- Only the snapshot writes down what it sees. -/
theorem Integrity.Inv.init_seenBy {s : Integrity} (h : s.Inv) :
    SeenBy (initStep true s).seen (initStep true s).loader := by
  unfold initStep
  split
  · obtain ⟨rs, n, hadd⟩ := kgModuleAdd_same true s.guard s
    rw [hadd]
    exact h.seenBy
  · exact h.ok.seen
  · exact h.seenBy
  · rename_i x held _
    obtain ⟨rs, n, hadd⟩ := kgModuleAdd_same true x s
    rw [hadd]
    exact h.seenBy
  · exact h.seenBy
  · exact h.seenBy
  · exact h.seenBy

/-- The snapshot pins what it has to. -/
theorem Integrity.Inv.snapshot_pins {s : Integrity} (h : s.Inv) :
    (liveBefore s.guard s.loader.mods).take kgMaxBootModules
      = kgLiveModules s.this s.loader.mods := by
  obtain ⟨k, hk, hmod, hborn, -⟩ := h.guard
  have hwalk := h.ok.liveModules hk
  rw [hmod] at hwalk
  rw [show s.this = s.guard.mod.addr from rfl, hwalk]
  unfold liveBefore
  rw [hborn]

theorem Integrity.Inv.init_enumerated {s : Integrity} (h : s.Inv)
    (hun : Unhindered s (.init true)) : Enumerated (initStep true s) := by
  have henum := h.enumerated
  unfold Enumerated at henum
  unfold initStep
  cases hstep : s.step with
  | own =>
      rw [hstep] at henum
      have hroom := hun.2 s.guard (by simp [baselined, hstep])
      have hadd := kgModuleAdd_owners h.enabled h.modules hroom
      obtain ⟨rs, n, hsame⟩ := kgModuleAdd_same true s.guard s
      rw [hsame] at hadd ⊢
      show Integrity.owners _ = _
      exact hadd.trans (by rw [henum]; rfl)
  | snapshot =>
      rw [hstep] at henum
      exact ⟨[], h.snapshot_pins, henum⟩
  | add held =>
      rw [hstep] at henum
      obtain ⟨done, hpin, howners⟩ := henum
      cases held with
      | nil =>
          show Integrity.owners _ = textKeys (_ :: Integrity.pinnedAtSnapshot _)
          rw [List.append_nil] at hpin
          exact howners.trans (by rw [← hpin]; rfl)
      | cons x held =>
          have hroom := hun.2 x (by simp [baselined, hstep])
          have hadd := kgModuleAdd_owners h.enabled h.modules hroom
          obtain ⟨rs, n, hsame⟩ := kgModuleAdd_same true x s
          simp only
          rw [hsame] at hadd ⊢
          refine ⟨done, hpin, ?_⟩
          refine Eq.trans hadd ?_
          rw [howners, ← List.cons_append, textKeys_append]
  | put x held =>
      rw [hstep] at henum
      obtain ⟨done, hpin, howners⟩ := henum
      exact ⟨done ++ [x], by rw [List.append_assoc]; exact hpin, howners⟩
  | register => trivial
  | returned => simp only [Enumerated, hstep]

theorem Integrity.Inv.init {s : Integrity} (h : s.Inv) (hun : Unhindered s (.init true)) :
    (initStep true s).Inv where
  toBase := h.toBase.next (.init true)
  seenBy := h.init_seenBy
  enumerated := h.init_enumerated hun

theorem Integrity.Inv.loader {s : Integrity} (h : s.Inv) (op : ModOp) (alloc : Bool) :
    (loaderStep alloc op s).Inv := by
  refine ⟨h.toBase.next (.loader op alloc), ?_, ?_⟩
  · obtain ⟨l, rs, n, heq, hl, -⟩ := loaderStep_frame alloc op s
    rw [heq]
    rcases hl with rfl | ⟨rfl, -⟩
    · exact h.seenBy
    · exact h.seenBy.step op
  · obtain ⟨l, rs, n, heq, -, hrs⟩ := loaderStep_frame alloc op s
    rw [heq]
    -- Before the registration the loader leaves the table alone; after it nothing is promised here.
    by_cases hret : s.step = .returned
    · simp only [Enumerated, hret]
    · have hsame := hrs (by simp [Integrity.watching, hret])
      have henum := h.enumerated
      rw [hsame]
      exact henum

theorem Integrity.Inv.next {s : Integrity} (h : s.Inv) {op : IntegrityOp}
    (hun : Unhindered s op) : (s.next op).Inv := by
  cases op with
  | init alloc =>
      have halloc : alloc = true := hun.1
      rw [halloc] at hun ⊢
      exact h.init hun
  | loader op alloc => exact h.loader op alloc

/-! ### The table, once the notifier is registered

From the registration on, every change of the list that matters is told by the
notifier in the same step.  `Exact` goes through as an invariant, and it implies that
the table tracks the list.
-/

/-- The table holds one region for each module it should hold, and nothing else. -/
structure Exact (s : Integrity) : Prop where
  once : s.owners.Nodup
  iff : ∀ o, o ∈ s.owners ↔ Watched s.this s.loader.mods o

theorem mem_owners {s : Integrity} {r : KgRegion} {addr : Nat} (hr : r ∈ s.regions)
    (hmod : r.mod = some addr) : (addr, r.born) ∈ s.owners := by
  refine List.mem_filterMap.mpr ⟨r, hr, ?_⟩
  rw [hmod]
  rfl

theorem Exact.tracks {s : Integrity} (hbase : s.Base) (h : Exact s) : Tracks s := by
  refine ⟨?_, ?_⟩
  · intro x hx hlive htext
    rw [regions_owned]
    exact List.count_eq_one_of_mem h.once ((h.iff _).mpr ⟨x, hx, rfl, htext, Or.inl hlive⟩)
  · intro r hr hmod
    obtain ⟨addr, haddr⟩ := Option.ne_none_iff_exists'.mp hmod
    obtain ⟨x, hx, hkey, -, hstate⟩ := (h.iff _).mp (mem_owners hr haddr)
    obtain ⟨hkaddr, hkborn⟩ := Prod.mk.inj hkey
    refine ⟨x, hx, by simp [KgRegion.belongsTo, haddr, hkaddr, hkborn], ?_⟩
    rcases hstate with hlive | hthis
    · rw [hlive]; decide
    · exact (hbase.stays hx hthis).2.2

/-- A module that reaches LIVE gets its region. -/
theorem Exact.live {s : Integrity} (hbase : s.Base) (hret : s.step = .returned) (h : Exact s)
    {addr : Nat} (hun : Unhindered s (.loader (.live addr) true)) :
    Exact (loaderStep true (.live addr) s) := by
  have hw : s.watching = true := by simp [Integrity.watching, hret]
  simp only [loaderStep]
  cases hentry : s.loader.entry? addr [.coming] with
  | none => exact h
  | some x =>
      obtain ⟨hx, haddr, hold⟩ := entry?_some hentry
      have hwatched : ∀ o, Watched s.this (setState addr [.coming] .live s.loader.mods) o ↔
          Watched s.this s.loader.mods o ∨ (x.key = o ∧ x.mod.textSize ≠ 0) :=
        watched_live hbase.ok hentry
      simp only [hw, if_true, notifyLive]
      by_cases hthis : x.mod.addr = s.this
      · rw [if_pos (show x.mod.addr = Integrity.this
          { s with loader := s.loader.step (.live addr) } from hthis)]
        refine ⟨h.once, fun o => ?_⟩
        show o ∈ s.owners ↔ Watched s.this (setState addr [.coming] .live s.loader.mods) o
        rw [hwatched, h.iff]
        -- Kernelguard's own entry is held from the start.
        exact ⟨Or.inl, fun hor => hor.elim id fun ho => ⟨x, hx, ho.1, ho.2, Or.inr hthis⟩⟩
      · rw [if_neg (show ¬ x.mod.addr = Integrity.this
          { s with loader := s.loader.step (.live addr) } from hthis)]
        have hroom := hun.2 x (by simp [baselined, hw, hentry])
        have hadd := kgModuleAdd_owners (x := x)
          (s := { s with loader := s.loader.step (.live addr) }) hbase.enabled hbase.modules hroom
        obtain ⟨rs, n, hsame⟩ := kgModuleAdd_same true x
          { s with loader := s.loader.step (.live addr) }
        rw [hsame] at hadd ⊢
        have hfresh : x.key ∉ s.owners := by
          intro hmem
          obtain ⟨y, hy, hkey, -, hstate⟩ := (h.iff _).mp hmem
          have hyx : y = x := hbase.ok.eq_of_addr hy hx (Prod.mk.inj hkey).1
          rw [hyx] at hstate
          rcases hstate with hlive | hself
          · rw [hlive] at hold
            simp at hold
          · exact hthis hself
        refine ⟨?_, fun o => ?_⟩
        · rw [hadd, List.nodup_append]
          refine ⟨h.once, ?_, ?_⟩
          · exact textKeys_nodup (List.pairwise_singleton _ _)
          · intro a ha b hb heq
            obtain ⟨y, hy, -, hkey⟩ := mem_textKeys.mp hb
            rw [List.mem_singleton.mp hy] at hkey
            rw [heq, ← hkey] at ha
            exact hfresh ha
        · rw [hadd, List.mem_append, mem_textKeys]
          show o ∈ s.owners ∨ _ ↔ Watched s.this (setState addr [.coming] .live s.loader.mods) o
          rw [hwatched, h.iff]
          simp [and_comm]

/-- A module that goes takes its region with it. -/
theorem Exact.going {s : Integrity} (hbase : s.Base) (hret : s.step = .returned) (h : Exact s)
    (addr : Nat) (alloc : Bool) : Exact (loaderStep alloc (.going addr) s) := by
  have hw : s.watching = true := by simp [Integrity.watching, hret]
  simp only [loaderStep]
  cases hentry : s.loader.entry? addr [.coming, .live] with
  | none => exact h
  | some x =>
      obtain ⟨hx, haddr, -⟩ := entry?_some hentry
      by_cases hstay : (decide (x.mod.addr = s.this) || s.step.pinned.any (·.isAt addr)) = true
      · simp only [hstay, if_true]
        exact h
      · have hother : x.mod.addr ≠ s.this := by
          intro heq
          simp [heq] at hstay
        simp only [hstay, hw, if_true, notifyGoing]
        rw [if_neg (show ¬ x.mod.addr = Integrity.this
          { s with loader := s.loader.step (.going addr) } from hother)]
        obtain ⟨n, hrem⟩ := kgModuleRemove_same x.mod.addr
          { s with loader := s.loader.step (.going addr) }
        rw [hrem, haddr]
        show Exact { s with
          loader := s.loader.step (.going addr)
          regions := s.regions.eraseP (·.mod = some addr)
          copyBytes := n }
        -- Two regions of one address would be two entries of one address.
        have hsingle : s.owners.Pairwise fun a b =>
            ¬ (decide (a.1 = addr) = true ∧ decide (b.1 = addr) = true) := by
          refine List.Pairwise.imp_of_mem ?_ h.once
          intro a b ha hb hne hboth
          obtain ⟨y, hy, hykey, -⟩ := (h.iff a).mp ha
          obtain ⟨z, hz, hzkey, -⟩ := (h.iff b).mp hb
          simp only [decide_eq_true_eq] at hboth
          have hyz : y = z := by
            refine hbase.ok.eq_of_addr hy hz ?_
            rw [show y.mod.addr = a.1 from congrArg Prod.fst hykey,
              show z.mod.addr = b.1 from congrArg Prod.fst hzkey, hboth.1, hboth.2]
          exact hne (by rw [← hykey, ← hzkey, hyz])
        have howners : Integrity.owners { s with
            loader := s.loader.step (.going addr)
            regions := s.regions.eraseP (·.mod = some addr)
            copyBytes := n } = s.owners.filter (fun o => !decide (o.1 = addr)) := by
          rw [← eraseP_eq_filter hsingle]
          exact owners_eraseP addr s.regions
        refine ⟨?_, fun o => ?_⟩
        · rw [howners]
          exact h.once.filter _
        · rw [howners, List.mem_filter, h.iff]
          show _ ↔ Watched s.this (setState addr [.coming, .live] .going s.loader.mods) o
          rw [watched_going hbase.ok hentry (haddr ▸ hother)]
          simp

theorem Exact.next {s : Integrity} (hbase : s.Base) (hret : s.step = .returned) (h : Exact s)
    {op : IntegrityOp} (hun : Unhindered s op) : Exact (s.next op) := by
  cases op with
  | init alloc =>
      show Exact (initStep alloc s)
      unfold initStep
      rw [hret]
      exact h
  | loader op alloc =>
      have halloc : alloc = true := hun.1
      rw [halloc] at hun ⊢
      cases op with
      | live addr => exact h.live hbase hret hun
      | going addr => exact h.going hbase hret addr true
      | free addr =>
          refine ⟨h.once, fun o => (h.iff o).trans (watched_free ?_ o).symm⟩
          intro x hx hthis
          exact (hbase.stays hx hthis).2.2
      | load m =>
          show Exact { s with loader := s.loader.step (.load m) }
          simp only [ModList.step]
          by_cases hused : s.loader.mods.any (·.isAt m.addr) = true
          · rw [if_pos hused]
            exact h
          · rw [if_neg hused]
            refine ⟨h.once, fun o => (h.iff o).trans (watched_load rfl ?_ o).symm⟩
            intro hthis
            obtain ⟨k, hk, hmod, -⟩ := hbase.guard
            refine hused (List.any_eq_true.mpr ⟨k, hk, ?_⟩)
            simp only [Loaded.isAt, decide_eq_true_eq, hmod]
            exact hthis.symm

/-! ### The registration

What the table holds at the registration was decided at the snapshot.  So it is exact
if the modules that should be in it are the same at both moments, and one that came
in between can only be missing.
-/

/--
The modules with text that are LIVE, besides kernelguard, are those that were LIVE at
the snapshot, older than kernelguard and among the first 1024 of these.
-/
structure InStep (s : Integrity) : Prop where
  /-- None came in the window, or was left out by the walk. -/
  came : ∀ x ∈ s.loader.mods, x.state = .live → x.mod.textSize ≠ 0 → x.mod.addr ≠ s.this →
    ∃ y ∈ (liveBefore s.guard s.seen).take kgMaxBootModules, y.born = x.born
  /-- None went in the window. -/
  went : ∀ y ∈ (liveBefore s.guard s.seen).take kgMaxBootModules, y.mod.textSize ≠ 0 →
    ∃ x ∈ s.loader.mods, x.born = y.born ∧ x.state = .live

theorem mem_pinned {s : Integrity} {y : Loaded} (hy : y ∈ s.pinnedAtSnapshot) :
    y ∈ s.seen ∧ y.state = .live ∧ y.born < s.guard.born :=
  mem_liveBefore.mp (List.mem_of_mem_take hy)

theorem pinned_newest {s : Integrity} (h : s.Inv) :
    (s.guard :: s.pinnedAtSnapshot).Pairwise fun x y => y.born < x.born := by
  refine List.pairwise_cons.mpr ⟨fun y hy => (mem_pinned hy).2.2, ?_⟩
  exact (h.seenBy.newest.filter _).take

theorem InStep.exact {s : Integrity} (h : s.Inv) (hreg : s.step = .register) (hin : InStep s) :
    Exact { s with step := .returned } := by
  have howners : s.owners = textKeys (s.guard :: s.pinnedAtSnapshot) := by
    have henum := h.enumerated
    rw [Enumerated, hreg] at henum
    exact henum
  refine ⟨?_, fun o => ?_⟩
  · show s.owners.Nodup
    rw [howners]
    exact textKeys_nodup (pinned_newest h)
  show o ∈ s.owners ↔ Watched s.this s.loader.mods o
  rw [howners, mem_textKeys]
  constructor
  · intro ho
    obtain ⟨y, hy, htext, hkey⟩ := ho
    rcases List.mem_cons.mp hy with rfl | hy
    · obtain ⟨k, hk, hmod, hborn, -⟩ := h.guard
      refine ⟨k, hk, ?_, by rw [hmod]; exact htext, Or.inr (by rw [hmod]; rfl)⟩
      rw [← hkey, Loaded.key, Loaded.key, hmod, hborn]
    · obtain ⟨x, hx, hborn, hlive⟩ := hin.went y hy htext
      have hmod := (h.seenBy.same y (mem_pinned hy).1 x hx hborn).1
      refine ⟨x, hx, ?_, by rw [hmod]; exact htext, Or.inl hlive⟩
      rw [← hkey, Loaded.key, Loaded.key, hmod, hborn]
  · intro hw
    obtain ⟨x, hx, hkey, htext, hstate⟩ := hw
    by_cases hthis : x.mod.addr = s.this
    · obtain ⟨hmod, hborn, -⟩ := h.toBase.stays hx hthis
      refine ⟨s.guard, List.mem_cons_self, by rw [← hmod]; exact htext, ?_⟩
      rw [← hkey, Loaded.key, Loaded.key, hmod, hborn]
    · have hlive : x.state = .live := hstate.resolve_right hthis
      obtain ⟨y, hy, hborn⟩ := hin.came x hx hlive htext hthis
      have hmod := (h.seenBy.same y (mem_pinned hy).1 x hx hborn.symm).1
      refine ⟨y, List.mem_cons_of_mem _ hy, by rw [← hmod]; exact htext, ?_⟩
      rw [← hkey, Loaded.key, Loaded.key, hmod, hborn]

theorem InStep.of_tracks {s : Integrity} (h : s.Inv) (hreg : s.step = .register)
    (ht : Tracks { s with step := .returned }) : InStep s := by
  have howners : s.owners = textKeys (s.guard :: s.pinnedAtSnapshot) := by
    have henum := h.enumerated
    rw [Enumerated, hreg] at henum
    exact henum
  refine ⟨?_, ?_⟩
  · intro x hx hlive htext hother
    have hone := ht.one x hx hlive htext
    rw [regions_owned] at hone
    have hmem : x.key ∈ s.owners := List.count_pos_iff.mp (by
      have : s.owners.count x.key = 1 := hone
      omega)
    rw [howners] at hmem
    obtain ⟨y, hy, -, hkey⟩ := mem_textKeys.mp hmem
    rcases List.mem_cons.mp hy with rfl | hy
    · exact absurd (congrArg Prod.fst hkey).symm hother
    · exact ⟨y, hy, congrArg Prod.snd hkey⟩
  · intro y hy htext
    have hmem : y.key ∈ s.owners := by
      rw [howners]
      exact mem_textKeys.mpr ⟨y, List.mem_cons_of_mem _ hy, htext, rfl⟩
    obtain ⟨r, hr, hrkey⟩ := List.mem_filterMap.mp hmem
    obtain ⟨addr, hmod, hpair⟩ := Option.map_eq_some_iff.mp hrkey
    obtain ⟨x, hx, hbelongs, hstate⟩ := ht.present r hr (by rw [hmod]; simp)
    simp only [KgRegion.belongsTo, Bool.and_eq_true, decide_eq_true_eq] at hbelongs
    have hborn : x.born = y.born := hbelongs.2.symm.trans (congrArg Prod.snd hpair)
    refine ⟨x, hx, hborn, ?_⟩
    have hnot := (h.seenBy.same y (mem_pinned hy).1 x hx hborn).2 (mem_pinned hy).2.1
    cases hx' : x.state with
    | coming => exact absurd hx' hnot
    | live => rfl
    | going => exact absurd hx' hstate

/-- The step registers the notifier. -/
def Registers (s : Integrity) : IntegrityOp → Prop
  | .init _ => s.step = .register
  | .loader _ _ => False

theorem next_of_registers {s : Integrity} {op : IntegrityOp} (h : Registers s op) :
    s.step = .register ∧ s.next op = { s with step := .returned } := by
  cases op with
  | loader op alloc => exact h.elim
  | init alloc =>
      refine ⟨h, ?_⟩
      show initStep alloc s = _
      unfold initStep
      rw [show s.step = .register from h]

/-- A step that is not the registration does not end init. -/
theorem next_returned {s : Integrity} {op : IntegrityOp} (h : (s.next op).step = .returned) :
    s.step = .returned ∨ Registers s op := by
  cases op with
  | loader op alloc =>
      obtain ⟨l, rs, n, heq, -⟩ := loaderStep_frame alloc op s
      rw [show s.next (.loader op alloc) = loaderStep alloc op s from rfl, heq] at h
      exact Or.inl h
  | init alloc =>
      rw [show s.next (.init alloc) = initStep alloc s from rfl] at h
      unfold initStep at h
      cases hstep : s.step with
      | register => exact Or.inr hstep
      | returned => exact Or.inl rfl
      | own => simp [hstep] at h
      | snapshot => simp [hstep] at h
      | put x held => simp [hstep] at h
      | add held =>
          rw [hstep] at h
          cases held <;> simp at h

/--
**When the table tracks the modules.**  Take any history of loads and unloads in which
kernelguard is being loaded, and any interleaving of the steps of `kg_integrity_init`
with the loader, with memory and room for every baseline copy.  In every state of the
run after init has returned, each LIVE module with text has exactly one region and no
region belongs to a module that has gone, exactly when at the registration of the
notifier the LIVE modules with text were those that the snapshot had pinned.
-/
theorem regions_track_iff (history : List ModOp) (k : Loaded) (vmlinux textMaxMb : Nat)
    (ops : List IntegrityOp) (hk : k ∈ (exec ModList.step ModList.empty history).mods)
    (hcoming : k.state = .coming) :
    let s₀ := integrityStart (exec ModList.step ModList.empty history) k vmlinux textMaxMb
    Along Integrity.next s₀ ops Unhindered →
      ((∀ pre post, ops = pre ++ post → (exec Integrity.next s₀ pre).step = .returned →
          Tracks (exec Integrity.next s₀ pre)) ↔
        Along Integrity.next s₀ ops fun s op => Registers s op → InStep s) := by
  intro s₀ hun
  have hinv₀ : s₀.Inv := by
    refine ⟨⟨modList_ok history, rfl, rfl, k, hk, rfl, rfl, by rw [hcoming]; decide⟩, ?_, rfl⟩
    exact ⟨.nil, by simp [s₀, integrityStart], by simp [s₀, integrityStart]⟩
  have hinv : ∀ pre post, ops = pre ++ post → (exec Integrity.next s₀ pre).Inv := by
    intro pre post hsplit
    rw [hsplit] at hun
    exact exec_invariant_of (fun _ _ h hu => h.next hu) hinv₀ pre hun.left
  constructor
  · intro htracks pre op post hsplit hreg
    obtain ⟨hstep, hnext⟩ := next_of_registers hreg
    have hafter : exec Integrity.next s₀ (pre ++ [op])
        = { exec Integrity.next s₀ pre with step := .returned } := by
      rw [exec_snoc, hnext]
    refine InStep.of_tracks (hinv pre _ hsplit) hstep ?_
    rw [← hafter]
    refine htracks (pre ++ [op]) post (by simp [hsplit]) ?_
    rw [hafter]
  · intro hcond pre post hsplit hret
    have hrun : (exec Integrity.next s₀ pre).Inv ∧
        ((exec Integrity.next s₀ pre).step = .returned → Exact (exec Integrity.next s₀ pre)) := by
      rw [hsplit] at hcond hun
      refine exec_invariant_of
        (P := fun s : Integrity => s.Inv ∧ (s.step = .returned → Exact s))
        (C := fun s op => Unhindered s op ∧ (Registers s op → InStep s))
        (fun s op h hC => ?_) ⟨hinv₀, fun h => absurd h (by simp [s₀, integrityStart])⟩ pre
        (fun pre' op post' h => ⟨hun.left pre' op post' h, hcond.left pre' op post' h⟩)
      refine ⟨h.1.next hC.1, fun hafter => ?_⟩
      rcases next_returned hafter with hbefore | hreg
      · exact (h.2 hbefore).next h.1.toBase hbefore hC.1
      · obtain ⟨hstep, hnext⟩ := next_of_registers hreg
        rw [hnext]
        exact (hC.2 hreg).exact h.1 hstep
    exact (hrun.2 hret).tracks hrun.1.toBase

/-! Three modules again, with the newer one loaded at different moments. -/

instance (s : Integrity) (op : IntegrityOp) : Decidable (Unhindered s op) :=
  inferInstanceAs (Decidable (_ ∧ _))

instance (s : Integrity) : (op : IntegrityOp) → Decidable (Registers s op)
  | .init _ => inferInstanceAs (Decidable (s.step = .register))
  | .loader _ _ => .isFalse id

instance (s : Integrity) : Decidable (InStep s) :=
  decidable_of_iff
    ((∀ x ∈ s.loader.mods, x.state = .live → x.mod.textSize ≠ 0 → x.mod.addr ≠ s.this →
      ∃ y ∈ (liveBefore s.guard s.seen).take kgMaxBootModules, y.born = x.born) ∧
    (∀ y ∈ (liveBefore s.guard s.seen).take kgMaxBootModules, y.mod.textSize ≠ 0 →
      ∃ x ∈ s.loader.mods, x.born = y.born ∧ x.state = .live))
    ⟨fun h => ⟨h.1, h.2⟩, fun h => ⟨h.came, h.went⟩⟩

/-- Kernelguard is being loaded on a machine that has one module. -/
def beforeInit : List ModOp := [.load olderModule, .live 0x1000, .load guardModule]

def guardComing : Loaded := ⟨guardModule, .coming, 1⟩

/-- The steps of init there: its own text, the snapshot, one module, the registration. -/
def initSteps : List IntegrityOp := List.replicate 6 (.init true)

def newerComes : List IntegrityOp :=
  [.loader (.load newerModule) true, .loader (.live 0x3000) true]

/-- A module that is loaded after the registration is tracked. -/
theorem regions_track_iff_later :
    Tracks (exec Integrity.next
      (integrityStart (exec ModList.step ModList.empty beforeInit) guardComing 0x1000000 128)
      (initSteps ++ newerComes)) := by
  refine (regions_track_iff beforeInit guardComing 0x1000000 128 (initSteps ++ newerComes)
    (by decide) rfl ?_).mpr ?_ _ [] (by simp) ?_
  · decide +kernel
  · decide +kernel
  · decide +kernel

/-- The table tracks the modules, wherever the loader acts between the steps of init. -/
def RegionsAlwaysTrack : Prop :=
  ∀ (history : List ModOp) (k : Loaded) (vmlinux textMaxMb : Nat) (ops : List IntegrityOp),
    k ∈ (exec ModList.step ModList.empty history).mods → k.state = .coming →
    let s₀ := integrityStart (exec ModList.step ModList.empty history) k vmlinux textMaxMb
    Along Integrity.next s₀ ops Unhindered →
      (exec Integrity.next s₀ ops).step = .returned → Tracks (exec Integrity.next s₀ ops)

/-- A module that reaches LIVE between the snapshot and the registration has no region. -/
theorem window_module_untracked : ¬ RegionsAlwaysTrack := by
  intro h
  have htracks := h beforeInit guardComing 0x1000000 128
    (initSteps.take 2 ++ newerComes ++ initSteps.drop 2) (by decide) rfl (by decide +kernel)
    (by decide +kernel)
  have hone := htracks.one ⟨newerModule, .live, 2⟩ (by decide +kernel) rfl (by decide)
  exact absurd hone (by decide +kernel)

end KernelGuard
