/-
What the neutralization of keyboard filters on Windows keeps, over whole runs.

The dispatch table of a driver belongs to its first entry.  That entry was made when neither
routine was the stub, so it has both of the driver's own routines saved (`KbdInv.saved`), and
the unload meets it before any other entry of the driver.  A later entry may have saved
nothing, or the stub; it does not matter.

So the invariant says what stands in a slot of a dispatch table: a routine the
driver has installed itself, or the stub, and then the first entry of the driver has
a routine of its own saved for the slot.  A step of the walk replaces a routine by
the stub only behind saving it; a driver that rewrites its table installs a routine
of its own; and the unload takes the entries from the front, so that it comes to the
first entry of a driver while the stub is still there, and finds no stub of this
driver later.
-/
import KernelGuard.Model.KbdNeutralize
import KernelGuard.Lib.Run

namespace KernelGuard

open Bytes

variable {w : KbdObjects}

def kbdRun (w : KbdObjects) (s : KbdState) (acts : List KbdMove) : List KbdEvent × KbdState :=
  Run.loop (fun a s => kbdMove w s a) acts s

theorem kbdRun_snoc (s : KbdState) (acts : List KbdMove) (a : KbdMove) :
    kbdRun w s (acts ++ [a])
      = ((kbdRun w s acts).1 ++ (kbdMove w (kbdRun w s acts).2 a).1,
        (kbdMove w (kbdRun w s acts).2 a).2) := by
  rw [kbdRun, Run.loop, Run.outputs_snoc, Run.exec_snoc]
  rfl

/-! ### The table and the dispatch tables

The loops over the entries write to the dispatch tables of drivers, and several
entries may be of one driver.  Each loop is described by what it does to one slot of
one driver, where only the first entry of the driver matters; that is the induction,
over the entries from the front.
-/

/-- The first entry with a device of the driver. -/
def entryOf (w : KbdObjects) (drv : Nat) (filters : List NeutralizedFilter) :
    Option NeutralizedFilter :=
  filters.find? fun nf => w.driver nf.unauthorizedDev = some drv

theorem entryOf_cons (drv : Nat) (nf : NeutralizedFilter) (rest : List NeutralizedFilter) :
    entryOf w drv (nf :: rest)
      = if w.driver nf.unauthorizedDev = some drv then some nf else entryOf w drv rest := by
  by_cases h : w.driver nf.unauthorizedDev = some drv
  · simp [entryOf, h]
  · simp [entryOf, h]

theorem entryOf_append (drv : Nat) (filters : List NeutralizedFilter) (nf : NeutralizedFilter) :
    entryOf w drv (filters ++ [nf])
      = (entryOf w drv filters).or (entryOf w drv [nf]) := by
  simp [entryOf, List.find?_append]

theorem isNeutralized_iff {filters : List NeutralizedFilter} {dev : Nat} :
    isNeutralized filters dev = true ↔ dev ∈ filters.map (·.unauthorizedDev) := by
  simp [isNeutralized]

/-- A device in the table gives its driver an entry. -/
theorem entryOf_isSome {filters : List NeutralizedFilter} {dev drv : Nat}
    (hdev : isNeutralized filters dev = true) (hdrv : w.driver dev = some drv) :
    (entryOf w drv filters).isSome = true := by
  rw [isNeutralized_iff, List.mem_map] at hdev
  obtain ⟨nf, hmem, rfl⟩ := hdev
  rw [entryOf, List.find?_isSome]
  exact ⟨nf, hmem, by simpa using hdrv⟩

theorem setLower_devs (dev : Nat) (lower : Option Nat) (filters : List NeutralizedFilter) :
    (setLower dev lower filters).map (·.unauthorizedDev) = filters.map (·.unauthorizedDev) := by
  induction filters with
  | nil => rfl
  | cons nf rest ih =>
      rw [setLower]
      split
      · rfl
      · rw [List.map_cons, List.map_cons, ih]

theorem setLower_entry (dev : Nat) (lower : Option Nat) (drv : Nat)
    (filters : List NeutralizedFilter) :
    (entryOf w drv (setLower dev lower filters)).map (·.original)
      = (entryOf w drv filters).map (·.original) := by
  induction filters with
  | nil => rfl
  | cons nf rest ih =>
      rw [setLower]
      split
      · rw [entryOf_cons, entryOf_cons]
        split <;> rfl
      · rw [entryOf_cons, entryOf_cons]
        split
        · rfl
        · exact ih

/-- What `EnsureNeutralizedStillPatched` writes to the dispatch tables. -/
theorem ensureLoop_major (filters : List NeutralizedFilter) (major : Nat → IrpMajor → Dispatch)
    (drv : Nat) (slot : IrpMajor) :
    (ensureLoop w filters major).2.1 drv slot
      = if (entryOf w drv filters).isSome then .passThrough else major drv slot := by
  induction filters generalizing major with
  | nil => rfl
  | cons nf rest ih =>
      rw [ensureLoop, entryOf_cons]
      cases hdrv : w.driver nf.unauthorizedDev with
      | none => simpa using ih major
      | some d =>
          simp only [ih]
          by_cases hd : d = drv
          · subst hd
            simp
          · have hne : ¬some d = some drv := fun h => hd (Option.some.inj h)
            rw [if_neg hne, Function.update_of_ne (Ne.symm hd)]

/-- What it saves in the first entry of a driver. -/
theorem ensureLoop_entry (filters : List NeutralizedFilter) (major : Nat → IrpMajor → Dispatch)
    (drv : Nat) :
    (entryOf w drv (ensureLoop w filters major).1).map (·.original)
      = (entryOf w drv filters).map fun nf slot =>
          if major drv slot = .passThrough then nf.original slot else some (major drv slot) := by
  induction filters generalizing major with
  | nil => rfl
  | cons nf rest ih =>
      rw [ensureLoop, entryOf_cons]
      cases hdrv : w.driver nf.unauthorizedDev with
      | none =>
          simp only [entryOf_cons, hdrv]
          simpa using ih major
      | some d =>
          simp only [entryOf_cons, hdrv]
          by_cases hd : d = drv
          · subst hd
            simp
          · have hne : ¬some d = some drv := fun h => hd (Option.some.inj h)
            rw [if_neg hne, if_neg hne, ih, Function.update_of_ne (Ne.symm hd)]

/-- Devices and lower devices stay. -/
theorem ensureLoop_pairs (filters : List NeutralizedFilter) (major : Nat → IrpMajor → Dispatch) :
    (ensureLoop w filters major).1.map (fun nf => (nf.unauthorizedDev, nf.lowerDev))
      = filters.map (fun nf => (nf.unauthorizedDev, nf.lowerDev)) := by
  induction filters generalizing major with
  | nil => rfl
  | cons nf rest ih =>
      rw [ensureLoop]
      cases hdrv : w.driver nf.unauthorizedDev with
      | none => simp [ih]
      | some d => simp [ih]

theorem ensureLoop_devs (filters : List NeutralizedFilter) (major : Nat → IrpMajor → Dispatch) :
    (ensureLoop w filters major).1.map (·.unauthorizedDev) = filters.map (·.unauthorizedDev) := by
  have h := congrArg (List.map Prod.fst) (ensureLoop_pairs (w := w) filters major)
  simpa [Function.comp_def] using h

theorem restoreLoop_cons (nf : NeutralizedFilter) (rest : List NeutralizedFilter)
    (major : Nat → IrpMajor → Dispatch) {d : Nat} (hdrv : w.driver nf.unauthorizedDev = some d) :
    restoreLoop w (nf :: rest) major
      = restoreLoop w rest (Function.update major d (nf.restore (major d))) := by
  rw [restoreLoop]
  simp only [hdrv]

theorem restoreLoop_skip (nf : NeutralizedFilter) (rest : List NeutralizedFilter)
    (major : Nat → IrpMajor → Dispatch) (hdrv : w.driver nf.unauthorizedDev = none) :
    restoreLoop w (nf :: rest) major = restoreLoop w rest major := by
  rw [restoreLoop]
  simp only [hdrv]

theorem restore_own (nf : NeutralizedFilter) {major : IrpMajor → Dispatch} {slot : IrpMajor}
    (h : major slot ≠ .passThrough) : nf.restore major slot = major slot := by
  rw [NeutralizedFilter.restore]
  cases nf.original slot with
  | none => rfl
  | some original => exact if_neg h

/-- A routine that is not the stub is not touched by the unload. -/
theorem restoreLoop_own (filters : List NeutralizedFilter) {major : Nat → IrpMajor → Dispatch}
    {drv : Nat} {slot : IrpMajor} (h : major drv slot ≠ .passThrough) :
    restoreLoop w filters major drv slot = major drv slot := by
  induction filters generalizing major with
  | nil => rfl
  | cons nf rest ih =>
      cases hdrv : w.driver nf.unauthorizedDev with
      | none => rw [restoreLoop_skip nf rest major hdrv, ih h]
      | some d =>
          rw [restoreLoop_cons nf rest major hdrv]
          have hsame :
              Function.update major d (nf.restore (major d)) drv slot = major drv slot := by
            by_cases hd : drv = d
            · subst hd
              rw [Function.update_self]
              exact restore_own nf h
            · rw [Function.update_of_ne hd]
          rw [ih (by rw [hsame]; exact h), hsame]

/-- The stub is replaced by what the first entry of the driver has saved. -/
theorem restoreLoop_saved (filters : List NeutralizedFilter) {major : Nat → IrpMajor → Dispatch}
    {drv : Nat} {slot : IrpMajor} {nf : NeutralizedFilter} {addr : Nat}
    (h : major drv slot = .passThrough) (hentry : entryOf w drv filters = some nf)
    (horiginal : nf.original slot = some (.own addr)) :
    restoreLoop w filters major drv slot = .own addr := by
  induction filters generalizing major with
  | nil => simp [entryOf] at hentry
  | cons nf' rest ih =>
      rw [entryOf_cons] at hentry
      cases hdrv : w.driver nf'.unauthorizedDev with
      | none =>
          rw [hdrv, if_neg (by simp)] at hentry
          rw [restoreLoop_skip nf' rest major hdrv]
          exact ih h hentry
      | some d =>
          rw [hdrv] at hentry
          rw [restoreLoop_cons nf' rest major hdrv]
          by_cases hd : d = drv
          · subst hd
            rw [if_pos rfl] at hentry
            obtain rfl := Option.some.inj hentry
            have hnow : Function.update major d (nf'.restore (major d)) d slot = .own addr := by
              rw [Function.update_self, NeutralizedFilter.restore, horiginal]
              exact if_pos h
            rw [restoreLoop_own rest (by rw [hnow]; simp), hnow]
          · have hne : ¬some d = some drv := fun heq => hd (Option.some.inj heq)
            rw [if_neg hne] at hentry
            refine ih ?_ hentry
            rw [Function.update_of_ne (Ne.symm hd)]
            exact h

/-! ### The invariant -/

theorem KbdObjects.unauthorized_driver {dev drv : Nat} (h : w.unauthorized dev = some drv) :
    w.driver dev = some drv := by
  rw [KbdObjects.unauthorized] at h
  cases hdrv : w.driver dev with
  | none => simp [hdrv] at h
  | some d =>
      cases hname : w.name d with
      | none => simp [hdrv, hname] at h
      | some name => simp_all

theorem KbdState.behindPatch_ne (lower : Option Nat) (dev drv : Nat) (isTopmost : Bool) :
    KbdState.behindPatch lower dev drv isTopmost ≠ .unloaded ∧
      ∀ p c d t, KbdState.behindPatch lower dev drv isTopmost ≠ .neutralize p c d t := by
  cases isTopmost <;> cases lower <;> simp [KbdState.behindPatch]

/-- The dispatch tables behind the patch of `NeutralizeKbdFilterDriver`. -/
def KbdState.patched (s : KbdState) (drv : Nat) : Nat → IrpMajor → Dispatch :=
  if s.major drv .read = .passThrough then s.major
  else Function.update s.major drv fun _ => .passThrough

theorem KbdState.patched_of_ne {s : KbdState} {d drv : Nat} (hd : d ≠ drv) :
    s.patched drv d = s.major d := by
  rw [KbdState.patched]
  split
  · rfl
  · rw [Function.update_of_ne hd]

theorem KbdState.patched_own {s : KbdState} {d drv : Nat} {slot : IrpMajor} {addr : Nat}
    (h : s.patched drv d slot = .own addr) : s.major d slot = .own addr := by
  rw [KbdState.patched] at h
  split at h
  · exact h
  · by_cases hd : d = drv
    · subst hd
      rw [Function.update_self] at h
      cases h
    · rwa [Function.update_of_ne hd] at h

/-- `owned drv slot addr`: the driver has installed this routine there. -/
structure KbdInv (w : KbdObjects) (owned : Nat → IrpMajor → Nat → Prop) (s : KbdState) : Prop where
  room : s.filters.length ≤ maxNeutralizedFilters
  /-- No device has two entries. -/
  nodup : (s.filters.map (·.unauthorizedDev)).Nodup
  own : ∀ drv slot addr, s.major drv slot = .own addr → owned drv slot addr
  /-- The stub is only where there is an entry. -/
  hooked : s.at_ ≠ .unloaded → ∀ drv slot, s.major drv slot = .passThrough →
    (entryOf w drv s.filters).isSome = true
  clean : s.at_ = .unloaded → ∀ drv slot, s.major drv slot ≠ .passThrough
  /-- The first entry of a driver has saved both of its routines. -/
  saved : ∀ drv original, (entryOf w drv s.filters).map (·.original) = some original →
    ∀ slot, ∃ addr, original slot = some (.own addr) ∧ owned drv slot addr
  off : w.enforcing = false → s.filters = []
  pending : ∀ prev current drv isTopmost, s.at_ = .neutralize prev current drv isTopmost →
    w.driver current = some drv ∧ w.enforcing = true

namespace KbdInv

variable {owned : Nat → IrpMajor → Nat → Prop} {s : KbdState}

theorem start (first : Nat → IrpMajor → Nat) (attached : Nat → Option Nat) (n : UInt32) :
    KbdInv w (fun drv slot addr => addr = first drv slot) (.start first attached n) where
  room := by simp [KbdState.start]
  nodup := by simp [KbdState.start]
  own := fun drv slot addr h => by simpa [KbdState.start, eq_comm] using h
  hooked := fun _ drv slot h => by simp [KbdState.start] at h
  clean := fun h => by simp [KbdState.start] at h
  saved := fun drv original h => by simp [KbdState.start, entryOf] at h
  off := fun _ => rfl
  pending := fun prev current drv isTopmost h => by simp [KbdState.start] at h

theorem mono {owned' : Nat → IrpMajor → Nat → Prop} (h : KbdInv w owned s)
    (himp : ∀ drv slot addr, owned drv slot addr → owned' drv slot addr) : KbdInv w owned' s where
  room := h.room
  nodup := h.nodup
  own := fun drv slot addr heq => himp _ _ _ (h.own drv slot addr heq)
  hooked := h.hooked
  clean := h.clean
  saved := fun drv original heq slot => by
    obtain ⟨addr, horiginal, hown⟩ := h.saved drv original heq slot
    exact ⟨addr, horiginal, himp _ _ _ hown⟩
  off := h.off
  pending := h.pending

/-- Steps that leave the tables alone. -/
theorem keep (h : KbdInv w owned s) {s' : KbdState} (hfilters : s'.filters = s.filters)
    (hmajor : s'.major = s.major) (hat : s'.at_ = .unloaded ↔ s.at_ = .unloaded)
    (hpending : ∀ prev current drv isTopmost, s'.at_ = .neutralize prev current drv isTopmost →
      w.driver current = some drv ∧ w.enforcing = true) : KbdInv w owned s' where
  room := by rw [hfilters]; exact h.room
  nodup := by rw [hfilters]; exact h.nodup
  own := by rw [hmajor]; exact h.own
  hooked := by rw [hfilters, hmajor, Ne, hat]; exact h.hooked
  clean := by rw [hmajor, hat]; exact h.clean
  saved := by rw [hfilters]; exact h.saved
  off := by rw [hfilters]; exact h.off
  pending := hpending

/-- The walk moves on. -/
theorem goTo (h : KbdInv w owned s) (hat : s.at_ ≠ .unloaded) {p : KbdAt} (hp : p ≠ .unloaded)
    (hpending : ∀ prev current drv isTopmost, p = .neutralize prev current drv isTopmost →
      w.driver current = some drv ∧ w.enforcing = true) : KbdInv w owned { s with at_ := p } :=
  h.keep rfl rfl (by simp [hat, hp]) hpending

theorem lookAt (h : KbdInv w owned s) (hat : s.at_ ≠ .unloaded) (prev : Option Nat)
    (current : Nat) : KbdInv w owned (s.lookAt w prev current).2 := by
  rw [KbdState.lookAt]
  cases hdrv : w.unauthorized current with
  | none => exact h.goTo hat (by simp) (by simp)
  | some drv =>
      have hdriver := w.unauthorized_driver hdrv
      have hp : ∀ topmost, (if w.enforcing then KbdAt.neutralize prev current drv topmost
          else .advance current) ≠ .unloaded := by
        intro topmost
        split <;> simp
      have hpending : ∀ topmost p c d t, (if w.enforcing then
          KbdAt.neutralize prev current drv topmost else .advance current) = .neutralize p c d t →
          w.driver c = some d ∧ w.enforcing = true := by
        intro topmost p c d t heq
        by_cases hon : w.enforcing = true
        · rw [if_pos hon] at heq
          injection heq with _ hc hd _
          exact ⟨by rw [← hc, ← hd]; exact hdriver, hon⟩
        · rw [if_neg hon] at heq
          cases heq
      dsimp only
      split
      · exact h.goTo hat (hp _) (hpending _)
      · exact h.keep rfl rfl (by simp [hat, hp]) (hpending _)

/-- Writing `LowerDev` again. -/
theorem setLower (h : KbdInv w owned s) (hat : s.at_ ≠ .unloaded) (dev : Nat)
    (lower : Option Nat) :
    KbdInv w owned { s with filters := setLower dev lower s.filters, at_ := .advance dev } where
  room := by
    have hlen := congrArg List.length (setLower_devs dev lower s.filters)
    simp only [List.length_map] at hlen
    show (KernelGuard.setLower dev lower s.filters).length ≤ _
    rw [hlen]
    exact h.room
  nodup := by
    show ((KernelGuard.setLower dev lower s.filters).map _).Nodup
    rw [setLower_devs]
    exact h.nodup
  own := h.own
  hooked := fun _ drv slot hstub => by
    have hentry := setLower_entry (w := w) dev lower drv s.filters
    have hsome := congrArg Option.isSome hentry
    rw [Option.isSome_map, Option.isSome_map] at hsome
    exact hsome.trans (h.hooked hat drv slot hstub)
  clean := fun hun => by cases hun
  saved := fun drv original heq => by
    rw [setLower_entry] at heq
    exact h.saved drv original heq
  off := fun hoff => by
    show KernelGuard.setLower dev lower s.filters = []
    rw [h.off hoff]
    rfl
  pending := fun prev current drv isTopmost heq => by cases heq

theorem insert_nodup (h : KbdInv w owned s) {dev drv : Nat} (lower : Option Nat)
    (hnew : isNeutralized s.filters dev ≠ true) :
    ((s.filters ++ [s.entryFor w lower dev drv]).map (·.unauthorizedDev)).Nodup := by
  rw [List.map_append, List.map_singleton, List.nodup_append]
  refine ⟨h.nodup, by simp, ?_⟩
  intro a ha b hb
  rw [List.mem_singleton.mp hb]
  rintro rfl
  exact hnew (isNeutralized_iff.mpr ha)

/-- The new entry is one of its driver, and of no other. -/
theorem entryOf_insert {dev drv : Nat} (hdrv : w.driver dev = some drv) (lower : Option Nat)
    (d : Nat) :
    entryOf w d (s.filters ++ [s.entryFor w lower dev drv])
      = (entryOf w d s.filters).or (if d = drv then some (s.entryFor w lower dev drv) else none) := by
  have hdev : w.driver (s.entryFor w lower dev drv).unauthorizedDev = some drv := hdrv
  rw [entryOf_append, entryOf_cons, hdev]
  simp [entryOf, eq_comm]

theorem insert_hooked (h : KbdInv w owned s) (hat : s.at_ ≠ .unloaded) {dev drv : Nat}
    (hdrv : w.driver dev = some drv) (lower : Option Nat) {d : Nat} {slot : IrpMajor}
    (hstub : s.patched drv d slot = .passThrough) :
    (entryOf w d (s.filters ++ [s.entryFor w lower dev drv])).isSome = true := by
  rw [entryOf_insert hdrv, Option.isSome_or]
  by_cases hd : d = drv
  · simp [hd]
  · rw [KbdState.patched_of_ne hd] at hstub
    rw [h.hooked hat d slot hstub]
    rfl

/-- The first entry of a driver saves its routines: neither of them is the stub, which is only
where there is an entry. -/
theorem entryFor_saved (h : KbdInv w owned s) (hat : s.at_ ≠ .unloaded) {drv : Nat}
    (hfirst : entryOf w drv s.filters = none) (lower : Option Nat) (dev : Nat) (slot : IrpMajor) :
    ∃ addr, (s.entryFor w lower dev drv).original slot = some (.own addr) ∧ owned drv slot addr := by
  have hown (slot : IrpMajor) : s.major drv slot ≠ .passThrough := by
    intro hstub
    have := h.hooked hat drv slot hstub
    rw [hfirst] at this
    cases this
  rw [KbdState.entryFor]
  simp only [if_neg (hown .read), Option.some.injEq]
  cases hmajor : s.major drv slot with
  | passThrough => exact absurd hmajor (hown slot)
  | own addr => exact ⟨addr, rfl, h.own drv slot addr hmajor⟩

theorem insert_saved (h : KbdInv w owned s) (hat : s.at_ ≠ .unloaded) {dev drv : Nat}
    (hdrv : w.driver dev = some drv) (lower : Option Nat) {d : Nat}
    {original : IrpMajor → Option Dispatch}
    (heq : (entryOf w d (s.filters ++ [s.entryFor w lower dev drv])).map (·.original)
      = some original) (slot : IrpMajor) :
    ∃ addr, original slot = some (.own addr) ∧ owned d slot addr := by
  rw [entryOf_insert hdrv] at heq
  cases hentry : entryOf w d s.filters with
  | some old =>
      rw [hentry] at heq
      exact h.saved d original (by rw [hentry]; exact heq) slot
  | none =>
      rw [hentry] at heq
      by_cases hd : d = drv
      · subst hd
        obtain rfl : (s.entryFor w lower dev d).original = original := by simpa using heq
        exact h.entryFor_saved hat hentry lower dev slot
      · simp [hd] at heq

/-- A new entry: the driver has the stub from then on, and its routines are saved if it did not
have an entry before. -/
theorem insert (h : KbdInv w owned s) (hat : s.at_ ≠ .unloaded) (hon : w.enforcing = true)
    {dev drv : Nat} (hdrv : w.driver dev = some drv) (hnew : isNeutralized s.filters dev ≠ true)
    (hroom : s.filters.length < maxNeutralizedFilters) (lower : Option Nat) {p : KbdAt}
    (hp : p ≠ .unloaded)
    (hpending : ∀ prev current drv isTopmost, p ≠ .neutralize prev current drv isTopmost) :
    KbdInv w owned { s with
      filters := s.filters ++ [s.entryFor w lower dev drv], major := s.patched drv, at_ := p } where
  room := by
    rw [List.length_append, List.length_singleton]
    exact hroom
  nodup := h.insert_nodup lower hnew
  own := fun d slot addr heq => h.own d slot addr (KbdState.patched_own heq)
  hooked := fun _ d slot heq => h.insert_hooked hat hdrv lower heq
  clean := fun hun => absurd hun hp
  saved := fun d original heq => h.insert_saved hat hdrv lower heq
  off := fun hoff => by
    rw [hon] at hoff
    cases hoff
  pending := fun prev current d isTopmost heq => absurd heq (hpending _ _ _ _)

theorem neutralize (h : KbdInv w owned s) {prev : Option Nat} {current drv : Nat}
    {isTopmost : Bool} (hat : s.at_ = .neutralize prev current drv isTopmost) :
    KbdInv w owned (s.neutralizeKbdFilterDriver w prev current drv isTopmost).2 := by
  have hun : s.at_ ≠ .unloaded := by rw [hat]; simp
  obtain ⟨hdrv, hon⟩ := h.pending _ _ _ _ hat
  rw [KbdState.neutralizeKbdFilterDriver]
  split
  · exact h.setLower hun current prev
  split
  · exact h.goTo hun (by simp) (by simp)
  · obtain ⟨hp, hpending⟩ := KbdState.behindPatch_ne prev current drv isTopmost
    exact h.insert hun hon hdrv (by assumption) (by omega) prev hp hpending

theorem next (h : KbdInv w owned s) : KbdInv w owned (s.next w).2 := by
  rw [KbdState.next]
  split <;> rename_i hat
  · exact h
  · exact h
  · exact h.lookAt (by rw [hat]; simp) _ _
  · exact h.neutralize hat
  · exact h.keep rfl rfl (by simp [hat]) (by simp)
  · exact h.goTo (by rw [hat]; simp) (by simp) (by simp)
  · split
    · exact h.goTo (by rw [hat]; simp) (by simp) (by simp)
    · exact h.goTo (by rw [hat]; simp) (by simp) (by simp)

/-- `EnsureNeutralizedStillPatched` saves a routine before it replaces it. -/
theorem ensure (h : KbdInv w owned s) (hat : s.at_ = .idle) :
    KbdInv w owned { s with
      filters := (ensureLoop w s.filters s.major).1
      major := (ensureLoop w s.filters s.major).2.1 } where
  room := by
    have hlen := congrArg List.length (ensureLoop_devs (w := w) s.filters s.major)
    simp only [List.length_map] at hlen
    show (ensureLoop w s.filters s.major).1.length ≤ _
    rw [hlen]
    exact h.room
  nodup := by
    show ((ensureLoop w s.filters s.major).1.map _).Nodup
    rw [ensureLoop_devs]
    exact h.nodup
  own := by
    intro drv slot addr heq
    dsimp only at heq
    rw [ensureLoop_major] at heq
    split at heq
    · cases heq
    · exact h.own drv slot addr heq
  hooked := by
    intro _ drv slot heq
    dsimp only at heq ⊢
    have hsome := congrArg Option.isSome (ensureLoop_entry (w := w) s.filters s.major drv)
    rw [Option.isSome_map, Option.isSome_map] at hsome
    rw [hsome]
    rw [ensureLoop_major] at heq
    split at heq
    · assumption
    · exact h.hooked (by rw [hat]; simp) drv slot heq
  clean := fun hun => by
    dsimp only at hun
    rw [hat] at hun
    cases hun
  saved := by
    intro drv original heq slot
    dsimp only at heq
    rw [ensureLoop_entry, Option.map_eq_some_iff] at heq
    obtain ⟨nf, hentry, rfl⟩ := heq
    dsimp only
    cases hmajor : s.major drv slot with
    | passThrough =>
        rw [if_pos rfl]
        exact h.saved drv nf.original (by rw [hentry]; rfl) slot
    | own addr =>
        rw [if_neg (by simp)]
        exact ⟨addr, rfl, h.own drv slot addr hmajor⟩
  off := fun hoff => by
    show (ensureLoop w s.filters s.major).1 = []
    rw [h.off hoff]
    rfl
  pending := fun prev current drv isTopmost heq => by
    dsimp only at heq
    rw [hat] at heq
    cases heq

/-- The unload leaves no stub behind. -/
theorem unload (h : KbdInv w owned s) (hat : s.at_ = .idle) :
    KbdInv w owned { s with major := restoreLoop w s.filters s.major, at_ := .unloaded } := by
  have hrestored : ∀ drv slot, ∃ addr,
      restoreLoop w s.filters s.major drv slot = .own addr ∧ owned drv slot addr := by
    intro drv slot
    cases hmajor : s.major drv slot with
    | own addr =>
        refine ⟨addr, ?_, h.own drv slot addr hmajor⟩
        rw [restoreLoop_own s.filters (by rw [hmajor]; simp), hmajor]
    | passThrough =>
        have hsome := h.hooked (by rw [hat]; simp) drv slot hmajor
        rw [Option.isSome_iff_exists] at hsome
        obtain ⟨nf, hentry⟩ := hsome
        obtain ⟨addr, horiginal, hown⟩ := h.saved drv nf.original (by rw [hentry]; rfl) slot
        exact ⟨addr, restoreLoop_saved s.filters hmajor hentry horiginal, hown⟩
  exact {
    room := h.room
    nodup := h.nodup
    own := by
      intro drv slot addr heq
      obtain ⟨addr', heq', hown⟩ := hrestored drv slot
      dsimp only at heq
      rw [heq', Dispatch.own.injEq] at heq
      rw [← heq]
      exact hown
    hooked := fun hun => absurd rfl hun
    clean := by
      intro _ drv slot heq
      obtain ⟨addr, heq', -⟩ := hrestored drv slot
      dsimp only at heq
      rw [heq'] at heq
      cases heq
    saved := h.saved
    off := h.off
    pending := fun prev current drv isTopmost heq => by cases heq }

/-- A driver writes to its table. -/
theorem rewrite (h : KbdInv w owned s) {drv : Nat} {slot : IrpMajor} {addr : Nat}
    (howned : owned drv slot addr) :
    KbdInv w owned { s with
      major := Function.update s.major drv (Function.update (s.major drv) slot (.own addr)) } := by
  have hwritten : ∀ d t, (d = drv ∧ t = slot ∧
      Function.update s.major drv (Function.update (s.major drv) slot (.own addr)) d t
        = .own addr) ∨
      Function.update s.major drv (Function.update (s.major drv) slot (.own addr)) d t
        = s.major d t := by
    intro d t
    by_cases hd : d = drv
    · subst hd
      by_cases ht : t = slot
      · subst ht
        exact .inl ⟨rfl, rfl, by simp⟩
      · exact .inr (by simp [ht])
    · exact .inr (by simp [hd])
  exact {
    room := h.room
    nodup := h.nodup
    own := by
      intro d t a heq
      rcases hwritten d t with ⟨rfl, rfl, hnow⟩ | hsame
      · dsimp only at heq
        rw [hnow, Dispatch.own.injEq] at heq
        rw [← heq]
        exact howned
      · exact h.own d t a (hsame.symm.trans heq)
    hooked := by
      intro hun d t heq
      rcases hwritten d t with ⟨-, -, hnow⟩ | hsame
      · dsimp only at heq
        rw [hnow] at heq
        cases heq
      · exact h.hooked hun d t (hsame.symm.trans heq)
    clean := by
      intro hun d t heq
      rcases hwritten d t with ⟨-, -, hnow⟩ | hsame
      · dsimp only at heq
        rw [hnow] at heq
        cases heq
      · exact h.clean hun d t (hsame.symm.trans heq)
    saved := h.saved
    off := h.off
    pending := h.pending }

theorem step (h : KbdInv w owned s) (a : KbdMove)
    (howned : ∀ drv slot addr, a = .rewrite drv slot addr → owned drv slot addr) :
    KbdInv w owned (kbdMove w s a).2 := by
  cases a with
  | keyboard dev =>
      rw [kbdMove]
      split
      · rename_i hat
        exact h.goTo (by rw [hat]; simp) (by simp) (by simp)
      · exact h
  | step => exact h.next
  | ensure =>
      rw [kbdMove]
      split
      · rename_i hat
        exact h.ensure hat
      · exact h
  | unload =>
      rw [kbdMove]
      split
      · rename_i hat
        exact h.unload hat
      · exact h
  | rewrite drv slot addr => exact h.rewrite (howned drv slot addr rfl)
  | attach top dev =>
      rw [kbdMove]
      split
      · exact h.keep rfl rfl Iff.rfl h.pending
      · exact h
  | detach lower => exact h.keep rfl rfl Iff.rfl h.pending
  | irp dev slot =>
      rw [kbdMove]
      split
      · exact h
      · split <;> exact h

end KbdInv

/-- The routines a driver has installed itself, at the start or in the run. -/
def Installed (first : Nat → IrpMajor → Nat) (acts : List KbdMove) (drv : Nat) (slot : IrpMajor)
    (addr : Nat) : Prop := addr = first drv slot ∨ .rewrite drv slot addr ∈ acts

theorem KbdInv.run (first : Nat → IrpMajor → Nat) (attached : Nat → Option Nat) (n : UInt32)
    (acts : List KbdMove) :
    KbdInv w (Installed first acts) (kbdRun w (.start first attached n) acts).2 := by
  induction acts using List.reverseRecOn with
  | nil => exact (KbdInv.start first attached n).mono fun drv slot addr h => .inl h
  | append_singleton acts a ih =>
      rw [kbdRun_snoc]
      refine (ih.mono ?_).step a ?_
      · intro drv slot addr h
        exact h.imp_right fun hmem => List.mem_append_left _ hmem
      · rintro drv slot addr rfl
        exact .inr (List.mem_append_right _ (List.mem_singleton.mpr rfl))

/-! ### The stub stays

The half about enforcement: once a driver has the stub in a slot, no step of the
walk takes it out, and the next pass puts it back if the driver did.
-/

/-- The walk does not take the stub out of a slot. -/
theorem stub_next (s : KbdState) {drv : Nat} {slot : IrpMajor}
    (hstub : s.major drv slot = .passThrough) : (s.next w).2.major drv slot = .passThrough := by
  rw [KbdState.next]
  split
  case h_3 =>
    rw [KbdState.lookAt]
    split
    · exact hstub
    · dsimp only
      split <;> exact hstub
  case h_4 prev current d isTopmost hat =>
    rw [KbdState.neutralizeKbdFilterDriver]
    split
    · exact hstub
    split
    · exact hstub
    · dsimp only
      split
      · exact hstub
      · by_cases hd : drv = d
        · rw [hd, Function.update_self]
        · rw [Function.update_of_ne hd]
          exact hstub
  case h_7 => split <;> exact hstub
  all_goals exact hstub

/-- Nothing but the driver itself and the unload takes the stub out of a slot. -/
theorem stub_step (s : KbdState) {a : KbdMove} {drv : Nat} {slot : IrpMajor}
    (hstub : s.major drv slot = .passThrough) (hrewrite : ∀ addr, a ≠ .rewrite drv slot addr)
    (hunload : a ≠ .unload) : (kbdMove w s a).2.major drv slot = .passThrough := by
  cases a with
  | keyboard dev =>
      rw [kbdMove]
      split <;> exact hstub
  | step => exact stub_next s hstub
  | ensure =>
      rw [kbdMove]
      split
      · dsimp only
        rw [ensureLoop_major, hstub, ite_self]
      · exact hstub
  | unload => exact absurd rfl hunload
  | rewrite d t addr =>
      rw [kbdMove]
      dsimp only
      by_cases hd : drv = d
      · subst hd
        have ht : slot ≠ t := by
          rintro rfl
          exact hrewrite addr rfl
        rw [Function.update_self, Function.update_of_ne ht]
        exact hstub
      · rw [Function.update_of_ne hd]
        exact hstub
  | attach top dev =>
      rw [kbdMove]
      split <;> exact hstub
  | detach lower => exact hstub
  | irp dev t =>
      rw [kbdMove]
      split
      · exact hstub
      · split <;> exact hstub

theorem stub_run {s : KbdState} {drv : Nat} {slot : IrpMajor}
    (hstub : s.major drv slot = .passThrough) (acts : List KbdMove)
    (hrewrite : ∀ addr, .rewrite drv slot addr ∉ acts)
    (hunload : .unload ∉ acts) : (kbdRun w s acts).2.major drv slot = .passThrough := by
  induction acts using List.reverseRecOn with
  | nil => exact hstub
  | append_singleton acts a ih =>
      rw [kbdRun_snoc]
      have hall := ih (fun addr h => hrewrite addr (List.mem_append_left _ h))
        (fun h => hunload (List.mem_append_left _ h))
      refine stub_step _ hall (fun addr heq => hrewrite addr ?_) (fun heq => hunload ?_)
      · rw [heq]
        simp
      · rw [heq]
        simp

/-- In every run: behind the unload each routine is one its driver has installed itself; without
enforcement no table is ever patched; and behind a pass of `EnsureNeutralizedStillPatched` the
stub stays in both slots of every recorded driver until the driver writes there, or the unload. -/
theorem kbd_unload_clean (w : KbdObjects) (first : Nat → IrpMajor → Nat)
    (attached : Nat → Option Nat) (n : UInt32) (acts : List KbdMove) :
    let s := (kbdRun w (.start first attached n) acts).2
    (s.at_ = .unloaded → ∀ drv slot, ∃ addr,
      s.major drv slot = .own addr ∧ Installed first acts drv slot addr) ∧
    (w.enforcing = false → ∀ drv slot, s.major drv slot ≠ .passThrough) ∧
    (s.at_ = .idle → ∀ dev drv slot rest, isNeutralized s.filters dev = true →
      w.driver dev = some drv → (∀ addr, .rewrite drv slot addr ∉ rest) → .unload ∉ rest →
      (kbdRun w s (.ensure :: rest)).2.major drv slot = .passThrough) := by
  intro s
  have h : KbdInv w (Installed first acts) s := .run first attached n acts
  refine ⟨fun hun drv slot => ?_, fun hoff drv slot hstub => ?_,
    fun hat dev drv slot rest hdev hdrv hrewrite hunload => ?_⟩
  · cases hmajor : s.major drv slot with
    | passThrough => exact absurd hmajor (h.clean hun drv slot)
    | own addr => exact ⟨addr, rfl, h.own drv slot addr hmajor⟩
  · by_cases hun : s.at_ = .unloaded
    · exact h.clean hun drv slot hstub
    · have hsome := h.hooked hun drv slot hstub
      rw [h.off hoff] at hsome
      cases hsome
  · refine stub_run ?_ rest hrewrite hunload
    have hmajor : (kbdMove w s .ensure).2.major = (ensureLoop w s.filters s.major).2.1 := by
      simp [kbdMove, hat]
    rw [hmajor, ensureLoop_major, entryOf_isSome hdev hdrv]
    rfl

end KernelGuard
