/-
When the cross-check finds nothing on an honest machine.

What the scan lists is neither hidden nor different.  What it does not list looks as if it were
missing in hardware: the devices on deeper buses, and on buses behind the 33rd bridge of a bus,
which the walk never reads.

The cross-check compares two lists, and over an honest machine both come from the
same functions.  So each note is traced to a function: a hidden or a different one
would have to be listed and unknown to the OS, which the honest machine has not; a
missing one is known to the OS and was not listed.  With `kgScanEcam_eq` the second
happens exactly for functions on buses the walk does not enter, and for these the
condition of the theorem is the walk's own limits.
-/
import KernelGuard.Proofs.PciWalk

namespace KernelGuard

open TreeWalk

variable {space : PciAddr → PciConfig} {h : PciHost}

/-! ### The cross-check of an honest machine

Within the limits every function is listed once, and both directions of the
comparison succeed.  The suspects of earlier scans are dropped in the same pass, so
nothing is left to be reported.
-/

theorem devfn_parts {dev fn : UInt8} (hdev : dev < 32) (hfn : fn < 8) :
    pciSlot (pciDevfn dev fn) = dev ∧ pciFunc (pciDevfn dev fn) = fn := by
  have hall : ∀ d ∈ busDevs, ∀ f ∈ busFns,
      pciSlot (pciDevfn d f) = d ∧ pciFunc (pciDevfn d f) = f := by decide +kernel
  exact hall dev (mem_busDevs.mpr hdev) fn (mem_busFns.mpr hfn)

theorem shift_shift (x : UInt32) : (x >>> 8) >>> 8 = x >>> 16 := by
  rw [← UInt32.toNat_inj, UInt32.toNat_shiftRight, UInt32.toNat_shiftRight, UInt32.toNat_shiftRight]
  simp only [UInt32.reduceToNat, Nat.reduceMod]
  rw [← Nat.shiftRight_add]

/-- A function that is listed is neither hidden nor different. -/
theorem hiddenOrDifferent_honest (hon : Honest space h) {a : PciAddr} (ha : IsFn space a) :
    hiddenOrDifferent h (entOf a (space a)) = [] := by
  obtain ⟨q, hq, hqdom, hqbus, hqfn⟩ := hon.complete a ha
  have hsome : (h.getDev a.seg a.bus (pciDevfn a.dev a.fn)).isSome = true := by
    unfold PciHost.getDev
    rw [List.find?_isSome]
    exact ⟨q, hq, by simp [hqdom, hqbus, hqfn]⟩
  obtain ⟨p, hp⟩ := Option.isSome_iff_exists.mp hsome
  have hmem := List.mem_of_find?_eq_some hp
  have hmatch := List.find?_some hp
  simp only [decide_eq_true_eq] at hmatch
  obtain ⟨b, hb, hdom, hbus, hdevfn, hvendor, hdevice, hcls⟩ := hon.enumerated p hmem
  -- the device found is the one at this address
  have hba : b = a := by
    have hseg : b.seg = a.seg := UInt16.toNat_inj.mp (hdom.symm.trans hmatch.1)
    have hdf : pciDevfn b.dev b.fn = pciDevfn a.dev a.fn := hdevfn.symm.trans hmatch.2.2
    have hparts := devfn_parts hb.1 hb.2.1
    rw [hdf] at hparts
    have hparts' := devfn_parts ha.1 ha.2.1
    cases a
    cases b
    simp only [PciAddr.mk.injEq]
    exact ⟨hseg, hbus.symm.trans hmatch.2.1, hparts.1.symm.trans hparts'.1,
      hparts.2.symm.trans hparts'.2⟩
  subst hba
  have hfound : h.getDev (entOf b (space b)).seg (entOf b (space b)).bus
      (pciDevfn (entOf b (space b)).dev (entOf b (space b)).fn) = some p := hp
  unfold hiddenOrDifferent
  rw [hfound]
  simp only [entOf, hvendor, hdevice, hcls, shift_shift, ne_eq, not_true_eq_false, or_self, if_false]

/-- A device of the OS whose function is listed is not missing. -/
theorem missingInHardware_honest (hon : Honest space h)
    (hall : ∀ a, IsFn space a → a ∈ foundAddrs space h) {p : PciDev} (hp : p ∈ h.devs) :
    missingInHardware h (kgScanEcam h) p = [] := by
  obtain ⟨a, ha, hdom, hbus, hdevfn, -⟩ := hon.enumerated p hp
  obtain ⟨hslot, hfunc⟩ := devfn_parts ha.1 ha.2.1
  have haddr : (entOfDev p).toPciAddr = a := by
    unfold entOfDev
    rw [hdevfn, hslot, hfunc, hdom, hbus, UInt16.ofNat_toNat]
  have hfound : (kgScanEcam h).any (fun c => kgSameDev c (entOfDev p)) = true := by
    rw [kgScanEcam_eq hon, List.any_eq_true]
    refine ⟨entOf a (space a), List.mem_map.mpr ⟨a, hall a ha, rfl⟩, ?_⟩
    unfold kgSameDev
    rw [haddr]
    exact decide_eq_true rfl
  unfold missingInHardware
  split_ifs with hskip
  · rfl
  · simp only [hfound, if_true]
    split <;> rfl

/-- Once every function is listed, no suspect is noted. -/
theorem crossNotes_honest (hon : Honest space h)
    (hall : ∀ a, IsFn space a → a ∈ foundAddrs space h) : crossNotes h (kgScanEcam h) = [] := by
  unfold crossNotes
  rw [List.append_eq_nil_iff, List.flatMap_eq_nil_iff, List.flatMap_eq_nil_iff]
  constructor
  · intro e he
    rw [kgScanEcam_eq hon] at he
    obtain ⟨a, ha, rfl⟩ := List.mem_map.mp he
    exact hiddenOrDifferent_honest hon (mem_foundAddrs.mp ha).1
  · intro p hp
    exact missingInHardware_honest hon hall hp

/-- Within the limits of the walk the cross-check reports nothing and drops its old suspects. -/
theorem kgCrossCheck_honest (hon : Honest space h) (hlim : WithinLimits space h)
    (susp : Fin kgMaxSuspect → KgSuspect) :
    (kgCrossCheck h (kgScanEcam h) susp).1 = [] ∧
      ∀ i, ((kgCrossCheck h (kgScanEcam h) susp).2 i).seen = 0 := by
  unfold kgCrossCheck
  rw [crossNotes_honest hon ((found_iff hon).mpr hlim)]
  refine ⟨rfl, fun i => ?_⟩
  show (clearUntouched ⟨susp, fun _ => false⟩ i).seen = 0
  unfold clearUntouched
  by_cases hseen : (susp i).seen = 0
  · rw [if_neg (fun hused => hused.1 hseen)]
    exact hseen
  · rw [if_pos ⟨hseen, rfl⟩]
    rfl

/-- Every function is listed exactly once. -/
def ListsEveryFunction (space : PciAddr → PciConfig) (h : PciHost) : Prop :=
  ∀ a, IsFn space a → ((kgScanEcam h).map (·.toPciAddr)).count a = 1

theorem kgScanEcam_addrs (hon : Honest space h) :
    (kgScanEcam h).map (·.toPciAddr) = foundAddrs space h := by
  rw [kgScanEcam_eq hon, List.map_map]
  exact List.map_id _

/--
**The scan and the OS agree about an honest machine exactly within the limits of the walk.**
Every function is listed once and the cross-check notes no suspect, if and only if every bus
with functions is at most eight bridges below a root, all of them among the first 32 of their
bus.
-/
theorem honest_machine_agrees_iff (space : PciAddr → PciConfig) (h : PciHost)
    (hon : Honest space h) :
    (ListsEveryFunction space h ∧ crossNotes h (kgScanEcam h) = []) ↔ WithinLimits space h := by
  rw [← found_iff hon]
  have hlists : ListsEveryFunction space h ↔ ∀ a, IsFn space a → a ∈ foundAddrs space h := by
    unfold ListsEveryFunction
    rw [kgScanEcam_addrs hon]
    refine forall₂_congr fun a ha => ?_
    constructor
    · intro hcount
      exact List.count_pos_iff.mp (by omega)
    · intro hmem
      exact List.count_eq_one_of_mem (foundAddrs_nodup hon) hmem
  rw [hlists]
  constructor
  · exact And.left
  · intro hall
    exact ⟨hall, crossNotes_honest hon hall⟩

/-! ### A chain of buses

The example is the smallest machine that reaches the limit of the depth: one bridge
on each bus, and an endpoint at the end.  It is a family in the number of buses, and
the limit lies between two members.
-/

/-- The config space of a chain: a bridge on each of the buses below `n`, an endpoint on bus `n`. -/
def chainSpace (n : UInt8) (a : PciAddr) : PciConfig :=
  if a.seg = 0 ∧ a.dev = 0 ∧ a.fn = 0 ∧ a.bus ≤ n then
    if a.bus < n then ⟨0x12348086, 0x0007, 0x06040001, 1, a.bus + 1⟩
    else ⟨0x56788086, 0x0006, 0x01080202, 0, 0⟩
  else .absent

/-- The OS's view of one function of the chain. -/
def chainDev (n bus : UInt8) : PciDev :=
  let c := chainSpace n ⟨0, bus, 0, 0⟩
  { domain := 0, bus := bus, devfn := 0, vendor := (c.id &&& 0xffff).toUInt16,
    device := (c.id >>> 16).toUInt16, cls := c.classRev >>> 8, revision := 0, isVirtfn := false,
    d3cold := false, channelOffline := false, bridgesD3cold := [] }

/-- A machine with this chain in one ECAM range at address 0. -/
def chainHost (n : UInt8) : PciHost where
  ecam := [⟨0, 0, 0, 255, by decide⟩]
  ioremap := fun _ => true
  config := fun p => chainSpace n
    ⟨0, UInt8.ofNat (p / 2 ^ 20), UInt8.ofNat (p / 2 ^ 15 % 32), UInt8.ofNat (p / 2 ^ 12 % 8)⟩
  buses := [⟨0, 0, false⟩]
  devs := (List.range (n.toNat + 1)).map fun b => chainDev n (UInt8.ofNat b)

theorem chain_answers {c : PciConfig} (hid : c.id = 0x12348086 ∨ c.id = 0x56788086) :
    c.answers = true := by
  unfold PciConfig.answers
  rcases hid with hid | hid
  · rw [hid]
    decide
  · rw [hid]
    decide

theorem isBridge_of_hdr {c : PciConfig} (hhdr : c.hdr = 1) : c.isBridge = true := by
  unfold PciConfig.isBridge
  rw [hhdr]
  decide

theorem chain_isFn {n : UInt8} {a : PciAddr} :
    IsFn (chainSpace n) a ↔ a.seg = 0 ∧ a.dev = 0 ∧ a.fn = 0 ∧ a.bus ≤ n := by
  constructor
  · intro h
    obtain ⟨-, -, hans⟩ := h
    unfold chainSpace at hans
    split_ifs at hans with hin
    · exact hin
    · exact hin
    · exact absurd hans (by decide)
  · intro h
    refine ⟨by rw [h.2.1]; decide, by rw [h.2.2.1]; decide, ?_⟩
    unfold chainSpace
    rw [if_pos h]
    split_ifs
    · exact chain_answers (Or.inl rfl)
    · exact chain_answers (Or.inr rfl)

theorem pciDevfn_zero : pciDevfn 0 0 = 0 := by decide

theorem chain_addr {n : UInt8} {a : PciAddr} (ha : IsFn (chainSpace n) a) :
    a = ⟨0, a.bus, 0, 0⟩ := by
  obtain ⟨hseg, hdev, hfn, -⟩ := chain_isFn.mp ha
  cases a
  simp_all

/-- The bridges of the chain are the functions of the buses below `n`. -/
theorem chain_bridge {n : UInt8} {a : PciAddr} (ha : IsFn (chainSpace n) a)
    (hb : (chainSpace n a).isBridge = true) :
    a.bus < n ∧ (chainSpace n a).secondary.toNat = a.bus.toNat + 1 := by
  have hin := chain_isFn.mp ha
  unfold chainSpace at hb ⊢
  rw [if_pos hin] at hb ⊢
  by_cases hlt : a.bus < n
  · rw [if_pos hlt]
    refine ⟨hlt, ?_⟩
    have hlt' := UInt8.lt_iff_toNat_lt.mp hlt
    have hn := n.toNat_lt
    show (a.bus + 1).toNat = _
    rw [UInt8.toNat_add, UInt8.toNat_one]
    omega
  · rw [if_neg hlt] at hb
    exact absurd hb (by decide)

theorem chain_devs {n : UInt8} {p : PciDev} :
    p ∈ (chainHost n).devs ↔ ∃ b, b ≤ n ∧ p = chainDev n b := by
  show p ∈ (List.range (n.toNat + 1)).map _ ↔ _
  rw [List.mem_map]
  constructor
  · intro h
    obtain ⟨b, hb, rfl⟩ := h
    rw [List.mem_range] at hb
    have hn := n.toNat_lt
    refine ⟨UInt8.ofNat b, ?_, rfl⟩
    rw [UInt8.le_iff_toNat_le, UInt8.toNat_ofNat', Nat.mod_eq_of_lt (by omega)]
    omega
  · intro h
    obtain ⟨b, hb, rfl⟩ := h
    have hle := UInt8.le_iff_toNat_le.mp hb
    exact ⟨b.toNat, List.mem_range.mpr (by omega), by rw [UInt8.ofNat_toNat]⟩

/-- The window of a bus holds the pages of its functions. -/
theorem chain_pageAt (n : UInt8) {a : PciAddr} (hseg : a.seg = 0) (hdev : a.dev < 32)
    (hfn : a.fn < 8) : pageAt (chainHost n) (a.bus.toNat * 2 ^ 20) a.dev a.fn = chainSpace n a := by
  have hdev' : a.dev.toNat < 32 := UInt8.lt_iff_toNat_lt.mp hdev
  have hfn' : a.fn.toNat < 8 := UInt8.lt_iff_toNat_lt.mp hfn
  unfold pageAt chainHost
  dsimp only
  rw [show (a.bus.toNat * 2 ^ 20 + a.dev.toNat * 2 ^ 15 + a.fn.toNat * 2 ^ 12) / 2 ^ 20
      = a.bus.toNat by omega,
    show (a.bus.toNat * 2 ^ 20 + a.dev.toNat * 2 ^ 15 + a.fn.toNat * 2 ^ 12) / 2 ^ 15 % 32
      = a.dev.toNat by omega,
    show (a.bus.toNat * 2 ^ 20 + a.dev.toNat * 2 ^ 15 + a.fn.toNat * 2 ^ 12) / 2 ^ 12 % 8
      = a.fn.toNat by omega]
  rw [UInt8.ofNat_toNat, UInt8.ofNat_toNat, UInt8.ofNat_toNat]
  congr 1
  rw [← hseg]

/-- The function above leads to every bus but the first. -/
theorem chain_parent {n : UInt8} {a : PciAddr} (ha : IsFn (chainSpace n) a) (hbus : a.bus ≠ 0) :
    ∃ b, IsFn (chainSpace n) b ∧ b.seg = a.seg ∧ (chainSpace n b).isBridge = true ∧
      (chainSpace n b).secondary = a.bus := by
  obtain ⟨hseg, -, -, hle⟩ := chain_isFn.mp ha
  have hle' := UInt8.le_iff_toNat_le.mp hle
  have hlt' := a.bus.toNat_lt
  have hpos : 0 < a.bus.toNat := Nat.pos_of_ne_zero fun hz => hbus (UInt8.toNat_inj.mp hz)
  have hprev : (a.bus - 1).toNat = a.bus.toNat - 1 := by
    rw [UInt8.toNat_sub_of_le _ _ (UInt8.le_iff_toNat_le.mpr (by rw [UInt8.toNat_one]; exact hpos)),
      UInt8.toNat_one]
  have hfn : IsFn (chainSpace n) ⟨0, a.bus - 1, 0, 0⟩ :=
    chain_isFn.mpr ⟨rfl, rfl, rfl, UInt8.le_iff_toNat_le.mpr (by rw [hprev]; omega)⟩
  have hlt : a.bus - 1 < n := UInt8.lt_iff_toNat_lt.mpr (by rw [hprev]; omega)
  have hb : (chainSpace n ⟨0, a.bus - 1, 0, 0⟩).isBridge = true := by
    unfold chainSpace
    rw [if_pos (chain_isFn.mp hfn), if_pos hlt]
    exact isBridge_of_hdr rfl
  refine ⟨_, hfn, hseg.symm, hb, UInt8.toNat_inj.mp ?_⟩
  rw [(chain_bridge hfn hb).2, hprev]
  omega

theorem chain_forest {n : UInt8} {a b : PciAddr} (ha : IsFn (chainSpace n) a)
    (hb : IsFn (chainSpace n) b) (hba : (chainSpace n a).isBridge = true)
    (hbb : (chainSpace n b).isBridge = true)
    (hsec : (chainSpace n a).secondary = (chainSpace n b).secondary) : a = b := by
  obtain ⟨-, hsa⟩ := chain_bridge ha hba
  obtain ⟨-, hsb⟩ := chain_bridge hb hbb
  rw [hsec] at hsa
  have hbus : a.bus = b.bus := UInt8.toNat_inj.mp (by omega)
  rw [chain_addr ha, chain_addr hb, hbus]

/-- Only the first bus has no bridge above it. -/
theorem chain_root {n : UInt8} {a : PciAddr} (ha : IsFn (chainSpace n) a)
    (hroot : IsRootBus (chainSpace n) a.seg a.bus) : a.bus = 0 := by
  by_contra hne
  obtain ⟨b, hfn, hsegb, hb, hsec⟩ := chain_parent ha hne
  exact hroot b hfn hsegb hb hsec

theorem chain_honest (n : UInt8) : Honest (chainSpace n) (chainHost n) where
  mapped := fun _ _ _ _ => rfl
  window := by
    intro e he a hcov hdev hfn
    obtain rfl : e = ⟨0, 0, 0, 255, by decide⟩ := by simpa [chainHost] using he
    obtain ⟨hseg, -⟩ := covers_iff.mp hcov
    unfold ecamWindow
    rw [UInt8.toNat_zero, Nat.sub_zero, Nat.zero_add]
    exact chain_pageAt n hseg.symm hdev hfn
  covered := by
    intro a ha
    refine ⟨⟨0, 0, 0, 255, by decide⟩, by simp [chainHost], covers_iff.mpr ⟨?_, ?_, ?_⟩⟩
    · exact (chain_isFn.mp ha).1.symm
    · exact UInt8.le_iff_toNat_le.mpr (Nat.zero_le _)
    · exact UInt8.le_iff_toNat_le.mpr (Nat.le_of_lt_succ a.bus.toNat_lt)
  apart := List.pairwise_singleton _ _
  downwards := by
    intro e he a ha _ hb
    obtain rfl : e = ⟨0, 0, 0, 255, by decide⟩ := by simpa [chainHost] using he
    obtain ⟨-, hsec⟩ := chain_bridge ha hb
    refine ⟨UInt8.lt_iff_toNat_lt.mpr (by omega), UInt8.le_iff_toNat_le.mpr ?_⟩
    exact Nat.le_of_lt_succ (UInt8.toNat_lt _)
  forest := fun _ _ ha hb hba hbb _ hsec => chain_forest ha hb hba hbb hsec
  functionZero := by
    intro a ha
    obtain ⟨hseg, hdev, hfn, hbus⟩ := chain_isFn.mp ha
    exact ⟨chain_isFn.mpr ⟨hseg, hdev, rfl, hbus⟩, fun hne => absurd hfn hne⟩
  few := by
    refine ⟨(List.range 256).map fun b => ⟨0, UInt8.ofNat b, 0, 0⟩, by simp [kgMaxPci], ?_⟩
    intro a ha
    refine List.mem_map.mpr ⟨a.bus.toNat, List.mem_range.mpr a.bus.toNat_lt, ?_⟩
    rw [UInt8.ofNat_toNat]
    exact (chain_addr ha).symm
  enumerated := by
    intro p hp
    obtain ⟨b, hb, rfl⟩ := chain_devs.mp hp
    exact ⟨⟨0, b, 0, 0⟩, chain_isFn.mpr ⟨rfl, rfl, rfl, hb⟩, rfl, rfl, pciDevfn_zero.symm, rfl, rfl,
      rfl⟩
  complete := by
    intro a ha
    refine ⟨chainDev n a.bus, chain_devs.mpr ⟨a.bus, (chain_isFn.mp ha).2.2.2, rfl⟩, ?_⟩
    rw [chain_addr ha]
    exact ⟨rfl, rfl, pciDevfn_zero.symm⟩
  powered := by
    intro p hp
    obtain ⟨b, -, rfl⟩ := chain_devs.mp hp
    rfl
  rootKnown := by
    intro a ha hroot
    have hseg := (chain_isFn.mp ha).1
    exact ⟨⟨0, 0, false⟩, by simp [chainHost], rfl, by rw [hseg]; rfl, (chain_root ha hroot).symm⟩
  rootReal := by
    intro pb hpb _ seg _ a ha _ hb hsec
    obtain rfl : pb = ⟨0, 0, false⟩ := by simpa [chainHost] using hpb
    have hs := (chain_bridge ha hb).2
    rw [hsec] at hs
    simp at hs

/-- With eight bridges above the endpoint, all is well. -/
theorem honest_machine_agrees_eight : WithinLimits (chainSpace 8) (chainHost 8) := by
  refine (honest_machine_agrees_iff _ _ (chain_honest 8)).mp ⟨?_, by decide +kernel⟩
  have hall : ∀ b ∈ (List.range 9).map UInt8.ofNat,
      ((kgScanEcam (chainHost 8)).map (·.toPciAddr)).count ⟨0, b, 0, 0⟩ = 1 := by decide +kernel
  intro a ha
  rw [chain_addr ha]
  refine hall a.bus ((mem_range_bytes (by decide)).mpr ?_)
  exact Nat.lt_succ_of_le (UInt8.le_iff_toNat_le.mp (chain_isFn.mp ha).2.2.2)

/-- With nine, the endpoint is not listed, and noted as missing in hardware. -/
theorem deep_chain_suspected :
    Honest (chainSpace 9) (chainHost 9) ∧ IsFn (chainSpace 9) ⟨0, 9, 0, 0⟩ ∧
    ((kgScanEcam (chainHost 9)).map (·.toPciAddr)).count ⟨0, 9, 0, 0⟩ = 0 ∧
    crossNotes (chainHost 9) (kgScanEcam (chainHost 9))
      = [⟨entOfDev (chainDev 9 9), .missingInHw⟩] :=
  ⟨chain_honest 9, chain_isFn.mpr ⟨rfl, rfl, rfl, by decide⟩, by decide +kernel, by decide +kernel⟩

end KernelGuard
