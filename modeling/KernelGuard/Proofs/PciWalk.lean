/-
What the PCI scan lists of an honest machine.

The loops over one bus list the functions that answer, and keep the first 32 bridges.  The
recursion is then the walk of `Lib/TreeWalk.lean` over the buses, with the kept bridges as
edges, and what it lists is the functions of the buses it enters.  In a forest of buses it
enters those that are at most eight kept bridges below a root, and no other.

The scan writes into arrays of a fixed size and goes on when they are full, so each
lemma about a loop says what is appended and then cuts the whole off at the size
(`take_take_append`).  Functions are listed bus by bus, and a bus is entered once,
since in a forest only one bridge leads to it and the walks begin at roots.  Hence
nothing is listed twice, and what the walk lists is decided by the buses.
-/
import KernelGuard.Model.PciScan
import KernelGuard.Lib.TreeWalk
import Mathlib.Data.List.Flatten
import Mathlib.Data.List.Pairwise
import Mathlib.Tactic.SplitIfs

namespace KernelGuard

open TreeWalk

/-! ### Honest machines -/

variable (space : PciAddr → PciConfig)

/-- There is a function at `a`, and it answers. -/
def IsFn (a : PciAddr) : Prop := a.dev < 32 ∧ a.fn < 8 ∧ (space a).answers = true

/-- No bridge of the segment leads to the bus. -/
def IsRootBus (seg : UInt16) (bus : UInt8) : Prop :=
  ∀ a, IsFn space a → a.seg = seg → (space a).isBridge = true → (space a).secondary ≠ bus

/--
The machine is what it seems: a forest of buses, each in one ECAM range, that answers there,
and the OS enumerates exactly the functions of it.  `space` is its config space.
-/
structure Honest (h : PciHost) : Prop where
  mapped : ∀ e ∈ h.ecam, ∀ bus, e.covers e.seg bus = true → h.ioremap (ecamWindow e bus) = true
  window : ∀ e ∈ h.ecam, ∀ a, e.covers a.seg a.bus = true → a.dev < 32 → a.fn < 8 →
    pageAt h (ecamWindow e a.bus) a.dev a.fn = space a
  /-- A bus with functions lies in an ECAM range, and in no other. -/
  covered : ∀ a, IsFn space a → ∃ e ∈ h.ecam, e.covers a.seg a.bus = true
  apart : h.ecam.Pairwise fun e e' => ∀ a, IsFn space a →
    ¬ (e.covers a.seg a.bus = true ∧ e'.covers a.seg a.bus = true)
  /-- A bridge leads to a bus with a higher number in the range of its own. -/
  downwards : ∀ e ∈ h.ecam, ∀ a, IsFn space a → e.covers a.seg a.bus = true →
    (space a).isBridge = true → a.bus < (space a).secondary ∧ (space a).secondary ≤ e.busEnd
  /-- At most one bridge leads to a bus. -/
  forest : ∀ a b, IsFn space a → IsFn space b → (space a).isBridge = true →
    (space b).isBridge = true → a.seg = b.seg → (space a).secondary = (space b).secondary → a = b
  /-- Where a device has functions, it has function 0, which says so if there are others. -/
  functionZero : ∀ a, IsFn space a → IsFn space { a with fn := 0 } ∧
    (a.fn ≠ 0 → (space { a with fn := 0 }).multifn = true)
  few : ∃ fns : List PciAddr, fns.length ≤ kgMaxPci ∧ ∀ a, IsFn space a → a ∈ fns
  /-- The OS's devices are functions with the identity they answer with. -/
  enumerated : ∀ p ∈ h.devs, ∃ a, IsFn space a ∧ p.domain = a.seg.toNat ∧ p.bus = a.bus ∧
    p.devfn = pciDevfn a.dev a.fn ∧ p.vendor = ((space a).id &&& 0xffff).toUInt16 ∧
    p.device = ((space a).id >>> 16).toUInt16 ∧ p.cls = (space a).classRev >>> 8
  complete : ∀ a, IsFn space a → ∃ p ∈ h.devs, p.domain = a.seg.toNat ∧ p.bus = a.bus ∧
    p.devfn = pciDevfn a.dev a.fn
  powered : ∀ p ∈ h.devs, kgPdevPoweredOff p = false
  /-- The OS's root buses are those no bridge leads to. -/
  rootKnown : ∀ a, IsFn space a → IsRootBus space a.seg a.bus →
    ∃ pb ∈ h.buses, pb.hasParent = false ∧ pb.domain = a.seg.toNat ∧ pb.number = a.bus
  rootReal : ∀ pb ∈ h.buses, pb.hasParent = false → ∀ seg : UInt16, pb.domain = seg.toNat →
    IsRootBus space seg pb.number

/-! ### One bus

A device without a function 0 is passed over, and one whose header type lacks the
multi-function bit has its first function read only.  On an honest machine the other
functions do not answer then, so in both cases nothing that is there is missed.
-/

/-- The functions of a device among `fns` that answer. -/
def fnAddrs (seg : UInt16) (bus dev : UInt8) (fns : List UInt8) : List PciAddr :=
  (fns.filter fun fn => (space ⟨seg, bus, dev, fn⟩).answers).map fun fn => ⟨seg, bus, dev, fn⟩

/-- The functions of a bus that answer, in the order of the loops. -/
def busAddrs (seg : UInt16) (bus : UInt8) : List PciAddr :=
  busDevs.flatMap fun dev =>
    (busFns.filter fun fn => (space ⟨seg, bus, dev, fn⟩).answers).map fun fn => ⟨seg, bus, dev, fn⟩

/-- The bus behind a bridge, if the walk accepts it. -/
def secondaryOf (e : KgEcamSeg) (a : PciAddr) : List UInt8 :=
  if (space a).isBridge ∧ a.bus < (space a).secondary ∧ (space a).secondary ≤ e.busEnd then
    [(space a).secondary]
  else []

/-- The buses the walk goes on to from `bus`: those behind its first 32 bridges. -/
def keptBridges (e : KgEcamSeg) (bus : UInt8) : List UInt8 :=
  if e.busStart ≤ bus then ((busAddrs space e.seg bus).flatMap (secondaryOf space e)).take maxSecondaries
  else []

theorem mem_range_bytes {n : Nat} (hn : n ≤ 256) {x : UInt8} :
    x ∈ (List.range n).map UInt8.ofNat ↔ x.toNat < n := by
  rw [List.mem_map]
  constructor
  · intro h
    obtain ⟨d, hd, rfl⟩ := h
    rw [List.mem_range] at hd
    rw [UInt8.toNat_ofNat', Nat.mod_eq_of_lt (by omega)]
    exact hd
  · intro h
    exact ⟨x.toNat, List.mem_range.mpr h, UInt8.ofNat_toNat⟩

theorem mem_busDevs {dev : UInt8} : dev ∈ busDevs ↔ dev < 32 := by
  rw [UInt8.lt_iff_toNat_lt]
  exact mem_range_bytes (by decide)

theorem mem_busFns {fn : UInt8} : fn ∈ busFns ↔ fn < 8 := by
  rw [UInt8.lt_iff_toNat_lt, show busFns = (List.range 8).map UInt8.ofNat by decide]
  exact mem_range_bytes (by decide)

theorem busDevs_nodup : busDevs.Nodup := by decide +kernel

theorem busFns_nodup : busFns.Nodup := by decide +kernel

theorem mem_busAddrs {seg : UInt16} {bus : UInt8} {a : PciAddr} :
    a ∈ busAddrs space seg bus ↔ IsFn space a ∧ a.seg = seg ∧ a.bus = bus := by
  unfold busAddrs IsFn
  rw [List.mem_flatMap]
  constructor
  · intro h
    obtain ⟨dev, hdev, hmem⟩ := h
    obtain ⟨fn, hfn, rfl⟩ := List.mem_map.mp hmem
    rw [List.mem_filter] at hfn
    exact ⟨⟨mem_busDevs.mp hdev, mem_busFns.mp hfn.1, hfn.2⟩, rfl, rfl⟩
  · intro h
    obtain ⟨⟨hdev, hfn, hans⟩, rfl, rfl⟩ := h
    exact ⟨a.dev, mem_busDevs.mpr hdev, List.mem_map.mpr
      ⟨a.fn, List.mem_filter.mpr ⟨mem_busFns.mpr hfn, hans⟩, rfl⟩⟩

theorem busAddrs_nodup (seg : UInt16) (bus : UInt8) : (busAddrs space seg bus).Nodup := by
  unfold busAddrs
  rw [List.nodup_flatMap]
  constructor
  · intro dev _
    refine (busFns_nodup.filter _).map ?_
    intro f g hfg
    simpa using hfg
  · refine busDevs_nodup.imp ?_
    intro d d' hne
    rw [Function.onFun_apply, List.disjoint_left]
    intro a ha ha'
    obtain ⟨f, -, rfl⟩ := List.mem_map.mp ha
    obtain ⟨f', -, hf'⟩ := List.mem_map.mp ha'
    simp only [PciAddr.mk.injEq] at hf'
    exact hne hf'.2.2.1.symm

/-- Truncating twice is truncating once. -/
theorem take_take_append {α : Type} (n : Nat) (l m : List α) :
    (l.take n ++ m).take n = (l ++ m).take n := by
  rw [List.take_append, List.take_append, List.take_take, Nat.min_self, List.length_take]
  congr 2
  omega

/-- What the loops make of a function that answers, while the two arrays are within bounds. -/
theorem noteFn_eq {e : KgEcamSeg} {a : PciAddr} {b : BusScan} (hcur : b.cur.length ≤ kgMaxPci)
    (hsec : b.secondaries.length ≤ maxSecondaries) :
    noteFn e a (space a) b
      = ⟨(b.cur ++ [entOf a (space a)]).take kgMaxPci,
          (b.secondaries ++ secondaryOf space e a).take maxSecondaries⟩ := by
  have hpush : ∀ {α : Type} (n : Nat) (l : List α) (x : α), l.length ≤ n →
      (if l.length < n then l ++ [x] else l) = (l ++ [x]).take n := by
    intro α n l x hle
    split_ifs with hlt
    · rw [List.take_of_length_le (by simp; omega)]
    · rw [List.take_append_of_le_length (by omega), List.take_of_length_le hle]
  unfold noteFn secondaryOf
  rw [hpush kgMaxPci b.cur _ hcur]
  congr 1
  by_cases hb : (space a).isBridge = true
  · by_cases hs : a.bus < (space a).secondary ∧ (space a).secondary ≤ e.busEnd
    · simp only [hb, true_and, if_pos hs]
      exact hpush maxSecondaries b.secondaries _ hsec
    · simp only [hb, true_and, if_neg hs, ite_self, List.append_nil]
      rw [List.take_of_length_le hsec]
  · rw [if_neg (fun hc => hb hc.1), if_neg (fun hc => hb hc.1), List.append_nil,
      List.take_of_length_le hsec]

theorem foldl_noteFn {e : KgEcamSeg} :
    ∀ (as : List PciAddr) (b : BusScan), b.cur.length ≤ kgMaxPci →
      b.secondaries.length ≤ maxSecondaries →
      as.foldl (fun b a => noteFn e a (space a) b) b
        = ⟨(b.cur ++ as.map fun a => entOf a (space a)).take kgMaxPci,
            (b.secondaries ++ as.flatMap (secondaryOf space e)).take maxSecondaries⟩ := by
  intro as
  induction as with
  | nil =>
      intro b hcur hsec
      simp only [List.foldl_nil, List.map_nil, List.flatMap_nil, List.append_nil]
      rw [List.take_of_length_le hcur, List.take_of_length_le hsec]
  | cons a rest ih =>
      intro b hcur hsec
      rw [List.foldl_cons, noteFn_eq space hcur hsec,
        ih _ (List.length_take_le _ _) (List.length_take_le _ _)]
      simp only [take_take_append, List.map_cons, List.flatMap_cons, List.append_assoc,
        List.singleton_append]

section Device

variable {e : KgEcamSeg} {bus dev : UInt8} {page : UInt8 → PciConfig}
  (hpage : ∀ fn < 8, page fn = space ⟨e.seg, bus, dev, fn⟩)

include hpage

/-- Past function 0 the loop passes over the functions that do not answer. -/
theorem walkFns_tail : ∀ (fns : List UInt8) (b : BusScan), (∀ fn ∈ fns, fn < 8 ∧ fn ≠ 0) →
    walkFns e bus dev page fns b
      = (fnAddrs space e.seg bus dev fns).foldl (fun b a => noteFn e a (space a) b) b := by
  intro fns
  induction fns with
  | nil => intro b _; rfl
  | cons fn rest ih =>
      intro b hfns
      have hfn := hfns fn (by simp)
      have hrest := fun b => ih b (fun f hf => hfns f (List.mem_cons_of_mem _ hf))
      unfold walkFns fnAddrs
      rw [hpage fn hfn.1]
      by_cases hans : (space ⟨e.seg, bus, dev, fn⟩).answers = true
      · simp only [hans, Bool.not_true, Bool.false_eq_true, if_false, hfn.2, false_and,
          List.filter_cons_of_pos, List.map_cons, List.foldl_cons]
        exact hrest _
      · simp only [hans, Bool.not_false, if_true, hfn.2, if_false, List.filter_cons_of_neg,
          Bool.false_eq_true, not_false_eq_true]
        exact hrest _

theorem fnAddrs_none {fns : List UInt8} (hnone : ∀ fn ∈ fns, (page fn).answers ≠ true)
    (hlt : ∀ fn ∈ fns, fn < 8) : fnAddrs space e.seg bus dev fns = [] := by
  unfold fnAddrs
  rw [List.map_eq_nil_iff, List.filter_eq_nil_iff]
  intro fn hfn
  rw [← hpage fn (hlt fn hfn)]
  exact hnone fn hfn

/-- A device of an honest machine: without function 0 nothing, without the bit only function 0. -/
theorem walkFns_eq
    (hzero : ∀ fn < 8, (page fn).answers = true → (page 0).answers = true ∧
      (fn ≠ 0 → (page 0).multifn = true)) (b : BusScan) :
    walkFns e bus dev page busFns b
      = (fnAddrs space e.seg bus dev busFns).foldl (fun b a => noteFn e a (space a) b) b := by
  have hnonzero : ∀ fn ∈ ([1, 2, 3, 4, 5, 6, 7] : List UInt8), fn < 8 ∧ fn ≠ 0 := by
    decide +kernel
  by_cases hans : (page 0).answers = true
  · have hpage0 := hpage 0 (by decide)
    have haddrs : fnAddrs space e.seg bus dev busFns
        = ⟨e.seg, bus, dev, 0⟩ :: fnAddrs space e.seg bus dev [1, 2, 3, 4, 5, 6, 7] := by
      have hans' : (space ⟨e.seg, bus, dev, 0⟩).answers = true := by rw [← hpage0]; exact hans
      unfold fnAddrs
      rw [show busFns = 0 :: [1, 2, 3, 4, 5, 6, 7] from rfl,
        List.filter_cons_of_pos (by simpa using hans'), List.map_cons]
    rw [haddrs, List.foldl_cons, ← hpage0]
    show walkFns e bus dev page (0 :: [1, 2, 3, 4, 5, 6, 7]) b = _
    unfold walkFns
    rw [if_neg (by simp [hans])]
    by_cases hmulti : (page 0).multifn = true
    · simp only [hmulti, Bool.not_true, Bool.false_eq_true, and_false, if_false]
      exact walkFns_tail space hpage _ _ hnonzero
    · have hnone : fnAddrs space e.seg bus dev [1, 2, 3, 4, 5, 6, 7] = [] :=
        fnAddrs_none space hpage
          (fun fn hfn hf => hmulti ((hzero fn (hnonzero fn hfn).1 hf).2 (hnonzero fn hfn).2))
          (fun fn hfn => (hnonzero fn hfn).1)
      simp only [hmulti, Bool.not_false, and_self, if_true, hnone, List.foldl_nil]
  · have hnone : fnAddrs space e.seg bus dev busFns = [] :=
      fnAddrs_none space hpage (fun fn hfn hf => hans (hzero fn (mem_busFns.mp hfn) hf).1)
        (fun fn hfn => mem_busFns.mp hfn)
    rw [hnone]
    show walkFns e bus dev page (0 :: [1, 2, 3, 4, 5, 6, 7]) b = _
    unfold walkFns
    rw [if_pos (by simp [hans]), if_pos rfl]
    rfl

end Device

variable {space} {h : PciHost} {e : KgEcamSeg}

/-- **One bus**: the functions that answer are listed, and the first 32 bridges kept. -/
theorem walkDevs_eq (hon : Honest space h) (he : e ∈ h.ecam) {bus : UInt8}
    (hbus : e.covers e.seg bus = true) {cur : List KgPciEnt} (hcur : cur.length ≤ kgMaxPci) :
    walkDevs h e bus (ecamWindow e bus) cur
      = ⟨(cur ++ (busAddrs space e.seg bus).map fun a => entOf a (space a)).take kgMaxPci,
          ((busAddrs space e.seg bus).flatMap (secondaryOf space e)).take maxSecondaries⟩ := by
  have hdev : ∀ dev ∈ busDevs, ∀ b : BusScan,
      walkFns e bus dev (pageAt h (ecamWindow e bus) dev) busFns b
        = (fnAddrs space e.seg bus dev busFns).foldl (fun b a => noteFn e a (space a) b) b := by
    intro dev hdev b
    have hlt := mem_busDevs.mp hdev
    have hpage : ∀ fn < 8, pageAt h (ecamWindow e bus) dev fn = space ⟨e.seg, bus, dev, fn⟩ :=
      fun fn hfn => hon.window e he ⟨e.seg, bus, dev, fn⟩ hbus hlt hfn
    refine walkFns_eq space hpage ?_ b
    intro fn hfn hans
    rw [hpage fn hfn] at hans
    rw [hpage 0 (by decide)]
    obtain ⟨hzero, hmulti⟩ := hon.functionZero ⟨e.seg, bus, dev, fn⟩ ⟨hlt, hfn, hans⟩
    exact ⟨hzero.2.2, hmulti⟩
  have hfold : walkDevs h e bus (ecamWindow e bus) cur
      = (busAddrs space e.seg bus).foldl (fun b a => noteFn e a (space a) b) ⟨cur, []⟩ := by
    unfold walkDevs busAddrs
    rw [List.foldl_flatMap]
    exact List.foldl_ext _ _ _ (fun b dev hd => hdev dev hd b)
  rw [hfold, foldl_noteFn space _ _ hcur (Nat.zero_le _), List.nil_append]

/-! ### The walk over the buses

The library's walk goes over a relation between nodes.  Here the edges are the kept
bridges, and the C recursion with its depth and its loop over the bridges is the
same recursion.
-/

variable (space) in
/-- The entries of the functions of a bus. -/
def busEnts (e : KgEcamSeg) (bus : UInt8) : List KgPciEnt :=
  (busAddrs space e.seg bus).map fun a => entOf a (space a)

/-- `kg_cur` when the buses `seen` have been read after what is in `cur`. -/
def listed (space : PciAddr → PciConfig) (e : KgEcamSeg) (cur : List KgPciEnt)
    (seen : List UInt8) : List KgPciEnt :=
  (cur ++ seen.flatMap (busEnts space e)).take kgMaxPci

theorem covers_iff {e : KgEcamSeg} {seg : UInt16} {bus : UInt8} :
    e.covers seg bus = true ↔ e.seg = seg ∧ e.busStart ≤ bus ∧ bus ≤ e.busEnd := by
  simp [KgEcamSeg.covers, and_assoc]

theorem mem_keptBridges {bus sec : UInt8} (hmem : sec ∈ keptBridges space e bus) :
    e.busStart ≤ bus ∧ bus < sec ∧ sec ≤ e.busEnd ∧
      ∃ a, IsFn space a ∧ a.seg = e.seg ∧ a.bus = bus ∧ (space a).isBridge = true ∧
        (space a).secondary = sec := by
  unfold keptBridges at hmem
  split_ifs at hmem with hstart
  · obtain ⟨a, ha, hsec⟩ := List.mem_flatMap.mp (List.mem_of_mem_take hmem)
    obtain ⟨hfn, hseg, hbus⟩ := (mem_busAddrs space).mp ha
    unfold secondaryOf at hsec
    split_ifs at hsec with hb
    · rw [List.mem_singleton] at hsec
      subst hsec
      rw [hbus] at hb
      exact ⟨hstart, hb.2.1, hb.2.2, a, hfn, hseg, hbus, hb.1, rfl⟩
    · simp at hsec
  · simp at hmem

/-- The bus behind a kept bridge is in the range. -/
theorem keptBridges_covered {bus sec : UInt8} (hmem : sec ∈ keptBridges space e bus) :
    e.covers e.seg sec = true := by
  obtain ⟨hlow, hlt, hend, -⟩ := mem_keptBridges hmem
  exact covers_iff.mpr ⟨rfl, UInt8.le_trans hlow (UInt8.le_of_lt hlt), hend⟩

/-- **The recursion is the walk over the kept bridges**, and lists the buses it enters. -/
theorem kgWalkBus_eq (hon : Honest space h) (he : e ∈ h.ecam) (cur : List KgPciEnt) :
    ∀ (left : Nat) (bus : UInt8) (seen : List UInt8), e.covers e.seg bus = true →
      kgWalkBus h e left bus ⟨seen, listed space e cur seen⟩
        = ⟨walk (keptBridges space e) left bus seen,
            listed space e cur (walk (keptBridges space e) left bus seen)⟩ := by
  intro left
  induction left with
  | zero => intro bus seen _; rfl
  | succ left ih =>
      intro bus seen hbus
      unfold kgWalkBus walk
      by_cases hseen : bus ∈ seen
      · rw [if_pos hseen, if_pos hseen]
      · rw [if_neg hseen, if_neg hseen]
        have hmap : kgEcamMap h e bus = some (ecamWindow e bus) := if_pos (hon.mapped e he bus hbus)
        have hkept : keptBridges space e bus
            = ((busAddrs space e.seg bus).flatMap (secondaryOf space e)).take maxSecondaries :=
          if_pos (covers_iff.mp hbus).2.1
        have hnext : (listed space e cur seen ++ busEnts space e bus).take kgMaxPci
            = listed space e cur (seen ++ [bus]) := by
          unfold listed
          rw [take_take_append, List.flatMap_append, List.append_assoc]
          simp
        simp only [hmap]
        have hlen : (listed space e cur seen).length ≤ kgMaxPci := List.length_take_le _ _
        rw [walkDevs_eq hon he hbus hlen, ← hkept]
        show (keptBridges space e bus).foldl _ (⟨seen ++ [bus],
          (listed space e cur seen ++ busEnts space e bus).take kgMaxPci⟩ : PciWalk) = _
        rw [hnext]
        have hcovered : ∀ sec ∈ keptBridges space e bus, e.covers e.seg sec = true :=
          fun sec hsec => keptBridges_covered hsec
        generalize keptBridges space e bus = secs at hcovered
        generalize seen ++ [bus] = seen'
        induction secs generalizing seen' with
        | nil => rfl
        | cons sec rest ihs =>
            rw [List.foldl_cons, List.foldl_cons, ih sec seen' (hcovered sec (by simp))]
            exact ihs (fun s hs => hcovered s (List.mem_cons_of_mem _ hs)) _

/-- The buses of a range that the scan reads, in order. -/
def enteredBuses (space : PciAddr → PciConfig) (h : PciHost) (e : KgEcamSeg) : List UInt8 :=
  walkAll (keptBridges space e) walkDepths (e.busStart :: osRoots h e) []

theorem mem_osRoots {bus : UInt8} : bus ∈ osRoots h e ↔ ∃ pb ∈ h.buses, pb.hasParent = false ∧
    pb.domain = e.seg.toNat ∧ pb.number = bus ∧ e.busStart ≤ bus ∧ bus ≤ e.busEnd := by
  unfold osRoots
  simp only [List.mem_map, List.mem_filter, Bool.and_eq_true, decide_eq_true_eq, Bool.not_eq_true',
    ge_iff_le]
  constructor
  · intro hroot
    obtain ⟨pb, ⟨hpb, ⟨⟨hparent, hdom⟩, hlow⟩, hhigh⟩, rfl⟩ := hroot
    exact ⟨pb, hpb, hparent, hdom, rfl, hlow, hhigh⟩
  · intro hroot
    obtain ⟨pb, hpb, hparent, hdom, rfl, hlow, hhigh⟩ := hroot
    exact ⟨pb, ⟨hpb, ⟨⟨hparent, hdom⟩, hlow⟩, hhigh⟩, rfl⟩

/-- So are the buses the walks begin at. -/
theorem roots_covered {r : UInt8} (hr : r ∈ e.busStart :: osRoots h e) :
    e.covers e.seg r = true := by
  rcases List.mem_cons.mp hr with rfl | hr
  · exact covers_iff.mpr ⟨rfl, UInt8.le_refl _, e.ordered⟩
  · obtain ⟨-, -, -, -, -, hlow, hhigh⟩ := mem_osRoots.mp hr
    exact covers_iff.mpr ⟨rfl, hlow, hhigh⟩

theorem scanRange_eq (hon : Honest space h) (he : e ∈ h.ecam)
    {cur : List KgPciEnt} (hcur : cur.length ≤ kgMaxPci) :
    scanRange h cur e = listed space e cur (enteredBuses space h e) := by
  have hstart : listed space e cur [] = cur := by
    unfold listed
    rw [List.flatMap_nil, List.append_nil, List.take_of_length_le hcur]
  have hfold : ∀ (buses seen : List UInt8), (∀ b ∈ buses, e.covers e.seg b = true) →
      buses.foldl (fun w bus => kgWalkBus h e walkDepths bus w) ⟨seen, listed space e cur seen⟩
        = ⟨walkAll (keptBridges space e) walkDepths buses seen,
            listed space e cur (walkAll (keptBridges space e) walkDepths buses seen)⟩ := by
    intro buses
    induction buses with
    | nil => intro seen _; rfl
    | cons b rest ih =>
        intro seen hcov
        rw [List.foldl_cons, kgWalkBus_eq hon he cur _ b seen (hcov b (by simp))]
        exact ih _ (fun b hb => hcov b (List.mem_cons_of_mem _ hb))
  unfold scanRange
  conv_lhs => rw [← hstart]
  rw [hfold _ _ (fun b hb => roots_covered hb)]
  rfl

/-! ### All ranges

Each range is walked from its first bus and from the buses in it that the OS calls
roots.  On an honest machine no bus with functions is in two ranges, so the lists of
the ranges do not meet.
-/

/-- The functions of the buses that the scan reads. -/
def foundAddrs (space : PciAddr → PciConfig) (h : PciHost) : List PciAddr :=
  h.ecam.flatMap fun e => (enteredBuses space h e).flatMap (busAddrs space e.seg)

theorem kgScanEcam_eq_take (hon : Honest space h) :
    kgScanEcam h = ((foundAddrs space h).map fun a => entOf a (space a)).take kgMaxPci := by
  have hfold : ∀ (es : List KgEcamSeg) (cur : List KgPciEnt), (∀ e ∈ es, e ∈ h.ecam) →
      cur.length ≤ kgMaxPci →
      es.foldl (scanRange h) cur
        = (cur ++ (es.flatMap fun e => (enteredBuses space h e).flatMap (busAddrs space e.seg)).map
            fun a => entOf a (space a)).take kgMaxPci := by
    intro es
    induction es with
    | nil =>
        intro cur _ hcur
        rw [List.flatMap_nil, List.map_nil, List.append_nil, List.take_of_length_le hcur]
        rfl
    | cons e rest ih =>
        intro cur hmem hcur
        have hlen : (listed space e cur (enteredBuses space h e)).length ≤ kgMaxPci :=
          List.length_take_le _ _
        rw [List.foldl_cons, scanRange_eq hon (hmem e (by simp)) hcur,
          ih _ (fun e he => hmem e (List.mem_cons_of_mem _ he)) hlen]
        have hents : (enteredBuses space h e).flatMap (busEnts space e)
            = ((enteredBuses space h e).flatMap (busAddrs space e.seg)).map
                fun a => entOf a (space a) := by
          rw [List.map_flatMap]
          rfl
        unfold listed
        rw [take_take_append, List.flatMap_cons, List.map_append, List.append_assoc, hents]
  unfold kgScanEcam foundAddrs
  rw [hfold h.ecam [] (fun _ he => he) (Nat.zero_le _), List.nil_append]

/-- At most one bridge leads to a bus, and it comes from a bus with a lower number. -/
theorem keptBridges_forest (hon : Honest space h) (e : KgEcamSeg) :
    Forest (keptBridges space e) UInt8.toNat where
  rank := by
    intro bus sec hsec
    exact UInt8.lt_iff_toNat_lt.mp (mem_keptBridges hsec).2.1
  parent := by
    intro bus bus' sec hsec hsec'
    obtain ⟨-, -, -, a, ha, hseg, hbus, hb, hs⟩ := mem_keptBridges hsec
    obtain ⟨-, -, -, a', ha', hseg', hbus', hb', hs'⟩ := mem_keptBridges hsec'
    have heq := hon.forest a a' ha ha' hb hb' (hseg.trans hseg'.symm) (hs.trans hs'.symm)
    rw [← hbus, ← hbus', heq]
  nodup := by
    intro bus
    unfold keptBridges
    split_ifs with hstart
    · refine List.Nodup.sublist (List.take_sublist _ _) ?_
      rw [List.nodup_flatMap]
      constructor
      · intro a _
        unfold secondaryOf
        split_ifs <;> simp
      · refine (busAddrs_nodup space e.seg bus).imp_of_mem ?_
        intro a a' ha ha' hne
        rw [Function.onFun_apply, List.disjoint_left]
        intro sec hsec hsec'
        obtain ⟨hfn, hseg, -⟩ := (mem_busAddrs space).mp ha
        obtain ⟨hfn', hseg', -⟩ := (mem_busAddrs space).mp ha'
        unfold secondaryOf at hsec hsec'
        split_ifs at hsec with hb
        · split_ifs at hsec' with hb'
          · rw [List.mem_singleton] at hsec hsec'
            exact hne (hon.forest a a' hfn hfn' hb.1 hb'.1 (hseg.trans hseg'.symm)
              (hsec.symm.trans hsec'))
          · simp at hsec'
        · simp at hsec
    · exact List.nodup_nil

/-- Walks begin at buses that no kept bridge leads to. -/
theorem start_is_root (hon : Honest space h) {r : UInt8} (hr : r ∈ e.busStart :: osRoots h e)
    (bus : UInt8) : r ∉ keptBridges space e bus := by
  intro hmem
  obtain ⟨hstart, hlt, -, a, ha, hseg, -, hb, hs⟩ := mem_keptBridges hmem
  rcases List.mem_cons.mp hr with rfl | hroot
  · exact UInt8.lt_irrefl _ (UInt8.lt_of_le_of_lt hstart hlt)
  · obtain ⟨pb, hpb, hparent, hdom, rfl, -⟩ := mem_osRoots.mp hroot
    exact hon.rootReal pb hpb hparent e.seg hdom a ha hseg hb hs

theorem mem_enteredBuses (hon : Honest space h) {bus : UInt8} :
    bus ∈ enteredBuses space h e ↔ ∃ r ∈ e.busStart :: osRoots h e, ∃ k < walkDepths,
      Below (keptBridges space e) k r bus :=
  mem_walkAll_roots (keptBridges_forest hon e) walkDepths _ (fun _ hr => start_is_root hon hr) bus

/-- The scan stays inside the range. -/
theorem enteredBuses_covered (hon : Honest space h) {bus : UInt8}
    (hbus : bus ∈ enteredBuses space h e) : e.covers e.seg bus = true := by
  obtain ⟨r, hr, k, -, hbelow⟩ := (mem_enteredBuses hon).mp hbus
  have hstart := roots_covered hr
  clear hr hbus
  induction hbelow with
  | refl => exact hstart
  | step hc _ ih => exact ih (keptBridges_covered hc)

theorem mem_foundAddrs {a : PciAddr} :
    a ∈ foundAddrs space h ↔ IsFn space a ∧ ∃ e ∈ h.ecam, e.seg = a.seg ∧
      a.bus ∈ enteredBuses space h e := by
  unfold foundAddrs
  simp only [List.mem_flatMap, mem_busAddrs]
  constructor
  · intro hfound
    obtain ⟨e, he, bus, hbus, hfn, hseg, rfl⟩ := hfound
    exact ⟨hfn, e, he, hseg.symm, hbus⟩
  · intro hfound
    obtain ⟨hfn, e, he, hseg, hbus⟩ := hfound
    exact ⟨e, he, a.bus, hbus, hfn, hseg.symm, rfl⟩

/-- Two ranges that cover a bus with functions are one. -/
theorem Honest.same_range (hon : Honest space h) {e e' : KgEcamSeg} (he : e ∈ h.ecam)
    (he' : e' ∈ h.ecam) {a : PciAddr} (ha : IsFn space a) (hc : e.covers a.seg a.bus = true)
    (hc' : e'.covers a.seg a.bus = true) : e = e' := by
  have : Std.Symm fun e e' : KgEcamSeg => ∀ a, IsFn space a →
      ¬ (e.covers a.seg a.bus = true ∧ e'.covers a.seg a.bus = true) :=
    ⟨fun _ _ hapart a ha hboth => hapart a ha hboth.symm⟩
  by_contra hne
  exact hon.apart.forall he he' hne a ha ⟨hc, hc'⟩

theorem foundAddrs_nodup (hon : Honest space h) : (foundAddrs space h).Nodup := by
  unfold foundAddrs
  rw [List.nodup_flatMap]
  constructor
  · intro e _
    rw [List.nodup_flatMap]
    refine ⟨fun bus _ => busAddrs_nodup space e.seg bus, ?_⟩
    have hnodup : (enteredBuses space h e).Nodup :=
      walkAll_nodup (walk_nodup walkDepths) _ [] List.nodup_nil
    refine hnodup.imp ?_
    intro bus bus' hne
    rw [Function.onFun_apply, List.disjoint_left]
    intro a ha ha'
    exact hne (((mem_busAddrs space).mp ha).2.2.symm.trans ((mem_busAddrs space).mp ha').2.2)
  · refine hon.apart.imp ?_
    intro e e' hapart
    rw [Function.onFun_apply, List.disjoint_left]
    intro a ha ha'
    obtain ⟨bus, hbus, hmem⟩ := List.mem_flatMap.mp ha
    obtain ⟨bus', hbus', hmem'⟩ := List.mem_flatMap.mp ha'
    obtain ⟨hfn, hseg, rfl⟩ := (mem_busAddrs space).mp hmem
    obtain ⟨-, hseg', rfl⟩ := (mem_busAddrs space).mp hmem'
    refine hapart a hfn ⟨?_, ?_⟩
    · rw [hseg]
      exact enteredBuses_covered hon hbus
    · rw [hseg']
      exact enteredBuses_covered hon hbus'

/-- **The scan lists the functions of the buses it enters**, all of them and each once. -/
theorem kgScanEcam_eq (hon : Honest space h) :
    kgScanEcam h = (foundAddrs space h).map fun a => entOf a (space a) := by
  rw [kgScanEcam_eq_take hon, List.take_of_length_le]
  obtain ⟨fns, hfew, hall⟩ := hon.few
  rw [List.length_map]
  refine Nat.le_trans (List.Nodup.length_le_of_subset (foundAddrs_nodup hon) ?_) hfew
  intro a ha
  exact hall a (mem_foundAddrs.mp ha).1

/-! ### Which buses are entered

Going up from a function, every bus has one bridge above it, until a root.  The bus
is entered if this way up is no longer than the limit and each of its bridges was
kept.
-/

/--
Every bus with functions is at most eight bridges below a root bus, and each of these bridges
is among the first 32 of its bus.
-/
def WithinLimits (space : PciAddr → PciConfig) (h : PciHost) : Prop :=
  ∀ a, IsFn space a → ∃ e ∈ h.ecam, e.covers a.seg a.bus = true ∧
    ∃ r k, IsRootBus space a.seg r ∧ k ≤ 8 ∧ Below (keptBridges space e) k r a.bus

/-- The top of a way down to a function is in the range and has a function of its own. -/
theorem top_populated {r : UInt8} {k : Nat} {a : PciAddr} (ha : IsFn space a)
    (hcov : e.covers a.seg a.bus = true) (hbelow : Below (keptBridges space e) k r a.bus) :
    (∃ c, IsFn space c ∧ c.seg = a.seg ∧ c.bus = r) ∧ e.busStart ≤ r ∧ r ≤ e.busEnd := by
  obtain ⟨hseg, hrange⟩ := covers_iff.mp hcov
  cases k with
  | zero =>
      cases hbelow
      exact ⟨⟨a, ha, rfl, rfl⟩, hrange⟩
  | succ k =>
      obtain _ | ⟨hc, -⟩ := hbelow
      obtain ⟨hlow, hlt, hend, c, hfn, hcseg, hcbus, -⟩ := mem_keptBridges hc
      exact ⟨⟨c, hfn, hcseg.trans hseg, hcbus⟩, hlow, UInt8.le_trans (UInt8.le_of_lt hlt) hend⟩

/-- The first bus of a range is a root if it has functions: its number is the lowest. -/
theorem busStart_isRoot (hon : Honest space h) (he : e ∈ h.ecam) {c : PciAddr} (hc : IsFn space c)
    (hseg : c.seg = e.seg) (hbus : c.bus = e.busStart) : IsRootBus space e.seg e.busStart := by
  intro b hb hbseg hbridge hsec
  obtain ⟨e', he', hcov'⟩ := hon.covered b hb
  obtain ⟨hlt, hend⟩ := hon.downwards e' he' b hb hcov' hbridge
  obtain ⟨hseg', hlow', -⟩ := covers_iff.mp hcov'
  rw [hsec] at hlt hend
  have hboth : e = e' := by
    refine hon.same_range he he' hc ?_ ?_
    · rw [hseg, hbus]
      exact covers_iff.mpr ⟨rfl, UInt8.le_refl _, e.ordered⟩
    · rw [hseg, hbus]
      exact covers_iff.mpr ⟨hseg'.trans hbseg, UInt8.le_trans hlow' (UInt8.le_of_lt hlt), hend⟩
  rw [← hboth] at hlow'
  exact UInt8.lt_irrefl _ (UInt8.lt_of_le_of_lt hlow' hlt)

theorem found_iff (hon : Honest space h) :
    (∀ a, IsFn space a → a ∈ foundAddrs space h) ↔ WithinLimits space h := by
  constructor
  · intro hall a ha
    obtain ⟨-, e, he, hseg, hbus⟩ := mem_foundAddrs.mp (hall a ha)
    have hcov : e.covers a.seg a.bus = true := by
      rw [← hseg]
      exact enteredBuses_covered hon hbus
    obtain ⟨r, hr, k, hk, hbelow⟩ := (mem_enteredBuses hon).mp hbus
    refine ⟨e, he, hcov, r, k, ?_, Nat.lt_succ_iff.mp hk, hbelow⟩
    rcases List.mem_cons.mp hr with rfl | hr
    · obtain ⟨⟨c, hc, hcseg, hcbus⟩, -⟩ := top_populated ha hcov hbelow
      rw [← hseg]
      exact busStart_isRoot hon he hc (hcseg.trans hseg.symm) hcbus
    · obtain ⟨pb, hpb, hparent, hdom, rfl, -⟩ := mem_osRoots.mp hr
      exact hon.rootReal pb hpb hparent a.seg (by rw [← hseg]; exact hdom)
  · intro hlim a ha
    obtain ⟨e, he, hcov, r, k, hroot, hk, hbelow⟩ := hlim a ha
    have hseg := (covers_iff.mp hcov).1
    refine mem_foundAddrs.mpr ⟨ha, e, he, hseg, (mem_enteredBuses hon).mpr ⟨r, ?_, k, ?_, hbelow⟩⟩
    · obtain ⟨⟨c, hc, hcseg, rfl⟩, hrange⟩ := top_populated ha hcov hbelow
      rw [← hcseg] at hroot
      obtain ⟨pb, hpb, hparent, hdom, hnum⟩ := hon.rootKnown c hc hroot
      refine List.mem_cons_of_mem _ (mem_osRoots.mpr ⟨pb, hpb, hparent, ?_, hnum, hrange⟩)
      rw [hdom, hcseg, hseg]
    · exact Nat.lt_succ_iff.mpr hk

end KernelGuard
