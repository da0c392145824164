/-
PCI discovery and the cross-check with the OS (`linux/module/kg_hw.c`).

The scan reads config space through the ECAM windows and follows the bridges; the cross-check
compares what answered with what the PCI core enumerates, and notes a suspect for every
difference.  A suspect that is noted in two scans in a row is reported.

What the module does not own is in `PciHost`: the memory behind the ECAM windows and the PCI
core's lists of buses and devices.  Every scan sees a host as it is at that moment.
-/
import KernelGuard.Model.Uapi
import KernelGuard.Lib.Run

namespace KernelGuard

/-! ### Addresses and entries -/

def kgMaxPci : Nat := 1024
def kgMaxSuspect : Nat := 64

/-- `struct kg_ecam_seg`; `kg_ecam_init` drops a range that ends before it starts. -/
structure KgEcamSeg where
  base : Nat
  seg : UInt16
  busStart : UInt8
  busEnd : UInt8
  ordered : busStart ≤ busEnd
  deriving DecidableEq, Repr

/-- Where a function sits. -/
structure PciAddr where
  seg : UInt16
  bus : UInt8
  dev : UInt8
  fn : UInt8
  deriving DecidableEq, Repr

/-- `struct kg_pci_ent`. -/
structure KgPciEnt extends PciAddr where
  vid : UInt16
  did : UInt16
  classRev : UInt32
  cmd : UInt16
  hdr : UInt8
  fromEcam : Bool
  deriving DecidableEq, Repr

def kgBdf (e : PciAddr) : UInt32 :=
  (e.seg.toUInt32 <<< 24) ||| (e.bus.toUInt32 <<< 16) ||| (e.dev.toUInt32 <<< 8) ||| e.fn.toUInt32

def kgSameDev (a b : KgPciEnt) : Bool := a.toPciAddr = b.toPciAddr

def kgSameIdentity (a b : KgPciEnt) : Bool := kgSameDev a b && a.vid = b.vid && a.did = b.did

/-! ### The host -/

/-- The registers of one function that the scan reads. -/
structure PciConfig where
  id : UInt32
  cmd : UInt16
  classRev : UInt32
  hdr : UInt8
  secondary : UInt8
  deriving DecidableEq, Repr

/-- The config space of a function that is not there. -/
def PciConfig.absent : PciConfig := ⟨0xffffffff, 0xffff, 0xffffffff, 0xff, 0xff⟩

/-- `struct pci_bus`: a root bus has no parent. -/
structure PciBus where
  domain : Nat
  number : UInt8
  hasParent : Bool
  deriving DecidableEq, Repr

/-- `struct pci_dev`, with the power state of the bridges above it. -/
structure PciDev where
  domain : Nat
  bus : UInt8
  devfn : UInt8
  vendor : UInt16
  device : UInt16
  cls : UInt32
  revision : UInt8
  isVirtfn : Bool
  d3cold : Bool
  channelOffline : Bool
  bridgesD3cold : List Bool
  deriving DecidableEq, Repr

def pciDevfn (dev fn : UInt8) : UInt8 := ((dev &&& 0x1f) <<< 3) ||| (fn &&& 0x07)
def pciSlot (devfn : UInt8) : UInt8 := (devfn >>> 3) &&& 0x1f
def pciFunc (devfn : UInt8) : UInt8 := devfn &&& 0x07

structure PciHost where
  /-- What `kg_ecam_init` found in the MCFG table. -/
  ecam : List KgEcamSeg
  /-- `ioremap` succeeds at a physical address. -/
  ioremap : Nat → Bool
  /-- The function whose 4 KiB page is at a physical address. -/
  config : Nat → PciConfig
  /-- The order of `pci_find_next_bus`. -/
  buses : List PciBus
  /-- The order of `for_each_pci_dev`. -/
  devs : List PciDev

/-- `pci_get_domain_bus_and_slot`. -/
def PciHost.getDev (h : PciHost) (seg : UInt16) (bus devfn : UInt8) : Option PciDev :=
  h.devs.find? fun p => p.domain = seg.toNat ∧ p.bus = bus ∧ p.devfn = devfn

/-! ### Discovery -/

/-- `bus` of segment `seg` lies in the range. -/
def KgEcamSeg.covers (e : KgEcamSeg) (seg : UInt16) (bus : UInt8) : Bool :=
  e.seg = seg && bus ≥ e.busStart && bus ≤ e.busEnd

def kgEcamFind (h : PciHost) (seg : UInt16) (bus : UInt8) : Option KgEcamSeg :=
  h.ecam.find? fun e => e.covers seg bus

/-- Where the 1 MiB window of a bus begins; callers pass a bus of the range. -/
def ecamWindow (e : KgEcamSeg) (bus : UInt8) : Nat :=
  e.base + (bus.toNat - e.busStart.toNat) * 2 ^ 20

def kgEcamMap (h : PciHost) (e : KgEcamSeg) (bus : UInt8) : Option Nat :=
  if h.ioremap (ecamWindow e bus) then some (ecamWindow e bus) else none

/-- Something answers at this function: the vendor is neither all-ones nor zero. -/
def PciConfig.answers (c : PciConfig) : Bool :=
  !(c.id &&& 0xffff = 0xffff || c.id &&& 0xffff = 0 || c.id = 0xffffffff)

def PciConfig.multifn (c : PciConfig) : Bool := c.hdr &&& 0x80 ≠ 0

/-- `PCI_HEADER_TYPE_BRIDGE`. -/
def PciConfig.isBridge (c : PciConfig) : Bool := c.hdr &&& 0x7f = 1

/-- The entry the walk makes of a function. -/
def entOf (a : PciAddr) (c : PciConfig) : KgPciEnt :=
  { a with
    vid := (c.id &&& 0xffff).toUInt16
    did := (c.id >>> 16).toUInt16
    classRev := c.classRev
    cmd := c.cmd
    hdr := c.hdr
    fromEcam := true }

/-- `kg_cur` and `secondaries` while a bus is read. -/
structure BusScan where
  cur : List KgPciEnt
  secondaries : List UInt8
  deriving DecidableEq, Repr

/-- `ARRAY_SIZE(secondaries)`. -/
def maxSecondaries : Nat := 32

/-- A function that answers: it is listed, and a bridge's secondary bus is kept for later. -/
def noteFn (e : KgEcamSeg) (a : PciAddr) (c : PciConfig) (b : BusScan) : BusScan :=
  { cur := if b.cur.length < kgMaxPci then b.cur ++ [entOf a c] else b.cur
    secondaries :=
      if c.isBridge ∧ b.secondaries.length < maxSecondaries then
        if a.bus < c.secondary ∧ c.secondary ≤ e.busEnd then b.secondaries ++ [c.secondary]
        else b.secondaries
      else b.secondaries }

/-- The inner loop, over the functions of one device; `page fn` is the function's config space. -/
def walkFns (e : KgEcamSeg) (bus dev : UInt8) (page : UInt8 → PciConfig) :
    List UInt8 → BusScan → BusScan
  | [], b => b
  | fn :: rest, b =>
      if !(page fn).answers then
        -- without a function 0 there is no device
        if fn = 0 then b else walkFns e bus dev page rest b
      else
        let b := noteFn e ⟨e.seg, bus, dev, fn⟩ (page fn) b
        if fn = 0 ∧ !(page fn).multifn then b else walkFns e bus dev page rest b

def busFns : List UInt8 := [0, 1, 2, 3, 4, 5, 6, 7]

def busDevs : List UInt8 := (List.range 32).map UInt8.ofNat

/-- The page of a function in the window at `m`. -/
def pageAt (h : PciHost) (m : Nat) (dev fn : UInt8) : PciConfig :=
  h.config (m + dev.toNat * 2 ^ 15 + fn.toNat * 2 ^ 12)

/-- The two loops of `kg_walk_bus`. -/
def walkDevs (h : PciHost) (e : KgEcamSeg) (bus : UInt8) (m : Nat) (cur : List KgPciEnt) : BusScan :=
  busDevs.foldl (fun b dev => walkFns e bus dev (pageAt h m dev) busFns b) ⟨cur, []⟩

/-- `kg_cur` and the `visited` bitmap, as the list of the bits in the order they were set. -/
structure PciWalk where
  visited : List UInt8
  cur : List KgPciEnt
  deriving DecidableEq, Repr

/-- `kg_walk_bus` at depth `9 - left`: it gives up at a depth of more than 8. -/
def kgWalkBus (h : PciHost) (e : KgEcamSeg) : Nat → UInt8 → PciWalk → PciWalk
  | 0, _, w => w
  | left + 1, bus, w =>
      if bus ∈ w.visited then w
      else
        match kgEcamMap h e bus with
        | none => { w with visited := w.visited ++ [bus] }
        | some m =>
            let b := walkDevs h e bus m w.cur
            b.secondaries.foldl (fun w sec => kgWalkBus h e left sec w)
              ⟨w.visited ++ [bus], b.cur⟩

/-- The depths 0 to 8. -/
def walkDepths : Nat := 9

/-- The root buses the OS knows about in this range, beyond the first. -/
def osRoots (h : PciHost) (e : KgEcamSeg) : List UInt8 :=
  (h.buses.filter fun pb => !pb.hasParent && pb.domain = e.seg.toNat && pb.number ≥ e.busStart &&
    pb.number ≤ e.busEnd).map (·.number)

/-- One turn of `kg_scan_ecam`'s loop. -/
def scanRange (h : PciHost) (cur : List KgPciEnt) (e : KgEcamSeg) : List KgPciEnt :=
  ((e.busStart :: osRoots h e).foldl (fun w bus => kgWalkBus h e walkDepths bus w) ⟨[], cur⟩).cur

def kgScanEcam (h : PciHost) : List KgPciEnt := h.ecam.foldl (scanRange h) []

/-- The entry of a device as the OS sees it. -/
def entOfDev (p : PciDev) : KgPciEnt :=
  { seg := UInt16.ofNat p.domain, bus := p.bus, dev := pciSlot p.devfn, fn := pciFunc p.devfn,
    vid := p.vendor, did := p.device, classRev := 0, cmd := 0, hdr := 0, fromEcam := false }

/-! ### The cross-check -/

/-- `KG_PCI_HIDDEN_FROM_OS`, `KG_PCI_MISSING_IN_HW` and `KG_PCI_IDENTITY_MISMATCH`. -/
inductive SuspectKind where
  | hiddenFromOs
  | missingInHw
  | identityMismatch
  deriving DecidableEq, Repr

def SuspectKind.code : SuspectKind → UInt8
  | .hiddenFromOs => 1
  | .missingInHw => 2
  | .identityMismatch => 3

/-- A call of `kg_note_suspect`. -/
structure SuspectNote where
  e : KgPciEnt
  kind : SuspectKind
  deriving DecidableEq, Repr

/-- `kg_pdev_powered_off`: in D3cold or offline, or behind a bridge that is in D3cold. -/
def kgPdevPoweredOff (p : PciDev) : Bool := p.d3cold || p.channelOffline || p.bridgesD3cold.any id

/-- The first loop of `kg_cross_check`, from the hardware to the OS. -/
def hiddenOrDifferent (h : PciHost) (e : KgPciEnt) : List SuspectNote :=
  match h.getDev e.seg e.bus (pciDevfn e.dev e.fn) with
  | none => [⟨e, .hiddenFromOs⟩]
  | some p =>
      if p.vendor ≠ e.vid ∨ p.device ≠ e.did ∨ p.cls >>> 8 ≠ e.classRev >>> 16 then
        [⟨e, .identityMismatch⟩]
      else []

/-- The second loop, from the OS to the hardware, where an ECAM window covers the device. -/
def missingInHardware (h : PciHost) (cur : List KgPciEnt) (p : PciDev) : List SuspectNote :=
  if p.isVirtfn || kgPdevPoweredOff p then []
  else
    let probe := entOfDev p
    match kgEcamFind h probe.seg probe.bus with
    | none => []
    | some _ => if cur.any fun c => kgSameDev c probe then [] else [⟨probe, .missingInHw⟩]

/-- The suspects of one scan, in the order in which they are noted. -/
def crossNotes (h : PciHost) (cur : List KgPciEnt) : List SuspectNote :=
  cur.flatMap (hiddenOrDifferent h) ++ h.devs.flatMap (missingInHardware h cur)

/-! ### The table of suspects -/

/-- `struct kg_suspect`; a slot is free while `seen` is 0. -/
structure KgSuspect where
  note : SuspectNote
  seen : UInt8
  reported : Bool
  deriving DecidableEq, Repr

/-- A slot after `memset`. -/
def KgSuspect.zero : KgSuspect :=
  ⟨⟨⟨⟨0, 0, 0, 0⟩, 0, 0, 0, 0, 0, false⟩, .hiddenFromOs⟩, 0, false⟩

/-- `kg_susp`, with the local array `touched` of the scan that is going on. -/
structure SuspectTable where
  susp : Fin kgMaxSuspect → KgSuspect
  touched : Fin kgMaxSuspect → Bool

/-- A used slot holds this kind of suspicion about this device. -/
def KgSuspect.isFor (s : KgSuspect) (n : SuspectNote) : Bool :=
  s.seen ≠ 0 && s.note.kind = n.kind && kgSameDev s.note.e n.e

/-- The slot of a suspect, and the first free slot. -/
def suspectSlot (t : SuspectTable) (n : SuspectNote) : Option (Fin kgMaxSuspect) :=
  (List.finRange kgMaxSuspect).find? fun i => (t.susp i).isFor n

def freeSlot (t : SuspectTable) : Option (Fin kgMaxSuspect) :=
  (List.finRange kgMaxSuspect).find? fun i => (t.susp i).seen = 0

/-- The `PCI_DISCREPANCY` alert of `kg_suspect_report`. -/
def kgSuspectReport (n : SuspectNote) : Alert :=
  { type := kgAlertPciDiscrepancy
    level := if n.kind = .identityMismatch then kgLevelCritical else kgLevelWatch
    p1 := (kgBdf n.e.toPciAddr).toUInt64
    p2 := (n.kind.code.toUInt64 <<< 32) ||| ((n.e.vid.toUInt32 <<< 16).toUInt64) |||
      n.e.did.toUInt64 }

/-- `kg_note_suspect`, with the suspects it reports; in a full table a new one is dropped. -/
def kgNoteSuspect (n : SuspectNote) (t : SuspectTable) : List SuspectNote × SuspectTable :=
  match suspectSlot t n with
  | some i =>
      let s := t.susp i
      let seen := if s.seen < 255 then s.seen + 1 else s.seen
      let touched := Function.update t.touched i true
      if seen ≥ 2 ∧ !s.reported then
        ([s.note], ⟨Function.update t.susp i ⟨s.note, seen, true⟩, touched⟩)
      else ([], ⟨Function.update t.susp i ⟨s.note, seen, s.reported⟩, touched⟩)
  | none =>
      match freeSlot t with
      | some i =>
          ([], ⟨Function.update t.susp i ⟨n, 1, false⟩, Function.update t.touched i true⟩)
      | none => ([], t)

/-- A suspect that was not noted in this scan has resolved. -/
def clearUntouched (t : SuspectTable) : Fin kgMaxSuspect → KgSuspect :=
  fun i => if (t.susp i).seen ≠ 0 ∧ !t.touched i then .zero else t.susp i

/-- `kg_cross_check`, given the suspects it notes: what it reports, and the table it leaves. -/
def noteAll (notes : List SuspectNote) (susp : Fin kgMaxSuspect → KgSuspect) :
    List SuspectNote × (Fin kgMaxSuspect → KgSuspect) :=
  let r := Run.loop kgNoteSuspect notes ⟨susp, fun _ => false⟩
  (r.1, clearUntouched r.2)

def kgCrossCheck (h : PciHost) (cur : List KgPciEnt) (susp : Fin kgMaxSuspect → KgSuspect) :
    List SuspectNote × (Fin kgMaxSuspect → KgSuspect) :=
  noteAll (crossNotes h cur) susp

end KernelGuard
