/-
The DMA audit (`kg_dma_audit` and what it calls, `linux/module/kg_hw.c`).

Every endpoint that is bus-mastering and not authorised is announced once.  What has been
announced is kept in a table of records, one per device, that is pruned at the end of the audit
to the devices of this scan.  With `enforce=1` bus mastering is cleared, every time it is found.
-/
import KernelGuard.Model.PciScan
import KernelGuard.Model.Monitor
import KernelGuard.Model.KbdScan

namespace KernelGuard

open Bytes

/-- `struct kg_dma_rec`. -/
structure KgDmaRec where
  e : KgPciEnt
  /-- `UNAUTHORIZED_DMA` was raised. -/
  alerted : Bool
  /-- `DEVICE_BME_DISABLED` was raised. -/
  cleared : Bool
  deriving DecidableEq, Repr

/-- What was there when the module loaded, `dma_allow=`, and whether there is an ECAM view. -/
structure DmaConfig where
  base : List KgPciEnt
  allow : CStr
  necam : Bool

/-- `%04x:%02x:%02x.%x`. -/
def bdfText (a : PciAddr) : CStr :=
  hexText 4 a.seg.toNat ++ str ":" ++ hexText 2 a.bus.toNat ++ str ":" ++ hexText 2 a.dev.toNat
    ++ str "." ++ hexText 0 a.fn.toNat

/-- `%04x:%04x`. -/
def idText (vid did : UInt16) : CStr := hexText 4 vid.toNat ++ str ":" ++ hexText 4 did.toNat

def kgDmaAuthorized (cfg : DmaConfig) (e : KgPciEnt) : Bool :=
  cfg.base.any (fun b => kgSameIdentity b e) || kgListContains cfg.allow (bdfText e.toPciAddr) ||
    kgListContains cfg.allow (idText e.vid e.did)

/-- What the PCI core knows about the device of an entry. -/
structure PdevView where
  iommuProtected : Bool
  untrusted : Bool
  externalFacing : Bool
  thunderbolt : Bool
  deriving DecidableEq, Repr

/-- What the audit of one entry learns from outside. -/
structure AuditView where
  pdev : Option PdevView
  enforcing : Bool
  /-- `kg_bme_now` after `pci_clear_master`. -/
  bmeStill : Bool
  /-- `kg_ecam_clear_master`. -/
  rawCleared : Bool
  deriving DecidableEq, Repr

/-- `kg_disable_bme`: without a hardware view, the PCI core has to be believed. -/
def kgDisableBme (cfg : DmaConfig) (v : AuditView) : Bool :=
  if !cfg.necam then v.pdev.isSome else if !v.bmeStill then true else v.rawCleared

/-- A call of `kg_report`, with the entry it is about. -/
structure DmaReport where
  e : KgPciEnt
  alert : Alert
  deriving DecidableEq, Repr

def dmaReport (type level : UInt32) (e : KgPciEnt) : DmaReport :=
  ⟨e, type, level, (kgBdf e.toPciAddr).toUInt64,
    ((e.vid.toUInt32 <<< 16) ||| e.did.toUInt32).toUInt64⟩

/-- The record of a device, if it has one or there is space for another. -/
def kgDmaRecGet (e : KgPciEnt) (recs : List KgDmaRec) : Option KgDmaRec × List KgDmaRec :=
  match recs.find? fun r => kgSameIdentity r.e e with
  | some r => (some r, recs)
  | none =>
      if recs.length ≥ kgMaxSuspect then (none, recs)
      else (some ⟨e, false, false⟩, recs ++ [⟨e, false, false⟩])

/-- Write to the record that `kg_dma_rec_get` returned for `e`. -/
def setRec (e : KgPciEnt) (f : KgDmaRec → KgDmaRec) : List KgDmaRec → List KgDmaRec
  | [] => []
  | r :: rest => if kgSameIdentity r.e e then f r :: rest else r :: setRec e f rest

/-- Forget devices that have left. -/
def kgDmaRecPrune (cur : List KgPciEnt) (recs : List KgDmaRec) : List KgDmaRec :=
  recs.filter fun r => cur.any fun c => kgSameIdentity c r.e

/-- An endpoint with `PCI_COMMAND_MASTER` set; bridges have to forward their children's DMA. -/
def isBusMaster (e : KgPciEnt) : Bool := e.hdr &&& 0x7f = 0 && e.cmd &&& 0x4 ≠ 0

/-- The first half of an entry's audit: `UNAUTHORIZED_DMA`, once per record. -/
def announceDma (v : AuditView) (e : KgPciEnt) (got : Option KgDmaRec) (recs : List KgDmaRec) :
    List DmaReport × List KgDmaRec :=
  match got with
  | none => ([], recs)
  | some r =>
      if r.alerted then ([], recs)
      else
        let openDma := v.pdev.all fun p => !p.iommuProtected
        let exposed := v.pdev.any fun p => p.untrusted || p.externalFacing || p.thunderbolt
        let level := if exposed && openDma then kgLevelCritical else kgLevelWatch
        ([dmaReport kgAlertUnauthorizedDma level e], setRec e (fun r => { r with alerted := true }) recs)

/-- The second half: enforcement is applied every time, and announced when it first succeeds. -/
def enforceDma (cfg : DmaConfig) (v : AuditView) (e : KgPciEnt) (got : Option KgDmaRec)
    (recs : List KgDmaRec) : List DmaReport × List KgDmaRec :=
  match got with
  | none => ([], recs)
  | some r =>
      if v.enforcing && kgDisableBme cfg v && !r.cleared then
        ([dmaReport kgAlertDeviceBmeDisabled kgLevelCritical e],
          setRec e (fun r => { r with cleared := true }) recs)
      else ([], recs)

/-- One turn of `kg_dma_audit`'s loop. -/
def auditEntry (cfg : DmaConfig) (p : KgPciEnt × AuditView) (recs : List KgDmaRec) :
    List DmaReport × List KgDmaRec :=
  if !isBusMaster p.1 || kgDmaAuthorized cfg p.1 then ([], recs)
  else
    let got := kgDmaRecGet p.1 recs
    let first := announceDma p.2 p.1 got.1 got.2
    let second := enforceDma cfg p.2 p.1 got.1 first.2
    (first.1 ++ second.1, second.2)

/-- `kg_dma_audit` of a scan: the entries of `kg_cur`, each with what is learned about it. -/
def kgDmaAudit (cfg : DmaConfig) (scan : List (KgPciEnt × AuditView)) (recs : List KgDmaRec) :
    List DmaReport × List KgDmaRec :=
  let r := Run.loop (auditEntry cfg) scan recs
  (r.1, kgDmaRecPrune (scan.map (·.1)) r.2)

end KernelGuard
