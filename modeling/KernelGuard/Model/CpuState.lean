/-
Control state of the CPUs (`linux/module/kg_integrity.c`, from `struct kg_cpust` to
`kg_cpu_state_baseline`).

Every CPU reports its registers; a pass compares them with what the CPU reported before and
then checks the gates of one CPU's IDT against one shared copy.

What a pass finds comes from outside: which CPUs are up, their registers and the memory they
point to.  Nothing moves while a pass runs, so the CPUs that report are the CPUs that are up.
The allocation of a pass succeeds.  Counters and texts are not modelled.
-/
import KernelGuard.Lib.Sweep
import KernelGuard.Model.Pmu
import KernelGuard.Model.TextPatch

namespace KernelGuard

open Sweep

/-- The sixteen bytes of a `gate_desc`. -/
structure GateDesc where
  offsetLow : UInt16
  segment : UInt16
  bits : UInt16
  offsetMiddle : UInt16
  offsetHigh : UInt32
  reserved : UInt32
  deriving DecidableEq, Repr

def gateOffset (g : GateDesc) : UInt64 :=
  g.offsetLow.toUInt64 ||| (g.offsetMiddle.toUInt64 <<< 16) ||| (g.offsetHigh.toUInt64 <<< 32)

/-- `bits.p`, the top bit of the sixteen. -/
def GateDesc.present (g : GateDesc) : Bool := g.bits >>> 15 == 1

def GateDesc.zero : GateDesc := ⟨0, 0, 0, 0, 0, 0⟩

/-- The fields of `struct kg_cpust` that `CHECK_MSR` goes through. -/
inductive KgMsr where
  | lstar
  | cstar
  | star
  | smask
  | sysenter
  | ibrs
  deriving DecidableEq, Repr

/-- The MSR a field is read from. -/
def KgMsr.reg : KgMsr → UInt32
  | .lstar => 0xc0000082
  | .cstar => 0xc0000083
  | .star => 0xc0000081
  | .smask => 0xc0000084
  | .sysenter => 0x00000176
  | .ibrs => 0x00000048

/-- The order of the checks. -/
def kgMsrs : List KgMsr := [.lstar, .cstar, .star, .smask, .sysenter, .ibrs]

def kgRegCr0 : UInt32 := 0x10000000
def kgRegCr4 : UInt32 := 0x10000004

/-- `X86_CR0_WP`. -/
def x86Cr0Wp : UInt64 := 0x10000

/-- SMEP, SMAP, UMIP and FSGSBASE. -/
def kgCr4Pins : UInt64 := 0x100000 ||| 0x200000 ||| 0x800 ||| 0x10000

/-- `SPEC_CTRL_IBRS`. -/
def specCtrlIbrs : UInt64 := 1

structure KgCpust where
  valid : Bool
  idtLimit : UInt16
  idtBase : UInt64
  msr : KgMsr → UInt64
  cr0 : UInt64
  cr4 : UInt64

def KgCpust.zero : KgCpust := ⟨false, 0, 0, fun _ => 0, 0, 0⟩

/-- `X86_FEATURE_SEP`, `X86_FEATURE_IBRS_ENHANCED` and `X86_FEATURE_FRED`. -/
structure CpuFeatures where
  sep : Bool
  ibrsEnhanced : Bool
  fred : Bool

/-- The registers of a CPU; a read of an MSR it does not have fails. -/
structure CpuRegs where
  idtrAddress : UInt64
  idtrSize : UInt16
  rdmsr : UInt32 → Option UInt64
  cr0 : UInt64
  cr4 : UInt64

def kgCpustCollect (f : CpuFeatures) (r : CpuRegs) : KgCpust where
  valid := true
  idtBase := r.idtrAddress
  idtLimit := r.idtrSize
  msr := fun
    | .lstar => (r.rdmsr KgMsr.lstar.reg).getD 0
    | .cstar => (r.rdmsr KgMsr.cstar.reg).getD 0
    | .star => (r.rdmsr KgMsr.star.reg).getD 0
    | .smask => (r.rdmsr KgMsr.smask.reg).getD 0
    | .sysenter => if f.sep then (r.rdmsr KgMsr.sysenter.reg).getD 0 else 0
    -- elsewhere the kernel toggles the bit around entry and exit
    | .ibrs =>
        if f.ibrsEnhanced then
          match r.rdmsr KgMsr.ibrs.reg with
          | some v => v &&& specCtrlIbrs
          | none => 0
        else 0
  cr0 := r.cr0
  cr4 := r.cr4

/-- What a pass finds; `gate` is the memory, sixteen bytes from an address on. -/
structure CpuScene where
  topo : Topology
  regs : Nat → CpuRegs
  gate : UInt64 → GateDesc

/-- The array the CPUs report into. -/
def CpuScene.now (f : CpuFeatures) (scene : CpuScene) (cpu : Nat) : KgCpust :=
  if cpu ∈ scene.topo.onlineCpus then kgCpustCollect f (scene.regs cpu) else .zero

/-! ### Registers -/

def kgRegAlert (cpu : Nat) (reg : UInt32) (newv : UInt64) : Alert where
  type := kgAlertCtrlRegTamper
  level := kgLevelCritical
  p1 := (cpu.toUInt64 <<< 32) ||| reg.toUInt64
  p2 := newv

/-- `CHECK_MSR`: the value it finds becomes the one to compare with. -/
def checkMsr (cpu : Nat) (c : KgCpust) (r : KgMsr) (b : UInt64) : List Alert × UInt64 :=
  if b ≠ c.msr r then ([kgRegAlert cpu r.reg (c.msr r)], c.msr r) else ([], b)

/-- The checks of `CR0.WP` and of the `CR4` pins. -/
def checkBits (cpu : Nat) (reg : UInt32) (mask c b : UInt64) : List Alert × UInt64 :=
  if b &&& mask ≠ c &&& mask then ([kgRegAlert cpu reg c], c) else ([], b)

def checkIdtr (idtEnabled : Bool) (c b : UInt64) : List Alert × UInt64 :=
  if idtEnabled ∧ b ≠ c then ([⟨kgAlertIdtHook, kgLevelCritical, c, 0x100⟩], c) else ([], b)

def kgCpustCompare (idtEnabled : Bool) (cpu : Nat) (c b : KgCpust) : List Alert × KgCpust :=
  let (msrs, msr) := sweep (checkMsr cpu c) kgMsrs b.msr
  let (wp, cr0) := checkBits cpu kgRegCr0 x86Cr0Wp c.cr0 b.cr0
  let (pins, cr4) := checkBits cpu kgRegCr4 kgCr4Pins c.cr4 b.cr4
  let (idtr, idtBase) := checkIdtr idtEnabled c.idtBase b.idtBase
  (msrs ++ wp ++ pins ++ idtr, { b with msr := msr, cr0 := cr0, cr4 := cr4, idtBase := idtBase })

/-! ### Gates -/

/-- The number of gates looked at. -/
def KgCpust.gates (c : KgCpust) : Nat := min 256 ((c.idtLimit.toNat + 1) / 16)

/-- `cur[v]`. -/
def CpuScene.cur (scene : CpuScene) (c : KgCpust) (v : Nat) : GateDesc :=
  scene.gate (c.idtBase + 16 * v.toUInt64)

/-- The body of the loop; an anomaly is reported once and then copied. -/
def kgIdtVerifyGate (m : CodeMap) (baselinePass : Bool) (cur : Nat → GateDesc) (v : Nat)
    (base : GateDesc) : List Alert × GateDesc :=
  let handler := gateOffset (cur v)
  let changed := !baselinePass && cur v != base
  if !(cur v).present && !changed then ([], base)
  else if changed || (baselinePass && m.textEnd != 0 && !kgAddrInKernelText m handler) then
    ([⟨kgAlertIdtHook, kgLevelCritical, handler, v.toUInt64⟩], cur v)
  else ([], base)

def kgIdtVerify (m : CodeMap) (scene : CpuScene) (c : KgCpust) (baselinePass : Bool)
    (base : Nat → GateDesc) : List Alert × (Nat → GateDesc) :=
  sweep (kgIdtVerifyGate m baselinePass (scene.cur c)) (List.range c.gates) base

/-! ### The pass and the baseline -/

/-- `kg_cpu_base`, `kg_idt_base` and `kg_idt_enabled`. -/
structure KgCpuBase where
  cpu : Nat → KgCpust
  idt : Nat → GateDesc
  idtEnabled : Bool

/-- The body of the loop over the CPUs. -/
def kgCpuCheck (idtEnabled : Bool) (now : Nat → KgCpust) (cpu : Nat) (b : KgCpust) :
    List Alert × KgCpust :=
  if !(now cpu).valid then ([], b)
  -- hot-added after load: trust on first sight
  else if !b.valid then ([], now cpu)
  else kgCpustCompare idtEnabled cpu (now cpu) b

/-- The first CPU that was compared; a turn of the loop writes the entry of its own CPU only. -/
def KgCpuBase.first (st : KgCpuBase) (f : CpuFeatures) (scene : CpuScene) : Option Nat :=
  scene.topo.onlineCpus.find? fun cpu => (scene.now f cpu).valid && (st.cpu cpu).valid

def kgCpuStateCheck (f : CpuFeatures) (m : CodeMap) (scene : CpuScene) (st : KgCpuBase) :
    List Alert × KgCpuBase :=
  let now := scene.now f
  let (regs, cpu) := sweep (kgCpuCheck st.idtEnabled now) scene.topo.onlineCpus st.cpu
  match st.first f scene with
  | some first =>
      if st.idtEnabled then
        let (gates, idt) := kgIdtVerify m scene (now first) false st.idt
        (regs ++ gates, { st with cpu := cpu, idt := idt })
      else (regs, { st with cpu := cpu })
  | none => (regs, { st with cpu := cpu })

/-- The copy has all 256 gates.  Some CPU is always up, so that there is a first one. -/
def kgCpuStateBaseline (f : CpuFeatures) (m : CodeMap) (scene : CpuScene) :
    List Alert × KgCpuBase :=
  let now := scene.now f
  let st : KgCpuBase :=
    { cpu := fun cpu => if cpu ∈ scene.topo.onlineCpus then now cpu else .zero
      idt := fun _ => .zero
      idtEnabled := !f.fred }
  match scene.topo.onlineCpus.find? fun cpu => (now cpu).valid with
  | some first =>
      if st.idtEnabled then
        let (gates, idt) := kgIdtVerify m scene (now first) true (scene.cur (now first))
        (gates, { st with idt := idt })
      else ([], st)
  | none => ([], st)

/-- The alerts of a pass. -/
def cpuStateAlerts (f : CpuFeatures) (m : CodeMap) (st : KgCpuBase) (scene : CpuScene) :
    List Alert := (kgCpuStateCheck f m scene st).1

def cpuStateStep (f : CpuFeatures) (m : CodeMap) (st : KgCpuBase) (scene : CpuScene) : KgCpuBase :=
  (kgCpuStateCheck f m scene st).2

end KernelGuard
