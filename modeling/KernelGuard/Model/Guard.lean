/-
The integrity-protected policy table (`linux/module/kg_state.c`, `kg_mitigate.c`).

`kg_guard` is the header, the per-CPU mitigation table the header's `ncpu` bounds,
and a SHA-256 digest over both.  Every function below that takes the guard lock is
one critical section, so it is one function on the guarded state: it mutates the
table and, as `kg_guard_unlock_release` does, hashes whatever the table then holds.

The table is memory, so it is a total function from an index: an index beyond the
allocation reads whatever lies there, which is what a tampered `ncpu` makes the
hash do.  The hash itself is a parameter; `none` is a crypto call that failed.
-/
import KernelGuard.Model.Uapi
import Mathlib.Logic.Function.Basic
import Mathlib.Algebra.Group.Int.Defs

namespace KernelGuard

open Bytes

/-- `struct kg_cpu_mit`, packed. -/
structure KgCpuMit where
  features : UInt32
  strategy : UInt8
  baseStrategy : UInt8
  flushCostNs : UInt16
  catWays : UInt16
  pad : UInt16
  catSensCbm : UInt32
  catDefCbm : UInt32
  deriving DecidableEq, Repr

def KgCpuMit.zero : KgCpuMit := ⟨0, 0, 0, 0, 0, 0, 0, 0⟩

/-- `struct kg_guard_hdr`, packed. -/
structure KgGuardHdr where
  magic : UInt32
  abi : UInt32
  ncpu : UInt32
  failsafe : UInt32
  posture : UInt32
  deriving DecidableEq, Repr

/-- `struct kg_guard`; `cpuAlloc` is `kg_guard.cpu != NULL`. -/
structure KgGuard (D : Type) where
  hdr : KgGuardHdr
  cpuAlloc : Bool
  cpu : Nat → KgCpuMit
  digest : D
  valid : Bool

def KgCpuMit.bytes (m : KgCpuMit) : List UInt8 :=
  le32 m.features ++ le8 m.strategy ++ le8 m.baseStrategy ++ le16 m.flushCostNs ++ le16 m.catWays
    ++ le16 m.pad ++ le32 m.catSensCbm ++ le32 m.catDefCbm

def KgGuardHdr.bytes (h : KgGuardHdr) : List UInt8 :=
  le32 h.magic ++ le32 h.abi ++ le32 h.ncpu ++ le32 h.failsafe ++ le32 h.posture

/-- The entries `cpu[0 .. ncpu)`, as many as the header says there are. -/
def KgGuard.table {D : Type} (g : KgGuard D) : List KgCpuMit :=
  (List.range g.hdr.ncpu.toNat).map g.cpu

/-- What the digest covers: the two `crypto_shash_update` calls, concatenated. -/
def KgGuard.hashed {D : Type} (g : KgGuard D) : List UInt8 :=
  g.hdr.bytes ++ g.table.flatMap KgCpuMit.bytes

/-- C's conversion of a `u32` to `int`. -/
def asInt (x : UInt32) : Int :=
  if x.toNat < 2 ^ 31 then x.toNat else (x.toNat : Int) - 2 ^ 32

variable {D : Type} (sha : List UInt8 → Option D)

def kgGuardCompute (g : KgGuard D) : Option D :=
  if g.cpuAlloc then sha g.hashed else none

def kgGuardUpdateLocked (g : KgGuard D) : KgGuard D :=
  match kgGuardCompute sha g with
  | some d => { g with digest := d, valid := true }
  | none => g

def kgGuardUpdate (g : KgGuard D) : KgGuard D := kgGuardUpdateLocked sha g

def kgGuardVerify [DecidableEq D] (g : KgGuard D) : Bool :=
  if !g.valid then false
  else
    match kgGuardCompute sha g with
    | none => false
    | some now => decide (now = g.digest)

/-- Re-hash, then unlock: the end of every policy mutation. -/
def kgGuardUnlockRelease (g : KgGuard D) : KgGuard D := kgGuardUpdateLocked sha g

/-! ### Policy mutation (`kg_mitigate.c`) -/

/-- `struct kg_probe`: what the capability probe found on one CPU. -/
structure KgProbe where
  features : UInt32
  strategy : UInt8
  costNs : UInt16
  catWays : UInt16
  catSensCbm : UInt32
  catDefCbm : UInt32
  deriving DecidableEq, Repr

/-- Write entry `i` of the table. -/
def KgGuard.setCpu (g : KgGuard D) (i : Nat) (m : KgCpuMit) : KgGuard D :=
  { g with cpu := Function.update g.cpu i m }

def kgMitStore (cpu : Nat) (p : KgProbe) (g : KgGuard D) : KgGuard D :=
  let strategy := if g.hdr.posture ≥ kgPostureHigh then kgStratFull else p.strategy
  let m : KgCpuMit :=
    { g.cpu cpu with
      features := p.features
      baseStrategy := p.strategy
      strategy := strategy
      flushCostNs := p.costNs
      catWays := p.catWays
      catSensCbm := p.catSensCbm
      catDefCbm := p.catDefCbm }
  kgGuardUnlockRelease sha (g.setCpu cpu m)

/-- `for (cpu = 0; cpu < n; cpu++) cpu[..].strategy = f(cpu[..])`. -/
def setStrategies (f : KgCpuMit → UInt8) : Nat → (Nat → KgCpuMit) → (Nat → KgCpuMit)
  | 0, t => t
  | n + 1, t =>
      let t := setStrategies f n t
      Function.update t n { t n with strategy := f (t n) }

/-- The bound of the loops over the table: `(int)kg_guard.hdr.ncpu`, none if negative. -/
def KgGuard.loopBound (g : KgGuard D) : Nat := (asInt g.hdr.ncpu).toNat

def kgMitSetPosture (posture : UInt32) (g : KgGuard D) : KgGuard D :=
  let cpu :=
    if posture ≥ kgPostureHigh then setStrategies (fun _ => kgStratFull) g.loopBound g.cpu
    else if g.hdr.posture ≥ kgPostureHigh then
      setStrategies (fun m => m.baseStrategy) g.loopBound g.cpu
    else g.cpu
  let failsafe : UInt32 := if posture = kgPostureFailsafe then 1 else 0
  kgGuardUnlockRelease sha
    { g with cpu := cpu, hdr := { g.hdr with posture := posture, failsafe := failsafe } }

/-- True only for the caller that made the transition. -/
def kgMitEnterFailsafe (g : KgGuard D) : Bool × KgGuard D :=
  if g.hdr.failsafe ≠ 0 then (false, kgGuardUnlockRelease sha g)
  else
    (true, kgGuardUnlockRelease sha
      { g with
        cpu := setStrategies (fun _ => kgStratFull) g.loopBound g.cpu
        hdr := { g.hdr with failsafe := 1, posture := kgPostureFailsafe } })

/-- `cpu < 0 || cpu >= (int)ncpu`, checked before the lock is taken. -/
def KgGuard.cpuOutOfRange (g : KgGuard D) (cpu : Int) : Bool :=
  cpu < 0 || cpu ≥ asInt g.hdr.ncpu

def kgMitEscalateCpu (cpu : Int) (g : KgGuard D) : KgGuard D :=
  if g.cpuOutOfRange cpu then g
  else
    kgGuardUnlockRelease sha
      (g.setCpu cpu.toNat { g.cpu cpu.toNat with strategy := kgStratFull })

def kgMitRelaxCpu (cpu : Int) (g : KgGuard D) : KgGuard D :=
  if g.cpuOutOfRange cpu then g
  else
    kgGuardUnlockRelease sha
      (if g.hdr.posture < kgPostureHigh then
        g.setCpu cpu.toNat { g.cpu cpu.toNat with strategy := (g.cpu cpu.toNat).baseStrategy }
      else g)

/-! ### Initialisation -/

/--
`nr_cpu_ids`: the kernel bounds it by `CONFIG_NR_CPUS`, which is far inside `int`;
the loops over the table rely on that when they convert it.
-/
structure NrCpuIds where
  val : UInt32
  lt : val.toNat < 2 ^ 31

theorem two_lt_nrCpuIds : (2 : UInt32).toNat < 2 ^ 31 := by decide

/-- `memset(&kg_guard, 0, sizeof(kg_guard))`. -/
def KgGuard.zero [Inhabited D] : KgGuard D :=
  ⟨⟨0, 0, 0, 0, 0⟩, false, fun _ => KgCpuMit.zero, default, false⟩

/--
`kg_mit_init`.  `alloc` says whether `kcalloc` returned memory; `cpuhp` is what
`cpuhp_setup_state` returned: an error, or success with the probe of every CPU
that was up, on which it ran `kg_mit_cpu_online`.
-/
def kgMitInit (nr : NrCpuIds) (alloc : Bool) (cpuhp : Except Int (List (Fin nr.val.toNat × KgProbe)))
    (g : KgGuard D) : Int × KgGuard D :=
  let hdr : KgGuardHdr :=
    { magic := 0x4B474744, abi := 1, ncpu := nr.val, failsafe := 0, posture := kgPostureNormal }
  if !alloc then (-12, { g with hdr := hdr, cpuAlloc := false })
  else
    match cpuhp with
    | .error ret => (ret, { g with hdr := hdr, cpuAlloc := false })
    | .ok probes =>
        let g := { g with hdr := hdr, cpuAlloc := true, cpu := fun _ => KgCpuMit.zero }
        let g := probes.foldl (fun g x => kgMitStore sha x.1.val x.2 g) g
        (0, kgGuardUpdate sha g)

end KernelGuard
