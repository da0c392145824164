/-
What the guard's digest and the mitigation table promise.

Two results rest on the same few facts about a critical section.  The first is the
table's invariant: whatever sequence of probes, posture changes and per-CPU steps
runs, the digest matches, the fail-safe flag and the posture agree, and the
posture's floor holds on every CPU.  The second is what the digest detects.  A
legitimate mutation hashes the table as it finds it, so a verification compares
the table with what it was when the lock was last released and with nothing older.

The first result holds for every hash function: the digest is recomputed from what
the table holds.  For the second the hash is taken to be injective, which stands for
its resistance to collisions; the encoding of the table is injective by itself
(`KgGuard.hashed_inj`).
-/
import KernelGuard.Model.Guard
import KernelGuard.Lib.Run

namespace KernelGuard

open Run Bytes

variable {D : Type}

/-- A hash computation that never fails. -/
def okSha (hash : List UInt8 → D) : List UInt8 → Option D := fun m => some (hash m)

/-! ### The encoding determines the table

The header and the entries have fixed widths, so the bytes can be cut apart again,
and the number of entries is read off the header before the entries are looked at.
-/

theorem KgCpuMit.length_bytes (m : KgCpuMit) : m.bytes.length = 20 := by
  simp [KgCpuMit.bytes]

theorem KgGuardHdr.length_bytes (h : KgGuardHdr) : h.bytes.length = 20 := by
  simp [KgGuardHdr.bytes]

theorem KgCpuMit.bytes_inj {m m' : KgCpuMit} (h : m.bytes = m'.bytes) : m = m' := by
  cases m
  cases m'
  -- One field at a time: each has its own width, so the tails agree as well.
  simp only [KgCpuMit.bytes, List.append_assoc, le8_append, le16_append, le32_append,
    le32_inj] at h
  simp [h]

theorem KgGuardHdr.bytes_inj {h h' : KgGuardHdr} (heq : h.bytes = h'.bytes) : h = h' := by
  cases h
  cases h'
  simp only [KgGuardHdr.bytes, List.append_assoc, le32_append, le32_inj] at heq
  simp [heq]

/-- Two guards with the same hashed bytes have the same header and the same table. -/
theorem KgGuard.hashed_inj {g g' : KgGuard D} (h : g.hashed = g'.hashed) :
    g.hdr = g'.hdr ∧ g.table = g'.table := by
  unfold KgGuard.hashed at h
  obtain ⟨hhdr, htable⟩ :=
    (append_iff (by rw [KgGuardHdr.length_bytes, KgGuardHdr.length_bytes])).mp h
  exact ⟨KgGuardHdr.bytes_inj hhdr,
    flatMap_inj (by omega) KgCpuMit.length_bytes (fun _ _ => KgCpuMit.bytes_inj) htable⟩

/-! ### One critical section

Between taking and releasing the lock the digest is out of date and nobody looks at
it.  The release hashes what is there: `Sealed` holds behind every critical section,
whatever was done in it.
-/

theorem asInt_of_lt {x : UInt32} (h : x.toNat < 2 ^ 31) : asInt x = x.toNat := by
  rw [asInt, if_pos h]

theorem setStrategies_of_le (f : KgCpuMit → UInt8) (t : Nat → KgCpuMit) {n i : Nat} (h : n ≤ i) :
    setStrategies f n t i = t i := by
  induction n with
  | zero => rfl
  | succ n ih =>
      unfold setStrategies
      rw [Function.update_of_ne (by omega), ih (by omega)]

/-- The loop rewrites the strategy of exactly the entries below its bound. -/
theorem setStrategies_apply (f : KgCpuMit → UInt8) (n : Nat) (t : Nat → KgCpuMit) (i : Nat) :
    setStrategies f n t i = if i < n then { t i with strategy := f (t i) } else t i := by
  induction n with
  | zero => simp [setStrategies]
  | succ n ih =>
      unfold setStrategies
      by_cases hi : i = n
      · subst hi
        simp [setStrategies_of_le]
      · rw [Function.update_of_ne hi, ih]
        by_cases hlt : i < n
        · rw [if_pos hlt, if_pos (by omega)]
        · rw [if_neg hlt, if_neg (by omega)]

section Release

variable (sha : List UInt8 → Option D) (g : KgGuard D)

@[simp] theorem release_hdr : (kgGuardUnlockRelease sha g).hdr = g.hdr := by
  unfold kgGuardUnlockRelease kgGuardUpdateLocked
  split <;> rfl

@[simp] theorem release_cpu : (kgGuardUnlockRelease sha g).cpu = g.cpu := by
  unfold kgGuardUnlockRelease kgGuardUpdateLocked
  split <;> rfl

@[simp] theorem release_cpuAlloc : (kgGuardUnlockRelease sha g).cpuAlloc = g.cpuAlloc := by
  unfold kgGuardUnlockRelease kgGuardUpdateLocked
  split <;> rfl

end Release

/-- The digest is the hash of what the table holds now. -/
structure Sealed (hash : List UInt8 → D) (g : KgGuard D) : Prop where
  alloc : g.cpuAlloc = true
  valid : g.valid = true
  digest : g.digest = hash g.hashed

/-- Releasing the lock seals the table, whatever it holds. -/
theorem release_sealed (hash : List UInt8 → D) {g : KgGuard D} (h : g.cpuAlloc = true) :
    Sealed hash (kgGuardUnlockRelease (okSha hash) g) := by
  have heq : kgGuardUnlockRelease (okSha hash) g
      = { g with digest := hash g.hashed, valid := true } := by
    simp [kgGuardUnlockRelease, kgGuardUpdateLocked, kgGuardCompute, okSha, h]
  rw [heq]
  exact ⟨h, rfl, rfl⟩

theorem Sealed.verify [DecidableEq D] {hash : List UInt8 → D} {g : KgGuard D} (h : Sealed hash g) :
    kgGuardVerify (okSha hash) g = true := by
  simp [kgGuardVerify, kgGuardCompute, okSha, h.valid, h.alloc, h.digest]

/-! ### The table's invariant

`TableOK` is what a mutation has to establish inside its critical section, and
`GuardInv` is that together with a current digest.  Each mutation writes either the
header or single entries, and an entry is good as long as it obeys the floor of the
posture that is in the header at the time.
-/

/-- One step of the mitigation engine, as the rest of the module takes it. -/
inductive MitOp (nr : NrCpuIds) where
  | store (cpu : Fin nr.val.toNat) (p : KgProbe)
  | setPosture (posture : UInt32) (h : posture ≤ kgPostureFailsafe)
  | enterFailsafe
  | escalateCpu (cpu : Int)
  | relaxCpu (cpu : Int)

def mitStep (sha : List UInt8 → Option D) {nr : NrCpuIds} (g : KgGuard D) : MitOp nr → KgGuard D
  | .store cpu p => kgMitStore sha cpu.val p g
  | .setPosture posture _ => kgMitSetPosture sha posture g
  | .enterFailsafe => (kgMitEnterFailsafe sha g).2
  | .escalateCpu cpu => kgMitEscalateCpu sha cpu g
  | .relaxCpu cpu => kgMitRelaxCpu sha cpu g

/-- The guarded table between two critical sections. -/
structure GuardInv (hash : List UInt8 → D) (g : KgGuard D) : Prop where
  /-- The digest matches the header and the entries it bounds. -/
  isSealed : Sealed hash g
  /-- The fail-safe flag is set exactly in the fail-safe posture. -/
  failsafe : g.hdr.failsafe ≠ 0 ↔ g.hdr.posture = kgPostureFailsafe
  /-- Every CPU is at its probed baseline or at full spectrum. -/
  strategy : ∀ i < g.hdr.ncpu.toNat,
    (g.cpu i).strategy = kgStratFull ∨ (g.cpu i).strategy = (g.cpu i).baseStrategy
  /-- From HIGH on, every CPU is at full spectrum. -/
  floor : g.hdr.posture ≥ kgPostureHigh →
    ∀ i < g.hdr.ncpu.toNat, (g.cpu i).strategy = kgStratFull

/-- The part of the invariant that a mutation has to re-establish before the lock is released. -/
structure TableOK (nr : NrCpuIds) (g : KgGuard D) : Prop where
  alloc : g.cpuAlloc = true
  ncpu : g.hdr.ncpu = nr.val
  failsafe : g.hdr.failsafe ≠ 0 ↔ g.hdr.posture = kgPostureFailsafe
  strategy : ∀ i < nr.val.toNat,
    (g.cpu i).strategy = kgStratFull ∨ (g.cpu i).strategy = (g.cpu i).baseStrategy
  floor : g.hdr.posture ≥ kgPostureHigh → ∀ i < nr.val.toNat, (g.cpu i).strategy = kgStratFull

namespace TableOK

variable {nr : NrCpuIds} {g : KgGuard D}

theorem release (h : TableOK nr g) (sha : List UInt8 → Option D) :
    TableOK nr (kgGuardUnlockRelease sha g) := by
  refine ⟨?_, ?_, ?_, ?_, ?_⟩
  · rw [release_cpuAlloc]; exact h.alloc
  · rw [release_hdr]; exact h.ncpu
  · rw [release_hdr]; exact h.failsafe
  · rw [release_cpu]; exact h.strategy
  · rw [release_hdr, release_cpu]; exact h.floor

theorem inv (h : TableOK nr g) (hash : List UInt8 → D) (hs : Sealed hash g) : GuardInv hash g := by
  refine ⟨hs, h.failsafe, ?_, ?_⟩
  · rw [h.ncpu]; exact h.strategy
  · rw [h.ncpu]; exact h.floor

theorem loopBound (h : TableOK nr g) : g.loopBound = nr.val.toNat := by
  unfold KgGuard.loopBound
  rw [h.ncpu, asInt_of_lt nr.lt]
  rfl

/-- Rewriting one entry keeps the table as long as that entry obeys the floor. -/
theorem setCpu (h : TableOK nr g) {j : Nat} {m : KgCpuMit}
    (hm : m.strategy = kgStratFull ∨
      (g.hdr.posture < kgPostureHigh ∧ m.strategy = m.baseStrategy)) :
    TableOK nr (g.setCpu j m) := by
  refine ⟨h.alloc, h.ncpu, h.failsafe, ?_, ?_⟩
  · intro i hi
    show (Function.update g.cpu j m i).strategy = kgStratFull
      ∨ (Function.update g.cpu j m i).strategy = (Function.update g.cpu j m i).baseStrategy
    by_cases hij : i = j
    · subst hij
      rw [Function.update_self]
      exact hm.imp id (fun hb => hb.2)
    · rw [Function.update_of_ne hij]
      exact h.strategy i hi
  · intro hp i hi
    show (Function.update g.cpu j m i).strategy = kgStratFull
    by_cases hij : i = j
    · subst hij
      rw [Function.update_self]
      rcases hm with hfull | ⟨hlow, -⟩
      · exact hfull
      · exact absurd hlow (UInt32.not_lt.mpr hp)
    · rw [Function.update_of_ne hij]
      exact h.floor hp i hi

theorem store (h : TableOK nr g) (sha : List UInt8 → Option D) (cpu : Nat) (p : KgProbe) :
    TableOK nr (kgMitStore sha cpu p g) := by
  unfold kgMitStore
  refine (h.setCpu ?_).release sha
  by_cases hp : g.hdr.posture ≥ kgPostureHigh
  · exact Or.inl (by simp [hp])
  · exact Or.inr ⟨UInt32.not_le.mp hp, by simp [hp]⟩

theorem setPosture (h : TableOK nr g) (sha : List UInt8 → Option D) (posture : UInt32) :
    TableOK nr (kgMitSetPosture sha posture g) := by
  simp only [kgMitSetPosture, h.loopBound]
  apply release
  refine ⟨h.alloc, h.ncpu, ?_, ?_, ?_⟩
  · by_cases hp : posture = kgPostureFailsafe <;> simp [hp]
  · intro i hi
    by_cases hnew : posture ≥ kgPostureHigh
    · simp [hnew, setStrategies_apply, hi]
    · by_cases hold : g.hdr.posture ≥ kgPostureHigh
      · simp [hnew, hold, setStrategies_apply, hi]
      · simpa [hnew, hold] using h.strategy i hi
  · intro hnew i hi
    have hp : posture ≥ kgPostureHigh := hnew
    simp [hp, setStrategies_apply, hi]

theorem enterFailsafe (h : TableOK nr g) (sha : List UInt8 → Option D) :
    TableOK nr (kgMitEnterFailsafe sha g).2 := by
  unfold kgMitEnterFailsafe
  by_cases hf : g.hdr.failsafe ≠ 0
  · rw [if_pos hf]
    exact h.release sha
  · rw [if_neg hf, h.loopBound]
    apply release
    refine ⟨h.alloc, h.ncpu, by simp, ?_, ?_⟩
    · intro i hi
      exact Or.inl (by simp [setStrategies_apply, hi])
    · intro _ i hi
      simp [setStrategies_apply, hi]

theorem escalateCpu (h : TableOK nr g) (sha : List UInt8 → Option D) (cpu : Int) :
    TableOK nr (kgMitEscalateCpu sha cpu g) := by
  unfold kgMitEscalateCpu
  by_cases hr : g.cpuOutOfRange cpu = true
  · rw [if_pos hr]; exact h
  · rw [if_neg hr]
    exact (h.setCpu (Or.inl rfl)).release sha

theorem relaxCpu (h : TableOK nr g) (sha : List UInt8 → Option D) (cpu : Int) :
    TableOK nr (kgMitRelaxCpu sha cpu g) := by
  unfold kgMitRelaxCpu
  by_cases hr : g.cpuOutOfRange cpu = true
  · rw [if_pos hr]; exact h
  · rw [if_neg hr]
    by_cases hp : g.hdr.posture < kgPostureHigh
    · rw [if_pos hp]
      exact (h.setCpu (Or.inr ⟨hp, rfl⟩)).release sha
    · rw [if_neg hp]
      exact h.release sha

theorem step (h : TableOK nr g) (sha : List UInt8 → Option D) (op : MitOp nr) :
    TableOK nr (mitStep sha g op) := by
  cases op with
  | store cpu p => exact h.store sha cpu.val p
  | setPosture posture _ => exact h.setPosture sha posture
  | enterFailsafe => exact h.enterFailsafe sha
  | escalateCpu cpu => exact h.escalateCpu sha cpu
  | relaxCpu cpu => exact h.relaxCpu sha cpu

end TableOK

/-! A mutation either returns before it takes the lock or ends by releasing it. -/

theorem store_sealed (hash : List UInt8 → D) {g : KgGuard D} (h : g.cpuAlloc = true) (cpu : Nat)
    (p : KgProbe) : Sealed hash (kgMitStore (okSha hash) cpu p g) :=
  release_sealed hash h

theorem setPosture_sealed (hash : List UInt8 → D) {g : KgGuard D} (h : g.cpuAlloc = true)
    (posture : UInt32) : Sealed hash (kgMitSetPosture (okSha hash) posture g) :=
  release_sealed hash h

theorem escalateCpu_sealed (hash : List UInt8 → D) {g : KgGuard D} (h : g.cpuAlloc = true)
    {cpu : Int} (hr : g.cpuOutOfRange cpu = false) :
    Sealed hash (kgMitEscalateCpu (okSha hash) cpu g) := by
  unfold kgMitEscalateCpu
  rw [if_neg (by simp [hr])]
  exact release_sealed hash h

theorem relaxCpu_sealed (hash : List UInt8 → D) {g : KgGuard D} (h : g.cpuAlloc = true)
    {cpu : Int} (hr : g.cpuOutOfRange cpu = false) :
    Sealed hash (kgMitRelaxCpu (okSha hash) cpu g) := by
  unfold kgMitRelaxCpu
  rw [if_neg (by simp [hr])]
  by_cases hp : g.hdr.posture < kgPostureHigh
  · rw [if_pos hp]; exact release_sealed hash h
  · rw [if_neg hp]; exact release_sealed hash h

theorem escalateCpu_outOfRange (sha : List UInt8 → Option D) {g : KgGuard D} {cpu : Int}
    (hr : g.cpuOutOfRange cpu = true) : kgMitEscalateCpu sha cpu g = g := by
  unfold kgMitEscalateCpu
  rw [if_pos hr]

theorem relaxCpu_outOfRange (sha : List UInt8 → Option D) {g : KgGuard D} {cpu : Int}
    (hr : g.cpuOutOfRange cpu = true) : kgMitRelaxCpu sha cpu g = g := by
  unfold kgMitRelaxCpu
  rw [if_pos hr]

theorem mitStep_sealed (hash : List UInt8 → D) {nr : NrCpuIds} {g : KgGuard D}
    (hs : Sealed hash g) (op : MitOp nr) : Sealed hash (mitStep (okSha hash) g op) := by
  cases op with
  | store cpu p => exact store_sealed hash hs.alloc cpu.val p
  | setPosture posture _ => exact setPosture_sealed hash hs.alloc posture
  | enterFailsafe =>
      unfold mitStep kgMitEnterFailsafe
      by_cases hf : g.hdr.failsafe ≠ 0
      · rw [if_pos hf]; exact release_sealed hash hs.alloc
      · rw [if_neg hf]; exact release_sealed hash hs.alloc
  | escalateCpu cpu =>
      by_cases hr : g.cpuOutOfRange cpu = true
      · rw [show mitStep (okSha hash) g (.escalateCpu cpu) = g from escalateCpu_outOfRange _ hr]
        exact hs
      · exact escalateCpu_sealed hash hs.alloc (by simpa using hr)
  | relaxCpu cpu =>
      by_cases hr : g.cpuOutOfRange cpu = true
      · rw [show mitStep (okSha hash) g (.relaxCpu cpu) = g from relaxCpu_outOfRange _ hr]
        exact hs
      · exact relaxCpu_sealed hash hs.alloc (by simpa using hr)

/-! ### From `kg_mit_init` on

The probe fills the table and the first release seals it.  Everything behind that is
`mitStep`, so the invariant of every reachable state is one induction over the
steps.
-/

/-- The guarded state `kg_mit_init` leaves when it succeeds. -/
def mitInit [Inhabited D] (sha : List UInt8 → Option D) (nr : NrCpuIds)
    (probes : List (Fin nr.val.toNat × KgProbe)) : KgGuard D :=
  (kgMitInit sha nr true (.ok probes) KgGuard.zero).2

theorem mitInit_ok [Inhabited D] (sha : List UInt8 → Option D) (nr : NrCpuIds)
    (probes : List (Fin nr.val.toNat × KgProbe)) : TableOK nr (mitInit sha nr probes) := by
  have hstart : ∀ g : KgGuard D, TableOK nr g →
      TableOK nr (probes.foldl (fun g x => kgMitStore sha x.1.val x.2 g) g) := by
    induction probes with
    | nil => intro g h; exact h
    | cons x rest ih => intro g h; exact ih _ (h.store sha x.1.val x.2)
  show TableOK nr (kgGuardUnlockRelease sha _)
  refine TableOK.release (hstart _ ⟨rfl, rfl, ?_, ?_, ?_⟩) sha
  · simp [kgPostureNormal, kgPostureFailsafe]
  · intro i _
    exact Or.inr rfl
  · intro hp
    exact absurd (show kgPostureNormal ≥ kgPostureHigh from hp) (by decide)

theorem mitInit_sealed [Inhabited D] (hash : List UInt8 → D) (nr : NrCpuIds)
    (probes : List (Fin nr.val.toNat × KgProbe)) : Sealed hash (mitInit (okSha hash) nr probes) := by
  refine release_sealed hash ?_
  rw [← release_cpuAlloc (okSha hash)]
  exact (mitInit_ok (okSha hash) nr probes).alloc

/--
**The mitigation table's invariant.**  However probes, posture changes, the
fail-safe entry and the per-CPU escalations and relaxations follow each other after
`kg_mit_init`, whenever the guard lock is free the digest matches the table, the
fail-safe flag agrees with the posture, every CPU is at its baseline or at full
spectrum, and no CPU is below the posture's floor.
-/
theorem mit_run_inv [Inhabited D] (hash : List UInt8 → D) (nr : NrCpuIds)
    (probes : List (Fin nr.val.toNat × KgProbe)) (ops : List (MitOp nr)) :
    GuardInv hash (exec (mitStep (okSha hash)) (mitInit (okSha hash) nr probes) ops) := by
  have hrun : TableOK nr (exec (mitStep (okSha hash)) (mitInit (okSha hash) nr probes) ops) ∧
      Sealed hash (exec (mitStep (okSha hash)) (mitInit (okSha hash) nr probes) ops) :=
    exec_invariant (P := fun g => TableOK nr g ∧ Sealed hash g)
      (fun g op h => ⟨h.1.step (okSha hash) op, mitStep_sealed hash h.2 op⟩)
      ⟨mitInit_ok (okSha hash) nr probes, mitInit_sealed hash nr probes⟩ ops
  exact hrun.1.inv hash hrun.2

/-! ### What the digest detects

An adversary write reaches the header or the table without the lock; a legitimate
mutation that takes the lock hashes what it finds there.
-/

/-- A step of a run that an adversary takes part in. -/
inductive GuardOp where
  | tamper (hdr : KgGuardHdr) (cpu : Nat → KgCpuMit)
  | store (cpu : Nat) (p : KgProbe)
  | setPosture (posture : UInt32)
  | escalateCpu (cpu : Int)
  | relaxCpu (cpu : Int)
  | verify

def guardStep (sha : List UInt8 → Option D) (g : KgGuard D) : GuardOp → KgGuard D
  | .tamper hdr cpu => { g with hdr := hdr, cpu := cpu }
  | .store cpu p => kgMitStore sha cpu p g
  | .setPosture posture => kgMitSetPosture sha posture g
  | .escalateCpu cpu => kgMitEscalateCpu sha cpu g
  | .relaxCpu cpu => kgMitRelaxCpu sha cpu g
  | .verify => g

/-- The table an observer compares: the header and the entries it bounds. -/
def KgGuard.content (g : KgGuard D) : KgGuardHdr × List KgCpuMit := (g.hdr, g.table)

/-- The step takes the guard lock, and so ends by hashing the table. -/
def takesLock (g : KgGuard D) : GuardOp → Bool
  | .store _ _ => true
  | .setPosture _ => true
  | .escalateCpu cpu => !g.cpuOutOfRange cpu
  | .relaxCpu cpu => !g.cpuOutOfRange cpu
  | .tamper _ _ => false
  | .verify => false

/-- The mutations the module itself makes. -/
def GuardOp.legit : GuardOp → Bool
  | .tamper _ _ => false
  | .verify => false
  | _ => true

theorem takesLock_sealed (hash : List UInt8 → D) {g : KgGuard D} (h : g.cpuAlloc = true)
    {op : GuardOp} (hl : takesLock g op = true) : Sealed hash (guardStep (okSha hash) g op) := by
  cases op with
  | tamper hdr cpu => simp [takesLock] at hl
  | store cpu p => exact store_sealed hash h cpu p
  | setPosture posture => exact setPosture_sealed hash h posture
  | escalateCpu cpu => exact escalateCpu_sealed hash h (by simpa [takesLock] using hl)
  | relaxCpu cpu => exact relaxCpu_sealed hash h (by simpa [takesLock] using hl)
  | verify => simp [takesLock] at hl

/-- A step that does not take the lock leaves the digest alone. -/
theorem not_takesLock_digest (sha : List UInt8 → Option D) {g : KgGuard D} {op : GuardOp}
    (hl : takesLock g op = false) :
    (guardStep sha g op).digest = g.digest ∧ (guardStep sha g op).valid = g.valid ∧
      (guardStep sha g op).cpuAlloc = g.cpuAlloc := by
  cases op with
  | tamper hdr cpu => exact ⟨rfl, rfl, rfl⟩
  | store cpu p => simp [takesLock] at hl
  | setPosture posture => simp [takesLock] at hl
  | escalateCpu cpu =>
      rw [show guardStep sha g (.escalateCpu cpu) = g from
        escalateCpu_outOfRange sha (by simpa [takesLock] using hl)]
      exact ⟨rfl, rfl, rfl⟩
  | relaxCpu cpu =>
      rw [show guardStep sha g (.relaxCpu cpu) = g from
        relaxCpu_outOfRange sha (by simpa [takesLock] using hl)]
      exact ⟨rfl, rfl, rfl⟩
  | verify => exact ⟨rfl, rfl, rfl⟩

theorem guardStep_cpuAlloc (hash : List UInt8 → D) {g : KgGuard D} (h : g.cpuAlloc = true)
    (op : GuardOp) : (guardStep (okSha hash) g op).cpuAlloc = true := by
  by_cases hl : takesLock g op = true
  · exact (takesLock_sealed hash h hl).alloc
  · rw [(not_takesLock_digest (okSha hash) (by simpa using hl)).2.2]
    exact h

theorem guardRun_cpuAlloc (hash : List UInt8 → D) {g : KgGuard D} (h : g.cpuAlloc = true)
    (ops : List GuardOp) : (exec (guardStep (okSha hash)) g ops).cpuAlloc = true :=
  exec_invariant (P := fun g : KgGuard D => g.cpuAlloc = true)
    (fun _ op hg => guardStep_cpuAlloc hash hg op) h ops

/-- The digest of a sealed table survives every run in which nobody takes the lock. -/
theorem unlocked_run_digest (sha : List UInt8 → Option D) {g : KgGuard D} (mid : List GuardOp)
    (hmid : Along (guardStep sha) g mid (fun g op => takesLock g op = false)) :
    (exec (guardStep sha) g mid).digest = g.digest ∧
      (exec (guardStep sha) g mid).valid = g.valid := by
  refine exec_invariant_of (P := fun g' => g'.digest = g.digest ∧ g'.valid = g.valid)
    ?_ ⟨rfl, rfl⟩ mid hmid
  intro g' op h hl
  obtain ⟨hd, hv, -⟩ := not_takesLock_digest sha hl
  exact ⟨hd.trans h.1, hv.trans h.2⟩

/-- Against a sealed digest, a verification compares the tables themselves. -/
theorem verify_iff_content [DecidableEq D] {hash : List UInt8 → D}
    (hinj : Function.Injective hash) {g g' : KgGuard D} (hs : Sealed hash g)
    (hd : g'.digest = g.digest) (hv : g'.valid = g.valid) (ha : g'.cpuAlloc = true) :
    kgGuardVerify (okSha hash) g' = true ↔ g'.content = g.content := by
  have hcmp : kgGuardVerify (okSha hash) g' = decide (hash g'.hashed = hash g.hashed) := by
    simp [kgGuardVerify, kgGuardCompute, okSha, hv, hs.valid, ha, hd, hs.digest]
  rw [hcmp, decide_eq_true_eq, hinj.eq_iff]
  constructor
  · intro h
    obtain ⟨hhdr, htable⟩ := KgGuard.hashed_inj h
    exact Prod.ext hhdr htable
  · intro h
    have hhdr : g'.hdr = g.hdr := congrArg Prod.fst h
    have htable : g'.table = g.table := congrArg Prod.snd h
    unfold KgGuard.hashed
    rw [hhdr, htable]

/-- A run ends with the table sealed: nothing has run yet, or its last step took the lock. -/
def EndsSealed (sha : List UInt8 → Option D) (g : KgGuard D) (ops : List GuardOp) : Prop :=
  ops = [] ∨ ∃ pre op, ops = pre ++ [op] ∧ takesLock (exec (guardStep sha) g pre) op = true

theorem EndsSealed.isSealed {hash : List UInt8 → D} {g : KgGuard D} (hg : Sealed hash g)
    {ops : List GuardOp} (h : EndsSealed (okSha hash) g ops) :
    Sealed hash (exec (guardStep (okSha hash)) g ops) := by
  rcases h with rfl | ⟨pre, op, rfl, hl⟩
  · exact hg
  · rw [exec_snoc]
    exact takesLock_sealed hash (guardRun_cpuAlloc hash hg.alloc pre) hl

/--
**What a verification says.**  Take any run from `kg_mit_init` with adversary writes
anywhere in it.  As long as nobody has taken the guard lock since the digest was
last computed, the verification fails exactly when the table differs from what it
was at that moment.  A mutation that takes the lock hashes the table as it stands,
so the verification right after it succeeds.
-/
theorem guard_verify_since_release [Inhabited D] [DecidableEq D] (hash : List UInt8 → D)
    (hinj : Function.Injective hash) (nr : NrCpuIds)
    (probes : List (Fin nr.val.toNat × KgProbe)) :
    (∀ pre mid, EndsSealed (okSha hash) (mitInit (okSha hash) nr probes) pre →
      Along (guardStep (okSha hash))
        (exec (guardStep (okSha hash)) (mitInit (okSha hash) nr probes) pre) mid
        (fun g op => takesLock g op = false) →
      (kgGuardVerify (okSha hash)
          (exec (guardStep (okSha hash)) (mitInit (okSha hash) nr probes) (pre ++ mid)) = false ↔
        (exec (guardStep (okSha hash)) (mitInit (okSha hash) nr probes) (pre ++ mid)).content ≠
          (exec (guardStep (okSha hash)) (mitInit (okSha hash) nr probes) pre).content)) ∧
    (∀ ops op,
      takesLock (exec (guardStep (okSha hash)) (mitInit (okSha hash) nr probes) ops) op = true →
      kgGuardVerify (okSha hash)
        (exec (guardStep (okSha hash)) (mitInit (okSha hash) nr probes) (ops ++ [op])) = true) := by
  have hg := mitInit_sealed hash nr probes
  refine ⟨?_, ?_⟩
  · intro pre mid hpre hmid
    have hs := hpre.isSealed hg
    obtain ⟨hd, hv⟩ := unlocked_run_digest (okSha hash) mid hmid
    rw [exec_append]
    have hiff := verify_iff_content hinj hs hd hv (guardRun_cpuAlloc hash hs.alloc mid)
    rw [← not_iff_not, Bool.not_eq_false, hiff, not_not]
  · intro ops op hl
    rw [exec_snoc]
    exact (takesLock_sealed hash (guardRun_cpuAlloc hash hg.alloc ops) hl).verify

/-- The adversary's write in the two runs below: the baseline of CPU 0 becomes "no mitigation". -/
def weakBaseline (i : Nat) : KgCpuMit :=
  if i = 0 then KgCpuMit.zero else { KgCpuMit.zero with strategy := 1, baseStrategy := 1 }

/-- A two-CPU machine on which the probe chose VERW everywhere. -/
def twoCpus : KgGuard (List UInt8) :=
  mitInit (okSha id) ⟨2, two_lt_nrCpuIds⟩
    [(⟨0, by decide⟩, ⟨0, 1, 50, 0, 0, 0⟩), (⟨1, by decide⟩, ⟨0, 1, 50, 0, 0, 0⟩)]

/-- A write after a posture change, with nothing in between, is detected. -/
theorem guard_verify_since_release_unlocked_write :
    kgGuardVerify (okSha id) (exec (guardStep (okSha id)) twoCpus
      ([.setPosture kgPostureElevated] ++ [.tamper twoCpus.hdr weakBaseline])) = false := by
  refine ((guard_verify_since_release id Function.injective_id _ _).1
    [.setPosture kgPostureElevated] [.tamper twoCpus.hdr weakBaseline]
    (Or.inr ⟨[], _, rfl, rfl⟩) ?_).mpr ?_
  · exact Along.cons rfl (Along.nil _ _ _)
  · decide

/--
Detection whatever runs in between: an adversary write that leaves the table
different from what the legitimate mutations alone would have produced is found by
the next verification, after any further legitimate mutations.
-/
def TamperAlwaysDetected [DecidableEq D] (hash : List UInt8 → D) (g : KgGuard D) : Prop :=
  ∀ (pre : List GuardOp) (hdr : KgGuardHdr) (cpu : Nat → KgCpuMit) (mid : List GuardOp),
    (∀ op ∈ mid, op.legit = true) →
    (exec (guardStep (okSha hash)) g (pre ++ [.tamper hdr cpu])).content ≠
      (exec (guardStep (okSha hash)) g (pre.filter GuardOp.legit)).content →
    kgGuardVerify (okSha hash)
      (exec (guardStep (okSha hash)) g (pre ++ .tamper hdr cpu :: mid)) = false

/-- An escalation of the other CPU hashes the tampered baseline in, and the write is hidden. -/
theorem escalate_hides_tamper : ¬ TamperAlwaysDetected id twoCpus := by
  intro h
  have hverify := h [] twoCpus.hdr weakBaseline [.escalateCpu 1] (by decide) (by decide)
  exact absurd hverify (by decide)

end KernelGuard
