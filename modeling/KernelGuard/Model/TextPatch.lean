/-
How a change of monitored text is found and judged (`linux/module/kg_integrity.c`, from
`kg_form5` to `kg_region_verify`).

A region keeps a copy of its text.  A pass compares the live text with it in chunks,
joins differing bytes that lie close together into runs, and classifies every run: it is
consumed patch site by patch site, and the worst verdict wins.  The new bytes then become
the copy, whatever the verdict was.

Bytes are functions of the offset in the region; only offsets below `size` are part of
it, and the code reads no others.  Addresses are `UInt64` and wrap around; offsets are
numbers, as `kg_region_add` keeps every size far below `2 ^ 64`.  What a chunk reads of
the live text comes from outside: one comparison and two samples, which need not agree.
The log lines are not modelled.
-/
import KernelGuard.Model.Uapi

namespace KernelGuard

/-! ### Known code -/

/-- `struct kg_region` without its copy. -/
structure TextExtent where
  base : UInt64
  size : Nat
  kernel : Bool
  deriving DecidableEq, Repr

structure TextRegion extends TextExtent where
  copy : Nat → UInt8

/--
What the classifier knows of the address space: `kg_text_start`, `kg_text_end`,
`MODULES_VADDR`, `MODULES_END` and the list `kg_regions`.
-/
structure CodeMap where
  textStart : UInt64
  textEnd : UInt64
  modulesVaddr : UInt64
  modulesEnd : UInt64
  regions : List TextExtent

def kgAddrInKernelText (m : CodeMap) (addr : UInt64) : Bool :=
  m.textEnd ≠ 0 && m.textStart ≤ addr && addr < m.textEnd

def kgRegionContains (r : TextExtent) (addr : UInt64) : Bool :=
  r.base ≤ addr && addr < r.base + UInt64.ofNat r.size

def kgInTrackedModule (m : CodeMap) (addr : UInt64) : Bool :=
  m.regions.any fun r => !r.kernel && kgRegionContains r addr

def kgInModuleArea (m : CodeMap) (addr : UInt64) : Bool :=
  m.modulesVaddr ≤ addr && addr < m.modulesEnd

/-! ### Classification of a modified byte run -/

inductive KgForm where
  | other
  | nop5
  | call
  | jmp
  | xor5
  | ret5
  deriving DecidableEq, Repr

def kgForm5 (p : List UInt8) : KgForm :=
  if p = [0x0f, 0x1f, 0x44, 0x00, 0x00] ∨ p = [0x66, 0x66, 0x90, 0x66, 0x90] then .nop5
  else if p.getD 0 0 = 0xe8 then .call
  else if p.getD 0 0 = 0xe9 then .jmp
  else if p = [0x2e, 0x2e, 0x2e, 0x31, 0xc0] then .xor5
  else if p = [0xc3, 0xcc, 0xcc, 0xcc, 0xcc] then .ret5
  else .other

/-- `rel` is an `s32` and is sign-extended to a `long`. -/
def kgBranchTarget (site : UInt64) (p : List UInt8) : UInt64 :=
  let rel := (UInt32.ofNat (Bytes.leValue ((p.drop 1).take 4))).toInt32
  site + 5 + rel.toInt64.toUInt64

inductive KgVerdict where
  | benign
  | watch
  | critical
  deriving DecidableEq, Repr

/-- The order of the enumeration: worst wins. -/
def KgVerdict.rank : KgVerdict → Nat
  | .benign => 0
  | .watch => 1
  | .critical => 2

def KgVerdict.max (a b : KgVerdict) : KgVerdict := if a.rank < b.rank then b else a

def kgTextfKernel : UInt32 := 0x1
def kgTextfUnknownTarget : UInt32 := 0x2
def kgTextfBreakpoint : UInt32 := 0x4

structure KgVerdictInfo where
  v : KgVerdict
  flags : UInt32
  site : UInt64
  wlen : Nat
  deriving DecidableEq, Repr

/-- `struct kg_seg`; `stop` is its `end`. -/
structure KgSeg where
  stop : Nat
  v : KgVerdict
  flags : UInt32
  site : UInt64
  deriving DecidableEq, Repr

/-- Five bytes of `text` from `s` on. -/
def kgBytes5 (text : Nat → UInt8) (s : Nat) : List UInt8 :=
  [text s, text (s + 1), text (s + 2), text (s + 3), text (s + 4)]

section Classify

variable (m : CodeMap) (r : TextRegion) (rs re : Nat) (newb : Nat → UInt8)

/-- The byte at `pos` as it would be after the change; `newb` holds the run `[rs, re)`. -/
def kgNewAt (pos : Nat) : UInt8 := if rs ≤ pos ∧ pos < re then newb (pos - rs) else r.copy pos

/-- The address of an offset. -/
def TextRegion.addr (off : Nat) : UInt64 := r.base + UInt64.ofNat off

/-- The 2-byte form, NOP2 to JMP8 or back. -/
def kgMatchShort (pos : Nat) : Option KgSeg :=
  if pos + 2 ≤ r.size then
    let o0 := r.copy pos
    let o1 := r.copy (pos + 1)
    let n0 := kgNewAt r rs re newb pos
    let n1 := kgNewAt r rs re newb (pos + 1)
    if (o0 = 0x66 ∧ o1 = 0x90 ∧ n0 = 0xeb) ∨ (n0 = 0x66 ∧ n1 = 0x90 ∧ o0 = 0xeb) then
      some ⟨pos + 2, .benign, 0, r.addr pos⟩
    else none
  else none

/-- What a 5-byte window at `s` is found to be, once its two forms are known. -/
def kgJudgeWindow (delta s : Nat) (fo fn : KgForm) (n : List UInt8) : Option KgSeg :=
  let site := r.addr s
  let t := kgBranchTarget site n
  if fo = .other ∧ fn = .other then none
  else if fo = .other ∨ fn = .other then
    -- optimised kprobe: arbitrary instruction bytes -> JMP to a detour buffer
    if fo = .other ∧ fn = .jmp ∧ delta = 0 then
      let v := if kgInModuleArea m t && !kgInTrackedModule m t && !kgAddrInKernelText m t
        then KgVerdict.watch else .critical
      some ⟨s + 5, v, kgTextfUnknownTarget, site⟩
    else none
  else if fo = .xor5 ∨ fo = .ret5 ∨ fn = .xor5 ∨ fn = .ret5 then
    some ⟨s + 5, .watch, 0, site⟩
  else if fn = .call ∨ fn = .jmp then
    let ok := kgAddrInKernelText m t || kgRegionContains r.toTextExtent t
    let ok := ok || (fn = .call && (kgInTrackedModule m t || kgInModuleArea m t))
    if ok then some ⟨s + 5, .benign, 0, site⟩
    else
      let v := if fn = .jmp && kgInModuleArea m t && !kgInTrackedModule m t
        then KgVerdict.watch else .critical
      some ⟨s + 5, v, kgTextfUnknownTarget, site⟩
  else some ⟨s + 5, .benign, 0, site⟩

/-- One round of the loop over `delta`; `none` is its `continue`. -/
def kgMatchWindow (pos delta : Nat) : Option KgSeg :=
  let s := pos - delta
  if s + 5 > r.size then none
  else
    let o := kgBytes5 r.copy s
    let n := kgBytes5 (kgNewAt r rs re newb) s
    -- an earlier window start is only meaningful for a retarget with the opcode unchanged
    if delta ≠ 0 ∧ (o.getD 0 0 ≠ n.getD 0 0 ∨ (o.getD 0 0 ≠ 0xe8 ∧ o.getD 0 0 ≠ 0xe9)) then none
    else kgJudgeWindow m r delta s (kgForm5 o) (kgForm5 n) n

/-- The loop over `delta`, which a `delta` above `pos` breaks off. -/
def kgMatchLoop (pos : Nat) : List Nat → Option KgSeg
  | [] => none
  | delta :: rest =>
      if delta > pos then none
      else
        match kgMatchWindow m r rs re newb pos delta with
        | some seg => some seg
        | none => kgMatchLoop pos rest

def kgMatchSite (pos : Nat) (first : Bool) : Option KgSeg :=
  match kgMatchShort r rs re newb pos with
  | some seg => some seg
  | none => kgMatchLoop m r rs re newb pos (if first then [0, 1, 2, 3, 4] else [0])

/-- The verdict so far, after one more site. -/
def KgVerdictInfo.add (out : KgVerdictInfo) (seg : KgSeg) : KgVerdictInfo :=
  let out := if seg.v.rank > out.v.rank
    then { out with v := seg.v, site := seg.site, wlen := 5 } else out
  { out with flags := out.flags ||| seg.flags }

/-- The verdict where no site matches. -/
def kgNoSite (pos : Nat) (out : KgVerdictInfo) : KgVerdictInfo :=
  if re - rs = 1 ∧ (newb 0 = 0xcc ∨ r.copy rs = 0xcc) then
    { out with v := out.v.max .watch, flags := out.flags ||| kgTextfBreakpoint }
  else { out with v := .critical, site := r.addr pos, wlen := re - pos }

/-- The loop of `kg_classify`; every round moves `pos`, so `re - rs` rounds are enough. -/
def kgClassifyLoop : Nat → Nat → Bool → KgVerdictInfo → KgVerdictInfo
  | 0, _, _, out => out
  | fuel + 1, pos, first, out =>
      if pos < re then
        if newb (pos - rs) = r.copy pos then kgClassifyLoop fuel (pos + 1) first out
        else
          match kgMatchSite m r rs re newb pos first with
          | none => kgNoSite r rs re newb pos out
          | some seg =>
              kgClassifyLoop fuel (if seg.stop > pos then seg.stop else pos + 1) false (out.add seg)
      else out

def kgClassify : KgVerdictInfo :=
  kgClassifyLoop m r rs re newb (re - rs) rs true
    ⟨.benign, if r.kernel then kgTextfKernel else 0, r.addr rs, re - rs⟩

end Classify

/-! ### Verification of one region -/

/-- History: a run that was passed to `kg_handle_run`, and its verdict. -/
structure HandledRun where
  rs : Nat
  re : Nat
  v : KgVerdict
  deriving DecidableEq, Repr

structure TextPass where
  region : TextRegion
  textDynamicPatches : UInt64
  textPatchDetected : UInt64
  /-- What was given to `kg_report`. -/
  alerts : List Alert
  handled : List HandledRun

/-- The `switch` of `kg_handle_run`: a run is counted, or counted and reported. -/
def kgReportRun (rs re : Nat) (vi : KgVerdictInfo) (t : TextPass) : TextPass :=
  match vi.v with
  | .benign => { t with textDynamicPatches := t.textDynamicPatches + 1 }
  | .watch | .critical =>
      let level := if vi.v = .critical then kgLevelCritical else kgLevelWatch
      let p2 := (vi.flags.toUInt64 <<< 32) ||| (UInt32.ofNat (re - rs)).toUInt64
      { t with
        textPatchDetected := t.textPatchDetected + 1
        alerts := t.alerts ++ [⟨kgAlertTextPatch, level, t.region.addr rs, p2⟩] }

def kgHandleRun (m : CodeMap) (rs re : Nat) (newb : Nat → UInt8) (t : TextPass) : TextPass :=
  let vi := kgClassify m t.region rs re newb
  -- the new bytes are accepted either way: one alert per modification, not one per pass
  { kgReportRun rs re vi t with
    region := { t.region with copy := kgNewAt t.region rs re newb }
    handled := t.handled ++ [⟨rs, re, vi.v⟩] }

def kgChunk : Nat := 65536
def kgOverlap : Nat := 8

section Chunk

variable (cur old : Nat → UInt8) (n : Nat)

/-- `while (i < n && cur[i] == old[i]) i++` -/
def kgSkipEqual : Nat → Nat → Nat
  | 0, i => i
  | fuel + 1, i => if i < n ∧ cur i = old i then kgSkipEqual fuel (i + 1) else i

/-- The `for` loop that moves `re` behind each differing byte until four in a row agree. -/
def kgGrowRun : Nat → Nat → Nat → Nat → Nat
  | 0, _, re, _ => re
  | fuel + 1, j, re, gap =>
      if j < n ∧ gap ≤ 3 then
        if cur j ≠ old j then kgGrowRun fuel (j + 1) (j + 1) 0
        else kgGrowRun fuel (j + 1) re (gap + 1)
      else re

end Chunk

/-- The outer loop of `kg_chunk_check`; `cur` is indexed from the chunk's start. -/
def kgChunkLoop (m : CodeMap) (off n : Nat) (cur : Nat → UInt8) :
    Nat → Nat → TextPass → TextPass
  | 0, _, t => t
  | fuel + 1, i, t =>
      let old := fun k => t.region.copy (off + k)
      let rs := kgSkipEqual cur old n (n - i) i
      if rs ≥ n then t
      else
        let re := kgGrowRun cur old n (n - (rs + 1)) (rs + 1) (rs + 1) 0
        -- runs that start in the overlap belong to the next chunk
        let t := if rs < kgChunk ∨ off + n ≥ t.region.size
          then kgHandleRun m (off + rs) (off + re) (fun k => cur (rs + k)) t else t
        kgChunkLoop m off n cur fuel re t

/-- The live text as a chunk reads it: for the comparison, then twice, 20 ms apart. -/
structure ChunkReads where
  compared : Nat → UInt8
  sampled : Nat → UInt8
  confirmed : Nat → UInt8

def kgChunkCheck (m : CodeMap) (off n : Nat) (reads : ChunkReads) (t : TextPass) : TextPass :=
  -- an unstable byte is treated as unchanged this pass
  let cur := fun i =>
    if reads.sampled (off + i) ≠ reads.confirmed (off + i) then t.region.copy (off + i)
    else reads.sampled (off + i)
  kgChunkLoop m off n cur n 0 t

/-- The loop over the chunks, from chunk `k` on. -/
def kgVerifyLoop (m : CodeMap) (reads : Nat → ChunkReads) : Nat → Nat → TextPass → TextPass
  | 0, _, t => t
  | fuel + 1, k, t =>
      let off := k * kgChunk
      if off < t.region.size then
        let n := min (kgChunk + kgOverlap) (t.region.size - off)
        let same := ∀ i < n, (reads k).compared (off + i) = t.region.copy (off + i)
        kgVerifyLoop m reads fuel (k + 1) (if same then t else kgChunkCheck m off n (reads k) t)
      else t

def kgRegionVerify (m : CodeMap) (reads : Nat → ChunkReads) (t : TextPass) : TextPass :=
  kgVerifyLoop m reads t.region.size 0 t

end KernelGuard
