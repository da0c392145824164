/-
What a patch site of the kernel is.

The kernel patches its own text at sites of two shapes: a NOP2 that becomes a short jump or
comes from one, and five bytes that change between NOP5, CALL rel32 and JMP rel32.  Such a
change is legitimate when a branch it leaves behind goes to known code.
-/
import KernelGuard.Lib.Clusters
import KernelGuard.Model.TextPatch

namespace KernelGuard

open Clusters

def Nop5 (b : List UInt8) : Prop :=
  b = [0x0f, 0x1f, 0x44, 0x00, 0x00] ∨ b = [0x66, 0x66, 0x90, 0x66, 0x90]

def CallRel32 (b : List UInt8) : Prop := b.getD 0 0 = 0xe8

def JmpRel32 (b : List UInt8) : Prop := b.getD 0 0 = 0xe9

/-- 66 90 to EB xx, or EB xx to 66 90. -/
def ShortPatch (old new : Nat → UInt8) (s : Nat) : Prop :=
  (old s = 0x66 ∧ old (s + 1) = 0x90 ∧ new s = 0xeb) ∨
  (new s = 0x66 ∧ new (s + 1) = 0x90 ∧ old s = 0xeb)

/-- Known code: kernel text or the region itself, and for a call also any module. -/
def KnownTarget (m : CodeMap) (r : TextRegion) (call : Prop) (t : UInt64) : Prop :=
  kgAddrInKernelText m t = true ∨ kgRegionContains r.toTextExtent t = true ∨
    call ∧ (kgInTrackedModule m t = true ∨ kgInModuleArea m t = true)

/-- A NOP5, a call or a jump in place of another, with a known target if it branches. -/
structure LongPatch (m : CodeMap) (r : TextRegion) (new : Nat → UInt8) (s : Nat) : Prop where
  before : Nop5 (kgBytes5 r.copy s) ∨ CallRel32 (kgBytes5 r.copy s) ∨
    JmpRel32 (kgBytes5 r.copy s)
  after : Nop5 (kgBytes5 new s) ∨ CallRel32 (kgBytes5 new s) ∨ JmpRel32 (kgBytes5 new s)
  target : CallRel32 (kgBytes5 new s) ∨ JmpRel32 (kgBytes5 new s) →
    KnownTarget m r (CallRel32 (kgBytes5 new s)) (kgBranchTarget (r.addr s) (kgBytes5 new s))

/-- The window of a patch site whose text changes from `r.copy` to `new`. -/
inductive PatchWindow (m : CodeMap) (r : TextRegion) (new : Nat → UInt8) : Span → Prop
  | short {s : Nat} (hin : s + 2 ≤ r.size) (h : ShortPatch r.copy new s) :
      PatchWindow m r new ⟨s, s + 2⟩
  | long {s : Nat} (hin : s + 5 ≤ r.size) (h : LongPatch m r new s) :
      PatchWindow m r new ⟨s, s + 5⟩

/-- An address space with no kernel text, no module area and no other region. -/
def nowhere : CodeMap := ⟨0, 0, 0, 0, []⟩

end KernelGuard
