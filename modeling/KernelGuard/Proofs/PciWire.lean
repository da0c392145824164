/-
What a PCI address looks like on the wire.

`kg_bdf` packs an address into a 32-bit word, and the monitor reads the segment of it from 16
bits above the bus.  The upper 8 of them are beyond the word: of a segment only the low byte
arrives, so that an address is read back exactly if its segment is below 256, and every
function of a higher segment shares its word with one of a lower.

The argument is arithmetic about digits: a shift and a mask pick a digit of a
number, and what is printed of an address are digits of the word, in bases that are
powers of two.  The digit of the segment begins at bit 24 and the word ends at bit
32.  The second word of a discrepancy is 64 bits wide and has room for all of its
fields, so its text names the kind and the identity as they were noted
(`formatDetails_suspect`).
-/
import KernelGuard.Model.DmaAudit

namespace KernelGuard

open Bytes

/-- The address that `format_details` prints. -/
def pciFields (p1 : UInt64) : PciAddr :=
  ⟨UInt16.ofNat (field p1 24 0xffff), UInt8.ofNat (field p1 16 0xff), UInt8.ofNat (field p1 8 0xff),
    UInt8.ofNat (field p1 0 0xf)⟩

/-- A field is a digit of the word, in a base that is a power of two. -/
theorem field_eq (x : UInt64) (k w : Nat) (hk : k < 64) (hw : w < 64) :
    field x (UInt64.ofNat k) (UInt64.ofNat (2 ^ w - 1)) = x.toNat / 2 ^ k % 2 ^ w := by
  have hpow : 2 ^ w < 2 ^ 64 := Nat.pow_lt_pow_right (by decide) hw
  unfold field
  rw [UInt64.toNat_and, UInt64.toNat_shiftRight, UInt64.toNat_ofNat', UInt64.toNat_ofNat',
    Nat.mod_eq_of_lt (show k < 2 ^ 64 by omega), Nat.mod_eq_of_lt hk, Nat.shiftRight_eq_div_pow,
    Nat.mod_eq_of_lt (show 2 ^ w - 1 < 2 ^ 64 by omega), Nat.and_two_pow_sub_one_eq_mod]

theorem pciFields_eq (p1 : UInt64) :
    pciFields p1 = ⟨UInt16.ofNat (p1.toNat / 2 ^ 24 % 2 ^ 16), UInt8.ofNat (p1.toNat / 2 ^ 16 % 2 ^ 8),
      UInt8.ofNat (p1.toNat / 2 ^ 8 % 2 ^ 8), UInt8.ofNat (p1.toNat / 2 ^ 0 % 2 ^ 4)⟩ := by
  unfold pciFields
  rw [← field_eq p1 24 16 (by decide) (by decide), ← field_eq p1 16 8 (by decide) (by decide),
    ← field_eq p1 8 8 (by decide) (by decide), ← field_eq p1 0 4 (by decide) (by decide)]
  rfl

/-- The text of an alert shows this address. -/
theorem pciText_eq (p1 : UInt64) : pciText p1 = bdfText (pciFields p1) := by
  have hlt : ∀ k w, p1.toNat / 2 ^ k % 2 ^ w < 2 ^ w :=
    fun k w => Nat.mod_lt _ (Nat.two_pow_pos w)
  have h16 := hlt 24 16
  have h8 := hlt 16 8
  have h8' := hlt 8 8
  have h4 := hlt 0 4
  unfold pciText bdfText
  rw [pciFields_eq]
  simp only [UInt16.toNat_ofNat', UInt8.toNat_ofNat']
  rw [Nat.mod_eq_of_lt h16, Nat.mod_eq_of_lt h8, Nat.mod_eq_of_lt h8',
    Nat.mod_eq_of_lt (Nat.lt_of_lt_of_le h4 (by decide)),
    ← field_eq p1 24 16 (by decide) (by decide), ← field_eq p1 16 8 (by decide) (by decide),
    ← field_eq p1 8 8 (by decide) (by decide), ← field_eq p1 0 4 (by decide) (by decide)]
  rfl

/-- Only the low byte of the segment is in the word. -/
theorem kgBdf_toNat (a : PciAddr) :
    (kgBdf a).toNat = a.seg.toNat % 256 * 2 ^ 24 + a.bus.toNat * 2 ^ 16 + a.dev.toNat * 2 ^ 8
      + a.fn.toNat := by
  have hbus := a.bus.toNat_lt
  have hdev := a.dev.toNat_lt
  have hfn := a.fn.toNat_lt
  have hseg : a.seg.toNat <<< 24 % 2 ^ 32 = a.seg.toNat % 256 * 2 ^ 24 := by
    rw [Nat.shiftLeft_eq]
    omega
  have hb : a.bus.toNat <<< 16 % 2 ^ 32 = a.bus.toNat * 2 ^ 16 := by
    rw [Nat.shiftLeft_eq]
    omega
  have hd : a.dev.toNat <<< 8 % 2 ^ 32 = a.dev.toNat * 2 ^ 8 := by
    rw [Nat.shiftLeft_eq]
    omega
  unfold kgBdf
  simp only [UInt32.toNat_or, UInt32.toNat_shiftLeft, UInt16.toNat_toUInt32, UInt8.toNat_toUInt32]
  rw [show (24 : UInt32).toNat % 32 = 24 from rfl, show (16 : UInt32).toNat % 32 = 16 from rfl,
    show (8 : UInt32).toNat % 32 = 8 from rfl, hseg, hb, hd, Bytes.mul_two_pow_or (by omega)]
  rw [show a.seg.toNat % 256 * 2 ^ 24 + a.bus.toNat * 2 ^ 16
      = (a.seg.toNat % 256 * 2 ^ 8 + a.bus.toNat) * 2 ^ 16 by omega, Bytes.mul_two_pow_or (by omega)]
  rw [show (a.seg.toNat % 256 * 2 ^ 8 + a.bus.toNat) * 2 ^ 16 + a.dev.toNat * 2 ^ 8
      = ((a.seg.toNat % 256 * 2 ^ 8 + a.bus.toNat) * 2 ^ 8 + a.dev.toNat) * 2 ^ 8 by omega,
    Bytes.mul_two_pow_or (by omega)]

/-- What is read back: the address with the segment reduced to its low byte. -/
theorem pciFields_kgBdf (a : PciAddr) (hfn : a.fn < 8) :
    pciFields (kgBdf a).toUInt64 = { a with seg := UInt16.ofNat (a.seg.toNat % 256) } := by
  have hbus := a.bus.toNat_lt
  have hdev := a.dev.toNat_lt
  have hfn' : a.fn.toNat < 8 := UInt8.lt_iff_toNat_lt.mp hfn
  rw [pciFields_eq, UInt32.toNat_toUInt64, kgBdf_toNat]
  rw [show (a.seg.toNat % 256 * 2 ^ 24 + a.bus.toNat * 2 ^ 16 + a.dev.toNat * 2 ^ 8 + a.fn.toNat)
      / 2 ^ 24 % 2 ^ 16 = a.seg.toNat % 256 by omega,
    show (a.seg.toNat % 256 * 2 ^ 24 + a.bus.toNat * 2 ^ 16 + a.dev.toNat * 2 ^ 8 + a.fn.toNat)
      / 2 ^ 16 % 2 ^ 8 = a.bus.toNat by omega,
    show (a.seg.toNat % 256 * 2 ^ 24 + a.bus.toNat * 2 ^ 16 + a.dev.toNat * 2 ^ 8 + a.fn.toNat)
      / 2 ^ 8 % 2 ^ 8 = a.dev.toNat by omega,
    show (a.seg.toNat % 256 * 2 ^ 24 + a.bus.toNat * 2 ^ 16 + a.dev.toNat * 2 ^ 8 + a.fn.toNat)
      / 2 ^ 0 % 2 ^ 4 = a.fn.toNat by omega]
  simp only [UInt8.ofNat_toNat]

/-- Two functions share a word if they differ in the high byte of the segment only. -/
theorem kgBdf_eq_iff {a b : PciAddr} (ha : a.fn < 8) (hb : b.fn < 8) :
    kgBdf a = kgBdf b ↔ ({ a with seg := UInt16.ofNat (a.seg.toNat % 256) } : PciAddr)
      = { b with seg := UInt16.ofNat (b.seg.toNat % 256) } := by
  constructor
  · intro h
    rw [← pciFields_kgBdf a ha, ← pciFields_kgBdf b hb, h]
  · intro h
    rw [PciAddr.mk.injEq] at h
    have hseg : a.seg.toNat % 256 = b.seg.toNat % 256 := by
      have h0 := congrArg UInt16.toNat h.1
      rw [UInt16.toNat_ofNat', UInt16.toNat_ofNat'] at h0
      omega
    rw [← UInt32.toNat_inj, kgBdf_toNat, kgBdf_toNat, hseg, h.2.1, h.2.2.1, h.2.2.2]

theorem seg_low_byte {seg : UInt16} : UInt16.ofNat (seg.toNat % 256) = seg ↔ seg < 256 := by
  rw [UInt16.lt_iff_toNat_lt, ← UInt16.toNat_inj, UInt16.toNat_ofNat',
    show (256 : UInt16).toNat = 256 from rfl]
  omega

/--
**Which addresses survive the wire.**  For every function, what `format_details` prints of the
`param1` that `kg_bdf` makes is its address exactly if its segment is below 256; functions of
such segments never share a `param1`; and every function of another segment shares its
`param1` with a function that is not it.
-/
theorem pci_address_survives_iff (a : PciAddr) (hdev : a.dev < 32) (hfn : a.fn < 8) :
    (pciFields (kgBdf a).toUInt64 = a ↔ a.seg < 256) ∧
    (∀ b : PciAddr, b.dev < 32 → b.fn < 8 → a.seg < 256 → b.seg < 256 →
      kgBdf a = kgBdf b → a = b) ∧
    (¬ a.seg < 256 → ∃ b : PciAddr, b.dev < 32 ∧ b.fn < 8 ∧ b ≠ a ∧ kgBdf b = kgBdf a) := by
  refine ⟨?_, ?_, ?_⟩
  · rw [pciFields_kgBdf a hfn, ← seg_low_byte]
    constructor
    · intro h
      exact congrArg PciAddr.seg h
    · intro h
      rw [h]
  · intro b _ hfb hsa hsb h
    rw [kgBdf_eq_iff hfn hfb, seg_low_byte.mpr hsa, seg_low_byte.mpr hsb] at h
    exact h
  · intro hseg
    refine ⟨{ a with seg := UInt16.ofNat (a.seg.toNat % 256) }, hdev, hfn, ?_, ?_⟩
    · intro h
      exact hseg (seg_low_byte.mp (congrArg PciAddr.seg h))
    · rw [← UInt32.toNat_inj, kgBdf_toNat, kgBdf_toNat, UInt16.toNat_ofNat']
      show a.seg.toNat % 256 % 2 ^ 16 % 256 * 2 ^ 24 + a.bus.toNat * 2 ^ 16 + a.dev.toNat * 2 ^ 8
        + a.fn.toNat = _
      omega

/-- `0000:03:00.0` is read back as it was sent. -/
theorem pci_address_survives_zero : pciFields (kgBdf ⟨0, 3, 0, 0⟩).toUInt64 = ⟨0, 3, 0, 0⟩ :=
  (pci_address_survives_iff ⟨0, 3, 0, 0⟩ (by decide) (by decide)).1.mpr (by decide)

/-- `0100:03:00.0` arrives as `0000:03:00.0`. -/
theorem segment_high_byte_lost :
    pciFields (kgBdf ⟨0x100, 3, 0, 0⟩).toUInt64 = ⟨0, 3, 0, 0⟩ ∧
      kgBdf ⟨0x100, 3, 0, 0⟩ = kgBdf ⟨0, 3, 0, 0⟩ := by
  decide +kernel

/-! ### What a discrepancy reads like

`kg_suspect_report` packs the kind and the identity of the device into `param2`, in the same way as
the address into `param1`, and no field of `param2` is cut.
-/

theorem suspectParam2_toNat (n : SuspectNote) :
    (kgSuspectReport n).p2.toNat
      = n.kind.code.toNat * 2 ^ 32 + n.e.vid.toNat * 2 ^ 16 + n.e.did.toNat := by
  have hkind := n.kind.code.toNat_lt
  have hvid := n.e.vid.toNat_lt
  have hdid := n.e.did.toNat_lt
  have hk : n.kind.code.toNat <<< 32 % 2 ^ 64 = n.kind.code.toNat * 2 ^ 32 := by
    rw [Nat.shiftLeft_eq]
    omega
  have hv : n.e.vid.toNat <<< 16 % 2 ^ 32 = n.e.vid.toNat * 2 ^ 16 := by
    rw [Nat.shiftLeft_eq]
    omega
  simp only [kgSuspectReport, UInt64.toNat_or, UInt64.toNat_shiftLeft, UInt32.toNat_shiftLeft,
    UInt8.toNat_toUInt64, UInt32.toNat_toUInt64, UInt16.toNat_toUInt32, UInt16.toNat_toUInt64]
  rw [show (32 : UInt64).toNat % 64 = 32 from rfl, show (16 : UInt32).toNat % 32 = 16 from rfl, hk,
    hv, Bytes.mul_two_pow_or (by omega)]
  rw [show n.kind.code.toNat * 2 ^ 32 + n.e.vid.toNat * 2 ^ 16
      = (n.kind.code.toNat * 2 ^ 16 + n.e.vid.toNat) * 2 ^ 16 by omega,
    Bytes.mul_two_pow_or (by omega)]

/-- As `format_details` calls it. -/
def SuspectKind.text : SuspectKind → CStr
  | .hiddenFromOs => str "hidden from OS"
  | .missingInHw => str "missing in hardware"
  | .identityMismatch => str "identity mismatch"

/-- The text of a discrepancy names the device, the kind and the identity, as they were noted, if
the segment is below 256. -/
theorem formatDetails_suspect (n : SuspectNote) (hfn : n.e.fn < 8) (hseg : n.e.seg < 256)
    {note : KgNotification} (htype : note.alertType = (kgSuspectReport n).type)
    (hp1 : note.param1 = (kgSuspectReport n).p1) (hp2 : note.param2 = (kgSuspectReport n).p2) :
    formatDetails note = bdfText n.e.toPciAddr ++ str "  " ++ n.kind.text ++ str "  id "
      ++ hexText 4 n.e.vid.toNat ++ str ":" ++ hexText 4 n.e.did.toNat := by
  have hkind := n.kind.code.toNat_lt
  have hvid := n.e.vid.toNat_lt
  have hdid := n.e.did.toNat_lt
  have hp := suspectParam2_toNat n
  have haddr : pciText note.param1 = bdfText n.e.toPciAddr := by
    rw [pciText_eq, hp1, show (kgSuspectReport n).p1 = (kgBdf n.e.toPciAddr).toUInt64 from rfl,
      pciFields_kgBdf _ hfn, show n.e.toPciAddr.seg = n.e.seg from rfl, seg_low_byte.mpr hseg]
  have hcode : field note.param2 32 0xffffffff = n.kind.code.toNat := by
    rw [hp2, show field _ 32 0xffffffff = _ from field_eq _ 32 32 (by decide) (by decide)]
    omega
  have hvendor : field note.param2 16 0xffff = n.e.vid.toNat := by
    rw [hp2, show field _ 16 0xffff = _ from field_eq _ 16 16 (by decide) (by decide)]
    omega
  have hdevice : field note.param2 0 0xffff = n.e.did.toNat := by
    rw [hp2, show field _ 0 0xffff = _ from field_eq _ 0 16 (by decide) (by decide)]
    omega
  have hname : str (((["?", "hidden from OS", "missing in hardware",
      "identity mismatch"])[n.kind.code.toNat]?).getD "?") = n.kind.text := by
    cases n.kind <;> rfl
  have hdetails : formatDetails note = pciText note.param1 ++ str "  "
      ++ str (((["?", "hidden from OS", "missing in hardware",
        "identity mismatch"])[field note.param2 32 0xffffffff]?).getD "?")
      ++ pciIdText note.param2 := by
    rw [formatDetails, htype]
    rfl
  rw [hdetails, hcode, hname, haddr, pciIdText, hvendor, hdevice]
  simp only [List.append_assoc]

end KernelGuard
