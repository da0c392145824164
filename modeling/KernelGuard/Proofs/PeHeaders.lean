/-
The header checks of the two Authenticode implementations.

Both are measured against `Spec/Authenticode.lean`: `peaLayout_judges` and
`parseLayout_judges` say that the checks of either side accept exactly the `HeadersOk`
images and read the same layout out of them.  On the C side that includes that no
check wraps and that no read leaves the file; on the Python side, that no
`struct.error` escapes.

Each side is compared with the specification and not with the other side: the order
of the checks and what they raise differ, and an image that fails several of them is
refused for different reasons.  A `Judges` lemma for one check says "refused exactly
if this conjunct fails", and the lemmas compose in the order of the code.
-/
import KernelGuard.Model.Authenticode
import KernelGuard.Spec.Authenticode
import KernelGuard.Lib.Verdict

namespace KernelGuard

/-! ### 64-bit arithmetic that does not wrap

The driver adds offsets in 64 bits.  All of them come from 16-bit and 32-bit fields,
so every sum is far from the wrap, and a subtraction is made only behind the
comparison that keeps it above zero.
-/

theorem u64_of_lt {n : Nat} (h : n < 2 ^ 64) : u64 n = n := Nat.mod_eq_of_lt h

theorem sub64_of_le {a b : Nat} (ha : a < 2 ^ 64) (h : b ≤ a) : sub64 a b = a - b := by
  have hsum : 2 ^ 64 + a - b = (a - b) + 2 ^ 64 := by omega
  rw [sub64, hsum, u64, Nat.add_mod_right]
  exact Nat.mod_eq_of_lt (by omega)

theorem byteAt_lt (img : List UInt8) (off : Nat) : byteAt img off < 2 ^ 8 :=
  UInt8.toNat_lt _

theorem rd16_lt (img : List UInt8) (off : Nat) : rd16 img off < 2 ^ 16 := by
  have h0 := byteAt_lt img off
  have h1 := byteAt_lt img (off + 1)
  rw [rd16]
  omega

theorem rd32_lt (img : List UInt8) (off : Nat) : rd32 img off < 2 ^ 32 := by
  have h0 := rd16_lt img off
  have h1 := rd16_lt img (off + 2)
  rw [rd32]
  omega

/-! ### The header checks of the driver

Reads are shown to be in the file from the checks in front of them.  The certificate
entry is read only if the count of directories reaches it, which both sides must
agree on.
-/

namespace PeFile

variable {f : PeFile} {off n : Nat}

theorem read_ok (h : off + n ≤ f.length) : f.read off n = .ok (slice f.bytes off n) := if_pos h

theorem rd8_ok (h : off + 1 ≤ f.length) : f.rd8 off = .ok (byteAt f.bytes off) := if_pos h

theorem rd16_ok (h : off + 2 ≤ f.length) : f.rd16 off = .ok (KernelGuard.rd16 f.bytes off) :=
  if_pos h

theorem rd32_ok (h : off + 4 ≤ f.length) : f.rd32 off = .ok (KernelGuard.rd32 f.bytes off) :=
  if_pos h

end PeFile

/-- The refusal of the driver: `return PEA_E_FORMAT`. -/
def FormatStop (e : PeaStop) : Prop := e = .ret .eFormat

theorem judges_rejectIf {α : Type} {P c : Prop} [Decidable c] {a : α}
    {k : Unit → Except PeaStop α} (hc : c → ¬P) (hk : ¬c → Judges FormatStop P a (k ())) :
    Judges FormatStop P a (rejectIf c >>= k) :=
  Judges.check rfl hc hk

namespace Pe

variable (img : List UInt8)

/-- The layout as the driver has it. -/
def layout : PeaLayout :=
  { checkOff := checksumOff img
    sizeOfHeaders := headerSize img
    nSections := sectionCount img
    secTab := secTab img
    certEntry := certEntry img
    certOff := certOff img
    certSize := certSize img }

theorem certEntry_end {e : Nat} (he : e ∈ certEntry img) : e + 8 ≤ secTab img := by
  rw [certEntry] at he
  split at he
  · have hval : dirOff img + 32 = e := Option.some.inj he
    omega
  · exact absurd he (Option.not_mem_none e)

theorem cert_lt : certOff img < 2 ^ 32 ∧ certSize img < 2 ^ 32 := by
  rw [certOff, certSize]
  split
  · exact ⟨rd32_lt _ _, rd32_lt _ _⟩
  · exact ⟨Nat.two_pow_pos 32, Nat.two_pow_pos 32⟩

/-- Header offsets are far below the 64-bit range. -/
theorem bounds : ntOff img < 2 ^ 32 ∧ optSize img < 2 ^ 16 ∧ sectionCount img < 2 ^ 16 ∧
    headerSize img < 2 ^ 32 :=
  ⟨rd32_lt _ _, rd16_lt _ _, rd16_lt _ _, rd32_lt _ _⟩

end Pe

open Pe

theorem peaDirectories_known {f : PeFile} (hmin : 96 ≤ optSize f.bytes)
    (hend : secTab f.bytes ≤ f.length)
    (hknown : magic f.bytes = 0x10b ∨ magic f.bytes = 0x20b ∧ 112 ≤ optSize f.bytes) :
    peaDirectories f (magic f.bytes) (optOff f.bytes) (optSize f.bytes) =
      .ok (dirOff f.bytes, dirCount f.bytes) := by
  obtain ⟨hnt, -, -, -⟩ := bounds f.bytes
  have hopt : optOff f.bytes < 2 ^ 33 := by rw [optOff]; omega
  have htab : secTab f.bytes = optOff f.bytes + optSize f.bytes := rfl
  rcases hknown with h32 | ⟨h64, hbig⟩
  · have hread : f.rd32 (optOff f.bytes + 92) = .ok (rd32 f.bytes (optOff f.bytes + 92)) :=
      PeFile.rd32_ok (by omega)
    rw [peaDirectories, if_pos h32, if_pos hmin, hread]
    simp only [dirOff, dirCount, if_pos h32]
    rw [u64_of_lt (by omega)]
    rfl
  · have hne : magic f.bytes ≠ 0x10b := by omega
    have hread : f.rd32 (optOff f.bytes + 108) = .ok (rd32 f.bytes (optOff f.bytes + 108)) :=
      PeFile.rd32_ok (by omega)
    have hrej : rejectIf (optSize f.bytes < 112) = .ok () := if_neg (by omega)
    rw [peaDirectories, if_neg hne, if_pos h64, hrej, hread]
    simp only [dirOff, dirCount, if_neg hne]
    rw [u64_of_lt (by omega)]
    rfl

theorem peaDirectories_unknown {f : PeFile}
    (hknown : ¬(magic f.bytes = 0x10b ∨ magic f.bytes = 0x20b ∧ 112 ≤ optSize f.bytes)) :
    peaDirectories f (magic f.bytes) (optOff f.bytes) (optSize f.bytes) =
      .error (.ret .eFormat) := by
  rw [not_or, not_and] at hknown
  obtain ⟨hne, hsmall⟩ := hknown
  rw [peaDirectories, if_neg hne]
  by_cases h64 : magic f.bytes = 0x20b
  · have hrej : rejectIf (optSize f.bytes < 112) = .error (.ret .eFormat) :=
      if_pos (by have := hsmall h64; omega)
    rw [if_pos h64, hrej]
    rfl
  · rw [if_neg h64]

theorem peaCertEntry_eq {f : PeFile} (hend : secTab f.bytes ≤ f.length) :
    peaCertEntry f (dirCount f.bytes) (dirOff f.bytes) (optOff f.bytes) (optSize f.bytes) =
      .ok (certEntry f.bytes, certOff f.bytes, certSize f.bytes) := by
  obtain ⟨hnt, hsize, -, -⟩ := bounds f.bytes
  have hopt : optOff f.bytes < 2 ^ 33 := by rw [optOff]; omega
  have htab : secTab f.bytes = optOff f.bytes + optSize f.bytes := rfl
  have hdir : dirOff f.bytes ≤ optOff f.bytes + 112 := by
    rw [dirOff]
    split <;> omega
  rw [peaCertEntry, u64_of_lt (by omega), u64_of_lt (by omega), u64_of_lt (by omega)]
  by_cases h : dirCount f.bytes > 4 ∧ dirOff f.bytes + 5 * 8 ≤ optOff f.bytes + optSize f.bytes
  · have hentry : certEntry f.bytes = some (dirOff f.bytes + 32) := if_pos h
    have hoff : f.rd32 (dirOff f.bytes + 32) = .ok (rd32 f.bytes (dirOff f.bytes + 32)) :=
      PeFile.rd32_ok (by omega)
    have hsz : f.rd32 (dirOff f.bytes + 36) = .ok (rd32 f.bytes (dirOff f.bytes + 36)) :=
      PeFile.rd32_ok (by omega)
    rw [if_pos h, certOff, certSize, hentry]
    show (f.rd32 (dirOff f.bytes + 32) >>= fun o => f.rd32 (dirOff f.bytes + 36) >>= fun z =>
      Except.ok (some (dirOff f.bytes + 32), o, z)) = _
    rw [hoff, hsz]
    rfl
  · have hentry : certEntry f.bytes = none := if_neg h
    rw [if_neg h, certOff, certSize, hentry]
    rfl

/-- The three comparisons of `e_lfanew`, none of which wraps. -/
theorem lfanew_rejected_iff (f : PeFile) :
    (ntOff f.bytes < 0x40 ∨ ntOff f.bytes > f.length ∨ sub64 f.length (ntOff f.bytes) < 24) ↔
      ¬ (0x40 ≤ ntOff f.bytes ∧ ntOff f.bytes + 24 ≤ f.length) := by
  by_cases hle : ntOff f.bytes ≤ f.length
  · have hsub : sub64 f.length (ntOff f.bytes) = f.length - ntOff f.bytes :=
      sub64_of_le f.length_lt hle
    rw [hsub]
    omega
  · omega

theorem peaFileHeader_judges (f : PeFile) :
    Judges FormatStop (FileHeaderOk f.bytes)
      (optOff f.bytes, optSize f.bytes, sectionCount f.bytes) (peaFileHeader f) := by
  have hlen := f.length_lt
  obtain ⟨hnt, hsize, hcount, -⟩ := bounds f.bytes
  have htab : secTab f.bytes = optOff f.bytes + optSize f.bytes := rfl
  have hoff : optOff f.bytes = ntOff f.bytes + 24 := rfl
  have hf : f.length = f.bytes.length := rfl
  rw [peaFileHeader]
  refine judges_rejectIf (fun h ok => absurd ok.dos (by omega)) fun hdos => ?_
  refine Judges.step (PeFile.rd8_ok (by omega)) ?_
  refine judges_rejectIf (fun h ok => h ok.mz.1) fun hm => ?_
  refine Judges.step (PeFile.rd8_ok (by omega)) ?_
  refine judges_rejectIf (fun h ok => h ok.mz.2) fun hz => ?_
  refine Judges.step (PeFile.rd32_ok (by omega)) ?_
  refine judges_rejectIf (c := ntOff f.bytes < 0x40 ∨ ntOff f.bytes > f.length ∨
    sub64 f.length (ntOff f.bytes) < 24) ?_ fun hlf => ?_
  · exact fun h ok => (lfanew_rejected_iff f).mp h ⟨ok.nt, ok.ntEnd⟩
  obtain ⟨hntMin, hntEnd⟩ := not_not.mp (mt (lfanew_rejected_iff f).mpr hlf)
  refine Judges.step (PeFile.rd8_ok (show ntOff f.bytes + 1 ≤ f.length by omega)) ?_
  refine judges_rejectIf (fun h ok => h ok.pe.1) fun hp0 => ?_
  refine Judges.step (PeFile.rd8_ok (show ntOff f.bytes + 1 + 1 ≤ f.length by omega)) ?_
  refine judges_rejectIf (fun h ok => h ok.pe.2.1) fun hp1 => ?_
  refine Judges.step (PeFile.rd8_ok (show ntOff f.bytes + 2 + 1 ≤ f.length by omega)) ?_
  refine judges_rejectIf (fun h ok => h ok.pe.2.2.1) fun hp2 => ?_
  refine Judges.step (PeFile.rd8_ok (show ntOff f.bytes + 3 + 1 ≤ f.length by omega)) ?_
  refine judges_rejectIf (fun h ok => h ok.pe.2.2.2) fun hp3 => ?_
  refine Judges.step (PeFile.rd16_ok (show ntOff f.bytes + 6 + 2 ≤ f.length by omega)) ?_
  refine Judges.step (PeFile.rd16_ok (show ntOff f.bytes + 20 + 2 ≤ f.length by omega)) ?_
  have hopt : u64 (ntOff f.bytes + 24) = optOff f.bytes := u64_of_lt (by omega)
  have hsubOpt : sub64 f.length (optOff f.bytes) = f.length - optOff f.bytes :=
    sub64_of_le hlen (by omega)
  show Judges FormatStop _ _ (rejectIf (sectionCount f.bytes > peaMaxSections ∨
    u64 (ntOff f.bytes + 24) > f.length ∨
    optSize f.bytes > sub64 f.length (u64 (ntOff f.bytes + 24)) ∨ optSize f.bytes < 96) >>=
      fun _ => .ok (u64 (ntOff f.bytes + 24), optSize f.bytes, sectionCount f.bytes))
  rw [hopt, hsubOpt]
  refine judges_rejectIf ?_ fun hfile => ?_
  · intro h ok
    have hsec := ok.sections
    have hend := ok.optEnd
    have hmin := ok.optMin
    rw [peaMaxSections] at h
    omega
  rw [peaMaxSections] at hfile
  exact Judges.accept
    { dos := by omega
      mz := ⟨not_not.mp hm, not_not.mp hz⟩
      nt := hntMin
      ntEnd := hntEnd
      pe := ⟨not_not.mp hp0, not_not.mp hp1, not_not.mp hp2, not_not.mp hp3⟩
      sections := by omega
      optEnd := by omega
      optMin := by omega }

/-- The check of the place of the certificate entry, which does not wrap either. -/
theorem certEntry_rejected_iff (f : PeFile) (hend : optOff f.bytes + optSize f.bytes ≤ f.length) :
    (∃ e, certEntry f.bytes = some e ∧
      (e < checksumOff f.bytes + 4 ∨ u64 (e + 8) > headerSize f.bytes)) ↔
      ¬ ∀ e, certEntry f.bytes = some e →
        checksumOff f.bytes + 4 ≤ e ∧ e + 8 ≤ headerSize f.bytes := by
  have hlen := f.length_lt
  have htab : secTab f.bytes = optOff f.bytes + optSize f.bytes := rfl
  have hf : f.length = f.bytes.length := rfl
  simp only [not_forall]
  refine exists_congr fun e => ?_
  rw [exists_prop]
  refine and_congr_right fun he => ?_
  have hin := certEntry_end f.bytes he
  rw [u64_of_lt (by omega)]
  omega

/-- The checks behind the file header, once it is known to be sound. -/
theorem peaLayout_judges (f : PeFile) :
    Judges FormatStop (HeadersOk f.bytes) (layout f.bytes) (peaLayout f) := by
  have hlen := f.length_lt
  obtain ⟨hnt, hsize, hcount, -⟩ := bounds f.bytes
  have htab : secTab f.bytes = optOff f.bytes + optSize f.bytes := rfl
  have hoff : optOff f.bytes = ntOff f.bytes + 24 := rfl
  have hf : f.length = f.bytes.length := rfl
  rw [peaLayout]
  refine Judges.and (peaFileHeader_judges f) fun hfile => ?_
  have hmin := hfile.optMin
  have hend := hfile.optEnd
  have hsec := hfile.sections
  refine Judges.step (PeFile.rd16_ok (show optOff f.bytes + 2 ≤ f.length by omega)) ?_
  by_cases hknown : magic f.bytes = 0x10b ∨ magic f.bytes = 0x20b ∧ 112 ≤ optSize f.bytes
  swap
  · have hstop := peaDirectories_unknown hknown
    rw [magic] at hstop
    simp only [hstop]
    exact Judges.refuse rfl fun ok => hknown ok.known
  refine Judges.step (peaDirectories_known hmin hend hknown) ?_
  refine Judges.step (PeFile.rd32_ok (show optOff f.bytes + 60 + 4 ≤ f.length by omega)) ?_
  have hchk : u64 (optOff f.bytes + 64) = checksumOff f.bytes := u64_of_lt (by omega)
  have hchk4 : u64 (checksumOff f.bytes + 4) = checksumOff f.bytes + 4 :=
    u64_of_lt (by rw [checksumOff]; omega)
  have htab64 : u64 (optOff f.bytes + optSize f.bytes) = secTab f.bytes := u64_of_lt (by omega)
  have hrows : u64 (sectionCount f.bytes * 40) = sectionCount f.bytes * 40 :=
    u64_of_lt (by omega)
  have hsubTab : sub64 f.length (secTab f.bytes) = f.length - secTab f.bytes :=
    sub64_of_le hlen hend
  simp only [hchk, hchk4, htab64, hrows, hsubTab]
  refine judges_rejectIf ?_ fun hhead => ?_
  · intro h ok
    have hsize' := ok.headersEnd
    rw [headerSize] at hsize'
    rw [checksumOff] at h
    omega
  refine Judges.step (peaCertEntry_eq hend) ?_
  refine judges_rejectIf (fun h ok => absurd ok.checksum (Nat.not_le.mpr h)) fun hchkEnd => ?_
  refine judges_rejectIf (fun h ok => (certEntry_rejected_iff f hend).mp h ok.cert) fun hcert => ?_
  refine judges_rejectIf ?_ fun htable => ?_
  · intro h ok
    have hrows' := ok.table
    omega
  exact Judges.accept
    { known := hknown
      headersEnd := by rw [headerSize]; omega
      checksum := Nat.not_lt.mp hchkEnd
      cert := not_not.mp (mt (certEntry_rejected_iff f hend).mpr hcert)
      table := by omega }

/-! ### The header checks of the tool

`struct.unpack_from` raises when it would read beyond the end, and the tool has to
have checked before; slices, on the other hand, never raise, and are shorter at the
end of the file.
-/

/-- The refusal of the tool: `raise PEFormatError`. -/
def FormatRaise (e : PyErr) : Prop := ∃ msg, e = .peFormat msg

theorem judges_raiseIf {α : Type} {P c : Prop} [Decidable c] {a : α} {msg : String}
    {k : Unit → Except PyErr α} (hc : c → ¬P) (hk : ¬c → Judges FormatRaise P a (k ())) :
    Judges FormatRaise P a (raiseIf c msg >>= k) :=
  Judges.check ⟨msg, rfl⟩ hc hk

theorem pyU16_ok {data : List UInt8} {o : Nat} (h : o + 2 ≤ data.length) :
    pyU16 data o = .ok (rd16 data o) := if_pos h

theorem pyU32_ok {data : List UInt8} {o : Nat} (h : o + 4 ≤ data.length) :
    pyU32 data o = .ok (rd32 data o) := if_pos h

/-- The layout as the tool has it. -/
def Pe.pyLayout (img : List UInt8) : PyLayout :=
  { checksum := checksumOff img
    headers := headerSize img
    nsec := sectionCount img
    sectab := secTab img
    certEntry := certEntry img
    certOff := certOff img
    certSize := certSize img }

theorem slice_succ {img : List UInt8} {off n : Nat} (h : off < img.length) :
    slice img off (n + 1) = img.getD off 0 :: slice img (off + 1) n := by
  rw [slice, List.drop_eq_getElem_cons h, List.take_succ_cons, slice]
  simp [List.getD, h]

@[simp] theorem slice_zero (img : List UInt8) (off : Nat) : slice img off 0 = [] := rfl

theorem getD_eq_iff {img : List UInt8} {off : Nat} {c : UInt8} :
    img.getD off 0 = c ↔ byteAt img off = c.toNat := UInt8.toNat_inj.symm

theorem pySlice_mz {data : List UInt8} (h : 2 ≤ data.length) :
    pySlice data 0 2 = [0x4d, 0x5a] ↔ byteAt data 0 = 0x4d ∧ byteAt data 1 = 0x5a := by
  rw [pySlice, slice_succ (by omega), slice_succ (by omega), slice_zero]
  simp only [List.cons.injEq, and_true, getD_eq_iff]
  rfl

theorem pySlice_pe {data : List UInt8} {off : Nat} (h : off + 4 ≤ data.length) :
    pySlice data off (off + 4) = [0x50, 0x45, 0, 0] ↔
      byteAt data off = 0x50 ∧ byteAt data (off + 1) = 0x45 ∧
        byteAt data (off + 2) = 0 ∧ byteAt data (off + 3) = 0 := by
  rw [pySlice, Nat.add_sub_cancel_left, slice_succ (by omega), slice_succ (by omega),
    slice_succ (by omega), slice_succ (by omega), slice_zero]
  simp only [List.cons.injEq, and_true, getD_eq_iff]
  rfl

theorem pyFileHeader_judges (data : List UInt8) :
    Judges FormatRaise (FileHeaderOk data)
      (optOff data, optSize data, sectionCount data) (pyFileHeader data) := by
  have htab : secTab data = optOff data + optSize data := rfl
  have hoff : optOff data = ntOff data + 24 := rfl
  rw [pyFileHeader]
  refine judges_raiseIf ?_ fun hdos => ?_
  · intro h ok
    have hlen := ok.dos
    rw [Ne, pySlice_mz (by omega)] at h
    exact h.elim (by omega) fun hmz => hmz ok.mz
  rw [not_or, not_not] at hdos
  obtain ⟨hlen, hmz⟩ := hdos
  rw [pySlice_mz (by omega)] at hmz
  refine Judges.step (pyU32_ok (by omega)) ?_
  refine judges_raiseIf (c := ntOff data < 0x40 ∨ ntOff data + 24 > data.length ∨
    pySlice data (ntOff data) (ntOff data + 4) ≠ [0x50, 0x45, 0, 0]) ?_ fun hlf => ?_
  · intro h ok
    have hmin := ok.nt
    have hend := ok.ntEnd
    rcases h with h | h | h
    · omega
    · omega
    · rw [Ne, pySlice_pe (by omega)] at h
      exact h ok.pe
  rw [not_or, not_or, not_not] at hlf
  obtain ⟨hntMin, hntEnd, hpe⟩ := hlf
  rw [pySlice_pe (by omega)] at hpe
  refine Judges.step (pyU16_ok (show ntOff data + 6 + 2 ≤ data.length by omega)) ?_
  refine Judges.step (pyU16_ok (show ntOff data + 20 + 2 ≤ data.length by omega)) ?_
  refine judges_raiseIf (c := sectionCount data > maxSections ∨
    optOff data + optSize data > data.length ∨ optSize data < 96) ?_ fun hfile => ?_
  · intro h ok
    have hsec := ok.sections
    have hend := ok.optEnd
    have hmin := ok.optMin
    rw [maxSections] at h
    omega
  rw [maxSections] at hfile
  exact Judges.accept
    { dos := by omega
      mz := hmz
      nt := by omega
      ntEnd := by omega
      pe := hpe
      sections := by omega
      optEnd := by omega
      optMin := by omega }

theorem pyDirectories_known {data : List UInt8}
    (hknown : magic data = 0x10b ∨ magic data = 0x20b ∧ 112 ≤ optSize data) :
    pyDirectories (magic data) (optOff data) (optSize data) =
      .ok (dirOff data, optOff data + if magic data = 0x10b then 92 else 108) := by
  rcases hknown with h32 | ⟨h64, hbig⟩
  · rw [pyDirectories, dirOff, if_pos h32, if_pos h32, if_pos h32]
  · have hne : magic data ≠ 0x10b := by omega
    have hraise : raiseIf (optSize data < 112) "optional header too small for PE32+" = .ok () :=
      if_neg (by omega)
    rw [pyDirectories, dirOff, if_neg hne, if_neg hne, if_neg hne, if_pos h64, hraise]
    rfl

theorem pyDirectories_unknown {data : List UInt8}
    (hknown : ¬(magic data = 0x10b ∨ magic data = 0x20b ∧ 112 ≤ optSize data)) :
    ∃ e, FormatRaise e ∧ pyDirectories (magic data) (optOff data) (optSize data) = .error e := by
  rw [not_or, not_and] at hknown
  obtain ⟨hne, hsmall⟩ := hknown
  rw [pyDirectories, if_neg hne]
  by_cases h64 : magic data = 0x20b
  · have hraise : raiseIf (optSize data < 112) "optional header too small for PE32+" =
        .error (.peFormat "optional header too small for PE32+") :=
      if_pos (by have := hsmall h64; omega)
    rw [if_pos h64, hraise]
    exact ⟨_, ⟨_, rfl⟩, rfl⟩
  · rw [if_neg h64]
    exact ⟨_, ⟨_, rfl⟩, rfl⟩

theorem pyCertEntry_eq {data : List UInt8} (hend : secTab data ≤ data.length) :
    pyCertEntry data (dirCount data) (dirOff data) (optOff data) (optSize data) =
      .ok (certEntry data, certOff data, certSize data) := by
  have htab : secTab data = optOff data + optSize data := rfl
  rw [pyCertEntry]
  by_cases h : dirCount data > 4 ∧ dirOff data + 5 * 8 ≤ optOff data + optSize data
  · have hentry : certEntry data = some (dirOff data + 32) := if_pos h
    rw [if_pos h, pyU32_ok (by omega), pyU32_ok (by omega), certOff, certSize, hentry]
    rfl
  · have hentry : certEntry data = none := if_neg h
    rw [if_neg h, certOff, certSize, hentry]
    rfl

theorem parseLayout_judges (data : List UInt8) :
    Judges FormatRaise (HeadersOk data) (pyLayout data) (parseLayout data) := by
  have htab : secTab data = optOff data + optSize data := rfl
  rw [parseLayout]
  refine Judges.and (pyFileHeader_judges data) fun hfile => ?_
  have hmin := hfile.optMin
  have hend := hfile.optEnd
  refine Judges.step (pyU16_ok (show optOff data + 2 ≤ data.length by omega)) ?_
  by_cases hknown : magic data = 0x10b ∨ magic data = 0x20b ∧ 112 ≤ optSize data
  swap
  · obtain ⟨e, hbad, hstop⟩ := pyDirectories_unknown hknown
    rw [magic] at hstop
    simp only [hstop]
    exact Judges.refuse hbad fun ok => hknown ok.known
  refine Judges.step (pyDirectories_known hknown) ?_
  have hdirs : optOff data + (if magic data = 0x10b then 92 else 108) + 4 ≤ data.length := by
    split <;> omega
  refine Judges.step (pyU32_ok hdirs) ?_
  refine Judges.step (pyU32_ok (show optOff data + 60 + 4 ≤ data.length by omega)) ?_
  refine Judges.step (pyCertEntry_eq hend) ?_
  refine judges_raiseIf (c := headerSize data > data.length ∨
    checksumOff data + 4 > headerSize data) ?_ fun hhead => ?_
  · intro h ok
    have hsize := ok.headersEnd
    have hchk := ok.checksum
    omega
  refine judges_raiseIf ?_ fun hcert => ?_
  · intro h ok
    obtain ⟨e, he, hout⟩ := h
    have hin := ok.cert e he
    rw [headerSize, checksumOff] at hin
    omega
  refine judges_raiseIf (c := secTab data + sectionCount data * 40 > data.length)
    (fun h ok => absurd ok.table (Nat.not_le.mpr h)) fun htable => ?_
  refine Judges.accept { known := hknown, headersEnd := ?_, checksum := ?_, cert := ?_, table := ?_ }
  · omega
  · omega
  · intro e he
    have hnot : ¬(e < checksumOff data + 4 ∨ e + 8 > headerSize data) :=
      fun hout => hcert ⟨e, he, hout⟩
    omega
  · omega

end KernelGuard
