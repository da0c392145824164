/-
Signing a PE image does not change its Authenticode digest.

A signer appends the certificate blob, writes its place into the certificate entry and
updates the CheckSum.  The walk leaves the last two out by position and the first by
arithmetic on a running total, so what has to be seen is that no number the walk reads
lies in a rewritten field: then the two files have the same layout, and the `|B|` bytes the
signed one is longer by are the `|B|` bytes its tail leaves out.

`Resigned` is what is used of a signed file, whatever the blob and the CheckSum are.

The two gaps of the header and the end of the file are where the files differ, and
all three are places that the walk leaves out.  So the proof goes over the parts of
the walk in order and shows of each that it reads outside of them; the one
hypothesis that is needed is that no section has raw data there.
-/
import KernelGuard.Proofs.Authenticode
import KernelGuard.Proofs.PeFields
import KernelGuard.Lib.Bytes

namespace KernelGuard

open Bytes Pe

theorem rd32_of_leBytes {img : List UInt8} {off n : Nat} (hn : n < 2 ^ 32)
    (h : ∀ i < 4, img[off + i]? = (leBytes 4 n)[i]?) : rd32 img off = n := by
  have hbyte : ∀ i < 4, byteAt img (off + i) = ((leBytes 4 n).getD i 0).toNat := by
    intro i hi
    rw [KernelGuard.byteAt, List.getD_eq_getElem?_getD, List.getD_eq_getElem?_getD, h i hi]
  have h0 : byteAt img off = n % 256 := by simpa [leBytes] using hbyte 0 (by omega)
  have h1 : byteAt img (off + 1) = n / 256 % 256 := by simpa [leBytes] using hbyte 1 (by omega)
  have h2 : byteAt img (off + 2) = n / 256 / 256 % 256 := by
    simpa [leBytes] using hbyte 2 (by omega)
  have h3 : byteAt img (off + 3) = n / 256 / 256 / 256 % 256 := by
    simpa [leBytes] using hbyte 3 (by omega)
  rw [KernelGuard.rd32, KernelGuard.rd16, KernelGuard.rd16, h0, h1, h2, Nat.add_assoc off 2 1, h3]
  omega

namespace Pe

/-- The file with `blob` appended, its place in the certificate entry and a new CheckSum. -/
def signed (img : List UInt8) (entry : Nat) (checksum : UInt32) (blob : List UInt8) :
    List UInt8 :=
  overwrite (overwrite img (checksumOff img) (le32 checksum)) entry
    (leBytes 4 img.length ++ leBytes 4 blob.length) ++ blob

/-- `img'` is `img` but for the CheckSum, the certificate entry and `n` bytes at the end, and
the entry says where these are. -/
structure Resigned (img img' : List UInt8) (entry n : Nat) : Prop where
  length : img'.length = img.length + n
  kept : ∀ {a b : Nat}, b ≤ img.length → b ≤ checksumOff img ∨ checksumOff img + 4 ≤ a →
    b ≤ entry ∨ entry + 8 ≤ a → Kept img img' a b
  atOff : rd32 img' entry = img.length
  atSize : rd32 img' (entry + 4) = n

theorem length_signed (img : List UInt8) (entry : Nat) (checksum : UInt32) (blob : List UInt8) :
    (signed img entry checksum blob).length = img.length + blob.length := by
  simp [signed]

theorem resigned_signed {img : List UInt8} {entry : Nat} (checksum : UInt32) {blob : List UInt8}
    (hentry : entry + 8 ≤ img.length) (hlen : img.length + blob.length < 2 ^ 32) :
    Resigned img (signed img entry checksum blob) entry blob.length := by
  -- In front of the blob the signed file is the file with two fields written over.
  have hfront : ∀ i < img.length, (signed img entry checksum blob)[i]? =
      (overwrite (overwrite img (checksumOff img) (le32 checksum)) entry
        (leBytes 4 img.length ++ leBytes 4 blob.length))[i]? := by
    intro i hi
    rw [signed, List.getElem?_append_left (by simpa using hi)]
  have hfield : ∀ i < 8, (signed img entry checksum blob)[entry + i]? =
      (leBytes 4 img.length ++ leBytes 4 blob.length)[i]? := by
    intro i hi
    rw [hfront _ (by omega), overwrite_inside (by simpa using hentry) (by simpa using hi)]
  refine ⟨length_signed img entry checksum blob, ?_, ?_, ?_⟩
  · intro a b hb hcheck hcert i hai hib
    rw [hfront i (by omega), overwrite_outside (by simp; omega),
      overwrite_outside (by simp; omega)]
  · apply rd32_of_leBytes (by omega)
    intro i hi
    rw [hfield i (by omega), List.getElem?_append_left (by simpa using hi)]
  · apply rd32_of_leBytes (by omega)
    intro i hi
    rw [Nat.add_assoc, hfield (4 + i) (by omega), List.getElem?_append_right (by simp),
      length_leBytes, Nat.add_sub_cancel_left]

/-! ### The layout is read from outside the rewritten fields

Nothing is computed here: the lemmas about two files with the same hashed headers
apply.  The certificate entry is the exception, and its new value is known.
-/

section

variable {img img' : List UInt8} {e n : Nat}
variable (h : Resigned img img' e n) (hok : HeadersOk img) (he : certEntry img = some e)

include h hok he

theorem Resigned.sameHeaders : SameHeaders img img' := by
  rintro i ⟨hi, hcheck, hcert⟩
  have hend := hok.2.headersEnd
  have hout := hcert e he
  exact h.kept (b := i + 1) (by omega) (by omega) (by omega) i (Nat.le_refl i)
    (Nat.lt_succ_self i)

theorem Resigned.fields : SameFields img img' := (h.sameHeaders hok he).fields hok

theorem Resigned.certEntry_eq : certEntry img' = certEntry img :=
  (h.sameHeaders hok he).certEntry_eq hok he

/-- Behind the certificate entry nothing changes. -/
theorem Resigned.behind {b : Nat} (hb : b ≤ img.length) : Kept img img' (e + 8) b := by
  have hcert := hok.2.cert e he
  exact h.kept hb (by omega) (.inr (Nat.le_refl _))

theorem Resigned.certOff_eq : certOff img' = img.length := by
  rw [certOff, h.certEntry_eq hok he, he, (h.fields hok he).dirOff_eq, ← (certEntry_eq_some he).1]
  exact h.atOff

theorem Resigned.certSize_eq : certSize img' = n := by
  obtain ⟨hplace, -⟩ := certEntry_eq_some he
  rw [certSize, h.certEntry_eq hok he, he, (h.fields hok he).dirOff_eq,
    show dirOff img + 36 = e + 4 by omega]
  exact h.atSize

theorem Resigned.rawData_eq : rawData img' = rawData img := by
  obtain ⟨-, hend⟩ := certEntry_eq_some he
  have htable := hok.2.table
  refine (h.fields hok he).rawData_eq fun i hi => ?_
  have hround : secTab img + i * 40 + 24 ≤ img.length := by omega
  exact (h.behind hok he hround).mono (by omega) (Nat.le_refl _)

theorem Resigned.hashedSize_eq : hashedSize img' = hashedSize img :=
  (h.fields hok he).hashedSize_eq (h.rawData_eq hok he)

/-! ### The judgement and the bytes

The bound on the sections is the length of the file less the size of the blob, and
both grew by the same number.
-/

theorem Resigned.headersOk : HeadersOk img' :=
  (h.sameHeaders hok he).headersOk hok (h.certEntry_eq hok he) (by have := h.length; omega)

theorem Resigned.sectionsOk (hs : SectionsOk img) : SectionsOk img' := by
  have hlen := h.length
  constructor
  · intro s hmem
    rw [h.rawData_eq hok he] at hmem
    exact Nat.le_trans (hs.inFile s hmem) (by omega)
  · rw [h.hashedSize_eq hok he]
    exact Nat.le_trans hs.total (by omega)

-- What the signed file is longer by is what its entry asks for.
theorem Resigned.certOk (hs : SectionsOk img) : CertOk img' := by
  intro _ _
  have hlen := h.length
  have htotal := hs.total
  rw [h.certOff_eq hok he, h.certSize_eq hok he, h.hashedSize_eq hok he]
  omega

theorem Resigned.headerBytes_eq : headerBytes img' = headerBytes img :=
  (h.sameHeaders hok he).headerBytes_eq hok (h.certEntry_eq hok he)

theorem Resigned.tailBytes_eq (hs : SectionsOk img) (hzero : certSize img = 0) :
    tailBytes img' = tailBytes img := by
  have hlen := h.length
  have htotal := hs.total
  have hcert := hok.2.cert e he
  have hheaders : headerSize img ≤ hashedSize img := Nat.le_add_right _ _
  have hkept := h.behind hok he (Nat.le_refl img.length)
  have hwidth : img'.length - hashedSize img - n = img.length - hashedSize img := by omega
  rw [tailBytes, tailBytes, h.hashedSize_eq hok he, h.certSize_eq hok he, hwidth, hzero,
    Nat.sub_zero]
  exact (hkept.mono (by omega) (by omega)).slice

end

/-- No section has raw data among the `len` bytes at `off`. -/
def Clear (img : List UInt8) (off len : Nat) : Prop :=
  ∀ i < sectionCount img, (sectionAt img i).2 ≠ 0 →
    (sectionAt img i).1 + (sectionAt img i).2 ≤ off ∨ off + len ≤ (sectionAt img i).1

theorem Clear.rawData {img : List UInt8} {off len : Nat} (hclear : Clear img off len)
    {s : Nat × Nat} (hs : s ∈ rawData img) : s.1 + s.2 ≤ off ∨ off + len ≤ s.1 := by
  rw [Pe.rawData, List.mem_mergeSort, List.mem_filter, List.mem_map] at hs
  obtain ⟨⟨i, hi, rfl⟩, hsize⟩ := hs
  exact hclear i (List.mem_range.mp hi) (by simpa using hsize)

theorem Resigned.sectionBytes_eq {img img' : List UInt8} {e n : Nat}
    (h : Resigned img img' e n) (hok : HeadersOk img) (he : certEntry img = some e)
    (hs : SectionsOk img) (hcheck : Clear img (checksumOff img) 4) (hcert : Clear img e 8) :
    sectionBytes img' = sectionBytes img := by
  rw [sectionBytes, sectionBytes, h.rawData_eq hok he]
  apply List.flatMap_congr
  intro s hmem
  exact (h.kept (hs.inFile s hmem) (hcheck.rawData hmem) (hcert.rawData hmem)).slice

theorem Resigned.digestible {img img' : List UInt8} {e n : Nat} (h : Resigned img img' e n)
    (hd : Digestible img) (he : certEntry img = some e) : Digestible img' := by
  obtain ⟨hok, hs, -⟩ := hd
  exact ⟨h.headersOk hok he, h.sectionsOk hok he hs, h.certOk hok he hs⟩

theorem Resigned.digested_eq {img img' : List UInt8} {e n : Nat} (h : Resigned img img' e n)
    (hd : Digestible img) (he : certEntry img = some e) (hzero : certSize img = 0)
    (hcheck : Clear img (checksumOff img) 4) (hcert : Clear img e 8) :
    digested img' = digested img := by
  obtain ⟨hok, hs, -⟩ := hd
  rw [digested, digested, h.headerBytes_eq hok he, h.sectionBytes_eq hok he hs hcheck hcert,
    h.tailBytes_eq hok he hs hzero]

end Pe

/-- A file the walk accepts, with an empty certificate entry, and no section over what a signer
rewrites. -/
structure Signable (f : PeFile) (entry : Nat) : Prop where
  accepted : (peaAuthenticodeHash f recordUpdate []).1 = some .ok
  hasEntry : certEntry f.bytes = some entry
  unsigned : certSize f.bytes = 0
  checksumClear : Clear f.bytes (checksumOff f.bytes) 4
  entryClear : Clear f.bytes entry 8

/-- The signed file. -/
def signedFile (f : PeFile) (entry : Nat) (checksum : UInt32) (blob : List UInt8)
    (hlen : f.length + blob.length < 2 ^ 32) : PeFile :=
  ⟨signed f.bytes entry checksum blob, by
    rw [length_signed]
    exact Nat.lt_trans hlen (by decide)⟩

theorem peaAuthenticodeHash_signed {f : PeFile} {entry : Nat} (h : Signable f entry)
    (checksum : UInt32) {blob : List UInt8} (hlen : f.length + blob.length < 2 ^ 32)
    (ctx : List UInt8) :
    peaAuthenticodeHash (signedFile f entry checksum blob hlen) recordUpdate ctx =
      (some .ok, ctx ++ digested f.bytes) := by
  have hd := digestible_of_ok h.accepted
  obtain ⟨-, hend⟩ := certEntry_eq_some h.hasEntry
  have hin := hd.1.1.optEnd
  have hsigned := resigned_signed checksum (Nat.le_trans hend hin) hlen
  rw [(peaAuthenticodeHash_spec _ ctx).1 (hsigned.digestible hd h.hasEntry),
    show (signedFile f entry checksum blob hlen).bytes = signed f.bytes entry checksum blob from
      rfl, hsigned.digested_eq hd h.hasEntry h.unsigned h.checksumClear h.entryClear]

/-- Signing and re-signing leave the digest unchanged. -/
theorem signing_keeps_digest (f : PeFile) (entry : Nat) (h : Signable f entry) :
    (∀ (checksum : UInt32) (blob : List UInt8) (hlen : f.length + blob.length < 2 ^ 32),
      blob ≠ [] →
        (peaAuthenticodeHash (signedFile f entry checksum blob hlen) recordUpdate []).1 =
          some .ok ∧
        (peaAuthenticodeHash (signedFile f entry checksum blob hlen) recordUpdate []).2 =
          (peaAuthenticodeHash f recordUpdate []).2) ∧
    (∀ (checksum checksum' : UInt32) (blob blob' : List UInt8)
      (hlen : f.length + blob.length < 2 ^ 32) (hlen' : f.length + blob'.length < 2 ^ 32),
      blob ≠ [] → blob' ≠ [] →
        peaAuthenticodeHash (signedFile f entry checksum blob hlen) recordUpdate [] =
          peaAuthenticodeHash (signedFile f entry checksum' blob' hlen') recordUpdate []) := by
  have hplain := (peaAuthenticodeHash_spec f []).1 (digestible_of_ok h.accepted)
  constructor
  · intro checksum blob hlen _
    rw [peaAuthenticodeHash_signed h checksum hlen, hplain]
    exact ⟨rfl, rfl⟩
  · intro checksum checksum' blob blob' hlen hlen' _ _
    rw [peaAuthenticodeHash_signed h checksum hlen, peaAuthenticodeHash_signed h checksum' hlen']

/-- A PE32 file with five data directories, all empty, one section and two bytes after it. -/
def unsignedImage : List UInt8 :=
  [0x4d, 0x5a] ++ List.replicate 58 0 ++ [0x40, 0, 0, 0] ++
  [0x50, 0x45, 0, 0] ++ [0x4c, 1] ++ [1, 0] ++ List.replicate 12 0 ++ [136, 0] ++ [0, 0] ++
  [0x0b, 1] ++ List.replicate 58 0 ++ [8, 1, 0, 0] ++ List.replicate 28 0 ++ [5, 0, 0, 0] ++
  List.replicate 40 0 ++
  List.replicate 16 0 ++ [4, 0, 0, 0] ++ [8, 1, 0, 0] ++ List.replicate 16 0 ++
  [1, 2, 3, 4] ++ [5, 6]

def unsignedFile : PeFile := ⟨unsignedImage, by decide +kernel⟩

theorem signing_keeps_digest_small :
    Signable unsignedFile 216 ∧
      (peaAuthenticodeHash (signedFile unsignedFile 216 7 [0xaa] (by decide +kernel))
        recordUpdate []).2 = (peaAuthenticodeHash unsignedFile recordUpdate []).2 := by
  have hsignable : Signable unsignedFile 216 :=
    { accepted := by decide +kernel
      hasEntry := by decide +kernel
      unsigned := by decide +kernel
      checksumClear := by
        unfold Clear
        decide +kernel
      entryClear := by
        unfold Clear
        decide +kernel }
  exact ⟨hsignable, ((signing_keeps_digest unsignedFile 216 hsignable).1 7 [0xaa] _ (by simp)).2⟩

end KernelGuard
