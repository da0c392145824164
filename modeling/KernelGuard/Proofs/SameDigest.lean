/-
What two files with one Authenticode digest have in common.

The stream is a concatenation without separators, and where it splits is read from the hashed bytes
themselves.  The split is found front to back: the bytes in front of CheckSum give the place of
every other field, with these the count of data directories is seen at one place of both streams,
with the count the header parts have one length, and what is left of the streams are the sections
and the tail.

There the chain ends.  The section table says where the sections are, but nothing in the walk ties
the table to `SizeOfHeaders`: rows behind it are read and never hashed.  `same_program_iff` is the
exact answer: the files are the same program when they agree on that part of the table.
-/
import KernelGuard.Proofs.Authenticode
import KernelGuard.Proofs.PeFields
import KernelGuard.Lib.Bytes

namespace KernelGuard

open Bytes Pe

namespace Pe

/-! ### The front of the stream

The first bytes are in the stream at their own places, and those behind CheckSum
four places earlier.  Both hold up to the certificate entry, or to the end of the
hashed headers if there is none.
-/

/-- Where the stream leaves the headers for the first time behind CheckSum. -/
def gapEnd (img : List UInt8) : Nat := (certEntry img).getD (headerSize img)

theorem gapEnd_bounds {img : List UInt8} (hok : HeadersOk img) :
    checksumOff img + 4 ≤ gapEnd img ∧ gapEnd img ≤ headerSize img := by
  have hchk := hok.2.checksum
  rw [gapEnd]
  cases he : certEntry img with
  | none => exact ⟨hchk, Nat.le_refl _⟩
  | some e =>
      have hcert := hok.2.cert e he
      exact ⟨hcert.1, by rw [Option.getD_some]; omega⟩

theorem digested_front (img : List UInt8) : ∃ rest, digested img =
    slice img 0 (checksumOff img) ++
      (slice img (checksumOff img + 4) (gapEnd img - (checksumOff img + 4)) ++ rest) := by
  rw [digested, headerBytes, gapEnd]
  cases certEntry img with
  | none =>
      refine ⟨sectionBytes img ++ tailBytes img, ?_⟩
      simp only [List.append_assoc, Option.getD_none]
  | some e =>
      refine ⟨slice img (e + 8) (headerSize img - (e + 8)) ++ (sectionBytes img ++ tailBytes img), ?_⟩
      simp only [List.append_assoc, Option.getD_some]

/-- In front of CheckSum a byte of the stream is the byte of the file. -/
theorem digested_before {img : List UInt8} (hok : HeadersOk img) {i : Nat}
    (hi : i < checksumOff img) : (digested img)[i]? = img[i]? := by
  obtain ⟨rest, hsplit⟩ := digested_front img
  have hchk := hok.2.checksum
  have hend := hok.2.headersEnd
  have hlen : (slice img 0 (checksumOff img)).length = checksumOff img :=
    length_slice_of_le (by omega)
  rw [hsplit, List.getElem?_append_left (by omega), getElem?_slice img 0 hi, Nat.zero_add]

/-- Behind it, up to the certificate entry, the stream is four bytes ahead. -/
theorem digested_gap {img : List UInt8} (hok : HeadersOk img) {i : Nat}
    (hlow : checksumOff img + 4 ≤ i) (hhigh : i < gapEnd img) :
    (digested img)[i - 4]? = img[i]? := by
  obtain ⟨rest, hsplit⟩ := digested_front img
  obtain ⟨-, hgap⟩ := gapEnd_bounds hok
  have hend := hok.2.headersEnd
  have hlen : (slice img 0 (checksumOff img)).length = checksumOff img :=
    length_slice_of_le (by omega)
  have hlen' : (slice img (checksumOff img + 4) (gapEnd img - (checksumOff img + 4))).length =
      gapEnd img - (checksumOff img + 4) := length_slice_of_le (by omega)
  have hplace : checksumOff img + 4 + (i - 4 - checksumOff img) = i := by omega
  rw [hsplit, List.getElem?_append_right (by omega), hlen, List.getElem?_append_left (by omega),
    getElem?_slice img _ (by omega), hplace]

theorem length_headerBytes {img : List UInt8} (hok : HeadersOk img) :
    (headerBytes img).length =
      headerSize img - 4 - if (certEntry img).isSome then 8 else 0 := by
  have hchk := hok.2.checksum
  have hend := hok.2.headersEnd
  rw [headerBytes, List.length_append, length_slice_of_le (by omega)]
  cases he : certEntry img with
  | none =>
      rw [length_slice_of_le (by omega)]
      simp only [Option.isSome_none, Bool.false_eq_true, if_false]
      omega
  | some e =>
      have hcert := hok.2.cert e he
      simp only [Option.isSome_some, if_true]
      rw [List.length_append, length_slice_of_le (by omega), length_slice_of_le (by omega)]
      omega

/-! ### One stream, one layout

Each lemma may use the fields found so far, and shows that one more has the same
place and value in both files.  The count of directories comes last, because it
decides whether there is an entry to leave out.
-/

section

variable {img img' : List UInt8} (hok : HeadersOk img) (hok' : HeadersOk img')
variable (hstream : digested img' = digested img)

include hok hok' hstream

theorem sameFields_of_stream : SameFields img img' := by
  have hnt := hok.1.nt
  have hcheck : checksumOff img = ntOff img + 24 + 64 := rfl
  have hcheck' : checksumOff img' = ntOff img' + 24 + 64 := rfl
  have hnt' := hok'.1.nt
  have hkept : ∀ i < checksumOff img, i < checksumOff img' → img'[i]? = img[i]? := by
    intro i hi hi'
    rw [← digested_before hok hi, ← digested_before hok' hi', hstream]
  -- The place of the new headers is among the first bytes of both.
  have hntEq : ntOff img' = ntOff img := by
    refine Kept.rd32 fun i hlow hhigh => hkept i (by omega) (by omega)
  exact sameFields_of_kept hnt fun i _ hi => hkept i hi (by omega)

theorem certEntry_of_stream {e : Nat} (he : certEntry img = some e) :
    certEntry img' = certEntry img := by
  have hfields := sameFields_of_stream hok hok' hstream
  obtain ⟨hplace, -⟩ := certEntry_eq_some he
  have hin := hok.2.cert e he
  -- Both streams reach the entry, so both show the count at the same place.
  have hgap : gapEnd img = e := by rw [gapEnd, he, Option.getD_some]
  have hgap' : e ≤ gapEnd img' := by
    rw [gapEnd]
    cases he' : certEntry img' with
    | none =>
        rw [Option.getD_none, hfields.headerSize_eq]
        omega
    | some e' =>
        obtain ⟨hplace', -⟩ := certEntry_eq_some he'
        have hdir := hfields.dirOff_eq
        rw [Option.getD_some]
        omega
  have hkept : Kept img img' (checksumOff img + 4) e := by
    intro i hlow hhigh
    rw [← digested_gap hok hlow (by omega), ← digested_gap hok' _ (by omega), hstream]
    rw [hfields.checksumOff_eq]
    exact hlow
  exact hfields.certEntry_eq (hfields.dirCount_eq (hkept.mono (Nat.le_refl _) (by omega)))

theorem certEntry_eq_of_stream : certEntry img' = certEntry img := by
  cases he : certEntry img with
  | some e => rw [certEntry_of_stream hok hok' hstream he, he]
  | none =>
      cases he' : certEntry img' with
      | none => rfl
      | some e' => rw [← he', ← certEntry_of_stream hok' hok hstream.symm he', he]

theorem headerBytes_of_stream :
    headerBytes img' = headerBytes img ∧
      sectionBytes img' ++ tailBytes img' = sectionBytes img ++ tailBytes img := by
  have hfields := sameFields_of_stream hok hok' hstream
  have hcert := certEntry_eq_of_stream hok hok' hstream
  have hlen : (headerBytes img').length = (headerBytes img).length := by
    rw [length_headerBytes hok', length_headerBytes hok, hcert, hfields.headerSize_eq]
  rw [digested, digested, List.append_assoc, List.append_assoc] at hstream
  exact List.append_inj hstream hlen

/-- Two files with one stream have one layout and the same hashed headers. -/
theorem sameHeaders_of_stream : SameHeaders img img' := by
  have hfields := sameFields_of_stream hok hok' hstream
  have hcert := certEntry_eq_of_stream hok hok' hstream
  have hbytes := (headerBytes_of_stream hok hok' hstream).1
  have hchk := hok.2.checksum
  have hend := hok.2.headersEnd
  have hend' := hok'.2.headersEnd
  rw [hfields.headerSize_eq] at hend'
  -- All parts are slices of one width in both files.
  have hwidth : ∀ off k, off + k ≤ headerSize img →
      (slice img' off k).length = (slice img off k).length := by
    intro off k hin
    rw [length_slice_of_le (by omega), length_slice_of_le (by omega)]
  rw [headerBytes, headerBytes, hcert, hfields.checksumOff_eq, hfields.headerSize_eq] at hbytes
  obtain ⟨hbefore, hrest⟩ := List.append_inj hbytes (hwidth _ _ (by omega))
  rintro i ⟨hi, hcheck, hentry⟩
  rcases hcheck with hlow | hhigh
  · exact kept_of_slice hbefore i (Nat.zero_le i) (by omega)
  cases he : certEntry img with
  | none =>
      rw [he] at hrest
      exact kept_of_slice hrest i hhigh (by omega)
  | some e =>
      have hin := hok.2.cert e he
      rw [he] at hrest
      obtain ⟨hgap, hbehind⟩ := List.append_inj hrest (hwidth _ _ (by omega))
      rcases hentry e he with hless | hmore
      · exact kept_of_slice hgap i hhigh (by omega)
      · exact kept_of_slice hbehind i hmore (by omega)

end

/-- With one section table as well, the sections and the tails agree. -/
theorem sections_of_stream {img img' : List UInt8} (hs : SectionsOk img) (hs' : SectionsOk img')
    (hraw : rawData img' = rawData img)
    (hrest : sectionBytes img' ++ tailBytes img' = sectionBytes img ++ tailBytes img) :
    (∀ s ∈ rawData img, slice img' s.1 s.2 = slice img s.1 s.2) ∧
      tailBytes img' = tailBytes img := by
  rw [sectionBytes, sectionBytes, hraw] at hrest
  refine flatMap_append_inj (fun s hmem => ?_) hrest
  have hin' : s.1 + s.2 ≤ img'.length := hs'.inFile s (by rw [hraw]; exact hmem)
  rw [length_slice_of_le hin', length_slice_of_le (hs.inFile s hmem)]

/-! ### The same program

Given one table, the sections come from the same places, and the streams give their
bytes.  Without it nothing follows, and the example has two files whose one section
differs in what may be done with it.
-/

/-- Behind the last row of the section table. -/
def tableEnd (img : List UInt8) : Nat := secTab img + sectionCount img * 40

/-- The headers to the end of the section table are the same, but for CheckSum and the
certificate entry, and so is the raw data of every section. -/
structure SameProgram (img img' : List UInt8) : Prop where
  headers : ∀ i < tableEnd img, i < checksumOff img ∨ checksumOff img + 4 ≤ i →
    (∀ e ∈ certEntry img, i < e ∨ e + 8 ≤ i) → img'[i]? = img[i]?
  sections : ∀ k < sectionCount img, (sectionAt img k).2 ≠ 0 →
    slice img' (sectionAt img k).1 (sectionAt img k).2 =
      slice img (sectionAt img k).1 (sectionAt img k).2

theorem mem_rawData {img : List UInt8} {k : Nat} (hk : k < sectionCount img)
    (hsize : (sectionAt img k).2 ≠ 0) : sectionAt img k ∈ rawData img := by
  rw [rawData, List.mem_mergeSort, List.mem_filter]
  exact ⟨List.mem_map_of_mem (List.mem_range.mpr hk), decide_eq_true hsize⟩

theorem sameProgram_of_stream {img img' : List UInt8} (hd : Digestible img)
    (hd' : Digestible img') (hstream : digested img' = digested img)
    (htable : Kept img img' (headerSize img) (tableEnd img)) : SameProgram img img' := by
  obtain ⟨hok, hs, -⟩ := hd
  obtain ⟨hok', hs', -⟩ := hd'
  have hhead := sameHeaders_of_stream hok hok' hstream
  have hheaders : ∀ i < tableEnd img, i < checksumOff img ∨ checksumOff img + 4 ≤ i →
      (∀ e ∈ certEntry img, i < e ∨ e + 8 ≤ i) → img'[i]? = img[i]? := by
    intro i hi hcheck hentry
    rcases Nat.lt_or_ge i (headerSize img) with hlow | hhigh
    · exact hhead i ⟨hlow, hcheck, hentry⟩
    · exact htable i hhigh hi
  refine ⟨hheaders, fun k hk hsize => ?_⟩
  -- The rows of the table are behind both skipped fields.
  have hrows : ∀ j < sectionCount img,
      Kept img img' (secTab img + j * 40 + 16) (secTab img + j * 40 + 24) := by
    intro j hj i hlow hhigh
    have htab : secTab img = optOff img + optSize img := rfl
    have hmin := hok.1.optMin
    have hcheck : checksumOff img = optOff img + 64 := rfl
    have hend : tableEnd img = secTab img + sectionCount img * 40 := rfl
    refine hheaders i (by omega) (.inr (by omega)) fun e he => .inr ?_
    have hentry := certEntry_end img he
    omega
  have hraw := (hhead.fields hok).rawData_eq hrows
  have hrest := (headerBytes_of_stream hok hok' hstream).2
  exact (sections_of_stream hs hs' hraw hrest).1 _ (mem_rawData hk hsize)

end Pe

/-- Two accepted files with one stream are the same program exactly when they agree on the part of
the section table that lies behind `SizeOfHeaders`; there is none when the table ends before. -/
theorem same_program_iff (f g : PeFile)
    (hf : (peaAuthenticodeHash f recordUpdate []).1 = some .ok)
    (hg : (peaAuthenticodeHash g recordUpdate []).1 = some .ok)
    (hstream : (peaAuthenticodeHash g recordUpdate []).2 =
      (peaAuthenticodeHash f recordUpdate []).2) :
    SameProgram f.bytes g.bytes ↔
      ∀ i, headerSize f.bytes ≤ i → i < tableEnd f.bytes → g.bytes[i]? = f.bytes[i]? := by
  have hd := digestible_of_ok hf
  have hd' := digestible_of_ok hg
  rw [(peaAuthenticodeHash_spec f []).1 hd, (peaAuthenticodeHash_spec g []).1 hd'] at hstream
  constructor
  · intro h i hlow hhigh
    have hchk := hd.1.2.checksum
    refine h.headers i hhigh (.inr (by omega)) fun e he => .inr ?_
    have hcert := hd.1.2.cert e he
    omega
  · exact fun htable => sameProgram_of_stream hd hd' hstream htable

/-- `smallImage` with another CheckSum. -/
def resummedImage : List UInt8 :=
  [0x4d, 0x5a] ++ List.replicate 58 0 ++ [0x40, 0, 0, 0] ++
  [0x50, 0x45, 0, 0] ++ [0x4c, 1] ++ [1, 0] ++ List.replicate 12 0 ++ [96, 0] ++ [0, 0] ++
  [0x0b, 1] ++ List.replicate 58 0 ++ [224, 0, 0, 0] ++ [1, 2, 3, 4] ++ List.replicate 28 0 ++
  List.replicate 16 0 ++ [4, 0, 0, 0] ++ [224, 0, 0, 0] ++ List.replicate 16 0 ++
  [1, 2, 3, 4] ++ [5, 6]

def resummedFile : PeFile := ⟨resummedImage, by decide +kernel⟩

theorem same_program_iff_resummed :
    (peaAuthenticodeHash smallFile recordUpdate []).1 = some .ok ∧
    (peaAuthenticodeHash resummedFile recordUpdate []).1 = some .ok ∧
    (peaAuthenticodeHash resummedFile recordUpdate []).2 =
      (peaAuthenticodeHash smallFile recordUpdate []).2 ∧
    SameProgram smallFile.bytes resummedFile.bytes := by
  have hf : (peaAuthenticodeHash smallFile recordUpdate []).1 = some .ok := by decide +kernel
  have hg : (peaAuthenticodeHash resummedFile recordUpdate []).1 = some .ok := by decide +kernel
  have hstream : (peaAuthenticodeHash resummedFile recordUpdate []).2 =
      (peaAuthenticodeHash smallFile recordUpdate []).2 := by decide +kernel
  refine ⟨hf, hg, hstream, (same_program_iff smallFile resummedFile hf hg hstream).mpr ?_⟩
  have hhead : headerSize smallFile.bytes = 224 := by decide +kernel
  have hend : tableEnd smallFile.bytes = 224 := by decide +kernel
  omega

/-- A PE32 file whose `SizeOfHeaders` ends in front of its one section row. -/
def looseImage (characteristics : List UInt8) : List UInt8 :=
  [0x4d, 0x5a] ++ List.replicate 58 0 ++ [0x40, 0, 0, 0] ++
  [0x50, 0x45, 0, 0] ++ [0x4c, 1] ++ [1, 0] ++ List.replicate 12 0 ++ [96, 0] ++ [0, 0] ++
  [0x0b, 1] ++ List.replicate 58 0 ++ [184, 0, 0, 0] ++ List.replicate 32 0 ++
  List.replicate 16 0 ++ [40, 0, 0, 0] ++ [224, 0, 0, 0] ++ List.replicate 12 0 ++
  characteristics ++ List.replicate 40 0x90

/-- Its section as initialised data to read, and as code to write and execute. -/
def dataFile : PeFile := ⟨looseImage [0x40, 0, 0, 0x40], by decide +kernel⟩
def codeFile : PeFile := ⟨looseImage [0x20, 0, 0, 0xe0], by decide +kernel⟩

theorem same_digest_other_section :
    (peaAuthenticodeHash dataFile recordUpdate []).1 = some .ok ∧
    (peaAuthenticodeHash codeFile recordUpdate []).1 = some .ok ∧
    (peaAuthenticodeHash codeFile recordUpdate []).2 =
      (peaAuthenticodeHash dataFile recordUpdate []).2 ∧
    ¬SameProgram dataFile.bytes codeFile.bytes := by
  refine ⟨by decide +kernel, by decide +kernel, by decide +kernel, fun h => ?_⟩
  have hcheck : checksumOff dataFile.bytes = 152 := by decide +kernel
  have hnone : certEntry dataFile.bytes = none := by decide +kernel
  have hrow := h.headers 220 (by decide +kernel) (.inr (by omega)) (by rw [hnone]; exact nofun)
  exact absurd hrow (by decide +kernel)

end KernelGuard
