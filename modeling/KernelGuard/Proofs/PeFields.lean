/-
Which bytes of a PE file its layout is read from.

Two files that agree on the header bytes the digest covers have one layout: every number the walk
reads from the headers stands in front of CheckSum (`SameFields`), but for the count of data
directories, which stands in front of the certificate entry when there is one.  The sections
follow from the size and offset fields of the table's rows.

`Kept` says that a range of bytes is the same in both files, `SameHeaders` that the hashed part of
the headers is.

The statements are about two files at once, and are used by the theorems that change
a file and ask what the digest makes of it.  They come in the order in which the walk
reads the file, since each field is at a place that depends on those before it: the
fields are equal one after the other, and each equality moves the next one to the
same place in both files.
-/
import KernelGuard.Proofs.PeHeaders

namespace KernelGuard

open Pe

/-! ### Files that agree on a range

`Kept` is closed under taking parts, and what is read from a part that is kept is
equal.  All the rest of the file is put together from this.
-/

/-- The bytes from `off` to before `stop` are the same. -/
def Kept (img img' : List UInt8) (off stop : Nat) : Prop :=
  ∀ i, off ≤ i → i < stop → img'[i]? = img[i]?

section

variable {img img' : List UInt8} {off stop : Nat}

theorem Kept.mono {a b : Nat} (h : Kept img img' off stop) (ha : off ≤ a) (hb : b ≤ stop) :
    Kept img img' a b := by
  intro i hi hlt
  exact h i (Nat.le_trans ha hi) (Nat.lt_of_lt_of_le hlt hb)

theorem Kept.byteAt (h : Kept img img' off (off + 1)) : byteAt img' off = byteAt img off := by
  rw [KernelGuard.byteAt, KernelGuard.byteAt, List.getD_eq_getElem?_getD,
    List.getD_eq_getElem?_getD, h off (Nat.le_refl _) (Nat.lt_succ_self _)]

theorem Kept.rd16 (h : Kept img img' off (off + 2)) : rd16 img' off = rd16 img off := by
  rw [KernelGuard.rd16, KernelGuard.rd16, (h.mono (by omega) (by omega)).byteAt,
    (h.mono (by omega) (by omega) : Kept img img' (off + 1) (off + 1 + 1)).byteAt]

theorem Kept.rd32 (h : Kept img img' off (off + 4)) : rd32 img' off = rd32 img off := by
  rw [KernelGuard.rd32, KernelGuard.rd32, (h.mono (by omega) (by omega)).rd16,
    (h.mono (by omega) (by omega) : Kept img img' (off + 2) (off + 2 + 2)).rd16]

theorem getElem?_slice (img : List UInt8) (off : Nat) {len i : Nat} (hi : i < len) :
    (slice img off len)[i]? = img[off + i]? := by
  rw [slice, List.getElem?_take_of_lt hi, List.getElem?_drop]

theorem Kept.slice {len : Nat} (h : Kept img img' off (off + len)) :
    slice img' off len = slice img off len := by
  apply List.ext_getElem?
  intro i
  rcases Nat.lt_or_ge i len with hi | hi
  · rw [getElem?_slice img' off hi, getElem?_slice img off hi, h (off + i) (by omega) (by omega)]
  · rw [List.getElem?_eq_none, List.getElem?_eq_none]
    · exact Nat.le_trans (List.length_take_le _ _) hi
    · exact Nat.le_trans (List.length_take_le _ _) hi

theorem kept_of_slice {len : Nat} (h : slice img' off len = slice img off len) :
    Kept img img' off (off + len) := by
  intro i hlow hhigh
  have hi : i - off < len := by omega
  have hplace : off + (i - off) = i := by omega
  have hget := congrArg (·[i - off]?) h
  rwa [getElem?_slice img' off hi, getElem?_slice img off hi, hplace] at hget

end

namespace Pe

theorem dirOff_cases (img : List UInt8) :
    dirOff img = optOff img + 96 ∧ magic img = 0x10b ∨
      dirOff img = optOff img + 112 ∧ magic img ≠ 0x10b := by
  rw [dirOff]
  split
  · exact .inl ⟨rfl, ‹_›⟩
  · exact .inr ⟨rfl, ‹_›⟩

theorem certEntry_eq_some {img : List UInt8} {e : Nat} (he : certEntry img = some e) :
    e = dirOff img + 32 ∧ e + 8 ≤ secTab img := by
  have hend := certEntry_end img he
  rw [certEntry] at he
  split at he
  · exact ⟨(Option.some.inj he).symm, hend⟩
  · exact absurd he.symm (Option.some_ne_none e)

/-! ### The fields in front of CheckSum

`SameFields` has the few numbers everything else is computed from.  Whatever the walk
computes from them is then equal without a look at the bytes.
-/

/-- The numbers in front of CheckSum are the same. -/
structure SameFields (img img' : List UInt8) : Prop where
  ntOff_eq : ntOff img' = ntOff img
  sectionCount_eq : sectionCount img' = sectionCount img
  optSize_eq : optSize img' = optSize img
  magic_eq : magic img' = magic img
  headerSize_eq : headerSize img' = headerSize img

theorem sameFields_of_kept {img img' : List UInt8} (hnt : 0x40 ≤ ntOff img)
    (h : Kept img img' 0 (checksumOff img)) : SameFields img img' := by
  have hcheck : checksumOff img = ntOff img + 24 + 64 := rfl
  have hopt : optOff img = ntOff img + 24 := rfl
  have hntEq : ntOff img' = ntOff img := (h.mono (Nat.zero_le _) (by omega)).rd32
  have hoptEq : optOff img' = optOff img := by rw [optOff, optOff, hntEq]
  refine ⟨hntEq, ?_, ?_, ?_, ?_⟩
  · rw [sectionCount, sectionCount, hntEq]
    exact (h.mono (Nat.zero_le _) (by omega)).rd16
  · rw [optSize, optSize, hntEq]
    exact (h.mono (Nat.zero_le _) (by omega)).rd16
  · rw [magic, magic, hoptEq]
    exact (h.mono (Nat.zero_le _) (by omega)).rd16
  · rw [headerSize, headerSize, hoptEq]
    exact (h.mono (Nat.zero_le _) (by omega)).rd32

theorem SameFields.symm {img img' : List UInt8} (h : SameFields img img') :
    SameFields img' img :=
  ⟨h.ntOff_eq.symm, h.sectionCount_eq.symm, h.optSize_eq.symm, h.magic_eq.symm,
    h.headerSize_eq.symm⟩

section

variable {img img' : List UInt8} (h : SameFields img img')

include h

theorem SameFields.optOff_eq : optOff img' = optOff img := by
  rw [optOff, optOff, h.ntOff_eq]

theorem SameFields.checksumOff_eq : checksumOff img' = checksumOff img := by
  rw [checksumOff, checksumOff, h.optOff_eq]

theorem SameFields.dirOff_eq : dirOff img' = dirOff img := by
  rw [dirOff, dirOff, h.optOff_eq, h.magic_eq]

theorem SameFields.secTab_eq : secTab img' = secTab img := by
  rw [secTab, secTab, h.optOff_eq, h.optSize_eq]

-- The count of directories stands between the CheckSum and the directories themselves.
theorem SameFields.dirCount_eq (hgap : Kept img img' (checksumOff img + 4) (dirOff img)) :
    dirCount img' = dirCount img := by
  have hcheck : checksumOff img = optOff img + 64 := rfl
  rw [dirCount, dirCount, h.optOff_eq, h.magic_eq]
  obtain ⟨hdir, hmagic⟩ | ⟨hdir, hmagic⟩ := dirOff_cases img
  · rw [if_pos hmagic]
    exact (hgap.mono (by omega) (by omega)).rd32
  · rw [if_neg hmagic]
    exact (hgap.mono (by omega) (by omega)).rd32

theorem SameFields.certEntry_eq (hdirs : dirCount img' = dirCount img) :
    certEntry img' = certEntry img := by
  rw [certEntry, hdirs, h.dirOff_eq, h.secTab_eq, ← certEntry]

/-- The size and the offset of a section are next to each other in its row. -/
theorem SameFields.sectionAt_eq {i : Nat}
    (hrow : Kept img img' (secTab img + i * 40 + 16) (secTab img + i * 40 + 24)) :
    sectionAt img' i = sectionAt img i := by
  rw [sectionAt, sectionAt, h.secTab_eq, (hrow.mono (by omega) (by omega)).rd32,
    (hrow.mono (by omega) (by omega) :
      Kept img img' (secTab img + i * 40 + 16) (secTab img + i * 40 + 16 + 4)).rd32]

/-- Only the sizes and the offsets of sections with raw data matter. -/
theorem SameFields.rawData_congr (hrows : ∀ i < sectionCount img,
      (sectionAt img' i).2 = (sectionAt img i).2 ∧
        ((sectionAt img i).2 ≠ 0 → sectionAt img' i = sectionAt img i)) :
    rawData img' = rawData img := by
  rw [rawData, rawData, h.sectionCount_eq, List.filter_map, List.filter_map]
  have hkept : (List.range (sectionCount img)).filter ((fun s => s.2 ≠ 0) ∘ sectionAt img') =
      (List.range (sectionCount img)).filter ((fun s => s.2 ≠ 0) ∘ sectionAt img) := by
    apply List.filter_congr
    intro i hi
    simp only [Function.comp_apply, (hrows i (List.mem_range.mp hi)).1]
  rw [hkept]
  congr 1
  apply List.map_congr_left
  intro i hi
  obtain ⟨hin, hsize⟩ := List.mem_filter.mp hi
  exact (hrows i (List.mem_range.mp hin)).2 (of_decide_eq_true hsize)

theorem SameFields.rawData_eq (hrows : ∀ i < sectionCount img,
      Kept img img' (secTab img + i * 40 + 16) (secTab img + i * 40 + 24)) :
    rawData img' = rawData img := by
  refine h.rawData_congr fun i hi => ?_
  have hsame := h.sectionAt_eq (hrows i hi)
  exact ⟨congrArg Prod.snd hsame, fun _ => hsame⟩

theorem SameFields.hashedSize_eq (hraw : rawData img' = rawData img) :
    hashedSize img' = hashedSize img := by
  rw [hashedSize, hashedSize, h.headerSize_eq, hraw]

end

/-! ### The hashed part of the headers

Two gaps are not hashed, CheckSum and the certificate entry.  The first has a fixed
place, the place of the second depends on the kind of file, so it is known to be the
same only once the fields are.
-/

/-- A header byte that the digest covers. -/
def HashedHeader (img : List UInt8) (i : Nat) : Prop :=
  i < headerSize img ∧ (i < checksumOff img ∨ checksumOff img + 4 ≤ i) ∧
    ∀ e ∈ certEntry img, i < e ∨ e + 8 ≤ i

def SameHeaders (img img' : List UInt8) : Prop :=
  ∀ i, HashedHeader img i → img'[i]? = img[i]?

section

variable {img img' : List UInt8} (h : SameHeaders img img') (hok : HeadersOk img)

include h hok

theorem SameHeaders.before : Kept img img' 0 (checksumOff img) := by
  intro i _ hi
  have hchk := hok.2.checksum
  refine h i ⟨by omega, .inl hi, fun e he => ?_⟩
  have hcert := hok.2.cert e he
  omega

theorem SameHeaders.fields : SameFields img img' :=
  sameFields_of_kept hok.1.nt (h.before hok)

/-- Between CheckSum and the certificate entry, and behind the entry. -/
theorem SameHeaders.around {e : Nat} (he : certEntry img = some e) :
    Kept img img' (checksumOff img + 4) e ∧ Kept img img' (e + 8) (headerSize img) := by
  have hcert := hok.2.cert e he
  constructor
  · intro i hlow hhigh
    refine h i ⟨by omega, .inr hlow, fun e' he' => ?_⟩
    rw [he] at he'
    rw [← Option.some.inj he']
    exact .inl hhigh
  · intro i hlow hhigh
    refine h i ⟨hhigh, by omega, fun e' he' => ?_⟩
    rw [he] at he'
    rw [← Option.some.inj he']
    exact .inr hlow

theorem SameHeaders.certEntry_eq {e : Nat} (he : certEntry img = some e) :
    certEntry img' = certEntry img := by
  obtain ⟨hplace, -⟩ := certEntry_eq_some he
  have hgap := (h.around hok he).1
  have hfields := h.fields hok
  exact hfields.certEntry_eq (hfields.dirCount_eq (hgap.mono (Nat.le_refl _) (by omega)))

theorem SameHeaders.headerBytes_eq (hcert : certEntry img' = certEntry img) :
    headerBytes img' = headerBytes img := by
  have hfields := h.fields hok
  have hchk := hok.2.checksum
  have hbefore := ((h.before hok).mono (Nat.le_refl _) (by omega) :
    Kept img img' 0 (0 + checksumOff img)).slice
  rw [headerBytes, headerBytes, hcert, hfields.checksumOff_eq, hfields.headerSize_eq, hbefore]
  cases he : certEntry img with
  | some e =>
      have hin := hok.2.cert e he
      obtain ⟨hgap, hbehind⟩ := h.around hok he
      dsimp only
      rw [(hgap.mono (Nat.le_refl _) (by omega)).slice,
        (hbehind.mono (Nat.le_refl _) (by omega)).slice]
  | none =>
      have hrest : Kept img img' (checksumOff img + 4) (headerSize img) := by
        intro i hlow hhigh
        refine h i ⟨hhigh, .inr hlow, fun e he' => ?_⟩
        rw [he] at he'
        exact absurd he' nofun
      dsimp only
      rw [(hrest.mono (Nat.le_refl _) (by omega)).slice]

theorem SameHeaders.headersOk (hcert : certEntry img' = certEntry img)
    (hlen : img.length ≤ img'.length) : HeadersOk img' := by
  have hfields := h.fields hok
  have hbefore := h.before hok
  obtain ⟨hf, ho⟩ := hok
  have hcheck : checksumOff img = ntOff img + 24 + 64 := rfl
  have hnt := hf.nt
  have hbyte : ∀ i < checksumOff img, byteAt img' i = byteAt img i :=
    fun i hi => (hbefore.mono (Nat.zero_le i) hi).byteAt
  constructor
  · constructor
    · exact Nat.le_trans hf.dos hlen
    · rw [hbyte 0 (by omega), hbyte 1 (by omega)]
      exact hf.mz
    · rw [hfields.ntOff_eq]
      exact hnt
    · rw [hfields.ntOff_eq]
      exact Nat.le_trans hf.ntEnd hlen
    · rw [hfields.ntOff_eq, hbyte _ (by omega), hbyte _ (by omega), hbyte _ (by omega),
        hbyte _ (by omega)]
      exact hf.pe
    · rw [hfields.sectionCount_eq]
      exact hf.sections
    · rw [hfields.secTab_eq]
      exact Nat.le_trans hf.optEnd hlen
    · rw [hfields.optSize_eq]
      exact hf.optMin
  · constructor
    · rw [hfields.magic_eq, hfields.optSize_eq]
      exact ho.known
    · rw [hfields.headerSize_eq]
      exact Nat.le_trans ho.headersEnd hlen
    · rw [hfields.checksumOff_eq, hfields.headerSize_eq]
      exact ho.checksum
    · rw [hcert, hfields.checksumOff_eq, hfields.headerSize_eq]
      exact ho.cert
    · rw [hfields.secTab_eq, hfields.sectionCount_eq]
      exact Nat.le_trans ho.table hlen

end

end Pe

end KernelGuard
