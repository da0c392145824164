/-
When the certificate blob is outside the Authenticode digest.

The walk leaves the blob out by shortening the tail by its size; where the certificate entry says
the blob is, is only compared with the length of the file.  So the bytes the entry names are outside
the digest when they happen to be bytes the walk does not use: not hashed, not the size or the
offset of a section in a row behind `SizeOfHeaders`, and not the certificate entry itself, unless
the entry stays good whatever is written there (`BlobApart`).  The offset in a row without raw data
is read, sorted by and then skipped, so a blob may lie over it.

In one direction the changed file has the layout of the old one.  In the other, a changed file with
the old stream has the old bytes wherever the stream shows them, by `Proofs/SameDigest.lean`, so one
flipped byte refutes.
-/
import KernelGuard.Proofs.SameDigest

namespace KernelGuard

open Bytes Pe

/-! ### Bytes of a number -/

theorem rd32_le {img img' : List UInt8} {off : Nat}
    (h : ∀ i, off ≤ i → i < off + 4 → byteAt img' i ≤ byteAt img i) :
    rd32 img' off ≤ rd32 img off := by
  have h0 := h off (by omega) (by omega)
  have h1 := h (off + 1) (by omega) (by omega)
  have h2 := h (off + 2) (by omega) (by omega)
  have h3 := h (off + 2 + 1) (by omega) (by omega)
  simp only [rd32, rd16]
  omega

theorem byteAt_of_rd32 {img img' : List UInt8} {off : Nat} (h : rd32 img' off = rd32 img off)
    {i : Nat} (hlow : off ≤ i) (hhigh : i < off + 4) : byteAt img' i = byteAt img i := by
  have hlt := fun j => byteAt_lt img j
  have hlt' := fun j => byteAt_lt img' j
  have h0 := hlt off
  have h1 := hlt (off + 1)
  have h2 := hlt (off + 2)
  have h3 := hlt (off + 2 + 1)
  have h0' := hlt' off
  have h1' := hlt' (off + 1)
  have h2' := hlt' (off + 2)
  have h3' := hlt' (off + 2 + 1)
  simp only [rd32, rd16] at h
  obtain rfl | rfl | rfl | rfl : i = off ∨ i = off + 1 ∨ i = off + 2 ∨ i = off + 2 + 1 := by omega
  · omega
  · omega
  · omega
  · omega

namespace Pe

/-! ### Where the blob is, and what the walk looks at

The blob is where the certificate entry says, and the contents are what may vary:
`Reblobbed` files agree with the given one everywhere else.  What the walk uses of a
file falls into bytes it hashes, numbers it places the sections by, and the entry,
so `BlobApart` has one field for each.
-/

/-- A byte of the file that belongs to the blob, by the certificate entry. -/
def InBlob (img : List UInt8) (i : Nat) : Prop :=
  i < img.length ∧ certOff img ≤ i ∧ i < certOff img + certSize img

/-- The file with other contents of its blob. -/
structure Reblobbed (img img' : List UInt8) : Prop where
  length : img'.length = img.length
  kept : ∀ i, ¬InBlob img i → img'[i]? = img[i]?

/-- A byte the digest covers: of the headers, of a section or of the tail. -/
def Hashed (img : List UInt8) (i : Nat) : Prop :=
  HashedHeader img i ∨ (∃ s ∈ rawData img, s.1 ≤ i ∧ i < s.1 + s.2) ∨
    (hashedSize img ≤ i ∧ i < img.length - certSize img)

/-- A byte behind `SizeOfHeaders` that says where a section is: it belongs to the size in a row, or
to the offset in a row whose size is not zero.  The offset of an empty section is read and not
used. -/
def InLooseRow (img : List UInt8) (i : Nat) : Prop :=
  headerSize img ≤ i ∧ ∃ k < sectionCount img,
    (secTab img + k * 40 + 16 ≤ i ∧ i < secTab img + k * 40 + 20) ∨
      ((sectionAt img k).2 ≠ 0 ∧ secTab img + k * 40 + 20 ≤ i ∧ i < secTab img + k * 40 + 24)

/-- The blob apart from such bytes; there are none when the section table is in the headers. -/
def RowsApart (img : List UInt8) : Prop := ∀ i, InBlob img i → ¬InLooseRow img i

/-- The file with all bits of its blob set. -/
def filled (img : List UInt8) : List UInt8 :=
  overwrite img (certOff img) (List.replicate (certSize img) 0xff)

/-- The entry passes its check whatever the blob holds: there is no tail and no check, or the blob
is not over the size, and the greatest offset it can make fits. -/
def EntryKept (img : List UInt8) : Prop :=
  hashedSize img = img.length ∨
    ∀ e ∈ certEntry img, (∀ i, e + 4 ≤ i → i < e + 8 → ¬InBlob img i) ∧
      rd32 (filled img) e + certSize img ≤ img.length

structure BlobApart (img : List UInt8) : Prop where
  rows : RowsApart img
  unhashed : ∀ i, InBlob img i → ¬Hashed img i
  entry : EntryKept img

theorem certEntry_of_certSize {img : List UInt8} (h : certSize img ≠ 0) :
    ∃ e, certEntry img = some e := by
  rw [certSize] at h
  split at h
  · exact Option.isSome_iff_exists.mp ‹_›
  · exact absurd rfl h

theorem certSize_of_entry {img : List UInt8} {e : Nat} (he : certEntry img = some e) :
    certOff img = rd32 img e ∧ certSize img = rd32 img (e + 4) := by
  obtain ⟨hplace, -⟩ := certEntry_eq_some he
  rw [certOff, certSize, he, hplace]
  exact ⟨rfl, rfl⟩

/-! ### Other contents, the same rows

The rows can be compared one by one because a row is either hashed or behind the
headers.  The size of a row is kept in both cases; the offset is kept unless the size
is zero, and then the row is no raw data whatever its offset is.
-/

theorem reblobbed_filled (img : List UInt8) : Reblobbed img (filled img) := by
  have hlen : (filled img).length = img.length := length_overwrite _ _ _
  refine ⟨hlen, fun i hblob => ?_⟩
  rcases Nat.lt_or_ge i img.length with hin | hout
  · refine overwrite_outside ?_
    rw [List.length_replicate]
    by_contra hbetween
    exact hblob ⟨hin, by omega, by omega⟩
  · rw [List.getElem?_eq_none hout, List.getElem?_eq_none (by omega)]

/-- One byte of the blob set to something else. -/
theorem reblobbed_set {img : List UInt8} {i : Nat} (hi : InBlob img i) (x : UInt8) :
    Reblobbed img (img.set i x) := by
  refine ⟨List.length_set, fun j hj => List.getElem?_set_ne ?_⟩
  rintro rfl
  exact hj hi

section

variable {img img' : List UInt8} (hg : Reblobbed img img')

include hg

theorem Reblobbed.keptRange {a b : Nat} (h : ∀ i, a ≤ i → i < b → ¬InBlob img i) :
    Kept img img' a b := fun i hlow hhigh => hg.kept i (h i hlow hhigh)

/-- A byte of the section table is in the hashed headers or behind them. -/
theorem Reblobbed.row_kept (hok : HeadersOk img) (hhead : SameHeaders img img') {i : Nat}
    (htable : secTab img ≤ i) (hloose : headerSize img ≤ i → ¬InBlob img i) :
    img'[i]? = img[i]? := by
  have htab : secTab img = optOff img + optSize img := rfl
  have hcheck : checksumOff img = optOff img + 64 := rfl
  have hmin := hok.1.optMin
  rcases Nat.lt_or_ge i (headerSize img) with hin | hout
  · refine hhead i ⟨hin, .inr (by omega), fun e he => .inr ?_⟩
    have hentry := certEntry_end img he
    omega
  · exact hg.kept i (hloose hout)

/-- So the sizes are the same, and with a size the offset. -/
theorem Reblobbed.rawData_eq (hrows : RowsApart img) (hok : HeadersOk img)
    (hhead : SameHeaders img img') : rawData img' = rawData img := by
  have hfields := hhead.fields hok
  refine hfields.rawData_congr fun k hk => ?_
  have hsize : (sectionAt img' k).2 = (sectionAt img k).2 := by
    rw [sectionAt, sectionAt, hfields.secTab_eq]
    refine Kept.rd32 fun i hlow hhigh => hg.row_kept hok hhead (by omega) fun hout hblob => ?_
    exact hrows i hblob ⟨hout, k, hk, .inl ⟨hlow, by omega⟩⟩
  refine ⟨hsize, fun hne => Prod.ext ?_ hsize⟩
  rw [sectionAt, sectionAt, hfields.secTab_eq]
  refine Kept.rd32 fun i hlow hhigh => hg.row_kept hok hhead (by omega) fun hout hblob => ?_
  exact hrows i hblob ⟨hout, k, hk, .inr ⟨hne, hlow, by omega⟩⟩

/-- The greatest byte a changed blob can have anywhere is the one of `filled`. -/
theorem Reblobbed.byteAt_le_filled (i : Nat) : byteAt img' i ≤ byteAt (filled img) i := by
  by_cases hblob : InBlob img i
  · obtain ⟨hlen, hlow, hhigh⟩ := hblob
    have hplace : certOff img + (i - certOff img) = i := by omega
    have hset : (filled img)[i]? = some 0xff := by
      rw [← hplace, filled, overwrite_at (by omega) (by rw [List.length_replicate]; omega),
        List.getElem?_replicate_of_lt (by omega)]
    have hmax : byteAt (filled img) i = 255 := by
      rw [byteAt, List.getD_eq_getElem?_getD, hset]
      rfl
    have hlt := byteAt_lt img' i
    omega
  · apply Nat.le_of_eq
    rw [byteAt, byteAt, List.getD_eq_getElem?_getD, List.getD_eq_getElem?_getD,
      (reblobbed_filled img).kept i hblob, hg.kept i hblob]

end

/-! ### Rows behind the headers

`RowsApart` says no more than that the blob does not choose the sections: over the same hashed
headers another blob gives the same sections exactly then (`rowsApart_iff`).  A flipped byte of a
size, or of the offset of a section that is not empty, is seen in a sum over the sections, which
does not depend on how they are sorted.
-/

/-- A sum over rows shows the one summand that changed. -/
theorem summand_eq {g g' : Nat → Nat} {n k : Nat} (hk : k < n)
    (hrest : ∀ i < n, i ≠ k → g' i = g i)
    (hsum : ((List.range n).map g').sum = ((List.range n).map g).sum) : g' k = g k := by
  induction n with
  | zero => omega
  | succ n ih =>
      rw [List.range_succ, List.map_append, List.map_append, List.sum_append, List.sum_append,
        List.map_singleton, List.map_singleton, List.sum_singleton, List.sum_singleton] at hsum
      rcases Nat.eq_or_lt_of_le (Nat.le_of_lt_succ hk) with rfl | hlt
      · have hbefore : (List.range k).map g' = (List.range k).map g := by
          apply List.map_congr_left
          intro i hi
          have hik := List.mem_range.mp hi
          exact hrest i (by omega) (by omega)
        rw [hbefore] at hsum
        omega
      · refine ih hlt (fun i hi => hrest i (by omega)) ?_
        rw [hrest n (by omega) (by omega)] at hsum
        omega

/-- What is nothing for an empty section adds up over the rows as it does over the raw data. -/
theorem sum_rawData (img : List UInt8) {f : Nat × Nat → Nat} (hf : ∀ s, s.2 = 0 → f s = 0) :
    ((rawData img).map f).sum =
      ((List.range (sectionCount img)).map fun k => f (sectionAt img k)).sum := by
  rw [rawData, ((List.mergeSort_perm _ _).map f).sum_nat]
  induction List.range (sectionCount img) with
  | nil => rfl
  | cons k rest ih =>
      rw [List.map_cons, List.map_cons, List.sum_cons, ← ih, List.filter_cons]
      split
      · rw [List.map_cons, List.sum_cons]
      next hzero =>
        rw [hf _ (by simpa using hzero), Nat.zero_add]

theorem set_kept {img : List UInt8} {i : Nat} (x : UInt8) {a b : Nat} (h : i < a ∨ b ≤ i) :
    Kept img (img.set i x) a b := by
  intro j hlow hhigh
  rw [List.getElem?_set_ne (by omega)]

/-- Any byte can be another one. -/
theorem byteAt_flip {img : List UInt8} {i : Nat} (hin : i < img.length) :
    byteAt (img.set i (img.getD i 0 + 1)) i ≠ byteAt img i := by
  rw [byteAt, List.getD_eq_getElem?_getD, List.getElem?_set_self hin, Option.getD_some]
  exact forall_byte (p := fun c => (c + 1).toNat ≠ c.toNat) (by decide +kernel) _

/-- One flipped byte of a row that is not apart moves or resizes its section. -/
theorem flipped_row {img : List UInt8} (hok : HeadersOk img) {i : Nat} (hin : i < img.length)
    (hloose : InLooseRow img i) :
    SameHeaders img (img.set i (img.getD i 0 + 1)) ∧
      rawData (img.set i (img.getD i 0 + 1)) ≠ rawData img := by
  obtain ⟨hout, k, hk, hfield⟩ := hloose
  have hhead : SameHeaders img (img.set i (img.getD i 0 + 1)) := by
    intro j hj
    have hlt := hj.1
    exact List.getElem?_set_ne (by omega)
  refine ⟨hhead, fun hraw => ?_⟩
  have hflip := byteAt_flip hin
  have hfields := hhead.fields hok
  have htab := hfields.secTab_eq
  have hothers : ∀ j < sectionCount img, j ≠ k →
      sectionAt (img.set i (img.getD i 0 + 1)) j = sectionAt img j := by
    intro j _ hne
    exact hfields.sectionAt_eq (set_kept _ (by omega))
  have hsum : ∀ f : Nat × Nat → Nat, (∀ s, s.2 = 0 → f s = 0) →
      f (sectionAt (img.set i (img.getD i 0 + 1)) k) = f (sectionAt img k) := by
    intro f hf
    refine @summand_eq (fun j => f (sectionAt img j))
      (fun j => f (sectionAt (img.set i (img.getD i 0 + 1)) j)) _ k hk
      (fun j hj hne => congrArg f (hothers j hj hne)) ?_
    rw [← sum_rawData img hf, ← hraw, sum_rawData _ hf, hfields.sectionCount_eq]
  rcases hfield with ⟨hlow, hhigh⟩ | ⟨hne, hlow, hhigh⟩
  · have hsize := hsum Prod.snd fun _ => id
    rw [sectionAt, sectionAt, htab] at hsize
    exact hflip (byteAt_of_rd32 hsize hlow (by omega))
  · have hkeep : (sectionAt (img.set i (img.getD i 0 + 1)) k).2 = (sectionAt img k).2 := by
      rw [sectionAt, sectionAt, htab]
      exact (set_kept _ (by omega)).rd32
    have hplace := hsum (fun s => if s.2 = 0 then 0 else s.1) fun s hs => if_pos hs
    rw [hkeep, if_neg hne, if_neg hne, sectionAt, sectionAt, htab] at hplace
    exact hflip (byteAt_of_rd32 hplace hlow (by omega))

/-- `RowsApart` is no more than is said of the sections: the blob does not choose them. -/
theorem rowsApart_iff {img : List UInt8} (hok : HeadersOk img) :
    RowsApart img ↔ ∀ img', Reblobbed img img' → SameHeaders img img' →
      rawData img' = rawData img := by
  constructor
  · exact fun hrows img' hg hhead => hg.rawData_eq hrows hok hhead
  · intro h i hblob hloose
    obtain ⟨hhead, hne⟩ := flipped_row hok hblob.1 hloose
    exact hne (h _ (reblobbed_set hblob _) hhead)

/-! ### A blob apart

The parts of the stream are taken in the order of the walk.  Each is shown to depend
on bytes outside the blob only; the entry itself may vary, and what it must keep is
its size, since that is all the tail takes from it.
-/

section

variable {img img' : List UInt8} (h : BlobApart img) (hg : Reblobbed img img')

include h hg

theorem BlobApart.sameHeaders : SameHeaders img img' :=
  fun i hi => hg.kept i fun hblob => h.unhashed i hblob (.inl hi)

theorem BlobApart.hashedSize_eq (hok : HeadersOk img) : hashedSize img' = hashedSize img := by
  have hhead := h.sameHeaders hg
  exact (hhead.fields hok).hashedSize_eq (hg.rawData_eq h.rows hok hhead)

theorem BlobApart.sectionsOk (hok : HeadersOk img) (hs : SectionsOk img) : SectionsOk img' := by
  have hraw := hg.rawData_eq h.rows hok (h.sameHeaders hg)
  have hlen := hg.length
  constructor
  · intro s hmem
    rw [hraw] at hmem
    rw [hlen]
    exact hs.inFile s hmem
  · rw [h.hashedSize_eq hg hok, hlen]
    exact hs.total

theorem BlobApart.sectionBytes_eq (hok : HeadersOk img) :
    sectionBytes img' = sectionBytes img := by
  have hraw := hg.rawData_eq h.rows hok (h.sameHeaders hg)
  rw [sectionBytes, sectionBytes, hraw]
  apply List.flatMap_congr
  intro s hmem
  refine (hg.keptRange fun i hlow hhigh hblob => ?_).slice
  exact h.unhashed i hblob (.inr (.inl ⟨s, hmem, hlow, hhigh⟩))

/-- With a tail, the entry keeps its size and its offset stays small enough. -/
theorem BlobApart.entry_eq (hok : HeadersOk img) {e : Nat} (he : certEntry img = some e)
    (hmore : hashedSize img ≠ img.length) :
    certSize img' = certSize img ∧ certOff img' + certSize img ≤ img.length := by
  have he' : certEntry img' = some e := by
    rw [(h.sameHeaders hg).certEntry_eq hok he, he]
  obtain ⟨hoff', hsize'⟩ := certSize_of_entry he'
  obtain ⟨-, hsize⟩ := certSize_of_entry he
  obtain ⟨hfield, hfits⟩ := h.entry.resolve_left hmore e he
  have hmax : rd32 img' e ≤ rd32 (filled img) e := rd32_le fun i _ _ => hg.byteAt_le_filled i
  constructor
  · rw [hsize', hsize]
    exact (hg.keptRange hfield).rd32
  · rw [hoff']
    omega

theorem BlobApart.certOk (hok : HeadersOk img) (hc : CertOk img) {e : Nat}
    (he : certEntry img = some e) : CertOk img' := by
  have hhash := h.hashedSize_eq hg hok
  intro hmore hzero
  rw [hhash, hg.length] at hmore
  obtain ⟨hsize, hoff⟩ := h.entry_eq hg hok he (by omega)
  rw [hsize] at hzero ⊢
  rw [hg.length, hhash]
  exact ⟨hoff, (hc hmore hzero).2⟩

theorem BlobApart.tailBytes_eq (hok : HeadersOk img) {e : Nat} (he : certEntry img = some e) :
    tailBytes img' = tailBytes img := by
  have hhash := h.hashedSize_eq hg hok
  rw [tailBytes, tailBytes, hhash, hg.length]
  by_cases hmore : hashedSize img = img.length
  · rw [hmore, Nat.sub_self, Nat.zero_sub, Nat.zero_sub, slice_zero, slice_zero]
  · rw [(h.entry_eq hg hok he hmore).1]
    refine (hg.keptRange fun i hlow hhigh hblob => ?_).slice
    exact h.unhashed i hblob (.inr (.inr ⟨hlow, by omega⟩))

/-- A blob apart from all the walk looks at can hold anything. -/
theorem BlobApart.digested_eq (hd : Digestible img) (hsize : certSize img ≠ 0) :
    Digestible img' ∧ digested img' = digested img := by
  obtain ⟨hok, hs, hc⟩ := hd
  obtain ⟨e, he⟩ := certEntry_of_certSize hsize
  have hhead := h.sameHeaders hg
  have hcert := hhead.certEntry_eq hok he
  have hlen : img.length ≤ img'.length := Nat.le_of_eq hg.length.symm
  constructor
  · exact ⟨hhead.headersOk hok hcert hlen, h.sectionsOk hg hok hs, h.certOk hg hok hc he⟩
  · rw [digested, digested, hhead.headerBytes_eq hok hcert, h.sectionBytes_eq hg hok,
      h.tailBytes_eq hg hok he]

end

/-! ### A blob that is not apart

One byte of the blob is changed and the stream is compared.  Hashed bytes show in it
directly.  A row that is not apart shows in the length of the stream or in which
bytes a section has, and an entry that can be spoilt makes the walk refuse the
changed file.
-/

theorem length_tailBytes {img : List UInt8} (hs : SectionsOk img) :
    (tailBytes img).length = img.length - hashedSize img - certSize img := by
  have htotal := hs.total
  exact length_slice_of_le (by omega)

section

variable {img img' : List UInt8} (hg : Reblobbed img img') (hrows : RowsApart img)
variable (hd : Digestible img) (hd' : Digestible img') (hstream : digested img' = digested img)

include hg hrows hd hd' hstream

theorem Reblobbed.hashedSize_eq : hashedSize img' = hashedSize img := by
  have hhead := sameHeaders_of_stream hd.1 hd'.1 hstream
  exact (hhead.fields hd.1).hashedSize_eq (hg.rawData_eq hrows hd.1 hhead)

theorem Reblobbed.parts_eq :
    (∀ s ∈ rawData img, slice img' s.1 s.2 = slice img s.1 s.2) ∧
      tailBytes img' = tailBytes img := by
  have hraw := hg.rawData_eq hrows hd.1 (sameHeaders_of_stream hd.1 hd'.1 hstream)
  exact sections_of_stream hd.2.1 hd'.2.1 hraw (headerBytes_of_stream hd.1 hd'.1 hstream).2

theorem Reblobbed.tail_width :
    img'.length - hashedSize img' - certSize img' =
      img.length - hashedSize img - certSize img := by
  have hlen := congrArg List.length (hg.parts_eq hrows hd hd' hstream).2
  rwa [length_tailBytes hd'.2.1, length_tailBytes hd.2.1] at hlen

/-- Whatever the stream shows of the old file, the changed file has. -/
theorem Reblobbed.hashed_kept {i : Nat} (hi : Hashed img i) : img'[i]? = img[i]? := by
  obtain ⟨hsections, htail⟩ := hg.parts_eq hrows hd hd' hstream
  rcases hi with hhead | ⟨s, hmem, hlow, hhigh⟩ | ⟨hlow, hhigh⟩
  · exact sameHeaders_of_stream hd.1 hd'.1 hstream i hhead
  · exact kept_of_slice (hsections s hmem) i hlow hhigh
  · rw [tailBytes, tailBytes, hg.tail_width hrows hd hd' hstream,
      hg.hashedSize_eq hrows hd hd' hstream] at htail
    exact kept_of_slice htail i hlow (by omega)

/-- With a tail, the size in the entry is seen in the length of the stream. -/
theorem Reblobbed.certSize_eq (hmore : hashedSize img < img.length) :
    certSize img' = certSize img := by
  have hwidth := hg.tail_width hrows hd hd' hstream
  have hhash := hg.hashedSize_eq hrows hd hd' hstream
  have hlen := hg.length
  have hfits : certSize img ≤ img.length - hashedSize img := by
    by_cases hzero : certSize img = 0
    · omega
    · exact (hd.2.2 hmore hzero).2
  have hfits' : certSize img' ≤ img'.length - hashedSize img' := by
    by_cases hzero : certSize img' = 0
    · omega
    · exact (hd'.2.2 (by omega) hzero).2
  omega

end

/-- Any byte of the blob can be another one. -/
theorem exists_flip {img : List UInt8} {i : Nat} (hi : InBlob img i) :
    ∃ img', Reblobbed img img' ∧ byteAt img' i ≠ byteAt img i :=
  ⟨img.set i (img.getD i 0 + 1), reblobbed_set hi _, byteAt_flip hi.1⟩

/-- The digest of the file does not depend on what its blob holds. -/
def IgnoresBlob (img : List UInt8) : Prop :=
  ∀ img', Reblobbed img img' → Digestible img' ∧ digested img' = digested img

section

variable {img : List UInt8} (hd : Digestible img) (hrows : RowsApart img)
variable (hall : IgnoresBlob img)

include hd hrows hall

theorem IgnoresBlob.unhashed {i : Nat} (hblob : InBlob img i) : ¬Hashed img i := by
  intro hhashed
  obtain ⟨img', hg, hne⟩ := exists_flip hblob
  obtain ⟨hd', hstream⟩ := hall img' hg
  apply hne
  rw [byteAt, byteAt, List.getD_eq_getElem?_getD, List.getD_eq_getElem?_getD,
    hg.hashed_kept hrows hd hd' hstream hhashed]

theorem IgnoresBlob.entryKept (hsize : certSize img ≠ 0) : EntryKept img := by
  rcases Nat.eq_or_lt_of_le hd.2.1.total with hend | hmore
  · exact .inl hend
  refine .inr fun e he => ⟨fun i hlow hhigh hblob => ?_, ?_⟩
  · -- another size in the entry is another length of the stream
    obtain ⟨img', hg, hne⟩ := exists_flip hblob
    obtain ⟨hd', hstream⟩ := hall img' hg
    have he' : certEntry img' = some e := by
      rw [certEntry_eq_of_stream hd.1 hd'.1 hstream, he]
    have hsame := hg.certSize_eq hrows hd hd' hstream hmore
    rw [(certSize_of_entry he').2, (certSize_of_entry he).2] at hsame
    exact hne (byteAt_of_rd32 hsame hlow (by omega))
  · -- the greatest offset is refused unless it fits
    have hg := reblobbed_filled img
    obtain ⟨hd', hstream⟩ := hall (filled img) hg
    have he' : certEntry (filled img) = some e := by
      rw [certEntry_eq_of_stream hd.1 hd'.1 hstream, he]
    have hsame := hg.certSize_eq hrows hd hd' hstream hmore
    have hhash := hg.hashedSize_eq hrows hd hd' hstream
    have hlen := hg.length
    have hfits := (hd'.2.2 (by omega) (by omega)).1
    rw [(certSize_of_entry he').1, hsame, hlen] at hfits
    exact hfits

end

end Pe

/-- What the header file promises: with any other contents of the blob the file is accepted and
feeds the same stream. -/
def BlobOutsideDigest (f : PeFile) : Prop :=
  ∀ g : PeFile, Reblobbed f.bytes g.bytes →
    (peaAuthenticodeHash g recordUpdate []).1 = some .ok ∧
    (peaAuthenticodeHash g recordUpdate []).2 = (peaAuthenticodeHash f recordUpdate []).2

theorem blobOutsideDigest_iff {f : PeFile} (hd : Digestible f.bytes) :
    BlobOutsideDigest f ↔ IgnoresBlob f.bytes := by
  have hplain := (peaAuthenticodeHash_spec f []).1 hd
  constructor
  · intro h img' hg
    have hlt : img'.length < 2 ^ 64 := by
      rw [hg.length]
      exact f.length_lt
    obtain ⟨hok, hstream⟩ := h ⟨img', hlt⟩ hg
    have hd' : Digestible img' := digestible_of_ok hok
    rw [(peaAuthenticodeHash_spec ⟨img', hlt⟩ []).1 hd', hplain] at hstream
    exact ⟨hd', hstream⟩
  · intro h g hg
    obtain ⟨hd', hstream⟩ := h g.bytes hg
    rw [(peaAuthenticodeHash_spec g []).1 hd', hplain, hstream]
    exact ⟨rfl, rfl⟩

/-- The blob of an accepted file is outside the digest when no byte of it is hashed, says behind
`SizeOfHeaders` where a section is, or can spoil the certificate entry; and if the blob does not
say where a section is, only then. -/
theorem blob_outside_digest_iff (f : PeFile)
    (hf : (peaAuthenticodeHash f recordUpdate []).1 = some .ok) (hsize : certSize f.bytes ≠ 0) :
    (BlobOutsideDigest f ∧ RowsApart f.bytes) ↔ BlobApart f.bytes := by
  have hd := digestible_of_ok hf
  rw [blobOutsideDigest_iff hd]
  constructor
  · rintro ⟨hall, hrows⟩
    exact ⟨hrows, fun i hblob => hall.unhashed hd hrows hblob, hall.entryKept hd hrows hsize⟩
  · intro h
    exact ⟨fun img' hg => h.digested_eq hg hd hsize, h.rows⟩

/-- A PE32 file up to the row of its one section; five data directories, the last of them the
certificate entry. -/
def certifiedHeaders (headers off size : List UInt8) : List UInt8 :=
  [0x4d, 0x5a] ++ List.replicate 58 0 ++ [0x40, 0, 0, 0] ++
  [0x50, 0x45, 0, 0] ++ [0x4c, 1] ++ [1, 0] ++ List.replicate 12 0 ++ [136, 0] ++ [0, 0] ++
  [0x0b, 1] ++ List.replicate 58 0 ++ headers ++ List.replicate 28 0 ++ [5, 0, 0, 0] ++
  List.replicate 32 0 ++ off ++ size

/-- `SizeOfHeaders` ends in front of the row; the section is empty, and the blob begins with the
offset in its row. -/
def emptyRowFile : PeFile :=
  ⟨certifiedHeaders [224, 0, 0, 0] [244, 0, 0, 0] [20, 0, 0, 0] ++ List.replicate 40 0,
    by decide +kernel⟩

theorem blobApart_emptyRow : BlobApart emptyRowFile.bytes := by
  have hoff : certOff emptyRowFile.bytes = 244 := by decide +kernel
  have hsize : certSize emptyRowFile.bytes = 20 := by decide +kernel
  have hlen : emptyRowFile.bytes.length = 264 := by decide +kernel
  have hhead : headerSize emptyRowFile.bytes = 224 := by decide +kernel
  have hcount : sectionCount emptyRowFile.bytes = 1 := by decide +kernel
  have hempty : (sectionAt emptyRowFile.bytes 0).2 = 0 := by decide +kernel
  have hraw : rawData emptyRowFile.bytes = [] := by
    have hrows : ((List.range (sectionCount emptyRowFile.bytes)).map
        (sectionAt emptyRowFile.bytes)).filter (fun s => s.2 ≠ 0) = [] := by
      decide +kernel
    rw [rawData, hrows]
    exact List.mergeSort_nil
  refine ⟨fun i hi => ?_, fun i hi => ?_, .inr fun e he => ?_⟩
  · have htab : secTab emptyRowFile.bytes = 224 := by decide +kernel
    obtain ⟨-, hlow, -⟩ := hi
    rintro ⟨-, k, hk, ⟨-, hhigh⟩ | ⟨hne, -⟩⟩
    · omega
    · obtain rfl : k = 0 := by omega
      exact hne hempty
  · obtain ⟨-, hlow, -⟩ := hi
    rw [Hashed, hraw]
    rintro (⟨hhigh, -⟩ | ⟨s, hs, -⟩ | ⟨-, hhigh⟩)
    · omega
    · cases hs
    · omega
  · have hentry : certEntry emptyRowFile.bytes = some 216 := by decide +kernel
    rw [hentry] at he
    rw [← Option.some.inj he]
    refine ⟨fun i hlow hhigh hi => ?_, by decide +kernel⟩
    have hblob := hi.2.1
    omega

theorem blob_outside_digest_iff_empty_row :
    (peaAuthenticodeHash emptyRowFile recordUpdate []).1 = some .ok ∧
    certSize emptyRowFile.bytes ≠ 0 ∧ BlobOutsideDigest emptyRowFile := by
  have hok : (peaAuthenticodeHash emptyRowFile recordUpdate []).1 = some .ok := by
    decide +kernel
  have hsize : certSize emptyRowFile.bytes ≠ 0 := by decide +kernel
  exact ⟨hok, hsize, ((blob_outside_digest_iff emptyRowFile hok hsize).mpr blobApart_emptyRow).1⟩

/-- A section, and two bytes behind it of which the blob is the first. -/
def innerBlobFile : PeFile :=
  ⟨certifiedHeaders [8, 1, 0, 0] [12, 1, 0, 0] [1, 0, 0, 0] ++ List.replicate 16 0 ++
    [4, 0, 0, 0] ++ [8, 1, 0, 0] ++ List.replicate 16 0 ++ [1, 2, 3, 4] ++ [5, 6],
    by decide +kernel⟩

/-- `innerBlobFile` with another blob. -/
def reblobbedFile : PeFile := ⟨innerBlobFile.bytes.set 268 7, by decide +kernel⟩

/-- A blob with a byte behind it: the walk hashes the blob and leaves that byte out. -/
theorem blob_before_last_byte_is_hashed :
    (peaAuthenticodeHash innerBlobFile recordUpdate []).1 = some .ok ∧
    certSize innerBlobFile.bytes ≠ 0 ∧ ¬BlobOutsideDigest innerBlobFile := by
  refine ⟨by decide +kernel, by decide +kernel, fun h => ?_⟩
  have hblob : InBlob innerBlobFile.bytes 268 := by
    unfold InBlob
    decide +kernel
  have hother : (peaAuthenticodeHash reblobbedFile recordUpdate []).2 ≠
      (peaAuthenticodeHash innerBlobFile recordUpdate []).2 := by decide +kernel
  have hbytes : reblobbedFile.bytes = innerBlobFile.bytes.set 268 7 := by rw [reblobbedFile]
  have hg := reblobbed_set hblob 7
  rw [← hbytes] at hg
  exact hother (h reblobbedFile hg).2

end KernelGuard
