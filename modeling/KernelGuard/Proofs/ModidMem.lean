/-
The module parser stays inside the file and inside its result.

What is read of a hostile file is decided by 64-bit values from the file itself.  Every
such value is compared with the length before it is used, and none of the comparisons wraps;
so the parser on memory computes what `Model/Modid.lean` says, and never stops with a fault
(`kgModidParseMem_eq`).  The loop over `.modinfo` is followed string by string: `Wanted.state` is
what the result and the `seen` flags are when the fields found so far are those of a `Wanted`.
-/
import KernelGuard.Model.ModidMem
import KernelGuard.Proofs.Modinfo
import KernelGuard.Proofs.PeHeaders
import KernelGuard.Proofs.Hmac

namespace KernelGuard

/-- An error of the parser as the reason to stop. -/
def stopOf {α : Type} (x : Except KgModidErr α) : Except ModidStop α := x.mapError .ret

@[simp] theorem stopOf_ok {α : Type} (a : α) : stopOf (.ok a) = .ok a := rfl

@[simp] theorem stopOf_error {α : Type} (e : KgModidErr) :
    stopOf (.error e : Except KgModidErr α) = .error (.ret e) := rfl

theorem stopOf_bind {α β : Type} (x : Except KgModidErr α) (k : α → Except KgModidErr β) :
    stopOf (x >>= k) = stopOf x >>= fun a => stopOf (k a) := by
  cases x <;> rfl

/-! ### Reads inside the file

The checks are written as `off <= len && size <= len - off`, which cannot wrap.
Behind each of them the read is a slice of the file, and the lemmas say which bytes
it gives.
-/

theorem take_slice {img : List UInt8} {off len k : Nat} (h : k ≤ len) :
    (slice img off len).take k = slice img off k := by
  rw [slice, slice, List.take_take, Nat.min_eq_left h]

theorem drop_slice (img : List UInt8) (off len k : Nat) :
    (slice img off len).drop k = slice img (off + k) (len - k) := by
  rw [slice, slice, List.drop_take, List.drop_drop]

theorem nul_not_mem_takeWhile (l : List UInt8) : 0 ∉ l.takeWhile (· ≠ 0) := by
  intro h0
  simpa using List.mem_takeWhile_imp h0

namespace ModidFile

variable {f : ModidFile} {p n : Nat}

theorem read_ok (h : p + n ≤ f.len) : f.read p n = .ok (slice f.bytes p n) := if_pos h

theorem length_slice (h : p + n ≤ f.len) : (slice f.bytes p n).length = n := by
  rw [slice, List.length_take, List.length_drop]
  have hlen : f.len = f.bytes.length := rfl
  omega

theorem byteAt_slice {img : List UInt8} {off len i : Nat} (h : i < len) :
    byteAt (slice img off len) i = byteAt img (off + i) := by
  rw [byteAt, slice, List.getD_eq_getElem?_getD, List.getElem?_take_of_lt h, List.getElem?_drop,
    byteAt, List.getD_eq_getElem?_getD]

theorem rd16_ok (h : p + 2 ≤ f.len) : f.rd16 p = .ok (KernelGuard.rd16 f.bytes p) := by
  rw [rd16, read_ok h]
  show Except.ok (KernelGuard.rd16 (slice f.bytes p 2) 0) = _
  rw [KernelGuard.rd16, byteAt_slice (by decide), byteAt_slice (by decide)]
  rfl

theorem rd32_ok (h : p + 4 ≤ f.len) : f.rd32 p = .ok (KernelGuard.rd32 f.bytes p) := by
  rw [rd32, read_ok h]
  show Except.ok (KernelGuard.rd32 (slice f.bytes p 4) 0) = _
  rw [KernelGuard.rd32, KernelGuard.rd16, KernelGuard.rd16, byteAt_slice (by decide),
    byteAt_slice (by decide), byteAt_slice (by decide), byteAt_slice (by decide)]
  rfl

theorem rd64_ok (h : p + 8 ≤ f.len) : f.rd64 p = .ok (KernelGuard.rd64 f.bytes p) := by
  rw [rd64, rd32_ok (by omega), rd32_ok (by omega)]
  rfl

theorem readSec_ok {shoff idx : Nat} (hidx : idx < 2 ^ 16)
    (h : shoff + (idx + 1) * shdrSize ≤ f.len) :
    f.readSec shoff idx = .ok (KernelGuard.readSec f.bytes shoff idx) := by
  unfold shdrSize at h
  have hmul : u64 (idx * shdrSize) = idx * shdrSize := u64_of_lt (by unfold shdrSize; omega)
  rw [readSec, hmul, shdrSize, rd32_ok (by omega), rd32_ok (by omega), rd64_ok (by omega), rd64_ok (by omega)]
  rfl

theorem startsWith_ok (magic : List UInt8) :
    f.startsWith magic = .ok (f.len ≥ magic.length && slice f.bytes 0 magic.length = magic) := by
  unfold startsWith
  by_cases h : f.len ≥ magic.length
  · rw [if_pos h, read_ok (by omega)]
    simp [h, bind, Except.bind, pure, Except.pure]
  · rw [if_neg h]
    simp [h]

end ModidFile

theorem rd64_lt (img : List UInt8) (off : Nat) : rd64 img off < 2 ^ 64 := by
  have h0 := rd32_lt img off
  have h1 := rd32_lt img (off + 4)
  rw [rd64]
  omega

theorem secInFile64_eq {f : ModidFile} (s : Sec) : secInFile64 s f.len = secInFile s f.len := by
  unfold secInFile64 secInFile
  by_cases h : s.off ≤ f.len
  · rw [sub64_of_le (show f.len < 2 ^ 64 from f.length_lt) h]
  · simp [h]

theorem secInFile_end {s : Sec} {len : Nat} (h : secInFile s len = true) : s.off + s.size ≤ len := by
  simp only [secInFile, Bool.and_eq_true, decide_eq_true_eq] at h
  omega

/-! ### The section headers

The table of section headers is checked as a whole, by one multiplication of a
16-bit number with the size of a header, and so no header in it needs a check of its
own.
-/

theorem findModinfoMem_ok {f : ModidFile} {shoff : Nat} {strs : Sec} (hstrs : strs.off + strs.size ≤ f.len)
    (hsize : strs.size < 2 ^ 64) :
    ∀ (n i : Nat), i + n < 2 ^ 16 → shoff + (i + n) * shdrSize ≤ f.len →
      findModinfoMem f shoff strs i n = .ok (findModinfo f.bytes shoff strs i n) := by
  intro n
  induction n with
  | zero => exact fun i _ _ => rfl
  | succ n ih =>
      intro i hi hend
      have hshdr : ∀ k, k * shdrSize = k * 64 := fun k => rfl
      rw [hshdr] at hend
      have hrest := ih (i + 1) (by omega) (by rw [hshdr]; omega)
      rw [findModinfoMem, findModinfo, ModidFile.readSec_ok (by omega) (by rw [hshdr]; omega)]
      show (if (readSec f.bytes shoff i).name ≥ strs.size ||
          sub64 strs.size (readSec f.bytes shoff i).name < (str ".modinfo" ++ [0]).length then
            findModinfoMem f shoff strs (i + 1) n
        else f.read (strs.off + (readSec f.bytes shoff i).name) (str ".modinfo" ++ [0]).length >>=
          fun b => if b ≠ str ".modinfo" ++ [0] then findModinfoMem f shoff strs (i + 1) n
            else pure (some (readSec f.bytes shoff i))) = _
      by_cases hname : (readSec f.bytes shoff i).name ≥ strs.size
      · simp only [hname, decide_true, Bool.true_or, if_true, hrest]
      · rw [sub64_of_le hsize (by omega)]
        simp only [hname, decide_false, Bool.false_or, decide_eq_true_eq]
        by_cases hfit : strs.size - (readSec f.bytes shoff i).name < (str ".modinfo" ++ [0]).length
        · rw [if_pos hfit, if_pos hfit, hrest]
        · rw [if_neg hfit, if_neg hfit, ModidFile.read_ok (by omega)]
          show (if slice f.bytes (strs.off + (readSec f.bytes shoff i).name)
              (str ".modinfo" ++ [0]).length ≠ str ".modinfo" ++ [0] then _ else _) = _
          split_ifs
          · exact hrest
          · rfl

theorem slice_one {img : List UInt8} {p : Nat} (h : p < img.length) :
    slice img p 1 = [img.getD p 0] := by
  rw [slice, List.drop_eq_getElem_cons h, List.getD_eq_getElem?_getD, List.getElem?_eq_getElem h]
  rfl

/-- The checks of the ELF header, on what they read. -/
theorem elfHeaderMem_eq (f : ModidFile) :
    elfHeaderMem f =
      if (f.len ≥ 2 && slice f.bytes 0 2 = [0x1f, 0x8b]) ||
          (f.len ≥ 4 && slice f.bytes 0 4 = [0x28, 0xb5, 0x2f, 0xfd]) ||
          (f.len ≥ 6 && slice f.bytes 0 6 = [0xfd, 0x37, 0x7a, 0x58, 0x5a, 0x00]) then
        .error (.ret .compressed)
      else if f.len < 64 || slice f.bytes 0 4 ≠ [0x7f, 0x45, 0x4c, 0x46] then .error (.ret .notElf)
      else if byteAt f.bytes 4 ≠ 2 || byteAt f.bytes 5 ≠ 1 || rd16 f.bytes 16 ≠ etRel then
        .error (.ret .unsupported)
      else if rd16 f.bytes 0x3a ≠ shdrSize || rd16 f.bytes 0x3c = 0 ||
          rd16 f.bytes 0x3e ≥ rd16 f.bytes 0x3c then .error (.ret .badElf)
      else if rd64 f.bytes 0x28 > f.len ||
          rd16 f.bytes 0x3c * shdrSize > f.len - rd64 f.bytes 0x28 then .error (.ret .badElf)
      else .ok (rd64 f.bytes 0x28, rd16 f.bytes 0x3c, rd16 f.bytes 0x3e) := by
  unfold elfHeaderMem
  simp only [ModidFile.startsWith_ok, bind, Except.bind, pure, Except.pure, throw, throwThe,
    MonadExceptOf.throw]
  by_cases hlen : f.len < 64
  · simp only [hlen, decide_true, Bool.true_or, if_true]
    rfl
  · have hbyte : ∀ {p : Nat} {c : UInt8}, p < f.len →
        (slice f.bytes p 1 ≠ [c] ↔ byteAt f.bytes p ≠ c.toNat) := by
      intro p c hp
      rw [slice_one hp, ne_eq, List.singleton_inj, byteAt, ne_eq, UInt8.toNat_inj]
    have hsub : ¬ rd64 f.bytes 0x28 > f.len →
        sub64 f.len (rd64 f.bytes 0x28) = f.len - rd64 f.bytes 0x28 := fun h =>
      sub64_of_le (show f.len < 2 ^ 64 from f.length_lt) (by omega)
    have hnum := rd16_lt f.bytes 0x3c
    have hmul : u64 (rd16 f.bytes 0x3c * shdrSize) = rd16 f.bytes 0x3c * shdrSize :=
      u64_of_lt (by unfold shdrSize; omega)
    rw [ModidFile.read_ok (by omega), ModidFile.read_ok (by omega), ModidFile.read_ok (by omega)]
    simp only [ModidFile.rd16_ok (show 16 + 2 ≤ f.len by omega),
      ModidFile.rd16_ok (show 0x3a + 2 ≤ f.len by omega),
      ModidFile.rd16_ok (show 0x3c + 2 ≤ f.len by omega),
      ModidFile.rd16_ok (show 0x3e + 2 ≤ f.len by omega),
      ModidFile.rd64_ok (show 0x28 + 8 ≤ f.len by omega), hmul,
      hbyte (show 4 < f.len by omega), hbyte (show 5 < f.len by omega)]
    simp only [Bool.or_eq_true, decide_eq_true_eq, ite_or, if_neg hlen]
    by_cases hoff : rd64 f.bytes 0x28 > f.len
    · simp only [if_pos hoff]
      rfl
    · simp only [if_neg hoff, hsub hoff]
      rfl

/-! ### `.modinfo`

The result is written field by field, each at most once because of its `seen` flag.
A field that was not found is still zero, and a string that is found is shorter than
the field, so in both cases a NUL follows it within the array.
-/

/-- An array of `size` bytes that holds a string. -/
def cField (size : Nat) (s : CStr) : List UInt8 := s ++ List.replicate (size - s.length) 0

theorem length_cField {size : Nat} {s : CStr} (h : s.length ≤ size) : (cField size s).length = size := by
  rw [cField, List.length_append, List.length_replicate]
  omega

/-- The four text fields and what follows them. -/
def Wanted.image (w : Wanted) : List UInt8 :=
  cField kgModidNameMax (w.name.getD []) ++ cField kgModidSrcverMax (w.srcversion.getD []) ++
    cField kgModidStrMax (w.version.getD []) ++ cField kgModidStrMax (w.vermagic.getD []) ++
    List.replicate 36 0

/-- `seen` and `out` when the fields of `w` have been found. -/
def Wanted.state (w : Wanted) : ModinfoState :=
  ⟨[w.name.isSome, w.srcversion.isSome, w.version.isSome, w.vermagic.isSome], w.image⟩

/-- The string found is short enough and has no NUL in it. -/
def FieldFits (cap : Nat) (field : Option CStr) : Prop :=
  (field.getD []).length < cap ∧ 0 ∉ field.getD []

structure Wanted.Fits (w : Wanted) : Prop where
  name : FieldFits kgModidNameMax w.name
  srcversion : FieldFits kgModidSrcverMax w.srcversion
  version : FieldFits kgModidStrMax w.version
  vermagic : FieldFits kgModidStrMax w.vermagic

theorem FieldFits.length_cField {cap : Nat} {field : Option CStr} (h : FieldFits cap field) :
    (cField cap (field.getD [])).length = cap :=
  KernelGuard.length_cField (Nat.le_of_lt h.1)

theorem FieldFits.wantField {key : CStr} {cap : Nat} {s : CStr} {field field' : Option CStr}
    (h : FieldFits cap field) (hs : 0 ∉ s) (hstep : wantField key cap s field = .ok field') :
    FieldFits cap field' := by
  cases field with
  | some v =>
      rw [wantField_some] at hstep
      rwa [← Except.ok.inj hstep]
  | none =>
      rw [wantField_none] at hstep
      unfold modinfoValue at hstep
      split_ifs at hstep with hkey
      · simp only at hstep
        split_ifs at hstep with hempty hlong
        · rwa [← Except.ok.inj hstep]
        · rw [← Except.ok.inj hstep]
          exact ⟨Nat.not_le.mp hlong, fun h0 => hs (List.mem_of_mem_drop h0)⟩
      · rwa [← Except.ok.inj hstep]

/-- A field that was empty, filled. -/
theorem overwrite_field {A B v : List UInt8} {size : Nat} (h : v.length ≤ size) :
    Bytes.overwrite (A ++ cField size [] ++ B) A.length v = A ++ cField size v ++ B := by
  have hempty : (cField size []).length = size := length_cField (Nat.zero_le size)
  refine List.ext_getElem? fun i => ?_
  rcases Nat.lt_or_ge i A.length with hi | hi
  · rw [Bytes.overwrite_outside (.inl hi), List.append_assoc, List.append_assoc,
      List.getElem?_append_left hi, List.getElem?_append_left hi]
  · obtain ⟨j, rfl⟩ := Nat.exists_eq_add_of_le hi
    rcases Nat.lt_or_ge j v.length with hj | hj
    · rw [Bytes.overwrite_inside (by simp [hempty]; omega) hj, List.append_assoc,
        List.getElem?_append_right hi, Nat.add_sub_cancel_left, cField, List.append_assoc,
        List.getElem?_append_left hj]
    · rw [Bytes.overwrite_outside (.inr (by omega)), List.append_assoc, List.append_assoc,
        List.getElem?_append_right hi, List.getElem?_append_right hi, Nat.add_sub_cancel_left]
      -- behind the string both fields hold zeros
      rcases Nat.lt_or_ge j size with hs | hs
      · rw [List.getElem?_append_left (by rw [hempty]; exact hs),
          List.getElem?_append_left (by rw [length_cField h]; exact hs), cField, List.nil_append,
          cField, List.getElem?_append_right hj, List.getElem?_replicate, List.getElem?_replicate,
          if_pos (by simpa using hs), if_pos (by omega)]
      · rw [List.getElem?_append_right (by rw [hempty]; exact hs),
          List.getElem?_append_right (by rw [length_cField h]; exact hs),
          hempty, length_cField h]

/-- A value that fits is copied into its field, which is still empty. -/
theorem outWrite_field {A B v : List UInt8} {off size : Nat} (hrow : (off, size) ∈ modidFields)
    (hA : A.length = off) (hfits : v.length ≤ size) :
    outWrite (A ++ cField size [] ++ B) off v = .ok (A ++ cField size v ++ B) := by
  rw [outWrite, if_pos ⟨_, hrow, Nat.le_refl _, Nat.add_le_add_left hfits _⟩, ← hA,
    overwrite_field hfits]

/-- A row that finds nothing changes nothing. -/
theorem ModinfoState.same {t : ModinfoState} {A B : List UInt8} {cap i : Nat} {x : Option CStr}
    (hi : t.seen[i]? = some x.isSome) (hout : t.out = A ++ cField cap (x.getD []) ++ B) :
    (⟨t.seen.set i x.isSome, A ++ cField cap (x.getD []) ++ B⟩ : ModinfoState) = t := by
  rw [← hout]
  congr 1
  obtain ⟨hlt, hget⟩ := List.getElem?_eq_some_iff.mp hi
  rw [← hget, List.set_getElem_self]

/-- The byte behind the key, as the C code reads it. -/
theorem byte_of_slice {f : ModidFile} {p n k : Nat} (hin : p + n ≤ f.len) (hk : k < n) :
    [(slice f.bytes p n).getD k 0] = slice f.bytes (p + k) 1 := by
  have hlt : p + k < f.len := by omega
  rw [slice_one hlt, slice, List.getD_eq_getElem?_getD, List.getElem?_take_of_lt hk,
    List.getElem?_drop, List.getD_eq_getElem?_getD]

/-- One key: the row of `want` does to the memory what `wantField` does to the field. -/
theorem wantRow_eq {f : ModidFile} {p n i : Nat} {w : WantRow} {t : ModinfoState}
    {A B : List UInt8} {x : Option CStr} (hin : p + n ≤ f.len)
    (hrow : (w.off, w.cap) ∈ modidFields) (hA : A.length = w.off)
    (hi : t.seen[i]? = some x.isSome)
    (hout : t.out = A ++ cField w.cap (x.getD []) ++ B) :
    wantRow f p n t (w, i) =
      stopOf (wantField w.key w.cap (slice f.bytes p n) x) >>= fun field' =>
        .ok ⟨t.seen.set i field'.isSome, A ++ cField w.cap (field'.getD []) ++ B⟩ := by
  have hlen := ModidFile.length_slice hin
  have hsame := ModinfoState.same hi hout
  have hseen : t.seen.getD i false = x.isSome := by
    rw [List.getD_eq_getElem?_getD, hi, Option.getD_some]
  unfold wantRow wantField
  simp only [hlen, hseen, bind, Except.bind, pure, Except.pure, throw, throwThe,
    MonadExceptOf.throw]
  by_cases hskip : (x.isSome || decide (n ≤ w.key.length + 1)) = true
  · simp only [hskip, Bool.true_or, if_true]
    rw [stopOf_ok]
    exact congrArg Except.ok hsame.symm
  · have hbound : x.isSome = false ∧ ¬ n ≤ w.key.length + 1 := by simpa using hskip
    have hkey : (slice f.bytes p n).take w.key.length = slice f.bytes p w.key.length :=
      take_slice (by omega)
    have hat := byte_of_slice hin (k := w.key.length) (by omega)
    have hvalue : (slice f.bytes p n).drop (w.key.length + 1)
        = slice f.bytes (p + w.key.length + 1) (n - w.key.length - 1) := by
      rw [drop_slice, Nat.add_assoc, Nat.sub_sub]
    rw [ModidFile.read_ok (by omega), ModidFile.read_ok (by omega), ModidFile.read_ok (by omega)]
    simp only [hskip, Bool.false_or, hkey, hvalue, ← hat, List.singleton_inj, ne_eq]
    by_cases hother : slice f.bytes p w.key.length = w.key
    · by_cases hequals : (slice f.bytes p n).getD w.key.length 0 = chEquals
      · simp only [hother, hequals, not_true_eq_false, decide_false, Bool.or_self, if_false,
          Bool.false_eq_true]
        by_cases hlong : n - w.key.length - 1 ≥ w.cap
        · rw [if_pos hlong, if_pos hlong]
          rfl
        · have hnone : x = none := Option.not_isSome_iff_eq_none.mp (by simp [hbound.1])
          rw [hnone, Option.getD_none] at hout
          rw [if_neg hlong, if_neg hlong, hout, outWrite_field hrow hA (by
            rw [slice, List.length_take]
            omega)]
          rfl
      · simp only [hother, hequals, not_true_eq_false, not_false_eq_true, decide_false, decide_true,
          Bool.false_or, if_true, if_false, Bool.false_eq_true]
        exact congrArg Except.ok hsame.symm
    · simp only [hother, not_false_eq_true, decide_true, Bool.true_or, if_true, if_false,
        Bool.false_eq_true]
      exact congrArg Except.ok hsame.symm

section

variable {f : ModidFile} {p n : Nat} {w : Wanted}

theorem wantRow_name (hin : p + n ≤ f.len) :
    wantRow f p n w.state (⟨keyName, 0, kgModidNameMax⟩, 0) =
      stopOf (wantField keyName kgModidNameMax (slice f.bytes p n) w.name) >>= fun x =>
        .ok { w with name := x }.state := by
  have h := wantRow_eq (w := ⟨keyName, 0, kgModidNameMax⟩) (i := 0) (t := w.state) (A := [])
    (B := cField kgModidSrcverMax (w.srcversion.getD []) ++
      (cField kgModidStrMax (w.version.getD []) ++ (cField kgModidStrMax (w.vermagic.getD []) ++
        List.replicate 36 0))) (x := w.name) hin (by decide) rfl rfl
    (by simp only [Wanted.state, Wanted.image, List.append_assoc, List.nil_append])
  rw [h]
  simp only [Wanted.state, Wanted.image, List.append_assoc, List.nil_append, List.set_cons_zero]

theorem wantRow_srcversion (hin : p + n ≤ f.len) (hw : w.Fits) :
    wantRow f p n w.state (⟨keySrcversion, 56, kgModidSrcverMax⟩, 1) =
      stopOf (wantField keySrcversion kgModidSrcverMax (slice f.bytes p n) w.srcversion) >>= fun x =>
        .ok { w with srcversion := x }.state := by
  have h := wantRow_eq (w := ⟨keySrcversion, 56, kgModidSrcverMax⟩) (i := 1) (t := w.state)
    (A := cField kgModidNameMax (w.name.getD []))
    (B := cField kgModidStrMax (w.version.getD []) ++ (cField kgModidStrMax (w.vermagic.getD []) ++
        List.replicate 36 0)) (x := w.srcversion) hin (by decide) hw.name.length_cField rfl
    (by simp only [Wanted.state, Wanted.image, List.append_assoc])
  rw [h]
  simp only [Wanted.state, Wanted.image, List.append_assoc, List.set_cons_succ, List.set_cons_zero]

theorem wantRow_version (hin : p + n ≤ f.len) (hw : w.Fits) :
    wantRow f p n w.state (⟨str "version", 88, kgModidStrMax⟩, 2) =
      stopOf (wantField (str "version") kgModidStrMax (slice f.bytes p n) w.version) >>= fun x =>
        .ok { w with version := x }.state := by
  have h := wantRow_eq (w := ⟨str "version", 88, kgModidStrMax⟩) (i := 2) (t := w.state)
    (A := cField kgModidNameMax (w.name.getD []) ++ cField kgModidSrcverMax (w.srcversion.getD []))
    (B := cField kgModidStrMax (w.vermagic.getD []) ++ List.replicate 36 0) (x := w.version) hin
    (by decide)
    (by rw [List.length_append, hw.name.length_cField, hw.srcversion.length_cField]; rfl) rfl
    (by simp only [Wanted.state, Wanted.image, List.append_assoc])
  rw [h]
  simp only [Wanted.state, Wanted.image, List.append_assoc, List.set_cons_succ, List.set_cons_zero]

theorem wantRow_vermagic (hin : p + n ≤ f.len) (hw : w.Fits) :
    wantRow f p n w.state (⟨str "vermagic", 216, kgModidStrMax⟩, 3) =
      stopOf (wantField (str "vermagic") kgModidStrMax (slice f.bytes p n) w.vermagic) >>= fun x =>
        .ok { w with vermagic := x }.state := by
  have h := wantRow_eq (w := ⟨str "vermagic", 216, kgModidStrMax⟩) (i := 3) (t := w.state)
    (A := cField kgModidNameMax (w.name.getD []) ++ cField kgModidSrcverMax (w.srcversion.getD []) ++
      cField kgModidStrMax (w.version.getD []))
    (B := List.replicate 36 0) (x := w.vermagic) hin (by decide)
    (by rw [List.length_append, List.length_append, hw.name.length_cField,
          hw.srcversion.length_cField, hw.version.length_cField]; rfl) rfl
    (by simp only [Wanted.state, Wanted.image, List.append_assoc])
  rw [h]
  simp only [Wanted.state, Wanted.image, List.append_assoc, List.set_cons_succ, List.set_cons_zero]

theorem Wanted.Fits.wantString {s : CStr} {w' : Wanted} (hw : w.Fits) (hs : 0 ∉ s)
    (h : wantString w s = .ok w') : w'.Fits := by
  obtain ⟨hname, hsrc, hver, hmagic⟩ := wantString_ok.mp h
  exact ⟨hw.name.wantField hs hname, hw.srcversion.wantField hs hsrc, hw.version.wantField hs hver,
    hw.vermagic.wantField hs hmagic⟩

/-- One string: the inner loop is `wantString`. -/
theorem wantRows_eq (hin : p + n ≤ f.len) (hw : w.Fits) (hs : 0 ∉ slice f.bytes p n) :
    want.zipIdx.foldlM (wantRow f p n) w.state =
      stopOf (wantString w (slice f.bytes p n)) >>= fun w' => .ok w'.state := by
  have hrows : want.zipIdx = [(⟨keyName, 0, kgModidNameMax⟩, 0),
      (⟨keySrcversion, 56, kgModidSrcverMax⟩, 1), (⟨str "version", 88, kgModidStrMax⟩, 2),
      (⟨str "vermagic", 216, kgModidStrMax⟩, 3)] := rfl
  rw [hrows, List.foldlM_cons, wantRow_name hin, wantString]
  cases hname : wantField keyName kgModidNameMax (slice f.bytes p n) w.name with
  | error e => rfl
  | ok name =>
  have hw₁ : ({ w with name := name } : Wanted).Fits := ⟨hw.name.wantField hs hname, hw.2, hw.3, hw.4⟩
  show List.foldlM _ ({ w with name := name } : Wanted).state _ = _
  rw [List.foldlM_cons, wantRow_srcversion hin hw₁]
  cases hsrc : wantField keySrcversion kgModidSrcverMax (slice f.bytes p n) w.srcversion with
  | error e => rfl
  | ok src =>
  have hw₂ : ({ w with name := name, srcversion := src } : Wanted).Fits :=
    ⟨hw₁.1, hw.srcversion.wantField hs hsrc, hw.3, hw.4⟩
  show List.foldlM _ ({ w with name := name, srcversion := src } : Wanted).state _ = _
  rw [List.foldlM_cons, wantRow_version hin hw₂]
  cases hver : wantField (str "version") kgModidStrMax (slice f.bytes p n) w.version with
  | error e => rfl
  | ok ver =>
  have hw₃ : ({ w with name := name, srcversion := src, version := ver } : Wanted).Fits :=
    ⟨hw₁.1, hw₂.2, hw.version.wantField hs hver, hw.4⟩
  show List.foldlM _ ({ w with name := name, srcversion := src, version := ver } : Wanted).state _ = _
  rw [List.foldlM_cons, wantRow_vermagic hin hw₃]
  cases hmagic : wantField (str "vermagic") kgModidStrMax (slice f.bytes p n) w.vermagic with
  | error e => rfl
  | ok magic => rfl

/-- The length of the string that `memchr` finds. -/
theorem memchr_eq (l : List UInt8) :
    (l.findIdx? (· = 0)).getD l.length = (l.takeWhile (· ≠ 0)).length := by
  induction l with
  | nil => rfl
  | cons c rest ih =>
      rw [List.findIdx?_cons]
      by_cases hc : c = 0
      · simp [hc]
      · rw [List.takeWhile_cons_of_pos (by simpa using hc), List.length_cons, List.length_cons, ← ih]
        cases hidx : rest.findIdx? (· = 0) <;> simp [hc]

/-- The `while` loop is the loop over the strings. -/
theorem modinfoLoop_eq {fin : Nat} (hfin : fin ≤ f.len) (fuel : Nat) :
    ∀ (p : Nat) (w : Wanted), w.Fits → fin - p ≤ fuel →
      modinfoLoop f fin p w.state =
        stopOf ((modinfoStrings fuel (slice f.bytes p (fin - p))).foldlM wantString w) >>=
          fun w' => .ok w'.state := by
  induction fuel with
  | zero =>
      intro p w _ hfuel
      rw [modinfoLoop, if_neg (by omega)]
      rfl
  | succ fuel ih =>
      intro p w hw hfuel
      rw [modinfoLoop]
      by_cases hp : p < fin
      · have hlen : (slice f.bytes p (fin - p)).length = fin - p :=
          ModidFile.length_slice (by omega)
        have hne : slice f.bytes p (fin - p) ≠ [] := by
          intro h0
          rw [h0, List.length_nil] at hlen
          omega
        have hmemchr := memchr_eq (slice f.bytes p (fin - p))
        have hpre := List.takeWhile_prefix (l := slice f.bytes p (fin - p)) (· ≠ 0)
        have hnul := nul_not_mem_takeWhile (slice f.bytes p (fin - p))
        rw [if_pos hp, ModidFile.read_ok (by omega), modinfoStrings_cons fuel hne]
        rw [hlen] at hmemchr
        simp only [bind, Except.bind, hmemchr]
        generalize (slice f.bytes p (fin - p)).takeWhile (· ≠ 0) = s at hpre hnul ⊢
        have hle := hpre.length_le
        have hstr : slice f.bytes p s.length = s := by
          conv_rhs => rw [List.prefix_iff_eq_take.mp hpre, take_slice (by omega)]
        have hrest : (slice f.bytes p (fin - p)).drop (s.length + 1)
            = slice f.bytes (p + s.length + 1) (fin - (p + s.length + 1)) := by
          rw [drop_slice, Nat.add_assoc, Nat.sub_sub]
        have hstep := @wantRows_eq f p s.length w (by omega) hw (by rwa [hstr])
        rw [hstr] at hstep
        rw [hstep, List.foldlM_cons, hrest, stopOf_bind]
        cases hone : wantString w s with
        | error e => rfl
        | ok w₁ => exact ih (p + s.length + 1) w₁ (hw.wantString hnul hone) (by omega)
      · rw [if_neg hp, show fin - p = 0 by omega]
        have hnil : slice f.bytes p 0 = [] := List.take_zero
        rw [hnil]
        rfl

/-- What was found still fits when the loop is left. -/
theorem Wanted.Fits.strings {strings : List CStr} {w w' : Wanted} (hw : w.Fits)
    (hs : ∀ s ∈ strings, 0 ∉ s) (h : strings.foldlM KernelGuard.wantString w = .ok w') : w'.Fits := by
  induction strings generalizing w with
  | nil => rwa [← Except.ok.inj h]
  | cons s rest ih =>
      rw [List.foldlM_cons] at h
      obtain ⟨w₁, hone, hrest⟩ := Loops.bind_eq_ok.mp h
      exact ih (hw.wantString (hs s List.mem_cons_self) hone)
        (fun t ht => hs t (List.mem_cons_of_mem s ht)) hrest

theorem slice_field {A B : List UInt8} {s : CStr} {size : Nat} (hlen : s.length ≤ size) :
    slice (A ++ cField size s ++ B) A.length size = cField size s := by
  rw [slice, List.append_assoc, List.drop_left, List.take_left' (length_cField hlen)]

/-- Behind the string comes a NUL. -/
theorem cField_eq {s : CStr} {size : Nat} (hlen : s.length < size) :
    cField size s = s ++ 0 :: List.replicate (size - s.length - 1) 0 := by
  rw [cField, ← List.replicate_succ]
  congr 2
  omega

/-- The string of a field that holds one. -/
theorem outString_field {A B : List UInt8} {s : CStr} {size : Nat} (hlen : s.length < size)
    (hnul : 0 ∉ s) : outString (A ++ cField size s ++ B) A.length size = .ok s := by
  rw [outString, slice_field (Nat.le_of_lt hlen), cField_eq hlen, if_pos (by simp),
    Tokens.takeWhile_ne_append hnul]

theorem outString_name {w : Wanted} (hw : w.Fits) :
    outString w.image 0 kgModidNameMax = .ok (w.name.getD []) := by
  rw [Wanted.image, List.append_assoc, List.append_assoc, List.append_assoc]
  exact outString_field (A := []) hw.name.1 hw.name.2

theorem outString_srcversion {w : Wanted} (hw : w.Fits) :
    outString w.image 56 kgModidSrcverMax = .ok (w.srcversion.getD []) := by
  have h := outString_field (A := cField kgModidNameMax (w.name.getD []))
    (B := cField kgModidStrMax (w.version.getD []) ++ (cField kgModidStrMax (w.vermagic.getD []) ++
      List.replicate 36 0)) hw.srcversion.1 hw.srcversion.2
  rw [hw.name.length_cField] at h
  rw [Wanted.image, List.append_assoc, List.append_assoc]
  exact h

theorem nul_not_mem_string (fuel : Nat) :
    ∀ mi : List UInt8, ∀ s ∈ modinfoStrings fuel mi, 0 ∉ s := by
  induction fuel with
  | zero => exact fun mi s hs => absurd hs List.not_mem_nil
  | succ fuel ih =>
      intro mi s hs
      by_cases hmi : mi = []
      · rw [hmi] at hs
        exact absurd hs List.not_mem_nil
      · rw [modinfoStrings_cons fuel hmi] at hs
        rcases List.mem_cons.mp hs with rfl | hin
        · exact nul_not_mem_takeWhile mi
        · exact ih _ s hin

/-- `parse_modinfo` on memory. -/
theorem parseModinfoMem_eq {off size : Nat} (hin : off + size ≤ f.len) :
    parseModinfoMem f off size (List.replicate modidSize 0) =
        stopOf (parseModinfo (slice f.bytes off size)) >>= (fun w => .ok w.image) ∧
      ∀ w, parseModinfo (slice f.bytes off size) = .ok w → w.Fits := by
  have hlen := ModidFile.length_slice hin
  have hstart : (⟨List.replicate want.length false, List.replicate modidSize 0⟩ : ModinfoState)
      = (⟨none, none, none, none⟩ : Wanted).state := by
    refine congrArg₂ _ rfl ?_
    decide +kernel
  have hempty : ∀ {cap : Nat}, 0 < cap → FieldFits cap none := fun h => ⟨h, List.not_mem_nil⟩
  have hnone : (⟨none, none, none, none⟩ : Wanted).Fits :=
    ⟨hempty (by decide), hempty (by decide), hempty (by decide), hempty (by decide)⟩
  have hloop := modinfoLoop_eq hin size off _ hnone (by omega)
  rw [Nat.add_sub_cancel_left] at hloop
  rw [parseModinfoMem, hstart, hloop, parseModinfo, hlen]
  cases hfold : (modinfoStrings size (slice f.bytes off size)).foldlM wantString
      ⟨none, none, none, none⟩ with
  | error e => exact ⟨rfl, nofun⟩
  | ok w =>
      have hw := hnone.strings (nul_not_mem_string size _) hfold
      simp only [stopOf_ok, bind, Except.bind, pure, Except.pure, throw, throwThe,
        MonadExceptOf.throw]
      have hname := outString_name hw
      have hsrc := outString_srcversion hw
      rw [show w.state.out = w.image from rfl, hname, hsrc]
      constructor
      · dsimp only
        split_ifs <;> rfl
      · intro w' h
        split_ifs at h
        rwa [← Except.ok.inj h]

/-! ### The file

The parts are put together in the order of the function, and an early stop is one of
its errors.  A fault is never among them, since each part was shown equal to one that
has no faults.
-/

/-- `struct kg_modid` with the fields of `m`. -/
def KgModid.image (m : KgModid) : List UInt8 :=
  cField kgModidNameMax m.name ++ cField kgModidSrcverMax m.srcversion ++
    cField kgModidStrMax m.version ++ cField kgModidStrMax m.vermagic ++
    [if m.sigMarker then 1 else 0, 0, 0, 0] ++ m.sha256

/-- The last two fields are filled in. -/
theorem outWrite_rest {w : Wanted} (hw : w.Fits) (marker : Bool) {sha : List UInt8}
    (hsha : sha.length = 32) :
    (outWrite w.image 344 [if marker then 1 else 0, 0, 0, 0] >>= fun out => outWrite out 348 sha) =
      .ok (KgModid.image ⟨w.name.getD [], w.srcversion.getD [], w.version.getD [], w.vermagic.getD [],
        marker, sha⟩) := by
  obtain ⟨texts, htexts⟩ : ∃ texts, texts = cField kgModidNameMax (w.name.getD []) ++
      cField kgModidSrcverMax (w.srcversion.getD []) ++ cField kgModidStrMax (w.version.getD []) ++
      cField kgModidStrMax (w.vermagic.getD []) := ⟨_, rfl⟩
  have hlen : texts.length = 344 := by
    simp only [htexts, List.length_append, hw.name.length_cField, hw.srcversion.length_cField,
      hw.version.length_cField, hw.vermagic.length_cField]
    rfl
  have himage : w.image = texts ++ cField 4 [] ++ cField 32 [] := by
    rw [htexts, Wanted.image, List.append_assoc _ (cField 4 []) (cField 32 [])]
    rfl
  -- both fields are filled to their last byte
  have hfull : ∀ v : List UInt8, cField v.length v = v := fun v => by
    rw [cField, Nat.sub_self, List.replicate_zero, List.append_nil]
  have hmark : outWrite w.image 344 [if marker then 1 else 0, 0, 0, 0]
      = .ok (texts ++ [if marker then 1 else 0, 0, 0, 0] ++ cField 32 []) := by
    rw [outWrite, if_pos ⟨(344, 4), by decide, by decide, Nat.le_refl _⟩, himage, ← hlen,
      overwrite_field (Nat.le_refl 4)]
    rfl
  have hhash : outWrite (texts ++ [if marker then 1 else 0, 0, 0, 0] ++ cField 32 []) 348 sha
      = .ok (texts ++ [if marker then 1 else 0, 0, 0, 0] ++ sha) := by
    have hoff : (texts ++ [if marker then 1 else 0, 0, 0, 0] : List UInt8).length = 348 := by
      rw [List.length_append, hlen]
      rfl
    have hcopy := @overwrite_field (texts ++ [if marker then 1 else 0, 0, 0, 0]) [] sha 32
      (Nat.le_of_eq hsha)
    rw [List.append_nil, List.append_nil, hoff, ← hsha, hfull sha, hsha] at hcopy
    rw [outWrite, if_pos ⟨(348, 32), by decide, by decide, by rw [hsha]⟩, hcopy]
  rw [hmark]
  show outWrite _ 348 sha = _
  rw [hhash, htexts]
  rfl

theorem sigMarkerMem_ok :
    sigMarkerMem f = .ok (f.len ≥ kgSigMarker.length &&
      f.bytes.drop (f.len - kgSigMarker.length) = kgSigMarker) := by
  unfold sigMarkerMem
  by_cases h : f.len ≥ kgSigMarker.length
  · have hslice : slice f.bytes (f.len - kgSigMarker.length) kgSigMarker.length
        = f.bytes.drop (f.len - kgSigMarker.length) := by
      rw [slice, List.take_of_length_le]
      rw [List.length_drop]
      have hlen : f.len = f.bytes.length := rfl
      omega
    rw [if_pos h, ModidFile.read_ok (by omega), hslice]
    simp [h, bind, Except.bind, pure, Except.pure]
  · rw [if_neg h]
    simp [h]

/-- The section is found as `Model/Modid.lean` says, and it lies in the file. -/
theorem modinfoSecMem_cases (f : ModidFile) :
    (∃ s, modinfoSecMem f = .ok s ∧ s.off + s.size ≤ f.len ∧
        modinfoOf f.bytes = .ok (slice f.bytes s.off s.size)) ∨
      ∃ e, modinfoSecMem f = .error (.ret e) ∧ modinfoOf f.bytes = .error e := by
  have hlen : f.bytes.length = f.len := rfl
  rw [modinfoSecMem, elfHeaderMem_eq, modinfoOf]
  simp only [hlen]
  split_ifs with hcomp helf htype hhdr htab hstrs
  · exact .inr ⟨_, rfl, rfl⟩
  · exact .inr ⟨_, rfl, rfl⟩
  · exact .inr ⟨_, rfl, rfl⟩
  · exact .inr ⟨_, rfl, rfl⟩
  · exact .inr ⟨_, rfl, rfl⟩
  all_goals
    -- the table of section headers lies in the file
    simp only [Bool.or_eq_true, decide_eq_true_eq, not_or, Nat.not_lt] at hhdr htab
    rw [shdrSize] at htab
    have hnum := rd16_lt f.bytes 0x3c
    have hidx : rd16 f.bytes 0x3e < rd16 f.bytes 0x3c := Nat.not_le.mp hhdr.2
    have hsec : f.readSec (rd64 f.bytes 0x28) (rd16 f.bytes 0x3e)
        = .ok (readSec f.bytes (rd64 f.bytes 0x28) (rd16 f.bytes 0x3e)) :=
      ModidFile.readSec_ok (by omega) (by rw [shdrSize]; omega)
    simp only [bind, Except.bind, pure, Except.pure, throw, throwThe, MonadExceptOf.throw, hsec,
      secInFile64_eq]
  · rw [if_pos hstrs]
    exact .inr ⟨_, rfl, rfl⟩
  · rw [if_neg hstrs]
    simp only [Bool.or_eq_true, Bool.not_eq_true', decide_eq_true_eq, not_or,
      Bool.not_eq_false] at hstrs
    rw [findModinfoMem_ok (secInFile_end hstrs.1.2) (rd64_lt _ _) _ _ (by omega)
      (by rw [shdrSize]; omega)]
    cases findModinfo f.bytes (rd64 f.bytes 0x28)
        (readSec f.bytes (rd64 f.bytes 0x28) (rd16 f.bytes 0x3e)) 0 (rd16 f.bytes 0x3c) with
    | none => exact .inr ⟨_, rfl, rfl⟩
    | some s =>
        dsimp only
        by_cases hs : secInFile s f.len = true
        · rw [if_neg (by simp [hs]), if_neg (by simp [hs])]
          exact .inl ⟨s, rfl, secInFile_end hs, rfl⟩
        · rw [if_pos (by simp [hs]), if_pos (by simp [hs])]
          exact .inr ⟨_, rfl, rfl⟩

theorem kgModidParseMem_eq (buf : List UInt8) (hbuf : buf.length = 64) (f : ModidFile) :
    kgModidParseMem buf hbuf f =
      stopOf (kgModidParse Sha256.digest f.bytes) >>= fun m => .ok m.image := by
  rw [kgModidParseMem, kgModidParse]
  rcases modinfoSecMem_cases f with ⟨s, hsec, hin, hmi⟩ | ⟨e, hsec, hmi⟩
  · obtain ⟨hparse, hfits⟩ := parseModinfoMem_eq hin
    rw [hsec, hmi]
    simp only [bind, Except.bind] at hparse ⊢
    rw [hparse]
    cases hw : parseModinfo (slice f.bytes s.off s.size) with
    | error e => rfl
    | ok w =>
        have hall : slice f.bytes 0 f.len = f.bytes := List.take_of_length_le (Nat.le_refl _)
        have hsha : kgSha256Stream buf hbuf [f.bytes] = Sha256.digest f.bytes := by
          rw [stream_digest, List.flatten_singleton]
        simp only [stopOf_ok, sigMarkerMem_ok, ModidFile.read_ok (Nat.le_of_eq (Nat.zero_add f.len)),
          hall, hsha]
        exact outWrite_rest (hfits w hw) _ (Sha256.length_digest f.bytes)
  · rw [hsec, hmi]
    rfl

end

/-- What was read fits the fields it is copied to. -/
theorem kgModidParse_lengths {sha256 : List UInt8 → List UInt8} {img : List UInt8} {m : KgModid}
    (h : kgModidParse sha256 img = .ok m) :
    m.name.length < kgModidNameMax ∧ m.srcversion.length < kgModidSrcverMax ∧
      m.version.length < kgModidStrMax ∧ m.vermagic.length < kgModidStrMax := by
  obtain ⟨mi, -, hrest⟩ := Loops.bind_eq_ok.mp h
  obtain ⟨w, hw, hm⟩ := Loops.bind_eq_ok.mp hrest
  obtain ⟨⟨hname, hsrc, hver, hmagic⟩, -⟩ := parseModinfo_ok.mp hw
  rw [← Except.ok.inj hm]
  exact ⟨hname.length_lt (by decide), hsrc.length_lt (by decide), hver.length_lt (by decide),
    hmagic.length_lt (by decide)⟩

/-- The text fields of `struct kg_modid`. -/
def textFields : List (Nat × Nat) := modidFields.take 4

theorem nul_mem_image {m : KgModid} (hname : m.name.length < kgModidNameMax)
    (hsrc : m.srcversion.length < kgModidSrcverMax) (hver : m.version.length < kgModidStrMax)
    (hmagic : m.vermagic.length < kgModidStrMax) :
    ∀ x ∈ textFields, 0 ∈ slice m.image x.1 x.2 := by
  have hfield : ∀ {A B : List UInt8} {s : CStr} {off size : Nat}, A.length = off →
      s.length < size → 0 ∈ slice (A ++ cField size s ++ B) off size := by
    intro A B s off size hA hlen
    rw [← hA, slice_field (Nat.le_of_lt hlen), cField_eq hlen]
    simp
  have hn := length_cField (Nat.le_of_lt hname)
  have hs := length_cField (Nat.le_of_lt hsrc)
  have hv := length_cField (Nat.le_of_lt hver)
  simp only [KgModid.image, textFields, modidFields, List.take_succ_cons, List.take_zero,
    List.forall_mem_cons, List.append_assoc]
  refine ⟨?_, ?_, ?_, ?_, nofun⟩
  · exact @hfield [] _ m.name 0 _ rfl hname
  · have h := @hfield _ (cField kgModidStrMax m.version ++ (cField kgModidStrMax m.vermagic ++
      ([if m.sigMarker then 1 else 0, 0, 0, 0] ++ m.sha256))) m.srcversion 56 _ hn hsrc
    rwa [List.append_assoc] at h
  · have h := @hfield (cField kgModidNameMax m.name ++ cField kgModidSrcverMax m.srcversion)
      (cField kgModidStrMax m.vermagic ++ ([if m.sigMarker then 1 else 0, 0, 0, 0] ++ m.sha256))
      m.version 88 _ (by rw [List.length_append, hn, hs]; rfl) hver
    simp only [List.append_assoc] at h
    exact h
  · have h := @hfield (cField kgModidNameMax m.name ++ cField kgModidSrcverMax m.srcversion ++
      cField kgModidStrMax m.version) ([if m.sigMarker then 1 else 0, 0, 0, 0] ++ m.sha256)
      m.vermagic 216 _ (by rw [List.length_append, List.length_append, hn, hs, hv]; rfl) hmagic
    simp only [List.append_assoc] at h
    exact h

/--
**The module parser stays inside its memory.**  On every file, whatever its headers say, the
parser returns without a read outside the file or a write outside the fields of the
result; and if it accepts the file each text field of the result has its NUL.
-/
theorem modid_parse_in_bounds (buf : List UInt8) (hbuf : buf.length = 64) (f : ModidFile) :
    kgModidParseMem buf hbuf f ≠ .error .fault ∧
      ∀ out, kgModidParseMem buf hbuf f = .ok out → ∀ x ∈ textFields, 0 ∈ slice out x.1 x.2 := by
  rw [kgModidParseMem_eq]
  cases hparse : kgModidParse Sha256.digest f.bytes with
  | error e => exact ⟨nofun, nofun⟩
  | ok m =>
      refine ⟨nofun, fun out hout => ?_⟩
      rw [← Except.ok.inj hout]
      obtain ⟨hname, hsrc, hver, hmagic⟩ := kgModidParse_lengths hparse
      exact nul_mem_image hname hsrc hver hmagic

/-- An ELF header whose section headers are at the end of the address space. -/
def hostileFile : ModidFile where
  bytes := [0x7f, 0x45, 0x4c, 0x46, 2, 1] ++ List.replicate 10 0xff ++ [1, 0] ++
    List.replicate 40 0xff ++ [64, 0, 0xff, 0xff, 0xfe, 0xff]
  length_lt := by decide

theorem modid_parse_in_bounds_hostile :
    elfHeaderMem hostileFile = .error (.ret .badElf) ∧
      kgModidParseMem (List.replicate 64 0) rfl hostileFile ≠ .error .fault :=
  ⟨by rfl, (modid_parse_in_bounds (List.replicate 64 0) rfl hostileFile).1⟩

end KernelGuard
