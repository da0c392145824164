/-
Little-endian encodings of fixed width.

A packed C structure is the concatenation of its fields' bytes.  What a hash over
such bytes protects is the structure itself only because the encoding is
injective, and it is injective because every field has a width of its own:
`leBytes_inj` for one field, `flatMap_inj` for an array of equal-width elements,
and `List.append_inj` of the standard library to take a structure apart.

Writing a field of a packed structure is `overwrite`: it changes the bytes of the field
and no others.  A text in a field is cut or filled up with zeros (`padTo`).
-/
import Mathlib.Data.List.Basic
import Mathlib.Algebra.GroupWithZero.Nat

namespace Bytes

/-- The `k` low bytes of `n`, least significant first. -/
def leBytes : Nat → Nat → List UInt8
  | 0, _ => []
  | k + 1, n => UInt8.ofNat n :: leBytes k (n / 256)

@[simp] theorem length_leBytes (k n : Nat) : (leBytes k n).length = k := by
  induction k generalizing n with
  | zero => rfl
  | succ k ih => simp [leBytes, ih]

theorem leBytes_inj {k n m : Nat} (hn : n < 256 ^ k) (hm : m < 256 ^ k)
    (h : leBytes k n = leBytes k m) : n = m := by
  induction k generalizing n m with
  | zero => simp only [Nat.pow_zero] at hn hm; omega
  | succ k ih =>
      simp only [leBytes, List.cons.injEq] at h
      obtain ⟨hlow, hhigh⟩ := h
      have hmod : n % 256 = m % 256 := by
        have := congrArg UInt8.toNat hlow
        simpa using this
      have hdiv : n / 256 = m / 256 :=
        ih (Nat.div_lt_of_lt_mul (by rw [Nat.pow_succ] at hn; omega))
          (Nat.div_lt_of_lt_mul (by rw [Nat.pow_succ] at hm; omega)) hhigh
      omega

/-- The number a little-endian list of bytes stands for. -/
def leValue (b : List UInt8) : Nat := b.foldr (fun x acc => x.toNat + 256 * acc) 0

theorem leValue_lt (b : List UInt8) : leValue b < 256 ^ b.length := by
  induction b with
  | nil => exact Nat.one_pos
  | cons x rest ih =>
      have hcons : leValue (x :: rest) = x.toNat + 256 * leValue rest := rfl
      have hx := x.toNat_lt
      rw [hcons, List.length_cons, Nat.pow_succ]
      omega

/-- The bytes of the number are the bytes it was made of. -/
theorem leBytes_leValue (b : List UInt8) : leBytes b.length (leValue b) = b := by
  induction b with
  | nil => rfl
  | cons x rest ih =>
      have hcons : leValue (x :: rest) = x.toNat + 256 * leValue rest := rfl
      have hx := x.toNat_lt
      have hlow : UInt8.ofNat (x.toNat + 256 * leValue rest) = x := by
        apply UInt8.toNat_inj.mp
        rw [UInt8.toNat_ofNat']
        omega
      have hhigh : (x.toNat + 256 * leValue rest) / 256 = leValue rest := by omega
      rw [List.length_cons, leBytes, hcons, hlow, hhigh, ih]

/-- What can be checked for each of the 256 numbers holds of every byte. -/
theorem forall_byte {p : UInt8 → Prop} (h : ∀ n : Fin 256, p (UInt8.ofFin n)) (c : UInt8) :
    p c := by
  simpa using h c.toFin

/-- The bytes of an 8-, 16-, 32- and 64-bit field. -/
def le8 (x : UInt8) : List UInt8 := [x]
def le16 (x : UInt16) : List UInt8 := leBytes 2 x.toNat
def le32 (x : UInt32) : List UInt8 := leBytes 4 x.toNat
def le64 (x : UInt64) : List UInt8 := leBytes 8 x.toNat

@[simp] theorem length_le8 (x : UInt8) : (le8 x).length = 1 := rfl
@[simp] theorem length_le16 (x : UInt16) : (le16 x).length = 2 := length_leBytes _ _
@[simp] theorem length_le32 (x : UInt32) : (le32 x).length = 4 := length_leBytes _ _
@[simp] theorem length_le64 (x : UInt64) : (le64 x).length = 8 := length_leBytes _ _

/-- Eight bytes read as a word and written again. -/
theorem le64_leValue {b : List UInt8} (h : b.length = 8) : le64 (UInt64.ofNat (leValue b)) = b := by
  have hlt : leValue b < 2 ^ 64 := by
    have hvalue := leValue_lt b
    rw [h] at hvalue
    exact hvalue
  rw [le64, UInt64.toNat_ofNat', Nat.mod_eq_of_lt hlt, ← h]
  exact leBytes_leValue b

@[simp] theorem le8_inj {x y : UInt8} : le8 x = le8 y ↔ x = y := by
  simp [le8]

@[simp] theorem le16_inj {x y : UInt16} : le16 x = le16 y ↔ x = y := by
  refine ⟨fun h => ?_, fun h => by rw [h]⟩
  exact UInt16.toNat_inj.mp (leBytes_inj x.toNat_lt y.toNat_lt h)

@[simp] theorem le32_inj {x y : UInt32} : le32 x = le32 y ↔ x = y := by
  refine ⟨fun h => ?_, fun h => by rw [h]⟩
  exact UInt32.toNat_inj.mp (leBytes_inj x.toNat_lt y.toNat_lt h)

@[simp] theorem le64_inj {x y : UInt64} : le64 x = le64 y ↔ x = y := by
  refine ⟨fun h => ?_, fun h => by rw [h]⟩
  exact UInt64.toNat_inj.mp (leBytes_inj x.toNat_lt y.toNat_lt h)

/-- Two concatenations whose first parts have one width agree part by part. -/
theorem append_iff {xs xs' ys ys' : List UInt8} (h : xs.length = xs'.length) :
    xs ++ ys = xs' ++ ys' ↔ xs = xs' ∧ ys = ys' := by
  refine ⟨fun hcat => List.append_inj hcat h, fun hparts => ?_⟩
  rw [hparts.1, hparts.2]

@[simp] theorem le8_append {x y : UInt8} {xs ys : List UInt8} :
    le8 x ++ xs = le8 y ++ ys ↔ x = y ∧ xs = ys := by
  rw [append_iff (by simp), le8_inj]

@[simp] theorem le16_append {x y : UInt16} {xs ys : List UInt8} :
    le16 x ++ xs = le16 y ++ ys ↔ x = y ∧ xs = ys := by
  rw [append_iff (by simp), le16_inj]

@[simp] theorem le32_append {x y : UInt32} {xs ys : List UInt8} :
    le32 x ++ xs = le32 y ++ ys ↔ x = y ∧ xs = ys := by
  rw [append_iff (by simp), le32_inj]

@[simp] theorem le64_append {x y : UInt64} {xs ys : List UInt8} :
    le64 x ++ xs = le64 y ++ ys ↔ x = y ∧ xs = ys := by
  rw [append_iff (by simp), le64_inj]

/-- An array of elements of one positive width is determined by its bytes. -/
theorem flatMap_inj {γ : Type} {enc : γ → List UInt8} {k : Nat} (hk : 0 < k)
    (hlen : ∀ x, (enc x).length = k) (hinj : ∀ x y, enc x = enc y → x = y) :
    ∀ {xs ys : List γ}, xs.flatMap enc = ys.flatMap enc → xs = ys := by
  intro xs
  induction xs with
  | nil =>
      intro ys h
      cases ys with
      | nil => rfl
      | cons y rest =>
          have := congrArg List.length h
          simp only [List.flatMap_nil, List.length_nil, List.flatMap_cons, List.length_append,
            hlen] at this
          omega
  | cons x rest ih =>
      intro ys h
      cases ys with
      | nil =>
          have := congrArg List.length h
          simp only [List.flatMap_nil, List.length_nil, List.flatMap_cons, List.length_append,
            hlen] at this
          omega
      | cons y rest' =>
          simp only [List.flatMap_cons] at h
          obtain ⟨hhead, htail⟩ := (append_iff (by rw [hlen, hlen])).mp h
          rw [hinj _ _ hhead, ih htail]

/-- Two concatenations over one list whose parts have the same widths agree part by part. -/
theorem flatMap_append_inj {γ δ : Type} {f g : γ → List δ} {l : List γ} {r r' : List δ}
    (hlen : ∀ a ∈ l, (f a).length = (g a).length)
    (h : l.flatMap f ++ r = l.flatMap g ++ r') : (∀ a ∈ l, f a = g a) ∧ r = r' := by
  induction l with
  | nil => exact ⟨nofun, h⟩
  | cons a rest ih =>
      rw [List.flatMap_cons, List.flatMap_cons, List.append_assoc, List.append_assoc] at h
      obtain ⟨hhead, htail⟩ := List.append_inj h (hlen a List.mem_cons_self)
      obtain ⟨hrest, hr⟩ := ih (fun b hb => hlen b (List.mem_cons_of_mem a hb)) htail
      exact ⟨List.forall_mem_cons.mpr ⟨hhead, hrest⟩, hr⟩

/-- The bytes `b` written over `img` from `off` on; the length stays. -/
def overwrite (img : List UInt8) (off : Nat) (b : List UInt8) : List UInt8 :=
  img.mapIdx fun i x => if off ≤ i then b.getD (i - off) x else x

@[simp] theorem length_overwrite (img : List UInt8) (off : Nat) (b : List UInt8) :
    (overwrite img off b).length = img.length := by
  simp [overwrite]

theorem overwrite_outside {img b : List UInt8} {off i : Nat}
    (h : i < off ∨ off + b.length ≤ i) : (overwrite img off b)[i]? = img[i]? := by
  rw [overwrite, List.getElem?_mapIdx]
  cases img[i]? with
  | none => rfl
  | some x =>
      rw [Option.map_some]
      split
      · rw [List.getD_eq_getElem?_getD, List.getElem?_eq_none (by omega), Option.getD_none]
      · rfl

theorem overwrite_at {img b : List UInt8} {off i : Nat} (hin : off + i < img.length)
    (h : i < b.length) : (overwrite img off b)[off + i]? = b[i]? := by
  rw [overwrite, List.getElem?_mapIdx, List.getElem?_eq_getElem hin, Option.map_some,
    if_pos (Nat.le_add_right off i), Nat.add_sub_cancel_left, List.getD_eq_getElem?_getD,
    List.getElem?_eq_getElem h, Option.getD_some]

theorem overwrite_inside {img b : List UInt8} {off i : Nat} (hfit : off + b.length ≤ img.length)
    (h : i < b.length) : (overwrite img off b)[off + i]? = b[i]? :=
  overwrite_at (by omega) h

/-- What was there, and `x` behind it. -/
theorem take_overwrite {buf x : List UInt8} {off : Nat} (hfit : off + x.length ≤ buf.length) :
    (overwrite buf off x).take (off + x.length) = buf.take off ++ x := by
  refine List.ext_getElem? fun i => ?_
  have hlen : (buf.take off).length = off := by
    rw [List.length_take]
    omega
  rcases Nat.lt_or_ge i off with hi | hi
  · rw [List.getElem?_take_of_lt (by omega), overwrite_outside (.inl hi),
      List.getElem?_append_left (by omega), List.getElem?_take_of_lt hi]
  · rw [List.getElem?_append_right (by omega), hlen]
    rcases Nat.lt_or_ge i (off + x.length) with hlt | hge
    · obtain ⟨j, rfl⟩ := Nat.exists_eq_add_of_le hi
      rw [List.getElem?_take_of_lt hlt, overwrite_inside hfit (by omega),
        Nat.add_sub_cancel_left]
    · rw [List.getElem?_eq_none (by rw [List.length_take]; omega),
        List.getElem?_eq_none (by omega)]

/-! ### Text in a field of fixed width -/

/-- The bytes in `k` bytes: cut, or filled up with zeros. -/
def padTo (k : Nat) (b : List UInt8) : List UInt8 := b.take k ++ List.replicate (k - b.length) 0

@[simp] theorem length_padTo (k : Nat) (b : List UInt8) : (padTo k b).length = k := by
  rw [padTo, List.length_append, List.length_take, List.length_replicate]
  omega

theorem take_padTo {j k : Nat} (h : j ≤ k) (b : List UInt8) : (padTo k b).take j = padTo j b := by
  have hpad : min (j - min k b.length) (k - b.length) = j - b.length := by omega
  rw [padTo, padTo, List.take_append, List.take_take, List.take_replicate, List.length_take, hpad,
    Nat.min_eq_left h]

/-- What is cut anyway may be cut before. -/
theorem padTo_take {k m : Nat} (h : k ≤ m) (b : List UInt8) : padTo k (b.take m) = padTo k b := by
  have hpad : k - min m b.length = k - b.length := by omega
  rw [padTo, padTo, List.take_take, List.length_take, hpad, Nat.min_eq_left h]

theorem mem_padTo {k : Nat} {b : List UInt8} {c : UInt8} (h : c ∈ padTo k b) : c = 0 ∨ c ∈ b := by
  rcases List.mem_append.mp h with htake | hpad
  · exact Or.inr (List.mem_of_mem_take htake)
  · exact Or.inl (List.eq_of_mem_replicate hpad)

/-- Bits that are put below others are added to them. -/
theorem mul_two_pow_or {x y k : Nat} (hy : y < 2 ^ k) : x * 2 ^ k ||| y = x * 2 ^ k + y := by
  rw [Nat.mul_comm, ← Nat.two_pow_add_eq_or_of_lt hy]

end Bytes
