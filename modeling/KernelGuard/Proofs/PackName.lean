/-
Names in alerts, on both ports and at the monitor.

A name travels in the two parameter words of an alert, as 16 bytes.  The driver of Windows fills
them one by one and pads what is left.  The module of Linux goes through `strscpy_pad`, which keeps
the last byte for a NUL.  The monitor reads up to the first NUL or to the end, so both are read
back; but of a name of 16 characters or more the module has sent only 15.
-/
import KernelGuard.Model.LoadGuard
import KernelGuard.Model.Monitor
import KernelGuard.Lib.Tokens

namespace KernelGuard

open Bytes

/-- A name of printable ASCII characters. -/
structure PrintableName where
  chars : CStr
  printable : ∀ c ∈ chars, 0x20 ≤ c ∧ c ≤ 0x7e

/-- The name as Windows has it. -/
def PrintableName.wide (n : PrintableName) : List UInt16 := n.chars.map UInt8.toUInt16

/-! ### The packers

Both buffers have 16 bytes and are zero behind the name.  The difference is the last
byte: `strscpy_pad` ends the string in the buffer, `LgPackName` only fills it up.
-/

theorem padName_eq (s : CStr) : padName s = padTo 16 (s.take 15) := by
  have hcopy : strscpy 16 s = s.take 15 := rfl
  rw [padName, hcopy, padTo, List.take_take]
  rfl

/-- The loop fills the bytes that are left with the characters that are left. -/
theorem lgPackLoop_eq (name : List UInt16) (hname : (0 : UInt16) ∉ name) (room : Nat)
    (pre : List UInt8) :
    lgPackLoop name room pre.length (pre ++ List.replicate room 0) =
      pre ++ padTo room ((name.drop pre.length).map lgPackChar) := by
  induction room generalizing pre with
  | zero => simp [lgPackLoop, padTo]
  | succ room ih =>
      rw [lgPackLoop]
      rcases Nat.lt_or_ge pre.length name.length with hlt | hge
      · have hget : name.getD pre.length 0 = name[pre.length] := by
          rw [List.getD_eq_getElem?_getD, List.getElem?_eq_getElem hlt, Option.getD_some]
        have hne : name[pre.length] ≠ 0 := fun h0 => hname (h0 ▸ List.getElem_mem hlt)
        have hset : (pre ++ List.replicate (room + 1) 0).set pre.length
            (lgPackChar name[pre.length]) =
            (pre ++ [lgPackChar name[pre.length]]) ++ List.replicate room 0 := by
          rw [List.replicate_succ, List.set_append_right _ _ (Nat.le_refl _), Nat.sub_self,
            List.set_cons_zero, List.append_assoc, List.singleton_append]
        have hrest := ih (pre ++ [lgPackChar name[pre.length]])
        rw [List.length_append, List.length_singleton] at hrest
        rw [hget, if_pos hne, hset, hrest, List.drop_eq_getElem_cons hlt, List.map_cons]
        simp [padTo]
      · have hget : name.getD pre.length 0 = 0 := by
          rw [List.getD_eq_getElem?_getD, List.getElem?_eq_none hge, Option.getD_none]
        rw [hget, if_neg (by simp), List.drop_of_length_le hge]
        simp [padTo]

theorem PrintableName.zero_notMem (n : PrintableName) : (0 : UInt8) ∉ n.chars := by
  intro h0
  exact absurd (n.printable 0 h0).1 (by decide)

theorem PrintableName.zero_notMem_wide (n : PrintableName) : (0 : UInt16) ∉ n.wide := by
  intro h0
  obtain ⟨c, hc, hzero⟩ := List.mem_map.mp h0
  have hc0 : c = 0 := by
    apply UInt8.toNat_inj.mp
    rw [← UInt8.toNat_toUInt16, hzero]
    rfl
  exact n.zero_notMem (hc0 ▸ hc)

theorem lgPackChar_toUInt16 {c : UInt8} (h : 0x20 ≤ c ∧ c ≤ 0x7e) :
    lgPackChar c.toUInt16 = c := by
  have hge : 32 ≤ c.toNat := UInt8.le_iff_toNat_le.mp h.1
  have hle : c.toNat ≤ 126 := UInt8.le_iff_toNat_le.mp h.2
  have hgeW : (0x20 : UInt16) ≤ c.toUInt16 := by
    rw [UInt16.le_iff_toNat_le, UInt8.toNat_toUInt16]
    exact hge
  have hltW : c.toUInt16 < 0x7F := by
    rw [UInt16.lt_iff_toNat_lt, UInt8.toNat_toUInt16]
    exact Nat.lt_succ_of_le hle
  rw [lgPackChar, if_pos (by simp [hgeW, hltW]), UInt8.toUInt8_toUInt16]

/-- A printable name is packed as it is. -/
theorem PrintableName.map_lgPackChar (n : PrintableName) : n.wide.map lgPackChar = n.chars := by
  rw [PrintableName.wide, List.map_map]
  conv_rhs => rw [← List.map_id n.chars]
  apply List.map_congr_left
  intro c hc
  exact lgPackChar_toUInt16 (n.printable c hc)

/-- The two words of a buffer of 16 bytes. -/
def wordsOf (b : List UInt8) : UInt64 × UInt64 := (wordOf (b.take 8), wordOf (b.drop 8))

/-- The module sends 15 characters, -/
theorem kgPackName_eq (s : CStr) : kgPackName s = wordsOf (padTo 16 (s.take 15)) := by
  rw [← padName_eq]
  rfl

/-- the driver 16. -/
theorem lgPackName_eq (n : PrintableName) : lgPackName n.wide = wordsOf (padTo 16 n.chars) := by
  have hloop := lgPackLoop_eq n.wide n.zero_notMem_wide 16 []
  rw [List.length_nil, List.drop_zero, n.map_lgPackChar, List.nil_append, List.nil_append] at hloop
  rw [← hloop]
  rfl

/-! ### The monitor

The monitor stops at the first NUL or at the end of the two words, so it needs no
NUL behind a name that fills them.  It loses nothing, and the condition is only about
what was packed.
-/

/-- The monitor finds the characters that are in the buffer. -/
theorem unpackName_padTo {s : CStr} (hprint : ∀ c ∈ s, 0x20 ≤ c ∧ c ≤ 0x7e) :
    unpackName (wordsOf (padTo 16 s)).1 (wordsOf (padTo 16 s)).2 = s.take 16 := by
  have hlen := length_padTo 16 s
  have hlow : le64 (wordOf ((padTo 16 s).take 8)) = (padTo 16 s).take 8 :=
    le64_leValue (by rw [List.length_take, hlen]; rfl)
  have hhigh : le64 (wordOf ((padTo 16 s).drop 8)) = (padTo 16 s).drop 8 :=
    le64_leValue (by rw [List.length_drop, hlen])
  have hshown : (padTo 16 s).map (fun c => if c ≠ 0 && (c < 0x20 || c > 0x7e) then 63 else c) =
      padTo 16 s := by
    conv_rhs => rw [← List.map_id (padTo 16 s)]
    apply List.map_congr_left
    intro c hc
    rcases mem_padTo hc with rfl | hin
    · rfl
    · obtain ⟨hge, hle⟩ := hprint c hin
      simp [UInt8.not_lt.mpr hge, UInt8.not_lt.mpr hle]
  have hnonul : (0 : UInt8) ∉ s.take 16 := fun h0 =>
    absurd (hprint 0 (List.mem_of_mem_take h0)).1 (by decide)
  simp only [wordsOf, unpackName, hlow, hhigh, List.take_append_drop, hshown]
  exact Tokens.takeWhile_ne_replicate hnonul _

/-- What the two ports and the monitor are meant to do with a name: both pack it alike, and its
first 16 characters are read back. -/
def NameTravels (n : PrintableName) : Prop :=
  kgPackName n.chars = lgPackName n.wide ∧
    unpackName (kgPackName n.chars).1 (kgPackName n.chars).2 = n.chars.take 16

theorem unpackName_kgPackName (n : PrintableName) :
    unpackName (kgPackName n.chars).1 (kgPackName n.chars).2 = n.chars.take 15 := by
  rw [kgPackName_eq, unpackName_padTo fun c hc => n.printable c (List.mem_of_mem_take hc),
    List.take_take]
  rfl

theorem unpackName_lgPackName (n : PrintableName) :
    unpackName (lgPackName n.wide).1 (lgPackName n.wide).2 = n.chars.take 16 := by
  rw [lgPackName_eq, unpackName_padTo n.printable]

/-- They do so exactly with the names that leave room for the NUL. -/
theorem name_travels_iff (n : PrintableName) : NameTravels n ↔ n.chars.length ≤ 15 := by
  constructor
  · intro h
    have hread : n.chars.take 15 = n.chars.take 16 := by rw [← unpackName_kgPackName, h.2]
    have hlen := congrArg List.length hread
    rw [List.length_take, List.length_take] at hlen
    omega
  · intro h
    refine ⟨?_, ?_⟩
    · rw [kgPackName_eq, lgPackName_eq, List.take_of_length_le h]
    · rw [unpackName_kgPackName, List.take_of_length_le h, List.take_of_length_le (by omega)]

/-- `usb_storage_hook` has 16 characters; the last is lost on Linux. -/
def usbStorageHook : PrintableName where
  chars := str "usb_storage_hook"
  printable := by decide +kernel

theorem usb_storage_hook_cut :
    ¬ NameTravels usbStorageHook ∧ unpackName (kgPackName usbStorageHook.chars).1
      (kgPackName usbStorageHook.chars).2 = str "usb_storage_hoo" := by
  have hread : unpackName (kgPackName usbStorageHook.chars).1
      (kgPackName usbStorageHook.chars).2 = str "usb_storage_hoo" := by decide +kernel
  refine ⟨fun h => ?_, hread⟩
  have hwhole := h.2
  rw [hread] at hwhole
  exact absurd hwhole (by decide +kernel)

end KernelGuard
