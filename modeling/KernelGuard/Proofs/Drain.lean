/-
Delivery of the ring's notifications to the monitor.

With `kg_comms_notify` and `read_slot` as single steps, a reader that is never
`2 ^ 32` notifications behind accounts for every one of them: it is emitted, once and
in order, or it is counted in a loss report that is raised when the notification is
already gone from the ring.

The invariant relates the two 32-bit numbers of the code to the positions they stand
for: `write_index` is the length of the history, the cursor is `index`, and the local
`w` of `drain` is some position in between, at most a ring ahead of the cursor.  The
two loss reports then come apart by themselves: the bulk one moves the cursor before
any slot is looked at, and the single one is raised for a slot that failed to match.
-/
import KernelGuard.Model.Drain
import KernelGuard.Proofs.Comms
import KernelGuard.Lib.Run
import KernelGuard.Lib.Ring
import Mathlib.Order.Interval.Finset.Nat

namespace KernelGuard

open Run Ring

variable (mac : List UInt8 → KgMac)

/-! ### What the kernel publishes

A notification is known by the position it was published at: its sequence number is
that position modulo 2^32 and its slot that position modulo 16.  The slots stay in
step when the sequence number wraps, because 16 divides 2^32.
-/

/-- The slot of a sequence number is the cell of its position: 16 divides `2 ^ 32`. -/
theorem slotOf_ofNat (i : Nat) : slotOf (UInt32.ofNat i) = cell kgNotifySlots i := by
  unfold slotOf
  show cell kgNotifySlots (UInt32.ofNat i).toNat = _
  rw [cell_eq_iff, UInt32.toNat_ofNat']
  exact Nat.mod_mod_of_dvd i (by decide)

/-- `n` is what `kg_comms_notify` makes of its `i`-th notification. -/
structure Genuine (i : Nat) (n : KgNotification) : Prop where
  magic : n.magic = kgNotifyMagic
  sequence : n.sequence = UInt32.ofNat i
  hmac : mac n.authBytes = n.hmac

theorem notificationOf_genuine (i : Nat) (timestamp : UInt64) (a : Alert) :
    Genuine mac i (notificationOf mac (UInt32.ofNat i) timestamp a) :=
  ⟨rfl, rfl, rfl⟩

/-- A history of genuine notifications stays one when the next is appended. -/
theorem genuine_append {published : List KgNotification} {n : KgNotification}
    (h : ∀ i x, published[i]? = some x → Genuine mac i x) (hn : Genuine mac published.length n)
    (i : Nat) (x : KgNotification) (hx : (published ++ [n])[i]? = some x) : Genuine mac i x := by
  rcases getElem?_snoc hx with hold | ⟨rfl, rfl⟩
  · exact h i x hold
  · exact hn

/-- The ring between two calls of `kg_comms_notify`. -/
structure ChannelHolds (c : KgComms) (published : List KgNotification) : Prop where
  nonce : c.ring.driverNonce = UInt32.ofNat published.length
  writeIndex : c.ring.writeIndex = UInt32.ofNat published.length
  genuine : ∀ i n, published[i]? = some n → Genuine mac i n
  holds : Holds published.length c.ring.notifications published

/-- Only the ring counts. -/
theorem ChannelHolds.of_ring {c c' : KgComms} {published : List KgNotification}
    (h : ChannelHolds mac c published) (hring : c'.ring = c.ring) : ChannelHolds mac c' published :=
  ⟨by rw [hring]; exact h.nonce, by rw [hring]; exact h.writeIndex, h.genuine,
    by rw [hring]; exact h.holds⟩

/-- One call keeps the ring in step with the history, whether it publishes or not. -/
theorem ChannelHolds.call {c : KgComms} {published : List KgNotification}
    (h : ChannelHolds mac c published) (env : Env) (a : Alert) :
    ChannelHolds mac (kgCommsNotify mac env a c).2
      (if (kgCommsNotify mac env a c).1 = 0 then
        published ++ [notificationOf mac c.ring.driverNonce env.real a]
      else published) := by
  obtain ⟨-, ⟨hret, hring⟩ | ⟨hret, hring⟩⟩ := kgCommsNotify_cases mac env a c
  · rw [if_pos hret]
    rw [h.nonce] at hring ⊢
    set n := notificationOf mac (UInt32.ofNat published.length) env.real a with hn
    have hlen : (published ++ [n]).length = published.length + 1 := by simp
    refine ⟨?_, ?_, ?_, ?_⟩
    · rw [hring, hlen, ← serial_succ, ← h.nonce]
      rfl
    · rw [hring, hlen, ← serial_succ]
      rfl
    · exact genuine_append mac h.genuine (notificationOf_genuine mac _ _ _)
    · rw [hring]
      show Holds _ (Function.update _ (slotOf (UInt32.ofNat published.length)) n) _
      rw [slotOf_ofNat]
      exact h.holds.push n
  · rw [if_neg hret]
    exact h.of_ring mac hring

theorem ChannelHolds.notify {s : RingSys} (h : ChannelHolds mac s.comms s.published)
    (env : Env) (a : Alert) :
    ChannelHolds mac (s.notify mac env a).comms (s.notify mac env a).published :=
  h.call mac env a

/-! ### What `read_slot` finds

A slot holds the last position that was published to it.  The reader compares
sequence numbers, and two positions of one slot that are less than 2^32 apart have
different ones, so it takes a newer notification for the one it looks for only if it
is further behind than that.
-/

/-- A notification that is still in the ring is read. -/
theorem readSlot_current {c : KgComms} {published : List KgNotification}
    (h : ChannelHolds mac c published) {i : Nat} {n : KgNotification}
    (hn : published[i]? = some n) (hnear : published.length ≤ i + kgNotifySlots) :
    readSlot c.ring (UInt32.ofNat i) = .ok n := by
  have hslot := h.holds i n hn hnear
  have hgen := h.genuine i n hn
  unfold readSlot
  simp only [slotOf_ofNat, hslot]
  rw [if_neg (by simp [hgen.magic]), if_pos hgen.sequence]

/-- A slot that has been overwritten is never taken for the notification it held before. -/
theorem readSlot_overwritten {c : KgComms} {published : List KgNotification}
    (h : ChannelHolds mac c published) {i : Nat} (hfar : i + kgNotifySlots < published.length)
    (hlag : published.length - i < 2 ^ 32) : readSlot c.ring (UInt32.ofNat i) = .bad := by
  obtain ⟨j, n, hij, -, hn, hslot⟩ := h.holds.overwritten hfar
  have hj := (List.getElem?_eq_some_iff.mp hn).1
  have hgen := h.genuine j n hn
  unfold readSlot
  simp only [slotOf_ofNat, hslot]
  rw [if_neg (by simp [hgen.magic]), if_neg]
  rw [hgen.sequence]
  exact serial_ne hij (by omega)

/-! ### The invariant

The places of the reader's program differ in which locals are live, and `PcOK` says
for each of them what the locals stand for.  Publishing moves the end of the history
and nothing of the reader's, so it is one lemma for all places (`PcOK.mono`); the
reader's own steps are one lemma each.
-/

/-- The cursor is the serial number of `index`, which is at most the end of the history. -/
structure Synced (cursor : UInt32) (index len : Nat) : Prop where
  cursor : cursor = UInt32.ofNat index
  le : index ≤ len

/-- `w` is the serial number of a position ahead of `index` by 1 to 16. -/
def Ahead (w : UInt32) (index len : Nat) : Prop :=
  ∃ W, w = UInt32.ofNat W ∧ index < W ∧ W ≤ index + kgNotifySlots ∧ W ≤ len

theorem Synced.mono {cursor : UInt32} {index len len' : Nat} (h : Synced cursor index len)
    (hlen : len ≤ len') : Synced cursor index len' :=
  ⟨h.cursor, h.le.trans hlen⟩

theorem Ahead.mono {w : UInt32} {index len len' : Nat} (h : Ahead w index len)
    (hlen : len ≤ len') : Ahead w index len' := by
  obtain ⟨W, hw, hlt, hring, hle⟩ := h
  exact ⟨W, hw, hlt, hring, hle.trans hlen⟩

/-- What the reader's place in its program says about its position in the history. -/
def PcOK (cursor : UInt32) (index len : Nat) : DrainPc → Prop
  | .connect => True
  | .slot w _ => Synced cursor index len ∧ Ahead w index len
  | .confirm w => Synced cursor index len ∧ Ahead w index len ∧ index + kgNotifySlots < len
  | .load => Synced cursor index len
  | .loop => Synced cursor index len
  | .exited => Synced cursor index len

/-- Publishing more leaves the reader where it is. -/
theorem PcOK.mono {cursor : UInt32} {index len len' : Nat} {pc : DrainPc}
    (h : PcOK cursor index len pc) (hlen : len ≤ len') : PcOK cursor index len' pc := by
  cases pc with
  | connect => trivial
  | load | loop | exited => exact Synced.mono h hlen
  | slot w tries => exact ⟨h.1.mono hlen, h.2.mono hlen⟩
  | confirm w => exact ⟨h.1.mono hlen, h.2.1.mono hlen, Nat.lt_of_lt_of_le h.2.2 hlen⟩

/-- A reader that goes on has not reached `w` yet. -/
theorem Ahead.of_more {r : Reader} {index len : Nat} {w : UInt32} {W : Nat}
    (hsync : Synced r.cursor index len) (hw : w = UInt32.ofNat W) (hle : index ≤ W)
    (hring : W ≤ index + kgNotifySlots) (hpub : W ≤ len) (hmore : r.more w = true) :
    Ahead w index len := by
  refine ⟨W, hw, ?_, hring, hpub⟩
  have hne : r.cursor ≠ w := by
    simp only [Reader.more, Bool.and_eq_true, decide_eq_true_eq] at hmore
    exact hmore.1
  rw [hsync.cursor, hw] at hne
  rcases Nat.lt_or_ge index W with hlt | hge
  · exact hlt
  · exact absurd (congrArg UInt32.ofNat (Nat.le_antisymm hle hge)) hne

/--
Leaving a slot behind: the loop goes on to the next one, or the slot was the last
before `w` (or the reader was told to stop) and `drain` returns.
-/
theorem PcOK.next {r : Reader} {index len : Nat} {w : UInt32} {W : Nat}
    (hsync : Synced r.cursor index len) (hw : w = UInt32.ofNat W) (hle : index ≤ W)
    (hring : W ≤ index + kgNotifySlots) (hpub : W ≤ len) :
    PcOK r.cursor index len (DrainPc.next w r) := by
  unfold DrainPc.next
  by_cases hmore : r.more w = true
  · rw [if_pos hmore]
    exact ⟨hsync, .of_more hsync hw hle hring hpub hmore⟩
  · rw [if_neg hmore]
    exact hsync

/-- The position of a cursor, counted back from the end of the history. -/
theorem Synced.anchor {cursor w : UInt32} {len : Nat} (hw : w = UInt32.ofNat len)
    (hle : (w - cursor).toNat ≤ len) : Synced cursor (len - (w - cursor).toNat) len := by
  refine ⟨?_, Nat.sub_le _ _⟩
  rw [UInt32.ofNat_sub hle, ← hw, UInt32.ofNat_toNat]
  grind

theorem connect_le (w : UInt32) (r : Reader) : (r.connect w).cursor ≤ w := by
  unfold Reader.connect
  simp only
  split
  · exact UInt32.le_refl _
  · split
    · next hgt => exact UInt32.sub_le (UInt32.le_of_lt hgt)
    · exact UInt32.zero_le

/-- The backlog starts at most a ring behind, or at the last wrap of the counter. -/
theorem connect_synced {w : UInt32} {len : Nat} (hw : w = UInt32.ofNat len) (r : Reader) :
    Synced (r.connect w).cursor (len - (w - (r.connect w).cursor).toNat) len := by
  have hle := connect_le w r
  have hwlen : w.toNat ≤ len := by
    rw [hw, UInt32.toNat_ofNat']
    exact Nat.mod_le _ _
  refine Synced.anchor hw ?_
  rw [UInt32.toNat_sub_of_le _ _ hle]
  omega

structure RingInv (s : RingSys) : Prop where
  channel : ChannelHolds mac s.comms s.published
  pc : PcOK s.reader.cursor s.index s.published.length s.pc

/-! ### One step

`Effect` describes what a step does to the position: nothing, a report that moves it
on by as many positions as the report is about, or the start of a connection.  What a
report says is judged in the state it is made in, since later publications overwrite
more.
-/

/-- The notification at position `i` is no longer in the ring. -/
def Gone (s : RingSys) (i : Nat) : Prop :=
  Overwritten s.comms.ring.notifications s.published i

/-- What a report says is true in the state it is made in. -/
def Accurate (s : RingSys) : DrainEvent → Prop
  | .emit n hmacOk =>
      s.published[s.index]? = some n ∧ n.sequence = UInt32.ofNat s.index ∧ hmacOk = true
  | .lost cursor count =>
      cursor = UInt32.ofNat s.index ∧
        ∀ i, s.index ≤ i → i < s.index + count.toNat → Gone s i
  | .overwritten cursor => cursor = UInt32.ofNat s.index ∧ Gone s s.index
  | .tamper _ => False

/-- What an action does to the reader's position and what it reports. -/
inductive Effect (s s' : RingSys) (es : List DrainEvent) : Prop
  | quiet (none : es = []) (index : s'.index = s.index) (start : s'.start = s.start)
      (pc : s'.pc = .connect → s.pc = .connect)
  | report (e : DrainEvent) (one : es = [e]) (accurate : Accurate s e)
      (index : s'.index = s.index + e.width) (start : s'.start = s.start)
      (pc : s'.pc ≠ .connect)
  | connected (none : es = []) (start : s'.start = s'.index) (before : s.pc = .connect)
      (pc : s'.pc ≠ .connect)

theorem next_ne_connect (w : UInt32) (r : Reader) : DrainPc.next w r ≠ .connect := by
  unfold DrainPc.next
  split <;> simp

section Step

variable {s : RingSys}

theorem connect_step (h : RingInv mac s) (hpc : s.pc = .connect) :
    RingInv mac (s.read mac).1 ∧ Effect s (s.read mac).1 (s.read mac).2 := by
  unfold RingSys.read
  rw [hpc]
  exact ⟨⟨h.channel, connect_synced h.channel.writeIndex s.reader⟩,
    .connected rfl rfl hpc (by simp)⟩

/-- The lag, as the difference of the two serial numbers. -/
theorem lag_serial (h : RingInv mac s)
    (hsync : Synced s.reader.cursor s.index s.published.length) (hlag : s.lag < 2 ^ 32) :
    (s.comms.ring.writeIndex - s.reader.cursor).toNat = s.published.length - s.index := by
  rw [h.channel.writeIndex, hsync.cursor]
  exact serial_sub hsync.le hlag

/-- The head of `drain`: a lapped reader skips what is gone, and counts it. -/
theorem load_step (h : RingInv mac s) (hpc : s.pc = .load) (hlag : s.lag < 2 ^ 32) :
    RingInv mac (s.read mac).1 ∧ Effect s (s.read mac).1 (s.read mac).2 := by
  have hsync : Synced s.reader.cursor s.index s.published.length := by
    simpa only [PcOK, hpc] using h.pc
  have hdiff := lag_serial mac h hsync hlag
  have hle := hsync.le
  have h16 : (16 : UInt32).toNat = 16 := rfl
  unfold RingSys.read
  rw [hpc]
  simp only [RingSys.resume, Reader.lapCheck]
  by_cases hlap : s.comms.ring.writeIndex - s.reader.cursor > (16 : UInt32)
  · have hfar : 16 < s.published.length - s.index := by
      rw [← hdiff]
      exact UInt32.lt_iff_toNat_lt.mp hlap
    have hcount : (s.comms.ring.writeIndex - s.reader.cursor - 16).toNat
        = s.published.length - s.index - 16 := by
      rw [UInt32.toNat_sub_of_le _ _ (UInt32.le_of_lt hlap), hdiff, h16]
    simp only [if_pos hlap, List.map_cons, List.map_nil, List.sum_cons, List.sum_nil,
      DrainEvent.width, hcount]
    have hmoved : s.index + (s.published.length - s.index - 16 + 0) = s.published.length - 16 := by
      omega
    rw [hmoved]
    refine ⟨⟨h.channel, PcOK.next ⟨?_, ?_⟩ h.channel.writeIndex ?_ ?_ (Nat.le_refl _)⟩, ?_⟩
    · show s.comms.ring.writeIndex - 16 = _
      rw [h.channel.writeIndex, show (16 : UInt32) = UInt32.ofNat 16 from rfl,
        ← UInt32.ofNat_sub (by omega)]
    · exact Nat.sub_le _ _
    · exact Nat.sub_le _ _
    · show s.published.length ≤ s.published.length - 16 + 16
      omega
    · refine .report _ rfl ⟨hsync.cursor, fun i _ hi => ?_⟩ ?_ rfl (next_ne_connect _ _)
      · rw [hcount] at hi
        exact h.channel.holds.overwritten (show i + 16 < _ by omega)
      · show s.published.length - 16 = s.index + (s.comms.ring.writeIndex - s.reader.cursor - 16).toNat
        rw [hcount, ← hmoved]
        rfl
  · have hnear : s.published.length - s.index ≤ 16 := by
      rw [← hdiff]
      exact UInt32.le_iff_toNat_le.mp (UInt32.not_lt.mp hlap)
    simp only [if_neg hlap, List.map_nil, List.sum_nil, Nat.add_zero]
    refine ⟨⟨h.channel, PcOK.next hsync h.channel.writeIndex hle ?_ (Nat.le_refl _)⟩, ?_⟩
    · show s.published.length ≤ s.index + 16
      omega
    · exact .quiet rfl rfl rfl fun hc => absurd hc (next_ne_connect _ _)

/-- The loop after a slot is done with, whatever was reported about it. -/
theorem resume_step (h : RingInv mac s)
    (hsync : Synced s.reader.cursor s.index s.published.length) {w : UInt32}
    (hahead : Ahead w s.index s.published.length)
    {r : Reader} {e : DrainEvent} (hr : r.cursor = s.reader.cursor + 1) (hwidth : e.width = 1)
    (hacc : Accurate s e) :
    RingInv mac (s.resume (r, [e]) (DrainPc.next w)).1 ∧
      Effect s (s.resume (r, [e]) (DrainPc.next w)).1 (s.resume (r, [e]) (DrainPc.next w)).2 := by
  obtain ⟨W, hw, hlt, hring, hpub⟩ := hahead
  have hindex : s.index + (([e].map DrainEvent.width)).sum = s.index + 1 := by simp [hwidth]
  simp only [RingSys.resume, hindex]
  refine ⟨⟨h.channel, PcOK.next ⟨?_, ?_⟩ hw ?_ ?_ hpub⟩, ?_⟩
  · show r.cursor = UInt32.ofNat (s.index + 1)
    rw [hr, hsync.cursor, serial_succ]
  · show s.index + 1 ≤ s.published.length
    omega
  · show s.index + 1 ≤ W
    omega
  · show W ≤ s.index + 1 + kgNotifySlots
    omega
  · exact .report e rfl hacc (by rw [hwidth]) rfl (next_ne_connect _ _)

/-- An attempt at a slot: the notification is there, or the ring has gone round. -/
theorem slot_step (h : RingInv mac s) {w : UInt32} {tries : Nat} (hpc : s.pc = .slot w tries)
    (hlag : s.lag < 2 ^ 32) :
    RingInv mac (s.read mac).1 ∧ Effect s (s.read mac).1 (s.read mac).2 := by
  have hinv : Synced s.reader.cursor s.index s.published.length ∧
      Ahead w s.index s.published.length := by
    simpa only [PcOK, hpc] using h.pc
  obtain ⟨hsync, hahead⟩ := hinv
  have hindex : s.index < s.published.length := by
    obtain ⟨W, -, hlt, -, hpub⟩ := hahead
    omega
  unfold RingSys.read
  rw [hpc]
  simp only [hsync.cursor]
  rcases Nat.lt_or_ge (s.index + kgNotifySlots) s.published.length with hfar | hnear
  · rw [readSlot_overwritten mac h.channel hfar hlag]
    exact ⟨⟨h.channel, hsync, hahead, hfar⟩, .quiet rfl rfl rfl (by simp)⟩
  · have hn : s.published[s.index]? = some s.published[s.index] := List.getElem?_eq_getElem hindex
    have hgen := h.channel.genuine _ _ hn
    rw [readSlot_current mac h.channel hn hnear]
    exact resume_step mac h hsync hahead rfl rfl ⟨hn, hgen.sequence, decide_eq_true hgen.hmac⟩

/-- The second look at `write_index`: against an honest kernel it always shows an overrun. -/
theorem confirm_step (h : RingInv mac s) {w : UInt32} (hpc : s.pc = .confirm w)
    (hlag : s.lag < 2 ^ 32) :
    RingInv mac (s.read mac).1 ∧ Effect s (s.read mac).1 (s.read mac).2 := by
  have hinv : Synced s.reader.cursor s.index s.published.length ∧
      Ahead w s.index s.published.length ∧ s.index + kgNotifySlots < s.published.length := by
    simpa only [PcOK, hpc] using h.pc
  obtain ⟨hsync, hahead, hfar⟩ := hinv
  have hover : s.comms.ring.writeIndex - s.reader.cursor > (16 - 1 : UInt32) := by
    refine UInt32.lt_iff_toNat_lt.mpr ?_
    rw [lag_serial mac h hsync hlag]
    show 15 < s.published.length - s.index
    have : kgNotifySlots = 16 := rfl
    omega
  unfold RingSys.read
  rw [hpc]
  simp only [Reader.reject, if_pos hover]
  exact resume_step mac h hsync hahead rfl rfl ⟨hsync.cursor, h.channel.holds.overwritten hfar⟩

/-- Publishing only ever makes the history longer. -/
theorem published_mono (env : Env) (a : Alert) (s : RingSys) :
    s.published.length ≤ (s.notify mac env a).published.length := by
  unfold RingSys.notify
  simp only
  split
  · simp
  · exact Nat.le_refl _

/-- Between two calls of `drain` the reader is synced, and stays so. -/
theorem loop_step (h : RingInv mac s) (hpc : s.pc = .loop) :
    RingInv mac (s.read mac).1 ∧ Effect s (s.read mac).1 (s.read mac).2 := by
  have hsync : Synced s.reader.cursor s.index s.published.length := by
    simpa only [PcOK, hpc] using h.pc
  unfold RingSys.read
  rw [hpc]
  simp only
  split
  · exact ⟨⟨h.channel, hsync⟩, .quiet rfl rfl rfl (by simp)⟩
  · exact ⟨⟨h.channel, hsync⟩, .quiet rfl rfl rfl (by simp)⟩

/-- Every action keeps the invariant and reports only what is so. -/
theorem RingInv.act (h : RingInv mac s) (hlag : s.lag < 2 ^ 32) (op : RingOp) :
    RingInv mac (s.step mac op) ∧ Effect s (s.step mac op) (s.events mac op) := by
  cases op with
  | notify env a =>
      exact ⟨⟨h.channel.notify mac env a, h.pc.mono (published_mono mac env a s)⟩,
        .quiet rfl rfl rfl id⟩
  | signal => exact ⟨⟨h.channel, h.pc⟩, .quiet rfl rfl rfl id⟩
  | read =>
      cases hpc : s.pc with
      | connect => exact connect_step mac h hpc
      | load => exact load_step mac h hpc hlag
      | slot w tries => exact slot_step mac h hpc hlag
      | confirm w => exact confirm_step mac h hpc hlag
      | loop => exact loop_step mac h hpc
      | exited =>
          have hsame : s.read mac = (s, []) := by
            unfold RingSys.read
            rw [hpc]
          show RingInv mac (s.read mac).1 ∧ Effect s (s.read mac).1 (s.read mac).2
          rw [hsame]
          exact ⟨h, .quiet rfl rfl rfl id⟩

end Step

/-! ### The whole run

A report covers the positions from the one it was made at on, as many as its width.
Each report starts where the one before ended, so together they tile what the reader
has passed.
-/

/-- The positions of the notifications handed to `emit`, in order. -/
def emitted (tr : List (RingSys × DrainEvent)) : List Nat :=
  tr.filterMap fun p => match p.2 with
    | .emit _ _ => some p.1.index
    | _ => none

/-- Their sequence numbers, as `emit` gets to see them. -/
def emittedSeqs (tr : List (RingSys × DrainEvent)) : List UInt32 :=
  tr.filterMap fun p => match p.2 with
    | .emit n _ => some n.sequence
    | _ => none

/-- The number of notifications reported lost, in bulk or one by one. -/
def reportedLost (tr : List (RingSys × DrainEvent)) : Nat :=
  (tr.map fun p => p.2.lostCount).sum

/-- Report `p` counts the notification at position `i` as lost. -/
def ReportsLost (p : RingSys × DrainEvent) (i : Nat) : Prop :=
  p.1.index ≤ i ∧ i < p.1.index + p.2.lostCount

/-- The reports `tr` account for everything from `start` up to `index`. -/
structure Accounted (start index : Nat) (tr : List (RingSys × DrainEvent)) : Prop where
  le : start ≤ index
  accurate : ∀ p ∈ tr, Accurate p.1 p.2
  seqs : emittedSeqs tr = (emitted tr).map UInt32.ofNat
  ordered : (emitted tr).Pairwise (· < ·)
  bounds : ∀ i ∈ emitted tr, start ≤ i ∧ i < index
  covered : ∀ i, start ≤ i → i < index → i ∉ emitted tr → ∃ p ∈ tr, ReportsLost p i
  count : start + (emitted tr).length + reportedLost tr = index

theorem Accounted.nil (i : Nat) : Accounted i i [] where
  le := Nat.le_refl i
  accurate := by simp
  seqs := rfl
  ordered := List.Pairwise.nil
  bounds := by simp [emitted]
  covered := by intro j hle hlt; omega
  count := rfl

/-- Taking one more notification. -/
theorem Accounted.emit {start : Nat} {tr : List (RingSys × DrainEvent)} {s : RingSys}
    (h : Accounted start s.index tr) {n : KgNotification} {ok : Bool}
    (hacc : Accurate s (.emit n ok)) : Accounted start (s.index + 1) (tr ++ [(s, .emit n ok)]) := by
  have hemit : emitted (tr ++ [(s, .emit n ok)]) = emitted tr ++ [s.index] := by simp [emitted]
  have hle := h.le
  have hcount := h.count
  refine ⟨by omega, ?_, ?_, ?_, ?_, ?_, ?_⟩
  · intro p hp
    rcases List.mem_append.mp hp with hold | hnew
    · exact h.accurate p hold
    · rw [List.mem_singleton.mp hnew]
      exact hacc
  · rw [hemit, List.map_append, ← h.seqs]
    simp [emittedSeqs, hacc.2.1]
  · rw [hemit]
    refine List.pairwise_append.mpr ⟨h.ordered, List.pairwise_singleton _ _, ?_⟩
    intro i hi j hj
    rw [List.mem_singleton.mp hj]
    exact (h.bounds i hi).2
  · intro i hi
    rw [hemit] at hi
    rcases List.mem_append.mp hi with hold | hnew
    · have := h.bounds i hold
      omega
    · rw [List.mem_singleton.mp hnew]
      omega
  · intro i hstart hi hnot
    rw [hemit] at hnot
    simp only [List.mem_append, List.mem_singleton, not_or] at hnot
    obtain ⟨p, hp, hlost⟩ := h.covered i hstart (by omega) hnot.1
    exact ⟨p, List.mem_append_left _ hp, hlost⟩
  · rw [hemit]
    simp only [reportedLost, List.map_append, List.map_cons, List.map_nil, List.sum_append,
      DrainEvent.lostCount, List.length_append, List.length_singleton] at hcount ⊢
    simp only [List.sum_cons, List.sum_nil]
    omega

/-- Passing over what a report counts as lost. -/
theorem Accounted.lost {start : Nat} {tr : List (RingSys × DrainEvent)} {s : RingSys}
    (h : Accounted start s.index tr) {e : DrainEvent} (hacc : Accurate s e)
    (hwidth : e.lostCount = e.width) (hemit : emitted [(s, e)] = []) (hseq : emittedSeqs [(s, e)] = []) :
    Accounted start (s.index + e.width) (tr ++ [(s, e)]) := by
  have hem : emitted (tr ++ [(s, e)]) = emitted tr := by
    rw [emitted, List.filterMap_append]
    exact (congrArg (emitted tr ++ ·) hemit).trans (List.append_nil _)
  have hsq : emittedSeqs (tr ++ [(s, e)]) = emittedSeqs tr := by
    rw [emittedSeqs, List.filterMap_append]
    exact (congrArg (emittedSeqs tr ++ ·) hseq).trans (List.append_nil _)
  have hle := h.le
  have hcount := h.count
  refine ⟨by omega, ?_, by rw [hsq, hem]; exact h.seqs, by rw [hem]; exact h.ordered, ?_, ?_, ?_⟩
  · intro p hp
    rcases List.mem_append.mp hp with hold | hnew
    · exact h.accurate p hold
    · rw [List.mem_singleton.mp hnew]
      exact hacc
  · intro i hi
    rw [hem] at hi
    have := h.bounds i hi
    omega
  · intro i hstart hi hnot
    rw [hem] at hnot
    rcases Nat.lt_or_ge i s.index with hlt | hge
    · obtain ⟨p, hp, hlost⟩ := h.covered i hstart hlt hnot
      exact ⟨p, List.mem_append_left _ hp, hlost⟩
    · exact ⟨(s, e), by simp, hge, by rw [hwidth]; exact hi⟩
  · rw [hem]
    simp only [reportedLost, List.map_append, List.map_cons, List.map_nil, List.sum_append,
      List.sum_cons, List.sum_nil, hwidth] at hcount ⊢
    omega

/-- Any accurate report extends the account. -/
theorem Accounted.report {start : Nat} {tr : List (RingSys × DrainEvent)} {s : RingSys}
    (h : Accounted start s.index tr) {e : DrainEvent} (hacc : Accurate s e) :
    Accounted start (s.index + e.width) (tr ++ [(s, e)]) := by
  cases e with
  | emit n ok => exact h.emit hacc
  | lost cursor count => exact h.lost hacc rfl rfl rfl
  | overwritten cursor => exact h.lost hacc rfl rfl rfl
  | tamper cursor => exact hacc.elim

/-- The reports of a run account for everything the reader has passed. -/
theorem ringRun_accounted (now : UInt64) (newOnly once : Bool) (maxAlerts : Int)
    (ops : List RingOp)
    (hlag : Along (RingSys.step mac) (RingSys.boot now newOnly once maxAlerts) ops
      fun s _ => s.lag < 2 ^ 32) :
    let s := exec (RingSys.step mac) (RingSys.boot now newOnly once maxAlerts) ops
    let tr := trace (RingSys.step mac) (RingSys.events mac)
      (RingSys.boot now newOnly once maxAlerts) ops
    RingInv mac s ∧ Accounted s.start s.index tr ∧ (s.pc = .connect → tr = []) := by
  induction ops using List.reverseRecOn with
  | nil =>
      refine ⟨⟨⟨rfl, rfl, ?_, Holds.nil _ _⟩, trivial⟩, Accounted.nil 0, fun _ => rfl⟩
      intro i n hn
      simp [RingSys.boot] at hn
  | append_singleton ops op ih =>
      obtain ⟨hinv, hacc, hconn⟩ := ih hlag.left
      intro s tr
      obtain ⟨hinv', heffect⟩ := hinv.act mac hlag.last op
      have hs : s = _ := exec_snoc _ _ _ _
      have htr : tr = _ := trace_snoc _ _ _ _ _
      rw [hs, htr]
      refine ⟨hinv', ?_⟩
      cases heffect with
      | quiet none index start pc =>
          rw [none, List.map_nil, List.append_nil, index, start]
          exact ⟨hacc, fun h => hconn (pc h)⟩
      | report e one accurate index start pc =>
          rw [one, index, start]
          exact ⟨hacc.report accurate, fun h => absurd h pc⟩
      | connected none start before pc =>
          rw [none, hconn before, start]
          exact ⟨Accounted.nil _, fun h => absurd h pc⟩

/-- What the reader passed between `start` and `index` without emitting it. -/
def skipped (s : RingSys) (tr : List (RingSys × DrainEvent)) : Finset Nat :=
  Finset.Ico s.start s.index \ (emitted tr).toFinset

theorem Accounted.card_skipped {s : RingSys} {tr : List (RingSys × DrainEvent)}
    (h : Accounted s.start s.index tr) : (skipped s tr).card = reportedLost tr := by
  have hsub : (emitted tr).toFinset ⊆ Finset.Ico s.start s.index := by
    intro i hi
    rw [List.mem_toFinset] at hi
    rw [Finset.mem_Ico]
    exact h.bounds i hi
  have hnodup : (emitted tr).Nodup := h.ordered.imp Nat.ne_of_lt
  unfold skipped
  rw [Finset.card_sdiff_of_subset hsub, Nat.card_Ico, List.toFinset_card_of_nodup hnodup]
  have := h.count
  omega

/--
**Delivered once, or reported lost.**  In every interleaving of publications with a
reader whose lag stays below `2 ^ 32`: what is emitted are genuine notifications at
strictly increasing positions, under the sequence numbers of those positions; every
position passed over is counted by exactly the loss reports, each of them raised when
the notification was already gone from the ring; and the numbers reported lost add up
to the number passed over.
-/
theorem delivered_once_or_reported (now : UInt64) (newOnly once : Bool) (maxAlerts : Int)
    (ops : List RingOp)
    (hlag : Along (RingSys.step mac) (RingSys.boot now newOnly once maxAlerts) ops
      fun s _ => s.lag < 2 ^ 32) :
    let s := exec (RingSys.step mac) (RingSys.boot now newOnly once maxAlerts) ops
    let tr := trace (RingSys.step mac) (RingSys.events mac)
      (RingSys.boot now newOnly once maxAlerts) ops
    (∀ p ∈ tr, Accurate p.1 p.2) ∧
    emittedSeqs tr = (emitted tr).map UInt32.ofNat ∧
    (emitted tr).Pairwise (· < ·) ∧
    (∀ i ∈ emitted tr, s.start ≤ i ∧ i < s.index) ∧
    (∀ i ∈ skipped s tr, ∃ p ∈ tr, ReportsLost p i ∧ Gone p.1 i) ∧
    reportedLost tr = (skipped s tr).card := by
  intro s tr
  obtain ⟨-, hacc, -⟩ := ringRun_accounted mac now newOnly once maxAlerts ops hlag
  refine ⟨hacc.accurate, hacc.seqs, hacc.ordered, hacc.bounds, ?_, hacc.card_skipped.symm⟩
  intro i hi
  simp only [skipped, Finset.mem_sdiff, Finset.mem_Ico, List.mem_toFinset] at hi
  obtain ⟨p, hp, hlost⟩ := hacc.covered i hi.1.1 hi.1.2 hi.2
  refine ⟨p, hp, hlost, ?_⟩
  have hacc' := hacc.accurate p hp
  obtain ⟨hle, hlt⟩ := hlost
  cases he : p.2 with
  | emit n ok => simp [he, DrainEvent.lostCount] at hlt; omega
  | lost cursor count =>
      rw [he] at hacc' hlt
      exact hacc'.2 i hle hlt
  | overwritten cursor =>
      rw [he] at hacc' hlt
      have hi' : i = p.1.index := Nat.le_antisymm (Nat.lt_succ_iff.mp hlt) hle
      rw [hi']
      exact hacc'.2
  | tamper cursor =>
      rw [he] at hacc'
      exact hacc'.elim

/-- Twenty critical alerts arrive while a connected reader is away; then it drains twice. -/
def lappedRun : List RingOp :=
  .read :: List.replicate 20 (.notify envZero ⟨kgAlertTextPatch, kgLevelCritical, 0, 0⟩)
    ++ List.replicate 20 .read

/-- It reports four of them lost and emits the other sixteen. -/
theorem delivered_once_or_reported_lapped :
    let tr := trace (RingSys.step checksumMac) (RingSys.events checksumMac)
      (RingSys.boot 0 false false 0) lappedRun
    reportedLost tr = 4 ∧ emitted tr = (List.range 16).map (· + 4) ∧
      emittedSeqs tr = (emitted tr).map UInt32.ofNat := by
  intro tr
  have h := delivered_once_or_reported checksumMac 0 false false 0 lappedRun (by decide +kernel)
  exact ⟨by decide +kernel, by decide +kernel, h.2.1⟩

end KernelGuard
