/-
What the monitor can make of a ring that an honest kernel writes.

The validity word of a slot is a constant, not a counter, so the reader's second look
at it cannot tell an untouched slot from one that was rewritten in the meantime.  As
long as no rewrite is completed in the slot that is just being copied, the seqlock
works: a copy between two valid looks is a copy of what was there, and the only
abnormal report is an overrun.  A rewrite that is completed there gets a mixture of
two notifications past the check, and it fails its HMAC.

The invariant says of every slot which of the last 16 notifications it holds, of the
writer's slot which words are already new, and of a copy in progress that it agrees
with the slot as long as the slot is valid.
-/
import KernelGuard.Model.Seqlock
import KernelGuard.Proofs.Drain

namespace KernelGuard

open Run Ring

variable (mac : List UInt8 → KgMac)

/-! ### Words

The kernel's stores and the reader's loads are of words, so a notification is taken
as a function of its words, and equal if it agrees in each.
-/

namespace Word

theorem get_move (src dst : KgNotification) (f g : Word) :
    g.get (f.move src dst) = if g = f then f.get src else g.get dst := by
  cases f <;> cases g <;> rfl

theorem mem_all (f : Word) : f ∈ all := by
  cases f <;> decide

theorem mem_body {f : Word} (h : f ≠ magic) : f ∈ body := by
  cases f <;> first | exact absurd rfl h | decide

theorem toUInt64_inj {a b : UInt32} (h : a.toUInt64 = b.toUInt64) : a = b := by
  have := congrArg UInt64.toUInt32 h
  simpa using this

/-- A notification is its words. -/
theorem ext {a b : KgNotification} (h : ∀ f : Word, f.get a = f.get b) : a = b := by
  obtain ⟨m, q, t, l, ts, p1, p2, a0, a1, a2, a3⟩ := a
  obtain ⟨m', q', t', l', ts', p1', p2', b0, b1, b2, b3⟩ := b
  have h0 : m = m' := toUInt64_inj (h magic)
  have h1 : q = q' := toUInt64_inj (h sequence)
  have h2 : t = t' := toUInt64_inj (h alertType)
  have h3 : l = l' := toUInt64_inj (h alertLevel)
  have h4 : ts = ts' := h timestamp
  have h5 : p1 = p1' := h param1
  have h6 : p2 = p2' := h param2
  have h7 : a0 = b0 := h hmac0
  have h8 : a1 = b1 := h hmac1
  have h9 : a2 = b2 := h hmac2
  have h10 : a3 = b3 := h hmac3
  subst h0 h1 h2 h3 h4 h5 h6 h7 h8 h9 h10
  rfl

/-- A store to the magic leaves the other words. -/
theorem get_setMagic {f : Word} (h : f ≠ magic) (d : KgNotification) (m : UInt32) :
    f.get { d with magic := m } = f.get d := by
  cases f <;> first | exact absurd rfl h | rfl

/-- Filling a word other than the magic leaves the magic. -/
theorem magic_move {f : Word} (h : f ≠ magic) (src dst : KgNotification) :
    (f.move src dst).magic = dst.magic := by
  cases f <;> first | exact absurd rfl h | rfl

end Word

/-! ### The writer

The writer's place says which words of its slot are new.  A store to a word moves one
from old to new, and the magic is stored last; only then do the words of the slot
belong together again.
-/

/-- An invalidated slot does not look valid. -/
theorem zero_ne_magic : (0 : UInt32) ≠ kgNotifyMagic := by decide

/-- How many notifications are begun but not counted. -/
def WriterPc.begun : WriterPc → Nat
  | .idle => 0
  | _ => 1

/-- What the writer has done to the slot of the next notification. -/
def WriterOK (slots : Fin kgNotifySlots → KgNotification) (len : Nat) : WriterPc → Prop
  | .idle => True
  | .invalidate n => Genuine mac len n
  | .fill n todo =>
      Genuine mac len n ∧ Word.magic ∉ todo ∧ (slots (cell kgNotifySlots len)).magic = 0 ∧
        ∀ f : Word, f ≠ .magic → f ∉ todo → f.get (slots (cell kgNotifySlots len)) = f.get n
  | .count n => Genuine mac len n ∧ slots (cell kgNotifySlots len) = n

/-- The shared page, with the writer anywhere in its program. -/
structure RegionOK (r : KgSharedRegion) (wr : WriterPc) (published : List KgNotification) :
    Prop where
  nonce : r.driverNonce = UInt32.ofNat (published.length + wr.begun)
  writeIndex : r.writeIndex = UInt32.ofNat published.length
  genuine : ∀ i n, published[i]? = some n → Genuine mac i n
  holds : Holds (published.length + wr.begun) r.notifications published
  authentic : ∀ j, (r.notifications j).magic = kgNotifyMagic →
    mac (r.notifications j).authBytes = (r.notifications j).hmac
  writer : WriterOK mac r.notifications published.length wr

theorem RegionOK.publish {s : SeqSys} (h : RegionOK mac s.ring s.writer s.published)
    (timestamp : UInt64) (a : Alert) :
    RegionOK mac (s.publish mac timestamp a).ring (s.publish mac timestamp a).writer
      (s.publish mac timestamp a).published := by
  unfold SeqSys.publish
  cases hwr : s.writer with
  | idle =>
      rw [hwr] at h
      have hnonce : s.ring.driverNonce = UInt32.ofNat s.published.length := h.nonce
      refine ⟨?_, h.writeIndex, h.genuine, h.holds.mono (Nat.le_succ _), h.authentic, ?_⟩
      · show s.ring.driverNonce + 1 = _
        rw [hnonce]
        exact serial_succ _
      · show Genuine mac _ _
        rw [hnonce]
        exact notificationOf_genuine mac _ _ _
  | invalidate n | fill n todo | count n =>
      simp only
      exact h

theorem slotOf_genuine {i : Nat} {n : KgNotification} (h : Genuine mac i n) :
    slotOf n.sequence = cell kgNotifySlots i := by
  rw [h.sequence, slotOf_ofNat]

/-- A store to the slot of the notification that has been begun. -/
theorem RegionOK.setSlot {r : KgSharedRegion} {wr wr' : WriterPc}
    {published : List KgNotification} (h : RegionOK mac r wr published) (x : KgNotification)
    (hbegun : wr.begun = 1) (hbegun' : wr'.begun = 1)
    (hx : x.magic = kgNotifyMagic → mac x.authBytes = x.hmac)
    (hwr : WriterOK mac (Function.update r.notifications (cell kgNotifySlots published.length) x)
      published.length wr') :
    RegionOK mac
      { r with notifications :=
          Function.update r.notifications (cell kgNotifySlots published.length) x }
      wr' published := by
  have hnonce := h.nonce
  have hholds := h.holds
  rw [hbegun] at hnonce hholds
  refine ⟨by rw [hbegun']; exact hnonce, h.writeIndex, h.genuine, ?_, ?_, hwr⟩
  · rw [hbegun']
    exact hholds.write x
  · intro j
    by_cases hj : j = cell kgNotifySlots published.length
    · subst hj
      simpa only [Function.update_self] using hx
    · simpa only [Function.update_of_ne hj] using h.authentic j

/-- A word filled in leaves one word less to fill. -/
theorem WriterOK.move {slots : Fin kgNotifySlots → KgNotification} {len : Nat}
    {n : KgNotification} {f : Word} {todo : List Word}
    (h : WriterOK mac slots len (.fill n (f :: todo))) :
    WriterOK mac
      (Function.update slots (cell kgNotifySlots len) (f.move n (slots (cell kgNotifySlots len))))
      len (.fill n todo) := by
  obtain ⟨hgen, hmagic, hzero, hfilled⟩ := h
  have hf : f ≠ .magic := fun h => hmagic (by simp [h])
  refine ⟨hgen, fun hm => hmagic (List.mem_cons_of_mem _ hm), ?_, ?_⟩
  · rw [Function.update_self, Word.magic_move hf, hzero]
  · intro g hg hnot
    rw [Function.update_self, Word.get_move]
    by_cases hgf : g = f
    · rw [if_pos hgf, hgf]
    · rw [if_neg hgf]
      exact hfilled g hg (by simp [hgf, hnot])

/-- Once all words but the magic are filled in, storing the magic completes the notification. -/
theorem WriterOK.setMagic {slots : Fin kgNotifySlots → KgNotification} {len : Nat}
    {n : KgNotification} (h : WriterOK mac slots len (.fill n [])) :
    { slots (cell kgNotifySlots len) with magic := kgNotifyMagic } = n := by
  obtain ⟨hgen, -, -, hfilled⟩ := h
  refine Word.ext fun f => ?_
  by_cases hf : f = .magic
  · rw [hf]
    show kgNotifyMagic.toUInt64 = n.magic.toUInt64
    rw [hgen.magic]
  · rw [Word.get_setMagic hf]
    exact hfilled f hf (by simp)

/-- Every store of `kg_comms_notify` keeps the page in order. -/
theorem RegionOK.store {s : SeqSys} (h : RegionOK mac s.ring s.writer s.published) :
    RegionOK mac s.store.ring s.store.writer s.store.published := by
  have hwriter := h.writer
  unfold SeqSys.store SeqSys.setSlot
  cases hwr : s.writer with
  | idle =>
      simp only
      exact h
  | invalidate n =>
      rw [hwr] at h hwriter
      simp only [slotOf_genuine mac hwriter]
      refine h.setSlot mac _ rfl rfl ?_ ?_
      · intro hmagic
        exact absurd hmagic zero_ne_magic
      · refine ⟨hwriter, by decide, by simp, ?_⟩
        intro f hf hbody
        exact absurd (Word.mem_body hf) hbody
  | fill n todo =>
      rw [hwr] at h hwriter
      have hgen := hwriter.1
      cases todo with
      | cons f todo =>
          have hmoved := hwriter.move mac
          simp only [slotOf_genuine mac hgen]
          refine h.setSlot mac _ rfl rfl ?_ hmoved
          -- the slot is still invalid
          intro hvalid
          have hzero := hmoved.2.2.1
          rw [Function.update_self, hvalid] at hzero
          exact absurd hzero.symm zero_ne_magic
      | nil =>
          have hslot := hwriter.setMagic mac
          simp only [slotOf_genuine mac hgen]
          refine h.setSlot mac _ rfl rfl ?_ ?_
          · rw [hslot]
            exact fun _ => hgen.hmac
          · exact ⟨hgen, by rw [Function.update_self, hslot]⟩
  | count n =>
      rw [hwr] at h hwriter
      obtain ⟨hgen, hslot⟩ := hwriter
      have hlen : (s.published ++ [n]).length = s.published.length + 1 := by simp
      refine ⟨?_, ?_, genuine_append mac h.genuine hgen, ?_, h.authentic, trivial⟩
      · rw [hlen]
        exact h.nonce
      · show n.sequence + 1 = _
        rw [hgen.sequence, hlen, serial_succ]
      · rw [hlen]
        exact h.holds.append hslot

/-- The number of counted notifications never goes down. -/
theorem published_store (s : SeqSys) : s.published.length ≤ s.store.published.length := by
  unfold SeqSys.store SeqSys.setSlot
  split
  all_goals first | exact Nat.le_refl _ | simp

/--
What a store does to a slot: nothing, or it leaves the slot invalid, or it is the one
store that makes the slot valid again.
-/
theorem store_slot {s : SeqSys} (h : RegionOK mac s.ring s.writer s.published)
    (j : Fin kgNotifySlots) :
    s.store.ring.notifications j = s.ring.notifications j ∨
      (s.store.ring.notifications j).magic = 0 ∨
      ∃ n, s.writer = .fill n [] ∧ j = slotOf n.sequence := by
  have hwriter := h.writer
  unfold SeqSys.store SeqSys.setSlot
  cases hwr : s.writer with
  | idle => exact Or.inl rfl
  | count n => exact Or.inl rfl
  | invalidate n =>
      by_cases hj : j = slotOf n.sequence
      · exact Or.inr (Or.inl (by simp [hj]))
      · exact Or.inl (Function.update_of_ne hj _ _)
  | fill n todo =>
      rw [hwr] at hwriter
      obtain ⟨hgen, hmagic, hzero, -⟩ := hwriter
      by_cases hj : j = slotOf n.sequence
      · cases todo with
        | nil => exact Or.inr (Or.inr ⟨n, rfl, hj⟩)
        | cons f todo =>
            refine Or.inr (Or.inl ?_)
            have hf : f ≠ .magic := fun h => hmagic (by simp [h])
            simp only [hj, Function.update_self]
            rw [Word.magic_move hf, slotOf_genuine mac hgen, hzero]
      · cases todo with
        | nil => exact Or.inl (Function.update_of_ne hj _ _)
        | cons f todo => exact Or.inl (Function.update_of_ne hj _ _)

/-! ### The reader

A copy agrees with its slot only while the slot is valid.  If the slot is invalid
when the reader looks again, the copy does not matter, and so nothing has to be said
of it.
-/

/-- As long as fewer than 16 notifications follow, a slot holds what the cursor expects. -/
theorem RegionOK.current {r : KgSharedRegion} {wr : WriterPc} {published : List KgNotification}
    (h : RegionOK mac r wr published) {i : Nat} (hi : i < published.length) :
    ((r.notifications (cell kgNotifySlots i)).magic = kgNotifyMagic ∧
        (r.notifications (cell kgNotifySlots i)).sequence = UInt32.ofNat i) ∨
      i + kgNotifySlots ≤ published.length := by
  rcases Nat.lt_or_ge published.length (i + kgNotifySlots) with hnear | hfar
  · left
    have hn := List.getElem?_eq_getElem hi
    have hbegun : wr.begun ≤ 1 := by cases wr <;> simp [WriterPc.begun]
    have hslot := h.holds i _ hn (by omega)
    have hgen := h.genuine i _ hn
    rw [hslot]
    exact ⟨hgen.magic, hgen.sequence⟩
  · exact Or.inr hfar

/-- A copy in progress agrees with its slot as long as the slot is valid. -/
structure CopyOK (slot : KgNotification) (cursor : UInt32) (late : Prop) (todo : List Word)
    (out : KgNotification) : Prop where
  copied : slot.magic = kgNotifyMagic → ∀ f, f ∉ todo → f.get out = f.get slot
  sequence : Word.sequence ∉ todo → out.sequence = cursor ∨ late

/-- What the reader's place in its program says; `late` positions have been given up. -/
def ReaderOK (slots : Fin kgNotifySlots → KgNotification) (cursor : UInt32) (index len : Nat) :
    ReaderPc → Prop
  | .connect => True
  | .first w _ => Synced cursor index len ∧ Ahead w index len
  | .copy w _ todo out =>
      Synced cursor index len ∧ Ahead w index len ∧
        CopyOK (slots (slotOf cursor)) cursor (index + kgNotifySlots ≤ len) todo out
  | .confirm w => Synced cursor index len ∧ Ahead w index len ∧ index + kgNotifySlots ≤ len
  | .load => Synced cursor index len
  | .loop => Synced cursor index len
  | .exited => Synced cursor index len

structure SeqInv (s : SeqSys) : Prop where
  region : RegionOK mac s.ring s.writer s.published
  reader : ReaderOK s.ring.notifications s.reader.cursor s.index s.published.length s.pc

/-- The store that makes a slot valid again lands in the slot the reader is copying. -/
def rewritesCopy (s : SeqSys) : SeqOp → Bool
  | .store =>
      match s.writer, s.pc with
      | .fill n [], .copy _ _ _ _ => slotOf n.sequence = slotOf s.reader.cursor
      | _, _ => false
  | _ => false

/-- The reader looks at `write_index` again when it is a whole turn of the counter behind. -/
def wrapsAround (s : SeqSys) : SeqOp → Bool
  | .read =>
      match s.pc with
      | .confirm _ => 2 ^ 32 ≤ s.published.length - s.index
      | _ => false
  | _ => false

/-- The condition on schedules: no step does either. -/
def Undisturbed (s : SeqSys) (op : SeqOp) : Prop :=
  rewritesCopy s op = false ∧ wrapsAround s op = false

instance (s : SeqSys) (op : SeqOp) : Decidable (Undisturbed s op) :=
  inferInstanceAs (Decidable (_ ∧ _))

/-- What the monitor may report of an honest kernel: authentic notifications, and overruns. -/
def DrainEvent.honest : DrainEvent → Bool
  | .emit _ hmacOk => hmacOk
  | .lost _ _ => true
  | .overwritten _ => true
  | .tamper _ => false

/-! ### The writer's steps, seen from the reader

A store either leaves the slot under the copy alone, or makes it invalid, or hits a
slot that is invalid already.  The fourth possibility, making it valid again, is the
one `rewritesCopy` excludes.
-/

/-- A copy survives any store that does not validate its slot. -/
theorem CopyOK.store {slot slot' : KgNotification} {cursor : UInt32} {late late' : Prop}
    {todo : List Word} {out : KgNotification} (h : CopyOK slot cursor late todo out)
    (hslot : slot' = slot ∨ slot'.magic = 0) (hlate : late → late') :
    CopyOK slot' cursor late' todo out := by
  refine ⟨fun hvalid => ?_, fun hseq => (h.sequence hseq).imp_right hlate⟩
  rcases hslot with hsame | hzero
  · rw [hsame] at hvalid ⊢
    exact h.copied hvalid
  · rw [hzero] at hvalid
    exact absurd hvalid zero_ne_magic

theorem SeqInv.store {s : SeqSys} (h : SeqInv mac s) (hcond : rewritesCopy s .store = false) :
    SeqInv mac s.store := by
  refine ⟨h.region.store mac, ?_⟩
  have hlen := published_store s
  have hkeep : s.store.pc = s.pc ∧ s.store.reader = s.reader ∧ s.store.index = s.index := by
    unfold SeqSys.store SeqSys.setSlot
    split <;> exact ⟨rfl, rfl, rfl⟩
  have hreader := h.reader
  obtain ⟨hpc, hr, hi⟩ := hkeep
  rw [hpc, hr, hi]
  cases hpc' : s.pc with
  | connect => trivial
  | load | loop | exited =>
      rw [hpc'] at hreader
      exact Synced.mono hreader hlen
  | first w tries =>
      rw [hpc'] at hreader
      exact ⟨hreader.1.mono hlen, hreader.2.mono hlen⟩
  | confirm w =>
      rw [hpc'] at hreader
      exact ⟨hreader.1.mono hlen, hreader.2.1.mono hlen, hreader.2.2.trans hlen⟩
  | copy w tries todo out =>
      rw [hpc'] at hreader
      obtain ⟨hsync, hahead, hcopy⟩ := hreader
      refine ⟨hsync.mono hlen, hahead.mono hlen, hcopy.store ?_ fun hlate => hlate.trans hlen⟩
      rcases store_slot mac h.region (slotOf s.reader.cursor) with hsame | hzero | ⟨n, hwr, hj⟩
      · exact Or.inl hsame
      · exact Or.inr hzero
      · -- the validating store is the one the schedule must not make here
        simp [rewritesCopy, hwr, hpc', hj] at hcond

/-! ### The reader's steps

One lemma for each load of the reader's program.  Each says where the reader goes and
what it reports, and that what it reports can be said of an honest kernel.
-/

section Step

variable {s : SeqSys}

/-- Behind a slot, or at the head of `drain`. -/
theorem ReaderOK.next {slots : Fin kgNotifySlots → KgNotification} {r : Reader}
    {index len : Nat} {w : UInt32} {W : Nat} (hsync : Synced r.cursor index len)
    (hw : w = UInt32.ofNat W) (hle : index ≤ W) (hring : W ≤ index + kgNotifySlots)
    (hpub : W ≤ len) : ReaderOK slots r.cursor index len (ReaderPc.next w r) := by
  unfold ReaderPc.next
  by_cases hmore : r.more w = true
  · rw [if_pos hmore]
    exact ⟨hsync, .of_more hsync hw hle hring hpub hmore⟩
  · rw [if_neg hmore]
    exact hsync

/-- A failed attempt: the notification has been given up, whichever load showed it. -/
theorem ReaderOK.retry {slots : Fin kgNotifySlots → KgNotification} {cursor : UInt32}
    {index len : Nat} {w : UInt32} (tries : Nat) (hsync : Synced cursor index len)
    (hahead : Ahead w index len) (hlate : index + kgNotifySlots ≤ len) :
    ReaderOK slots cursor index len (ReaderPc.retry w tries) := by
  unfold ReaderPc.retry
  split
  · exact ⟨hsync, hahead⟩
  · exact ⟨hsync, hahead, hlate⟩

/-- The slot under the cursor: it holds what is expected, or that has been given up. -/
theorem SeqInv.current (h : SeqInv mac s) {w : UInt32}
    (hsync : Synced s.reader.cursor s.index s.published.length)
    (hahead : Ahead w s.index s.published.length) :
    ((s.ring.notifications (slotOf s.reader.cursor)).magic = kgNotifyMagic ∧
        (s.ring.notifications (slotOf s.reader.cursor)).sequence = s.reader.cursor) ∨
      s.index + kgNotifySlots ≤ s.published.length := by
  have hi : s.index < s.published.length := by
    obtain ⟨W, -, hlt, -, hpub⟩ := hahead
    omega
  rw [hsync.cursor, slotOf_ofNat]
  exact h.region.current mac hi

/-- Reporting on a slot and leaving it behind. -/
theorem SeqInv.resume (h : SeqInv mac s) {w : UInt32}
    (hsync : Synced s.reader.cursor s.index s.published.length)
    (hahead : Ahead w s.index s.published.length) {r : Reader} {es : List DrainEvent}
    (hr : r.cursor = s.reader.cursor + 1) : SeqInv mac (s.resume w (r, es)).1 := by
  obtain ⟨W, hw, hlt, hring, hpub⟩ := hahead
  refine ⟨h.region, ReaderOK.next ⟨?_, ?_⟩ hw ?_ ?_ hpub⟩
  · show r.cursor = UInt32.ofNat (s.index + 1)
    rw [hr, hsync.cursor, serial_succ]
  · show s.index + 1 ≤ s.published.length
    omega
  · show s.index + 1 ≤ W
    omega
  · show W ≤ s.index + 1 + kgNotifySlots
    omega

/-- The head of `drain`: at most a ring behind, in the end. -/
theorem lapCheck_synced {r : Reader} {w : UInt32} {index len : Nat} (hw : w = UInt32.ofNat len)
    (hsync : Synced r.cursor index len) :
    Synced (r.lapCheck w).1.cursor (len - (w - (r.lapCheck w).1.cursor).toNat) len ∧
      (w - (r.lapCheck w).1.cursor).toNat ≤ kgNotifySlots := by
  have hback : (w - r.cursor).toNat ≤ len := by
    rw [hw, hsync.cursor, ← UInt32.ofNat_sub hsync.le, UInt32.toNat_ofNat']
    exact (Nat.mod_le _ _).trans (Nat.sub_le _ _)
  unfold Reader.lapCheck
  by_cases hlap : w - r.cursor > (16 : UInt32)
  · have hfar : 16 < (w - r.cursor).toNat := UInt32.lt_iff_toNat_lt.mp hlap
    have hring : w - (w - 16) = 16 := by grind
    rw [if_pos hlap]
    refine ⟨Synced.anchor hw ?_, ?_⟩
    · simp only [hring]
      exact (Nat.le_of_lt hfar).trans hback
    · simp only [hring]
      exact Nat.le_refl 16
  · rw [if_neg hlap]
    exact ⟨Synced.anchor hw hback, UInt32.le_iff_toNat_le.mp (UInt32.not_lt.mp hlap)⟩

theorem lapCheck_honest (w : UInt32) (r : Reader) : ∀ e ∈ (r.lapCheck w).2, e.honest = true := by
  unfold Reader.lapCheck
  split <;> simp [DrainEvent.honest]

/-- The first look at the magic. -/
theorem first_step (h : SeqInv mac s) {w : UInt32} {tries : Nat} (hpc : s.pc = .first w tries) :
    SeqInv mac (s.read mac).1 ∧ ∀ e ∈ (s.read mac).2, e.honest = true := by
  have hinv := h.reader
  rw [hpc] at hinv
  obtain ⟨hsync, hahead⟩ := hinv
  unfold SeqSys.read
  rw [hpc]
  simp only
  by_cases hmagic : (s.ring.notifications (slotOf s.reader.cursor)).magic ≠ kgNotifyMagic
  · rw [if_pos hmagic]
    rcases h.current mac hsync hahead with hcur | hlate
    · exact absurd hcur.1 hmagic
    · exact ⟨⟨h.region, ReaderOK.retry tries hsync hahead hlate⟩, by simp⟩
  · rw [if_neg hmagic]
    refine ⟨⟨h.region, hsync, hahead, ?_⟩, by simp⟩
    -- nothing is copied yet
    exact ⟨fun _ f hf => absurd (Word.mem_all f) hf, fun hf => absurd (Word.mem_all _) hf⟩

/-- One word of the `memcpy`. -/
theorem copy_step (h : SeqInv mac s) {w : UInt32} {tries : Nat} {f : Word} {todo : List Word}
    {out : KgNotification} (hpc : s.pc = .copy w tries (f :: todo) out) :
    SeqInv mac (s.read mac).1 ∧ ∀ e ∈ (s.read mac).2, e.honest = true := by
  have hinv := h.reader
  rw [hpc] at hinv
  obtain ⟨hsync, hahead, hcopy⟩ := hinv
  unfold SeqSys.read
  rw [hpc]
  refine ⟨⟨h.region, hsync, hahead, ?_, ?_⟩, by simp⟩
  · intro hvalid g hg
    rw [Word.get_move]
    by_cases hgf : g = f
    · rw [if_pos hgf, hgf]
    · rw [if_neg hgf]
      exact hcopy.copied hvalid g (by simp [hgf, hg])
  · intro hseq
    by_cases hf : f = .sequence
    · rw [hf]
      exact (h.current mac hsync hahead).imp_left fun hcur => hcur.2
    · have hout := hcopy.sequence (by simp [Ne.symm hf, hseq])
      have hkeep : (f.move (s.ring.notifications (slotOf s.reader.cursor)) out).sequence
          = out.sequence := by
        cases f <;> first | exact absurd rfl hf | rfl
      rw [hkeep]
      exact hout

/-- The second look at the magic: a slot that is still valid was copied as it stands. -/
theorem second_step (h : SeqInv mac s) {w : UInt32} {tries : Nat} {out : KgNotification}
    (hpc : s.pc = .copy w tries [] out) :
    SeqInv mac (s.read mac).1 ∧ ∀ e ∈ (s.read mac).2, e.honest = true := by
  have hinv := h.reader
  rw [hpc] at hinv
  obtain ⟨hsync, hahead, hcopy⟩ := hinv
  unfold SeqSys.read
  rw [hpc]
  simp only
  by_cases hmagic : (s.ring.notifications (slotOf s.reader.cursor)).magic ≠ kgNotifyMagic
  · rw [if_pos hmagic]
    rcases h.current mac hsync hahead with hcur | hlate
    · exact absurd hcur.1 hmagic
    · exact ⟨⟨h.region, ReaderOK.retry tries hsync hahead hlate⟩, by simp⟩
  · rw [if_neg hmagic]
    have hvalid := not_not.mp hmagic
    have hout : out = s.ring.notifications (slotOf s.reader.cursor) :=
      Word.ext fun f => hcopy.copied hvalid f (by simp)
    by_cases hseq : out.sequence = s.reader.cursor
    · rw [if_pos hseq]
      refine ⟨h.resume mac hsync hahead rfl, ?_⟩
      have hauth := h.region.authentic _ hvalid
      rw [← hout] at hauth
      simp [SeqSys.resume, Reader.accept, DrainEvent.honest, hauth]
    · rw [if_neg hseq]
      have hlate := (hcopy.sequence (by simp)).resolve_left hseq
      exact ⟨⟨h.region, hsync, hahead, hlate⟩, by simp⟩

/-- The second look at `write_index`: it shows that the notification had been given up. -/
theorem seqConfirm_step (h : SeqInv mac s) {w : UInt32} (hpc : s.pc = .confirm w)
    (hcond : wrapsAround s .read = false) :
    SeqInv mac (s.read mac).1 ∧ ∀ e ∈ (s.read mac).2, e.honest = true := by
  have hinv := h.reader
  rw [hpc] at hinv
  obtain ⟨hsync, hahead, hlate⟩ := hinv
  have hnear : s.published.length - s.index < 2 ^ 32 := by
    simpa [wrapsAround, hpc] using hcond
  have hover : s.ring.writeIndex - s.reader.cursor > (16 - 1 : UInt32) := by
    refine UInt32.lt_iff_toNat_lt.mpr ?_
    rw [h.region.writeIndex, hsync.cursor, serial_sub hsync.le hnear]
    show 15 < s.published.length - s.index
    have : kgNotifySlots = 16 := rfl
    omega
  unfold SeqSys.read
  rw [hpc]
  simp only [Reader.reject, if_pos hover]
  refine ⟨h.resume mac hsync hahead rfl, ?_⟩
  simp [SeqSys.resume, DrainEvent.honest]

/-- Every load of the reader keeps the invariant and reports nothing worse than an overrun. -/
theorem SeqInv.read (h : SeqInv mac s) (hcond : wrapsAround s .read = false) :
    SeqInv mac (s.read mac).1 ∧ ∀ e ∈ (s.read mac).2, e.honest = true := by
  have hinv := h.reader
  cases hpc : s.pc with
  | first w tries => exact first_step mac h hpc
  | copy w tries todo out =>
      cases todo with
      | nil => exact second_step mac h hpc
      | cons f todo => exact copy_step mac h hpc
  | confirm w => exact seqConfirm_step mac h hpc hcond
  | connect =>
      unfold SeqSys.read
      rw [hpc]
      exact ⟨⟨h.region, connect_synced h.region.writeIndex s.reader⟩, by simp⟩
  | load =>
      rw [hpc] at hinv
      obtain ⟨hsync, hring⟩ := lapCheck_synced h.region.writeIndex hinv
      have hle := hsync.le
      unfold SeqSys.read
      rw [hpc]
      have hnear : s.published.length
          ≤ s.published.length - (s.ring.writeIndex - (s.reader.lapCheck s.ring.writeIndex).1.cursor).toNat
            + kgNotifySlots := by
        omega
      exact ⟨⟨h.region, ReaderOK.next hsync h.region.writeIndex hle hnear (Nat.le_refl _)⟩,
        lapCheck_honest _ _⟩
  | loop =>
      rw [hpc] at hinv
      unfold SeqSys.read
      rw [hpc]
      simp only
      split
      · exact ⟨⟨h.region, hinv⟩, by simp⟩
      · exact ⟨⟨h.region, hinv⟩, by simp⟩
  | exited =>
      have hsame : s.read mac = (s, []) := by
        unfold SeqSys.read
        rw [hpc]
      rw [hsame]
      exact ⟨h, by simp⟩

/-- Every step of an undisturbed schedule. -/
theorem SeqInv.act (h : SeqInv mac s) (op : SeqOp) (hcond : Undisturbed s op) :
    SeqInv mac (s.step mac op) ∧ ∀ e ∈ s.events mac op, e.honest = true := by
  cases op with
  | publish timestamp a =>
      refine ⟨⟨h.region.publish mac timestamp a, ?_⟩, by simp [SeqSys.events, SeqSys.act]⟩
      have hinv := h.reader
      simp only [SeqSys.step, SeqSys.act, SeqSys.publish]
      split
      · exact hinv
      · exact hinv
  | store => exact ⟨h.store mac hcond.1, by simp [SeqSys.events, SeqSys.act]⟩
  | read => exact h.read mac hcond.2
  | signal => exact ⟨⟨h.region, h.reader⟩, by simp [SeqSys.events, SeqSys.act]⟩

end Step

/-! ### The accesses of one thread alone

The other files take `kg_comms_notify` and `read_slot` as single steps.  This is the
connection: run without interruption, the stores and the loads amount to those
steps.
-/

/-- One publication from start to end, with nothing in between. -/
def publication (timestamp : UInt64) (a : Alert) : List SeqOp :=
  .publish timestamp a :: List.replicate 13 .store

/--
The stores of a publication, run without interruption, amount to the single step that
`kg_comms_notify` is in the other modules.
-/
theorem publication_publishes (s : SeqSys) (hidle : s.writer = .idle) (timestamp : UInt64)
    (a : Alert) :
    exec (SeqSys.step mac) s (publication timestamp a)
      = { s with
          ring := s.ring.publish (notificationOf mac s.ring.driverNonce timestamp a)
          published := s.published ++ [notificationOf mac s.ring.driverNonce timestamp a] } := by
  obtain ⟨ring, writer, reader, pc, published, index⟩ := s
  subst hidle
  simp [publication, List.replicate, SeqSys.step, SeqSys.act, SeqSys.publish, SeqSys.store,
    SeqSys.setSlot, Word.body, Word.move, KgSharedRegion.publish, notificationOf]

/-- And the loads of an uninterrupted `read_slot` copy the slot as it stands. -/
theorem reads_copy_slot (s : SeqSys) {w : UInt32} {tries : Nat} (hpc : s.pc = .first w tries)
    (hvalid : (s.ring.notifications (slotOf s.reader.cursor)).magic = kgNotifyMagic) :
    exec (SeqSys.step mac) s (List.replicate 12 .read)
      = { s with pc := .copy w tries [] (s.ring.notifications (slotOf s.reader.cursor)) } := by
  obtain ⟨ring, writer, reader, pc, published, index⟩ := s
  subst hpc
  simp only at hvalid
  simp [List.replicate, SeqSys.step, SeqSys.act, SeqSys.read, Word.all, Word.move, hvalid]
  rw [← hvalid]

/-! ### Whole schedules -/

theorem seqBoot_inv (newOnly once : Bool) (maxAlerts : Int) :
    SeqInv mac (SeqSys.boot newOnly once maxAlerts) := by
  refine ⟨⟨rfl, rfl, ?_, Holds.nil _ _, ?_, trivial⟩, trivial⟩
  · intro i n hn
    simp [SeqSys.boot] at hn
  · intro j hvalid
    exact absurd hvalid zero_ne_magic

/--
**The seqlock, as far as it holds.**  In every interleaving of the kernel's stores
with the reader's loads in which no rewrite is completed in the slot that is being
copied, and the reader is not a whole turn of the counter behind when it looks at
`write_index` again: every notification that is emitted passes its HMAC check, and no
tampering is reported.  Overruns are the reader's only abnormal outcome.
-/
theorem undisturbed_reader_honest (newOnly once : Bool) (maxAlerts : Int) (ops : List SeqOp)
    (hcond : Along (SeqSys.step mac) (SeqSys.boot newOnly once maxAlerts) ops Undisturbed) :
    ∀ p ∈ trace (SeqSys.step mac) (SeqSys.events mac) (SeqSys.boot newOnly once maxAlerts) ops,
      p.2.honest = true := by
  have hrun : SeqInv mac (exec (SeqSys.step mac) (SeqSys.boot newOnly once maxAlerts) ops) ∧
      ∀ p ∈ trace (SeqSys.step mac) (SeqSys.events mac) (SeqSys.boot newOnly once maxAlerts) ops,
        p.2.honest = true := by
    induction ops using List.reverseRecOn with
    | nil => exact ⟨seqBoot_inv mac newOnly once maxAlerts, by simp [trace]⟩
    | append_singleton ops op ih =>
        obtain ⟨hinv, htrace⟩ := ih hcond.left
        obtain ⟨hinv', hhonest⟩ := hinv.act mac op hcond.last
        rw [exec_snoc, trace_snoc]
        refine ⟨hinv', ?_⟩
        intro p hp
        rcases List.mem_append.mp hp with hold | hnew
        · exact htrace p hold
        · obtain ⟨e, he, rfl⟩ := List.mem_map.mp hnew
          exact hhonest e he
  exact hrun.2

/-- Sixteen notifications, and a reader that takes the first three while the next is written. -/
def quietSchedule : List SeqOp :=
  (List.replicate 16 (publication 0 ⟨kgAlertTextPatch, kgLevelCritical, 0, 0⟩)).flatten
    ++ List.replicate 15 .read ++ [.publish 0 ⟨kgAlertTextPatch, kgLevelCritical, 1, 1⟩, .store]
    ++ List.replicate 26 .read

/-- A reader whose slots are left alone emits them, and each passes its HMAC check. -/
theorem undisturbed_reader_honest_quiet :
    let tr := trace (SeqSys.step checksumMac) (SeqSys.events checksumMac)
      (SeqSys.boot false false 0) quietSchedule
    tr.length = 3 ∧ ∀ p ∈ tr, p.2.honest = true := by
  intro tr
  exact ⟨by decide +kernel,
    undisturbed_reader_honest checksumMac false false 0 quietSchedule (by decide +kernel)⟩

/-- Whatever the schedule, an honest kernel is only ever reported for overruns. -/
def HonestKernelHonestReader : Prop :=
  ∀ (mac : List UInt8 → KgMac) (newOnly once : Bool) (maxAlerts : Int) (ops : List SeqOp),
    ∀ p ∈ trace (SeqSys.step mac) (SeqSys.events mac) (SeqSys.boot newOnly once maxAlerts) ops,
      p.2.honest = true

/--
Notification 0 is under the cursor with notifications 1 to 15 behind it.  The reader
has copied its magic and its sequence number when notification 16 is published into
the same slot; then it copies the rest.
-/
def tornSchedule : List SeqOp :=
  (List.replicate 16 (publication 0 ⟨kgAlertTextPatch, kgLevelCritical, 0, 0⟩)).flatten
    ++ List.replicate 5 .read ++ publication 0 ⟨kgAlertTextPatch, kgLevelCritical, 1, 1⟩
    ++ List.replicate 10 .read

/-- Both looks at the magic find it valid, and the mixture fails its HMAC check. -/
theorem complete_rewrite_fails_hmac : ¬ HonestKernelHonestReader := by
  intro h
  have hall := h checksumMac false false 0 tornSchedule
  have htorn : ∃ p ∈ trace (SeqSys.step checksumMac) (SeqSys.events checksumMac)
      (SeqSys.boot false false 0) tornSchedule, p.2.honest = false := by
    decide +kernel
  obtain ⟨p, hp, hfalse⟩ := htorn
  rw [hall p hp] at hfalse
  exact absurd hfalse (by decide)

end KernelGuard
