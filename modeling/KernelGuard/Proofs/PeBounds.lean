/-
The Authenticode walk stays in the file and does a bounded amount of work.

`Update` may do anything here, also fail.  `logged` puts a log of what it was handed beside its
context; the walk never looks at the log, so what is proved of it holds of every run
(`forgets_walk`).

The work bound rests on the running total: `Fed f n log` says that the log holds pieces of the
file, each of at most `PEA_CHUNK` bytes, and no more than `n` bytes of them.  Every part of the
walk is a triple that moves `n` on, to `sizeOfHeaders` behind the headers, to `sum` behind the
sections and to the length of the file at the end.
-/
import KernelGuard.Proofs.Authenticode
import KernelGuard.Lib.Hoare

namespace KernelGuard

open Hoare Pe

variable {σ : Type}

/-- `Update` with a log of the data it was handed. -/
def logged (update : σ → List UInt8 → Int × σ) (s : σ × List (List UInt8)) (data : List UInt8) :
    Int × σ × List (List UInt8) :=
  ((update s.1 data).1, (update s.1 data).2, s.2 ++ [data])

/-- A part of the file that one call may take. -/
def ChunkOf (f : PeFile) (data : List UInt8) : Prop :=
  ∃ off, off + data.length ≤ f.length ∧ data = slice f.bytes off data.length ∧
    1 ≤ data.length ∧ data.length ≤ peaChunk

structure Fed (f : PeFile) (n : Nat) (log : List (List UInt8)) : Prop where
  chunks : ∀ data ∈ log, ChunkOf f data
  total : (log.map List.length).sum ≤ n

/-- How the walk may stop early: with a return code, and within the work bound. -/
def Stopped (f : PeFile) (e : PeaStop) (s : σ × List (List UInt8)) : Prop :=
  e ≠ .fault ∧ Fed f f.length s.2

theorem ret_ne_fault (e : PeaRc) : PeaStop.ret e ≠ .fault := by simp

section Log

variable {f : PeFile} {n m : Nat} {log : List (List UInt8)}

theorem Fed.nil : Fed f 0 [] := ⟨nofun, Nat.le_refl 0⟩

theorem Fed.mono (h : Fed f n log) (hle : n ≤ m) : Fed f m log :=
  ⟨h.chunks, Nat.le_trans h.total hle⟩

theorem Fed.snoc {off k : Nat} (h : Fed f n log) (hin : off + k ≤ f.length) (hpos : 1 ≤ k)
    (hmax : k ≤ peaChunk) : Fed f (n + k) (log ++ [slice f.bytes off k]) := by
  have hlen : (slice f.bytes off k).length = k := length_slice_of_le hin
  constructor
  · intro data hmem
    rcases List.mem_append.mp hmem with hold | hnew
    · exact h.chunks data hold
    · rw [List.mem_singleton.mp hnew]
      refine ⟨off, ?_, ?_, ?_, ?_⟩
      · rw [hlen]
        exact hin
      · rw [hlen]
      · rw [hlen]
        exact hpos
      · rw [hlen]
        exact hmax
  · have htotal := h.total
    rw [List.map_append, List.sum_append, List.map_singleton, List.sum_singleton, hlen]
    omega

end Log

/-! ### One range

A range is handed over in pieces, and the loop ends early only when `Update` fails.
Its triple says that the bound goes on by the length of the range, and `Stopped`
covers the early end.
-/

section Range

variable {f : PeFile} {update : σ → List UInt8 → Int × σ} {n : Nat}

theorem callUpdate_triple {off k : Nat} (hin : off + k ≤ f.length) (hpos : 1 ≤ k)
    (hmax : k ≤ peaChunk) (hroom : n + k ≤ f.length) :
    Triple (fun s => Fed f n s.2) (callUpdate f (logged update) off k)
      (fun _ s => Fed f (n + k) s.2) (Stopped f) := by
  intro s hs
  have hfed : Fed f (n + k) (logged update s (slice f.bytes off k)).2.2 :=
    hs.snoc hin hpos hmax
  rw [callUpdate, PeFile.read_ok hin]
  dsimp only
  by_cases hrc : (logged update s (slice f.bytes off k)).1 ≠ 0
  · rw [if_pos hrc]
    exact ⟨ret_ne_fault _, hfed.mono hroom⟩
  · rw [if_neg hrc]
    exact hfed

theorem hashRangeLoop_triple {fuel off len : Nat} (hfuel : len ≤ fuel)
    (hin : off + len ≤ f.length) (hroom : n + len ≤ f.length) :
    Triple (fun s => Fed f n s.2) (hashRangeLoop f (logged update) fuel off len)
      (fun _ s => Fed f (n + len) s.2) (Stopped f) := by
  have hlt := f.length_lt
  have hf : f.length = f.bytes.length := rfl
  induction fuel generalizing n off len with
  | zero =>
      have hlen : len = 0 := by omega
      subst hlen
      exact Triple.pure fun s hs => hs
  | succ fuel ih =>
      rcases Nat.eq_zero_or_pos len with hlen | hpos
      · subst hlen
        exact Triple.pure fun s hs => hs
      -- a call for `k` bytes, and the rest of the loop
      generalize hk : (if len > peaChunk then peaChunk else len) = k
      have hkpos : 1 ≤ k := by
        rw [← hk, peaChunk]
        split <;> omega
      have hkmax : k ≤ peaChunk := by
        rw [← hk]
        split <;> omega
      have hkle : k ≤ len := by
        rw [← hk]
        split <;> omega
      have hstep : hashRangeLoop f (logged update) (fuel + 1) off len = (do
          callUpdate f (logged update) off k
          hashRangeLoop f (logged update) fuel (off + k) (len - k)) := by
        rw [hashRangeLoop, hk, u64_of_lt (by omega), sub64_of_le (by omega) hkle]
        exact Nat.ne_of_gt hpos
      have hrest := @ih (n + k) (off + k) (len - k) (by omega) (by omega) (by omega)
      rw [show n + k + (len - k) = n + len by omega] at hrest
      rw [hstep]
      exact (callUpdate_triple (by omega) hkpos hkmax (by omega)).bind fun _ => hrest

/-- A range takes the bound on, at least by its length. -/
theorem hashRange_triple {off len m : Nat} (hin : off + len ≤ f.length) (hroom : n + len ≤ m)
    (hm : m ≤ f.length) :
    Triple (fun s => Fed f n s.2) (hashRange f (logged update) off len)
      (fun _ s => Fed f m s.2) (Stopped f) :=
  (hashRangeLoop_triple (Nat.le_refl len) hin (by omega)).ensure fun _ _ hfed => hfed.mono hroom

end Range

/-! ### Headers, sections, tail

The parts follow each other, and the bound at the end of one is the bound at the
start of the next.  The sections add up to no more than the file because the walk
keeps their total and compares it, not because they were disjoint: two rows may name
the same bytes.
-/

section Parts

variable {f : PeFile} {update : σ → List UInt8 → Int × σ}

theorem hashHeaders_triple (hok : HeadersOk f.bytes) :
    Triple (fun s => Fed f 0 s.2) (hashHeaders f (logged update) (layout f.bytes))
      (fun _ s => Fed f (headerSize f.bytes) s.2) (Stopped f) := by
  have hlt := f.length_lt
  have hf : f.length = f.bytes.length := rfl
  have hend := hok.2.headersEnd
  have hchk := hok.2.checksum
  have hrest : u64 (checksumOff f.bytes + 4) = checksumOff f.bytes + 4 := u64_of_lt (by omega)
  have hlay : (layout f.bytes).certEntry = certEntry f.bytes := rfl
  rw [hashHeaders, hlay]
  have hfirst : Triple (fun s => Fed f 0 s.2)
      (hashRange f (logged update) 0 (checksumOff f.bytes))
      (fun _ s => Fed f (checksumOff f.bytes) s.2) (Stopped f) :=
    hashRange_triple (by omega) (by omega) (by omega)
  refine hfirst.bind fun _ => ?_
  cases hcert : certEntry f.bytes with
  | none =>
      show Triple _ (hashRange f (logged update) (u64 (checksumOff f.bytes + 4))
        (sub64 (headerSize f.bytes) (u64 (checksumOff f.bytes + 4)))) _ _
      rw [hrest, sub64_of_le (by omega) hchk]
      exact hashRange_triple (by omega) (by omega) (by omega)
  | some e =>
      obtain ⟨hlow, hhigh⟩ := hok.2.cert e hcert
      have hrest8 : u64 (e + 8) = e + 8 := u64_of_lt (by omega)
      show Triple _ (hashRange f (logged update) (u64 (checksumOff f.bytes + 4))
        (sub64 e (u64 (checksumOff f.bytes + 4))) >>= fun _ =>
          hashRange f (logged update) (u64 (e + 8))
            (sub64 (headerSize f.bytes) (u64 (e + 8)))) _ _
      rw [hrest, hrest8, sub64_of_le (by omega) hlow, sub64_of_le (by omega) hhigh]
      have hgap : Triple (fun s => Fed f (checksumOff f.bytes) s.2)
          (hashRange f (logged update) (checksumOff f.bytes + 4) (e - (checksumOff f.bytes + 4)))
          (fun _ s => Fed f e s.2) (Stopped f) :=
        hashRange_triple (by omega) (by omega) (by omega)
      exact hgap.bind fun _ => hashRange_triple (by omega) (by omega) (by omega)

/-- What the loop over the sections keeps: the total is that of the log, it is within the file,
and no addition that is still to come can wrap. -/
def SectionsFed (f : PeFile) (sum : Nat) (rest : List PeaSection)
    (s : σ × List (List UInt8)) : Prop :=
  ((∀ t ∈ rest, t.offset < 2 ^ 32 ∧ t.size < 2 ^ 32) ∧
    sum + rest.length * 2 ^ 32 < 2 ^ 64 ∧ sum ≤ f.length) ∧ Fed f sum s.2

theorem hashSection_triple (sum : Nat) (t : PeaSection) (rest : List PeaSection) :
    Triple (SectionsFed f sum (t :: rest)) (hashSection f (logged update) sum t)
      (fun sum' => SectionsFed f sum' rest) (Stopped f) := by
  refine Triple.assume fun hfits => ?_
  obtain ⟨hsmall, hsum, hle⟩ := hfits
  obtain ⟨hoff, hsize⟩ := hsmall t List.mem_cons_self
  have hrest : ∀ t' ∈ rest, t'.offset < 2 ^ 32 ∧ t'.size < 2 ^ 32 :=
    fun t' ht => hsmall t' (List.mem_cons_of_mem t ht)
  rw [List.length_cons] at hsum
  have hnext : sum + t.size + rest.length * 2 ^ 32 < 2 ^ 64 := by omega
  rw [hashSection, u64_of_lt (by omega), u64_of_lt (by omega)]
  by_cases hzero : t.size = 0
  · rw [if_pos hzero]
    rw [hzero, Nat.add_zero] at hnext
    exact Triple.pure fun s hs => ⟨⟨hrest, hnext, hle⟩, hs⟩
  rw [if_neg hzero]
  by_cases hout : t.offset + t.size > f.length ∨ sum + t.size > f.length
  · rw [if_pos hout]
    exact Triple.throw fun s hs => ⟨ret_ne_fault _, hs.mono hle⟩
  · rw [if_neg hout]
    have hfits : sum + t.size ≤ f.length := by omega
    have hrange : Triple (fun s => Fed f sum s.2)
        (hashRange f (logged update) t.offset t.size)
        (fun _ s => Fed f (sum + t.size) s.2) (Stopped f) :=
      hashRange_triple (by omega) (Nat.le_refl _) hfits
    refine hrange.bind fun _ => ?_
    exact Triple.pure fun s hs => ⟨⟨hrest, hnext, hfits⟩, hs⟩

theorem hashTail_triple {sum : Nat} (hle : sum ≤ f.length) :
    Triple (fun s => Fed f sum s.2) (hashTail f (logged update) (layout f.bytes) sum)
      (fun _ s => Fed f f.length s.2) (Stopped f) := by
  have hlt := f.length_lt
  have hf : f.length = f.bytes.length := rfl
  have hextra : sub64 f.length sum = f.length - sum := sub64_of_le hlt hle
  simp only [hashTail, hextra]
  by_cases hmore : f.length > sum
  swap
  · rw [if_neg hmore]
    exact Triple.pure fun s hs => hs.mono hle
  rw [if_pos hmore]
  by_cases hzero : (layout f.bytes).certSize = 0
  · rw [if_pos hzero]
    exact hashRange_triple (by omega) (by omega) (Nat.le_refl _)
  rw [if_neg hzero]
  by_cases hout : u64 ((layout f.bytes).certOff + (layout f.bytes).certSize) > f.length ∨
      (layout f.bytes).certSize > f.length - sum
  · rw [if_pos hout]
    exact Triple.throw fun s hs => ⟨ret_ne_fault _, hs.mono hle⟩
  · rw [if_neg hout, sub64_of_le (by omega) (by omega)]
    exact hashRange_triple (by omega) (by omega) (Nat.le_refl _)

/-- A part of the walk that does not touch the context and judges its input. -/
theorem lift_triple {α : Type} {c : Prop} {a : α} {x : Except PeaStop α} {n : Nat}
    {β : Type} {k : α → EStateM PeaStop (σ × List (List UInt8)) β}
    {Q : β → σ × List (List UInt8) → Prop} (hx : Judges FormatStop c a x) (hn : n ≤ f.length)
    (hk : c → Triple (fun s => Fed f n s.2) (k a) Q (Stopped f)) :
    Triple (fun s => Fed f n s.2) (PeaStop.lift x >>= k) Q (Stopped f) := by
  by_cases hc : c
  · rw [hx.1 hc]
    exact hk hc
  · obtain ⟨e, hstop, he⟩ := hx.2 hc
    rw [he, show e = .ret .eFormat from hstop]
    exact fun s hs => ⟨ret_ne_fault _, hs.mono hn⟩

theorem peaWalk_triple (f : PeFile) (update : σ → List UInt8 → Int × σ) :
    Triple (fun s => Fed f 0 s.2) (peaWalk f (logged update))
      (fun _ s => Fed f f.length s.2) (Stopped f) := by
  rw [peaWalk]
  refine lift_triple (peaLayout_judges f) (Nat.zero_le _) fun hok => ?_
  obtain ⟨l, hlen, hsort, hread⟩ := readSections_round hok (Nat.le_refl _)
  have hsections : Judges FormatStop True _ (readSections f (layout f.bytes)) :=
    ⟨fun _ => hread, fun h => absurd trivial h⟩
  refine lift_triple hsections (Nat.zero_le _) fun _ => ?_
  refine (hashHeaders_triple hok).bind fun _ => ?_
  rw [foldlM_getSection (logged update) hlen]
  obtain ⟨hsmall, hroom⟩ := sections_small hok hlen hsort
  have hsecs : Triple (fun s => Fed f (headerSize f.bytes) s.2)
      (l.foldlM (hashSection f (logged update)) (headerSize f.bytes))
      (fun sum => SectionsFed f sum []) (Stopped f) := fun s hs =>
    Triple.foldlM hashSection_triple _ l s ⟨⟨hsmall, hroom, hok.2.headersEnd⟩, hs⟩
  exact hsecs.bind fun sum => Triple.assume fun hend => hashTail_triple hend.2.2

end Parts

/-! ### The log is a ghost

Two runs, one with the log and one without, take the same steps, because no step
reads the log.  This is shown part by part, with the same case splits as the walk
itself.
-/

section Ghost

variable {f : PeFile} {update : σ → List UInt8 → Int × σ}

theorem forgets_lift {α : Type} (x : Except PeaStop α) :
    Forgets (PeaStop.lift x : EStateM PeaStop (σ × List (List UInt8)) α) (PeaStop.lift x) := by
  intro s t
  cases x with
  | ok a => rfl
  | error e => rfl

theorem forgets_callUpdate (off n : Nat) :
    Forgets (callUpdate f (logged update) off n) (callUpdate f update off n) := by
  intro s t
  rw [callUpdate, callUpdate]
  cases f.read off n with
  | error e => rfl
  | ok data =>
      dsimp only [logged]
      by_cases hrc : (update s data).1 ≠ 0
      · rw [if_pos hrc, if_pos hrc]
        rfl
      · rw [if_neg hrc, if_neg hrc]
        rfl

theorem forgets_hashRangeLoop (fuel off len : Nat) :
    Forgets (hashRangeLoop f (logged update) fuel off len)
      (hashRangeLoop f update fuel off len) := by
  induction fuel, off, len using hashRangeLoop.induct with
  | case1 fuel off =>
      rw [hashRangeLoop, hashRangeLoop]
      exact Forgets.pure ()
  | case2 off len => exact Forgets.throw _
  | case3 fuel off len hlen n ih =>
      rw [hashRangeLoop, hashRangeLoop]
      · exact (forgets_callUpdate _ _).bind fun _ => ih
      · exact hlen
      · exact hlen

theorem forgets_hashRange (off len : Nat) :
    Forgets (hashRange f (logged update) off len) (hashRange f update off len) :=
  forgets_hashRangeLoop len off len

theorem forgets_hashHeaders (lay : PeaLayout) :
    Forgets (hashHeaders f (logged update) lay) (hashHeaders f update lay) := by
  rw [hashHeaders, hashHeaders]
  refine (forgets_hashRange _ _).bind fun _ => ?_
  cases lay.certEntry with
  | none => exact forgets_hashRange _ _
  | some e => exact (forgets_hashRange _ _).bind fun _ => forgets_hashRange _ _

theorem forgets_hashSection (sum : Nat) (t : PeaSection) :
    Forgets (hashSection f (logged update) sum t) (hashSection f update sum t) := by
  rw [hashSection, hashSection]
  split
  · exact Forgets.pure sum
  split
  · exact Forgets.throw _
  · exact (forgets_hashRange _ _).bind fun _ => Forgets.pure _

theorem forgets_hashTail (lay : PeaLayout) (sum : Nat) :
    Forgets (hashTail f (logged update) lay sum) (hashTail f update lay sum) := by
  rw [hashTail, hashTail]
  split
  · dsimp only
    split
    · exact forgets_hashRange _ _
    split
    · exact Forgets.throw _
    · exact forgets_hashRange _ _
  · exact Forgets.pure ()

theorem forgets_peaWalk (f : PeFile) (update : σ → List UInt8 → Int × σ) :
    Forgets (peaWalk f (logged update)) (peaWalk f update) := by
  rw [peaWalk, peaWalk]
  refine (forgets_lift _).bind fun lay => (forgets_lift _).bind fun sec => ?_
  refine (forgets_hashHeaders lay).bind fun _ => ?_
  refine Forgets.bind (Forgets.foldlM (fun sum i => ?_) _ _) fun sum => forgets_hashTail lay sum
  exact (forgets_lift _).bind fun t => forgets_hashSection sum t

end Ghost

theorem peaAuthenticodeHash_logged (f : PeFile) (update : σ → List UInt8 → Int × σ) (ctx : σ) :
    peaAuthenticodeHash f update ctx =
      ((peaAuthenticodeHash f (logged update) (ctx, [])).1,
        (peaAuthenticodeHash f (logged update) (ctx, [])).2.1) := by
  have hrun := forgets_peaWalk f update ctx []
  rw [peaAuthenticodeHash, peaAuthenticodeHash, ← hrun]
  cases peaWalk f (logged update) (ctx, []) with
  | ok u s => rfl
  | error e s =>
      cases e with
      | ret rc => rfl
      | fault => rfl

/-- The walk is in bounds and bounded, whatever the file and whatever `Update` does: it returns
one of its codes, so no read leaves the file, no index the section array and no loop its fuel;
each call of `Update` gets between one byte and 1 MiB of the file, and all of them together no
more than the file has. -/
theorem walk_in_bounds (f : PeFile) (update : σ → List UInt8 → Int × σ) (ctx : σ) :
    ∃ rc ctx' log, peaAuthenticodeHash f (logged update) (ctx, []) = (some rc, ctx', log) ∧
      peaAuthenticodeHash f update ctx = (some rc, ctx') ∧
      (∀ data ∈ log, 1 ≤ data.length ∧ data.length ≤ 0x100000 ∧
        ∃ off, off + data.length ≤ f.length ∧ data = slice f.bytes off data.length) ∧
      (log.map List.length).sum ≤ f.length := by
  have hghost := peaAuthenticodeHash_logged f update ctx
  have hrun := peaWalk_triple f update (ctx, []) Fed.nil
  have hresult : ∃ rc s, peaAuthenticodeHash f (logged update) (ctx, []) = (some rc, s) ∧
      Fed f f.length s.2 := by
    rw [peaAuthenticodeHash]
    cases hwalk : peaWalk f (logged update) (ctx, []) with
    | ok u s =>
        rw [hwalk] at hrun
        exact ⟨.ok, s, rfl, hrun⟩
    | error e s =>
        rw [hwalk] at hrun
        obtain ⟨hfault, hfed⟩ := hrun
        cases e with
        | ret rc => exact ⟨rc, s, rfl, hfed⟩
        | fault => exact absurd rfl hfault
  obtain ⟨rc, s, heq, hfed⟩ := hresult
  rw [heq] at hghost
  refine ⟨rc, s.1, s.2, heq, hghost, fun data hmem => ?_, hfed.total⟩
  obtain ⟨off, hin, hslice, hpos, hmax⟩ := hfed.chunks data hmem
  exact ⟨hpos, hmax, off, hin, hslice⟩

end KernelGuard
