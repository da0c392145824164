/-
The two Authenticode implementations compute the same thing.

`Proofs/PeHeaders.lean` has the headers; here are the sections and the tail, against
`Spec/Authenticode.lean` again: `peaWalk_judges` for the driver, over a recording
`Update`, and `authenticodePieces_judges` for the tool.

The sections are where the two differ most.  C inserts every section into an array and
skips the empty ones afterwards, Python drops the empty ones and calls `sorted`; both
are stable sorts, and there is only one.  Both then keep a running total, which the
specification does not have: it grows, so it stays below a bound exactly when it ends
there.
-/
import KernelGuard.Proofs.PeHeaders
import KernelGuard.Lib.StableSort

namespace KernelGuard

open Pe

/-! ### Loops over an index -/

section Loops

variable {m : Type → Type} [Monad m] [LawfulMonad m] {α β : Type}

theorem foldlM_range_succ (g : β → Nat → m β) (b : β) (n : Nat) :
    (List.range (n + 1)).foldlM g b = (List.range n).foldlM g b >>= fun c => g c n := by
  rw [List.range_succ, List.foldlM_append]
  simp

/-- A loop that looks up its index in a list is a loop over the list. -/
theorem foldlM_range_get (look : Nat → m α) (g : β → α → m β) (b : β) (l : List α)
    (hlook : ∀ i (hi : i < l.length), look i = pure l[i]) :
    (List.range l.length).foldlM (fun c i => look i >>= g c) b = l.foldlM g b := by
  induction l using List.reverseRecOn with
  | nil => rfl
  | append_singleton l a ih =>
      have hlast : look l.length = pure a := by
        rw [hlook l.length (by simp)]
        simp
      have hinit : ∀ i (hi : i < l.length), look i = pure l[i] := by
        intro i hi
        rw [hlook i (by simp; omega), List.getElem_append_left hi]
      rw [List.length_append, List.length_singleton, foldlM_range_succ, ih hinit,
        List.foldlM_append]
      simp [hlast]

end Loops

/-- A running total stays within `n` when it ends there: the element `s` has brought it to
`a`, and the rest adds `b`. -/
theorem running_total_iff {α : Type} {P : α → Prop} {s : α} {l : List α} {a b n : Nat} :
    ((P s ∧ a ≤ n) ∧ (∀ t ∈ l, P t) ∧ a + b ≤ n) ↔ (∀ t ∈ s :: l, P t) ∧ a + b ≤ n := by
  rw [List.forall_mem_cons]
  constructor
  · intro h
    exact ⟨⟨h.1.1, h.2.1⟩, h.2.2⟩
  · intro h
    exact ⟨⟨h.1.1, Nat.le_trans (Nat.le_add_right a b) h.2⟩, h.1.2, h.2⟩

/-! ### The section array of the driver

Insertion from the back stops at the first entry that is not larger, so equal
offsets keep the order of the table.  The invariant of the outer loop is that the
first rows are stably sorted, and a stable sort of a list is unique, whichever way
it is found.
-/

theorem getSection_ok {l : List PeaSection} {r : PeaSections} {j : Nat} (h : j < l.length) :
    getSection (l.map some ++ r) j = .ok l[j] := by
  have hget : (l.map some ++ r)[j]? = some (some l[j]) := by
    rw [List.getElem?_append_left (by simpa using h)]
    simp [h]
  rw [getSection, hget]

theorem setSection_ok (l : List PeaSection) (x : Option PeaSection) (r : PeaSections)
    (s : PeaSection) :
    setSection (l.map some ++ x :: r) l.length s = .ok (l.map some ++ some s :: r) := by
  rw [setSection, if_pos (by simp)]
  simp

/-- The inner loop inserts from the back, over the entry `x` behind the others. -/
theorem insertSection_eq (cur : PeaSection) (l : List PeaSection) (x : Option PeaSection)
    (r : PeaSections) :
    insertSection cur l.length (l.map some ++ x :: r) =
      .ok ((StableSort.insertBack PeaSection.offset cur l).map some ++ r) := by
  induction l using List.reverseRecOn generalizing x r with
  | nil => exact setSection_ok [] x r cur
  | append_singleton l prev ih =>
      have hget : getSection ((l ++ [prev]).map some ++ x :: r) l.length = .ok prev := by
        rw [getSection_ok (by simp)]
        simp
      have hset : ∀ s, setSection ((l ++ [prev]).map some ++ x :: r) (l.length + 1) s =
          .ok ((l ++ [prev]).map some ++ some s :: r) := by
        intro s
        simpa using setSection_ok (l ++ [prev]) x r s
      rw [List.length_append, List.length_singleton, insertSection, hget,
        StableSort.insertBack_concat]
      by_cases h : cur.offset < prev.offset
      · -- the entry moves up and the loop goes on below it
        show (if prev.offset > cur.offset then _ else _) = _
        rw [if_pos h, if_pos h, hset]
        show insertSection cur l.length ((l ++ [prev]).map some ++ some prev :: r) = _
        have hsplit : (l ++ [prev]).map some ++ some prev :: r =
            l.map some ++ some prev :: (some prev :: r) := by simp
        rw [hsplit, ih]
        simp
      · show (if prev.offset > cur.offset then _ else _) = _
        rw [if_neg h, if_neg h, hset]
        simp

/-- A row of the section table as the driver has it. -/
def peaSectionAt (img : List UInt8) (i : Nat) : PeaSection :=
  ⟨(sectionAt img i).1, (sectionAt img i).2⟩

/-- After `i` rounds the array holds the first `i` rows, stably sorted. -/
theorem readSections_round {f : PeFile} (hok : HeadersOk f.bytes) {i : Nat}
    (hi : i ≤ sectionCount f.bytes) :
    ∃ l : List PeaSection, l.length = i ∧
      StableSort PeaSection.offset ((List.range i).map (peaSectionAt f.bytes)) l ∧
      (List.range i).foldlM (readSection f (secTab f.bytes))
        (List.replicate peaMaxSections none) =
        .ok (l.map some ++ List.replicate (peaMaxSections - i) none) := by
  induction i with
  | zero => exact ⟨[], rfl, StableSort.nil, rfl⟩
  | succ i ih =>
      obtain ⟨l, hlen, hsort, hfold⟩ := ih (by omega)
      have htable := hok.2.table
      have hsec := hok.1.sections
      have hf : f.length = f.bytes.length := rfl
      have hrow : u64 (i * 40) = i * 40 := u64_of_lt (by omega)
      have hsize : f.rd32 (secTab f.bytes + i * 40 + 16) = .ok (sectionAt f.bytes i).2 :=
        PeFile.rd32_ok (by omega)
      have hoff : f.rd32 (secTab f.bytes + i * 40 + 20) = .ok (sectionAt f.bytes i).1 :=
        PeFile.rd32_ok (by omega)
      have hrest : List.replicate (peaMaxSections - i) (none : Option PeaSection) =
          none :: List.replicate (peaMaxSections - (i + 1)) none := by
        have hroom : peaMaxSections - i = peaMaxSections - (i + 1) + 1 := by
          rw [peaMaxSections]
          omega
        rw [hroom, List.replicate_succ]
      refine ⟨StableSort.insertBack PeaSection.offset (peaSectionAt f.bytes i) l, ?_, ?_, ?_⟩
      · rw [StableSort.length_insertBack, hlen]
      · rw [List.range_succ, List.map_append]
        exact hsort.insert _
      · have hround : readSection f (secTab f.bytes)
            (l.map some ++ List.replicate (peaMaxSections - i) none) i =
            .ok ((StableSort.insertBack PeaSection.offset (peaSectionAt f.bytes i) l).map some ++
              List.replicate (peaMaxSections - (i + 1)) none) := by
          have hins := insertSection_eq (peaSectionAt f.bytes i) l none
            (List.replicate (peaMaxSections - (i + 1)) none)
          rw [hlen] at hins
          rw [readSection, hrow, hsize, hoff, hrest]
          exact hins
        rw [foldlM_range_succ, hfold]
        exact hround

/-- The rows hold 32-bit numbers, and there are too few of them for a sum to wrap. -/
theorem sections_small {f : PeFile} (hok : HeadersOk f.bytes) {l : List PeaSection}
    (hlen : l.length = sectionCount f.bytes)
    (hsort : StableSort PeaSection.offset
      ((List.range (sectionCount f.bytes)).map (peaSectionAt f.bytes)) l) :
    (∀ s ∈ l, s.offset < 2 ^ 32 ∧ s.size < 2 ^ 32) ∧
      headerSize f.bytes + l.length * 2 ^ 32 < 2 ^ 64 := by
  constructor
  · intro s hs
    obtain ⟨i, -, hrow⟩ := List.mem_map.mp (hsort.mem_iff.mp hs)
    rw [← hrow]
    exact ⟨rd32_lt _ _, rd32_lt _ _⟩
  · have hhead := (bounds f.bytes).2.2.2
    have hsec := hok.1.sections
    omega

/-- The loop over the array is a loop over the sorted list. -/
theorem foldlM_getSection {σ : Type} {f : PeFile} (update : σ → List UInt8 → Int × σ)
    {l : List PeaSection} (hlen : l.length = sectionCount f.bytes) :
    (List.range (layout f.bytes).nSections).foldlM (fun sum i => do
      let s ← PeaStop.lift (getSection (l.map some ++
        List.replicate (peaMaxSections - sectionCount f.bytes) none) i)
      hashSection f update sum s) (layout f.bytes).sizeOfHeaders =
      l.foldlM (hashSection f update) (headerSize f.bytes) := by
  show (List.range (sectionCount f.bytes)).foldlM _ _ = _
  rw [← hlen]
  refine foldlM_range_get _ _ _ l fun i hi => ?_
  rw [getSection_ok hi]
  rfl

/-! ### The walk of the driver, over a recording `Update`

The driver hands pieces to a callback as it goes.  Against a callback that only
records, what a part of the walk does is described by the bytes it appends, and two
parts in a row append one behind the other, so every part can be compared with the
specification alone.
-/

section Outcome

variable {σ α β : Type}

/-- What a part of the walk comes to, without the context it leaves on an early stop. -/
def outcome (x : EStateM PeaStop σ α) (ctx : σ) : Except PeaStop (α × σ) :=
  match x ctx with
  | .ok a ctx' => .ok (a, ctx')
  | .error e _ => .error e

theorem outcome_bind (x : EStateM PeaStop σ α) (k : α → EStateM PeaStop σ β) (ctx : σ) :
    outcome (x >>= k) ctx = outcome x ctx >>= fun p => outcome (k p.1) p.2 := by
  show (match EStateM.bind x k ctx with
    | .ok a ctx' => Except.ok (a, ctx')
    | .error e _ => .error e) = _
  rw [EStateM.bind, outcome]
  cases x ctx with
  | ok a ctx' => rfl
  | error e ctx' => rfl

theorem outcome_seq {x : EStateM PeaStop σ α} {ctx ctx' : σ} {a : α}
    (hx : outcome x ctx = .ok (a, ctx')) (k : α → EStateM PeaStop σ β) :
    outcome (x >>= k) ctx = outcome (k a) ctx' := by
  rw [outcome_bind, hx]
  rfl

@[simp] theorem outcome_pure (a : α) (ctx : σ) :
    outcome (pure a : EStateM PeaStop σ α) ctx = .ok (a, ctx) := rfl

@[simp] theorem outcome_throw (e : PeaStop) (ctx : σ) :
    outcome (throw e : EStateM PeaStop σ α) ctx = .error e := rfl

theorem outcome_lift_bind (x : Except PeaStop α) (k : α → EStateM PeaStop σ β) (ctx : σ) :
    outcome (PeaStop.lift x >>= k) ctx = x >>= fun a => outcome (k a) ctx := by
  cases x with
  | ok a => rfl
  | error e => rfl

end Outcome

theorem slice_append (img : List UInt8) (off : Nat) {n len : Nat} (h : n ≤ len) :
    slice img off n ++ slice img (off + n) (len - n) = slice img off len := by
  have hlen : len = n + (len - n) := by omega
  conv => rhs; rw [slice, hlen, List.take_add, List.drop_drop]
  rfl

theorem length_slice_of_le {img : List UInt8} {off k : Nat} (h : off + k ≤ img.length) :
    (slice img off k).length = k := by
  rw [slice, List.length_take, List.length_drop]
  omega

theorem callUpdate_record {f : PeFile} {off n : Nat} (ctx : List UInt8)
    (h : off + n ≤ f.length) :
    outcome (callUpdate f recordUpdate off n) ctx = .ok ((), ctx ++ slice f.bytes off n) := by
  have hcall : callUpdate f recordUpdate off n ctx = .ok () (ctx ++ slice f.bytes off n) := by
    rw [callUpdate, PeFile.read_ok h]
    rfl
  rw [outcome, hcall]

theorem hashRangeLoop_record {f : PeFile} {fuel off len : Nat} (ctx : List UInt8)
    (hfuel : len ≤ fuel) (h : off + len ≤ f.length) :
    outcome (hashRangeLoop f recordUpdate fuel off len) ctx =
      .ok ((), ctx ++ slice f.bytes off len) := by
  have hlt := f.length_lt
  have hf : f.length = f.bytes.length := rfl
  induction fuel generalizing off len ctx with
  | zero =>
      have hlen : len = 0 := by omega
      subst hlen
      rw [hashRangeLoop, slice_zero, List.append_nil]
      rfl
  | succ fuel ih =>
      rcases Nat.eq_zero_or_pos len with hlen | hpos
      · subst hlen
        rw [hashRangeLoop, slice_zero, List.append_nil]
        rfl
      -- one call takes `n` bytes, the induction hypothesis the rest
      generalize hn : (if len > peaChunk then peaChunk else len) = n
      have hnpos : 0 < n := by
        rw [← hn, peaChunk]
        split <;> omega
      have hnle : n ≤ len := by
        rw [← hn]
        split <;> omega
      have hstep : hashRangeLoop f recordUpdate (fuel + 1) off len = (do
          callUpdate f recordUpdate off n
          hashRangeLoop f recordUpdate fuel (u64 (off + n)) (sub64 len n)) := by
        rw [hashRangeLoop, hn]
        exact Nat.ne_of_gt hpos
      rw [hstep, outcome_seq (callUpdate_record ctx (by omega)), u64_of_lt (by omega),
        sub64_of_le (by omega) hnle, ih _ (by omega) (by omega), List.append_assoc,
        slice_append f.bytes off hnle]

theorem hashRange_record {f : PeFile} {off len : Nat} (ctx : List UInt8)
    (h : off + len ≤ f.length) :
    outcome (hashRange f recordUpdate off len) ctx = .ok ((), ctx ++ slice f.bytes off len) :=
  hashRangeLoop_record ctx (Nat.le_refl len) h

theorem hashHeaders_record {f : PeFile} (hok : HeadersOk f.bytes) (ctx : List UInt8) :
    outcome (hashHeaders f recordUpdate (layout f.bytes)) ctx =
      .ok ((), ctx ++ headerBytes f.bytes) := by
  have hlt := f.length_lt
  have hf : f.length = f.bytes.length := rfl
  have hend := hok.2.headersEnd
  have hchk := hok.2.checksum
  have hrest : u64 (checksumOff f.bytes + 4) = checksumOff f.bytes + 4 := u64_of_lt (by omega)
  have hfirst : outcome (hashRange f recordUpdate 0 (checksumOff f.bytes)) ctx =
      .ok ((), ctx ++ slice f.bytes 0 (checksumOff f.bytes)) := hashRange_record ctx (by omega)
  have hlay : (layout f.bytes).certEntry = certEntry f.bytes := rfl
  rw [hashHeaders, headerBytes, hlay]
  refine (outcome_seq hfirst _).trans ?_
  cases hcert : certEntry f.bytes with
  | none =>
      show outcome (hashRange f recordUpdate (u64 (checksumOff f.bytes + 4))
        (sub64 (headerSize f.bytes) (u64 (checksumOff f.bytes + 4)))) _ = _
      rw [hrest, sub64_of_le (by omega) hchk, hashRange_record _ (by omega), List.append_assoc]
  | some e =>
      obtain ⟨hlow, hhigh⟩ := hok.2.cert e hcert
      have hrest8 : u64 (e + 8) = e + 8 := u64_of_lt (by omega)
      show outcome (hashRange f recordUpdate (u64 (checksumOff f.bytes + 4))
        (sub64 e (u64 (checksumOff f.bytes + 4))) >>= fun _ =>
          hashRange f recordUpdate (u64 (e + 8))
            (sub64 (headerSize f.bytes) (u64 (e + 8)))) _ = _
      rw [hrest, hrest8, sub64_of_le (by omega) hlow, sub64_of_le (by omega) hhigh,
        outcome_seq (hashRange_record _ (by omega)), hashRange_record _ (by omega),
        List.append_assoc, List.append_assoc]

/-! ### Sections and tail of the driver -/

/-- How many bytes a list of sections takes, and which. -/
def totalSize (l : List PeaSection) : Nat := (l.map PeaSection.size).sum

def sectionsOf (img : List UInt8) (l : List PeaSection) : List UInt8 :=
  l.flatMap fun s => slice img s.offset s.size

theorem totalSize_cons (s : PeaSection) (l : List PeaSection) :
    totalSize (s :: l) = s.size + totalSize l := List.sum_cons

theorem sectionsOf_cons (img : List UInt8) (s : PeaSection) (l : List PeaSection) :
    sectionsOf img (s :: l) = slice img s.offset s.size ++ sectionsOf img l :=
  List.flatMap_cons

/-- One section: the running total stays within the file or the walk ends. -/
theorem hashSection_judges {f : PeFile} {sum : Nat} {s : PeaSection} (ctx : List UInt8)
    (hoff : s.offset < 2 ^ 32) (hsize : s.size < 2 ^ 32) (hsum : sum + 2 ^ 32 < 2 ^ 64)
    (hle : sum ≤ f.length) :
    Judges FormatStop ((s.size ≠ 0 → s.offset + s.size ≤ f.length) ∧ sum + s.size ≤ f.length)
      (sum + s.size, ctx ++ slice f.bytes s.offset s.size)
      (outcome (hashSection f recordUpdate sum s) ctx) := by
  rw [hashSection, u64_of_lt (by omega), u64_of_lt (by omega)]
  by_cases hzero : s.size = 0
  · rw [if_pos hzero, hzero, slice_zero, List.append_nil, outcome_pure]
    exact Judges.accept ⟨fun h => absurd rfl h, hle⟩
  rw [if_neg hzero]
  by_cases hout : s.offset + s.size > f.length ∨ sum + s.size > f.length
  · rw [if_pos hout, outcome_throw]
    refine Judges.refuse rfl fun hin => ?_
    have hin' := hin.1 hzero
    omega
  · rw [if_neg hout, outcome_seq (hashRange_record ctx (by omega)), outcome_pure]
    exact Judges.accept ⟨fun _ => by omega, by omega⟩

theorem hashSections_judges {f : PeFile} {l : List PeaSection} (sum : Nat) (ctx : List UInt8)
    (hsmall : ∀ s ∈ l, s.offset < 2 ^ 32 ∧ s.size < 2 ^ 32)
    (hsum : sum + l.length * 2 ^ 32 < 2 ^ 64) (hle : sum ≤ f.length) :
    Judges FormatStop
      ((∀ s ∈ l, s.size ≠ 0 → s.offset + s.size ≤ f.length) ∧ sum + totalSize l ≤ f.length)
      (sum + totalSize l, ctx ++ sectionsOf f.bytes l)
      (outcome (l.foldlM (hashSection f recordUpdate) sum) ctx) := by
  induction l generalizing sum ctx with
  | nil =>
      have hout : outcome (List.foldlM (hashSection f recordUpdate) sum []) ctx =
          .ok (sum + totalSize [], ctx ++ sectionsOf f.bytes []) := by
        rw [List.foldlM_nil, outcome_pure, sectionsOf, List.flatMap_nil, List.append_nil]
        rfl
      rw [hout]
      exact Judges.accept ⟨by simp, hle⟩
  | cons s l ih =>
      obtain ⟨hoff, hsize⟩ := hsmall s List.mem_cons_self
      have hrest : ∀ t ∈ l, t.offset < 2 ^ 32 ∧ t.size < 2 ^ 32 :=
        fun t ht => hsmall t (List.mem_cons_of_mem s ht)
      rw [List.length_cons] at hsum
      rw [List.foldlM_cons, outcome_bind, totalSize_cons, sectionsOf_cons]
      rw [← Nat.add_assoc, ← List.append_assoc]
      have hone := hashSection_judges ctx hoff hsize (by omega) hle
      have hboth := hone.and
        (k := fun p => outcome (l.foldlM (hashSection f recordUpdate) p.1) p.2) fun hfits =>
        ih (sum + s.size) (ctx ++ slice f.bytes s.offset s.size) hrest (by omega) hfits.2
      exact Judges.congr running_total_iff hboth

theorem hashTail_judges {f : PeFile} {sum : Nat} (ctx : List UInt8) (hle : sum ≤ f.length) :
    Judges FormatStop
      (sum < f.length → certSize f.bytes ≠ 0 →
        certOff f.bytes + certSize f.bytes ≤ f.length ∧ certSize f.bytes ≤ f.length - sum)
      ((), ctx ++ slice f.bytes sum (f.length - sum - certSize f.bytes))
      (outcome (hashTail f recordUpdate (layout f.bytes) sum) ctx) := by
  have hlt := f.length_lt
  have hf : f.length = f.bytes.length := rfl
  obtain ⟨hoff, hsize⟩ := cert_lt f.bytes
  have hextra : sub64 f.length sum = f.length - sum := sub64_of_le hlt hle
  have hlaySize : (layout f.bytes).certSize = certSize f.bytes := rfl
  have hlayOff : (layout f.bytes).certOff = certOff f.bytes := rfl
  simp only [hashTail, hlaySize, hlayOff]
  rw [hextra, u64_of_lt (by omega)]
  by_cases hmore : f.length > sum
  swap
  · have hnone : f.length - sum - certSize f.bytes = 0 := by omega
    rw [if_neg hmore, outcome_pure, hnone, slice_zero, List.append_nil]
    exact Judges.accept fun h => absurd h hmore
  rw [if_pos hmore]
  by_cases hzero : certSize f.bytes = 0
  · rw [if_pos hzero, hzero, Nat.sub_zero, hashRange_record ctx (by omega)]
    exact Judges.accept fun _ h => absurd rfl h
  rw [if_neg hzero]
  by_cases hout : certOff f.bytes + certSize f.bytes > f.length ∨
      certSize f.bytes > f.length - sum
  · rw [if_pos hout, outcome_throw]
    refine Judges.refuse rfl fun hin => ?_
    have hin' := hin hmore hzero
    omega
  · rw [if_neg hout, sub64_of_le (by omega) (by omega), hashRange_record ctx (by omega)]
    exact Judges.accept fun _ _ => by omega

/-! ### One order of the sections

Dropping the empty sections before a stable sort or behind it makes no difference,
because the sort leaves the order of the others alone.  This is the only place where
the two implementations take their steps in a different order.
-/

def PeaSection.toPair (s : PeaSection) : Nat × Nat := (s.offset, s.size)

/-- The sections of a list that have raw data. -/
def rawOf (l : List PeaSection) : List (Nat × Nat) :=
  (l.map PeaSection.toPair).filter fun s => s.2 ≠ 0

theorem rawOf_cons_empty {s : PeaSection} (h : s.size = 0) (l : List PeaSection) :
    rawOf (s :: l) = rawOf l :=
  List.filter_cons_of_neg fun hd => absurd h (of_decide_eq_true hd)

theorem rawOf_cons {s : PeaSection} (h : s.size ≠ 0) (l : List PeaSection) :
    rawOf (s :: l) = s.toPair :: rawOf l :=
  List.filter_cons_of_pos (decide_eq_true h)

/-- Whatever sorts the sections stably, without the empty ones it has `rawData`. -/
theorem rawData_of_stable {img : List UInt8} {l : List PeaSection}
    (h : StableSort PeaSection.offset
      ((List.range (sectionCount img)).map (peaSectionAt img)) l) : rawData img = rawOf l := by
  have hpairs : StableSort Prod.fst ((List.range (sectionCount img)).map (sectionAt img))
      (l.map PeaSection.toPair) := by
    have hmap : StableSort Prod.fst
        (((List.range (sectionCount img)).map (peaSectionAt img)).map PeaSection.toPair)
        (l.map PeaSection.toPair) := h.map PeaSection.toPair fun _ => rfl
    rw [List.map_map] at hmap
    exact hmap
  exact (StableSort.mergeSort _).unique (hpairs.filter _)

theorem rawOf_sum (l : List PeaSection) : ((rawOf l).map Prod.snd).sum = totalSize l := by
  induction l with
  | nil => rfl
  | cons s l ih =>
      rw [totalSize_cons, ← ih]
      by_cases h : s.size = 0
      · rw [rawOf_cons_empty h, h, Nat.zero_add]
      · rw [rawOf_cons h]
        rfl

theorem rawOf_bytes (img : List UInt8) (l : List PeaSection) :
    (rawOf l).flatMap (fun s => slice img s.1 s.2) = sectionsOf img l := by
  induction l with
  | nil => rfl
  | cons s l ih =>
      rw [sectionsOf_cons, ← ih]
      by_cases h : s.size = 0
      · rw [rawOf_cons_empty h, h, slice_zero, List.nil_append]
      · rw [rawOf_cons h, List.flatMap_cons]
        rfl

theorem rawOf_inFile {l : List PeaSection} {n : Nat} :
    (∀ s ∈ rawOf l, s.1 + s.2 ≤ n) ↔ ∀ s ∈ l, s.size ≠ 0 → s.offset + s.size ≤ n := by
  constructor
  · intro h s hs hsize
    exact h s.toPair (List.mem_filter.mpr ⟨List.mem_map_of_mem hs, decide_eq_true hsize⟩)
  · intro h s hs
    obtain ⟨hmem, hsize⟩ := List.mem_filter.mp hs
    obtain ⟨t, ht, rfl⟩ := List.mem_map.mp hmem
    exact h t ht (of_decide_eq_true hsize)

/-! ### The whole walk -/

/-- The sections and the tail, over any stably sorted list of the sections. -/
theorem hashRest_judges {f : PeFile} (hok : HeadersOk f.bytes) {l : List PeaSection}
    (hlen : l.length = sectionCount f.bytes)
    (hsort : StableSort PeaSection.offset
      ((List.range (sectionCount f.bytes)).map (peaSectionAt f.bytes)) l)
    (ctx : List UInt8) :
    Judges FormatStop (SectionsOk f.bytes ∧ CertOk f.bytes)
      ((), ctx ++ sectionBytes f.bytes ++ tailBytes f.bytes)
      (outcome (do
        let sum ← l.foldlM (hashSection f recordUpdate) (headerSize f.bytes)
        hashTail f recordUpdate (layout f.bytes) sum) ctx) := by
  have hraw := rawData_of_stable hsort
  have hsum : hashedSize f.bytes = headerSize f.bytes + totalSize l := by
    rw [hashedSize, hraw, rawOf_sum]
  have hbytes : sectionBytes f.bytes = sectionsOf f.bytes l := by
    rw [sectionBytes, hraw, rawOf_bytes]
  obtain ⟨hsmall, hroom⟩ := sections_small hok hlen hsort
  have hsecs := hashSections_judges (headerSize f.bytes) ctx hsmall hroom hok.2.headersEnd
  have hboth := hsecs.and
    (k := fun p => outcome (hashTail f recordUpdate (layout f.bytes) p.1) p.2)
    fun hfits => hashTail_judges _ hfits.2
  rw [← hsum, ← hbytes, ← rawOf_inFile, ← hraw] at hboth
  rw [outcome_bind]
  refine Judges.congr (and_congr ?_ Iff.rfl) hboth
  exact ⟨fun h => ⟨h.1, h.2⟩, fun h => ⟨h.inFile, h.total⟩⟩

theorem peaWalk_judges (f : PeFile) (ctx : List UInt8) :
    Judges FormatStop (Digestible f.bytes) ((), ctx ++ digested f.bytes)
      (outcome (peaWalk f recordUpdate) ctx) := by
  rw [peaWalk, outcome_lift_bind]
  refine (peaLayout_judges f).and fun hok => ?_
  obtain ⟨l, hlen, hsort, hread⟩ := readSections_round hok (Nat.le_refl _)
  rw [outcome_lift_bind]
  refine Judges.step hread ?_
  rw [outcome_seq (hashHeaders_record hok ctx)]
  rw [foldlM_getSection recordUpdate hlen, digested, List.append_assoc, ← List.append_assoc ctx, ← List.append_assoc]
  exact hashRest_judges hok hlen hsort (ctx ++ headerBytes f.bytes)

theorem peaAuthenticodeHash_spec (f : PeFile) (ctx : List UInt8) :
    (Digestible f.bytes → peaAuthenticodeHash f recordUpdate ctx =
      (some .ok, ctx ++ digested f.bytes)) ∧
    (¬Digestible f.bytes → (peaAuthenticodeHash f recordUpdate ctx).1 = some .eFormat) := by
  obtain ⟨hok, hbad⟩ := peaWalk_judges f ctx
  rw [peaAuthenticodeHash]
  rw [outcome] at hok hbad
  cases hwalk : peaWalk f recordUpdate ctx with
  | ok u ctx' =>
      rw [hwalk] at hok hbad
      refine ⟨fun h => ?_, fun h => ?_⟩
      · have heq := Except.ok.inj (hok h)
        rw [← (Prod.mk.inj heq).2]
      · obtain ⟨e, -, he⟩ := hbad h
        exact absurd he nofun
  | error e ctx' =>
      rw [hwalk] at hok hbad
      refine ⟨fun h => absurd (hok h) nofun, fun h => ?_⟩
      obtain ⟨e', hstop, he⟩ := hbad h
      rw [Except.error.inj he, show e' = .ret .eFormat from hstop]

theorem digestible_of_ok {f : PeFile} {ctx : List UInt8}
    (h : (peaAuthenticodeHash f recordUpdate ctx).1 = some .ok) : Digestible f.bytes := by
  by_contra hbad
  rw [(peaAuthenticodeHash_spec f ctx).2 hbad] at h
  exact absurd h nofun

/-! ### The pieces of the tool

The tool collects pieces and drops the empty ones at the end.  Empty pieces
contribute no bytes, so the bytes of the pieces are those of the specification piece
by piece.
-/

theorem pySections_eq {data : List UInt8} (hok : HeadersOk data) {i : Nat}
    (hi : i ≤ sectionCount data) :
    (List.range i).foldlM (fun secs i => do
      let base := secTab data + i * 40
      let size ← pyU32 data (base + 16)
      let ptr ← pyU32 data (base + 20)
      return if size ≠ 0 then secs ++ [(ptr, size)] else secs) [] =
      .ok (((List.range i).map (sectionAt data)).filter fun s => s.2 ≠ 0) := by
  induction i with
  | zero => rfl
  | succ i ih =>
      have htable := hok.2.table
      have hsize : pyU32 data (secTab data + i * 40 + 16) = .ok (sectionAt data i).2 :=
        pyU32_ok (by omega)
      have hptr : pyU32 data (secTab data + i * 40 + 20) = .ok (sectionAt data i).1 :=
        pyU32_ok (by omega)
      rw [foldlM_range_succ, ih (by omega), List.range_succ, List.map_append, List.filter_append]
      show (pyU32 data (secTab data + i * 40 + 16) >>= fun size =>
        pyU32 data (secTab data + i * 40 + 20) >>= fun ptr =>
          Except.ok (if size ≠ 0 then _ ++ [(ptr, size)] else _)) = _
      rw [hsize, hptr]
      by_cases h : (sectionAt data i).2 = 0
      · show Except.ok (if (sectionAt data i).2 ≠ 0 then _ else _) = _
        rw [if_neg (not_not.mpr h)]
        simp [h]
      · show Except.ok (if (sectionAt data i).2 ≠ 0 then _ else _) = _
        rw [if_pos h]
        simp [h]

/-- A section as the piece it becomes. -/
def pieceOf (s : Nat × Nat) : Nat × Nat := (s.1, s.1 + s.2)

theorem sectionPieces_judges {n : Nat} {l : List (Nat × Nat)} (pieces : List (Nat × Nat))
    (hashed : Nat) (hle : hashed ≤ n) :
    Judges FormatRaise
      ((∀ s ∈ l, s.1 + s.2 ≤ n) ∧ hashed + (l.map Prod.snd).sum ≤ n)
      (pieces ++ l.map pieceOf, hashed + (l.map Prod.snd).sum)
      (l.foldlM (sectionPiece n) (pieces, hashed)) := by
  induction l generalizing pieces hashed with
  | nil =>
      rw [List.foldlM_nil, List.map_nil, List.map_nil, List.append_nil]
      exact Judges.accept ⟨by simp, hle⟩
  | cons s l ih =>
      rw [List.foldlM_cons, List.map_cons, List.sum_cons, List.map_cons, ← Nat.add_assoc]
      have hone : Judges FormatRaise (s.1 + s.2 ≤ n ∧ hashed + s.2 ≤ n)
          (pieces ++ [pieceOf s], hashed + s.2) (sectionPiece n (pieces, hashed) s) := by
        refine judges_raiseIf (c := s.1 + s.2 > n ∨ hashed + s.2 > n) ?_ fun hfits => ?_
        · intro h hin
          omega
        · exact Judges.accept ⟨by omega, by omega⟩
      have hboth := hone.and (k := fun p => l.foldlM (sectionPiece n) p)
        fun hfits => ih (pieces ++ [pieceOf s]) (hashed + s.2) hfits.2
      rw [List.append_assoc] at hboth
      exact Judges.congr running_total_iff hboth

/-- The tail piece, possibly none. -/
def tailOf (data : List UInt8) : List (Nat × Nat) :=
  if hashedSize data < data.length then
    [(hashedSize data,
      hashedSize data + (data.length - hashedSize data - certSize data))]
  else []

theorem tailPiece_judges (data : List UInt8) :
    Judges FormatRaise (CertOk data) (tailOf data)
      (tailPiece data.length (pyLayout data) (hashedSize data)) := by
  rw [tailPiece, tailOf]
  by_cases hmore : hashedSize data < data.length
  swap
  · rw [if_neg hmore, if_neg hmore]
    exact Judges.accept fun h => absurd h hmore
  rw [if_pos hmore, if_pos hmore]
  have hlay : (pyLayout data).certSize = certSize data := rfl
  rw [hlay]
  by_cases hzero : certSize data = 0
  · rw [if_neg (not_not.mpr hzero), hzero, Nat.sub_zero]
    exact Judges.accept fun _ h => absurd hzero h
  · rw [if_pos hzero]
    refine judges_raiseIf (c := certOff data + certSize data > data.length ∨
      certSize data > data.length - hashedSize data) ?_ fun hfits => ?_
    · intro h hin
      have hin' := hin hmore hzero
      omega
    · exact Judges.accept fun _ _ => by omega

/-- The pieces of the headers. -/
def headersOf (data : List UInt8) : List (Nat × Nat) :=
  headerPieces (headerSize data) 0 ((checksumOff data, checksumOff data + 4) ::
    ((certEntry data).map fun ce => (ce, ce + 8)).toList)

/-- All pieces, before the empty ones are dropped. -/
def piecesOf (data : List UInt8) : List (Nat × Nat) :=
  headersOf data ++ (rawData data).map pieceOf ++ tailOf data

def nonEmpty (pieces : List (Nat × Nat)) : List (Nat × Nat) :=
  pieces.filter fun (a, b) => b > a

theorem authenticodePieces_judges (data : List UInt8) :
    Judges FormatRaise (Digestible data) (nonEmpty (piecesOf data))
      (authenticodePieces data) := by
  rw [authenticodePieces]
  refine (parseLayout_judges data).and fun hok => ?_
  refine Judges.step (pySections_eq hok (Nat.le_refl _)) ?_
  have hsecs := sectionPieces_judges (l := rawData data) (headersOf data) (headerSize data)
    hok.2.headersEnd
  refine Judges.congr (and_congr ?_ Iff.rfl) (hsecs.and fun _ => ?_)
  · exact ⟨fun h => ⟨h.1, h.2⟩, fun h => ⟨h.inFile, h.total⟩⟩
  have htail := (tailPiece_judges data).and (Q := True)
    (k := fun t => .ok (nonEmpty (headersOf data ++ (rawData data).map pieceOf ++ t)))
    fun _ => Judges.accept trivial
  exact Judges.congr (by rw [and_true]) htail

theorem flatMap_nonEmpty (data : List UInt8) (pieces : List (Nat × Nat)) :
    (nonEmpty pieces).flatMap (fun (a, b) => pySlice data a b) =
      pieces.flatMap fun (a, b) => pySlice data a b := by
  induction pieces with
  | nil => rfl
  | cons p pieces ih =>
      rw [List.flatMap_cons, ← ih]
      by_cases h : p.2 > p.1
      · have hkeep : nonEmpty (p :: pieces) = p :: nonEmpty pieces :=
          List.filter_cons_of_pos (decide_eq_true h)
        rw [hkeep, List.flatMap_cons]
      · have hdrop : nonEmpty (p :: pieces) = nonEmpty pieces :=
          List.filter_cons_of_neg fun hd => h (of_decide_eq_true hd)
        have hzero : p.2 - p.1 = 0 := by omega
        have hempty : pySlice data p.1 p.2 = [] := by rw [pySlice, hzero, slice_zero]
        rw [hdrop]
        show _ = pySlice data p.1 p.2 ++ _
        rw [hempty, List.nil_append]

theorem headersOf_bytes (data : List UInt8) :
    (headersOf data).flatMap (fun (a, b) => pySlice data a b) = headerBytes data := by
  rw [headersOf, headerBytes]
  cases certEntry data with
  | none => simp [headerPieces, pySlice]
  | some e => simp [headerPieces, pySlice]

theorem sectionPieces_bytes (data : List UInt8) :
    ((rawData data).map pieceOf).flatMap (fun (a, b) => pySlice data a b) =
      sectionBytes data := by
  rw [sectionBytes, List.flatMap_map]
  congr
  funext s
  show slice data s.1 (s.1 + s.2 - s.1) = _
  rw [Nat.add_sub_cancel_left]

theorem tailOf_bytes (data : List UInt8) :
    (tailOf data).flatMap (fun (a, b) => pySlice data a b) = tailBytes data := by
  rw [tailOf, tailBytes]
  by_cases hmore : hashedSize data < data.length
  · rw [if_pos hmore]
    simp [pySlice]
  · have hzero : data.length - hashedSize data - certSize data = 0 := by omega
    rw [if_neg hmore, hzero, slice_zero]
    rfl

theorem piecesOf_bytes (data : List UInt8) :
    (nonEmpty (piecesOf data)).flatMap (fun (a, b) => pySlice data a b) = digested data := by
  rw [flatMap_nonEmpty, piecesOf, List.flatMap_append, List.flatMap_append, headersOf_bytes,
    sectionPieces_bytes, tailOf_bytes, digested]

/-- The two Authenticode implementations agree: the driver's walk accepts a file exactly
when the tool raises no `PEFormatError`, and then feeds the bytes of the tool's pieces. -/
theorem authenticode_agree (f : PeFile) :
    ((peaAuthenticodeHash f recordUpdate []).1 = some .ok ↔
      ∀ msg, authenticodePieces f.bytes ≠ .error (.peFormat msg)) ∧
    ((peaAuthenticodeHash f recordUpdate []).1 = some .ok →
      ∃ pieces, authenticodePieces f.bytes = .ok pieces ∧
        (peaAuthenticodeHash f recordUpdate []).2 =
          pieces.flatMap fun (a, b) => pySlice f.bytes a b) := by
  obtain ⟨hok, hbad⟩ := peaAuthenticodeHash_spec f []
  obtain ⟨pyOk, pyBad⟩ := authenticodePieces_judges f.bytes
  by_cases h : Digestible f.bytes
  · rw [hok h, pyOk h]
    refine ⟨⟨fun _ _ => nofun, fun _ => rfl⟩, fun _ => ⟨_, rfl, ?_⟩⟩
    exact (piecesOf_bytes f.bytes).symm
  · obtain ⟨e, ⟨msg, hmsg⟩, herr⟩ := pyBad h
    rw [hbad h, herr, hmsg]
    exact ⟨⟨nofun, fun hno => absurd rfl (hno msg)⟩, nofun⟩

/-- A PE32 file of one section behind its headers, and two bytes after it. -/
def smallImage : List UInt8 :=
  [0x4d, 0x5a] ++ List.replicate 58 0 ++ [0x40, 0, 0, 0] ++
  [0x50, 0x45, 0, 0] ++ [0x4c, 1] ++ [1, 0] ++ List.replicate 12 0 ++ [96, 0] ++ [0, 0] ++
  [0x0b, 1] ++ List.replicate 58 0 ++ [224, 0, 0, 0] ++ List.replicate 32 0 ++
  List.replicate 16 0 ++ [4, 0, 0, 0] ++ [224, 0, 0, 0] ++ List.replicate 16 0 ++
  [1, 2, 3, 4] ++ [5, 6]

def smallFile : PeFile := ⟨smallImage, by decide +kernel⟩

theorem authenticode_agree_small :
    (peaAuthenticodeHash smallFile recordUpdate []).1 = some .ok ∧
    ∃ pieces, authenticodePieces smallFile.bytes = .ok pieces ∧
      (peaAuthenticodeHash smallFile recordUpdate []).2 =
        pieces.flatMap fun (a, b) => pySlice smallFile.bytes a b := by
  have hok : (peaAuthenticodeHash smallFile recordUpdate []).1 = some .ok := by decide +kernel
  exact ⟨hok, (authenticode_agree smallFile).2 hok⟩

end KernelGuard
