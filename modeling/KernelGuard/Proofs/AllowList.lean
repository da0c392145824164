/-
Who is on an allow list.

The walk of `kg_list_contains` stays inside the list and the name and comes to an end: a round
that does not stop at the NUL goes on by at least one character.  It finds the words of the list
one by one, so a name is found exactly when it is one of them.

The induction is on what is left of the list: a round consumes a word and at least
one character with it, and `mem_runs_round` says that the words of the rest are the
words of the whole without the one in front.  Both buffers end in a NUL that is not a
separator, which is why no read of the two string functions leaves them.
-/
import KernelGuard.Model.AllowList
import KernelGuard.Model.DmaAudit

namespace KernelGuard

open Tokens

/-- A C string. -/
structure CText where
  chars : CStr
  noNul : (0 : UInt8) ∉ chars

/-- The string in memory. -/
def CText.buf (s : CText) : List UInt8 := s.chars ++ [0]

/-! ### The string functions -/

theorem scan_text {stop go : UInt8 → Bool} (hstop : stop 0 = true) (pre : CStr) {l : CStr}
    (hgo : ∀ c ∈ l, stop c = !go c) :
    scan stop (pre ++ (l ++ [0])) (pre ++ (l ++ [0])).length pre.length =
      some (l.takeWhile go).length := by
  apply scan_ended hstop pre hgo
  simp only [List.length_append, List.length_singleton]
  omega

theorem strlen_buf (s : CText) : strlen s.buf = some s.chars.length := by
  have hgo : ∀ c ∈ s.chars, decide (c = 0) = !decide (c ≠ 0) := fun c _ => by simp
  have hscan := scan_text (decide_eq_true rfl) [] hgo
  rw [takeWhile_ne_self s.noNul] at hscan
  exact hscan

theorem skipSeps_at (pre l : CStr) :
    skipSeps (pre ++ (l ++ [0])) pre.length =
      some (pre.length + (l.takeWhile kgListSep).length) := by
  rw [skipSeps, scan_text (by decide) pre fun c _ => rfl]
  rfl

theorem strcspn_at (pre : CStr) {l : CStr} (hl : (0 : UInt8) ∉ l) :
    strcspn (pre ++ (l ++ [0])) pre.length (str ", ") =
      some (l.takeWhile (!kgListSep ·)).length := by
  have hgo : ∀ c ∈ l, (decide (c = 0) || (str ", ").contains c) = !!kgListSep c := by
    intro c hc
    have hne : c ≠ 0 := fun h0 => hl (h0 ▸ hc)
    have hmem : (str ", ").contains c = kgListSep c := by
      rw [show str ", " = [chComma, chSpace] by decide]
      simp [kgListSep, List.contains_eq_mem]
    rw [hmem, Bool.not_not, decide_eq_false hne, Bool.false_or]
  exact scan_text (by simp) pre hgo

/-- Two texts of one length, compared over this length. -/
theorem strncmp_eq_zero_iff {x y : CStr} (hlen : x.length = y.length) (hx : (0 : UInt8) ∉ x)
    (pre pre' post post' : List UInt8) :
    ∃ r, strncmp (pre ++ (x ++ post)) (pre' ++ (y ++ post')) x.length pre.length pre'.length =
      some r ∧ (r = 0 ↔ y = x) := by
  induction x generalizing y pre pre' with
  | nil => exact ⟨0, rfl, by simp [List.length_eq_zero_iff.mp hlen.symm]⟩
  | cons c rest ih =>
      obtain ⟨d, rest', rfl⟩ := List.exists_cons_of_length_eq_add_one hlen.symm
      have hs : (pre ++ (c :: rest ++ post))[pre.length]? = some c := by simp
      have ht : (pre' ++ (d :: rest' ++ post'))[pre'.length]? = some d := by simp
      rw [List.length_cons, strncmp, hs, ht]
      rcases eq_or_ne c d with rfl | hcd
      · have hc0 : c ≠ 0 := fun h0 => hx (h0 ▸ List.mem_cons_self)
        obtain ⟨r, hr, hiff⟩ := ih (by simpa using hlen) (fun h0 => hx (List.mem_cons_of_mem c h0))
          (pre ++ [c]) (pre' ++ [c])
        refine ⟨r, ?_, by simp [hiff]⟩
        simpa [hc0] using hr
      · refine ⟨if c < d then -1 else 1, by simp [hcd], ?_⟩
        have hr : (if c < d then (-1 : Int) else 1) ≠ 0 := by split <;> decide
        exact ⟨fun h0 => absurd h0 hr, fun heq => absurd (List.cons.inj heq).1.symm hcd⟩

/-! ### The walk

The memory-level loop reads at an offset; `kgListLoop_round` turns one round into a
question about the text behind this offset, and the offset and the fuel disappear
with it.  A round that goes on has moved by at least one character, which is the
termination argument as well.
-/

/-- The word a round looks at, and what is left behind it. -/
def nextWord (l : CStr) : CStr := (l.dropWhile kgListSep).takeWhile (!kgListSep ·)
def afterWord (l : CStr) : CStr := (l.dropWhile kgListSep).dropWhile (!kgListSep ·)

theorem next_append_after (l : CStr) :
    l.takeWhile kgListSep ++ (nextWord l ++ afterWord l) = l := by
  rw [nextWord, afterWord, List.takeWhile_append_dropWhile, List.takeWhile_append_dropWhile]

/-- A round does not stay where it is. -/
theorem length_afterWord_lt {l : CStr} (h : l ≠ []) : (afterWord l).length < l.length := by
  obtain ⟨c, rest, rfl⟩ := List.exists_cons_of_ne_nil h
  have hsplit := congrArg List.length (next_append_after (c :: rest))
  rw [List.length_append, List.length_append] at hsplit
  cases hc : kgListSep c with
  | true =>
      have hskip : ((c :: rest).takeWhile kgListSep).length ≠ 0 := by simp [hc]
      omega
  | false =>
      have hword : (nextWord (c :: rest)).length ≠ 0 := by simp [nextWord, hc]
      omega

theorem mem_runs_round {l w : CStr} (hw : w ≠ []) :
    w ∈ runs kgListSep l ↔ w = nextWord l ∨ w ∈ runs kgListSep (afterWord l) := by
  rw [← runs_skip, mem_runs_step hw]
  rfl

/-- One round: the next word is the name, or the walk goes on behind it. -/
theorem kgListLoop_round (name : CText) (fuel : Nat) (pre : CStr) {l : CStr}
    (hl : (0 : UInt8) ∉ l) (hne : l ≠ []) :
    ∃ pre', pre' ++ (afterWord l ++ [0]) = pre ++ (l ++ [0]) ∧
      kgListLoop (pre ++ (l ++ [0])) name.buf name.chars.length (fuel + 1) pre.length =
        if name.chars = nextWord l then some true
        else kgListLoop (pre ++ (l ++ [0])) name.buf name.chars.length fuel pre'.length := by
  have hskip : (pre ++ l.takeWhile kgListSep) ++ (l.dropWhile kgListSep ++ [0]) =
      pre ++ (l ++ [0]) := by
    rw [List.append_assoc, ← List.append_assoc (l.takeWhile kgListSep),
      List.takeWhile_append_dropWhile]
  have hbuf : (pre ++ l.takeWhile kgListSep ++ nextWord l) ++ (afterWord l ++ [0]) =
      pre ++ (l ++ [0]) := by
    rw [← hskip, nextWord, afterWord, List.append_assoc, ← List.append_assoc (List.takeWhile _ _),
      List.takeWhile_append_dropWhile]
  have hdrop : (0 : UInt8) ∉ l.dropWhile kgListSep := fun h0 =>
    hl ((List.dropWhile_sublist _).mem h0)
  have hword : (0 : UInt8) ∉ nextWord l := fun h0 => hdrop ((List.takeWhile_sublist _).mem h0)
  have hspan := strcspn_at (pre ++ l.takeWhile kgListSep) hdrop
  rw [hskip, List.length_append] at hspan
  refine ⟨pre ++ l.takeWhile kgListSep ++ nextWord l, hbuf, ?_⟩
  obtain ⟨c, rest, rfl⟩ := List.exists_cons_of_ne_nil hne
  have hget : (pre ++ (c :: rest ++ [0]))[pre.length]? = some c := by simp
  have hc : c ≠ 0 := fun h0 => hl (h0 ▸ List.mem_cons_self)
  rw [kgListLoop, hget]
  simp only [Option.bind_eq_bind, Option.bind_some, if_neg hc, skipSeps_at, hspan]
  rw [← nextWord, List.length_append, List.length_append]
  by_cases hlen : (nextWord (c :: rest)).length = name.chars.length
  · obtain ⟨r, hcmp, hiff⟩ := strncmp_eq_zero_iff hlen hword
      (pre ++ (c :: rest).takeWhile kgListSep) [] (afterWord (c :: rest) ++ [0]) [0]
    rw [← List.append_assoc, hbuf, List.length_append] at hcmp
    have hcmp' : strncmp (pre ++ (c :: rest ++ [0])) name.buf (nextWord (c :: rest)).length
        (pre.length + ((c :: rest).takeWhile kgListSep).length) 0 = some r := hcmp
    rw [if_pos hlen, hcmp', Option.bind_some]
    simp only [hiff]
    rfl
  · have hdiff : name.chars ≠ nextWord (c :: rest) := fun heq => hlen (congrArg _ heq.symm)
    rw [if_neg hlen, if_neg hdiff]

/-- From any place of the list on. -/
theorem kgListLoop_eq (name : CText) (hname : name.chars ≠ []) {fuel : Nat} (pre : CStr)
    {l : CStr} (hl : (0 : UInt8) ∉ l) (hfuel : l.length < fuel) :
    kgListLoop (pre ++ (l ++ [0])) name.buf name.chars.length fuel pre.length =
      some (decide (name.chars ∈ runs kgListSep l)) := by
  induction fuel generalizing pre l with
  | zero => exact absurd hfuel (Nat.not_lt_zero _)
  | succ fuel ih =>
      by_cases hne : l = []
      · rw [hne]
        simp [kgListLoop, runs_nil]
      · obtain ⟨pre', hbuf, hround⟩ := kgListLoop_round name fuel pre hl hne
        have hafter : (0 : UInt8) ∉ afterWord l := fun h0 =>
          hl (next_append_after l ▸ List.mem_append_right _ (List.mem_append_right _ h0))
        have hless := length_afterWord_lt hne
        have hrest := ih pre' hafter (by omega)
        rw [hbuf] at hrest
        rw [hround, hrest]
        by_cases hword : name.chars = nextWord l
        · rw [if_pos hword, decide_eq_true ((mem_runs_round hname).mpr (Or.inl hword))]
        · have hiff := mem_runs_round (l := l) hname
          rw [if_neg hword]
          simp [hiff, hword]

theorem kgListContains_eq (csv name : CStr) :
    kgListContains csv name = decide (name ∈ runs kgListSep csv) := by
  have hsplit : runs kgListSep csv = (csv.splitOnP kgListSep).filter fun r => !r.isEmpty := rfl
  rw [hsplit, Bool.eq_iff_iff, decide_eq_true_eq, List.mem_filter, and_comm]
  unfold kgListContains
  rw [Bool.and_eq_true, List.contains_iff_mem]
  rfl

/-- The walk ends, inside of its two buffers, with what the list says. -/
theorem kgListContainsMem_eq (csv name : CText) :
    kgListContainsMem csv.buf name.buf = some (kgListContains csv.chars name.chars) := by
  rw [kgListContainsMem, strlen_buf, kgListContains_eq]
  simp only [Option.bind_eq_bind, Option.bind_some]
  by_cases hname : name.chars = []
  · have hnot : name.chars ∉ runs kgListSep csv.chars := fun hmem => ne_nil_of_mem_runs hmem hname
    rw [if_pos (List.length_eq_zero_iff.mpr hname), decide_eq_false hnot]
    rfl
  · rw [if_neg (mt List.length_eq_zero_iff.mp hname)]
    exact kgListLoop_eq name hname [] csv.noNul (by simp [CText.buf])

theorem kgListContains_iff (csv name : CStr) :
    kgListContains csv name = true ↔ name ≠ [] ∧ IsRun kgListSep csv name := by
  rw [kgListContains_eq, decide_eq_true_eq, mem_runs_iff]

/-- A name is on the list exactly when it is one of the words between commas and spaces. -/
theorem list_contains_iff_word (csv name : CText) :
    ∃ b, kgListContainsMem csv.buf name.buf = some b ∧
      (b = true ↔ name.chars ≠ [] ∧ IsRun kgListSep csv.chars name.chars) :=
  ⟨kgListContains csv.chars name.chars, kgListContainsMem_eq csv name, kgListContains_iff _ _⟩

example : kgListContainsMem (str ",ev  dev," ++ [0]) (str "dev" ++ [0]) = some true ∧
    kgListContainsMem (str ",ev  dev," ++ [0]) (str "evdev" ++ [0]) = some false := by decide +kernel

/-! ### Who is trusted

An administrator writes names with commas between them.  As no name contains a comma
or a space, the words of the joined list are the names themselves, and neither a
part of one nor two of them side by side can pass for another.
-/

theorem mem_runs_of_word {e w : CStr} (he : ∀ c ∈ e, kgListSep c = false) (hw : w ≠ []) :
    w ∈ runs kgListSep e ↔ w = e := by
  have hgo : ∀ c ∈ e, (!kgListSep c) = true := fun c hc => by rw [he c hc]; rfl
  have htake : e.takeWhile (!kgListSep ·) = e := List.takeWhile_eq_self_iff.mpr hgo
  have hdrop : e.dropWhile (!kgListSep ·) = [] := List.dropWhile_eq_nil_iff.mpr hgo
  rw [mem_runs_step hw, htake, hdrop, runs_nil, or_iff_left List.not_mem_nil]

/-- Entries joined by commas: only the entries themselves are on the list, not a part of one and
not two of them put together. -/
theorem kgListContains_joined {entries : List CStr}
    (h : ∀ e ∈ entries, ∀ c ∈ e, kgListSep c = false) (name : CStr) :
    kgListContains ([chComma].intercalate entries) name = true ↔ name ≠ [] ∧ name ∈ entries := by
  rw [kgListContains_eq, decide_eq_true_eq]
  by_cases hname : name = []
  · exact ⟨fun hmem => absurd hname (ne_nil_of_mem_runs hmem), fun hin => absurd hname hin.1⟩
  rw [and_iff_right hname]
  induction entries with
  | nil => simp [runs_nil]
  | cons e rest ih =>
      have he := h e List.mem_cons_self
      have hrest := ih fun d hd => h d (List.mem_cons_of_mem e hd)
      by_cases hlast : rest = []
      · rw [hlast, List.intercalate_singleton, List.mem_singleton, mem_runs_of_word he hname]
      · rw [List.intercalate_cons_of_ne_nil hlast, List.append_assoc, List.singleton_append,
          runs_append_sep (by decide), List.mem_append, mem_runs_of_word he hname, hrest,
          List.mem_cons]

theorem kgHandlerAuthorised_iff (st : KgInput) (name : CStr) :
    kgHandlerAuthorised st name = true ↔
      (name ≠ [] ∧ (IsRun kgListSep kgBuiltinHandlers name ∨ IsRun kgListSep st.allow name)) ∨
        name ∈ st.base := by
  rw [kgHandlerAuthorised, Bool.or_eq_true, Bool.or_eq_true, kgListContains_iff,
    kgListContains_iff, ← and_or_left, List.contains_iff_mem]

theorem kgDmaAuthorized_iff (cfg : DmaConfig) (e : KgPciEnt) :
    kgDmaAuthorized cfg e = true ↔
      (∃ b ∈ cfg.base, kgSameIdentity b e = true) ∨
        IsRun kgListSep cfg.allow (bdfText e.toPciAddr) ∨
          IsRun kgListSep cfg.allow (idText e.vid e.did) := by
  have hbdf : bdfText e.toPciAddr ≠ [] := by simp [bdfText, str]
  have hid : idText e.vid e.did ≠ [] := by simp [idText, str]
  rw [kgDmaAuthorized, Bool.or_eq_true, Bool.or_eq_true, kgListContains_iff, kgListContains_iff,
    and_iff_right hbdf, and_iff_right hid, or_assoc, List.any_eq_true]

end KernelGuard
