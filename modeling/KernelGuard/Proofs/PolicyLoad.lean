/-
What is left of a policy file when the parser sees it.

The file goes through `fstat`, one `read`, a C string and the loop over its lines.  A `read` that
returns less than the size, and a NUL byte in the file, cut it short, and what is left of it
may well be a policy.  A loss shows in the lines the parser goes through, unless all that is
missing is the newline behind the last of them: `textLines_eq_iff` says when a prefix of a
text has the same lines.
-/
import KernelGuard.Proofs.Accepted
import KernelGuard.Proofs.Tokenizer

namespace KernelGuard

/-- Nothing but white space, or a comment behind it. -/
def BlankLine (line : CStr) : Prop :=
  line.dropWhile isBlank = [] ∨ (line.dropWhile isBlank).head? = some chHash

/-- The policy has the action or the rule of a line. -/
def HasEntryOf (fs : KgpFs) (pol : KgpPolicy) (line : CStr) : Prop :=
  ∃ before,
    (∃ a ∈ pol.actions, parseLine (some fs) before line
      = .ok { before with actions := before.actions ++ [a] }) ∨
    ∃ r ∈ pol.rules, parseLine (some fs) before line
      = .ok { before with rules := before.rules ++ [r] }

/-- All lines of the file were gone through, and each that says something is in the policy. -/
structure LoadedWhole (fs : KgpFs) (f : KgpFile) (got : Nat) (pol : KgpPolicy) : Prop where
  lines : kgpLines (f.content.take got) = textLines f.content
  entries : ∀ line ∈ textLines f.content, ¬BlankLine line → HasEntryOf fs pol line

/-- The file has no NUL, and all of it was read, or all but the newline that ends its last line. -/
def NothingLost (content : List UInt8) (got : Nat) : Prop :=
  0 ∉ content ∧ (content.length ≤ got ∨
    ∃ s c, content = s ++ [c, chNewline] ∧ c ≠ chNewline ∧ s.length + 1 ≤ got)

/-! ### Lines of a prefix

A text that was cut off has the lines of a prefix, and the last of them may be
incomplete.  An incomplete line can be a line of its own, so the question is when the
lines are nevertheless the same, and the answer does not depend on what they say.
-/

/-- A text is its lines, each ended by a newline, and what stands behind the last newline. -/
theorem text_cut (text : CStr) : ∃ ls w, text = ls.flatMap (· ++ [chNewline]) ++ w ∧
    (∀ l ∈ ls, chNewline ∉ l) ∧ chNewline ∉ w ∧
    textLines text = if w = [] then ls else ls ++ [w] := by
  obtain ⟨ls, w, hsplit⟩ : ∃ ls w, text.splitOn chNewline = ls ++ [w] := by
    have hne := List.splitOn_ne_nil chNewline text
    exact ⟨_, _, (List.dropLast_append_getLast hne).symm⟩
  have hmem : ∀ l ∈ ls ++ [w], chNewline ∉ l := by
    rw [← hsplit]
    intro l hl hin
    exact (Tokens.mem_splitOn l hl _ hin).2 rfl
  refine ⟨ls, w, ?_, fun l hl => hmem l (List.mem_append_left _ hl),
    hmem w (List.mem_append_right _ List.mem_cons_self), ?_⟩
  · rw [← Tokens.intercalate_concat, ← hsplit, List.intercalate_splitOn]
  · unfold textLines
    simp only [hsplit, List.getLast?_concat, List.dropLast_concat, Option.some.injEq]

/-- A text that was cut off has the same lines only if nothing but the newline that ends the last
one is missing. -/
theorem textLines_eq_iff {s t : CStr} (h : s <+: t) : textLines s = textLines t ↔
    t = s ∨ (t = s ++ [chNewline] ∧ ∃ r c, s = r ++ [c] ∧ c ≠ chNewline) := by
  obtain ⟨ls, w, hs, hls, hw, hlines⟩ := text_cut s
  obtain ⟨lt, v, ht, hlt, hv, htlines⟩ := text_cut t
  constructor
  · intro heq
    rw [hlines, htlines] at heq
    by_cases hw0 : w = []
    · by_cases hv0 : v = []
      · rw [if_pos hw0, if_pos hv0] at heq
        left
        rw [hs, ht, hw0, hv0, heq]
      · -- the shorter text would be the longer one
        rw [if_pos hw0, if_neg hv0] at heq
        have hlong : s = t ++ [chNewline] := by
          rw [hs, ht, hw0, heq, List.flatMap_append, List.flatMap_singleton, List.append_nil,
            List.append_assoc]
        have hle := h.length_le
        rw [hlong, List.length_append, List.length_singleton] at hle
        omega
    · by_cases hv0 : v = []
      · rw [if_neg hw0, if_pos hv0] at heq
        right
        refine ⟨?_, ?_⟩
        · rw [hs, ht, hv0, ← heq, List.flatMap_append, List.flatMap_singleton, List.append_nil,
            List.append_assoc]
        · refine ⟨ls.flatMap (· ++ [chNewline]) ++ w.dropLast, w.getLast hw0, ?_, ?_⟩
          · rw [List.append_assoc, List.dropLast_append_getLast, hs]
          · intro hnl
            exact hw (hnl ▸ List.getLast_mem hw0)
      · rw [if_neg hw0, if_neg hv0] at heq
        obtain ⟨hl, hwv⟩ := List.append_inj' heq rfl
        left
        rw [hs, ht, hl, List.singleton_inj.mp hwv]
  · rintro (rfl | ⟨htn, r, c, hr, hc⟩)
    · rfl
    · have hw0 : w ≠ [] := by
        rintro rfl
        rcases List.eq_nil_or_concat ls with rfl | ⟨ls', l, rfl⟩
        · simp [hr] at hs
        · -- the text before the newline would end in one itself
          rw [hr, List.concat_eq_append, List.flatMap_append, List.flatMap_singleton,
            List.append_nil, ← List.append_assoc] at hs
          exact hc (List.singleton_inj.mp (List.append_inj' hs rfl).2)
      have hends : t = (ls ++ [w]).flatMap (· ++ [chNewline]) := by
        rw [htn, hs, List.flatMap_append, List.flatMap_singleton, List.append_assoc]
      have hall : ∀ l ∈ ls ++ [w], chNewline ∉ l := by
        intro l hl
        rcases List.mem_append.mp hl with hin | hin
        · exact hls l hin
        · exact List.mem_singleton.mp hin ▸ hw
      rw [hlines, if_neg hw0, hends, textLines, Tokens.splitOn_flatMap hall]
      simp only [List.getLast?_concat, if_true, List.dropLast_concat]

/-- What is left of a file has the lines of the file exactly when nothing is lost. -/
theorem kgpLines_take_iff (content : List UInt8) (got : Nat) :
    kgpLines (content.take got) = textLines content ↔ NothingLost content got := by
  have hseen : (content.take got).takeWhile (· ≠ 0) <+: content :=
    (List.takeWhile_prefix _).trans (List.take_prefix got content)
  have hclean : 0 ∉ (content.take got).takeWhile (· ≠ 0) := fun h0 => by
    simpa using List.mem_takeWhile_imp h0
  unfold kgpLines
  rw [textLines_eq_iff hseen]
  generalize hs : (content.take got).takeWhile (· ≠ 0) = s at hseen hclean
  have hslen : s.length ≤ got := by
    rw [← hs]
    exact Nat.le_trans (List.takeWhile_prefix _).length_le (List.length_take_le got content)
  constructor
  · rintro (hall | ⟨hnl, r, c, hr, hc⟩)
    · rw [hall]
      exact ⟨hclean, Or.inl hslen⟩
    · refine ⟨?_, Or.inr ⟨r, c, ?_, hc, ?_⟩⟩
      · rw [hnl, List.mem_append, not_or]
        exact ⟨hclean, by decide⟩
      · rw [hnl, hr, List.append_assoc]
        rfl
      · rw [hr, List.length_append, List.length_singleton] at hslen
        exact hslen
  · rintro ⟨hnul, hcase⟩
    have hread : s = content.take got := by
      rw [← hs]
      exact Tokens.takeWhile_ne_self fun h0 => hnul (List.mem_of_mem_take h0)
    by_cases hlen : content.length ≤ got
    · left
      rw [hread, List.take_of_length_le hlen]
    · obtain ⟨r, c, hr, hc, hgot⟩ := hcase.resolve_left hlen
      have hsplit : content = (r ++ [c]) ++ [chNewline] := by
        rw [hr, List.append_assoc]
        rfl
      have hexact : got = (r ++ [c]).length := by
        rw [hsplit, List.length_append, List.length_append, List.length_singleton,
          List.length_singleton] at hlen
        rw [List.length_append, List.length_singleton]
        omega
      have hrc : s = r ++ [c] := by rw [hread, hexact, hsplit, List.take_left]
      right
      exact ⟨by rw [hrc]; exact hsplit, r, c, hrc, hc⟩

/-! ### Entries

A line with words on it is an action or a rule if it is accepted, and its entry
stays in the policy.  So every line the parser went through and that says something
has its entry, without a look at the options.
-/

/-- A word that has begun is one of the words. -/
theorem lineWords_ne_nil (rest : CStr) : ∀ mode, mode ≠ .between → lineWords mode rest ≠ some [] := by
  induction rest with
  | nil =>
      intro mode hmode
      cases mode with
      | between => exact absurd rfl hmode
      | word w => simp [lineWords]
      | quoted w => simp [lineWords]
      | escaped w => simp [lineWords]
  | cons c rest ih =>
      intro mode hmode
      cases mode with
      | between => exact absurd rfl hmode
      | word w =>
          rw [lineWords]
          split
          · simp
          split
          · exact ih _ (by simp)
          · exact ih _ (by simp)
      | quoted w =>
          rw [lineWords]
          split
          · exact ih _ (by simp)
          split
          · exact ih _ (by simp)
          · exact ih _ (by simp)
      | escaped w =>
          rw [lineWords]
          exact ih _ (by simp)

/-- A line without words says nothing. -/
theorem blank_of_no_words {line : CStr} (h : lineWords .between line = some []) :
    BlankLine line := by
  induction line with
  | nil => exact Or.inl rfl
  | cons c rest ih =>
      by_cases hblank : isBlank c = true
      · rw [lineWords, if_pos hblank] at h
        have hrest := ih h
        unfold BlankLine at hrest ⊢
        rw [List.dropWhile_cons_of_pos hblank]
        exact hrest
      · by_cases hhash : c = chHash
        · right
          rw [List.dropWhile_cons_of_neg hblank, hhash]
          rfl
        · rw [lineWords_start (by simpa using hblank) hhash] at h
          exact absurd h (lineWords_ne_nil _ _ (by simp))

/-- A line that says something and is accepted makes an entry. -/
theorem parseLine_entry {fs : KgpFs} {pol pol' : KgpPolicy} {line : CStr}
    (hpol : pol.actions.length ≤ kgpMaxActions) (hnul : 0 ∉ line) (hline : ¬BlankLine line)
    (h : parseLine (some fs) pol line = .ok pol') : HasEntryOf fs pol' line := by
  refine ⟨pol, ?_⟩
  have hall := h
  unfold parseLine at h
  split at h
  · exact absurd h (by simp)
  · next hnone =>
      rw [tokenize_eq, Tokens.takeWhile_ne_self hnul] at hnone
      exact absurd (blank_of_no_words (Option.filter_eq_some_iff.mp hnone).1) hline
  · split at h
    · obtain ⟨a, rfl, -⟩ := parseAction_cases h
      exact Or.inl ⟨a, by simp, hall⟩
    split at h
    · obtain ⟨r, rfl, -⟩ := parseRule_cases hpol h
      exact Or.inr ⟨r, by simp, hall⟩
    · exact absurd h (by simp)

/-- The entries of the lines before stay. -/
theorem HasEntryOf.parseLine {fs : KgpFs} {pol pol' : KgpPolicy} {line l : CStr}
    (hpol : pol.actions.length ≤ kgpMaxActions) (h : KernelGuard.parseLine (some fs) pol l = .ok pol')
    (hentry : HasEntryOf fs pol line) : HasEntryOf fs pol' line := by
  obtain ⟨before, hcase⟩ := hentry
  have hmore : (∀ a ∈ pol.actions, a ∈ pol'.actions) ∧ ∀ r ∈ pol.rules, r ∈ pol'.rules := by
    rcases parseLine_cases hpol h with rfl | ⟨a, rfl, -⟩ | ⟨r, rfl, -⟩
    · exact ⟨fun _ h => h, fun _ h => h⟩
    · exact ⟨fun _ h => List.mem_append_left _ h, fun _ h => h⟩
    · exact ⟨fun _ h => h, fun _ h => List.mem_append_left _ h⟩
  refine ⟨before, hcase.imp ?_ ?_⟩
  · rintro ⟨a, ha, hline⟩
    exact ⟨a, hmore.1 a ha, hline⟩
  · rintro ⟨r, hr, hline⟩
    exact ⟨r, hmore.2 r hr, hline⟩

theorem parseLines_entries {fs : KgpFs} (lines : List CStr) :
    ∀ pol, parseLines (some fs) lines 0 KgpPolicy.zero = .ok pol →
      ∀ line ∈ lines, 0 ∉ line → ¬BlankLine line → HasEntryOf fs pol line := by
  induction lines using List.reverseRecOn with
  | nil => exact fun _ _ line hline => absurd hline List.not_mem_nil
  | append_singleton lines l ih =>
      intro pol h line hline hnul hsome
      obtain ⟨p, hp, hl⟩ := parseLines_snoc h
      have hwf := (parseLines_wf _ p hp).1
      rcases List.mem_append.mp hline with hin | hin
      · exact (ih p hp line hin hnul hsome).parseLine hwf.nactions hl
      · rw [List.mem_singleton.mp hin] at hnul hsome ⊢
        exact parseLine_entry hwf.nactions hnul hsome hl

/-! ### Loading

Of the steps of `kgp_load_file` only the `read` and the C string lose something.  The
other checks refuse.
-/

/-- A file that was loaded was read, and what was read was parsed. -/
theorem kgpLoadFile_ok {fs : KgpFs} {path : CStr} {f : KgpFile} {pol : KgpPolicy}
    (h : kgpLoadFile fs path f = .ok pol) :
    ∃ got, f.read = .ok got ∧
      parseLines (some fs) (kgpLines (f.content.take got)) 0 KgpPolicy.zero = .ok pol := by
  unfold kgpLoadFile at h
  split at h
  · exact absurd h (by simp)
  split at h
  · exact absurd h (by simp)
  split at h
  · exact absurd h (by simp)
  split at h
  · exact absurd h (by simp)
  split at h
  · exact absurd h (by simp)
  split at h
  · exact absurd h (by simp)
  split at h
  · exact absurd h (by simp)
  next got hread =>
  split at h
  · exact absurd h (by simp)
  next p hp =>
  refine ⟨got, hread, ?_⟩
  simp only [Except.ok.injEq] at h
  rw [← h, ← hp, kgpParse, kgpLines, Tokens.takeWhile_append_stop]

/--
**Loaded whole, unless something was lost on the way.**  When a policy file is loaded, all its lines
were gone through, and each that says something has its entry, exactly when the file has no NUL and
`read` returned all of it, but possibly for the newline at its end.
-/
theorem load_whole_iff (fs : KgpFs) (path : CStr) (f : KgpFile) (pol : KgpPolicy)
    (h : kgpLoadFile fs path f = .ok pol) :
    ∃ got, f.read = .ok got ∧ (LoadedWhole fs f got pol ↔ NothingLost f.content got) := by
  obtain ⟨got, hread, hparse⟩ := kgpLoadFile_ok h
  refine ⟨got, hread, fun hwhole => (kgpLines_take_iff _ _).mp hwhole.lines, fun hlost => ?_⟩
  have hlines := (kgpLines_take_iff _ _).mpr hlost
  refine ⟨hlines, fun line hline hsome => ?_⟩
  rw [← hlines] at hline
  exact parseLines_entries _ pol hparse line hline (mem_kgpLines line hline).1 hsome

/-- A file of root's, all of which is read. -/
def rootFile (content : List UInt8) : KgpFile where
  opened := .ok ()
  fstat := some ⟨0o100644, 0⟩
  content := content
  read := .ok content.length
  readAllowed := fun got h => by
    obtain rfl : content.length = got := by simpa using h
    exact ⟨Nat.le_refl _, List.eq_nil_of_length_eq_zero⟩

/-- All programs are root's. -/
def rootFs : KgpFs := ⟨fun _ => .ok ⟨0o100755, 0⟩, 0⟩

theorem load_whole_iff_action : ∃ got, (rootFile (str "action a /a")).read = .ok got ∧
    (LoadedWhole rootFs (rootFile (str "action a /a")) got ⟨[⟨str "a", [str "/a"], 10⟩], []⟩ ↔
      NothingLost (str "action a /a") got) :=
  load_whole_iff rootFs (str "/p") (rootFile (str "action a /a")) _ (by rfl)

/-- A rule behind a NUL byte is lost, and the rest of the file is loaded. -/
theorem rule_behind_nul_is_lost :
    ¬∀ fs path f pol, kgpLoadFile fs path f = .ok pol →
      ∃ got, f.read = .ok got ∧ LoadedWhole fs f got pol := by
  intro hall
  obtain ⟨got, -, hwhole⟩ := hall rootFs (str "/p")
    (rootFile (str "action a /a\n" ++ 0 :: str "rule r do=a\n"))
    ⟨[⟨str "a", [str "/a"], 10⟩], []⟩ (by rfl)
  have hnul := ((kgpLines_take_iff _ _).mp hwhole.lines).1
  exact hnul (List.mem_append_right _ List.mem_cons_self)

end KernelGuard
