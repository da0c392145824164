/-
The tokenizer that works in place.

`tokenize` writes the words of a line over the line, and the terminators behind them.  Two
cursors go through the memory: what is to be read stands at the one, unchanged, and
the words found so far end at the other.  `Writing` says so for the word at hand.  A
character that is copied moves both, a quote or a backslash that is dropped only the first,
so the write cursor stays behind.

A terminator may fall on the character behind the word, which has been read, or on the NUL
that ends the line.  In that case nothing is written any more, and this is what the
frame condition of `tokLoop_words` says about the words before.
-/
import KernelGuard.Spec.Tokenizer
import KernelGuard.Lib.Memory
import KernelGuard.Lib.Tokens

namespace KernelGuard

open Memory

/-- The text ahead of the read cursor, up to the NUL. -/
structure LineAhead (mem : Nat → UInt8) (p : Nat) (rest : CStr) : Prop where
  text : Holds mem p rest
  clean : 0 ∉ rest
  nul : mem (p + rest.length) = 0

theorem LineAhead.head {mem : Nat → UInt8} {p : Nat} {c : UInt8} {rest : CStr}
    (h : LineAhead mem p (c :: rest)) : mem p = c ∧ c ≠ 0 :=
  ⟨h.text.1, fun h0 => h.clean (h0 ▸ List.mem_cons_self)⟩

theorem LineAhead.tail {mem : Nat → UInt8} {p : Nat} {c : UInt8} {rest : CStr}
    (h : LineAhead mem p (c :: rest)) : LineAhead mem (p + 1) rest := by
  refine ⟨h.text.2, fun h0 => h.clean (List.mem_cons_of_mem c h0), ?_⟩
  have hnul := h.nul
  rw [List.length_cons] at hnul
  rw [← hnul]
  congr 1
  omega

theorem LineAhead.at_end {mem : Nat → UInt8} {p : Nat} (h : LineAhead mem p []) : mem p = 0 := h.nul

/-- The character behind the next one. -/
theorem LineAhead.second {mem : Nat → UInt8} {p : Nat} {c : UInt8} {rest : CStr}
    (h : LineAhead mem p (c :: rest)) : mem (p + 1) = chQuote ↔ rest.head? = some chQuote := by
  cases rest with
  | nil =>
      rw [h.tail.at_end]
      decide
  | cons d rest =>
      rw [h.tail.head.1, List.head?_cons, Option.some.injEq]

/-- What is written behind the read cursor, or a NUL on the NUL, is not ahead of it. -/
theorem LineAhead.update {mem : Nat → UInt8} {p q : Nat} {c : UInt8} {rest : CStr}
    (h : LineAhead mem p rest) (hq : q < p) : LineAhead (Function.update mem q c) p rest := by
  refine ⟨h.text.update (Or.inl hq), h.clean, ?_⟩
  rw [Function.update_of_ne (by omega)]
  exact h.nul

/-! ### The word at hand

Copying writes a byte at the place of the write cursor, which is not ahead of the
read cursor; dropping a byte leaves the memory alone.  So what is to be read stays as
it was, and that is all the induction needs.
-/

/-- The word from `start` on, and the two cursors; `stop` is where the line ends and `mem₀` the
memory before the word. -/
structure Writing (mem₀ : Nat → UInt8) (start stop : Nat) (s : TokState) (w rest : CStr) : Prop where
  ahead : LineAhead s.mem s.p rest
  written : Holds s.mem start w
  clean : 0 ∉ w
  out : s.out = start + w.length
  behind : s.out ≤ s.p
  ends : s.p + rest.length = stop
  frame : ∀ i < start, s.mem i = mem₀ i

section

variable {mem₀ : Nat → UInt8} {start stop : Nat} {s : TokState} {w rest : CStr} {c : UInt8}

/-- Nothing of the word is written yet. -/
theorem Writing.opened {mem : Nat → UInt8} {p stop : Nat} {rest : CStr} (h : LineAhead mem p rest)
    (hends : p + rest.length = stop) : Writing mem p stop ⟨mem, p, p⟩ [] rest :=
  ⟨h, trivial, List.not_mem_nil, rfl, Nat.le_refl _, hends, fun _ _ => rfl⟩

theorem Writing.skip (h : Writing mem₀ start stop s w (c :: rest)) :
    Writing mem₀ start stop { s with p := s.p + 1 } w rest where
  ahead := h.ahead.tail
  written := h.written
  clean := h.clean
  out := h.out
  behind := Nat.le_succ_of_le h.behind
  ends := by
    show s.p + 1 + rest.length = stop
    rw [← h.ends, List.length_cons]
    omega
  frame := h.frame

theorem Writing.copy (h : Writing mem₀ start stop s w (c :: rest)) :
    Writing mem₀ start stop s.copy (w ++ [c]) rest where
  ahead := h.ahead.tail.update (Nat.lt_succ_of_le h.behind)
  written := by
    show Holds (Function.update s.mem s.out (s.mem s.p)) start (w ++ [c])
    rw [h.out, h.ahead.head.1]
    exact h.written.push c
  clean := by
    rw [List.mem_append, List.mem_singleton, not_or]
    exact ⟨h.clean, h.ahead.head.2.symm⟩
  out := by
    show s.out + 1 = _
    rw [h.out, List.length_append, List.length_singleton, Nat.add_assoc]
  behind := Nat.succ_le_succ h.behind
  ends := by
    show s.p + 1 + rest.length = stop
    rw [← h.ends, List.length_cons]
    omega
  frame := fun i hi => by
    show Function.update s.mem s.out (s.mem s.p) i = mem₀ i
    rw [Function.update_of_ne (by have := h.out; omega)]
    exact h.frame i hi

/-- The part inside quotes ends at a quote, or the line does. -/
theorem tokQuoted_words (fuel : Nat) : ∀ s w rest, Writing mem₀ start stop s w rest →
    rest.length ≤ fuel →
    ∃ w' rest', Writing mem₀ start stop (tokQuoted fuel s) w' rest' ∧
      rest'.length ≤ rest.length ∧
      ((rest' = [] ∧ lineWords (.quoted w) rest = none) ∨
        ∃ r, rest' = chQuote :: r ∧ lineWords (.quoted w) rest = lineWords (.word w') r) := by
  induction fuel with
  | zero =>
      intro s w rest h hlen
      obtain rfl : rest = [] := List.eq_nil_of_length_eq_zero (Nat.le_zero.mp hlen)
      exact ⟨w, [], h, Nat.le_refl _, Or.inl ⟨rfl, rfl⟩⟩
  | succ fuel ih =>
      intro s w rest h hlen
      cases rest with
      | nil =>
          have hend : tokQuoted (fuel + 1) s = s := by
            rw [tokQuoted, if_neg (by rw [h.ahead.at_end]; decide)]
          rw [hend]
          exact ⟨w, [], h, Nat.le_refl _, Or.inl ⟨rfl, rfl⟩⟩
      | cons c rest =>
          obtain ⟨hc, hne⟩ := h.ahead.head
          rw [List.length_cons] at hlen
          by_cases hquote : c = chQuote
          · have hend : tokQuoted (fuel + 1) s = s := by
              rw [tokQuoted, if_neg (by rw [hc, hquote]; decide)]
            rw [hend]
            refine ⟨w, c :: rest, h, Nat.le_refl _, Or.inr ⟨rest, by rw [hquote], ?_⟩⟩
            rw [lineWords, if_pos hquote]
          have hgo : (s.mem s.p ≠ 0 && s.mem s.p ≠ chQuote) = true := by
            rw [hc]
            simpa using ⟨hne, hquote⟩
          by_cases hesc : c = chBackslash ∧ rest.head? = some chQuote
          · -- the backslash is dropped and the quote behind it copied
            obtain ⟨d, rest, rfl⟩ : ∃ d r, rest = d :: r := by
              cases rest with
              | nil => exact absurd hesc.2 (by simp)
              | cons d r => exact ⟨d, r, rfl⟩
            have hpair : (s.mem s.p = chBackslash && s.mem (s.p + 1) = chQuote) = true := by
              rw [hc, Bool.and_eq_true, decide_eq_true_eq, decide_eq_true_eq, h.ahead.second]
              exact hesc
            obtain ⟨w', rest', hw, hle, hcase⟩ := ih _ _ _ h.skip.copy (by simp at hlen; omega)
            rw [tokQuoted, if_pos hgo]
            simp only [hpair, if_true]
            refine ⟨w', rest', hw, by simp only [List.length_cons]; omega, ?_⟩
            rw [lineWords, if_neg hquote, if_pos hesc, lineWords]
            exact hcase
          · have hpair : ¬(s.mem s.p = chBackslash && s.mem (s.p + 1) = chQuote) = true := by
              rw [hc, Bool.and_eq_true, decide_eq_true_eq, decide_eq_true_eq, h.ahead.second]
              exact hesc
            obtain ⟨w', rest', hw, hle, hcase⟩ := ih _ _ _ h.copy (by omega)
            rw [tokQuoted, if_pos hgo]
            simp only [hpair]
            refine ⟨w', rest', hw, by rw [List.length_cons]; omega, ?_⟩
            rw [lineWords, if_neg hquote, if_neg hesc]
            exact hcase

/-- A word ends at a blank or with the line; the words of the line are this one and those behind
the blank. -/
theorem tokWord_words (fuel : Nat) : ∀ s w rest, Writing mem₀ start stop s w rest →
    rest.length ≤ fuel →
    (tokWord fuel s = none ∧ lineWords (.word w) rest = none) ∨
      ∃ s' w' rest', tokWord fuel s = some s' ∧ Writing mem₀ start stop s' w' rest' ∧
        rest'.length ≤ rest.length ∧
        lineWords (.word w) rest = (lineWords .between rest'.tail).map (w' :: ·) := by
  induction fuel with
  | zero =>
      intro s w rest h hlen
      obtain rfl : rest = [] := List.eq_nil_of_length_eq_zero (Nat.le_zero.mp hlen)
      exact Or.inr ⟨s, w, [], rfl, h, Nat.le_refl _, rfl⟩
  | succ fuel ih =>
      intro s w rest h hlen
      cases rest with
      | nil =>
          refine Or.inr ⟨s, w, [], ?_, h, Nat.le_refl _, rfl⟩
          rw [tokWord, if_neg (by rw [h.ahead.at_end]; decide)]
      | cons c rest =>
          obtain ⟨hc, hne⟩ := h.ahead.head
          rw [List.length_cons] at hlen ⊢
          by_cases hblank : isBlank c = true
          · refine Or.inr ⟨s, w, c :: rest, ?_, h, Nat.le_refl _, ?_⟩
            · rw [tokWord, if_neg (by rw [hc, hblank]; simp)]
            · rw [lineWords, if_pos hblank, List.tail_cons]
          have hgo : (s.mem s.p ≠ 0 && !isBlank (s.mem s.p)) = true := by
            rw [hc]
            simp [hne, hblank]
          by_cases hquote : c = chQuote
          · obtain ⟨w₁, rest₁, hw₁, hle₁, hcase⟩ :=
              tokQuoted_words fuel _ _ _ h.skip (Nat.le_of_succ_le_succ hlen)
            rw [tokWord, if_pos hgo, if_pos (by rw [hc, hquote]), lineWords, if_neg hblank,
              if_pos hquote]
            simp only
            rcases hcase with ⟨rfl, hnone⟩ | ⟨r, rfl, hsome⟩
            · refine Or.inl ⟨?_, hnone⟩
              rw [if_pos (by rw [hw₁.ahead.at_end]; decide)]
            · rw [List.length_cons] at hle₁
              rw [if_neg (by rw [hw₁.ahead.head.1]; simp), hsome]
              rcases ih _ _ _ hw₁.skip (by omega) with hnone | ⟨s', w', rest', hs, hw, hle, hword⟩
              · exact Or.inl hnone
              · exact Or.inr ⟨s', w', rest', hs, hw, by omega, hword⟩
          · rw [tokWord, if_pos hgo, if_neg (by rw [hc]; exact hquote), lineWords, if_neg hblank,
              if_neg hquote]
            rcases ih _ _ _ h.copy (by omega) with hnone | ⟨s', w', rest', hs, hw, hle, hword⟩
            · exact Or.inl hnone
            · exact Or.inr ⟨s', w', rest', hs, hw, by omega, hword⟩

end

/-! ### The line

The induction is over the words of the line.  What is stated of the words found so
far is that nothing that is done later touches them, which needs the place where
each of them ends.
-/

/-- A word as the caller finds it. -/
structure TokenAt (mem : Nat → UInt8) (stop p : Nat) (w : CStr) : Prop where
  text : Holds mem p w
  clean : 0 ∉ w
  nul : mem (p + w.length) = 0
  inside : p + w.length ≤ stop

theorem readStr_of_holds {mem : Nat → UInt8} {w : CStr} :
    ∀ {fuel p : Nat}, Holds mem p w → 0 ∉ w → mem (p + w.length) = 0 → w.length ≤ fuel →
      readStr mem fuel p = w := by
  induction w with
  | nil =>
      intro fuel p _ _ hnul _
      cases fuel with
      | zero => rfl
      | succ fuel =>
          rw [List.length_nil, Nat.add_zero] at hnul
          rw [readStr, if_pos hnul]
  | cons c w ih =>
      intro fuel p h hclean hnul hlen
      obtain ⟨hc, htext⟩ := h
      rw [List.mem_cons, not_or] at hclean
      rw [List.length_cons] at hnul hlen
      obtain ⟨fuel, rfl⟩ : ∃ k, fuel = k + 1 := ⟨fuel - 1, by omega⟩
      rw [readStr, hc, if_neg (Ne.symm hclean.1),
        ih htext hclean.2 (by rw [← hnul]; congr 1; omega) (by omega)]

theorem readTokens {mem : Nat → UInt8} {stop fuel : Nat} {ptrs : List Nat} {ws : List CStr}
    (h : List.Forall₂ (TokenAt mem stop) ptrs ws) (hfuel : stop ≤ fuel) :
    ptrs.map (readStr mem fuel) = ws := by
  induction h with
  | nil => rfl
  | @cons q w ptrs ws hword _ ih =>
      have hinside := hword.inside
      rw [List.map_cons, ih, readStr_of_holds hword.text hword.clean hword.nul (by omega)]

/-- Blanks in front of a word. -/
theorem skipBlanks_words {mem : Nat → UInt8} (fuel : Nat) : ∀ p rest, LineAhead mem p rest →
    rest.length ≤ fuel →
    ∃ rest', LineAhead mem (skipBlanks mem fuel p) rest' ∧ p ≤ skipBlanks mem fuel p ∧
      skipBlanks mem fuel p + rest'.length = p + rest.length ∧
      (∀ c, rest'.head? = some c → isBlank c = false) ∧
      lineWords .between rest = lineWords .between rest' := by
  induction fuel with
  | zero =>
      intro p rest h hlen
      obtain rfl : rest = [] := List.eq_nil_of_length_eq_zero (Nat.le_zero.mp hlen)
      exact ⟨[], h, Nat.le_refl p, rfl, by simp, rfl⟩
  | succ fuel ih =>
      intro p rest h hlen
      cases rest with
      | nil =>
          rw [skipBlanks, if_neg (by rw [h.at_end]; decide)]
          exact ⟨[], h, Nat.le_refl p, rfl, by simp, rfl⟩
      | cons c rest =>
          rw [List.length_cons] at hlen ⊢
          by_cases hblank : isBlank c = true
          · obtain ⟨rest', hahead, hp, hends, hhead, hwords⟩ := ih (p + 1) rest h.tail (by omega)
            rw [skipBlanks, if_pos (by rw [h.head.1]; exact hblank)]
            refine ⟨rest', hahead, by omega, by omega, hhead, ?_⟩
            rw [lineWords, if_pos hblank]
            exact hwords
          · rw [skipBlanks, if_neg (by rw [h.head.1]; exact hblank)]
            refine ⟨c :: rest, h, Nat.le_refl p, by rw [List.length_cons], ?_, rfl⟩
            intro d hd
            rw [List.head?_cons, Option.some.injEq] at hd
            rw [← hd]
            simpa using hblank

/-- The words of a line that does not begin with a blank or a comment. -/
theorem lineWords_start {c : UInt8} {rest : CStr} (hblank : isBlank c = false)
    (hhash : c ≠ chHash) : lineWords .between (c :: rest) = lineWords (.word []) (c :: rest) := by
  rw [lineWords, lineWords, hblank, if_neg hhash]
  simp only [Bool.false_eq_true, if_false, List.nil_append]

/-- The word is done: its terminator is written, and the read cursor steps over the blank. -/
theorem Writing.finish {mem₀ : Nat → UInt8} {start stop : Nat} {s : TokState} {w rest : CStr}
    (h : Writing mem₀ start stop s w rest) :
    let p := if s.mem s.p ≠ 0 then s.p + 1 else s.p
    LineAhead (Function.update s.mem s.out 0) p rest.tail ∧ p + rest.tail.length = stop ∧
      (start + w.length < p ∨ rest.tail = []) ∧
      TokenAt (Function.update s.mem s.out 0) stop start w := by
  intro p
  have hout := h.out
  have hbehind := h.behind
  have hends := h.ends
  have htoken : TokenAt (Function.update s.mem s.out 0) stop start w := by
    refine ⟨h.written.update (Or.inr (by omega)), h.clean, ?_, by omega⟩
    rw [← hout]
    exact Function.update_self _ _ _
  cases rest with
  | nil =>
      have hnul := h.ahead.at_end
      have hp : p = s.p := if_neg (fun h0 => h0 hnul)
      rw [hp]
      refine ⟨⟨trivial, List.not_mem_nil, ?_⟩, hends, Or.inr rfl, htoken⟩
      -- the terminator may fall on the NUL of the line
      by_cases heq : s.p = s.out
      · rw [List.tail_nil, List.length_nil, Nat.add_zero, heq, Function.update_self]
      · rw [List.tail_nil, List.length_nil, Nat.add_zero, Function.update_of_ne heq, hnul]
  | cons c rest =>
      have hp : p = s.p + 1 := if_pos (by rw [h.ahead.head.1]; exact h.ahead.head.2)
      rw [List.length_cons] at hends
      rw [hp, List.tail_cons]
      exact ⟨h.ahead.tail.update (by omega), by omega, Or.inl (by omega), htoken⟩

theorem TokenAt.congr {mem mem' : Nat → UInt8} {stop p : Nat} {w : CStr} (h : TokenAt mem stop p w)
    (hsame : ∀ i, i ≤ p + w.length → mem' i = mem i) : TokenAt mem' stop p w where
  text := h.text.congr fun i _ hi => hsame i (Nat.le_of_lt hi)
  clean := h.clean
  nul := by
    rw [hsame _ (Nat.le_refl _)]
    exact h.nul
  inside := h.inside

/-- What the loop is to return when the words ahead are these: they are written somewhere behind
`p`, and what stands before `p` is left alone. -/
def LoopFinds (max stop : Nat) (mem : Nat → UInt8) (p : Nat) (tok : List Nat) (rest : CStr)
    (r : Option ((Nat → UInt8) × List Nat)) : Option (List CStr) → Prop
  | none => r = none
  | some ws =>
      if tok.length + ws.length ≤ max then
        ∃ mem' ptrs, r = some (mem', tok ++ ptrs) ∧ List.Forall₂ (TokenAt mem' stop) ptrs ws ∧
          ∀ i, i < p ∨ rest = [] → mem' i = mem i
      else r = none

/-- No words ahead. -/
theorem LoopFinds.done {max stop : Nat} {mem : Nat → UInt8} {p : Nat} {tok : List Nat} {rest : CStr}
    (htok : tok.length ≤ max) : LoopFinds max stop mem p tok rest (some (mem, tok)) (some []) := by
  rw [LoopFinds, if_pos (by simpa using htok)]
  exact ⟨mem, [], by rw [List.append_nil], List.Forall₂.nil, fun _ _ => rfl⟩

/-- A word when there is no place for it. -/
theorem LoopFinds.full {max stop : Nat} {mem : Nat → UInt8} {p : Nat} {tok : List Nat}
    {rest w : CStr} (hfull : tok.length ≥ max) (ws : Option (List CStr)) :
    LoopFinds max stop mem p tok rest none (ws.map (w :: ·)) := by
  cases ws with
  | none => rfl
  | some ws => rw [Option.map_some, LoopFinds, if_neg (by rw [List.length_cons]; omega)]

/-- One more word, at `q`, in front of those the rest of the loop finds. -/
theorem LoopFinds.cons {max stop : Nat} {mem mem₁ : Nat → UInt8} {p p₁ q : Nat} {tok : List Nat}
    {rest rest₁ w : CStr} {r : Option ((Nat → UInt8) × List Nat)} {ws : Option (List CStr)}
    (h : LoopFinds max stop mem₁ p₁ (tok ++ [q]) rest₁ r ws) (hrest : rest ≠ [])
    (hword : TokenAt mem₁ stop q w) (hpast : q + w.length < p₁ ∨ rest₁ = []) (hp : p ≤ q)
    (hframe : ∀ i < q, mem₁ i = mem i) : LoopFinds max stop mem p tok rest r (ws.map (w :: ·)) := by
  cases ws with
  | none => exact h
  | some ws =>
      have hcount : (tok ++ [q]).length + ws.length = tok.length + (w :: ws).length := by
        simp only [List.length_append, List.length_cons, List.length_nil]
        omega
      rw [LoopFinds, hcount] at h
      rw [Option.map_some, LoopFinds]
      split at h
      · next hroom =>
          obtain ⟨mem', ptrs, hr, hptrs, hsame⟩ := h
          rw [if_pos hroom]
          refine ⟨mem', q :: ptrs, by rw [hr, List.append_assoc, List.singleton_append], ?_, ?_⟩
          · refine List.Forall₂.cons (hword.congr fun i hi => hsame i ?_) hptrs
            exact hpast.imp_left fun hlt => by omega
          · intro i hi
            have hlt : i < p := hi.resolve_right hrest
            rw [hsame i (hpast.imp_left fun _ => by omega), hframe i (by omega)]
      · next hfull =>
          rw [if_neg hfull]
          exact h

theorem tokLoop_words (max stop fuel : Nat) : ∀ mem p tok rest, LineAhead mem p rest →
    rest.length ≤ fuel → p + rest.length = stop → tok.length ≤ max →
    LoopFinds max stop mem p tok rest (tokLoop max fuel mem p tok) (lineWords .between rest) := by
  induction fuel with
  | zero =>
      intro mem p tok rest h hlen _ htok
      obtain rfl : rest = [] := List.eq_nil_of_length_eq_zero (Nat.le_zero.mp hlen)
      exact LoopFinds.done htok
  | succ fuel ih =>
      intro mem p tok rest h hlen hstop htok
      cases rest with
      | nil =>
          rw [tokLoop, if_pos h.at_end]
          exact LoopFinds.done htok
      | cons c rest =>
          rw [tokLoop, if_neg (by rw [h.head.1]; exact h.head.2)]
          simp only
          obtain ⟨rest₁, h₁, hp₁, hends, hhead, hwords⟩ := skipBlanks_words (fuel + 1) p _ h hlen
          rw [hwords]
          generalize skipBlanks mem (fuel + 1) p = p₁ at h₁ hp₁ hends ⊢
          cases rest₁ with
          | nil =>
              rw [if_pos (by rw [h₁.at_end]; rfl)]
              exact LoopFinds.done htok
          | cons d rest₁ =>
              have hblank := hhead d rfl
              simp only [List.length_cons] at hlen hstop hends
              by_cases hhash : d = chHash
              · rw [if_pos (by rw [h₁.head.1, hhash]; rfl), lineWords, hblank, if_neg (by simp),
                  if_pos hhash]
                exact LoopFinds.done htok
              rw [if_neg (by rw [h₁.head.1]; simp [h₁.head.2, hhash]), lineWords_start hblank hhash]
              have hstart : Writing mem p₁ stop ⟨mem, p₁, p₁⟩ [] (d :: rest₁) :=
                Writing.opened h₁ (by rw [List.length_cons, hends, hstop])
              rcases tokWord_words (fuel + 1) _ _ _ hstart (by rw [List.length_cons]; omega) with
                ⟨hnone, hwords₁⟩ | ⟨s, w, rest₂, hs, hw, hle, hwords₁⟩
              · rw [hwords₁, hnone]
                simp only [ite_self]
                rfl
              · obtain ⟨hahead, hends₂, hpast, htoken⟩ := hw.finish
                rw [hwords₁, hs]
                simp only
                by_cases hfull : tok.length ≥ max
                · rw [if_pos hfull]
                  exact LoopFinds.full hfull _
                · rw [if_neg hfull]
                  have hfuel : rest₂.tail.length ≤ fuel := by
                    rw [List.length_cons] at hle
                    rw [List.length_tail]
                    omega
                  have hroom : (tok ++ [p₁]).length ≤ max := by
                    rw [List.length_append, List.length_singleton]
                    omega
                  refine (ih _ _ _ _ hahead hfuel hends₂ hroom).cons (by simp) htoken hpast hp₁ ?_
                  intro i hi
                  rw [Function.update_of_ne (by have := hw.out; omega), hw.frame i hi]

theorem lineMem_ahead (line : CStr) : LineAhead (lineMem line) 0 (line.takeWhile (· ≠ 0)) := by
  refine ⟨?_, ?_, ?_⟩
  · have h := holds_getD 0 [] (line.takeWhile (· ≠ 0)) (line.dropWhile (· ≠ 0))
    rw [List.nil_append, List.takeWhile_append_dropWhile] at h
    exact h
  · intro h0
    simpa using List.mem_takeWhile_imp h0
  · have hnul : (line.takeWhile (· ≠ 0) ++ line.dropWhile (· ≠ 0)).getD
        (line.takeWhile (· ≠ 0)).length 0 = 0 := by
      rw [List.getD_append_right _ _ _ _ (Nat.le_refl _), Nat.sub_self]
      have hhead := List.head?_dropWhile_not (· ≠ (0 : UInt8)) line
      cases hrest : line.dropWhile (· ≠ 0) with
      | nil => rfl
      | cons c rest =>
          rw [hrest, List.head?_cons] at hhead
          simpa using hhead
    rw [List.takeWhile_append_dropWhile] at hnul
    rw [Nat.zero_add]
    exact hnul

/-- **In place is as good as apart**: the words a line has, unless there are too many. -/
theorem tokenize_eq (line : CStr) (max : Nat) :
    tokenize line max = (lineWords .between (line.takeWhile (· ≠ 0))).filter (·.length ≤ max) := by
  have hlen : (line.takeWhile (· ≠ 0)).length ≤ line.length :=
    (List.takeWhile_prefix _).length_le
  have h := tokLoop_words max _ (line.length + 1) _ 0 [] _ (lineMem_ahead line)
    (Nat.le_succ_of_le hlen) rfl (Nat.zero_le max)
  unfold tokenize
  generalize tokLoop max (line.length + 1) (lineMem line) 0 [] = r at h ⊢
  cases hwords : lineWords .between (line.takeWhile (· ≠ 0)) with
  | none =>
      rw [hwords] at h
      rw [show r = none from h]
      rfl
  | some ws =>
      rw [hwords, LoopFinds, List.length_nil, Nat.zero_add] at h
      rw [Option.filter_some]
      split at h
      · next hroom =>
          obtain ⟨mem, ptrs, hr, hptrs, -⟩ := h
          rw [hr, if_pos (by simpa using hroom), Option.map_some, List.nil_append]
          -- every word is still there when all of them have been found
          rw [readTokens hptrs (by omega)]
      · next hfull =>
          rw [h, if_neg (by simpa using hfull)]
          rfl

/-! ### Every list of words has a line

The encoding puts every character in quotes of its own, but for the backslash, which
is nothing special outside of them, so that a character is read back by itself; the
words are then read back one after the other.
-/

/-- Inside a word, an encoded character stands for itself. -/
theorem lineWords_encodeChar (w : CStr) (c : UInt8) (rest : CStr) :
    lineWords (.word w) (encodeChar c ++ rest) = lineWords (.word (w ++ [c])) rest := by
  unfold encodeChar
  by_cases hquote : c = chQuote
  · rw [if_pos hquote, hquote]
    rfl
  rw [if_neg hquote]
  by_cases hslash : c = chBackslash
  · rw [if_pos hslash, hslash]
    rfl
  · rw [if_neg hslash]
    have hopen : lineWords (.word w) ([chQuote, c, chQuote] ++ rest)
        = lineWords (.quoted w) (c :: chQuote :: rest) := rfl
    have hclose : lineWords (.quoted (w ++ [c])) (chQuote :: rest)
        = lineWords (.word (w ++ [c])) rest := rfl
    rw [hopen, lineWords, if_neg hquote, if_neg fun h => hslash h.1, hclose]

theorem lineWords_encodeChars (cs : CStr) : ∀ w rest,
    lineWords (.word w) (cs.flatMap encodeChar ++ rest) = lineWords (.word (w ++ cs)) rest := by
  induction cs with
  | nil =>
      intro w rest
      rw [List.flatMap_nil, List.nil_append, List.append_nil]
  | cons c cs ih =>
      intro w rest
      rw [List.flatMap_cons, List.append_assoc, lineWords_encodeChar, ih, List.append_assoc,
        List.singleton_append]

/-- A word and the blank behind it. -/
theorem lineWords_encodeWord (w rest : CStr) :
    lineWords .between (encodeWord w ++ chSpace :: rest) = (lineWords .between rest).map (w :: ·) := by
  have hopen : lineWords .between (encodeWord w ++ chSpace :: rest)
      = lineWords (.word []) (w.flatMap encodeChar ++ chSpace :: rest) := rfl
  rw [hopen, lineWords_encodeChars]
  rfl

theorem lineWords_encodeLine (ws : List CStr) : lineWords .between (encodeLine ws) = some ws := by
  induction ws with
  | nil => rfl
  | cons w ws ih =>
      have hcons : encodeLine (w :: ws) = encodeWord w ++ chSpace :: encodeLine ws := by
        rw [encodeLine, List.flatMap_cons, List.append_assoc, List.singleton_append]
        rfl
      rw [hcons, lineWords_encodeWord, ih]
      rfl

theorem mem_encodeChar {b c : UInt8} (h : b ∈ encodeChar c) :
    b = c ∨ b = chQuote ∨ b = chBackslash := by
  unfold encodeChar at h
  split at h
  · simp only [List.mem_cons, List.not_mem_nil, or_false] at h
    tauto
  split at h
  · exact Or.inr (Or.inr (List.mem_singleton.mp h))
  · simp only [List.mem_cons, List.not_mem_nil, or_false] at h
    tauto

/-- The encoding brings in no byte but quotes, backslashes and blanks. -/
theorem mem_encodeLine {ws : List CStr} {b : UInt8} (h : b ∈ encodeLine ws) :
    (∃ w ∈ ws, b ∈ w) ∨ b = chQuote ∨ b = chBackslash ∨ b = chSpace := by
  obtain ⟨w, hw, hb⟩ := List.mem_flatMap.mp h
  rcases List.mem_append.mp hb with hword | hblank
  · rw [encodeWord, List.mem_cons, List.mem_cons] at hword
    rcases hword with hq | hq | hchar
    · exact Or.inr (Or.inl hq)
    · exact Or.inr (Or.inl hq)
    · obtain ⟨c, hc, hbc⟩ := List.mem_flatMap.mp hchar
      rcases mem_encodeChar hbc with rfl | hq | hs
      · exact Or.inl ⟨w, hw, hc⟩
      · exact Or.inr (Or.inl hq)
      · exact Or.inr (Or.inr (Or.inl hs))
  · exact Or.inr (Or.inr (Or.inr (List.mem_singleton.mp hblank)))

/-- A byte that no word has is not in the line, either. -/
theorem not_mem_encodeLine {ws : List CStr} {b : UInt8} (h : ∀ w ∈ ws, b ∉ w)
    (hb : b ≠ chQuote ∧ b ≠ chBackslash ∧ b ≠ chSpace) : b ∉ encodeLine ws := by
  intro hmem
  rcases mem_encodeLine hmem with ⟨w, hw, hin⟩ | hq | hs | hsp
  · exact h w hw hin
  · exact hb.1 hq
  · exact hb.2.1 hs
  · exact hb.2.2 hsp

/--
**The tokenizer in place is the one that reads from left to right.**  It returns -1 exactly when the
line has an unterminated quote or more than `max` words, and otherwise the words of the line, all of
them as they stand in memory when it returns.  And every list of up to `max` words, without NUL and
newline, is what it makes of some line.
-/
theorem tokenize_refines_pure (line : CStr) (max : Nat) :
    let words := lineWords .between (line.takeWhile (· ≠ 0))
    (tokenize line max = none ↔ words = none ∨ ∃ ws, words = some ws ∧ max < ws.length) ∧
      (∀ toks, tokenize line max = some toks → words = some toks) ∧
      ∀ ws : List CStr, ws.length ≤ max → (∀ w ∈ ws, 0 ∉ w ∧ chNewline ∉ w) →
        ∃ l : CStr, 0 ∉ l ∧ chNewline ∉ l ∧ tokenize l max = some ws := by
  intro words
  have heq : tokenize line max = words.filter (·.length ≤ max) := tokenize_eq line max
  refine ⟨?_, ?_, ?_⟩
  · rw [heq]
    cases words with
    | none => simp
    | some ws => simp
  · intro toks htoks
    rw [heq] at htoks
    exact (Option.filter_eq_some_iff.mp htoks).1
  · intro ws hlen hws
    have hnul : 0 ∉ encodeLine ws := not_mem_encodeLine (fun w hw => (hws w hw).1) (by decide)
    refine ⟨encodeLine ws, hnul,
      not_mem_encodeLine (fun w hw => (hws w hw).2) (by decide), ?_⟩
    rw [tokenize_eq, Tokens.takeWhile_ne_self hnul, lineWords_encodeLine]
    exact Option.filter_some_pos (by simpa using hlen)

theorem tokenize_refines_pure_two :
    ∃ l : CStr, 0 ∉ l ∧ chNewline ∉ l ∧ tokenize l 2 = some [str "a \"b", []] :=
  (tokenize_refines_pure [] 2).2.2 [str "a \"b", []] (by decide) (by decide)

end KernelGuard
