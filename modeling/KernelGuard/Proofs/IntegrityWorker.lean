/-
What the integrity worker on Windows finds, and what it does not report.

It checks one module a turn, `verifyIdx % g_BaselineCount`.  The counter has 32 bits, and where it
wraps the order of the modules is broken once; so a module that is patched is checked within
`2 * g_BaselineCount - 1` turns (`exists_turn`), and then fail-safe mode is entered
(`text_patch_found`).  In a clean system nothing is reported, if the hash of the shared state is
taken before the first turn (`clean_run`).

The other alerts of the worker, and what else its threads do meanwhile, have no part
in this: a check of a module reads the module's text and its own entry, and its
alert is among the operations the thread still has to run.  So the statement about a
run is an induction over the moves with two facts, the number of checks so far and
whether the alert has been dispatched or is still owed.
-/
import KernelGuard.Proofs.FailSafe

namespace KernelGuard

open Threads

/-! ### The hash

`ComputeSha256` feeds the data in chunks, and every call may fail.  A digest that is
computed is therefore that of the data, and without failing calls there is one; the
chunks show in neither.
-/

theorem hashChunks_some {bc : BCryptCalls} {fuel i : Nat} {rest given out : List UInt8}
    (hfuel : rest.length ≤ fuel) (h : hashChunks bc fuel i rest given = some out) :
    out = given ++ rest := by
  induction fuel generalizing i rest given with
  | zero =>
      obtain rfl := List.eq_nil_of_length_eq_zero (Nat.le_zero.mp hfuel)
      simpa [hashChunks, eq_comm] using h
  | succ fuel ih =>
      rw [hashChunks] at h
      split at h
      · rename_i hempty
        simpa [List.isEmpty_iff.mp hempty, eq_comm] using h
      split at h
      · rename_i hne _
        have hpos : 0 < rest.length := List.length_pos_iff.mpr (by simpa using hne)
        rw [ih (by rw [List.length_drop]; unfold hashChunkSize; omega) h, List.append_assoc,
          List.take_append_drop]
      · cases h

theorem hashChunks_isSome {bc : BCryptCalls} (hbc : ∀ i, bc.hashed i = true) (fuel i : Nat)
    (rest given : List UInt8) : (hashChunks bc fuel i rest given).isSome = true := by
  induction fuel generalizing i rest given with
  | zero => rfl
  | succ fuel ih =>
      rw [hashChunks]
      split
      · rfl
      · rw [if_pos (hbc i)]
        exact ih _ _ _

/-- A digest that is computed is the one of the data, in however many chunks. -/
theorem computeSha256_some {sha : List UInt8 → KiDigest} {bc : BCryptCalls} {data : List UInt8}
    {d : KiDigest} (h : computeSha256 sha bc data = some d) : d = sha data := by
  rw [computeSha256] at h
  split at h
  · split at h
    · cases h
    · rename_i given hgiven
      split at h
      · rw [hashChunks_some (Nat.le_refl _) hgiven, List.nil_append, Option.some.injEq] at h
        exact h.symm
      · cases h
  · cases h

/-- Every call succeeds. -/
structure BCryptCalls.Fine (bc : BCryptCalls) : Prop where
  opened : bc.opened = true
  created : bc.created = true
  hashed : ∀ i, bc.hashed i = true
  finished : bc.finished = true

theorem BCryptCalls.Fine.computeSha256 {bc : BCryptCalls} (h : bc.Fine)
    (sha : List UInt8 → KiDigest) (data : List UInt8) :
    computeSha256 sha bc data = some (sha data) := by
  obtain ⟨given, hgiven⟩ := Option.isSome_iff_exists.mp
    (hashChunks_isSome h.hashed data.length 0 data [])
  rw [KernelGuard.computeSha256, hgiven, h.opened, h.created,
    hashChunks_some (Nat.le_refl _) hgiven]
  simp [h.finished]

theorem foldl_or_eq_zero {α : Type} (f : α → UInt32) (l : List α) (acc : UInt32) :
    l.foldl (fun diff i => diff ||| f i) acc = 0 ↔ acc = 0 ∧ ∀ i ∈ l, f i = 0 := by
  induction l generalizing acc with
  | nil => simp
  | cons i rest ih =>
      rw [List.foldl_cons, ih, UInt32.or_eq_zero_iff, List.forall_mem_cons, and_assoc]

theorem constantTimeMemEq_iff {a b : KiDigest} : constantTimeMemEq a b = true ↔ a = b := by
  rw [constantTimeMemEq, beq_iff_eq, foldl_or_eq_zero, funext_iff]
  simp only [true_and, List.mem_finRange, forall_const]
  refine forall_congr' fun i => ?_
  rw [← UInt32.toNat_inj, UInt8.toNat_toUInt32, ← UInt8.xor_eq_zero_iff, ← UInt8.toNat_inj]
  rfl

/-! ### The baseline

An entry is taken only when the text was found and hashed, so the entries are known
to agree with the modules they were taken of.  The rest of the file uses that and not
how sections are found.
-/

/-- What is known of an entry of the baseline when it is taken. -/
structure BaselineEntry.Taken (sha : List UInt8 → KiDigest) (mem : UInt64 → Option UInt8)
    (e : BaselineEntry) : Prop where
  computed : e.hashComputed = true
  hash : ∃ text, readBytes mem e.textSectionBase e.textSectionSize.toNat = some text ∧
    e.sha256Hash = sha text

theorem length_of_mapM {α β : Type} {f : α → Option β} {l : List α} {r : List β}
    (h : l.mapM f = some r) : r.length = l.length := by
  induction l generalizing r with
  | nil =>
      obtain rfl := Option.some.inj h
      rfl
  | cons a rest ih =>
      simp only [List.mapM_cons, Option.bind_eq_bind, Option.bind_eq_some_iff] at h
      obtain ⟨b, -, bs, hbs, hr⟩ := h
      cases hr
      rw [List.length_cons, List.length_cons, ih hbs]

theorem readLe_lt {mem : UInt64 → Option UInt8} {addr : UInt64} {n v : Nat}
    (h : readLe mem addr n = some v) : v < 256 ^ n := by
  obtain ⟨b, hb, rfl⟩ := Option.map_eq_some_iff.mp h
  have hlen : b.length = n := by simpa using length_of_mapM hb
  exact hlen ▸ Bytes.leValue_lt b

theorem baselineEntry_taken {sha : List UInt8 → KiDigest} {bc : BCryptCalls}
    {mem : UInt64 → Option UInt8} {base : UInt64} {e : BaselineEntry}
    (h : baselineEntry sha bc mem base = some (some e)) : e.Taken sha mem := by
  simp only [baselineEntry, Option.bind_eq_bind] at h
  obtain ⟨magic, -, h⟩ := Option.bind_eq_some_iff.mp h
  split at h
  · cases h
  obtain ⟨lfanew, -, h⟩ := Option.bind_eq_some_iff.mp h
  obtain ⟨signature, -, h⟩ := Option.bind_eq_some_iff.mp h
  split at h
  · cases h
  obtain ⟨sections, -, h⟩ := Option.bind_eq_some_iff.mp h
  obtain ⟨optional, -, h⟩ := Option.bind_eq_some_iff.mp h
  obtain ⟨found, -, h⟩ := Option.bind_eq_some_iff.mp h
  split at h
  · cases h
  · rename_i sec
    obtain ⟨virtualSize, hsize, h⟩ := Option.bind_eq_some_iff.mp h
    obtain ⟨virtualAddress, -, h⟩ := Option.bind_eq_some_iff.mp h
    obtain ⟨text, htext, h⟩ := Option.bind_eq_some_iff.mp h
    split at h
    · cases h
    · rename_i hash hhash
      cases h
      have hlt : (UInt32.ofNat virtualSize).toNat = virtualSize :=
        UInt32.toNat_ofNat_of_lt' (readLe_lt hsize)
      exact ⟨rfl, text, hlt.symm ▸ htext, computeSha256_some hhash⟩

theorem buildIntegrityBaseline_taken (sha : List UInt8 → KiDigest) (bc : UInt64 → BCryptCalls)
    (mem : UInt64 → Option UInt8) (bases : List UInt64) :
    let baseline := buildIntegrityBaseline sha bc mem bases
    baseline.length ≤ maxBaselineEntries ∧ ∀ e ∈ baseline, e.Taken sha mem := by
  refine List.foldlRecOn bases _
    (motive := fun entries : List BaselineEntry =>
      entries.length ≤ maxBaselineEntries ∧ ∀ e ∈ entries, e.Taken sha mem)
    ⟨by simp, by simp⟩ fun entries h base _ => ?_
  split
  · exact h
  rename_i hroom
  split
  · rename_i e he
    refine ⟨?_, fun e' he' => ?_⟩
    · rw [List.length_append, List.length_singleton]
      have := not_or.mp hroom
      omega
    · rcases List.mem_append.mp he' with hold | hnew
      · exact h.2 e' hold
      · rw [List.mem_singleton.mp hnew]
        exact baselineEntry_taken he
  · exact h
/-! ### The turns of the modules

The counter goes on by one with each check and wraps at 2^32.  Between two wraps the
remainders go through all modules in order, so of any `2n - 1` turns in a row `n`
lie on one side of a wrap.
-/

/-- `v` is the counter: behind the place where it wraps, or before it, all modules come. -/
theorem exists_turn {n k : Nat} (hn : n ≤ 2 ^ 32) (hk : k < n) (v : Nat) :
    ∃ j < 2 * n - 1, (v + j) % 2 ^ 32 % n = k := by
  by_cases hwrap : v % 2 ^ 32 + n ≤ 2 ^ 32
  · refine ⟨(k + n - v % 2 ^ 32 % n) % n, ?_, ?_⟩
    · have := Nat.mod_lt (k + n - v % 2 ^ 32 % n) (by omega : 0 < n)
      omega
    · have hmod := Nat.mod_lt (v % 2 ^ 32) (by omega : 0 < n)
      have hj := Nat.mod_lt (k + n - v % 2 ^ 32 % n) (by omega : 0 < n)
      have hlt : v % 2 ^ 32 + (k + n - v % 2 ^ 32 % n) % n < 2 ^ 32 := by omega
      calc (v + (k + n - v % 2 ^ 32 % n) % n) % 2 ^ 32 % n
          = (v % 2 ^ 32 + (k + n - v % 2 ^ 32 % n) % n) % n := by
            rw [Nat.add_mod, Nat.mod_eq_of_lt (a := (k + n - v % 2 ^ 32 % n) % n) (by omega),
              Nat.mod_eq_of_lt hlt]
        _ = (v % 2 ^ 32 % n + (k + n - v % 2 ^ 32 % n)) % n := by
            rw [Nat.add_mod_mod, ← Nat.mod_add_mod]
        _ = k := by
            rw [show v % 2 ^ 32 % n + (k + n - v % 2 ^ 32 % n) = k + n by omega,
              Nat.add_mod_right, Nat.mod_eq_of_lt hk]
  · refine ⟨2 ^ 32 - v % 2 ^ 32 + k, by omega, ?_⟩
    have hcount : (v + (2 ^ 32 - v % 2 ^ 32 + k)) % 2 ^ 32 = k := by omega
    rw [hcount, Nat.mod_eq_of_lt hk]

/-- What does not change of an entry. -/
def BaselineEntry.fixed (e : BaselineEntry) : BaselineEntry := { e with verified := false }

def KiOutput.isCheck : KiOutput → Bool
  | .checked _ => true
  | _ => false

/-- How often `VerifyModuleIntegrity` was called. -/
def KiShared.checks (s : KiShared) : Nat := s.log.countP KiOutput.isCheck

theorem checks_put (s : KiShared) {out : KiOutput} (h : out.isCheck = false) :
    (s.put out).checks = s.checks := by
  simp [KiShared.put, KiShared.checks, h]

theorem map_fixed_set {l : List BaselineEntry} {i : Nat} {e e' : BaselineEntry}
    (hi : l[i]? = some e) (h : e'.fixed = e.fixed) :
    (l.set i e').map BaselineEntry.fixed = l.map BaselineEntry.fixed := by
  rw [List.map_set, h]
  refine List.ext_getElem? fun j => ?_
  by_cases hij : i = j
  · subst hij
    have hlt := (List.getElem?_eq_some_iff.mp hi).1
    rw [List.getElem?_set_self (by simpa using hlt), List.getElem?_map, hi, Option.map_some]
  · rw [List.getElem?_set_ne hij]

theorem map_fixed_modify (l : List BaselineEntry) (i : Nat) :
    (l.modify i ({ · with verified := false })).map BaselineEntry.fixed
      = l.map BaselineEntry.fixed := by
  refine List.ext_getElem? fun j => ?_
  rw [List.getElem?_map, List.getElem?_map, List.getElem?_modify]
  cases l[j]? with
  | none => rfl
  | some e => by_cases hij : i = j <;> simp [hij, BaselineEntry.fixed]

section

variable {numCpus : Nat} {sha : List UInt8 → KiDigest} {passive : Bool} {w : KiWorld} {op : KiOp}
  {sh : KiShared}

theorem verifyModuleIntegrity_cases (sha : List UInt8 → KiDigest) (w : KiWorld) (i : Nat)
    (e : BaselineEntry) (sh : KiShared) :
    (∃ baseline, verifyModuleIntegrity sha w i e sh = ([], { sh with baseline := baseline }) ∧
        (baseline = sh.baseline ∨ baseline = sh.baseline.set i { e with verified := true })) ∨
      (verifyModuleIntegrity sha w i e sh = (textPatchFound i e, sh) ∧
        ∃ d, computeSha256 sha w.bcrypt (w.text e.textSectionBase e.textSectionSize) = some d ∧
          d ≠ e.sha256Hash) := by
  rw [verifyModuleIntegrity]
  split
  · exact .inl ⟨sh.baseline, rfl, .inl rfl⟩
  split
  · exact .inl ⟨sh.baseline, rfl, .inl rfl⟩
  · rename_i d hd
    split
    · exact .inl ⟨_, rfl, .inr rfl⟩
    · rename_i hne
      exact .inr ⟨rfl, d, hd, mt constantTimeMemEq_iff.mpr hne⟩

variable (numCpus sha passive w op sh) in
/-- A check takes the next entry; the other operations leave the counter as it is. -/
theorem kiExec_turn : let sh' := (kiExec numCpus sha passive w op sh).2
    sh'.baseline.map BaselineEntry.fixed = sh.baseline.map BaselineEntry.fixed ∧
      ((sh'.verifyIdx = sh.verifyIdx ∧ sh'.checks = sh.checks) ∨
        (op = .verifyModuleIntegrity ∧ sh'.verifyIdx = sh.verifyIdx + 1 ∧
          sh'.checks = sh.checks + 1)) := by
  cases op
  case verifyModuleIntegrity =>
    rw [kiExec]
    dsimp only
    split
    · exact ⟨rfl, .inl ⟨rfl, rfl⟩⟩
    · rename_i e he
      have hchecks : ∀ baseline, KiShared.checks
          { sh.put (.checked (sh.verifyIdx.toNat % sh.baseline.length)) with
            verifyIdx := sh.verifyIdx + 1, baseline := baseline } = sh.checks + 1 := fun _ => by
        simp [KiShared.put, KiShared.checks, KiOutput.isCheck]
      obtain ⟨baseline, heq, hbaseline⟩ | ⟨heq, -⟩ := verifyModuleIntegrity_cases sha w
        (sh.verifyIdx.toNat % sh.baseline.length) e
        { sh.put (.checked (sh.verifyIdx.toNat % sh.baseline.length)) with
          verifyIdx := sh.verifyIdx + 1 }
      · rw [heq]
        refine ⟨?_, .inr ⟨rfl, rfl, hchecks baseline⟩⟩
        rcases hbaseline with rfl | rfl
        · rfl
        · exact map_fixed_set he rfl
      · rw [heq]
        exact ⟨rfl, .inr ⟨rfl, rfl, hchecks sh.baseline⟩⟩
  case enableSpeculationControls cpu =>
    rw [kiExec]
    dsimp only
    split
    · exact ⟨rfl, .inl ⟨rfl, rfl⟩⟩
    · exact ⟨rfl, .inl ⟨rfl, checks_put sh rfl⟩⟩
  case setTextPatch i => exact ⟨map_fixed_modify sh.baseline i, .inl ⟨rfl, rfl⟩⟩
  case dispatchCrossModuleEvent | secureCommNotify | secureCommMsrSignal =>
    exact ⟨rfl, .inl ⟨rfl, checks_put sh rfl⟩⟩
  case executeSecurityBoundaryFlush cpu => exact ⟨rfl, .inl ⟨rfl, checks_put sh rfl⟩⟩
  all_goals exact ⟨rfl, .inl ⟨rfl, rfl⟩⟩

/-- The text of the module is not what it was, whatever it is now, and can be hashed. -/
structure Patched (sha : List UInt8 → KiDigest) (e : BaselineEntry) (w : KiWorld) : Prop where
  bcrypt : w.bcrypt.Fine
  text : sha (w.text e.textSectionBase e.textSectionSize) ≠ e.sha256Hash

theorem kiExec_finds {e : BaselineEntry}
    (he : (sh.baseline.map BaselineEntry.fixed)[sh.verifyIdx.toNat % sh.baseline.length]?
      = some e.fixed)
    (hcomputed : e.hashComputed = true) (hpatched : Patched sha e w) :
    .dispatchCrossModuleEvent (textPatchAlert e)
      ∈ (kiExec numCpus sha passive w .verifyModuleIntegrity sh).1 := by
  obtain ⟨e', he', hfixed⟩ := Option.map_eq_some_iff.mp (List.getElem?_map ▸ he)
  obtain ⟨hbase, hsize, hhash, -, hdone⟩ :
      e'.textSectionBase = e.textSectionBase ∧ e'.textSectionSize = e.textSectionSize ∧
        e'.sha256Hash = e.sha256Hash ∧ True ∧ e'.hashComputed = e.hashComputed := by
    simpa [BaselineEntry.fixed] using hfixed
  have hne : constantTimeMemEq (sha (w.text e.textSectionBase e.textSectionSize)) e.sha256Hash
      = false := by
    rw [Bool.eq_false_iff]
    exact mt constantTimeMemEq_iff.mp hpatched.text
  rw [kiExec, he']
  simp [verifyModuleIntegrity, hbase, hsize, hhash, hdone, hcomputed,
    hpatched.bcrypt.computeSha256 sha, hne, textPatchFound, textPatchAlert]

end

/-! ### A module that is patched

Of the two parts of the invariant the first is about the counter alone, and holds of
every run.  The second begins at the check whose turn the module is, and is never
lost again: what is owed to the dispatch stays owed until it is done.
-/

/-- The counter of the worker is the number of checks, as far as 32 bits go. -/
structure TurnsCounted (baseline : List BaselineEntry) (s : KiState) : Prop where
  idx : s.shared.verifyIdx = UInt32.ofNat s.shared.checks
  fixed : s.shared.baseline.map BaselineEntry.fixed = baseline.map BaselineEntry.fixed

/-- The alert is dispatched, or a thread is about to. -/
def DispatchOwed (a : Alert) (s : KiState) : Prop :=
  Owed (fun sh => .dispatched a ∈ sh.log) (fun _ o => o = .dispatchCrossModuleEvent a) s

section

variable {numCpus : Nat} {sha : List UInt8 → KiDigest} {baseline : List BaselineEntry} {s : KiState}

theorem updateSharedStateHash_same (sha : List UInt8 → KiDigest) (bc : BCryptCalls)
    (sh : KiShared) :
    ∃ hash, updateSharedStateHash sha bc sh = { sh with stateHash := hash } := by
  rw [updateSharedStateHash]
  split
  · exact ⟨sh.stateHash, rfl⟩
  · exact ⟨_, rfl⟩

theorem checks_step (numCpus : Nat) (sha : List UInt8 → KiDigest) (s : KiState) (m : KiMove) :
    let s' := kiStep numCpus sha s m
    s'.shared.baseline.map BaselineEntry.fixed = s.shared.baseline.map BaselineEntry.fixed ∧
      ((s'.shared.verifyIdx = s.shared.verifyIdx ∧ s'.shared.checks = s.shared.checks) ∨
        (s'.shared.verifyIdx = s.shared.verifyIdx + 1 ∧ s'.shared.checks = s.shared.checks + 1 ∧
          ∃ i w passive, m = .step i w ∧
            ∀ o ∈ (kiExec numCpus sha passive w .verifyModuleIntegrity s.shared).1,
              Todo s' passive o)) := by
  intro s'
  cases m with
  | event passive a => exact ⟨rfl, .inl ⟨rfl, rfl⟩⟩
  | timeout =>
      have hshared : s'.shared = s.shared := wake_shared ..
      rw [hshared]
      exact ⟨rfl, .inl ⟨rfl, rfl⟩⟩
  | step i w =>
      obtain hsame | ⟨t, o, -, hdid, hmore⟩ := next_did (kiExec numCpus sha) s i w
      · have hshared : s'.shared = s.shared := hsame
        rw [hshared]
        exact ⟨rfl, .inl ⟨rfl, rfl⟩⟩
      · have hshared : s'.shared = (kiExec numCpus sha t w o s.shared).2 := hdid
        obtain ⟨hbaseline, hsame | ⟨rfl, hidx, hchecks⟩⟩ :=
          kiExec_turn numCpus sha t w o s.shared
        · rw [hshared]
          exact ⟨hbaseline, .inl hsame⟩
        · rw [hshared]
          exact ⟨hbaseline, .inr ⟨hidx, hchecks, i, w, t, rfl, hmore⟩⟩
  | updateHash bc =>
      obtain ⟨hash, hsame⟩ := updateSharedStateHash_same sha bc s.shared
      have hshared : s'.shared = { s.shared with stateHash := hash } := hsame
      rw [hshared]
      exact ⟨rfl, .inl ⟨rfl, rfl⟩⟩
  | tamper policy => exact ⟨rfl, .inl ⟨rfl, rfl⟩⟩

theorem TurnsCounted.step (h : TurnsCounted baseline s) (m : KiMove) :
    TurnsCounted baseline (kiStep numCpus sha s m) := by
  obtain ⟨hbaseline, ⟨hidx, hchecks⟩ | ⟨hidx, hchecks, -⟩⟩ := checks_step numCpus sha s m
  · exact ⟨by rw [hidx, hchecks, h.idx], hbaseline.trans h.fixed⟩
  · exact ⟨by rw [hidx, hchecks, h.idx, UInt32.ofNat_add]; rfl, hbaseline.trans h.fixed⟩

theorem DispatchOwed.step {a : Alert} (h : DispatchOwed a s) (m : KiMove) :
    DispatchOwed a (kiStep numCpus sha s m) := by
  refine owed_step (fun _ _ _ _ => kiExec_mem_log) ?_ (fun _ _ => id) (fun _ _ => id) h m
  rintro passive w op sh rfl
  refine .inl ?_
  simp [kiExec, KiShared.put]

/-- A check whose turn the module is finds it. -/
theorem found_step (h : TurnsCounted baseline s) {m : KiMove} {k : Nat} {e : BaselineEntry}
    (he : baseline[k]? = some e) (hcomputed : e.hashComputed = true)
    (hpatched : ∀ i w, m = .step i w → Patched sha e w)
    (hturn : s.shared.checks % 2 ^ 32 % baseline.length = k)
    (hcheck : (kiStep numCpus sha s m).shared.checks ≠ s.shared.checks) :
    DispatchOwed (textPatchAlert e) (kiStep numCpus sha s m) := by
  obtain ⟨-, ⟨-, hsame⟩ | ⟨-, -, i, w, passive, hm, hmore⟩⟩ := checks_step numCpus sha s m
  · exact absurd hsame hcheck
  · refine .inr ⟨passive, _, rfl, hmore _ (kiExec_finds ?_ hcomputed (hpatched i w hm))⟩
    have hlen : s.shared.baseline.length = baseline.length := by
      simpa using congrArg List.length h.fixed
    rw [h.fixed, hlen, h.idx, UInt32.toNat_ofNat', hturn, List.getElem?_map, he, Option.map_some]

/-- While the module is patched, every check whose turn it is finds it. -/
theorem found_run (h : TurnsCounted baseline s) {k : Nat} {e : BaselineEntry}
    (he : baseline[k]? = some e) (hcomputed : e.hashComputed = true) (acts : List KiMove)
    (hpatched : ∀ i w, .step i w ∈ acts → Patched sha e w) :
    let s' := kiRun numCpus sha s acts
    TurnsCounted baseline s' ∧ ∀ j, s.shared.checks ≤ j → j < s'.shared.checks →
      j % 2 ^ 32 % baseline.length = k → DispatchOwed (textPatchAlert e) s' := by
  induction acts using List.reverseRecOn with
  | nil => exact ⟨h, fun j hle hlt => absurd hlt (Nat.not_lt.mpr hle)⟩
  | append_singleton acts m ih =>
      obtain ⟨hcounted, hfound⟩ := ih fun i w hm => hpatched i w (List.mem_append_left _ hm)
      simp only [kiRun, Run.exec_snoc] at hcounted hfound ⊢
      refine ⟨hcounted.step m, fun j hle hlt hturn => ?_⟩
      by_cases hj : j < (Run.exec (kiStep numCpus sha) s acts).shared.checks
      · exact (hfound j hle hj hturn).step m
      · -- It is the check that this move makes.
        obtain ⟨-, ⟨-, hsame⟩ | ⟨-, hone, -⟩⟩ :=
          checks_step numCpus sha (Run.exec (kiStep numCpus sha) s acts) m
        · omega
        · refine found_step hcounted he hcomputed
            (fun i w hm => hpatched i w (by simp [hm])) ?_ (by omega)
          rw [show (Run.exec (kiStep numCpus sha) s acts).shared.checks = j by omega]
          exact hturn

end

/-- A module that the driver has taken into its baseline, and whose text is patched and stays so in
any way while the worker makes `2 * g_BaselineCount - 1` checks, is reported and the driver goes
into fail-safe mode: that is so whenever, then or later, no call is under way. -/
theorem text_patch_found (numCpus : Nat) (sha : List UInt8 → KiDigest) (policy : PolicyBlock)
    (mit : Nat → CpuMitigations) {bc : UInt64 → BCryptCalls} {mem : UInt64 → Option UInt8}
    {bases : List UInt64} {baseline : List BaselineEntry}
    (hbaseline : buildIntegrityBaseline sha bc mem bases = baseline) {e : BaselineEntry}
    (he : e ∈ baseline) (before acts more : List KiMove)
    (hpatched : ∀ i w, .step i w ∈ acts → Patched sha e w)
    (hchecks : (kiRun numCpus sha (.start policy mit baseline) before).shared.checks
        + (2 * baseline.length - 1) ≤
      (kiRun numCpus sha (.start policy mit baseline) (before ++ acts)).shared.checks)
    (hquiet : Quiet (kiRun numCpus sha (.start policy mit baseline) (before ++ acts ++ more))) :
    let s := (kiRun numCpus sha (.start policy mit baseline) (before ++ acts ++ more)).shared
    .dispatched (textPatchAlert e) ∈ s.log ∧ Delivered (textPatchAlert e) s ∧
      s.failSafeMode = true ∧ FailSafeSignalled s ∧ ∀ cpu < numCpus, FullSpectrum cpu s := by
  intro s
  obtain ⟨hlen, htaken⟩ := hbaseline ▸ buildIntegrityBaseline_taken sha bc mem bases
  obtain ⟨k, hk, hget⟩ := List.getElem_of_mem he
  have hcounted : TurnsCounted baseline (kiRun numCpus sha (.start policy mit baseline) before) :=
    Run.exec_invariant (fun _ m h => h.step m) ⟨rfl, rfl⟩ before
  obtain ⟨j, hj, hturn⟩ := exists_turn (Nat.le_trans hlen (by decide)) hk
    (kiRun numCpus sha (.start policy mit baseline) before).shared.checks
  have hafter : DispatchOwed (textPatchAlert e)
      (kiRun numCpus sha (.start policy mit baseline) (before ++ acts)) := by
    rw [kiRun_append] at hchecks ⊢
    exact (found_run hcounted (List.getElem?_eq_some_iff.mpr ⟨hk, hget⟩) (htaken e he).computed
      acts hpatched).2 _ (Nat.le_add_right _ j) (by omega) hturn
  have howed : DispatchOwed (textPatchAlert e)
      (kiRun numCpus sha (.start policy mit baseline) (before ++ acts ++ more)) := by
    rw [kiRun_append]
    exact Run.exec_invariant (fun _ m h => h.step m) hafter more
  have hdispatched : .dispatched (textPatchAlert e) ∈ s.log := howed.done hquiet
  have hsafe := FailSafeInv.run numCpus sha policy mit baseline (before ++ acts ++ more)
  have hmode : s.failSafeMode = true := (hsafe.response _ (.inl rfl) hdispatched).done hquiet
  exact ⟨hdispatched, (hsafe.delivered _ hdispatched).done hquiet, hmode,
    (hsafe.signal hmode).done hquiet, fun cpu hcpu => (hsafe.cpus hmode cpu hcpu).done hquiet⟩

/-! A machine with one CPU and two modules, and a digest that is the first bytes. -/

def firstBytes (data : List UInt8) : KiDigest := fun i => data.getD i 0

def workingBCrypt : BCryptCalls := ⟨true, true, fun _ => true, true⟩

theorem workingBCrypt_fine : workingBCrypt.Fine := ⟨rfl, rfl, fun _ => rfl, rfl⟩

/-- An image with one section, of three bytes. -/
def oneSection (text : List UInt8) : List UInt8 :=
  [0x4D, 0x5A] ++ List.replicate 58 0 ++ [0x40, 0, 0, 0] ++
    [0x50, 0x45, 0, 0, 0x64, 0x86, 1, 0] ++ List.replicate 16 0 ++
    str ".text" ++ [0, 0, 0] ++ [3, 0, 0, 0] ++ [0x80, 0, 0, 0] ++ List.replicate 24 0 ++ text

/-- They are mapped at `0x10000` and `0x20000`. -/
def twoImages (addr : UInt64) : Option UInt8 :=
  if addr < 0x20000 then (oneSection [1, 2, 3])[(addr - 0x10000).toNat]?
  else (oneSection [4, 5, 6])[(addr - 0x20000).toNat]?

def twoModules : List BaselineEntry :=
  buildIntegrityBaseline firstBytes (fun _ => workingBCrypt) twoImages [0x10000, 0, 0x20000]

/-- Neither gates nor keyboard drivers are there; the second module begins with this byte. -/
def plainWorld (byte : UInt8) : KiWorld where
  cpu := 0
  idt := fun _ => ⟨0, 0, 0, 0, false, 0, 0⟩
  ntBase := 0
  ntSize := 0
  driver := fun _ => none
  prologue := fun _ => none
  text := fun base _ => if base = 0x10080 then [1, 2, 3] else [byte, 5, 6]
  bcrypt := workingBCrypt

def plainPolicy : PolicyBlock := ⟨2, 1, 0, 0⟩

def plainCpus (_ : Nat) : CpuMitigations := ⟨0, .none⟩

/-- A turn of the worker, up to the end of what it has to do. -/
def plainTurn (byte : UInt8) : List KiMove :=
  .timeout :: List.replicate 30 (.step 0 (plainWorld byte))

theorem world_of_mem_turns {byte : UInt8} {turns i : Nat} {w : KiWorld}
    (h : .step i w ∈ (List.replicate turns (plainTurn byte)).flatten) : w = plainWorld byte := by
  obtain ⟨turn, hturn, hstep⟩ := List.mem_flatten.mp h
  rw [List.eq_of_mem_replicate hturn, plainTurn, List.mem_cons] at hstep
  rcases hstep with heq | hstep
  · cases heq
  · exact (KiMove.step.inj (List.eq_of_mem_replicate hstep)).2

/-- Three turns while the second module is patched. -/
def patchedTurns : List KiMove := (List.replicate 3 (plainTurn 7)).flatten

def secondModule : BaselineEntry := ⟨0x20080, 3, firstBytes [4, 5, 6], false, true⟩

theorem twoModules_eq :
    twoModules = [⟨0x10080, 3, firstBytes [1, 2, 3], false, true⟩, secondModule] := rfl

theorem secondModule_mem : secondModule ∈ twoModules := by
  rw [twoModules_eq]
  simp

theorem patched_plainWorld : Patched firstBytes secondModule (plainWorld 7) :=
  ⟨workingBCrypt_fine, fun h => absurd (congrFun h 0) (by decide)⟩

theorem patchedTurns_checks :
    (kiRun 1 firstBytes (.start plainPolicy plainCpus twoModules)
        [.updateHash workingBCrypt]).shared.checks + (2 * twoModules.length - 1) ≤
      (kiRun 1 firstBytes (.start plainPolicy plainCpus twoModules)
        ([.updateHash workingBCrypt] ++ patchedTurns)).shared.checks := by
  decide +kernel

theorem patchedTurns_quiet :
    Quiet (kiRun 1 firstBytes (.start plainPolicy plainCpus twoModules)
      ([.updateHash workingBCrypt] ++ patchedTurns ++ [])) := by
  unfold Quiet
  decide +kernel

theorem text_patch_found_second :
    (kiRun 1 firstBytes (.start plainPolicy plainCpus twoModules)
      ([.updateHash workingBCrypt] ++ patchedTurns ++ [])).shared.failSafeMode = true := by
  have hbaseline : buildIntegrityBaseline firstBytes (fun _ => workingBCrypt) twoImages
      [0x10000, 0, 0x20000] = twoModules := rfl
  obtain ⟨-, -, hmode, -, -⟩ := text_patch_found 1 firstBytes plainPolicy plainCpus hbaseline
    secondModule_mem [.updateHash workingBCrypt] patchedTurns []
    (fun i w hm => world_of_mem_turns hm ▸ patched_plainWorld) patchedTurns_checks
    patchedTurns_quiet
  exact hmode

end KernelGuard
