/-
The life of a component with asynchronous parts.

One thread sets the component up and takes it down, by a program of operations.  Meanwhile
callbacks come from outside while they are registered, and work items run once they are queued;
they use what the component has allocated, and queue work items.  A work item may have a flag
that says not to queue it any more, and this flag is tested before it is queued and not at the
same time, so that a queueing may come late.

`Plan` goes over the program alone and keeps track of which parties can do nothing any more.  If
it accepts (`Plan.run`), then in no interleaving is a thing used before it is made or after it is
freed, nor a work item queued that is not set up, and when the program is over nothing runs
(`safe`).  Work items for which it has to rely on no queueing being late are given to it.
-/
import KernelGuard.Lib.Run
import Mathlib.Data.Fintype.Basic

namespace Lifecycle

inductive Party (C W : Type) where
  | callback (c : C)
  | work (w : W)
  deriving DecidableEq

inductive Op (C W R : Type) where
  | register (c : C)
  /-- Waits for callbacks that are running. -/
  | unregister (c : C)
  /-- Set up a work item. -/
  | prepare (w : W)
  /-- The flag of a work item: it may be queued, or not. -/
  | permit (w : W)
  | forbid (w : W)
  | queue (w : W)
  /-- Take it from the queue and wait for its end. -/
  | cancel (w : W)
  | make (r : R)
  | free (r : R)
  /-- Wait for everything that is queued, and end the queue. -/
  | drain

/-- Who does what. -/
structure System (C W R : Type) where
  /-- A work item that does nothing unless the callback is registered. -/
  scope : W → Option C
  users : R → List (Party C W)
  /-- Those that test the flag of a work item and then queue it. -/
  kickers : W → List (Party C W)
  /-- Those that do it at once, under a lock. -/
  armers : W → List (Party C W)
  /-- Those that queue it without a test. -/
  posters : W → List (Party C W)

structure Thread (C W : Type) where
  party : Party C W
  /-- A work item is done, but for queueing itself again. -/
  tail : Bool
  /-- The flag of this work item was tested, and it is queued next. -/
  kick : Option W

structure State (C W R : Type) where
  registered : C → Bool
  prepared : W → Bool
  forbidden : W → Bool
  pending : W → Bool
  absent : R → Bool
  threads : List (Thread C W)
  program : List (Op C W R)
  crashed : Bool

/-- What a thread may do. -/
inductive Act (W R : Type) where
  | touch (r : R)
  | test (w : W)
  | queue
  | arm (w : W)
  | post (w : W)
  | tail
  | finish
  deriving DecidableEq

inductive Move (C W R : Type) where
  /-- A callback is called. -/
  | call (c : C)
  /-- A work item is run. -/
  | run (w : W)
  | thread (i : Nat) (a : Act W R)
  /-- The next operation of the program. -/
  | main
  deriving DecidableEq

set_option linter.unusedSectionVars false

variable {C W R : Type} [DecidableEq C] [DecidableEq W] [DecidableEq R] [Fintype C] [Fintype W]

namespace State

/-- Whether a thread is doing what it is for. -/
def busy (s : State C W R) (sys : System C W R) (t : Thread C W) : Bool :=
  match t.party with
  | .callback _ => true
  | .work w => !t.tail && (sys.scope w).all s.registered

/-- It may test a flag; in the end a work item tests its own only. -/
def mayTest (s : State C W R) (sys : System C W R) (t : Thread C W) (w : W) : Bool :=
  decide (t.party ∈ sys.kickers w) && (s.busy sys t || (t.tail && decide (t.party = .work w)))

def enqueue (s : State C W R) (w : W) : State C W R :=
  { s with
    pending := Function.update s.pending w true
    crashed := s.crashed || !s.prepared w }

/-- The thread of a work item, or of a callback. -/
def runs (s : State C W R) (p : Party C W) : Bool := s.threads.any fun t => decide (t.party = p)

/-- Whether the next operation has to wait. -/
def blocked (s : State C W R) (sys : System C W R) : Op C W R → Bool
  | .unregister c => s.threads.any fun t =>
      match t.party with
      | .callback c' => decide (c' = c)
      | .work w => !t.tail && decide (sys.scope w = some c)
  | .cancel w => s.runs (.work w)
  | .drain =>
      decide (∃ w, s.pending w = true) || s.threads.any fun t =>
        match t.party with
        | .callback _ => false
        | .work _ => true
  | _ => false

def perform (s : State C W R) : Op C W R → State C W R
  | .register c => { s with registered := Function.update s.registered c true }
  | .unregister c => { s with registered := Function.update s.registered c false }
  | .prepare w => { s with prepared := Function.update s.prepared w true }
  | .permit w => { s with forbidden := Function.update s.forbidden w false }
  | .forbid w => { s with forbidden := Function.update s.forbidden w true }
  | .queue w => s.enqueue w
  | .cancel w => { s with pending := Function.update s.pending w false }
  | .make r => { s with absent := Function.update s.absent r false }
  | .free r => { s with absent := Function.update s.absent r true }
  | .drain => s

/-- What a thread does. -/
def act (s : State C W R) (sys : System C W R) (i : Nat) (t : Thread C W) : Act W R → State C W R
  | .touch r =>
      if s.busy sys t && decide (t.party ∈ sys.users r) then
        { s with crashed := s.crashed || s.absent r }
      else s
  | .test w =>
      if t.kick.isNone && s.mayTest sys t w && !s.forbidden w then
        { s with threads := s.threads.set i { t with kick := some w } }
      else s
  | .queue =>
      match t.kick with
      | none => s
      | some w => { s.enqueue w with threads := s.threads.set i { t with kick := none } }
  | .arm w =>
      if s.busy sys t && decide (t.party ∈ sys.armers w) && !s.forbidden w then s.enqueue w else s
  | .post w => if s.busy sys t && decide (t.party ∈ sys.posters w) then s.enqueue w else s
  | .tail =>
      if t.kick.isNone then { s with threads := s.threads.set i { t with tail := true } } else s
  | .finish => if t.kick.isNone then { s with threads := s.threads.eraseIdx i } else s

def call (s : State C W R) (c : C) : State C W R :=
  if s.registered c then { s with threads := s.threads ++ [⟨.callback c, false, none⟩] } else s

/-- A work item does not run twice at a time. -/
def start (s : State C W R) (w : W) : State C W R :=
  if s.pending w && !s.runs (.work w) then
    { s with
      pending := Function.update s.pending w false
      threads := s.threads ++ [⟨.work w, false, none⟩] }
  else s

def proceed (s : State C W R) (sys : System C W R) : State C W R :=
  match s.program with
  | [] => s
  | op :: rest => if s.blocked sys op then s else { s.perform op with program := rest }

end State

def step (sys : System C W R) (s : State C W R) : Move C W R → State C W R
  | .call c => s.call c
  | .run w => s.start w
  | .thread i a =>
      match s.threads[i]? with
      | none => s
      | some t => s.act sys i t a
  | .main => s.proceed sys

/-- Nothing is there, and nothing runs. -/
def State.initial (forbidden : W → Bool) (program : List (Op C W R)) : State C W R where
  registered := fun _ => false
  prepared := fun _ => false
  forbidden := forbidden
  pending := fun _ => false
  absent := fun _ => true
  threads := []
  program := program
  crashed := false

/-! ### The plan -/

/-- What is known at a place of the program. -/
structure Plan (C W R : Type) where
  /-- Not registered. -/
  off : List C
  ready : List W
  forbidden : List W
  /-- Neither queued nor running, nor about to be. -/
  quiet : List W
  absent : List R
  dead : Bool

namespace Plan

/-- A party that does nothing to others any more. -/
def inert (p : Plan C W R) (sys : System C W R) : Party C W → Bool
  | .callback c => p.off.contains c
  | .work w => p.quiet.contains w || (sys.scope w).any p.off.contains

/-- All of them are inert, the work item itself apart. -/
def allInert (p : Plan C W R) (sys : System C W R) (w : W) (parties : List (Party C W)) : Bool :=
  parties.all fun q => decide (q = .work w) || p.inert sys q

/-- Nobody queues the work item, if it does not itself. -/
def settled (p : Plan C W R) (sys : System C W R) (w : W) : Bool :=
  (p.forbidden.contains w || p.allInert sys w (sys.kickers w ++ sys.armers w)) &&
    p.allInert sys w (sys.posters w)

/-- What is not there is not used, and what may be queued is set up. -/
def ok (p : Plan C W R) (sys : System C W R) : Bool :=
  (p.absent.all fun r => (sys.users r).all (p.inert sys)) && p.quiet.all (p.settled sys) &&
    decide (∀ w, w ∈ p.quiet ∨ w ∈ p.ready)

/-- Only work items that nobody queues stay quiet; one that does not may queue others. -/
def refresh (sys : System C W R) : Nat → Plan C W R → Plan C W R
  | 0, p => p
  | n + 1, p =>
      let quiet := p.quiet.filter (p.settled sys)
      if quiet.length = p.quiet.length then p else refresh sys n { p with quiet := quiet }

/-- `late` are the work items that are assumed not to be queued late. -/
def after (sys : System C W R) (late : W → Bool) (p : Plan C W R) : Op C W R → Plan C W R
  | .register c => { p with off := p.off.filter fun c' => decide (c' ≠ c) }
  | .unregister c => { p with off := c :: p.off }
  | .prepare w => { p with ready := w :: p.ready }
  | .permit w => { p with forbidden := p.forbidden.filter fun w' => decide (w' ≠ w) }
  | .forbid w => { p with forbidden := w :: p.forbidden }
  | .queue w => { p with quiet := p.quiet.filter fun w' => decide (w' ≠ w) }
  | .cancel w =>
      if p.settled sys w && (late w || p.allInert sys w (sys.kickers w)) then
        { p with quiet := w :: p.quiet }
      else p
  | .make r => { p with absent := p.absent.filter fun r' => decide (r' ≠ r) }
  | .free r => { p with absent := r :: p.absent }
  | .drain => { p with dead := true }

/-- The queue is ended only when no callback comes any more. -/
def allowed (p : Plan C W R) : Op C W R → Bool
  | .drain => decide (∀ c, c ∈ p.off)
  | _ => true

def next (sys : System C W R) (late : W → Bool) (p : Plan C W R) (op : Op C W R) :
    Option (Plan C W R) :=
  let p' := (p.after sys late op).refresh sys p.quiet.length
  if !p.dead && p.allowed op && p'.ok sys then some p' else none

def run (sys : System C W R) (late : W → Bool) : List (Op C W R) → Plan C W R → Option (Plan C W R)
  | [], p => some p
  | op :: rest, p => (p.next sys late op).bind (run sys late rest)

end Plan

/-! ### What the plan knows is so -/

structure Known (sys : System C W R) (p : Plan C W R) (s : State C W R) : Prop where
  off : ∀ c ∈ p.off, s.registered c = false ∧ ∀ t ∈ s.threads, t.party ≠ .callback c
  /-- A work item without its callback queues itself only. -/
  unscoped : ∀ w c, sys.scope w = some c → c ∈ p.off → ∀ t ∈ s.threads, t.party = .work w →
    ∀ w', t.kick = some w' → w' = w
  ready : ∀ w ∈ p.ready, s.prepared w = true
  forbidden : ∀ w ∈ p.forbidden, s.forbidden w = true
  quiet : ∀ w ∈ p.quiet, s.pending w = false ∧
    ∀ t ∈ s.threads, t.party ≠ .work w ∧ t.kick ≠ some w
  absent : ∀ r, s.absent r = true → r ∈ p.absent
  kicker : ∀ t ∈ s.threads, ∀ w, t.kick = some w → t.party ∈ sys.kickers w
  /-- In the end a work item queues itself only. -/
  tail : ∀ t ∈ s.threads, t.tail = true → ∀ w, t.party = .work w → ∀ w', t.kick = some w' → w' = w
  dead : p.dead = true → s.threads = [] ∧ (∀ c, s.registered c = false) ∧ ∀ w, s.pending w = false
  fine : s.crashed = false

structure Inv (sys : System C W R) (p : Plan C W R) (s : State C W R) : Prop
    extends Known sys p s where
  ok : p.ok sys = true

/-- What of this is about one thread. -/
structure Plan.Fits (p : Plan C W R) (sys : System C W R) (t : Thread C W) : Prop where
  off : ∀ c ∈ p.off, t.party ≠ .callback c
  unscoped : ∀ w c, sys.scope w = some c → c ∈ p.off → t.party = .work w →
    ∀ w', t.kick = some w' → w' = w
  quiet : ∀ w ∈ p.quiet, t.party ≠ .work w ∧ t.kick ≠ some w
  kicker : ∀ w, t.kick = some w → t.party ∈ sys.kickers w
  tail : t.tail = true → ∀ w, t.party = .work w → ∀ w', t.kick = some w' → w' = w

theorem Known.fits {sys : System C W R} {p : Plan C W R} {s : State C W R} (h : Known sys p s)
    {t : Thread C W} (ht : t ∈ s.threads) : p.Fits sys t where
  off := fun c hc => (h.off c hc).2 t ht
  unscoped := fun w c hscope hc => h.unscoped w c hscope hc t ht
  quiet := fun w hw => (h.quiet w hw).2 t ht
  kicker := h.kicker t ht
  tail := h.tail t ht

/-- A thread that holds less. -/
theorem Plan.Fits.less {sys : System C W R} {p : Plan C W R} {t t' : Thread C W}
    (h : p.Fits sys t') (hparty : t.party = t'.party)
    (hkick : t.kick = none ∨ t.kick = t'.kick ∧ t.tail = t'.tail) : p.Fits sys t where
  off := by
    rw [hparty]
    exact h.off
  unscoped := by
    intro w c hscope hc hwork w' hheld
    rcases hkick with hnone | ⟨hsame, -⟩
    · rw [hnone] at hheld
      cases hheld
    · exact h.unscoped w c hscope hc (hparty ▸ hwork) w' (hsame ▸ hheld)
  quiet := by
    intro w hw
    obtain ⟨hnot, hnokick⟩ := h.quiet w hw
    rw [hparty]
    refine ⟨hnot, ?_⟩
    rcases hkick with hnone | ⟨hsame, -⟩
    · rw [hnone]
      simp
    · rw [hsame]
      exact hnokick
  kicker := by
    intro w hheld
    rcases hkick with hnone | ⟨hsame, -⟩
    · rw [hnone] at hheld
      cases hheld
    · rw [hparty]
      exact h.kicker w (hsame ▸ hheld)
  tail := by
    intro htail w hwork w' hheld
    rcases hkick with hnone | ⟨hsame, htails⟩
    · rw [hnone] at hheld
      cases hheld
    · exact h.tail (htails ▸ htail) w (hparty ▸ hwork) w' (hsame ▸ hheld)

theorem Plan.ok_iff {sys : System C W R} {p : Plan C W R} :
    p.ok sys = true ↔ (∀ r ∈ p.absent, ∀ q ∈ sys.users r, p.inert sys q = true) ∧
      (∀ w ∈ p.quiet, p.settled sys w = true) ∧ ∀ w, w ∈ p.quiet ∨ w ∈ p.ready := by
  simp only [Plan.ok, Bool.and_eq_true, List.all_eq_true, decide_eq_true_eq, and_assoc]

theorem Plan.allInert_iff {sys : System C W R} {p : Plan C W R} {w : W}
    {parties : List (Party C W)} :
    p.allInert sys w parties = true ↔ ∀ q ∈ parties, q = .work w ∨ p.inert sys q = true := by
  simp only [Plan.allInert, List.all_eq_true, Bool.or_eq_true, decide_eq_true_eq]

theorem Plan.settled_iff {sys : System C W R} {p : Plan C W R} {w : W} :
    p.settled sys w = true ↔
      (w ∈ p.forbidden ∨ ∀ q ∈ sys.kickers w ++ sys.armers w, q = .work w ∨ p.inert sys q = true) ∧
        ∀ q ∈ sys.posters w, q = .work w ∨ p.inert sys q = true := by
  rw [Plan.settled, Bool.and_eq_true, Bool.or_eq_true, Plan.allInert_iff, Plan.allInert_iff,
    List.contains_iff_mem]

namespace Inv

variable {sys : System C W R} {p : Plan C W R} {s : State C W R}

/-- An inert party does not do anything. -/
theorem not_busy (h : Inv sys p s) {t : Thread C W} (ht : t ∈ s.threads)
    (hinert : p.inert sys t.party = true) : s.busy sys t = false := by
  cases hparty : t.party with
  | callback c =>
      rw [hparty, Plan.inert, List.contains_iff_mem] at hinert
      exact absurd hparty ((h.off c hinert).2 t ht)
  | work w =>
      rw [hparty, Plan.inert, Bool.or_eq_true, List.contains_iff_mem] at hinert
      rcases hinert with hquiet | hscope
      · exact absurd hparty ((h.quiet w hquiet).2 t ht).1
      · cases hc : sys.scope w with
        | none => simp [hc] at hscope
        | some c =>
            have hoff : c ∈ p.off := by simpa [hc] using hscope
            simp [State.busy, hparty, hc, (h.off c hoff).1]

/-- Nor does it hold the queueing of another work item. -/
theorem inert_kick (h : Inv sys p s) {t : Thread C W} (ht : t ∈ s.threads)
    (hinert : p.inert sys t.party = true) {w : W} (hkick : t.kick = some w) :
    t.party = .work w := by
  cases hparty : t.party with
  | callback c =>
      rw [hparty, Plan.inert, List.contains_iff_mem] at hinert
      exact absurd hparty ((h.off c hinert).2 t ht)
  | work w' =>
      rw [hparty, Plan.inert, Bool.or_eq_true, List.contains_iff_mem] at hinert
      rcases hinert with hquiet | hscope
      · exact absurd hparty ((h.quiet w' hquiet).2 t ht).1
      · cases hc : sys.scope w' with
        | none => simp [hc] at hscope
        | some c =>
            have hoff : c ∈ p.off := by simpa [hc] using hscope
            rw [h.unscoped w' c hc hoff t ht hparty w hkick]

/-- A busy party that may queue a work item does not find it quiet. -/
theorem not_quiet (h : Inv sys p s) {t : Thread C W} (ht : t ∈ s.threads)
    (hbusy : s.busy sys t = true) {w : W}
    (hqueues : t.party ∈ sys.kickers w ++ sys.armers w ∧ s.forbidden w = false ∨
      t.party ∈ sys.posters w) : w ∉ p.quiet := by
  intro hw
  have hidle : ¬(t.party = .work w ∨ p.inert sys t.party = true) := by
    rintro (hself | hinert)
    · exact ((h.quiet w hw).2 t ht).1 hself
    · rw [h.not_busy ht hinert] at hbusy
      cases hbusy
  obtain ⟨hkick, hpost⟩ := Plan.settled_iff.mp ((Plan.ok_iff.mp h.ok).2.1 w hw)
  rcases hqueues with ⟨hmem, hforbidden⟩ | hmem
  · rcases hkick with hclosed | hall
    · rw [h.forbidden w hclosed] at hforbidden
      cases hforbidden
    · exact hidle (hall _ hmem)
  · exact hidle (hpost _ hmem)

theorem not_dead (h : Inv sys p s) {t : Thread C W} (ht : t ∈ s.threads) : p.dead ≠ true := by
  intro hdead
  rw [(h.dead hdead).1] at ht
  cases ht

/-- Queueing a work item that is not quiet. -/
theorem enqueue (h : Inv sys p s) {w : W} (hw : w ∉ p.quiet) (hdead : p.dead ≠ true) :
    Inv sys p (s.enqueue w) where
  ok := h.ok
  off := h.off
  unscoped := h.unscoped
  ready := h.ready
  forbidden := h.forbidden
  quiet := by
    intro w' hw'
    have hne : w' ≠ w := by
      rintro rfl
      exact hw hw'
    refine ⟨?_, (h.quiet w' hw').2⟩
    show Function.update s.pending w true w' = false
    rw [Function.update_of_ne hne]
    exact (h.quiet w' hw').1
  absent := h.absent
  kicker := h.kicker
  tail := h.tail
  dead := fun hd => absurd hd hdead
  fine := by
    have hready : s.prepared w = true :=
      h.ready w (((Plan.ok_iff.mp h.ok).2.2 w).resolve_left hw)
    show (s.crashed || !s.prepared w) = false
    rw [h.fine, hready]
    rfl

/-- Other threads, that fit as well. -/
theorem withThreads (h : Inv sys p s) {threads : List (Thread C W)}
    (hfits : ∀ t ∈ threads, p.Fits sys t) (hdead : p.dead = true → threads = []) :
    Inv sys p { s with threads := threads } where
  ok := h.ok
  off := fun c hc => ⟨(h.off c hc).1, fun t ht => (hfits t ht).off c hc⟩
  unscoped := fun w c hscope hc t ht => (hfits t ht).unscoped w c hscope hc
  ready := h.ready
  forbidden := h.forbidden
  quiet := fun w hw => ⟨(h.quiet w hw).1, fun t ht => (hfits t ht).quiet w hw⟩
  absent := h.absent
  kicker := fun t ht => (hfits t ht).kicker
  tail := fun t ht => (hfits t ht).tail
  dead := fun hd => ⟨hdead hd, (h.dead hd).2⟩
  fine := h.fine

/-- One thread is another. -/
theorem setThread (h : Inv sys p s) {i : Nat} {t t' : Thread C W} (ht : t ∈ s.threads)
    (hfits : p.Fits sys t') : Inv sys p { s with threads := s.threads.set i t' } := by
  refine h.withThreads (fun u hu => ?_) fun hd => absurd hd (h.not_dead ht)
  rcases List.mem_or_eq_of_mem_set hu with hold | rfl
  · exact h.fits hold
  · exact hfits

/-- A busy thread tests a flag it may test, or one that ends tests its own. -/
theorem fits_kick (h : Inv sys p s) {t : Thread C W} (ht : t ∈ s.threads) {w : W}
    (hkicker : t.party ∈ sys.kickers w) (hopen : s.forbidden w = false)
    (hbusy : s.busy sys t = true ∨ t.tail = true ∧ t.party = .work w) :
    p.Fits sys { t with kick := some w } where
  off := (h.fits ht).off
  unscoped := by
    intro w' c hscope hc hwork w'' hkick
    obtain rfl := Option.some.inj hkick
    rcases hbusy with hbusy | ⟨-, hself⟩
    · have hparty : t.party = .work w' := hwork
      have hinert : p.inert sys t.party = true := by simp [hparty, Plan.inert, hscope, hc]
      rw [h.not_busy ht hinert] at hbusy
      cases hbusy
    · exact Party.work.inj (hself.symm.trans hwork)
  quiet := by
    intro w' hw'
    obtain ⟨hnot, -⟩ := (h.fits ht).quiet w' hw'
    refine ⟨hnot, fun hkick => ?_⟩
    obtain rfl := Option.some.inj hkick
    rcases hbusy with hbusy | ⟨-, hself⟩
    · exact h.not_quiet ht hbusy (.inl ⟨List.mem_append_left _ hkicker, hopen⟩) hw'
    · exact hnot hself
  kicker := by
    intro w' hkick
    rw [← Option.some.inj hkick]
    exact hkicker
  tail := by
    intro htail w' hwork w'' hkick
    obtain rfl := Option.some.inj hkick
    rcases hbusy with hbusy | ⟨-, hself⟩
    · have htail' : t.tail = true := htail
      have hparty : t.party = .work w' := hwork
      simp [State.busy, hparty, htail'] at hbusy
    · exact Party.work.inj (hself.symm.trans hwork)

/-- A thread that has tested a flag. -/
theorem hold (h : Inv sys p s) {i : Nat} {t : Thread C W} (ht : s.threads[i]? = some t) {w : W}
    (hmay : s.mayTest sys t w = true) (hopen : s.forbidden w = false) :
    Inv sys p { s with threads := s.threads.set i { t with kick := some w } } := by
  have hmem : t ∈ s.threads := List.mem_of_getElem? ht
  simp only [State.mayTest, Bool.and_eq_true, Bool.or_eq_true, decide_eq_true_eq] at hmay
  exact h.setThread hmem (h.fits_kick hmem hmay.1 hopen hmay.2)

/-- A callback is called, or a work item is run. -/
theorem push (h : Inv sys p s) {q : Party C W} (hoff : ∀ c ∈ p.off, q ≠ .callback c)
    (hquiet : ∀ w ∈ p.quiet, q ≠ .work w) (hdead : p.dead ≠ true) :
    Inv sys p { s with threads := s.threads ++ [⟨q, false, none⟩] } := by
  refine h.withThreads (fun t ht => ?_) fun hd => absurd hd hdead
  rcases List.mem_append.mp ht with hold | hnew
  · exact h.fits hold
  · obtain rfl := List.mem_singleton.mp hnew
    exact ⟨hoff, by simp, fun w hw => ⟨hquiet w hw, by simp⟩, by simp, by simp⟩

/-- A work item is taken from the queue. -/
theorem take (h : Inv sys p s) (w : W) :
    Inv sys p { s with pending := Function.update s.pending w false } where
  ok := h.ok
  off := h.off
  unscoped := h.unscoped
  ready := h.ready
  forbidden := h.forbidden
  quiet := by
    intro w' hw'
    refine ⟨?_, (h.quiet w' hw').2⟩
    show Function.update s.pending w false w' = false
    by_cases hw : w' = w
    · rw [hw, Function.update_self]
    · rw [Function.update_of_ne hw]
      exact (h.quiet w' hw').1
  absent := h.absent
  kicker := h.kicker
  tail := h.tail
  dead := by
    intro hd
    obtain ⟨hnil, hreg, hpending⟩ := h.dead hd
    refine ⟨hnil, hreg, fun w' => ?_⟩
    show Function.update s.pending w false w' = false
    by_cases hw : w' = w
    · rw [hw, Function.update_self]
    · rw [Function.update_of_ne hw]
      exact hpending w'
  fine := h.fine

/-- What a busy thread uses is there. -/
theorem touch (h : Inv sys p s) {t : Thread C W} (ht : t ∈ s.threads)
    (hbusy : s.busy sys t = true) {r : R} (huser : t.party ∈ sys.users r) :
    Inv sys p { s with crashed := s.crashed || s.absent r } := by
  have hthere : s.absent r = false := by
    by_contra habsent
    rw [Bool.not_eq_false] at habsent
    have hinert := (Plan.ok_iff.mp h.ok).1 r (h.absent r habsent) t.party huser
    rw [h.not_busy ht hinert] at hbusy
    cases hbusy
  rw [hthere, Bool.or_false]
  exact h

/-- A thread queues the work item whose flag it has tested. -/
theorem kicked (h : Inv sys p s) {i : Nat} {t : Thread C W} (ht : t ∈ s.threads) {w : W}
    (hkick : t.kick = some w) :
    Inv sys p { s.enqueue w with threads := s.threads.set i { t with kick := none } } := by
  have hquiet : w ∉ p.quiet := fun hw => ((h.fits ht).quiet w hw).2 hkick
  have hfits : p.Fits sys { t with kick := none } := (h.fits ht).less rfl (.inl rfl)
  exact (h.enqueue hquiet (h.not_dead ht)).setThread ht hfits

theorem act (h : Inv sys p s) {i : Nat} {t : Thread C W} (ht : s.threads[i]? = some t)
    (a : Act W R) : Inv sys p (s.act sys i t a) := by
  have hmem : t ∈ s.threads := List.mem_of_getElem? ht
  cases a <;> rw [State.act] <;> split
  case touch.isTrue r hcond =>
    simp only [Bool.and_eq_true, decide_eq_true_eq] at hcond
    exact h.touch hmem hcond.1 hcond.2
  case test.isTrue w hcond =>
    simp only [Bool.and_eq_true, Bool.not_eq_true'] at hcond
    exact h.hold ht hcond.1.2 hcond.2
  case h_2 w hkick => exact h.kicked hmem hkick
  case arm.isTrue w hcond =>
    simp only [Bool.and_eq_true, Bool.not_eq_true', decide_eq_true_eq] at hcond
    refine h.enqueue (h.not_quiet hmem hcond.1.1 (.inl ⟨?_, hcond.2⟩)) (h.not_dead hmem)
    exact List.mem_append_right _ hcond.1.2
  case post.isTrue w hcond =>
    simp only [Bool.and_eq_true, decide_eq_true_eq] at hcond
    exact h.enqueue (h.not_quiet hmem hcond.1 (.inr hcond.2)) (h.not_dead hmem)
  case tail.isTrue hnone =>
    rw [Option.isNone_iff_eq_none] at hnone
    exact h.setThread hmem ((h.fits hmem).less rfl (.inl hnone))
  case finish.isTrue =>
    exact h.withThreads (fun u hu => h.fits (List.mem_of_mem_eraseIdx hu))
      fun hd => absurd hd (h.not_dead hmem)
  -- A thread that may not do this.
  all_goals exact h

end Inv

theorem Plan.refresh_ready (sys : System C W R) (n : Nat) (p : Plan C W R) :
    (p.refresh sys n).ready = p.ready := by
  induction n generalizing p with
  | zero => rfl
  | succ n ih =>
      rw [Plan.refresh]
      split
      · rfl
      · rw [ih]

theorem Plan.refresh_quiet {sys : System C W R} {n : Nat} {p : Plan C W R} {w : W}
    (h : w ∈ (p.refresh sys n).quiet) : w ∈ p.quiet := by
  induction n generalizing p with
  | zero => exact h
  | succ n ih =>
      rw [Plan.refresh] at h
      split at h
      · exact h
      · exact List.mem_of_mem_filter (ih h)

namespace Known

variable {sys : System C W R} {p : Plan C W R} {s : State C W R}

/-- What is known of fewer quiet work items. -/
theorem filter (h : Known sys p s) (q : W → Bool) :
    Known sys { p with quiet := p.quiet.filter q } s where
  off := h.off
  unscoped := h.unscoped
  ready := h.ready
  forbidden := h.forbidden
  quiet := fun w hw => h.quiet w (List.mem_of_mem_filter hw)
  absent := h.absent
  kicker := h.kicker
  tail := h.tail
  dead := h.dead
  fine := h.fine

theorem refresh (h : Known sys p s) (n : Nat) : Known sys (p.refresh sys n) s := by
  induction n generalizing p with
  | zero => exact h
  | succ n ih =>
      rw [Plan.refresh]
      split
      · exact h
      · exact ih (h.filter _)

theorem register (h : Known sys p s) (hdead : p.dead = false) (c : C) :
    Known sys { p with off := p.off.filter fun c' => decide (c' ≠ c) }
      { s with registered := Function.update s.registered c true } where
  off := by
    intro c' hc'
    rw [List.mem_filter, decide_eq_true_eq] at hc'
    obtain ⟨hreg, hthreads⟩ := h.off c' hc'.1
    refine ⟨?_, hthreads⟩
    show Function.update s.registered c true c' = false
    rw [Function.update_of_ne hc'.2]
    exact hreg
  unscoped := fun w c' hscope hc' => h.unscoped w c' hscope (List.mem_of_mem_filter hc')
  ready := h.ready
  forbidden := h.forbidden
  quiet := h.quiet
  absent := h.absent
  kicker := h.kicker
  tail := h.tail
  dead := fun hd => by
    rw [show p.dead = true from hd] at hdead
    cases hdead
  fine := h.fine

/-- No thread of the callback runs, and no work item does what it does under it. -/
theorem unregister (h : Known sys p s) (c : C)
    (hcallback : ∀ t ∈ s.threads, t.party ≠ .callback c)
    (hscope : ∀ t ∈ s.threads, ∀ w, t.party = .work w → sys.scope w = some c → t.tail = true) :
    Known sys { p with off := c :: p.off }
      { s with registered := Function.update s.registered c false } where
  off := by
    intro c' hc'
    show Function.update s.registered c false c' = false ∧ _
    by_cases heq : c' = c
    · subst heq
      exact ⟨by rw [Function.update_self], hcallback⟩
    · rw [Function.update_of_ne heq]
      exact h.off c' ((List.mem_cons.mp hc').resolve_left heq)
  unscoped := by
    intro w c' hw hc' t ht hparty w' hkick
    rcases List.mem_cons.mp hc' with rfl | hold
    · exact h.tail t ht (hscope t ht w hparty hw) w hparty w' hkick
    · exact h.unscoped w c' hw hold t ht hparty w' hkick
  ready := h.ready
  forbidden := h.forbidden
  quiet := h.quiet
  absent := h.absent
  kicker := h.kicker
  tail := h.tail
  dead := by
    intro hd
    obtain ⟨hnil, hreg, hpending⟩ := h.dead hd
    refine ⟨hnil, fun c' => ?_, hpending⟩
    show Function.update s.registered c false c' = false
    by_cases heq : c' = c
    · rw [heq, Function.update_self]
    · rw [Function.update_of_ne heq]
      exact hreg c'
  fine := h.fine

theorem prepare (h : Known sys p s) (w : W) :
    Known sys { p with ready := w :: p.ready }
      { s with prepared := Function.update s.prepared w true } where
  off := h.off
  unscoped := h.unscoped
  ready := by
    intro w' hw'
    show Function.update s.prepared w true w' = true
    by_cases heq : w' = w
    · rw [heq, Function.update_self]
    · rw [Function.update_of_ne heq]
      exact h.ready w' ((List.mem_cons.mp hw').resolve_left heq)
  forbidden := h.forbidden
  quiet := h.quiet
  absent := h.absent
  kicker := h.kicker
  tail := h.tail
  dead := h.dead
  fine := h.fine

theorem permit (h : Known sys p s) (w : W) :
    Known sys { p with forbidden := p.forbidden.filter fun w' => decide (w' ≠ w) }
      { s with forbidden := Function.update s.forbidden w false } where
  off := h.off
  unscoped := h.unscoped
  ready := h.ready
  forbidden := by
    intro w' hw'
    rw [List.mem_filter, decide_eq_true_eq] at hw'
    show Function.update s.forbidden w false w' = true
    rw [Function.update_of_ne hw'.2]
    exact h.forbidden w' hw'.1
  quiet := h.quiet
  absent := h.absent
  kicker := h.kicker
  tail := h.tail
  dead := h.dead
  fine := h.fine

theorem forbid (h : Known sys p s) (w : W) :
    Known sys { p with forbidden := w :: p.forbidden }
      { s with forbidden := Function.update s.forbidden w true } where
  off := h.off
  unscoped := h.unscoped
  ready := h.ready
  forbidden := by
    intro w' hw'
    show Function.update s.forbidden w true w' = true
    by_cases heq : w' = w
    · rw [heq, Function.update_self]
    · rw [Function.update_of_ne heq]
      exact h.forbidden w' ((List.mem_cons.mp hw').resolve_left heq)
  quiet := h.quiet
  absent := h.absent
  kicker := h.kicker
  tail := h.tail
  dead := h.dead
  fine := h.fine

theorem make (h : Known sys p s) (r : R) :
    Known sys { p with absent := p.absent.filter fun r' => decide (r' ≠ r) }
      { s with absent := Function.update s.absent r false } where
  off := h.off
  unscoped := h.unscoped
  ready := h.ready
  forbidden := h.forbidden
  quiet := h.quiet
  absent := by
    intro r' hr'
    have hne : r' ≠ r := by
      rintro rfl
      simp at hr'
    have hold : s.absent r' = true := by simpa [Function.update_of_ne hne] using hr'
    exact List.mem_filter.mpr ⟨h.absent r' hold, by simpa using hne⟩
  kicker := h.kicker
  tail := h.tail
  dead := h.dead
  fine := h.fine

theorem free (h : Known sys p s) (r : R) :
    Known sys { p with absent := r :: p.absent }
      { s with absent := Function.update s.absent r true } where
  off := h.off
  unscoped := h.unscoped
  ready := h.ready
  forbidden := h.forbidden
  quiet := h.quiet
  absent := by
    intro r' hr'
    by_cases heq : r' = r
    · exact List.mem_cons.mpr (.inl heq)
    · have hold : s.absent r' = true := by simpa [Function.update_of_ne heq] using hr'
      exact List.mem_cons_of_mem _ (h.absent r' hold)
  kicker := h.kicker
  tail := h.tail
  dead := h.dead
  fine := h.fine

/-- The component queues a work item that is set up. -/
theorem queue (h : Known sys p s) (hdead : p.dead = false) {w : W} (hready : s.prepared w = true) :
    Known sys { p with quiet := p.quiet.filter fun w' => decide (w' ≠ w) } (s.enqueue w) where
  off := h.off
  unscoped := h.unscoped
  ready := h.ready
  forbidden := h.forbidden
  quiet := by
    intro w' hw'
    rw [List.mem_filter, decide_eq_true_eq] at hw'
    refine ⟨?_, (h.quiet w' hw'.1).2⟩
    show Function.update s.pending w true w' = false
    rw [Function.update_of_ne hw'.2]
    exact (h.quiet w' hw'.1).1
  absent := h.absent
  kicker := h.kicker
  tail := h.tail
  dead := fun hd => by
    rw [show p.dead = true from hd] at hdead
    cases hdead
  fine := by
    show (s.crashed || !s.prepared w) = false
    rw [h.fine, hready]
    rfl

/-- More work items are known to be quiet. -/
theorem hush (h : Known sys p s) {w : W} (hpending : s.pending w = false)
    (hthreads : ∀ t ∈ s.threads, t.party ≠ .work w ∧ t.kick ≠ some w) :
    Known sys { p with quiet := w :: p.quiet } s where
  off := h.off
  unscoped := h.unscoped
  ready := h.ready
  forbidden := h.forbidden
  quiet := by
    intro w' hw'
    rcases List.mem_cons.mp hw' with rfl | hold
    · exact ⟨hpending, hthreads⟩
    · exact h.quiet w' hold
  absent := h.absent
  kicker := h.kicker
  tail := h.tail
  dead := h.dead
  fine := h.fine

theorem kill (h : Known sys p s) (hthreads : s.threads = [])
    (hregistered : ∀ c, s.registered c = false) (hpending : ∀ w, s.pending w = false) :
    Known sys { p with dead := true } s where
  off := h.off
  unscoped := h.unscoped
  ready := h.ready
  forbidden := h.forbidden
  quiet := h.quiet
  absent := h.absent
  kicker := h.kicker
  tail := h.tail
  dead := fun _ => ⟨hthreads, hregistered, hpending⟩
  fine := h.fine

theorem program (h : Known sys p s) (program : List (Op C W R)) :
    Known sys p { s with program := program } :=
  ⟨h.off, h.unscoped, h.ready, h.forbidden, h.quiet, h.absent, h.kicker, h.tail, h.dead, h.fine⟩

end Known

/-- The next operation cancels a work item while its queueing is under way. -/
def State.late (s : State C W R) (sys : System C W R) (late : W → Bool) : Bool :=
  match s.program with
  | .cancel w :: _ =>
      late w && !s.blocked sys (.cancel w) && s.threads.any fun t => decide (t.kick = some w)
  | _ => false

namespace Inv

variable {sys : System C W R} {p : Plan C W R} {s : State C W R}

/-- Nobody holds the queueing of a work item that is cancelled for good. -/
theorem cancelled (h : Inv sys p s) {late : W → Bool} {w : W} {rest : List (Op C W R)}
    (hprogram : s.program = .cancel w :: rest) (hblocked : s.blocked sys (.cancel w) = false)
    (hlate : s.late sys late = false)
    (hall : late w = true ∨ p.allInert sys w (sys.kickers w) = true) :
    ∀ t ∈ s.threads, t.party ≠ .work w ∧ t.kick ≠ some w := by
  have hgone : ∀ t ∈ s.threads, t.party ≠ .work w := by
    simpa [State.blocked, State.runs] using hblocked
  intro t ht
  refine ⟨hgone t ht, fun hkick => ?_⟩
  rcases hall with hassumed | hinert
  · have hlater : s.late sys late = true := by
      simp only [State.late, hprogram, hblocked, hassumed, Bool.not_false, Bool.true_and,
        List.any_eq_true, decide_eq_true_eq]
      exact ⟨t, ht, hkick⟩
    rw [hlate] at hlater
    contradiction
  · rcases Plan.allInert_iff.mp hinert _ (h.kicker t ht w hkick) with hself | hq
    · exact hgone t ht hself
    · exact hgone t ht (h.inert_kick ht hq hkick)

/-- The unregistering has waited for the callback and for what runs under it. -/
theorem unregistered (h : Inv sys p s) {c : C} (hblocked : s.blocked sys (.unregister c) = false) :
    Known sys { p with off := c :: p.off }
      { s with registered := Function.update s.registered c false } := by
  simp only [State.blocked, List.any_eq_false] at hblocked
  refine h.toKnown.unregister c (fun t ht hparty => ?_) (fun t ht w hparty hscope => ?_)
  · have hnot := hblocked t ht
    rw [hparty] at hnot
    simp at hnot
  · have hnot := hblocked t ht
    rw [hparty] at hnot
    simpa [hscope] using hnot

/-- Nothing is registered any more, and nothing runs or is queued. -/
theorem drained (h : Inv sys p s) (hallowed : p.allowed (.drain : Op C W R) = true)
    (hblocked : s.blocked sys .drain = false) : Known sys { p with dead := true } s := by
  simp only [Plan.allowed, decide_eq_true_eq] at hallowed
  simp only [State.blocked, Bool.or_eq_false_iff, decide_eq_false_iff_not, not_exists,
    List.any_eq_false] at hblocked
  refine h.toKnown.kill ?_ (fun c => (h.off c (hallowed c)).1) fun w => ?_
  · rw [List.eq_nil_iff_forall_not_mem]
    intro t ht
    have hnot := hblocked.2 t ht
    cases hparty : t.party with
    | callback c => exact (h.off c (hallowed c)).2 t ht hparty
    | work w =>
        rw [hparty] at hnot
        simp at hnot
  · exact Bool.not_eq_true _ ▸ hblocked.1 w

/-- An operation the plan accepts. -/
theorem perform (h : Inv sys p s) {late : W → Bool} {op : Op C W R} {rest : List (Op C W R)}
    (hprogram : s.program = op :: rest) (hblocked : s.blocked sys op = false)
    (hlate : s.late sys late = false) {p' : Plan C W R} (hnext : p.next sys late op = some p') :
    Inv sys p' { s.perform op with program := rest } := by
  rw [Plan.next] at hnext
  split at hnext
  on_goal 2 => cases hnext
  rename_i hcond
  simp only [Bool.and_eq_true, Bool.not_eq_true'] at hcond
  obtain ⟨⟨hdead, hallowed⟩, hok⟩ := hcond
  obtain rfl := Option.some.inj hnext
  refine ⟨Known.refresh (Known.program ?_ rest) _, hok⟩
  cases op with
  | register c => exact h.toKnown.register hdead c
  | unregister c => exact h.unregistered hblocked
  | prepare w => exact h.toKnown.prepare w
  | permit w => exact h.toKnown.permit w
  | forbid w => exact h.toKnown.forbid w
  | queue w =>
      refine h.toKnown.queue hdead ?_
      have hready := (Plan.ok_iff.mp hok).2.2 w
      rw [Plan.refresh_ready] at hready
      refine h.ready w (hready.resolve_left fun hquiet => ?_)
      have hmem := Plan.refresh_quiet hquiet
      simp [Plan.after] at hmem
  | cancel w =>
      have htaken := (h.take w).toKnown
      rw [Plan.after]
      split
      · rename_i hset
        simp only [Bool.and_eq_true, Bool.or_eq_true] at hset
        exact htaken.hush (Function.update_self ..) (h.cancelled hprogram hblocked hlate hset.2)
      · exact htaken
  | make r => exact h.toKnown.make r
  | free r => exact h.toKnown.free r
  | drain => exact h.drained hallowed hblocked

end Inv

theorem act_program (sys : System C W R) (s : State C W R) (i : Nat) (t : Thread C W)
    (a : Act W R) : (s.act sys i t a).program = s.program := by
  cases a with
  | queue =>
      rw [State.act]
      split <;> rfl
  | touch | test | arm | post | tail | finish =>
      rw [State.act]
      split <;> rfl

namespace Inv

variable {sys : System C W R} {late : W → Bool} {p : Plan C W R} {s : State C W R}

theorem call (h : Inv sys p s) (c : C) : Inv sys p (s.call c) := by
  rw [State.call]
  split
  · rename_i hreg
    refine h.push (fun c' hc' heq => ?_) (fun w _ heq => by cases heq) fun hdead => ?_
    · rw [← Party.callback.inj heq] at hc'
      rw [(h.off c hc').1] at hreg
      cases hreg
    · rw [(h.dead hdead).2.1 c] at hreg
      cases hreg
  · exact h

theorem start (h : Inv sys p s) (w : W) : Inv sys p (s.start w) := by
  rw [State.start]
  split
  · rename_i hcond
    simp only [Bool.and_eq_true] at hcond
    have hpending := hcond.1
    refine (h.take w).push (fun c' _ heq => by cases heq) (fun w' hw' heq => ?_) fun hdead => ?_
    · rw [← Party.work.inj heq] at hw'
      rw [(h.quiet w hw').1] at hpending
      cases hpending
    · rw [(h.dead hdead).2.2 w] at hpending
      cases hpending
  · exact h

/-- What a step leaves of the plan. -/
theorem step (h : Inv sys p s) {f : Plan C W R} (hrun : Plan.run sys late s.program p = some f)
    (m : Move C W R) (hlate : m = .main → s.late sys late = false) :
    ∃ p', Inv sys p' (step sys s m) ∧
      Plan.run sys late (Lifecycle.step sys s m).program p' = some f := by
  cases m with
  | call c =>
      refine ⟨p, h.call c, ?_⟩
      have hprogram : (s.call c).program = s.program := by
        rw [State.call]
        split <;> rfl
      rw [Lifecycle.step, hprogram]
      exact hrun
  | run w =>
      refine ⟨p, h.start w, ?_⟩
      have hprogram : (s.start w).program = s.program := by
        rw [State.start]
        split <;> rfl
      rw [Lifecycle.step, hprogram]
      exact hrun
  | thread i a =>
      rw [Lifecycle.step]
      cases ht : s.threads[i]? with
      | none => exact ⟨p, h, hrun⟩
      | some t =>
          refine ⟨p, h.act ht a, ?_⟩
          dsimp only
          rw [act_program]
          exact hrun
  | main =>
      rw [Lifecycle.step, State.proceed]
      cases hprogram : s.program with
      | nil => exact ⟨p, h, hrun⟩
      | cons op rest =>
          cases hblocked : s.blocked sys op with
          | true =>
              dsimp only
              rw [if_pos hblocked]
              exact ⟨p, h, hrun⟩
          | false =>
              dsimp only
              rw [if_neg (by rw [hblocked]; simp)]
              rw [hprogram, Plan.run, Option.bind_eq_some_iff] at hrun
              obtain ⟨p', hnext, hrest⟩ := hrun
              exact ⟨p', h.perform hprogram hblocked (hlate rfl) hnext, hrest⟩

end Inv

/-- In no step of the run is the queueing of such a work item late. -/
def Timely (sys : System C W R) (late : W → Bool) (s : State C W R) (acts : List (Move C W R)) :
    Prop :=
  Run.Along (step sys) s acts fun s m => m = .main → s.late sys late = false

theorem Inv.run {sys : System C W R} {late : W → Bool} {p : Plan C W R} {s : State C W R}
    (h : Inv sys p s) {f : Plan C W R} (hrun : Plan.run sys late s.program p = some f)
    (acts : List (Move C W R)) (hlate : Timely sys late s acts) :
    ∃ p', Inv sys p' (Run.exec (Lifecycle.step sys) s acts) ∧
      Plan.run sys late (Run.exec (Lifecycle.step sys) s acts).program p' = some f := by
  refine Run.exec_invariant_of (P := fun s => ∃ p', Inv sys p' s ∧
    Plan.run sys late s.program p' = some f) ?_ ⟨p, h, hrun⟩ acts hlate
  rintro s m ⟨p', hinv, hprogram⟩ htimely
  exact hinv.step hprogram m htimely

/-- At the start nothing is registered, queued or made. -/
def Plan.initial (cs : List C) (ws : List W) (rs : List R) (forbidden : List W) : Plan C W R where
  off := cs
  ready := []
  forbidden := forbidden
  quiet := ws
  absent := rs
  dead := false

theorem Inv.initial {sys : System C W R} {cs : List C} {ws : List W} {rs : List R}
    {forbidden : List W} (hrs : ∀ r, r ∈ rs)
    (hok : (Plan.initial cs ws rs forbidden).ok sys = true) (program : List (Op C W R)) :
    Inv sys (.initial cs ws rs forbidden) (.initial forbidden.contains program) where
  ok := hok
  off := fun c _ => ⟨rfl, fun t ht => by cases ht⟩
  unscoped := fun w c _ _ t ht => by cases ht
  ready := fun w hw => by cases hw
  forbidden := fun w hw => List.contains_iff_mem.mpr hw
  quiet := fun w _ => ⟨rfl, fun t ht => by cases ht⟩
  absent := fun r _ => hrs r
  kicker := fun t ht => by cases ht
  tail := fun t ht => by cases ht
  dead := fun hd => by cases hd
  fine := rfl

/-- A program that the plan accepts, up to a last `drain`: nothing is used that is not there, no
work item is queued that is not set up, and behind the program nothing runs or will run. -/
theorem safe {sys : System C W R} {late : W → Bool} {cs : List C} {ws : List W} {rs : List R}
    {forbidden : List W} {program : List (Op C W R)} (hrs : ∀ r, r ∈ rs)
    (hok : (Plan.initial cs ws rs forbidden).ok sys = true)
    (hrun : (Plan.run sys late program (.initial cs ws rs forbidden)).any (·.dead) = true)
    (acts : List (Move C W R))
    (hlate : Timely sys late (.initial forbidden.contains program) acts) :
    let s := Run.exec (step sys) (.initial forbidden.contains program) acts
    s.crashed = false ∧
      (s.program = [] →
        s.threads = [] ∧ (∀ c, s.registered c = false) ∧ ∀ w, s.pending w = false) := by
  intro s
  cases hf : Plan.run sys late program (.initial cs ws rs forbidden) with
  | none => simp [hf] at hrun
  | some f =>
      have hdead : f.dead = true := by simpa [hf] using hrun
      obtain ⟨p, hinv, hrest⟩ := (Inv.initial hrs hok program).run hf acts hlate
      refine ⟨hinv.fine, fun hnil => hinv.dead ?_⟩
      rw [hnil, Plan.run, Option.some.injEq] at hrest
      rw [hrest]
      exact hdead

/-! ### What is left over -/

/-- What is not there behind the program. -/
def absentBehind (absent : R → Bool) : List (Op C W R) → R → Bool
  | [] => absent
  | .make r :: rest => absentBehind (Function.update absent r false) rest
  | .free r :: rest => absentBehind (Function.update absent r true) rest
  | _ :: rest => absentBehind absent rest

theorem act_absent (sys : System C W R) (s : State C W R) (i : Nat) (t : Thread C W)
    (a : Act W R) : (s.act sys i t a).absent = s.absent := by
  cases a with
  | queue =>
      rw [State.act]
      split <;> rfl
  | touch | test | arm | post | tail | finish =>
      rw [State.act]
      split <;> rfl

/-- Only the program makes and frees things. -/
theorem absentBehind_step (sys : System C W R) (s : State C W R) (m : Move C W R) :
    absentBehind (step sys s m).absent (step sys s m).program
      = absentBehind s.absent s.program := by
  cases m with
  | call c =>
      rw [step, State.call]
      split <;> rfl
  | run w =>
      rw [step, State.start]
      split <;> rfl
  | thread i a =>
      rw [step]
      cases s.threads[i]? with
      | none => rfl
      | some t => rw [act_absent, act_program]
  | main =>
      rw [step, State.proceed]
      split
      · rfl
      · rename_i op rest hprogram
        rw [hprogram]
        split
        · rw [hprogram]
        · cases op <;> rfl

/-- Behind the program is left what its own operations leave. -/
theorem left_over (sys : System C W R) (forbidden : W → Bool) (program : List (Op C W R))
    (acts : List (Move C W R)) :
    let s := Run.exec (step sys) (.initial forbidden program) acts
    s.program = [] → s.absent = absentBehind (fun _ => true) program := by
  intro s hnil
  have hsame : absentBehind s.absent s.program = absentBehind (fun _ => true) program :=
    Run.exec_invariant
      (P := fun s => absentBehind s.absent s.program = absentBehind (fun _ => true) program)
      (fun s m h => (absentBehind_step sys s m).trans h) rfl acts
  rwa [hnil] at hsame

/-! ### The program can be finished -/

theorem exec_thread (sys : System C W R) {s : State C W R} {t : Thread C W}
    {rest : List (Thread C W)} (hthreads : s.threads = t :: rest) (a : Act W R) :
    Run.exec (step sys) s [.thread 0 a] = s.act sys 0 t a := by
  rw [Run.exec_cons, Run.exec_nil, step, hthreads]
  rfl

theorem finish_threads (sys : System C W R) (s : State C W R) {t : Thread C W}
    (h : t.kick = none) : (s.act sys 0 t .finish).threads = s.threads.eraseIdx 0 := by
  rw [State.act, if_pos (by rw [h]; rfl)]

/-- Threads that run may come to their ends. -/
theorem can_rest (sys : System C W R) (s : State C W R) :
    ∃ acts, (Run.exec (step sys) s acts).threads = [] ∧
      (Run.exec (step sys) s acts).program = s.program := by
  induction hlen : s.threads.length generalizing s with
  | zero => exact ⟨[], List.eq_nil_of_length_eq_zero hlen, rfl⟩
  | succ n ih =>
      obtain ⟨t, rest, hthreads⟩ := List.exists_cons_of_length_eq_add_one hlen
      have hrest : rest.length = n := by simpa [hthreads] using hlen
      cases hkick : t.kick with
      | none =>
          obtain ⟨acts, hnil, hprogram⟩ := ih (s.act sys 0 t .finish) (by
            rw [finish_threads sys s hkick, hthreads]
            exact hrest)
          refine ⟨.thread 0 .finish :: acts, ?_, ?_⟩
          · rw [← List.singleton_append, Run.exec_append, exec_thread sys hthreads]
            exact hnil
          · rw [← List.singleton_append, Run.exec_append, exec_thread sys hthreads, hprogram,
              act_program]
      | some w =>
          -- It queues the work item first.
          have hqueued : (s.act sys 0 t .queue).threads = { t with kick := none } :: rest := by
            rw [State.act, hkick, hthreads]
            rfl
          obtain ⟨acts, hnil, hprogram⟩ :=
            ih ((s.act sys 0 t .queue).act sys 0 { t with kick := none } .finish) (by
              rw [finish_threads sys _ rfl, hqueued]
              exact hrest)
          refine ⟨.thread 0 .queue :: .thread 0 .finish :: acts, ?_, ?_⟩
          · rw [← List.singleton_append, Run.exec_append, exec_thread sys hthreads,
              ← List.singleton_append, Run.exec_append, exec_thread sys hqueued]
            exact hnil
          · rw [← List.singleton_append, Run.exec_append, exec_thread sys hthreads,
              ← List.singleton_append, Run.exec_append, exec_thread sys hqueued, hprogram,
              act_program, act_program]

/-- Work items that are queued may run, one after the other. -/
theorem can_drain_list (sys : System C W R) (s : State C W R) (hthreads : s.threads = [])
    (ws : List W) :
    ∃ acts, (Run.exec (step sys) s acts).threads = [] ∧
      (∀ w ∈ ws, (Run.exec (step sys) s acts).pending w = false) ∧
      (Run.exec (step sys) s acts).program = s.program := by
  induction ws with
  | nil => exact ⟨[], hthreads, fun w hw => (by cases hw), rfl⟩
  | cons w rest ih =>
      obtain ⟨acts, hnil, hpending, hprogram⟩ := ih
      generalize hs' : Run.exec (step sys) s acts = s' at hnil hpending hprogram
      cases hw : s'.pending w with
      | false =>
          refine ⟨acts, by rw [hs', hnil], fun w' hw' => ?_, by rw [hs', hprogram]⟩
          rw [hs']
          rcases List.mem_cons.mp hw' with rfl | hrest
          · exact hw
          · exact hpending w' hrest
      | true =>
          have hstart : s'.start w = { s' with
              pending := Function.update s'.pending w false
              threads := [⟨.work w, false, none⟩] } := by
            rw [State.start, if_pos (by simp [hw, State.runs, hnil]), hnil]
            rfl
          have hthread : (s'.start w).threads = [⟨.work w, false, none⟩] := by rw [hstart]
          have hend : Run.exec (step sys) s (acts ++ [.run w, .thread 0 .finish])
              = (s'.start w).act sys 0 ⟨.work w, false, none⟩ .finish := by
            rw [Run.exec_append, hs', Run.exec_cons, step, exec_thread sys hthread]
          have hkeep : ((s'.start w).act sys 0 ⟨.work w, false, none⟩ .finish).pending
              = Function.update s'.pending w false := by
            rw [hstart]
            rfl
          refine ⟨acts ++ [.run w, .thread 0 .finish], ?_, fun w' hw' => ?_, ?_⟩
          · rw [hend, finish_threads sys _ rfl, hthread]
            rfl
          · rw [hend, hkeep]
            by_cases heq : w' = w
            · rw [heq, Function.update_self]
            · rw [Function.update_of_ne heq]
              exact hpending w' ((List.mem_cons.mp hw').resolve_left heq)
          · rw [hend, act_program, hstart]
            exact hprogram

theorem can_drain (sys : System C W R) (s : State C W R) :
    ∃ acts, (Run.exec (step sys) s acts).threads = [] ∧
      (∀ w, (Run.exec (step sys) s acts).pending w = false) ∧
      (Run.exec (step sys) s acts).program = s.program := by
  obtain ⟨acts, hnil, hprogram⟩ := can_rest sys s
  obtain ⟨ws, hws⟩ := Quot.exists_rep (Finset.univ : Finset W).val
  obtain ⟨acts', hnil', hpending, hprogram'⟩ := can_drain_list sys _ hnil ws
  refine ⟨acts ++ acts', by rw [Run.exec_append]; exact hnil', fun w => ?_, ?_⟩
  · rw [Run.exec_append]
    refine hpending w ?_
    have hmem : w ∈ (Finset.univ : Finset W).val := Finset.mem_univ w
    rw [← hws] at hmem
    exact hmem
  · rw [Run.exec_append, hprogram', hprogram]

/-- From every state the program can still be finished: no operation waits for ever. -/
theorem can_finish (sys : System C W R) (s : State C W R) :
    ∃ acts, (Run.exec (step sys) s acts).program = [] := by
  induction hprogram : s.program generalizing s with
  | nil => exact ⟨[], hprogram⟩
  | cons op rest ih =>
      obtain ⟨acts, hthreads, hpending, hsame⟩ := can_drain sys s
      have hfree : (Run.exec (step sys) s acts).blocked sys op = false := by
        cases op <;> simp [State.blocked, State.runs, hthreads, hpending]
      obtain ⟨acts', hnil⟩ := ih (step sys (Run.exec (step sys) s acts) .main) (by
        rw [step, State.proceed, hsame, hprogram]
        dsimp only
        rw [if_neg (by rw [hfree]; simp)])
      exact ⟨acts ++ .main :: acts', by rw [Run.exec_append, Run.exec_cons]; exact hnil⟩

end Lifecycle
