/-
When the Windows ring delivers.

Three counters number the notifications: the driver's `DriverNonce` gives a call its slot,
its `WriteIndex` announces that there is one more, and the agent looks for number `localRead`
until it has seen as many as were announced.  They agree only while no call has failed: a call
whose HMAC fails keeps the number it was given, so the next success is announced under the
failed call's number.  The agent then hands out the failed notification and, when it comes to
the number of the successful one, has not been told of it.

The invariant (`Tracks`) keeps the list of the successful calls the agent has not seen.  While
successes start from equal counters, the `j`-th of them has the number the agent will look for
at its `j`-th step, and with no more calls than slots since the last poll it is still there.
-/
import KernelGuard.Model.SecureComms
import KernelGuard.Proofs.Drain

namespace KernelGuard

open Run Ring

/-- The calls that returned success, by number. -/
def successes (calls : List WinCall) : List Nat :=
  (List.range calls.length).filter fun i => calls[i]?.any WinCall.ok

theorem mem_successes {calls : List WinCall} {i : Nat} :
    i ∈ successes calls ↔ ∃ c, calls[i]? = some c ∧ c.ok = true := by
  rw [successes, List.mem_filter, List.mem_range, Option.any_eq_true]
  refine ⟨fun h => h.2, fun h => ⟨?_, h⟩⟩
  obtain ⟨c, hc, -⟩ := h
  exact (List.getElem?_eq_some_iff.mp hc).1

theorem successes_nodup (calls : List WinCall) : (successes calls).Nodup :=
  List.nodup_range.filter _

theorem successes_snoc (calls : List WinCall) (c : WinCall) :
    successes (calls ++ [c]) = successes calls ++ if c.ok then [calls.length] else [] := by
  rw [successes, successes, List.length_append, List.length_singleton, List.range_succ,
    List.filter_append]
  congr 1
  · apply List.filter_congr
    intro i hi
    rw [List.getElem?_append_left (List.mem_range.mp hi)]
  · rw [List.filter_singleton, List.getElem?_concat_length, Option.any_some]
    cases c.ok with
    | true => rfl
    | false => rfl

/-- What the callback was given is the alert of a call that returned success, and its HMAC is
found valid whenever the agent is able to verify it. -/
def Handed.Right (h : Handed) (calls : List WinCall) : Prop :=
  ∃ c, calls[h.call]? = some c ∧ c.ok = true ∧
    h.alert =
      { alertType := c.notif.alertType
        alertLevel := c.notif.alertLevel
        param1 := c.notif.param1
        param2 := c.notif.param2
        sequenceNumber := c.notif.sequence
        hmacValid := h.able }

theorem Handed.Right.snoc {h : Handed} {calls : List WinCall} (hr : h.Right calls)
    (c : WinCall) : h.Right (calls ++ [c]) := by
  obtain ⟨c', hc', hrest⟩ := hr
  refine ⟨c', ?_, hrest⟩
  rw [List.getElem?_append_left (List.getElem?_eq_some_iff.mp hc').1, hc']

namespace WinChannel

variable (mac : List UInt8 → KgMac)

/-- What a call leaves in its slot. -/
structure Filled (i : Nat) (c : WinCall) : Prop where
  magic : c.notif.magic = kgNotifyMagic
  sequence : c.notif.sequence = UInt32.ofNat i
  hmac : c.ok = true → mac c.notif.authBytes = c.notif.hmac

/-- The counters, the slots and the history, with the successful calls not yet handed out. -/
structure Tracks (s : WinChannel) (r : KgSharedRegion) (pending : List Nat) : Prop where
  shared : s.comm.shared = some r
  agent : s.agent.mapped = true ∧ s.agent.callback = true
  nonce : r.driverNonce = UInt32.ofNat s.calls.length
  writeIndex : r.writeIndex = UInt32.ofNat (s.handed.length + pending.length)
  localRead : s.agent.localRead = UInt32.ofNat s.handed.length
  succeeded : successes s.calls = s.handed.map Handed.call ++ pending
  recent : s.calls.length ≤ s.polled + kgNotifySlots
  polled : s.polled ≤ s.calls.length
  numbered : ∀ j p, pending[j]? = some p →
    UInt32.ofNat p = UInt32.ofNat (s.handed.length + j) ∧ s.polled ≤ p
  slots : Holds s.calls.length r.notifications (s.calls.map WinCall.notif)
  owners : Holds s.calls.length s.owner (List.range s.calls.length)
  filled : ∀ i c, s.calls[i]? = some c → Filled mac i c
  right : ∀ h ∈ s.handed, h.Right s.calls

theorem Tracks.start (keyValid : Bool) :
    ∃ r, Tracks mac (WinChannel.start keyValid) r [] := by
  refine ⟨_, rfl, ⟨rfl, rfl⟩, rfl, rfl, rfl, rfl, Nat.zero_le _, Nat.zero_le _, ?_,
    Holds.nil _ _, Holds.nil _ _, ?_, ?_⟩
  · intro j p hp
    exact absurd hp (by simp)
  · intro i c hc
    exact absurd hc (by simp [WinChannel.start])
  · intro h hh
    exact absurd hh List.not_mem_nil

/-! ### A call

A successful call appends itself to the pending ones, a failed one leaves them.  Its
slot is written in both cases, which is why calls between two polls are counted and
not only successes.
-/

theorem filled_of_notify (env : NotifyEnv) (a : Alert) {seq : UInt32} {i : Nat} {st : Int}
    (hseq : seq = UInt32.ofNat i) (hst : NtSuccess st → NtSuccess env.status) :
    Filled mac i ⟨fillNotification mac env seq a, st⟩ := by
  refine ⟨rfl, hseq, fun hok => ?_⟩
  have hsucc : NtSuccess env.status := hst (of_decide_eq_true hok)
  simp only [fillNotification, if_pos hsucc]
  rfl

section

variable {mac} {s : WinChannel} {r : KgSharedRegion} {pending : List Nat}

theorem Tracks.call_succeeded (h : Tracks mac s r pending) (n : KgNotification) {st : Int}
    {more : List Nat} (hmore : more = if NtSuccess st then [s.calls.length] else []) :
    successes (s.calls ++ [⟨n, st⟩]) = s.handed.map Handed.call ++ (pending ++ more) := by
  rw [successes_snoc, h.succeeded, hmore, List.append_assoc]
  simp [WinCall.ok]

/-- A successful call has the number the agent will look for when it comes to it. -/
theorem Tracks.call_numbered (h : Tracks mac s r pending) {st : Int} {more : List Nat}
    (hmore : more = if NtSuccess st then [s.calls.length] else [])
    (hstep : NtSuccess st → r.driverNonce = r.writeIndex) (j p : Nat)
    (hp : (pending ++ more)[j]? = some p) :
    UInt32.ofNat p = UInt32.ofNat (s.handed.length + j) ∧ s.polled ≤ p := by
  by_cases hs : NtSuccess st
  · rw [hmore, if_pos hs] at hp
    rcases getElem?_snoc hp with hold | ⟨rfl, rfl⟩
    · exact h.numbered j p hold
    · refine ⟨?_, h.polled⟩
      rw [← h.nonce, hstep hs, h.writeIndex]
  · rw [hmore, if_neg hs, List.append_nil] at hp
    exact h.numbered j p hp

/-- The slot of the call is the next one. -/
theorem Tracks.slot_eq (h : Tracks mac s r pending) :
    slotOf r.driverNonce = cell kgNotifySlots s.calls.length := by
  rw [h.nonce, slotOf_ofNat]

theorem Tracks.call_slots (h : Tracks mac s r pending) (c : WinCall) :
    Holds (s.calls ++ [c]).length
      (Function.update r.notifications (slotOf r.driverNonce) c.notif)
      ((s.calls ++ [c]).map WinCall.notif) := by
  have hslots : Holds (s.calls.map WinCall.notif).length r.notifications
      (s.calls.map WinCall.notif) := by
    rw [List.length_map]
    exact h.slots
  simpa [h.slot_eq] using hslots.push c.notif

theorem Tracks.call_owners (h : Tracks mac s r pending) (c : WinCall) :
    Holds (s.calls ++ [c]).length
      (Function.update s.owner (slotOf r.driverNonce) s.calls.length)
      (List.range (s.calls ++ [c]).length) := by
  have howners : Holds (List.range s.calls.length).length s.owner
      (List.range s.calls.length) := by
    rw [List.length_range]
    exact h.owners
  simpa [h.slot_eq, List.range_succ] using howners.push s.calls.length

end

/-- A call that returned `st`, where `pending'` and the new `WriteIndex` fit what it returned. -/
theorem Tracks.call {s : WinChannel} {r : KgSharedRegion} {pending : List Nat}
    (h : Tracks mac s r pending) (env : NotifyEnv) (a : Alert) {st : Int} {comm : SecureComm}
    {writeIndex : UInt32} {more : List Nat}
    (hroom : s.calls.length < s.polled + kgNotifySlots)
    (hst : NtSuccess st → NtSuccess env.status)
    (hshared : comm.shared = some
      { writeIndex := writeIndex
        driverNonce := r.driverNonce + 1
        notifications := Function.update r.notifications (slotOf r.driverNonce)
          (fillNotification mac env r.driverNonce a) })
    (hindex : writeIndex = UInt32.ofNat (s.handed.length + (pending ++ more).length))
    (hmore : more = if NtSuccess st then [s.calls.length] else [])
    (hstep : NtSuccess st → r.driverNonce = r.writeIndex) :
    Tracks mac
      { s with
        comm := comm
        calls := s.calls ++ [⟨fillNotification mac env r.driverNonce a, st⟩]
        owner := Function.update s.owner (slotOf r.driverNonce) s.calls.length }
      { writeIndex := writeIndex
        driverNonce := r.driverNonce + 1
        notifications := Function.update r.notifications (slotOf r.driverNonce)
          (fillNotification mac env r.driverNonce a) }
      (pending ++ more) := by
  refine
    { shared := hshared
      agent := h.agent
      nonce := ?_
      writeIndex := hindex
      localRead := h.localRead
      succeeded := h.call_succeeded _ hmore
      recent := ?_
      polled := ?_
      numbered := h.call_numbered hmore hstep
      slots := h.call_slots ⟨_, st⟩
      owners := h.call_owners _
      filled := ?_
      right := fun x hx => (h.right x hx).snoc _ }
  · show r.driverNonce + 1 = _
    rw [h.nonce, serial_succ, List.length_append, List.length_singleton]
  · show (s.calls ++ [_]).length ≤ s.polled + kgNotifySlots
    rw [List.length_append, List.length_singleton]
    exact hroom
  · show s.polled ≤ (s.calls ++ [_]).length
    rw [List.length_append]
    exact Nat.le_trans h.polled (Nat.le_add_right _ _)
  · intro i c hc
    rcases getElem?_snoc hc with hold | ⟨rfl, rfl⟩
    · exact h.filled i c hold
    · exact filled_of_notify mac env a h.nonce hst

theorem Tracks.notify {s : WinChannel} {r : KgSharedRegion} {pending : List Nat}
    (h : Tracks mac s r pending) (env : NotifyEnv) (a : Alert)
    (hroom : s.calls.length < s.polled + kgNotifySlots)
    (hstep : NtSuccess env.status → r.driverNonce = r.writeIndex) :
    ∃ r' pending', Tracks mac (step mac s (.notify env a)) r' pending' := by
  simp only [step, h.shared, secureCommNotify]
  by_cases hs : NtSuccess env.status
  · rw [if_neg (not_not_intro hs)]
    refine ⟨_, _, h.call mac env a hroom (fun _ => hs) rfl ?_ rfl (fun _ => hstep hs)⟩
    rw [if_pos (show NtSuccess statusSuccess by decide), List.length_append,
      List.length_singleton, ← Nat.add_assoc, ← serial_succ, ← h.writeIndex]
  · rw [if_pos hs]
    refine ⟨_, _, h.call mac env a hroom id rfl ?_ rfl (fun hst => absurd hst hs)⟩
    rw [if_neg hs, List.append_nil, ← h.writeIndex]

/-! ### A poll

The loop takes the pending calls from the front.  Its fuel is the announced
difference, which is their number.
-/

/-- The loop finds the pending notifications, one at each step. -/
theorem pollLoop_pending (keyValid : Bool) (bcrypt : UInt32 → Bool) (r : KgSharedRegion)
    {pending : List Nat} {k : Nat} (hlen : pending.length < 2 ^ 32)
    (hnum : ∀ j p, pending[j]? = some p → UInt32.ofNat p = UInt32.ofNat (k + j))
    (hslot : ∀ p ∈ pending, (r.notifications (cell kgNotifySlots p)).magic = kgNotifyMagic ∧
      (r.notifications (cell kgNotifySlots p)).sequence = UInt32.ofNat p) :
    pollLoop mac keyValid bcrypt r (UInt32.ofNat (k + pending.length)) pending.length
        (UInt32.ofNat k) =
      (pending.map fun p => (UInt32.ofNat p, formatAlert mac keyValid (bcrypt (UInt32.ofNat p))
        (r.notifications (cell kgNotifySlots p))), UInt32.ofNat (k + pending.length)) := by
  induction pending generalizing k with
  | nil => rfl
  | cons p rest ih =>
      have hp : UInt32.ofNat p = UInt32.ofNat k := hnum 0 p rfl
      obtain ⟨hmagic, hseq⟩ := hslot p List.mem_cons_self
      have hne : UInt32.ofNat k ≠ UInt32.ofNat (k + (p :: rest).length) := by
        rw [List.length_cons] at hlen ⊢
        exact (serial_ne (by omega) (by omega)).symm
      have hrest := @ih (k + 1) (by rw [List.length_cons] at hlen; omega) (by
        intro j q hq
        rw [Nat.add_assoc, Nat.add_comm 1 j]
        exact hnum (j + 1) q hq) (fun q hq => hslot q (List.mem_cons_of_mem p hq))
      rw [← hp] at hne ⊢
      rw [List.length_cons, Nat.add_comm rest.length 1, ← Nat.add_assoc] at hne ⊢
      rw [Nat.add_comm 1 rest.length, pollLoop, if_pos hne]
      simp only [slotOf_ofNat, hmagic, hseq, and_self, if_true]
      rw [hp, serial_succ, hrest, List.map_cons, hp]

section

variable {mac} {s : WinChannel} {r : KgSharedRegion} {pending : List Nat}

theorem Tracks.pending_call (h : Tracks mac s r pending) {p : Nat} (hp : p ∈ pending) :
    ∃ c, s.calls[p]? = some c ∧ c.ok = true := by
  apply mem_successes.mp
  rw [h.succeeded]
  exact List.mem_append_right _ hp

theorem Tracks.pending_ge (h : Tracks mac s r pending) {p : Nat} (hp : p ∈ pending) :
    s.polled ≤ p := by
  obtain ⟨j, hj⟩ := List.getElem?_of_mem hp
  exact (h.numbered j p hj).2

/-- There are no more pending calls than slots. -/
theorem Tracks.pending_length (h : Tracks mac s r pending) :
    pending.length ≤ kgNotifySlots := by
  have hnodup : pending.Nodup := by
    have hall := successes_nodup s.calls
    rw [h.succeeded] at hall
    exact (List.nodup_append.mp hall).2.1
  have hrange : pending ⊆ List.range' s.polled kgNotifySlots := by
    intro p hp
    obtain ⟨c, hc, -⟩ := h.pending_call hp
    have hlt := (List.getElem?_eq_some_iff.mp hc).1
    have hrecent := h.recent
    rw [List.mem_range'_1]
    exact ⟨h.pending_ge hp, by omega⟩
  simpa using (hnodup.subperm hrange).length_le

/-- The slot of a pending call is as the call left it. -/
theorem Tracks.pending_slot (h : Tracks mac s r pending) {p : Nat} {c : WinCall}
    (hp : p ∈ pending) (hc : s.calls[p]? = some c) :
    r.notifications (cell kgNotifySlots p) = c.notif ∧ s.owner (cell kgNotifySlots p) = p := by
  have hge := h.pending_ge hp
  have hrecent := h.recent
  have hlt := (List.getElem?_eq_some_iff.mp hc).1
  constructor
  · apply h.slots p c.notif _ (by omega)
    rw [List.getElem?_map, hc]
    rfl
  · apply h.owners p p _ (by omega)
    rw [List.getElem?_range hlt]

theorem Tracks.pollThreadProc_eq (h : Tracks mac s r pending) (bcrypt : UInt32 → Bool) :
    pollThreadProc mac bcrypt r s.agent =
      (pending.map fun p => (UInt32.ofNat p, formatAlert mac s.agent.hmacKeyValid
        (bcrypt (UInt32.ofNat p)) (r.notifications (cell kgNotifySlots p))),
        { s.agent with localRead := UInt32.ofNat (s.handed.length + pending.length) }) := by
  have hfew : pending.length < 2 ^ 32 := Nat.lt_of_le_of_lt h.pending_length (by decide)
  have hfuel : (r.writeIndex - s.agent.localRead).toNat = pending.length := by
    rw [h.writeIndex, h.localRead, serial_sub (by omega) (by omega), Nat.add_sub_cancel_left]
  have hloop := pollLoop_pending mac s.agent.hmacKeyValid bcrypt r hfew
    (fun j p hp => (h.numbered j p hp).1) (by
      intro p hp
      obtain ⟨c, hc, -⟩ := h.pending_call hp
      rw [(h.pending_slot hp hc).1]
      exact ⟨(h.filled p c hc).magic, (h.filled p c hc).sequence⟩)
  simp only [pollThreadProc, h.agent.1, h.agent.2, Bool.not_true, Bool.false_eq_true, if_false,
    if_true, hfuel]
  rw [h.writeIndex, h.localRead, hloop]

/-- What the callback is given for a pending call. -/
def handOut (mac : List UInt8 → KgMac) (s : WinChannel) (r : KgSharedRegion)
    (bcrypt : UInt32 → Bool) (p : Nat) : Handed :=
  { call := s.owner (slotOf (UInt32.ofNat p))
    able := s.agent.hmacKeyValid && bcrypt (UInt32.ofNat p)
    alert := formatAlert mac s.agent.hmacKeyValid (bcrypt (UInt32.ofNat p))
      (r.notifications (cell kgNotifySlots p)) }

theorem Tracks.handOut_right (h : Tracks mac s r pending) (bcrypt : UInt32 → Bool) {p : Nat}
    (hp : p ∈ pending) :
    (handOut mac s r bcrypt p).call = p ∧ (handOut mac s r bcrypt p).Right s.calls := by
  obtain ⟨c, hc, hok⟩ := h.pending_call hp
  obtain ⟨hnotif, howner⟩ := h.pending_slot hp hc
  have hcall : (handOut mac s r bcrypt p).call = p := by
    rw [handOut, slotOf_ofNat, howner]
  refine ⟨hcall, c, ?_, hok, ?_⟩
  · rw [hcall, hc]
  · simp only [handOut, hnotif, formatAlert, hmacSha256Verify, (h.filled p c hc).hmac hok]
    simp

theorem Tracks.step_poll (h : Tracks mac s r pending) (bcrypt : UInt32 → Bool) :
    step mac s (.poll bcrypt) =
      { s with
        agent := { s.agent with localRead := UInt32.ofNat (s.handed.length + pending.length) }
        polled := s.calls.length
        handed := s.handed ++ pending.map (handOut mac s r bcrypt) } := by
  simp only [step, h.shared, h.pollThreadProc_eq bcrypt, List.map_map]
  rfl

theorem Tracks.poll (h : Tracks mac s r pending) (bcrypt : UInt32 → Bool) :
    Tracks mac (step mac s (.poll bcrypt)) r [] := by
  have hcalls : (pending.map (handOut mac s r bcrypt)).map Handed.call = pending := by
    rw [List.map_map]
    apply (List.map_congr_left _).trans (List.map_id pending)
    intro p hp
    exact (h.handOut_right bcrypt hp).1
  rw [h.step_poll bcrypt]
  refine ⟨h.shared, h.agent, h.nonce, ?_, ?_, ?_, Nat.le_add_right _ _, Nat.le_refl _, ?_,
    h.slots, h.owners, h.filled, ?_⟩
  · simpa using h.writeIndex
  · simp
  · rw [h.succeeded, List.append_nil, List.map_append, hcalls]
  · intro j p hp
    exact absurd hp (by simp)
  · intro x hx
    rcases List.mem_append.mp hx with hold | hnew
    · exact h.right x hold
    · obtain ⟨p, hp, rfl⟩ := List.mem_map.mp hnew
      exact (h.handOut_right bcrypt hp).2

end

/-! ### Runs

`InStep` is a condition on the state before a call that succeeds.  A failed call
alone does no harm; the harm is done by the next one that succeeds.
-/

/-- No more calls than slots between two polls. -/
def Paced (s : WinChannel) (op : WinOp) : Prop :=
  match op with
  | .notify _ _ => s.calls.length < s.polled + kgNotifySlots
  | .poll _ => True

/-- A call that will succeed starts from equal counters. -/
def InStep (s : WinChannel) (op : WinOp) : Prop :=
  match op with
  | .notify env _ => NtSuccess env.status → ∀ r ∈ s.comm.shared, r.driverNonce = r.writeIndex
  | .poll _ => True

instance (s : WinChannel) (op : WinOp) : Decidable (Paced s op) :=
  match op with
  | .notify _ _ => inferInstanceAs (Decidable (s.calls.length < s.polled + kgNotifySlots))
  | .poll _ => inferInstanceAs (Decidable True)

instance (s : WinChannel) (op : WinOp) : Decidable (InStep s op) :=
  match op with
  | .notify env _ => inferInstanceAs
      (Decidable (NtSuccess env.status → ∀ r ∈ s.comm.shared, r.driverNonce = r.writeIndex))
  | .poll _ => inferInstanceAs (Decidable True)

/-- Nothing but successful calls has been handed out, none of them twice, and the next poll
leaves none of them out. -/
structure Delivers (s : WinChannel) : Prop where
  sound : ∀ h ∈ s.handed, h.Right s.calls
  once : (s.handed.map Handed.call).Nodup
  complete : ∀ bcrypt i c, s.calls[i]? = some c → c.ok = true →
    i ∈ (step mac s (.poll bcrypt)).handed.map Handed.call

theorem Tracks.delivers {s : WinChannel} {r : KgSharedRegion} {pending : List Nat}
    (h : Tracks mac s r pending) : Delivers mac s := by
  refine ⟨h.right, ?_, ?_⟩
  · have hall := successes_nodup s.calls
    rw [h.succeeded] at hall
    exact (List.nodup_append.mp hall).1
  · intro bcrypt i c hc hok
    have hafter := (h.poll bcrypt).succeeded
    rw [List.append_nil, h.step_poll bcrypt] at hafter
    rw [h.step_poll bcrypt, ← hafter]
    exact mem_successes.mpr ⟨c, hc, hok⟩

theorem tracks_step {s : WinChannel} {op : WinOp} (h : ∃ r pending, Tracks mac s r pending)
    (hop : Paced s op ∧ InStep s op) : ∃ r pending, Tracks mac (step mac s op) r pending := by
  obtain ⟨r, pending, h⟩ := h
  cases op with
  | notify env a => exact h.notify mac env a hop.1 (fun hs => hop.2 hs r h.shared)
  | poll bcrypt => exact ⟨r, [], h.poll bcrypt⟩

/-- In every run with no more calls than slots between two polls, in which the calls that
succeed start from equal counters, each successful call's notification is handed out once, by
the next poll, and no other is. -/
theorem ring_delivers (keyValid : Bool) (ops : List WinOp)
    (hrun : Along (step mac) (start keyValid) ops fun s op => Paced s op ∧ InStep s op) :
    Delivers mac (exec (step mac) (start keyValid) ops) := by
  obtain ⟨r, hstart⟩ := Tracks.start mac keyValid
  obtain ⟨r', pending, h⟩ := exec_invariant_of (P := fun s => ∃ r pending, Tracks mac s r pending)
    (fun s op hs hop => tracks_step mac hs hop) ⟨r, [], hstart⟩ ops hrun
  exact h.delivers

/-- A call whose HMAC is computed, and one whose BCrypt provider cannot be opened. -/
def goodCall : WinOp := .notify ⟨7, statusSuccess, ⟨0, 0, 0, 0⟩⟩ ⟨kgAlertIdtHook, 2, 0, 0⟩
def badCall : WinOp := .notify ⟨7, 0xC0000225 - 2 ^ 32, ⟨0, 0, 0, 0⟩⟩ ⟨kgAlertTextPatch, 2, 0, 0⟩

theorem ring_delivers_two :
    Delivers (fun _ => ⟨0, 0, 0, 0⟩) (exec (step fun _ => ⟨0, 0, 0, 0⟩) (start true)
      [goodCall, .poll fun _ => true, goodCall, badCall]) :=
  ring_delivers _ true _ (by decide +kernel)

/-- After one failed call the agent is given the failed notification, and not the next one. -/
theorem ring_loses_call :
    ¬∀ (mac : List UInt8 → KgMac) (keyValid : Bool) (ops : List WinOp),
      Along (step mac) (start keyValid) ops Paced →
        Delivers mac (exec (step mac) (start keyValid) ops) := by
  intro h
  have hrun := h (fun _ => ⟨0, 0, 0, 0⟩) true [badCall, goodCall] (by decide +kernel)
  have hlost := hrun.complete (fun _ => true) 1 _ rfl rfl
  exact absurd hlost (by decide +kernel)

end WinChannel

end KernelGuard
