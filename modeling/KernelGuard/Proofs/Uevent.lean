/-
The fallback channel sends every notification that matters once, or loses it to the ring.

The work follows the ring like any other reader, but nobody waits for it: informational
notifications do not queue it, it may stand still while the ring turns many times, and the
device it needs may come and go.  What is kept through all of this is a statement about the
cursor.  Behind it, every notification of level `WATCH` or above has been sent, unless it was
lapped; from it on, none has been sent, and if there is one to send and a device to send it
to, the work is queued or running.
-/
import KernelGuard.Model.Uevent
import KernelGuard.Proofs.CsvLog
import KernelGuard.Proofs.Drain

namespace KernelGuard

open Run Ring

variable {δ : Type} (mac : List UInt8 → KgMac) (now : UInt64)

/-! ### Runs of the channel

What was published, what was attempted and what was lapped are read off the run.  A
notification is lapped at a moment and stays so, hence the existential over the
prefixes of the run.
-/

/-- The channel after the steps `acts`. -/
def ueRun (acts : List (UeAct δ)) : KgFallback δ := exec (ueStep mac) (ueInit now) acts

/-- The notifications published, in order: the number of one is its place in this list. -/
def ueHistory (acts : List (UeAct δ)) : List KgNotification :=
  outputs (ueStep mac) (uePublished mac) (ueInit now) acts

/-- The uevents attempted, in order. -/
def ueAttempts (acts : List (UeAct δ)) : List (Uevent δ) :=
  outputs (ueStep mac) ueSent (ueInit now) acts

/-- At some moment the work had not reached `p`, and at least 16 later ones were published. -/
def Lapped (acts : List (UeAct δ)) (p : Nat) : Prop :=
  ∃ pre post, acts = pre ++ post ∧ (ueRun mac now pre).ueCursor.toNat ≤ p ∧
    p + kgNotifySlots < (ueHistory mac now pre).length

theorem ueRun_snoc (acts : List (UeAct δ)) (a : UeAct δ) :
    ueRun mac now (acts ++ [a]) = ueStep mac (ueRun mac now acts) a := exec_snoc _ _ _ _

theorem ueHistory_snoc (acts : List (UeAct δ)) (a : UeAct δ) :
    ueHistory mac now (acts ++ [a])
      = ueHistory mac now acts ++ uePublished mac (ueRun mac now acts) a := outputs_snoc _ _ _ _ _

theorem ueAttempts_snoc (acts : List (UeAct δ)) (a : UeAct δ) :
    ueAttempts mac now (acts ++ [a])
      = ueAttempts mac now acts ++ ueSent (ueRun mac now acts) a := outputs_snoc _ _ _ _ _

theorem ueHistory_length_le (acts : List (UeAct δ)) (rest : List (UeAct δ)) :
    (ueHistory mac now acts).length ≤ (ueHistory mac now (acts ++ rest)).length := by
  induction rest using List.reverseRecOn with
  | nil => rw [List.append_nil]
  | append_singleton xs a ih =>
      rw [← List.append_assoc, ueHistory_snoc, List.length_append]
      omega

theorem lapped_snoc {acts : List (UeAct δ)} {a : UeAct δ} {p : Nat} :
    Lapped mac now (acts ++ [a]) p ↔ Lapped mac now acts p ∨
      ((ueRun mac now (acts ++ [a])).ueCursor.toNat ≤ p ∧
        p + kgNotifySlots < (ueHistory mac now (acts ++ [a])).length) := by
  constructor
  · intro h
    obtain ⟨pre, post, hsplit, hcursor, hlen⟩ := h
    rcases List.eq_nil_or_concat post with rfl | ⟨post, b, rfl⟩
    · rw [List.append_nil] at hsplit
      rw [hsplit]
      exact Or.inr ⟨hcursor, hlen⟩
    · rw [List.concat_eq_append, ← List.append_assoc] at hsplit
      obtain ⟨hacts, -⟩ := List.append_inj' hsplit rfl
      exact Or.inl ⟨pre, post, hacts, hcursor, hlen⟩
  · intro h
    rcases h with ⟨pre, post, rfl, hcursor, hlen⟩ | ⟨hcursor, hlen⟩
    · exact ⟨pre, post ++ [a], by simp, hcursor, hlen⟩
    · exact ⟨acts ++ [a], [], by simp, hcursor, hlen⟩

/-- A notification that was lapped stays more than a ring behind. -/
theorem Lapped.far {acts : List (UeAct δ)} {p : Nat} (h : Lapped mac now acts p) :
    p + kgNotifySlots < (ueHistory mac now acts).length := by
  obtain ⟨pre, post, rfl, -, hlen⟩ := h
  exact Nat.lt_of_lt_of_le hlen (ueHistory_length_le mac now pre post)

/-! ### What a step can do

A turn of the work either takes one notification and moves behind it, or ends the
work.  It takes the one at the cursor or, when that is gone, the oldest one in the
ring.
-/

theorem kgRlAllow_queued (t : UInt64) (c : KgComms) :
    (kgRlAllow t c).2.ueventQueued = c.ueventQueued := by
  unfold kgRlAllow
  by_cases hadd : (t - c.rlLastNs) / kgRlIntervalNs ≠ 0
  · have hne := refill_ne_zero c.rlTokens (t - c.rlLastNs) hadd
    simp only [if_pos hadd, if_neg hne]
  · simp only [if_neg hadd]
    split_ifs <;> rfl

/-- A published notification of level `WATCH` or above queues the work; nothing unqueues it. -/
theorem kgCommsNotify_queued (env : Env) (a : Alert) (c : KgComms) :
    (kgCommsNotify mac env a c).2.ueventQueued
      = (c.ueventQueued ||
          (decide ((kgCommsNotify mac env a c).1 = 0) && decide (a.level ≥ kgLevelWatch))) := by
  have hrl := kgRlAllow_queued env.mono c
  unfold kgCommsNotify
  simp only
  split_ifs with hdead hlevel hrefused hhmac hrefused' hhmac'
  · simp
  · simpa using hrl
  · simpa [hhmac] using hrl
  · simp [hrl]
  · simp
  · simp [hhmac']
  · simp

section Turn

variable {mac} {c : KgFallback δ} {published : List KgNotification}

/-- The position a turn takes is the cursor's, or the oldest one the ring still holds. -/
theorem taken_eq (h : ChannelHolds mac c.comms published) (hle : c.ueCursor.toNat ≤ published.length)
    (hfew : published.length < 2 ^ 32) :
    c.taken = UInt32.ofNat (max c.ueCursor.toNat (published.length - kgNotifySlots)) := by
  have hcursor : c.ueCursor = UInt32.ofNat c.ueCursor.toNat := UInt32.ofNat_toNat.symm
  have hslots : kgNotifySlots = 16 := rfl
  have hlag : (c.comms.ring.writeIndex - c.ueCursor).toNat = published.length - c.ueCursor.toNat := by
    rw [h.writeIndex]
    conv_lhs => rw [hcursor]
    exact serial_sub hle (by omega)
  unfold KgFallback.taken
  by_cases hfar : c.comms.ring.writeIndex - c.ueCursor > UInt32.ofNat kgNotifySlots
  · rw [if_pos hfar, h.writeIndex]
    have hfar' : kgNotifySlots < published.length - c.ueCursor.toNat := by
      rw [← hlag]
      exact UInt32.lt_iff_toNat_lt.mp hfar
    rw [← UInt32.ofNat_sub (by omega)]
    congr 1
    omega
  · rw [if_neg hfar]
    have hnear : published.length - c.ueCursor.toNat ≤ kgNotifySlots := by
      rw [← hlag]
      exact UInt32.le_iff_toNat_le.mp (UInt32.not_lt.mp hfar)
    rw [Nat.max_eq_left (by omega)]
    exact hcursor

/--
**What a turn does with a device and something to read**: it takes the notification at the
cursor or at the ring's oldest position, moves past it and sends it unless it is informational.
-/
theorem kgUeventTurn_spec (h : ChannelHolds mac c.comms published)
    (hle : c.ueCursor.toNat < published.length) (hfew : published.length < 2 ^ 32) (ret : Int)
    {dev : δ} (hdev : c.dev = some dev) :
    ∃ t n, t = max c.ueCursor.toNat (published.length - kgNotifySlots) ∧ published[t]? = some n ∧
      (kgUeventTurn ret c).1 = (if kgLevelWatch ≤ n.alertLevel then [⟨dev, n⟩] else []) ∧
      (kgUeventTurn ret c).2.ueCursor.toNat = t + 1 ∧ (kgUeventTurn ret c).2.comms = c.comms ∧
      (kgUeventTurn ret c).2.dev = c.dev ∧ (kgUeventTurn ret c).2.running = c.running := by
  have hslots : kgNotifySlots = 16 := rfl
  have htaken := taken_eq h (Nat.le_of_lt hle) hfew
  set t := max c.ueCursor.toNat (published.length - kgNotifySlots) with ht
  have htlen : t < published.length := by omega
  have hsome : published[t]? = some published[t] := List.getElem?_eq_getElem htlen
  have hslot : c.comms.ring.notifications (slotOf c.taken) = published[t] := by
    rw [htaken, slotOf_ofNat]
    exact h.holds t _ hsome (by omega)
  have hgen := h.genuine t _ hsome
  have hne : ¬ c.ueCursor = c.comms.ring.writeIndex := by
    intro heq
    have := congrArg UInt32.toNat heq
    rw [h.writeIndex, UInt32.toNat_ofNat', Nat.mod_eq_of_lt hfew] at this
    omega
  have hnext : (c.taken + 1).toNat = t + 1 := by
    rw [htaken, serial_succ, UInt32.toNat_ofNat', Nat.mod_eq_of_lt (by omega)]
  refine ⟨t, published[t], rfl, hsome, ?_⟩
  have hseq : published[t].sequence = c.taken := hgen.sequence.trans htaken.symm
  unfold kgUeventTurn
  simp only [hdev, if_neg hne, hslot, hgen.magic, hseq, true_and, not_true_eq_false, false_or]
  by_cases hlevel : kgLevelWatch ≤ published[t].alertLevel
  · rw [if_neg (UInt32.not_lt.mpr hlevel), if_pos hlevel]
    split_ifs <;> exact ⟨rfl, hnext, rfl, rfl, rfl⟩
  · rw [if_pos (UInt32.not_le.mp hlevel), if_neg hlevel]
    exact ⟨rfl, hnext, rfl, rfl, rfl⟩

end Turn

/-! ### The invariant

The steps that touch neither the ring nor the cursor are one lemma, and so are those
that send nothing.  What is left are publishing, which must keep the work armed, and
the turn that reads a notification.
-/

/-- The work is queued or running if there is a device and something to send to it. -/
def Armed (c : KgFallback δ) (published : List KgNotification) : Prop :=
  c.dev.isSome = true →
    (∃ p n, c.ueCursor.toNat ≤ p ∧ published[p]? = some n ∧ kgLevelWatch ≤ n.alertLevel) →
      c.comms.ueventQueued = true ∨ c.running = true

structure UeInv (acts : List (UeAct δ)) : Prop where
  channel : ChannelHolds mac (ueRun mac now acts).comms (ueHistory mac now acts)
  cursor : (ueRun mac now acts).ueCursor.toNat ≤ (ueHistory mac now acts).length
  /-- What was sent is behind the cursor, and was not lapped. -/
  sent : ∀ u ∈ ueAttempts mac now acts, ∃ p < (ueRun mac now acts).ueCursor.toNat,
    (ueHistory mac now acts)[p]? = some u.note ∧ kgLevelWatch ≤ u.note.alertLevel ∧
      ¬ Lapped mac now acts p
  ordered : ((ueAttempts mac now acts).map (·.note.sequence.toNat)).Pairwise (· < ·)
  /-- What is behind the cursor was sent or lapped. -/
  done : ∀ p n, p < (ueRun mac now acts).ueCursor.toNat → (ueHistory mac now acts)[p]? = some n →
    kgLevelWatch ≤ n.alertLevel → Lapped mac now acts p ∨ ∃ u ∈ ueAttempts mac now acts, u.note = n
  armed : Armed (ueRun mac now acts) (ueHistory mac now acts)

theorem UeInv.nil : UeInv mac now ([] : List (UeAct δ)) where
  channel := ⟨rfl, rfl, by simp [ueHistory, outputs], Holds.nil _ _⟩
  cursor := Nat.zero_le _
  sent := by simp [ueAttempts, outputs]
  ordered := List.Pairwise.nil
  done := by
    intro p n hp
    exact absurd hp (Nat.not_lt_zero p)
  armed := by
    intro hdev
    simp [ueRun, ueInit] at hdev

variable {mac now} {acts : List (UeAct δ)} {a : UeAct δ}

/-- A number in the history is the position of the notification that carries it. -/
theorem sequence_eq {published : List KgNotification} {c : KgComms}
    (h : ChannelHolds mac c published) (hfew : published.length < 2 ^ 32) {p : Nat}
    {n : KgNotification} (hn : published[p]? = some n) : n.sequence.toNat = p := by
  have hp := (List.getElem?_eq_some_iff.mp hn).1
  rw [(h.genuine p n hn).sequence, UInt32.toNat_ofNat', Nat.mod_eq_of_lt (by omega)]

/-- A step that sends nothing and leaves the cursor where it is. -/
theorem UeInv.still (h : UeInv mac now acts) (hsent : ueSent (ueRun mac now acts) a = [])
    (hcursor : (ueStep mac (ueRun mac now acts) a).ueCursor = (ueRun mac now acts).ueCursor)
    (hchannel : ChannelHolds mac (ueRun mac now (acts ++ [a])).comms (ueHistory mac now (acts ++ [a])))
    (harmed : Armed (ueRun mac now (acts ++ [a])) (ueHistory mac now (acts ++ [a]))) :
    UeInv mac now (acts ++ [a]) := by
  have hrun : (ueRun mac now (acts ++ [a])).ueCursor = (ueRun mac now acts).ueCursor := by
    rw [ueRun_snoc]
    exact hcursor
  have hattempts : ueAttempts mac now (acts ++ [a]) = ueAttempts mac now acts := by
    rw [ueAttempts_snoc, hsent, List.append_nil]
  -- a position behind the cursor is lapped now only if it was before
  have hlapped : ∀ p < (ueRun mac now acts).ueCursor.toNat,
      Lapped mac now (acts ++ [a]) p → Lapped mac now acts p := by
    intro p hp hl
    rcases (lapped_snoc mac now).mp hl with hl | ⟨hle, -⟩
    · exact hl
    · rw [hrun] at hle
      omega
  have hold : ∀ p < (ueRun mac now acts).ueCursor.toNat,
      (ueHistory mac now (acts ++ [a]))[p]? = (ueHistory mac now acts)[p]? := by
    intro p hp
    have hcur := h.cursor
    rw [ueHistory_snoc, List.getElem?_append_left (by omega)]
  refine ⟨hchannel, ?_, ?_, by rw [hattempts]; exact h.ordered, ?_, harmed⟩
  · rw [hrun]
    exact Nat.le_trans h.cursor (ueHistory_length_le mac now acts [a])
  · intro u hu
    rw [hattempts] at hu
    obtain ⟨p, hp, hnote, hlevel, hnot⟩ := h.sent u hu
    rw [hrun]
    exact ⟨p, hp, by rw [hold p hp]; exact hnote, hlevel, fun hl => hnot (hlapped p hp hl)⟩
  · intro p n hp hn hlevel
    rw [hrun] at hp
    rw [hold p hp] at hn
    rw [hattempts]
    exact (h.done p n hp hn hlevel).imp (fun hl => (lapped_snoc mac now).mpr (Or.inl hl)) id

/-- Steps that publish nothing leave the history alone. -/
theorem ueHistory_quiet (hpub : uePublished mac (ueRun mac now acts) a = []) :
    ueHistory mac now (acts ++ [a]) = ueHistory mac now acts := by
  rw [ueHistory_snoc, hpub, List.append_nil]

/-- A step that touches neither the ring nor the cursor only has to keep the work armed. -/
theorem UeInv.quiet (h : UeInv mac now acts) (hpub : uePublished mac (ueRun mac now acts) a = [])
    (hsent : ueSent (ueRun mac now acts) a = [])
    (hcursor : (ueStep mac (ueRun mac now acts) a).ueCursor = (ueRun mac now acts).ueCursor)
    (hring : (ueStep mac (ueRun mac now acts) a).comms.ring = (ueRun mac now acts).comms.ring)
    (harmed : Armed (ueStep mac (ueRun mac now acts) a) (ueHistory mac now acts)) :
    UeInv mac now (acts ++ [a]) := by
  have hhist := ueHistory_quiet hpub
  refine h.still hsent hcursor ?_ ?_
  · rw [hhist, ueRun_snoc]
    exact h.channel.of_ring mac hring
  · rw [hhist, ueRun_snoc]
    exact harmed

theorem UeInv.notify (h : UeInv mac now acts) (env : Env) (al : Alert) :
    UeInv mac now (acts ++ [.notify env al]) := by
  have hhist : ueHistory mac now (acts ++ [.notify env al])
      = if (kgCommsNotify mac env al (ueRun mac now acts).comms).1 = 0 then
          ueHistory mac now acts
            ++ [notificationOf mac (ueRun mac now acts).comms.ring.driverNonce env.real al]
        else ueHistory mac now acts := by
    rw [ueHistory_snoc]
    simp only [uePublished]
    split_ifs
    · rfl
    · rw [List.append_nil]
  refine h.still rfl rfl ?_ ?_
  · rw [hhist, ueRun_snoc]
    exact h.channel.call mac env al
  · rw [ueRun_snoc]
    intro hdev hpending
    obtain ⟨p, n, hp, hn, hlevel⟩ := hpending
    show (kgCommsNotify mac env al (ueRun mac now acts).comms).2.ueventQueued = true ∨ _
    rw [kgCommsNotify_queued]
    rw [hhist] at hn
    by_cases hret : (kgCommsNotify mac env al (ueRun mac now acts).comms).1 = 0
    · rw [if_pos hret] at hn
      rcases getElem?_snoc hn with hold | ⟨-, rfl⟩
      · exact (h.armed hdev ⟨p, n, hp, hold, hlevel⟩).imp (fun hq => by simp [hq]) id
      · refine Or.inl ?_
        have hal : al.level ≥ kgLevelWatch := hlevel
        simp [hret, hal]
    · rw [if_neg hret] at hn
      exact (h.armed hdev ⟨p, n, hp, hn, hlevel⟩).imp (fun hq => by simp [hq]) id

theorem UeInv.start (h : UeInv mac now acts) : UeInv mac now (acts ++ [.start]) := by
  have hstep : ∀ c : KgFallback δ, (startWork c).ueCursor = c.ueCursor ∧
      (startWork c).dev = c.dev ∧ (startWork c).comms.ring = c.comms.ring ∧
      (c.comms.ueventQueued = true ∨ c.running = true →
        (startWork c).comms.ueventQueued = true ∨ (startWork c).running = true) := by
    intro c
    unfold startWork
    by_cases hgo : (c.comms.ueventQueued && !c.running) = true
    · rw [if_pos hgo]
      exact ⟨rfl, rfl, rfl, fun _ => Or.inr rfl⟩
    · rw [if_neg hgo]
      exact ⟨rfl, rfl, rfl, id⟩
  obtain ⟨hcursor, hdev, hring, hkeep⟩ := hstep (ueRun mac now acts)
  refine h.quiet rfl rfl hcursor hring ?_
  intro hd hpending
  rw [ueStep, hdev] at hd
  rw [ueStep, hcursor] at hpending
  exact hkeep (h.armed hd hpending)

theorem UeInv.setDevice (h : UeInv mac now acts) (dev : Option δ) :
    UeInv mac now (acts ++ [.setDevice dev]) := by
  have hstep : ∀ c : KgFallback δ, (kgCommsSetDevice dev c).ueCursor = c.ueCursor ∧
      (kgCommsSetDevice dev c).comms.ring = c.comms.ring ∧
      (kgCommsSetDevice dev c = c ∨ (kgCommsSetDevice dev c).comms.ueventQueued = true ∨
        (kgCommsSetDevice dev c).dev.isSome = false) := by
    intro c
    unfold kgCommsSetDevice
    split_ifs with halive hdev
    · exact ⟨rfl, rfl, Or.inl rfl⟩
    · exact ⟨rfl, rfl, Or.inr (Or.inl rfl)⟩
    · exact ⟨rfl, rfl, Or.inr (Or.inr (by simpa using hdev))⟩
  obtain ⟨hcursor, hring, hcases⟩ := hstep (ueRun mac now acts)
  refine h.quiet rfl rfl hcursor hring ?_
  intro hd hpending
  rw [ueStep] at hd hpending ⊢
  rcases hcases with hsame | hqueued | hnone
  · rw [hsame] at hd hpending ⊢
    exact h.armed hd hpending
  · exact Or.inl hqueued
  · rw [hnone] at hd
    exact absurd hd (by simp)

/-- A turn that ends the run: without a device, or with the cursor at the end. -/
theorem UeInv.turn_end (h : UeInv mac now acts) {ret : Int}
    (hend : (ueRun mac now acts).dev = none ∨
      (ueRun mac now acts).ueCursor.toNat = (ueHistory mac now acts).length)
    (hout : kgUeventTurn ret (ueRun mac now acts)
      = ([], { ueRun mac now acts with running := false }))
    (hrunning : (ueRun mac now acts).running = true) :
    UeInv mac now (acts ++ [.turn ret]) := by
  have hstep : ueStep mac (ueRun mac now acts) (.turn ret)
      = { ueRun mac now acts with running := false } := by
    simp only [ueStep, if_pos hrunning, hout]
  refine h.quiet rfl (by simp only [ueSent, if_pos hrunning, hout]) (by rw [hstep])
    (by rw [hstep]) ?_
  rw [hstep]
  intro hd hpending
  obtain ⟨p, n, hp, hn, -⟩ := hpending
  have hlt := (List.getElem?_eq_some_iff.mp hn).1
  rcases hend with hnone | hall
  · exact absurd hd (by simp [hnone])
  · have hp' : (ueRun mac now acts).ueCursor.toNat ≤ p := hp
    omega

/-- The turn reads position `t`, moves past it and sends what is there unless it is informational. -/
structure TurnReads (mac : List UInt8 → KgMac) (now : UInt64) (acts : List (UeAct δ)) (ret : Int)
    (dev : δ) (t : Nat) (n : KgNotification) : Prop where
  next : t = max (ueRun mac now acts).ueCursor.toNat
    ((ueHistory mac now acts).length - kgNotifySlots)
  note : (ueHistory mac now acts)[t]? = some n
  history : ueHistory mac now (acts ++ [.turn ret]) = ueHistory mac now acts
  cursor : (ueRun mac now (acts ++ [.turn ret])).ueCursor.toNat = t + 1
  comms : (ueRun mac now (acts ++ [.turn ret])).comms = (ueRun mac now acts).comms
  running : (ueRun mac now (acts ++ [.turn ret])).running = (ueRun mac now acts).running
  attempts : ueAttempts mac now (acts ++ [.turn ret]) = ueAttempts mac now acts
    ++ if kgLevelWatch ≤ n.alertLevel then [⟨dev, n⟩] else []

theorem UeInv.turnReads (h : UeInv mac now acts) (ret : Int)
    (hfew : (ueHistory mac now acts).length < 2 ^ 32) {dev : δ}
    (hdev : (ueRun mac now acts).dev = some dev)
    (hlt : (ueRun mac now acts).ueCursor.toNat < (ueHistory mac now acts).length)
    (hrunning : (ueRun mac now acts).running = true) :
    ∃ t n, TurnReads mac now acts ret dev t n := by
  obtain ⟨t, n, ht, hn, hout, hcursor, hcomms, -, hrun⟩ :=
    kgUeventTurn_spec h.channel hlt hfew ret hdev
  have hstep : ueRun mac now (acts ++ [.turn ret]) = (kgUeventTurn ret (ueRun mac now acts)).2 := by
    rw [ueRun_snoc]
    simp only [ueStep, if_pos hrunning]
  have hattempts : ueAttempts mac now (acts ++ [.turn ret]) = ueAttempts mac now acts
      ++ if kgLevelWatch ≤ n.alertLevel then [⟨dev, n⟩] else [] := by
    rw [ueAttempts_snoc]
    simp only [ueSent, if_pos hrunning, hout]
  exact ⟨t, n, ht, hn, ueHistory_quiet rfl, by rw [hstep, hcursor], by rw [hstep, hcomms],
    by rw [hstep, hrun], hattempts⟩

section Reads

variable {ret : Int} {dev : δ} {t : Nat} {n : KgNotification}

/-- Nothing is lapped by the step itself: it only moves the cursor forward. -/
theorem TurnReads.lapped (r : TurnReads mac now acts ret dev t n) (p : Nat) :
    Lapped mac now (acts ++ [.turn ret]) p ↔ Lapped mac now acts p := by
  have hnext := r.next
  rw [lapped_snoc, r.history, r.cursor]
  constructor
  · intro hl
    rcases hl with hl | ⟨hle, hfar⟩
    · exact hl
    · exact ⟨acts, [], by simp, by omega, hfar⟩
  · exact Or.inl

theorem TurnReads.sent (r : TurnReads mac now acts ret dev t n) (h : UeInv mac now acts) :
    ∀ u ∈ ueAttempts mac now (acts ++ [.turn ret]),
      ∃ p < (ueRun mac now (acts ++ [.turn ret])).ueCursor.toNat,
        (ueHistory mac now (acts ++ [.turn ret]))[p]? = some u.note ∧
          kgLevelWatch ≤ u.note.alertLevel ∧ ¬ Lapped mac now (acts ++ [.turn ret]) p := by
  intro u hu
  have hnext := r.next
  rw [r.attempts, List.mem_append] at hu
  rw [r.cursor, r.history]
  simp only [r.lapped]
  rcases hu with hu | hu
  · obtain ⟨p, hp, hrest⟩ := h.sent u hu
    exact ⟨p, by omega, hrest⟩
  · split_ifs at hu with hlevel
    · rw [List.mem_singleton] at hu
      subst hu
      refine ⟨t, by omega, r.note, hlevel, fun hl => ?_⟩
      -- what is still in the ring cannot have been lapped before
      have hfar := hl.far mac now
      omega
    · simp at hu

theorem TurnReads.ordered (r : TurnReads mac now acts ret dev t n) (h : UeInv mac now acts)
    (hfew : (ueHistory mac now acts).length < 2 ^ 32) :
    ((ueAttempts mac now (acts ++ [.turn ret])).map (·.note.sequence.toNat)).Pairwise (· < ·) := by
  have hnext := r.next
  rw [r.attempts, List.map_append, List.pairwise_append]
  refine ⟨h.ordered, ?_, ?_⟩
  · split_ifs <;> simp
  · intro x hx y hy
    obtain ⟨u, hu, rfl⟩ := List.mem_map.mp hx
    obtain ⟨p, hp, hnote, -⟩ := h.sent u hu
    have hy' : y = n.sequence.toNat := by
      split_ifs at hy with hlevel
      · simpa using hy
      · simp at hy
    rw [hy', sequence_eq h.channel hfew hnote, sequence_eq h.channel hfew r.note]
    omega

theorem TurnReads.done (r : TurnReads mac now acts ret dev t n) (h : UeInv mac now acts) :
    ∀ p m, p < (ueRun mac now (acts ++ [.turn ret])).ueCursor.toNat →
      (ueHistory mac now (acts ++ [.turn ret]))[p]? = some m → kgLevelWatch ≤ m.alertLevel →
        Lapped mac now (acts ++ [.turn ret]) p ∨
          ∃ u ∈ ueAttempts mac now (acts ++ [.turn ret]), u.note = m := by
  intro p m hp hm hlevel
  have hnext := r.next
  have hlen := (List.getElem?_eq_some_iff.mp r.note).1
  rw [r.cursor] at hp
  rw [r.history] at hm
  rw [r.attempts]
  simp only [r.lapped]
  rcases Nat.lt_trichotomy p t with hbefore | rfl | hafter
  · by_cases hdone : p < (ueRun mac now acts).ueCursor.toNat
    · refine (h.done p m hdone hm hlevel).imp id (fun hu => ?_)
      obtain ⟨u, hu, hnote⟩ := hu
      exact ⟨u, List.mem_append_left _ hu, hnote⟩
    · exact Or.inl ⟨acts, [], by simp, by omega, by omega⟩
  · have hmn : m = n := Option.some.inj (hm.symm.trans r.note)
    subst hmn
    exact Or.inr ⟨⟨dev, m⟩, List.mem_append_right _ (by simp [hlevel]), rfl⟩
  · omega

/-- A turn that reads a notification keeps the invariant. -/
theorem TurnReads.inv (r : TurnReads mac now acts ret dev t n) (h : UeInv mac now acts)
    (hfew : (ueHistory mac now acts).length < 2 ^ 32)
    (hrunning : (ueRun mac now acts).running = true) : UeInv mac now (acts ++ [.turn ret]) where
  channel := by
    rw [r.history, r.comms]
    exact h.channel
  cursor := by
    have hlen := (List.getElem?_eq_some_iff.mp r.note).1
    rw [r.history, r.cursor]
    omega
  sent := r.sent h
  ordered := r.ordered h hfew
  done := r.done h
  armed := by
    intro _ _
    rw [r.running]
    exact Or.inr hrunning

end Reads

theorem UeInv.turn (h : UeInv mac now acts) (ret : Int)
    (hfew : (ueHistory mac now acts).length < 2 ^ 32) : UeInv mac now (acts ++ [.turn ret]) := by
  by_cases hrunning : (ueRun mac now acts).running = true
  · cases hdev : (ueRun mac now acts).dev with
    | none => exact h.turn_end (Or.inl hdev) (by simp only [kgUeventTurn, hdev]) hrunning
    | some dev =>
        rcases Nat.lt_or_eq_of_le h.cursor with hlt | heq
        · obtain ⟨t, n, hreads⟩ := h.turnReads ret hfew hdev hlt hrunning
          exact hreads.inv h hfew hrunning
        · refine h.turn_end (Or.inr heq) ?_ hrunning
          have hall : (ueRun mac now acts).ueCursor = (ueRun mac now acts).comms.ring.writeIndex := by
            rw [h.channel.writeIndex, ← heq, UInt32.ofNat_toNat]
          simp only [kgUeventTurn, hdev, if_pos hall]
  · -- no instance runs: there is no turn to take
    have hstep : ueStep mac (ueRun mac now acts) (.turn ret) = ueRun mac now acts := by
      simp only [ueStep, if_neg hrunning]
    refine h.quiet rfl (by simp only [ueSent, if_neg hrunning]) (by rw [hstep]) (by rw [hstep]) ?_
    rw [hstep]
    exact h.armed

theorem ueRun_inv (acts : List (UeAct δ)) (hfew : (ueHistory mac now acts).length < 2 ^ 32) :
    UeInv mac now acts := by
  induction acts using List.reverseRecOn with
  | nil => exact UeInv.nil mac now
  | append_singleton acts a ih =>
      have hbefore := ueHistory_length_le mac now acts [a]
      have h := ih (by omega)
      cases a with
      | notify env al => exact h.notify env al
      | start => exact h.start
      | turn ret => exact h.turn ret (by omega)
      | setDevice dev => exact h.setDevice dev

/-! ### The channel over whole runs

The four parts of the theorem are read off the invariant: the numbers in order, each
at most once, and behind the cursor all that matter, but for those that were lapped.
-/

/-- How often notification `n` was sent. -/
def attemptsOf (sent : List (Uevent δ)) (n : KgNotification) : Nat := (sent.map (·.note)).count n

/-- An instance runs whose next turn ends the run because there is nothing left to read. -/
def CaughtUp (c : KgFallback δ) : Prop :=
  c.running = true ∧ c.ueCursor = c.comms.ring.writeIndex

/-- In order of their numbers, so each at most once. -/
theorem UeInv.nodup (h : UeInv mac now acts) : ((ueAttempts mac now acts).map (·.note)).Nodup := by
  rw [List.Nodup, List.pairwise_map]
  refine (List.pairwise_map.mp h.ordered).imp ?_
  intro u v hlt heq
  rw [heq] at hlt
  exact Nat.lt_irrefl _ hlt

/-- Behind the cursor, a notification of level `WATCH` was sent once, or lapped and never. -/
theorem UeInv.attemptsOf (h : UeInv mac now acts) (hfew : (ueHistory mac now acts).length < 2 ^ 32)
    {p : Nat} {n : KgNotification} (hp : p < (ueRun mac now acts).ueCursor.toNat)
    (hn : (ueHistory mac now acts)[p]? = some n) (hlevel : kgLevelWatch ≤ n.alertLevel) :
    (Lapped mac now acts p → attemptsOf (ueAttempts mac now acts) n = 0) ∧
      (¬ Lapped mac now acts p → attemptsOf (ueAttempts mac now acts) n = 1) := by
  constructor
  · intro hlapped
    refine List.count_eq_zero.mpr (fun hmem => ?_)
    obtain ⟨u, hu, rfl⟩ := List.mem_map.mp hmem
    obtain ⟨q, -, hq, -, hnot⟩ := h.sent u hu
    have hpq : q = p := (sequence_eq h.channel hfew hq).symm.trans (sequence_eq h.channel hfew hn)
    rw [hpq] at hnot
    exact hnot hlapped
  · intro hnot
    obtain ⟨u, hu, hnote⟩ := (h.done p n hp hn hlevel).resolve_left hnot
    exact List.count_eq_one_of_mem h.nodup (List.mem_map.mpr ⟨u, hu, hnote⟩)

variable (mac now) in
/--
**The fallback channel.**  In every interleaving with fewer than `2 ^ 32` publications: what
is sent are published notifications in the order of their numbers, so none is sent twice;
when a run of the work ends because it has caught up, every notification of level `WATCH` or
above has been sent once, except those that at least 16 later ones overwrote before the work
reached them; and while there is a device and such a notification at or beyond the cursor,
the work is queued or running.
-/
theorem uevents_once_in_order (acts : List (UeAct δ))
    (hfew : (ueHistory mac now acts).length < 2 ^ 32) :
    ((ueAttempts mac now acts).map (·.note.sequence.toNat)).Pairwise (· < ·) ∧
    (∀ u ∈ ueAttempts mac now acts, u.note ∈ ueHistory mac now acts ∧
      attemptsOf (ueAttempts mac now acts) u.note = 1) ∧
    (CaughtUp (ueRun mac now acts) → ∀ p n, (ueHistory mac now acts)[p]? = some n →
      kgLevelWatch ≤ n.alertLevel →
        (Lapped mac now acts p → attemptsOf (ueAttempts mac now acts) n = 0) ∧
        (¬ Lapped mac now acts p → attemptsOf (ueAttempts mac now acts) n = 1)) ∧
    ((ueRun mac now acts).dev.isSome = true → ∀ p n, (ueHistory mac now acts)[p]? = some n →
      kgLevelWatch ≤ n.alertLevel → (ueRun mac now acts).ueCursor.toNat ≤ p →
        (ueRun mac now acts).comms.ueventQueued = true ∨ (ueRun mac now acts).running = true) := by
  have h := ueRun_inv acts hfew
  refine ⟨h.ordered, ?_, ?_, ?_⟩
  · intro u hu
    obtain ⟨p, -, hp, -⟩ := h.sent u hu
    exact ⟨List.mem_of_getElem? hp, List.count_eq_one_of_mem h.nodup (List.mem_map.mpr ⟨u, hu, rfl⟩)⟩
  · intro hup p n hn hlevel
    refine h.attemptsOf hfew ?_ hn hlevel
    rw [hup.2, h.channel.writeIndex, UInt32.toNat_ofNat', Nat.mod_eq_of_lt hfew]
    exact (List.getElem?_eq_some_iff.mp hn).1
  · intro hdev p n hn hlevel hp
    exact h.armed hdev ⟨p, n, hp, hn, hlevel⟩

/-- Eighteen critical alerts before there is a device; then the work runs until it has caught up. -/
def lateDevice : List (UeAct Unit) :=
  List.replicate 18 (.notify envZero ⟨kgAlertTextPatch, kgLevelCritical, 0, 0⟩)
    ++ [.start, .turn 0, .setDevice (some ()), .start] ++ List.replicate 16 (.turn 0)

/-- The first two are lost to the ring, the other sixteen are sent. -/
theorem uevents_once_in_order_late :
    (ueHistory checksumMac 0 lateDevice).length = 18 ∧
    ((ueAttempts checksumMac 0 lateDevice).map (·.note.sequence.toNat)) = (List.range 16).map (· + 2) ∧
    ((ueAttempts checksumMac 0 lateDevice).map (·.note.sequence.toNat)).Pairwise (· < ·) :=
  ⟨by decide +kernel, by decide +kernel,
    (uevents_once_in_order checksumMac 0 lateDevice (by decide +kernel)).1⟩

/-! ### What a uevent tells -/

/-- Everybody may read a uevent.  It tells the type, the level and the number of its notification,
and nothing else. -/
theorem envp_eq_iff (u v : Uevent δ) :
    u.envp = v.envp ↔ u.note.alertType = v.note.alertType ∧
      u.note.alertLevel = v.note.alertLevel ∧ u.note.sequence = v.note.sequence := by
  constructor
  · intro h
    simp only [Uevent.envp, List.cons.injEq, List.append_cancel_left_eq, and_true] at h
    obtain ⟨htype, hlevel, hseq⟩ := h
    have hhex := congrArg (CsvLog.readNumber 16) htype
    have hdec := congrArg (CsvLog.readNumber 10) hlevel
    have hdec' := congrArg (CsvLog.readNumber 10) hseq
    rw [(CsvLog.hexText_read _ _).2, (CsvLog.hexText_read _ _).2] at hhex
    rw [CsvLog.readNumber_decText, CsvLog.readNumber_decText] at hdec hdec'
    exact ⟨UInt32.toNat_inj.mp hhex, UInt32.toNat_inj.mp hdec, UInt32.toNat_inj.mp hdec'⟩
  · rintro ⟨htype, hlevel, hseq⟩
    rw [Uevent.envp, Uevent.envp, htype, hlevel, hseq]

end KernelGuard
