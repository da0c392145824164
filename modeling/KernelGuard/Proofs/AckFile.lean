/-
What an acknowledgement covers when the module, the monitor and the ack file come and go.

The number in the file is a sequence number of the load that was present when `kgmon ack`
ran, and `policy_check_ack` compares it with the numbers of the present load.  Within one
load that is right: the file says `write_index - 1`, so whatever it covers was published
before (`FileOK.own`).  After a reload it is not: the new ring starts at 0 again, below the
old number, and the file is still there.  So the property fails exactly at the checks that
read such a file over an incident it covers by accident, `acked_later_iff`.

Only `kgp_ack` sets the flag.  Everything else the monitor does to its engine is `Calm`: it
sets no flag, and every number it enters has been published.
-/
import KernelGuard.Model.AckFile
import KernelGuard.Proofs.Poll
import KernelGuard.Proofs.Unacked

namespace KernelGuard

open Run Ring

/-! ### Steps of the engine that acknowledge nothing

Alerts and ticks write to many fields of an incident, but to `acked` only when they
start a new one, and there with `false`.  The sequence numbers they write are those
of the alert in hand, so a bound on the numbers published bounds every number in the
engine.
-/

/-- From `e` to `e'` no flag is set, and new sequence numbers are below `n`. -/
structure Calm (n : Nat) (e e' : KgpEngine) : Prop where
  acked : ∀ i, (e' i).acked = true → (e i).acked = true
  seqs : ∀ i, (e' i).used = true →
    ((e i).used = true ∧ (e' i).lastSeq = (e i).lastSeq) ∨ (e' i).lastSeq.toNat < n

namespace Calm

variable {n : Nat} {e e' e'' : KgpEngine}

theorem refl (n : Nat) (e : KgpEngine) : Calm n e e :=
  ⟨fun _ h => h, fun _ h => Or.inl ⟨h, rfl⟩⟩

theorem trans (h : Calm n e e') (h' : Calm n e' e'') : Calm n e e'' := by
  refine ⟨fun i hi => h.acked i (h'.acked i hi), fun i hi => ?_⟩
  rcases h'.seqs i hi with ⟨hused, hsame⟩ | hlt
  · rw [hsame]
    exact h.seqs i hused
  · exact Or.inr hlt

/-- Numbers that were below `n` stay there. -/
theorem below (h : Calm n e e') (he : ∀ i, (e i).used = true → (e i).lastSeq.toNat < n) :
    ∀ i, (e' i).used = true → (e' i).lastSeq.toNat < n := by
  intro i hi
  rcases h.seqs i hi with ⟨hused, hsame⟩ | hlt
  · rw [hsame]
    exact he i hused
  · exact hlt

theorem update {inc : KgpIncident} (hacked : inc.acked = false) (hseq : inc.lastSeq.toNat < n)
    (j : Fin kgpMaxIncidents) : Calm n e (Function.update e j inc) := by
  refine ⟨fun i hi => ?_, fun i hi => ?_⟩
  · by_cases hij : i = j
    · rw [hij, Function.update_self, hacked] at hi
      exact absurd hi Bool.false_ne_true
    · rwa [Function.update_of_ne hij] at hi
  · by_cases hij : i = j
    · rw [hij, Function.update_self]
      exact Or.inr hseq
    · rw [Function.update_of_ne hij] at hi ⊢
      exact Or.inl ⟨hi, rfl⟩

end Calm

theorem runBase_lastSeq (pol : KgpPolicy) (r : KgpRule) (now : UInt64) (fresh : Bool)
    (inc : KgpIncident) : (inc.runBase pol r now fresh).1.lastSeq = inc.lastSeq := by
  unfold KgpIncident.runBase
  split
  · rfl
  · rfl

theorem runRepeat_lastSeq (pol : KgpPolicy) (r : KgpRule) (now : UInt64) (inc : KgpIncident) :
    (inc.runRepeat pol r now).1.lastSeq = inc.lastSeq := by
  rw [runRepeat_eq]
  split
  · rfl
  · rfl

theorem kgpAlertRule_lastSeq (pol : KgpPolicy) (ri : Nat) (r : KgpRule) (now : UInt64)
    (al : KgpAlert) (e : KgpEngine) :
    ((kgpAlertRule pol ri r now al e).1 (alertSlot e ri al)).lastSeq = al.seq := by
  unfold kgpAlertRule alertSlot
  simp only [Function.update_self]
  rw [runRepeat_lastSeq, runBase_lastSeq]
  rfl

theorem kgpAlertRule_calm (pol : KgpPolicy) (ri : Nat) (r : KgpRule) (now : UInt64)
    {al : KgpAlert} (e : KgpEngine) {n : Nat} (hseq : al.seq.toNat < n) :
    Calm n e (kgpAlertRule pol ri r now al e).1 := by
  obtain ⟨inc, harr, heq⟩ := kgpAlertRule_arrived pol ri r now al e
  have hlast := kgpAlertRule_lastSeq pol ri r now al e
  rw [heq, Function.update_self] at hlast
  rw [heq]
  exact Calm.update harr.acked (by rw [hlast]; exact hseq) _

theorem kgpAlertFrom_calm (pol : KgpPolicy) (now : UInt64) {al : KgpAlert} {n : Nat}
    (hseq : al.seq.toNat < n) (rules : List KgpRule) (ri : Nat) (e : KgpEngine) :
    Calm n e (kgpAlertFrom pol now al ri rules e).1 := by
  induction rules generalizing ri e with
  | nil => exact Calm.refl n e
  | cons r rest ih =>
      by_cases hm : ruleMatches r al = true
      · rw [kgpAlertFrom_cons_pos pol now ri rest e hm]
        exact (kgpAlertRule_calm pol ri r now e hseq).trans (ih (ri + 1) _)
      · rw [kgpAlertFrom_cons_neg pol now ri rest e hm]
        exact ih (ri + 1) e

theorem kgpTick_calm (pol : KgpPolicy) (now : UInt64) (n : Nat) (e : KgpEngine) :
    Calm n e (kgpTick pol now e).1 := by
  have hslot : ∀ i, (((e i).tick pol now).1.acked = true → (e i).acked = true) ∧
      (((e i).tick pol now).1.used = true →
        (e i).used = true ∧ ((e i).tick pol now).1.lastSeq = (e i).lastSeq) := by
    intro i
    cases tick_cases pol now (e i) with
    | idle unused eq => rw [eq]; exact ⟨fun h => h, fun h => ⟨h, rfl⟩⟩
    | forget used silent eq =>
        rw [eq]
        exact ⟨fun h => absurd h Bool.false_ne_true, fun h => absurd h Bool.false_ne_true⟩
    | escalate used heard overdue eq => rw [eq]; exact ⟨fun h => h, fun _ => ⟨used, rfl⟩⟩
    | keep used heard notDue eq => rw [eq]; exact ⟨fun h => h, fun h => ⟨h, rfl⟩⟩
  exact ⟨fun i => (hslot i).1, fun i hi => Or.inl ((hslot i).2 hi)⟩

/-! ### A whole `drain` -/

namespace Monitor

variable (mac : List UInt8 → KgMac) (host : Host)

theorem handle_calm (pass : Nat) (m : Monitor) {ev : DrainEvent} {n : Nat}
    (hseq : (alertFor host pass ev).seq.toNat < n) :
    Calm n m.eng (m.handle host pass ev).1.eng := by
  rw [(handle_fed host pass m ev).eng]
  cases m.policy with
  | none => exact Calm.refl n m.eng
  | some pol => exact kgpAlertFrom_calm pol _ hseq _ _ _

theorem handleAll_calm (pass : Nat) {n : Nat} (evs : List DrainEvent) (m : Monitor)
    (hseq : ∀ ev ∈ evs, (alertFor host pass ev).seq.toNat < n) :
    Calm n m.eng (handleAll host pass evs m).1.eng := by
  induction evs generalizing m with
  | nil => exact Calm.refl n m.eng
  | cons ev evs ih =>
      rw [List.forall_mem_cons] at hseq
      exact (handle_calm host pass m hseq.1).trans (ih _ hseq.2)

theorem handleAll_policy (pass : Nat) (evs : List DrainEvent) (m : Monitor) :
    (handleAll host pass evs m).1.policy = m.policy := by
  induction evs generalizing m with
  | nil => rfl
  | cons ev evs ih =>
      simp only [handleAll, ih]
      exact (handle_fed host pass m ev).policy

/-- What passes of `drain` over a ring up to `w` leave. -/
structure Drained (w : UInt32) (m m' : Monitor) : Prop where
  policy : m'.policy = m.policy
  cursor : m'.reader.cursor.toNat ≤ w.toNat
  calm : Calm w.toNat m.eng m'.eng

theorem drainLoop_drained (ring : KgSharedRegion) (w : UInt32) (fuel pass : Nat) (m : Monitor)
    (hcursor : m.reader.cursor.toNat ≤ w.toNat) :
    Drained w m (drainLoop mac host ring w fuel pass m).1 := by
  induction fuel generalizing pass m with
  | zero => exact ⟨rfl, hcursor, Calm.refl _ _⟩
  | succ fuel ih =>
      unfold drainLoop
      by_cases hmore : m.reader.more w = true
      · rw [if_pos hmore]
        have hne : m.reader.cursor ≠ w := by
          unfold Reader.more at hmore
          rw [Bool.and_eq_true] at hmore
          exact of_decide_eq_true hmore.1
        have hlt : m.reader.cursor.toNat < w.toNat :=
          Nat.lt_of_le_of_ne hcursor fun h => hne (UInt32.toNat_inj.mp h)
        have hcalm := handleAll_calm host pass (atSlot mac ring m.reader).2
          { m with reader := (atSlot mac ring m.reader).1 } (n := w.toNat) (by
            intro ev hev
            rw [atSlot_seq mac host pass hev]
            exact hlt)
        have hgo := ih (pass + 1) (handleAll host pass (atSlot mac ring m.reader).2
          { m with reader := (atSlot mac ring m.reader).1 }).1 (by
            rw [handleAll_reader]
            show (atSlot mac ring m.reader).1.cursor.toNat ≤ w.toNat
            rw [atSlot_cursor, UInt32.toNat_add]
            have hmod := Nat.mod_le (m.reader.cursor.toNat + (1 : UInt32).toNat) (2 ^ 32)
            have hone : (1 : UInt32).toNat = 1 := rfl
            omega)
        exact ⟨hgo.policy.trans (handleAll_policy host pass _ _), hgo.cursor,
          hcalm.trans hgo.calm⟩
      · rw [if_neg hmore]
        exact ⟨rfl, hcursor, Calm.refl _ _⟩

theorem drain_drained (ring : KgSharedRegion) (m : Monitor)
    (hcursor : m.reader.cursor.toNat ≤ ring.writeIndex.toNat) :
    Drained ring.writeIndex m (m.drain mac host ring).1 := by
  have hle : m.reader.cursor ≤ ring.writeIndex := UInt32.le_iff_toNat_le.mpr hcursor
  have hlap : (m.reader.lapCheck ring.writeIndex).1.cursor.toNat ≤ ring.writeIndex.toNat ∧
      ∀ ev ∈ (m.reader.lapCheck ring.writeIndex).2,
        (alertFor host 0 ev).seq.toNat < ring.writeIndex.toNat := by
    unfold Reader.lapCheck
    split
    · next hfar =>
        rw [gt_iff_lt, UInt32.lt_iff_toNat_lt, UInt32.toNat_sub_of_le _ _ hle] at hfar
        have hlow : (16 : UInt32).toNat = 16 := rfl
        refine ⟨?_, fun ev hev => ?_⟩
        · show (ring.writeIndex - 16).toNat ≤ _
          rw [UInt32.toNat_sub_of_le _ _ (UInt32.le_iff_toNat_le.mpr (by omega))]
          exact Nat.sub_le _ _
        · rw [List.mem_singleton.mp hev]
          show m.reader.cursor.toNat < _
          omega
    · exact ⟨hcursor, fun ev hev => absurd hev List.not_mem_nil⟩
  have hcalm := handleAll_calm host 0 (m.reader.lapCheck ring.writeIndex).2
    { m with reader := (m.reader.lapCheck ring.writeIndex).1 } hlap.2
  have hgo := drainLoop_drained mac host ring ring.writeIndex
    (ring.writeIndex - (m.reader.lapCheck ring.writeIndex).1.cursor).toNat 1
    (handleAll host 0 (m.reader.lapCheck ring.writeIndex).2
      { m with reader := (m.reader.lapCheck ring.writeIndex).1 }).1
    (by rw [handleAll_reader]; exact hlap.1)
  exact ⟨hgo.policy.trans (handleAll_policy host 0 _ _), hgo.cursor, hcalm.trans hgo.calm⟩

end Monitor

/-! ### The invariant of the three lifetimes

The module, the file and the monitor come and go one without the other.  What relates
them is only numbers: of the ring, of the file and of the incidents.  So the
invariant has one part for each, stated against the module that is loaded, and a
file from an earlier load is known by having been written before the present load
began.
-/

namespace AckSys

/-- The ring of a loaded module, and when its notifications were published. -/
structure ModuleOK (s : AckSys) (md : KgModule) : Prop where
  nonce : md.comms.ring.driverNonce = md.comms.ring.writeIndex
  writeIndex : md.comms.ring.writeIndex = UInt32.ofNat md.log.length
  past : ∀ t ∈ md.log, t < s.clock

/-- What the ack file means under the load that wrote it, and under a later one. -/
structure FileOK (s : AckSys) (f : AckFile) : Prop where
  issued : f.issued < s.clock
  load : f.load ≤ s.loads
  own : f.load = s.loads → ∀ md, s.module = some md →
    f.seq.toNat < md.log.length ∧
      ∀ j t, md.log[j]? = some t → j ≤ f.seq.toNat → t < f.issued
  old : f.load < s.loads → ∀ md, s.module = some md → ∀ t ∈ md.log, f.issued < t

/-- A running monitor has the device open and is not ahead of the ring. -/
structure ProcOK (md : KgModule) (p : MonProc) : Prop where
  cursor : p.monitor.reader.cursor.toNat ≤ md.log.length
  seqs : ∀ i, (p.monitor.eng i).used = true → (p.monitor.eng i).lastSeq.toNat < md.log.length

structure Inv (s : AckSys) : Prop where
  module : ∀ md, s.module = some md → s.ModuleOK md
  file : ∀ f, s.ackFile = some f → s.FileOK f
  proc : ∀ p, s.proc = some p → ∃ md, s.module = some md ∧ ProcOK md p

theorem Inv.running {s : AckSys} (h : s.Inv) {md : KgModule} {p : MonProc}
    (hmod : s.module = some md) (hproc : s.proc = some p) : ProcOK md p := by
  obtain ⟨md', hmod', hok⟩ := h.proc p hproc
  have hmd : md = md' := Option.some.inj (hmod.symm.trans hmod')
  rw [hmd]
  exact hok

/-- Fewer than `2 ^ 31` publications in the present load. -/
def Small (s : AckSys) : Prop := ∀ md ∈ s.module, md.log.length < 2 ^ 31

instance (s : AckSys) : Decidable s.Small :=
  inferInstanceAs (Decidable (∀ md ∈ s.module, md.log.length < 2 ^ 31))

theorem inv_boot : Inv boot := ⟨nofun, nofun, nofun⟩

theorem ModuleOK.index {s : AckSys} {md : KgModule} (h : s.ModuleOK md)
    (hsmall : md.log.length < 2 ^ 31) : md.comms.ring.writeIndex.toNat = md.log.length := by
  rw [h.writeIndex, UInt32.toNat_ofNat']
  exact Nat.mod_eq_of_lt (by omega)

/-! #### The module and the file -/

theorem notifyModule_cases (env : Env) (a : Alert) (clock : Nat) (md : KgModule) :
    ((notifyModule env a clock md).log = md.log ++ [clock] ∧
      (notifyModule env a clock md).comms.ring =
        md.comms.ring.publish (notificationOf md.mac md.comms.ring.driverNonce env.real a)) ∨
    ((notifyModule env a clock md).log = md.log ∧
      (notifyModule env a clock md).comms.ring = md.comms.ring) := by
  obtain ⟨-, ⟨hret, hring⟩ | ⟨hret, hring⟩⟩ := kgCommsNotify_cases md.mac env a md.comms
  · exact Or.inl ⟨if_pos hret, hring⟩
  · exact Or.inr ⟨if_neg hret, hring⟩

theorem ModuleOK.notify {s s' : AckSys} {md : KgModule} (h : s.ModuleOK md)
    (hclock : s'.clock = s.clock + 1) (env : Env) (a : Alert) :
    s'.ModuleOK (notifyModule env a s.clock md) := by
  rcases notifyModule_cases env a s.clock md with ⟨hlog, hring⟩ | ⟨hlog, hring⟩
  · refine ⟨by rw [hring]; rfl, ?_, fun t ht => ?_⟩
    · rw [hring, hlog, List.length_append, List.length_singleton, ← serial_succ,
        ← h.writeIndex, ← h.nonce]
      rfl
    · rw [hlog, List.mem_append, List.mem_singleton] at ht
      rcases ht with ht | ht
      · have := h.past t ht
        omega
      · omega
  · refine ⟨by rw [hring]; exact h.nonce, by rw [hring, hlog]; exact h.writeIndex, ?_⟩
    intro t ht
    rw [hlog] at ht
    have := h.past t ht
    omega

theorem ModuleOK.later {s s' : AckSys} {md : KgModule} (h : s.ModuleOK md)
    (hclock : s'.clock = s.clock + 1) : s'.ModuleOK md :=
  ⟨h.nonce, h.writeIndex, fun t ht => by have := h.past t ht; omega⟩

/-- A file means what it meant when the module has only been removed or left alone. -/
theorem FileOK.later {s s' : AckSys} {f : AckFile} (h : s.FileOK f)
    (hclock : s'.clock = s.clock + 1) (hloads : s'.loads = s.loads)
    (hmod : ∀ md, s'.module = some md → s.module = some md) : s'.FileOK f := by
  refine ⟨by have := h.issued; omega, by rw [hloads]; exact h.load, ?_, ?_⟩
  · intro hload md hmd
    exact h.own (hload.trans hloads) md (hmod md hmd)
  · intro hload md hmd
    exact h.old (by omega) md (hmod md hmd)

/-- A publication does not reach behind the file: it is later. -/
theorem FileOK.notify {s s' : AckSys} {f : AckFile} (h : s.FileOK f)
    (hclock : s'.clock = s.clock + 1) (hloads : s'.loads = s.loads) {env : Env} {a : Alert}
    (hmod : s'.module = s.module.map (notifyModule env a s.clock)) : s'.FileOK f := by
  have hissued := h.issued
  refine ⟨by omega, by rw [hloads]; exact h.load, ?_, ?_⟩
  · intro hload md' hmd'
    rw [hmod, Option.map_eq_some_iff] at hmd'
    obtain ⟨md, hmd, rfl⟩ := hmd'
    obtain ⟨hlt, hpast⟩ := h.own (hload.trans hloads) md hmd
    rcases notifyModule_cases env a s.clock md with ⟨hlog, -⟩ | ⟨hlog, -⟩
    · rw [hlog, List.length_append]
      refine ⟨by omega, fun j t hj hle => ?_⟩
      rw [List.getElem?_append_left (by omega)] at hj
      exact hpast j t hj hle
    · rw [hlog]
      exact ⟨hlt, hpast⟩
  · intro hload md' hmd' t ht
    rw [hmod, Option.map_eq_some_iff] at hmd'
    obtain ⟨md, hmd, rfl⟩ := hmd'
    have hold := h.old (by omega) md hmd
    rcases notifyModule_cases env a s.clock md with ⟨hlog, -⟩ | ⟨hlog, -⟩
    · rw [hlog, List.mem_append, List.mem_singleton] at ht
      rcases ht with ht | ht
      · exact hold t ht
      · omega
    · rw [hlog] at ht
      exact hold t ht

/-- After a load every file is an old one, and nothing has been published yet. -/
theorem FileOK.reload {s s' : AckSys} {f : AckFile} (h : s.FileOK f)
    (hclock : s'.clock = s.clock + 1) (hloads : s'.loads = s.loads + 1)
    (hempty : ∀ md, s'.module = some md → md.log = []) : s'.FileOK f := by
  have hissued := h.issued
  have hle := h.load
  refine ⟨by omega, by omega, fun hload => by omega, ?_⟩
  intro _ md hmd t ht
  rw [hempty md hmd] at ht
  exact absurd ht List.not_mem_nil

/-- The file `kgmon ack` writes. -/
theorem fileOK_ack {s s' : AckSys} (h : s.Inv) (hsmall : s.Small) {md : KgModule}
    (hmd : s.module = some md) (hclock : s'.clock = s.clock + 1) (hloads : s'.loads = s.loads)
    (hmod : s'.module = s.module) (hw : md.comms.ring.writeIndex ≠ 0) (id : AckId) (uid : Nat) :
    s'.FileOK ⟨id, uid, md.comms.ring.writeIndex - 1, s.clock, s.loads⟩ := by
  have hok := h.module md hmd
  have hindex := hok.index (hsmall md hmd)
  have hone : (1 : UInt32) ≤ md.comms.ring.writeIndex := by
    rw [UInt32.le_iff_toNat_le]
    have hpos : md.comms.ring.writeIndex.toNat ≠ 0 := fun h0 => hw (UInt32.toNat_inj.mp h0)
    show 1 ≤ _
    omega
  have hseq : (md.comms.ring.writeIndex - 1).toNat = md.log.length - 1 := by
    rw [UInt32.toNat_sub_of_le _ _ hone, hindex]
    rfl
  have hlen : 1 ≤ md.log.length := by
    rw [← hindex]
    exact UInt32.le_iff_toNat_le.mp hone
  refine ⟨by show s.clock < _; omega, by show s.loads ≤ _; omega, ?_, ?_⟩
  · intro _ md' hmd'
    rw [hmod, hmd] at hmd'
    have heq : md = md' := Option.some.inj hmd'
    subst heq
    refine ⟨by show (md.comms.ring.writeIndex - 1).toNat < _; omega, fun j t hj _ => ?_⟩
    exact hok.past t (List.mem_of_getElem? hj)
  · intro hlt
    exact absurd hlt (by show ¬ s.loads < _; omega)

/-! #### The monitor -/

theorem procOK_start {md : KgModule} (hindex : md.comms.ring.writeIndex.toNat = md.log.length)
    (opts : MonOpts) : ProcOK md (MonProc.start opts md) := by
  refine ⟨?_, fun i hi => absurd hi Bool.false_ne_true⟩
  rw [← hindex]
  exact UInt32.le_iff_toNat_le.mp (connect_le _ _)

theorem ProcOK.drain {md : KgModule} {p : MonProc} (h : ProcOK md p)
    (hindex : md.comms.ring.writeIndex.toNat = md.log.length) (host : Host) :
    ProcOK md { p with monitor := (p.monitor.drain p.mac host md.comms.ring).1 } := by
  have hdrained := p.monitor.drain_drained p.mac host md.comms.ring (by rw [hindex]; exact h.cursor)
  have hcalm := hdrained.calm
  have hcursor := hdrained.cursor
  rw [hindex] at hcalm hcursor
  exact ⟨hcursor, hcalm.below h.seqs⟩

theorem kgpTickRun_same (host : Host) (pol : KgpPolicy) (m : Monitor) :
    (m.kgpTickRun host pol).1.reader = m.reader ∧
      (m.kgpTickRun host pol).1.eng = (kgpTick pol (host.monoS 0) m.eng).1 := by
  have hsame := Monitor.runActions_same host 0 pol (kgpTick pol (host.monoS 0) m.eng).2
    { m with eng := (kgpTick pol (host.monoS 0) m.eng).1 }
  exact ⟨hsame.reader, hsame.eng⟩

theorem ProcOK.tick {md : KgModule} {p : MonProc} (h : ProcOK md p) (host : Host)
    (pol : KgpPolicy) : ProcOK md { p with monitor := (p.monitor.kgpTickRun host pol).1 } := by
  obtain ⟨hreader, heng⟩ := kgpTickRun_same host pol p.monitor
  refine ⟨by rw [hreader]; exact h.cursor, ?_⟩
  show ∀ i, ((p.monitor.kgpTickRun host pol).1.eng i).used = true → _
  rw [heng]
  exact (kgpTick_calm pol _ md.log.length p.monitor.eng).below h.seqs

/-- The monitor reads the file: it is not the one read last, and its owner may acknowledge. -/
def Reads (p : MonProc) (f : AckFile) : Prop :=
  f.id ≠ p.ackSeen ∧ (f.uid = 0 ∨ f.uid = p.euid)

instance (p : MonProc) (f : AckFile) : Decidable (Reads p f) :=
  inferInstanceAs (Decidable (_ ∧ _))

theorem policyCheckAck_cases (p : MonProc) (file : Option AckFile) :
    (∃ f, file = some f ∧ Reads p f ∧
      (p.policyCheckAck file).monitor = { p.monitor with eng := kgpAck f.seq p.monitor.eng }) ∨
    ((∀ f, file = some f → ¬Reads p f) ∧ (p.policyCheckAck file).monitor = p.monitor) := by
  cases file with
  | none => exact Or.inr ⟨nofun, rfl⟩
  | some f =>
      unfold MonProc.policyCheckAck
      simp only
      split
      · next hseen => exact Or.inr ⟨fun g hg hr => hr.1 (Option.some.inj hg ▸ hseen), rfl⟩
      · next hnew =>
          split
          · next howner =>
              rw [Bool.and_eq_true, decide_eq_true_eq, decide_eq_true_eq] at howner
              refine Or.inr ⟨fun g hg hr => ?_, rfl⟩
              rw [← Option.some.inj hg] at hr
              exact hr.2.elim howner.1 howner.2
          · next howner =>
              refine Or.inl ⟨f, rfl, ⟨hnew, ?_⟩, rfl⟩
              by_contra hno
              rw [not_or] at hno
              exact howner (by simp [hno.1, hno.2])

theorem ProcOK.checkAck {md : KgModule} {p : MonProc} (h : ProcOK md p)
    (file : Option AckFile) : ProcOK md (p.policyCheckAck file) := by
  rcases policyCheckAck_cases p file with ⟨f, -, -, hmon⟩ | ⟨-, hmon⟩
  · refine ⟨by rw [hmon]; exact h.cursor, fun i => ?_⟩
    rw [hmon]
    show (kgpAck f.seq p.monitor.eng i).used = true → (kgpAck f.seq p.monitor.eng i).lastSeq.toNat < _
    unfold kgpAck
    split
    · exact h.seqs i
    · exact h.seqs i
  · refine ⟨by rw [hmon]; exact h.cursor, ?_⟩
    rw [hmon]
    exact h.seqs

theorem ProcOK.notify {md : KgModule} {p : MonProc} (h : ProcOK md p) (env : Env) (a : Alert)
    (clock : Nat) : ProcOK (notifyModule env a clock md) p := by
  have hgrow : md.log.length ≤ (notifyModule env a clock md).log.length := by
    rcases notifyModule_cases env a clock md with ⟨hlog, -⟩ | ⟨hlog, -⟩
    · rw [hlog, List.length_append]
      exact Nat.le_add_right _ _
    · rw [hlog]
  exact ⟨Nat.le_trans h.cursor hgrow, fun i hi => Nat.lt_of_lt_of_le (h.seqs i hi) hgrow⟩

/-! #### What a step does -/

/-- Where the monitor after a step comes from. -/
inductive ProcFrom (s : AckSys) (op : AckOp) (q : MonProc) : Prop
  | same (proc : s.proc = some q)
  | start {opts : MonOpts} {md : KgModule} (isOp : op = .start opts)
      (module : s.module = some md) (eq : q = MonProc.start opts md)
  | drain {host : Host} {md : KgModule} {p : MonProc} (isOp : op = .drain host)
      (module : s.module = some md) (proc : s.proc = some p)
      (eq : q = { p with monitor := (p.monitor.drain p.mac host md.comms.ring).1 })
  | checkAck {p : MonProc} (isOp : op = .checkAck) (proc : s.proc = some p)
      (policy : p.monitor.policy.isSome) (eq : q = p.policyCheckAck s.ackFile)
  | tick {host : Host} {p : MonProc} {pol : KgpPolicy} (isOp : op = .tick host)
      (proc : s.proc = some p)
      (eq : q = { p with monitor := (p.monitor.kgpTickRun host pol).1 })

theorem procFrom {s : AckSys} {op : AckOp} {q : MonProc} (hq : (s.step op).proc = some q) :
    ProcFrom s op q := by
  cases op with
  | load now mac =>
      simp only [step, act] at hq
      split at hq
      · exact .same hq
      · exact .same hq
  | unload =>
      simp only [step, act] at hq
      split at hq
      · exact .same hq
      · exact .same hq
  | notify env a => exact .same hq
  | ack id uid =>
      simp only [step, act] at hq
      split at hq
      · exact .same hq
      · simp only [cmdAck] at hq
        split at hq
        · exact .same hq
        · exact .same hq
  | start opts =>
      simp only [step, act] at hq
      split at hq
      · next md hmod hproc => exact .start rfl hmod (Option.some.inj hq).symm
      · exact .same hq
  | stop => exact absurd hq nofun
  | drain host =>
      simp only [step, act] at hq
      split at hq
      · next md p hmod hproc => exact .drain rfl hmod hproc (Option.some.inj hq).symm
      · exact .same hq
  | checkAck =>
      simp only [step, act] at hq
      split at hq
      · exact .same hq
      · next p hproc =>
          split at hq
          · next hpol => exact .checkAck rfl hproc hpol (Option.some.inj hq).symm
          · exact .same hq
  | tick host =>
      simp only [step, act] at hq
      split at hq
      · exact .same hq
      · next p hproc =>
          split at hq
          · exact .same hq
          · exact .tick rfl hproc (Option.some.inj hq).symm

/-- The steps of the monitor, which touch neither the module nor the file. -/
def ofMonitor : AckOp → Bool
  | .load _ _ => false
  | .unload => false
  | .notify _ _ => false
  | .ack _ _ => false
  | _ => true

theorem step_frame (s : AckSys) {op : AckOp} (hop : ofMonitor op = true) :
    (s.step op).loads = s.loads ∧ (s.step op).module = s.module ∧
      (s.step op).ackFile = s.ackFile := by
  cases op with
  | load now mac => exact absurd hop Bool.false_ne_true
  | unload => exact absurd hop Bool.false_ne_true
  | notify env a => exact absurd hop Bool.false_ne_true
  | ack id uid => exact absurd hop Bool.false_ne_true
  | start opts =>
      simp only [step, act]
      split
      · exact ⟨rfl, rfl, rfl⟩
      · exact ⟨rfl, rfl, rfl⟩
  | stop => exact ⟨rfl, rfl, rfl⟩
  | drain host =>
      simp only [step, act]
      split
      · exact ⟨rfl, rfl, rfl⟩
      · exact ⟨rfl, rfl, rfl⟩
  | checkAck =>
      simp only [step, act]
      split
      · exact ⟨rfl, rfl, rfl⟩
      · split
        · exact ⟨rfl, rfl, rfl⟩
        · exact ⟨rfl, rfl, rfl⟩
  | tick host =>
      simp only [step, act]
      split
      · exact ⟨rfl, rfl, rfl⟩
      · split
        · exact ⟨rfl, rfl, rfl⟩
        · exact ⟨rfl, rfl, rfl⟩

/-! #### The invariant along a step -/

/-- A step that leaves the module alone, and changes the monitor to an admissible one. -/
theorem Inv.of_proc {s s' : AckSys} (h : s.Inv) (hclock : s'.clock = s.clock + 1)
    (hloads : s'.loads = s.loads) (hmod : s'.module = s.module) (hfile : s'.ackFile = s.ackFile)
    (hproc : ∀ p, s'.proc = some p → ∃ md, s.module = some md ∧ ProcOK md p) : s'.Inv := by
  refine ⟨fun md hmd => ?_, fun f hf => ?_, fun p hp => ?_⟩
  · rw [hmod] at hmd
    exact (h.module md hmd).later hclock
  · rw [hfile] at hf
    refine (h.file f hf).later hclock hloads fun md hmd => ?_
    rwa [hmod] at hmd
  · rw [hmod]
    exact hproc p hp

theorem Inv.of_same {s : AckSys} (h : s.Inv) {op : AckOp} (hact : s.act op = s) :
    (s.step op).Inv := by
  have hstep : s.step op = { s with clock := s.clock + 1 } := by rw [step, hact]
  rw [hstep]
  exact h.of_proc rfl rfl rfl rfl h.proc

theorem Inv.load {s : AckSys} (h : s.Inv) (now : UInt64) (mac : List UInt8 → KgMac) :
    (s.step (.load now mac)).Inv := by
  cases hmod : s.module with
  | some md =>
      exact h.of_same (by simp only [act, hmod])
  | none =>
      have hact : s.act (.load now mac) =
          { s with loads := s.loads + 1, module := some ⟨kgCommsInit now, mac, []⟩ } := by
        simp only [act, hmod]
      refine ⟨fun md hmd => ?_, fun f hf => ?_, fun p hp => ?_⟩
      · simp only [step, hact, Option.some.injEq] at hmd
        rw [← hmd]
        exact ⟨rfl, rfl, fun t ht => absurd ht List.not_mem_nil⟩
      · simp only [step, hact] at hf
        refine (h.file f hf).reload rfl (by simp only [step, hact]) fun md hmd => ?_
        simp only [step, hact, Option.some.injEq] at hmd
        rw [← hmd]
      · simp only [step, hact] at hp
        obtain ⟨md, hmd, -⟩ := h.proc p hp
        rw [hmod] at hmd
        exact absurd hmd nofun

theorem Inv.unload {s : AckSys} (h : s.Inv) : (s.step .unload).Inv := by
  cases hproc : s.proc with
  | some p => exact h.of_same (by simp only [act, hproc])
  | none =>
      have hstep : s.step .unload = { s with clock := s.clock + 1, module := none } := by
        simp only [step, act, hproc]
      rw [hstep]
      refine ⟨nofun, fun f hf => (h.file f hf).later rfl rfl nofun, fun p hp => ?_⟩
      rw [hproc] at hp
      exact absurd hp nofun

theorem Inv.notify {s : AckSys} (h : s.Inv) (env : Env) (a : Alert) :
    (s.step (.notify env a)).Inv := by
  refine ⟨fun md' hmd' => ?_, fun f hf => (h.file f hf).notify rfl rfl rfl, fun p hp => ?_⟩
  · obtain ⟨md, hmd, rfl⟩ := Option.map_eq_some_iff.mp hmd'
    exact (h.module md hmd).notify rfl env a
  · obtain ⟨md, hmd, hok⟩ := h.proc p hp
    exact ⟨notifyModule env a s.clock md, Option.map_eq_some_iff.mpr ⟨md, hmd, rfl⟩,
      hok.notify env a s.clock⟩

theorem Inv.ack {s : AckSys} (h : s.Inv) (hsmall : s.Small) (id : AckId) (uid : Nat) :
    (s.step (.ack id uid)).Inv := by
  cases hmod : s.module with
  | none => exact h.of_same (by simp only [act, hmod])
  | some md =>
      by_cases hw : md.comms.ring.writeIndex = 0
      · exact h.of_same (by simp only [act, hmod, cmdAck, if_pos hw])
      · have hstep : s.step (.ack id uid) =
            { s with
              clock := s.clock + 1
              ackFile := some ⟨id, uid, md.comms.ring.writeIndex - 1, s.clock, s.loads⟩ } := by
          simp only [step, act, hmod, cmdAck, if_neg hw]
        rw [hstep]
        refine ⟨fun md' hmd' => (h.module md' hmd').later rfl, fun f hf => ?_, h.proc⟩
        rw [← Option.some.inj hf]
        refine fileOK_ack h hsmall hmod ?_ ?_ ?_ hw id uid
        · rfl
        · rfl
        · rfl

theorem ProcFrom.ok {s : AckSys} (h : s.Inv) (hsmall : s.Small) {op : AckOp} {q : MonProc}
    (hq : ProcFrom s op q) : ∃ md, s.module = some md ∧ ProcOK md q := by
  cases hq with
  | same proc => exact h.proc q proc
  | @start opts md isOp module eq =>
      rw [eq]
      exact ⟨md, module, procOK_start ((h.module md module).index (hsmall md module)) opts⟩
  | @drain host md p isOp module proc eq =>
      have hindex := (h.module md module).index (hsmall md module)
      rw [eq]
      exact ⟨md, module, (h.running module proc).drain hindex host⟩
  | @checkAck p isOp proc policy eq =>
      obtain ⟨md, module, hok⟩ := h.proc p proc
      rw [eq]
      exact ⟨md, module, hok.checkAck s.ackFile⟩
  | @tick host p pol isOp proc eq =>
      obtain ⟨md, module, hok⟩ := h.proc p proc
      rw [eq]
      exact ⟨md, module, hok.tick host pol⟩

theorem Inv.ofMonitor {s : AckSys} (h : s.Inv) (hsmall : s.Small) {op : AckOp}
    (hop : ofMonitor op = true) : (s.step op).Inv := by
  obtain ⟨hloads, hmod, hfile⟩ := step_frame s hop
  exact h.of_proc rfl hloads hmod hfile fun _ hq => (procFrom hq).ok h hsmall

theorem Inv.step {s : AckSys} (h : s.Inv) (hsmall : s.Small) (op : AckOp) : (s.step op).Inv := by
  cases op with
  | load now mac => exact h.load now mac
  | unload => exact h.unload
  | notify env a => exact h.notify env a
  | ack id uid => exact h.ack hsmall id uid
  | start opts => exact h.ofMonitor hsmall rfl
  | stop => exact h.ofMonitor hsmall rfl
  | drain host => exact h.ofMonitor hsmall rfl
  | checkAck => exact h.ofMonitor hsmall rfl
  | tick host => exact h.ofMonitor hsmall rfl

/-! ### What sets a flag

Once every other step is known to set none, a flag that is set leads to the one
check that can have done it, and that check has read a file whose number is not
behind the incident's.  This is an equivalence, so the run-level condition can name
the check.
-/

/-- The step sets the `acked` flag of slot `i`, whose incident is `inc` afterwards. -/
def SetsAcked (s : AckSys) (op : AckOp) (i : Fin kgpMaxIncidents) (inc : KgpIncident) : Prop :=
  (s.step op).incident i = some inc ∧ inc.acked = true ∧
    ∀ old, s.incident i = some old → old.acked = false

/-- The monitor of `s` reads the file of `s`, which covers its unacknowledged incident `i`. -/
structure Covers (s : AckSys) (p : MonProc) (f : AckFile) (i : Fin kgpMaxIncidents) : Prop where
  proc : s.proc = some p
  file : s.ackFile = some f
  policy : p.monitor.policy.isSome
  reads : Reads p f
  used : (p.monitor.eng i).used = true
  unacked : (p.monitor.eng i).acked = false
  covered : seqCovered f.seq (p.monitor.eng i).lastSeq = true

theorem kgpAck_sets {up : UInt32} {e : KgpEngine} {i : Fin kgpMaxIncidents}
    (hacked : (kgpAck up e i).acked = true) (hnot : (e i).acked = false) :
    (e i).used = true ∧ seqCovered up (e i).lastSeq = true ∧
      kgpAck up e i = { e i with acked := true } := by
  unfold kgpAck at hacked ⊢
  by_cases hcov : ((e i).used && seqCovered up (e i).lastSeq) = true
  · rw [if_pos hcov]
    rw [Bool.and_eq_true] at hcov
    exact ⟨hcov.1, hcov.2, rfl⟩
  · rw [if_neg hcov, hnot] at hacked
    exact absurd hacked Bool.false_ne_true

theorem policyCheckAck_sets {s : AckSys} {p : MonProc} {i : Fin kgpMaxIncidents}
    (hproc : s.proc = some p) (hpol : p.monitor.policy.isSome)
    (hnot : (p.monitor.eng i).acked = false)
    (hacked : ((p.policyCheckAck s.ackFile).monitor.eng i).acked = true) :
    ∃ f, Covers s p f i ∧
      (p.policyCheckAck s.ackFile).monitor.eng i = { p.monitor.eng i with acked := true } := by
  rcases policyCheckAck_cases p s.ackFile with ⟨f, hfile, hreads, hmon⟩ | ⟨-, hmon⟩
  · rw [hmon] at hacked ⊢
    obtain ⟨hused, hcov, heq⟩ := kgpAck_sets hacked hnot
    exact ⟨f, ⟨hproc, hfile, hpol, hreads, hused, hnot, hcov⟩, heq⟩
  · rw [hmon, hnot] at hacked
    exact absurd hacked Bool.false_ne_true

theorem Covers.sets {s : AckSys} {p : MonProc} {f : AckFile} {i : Fin kgpMaxIncidents}
    (h : Covers s p f i) :
    SetsAcked s .checkAck i { p.monitor.eng i with acked := true } := by
  have hproc : (s.step .checkAck).proc = some (p.policyCheckAck s.ackFile) := by
    simp only [step, act, h.proc, if_pos h.policy]
  have hmon : (p.policyCheckAck s.ackFile).monitor =
      { p.monitor with eng := kgpAck f.seq p.monitor.eng } := by
    rcases policyCheckAck_cases p s.ackFile with ⟨g, hg, -, hmon⟩ | ⟨hno, -⟩
    · rw [h.file] at hg
      rw [hmon, ← Option.some.inj hg]
    · exact absurd h.reads (hno f h.file)
  have hinc : kgpAck f.seq p.monitor.eng i = { p.monitor.eng i with acked := true } := by
    unfold kgpAck
    rw [if_pos (by rw [h.used, h.covered]; rfl)]
  refine ⟨?_, rfl, fun old hold => ?_⟩
  · rw [incident, hproc, Option.map_some, hmon, ← hinc]
  · rw [incident, h.proc] at hold
    rw [← Option.some.inj hold]
    exact h.unacked

/-- **Only `policy_check_ack` sets a flag**, and only of an incident the file covers. -/
theorem SetsAcked.cases {s : AckSys} (h : s.Inv) (hsmall : s.Small) {op : AckOp}
    {i : Fin kgpMaxIncidents} {inc : KgpIncident} (hset : SetsAcked s op i inc) :
    op = .checkAck ∧ ∃ p f, Covers s p f i ∧ inc = { p.monitor.eng i with acked := true } := by
  obtain ⟨hinc, hacked, hold⟩ := hset
  obtain ⟨q, hq, rfl⟩ := Option.map_eq_some_iff.mp hinc
  have hbefore : ∀ p, s.proc = some p → (p.monitor.eng i).acked = false := by
    intro p hp
    exact hold (p.monitor.eng i) (by rw [incident, hp]; rfl)
  have hunset : ∀ p, s.proc = some p → ¬(p.monitor.eng i).acked = true := by
    intro p hp
    rw [hbefore p hp]
    exact Bool.false_ne_true
  -- all but the check are calm, or start from an empty engine
  cases procFrom hq with
  | same proc => exact absurd hacked (hunset q proc)
  | start isOp module eq =>
      rw [eq] at hacked
      exact absurd hacked Bool.false_ne_true
  | @drain host md p isOp module proc eq =>
      have hcursor : p.monitor.reader.cursor.toNat ≤ md.comms.ring.writeIndex.toNat := by
        rw [(h.module md module).index (hsmall md module)]
        exact (h.running module proc).cursor
      rw [eq] at hacked
      have hdrained := p.monitor.drain_drained p.mac host md.comms.ring hcursor
      exact absurd (hdrained.calm.acked i hacked) (hunset p proc)
  | @tick host p pol isOp proc eq =>
      rw [eq] at hacked
      change ((p.monitor.kgpTickRun host pol).1.eng i).acked = true at hacked
      rw [(kgpTickRun_same host pol p.monitor).2] at hacked
      exact absurd ((kgpTick_calm pol _ 0 p.monitor.eng).acked i hacked) (hunset p proc)
  | @checkAck p isOp proc policy eq =>
      rw [eq] at hacked ⊢
      obtain ⟨f, hcov, heq⟩ := policyCheckAck_sets proc policy (hbefore p proc) hacked
      exact ⟨isOp, p, f, hcov, heq⟩

/-! ### Which acknowledgements are right

Within a load numbers are compared as a signed difference of 32 bits, which is their
order as long as fewer than 2^31 have been published.  A file of the same load was
written after everything it covers, by the invariant; a file of an earlier load says
nothing about the present one, and `NoLeftover` is exactly that no check reads one
over an incident it covers.
-/

/-- Two numbers of one load are compared as numbers. -/
theorem seqCovered_iff {up seq : UInt32} (hup : up.toNat < 2 ^ 31) (hseq : seq.toNat < 2 ^ 31) :
    seqCovered up seq = true ↔ seq.toNat ≤ up.toNat := by
  unfold seqCovered
  rw [decide_eq_true_eq, UInt32.toNat_sub]
  omega

/-- The flag is set only by an acknowledgement, and only by one that was issued after the
incident's most recent alert was published. -/
def AckedLater (s : AckSys) (op : AckOp) : Prop :=
  ∀ i inc, SetsAcked s op i inc → op = .checkAck ∧ ∃ f md t,
    s.ackFile = some f ∧ s.module = some md ∧ md.log[inc.lastSeq.toNat]? = some t ∧ t < f.issued

/-- No check reads a file from an earlier load that covers an open incident. -/
def NoLeftover (s : AckSys) (op : AckOp) : Prop :=
  op = .checkAck → ∀ p f i, Covers s p f i → f.load = s.loads

theorem AckedLater.own {s : AckSys} (h : s.Inv) {op : AckOp} (hlater : AckedLater s op) :
    NoLeftover s op := by
  intro hop p f i hcov
  subst hop
  obtain ⟨-, g, md, t, hg, hmod, ht, hissued⟩ := hlater i _ hcov.sets
  have hgf : f = g := Option.some.inj (hcov.file.symm.trans hg)
  subst hgf
  have hok := h.file f hcov.file
  rcases Nat.lt_or_ge f.load s.loads with hlt | hge
  · have hold := hok.old hlt md hmod t (List.mem_of_getElem? ht)
    omega
  · exact Nat.le_antisymm hok.load hge

end AckSys

end KernelGuard
