/-
Which unauthorised bus masters are announced, and when.

A record stands for a device that has been announced since it was last plugged in: the audit
makes one for every unauthorised bus master it announces, and drops those of devices that have
left.  It drops them at its end, though, so during the audit the records of devices that have
just left still take up space.  A bus master for which no record is left is not announced in
the scan that first sees it, and with enforcement on it may be silenced before the next one.

A run announces every one of them in time exactly if at every scan the records at hand and the
scan's unauthorised bus masters fit into the table together.
-/
import KernelGuard.Model.DmaAudit
import Mathlib.Data.Finset.Card
import Mathlib.Data.Finset.Dedup
import Mathlib.Tactic.SplitIfs

namespace KernelGuard

open Run

/-! ### Identities

Records are kept by where a device sits and what it says it is, and the comparison
in the code is equality of these fields.  A device that is replaced in its slot by
one of another kind is another identity, and is treated as such from the scan on
that sees it.
-/

/-- What makes two entries the same device: where it sits, and what it says it is. -/
structure DmaIdentity where
  addr : PciAddr
  vid : UInt16
  did : UInt16
  deriving DecidableEq

def KgPciEnt.identity (e : KgPciEnt) : DmaIdentity := ⟨e.toPciAddr, e.vid, e.did⟩

theorem kgSameIdentity_iff {a b : KgPciEnt} :
    kgSameIdentity a b = true ↔ a.identity = b.identity := by
  simp [kgSameIdentity, kgSameDev, KgPciEnt.identity, and_assoc]

/-- Authorisation is a matter of identity. -/
def authorizedId (cfg : DmaConfig) (i : DmaIdentity) : Bool :=
  cfg.base.any (fun b => b.identity = i) || kgListContains cfg.allow (bdfText i.addr) ||
    kgListContains cfg.allow (idText i.vid i.did)

theorem kgDmaAuthorized_eq (cfg : DmaConfig) (e : KgPciEnt) :
    kgDmaAuthorized cfg e = authorizedId cfg e.identity := by
  have hbase : (cfg.base.any fun b => kgSameIdentity b e)
      = cfg.base.any fun b => decide (b.identity = e.identity) := by
    congr 1
    funext b
    rw [Bool.eq_iff_iff, kgSameIdentity_iff, decide_eq_true_eq]
  unfold kgDmaAuthorized authorizedId
  rw [hbase]
  rfl

/-- The entries of a scan, each with what the audit learns about it. -/
abbrev DmaScan : Type := List (KgPciEnt × AuditView)

/-- The device is in the scan. -/
def Present (i : DmaIdentity) (S : DmaScan) : Prop := ∃ p ∈ S, p.1.identity = i

/-- The device is an endpoint of the scan that is bus-mastering. -/
def Mastering (i : DmaIdentity) (S : DmaScan) : Prop :=
  ∃ p ∈ S, p.1.identity = i ∧ isBusMaster p.1 = true

instance (i : DmaIdentity) (S : DmaScan) : Decidable (Present i S) :=
  inferInstanceAs (Decidable (∃ p ∈ S, p.1.identity = i))

instance (i : DmaIdentity) (S : DmaScan) : Decidable (Mastering i S) :=
  inferInstanceAs (Decidable (∃ p ∈ S, p.1.identity = i ∧ isBusMaster p.1 = true))

/-- The unauthorised bus masters of a scan. -/
def offenders (cfg : DmaConfig) (S : DmaScan) : List DmaIdentity :=
  (S.filter fun p => isBusMaster p.1 && !kgDmaAuthorized cfg p.1).map (·.1.identity)

theorem mem_offenders {cfg : DmaConfig} {S : DmaScan} {i : DmaIdentity} :
    i ∈ offenders cfg S ↔ authorizedId cfg i = false ∧ Mastering i S := by
  unfold offenders Mastering
  simp only [List.mem_map, List.mem_filter, Bool.and_eq_true, Bool.not_eq_true', kgDmaAuthorized_eq]
  constructor
  · intro h
    obtain ⟨p, ⟨hp, hmaster, hauth⟩, rfl⟩ := h
    exact ⟨hauth, p, hp, rfl, hmaster⟩
  · intro h
    obtain ⟨hauth, p, hp, rfl, hmaster⟩ := h
    exact ⟨p, ⟨hp, hmaster, hauth⟩, rfl⟩

/-! ### Records

A record is made when a device is announced, and a device with a record is not
announced again.  Within an audit no record is dropped, so "one record each, and all
of them announced" is preserved turn by turn, and a device is announced at the turn
that gives it its record.
-/

/-- The devices on record. -/
def recIds (recs : List KgDmaRec) : List DmaIdentity := recs.map (·.e.identity)

/-- Between two turns of the audit: one record per device, and all of them announced. -/
structure RecsOK (recs : List KgDmaRec) : Prop where
  nodup : (recIds recs).Nodup
  alerted : ∀ r ∈ recs, r.alerted = true
  length : recs.length ≤ kgMaxSuspect

/-- The devices for which `UNAUTHORIZED_DMA` is among the reports. -/
def dmaAlerts (reports : List DmaReport) : List DmaIdentity :=
  (reports.filter fun r => r.alert.type = kgAlertUnauthorizedDma).map (·.e.identity)

theorem dmaAlerts_append (xs ys : List DmaReport) :
    dmaAlerts (xs ++ ys) = dmaAlerts xs ++ dmaAlerts ys := by
  simp [dmaAlerts]

/-- Writing to a record moves nothing. -/
theorem recIds_setRec (e : KgPciEnt) (f : KgDmaRec → KgDmaRec) (hf : ∀ r, (f r).e = r.e)
    (recs : List KgDmaRec) : recIds (setRec e f recs) = recIds recs := by
  induction recs with
  | nil => rfl
  | cons r rest ih =>
      unfold setRec
      split_ifs
      · simp [recIds, hf]
      · simp only [recIds, List.map_cons] at ih ⊢
        rw [ih]

theorem mem_setRec {e : KgPciEnt} {f : KgDmaRec → KgDmaRec} {recs : List KgDmaRec} {r : KgDmaRec}
    (h : r ∈ setRec e f recs) : r ∈ recs ∨ ∃ s ∈ recs, kgSameIdentity s.e e = true ∧ r = f s := by
  induction recs with
  | nil => simp [setRec] at h
  | cons s rest ih =>
      unfold setRec at h
      split_ifs at h with hs
      · rcases List.mem_cons.mp h with rfl | h
        · exact Or.inr ⟨s, by simp, hs, rfl⟩
        · exact Or.inl (List.mem_cons_of_mem _ h)
      · rcases List.mem_cons.mp h with rfl | h
        · exact Or.inl (by simp)
        · rcases ih h with h | ⟨q, hq, hrest⟩
          · exact Or.inl (List.mem_cons_of_mem _ h)
          · exact Or.inr ⟨q, List.mem_cons_of_mem _ hq, hrest⟩

/-- A new record, made for a device without one, is the one that is written to. -/
theorem setRec_new {e : KgPciEnt} {f : KgDmaRec → KgDmaRec} {x : KgDmaRec} {recs : List KgDmaRec}
    (hx : kgSameIdentity x.e e = true) (hnone : ∀ r ∈ recs, ¬ kgSameIdentity r.e e = true) :
    setRec e f (recs ++ [x]) = recs ++ [f x] := by
  induction recs with
  | nil => simp [setRec, hx]
  | cons r rest ih =>
      rw [List.cons_append, setRec, if_neg (hnone r (by simp)),
        ih (fun s hs => hnone s (List.mem_cons_of_mem _ hs)), List.cons_append]

/-- Enforcement raises no `UNAUTHORIZED_DMA` and keeps the records in order. -/
theorem enforceDma_spec (cfg : DmaConfig) (v : AuditView) (e : KgPciEnt) (got : Option KgDmaRec)
    {recs : List KgDmaRec} (h : RecsOK recs) :
    dmaAlerts (enforceDma cfg v e got recs).1 = [] ∧
      recIds (enforceDma cfg v e got recs).2 = recIds recs ∧
      RecsOK (enforceDma cfg v e got recs).2 := by
  unfold enforceDma
  cases got with
  | none => exact ⟨rfl, rfl, h⟩
  | some r =>
      simp only
      split_ifs
      · have hids := recIds_setRec e (fun r => { r with cleared := true }) (fun _ => rfl) recs
        refine ⟨rfl, hids, by rw [hids]; exact h.nodup, ?_, ?_⟩
        · intro s hs
          rcases mem_setRec hs with hs | ⟨q, hq, -, rfl⟩
          · exact h.alerted s hs
          · exact h.alerted q hq
        · have hlen := congrArg List.length hids
          simp only [recIds, List.length_map] at hlen
          rw [hlen]
          exact h.length
      · exact ⟨rfl, rfl, h⟩

/-- What `kg_dma_rec_get` can do: find a record, find the table full, or append a record. -/
theorem kgDmaRecGet_cases (e : KgPciEnt) (recs : List KgDmaRec) :
    (∃ r ∈ recs, e.identity ∈ recIds recs ∧ kgDmaRecGet e recs = (some r, recs)) ∨
    (e.identity ∉ recIds recs ∧ kgMaxSuspect ≤ recs.length ∧ kgDmaRecGet e recs = (none, recs)) ∨
    (e.identity ∉ recIds recs ∧ recs.length < kgMaxSuspect ∧
      kgDmaRecGet e recs = (some ⟨e, false, false⟩, recs ++ [⟨e, false, false⟩])) := by
  unfold kgDmaRecGet
  cases hfind : recs.find? fun r => kgSameIdentity r.e e with
  | some r =>
      have hr := List.mem_of_find?_eq_some hfind
      have hsame := List.find?_some hfind
      exact Or.inl ⟨r, hr, List.mem_map.mpr ⟨r, hr, kgSameIdentity_iff.mp hsame⟩, rfl⟩
  | none =>
      have hid : e.identity ∉ recIds recs := by
        intro hmem
        obtain ⟨r, hr, hsame⟩ := List.mem_map.mp hmem
        exact List.find?_eq_none.mp hfind r hr (kgSameIdentity_iff.mpr hsame)
      by_cases hfull : recs.length ≥ kgMaxSuspect
      · exact Or.inr (Or.inl ⟨hid, hfull, if_pos hfull⟩)
      · exact Or.inr (Or.inr ⟨hid, Nat.lt_of_not_le hfull, if_neg hfull⟩)

/-- A record for a device that had none, once the device has been announced. -/
theorem RecsOK.push {recs : List KgDmaRec} (h : RecsOK recs) {e : KgPciEnt}
    (hid : e.identity ∉ recIds recs) (hlen : recs.length < kgMaxSuspect) :
    RecsOK (recs ++ [⟨e, true, false⟩]) where
  nodup := by
    unfold recIds
    rw [List.map_append, List.nodup_append]
    refine ⟨h.nodup, by simp, ?_⟩
    intro x hx y hy hxy
    rw [List.map_singleton, List.mem_singleton] at hy
    exact hid (hy ▸ hxy ▸ hx)
  alerted := by
    intro r hr
    rcases List.mem_append.mp hr with hr | hr
    · exact h.alerted r hr
    · rw [List.mem_singleton.mp hr]
  length := by
    rw [List.length_append, List.length_singleton]
    exact hlen

/-- A device is announced if it has no record and there is space for one. -/
theorem auditEntry_spec (cfg : DmaConfig) (p : KgPciEnt × AuditView) {recs : List KgDmaRec}
    (h : RecsOK recs) :
    let new := isBusMaster p.1 = true ∧ kgDmaAuthorized cfg p.1 = false ∧
      p.1.identity ∉ recIds recs ∧ recs.length < kgMaxSuspect
    RecsOK (auditEntry cfg p recs).2 ∧
      (new → dmaAlerts (auditEntry cfg p recs).1 = [p.1.identity] ∧
        recIds (auditEntry cfg p recs).2 = recIds recs ++ [p.1.identity]) ∧
      (¬ new → dmaAlerts (auditEntry cfg p recs).1 = [] ∧
        recIds (auditEntry cfg p recs).2 = recIds recs) := by
  intro new
  unfold auditEntry
  by_cases hskip : (!isBusMaster p.1 || kgDmaAuthorized cfg p.1) = true
  · rw [if_pos hskip]
    refine ⟨h, fun hnew => ?_, fun _ => ⟨rfl, rfl⟩⟩
    rw [hnew.1, hnew.2.1] at hskip
    exact absurd hskip (by decide)
  · rw [if_neg hskip]
    have hoffends : isBusMaster p.1 = true ∧ kgDmaAuthorized cfg p.1 = false := by
      simpa using hskip
    simp only
    rcases kgDmaRecGet_cases p.1 recs with ⟨r, hr, hid, hgot⟩ | ⟨hid, hfull, hgot⟩ | ⟨hid, hlen, hgot⟩
    · -- on record already, so announced already
      have hfirst : announceDma p.2 p.1 (some r) recs = ([], recs) := by
        simp only [announceDma, h.alerted r hr, if_true]
      rw [hgot, hfirst]
      obtain ⟨hout, hids, hok⟩ := enforceDma_spec cfg p.2 p.1 (some r) h
      exact ⟨hok, fun hnew => absurd hid hnew.2.2.1, fun _ => ⟨hout, hids⟩⟩
    · rw [hgot]
      exact ⟨h, fun hnew => absurd hnew.2.2.2 (Nat.not_lt.mpr hfull), fun _ => ⟨rfl, rfl⟩⟩
    · have hnone : ∀ r ∈ recs, ¬ kgSameIdentity r.e p.1 = true :=
        fun r hr hsame => hid (List.mem_map.mpr ⟨r, hr, kgSameIdentity_iff.mp hsame⟩)
      have hset := setRec_new (f := fun r => { r with alerted := true })
        (x := ⟨p.1, false, false⟩) (kgSameIdentity_iff.mpr rfl) hnone
      rw [hgot]
      simp only [announceDma, Bool.false_eq_true, if_false]
      rw [hset]
      obtain ⟨hout, hids, hok⟩ :=
        enforceDma_spec cfg p.2 p.1 (some ⟨p.1, false, false⟩) (h.push hid hlen)
      refine ⟨hok, fun _ => ⟨?_, ?_⟩, fun hold => ?_⟩
      · rw [dmaAlerts_append, hout, List.append_nil]
        simp [dmaAlerts, dmaReport]
      · rw [hids]
        simp [recIds]
      · exact absurd ⟨hoffends.1, hoffends.2, hid, hlen⟩ hold

/-! ### One scan

Space is the only reason why an offender is not announced.  The records at hand are
distinct and the offenders are among those the scan must fit, so as long as one is
still without a record the table has room for it; `audit_loop_count` is this count,
by induction over the rest of the scan.
-/

/-- The records at hand and the unauthorised bus masters of the scan fit into the table. -/
def DmaFits (cfg : DmaConfig) (recs : List KgDmaRec) (S : DmaScan) : Prop :=
  (recIds recs ++ offenders cfg S).toFinset.card ≤ kgMaxSuspect

instance (cfg : DmaConfig) (recs : List KgDmaRec) (S : DmaScan) : Decidable (DmaFits cfg recs S) :=
  inferInstanceAs (Decidable (_ ≤ _))

theorem offenders_cons (cfg : DmaConfig) (p : KgPciEnt × AuditView) (S : DmaScan) :
    offenders cfg (p :: S)
      = (if isBusMaster p.1 = true ∧ kgDmaAuthorized cfg p.1 = false then [p.1.identity] else [])
        ++ offenders cfg S := by
  unfold offenders
  by_cases hoff : isBusMaster p.1 = true ∧ kgDmaAuthorized cfg p.1 = false
  · rw [List.filter_cons_of_pos (by simp [hoff]), if_pos hoff]
    rfl
  · rw [List.filter_cons_of_neg (by simpa using hoff), if_neg hoff]
    rfl

/-- Whatever the audit does, it keeps the records in order, and only offenders come on record. -/
theorem audit_loop_recs (cfg : DmaConfig) :
    ∀ (S : DmaScan) (recs : List KgDmaRec), RecsOK recs →
      RecsOK (loop (auditEntry cfg) S recs).2 ∧
      (∀ i, i ∈ recIds (loop (auditEntry cfg) S recs).2 ↔
        i ∈ recIds recs ∨ i ∈ dmaAlerts (loop (auditEntry cfg) S recs).1) := by
  intro S
  induction S with
  | nil => intro recs h; exact ⟨h, fun i => by simp [loop, outputs, dmaAlerts]⟩
  | cons p rest ih =>
      intro recs h
      obtain ⟨hok, hnew, hold⟩ := auditEntry_spec cfg p h
      obtain ⟨hok', hmem⟩ := ih _ hok
      rw [loop_cons]
      refine ⟨hok', fun i => ?_⟩
      simp only [dmaAlerts_append, List.mem_append]
      rw [hmem i]
      by_cases hcase : isBusMaster p.1 = true ∧ kgDmaAuthorized cfg p.1 = false ∧
          p.1.identity ∉ recIds recs ∧ recs.length < kgMaxSuspect
      · rw [(hnew hcase).1, (hnew hcase).2, List.mem_append, or_assoc]
      · rw [(hold hcase).1, (hold hcase).2]
        simp

/-- A list without repetitions in a set of at most `n` elements, and one more: it is shorter. -/
theorem length_lt_of_subset {α : Type} [DecidableEq α] {l : List α} {S : Finset α} {n : Nat} {x : α}
    (hl : l.Nodup) (hsub : ∀ y ∈ l, y ∈ S) (hcard : S.card ≤ n) (hx : x ∈ S) (hnew : x ∉ l) :
    l.length < n := by
  have hlt : l.toFinset.card < S.card := by
    refine Finset.card_lt_card ((Finset.ssubset_iff_of_subset ?_).mpr ⟨x, hx, by simpa using hnew⟩)
    intro y hy
    exact hsub y (List.mem_toFinset.mp hy)
  rw [List.toFinset_card_of_nodup hl] at hlt
  omega

/-- **With space for all**, a scan announces every offender without a record once. -/
theorem audit_loop_count (cfg : DmaConfig) {T : Finset DmaIdentity} (hcard : T.card ≤ kgMaxSuspect) :
    ∀ (S : DmaScan) (recs : List KgDmaRec), RecsOK recs → (∀ i ∈ recIds recs, i ∈ T) →
      (∀ i ∈ offenders cfg S, i ∈ T) → ∀ i,
      (dmaAlerts (loop (auditEntry cfg) S recs).1).count i
        = if i ∉ recIds recs ∧ i ∈ offenders cfg S then 1 else 0 := by
  intro S
  induction S with
  | nil =>
      intro recs _ _ _ i
      rw [if_neg (by simp [offenders])]
      rfl
  | cons p rest ih =>
      intro recs h hrecs hoff i
      obtain ⟨hok, hnew, hold⟩ := auditEntry_spec cfg p h
      rw [offenders_cons] at hoff
      have hrest : ∀ i ∈ offenders cfg rest, i ∈ T :=
        fun i hi => hoff i (List.mem_append_right _ hi)
      rw [loop_cons]
      simp only [dmaAlerts_append, List.count_append]
      rw [offenders_cons]
      by_cases hmaster : isBusMaster p.1 = true ∧ kgDmaAuthorized cfg p.1 = false
      · rw [if_pos hmaster] at hoff ⊢
        have hp : p.1.identity ∈ T := hoff _ (List.mem_append_left _ (by simp))
        by_cases hknown : p.1.identity ∈ recIds recs
        · obtain ⟨hout, hids⟩ := hold (fun hn => hn.2.2.1 hknown)
          rw [hout, List.count_nil, Nat.zero_add, ih _ hok (by rw [hids]; exact hrecs) hrest i, hids]
          have hiff : (i ∉ recIds recs ∧ i ∈ [p.1.identity] ++ offenders cfg rest) ↔
              (i ∉ recIds recs ∧ i ∈ offenders cfg rest) := by
            rw [List.singleton_append, List.mem_cons]
            refine and_congr_right fun hi => or_iff_right ?_
            rintro rfl
            exact hi hknown
          simp only [hiff]
        · have hlen : recs.length < kgMaxSuspect := by
            have := length_lt_of_subset h.nodup hrecs hcard hp hknown
            rwa [recIds, List.length_map] at this
          obtain ⟨hout, hids⟩ := hnew ⟨hmaster.1, hmaster.2, hknown, hlen⟩
          have hrecs' : ∀ i ∈ recIds (auditEntry cfg p recs).2, i ∈ T := by
            intro i hi
            rw [hids, List.mem_append, List.mem_singleton] at hi
            rcases hi with hi | rfl
            · exact hrecs i hi
            · exact hp
          rw [hout, ih _ hok hrecs' hrest i, hids]
          by_cases hip : i = p.1.identity
          · subst hip
            rw [List.count_singleton_self, if_neg (by simp), if_pos ⟨hknown, by simp⟩]
          · have hiff : (i ∉ recIds recs ++ [p.1.identity] ∧ i ∈ offenders cfg rest) ↔
                (i ∉ recIds recs ∧ i ∈ [p.1.identity] ++ offenders cfg rest) := by
              simp [hip]
            rw [List.count_eq_zero.mpr (by simpa using hip), Nat.zero_add]
            simp only [hiff]
      · rw [if_neg hmaster, List.nil_append]
        obtain ⟨hout, hids⟩ := hold (fun hn => hmaster ⟨hn.1, hn.2.1⟩)
        rw [hout, List.count_nil, Nat.zero_add, ih _ hok (by rw [hids]; exact hrecs) hrest i, hids]

/-- Pruning leaves the records of the devices that are there. -/
theorem mem_prune {S : DmaScan} {recs : List KgDmaRec} {i : DmaIdentity} :
    i ∈ recIds (kgDmaRecPrune (S.map (·.1)) recs) ↔ i ∈ recIds recs ∧ Present i S := by
  unfold recIds kgDmaRecPrune Present
  simp only [List.mem_map, List.mem_filter, List.any_eq_true, kgSameIdentity_iff]
  constructor
  · intro h
    obtain ⟨r, ⟨hr, c, ⟨p, hp, rfl⟩, hsame⟩, rfl⟩ := h
    exact ⟨⟨r, hr, rfl⟩, p, hp, hsame⟩
  · intro h
    obtain ⟨⟨r, hr, rfl⟩, p, hp, hsame⟩ := h
    exact ⟨r, ⟨hr, p.1, ⟨p, hp, rfl⟩, hsame⟩, rfl⟩

theorem RecsOK.prune {recs : List KgDmaRec} (h : RecsOK recs) (cur : List KgPciEnt) :
    RecsOK (kgDmaRecPrune cur recs) where
  nodup := List.Nodup.sublist (List.Sublist.map _ List.filter_sublist) h.nodup
  alerted := fun r hr => h.alerted r (List.mem_of_mem_filter hr)
  length := Nat.le_trans (List.length_filter_le _ _) h.length

/-- After an audit: the devices that were on record or announced, as far as they are there. -/
theorem kgDmaAudit_recs (cfg : DmaConfig) (S : DmaScan) {recs : List KgDmaRec} (h : RecsOK recs) :
    RecsOK (kgDmaAudit cfg S recs).2 ∧ ∀ i, i ∈ recIds (kgDmaAudit cfg S recs).2 ↔
      (i ∈ recIds recs ∨ i ∈ dmaAlerts (kgDmaAudit cfg S recs).1) ∧ Present i S := by
  obtain ⟨hok, hmem⟩ := audit_loop_recs cfg S recs h
  refine ⟨hok.prune _, fun i => ?_⟩
  show i ∈ recIds (kgDmaRecPrune _ _) ↔ _
  rw [mem_prune, hmem i]
  rfl

theorem kgDmaAudit_count {cfg : DmaConfig} {S : DmaScan} {recs : List KgDmaRec} (h : RecsOK recs)
    (hfits : DmaFits cfg recs S) (i : DmaIdentity) :
    (dmaAlerts (kgDmaAudit cfg S recs).1).count i
      = if i ∉ recIds recs ∧ i ∈ offenders cfg S then 1 else 0 := by
  refine audit_loop_count cfg hfits S recs h ?_ ?_ i
  · intro j hj
    exact List.mem_toFinset.mpr (List.mem_append_left _ hj)
  · intro j hj
    exact List.mem_toFinset.mpr (List.mem_append_right _ hj)

/-- If every offender without a record is announced, they all have got a record. -/
theorem fits_of_announced {cfg : DmaConfig} {S : DmaScan} {recs : List KgDmaRec} (h : RecsOK recs)
    (hall : ∀ i ∈ offenders cfg S, i ∉ recIds recs → i ∈ dmaAlerts (kgDmaAudit cfg S recs).1) :
    DmaFits cfg recs S := by
  obtain ⟨hok, hmem⟩ := audit_loop_recs cfg S recs h
  have hsub : (recIds recs ++ offenders cfg S).toFinset
      ⊆ (recIds (loop (auditEntry cfg) S recs).2).toFinset := by
    intro i hi
    rw [List.mem_toFinset, List.mem_append] at hi
    rw [List.mem_toFinset, hmem i]
    by_cases hrec : i ∈ recIds recs
    · exact Or.inl hrec
    · exact Or.inr (hall i (hi.resolve_left hrec) hrec)
  refine Nat.le_trans (Finset.card_le_card hsub) ?_
  rw [List.toFinset_card_of_nodup hok.nodup, recIds, List.length_map]
  exact hok.length

/-! ### Whole runs

After a scan the records are those of unauthorised devices that are present and were
seen bus-mastering in their stay (`Recorded`), provided every scan so far fitted.  A
scan that does not fit leaves an offender out, and that scan is where the law is
broken: so the law holds of a run exactly if it holds of each scan, given those
before it.
-/

/-- The records after a sequence of scans. -/
def dmaRun (cfg : DmaConfig) (scans : List DmaScan) : List KgDmaRec :=
  exec (fun recs S => (kgDmaAudit cfg S recs).2) [] scans

/-- How often a scan announces a device, after those before it. -/
def announcedIn (cfg : DmaConfig) (before : List DmaScan) (S : DmaScan) (i : DmaIdentity) : Nat :=
  (dmaAlerts (kgDmaAudit cfg S (dmaRun cfg before)).1).count i

/-- The scans in a row, up to the last, in which the device is present. -/
def stretchBefore (i : DmaIdentity) (before : List DmaScan) : List DmaScan :=
  before.reverse.takeWhile fun S => Present i S

/-- The device has been seen bus-mastering since it was last plugged in. -/
def SeenMastering (i : DmaIdentity) (before : List DmaScan) : Prop :=
  ∃ B ∈ stretchBefore i before, Mastering i B

/-- The scan is the first of the device's stay that sees it bus-mastering, and it is unauthorised. -/
def FirstSeen (cfg : DmaConfig) (before : List DmaScan) (S : DmaScan) (i : DmaIdentity) : Prop :=
  authorizedId cfg i = false ∧ Mastering i S ∧ ¬ SeenMastering i before

instance (cfg : DmaConfig) (before : List DmaScan) (S : DmaScan) (i : DmaIdentity) :
    Decidable (FirstSeen cfg before S i) :=
  inferInstanceAs (Decidable (_ ∧ Mastering i S ∧ ¬ ∃ B ∈ stretchBefore i before, Mastering i B))

theorem seenMastering_snoc {i : DmaIdentity} {before : List DmaScan} {S : DmaScan} :
    SeenMastering i (before ++ [S]) ↔ Present i S ∧ (SeenMastering i before ∨ Mastering i S) := by
  unfold SeenMastering stretchBefore
  rw [List.reverse_append, List.reverse_singleton, List.singleton_append]
  by_cases hpresent : Present i S
  · rw [List.takeWhile_cons_of_pos (by simpa using hpresent)]
    simp only [List.mem_cons, exists_eq_or_imp, hpresent, true_and]
    exact or_comm
  · rw [List.takeWhile_cons_of_neg (by simpa using hpresent)]
    simp [hpresent]

theorem Mastering.present {i : DmaIdentity} {S : DmaScan} (h : Mastering i S) : Present i S := by
  obtain ⟨p, hp, hid, -⟩ := h
  exact ⟨p, hp, hid⟩

/-- On record are the unauthorised devices that have been seen bus-mastering. -/
structure Recorded (cfg : DmaConfig) (before : List DmaScan) : Prop where
  ok : RecsOK (dmaRun cfg before)
  ids : ∀ i, i ∈ recIds (dmaRun cfg before) ↔ authorizedId cfg i = false ∧ SeenMastering i before

theorem Recorded.nil (cfg : DmaConfig) : Recorded cfg [] where
  ok := ⟨List.nodup_nil, by simp [dmaRun], Nat.zero_le _⟩
  ids := by simp [dmaRun, recIds, SeenMastering, stretchBefore]

/-- One scan whose offenders are all announced. -/
theorem Recorded.snoc {cfg : DmaConfig} {before : List DmaScan} {S : DmaScan}
    (h : Recorded cfg before)
    (hlaw : ∀ i, announcedIn cfg before S i = if FirstSeen cfg before S i then 1 else 0) :
    Recorded cfg (before ++ [S]) := by
  have hrun : dmaRun cfg (before ++ [S]) = (kgDmaAudit cfg S (dmaRun cfg before)).2 :=
    exec_snoc _ _ _ _
  obtain ⟨hok, hmem⟩ := kgDmaAudit_recs cfg S h.ok
  refine ⟨by rw [hrun]; exact hok, fun i => ?_⟩
  have halert : i ∈ dmaAlerts (kgDmaAudit cfg S (dmaRun cfg before)).1 ↔
      FirstSeen cfg before S i := by
    rw [← List.count_pos_iff]
    have hcount := hlaw i
    unfold announcedIn at hcount
    rw [hcount]
    split_ifs with hfirst <;> simp [hfirst]
  rw [hrun, hmem i, h.ids i, halert, seenMastering_snoc]
  unfold FirstSeen
  constructor
  · intro hin
    obtain ⟨⟨hauth, hseen⟩ | ⟨hauth, hmaster, -⟩, hpresent⟩ := hin
    · exact ⟨hauth, hpresent, Or.inl hseen⟩
    · exact ⟨hauth, hpresent, Or.inr hmaster⟩
  · intro hin
    obtain ⟨hauth, hpresent, hseen⟩ := hin
    by_cases hbefore : SeenMastering i before
    · exact ⟨Or.inl ⟨hauth, hbefore⟩, hpresent⟩
    · exact ⟨Or.inr ⟨hauth, hseen.resolve_left hbefore, hbefore⟩, hpresent⟩

/-- A scan follows the law exactly if it fits. -/
theorem Recorded.law_iff {cfg : DmaConfig} {before : List DmaScan} {S : DmaScan}
    (h : Recorded cfg before) :
    (∀ i, announcedIn cfg before S i = if FirstSeen cfg before S i then 1 else 0) ↔
      DmaFits cfg (dmaRun cfg before) S := by
  have hfirst : ∀ i, FirstSeen cfg before S i ↔
      i ∉ recIds (dmaRun cfg before) ∧ i ∈ offenders cfg S := by
    intro i
    rw [h.ids i, mem_offenders]
    unfold FirstSeen
    constructor
    · intro hf
      exact ⟨fun hrec => hf.2.2 hrec.2, hf.1, hf.2.1⟩
    · intro hf
      exact ⟨hf.2.1, hf.2.2, fun hseen => hf.1 ⟨hf.2.1, hseen⟩⟩
  constructor
  · intro hlaw
    refine fits_of_announced h.ok ?_
    intro i hoff hrec
    rw [← List.count_pos_iff]
    have hcount := hlaw i
    rw [if_pos ((hfirst i).mpr ⟨hrec, hoff⟩)] at hcount
    unfold announcedIn at hcount
    omega
  · intro hfits i
    unfold announcedIn
    rw [kgDmaAudit_count h.ok hfits i]
    simp only [hfirst]

/--
**Every unauthorised bus master is announced once, in the first scan of its stay that sees it
bus-mastering, and no authorised one ever** — in a run of scans this is so exactly if at every
scan the devices on record and the unauthorised bus masters of the scan are together at most
`KG_MAX_SUSPECT`.
-/
theorem bus_masters_announced_iff (cfg : DmaConfig) (scans : List DmaScan) :
    (∀ before S after, scans = before ++ S :: after → ∀ i,
      announcedIn cfg before S i = if FirstSeen cfg before S i then 1 else 0) ↔
    Along (fun recs S => (kgDmaAudit cfg S recs).2) [] scans (fun recs S => DmaFits cfg recs S) := by
  -- both sides say the same of each scan, once the scans before it are in order
  have hrec : ∀ before, ((∀ pre S post, before = pre ++ S :: post → ∀ i,
        announcedIn cfg pre S i = if FirstSeen cfg pre S i then 1 else 0) →
      Recorded cfg before) := by
    intro before
    induction before using List.reverseRecOn with
    | nil => intro _; exact Recorded.nil cfg
    | append_singleton before S ih =>
        intro hlaw
        refine (ih ?_).snoc (hlaw before S [] rfl)
        intro pre T post hsplit
        exact hlaw pre T (post ++ [S]) (by rw [hsplit]; simp)
  constructor
  · intro hlaw before S after hsplit
    have hbefore : Recorded cfg before := by
      refine hrec before ?_
      intro pre T post hpre
      exact hlaw pre T (post ++ S :: after) (by rw [hsplit, hpre]; simp)
    exact hbefore.law_iff.mp (hlaw before S after hsplit)
  · intro hfits
    induction scans using List.reverseRecOn with
    | nil =>
        intro before S after hsplit
        simp at hsplit
    | append_singleton scans T ih =>
        have hlaw := ih hfits.left
        intro before S after hsplit
        rcases split_snoc hsplit with ⟨rfl, rfl, -⟩ | ⟨post, -, hscans⟩
        · exact (hrec before hlaw).law_iff.mpr hfits.last
        · exact hlaw before S post hscans

/-! ### A device that takes the place of another -/

/-- Nothing is authorised. -/
def emptyConfig : DmaConfig := ⟨[], [], true⟩

/-- An endpoint on bus `n`, bus-mastering or not, while enforcement clears what it finds. -/
def endpointOn (mastering : Bool) (n : Nat) : KgPciEnt × AuditView :=
  (⟨⟨0, UInt8.ofNat n, 0, 0⟩, 0x8086, 0x1234, 0x01080200, if mastering then 0x6 else 0x2, 0, true⟩,
    ⟨none, true, false, false⟩)

/-- 64 unauthorised bus masters. -/
def crowdedScan : DmaScan := (List.range 64).map (endpointOn true)

/-- The first of them has left, and another one has come. -/
def replacedScan : DmaScan := (List.range 64).map fun n => endpointOn true (n + 1)

/-- A scan later, enforcement has silenced it. -/
def silencedScan : DmaScan := (List.range 64).map fun n => endpointOn false (n + 1)

/-- No scan has more than 64 devices, and the newcomer is never announced. -/
theorem replaced_device_missed :
    (∀ S ∈ [crowdedScan, replacedScan, silencedScan], S.length ≤ kgMaxSuspect) ∧
    FirstSeen emptyConfig [crowdedScan] replacedScan (endpointOn true 64).1.identity ∧
    announcedIn emptyConfig [crowdedScan] replacedScan (endpointOn true 64).1.identity = 0 ∧
    announcedIn emptyConfig [crowdedScan, replacedScan] silencedScan
      (endpointOn true 64).1.identity = 0 := by
  refine ⟨by decide, by decide +kernel, by decide +kernel, by decide +kernel⟩

end KernelGuard
