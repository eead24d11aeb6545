import Rrdtool.Daemon.Ledger
import Rrdtool.Lib.Outcome

/-!
# The order of writes

A queue thread takes the values of a file out of its cache item under `cache_lock` and calls
`rrd_update_r` later, without the lock. In the meantime the item can collect values, be queued again
and be taken by another queue thread, and which thread writes first is not determined: batches can
overtake each other (`later_batch_is_written_first`). The same happens when the item is removed
while a batch is in flight, for the new item gets the time of the file before that batch.

`InOrder` is what holds as long as neither happens (`keepsOrder`): batches are written in the order
in which their values were accepted, and no value is refused as too old.
-/

namespace Rrdtool

open FileState

/-- A queue thread takes a batch, and a client adds an item, only when no batch of the file is on its
way; the item gets a time that is not before that of the file; and values have no `@`. -/
def keepsOrder (d : Daemon) (a : Act) : Prop :=
  (∀ file ∈ d.takes a, d.settled file) ∧
    (∀ p ∈ d.adds a, d.settled p.1 ∧ ∃ rrd ∈ d.files p.1, rrd.time ≤ p.2) ∧
    ∀ p ∈ d.requested a, ∀ v ∈ p.2, '@' ∉ v

instance (d : Daemon) (a : Act) : Decidable (keepsOrder d a) :=
  inferInstanceAs (Decidable (_ ∧ _ ∧ _))

/-- The value at which the loop over the arguments ends because it is not later than the file. -/
@[grind] def tooOld (host : Host) (tmpl : List ℕ) : Rrd → List Value → Option Value
  | _, [] => none
  | rrd, v :: vs =>
    match processArg host tmpl rrd v.text with
    | (_, .error e) => if e.code = -2 then some v else none
    | (rrd, .ok _) => tooOld host tmpl rrd vs

/-- The value is refused as older than the last update of the file. -/
def Handover.refusesAsOld (h : Handover) (v : Value) : Prop :=
  ∃ rrd ∈ h.rrd, tooOld h.host rrd.defaultTemplate rrd h.values = some v

/-- The value has a stamp that the file can store. -/
@[grind] def Handover.wellFormed (h : Handover) (v : Value) : Prop :=
  ∀ rrd ∈ h.rrd, storable rrd.version v.stamp

instance (h : Handover) (v : Value) : Decidable (h.refusesAsOld v) :=
  inferInstanceAs (Decidable (∃ rrd ∈ h.rrd, _))

instance (h : Handover) (v : Value) : Decidable (h.wellFormed v) :=
  inferInstanceAs (Decidable (∀ rrd ∈ h.rrd, _))

structure FileState.InOrder (s : FileState) : Prop where
  stamped : ∀ v ∈ s.pending, Stamped v.text v.stamp ∧ 0 ≤ v.stamp
  increasing : s.pending.Pairwise (·.stamp < ·.stamp)
  later : ∀ rrd ∈ s.rrd, ∀ v ∈ s.pending, rrd.time < v.stamp
  item : ∀ p ∈ s.item, 0 ≤ p.1 ∧ (∀ v ∈ s.pending, v.stamp ≤ p.1) ∧ ∀ rrd ∈ s.rrd, rrd.time ≤ p.1
  ordered : (s.handed ++ s.pending).Pairwise (·.id < ·.id)
  current : ∀ h ∈ s.handovers, ∀ v, h.wellFormed v → ¬ h.refusesAsOld v

/-! ### One batch -/

/-- The file after a batch: as it was, or not later than some value of the batch. -/
lemma rrdUpdateR_time {host rrd vs rrd' ok} (h : Daemon.rrdUpdateR host rrd vs = (rrd', ok))
    (hvs : ∀ v ∈ vs, Stamped v.text v.stamp ∧ 0 ≤ v.stamp) :
    rrd'.time = rrd.time ∨ ∃ v ∈ vs, rrd'.time ≤ v.stamp := by
  have htexts : ∀ t ∈ vs.map (·.text), ∃ q, Stamped t q ∧ 0 ≤ q := by
    intro t ht
    obtain ⟨v, hv, rfl⟩ := List.mem_map.1 ht
    exact ⟨v.stamp, hvs v hv⟩
  have hclock := @Daemon.rrdUpdateR_clock host rrd vs
  rw [h] at hclock
  obtain ⟨-, heq | ⟨t, ht, q, hq, hle⟩⟩ := @updateArgs_time host rrd.defaultTemplate rrd _ htexts
  · exact .inl ((Rrd.time_of_clock hclock).trans heq)
  · obtain ⟨v, hv, rfl⟩ := List.mem_map.1 ht
    have hstamp : v.stamp = q := by rw [Value.stamp, hq.stamp, Option.getD_some]
    exact .inr ⟨v, hv, by rw [Rrd.time_of_clock hclock, hstamp]; exact hle⟩

/-- In a batch with increasing stamps, all later than the file, only a value that the file cannot
store is refused as too old. -/
lemma tooOld_stamp {host tmpl rrd vs} {v : Value}
    (hvs : ∀ v ∈ vs, Stamped v.text v.stamp ∧ 0 ≤ v.stamp)
    (hinc : vs.Pairwise (·.stamp < ·.stamp)) (hlater : ∀ v ∈ vs, rrd.time < v.stamp)
    (h : tooOld host tmpl rrd vs = some v) : ¬ storable rrd.version v.stamp := by
  induction vs generalizing rrd with
  | nil => cases h
  | cons w vs ih =>
    obtain ⟨hw, h0⟩ := hvs w (.head _)
    obtain ⟨hfirst, hrest⟩ := List.pairwise_cons.1 hinc
    obtain ⟨haccepted, hrefused⟩ := @processArg_stamped host tmpl rrd _ _ hw h0
    simp only [tooOld] at h
    split at h
    · rename_i e hp
      rw [hp] at hrefused
      split at h
      · rename_i hcode
        cases h
        intro hs
        rw [hrefused hs (hlater v (.head _)) e rfl] at hcode
        cases hcode
      · cases h
    · rename_i rrd₁ acc hp
      rw [hp] at haccepted
      obtain ⟨hver, hle, -⟩ := haccepted acc rfl
      rw [← hver]
      refine ih (fun x hx => hvs x (.tail _ hx)) hrest (fun x hx => ?_) h
      exact lt_of_le_of_lt hle (hfirst x hx)

/-! ### Steps -/

/-- No value is added, and the file stays as it is; an item that is there keeps its stamp. -/
structure FileState.Shrinks (s s' : FileState) : Prop where
  pending : s'.pending.Sublist s.pending
  rrd : s'.rrd = s.rrd
  handovers : s'.handovers = s.handovers
  item : ∀ p' ∈ s'.item, ∃ p ∈ s.item, p'.1 = p.1

/-- What a step does with the values that are not written yet: it takes new ones, makes an item, or writes a batch; or no
value is added. -/
lemma FileStep.pending_cases {cfg d f s a s'} (h : FileStep cfg d f s a s') :
    s.Shrinks s' ∨
    (∃ stamp values, s.item = some (stamp, s.cached) ∧ d.requested a = some (f, values) ∧
      s' = s.take f stamp s.cached values) ∨
    (∃ client now random values stamp, a = .insert client now random ∧ s.item = none ∧
      d.requests client = some (.opened f values stamp) ∧
      (s' = { s with item := some (stamp, []) } ∨ s' = s.take f stamp s.cached values)) ∨
    ∃ i host pre vs post rrd ok, a = .write i host ∧ s.batches = pre ++ ⟨f, vs, .detached⟩ :: post ∧
      (∀ r ∈ s.rrd, ∃ r', rrd = some r' ∧ Daemon.rrdUpdateR host r vs = (r', ok)) ∧
      (s.rrd = none → rrd = none ∧ ok = false) ∧
      s' = { s with
        batches := pre ++ ⟨f, vs, .updated⟩ :: post
        rrd := rrd
        handovers := s.handovers ++ [⟨f, vs, host, s.rrd, ok⟩] } := by
  cases h with
  | take item acts =>
    obtain rfl := cached_of_some item
    exact .inr (.inl ⟨_, _, item, acts, rfl⟩)
  | create item acts => exact .inr (.inr (.inl ⟨_, _, _, _, _, rfl, item, acts, .inl rfl⟩))
  | createTake item acts =>
    rw [← cached_of_none item]
    exact .inr (.inr (.inl ⟨_, _, _, _, _, rfl, item, acts, .inr rfl⟩))
  | write _ batches written missing =>
    exact .inr (.inr (.inr ⟨_, _, _, _, _, _, _, rfl, batches, written, missing, rfl⟩))
  | drop item _ _ _ =>
    refine .inl ⟨.append_left (List.nil_sublist _) _, rfl, rfl, ?_⟩
    rintro p ⟨⟩
  | forget item =>
    refine .inl ⟨.append_left (List.nil_sublist _) _, rfl, rfl, ?_⟩
    rintro p ⟨⟩
  | @detach _ _ _ vs item acts =>
    refine .inl ⟨?_, rfl, rfl, ?_⟩
    · rw [pending, pending, cached_of_some item]
      show (detachedOf (_ ++ [_]) ++ []).Sublist _
      simp [detached]
    · rintro p ⟨⟩
      exact ⟨_, item, rfl⟩
  | @wroteRecord _ pre vs post batches =>
    refine .inl ⟨?_, rfl, rfl, fun p hp => ⟨p, hp, rfl⟩⟩
    show (detachedOf (pre ++ ⟨f, vs, .journaled⟩ :: post) ++ s.cached).Sublist _
    rw [pending, detached, batches]
    simp
  | @finish _ pre vs post batches =>
    have hsub : (detachedOf (pre ++ post) ++ s.cached).Sublist s.pending := by
      rw [pending, detached, batches]
      simp
    left
    split
    · exact ⟨hsub, rfl, rfl, fun p hp => ⟨p, hp, rfl⟩⟩
    · exact ⟨hsub, rfl, rfl, fun p hp => ⟨p, hp, rfl⟩⟩
  | _ => exact .inl ⟨.refl _, rfl, rfl, fun p hp => ⟨p, hp, rfl⟩⟩

/-- Values that are later than all before and than the file are taken. -/
lemma FileState.InOrder.take {s : FileState} {f stamp values} (h : s.InOrder) (hs : s.Ledger)
    (h0 : 0 ≤ stamp) (hle : ∀ v ∈ s.pending, v.stamp ≤ stamp) (hrrd : ∀ rrd ∈ s.rrd, rrd.time ≤ stamp)
    (plain : ∀ v ∈ values, '@' ∉ v) : (s.take f stamp s.cached values).InOrder := by
  obtain ⟨hnew, hinc⟩ := Daemon.numbered_spec s.total stamp values
  obtain ⟨hlast, -⟩ := Daemon.takeValues_spec stamp values
  have hids := numbered_lt s.total (Daemon.takeValues stamp values).1
  refine ⟨?_, ?_, ?_, ?_, ?_, h.current⟩
  · rw [pending_take]
    intro v hv
    obtain hv | hv := List.mem_append.1 hv
    · exact h.stamped v hv
    · obtain ⟨hin, hstamp, hlt, -⟩ := hnew v hv
      exact ⟨⟨hstamp, plain v.text hin⟩, h0.trans hlt.le⟩
  · rw [pending_take]
    refine List.pairwise_append.2 ⟨h.increasing, hinc, fun v hv w hw => ?_⟩
    exact lt_of_le_of_lt (hle v hv) (hnew w hw).2.2.1
  · rw [pending_take]
    intro rrd hr v hv
    obtain hv | hv := List.mem_append.1 hv
    · exact h.later rrd hr v hv
    · exact lt_of_le_of_lt (hrrd rrd hr) (hnew v hv).2.2.1
  · rintro p ⟨⟩
    refine ⟨h0.trans hlast, ?_, fun rrd hr => (hrrd rrd hr).trans hlast⟩
    rw [pending_take]
    intro v hv
    obtain hv | hv := List.mem_append.1 hv
    · exact (hle v hv).trans hlast
    · exact (hnew v hv).2.2.2
  · rw [pending_take, ← List.append_assoc]
    refine List.pairwise_append.2 ⟨h.ordered, hids.1, fun v hv w hw => ?_⟩
    exact lt_of_lt_of_le (hs.bound v (hs.mem_accepted hv)) (hids.2 w hw).1

/-- Values leave the cache, or are moved in it. -/
lemma FileState.InOrder.mono {s s' : FileState} (h : s.InOrder) (hs : s.Shrinks s') : s'.InOrder := by
  obtain ⟨pending, rrd, handovers, item⟩ := hs
  refine ⟨fun v hv => h.stamped v (pending.subset hv), h.increasing.sublist pending, ?_, ?_, ?_, ?_⟩
  · rw [rrd]
    exact fun r hr v hv => h.later r hr v (pending.subset hv)
  · intro p' hp'
    obtain ⟨p, hp, heq⟩ := item p' hp'
    obtain ⟨h0, hle, hrrd⟩ := h.item p hp
    rw [heq, rrd]
    exact ⟨h0, fun v hv => hle v (pending.subset hv), hrrd⟩
  · rw [handed, handovers]
    exact h.ordered.sublist (pending.append_left _)
  · rw [handovers]
    exact h.current

/-- The batch on its way is written. -/
lemma FileState.InOrder.write {s : FileState} {f host pre vs post rrd ok} (h : s.InOrder)
    (single : s.Single) (batches : s.batches = pre ++ ⟨f, vs, .detached⟩ :: post)
    (written : ∀ r ∈ s.rrd, ∃ r', rrd = some r' ∧ Daemon.rrdUpdateR host r vs = (r', ok))
    (missing : s.rrd = none → rrd = none ∧ ok = false) :
    FileState.InOrder
      { s with
        batches := pre ++ ⟨f, vs, .updated⟩ :: post
        rrd := rrd
        handovers := s.handovers ++ [⟨f, vs, host, s.rrd, ok⟩] } := by
  obtain ⟨hpre, hpost⟩ := single.around batches
  have hpending : s.pending = vs ++ s.cached := by
    simp [pending, detached, batches, hpre, hpost]
  have hcached : detachedOf (pre ++ ⟨f, vs, .updated⟩ :: post) ++ s.cached = s.cached := by
    simp [hpre, hpost]
  obtain ⟨hstamped, hinc, hlater, hitem, hordered, hcurrent⟩ := h
  rw [hpending] at hstamped hinc hlater hitem hordered
  have hvs : ∀ v ∈ vs, Stamped v.text v.stamp ∧ 0 ≤ v.stamp := fun v hv =>
    hstamped v (List.mem_append_left _ hv)
  -- the file is not later than before, or not later than the batch
  have htime : ∀ r' ∈ rrd, (∃ r ∈ s.rrd, r'.time = r.time) ∨ ∃ v ∈ vs, r'.time ≤ v.stamp := by
    intro r' hr'
    cases hr : s.rrd with
    | none =>
      rw [(missing hr).1] at hr'
      cases hr'
    | some r =>
      obtain ⟨r'', heq, hupdate⟩ := written r hr
      cases heq.symm.trans hr'
      obtain heq | hle := rrdUpdateR_time hupdate hvs
      · exact .inl ⟨r, rfl, heq⟩
      · exact .inr hle
  refine ⟨?_, ?_, ?_, ?_, ?_, ?_⟩
  · intro v hv
    replace hv : v ∈ s.cached := hcached ▸ hv
    exact hstamped v (List.mem_append_right _ hv)
  · show (detachedOf _ ++ s.cached).Pairwise _
    rw [hcached]
    exact (List.pairwise_append.1 hinc).2.1
  · intro r' hr' v hv
    replace hv : v ∈ s.cached := hcached ▸ hv
    obtain ⟨r, hr, heq⟩ | ⟨w, hw, hle⟩ := htime r' hr'
    · rw [heq]
      exact hlater r hr v (List.mem_append_right _ hv)
    · exact lt_of_le_of_lt hle ((List.pairwise_append.1 hinc).2.2 w hw v hv)
  · intro p hp
    obtain ⟨h0, hle, hrrd⟩ := hitem p hp
    refine ⟨h0, fun v hv => ?_, fun r' hr' => ?_⟩
    · replace hv : v ∈ s.cached := hcached ▸ hv
      exact hle v (List.mem_append_right _ hv)
    · obtain ⟨r, hr, heq⟩ | ⟨w, hw, htw⟩ := htime r' hr'
      · rw [heq]
        exact hrrd r hr
      · exact htw.trans (hle w (List.mem_append_left _ hw))
  · show ((s.handovers ++ [_]).flatMap Handover.values ++ (detachedOf _ ++ s.cached)).Pairwise _
    rw [hcached]
    simpa [handed] using hordered
  · intro hand hmem v hwf
    obtain hmem | hmem := List.mem_append.1 hmem
    · exact hcurrent hand hmem v hwf
    · cases List.mem_singleton.1 hmem
      rintro ⟨r, hr, hold⟩
      refine tooOld_stamp hvs (List.pairwise_append.1 hinc).1 (fun w hw => ?_) hold (hwf r hr)
      exact hlater r hr w (List.mem_append_left _ hw)

/-- What is known of a file as long as the order is kept. -/
structure FileState.Orderly (s : FileState) : Prop where
  ledger : s.Ledger
  single : s.Single
  inOrder : s.InOrder

theorem FileStep.inOrder {cfg d f a s'} (h : FileStep cfg d f (d.fileState f) a s')
    (hok : keepsOrder d a) (hs : (d.fileState f).Orderly) : s'.InOrder := by
  obtain ⟨hledger, hsingle, hin⟩ := hs
  obtain ⟨htakes, hadds, hplain⟩ := hok
  -- an item is made while nothing is pending
  have hnew : ∀ {client now random values stamp}, (d.fileState f).item = none →
      d.requests client = some (.opened f values stamp) → a = .insert client now random →
        0 ≤ stamp ∧ (d.fileState f).pending = [] ∧
          ∀ rrd ∈ (d.fileState f).rrd, rrd.time ≤ stamp := by
    rintro client now random values stamp item hreq rfl
    obtain ⟨hsettled, rrd, hrrd, hle⟩ := hadds _ (Daemon.adds_of_item item hreq)
    refine ⟨le_trans ?_ hle, ?_, fun r hr => ?_⟩
    · unfold Rrd.time
      positivity
    · rw [pending, cached_of_none item, detached, detachedOf, hsettled.batches]
      rfl
    · cases hrrd.symm.trans hr
      exact hle
  rcases h.pending_cases with hshrinks | ⟨stamp, values, item, acts, rfl⟩ |
    ⟨client, now, random, values, stamp, ha, item, acts, hmade⟩ |
    ⟨i, host, pre, vs, post, rrd, ok, -, batches, written, missing, rfl⟩
  · exact hin.mono hshrinks
  · obtain ⟨h0, hle, hrrd⟩ := hin.item _ item
    exact hin.take hledger h0 hle hrrd (hplain _ acts)
  · obtain ⟨h0, hnil, hrrd⟩ := hnew item acts ha
    obtain rfl | rfl := hmade
    · obtain ⟨hstamped, hinc, hlater, -, hordered, hcurrent⟩ := hin
      rw [pending, cached_of_none item] at hnil hstamped hinc hlater hordered
      refine ⟨hstamped, hinc, hlater, ?_, hordered, hcurrent⟩
      rintro p ⟨⟩
      refine ⟨h0, fun v hv => ?_, hrrd⟩
      replace hv : v ∈ (d.fileState f).detached ++ [] := hv
      rw [hnil] at hv
      cases hv
    · refine hin.take hledger h0 ?_ hrrd (hplain (f, values) ?_)
      · rw [hnil]
        simp
      · rw [ha]
        simp only [Daemon.requested, acts]
        rfl
  · exact hin.write hsingle batches written missing

/-! ### Runs -/

/-- The values of the file are handed to `rrd_update_r` in the order in which they were accepted, each
once, and no well-formed one is refused as too old; all others are in a batch or in the cache, or
were forgotten. -/
structure WritesInOrder (d : Daemon) (f : Text) : Prop where
  order : (d.fileState f).handed.Sublist (d.fileState f).accepted
  current : ∀ h ∈ d.handovers, h.file = f → ∀ v, h.wellFormed v → ¬ h.refusesAsOld v
  once : ((d.fileState f).handed ++ (d.fileState f).pending ++ (d.fileState f).forgotten).Nodup
  complete : ∀ v, v ∈ (d.fileState f).accepted ↔
    v ∈ (d.fileState f).handed ∨ v ∈ (d.fileState f).pending ∨ v ∈ (d.fileState f).forgotten

instance : Std.Antisymm fun v w : Value => v.id < w.id :=
  ⟨fun _ _ h h' => absurd h (Nat.lt_asymm h')⟩

lemma FileState.Orderly.writesInOrder {d : Daemon} {f} (h : (d.fileState f).Orderly) :
    WritesInOrder d f := by
  obtain ⟨⟨hperm, hinc, -⟩, -, hin⟩ := h
  have hnodup : (d.fileState f).accepted.Nodup := hinc.imp fun h he => by
    rw [he] at h
    exact lt_irrefl _ h
  constructor
  case order =>
    refine List.sublist_of_subperm_of_pairwise ?_ (List.pairwise_append.1 hin.ordered).1 hinc
    rw [List.append_assoc] at hperm
    exact (List.sublist_append_left _ _).subperm.trans hperm.symm.subperm
  case current =>
    intro h hh hf
    refine hin.current h ?_
    exact List.mem_filter.2 ⟨hh, by simpa using hf⟩
  case once => exact hperm.nodup_iff.1 hnodup
  case complete =>
    intro v
    rw [hperm.mem_iff, List.mem_append, List.mem_append, or_assoc]

lemma init_orderly {cfg fas files} (f : Text) :
    ((Daemon.init cfg fas files).fileState f).Orderly := by
  refine ⟨Daemon.init_ledger f, Daemon.init_single f, ?_, ?_, ?_, ?_, ?_, ?_⟩
  all_goals simp [Daemon.init, Daemon.fileState, pending, detached, cached, handed]

end Rrdtool
