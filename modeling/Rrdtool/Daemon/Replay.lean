import Rrdtool.Daemon.Ledger
import Rrdtool.Lib.Outcome

/-!
# Journal replay

After a crash the daemon reads the journal again: `update` records are taken as if they were sent
again, and a `wrote` record throws away what has been read for the file. The record is written after
`rrd_update_r` has returned, without `cache_lock`: an update that is accepted between the removal of
a batch and its `wrote` record stands before that record, and replay throws it away with the batch
(`update_before_wrote_is_lost`).

`replayed` is replay for one file, as a function of the time in the file. As long as no update comes
between a batch and its record, and the file takes every batch in full (`keepsJournal`), replay finds
exactly the values that are not written (`run_replayable`).
-/

namespace Rrdtool

open FileState Daemon

/-! ### Replay for one file -/

/-- A record, for the latest stamp and the values read so far. Without an item the daemon starts with
the time in the file. -/
@[grind] def replayFile (start : ℚ) (p : ℚ × List Text) : Record → ℚ × List Text
  | .update _ _ values => ((takeValues p.1 values).2.1, p.2 ++ (takeValues p.1 values).1)
  | .wrote _ => (p.1, [])
  | .forget _ => (start, [])

/-- The latest stamp and the values after replay. -/
@[grind] def replayed (start : ℚ) (records : List Record) : ℚ × List Text :=
  records.foldl (replayFile start) (start, [])

lemma replayed_append (start : ℚ) (rs : List Record) (r : Record) :
    replayed start (rs ++ [r]) = replayFile start (replayed start rs) r := by
  simp [replayed]

/-- The file a record is about when it is read. -/
@[grind] def Record.target : Record → Option Text
  | .update file _ _ => some file
  | .wrote file => some file
  | .forget file => (bufferGetField file).map (·.1)

/-- The item of a file as replay sees it. -/
@[grind] def itemView (start : ℚ) (item : Option (ℚ × List Value)) : ℚ × List Text :=
  match item with
  | none => (start, [])
  | some (q, vs) => (q, vs.map (·.text))

section

variable {cfg : Config} {now : ℤ} {random : ℕ} {d : Daemon} {f : Text} {rrd : Rrd}

lemma takeUpdate_files {g ci values} : (d.takeUpdate cfg g ci values now).1.files = d.files := by
  simp only [takeUpdate]
  split
  · rfl
  · show Daemon.files (if _ then _ else _) = _
    split
    · unfold enqueueTail
      split <;> rfl
    · rfl

lemma replayRecord_files (r : Record) : (replayRecord cfg now random d r).files = d.files := by
  cases r with
  | update file base values =>
    simp only [replayRecord]
    split
    · exact takeUpdate_files
    · split
      · rfl
      · split
        · rfl
        · split
          · rfl
          · exact takeUpdate_files
  | wrote file =>
    simp only [replayRecord]
    split <;> rfl
  | forget file =>
    simp only [replayRecord]
    split
    · rfl
    · split <;> rfl

lemma itemView_takeUpdate {g ci values start} (hci : (d.fileState g).item = some (ci.lastUpdateStamp, ci.values)) :
    itemView start ((d.takeUpdate cfg g ci values now).1.fileState f).item =
      if g = f then replayFile start (itemView start (d.fileState f).item) (.update g 0 values)
      else itemView start (d.fileState f).item := by
  rw [fileState_takeUpdate]
  split
  · rename_i hg
    subst hg
    simp [itemView, hci, replayFile, numbered_text]
  · rfl

/-- One record, for a file that is there. -/
lemma itemView_replayRecord (hrrd : d.files f = some rrd) (h1 : 1 ≤ rrd.lastUp) (r : Record) :
    itemView rrd.lastUp ((replayRecord cfg now random d r).fileState f).item =
      if r.target = some f then replayFile rrd.lastUp (itemView rrd.lastUp (d.fileState f).item) r
      else itemView rrd.lastUp (d.fileState f).item := by
  cases r with
  | update file base values =>
    simp only [replayRecord, Record.target, Option.some.injEq]
    split
    · rename_i ci hci
      exact itemView_takeUpdate (item_of_tree hci)
    · rename_i hnone
      by_cases hf : file = f
      · subst hf
        have hadd := @fileState_addItem cfg d file file (rrd.lastUp : ℚ) now random
        rw [if_pos rfl] at hadd
        simp only [hrrd, if_neg (not_lt.2 h1), if_true]
        split
        · rename_i htree
          simp [addItem] at htree
        · rename_i ci htree
          rw [itemView_takeUpdate (item_of_tree htree), if_pos rfl, hadd]
          simp [itemView, fileState, hnone, replayFile]
      · rw [if_neg hf]
        split
        · rfl
        · rename_i rrd' _
          split
          · rfl
          · have hadd := @fileState_addItem cfg d f file (rrd'.lastUp : ℚ) now random
            rw [if_neg hf] at hadd
            split
            · rw [hadd]
            · rename_i ci htree
              rw [itemView_takeUpdate (item_of_tree htree), if_neg hf, hadd]
  | wrote file =>
    simp only [replayRecord, Record.target, Option.some.injEq]
    split
    · rename_i hnone
      split
      · rename_i hf
        subst hf
        simp [itemView, fileState, hnone, replayFile]
      · rfl
    · rename_i ci hci
      have hset := @fileState_setItem d f file (wipeCiValues cfg ci now random)
      show itemView _ ((d.setItem file (wipeCiValues cfg ci now random)).fileState f).item = _
      rw [hset]
      split
      · rename_i hf
        subst hf
        simp [itemView, item_of_tree hci, replayFile, wipeCiValues]
      · rfl
  | forget file =>
    simp only [replayRecord, Record.target]
    split
    · rename_i hfield
      simp [hfield]
    · rename_i hfield
      simp only [hfield, Option.map_some, Option.some.injEq]
      split
      · rename_i hnone
        split
        · rename_i hf
          subst hf
          simp [itemView, fileState, hnone, replayFile]
        · rfl
      · rw [fileState_removeItem]
        split
        · rfl
        · rfl

/-- The whole journal. -/
lemma itemView_replay (hrrd : d.files f = some rrd) (h1 : 1 ≤ rrd.lastUp) (rs : List Record) :
    itemView rrd.lastUp ((rs.foldl (replayRecord cfg now random) d).fileState f).item =
      (rs.filter (·.target = some f)).foldl (replayFile rrd.lastUp)
        (itemView rrd.lastUp (d.fileState f).item) := by
  induction rs generalizing d with
  | nil => rfl
  | cons r rs ih =>
    rw [List.foldl_cons, ih (by rw [replayRecord_files]; exact hrrd), itemView_replayRecord hrrd h1,
      List.filter_cons]
    split
    · rename_i ht
      rw [if_pos (by simpa using ht), List.foldl_cons]
    · rename_i ht
      rw [if_neg (by simpa using ht)]

end

/-! ### Taking values again -/

/-- A request that is read again with a later stamp is taken as before, or not at all. -/
lemma takeValues_raise {last start : ℚ} (h : last ≤ start) (values : List Text) :
    ((takeValues last values).1 = [] → (takeValues last values).2.1 = last ∧
      (takeValues start values).1 = [] ∧ (takeValues start values).2.1 = start) ∧
    ∀ v vs, (takeValues last values).1 = v :: vs →
      ((stampOf v).getD 0 ≤ start →
        (takeValues start values).1 = [] ∧ (takeValues start values).2.1 = start) ∧
      (start < (stampOf v).getD 0 → takeValues start values = takeValues last values) := by
  cases values with
  | nil => simp [takeValues]
  | cons value values =>
    simp only [takeValues]
    split
    · simp
    · rename_i q hq
      by_cases hlast : q ≤ last
      · simp [hlast, hlast.trans h]
      · simp only [if_neg hlast]
        refine ⟨fun hnil => absurd hnil (List.cons_ne_nil _ _), fun v vs hv => ?_⟩
        cases hv
        rw [hq, Option.getD_some]
        refine ⟨fun hle => ?_, fun hlt => ?_⟩
        · rw [if_pos hle]
          exact ⟨rfl, rfl⟩
        · rw [if_neg (not_le.2 hlt)]

/-! ### The state of a file -/

/-- The values of the batches without a `wrote` record. -/
@[grind] def unrecordedOf (batches : List Batch) : List Value :=
  (batches.filter (·.phase ≠ .journaled)).flatMap (·.values)

section

variable {f : Text} {vs : List Value} {bs bs' : List Batch}

@[simp] lemma unrecordedOf_append :
    unrecordedOf (bs ++ bs') = unrecordedOf bs ++ unrecordedOf bs' := by
  simp [unrecordedOf]

@[simp] lemma unrecordedOf_detached :
    unrecordedOf (⟨f, vs, .detached⟩ :: bs) = vs ++ unrecordedOf bs := by
  simp [unrecordedOf]

@[simp] lemma unrecordedOf_updated :
    unrecordedOf (⟨f, vs, .updated⟩ :: bs) = vs ++ unrecordedOf bs := by
  simp [unrecordedOf]

@[simp] lemma unrecordedOf_journaled :
    unrecordedOf (⟨f, vs, .journaled⟩ :: bs) = unrecordedOf bs := by
  simp [unrecordedOf]

@[simp] lemma unrecordedOf_nil : unrecordedOf [] = [] := rfl

end

namespace FileState

@[grind] def records (s : FileState) : List Record := s.doomed ++ s.old ++ s.cur

/-- The values that the journal holds for the file: those of its batch without a record, and those in
the cache. -/
@[grind] def journaled (s : FileState) : List Value := unrecordedOf s.batches ++ s.cached

end FileState

/-- The time is before all the values, or before none of them. -/
def Cuts (start : ℚ) (vs : List Value) : Prop :=
  (∀ v ∈ vs, v.stamp ≤ start) ∨ ∀ v ∈ vs, start < v.stamp

/-- A whole second that fits `time_t`. -/
def wholeSecond (q : ℚ) : Prop := q < 2 ^ 63 ∧ (⌊q⌋ : ℚ) = q

instance decidableWholeSecond (q : ℚ) : Decidable (wholeSecond q) := inferInstanceAs (Decidable (_ ∧ _))

/-- What replay of the records finds, whatever the time in the file will be. -/
structure FileState.Replays (s : FileState) (rrd : Rrd) (last : ℚ) : Prop where
  item : ∀ p ∈ s.item, p.1 = last ∧ (rrd.lastUp : ℚ) ≤ last
  le_last : ∀ v ∈ s.journaled, v.stamp ≤ last
  last_le : last ≤ rrd.lastUp ∨ ∃ v ∈ s.pending, last ≤ v.stamp
  replay : ∀ start : ℚ, rrd.lastUp ≤ start → Cuts start s.journaled → replayed start s.records =
    (max start last, (s.journaled.filter (start < ·.stamp)).map (·.text))

structure FileState.Replayable (s : FileState) : Prop where
  journal : s.journalFh = true
  fits : ∀ r ∈ s.records, r.line.length < rrdCmdMax
  there : s.records ≠ [] ∨ s.item ≠ none ∨ s.batches ≠ [] → ∃ rrd ∈ s.rrd, 1 ≤ rrd.lastUp
  usec : ∀ rrd ∈ s.rrd, rrd.lastUpUsec < 10 ^ 6
  single : (s.batches.filter (·.phase ≠ .journaled)).length ≤ 1
  quiet : s.batches.filter (·.phase ≠ .journaled) ≠ [] → s.cached = []
  stamped : ∀ v ∈ s.journaled, Stamped v.text v.stamp ∧ 0 ≤ v.stamp ∧ wholeSecond v.stamp
  later : ∀ rrd ∈ s.rrd, ∀ v ∈ s.pending, (rrd.lastUp : ℚ) < v.stamp
  written : ∀ rrd ∈ s.rrd, ∀ b ∈ s.batches, b.phase = .updated → ∀ v ∈ b.values,
    v.stamp ≤ rrd.lastUp
  replays : ∀ rrd ∈ s.rrd, ∃ last, s.Replays rrd last

/-! ### Lists of batches -/

lemma detachedOf_filter (bs : List Batch) :
    detachedOf (bs.filter (·.phase ≠ .journaled)) = detachedOf bs := by
  unfold detachedOf
  rw [List.filter_filter]
  congr 1
  refine List.filter_congr fun b _ => ?_
  cases b.phase <;> rfl

lemma unrecordedOf_eq_nil {bs : List Batch} (h : bs.filter (·.phase ≠ .journaled) = []) :
    unrecordedOf bs = [] ∧ detachedOf bs = [] := by
  constructor
  · rw [unrecordedOf, h, List.flatMap_nil]
  · rw [← detachedOf_filter, h, detachedOf_nil]

/-- Around the only batch without a record. -/
lemma filter_around {pre post : List Batch} {b : Batch} (hb : b.phase ≠ .journaled)
    (h : ((pre ++ b :: post).filter (·.phase ≠ .journaled)).length ≤ 1) :
    pre.filter (·.phase ≠ .journaled) = [] ∧ post.filter (·.phase ≠ .journaled) = [] := by
  rw [List.filter_append, List.filter_cons, if_pos (by simpa using hb), List.length_append,
    List.length_cons] at h
  exact ⟨List.length_eq_zero_iff.1 (by omega), List.length_eq_zero_iff.1 (by omega)⟩

/-! ### Steps -/

section

variable {s : FileState} {f : Text}

/-- A step that leaves the values and the records alone. -/
lemma FileState.Replayable.mono {s' : FileState} (h : s.Replayable) (journal : s'.journalFh = true)
    (records : s'.records = s.records) (rrd : s'.rrd = s.rrd) (cached : s'.cached = s.cached)
    (item : ∀ p ∈ s'.item, ∃ q ∈ s.item, q.1 = p.1) (batches : s'.batches ⊆ s.batches)
    (same : s'.batches.filter (·.phase ≠ .journaled) = s.batches.filter (·.phase ≠ .journaled)) :
    s'.Replayable := by
  have hjournaled : s'.journaled = s.journaled := by
    rw [FileState.journaled, FileState.journaled, cached, unrecordedOf, unrecordedOf, same]
  have hpending : s'.pending = s.pending := by
    rw [pending, pending, cached, detached, detached, ← detachedOf_filter, same, detachedOf_filter]
  refine ⟨journal, by rw [records]; exact h.fits, ?_, by rw [rrd]; exact h.usec,
    by rw [same]; exact h.single, by rw [same, cached]; exact h.quiet,
    by rw [hjournaled]; exact h.stamped, by rw [rrd, hpending]; exact h.later, ?_, ?_⟩
  · rw [records, rrd]
    rintro (hr | hi | hb)
    · exact h.there (.inl hr)
    · refine h.there (.inr (.inl fun hnone => hi ?_))
      refine Option.eq_none_iff_forall_not_mem.2 fun p hp => ?_
      obtain ⟨q, hq, -⟩ := item p hp
      rw [hnone] at hq
      cases hq
    · exact h.there (.inr (.inr fun hnil => hb (List.subset_nil.1 (hnil ▸ batches))))
  · rw [rrd]
    exact fun r hr b hb => h.written r hr b (batches hb)
  · rw [rrd]
    intro r hr
    obtain ⟨last, hi, hle, hlast, hreplay⟩ := h.replays r hr
    refine ⟨last, fun p hp => ?_, by rw [hjournaled]; exact hle, by rw [hpending]; exact hlast, ?_⟩
    · obtain ⟨q, hq, heq⟩ := item p hp
      rw [← heq]
      exact hi q hq
    · rw [records, hjournaled]
      exact hreplay

/-- A new item, with the time of the file, while nothing is pending. -/
lemma FileState.Replayable.create {stamp : ℚ} (h : s.Replayable) (item : s.item = none)
    (recorded : s.batches.filter (·.phase ≠ .journaled) = [])
    (time : ∃ rrd ∈ s.rrd, 1 ≤ rrd.lastUp ∧ stamp = rrd.lastUp) :
    FileState.Replayable { s with item := some (stamp, []) } := by
  obtain ⟨rrd, hrrd, h1, rfl⟩ := time
  obtain ⟨hun, hdet⟩ := unrecordedOf_eq_nil recorded
  have hpending : s.pending = [] := by
    rw [pending, cached_of_none item, detached, hdet]
    rfl
  have hjournaled : s.journaled = [] := by
    rw [FileState.journaled, cached_of_none item, hun]
    rfl
  have hj' : FileState.journaled { s with item := some ((rrd.lastUp : ℚ), []) } = [] := by
    show unrecordedOf s.batches ++ [] = []
    rw [hun]
    rfl
  have hp' : FileState.pending { s with item := some ((rrd.lastUp : ℚ), []) } = [] := by
    show detachedOf s.batches ++ [] = []
    rw [hdet]
    rfl
  refine ⟨h.journal, h.fits, fun _ => ⟨rrd, hrrd, h1⟩, h.usec, h.single, fun _ => rfl,
    by rw [hj']; simp, by rw [hp']; simp, h.written, ?_⟩
  intro r hr
  cases hrrd.symm.trans hr
  obtain ⟨last, -, -, hlast, hreplay⟩ := h.replays rrd hrrd
  rw [hpending] at hlast
  have hle : last ≤ rrd.lastUp := by simpa using hlast
  refine ⟨rrd.lastUp, ?_, by rw [hj']; simp, .inl (le_refl _), fun start hstart _ => ?_⟩
  · rintro p ⟨⟩
    exact ⟨rfl, le_refl _⟩
  · have hold := hreplay start hstart (by rw [hjournaled]; exact .inl (by simp))
    rw [hjournaled, max_eq_left (hle.trans hstart)] at hold
    rw [hj', max_eq_left hstart]
    exact hold

end

/-- The last stamp is that of a value that was taken, if there is one. -/
lemma takeValues_last (stamp : ℚ) (values : List Text) :
    ((takeValues stamp values).1 = [] ∧ (takeValues stamp values).2.1 = stamp) ∨
      ∃ v ∈ (takeValues stamp values).1, (stampOf v).getD 0 = (takeValues stamp values).2.1 := by
  induction values generalizing stamp with
  | nil => exact .inl ⟨rfl, rfl⟩
  | cons value values ih =>
    simp only [takeValues]
    split
    · exact .inl ⟨rfl, rfl⟩
    · rename_i q hq
      split
      · exact .inl ⟨rfl, rfl⟩
      · right
        rcases ih q with ⟨-, hlast⟩ | ⟨v, hv, heq⟩
        · exact ⟨value, .head _, by rw [hq, hlast, Option.getD_some]⟩
        · exact ⟨v, .tail _ hv, heq⟩

lemma numbered_last (base : ℕ) (stamp : ℚ) (values : List Text) :
    (numbered base (takeValues stamp values).1 = [] ∧ (takeValues stamp values).2.1 = stamp) ∨
      ∃ v ∈ numbered base (takeValues stamp values).1, v.stamp = (takeValues stamp values).2.1 := by
  rcases takeValues_last stamp values with ⟨hnil, hlast⟩ | ⟨t, ht, heq⟩
  · exact .inl ⟨by rw [hnil]; rfl, hlast⟩
  · rw [← numbered_text base (takeValues stamp values).1] at ht
    obtain ⟨v, hv, rfl⟩ := List.mem_map.1 ht
    exact .inr ⟨v, hv, heq⟩

/-- The record of a request is read again: all its values are found, or none is left to be found. -/
lemma replay_update {f base start last values V} {vs : List Value}
    (hcut : Cuts start (vs ++ numbered base (takeValues last values).1)) :
    replayFile start (max start last, V) (.update f base values) =
      (max start (takeValues last values).2.1,
        V ++ ((numbered base (takeValues last values).1).filter (start < ·.stamp)).map (·.text)) := by
  obtain ⟨hnone, hsome⟩ := takeValues_raise (le_max_right start last) values
  obtain ⟨hnew, -⟩ := numbered_spec base last values
  have htext := numbered_text base (takeValues last values).1
  simp only [replayFile]
  rcases numbered_last base last values with ⟨hnil, hlast⟩ | ⟨w, hw, hwlast⟩
  · -- nothing was taken, and nothing is taken now
    have htaken : (takeValues last values).1 = [] := by
      rw [← htext, hnil]
      rfl
    obtain ⟨-, h₁, h₂⟩ := hnone htaken
    rw [h₁, h₂, hnil, hlast]
    rfl
  · cases hfirst : numbered base (takeValues last values).1 with
    | nil =>
      rw [hfirst] at hw
      cases hw
    | cons v rest =>
      have htaken : (takeValues last values).1 = v.text :: rest.map (·.text) := by
        rw [← htext, hfirst]
        rfl
      obtain ⟨hearly, hlate⟩ := hsome _ _ htaken
      have hv : v ∈ numbered base (takeValues last values).1 := by
        rw [hfirst]
        exact .head _
      rw [← hfirst]
      rcases hcut with hle | hlt
      · -- the file holds all of it
        have hvle : v.stamp ≤ start := hle v (List.mem_append_right _ hv)
        obtain ⟨h₁, h₂⟩ := hearly (hvle.trans (le_max_left _ _))
        have hlast : last ≤ start := (hnew v hv).2.2.1.le.trans hvle
        have hwle : w.stamp ≤ start := hle w (List.mem_append_right _ hw)
        have hnil : (numbered base (takeValues last values).1).filter (start < ·.stamp) = [] :=
          List.filter_eq_nil_iff.2 fun u hu => by
            simpa using hle u (List.mem_append_right _ hu)
        rw [h₁, h₂, hnil, ← hwlast, max_eq_left hlast, max_eq_left hwle]
        rfl
      · -- the file holds nothing of it
        have hall : (numbered base (takeValues last values).1).filter (start < ·.stamp) =
            numbered base (takeValues last values).1 :=
          List.filter_eq_self.2 fun u hu => by simpa using hlt u (List.mem_append_right _ hu)
        have hsame := hlate (max_lt (hlt v (List.mem_append_right _ hv)) (hnew v hv).2.2.1)
        rw [hsame, hall, htext, ← hwlast, max_eq_right (hlt w (List.mem_append_right _ hw)).le]

lemma Cuts.left {start : ℚ} {vs ws : List Value} (h : Cuts start (vs ++ ws)) : Cuts start vs := by
  rcases h with h | h
  · exact .inl fun v hv => h v (List.mem_append_left _ hv)
  · exact .inr fun v hv => h v (List.mem_append_left _ hv)

section

variable {s : FileState} {f : Text}

/-- Values are taken while every batch has its record. -/
lemma FileState.Replayable.take {stamp : ℚ} {vs : List Value} {values : List Text}
    (h : s.Replayable) (item : s.item = some (stamp, vs))
    (recorded : s.batches.filter (·.phase ≠ .journaled) = [])
    (plain : ∀ v ∈ values, '@' ∉ v ∧ ∀ q ∈ stampOf v, wholeSecond q)
    (fits : (Record.update f s.total values).line.length < rrdCmdMax) :
    (s.take f stamp vs values).Replayable := by
  obtain ⟨hun, hdet⟩ := unrecordedOf_eq_nil recorded
  have hcached := cached_of_some item
  obtain ⟨rrd, hrrd, h1⟩ := h.there (.inr (.inl (by rw [item]; simp)))
  obtain ⟨last, hitem, hle, hlast, hreplay⟩ := h.replays rrd hrrd
  obtain ⟨rfl, hup⟩ := hitem _ item
  obtain ⟨hnew, -⟩ := numbered_spec s.total stamp values
  have hj : s.journaled = vs := by rw [FileState.journaled, hun, hcached, List.nil_append]
  have hp : s.pending = vs := by rw [pending, detached, hdet, hcached, List.nil_append]
  have hj' : (s.take f stamp vs values).journaled =
      vs ++ numbered s.total (takeValues stamp values).1 := by
    show unrecordedOf s.batches ++ _ = _
    rw [hun]
    rfl
  have hp' : (s.take f stamp vs values).pending =
      vs ++ numbered s.total (takeValues stamp values).1 := by
    show detachedOf s.batches ++ _ = _
    rw [hdet]
    rfl
  have hrecords : (s.take f stamp vs values).records = s.records ++ [.update f s.total values] := by
    show s.doomed ++ s.old ++ (if s.journalFh = true then s.cur ++ [_] else s.cur) = _
    rw [if_pos h.journal, ← List.append_assoc]
    rfl
  have hlastle : stamp ≤ (takeValues stamp values).2.1 := (takeValues_spec stamp values).1
  have h0 : (0 : ℚ) ≤ stamp := le_trans (Nat.cast_nonneg _) hup
  rw [hj] at hle hreplay
  rw [hp] at hlast
  refine ⟨h.journal, ?_, fun _ => ⟨rrd, hrrd, h1⟩, h.usec, h.single, fun hne => absurd recorded hne,
    ?_, ?_, h.written, ?_⟩
  · rw [hrecords]
    intro r hr
    rcases List.mem_append.1 hr with hr | hr
    · exact h.fits r hr
    · rw [List.mem_singleton.1 hr]
      exact fits
  · rw [hj']
    intro v hv
    rcases List.mem_append.1 hv with hv | hv
    · exact h.stamped v (by rw [hj]; exact hv)
    · obtain ⟨hin, hstamp, hlt, -⟩ := hnew v hv
      exact ⟨⟨hstamp, (plain v.text hin).1⟩, h0.trans hlt.le, (plain v.text hin).2 _ hstamp⟩
  · rw [hp']
    intro r hr v hv
    cases hrrd.symm.trans hr
    rcases List.mem_append.1 hv with hv | hv
    · exact h.later rrd hrrd v (by rw [hp]; exact hv)
    · exact lt_of_le_of_lt hup (hnew v hv).2.2.1
  · intro r hr
    cases hrrd.symm.trans hr
    refine ⟨(takeValues stamp values).2.1, ?_, ?_, ?_, ?_⟩
    · rintro p ⟨⟩
      exact ⟨rfl, hup.trans hlastle⟩
    · rw [hj']
      intro v hv
      rcases List.mem_append.1 hv with hv | hv
      · exact (hle v hv).trans hlastle
      · exact (hnew v hv).2.2.2
    · rw [hp']
      rcases numbered_last s.total stamp values with ⟨-, heq⟩ | ⟨w, hw, heq⟩
      · rw [heq]
        refine hlast.imp_right ?_
        rintro ⟨v, hv, hvle⟩
        exact ⟨v, List.mem_append_left _ hv, hvle⟩
      · exact .inr ⟨w, List.mem_append_right _ hw, heq.symm.le⟩
    · rw [hj', hrecords]
      intro start hstart hcut
      rw [replayed_append, hreplay start hstart hcut.left, replay_update hcut, List.filter_append,
        List.map_append]

end

lemma wholeSecond.storable {version : ℕ} {q : ℚ} (h : wholeSecond q) : storable version q := by
  refine ⟨h.1, ?_⟩
  obtain ⟨n, hn⟩ : ∃ n : ℤ, (n : ℚ) = q := ⟨⌊q⌋, h.2⟩
  rw [← hn]
  split
  · simp
  · have : ((n : ℚ) * 10 ^ 6) = ((n * 10 ^ 6 : ℤ) : ℚ) := by push_cast; ring
    rw [this, Int.floor_intCast]

/-- A whole second that is not after the time of a file is not after its second. -/
lemma wholeSecond.le_lastUp {q : ℚ} {rrd : Rrd} (h : wholeSecond q) (hu : rrd.lastUpUsec < 10 ^ 6)
    (hle : q ≤ rrd.time) : q ≤ rrd.lastUp := by
  have hlt : rrd.time < rrd.lastUp + 1 := by
    have : (rrd.lastUpUsec : ℚ) / 10 ^ 6 < 1 := by
      rw [div_lt_one (by norm_num)]
      exact_mod_cast hu
    unfold Rrd.time
    linarith
  have hq := h.2
  have : ((⌊q⌋ : ℤ) : ℚ) < ((rrd.lastUp + 1 : ℤ) : ℚ) := by
    rw [hq]
    push_cast
    exact lt_of_le_of_lt hle hlt
  have hint : ⌊q⌋ < rrd.lastUp + 1 := by exact_mod_cast this
  rw [← hq]
  exact_mod_cast Int.lt_add_one_iff.1 hint

lemma Rrd.lastUp_le_time (rrd : Rrd) : (rrd.lastUp : ℚ) ≤ rrd.time := by
  unfold Rrd.time
  have : (0 : ℚ) ≤ (rrd.lastUpUsec : ℚ) / 10 ^ 6 := by positivity
  linarith

/-- The second of the file after a batch of whole seconds that was written in full. -/
lemma rrdUpdateR_lastUp {host : Host} {rrd rrd' : Rrd} {vs : List Value}
    (hvs : ∀ v ∈ vs, Stamped v.text v.stamp ∧ 0 ≤ v.stamp ∧ wholeSecond v.stamp)
    (hu : rrd.lastUpUsec < 10 ^ 6) (h : rrdUpdateR host rrd vs = (rrd', true)) :
    rrd'.lastUpUsec < 10 ^ 6 ∧ rrd.lastUp ≤ rrd'.lastUp ∧ (∀ v ∈ vs, v.stamp ≤ rrd'.lastUp) ∧
      (rrd'.lastUp ≤ rrd.lastUp ∨ ∃ v ∈ vs, (rrd'.lastUp : ℚ) ≤ v.stamp) := by
  have htexts : ∀ t ∈ vs.map (·.text), ∃ q, Stamped t q ∧ 0 ≤ q := by
    intro t ht
    obtain ⟨v, hv, rfl⟩ := List.mem_map.1 ht
    exact ⟨v.stamp, (hvs v hv).1, (hvs v hv).2.1⟩
  obtain ⟨rrd₁, accs, hargs, hclock⟩ := rrdUpdateR_ok h
  obtain ⟨hmono, hu₁, hall⟩ := updateArgs_ok_time htexts hu hargs
  obtain ⟨-, htime⟩ := @updateArgs_time host rrd.defaultTemplate rrd _ htexts
  rw [hargs] at htime
  have hu' : rrd'.lastUpUsec < 10 ^ 6 := by
    have : rrd'.lastUpUsec = rrd₁.lastUpUsec := congrArg (·.2.2) hclock
    rw [this]
    exact hu₁
  have heq := Rrd.time_of_clock hclock
  have hsec : ∀ {r r' : Rrd}, r'.lastUpUsec < 10 ^ 6 → r.time ≤ r'.time → r.lastUp ≤ r'.lastUp := by
    intro r r' hr hle
    have hlt : (r.lastUp : ℚ) < r'.lastUp + 1 := by
      have : (r'.lastUpUsec : ℚ) / 10 ^ 6 < 1 := by
        rw [div_lt_one (by norm_num)]
        exact_mod_cast hr
      have hr' : r'.time = r'.lastUp + (r'.lastUpUsec : ℚ) / 10 ^ 6 := rfl
      have := r.lastUp_le_time
      linarith
    have : r.lastUp < r'.lastUp + 1 := by exact_mod_cast hlt
    omega
  refine ⟨hu', hsec hu' (heq ▸ hmono), fun v hv => ?_, ?_⟩
  · refine (hvs v hv).2.2.le_lastUp hu' ?_
    rw [heq]
    exact hall v.text (List.mem_map.2 ⟨v, hv, rfl⟩) v.stamp (hvs v hv).1 (hvs v hv).2.2.storable
  · rcases htime with hsame | ⟨t, ht, q, hq, hle⟩
    · exact .inl (hsec hu (by rw [heq, hsame]))
    · obtain ⟨v, hv, rfl⟩ := List.mem_map.1 ht
      have hstamp : v.stamp = q := by rw [Value.stamp, hq.stamp, Option.getD_some]
      refine .inr ⟨v, hv, ?_⟩
      rw [hstamp]
      exact rrd'.lastUp_le_time.trans (heq ▸ hle)

section

variable {s : FileState} {f : Text}

/-- The values are taken out of the item while every batch has its record. -/
lemma FileState.Replayable.detach {stamp : ℚ} {vs : List Value} (h : s.Replayable)
    (item : s.item = some (stamp, vs)) (recorded : s.batches.filter (·.phase ≠ .journaled) = []) :
    FileState.Replayable
      { s with item := some (stamp, []), batches := s.batches ++ [⟨f, vs, .detached⟩] } := by
  obtain ⟨hun, hdet⟩ := unrecordedOf_eq_nil recorded
  have hj : FileState.journaled
      { s with item := some (stamp, []), batches := s.batches ++ [⟨f, vs, .detached⟩] } =
        s.journaled := by
    show unrecordedOf (s.batches ++ [⟨f, vs, .detached⟩]) ++ [] = _
    simp [FileState.journaled, cached_of_some item]
  have hp : FileState.pending
      { s with item := some (stamp, []), batches := s.batches ++ [⟨f, vs, .detached⟩] } =
        s.pending := by
    show detachedOf (s.batches ++ [⟨f, vs, .detached⟩]) ++ [] = _
    simp [pending, detached, cached_of_some item]
  refine ⟨h.journal, h.fits, fun _ => h.there (.inr (.inl (by rw [item]; simp))), h.usec, ?_,
    fun _ => rfl, by rw [hj]; exact h.stamped, by rw [hp]; exact h.later, ?_, ?_⟩
  · show ((_ ++ [_] : List Batch).filter _).length ≤ 1
    rw [List.filter_append, recorded]
    simp
  · intro rrd hrrd b hb hphase
    rcases List.mem_append.1 hb with hb | hb
    · exact h.written rrd hrrd b hb hphase
    · rw [List.mem_singleton.1 hb] at hphase
      cases hphase
  · intro rrd hrrd
    obtain ⟨last, hitem, hle, hlast, hreplay⟩ := h.replays rrd hrrd
    refine ⟨last, ?_, by rw [hj]; exact hle, by rw [hp]; exact hlast, by rw [hj]; exact hreplay⟩
    rintro p ⟨⟩
    obtain ⟨heq, hup⟩ := hitem _ item
    exact ⟨heq, hup⟩

/-- The batch is written in full. -/
lemma FileState.Replayable.write {host pre vs post rrd ok handovers} (h : s.Replayable)
    (batches : s.batches = pre ++ ⟨f, vs, .detached⟩ :: post)
    (written : ∀ r ∈ s.rrd, ∃ r', rrd = some r' ∧ rrdUpdateR host r vs = (r', ok))
    (full : ∀ r ∈ s.rrd, (rrdUpdateR host r vs).2 = true) :
    FileState.Replayable
      { s with batches := pre ++ ⟨f, vs, .updated⟩ :: post, rrd := rrd, handovers := handovers } := by
  have hsingle := h.single
  rw [batches] at hsingle
  obtain ⟨hpre, hpost⟩ := filter_around (by simp) hsingle
  obtain ⟨hpreun, hpredet⟩ := unrecordedOf_eq_nil hpre
  obtain ⟨hpostun, hpostdet⟩ := unrecordedOf_eq_nil hpost
  have hcached : s.cached = [] := by
    refine h.quiet ?_
    rw [batches, List.filter_append, List.filter_cons, if_pos (by simp)]
    simp
  have hj : s.journaled = vs := by simp [FileState.journaled, batches, hpreun, hpostun, hcached]
  have hp : s.pending = vs := by simp [pending, detached, batches, hpredet, hpostdet, hcached]
  have hj' : unrecordedOf (pre ++ ⟨f, vs, .updated⟩ :: post) ++ s.cached = vs := by
    simp [hpreun, hpostun, hcached]
  have hp' : detachedOf (pre ++ ⟨f, vs, .updated⟩ :: post) ++ s.cached = [] := by
    simp [hpredet, hpostdet, hcached]
  obtain ⟨r, hr, h1⟩ := h.there (.inr (.inr (by rw [batches]; simp)))
  obtain ⟨r', rfl, hupdate⟩ := written r hr
  have hok : ok = true := by
    have := full r hr
    rw [hupdate] at this
    exact this
  rw [hok] at hupdate
  have hstamped := h.stamped
  rw [hj] at hstamped
  obtain ⟨hu', hmono, hall, hback⟩ := rrdUpdateR_lastUp hstamped (h.usec r hr) hupdate
  have hmonoq : (r.lastUp : ℚ) ≤ r'.lastUp := by exact_mod_cast hmono
  refine ⟨h.journal, h.fits, fun _ => ⟨r', rfl, h1.trans hmono⟩, ?_, ?_, fun _ => hcached, ?_, ?_, ?_, ?_⟩
  · rintro x ⟨⟩
    exact hu'
  · show ((pre ++ ⟨f, vs, .updated⟩ :: post).filter _).length ≤ 1
    rw [List.filter_append, List.filter_cons, hpre, hpost]
    simp
  · intro v hv
    replace hv : v ∈ vs := hj' ▸ hv
    exact hstamped v hv
  · intro x _ v hv
    replace hv : v ∈ ([] : List Value) := hp' ▸ hv
    cases hv
  · rintro x ⟨⟩ b hb hphase v hv
    rcases List.mem_append.1 hb with hb | hb
    · exact (h.written r hr b (by rw [batches]; exact List.mem_append_left _ hb) hphase v hv).trans hmonoq
    · rcases List.mem_cons.1 hb with rfl | hb
      · exact hall v hv
      · refine (h.written r hr b ?_ hphase v hv).trans hmonoq
        rw [batches]
        exact List.mem_append_right _ (.tail _ hb)
  · rintro x ⟨⟩
    obtain ⟨last, hitem, hle, hlast, hreplay⟩ := h.replays r hr
    rw [hj] at hle hreplay
    rw [hp] at hlast
    have hlast' : last ≤ r'.lastUp := by
      rcases hlast with hlast | ⟨v, hv, hlv⟩
      · exact hlast.trans hmonoq
      · exact hlv.trans (hall v hv)
    refine ⟨last, fun p hp => ⟨(hitem p hp).1, ?_⟩, ?_, .inl hlast', fun start hstart hcut => ?_⟩
    · rcases hback with hback | ⟨v, hv, hvle⟩
      · have : (r'.lastUp : ℚ) ≤ r.lastUp := by exact_mod_cast hback
        exact this.trans (hitem p hp).2
      · exact hvle.trans (hle v hv)
    · intro v hv
      replace hv : v ∈ vs := hj' ▸ hv
      exact hle v hv
    · have hjv : FileState.journaled { s with
          batches := pre ++ ⟨f, vs, .updated⟩ :: post, rrd := some r', handovers := handovers } = vs :=
        hj'
      rw [hjv] at hcut ⊢
      exact hreplay start (hmonoq.trans hstart) hcut

/-- The record of the batch is written. -/
lemma FileState.Replayable.wroteRecord {pre vs post} (h : s.Replayable)
    (batches : s.batches = pre ++ ⟨f, vs, .updated⟩ :: post)
    (fits : (Record.wrote f).line.length < rrdCmdMax) :
    FileState.Replayable
      { s.record (.wrote f) with batches := pre ++ ⟨f, vs, .journaled⟩ :: post } := by
  have hsingle := h.single
  rw [batches] at hsingle
  obtain ⟨hpre, hpost⟩ := filter_around (by simp) hsingle
  obtain ⟨hpreun, hpredet⟩ := unrecordedOf_eq_nil hpre
  obtain ⟨hpostun, hpostdet⟩ := unrecordedOf_eq_nil hpost
  have hcached : s.cached = [] := by
    refine h.quiet ?_
    rw [batches, List.filter_append, List.filter_cons, if_pos (by simp)]
    simp
  have hj : s.journaled = vs := by simp [FileState.journaled, batches, hpreun, hpostun, hcached]
  have hp : s.pending = [] := by simp [pending, detached, batches, hpredet, hpostdet, hcached]
  have hj' : unrecordedOf (pre ++ ⟨f, vs, .journaled⟩ :: post) ++ s.cached = [] := by
    simp [hpreun, hpostun, hcached]
  have hp' : detachedOf (pre ++ ⟨f, vs, .journaled⟩ :: post) ++ s.cached = [] := by
    simp [hpredet, hpostdet, hcached]
  have hrecords : (s.record (.wrote f)).records = s.records ++ [.wrote f] := by
    show s.doomed ++ s.old ++ (if s.journalFh = true then s.cur ++ [_] else s.cur) = _
    rw [if_pos h.journal, ← List.append_assoc]
    rfl
  obtain ⟨r, hr, h1⟩ := h.there (.inr (.inr (by rw [batches]; simp)))
  refine ⟨h.journal, ?_, fun _ => ⟨r, hr, h1⟩, h.usec, ?_, fun _ => hcached, ?_, ?_, ?_, ?_⟩
  · intro x hx
    replace hx : x ∈ s.records ++ [.wrote f] := hrecords ▸ hx
    rcases List.mem_append.1 hx with hx | hx
    · exact h.fits x hx
    · rw [List.mem_singleton.1 hx]
      exact fits
  · show ((pre ++ ⟨f, vs, .journaled⟩ :: post).filter _).length ≤ 1
    rw [List.filter_append, List.filter_cons, hpre, hpost]
    simp
  · intro v hv
    replace hv : v ∈ ([] : List Value) := hj' ▸ hv
    cases hv
  · intro x _ v hv
    replace hv : v ∈ ([] : List Value) := hp' ▸ hv
    cases hv
  · intro x hx b hb hphase
    refine h.written x hx b ?_ hphase
    rw [batches]
    rcases List.mem_append.1 hb with hb | hb
    · exact List.mem_append_left _ hb
    · rcases List.mem_cons.1 hb with rfl | hb
      · cases hphase
      · exact List.mem_append_right _ (.tail _ hb)
  · intro x hx
    obtain ⟨last, hitem, -, hlast, hreplay⟩ := h.replays x hx
    rw [hp] at hlast
    have hjv : FileState.journaled
        { s.record (.wrote f) with batches := pre ++ ⟨f, vs, .journaled⟩ :: post } = [] := hj'
    refine ⟨last, hitem, ?_, ?_, fun start hstart _ => ?_⟩
    · rw [hjv]
      simp
    · exact hlast.imp_right (by simp)
    · -- the file is as late as the whole batch, so replay has found none of it
      have hcut : Cuts start s.journaled := by
        rw [hj]
        have hmem : (⟨f, vs, .updated⟩ : Batch) ∈ s.batches := by
          rw [batches]
          exact List.mem_append_right _ (.head _)
        exact .inl fun v hv => (h.written x hx _ hmem rfl v hv).trans hstart
      have hold := hreplay start hstart hcut
      show replayed start (s.record (.wrote f)).records = _
      rw [hrecords, replayed_append, hold, hjv]
      rfl

end

/-! ### Runs -/

/-- Every batch of the file has its `wrote` record. -/
def Daemon.recorded (d : Daemon) (f : Text) : Prop :=
  ∀ b ∈ d.active, b.file = f → b.phase = .journaled

instance (d : Daemon) (f : Text) : Decidable (d.recorded f) :=
  inferInstanceAs (Decidable (∀ b ∈ d.active, _))

/-- The request that is journalled in this step. -/
@[grind] def Daemon.journals (d : Daemon) (a : Act) : Option (Text × List Text) :=
  (d.requested a).filter fun p => d.tree p.1 ≠ none ∨ d.adds a ≠ none

/-- The file whose `forget` record is written in this step. -/
@[grind] def Daemon.recordsForget (d : Daemon) : Act → Option Text
  | .forgetRecord client =>
    match d.requests client with
    | some (.forgot file) => some file
    | _ => none
  | _ => none

/-- An update of the file is journalled, and a batch of it is taken, only when every batch before has
its record; its values are whole seconds without `@`; a new item gets the time of the file; every
batch is written in full; the file is not forgotten, and no other name reads like it in a `forget`
record; journal files can be opened, lines fit, and no record is removed. -/
def keepsJournal (f : Text) (d : Daemon) (a : Act) : Prop :=
  (∀ file ∈ d.takes a, file = f → d.recorded f) ∧
    (∀ p ∈ d.journals a, p.1 = f → d.recorded f ∧
      (∀ v ∈ p.2, '@' ∉ v ∧ ∀ q ∈ stampOf v, wholeSecond q) ∧
      (Record.update f 0 p.2).line.length < rrdCmdMax) ∧
    (∀ p ∈ d.adds a, p.1 = f → d.recorded f ∧ ∃ rrd ∈ d.files f, 1 ≤ rrd.lastUp ∧ p.2 = rrd.lastUp) ∧
    (∀ file ∈ d.recordsForget a, file ≠ f ∧ (Record.forget file).target ≠ some f) ∧
    match a with
    | .write i host => ∀ b ∈ d.active[i]?, b.file = f →
      ∀ rrd ∈ d.files f, (rrdUpdateR host rrd b.values).2 = true
    | .wroteRecord _ => (Record.wrote f).line.length < rrdCmdMax
    | .forget _ file => file ≠ f
    | .rotate ok => ok = true ∧ ∀ r ∈ d.doomed, r.file ≠ f
    | .removeOld => ∀ r ∈ d.doomed, r.file ≠ f
    | .newJournalFile ok => ok = true
    | _ => True

instance (f : Text) (d : Daemon) (a : Act) : Decidable (keepsJournal f d a) := by
  unfold keepsJournal
  match a with
  | .update .. | .openFile .. | .insert .. | .flush .. | .flushReturn .. | .spuriousWakeup .. | .flushAll .. | .forget ..
  | .forgetRecord .. | .suspend .. | .resume .. | .suspendAll .. | .resumeAll .. | .tick .. | .rotate .. | .removeOld
  | .newJournalFile .. | .signal | .flushExit .. | .dequeue .. | .write .. | .wroteRecord .. | .finish .. => infer_instance

lemma Daemon.recorded.batches {d : Daemon} {f} (h : d.recorded f) :
    (d.fileState f).batches.filter (·.phase ≠ .journaled) = [] := by
  refine List.filter_eq_nil_iff.2 fun b hb => ?_
  obtain ⟨hb, hf⟩ := List.mem_filter.1 hb
  simpa using h b hb (of_decide_eq_true hf)

theorem FileStep.replayable {cfg d f a s'} (h : FileStep cfg d f (d.fileState f) a s')
    (hok : keepsJournal f d a) (hs : (d.fileState f).Replayable) : s'.Replayable := by
  obtain ⟨htakes, hjournals, hadds, hforget, hact⟩ := hok
  have hsame : ∀ p ∈ (d.fileState f).item, ∃ q ∈ (d.fileState f).item, q.1 = p.1 :=
    fun p hp => ⟨p, hp, rfl⟩
  cases h with
  | other _ => exact hs.mono hs.journal rfl rfl rfl hsame (List.Subset.refl _) rfl
  | @take _ _ _ values item acts =>
    have htree : d.tree f ≠ none := by
      intro hnone
      simp [fileState, hnone] at item
    have hj : d.journals a = some (f, values) := by
      rw [journals, acts]
      simp [htree]
    obtain ⟨hrec, hplain, hfits⟩ := hjournals _ hj rfl
    exact hs.take item hrec.batches hplain hfits
  | @createTake client now random values stamp item acts =>
    have hadd := @adds_of_item _ _ _ now random _ _ item acts
    have hj : d.journals (.insert client now random) = some (f, values) := by
      rw [journals, hadd]
      simp [requested, acts]
    obtain ⟨hrec, hplain, hfits⟩ := hjournals _ hj rfl
    obtain ⟨-, htime⟩ := hadds _ hadd rfl
    exact (hs.create item hrec.batches htime).take (s := { d.fileState f with item := some (stamp, []) })
      rfl hrec.batches hplain hfits
  | create item acts =>
    obtain ⟨hrec, htime⟩ := hadds _ (adds_of_item item acts) rfl
    exact hs.create item hrec.batches htime
  | drop item _ _ _ =>
    exact hs.mono hs.journal rfl rfl (cached_of_some item).symm nofun (List.Subset.refl _) rfl
  | forget item => exact absurd rfl hact
  | @forgetRecord client acts =>
    have hf : d.recordsForget (.forgetRecord client) = some f := by simp only [recordsForget, acts]
    exact absurd rfl (hforget f hf).1
  | detach item acts => exact hs.detach item (htakes f acts rfl).batches
  | write acts batches written _ => exact hs.write batches written (hact _ acts rfl)
  | wroteRecord batches => exact hs.wroteRecord batches hact
  | @finish _ pre vs post batches =>
    have hsub : pre ++ post ⊆ (d.fileState f).batches := by
      rw [batches]
      intro b hb
      rcases List.mem_append.1 hb with hb | hb
      · exact List.mem_append_left _ hb
      · exact List.mem_append_right _ (.tail _ hb)
    have hfilter : (pre ++ post).filter (·.phase ≠ .journaled) =
        (d.fileState f).batches.filter (·.phase ≠ .journaled) := by
      rw [batches]
      simp
    split
    · exact hs.mono hs.journal rfl rfl rfl hsame hsub hfilter
    · exact hs.mono hs.journal rfl rfl rfl hsame hsub hfilter
  | rotate =>
    have hdoomed : (d.fileState f).doomed = [] :=
      List.filter_eq_nil_iff.2 fun r hr => by simpa using hact.2 r hr
    refine hs.mono hact.1 ?_ rfl rfl hsame (List.Subset.refl _) rfl
    show (d.fileState f).old ++ (d.fileState f).cur ++ [] = _
    rw [records, hdoomed, List.append_nil, List.nil_append]
  | removeOld =>
    have hdoomed : (d.fileState f).doomed = [] :=
      List.filter_eq_nil_iff.2 fun r hr => by simpa using hact r hr
    refine hs.mono hs.journal ?_ rfl rfl hsame (List.Subset.refl _) rfl
    show [] ++ (d.fileState f).old ++ (d.fileState f).cur = _
    rw [records, hdoomed]
  | newJournalFile => exact hs.mono hact rfl rfl rfl hsame (List.Subset.refl _) rfl
  | _ => exact hs.mono hs.journal rfl rfl rfl hsame (List.Subset.refl _) rfl

/-- A `forget` record is that of a request. -/
lemma FileStep.forget_mem {cfg d g s a s'} (h : FileStep cfg d g s a s')
    (hmem : .forget g ∈ s'.records) : .forget g ∈ s.records ∨ d.recordsForget a = some g := by
  have hrecord : ∀ {r : Record}, r ≠ .forget g → .forget g ∈ (s.record r).records →
      .forget g ∈ s.records := by
    intro r hr hm
    simp only [records, record] at hm ⊢
    split at hm
    · simp only [List.mem_append, List.mem_singleton] at hm ⊢
      rcases hm with hm | hm | hm
      · exact .inl hm
      · exact .inr hm
      · exact absurd hm.symm hr
    · exact hm
  cases h with
  | @take _ _ _ values _ _ => exact .inl (hrecord (r := .update g s.total values) nofun hmem)
  | @createTake _ _ _ values _ _ _ => exact .inl (hrecord (r := .update g s.total values) nofun hmem)
  | forgetRecord acts => exact .inr (by simp only [recordsForget, acts])
  | wroteRecord _ => exact .inl (hrecord (r := .wrote g) nofun hmem)
  | finish _ =>
    split at hmem
    · exact .inl hmem
    · exact .inl hmem
  | rotate =>
    simp only [records, List.append_nil, List.mem_append] at hmem ⊢
    exact .inl (hmem.elim (fun h => .inl (.inr h)) .inr)
  | removeOld =>
    simp only [records, List.nil_append, List.mem_append] at hmem ⊢
    exact .inl (hmem.elim (fun h => .inl (.inr h)) .inr)
  | _ => exact .inl hmem

lemma Daemon.records_fileState (d : Daemon) (f : Text) :
    (d.fileState f).records = d.journal.filter (·.file = f) := by
  simp [records, fileState, journal]

/-- What is known as long as `keepsJournal` holds. -/
structure Daemon.Replayable (d : Daemon) (f : Text) : Prop where
  ledger : (d.fileState f).Ledger
  file : (d.fileState f).Replayable
  forgets : ∀ g, .forget g ∈ d.journal → g ≠ f ∧ (Record.forget g).target ≠ some f

lemma Daemon.Replayable.step {cfg d a d' f} (h : d.Replayable f) (hok : keepsJournal f d a)
    (hstep : d.step cfg a = some d') : d'.Replayable f := by
  have hf := step_fileStep hstep f
  refine ⟨hf.ledger h.ledger, hf.replayable hok h.file, fun g hg => ?_⟩
  have hmem : .forget g ∈ (d'.fileState g).records := by
    rw [records_fileState]
    exact List.mem_filter.2 ⟨hg, by simp [Record.file]⟩
  rcases (step_fileStep hstep g).forget_mem hmem with hold | hnew
  · rw [records_fileState] at hold
    exact h.forgets g (List.mem_filter.1 hold).1
  · exact hok.2.2.2.1 g hnew

/-- At the time of the file, replay finds what is not written. -/
lemma FileState.Replayable.found {s : FileState} (h : s.Replayable) {rrd : Rrd} (hrrd : rrd ∈ s.rrd) :
    Cuts rrd.lastUp s.journaled ∧
      s.journaled.filter ((rrd.lastUp : ℚ) < ·.stamp) = s.pending := by
  cases hbs : s.batches.filter (·.phase ≠ .journaled) with
  | nil =>
    obtain ⟨hun, hdet⟩ := unrecordedOf_eq_nil hbs
    have heq : s.journaled = s.pending := by
      rw [FileState.journaled, pending, detached, hun, hdet]
    rw [heq]
    exact ⟨.inr (h.later rrd hrrd), List.filter_eq_self.2 fun v hv => by
      simpa using h.later rrd hrrd v hv⟩
  | cons b bs =>
    have hnil : bs = [] := by
      have hsingle := h.single
      rw [hbs] at hsingle
      exact List.length_eq_zero_iff.1 (Nat.le_zero.1 (Nat.le_of_succ_le_succ hsingle))
    have hcached := h.quiet (by rw [hbs]; simp)
    have hj : s.journaled = b.values := by
      rw [FileState.journaled, hcached, unrecordedOf, hbs, hnil]
      simp
    have hp : s.pending = detachedOf [b] := by
      rw [pending, hcached, detached, ← detachedOf_filter, hbs, hnil, List.append_nil]
    obtain ⟨hb, hphase⟩ := List.mem_filter.1 (hbs ▸ List.mem_cons_self : b ∈ s.batches.filter _)
    obtain ⟨file, vs, phase⟩ := b
    rw [hj, hp]
    cases phase with
    | detached =>
      have hall : ∀ v ∈ vs, (rrd.lastUp : ℚ) < v.stamp := by
        intro v hv
        refine h.later rrd hrrd v ?_
        rw [hp]
        simpa using hv
      refine ⟨.inr hall, ?_⟩
      simpa using fun v hv => hall v hv
    | updated =>
      have hall := h.written rrd hrrd _ hb rfl
      refine ⟨.inl hall, ?_⟩
      simpa using fun v hv => hall v hv
    | journaled => simp at hphase

/-- After a crash, every accepted value that was neither handed to `rrd_update_r` nor forgotten is in
the cache of the daemon that replays the journal. -/
def NothingLost (d : Daemon) (f : Text) : Prop :=
  ∀ cfg now random flushAtShutdown, ∀ v ∈ (d.fileState f).accepted, v ∉ (d.fileState f).handed →
    v ∉ (d.fileState f).forgotten →
      v.text ∈ ((journalReplay cfg now random flushAtShutdown d.files d.journal).fileState f).cached.map
        (·.text)

lemma Daemon.Replayable.nothingLost {d : Daemon} {f : Text} (h : d.Replayable f) : NothingLost d f := by
  obtain ⟨hledger, hfile, hforgets⟩ := h
  intro cfg now random flushAtShutdown v hv hnot hkept
  have hpending : v ∈ (d.fileState f).pending := by
    have hmem := hledger.perm.mem_iff.1 hv
    rw [List.mem_append, List.mem_append] at hmem
    tauto
  have hthere : ∃ rrd ∈ (d.fileState f).rrd, 1 ≤ rrd.lastUp := by
    refine hfile.there (.inr ?_)
    by_contra hnone
    obtain ⟨hitem, hbatches⟩ := not_or.1 hnone
    rw [pending, cached_of_none (not_not.1 hitem), detached, not_not.1 hbatches] at hpending
    cases hpending
  obtain ⟨rrd, hrrd, h1⟩ := hthere
  obtain ⟨last, -, -, -, hreplay⟩ := hfile.replays rrd hrrd
  obtain ⟨hcut, hfound⟩ := hfile.found hrrd
  -- the records that are read for the file are those that were written for it
  have hrecords : (d.journal.filter fun r => r.line.length < rrdCmdMax).filter (·.target = some f) =
      (d.fileState f).records := by
    rw [records_fileState, List.filter_filter]
    refine List.filter_congr fun r hr => ?_
    have hfits : r.file = f → r.line.length < rrdCmdMax := fun hf => by
      refine hfile.fits r ?_
      rw [records_fileState]
      exact List.mem_filter.2 ⟨hr, by simpa using hf⟩
    have htarget : r.target = some f ↔ r.file = f := by
      cases r with
      | update file base values => simp [Record.target, Record.file]
      | wrote file => simp [Record.target, Record.file]
      | forget file => exact iff_of_false (hforgets file hr).2 (hforgets file hr).1
    by_cases hf : r.file = f
    · simp [hf, htarget.2 hf, hfits hf]
    · simp [hf, mt htarget.1 hf]
  have hview : itemView rrd.lastUp
      ((journalReplay cfg now random flushAtShutdown d.files d.journal).fileState f).item =
        replayed rrd.lastUp (d.fileState f).records := by
    rw [journalReplay, itemView_replay (d := Daemon.init cfg flushAtShutdown d.files) hrrd h1, hrecords]
    rfl
  rw [hreplay rrd.lastUp (le_refl _) hcut, hfound] at hview
  have hcached : ((journalReplay cfg now random flushAtShutdown d.files d.journal).fileState
      f).cached.map (·.text) = (d.fileState f).pending.map (·.text) := by
    rw [cached]
    split
    · rename_i hitem
      rw [hitem] at hview
      exact congrArg Prod.snd hview
    · rename_i q vs hitem
      rw [hitem] at hview
      exact congrArg Prod.snd hview
  rw [hcached]
  exact List.mem_map.2 ⟨v, hpending, rfl⟩

lemma init_replayable {cfg : Config} {fas files f} (hdir : cfg.journalDir = true)
    (husec : ∀ rrd ∈ files f, rrd.lastUpUsec < 10 ^ 6) :
    (Daemon.init cfg fas files).Replayable f := by
  refine ⟨Daemon.init_ledger f, ⟨hdir, ?_, ?_, husec, ?_, ?_, ?_, ?_, ?_, ?_⟩, ?_⟩
  case refine_8 =>
    intro rrd hrrd
    refine ⟨rrd.lastUp, ?_, ?_, .inl (le_refl _), fun start hstart _ => ?_⟩
    · simp [Daemon.init, Daemon.fileState]
    · simp [Daemon.init, Daemon.fileState, FileState.journaled, cached]
    · rw [max_eq_left hstart]
      rfl
  all_goals
    simp [Daemon.init, Daemon.fileState, FileState.journaled, FileState.records, pending, detached,
      cached, Daemon.journal]

/-- In every run that keeps the journal of a file in step, a crash at any time loses nothing of it. -/
theorem run_nothingLost {cfg : Config} {fas files d acts f} (hdir : cfg.journalDir = true)
    (husec : ∀ rrd ∈ files f, rrd.lastUpUsec < 10 ^ 6)
    (hrun : (Daemon.init cfg fas files).run cfg acts = some d)
    (hok : Run.Always (Daemon.step cfg) (keepsJournal f) (Daemon.init cfg fas files) acts) :
    NothingLost d f := by
  have hinv : d.Replayable f := Run.run_inv_of (fun d => d.Replayable f)
    (fun d a d' hd ha hstep => hd.step ha hstep) hrun hok (init_replayable hdir husec)
  exact hinv.nothingLost

/-- A crash after a batch is written and before its record, with a value left by a second request. -/
theorem run_nothingLost_after_write :
    ∃ d, (Daemon.init .twoThreads false gaugeFiles).run .twoThreads
        (firstUpdate 1 ['a'] ["1010:1".toList] ++
          [.flush 2 ['a'], .dequeue 0 0, .write 0 .idle, .wroteRecord 0,
            .update 3 ['a'] ["1020:2".toList, "1030:3".toList] 0, .finish 0, .flush 4 ['a'],
            .dequeue 0 0]) = some d ∧
      NothingLost d ['a'] := by
  refine Outcome.exists_of_isSome (by decide +kernel) fun d hd => ?_
  refine run_nothingLost rfl ?_ hd (by decide +kernel)
  rintro rrd ⟨⟩
  decide

/-- A value that is accepted while a batch is on its way stands before the `wrote` record of the batch,
and replay throws it away. -/
theorem update_before_wrote_is_lost :
    ∃ d, (Daemon.init .twoThreads false gaugeFiles).run .twoThreads
        (firstUpdate 1 ['a'] ["1010:1".toList] ++
          [.flush 2 ['a'], .dequeue 0 0, .update 3 ['a'] ["1020:2".toList] 0, .write 0 .idle,
            .wroteRecord 0]) = some d ∧
      (d.fileState ['a']).cached = [⟨1, "1020:2".toList⟩] ∧
      ((journalReplay .twoThreads 0 0 false d.files d.journal).fileState ['a']).cached = [] ∧
      ¬ NothingLost d ['a'] := by
  refine Outcome.exists_of_any_imp (fun d => (d.fileState ['a']).cached = [⟨1, "1020:2".toList⟩] ∧
    ((journalReplay .twoThreads 0 0 false d.files d.journal).fileState ['a']).cached = [] ∧
    ⟨1, "1020:2".toList⟩ ∈ (d.fileState ['a']).accepted ∧ ⟨1, "1020:2".toList⟩ ∉ (d.fileState ['a']).handed ∧
    ⟨1, "1020:2".toList⟩ ∉ (d.fileState ['a']).forgotten) (by decide +kernel) ?_
  rintro d - ⟨hcached, hreplay, haccepted, hhanded, hforgotten⟩
  refine ⟨hcached, hreplay, fun h => ?_⟩
  have hmem := h .twoThreads 0 0 false ⟨1, "1020:2".toList⟩ haccepted hhanded hforgotten
  rw [hreplay] at hmem
  cases hmem

end Rrdtool
