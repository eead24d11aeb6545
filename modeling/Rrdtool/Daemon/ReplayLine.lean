import Rrdtool.Daemon.Replay

/-!
# One line of the journal

A line of the journal that the crash has left half written to the file is read again with the values that are already
there. The loop of `handle_request_update` ends at the first value that is not later than the last one, for a client as in
replay, and with it end the values behind it, which are not in the file. `replayRecord_caches_iff` says for which files a
line is read as it should be.
-/

namespace Rrdtool

open FileState Daemon

/-- The texts of the values in the cache item of a file. -/
def cachedTexts (d : Daemon) (file : Text) : List Text :=
  match d.tree file with
  | none => []
  | some ci => ci.values.map (·.text)

/-- The stamp of the value is later than the time in the file. -/
def isLater (lastUp : ℕ) (value : Text) : Bool := (stampOf value).any fun t => (lastUp : ℚ) < t

/-- The stamp with which the loop over the values begins: that of the cache item, or the time in the file when it is
valid. -/
def startStamp (d : Daemon) (file : Text) (lastUp : ℕ) : Option ℚ :=
  match d.tree file with
  | none => if lastUp < 1 then none else some lastUp
  | some ci => some ci.lastUpdateStamp

/-- The loop begins with a stamp before `t`. -/
@[grind] def StartsBefore (d : Daemon) (file : Text) (lastUp : ℕ) (t : ℚ) : Prop := ∃ stamp ∈ startStamp d file lastUp, stamp < t

instance (d : Daemon) (file : Text) (lastUp : ℕ) (t : ℚ) : Decidable (StartsBefore d file lastUp t) :=
  inferInstanceAs (Decidable (∃ stamp ∈ startStamp d file lastUp, stamp < t))

section Line

variable {cfg : Config} {now : ℤ} {random base : ℕ} {d : Daemon} {file : Text} {rrd : Rrd} {values : List Text}
  {ts : List ℚ} {stamp t : ℚ}

/-- With increasing stamps it is the first one that decides. -/
lemma takeValues_increasing (hts : values.map stampOf = ts.map some) (hinc : ts.Pairwise (· < ·))
    (hfirst : ∀ t ∈ ts.head?, stamp < t) : (takeValues stamp values).1 = values := by
  induction ts generalizing stamp values with
  | nil =>
    obtain rfl : values = [] := by simpa using hts
    rfl
  | cons t ts ih =>
    obtain ⟨v, vs, rfl⟩ : ∃ v vs, values = v :: vs := by
      cases values with
      | nil => cases hts
      | cons v vs => exact ⟨v, vs, rfl⟩
    rw [List.map_cons, List.map_cons] at hts
    obtain ⟨hv, hvs⟩ := List.cons.inj hts
    obtain ⟨hlater, hrest⟩ := List.pairwise_cons.1 hinc
    have hlt : stamp < t := hfirst t rfl
    have htail := ih hvs hrest fun t' ht' => hlater t' (List.mem_of_head? ht')
    simp only [takeValues, hv, if_neg hlt.not_ge, htail]

/-- All of the values are taken, or none. -/
lemma takeValues_all_or_none (hts : values.map stampOf = ts.map some) (hinc : ts.Pairwise (· < ·)) (ht : t ∈ ts.head?) :
    (takeValues stamp values).1 = if stamp < t then values else [] := by
  obtain ⟨ts', rfl⟩ := List.head?_eq_some_iff.1 ht
  split
  · rename_i hlt
    apply takeValues_increasing hts hinc
    rintro t' ⟨⟩
    exact hlt
  · rename_i hge
    obtain ⟨v, vs, rfl⟩ : ∃ v vs, values = v :: vs := by
      cases values with
      | nil => cases hts
      | cons v vs => exact ⟨v, vs, rfl⟩
    obtain ⟨hv, -⟩ := List.cons.inj hts
    simp only [takeValues, hv, if_pos (not_lt.1 hge)]

lemma cachedTexts_eq (d : Daemon) (file : Text) (start : ℚ) :
    cachedTexts d file = (itemView start (d.fileState file).item).2 := by
  unfold cachedTexts itemView fileState
  cases d.tree file with
  | none => rfl
  | some ci => rfl

/-- What the line adds to the cache item. -/
lemma cachedTexts_replayRecord (hrrd : d.files file = some rrd) :
    cachedTexts (replayRecord cfg now random d (.update file base values)) file =
      cachedTexts d file ++ ((startStamp d file rrd.lastUp).map fun stamp => (takeValues stamp values).1).getD [] := by
  unfold startStamp
  cases htree : d.tree file with
  | some ci =>
    have hrun : replayRecord cfg now random d (.update file base values) = (d.takeUpdate cfg file ci values now).1 := by
      simp only [replayRecord, htree]
    rw [hrun, cachedTexts_eq _ _ 0, itemView_takeUpdate (item_of_tree htree), if_pos rfl, cachedTexts_eq d file 0,
      item_of_tree htree]
    rfl
  | none =>
    dsimp only
    split
    · rename_i hlow
      have hrun : replayRecord cfg now random d (.update file base values) = d := by
        simp only [replayRecord, htree, hrrd, if_pos hlow]
      rw [hrun]
      exact (List.append_nil _).symm
    · rename_i hvalid
      have hview := @itemView_replayRecord cfg now random d file rrd hrrd (not_lt.1 hvalid) (.update file base values)
      have hitem : (d.fileState file).item = none := by
        unfold fileState
        rw [htree]
        rfl
      rw [Record.target, if_pos rfl] at hview
      rw [cachedTexts_eq _ _ rrd.lastUp, hview, cachedTexts_eq d file rrd.lastUp, hitem]
      rfl

/-- All of the values are taken, or none. -/
lemma taken_eq {lastUp : ℕ} (hts : values.map stampOf = ts.map some) (hinc : ts.Pairwise (· < ·)) (ht : t ∈ ts.head?) :
    ((startStamp d file lastUp).map fun stamp => (takeValues stamp values).1).getD [] =
      if StartsBefore d file lastUp t then values else [] := by
  cases hstart : startStamp d file lastUp with
  | none => simp [StartsBefore, hstart]
  | some stamp => simp [StartsBefore, hstart, takeValues_all_or_none hts hinc ht]

lemma forall_isLater_iff {lastUp : ℕ} (hts : values.map stampOf = ts.map some) :
    ((∀ v ∈ values, isLater lastUp v) ↔ ∀ t ∈ ts, lastUp < t) ∧
      (values.filter (isLater lastUp) = [] ↔ ∀ t ∈ ts, t ≤ lastUp) := by
  induction values generalizing ts with
  | nil =>
    obtain rfl : ts = [] := by simpa using hts.symm
    simp
  | cons v values ih =>
    obtain ⟨t, ts, rfl⟩ : ∃ t ts', ts = t :: ts' := by
      cases ts with
      | nil => cases hts
      | cons t ts => exact ⟨t, ts, rfl⟩
    obtain ⟨hv, hvs⟩ := List.cons.inj hts
    obtain ⟨hall, hnone⟩ := ih hvs
    have hlater : isLater lastUp v = decide ((lastUp : ℚ) < t) := by rw [isLater, hv]; rfl
    constructor
    · rw [List.forall_mem_cons, List.forall_mem_cons, hall, hlater, decide_eq_true_iff]
    · rw [List.forall_mem_cons, ← hnone, List.filter_cons, hlater]
      by_cases h : (lastUp : ℚ) < t
      · simp [h]
      · simp [h, not_lt.1 h]

/-- All of the values are later, if the first one is. -/
lemma filter_isLater_eq_self_iff {lastUp : ℕ} (hts : values.map stampOf = ts.map some) (hinc : ts.Pairwise (· < ·))
    (ht : t ∈ ts.head?) : values.filter (isLater lastUp) = values ↔ lastUp < t := by
  obtain ⟨ts', rfl⟩ := List.head?_eq_some_iff.1 ht
  obtain ⟨hlater, -⟩ := List.pairwise_cons.1 hinc
  have hall := @forall_isLater_iff values (t :: ts') lastUp hts
  rw [List.filter_eq_self, hall.1]
  constructor
  · intro h
    exact h t (.head _)
  · intro h t' ht'
    rcases List.mem_cons.1 ht' with rfl | ht'
    · exact h
    · exact h.trans (hlater t' ht')

end Line

/-- A line is read as it should be exactly if the loop begins before its first value and all of the values are later
than the time in the file, or the loop does not begin before its first value and none is later. -/
theorem replayRecord_caches_iff (cfg : Config) (now : ℤ) (random base : ℕ) (d : Daemon) (file : Text) (rrd : Rrd)
    (values : List Text) (ts : List ℚ) (hrrd : d.files file = some rrd) (hts : values.map stampOf = ts.map some)
    (hinc : ts.Pairwise (· < ·)) :
    cachedTexts (replayRecord cfg now random d (.update file base values)) file =
        cachedTexts d file ++ values.filter (isLater rrd.lastUp) ↔
      ∀ t₁ ∈ ts.head?, (StartsBefore d file rrd.lastUp t₁ ∧ rrd.lastUp < t₁) ∨
        (¬ StartsBefore d file rrd.lastUp t₁ ∧ ∀ t ∈ ts, t ≤ rrd.lastUp) := by
  rw [cachedTexts_replayRecord hrrd, List.append_right_inj]
  cases ts with
  | nil =>
    obtain rfl : values = [] := by simpa using hts
    cases startStamp d file rrd.lastUp with
    | none => simp
    | some stamp => simp [takeValues]
  | cons t ts =>
    have hall := @filter_isLater_eq_self_iff values (t :: ts) t rrd.lastUp hts hinc rfl
    have hnone := (@forall_isLater_iff values (t :: ts) rrd.lastUp hts).2
    rw [@taken_eq d file values (t :: ts) t rrd.lastUp hts hinc rfl]
    simp only [List.head?_cons, Option.mem_def, Option.some.injEq, forall_eq']
    by_cases hstarts : StartsBefore d file rrd.lastUp t
    · rw [if_pos hstarts, eq_comm, hall]
      simp [hstarts]
    · rw [if_neg hstarts, eq_comm, hnone]
      simp [hstarts]

example : ["1010:1".toList, "1000:2".toList].filter (isLater 1000) = ["1010:1".toList] := by decide +kernel

/-- A line of which nothing has been written. -/
theorem replayRecord_caches_iff_unwritten :
    cachedTexts (replayRecord .twoThreads 0 0 (.init .twoThreads false gaugeFiles)
        (.update ['a'] 0 ["1010:1".toList, "1020:2".toList])) ['a'] =
        cachedTexts (.init .twoThreads false gaugeFiles) ['a'] ++
          ["1010:1".toList, "1020:2".toList].filter (isLater 1000) ↔
      ∀ t₁ ∈ [(1010 : ℚ), 1020].head?, (StartsBefore (.init .twoThreads false gaugeFiles) ['a'] 1000 t₁ ∧ (1000 : ℕ) < t₁) ∨
        (¬ StartsBefore (.init .twoThreads false gaugeFiles) ['a'] 1000 t₁ ∧ ∀ t ∈ [(1010 : ℚ), 1020], t ≤ (1000 : ℕ)) :=
  replayRecord_caches_iff .twoThreads 0 0 0 (.init .twoThreads false gaugeFiles) ['a']
    (rrdInitData (gaugeHeader 10 60 (by decide)) fun _ => 0) ["1010:1".toList, "1020:2".toList] [1010, 1020] rfl (by decide +kernel) (by decide +kernel)

/-- The first value of the line is in the file, the second one is not: it is not read again. -/
theorem replayRecord_half_written :
    ∃ d : Daemon, ∃ rrd, d.files ['a'] = some rrd ∧ rrd.lastUp = 1000 ∧
      ["1000:1".toList, "1010:2".toList].filter (isLater 1000) = ["1010:2".toList] ∧
      cachedTexts (replayRecord .twoThreads 0 0 d (.update ['a'] 0 ["1000:1".toList, "1010:2".toList])) ['a'] = [] :=
  ⟨.init .twoThreads false gaugeFiles, rrdInitData (gaugeHeader 10 60 (by decide)) fun _ => 0, rfl, rfl, by decide +kernel, by decide +kernel⟩

end Rrdtool
