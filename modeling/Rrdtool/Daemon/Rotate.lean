import Rrdtool.Daemon.Ledger
import Rrdtool.Lib.Outcome

/-!
# Journal rotation

The flush thread rotates the journal each time it has flushed: `journal_cur` becomes `journal_old`,
and the old set is removed. That everything in it has been written is assumed, not checked: flushing
only queues items, and not those that are suspended.

`run_covered_iff` says what the remaining sets hold. A value that is not written yet has its record
there exactly when it was accepted after the rotation before the last one. A suspended item keeps its
values for longer (`suspended_value_loses_record`).
-/

namespace Rrdtool

open FileState

/-- The record of the request that brought the value. -/
@[grind] def Record.holds (v : Value) : Record → Prop
  | .update _ base values => base ≤ v.id ∧ values[v.id - base]? = some v.text
  | _ => False

/-- The record of an update that was sent when `n` values had been accepted, or later. -/
def Record.since (n : ℕ) : Record → Prop
  | .update _ base _ => n ≤ base
  | _ => True

instance (v : Value) : ∀ r : Record, Decidable (r.holds v)
  | .update _ base _ => inferInstanceAs (Decidable (base ≤ v.id ∧ _))
  | .wrote _ => inferInstanceAs (Decidable False)
  | .forget _ => inferInstanceAs (Decidable False)

/-- The value has its record in one of the sets that are kept. -/
def Daemon.covered (d : Daemon) (f : Text) (v : Value) : Prop :=
  ∃ r ∈ d.journalOld ++ d.journalCur, r.file = f ∧ r.holds v

instance (d : Daemon) (f : Text) (v : Value) : Decidable (d.covered f v) :=
  inferInstanceAs (Decidable (∃ r ∈ d.journalOld ++ d.journalCur, _))

/-- A new journal file can be opened. -/
def journalOpens (_ : Daemon) : Act → Prop
  | .rotate ok => ok = true
  | .newJournalFile ok => ok = true
  | _ => True

instance (d : Daemon) (a : Act) : Decidable (journalOpens d a) := by
  unfold journalOpens
  match a with
  | .update .. | .openFile .. | .insert .. | .flush .. | .flushReturn .. | .spuriousWakeup .. | .flushAll .. | .forget ..
  | .forgetRecord .. | .suspend .. | .resume .. | .suspendAll .. | .resumeAll .. | .tick .. | .rotate .. | .removeOld
  | .newJournalFile .. | .signal | .flushExit .. | .dequeue .. | .write .. | .wroteRecord .. | .finish .. => infer_instance

/-- The records of a file in the two sets, and the values that are not written yet. -/
structure FileState.Journaled (s : FileState) : Prop where
  open_ : s.journalFh = true
  lastMark_le : s.lastMark ≤ s.mark
  mark_le : s.mark ≤ s.total
  cur_since : ∀ r ∈ s.cur, r.since s.mark
  old_since : ∀ r ∈ s.old, r.since s.lastMark
  cur_holds : ∀ v ∈ s.pending, s.mark ≤ v.id → ∃ r ∈ s.cur, r.holds v
  old_holds : ∀ v ∈ s.pending, s.lastMark ≤ v.id → v.id < s.mark → ∃ r ∈ s.old, r.holds v

lemma Record.le_of_holds {n : ℕ} {v : Value} {r : Record} (h : r.holds v) (hs : r.since n) :
    n ≤ v.id := by
  cases r with
  | update file base values => exact le_trans hs h.1
  | wrote file => exact h.elim
  | forget file => exact h.elim

/-! ### Steps -/

lemma takeValues_front (stamp : ℚ) (values : List Text) :
    (Daemon.takeValues stamp values).1 <+: values := by
  induction values generalizing stamp with
  | nil => exact List.prefix_refl _
  | cons v values ih =>
    simp only [Daemon.takeValues]
    split
    · exact List.nil_prefix
    · split
      · exact List.nil_prefix
      · exact List.cons_prefix_cons.2 ⟨rfl, ih _⟩

/-- A request that is recorded holds the values that are taken from it. -/
lemma holds_numbered {f base stamp values} {v : Value}
    (hv : v ∈ Daemon.numbered base (Daemon.takeValues stamp values).1) :
    (Record.update f base values).holds v := by
  obtain ⟨i, hi, rfl⟩ := List.mem_iff_getElem.1 hv
  rw [Daemon.numbered_length] at hi
  have hget : values[i]? = some ((Daemon.takeValues stamp values).1[i]) := by
    rw [List.prefix_iff_getElem?.1 (takeValues_front stamp values) i hi]
  simp only [Record.holds, Daemon.numbered, List.getElem_mapIdx]
  exact ⟨Nat.le_add_right _ _, by rw [Nat.add_sub_cancel_left, hget]⟩

/-- More records, and values that leave. -/
lemma FileState.Journaled.mono {s s' : FileState} (h : s.Journaled) (open_ : s'.journalFh = true)
    (pending : s'.pending ⊆ s.pending) (total : s.total ≤ s'.total) (marks : s'.mark = s.mark)
    (lastMarks : s'.lastMark = s.lastMark) (old : s'.old = s.old)
    (cur : ∃ rs, s'.cur = s.cur ++ rs ∧ ∀ r ∈ rs, r.since s.mark) : s'.Journaled := by
  obtain ⟨rs, hcur, hrs⟩ := cur
  refine ⟨open_, by rw [marks, lastMarks]; exact h.lastMark_le, by rw [marks]; exact h.mark_le.trans total,
    ?_, by rw [old, lastMarks]; exact h.old_since, ?_, ?_⟩
  · rw [hcur, marks]
    intro r hr
    rcases List.mem_append.1 hr with hr | hr
    · exact h.cur_since r hr
    · exact hrs r hr
  · rw [hcur, marks]
    intro v hv hle
    obtain ⟨r, hr, hholds⟩ := h.cur_holds v (pending hv) hle
    exact ⟨r, List.mem_append_left _ hr, hholds⟩
  · rw [old, marks, lastMarks]
    exact fun v hv => h.old_holds v (pending hv)

lemma FileState.Journaled.take {s : FileState} {f stamp values} (h : s.Journaled) :
    (s.take f stamp s.cached values).Journaled := by
  have hcur : (s.take f stamp s.cached values).cur = s.cur ++ [.update f s.total values] :=
    if_pos h.open_
  have hnew := (numbered_lt s.total (Daemon.takeValues stamp values).1).2
  refine ⟨h.open_, h.lastMark_le, h.mark_le.trans (Nat.le_add_right _ _), ?_, h.old_since, ?_, ?_⟩
  · rw [hcur]
    intro r hr
    rcases List.mem_append.1 hr with hr | hr
    · exact h.cur_since r hr
    · rw [List.mem_singleton.1 hr]
      exact h.mark_le
  · rw [hcur, pending_take]
    intro v hv hle
    rcases List.mem_append.1 hv with hv | hv
    · obtain ⟨r, hr, hholds⟩ := h.cur_holds v hv hle
      exact ⟨r, List.mem_append_left _ hr, hholds⟩
    · exact ⟨_, List.mem_append_right _ (.head _), holds_numbered hv⟩
  · rw [pending_take]
    intro v hv hle hlt
    rcases List.mem_append.1 hv with hv | hv
    · exact h.old_holds v hv hle hlt
    · have hmark : s.mark ≤ v.id := h.mark_le.trans (hnew v hv).1
      exact absurd hlt (not_lt.2 hmark)

theorem FileStep.journaled {cfg d f a s s'} (h : FileStep cfg d f s a s') (hok : journalOpens d a)
    (hledger : s.Ledger) (hs : s.Journaled) : s'.Journaled := by
  -- a record that is no update changes nothing
  have hrecord : ∀ {r : Record}, (∀ n, r.since n) → (s.record r).Journaled := by
    intro r hr
    refine hs.mono hs.open_ (List.Subset.refl _) (le_refl _) rfl rfl rfl ⟨[r], if_pos hs.open_, ?_⟩
    intro r' hr'
    rw [List.mem_singleton.1 hr']
    exact hr _
  have hkeep : ∀ {s' : FileState}, s'.pending ⊆ s.pending → s'.journalFh = s.journalFh →
      s.total ≤ s'.total → s'.mark = s.mark → s'.lastMark = s.lastMark → s'.old = s.old →
        s'.cur = s.cur → s'.Journaled := by
    intro s' hp hfh htotal hmark hlast hold hcur
    refine hs.mono (hfh.trans hs.open_) hp htotal hmark hlast hold ⟨[], ?_, by simp⟩
    rw [hcur, List.append_nil]
  cases h with
  | other le => exact hkeep (List.Subset.refl _) rfl le rfl rfl rfl rfl
  | take item _ =>
    rw [← cached_of_some item]
    exact hs.take
  | createTake item _ =>
    rw [← cached_of_none item]
    exact hs.take
  | create item _ =>
    refine hkeep ?_ rfl (le_refl _) rfl rfl rfl rfl
    rw [pending, pending, cached_of_none item]
    exact List.Subset.refl _
  | drop item _ _ _ =>
    refine hkeep (List.Sublist.subset ?_) rfl (le_refl _) rfl rfl rfl rfl
    exact .append_left (List.nil_sublist _) _
  | forget item =>
    refine hkeep (List.Sublist.subset ?_) rfl (le_refl _) rfl rfl rfl rfl
    exact .append_left (List.nil_sublist _) _
  | forgetRecord _ => exact hrecord fun _ => trivial
  | @detach _ _ _ vs item _ =>
    refine hkeep ?_ rfl (le_refl _) rfl rfl rfl rfl
    intro v hv
    replace hv : v ∈ detachedOf (s.batches ++ [⟨f, vs, .detached⟩]) ++ [] := hv
    simpa [pending, detached, cached_of_some item] using hv
  | @write _ _ pre vs post _ _ _ batches _ _ =>
    refine hkeep ?_ rfl (le_refl _) rfl rfl rfl rfl
    intro v hv
    replace hv : v ∈ detachedOf (pre ++ ⟨f, vs, .updated⟩ :: post) ++ s.cached := hv
    simp only [pending, detached, batches, detachedOf_append, detachedOf_updated,
      detachedOf_detached, List.mem_append] at hv ⊢
    tauto
  | @wroteRecord _ pre vs post batches =>
    refine (hrecord (r := .wrote f) fun _ => trivial).mono hs.open_ ?_ (le_refl _) rfl rfl rfl
      ⟨[], (List.append_nil _).symm, by simp⟩
    intro v hv
    replace hv : v ∈ detachedOf (pre ++ ⟨f, vs, .journaled⟩ :: post) ++ s.cached := hv
    show v ∈ s.pending
    simpa [pending, detached, batches] using hv
  | @finish _ pre vs post batches =>
    have hsub : detachedOf (pre ++ post) ++ s.cached ⊆ s.pending := by
      intro v hv
      simpa [pending, detached, batches] using hv
    split
    · exact hkeep hsub rfl (le_refl _) rfl rfl rfl rfl
    · exact hkeep hsub rfl (le_refl _) rfl rfl rfl rfl
  | rotate =>
    -- what is not written was accepted before this rotation, and its record is in the set that is kept
    refine ⟨hok, hs.mark_le, le_refl _, by simp, hs.cur_since, fun v hv hle => ?_, fun v hv hle _ => ?_⟩
    · have hlt := hledger.bound v (hledger.mem_accepted (List.mem_append_right _ hv))
      exact absurd hle (not_le.2 hlt)
    · exact hs.cur_holds v hv hle
  | newJournalFile =>
    exact hs.mono hok (List.Subset.refl _) (le_refl _) rfl rfl rfl ⟨[], (List.append_nil _).symm, by simp⟩
  | _ => exact hkeep (List.Subset.refl _) rfl (le_refl _) rfl rfl rfl rfl

/-! ### Runs -/

lemma init_journaled {cfg : Config} {fas files} (hdir : cfg.journalDir = true) (f : Text) :
    ((Daemon.init cfg fas files).fileState f).Journaled := by
  refine ⟨hdir, le_refl _, le_refl _, ?_, ?_, ?_, ?_⟩
  all_goals simp [Daemon.init, Daemon.fileState, pending, detached, cached]

/-- In every state of every run, a value that is not written yet has its record in one of the sets
that are kept exactly when it was accepted after the rotation before the last one. -/
theorem run_covered_iff {cfg : Config} {fas files d acts} (hdir : cfg.journalDir = true)
    (hrun : (Daemon.init cfg fas files).run cfg acts = some d)
    (hok : Run.Always (Daemon.step cfg) journalOpens (Daemon.init cfg fas files) acts) (f : Text)
    (v : Value) (hv : v ∈ (d.fileState f).pending) : d.covered f v ↔ d.lastMark ≤ v.id := by
  have hstep : ∀ {d f a s'}, FileStep cfg d f (d.fileState f) a s' → journalOpens d a →
      (d.fileState f).Ledger ∧ (d.fileState f).Journaled → s'.Ledger ∧ s'.Journaled :=
    fun h ha hs => ⟨h.ledger hs.1, h.journaled ha hs.1 hs.2⟩
  obtain ⟨-, hj⟩ := Daemon.run_fileState_of (fun s => s.Ledger ∧ s.Journaled) hstep hrun hok
    (fun f => ⟨Daemon.init_ledger f, init_journaled hdir f⟩) f
  constructor
  · rintro ⟨r, hr, hf, hholds⟩
    rcases List.mem_append.1 hr with hr | hr
    · have hold : r ∈ (d.fileState f).old := List.mem_filter.2 ⟨hr, by simpa using hf⟩
      exact Record.le_of_holds hholds (hj.old_since r hold)
    · have hcur : r ∈ (d.fileState f).cur := List.mem_filter.2 ⟨hr, by simpa using hf⟩
      exact hj.lastMark_le.trans (Record.le_of_holds hholds (hj.cur_since r hcur))
  · intro hle
    by_cases hmark : d.mark ≤ v.id
    · obtain ⟨r, hr, hholds⟩ := hj.cur_holds v hv hmark
      obtain ⟨hr, hf⟩ := List.mem_filter.1 hr
      exact ⟨r, List.mem_append_right _ hr, of_decide_eq_true hf, hholds⟩
    · obtain ⟨r, hr, hholds⟩ := hj.old_holds v hv hle (not_le.1 hmark)
      obtain ⟨hr, hf⟩ := List.mem_filter.1 hr
      exact ⟨r, List.mem_append_left _ hr, of_decide_eq_true hf, hholds⟩

/-- A value that has seen one rotation. -/
theorem run_covered_iff_one_rotation :
    ∃ d, (Daemon.init .twoThreads false gaugeFiles).run .twoThreads
        (firstUpdate 1 ['a'] ["1010:1".toList] ++ [.tick 0, .rotate true, .removeOld]) = some d ∧
      d.covered ['a'] ⟨0, "1010:1".toList⟩ := by
  refine Outcome.exists_of_any_imp (fun d => ⟨0, "1010:1".toList⟩ ∈ (d.fileState ['a']).pending ∧ d.lastMark ≤ 0)
    (by decide +kernel) ?_
  rintro d hd ⟨hp, hle⟩
  exact (run_covered_iff rfl hd (by decide +kernel) ['a'] _ hp).2 hle

/-- The item is suspended, and the value is in the cache when its record is removed. -/
theorem suspended_value_loses_record :
    ∃ d, (Daemon.init .twoThreads false gaugeFiles).run .twoThreads
        (firstUpdate 1 ['a'] ["1010:1".toList] ++
          [.suspend 2 ['a'], .tick 3600, .rotate true, .removeOld, .tick 7200, .rotate true,
            .removeOld]) = some d ∧
      (d.fileState ['a']).cached = [⟨0, "1010:1".toList⟩] ∧
      ¬ d.covered ['a'] ⟨0, "1010:1".toList⟩ :=
  Outcome.exists_of_any (by decide +kernel)

end Rrdtool
