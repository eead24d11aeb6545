import Rrdtool.Daemon.Step

/-!
# The daemon as one file sees it

Everything that is claimed about the daemon is about one file at a time. `Daemon.fileState` is what
concerns a file: its cache item, the batches of it that queue threads have taken, the file itself,
the clients that wait for it, its records in the journal and what has happened to its values.
`FileStep` lists the ways a step of the daemon can change that, and `step_fileStep` is the inversion
of `Daemon.step` on which all invariants rest.
-/

namespace Rrdtool

/-! ### The state of a file -/

structure FileState where
  item : Option (ℚ × List Value)
  batches : List Batch
  rrd : Option Rrd
  /-- For each waiting client, whether it has been woken, and the values accepted before. -/
  waiters : ℕ → Option (Bool × ℕ)
  journalFh : Bool
  doomed : List Record
  old : List Record
  cur : List Record
  accepted : List Value
  forgotten : List Value
  handovers : List Handover
  total : ℕ
  mark : ℕ
  lastMark : ℕ

/-- The request as a wait for `file`. -/
@[grind] def waiterOf (file : Text) : Option Request → Option (Bool × ℕ)
  | some (.waiting f seen) => if f = file then some (false, seen) else none
  | some (.woken f seen) => if f = file then some (true, seen) else none
  | _ => none

/-- The values of `file` in a log. -/
@[grind] def valuesOf (file : Text) (log : List (Text × Value)) : List Value :=
  (log.filter (·.1 = file)).map (·.2)

namespace Daemon

@[grind] def fileState (d : Daemon) (f : Text) : FileState where
  item := (d.tree f).map fun ci => (ci.lastUpdateStamp, ci.values)
  batches := d.active.filter (·.file = f)
  rrd := d.files f
  waiters c := waiterOf f (d.requests c)
  journalFh := d.journalFh
  doomed := d.doomed.filter (·.file = f)
  old := d.journalOld.filter (·.file = f)
  cur := d.journalCur.filter (·.file = f)
  accepted := valuesOf f d.accepted
  forgotten := valuesOf f d.forgotten
  handovers := d.handovers.filter (·.file = f)
  total := d.accepted.length
  mark := d.mark
  lastMark := d.lastMark

end Daemon

namespace FileState

/-- Every client that waits is woken. -/
@[grind] def wakeAll (s : FileState) : FileState :=
  { s with waiters := fun c => (s.waiters c).map fun p => (true, p.2) }

/-- A record is written, if there is a journal. -/
@[grind] def record (s : FileState) (r : Record) : FileState :=
  { s with cur := if s.journalFh then s.cur ++ [r] else s.cur }

/-- An `UPDATE` of the file, with the item as it is in the tree. -/
@[grind] def take (s : FileState) (f : Text) (stamp : ℚ) (vs : List Value) (values : List Text) : FileState :=
  { s.record (.update f s.total values) with
    item := some ((Daemon.takeValues stamp values).2.1,
      vs ++ Daemon.numbered s.total (Daemon.takeValues stamp values).1)
    accepted := s.accepted ++ Daemon.numbered s.total (Daemon.takeValues stamp values).1
    total := s.total + (Daemon.takeValues stamp values).1.length }

end FileState

/-- The file and the values of the `UPDATE` that is carried out in this step. -/
@[grind] def Daemon.requested (d : Daemon) : Act → Option (Text × List Text)
  | .update _ file values _ => some (file, values)
  | .insert client _ _ =>
    match d.requests client with
    | some (.opened file values _) => some (file, values)
    | _ => none
  | _ => none

/-- The item that is made in this step: its file and the time that was read from it. -/
def Daemon.adds (d : Daemon) : Act → Option (Text × ℚ)
  | .insert client _ _ =>
    match d.requests client with
    | some (.opened file _ stamp) => if d.tree file = none then some (file, stamp) else none
    | _ => none
  | _ => none

/-- The file whose batch a queue thread takes in this step. -/
def Daemon.takes (d : Daemon) : Act → Option Text
  | .dequeue _ _ => d.queue.head?
  | _ => none

/-- The time at which the step looks for idle items. -/
@[grind] def Act.clock : Act → Option ℤ
  | .flushAll _ now => some now
  | .tick now => some now
  | .flushExit now => some now
  | _ => none

/-- The ways a step changes the state of a file. -/
inductive FileStep (cfg : Config) (d : Daemon) (f : Text) (s : FileState) : Act → FileState → Prop
  /-- Only other files are concerned. -/
  | other {a total} (le : s.total ≤ total) : FileStep cfg d f s a { s with total := total }
  /-- Values are taken into the item. -/
  | take {a stamp vs values} (item : s.item = some (stamp, vs)) (acts : d.requested a = some (f, values)) :
    FileStep cfg d f s a (s.take f stamp vs values)
  /-- A new item is made, and takes values unless the daemon shuts down. -/
  | create {client now random values stamp} (item : s.item = none)
    (acts : d.requests client = some (.opened f values stamp)) :
    FileStep cfg d f s (.insert client now random) { s with item := some (stamp, []) }
  | createTake {client now random values stamp} (item : s.item = none)
    (acts : d.requests client = some (.opened f values stamp)) :
    FileStep cfg d f s (.insert client now random) (s.take f stamp [] values)
  /-- The flush thread, or `FLUSHALL`, removes an idle item. -/
  | drop {a stamp now ci} (item : s.item = some (stamp, [])) (acts : a.clock = some now)
    (tree : d.tree f = some ci) (late : cfg.flushInterval ≤ now - ci.lastFlushTime) :
    FileStep cfg d f s a { s with item := none }.wakeAll
  | forget {client stamp vs} (item : s.item = some (stamp, vs)) :
    FileStep cfg d f s (.forget client f)
      { s with item := none, forgotten := s.forgotten ++ vs }.wakeAll
  | forgetRecord {client} (acts : d.requests client = some (.forgot f)) :
    FileStep cfg d f s (.forgetRecord client) (s.record (.forget f))
  | detach {now random stamp vs} (item : s.item = some (stamp, vs)) (acts : d.queue.head? = some f) :
    FileStep cfg d f s (.dequeue now random)
      { s with item := some (stamp, []), batches := s.batches ++ [⟨f, vs, .detached⟩] }
  | write {i host pre vs post rrd ok} (acts : d.active[i]? = some ⟨f, vs, .detached⟩)
    (batches : s.batches = pre ++ ⟨f, vs, .detached⟩ :: post)
    (written : ∀ r ∈ s.rrd, ∃ r', rrd = some r' ∧ Daemon.rrdUpdateR host r vs = (r', ok))
    (missing : s.rrd = none → rrd = none ∧ ok = false) :
    FileStep cfg d f s (.write i host)
      { s with
        batches := pre ++ ⟨f, vs, .updated⟩ :: post
        rrd := rrd
        handovers := s.handovers ++ [⟨f, vs, host, s.rrd, ok⟩] }
  | wroteRecord {i pre vs post} (batches : s.batches = pre ++ ⟨f, vs, .updated⟩ :: post) :
    FileStep cfg d f s (.wroteRecord i)
      { s.record (.wrote f) with batches := pre ++ ⟨f, vs, .journaled⟩ :: post }
  | finish {i pre vs post} (batches : s.batches = pre ++ ⟨f, vs, .journaled⟩ :: post) :
    FileStep cfg d f s (.finish i)
      (if s.item = none then { s with batches := pre ++ post }
        else { s with batches := pre ++ post }.wakeAll)
  | wait {client ci} (tree : d.tree f = some ci) (values : ci.values ≠ []) (awake : ci.suspended = false)
    (free : s.waiters client = none) :
    FileStep cfg d f s (.flush client f)
      { s with waiters := Function.update s.waiters client (some (false, s.total)) }
  | flushReturn {client seen} (acts : s.waiters client = some (true, seen)) :
    FileStep cfg d f s (.flushReturn client) { s with waiters := Function.update s.waiters client none }
  | spurious {client seen} (acts : s.waiters client = some (false, seen)) :
    FileStep cfg d f s (.spuriousWakeup client)
      { s with waiters := Function.update s.waiters client (some (true, seen)) }
  | rotate {ok} :
    FileStep cfg d f s (.rotate ok)
      { s with
        doomed := s.old
        old := s.cur
        cur := []
        journalFh := ok
        mark := s.total
        lastMark := s.mark }
  | removeOld : FileStep cfg d f s .removeOld { s with doomed := [] }
  | newJournalFile {ok} : FileStep cfg d f s (.newJournalFile ok) { s with journalFh := ok }

lemma FileStep.same {cfg d f s a s'} (h : s' = s) : FileStep cfg d f s a s' := by
  subst h
  exact .other (le_refl _)

/-! ### The operations -/

namespace Daemon

variable {cfg : Config} {d d' : Daemon} {f g : Text} {c : ℕ}

@[simp] lemma fileState_enqueueHead {ci} : (d.enqueueHead g ci).fileState f = d.fileState f := by
  unfold enqueueHead
  split <;> rfl

@[simp] lemma fileState_enqueueTail {ci} : (d.enqueueTail g ci).fileState f = d.fileState f := by
  unfold enqueueTail
  split <;> rfl

lemma fileState_setRequest {r} : (d.setRequest c r).fileState f =
    { d.fileState f with waiters := Function.update (d.fileState f).waiters c (waiterOf f r) } := by
  unfold setRequest fileState
  congr 1
  funext c'
  by_cases h : c' = c
  · subst h
    simp
  · simp [h]

lemma fileState_reply {r} : (d.reply c r).fileState f =
    { d.fileState f with waiters := Function.update (d.fileState f).waiters c none } :=
  fileState_setRequest (r := none)

/-- A client that does not wait for the file changes nothing for it. -/
lemma fileState_setRequest_of_none {r} (h : waiterOf f (d.requests c) = none)
    (h' : waiterOf f r = none) : (d.setRequest c r).fileState f = d.fileState f := by
  rw [fileState_setRequest, h', Function.update_eq_self_iff.2 h.symm]

lemma fileState_reply_of_none {r} (h : waiterOf f (d.requests c) = none) :
    (d.reply c r).fileState f = d.fileState f :=
  fileState_setRequest_of_none (r := none) h rfl

lemma fileState_journalWrite {r} : (d.journalWrite r).fileState f =
    if r.file = f then (d.fileState f).record r else d.fileState f := by
  unfold journalWrite FileState.record
  split
  · rename_i hfh
    split
    · rename_i hr
      simp [fileState, hfh, hr]
    · rename_i hr
      simp [fileState, hr]
  · rename_i hfh
    split
    · simp [fileState, hfh]
    · rfl

lemma fileState_setActive {active} : (d.setActive active).fileState f =
    { d.fileState f with batches := active.filter (·.file = f) } := rfl

lemma fileState_setItem {ci} : (d.setItem g ci).fileState f =
    if g = f then { d.fileState f with item := some (ci.lastUpdateStamp, ci.values) }
    else d.fileState f := by
  unfold setItem fileState
  split
  · rename_i h
    subst h
    simp
  · rename_i h
    simp [Function.update_of_ne (Ne.symm h)]

lemma fileState_addItem {stamp now random} : (d.addItem cfg g stamp now random).fileState f =
    if g = f then { d.fileState f with item := some (stamp, []) } else d.fileState f := by
  unfold addItem fileState
  split
  · rename_i h
    subst h
    simp [wipeCiValues]
  · rename_i h
    simp [Function.update_of_ne (Ne.symm h)]

lemma waiterOf_wake (r : Option Request) : waiterOf f (r.map (·.wake g)) =
    if g = f then (waiterOf f r).map fun p => (true, p.2) else waiterOf f r := by
  cases r with
  | none => simp [waiterOf]
  | some r =>
    cases r with
    | waiting file seen =>
      by_cases hg : file = g
      · subst hg
        by_cases hf : file = f
        · simp [Request.wake, waiterOf, hf]
        · simp [Request.wake, waiterOf, hf]
      · by_cases hf : file = f
        · subst hf
          simp [Request.wake, waiterOf, hg, Ne.symm hg]
        · simp [Request.wake, waiterOf, hg, hf]
    | woken file seen =>
      by_cases hf : file = f
      · simp [Request.wake, waiterOf, hf]
      · simp [Request.wake, waiterOf, hf]
    | _ => simp [Request.wake, waiterOf]

lemma fileState_broadcast : (d.broadcast g).fileState f =
    if g = f then (d.fileState f).wakeAll else d.fileState f := by
  simp only [broadcast, fileState, waiterOf_wake]
  split <;> rfl

lemma fileState_removeItem : (d.removeItem g).fileState f =
    if g = f then { d.fileState f with item := none }.wakeAll else d.fileState f := by
  unfold removeItem
  rw [fileState_broadcast]
  split
  · rename_i h
    subst h
    simp [fileState, FileState.wakeAll]
  · rename_i h
    simp [fileState, Function.update_of_ne (Ne.symm h)]

/-! ### Updates -/

lemma valuesOf_append_map (log : List (Text × Value)) (vs : List Value) :
    valuesOf f (log ++ vs.map (g, ·)) = if g = f then valuesOf f log ++ vs else valuesOf f log := by
  unfold valuesOf
  rw [List.filter_append, List.map_append]
  split
  · rename_i h
    subst h
    have all : (vs.map (g, ·)).filter (·.1 = g) = vs.map (g, ·) := List.filter_eq_self.2 (by simp)
    rw [all, List.map_map]
    simp [Function.comp_def]
  · rename_i h
    have none : (vs.map (g, ·)).filter (·.1 = f) = [] := List.filter_eq_nil_iff.2 (by simp [h])
    simp [none]

@[simp] lemma numbered_length (base : ℕ) (taken : List Text) :
    (numbered base taken).length = taken.length := by
  simp [numbered]

lemma fileState_takeUpdate {ci values now} : (d.takeUpdate cfg g ci values now).1.fileState f =
    if g = f then
      { d.fileState f with
        item := some ((takeValues ci.lastUpdateStamp values).2.1,
          ci.values ++ numbered d.accepted.length (takeValues ci.lastUpdateStamp values).1)
        accepted := (d.fileState f).accepted ++
          numbered d.accepted.length (takeValues ci.lastUpdateStamp values).1
        total := d.accepted.length + (takeValues ci.lastUpdateStamp values).1.length }
    else
      { d.fileState f with
        total := d.accepted.length + (takeValues ci.lastUpdateStamp values).1.length } := by
  generalize htv : takeValues ci.lastUpdateStamp values = tv
  obtain ⟨taken, last, e⟩ := tv
  have stored : (d.takeUpdate cfg g ci values now).1.fileState f =
      Daemon.fileState { d.setItem g { ci with
          values := ci.values ++ numbered d.accepted.length taken, lastUpdateStamp := last } with
        accepted := d.accepted ++ (numbered d.accepted.length taken).map (g, ·) } f := by
    simp only [takeUpdate, htv]
    cases e with
    | some e => rfl
    | none =>
      show Daemon.fileState (if _ then _ else _) f = _
      split
      · exact fileState_enqueueTail
      · rfl
  rw [stored]
  simp only [fileState, setItem, valuesOf_append_map]
  split
  · rename_i h
    subst h
    simp
  · rename_i h
    simp [Function.update_of_ne (Ne.symm h)]

/-- An `UPDATE` that finds its item, by a client that does not wait. -/
lemma fileState_journaledUpdate {ci values now} (h : waiterOf f (d.requests c) = none) :
    (d.journaledUpdate cfg c g ci values now).fileState f =
      if g = f then (d.fileState f).take g ci.lastUpdateStamp ci.values values
      else
        { d.fileState f with
          total := d.accepted.length + (takeValues ci.lastUpdateStamp values).1.length } := by
  have hw : ∀ r, waiterOf f (((d.journalWrite r).takeUpdate cfg g ci values now).1.requests c) =
      none := by
    intro r
    have : ((d.journalWrite r).takeUpdate cfg g ci values now).1.requests = d.requests := by
      have hjw : (d.journalWrite r).requests = d.requests := by
        unfold journalWrite
        split <;> rfl
      rw [← hjw]
      simp only [takeUpdate]
      split
      · rfl
      · show Daemon.requests (if _ then _ else _) = _
        split
        · unfold enqueueTail
          split <;> rfl
        · rfl
    rw [this]
    exact h
  have hacc : ∀ r, (d.journalWrite r).accepted = d.accepted := by
    intro r
    unfold journalWrite
    split <;> rfl
  simp only [journaledUpdate]
  rw [fileState_reply_of_none (hw _), fileState_takeUpdate, fileState_journalWrite, hacc]
  by_cases hg : g = f
  · have hr : ∀ n, (Record.update g n values).file = f := fun _ => hg
    simp only [if_pos hg, if_pos (hr _)]
    rfl
  · have hr : ∀ n, ¬ (Record.update g n values).file = f := fun _ => hg
    simp only [if_neg hg, if_neg (hr _)]

/-! ### Flushing -/

lemma treeCallbackFlush_spec {now absTimeout : ℤ} {p : Daemon × List Text} :
    (treeCallbackFlush cfg now absTimeout p g).1.tree = p.1.tree ∧
      (treeCallbackFlush cfg now absTimeout p g).1.fileState f = p.1.fileState f ∧
      ∀ k ∈ (treeCallbackFlush cfg now absTimeout p g).2, k ∈ p.2 ∨
        ∃ ci, p.1.tree k = some ci ∧ ci.values = [] ∧ cfg.flushInterval ≤ now - ci.lastFlushTime := by
  unfold treeCallbackFlush
  split
  · exact ⟨rfl, rfl, fun k hk => .inl hk⟩
  · rename_i ci hci
    split
    · exact ⟨rfl, rfl, fun k hk => .inl hk⟩
    · split
      · refine ⟨?_, fileState_enqueueTail, fun k hk => .inl hk⟩
        simp only [enqueueTail]
        split <;> rfl
      · split
        · rename_i idle
          refine ⟨rfl, rfl, fun k hk => ?_⟩
          obtain hk | hk := List.mem_append.1 hk
          · exact .inl hk
          · rw [List.mem_singleton.1 hk]
            exact .inr ⟨ci, hci, idle.2, idle.1⟩
        · exact ⟨rfl, rfl, fun k hk => .inl hk⟩

lemma foldl_treeCallbackFlush {now absTimeout : ℤ} {keys : List Text} {p : Daemon × List Text} :
    (keys.foldl (treeCallbackFlush cfg now absTimeout) p).1.fileState f = p.1.fileState f ∧
      ∀ k ∈ (keys.foldl (treeCallbackFlush cfg now absTimeout) p).2, k ∈ p.2 ∨
        ∃ ci, p.1.tree k = some ci ∧ ci.values = [] ∧ cfg.flushInterval ≤ now - ci.lastFlushTime := by
  induction keys generalizing p with
  | nil => exact ⟨rfl, fun k hk => .inl hk⟩
  | cons g keys ih =>
    obtain ⟨htree, hstate, hkeys⟩ := @treeCallbackFlush_spec cfg f g now absTimeout p
    obtain ⟨ihs, ihk⟩ := ih (p := treeCallbackFlush cfg now absTimeout p g)
    refine ⟨ihs.trans hstate, fun k hk => ?_⟩
    obtain hk | hk := ihk k hk
    · exact hkeys k hk
    · rw [htree] at hk
      exact .inr hk

lemma foldl_removeItem {keys : List Text} : (keys.foldl removeItem d).fileState f =
    if f ∈ keys then { d.fileState f with item := none }.wakeAll else d.fileState f := by
  induction keys generalizing d with
  | nil => rfl
  | cons g keys ih =>
    rw [List.foldl_cons, ih, fileState_removeItem]
    by_cases hg : g = f
    · subst hg
      have twice : (FileState.wakeAll { (FileState.wakeAll { d.fileState g with item := none }) with
          item := none }) = FileState.wakeAll { d.fileState g with item := none } := by
        simp [FileState.wakeAll, Function.comp_def]
      simp [twice]
    · simp [hg, Ne.symm hg]

/-- `flush_old_values` removes idle items and changes nothing else. -/
lemma flushOldValues_cases {now maxAge : ℤ} :
    (d.flushOldValues cfg now maxAge).fileState f = d.fileState f ∨
      ∃ ci, d.tree f = some ci ∧ ci.values = [] ∧ cfg.flushInterval ≤ now - ci.lastFlushTime ∧
        (d.flushOldValues cfg now maxAge).fileState f =
          { d.fileState f with item := none }.wakeAll := by
  simp only [flushOldValues]
  generalize (if 0 < maxAge then now - maxAge else now + 2 * (cfg.writeJitter : ℤ) + 1) = absTimeout
  obtain ⟨hstate, hkeys⟩ := @foldl_treeCallbackFlush cfg f now absTimeout d.keys (d, [])
  rw [foldl_removeItem, hstate]
  split
  · rename_i hf
    obtain hf | ⟨ci, hci, hempty, hlate⟩ := hkeys f hf
    · cases hf
    · exact .inr ⟨ci, hci, hempty, hlate, rfl⟩
  · exact .inl rfl

/-! ### Queue threads -/

/-- The batches of the file when batch `i` changes, or is removed. -/
lemma filter_set_batch {l : List Batch} {i : ℕ} {b b' : Batch} (hi : l[i]? = some b)
    (hb : b'.file = b.file) :
    (b.file = f ∧ ∃ pre post, l.filter (·.file = f) = pre ++ b :: post ∧
      (l.set i b').filter (·.file = f) = pre ++ b' :: post ∧
      (l.eraseIdx i).filter (·.file = f) = pre ++ post) ∨
    (b.file ≠ f ∧ (l.set i b').filter (·.file = f) = l.filter (·.file = f) ∧
      (l.eraseIdx i).filter (·.file = f) = l.filter (·.file = f)) := by
  obtain ⟨hlt, hget⟩ := List.getElem?_eq_some_iff.1 hi
  obtain ⟨l₁, l₂, hl, hlen, hset⟩ := @List.exists_of_set _ _ b' _ hlt
  rw [hget] at hl
  have herase : l.eraseIdx i = l₁ ++ l₂ := by
    rw [hl, ← hlen]
    simp [List.eraseIdx_append_of_length_le]
  rw [hset, herase, hl]
  by_cases hf : b.file = f
  · refine .inl ⟨hf, l₁.filter (·.file = f), l₂.filter (·.file = f), ?_, ?_, ?_⟩
    · simp [hf]
    · simp [hb, hf]
    · simp
  · refine .inr ⟨hf, ?_, ?_⟩
    · simp [hb, hf]
    · simp [hf]

lemma item_of_tree {ci} (h : d.tree f = some ci) :
    (d.fileState f).item = some (ci.lastUpdateStamp, ci.values) := by
  simp [fileState, h]

/-- `flush_old_values`, as a step that is otherwise without effect on the file. -/
lemma tree_of_item (h : (d.fileState f).item = none) : d.tree f = none :=
  Option.map_eq_none_iff.1 h

lemma adds_of_item {client now random values stamp} (h : (d.fileState f).item = none)
    (hreq : d.requests client = some (.opened f values stamp)) :
    d.adds (.insert client now random) = some (f, stamp) := by
  simp only [adds, hreq, if_pos (tree_of_item h)]

lemma flushOldValues_fileStep {a now maxAge} (ha : a.clock = some now)
    (h : d'.fileState f = (d.flushOldValues cfg now maxAge).fileState f) :
    FileStep cfg d f (d.fileState f) a (d'.fileState f) := by
  rw [h]
  obtain hsame | ⟨ci, hci, hempty, hlate, hdrop⟩ :=
    @flushOldValues_cases cfg d f now maxAge
  · exact .same hsame
  · rw [hdrop]
    have hitem := item_of_tree hci
    rw [hempty] at hitem
    exact .drop hitem ha hci hlate

lemma insert_fileStep {client now random} (h : d.step cfg (.insert client now random) = some d')
    (f : Text) :
    FileStep cfg d f (d.fileState f) (.insert client now random) (d'.fileState f) := by
  simp only [step] at h
  split at h
  · rename_i file values stamp hreq
    have free : ∀ d₁ : Daemon, d₁.requests = d.requests → waiterOf f (d₁.requests client) = none := by
      intro d₁ h₁
      rw [h₁, hreq]
      rfl
    by_cases htree : d.tree file = none
    · rw [if_pos htree] at h
      have hnew : (d.addItem cfg file stamp now random).tree file =
          some (wipeCiValues cfg ⟨[], 0, stamp, false⟩ now random) := by simp [addItem]
      rw [hnew] at h
      split at h
      · cases h
        rw [fileState_reply_of_none (free (d.addItem cfg file stamp now random) rfl),
          fileState_addItem]
        split
        · rename_i hf
          subst hf
          exact .create (by simp [fileState, htree]) hreq
        · exact .same rfl
      · cases h
        rw [fileState_journaledUpdate (free (d.addItem cfg file stamp now random) rfl),
          fileState_addItem]
        split
        · rename_i hf
          subst hf
          exact .createTake (by simp [fileState, htree]) hreq
        · exact .other (Nat.le_add_right _ _)
    · rw [if_neg htree] at h
      split at h
      · cases h
        exact .same (fileState_reply_of_none (free d rfl))
      · split at h
        · cases h
        · rename_i ci hci
          cases h
          rw [fileState_journaledUpdate (free d rfl)]
          split
          · rename_i hf
            subst hf
            refine .take (item_of_tree hci) ?_
            simp only [requested, hreq]
          · exact .other (Nat.le_add_right _ _)
  · cases h

lemma flush_fileStep {client file} (h : d.step cfg (.flush client file) = some d') (f : Text) :
    FileStep cfg d f (d.fileState f) (.flush client file) (d'.fileState f) := by
  simp only [step] at h
  split at h
  · cases h
  · rename_i hreq _
    cases h
    exact .same (fileState_reply_of_none (by rw [hreq]; rfl))
  · rename_i ci hreq htree
    split at h
    · rename_i hwait
      cases h
      rw [fileState_setRequest, fileState_enqueueHead]
      by_cases hf : file = f
      · subst hf
        have hwaiter : waiterOf file (some (.waiting file d.accepted.length)) =
            some (false, (d.fileState file).total) := by simp [waiterOf, fileState]
        rw [hwaiter]
        refine .wait htree hwait.1 (by simpa using hwait.2) ?_
        simp [fileState, hreq, waiterOf]
      · refine .same ?_
        have hnone : waiterOf f (some (.waiting file d.accepted.length)) = none := by
          simp [waiterOf, hf]
        rw [hnone, Function.update_eq_self_iff.2]
        simp [fileState, hreq, waiterOf]
    · cases h
      exact .same (fileState_reply_of_none (by rw [hreq]; rfl))

lemma write_fileStep {i host} (h : d.step cfg (.write i host) = some d') (f : Text) :
    FileStep cfg d f (d.fileState f) (.write i host) (d'.fileState f) := by
  simp only [step] at h
  split at h
  · rename_i b hi
    split at h
    · rename_i hphase
      obtain ⟨bfile, vs, phase⟩ := b
      cases hphase
      cases h
      obtain ⟨hf, pre, post, hl, hset, -⟩ | ⟨hf, hset, -⟩ :=
        @filter_set_batch f _ _ _ ⟨bfile, vs, .updated⟩ hi rfl
      · obtain rfl : bfile = f := hf
        cases hrrd : d.files bfile with
        | none =>
          have hstate : (d.writeBatch i ⟨bfile, vs, .detached⟩ host).fileState bfile =
              { d.fileState bfile with
                batches := pre ++ ⟨bfile, vs, .updated⟩ :: post
                rrd := none
                handovers := (d.fileState bfile).handovers ++
                  [⟨bfile, vs, host, (d.fileState bfile).rrd, false⟩] } := by
            simp only [writeBatch, hrrd, fileState, hset]
            simp
          rw [hstate]
          exact .write hi hl (by simp [fileState, hrrd]) fun _ => ⟨rfl, rfl⟩
        | some rrd =>
          have hstate : (d.writeBatch i ⟨bfile, vs, .detached⟩ host).fileState bfile =
              { d.fileState bfile with
                batches := pre ++ ⟨bfile, vs, .updated⟩ :: post
                rrd := some (rrdUpdateR host rrd vs).1
                handovers := (d.fileState bfile).handovers ++
                  [⟨bfile, vs, host, (d.fileState bfile).rrd, (rrdUpdateR host rrd vs).2⟩] } := by
            simp only [writeBatch, hrrd, fileState, hset]
            simp
          rw [hstate]
          refine .write hi hl ?_ ?_
          · intro r hr
            rw [show (d.fileState bfile).rrd = some rrd from hrrd] at hr
            cases hr
            exact ⟨_, rfl, rfl⟩
          · intro hnone
            rw [show (d.fileState bfile).rrd = some rrd from hrrd] at hnone
            cases hnone
      · refine .same ?_
        have hne : bfile ≠ f := hf
        cases hrrd : d.files bfile with
        | none =>
          simp only [writeBatch, hrrd, fileState, hset]
          simp [hne]
        | some rrd =>
          simp only [writeBatch, hrrd, fileState, hset]
          simp [hne, Function.update_of_ne (Ne.symm hne)]
    · cases h
  · cases h

lemma wroteRecord_fileStep {i} (h : d.step cfg (.wroteRecord i) = some d') (f : Text) :
    FileStep cfg d f (d.fileState f) (.wroteRecord i) (d'.fileState f) := by
  simp only [step] at h
  split at h
  · rename_i b hi
    split at h
    · rename_i hphase
      obtain ⟨bfile, vs, phase⟩ := b
      cases hphase
      cases h
      obtain ⟨hf, pre, post, hl, hset, -⟩ | ⟨hf, hset, -⟩ :=
        @filter_set_batch f _ _ _ ⟨bfile, vs, .journaled⟩ hi rfl
      · obtain rfl : bfile = f := hf
        rw [fileState_setActive, hset, fileState_journalWrite,
          if_pos (show (Record.wrote bfile).file = bfile from rfl)]
        exact .wroteRecord hl
      · rw [fileState_setActive, hset, fileState_journalWrite,
          if_neg (show ¬ (Record.wrote bfile).file = f from hf)]
        exact .same rfl
    · cases h
  · cases h

lemma finish_fileStep {i} (h : d.step cfg (.finish i) = some d') (f : Text) :
    FileStep cfg d f (d.fileState f) (.finish i) (d'.fileState f) := by
  simp only [step] at h
  split at h
  · rename_i b hi
    split at h
    · rename_i hphase
      obtain ⟨bfile, vs, phase⟩ := b
      cases hphase
      cases h
      rw [fileState_setActive]
      obtain ⟨hf, pre, post, hl, -, herase⟩ | ⟨hf, -, herase⟩ :=
        @filter_set_batch f _ _ _ ⟨bfile, vs, .journaled⟩ hi rfl
      · obtain rfl : bfile = f := hf
        have hitem : (d.fileState bfile).item = none ↔ d.tree bfile = none := by simp [fileState]
        rw [herase]
        have hstep := @FileStep.finish cfg d _ (d.fileState bfile) i _ _ _ hl
        simp only [hitem] at hstep
        split at hstep
        · rename_i hnone
          rw [if_pos hnone]
          exact hstep
        · rename_i hsome
          rw [if_neg hsome, fileState_broadcast, if_pos rfl]
          exact hstep
      · rw [herase]
        refine .same ?_
        split
        · rfl
        · rw [fileState_broadcast, if_neg hf]
          rfl
    · cases h
  · cases h

lemma dequeue_fileStep {now random} (h : d.step cfg (.dequeue now random) = some d') (f : Text) :
    FileStep cfg d f (d.fileState f) (.dequeue now random) (d'.fileState f) := by
  simp only [step] at h
  split at h
  · cases h
  · rename_i file queue hqueue
    split at h
    · cases h
    · rename_i ci hci
      split at h
      · cases h
        rw [show ∀ d₁ : Daemon, Daemon.fileState { d₁ with queue := queue } f = d₁.fileState f from
          fun _ => rfl, fileState_setActive, fileState_setItem, List.filter_append]
        split
        · rename_i hf
          subst hf
          rw [show ([⟨file, ci.values, .detached⟩] : List Batch).filter (·.file = file) =
            [⟨file, ci.values, .detached⟩] by simp]
          exact .detach (item_of_tree hci) (by rw [hqueue]; rfl)
        · rename_i hf
          rw [show ([⟨file, ci.values, .detached⟩] : List Batch).filter (·.file = f) = [] by
            simp [hf], List.append_nil]
          exact .same rfl
      · cases h

/-- Suspending an item is no concern of the file. -/
lemma fileState_suspend {ci b r} (hreq : d.requests c = none) (hci : d.tree g = some ci) :
    ((d.setItem g { ci with suspended := b }).reply c r).fileState f = d.fileState f := by
  rw [fileState_reply_of_none (by rw [show (d.setItem g _).requests = d.requests from rfl, hreq]; rfl),
    fileState_setItem]
  split
  · rename_i hg
    subst hg
    rw [← item_of_tree hci]
  · rfl

lemma fileState_suspendAll {b r} (hreq : d.requests c = none) :
    ((d.setAllSuspended b).reply c r).fileState f = d.fileState f := by
  rw [fileState_reply_of_none (by
    rw [show (d.setAllSuspended b).requests = d.requests from rfl, hreq]
    rfl)]
  simp [fileState, setAllSuspended, Function.comp_def]

/-- What a step of the daemon can do to a file. -/
theorem step_fileStep {a} (h : d.step cfg a = some d') (f : Text) :
    FileStep cfg d f (d.fileState f) a (d'.fileState f) := by
  have quiet : ∀ {client r}, d.requests client = none →
      (d.reply client r).fileState f = d.fileState f := by
    intro client r hreq
    exact fileState_reply_of_none (by rw [hreq]; rfl)
  cases a with
  | update client file values now =>
    simp only [step] at h
    split at h
    · cases h
    · rename_i ci hreq hci
      cases h
      rw [fileState_journaledUpdate (by rw [hreq]; rfl)]
      split
      · rename_i hf
        subst hf
        exact .take (item_of_tree hci) rfl
      · exact .other (Nat.le_add_right _ _)
    · rename_i hreq _
      cases h
      exact .same (fileState_setRequest_of_none (by rw [hreq]; rfl) rfl)
  | openFile client ok =>
    simp only [step] at h
    split at h
    · rename_i file values hreq
      have free : waiterOf f (d.requests client) = none := by
        rw [hreq]
        rfl
      split at h
      · cases h
        exact .same (fileState_reply_of_none free)
      · split at h
        · cases h
          exact .same (fileState_reply_of_none free)
        · split at h
          · cases h
            exact .same (fileState_reply_of_none free)
          · cases h
            exact .same (fileState_setRequest_of_none free rfl)
    · cases h
  | insert client now random => exact insert_fileStep h f
  | flush client file => exact flush_fileStep h f
  | flushReturn client =>
    simp only [step] at h
    split at h
    · rename_i file seen hreq
      cases h
      rw [fileState_reply]
      by_cases hf : file = f
      · have hw : (d.fileState f).waiters client = some (true, seen) := by
          simp [fileState, hreq, waiterOf, hf]
        exact .flushReturn hw
      · refine .same ?_
        rw [Function.update_eq_self_iff.2]
        simp [fileState, hreq, waiterOf, hf]
    · cases h
  | spuriousWakeup client =>
    simp only [step] at h
    split at h
    · rename_i file seen hreq
      cases h
      rw [fileState_setRequest]
      by_cases hf : file = f
      · subst hf
        rw [show waiterOf file (some (.woken file seen)) = some (true, seen) by simp [waiterOf]]
        exact .spurious (by simp [fileState, hreq, waiterOf])
      · refine .same ?_
        rw [Function.update_eq_self_iff.2]
        simp [fileState, hreq, waiterOf, hf]
    · cases h
  | flushAll client now =>
    simp only [step] at h
    split at h
    · cases h
    · rename_i hreq
      cases h
      have hfree : (d.fileState f).waiters client = none := by simp [fileState, hreq, waiterOf]
      refine @flushOldValues_fileStep _ _ _ _ _ _ (-1) rfl (fileState_reply_of_none ?_)
      show ((d.flushOldValues cfg now (-1)).fileState f).waiters client = none
      obtain hsame | ⟨ci, -, -, -, hdrop⟩ :=
        @flushOldValues_cases cfg d f now (-1)
      · rw [hsame]
        exact hfree
      · rw [hdrop]
        simp [FileState.wakeAll, hfree]
  | forget client file =>
    simp only [step] at h
    split at h
    · cases h
    · rename_i hreq _
      cases h
      exact .same (quiet hreq)
    · rename_i ci hreq hci
      cases h
      have hlog : ∀ log, Daemon.fileState { d with forgotten := log } f =
          { d.fileState f with forgotten := valuesOf f log } := fun _ => rfl
      rw [fileState_setRequest_of_none (by simp [removeItem, broadcast, hreq, waiterOf]) rfl,
        fileState_removeItem, hlog (d.forgotten ++ ci.values.map (file, ·)), valuesOf_append_map]
      split
      · rename_i hf
        subst hf
        exact .forget (item_of_tree hci)
      · exact .same rfl
  | forgetRecord client =>
    simp only [step] at h
    split at h
    · rename_i file hreq
      cases h
      have hjw : (d.journalWrite (.forget file)).requests = d.requests := by
        unfold journalWrite
        split <;> rfl
      rw [fileState_reply_of_none (by rw [hjw, hreq]; rfl), fileState_journalWrite]
      split
      · rename_i hf
        obtain rfl : file = f := hf
        exact .forgetRecord hreq
      · exact .same rfl
    · cases h
  | suspend client file =>
    simp only [step] at h
    split at h
    · cases h
    · rename_i hreq _
      cases h
      exact .same (quiet hreq)
    · rename_i ci hreq hci
      cases h
      exact .same (fileState_suspend hreq hci)
  | resume client file =>
    simp only [step] at h
    split at h
    · cases h
    · rename_i hreq _
      cases h
      exact .same (quiet hreq)
    · rename_i ci hreq hci
      cases h
      exact .same (fileState_suspend hreq hci)
  | suspendAll client =>
    simp only [step] at h
    split at h
    · cases h
    · rename_i hreq
      cases h
      exact .same (fileState_suspendAll hreq)
  | resumeAll client =>
    simp only [step] at h
    split at h
    · cases h
    · rename_i hreq
      cases h
      exact .same (fileState_suspendAll hreq)
  | tick now =>
    simp only [step] at h
    split at h
    · cases h
      exact @flushOldValues_fileStep _ _ _ _ _ _ cfg.writeInterval rfl rfl
    · cases h
  | rotate ok =>
    simp only [step] at h
    split at h
    · cases h
      by_cases hdir : cfg.journalDir
      · simp only [journalRotate, if_pos hdir]
        exact .rotate
      · simp only [journalRotate, if_neg hdir]
        exact .same rfl
    · cases h
  | removeOld =>
    simp only [step] at h
    split at h
    · cases h
      exact .removeOld
    · cases h
  | newJournalFile ok =>
    simp only [step] at h
    split at h
    · cases h
      exact .newJournalFile
    · cases h
  | signal =>
    simp only [step] at h
    split at h
    · cases h
      exact .same rfl
    · cases h
  | flushExit now =>
    simp only [step] at h
    split at h
    · cases h
      split
      · exact @flushOldValues_fileStep _ _ _ _ _ _ (-1) rfl rfl
      · exact .same rfl
    · cases h
  | dequeue now random => exact dequeue_fileStep h f
  | write i host => exact write_fileStep h f
  | wroteRecord i => exact wroteRecord_fileStep h f
  | finish i => exact finish_fileStep h f

end Daemon

end Rrdtool
