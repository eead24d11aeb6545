import Rrdtool.Daemon.Step
import Rrdtool.Create
import Mathlib.Data.List.TakeWhile
import Rrdtool.Lib.Outcome

/-!
# Batches with malformed values

The daemon reads the time stamp of a value and no more, and the values of all clients for one file go
to `rrd_update_r` in one call, which stops at the first value it refuses. Here the file is followed
through both: `Feed` holds what the daemon has of it, a request that is acknowledged adds its values
(the loop of `handle_request_update`), and a queue thread writes them.

A run is compared with the run in which the malformed values were never sent. A batch comes to the
same in both when its malformed values do no harm (`Undisturbed`), and only then.
-/

namespace Rrdtool

/-! ### Well-formed values -/

/-- A reading that a data source can convert: unknown, or a number of its kind. -/
def isReading (dst : Dst) (s : Text) : Bool :=
  !isKnownText s ||
    match dst with
    | .counter | .derive => isSimpleInteger dst s
    | .cdef => true
    | _ =>
      match rrdStrtodbl s with
      | .whole _ => true
      | _ => false

/-- A value for the file: a time, and a reading for each of its data sources. -/
@[grind] def Rrd.wellFormed (rrd : Rrd) (value : Text) : Bool :=
  match parseDs rrd.dsCnt rrd.defaultTemplate value with
  | .ok (false, _, updvals) => (rrd.ds.zip updvals).all fun p => isReading p.1.dsDef.dst p.2
  | _ => false

/-! ### The daemon's side of a file -/

/-- A file, its values in the cache, and `last_update_stamp` of the cache item. -/
structure Feed where
  rrd : Rrd
  cached : List Text
  stamp : ℚ

/-- The item has just been added. -/
@[grind] def Feed.fresh (rrd : Rrd) : Feed := ⟨rrd, [], rrd.lastUp⟩

inductive FeedAct where
  /-- An `UPDATE` that is acknowledged. -/
  | update (values : List Text)
  /-- A queue thread takes the batch and writes it. -/
  | write (host : Host)

/-- `rrd_update_r` on the values. -/
@[grind] def Rrd.updated (host : Host) (rrd : Rrd) (values : List Text) : Rrd :=
  (rrdUpdatex host rrd.defaultTemplate false rrd values).1

/-- One step; a request that is not acknowledged in full is none. -/
@[grind] def Feed.step (c : Feed) : FeedAct → Option Feed
  | .update values =>
    match Daemon.takeValues c.stamp values with
    | (taken, last, none) => some { c with cached := c.cached ++ taken, stamp := last }
    | (_, _, some _) => none
  | .write host => some { c with rrd := c.rrd.updated host c.cached, cached := [] }

abbrev Feed.run : Feed → List FeedAct → Option Feed := Run.run Feed.step

/-- The same action, with the values of a kind only. -/
@[grind] def FeedAct.only (wf : Text → Bool) : FeedAct → FeedAct
  | .update values => .update (values.filter wf)
  | .write host => .write host

/-! ### What a batch comes to -/

/-- The values that `process_arg` takes before the loop of `_rrd_updatex` ends. -/
@[grind] def appliedArgs (host : Host) (tmpl : List ℕ) : Rrd → List Text → List Text
  | _, [] => []
  | rrd, input :: args =>
    match processArg host tmpl rrd input with
    | (_, .error _) => []
    | (rrd, .ok _) => input :: appliedArgs host tmpl rrd args

/-- The batch does what it does without its malformed values: the same values are applied, and the
file is the same. -/
@[grind] def SameAsWithout (wf : Text → Bool) (host : Host) (rrd : Rrd) (values : List Text) : Prop :=
  appliedArgs host rrd.defaultTemplate rrd values =
      appliedArgs host rrd.defaultTemplate rrd (values.filter wf) ∧
    rrd.updated host values = rrd.updated host (values.filter wf)

/-- The file after the values have been taken, with the smoothing that they have made due. -/
@[grind] def smoothedIfDue (rrd : Rrd) (accs : List Accepted) : Rrd :=
  if accs.any (·.phases.any (·.scheduleSmooth)) then smoothAllRras rrd else rrd

/-- The first malformed value does no harm in the file it meets: it is refused, and nothing is to be
applied after it. What it leaves in the file is what the next well-formed value, which is refused as
well, leaves; or if there is none, what the end of the batch leaves. -/
@[grind] def Harmless (wf : Text → Bool) (host : Host) (tmpl : List ℕ) (rrd : Rrd) (accs : List Accepted)
    (m : Text) (rest : List Text) : Prop :=
  (processArg host tmpl rrd m).2.isOk = false ∧
    match rest.filter wf with
    | [] => (processArg host tmpl rrd m).1 = smoothedIfDue rrd accs
    | w :: _ =>
      (processArg host tmpl rrd w).2.isOk = false ∧
        (processArg host tmpl rrd m).1 = (processArg host tmpl rrd w).1

/-- There is no malformed value in the batch, or a value before it is refused, or it is harmless. -/
@[grind] def Undisturbed (wf : Text → Bool) (host : Host) (rrd : Rrd) (values : List Text) : Prop :=
  match values.dropWhile wf with
  | [] => True
  | m :: rest =>
    match updateArgs host rrd.defaultTemplate false rrd (values.takeWhile wf) with
    | (_, .error _) => True
    | (rrd', .ok accs) => Harmless wf host rrd.defaultTemplate rrd' accs m rest

/-- Of an action: each batch that is written. -/
def Feed.atWrite (P : Host → Rrd → List Text → Prop) (c : Feed) : FeedAct → Prop
  | .update _ => True
  | .write host => P host c.rrd c.cached

/-! ### The feed of a daemon -/

/-- What the daemon has of a file that is in its cache. -/
@[grind] def Daemon.feed (d : Daemon) (file : Text) : Option Feed :=
  match d.files file, d.tree file with
  | some rrd, some ci => some ⟨rrd, ci.values.map (·.text), ci.lastUpdateStamp⟩
  | _, _ => none

lemma Daemon.enqueueTail_feed (d : Daemon) (file file' : Text) (ci : CacheItem) :
    (d.enqueueTail file' ci).feed file = d.feed file := by
  unfold enqueueTail
  split <;> rfl

/-- A request that is acknowledged is a step of the feed. -/
lemma Daemon.takeUpdate_feed {cfg : Config} {d : Daemon} {file : Text} {ci : CacheItem}
    {values : List Text} {now : ℤ} (hci : d.tree file = some ci)
    (hack : (takeValues ci.lastUpdateStamp values).2.2 = none) :
    (d.takeUpdate cfg file ci values now).1.feed file =
      (d.feed file).bind (·.step (.update values)) := by
  rcases ht : takeValues ci.lastUpdateStamp values with ⟨taken, last, e⟩
  rw [ht] at hack
  cases hack
  have htexts : (numbered d.accepted.length taken).map (·.text) = taken := by
    refine List.ext_getElem (by simp [numbered]) fun i h₁ h₂ => ?_
    simp [numbered]
  simp only [takeUpdate, ht]
  rw [apply_ite (Daemon.feed · file), enqueueTail_feed, ite_self]
  simp only [feed, setItem, Function.update_self, hci]
  cases d.files file with
  | none => rfl
  | some rrd => simp [Feed.step, ht, htexts]

/-- A queue thread that takes the batch of the file and writes it makes a step of the feed. -/
lemma Daemon.writeBatch_feed {cfg : Config} {d : Daemon} {file : Text} {ci : CacheItem} {i : ℕ}
    {host : Host} {now : ℤ} {random : ℕ} (hci : d.tree file = some ci) :
    ((d.setItem file (wipeCiValues cfg ci now random)).writeBatch i ⟨file, ci.values, .detached⟩
        host).feed file = (d.feed file).bind (·.step (.write host)) := by
  have hupd : ∀ rrd : Rrd, (rrdUpdateR host rrd ci.values).1 =
      rrd.updated host (ci.values.map (·.text)) := by
    intro rrd
    unfold rrdUpdateR Rrd.updated
    split
    all_goals
      rename_i h
      rw [h]
  unfold writeBatch
  cases hfile : d.files file with
  | none =>
    simp only [setItem, hfile, feed]
    rfl
  | some rrd =>
    simp only [setItem, hfile, feed, Function.update_self, hci, hupd, Option.bind_some]
    rfl

/-! ### The loop over a batch -/

lemma updateArgs_append {host tmpl rrd pre post} :
    updateArgs host tmpl false rrd (pre ++ post) =
      match updateArgs host tmpl false rrd pre with
      | (rrd', .error e) => (rrd', .error e)
      | (rrd', .ok accs) =>
        ((updateArgs host tmpl false rrd' post).1,
          (updateArgs host tmpl false rrd' post).2.map (accs ++ ·)) := by
  induction pre generalizing rrd with
  | nil =>
    rcases h : updateArgs host tmpl false rrd post with ⟨rrd', e | accs⟩
    all_goals simp [updateArgs, h, Except.map]
  | cons v pre ih =>
    rw [List.cons_append]
    simp only [updateArgs, ih]
    rcases processArg host tmpl rrd v with ⟨rrd₁, e | acc⟩
    · simp
    · dsimp only
      rcases updateArgs host tmpl false rrd₁ pre with ⟨rrd₂, e | accs⟩
      · rfl
      · simp only [Except.map]
        rcases updateArgs host tmpl false rrd₂ post with ⟨rrd₃, e | accs'⟩
        all_goals rfl

lemma appliedArgs_append {host tmpl rrd pre post} :
    appliedArgs host tmpl rrd (pre ++ post) =
      match updateArgs host tmpl false rrd pre with
      | (_, .error _) => appliedArgs host tmpl rrd pre
      | (rrd', .ok _) => pre ++ appliedArgs host tmpl rrd' post := by
  induction pre generalizing rrd with
  | nil => rfl
  | cons v pre ih =>
    rw [List.cons_append]
    simp only [updateArgs, appliedArgs, ih]
    rcases processArg host tmpl rrd v with ⟨rrd₁, e | acc⟩
    · simp
    · dsimp only
      rcases updateArgs host tmpl false rrd₁ pre with ⟨rrd₂, e | accs⟩
      all_goals rfl

lemma appliedArgs_subset {host tmpl rrd values} :
    appliedArgs host tmpl rrd values ⊆ values := by
  induction values generalizing rrd with
  | nil => exact List.Subset.refl _
  | cons v values ih =>
    simp only [appliedArgs]
    split
    · exact List.nil_subset _
    · exact List.cons_subset_cons _ ih

lemma appliedArgs_cons_eq_nil {host tmpl rrd v values} :
    appliedArgs host tmpl rrd (v :: values) = [] ↔ (processArg host tmpl rrd v).2.isOk = false := by
  simp only [appliedArgs]
  rcases processArg host tmpl rrd v with ⟨rrd', e | acc⟩
  · exact iff_of_true rfl rfl
  · exact iff_of_false (List.cons_ne_nil _ _) (by simp [Except.isOk, Except.toBool])

/-- A value that is refused ends the loop, and the file is as the value has left it. -/
lemma updateArgs_refused {host tmpl rrd v values} (h : (processArg host tmpl rrd v).2.isOk = false) :
    ∃ e, updateArgs host tmpl false rrd (v :: values) = ((processArg host tmpl rrd v).1, .error e) := by
  simp only [updateArgs]
  rcases hp : processArg host tmpl rrd v with ⟨rrd', e | acc⟩
  · exact ⟨e, by simp⟩
  · rw [hp] at h
    cases h

/-- The file after a batch whose beginning is taken, by what its rest does. -/
lemma updated_append {host rrd pre post rrd' accs}
    (h : updateArgs host rrd.defaultTemplate false rrd pre = (rrd', .ok accs)) :
    rrd.updated host (pre ++ post) =
      match updateArgs host rrd.defaultTemplate false rrd' post with
      | (rrd'', .error _) => rrd''
      | (rrd'', .ok accs') => smoothedIfDue rrd'' (accs ++ accs') := by
  simp only [Rrd.updated, rrdUpdatex, updateArgs_append, h]
  rcases updateArgs host rrd.defaultTemplate false rrd' post with ⟨rrd'', e | accs'⟩
  · rfl
  · simp only [Except.map, smoothedIfDue]
    split <;> rfl

lemma updated_append_of_error {host rrd pre post rrd' e}
    (h : updateArgs host rrd.defaultTemplate false rrd pre = (rrd', .error e)) :
    rrd.updated host (pre ++ post) = rrd' := by
  simp only [Rrd.updated, rrdUpdatex, updateArgs_append, h]

/-! ### A batch and its well-formed values -/

section Batch

variable {wf : Text → Bool} {host : Host} {rrd rrd' : Rrd} {accs : List Accepted}
  {pre rest : List Text} {m : Text}

lemma filter_split (hpre : ∀ v ∈ pre, wf v = true) (hm : wf m = false) :
    (pre ++ m :: rest).filter wf = pre ++ rest.filter wf := by
  rw [List.filter_append, List.filter_cons_of_neg (by rw [hm]; decide), List.filter_eq_self.2 hpre]

/-- When the values before the first malformed one are taken, the batch is the same without its
malformed values exactly when that one is harmless. -/
lemma sameAsWithout_iff_harmless (hpre : ∀ v ∈ pre, wf v = true) (hm : wf m = false)
    (h : updateArgs host rrd.defaultTemplate false rrd pre = (rrd', .ok accs)) :
    SameAsWithout wf host rrd (pre ++ m :: rest) ↔
      Harmless wf host rrd.defaultTemplate rrd' accs m rest := by
  unfold SameAsWithout Harmless
  rw [filter_split hpre hm, appliedArgs_append, appliedArgs_append, h]
  simp only [List.append_cancel_left_eq]
  cases hok : (processArg host rrd.defaultTemplate rrd' m).2.isOk with
  | true =>
    -- a malformed value that is taken is not among the others
    refine iff_of_false (fun hs => ?_) (fun hh => by cases hh.1)
    have hin : m ∈ appliedArgs host rrd.defaultTemplate rrd' (m :: rest) := by
      simp only [appliedArgs]
      rcases hp : processArg host rrd.defaultTemplate rrd' m with ⟨rrd₁, e | acc⟩
      · rw [hp] at hok
        cases hok
      · exact List.mem_cons_self
    rw [hs.1] at hin
    have hwf := (List.mem_filter.1 (appliedArgs_subset hin)).2
    rw [hm] at hwf
    cases hwf
  | false =>
    obtain ⟨e, he⟩ := @updateArgs_refused _ _ _ _ rest hok
    rw [appliedArgs_cons_eq_nil.2 hok, updated_append h, updated_append h, he]
    cases hrest : rest.filter wf with
    | nil => simp [updateArgs, appliedArgs]
    | cons w ws =>
      simp only [true_and]
      rw [eq_comm, appliedArgs_cons_eq_nil]
      constructor
      · rintro ⟨hw, heq⟩
        obtain ⟨e', he'⟩ := @updateArgs_refused _ _ _ _ ws hw
        rw [he'] at heq
        exact ⟨hw, heq⟩
      · rintro ⟨hw, heq⟩
        obtain ⟨e', he'⟩ := @updateArgs_refused _ _ _ _ ws hw
        rw [he']
        exact ⟨hw, heq⟩

/-- A value that is malformed in its form, at the end of a batch that makes no smoothing due. -/
lemma harmless_of_form {tmpl : List ℕ} (hform : (parseDs rrd.dsCnt tmpl m).isOk = false)
    (hrest : rest.filter wf = []) (hdue : accs.any (·.phases.any (·.scheduleSmooth)) = false) :
    Harmless wf host tmpl rrd accs m rest := by
  have hp : ∃ e, processArg host tmpl rrd m = (rrd, .error e) := by
    unfold processArg
    rcases hparse : parseDs rrd.dsCnt tmpl m with e | r
    · exact ⟨e, rfl⟩
    · rw [hparse] at hform
      cases hform
  obtain ⟨e, he⟩ := hp
  unfold Harmless
  rw [he, hrest]
  refine ⟨rfl, ?_⟩
  show rrd = smoothedIfDue rrd accs
  simp [smoothedIfDue, hdue]

/-- A batch does the same without its malformed values exactly when it is undisturbed. -/
lemma sameAsWithout_iff_undisturbed {values : List Text} :
    SameAsWithout wf host rrd values ↔ Undisturbed wf host rrd values := by
  have hpre : ∀ v ∈ values.takeWhile wf, wf v = true := fun v hv => List.mem_takeWhile_imp hv
  have hsplit : values.takeWhile wf ++ values.dropWhile wf = values := List.takeWhile_append_dropWhile
  unfold Undisturbed
  split
  · rename_i hnil
    rw [hnil, List.append_nil] at hsplit
    have hall : values.filter wf = values := by
      rw [List.filter_eq_self, ← hsplit]
      exact hpre
    refine iff_of_true ?_ trivial
    unfold SameAsWithout
    rw [hall]
    exact ⟨rfl, rfl⟩
  · rename_i m rest hcons
    have hm : wf m = false := by
      have := List.head?_dropWhile_not wf values
      rw [hcons] at this
      simpa using this
    split
    · rename_i herr
      refine iff_of_true ?_ trivial
      rw [← hsplit, hcons]
      unfold SameAsWithout
      rw [filter_split hpre hm, appliedArgs_append, appliedArgs_append, herr,
        updated_append_of_error herr, updated_append_of_error herr]
      exact ⟨rfl, rfl⟩
    · rename_i hok
      rw [← sameAsWithout_iff_harmless hpre hm hok, ← hcons, hsplit]

end Batch

/-! ### Runs -/

/-- Values that are acknowledged are acknowledged without some of them, and after an earlier stamp. -/
lemma takeValues_filter (wf : Text → Bool) {stamp stamp' last : ℚ} {values taken : List Text}
    (hle : stamp' ≤ stamp) (h : Daemon.takeValues stamp values = (taken, last, none)) :
    taken = values ∧ ∃ last' ≤ last,
      Daemon.takeValues stamp' (values.filter wf) = (values.filter wf, last', none) := by
  induction values generalizing stamp stamp' taken with
  | nil =>
    cases h
    exact ⟨rfl, stamp', hle, rfl⟩
  | cons v values ih =>
    simp only [Daemon.takeValues] at h
    cases hq : Daemon.stampOf v with
    | none =>
      rw [hq] at h
      cases h
    | some q =>
      simp only [hq] at h
      split at h
      · cases h
      · rename_i hlt
        rcases hrest : Daemon.takeValues q values with ⟨taken', last'', e⟩
        rw [hrest] at h
        cases h
        cases hwf : wf v with
        | true =>
          obtain ⟨rfl, last', hlast, heq⟩ := ih (le_refl q) hrest
          refine ⟨rfl, last', hlast, ?_⟩
          rw [List.filter_cons_of_pos hwf]
          simp only [Daemon.takeValues, hq, heq]
          rw [if_neg fun hle' => hlt (hle'.trans hle)]
        | false =>
          obtain ⟨rfl, last', hlast, heq⟩ := ih (hle.trans (not_le.1 hlt).le) hrest
          refine ⟨rfl, last', hlast, ?_⟩
          rw [List.filter_cons_of_neg (by rw [hwf]; decide)]
          exact heq

/-- An acknowledged request leaves the file alone and adds all its values. -/
lemma Feed.step_update {c c' : Feed} {values : List Text} (h : c.step (.update values) = some c') :
    c'.rrd = c.rrd ∧ c'.cached = c.cached ++ values := by
  simp only [Feed.step] at h
  split at h
  · rename_i taken last heq
    cases h
    obtain ⟨rfl, -⟩ := takeValues_filter (fun _ => true) (le_refl _) heq
    exact ⟨rfl, rfl⟩
  · cases h

/-- The feed of a run, and that of the run without the malformed values. -/
structure Feed.Follows (wf : Text → Bool) (c' c : Feed) : Prop where
  rrd : c'.rrd = c.rrd
  cached : c'.cached = c.cached.filter wf
  stamp : c'.stamp ≤ c.stamp

lemma Feed.Follows.step {wf : Text → Bool} {c c' c₁ : Feed} {a : FeedAct} (h : c'.Follows wf c)
    (ha : Feed.atWrite (SameAsWithout wf) c a) (hstep : c.step a = some c₁) :
    ∃ c₁', c'.step (a.only wf) = some c₁' ∧ c₁'.Follows wf c₁ := by
  cases a with
  | update values =>
    simp only [Feed.step] at hstep
    split at hstep
    · rename_i taken last heq
      cases hstep
      obtain ⟨rfl, last', hlast, heq'⟩ := takeValues_filter wf h.stamp heq
      refine ⟨{ c' with cached := c'.cached ++ taken.filter wf, stamp := last' }, ?_, h.rrd, ?_, hlast⟩
      · simp only [FeedAct.only, Feed.step, heq']
      · rw [List.filter_append, h.cached]
    · cases hstep
  | write host =>
    cases hstep
    refine ⟨_, rfl, ?_, rfl, h.stamp⟩
    show c'.rrd.updated host c'.cached = c.rrd.updated host c.cached
    rw [h.rrd, h.cached]
    exact ha.2.symm

lemma Feed.Follows.run {wf : Text → Bool} {c c' c₁ : Feed} {acts : List FeedAct}
    (h : c'.Follows wf c) (hrun : c.run acts = some c₁)
    (hok : Run.Always Feed.step (Feed.atWrite (SameAsWithout wf)) c acts) :
    ∃ c₁', c'.run (acts.map (·.only wf)) = some c₁' ∧ c₁'.Follows wf c₁ := by
  induction acts generalizing c c' with
  | nil =>
    cases hrun
    exact ⟨c', rfl, h⟩
  | cons a acts ih =>
    obtain ⟨c₂, hstep, hrest⟩ := Run.run_cons.1 hrun
    obtain ⟨c₂', hstep', h₂⟩ := h.step hok.1 hstep
    obtain ⟨c₁', hrun', h₁⟩ := ih h₂ hrest (hok.2 c₂ hstep)
    exact ⟨c₁', Run.run_cons.2 ⟨c₂', hstep', hrun'⟩, h₁⟩

lemma atWrite_sameAsWithout_iff {wf : Text → Bool} (c : Feed) (a : FeedAct) :
    Feed.atWrite (Undisturbed wf) c a ↔ Feed.atWrite (SameAsWithout wf) c a := by
  cases a with
  | update values => exact Iff.rfl
  | write host => exact sameAsWithout_iff_undisturbed.symm

/-- A new file with one `GAUGE`. -/
def gaugeFile : Rrd := rrdInitData (gaugeHeader 10 60 tenSeconds_pos) fun _ => 0

example : (rrdInitData (gaugeHeader 10 60 (by decide)) fun _ => 0).ds.length = 1 := by
  decide +kernel

/-- In every run of acknowledged requests and writes, each batch does what it does without its
malformed values exactly when it is undisturbed; and if every batch is, the run in which the malformed
values were never sent ends with the same file. -/
theorem run_undisturbed_iff {rrd acts c} (hrun : (Feed.fresh rrd).run acts = some c) :
    (Run.Always Feed.step (Feed.atWrite (SameAsWithout rrd.wellFormed)) (.fresh rrd) acts ↔
      Run.Always Feed.step (Feed.atWrite (Undisturbed rrd.wellFormed)) (.fresh rrd) acts) ∧
    (Run.Always Feed.step (Feed.atWrite (Undisturbed rrd.wellFormed)) (.fresh rrd) acts →
      ∃ c', (Feed.fresh rrd).run (acts.map (·.only rrd.wellFormed)) = some c' ∧ c'.rrd = c.rrd) := by
  have hiff : Run.Always Feed.step (Feed.atWrite (SameAsWithout rrd.wellFormed)) (.fresh rrd) acts ↔
      Run.Always Feed.step (Feed.atWrite (Undisturbed rrd.wellFormed)) (.fresh rrd) acts :=
    Run.always_congr fun c a => (atWrite_sameAsWithout_iff c a).symm
  refine ⟨hiff, fun hok => ?_⟩
  obtain ⟨c', hrun', h⟩ := Feed.Follows.run ⟨rfl, rfl, le_refl _⟩ hrun (hiff.2 hok)
  exact ⟨c', hrun', h.rrd⟩

/-- A request each of two clients, and the write. -/
def twoRequests (v w : Text) : List FeedAct := [.update [v], .update [w], .write .idle]

/-- A value with the wrong number of readings behind the well-formed ones does no harm. -/
theorem run_undisturbed_iff_last_value :
    ∃ c, (Feed.fresh gaugeFile).run
        (twoRequests "1010:1".toList "1020:2:3".toList) = some c ∧
      ∃ c', (Feed.fresh gaugeFile).run
          ((twoRequests "1010:1".toList "1020:2:3".toList).map
            (·.only gaugeFile.wellFormed)) = some c' ∧ c'.rrd = c.rrd := by
  refine Outcome.exists_of_isSome (by decide +kernel) fun c hc => ?_
  refine (run_undisturbed_iff hc).2 ⟨trivial, fun c₁ h₁ => ⟨trivial, fun c₂ h₂ => ⟨?_, ?_⟩⟩⟩
  · obtain ⟨hr₁, hc₁⟩ := Feed.step_update h₁
    obtain ⟨hr₂, hc₂⟩ := Feed.step_update h₂
    show Undisturbed gaugeFile.wellFormed .idle c₂.rrd c₂.cached
    rw [hr₂, hc₂, hr₁, hc₁]
    show Undisturbed gaugeFile.wellFormed .idle gaugeFile ["1010:1".toList, "1020:2:3".toList]
    have htake : ["1010:1".toList, "1020:2:3".toList].takeWhile gaugeFile.wellFormed =
        ["1010:1".toList] := by decide +kernel
    have hdrop : ["1010:1".toList, "1020:2:3".toList].dropWhile gaugeFile.wellFormed =
        ["1020:2:3".toList] := by decide +kernel
    simp only [Undisturbed, htake, hdrop]
    have hfacts : (updateArgs .idle gaugeFile.defaultTemplate false gaugeFile ["1010:1".toList]).1.dsCnt
          = 1 ∧ ∀ accs ∈ (updateArgs .idle gaugeFile.defaultTemplate false gaugeFile
            ["1010:1".toList]).2.toOption, accs.any (·.phases.any (·.scheduleSmooth)) = false := by
      decide +kernel
    obtain ⟨hcnt, hdue⟩ := hfacts
    split
    · trivial
    · rename_i rrd' accs heq
      rw [heq] at hcnt hdue
      have hform : (parseDs rrd'.dsCnt gaugeFile.defaultTemplate "1020:2:3".toList).isOk = false := by
        rw [hcnt]
        decide +kernel
      exact harmless_of_form hform rfl (hdue accs rfl)
  · intro c₃ _
    exact trivial

/-- The value for 1010 is malformed, and that for 1020, of another client, is lost. -/
theorem malformed_value_discards_next :
    ∃ c c', (Feed.fresh gaugeFile).run
        (twoRequests "1010:x".toList "1020:2".toList) = some c ∧
      (Feed.fresh gaugeFile).run
        ((twoRequests "1010:x".toList "1020:2".toList).map
          (·.only gaugeFile.wellFormed)) = some c' ∧
      gaugeFile.wellFormed "1010:x".toList = false ∧ gaugeFile.wellFormed "1020:2".toList = true ∧
      c.rrd.lastUp = 1000 ∧ c'.rrd.lastUp = 1020 ∧ c'.rrd ≠ c.rrd := by
  have hrun : ((Feed.fresh gaugeFile).run
      (twoRequests "1010:x".toList "1020:2".toList)).map (·.rrd.lastUp) =
        some 1000 := by decide +kernel
  have hrun' : ((Feed.fresh gaugeFile).run
      ((twoRequests "1010:x".toList "1020:2".toList).map
        (·.only gaugeFile.wellFormed))).map (·.rrd.lastUp) = some 1020 := by decide +kernel
  obtain ⟨c, hc, hlast⟩ := Option.map_eq_some_iff.1 hrun
  obtain ⟨c', hc', hlast'⟩ := Option.map_eq_some_iff.1 hrun'
  refine ⟨c, c', hc, hc', by decide +kernel, by decide +kernel, hlast, hlast', fun heq => ?_⟩
  rw [heq, hlast] at hlast'
  cases hlast'

end Rrdtool
