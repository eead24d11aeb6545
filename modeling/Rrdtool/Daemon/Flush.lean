import Rrdtool.Daemon.Ledger
import Rrdtool.Lib.Outcome

/-!
# `FLUSH`

`flush_file` puts the item of a file at the head of the queue and waits for one broadcast on it. It
does not look again: any broadcast ends the wait, also one for a batch that was taken before, and
when the item holds no value it does not wait at all, even if a batch is on its way
(`flush_returns_before_write`).

`Waits` is what holds of the waiting clients as long as `flush_file` is not called while a batch of
the file is in flight, and batches of a file are not in flight together (`flushesAlone`). Then every
value accepted before the call is written when it returns.
-/

namespace Rrdtool

open FileState

/-- No queue thread has a batch of the file. -/
def Daemon.idle (d : Daemon) (file : Text) : Prop := ∀ b ∈ d.active, b.file ≠ file

instance (d : Daemon) (file : Text) : Decidable (d.idle file) :=
  inferInstanceAs (Decidable (∀ b ∈ d.active, _))

/-- A batch of a file is taken, and its item is removed, only when no other batch of it is on its
way; `flush_file` does not wait while a batch of the file is in flight, and does not return at once
while one is on its way; no wait ends without a broadcast. -/
def flushesAlone (cfg : Config) (d : Daemon) (a : Act) : Prop :=
  (∀ file ∈ d.takes a, d.settled file) ∧
    (∀ now ∈ a.clock, ∀ b ∈ d.active, b.phase = .detached →
      ∀ ci ∈ d.tree b.file, ci.values = [] → now - ci.lastFlushTime < cfg.flushInterval) ∧
    match a with
    | .flush _ file => ∀ ci ∈ d.tree file, ci.suspended = false →
      if ci.values = [] then d.settled file else d.idle file
    | .forget _ file => d.settled file
    | .spuriousWakeup _ => False
    | _ => True

instance (cfg : Config) (d : Daemon) (a : Act) : Decidable (flushesAlone cfg d a) := by
  unfold flushesAlone
  cases a <;> infer_instance

/-- The file that `flush_file` returns 0 for in this step, if it was not suspended, and the number of
values accepted before the call. -/
@[grind] def Daemon.flushReturns (d : Daemon) : Act → Option (Text × ℕ)
  | .flush client file =>
    match d.requests client, d.tree file with
    | none, some ci =>
      if ci.values = [] ∧ ci.suspended = false then some (file, d.accepted.length) else none
    | _, _ => none
  | .flushReturn client =>
    match d.requests client with
    | some (.woken file seen) => some (file, seen)
    | _ => none
  | _ => none

/-- When `flush_file` returns in this step, every value accepted before the call has been handed to
`rrd_update_r`, which has returned, or was forgotten. -/
def FlushComplete (d : Daemon) (a : Act) : Prop :=
  ∀ p ∈ d.flushReturns a, ∀ v ∈ (d.fileState p.1).accepted, v.id < p.2 →
    v ∈ (d.fileState p.1).handed ∨ v ∈ (d.fileState p.1).forgotten

instance (d : Daemon) (a : Act) : Decidable (FlushComplete d a) :=
  inferInstanceAs (Decidable (∀ p ∈ d.flushReturns a, _))

/-- The clients that wait for a file. Once a batch is taken, it holds what they wait for; once it is
written, nothing they wait for is left. -/
structure FileState.Waits (s : FileState) : Prop where
  before : ∀ c b n, s.waiters c = some (b, n) → n ≤ s.total
  gone : s.item = none → ∀ c n, s.waiters c ≠ some (false, n)
  taken : s.batches ≠ [] → ∀ c n, s.waiters c = some (false, n) → ∀ v ∈ s.cached, n ≤ v.id
  written : (∃ b ∈ s.batches, b.phase ≠ .detached) →
    ∀ c n, s.waiters c = some (false, n) → ∀ v ∈ s.pending, n ≤ v.id
  woken : ∀ c n, s.waiters c = some (true, n) → ∀ v ∈ s.pending, n ≤ v.id

/-! ### Steps -/

lemma Daemon.settled.pending {d : Daemon} {f} (h : d.settled f)
    (hc : (d.fileState f).cached = []) : (d.fileState f).pending = [] := by
  rw [FileState.pending, hc, detached, detachedOf, h.batches]
  rfl

lemma Daemon.idle.batches {d : Daemon} {f} (h : d.idle f) : (d.fileState f).batches = [] := by
  refine List.filter_eq_nil_iff.2 fun b hb => ?_
  simpa using h b hb

/-- Values accepted later are not waited for. -/
lemma FileState.Waits.take {s : FileState} {f stamp values} (h : s.Waits) :
    (s.take f stamp s.cached values).Waits := by
  have hnew : ∀ {c b n}, s.waiters c = some (b, n) →
      ∀ v ∈ Daemon.numbered s.total (Daemon.takeValues stamp values).1, n ≤ v.id :=
    fun hc v hv => (h.before _ _ _ hc).trans ((numbered_lt s.total _).2 v hv).1
  refine ⟨fun c b n hc => (h.before c b n hc).trans (Nat.le_add_right _ _), by rintro ⟨⟩, ?_, ?_, ?_⟩
  · intro hb c n hc v hv
    rcases List.mem_append.1 hv with hv | hv
    · exact h.taken hb c n hc v hv
    · exact hnew hc v hv
  · rw [pending_take]
    intro hb c n hc v hv
    rcases List.mem_append.1 hv with hv | hv
    · exact h.written hb c n hc v hv
    · exact hnew hc v hv
  · rw [pending_take]
    intro c n hc v hv
    rcases List.mem_append.1 hv with hv | hv
    · exact h.woken c n hc v hv
    · exact hnew hc v hv

/-- The item is removed while nothing is pending behind it. -/
lemma FileState.Waits.remove {s : FileState} {forgotten} (h : s.Waits) (hd : s.detached = []) :
    FileState.Waits { s with item := none, forgotten := forgotten }.wakeAll := by
  have hall : ∀ {c n}, (s.waiters c).map (fun p => (true, p.2)) ≠ some (false, n) := by
    intro c n hc
    obtain ⟨p, -, hp⟩ := Option.map_eq_some_iff.1 hc
    cases hp
  refine ⟨?_, fun _ c n hc => hall hc, fun _ c n hc => absurd hc hall, fun _ c n hc => absurd hc hall,
    ?_⟩
  · intro c b n hc
    obtain ⟨p, hp, heq⟩ := Option.map_eq_some_iff.1 hc
    cases heq
    exact h.before c p.1 p.2 hp
  · intro c n _ v hv
    replace hv : v ∈ s.detached ++ [] := hv
    rw [hd] at hv
    cases hv

/-- The values are taken out of the item. -/
lemma FileState.Waits.detach {s : FileState} {f stamp vs} (h : s.Waits)
    (item : s.item = some (stamp, vs)) :
    FileState.Waits
      { s with item := some (stamp, []), batches := s.batches ++ [⟨f, vs, .detached⟩] } := by
  have hpending : ∀ {v}, v ∈ detachedOf (s.batches ++ [⟨f, vs, .detached⟩]) ++ [] →
      v ∈ s.pending := by
    intro v hv
    simpa [pending, detached, cached_of_some item] using hv
  refine ⟨h.before, by rintro ⟨⟩, fun _ c n _ v hv => absurd hv (List.not_mem_nil), ?_, ?_⟩
  · rintro ⟨b, hb, hphase⟩ c n hc v hv
    rcases List.mem_append.1 hb with hb | hb
    · exact h.written ⟨b, hb, hphase⟩ c n hc v (hpending hv)
    · rw [List.mem_singleton.1 hb] at hphase
      exact absurd rfl hphase
  · exact fun c n hc v hv => h.woken c n hc v (hpending hv)

/-- The only batch on its way is written. -/
lemma FileState.Waits.write {s : FileState} {f pre vs post rrd handovers} (h : s.Waits)
    (single : s.Single) (batches : s.batches = pre ++ ⟨f, vs, .detached⟩ :: post) :
    FileState.Waits
      { s with batches := pre ++ ⟨f, vs, .updated⟩ :: post, rrd := rrd, handovers := handovers } := by
  obtain ⟨hpre, hpost⟩ := single.around batches
  have hcached : ∀ {v}, v ∈ detachedOf (pre ++ ⟨f, vs, .updated⟩ :: post) ++ s.cached →
      v ∈ s.cached := by
    intro v hv
    simpa [hpre, hpost] using hv
  have hne : s.batches ≠ [] := by
    rw [batches]
    simp
  refine ⟨h.before, h.gone, fun _ => h.taken hne, fun _ c n hc v hv => ?_, fun c n hc v hv => ?_⟩
  · exact h.taken hne c n hc v (hcached hv)
  · exact h.woken c n hc v (List.mem_append_right _ (hcached hv))

/-- A batch that is written is done with. -/
lemma FileState.Waits.finish {s : FileState} {f pre vs post} (h : s.Waits)
    (batches : s.batches = pre ++ ⟨f, vs, .journaled⟩ :: post) :
    FileState.Waits (if s.item = none then { s with batches := pre ++ post }
      else { s with batches := pre ++ post }.wakeAll) := by
  have hpending : ∀ {v}, v ∈ detachedOf (pre ++ post) ++ s.cached → v ∈ s.pending := by
    intro v hv
    simpa [pending, detached, batches] using hv
  have hall : ∀ {c n}, (s.waiters c).map (fun p => (true, p.2)) ≠ some (false, n) := by
    intro c n hc
    obtain ⟨p, -, hp⟩ := Option.map_eq_some_iff.1 hc
    cases hp
  split
  · rename_i hitem
    have hnone := h.gone hitem
    exact ⟨h.before, h.gone, fun _ c n hc => absurd hc (hnone c n),
      fun _ c n hc => absurd hc (hnone c n), fun c n hc v hv => h.woken c n hc v (hpending hv)⟩
  · refine ⟨?_, fun _ c n hc => hall hc, fun _ c n hc => absurd hc hall,
      fun _ c n hc => absurd hc hall, ?_⟩
    · intro c b n hc
      obtain ⟨p, hp, heq⟩ := Option.map_eq_some_iff.1 hc
      cases heq
      exact h.before c p.1 p.2 hp
    · intro c n hc v hv
      obtain ⟨⟨b, m⟩, hp, heq⟩ := Option.map_eq_some_iff.1 hc
      cases heq
      cases b with
      | true => exact h.woken c m hp v (hpending hv)
      | false =>
        refine h.written ⟨⟨f, vs, .journaled⟩, ?_, by simp⟩ c m hp v (hpending hv)
        rw [batches]
        exact List.mem_append_right _ (.head _)

/-- What is known of a file as long as `flushesAlone` holds. -/
structure FileState.Flushing (s : FileState) : Prop where
  ledger : s.Ledger
  single : s.Single
  waits : s.Waits

theorem FileStep.waits {cfg d f a s'} (h : FileStep cfg d f (d.fileState f) a s')
    (hok : flushesAlone cfg d a) (hs : (d.fileState f).Flushing) : s'.Waits := by
  obtain ⟨-, hsingle, hw⟩ := hs
  obtain ⟨-, hclock, hact⟩ := hok
  cases h with
  | other le =>
    exact ⟨fun c b n hc => (hw.before c b n hc).trans le, hw.gone, hw.taken, hw.written, hw.woken⟩
  | take item _ =>
    rw [← cached_of_some item]
    exact hw.take
  | createTake item _ =>
    rw [← cached_of_none item]
    exact hw.take
  | create item _ =>
    have hnone := hw.gone item
    refine ⟨hw.before, by rintro ⟨⟩, fun _ c n hc => absurd hc (hnone c n),
      fun _ c n hc => absurd hc (hnone c n), ?_⟩
    have hwoken := hw.woken
    rw [pending, cached_of_none item] at hwoken
    exact hwoken
  | drop item acts tree late =>
    have hsettled : d.settled f := by
      intro b hb hf hphase
      subst hf
      rw [Daemon.item_of_tree tree] at item
      have hvalues := (Prod.mk.inj (Option.some.inj item)).2
      exact absurd (hclock _ acts b hb hphase _ tree hvalues) (not_lt.2 late)
    refine hw.remove ?_
    rw [detached, detachedOf, hsettled.batches]
    rfl
  | forget item =>
    refine hw.remove ?_
    rw [detached, detachedOf, Daemon.settled.batches hact]
    rfl
  | detach item _ => exact hw.detach item
  | write _ batches _ _ => exact hw.write hsingle batches
  | @wroteRecord _ pre vs post batches =>
    have hne : (d.fileState f).batches ≠ [] := by
      rw [batches]
      simp
    have hwritten : ∃ b ∈ (d.fileState f).batches, b.phase ≠ .detached := by
      rw [batches]
      exact ⟨_, List.mem_append_right _ (.head _), by simp⟩
    have hpending : ∀ {v}, v ∈ detachedOf (pre ++ ⟨f, vs, .journaled⟩ :: post) ++
        (d.fileState f).cached → v ∈ (d.fileState f).pending := by
      intro v hv
      simpa [pending, detached, batches] using hv
    exact ⟨hw.before, hw.gone, fun _ => hw.taken hne,
      fun _ c n hc v hv => hw.written hwritten c n hc v (hpending hv),
      fun c n hc v hv => hw.woken c n hc v (hpending hv)⟩
  | finish batches => exact hw.finish batches
  | @wait client ci tree values awake free =>
    have hidle : d.idle f := by
      have := hact ci tree awake
      rwa [if_neg values] at this
    have hnil := hidle.batches
    -- the new client is the only one that is concerned, and there is no batch
    have hold : ∀ {c b n}, Function.update (d.fileState f).waiters client
        (some (false, (d.fileState f).total)) c = some (b, n) →
          (d.fileState f).waiters c = some (b, n) ∨ (b = false ∧ n = (d.fileState f).total) := by
      intro c b n hc
      rw [Function.update_apply] at hc
      split at hc
      · cases hc
        exact .inr ⟨rfl, rfl⟩
      · exact .inl hc
    refine ⟨?_, ?_, fun hb => absurd hnil hb, ?_, ?_⟩
    · intro c b n hc
      rcases hold hc with hc | ⟨-, rfl⟩
      · exact hw.before c b n hc
      · exact le_refl _
    · intro item
      cases (Daemon.item_of_tree tree).symm.trans item
    · rintro ⟨b, hb, -⟩
      rw [show FileState.batches _ = [] from hnil] at hb
      cases hb
    · intro c n hc
      rcases hold hc with hc | ⟨h, -⟩
      · exact hw.woken c n hc
      · cases h
  | @flushReturn client seen acts =>
    have hold : ∀ {c p}, Function.update (d.fileState f).waiters client none c = some p →
        (d.fileState f).waiters c = some p := by
      intro c p hc
      rw [Function.update_apply] at hc
      split at hc
      · cases hc
      · exact hc
    exact ⟨fun c b n hc => hw.before c b n (hold hc), fun hi c n hc => hw.gone hi c n (hold hc),
      fun hb c n hc => hw.taken hb c n (hold hc), fun hb c n hc => hw.written hb c n (hold hc),
      fun c n hc => hw.woken c n (hold hc)⟩
  | spurious acts => exact hact.elim
  | _ => exact ⟨hw.before, hw.gone, hw.taken, hw.written, hw.woken⟩

/-! ### Runs -/

/-- What has been accepted and is not pending is written or forgotten. -/
lemma FileState.Ledger.done {s : FileState} (h : s.Ledger) {v : Value} (hv : v ∈ s.accepted)
    (hp : v ∉ s.pending) : v ∈ s.handed ∨ v ∈ s.forgotten := by
  have hmem := h.perm.mem_iff.1 hv
  rw [List.mem_append, List.mem_append] at hmem
  tauto

lemma waiterOf_woken {file : Text} {seen : ℕ} :
    waiterOf file (some (.woken file seen)) = some (true, seen) := by
  simp [waiterOf]

lemma flushComplete_of_inv {cfg d a} (h : ∀ f, (d.fileState f).Flushing)
    (hok : flushesAlone cfg d a) : FlushComplete d a := by
  obtain ⟨-, -, hact⟩ := hok
  rintro ⟨f, n⟩ hret v hv hlt
  refine (h f).ledger.done hv fun hp => ?_
  cases a with
  | flush client file =>
    simp only [Daemon.flushReturns] at hret
    split at hret
    · rename_i ci hreq htree
      split at hret
      · rename_i hci
        cases hret
        have hsettled := hact ci htree hci.2
        rw [if_pos hci.1] at hsettled
        rw [hsettled.pending ((cached_of_some (Daemon.item_of_tree htree)).trans hci.1)] at hp
        cases hp
      · cases hret
    · cases hret
  | flushReturn client =>
    simp only [Daemon.flushReturns] at hret
    split at hret
    · rename_i hreq
      cases hret
      have hwoken : (d.fileState f).waiters client = some (true, n) := by
        simp only [Daemon.fileState, hreq, waiterOf_woken]
      exact absurd hlt (not_lt.2 ((h f).waits.woken client n hwoken v hp))
    · cases hret
  | _ => cases hret

lemma init_flushing {cfg fas files} (f : Text) :
    ((Daemon.init cfg fas files).fileState f).Flushing := by
  refine ⟨Daemon.init_ledger f, Daemon.init_single f, ?_, ?_, ?_, ?_, ?_⟩
  all_goals simp [Daemon.init, Daemon.fileState, waiterOf]

/-- In every run in which `flush_file` and the batches of a file do not meet, every return of
`flush_file` is complete. -/
theorem run_flushComplete {cfg fas files acts}
    (hok : Run.Always (Daemon.step cfg) (flushesAlone cfg) (Daemon.init cfg fas files) acts) :
    Run.Always (Daemon.step cfg) FlushComplete (Daemon.init cfg fas files) acts := by
  refine Run.always_of_inv (fun d => ∀ f, (d.fileState f).Flushing) ?_
    (fun d a hd ha => flushComplete_of_inv hd ha) hok init_flushing
  intro d a d' hd ha hstep f
  have h := Daemon.step_fileStep hstep f
  exact ⟨h.ledger (hd f).ledger, h.single ha.1 (hd f).single, h.waits ha (hd f)⟩

/-- A client that waits until its batch is written, and one that finds nothing to write. -/
theorem run_flushComplete_wait :
    Run.Always (Daemon.step .twoThreads) FlushComplete (Daemon.init .twoThreads false gaugeFiles)
      (firstUpdate 1 ['a'] ["1010:1".toList] ++
        [.flush 2 ['a'], .dequeue 0 0, .update 3 ['a'] ["1020:2".toList] 0, .write 0 .idle,
          .wroteRecord 0, .finish 0, .flushReturn 2, .flush 4 ['a'], .dequeue 0 0, .write 0 .idle,
          .flush 5 ['a']]) :=
  run_flushComplete (by decide +kernel)

/-- The only value is on its way to the file when `flush_file` is called; the item is empty, and the
call returns before the value is written. -/
theorem flush_returns_before_write :
    ∃ d, (Daemon.init .twoThreads false gaugeFiles).run .twoThreads
        (firstUpdate 1 ['a'] ["1010:1".toList] ++ [.flush 2 ['a'], .dequeue 0 0]) = some d ∧
      d.flushReturns (.flush 3 ['a']) = some (['a'], 1) ∧ (d.fileState ['a']).handed = [] ∧
      ¬ FlushComplete d (.flush 3 ['a']) :=
  Outcome.exists_of_any (by decide +kernel)

end Rrdtool
