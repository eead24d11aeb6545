import Rrdtool.Daemon.File
import Rrdtool.Daemon.Stamp
import Rrdtool.Create

/-!
# The values of a file

Where the accepted values of a file are: in a batch before its `rrd_update_r`, in the cache item,
handed to `rrd_update_r`, or forgotten. `run_ledger` says that in every run, whatever the
interleaving, each of them is in exactly one of these places, and that values are numbered in the
order in which they were accepted.
-/

namespace Rrdtool

/-- The values of the batches that are not written yet. -/
@[grind] def detachedOf (batches : List Batch) : List Value :=
  (batches.filter (·.phase = .detached)).flatMap (·.values)

section

variable {f : Text} {vs : List Value} {bs bs' : List Batch}

@[simp] lemma detachedOf_append : detachedOf (bs ++ bs') = detachedOf bs ++ detachedOf bs' := by
  simp [detachedOf]

@[simp] lemma detachedOf_detached : detachedOf (⟨f, vs, .detached⟩ :: bs) = vs ++ detachedOf bs := by
  simp [detachedOf]

@[simp] lemma detachedOf_updated : detachedOf (⟨f, vs, .updated⟩ :: bs) = detachedOf bs := by
  simp [detachedOf]

@[simp] lemma detachedOf_journaled : detachedOf (⟨f, vs, .journaled⟩ :: bs) = detachedOf bs := by
  simp [detachedOf]

@[simp] lemma detachedOf_nil : detachedOf [] = [] := rfl

end

namespace FileState

/-- The values in the cache item. -/
@[grind] def cached (s : FileState) : List Value :=
  match s.item with
  | none => []
  | some (_, vs) => vs

/-- The values in batches that are not written yet. -/
@[grind] def detached (s : FileState) : List Value := detachedOf s.batches

/-- The values that are not written yet, in the order of the batches. -/
@[grind] def pending (s : FileState) : List Value := s.detached ++ s.cached

/-- The values handed to `rrd_update_r`, in this order. -/
@[grind] def handed (s : FileState) : List Value := s.handovers.flatMap Handover.values

structure Ledger (s : FileState) : Prop where
  perm : s.accepted.Perm (s.handed ++ s.pending ++ s.forgotten)
  increasing : s.accepted.Pairwise (·.id < ·.id)
  bound : ∀ v ∈ s.accepted, v.id < s.total

@[simp] lemma cached_of_none {s : FileState} (h : s.item = none) : s.cached = [] := by
  rw [cached, h]

@[simp] lemma cached_of_some {s : FileState} {q vs} (h : s.item = some (q, vs)) : s.cached = vs := by
  rw [cached, h]

end FileState

open FileState

/-! ### Steps -/

lemma numbered_lt (base : ℕ) (taken : List Text) :
    (Daemon.numbered base taken).Pairwise (·.id < ·.id) ∧
      ∀ v ∈ Daemon.numbered base taken, base ≤ v.id ∧ v.id < base + taken.length := by
  have hid := Daemon.numbered_id base taken
  constructor
  · have : ((Daemon.numbered base taken).map (·.id)).Pairwise (· < ·) := by
      rw [hid]
      exact List.pairwise_lt_range'
    exact List.pairwise_map.1 this
  · intro v hv
    have : v.id ∈ (Daemon.numbered base taken).map (·.id) := List.mem_map.2 ⟨v, hv, rfl⟩
    rw [hid] at this
    exact List.mem_range'_1.1 this

lemma FileState.pending_take {s : FileState} {f stamp values} :
    (s.take f stamp s.cached values).pending =
      s.pending ++ Daemon.numbered s.total (Daemon.takeValues stamp values).1 :=
  (List.append_assoc _ _ _).symm

lemma FileState.Ledger.mem_accepted {s : FileState} (h : s.Ledger) {v : Value}
    (hv : v ∈ s.handed ++ s.pending) : v ∈ s.accepted :=
  h.perm.mem_iff.2 (List.mem_append_left _ hv)

/-- Taking values, with an item that holds `vs`. -/
lemma Ledger.take {s : FileState} {f stamp values} (h : s.Ledger) :
    (s.take f stamp s.cached values).Ledger := by
  obtain ⟨hinc, hnew⟩ := numbered_lt s.total (Daemon.takeValues stamp values).1
  refine ⟨?_, ?_, ?_⟩
  · have hperm := List.perm_iff_count.1 h.perm
    refine List.perm_iff_count.2 fun v => ?_
    have hv := hperm v
    simp only [pending, detached, handed, FileState.take, record, cached, List.count_append] at hv ⊢
    omega
  · refine List.pairwise_append.2 ⟨h.increasing, hinc, fun v hv w hw => ?_⟩
    exact lt_of_lt_of_le (h.bound v hv) (hnew w hw).1
  · intro v hv
    obtain hv | hv := List.mem_append.1 hv
    · exact Nat.lt_add_right _ (h.bound v hv)
    · exact (hnew v hv).2

theorem FileStep.ledger {cfg d f s a s'} (h : FileStep cfg d f s a s') (hs : s.Ledger) :
    s'.Ledger := by
  obtain ⟨hperm, hinc, hbound⟩ := hs
  have hitem : ∀ {q vs}, s.item = some (q, vs) →
      s.accepted.Perm (s.handed ++ (detachedOf s.batches ++ vs) ++ s.forgotten) := by
    intro q vs item
    rw [pending, cached_of_some item] at hperm
    exact hperm
  cases h with
  | other le => exact ⟨hperm, hinc, fun v hv => lt_of_lt_of_le (hbound v hv) le⟩
  | take item _ =>
    rw [← cached_of_some item]
    exact Ledger.take ⟨hperm, hinc, hbound⟩
  | createTake item _ =>
    rw [← cached_of_none item]
    exact Ledger.take ⟨hperm, hinc, hbound⟩
  | create item _ =>
    rw [pending, cached_of_none item] at hperm
    exact ⟨hperm, hinc, hbound⟩
  | drop item _ _ _ => exact ⟨hitem item, hinc, hbound⟩
  | @forget _ _ vs item =>
    refine ⟨(hitem item).trans (List.perm_iff_count.2 fun v => ?_), hinc, hbound⟩
    show _ = List.count v (s.handed ++ (detachedOf s.batches ++ []) ++ (s.forgotten ++ vs))
    simp only [List.count_append, List.count_nil]
    omega
  | @detach _ _ _ vs item _ =>
    refine ⟨?_, hinc, hbound⟩
    show s.accepted.Perm (s.handed ++ (detachedOf (s.batches ++ [⟨f, vs, .detached⟩]) ++ []) ++ _)
    simpa using hitem item
  | @write _ _ pre vs post _ _ _ batches _ _ =>
    refine ⟨hperm.trans (List.perm_iff_count.2 fun v => ?_), hinc, hbound⟩
    show List.count v (s.handed ++ (detachedOf s.batches ++ s.cached) ++ s.forgotten) =
      List.count v ((s.handovers ++ [_]).flatMap Handover.values ++
        (detachedOf (pre ++ ⟨f, vs, .updated⟩ :: post) ++ s.cached) ++ s.forgotten)
    simp only [batches, handed, detachedOf_append, detachedOf_detached, detachedOf_updated,
      List.flatMap_append, List.flatMap_cons, List.flatMap_nil, List.count_append, List.append_nil]
    omega
  | @wroteRecord _ pre vs post batches =>
    refine ⟨?_, hinc, hbound⟩
    show s.accepted.Perm
      (s.handed ++ (detachedOf (pre ++ ⟨f, vs, .journaled⟩ :: post) ++ s.cached) ++ s.forgotten)
    simpa [pending, detached, batches] using hperm
  | @finish _ pre vs post batches =>
    have hperm : s.accepted.Perm (s.handed ++ (detachedOf (pre ++ post) ++ s.cached) ++ s.forgotten) := by
      simpa [pending, detached, batches] using hperm
    split
    · exact ⟨hperm, hinc, hbound⟩
    · exact ⟨hperm, hinc, hbound⟩
  | _ => exact ⟨hperm, hinc, hbound⟩

/-! ### Runs -/

namespace Daemon

variable {cfg : Config}

/-- What every step preserves of the state of each file, every run preserves. -/
lemma run_fileState {Inv : FileState → Prop}
    (hstep : ∀ {d f s a s'}, FileStep cfg d f s a s' → Inv s → Inv s') {d d' : Daemon} {acts}
    (hrun : d.run cfg acts = some d') (hd : ∀ f, Inv (d.fileState f)) (f : Text) :
    Inv (d'.fileState f) :=
  Run.run_inv (fun d => ∀ f, Inv (d.fileState f))
    (fun _ _ _ hs h f => hstep (step_fileStep h f) (hs f)) hrun hd f

/-- What every conforming step preserves of the state of each file, every conforming run preserves. -/
lemma run_fileState_of (Inv : FileState → Prop) {ok : Daemon → Act → Prop}
    (hstep : ∀ {d f a s'}, FileStep cfg d f (d.fileState f) a s' → ok d a → Inv (d.fileState f) →
      Inv s')
    {d d' : Daemon} {acts} (hrun : d.run cfg acts = some d')
    (hok : Run.Always (step cfg) ok d acts) (hd : ∀ f, Inv (d.fileState f)) (f : Text) :
    Inv (d'.fileState f) :=
  Run.run_inv_of (fun d => ∀ f, Inv (d.fileState f))
    (fun _ _ _ hs ha h f => hstep (step_fileStep h f) ha (hs f)) hrun hok hd f

end Daemon

/-! ### Batches on their way -/

/-- No batch of the file is on its way to `rrd_update_r`. -/
def Daemon.settled (d : Daemon) (file : Text) : Prop :=
  ∀ b ∈ d.active, b.file = file → b.phase ≠ .detached

instance (d : Daemon) (file : Text) : Decidable (d.settled file) :=
  inferInstanceAs (Decidable (∀ b ∈ d.active, _))

lemma Daemon.settled.batches {d : Daemon} {f} (h : d.settled f) :
    (d.fileState f).batches.filter (·.phase = .detached) = [] := by
  refine List.filter_eq_nil_iff.2 fun b hb => ?_
  obtain ⟨hb, hf⟩ := List.mem_filter.1 hb
  simpa using h b hb (of_decide_eq_true hf)

/-- At most one batch of the file is on its way. -/
@[grind] def FileState.Single (s : FileState) : Prop :=
  (s.batches.filter (·.phase = .detached)).length ≤ 1

/-- Around the only batch on its way there is no other. -/
lemma FileState.Single.around {s : FileState} {pre post f vs} (h : s.Single)
    (batches : s.batches = pre ++ ⟨f, vs, .detached⟩ :: post) :
    detachedOf pre = [] ∧ detachedOf post = [] := by
  have hlen : (pre.filter (·.phase = .detached)).length +
      (post.filter (·.phase = .detached)).length = 0 := by
    rw [Single, batches] at h
    simp at h
    omega
  constructor
  · rw [detachedOf, List.length_eq_zero_iff.1 (Nat.eq_zero_of_add_eq_zero hlen).1, List.flatMap_nil]
  · rw [detachedOf, List.length_eq_zero_iff.1 (Nat.eq_zero_of_add_eq_zero hlen).2, List.flatMap_nil]

/-- Batches of a file are taken one after the other. -/
theorem FileStep.single {cfg d f a s'} (h : FileStep cfg d f (d.fileState f) a s')
    (htakes : ∀ file ∈ d.takes a, d.settled file) (hs : (d.fileState f).Single) : s'.Single := by
  cases h with
  | detach item acts =>
    show ((_ ++ [_] : List Batch).filter _).length ≤ 1
    rw [List.filter_append, (htakes f acts).batches]
    simp
  | write _ batches _ _ =>
    rw [Single, batches] at hs
    rw [Single]
    simp at hs ⊢
    omega
  | wroteRecord batches =>
    rw [Single, batches] at hs
    simpa [Single] using hs
  | finish batches =>
    rw [Single, batches] at hs
    split
    · simpa [Single] using hs
    · simpa [Single, wakeAll] using hs
  | _ => exact hs

namespace Daemon

lemma init_single {fas files} (f : Text) : ((Daemon.init cfg fas files).fileState f).Single :=
  Nat.zero_le 1

lemma init_ledger {fas files} (f : Text) : ((Daemon.init cfg fas files).fileState f).Ledger :=
  ⟨.refl _, .nil, by simp [Daemon.init, fileState, valuesOf]⟩

/-- In every run each accepted value is in exactly one place. -/
theorem run_ledger {fas files d acts} (hrun : (Daemon.init cfg fas files).run cfg acts = some d)
    (f : Text) : (d.fileState f).Ledger :=
  run_fileState FileStep.ledger hrun init_ledger f

end Daemon

/-! ### A small daemon -/

/-- Two queue threads and a journal. -/
def Config.twoThreads : Config where
  writeInterval := 300
  writeJitter := 0
  flushInterval := 3600
  queueThreads := 2
  journalDir := true

/-- Every file holds one `GAUGE`, last updated at 1000. -/
def gaugeFiles (_ : Text) : Option Rrd :=
  some (rrdInitData (gaugeHeader 10 60 tenSeconds_pos) fun _ => 0)

/-- The first `UPDATE` of a file, up to its answer. -/
def firstUpdate (client : ℕ) (file : Text) (values : List Text) : List Act :=
  [.update client file values 0, .openFile client true, .insert client 0 0]

end Rrdtool
