import Rrdtool.Daemon.QueueLinks

/-!
# The invariant of the queue

Every critical section of the caching daemon keeps the queue a doubly linked list of items of the tree
that have values, with the flags and the counter in agreement, and meets no fault.
-/

namespace Rrdtool

namespace Queue

open Function

variable {s s' s'' : State} {a : Addr} {i i' : Item} {l : List Addr}

/-! ### The invariant -/

/-- The items are those of the tree, each under its own name, and `values_num` counts the values. -/
structure Treed (s : State) : Prop where
  node : ∀ f n, s.tree f = some n → n.key = n.value ∧ ∃ i, s.heap n.value = some i ∧ i.file = f
  owned : ∀ a i, s.heap a = some i → s.tree i.file = some ⟨a, a⟩
  keys : s.keys.Nodup
  mem_keys : ∀ f, f ∈ s.keys ↔ ∃ n, s.tree f = some n
  values : ∀ a i, s.heap a = some i → i.valuesNum = (i.values.getD []).length

/-- Between two critical sections the queue holds `l`, its items are in the tree and have values. -/
structure QueueInv (s : State) (l : List Addr) : Prop where
  linked : Linked s l
  treed : Treed s
  full : ∀ a ∈ l, ∀ i, s.heap a = some i → 0 < i.valuesNum

lemma Treed.frame (h : Treed s) (hf : Frame s s') : Treed s' := by
  refine ⟨?_, ?_, ?_, ?_, ?_⟩
  · intro f n hn
    rw [hf.tree] at hn
    obtain ⟨hkey, i, hi, hfile⟩ := h.node f n hn
    obtain ⟨i', hi', heq⟩ := hf.item hi
    exact ⟨hkey, i', hi', (core_eq heq).1.trans hfile⟩
  · intro b i' hi'
    obtain ⟨i, hi, heq⟩ := hf.item_of hi'
    rw [hf.tree, (core_eq heq).1]
    exact h.owned b i hi
  · rw [hf.keys]
    exact h.keys
  · intro f
    rw [hf.keys, hf.tree]
    exact h.mem_keys f
  · intro b i' hi'
    obtain ⟨i, hi, heq⟩ := hf.item_of hi'
    rw [(core_eq heq).2.1, (core_eq heq).2.2]
    exact h.values b i hi

/-- The queue has changed, and its items have values. -/
lemma QueueInv.frame {l' : List Addr} (h : QueueInv s l) (hf : Frame s s') (hl : Linked s' l')
    (hfull : ∀ b ∈ l', ∀ j, s.heap b = some j → 0 < j.valuesNum) : QueueInv s' l' := by
  refine ⟨hl, h.treed.frame hf, fun b hb j' hj' => ?_⟩
  obtain ⟨j, hj, heq⟩ := hf.item_of hj'
  rw [(core_eq heq).2.1]
  exact hfull b hb j hj

/-- The data of an item have changed. -/
lemma Treed.store (h : Treed s) (ha : s.heap a = some i) (hfile : i'.file = i.file)
    (hvalues : i'.valuesNum = (i'.values.getD []).length) : Treed (s.store a i') := by
  refine ⟨?_, ?_, h.keys, h.mem_keys, ?_⟩
  · intro f n hn
    obtain ⟨hkey, j, hj, hfj⟩ := h.node f n hn
    by_cases hna : n.value = a
    · refine ⟨hkey, i', by rw [hna, heap_store_self], ?_⟩
      rw [hna, ha] at hj
      cases hj
      exact hfile.trans hfj
    · exact ⟨hkey, j, (heap_store_of_ne hna).trans hj, hfj⟩
  · intro b j hj
    by_cases hb : b = a
    · subst hb
      rw [heap_store_self] at hj
      cases hj
      show s.tree i'.file = some ⟨b, b⟩
      rw [hfile]
      exact h.owned b i ha
    · rw [heap_store_of_ne hb] at hj
      exact h.owned b j hj
  · intro b j hj
    by_cases hb : b = a
    · subst hb
      rw [heap_store_self] at hj
      cases hj
      exact hvalues
    · rw [heap_store_of_ne hb] at hj
      exact h.values b j hj

/-! ### The critical sections -/

/-- An item may be queued on either side. -/
lemma QueueInv.enqueue (h : QueueInv s l) (ha : s.heap a = some i) (side : Side) :
    ∃ s' l', s.enqueueCacheItem a side = .ok s' ∧ QueueInv s' l' ∧ s'.tree = s.tree := by
  have hpos : ∀ {b j}, ¬ i.valuesNum = 0 → b = a → s.heap b = some j → 0 < j.valuesNum := by
    intro b j hnone hb hj
    subst hb
    rw [ha] at hj
    cases hj
    exact Nat.pos_of_ne_zero hnone
  cases side with
  | head =>
    obtain ⟨s', hs', hframe, hl⟩ := enqueueHead_spec h.linked ha
    refine ⟨s', _, hs', h.frame hframe hl ?_, hframe.tree⟩
    intro b hb j hj
    split at hb
    · exact h.full b hb j hj
    · rename_i hnot
      rcases List.mem_cons.1 hb with hb | hb
      · exact hpos (fun h0 => hnot (.inl h0)) hb hj
      · exact h.full b (List.mem_of_mem_erase hb) j hj
  | tail =>
    obtain ⟨s', hs', hframe, hl⟩ := enqueueTail_spec h.linked ha
    refine ⟨s', _, hs', h.frame hframe hl ?_, hframe.tree⟩
    intro b hb j hj
    split at hb
    · exact h.full b hb j hj
    · rename_i hnot
      rcases List.mem_append.1 hb with hb | hb
      · exact h.full b hb j hj
      · exact hpos (fun h0 => hnot (.inl h0)) (List.mem_singleton.1 hb) hj

/-- The values of an item are wiped, and it leaves the queue. -/
lemma QueueInv.wipe (h : QueueInv s l) (ha : s.heap a = some i) (cfg : Config) (now : ℤ)
    (random : ℕ) :
    ∃ s' l', (s.store a (State.wipeCiValues cfg i now random)).removeFromQueue a = .ok s' ∧
      QueueInv s' l' := by
  have hlinked : Linked (s.store a (State.wipeCiValues cfg i now random)) l :=
    h.linked.store ha rfl rfl rfl
  have htreed : Treed (s.store a (State.wipeCiValues cfg i now random)) := h.treed.store ha rfl rfl
  obtain ⟨s', hs', hl, hframe⟩ := removeFromQueue_spec hlinked (heap_store_self _ _ _)
  refine ⟨s', l.erase a, hs', hl, htreed.frame hframe, fun b hb j' hj' => ?_⟩
  obtain ⟨j, hj, heq⟩ := hframe.item_of hj'
  have hba : b ≠ a := fun heq => h.linked.nodup.not_mem_erase (heq ▸ hb)
  rw [heap_store_of_ne hba] at hj
  rw [(core_eq heq).2.1]
  exact h.full b (List.mem_of_mem_erase hb) j hj

/-- An item of the tree is removed and freed. -/
lemma QueueInv.treeRemove {file : Text} {n : TreeNode} (h : QueueInv s l)
    (hn : s.tree file = some n) :
    ∃ s' l', s.treeRemove file = .ok (true, s') ∧ QueueInv s' l' ∧
      s'.tree = update s.tree file none := by
  obtain ⟨-, i, hi, hfile⟩ := h.treed.node file n hn
  have hlinked : Linked { s with keys := s.keys.erase file, tree := update s.tree file none } l :=
    ⟨h.linked.chain, h.linked.back, h.linked.nodup, h.linked.flag, h.linked.live,
      h.linked.unlinked, h.linked.length⟩
  obtain ⟨s₁, hs₁, hl₁, hframe⟩ := @removeFromQueue_spec _ n.value i l hlinked hi
  have htree : s₁.tree = update s.tree file none := hframe.tree
  have hkeys : s₁.keys = s.keys.erase file := hframe.keys
  have hnot : n.value ∉ l.erase n.value := h.linked.nodup.not_mem_erase
  have hitem : ∀ b j', update s₁.heap n.value none b = some j' →
      b ≠ n.value ∧ ∃ j, s.heap b = some j ∧ j'.core = j.core := by
    intro b j' hj'
    by_cases hb : b = n.value
    · rw [hb, update_self] at hj'
      cases hj'
    · rw [update_of_ne hb] at hj'
      exact ⟨hb, hframe.item_of hj'⟩
  refine ⟨{ s₁ with heap := update s₁.heap n.value none }, l.erase n.value, ?_, ⟨hl₁.free hnot, ?_, ?_⟩,
    hframe.tree⟩
  · simp only [State.treeRemove, hn, State.freeCacheItem, hs₁, bind, Except.bind]
  · refine ⟨?_, ?_, ?_, ?_, ?_⟩
    · intro f m hm
      have hm : s₁.tree f = some m := hm
      rw [htree] at hm
      have hf : f ≠ file := by
        rintro rfl
        rw [update_self] at hm
        cases hm
      rw [update_of_ne hf] at hm
      obtain ⟨hkey, j, hj, hfj⟩ := h.treed.node f m hm
      have hne : m.value ≠ n.value := by
        intro heq
        rw [heq, hi] at hj
        cases hj
        exact hf (hfj.symm.trans hfile)
      obtain ⟨j', hj', heq⟩ := hframe.item hj
      exact ⟨hkey, j', (update_of_ne hne _ _).trans hj', (core_eq heq).1.trans hfj⟩
    · intro b j' hj'
      obtain ⟨hb, j, hj, heq⟩ := hitem b j' hj'
      have howned := h.treed.owned b j hj
      have hf : j.file ≠ file := by
        intro heq'
        rw [heq', hn] at howned
        cases howned
        exact hb rfl
      show s₁.tree j'.file = some ⟨b, b⟩
      rw [htree, (core_eq heq).1, update_of_ne hf]
      exact howned
    · show s₁.keys.Nodup
      rw [hkeys]
      exact h.treed.keys.erase _
    · intro f
      show f ∈ s₁.keys ↔ ∃ m, s₁.tree f = some m
      rw [hkeys, htree, h.treed.keys.mem_erase_iff, h.treed.mem_keys]
      by_cases hf : f = file
      · simp [hf]
      · rw [update_of_ne hf]
        simp [hf]
    · intro b j' hj'
      obtain ⟨-, j, hj, heq⟩ := hitem b j' hj'
      rw [(core_eq heq).2.1, (core_eq heq).2.2]
      exact h.treed.values b j hj
  · intro b hb j' hj'
    obtain ⟨-, j, hj, heq⟩ := hitem b j' hj'
    rw [(core_eq heq).2.1]
    exact h.full b (List.mem_of_mem_erase hb) j hj

/-- The data of an item change, and it has no fewer values. -/
lemma QueueInv.store (h : QueueInv s l) (ha : s.heap a = some i) (hprev : i'.prev = i.prev)
    (hnext : i'.next = i.next) (hflag : i'.inQueue = i.inQueue) (hfile : i'.file = i.file)
    (hvalues : i'.valuesNum = (i'.values.getD []).length) (hle : i.valuesNum ≤ i'.valuesNum) :
    QueueInv (s.store a i') l := by
  refine ⟨h.linked.store ha hprev hnext hflag, h.treed.store ha hfile hvalues, fun b hb j hj => ?_⟩
  by_cases hba : b = a
  · subst hba
    rw [heap_store_self] at hj
    cases hj
    exact lt_of_lt_of_le (h.full b hb i ha) hle
  · rw [heap_store_of_ne hba] at hj
    exact h.full b hb j hj

/-- The values of a request are added, and the item is queued if it is due. -/
lemma QueueInv.takeUpdate (h : QueueInv s l) (ha : s.heap a = some i) (cfg : Config)
    (values : List Text) (now : ℤ) (lost : ℕ → Bool) :
    ∃ s' l', s.takeUpdate cfg a values now lost = .ok s' ∧ QueueInv s' l' := by
  have hstore : ∀ last added, QueueInv (s.store a (i.addValues last added)) l := by
    intro last added
    refine h.store ha rfl rfl rfl rfl ?_ (Nat.le_add_right _ _)
    have hcount := h.treed.values a i ha
    show i.valuesNum + added.length = _
    by_cases hadded : added = []
    · simp [Item.addValues, hadded, hcount]
    · simp [Item.addValues, hadded, hcount]
  simp only [State.takeUpdate, deref_eq ha, bind, Except.bind]
  split
  · exact ⟨_, l, rfl, hstore _ _⟩
  · split
    · obtain ⟨s', l', hs', h', -⟩ := (hstore _ _).enqueue (heap_store_self _ _ _) .tail
      exact ⟨s', l', hs', h'⟩
    · exact ⟨_, l, rfl, hstore _ _⟩

/-- A new item enters the tree. -/
lemma QueueInv.insert {file : Text} (h : QueueInv s l) (ha : s.heap a = none)
    (hnone : s.tree file = none) (cfg : Config) (stamp : ℚ) (now : ℤ) (random : ℕ) :
    QueueInv { s.store a (State.newItem cfg file stamp now random) with
      keys := s.keys.orderedInsert (· ≤ ·) file
      tree := update s.tree file (some ⟨a, a⟩) } l := by
  obtain ⟨hin, hl⟩ := @Linked.alloc s a (State.newItem cfg file stamp now random) l h.linked ha rfl rfl
    rfl
  have hnew : file ∉ s.keys := by
    rw [h.treed.mem_keys, hnone]
    rintro ⟨n, hn⟩
    cases hn
  refine ⟨⟨hl.chain, hl.back, hl.nodup, hl.flag, hl.live, hl.unlinked, hl.length⟩,
    ⟨?_, ?_, ?_, ?_, ?_⟩, ?_⟩
  · intro f n hn
    have hn : update s.tree file (some ⟨a, a⟩) f = some n := hn
    by_cases hf : f = file
    · rw [hf, update_self] at hn
      cases hn
      exact ⟨rfl, _, heap_store_self _ _ _, hf.symm⟩
    · rw [update_of_ne hf] at hn
      obtain ⟨hkey, i, hi, hfile⟩ := h.treed.node f n hn
      have hna : n.value ≠ a := by
        intro heq
        rw [heq, ha] at hi
        cases hi
      exact ⟨hkey, i, (heap_store_of_ne hna).trans hi, hfile⟩
  · intro b i hi
    have hi : (s.store a (State.newItem cfg file stamp now random)).heap b = some i := hi
    show update s.tree file (some ⟨a, a⟩) i.file = some ⟨b, b⟩
    by_cases hb : b = a
    · subst hb
      rw [heap_store_self] at hi
      cases hi
      exact update_self _ _ _
    · rw [heap_store_of_ne hb] at hi
      have howned := h.treed.owned b i hi
      have hf : i.file ≠ file := by
        intro heq
        rw [heq, hnone] at howned
        cases howned
      rw [update_of_ne hf]
      exact howned
  · have hperm := List.perm_orderedInsert (· ≤ ·) file s.keys
    exact hperm.nodup_iff.2 (List.nodup_cons.2 ⟨hnew, h.treed.keys⟩)
  · intro f
    show f ∈ s.keys.orderedInsert (· ≤ ·) file ↔ ∃ n, update s.tree file (some ⟨a, a⟩) f = some n
    rw [List.mem_orderedInsert, h.treed.mem_keys]
    by_cases hf : f = file
    · simp [hf]
    · rw [update_of_ne hf]
      simp [hf]
  · intro b i hi
    have hi : (s.store a (State.newItem cfg file stamp now random)).heap b = some i := hi
    by_cases hb : b = a
    · subst hb
      rw [heap_store_self] at hi
      cases hi
      rfl
    · rw [heap_store_of_ne hb] at hi
      exact h.treed.values b i hi
  · intro b hb i hi
    have hba : b ≠ a := fun heq => hin (heq ▸ hb)
    have hi : (s.store a (State.newItem cfg file stamp now random)).heap b = some i := hi
    rw [heap_store_of_ne hba] at hi
    exact h.full b hb i hi

/-- A new item that was not needed is freed. -/
lemma freeCacheItem_new (ha : s.heap a = none) (cfg : Config) (file : Text) (stamp : ℚ)
    (now : ℤ) (random : ℕ) :
    (s.store a (State.newItem cfg file stamp now random)).freeCacheItem a = .ok s := by
  have hflag : (State.newItem cfg file stamp now random).inQueue = false := rfl
  have hremove : (s.store a (State.newItem cfg file stamp now random)).removeFromQueue a =
      .ok (s.store a (State.newItem cfg file stamp now random)) := by
    simp only [State.removeFromQueue, deref_eq (heap_store_self _ _ _), hflag, bind, Except.bind]
    rfl
  simp only [State.freeCacheItem, hremove, bind, Except.bind]
  congr 1
  show { s with heap := update (update s.heap a _) a none } = s
  rw [update_idem, update_eq_self_iff.2 ha.symm]

/-- The suspended flag of an item is set. -/
lemma QueueInv.setSuspended (h : QueueInv s l) (b : Bool) (file : Text) :
    ∃ s', s.setSuspended b file = .ok s' ∧ QueueInv s' l := by
  unfold State.setSuspended
  cases hn : s.tree file with
  | none => exact ⟨s, rfl, h⟩
  | some n =>
    obtain ⟨-, i, hi, -⟩ := h.treed.node file n hn
    refine ⟨s.store n.value { i with suspended := b }, ?_, ?_⟩
    · simp only [deref_eq hi, bind, Except.bind]
    · exact h.store hi rfl rfl rfl rfl (h.treed.values n.value i hi) (le_refl _)

lemma QueueInv.setAllSuspended (h : QueueInv s l) (b : Bool) (keys : List Text) :
    ∃ s' l', keys.foldlM (State.setSuspended b) s = .ok s' ∧ QueueInv s' l' := by
  obtain ⟨s', hs', l', h'⟩ := Run.foldlM_ok (f := State.setSuspended b) (s := s) (l := keys)
    (fun s _ => ∃ l, QueueInv s l) (fun s file _ ⟨l, h⟩ => by
      obtain ⟨s', hs', h'⟩ := h.setSuspended b file
      exact ⟨s', hs', l, h'⟩) ⟨l, h⟩
  exact ⟨s', l', hs', h'⟩

/-- `tree_callback_flush` returns; the tree stays, and a key it collects is the one it was called
for. -/
lemma QueueInv.treeCallbackFlush (h : QueueInv s l) (cfg : Config) (now absTimeout : ℤ)
    (keys : List Text) (file : Text) :
    ∃ s' keys' l', State.treeCallbackFlush cfg now absTimeout (s, keys) file = .ok (s', keys') ∧
      QueueInv s' l' ∧ s'.tree = s.tree ∧ (keys' = keys ∨ keys' = keys ++ [file] ∧
        ∃ n, s.tree file = some n) := by
  unfold State.treeCallbackFlush
  cases hn : s.tree file with
  | none => exact ⟨s, keys, l, rfl, h, rfl, .inl rfl⟩
  | some n =>
    obtain ⟨hkey, i, hi, -⟩ := h.treed.node file n hn
    simp only [deref_eq hi, bind, Except.bind]
    split
    · exact ⟨s, keys, l, rfl, h, rfl, .inl rfl⟩
    · split
      · obtain ⟨s', l', hs', h', htree⟩ := h.enqueue hi .tail
        exact ⟨s', keys, l', by rw [hs'], h', htree, .inl rfl⟩
      · split
        · rw [assert_eq hkey]
          exact ⟨s, keys ++ [file], l, rfl, h, rfl, .inr ⟨rfl, n, rfl⟩⟩
        · exact ⟨s, keys, l, rfl, h, rfl, .inl rfl⟩

/-- The loop of `flush_old_values` over the tree collects keys of the tree, each once. -/
lemma QueueInv.collect (h : QueueInv s l) (cfg : Config) (now absTimeout : ℤ) :
    ∃ s' keys' l', s.keys.foldlM (State.treeCallbackFlush cfg now absTimeout) (s, []) =
        .ok (s', keys') ∧
      QueueInv s' l' ∧ keys'.Nodup ∧ ∀ f ∈ keys', ∃ n, s'.tree f = some n := by
  obtain ⟨⟨s', keys'⟩, hs', ⟨l', h'⟩, hnodup, hkeys⟩ := Run.foldlM_ok
    (f := State.treeCallbackFlush cfg now absTimeout) (s := (s, [])) (l := s.keys)
    (fun p rest => (∃ l, QueueInv p.1 l) ∧ (p.2 ++ rest).Nodup ∧ ∀ f ∈ p.2, ∃ n, p.1.tree f = some n)
    (by
      rintro ⟨s₁, keys₁⟩ file rest ⟨⟨l₁, h₁⟩, hnodup, hkeys⟩
      obtain ⟨s₂, keys₂, l₂, hs₂, h₂, htree, hcase⟩ :=
        h₁.treeCallbackFlush cfg now absTimeout keys₁ file
      refine ⟨(s₂, keys₂), hs₂, ⟨l₂, h₂⟩, ?_, ?_⟩
      · rcases hcase with rfl | ⟨rfl, -⟩
        · exact (List.nodup_cons.1 (List.nodup_middle.1 hnodup)).2
        · simpa using hnodup
      · intro f hf
        show ∃ n, s₂.tree f = some n
        rw [htree]
        rcases hcase with rfl | ⟨rfl, hn⟩
        · exact hkeys f hf
        · rcases List.mem_append.1 hf with hf | hf
          · exact hkeys f hf
          · rw [List.mem_singleton.1 hf]
            exact hn) ⟨⟨l, h⟩, by simpa using h.treed.keys, by simp⟩
  exact ⟨s', keys', l', hs', h', by simpa using hnodup, hkeys⟩

/-- `flush_old_values` returns. -/
lemma QueueInv.flushOldValues (h : QueueInv s l) (cfg : Config) (now maxAge : ℤ) :
    ∃ s' l', s.flushOldValues cfg now maxAge = .ok s' ∧ QueueInv s' l' := by
  obtain ⟨s₁, keys, l₁, hs₁, h₁, hnodup, hkeys⟩ := h.collect cfg now
    (if 0 < maxAge then now - maxAge else now + 2 * cfg.writeJitter + 1)
  obtain ⟨s', hs', ⟨l', h'⟩, -⟩ := Run.foldlM_ok (f := State.removeKey) (s := s₁) (l := keys)
    (fun s rest => (∃ l, QueueInv s l) ∧ rest.Nodup ∧ ∀ f ∈ rest, ∃ n, s.tree f = some n)
    (by
      rintro s₂ file rest ⟨⟨l₂, h₂⟩, hnodup, hkeys⟩
      obtain ⟨n, hn⟩ := hkeys file List.mem_cons_self
      obtain ⟨s₃, l₃, hs₃, h₃, htree⟩ := h₂.treeRemove hn
      refine ⟨s₃, ?_, ⟨l₃, h₃⟩, hnodup.of_cons, ?_⟩
      · simp only [State.removeKey, hs₃, bind, Except.bind]
        rfl
      · intro f hf
        have hne : f ≠ file := by
          rintro rfl
          exact (List.nodup_cons.1 hnodup).1 hf
        rw [htree, update_of_ne hne]
        exact hkeys f (List.mem_cons_of_mem file hf)) ⟨⟨l₁, h₁⟩, hnodup, hkeys⟩
  refine ⟨s', l', ?_, h'⟩
  simp only [State.flushOldValues, hs₁, bind, Except.bind]
  exact hs'

/-- Every critical section returns and keeps the invariant. -/
lemma QueueInv.step (h : QueueInv s l) (cfg : Config) (a : Act) :
    ∃ s' l', step cfg s a = .ok s' ∧ QueueInv s' l' := by
  cases a with
  | update file values now lost =>
    simp only [Queue.step]
    cases hn : s.tree file with
    | none => exact ⟨s, l, rfl, h⟩
    | some n =>
      obtain ⟨-, i, hi, -⟩ := h.treed.node file n hn
      exact h.takeUpdate hi cfg values now lost
  | insert a file stamp values now random lost =>
    simp only [Queue.step]
    cases ha : s.heap a with
    | some i => exact ⟨s, l, rfl, h⟩
    | none =>
      cases hn : s.tree file with
      | none =>
        have hins := h.insert ha hn cfg stamp now random
        have htree : (s.store a (State.newItem cfg file stamp now random)).tree file = none := hn
        rw [if_neg (by simp), htree]
        simp only [bind, Except.bind]
        split
        · exact ⟨_, l, rfl, hins⟩
        · exact hins.takeUpdate (heap_store_self _ _ _) cfg values now lost
      | some n =>
        have hfree := freeCacheItem_new ha cfg file stamp now random
        have htree : (s.store a (State.newItem cfg file stamp now random)).tree file = some n := hn
        obtain ⟨-, i, hi, -⟩ := h.treed.node file n hn
        rw [if_neg (by simp), htree]
        simp only [bind, Except.bind, hfree]
        split
        · exact ⟨s, l, rfl, h⟩
        · exact h.takeUpdate hi cfg values now lost
  | flush file =>
    simp only [Queue.step]
    cases hn : s.tree file with
    | none => exact ⟨s, l, rfl, h⟩
    | some n =>
      obtain ⟨-, i, hi, -⟩ := h.treed.node file n hn
      simp only [deref_eq hi, bind, Except.bind]
      split
      · obtain ⟨s', l', hs', h', -⟩ := h.enqueue hi .head
        exact ⟨s', l', hs', h'⟩
      · exact ⟨s, l, rfl, h⟩
  | flushOld now maxAge => exact h.flushOldValues cfg now maxAge
  | forget file =>
    simp only [Queue.step]
    cases hn : s.tree file with
    | none =>
      refine ⟨s, l, ?_, h⟩
      simp only [State.treeRemove, hn, bind, Except.bind]
    | some n =>
      obtain ⟨s', l', hs', h', -⟩ := h.treeRemove hn
      refine ⟨s', l', ?_, h'⟩
      simp only [hs', bind, Except.bind]
  | suspend file =>
    obtain ⟨s', hs', h'⟩ := h.setSuspended true file
    exact ⟨s', l, hs', h'⟩
  | resume file =>
    obtain ⟨s', hs', h'⟩ := h.setSuspended false file
    exact ⟨s', l, hs', h'⟩
  | suspendAll => exact h.setAllSuspended true s.keys
  | resumeAll => exact h.setAllSuspended false s.keys
  | wrote file now random =>
    simp only [Queue.step]
    cases hn : s.tree file with
    | none => exact ⟨s, l, rfl, h⟩
    | some n =>
      obtain ⟨-, i, hi, -⟩ := h.treed.node file n hn
      simp only [deref_eq hi, bind, Except.bind]
      exact h.wipe hi cfg now random
  | dequeue now random =>
    simp only [Queue.step]
    cases hhead : s.head with
    | none => exact ⟨s, l, rfl, h⟩
    | some a =>
      have hin : a ∈ l := List.mem_of_head? (h.linked.head ▸ hhead)
      obtain ⟨i, hi⟩ := h.linked.live a hin
      have hpos := h.full a hin i hi
      have hvalues : i.values.isSome = true := by
        have hcount := h.treed.values a i hi
        cases hv : i.values with
        | some values => rfl
        | none =>
          rw [hv] at hcount
          rw [hcount] at hpos
          cases hpos
      simp only [deref_eq hi, bind, Except.bind, assert_eq hvalues, assert_eq hpos]
      exact h.wipe hi cfg now random
  | setState state =>
    refine ⟨{ s with state := state }, l, rfl, ?_, ?_, h.full⟩
    · exact ⟨h.linked.chain, h.linked.back, h.linked.nodup, h.linked.flag, h.linked.live,
        h.linked.unlinked, h.linked.length⟩
    · exact ⟨h.treed.node, h.treed.owned, h.treed.keys, h.treed.mem_keys, h.treed.values⟩

lemma queueInv_init : QueueInv init [] := by
  have hheap : ∀ {a i}, init.heap a = some i → False := fun h => by cases h
  have htree : ∀ {f n}, init.tree f = some n → False := fun h => by cases h
  refine ⟨⟨rfl, rfl, .nil, ?_, ?_, ?_, rfl⟩, ⟨?_, ?_, .nil, ?_, ?_⟩, ?_⟩
  · exact fun _ _ h => (hheap h).elim
  · simp
  · exact fun _ _ h => (hheap h).elim
  · exact fun _ _ h => (htree h).elim
  · exact fun _ _ h => (hheap h).elim
  · simp [init]
  · exact fun _ _ h => (hheap h).elim
  · simp

end Queue

end Rrdtool
