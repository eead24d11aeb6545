import Rrdtool.Daemon.Queue

/-!
# The links of the queue

The links of the cache items are chains (`after`, `before`), and the queue holds a list when they run
through it in both directions (`Linked`). Each function that writes links has one lemma: it returns,
and what it does to the list. The list operations of `Daemon/State.lean` (a head that is moved up, a
tail that is appended, an item that is erased) are what these lemmas say of the links.
-/

namespace Rrdtool

namespace Queue

open Function

/-! ### The links as chains -/

namespace State

/-- The item after another, and the head. -/
@[grind] def after (s : State) : Option Addr → Option Addr
  | none => s.head
  | some a => (s.heap a).bind (·.next)

/-- The item before another, and the tail. -/
@[grind] def before (s : State) : Option Addr → Option Addr
  | none => s.tail
  | some a => (s.heap a).bind (·.prev)

end State

/-- The item without its links. -/
def Item.strip (i : Item) : Item := { i with prev := none, next := none }

/-- The item without its links and its place in the queue. -/
def Item.core (i : Item) : Item := { i.strip with inQueue := false }

variable {s s' s'' : State} {a : Addr} {i i' : Item} {p q : Option Addr} {l : List Addr}

lemma deref_eq (h : s.heap a = some i) : s.deref a = .ok i := by
  unfold State.deref
  rw [h]

lemma assert_eq {text : String} {p : Prop} [Decidable p] (h : p) : State.assert text p = .ok () :=
  if_pos h

lemma after_some (h : s.heap a = some i) : s.after (some a) = i.next := by
  show (s.heap a).bind (·.next) = i.next
  rw [h]
  rfl

lemma before_some (h : s.heap a = some i) : s.before (some a) = i.prev := by
  show (s.heap a).bind (·.prev) = i.prev
  rw [h]
  rfl

@[simp] lemma heap_store_self (s : State) (a : Addr) (i : Item) : (s.store a i).heap a = some i :=
  update_self _ _ _

lemma heap_store_of_ne {b : Addr} (h : b ≠ a) : (s.store a i).heap b = s.heap b :=
  update_of_ne h _ _

lemma after_store (s : State) (a : Addr) (i : Item) :
    (s.store a i).after = update s.after (some a) i.next := by
  funext p
  cases p with
  | none => rw [update_of_ne (by simp)]; rfl
  | some b =>
    by_cases hb : b = a
    · subst hb
      simp [State.after, State.store]
    · rw [update_of_ne (by simpa using hb)]
      simp [State.after, State.store, hb]

lemma before_store (s : State) (a : Addr) (i : Item) :
    (s.store a i).before = update s.before (some a) i.prev := by
  funext p
  cases p with
  | none => rw [update_of_ne (by simp)]; rfl
  | some b =>
    by_cases hb : b = a
    · subst hb
      simp [State.before, State.store]
    · rw [update_of_ne (by simpa using hb)]
      simp [State.before, State.store, hb]

lemma after_head (s : State) (q : Option Addr) :
    ({ s with head := q } : State).after = update s.after none q := by
  funext p
  cases p with
  | none => rw [update_self]; rfl
  | some b => rw [update_of_ne (by simp)]; rfl

lemma before_tail (s : State) (p : Option Addr) :
    ({ s with tail := p } : State).before = update s.before none p := by
  funext q
  cases q with
  | none => rw [update_self]; rfl
  | some b => rw [update_of_ne (by simp)]; rfl

/-- Nothing but links has changed. -/
structure Same (s s' : State) : Prop where
  state : s'.state = s.state
  keys : s'.keys = s.keys
  tree : s'.tree = s.tree
  queueLength : s'.queueLength = s.queueLength
  strip : ∀ a, (s'.heap a).map Item.strip = (s.heap a).map Item.strip

/-- Nothing but the queue has changed. -/
structure Frame (s s' : State) : Prop where
  state : s'.state = s.state
  keys : s'.keys = s.keys
  tree : s'.tree = s.tree
  core : ∀ a, (s'.heap a).map Item.core = (s.heap a).map Item.core

lemma Frame.refl (s : State) : Frame s s := ⟨rfl, rfl, rfl, fun _ => rfl⟩

lemma Frame.trans (h : Frame s s') (h' : Frame s' s'') : Frame s s'' where
  state := h'.state.trans h.state
  keys := h'.keys.trans h.keys
  tree := h'.tree.trans h.tree
  core a := (h'.core a).trans (h.core a)

lemma Same.trans (h : Same s s') (h' : Same s' s'') : Same s s'' where
  state := h'.state.trans h.state
  keys := h'.keys.trans h.keys
  tree := h'.tree.trans h.tree
  queueLength := h'.queueLength.trans h.queueLength
  strip a := (h'.strip a).trans (h.strip a)

/-- An item after a change of links. -/
lemma Same.item (h : Same s s') (ha : s.heap a = some i) :
    ∃ i', s'.heap a = some i' ∧ i'.strip = i.strip := by
  have := h.strip a
  rw [ha] at this
  exact Option.map_eq_some_iff.1 this

lemma Same.item_of (h : Same s s') (ha : s'.heap a = some i') :
    ∃ i, s.heap a = some i ∧ i'.strip = i.strip := by
  have := h.strip a
  rw [ha] at this
  obtain ⟨i, hi, heq⟩ := Option.map_eq_some_iff.1 this.symm
  exact ⟨i, hi, heq.symm⟩

lemma Frame.item (h : Frame s s') (ha : s.heap a = some i) :
    ∃ i', s'.heap a = some i' ∧ i'.core = i.core := by
  have := h.core a
  rw [ha] at this
  exact Option.map_eq_some_iff.1 this

lemma Frame.item_of (h : Frame s s') (ha : s'.heap a = some i') :
    ∃ i, s.heap a = some i ∧ i'.core = i.core := by
  have := h.core a
  rw [ha] at this
  obtain ⟨i, hi, heq⟩ := Option.map_eq_some_iff.1 this.symm
  exact ⟨i, hi, heq.symm⟩

lemma core_eq (h : i'.core = i.core) :
    i'.file = i.file ∧ i'.valuesNum = i.valuesNum ∧ i'.values = i.values :=
  ⟨(congrArg Item.file h :), (congrArg Item.valuesNum h :), (congrArg Item.values h :)⟩

lemma Same.frame (h : Same s s') : Frame s s' := by
  refine ⟨h.state, h.keys, h.tree, fun a => ?_⟩
  have := congrArg (Option.map fun i : Item => { i with inQueue := false }) (h.strip a)
  rw [Option.map_map, Option.map_map] at this
  exact this

lemma same_store (h : s.heap a = some i) (hi : i'.strip = i.strip) : Same s (s.store a i') := by
  refine ⟨rfl, rfl, rfl, rfl, fun b => ?_⟩
  by_cases hb : b = a
  · subst hb
    simp [State.store, h, hi]
  · simp [State.store, hb]

lemma frame_store (h : s.heap a = some i) (hi : i'.core = i.core) : Frame s (s.store a i') := by
  refine ⟨rfl, rfl, rfl, fun b => ?_⟩
  by_cases hb : b = a
  · subst hb
    simp [State.store, h, hi]
  · simp [State.store, hb]

/-- `linkNext` writes one link of the forward chain. -/
lemma linkNext_spec (hp : ∀ b, p = some b → ∃ i, s.heap b = some i) :
    ∃ s', s.linkNext p q = .ok s' ∧ s'.after = update s.after p q ∧ s'.before = s.before ∧
      Same s s' := by
  cases p with
  | none => exact ⟨_, rfl, after_head s q, rfl, rfl, rfl, rfl, rfl, fun _ => rfl⟩
  | some b =>
    obtain ⟨i, hi⟩ := hp b rfl
    refine ⟨s.store b { i with next := q }, ?_, after_store _ _ _, ?_, same_store hi rfl⟩
    · simp only [State.linkNext, deref_eq hi]
      rfl
    · rw [before_store]
      exact update_eq_self_iff.2 (before_some hi).symm

/-- `linkPrev` writes one link of the backward chain. -/
lemma linkPrev_spec (hq : ∀ b, q = some b → ∃ i, s.heap b = some i) :
    ∃ s', s.linkPrev q p = .ok s' ∧ s'.before = update s.before q p ∧ s'.after = s.after ∧
      Same s s' := by
  cases q with
  | none => exact ⟨_, rfl, before_tail s p, rfl, rfl, rfl, rfl, rfl, fun _ => rfl⟩
  | some b =>
    obtain ⟨i, hi⟩ := hq b rfl
    refine ⟨s.store b { i with prev := p }, ?_, before_store _ _ _, ?_, same_store hi rfl⟩
    · simp only [State.linkPrev, deref_eq hi]
      rfl
    · rw [after_store]
      exact update_eq_self_iff.2 (after_some hi).symm

/-! ### The queue holds a list -/

/-- The queue is a doubly linked list of the items of `l`, flags and counter say so, and an item that
is not in it has no links. -/
structure Linked (s : State) (l : List Addr) : Prop where
  chain : Chain s.after none l
  back : Chain s.before none l.reverse
  nodup : l.Nodup
  flag : ∀ a i, s.heap a = some i → (i.inQueue = true ↔ a ∈ l)
  live : ∀ a ∈ l, ∃ i, s.heap a = some i
  unlinked : ∀ a i, s.heap a = some i → a ∉ l → i.prev = none ∧ i.next = none
  length : s.queueLength = l.length

lemma Linked.head (h : Linked s l) : s.head = l.head? := h.chain.first

lemma Linked.tail (h : Linked s l) : s.tail = l.getLast? := by
  rw [← List.head?_reverse]
  exact h.back.first

/-- Other data of an item may change. -/
lemma Linked.store (h : Linked s l) (ha : s.heap a = some i) (hprev : i'.prev = i.prev)
    (hnext : i'.next = i.next) (hflag : i'.inQueue = i.inQueue) : Linked (s.store a i') l := by
  have hheap : ∀ b j, (s.store a i').heap b = some j → ∃ j', s.heap b = some j' ∧
      j.prev = j'.prev ∧ j.next = j'.next ∧ j.inQueue = j'.inQueue := by
    intro b j hj
    by_cases hb : b = a
    · subst hb
      rw [heap_store_self] at hj
      cases hj
      exact ⟨i, ha, hprev, hnext, hflag⟩
    · rw [heap_store_of_ne hb] at hj
      exact ⟨j, hj, rfl, rfl, rfl⟩
  refine ⟨?_, ?_, h.nodup, ?_, ?_, ?_, h.length⟩
  · rw [after_store, hnext, ← after_some ha, update_eq_self]
    exact h.chain
  · rw [before_store, hprev, ← before_some ha, update_eq_self]
    exact h.back
  · intro b j hj
    obtain ⟨j', hj', -, -, heq⟩ := hheap b j hj
    rw [heq]
    exact h.flag b j' hj'
  · intro b hb
    obtain ⟨j, hj⟩ := h.live b hb
    by_cases hba : b = a
    · subst hba
      exact ⟨i', heap_store_self _ _ _⟩
    · exact ⟨j, by rw [heap_store_of_ne hba, hj]⟩
  · intro b j hj hb
    obtain ⟨j', hj', hp, hn, -⟩ := hheap b j hj
    rw [hp, hn]
    exact h.unlinked b j' hj' hb

/-- The node of the list, between its neighbours. -/
lemma Linked.links {x y : List Addr} (h : Linked s (x ++ a :: y)) (ha : s.heap a = some i) :
    i.prev = x.getLast? ∧ i.next = y.head? := by
  constructor
  · rw [← before_some ha, ← List.head?_reverse]
    have hback := h.back
    rw [List.reverse_append, List.reverse_cons, List.append_assoc] at hback
    exact Chain.after hback
  · rw [← after_some ha]
    exact Chain.after h.chain

/-! ### Removal -/

/-- What is left of the queue when an item leaves it. -/
lemma Linked.unlink {x y : List Addr} {s₁ s₂ : State} {j : Item} (h : Linked s (x ++ a :: y))
    (hafter₁ : s₁.after = update s.after x.getLast? y.head?) (hbefore₁ : s₁.before = s.before)
    (hbefore₂ : s₂.before = update s₁.before y.head? x.getLast?) (hafter₂ : s₂.after = s₁.after)
    (hsame : Same s s₂) (hj : j.next = none ∧ j.prev = none ∧ j.inQueue = false) :
    Linked { s₂.store a j with queueLength := s₂.queueLength - 1 } (x ++ y) := by
  have hne : ∀ z ∈ x ++ a :: y, (none : Option Addr) ≠ some z := fun _ _ => by simp
  have hax : a ∉ x ∧ a ∉ y := by
    have := List.nodup_middle.1 h.nodup
    simpa using (List.nodup_cons.1 this).1
  have hmem : ∀ b, b ≠ a → (b ∈ x ++ a :: y ↔ b ∈ x ++ y) := fun b hb => by simp [hb]
  refine ⟨?_, ?_, ?_, ?_, ?_, ?_, ?_⟩
  · show Chain (s₂.store a j).after none (x ++ y)
    rw [after_store, hj.1, hafter₂, hafter₁, ← Chain.last_none x]
    exact h.chain.remove h.nodup hne
  · show Chain (s₂.store a j).before none (x ++ y).reverse
    have hback := h.back
    rw [List.reverse_append, List.reverse_cons, List.append_assoc] at hback
    have hlast : Chain.last none y.reverse = y.head? := by rw [Chain.last_none, List.getLast?_reverse]
    rw [before_store, hj.2.1, hbefore₂, hbefore₁, List.reverse_append, ← hlast, ← List.head?_reverse]
    refine hback.remove ?_ fun _ _ => by simp
    have := List.nodup_reverse.2 h.nodup
    rwa [List.reverse_append, List.reverse_cons, List.append_assoc] at this
  · exact (List.nodup_cons.1 (List.nodup_middle.1 h.nodup)).2
  · intro b k hk
    by_cases hb : b = a
    · subst hb
      have hk : (s₂.store b j).heap b = some k := hk
      rw [heap_store_self] at hk
      cases hk
      rw [hj.2.2]
      simp [hax]
    · have hk : (s₂.store a j).heap b = some k := hk
      rw [heap_store_of_ne hb] at hk
      obtain ⟨k', hk', hstrip⟩ := hsame.item_of hk
      have hflag : k.inQueue = k'.inQueue := (congrArg Item.inQueue hstrip :)
      rw [hflag, h.flag b k' hk']
      exact hmem b hb
  · intro b hb
    by_cases hba : b = a
    · subst hba
      exact ⟨j, heap_store_self _ _ _⟩
    · obtain ⟨k, hk⟩ := h.live b ((hmem b hba).2 hb)
      obtain ⟨k', hk', -⟩ := hsame.item hk
      exact ⟨k', (heap_store_of_ne hba).trans hk'⟩
  · intro b k hk hb
    by_cases hba : b = a
    · subst hba
      have hk : (s₂.store b j).heap b = some k := hk
      rw [heap_store_self] at hk
      cases hk
      exact ⟨hj.2.1, hj.1⟩
    · -- an item that was not in the queue is no neighbour of the one that leaves it
      have hk : (s₂.store a j).heap b = some k := hk
      rw [heap_store_of_ne hba] at hk
      obtain ⟨k', hk', -⟩ := hsame.item_of hk
      obtain ⟨hprev, hnext⟩ := h.unlinked b k' hk' fun hin => hb ((hmem b hba).1 hin)
      have hbx : some b ≠ x.getLast? := fun heq =>
        hb (List.mem_append_left y (List.mem_of_getLast? heq.symm))
      have hby : some b ≠ y.head? := fun heq =>
        hb (List.mem_append_right x (List.mem_of_head? heq.symm))
      rw [← before_some hk, ← after_some hk, hbefore₂, hafter₂, hafter₁, hbefore₁, update_of_ne hby,
        update_of_ne hbx, before_some hk', after_some hk']
      exact ⟨hprev, hnext⟩
  · show s₂.queueLength - 1 = (x ++ y).length
    rw [hsame.queueLength, h.length]
    simp

/-- `remove_from_queue` returns, and the item is erased from the list. -/
lemma removeFromQueue_spec (h : Linked s l) (ha : s.heap a = some i) :
    ∃ s', s.removeFromQueue a = .ok s' ∧ Linked s' (l.erase a) ∧ Frame s s' := by
  by_cases hin : a ∈ l
  · obtain ⟨x, y, rfl⟩ := List.append_of_mem hin
    have hax : a ∉ x := by
      have := (List.nodup_cons.1 (List.nodup_middle.1 h.nodup)).1
      exact fun hmem => this (List.mem_append_left y hmem)
    have hay : a ∉ y := by
      have := (List.nodup_cons.1 (List.nodup_middle.1 h.nodup)).1
      exact fun hmem => this (List.mem_append_right x hmem)
    have hlast : ∀ b, x.getLast? = some b → b ∈ x := fun b hb => List.mem_of_getLast? hb
    have hfirst : ∀ b, y.head? = some b → b ∈ y := fun b hb => List.mem_of_head? hb
    obtain ⟨hprev, hnext⟩ := h.links ha
    obtain ⟨s₁, hs₁, hafter₁, hbefore₁, hsame₁⟩ := @linkNext_spec s i.prev i.next fun b hb =>
      h.live b (List.mem_append_left _ (hlast b (hprev ▸ hb)))
    obtain ⟨i₁, hi₁, hstrip₁⟩ := hsame₁.item ha
    have hnext₁ : i₁.next = i.next := by
      rw [← after_some hi₁, hafter₁, update_of_ne, after_some ha]
      rw [hprev]
      exact fun heq => hax (hlast a heq.symm)
    have hprev₁ : i₁.prev = i.prev := by
      rw [← before_some hi₁, hbefore₁, before_some ha]
    obtain ⟨s₂, hs₂, hbefore₂, hafter₂, hsame₂⟩ := @linkPrev_spec s₁ i₁.prev i₁.next fun b hb => by
      rw [hnext₁, hnext] at hb
      obtain ⟨k, hk⟩ := h.live b (List.mem_append_right x (List.mem_cons_of_mem a (hfirst b hb)))
      obtain ⟨k', hk', -⟩ := hsame₁.item hk
      exact ⟨k', hk'⟩
    obtain ⟨i₂, hi₂, hstrip₂⟩ := hsame₂.item hi₁
    have hsame := hsame₁.trans hsame₂
    rw [hprev, hnext] at hafter₁
    rw [hnext₁, hprev₁, hprev, hnext] at hbefore₂
    have hflag : i.inQueue = true := (h.flag a i ha).2 hin
    have hpos : 0 < s₂.queueLength := by
      rw [hsame.queueLength, h.length]
      simp
    refine ⟨{ s₂.store a { i₂ with next := none, prev := none, inQueue := false } with
      queueLength := s₂.queueLength - 1 }, ?_, ?_, ?_⟩
    · simp only [State.removeFromQueue, deref_eq ha, hflag, hs₁, deref_eq hi₁, hs₂, deref_eq hi₂,
        bind, Except.bind, State.assert]
      exact if_pos hpos ▸ rfl
    · rw [List.erase_append_right _ hax, List.erase_cons_head]
      exact h.unlink hafter₁ hbefore₁ hbefore₂ hafter₂ hsame ⟨rfl, rfl, rfl⟩
    · have hstore : Frame s₂ (s₂.store a { i₂ with next := none, prev := none, inQueue := false }) :=
        frame_store hi₂ rfl
      have hframe := hsame.frame.trans hstore
      exact ⟨hframe.state, hframe.keys, hframe.tree, hframe.core⟩
  · have hflag : i.inQueue = false := by
      rw [← Bool.not_eq_true, h.flag a i ha]
      exact hin
    refine ⟨s, ?_, ?_, Frame.refl s⟩
    · simp only [State.removeFromQueue, deref_eq ha, hflag, bind, Except.bind]
      rfl
    · rwa [List.erase_of_not_mem hin]

/-! ### Insertion -/

/-- What the queue is when an item has been put into it. -/
lemma Linked.link {x y : List Addr} (h : Linked s (x ++ y)) (ha : a ∉ x ++ y)
    (hafter : s'.after = update (update s.after x.getLast? (some a)) (some a) y.head?)
    (hbefore : s'.before = update (update s.before y.head? (some a)) (some a) x.getLast?)
    (hframe : Frame s s')
    (hflag : ∀ b j j', s.heap b = some j → s'.heap b = some j' →
      j'.inQueue = if b = a then true else j.inQueue)
    (hlive : s.heap a = some i) (hlength : s'.queueLength = s.queueLength + 1) :
    Linked s' (x ++ a :: y) := by
  have hmem : ∀ b, b ≠ a → (b ∈ x ++ a :: y ↔ b ∈ x ++ y) := fun b hb => by simp [hb]
  refine ⟨?_, ?_, ?_, ?_, ?_, ?_, ?_⟩
  · rw [hafter, ← Chain.last_none x]
    exact h.chain.insert h.nodup (fun _ _ => by simp) ha (by simp)
  · have hlast : Chain.last none y.reverse = y.head? := by rw [Chain.last_none, List.getLast?_reverse]
    have hback := h.back
    rw [List.reverse_append] at hback
    rw [hbefore, List.reverse_append, List.reverse_cons, List.append_assoc, ← hlast,
      ← List.head?_reverse]
    refine hback.insert ?_ (fun _ _ => by simp) ?_ (by simp)
    · have := List.nodup_reverse.2 h.nodup
      rwa [List.reverse_append] at this
    · simpa [and_comm] using ha
  · exact List.nodup_middle.2 (List.nodup_cons.2 ⟨ha, h.nodup⟩)
  · intro b j' hj'
    obtain ⟨j, hj, -⟩ := hframe.item_of hj'
    rw [hflag b j j' hj hj']
    by_cases hb : b = a
    · simp [hb]
    · rw [if_neg hb, h.flag b j hj, hmem b hb]
  · intro b hb
    by_cases hba : b = a
    · subst hba
      obtain ⟨i', hi', -⟩ := hframe.item hlive
      exact ⟨i', hi'⟩
    · obtain ⟨j, hj⟩ := h.live b ((hmem b hba).1 hb)
      obtain ⟨j', hj', -⟩ := hframe.item hj
      exact ⟨j', hj'⟩
  · intro b j' hj' hb
    have hba : b ≠ a := fun heq => hb (by simp [heq])
    obtain ⟨j, hj, -⟩ := hframe.item_of hj'
    obtain ⟨hprev, hnext⟩ := h.unlinked b j hj fun hin => hb ((hmem b hba).2 hin)
    have hsome : some b ≠ some a := fun heq => hba (Option.some.inj heq)
    have hbx : some b ≠ x.getLast? := fun heq =>
      hb (List.mem_append_left _ (List.mem_of_getLast? heq.symm))
    have hby : some b ≠ y.head? := fun heq =>
      hb (List.mem_append_right x (List.mem_cons_of_mem a (List.mem_of_head? heq.symm)))
    rw [← before_some hj', ← after_some hj', hafter, hbefore, update_of_ne hsome, update_of_ne hsome,
      update_of_ne hbx, update_of_ne hby, before_some hj, after_some hj]
    exact ⟨hprev, hnext⟩
  · rw [hlength, h.length]
    simp [Nat.add_assoc]

/-- `markQueued` returns; links stay. -/
lemma markQueued_spec (ha : s.heap a = some i) :
    ∃ s', s.markQueued a = .ok s' ∧ s'.after = s.after ∧ s'.before = s.before ∧ Frame s s' ∧
      (∀ b, s'.heap b = if b = a then some { i with inQueue := true } else s.heap b) ∧
      s'.queueLength = s.queueLength + 1 := by
  refine ⟨{ s.store a { i with inQueue := true } with queueLength := s.queueLength + 1 }, ?_, ?_, ?_,
    ?_, ?_, rfl⟩
  · simp only [State.markQueued, deref_eq ha, bind, Except.bind]
  · show (s.store a { i with inQueue := true }).after = s.after
    rw [after_store]
    exact update_eq_self_iff.2 (after_some ha).symm
  · show (s.store a { i with inQueue := true }).before = s.before
    rw [before_store]
    exact update_eq_self_iff.2 (before_some ha).symm
  · have hstore : Frame s (s.store a { i with inQueue := true }) := frame_store ha rfl
    exact ⟨hstore.state, hstore.keys, hstore.tree, hstore.core⟩
  · intro b
    by_cases hb : b = a
    · subst hb
      rw [if_pos rfl]
      exact heap_store_self _ _ _
    · rw [if_neg hb]
      exact heap_store_of_ne hb

/-- The flags after links have been written and the item has been marked. -/
lemma flag_of_marked {s₁ s₂ : State} (hsame : Same s s₁)
    (hheap : ∀ b, s₂.heap b = if b = a then some { i with inQueue := true } else s₁.heap b) :
    ∀ b j j', s.heap b = some j → s₂.heap b = some j' →
      j'.inQueue = if b = a then true else j.inQueue := by
  intro b j j' hj hj'
  rw [hheap b] at hj'
  by_cases hb : b = a
  · rw [if_pos hb] at hj' ⊢
    cases hj'
    rfl
  · rw [if_neg hb] at hj' ⊢
    obtain ⟨k, hk, hstrip⟩ := hsame.item_of hj'
    rw [hj] at hk
    cases hk
    exact (congrArg Item.inQueue hstrip :)

/-- `enqueue_cache_item (ci, TAIL)` returns, and an item that is not in the list is appended. -/
lemma enqueueTail_spec (h : Linked s l) (ha : s.heap a = some i) :
    ∃ s', s.enqueueCacheItem a .tail = .ok s' ∧ Frame s s' ∧
      Linked s' (if i.valuesNum = 0 ∨ a ∈ l then l else l ++ [a]) := by
  by_cases hnone : i.valuesNum = 0
  · refine ⟨s, ?_, Frame.refl s, ?_⟩
    · simp only [State.enqueueCacheItem, deref_eq ha, bind, Except.bind, if_pos hnone]
    · rwa [if_pos (.inl hnone)]
  · by_cases hin : a ∈ l
    · have hflag : i.inQueue = true := (h.flag a i ha).2 hin
      refine ⟨s, ?_, Frame.refl s, ?_⟩
      · simp only [State.enqueueCacheItem, deref_eq ha, bind, Except.bind, if_neg hnone, hflag]
        rfl
      · rwa [if_pos (.inr hin)]
    · have hflag : ¬ i.inQueue = true := fun hq => hin ((h.flag a i ha).1 hq)
      obtain ⟨hprev, hnext⟩ := h.unlinked a i ha hin
      have hsame₁ : Same s (s.store a { i with prev := s.tail }) := same_store ha rfl
      obtain ⟨s₂, hs₂, hafter₂, hbefore₂, hsame₂⟩ :=
        @linkNext_spec (s.store a { i with prev := s.tail }) s.tail (some a) fun b hb => by
          obtain ⟨j, hj⟩ := h.live b (List.mem_of_getLast? (h.tail ▸ hb))
          obtain ⟨j', hj', -⟩ := hsame₁.item hj
          exact ⟨j', hj'⟩
      have hsame₃ : Same s { s₂ with tail := some a } := by
        have hsame := hsame₁.trans hsame₂
        exact ⟨hsame.state, hsame.keys, hsame.tree, hsame.queueLength, hsame.strip⟩
      obtain ⟨i₃, hi₃, -⟩ := hsame₃.item ha
      obtain ⟨s₄, hs₄, hafter₄, hbefore₄, hframe₄, hheap₄, hlength₄⟩ := markQueued_spec hi₃
      refine ⟨s₄, ?_, hsame₃.frame.trans hframe₄, ?_⟩
      · simp only [State.enqueueCacheItem, deref_eq ha, bind, Except.bind, if_neg hnone, if_neg hflag,
          assert_eq hprev, assert_eq hnext, hs₂]
        exact hs₄
      · rw [if_neg (by tauto)]
        refine Linked.link (by simpa using h) (by simpa using hin) ?_ ?_ (hsame₃.frame.trans hframe₄)
          (flag_of_marked hsame₃ hheap₄) ha (by rw [hlength₄, hsame₃.queueLength])
        · show s₄.after = update (update s.after l.getLast? (some a)) (some a) none
          have hself : update s.after (some a) none = s.after :=
            update_eq_self_iff.2 ((after_some ha).trans hnext).symm
          have hne : l.getLast? ≠ some a := fun heq => hin (List.mem_of_getLast? heq)
          rw [hafter₄, update_comm hne, hself, ← h.tail]
          show s₂.after = _
          rw [hafter₂, after_store, hnext, hself]
        · show s₄.before = update (update s.before none (some a)) (some a) l.getLast?
          rw [hbefore₄, before_tail, hbefore₂, before_store, update_comm (by simp), h.tail]

/-- `linkHead` returns: the item is before the old head, or it is the tail. -/
lemma linkHead_spec (h : Linked s l) (ha : s.heap a = some i) (hprev : i.prev = none) :
    ∃ s', s.linkHead a = .ok s' ∧
      s'.after = update (update s.after none (some a)) (some a) s.head ∧
      s'.before = update s.before s.head (some a) ∧ Same s s' := by
  have hself : update s.before (some a) none = s.before :=
    update_eq_self_iff.2 ((before_some ha).trans hprev).symm
  have hsame : Same s (s.store a { i with prev := none, next := s.head }) := same_store ha rfl
  cases hhead : s.head with
  | none =>
    have htail : (s.store a { i with prev := none, next := none }).tail = none := by
      have hnil : l = [] := by rw [← List.head?_eq_none_iff, ← h.head, hhead]
      show s.tail = none
      rw [h.tail, hnil]
      rfl
    refine ⟨{ s.store a { i with prev := none, next := none } with head := some a, tail := some a },
      ?_, ?_, ?_, ?_⟩
    · simp only [State.linkHead, deref_eq ha, bind, Except.bind, hhead]
      rw [if_pos htail]
    · show ({ s.store a { i with prev := none, next := none } with head := some a } : State).after = _
      rw [after_head, after_store, update_comm (by simp)]
    · show ({ s.store a { i with prev := none, next := none } with tail := some a } : State).before = _
      rw [before_tail, before_store, hself]
    · rw [hhead] at hsame
      exact ⟨hsame.state, hsame.keys, hsame.tree, hsame.queueLength, hsame.strip⟩
  | some n =>
    have hn : n ∈ l := List.mem_of_head? (h.head ▸ hhead)
    rw [hhead] at hsame
    obtain ⟨s₁, hs₁, hbefore₁, hafter₁, hsame₁⟩ := @linkPrev_spec
      (s.store a { i with prev := none, next := some n }) (some a) (some n) fun b hb => by
        cases hb
        obtain ⟨j, hj⟩ := h.live n hn
        obtain ⟨j', hj', -⟩ := hsame.item hj
        exact ⟨j', hj'⟩
    have htail : ¬ s₁.tail = none := by
      have hb : s₁.before none = s.before none := by
        rw [hbefore₁, update_of_ne (by simp), before_store, update_of_ne (by simp)]
      have htail₁ : s₁.tail = l.getLast? := hb.trans h.tail
      rw [htail₁, List.getLast?_eq_none_iff]
      exact List.ne_nil_of_mem hn
    have hsame := hsame.trans hsame₁
    refine ⟨{ s₁ with head := some a }, ?_, ?_, ?_, ?_⟩
    · simp only [State.linkHead, deref_eq ha, bind, Except.bind, hhead, hs₁]
      rw [if_neg htail]
    · rw [after_head, hafter₁, after_store, update_comm (by simp)]
    · show s₁.before = _
      rw [hbefore₁, before_store, hself]
    · exact ⟨hsame.state, hsame.keys, hsame.tree, hsame.queueLength, hsame.strip⟩

/-- `enqueue_cache_item (ci, HEAD)` returns, and an item that is not the head becomes the head. -/
lemma enqueueHead_spec (h : Linked s l) (ha : s.heap a = some i) :
    ∃ s', s.enqueueCacheItem a .head = .ok s' ∧ Frame s s' ∧
      Linked s' (if i.valuesNum = 0 ∨ l.head? = some a then l else a :: l.erase a) := by
  by_cases hnone : i.valuesNum = 0
  · refine ⟨s, ?_, Frame.refl s, ?_⟩
    · simp only [State.enqueueCacheItem, deref_eq ha, bind, Except.bind, if_pos hnone]
    · rwa [if_pos (.inl hnone)]
  · by_cases hhead : s.head = some a
    · refine ⟨s, ?_, Frame.refl s, ?_⟩
      · simp only [State.enqueueCacheItem, deref_eq ha, bind, Except.bind, if_neg hnone, if_pos hhead]
      · rwa [if_pos (.inr (h.head ▸ hhead))]
    · obtain ⟨s₁, hs₁, h₁, hframe₁⟩ := removeFromQueue_spec h ha
      have hin : a ∉ l.erase a := h.nodup.not_mem_erase
      obtain ⟨i₁, hi₁, -⟩ := hframe₁.item ha
      obtain ⟨hprev, -⟩ := h₁.unlinked a i₁ hi₁ hin
      obtain ⟨s₂, hs₂, hafter₂, hbefore₂, hsame₂⟩ := linkHead_spec h₁ hi₁ hprev
      obtain ⟨i₂, hi₂, -⟩ := hsame₂.item hi₁
      obtain ⟨s₃, hs₃, hafter₃, hbefore₃, hframe₃, hheap₃, hlength₃⟩ := markQueued_spec hi₂
      refine ⟨s₃, ?_, hframe₁.trans (hsame₂.frame.trans hframe₃), ?_⟩
      · simp only [State.enqueueCacheItem, deref_eq ha, bind, Except.bind, if_neg hnone, if_neg hhead,
          hs₁, hs₂, hs₃]
      · rw [if_neg (by rw [← h.head]; tauto)]
        have hne : s₁.head ≠ some a := fun heq => hin (List.mem_of_head? (h₁.head ▸ heq))
        have hself : update s₁.before (some a) none = s₁.before :=
          update_eq_self_iff.2 ((before_some hi₁).trans hprev).symm
        refine @Linked.link s₁ s₃ a i₁ [] (l.erase a) h₁ hin ?_ ?_ (hsame₂.frame.trans hframe₃)
          (flag_of_marked hsame₂ hheap₃) hi₁ (by rw [hlength₃, hsame₂.queueLength])
        · rw [hafter₃, hafter₂, h₁.head]
          rfl
        · rw [hbefore₃, hbefore₂, ← h₁.head, update_comm hne]
          show _ = update (update s₁.before (some a) none) s₁.head (some a)
          rw [hself]

/-! ### Memory that comes and goes -/

/-- A new item is in no list. -/
lemma Linked.alloc (h : Linked s l) (ha : s.heap a = none) (hi : i.inQueue = false)
    (hprev : i.prev = none) (hnext : i.next = none) : a ∉ l ∧ Linked (s.store a i) l := by
  have hin : a ∉ l := by
    intro hmem
    obtain ⟨j, hj⟩ := h.live a hmem
    rw [ha] at hj
    cases hj
  have hafter : (s.store a i).after = s.after := by
    rw [after_store]
    refine update_eq_self_iff.2 ?_
    show i.next = (s.heap a).bind (·.next)
    rw [ha, hnext]
    rfl
  have hbefore : (s.store a i).before = s.before := by
    rw [before_store]
    refine update_eq_self_iff.2 ?_
    show i.prev = (s.heap a).bind (·.prev)
    rw [ha, hprev]
    rfl
  refine ⟨hin, by rw [hafter]; exact h.chain, by rw [hbefore]; exact h.back, h.nodup, ?_, ?_, ?_,
    h.length⟩
  · intro b j hj
    by_cases hb : b = a
    · subst hb
      rw [heap_store_self] at hj
      cases hj
      simp [hi, hin]
    · rw [heap_store_of_ne hb] at hj
      exact h.flag b j hj
  · intro b hb
    obtain ⟨j, hj⟩ := h.live b hb
    have hba : b ≠ a := fun heq => hin (heq ▸ hb)
    exact ⟨j, (heap_store_of_ne hba).trans hj⟩
  · intro b j hj hb
    by_cases hba : b = a
    · subst hba
      rw [heap_store_self] at hj
      cases hj
      exact ⟨hprev, hnext⟩
    · rw [heap_store_of_ne hba] at hj
      exact h.unlinked b j hj hb

/-- An item that is in no list may be freed. -/
lemma Linked.free (h : Linked s l) (ha : a ∉ l) :
    Linked { s with heap := update s.heap a none } l := by
  have hne : ∀ b ∈ l, b ≠ a := fun b hb heq => ha (heq ▸ hb)
  have hlinks : ∀ i, s.heap a = some i → i.prev = none ∧ i.next = none := fun i hi =>
    h.unlinked a i hi ha
  have hheap : ∀ b j, update s.heap a none b = some j → b ≠ a ∧ s.heap b = some j := by
    intro b j hj
    by_cases hb : b = a
    · subst hb
      rw [update_self] at hj
      cases hj
    · rw [update_of_ne hb] at hj
      exact ⟨hb, hj⟩
  have hafter : ({ s with heap := update s.heap a none } : State).after = s.after := by
    funext p
    cases p with
    | none => rfl
    | some b =>
      show (update s.heap a none b).bind (·.next) = (s.heap b).bind (·.next)
      by_cases hb : b = a
      · subst hb
        cases hb' : s.heap b with
        | none => simp
        | some i => simp [(hlinks i hb').2]
      · rw [update_of_ne hb]
  have hbefore : ({ s with heap := update s.heap a none } : State).before = s.before := by
    funext p
    cases p with
    | none => rfl
    | some b =>
      show (update s.heap a none b).bind (·.prev) = (s.heap b).bind (·.prev)
      by_cases hb : b = a
      · subst hb
        cases hb' : s.heap b with
        | none => simp
        | some i => simp [(hlinks i hb').1]
      · rw [update_of_ne hb]
  refine ⟨by rw [hafter]; exact h.chain, by rw [hbefore]; exact h.back, h.nodup, ?_, ?_, ?_, h.length⟩
  · intro b j hj
    exact h.flag b j (hheap b j hj).2
  · intro b hb
    obtain ⟨j, hj⟩ := h.live b hb
    exact ⟨j, (update_of_ne (hne b hb) _ _).trans hj⟩
  · intro b j hj hb
    exact h.unlinked b j (hheap b j hj).2 hb

end Queue

end Rrdtool
