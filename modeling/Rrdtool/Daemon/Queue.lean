import Rrdtool.Daemon.State
import Rrdtool.Lib.Chain

/-!
# The queue of the caching daemon

Port of the functions of `src/rrd_daemon.c` that work on the queue of items to be written, with the
links, flags and counter of the source: `remove_from_queue`, `enqueue_cache_item`, `free_cache_item`,
`tree_callback_flush`, `flush_old_values`, and the critical sections that call them. The cache items
lie in a heap and are known by their addresses. An assertion that fails, and a pointer to no item, is
a `Fault`.

The functions are followed through `Linked` (the queue holds a list), `Treed` (the items are those of
the tree) and `Full` (queued items have values). No run meets a fault (`run_queueInv`).
-/

namespace Rrdtool

namespace Queue

/-! ### Data -/

abbrev Addr := ℕ

/-- `cache_item_t`. `values` is `none` for a null pointer. -/
structure Item where
  file : Text
  values : Option (List Text)
  valuesNum : ℕ
  lastFlushTime : ℤ
  lastUpdateStamp : ℚ
  inTree : Bool
  inQueue : Bool
  suspended : Bool
  prev : Option Addr
  next : Option Addr

/-- The item after values were added, with the stamp of the last one. -/
@[grind] def Item.addValues (i : Item) (last : ℚ) (added : List Text) : Item :=
  { i with
    lastUpdateStamp := last
    values := if added = [] then i.values else some (i.values.getD [] ++ added)
    valuesNum := i.valuesNum + added.length }

/-- A node of the tree: the item whose `file` is the key, and the item stored there. -/
structure TreeNode where
  key : Addr
  value : Addr
deriving DecidableEq

/-- What ends the program. -/
inductive Fault where
  | assertion (text : String)
  | badPointer (a : Addr)

/-- `queue_side_t`. -/
inductive Side where
  | head
  | tail

/-- The data that `cache_lock` protects, and `stats_queue_length`. -/
structure State where
  state : RunState
  heap : Addr → Option Item
  keys : List Text
  tree : Text → Option TreeNode
  head : Option Addr
  tail : Option Addr
  queueLength : ℕ

@[grind] def init : State where
  state := .running
  heap _ := none
  keys := []
  tree _ := none
  head := none
  tail := none
  queueLength := 0

/-! ### Memory -/

namespace State

def deref (s : State) (a : Addr) : Except Fault Item :=
  match s.heap a with
  | none => .error (.badPointer a)
  | some i => .ok i

@[grind] def store (s : State) (a : Addr) (i : Item) : State :=
  { s with heap := Function.update s.heap a (some i) }

def assert (text : String) (p : Prop) [Decidable p] : Except Fault Unit :=
  if p then .ok () else .error (.assertion text)

/-! ### The queue -/

/-- Make `q` the item after `p`, or the head. -/
def linkNext (s : State) (p q : Option Addr) : Except Fault State :=
  match p with
  | none => .ok { s with head := q }
  | some p => do
    let i ← s.deref p
    .ok (s.store p { i with next := q })

/-- Make `p` the item before `q`, or the tail. -/
def linkPrev (s : State) (q p : Option Addr) : Except Fault State :=
  match q with
  | none => .ok { s with tail := p }
  | some q => do
    let i ← s.deref q
    .ok (s.store q { i with prev := p })

/-- `remove_from_queue`. -/
@[grind] def removeFromQueue (s : State) (a : Addr) : Except Fault State := do
  let i ← s.deref a
  if !i.inQueue then .ok s
  else
    let s ← s.linkNext i.prev i.next
    let i ← s.deref a
    let s ← s.linkPrev i.next i.prev
    let i ← s.deref a
    let s := s.store a { i with next := none, prev := none, inQueue := false }
    assert "stats_queue_length > 0" (0 < s.queueLength)
    .ok { s with queueLength := s.queueLength - 1 }

/-- `free_cache_item`. -/
@[grind] def freeCacheItem (s : State) (a : Addr) : Except Fault State := do
  let s ← s.removeFromQueue a
  .ok { s with heap := Function.update s.heap a none }

/-- The links that `enqueue_cache_item (ci, HEAD)` writes. -/
@[grind] def linkHead (s : State) (a : Addr) : Except Fault State := do
  let i ← s.deref a
  let next := s.head
  let s := s.store a { i with prev := none, next := next }
  let s ←
    match next with
    | none => .ok s
    | some n => s.linkPrev (some n) (some a)
  let s := { s with head := some a }
  .ok (if s.tail = none then { s with tail := s.head } else s)

/-- The end of `enqueue_cache_item`: the item is in the list. -/
def markQueued (s : State) (a : Addr) : Except Fault State := do
  let i ← s.deref a
  .ok { s.store a { i with inQueue := true } with queueLength := s.queueLength + 1 }

/-- `enqueue_cache_item`. -/
@[grind] def enqueueCacheItem (s : State) (a : Addr) (side : Side) : Except Fault State := do
  let i ← s.deref a
  if i.valuesNum = 0 then .ok s
  else
    match side with
    | .head =>
      if s.head = some a then .ok s
      else
        -- remove if further down in queue
        let s ← s.removeFromQueue a
        let s ← s.linkHead a
        s.markQueued a
    | .tail =>
      -- We don't move values back in the list
      if i.inQueue then .ok s
      else
        assert "ci->next == NULL" (i.next = none)
        assert "ci->prev == NULL" (i.prev = none)
        let tail := s.tail
        let s := s.store a { i with prev := tail }
        let s ← s.linkNext tail (some a)
        let s := { s with tail := some a }
        s.markQueued a

/-! ### The cache -/

/-- `wipe_ci_values`, with the result of `rrd_random`. -/
@[grind] def wipeCiValues (cfg : Config) (i : Item) (now : ℤ) (random : ℕ) : Item :=
  { i with
    values := none
    valuesNum := 0
    lastFlushTime := Daemon.wipeTime cfg now random }

/-- `g_tree_remove`, which calls `free_cache_item`: whether the key was found. -/
@[grind] def treeRemove (s : State) (file : Text) : Except Fault (Bool × State) :=
  match s.tree file with
  | none => .ok (false, s)
  | some n => do
    let s := { s with keys := s.keys.erase file, tree := Function.update s.tree file none }
    let s ← s.freeCacheItem n.value
    .ok (true, s)

/-- `tree_callback_flush`: the item is queued, or its key is collected for removal. -/
@[grind] def treeCallbackFlush (cfg : Config) (now absTimeout : ℤ) (p : State × List Text) (file : Text) :
    Except Fault (State × List Text) :=
  match p.1.tree file with
  | none => .ok p
  | some n => do
    let i ← p.1.deref n.value
    if i.inQueue then .ok p
    else if 0 < i.valuesNum ∧ (i.lastFlushTime ≤ absTimeout ∨ p.1.state ≠ .running) ∧ !i.suspended then
      let s ← p.1.enqueueCacheItem n.value .tail
      .ok (s, p.2)
    else if cfg.flushInterval ≤ now - i.lastFlushTime ∧ i.valuesNum = 0 then
      assert "(char *) key == ci->file" (n.key = n.value)
      .ok (p.1, p.2 ++ [file])
    else .ok p

/-- The removal of a collected key. -/
def removeKey (s : State) (file : Text) : Except Fault State := do
  let (status, s) ← s.treeRemove file
  assert "status == TRUE" (status = true)
  .ok s

/-- `flush_old_values`. -/
@[grind] def flushOldValues (cfg : Config) (s : State) (now maxAge : ℤ) : Except Fault State := do
  let absTimeout := if 0 < maxAge then now - maxAge else now + 2 * cfg.writeJitter + 1
  let (s, keys) ← s.keys.foldlM (treeCallbackFlush cfg now absTimeout) (s, [])
  keys.foldlM removeKey s

/-- The loop of `handle_request_update` over the values, and the test whether the item is due. `lost`
tells which of the values taken find no memory. -/
@[grind] def takeUpdate (cfg : Config) (s : State) (a : Addr) (values : List Text) (now : ℤ) (lost : ℕ → Bool) :
    Except Fault State := do
  let i ← s.deref a
  let (taken, last, e) := Daemon.takeValues i.lastUpdateStamp values
  let added := (taken.zipIdx.filter fun p => !lost p.2).map Prod.fst
  let i := i.addValues last added
  let s := s.store a i
  match e with
  | some _ => .ok s
  | none =>
    if cfg.writeInterval ≤ now - i.lastFlushTime ∧ !i.inQueue ∧ !i.suspended ∧ 0 < i.valuesNum then
      s.enqueueCacheItem a .tail
    else .ok s

/-- A new item of the tree, before its values are taken. -/
def newItem (cfg : Config) (file : Text) (stamp : ℚ) (now : ℤ) (random : ℕ) : Item :=
  wipeCiValues cfg
    { file := file, values := none, valuesNum := 0, lastFlushTime := 0, lastUpdateStamp := stamp
      inTree := true, inQueue := false, suspended := false, prev := none, next := none } now random

/-- Set the suspended flag of the item of a key. -/
def setSuspended (b : Bool) (s : State) (file : Text) : Except Fault State :=
  match s.tree file with
  | none => .ok s
  | some n => do
    let i ← s.deref n.value
    .ok (s.store n.value { i with suspended := b })

end State

/-! ### Operations -/

/-- A critical section under `cache_lock`. -/
inductive Act where
  /-- `UPDATE` of a file that is in the tree. -/
  | update (file : Text) (values : List Text) (now : ℤ) (lost : ℕ → Bool)
  /-- `UPDATE` of a file that was not in the tree, with the new item at `a`. -/
  | insert (a : Addr) (file : Text) (stamp : ℚ) (values : List Text) (now : ℤ) (random : ℕ)
      (lost : ℕ → Bool)
  | flush (file : Text)
  /-- `FLUSHALL`, and the flush thread. -/
  | flushOld (now maxAge : ℤ)
  | forget (file : Text)
  | suspend (file : Text)
  | resume (file : Text)
  | suspendAll
  | resumeAll
  /-- A `wrote` record during replay. -/
  | wrote (file : Text) (now : ℤ) (random : ℕ)
  /-- A queue thread takes the item at the head. -/
  | dequeue (now : ℤ) (random : ℕ)
  | setState (state : RunState)

open State in
/-- One critical section. `malloc` never returns the address of an item in use. -/
@[grind] def step (cfg : Config) (s : State) : Act → Except Fault State
  | .update file values now lost =>
    match s.tree file with
    | none => .ok s
    | some n => s.takeUpdate cfg n.value values now lost
  | .insert a file stamp values now random lost =>
    if (s.heap a).isSome then .ok s
    else do
      let s := s.store a (newItem cfg file stamp now random)
      -- another UPDATE might have added this entry in the meantime
      let (s, ci) ←
        match s.tree file with
        | none =>
          .ok ({ s with
            keys := s.keys.orderedInsert (· ≤ ·) file
            tree := Function.update s.tree file (some ⟨a, a⟩) }, a)
        | some n => do
          let s ← s.freeCacheItem a
          .ok (s, n.value)
      if s.state = .shutdown then .ok s else s.takeUpdate cfg ci values now lost
  | .flush file =>
    match s.tree file with
    | none => .ok s
    | some n => do
      let i ← s.deref n.value
      if 0 < i.valuesNum ∧ !i.suspended then s.enqueueCacheItem n.value .head else .ok s
  | .flushOld now maxAge => s.flushOldValues cfg now maxAge
  | .forget file => do
    let (_, s) ← s.treeRemove file
    .ok s
  | .suspend file => s.setSuspended true file
  | .resume file => s.setSuspended false file
  | .suspendAll => s.keys.foldlM (setSuspended true) s
  | .resumeAll => s.keys.foldlM (setSuspended false) s
  | .wrote file now random =>
    match s.tree file with
    | none => .ok s
    | some n => do
      let i ← s.deref n.value
      let s := s.store n.value (wipeCiValues cfg i now random)
      s.removeFromQueue n.value
  | .dequeue now random =>
    match s.head with
    | none => .ok s
    | some a => do
      let i ← s.deref a
      assert "ci->values != NULL" (i.values.isSome = true)
      assert "ci->values_num > 0" (0 < i.valuesNum)
      let s := s.store a (wipeCiValues cfg i now random)
      s.removeFromQueue a
  | .setState state => .ok { s with state := state }

/-- The state after a list of critical sections. -/
@[grind] def run (cfg : Config) (s : State) (acts : List Act) : Except Fault State :=
  acts.foldlM (step cfg) s

end Queue

end Rrdtool
