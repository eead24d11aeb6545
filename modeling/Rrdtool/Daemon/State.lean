import Rrdtool.Update.Process
import Mathlib.Data.Char
import Mathlib.Data.List.Lex
import Mathlib.Data.List.Sort

/-!
# The caching daemon: state and operations on the cache

Port of the data of `src/rrd_daemon.c` and of the functions that run under `cache_lock` or
`journal_lock`: the cache tree, the queue of items to be written, the batches the queue threads have
taken, the requests that have released the lock, and the journal sets.

`CI_FLAGS_IN_QUEUE` is membership in `queue`, and the doubly linked queue is a list of file names.
File names are the absolute ones. A journal set is the list of the records of its files.

Each accepted value carries its number among all accepted values. These numbers, and the fields at
the end of `Daemon`, record what has happened and are read by no operation.
-/

namespace Rrdtool

/-! ### Data -/

/-- An update value in the cache, with its number among the accepted values. -/
structure Value where
  id : ℕ
  text : Text
deriving DecidableEq

/-- `cache_item_t`. -/
structure CacheItem where
  values : List Value
  lastFlushTime : ℤ
  lastUpdateStamp : ℚ
  suspended : Bool
deriving DecidableEq

/-- How far a queue thread is with its batch. -/
inductive BatchPhase where
  | detached
  | updated
  | journaled
deriving DecidableEq

/-- The batch of a queue thread. -/
structure Batch where
  file : Text
  values : List Value
  phase : BatchPhase
deriving DecidableEq

/-- A line of the journal. `base` is the number the first value of an update gets if accepted. -/
inductive Record where
  | update (file : Text) (base : ℕ) (values : List Text)
  | wrote (file : Text)
  | forget (file : Text)
deriving DecidableEq

@[grind] def Record.file : Record → Text
  | .update file _ _ => file
  | .wrote file => file
  | .forget file => file

/-- A request between two critical sections: an `UPDATE` of a file that is not in the tree, before
and after its time was read, `flush_file` before and after it is woken, and a `FORGET` before its
record is written. `seen` is the number of values accepted when `flush_file` began. -/
inductive Request where
  | missed (file : Text) (values : List Text)
  | opened (file : Text) (values : List Text) (stamp : ℚ)
  | waiting (file : Text) (seen : ℕ)
  | woken (file : Text) (seen : ℕ)
  | forgot (file : Text)
deriving DecidableEq

/-- The request after a broadcast to those that wait for `file`. -/
@[grind] def Request.wake (file : Text) : Request → Request
  | .waiting f seen => if f = file then .woken f seen else .waiting f seen
  | r => r

/-- What a client is told. -/
inductive Reply where
  | noTimestamp (value : Text)
  | illegalTime (stamp last : ℚ)
  | noValues
  | enqueued (count : ℕ)
  | noSuchFile (file : Text)
  | rrdError (file : Text)
  | invalidTimestamp
  | connectionClosed
  | flushed (file : Text)
  | nothingToFlush (file : Text)
  | cannotFlush (file : Text)
  | startedFlush
  | gone
  | notFound
  | noEntry (file : Text)
  | suspended (file : Text) (already : Bool)
  | resumed (file : Text) (already : Bool)
  | suspendedAll (count : ℕ)
  | resumedAll (count : ℕ)
deriving DecidableEq

/-- `%lf`, of an exact number. -/
def showLf (q : ℚ) : String :=
  let micros := ⌊|q| * 10 ^ 6 + 1 / 2⌋₊
  let decimals := toString (10 ^ 6 + micros % 10 ^ 6)
  (if q < 0 then "-" else "") ++ toString (micros / 10 ^ 6) ++ "." ++ String.ofList decimals.toList.tail

/-- The text of a reply, without the line end; `rrdError` stands for what `rrd_get_error` says. -/
def Reply.text : Reply → String
  | .noTimestamp value => "Cannot find timestamp in '" ++ String.ofList value ++ "'!"
  | .illegalTime stamp last =>
    "illegal attempt to update using time " ++ showLf stamp ++ " when last update time is " ++
      showLf last ++ " (minimum one second step)"
  | .noValues => "No values updated."
  | .enqueued count => "errors, enqueued " ++ toString count ++ " value(s)."
  | .noSuchFile file => "No such file: " ++ String.ofList file
  | .rrdError file => "RRD Error: " ++ String.ofList file
  | .invalidTimestamp => "Error: rrdcached: Invalid timestamp returned"
  | .connectionClosed => ""
  | .flushed file => "Successfully flushed " ++ String.ofList file ++ "."
  | .nothingToFlush file => "Nothing to flush: " ++ String.ofList file ++ "."
  | .cannotFlush file => "No such file: " ++ String.ofList file ++ "."
  | .startedFlush => "Started flush."
  | .gone => "Gone!"
  | .notFound => "No such file or directory"
  | .noEntry file => String.ofList file ++ " - No such file or directory"
  | .suspended file already =>
    String.ofList file ++ (if already then " already suspended" else " suspended")
  | .resumed file already => String.ofList file ++ (if already then " not suspended" else " resumed")
  | .suspendedAll count => toString count ++ " rrds suspend"
  | .resumedAll count => toString count ++ " rrds resumed"

/-- The state of the daemon. -/
inductive RunState where
  | running
  | flushing
  | shutdown
deriving DecidableEq

/-- Where the flush thread is: waiting, before `journal_rotate`, or before it removes the old set. -/
inductive FlushPc where
  | waiting
  | flushed
  | rotated
deriving DecidableEq

/-- The command line. -/
structure Config where
  writeInterval : ℤ
  writeJitter : ℕ
  flushInterval : ℤ
  queueThreads : ℕ
  journalDir : Bool

/-- A call of `rrd_update_r` by a queue thread: the file before it and whether it succeeded. -/
structure Handover where
  file : Text
  values : List Value
  host : Host
  rrd : Option Rrd
  ok : Bool

structure Daemon where
  state : RunState
  flushAtShutdown : Bool
  keys : List Text
  tree : Text → Option CacheItem
  queue : List Text
  active : List Batch
  requests : ℕ → Option Request
  files : Text → Option Rrd
  flushPc : FlushPc
  journalFh : Bool
  doomed : List Record
  journalOld : List Record
  journalCur : List Record
  accepted : List (Text × Value)
  forgotten : List (Text × Value)
  handovers : List Handover
  /-- The number of values accepted before the latest rotation, and before the one before it. -/
  mark : ℕ
  lastMark : ℕ
  replies : List (ℕ × Reply)

/-- A daemon that has just started. -/
@[grind] def Daemon.init (cfg : Config) (flushAtShutdown : Bool) (files : Text → Option Rrd) : Daemon where
  state := .running
  flushAtShutdown := flushAtShutdown
  keys := []
  tree _ := none
  queue := []
  active := []
  requests _ := none
  files := files
  flushPc := .waiting
  journalFh := cfg.journalDir
  doomed := []
  journalOld := []
  journalCur := []
  accepted := []
  forgotten := []
  handovers := []
  mark := 0
  lastMark := 0
  replies := []

namespace Daemon

variable (cfg : Config)

/-! ### Requests -/

def setRequest (d : Daemon) (client : ℕ) (r : Option Request) : Daemon :=
  { d with requests := Function.update d.requests client r }

@[grind] def reply (d : Daemon) (client : ℕ) (r : Reply) : Daemon :=
  { d with
    requests := Function.update d.requests client none
    replies := d.replies ++ [(client, r)] }

/-! ### The journal -/

/-- `journal_write`. -/
@[grind] def journalWrite (d : Daemon) (r : Record) : Daemon :=
  if d.journalFh then { d with journalCur := d.journalCur ++ [r] } else d

/-- `journal_new_file`; when it fails, journalling ends and everything is flushed at shutdown. -/
def journalNewFile (d : Daemon) (ok : Bool) : Daemon :=
  { d with journalFh := ok, flushAtShutdown := d.flushAtShutdown || !ok }

/-- `journal_rotate`, under `journal_lock`. -/
@[grind] def journalRotate (d : Daemon) (ok : Bool) : Daemon :=
  if cfg.journalDir then
    { d with
      doomed := d.journalOld
      journalOld := d.journalCur
      journalCur := []
      mark := d.accepted.length
      lastMark := d.mark }.journalNewFile ok
  else d

/-! ### The queue -/

/-- `enqueue_cache_item (ci, HEAD)`, for the item of `file`. -/
def enqueueHead (d : Daemon) (file : Text) (ci : CacheItem) : Daemon :=
  if ci.values = [] ∨ d.queue.head? = some file then d
  else { d with queue := file :: d.queue.erase file }

/-- `enqueue_cache_item (ci, TAIL)`, for the item of `file`. -/
@[grind] def enqueueTail (d : Daemon) (file : Text) (ci : CacheItem) : Daemon :=
  if ci.values = [] ∨ file ∈ d.queue then d else { d with queue := d.queue ++ [file] }

def setActive (d : Daemon) (active : List Batch) : Daemon := { d with active := active }

/-! ### Cache items -/

/-- The time `wipe_ci_values` sets, with the result of `rrd_random`. -/
def wipeTime (now : ℤ) (random : ℕ) : ℤ :=
  if 0 < cfg.writeJitter then now + (random % cfg.writeJitter : ℕ) else now

/-- `wipe_ci_values`. -/
@[grind] def wipeCiValues (ci : CacheItem) (now : ℤ) (random : ℕ) : CacheItem :=
  { ci with values := [], lastFlushTime := wipeTime cfg now random }

/-- A new item, in the tree. -/
@[grind] def addItem (d : Daemon) (file : Text) (stamp : ℚ) (now : ℤ) (random : ℕ) : Daemon :=
  { d with
    keys := d.keys.orderedInsert (· ≤ ·) file
    tree := Function.update d.tree file
      (some (wipeCiValues cfg ⟨[], 0, stamp, false⟩ now random)) }

@[grind] def setItem (d : Daemon) (file : Text) (ci : CacheItem) : Daemon :=
  { d with tree := Function.update d.tree file (some ci) }

/-- `pthread_cond_broadcast (&ci->flushed)`: whoever waits for the file is woken. -/
@[grind] def broadcast (d : Daemon) (file : Text) : Daemon :=
  { d with requests := fun client => (d.requests client).map (·.wake file) }

/-- `g_tree_remove`, which calls `free_cache_item`. -/
@[grind] def removeItem (d : Daemon) (file : Text) : Daemon :=
  { d with
    keys := d.keys.erase file
    tree := Function.update d.tree file none
    queue := d.queue.erase file }.broadcast file

/-! ### Flushing -/

/-- `tree_callback_flush`: the item is queued, or its key is collected for removal. -/
@[grind] def treeCallbackFlush (now absTimeout : ℤ) (p : Daemon × List Text) (file : Text) :
    Daemon × List Text :=
  match p.1.tree file with
  | none => p
  | some ci =>
    if file ∈ p.1.queue then p
    else if ci.values ≠ [] ∧ (ci.lastFlushTime ≤ absTimeout ∨ p.1.state ≠ .running) ∧ !ci.suspended then
      (p.1.enqueueTail file ci, p.2)
    else if cfg.flushInterval ≤ now - ci.lastFlushTime ∧ ci.values = [] then (p.1, p.2 ++ [file])
    else p

/-- `flush_old_values`. -/
@[grind] def flushOldValues (d : Daemon) (now maxAge : ℤ) : Daemon :=
  let absTimeout := if 0 < maxAge then now - maxAge else now + 2 * cfg.writeJitter + 1
  let (d, keys) := d.keys.foldl (treeCallbackFlush cfg now absTimeout) (d, [])
  keys.foldl removeItem d

/-! ### Updates -/

/-- The time stamp of a value: a number with `:` behind it. -/
def stampOf (value : Text) : Option ℚ :=
  match rrdStrtodbl value with
  | .partly q (':' :: _) => some q
  | _ => none

/-- The loop over the values of an `UPDATE`: the values taken, the last stamp, and the error that
ended it. -/
@[grind] def takeValues (stamp : ℚ) : List Text → List Text × ℚ × Option Reply
  | [] => ([], stamp, none)
  | value :: values =>
    match stampOf value with
    | none => ([], stamp, some (.noTimestamp value))
    | some q =>
      if q ≤ stamp then ([], stamp, some (.illegalTime q stamp))
      else
        let (taken, last, e) := takeValues q values
        (value :: taken, last, e)

/-- Number the values taken. -/
@[grind] def numbered (base : ℕ) (taken : List Text) : List Value :=
  taken.mapIdx fun i text => ⟨base + i, text⟩

/-- `handle_request_update` from the loop on, for the item of `file`. After an error the item is not
queued. -/
@[grind] def takeUpdate (d : Daemon) (file : Text) (ci : CacheItem) (values : List Text) (now : ℤ) :
    Daemon × Reply :=
  let (taken, last, e) := takeValues ci.lastUpdateStamp values
  let new := numbered d.accepted.length taken
  let ci := { ci with values := ci.values ++ new, lastUpdateStamp := last }
  let d := { d.setItem file ci with accepted := d.accepted ++ new.map (file, ·) }
  match e with
  | some e => (d, e)
  | none =>
    (if cfg.writeInterval ≤ now - ci.lastFlushTime ∧ !ci.suspended then d.enqueueTail file ci else d,
      if taken = [] then .noValues else .enqueued taken.length)

end Daemon

end Rrdtool
