import Rrdtool.Daemon.State
import Rrdtool.Protocol.Field

/-!
# The caching daemon: steps

The transition system of `src/rrd_daemon.c`. A step is one critical section under `cache_lock` or
`journal_lock`, or one action outside the locks: reading the time of a file that is not in the tree,
`rrd_update_r` on a batch, the removal of a journal set. Clients, the flush thread and the queue
threads take their steps in any order. Clocks and random numbers come with the action.

`journalReplay` is what a daemon that starts again does with the journal of one that crashed.
-/

namespace Rrdtool

/-- A record as a line of the journal. The request of an update is written as the client sent it. -/
def Record.line : Record → Text
  | .update file _ values => "update ".toList ++ (joined (file :: values)).dropLast ++ ['\n']
  | .wrote file => "wrote ".toList ++ file ++ ['\n']
  | .forget file => "forget ".toList ++ file ++ ['\n']

inductive Act where
  /-- `UPDATE`: the first critical section of `handle_request_update`. -/
  | update (client : ℕ) (file : Text) (values : List Text) (now : ℤ)
  /-- `stat` and `rrd_open`, without a lock. -/
  | openFile (client : ℕ) (ok : Bool)
  /-- The second critical section of `handle_request_update`. -/
  | insert (client : ℕ) (now : ℤ) (random : ℕ)
  /-- `flush_file` up to its wait. -/
  | flush (client : ℕ) (file : Text)
  /-- `flush_file` after its wait. -/
  | flushReturn (client : ℕ)
  /-- `pthread_cond_wait` returns without a broadcast. -/
  | spuriousWakeup (client : ℕ)
  | flushAll (client : ℕ) (now : ℤ)
  /-- `FORGET` up to its record. -/
  | forget (client : ℕ) (file : Text)
  | forgetRecord (client : ℕ)
  | suspend (client : ℕ) (file : Text)
  | resume (client : ℕ) (file : Text)
  | suspendAll (client : ℕ)
  | resumeAll (client : ℕ)
  /-- The flush thread flushes old values. -/
  | tick (now : ℤ)
  /-- The flush thread rotates the journal. -/
  | rotate (ok : Bool)
  /-- The flush thread removes the journal set that was rotated out. -/
  | removeOld
  /-- A journal file has reached its size. -/
  | newJournalFile (ok : Bool)
  | signal
  /-- The flush thread ends. -/
  | flushExit (now : ℤ)
  /-- A queue thread takes the batch at the head of the queue. -/
  | dequeue (now : ℤ) (random : ℕ)
  /-- The queue thread with batch `i` calls `rrd_update_r`. -/
  | write (i : ℕ) (host : Host)
  | wroteRecord (i : ℕ)
  /-- The queue thread with batch `i` wakes the waiting clients and is done with it. -/
  | finish (i : ℕ)

namespace Daemon

variable (cfg : Config)

/-- Set the suspended flag of every item. -/
@[grind] def setAllSuspended (d : Daemon) (b : Bool) : Daemon :=
  { d with tree := fun file => (d.tree file).map fun ci => { ci with suspended := b } }

/-- The number of items whose suspended flag differs from `b`. -/
def countSuspended (d : Daemon) (b : Bool) : ℕ :=
  d.keys.countP fun file => (d.tree file).any fun ci => ci.suspended != b

/-- `rrd_update_r` on a batch. -/
@[grind] def rrdUpdateR (host : Host) (rrd : Rrd) (values : List Value) : Rrd × Bool :=
  match rrdUpdatex host rrd.defaultTemplate false rrd (values.map (·.text)) with
  | (rrd, .ok _) => (rrd, true)
  | (rrd, .error _) => (rrd, false)

/-- The batch of a queue thread is written. -/
@[grind] def writeBatch (d : Daemon) (i : ℕ) (b : Batch) (host : Host) : Daemon :=
  let active := d.active.set i { b with phase := .updated }
  match d.files b.file with
  | none =>
    { d with active := active, handovers := d.handovers ++ [⟨b.file, b.values, host, none, false⟩] }
  | some rrd =>
    let (rrd', ok) := rrdUpdateR host rrd b.values
    { d with
      active := active
      files := Function.update d.files b.file (some rrd')
      handovers := d.handovers ++ [⟨b.file, b.values, host, some rrd, ok⟩] }

/-- An `UPDATE` of a file that is in the tree: the request is journalled and its values are taken. -/
def journaledUpdate (d : Daemon) (client : ℕ) (file : Text) (ci : CacheItem) (values : List Text)
    (now : ℤ) : Daemon :=
  let d := d.journalWrite (.update file d.accepted.length values)
  let (d, r) := d.takeUpdate cfg file ci values now
  d.reply client r

/-- One step; `none` when it is not possible. -/
@[grind] def step (d : Daemon) : Act → Option Daemon
  | .update client file values now =>
    match d.requests client, d.tree file with
    | some _, _ => none
    | none, some ci => some (d.journaledUpdate cfg client file ci values now)
    | none, none => some (d.setRequest client (some (.missed file values)))
  | .openFile client ok =>
    match d.requests client with
    | some (.missed file values) =>
      match d.files file with
      | none => some (d.reply client (.noSuchFile file))
      | some rrd =>
        if !ok then some (d.reply client (.rrdError file))
        else if rrd.lastUp < 1 then some (d.reply client .invalidTimestamp)
        else some (d.setRequest client (some (.opened file values rrd.lastUp)))
    | _ => none
  | .insert client now random =>
    match d.requests client with
    | some (.opened file values stamp) =>
      -- another UPDATE may have added the item in the meantime
      let d := if d.tree file = none then d.addItem cfg file stamp now random else d
      if d.state = .shutdown then some (d.reply client .connectionClosed)
      else
        match d.tree file with
        | none => none
        | some ci => some (d.journaledUpdate cfg client file ci values now)
    | _ => none
  | .flush client file =>
    match d.requests client, d.tree file with
    | some _, _ => none
    | none, none =>
      some (d.reply client (if d.files file = none then .cannotFlush file else .nothingToFlush file))
    | none, some ci =>
      if ci.values ≠ [] ∧ !ci.suspended then
        some ((d.enqueueHead file ci).setRequest client (some (.waiting file d.accepted.length)))
      else some (d.reply client (.flushed file))
  | .flushReturn client =>
    match d.requests client with
    | some (.woken file _) => some (d.reply client (.flushed file))
    | _ => none
  | .spuriousWakeup client =>
    match d.requests client with
    | some (.waiting file seen) => some (d.setRequest client (some (.woken file seen)))
    | _ => none
  | .flushAll client now =>
    match d.requests client with
    | some _ => none
    | none => some ((d.flushOldValues cfg now (-1)).reply client .startedFlush)
  | .forget client file =>
    match d.requests client, d.tree file with
    | some _, _ => none
    | none, none => some (d.reply client .notFound)
    | none, some ci =>
      some ({ d with forgotten := d.forgotten ++ ci.values.map (file, ·) }.removeItem file
        |>.setRequest client (some (.forgot file)))
  | .forgetRecord client =>
    match d.requests client with
    | some (.forgot file) => some ((d.journalWrite (.forget file)).reply client .gone)
    | _ => none
  | .suspend client file =>
    match d.requests client, d.tree file with
    | some _, _ => none
    | none, none => some (d.reply client (.noEntry file))
    | none, some ci =>
      some ((d.setItem file { ci with suspended := true }).reply client (.suspended file ci.suspended))
  | .resume client file =>
    match d.requests client, d.tree file with
    | some _, _ => none
    | none, none => some (d.reply client (.noEntry file))
    | none, some ci =>
      some ((d.setItem file { ci with suspended := false }).reply client (.resumed file !ci.suspended))
  | .suspendAll client =>
    match d.requests client with
    | some _ => none
    | none => some ((d.setAllSuspended true).reply client (.suspendedAll (d.countSuspended true)))
  | .resumeAll client =>
    match d.requests client with
    | some _ => none
    | none => some ((d.setAllSuspended false).reply client (.resumedAll (d.countSuspended false)))
  | .tick now =>
    if d.state = .running ∧ d.flushPc = .waiting then
      some { d.flushOldValues cfg now cfg.writeInterval with flushPc := .flushed }
    else none
  | .rotate ok =>
    if d.flushPc = .flushed then some { d.journalRotate cfg ok with flushPc := .rotated } else none
  | .removeOld =>
    if d.flushPc = .rotated then some { d with doomed := [], flushPc := .waiting } else none
  | .newJournalFile ok => if d.journalFh then some (d.journalNewFile ok) else none
  | .signal => if d.state = .running then some { d with state := .flushing } else none
  | .flushExit now =>
    if d.state = .flushing ∧ d.flushPc = .waiting then
      let d := if d.flushAtShutdown then d.flushOldValues cfg now (-1) else d
      some { d with state := .shutdown }
    else none
  | .dequeue now random =>
    match d.queue with
    | [] => none
    | file :: queue =>
      match d.tree file with
      | none => none
      | some ci =>
        -- a thread that waits for work takes it after shutdown as well
        if d.active.length < cfg.queueThreads then
          some { d.setItem file (wipeCiValues cfg ci now random)
              |>.setActive (d.active ++ [⟨file, ci.values, .detached⟩]) with queue := queue }
        else none
  | .write i host =>
    match d.active[i]? with
    | some b => if b.phase = .detached then some (d.writeBatch i b host) else none
    | none => none
  | .wroteRecord i =>
    match d.active[i]? with
    | some b =>
      if b.phase = .updated then
        some ((d.journalWrite (.wrote b.file)).setActive
          (d.active.set i { b with phase := .journaled }))
      else none
    | none => none
  | .finish i =>
    match d.active[i]? with
    | some b =>
      if b.phase = .journaled then
        some ((if d.tree b.file = none then d else d.broadcast b.file).setActive
          (d.active.eraseIdx i))
      else none
    | none => none

/-- The state after a list of steps. -/
abbrev run : Daemon → List Act → Option Daemon := Run.run (step cfg)

/-! ### Replay -/

/-- A record of the journal, during replay: `handle_request_update`, `handle_request_wrote` and
`handle_request_forget` without a client. -/
@[grind] def replayRecord (now : ℤ) (random : ℕ) (d : Daemon) : Record → Daemon
  | .update file _ values =>
    match d.tree file with
    | some ci => (d.takeUpdate cfg file ci values now).1
    | none =>
      match d.files file with
      | none => d
      | some rrd =>
        if rrd.lastUp < 1 then d
        else
          let d := d.addItem cfg file rrd.lastUp now random
          match d.tree file with
          | none => d
          | some ci => (d.takeUpdate cfg file ci values now).1
  | .wrote file =>
    match d.tree file with
    | none => d
    | some ci =>
      { d.setItem file (wipeCiValues cfg ci now random) with queue := d.queue.erase file }
  | .forget file =>
    -- the name was written as it is, and is read as a field
    match bufferGetField file with
    | none => d
    | some (file, _) => if d.tree file = none then d else d.removeItem file

/-- The daemon that starts with the files and the journal that another one has left. A line that does
not fit the buffer is read in pieces, and none of them is a request. -/
def journalReplay (now : ℤ) (random : ℕ) (flushAtShutdown : Bool) (files : Text → Option Rrd)
    (journal : List Record) : Daemon :=
  (journal.filter fun r => r.line.length < rrdCmdMax).foldl (replayRecord cfg now random)
    (.init cfg flushAtShutdown files)

/-- The journal on disk, oldest record first. -/
@[grind] def journal (d : Daemon) : List Record := d.doomed ++ d.journalOld ++ d.journalCur

end Daemon

end Rrdtool
