import Rrdtool.Daemon.Command
import Rrdtool.Lib.Printf
import Rrdtool.Protocol.Response

/-!
# The length of a response

The formats that the handlers of `src/rrd_daemon.c` give to `add_response_info` and `send_response`, and the lengths that
these two hand on. They take the length that `vsnprintf` returns, which is that of the whole text, for the number of
bytes in their buffer of `RRD_CMD_MAX` bytes. A field of a request is up to `RBUF_SIZE` bytes long, twice as much, so
that a response can end with bytes that nothing has been formatted into (`handleRequest_formatted_iff`).

How a floating-point number is printed is a parameter.
-/

namespace Rrdtool

open Printf

/-- What is printed. -/
inductive Arg where
  | str (s : Text)
  | int (v : ℤ)
  | uint (n : ℕ)
  | real (v : RrdValue)

/-- The formats of `add_response_info`. -/
def infoFormats : List String :=
  ["%s%s: BinaryData %i %i %s\n", "QueueLength: %lu\n", "UpdatesReceived: %lu\n", "FlushesReceived: %lu\n",
    "UpdatesWritten: %lu\n", "DataSetsWritten: %lu\n", "TreeNodesNumber: %lu\n", "TreeDepth: %lu\n", "JournalBytes: %lu\n",
    "JournalRotate: %lu\n", "%s\n", "%d %s\n", "FlushVersion: %lu\n", "Start: %lu\n", "End: %lu\n", "Step: %lu\n",
    "DSCount: %lu\n", "DSName: ", "%s", " %s", "\n", "%10lu:", " %0.17e", "%s %d NaN\n", "%s %d %0.10e\n", "%s %d %lu\n",
    "%s %d %d\n", "%s %d %s\n", "Usage: %s\n"]

/-- The formats of `send_response`. -/
def statusFormats : List String :=
  ["Usage: %s", "Statistics follow\n", "%s\n", "%s: %s\n", "Successfully flushed %s.\n", "Nothing to flush: %s.\n",
    "No such file: %s.\n", "Internal error.\n", "Failed with status %i.\n", "Started flush.\n", "updates pending\n", "Gone!\n",
    "in queue.\n", "No such file: %s\n", "stat failed with error %i.\n", "Not a regular file: %s\n",
    "Cannot read/write %s: %s\n", "malloc failed.\n", "strdup failed.\n", "RRD Error: %s\n",
    "Error: rrdcached: Invalid timestamp returned\n", "Cannot find timestamp in '%s'!\n",
    "illegal attempt to update using time %lf when last update time is %lf (minimum one second step)\n",
    "No values updated.\n", "errors, enqueued %i value(s).\n", "%s: failed to stat: %s\n", "%s: failed to flush\n",
    "%s: failed to relay dump: %s\n", "Invalid argument count specified (%d)\n", "Got error %s\n", "Success\n",
    "flush_file (%s) failed with status %i.\n", "Cannot parse start time `%s': Only simple integers are allowed.\n",
    "Cannot parse end time `%s': Only simple integers are allowed.\n", "rrd_fetch_r failed: %s\n",
    "too many fields given - duplicates!\n", "field %s not found in %s\n", "field %s already used\n",
    "Failed memory allocation\n", "%i Success\n", "Info for %s follows\n", "Invalid index specified (%d)\n", "%lu\n",
    "No permission to recursively create: %s\nDid you pass -R to the daemon?\n", "Cannot create %s: %s\n",
    "Cannot allocate memory\n", "The first entry must be after 1980.\n", "RRD created OK\n", "No base directory defined\n",
    "Cannot read: %s\n", "stat %s: %s\n", "List %s: %s\n", "RRDs\n", "%s + %s\n", "%s - %s\n", "%s already suspended\n",
    "%s suspended\n", "%s not suspended\n", "%s resumed\n", "%d rrds suspend\n", "%d rrds resumed\n", "Already in BATCH\n",
    "Go ahead.  End with dot '.' on its own line.\n", "errors\n", "Command overview\n", "Help for %s\n",
    "Unknown command: %s\n", "Permission denied.\n", "Can't use '%s' here.\n"]

/-- A call of one of the two functions: its format and the arguments. -/
structure Printed (formats : List String) where
  fmt : String
  known : fmt ∈ formats
  args : List Arg

/-- What a request does to the socket. -/
inductive SockEvent where
  | info (p : Printed infoFormats)
  | send (rc : ResponseCode) (p : Printed statusFormats)
  /-- `wbuf_append` of the values of `FETCHBIN`. -/
  | append (data : Text)
  /-- `batch_start` and `batch_done`. -/
  | batch (start : Bool)
  /-- A command of a batch is counted. -/
  | count

section Formatted

-- the memory behind a buffer on the stack, and the conversions of floating-point numbers
variable (behind : ℕ → Char) (printReal : Text → RrdValue → Text)

/-- The conversions that occur. -/
def render (spec : Text) : Arg → Option Text
  | .str s => if spec = ['s'] then some (cstr s) else none
  | .int v => if spec = ['d'] ∨ spec = ['i'] then some (decimal v) else none
  | .uint n =>
    if spec = "lu".toList then some (ulong n)
    else if spec = "10lu".toList then some ((ulong n).leftpad 10 ' ')
    else none
  | .real v =>
    if spec = "lf".toList ∨ spec = "0.17e".toList ∨ spec = "0.10e".toList then some (printReal spec v) else none

/-- The text that a call prints. -/
@[grind] def Printed.text {formats : List String} (p : Printed formats) : Text :=
  (print (render printReal) (pieces p.fmt.toList) p.args).getD []

/-- What is handed to `write` or `wbuf_append`: the length, and how many bytes have been formatted into the buffer. -/
structure Handed where
  length : ℕ
  formatted : ℕ
deriving DecidableEq

/-- `lines` in `send_response`. -/
@[grind] def statusLines (sock : Sock) (rc : ResponseCode) : ℤ :=
  if sock.batchStart then sock.batchCmd
  else match rc with
    | .ok => countLines sock.wbuf
    | .okBin => 1
    | .err => -1

/-- The number in front of a status, as `send_response` prints it. -/
@[grind] def statusPrefix (sock : Sock) (rc : ResponseCode) : Text :=
  if rc = .okBin then [] else decimal (statusLines sock rc) ++ [' ']

/-- What `add_response_info` hands to `wbuf_append`. -/
@[grind] def handedInfo (sock : Sock) (text : Text) : Option Handed :=
  if sock.batchStart then none
  else
    let (len, written) := vsnprintf rrdCmdMax text
    some ⟨len, written.length⟩

/-- What `send_response` hands to `write`, or to `wbuf_append` in a batch. -/
@[grind] def handedStatus (sock : Sock) (rc : ResponseCode) (text : Text) : Option Handed :=
  if sock.batchStart ∧ rc = .ok then none
  else
    let (rclen, prefixWritten) := vsnprintf rrdCmdMax (statusPrefix sock rc)
    let (len, written) := vsnprintf (rrdCmdMax - rclen) text
    some ⟨len + rclen, prefixWritten.length + written.length⟩

/-- What an event hands on. -/
@[grind] def SockEvent.handed (sock : Sock) : SockEvent → Option Handed
  | .info p => handedInfo sock (p.text printReal)
  | .send rc p => handedStatus sock rc (p.text printReal)
  | _ => none

/-- The socket after an event. -/
@[grind] def SockEvent.step (sock : Sock) : SockEvent → Sock
  | .info p => addResponseInfo behind sock (p.text printReal)
  | .send rc p => (sendResponse behind sock rc (p.text printReal)).2
  | .append data => { sock with wbuf := sock.wbuf ++ data }
  | .batch start => { sock with batchStart := start, batchCmd := 0 }
  | .count => { sock with batchCmd := sock.batchCmd + 1 }

/-- What the events of a request hand on. -/
def handedAll (sock : Sock) : List SockEvent → List Handed
  | [] => []
  | e :: es => (e.handed printReal sock).toList ++ handedAll (e.step behind printReal sock) es

/-- The text of an event in full, with the status number, unless nothing is handed on. -/
@[grind] def SockEvent.full (sock : Sock) : SockEvent → Option Text
  | .info p => if sock.batchStart then none else some (p.text printReal)
  | .send rc p =>
    if sock.batchStart ∧ rc = .ok then none else some (statusPrefix sock rc ++ p.text printReal)
  | _ => none

/-- The texts of a request in full. -/
def fullTexts (sock : Sock) : List SockEvent → List Text
  | [] => []
  | e :: es => (e.full printReal sock).toList ++ fullTexts (e.step behind printReal sock) es

end Formatted

/-- What `handle_request` asks for a command, and its handler. -/
structure Dispatch where
  /-- `socket_permission_check`. -/
  permitted : Command → Bool
  /-- `command_check_context`. -/
  inContext : Command → Bool
  handler : Command → Sock → Text → List SockEvent

/-- `handle_request`, for a client and a buffer with a NUL at its end. In the replay of a journal nothing is handed on. -/
@[grind] def Dispatch.handleRequest (d : Dispatch) (sock : Sock) (buffer : Text) : List SockEvent :=
  match Bytes.bufferGetField buffer with
  | none => []
  | some (cmdStr, rest) =>
    let counted := if sock.batchStart then [.count] else []
    match findCommand (cstr cmdStr) with
    | none => counted ++ [.send .err ⟨"Unknown command: %s\n", by decide, [.str cmdStr]⟩]
    | some cmd =>
      if !d.permitted cmd then counted ++ [.send .err ⟨"Permission denied.\n", by decide, []⟩]
      else if !d.inContext cmd then counted ++ [.send .err ⟨"Can't use '%s' here.\n", by decide, [.str cmdStr]⟩]
      else counted ++ d.handler cmd sock rest

section Lengths

variable {behind : ℕ → Char} {printReal : Text → RrdValue → Text} {sock : Sock}

lemma forall_mem_some {α : Type} {P : α → Prop} {a : α} : (∀ x ∈ some a, P x) ↔ P a := by
  simp

/-- What an event hands on has been formatted exactly if its text in full is shorter than the buffer. -/
lemma SockEvent.handed_le_iff (e : SockEvent) :
    (∀ h ∈ e.handed printReal sock, h.length ≤ h.formatted) ↔
      ∀ t ∈ e.full printReal sock, t.length < rrdCmdMax := by
  have hmax : 0 < rrdCmdMax := by decide
  cases e with
  | info p =>
    rw [SockEvent.handed, SockEvent.full, handedInfo]
    by_cases hbatch : sock.batchStart = true
    · rw [if_pos hbatch, if_pos hbatch]
      exact iff_of_true (fun h hh => nomatch hh) fun t ht => nomatch ht
    · rw [if_neg hbatch, if_neg hbatch, forall_mem_some, forall_mem_some]
      exact vsnprintf_le_iff hmax _
  | send rc p =>
    rw [SockEvent.handed, SockEvent.full, handedStatus]
    by_cases hsilent : sock.batchStart = true ∧ rc = .ok
    · rw [if_pos hsilent, if_pos hsilent]
      exact iff_of_true (fun h hh => nomatch hh) fun t ht => nomatch ht
    · rw [if_neg hsilent, if_neg hsilent, forall_mem_some, forall_mem_some, List.length_append]
      dsimp only [vsnprintf]
      rw [List.length_take, List.length_take]
      omega
  | append data => exact iff_of_true (fun h hh => nomatch hh) fun t ht => nomatch ht
  | batch start => exact iff_of_true (fun h hh => nomatch hh) fun t ht => nomatch ht
  | count => exact iff_of_true (fun h hh => nomatch hh) fun t ht => nomatch ht

/-- The same for all events of a request. -/
lemma handedAll_le_iff (es : List SockEvent) :
    (∀ h ∈ handedAll behind printReal sock es, h.length ≤ h.formatted) ↔
      ∀ t ∈ fullTexts behind printReal sock es, t.length < rrdCmdMax := by
  induction es generalizing sock with
  | nil => exact iff_of_true (fun h hh => nomatch hh) fun t ht => nomatch ht
  | cons e es ih =>
    have hfirst := @SockEvent.handed_le_iff printReal sock e
    simp only [handedAll, fullTexts, List.forall_mem_append, Option.mem_toList]
    exact and_congr hfirst ih

/-- As many bytes are taken as the text has. -/
lemma length_printed (text : Text) : (printed behind text).length = text.length := by
  rw [printed]
  split
  · rfl
  · rename_i hge
    have hmax : rrdCmdMax = 4096 := rfl
    rw [List.length_append, List.length_take, List.length_cons, List.length_map, List.length_range]
    omega

/-- The length that is handed on is what `add_response_info` adds to the buffer. -/
lemma addResponseInfo_length (text : Text) :
    (addResponseInfo behind sock text).wbuf.length =
      sock.wbuf.length + ((handedInfo sock text).map Handed.length).getD 0 := by
  rw [addResponseInfo, handedInfo]
  split
  · rfl
  · exact (List.length_append).trans (congrArg _ (length_printed text))

lemma handedStatus_length (rc : ResponseCode) (text : Text) (h : ¬ (sock.batchStart = true ∧ rc = .ok)) :
    ((handedStatus sock rc text).map Handed.length).getD 0 = (statusPrefix sock rc ++ text).length := by
  rw [handedStatus, if_neg h, List.length_append]
  exact Nat.add_comm _ _

/-- It is what `send_response` writes in front of the buffer, or adds to that of a batch. -/
lemma sendResponse_length (rc : ResponseCode) (text : Text) :
    (sendResponse behind sock rc text).1.length + (sendResponse behind sock rc text).2.wbuf.length =
      ((handedStatus sock rc text).map Handed.length).getD 0 +
        if sock.batchStart = false ∧ rc = .err then 0 else sock.wbuf.length := by
  by_cases hbatch : sock.batchStart = true
  · have hclient : ¬ (sock.batchStart = false ∧ rc = .err) := fun h => Bool.false_ne_true (h.1.symm.trans hbatch)
    unfold sendResponse
    rw [if_pos hbatch, if_neg hclient]
    by_cases hok : rc = .ok
    · rw [if_pos hok, handedStatus, if_pos ⟨hbatch, hok⟩]
      rfl
    · rw [if_neg hok, handedStatus_length rc text fun h => hok h.2, statusPrefix,
        show statusLines sock rc = _ from if_pos hbatch]
      dsimp only
      rw [List.length_nil, Nat.zero_add, List.length_append, length_printed, Nat.add_comm]
  · unfold sendResponse
    rw [if_neg hbatch, handedStatus_length rc text fun h => hbatch h.1, statusPrefix,
      show statusLines sock rc = _ from if_neg hbatch]
    dsimp only
    rw [List.length_append, length_printed, List.length_nil, Nat.add_zero]
    congr 1
    have hopen : sock.batchStart = false := Bool.eq_false_iff.2 hbatch
    by_cases herr : rc = .err
    · rw [if_pos herr, if_pos ⟨hopen, herr⟩, List.length_nil]
    · rw [if_neg herr, if_neg fun h => herr h.2]

end Lengths

/-- No command has a name that is so long. -/
lemma findCommand_of_long {cmd : Text} (h : 10 < cmd.length) : findCommand cmd = none := by
  have hshort : ∀ p ∈ listOfCommands, p.2.toList.length ≤ 10 := by decide
  rw [findCommand, List.find?_eq_none.2 fun p hp hsame => ?_, Option.map_none]
  have hlen := congrArg List.length (of_decide_eq_true hsame)
  rw [List.length_map, List.length_map] at hlen
  have hle := hshort p hp
  omega

/-- A command that does not exist is sent back. -/
lemma handleRequest_unknown (d : Dispatch) {cmd : Text} (hnul : '\x00' ∉ cmd) (hplain : ' ' ∉ cmd ∧ '\\' ∉ cmd)
    (hlen : 10 < cmd.length) (behind : ℕ → Char) (printReal : Text → RrdValue → Text) :
    fullTexts behind printReal accepted (d.handleRequest accepted (cmd ++ ['\x00'])) =
      ["-1 Unknown command: ".toList ++ cmd ++ ['\n']] := by
  have hcstr : cstr cmd = cmd := List.takeWhile_eq_self_iff.2 fun c hc => decide_eq_true fun heq : c = '\x00' => hnul (heq ▸ hc)
  have htext : print (render printReal) (pieces "Unknown command: %s\n".toList) [.str cmd] =
      some ("Unknown command: ".toList ++ (cstr cmd ++ ['\n'])) := rfl
  rw [Dispatch.handleRequest, Bytes.bufferGetField_of_plain hnul hplain (.inr rfl)]
  dsimp only
  rw [hcstr, findCommand_of_long hlen]
  show [statusPrefix accepted .err ++ (print (render printReal) (pieces "Unknown command: %s\n".toList) [.str cmd]).getD []] = _
  rw [htext, Option.getD_some, hcstr, List.append_assoc]
  rfl

/-- An unknown command as long as the buffer: more is written than has been formatted. -/
lemma overlong_unknown (d : Dispatch) {cmd : Text} (hnul : '\x00' ∉ cmd) (hplain : ' ' ∉ cmd ∧ '\\' ∉ cmd)
    (hlen : rrdCmdMax ≤ cmd.length) (behind : ℕ → Char) (printReal : Text → RrdValue → Text) :
    ¬ ∀ h ∈ handedAll behind printReal accepted (d.handleRequest accepted (cmd ++ ['\x00'])), h.length ≤ h.formatted := by
  have hmax : 10 < rrdCmdMax := by decide
  rw [handedAll_le_iff, handleRequest_unknown d hnul hplain (by omega)]
  intro h
  have hfits := List.forall_mem_singleton.1 h
  rw [List.length_append, List.length_append] at hfits
  omega

end Rrdtool
