import Rrdtool.Lib.Lines
import Rrdtool.Lib.Slice
import Rrdtool.Protocol.Bytes
import Rrdtool.Protocol.Request

/-!
# The commands of a connection

`connection_thread_main` of `src/rrd_daemon.c` on the memory of `sock->rbuf`: what is read is put behind `next_read`,
`next_cmd` ends a command in place and moves the rest to the front when there is no command left, and the handlers cut
the command into fields in place with `buffer_get_field`. One call of it is `Bytes.bufferGetField` on the bytes
(`bufferGetField_inPlace`), one call of `next_cmd` is `nextCmd` on those that wait (`Connection.nextCmd_spec`). A handler leaves
all that waits as it is, so that the commands are the lines of what has been read, however it came (`nextCmd_lines`).
-/

namespace Rrdtool

open Slice Lines

/-- `RBUF_SIZE`. -/
def rbufSize : ℕ := rrdCmdMax * 2

/-- `listen_socket_t`, as far as commands are read with it. -/
structure ListenSocket where
  rbuf : ℕ → Char
  nextRead : ℕ
  nextCmd : ℕ

/-! ### Fields in place -/

/-- The loop of `buffer_get_field` on the `size` bytes from `buffer` on, at `buffer_pos` and `field_size`: the memory,
and where the next field begins if there was one. -/
@[grind] def Memory.fieldLoop (buffer size : ℕ) (mem : ℕ → Char) (bufferPos fieldSize : ℕ) : (ℕ → Char) × Option ℕ :=
  if bufferPos < size then
    if mem (buffer + bufferPos) = ' ' ∨ mem (buffer + bufferPos) = '\x00' then
      (Function.update mem (buffer + fieldSize) '\x00', some (bufferPos + 1))
    else if mem (buffer + bufferPos) = '\\' then
      if size - 1 ≤ bufferPos then (mem, none)
      else
        Memory.fieldLoop buffer size (Function.update mem (buffer + fieldSize) (mem (buffer + (bufferPos + 1))))
          (bufferPos + 2) (fieldSize + 1)
    else
      Memory.fieldLoop buffer size (Function.update mem (buffer + fieldSize) (mem (buffer + bufferPos)))
        (bufferPos + 1) (fieldSize + 1)
  else (mem, none)
termination_by size - bufferPos

/-- `buffer_get_field`. -/
@[grind] def Memory.bufferGetField (mem : ℕ → Char) (buffer size : ℕ) : (ℕ → Char) × Option ℕ :=
  if size = 0 then (mem, none) else Memory.fieldLoop buffer size mem 0 0

/-- What a handler does to the buffer: `reads` calls of `buffer_get_field`, and the status that it returns. -/
structure Handled where
  reads : ℕ
  status : ℤ

/-- The calls of `buffer_get_field` of a handler; one that fails leaves the pointers as they are. -/
def Memory.parse : ℕ → (ℕ → Char) → ℕ → ℕ → (ℕ → Char)
  | 0, mem, _, _ => mem
  | reads + 1, mem, buffer, size =>
    match Memory.bufferGetField mem buffer size with
    | (mem, none) => parse reads mem buffer size
    | (mem, some pos) => parse reads mem (buffer + pos) (size - pos)

section Field

variable {mem : ℕ → Char} {b size pos fs last i : ℕ}

/-- Nothing is written in front of the field or behind the last byte of the buffer, which stays a NUL. -/
lemma fieldLoop_frame (hend : last + 1 = b + size) (hlast : mem last = '\x00') (hfs : fs ≤ pos)
    (hi : i < b + fs ∨ last ≤ i) : (Memory.fieldLoop b size mem pos fs).1 i = mem i := by
  induction mem, pos, fs using Memory.fieldLoop.induct b size with
  | case1 mem pos fs hlt hsep =>
    rw [Memory.fieldLoop, if_pos hlt, if_pos hsep]
    by_cases hat : i = b + fs
    · show Function.update mem (b + fs) '\x00' i = mem i
      rw [hat, Function.update_self, show b + fs = last by omega, hlast]
    · exact Function.update_of_ne hat _ mem
  | case2 mem pos fs hlt hsep hslash hstop => rw [Memory.fieldLoop, if_pos hlt, if_neg hsep, if_pos hslash, if_pos hstop]
  | case3 mem pos fs hlt hsep hslash hstop ih =>
    rw [Memory.fieldLoop, if_pos hlt, if_neg hsep, if_pos hslash, if_neg hstop]
    have hkeep : ∀ x, ∀ j, j < b + fs ∨ last ≤ j → Function.update mem (b + fs) x j = mem j := fun x j hj =>
      Function.update_of_ne (by omega) x mem
    rw [ih (by rw [hkeep _ _ (.inr le_rfl), hlast]) (by omega) (by omega), hkeep _ _ hi]
  | case4 mem pos fs hlt hsep hslash ih =>
    rw [Memory.fieldLoop, if_pos hlt, if_neg hsep, if_neg hslash]
    -- the last byte is a NUL, so that this is not it
    have hbefore : b + pos ≠ last := fun hat => hsep (.inr (hat ▸ hlast))
    have hkeep : ∀ x, ∀ j, j < b + fs ∨ last ≤ j → Function.update mem (b + fs) x j = mem j := fun x j hj =>
      Function.update_of_ne (by omega) x mem
    rw [ih (by rw [hkeep _ _ (.inr le_rfl), hlast]) (by omega) (by omega), hkeep _ _ hi]
  | case5 mem pos fs hge => rw [Memory.fieldLoop, if_neg hge]

/-- What the loop returns, with a field at `fs`, for the field and the rest of the bytes. -/
def FieldAt (b size fs : ℕ) (r : (ℕ → Char) × Option ℕ) : Option (Text × Text) → Prop
  | none => r.2 = none
  | some (field, rest) =>
    ∃ next, r.2 = some next ∧ next ≤ size ∧ slice r.1 (b + fs) (field.length + 1) = field ++ ['\x00'] ∧
      slice r.1 (b + next) (size - next) = rest

lemma FieldAt.cons {r : (ℕ → Char) × Option ℕ} {p : Option (Text × Text)} (h : FieldAt b size (fs + 1) r p) {c : Char}
    (hc : r.1 (b + fs) = c) : FieldAt b size fs r (p.map fun p => (c :: p.1, p.2)) := by
  cases p with
  | none => exact h
  | some p =>
    obtain ⟨next, hnext, hle, hfield, hrest⟩ := h
    exact ⟨next, hnext, hle, by rw [List.length_cons, slice_succ, hc, Nat.add_assoc, hfield, List.cons_append], hrest⟩

/-- The loop reads a field as `Bytes.bufferGetField` does, and writes it over what it has read. -/
lemma fieldLoop_spec (hend : last + 1 = b + size) (hlast : mem last = '\x00') (hfs : fs ≤ pos) :
    FieldAt b size fs (Memory.fieldLoop b size mem pos fs) (Bytes.bufferGetField (slice mem (b + pos) (size - pos))) := by
  induction mem, pos, fs using Memory.fieldLoop.induct b size with
  | case1 mem pos fs hlt hsep =>
    rw [show size - pos = size - (pos + 1) + 1 by omega, slice_succ, Bytes.bufferGetField_separator hsep, Memory.fieldLoop,
      if_pos hlt, if_pos hsep]
    refine ⟨pos + 1, rfl, hlt, ?_, ?_⟩
    · exact congrArg (fun c => [c]) (Function.update_self (b + fs) _ mem)
    · exact slice_update (by omega) _
  | case2 mem pos fs hlt hsep hslash hstop =>
    -- the last byte is a NUL
    have hat : b + pos = last := by omega
    exact absurd (.inr (hat ▸ hlast)) hsep
  | case3 mem pos fs hlt hsep hslash hstop ih =>
    rw [show size - pos = size - (pos + 2) + 1 + 1 by omega, slice_succ, slice_succ, hslash,
      Bytes.bufferGetField_escaped, Memory.fieldLoop, if_pos hlt, if_neg hsep, if_pos hslash, if_neg hstop]
    have hlast' : ∀ x, Function.update mem (b + fs) x last = '\x00' := fun x =>
      (Function.update_of_ne (by omega) x mem).trans hlast
    have hrest := ih (hlast' _) (by omega)
    rw [slice_update (by omega)] at hrest
    refine FieldAt.cons hrest ?_
    rw [fieldLoop_frame hend (hlast' _) (by omega) (by omega), Function.update_self, Nat.add_assoc]
  | case4 mem pos fs hlt hsep hslash ih =>
    rw [show size - pos = size - (pos + 1) + 1 by omega, slice_succ, Bytes.bufferGetField_plain hsep hslash,
      Memory.fieldLoop, if_pos hlt, if_neg hsep, if_neg hslash]
    have hbefore : b + pos ≠ last := fun hat => hsep (.inr (hat ▸ hlast))
    have hlast' : ∀ x, Function.update mem (b + fs) x last = '\x00' := fun x =>
      (Function.update_of_ne (by omega) x mem).trans hlast
    have hrest := ih (hlast' _) (by omega)
    rw [slice_update (by omega)] at hrest
    refine FieldAt.cons hrest ?_
    rw [fieldLoop_frame hend (hlast' _) (by omega) (by omega), Function.update_self]
  | case5 mem pos fs hge =>
    rw [Nat.sub_eq_zero_of_le (Nat.le_of_not_lt hge), Memory.fieldLoop, if_neg hge]
    rfl

/-- `buffer_get_field` reads a field as `Bytes.bufferGetField` does, and leaves it at the front of the buffer. -/
theorem bufferGetField_inPlace (hend : last + 1 = b + size) (hlast : mem last = '\x00') :
    FieldAt b size 0 (Memory.bufferGetField mem b size) (Bytes.bufferGetField (slice mem b size)) := by
  rw [Memory.bufferGetField]
  split
  · rename_i hzero
    rw [hzero]
    rfl
  · exact fieldLoop_spec hend hlast le_rfl

lemma bufferGetField_frame (hend : last + 1 = b + size) (hlast : mem last = '\x00') (hi : i < b ∨ last ≤ i) :
    (Memory.bufferGetField mem b size).1 i = mem i := by
  rw [Memory.bufferGetField]
  split
  · rfl
  · exact fieldLoop_frame hend hlast le_rfl hi

/-- The next field begins in the buffer or behind its end. -/
lemma nextField_le (hend : last + 1 = b + size) (hlast : mem last = '\x00') (h : (Memory.bufferGetField mem b size).2 = some pos) :
    pos ≤ size := by
  have hspec := bufferGetField_inPlace hend hlast
  cases hget : Bytes.bufferGetField (slice mem b size) with
  | none =>
    rw [hget] at hspec
    exact absurd (hspec.symm.trans h) (Option.some_ne_none pos).symm
  | some p =>
    rw [hget] at hspec
    obtain ⟨next, hnext, hle, -⟩ := hspec
    obtain rfl := Option.some.inj (hnext.symm.trans h)
    exact hle

/-- A handler only writes into its buffer, and the buffer still ends with a NUL. -/
lemma parse_frame (reads : ℕ) (hend : last + 1 = b + size) (hlast : mem last = '\x00') (hi : i < b ∨ last ≤ i) :
    Memory.parse reads mem b size i = mem i := by
  induction reads generalizing mem b size with
  | zero => rfl
  | succ reads ih =>
    have hkeep : ∀ j, j < b ∨ last ≤ j → (Memory.bufferGetField mem b size).1 j = mem j := fun j hj => bufferGetField_frame hend hlast hj
    have hnext := fun pos => @nextField_le mem b size pos last hend hlast
    rw [Memory.parse]
    generalize Memory.bufferGetField mem b size = r at hkeep hnext
    obtain ⟨mem', _ | pos⟩ := r
    · exact (ih hend ((hkeep last (.inr le_rfl)).trans hlast) hi).trans (hkeep i hi)
    · have hpos := hnext pos rfl
      exact (ih (by omega) ((hkeep last (.inr le_rfl)).trans hlast) (by omega)).trans (hkeep i hi)

end Field

/-- The bytes that wait. -/
@[grind] def ListenSocket.pending (s : ListenSocket) : Text := slice s.rbuf s.nextCmd (s.nextRead - s.nextCmd)

/-- `next_cmd`: where the command stands, with its length. -/
@[grind] def Connection.nextCmd (s : ListenSocket) : Option (ℕ × ℤ) × ListenSocket :=
  match s.pending.findIdx? (· = '\n') with
  | none =>
    let moved i := if i < s.nextRead - s.nextCmd then s.rbuf (s.nextCmd + i) else s.rbuf i
    (none, ⟨moved, s.nextRead - s.nextCmd, 0⟩)
  | some k =>
    let cmd := s.nextCmd
    let eol := s.nextCmd + k
    let rbuf := Function.update s.rbuf eol '\x00'
    if 0 < eol ∧ rbuf (eol - 1) = '\r' then
      -- handle "\r\n" EOL
      (some (cmd, (eol : ℤ) - 1 - cmd), ⟨Function.update rbuf (eol - 1) '\x00', s.nextRead, eol + 1⟩)
    else (some (cmd, (eol : ℤ) - cmd), ⟨rbuf, s.nextRead, eol + 1⟩)

/-- `read(fd, sock->rbuf + sock->next_read, RBUF_SIZE - sock->next_read)`, when it returns these bytes. -/
@[grind] def ListenSocket.read (s : ListenSocket) (chunk : Text) : ListenSocket where
  rbuf := fun i => if s.nextRead ≤ i then chunk.getD (i - s.nextRead) (s.rbuf i) else s.rbuf i
  nextRead := s.nextRead + chunk.length
  nextCmd := s.nextCmd

/-- A connection: its socket, the commands that `handle_request` has been given, each as the bytes of its buffer and
`cmd_len`, and whether a handler has closed it. -/
structure Connection where
  sock : ListenSocket
  obtained : List (Text × ℤ) := []
  closed : Bool := false

section Thread

variable (handler : ℕ → Handled)

/-- `while ((cmd = next_cmd(sock, &cmd_len)) != NULL)`; the handler of each command is the one of its number. -/
@[grind] def Connection.commands : ℕ → Connection → Option Connection
  | 0, _ => none
  | fuel + 1, c =>
    match nextCmd c.sock with
    | (none, sock) => some { c with sock }
    | (some (cmd, len), sock) =>
      let h := handler c.obtained.length
      let size := (len + 1).toNat
      let handled := { sock with rbuf := Memory.parse h.reads sock.rbuf cmd size }
      let c := ⟨handled, c.obtained ++ [(slice sock.rbuf cmd size, len)], h.status ≠ 0⟩
      if h.status = 0 then commands fuel c else some c

/-- A round of `connection_thread_main` that reads some bytes. -/
@[grind] def Connection.receive (c : Connection) (chunk : Text) : Option Connection :=
  if c.closed then some c else { c with sock := c.sock.read chunk }.commands handler (rbufSize + 1)

/-- A new connection. -/
@[grind] def Connection.start : Connection := ⟨⟨fun _ => '\x00', 0, 0⟩, [], false⟩

/-- `connection_thread_main`, when `read` has returned these chunks. -/
def connectionThreadMain (chunks : List Text) : Option Connection :=
  chunks.foldlM (Connection.receive handler) Connection.start

/-- The chunks are such as `read` returns: not empty, and not longer than the buffer has room. -/
@[grind] def Connection.fits : Connection → List Text → Bool
  | _, [] => true
  | c, chunk :: chunks =>
    (c.closed || chunk ≠ [] && c.sock.nextRead + chunk.length ≤ rbufSize) &&
      (match c.receive handler chunk with
        | none => true
        | some c => c.fits chunks)

end Thread

/-! ### The next command -/

/-- The places are in order, and there is no carriage return behind the last command. -/
def ListenSocket.Ready (s : ListenSocket) : Prop :=
  s.nextCmd ≤ s.nextRead ∧ (0 < s.nextCmd → s.rbuf (s.nextCmd - 1) ≠ '\r')

section NextCmd

variable {s : ListenSocket} {line rest : Text}

lemma length_pending (s : ListenSocket) : s.pending.length = s.nextRead - s.nextCmd := length_slice _ _ _

/-- When there is no command left, what waits is moved to the front. -/
lemma Connection.nextCmd_none (h : '\n' ∉ s.pending) :
    ∃ s', Connection.nextCmd s = (none, s') ∧ s'.pending = s.pending ∧ s'.Ready ∧ s'.nextCmd = 0 := by
  have hfind : s.pending.findIdx? (· = '\n') = none := by
    refine List.findIdx?_eq_none_iff.2 fun x hx => decide_eq_false ?_
    rintro rfl
    exact h hx
  refine ⟨(Connection.nextCmd s).2, ?_, ?_, ?_, ?_⟩ <;> simp only [Connection.nextCmd, hfind]
  · refine slice_congr fun i hi => ?_
    rw [Nat.zero_add]
    exact if_pos hi
  · exact ⟨Nat.zero_le _, fun hpos => absurd hpos (Nat.lt_irrefl 0)⟩

/-- Where the first line and the bytes behind it are. -/
lemma pending_split (hs : s.Ready) (hp : s.pending = line ++ '\n' :: rest) (hline : '\n' ∉ line) :
    s.pending.findIdx? (· = '\n') = some line.length ∧ s.nextRead = s.nextCmd + line.length + (rest.length + 1) ∧
      slice s.rbuf s.nextCmd line.length = line ∧
      slice s.rbuf (s.nextCmd + line.length + 1) rest.length = rest := by
  have hread : s.nextRead = s.nextCmd + line.length + (rest.length + 1) := by
    have hlen := length_pending s
    rw [hp, List.length_append, List.length_cons] at hlen
    have hle := hs.1
    omega
  have hwaits : s.nextRead - s.nextCmd = line.length + (rest.length + 1) := by omega
  have hslice := hp
  rw [ListenSocket.pending, hwaits, slice_add, slice_succ] at hslice
  obtain ⟨hfront, hback⟩ := List.append_inj hslice (length_slice _ _ _)
  refine ⟨?_, hread, hfront, (List.cons.inj hback).2⟩
  have hnone : line.findIdx? (· = '\n') = none :=
    List.findIdx?_eq_none_iff.2 fun x hx => decide_eq_false fun heq : x = '\n' => hline (heq ▸ hx)
  rw [hp, List.findIdx?_append, hnone, List.findIdx?_cons, if_pos (decide_eq_true rfl), Option.none_or, Option.map_some,
    Nat.zero_add]

/-- The byte in front of the newline is a carriage return exactly if the line ends with one. -/
lemma behind_eol (hs : s.Ready) (hp : s.pending = line ++ '\n' :: rest) (hline : '\n' ∉ line) (c : Char) :
    0 < s.nextCmd + line.length ∧ Function.update s.rbuf (s.nextCmd + line.length) c (s.nextCmd + line.length - 1) = '\r' ↔
      line.getLast? = some '\r' := by
  obtain ⟨-, -, hfront, -⟩ := pending_split hs hp hline
  obtain rfl | ⟨front, c', rfl⟩ := List.eq_nil_or_concat' line
  · -- an empty line: in front of it is the end of the last command
    refine ⟨fun ⟨hpos, hcr⟩ => ?_, fun hcr => nomatch hcr⟩
    rw [Function.update_of_ne (by omega)] at hcr
    exact absurd hcr (hs.2 hpos)
  · rw [List.length_append, List.length_singleton] at hfront ⊢
    rw [slice_concat] at hfront
    obtain rfl := List.singleton_inj.1 (List.append_inj_right hfront (length_slice _ _ _))
    rw [Function.update_of_ne (by omega), List.getLast?_concat, Option.some_inj]
    exact and_iff_right (by omega)

/-- A command of `n` bytes and the bytes behind it, when NULs have been written behind the command and at the end of the
line only. -/
lemma command_ended {n : ℕ} {rbuf : ℕ → Char} (hs : s.Ready) (hp : s.pending = line ++ '\n' :: rest) (hline : '\n' ∉ line)
    (hn : n ≤ line.length) (hkeep : ∀ i, i < s.nextCmd + n ∨ s.nextCmd + line.length < i → rbuf i = s.rbuf i)
    (hnul : rbuf (s.nextCmd + n) = '\x00') :
    slice rbuf s.nextCmd (n + 1) = line.take n ++ ['\x00'] ∧
      ListenSocket.pending ⟨rbuf, s.nextRead, s.nextCmd + line.length + 1⟩ = rest := by
  obtain ⟨-, hread, hfront, hrest⟩ := pending_split hs hp hline
  constructor
  · rw [slice_concat, hnul, slice_congr fun i hi => hkeep (s.nextCmd + i) (by omega)]
    congr 1
    rw [← hfront, ← slice_take, Nat.min_eq_right hn]
  · have hwaits : s.nextRead - (s.nextCmd + line.length + 1) = rest.length := by omega
    show slice rbuf (s.nextCmd + line.length + 1) (s.nextRead - (s.nextCmd + line.length + 1)) = rest
    rw [hwaits]
    exact (slice_congr fun i _ => hkeep _ (by omega)).trans hrest

/-- The first line becomes a command, and a NUL ends it. -/
lemma Connection.nextCmd_some (hs : s.Ready) (hp : s.pending = line ++ '\n' :: rest) (hline : '\n' ∉ line) :
    ∃ s' : ListenSocket, Connection.nextCmd s = (some (s.nextCmd, ((chompCr line).length : ℤ)), s') ∧
      slice s'.rbuf s.nextCmd ((chompCr line).length + 1) = chompCr line ++ ['\x00'] ∧
      s'.pending = rest ∧ s.nextCmd + (chompCr line).length < s'.nextCmd ∧ s'.nextCmd ≤ s'.nextRead ∧
      s'.rbuf (s'.nextCmd - 1) = '\x00' := by
  obtain ⟨hfind, hread, -⟩ := pending_split hs hp hline
  have hbehind := behind_eol hs hp hline '\x00'
  rw [Connection.nextCmd, hfind]
  dsimp only
  by_cases hcr : line.getLast? = some '\r'
  · have hpos : 0 < line.length := by
      cases line with
      | nil => cases hcr
      | cons c line => exact Nat.succ_pos _
    rw [if_pos (hbehind.2 hcr), chompCr, if_pos hcr, List.length_dropLast, List.dropLast_eq_take]
    have hkeep : ∀ i, i < s.nextCmd + (line.length - 1) ∨ s.nextCmd + line.length < i →
        Function.update (Function.update s.rbuf (s.nextCmd + line.length) '\x00') (s.nextCmd + line.length - 1) '\x00' i =
          s.rbuf i := fun i hi => by
      rw [Function.update_of_ne (by omega), Function.update_of_ne (by omega)]
    obtain ⟨hcmd, hrest⟩ := command_ended hs hp hline (Nat.sub_le _ _) hkeep (by
      rw [Nat.add_sub_assoc hpos, Function.update_self])
    refine ⟨_, Prod.ext (congrArg some (Prod.ext rfl ?_)) rfl, hcmd, hrest, ?_, ?_, ?_⟩
    · dsimp only
      omega
    · dsimp only
      omega
    · dsimp only
      omega
    · have hne : s.nextCmd + line.length + 1 - 1 ≠ s.nextCmd + line.length - 1 := by omega
      exact (Function.update_of_ne hne _ _).trans (Function.update_self _ _ _)
  · rw [if_neg (mt hbehind.1 hcr), chompCr, if_neg hcr]
    have hkeep : ∀ i, i < s.nextCmd + line.length ∨ s.nextCmd + line.length < i →
        Function.update s.rbuf (s.nextCmd + line.length) '\x00' i = s.rbuf i := fun i hi =>
      Function.update_of_ne (by omega) _ _
    obtain ⟨hcmd, hrest⟩ := command_ended hs hp hline le_rfl hkeep (Function.update_self _ _ _)
    rw [List.take_length] at hcmd
    refine ⟨_, Prod.ext (congrArg some (Prod.ext rfl ?_)) rfl, hcmd, hrest, Nat.lt_succ_self _, ?_, ?_⟩
    · dsimp only
      omega
    · dsimp only
      omega
    · exact Function.update_self _ _ _

/-- `next_cmd` takes from the buffer what `nextCmd` takes from the bytes that wait. -/
theorem Connection.nextCmd_spec (hs : s.Ready) : ∃ s' : ListenSocket,
    match Rrdtool.nextCmd s.pending with
    | none => Connection.nextCmd s = (none, s') ∧ s'.pending = s.pending
    | some (cmd, rest) =>
      Connection.nextCmd s = (some (s.nextCmd, (cmd.length : ℤ)), s') ∧
        slice s'.rbuf s.nextCmd (cmd.length + 1) = cmd ++ ['\x00'] ∧ s'.pending = rest := by
  by_cases hmem : '\n' ∈ s.pending
  · obtain ⟨line, rest, hp, hline⟩ := List.eq_append_cons_of_mem hmem
    obtain ⟨s', hcmd, hslice, hrest, -⟩ := Connection.nextCmd_some hs hp hline
    have hfree : ∀ c ∈ line, decide (c ≠ '\n') = true := fun c hc => decide_eq_true fun heq : c = '\n' => hline (heq ▸ hc)
    have hspan : s.pending.span (· ≠ '\n') = (line, '\n' :: rest) := by
      rw [hp, List.span_eq_takeWhile_dropWhile, List.takeWhile_append_of_pos hfree, List.dropWhile_append_of_pos hfree]
      simp
    rw [Rrdtool.nextCmd, hspan]
    exact ⟨s', hcmd, hslice, hrest⟩
  · obtain ⟨s', hcmd, hpending, -⟩ := Connection.nextCmd_none hmem
    have hfree : ∀ c ∈ s.pending, decide (c ≠ '\n') = true := fun c hc =>
      decide_eq_true fun heq : c = '\n' => hmem (heq ▸ hc)
    have hspan : s.pending.span (· ≠ '\n') = (s.pending, []) := by
      rw [List.span_eq_takeWhile_dropWhile, List.takeWhile_eq_self_iff.2 hfree, List.dropWhile_eq_nil_iff.2 hfree]
    rw [Rrdtool.nextCmd, hspan]
    exact ⟨s', hcmd, hpending⟩

end NextCmd

/-! ### The commands of a connection -/

/-- What `handle_request` is given for a line: its bytes without a carriage return at the end, and their number. -/
def command (line : Text) : Text × ℤ := (chompCr line ++ ['\x00'], (chompCr line).length)

/-- The handlers of `m` commands, from the one with the number `n` on, leave the connection open. -/
def Going (handler : ℕ → Handled) (n m : ℕ) : Prop := ∀ j < m, (handler (n + j)).status = 0

lemma Going.add {handler : ℕ → Handled} {n a b : ℕ} (ha : Going handler n a) (hb : Going handler (n + a) b) :
    Going handler n (a + b) := by
  intro j hj
  obtain hlt | hge := Nat.lt_or_ge j a
  · exact ha j hlt
  · obtain ⟨i, rfl⟩ := Nat.exists_eq_add_of_le hge
    rw [← Nat.add_assoc]
    exact hb i (by omega)

lemma going_one {handler : ℕ → Handled} {n : ℕ} (h : (handler n).status = 0) : Going handler n 1 := by
  intro j hj
  obtain rfl : j = 0 := by omega
  exact h

/-- An open connection: behind the commands `done`, all lines of the text have become commands, and the unfinished one
waits at the front of the buffer. -/
structure Connection.Served (handler : ℕ → Handled) (c : Connection) (done : List (Text × ℤ)) (text : Text) : Prop where
  opened : c.closed = false
  going : Going handler done.length (ended '\n' text).length
  obtained : c.obtained = done ++ (ended '\n' text).map command
  pending : c.sock.pending = unfinished '\n' text
  ready : c.sock.Ready
  front : c.sock.nextCmd = 0

/-- A connection that the handler of some line of the text was the first to close: this line is the last one that has
become a command. -/
def Connection.Stopped (handler : ℕ → Handled) (c : Connection) (done : List (Text × ℤ)) (text : Text) : Prop :=
  c.closed = true ∧ ∃ k < (ended '\n' text).length,
    c.obtained = done ++ ((ended '\n' text).take (k + 1)).map command ∧ (handler (done.length + k)).status ≠ 0 ∧
    Going handler done.length k

section Thread

variable {handler : ℕ → Handled} {c : Connection} {text p line rest : Text} {fuel : ℕ}

/-- A command: its handler is given the line, and changes nothing of what waits. -/
lemma commands_step (hs : c.sock.Ready) (hp : c.sock.pending = line ++ '\n' :: rest) (hline : '\n' ∉ line) :
    ∃ sock : ListenSocket, sock.Ready ∧ sock.pending = rest ∧
      c.commands handler (fuel + 1) =
        let h := handler c.obtained.length
        let c : Connection := ⟨sock, c.obtained ++ [command line], h.status ≠ 0⟩
        if h.status = 0 then c.commands handler fuel else some c := by
  obtain ⟨⟨rbuf, nextRead, next⟩, hcmd, hslice, hrest, hlt, hle, hnul⟩ := Connection.nextCmd_some hs hp hline
  have hsize : (((chompCr line).length : ℤ) + 1).toNat = (chompCr line).length + 1 := by omega
  have hlast : rbuf (c.sock.nextCmd + (chompCr line).length) = '\x00' := by
    rw [slice_concat] at hslice
    exact List.singleton_inj.1 (List.append_inj_right hslice (length_slice _ _ _))
  have hkeep : ∀ i, next ≤ i + 1 →
      Memory.parse (handler c.obtained.length).reads rbuf c.sock.nextCmd ((chompCr line).length + 1) i = rbuf i := by
    intro i hi
    have hbehind : c.sock.nextCmd + (chompCr line).length < next := hlt
    exact parse_frame _ (Nat.add_assoc _ _ 1) hlast (by omega)
  refine ⟨⟨Memory.parse (handler c.obtained.length).reads rbuf c.sock.nextCmd ((chompCr line).length + 1), nextRead, next⟩,
    ⟨hle, fun _ hcr => ?_⟩, ?_, ?_⟩
  · cases hnul.symm.trans ((hkeep (next - 1) (by omega)).symm.trans hcr)
  · exact (slice_congr fun i _ => hkeep (next + i) (by omega)).trans hrest
  · rw [Connection.commands, hcmd]
    dsimp only
    rw [hsize, hslice]
    rfl

/-- The loop obtains the lines that wait, up to one whose handler closes the connection. -/
lemma commands_spec (hopen : c.closed = false) (hs : c.sock.Ready) (hfuel : c.sock.pending.length < fuel) :
    ∃ c' : Connection, c.commands handler fuel = some c' ∧
      (c'.Served handler c.obtained c.sock.pending ∨ c'.Stopped handler c.obtained c.sock.pending) := by
  generalize hp : c.sock.pending = p at hfuel ⊢
  induction p using @piece_induction _ _ '\n' generalizing c fuel with
  | last p h =>
    obtain ⟨sock, hcmd, hpending, hready, hfront⟩ := Connection.nextCmd_none (hp.symm ▸ h)
    obtain ⟨fuel, rfl⟩ := Nat.exists_eq_succ_of_ne_zero (Nat.ne_zero_of_lt hfuel)
    refine ⟨{ c with sock }, by rw [Connection.commands, hcmd], .inl ⟨hopen, ?_, ?_, ?_, hready, hfront⟩⟩
    · rw [ended_of_not_mem h]
      exact fun j hj => absurd hj (Nat.not_lt_zero j)
    · rw [ended_of_not_mem h, List.map_nil, List.append_nil]
    · rw [unfinished_of_not_mem h]
      exact hpending.trans hp
  | piece line p h ih =>
    obtain ⟨fuel, rfl⟩ := Nat.exists_eq_succ_of_ne_zero (Nat.ne_zero_of_lt hfuel)
    obtain ⟨sock, hready, hpending, hstep⟩ := commands_step hs hp h
    rw [hstep]
    by_cases hstatus : (handler c.obtained.length).status = 0
    · rw [if_pos hstatus]
      rw [List.length_append, List.length_cons] at hfuel
      have hless : p.length < fuel := by omega
      obtain ⟨c', hc', hspec⟩ := @ih ⟨sock, c.obtained ++ [command line], (handler c.obtained.length).status ≠ 0⟩ fuel
        (decide_eq_false (not_not.2 hstatus)) hready hpending hless
      refine ⟨c', hc', hspec.imp (fun hserved => ?_) fun ⟨hclosed, k, hk, hobtained, hne, hgoing⟩ => ?_⟩
      · refine ⟨hserved.opened, ?_, ?_, ?_, hserved.ready, hserved.front⟩
        · have hgoing := hserved.going
          rw [List.length_append] at hgoing
          rw [ended_cons h, List.length_cons, Nat.add_comm]
          exact (going_one hstatus).add hgoing
        · rw [hserved.obtained, ended_cons h, List.append_assoc]
          rfl
        · rw [hserved.pending, unfinished_cons h]
      · rw [List.length_append, List.length_singleton, Nat.add_assoc, Nat.add_comm 1 k] at hne
        rw [List.length_append] at hgoing
        refine ⟨hclosed, k + 1, ?_, ?_, hne, Nat.add_comm 1 k ▸ (going_one hstatus).add hgoing⟩
        · rw [ended_cons h]
          exact Nat.succ_lt_succ hk
        · rw [hobtained, ended_cons h, List.append_assoc]
          rfl
    · rw [if_neg hstatus]
      refine ⟨_, rfl, .inr ⟨decide_eq_true hstatus, 0, ?_, ?_, hstatus, fun j hj => absurd hj (Nat.not_lt_zero j)⟩⟩
      · rw [ended_cons h]
        exact Nat.succ_pos _
      · rw [ended_cons h]
        rfl

/-- What is read stands behind what waits. -/
lemma pending_read (hs : c.sock.Ready) (chunk : Text) :
    (c.sock.read chunk).pending = c.sock.pending ++ chunk ∧ (c.sock.read chunk).Ready := by
  obtain ⟨hle, hbehind⟩ := hs
  have hkeep : ∀ i, i < c.sock.nextRead → (c.sock.read chunk).rbuf i = c.sock.rbuf i := fun i hi =>
    if_neg (Nat.not_le_of_lt hi)
  refine ⟨?_, Nat.le_add_right_of_le hle, fun hpos => ?_⟩
  · have hlen : c.sock.nextRead + chunk.length - c.sock.nextCmd = c.sock.nextRead - c.sock.nextCmd + chunk.length := by
      omega
    show slice (c.sock.read chunk).rbuf c.sock.nextCmd (c.sock.nextRead + chunk.length - c.sock.nextCmd) = _
    rw [hlen, slice_add, ListenSocket.pending]
    congr 1
    · exact slice_congr fun i hi => hkeep _ (by omega)
    · refine slice_eq fun i hi => ?_
      show (if c.sock.nextRead ≤ _ then chunk.getD (_ - c.sock.nextRead) _ else _) = _
      have hat : c.sock.nextCmd + (c.sock.nextRead - c.sock.nextCmd) + i - c.sock.nextRead = i := by omega
      rw [if_pos (by omega), hat, List.getD_eq_getElem?_getD, List.getElem?_eq_getElem hi, Option.getD_some,
        List.get_eq_getElem]
  · rw [hkeep _ (by have : 0 < c.sock.nextCmd := hpos; show c.sock.nextCmd - 1 < _; omega)]
    exact hbehind hpos

/-- A chunk: the connection has obtained the lines that it completes, too. -/
lemma receive_spec (hserved : c.Served handler [] text) (chunk : Text) (hfit : c.sock.nextRead + chunk.length ≤ rbufSize) :
    ∃ c' : Connection, c.receive handler chunk = some c' ∧
      (c'.Served handler [] (text ++ chunk) ∨ c'.Stopped handler [] (text ++ chunk)) := by
  obtain ⟨hopen, hgoing, hobtained, hpending, hready, hfront⟩ := hserved
  obtain ⟨hread, hready'⟩ := pending_read hready chunk
  rw [List.nil_append] at hobtained
  have hroom : (c.sock.read chunk).pending.length < rbufSize + 1 := by
    rw [length_pending]
    have hnext : (c.sock.read chunk).nextRead = c.sock.nextRead + chunk.length := rfl
    omega
  obtain ⟨c', hc', hspec⟩ := @commands_spec handler { c with sock := c.sock.read chunk } _ hopen hready' hroom
  refine ⟨c', by rw [Connection.receive, if_neg (by rw [hopen]; exact Bool.false_ne_true), hc'], ?_⟩
  dsimp only at hspec
  rw [hread, hpending, hobtained] at hspec
  rw [List.length_nil] at hgoing
  refine hspec.imp (fun hserved => ?_) fun ⟨hclosed, k, hk, htaken, hstatus, hgoing'⟩ => ?_
  · refine ⟨hserved.opened, ?_, ?_, ?_, hserved.ready, hserved.front⟩
    · have hgoing' := hserved.going
      rw [List.length_map, ← Nat.zero_add (ended '\n' text).length] at hgoing'
      rw [ended_append, List.length_append]
      exact hgoing.add hgoing'
    · rw [hserved.obtained, ended_append text, List.map_append, List.nil_append]
    · rw [hserved.pending, unfinished_append text]
  · rw [List.length_map] at hstatus
    rw [List.length_map, ← Nat.zero_add (ended '\n' text).length] at hgoing'
    refine ⟨hclosed, (ended '\n' text).length + k, ?_, ?_, ?_, hgoing.add hgoing'⟩
    · rw [ended_append, List.length_append]
      exact Nat.add_lt_add_left hk _
    · rw [htaken, ended_append text, Nat.add_assoc, List.take_length_add_append, List.map_append, List.nil_append]
    · rwa [List.length_nil, Nat.zero_add]

/-- A connection that is closed is left as it is. -/
lemma receive_stopped (hstopped : c.Stopped handler [] text) (chunk : Text) :
    c.receive handler chunk = some c ∧ c.Stopped handler [] (text ++ chunk) := by
  obtain ⟨hclosed, k, hk, hobtained, hne⟩ := hstopped
  refine ⟨by rw [Connection.receive, if_pos hclosed], hclosed, k, ?_, ?_, hne⟩
  · rw [ended_append, List.length_append]
    omega
  · rw [hobtained, ended_append, List.take_append_of_le_length (Nat.succ_le_of_lt hk)]

/-- A run: in the end the connection has obtained all lines, or those up to one whose handler has closed it. -/
lemma foldlM_receive (chunks : List Text) (hspec : c.Served handler [] text ∨ c.Stopped handler [] text)
    (hfit : c.fits handler chunks = true) :
    ∃ c' : Connection, chunks.foldlM (Connection.receive handler) c = some c' ∧
      (c'.Served handler [] (text ++ chunks.flatten) ∨ c'.Stopped handler [] (text ++ chunks.flatten)) := by
  induction chunks generalizing c text with
  | nil => exact ⟨c, rfl, by rwa [List.flatten_nil, List.append_nil]⟩
  | cons chunk chunks ih =>
    rw [List.foldlM_cons, List.flatten_cons, ← List.append_assoc]
    rw [Connection.fits, Bool.and_eq_true] at hfit
    obtain ⟨hroom, hrest⟩ := hfit
    obtain ⟨c', hc', hspec'⟩ : ∃ c' : Connection, c.receive handler chunk = some c' ∧
        (c'.Served handler [] (text ++ chunk) ∨ c'.Stopped handler [] (text ++ chunk)) := by
      obtain hserved | hstopped := hspec
      · rw [hserved.opened, Bool.false_or, Bool.and_eq_true] at hroom
        exact receive_spec hserved chunk (of_decide_eq_true hroom.2)
      · obtain ⟨hsame, hstopped⟩ := receive_stopped hstopped chunk
        exact ⟨c, hsame, .inr hstopped⟩
    rw [hc'] at hrest ⊢
    exact ih hspec' hrest

end Thread

/-- All lines have room in the buffer, each with its newline. -/
def ShortLines (text : Text) : Prop :=
  (∀ line ∈ ended '\n' text, line.length + 1 ≤ rbufSize) ∧ (unfinished '\n' text).length ≤ rbufSize

/-- The unfinished line leaves room for what is to come. -/
lemma unfinished_lt {text rest : Text} (hne : rest ≠ []) (h : ShortLines (text ++ rest)) :
    (unfinished '\n' text).length < rbufSize := by
  rw [ShortLines, ended_append, unfinished_append] at h
  by_cases hmem : '\n' ∈ rest
  · obtain ⟨line, behind, rfl, hline⟩ := List.eq_append_cons_of_mem hmem
    have hpiece : '\n' ∉ unfinished '\n' text ++ line := by
      rw [List.mem_append, not_or]
      exact ⟨not_mem_unfinished text, hline⟩
    rw [← List.append_assoc, ended_cons hpiece] at h
    have hfirst := h.1 _ (List.mem_append_right _ List.mem_cons_self)
    rw [List.length_append] at hfirst
    omega
  · have hpiece : '\n' ∉ unfinished '\n' text ++ rest := by
      rw [List.mem_append, not_or]
      exact ⟨not_mem_unfinished text, hmem⟩
    have hlast := h.2
    rw [unfinished_of_not_mem hpiece, List.length_append] at hlast
    have := List.length_pos_of_ne_nil hne
    omega

/-- However the bytes come, the commands are the lines, each without its newline and without a carriage return in front of
it; only a handler that closes the connection ends them. As long as no line is longer than the buffer, there is room to
read. -/
theorem nextCmd_lines (handler : ℕ → Handled) (chunks : List Text)
    (hfit : Connection.start.fits handler chunks = true) :
    ∃ c : Connection, connectionThreadMain handler chunks = some c ∧
      (∀ k, c.obtained[k]? =
        if ∀ j < k, (handler j).status = 0 then (chunks.flatten.splitOn '\n').dropLast[k]?.map command else none) ∧
      (c.closed = false → ∀ rest ≠ [], ShortLines (chunks.flatten ++ rest) → c.sock.nextRead < rbufSize) := by
  have hstart : Connection.start.Served handler [] [] :=
    ⟨rfl, fun j hj => absurd hj (Nat.not_lt_zero j), rfl, rfl, ⟨le_rfl, fun hpos => absurd hpos (Nat.lt_irrefl 0)⟩, rfl⟩
  obtain ⟨c, hrun, hspec⟩ := foldlM_receive chunks (.inl hstart) hfit
  rw [List.nil_append] at hspec
  refine ⟨c, hrun, ?_⟩
  obtain ⟨hopen, hgoing, hobtained, hpending, -, hfront⟩ | ⟨hclosed, n, hn, hobtained, hstatus, hgoing⟩ := hspec
  · rw [List.nil_append] at hobtained
    refine ⟨fun k => ?_, fun _ rest hne hshort => ?_⟩
    · rw [hobtained, List.getElem?_map]
      split
      · rfl
      · rename_i hnot
        obtain ⟨j, hj, hstatus⟩ : ∃ j < k, (handler j).status ≠ 0 := by simpa using hnot
        have hbehind : (ended '\n' chunks.flatten).length ≤ j := by
          by_contra hlt
          have hzero := hgoing j (Nat.lt_of_not_le hlt)
          rw [List.length_nil, Nat.zero_add] at hzero
          exact hstatus hzero
        rw [List.getElem?_eq_none (hbehind.trans hj.le), Option.map_none]
    · have hroom := unfinished_lt hne hshort
      rwa [← hpending, length_pending, hfront] at hroom
  · rw [List.nil_append] at hobtained
    refine ⟨fun k => ?_, fun hopen => ?_⟩
    · rw [List.length_nil, Nat.zero_add] at hstatus
      obtain hle | hlt := Nat.lt_or_ge n k
      · rw [if_neg fun hall => hstatus (hall n hle), hobtained, List.getElem?_eq_none]
        rw [List.length_map, List.length_take]
        omega
      · rw [if_pos fun j hj => ?_, hobtained, List.getElem?_map, List.getElem?_take_of_lt (by omega)]
        · rfl
        · have hzero := hgoing j (by omega)
          rwa [List.length_nil, Nat.zero_add] at hzero
    · cases hclosed.symm.trans hopen

theorem nextCmd_lines_pieces : ∃ c : Connection,
    connectionThreadMain (fun _ => ⟨3, 0⟩) ["a b\\".toList, "c\r".toList, "\n".toList, "\nde\nf".toList] = some c ∧
      ∀ k : ℕ, c.obtained[k]? = ([command "a b\\c".toList, command [], command "de".toList] : List (Text × ℤ))[k]? := by
  obtain ⟨c, hrun, hlines, -⟩ := nextCmd_lines (fun _ => ⟨3, 0⟩)
    ["a b\\".toList, "c\r".toList, "\n".toList, "\nde\nf".toList] (by decide +kernel)
  have hall : (["a b\\".toList, "c\r".toList, "\n".toList, "\nde\nf".toList].flatten.splitOn '\n').dropLast.map command =
      [command "a b\\c".toList, command [], command "de".toList] := by decide +kernel
  exact ⟨c, hrun, fun k => by rw [hlines k, if_pos fun _ _ => rfl, ← List.getElem?_map, hall]⟩

end Rrdtool
