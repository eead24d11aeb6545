import Rrdtool.Daemon.Command
import Rrdtool.Lib.Lines

/-!
# Records of the journal

Port of `journal_write` with its callers in `handle_request_update` and `handle_request_forget`, and of the loop of
`journal_replay` up to `handle_request`. The record of an `UPDATE` is the request as the client sent it, as a string of at
most `RRD_CMD_MAX - 1` bytes; that of a `FORGET` has the path as it is, without escapes. The replay reads at most
`RRD_CMD_MAX - 1` bytes at a time. `journalRecord_readBack_iff` says which requests are read back.
-/

namespace Rrdtool

open Bytes

/-! ### Writing -/

/-- `orig_buf`. A request without a file, where the buffer is used up, is refused before this is looked at. -/
def origBuf (buffer : Text) : Text := cstr (buffer.take (min rrdCmdMax buffer.length - 1))

/-- `journal_write`. -/
@[grind] def Bytes.journalWrite (cmd args : Text) : Text := cmd ++ ' ' :: args ++ ['\n']

/-- What is written to the journal for a request of a client; `accepts` says of a file that its cache item can be had
(`UPDATE`) or is there (`FORGET`). -/
def Server.journalRecord (srv : Server) (accepts : Text → Bool) (buffer : Text) : Option Text := do
  let (cmd, buffer) ← Bytes.bufferGetField buffer
  let cmd ← findCommand (cstr cmd)
  let (pbuffile, _) ← Bytes.bufferGetField buffer
  let file := srv.absPath (cstr pbuffile)
  guard (srv.checkAccess file && accepts file)
  match cmd with
  | .update => return journalWrite "update".toList (origBuf buffer)
  | .forget => return journalWrite "forget".toList file
  | _ => none

/-! ### Reading -/

/-- `fgets` of at most `n` bytes: what is read, and the rest of the file. -/
@[grind] def fgets : ℕ → Text → Text × Text
  | 0, file => ([], file)
  | _ + 1, [] => ([], [])
  | n + 1, c :: file =>
    if c = '\n' then ([c], file)
    else
      let (entry, rest) := fgets n file
      (c :: entry, rest)

/-- The loop of `journal_replay`: the buffers that `handle_request` is called with, or `none` for a malformed entry. -/
@[grind] def journalLoop : ℕ → Text → List (Option Text)
  | 0, _ => []
  | n + 1, file =>
    if file = [] then []
    else
      let (bytes, rest) := fgets (rrdCmdMax - 1) file
      let entry := cstr bytes
      if entry = [] then journalLoop n rest
      else if entry.getLast? = some '\n' then some (entry.dropLast ++ ['\x00']) :: journalLoop n rest
      else none :: journalLoop n rest

/-- The entries of a journal; each one takes a byte. -/
def journalEntries (file : Text) : List (Option Text) := journalLoop file.length file

/-- What a request of the journal says. -/
inductive JournalRequest where
  | update (file : Text) (values : List Text)
  | wrote (file : Text)
  | forget (file : Text)
deriving DecidableEq

/-- The request in a buffer. The last field of a request that is not complete is not looked at. -/
@[grind] def Server.requestOf (srv : Server) (buffer : Text) : Option JournalRequest := do
  let (cmd, buffer) ← Bytes.bufferGetField buffer
  match ← findCommand (cstr cmd) with
  | .update =>
    let (pbuffile, buffer) ← Bytes.bufferGetField buffer
    return .update (srv.absPath (cstr pbuffile)) (fields buffer)
  | .wrote => return .wrote (cstr buffer)
  | .forget =>
    let (pbuffile, _) ← Bytes.bufferGetField buffer
    return .forget (srv.absPath (cstr pbuffile))
  | _ => none

/-- The requests of a journal. -/
@[grind] def Server.replayed (srv : Server) (file : Text) : List (Option JournalRequest) :=
  (journalEntries file).map (·.bind srv.requestOf)

/-! ### Reading one line -/

section Loop

variable {n : ℕ} {file line rest : Text}

lemma fgets_append (n : ℕ) (file : Text) : (fgets n file).1 ++ (fgets n file).2 = file := by
  induction n generalizing file with
  | zero => rfl
  | succ n ih =>
    cases file with
    | nil => rfl
    | cons c file =>
      rw [fgets]
      split
      · rfl
      · exact congrArg (c :: ·) (ih file)

lemma fgets_rest_lt (hn : 0 < n) (hfile : file ≠ []) : (fgets n file).2.length < file.length := by
  obtain ⟨m, rfl⟩ := Nat.exists_eq_add_of_lt hn
  obtain ⟨c, file, rfl⟩ := List.exists_cons_of_ne_nil hfile
  have hlen := congrArg List.length (fgets_append (0 + m) file)
  rw [List.length_append] at hlen
  rw [show 0 + m + 1 = (0 + m).succ from rfl, fgets]
  split
  · exact Nat.lt_succ_self _
  · rw [List.length_cons]
    dsimp only
    omega

/-- What is read of a line, when it is not longer than what is read at a time. -/
lemma fgets_line (h : '\n' ∉ line) (hlen : line.length < n) (rest : Text) :
    fgets n (line ++ '\n' :: rest) = (line ++ ['\n'], rest) := by
  induction line generalizing n with
  | nil =>
    obtain ⟨m, rfl⟩ := Nat.exists_eq_add_of_lt hlen
    rw [List.nil_append, show ([] : Text).length + m + 1 = ([] : Text).length + m + 1 from rfl, fgets, if_pos rfl]
    rfl
  | cons c line ih =>
    obtain ⟨hc, hline⟩ : '\n' ≠ c ∧ '\n' ∉ line := by simpa using h
    cases n with
    | zero => cases hlen
    | succ n =>
      rw [List.cons_append, fgets, if_neg (Ne.symm hc), ih hline (Nat.lt_of_succ_lt_succ hlen)]
      rfl

/-- Of a longer line, there is no line end. -/
lemma fgets_long (h : '\n' ∉ line) (hlen : n ≤ line.length) (rest : Text) :
    fgets n (line ++ rest) = (line.take n, line.drop n ++ rest) := by
  induction line generalizing n with
  | nil =>
    obtain rfl : n = 0 := Nat.le_zero.1 hlen
    rfl
  | cons c line ih =>
    obtain ⟨hc, hline⟩ : '\n' ≠ c ∧ '\n' ∉ line := by simpa using h
    cases n with
    | zero => rfl
    | succ n =>
      rw [List.cons_append, fgets, if_neg (Ne.symm hc), ih hline (Nat.le_of_succ_le_succ hlen)]
      rfl

/-- Nothing of what stands behind a line end is read. -/
lemma fgets_complete (h : Lines.Complete '\n' file) (hfile : file ≠ []) (post : Text) :
    fgets n (file ++ post) = ((fgets n file).1, (fgets n file).2 ++ post) ∧ Lines.Complete '\n' (fgets n file).2 := by
  induction n generalizing file with
  | zero => exact ⟨rfl, h⟩
  | succ n ih =>
    obtain ⟨c, file, rfl⟩ := List.exists_cons_of_ne_nil hfile
    rw [List.cons_append, fgets, fgets]
    by_cases hc : c = '\n'
    · rw [if_pos hc, if_pos hc]
      exact ⟨rfl, Lines.complete_tail h⟩
    · have hne : file ≠ [] := by
        rintro rfl
        exact hc (by simpa [Lines.Complete] using h)
      obtain ⟨hread, hrest⟩ := ih (Lines.complete_tail h) hne
      rw [if_neg hc, if_neg hc, hread]
      exact ⟨rfl, hrest⟩

/-- There are no more entries than bytes. -/
lemma journalLoop_eq (h : file.length ≤ n) : journalLoop n file = journalEntries file := by
  have hmore : ∀ (n : ℕ) (file : Text), file.length ≤ n → journalLoop (n + 1) file = journalLoop n file := by
    intro n
    induction n with
    | zero =>
      intro file h
      rw [List.length_eq_zero_iff.1 (Nat.le_zero.1 h)]
      rfl
    | succ n ih =>
      intro file h
      rw [journalLoop, journalLoop]
      split
      · rfl
      · rename_i hfile
        have hlt := @fgets_rest_lt (rrdCmdMax - 1) file (by decide) hfile
        dsimp only
        rw [ih _ (by omega)]
  induction n, h using Nat.le_induction with
  | base => rfl
  | succ n h ih => rw [hmore n file h, ih]

/-- One turn of the loop. -/
lemma journalEntries_eq (hfile : file ≠ []) :
    journalEntries file =
      (if cstr (fgets (rrdCmdMax - 1) file).1 = [] then []
      else if (cstr (fgets (rrdCmdMax - 1) file).1).getLast? = some '\n' then
        [some ((cstr (fgets (rrdCmdMax - 1) file).1).dropLast ++ ['\x00'])]
      else [none]) ++ journalEntries (fgets (rrdCmdMax - 1) file).2 := by
  have hlt := @fgets_rest_lt (rrdCmdMax - 1) file (by decide) hfile
  rw [← journalLoop_eq (Nat.le_succ file.length), journalLoop, if_neg hfile]
  dsimp only
  rw [journalLoop_eq hlt.le]
  split
  · rfl
  · split
    · rfl
    · rfl

/-- A journal is read record by record. -/
lemma journalEntries_append {before : Text} (h : Lines.Complete '\n' before) (post : Text) :
    journalEntries (before ++ post) = journalEntries before ++ journalEntries post := by
  induction hn : before.length using Nat.strong_induction_on generalizing before with
  | _ n ih =>
    obtain rfl | hne := eq_or_ne before []
    · rfl
    · obtain ⟨hread, hrest⟩ := @fgets_complete (rrdCmdMax - 1) before h hne post
      have hlt := @fgets_rest_lt (rrdCmdMax - 1) before (by decide) hne
      rw [journalEntries_eq (List.append_ne_nil_of_left_ne_nil hne post), journalEntries_eq hne, hread]
      dsimp only
      rw [ih _ (hn ▸ hlt) hrest rfl, List.append_assoc]

/-- A line that is read at once. -/
lemma journalEntries_line (hline : '\n' ∉ line) (hstring : '\x00' ∉ line) (hlen : line.length + 1 < rrdCmdMax) :
    journalEntries (line ++ ['\n']) = [some (line ++ ['\x00'])] := by
  have hread : fgets (rrdCmdMax - 1) (line ++ ['\n']) = (line ++ ['\n'], []) := fgets_line hline (by omega) []
  have hcstr : cstr (line ++ ['\n']) = line ++ ['\n'] := by
    apply cstr_of_not_mem
    rw [List.mem_append, List.mem_singleton]
    rintro (hin | heq)
    · exact hstring hin
    · cases heq
  rw [journalEntries_eq (by simp), hread]
  dsimp only
  rw [hcstr, if_neg (by simp), List.getLast?_concat, if_pos rfl, List.dropLast_concat]
  rfl

/-- A line that is too long is malformed. -/
lemma journalEntries_long (hline : '\n' ∉ line) (hstring : '\x00' ∉ line) (hlen : rrdCmdMax ≤ line.length + 1)
    (rest : Text) : (journalEntries (line ++ rest)).head? = some none := by
  have hread := @fgets_long (rrdCmdMax - 1) line hline (by omega) rest
  have hcstr : cstr (line.take (rrdCmdMax - 1)) = line.take (rrdCmdMax - 1) := by
    apply cstr_of_not_mem
    exact fun hin => hstring (List.mem_of_mem_take hin)
  have hne : line.take (rrdCmdMax - 1) ≠ [] := by
    rw [ne_eq, List.take_eq_nil_iff, not_or]
    refine ⟨by decide, ?_⟩
    rintro rfl
    exact absurd hlen (by decide)
  have hlast : (line.take (rrdCmdMax - 1)).getLast? ≠ some '\n' := by
    intro heq
    exact hline (List.mem_of_mem_take (List.mem_of_getLast? heq))
  have hfile : line ++ rest ≠ [] := by
    apply List.append_ne_nil_of_left_ne_nil
    rintro rfl
    exact absurd hlen (by decide)
  rw [journalEntries_eq hfile, hread]
  dsimp only
  rw [hcstr, if_neg hne, if_neg hlast]
  rfl

end Loop

/-! ### Reading a record -/

section Record

variable {srv : Server} {args file text : Text}

/-- The request in a buffer with the command of `UPDATE`. -/
lemma requestOf_of_update {buffer cmd : Text} (hcmd : Bytes.bufferGetField buffer = some (cmd, args))
    (hfind : findCommand (cstr cmd) = some .update) :
    srv.requestOf buffer =
      (Bytes.bufferGetField args).map fun p => .update (srv.absPath (cstr p.1)) (fields p.2) := by
  rw [Server.requestOf, hcmd, Option.bind_eq_bind, Option.bind_some]
  dsimp only
  rw [hfind]
  cases Bytes.bufferGetField args with
  | none => rfl
  | some p => rfl

/-- The request in a buffer with the command of `FORGET`. -/
lemma requestOf_of_forget {buffer cmd : Text} (hcmd : Bytes.bufferGetField buffer = some (cmd, args))
    (hfind : findCommand (cstr cmd) = some .forget) :
    srv.requestOf buffer = (Bytes.bufferGetField args).map fun p => .forget (srv.absPath (cstr p.1)) := by
  rw [Server.requestOf, hcmd, Option.bind_eq_bind, Option.bind_some]
  dsimp only
  rw [hfind]
  cases Bytes.bufferGetField args with
  | none => rfl
  | some p => rfl

/-- The command of a record is read as it was written. -/
lemma bufferGetField_update (args : Text) :
    Bytes.bufferGetField ("update".toList ++ ' ' :: args) = some ("update".toList, args) :=
  bufferGetField_of_plain (by decide) (by decide) (.inl rfl) args

lemma bufferGetField_forget (args : Text) :
    Bytes.bufferGetField ("forget".toList ++ ' ' :: args) = some ("forget".toList, args) :=
  bufferGetField_of_plain (by decide) (by decide) (.inl rfl) args

/-- The record of an `UPDATE` has the request up to its first NUL, as far as there is room. -/
lemma origBuf_eq (h : args.getLast? = some '\x00') : origBuf args = (cstr args).take (rrdCmdMax - 1) := by
  obtain ⟨front, rfl⟩ := List.getLast?_eq_some_iff.1 h
  have hle : (cstr (front ++ ['\x00'])).length ≤ front.length := by
    rw [cstr, List.takeWhile_append]
    split
    · simp
    · exact List.Sublist.length_le (List.takeWhile_sublist _)
  have hcut : cstr ((front ++ ['\x00']).take (min rrdCmdMax (front.length + 1) - 1)) =
      (cstr (front ++ ['\x00'])).take (min rrdCmdMax (front.length + 1) - 1) := List.take_takeWhile.symm
  rw [origBuf, List.length_append, List.length_singleton, hcut]
  obtain hshort | hlong := Nat.le_total (front.length + 1) rrdCmdMax
  · rw [Nat.min_eq_right hshort, List.take_of_length_le (by omega), List.take_of_length_le (by omega)]
  · rw [Nat.min_eq_left hlong]

lemma not_mem_cstr (s : Text) : '\x00' ∉ cstr s := by
  intro h
  have hne := List.mem_takeWhile_imp h
  exact of_decide_eq_true hne rfl

/-- A buffer is a string with a NUL behind it, and what stands behind that. -/
lemma cstr_split {s : Text} (h : '\x00' ∈ s) : ∃ post, s = cstr s ++ ['\x00'] ++ post := by
  induction s with
  | nil => cases h
  | cons c s ih =>
    by_cases hc : c = '\x00'
    · subst hc
      exact ⟨s, rfl⟩
    · obtain ⟨post, hpost⟩ := ih ((List.mem_cons.1 h).resolve_left (Ne.symm hc))
      refine ⟨post, ?_⟩
      have hcons : cstr (c :: s) = c :: cstr s := List.takeWhile_cons_of_pos (decide_eq_true hc)
      rw [hcons, List.cons_append, List.cons_append, ← hpost]

/-- The first entry of a `FORGET` names the file exactly if it has all of the path, and no escapes are needed. -/
lemma requestOf_forget_iff (hpath : srv.baseDir = none ∨ file.head? = some '/' ∧ text ≠ [])
    (hstring : '\x00' ∉ file) (htext : text <+: file) :
    srv.requestOf ("forget".toList ++ ' ' :: (text ++ ['\x00'])) = some (.forget file) ↔
      text = file ∧ ' ' ∉ file ∧ '\\' ∉ file := by
  have htextstring : '\x00' ∉ text := fun hin => hstring (htext.subset hin)
  rw [requestOf_of_forget (bufferGetField_forget _) (by decide)]
  constructor
  · intro h
    obtain ⟨⟨field, rest⟩, hget, hrequest⟩ := Option.map_eq_some_iff.1 h
    have hsub := bufferGetField_sublist htextstring hget
    have hfieldstring : cstr field = field := cstr_of_not_mem fun hin => htextstring (hsub.subset hin)
    have habs : srv.absPath field = field := by
      apply Server.absPath_of_head
      obtain hnone | ⟨hhead, hne⟩ := hpath
      · exact .inl hnone
      · -- the path begins with a slash, and so does what is read of it
        obtain ⟨path, rfl⟩ := List.head?_eq_some_iff.1 hhead
        obtain ⟨c, text, rfl⟩ := List.exists_cons_of_ne_nil hne
        obtain ⟨rfl, -⟩ := List.cons_prefix_cons.1 htext
        rw [List.cons_append, bufferGetField_plain (by decide) (by decide)] at hget
        obtain ⟨p, -, heq⟩ := Option.map_eq_some_iff.1 hget
        obtain ⟨rfl, -⟩ := Prod.mk.inj heq
        exact .inr rfl
    rw [hfieldstring, habs] at hrequest
    obtain rfl : field = file := by simpa using hrequest
    have heq : text = field := htext.eq_of_length_le hsub.length_le
    subst heq
    exact ⟨rfl, plain_of_bufferGetField hstring hget⟩
  · rintro ⟨rfl, hplain⟩
    rw [bufferGetField_of_plain hstring hplain (.inr rfl) [], Option.map_some, cstr_of_not_mem hstring,
      Server.absPath_of_head (hpath.imp_right And.left)]

/-- The request of an `UPDATE` has as many fields up to its first NUL as it has at all. -/
lemma requestOf_cstr_iff {p : Text × Text} (hnul : '\x00' ∈ args) (hget : Bytes.bufferGetField args = some p) :
    srv.requestOf ("update".toList ++ ' ' :: (cstr args ++ ['\x00'])) =
        some (.update (srv.absPath (cstr p.1)) (fields p.2)) ↔
      (fields args).length = (fields (cstr args ++ ['\x00'])).length := by
  obtain ⟨post, hpost⟩ := cstr_split hnul
  have hprefix : fields (cstr args ++ ['\x00']) <+: fields args := by
    conv_rhs => rw [hpost]
    exact fields_prefix_append _ post
  have hfields : fields args = cstr p.1 :: fields p.2 := fields_some hget
  rw [requestOf_of_update (bufferGetField_update _) (by decide)]
  constructor
  · intro h
    obtain ⟨q, hq, hrequest⟩ := Option.map_eq_some_iff.1 h
    obtain ⟨-, hvalues⟩ := JournalRequest.update.inj hrequest
    have hread : fields (cstr args ++ ['\x00']) = cstr q.1 :: fields q.2 := fields_some hq
    rw [hfields, hread, List.length_cons, List.length_cons, hvalues]
  · intro hlen
    have heq := hprefix.eq_of_length hlen.symm
    cases hq : Bytes.bufferGetField (cstr args ++ ['\x00']) with
    | none =>
      rw [fields_none hq, hfields] at heq
      cases heq
    | some q =>
      have hread : fields (cstr args ++ ['\x00']) = cstr q.1 :: fields q.2 := fields_some hq
      rw [hread, hfields] at heq
      obtain ⟨hfile, hvalues⟩ := List.cons.inj heq
      rw [Option.map_some, hfile, hvalues]

end Record

/-! ### What is read back -/

/-- The record says `request`, wherever it stands in a journal. -/
def Server.ReadsBack (srv : Server) (record : Text) (request : Option JournalRequest) : Prop :=
  ∀ before after, Lines.Complete '\n' before →
    srv.replayed (before ++ record ++ after) = srv.replayed before ++ request :: srv.replayed after

/-- For an `UPDATE`: there is room for all of the request up to its first NUL, and no field ends behind that. For a
`FORGET`: there is room for the path, and no blank, backslash or line end in it. -/
@[grind] def Server.RecordFits (srv : Server) (buffer : Text) : Prop :=
  match Bytes.bufferGetField buffer with
  | none => True
  | some (cmd, args) =>
    match findCommand (cstr cmd), fields args with
    | some .update, _ =>
      (cstr args).length + 8 < rrdCmdMax ∧ (fields args).length = (fields (cstr args ++ ['\x00'])).length
    | some .forget, file :: _ =>
      (srv.absPath file).length + 8 < rrdCmdMax ∧ ∀ c ∈ srv.absPath file, c ≠ ' ' ∧ c ≠ '\\' ∧ c ≠ '\n'
    | _, _ => True

section ReadBack

variable {srv : Server} {record args file : Text} {request : Option JournalRequest}

lemma Server.replayed_append {before : Text} (h : Lines.Complete '\n' before) (after : Text) :
    srv.replayed (before ++ after) = srv.replayed before ++ srv.replayed after := by
  rw [Server.replayed, journalEntries_append h, List.map_append]
  rfl

/-- It is enough to look at the record alone. -/
lemma readsBack_iff (h : Lines.Complete '\n' record) :
    srv.ReadsBack record request ↔ srv.replayed record = [request] := by
  constructor
  · intro hread
    have halone := hread [] [] rfl
    rwa [List.nil_append, List.append_nil] at halone
  · intro hread before after hbefore
    rw [List.append_assoc, Server.replayed_append hbefore, Server.replayed_append h, hread]
    rfl

lemma complete_journalWrite (cmd args : Text) : Lines.Complete '\n' (Bytes.journalWrite cmd args) := by
  rw [Lines.Complete, Bytes.journalWrite, List.getLast?_concat]
  rfl

/-- A record of one line. -/
lemma replayed_journalWrite {cmd : Text} (hcmd : '\n' ∉ cmd ∧ '\x00' ∉ cmd) (hargs : '\n' ∉ args ∧ '\x00' ∉ args) :
    if cmd.length + args.length + 2 < rrdCmdMax then
      srv.replayed (Bytes.journalWrite cmd args) = [srv.requestOf (cmd ++ ' ' :: (args ++ ['\x00']))]
    else (srv.replayed (Bytes.journalWrite cmd args)).head? = some none := by
  have hline : ∀ c, c ≠ ' ' → c ∉ cmd → c ∉ args → c ∉ cmd ++ ' ' :: args := by
    intro c hc hcmd hargs
    rw [List.mem_append, List.mem_cons]
    rintro (hin | rfl | hin)
    · exact hcmd hin
    · exact hc rfl
    · exact hargs hin
  have hend := hline '\n' (by decide) hcmd.1 hargs.1
  have hstring := hline '\x00' (by decide) hcmd.2 hargs.2
  have hlen : (cmd ++ ' ' :: args).length + 1 = cmd.length + args.length + 2 := by
    rw [List.length_append, List.length_cons]
    omega
  rw [← hlen, Server.replayed, Bytes.journalWrite]
  split
  · rename_i hshort
    rw [journalEntries_line hend hstring hshort, List.map_singleton, Option.bind_some, List.append_assoc,
      List.cons_append]
  · rename_i hlong
    rw [List.head?_map, journalEntries_long hend hstring (not_lt.1 hlong)]
    rfl

/-- The record of an `UPDATE`. -/
lemma replayed_update_iff {p : Text × Text} (hline : '\n' ∉ args) (hlast : args.getLast? = some '\x00')
    (hget : Bytes.bufferGetField args = some p) :
    srv.replayed (Bytes.journalWrite "update".toList (origBuf args)) =
        [some (.update (srv.absPath (cstr p.1)) (fields p.2))] ↔
      (cstr args).length + 8 < rrdCmdMax ∧ (fields args).length = (fields (cstr args ++ ['\x00'])).length := by
  have hnul : '\x00' ∈ args := List.mem_of_getLast? hlast
  have hcstr : '\n' ∉ cstr args := fun hin => hline ((List.takeWhile_sublist _).subset hin)
  have hread := @replayed_journalWrite srv (origBuf args) "update".toList (by decide)
    (by
      rw [origBuf_eq hlast]
      exact ⟨fun hin => hcstr (List.mem_of_mem_take hin), fun hin => not_mem_cstr args (List.mem_of_mem_take hin)⟩)
  have hcmd : "update".toList.length = 6 := rfl
  by_cases hroom : (cstr args).length + 8 < rrdCmdMax
  · have hwhole : origBuf args = cstr args := by
      rw [origBuf_eq hlast]
      exact List.take_of_length_le (by omega)
    rw [hwhole, hcmd, if_pos (by omega)] at hread
    rw [hwhole, hread, List.singleton_inj, requestOf_cstr_iff hnul hget, and_iff_right hroom]
  · have hlong : ¬ 6 + (origBuf args).length + 2 < rrdCmdMax := by
      rw [origBuf_eq hlast, List.length_take, rrdCmdMax]
      rw [rrdCmdMax] at hroom
      omega
    rw [hcmd, if_neg hlong] at hread
    refine iff_of_false (fun h => ?_) fun h => hroom h.1
    rw [h] at hread
    cases hread

/-- The record of a `FORGET`. -/
lemma replayed_forget_iff (hpath : srv.baseDir = none ∨ file.head? = some '/') (hstring : '\x00' ∉ file) :
    srv.replayed (Bytes.journalWrite "forget".toList file) = [some (.forget file)] ↔
      file.length + 8 < rrdCmdMax ∧ ∀ c ∈ file, c ≠ ' ' ∧ c ≠ '\\' ∧ c ≠ '\n' := by
  have hplain : (∀ c ∈ file, c ≠ ' ' ∧ c ≠ '\\' ∧ c ≠ '\n') ↔ ' ' ∉ file ∧ '\\' ∉ file ∧ '\n' ∉ file := by
    constructor
    · exact fun h => ⟨fun hin => (h _ hin).1 rfl, fun hin => (h _ hin).2.1 rfl, fun hin => (h _ hin).2.2 rfl⟩
    · rintro ⟨hblank, hslash, hend⟩ c hc
      refine ⟨?_, ?_, ?_⟩
      · exact fun heq => hblank (heq ▸ hc)
      · exact fun heq => hslash (heq ▸ hc)
      · exact fun heq => hend (heq ▸ hc)
  have hcmd : "forget".toList.length = 6 := rfl
  rw [hplain]
  by_cases hend : '\n' ∈ file
  · -- the record is two lines, and the first one has a part of the path
    refine iff_of_false (fun h => ?_) fun h => h.2.2.2 hend
    obtain ⟨front, back, rfl, hfront⟩ := List.eq_append_cons_of_mem hend
    have hfirst := @replayed_journalWrite srv front "forget".toList (by decide)
      ⟨hfront, fun hin => hstring (List.mem_append_left _ hin)⟩
    have hsplit : Bytes.journalWrite "forget".toList (front ++ '\n' :: back) =
        Bytes.journalWrite "forget".toList front ++ (back ++ ['\n']) := by
      simp [Bytes.journalWrite]
    rw [hsplit, Server.replayed_append (complete_journalWrite _ _)] at h
    split at hfirst
    · rw [hfirst] at h
      obtain ⟨hrequest, -⟩ := List.cons.inj h
      have hfrontpath : srv.baseDir = none ∨ (front ++ '\n' :: back).head? = some '/' ∧ front ≠ [] := by
        refine hpath.imp_right fun hhead => ⟨hhead, ?_⟩
        rintro rfl
        cases hhead
      obtain ⟨heq, -⟩ := (requestOf_forget_iff hfrontpath hstring (List.prefix_append _ _)).1 hrequest
      have hlen := congrArg List.length heq
      rw [List.length_append, List.length_cons] at hlen
      omega
    · have hhead := congrArg List.head? h
      rw [List.head?_append, hfirst] at hhead
      cases hhead
  · have hread := @replayed_journalWrite srv file "forget".toList (by decide) ⟨hend, hstring⟩
    have hlen : "forget".toList.length + file.length + 2 = file.length + 8 := by
      rw [hcmd]
      omega
    rw [hlen] at hread
    split at hread
    · rename_i hroom
      have hsame : srv.baseDir = none ∨ file.head? = some '/' ∧ file ≠ [] := by
        refine hpath.imp_right fun hhead => ⟨hhead, ?_⟩
        rintro rfl
        cases hhead
      rw [hread, List.singleton_inj, requestOf_forget_iff hsame hstring List.prefix_rfl]
      simp [hroom, hend]
    · rename_i hlong
      refine iff_of_false (fun h => ?_) fun h => hlong h.1
      rw [h] at hread
      cases hread

/-- A record is that of an `UPDATE` or of a `FORGET`, with a file. -/
lemma journalRecord_cases {accepts : Text → Bool} {buffer : Text} (h : srv.journalRecord accepts buffer = some record) :
    ∃ cmd args p, Bytes.bufferGetField buffer = some (cmd, args) ∧ Bytes.bufferGetField args = some p ∧
      ((findCommand (cstr cmd) = some .update ∧ record = Bytes.journalWrite "update".toList (origBuf args)) ∨
        (findCommand (cstr cmd) = some .forget ∧
          record = Bytes.journalWrite "forget".toList (srv.absPath (cstr p.1)))) := by
  obtain ⟨⟨cmd, args⟩, hcmd, h⟩ := Option.bind_eq_some_iff.1 h
  obtain ⟨c, hfind, h⟩ := Option.bind_eq_some_iff.1 h
  obtain ⟨p, hfile, h⟩ := Option.bind_eq_some_iff.1 h
  obtain ⟨-, -, h⟩ := Option.bind_eq_some_iff.1 h
  refine ⟨cmd, args, p, hcmd, hfile, ?_⟩
  cases c with
  | update =>
    cases h
    exact .inl ⟨hfind, rfl⟩
  | forget =>
    cases h
    exact .inr ⟨hfind, rfl⟩
  | _ => cases h

end ReadBack

/-- The record of a request is read back as that request exactly if it fits. -/
theorem journalRecord_readsBack_iff (srv : Server) (accepts : Text → Bool) (line record : Text) (hline : '\n' ∉ line)
    (h : srv.journalRecord accepts (line ++ ['\x00']) = some record) :
    srv.ReadsBack record (srv.requestOf (line ++ ['\x00'])) ↔ srv.RecordFits (line ++ ['\x00']) := by
  obtain ⟨cmd, args, p, hcmd, hfile, ⟨hfind, rfl⟩ | ⟨hfind, rfl⟩⟩ := journalRecord_cases h
  · have hsuffix := (bufferGetField_suffix hcmd).2
    have hne : args ≠ [] := by
      rintro rfl
      cases hfile
    have hlast : args.getLast? = some '\x00' := by
      obtain ⟨front, hfront⟩ := hsuffix
      rw [← List.getLast?_append_of_ne_nil front hne, hfront, List.getLast?_concat]
    have hargs : '\n' ∉ args := by
      intro hin
      have hmem := hsuffix.subset hin
      rw [List.mem_append, List.mem_singleton] at hmem
      obtain hmem | heq := hmem
      · exact hline hmem
      · cases heq
    have hrequest : srv.requestOf (line ++ ['\x00']) = some (.update (srv.absPath (cstr p.1)) (fields p.2)) := by
      rw [requestOf_of_update hcmd hfind, hfile]
      rfl
    have hfits : srv.RecordFits (line ++ ['\x00']) ↔
        (cstr args).length + 8 < rrdCmdMax ∧ (fields args).length = (fields (cstr args ++ ['\x00'])).length := by
      rw [Server.RecordFits, hcmd]
      dsimp only
      rw [hfind]
    rw [readsBack_iff (complete_journalWrite _ _), hrequest, replayed_update_iff hargs hlast hfile, hfits]
  · have hstring : '\x00' ∉ srv.absPath (cstr p.1) := srv.absPath_string (not_mem_cstr _)
    have hrequest : srv.requestOf (line ++ ['\x00']) = some (.forget (srv.absPath (cstr p.1))) := by
      rw [requestOf_of_forget hcmd hfind, hfile]
      rfl
    have hfits : srv.RecordFits (line ++ ['\x00']) ↔ (srv.absPath (cstr p.1)).length + 8 < rrdCmdMax ∧
        ∀ c ∈ srv.absPath (cstr p.1), c ≠ ' ' ∧ c ≠ '\\' ∧ c ≠ '\n' := by
      rw [Server.RecordFits, hcmd]
      dsimp only
      rw [hfind, fields_some hfile]
    rw [readsBack_iff (complete_journalWrite _ _), hrequest,
      replayed_forget_iff (srv.absPath_head _) hstring, hfits]

/-- An `UPDATE` of a file with a blank in its name. -/
theorem journalRecord_readsBack_iff_blank :
    openServer.ReadsBack "update a\\ b 1:2\n".toList (openServer.requestOf ("UPDATE a\\ b 1:2".toList ++ ['\x00'])) ↔
      openServer.RecordFits ("UPDATE a\\ b 1:2".toList ++ ['\x00']) :=
  journalRecord_readsBack_iff openServer (fun _ => true) "UPDATE a\\ b 1:2".toList "update a\\ b 1:2\n".toList
    (by decide +kernel) (by decide +kernel)

/-- The record of a `FORGET` of that file names another file. -/
theorem journalRecord_forget_blank :
    ∃ line record, '\n' ∉ line ∧ openServer.journalRecord (fun _ => true) (line ++ ['\x00']) = some record ∧
      openServer.requestOf (line ++ ['\x00']) = some (.forget "a b".toList) ∧
      openServer.replayed record = [some (.forget "a".toList)] ∧
      ¬ openServer.ReadsBack record (openServer.requestOf (line ++ ['\x00'])) := by
  refine ⟨"FORGET a\\ b".toList, "forget a b\n".toList, by decide +kernel, by decide +kernel, by decide +kernel,
    by decide +kernel, ?_⟩
  rw [readsBack_iff (by decide +kernel)]
  decide +kernel

end Rrdtool
