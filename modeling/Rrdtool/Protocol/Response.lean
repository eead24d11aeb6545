import Mathlib.Data.List.DropRight
import Rrdtool.Protocol.Field
import Rrdtool.Strtol
import Rrdtool.Lib.Lines

/-!
# Responses of the daemon

Port of `add_response_info`, `count_lines` and `send_response` of `src/rrd_daemon.c` and of `recvline`,
`chomp` and `response_read` of `src/rrd_client.c`. A response is a status line, which counts the lines
behind it, and these lines.

The main result is `responses_in_step`: the client reads the responses one after another when each is
`Framed`. The refusal to create a directory is not: it is an error of two lines, and the second one is
taken for the next response (`refusal_shifts_responses`).
-/

namespace Rrdtool
open Lines

/-! ### The daemon -/

/-- `response_code`. -/
inductive ResponseCode where
  | err
  | ok
  | okBin
deriving DecidableEq

/-- The fields of `listen_socket_t` that a response depends on. -/
structure Sock where
  wbuf : Text
  batchStart : Bool
  batchCmd : ℤ
deriving DecidableEq

section Daemon

-- the memory behind a buffer of `RRD_CMD_MAX` bytes on the stack
variable (behind : ℕ → Char)

/-- What is taken out of a buffer of `RRD_CMD_MAX` bytes with the length that `vsnprintf` returns: the
length of the whole text, also where the buffer holds only its front. -/
def printed (s : Text) : Text :=
  if s.length < rrdCmdMax then s
  else s.take (rrdCmdMax - 1) ++ '\x00' :: (List.range (s.length - rrdCmdMax)).map behind

/-- `add_response_info`. -/
def addResponseInfo (sock : Sock) (text : Text) : Sock :=
  if sock.batchStart then sock else { sock with wbuf := sock.wbuf ++ printed behind text }

/-- A C string ends at its first NUL. -/
@[grind] def cstr (s : Text) : Text := s.takeWhile (· ≠ '\x00')

/-- `count_lines`. -/
def countLines (s : Text) : ℤ := s32 ((cstr s).count '\n')

/-- `send_response`: the bytes that are written, and the socket. -/
@[grind] def sendResponse (sock : Sock) (rc : ResponseCode) (text : Text) : Text × Sock :=
  if sock.batchStart then
    if rc = .ok then ([], sock)
    else
      let status := (if rc = .okBin then [] else decimal sock.batchCmd ++ [' ']) ++ text
      ([], { sock with wbuf := sock.wbuf ++ printed behind status })
  else
    let lines := match rc with
      | .ok => countLines sock.wbuf
      | .okBin => 1
      | .err => -1
    let status := (if rc = .okBin then [] else decimal lines ++ [' ']) ++ text
    (printed behind status ++ (if rc = .err then [] else sock.wbuf), { sock with wbuf := [] })

/-- What a request handler answers: the texts it adds, and the status it ends with. -/
structure Response where
  code : ResponseCode
  text : Text
  info : List Text
  /-- `RESP_OK_BIN` is the answer to `FETCHBIN` only. -/
  notBin : code ≠ .okBin := by decide
  /-- The texts are formatted from C strings. -/
  textNul : '\x00' ∉ text := by decide
  infoNul : ∀ s ∈ info, '\x00' ∉ s := by decide

/-- A request is answered. -/
def respond (sock : Sock) (r : Response) : Text × Sock :=
  sendResponse behind (r.info.foldl (addResponseInfo behind) sock) r.code r.text

/-- The bytes on the connection after a number of answers. -/
def respondAll (sock : Sock) : List Response → Text × Sock
  | [] => ([], sock)
  | r :: rs =>
    let (bytes, sock) := respond behind sock r
    let (later, sock) := respondAll sock rs
    (bytes ++ later, sock)

end Daemon

/-- The socket of a connection that was accepted. -/
@[grind] def accepted : Sock := { wbuf := [], batchStart := false, batchCmd := 0 }

/-! ### The client -/

/-- `rrd_client` and its socket: the bytes in `_inbuf` that are not used yet, and what the next calls of
`recv` return. -/
structure Conn where
  inbuf : Text
  chunks : List { chunk : Text // chunk ≠ [] }
deriving DecidableEq

/-- The socket of a client that has received nothing yet. -/
@[grind] def Conn.ofChunks (chunks : List Text) : Conn where
  inbuf := []
  chunks := chunks.filterMap fun c => if h : c ≠ [] then some ⟨c, h⟩ else none

/-- The bytes that were not read yet. -/
@[grind] def Conn.unread (conn : Conn) : Text := conn.inbuf ++ (conn.chunks.map Subtype.val).flatten

/-- `recvline` into a buffer with room for `n` characters and a NUL, or `none` when there is nothing
more to receive. In the middle of a line the loop of the source does not end then. -/
@[grind] def recvline (n : ℕ) (p : Text) (chunks : List { chunk : Text // chunk ≠ [] }) :
    Option (Text × Conn) :=
  if '\n' ∈ p.take n then
    some (p.takeWhile (· ≠ '\n') ++ ['\n'], ⟨(p.dropWhile (· ≠ '\n')).tail, chunks⟩)
  else if n ≤ p.length then some (p.take n, ⟨p.drop n, chunks⟩)
  else match chunks with
    | [] => none
    | c :: cs => (recvline (n - p.length) c cs).map fun (line, conn) => (p ++ line, conn)
termination_by structural chunks

/-- `chomp`. -/
@[grind] def chomp (str : Text) : Text := str.rdropWhile fun c => c = '\n' || c = '\x0d'

/-- One line, as `response_read` keeps it. -/
def readLine (conn : Conn) : Option (Text × Conn) :=
  (recvline (rrdCmdMax - 1) conn.inbuf conn.chunks).map fun (buffer, conn) =>
    (chomp (cstr buffer), conn)

/-- The lines behind the status line. -/
def readLines : ℕ → Conn → Option (List Text × Conn)
  | 0, conn => some ([], conn)
  | n + 1, conn => do
    let (line, conn) ← readLine conn
    let (lines, conn) ← readLines n conn
    some (line :: lines, conn)

/-- `rrdc_response_t`. -/
structure RrdcResponse where
  status : ℤ
  message : Text
  lines : List Text
deriving DecidableEq

/-- `response_read`, with the codes of its `DIE`s. -/
def responseRead (conn : Conn) : Except ℤ (RrdcResponse × Conn) :=
  match readLine conn with
  | none => .error (-3)
  | some (buffer, conn) =>
    match strtol 0 buffer with
    | none => .error (-4)
    | some (v, messagePtr) =>
      let status := s32 (toLong v)
      let message := messagePtr.dropWhile fun c => c = ' ' || c = '\t'
      if status ≤ 0 then .ok (⟨status, message, []⟩, conn)
      else match readLines status.toNat conn with
        | none => .error (-7)
        | some (lines, conn) => .ok (⟨status, message, lines⟩, conn)

/-- A number of responses read one after another. -/
def readAll : ℕ → Conn → Except ℤ (List RrdcResponse × Conn)
  | 0, conn => .ok ([], conn)
  | n + 1, conn => do
    let (reply, conn) ← responseRead conn
    let (replies, conn) ← readAll n conn
    .ok (reply :: replies, conn)

/-! ### What the client is meant to read -/

/-- The lines a handler added. -/
def Response.wbuf (r : Response) : Text := r.info.flatten

/-- The status of an answer: the lines that follow it, or an error. -/
@[grind] def Response.status (r : Response) : ℤ := if r.code = .ok then (lines '\n' r.wbuf).length else -1

/-- An answer as a client understands it. -/
@[grind] def Response.reply (r : Response) : RrdcResponse where
  status := r.status
  message := (chomp r.text).dropWhile fun c => c = ' ' || c = '\t'
  lines := if r.code = .ok then (lines '\n' r.wbuf).map chomp else []

/-- An answer that can be told from the next one: its status is one line, what follows it is complete
lines, and every text and line fits into the buffers of `RRD_CMD_MAX` bytes. -/
structure Framed (r : Response) : Prop where
  oneLine : r.text.count '\n' = 1
  ended : Complete '\n' r.text
  statusFits : (decimal r.status ++ ' ' :: r.text).length < rrdCmdMax
  infoFits : r.code = .ok → ∀ s ∈ r.info, s.length < rrdCmdMax
  linesEnded : r.code = .ok → Complete '\n' r.wbuf
  linesFit : r.code = .ok → ∀ line ∈ lines '\n' r.wbuf, line.length + 1 < rrdCmdMax
  count : r.code = .ok → (lines '\n' r.wbuf).length < 2 ^ 31

/-! ### One line -/

variable {p line rest : Text} {chunks : List { chunk : Text // chunk ≠ [] }}

/-- The end of the line is in the buffer. -/
lemma recvline_found {n : ℕ} (hline : '\n' ∉ line) (hn : line.length < n) :
    recvline n (line ++ '\n' :: rest) chunks = some (line ++ ['\n'], ⟨rest, chunks⟩) := by
  have hother : ∀ c ∈ line, (decide (c ≠ '\n')) = true := by
    intro c hc
    exact decide_eq_true fun h => hline (h ▸ hc)
  have hmem : '\n' ∈ (line ++ '\n' :: rest).take n := by
    rw [List.take_append, List.take_of_length_le hn.le]
    obtain ⟨m, hm⟩ : ∃ m, n - line.length = m + 1 := ⟨n - line.length - 1, by omega⟩
    simp [hm]
  rw [recvline.eq_def, if_pos hmem, List.takeWhile_append_of_pos hother, List.dropWhile_append_of_pos hother]
  simp

/-- The buffer is used up in the middle of the line. -/
lemma recvline_refill {n : ℕ} {c : { chunk : Text // chunk ≠ [] }} (hp : '\n' ∉ p) (hn : p.length < n) :
    recvline n p (c :: chunks) =
      (recvline (n - p.length) c chunks).map fun (line, conn) => (p ++ line, conn) := by
  rw [recvline, if_neg fun h => hp (List.mem_of_mem_take h), if_neg (by omega)]

/-- A line is received, however it was cut into chunks. -/
lemma recvline_line {n : ℕ} (h : p ++ (chunks.map Subtype.val).flatten = line ++ '\n' :: rest)
    (hline : '\n' ∉ line) (hn : line.length < n) :
    ∃ conn, recvline n p chunks = some (line ++ ['\n'], conn) ∧ conn.unread = rest := by
  induction chunks generalizing n p line with
  | nil =>
    have hp : p = line ++ '\n' :: rest := by simpa using h
    rw [hp]
    exact ⟨_, recvline_found hline hn, List.append_nil rest⟩
  | cons c cs ih =>
    obtain ⟨front, rfl, hrest⟩ | ⟨back, rfl, hrest⟩ := List.append_eq_append_iff.1 h
    · have hp : '\n' ∉ p := fun hmem => hline (List.mem_append_left front hmem)
      have hfront : '\n' ∉ front := fun hmem => hline (List.mem_append_right p hmem)
      rw [List.length_append] at hn
      obtain ⟨conn, hrecv, hunread⟩ := ih (p := c) (n := n - p.length) hrest hfront (by omega)
      refine ⟨conn, ?_, hunread⟩
      rw [recvline_refill hp (by omega), hrecv, Option.map_some, List.append_assoc]
    · cases back with
      | nil =>
        -- the newline is the first byte of the chunk
        rw [List.append_nil]
        have hchunk : c.1 ++ (cs.map Subtype.val).flatten = [] ++ '\n' :: rest := hrest.symm
        obtain ⟨conn, hrecv, hunread⟩ := ih (n := n - line.length) hchunk List.not_mem_nil (by simpa using hn)
        exact ⟨conn, by rw [recvline_refill hline hn, hrecv, Option.map_some, List.nil_append], hunread⟩
      | cons b back =>
        obtain ⟨rfl, rfl⟩ := List.cons.inj hrest
        exact ⟨_, recvline_found hline hn, rfl⟩

lemma chomp_newline (line : Text) : chomp (line ++ ['\n']) = chomp line := by
  rw [chomp, List.rdropWhile_concat_pos _ _ _ (by decide)]
  rfl

lemma cstr_of_not_mem {s : Text} (h : '\x00' ∉ s) : cstr s = s := by
  rw [cstr, List.takeWhile_eq_self_iff]
  intro c hc
  exact decide_eq_true fun hnul => h (hnul ▸ hc)

lemma readLine_line {conn : Conn} (h : conn.unread = line ++ '\n' :: rest) (hline : '\n' ∉ line)
    (hnul : '\x00' ∉ line) (hn : line.length + 1 < rrdCmdMax) :
    ∃ conn', readLine conn = some (chomp line, conn') ∧ conn'.unread = rest := by
  obtain ⟨conn', hrecv, hunread⟩ := recvline_line (n := rrdCmdMax - 1) h hline (by omega)
  refine ⟨conn', ?_, hunread⟩
  rw [readLine, hrecv, Option.map_some]
  show some (chomp (cstr (line ++ ['\n'])), conn') = _
  rw [cstr_of_not_mem (by simp [hnul]), chomp_newline]

lemma readLines_terminated {pieces : List Text} {conn : Conn}
    (h : conn.unread = terminated '\n' pieces ++ rest)
    (hpieces : ∀ line ∈ pieces, '\n' ∉ line ∧ '\x00' ∉ line ∧ line.length + 1 < rrdCmdMax) :
    ∃ conn', readLines pieces.length conn = some (pieces.map chomp, conn') ∧ conn'.unread = rest := by
  induction pieces generalizing conn with
  | nil => exact ⟨conn, rfl, h⟩
  | cons line pieces ih =>
    obtain ⟨hnewline, hnul, hfits⟩ := hpieces line List.mem_cons_self
    have h' : conn.unread = line ++ '\n' :: (terminated '\n' pieces ++ rest) := by
      rw [h]
      simp [terminated]
    obtain ⟨conn₁, hread, hunread⟩ := readLine_line h' hnewline hnul hfits
    obtain ⟨conn₂, hreads, hrest⟩ := ih hunread fun q hq => hpieces q (List.mem_cons_of_mem line hq)
    refine ⟨conn₂, ?_, hrest⟩
    simp only [List.length_cons, readLines, hread, Option.bind_eq_bind, Option.bind_some, hreads,
      List.map_cons]

/-! ### One response -/

section Respond

variable {behind : ℕ → Char} {r : Response}

lemma printed_of_lt {s : Text} (h : s.length < rrdCmdMax) : printed behind s = s := if_pos h

lemma foldl_addResponseInfo {sock : Sock} {info : List Text} (h : sock.batchStart = false) :
    info.foldl (addResponseInfo behind) sock =
      { sock with wbuf := sock.wbuf ++ (info.map (printed behind)).flatten } := by
  induction info generalizing sock with
  | nil => simp
  | cons s info ih =>
    have hadd : addResponseInfo behind sock s = { sock with wbuf := sock.wbuf ++ printed behind s } :=
      if_neg (by simp [h])
    rw [List.foldl_cons, hadd]
    refine (@ih { sock with wbuf := sock.wbuf ++ printed behind s } h).trans ?_
    simp

/-- The lines a handler added have no NUL. -/
lemma Response.nul_not_mem_wbuf (r : Response) : '\x00' ∉ r.wbuf := by
  intro h
  obtain ⟨s, hs, hmem⟩ := List.mem_flatten.1 h
  exact r.infoNul s hs hmem

lemma Response.nul_not_mem_line {line : Text} (hf : Framed r) (hok : r.code = .ok)
    (hline : line ∈ lines '\n' r.wbuf) : '\x00' ∉ line := by
  intro hmem
  apply r.nul_not_mem_wbuf
  rw [← terminated_lines (hf.linesEnded hok)]
  exact List.mem_flatMap.2 ⟨line, hline, List.mem_append_left _ hmem⟩

lemma countLines_wbuf (hf : Framed r) (hok : r.code = .ok) : countLines r.wbuf = r.status := by
  rw [Response.status, if_pos hok, countLines, cstr_of_not_mem r.nul_not_mem_wbuf,
    ← length_lines (hf.linesEnded hok), s32_natCast (hf.count hok)]

/-- A framed answer is the status line and, without an error, the lines. -/
lemma respond_accepted (hf : Framed r) :
    respond behind accepted r =
      (decimal r.status ++ ' ' :: r.text ++
        (if r.code = .ok then terminated '\n' (lines '\n' r.wbuf) else []), accepted) := by
  rw [respond, foldl_addResponseInfo rfl]
  cases hcode : r.code with
  | okBin => exact absurd hcode r.notBin
  | err =>
    have hstatus : r.status = -1 := if_neg (by simp [hcode])
    have hfits := hstatus ▸ hf.statusFits
    simp only [sendResponse, accepted, hstatus]
    simpa using printed_of_lt hfits
  | ok =>
    have hinfo : r.info.map (printed behind) = r.info := by
      refine (List.map_congr_left fun s hs => ?_).trans (List.map_id r.info)
      exact printed_of_lt (hf.infoFits hcode s hs)
    have hwbuf : accepted.wbuf ++ (r.info.map (printed behind)).flatten = r.wbuf := by
      rw [hinfo]
      rfl
    have hstatus : printed behind _ = _ := printed_of_lt hf.statusFits
    simp only [sendResponse, hwbuf, countLines_wbuf hf hcode, terminated_lines (hf.linesEnded hcode)]
    simp only [accepted, reduceCtorEq, if_false, if_true, Bool.false_eq_true, List.append_assoc,
      List.singleton_append, hstatus]

/-- The text of a framed answer without its newline. -/
lemma exists_text (hf : Framed r) : ∃ text, r.text = text ++ ['\n'] ∧ '\n' ∉ text := by
  have hlength : (lines '\n' r.text).length = 1 := (length_lines hf.ended).trans hf.oneLine
  obtain ⟨text, htext⟩ := List.length_eq_one_iff.1 hlength
  refine ⟨text, ?_, not_mem_of_mem_lines (htext ▸ List.mem_singleton_self text)⟩
  rw [← terminated_lines hf.ended, htext]
  simp [terminated]

/-- Neither a newline nor a NUL is printed for a number. -/
lemma not_mem_decimal {n : ℤ} {c : Char} (hc : c ≠ '-') (hdigit : c.isDigit = false) : c ∉ decimal n := by
  have hulong : c ∉ ulong n.natAbs := fun h => by simp [isDigit_of_mem_ulong h] at hdigit
  unfold decimal
  split
  · exact List.not_mem_cons_of_ne_of_not_mem hc hulong
  · exact hulong

lemma chomp_append_blank (front text : Text) :
    chomp (front ++ ' ' :: text) = front ++ ' ' :: chomp text := by
  simp only [chomp, List.rdropWhile, List.reverse_append, List.reverse_cons, List.append_assoc,
    List.dropWhile_append]
  split
  · rename_i hall
    simp [List.isEmpty_iff.1 hall]
  · simp

/-- The status is in the range of `int`. -/
lemma s32_status (hf : Framed r) : s32 (toLong r.status) = r.status := by
  unfold Response.status
  split
  · rename_i hok
    have hcount := hf.count hok
    have hlong : toLong ((lines '\n' r.wbuf).length : ℤ) = (lines '\n' r.wbuf).length := by
      rw [toLong, min_eq_left (by omega), max_eq_right (by omega)]
    rw [hlong, s32_natCast hcount]
  · decide

/-- The client reads what was answered, and no more. -/
lemma responseRead_respond {conn : Conn} (hf : Framed r)
    (h : conn.unread = (respond behind accepted r).1 ++ rest) :
    ∃ conn', responseRead conn = .ok (r.reply, conn') ∧ conn'.unread = rest := by
  obtain ⟨text, htext, hnewline⟩ := exists_text hf
  have hnul : '\x00' ∉ text := fun hmem => r.textNul (htext ▸ List.mem_append_left _ hmem)
  have hunread : conn.unread = (decimal r.status ++ ' ' :: text) ++
      '\n' :: ((if r.code = .ok then terminated '\n' (lines '\n' r.wbuf) else []) ++ rest) := by
    rw [h, respond_accepted hf, htext]
    simp only [List.append_assoc, List.cons_append, List.nil_append]
  have hfits := hf.statusFits
  rw [htext] at hfits
  obtain ⟨conn₁, hline, hbehind⟩ := readLine_line hunread (by simp [not_mem_decimal, hnewline])
    (by simp [not_mem_decimal, hnul]) (by simpa [add_assoc] using hfits)
  rw [chomp_append_blank] at hline
  have hstrtol : strtol 0 (decimal r.status ++ ' ' :: chomp text) = some (r.status, ' ' :: chomp text) :=
    strtol_decimal (.inl rfl) rfl
  have hmessage : (' ' :: chomp text).dropWhile (fun c => c = ' ' || c = '\t') = r.reply.message := by
    rw [List.dropWhile_cons_of_pos (by decide), Response.reply, htext, chomp_newline]
  simp only [responseRead, hline, hstrtol, hmessage, s32_status hf]
  by_cases hok : r.code = .ok
  · have hstatus : r.status = (lines '\n' r.wbuf).length := if_pos hok
    have hlines : r.reply.lines = (lines '\n' r.wbuf).map chomp := if_pos hok
    rw [if_pos hok] at hbehind
    obtain ⟨conn₂, hread, hrest⟩ := readLines_terminated hbehind fun line hline =>
      ⟨not_mem_of_mem_lines hline, r.nul_not_mem_line hf hok hline, hf.linesFit hok line hline⟩
    rw [← hlines] at hread
    obtain hnil | hcons := (lines '\n' r.wbuf).eq_nil_or_concat
    · rw [hnil] at hstatus hlines hbehind
      refine ⟨conn₁, ?_, hbehind⟩
      rw [if_pos (by simp [hstatus])]
      exact congrArg (fun ls => Except.ok (RrdcResponse.mk r.reply.status r.reply.message ls, conn₁)) hlines.symm
    · refine ⟨conn₂, ?_, hrest⟩
      have hpos : 0 < (lines '\n' r.wbuf).length := by
        obtain ⟨front, last, hlast⟩ := hcons
        simp [hlast]
      rw [if_neg (by omega), hstatus, Int.toNat_natCast, hread, ← hstatus]
      rfl
  · have hstatus : r.status = -1 := if_neg hok
    have hlines : r.reply.lines = [] := if_neg hok
    rw [if_neg hok] at hbehind
    refine ⟨conn₁, ?_, hbehind⟩
    rw [if_pos (by omega)]
    exact congrArg (fun ls => Except.ok (RrdcResponse.mk r.reply.status r.reply.message ls, conn₁)) hlines.symm

end Respond

/-! ### A connection -/

/-- One status line and as many lines as it counts. -/
def OneResponse (bytes : Text) : Prop :=
  ∃ (n : ℤ) (text : Text) (ls : List Text),
    bytes = decimal n ++ ' ' :: text ++ '\n' :: terminated '\n' ls ∧ '\n' ∉ text ∧
      (∀ l ∈ ls, '\n' ∉ l) ∧ (ls.length : ℤ) = max n 0

lemma oneResponse_respond {behind : ℕ → Char} {r : Response} (hf : Framed r) :
    OneResponse (respond behind accepted r).1 := by
  obtain ⟨text, htext, hnewline⟩ := exists_text hf
  refine ⟨r.status, text, if r.code = .ok then lines '\n' r.wbuf else [], ?_, hnewline, ?_, ?_⟩
  · rw [respond_accepted hf, htext]
    split <;> simp [terminated]
  · split
    · exact fun line hline => not_mem_of_mem_lines hline
    · exact fun line hline => absurd hline List.not_mem_nil
  · rw [Response.status]
    split <;> simp

lemma respondAll_accepted {behind : ℕ → Char} {rs : List Response} (hf : ∀ r ∈ rs, Framed r) :
    respondAll behind accepted rs = (rs.flatMap fun r => (respond behind accepted r).1, accepted) := by
  induction rs with
  | nil => rfl
  | cons r rs ih =>
    have ih := ih fun q hq => hf q (List.mem_cons_of_mem r hq)
    have hsock : (respond behind accepted r).2 = accepted := by
      rw [respond_accepted (hf r List.mem_cons_self)]
    simp only [respondAll, hsock, ih, List.flatMap_cons]

/-- The responses are read one after another. -/
lemma readAll_respond {behind : ℕ → Char} {rs : List Response} {conn : Conn} {later : Text}
    (hf : ∀ r ∈ rs, Framed r)
    (h : conn.unread = (rs.flatMap fun r => (respond behind accepted r).1) ++ later) :
    ∃ conn', readAll rs.length conn = .ok (rs.map Response.reply, conn') ∧ conn'.unread = later := by
  induction rs generalizing conn with
  | nil => exact ⟨conn, rfl, h⟩
  | cons r rs ih =>
    rw [List.flatMap_cons, List.append_assoc] at h
    obtain ⟨conn₁, hread, hunread⟩ := responseRead_respond (hf r List.mem_cons_self) h
    obtain ⟨conn₂, hreads, hlater⟩ := ih (fun q hq => hf q (List.mem_cons_of_mem r hq)) hunread
    refine ⟨conn₂, ?_, hlater⟩
    simp only [List.length_cons, readAll, hread, bind, Except.bind, hreads, List.map_cons]

/-- The client keeps in step with the daemon on a connection with framed answers: each is one status
line and the lines it counts, and each `response_read` returns the answer of its request, with the
bytes of the later ones left. -/
theorem responses_in_step (behind : ℕ → Char) (rs : List Response) (hf : ∀ r ∈ rs, Framed r) :
    (respondAll behind accepted rs).2 = accepted ∧
      (∀ r ∈ rs, OneResponse (respond behind accepted r).1) ∧
      ∀ (conn : Conn) (later : Text), conn.unread = (respondAll behind accepted rs).1 ++ later →
        ∃ conn', readAll rs.length conn = .ok (rs.map Response.reply, conn') ∧ conn'.unread = later := by
  rw [respondAll_accepted hf]
  exact ⟨rfl, fun r hr => oneResponse_respond (hf r hr), fun conn later h => readAll_respond hf h⟩

lemma ok_notBin : ResponseCode.ok ≠ .okBin := by decide

lemma err_notBin : ResponseCode.err ≠ .okBin := by decide

lemma noInfo : ∀ s ∈ ([] : List Text), '\x00' ∉ s := by decide

/-- The answer to `PING`. -/
def pong : Response := { code := .ok, text := "PONG\n".toList, info := [] }

/-- The answer to `QUEUE` with one file. -/
def oneQueued : Response := { code := .ok, text := "in queue.\n".toList, info := ["2 /a.rrd\n".toList] }

theorem responses_in_step_queue_ping :
    (respondAll (fun _ => ' ') accepted [oneQueued, pong]).1 =
        "1 in queue.\n2 /a.rrd\n0 PONG\n".toList ∧
      ∃ conn', readAll 2 (.ofChunks ["1 in qu".toList, "eue.\n2 /a.rrd\n0 PONG\n".toList]) =
        .ok ([oneQueued.reply, pong.reply], conn') ∧ conn'.unread = [] := by
  have hframed : ∀ r ∈ [oneQueued, pong], Framed r := by
    intro r hr
    obtain rfl | rfl : r = oneQueued ∨ r = pong := by simpa using hr
    · constructor <;> decide
    · constructor <;> decide
  have hstep := responses_in_step (fun _ => ' ') [oneQueued, pong] hframed
  exact ⟨by decide +kernel, hstep.2.2 _ [] (by decide +kernel)⟩

/-- The answer of `handle_request_create` for a directory that does not exist, without `-R`. -/
def createRefused (dir : Text) (h : '\x00' ∉ dir) : Response where
  code := .err
  text := "No permission to recursively create: ".toList ++ dir ++
    "\nDid you pass -R to the daemon?\n".toList
  info := []
  textNul := by simp [h]

/-- An answer is counted by its newlines. -/
lemma OneResponse.count {bytes : Text} (h : OneResponse bytes) :
    ∃ n : ℤ, decimal n <+: bytes ∧ (bytes.count '\n' : ℤ) = max n 0 + 1 := by
  obtain ⟨n, text, ls, rfl, htext, hls, hlength⟩ := h
  refine ⟨n, ⟨_, (List.append_assoc ..).symm⟩, ?_⟩
  have hdecimal : (decimal n).count '\n' = 0 :=
    List.count_eq_zero.2 (not_mem_decimal (by decide) (by decide))
  simp [hdecimal, List.count_eq_zero.2 htext, count_terminated hls, hlength]

/-- The second line of the refusal is read as the answer to the `PING` behind it. -/
theorem refusal_shifts_responses :
    ¬ OneResponse (respond (fun _ => ' ') accepted (createRefused "/a".toList (by decide))).1 ∧
      (respondAll (fun _ => ' ') accepted [createRefused "/a".toList (by decide), pong]).1 =
        "-1 No permission to recursively create: /a\nDid you pass -R to the daemon?\n0 PONG\n".toList ∧
      (responseRead (.ofChunks [(respond (fun _ => ' ') accepted (createRefused "/a".toList (by decide))).1,
        (respond (fun _ => ' ') accepted pong).1])).toOption.map (fun p => (p.1.status, p.2.inbuf)) =
        some (-1, "Did you pass -R to the daemon?\n".toList) ∧
      readAll 2 (.ofChunks [(respond (fun _ => ' ') accepted (createRefused "/a".toList (by decide))).1,
        (respond (fun _ => ' ') accepted pong).1]) = .error (-4) := by
  refine ⟨?_, by decide +kernel, by decide +kernel, by decide +kernel⟩
  intro h
  obtain ⟨n, hfront, hcount⟩ := h.count
  have htwo : (respond (fun _ => ' ') accepted (createRefused "/a".toList (by decide))).1.count '\n' = 2 := by
    decide +kernel
  -- two newlines are announced by a 1, and the answer starts with -1
  obtain rfl : n = 1 := by omega
  exact absurd hfront (by decide +kernel)

end Rrdtool
