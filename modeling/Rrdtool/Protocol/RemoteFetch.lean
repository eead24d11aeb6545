import Rrdtool.Fetch.Choice
import Rrdtool.Protocol.FetchLines

/-!
# A remote fetch and a local one

`rrd_client_fetch` is meant to behave like `rrd_fetch_r`, but the step that is asked for is not sent.
The daemon fetches with step -1, which is nearest to the archive with the smallest step. So the two
return the same exactly when the archive that is best for the step asked for is also the best for -1
(`rrdClientFetch_eq_iff`), as long as the request and the answer fit into the buffers of the protocol
(`Transmissible`).
-/

namespace Rrdtool
open Lines Client FetchEnv

/-- The step that the daemon asks for. -/
@[grind] def daemonStep : ℕ := u64 (-1)

section Window

variable (rrd : Rrd) (rra : Rra) (start stop : ℤ)

/-- The start of the window. -/
def windowStart : ℤ := rrd.rowSpan rra.rraDef * (start / rrd.rowSpan rra.rraDef)

/-- The end of the window. -/
def windowStop : ℤ := rrd.rowSpan rra.rraDef * (stop / rrd.rowSpan rra.rraDef + 1)

/-- Row `j` of the window. -/
def fetchedRow (j : ℕ) : Row := heldRow rrd rra (start / rrd.rowSpan rra.rraDef + 1 + j)

end Window

/-- The rows of the window can be fetched and sent: the archive is well formed, the lines of the answer
fit into the buffers and its numbers into their types, and the names and values can be read back. -/
structure Answerable (env : FetchEnv) (rrd : Rrd) (rra : Rra) (start stop : ℤ) : Prop where
  span_pos : 0 < rrd.rowSpan rra.rraDef
  rowCnt_pos : 0 < rra.rraDef.rowCnt
  rowCnt_lt : rra.rraDef.rowCnt < 2 ^ 31
  ordered : start / rrd.rowSpan rra.rraDef ≤ stop / rrd.rowSpan rra.rraDef
  stop_lt : windowStop rrd rra stop < 2 ^ 63
  ds_pos : 0 < rrd.dsCnt
  name_word : ∀ ds ∈ rrd.ds, Word ds.dsDef.dsNam
  size_lt : rrd.dsCnt * (windowStop rrd rra stop - windowStart rrd rra start) < 2 ^ 64
  index_le : rrd.dsCnt * ((windowStop rrd rra stop - windowStart rrd rra start) /
    rrd.rowSpan rra.rraDef).toNat ≤ 2 ^ 32
  wide : ∀ j, (fetchedRow rrd rra start j).length = rrd.dsCnt
  read : ∀ j < ((windowStop rrd rra stop - windowStart rrd rra start) / rrd.rowSpan rra.rraDef).toNat,
    ∀ v ∈ fetchedRow rrd rra start j, env.RoundTrips v
  lines_lt : 6 + ((windowStop rrd rra stop - windowStart rrd rra start) / rrd.rowSpan rra.rraDef).toNat < 2 ^ 31
  line_lt : ∀ line ∈ env.replyLines (windowStart rrd rra start) (windowStop rrd rra stop)
    (rrd.rowSpan rra.rraDef) (rrd.ds.map (·.dsDef.dsNam)) (fetchedRow rrd rra start),
    line.length + 1 < rrdCmdMax

/-- The daemon opens the file that the client names, the request fits into its buffer, and the archive
that the daemon chooses can be sent. -/
structure Transmissible (env : FetchEnv) (getPath : Text → Option Text) (filename : Text) (rrd : Rrd)
    (cf : Cf) (start stop : ℤ) : Prop where
  request : ∃ path, getPath filename = some path ∧ '\n' ∉ path ∧ env.openRrd path = .ok rrd ∧
    (joined (fetchFields path (cfToString cf) start stop)).length ≤ rrdCmdMax
  start_range : 0 < start ∧ start < 2 ^ 63
  stop_range : 0 < stop ∧ stop < 2 ^ 63
  answer : ∀ idx rra, chooseRra rrd cf start stop daemonStep = some idx → rrd.rra[idx]? = some rra →
    Answerable env rrd rra start stop

section

variable {env : FetchEnv} {rrd : Rrd} {rra : Rra} {cf : Cf} {start stop : ℤ}

/-- The answer can be read back. -/
lemma Answerable.readable (h : Answerable env rrd rra start stop) (hstart : 0 < start) :
    Readable env (windowStart rrd rra start) (windowStop rrd rra stop) (rrd.rowSpan rra.rraDef)
      (rrd.ds.map (·.dsDef.dsNam)) (fetchedRow rrd rra start) := by
  have hspan : (0 : ℤ) < rrd.rowSpan rra.rraDef := by exact_mod_cast h.span_pos
  have hdiv : 0 ≤ start / (rrd.rowSpan rra.rraDef : ℤ) := Int.ediv_nonneg hstart.le hspan.le
  constructor
  · exact mul_nonneg hspan.le hdiv
  · exact mul_lt_mul_of_pos_left (Int.lt_add_one_of_le h.ordered) hspan
  · exact h.stop_lt
  · exact dvd_sub (Dvd.intro _ rfl) (Dvd.intro _ rfl)
  · rw [List.length_map]
    exact h.ds_pos
  · intro name hname
    obtain ⟨ds, hds, rfl⟩ := List.mem_map.1 hname
    exact h.name_word ds hds
  · rw [List.length_map]
    exact h.size_lt
  · intro j
    rw [List.length_map]
    exact h.wide j
  · exact h.read

lemma Answerable.rrdFetchFn_eq {idx step : ℕ} (h : Answerable env rrd rra start stop)
    (hidx : chooseRra rrd cf start stop step = some idx) (hrra : rrd.rra[idx]? = some rra)
    (hstart : 0 < start ∧ start < 2 ^ 63) (hstop : 0 < stop ∧ stop < 2 ^ 63) :
    ∃ res, rrdFetchFn rrd cf start stop step = some res ∧ res.start = windowStart rrd rra start ∧
      res.stop = windowStop rrd rra stop ∧ res.step = rrd.rowSpan rra.rraDef ∧
      res.dsNamv = rrd.ds.map (·.dsDef.dsNam) ∧
      res.data = (List.range ((res.stop - res.start) / res.step).toNat).map fun j =>
        some (fetchedRow rrd rra start j) := by
  refine ⟨_, Rrdtool.rrdFetchFn_eq hidx hrra ⟨hstart.1.le, hstart.2⟩ ⟨hstop.1.le, hstop.2⟩ h.span_pos
    ⟨h.rowCnt_pos, h.rowCnt_lt⟩ h.ordered, rfl, rfl, rfl, rfl, ?_⟩
  show List.map _ _ = _
  rw [window_length h.span_pos]
  rfl

/-- The answer of the daemon, as a response with texts without a NUL. -/
def successResponse (info : List Text) (h : ∀ s ∈ info, '\x00' ∉ s) : Response where
  code := .ok
  text := "Success\n".toList
  info := info
  notBin := ok_notBin
  infoNul := h

lemma status_fits {n : ℕ} (h : n < 2 ^ 31) :
    (decimal (n : ℤ) ++ ' ' :: "Success\n".toList).length < rrdCmdMax := by
  have hdigits : (ulong n).length ≤ 10 := by
    rw [ulong_eq_toDigits, Nat.length_toDigits_le_iff (by decide) (by decide)]
    omega
  have hdecimal : decimal (n : ℤ) = ulong n := if_neg (by omega)
  have htext : (' ' :: "Success\n".toList).length = 9 := by decide
  rw [hdecimal, List.length_append, htext, rrdCmdMax]
  omega

/-- A response whose texts make up complete lines that fit. -/
lemma framed_success {groups : List (List Text)} {ls : List Text}
    (hgroups : List.Forall₂ (fun group line => group.flatten = line ++ ['\n']) groups ls)
    (hline : ∀ line ∈ ls, ∀ c ∈ line, isLineChar c) (hfits : ∀ line ∈ ls, line.length + 1 < rrdCmdMax)
    (hcount : ls.length < 2 ^ 31) (hnul : ∀ s ∈ groups.flatten, '\x00' ∉ s) :
    Framed (successResponse groups.flatten hnul) ∧
      (successResponse groups.flatten hnul).reply = ⟨ls.length, "Success".toList, ls⟩ := by
  have hwbuf : (successResponse groups.flatten hnul).wbuf = terminated '\n' ls := flatten_groups hgroups
  have hlines : lines '\n' (successResponse groups.flatten hnul).wbuf = ls := by
    rw [hwbuf]
    apply lines_terminated
    intro line hmem hnewline
    exact absurd (hline line hmem _ hnewline) (by decide)
  have hstatus : (successResponse groups.flatten hnul).status = ls.length := by
    rw [Response.status, hlines]
    rfl
  constructor
  · constructor
    · show "Success\n".toList.count '\n' = 1
      decide
    · show Complete '\n' "Success\n".toList
      decide
    · rw [hstatus]
      exact status_fits hcount
    · exact fun _ => length_le_of_groups hgroups hfits
    · intro _
      rw [hwbuf]
      exact complete_terminated ls
    · intro _
      rw [hlines]
      exact hfits
    · intro _
      rw [hlines]
      exact hcount
  · have hmessage : (chomp (successResponse groups.flatten hnul).text).dropWhile
        (fun c => c = ' ' || c = '\t') = "Success".toList := by
      show (chomp "Success\n".toList).dropWhile _ = _
      decide
    have hchomp : ls.map chomp = ls :=
      (List.map_congr_left fun line hmem => chomp_lineChars (hline line hmem)).trans (List.map_id ls)
    rw [Response.reply, hstatus, hmessage, hlines, hchomp]
    rfl

/-- What is printed for lines without a NUL has none. -/
lemma nul_not_mem_groups {groups : List (List Text)} {ls : List Text}
    (hgroups : List.Forall₂ (fun group line => group.flatten = line ++ ['\n']) groups ls)
    (hline : ∀ line ∈ ls, ∀ c ∈ line, isLineChar c) : ∀ s ∈ groups.flatten, '\x00' ∉ s := by
  intro s hs hnul
  have hmem : '\x00' ∈ groups.flatten.flatten := List.mem_flatten.2 ⟨s, hs, hnul⟩
  rw [flatten_groups hgroups] at hmem
  obtain ⟨line, hl, hmem⟩ := List.mem_flatMap.1 hmem
  obtain hmem | hmem := List.mem_append.1 hmem
  · exact absurd (hline line hl _ hmem) (by decide)
  · exact absurd (List.mem_singleton.1 hmem) (by decide)

/-- The error of the daemon. -/
def noMatchResponse : Response := { code := .err, text := noMatchText, info := [], notBin := err_notBin, infoNul := noInfo }

lemma framed_noMatch : Framed noMatchResponse := by
  constructor
  · decide
  · decide
  · decide
  · exact fun h => nomatch h
  · exact fun h => nomatch h
  · exact fun h => nomatch h
  · exact fun h => nomatch h

/-- The client reads the answer of the daemon. -/
lemma responseRead_deliver {r : Response} (hf : Framed r) :
    ∃ conn, responseRead (env.deliver (respond env.behind accepted r).1) = .ok (r.reply, conn) := by
  obtain ⟨conn, hread, -⟩ := @responseRead_respond [] env.behind r
    (env.deliver (respond env.behind accepted r).1) hf (by rw [env.delivered, List.append_nil])
  exact ⟨conn, hread⟩

/-- The request arrives and is answered. -/
lemma rrdClientFetch_answer {getPath : Text → Option Text} {filename : Text}
    (h : Transmissible env getPath filename rrd cf start stop) {r : Response} (hf : Framed r)
    (hr : env.answer rrd cf start stop = (r.code, r.text, r.info)) :
    rrdClientFetch env getPath filename (cfToString cf) start stop =
      if r.reply.status < 0 then none else fetchReply r.reply := by
  obtain ⟨path, hpath, hnewline, hopen, hfits⟩ := h.request
  have hcf : '\n' ∉ cfToString cf := by cases cf <;> decide
  obtain ⟨conn, hread⟩ := @responseRead_deliver env r hf
  have hread' : responseRead (env.deliver
      (sendResponse env.behind (r.info.foldl (addResponseInfo env.behind) accepted) r.code r.text).1) =
      .ok (r.reply, conn) := hread
  simp only [rrdClientFetch, fetchRequest_eq hpath h.start_range.1 h.stop_range.1 hfits,
    nextCmd_fetchFields hnewline hcf, handleRequest_fetchFields hopen h.start_range h.stop_range, hr, hread',
    Option.bind_eq_bind, Option.bind_some, Except.toOption]

/-- A remote fetch is a local one with the step of the daemon. -/
lemma rrdClientFetch_eq {getPath : Text → Option Text} {filename : Text}
    (h : Transmissible env getPath filename rrd cf start stop) :
    rrdClientFetch env getPath filename (cfToString cf) start stop =
      (rrdFetchFn rrd cf start stop daemonStep).map FetchResult.fetched := by
  cases hidx : chooseRra rrd cf start stop daemonStep with
  | none =>
    have hnone : rrdFetchFn rrd cf start stop daemonStep = none := by simp only [rrdFetchFn, hidx]
    have hanswer : env.answer rrd cf start stop = (.err, noMatchText, []) := by
      rw [answer, show u64 (-1) = daemonStep from rfl, hnone]
    rw [rrdClientFetch_answer h framed_noMatch hanswer, hnone]
    rfl
  | some idx =>
    obtain ⟨rra, hrra, -⟩ := chooseRra_some hidx
    have hans := h.answer idx rra hidx hrra
    obtain ⟨res, hres, hstart, hstop, hstep, hnames, hdata⟩ :=
      hans.rrdFetchFn_eq hidx hrra h.start_range h.stop_range
    have hread := hans.readable h.start_range.1
    have hline := hans.line_lt
    have hindex := hans.index_le
    have hcount := hans.lines_lt
    have hds : rrd.dsCnt = res.dsNamv.length := by rw [hnames, List.length_map]; rfl
    have hwide := hans.wide
    rw [hds] at hindex
    simp only [hds] at hwide
    rw [← hstart, ← hstop, ← hstep] at hindex hcount
    rw [← hstart, ← hstop, ← hstep, ← hnames] at hread hline
    obtain ⟨groups, hinfo, hgroups⟩ := @fetchInfo_groups env res _ _ rfl hdata hwide hindex
    have hnul : ∀ s ∈ groups.flatten, '\x00' ∉ s := nul_not_mem_groups hgroups hread.lineChars
    have hlength : (env.replyLines res.start res.stop res.step res.dsNamv (fetchedRow rrd rra start)).length =
        6 + ((res.stop - res.start) / res.step).toNat := by
      rw [replyLines, List.length_append, List.length_map, List.length_range]
      rfl
    obtain ⟨hframed, hreply⟩ := framed_success hgroups hread.lineChars hline (hlength ▸ hcount) hnul
    have hanswer : env.answer rrd cf start stop = (.ok, "Success\n".toList, groups.flatten) := by
      rw [answer, show u64 (-1) = daemonStep from rfl, hres]
      exact congrArg (fun info => (ResponseCode.ok, "Success\n".toList, info)) hinfo
    have hnamesLt : res.dsNamv.length < 2 ^ 63 := by
      obtain ⟨n, hn, -, hrows, -⟩ := hread.rows_eq
      rw [hrows] at hindex
      have := Nat.le_mul_of_pos_right res.dsNamv.length hn
      omega
    rw [rrdClientFetch_answer h hframed hanswer, hreply, if_neg (by simp), hres,
      fetchReply_replyLines hread hnamesLt, ← hdata]
    rfl

/-- `rrd_fetch_fn` looks at the step to choose the archive only. -/
lemma rrdFetchFn_congr {step step' : ℕ}
    (h : chooseRra rrd cf start stop step = chooseRra rrd cf start stop step') :
    rrdFetchFn rrd cf start stop step = rrdFetchFn rrd cf start stop step' := by
  simp only [rrdFetchFn, h]

end

/-- A remote fetch returns what a local one returns exactly when the archive that is chosen for the step
asked for is the one that is chosen for step -1. -/
theorem rrdClientFetch_eq_iff {env : FetchEnv} {getPath : Text → Option Text} {filename : Text} {rrd : Rrd}
    {cf : Cf} {start stop : ℤ} {step : ℕ} (h : Transmissible env getPath filename rrd cf start stop) :
    rrdClientFetch env getPath filename (cfToString cf) start stop =
        (rrdFetchFn rrd cf start stop step).map FetchResult.fetched ↔
      chooseRra rrd cf start stop step = chooseRra rrd cf start stop daemonStep := by
  rw [rrdClientFetch_eq h]
  constructor
  · intro heq
    cases hi : chooseRra rrd cf start stop step with
    | none => exact ((chooseRra_eq_none_iff step daemonStep).1 hi).symm
    | some i =>
      cases hj : chooseRra rrd cf start stop daemonStep with
      | none =>
        rw [chooseRra_eq_none_iff daemonStep step, hi] at hj
        cases hj
      | some j =>
        obtain ⟨rra, hrra, -⟩ := chooseRra_some hi
        obtain ⟨rra', hrra', -⟩ := chooseRra_some hj
        -- the steps of the two results are those of the archives
        simp only [rrdFetchFn, hi, hj, hrra, hrra', Option.map_some, Option.some.injEq] at heq
        have hspan : rrd.rowSpan rra'.rraDef = rrd.rowSpan rra.rraDef := congrArg Fetched.step heq
        rw [chooseRra_unique hi hj hrra hrra' hspan.symm]
  · intro heq
    rw [rrdFetchFn_congr heq]

/-- One data source and two archives of averages, of one and of three steps to the row. -/
def twoStepsHeader : Header where
  version := 3
  pdpStep := 10
  lastUp := 1000
  ds := [gaugeDs ['a'] 60]
  rra := [plainRra .average 10 1 (1 / 2), plainRra .average 10 3 (1 / 2)]
  pdpStep_pos := tenSeconds_pos
  lastUp_lt := thousand_lt
  valid r hr := by
    obtain rfl | rfl : r = plainRra .average 10 1 (1 / 2) ∨ r = plainRra .average 10 3 (1 / 2) := by
      simpa using hr
    all_goals exact ⟨by decide, by decide, by decide, fun _ => ⟨1 / 2, rfl, by norm_num, by norm_num⟩⟩

/-- A file that was just created. -/
def twoStepsRrd : Rrd := rrdInitData twoStepsHeader fun _ => 2

/-- A daemon with this file. The values of the file are unknown, and printed as such. -/
def twoStepsEnv : FetchEnv where
  openRrd path := if path = "/a.rrd".toList then .ok twoStepsRrd else .error "No such file\n".toList
  now := 1000
  print _ := "nan".toList
  junk _ := .nan
  behind _ := ' '
  deliver bytes := .ofChunks [bytes]
  delivered bytes := by
    by_cases h : bytes = []
    · simp [Conn.ofChunks, Conn.unread, h]
    · simp [Conn.ofChunks, Conn.unread, h]

lemma twoSteps_fetchedRow (rra : Rra) (h : rra ∈ twoStepsRrd.rra) (start : ℤ) (j : ℕ) :
    fetchedRow twoStepsRrd rra start j = [.nan] := by
  have hslot : ∀ k, rra.ring.slot k = [.nan] := by
    intro k
    obtain rfl | rfl : rra = initRra twoStepsHeader (plainRra .average 10 1 (1 / 2)) 2 ∨
        rra = initRra twoStepsHeader (plainRra .average 10 3 (1 / 2)) 2 := by
      simpa [twoStepsRrd, rrdInitData, twoStepsHeader] using h
    all_goals rfl
  simp only [fetchedRow, heldRow]
  split
  · exact hslot _
  · rfl

theorem rrdClientFetch_eq_iff_finest :
    rrdClientFetch twoStepsEnv some "/a.rrd".toList (cfToString .average) 905 995 =
        (rrdFetchFn twoStepsRrd .average 905 995 10).map FetchResult.fetched ∧
      chooseRra twoStepsRrd .average 905 995 10 = some 0 := by
  have hchoice : chooseRra twoStepsRrd .average 905 995 daemonStep = some 0 := by decide
  have hfinest : chooseRra twoStepsRrd .average 905 995 10 = some 0 := by decide
  have hword : Word "nan".toList := ⟨by decide, List.all_eq_true.1 (by decide)⟩
  have htransmissible : Transmissible twoStepsEnv some "/a.rrd".toList twoStepsRrd .average 905 995 := by
    have hopen : twoStepsEnv.openRrd "/a.rrd".toList = .ok twoStepsRrd := by
      simp only [twoStepsEnv, if_true]
    refine ⟨⟨_, rfl, by decide, hopen, by decide⟩, by decide, by decide, ?_⟩
    intro idx rra hidx hrra
    obtain rfl : 0 = idx := by rw [hchoice] at hidx; exact Option.some.inj hidx
    have hrow := twoSteps_fetchedRow rra (List.mem_of_getElem? hrra) 905
    obtain rfl : initRra twoStepsHeader (plainRra .average 10 1 (1 / 2)) 2 = rra := Option.some.inj hrra
    constructor
    · decide
    · decide
    · decide
    · decide
    · decide
    · decide
    · intro ds hds
      obtain rfl : ds = ⟨gaugeDs ['a'] 60, resetPdpPrep 1000 10⟩ := List.mem_singleton.1 hds
      exact ⟨by decide, List.all_eq_true.1 (by decide)⟩
    · decide
    · decide
    · intro j
      rw [hrow]
      rfl
    · intro j _ v hv
      rw [hrow] at hv
      obtain rfl := List.mem_singleton.1 hv
      exact ⟨hword, by decide⟩
    · decide
    · decide
  exact ⟨(rrdClientFetch_eq_iff htransmissible).2 (hfinest.trans hchoice.symm), hfinest⟩

/-- The coarser archive is asked for, and the finer one is returned. -/
theorem remote_fetch_ignores_step :
    (rrdFetchFn twoStepsRrd .average 905 995 30).map (·.fetched.step) = some 30 ∧
      (rrdClientFetch twoStepsEnv some "/a.rrd".toList (cfToString .average) 905 995).map (·.step) = some 10 ∧
      rrdClientFetch twoStepsEnv some "/a.rrd".toList (cfToString .average) 905 995 ≠
        (rrdFetchFn twoStepsRrd .average 905 995 30).map FetchResult.fetched := by
  have hlocal : (rrdFetchFn twoStepsRrd .average 905 995 30).map (·.fetched.step) = some 30 := by
    decide
  have hremote : (rrdClientFetch twoStepsEnv some "/a.rrd".toList (cfToString .average) 905 995).map
      (·.step) = some 10 := by decide +kernel
  refine ⟨hlocal, hremote, fun h => ?_⟩
  rw [h, Option.map_map] at hremote
  exact absurd (hlocal.symm.trans hremote) (by decide)

end Rrdtool
