import Rrdtool.Protocol.Fetch

/-!
# The lines of a fetch

What the daemon reads of the request of `rrd_client_fetch` is what was sent
(`handleRequest_fetchFields`), and what the client reads of the answer is what was fetched
(`fetchReply_replyLines`), as long as every text fits into its buffer, every number into its type, the
names are words and the values are printed so that they are read back.
-/

namespace Rrdtool
open Lines Client FetchEnv

/-! ### The request -/

section Request

variable {getPath : Text → Option Text} {filename path cf : Text} {start stop : ℤ}

/-- The strings of the request. -/
@[grind] def fetchFields (path cf : Text) (start stop : ℤ) : List Text :=
  ["FETCH".toList, path, cf, ulong start.toNat, ulong stop.toNat]

lemma fetchRequest_eq (hpath : getPath filename = some path) (hstart : 0 < start) (hstop : 0 < stop)
    (hfits : (joined (fetchFields path cf start stop)).length ≤ rrdCmdMax) :
    fetchRequest getPath filename cf start stop = some (endLine (joined (fetchFields path cf start stop))) := by
  have hcmd := @addAll_command "FETCH".toList (by decide +kernel)
  have hline := @endLine_addAll "FETCH".toList
    ([path] ++ ([cf] ++ ([ulong start.toNat] ++ [ulong stop.toNat]))) (by decide +kernel)
  rw [show "FETCH".toList :: ([path] ++ ([cf] ++ ([ulong start.toNat] ++ [ulong stop.toNat]))) =
    fetchFields path cf start stop from rfl, if_pos hfits] at hline
  simp only [addAll_append, Option.bind_assoc] at hline
  simp only [fetchRequest, Option.bind_eq_bind, hcmd, Option.bind_some, hpath, if_pos hstart, if_pos hstop]
  exact hline

lemma getField_joined {a b : Text} {strs : List Text} :
    getField (some (joined (a :: b :: strs)).dropLast) = some (a, some (joined (b :: strs)).dropLast) := by
  rw [joined_dropLast_cons (List.cons_ne_nil b strs)]
  exact bufferGetField_escape_blank a _

lemma getField_joined_last {a : Text} : getField (some (joined [a]).dropLast) = some (a, none) := by
  rw [show (joined [a]).dropLast = escape a by simp [joined]]
  exact bufferGetField_escape a

lemma ulong_last_ne (n : ℕ) : (ulong n).getLast? ≠ some '\r' := by
  intro h
  exact absurd (isDigit_of_mem_ulong (List.mem_of_getLast? h)) (by decide)

lemma newline_not_mem_ulong (n : ℕ) : '\n' ∉ ulong n := fun h =>
  absurd (isDigit_of_mem_ulong h) (by decide)

/-- The daemon gets the line of the request. -/
lemma nextCmd_fetchFields (hpath : '\n' ∉ path) (hcf : '\n' ∉ cf) :
    nextCmd (endLine (joined (fetchFields path cf start stop))) =
      some ((joined (fetchFields path cf start stop)).dropLast, []) := by
  have hchomp : chompLast (fetchFields path cf start stop) = fetchFields path cf start stop := by
    rw [chompLast_eq_self_iff (by simp [fetchFields])]
    simp [fetchFields, ulong_last_ne]
  rw [nextCmd_endLine (by simp [fetchFields]), hchomp]
  intro str hstr
  simp only [fetchFields, List.mem_cons, List.not_mem_nil, or_false] at hstr
  obtain rfl | rfl | rfl | rfl | rfl := hstr
  · decide
  · exact hpath
  · exact hcf
  · exact newline_not_mem_ulong _
  · exact newline_not_mem_ulong _

lemma fetchArgs_fetchFields :
    fetchArgs (some (joined [path, cf, ulong start.toNat, ulong stop.toNat]).dropLast) =
      some ⟨path, cf, some (ulong start.toNat), some (ulong stop.toNat), none⟩ := by
  simp only [fetchArgs, getField_joined, getField_joined_last, Option.bind_eq_bind, Option.bind_some]

lemma toLong_of_lt {v : ℤ} (h0 : 0 ≤ v) (h : v < 2 ^ 63) : toLong v = v := by
  unfold toLong
  omega

lemma strtolFits_ulong {n base : ℕ} (hbase : base = 0 ∨ base = 10) (h : n < 2 ^ 63) :
    strtolFits base (ulong n) = some (n : ℤ) := by
  have hread := @strtol_ulong n base [] hbase rfl
  rw [List.append_nil] at hread
  simp only [strtolFits, hread, toLong_of_lt (Int.natCast_nonneg n) (by exact_mod_cast h), if_true]

/-- A time that was sent is read back. -/
lemma parseTime_ulong {now t : ℤ} (h0 : 0 < t) (h : t < 2 ^ 63) : parseTime now (ulong t.toNat) = some t := by
  rw [parseTime, strtolFits_ulong (.inl rfl) (by omega), Option.map_some, if_pos (by omega),
    Int.toNat_of_nonneg h0.le]

end Request

/-! ### The answer of the daemon -/

section Answer

variable {env : FetchEnv} {rrd : Rrd} {path : Text} {cf : Cf} {start stop : ℤ}

/-- What the daemon makes of the request. -/
@[grind] def FetchEnv.answer (env : FetchEnv) (rrd : Rrd) (cf : Cf) (start stop : ℤ) : ResponseCode × Text × List Text :=
  match rrdFetchFn rrd cf start stop (u64 (-1)) with
  | none => (.err, noMatchText, [])
  | some res => (.ok, "Success\n".toList, env.fetchInfo res (List.range res.dsNamv.length))

lemma handleRequest_fetchFields (hopen : env.openRrd path = .ok rrd)
    (hstart : 0 < start ∧ start < 2 ^ 63) (hstop : 0 < stop ∧ stop < 2 ^ 63) :
    env.handleRequest (joined (fetchFields path (cfToString cf) start stop)).dropLast =
      some (env.answer rrd cf start stop) := by
  have hcmd : bufferGetField (joined (fetchFields path (cfToString cf) start stop)).dropLast =
      some ("FETCH".toList, some (joined [path, cfToString cf, ulong start.toNat, ulong stop.toNat]).dropLast) :=
    @getField_joined "FETCH".toList path [cfToString cf, ulong start.toNat, ulong stop.toNat]
  have hci : eqCI "FETCH".toList "FETCH".toList = true := by decide
  simp only [handleRequest, hcmd, hci, if_true, handleRequestFetch, handleRequestFetchParse,
    fetchArgs_fetchFields, hopen, parseTime_ulong hstart.1 hstart.2, parseTime_ulong hstop.1 hstop.2,
    rrdCfConv_cfToString, bind, Except.bind, answer]
  cases rrdFetchFn rrd cf start stop (u64 (-1)) with
  | none => rfl
  | some res => rfl

end Answer

/-! ### The lines of the answer -/

/-- A line with a number, without its end. -/
def numericText (name : Text) (n : ℕ) : Text := name ++ ": ".toList ++ ulong n

/-- The line with the names. -/
def nameLine (names : List Text) : Text := "DSName".toList ++ ':' :: ' ' :: (nameInfo names).flatten

/-- The line of a row that ends at time `t`. -/
@[grind] def FetchEnv.rowLine (env : FetchEnv) (row : Row) (t : ℤ) : Text :=
  padded (u64 t) ++ ':' :: row.flatMap fun v => ' ' :: env.print v

/-- All lines of the answer, for rows that are known by their number. -/
@[grind] def FetchEnv.replyLines (env : FetchEnv) (start stop : ℤ) (step : ℕ) (names : List Text) (rows : ℕ → Row) :
    List Text :=
  [numericText "FlushVersion".toList 1, numericText "Start".toList (u64 start),
    numericText "End".toList (u64 stop), numericText "Step".toList step,
    numericText "DSCount".toList names.length, nameLine names] ++
    (List.range ((stop - start) / step).toNat).map fun j => env.rowLine (rows j) (start + (j + 1 : ℕ) * step)

section Lines

variable {env : FetchEnv} {res : FetchResult} {rows : ℕ → Row}

lemma zipIdx_rowTimes (start stop : ℤ) (step : ℕ) :
    (rowTimes start stop step).zipIdx =
      (List.range ((stop - start) / step).toNat).map fun j => (start + (j + 1 : ℕ) * step, j) := by
  apply List.ext_getElem
  · simp [rowTimes]
  · intro j h₁ h₂
    simp [rowTimes]

/-- The values of a row are found in the array of the data. -/
lemma map_cell {n j : ℕ} (hdata : res.data = (List.range n).map fun k => some (rows k))
    (hwide : ∀ k, (rows k).length = res.dsNamv.length) (hj : j < n)
    (hfits : res.dsNamv.length * n ≤ 2 ^ 32) :
    (List.range res.dsNamv.length).map
      (fun i => env.cell res ((j * res.dsNamv.length + i) % 2 ^ 32)) = rows j := by
  apply List.ext_getElem
  · simp [hwide]
  · intro i h₁ h₂
    rw [List.length_map, List.length_range] at h₁
    have hlt : j * res.dsNamv.length + i < 2 ^ 32 := by
      calc j * res.dsNamv.length + i < (j + 1) * res.dsNamv.length := by rw [Nat.succ_mul]; omega
        _ ≤ n * res.dsNamv.length := Nat.mul_le_mul_right _ hj
        _ = res.dsNamv.length * n := Nat.mul_comm _ _
        _ ≤ 2 ^ 32 := hfits
    have hdiv : (j * res.dsNamv.length + i) / res.dsNamv.length = j := by
      rw [Nat.mul_comm, Nat.mul_add_div (by omega), Nat.div_eq_of_lt h₁, Nat.add_zero]
    have hmod : (j * res.dsNamv.length + i) % res.dsNamv.length = i := by
      rw [Nat.mul_comm, Nat.mul_add_mod, Nat.mod_eq_of_lt h₁]
    rw [List.getElem_map, List.getElem_range, Nat.mod_eq_of_lt hlt, FetchEnv.cell, hdiv, hmod, hdata,
      List.getElem?_map, List.getElem?_range hj]
    simp [List.getElem?_eq_getElem h₂]

lemma map_getD_range (names : List Text) : (List.range names.length).map (fun i => names.getD i []) = names := by
  apply List.ext_getElem
  · simp
  · intro i h₁ h₂
    simp [List.getElem?_eq_getElem h₂]

lemma flatten_numericLine (name : Text) (n : ℕ) :
    [numericLine name n].flatten = numericText name n ++ ['\n'] := List.flatten_singleton

lemma flatten_nameInfo (names : List Text) :
    ("DSName: ".toList :: nameInfo names ++ [['\n']]).flatten = nameLine names ++ ['\n'] := by
  have hkey : "DSName: ".toList = "DSName".toList ++ [':', ' '] := by decide
  have hflat : ∀ key key' : Text, key = key' ++ [':', ' '] →
      (key :: nameInfo names ++ [['\n']]).flatten =
        key' ++ ':' :: ' ' :: (nameInfo names).flatten ++ ['\n'] := by
    rintro key key' rfl
    simp
  exact hflat _ _ hkey

/-- The texts that are added, line by line. -/
lemma fetchInfo_groups {n : ℕ} (hn : n = ((res.stop - res.start) / res.step).toNat)
    (hdata : res.data = (List.range n).map fun k => some (rows k))
    (hwide : ∀ k, (rows k).length = res.dsNamv.length) (hfits : res.dsNamv.length * n ≤ 2 ^ 32) :
    ∃ groups, env.fetchInfo res (List.range res.dsNamv.length) = groups.flatten ∧
      List.Forall₂ (fun group line => group.flatten = line ++ ['\n']) groups
        (env.replyLines res.start res.stop res.step res.dsNamv rows) := by
  refine ⟨[[numericLine "FlushVersion".toList 1], [numericLine "Start".toList (u64 res.start)],
      [numericLine "End".toList (u64 res.stop)], [numericLine "Step".toList res.step],
      [numericLine "DSCount".toList res.dsNamv.length],
      "DSName: ".toList :: nameInfo res.dsNamv ++ [['\n']]] ++
      (List.range n).map (fun j =>
        env.rowInfo res (List.range res.dsNamv.length) j (res.start + (j + 1 : ℕ) * res.step)), ?_, ?_⟩
  · rw [fetchInfo, zipIdx_rowTimes, map_getD_range, ← hn, List.length_range]
    simp [List.flatMap_def, Function.comp_def]
  · rw [replyLines, ← hn]
    refine List.rel_append ?_ ?_
    · exact .cons (flatten_numericLine _ _) (.cons (flatten_numericLine _ _)
        (.cons (flatten_numericLine _ _) (.cons (flatten_numericLine _ _)
        (.cons (flatten_numericLine _ _) (.cons (flatten_nameInfo _) .nil)))))
    · rw [List.forall₂_map_left_iff, List.forall₂_map_right_iff, List.forall₂_same]
      intro j hj
      have hcells := @map_cell env res rows n j hdata hwide (List.mem_range.1 hj) hfits
      rw [rowInfo, rowLine, ← hcells]
      simp [List.flatMap_def, Function.comp_def]

end Lines

/-! ### Reading the lines -/

/-- A character that does not end a word: neither white space nor a NUL. -/
@[grind] def isWordChar (c : Char) : Bool := c ≠ ' ' && c ≠ '\t' && c ≠ '\x0d' && c ≠ '\n' && c ≠ '\x00'

/-- A text that is read as one word. -/
structure Word (w : Text) : Prop where
  nonempty : w ≠ []
  chars : ∀ c ∈ w, isWordChar c

lemma isWordChar_of_isDigit {c : Char} (h : c.isDigit) : isWordChar c := by
  simp only [isWordChar, ne_eq, Bool.and_eq_true, decide_eq_true_eq]
  refine ⟨⟨⟨⟨?_, ?_⟩, ?_⟩, ?_⟩, ?_⟩
  all_goals
    rintro rfl
    exact absurd h (by decide)

lemma word_ulong (n : ℕ) : Word (ulong n) :=
  ⟨ulong_ne_nil n, fun _ hc => isWordChar_of_isDigit (isDigit_of_mem_ulong hc)⟩

/-- A header and its value. -/
lemma parseHeader_word {key w rest : Text} (hkey : ':' ∉ key) (hw : Word w) :
    parseHeader (key ++ ':' :: ' ' :: (w ++ rest)) = some (key, w ++ rest) := by
  have hother : ∀ c ∈ key, decide (c ≠ ':') = true := fun c hc =>
    decide_eq_true fun h => hkey (h ▸ hc)
  have hspan : (key ++ ':' :: ' ' :: (w ++ rest)).span (· ≠ ':') = (key, ':' :: ' ' :: (w ++ rest)) := by
    rw [List.span_eq_takeWhile_dropWhile, List.takeWhile_append_of_pos hother,
      List.dropWhile_append_of_pos hother]
    simp
  obtain ⟨c, w, rfl⟩ := List.exists_cons_of_ne_nil hw.nonempty
  have hc := hw.chars c List.mem_cons_self
  simp only [isWordChar, ne_eq, Bool.and_eq_true, decide_eq_true_eq] at hc
  simp only [parseHeader, hspan]
  rw [List.dropWhile_cons_of_pos (by decide), List.cons_append, List.dropWhile_cons_of_neg (by simp [hc])]
  simp

/-- A number is read back. -/
lemma readNumericField_numericText {ls : List Text} {i n : ℕ} {name : Text}
    (hline : ls[i]? = some (numericText name n)) (hname : ':' ∉ name) (hn : n < 2 ^ 63) :
    readNumericField ls i name = some n := by
  have hheader := @parseHeader_word name (ulong n) [] hname (word_ulong n)
  rw [List.append_nil] at hheader
  have hline' : ls[i]? = some (name ++ ':' :: ' ' :: ulong n) := by
    rw [hline, numericText]
    simp
  have hu64 : u64 (n : ℤ) = n := u64_natCast (by omega)
  simp only [readNumericField, hline', parseUlongHeader, hheader, Option.bind_eq_bind, Option.bind_some,
    strtolFits_ulong (.inl rfl) hn, hu64]
  exact if_pos (by simp [eqCI])

/-- The words of a text. -/
lemma tokens_words {w : Text} {ws : List Text} (hw : Word w) (hws : ∀ w ∈ ws, Word w) :
    tokens (w ++ ws.flatMap (' ' :: ·)) = w :: ws := by
  have hno : ∀ {w : Text}, Word w →
      ∀ c ∈ w, (decide (c = ' ') || decide (c = '\t') || decide (c = '\x0d') || decide (c = '\n')) = false := by
    intro w hw c hc
    have hc := hw.chars c hc
    simp only [isWordChar, ne_eq, Bool.and_eq_true, decide_eq_true_eq] at hc
    simp [hc]
  have hfilter : ∀ {w : Text} {l : List Text}, Word w →
      (w :: l).filter (fun x => decide (x ≠ [])) = w :: l.filter (fun x => decide (x ≠ [])) := fun hw =>
    List.filter_cons_of_pos (decide_eq_true hw.nonempty)
  unfold tokens
  induction ws generalizing w with
  | nil =>
    rw [List.flatMap_nil, List.append_nil, List.splitOnP_eq_singleton (hno hw), hfilter hw, List.filter_nil]
  | cons w' ws ih =>
    rw [List.flatMap_cons, List.cons_append, List.splitOnP_append_cons_of_forall_mem (hno hw) ' ' (by decide),
      hfilter hw, ih (hws w' List.mem_cons_self) fun q hq => hws q (List.mem_cons_of_mem w' hq)]

/-- The names are read back. -/
lemma parseCharArrayHeader_words {key w : Text} {ws : List Text} (hkey : ':' ∉ key) (hw : Word w)
    (hws : ∀ w ∈ ws, Word w) :
    parseCharArrayHeader (key ++ ':' :: ' ' :: (w ++ ws.flatMap (' ' :: ·))) (ws.length + 1) =
      some (key, w :: ws) := by
  simp only [parseCharArrayHeader, parseHeader_word hkey hw, tokens_words hw hws, Option.bind_eq_bind,
    Option.bind_some]
  simp

lemma parseCharArrayHeader_nameLine {names : List Text} (hpos : 0 < names.length)
    (hnames : ∀ name ∈ names, Word name) :
    parseCharArrayHeader (nameLine names) names.length = some ("DSName".toList, names) := by
  cases names with
  | nil => cases hpos
  | cons name names =>
    have hread := @parseCharArrayHeader_words "DSName".toList name names (by decide)
      (hnames name List.mem_cons_self) fun w hw => hnames w (List.mem_cons_of_mem name hw)
    have hflat : (nameInfo (name :: names)).flatten = name ++ names.flatMap (' ' :: ·) := by
      simp [nameInfo, List.flatMap_def]
    show parseCharArrayHeader ("DSName".toList ++ ':' :: ' ' :: (nameInfo (name :: names)).flatten) _ = _
    rw [hflat]
    exact hread

lemma strtol_blanks (base k : ℕ) (s : Text) :
    strtol base (List.replicate k ' ' ++ s) = strtol base s := by
  have hblank : ∀ c ∈ List.replicate k ' ', isSpace c = true := by
    intro c hc
    rw [List.eq_of_mem_replicate hc]
    rfl
  rw [strtol, strtol, List.dropWhile_append_of_pos hblank]

lemma strtolFits_padded {n : ℕ} (h : n < 2 ^ 63) : strtolFits 10 (padded n) = some (n : ℤ) := by
  have hread := @strtolFits_ulong n 10 (.inr rfl) h
  unfold strtolFits at hread ⊢
  rw [padded, strtol_blanks]
  exact hread

lemma not_mem_padded {n : ℕ} {c : Char} (hc : c ≠ ' ') (hdigit : c.isDigit = false) : c ∉ padded n := by
  intro h
  obtain h | h := List.mem_append.1 h
  · exact hc (List.eq_of_mem_replicate h)
  · simp [isDigit_of_mem_ulong h] at hdigit

/-- A value is printed as a word that is read back. -/
structure FetchEnv.RoundTrips (env : FetchEnv) (v : RrdValue) : Prop where
  word : Word (env.print v)
  read : rrdStrtodbl (env.print v) = .whole v

lemma mapM_parseValue {env : FetchEnv} {row : Row} (h : ∀ v ∈ row, env.RoundTrips v) :
    (row.map env.print).mapM parseValue = some row := by
  induction row with
  | nil => rfl
  | cons v row ih =>
    have hv : parseValue (env.print v) = some v := by
      rw [parseValue, (h v List.mem_cons_self).read]
    rw [List.map_cons, List.mapM_cons, hv, ih fun u hu => h u (List.mem_cons_of_mem v hu)]
    rfl

/-- A row is read back. -/
lemma parseValueArrayHeader_rowLine {env : FetchEnv} {row : Row} {t : ℤ} (hpos : 0 < row.length)
    (ht : 0 ≤ t ∧ t < 2 ^ 63) (hrow : ∀ v ∈ row, env.RoundTrips v) :
    parseValueArrayHeader (env.rowLine row t) row.length = some (t, row) := by
  cases row with
  | nil => cases hpos
  | cons v vs =>
    have hwords : ∀ w ∈ vs.map env.print, Word w := by
      intro w hw
      obtain ⟨u, hu, rfl⟩ := List.mem_map.1 hw
      exact (hrow u (List.mem_cons_of_mem v hu)).word
    have hread := @parseCharArrayHeader_words (padded (u64 t)) (env.print v) (vs.map env.print)
      (not_mem_padded (by decide) (by decide)) (hrow v List.mem_cons_self).word hwords
    have hline : env.rowLine (v :: vs) t =
        padded (u64 t) ++ ':' :: ' ' :: (env.print v ++ (vs.map env.print).flatMap (' ' :: ·)) := by
      simp [rowLine, List.flatMap_map]
    have htime : strtolFits 10 (padded (u64 t)) = some t := by
      rw [u64_of_lt ht.1 (by omega), strtolFits_padded (by omega), Int.toNat_of_nonneg ht.1]
    have hvalues : (env.print v :: vs.map env.print).mapM parseValue = some (v :: vs) := mapM_parseValue hrow
    rw [List.length_map] at hread
    simp only [parseValueArrayHeader, hline, List.length_cons, hread, htime, hvalues, Option.bind_eq_bind,
      Option.bind_some]

/-! ### The reply -/

lemma mapM_eq_some {α β : Type} {f : α → Option β} {g : α → β} {l : List α}
    (h : ∀ a ∈ l, f a = some (g a)) : l.mapM f = some (l.map g) := by
  induction l with
  | nil => rfl
  | cons a l ih =>
    rw [List.mapM_cons, h a List.mem_cons_self, ih fun b hb => h b (List.mem_cons_of_mem a hb)]
    rfl

/-- What an answer has to be for the client to read it back. -/
structure Readable (env : FetchEnv) (start stop : ℤ) (step : ℕ) (names : List Text) (rows : ℕ → Row) :
    Prop where
  start_nonneg : 0 ≤ start
  start_lt : start < stop
  stop_lt : stop < 2 ^ 63
  step_dvd : (step : ℤ) ∣ stop - start
  names_pos : 0 < names.length
  names_word : ∀ name ∈ names, Word name
  size_lt : names.length * (stop - start) < 2 ^ 64
  wide : ∀ j, (rows j).length = names.length
  read : ∀ j < ((stop - start) / step).toNat, ∀ v ∈ rows j, env.RoundTrips v

section Reply

variable {env : FetchEnv} {start stop : ℤ} {step : ℕ} {names : List Text} {rows : ℕ → Row}

/-- The number of rows, and what it is computed from. -/
lemma Readable.rows_eq (h : Readable env start stop step names rows) :
    ∃ n : ℕ, 0 < n ∧ 0 < step ∧ ((stop - start) / step).toNat = n ∧ stop - start = (step * n : ℕ) := by
  obtain ⟨q, hq⟩ := h.step_dvd
  have hlt := h.start_lt
  have hstep : (0 : ℤ) < step := by
    rcases Nat.eq_zero_or_pos step with rfl | hpos
    · simp only [Nat.cast_zero, zero_mul] at hq
      omega
    · exact_mod_cast hpos
  have hq0 : 0 < q := by
    by_contra hneg
    have := mul_nonpos_of_nonneg_of_nonpos hstep.le (not_lt.1 hneg)
    omega
  refine ⟨q.toNat, by omega, by omega, ?_, ?_⟩
  · rw [hq, Int.mul_ediv_cancel_left _ hstep.ne']
  · rw [hq]
    push_cast
    rw [Int.toNat_of_nonneg hq0.le]

lemma Readable.step_lt (h : Readable env start stop step names rows) : step < 2 ^ 63 := by
  obtain ⟨n, hn, hstep, -, hlen⟩ := h.rows_eq
  have hle : step ≤ step * n := Nat.le_mul_of_pos_right step hn
  have h0 := h.start_nonneg
  have h1 := h.stop_lt
  omega

/-- The answer is read back. -/
lemma fetchReply_replyLines {status : ℤ} {message : Text} (h : Readable env start stop step names rows)
    (hcount : names.length < 2 ^ 63) :
    fetchReply ⟨status, message, env.replyLines start stop step names rows⟩ =
      some ⟨start, stop, step, names,
        (List.range ((stop - start) / step).toNat).map fun j => some (rows j)⟩ := by
  obtain ⟨n, hn, hstep, hrows, hlen⟩ := h.rows_eq
  have hlt := h.start_lt
  have hstop := h.stop_lt
  have hsteplt := h.step_lt
  obtain ⟨s, rfl⟩ := Int.eq_ofNat_of_zero_le h.start_nonneg
  obtain ⟨e, rfl⟩ := Int.eq_ofNat_of_zero_le (h.start_nonneg.trans hlt.le)
  have hs64 : s64 (s : ℤ) = s := s64_natCast (by omega)
  have he64 : s64 (e : ℤ) = e := s64_natCast (by omega)
  have hsu : u64 (s : ℤ) = s := u64_natCast (by omega)
  have heu : u64 (e : ℤ) = e := u64_natCast (by omega)
  generalize hls : env.replyLines s e step names rows = ls
  have hlines : ls = [numericText "FlushVersion".toList 1, numericText "Start".toList s,
      numericText "End".toList e, numericText "Step".toList step,
      numericText "DSCount".toList names.length, nameLine names] ++
      (List.range n).map fun j => env.rowLine (rows j) (s + (j + 1 : ℕ) * step) := by
    rw [← hls, replyLines, hrows, hsu, heu]
  have hlength : ls.length = 6 + n := by
    rw [hlines, List.length_append, List.length_map, List.length_range]
    rfl
  have h0 : readNumericField ls 0 "FlushVersion".toList = some 1 :=
    readNumericField_numericText (by rw [hlines]; rfl) (by decide) (by norm_num)
  have h1 : readNumericField ls 1 "Start".toList = some s :=
    readNumericField_numericText (by rw [hlines]; rfl) (by decide) (by omega)
  have h2 : readNumericField ls 2 "End".toList = some e :=
    readNumericField_numericText (by rw [hlines]; rfl) (by decide) (by omega)
  have h3 : readNumericField ls 3 "Step".toList = some step :=
    readNumericField_numericText (by rw [hlines]; rfl) (by decide) hsteplt
  have h4 : readNumericField ls 4 "DSCount".toList = some names.length :=
    readNumericField_numericText (by rw [hlines]; rfl) (by decide) hcount
  have h5 : ls[5]? = some (nameLine names) := by rw [hlines]; rfl
  have hsize : u64 ((names.length : ℤ) * ((e : ℤ) - s)) / step = names.length * n := by
    have hfits := h.size_lt
    rw [hlen] at hfits ⊢
    rw [show (names.length : ℤ) * ((step * n : ℕ) : ℤ) = ((step * (names.length * n) : ℕ) : ℤ) by
      push_cast; ring] at hfits ⊢
    rw [u64_natCast (by exact_mod_cast hfits), Nat.mul_div_cancel_left _ hstep]
  have hdata : ((rowTimes s e step).zipIdx.mapM fun p => valueLine ls names.length p.2) =
      some ((List.range n).map fun j => some (rows j)) := by
    rw [zipIdx_rowTimes, hrows, List.mapM_map]
    refine mapM_eq_some fun j hj => ?_
    have hj := List.mem_range.1 hj
    have hline : ls[6 + j]? = some (env.rowLine (rows j) (s + (j + 1 : ℕ) * step)) := by
      rw [hlines, List.getElem?_append_right (Nat.le_add_right 6 j)]
      simp [hj]
    have htime : (s : ℤ) + (j + 1 : ℕ) * step ≤ e := by
      have hle : (j + 1) * step ≤ n * step := Nat.mul_le_mul_right step hj
      have : ((j + 1 : ℕ) : ℤ) * step ≤ (step * n : ℕ) := by
        rw [Nat.mul_comm step]
        exact_mod_cast hle
      omega
    have hread := @parseValueArrayHeader_rowLine env (rows j) (s + (j + 1 : ℕ) * step)
      (by rw [h.wide]; exact h.names_pos) ⟨by positivity, by omega⟩ (h.read j (by rw [hrows]; exact hj))
    rw [h.wide] at hread
    simp only [Function.comp_apply, valueLine, hline, hread, Option.bind_eq_bind, Option.bind_some]
  have hci : eqCI "DSName".toList "DSName".toList = true := by decide
  have hpos : 1 ≤ names.length * n := Nat.mul_pos h.names_pos hn
  have hdiv : names.length * n / names.length = n := Nat.mul_div_cancel_left _ h.names_pos
  have hsix : 1 ≤ 6 + n ∧ 5 ≤ 6 + n := by omega
  simp only [fetchReply, hlength, h0, h1, h2, h3, h4, h5, hs64, he64, hrows,
    parseCharArrayHeader_nameLine h.names_pos h.names_word, hci, hsize, hdata, hdiv, guard,
    Option.bind_eq_bind, Option.bind_some, Option.pure_def, hsix.1, hsix.2, hlt, hpos, if_true,
    Nat.succ_le_of_lt hstep, Nat.succ_le_of_lt h.names_pos]

/-! Every line of the answer is one line, and not changed by `chomp`. -/

/-- A character that neither ends a line nor is cut off its end. -/
@[grind] def isLineChar (c : Char) : Bool := c ≠ '\n' && c ≠ '\x0d' && c ≠ '\x00'

lemma Word.lineChars {w : Text} (h : Word w) : ∀ c ∈ w, isLineChar c := by
  intro c hc
  have hword := h.chars c hc
  simp only [isWordChar, Bool.and_eq_true] at hword
  simp [isLineChar, hword]

lemma numericText_lineChars {name : Text} (n : ℕ) (hname : ∀ c ∈ name, isLineChar c) :
    ∀ c ∈ numericText name n, isLineChar c := by
  intro c hc
  obtain hc | hc := List.mem_append.1 hc
  · obtain hc | hc := List.mem_append.1 hc
    · exact hname c hc
    · exact List.all_eq_true.1 (by decide : ": ".toList.all isLineChar) c hc
  · exact (word_ulong n).lineChars c hc

lemma words_lineChars {ws : List Text} (h : ∀ w ∈ ws, Word w) : ∀ c ∈ ws.flatMap (' ' :: ·), isLineChar c := by
  intro c hc
  obtain ⟨w, hw, hc⟩ := List.mem_flatMap.1 hc
  obtain rfl | hc := List.mem_cons.1 hc
  · decide
  · exact (h w hw).lineChars c hc

lemma nameLine_lineChars (h : ∀ name ∈ names, Word name) : ∀ c ∈ nameLine names, isLineChar c := by
  intro c hc
  obtain hc | hc := List.mem_append.1 hc
  · exact List.all_eq_true.1 (by decide : "DSName".toList.all isLineChar) c hc
  · obtain rfl | hc := List.mem_cons.1 hc
    · decide
    · obtain rfl | hc := List.mem_cons.1 hc
      · decide
      · cases names with
        | nil => cases hc
        | cons name names =>
          obtain hc | hc := List.mem_append.1 hc
          · exact (h name List.mem_cons_self).lineChars c hc
          · rw [← List.flatMap_def] at hc
            exact words_lineChars (fun w hw => h w (List.mem_cons_of_mem name hw)) c hc

lemma rowLine_lineChars {row : Row} (t : ℤ) (h : ∀ v ∈ row, env.RoundTrips v) :
    ∀ c ∈ env.rowLine row t, isLineChar c := by
  intro c hc
  obtain hc | hc := List.mem_append.1 hc
  · obtain hc | hc := List.mem_append.1 hc
    · rw [List.eq_of_mem_replicate hc]
      decide
    · exact (word_ulong _).lineChars c hc
  · obtain rfl | hc := List.mem_cons.1 hc
    · decide
    · obtain ⟨v, hv, hc⟩ := List.mem_flatMap.1 hc
      obtain rfl | hc := List.mem_cons.1 hc
      · decide
      · exact (h v hv).word.lineChars c hc

lemma Readable.lineChars (h : Readable env start stop step names rows) :
    ∀ line ∈ env.replyLines start stop step names rows, ∀ c ∈ line, isLineChar c := by
  intro line hline
  obtain hline | hline := List.mem_append.1 hline
  · simp only [List.mem_cons, List.not_mem_nil, or_false] at hline
    obtain rfl | rfl | rfl | rfl | rfl | rfl := hline
    · exact numericText_lineChars _ (List.all_eq_true.1 (by decide))
    · exact numericText_lineChars _ (List.all_eq_true.1 (by decide))
    · exact numericText_lineChars _ (List.all_eq_true.1 (by decide))
    · exact numericText_lineChars _ (List.all_eq_true.1 (by decide))
    · exact numericText_lineChars _ (List.all_eq_true.1 (by decide))
    · exact nameLine_lineChars h.names_word
  · obtain ⟨j, hj, rfl⟩ := List.mem_map.1 hline
    exact rowLine_lineChars _ (h.read j (List.mem_range.1 hj))

lemma chomp_lineChars {line : Text} (h : ∀ c ∈ line, isLineChar c) : chomp line = line := by
  cases line using List.reverseRecOn with
  | nil => rfl
  | append_singleton line c =>
    have hc := h c (List.mem_append_right line (List.mem_singleton_self c))
    simp only [isLineChar, Bool.and_eq_true] at hc
    rw [chomp, List.rdropWhile_concat_neg _ _ _ (by simpa using hc.1)]

end Reply

end Rrdtool
