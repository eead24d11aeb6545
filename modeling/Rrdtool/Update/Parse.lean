import Rrdtool.Strtod
import Mathlib.Data.Rat.Floor

/-!
# Parsing an update argument

Port of `parse_ds` and `get_time_from_reading` of `src/rrd_update.c`: an argument
`time:value:value:...` (or `time@value:...`) is split into the reading of each data source and the
time of the update, and the time is checked against the last update. Nothing of the file is written
here.

What the code takes from outside `rrd_update.c` stands in a `Host`: the clock, `rrd_parsetime` for
the `@` time syntax and `rpn_calc` for `COMPUTE` data sources.
-/

namespace Rrdtool

/-- A time read by `rrd_parsetime`: absolute (`mktime` plus offset), or relative to the start or
end. -/
inductive TimeSpec where
  | absolute (t : ℤ)
  | relative
deriving DecidableEq

/-- The surroundings of an update. Times are of type `time_t`. -/
structure Host where
  nowSec : ℕ
  nowUsec : ℕ
  rrdParsetime : Text → Except String TimeSpec
  /-- The value of a `COMPUTE` program over the values of the data sources before it. -/
  rpnCalc : List RpnCdefds → List RrdValue → ℕ → Option RrdValue
  nowSec_lt : nowSec < 2 ^ 63
  nowUsec_lt : nowUsec < 10 ^ 6
  parsetime_lt : ∀ s t, rrdParsetime s = .ok (.absolute t) → t < 2 ^ 63

/-- A host at time 0, for arguments that need nothing from it. -/
def Host.idle : Host where
  nowSec := 0
  nowUsec := 0
  rrdParsetime _ := .error "unparsable time"
  rpnCalc _ _ _ := none
  nowSec_lt := by norm_num
  nowUsec_lt := by norm_num
  parsetime_lt _ _ h := by cases h

/-- The ways an update argument is refused. -/
inductive UpdateError where
  | noTimestamp (input : Text)
  | extraData (rest : Text)
  | readings (expected got : ℕ) (input : Text)
  | parsetime (input : Text) (error : String)
  | relativeTime (input : Text)
  | badNumber (context : String) (input : Text)
  | illegalTime (current : ℤ) (lastUp : ℕ)
  | notInteger (dst : Dst) (input : Text)
  | compute
deriving DecidableEq

/-- The message left by `rrd_set_error`. `rrd_strtodbl` and `rpn_calc` set theirs themselves. -/
def UpdateError.message : UpdateError → String
  | .noTimestamp input =>
    "expected timestamp not found in data source from " ++ String.ofList input
  | .extraData rest => "found extra data on update argument: " ++ String.ofList rest
  | .readings expected got input =>
    "expected " ++ toString expected ++ " data source readings (got " ++ toString got ++ ") from " ++
      String.ofList input
  | .parsetime input error => "ds time: " ++ String.ofList input ++ ": " ++ error
  | .relativeTime input =>
    "specifying time relative to the 'start' or 'end' makes no sense here: " ++ String.ofList input
  | .badNumber context input => context ++ " - Cannot convert '" ++ String.ofList input ++ "' to float"
  | .illegalTime current lastUp =>
    "illegal attempt to update using time " ++ toString current ++ " when last update time is " ++
      toString lastUp ++ " (minimum one second step)"
  | .notInteger dst input =>
    "not a simple " ++ (if dst = .derive then "signed" else "unsigned") ++ " integer: '" ++
      String.ofList input ++ "'"
  | .compute => "rpn_calc"

/-- The return value of `process_arg` for the error: `-2` for a time stamp error only. -/
@[grind] def UpdateError.code : UpdateError → ℤ
  | .illegalTime _ _ => -2
  | _ => -1

/-- The fields of a string separated by `:`. -/
@[grind] def splitFields : Text → List Text
  | [] => [[]]
  | c :: cs =>
    if c = ':' then [] :: splitFields cs
    else
      match splitFields cs with
      | f :: fs => (c :: f) :: fs
      | [] => [[c]]

/-- The unread part of the argument when one field too many turns up. -/
@[grind] def joinFields : List Text → Text
  | [] => []
  | [f] => f
  | f :: fs => f ++ ':' :: joinFields fs

/-- The template used when none is given: every data source but the `COMPUTE` ones. -/
def Rrd.defaultTemplate (rrd : Rrd) : List ℕ :=
  (List.range rrd.dsCnt).filter (fun i => (rrd.ds[i]?.map (·.dsDef.dst)) ≠ some .cdef)

/-- `parse_ds` up to the time: whether the time has `@` syntax, the time and the reading of each
data source, where a data source the template leaves out reads `U`. -/
@[grind] def parseDs (dsCnt : ℕ) (tmpl : List ℕ) (input : Text) :
    Except UpdateError (Bool × Text × List Text) :=
  let atStyle := input.contains '@'
  let sep := if atStyle then '@' else ':'
  if !input.contains sep then .error (.noTimestamp input)
  else
    let time := input.takeWhile (· ≠ sep)
    let fields := splitFields (input.dropWhile (· ≠ sep)).tail
    if tmpl.length < fields.length then
      .error (.extraData (joinFields (fields.drop (max tmpl.length 1))))
    else if fields.length < tmpl.length then .error (.readings tmpl.length fields.length time)
    else
      .ok (atStyle, time,
        (tmpl.zip fields).foldl (fun vs p => vs.set p.1 p.2) (List.replicate dsCnt ['U']))

/-- Conversion of a double to `time_t`, with the value the hardware gives for a double that does
not fit. -/
@[grind] def toTimeT (q : ℚ) : ℤ :=
  if -2 ^ 63 ≤ ⌊q⌋ ∧ ⌊q⌋ < 2 ^ 63 then ⌊q⌋ else -2 ^ 63

/-- The seconds and microseconds of a time given as a number. -/
def splitTime : RrdValue → ℤ × ℕ
  | .fin q => (toTimeT q, ⌊(q - ⌊q⌋) * 10 ^ 6⌋₊)
  | _ => (-2 ^ 63, 0)

/-- The time a reading names (first half of `get_time_from_reading`). -/
@[grind] def readTime (host : Host) (atStyle : Bool) (text : Text) : Except UpdateError (ℤ × ℕ) :=
  if atStyle then
    match host.rrdParsetime text with
    | .error e => .error (.parsetime text e)
    | .ok .relative => .error (.relativeTime text)
    | .ok (.absolute t) => .ok (t, 0)
  else if text = ['N'] then .ok (host.nowSec, host.nowUsec)
  else
    match rrdStrtodbl text with
    | .whole v =>
      .ok (splitTime (if v < .fin 0 then .fin (host.nowSec + host.nowUsec / 10 ^ 6) + v else v))
    | _ => .error (.badNumber "error while parsing time in get_time_from_reading" text)

/-- Files before version 3 have no microseconds. -/
@[grind] def keepUsec (version usec : ℕ) : ℕ := if version < 3 then 0 else usec

/-- `get_time_from_reading`: the time of the update, later than the last one. -/
@[grind] def getTimeFromReading (host : Host) (rrd : Rrd) (atStyle : Bool) (text : Text) :
    Except UpdateError (ℕ × ℕ) :=
  match readTime host atStyle text with
  | .error e => .error e
  | .ok (sec, usec) =>
    if sec < rrd.lastUp ∨ (sec = rrd.lastUp ∧ keepUsec rrd.version usec ≤ rrd.lastUpUsec) then
      .error (.illegalTime sec rrd.lastUp)
    else .ok (sec.toNat, keepUsec rrd.version usec)

/-! ### What an accepted time is -/

lemma toTimeT_lt (q : ℚ) : toTimeT q < 2 ^ 63 := by
  unfold toTimeT
  split
  · exact (by assumption : _ ∧ _).2
  · norm_num

lemma splitTime_lt (v : RrdValue) : (splitTime v).1 < 2 ^ 63 ∧ (splitTime v).2 < 10 ^ 6 := by
  cases v with
  | fin q =>
    refine ⟨toTimeT_lt q, ?_⟩
    show ⌊(q - ⌊q⌋) * 10 ^ 6⌋₊ < 10 ^ 6
    have hfrac : q - ⌊q⌋ < 1 := by
      have := Int.lt_floor_add_one q
      linarith
    have hpos : 0 ≤ (q - ⌊q⌋) * 10 ^ 6 := by
      have := Int.floor_le q
      have : 0 ≤ q - ⌊q⌋ := by linarith
      positivity
    rw [Nat.floor_lt hpos]
    push_cast
    linarith
  | _ => simp [splitTime]

/-- Every time that `get_time_from_reading` reads fits `time_t` and has whole microseconds. -/
lemma readTime_lt {host atStyle text sec usec}
    (h : readTime host atStyle text = .ok (sec, usec)) : sec < 2 ^ 63 ∧ usec < 10 ^ 6 := by
  unfold readTime at h
  split at h
  · split at h
    · cases h
    · cases h
    · rename_i t ht
      cases h
      exact ⟨host.parsetime_lt text sec ht, by norm_num⟩
  · split at h
    · cases h
      exact ⟨by exact_mod_cast host.nowSec_lt, host.nowUsec_lt⟩
    · split at h
      · rename_i v _
        simp only [Except.ok.injEq] at h
        have lt := splitTime_lt
          (if v < .fin 0 then .fin (host.nowSec + host.nowUsec / 10 ^ 6) + v else v)
        rw [h] at lt
        exact lt
      · cases h

lemma keepUsec_le (version usec : ℕ) : keepUsec version usec ≤ usec := by
  unfold keepUsec
  split <;> omega

/-- An accepted time is later than the last update. -/
lemma getTimeFromReading_ok {host rrd atStyle text sec usec}
    (h : getTimeFromReading host rrd atStyle text = .ok (sec, usec)) :
    sec < 2 ^ 63 ∧ usec < 10 ^ 6 ∧
      (rrd.lastUp < sec ∨ (rrd.lastUp = sec ∧ rrd.lastUpUsec < usec)) := by
  unfold getTimeFromReading at h
  split at h
  · cases h
  · rename_i z u hr
    obtain ⟨hz, hu⟩ := readTime_lt hr
    split at h
    · cases h
    · rename_i late
      cases h
      have hk := keepUsec_le rrd.version u
      exact ⟨by omega, by omega, by omega⟩

/-- There is one reading for each data source. -/
lemma parseDs_length {dsCnt tmpl input atStyle time updvals}
    (h : parseDs dsCnt tmpl input = .ok (atStyle, time, updvals)) : updvals.length = dsCnt := by
  have hfold : ∀ (ps : List (ℕ × Text)) (vs : List Text),
      (ps.foldl (fun vs p => vs.set p.1 p.2) vs).length = vs.length := by
    intro ps
    induction ps with
    | nil => intro vs; rfl
    | cons p ps ih =>
      intro vs
      rw [List.foldl_cons, ih, List.length_set]
  simp only [parseDs] at h
  generalize (if input.contains '@' = true then '@' else ':') = sep at h
  split at h
  · cases h
  · split at h
    · cases h
    · split at h
      · cases h
      · cases h
        rw [hfold, List.length_replicate]

lemma parseDs_time {dsCnt tmpl input atStyle time updvals}
    (h : parseDs dsCnt tmpl input = .ok (atStyle, time, updvals)) :
    atStyle = input.contains '@' ∧
      time = input.takeWhile (· ≠ if input.contains '@' then '@' else ':') := by
  simp only [parseDs] at h
  generalize (if input.contains '@' = true then '@' else ':') = sep at h ⊢
  split at h
  · cases h
  · split at h
    · cases h
    · split at h
      · cases h
      · cases h
        exact ⟨rfl, rfl⟩

lemma parseDs_error {dsCnt tmpl input e} (h : parseDs dsCnt tmpl input = .error e) :
    e.code = -1 := by
  simp only [parseDs] at h
  generalize (if input.contains '@' = true then '@' else ':') = sep at h
  split at h
  · cases h
    rfl
  · split at h
    · cases h
      rfl
    · split at h
      · cases h
        rfl
      · cases h

/-- The time an argument names, when it is accepted. -/
@[grind] def argTime (host : Host) (tmpl : List ℕ) (rrd : Rrd) (input : Text) : Option (ℕ × ℕ) :=
  match parseDs rrd.dsCnt tmpl input with
  | .error _ => none
  | .ok (atStyle, time, _) => (getTimeFromReading host rrd atStyle time).toOption

end Rrdtool
