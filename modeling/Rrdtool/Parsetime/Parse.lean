import Rrdtool.Lib.Civil
import Rrdtool.Parsetime.Scanner

/-!
# Time specifications

Port of `rrd_parsetime` (`src/rrd_parsetime.c`). `tod` reads a time of day, `day` a date, and `plusMinus` one number of
the offset with its unit. The current time is a parameter, as are the conversions of the C library.
-/

namespace Rrdtool.Parsetime

open Civil

inductive TimeType where
  | absolute | relativeToStart | relativeToEnd | relativeToEpoch
deriving DecidableEq

/-- `rrd_time_value_t`. -/
structure TimeValue where
  type : TimeType
  offset : ℤ
  tm : StructTm
deriving DecidableEq

/-- What the parser works on: the scanner and the time value. -/
structure State where
  scanner : Scanner
  ptv : TimeValue
deriving DecidableEq

/-- The end of the argument that an error message shows. -/
def State.trailing (s : State) : Text := s.scanner.token ++ s.scanner.sct

/-- `expect2`. -/
@[grind] def expect2 (desired : TokId) (complaint : Text) (sc : Scanner) : Except Text Scanner :=
  if sc.next.tokid = desired then .ok sc.next else .error complaint

/-! ### The offset -/

/-- The static variables of `plus_minus`: the last sign, and the last unit with -1 for none. -/
structure Repeated where
  op : TokId
  prevMultiplier : Option TokId

/-- What `m` means behind a unit and a number. -/
def guessMonthsMinutes (prevMultiplier : Option TokId) (delta : ℤ) : TokId :=
  match prevMultiplier with
  | some .days | some .weeks | some .months | some .years => .months
  | some .seconds | some .minutes | some .hours => .minutes
  | _ => if delta < 6 then .months else .minutes

/-- The number with the sign in front, as an `int`. -/
@[grind] def signed (op : TokId) (delta : ℤ) : ℤ := s32 (if op = .plus then delta else -delta)

/-- The unit applied to the time value. -/
@[grind] def addDelta (ptv : TimeValue) (unit op : TokId) (delta : ℤ) : TimeValue :=
  match unit with
  | .years => { ptv with tm := { ptv.tm with year := s32 (ptv.tm.year + signed op delta) } }
  | .months => { ptv with tm := { ptv.tm with mon := s32 (ptv.tm.mon + signed op delta) } }
  | .weeks => { ptv with tm := { ptv.tm with mday := s32 (ptv.tm.mday + signed op (s32 (delta * 7))) } }
  | .days => { ptv with tm := { ptv.tm with mday := s32 (ptv.tm.mday + signed op delta) } }
  | .hours => { ptv with offset := s64 (ptv.offset + s32 (signed op delta * 60 * 60)) }
  | .minutes => { ptv with offset := s64 (ptv.offset + s32 (signed op delta * 60)) }
  | _ => { ptv with offset := s64 (ptv.offset + signed op delta) }

/-- `plus_minus` behind the number: the unit is read, and whatever stands in its place. -/
@[grind] def addNumber (s : State) (static : Repeated) : State × Repeated :=
  let delta := atoi s.scanner.token
  let sc := s.scanner.next
  let sc := if sc.tokid = .monthsMinutes then { sc with tokid := guessMonthsMinutes static.prevMultiplier delta } else sc
  ({ scanner := sc, ptv := addDelta s.ptv sc.tokid static.op delta },
    { static with prevMultiplier := some sc.tokid })

/-- `plus_minus`; `doop` is the sign that has been read, or nothing where the last one is repeated. -/
@[grind] def plusMinus (s : State) (static : Repeated) (doop : Option TokId) : Except Text (State × Repeated) :=
  match doop with
  | some op => do
    let complaint := "There should be number after '".toList ++ [if op = .plus then '+' else '-', '\'']
    let sc ← expect2 .number complaint s.scanner
    return addNumber { s with scanner := sc } { op, prevMultiplier := none }
  | none => return addNumber s static

/-- The loop over the numbers of the offset; each round but the last one takes a character. -/
@[grind] def offsetLoop : ℕ → State → Repeated → Except Text State
  | 0, s, _ => return s
  | fuel + 1, s, static =>
    if s.scanner.tokid = .plus ∨ s.scanner.tokid = .minus ∨ s.scanner.tokid = .number then do
      let doop := if s.scanner.tokid = .number then none else some s.scanner.tokid
      let (s, static) ← plusMinus s static doop
      offsetLoop fuel { s with scanner := s.scanner.next } static
    else return s

/-- The OFFSET-SPEC part of `rrd_parsetime`, to the end of the argument. -/
@[grind] def parseOffset (s : State) (static : Repeated) : Except Text State := do
  let s ←
    if s.scanner.tokid = .plus ∨ s.scanner.tokid = .minus then
      let sc := { s.scanner with specials := timeMultipliers }
      offsetLoop (sc.sct.length + 1) { s with scanner := sc } static
    else pure s
  if s.scanner.tokid = .eof then return s
  else .error ("unparsable trailing text: '...".toList ++ s.trailing ++ ['\''])

/-! ### The time of day -/

/-- The token is given back, as the number that it denotes. -/
def Scanner.giveBack (sc saved : Scanner) (number : ℤ) : Scanner :=
  { sc with sct := saved.sct, tokid := saved.tokid, token := decimal number }

/-- The minutes behind a colon. -/
@[grind] def minutes (sc : Scanner) : Except Text (ℤ × Scanner) :=
  if sc.tokid = .colon then do
    let sc ← expect2 .number "Parsing HH:MM syntax, expecting MM as number, got none".toList sc
    let minute := atoi sc.token
    if 59 < minute then .error ("parsing HH:MM syntax, got MM = ".toList ++ decimal minute ++ " (>59!)".toList)
    else return (minute, sc.next)
  else return (0, sc)

/-- The hour of the day that `AM` or `PM` makes of an hour. -/
def hourOfHalf (half : TokId) (hour : ℤ) : ℤ :=
  if half = .pm then (if hour ≠ 12 then hour + 12 else hour) else (if hour = 12 then 0 else hour)

def setTime (ptv : TimeValue) (hour minute : ℤ) : TimeValue :=
  if hour = 24 then { ptv with tm := { ptv.tm with hour := 0, min := minute, sec := 0, mday := ptv.tm.mday + 1 } }
  else { ptv with tm := { ptv.tm with hour, min := minute, sec := 0 } }

/-- `tod`. -/
@[grind] def tod (s : State) : Except Text State :=
  let saved := s.scanner
  if 2 < saved.token.length then return s
  else
    let hour := atoi saved.token
    let sc := saved.next
    if sc.tokid = .slash ∨ sc.tokid = .dot then return { s with scanner := sc.giveBack saved hour }
    else do
      let (minute, sc) ← minutes sc
      if sc.tokid = .am ∨ sc.tokid = .pm then
        if 12 < hour then .error "there cannot be more than 12 AM or PM hours".toList
        else return { scanner := sc.next, ptv := setTime s.ptv (hourOfHalf sc.tokid hour) minute }
      else if 23 < hour then return { s with scanner := sc.giveBack saved hour }
      else return { scanner := sc, ptv := setTime s.ptv hour minute }

/-! ### The date -/

/-- `assign_date`. -/
@[grind] def assignDate (ptv : TimeValue) (mday mon year : ℤ) : Except Text TimeValue := do
  let year ←
    if 138 < year then
      if 1970 < year then pure (year - 1900)
      else .error ("invalid year ".toList ++ decimal year ++ " (should be either 00-99 or >1900)".toList)
    else if 0 ≤ year ∧ year < 38 then pure (year + 100)
    else pure year
  if year < 70 then .error "won't handle dates before epoch (01/01/1970), sorry".toList
  else return { ptv with tm := { ptv.tm with mday := s32 mday, mon := s32 mon, year := s32 year } }

/-- `MM/DD[/[YY]YY]` and `DD.MM[.[YY]YY]` behind the first number: the month, the day and the year that are found. -/
def slashDate (first year : ℤ) (sc : Scanner) : Except Text (ℤ × ℤ × ℤ × Scanner) :=
  if first ≤ 31 ∧ (sc.tokid = .slash ∨ sc.tokid = .dot) then do
    let sep := sc.tokid
    let mark := if sep = .dot then '.' else '/'
    let wanted := if sep = .dot then "month".toList else "day".toList
    let sc ← expect2 .number ("there should be ".toList ++ wanted ++ " number after '".toList ++ [mark, '\'']) sc
    let second := atol sc.token
    let sc := sc.next
    let (year, sc) ←
      if sc.tokid = sep then do
        let sc ← expect2 .number ("there should be year number after '".toList ++ [mark, '\'']) sc
        pure (atol sc.token, sc.next)
      else pure (year, sc)
    return if sep = .dot then (second, first, year, sc) else (first, second, year, sc)
  else return (first, 0, year, sc)

/-- A date in numbers: the month, the day and the year that are found. -/
def numericDate (first year : ℤ) (sc : Scanner) : Except Text (ℤ × ℤ × ℤ × Scanner) :=
  if 19700101 < first ∧ first < 24000101 then
    return (atol ((sc.token.drop 4).take 2), atol ((sc.token.drop 6).take 2), atol (sc.token.take 4), sc.next)
  else slashDate first year sc.next

/-- `day`. -/
@[grind] def day (localtime : ℤ → StructTm) (s : State) : Except Text State :=
  let tm := s.ptv.tm
  match s.scanner.tokid with
  | .yesterday => return { scanner := s.scanner.next, ptv := { s.ptv with tm := { tm with mday := tm.mday - 1 } } }
  | .today => return { s with scanner := s.scanner.next }
  | .tomorrow => return { scanner := s.scanner.next, ptv := { s.ptv with tm := { tm with mday := tm.mday + 1 } } }
  | .month mon => do
    let sc ← expect2 .number "the day of the month should follow month name".toList s.scanner
    let mday := atol sc.token
    let sc := sc.next
    let (year, sc) := if sc.tokid = .number then (atol sc.token, sc.next) else (tm.year, sc)
    let ptv ← assignDate s.ptv mday mon year
    return { scanner := sc, ptv }
  | .weekday wday =>
    return { scanner := s.scanner.next, ptv := { s.ptv with tm := { tm with mday := tm.mday + (wday - tm.wday) } } }
  | .number =>
    let first := atol s.scanner.token
    if 10 * 365 * 24 * 60 * 60 < first then
      return { scanner := s.scanner.next, ptv := { s.ptv with tm := localtime first } }
    else do
      let (mon, mday, year, sc) ← numericDate first tm.year s.scanner
      if mon - 1 < 0 ∨ 11 < mon - 1 then .error ("did you really mean month ".toList ++ decimal mon ++ ['?'])
      else if mday < 1 ∨ 31 < mday then
        .error ("I'm afraid that ".toList ++ decimal mday ++ " is not a valid day of the month".toList)
      else do
        let ptv ← assignDate s.ptv mday (mon - 1) year
        return { scanner := sc, ptv }
  | _ => return s

/-! ### The specification -/

/-- The hour and the year that stand for none. -/
def noHour : ℤ := 30

def noYear : ℤ := 30000

/-- The hour and the year of the current time, where the specification has none. -/
def restoreNow (now : StructTm) (s : State) : State :=
  let hour := if s.ptv.tm.hour = noHour then now.hour else s.ptv.tm.hour
  let year := if s.ptv.tm.year = noYear then now.year else s.ptv.tm.year
  { s with ptv := { s.ptv with tm := { s.ptv.tm with hour, year } } }

/-- A specification that begins with a number. -/
def numberFirst (localtime : ℤ → StructTm) (s : State) : Except Text State := do
  let now := s.ptv.tm
  let s ← tod { s with ptv := { s.ptv with tm := { now with hour := noHour, year := noYear } } }
  let s ← day localtime s
  let s ← if s.ptv.tm.hour = noHour ∧ s.ptv.tm.year ≠ noYear then tod s else pure s
  return restoreNow now s

/-- `now`, `start`, `end` and `epoch`; behind the latter three there has to be an offset. -/
def reference (s : State) (type : TimeType) (isNow : Bool) : Except Text State :=
  let tm := if isNow then s.ptv.tm else { s.ptv.tm with sec := 0, min := 0, hour := 0, mday := 0, mon := 0, year := 0 }
  let s := { scanner := s.scanner.next, ptv := { s.ptv with type, tm } }
  if s.scanner.tokid = .plus ∨ s.scanner.tokid = .minus then return s
  else if !isNow then .error "'start' or 'end' MUST be followed by +|- offset".toList
  else if s.scanner.tokid ≠ .eof then .error "if 'now' is followed by a token it must be +|- offset".toList
  else return s

/-- `noon`, `midnight` and `teatime`. -/
def hourFirst (localtime : ℤ → StructTm) (s : State) (hour : ℤ) : Except Text State :=
  day localtime
    { scanner := s.scanner.next, ptv := { s.ptv with tm := { s.ptv.tm with hour, min := 0, sec := 0 } } }

/-- What `rrd_parsetime` does in front of the offset. -/
@[grind] def parseReference (localtime : ℤ → StructTm) (now : StructTm) (tspec : Text) : Except Text State :=
  let s : State :=
    { scanner := (Scanner.init variousWords tspec).next, ptv := { type := .absolute, offset := 0, tm := now } }
  match s.scanner.tokid with
  | .plus | .minus => return s
  | .epoch => reference s .relativeToEpoch false
  | .start => reference s .relativeToStart false
  | .fin => reference s .relativeToEnd false
  | .now => reference s .absolute true
  | .number => numberFirst localtime s
  | .month _ => do
    let s ← day localtime s
    if s.scanner.tokid = .number then tod s else return s
  | .teatime => hourFirst localtime s 16
  | .noon => hourFirst localtime s 12
  | .midnight => hourFirst localtime s 0
  | _ => .error ("unparsable time: ".toList ++ s.trailing)

/-- `rrd_parsetime` up to the normalisation. -/
@[grind]
def parseTime (localtime : ℤ → StructTm) (now : StructTm) (tspec : Text) (static : Repeated) : Except Text TimeValue := do
  let s ← parseReference localtime now tspec
  let s ← parseOffset s static
  return s.ptv

/-- `rrd_parsetime`; `mktime` gives the normalised time, or nothing for -1. -/
def rrdParsetime (localtime : ℤ → StructTm) (mktime : StructTm → Option StructTm) (now : StructTm) (tspec : Text) (static : Repeated) :
    Except Text TimeValue := do
  let ptv ← parseTime localtime now tspec static
  if ptv.type = .absolute then
    match mktime ptv.tm with
    | some tm => return { ptv with tm }
    | none => .error "the specified time is incorrect (out of range?)".toList
  else return ptv

end Rrdtool.Parsetime
