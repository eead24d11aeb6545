import Rrdtool.Create
import Rrdtool.Rpn.Parse
import Rrdtool.Lib.Checked

/-!
# The arguments of create

Port of the parsers of `src/rrd_create.c` (`parseDS`, `parseGENERIC_DS`, `parseRRA`, `handle_dependent_rras`,
`create_hw_contingent_rras`), of `rrd_scaled_duration` in `src/rrd_utils.c`, of `FnvHash` in `src/hash_32.c` and of
the part of `rrd_create_r2` that turns its arguments into the header of a new file, without a template and
without source files.

A definition of a data source is matched against `DS_RE`, where a line break ends the text of `.+`. A division by
zero is a fault.
-/

namespace Rrdtool

/-! ### rrd_scaled_duration -/

inductive DurationError where
  | notPositive | zeroDivisor | garbage | zero | truncate
deriving DecidableEq

/-- The text that `rrd_scaled_duration` returns. -/
@[grind] def DurationError.text : DurationError → String
  | .notPositive => "value must be (suffixed) positive number"
  | .zeroDivisor => "INTERNAL ERROR: Zero divisor"
  | .garbage => "value has trailing garbage"
  | .zero => "value must be positive"
  | .truncate => "value would truncate when scaled"

/-- The seconds of a unit. -/
@[grind] def unitSeconds : Char → Option ℕ
  | 's' => some 1
  | 'm' => some 60
  | 'h' => some (60 * 60)
  | 'd' => some (24 * 60 * 60)
  | 'w' => some (7 * 24 * 60 * 60)
  | 'M' => some (31 * 24 * 60 * 60)
  | 'y' => some (366 * 24 * 60 * 60)
  | _ => none

/-- `rrd_scaled_duration`: a count, or a time that is a multiple of the divisor. -/
@[grind] def rrdScaledDuration (token : Text) (divisor : ℕ) : Except DurationError ℕ :=
  let digits := token.takeWhile Char.isDigit
  let value := min (digitsVal digits) (2 ^ 64 - 1)
  if digits = [] then .error .notPositive
  else if divisor = 0 then .error .zeroDivisor
  else
    match token.dropWhile Char.isDigit with
    | [] => if value = 0 then .error .zero else .ok value
    | unit :: _ =>
      match unitSeconds unit with
      | none => .error .garbage
      | some seconds =>
        let value := value * seconds % 2 ^ 64
        if value = 0 then .error .zero
        else if value % divisor ≠ 0 then .error .truncate
        else .ok (value / divisor)

/-! ### Errors -/

/-- The messages of the parsers. -/
inductive CreateError where
  /-- "invalid DS format" -/
  | dsFormat
  /-- "invalid DS type specified (%s)" -/
  | dsType (dst : Text)
  /-- "failed to parse data source %s: %s" -/
  | dsArgs (args : Text) (error : String)
  /-- "parsing min val - ...", of `rrd_strtodbl` -/
  | badLimit (context : String) (limit : Text)
  /-- the message of `parseCDEF_DS` -/
  | cdef (error : CdefError)
  /-- "Duplicate DS name: %s" -/
  | duplicateDs (dsNam : Text)
  /-- "Failed to parse CF name" -/
  | cfName
  /-- "Unrecognized consolidation function %s" -/
  | cf (cfNam : Text)
  /-- "Invalid row count %s: %s" -/
  | rowCount (token : Text) (error : DurationError)
  /-- "Invalid step %s: %s" -/
  | step (token : Text) (error : DurationError)
  /-- "Invalid xff: must be between 0 and 1", and the same for `alpha`, `gamma` and `beta` -/
  | between (name : String)
  /-- "Failure threshold is out of range %d, %d" -/
  | failureThreshold
  /-- "Window length is out of range %d, %d" -/
  | windowLength
  /-- "Window length is shorter than the failure threshold" -/
  | windowShorter
  /-- "Unexpected extra argument for consolidation function %s" -/
  | extraArgument (cf : Cf)
  /-- "Invalid smoothing-window %f: must be between 0 and 1" -/
  | smoothingWindow (window : RrdValue)
  /-- "Invalid option %s" -/
  | option (token : Text)
  /-- "Length of seasonal cycle exceeds length of HW prediction array" -/
  | seasonalCycle
  /-- "Unknown error" -/
  | unknown
  /-- "Expected at least %i arguments for RRA but got %i" -/
  | tooFewArguments (tokenMin got : ℕ)
  /-- "can't parse argument '%s'" -/
  | argument (arg : Text)
  /-- "you must define at least one Round Robin Archive" -/
  | noRra
  /-- "you must define at least one Data Source" -/
  | noDs
deriving DecidableEq

/-- A division by zero. -/
inductive DivisionByZero where
  | mk
deriving DecidableEq

abbrev CreateM (α : Type) := Except (Stop CreateError DivisionByZero) α

/-- An error that makes the parser give up. -/
def giveUp {α : Type} (e : CreateError) : CreateM α := .error (.error e)

/-- `hash % n`. -/
@[grind] def hashMod (hash n : ℕ) : CreateM ℕ := if n = 0 then .error (.fault .mk) else .ok (hash % n)

/-! ### Data sources -/

/-- The characters that end a line for `g_regex_match`. -/
def isNewline (c : Char) : Bool :=
  c = '\n' || c = '\x0d' || c = '\x0b' || c = '\x0c' || c = '\u0085' || c = '\u2028' || c = '\u2029'

/-- `(.+)$`: a text of one line, of which one line end is left out. -/
def matchLine (s : Text) : Option Text :=
  let line := s.takeWhile (!isNewline ·)
  let rest := s.dropWhile (!isNewline ·)
  if line ≠ [] ∧ (rest.length ≤ 1 ∨ rest = ['\x0d', '\n']) then some line else none

/-- What must stand before the rest of a text. -/
def afterChar (c : Char) : Text → Option Text
  | d :: s => if c = d then some s else none
  | [] => none

/-- The optional name of a data source to read from, with an optional index. -/
def skipMapping (s : Text) : Option Text :=
  match afterChar '=' s with
  | none => some s
  | some s =>
    let name := scanSet 19 isNameChar s
    if name = [] then none
    else
      match afterChar '[' (s.drop name.length) with
      | none => some (s.drop name.length)
      | some s => if s.takeWhile Char.isDigit = [] then none else afterChar ']' (s.dropWhile Char.isDigit)

/-- `DS_RE`: the name, the type and the arguments. -/
def matchDsRe (s : Text) : Option (Text × Text × Text) := do
  let dsNam := scanSet 19 isNameChar s
  if dsNam = [] then none
  let s ← skipMapping (s.drop dsNam.length)
  let s ← afterChar ':' s
  let dst := scanSet 19 Char.isUpper s
  if dst = [] then none
  let s ← afterChar ':' (s.drop dst.length)
  let args ← matchLine s
  return (dsNam, dst, args)

/-- `dst_conv`. -/
def dstConv (string : Text) : Option Dst :=
  [("COUNTER", Dst.counter), ("ABSOLUTE", .absolute), ("GAUGE", .gauge), ("DERIVE", .derive), ("COMPUTE", .cdef),
    ("DCOUNTER", .dcounter), ("DDERIVE", .dderive)].findSome? fun (name, dst) =>
      if string = name.toList then some dst else none

/-- A limit of a data source; `U` is none. -/
def parseLimit (context : String) (limit : Text) : Except CreateError RrdValue :=
  if limit = ['U'] then .ok .nan
  else
    match rrdStrtodbl limit with
    | .whole v => .ok v
    | _ => .error (.badLimit context limit)

/-- `parseGENERIC_DS`: the heartbeat and the limits. -/
def parseGenericDs (args : Text) : Except CreateError (ℕ × RrdValue × RrdValue) :=
  let heartbeat := args.takeWhile (· ≠ ':')
  let limits := args.drop (heartbeat.length + 1)
  if ':' ∉ args then .error (.dsArgs args "missing separator")
  else if 32 ≤ heartbeat.length then .error (.dsArgs args "heartbeat too long")
  else
    match rrdScaledDuration heartbeat 1 with
    | .error e => .error (.dsArgs args e.text)
    | .ok mrhbCnt => do
      let minstr := scanSet 18 (· ≠ ':') limits
      let maxstr := scanSet 18 (· ≠ ':') (limits.drop (minstr.length + 1))
      if minstr = [] ∨ limits[minstr.length]? ≠ some ':' ∨ maxstr = [] then
        .error (.dsArgs args "failed to extract min:max")
      else
        let minVal ← parseLimit "parsing min val" minstr
        let maxVal ← parseLimit "parsing max val" maxstr
        if maxVal < minVal ∨ (maxVal = minVal ∧ minVal ≠ .nan) then
          .error (.dsArgs args "min must be less than max in DS definition")
        else return (mrhbCnt, minVal, maxVal)

/-- The version that a type of data source needs. -/
def Dst.requireVersion : Dst → Option ℕ
  | .dcounter | .dderive => some 5
  | _ => none

/-- What `parseDS` makes of the type and its arguments. -/
@[grind] def parseDst (names : List Text) (dsNam dst args : Text) : Except CreateError DsDef :=
  match dstConv dst with
  | none => .error (.dsType dst)
  | some .cdef =>
    match parseCDEFDS names args with
    | .error e => .error (.cdef e)
    | .ok cdef => .ok ⟨dsNam, .cdef, 0, .fin 0, .fin 0, cdef⟩
  | some d =>
    match parseGenericDs args with
    | .error e => .error e
    | .ok (mrhbCnt, minVal, maxVal) => .ok ⟨dsNam, d, mrhbCnt, minVal, maxVal, []⟩

/-- `parseDS`: the name, which is set first, and the definition. -/
@[grind] def parseDS (names : List Text) (s : Text) : Text × Except CreateError DsDef :=
  match matchDsRe s with
  | none => ([], .error .dsFormat)
  | some (dsNam, dst, args) => (dsNam, parseDst names dsNam dst args)

/-! ### Archives -/

/-- `MAX_FAILURES_WINDOW_LEN`. -/
@[grind] def maxFailuresWindowLen : ℕ := 28

/-- `INT_MAX`, which marks an archive whose contingent archives are still to be created. -/
def intMax : ℕ := 2 ^ 31 - 1

/-- An archive under construction: its definition, `RRA_period` and the version it needs. -/
structure RraParse where
  rraDef : RraDef
  period : ℕ
  requireVersion : Option ℕ
deriving DecidableEq

/-- The least number of tokens. -/
def tokenMin : Cf → ℕ
  | .hwpredict | .mhwpredict | .failures => 5
  | .devseasonal | .devpredict => 3
  | _ => 4

/-- The definition before its parameters are read. -/
@[grind] def rraDefaults (cf : Cf) : RraDef :=
  let rra := plainRra cf 0 1 0
  match cf with
  | .hwpredict | .mhwpredict =>
    { rra with hwAlpha := .fin (1 / 10), hwBeta := .fin (1 / 288), dependentRraIdx := intMax }
  | .seasonal | .devseasonal =>
    { rra with
      seasonalGamma := .fin (1 / 10), smoothingWindow := .fin (1 / 20), dependentRraIdx := 2 ^ 64 - 1 }
  | .devpredict => { rra with dependentRraIdx := 2 ^ 64 - 1 }
  | .failures =>
    { rra with
      deltaPos := .fin 2, deltaNeg := .fin 2, windowLen := 3, failureThreshold := 2
      dependentRraIdx := 2 ^ 64 - 1 }
  | _ => rra

/-- The first token. -/
@[grind] def parseCf (token : Text) : CreateM Cf :=
  let cfNam := scanSet 19 Char.isUpper token
  if cfNam = [] then giveUp .cfName
  else
    match rrdCfConv cfNam with
    | none => giveUp (.cf cfNam)
    | some cf => .ok cf

/-- A parameter that `rrd_strtodbl` reads as a whole and that the test does not refuse. -/
@[grind] def parseFraction (name : String) (refused : RrdValue → Bool) (token : Text) : CreateM RrdValue :=
  match rrdStrtodbl token with
  | .whole v => if refused v then giveUp (.between name) else .ok v
  | _ => giveUp (.between name)

/-- `v < 0.0 || v >= 1.0`. -/
def outsideXff (v : RrdValue) : Bool := v < 0 ∨ v = .fin 1 ∨ .fin 1 < v

/-- `v <= 0.0 || v >= 1.0`. -/
def outsideOpen (v : RrdValue) : Bool := v < 0 ∨ v = 0 ∨ v = .fin 1 ∨ .fin 1 < v

/-- `v < 0.0 || v > 1.0`. -/
def outsideClosed (v : RrdValue) : Bool := v < 0 ∨ .fin 1 < v

/-- A row count of an archive whose rows are as long as `divisor` seconds. -/
@[grind] def parseRowCount (token : Text) (divisor : ℕ) : CreateM ℕ :=
  match rrdScaledDuration token divisor with
  | .error e => giveUp (.rowCount token e)
  | .ok n => .ok n

/-- A 1-based index of another archive. -/
def dependentIdx (token : Text) : ℕ := u64 (s32 (atoi token - 1))

/-- The digits of a base on both sides of a point, how many of them stand behind it, and the rest. -/
def readMantissa (base : ℕ) (p : Text) : Text × ℕ × Text :=
  let whole := p.takeWhile (isDigitOf base)
  match p.dropWhile (isDigitOf base) with
  | '.' :: p => (whole ++ p.takeWhile (isDigitOf base), (p.takeWhile (isDigitOf base)).length, p.dropWhile (isDigitOf base))
  | p => (whole, 0, p)

/-- The number that digits of a base denote. -/
def digitsOf (base : ℕ) (ds : Text) : ℕ := ds.foldl (fun n c => n * base + (digitOf c).getD 0) 0

/-- An exponent behind one of its marks. -/
def readPower (marks : List Char) (p : Text) : ℤ :=
  match p with
  | c :: p =>
    if c ∈ marks then
      let (negative, p) := readSign p
      let n := digitsVal (p.takeWhile Char.isDigit)
      if negative then -n else n
    else 0
  | [] => 0

/-- A number without a sign: hexadecimal digits with a power of 2, or decimal digits with a power of 10. -/
def readUnsigned (p : Text) : Option ℚ :=
  let (hex, hexDecimals, hexRest) := readMantissa 16 (p.drop 2)
  if (p.take 2 = ['0', 'x'] ∨ p.take 2 = ['0', 'X']) ∧ hex ≠ [] then
    some (digitsOf 16 hex * (2 : ℚ) ^ (readPower ['p', 'P'] hexRest - 4 * hexDecimals))
  else
    let (digits, decimals, rest) := readMantissa 10 p
    if digits = [] then none else some (digitsOf 10 digits * (10 : ℚ) ^ (readPower ['e', 'E'] rest - decimals))

/-- The number at the front of a text, as `%lf` reads it. -/
def scanDouble (s : Text) : Option RrdValue :=
  let (negative, p) := readSign (s.dropWhile isSpace)
  if hasPrefixCI ['n', 'a', 'n'] p then some .nan
  else if hasPrefixCI ['i', 'n', 'f'] p then some (if negative then .ninf else .pinf)
  else (readUnsigned p).map fun q => .fin (if negative then -q else q)

/-- `sscanf (token, "smoothing-window=%lf", ...)`: `none` for another text, and no value for a text that ends
before one begins. -/
def scanWindow (token : Text) : Option (Option RrdValue) :=
  let literal := "smoothing-window=".toList
  if literal.isPrefixOf token then
    let value := token.drop literal.length
    if value.all isSpace then some none else (scanDouble value).map some
  else if token.isPrefixOf literal then some none
  else none

/-- The higher of two versions that are needed. -/
def requireAtLeast (required : Option ℕ) (version : ℕ) : Option ℕ := some (max (required.getD 0) version)

/-- The second token. -/
@[grind] def rraToken1 (pdpStep : ℕ) (token : Text) (st : RraParse) : CreateM RraParse :=
  match st.rraDef.cf with
  | .average | .minimum | .maximum | .last => do
    let xff ← parseFraction "xff" outsideXff token
    return { st with rraDef := { st.rraDef with xff := xff } }
  | _ => do
    let rowCnt ← parseRowCount token pdpStep
    return { st with rraDef := { st.rraDef with rowCnt := rowCnt } }

/-- The third token. -/
@[grind] def rraToken2 (pdpStep hash : ℕ) (token : Text) (st : RraParse) : CreateM RraParse :=
  match st.rraDef.cf with
  | .hwpredict | .mhwpredict => do
    let alpha ← parseFraction "alpha" outsideOpen token
    return { st with rraDef := { st.rraDef with hwAlpha := alpha } }
  | .seasonal | .devseasonal => do
    let gamma ← parseFraction "gamma" outsideOpen token
    let smoothIdx ← hashMod hash st.rraDef.rowCnt
    return { st with rraDef := { st.rraDef with seasonalGamma := gamma, seasonalSmoothIdx := smoothIdx } }
  | .failures =>
    if atoi token < 1 ∨ maxFailuresWindowLen < atoi token then giveUp .failureThreshold
    else .ok { st with rraDef := { st.rraDef with failureThreshold := (atoi token).toNat } }
  | .devpredict => .ok { st with rraDef := { st.rraDef with dependentRraIdx := dependentIdx token } }
  | _ =>
    match rrdScaledDuration token pdpStep with
    | .error e => giveUp (.step token e)
    | .ok pdpCnt => .ok { st with rraDef := { st.rraDef with pdpCnt := pdpCnt } }

/-- The fourth token. -/
@[grind] def rraToken3 (pdpStep : ℕ) (token : Text) (st : RraParse) : CreateM RraParse :=
  match st.rraDef.cf with
  | .hwpredict | .mhwpredict => do
    let beta ← parseFraction "beta" outsideClosed token
    return { st with rraDef := { st.rraDef with hwBeta := beta } }
  | .seasonal | .devseasonal => .ok { st with rraDef := { st.rraDef with dependentRraIdx := dependentIdx token } }
  | .failures =>
    if u64 (atoi token) < st.rraDef.failureThreshold then giveUp .windowShorter
    else if atoi token < 1 ∨ maxFailuresWindowLen < atoi token then giveUp .windowLength
    else .ok { st with rraDef := { st.rraDef with windowLen := (atoi token).toNat } }
  | .devpredict => giveUp (.extraArgument .devpredict)
  | _ => do
    let rowCnt ← parseRowCount token (pdpStep * st.rraDef.pdpCnt % 2 ^ 64)
    return { st with rraDef := { st.rraDef with rowCnt := rowCnt } }

/-- The fifth token. -/
@[grind] def rraToken4 (token : Text) (st : RraParse) : CreateM RraParse :=
  match st.rraDef.cf with
  | .failures => .ok { st with rraDef := { st.rraDef with dependentRraIdx := dependentIdx token } }
  | .seasonal | .devseasonal =>
    match scanWindow token with
    | none => giveUp (.option token)
    | some scanned =>
      let window := scanned.getD st.rraDef.smoothingWindow
      if outsideClosed window then giveUp (.smoothingWindow window)
      else
        .ok { st with
          rraDef := { st.rraDef with smoothingWindow := window }
          requireVersion := requireAtLeast st.requireVersion 4 }
  | .hwpredict | .mhwpredict =>
    let period := (atoi token % 2 ^ 16).toNat
    if st.rraDef.rowCnt < period then giveUp .seasonalCycle else .ok { st with period := period }
  | cf => giveUp (.extraArgument cf)

/-- A token of an archive behind the first one. -/
@[grind] def rraToken (pdpStep hash tokenIdx : ℕ) (token : Text) (st : RraParse) : CreateM RraParse :=
  match tokenIdx with
  | 1 => rraToken1 pdpStep token st
  | 2 => rraToken2 pdpStep hash token st
  | 3 => rraToken3 pdpStep token st
  | 4 => rraToken4 token st
  | 5 => .ok { st with rraDef := { st.rraDef with dependentRraIdx := dependentIdx token } }
  | _ => giveUp .unknown

/-- The loop over the tokens. -/
def rraTokens (pdpStep hash : ℕ) : ℕ → List Text → RraParse → CreateM RraParse
  | _, [], st => .ok st
  | tokenIdx, token :: tokens, st => do
    let st ← rraToken pdpStep hash tokenIdx token st
    rraTokens pdpStep hash (tokenIdx + 1) tokens st

/-- `strtok_r` at colons. -/
def colonTokens (s : Text) : List Text := (s.splitOn ':').filter (· ≠ [])

/-- `parseRRA`, on an argument that starts with `RRA:`. -/
@[grind] def parseRRA (pdpStep hash : ℕ) (requireVersion : Option ℕ) (arg : Text) : CreateM RraParse :=
  match colonTokens (arg.drop 4) with
  | [] => giveUp (.tooFewArguments 4 0)
  | token :: tokens => do
    let cf ← parseCf token
    let required := if cf = .mhwpredict then requireAtLeast requireVersion 4 else requireVersion
    let st ← rraTokens pdpStep hash 1 tokens ⟨rraDefaults cf, 0, required⟩
    if tokens.length + 1 < tokenMin cf then giveUp (.tooFewArguments (tokenMin cf) (tokens.length + 1))
    else return st

/-- `create_hw_contingent_rras`: the archives that follow the one with the index `hwIndex`. -/
@[grind] def createHwContingentRras (hwIndex period smoothIdx : ℕ) (hw : RraDef) : List RraDef :=
  let seasonal (cf : Cf) : RraDef :=
    { plainRra cf period 1 0 with
      seasonalSmoothIdx := smoothIdx, seasonalGamma := hw.hwAlpha, dependentRraIdx := hwIndex }
  [seasonal .seasonal, seasonal .devseasonal,
    { plainRra .devpredict hw.rowCnt 1 0 with dependentRraIdx := hwIndex + 2 },
    { plainRra .failures period 1 0 with
      deltaPos := .fin 2, deltaNeg := .fin 2, failureThreshold := 7, windowLen := 9, dependentRraIdx := hwIndex + 2 }]

/-- `HWPREDICT` and `MHWPREDICT`. -/
def Cf.isHwpredict : Cf → Bool
  | .hwpredict | .mhwpredict => true
  | _ => false

/-- `handle_dependent_rras`, behind the archives `rras`. -/
@[grind] def handleDependentRras (hash : ℕ) (rras : List RraDef) (st : RraParse) : CreateM (List RraDef) :=
  if st.rraDef.cf.isHwpredict ∧ st.rraDef.dependentRraIdx = intMax then do
    let smoothIdx ← hashMod hash st.period
    return rras ++ { st.rraDef with dependentRraIdx := rras.length + 1 } ::
      createHwContingentRras rras.length st.period smoothIdx st.rraDef
  else .ok (rras ++ [st.rraDef])

/-! ### rrd_create_r2 -/

/-- `FnvHash`. -/
def fnvHash (str : Text) : ℕ :=
  str.foldl (fun hval c => (hval * 0x01000193 % 2 ^ 32) ^^^ (c.toNat % 2 ^ 8)) 0x811c9dc5

/-- The header under construction. -/
structure NewRrd where
  version : ℕ
  pdpStep : ℕ
  lastUp : ℤ
  ds : List DsDef
  rra : List RraDef
  requireVersion : Option ℕ
deriving DecidableEq

/-- The names of the data sources. -/
@[grind] def NewRrd.names (rrd : NewRrd) : List Text := rrd.ds.map (·.dsNam)

/-- A definition of a data source, behind `DS:`. -/
@[grind] def addDs (rrd : NewRrd) (s : Text) : CreateM NewRrd :=
  match parseDS rrd.names s with
  | (dsNam, parsed) =>
    if (lookupDS rrd.names dsNam).isSome then giveUp (.duplicateDs dsNam)
    else
      match parsed with
      | .error e => giveUp e
      | .ok dsDef =>
        .ok { rrd with
          ds := rrd.ds ++ [dsDef]
          requireVersion := dsDef.dst.requireVersion.elim rrd.requireVersion (requireAtLeast rrd.requireVersion) }

/-- One argument. -/
def createArg (hash : ℕ) (rrd : NewRrd) (arg : Text) : CreateM NewRrd :=
  if "DS:".toList.isPrefixOf arg then addDs rrd (arg.drop 3)
  else if "RRA:".toList.isPrefixOf arg then do
    let st ← parseRRA rrd.pdpStep hash rrd.requireVersion arg
    let rra ← handleDependentRras hash rrd.rra st
    return { rrd with rra := rra, requireVersion := st.requireVersion }
  else giveUp (.argument arg)

/-- `rrd_create_r2` up to `rrd_init_data`, without a template and without source files; `now` is the time. -/
def rrdCreateR2 (filename : Text) (pdpStep : ℕ) (lastUp now : ℤ) (argv : List Text) : CreateM NewRrd := do
  let start : NewRrd :=
    { version := 3
      pdpStep := if pdpStep = 0 then 300 else pdpStep
      lastUp := if 0 < lastUp then lastUp else now - 10
      ds := [], rra := [], requireVersion := none }
  let rrd ← argv.foldlM (createArg (fnvHash filename)) start
  let rrd := { rrd with version := rrd.requireVersion.getD rrd.version }
  if rrd.rra = [] then giveUp .noRra
  else if rrd.ds = [] then giveUp .noDs
  else return rrd

end Rrdtool
