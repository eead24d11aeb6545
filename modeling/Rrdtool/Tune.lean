import Rrdtool.Create.Parse
import Rrdtool.HoltWinters
import Rrdtool.Update.Template

/-!
# The options of tune

Port of the loop over the options in `rrd_tune_r` of `src/rrd_tune.c`, with `set_hwarg`, `set_hwsmootharg`,
`set_deltaarg` and `set_windowarg`, and of `reset_aberrant_coefficients` of `src/rrd_hw.c`. An option is taken as
`optparse_long` returns it, with its argument. `--step` is used by `handle_modify` and `--daemon` by `rrd_tune`; both
do nothing here.

The heartbeat and the limits of a data source share `par[]` with the expression of a `COMPUTE` data source. To write
one over the other, or to read one as the other after a change of the type, is a fault. So is the index of an archive
that does not fit the `signed short` in which it is kept.
-/

namespace Rrdtool

/-- The options (C `longopts`); `unknown` is `?`, whose argument is `options.errmsg`. -/
inductive TuneOpt where
  | heartbeat
  | minimum
  | maximum
  | dataSourceType
  | dataSourceRename
  | deltapos
  | deltaneg
  | windowLength
  | failureThreshold
  | alpha
  | beta
  | gamma
  | gammaDeviation
  | smoothingWindow
  | smoothingWindowDeviation
  | aberrantReset
  | step
  | daemon
  | unknown
deriving DecidableEq

/-- The ways an option is refused. -/
inductive TuneError where
  | heartbeat
  | minimum
  | maximum
  | dataSourceType
  | unknownDs (dsNam : Text)
  | unknownDst (string : Text)
  | hwRange
  | hwParse
  | hwRra
  | tooSmall
  | deltaParse
  | failuresRra
  | windowRange
  | aberrantReset
  | option (errmsg : Text)
deriving DecidableEq

/-- The message left by `rrd_set_error`. -/
def TuneError.message : TuneError → String
  | .heartbeat => "invalid arguments for heartbeat"
  | .minimum => "invalid arguments for minimum ds value"
  | .maximum => "invalid arguments for maximum ds value"
  | .dataSourceType => "invalid arguments for data source type"
  | .unknownDs dsNam => "unknown data source name '" ++ String.ofList dsNam ++ "'"
  | .unknownDst string => "unknown data acquisition function '" ++ String.ofList string ++ "'"
  | .hwRange => "Holt-Winters parameter must be between 0 and 1"
  | .hwParse => "Unable to parse Holt-Winters parameter"
  | .hwRra => "Holt-Winters RRA does not exist in this RRD"
  | .tooSmall => "Parameter specified is too small"
  | .deltaParse => "Unable to parse parameter in set_deltaarg"
  | .failuresRra => "Failures RRA does not exist in this RRD"
  | .windowRange => "Parameter must be between 1 and 28"
  | .aberrantReset => "invalid argument for aberrant-reset"
  | .option errmsg => String.ofList errmsg

/-- What the program must not do. -/
inductive TuneFault where
  | overlay
  | rraIdx
deriving DecidableEq

abbrev TuneM (α : Type) := Except (Stop TuneError TuneFault) α

def refuse {α : Type} (e : TuneError) : TuneM α := .error (.error e)

/-! ### Arguments -/

/-- `DS_NAM_FMT ":"`: the name of a data source and what follows the colon. -/
def scanDsNam (arg : Text) : Option (Text × Text) :=
  let dsNam := scanSet 19 isNameChar arg
  if dsNam = [] then none else (afterChar ':' (arg.drop dsNam.length)).map fun rest => (dsNam, rest)

/-- `DS_NAM_FMT ":%ld"`, as it is stored: without a sign. -/
def scanHeartbeat (arg : Text) : Option (Text × ℕ) := do
  let (dsNam, rest) ← scanDsNam arg
  let (heartbeat, _) ← strtol 10 rest
  return (dsNam, u64 (toLong heartbeat))

/-- `DS_NAM_FMT ":"` and characters of a set. -/
def scanDsNamSet (n : ℕ) (inSet : Char → Bool) (arg : Text) : Option (Text × Text) := do
  let (dsNam, rest) ← scanDsNam arg
  if scanSet n inSet rest = [] then none else return (dsNam, scanSet n inSet rest)

/-- `[U0-9.e+-]`. -/
def isLimitChar (c : Char) : Bool := c = 'U' || isNumChar c

/-- The name and the limit; `U` is none. -/
def scanLimit (arg : Text) : Option (Text × RrdValue) := do
  let (dsNam, doubleStr) ← scanDsNamSet 40 isLimitChar arg
  if doubleStr = ['U'] then return (dsNam, .nan)
  else
    match rrdStrtodbl doubleStr with
    | .whole v => return (dsNam, v)
    | _ => none

/-- `DS_NAM_FMT ":" DST_FMT`. -/
def scanDst (arg : Text) : Option (Text × Text) := scanDsNamSet 19 Char.isUpper arg

/-- `DS_NAM_FMT ":" DS_NAM_FMT`. -/
def scanRename (arg : Text) : Option (Text × Text) := scanDsNamSet 19 isNameChar arg

/-- What `rrd_strtod` returns when it converts nothing: `HUGE_VAL` for an exponent out of range. -/
def rrdStrtodFailed (str : Text) : RrdValue :=
  let (_, p) := readSign (str.dropWhile isSpace)
  let whole := p.takeWhile Char.isDigit
  let (decimals, _) := readDecimals (p.dropWhile Char.isDigit)
  if (whole ++ decimals).isEmpty then .fin 0 else .pinf

/-! ### Data sources -/

/-- `ds_match`, with its message. -/
@[grind] def matchDs (rrd : Rrd) (dsNam : Text) : TuneM ℕ :=
  match dsMatch rrd dsNam with
  | none => refuse (.unknownDs dsNam)
  | some ds => .ok ds

/-- `ds_def[ds].dst`. -/
def dstAt (rrd : Rrd) (ds : ℕ) : Option Dst := rrd.ds[ds]?.map (·.dsDef.dst)

/-- Store into `ds_def[ds]`. -/
def setDsDef (rrd : Rrd) (ds : ℕ) (f : DsDef → DsDef) : Rrd :=
  { rrd with ds := rrd.ds.modify ds fun d => { d with dsDef := f d.dsDef } }

/-- Store into a number of `par[]`. -/
@[grind] def setDsPar (rrd : Rrd) (ds : ℕ) (f : DsDef → DsDef) : TuneM Rrd :=
  if dstAt rrd ds = some .cdef then .error (.fault .overlay) else .ok (setDsDef rrd ds f)

/-- Store a type; a new one forgets the last reading. -/
@[grind] def setDst (rrd : Rrd) (ds : ℕ) (dst : Dst) : TuneM Rrd :=
  if dstAt rrd ds = some dst then .ok rrd
  else if dstAt rrd ds = some .cdef ∨ dst = .cdef then .error (.fault .overlay)
  else
    .ok { rrd with
      ds := rrd.ds.modify ds fun d =>
        ⟨{ d.dsDef with dst := dst }, { d.pdpPrep with lastDs := ['U', 'N', 'K', 'N'] }⟩ }

/-! ### Archives -/

/-- The first archive with a consolidation function. -/
@[grind] def rraIdxOf (rrd : Rrd) (cf : Cf) (missing : TuneError) : TuneM ℕ :=
  match rrd.rra.findIdx? (·.rraDef.cf = cf) with
  | none => refuse missing
  | some i =>
    if s16 i = -1 then refuse missing else if s16 i = i then .ok i else .error (.fault .rraIdx)

/-- Store into `rra_def[rra_idx]`. -/
@[grind] def setRraDef (rrd : Rrd) (rraIdx : ℕ) (f : RraDef → RraDef) : Rrd :=
  { rrd with rra := rrd.rra.modify rraIdx fun rra => { rra with rraDef := f rra.rraDef } }

/-- A parameter of the Holt-Winters method, of which the end may be garbage. -/
def readHwParameter (outside : RrdValue → Bool) (arg : Text) : TuneM RrdValue :=
  match rrdStrtodbl arg with
  | .notConverted => refuse .hwParse
  | .partly v _ => if outside (.fin v) then refuse .hwRange else .ok (.fin v)
  | .whole v => if outside v then refuse .hwRange else .ok v

/-- `set_hwarg`; `f` is the parameter to set. -/
@[grind] def setHwarg (rrd : Rrd) (cf : Cf) (f : RrdValue → RraDef → RraDef) (arg : Text) : TuneM Rrd := do
  let param ← readHwParameter outsideOpen arg
  let rraIdx ← rraIdxOf rrd cf .hwRra
  return setRraDef rrd rraIdx (f param)

/-- `set_hwsmootharg`. -/
def setHwsmootharg (rrd : Rrd) (cf : Cf) (arg : Text) : TuneM Rrd := do
  let param ← readHwParameter outsideClosed arg
  let rraIdx ← rraIdxOf rrd cf .hwRra
  return setRraDef rrd rraIdx fun rra => { rra with smoothingWindow := param }

/-- The parameter that `set_deltaarg` reads. What cannot be converted is not refused. -/
def readDelta (arg : Text) : TuneM RrdValue :=
  match rrdStrtodbl arg with
  | .notConverted => .ok (rrdStrtodFailed arg)
  | .partly v _ => if v < 1 / 10 then refuse .tooSmall else refuse .deltaParse
  | .whole v => if v < .fin (1 / 10) then refuse .tooSmall else .ok v

/-- `set_deltaarg`. -/
def setDeltaarg (rrd : Rrd) (f : RrdValue → RraDef → RraDef) (arg : Text) : TuneM Rrd := do
  let param ← readDelta arg
  let rraIdx ← rraIdxOf rrd .failures .failuresRra
  return setRraDef rrd rraIdx (f param)

/-- `set_windowarg`, which erases the violations of all data sources. -/
@[grind] def setWindowarg (rrd : Rrd) (f : ℕ → RraDef → RraDef) (arg : Text) : TuneM Rrd :=
  let param := u64 (atoi arg)
  if param < 1 ∨ maxFailuresWindowLen < param then refuse .windowRange
  else do
    let rraIdx ← rraIdxOf rrd .failures .failuresRra
    let rrd := setRraDef rrd rraIdx (f param)
    return { rrd with
      rra := rrd.rra.modify rraIdx fun rra =>
        { rra with
          cdpPrep := rra.cdpPrep.map fun c =>
            { c with violations := eraseViolations rra.rraDef.windowLen c.violations } } }

/-- A parameter of the `HWPREDICT` archive, or else of the `MHWPREDICT` archive. -/
@[grind] def setPrediction (rrd : Rrd) (f : RrdValue → RraDef → RraDef) (arg : Text) : TuneM Rrd :=
  match setHwarg rrd .hwpredict f arg with
  | .error (.error _) => setHwarg rrd .mhwpredict f arg
  | result => result

/-- `smoothing_window` causes version 4. -/
@[grind] def raiseVersion (rrd : Rrd) : Rrd := { rrd with version := if rrd.version < 4 then 4 else rrd.version }

/-- `reset_aberrant_coefficients`, on one archive: data source `ds` forgets what it has learned. -/
@[grind] def resetAberrantRra (ds : ℕ) (rra : Rra) : Rra :=
  match rra.rraDef.cf with
  | .hwpredict | .mhwpredict => { rra with cdpPrep := rra.cdpPrep.modify ds initHwpredictCdp }
  | .seasonal | .devseasonal =>
    { rra with
      cdpPrep := rra.cdpPrep.modify ds fun c => { c with hwIntercept := .nan, hwLastIntercept := .nan }
      ring :=
        { rra.ring with
          slot := fun r => if r < rra.rraDef.rowCnt then (rra.ring.slot r).set ds .nan else rra.ring.slot r } }
  | .failures =>
    { rra with
      cdpPrep := rra.cdpPrep.modify ds fun c =>
        { c with violations := eraseViolations rra.rraDef.windowLen c.violations } }
  | _ => rra

/-- `reset_aberrant_coefficients`. -/
def resetAberrantCoefficients (rrd : Rrd) (ds : ℕ) : Rrd :=
  { rrd with rra := rrd.rra.map (resetAberrantRra ds) }

/-! ### The loop -/

/-- What a `sscanf` reads, or the message of the option. -/
def orRefuse {α : Type} (e : TuneError) : Option α → TuneM α
  | none => refuse e
  | some a => .ok a

/-- One option. -/
@[grind] def tuneOption (rrd : Rrd) : TuneOpt × Text → TuneM Rrd
  | (.heartbeat, arg) => do
    let (dsNam, heartbeat) ← orRefuse .heartbeat (scanHeartbeat arg)
    let ds ← matchDs rrd dsNam
    setDsPar rrd ds fun d => { d with mrhbCnt := heartbeat }
  | (.minimum, arg) => do
    let (dsNam, min) ← orRefuse .minimum (scanLimit arg)
    let ds ← matchDs rrd dsNam
    setDsPar rrd ds fun d => { d with minVal := min }
  | (.maximum, arg) => do
    let (dsNam, max) ← orRefuse .maximum (scanLimit arg)
    let ds ← matchDs rrd dsNam
    setDsPar rrd ds fun d => { d with maxVal := max }
  | (.dataSourceType, arg) => do
    let (dsNam, string) ← orRefuse .dataSourceType (scanDst arg)
    let ds ← matchDs rrd dsNam
    let dst ← orRefuse (.unknownDst string) (dstConv string)
    setDst rrd ds dst
  | (.dataSourceRename, arg) => do
    let (dsNam, dsNew) ← orRefuse .dataSourceType (scanRename arg)
    let ds ← matchDs rrd dsNam
    return setDsDef rrd ds fun d => { d with dsNam := dsNew }
  | (.deltapos, arg) => setDeltaarg rrd (fun v rra => { rra with deltaPos := v }) arg
  | (.deltaneg, arg) => setDeltaarg rrd (fun v rra => { rra with deltaNeg := v }) arg
  | (.failureThreshold, arg) => setWindowarg rrd (fun n rra => { rra with failureThreshold := n }) arg
  | (.windowLength, arg) => setWindowarg rrd (fun n rra => { rra with windowLen := n }) arg
  | (.alpha, arg) => setPrediction rrd (fun v rra => { rra with hwAlpha := v }) arg
  | (.beta, arg) => setPrediction rrd (fun v rra => { rra with hwBeta := v }) arg
  | (.gamma, arg) => setHwarg rrd .seasonal (fun v rra => { rra with seasonalGamma := v }) arg
  | (.gammaDeviation, arg) => setHwarg rrd .devseasonal (fun v rra => { rra with seasonalGamma := v }) arg
  | (.aberrantReset, arg) =>
    if scanSet 19 isNameChar arg = [] then refuse .aberrantReset
    else do
      let ds ← matchDs rrd (scanSet 19 isNameChar arg)
      return resetAberrantCoefficients rrd ds
  | (.smoothingWindow, arg) => setHwsmootharg (raiseVersion rrd) .seasonal arg
  | (.smoothingWindowDeviation, arg) => setHwsmootharg (raiseVersion rrd) .devseasonal arg
  | (.step, _) | (.daemon, _) => .ok rrd
  | (.unknown, errmsg) => refuse (.option errmsg)

/-- The loop of `rrd_tune_r`. -/
def rrdTuneR (rrd : Rrd) (options : List (TuneOpt × Text)) : TuneM Rrd := options.foldlM tuneOption rrd

end Rrdtool
