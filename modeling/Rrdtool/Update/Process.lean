import Rrdtool.Update.Cdp
import Rrdtool.Lib.Run

/-!
# Processing an update

Port of `write_to_rras`, `process_arg` and `_rrd_updatex` of `src/rrd_update.c` in the `HAVE_MMAP`
build: the preparation areas, the header and the rows lie in the mapped file, so every store is
visible there at once and an error exit undoes nothing. `processArg` returns the file beside the
outcome.

An accepted argument also leaves a record of what it did (`Accepted`): its time, the readings, and
for each pass over the archives the primary data points handed to them and the rows written. An
update that closes several steps makes two passes when the first of them was open before
(`splitLeftOpen`), and one otherwise.

A run (`Db`, `Op`) is a sequence of accepted arguments and smoothing passes. Every successful call
of `_rrd_updatex` is one (`rrdUpdatex_run`).
-/

namespace Rrdtool

/-! ### Writing the rows -/

/-- A row written to an archive, with the time `rrd_updatev` reports for it. -/
structure RowWrite where
  rraTime : ℤ
  row : Row

/-- The loop of `write_to_rras` for one archive, with `n` rows left. A skipped update advances the
pointer only. -/
@[grind] def writeRraRows (stepTime currentTime : ℕ) (skipUpdate : Bool) :
    ℕ → ScratchIdx → ℕ → Rra → Rra × List RowWrite
  | 0, _, _, rra => (rra, [])
  | n + 1, k, stepSubtract, rra =>
    let row := rra.cdpPrep.map (·.get k)
    let ring :=
      if skipUpdate then rra.ring.skip rra.rraDef.rowCnt else rra.ring.push rra.rraDef.rowCnt row
    let rraTime : ℤ :=
      (currentTime - currentTime % stepTime : ℕ) - ((n + 1 : ℕ) - (stepSubtract : ℤ)) * stepTime
    let (rra, ws) :=
      writeRraRows stepTime currentTime skipUpdate n .secondary 2 { rra with ring := ring }
    (rra, if skipUpdate then ws else ⟨rraTime, row⟩ :: ws)

/-- `write_to_rras`. -/
@[grind] def writeToRras (pdpStep currentTime : ℕ) (rras : List Rra) (passes : List RraPass) :
    List (Rra × List RowWrite) :=
  List.zipWith
    (fun rra pass =>
      writeRraRows (rra.rraDef.pdpCnt * pdpStep) currentTime pass.skipUpdate pass.stepCnt .primary 1
        rra)
    rras passes

/-! ### One pass over the archives -/

/-- What a pass does to the archives: the rows written, archive by archive, and whether a smooth is
due. -/
structure Consolidated where
  writes : List (List RowWrite)
  scheduleSmooth : Bool

/-- A pass of `process_arg`: the preparation areas it starts from, the steps it closes, the primary
data points it hands to the archives and what these do. -/
structure Phase extends Consolidated where
  pdpPrep : List PdpPrep
  cdpPrep : List (List CdpPrep)
  elapsedPdpSt : ℕ
  procPdpCnt : ℕ
  pdpTemp : List RrdValue

/-- The buffer of coefficients after the look-ups of `update_aberrant_cdps`. -/
def aberrantCoef (elapsed : ℕ) (rras : List Rra) (coef : Row) : Row :=
  (aberrantSlots elapsed).foldl
    (fun coef k =>
      rras.foldl
        (fun coef rra =>
          if rra.rraDef.pdpCnt = 1 ∧ rra.rraDef.cf.isSeasonal then
            lookupSeasonal rra (if k = .primary then elapsed + 1 else elapsed + 2)
          else coef)
        coef)
    coef

/-- `update_all_cdp_prep`, `update_aberrant_cdps` and `write_to_rras`. -/
def consolidate (rrd : Rrd) (elapsed procPdpCnt : ℕ) (temps : List RrdValue) (s : SeasonalCoef)
    (currentTime : ℕ) : Rrd × Consolidated × SeasonalCoef :=
  let (prepared, s) := updateAllCdpPrep elapsed procPdpCnt temps s rrd.rra
  let passes := prepared.map Prod.snd
  let rras := updateAberrantCdps elapsed temps (prepared.map Prod.fst)
  let written := writeToRras rrd.pdpStep currentTime rras passes
  ({ rrd with rra := written.map Prod.fst },
    ⟨written.map Prod.snd, passes.any (·.scheduleSmooth)⟩,
    { s with coef := aberrantCoef elapsed (prepared.map Prod.fst) s.coef })

/-- `process_all_pdp_st` and the pass over the archives; `none` when a `COMPUTE` program fails. -/
@[grind] def closePdps (host : Host) (rrd : Rrd) (pass : PdpPass) (procPdpCnt : ℕ) (pdpNew : List RrdValue)
    (s : SeasonalCoef) (currentTime : ℕ) : Rrd × Option (Phase × SeasonalCoef) :=
  match processAllPdpSt host rrd.pdpStep pass rrd.ds pdpNew [] with
  | (ds, none) => ({ rrd with ds := ds }, none)
  | (ds, some temps) =>
    let (rrd', c, s) :=
      consolidate { rrd with ds := ds } pass.elapsedPdpSt procPdpCnt temps s currentTime
    (rrd', some
      ({ c with
          pdpPrep := rrd.ds.map (·.pdpPrep), cdpPrep := rrd.rra.map (·.cdpPrep)
          elapsedPdpSt := pass.elapsedPdpSt, procPdpCnt := procPdpCnt, pdpTemp := temps }, s))

/-! ### `process_arg` -/

/-- The part of `pdp_new` that belongs to the step left open by the last update. -/
def openPdpNew (secOpenPdp : ℕ) (interval : ℚ) (x : RrdValue) : RrdValue :=
  if !x.isnan && 0 < interval then x * .fin secOpenPdp / .fin interval else .nan

/-- What is left of `pdp_new` for the other steps. -/
def restPdpNew (secOpenPdp : ℕ) (interval : ℚ) (x : RrdValue) : RrdValue :=
  if !x.isnan && 0 < interval then x - openPdpNew secOpenPdp interval x else x

/-- The local state of `process_arg` between its passes. -/
structure Work where
  rrd : Rrd
  pass : PdpPass
  procPdpCnt : ℕ
  pdpNew : List RrdValue
  coef : SeasonalCoef
  phases : List Phase

/-- The seconds that belong to the step left open, as the code counts them. -/
def secOpenPdp (pdpStep : ℕ) (preInt : ℚ) : ℕ := ⌊preInt⌋₊ % pdpStep

/-- Process the step left open on its own, when several steps are closed. -/
@[grind] def splitLeftOpen (host : Host) (w : Work) : Rrd × Option Work :=
  let sec := secOpenPdp w.rrd.pdpStep w.pass.preInt
  if 1 < w.pass.elapsedPdpSt ∧ 0 < sec then
    match closePdps host w.rrd ⟨sec, sec, 0, 1⟩ w.procPdpCnt
        (w.pdpNew.map (openPdpNew sec w.pass.interval)) w.coef (w.rrd.lastUp + sec) with
    | (rrd, none) => (rrd, none)
    | (rrd, some (phase, s)) =>
      (rrd, some
        { rrd := rrd
          pass :=
            ⟨w.pass.interval - sec, w.pass.preInt - sec, w.pass.postInt, w.pass.elapsedPdpSt - 1⟩
          procPdpCnt := w.procPdpCnt + 1
          pdpNew := w.pdpNew.map (restPdpNew sec w.pass.interval)
          coef := s
          phases := w.phases ++ [phase] })
  else (w.rrd, some w)

/-- Store the time of the update. -/
def Rrd.setLastUp (rrd : Rrd) (sec usec : ℕ) : Rrd :=
  { rrd with lastUp := sec, lastUpUsec := usec }

/-- `process_arg` after `update_pdp_prep`; `none` when a `COMPUTE` program fails. -/
@[grind] def applyPdpNew (host : Host) (rrd : Rrd) (sec usec : ℕ) (pdpNew : List RrdValue) :
    Rrd × Option (List Phase) :=
  let interval := rrd.interval sec usec
  let el := calculateElapsedSteps rrd sec usec interval
  if el.elapsedPdpSt = 0 then
    ({ rrd with ds := simpleUpdate interval rrd.ds pdpNew }.setLastUp sec usec, some [])
  else
    match splitLeftOpen host
        { rrd := rrd, pass := ⟨interval, el.preInt, el.postInt, el.elapsedPdpSt⟩
          procPdpCnt := el.procPdpCnt, pdpNew := pdpNew, coef := ⟨[], []⟩, phases := [] } with
    | (rrd, none) => (rrd, none)
    | (_, some w) =>
      match closePdps host w.rrd w.pass w.procPdpCnt w.pdpNew w.coef sec with
      | (rrd, none) => (rrd, none)
      | (rrd, some (phase, _)) => (rrd.setLastUp sec usec, some (w.phases ++ [phase]))

/-- What an accepted argument did: the time before and after, the readings and the passes. -/
structure Accepted where
  lastUp : ℕ
  lastUpUsec : ℕ
  sec : ℕ
  usec : ℕ
  updvals : List Text
  phases : List Phase

/-- `process_arg`. -/
@[grind] def processArg (host : Host) (tmpl : List ℕ) (rrd : Rrd) (input : Text) :
    Rrd × Except UpdateError Accepted :=
  match parseDs rrd.dsCnt tmpl input with
  | .error e => (rrd, .error e)
  | .ok (atStyle, time, updvals) =>
    match getTimeFromReading host rrd atStyle time with
    | .error e => (rrd, .error e)
    | .ok (sec, usec) =>
      match updatePdpPrep (rrd.interval sec usec) rrd.ds updvals with
      | (ds, .error e) => ({ rrd with ds := ds }, .error e)
      | (ds, .ok pdpNew) =>
        match applyPdpNew host { rrd with ds := ds } sec usec pdpNew with
        | (rrd', none) => (rrd', .error .compute)
        | (rrd', some phases) =>
          (rrd', .ok ⟨rrd.lastUp, rrd.lastUpUsec, sec, usec, updvals, phases⟩)

/-! ### `_rrd_updatex` -/

/-- The loop over the arguments. With `RRD_SKIP_PAST_UPDATES` a time stamp error is passed over. -/
@[grind] def updateArgs (host : Host) (tmpl : List ℕ) (skipPastUpdates : Bool) :
    Rrd → List Text → Rrd × Except UpdateError (List Accepted)
  | rrd, [] => (rrd, .ok [])
  | rrd, input :: args =>
    match processArg host tmpl rrd input with
    | (rrd, .error e) =>
      if skipPastUpdates ∧ e.code = -2 then updateArgs host tmpl skipPastUpdates rrd args
      else (rrd, .error e)
    | (rrd, .ok acc) =>
      let (rrd, r) := updateArgs host tmpl skipPastUpdates rrd args
      (rrd, r.map (acc :: ·))

/-- `_rrd_updatex`: the seasonal archives are smoothed at most once, after the last argument. -/
@[grind] def rrdUpdatex (host : Host) (tmpl : List ℕ) (skipPastUpdates : Bool) (rrd : Rrd)
    (args : List Text) : Rrd × Except UpdateError (List Accepted) :=
  match updateArgs host tmpl skipPastUpdates rrd args with
  | (rrd, .error e) => (rrd, .error e)
  | (rrd, .ok accs) =>
    if accs.any (·.phases.any (·.scheduleSmooth)) then (smoothAllRras rrd, .ok accs)
    else (rrd, .ok accs)

/-! ### Runs -/

/-- A database and the arguments it has accepted, oldest first. -/
structure Db where
  rrd : Rrd
  accepted : List Accepted

/-- A step of a run: an argument of some call, or the smoothing at the end of one. -/
inductive Op where
  | arg (host : Host) (tmpl : List ℕ) (input : Text)
  | smooth

/-- One step; an argument that is refused is no step of a run. -/
@[grind] def Db.step (db : Db) : Op → Option Db
  | .arg host tmpl input =>
    match processArg host tmpl db.rrd input with
    | (_, .error _) => none
    | (rrd, .ok acc) => some ⟨rrd, db.accepted ++ [acc]⟩
  | .smooth => some { db with rrd := smoothAllRras db.rrd }

/-- The database after a list of steps. -/
abbrev Db.run : Db → List Op → Option Db := Run.run Db.step

end Rrdtool
