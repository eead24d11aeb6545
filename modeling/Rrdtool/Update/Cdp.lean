import Rrdtool.HoltWinters
import Rrdtool.Update.Pdp

/-!
# Consolidated data points

Port of the part of `src/rrd_update.c` that consolidates primary data points: `update_cdp` with its
three helpers for archives of more than one primary data point per row, `reset_cdp` and
`update_aberrant_cdps` for the others, and the loop over the archives, `update_all_cdp_prep`.

The archives are handled in order. An archive reads and writes its own preparation areas; the
seasonal coefficients looked up for one archive stay in their buffers for the next, as in the
source, and are passed along (`SeasonalCoef`).
-/

namespace Rrdtool

/-! ### `update_cdp` -/

/-- `initialize_cdp_val`: the value of the first row an update closes. -/
@[grind] def initializeCdpVal (cf : Cf) (c : CdpPrep) (x : RrdValue) (offset pdpCnt : ℕ) : RrdValue :=
  match cf with
  | .average =>
    (ifDnan c.val (.fin 0) + ifDnan x (.fin 0) * .fin offset) /
      .fin (u64 ((pdpCnt : ℤ) - c.unknPdpCnt))
  | .maximum =>
    let cum := ifDnan c.val .ninf
    let cur := ifDnan x .ninf
    if cum < cur then cur else cum
  | .minimum =>
    let cum := ifDnan c.val .pinf
    let cur := ifDnan x .pinf
    if cur < cum then cur else cum
  | _ => x

/-- The value of an empty group of primary data points. -/
@[grind] def carryOverInit (cf : Cf) : RrdValue :=
  match cf with
  | .maximum => .ninf
  | .minimum => .pinf
  | .average => .fin 0
  | _ => .nan

/-- `initialize_carry_over`: the value of the group left open by an update. -/
@[grind] def initializeCarryOver (cf : Cf) (x : RrdValue) (elapsed offset pdpCnt : ℕ) : RrdValue :=
  let pdpIntoCdpCnt := (elapsed - offset) % pdpCnt
  if pdpIntoCdpCnt = 0 ∨ x.isnan then carryOverInit cf
  else
    match cf with
    | .average => x * .fin pdpIntoCdpCnt
    | _ => x

/-- `calculate_cdp_val`: the value of the open group with `elapsed` more data points. -/
@[grind] def calculateCdpVal (cf : Cf) (val x : RrdValue) (elapsed : ℕ) : RrdValue :=
  if val.isnan then if cf = .average then x * .fin elapsed else x
  else
    match cf with
    | .average => val + x * .fin elapsed
    | .minimum => if x < val then x else val
    | .maximum => if val < x then x else val
    | _ => x

/-- `update_cdp`. -/
@[grind] def updateCdp (cf : Cf) (c : CdpPrep) (x : RrdValue) (stepCnt elapsed offset pdpCnt : ℕ)
    (xff : RrdValue) : CdpPrep :=
  if 0 < stepCnt then
    let c :=
      if x.isnan then { c with unknPdpCnt := c.unknPdpCnt + offset, secondaryVal := .nan }
      else { c with secondaryVal := x }
    { c with
      primaryVal :=
        if .fin pdpCnt * xff < .fin c.unknPdpCnt then .nan
        else initializeCdpVal cf c x offset pdpCnt
      val := initializeCarryOver cf x elapsed offset pdpCnt
      unknPdpCnt := if x.isnan then (elapsed - offset) % pdpCnt else 0 }
  else if x.isnan then { c with unknPdpCnt := c.unknPdpCnt + elapsed }
  else { c with val := calculateCdpVal cf c.val x elapsed }

/-! ### The loop over the archives -/

/-- The two buffers of seasonal coefficients of `process_arg`. -/
structure SeasonalCoef where
  last : Row
  coef : Row

/-- `reset_cdp`, for data source `d`. -/
@[grind] def resetCdp (rra : RraDef) (c : CdpPrep) (x : RrdValue) (elapsed d : ℕ) (s : SeasonalCoef) :
    CdpPrep :=
  match rra.cf with
  | .seasonal | .devseasonal =>
    { c with hwLastIntercept := s.last.getD d .nan, hwIntercept := s.coef.getD d .nan }
  | .hwpredict | .mhwpredict =>
    { c with
      nullCount := c.nullCount + elapsed, lastNullCount := c.lastNullCount + (elapsed - 1)
      primaryVal := .nan, secondaryVal := .nan }
  | .devpredict => { c with primaryVal := .nan, secondaryVal := .nan }
  | .failures =>
    { c with
      primaryVal := .fin 0, secondaryVal := .fin 0
      violations := eraseViolations rra.windowLen c.violations }
  | _ => { c with primaryVal := x, secondaryVal := x }

/-- The number of primary data points the open group still lacks. -/
@[grind] def startPdpOffset (pdpCnt procPdpCnt : ℕ) : ℕ := pdpCnt - procPdpCnt % pdpCnt

/-- `rra_step_cnt[i]`: the number of rows to be written. -/
@[grind] def rraStepCnt (rra : RraDef) (elapsed procPdpCnt : ℕ) : ℕ :=
  let offset := startPdpOffset rra.pdpCnt procPdpCnt
  if offset ≤ elapsed then min ((elapsed - offset) / rra.pdpCnt + 1) rra.rowCnt else 0

/-- `BURNIN_CYCLES`. -/
def burninCycles : ℕ := 3

/-- `do_schedule_smooth`: the archive, with one burn-in cycle marked off, and whether a smooth is
due. -/
@[grind] def doScheduleSmooth (rra : Rra) (elapsed : ℕ) : Rra × Bool :=
  let ahead := rra.ring.cur + elapsed
  let smoothIdx := rra.rraDef.seasonalSmoothIdx
  if burninCycles < (rra.cdpPrep.headD default).nullCount then
    (rra, if rra.ring.cur < smoothIdx then smoothIdx ≤ ahead
      else rra.rraDef.rowCnt ≤ ahead && rra.rraDef.rowCnt + smoothIdx ≤ ahead)
  else if rra.rraDef.rowCnt ≤ ahead then
    ({ rra with cdpPrep := rra.cdpPrep.modifyHead fun c => { c with nullCount := c.nullCount + 1 } },
      true)
  else (rra, false)

/-- `update_cdp_prep`. -/
@[grind] def updateCdpPrep (elapsed procPdpCnt : ℕ) (temps : List RrdValue) (s : SeasonalCoef) (rra : Rra) :
    Rra :=
  let offset := startPdpOffset rra.rraDef.pdpCnt procPdpCnt
  let stepCnt := rraStepCnt rra.rraDef elapsed procPdpCnt
  { rra with cdpPrep := rra.cdpPrep.mapIdx fun d c =>
      let x := temps.getD d .nan
      if 1 < rra.rraDef.pdpCnt then
        updateCdp rra.rraDef.cf c x stepCnt elapsed offset rra.rraDef.pdpCnt rra.rraDef.xff
      else if 2 < elapsed then resetCdp rra.rraDef c x elapsed d s
      else c }

/-- What an update decides about one archive: the rows to write (`rra_step_cnt`), whether they are
skipped (`skip_update`), and whether a smooth is due. -/
structure RraPass where
  stepCnt : ℕ
  skipUpdate : Bool
  scheduleSmooth : Bool

/-- One iteration of `update_all_cdp_prep`. -/
@[grind] def updateRraCdpPrep (elapsed procPdpCnt : ℕ) (temps : List RrdValue) (s : SeasonalCoef)
    (rra : Rra) : Rra × RraPass × SeasonalCoef :=
  let stepCnt := rraStepCnt rra.rraDef elapsed procPdpCnt
  if rra.rraDef.cf.isSeasonal then
    let skip : Bool := 1 < stepCnt
    let s :=
      if skip then ⟨lookupSeasonal rra elapsed, lookupSeasonal rra (elapsed + 1)⟩ else s
    let (rra, smooth) := doScheduleSmooth rra elapsed
    (updateCdpPrep elapsed procPdpCnt temps s rra, ⟨stepCnt, skip, smooth⟩, s)
  else (updateCdpPrep elapsed procPdpCnt temps s rra, ⟨stepCnt, false, false⟩, s)

/-- `update_all_cdp_prep`. -/
def updateAllCdpPrep (elapsed procPdpCnt : ℕ) (temps : List RrdValue) :
    SeasonalCoef → List Rra → List (Rra × RraPass) × SeasonalCoef
  | s, [] => ([], s)
  | s, rra :: rras =>
    let (rra, pass, s) := updateRraCdpPrep elapsed procPdpCnt temps s rra
    let (rest, s) := updateAllCdpPrep elapsed procPdpCnt temps s rras
    ((rra, pass) :: rest, s)

/-! ### `update_aberrant_cdps` -/

/-- The slots the outer loop visits; it is entered only for one or two elapsed steps. -/
@[grind] def aberrantSlots (elapsed : ℕ) : List ScratchIdx :=
  if elapsed = 1 then [.primary] else if elapsed = 2 then [.primary, .secondary] else []

/-- One archive in the inner loop. -/
@[grind] def updateAberrantRra (elapsed : ℕ) (temps : List RrdValue) (k : ScratchIdx) (rras : List Rra)
    (i : ℕ) : List Rra :=
  match rras[i]? with
  | none => rras
  | some rra =>
    if rra.rraDef.pdpCnt = 1 then
      let coef :=
        if rra.rraDef.cf.isSeasonal then
          lookupSeasonal rra (if k = .primary then elapsed + 1 else elapsed + 2)
        else []
      (List.range rra.cdpPrep.length).foldl
        (fun rras d =>
          setCdp rras i d
            (updateAberrantCF rras rra.rraDef i d k (coef.getD d .nan) (temps.getD d .nan)))
        rras
    else rras

/-- `update_aberrant_cdps`. -/
@[grind] def updateAberrantCdps (elapsed : ℕ) (temps : List RrdValue) (rras : List Rra) : List Rra :=
  (aberrantSlots elapsed).foldl
    (fun rras k => (List.range rras.length).foldl (updateAberrantRra elapsed temps k) rras) rras

end Rrdtool
