import Rrdtool.Format
import Mathlib.Data.Rat.Floor

/-!
# Holt-Winters forecasting

Port of `src/rrd_hw_math.c`, `src/rrd_hw_update.c` and `src/rrd_hw.c`: the update of the
`HWPREDICT`, `MHWPREDICT`, `SEASONAL`, `DEVSEASONAL`, `DEVPREDICT` and `FAILURES` archives by one
primary data point, and the smoother of the seasonal arrays.

Each update function reads the preparation areas of the archives it depends on and writes its own
(archive `i`, data source `d`), in the slot `CDP_primary_val` or `CDP_secondary_val` that the caller
names. An index beyond the archives of the file reads a zeroed area.
-/

namespace Rrdtool

/-- `CDP_scratch_idx`: the slot for the first value of an update, or for the second. -/
inductive ScratchIdx where
  | primary
  | secondary
deriving DecidableEq

/-- The value in a slot. -/
@[grind] def CdpPrep.get (c : CdpPrep) : ScratchIdx → RrdValue
  | .primary => c.primaryVal
  | .secondary => c.secondaryVal

/-- Store a value in a slot. -/
@[grind] def CdpPrep.set (c : CdpPrep) : ScratchIdx → RrdValue → CdpPrep
  | .primary, v => { c with primaryVal := v }
  | .secondary, v => { c with secondaryVal := v }

/-- `cdp_prep[i * ds_cnt + d]`. -/
@[grind] def cdpAt (rras : List Rra) (i d : ℕ) : CdpPrep :=
  ((rras[i]?).bind (·.cdpPrep[d]?)).getD default

/-- `rra_def[i]`. -/
@[grind] def rraDefAt (rras : List Rra) (i : ℕ) : Option RraDef :=
  rras[i]?.map (·.rraDef)

/-- `rra_def[i].par[RRA_dependent_rra_idx]`. -/
@[grind] def hwDepIdx (rras : List Rra) (i : ℕ) : ℕ :=
  ((rraDefAt rras i).map (·.dependentRraIdx)).getD 0

/-- Store into `cdp_prep[i * ds_cnt + d]`. -/
@[grind] def setCdp (rras : List Rra) (i d : ℕ) (c : CdpPrep) : List Rra :=
  rras.modify i fun rra => { rra with cdpPrep := rra.cdpPrep.set d c }

/-! ### The two methods -/

/-- What the additive and the multiplicative method do differently (C `hw_functions_t`). -/
structure HwFunctions where
  predict : RrdValue → RrdValue → ℕ → RrdValue → RrdValue
  intercept : RrdValue → RrdValue → RrdValue → CdpPrep → RrdValue
  seasonality : RrdValue → RrdValue → RrdValue → RrdValue → RrdValue
  initSeasonality : RrdValue → RrdValue → RrdValue
  identity : RrdValue

/-- `intercept + slope * null_count`, with the count as `CDP_null_count` holds it. -/
@[grind] def hwBaseline (c : CdpPrep) : RrdValue :=
  c.hwIntercept + c.hwSlope * .fin c.nullCount

@[grind] def hwAdditiveFunctions : HwFunctions where
  predict intercept slope nullCount seasonal :=
    intercept + slope * .fin (s32 nullCount) + seasonal
  intercept alpha observed seasonal c :=
    alpha * (observed - seasonal) + (.fin 1 - alpha) * hwBaseline c
  seasonality gamma observed intercept seasonal :=
    gamma * (observed - intercept) + (.fin 1 - gamma) * seasonal
  initSeasonality seasonal intercept := seasonal - intercept
  identity := .fin 0

/-- `x <= 0` on doubles. -/
@[grind] def notPositive (x : RrdValue) : Bool := !x.isnan && !decide (.fin 0 < x)

@[grind] def hwMultiplicativeFunctions : HwFunctions where
  predict intercept slope nullCount seasonal :=
    (intercept + slope * .fin (s32 nullCount)) * seasonal
  intercept alpha observed seasonal c :=
    if notPositive seasonal then .nan
    else alpha * (observed / seasonal) + (.fin 1 - alpha) * hwBaseline c
  seasonality gamma observed intercept seasonal :=
    if notPositive intercept then .nan
    else gamma * (observed / intercept) + (.fin 1 - gamma) * seasonal
  initSeasonality seasonal intercept :=
    if notPositive intercept then .nan else seasonal / intercept
  identity := .fin 1

/-- `hw_calculate_slope`. -/
def hwCalculateSlope (beta : RrdValue) (c : CdpPrep) : RrdValue :=
  beta * (c.hwIntercept - c.hwLastIntercept) + (.fin 1 - beta) * c.hwSlope

/-- `hw_calculate_seasonal_deviation`. -/
def hwCalculateSeasonalDeviation (gamma prediction observed last : RrdValue) : RrdValue :=
  gamma * (prediction - observed).abs + (.fin 1 - gamma) * last

/-- `hw_init_seasonal_deviation`. -/
def hwInitSeasonalDeviation (prediction observed : RrdValue) : RrdValue :=
  (prediction - observed).abs

/-- `init_slope_intercept`. -/
@[grind] def initSlopeIntercept (c : CdpPrep) (k : ScratchIdx) : CdpPrep :=
  { c with
    hwIntercept := c.get k, hwLastIntercept := c.get k
    hwSlope := .fin 0, hwLastSlope := .fin 0
    nullCount := 1, lastNullCount := 1 }

/-- `hw_is_violation`. -/
def hwIsViolation (observed prediction deviation deltaPos deltaNeg : RrdValue) : Bool :=
  decide (prediction + deltaPos * deviation < observed) ||
    decide (observed < prediction - deltaNeg * deviation)

/-! ### Updating one preparation area -/

/-- `update_hwpredict`. -/
@[grind] def updateHwpredict (rras : List Rra) (rra : RraDef) (i d : ℕ) (k : ScratchIdx) (fns : HwFunctions)
    (c : CdpPrep) : CdpPrep :=
  -- save coefficients from current prediction
  let c := { c with
    hwLastIntercept := c.hwIntercept, hwLastSlope := c.hwSlope, lastNullCount := c.nullCount }
  let dep := cdpAt rras rra.dependentRraIdx d
  let seasonal := if rra.dependentRraIdx < i then dep.hwLastIntercept else dep.hwIntercept
  if c.hwIntercept.isnan || c.hwSlope.isnan || seasonal.isnan then
    -- bootstrap initialization of slope and intercept
    let c := if c.hwIntercept.isnan && !(c.get k).isnan then initSlopeIntercept c k else c
    c.set k .nan
  else
    let prediction := fns.predict c.hwIntercept c.hwSlope c.nullCount seasonal
    if (c.get k).isnan then
      { c with nullCount := c.nullCount + 1 }.set k prediction
    else
      let c := { c with hwIntercept := fns.intercept rra.hwAlpha (c.get k) seasonal c }
      { c with hwSlope := hwCalculateSlope rra.hwBeta c, nullCount := 1 }.set k prediction

/-- `update_seasonal`; `coef` is the seasonal coefficient read ahead for the next row. -/
@[grind] def updateSeasonal (rras : List Rra) (rra : RraDef) (i d : ℕ) (k : ScratchIdx) (coef : RrdValue)
    (fns : HwFunctions) (c : CdpPrep) : CdpPrep :=
  let hw := cdpAt rras rra.dependentRraIdx d
  let hwAlpha := ((rraDefAt rras rra.dependentRraIdx).map (·.hwAlpha)).getD (.fin 0)
  let seasonal := c.hwIntercept
  let c := { c with hwLastIntercept := seasonal, hwIntercept := coef }
  if (c.get k).isnan then c.set k seasonal
  else if rra.dependentRraIdx < i then
    -- associated HWPREDICT has already been updated
    if hw.hwLastIntercept.isnan || hw.hwLastSlope.isnan then c.set k .nan
    else if seasonal.isnan then c.set k (fns.initSeasonality (c.get k) hw.hwLastIntercept)
    else c.set k (fns.seasonality rra.seasonalGamma (c.get k) hw.hwIntercept seasonal)
  else
    -- SEASONAL array is updated first: the new intercept is computed here
    if hw.hwIntercept.isnan || hw.hwSlope.isnan then c.set k fns.identity
    else if seasonal.isnan then c.set k (fns.initSeasonality (c.get k) hw.hwIntercept)
    else
      let intercept := fns.intercept hwAlpha (c.get k) seasonal hw
      c.set k (fns.seasonality rra.seasonalGamma (c.get k) intercept seasonal)

/-- `update_devpredict`. -/
@[grind] def updateDevpredict (rras : List Rra) (rra : RraDef) (i d : ℕ) (k : ScratchIdx) (c : CdpPrep) :
    CdpPrep :=
  let dep := cdpAt rras rra.dependentRraIdx d
  c.set k (if rra.dependentRraIdx < i then dep.hwLastIntercept else dep.hwIntercept)

/-- `update_devseasonal`. -/
@[grind] def updateDevseasonal (rras : List Rra) (rra : RraDef) (i d : ℕ) (k : ScratchIdx) (dev : RrdValue)
    (fns : HwFunctions) (c : CdpPrep) : CdpPrep :=
  let hwIdx := rra.dependentRraIdx
  let hw := cdpAt rras hwIdx d
  let c := { c with hwLastIntercept := c.hwIntercept, hwIntercept := dev }
  let seasonalIdx := hwDepIdx rras hwIdx
  let sea := cdpAt rras seasonalIdx d
  let seasonal := if seasonalIdx < i then sea.hwLastIntercept else sea.hwIntercept
  let (intercept, slope, nullCount) :=
    if hwIdx < i then (hw.hwLastIntercept, hw.hwLastSlope, hw.lastNullCount)
    else (hw.hwIntercept, hw.hwSlope, hw.nullCount)
  if intercept.isnan || slope.isnan || seasonal.isnan then c.set k .nan
  else
    let prediction := fns.predict intercept slope nullCount seasonal
    if (c.get k).isnan then c.set k c.hwLastIntercept
    else if c.hwLastIntercept.isnan then c.set k (hwInitSeasonalDeviation prediction (c.get k))
    else
      c.set k (hwCalculateSeasonalDeviation rra.seasonalGamma prediction (c.get k) c.hwLastIntercept)

/-- `update_failures`. -/
@[grind] def updateFailures (rras : List Rra) (rra : RraDef) (i d : ℕ) (k : ScratchIdx) (fns : HwFunctions)
    (c : CdpPrep) : CdpPrep :=
  let devIdx := rra.dependentRraIdx
  let hwIdx := hwDepIdx rras devIdx
  let seasonalIdx := hwDepIdx rras hwIdx
  let dev := cdpAt rras devIdx d
  let sea := cdpAt rras seasonalIdx d
  let hw := cdpAt rras hwIdx d
  let deviation := if i < seasonalIdx then dev.hwIntercept else dev.hwLastIntercept
  let seasonal := if i < seasonalIdx then sea.hwIntercept else sea.hwLastIntercept
  let prediction :=
    if i < hwIdx then fns.predict hw.hwIntercept hw.hwSlope hw.nullCount seasonal
    else fns.predict hw.hwLastIntercept hw.hwLastSlope hw.lastNullCount seasonal
  let violation :=
    !deviation.isnan &&
      ((c.get k).isnan || hwIsViolation (c.get k) prediction deviation rra.deltaPos rra.deltaNeg)
  let violations :=
    violation :: (c.violations.take (rra.windowLen - 1) ++ c.violations.drop (max rra.windowLen 1))
  let count := (violations.take (max rra.windowLen 1)).count true
  { c with violations := violations }.set k
    (if count < rra.failureThreshold then .fin 0 else .fin 1)

/-- The method of the `HWPREDICT` or `MHWPREDICT` archive at index `i`, if it is one. -/
@[grind] def hwFunctionsOf (rras : List Rra) (i : ℕ) : Option HwFunctions :=
  match (rraDefAt rras i).map RraDef.cf with
  | some .hwpredict => some hwAdditiveFunctions
  | some .mhwpredict => some hwMultiplicativeFunctions
  | _ => none

/-- `update_aberrant_CF`: the preparation area `(i, d)` after the value `pdpVal`. -/
@[grind] def updateAberrantCF (rras : List Rra) (rra : RraDef) (i d : ℕ) (k : ScratchIdx)
    (coef pdpVal : RrdValue) : CdpPrep :=
  let c := (cdpAt rras i d).set k pdpVal
  match rra.cf with
  | .hwpredict => updateHwpredict rras rra i d k hwAdditiveFunctions c
  | .mhwpredict => updateHwpredict rras rra i d k hwMultiplicativeFunctions c
  | .devpredict => updateDevpredict rras rra i d k c
  | .seasonal =>
    match hwFunctionsOf rras rra.dependentRraIdx with
    | some fns => updateSeasonal rras rra i d k coef fns c
    | none => c
  | .devseasonal =>
    match hwFunctionsOf rras rra.dependentRraIdx with
    | some fns => updateDevseasonal rras rra i d k coef fns c
    | none => c
  | .failures =>
    match hwFunctionsOf rras (hwDepIdx rras rra.dependentRraIdx) with
    | some fns => updateFailures rras rra i d k fns c
    | none => c
  | _ => c

/-- `erase_violations`. -/
@[grind] def eraseViolations (windowLen : ℕ) (violations : List Bool) : List Bool :=
  violations.mapIdx fun i v => if i < windowLen then false else v

/-- `lookup_seasonal`: the row `offset` ahead of the current one. -/
@[grind] def lookupSeasonal (rra : Rra) (offset : ℕ) : Row :=
  let rowIdx := rra.ring.cur + offset
  rra.ring.slot (if rra.rraDef.rowCnt ≤ rowIdx then rowIdx % rra.rraDef.rowCnt else rowIdx)

/-! ### The smoother -/

/-- `MyMod`. -/
def myMod (val : ℤ) (m : ℕ) : ℕ :=
  if val < 0 then m - val.natAbs % m else val.natAbs % m

/-- The half width of the smoothing window of an archive. -/
@[grind] def smootherOffset (version : ℕ) (rra : RraDef) : ℕ :=
  if 4 ≤ version then
    match rra.smoothingWindow with
    | .fin w => ⌊w / 2 * rra.rowCnt⌋₊
    | _ => 0
  else ⌊(5 / 100 / 2 : ℚ) * rra.rowCnt⌋₊

/-- The state of the moving average over one column: the FIFO queue, the working average, the
baseline and the column being rewritten. -/
structure Smoother where
  queue : List RrdValue
  workingAverage : RrdValue
  baseline : RrdValue
  values : List RrdValue

/-- One step of the moving average loop of `apply_smoother`, at row `i`, over the original column
`cpy`. -/
@[grind] def smootherStep (rowCount offset : ℕ) (cpy : List RrdValue) (s : Smoother) (i : ℕ) : Smoother :=
  let x := cpy.getD (myMod i rowCount) .nan
  let sum := s.workingAverage + x
  let avg := sum / .fin (2 * offset + 1 : ℕ)
  let queue := s.queue ++ [x]
  { queue := queue.tail
    workingAverage := sum - queue.headD .nan
    baseline := s.baseline + avg
    values := s.values.set (myMod ((i : ℤ) - offset) rowCount) avg }

/-- The smoothed column and its baseline. -/
def smoothColumn (rowCount offset : ℕ) (col : List RrdValue) : List RrdValue × RrdValue :=
  let first := (List.range (2 * offset)).map fun (i : ℕ) =>
    col.getD (myMod ((i : ℤ) - offset) rowCount) .nan
  let s : Smoother :=
    { queue := first, workingAverage := first.foldl (· + ·) (.fin 0), baseline := .fin 0
      values := col }
  let s := ((List.range rowCount).map (· + offset)).foldl (smootherStep rowCount offset col) s
  (s.values, s.baseline / .fin rowCount)

/-- One column of the stored rows. -/
@[grind] def ringColumn (rowCount : ℕ) (ring : RingBuf Row) (d : ℕ) : List RrdValue :=
  (List.range rowCount).map fun r => (ring.slot r).getD d .nan

/-- `apply_smoother` on archive `i` of an `rrd` with `dsCnt` data sources. -/
@[grind] def applySmoother (version dsCnt : ℕ) (rras : List Rra) (i : ℕ) : List Rra :=
  match rras[i]? with
  | none => rras
  | some rra =>
    let rowCount := rra.rraDef.rowCnt
    let offset := smootherOffset version rra.rraDef
    let cols := (List.range dsCnt).map (ringColumn rowCount rra.ring)
    -- no smoothing, or still uninitialized values
    if offset = 0 ∨ cols.any (·.any (·.isnan)) then rras
    else
      let smoothed := cols.map (smoothColumn rowCount offset)
      let store (rras : List Rra) (cols : List (List RrdValue)) : List Rra :=
        rras.modify i fun rra =>
          { rra with ring :=
              { rra.ring with slot := fun r =>
                  if r < rowCount then cols.map fun col => col.getD r .nan else rra.ring.slot r } }
      if rra.rraDef.cf = .seasonal then
        match hwFunctionsOf rras rra.rraDef.dependentRraIdx with
        | none => rras
        | some fns =>
          let cols := smoothed.map fun p => p.1.map fun v => fns.initSeasonality v p.2
          let rras := store rras cols
          rras.modify rra.rraDef.dependentRraIdx fun hw =>
            { hw with cdpPrep := hw.cdpPrep.mapIdx fun d c =>
                let baseline := ((smoothed[d]?).map Prod.snd).getD (.fin 0)
                { c with hwIntercept := c.hwIntercept + baseline } }
      else store rras (smoothed.map (·.1))

/-- An archive of seasonal coefficients or deviations. -/
@[grind] def Cf.isSeasonal (cf : Cf) : Bool := cf = .seasonal ∨ cf = .devseasonal

/-- `smooth_all_rras`. -/
def smoothAllRras (rrd : Rrd) : Rrd :=
  let smooth (rras : List Rra) (i : ℕ) : List Rra :=
    match rraDefAt rras i with
    | some rra => if rra.cf.isSeasonal then applySmoother rrd.version rrd.dsCnt rras i else rras
    | none => rras
  { rrd with rra := (List.range rrd.rra.length).foldl smooth rrd.rra }

end Rrdtool
