import Rrdtool.Lib.Stores
import Rrdtool.Tune.WellTuned

/-!
# A tune that fails

With `HAVE_MMAP`, `rrd_open` maps the header shared and for writing: what an option stores is in the file at once, and
it stays there when a later option is refused. Here the file is seen as its cells, and an option as what it stores
into them. A refused list of options leaves the file as it was exactly if the last thing that it stores into a cell is
what stood there (`rrdTuneR_unchanged_iff`).
-/

namespace Rrdtool

open Checked Stores

/-! ### The cells of a file -/

/-- What stands in a cell. `nodes` are a part of an expression. -/
inductive Content where
  | count (n : ℕ)
  | value (v : RrdValue)
  | text (t : Text)
  | dst (d : Dst)
  | cf (c : Cf)
  | nodes (l : List RpnCdefds)
  | flag (b : Bool)
deriving DecidableEq

/-- A data source. Of `par[]`, the rest behind the limits. -/
inductive DsField where
  | dsNam | dst | mrhbCnt | minVal | maxVal | rest | lastDs | unknSecCnt | val
deriving DecidableEq

inductive RraField where
  | cf | rowCnt | pdpCnt | xff | hwAlpha | hwBeta | dependentRraIdx | seasonalGamma | smoothingWindow
  | seasonalSmoothIdx | deltaPos | deltaNeg | windowLen | failureThreshold | curRow
deriving DecidableEq

inductive CdpCell where
  | val | unknPdpCnt | hwIntercept | hwLastIntercept | hwSlope | hwLastSlope | nullCount | lastNullCount
  | primaryVal | secondaryVal
  | violation (j : ℕ)
deriving DecidableEq

/-- An archive: the cells of the data source `d`, and those of the row `r`. -/
inductive RraCell where
  | field (f : RraField)
  | cdp (p : ℕ × CdpCell)
  | row (r d : ℕ)
deriving DecidableEq

inductive Cell where
  | version | pdpStep | lastUp | lastUpUsec
  | ds (p : ℕ × DsField)
  | rra (p : ℕ × RraCell)
deriving DecidableEq

/-- The heartbeat and the limits of a `COMPUTE` data source are two nodes of its expression each. -/
@[grind] def DataSource.image (d : DataSource) : DsField → Option Content
  | .dsNam => some (.text d.dsDef.dsNam)
  | .dst => some (.dst d.dsDef.dst)
  | .mrhbCnt => some (if d.dsDef.dst = .cdef then .nodes (d.dsDef.cdef.take 2) else .count d.dsDef.mrhbCnt)
  | .minVal => some (if d.dsDef.dst = .cdef then .nodes ((d.dsDef.cdef.drop 2).take 2) else .value d.dsDef.minVal)
  | .maxVal => some (if d.dsDef.dst = .cdef then .nodes ((d.dsDef.cdef.drop 4).take 2) else .value d.dsDef.maxVal)
  | .rest => some (.nodes (if d.dsDef.dst = .cdef then d.dsDef.cdef.drop 6 else []))
  | .lastDs => some (.text d.pdpPrep.lastDs)
  | .unknSecCnt => some (.count d.pdpPrep.unknSecCnt)
  | .val => some (.value d.pdpPrep.val)

@[grind] def RraDef.image (rra : RraDef) (curRow : ℕ) : RraField → Content
  | .cf => .cf rra.cf
  | .rowCnt => .count rra.rowCnt
  | .pdpCnt => .count rra.pdpCnt
  | .xff => .value rra.xff
  | .hwAlpha => .value rra.hwAlpha
  | .hwBeta => .value rra.hwBeta
  | .dependentRraIdx => .count rra.dependentRraIdx
  | .seasonalGamma => .value rra.seasonalGamma
  | .smoothingWindow => .value rra.smoothingWindow
  | .seasonalSmoothIdx => .count rra.seasonalSmoothIdx
  | .deltaPos => .value rra.deltaPos
  | .deltaNeg => .value rra.deltaNeg
  | .windowLen => .count rra.windowLen
  | .failureThreshold => .count rra.failureThreshold
  | .curRow => .count curRow

@[grind] def CdpPrep.image (c : CdpPrep) : CdpCell → Option Content
  | .val => some (.value c.val)
  | .unknPdpCnt => some (.count c.unknPdpCnt)
  | .hwIntercept => some (.value c.hwIntercept)
  | .hwLastIntercept => some (.value c.hwLastIntercept)
  | .hwSlope => some (.value c.hwSlope)
  | .hwLastSlope => some (.value c.hwLastSlope)
  | .nullCount => some (.count c.nullCount)
  | .lastNullCount => some (.count c.lastNullCount)
  | .primaryVal => some (.value c.primaryVal)
  | .secondaryVal => some (.value c.secondaryVal)
  | .violation j => c.violations[j]?.map .flag

@[grind] def Rra.image (rra : Rra) : RraCell → Option Content
  | .field f => some (rra.rraDef.image rra.ring.cur f)
  | .cdp p => Stores.cells CdpPrep.image rra.cdpPrep p
  | .row r d => if r < rra.rraDef.rowCnt then (rra.ring.slot r)[d]?.map .value else none

/-- The file. -/
@[grind] def Rrd.image (rrd : Rrd) : Cell → Option Content
  | .version => some (.count rrd.version)
  | .pdpStep => some (.count rrd.pdpStep)
  | .lastUp => some (.count rrd.lastUp)
  | .lastUpUsec => some (.count rrd.lastUpUsec)
  | .ds p => Stores.cells DataSource.image rrd.ds p
  | .rra p => Stores.cells Rra.image rrd.rra p

/-! ### What an option stores -/

/-- Stores into a data source. -/
def storeDs (i : ℕ) (s : DsField → Option Content) : Cell → Option Content
  | .ds p => Stores.place i s p
  | _ => none

@[grind] def DsField.put (f : DsField) (c : Content) : DsField → Option Content := fun f' => if f' = f then some c else none

/-- Stores into an archive. -/
def storeRra (i : ℕ) (s : RraCell → Option Content) : Cell → Option Content
  | .rra p => Stores.place i s p
  | _ => none

@[grind] def RraField.put (f : RraField) (c : Content) : RraCell → Option Content
  | .field f' => if f' = f then some c else none
  | _ => none

/-- `erase_violations`. -/
def eraseStores (windowLen : ℕ) : CdpCell → Option Content
  | .violation j => if j < windowLen then some (.flag false) else none
  | _ => none

/-- `init_hwpredict_cdp`. -/
def hwpredictStores : CdpCell → Option Content
  | .hwIntercept | .hwLastIntercept | .hwSlope | .hwLastSlope => some (.value .nan)
  | .nullCount | .lastNullCount => some (.count 1)
  | _ => none

/-- The two coefficients of a seasonal archive. -/
def interceptStores : CdpCell → Option Content
  | .hwIntercept | .hwLastIntercept => some (.value .nan)
  | _ => none

/-- Stores into the preparation areas of an archive. -/
def storeCdps (s : ℕ × CdpCell → Option Content) : RraCell → Option Content
  | .cdp p => s p
  | _ => none

/-- `reset_aberrant_coefficients`, on a seasonal archive. -/
def resetSeasonalStores (ds : ℕ) : RraCell → Option Content
  | .cdp p => Stores.place ds interceptStores p
  | .row _ d => if d = ds then some (.value .nan) else none
  | _ => none

/-- `reset_aberrant_coefficients`, on one archive. -/
@[grind] def resetRraStores (ds : ℕ) (rra : Rra) : RraCell → Option Content :=
  match rra.rraDef.cf with
  | .hwpredict | .mhwpredict => storeCdps (Stores.place ds hwpredictStores)
  | .seasonal | .devseasonal => resetSeasonalStores ds
  | .failures => storeCdps (Stores.place ds (eraseStores rra.rraDef.windowLen))
  | _ => nothing

def resetStores (rrd : Rrd) (ds : ℕ) : Cell → Option Content
  | .rra (i, c) => rrd.rra[i]?.bind (resetRraStores ds · c)
  | _ => none

/-- `smoothing_window` causes version 4, before anything is checked. -/
@[grind] def versionStores (rrd : Rrd) : TuneOpt × Text → Cell → Option Content
  | (.smoothingWindow, _), .version | (.smoothingWindowDeviation, _), .version =>
    if rrd.version < 4 then some (.count 4) else none
  | _, _ => none

/-- A parameter of the archive that an option looks for. -/
def storeParam (param : TuneM RrdValue) (rraIdx : TuneM ℕ) (f : RraField) : Cell → Option Content :=
  match param, rraIdx with
  | .ok v, .ok i => storeRra i (f.put (.value v))
  | _, _ => nothing

/-- The archive of `set_hwarg` for `alpha` and `beta`. -/
@[grind] def predictionIdx (rrd : Rrd) : TuneM ℕ :=
  match rraIdxOf rrd .hwpredict .hwRra with
  | .error (.error _) => rraIdxOf rrd .mhwpredict .hwRra
  | result => result

/-- `set_windowarg`; `windowLen` is the length of the window afterwards. -/
def windowStores (rrd : Rrd) (f : RraField) (windowLen : RraDef → ℕ → ℕ) (arg : Text) : Cell → Option Content :=
  match rraIdxOf rrd .failures .failuresRra with
  | .ok i => storeRra i <| after
      (storeCdps fun p =>
        eraseStores (((rraDefAt rrd.rra i).map fun rra => windowLen rra (u64 (atoi arg))).getD 0) p.2)
      (f.put (.count (u64 (atoi arg))))
  | _ => nothing

/-- A field of the data source that an option names. -/
def dsStores (rrd : Rrd) (scanned : Option (Text × Content)) (f : DsField) : Cell → Option Content :=
  match scanned.bind fun (dsNam, c) => (dsMatch rrd dsNam).map fun ds => storeDs ds (f.put c) with
  | some s => s
  | none => nothing

/-- What `--data-source-type` stores: nothing, when the type is the old one. -/
def retype (rrd : Rrd) (arg : Text) : Option (ℕ × Dst) := do
  let (dsNam, string) ← scanDst arg
  let ds ← dsMatch rrd dsNam
  let dst ← dstConv string
  if dstAt rrd ds = some dst then none else return (ds, dst)

/-- What an accepted option stores, in the cells of the header as it stands. -/
@[grind] def stores (rrd : Rrd) : TuneOpt × Text → Cell → Option Content
  | (.heartbeat, arg) => dsStores rrd ((scanHeartbeat arg).map fun (dsNam, n) => (dsNam, .count n)) .mrhbCnt
  | (.minimum, arg) => dsStores rrd ((scanLimit arg).map fun (dsNam, v) => (dsNam, .value v)) .minVal
  | (.maximum, arg) => dsStores rrd ((scanLimit arg).map fun (dsNam, v) => (dsNam, .value v)) .maxVal
  | (.dataSourceType, arg) =>
    match retype rrd arg with
    | none => nothing
    | some (ds, dst) => storeDs ds fun
        | .dst => some (.dst dst)
        | .lastDs => some (.text ['U', 'N', 'K', 'N'])
        | _ => none
  | (.dataSourceRename, arg) => dsStores rrd ((scanRename arg).map fun (dsNam, dsNew) => (dsNam, .text dsNew)) .dsNam
  | (.deltapos, arg) => storeParam (readDelta arg) (rraIdxOf rrd .failures .failuresRra) .deltaPos
  | (.deltaneg, arg) => storeParam (readDelta arg) (rraIdxOf rrd .failures .failuresRra) .deltaNeg
  | (.failureThreshold, arg) => windowStores rrd .failureThreshold (fun rra _ => rra.windowLen) arg
  | (.windowLength, arg) => windowStores rrd .windowLen (fun _ n => n) arg
  | (.alpha, arg) => storeParam (readHwParameter outsideOpen arg) (predictionIdx rrd) .hwAlpha
  | (.beta, arg) => storeParam (readHwParameter outsideOpen arg) (predictionIdx rrd) .hwBeta
  | (.gamma, arg) => storeParam (readHwParameter outsideOpen arg) (rraIdxOf rrd .seasonal .hwRra) .seasonalGamma
  | (.gammaDeviation, arg) =>
    storeParam (readHwParameter outsideOpen arg) (rraIdxOf rrd .devseasonal .hwRra) .seasonalGamma
  | (.aberrantReset, arg) => ((dsMatch rrd (scanSet 19 isNameChar arg)).map (resetStores rrd)).getD nothing
  | (.smoothingWindow, arg) => after
      (storeParam (readHwParameter outsideClosed arg) (rraIdxOf rrd .seasonal .hwRra) .smoothingWindow)
      (versionStores rrd (.smoothingWindow, arg))
  | (.smoothingWindowDeviation, arg) => after
      (storeParam (readHwParameter outsideClosed arg) (rraIdxOf rrd .devseasonal .hwRra) .smoothingWindow)
      (versionStores rrd (.smoothingWindowDeviation, arg))
  | (.step, _) | (.daemon, _) | (.unknown, _) => nothing

/-! ### The file that is left behind -/

/-- The header that the next option finds its names and types in, when a number has been stored over an expression or
the one is to be read as the other. -/
def afterOverlay (rrd : Rrd) : TuneOpt × Text → Rrd
  | (.dataSourceType, arg) =>
    match retype rrd arg with
    | none => rrd
    | some (ds, dst) =>
      { rrd with
        ds := rrd.ds.modify ds fun d =>
          ⟨{ d.dsDef with dst := dst }, { d.pdpPrep with lastDs := ['U', 'N', 'K', 'N'] }⟩ }
  | _ => rrd

section File

-- `enc` is how a content is laid out in bytes
variable {ω : Type*} (enc : Content → ω)

/-- `rrd_tune_r` on a mapped file: the file that it leaves behind when it returns -1. -/
@[grind] def tuneMapped (rrd : Rrd) (file : Cell → Option ω) : List (TuneOpt × Text) → Option (Cell → Option ω)
  | [] => none
  | o :: options =>
    match tuneOption rrd o with
    | .ok rrd' => tuneMapped rrd' (write (encode enc (stores rrd o)) file) options
    | .error (.error _) => some (write (encode enc (versionStores rrd o)) file)
    | .error (.fault .overlay) => tuneMapped (afterOverlay rrd o) (write (encode enc (stores rrd o)) file) options
    | .error (.fault .rraIdx) => none

end File

/-! ### An accepted option -/

section Accepted

variable {rrd rrd' : Rrd} {arg : Text} {cf : Cf} {e : TuneError} {i : ℕ}

lemma image_modify_ds {g : DataSource → DataSource} {s : DsField → Option Content}
    (h : ∀ d ∈ rrd.ds[i]?, (g d).image = write s d.image) :
    ({ rrd with ds := rrd.ds.modify i g } : Rrd).image = write (storeDs i s) rrd.image := by
  funext c
  cases c with
  | ds p => exact congrFun (cells_modify h) p
  | rra p => exact (write_none rfl).symm
  | _ => rfl

lemma image_modify_rra {g : Rra → Rra} {s : RraCell → Option Content}
    (h : ∀ rra ∈ rrd.rra[i]?, (g rra).image = write s rra.image) :
    ({ rrd with rra := rrd.rra.modify i g } : Rrd).image = write (storeRra i s) rrd.image := by
  funext c
  cases c with
  | rra p => exact congrFun (cells_modify h) p
  | ds p => exact (write_none rfl).symm
  | _ => rfl

/-- One parameter of an archive. -/
lemma image_param {f : RraField} {c : Content} {g : RraDef → RraDef} {rra : Rra}
    (hrow : ∀ rra, (g rra).rowCnt = rra.rowCnt)
    (h : ∀ rra cur, (g rra).image cur = fun f' => if f' = f then c else rra.image cur f') :
    ({ rra with rraDef := g rra.rraDef } : Rra).image = write (f.put c) rra.image := by
  funext x
  cases x with
  | field f' =>
    simp only [Rra.image, write, h, Option.map_some, RraField.put]
    split <;> rfl
  | cdp p => exact (write_none (s := f.put c) rfl).symm
  | row r d =>
    simp only [Rra.image, write, hrow, RraField.put]
    exact Option.map_id'.symm

/-- `setHwarg` and the like. -/
lemma storeParam_image {param : TuneM RrdValue} {rraIdx : TuneM ℕ} {f : RraField} {g : RrdValue → RraDef → RraDef}
    (h : (do
      let v ← param
      let i ← rraIdx
      return setRraDef rrd i (g v)) = .ok rrd')
    (hrow : ∀ v rra, (g v rra).rowCnt = rra.rowCnt)
    (hput : ∀ v rra cur, (g v rra).image cur = fun f' => if f' = f then .value v else rra.image cur f') :
    rrd'.image = write (storeParam param rraIdx f) rrd.image := by
  obtain ⟨v, hv, h⟩ := bind_eq_ok h
  obtain ⟨i, hi, h⟩ := bind_eq_ok h
  cases h
  rw [hv, hi]
  exact image_modify_rra fun rra _ => image_param (hrow v) (hput v)

/-- `alpha` and `beta`. -/
lemma setPrediction_image {f : RraField} {g : RrdValue → RraDef → RraDef} (h : setPrediction rrd g arg = .ok rrd')
    (hrow : ∀ v rra, (g v rra).rowCnt = rra.rowCnt)
    (hput : ∀ v rra cur, (g v rra).image cur = fun f' => if f' = f then .value v else rra.image cur f') :
    rrd'.image = write (storeParam (readHwParameter outsideOpen arg) (predictionIdx rrd) f) rrd.image := by
  unfold setPrediction at h
  split at h
  · rename_i e he
    obtain ⟨v, hv, -⟩ := bind_eq_ok h
    have hidx : rraIdxOf rrd .hwpredict .hwRra = .error (.error e) := by
      rw [setHwarg, hv, ok_bind] at he
      cases hr : rraIdxOf rrd .hwpredict .hwRra with
      | error e' =>
        rw [hr] at he
        cases he
        rfl
      | ok i =>
        rw [hr] at he
        cases he
    rw [predictionIdx, hidx]
    exact storeParam_image h hrow hput
  · rename_i hne
    have hidx : predictionIdx rrd = rraIdxOf rrd .hwpredict .hwRra := by
      obtain ⟨v, -, h⟩ := bind_eq_ok h
      obtain ⟨i, hi, -⟩ := bind_eq_ok h
      rw [predictionIdx, hi]
    rw [hidx]
    exact storeParam_image h hrow hput

lemma eraseViolations_image (windowLen : ℕ) (c : CdpPrep) :
    ({ c with violations := eraseViolations windowLen c.violations } : CdpPrep).image =
      write (eraseStores windowLen) c.image := by
  funext x
  cases x with
  | violation j =>
    simp only [CdpPrep.image, write, eraseStores, eraseViolations, List.getElem?_mapIdx, Option.map_map]
    congr 1
    funext v
    simp only [Function.comp_apply]
    split <;> rfl
  | _ => rfl

/-- Stores into the preparation areas of an archive. -/
lemma image_cdpPrep {rra : Rra} {cdpPrep : List CdpPrep} {s : ℕ × CdpCell → Option Content}
    (h : Stores.cells CdpPrep.image cdpPrep = write s (Stores.cells CdpPrep.image rra.cdpPrep)) :
    ({ rra with cdpPrep := cdpPrep } : Rra).image = write (storeCdps s) rra.image := by
  funext x
  cases x with
  | cdp p => exact congrFun h p
  | _ => exact (write_none (s := storeCdps s) rfl).symm

lemma setWindowarg_image {f : RraField} {windowLen : RraDef → ℕ → ℕ} {g : ℕ → RraDef → RraDef}
    (h : setWindowarg rrd g arg = .ok rrd')
    (hrow : ∀ n rra, (g n rra).rowCnt = rra.rowCnt) (hlen : ∀ n rra, (g n rra).windowLen = windowLen rra n)
    (hput : ∀ n rra cur, (g n rra).image cur = fun f' => if f' = f then .count n else rra.image cur f') :
    rrd'.image = write (windowStores rrd f windowLen arg) rrd.image := by
  simp only [setWindowarg] at h
  split at h
  · cases h
  · obtain ⟨i, hi, h⟩ := bind_eq_ok h
    cases h
    simp only [setRraDef, List.modify_modify_eq, windowStores, hi]
    refine image_modify_rra fun rra hrra => ?_
    have hdef : rraDefAt rrd.rra i = some rra.rraDef := by
      rw [rraDefAt, Option.mem_def.1 hrra]
      rfl
    rw [hdef, Option.map_some, Option.getD_some, ← write_write, ← image_param (hrow _) (hput _), ← hlen]
    exact image_cdpPrep (cells_map fun j c _ => eraseViolations_image _ c)

lemma initHwpredictCdp_image (c : CdpPrep) : (initHwpredictCdp c).image = write hwpredictStores c.image := by
  funext x
  cases x with
  | violation j => exact (write_none (s := hwpredictStores) rfl).symm
  | _ => rfl

lemma forgetIntercepts_image (c : CdpPrep) :
    ({ c with hwIntercept := .nan, hwLastIntercept := .nan } : CdpPrep).image = write interceptStores c.image := by
  funext x
  cases x with
  | violation j => exact (write_none (s := interceptStores) rfl).symm
  | _ => rfl

/-- A seasonal archive forgets its coefficients, and its column of the rows. -/
lemma resetSeasonal_image (ds : ℕ) (rra : Rra) :
    ({ rra with
      cdpPrep := rra.cdpPrep.modify ds fun c => { c with hwIntercept := .nan, hwLastIntercept := .nan }
      ring :=
        { rra.ring with
          slot := fun r => if r < rra.rraDef.rowCnt then (rra.ring.slot r).set ds .nan else rra.ring.slot r } } :
      Rra).image = write (resetSeasonalStores ds) rra.image := by
  funext x
  cases x with
  | field f => rfl
  | cdp p => exact congrFun (cells_modify fun c _ => forgetIntercepts_image c) p
  | row r d =>
    simp only [Rra.image, write, resetSeasonalStores]
    split
    · rw [List.getElem?_set, Option.map_map]
      obtain rfl | hne := eq_or_ne ds d
      · simp only [if_pos]
        split
        · rename_i hlt
          rw [List.getElem?_eq_getElem hlt]
          rfl
        · rename_i hge
          rw [List.getElem?_eq_none (not_lt.1 hge)]
          rfl
      · simp only [if_neg hne, if_neg hne.symm]
        rfl
    · rfl

lemma resetAberrantRra_image (ds : ℕ) (rra : Rra) :
    (resetAberrantRra ds rra).image = write (resetRraStores ds rra) rra.image := by
  cases hcf : rra.rraDef.cf with
  | hwpredict | mhwpredict =>
    simp only [resetAberrantRra, resetRraStores, hcf]
    exact image_cdpPrep (cells_modify fun c _ => initHwpredictCdp_image c)
  | seasonal | devseasonal =>
    simp only [resetAberrantRra, resetRraStores, hcf]
    exact resetSeasonal_image ds rra
  | failures =>
    simp only [resetAberrantRra, resetRraStores, hcf]
    exact image_cdpPrep (cells_modify fun c _ => eraseViolations_image _ c)
  | _ =>
    simp only [resetAberrantRra, resetRraStores, hcf]
    exact (write_nothing _).symm

lemma resetAberrantCoefficients_image (rrd : Rrd) (ds : ℕ) :
    (resetAberrantCoefficients rrd ds).image = write (resetStores rrd ds) rrd.image := by
  funext c
  cases c with
  | rra p =>
    refine congrFun (cells_map (s := fun p => rrd.rra[p.1]?.bind (resetRraStores ds · p.2)) fun j rra hrra => ?_) p
    simp only [Option.mem_def.1 hrra, Option.bind_some]
    exact resetAberrantRra_image ds rra
  | ds p => exact (write_none (s := resetStores rrd ds) rfl).symm
  | _ => rfl

/-- A field of a data source. -/
lemma dsStores_image {scanned : Option (Text × Content)} {f : DsField} {dsNam : Text} {c : Content} {ds : ℕ}
    (hscan : scanned = some (dsNam, c)) (hds : dsMatch rrd dsNam = some ds) {g : DsDef → DsDef}
    (h : ∀ d ∈ rrd.ds[ds]?, ({ d with dsDef := g d.dsDef } : DataSource).image = write (f.put c) d.image) :
    (setDsDef rrd ds g).image = write (dsStores rrd scanned f) rrd.image := by
  rw [dsStores, hscan, Option.bind_some]
  simp only [hds, Option.map_some]
  exact image_modify_ds h

lemma raiseVersion_image (rrd : Rrd) {o : TuneOpt × Text}
    (ho : o.1 = .smoothingWindow ∨ o.1 = .smoothingWindowDeviation) :
    (raiseVersion rrd).image = write (versionStores rrd o) rrd.image := by
  obtain ⟨opt, arg⟩ := o
  funext c
  cases c with
  | version =>
    obtain rfl | rfl : opt = .smoothingWindow ∨ opt = .smoothingWindowDeviation := ho
    · simp only [raiseVersion, Rrd.image, write, versionStores]
      split <;> rfl
    · simp only [raiseVersion, Rrd.image, write, versionStores]
      split <;> rfl
  | _ =>
    obtain rfl | rfl : opt = .smoothingWindow ∨ opt = .smoothingWindowDeviation := ho
    · exact (write_none (s := versionStores rrd (.smoothingWindow, arg)) rfl).symm
    · exact (write_none (s := versionStores rrd (.smoothingWindowDeviation, arg)) rfl).symm

lemma setHwsmootharg_image (h : setHwsmootharg (raiseVersion rrd) cf arg = .ok rrd') {o : TuneOpt × Text}
    (ho : o.1 = .smoothingWindow ∨ o.1 = .smoothingWindowDeviation) :
    rrd'.image = write (after (storeParam (readHwParameter outsideClosed arg) (rraIdxOf rrd cf .hwRra) .smoothingWindow)
      (versionStores rrd o)) rrd.image := by
  rw [← write_write, ← raiseVersion_image rrd ho]
  refine storeParam_image h (fun _ _ => rfl) fun v rra cur => ?_
  funext f
  cases f <;> rfl

lemma orRefuse_eq_ok {α : Type} {o : Option α} {a : α} (h : orRefuse e o = .ok a) : o = some a := by
  cases o with
  | none => cases h
  | some b =>
    cases h
    rfl

lemma matchDs_eq_ok {dsNam : Text} {ds : ℕ} (h : matchDs rrd dsNam = .ok ds) : dsMatch rrd dsNam = some ds := by
  unfold matchDs at h
  split at h
  · cases h
  · rename_i hds
    cases h
    exact hds

/-- A heartbeat or a limit. -/
lemma par_image {α : Type} {scanned : Option (Text × α)} (content : α → Content) {f : DsField} (g : α → DsDef → DsDef)
    (hput : ∀ a (d : DataSource), d.dsDef.dst ≠ .cdef →
      ({ d with dsDef := g a d.dsDef } : DataSource).image = write (f.put (content a)) d.image)
    (h : (do
      let found ← orRefuse e scanned
      let ds ← matchDs rrd found.1
      setDsPar rrd ds (g found.2)) = .ok rrd') :
    rrd'.image = write (dsStores rrd (scanned.map fun p => (p.1, content p.2)) f) rrd.image := by
  obtain ⟨⟨dsNam, a⟩, hscan, h⟩ := bind_eq_ok h
  obtain ⟨ds, hds, h⟩ := bind_eq_ok h
  rw [orRefuse_eq_ok hscan]
  unfold setDsPar at h
  split at h
  · cases h
  · rename_i hcdef
    cases h
    refine dsStores_image rfl (matchDs_eq_ok hds) fun d hd => hput a d fun hdst => hcdef ?_
    rw [dstAt_eq hd, hdst]

lemma dataSourceType_image (h : tuneOption rrd (.dataSourceType, arg) = .ok rrd') :
    rrd'.image = write (stores rrd (.dataSourceType, arg)) rrd.image := by
  obtain ⟨⟨dsNam, string⟩, hscan, h⟩ := bind_eq_ok h
  obtain ⟨ds, hds, h⟩ := bind_eq_ok h
  obtain ⟨dst, hdst, h⟩ := bind_eq_ok h
  have hretype : retype rrd arg = if dstAt rrd ds = some dst then none else some (ds, dst) := by
    simp only [retype, orRefuse_eq_ok hscan, matchDs_eq_ok hds, orRefuse_eq_ok hdst, Option.bind_eq_bind,
      Option.bind_some]
    rfl
  unfold setDst at h
  simp only [stores, hretype]
  split at h
  · rename_i hsame
    cases h
    rw [if_pos hsame]
    exact (write_nothing _).symm
  · rename_i hnew
    split at h
    · cases h
    · rename_i hcdef
      cases h
      rw [if_neg hnew]
      refine image_modify_ds fun d hd => ?_
      rw [dstAt_eq hd] at hcdef
      obtain ⟨hold, hnew⟩ := not_or.1 hcdef
      have hold : d.dsDef.dst ≠ .cdef := fun heq => hold (congrArg some heq)
      funext f
      cases f <;> simp [DataSource.image, write, hold, hnew]

/-- What an accepted option leaves is the file with what it stores. -/
lemma tuneOption_image {o : TuneOpt × Text} (h : tuneOption rrd o = .ok rrd') :
    rrd'.image = write (stores rrd o) rrd.image := by
  obtain ⟨opt, arg⟩ := o
  cases opt with
  | heartbeat =>
    refine par_image .count (fun n d => { d with mrhbCnt := n }) (fun n d hd => ?_) h
    funext f
    cases f <;> simp [DataSource.image, write, DsField.put, hd]
  | minimum =>
    refine par_image .value (fun v d => { d with minVal := v }) (fun n d hd => ?_) h
    funext f
    cases f <;> simp [DataSource.image, write, DsField.put, hd]
  | maximum =>
    refine par_image .value (fun v d => { d with maxVal := v }) (fun n d hd => ?_) h
    funext f
    cases f <;> simp [DataSource.image, write, DsField.put, hd]
  | dataSourceType => exact dataSourceType_image h
  | dataSourceRename =>
    obtain ⟨⟨dsNam, dsNew⟩, hscan, h⟩ := bind_eq_ok h
    obtain ⟨ds, hds, h⟩ := bind_eq_ok h
    cases h
    refine dsStores_image (by rw [orRefuse_eq_ok hscan]; rfl) (matchDs_eq_ok hds) fun d _ => ?_
    funext f
    cases f <;> rfl
  | deltapos | deltaneg | gamma | gammaDeviation =>
    simp only [tuneOption] at h
    simp only [stores]
    refine storeParam_image h (fun _ _ => rfl) fun v rra cur => ?_
    funext f
    cases f <;> rfl
  | failureThreshold | windowLength =>
    simp only [tuneOption] at h
    simp only [stores]
    refine setWindowarg_image h (fun _ _ => rfl) (fun _ _ => rfl) fun n rra cur => ?_
    funext f
    cases f <;> rfl
  | alpha | beta =>
    simp only [tuneOption] at h
    simp only [stores]
    refine setPrediction_image h (fun _ _ => rfl) fun v rra cur => ?_
    funext f
    cases f <;> rfl
  | smoothingWindow => exact setHwsmootharg_image h (.inl rfl)
  | smoothingWindowDeviation => exact setHwsmootharg_image h (.inr rfl)
  | aberrantReset =>
    simp only [tuneOption] at h
    split at h
    · cases h
    · obtain ⟨ds, hds, h⟩ := bind_eq_ok h
      cases h
      rw [resetAberrantCoefficients_image, stores, matchDs_eq_ok hds]
      rfl
  | step | daemon =>
    cases h
    exact (write_nothing _).symm
  | unknown => cases h

end Accepted

/-! ### All options -/

/-- The last thing that a refused list of options stores into a cell. -/
def lastStored (rrd : Rrd) : List (TuneOpt × Text) → Cell → Option Content
  | [] => nothing
  | o :: options =>
    match tuneOption rrd o with
    | .ok rrd' => after (lastStored rrd' options) (stores rrd o)
    | .error (.error _) => versionStores rrd o
    | .error (.fault .overlay) => after (lastStored (afterOverlay rrd o) options) (stores rrd o)
    | .error (.fault .rraIdx) => nothing

section Run

variable {ω : Type} {enc : Content → ω} {rrd : Rrd}

lemma encode_after (later s : Cell → Option Content) :
    encode enc (after later s) = after (encode enc later) (encode enc s) := by
  funext c
  simp only [encode, after]
  cases later c with
  | none => rfl
  | some w => rfl

/-- What is left behind is the file with the last things that are stored. -/
lemma tuneMapped_eq_write {options : List (TuneOpt × Text)} {file file' : Cell → Option ω}
    (h : tuneMapped enc rrd file options = some file') : file' = write (encode enc (lastStored rrd options)) file := by
  induction options generalizing rrd file with
  | nil => cases h
  | cons o options ih =>
    rw [tuneMapped] at h
    rw [lastStored]
    split at h
    · rw [encode_after, ← write_write]
      exact ih h
    · exact (Option.some.inj h).symm
    · rw [encode_after, ← write_write]
      exact ih h
    · cases h

/-- Options that are accepted and one that is refused. -/
lemma tuneMapped_refused (enc : Content → ω) {front : List (TuneOpt × Text)} {rrd' : Rrd} {o : TuneOpt × Text} {e : TuneError}
    (hfront : rrdTuneR rrd front = .ok rrd') (ho : tuneOption rrd' o = .error (.error e))
    (rest : List (TuneOpt × Text)) :
    tuneMapped enc rrd (encode enc rrd.image) (front ++ o :: rest) =
      some (encode enc (write (versionStores rrd' o) rrd'.image)) := by
  induction front generalizing rrd with
  | nil =>
    cases hfront
    rw [List.nil_append, tuneMapped, ho, encode_write]
  | cons a front ih =>
    rw [rrdTuneR, List.foldlM_cons] at hfront
    obtain ⟨rrd₁, ha, hfront⟩ := bind_eq_ok hfront
    rw [List.cons_append, tuneMapped, ha, ← encode_write, ← tuneOption_image ha]
    exact ih hfront

/-- A list of options that is refused leaves the file as it was exactly if the last thing that it stores into each cell
is what stood there. -/
theorem rrdTuneR_unchanged_iff (enc : Content → ω) (rrd : Rrd) (options : List (TuneOpt × Text))
    (file' : Cell → Option ω) (h : tuneMapped enc rrd (encode enc rrd.image) options = some file') :
    file' = encode enc rrd.image ↔
      ∀ c w old, lastStored rrd options c = some w → rrd.image c = some old → enc w = enc old := by
  rw [tuneMapped_eq_write h, write_eq_self_iff]
  constructor
  · intro hall c w old hw hold
    exact hall c _ _ (by rw [encode, hw]; rfl) (by rw [encode, hold]; rfl)
  · intro hall c w old hw hold
    obtain ⟨w', hw', rfl⟩ := Option.map_eq_some_iff.1 hw
    obtain ⟨old', hold', rfl⟩ := Option.map_eq_some_iff.1 hold
    exact hall c w' old' hw' hold'

/-- The heartbeat that the data source has, and a data source that there is not. -/
theorem rrdTuneR_unchanged_iff_same :
    ∃ file', tuneMapped id gaugePair (encode id gaugePair.image)
        [(.heartbeat, "a:600".toList), (.heartbeat, "c:600".toList)] = some file' ∧
      (file' = encode id gaugePair.image ↔
        ∀ c w old, lastStored gaugePair [(.heartbeat, "a:600".toList), (.heartbeat, "c:600".toList)] c = some w →
          gaugePair.image c = some old → id w = id old) := by
  have hfront : rrdTuneR gaugePair [(.heartbeat, "a:600".toList)] =
      .ok (setDsDef gaugePair 0 fun d => { d with mrhbCnt := 600 }) := rfl
  have hrun := tuneMapped_refused id hfront (o := (.heartbeat, "c:600".toList)) (e := .unknownDs ['c']) rfl []
  exact ⟨_, hrun, rrdTuneR_unchanged_iff id gaugePair _ _ hrun⟩

/-- The heartbeat of the first data source stays changed when the second option names one that there is not. -/
theorem rrdTuneR_changes :
    ∃ file', tuneMapped id gaugePair (encode id gaugePair.image)
        [(.heartbeat, "a:900".toList), (.heartbeat, "c:600".toList)] = some file' ∧
      file' (.ds (0, .mrhbCnt)) = some (.count 900) ∧ gaugePair.image (.ds (0, .mrhbCnt)) = some (.count 600) := by
  have hfront : rrdTuneR gaugePair [(.heartbeat, "a:900".toList)] =
      .ok (setDsDef gaugePair 0 fun d => { d with mrhbCnt := 900 }) := rfl
  have hrun := tuneMapped_refused id hfront (o := (.heartbeat, "c:600".toList)) (e := .unknownDs ['c']) rfl []
  exact ⟨_, hrun, rfl, rfl⟩

end Run

end Rrdtool
