import Rrdtool.Lib.ExtNum
import Rrdtool.Lib.CInt
import Rrdtool.Lib.RingBuf

/-!
# The round robin database

Port of `src/rrd_format.h`: the static header, the data source and archive definitions, the live
part of the header and the archives themselves. The C file keeps parallel arrays (`ds_def[]` beside
`pdp_prep[]`; `rra_def[]` beside `cdp_prep[]`, `rra_ptr[]` and the stored rows); here the entries of
one index stand together in one record (`DataSource`, `Rra`), so that the arrays cannot get out of
step.

`rrd_value_t` is a double; it is read without rounding, as a rational number, an infinity or `nan`.
The `unival` unions are split into one field per use: `CDP_hw_seasonal` and
`CDP_seasonal_deviation` share `CDP_hw_intercept` (`hwIntercept`), `CDP_init_seasonal` shares
`CDP_null_count` (`nullCount`), and the violation bytes that a `FAILURES` archive overlays on the
scratch area have a field of their own (`violations`).
-/

namespace Rrdtool

/-- A stored value (C `rrd_value_t`). -/
abbrev RrdValue := ExtNum ℚ

/-- A C string. -/
abbrev Text := List Char

instance lawfulBEqText : @LawfulBEq (List Char) List.instBEq := inferInstance

/-- `IFDNAN` of `rrd_update.c`. -/
@[grind] def ifDnan (x y : RrdValue) : RrdValue := if x.isnan then y else x

/-- Data source types (C `enum dst_en`). -/
inductive Dst where
  | counter
  | absolute
  | gauge
  | derive
  | cdef
  | dcounter
  | dderive
deriving DecidableEq

/-- Consolidation functions (C `enum cf_en`). -/
inductive Cf where
  | average
  | minimum
  | maximum
  | last
  | hwpredict
  | seasonal
  | devpredict
  | devseasonal
  | failures
  | mhwpredict
deriving DecidableEq

/-- `cf_to_string`. -/
def cfToString : Cf → Text
  | .average => "AVERAGE".toList
  | .minimum => "MIN".toList
  | .maximum => "MAX".toList
  | .last => "LAST".toList
  | .hwpredict => "HWPREDICT".toList
  | .seasonal => "SEASONAL".toList
  | .devpredict => "DEVPREDICT".toList
  | .devseasonal => "DEVSEASONAL".toList
  | .failures => "FAILURES".toList
  | .mhwpredict => "MHWPREDICT".toList

/-- `rrd_cf_conv`. -/
def rrdCfConv (string : Text) : Option Cf :=
  [Cf.average, .minimum, .maximum, .last, .hwpredict, .mhwpredict, .devpredict, .seasonal, .devseasonal,
    .failures].find? fun cf => string = cfToString cf

lemma rrdCfConv_cfToString (cf : Cf) : rrdCfConv (cfToString cf) = some cf := by
  cases cf <;> rfl

/-- One node of a compact RPN program (C `rpn_cdefds_t`): the operator number with the value that
`OP_NUMBER` and `OP_VARIABLE` use. -/
structure RpnCdefds where
  op : ℕ
  val : ℤ
deriving DecidableEq

/-- A data source definition (C `ds_def_t`). The RPN program is stored over `par[]` and is used by
`COMPUTE` data sources only. -/
structure DsDef where
  dsNam : Text
  dst : Dst
  mrhbCnt : ℕ
  minVal : RrdValue
  maxVal : RrdValue
  cdef : List RpnCdefds
deriving DecidableEq

/-- The primary data point being prepared (C `pdp_prep_t`). -/
structure PdpPrep where
  lastDs : Text
  unknSecCnt : ℕ
  val : RrdValue
deriving DecidableEq

/-- A data source: its definition and its preparation area. -/
structure DataSource where
  dsDef : DsDef
  pdpPrep : PdpPrep
deriving DecidableEq

/-- An archive definition (C `rra_def_t`), with `par[]` split by use. -/
structure RraDef where
  cf : Cf
  rowCnt : ℕ
  pdpCnt : ℕ
  xff : RrdValue
  hwAlpha : RrdValue
  hwBeta : RrdValue
  dependentRraIdx : ℕ
  seasonalGamma : RrdValue
  smoothingWindow : RrdValue
  seasonalSmoothIdx : ℕ
  deltaPos : RrdValue
  deltaNeg : RrdValue
  windowLen : ℕ
  failureThreshold : ℕ
deriving DecidableEq

/-- The consolidated data point being prepared (C `cdp_prep_t`). -/
structure CdpPrep where
  val : RrdValue
  unknPdpCnt : ℕ
  hwIntercept : RrdValue
  hwLastIntercept : RrdValue
  hwSlope : RrdValue
  hwLastSlope : RrdValue
  nullCount : ℕ
  lastNullCount : ℕ
  primaryVal : RrdValue
  secondaryVal : RrdValue
  violations : List Bool
deriving DecidableEq

/-- A zeroed scratch area, as `calloc` leaves it. -/
def CdpPrep.zero : CdpPrep where
  val := .fin 0
  unknPdpCnt := 0
  hwIntercept := .fin 0
  hwLastIntercept := .fin 0
  hwSlope := .fin 0
  hwLastSlope := .fin 0
  nullCount := 0
  lastNullCount := 0
  primaryVal := .fin 0
  secondaryVal := .fin 0
  violations := []

instance : Inhabited CdpPrep := ⟨.zero⟩

/-- The values of all data sources at one time. -/
abbrev Row := List RrdValue

/-- An archive: its definition, one preparation area for each data source, and the ring of rows
with `rra_ptr.cur_row` as its pointer. -/
structure Rra where
  rraDef : RraDef
  cdpPrep : List CdpPrep
  ring : RingBuf Row

/-- The whole database (C `rrd_t`), as it lies in the mapped file. -/
structure Rrd where
  version : ℕ
  pdpStep : ℕ
  lastUp : ℕ
  lastUpUsec : ℕ
  ds : List DataSource
  rra : List Rra

/-- `ds_cnt` of the static header. -/
@[grind] def Rrd.dsCnt (rrd : Rrd) : ℕ := rrd.ds.length

/-- The seconds one row of the archive stands for. -/
def Rrd.rowStep (rrd : Rrd) (rra : Rra) : ℕ := rrd.pdpStep * rra.rraDef.pdpCnt

end Rrdtool
