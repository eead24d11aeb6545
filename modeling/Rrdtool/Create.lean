import Rrdtool.Format

/-!
# A new database

Port of the initialisation in `src/rrd_create.c` (`reset_pdp_prep`, `init_cdp`, `rrd_init_data`),
`src/rrd_hw.c` (`init_hwpredict_cdp`, `init_seasonal_cdp`) and `rrd_select_initial_row` of
`src/rrd_open.c`, for a file created without source files. What the definitions of a new file
satisfy is carried by `Header`; the initial row of each archive is random and is a parameter.
-/

namespace Rrdtool

/-- The consolidation functions that consolidate: `AVERAGE`, `MIN`, `MAX` and `LAST`. -/
@[grind] def Cf.isPlain : Cf → Bool
  | .average | .minimum | .maximum | .last => true
  | _ => false

/-- What `rrd_create` demands of an archive. -/
structure RraDef.Valid (rra : RraDef) : Prop where
  rowCnt_pos : 0 < rra.rowCnt
  pdpCnt_pos : 0 < rra.pdpCnt
  pdpCnt_lt : rra.pdpCnt < 2 ^ 64
  xff : rra.cf.isPlain → ∃ q : ℚ, rra.xff = .fin q ∧ 0 ≤ q ∧ q < 1

/-- The definition of an archive with a plain consolidation function; the other parameters are
zero. -/
def plainRra (cf : Cf) (rowCnt pdpCnt : ℕ) (xff : ℚ) : RraDef where
  cf := cf
  rowCnt := rowCnt
  pdpCnt := pdpCnt
  xff := .fin xff
  hwAlpha := .fin 0
  hwBeta := .fin 0
  dependentRraIdx := 0
  seasonalGamma := .fin 0
  smoothingWindow := .fin 0
  seasonalSmoothIdx := 0
  deltaPos := .fin 0
  deltaNeg := .fin 0
  windowLen := 0
  failureThreshold := 0

/-- The definitions of a new file. -/
structure Header where
  version : ℕ
  pdpStep : ℕ
  lastUp : ℕ
  ds : List DsDef
  rra : List RraDef
  pdpStep_pos : 0 < pdpStep
  lastUp_lt : lastUp < 2 ^ 63
  valid : ∀ r ∈ rra, r.Valid

lemma tenSeconds_pos : 0 < 10 := by decide

lemma fiveMinutes_pos : 0 < 300 := by decide

lemma thousand_lt : 1000 < 2 ^ 63 := by norm_num

/-- A `GAUGE` data source without limits. -/
def gaugeDs (dsNam : Text) (mrhbCnt : ℕ) : DsDef where
  dsNam := dsNam
  dst := .gauge
  mrhbCnt := mrhbCnt
  minVal := .nan
  maxVal := .nan
  cdef := []

/-- One `GAUGE` and an archive of two steps to the row. -/
def gaugeHeader (pdpStep mrhbCnt : ℕ) (pos : 0 < pdpStep) : Header where
  version := 3
  pdpStep := pdpStep
  lastUp := 1000
  ds := [gaugeDs ['a'] mrhbCnt]
  rra := [plainRra .average 5 2 (1 / 2)]
  pdpStep_pos := pos
  lastUp_lt := by norm_num
  valid r hr := by
    rw [List.mem_singleton.1 hr]
    exact ⟨by decide, by decide, by decide, fun _ => ⟨1 / 2, rfl, by norm_num, by norm_num⟩⟩

/-- `reset_pdp_prep`, for one data source. -/
def resetPdpPrep (lastUp pdpStep : ℕ) : PdpPrep where
  lastDs := ['U']
  unknSecCnt := lastUp % pdpStep
  val := .nan

/-- `init_hwpredict_cdp`. -/
def initHwpredictCdp (c : CdpPrep) : CdpPrep :=
  { c with
    hwIntercept := .nan, hwLastIntercept := .nan, hwSlope := .nan, hwLastSlope := .nan
    nullCount := 1, lastNullCount := 1 }

/-- `init_seasonal_cdp`. -/
@[grind] def initSeasonalCdp (c : CdpPrep) : CdpPrep :=
  { c with hwIntercept := .nan, hwLastIntercept := .nan, nullCount := 1 }

/-- `init_cdp`, on a zeroed area. -/
@[grind] def initCdp (lastUp pdpStep : ℕ) (rra : RraDef) (p : PdpPrep) : CdpPrep :=
  match rra.cf with
  | .hwpredict | .mhwpredict => initHwpredictCdp .zero
  | .seasonal | .devseasonal => initSeasonalCdp .zero
  | .failures => .zero
  | _ =>
    { CdpPrep.zero with
      val := .nan
      unknPdpCnt := ((lastUp - p.unknSecCnt) % (pdpStep * rra.pdpCnt)) / pdpStep }

/-- An archive of a new file: every row is unknown. `random` is the result of `rrd_random`. -/
@[grind] def initRra (h : Header) (rra : RraDef) (random : ℕ) : Rra where
  rraDef := rra
  cdpPrep :=
    List.replicate h.ds.length (initCdp h.lastUp h.pdpStep rra (resetPdpPrep h.lastUp h.pdpStep))
  ring := ⟨random % rra.rowCnt, fun _ => List.replicate h.ds.length .nan⟩

/-- `rrd_init_data`. -/
@[grind] def rrdInitData (h : Header) (random : ℕ → ℕ) : Rrd where
  version := h.version
  pdpStep := h.pdpStep
  lastUp := h.lastUp
  lastUpUsec := 0
  ds := h.ds.map fun d => ⟨d, resetPdpPrep h.lastUp h.pdpStep⟩
  rra := h.rra.mapIdx fun i rra => initRra h rra (random i)

/-- The steps of the open group that are over when the file is created count as unknown. -/
lemma initCdp_unknPdpCnt {lastUp pdpStep rra} (hcf : rra.cf.isPlain) (pos : 0 < pdpStep) :
    (initCdp lastUp pdpStep rra (resetPdpPrep lastUp pdpStep)).unknPdpCnt =
      lastUp / pdpStep % rra.pdpCnt := by
  have counted : (lastUp - lastUp % pdpStep) % (pdpStep * rra.pdpCnt) / pdpStep =
      lastUp / pdpStep % rra.pdpCnt := by
    have hdiv : lastUp - lastUp % pdpStep = pdpStep * (lastUp / pdpStep) := by
      have := Nat.div_add_mod lastUp pdpStep
      omega
    rw [hdiv, Nat.mul_mod_mul_left, Nat.mul_div_cancel_left _ pos]
  unfold initCdp
  split
  all_goals first | exact counted | simp_all [Cf.isPlain]

end Rrdtool
