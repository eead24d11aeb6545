import Rrdtool.Graph.DataFetch
import Rrdtool.Graph.Variable
import Rrdtool.Rpn.Calc

/-!
# The values of `VDEF` and `PRINT`

Port of `vdef_calc` and of the part of `print_calc` that consolidates a variable (`src/rrd_graph.c`). Both go through the
column of a variable. How a value of the data is read is an argument, so that the same program runs on the array, where
each index is checked, or with the reads watched.
-/

namespace Rrdtool

open Checked

/-- The functions of a `VDEF` (C `enum vdef_op_en`). -/
inductive VdefOp where
  | maximum
  | minimum
  | average
  | stdev
  | percent
  | total
  | first
  | last
  | lslslope
  | lslint
  | lslcorrel
  | percentnan
deriving DecidableEq

/-- The result of a `VDEF` (C `vdef_t`). -/
structure VdefVal where
  val : RrdValue
  when : ℤ
  never : Bool
deriving DecidableEq

/-- A value without a time. -/
def VdefVal.timeless (val : RrdValue) : VdefVal := ⟨val, 0, true⟩

/-- `finite`. -/
@[grind] def finite (x : RrdValue) : Bool := !x.isnan && !x.isinf

/-! ### `vdef_calc` -/

section Vdef

variable (read : ℤ → Reads RrdValue) (v : VarData)

/-- `data[step * src->ds_cnt]`. -/
@[grind] def vdefData (step : ℕ) : Reads RrdValue := read (v.ds + step * v.dsCnt)

/-- A loop over all rows. -/
@[grind] def vdefFold {α : Type} (f : α → ℕ → RrdValue → α) (init : α) : Reads α :=
  steps (fun step acc => do
    let x ← vdefData read v step
    .ok (f acc step x)) v.rowCnt init

/-- `while (step != steps && isnan(data[step * src->ds_cnt])) step++`, with the number of rows that are left. -/
@[grind] def skipUnknown : ℕ → ℕ → Reads ℕ
  | 0, step => .ok step
  | rest + 1, step => do
    let x ← vdefData read v step
    if x.isnan then skipUnknown rest (step + 1) else .ok step

/-- `while (step >= 0 && isnan(data[step * src->ds_cnt])) step--` from the row below `n`, with the row above the result. -/
@[grind] def skipUnknownBack : ℕ → Reads ℕ
  | 0 => .ok 0
  | n + 1 => do
    let x ← vdefData read v n
    if x.isnan then skipUnknownBack n else .ok (n + 1)

/-- The value of a row, with the time `when`. `nan` when there is no such row. -/
@[grind] def vdefRow (there : Bool) (step : ℕ) (when : ℤ) : Reads VdefVal :=
  if there then do
    let x ← vdefData read v step
    .ok ⟨x, when, false⟩
  else .ok (.timeless .nan)

/-- The end of a row. -/
def vdefWhen (step : ℕ) : ℤ := v.start + (step + 1) * v.step

/-- `VDEF_MAXIMUM` and `VDEF_MINIMUM`. -/
@[grind] def vdefExtremum (better : RrdValue → RrdValue → Bool) : Reads VdefVal := do
  let step ← skipUnknown read v v.rowCnt 0
  let best ← vdefRow read v (step ≠ v.rowCnt) step (vdefWhen v step)
  steps (fun i best => do
    let x ← vdefData read v (step + i)
    .ok (if finite x && better x best.val then ⟨x, vdefWhen v (step + i), false⟩ else best)) (v.rowCnt - step) best

/-- `VDEF_FIRST`, with the start of the row. -/
@[grind] def vdefFirst : Reads VdefVal := do
  let step ← skipUnknown read v v.rowCnt 0
  vdefRow read v (step ≠ v.rowCnt) step (v.start + step * v.step)

/-- `VDEF_LAST`. -/
@[grind] def vdefLast : Reads VdefVal := do
  let next ← skipUnknownBack read v v.rowCnt
  vdefRow read v (next ≠ 0) (next - 1) (vdefWhen v (next - 1))

/-- The count and the sum of the finite values. -/
@[grind] def vdefSum : Reads (ℕ × RrdValue) :=
  vdefFold read v (fun acc _ x => if finite x then (acc.1 + 1, acc.2 + x) else acc) (0, 0)

/-- `VDEF_TOTAL` and `VDEF_AVERAGE`. -/
@[grind] def vdefMean (f : ℕ → RrdValue → RrdValue) : Reads VdefVal := do
  let (cnt, sum) ← vdefSum read v
  .ok (.timeless (if cnt = 0 then .nan else f cnt sum))

/-- `VDEF_STDEV`. -/
def vdefStdev (m : Machine) : Reads VdefVal := do
  let (cnt, sum) ← vdefSum read v
  if cnt = 0 then .ok (.timeless .nan)
  else do
    let average := sum / .fin cnt
    let sum ← vdefFold read v (fun sum _ x => if finite x then sum + m.pow (x - average) (.fin 2) else sum) 0
    .ok (.timeless (m.pow (sum / .fin cnt) (.fin (1 / 2))))

/-- The sums of the method of least squares. -/
structure LslSums where
  cnt : ℕ
  sumX : RrdValue
  sumY : RrdValue
  sumXY : RrdValue
  sumXX : RrdValue
  sumYY : RrdValue

/-- One more finite value. -/
@[grind] def LslSums.add (s : LslSums) (step : ℕ) (x : RrdValue) : LslSums where
  cnt := s.cnt + 1
  sumX := s.sumX + .fin step
  sumY := s.sumY + x
  sumXY := s.sumXY + .fin step * x
  sumXX := s.sumXX + .fin (step * step)
  sumYY := s.sumYY + x * x

@[grind] def LslSums.slope (s : LslSums) : RrdValue :=
  (s.sumX * s.sumY - .fin s.cnt * s.sumXY) / (s.sumX * s.sumX - .fin s.cnt * s.sumXX)

def LslSums.yIntercept (s : LslSums) : RrdValue := (s.sumY - s.slope * s.sumX) / .fin s.cnt

def LslSums.correl (m : Machine) (s : LslSums) : RrdValue :=
  (s.sumXY - s.sumX * s.sumY / .fin s.cnt) /
    m.sqrt ((s.sumXX - s.sumX * s.sumX / .fin s.cnt) * (s.sumYY - s.sumY * s.sumY / .fin s.cnt))

/-- `VDEF_LSLSLOPE`, `VDEF_LSLINT` and `VDEF_LSLCORREL`. -/
@[grind] def vdefLsl (f : LslSums → RrdValue) : Reads VdefVal := do
  let s ← vdefFold read v (fun s step x => if finite x then s.add step x else s) ⟨0, 0, 0, 0, 0, 0⟩
  .ok (.timeless (if s.cnt = 0 then .nan else f s))

/-- The element for a percentage of the `n` values that are sorted. -/
@[grind] def vdefField (m : Machine) (param : RrdValue) (n : ℕ) (array : List RrdValue) : Reads VdefVal :=
  let field := toInt m (onFinite roundAway (param * .fin (n - 1) / .fin 100))
  if 0 ≤ field ∧ field < n then .ok (.timeless (array.getD field.toNat .nan)) else .error (.fault (.array field))

/-- `VDEF_PERCENT` and `VDEF_PERCENTNAN`, for the values to keep. -/
@[grind] def vdefPercent (m : Machine) (sort : List RrdValue → List RrdValue) (param : RrdValue) (keep : RrdValue → Bool) :
    Reads VdefVal := do
  let array ← vdefFold read v (fun array _ x => if keep x then array ++ [x] else array) []
  vdefField m param array.length (sort array)

/-- `vdef_calc`, with `qsort` as `sort`. -/
@[grind] def vdefCalc (m : Machine) (sort : List RrdValue → List RrdValue) (op : VdefOp) (param : RrdValue) : Reads VdefVal :=
  if v.step = 0 then .error (.fault .divisionByZero)
  else
    match op with
    | .percent => vdefPercent read v m sort param fun _ => true
    | .percentnan => vdefPercent read v m sort param fun x => !x.isnan
    | .maximum => vdefExtremum read v fun x best => best < x
    | .minimum => vdefExtremum read v fun x best => x < best
    | .total => vdefMean read v fun _ sum => sum * .fin v.step
    | .average => vdefMean read v fun cnt sum => sum / .fin cnt
    | .stdev => vdefStdev read v m
    | .first => vdefFirst read v
    | .last => vdefLast read v
    | .lslslope => vdefLsl read v LslSums.slope
    | .lslint => vdefLsl read v LslSums.yIntercept
    | .lslcorrel => vdefLsl read v (LslSums.correl m)

end Vdef

/-! ### `print_calc` -/

section Print

variable (read : ℤ → Reads RrdValue) (v : VarData)

/-- One value of a `PRINT`, with the number of valid steps. -/
def printStep (kind : ReduceKind) (acc : RrdValue × ℕ) (x : RrdValue) : RrdValue × ℕ :=
  if finite x then
    if acc.1.isnan then (x, acc.2 + 1)
    else (addValue kind acc.1 x, if kind = .average then acc.2 + 1 else acc.2)
  else acc

/-- `max_ii`, an `int`. -/
@[grind] def maxIi : ℤ := s32 ((v.endTime - v.start) / v.step * v.dsCnt)

/-- The loop over the column; the index gets closer to `max_ii`. -/
@[grind] def printLoop (kind : ReduceKind) : ℕ → ℤ → RrdValue × ℕ → Reads (RrdValue × ℕ)
  | 0, _, acc => .ok acc
  | fuel + 1, ii, acc =>
    if ii < maxIi v then do
      let x ← read ii
      printLoop kind fuel (ii + v.dsCnt) (printStep kind acc x)
    else .ok acc

/-- `printval` of a `PRINT` or `GPRINT` of a variable. -/
@[grind] def printCalc (cf : Cf) : Reads RrdValue :=
  if v.step = 0 then .error (.fault .divisionByZero)
  else do
    let (printval, validsteps) ← printLoop read v (reduceKind cf) (maxIi v - v.ds).toNat v.ds (.nan, 0)
    .ok (if (cf = .average ∨ Cf.last.code < cf.code) ∧ 1 < validsteps then printval / .fin validsteps else printval)

end Print

/-! ### Columns that can be read -/

section ReadableColumn

variable {read : ℤ → Reads RrdValue} {v : VarData} {α : Type}

/-- Each row of the column can be read. -/
def ReadableColumn (read : ℤ → Reads RrdValue) (v : VarData) : Prop := ∀ r < v.rowCnt, ∃ x, vdefData read v r = .ok x

lemma exists_steps {n : ℕ} {f : ℕ → α → Reads α} (h : ∀ k < n, ∀ a, ∃ b, f k a = .ok b) (init : α) :
    ∃ b, steps f n init = .ok b := by
  induction n with
  | zero => exact ⟨init, rfl⟩
  | succ n ih =>
    obtain ⟨a, ha⟩ := ih fun k hk => h k (Nat.lt_succ_of_lt hk)
    obtain ⟨b, hb⟩ := h n (Nat.lt_succ_self n) a
    exact ⟨b, by rw [steps, ha, ok_bind, hb]⟩

lemma exists_vdefFold (h : ReadableColumn read v) (f : α → ℕ → RrdValue → α) (init : α) :
    ∃ acc, vdefFold read v f init = .ok acc := by
  refine exists_steps (fun r hr acc => ?_) init
  obtain ⟨x, hx⟩ := h r hr
  exact ⟨f acc r x, by rw [hx, ok_bind]⟩

lemma exists_skipUnknown (h : ReadableColumn read v) {rest step : ℕ} (hle : step + rest ≤ v.rowCnt) :
    ∃ next, skipUnknown read v rest step = .ok next ∧ next ≤ step + rest := by
  induction rest generalizing step with
  | zero => exact ⟨step, rfl, le_rfl⟩
  | succ rest ih =>
    obtain ⟨x, hx⟩ := h step (by omega)
    rw [skipUnknown, hx, ok_bind]
    split
    · obtain ⟨next, hnext, hbound⟩ := @ih (step + 1) (by omega)
      exact ⟨next, hnext, by omega⟩
    · exact ⟨step, rfl, by omega⟩

lemma exists_skipUnknownBack (h : ReadableColumn read v) {n : ℕ} (hle : n ≤ v.rowCnt) :
    ∃ next, skipUnknownBack read v n = .ok next ∧ next ≤ n := by
  induction n with
  | zero => exact ⟨0, rfl, le_rfl⟩
  | succ n ih =>
    obtain ⟨x, hx⟩ := h n (by omega)
    rw [skipUnknownBack, hx, ok_bind]
    split
    · obtain ⟨next, hnext, hbound⟩ := ih (by omega)
      exact ⟨next, hnext, by omega⟩
    · exact ⟨n + 1, rfl, le_rfl⟩

lemma exists_vdefRow (h : ReadableColumn read v) {there : Bool} {step : ℕ} (hthere : there = true → step < v.rowCnt) (when : ℤ) :
    ∃ val, vdefRow read v there step when = .ok val := by
  rw [vdefRow]
  split
  · rename_i hyes
    obtain ⟨x, hx⟩ := h step (hthere hyes)
    exact ⟨⟨x, when, false⟩, by rw [hx, ok_bind]⟩
  · exact ⟨_, rfl⟩

lemma exists_vdefExtremum (h : ReadableColumn read v) (better : RrdValue → RrdValue → Bool) :
    ∃ val, vdefExtremum read v better = .ok val := by
  obtain ⟨step, hstep, hle⟩ := exists_skipUnknown h (Nat.zero_add v.rowCnt).le
  rw [Nat.zero_add] at hle
  obtain ⟨best, hbest⟩ := @exists_vdefRow read v h (step ≠ v.rowCnt) step (fun hne => by
    have := of_decide_eq_true hne
    omega) (vdefWhen v step)
  rw [vdefExtremum, hstep, ok_bind, hbest, ok_bind]
  refine exists_steps (fun i hi best => ?_) best
  obtain ⟨x, hx⟩ := h (step + i) (by omega)
  exact ⟨_, by rw [hx, ok_bind]⟩

lemma exists_vdefFirst (h : ReadableColumn read v) : ∃ val, vdefFirst read v = .ok val := by
  obtain ⟨step, hstep, hle⟩ := exists_skipUnknown h (Nat.zero_add v.rowCnt).le
  rw [vdefFirst, hstep, ok_bind]
  refine exists_vdefRow h (fun hne => ?_) _
  have := of_decide_eq_true hne
  omega

lemma exists_vdefLast (h : ReadableColumn read v) : ∃ val, vdefLast read v = .ok val := by
  obtain ⟨next, hnext, hle⟩ := exists_skipUnknownBack h le_rfl
  rw [vdefLast, hnext, ok_bind]
  refine exists_vdefRow h (fun hne => ?_) _
  have := of_decide_eq_true hne
  omega

lemma exists_vdefMean (h : ReadableColumn read v) (f : ℕ → RrdValue → RrdValue) : ∃ val, vdefMean read v f = .ok val := by
  obtain ⟨acc, hacc⟩ := exists_vdefFold h (fun (acc : ℕ × RrdValue) _ x => if finite x then (acc.1 + 1, acc.2 + x) else acc)
    (0, 0)
  exact ⟨_, by rw [vdefMean, vdefSum, hacc, ok_bind]⟩

lemma exists_vdefStdev (h : ReadableColumn read v) (m : Machine) : ∃ val, vdefStdev read v m = .ok val := by
  obtain ⟨acc, hacc⟩ := exists_vdefFold h (fun (acc : ℕ × RrdValue) _ x => if finite x then (acc.1 + 1, acc.2 + x) else acc)
    (0, 0)
  obtain ⟨sum, hsum⟩ := exists_vdefFold h
    (fun sum _ x => if finite x then sum + m.pow (x - acc.2 / .fin acc.1) (.fin 2) else sum) 0
  rw [vdefStdev, vdefSum, hacc, ok_bind]
  dsimp only
  split
  · exact ⟨_, rfl⟩
  · exact ⟨_, by rw [hsum, ok_bind]⟩

lemma exists_vdefLsl (h : ReadableColumn read v) (f : LslSums → RrdValue) : ∃ val, vdefLsl read v f = .ok val := by
  obtain ⟨s, hs⟩ := exists_vdefFold h (fun (s : LslSums) step x => if finite x then s.add step x else s) ⟨0, 0, 0, 0, 0, 0⟩
  exact ⟨_, by rw [vdefLsl, hs, ok_bind]⟩

lemma vdefPercent_cases (h : ReadableColumn read v) (m : Machine) (sort : List RrdValue → List RrdValue) (param : RrdValue)
    (keep : RrdValue → Bool) :
    (∃ val, vdefPercent read v m sort param keep = .ok val) ∨
      ∃ i, vdefPercent read v m sort param keep = .error (.fault (.array i)) := by
  obtain ⟨array, harray⟩ := exists_vdefFold h (fun array _ x => if keep x then array ++ [x] else array) []
  rw [vdefPercent, harray, ok_bind, vdefField]
  split
  · exact .inl ⟨_, rfl⟩
  · exact .inr ⟨_, rfl⟩

/-- Nothing goes wrong in `vdef_calc` with the data. -/
lemma vdefCalc_cases (h : ReadableColumn read v) (hstep : v.step ≠ 0) (m : Machine) (sort : List RrdValue → List RrdValue)
    (op : VdefOp) (param : RrdValue) :
    (∃ val, vdefCalc read v m sort op param = .ok val) ∨
      ∃ i, vdefCalc read v m sort op param = .error (.fault (.array i)) := by
  unfold vdefCalc
  rw [if_neg hstep]
  cases op with
  | percent | percentnan => exact vdefPercent_cases h m sort param _
  | maximum | minimum => exact .inl (exists_vdefExtremum h _)
  | total | average => exact .inl (exists_vdefMean h _)
  | stdev => exact .inl (exists_vdefStdev h m)
  | first => exact .inl (exists_vdefFirst h)
  | last => exact .inl (exists_vdefLast h)
  | lslslope | lslint | lslcorrel => exact .inl (exists_vdefLsl h _)

lemma s32_le {z : ℤ} (h : 0 ≤ z) : s32 z ≤ z := by
  obtain hlt | hge := lt_or_ge z (2 ^ 31)
  · exact (s32_of_lt h hlt).le
  · exact (s32_lt z).le.trans hge

lemma exists_printLoop (h : ReadableColumn read v) (hds : 0 ≤ v.ds)
    (hmax : maxIi v ≤ v.rowCnt * v.dsCnt) (kind : ReduceKind) {fuel r : ℕ} (acc : RrdValue × ℕ) :
    ∃ acc', printLoop read v kind fuel (v.ds + r * v.dsCnt) acc = .ok acc' := by
  induction fuel generalizing r acc with
  | zero => exact ⟨acc, rfl⟩
  | succ fuel ih =>
    rw [printLoop]
    split
    · rename_i hlt
      have hcell : (r : ℤ) * v.dsCnt < v.rowCnt * v.dsCnt := by omega
      obtain ⟨x, hx⟩ := h r (by exact_mod_cast lt_of_mul_lt_mul_right hcell (Int.natCast_nonneg v.dsCnt))
      have hnext : v.ds + r * v.dsCnt + v.dsCnt = v.ds + ((r + 1 : ℕ) : ℤ) * v.dsCnt := by
        push_cast
        ring
      rw [show read (v.ds + r * v.dsCnt) = .ok x from hx, ok_bind, hnext]
      exact ih _
    · exact ⟨acc, rfl⟩

/-- Nothing goes wrong in `print_calc`. -/
lemma exists_printCalc (h : ReadableColumn read v) (hstep : v.step ≠ 0) (hle : v.start ≤ v.endTime)
    (hds : 0 ≤ v.ds) (cf : Cf) : ∃ x, printCalc read v cf = .ok x := by
  have hrows : (v.endTime - v.start) / v.step = v.rowCnt := by
    rw [VarData.rowCnt, Int.toNat_of_nonneg (Int.ediv_nonneg (by omega) (Int.natCast_nonneg _))]
  have hmax : maxIi v ≤ v.rowCnt * v.dsCnt := by
    rw [maxIi, hrows]
    exact s32_le (by positivity)
  obtain ⟨acc, hacc⟩ := @exists_printLoop read v h hds hmax (reduceKind cf) (maxIi v - v.ds).toNat 0 (.nan, 0)
  rw [Nat.cast_zero, zero_mul, add_zero] at hacc
  exact ⟨_, by rw [printCalc, if_neg hstep, hacc, ok_bind]⟩

end ReadableColumn

end Rrdtool
