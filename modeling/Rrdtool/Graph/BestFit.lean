import Rrdtool.Graph.Column
import Rrdtool.Lib.LeastSquares

/-!
# The line of `LSLSLOPE` and `LSLINT`

`vdef_calc` (`src/rrd_graph.c`) fits a line to the finite values of a column, with the number of the row as the place. The
sums that it keeps are those of the method of least squares (`LslSums.ofPoints_add`).
-/

namespace Rrdtool

open Checked LeastSquares

/-- The row and the value of each finite value. -/
@[grind] def VarData.pointAt (v : VarData) (r : ℕ) : Option (ℚ × ℚ) :=
  match v.row r with
  | .fin y => some (r, y)
  | _ => none

/-- The finite values of the column. -/
@[grind] def VarData.points (v : VarData) : List (ℚ × ℚ) := (List.range v.rowCnt).filterMap v.pointAt

/-- The sums for some points. -/
@[grind] def LslSums.ofPoints (ps : List (ℚ × ℚ)) : LslSums where
  cnt := ps.length
  sumX := .fin (total (fun x _ => x) ps)
  sumY := .fin (total (fun _ y => y) ps)
  sumXY := .fin (total (fun x y => x * y) ps)
  sumXX := .fin (total (fun x _ => x * x) ps)
  sumYY := .fin (total (fun _ y => y * y) ps)

section Sums

variable {v : VarData} {ps : List (ℚ × ℚ)}

lemma LslSums.ofPoints_add (ps : List (ℚ × ℚ)) (r : ℕ) (y : ℚ) :
    (ofPoints ps).add r (.fin y) = ofPoints (ps ++ [((r : ℚ), y)]) := by
  simp only [add, ofPoints, total_append, total_cons, total_nil, add_zero, List.length_append, List.length_singleton,
    ExtNum.fin_add_fin, ExtNum.fin_mul_fin]

/-- One more row. -/
lemma LslSums.ofPoints_row (ps : List (ℚ × ℚ)) (r : ℕ) :
    (if finite (v.row r) then (ofPoints ps).add r (v.row r) else ofPoints ps) = ofPoints (ps ++ (v.pointAt r).toList) := by
  rw [VarData.pointAt]
  cases v.row r with
  | fin y => exact ofPoints_add ps r y
  | nan | pinf | ninf => rw [if_neg (by decide), Option.toList_none, List.append_nil]

/-- The sums of all rows are those of the points. -/
lemma VarData.Filled.lslSums (h : v.Filled) :
    Rrdtool.vdefFold v.read v (fun (s : LslSums) step x => if finite x then s.add step x else s) ⟨0, 0, 0, 0, 0, 0⟩ =
      .ok (.ofPoints v.points) := by
  have hrows : ∀ n, (List.range n).foldl (fun (s : LslSums) r => if finite (v.row r) then s.add r (v.row r) else s)
      ⟨0, 0, 0, 0, 0, 0⟩ = .ofPoints ((List.range n).filterMap v.pointAt) := by
    intro n
    induction n with
    | zero => rfl
    | succ n ih =>
      rw [List.range_succ, List.foldl_append, ih, List.filterMap_append]
      exact LslSums.ofPoints_row _ n
  rw [h.vdefFold, hrows]
  rfl

lemma VarData.fst_of_pointAt {r : ℕ} {p : ℚ × ℚ} (h : v.pointAt r = some p) : p.1 = r := by
  unfold VarData.pointAt at h
  split at h
  · cases h
    rfl
  · cases h

/-- No two points are above each other. -/
lemma VarData.points_pairwise (v : VarData) : v.points.Pairwise fun p q => p.1 < q.1 := by
  apply List.Pairwise.filterMap v.pointAt _ List.pairwise_lt_range
  intro r r' hlt p hp q hq
  rw [fst_of_pointAt hp, fst_of_pointAt hq]
  exact_mod_cast hlt

lemma VarData.spread_points (h : 2 ≤ v.points.length) : 0 < LeastSquares.spread v.points := by
  have hpairwise := v.points_pairwise
  match hpoints : v.points with
  | [] =>
    rw [hpoints] at h
    exact absurd h (by decide)
  | [_] =>
    rw [hpoints, List.length_singleton] at h
    exact absurd h (by decide)
  | p :: q :: ps =>
    rw [hpoints] at hpairwise
    have hlt := List.rel_of_pairwise_cons hpairwise (List.mem_cons_self (a := q) (l := ps))
    exact spread_pos List.mem_cons_self (List.mem_cons_of_mem p List.mem_cons_self) hlt.ne

lemma LslSums.slope_ofPoints (h : LeastSquares.spread ps ≠ 0) : (ofPoints ps).slope = .fin (LeastSquares.slope ps) := by
  have hden : total (fun x _ => x) ps * total (fun x _ => x) ps - ps.length * total (fun x _ => x * x) ps ≠ 0 := by
    rwa [← neg_sub, neg_ne_zero, ← LeastSquares.spread]
  simp only [LslSums.slope, ofPoints, ExtNum.fin_mul_fin, ExtNum.fin_sub_fin, ExtNum.fin_div_fin hden]
  rfl

lemma LslSums.yIntercept_ofPoints (h : LeastSquares.spread ps ≠ 0) (hlen : (ps.length : ℚ) ≠ 0) :
    (ofPoints ps).yIntercept = .fin (intercept ps) := by
  rw [LslSums.yIntercept, slope_ofPoints h]
  simp only [ofPoints, ExtNum.fin_mul_fin, ExtNum.fin_sub_fin, ExtNum.fin_div_fin hlen]
  rfl

end Sums

/-- For two finite values or more, `LSLSLOPE` and `LSLINT` solve the normal equations, where the slope is a quotient by a
number that is not zero, and no line is closer to the values. -/
theorem vdefCalc_leastSquares (v : VarData) (m : Machine) (sort : List RrdValue → List RrdValue) (param : RrdValue)
    (h : v.Filled) (htwo : 2 ≤ v.points.length) :
    ∃ a b : ℚ, vdefCalc v.read v m sort .lslslope param = .ok (.timeless (.fin a)) ∧
      vdefCalc v.read v m sort .lslint param = .ok (.timeless (.fin b)) ∧
      total (residual a b) v.points = 0 ∧
      total (fun x y => x * residual a b x y) v.points = 0 ∧
      total (fun x _ => x) v.points * total (fun x _ => x) v.points -
        v.points.length * total (fun x _ => x * x) v.points ≠ 0 ∧
      ∀ a' b' : ℚ,
        total (fun x y => residual a b x y ^ 2) v.points ≤ total (fun x y => residual a' b' x y ^ 2) v.points := by
  have hspread : LeastSquares.spread v.points ≠ 0 := (VarData.spread_points htwo).ne'
  have hlen : (v.points.length : ℚ) ≠ 0 := Nat.cast_ne_zero.2 (by omega)
  have hcnt : (LslSums.ofPoints v.points).cnt ≠ 0 := by
    show v.points.length ≠ 0
    omega
  have hlsl : ∀ f, vdefLsl v.read v f = .ok (.timeless (f (.ofPoints v.points))) := fun f => by
    rw [vdefLsl, h.lslSums, ok_bind, if_neg hcnt]
  refine ⟨slope v.points, intercept v.points, ?_, ?_, residuals_sum hlen, residuals_moment hlen hspread, ?_,
    slope_intercept_least hlen hspread⟩
  · rw [vdefCalc, if_neg h.step_pos.ne', hlsl, LslSums.slope_ofPoints hspread]
  · rw [vdefCalc, if_neg h.step_pos.ne', hlsl, LslSums.yIntercept_ofPoints hspread hlen]
  · rwa [← neg_sub, neg_ne_zero, ← LeastSquares.spread]

/-- The values 1, unknown, 5 and infinity in the second of two columns. -/
def gappedColumn : VarData :=
  ⟨0, 1200, 300, 1, 2, [.nan, .fin 1, .nan, .nan, .fin 7, .fin 5, .nan, .pinf]⟩

/-- The line through two points with a gap between them. -/
theorem vdefCalc_leastSquares_gap : ∃ a b : ℚ, vdefCalc gappedColumn.read gappedColumn bareMachine id .lslslope .nan =
    .ok (.timeless (.fin a)) ∧ vdefCalc gappedColumn.read gappedColumn bareMachine id .lslint .nan =
    .ok (.timeless (.fin b)) ∧ total (residual a b) gappedColumn.points = 0 := by
  obtain ⟨a, b, hslope, hint, hsum, -⟩ := vdefCalc_leastSquares gappedColumn bareMachine id .nan (by decide)
    (by decide)
  exact ⟨a, b, hslope, hint, hsum⟩

end Rrdtool
