import Mathlib.Data.List.DropRight
import Rrdtool.Graph.Vdef

/-!
# The column of a variable

The loops of `vdef_calc` and `print_calc` over data that are all there: they are folds over the values of the column, row
by row.
-/

namespace Rrdtool

open Checked

/-- The data have a cell for each row and column of the window. -/
structure VarData.Filled (v : VarData) : Prop where
  step_pos : 0 < v.step
  start_le : v.start ≤ v.endTime
  ds_nonneg : 0 ≤ v.ds
  ds_lt : v.ds < v.dsCnt
  length_le : v.rowCnt * v.dsCnt ≤ v.data.length

instance VarData.decidableFilled (v : VarData) : Decidable v.Filled :=
  decidable_of_iff (0 < v.step ∧ v.start ≤ v.endTime ∧ 0 ≤ v.ds ∧ v.ds < v.dsCnt ∧ v.rowCnt * v.dsCnt ≤ v.data.length)
    ⟨fun ⟨h₁, h₂, h₃, h₄, h₅⟩ => ⟨h₁, h₂, h₃, h₄, h₅⟩, fun ⟨h₁, h₂, h₃, h₄, h₅⟩ => ⟨h₁, h₂, h₃, h₄, h₅⟩⟩

/-- The values of the column. -/
@[grind] def VarData.column (v : VarData) : List RrdValue := (List.range v.rowCnt).map v.row

section Column

variable {v : VarData} {α : Type}

lemma VarData.length_column (v : VarData) : v.column.length = v.rowCnt := by
  rw [VarData.column, List.length_map, List.length_range]

lemma steps_eq_foldl {n : ℕ} {f : ℕ → α → Reads α} {g : α → ℕ → α} (h : ∀ k < n, ∀ a, f k a = .ok (g a k)) (init : α) :
    steps f n init = .ok ((List.range n).foldl g init) := by
  induction n with
  | zero => rfl
  | succ n ih =>
    rw [steps, ih fun k hk => h k (Nat.lt_succ_of_lt hk), ok_bind, h n (Nat.lt_succ_self n), List.range_succ,
      List.foldl_append]
    rfl

lemma VarData.Filled.vdefData (h : v.Filled) {r : ℕ} (hr : r < v.rowCnt) : vdefData v.read v r = .ok (v.row r) := by
  rw [Rrdtool.vdefData, add_comm]
  exact VarData.read_row h.ds_nonneg h.ds_lt h.length_le hr

/-- A loop over all rows, with their numbers. -/
lemma VarData.Filled.vdefFold (h : v.Filled) (f : α → ℕ → RrdValue → α) (init : α) :
    vdefFold v.read v f init = .ok ((List.range v.rowCnt).foldl (fun acc r => f acc r (v.row r)) init) := by
  apply steps_eq_foldl
  intro r hr acc
  rw [h.vdefData hr, ok_bind]

/-- A loop over all rows. -/
lemma VarData.Filled.vdefFold_column (h : v.Filled) (f : α → RrdValue → α) (init : α) :
    Rrdtool.vdefFold v.read v (fun acc _ x => f acc x) init = .ok (v.column.foldl f init) := by
  rw [h.vdefFold, VarData.column, List.foldl_map]

lemma VarData.getElem?_column {r : ℕ} (hr : r < v.rowCnt) : v.column[r]? = some (v.row r) := by
  rw [VarData.column, List.getElem?_map, List.getElem?_range hr, Option.map_some]

lemma VarData.drop_column {r : ℕ} (hr : r < v.rowCnt) : v.column.drop r = v.row r :: v.column.drop (r + 1) := by
  have hlt : r < v.column.length := by rwa [v.length_column]
  rw [List.drop_eq_getElem_cons hlt, (List.getElem_eq_iff hlt).2 (VarData.getElem?_column hr)]

lemma VarData.drop_column_eq {k : ℕ} (hk : k ≤ v.rowCnt) :
    v.column.drop k = (List.range (v.rowCnt - k)).map fun i => v.row (k + i) := by
  obtain ⟨n, hn⟩ := Nat.exists_eq_add_of_le hk
  rw [VarData.column, hn, Nat.add_sub_cancel_left, List.range_add, List.map_append,
    List.drop_left' (by rw [List.length_map, List.length_range]), List.map_map]
  rfl

/-- The rows without a value that a loop goes over from some row on. -/
lemma VarData.Filled.skipUnknown (h : v.Filled) {rest step : ℕ} (hrest : step + rest = v.rowCnt) :
    Rrdtool.skipUnknown v.read v rest step = .ok (step + ((v.column.drop step).takeWhile ExtNum.isnan).length) := by
  induction rest generalizing step with
  | zero =>
    rw [Rrdtool.skipUnknown, List.drop_of_length_le (by rw [v.length_column]; omega)]
    rfl
  | succ rest ih =>
    rw [Rrdtool.skipUnknown, h.vdefData (by omega), ok_bind, VarData.drop_column (by omega), List.takeWhile_cons]
    split
    · rw [ih (by omega), List.length_cons]
      congr 1
      omega
    · rfl

/-- The greatest or smallest value as the loops of `VDEF_MAXIMUM` and `VDEF_MINIMUM` find it. -/
@[grind] def extremum (better : RrdValue → RrdValue → Bool) (xs : List RrdValue) : RrdValue :=
  let known := xs.dropWhile ExtNum.isnan
  known.foldl (fun best x => if finite x && better x best then x else best) (known.headD .nan)

/-- The last value as the loop of `VDEF_LAST` finds it. -/
@[grind] def lastKnown (xs : List RrdValue) : RrdValue := (xs.rdropWhile ExtNum.isnan).getLastD .nan

/-- `VDEF_MAXIMUM` and `VDEF_MINIMUM`. -/
lemma VarData.Filled.vdefExtremum (h : v.Filled) (better : RrdValue → RrdValue → Bool) :
    (Rrdtool.vdefExtremum v.read v better).map VdefVal.val = .ok (extremum better v.column) := by
  have hskip := h.skipUnknown (Nat.zero_add v.rowCnt)
  rw [List.drop_zero, Nat.zero_add] at hskip
  have hknown : v.column.dropWhile ExtNum.isnan = v.column.drop (v.column.takeWhile ExtNum.isnan).length := by
    have hdrop := @List.drop_left _ (v.column.takeWhile ExtNum.isnan) (v.column.dropWhile ExtNum.isnan)
    rw [List.takeWhile_append_dropWhile] at hdrop
    exact hdrop.symm
  have hle : (v.column.takeWhile ExtNum.isnan).length ≤ v.rowCnt := by
    rw [← v.length_column]
    exact (List.takeWhile_prefix _).length_le
  rw [extremum, hknown]
  generalize (v.column.takeWhile ExtNum.isnan).length = k at hskip hle ⊢
  obtain ⟨best, hbest, hval⟩ : ∃ best, vdefRow v.read v (k ≠ v.rowCnt) k (vdefWhen v k) = .ok best ∧
      best.val = (v.column.drop k).headD .nan := by
    rw [vdefRow]
    obtain hlt | rfl := hle.lt_or_eq
    · rw [if_pos (decide_eq_true hlt.ne), h.vdefData hlt, ok_bind, VarData.drop_column hlt]
      exact ⟨_, rfl, rfl⟩
    · rw [if_neg (by simp), List.drop_of_length_le v.length_column.le]
      exact ⟨_, rfl, rfl⟩
  rw [Rrdtool.vdefExtremum, hskip, ok_bind, hbest, ok_bind, steps_eq_foldl (g := fun best i =>
    if finite (v.row (k + i)) && better (v.row (k + i)) best.val then ⟨v.row (k + i), vdefWhen v (k + i), false⟩ else best)]
  · rw [← hval, VarData.drop_column_eq hle, List.foldl_map]
    refine congrArg Except.ok (List.foldl_hom VdefVal.val fun best i => ?_).symm
    split <;> rfl
  · intro i hi best
    rw [h.vdefData (by omega), ok_bind]

lemma VarData.take_column {r : ℕ} (hr : r < v.rowCnt) : v.column.take (r + 1) = v.column.take r ++ [v.row r] := by
  rw [List.take_add_one, VarData.getElem?_column hr, Option.toList_some]

/-- The rows without a value at the end. -/
lemma VarData.Filled.skipUnknownBack (h : v.Filled) {n : ℕ} (hle : n ≤ v.rowCnt) :
    Rrdtool.skipUnknownBack v.read v n = .ok ((v.column.take n).rdropWhile ExtNum.isnan).length := by
  induction n with
  | zero => rfl
  | succ n ih =>
    rw [Rrdtool.skipUnknownBack, h.vdefData hle, ok_bind, VarData.take_column hle, List.rdropWhile_concat]
    split
    · exact ih (Nat.le_of_succ_le hle)
    · rw [List.length_append, List.length_take, v.length_column, min_eq_left (Nat.le_of_succ_le hle)]
      rfl

/-- `VDEF_LAST`. -/
lemma VarData.Filled.vdefLast (h : v.Filled) : (Rrdtool.vdefLast v.read v).map VdefVal.val = .ok (lastKnown v.column) := by
  have hskip := h.skipUnknownBack le_rfl
  rw [← v.length_column, List.take_length] at hskip
  have hprefix := List.rdropWhile_prefix ExtNum.isnan (l := v.column)
  rw [Rrdtool.vdefLast, ← v.length_column, hskip, ok_bind, vdefRow, lastKnown]
  generalize v.column.rdropWhile ExtNum.isnan = known at hprefix ⊢
  by_cases hnil : known = []
  · subst hnil
    rfl
  · have hpos := List.length_pos_iff.2 hnil
    have hle := hprefix.length_le
    rw [v.length_column] at hle
    have hlast : known.getLast? = some (v.row (known.length - 1)) := by
      rw [List.getLast?_eq_getElem?, ← VarData.getElem?_column (by omega)]
      obtain ⟨rest, hrest⟩ := hprefix
      rw [← hrest, List.getElem?_append_left (by omega)]
    rw [if_pos (decide_eq_true hpos.ne'), h.vdefData (by omega), ok_bind, List.getLastD_eq_getLast?, hlast]
    rfl

/-! ### `print_calc` -/

/-- The number of rows that `print_calc` goes over, up to `max_ii`. -/
def VarData.printRows (v : VarData) : ℕ := ((maxIi v - v.ds + v.dsCnt - 1) / v.dsCnt).toNat

/-- `printval` for a list of values. -/
@[grind] def printOf (cf : Cf) (xs : List RrdValue) : RrdValue :=
  let (printval, validsteps) := xs.foldl (printStep (reduceKind cf)) (.nan, 0)
  if (cf = .average ∨ Cf.last.code < cf.code) ∧ 1 < validsteps then printval / .fin validsteps else printval

lemma VarData.lt_printRows_iff (hcnt : 0 < v.dsCnt) {r : ℕ} : r < v.printRows ↔ v.ds + r * v.dsCnt < maxIi v := by
  have hpos : (0 : ℤ) < v.dsCnt := by exact_mod_cast hcnt
  have hrow : ((r + 1 : ℕ) : ℤ) ≤ (maxIi v - v.ds + v.dsCnt - 1) / v.dsCnt ↔
      ((r + 1 : ℕ) : ℤ) * v.dsCnt ≤ maxIi v - v.ds + v.dsCnt - 1 := Int.le_ediv_iff_mul_le hpos
  push_cast at hrow
  rw [add_mul, one_mul] at hrow
  rw [VarData.printRows]
  omega

lemma VarData.Filled.rows_eq (h : v.Filled) : (v.endTime - v.start) / v.step = v.rowCnt := by
  rw [VarData.rowCnt, Int.toNat_of_nonneg (Int.ediv_nonneg (sub_nonneg.2 h.start_le) (Int.natCast_nonneg _))]

lemma VarData.Filled.dsCnt_pos (h : v.Filled) : 0 < v.dsCnt := by
  have hnonneg := h.ds_nonneg
  have hlt := h.ds_lt
  omega

lemma VarData.Filled.printRows_le (h : v.Filled) : v.printRows ≤ v.rowCnt := by
  by_contra hlt
  have hlast := (VarData.lt_printRows_iff h.dsCnt_pos).1 (not_le.1 hlt)
  have hmax : maxIi v ≤ v.rowCnt * v.dsCnt := by
    rw [maxIi, h.rows_eq]
    exact s32_le (by positivity)
  have hnonneg := h.ds_nonneg
  omega

/-- All rows, when their cells can be counted in an `int`. -/
lemma VarData.Filled.printRows_eq (h : v.Filled) (hcells : v.rowCnt * v.dsCnt < 2 ^ 31) : v.printRows = v.rowCnt := by
  have hmax : maxIi v = v.rowCnt * v.dsCnt := by
    rw [maxIi, h.rows_eq]
    exact s32_of_lt (by positivity) (by exact_mod_cast hcells)
  apply le_antisymm h.printRows_le
  by_contra hlt
  have hnot := mt (VarData.lt_printRows_iff h.dsCnt_pos).2 (lt_irrefl v.printRows)
  have hcell := Int.mul_le_mul_of_nonneg_right (show (v.printRows + 1 : ℤ) ≤ v.rowCnt by omega)
    (Int.natCast_nonneg v.dsCnt)
  have hds := h.ds_lt
  rw [hmax] at hnot
  rw [add_mul, one_mul] at hcell
  omega

lemma VarData.Filled.printLoop (h : v.Filled) (kind : ReduceKind) {fuel r : ℕ} (acc : RrdValue × ℕ)
    (hfuel : maxIi v - (v.ds + r * v.dsCnt) ≤ fuel) :
    Rrdtool.printLoop v.read v kind fuel (v.ds + r * v.dsCnt) acc =
      .ok (((v.column.take v.printRows).drop r).foldl (printStep kind) acc) := by
  have hend : ∀ r, ¬ r < v.printRows → (v.column.take v.printRows).drop r = [] := fun r hr =>
    List.drop_of_length_le ((List.length_take_le _ _).trans (not_lt.1 hr))
  induction fuel generalizing r acc with
  | zero =>
    rw [Rrdtool.printLoop, hend r fun hr => ?_]
    · rfl
    · have hlt := (VarData.lt_printRows_iff h.dsCnt_pos).1 hr
      omega
  | succ fuel ih =>
    have hcnt := h.dsCnt_pos
    rw [Rrdtool.printLoop]
    split
    · rename_i hlt
      have hr := (VarData.lt_printRows_iff hcnt).2 hlt
      have hrow : r < v.rowCnt := hr.trans_le h.printRows_le
      have hnext : v.ds + r * v.dsCnt + v.dsCnt = v.ds + ((r + 1 : ℕ) : ℤ) * v.dsCnt := by
        push_cast
        ring
      have hdrop : (v.column.take v.printRows).drop r = v.row r :: (v.column.take v.printRows).drop (r + 1) := by
        have hlen : r < (v.column.take v.printRows).length := by
          rw [List.length_take, v.length_column]
          exact lt_min hr hrow
        rw [List.drop_eq_getElem_cons hlen, List.getElem_take, (List.getElem_eq_iff _).2 (VarData.getElem?_column hrow)]
      rw [show v.read (v.ds + r * v.dsCnt) = .ok (v.row r) from h.vdefData hrow, ok_bind, hnext, ih _ (by rw [← hnext]; omega),
        hdrop]
      rfl
    · rename_i hge
      rw [hend r fun hr => hge ((VarData.lt_printRows_iff hcnt).1 hr)]
      rfl

/-- `print_calc` goes over the first rows. -/
lemma VarData.Filled.printCalc (h : v.Filled) (cf : Cf) :
    Rrdtool.printCalc v.read v cf = .ok (printOf cf (v.column.take v.printRows)) := by
  have hloop := @VarData.Filled.printLoop v h (reduceKind cf) (maxIi v - v.ds).toNat 0 (.nan, 0)
    (by rw [Nat.cast_zero, zero_mul, add_zero]; omega)
  rw [Nat.cast_zero, zero_mul, add_zero, List.drop_zero] at hloop
  rw [Rrdtool.printCalc, if_neg h.step_pos.ne', hloop, ok_bind]
  rfl

end Column

end Rrdtool
