import Rrdtool.Graph.Column

/-!
# `VDEF` and `PRINT`

`vdef_calc` and `print_calc` (`src/rrd_graph.c`) look for the greatest, the smallest, the last and the mean value of a column
with loops of their own. `print_calc` takes the finite values. `vdef_calc` begins with the first value that is known, also
when it is infinite, and takes the last one in the same way. `vdefCalc_agrees_iff` says when the results are the same.
-/

namespace Rrdtool

open Checked

/-- The finite values. -/
def finites (xs : List RrdValue) : List ℚ :=
  xs.filterMap fun
    | .fin x => some x
    | _ => none

/-- A number that there may not be. -/
@[grind] def ofOption : Option ℚ → RrdValue
  | some x => .fin x
  | none => .nan

/-- The mean of some numbers. -/
@[grind] def mean (qs : List ℚ) : Option ℚ := if qs = [] then none else some (qs.sum / qs.length)

section Lists

variable {xs ys : List RrdValue} {a : ℚ} {n : ℕ}

@[simp] lemma finites_nil : finites [] = [] := rfl

@[simp] lemma finites_fin (x : ℚ) (xs : List RrdValue) : finites (.fin x :: xs) = x :: finites xs := rfl

lemma finites_cons_of_not {x : RrdValue} (h : finite x = false) : finites (x :: xs) = finites xs := by
  cases x with
  | fin x => cases h
  | nan | pinf | ninf => rfl

lemma finites_append (xs ys : List RrdValue) : finites (xs ++ ys) = finites xs ++ finites ys :=
  List.filterMap_append

lemma not_isinf_ofOption (o : Option ℚ) : (ofOption o).isinf = false := by
  cases o <;> rfl

/-! ### `PRINT` -/

/-- One more number. -/
@[grind] def addNumber (kind : ReduceKind) (a x : ℚ) : ℚ :=
  match kind with
  | .average => a + x
  | .minimum => min a x
  | .maximum => max a x
  | .last => x

lemma addValue_fin (kind : ReduceKind) (a x : ℚ) : addValue kind (.fin a) (.fin x) = .fin (addNumber kind a x) := by
  cases kind with
  | average | last => rfl
  | minimum =>
    obtain hlt | hle := lt_or_ge a x
    · exact (if_pos ((ExtNum.fin_lt_fin a x).2 hlt)).trans (congrArg _ (min_eq_left hlt.le).symm)
    · exact (if_neg (mt (ExtNum.fin_lt_fin a x).1 (not_lt.2 hle))).trans (congrArg _ (min_eq_right hle).symm)
  | maximum =>
    obtain hlt | hle := lt_or_ge x a
    · exact (if_pos ((ExtNum.fin_lt_fin x a).2 hlt)).trans (congrArg _ (max_eq_left hlt.le).symm)
    · exact (if_neg (mt (ExtNum.fin_lt_fin x a).1 (not_lt.2 hle))).trans (congrArg _ (max_eq_right hle).symm)

lemma foldl_printStep_fin (kind : ReduceKind) (xs : List RrdValue) (a : ℚ) (n : ℕ) :
    xs.foldl (printStep kind) (.fin a, n) =
      (.fin ((finites xs).foldl (addNumber kind) a), n + if kind = .average then (finites xs).length else 0) := by
  induction xs generalizing a n with
  | nil => simp
  | cons x xs ih =>
    rw [List.foldl_cons]
    cases x with
    | fin x =>
      have hstep : printStep kind (.fin a, n) (.fin x) =
          (.fin (addNumber kind a x), if kind = .average then n + 1 else n) := by
        rw [← addValue_fin]
        rfl
      rw [hstep, ih, finites_fin, List.foldl_cons, List.length_cons]
      congr 1
      split <;> omega
    | nan | pinf | ninf => exact ih a n

/-- The loop of `PRINT`. -/
lemma foldl_printStep (kind : ReduceKind) (xs : List RrdValue) :
    xs.foldl (printStep kind) (.nan, 0) =
      match finites xs with
      | [] => (.nan, 0)
      | q :: qs => (.fin (qs.foldl (addNumber kind) q), 1 + if kind = .average then qs.length else 0) := by
  induction xs with
  | nil => rfl
  | cons x xs ih =>
    cases x with
    | fin x => exact foldl_printStep_fin kind xs x 1
    | nan | pinf | ninf => exact ih

lemma printOf_maximum (xs : List RrdValue) : printOf .maximum xs = ofOption (finites xs).max? := by
  rw [printOf, foldl_printStep]
  cases finites xs <;> rfl

lemma printOf_minimum (xs : List RrdValue) : printOf .minimum xs = ofOption (finites xs).min? := by
  rw [printOf, foldl_printStep]
  cases finites xs <;> rfl

lemma foldl_last (qs : List ℚ) (q : ℚ) : qs.foldl (addNumber .last) q = qs.getLastD q := by
  induction qs generalizing q with
  | nil => rfl
  | cons x qs ih => rw [List.foldl_cons, ih, List.getLastD_cons]; rfl

lemma printOf_last (xs : List RrdValue) : printOf .last xs = ofOption (finites xs).getLast? := by
  rw [printOf, foldl_printStep]
  cases finites xs with
  | nil => rfl
  | cons q qs =>
    rw [List.getLast?_cons, ← List.getLastD_eq_getLast?, ← foldl_last]
    rfl

lemma foldl_sum (qs : List ℚ) (q : ℚ) : qs.foldl (addNumber .average) q = q + qs.sum := by
  induction qs generalizing q with
  | nil => exact (add_zero q).symm
  | cons x qs ih => rw [List.foldl_cons, ih, List.sum_cons, addNumber, add_assoc]

lemma printOf_average (xs : List RrdValue) : printOf .average xs = ofOption (mean (finites xs)) := by
  rw [printOf, foldl_printStep]
  cases finites xs with
  | nil => rfl
  | cons q qs =>
    have hcnt : ((qs.length + 1 : ℕ) : ℚ) ≠ 0 := Nat.cast_ne_zero.2 (Nat.succ_ne_zero _)
    have hmean : mean (q :: qs) = some ((q + qs.sum) / (qs.length + 1 : ℕ)) := rfl
    show (if (Cf.average = .average ∨ Cf.last.code < Cf.average.code) ∧ 1 < 1 + qs.length
      then (ExtNum.fin (qs.foldl (addNumber .average) q) / ExtNum.fin ((1 + qs.length : ℕ) : ℚ) : RrdValue)
      else ExtNum.fin (qs.foldl (addNumber .average) q)) = _
    rw [foldl_sum, hmean, Nat.add_comm 1 qs.length, ofOption]
    split
    · exact ExtNum.fin_div_fin hcnt
    · rename_i hone
      have hnil : qs = [] := by
        by_contra hne
        have hpos := List.length_pos_iff.2 hne
        exact hone ⟨.inl rfl, by omega⟩
      subst hnil
      simp

/-! ### `VDEF` -/

lemma finites_dropWhile (xs : List RrdValue) : finites (xs.dropWhile ExtNum.isnan) = finites xs := by
  induction xs with
  | nil => rfl
  | cons x xs ih =>
    cases x with
    | nan => exact ih
    | fin x => rfl
    | pinf | ninf => rfl

section Extremum

variable {better : RrdValue → RrdValue → Bool} {op : ℚ → ℚ → ℚ}

lemma foldl_extremum_fin (hop : ∀ a x : ℚ, (if better (.fin x) (.fin a) then x else a) = op a x) (xs : List RrdValue) (a : ℚ) :
    xs.foldl (fun best x => if finite x && better x best then x else best) (.fin a) = .fin ((finites xs).foldl op a) := by
  induction xs generalizing a with
  | nil => rfl
  | cons x xs ih =>
    rw [List.foldl_cons]
    cases x with
    | fin x =>
      have hstep : (if finite (.fin x) && better (.fin x) (.fin a) then .fin x else .fin a) = (.fin (op a x) : RrdValue) := by
        rw [← hop, apply_ite ExtNum.fin]
        rfl
      rw [hstep, ih, finites_fin, List.foldl_cons]
    | nan | pinf | ninf => exact ih a

/-- Among values that are not infinite the first one that is known does not matter. -/
lemma extremum_eq (hop : ∀ a x : ℚ, (if better (.fin x) (.fin a) then x else a) = op a x) (hself : ∀ a, op a a = a)
    (hinf : ∀ x ∈ xs, x.isinf = false) :
    extremum better xs = ofOption (match finites xs with | [] => none | q :: qs => some (qs.foldl op q)) := by
  rw [extremum, ← finites_dropWhile xs]
  have hsub : ∀ x ∈ xs.dropWhile ExtNum.isnan, x.isinf = false := fun x hx => hinf x (List.dropWhile_suffix _ |>.subset hx)
  have hhead := List.head?_dropWhile_not ExtNum.isnan xs
  cases hknown : xs.dropWhile ExtNum.isnan with
  | nil => rfl
  | cons x rest =>
    rw [hknown] at hsub hhead
    cases x with
    | nan => cases hhead
    | pinf | ninf => exact absurd (hsub _ List.mem_cons_self) (by decide)
    | fin q =>
      rw [List.headD_cons, foldl_extremum_fin hop, finites_fin, List.foldl_cons, hself]
      rfl

/-- An infinite value in front stays. -/
lemma extremum_infinite {x : RrdValue} (hx : x.isinf = true) (hbest : ∀ y, finite y = true → better y x = false) :
    extremum better (x :: xs) = x := by
  have hknown : (x :: xs).dropWhile ExtNum.isnan = x :: xs := by
    cases x with
    | pinf | ninf => rfl
    | nan | fin => cases hx
  rw [extremum, hknown, List.headD_cons]
  apply List.foldl_fixed'
  intro y
  cases hy : finite y with
  | false => rfl
  | true => rw [hbest y hy, if_neg (by decide)]

end Extremum

lemma lastKnown_eq (hinf : ∀ x ∈ xs, x.isinf = false) : lastKnown xs = ofOption (finites xs).getLast? := by
  induction xs using List.reverseRecOn with
  | nil => rfl
  | append_singleton xs x ih =>
    have hfront := ih fun y hy => hinf y (List.mem_append_left _ hy)
    rw [lastKnown, List.rdropWhile_concat, finites_append]
    cases x with
    | nan =>
      rw [if_pos ExtNum.isnan_nan, finites_cons_of_not rfl, finites_nil, List.append_nil]
      exact hfront
    | fin q =>
      rw [ExtNum.isnan_fin, if_neg Bool.false_ne_true, finites_fin, finites_nil, List.getLast?_concat, List.getLastD_concat]
      rfl
    | pinf | ninf => exact absurd (hinf _ (List.mem_append_right _ List.mem_cons_self)) (by decide)

lemma foldl_vdefSum (xs : List RrdValue) (n : ℕ) (a : ℚ) :
    xs.foldl (fun (acc : ℕ × RrdValue) x => if finite x then (acc.1 + 1, acc.2 + x) else acc) (n, .fin a) =
      (n + (finites xs).length, .fin (a + (finites xs).sum)) := by
  induction xs generalizing n a with
  | nil => simp
  | cons x xs ih =>
    rw [List.foldl_cons]
    cases x with
    | fin x =>
      rw [finites_fin, List.length_cons, List.sum_cons, ← add_assoc a x, Nat.add_comm (finites xs).length 1, ← Nat.add_assoc n 1]
      exact ih (n + 1) (a + x)
    | nan | pinf | ninf => exact ih n a

end Lists

/-! ### The same results -/

/-- What `VDEF` and `PRINT` give for the same function. -/
structure VarData.Agrees (v : VarData) (m : Machine) (sort : List RrdValue → List RrdValue) (param : RrdValue) : Prop where
  maximum : (vdefCalc v.read v m sort .maximum param).map VdefVal.val = printCalc v.read v .maximum
  minimum : (vdefCalc v.read v m sort .minimum param).map VdefVal.val = printCalc v.read v .minimum
  average : (vdefCalc v.read v m sort .average param).map VdefVal.val = printCalc v.read v .average
  last : (vdefCalc v.read v m sort .last param).map VdefVal.val = printCalc v.read v .last

/-- The same variable with the values of its column in another order. -/
structure VarData.Reordered (v w : VarData) : Prop where
  filled : w.Filled
  window : { w with data := v.data } = v
  perm : w.column.Perm v.column

/-- What does not depend on the order of the data. -/
def VarData.OrderFree (v : VarData) (m : Machine) (sort : List RrdValue → List RrdValue) (param : RrdValue) : Prop :=
  ∀ w, v.Reordered w → ∀ op ∈ [VdefOp.maximum, .minimum, .average],
    (vdefCalc w.read w m sort op param).map VdefVal.val = (vdefCalc v.read v m sort op param).map VdefVal.val

/-- The finite values in the rows that `print_calc` goes over have the same greatest, smallest, mean and last one as those
of all rows. -/
structure VarData.PrintCovers (v : VarData) : Prop where
  maximum : (finites (v.column.take v.printRows)).max? = (finites v.column).max?
  minimum : (finites (v.column.take v.printRows)).min? = (finites v.column).min?
  average : mean (finites (v.column.take v.printRows)) = mean (finites v.column)
  last : (finites (v.column.take v.printRows)).getLast? = (finites v.column).getLast?

section Agreement

variable {v w : VarData} {m : Machine} {sort : List RrdValue → List RrdValue} {param : RrdValue}

/-- There is no row that `print_calc` does not go over while the cells can be counted in an `int`. -/
lemma VarData.Filled.printCovers (h : v.Filled) (hcells : v.rowCnt * v.dsCnt < 2 ^ 31) : v.PrintCovers := by
  have htake : v.column.take v.printRows = v.column := by
    rw [h.printRows_eq hcells, ← v.length_column, List.take_length]
  constructor
  all_goals rw [htake]

/-- The values that `vdef_calc` computes for a column. -/
@[grind] def vdefOf (op : VdefOp) (xs : List RrdValue) : RrdValue :=
  match op with
  | .maximum => extremum (fun x best => best < x) xs
  | .minimum => extremum (fun x best => x < best) xs
  | .last => lastKnown xs
  | _ => ofOption (mean (finites xs))

lemma vdefOf_average (xs : List RrdValue) : vdefOf .average xs = ofOption (mean (finites xs)) := rfl

lemma VarData.Filled.vdefCalc (h : v.Filled) {op : VdefOp} (hop : op ∈ [VdefOp.maximum, .minimum, .average, .last]) :
    (Rrdtool.vdefCalc v.read v m sort op param).map VdefVal.val = .ok (vdefOf op v.column) := by
  unfold Rrdtool.vdefCalc
  rw [if_neg h.step_pos.ne']
  cases op with
  | maximum => exact h.vdefExtremum _
  | minimum => exact h.vdefExtremum _
  | last => exact h.vdefLast
  | average =>
    have hsum := h.vdefFold_column
      (fun (acc : ℕ × RrdValue) x => if finite x then (acc.1 + 1, acc.2 + x) else acc) (0, .fin 0)
    rw [foldl_vdefSum, Nat.zero_add, zero_add] at hsum
    show (vdefMean v.read v fun cnt sum => sum / .fin cnt).map VdefVal.val = _
    rw [vdefMean, vdefSum, show (0 : RrdValue) = .fin 0 from rfl, hsum, ok_bind]
    show Except.ok _ = Except.ok (ofOption (mean (finites v.column)))
    refine congrArg Except.ok ?_
    cases hqs : finites v.column with
    | nil => rfl
    | cons q qs => exact ExtNum.fin_div_fin (Nat.cast_ne_zero.2 (Nat.succ_ne_zero _))
  | _ => simp at hop

lemma ite_max (a x : ℚ) : (if decide ((.fin a : RrdValue) < .fin x) = true then x else a) = max a x := by
  obtain hlt | hle := lt_or_ge a x
  · rw [if_pos (decide_eq_true ((ExtNum.fin_lt_fin a x).2 hlt)), max_eq_right hlt.le]
  · rw [if_neg (mt of_decide_eq_true (mt (ExtNum.fin_lt_fin a x).1 (not_lt.2 hle))), max_eq_left hle]

lemma ite_min (a x : ℚ) : (if decide ((.fin x : RrdValue) < .fin a) = true then x else a) = min a x := by
  obtain hlt | hle := lt_or_ge x a
  · rw [if_pos (decide_eq_true ((ExtNum.fin_lt_fin x a).2 hlt)), min_eq_right hlt.le]
  · rw [if_neg (mt of_decide_eq_true (mt (ExtNum.fin_lt_fin x a).1 (not_lt.2 hle))), min_eq_left hle]

/-- Without infinite values `VDEF` takes what `PRINT` takes of the same values. -/
lemma vdefOf_maximum {xs : List RrdValue} (hinf : ∀ x ∈ xs, x.isinf = false) :
    vdefOf .maximum xs = ofOption (finites xs).max? := by
  rw [vdefOf, extremum_eq ite_max max_self hinf]
  cases finites xs <;> rfl

lemma vdefOf_minimum {xs : List RrdValue} (hinf : ∀ x ∈ xs, x.isinf = false) :
    vdefOf .minimum xs = ofOption (finites xs).min? := by
  rw [vdefOf, extremum_eq ite_min min_self hinf]
  cases finites xs <;> rfl

lemma ofOption_injective : Function.Injective ofOption := by
  intro a b h
  cases a <;> cases b <;> simp_all [ofOption]

/-- Without infinite values the results are the same exactly if `print_calc` goes over enough rows. -/
lemma VarData.Filled.agrees_iff (h : v.Filled) (hinf : ∀ x ∈ v.column, x.isinf = false) :
    v.Agrees m sort param ↔ v.PrintCovers := by
  have hmax : (Rrdtool.vdefCalc v.read v m sort .maximum param).map VdefVal.val = Rrdtool.printCalc v.read v .maximum ↔
      (finites (v.column.take v.printRows)).max? = (finites v.column).max? := by
    rw [h.vdefCalc (by decide), h.printCalc, vdefOf_maximum hinf, printOf_maximum, Except.ok.injEq, ofOption_injective.eq_iff]
    exact eq_comm
  have hmin : (Rrdtool.vdefCalc v.read v m sort .minimum param).map VdefVal.val = Rrdtool.printCalc v.read v .minimum ↔
      (finites (v.column.take v.printRows)).min? = (finites v.column).min? := by
    rw [h.vdefCalc (by decide), h.printCalc, vdefOf_minimum hinf, printOf_minimum, Except.ok.injEq, ofOption_injective.eq_iff]
    exact eq_comm
  have havg : (Rrdtool.vdefCalc v.read v m sort .average param).map VdefVal.val = Rrdtool.printCalc v.read v .average ↔
      mean (finites (v.column.take v.printRows)) = mean (finites v.column) := by
    rw [h.vdefCalc (by decide), h.printCalc, vdefOf_average, printOf_average, Except.ok.injEq, ofOption_injective.eq_iff]
    exact eq_comm
  have hlast : (Rrdtool.vdefCalc v.read v m sort .last param).map VdefVal.val = Rrdtool.printCalc v.read v .last ↔
      (finites (v.column.take v.printRows)).getLast? = (finites v.column).getLast? := by
    rw [h.vdefCalc (by decide), h.printCalc, vdefOf, lastKnown_eq hinf, printOf_last, Except.ok.injEq,
      ofOption_injective.eq_iff]
    exact eq_comm
  exact ⟨fun ⟨h₁, h₂, h₃, h₄⟩ => ⟨hmax.1 h₁, hmin.1 h₂, havg.1 h₃, hlast.1 h₄⟩,
    fun ⟨h₁, h₂, h₃, h₄⟩ => ⟨hmax.2 h₁, hmin.2 h₂, havg.2 h₃, hlast.2 h₄⟩⟩

lemma mean_perm {qs rs : List ℚ} (h : qs.Perm rs) : mean qs = mean rs := by
  simp only [mean, ← List.length_eq_zero_iff, h.sum_eq, h.length_eq]

lemma max?_perm {qs rs : List ℚ} (h : qs.Perm rs) : qs.max? = rs.max? := by
  refine Option.ext fun a => ?_
  simp only [List.max?_eq_some_iff, h.mem_iff]

lemma min?_perm {qs rs : List ℚ} (h : qs.Perm rs) : qs.min? = rs.min? := by
  refine Option.ext fun a => ?_
  simp only [List.min?_eq_some_iff, h.mem_iff]

/-- Without infinite values the order does not matter. -/
lemma vdefOf_perm {xs ys : List RrdValue} (hinf : ∀ x ∈ xs, x.isinf = false) (hperm : ys.Perm xs) {op : VdefOp}
    (hop : op ∈ [VdefOp.maximum, .minimum, .average]) : vdefOf op ys = vdefOf op xs := by
  have hinf' : ∀ y ∈ ys, y.isinf = false := fun y hy => hinf y (hperm.subset hy)
  have hfin : (finites ys).Perm (finites xs) := hperm.filterMap _
  cases op with
  | maximum => rw [vdefOf_maximum hinf, vdefOf_maximum hinf', max?_perm hfin]
  | minimum => rw [vdefOf_minimum hinf, vdefOf_minimum hinf', min?_perm hfin]
  | average => exact congrArg ofOption (mean_perm hfin)
  | _ => simp at hop

/-- The variable with another column. -/
def VarData.withColumn (v : VarData) (xs : List RrdValue) : VarData :=
  { v with data := (List.range (v.rowCnt * v.dsCnt)).map fun i =>
    if i % v.dsCnt = v.ds.toNat then xs.getD (i / v.dsCnt) .nan else v.data.getD i .nan }

lemma VarData.Filled.row_withColumn (h : v.Filled) (xs : List RrdValue) {r : ℕ} (hr : r < v.rowCnt) :
    (v.withColumn xs).row r = xs.getD r .nan := by
  have hds := h.ds_lt
  have hnonneg := h.ds_nonneg
  have hlt : v.ds.toNat < v.dsCnt := by omega
  have hcell : r * v.dsCnt + v.ds.toNat < v.rowCnt * v.dsCnt := by
    have hrow := Nat.mul_le_mul_right v.dsCnt hr
    rw [Nat.succ_mul] at hrow
    omega
  have hmod : (r * v.dsCnt + v.ds.toNat) % v.dsCnt = v.ds.toNat := by
    rw [Nat.mul_comm, Nat.mul_add_mod, Nat.mod_eq_of_lt hlt]
  have hdiv : (r * v.dsCnt + v.ds.toNat) / v.dsCnt = r := by
    rw [Nat.mul_comm, Nat.mul_add_div (Nat.zero_lt_of_lt hlt), Nat.div_eq_of_lt hlt, Nat.add_zero]
  show ((List.range (v.rowCnt * v.dsCnt)).map _).getD (r * v.dsCnt + v.ds.toNat) ExtNum.nan = _
  rw [List.getD_eq_getElem?_getD, List.getElem?_map, List.getElem?_range hcell, Option.map_some, Option.getD_some, hmod,
    if_pos rfl, hdiv]

/-- The column can be brought into any order. -/
lemma VarData.Filled.withColumn (h : v.Filled) {xs : List RrdValue} (hxs : xs.Perm v.column) :
    v.Reordered (v.withColumn xs) ∧ (v.withColumn xs).column = xs := by
  have hlen : xs.length = v.rowCnt := hxs.length_eq.trans v.length_column
  have hcolumn : (v.withColumn xs).column = xs := by
    refine List.ext_getElem? fun r => ?_
    obtain hlt | hge := lt_or_ge r v.rowCnt
    · rw [VarData.getElem?_column (show r < (v.withColumn xs).rowCnt from hlt), h.row_withColumn xs hlt,
        List.getD_eq_getElem?_getD, List.getElem?_eq_getElem (hlen.symm ▸ hlt), Option.getD_some]
    · rw [List.getElem?_eq_none (by rw [VarData.length_column]; exact hge), List.getElem?_eq_none (by omega)]
  refine ⟨⟨⟨h.step_pos, h.start_le, h.ds_nonneg, h.ds_lt, ?_⟩, rfl, by rw [hcolumn]; exact hxs⟩, hcolumn⟩
  show v.rowCnt * v.dsCnt ≤ ((List.range (v.rowCnt * v.dsCnt)).map _).length
  rw [List.length_map, List.length_range]

end Agreement

/-- An unknown value, 3 and 1. -/
def knownColumn : VarData := ⟨0, 900, 300, 0, 1, [.nan, .fin 3, .fin 1]⟩

/-- Infinity and 1. -/
def infiniteColumn : VarData := ⟨0, 600, 300, 0, 1, [.pinf, .fin 1]⟩

end Rrdtool
