import Rrdtool.Graph.Column
import Rrdtool.Rpn.Percent

/-!
# The percentiles of `VDEF`

`PERCENT` and `PERCENTNAN` sort the values of a column and take the one at a percentage of the way from the first to the
last. `vdef_percent_compar` (`src/rrd_graph.c`) answers with the sign of the infinite value when it has one on either side,
so that a finite value and an infinite one are put in no order. `vdefCalc_percentile_iff` says when the value is the right
one with every `qsort`.
-/

namespace Rrdtool

open Checked Ranking

/-- `isinf`, with its sign. -/
def infSign : RrdValue → ℤ
  | .pinf => 1
  | .ninf => -1
  | _ => 0

/-- `vdef_percent_compar`. -/
@[grind] def vdefPercentCompar (a b : RrdValue) : ℤ :=
  if a.isnan then -1
  else if b.isnan then 1
  else if a.isinf then infSign a
  else if b.isinf then infSign b
  else if a < b then -1
  else 1

/-- On different values of the list the comparison answers as the order does. -/
def ConsistentWith (cmp : RrdValue → RrdValue → ℤ) (le : RrdValue → RrdValue → Prop) (xs : List RrdValue) : Prop :=
  ∀ x ∈ xs, ∀ y ∈ xs, x ≠ y → (cmp x y < 0 ↔ le x y) ∧ (0 < cmp x y ↔ le y x)

/-- What is promised of `qsort` with a comparison: the same values, in the order that the comparison is consistent with, if
there is one. -/
structure QsortOf (cmp : RrdValue → RrdValue → ℤ) (sort : List RrdValue → List RrdValue) : Prop where
  perm : ∀ xs, (sort xs).Perm xs
  sorted : ∀ xs le, IsLinearOrder RrdValue le → ConsistentWith cmp le xs → (sort xs).Pairwise le

/-- There are a finite and an infinite value. -/
def Mixed (xs : List RrdValue) : Prop := (∃ x ∈ xs, finite x = true) ∧ ∃ y ∈ xs, y.isinf = true

/-- The place of a percentage among `n` values, counted from 0. -/
@[grind] def percentileField (n : ℕ) (p : ℚ) : ℕ := nearestRank (n - 1) p

/-- The place as an `int` has the same value of the sorted list. -/
def SamePlace (m : Machine) (xs : List RrdValue) (p : ℚ) : Prop :=
  let field := toInt m (.fin (percentileField xs.length p))
  0 ≤ field ∧ ∃ x, Ranked Ascending xs (field.toNat + 1) x ∧ Ranked Ascending xs (percentileField xs.length p + 1) x

/-- An insertion sort with the comparison. -/
def vdefQsort (xs : List RrdValue) : List RrdValue := xs.insertionSort fun x y => vdefPercentCompar x y < 0

section Compare

variable {xs ys : List RrdValue} {x y : RrdValue}

lemma vdefQsort_qsortOf : QsortOf vdefPercentCompar vdefQsort where
  perm xs := List.perm_insertionSort _ xs
  sorted _ _ _ h := insertionSort_pairwise fun x hx y hy hne => (h x hx y hy hne).1

/-- A finite value is behind an infinite one and in front of it. -/
lemma mixed_compar {cmp : RrdValue → RrdValue → ℤ} (hcmp : cmp = vdefPercentCompar) (hx : finite x = true)
    (hy : y.isinf = true) : cmp x y = infSign y ∧ cmp y x = infSign y := by
  subst hcmp
  cases x with
  | fin x =>
    cases y with
    | pinf | ninf => exact ⟨rfl, rfl⟩
    | nan | fin => cases hy
  | nan | pinf | ninf => cases hx

lemma not_consistentWith (h : Mixed xs) (le : RrdValue → RrdValue → Prop) [IsLinearOrder RrdValue le] :
    ¬ ConsistentWith vdefPercentCompar le xs := by
  obtain ⟨⟨x, hx, hfin⟩, y, hy, hinf⟩ := h
  intro hcons
  have hne : x ≠ y := by
    rintro rfl
    cases x <;> simp_all [finite]
  obtain ⟨hxy, hyx⟩ := mixed_compar rfl hfin hinf
  obtain ⟨hbefore, hbehind⟩ := hcons x hx y hy hne
  obtain ⟨hbefore', hbehind'⟩ := hcons y hy x hx hne.symm
  rw [hxy] at hbefore hbehind
  rw [hyx] at hbefore' hbehind'
  have hiff : le x y ↔ le y x := hbefore.symm.trans hbefore'
  obtain hle | hle := total_of le x y
  · exact hne (antisymm_of le hle (hiff.1 hle))
  · exact hne (antisymm_of le (hiff.2 hle) hle)

/-- Without a finite and an infinite value in it, a list is sorted. -/
lemma consistentWith_ascending (h : ¬ Mixed xs) : ConsistentWith vdefPercentCompar Ascending xs := by
  intro x hx y hy hne
  have hmixed : ∀ x ∈ xs, ∀ y ∈ xs, finite x = true → y.isinf = false := fun x hx y hy hfin =>
    Bool.eq_false_iff.2 fun hinf => h ⟨⟨x, hx, hfin⟩, y, hy, hinf⟩
  have hxy := hmixed x hx y hy
  have hyx := hmixed y hy x hx
  cases x with
  | fin x =>
    cases y with
    | fin y =>
      have hplace : ∀ a b : ℚ, Ascending (.fin a) (.fin b) ↔ a ≤ b := by simp [Ascending, level]
      have hcmp : vdefPercentCompar (.fin x) (.fin y) = if x < y then -1 else 1 := by
        simp [vdefPercentCompar, ExtNum.isinf]
      rw [hplace, hplace, hcmp]
      obtain hlt | hgt := lt_or_gt_of_ne fun heq => hne (congrArg ExtNum.fin heq)
      · rw [if_pos hlt]
        exact ⟨iff_of_true (by decide) hlt.le, iff_of_false (by decide) (not_le.2 hlt)⟩
      · rw [if_neg (not_lt.2 hgt.le)]
        exact ⟨iff_of_false (by decide) (not_le.2 hgt), iff_of_true (by decide) hgt.le⟩
    | nan => simp [vdefPercentCompar, Ascending, level]
    | pinf | ninf => exact absurd (hxy rfl) (by decide)
  | nan =>
    cases y with
    | nan => exact absurd rfl hne
    | fin | pinf | ninf => simp [vdefPercentCompar, Ascending, level]
  | pinf | ninf =>
    cases y with
    | fin => exact absurd (hyx rfl) (by decide)
    | nan | pinf | ninf => simp_all [vdefPercentCompar, Ascending, level, infSign, ExtNum.isinf]

end Compare

/-! ### The place -/

section Place

variable {m : Machine} {xs : List RrdValue} {p : ℚ} {n : ℕ}

lemma vdefField_eq (hn : n ≠ 0) (hp : 0 ≤ p) (array : List RrdValue) :
    vdefField m (.fin p) n array =
      if 0 ≤ toInt m (.fin (percentileField n p)) ∧ toInt m (.fin (percentileField n p)) < n then
        .ok (.timeless (array.getD (toInt m (.fin (percentileField n p))).toNat .nan))
      else .error (.fault (.array (toInt m (.fin (percentileField n p))))) := by
  have hcast : ((n : ℚ) - 1) = ((n - 1 : ℕ) : ℚ) := by
    rw [Nat.cast_sub (Nat.one_le_iff_ne_zero.2 hn), Nat.cast_one]
  have hquot : (.fin p * .fin (n - 1) / .fin 100 : RrdValue) = .fin (p * ((n - 1 : ℕ) : ℚ) / 100) := by
    rw [hcast, ← ExtNum.fin_div_fin (by norm_num)]
    rfl
  have hpos : 0 ≤ p * ((n - 1 : ℕ) : ℚ) / 100 := by positivity
  have hround : roundAway (p * ((n - 1 : ℕ) : ℚ) / 100) = (percentileField n p : ℚ) := by
    rw [roundAway, if_pos hpos, percentileField, nearestRank, ← Int.natCast_floor_eq_floor (by linarith), Int.cast_natCast]
  rw [vdefField, hquot, onFinite, hround]

lemma percentileField_lt (hn : n ≠ 0) (hp : p ≤ 100) : percentileField n p < n := by
  have hle := nearestRank_le (n := n - 1) hp
  rw [percentileField]
  omega

lemma toInt_percentileField (h : percentileField n p < 2 ^ 31) :
    toInt m (.fin (percentileField n p)) = percentileField n p := by
  rw [← Int.cast_natCast]
  exact toInt_intCast (Int.natCast_nonneg _) (by exact_mod_cast h)

/-- The element in a place of a sorted list. -/
lemma ranked_of_getElem? {le : RrdValue → RrdValue → Prop} {ys : List RrdValue} {k : ℕ} {x : RrdValue} (hperm : ys.Perm xs)
    (hys : ys.Pairwise le) (hx : ys[k]? = some x) : Ranked le xs (k + 1) x :=
  ⟨ys, hperm, hys, Nat.le_add_left 1 k, hx⟩

/-- A place that fits an `int`. -/
lemma samePlace_of_lt (hne : xs ≠ []) (hp : p ≤ 100) (h : percentileField xs.length p < 2 ^ 31) : SamePlace m xs p := by
  classical
  have hlt := percentileField_lt (List.length_pos_iff.2 hne).ne' hp
  set sorted := xs.insertionSort Ascending with hdef
  have hperm : sorted.Perm xs := List.perm_insertionSort Ascending xs
  have hsorted : sorted.Pairwise Ascending := insertionSort_pairwise fun _ _ _ _ _ => Iff.rfl
  have hget : sorted[percentileField xs.length p]? = some (sorted.get ⟨percentileField xs.length p, by rwa [hperm.length_eq]⟩) :=
    List.getElem?_eq_getElem _
  have hranked := ranked_of_getElem? hperm hsorted hget
  dsimp only [SamePlace]
  rw [toInt_percentileField h, Int.toNat_natCast]
  exact ⟨Int.natCast_nonneg _, _, hranked, hranked⟩

end Place

/-- The values that are known. -/
def VarData.knowns (v : VarData) : List RrdValue := v.column.filter fun x => !x.isnan

/-- With every `qsort`, the function takes the value in the place of the percentage among the values `xs`, sorted. -/
def VarData.TakesPercentile (v : VarData) (m : Machine) (op : VdefOp) (p : ℚ) (xs : List RrdValue) : Prop :=
  ∀ sort, QsortOf vdefPercentCompar sort → ∃ x, vdefCalc v.read v m sort op (.fin p) = .ok (.timeless x) ∧
    Ranked Ascending xs (percentileField xs.length p + 1) x

/-- What `PERCENT` and `PERCENTNAN` are for. -/
structure VarData.Percentiles (v : VarData) (m : Machine) (p : ℚ) : Prop where
  percent : v.TakesPercentile m .percent p v.column
  percentnan : v.knowns ≠ [] → v.TakesPercentile m .percentnan p v.knowns
  unknown : v.knowns = [] → ∀ sort, QsortOf vdefPercentCompar sort →
    vdefCalc v.read v m sort .percentnan (.fin p) = .ok (.timeless .nan)

section Percentiles

variable {v : VarData} {m : Machine} {xs : List RrdValue} {p : ℚ} {sort : List RrdValue → List RrdValue}

lemma foldl_filter (keep : RrdValue → Bool) (xs array : List RrdValue) :
    xs.foldl (fun array x => if keep x then array ++ [x] else array) array = array ++ xs.filter keep := by
  induction xs generalizing array with
  | nil => exact (List.append_nil array).symm
  | cons x xs ih =>
    rw [List.foldl_cons, List.filter_cons, ih]
    split
    · exact List.append_assoc array [x] (xs.filter keep)
    · rfl

lemma VarData.Filled.vdefPercent (h : v.Filled) (param : RrdValue) (keep : RrdValue → Bool) :
    Rrdtool.vdefPercent v.read v m sort param keep =
      vdefField m param (v.column.filter keep).length (sort (v.column.filter keep)) := by
  have hfold := h.vdefFold_column (fun array x => if keep x then array ++ [x] else array) []
  rw [foldl_filter, List.nil_append] at hfold
  rw [Rrdtool.vdefPercent, hfold, ok_bind]

/-- The value is the right one with every `qsort` exactly if the comparison is consistent and the place fits. -/
lemma takes_iff (hne : xs ≠ []) (h0 : 0 ≤ p) :
    (∀ sort, QsortOf vdefPercentCompar sort → ∃ x, vdefField m (.fin p) xs.length (sort xs) = .ok (.timeless x) ∧
      Ranked Ascending xs (percentileField xs.length p + 1) x) ↔ ¬ Mixed xs ∧ SamePlace m xs p := by
  have hn : xs.length ≠ 0 := (List.length_pos_iff.2 hne).ne'
  set k := toInt m (.fin (percentileField xs.length p)) with hk
  have hfield := fun array => @vdefField_eq m p xs.length hn h0 array
  constructor
  · intro htakes
    have hbounds : 0 ≤ k ∧ k < xs.length := by
      obtain ⟨x, hx, -⟩ := htakes vdefQsort vdefQsort_qsortOf
      rw [hfield] at hx
      by_contra hout
      rw [if_neg hout] at hx
      cases hx
    have hvalue : ∀ sort, QsortOf vdefPercentCompar sort →
        ∃ x, (sort xs)[k.toNat]? = some x ∧ Ranked Ascending xs (percentileField xs.length p + 1) x := by
      intro sort hsort
      obtain ⟨x, hx, hranked⟩ := htakes sort hsort
      have hlt : k.toNat < (sort xs).length := by
        rw [(hsort.perm xs).length_eq]
        omega
      rw [hfield, if_pos hbounds, Except.ok.injEq] at hx
      have hval : (sort xs).getD k.toNat .nan = x := congrArg VdefVal.val hx
      rw [List.getD_eq_getElem?_getD, List.getElem?_eq_getElem hlt, Option.getD_some] at hval
      exact ⟨x, by rw [List.getElem?_eq_getElem hlt, hval], hranked⟩
    have hmixed : ¬ Mixed xs := by
      intro hmixed
      -- nothing is promised, so that any of the values may be in the place
      have hall : ∀ z ∈ xs, Ranked Ascending xs (percentileField xs.length p + 1) z := by
        intro z hz
        obtain ⟨ys, hperm, hys⟩ := exists_perm_getElem? hz (show k.toNat < xs.length by omega)
        have hsort : QsortOf vdefPercentCompar fun zs => if zs = xs then ys else vdefQsort zs := by
          refine ⟨fun zs => ?_, fun zs le hle hcons => ?_⟩
          · split
            · rename_i heq
              rw [heq]
              exact hperm
            · exact vdefQsort_qsortOf.perm zs
          · have hother : zs ≠ xs := by
              rintro rfl
              exact not_consistentWith hmixed le hcons
            rw [if_neg hother]
            exact vdefQsort_qsortOf.sorted zs le hle hcons
        obtain ⟨x, hx, hranked⟩ := hvalue _ hsort
        rw [if_pos rfl, hys] at hx
        cases hx
        exact hranked
      obtain ⟨⟨x, hx, hfin⟩, y, hy, hinf⟩ := hmixed
      obtain rfl : x = y := antisymm_of Ascending ((hall x hx).mono (hall y hy) le_rfl) ((hall y hy).mono (hall x hx) le_rfl)
      cases x <;> simp_all [finite]
    obtain ⟨x, hx, hranked⟩ := hvalue vdefQsort vdefQsort_qsortOf
    have hsorted := vdefQsort_qsortOf.sorted xs Ascending inferInstance (consistentWith_ascending hmixed)
    exact ⟨hmixed, hbounds.1, x, ranked_of_getElem? (vdefQsort_qsortOf.perm xs) hsorted hx, hranked⟩
  · rintro ⟨hmixed, hnonneg, x, hplace, hranked⟩ sort hsort
    have hsorted := hsort.sorted xs Ascending inferInstance (consistentWith_ascending hmixed)
    obtain ⟨ys, hperm, hys, -, hx⟩ := hplace
    obtain rfl : sort xs = ys := ((hsort.perm xs).trans hperm.symm).eq_of_pairwise' hsorted hys
    rw [Nat.add_sub_cancel] at hx
    have hlt := (List.getElem?_eq_some_iff.1 hx).1
    rw [(hsort.perm xs).length_eq] at hlt
    refine ⟨x, ?_, hranked⟩
    rw [hfield, if_pos ⟨hnonneg, by omega⟩, List.getD_eq_getElem?_getD, hx, Option.getD_some]

lemma VarData.Filled.takesPercentile_iff (h : v.Filled) {op : VdefOp} {keep : RrdValue → Bool}
    (hop : ∀ sort, Rrdtool.vdefCalc v.read v m sort op (.fin p) = Rrdtool.vdefPercent v.read v m sort (.fin p) keep)
    (hne : v.column.filter keep ≠ []) (h0 : 0 ≤ p) :
    v.TakesPercentile m op p (v.column.filter keep) ↔
      ¬ Mixed (v.column.filter keep) ∧ SamePlace m (v.column.filter keep) p := by
  rw [← takes_iff hne h0]
  refine forall_congr' fun sort => imp_congr_right fun _ => exists_congr fun x => ?_
  rw [hop, h.vdefPercent]

end Percentiles

/-- `PERCENT` and `PERCENTNAN` take the right values of a column that is not empty exactly if a value is known, the known ones
are all finite or all infinite, and the places fit an `int`. -/
theorem vdefCalc_percentile_iff (v : VarData) (m : Machine) (p : ℚ) (h : v.Filled) (hne : v.column ≠ []) (h0 : 0 ≤ p) :
    v.Percentiles m p ↔ v.knowns ≠ [] ∧ ¬ Mixed v.column ∧ SamePlace m v.column p ∧ SamePlace m v.knowns p := by
  have hall : v.column.filter (fun _ => true) = v.column := List.filter_eq_self.2 fun _ _ => rfl
  have hpercent : ∀ sort, vdefCalc v.read v m sort .percent (.fin p) =
      vdefPercent v.read v m sort (.fin p) fun _ => true := fun sort => by
    rw [vdefCalc, if_neg h.step_pos.ne']
  have hpercentnan : ∀ sort, vdefCalc v.read v m sort .percentnan (.fin p) =
      vdefPercent v.read v m sort (.fin p) fun x => !x.isnan := fun sort => by
    rw [vdefCalc, if_neg h.step_pos.ne']
  have htakes := @VarData.Filled.takesPercentile_iff v m p h .percent (fun _ => true) hpercent (by rwa [hall]) h0
  rw [hall] at htakes
  have htakesnan : v.knowns ≠ [] → (v.TakesPercentile m .percentnan p v.knowns ↔ ¬ Mixed v.knowns ∧ SamePlace m v.knowns p) :=
    fun hknown => @VarData.Filled.takesPercentile_iff v m p h .percentnan (fun x => !x.isnan) hpercentnan hknown h0
  constructor
  · rintro ⟨hper, hpernan, hunknown⟩
    have hknown : v.knowns ≠ [] := by
      intro hnil
      have hvalue := hunknown hnil vdefQsort vdefQsort_qsortOf
      have hlen : (v.column.filter fun x => !x.isnan).length = 0 := List.length_eq_zero_iff.2 hnil
      rw [hpercentnan, h.vdefPercent, hlen, vdefField, if_neg (by push_cast; omega)] at hvalue
      cases hvalue
    obtain ⟨hmixed, hplace⟩ := htakes.1 hper
    exact ⟨hknown, hmixed, hplace, ((htakesnan hknown).1 (hpernan hknown)).2⟩
  · rintro ⟨hknown, hmixed, hplace, hplace'⟩
    have hmixed' : ¬ Mixed v.knowns := by
      rintro ⟨⟨x, hx, hfin⟩, y, hy, hinf⟩
      exact hmixed ⟨⟨x, (List.mem_filter.1 hx).1, hfin⟩, y, (List.mem_filter.1 hy).1, hinf⟩
    exact ⟨htakes.2 ⟨hmixed, hplace⟩, fun _ => (htakesnan hknown).2 ⟨hmixed', hplace'⟩, fun hnil => absurd hnil hknown⟩

/-- Two values and an unknown one. -/
def percentileRows : VarData := ⟨0, 900, 300, 0, 1, [.fin 7, .nan, .fin 4]⟩

/-- The percentiles of three rows. -/
theorem vdefCalc_percentile_three : percentileRows.Percentiles bareMachine 95 := by
  have hsmall : ∀ xs : List RrdValue, xs ≠ [] → xs.length ≤ 3 → SamePlace bareMachine xs 95 := fun xs hne hlen =>
    samePlace_of_lt hne (by norm_num) ((percentileField_lt (List.length_pos_iff.2 hne).ne' (by norm_num)).trans (by omega))
  refine (vdefCalc_percentile_iff percentileRows bareMachine 95 (by decide) (by decide) (by norm_num)).2 ⟨by decide, ?_, hsmall _ (by decide) (by decide), hsmall _ (by decide)
      (by decide)⟩
  rintro ⟨-, y, hy, hinf⟩
  have hnone : ∀ y ∈ percentileRows.column, y.isinf = false := by decide
  exact Bool.noConfusion (hinf.symm.trans (hnone y hy))

/-- Nothing but an unknown value. -/
def percentileUnknownRow : VarData := ⟨0, 300, 300, 0, 1, [.nan]⟩

/-- A finite value and an infinite one. -/
def mixedRows : VarData := ⟨0, 600, 300, 0, 1, [.pinf, .fin 1]⟩

/-- 95 percent of no values: `PERCENTNAN` reads in front of an empty array. Of infinity and 1 the last one is not found with
every `qsort`. -/
theorem vdefCalc_percentile_unknown :
    (¬ percentileUnknownRow.Percentiles bareMachine 95 ∧
      vdefCalc percentileUnknownRow.read percentileUnknownRow bareMachine vdefQsort .percentnan (.fin 95) = .error (.fault (.array (-1)))) ∧
      ¬ mixedRows.Percentiles bareMachine 95 := by
  have hrun : vdefCalc percentileUnknownRow.read percentileUnknownRow bareMachine vdefQsort .percentnan (.fin 95) =
      .error (.fault (.array (-1))) := by
    decide +kernel
  refine ⟨⟨fun hper => ?_, hrun⟩, fun hper => ?_⟩
  · have hvalue := hper.unknown (by decide) vdefQsort vdefQsort_qsortOf
    rw [hrun] at hvalue
    cases hvalue
  · have hcolumn : mixedRows.column = [.pinf, .fin 1] := by decide
    have htakes := @VarData.Filled.takesPercentile_iff mixedRows bareMachine 95 (by decide) .percentnan
      (fun x => !x.isnan) (fun _ => rfl) (by decide) (by norm_num)
    refine (htakes.1 (hper.percentnan (by decide))).1 ?_
    rw [hcolumn]
    exact ⟨⟨.fin 1, by decide, rfl⟩, .pinf, by decide, rfl⟩

end Rrdtool
