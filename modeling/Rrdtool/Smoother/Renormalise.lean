import Rrdtool.Update.ForecastOrder

/-!
# Renormalisation and forecasts

Behind the moving average, `apply_smoother` takes the baseline out of the coefficients of a `SEASONAL` archive, by
subtraction for `HWPREDICT` and by division for `MHWPREDICT`, and adds it to the intercept for both. The sum of
intercept and coefficient is the same as before, the product is not: `applySmoother_predict_iff` says when the
forecasts survive.
-/

namespace Rrdtool

open Cyclic

/-- The forecast along a flat line. -/
@[grind] def HwMethod.combine : HwMethod → RrdValue → RrdValue → RrdValue
  | .additive, a, c => a + c
  | .multiplicative, a, c => a * c

lemma HwMethod.predict_flat (M : HwMethod) (a c : RrdValue) (n : ℕ) :
    M.functions.predict a (.fin 0) n c = M.combine a c := by
  have hflat : a + .fin 0 * .fin (s32 n) = a := by
    rw [ExtNum.fin_mul_fin, zero_mul, ← ExtNum.zero_def, add_zero]
  cases M with
  | additive => exact congrArg (· + c) hflat
  | multiplicative => exact congrArg (· * c) hflat

/-! ### One coefficient -/

section Row

variable {a b c : RrdValue}

/-- The intercept takes up what the coefficient gives away. -/
lemma additive_row (b₀ : ℚ) : (a + .fin b₀) + (c - .fin b₀) = a + c := by
  cases c with
  | fin x => rw [ExtNum.fin_sub_fin, add_assoc, ExtNum.fin_add_fin, add_sub_cancel]
  | nan => rw [ExtNum.nan_sub, ExtNum.add_nan, ExtNum.add_nan]
  | pinf => cases a <;> rfl
  | ninf => cases a <;> rfl

/-- An infinite baseline leaves no forecast. -/
lemma additive_row_inf (hb : ∀ q, b ≠ .fin q) : (a + b) + (c - b) = .nan := by
  cases b with
  | fin q => exact absurd rfl (hb q)
  | nan => rw [ExtNum.add_nan, ExtNum.nan_add]
  | pinf => cases a <;> cases c <;> rfl
  | ninf => cases a <;> cases c <;> rfl

/-- The products agree if the intercept is a fixed point of the shift, or the coefficient is zero. -/
lemma multiplicative_row {q : ℚ} (hq : 0 < q) (x : ℚ) :
    (a + .fin q) * (.fin x / .fin q) = a * .fin x ↔ ∀ p, a = .fin p → p + q = p * q ∨ x = 0 := by
  have hdiv : (.fin x / .fin q : RrdValue) = .fin (x / q) := ExtNum.fin_div_fin hq.ne'
  have hsign : ∀ v : RrdValue, ExtNum.bySign (x / q) v = ExtNum.bySign x v := by
    intro v
    simp only [ExtNum.bySign, div_pos_iff_of_pos_right hq, div_lt_iff₀ hq, zero_mul]
  rw [hdiv]
  cases a with
  | nan => exact iff_of_true rfl (fun p hp => by cases hp)
  | pinf => exact iff_of_true (hsign .pinf) (fun p hp => by cases hp)
  | ninf => exact iff_of_true (hsign .ninf) (fun p hp => by cases hp)
  | fin p =>
    rw [ExtNum.fin_add_fin, ExtNum.fin_mul_fin, ExtNum.fin_mul_fin, ExtNum.fin.injEq]
    constructor
    · rintro h p' hp
      obtain rfl := ExtNum.fin.inj hp
      have h' : (p + q - p * q) * x = 0 := by
        field_simp at h
        linear_combination h
      obtain h' | h' := mul_eq_zero.1 h'
      · exact .inl (by linear_combination h')
      · exact .inr h'
    · intro h
      obtain h | h := h p rfl
      · rw [h]
        field_simp
      · rw [h, zero_div, mul_zero, mul_zero]

lemma multiplicative_row_inf (hb : ∀ q, b ≠ .fin q) (hpos : .fin 0 < b) : (a + b) * (c / b) = .nan := by
  cases b with
  | fin q => exact absurd rfl (hb q)
  | nan => exact absurd hpos (ExtNum.not_lt_nan _)
  | ninf => exact absurd hpos (ExtNum.not_lt_ninf _)
  | pinf => cases a <;> cases c <;> rfl

end Row

/-! ### The archives -/

/-- Row `k` of data source `d` in archive `i`. -/
def rowValue (rras : List Rra) (i k d : ℕ) : RrdValue :=
  ((rras[i]?).map fun rra => (rra.ring.slot k).getD d .nan).getD .nan

/-- What renormalisation asks of the intercept `a` and of the column that is smoothed: the coefficients are numbers and,
for `MHWPREDICT`, the intercept is what the mean of the column takes to itself; or there was no forecast before. -/
def Neutral (M : HwMethod) (offset : ℕ) (a : RrdValue) (col : List RrdValue) : Prop :=
  (AllFin col ∧ match M with
    | .additive => True
    | .multiplicative => ∀ p q, a = .fin p → col.sum / .fin col.length = .fin q → p + q = p * q) ∨
  ∀ k < col.length, M.combine a (averaged offset col k) = .nan

section Column

variable {offset : ℕ} {col : List RrdValue}

/-- The baseline of a column of numbers is its mean. -/
lemma baseline_of_allFin (h : AllFin col) (hpos : 0 < col.length) :
    ∑ k ∈ Finset.range col.length, averaged offset col k = col.sum := by
  rw [← @sum_windowMean offset col]
  simp only [h.averaged hpos]
  exact (Multiset.sum_coe _).symm

/-- The baseline is a number only if all coefficients are. -/
lemma allFin_of_baseline {q : ℚ}
    (h : (∑ k ∈ Finset.range col.length, averaged offset col k) / .fin col.length = .fin q) : AllFin col := by
  intro v hv
  obtain ⟨z, hz, rfl⟩ := List.getElem_of_mem hv
  obtain ⟨s, hs⟩ := ExtNum.fin_of_div_natCast_eq_fin (by omega) h
  obtain ⟨x, hx⟩ := ExtNum.fin_of_sum_eq_fin hs (Finset.mem_range.2 hz)
  rw [averaged] at hx
  split at hx
  · obtain ⟨w, hw⟩ := ExtNum.fin_of_div_natCast_eq_fin (Nat.succ_pos _) hx
    -- the row itself stands in the middle of its window
    obtain ⟨y, hy⟩ := ExtNum.fin_of_sum_eq_fin hw (Finset.mem_range.2 (by omega : offset < 2 * offset + 1))
    rw [sub_add_cancel, onRing_natCast hz, List.getD_eq_getElem?_getD, List.getElem?_eq_getElem hz] at hy
    exact ⟨y, hy⟩
  · cases hx

lemma notPositive_of_pos {b : RrdValue} (h : .fin 0 < b) : notPositive b = false := by
  rw [notPositive, decide_eq_true h, Bool.not_true, Bool.and_false]

/-- The forecasts of `MHWPREDICT` with coefficients that are numbers. -/
lemma multiplicative_iff (hcol : AllFin col) (hlen : 0 < col.length) {a : RrdValue} {q : ℚ} (hq : 0 < q)
    (hmean : col.sum / .fin col.length = .fin q) :
    (∀ k < col.length, (a + .fin q) * (averaged offset col k / .fin q) = a * averaged offset col k) ↔
      Neutral .multiplicative offset a col := by
  choose x hx using @AllFin.windowMean offset col hcol hlen
  have hrow : ∀ k, averaged offset col k = .fin (x k) := fun k => (hcol.averaged hlen k).trans (hx k)
  have hsum : ∑ k ∈ Finset.range col.length, x k = q * col.length := by
    have hbase := @baseline_of_allFin offset col hcol hlen
    simp only [hrow] at hbase
    have hne : (col.length : ℚ) ≠ 0 := by positivity
    rw [ExtNum.fin_sum] at hbase
    rw [← hbase, ExtNum.fin_div_fin hne, ExtNum.fin.injEq] at hmean
    rw [← hmean]
    field_simp
  simp only [hrow, multiplicative_row hq]
  constructor
  · intro h
    refine .inl ⟨hcol, fun p q' hp hq' => ?_⟩
    obtain rfl := ExtNum.fin.inj (hmean.symm.trans hq')
    -- the coefficients are not all zero
    obtain ⟨k, hk, hne⟩ : ∃ k < col.length, x k ≠ 0 := by
      by_contra hzero
      push Not at hzero
      rw [Finset.sum_eq_zero fun k hk => hzero k (Finset.mem_range.1 hk)] at hsum
      have : 0 < q * col.length := by positivity
      exact this.ne hsum
    exact (h k hk p hp).resolve_right hne
  · rintro (⟨-, h⟩ | h) k hk p rfl
    · exact .inl (h p q rfl hmean)
    · have hnone := h k hk
      rw [hrow] at hnone
      cases hnone

/-- The forecasts with all coefficients of a column, before and after renormalisation. -/
lemma neutral_iff (M : HwMethod) (hlen : 0 < col.length) {a b : RrdValue}
    (hb : b = (∑ k ∈ Finset.range col.length, averaged offset col k) / .fin col.length)
    (hpos : M = .multiplicative → .fin 0 < b) :
    (∀ k < col.length, M.combine (a + b) (M.functions.initSeasonality (averaged offset col k) b) =
      M.combine a (averaged offset col k)) ↔ Neutral M offset a col := by
  by_cases hfin : ∃ q, b = .fin q
  · obtain ⟨q, rfl⟩ := hfin
    have hcol : AllFin col := allFin_of_baseline hb.symm
    cases M with
    | additive => exact iff_of_true (fun k _ => additive_row q) (.inl ⟨hcol, trivial⟩)
    | multiplicative =>
      have hmean : col.sum / .fin col.length = .fin q := by rw [← @baseline_of_allFin offset col hcol hlen, ← hb]
      simp only [HwMethod.combine, HwMethod.functions, hwMultiplicativeFunctions, notPositive_of_pos (hpos rfl),
        Bool.false_eq_true, if_false]
      exact multiplicative_iff hcol hlen ((ExtNum.fin_lt_fin 0 q).1 (hpos rfl)) hmean
  · have hinf : ∀ q, b ≠ .fin q := fun q hq => hfin ⟨q, hq⟩
    have hcol : ¬ AllFin col := by
      intro hcol
      choose x hx using @AllFin.windowMean offset col hcol hlen
      have hne : (col.length : ℚ) ≠ 0 := by positivity
      simp only [hcol.averaged hlen, hx] at hb
      rw [ExtNum.fin_sum, ExtNum.fin_div_fin hne] at hb
      exact hinf _ hb
    have hnone : ∀ c, M.combine (a + b) (M.functions.initSeasonality c b) = .nan := by
      intro c
      cases M with
      | additive => exact additive_row_inf hinf
      | multiplicative =>
        simp only [HwMethod.combine, HwMethod.functions, hwMultiplicativeFunctions, notPositive_of_pos (hpos rfl),
          Bool.false_eq_true, if_false]
        exact multiplicative_row_inf hinf (hpos rfl)
    simp only [hnone]
    constructor
    · intro h
      exact .inr fun k hk => (h k hk).symm
    · rintro (⟨h, -⟩ | h) k hk
      · exact absurd h hcol
      · exact (h k hk).symm

end Column

section Archive

variable {version dsCnt : ℕ} {rras : List Rra} {i d : ℕ} {r hw : Rra}

@[simp] lemma ringColumn_length (rowCount : ℕ) (ring : RingBuf Row) (d : ℕ) :
    (ringColumn rowCount ring d).length = rowCount := by
  simp [ringColumn]

/-- An archive without unknown coefficients is smoothed. -/
lemma smoothedCols_eq (hoffset : 0 < smootherOffset version r.rraDef)
    (hnan : ∀ d < dsCnt, ∀ v ∈ ringColumn r.rraDef.rowCnt r.ring d, v.isnan = false) :
    smoothedCols version dsCnt r = some (((List.range dsCnt).map (ringColumn r.rraDef.rowCnt r.ring)).map
      (smoothColumn r.rraDef.rowCnt (smootherOffset version r.rraDef))) := by
  refine if_neg ?_
  rintro (hzero | hany)
  · exact hoffset.ne' hzero
  · obtain ⟨col, hcol, hany⟩ := List.any_eq_true.1 hany
    obtain ⟨v, hv, hisnan⟩ := List.any_eq_true.1 hany
    obtain ⟨d, hd, rfl⟩ := List.mem_map.1 hcol
    rw [hnan d (List.mem_range.1 hd) v hv] at hisnan
    cases hisnan

/-- A row of an archive with new columns. -/
lemma storeCols_slot {ps : List (List RrdValue × RrdValue)} {p : List RrdValue × RrdValue} (hp : ps[d]? = some p)
    (f : List RrdValue × RrdValue → List RrdValue) {k : ℕ} (hk : k < r.rraDef.rowCnt) :
    ((storeCols r (ps.map f)).ring.slot k).getD d .nan = (f p).getD k .nan := by
  simp only [storeCols, if_pos hk]
  rw [List.getD_eq_getElem?_getD, List.getElem?_map, List.getElem?_map, hp]
  rfl

/-- What `apply_smoother` stores in a row of a `SEASONAL` archive and in the intercept of its forecast. -/
lemma applySmoother_stores {M : HwMethod} (hi : rras[i]? = some r) (hcf : r.rraDef.cf = .seasonal)
    (hhw : rras[r.rraDef.dependentRraIdx]? = some hw) (hhwcf : hw.rraDef.cf = M.cf)
    (hoffset : 0 < smootherOffset version r.rraDef)
    (hnan : ∀ d < dsCnt, ∀ v ∈ ringColumn r.rraDef.rowCnt r.ring d, v.isnan = false) (hd : d < dsCnt)
    {p : List RrdValue × RrdValue}
    (hp : p = smoothColumn r.rraDef.rowCnt (smootherOffset version r.rraDef) (ringColumn r.rraDef.rowCnt r.ring d)) :
    (∀ k < r.rraDef.rowCnt, k < p.1.length →
      rowValue (applySmoother version dsCnt rras i) i k d = M.functions.initSeasonality (p.1.getD k .nan) p.2) ∧
      (d < hw.cdpPrep.length → (cdpAt (applySmoother version dsCnt rras i) r.rraDef.dependentRraIdx d).hwIntercept =
        (cdpAt rras r.rraDef.dependentRraIdx d).hwIntercept + p.2) := by
  have hne : r.rraDef.dependentRraIdx ≠ i := by
    intro heq
    rw [heq, hi] at hhw
    obtain rfl := Option.some.inj hhw
    rw [hcf] at hhwcf
    cases M <;> cases hhwcf
  have hfns : hwFunctionsOf rras r.rraDef.dependentRraIdx = some M.functions := by
    cases M <;> simp [hwFunctionsOf, rraDefAt, hhw, hhwcf, HwMethod.cf, HwMethod.functions]
  have hcols := @smoothedCols_eq version dsCnt r hoffset hnan
  have hpd : (((List.range dsCnt).map (ringColumn r.rraDef.rowCnt r.ring)).map
      (smoothColumn r.rraDef.rowCnt (smootherOffset version r.rraDef)))[d]? = some p := by
    rw [List.getElem?_map, List.getElem?_map, List.getElem?_range hd, hp]
    rfl
  rw [applySmoother_of_sea hi hcf hfns hhw hne]
  generalize ((List.range dsCnt).map (ringColumn r.rraDef.rowCnt r.ring)).map
    (smoothColumn r.rraDef.rowCnt (smootherOffset version r.rraDef)) = ps at hcols hpd
  refine ⟨fun k hk hlen => ?_, fun hlt => ?_⟩
  · rw [rowValue, List.getElem?_set_ne hne, List.getElem?_set_self (List.getElem?_eq_some_iff.1 hi).1]
    simp only [Option.map_some, Option.getD_some, smoothSea, hcols]
    rw [storeCols_slot hpd _ hk, List.getD_eq_getElem?_getD, List.getElem?_map, List.getElem?_eq_getElem hlen,
      Option.map_some, Option.getD_some, List.getD_eq_getElem?_getD, List.getElem?_eq_getElem hlen, Option.getD_some]
  · have hlt' := (List.getElem?_eq_some_iff.1 hhw).1
    rw [cdpAt, cdpAt, hhw, List.getElem?_set_self (by rw [List.length_set]; exact hlt')]
    simp only [Option.bind_some, smoothHw, hcols, List.getElem?_mapIdx, List.getElem?_eq_getElem hlt, Option.map_some,
      Option.getD_some, hpd]

/-- Renormalisation keeps every forecast along a flat line exactly if the intercept and the column are neutral. -/
theorem applySmoother_predict_iff {M : HwMethod} (hi : rras[i]? = some r) (hcf : r.rraDef.cf = .seasonal)
    (hhw : rras[r.rraDef.dependentRraIdx]? = some hw) (hhwcf : hw.rraDef.cf = M.cf)
    (hoffset : 0 < smootherOffset version r.rraDef)
    (hwindow : 4 ≤ version → ∀ w : ℚ, r.rraDef.smoothingWindow = .fin w → w ≤ 1)
    (hnan : ∀ d < dsCnt, ∀ v ∈ ringColumn r.rraDef.rowCnt r.ring d, v.isnan = false) (hd : d < dsCnt)
    (hwidth : d < hw.cdpPrep.length) {a b : RrdValue} {coefs : List RrdValue}
    (ha : a = (cdpAt rras r.rraDef.dependentRraIdx d).hwIntercept)
    (hsmooth : (coefs, b) = smoothColumn r.rraDef.rowCnt (smootherOffset version r.rraDef)
      (ringColumn r.rraDef.rowCnt r.ring d)) (hpos : M = .multiplicative → .fin 0 < b) :
    (∀ k < r.rraDef.rowCnt, ∀ n,
      M.functions.predict (cdpAt (applySmoother version dsCnt rras i) r.rraDef.dependentRraIdx d).hwIntercept (.fin 0) n
        (rowValue (applySmoother version dsCnt rras i) i k d) =
      M.functions.predict a (.fin 0) n (coefs.getD k .nan)) ↔
    Neutral M (smootherOffset version r.rraDef) a (ringColumn r.rraDef.rowCnt r.ring d) := by
  have hrows := rowCnt_pos_of_offset hoffset
  obtain ⟨hrow, hicpt⟩ := applySmoother_stores hi hcf hhw hhwcf hoffset hnan hd hsmooth
  have hlt := smootherOffset_lt hrows hwindow
  have heq := @smoothColumn_eq (smootherOffset version r.rraDef) (ringColumn r.rraDef.rowCnt r.ring d)
    (by rw [ringColumn_length]; exact hlt)
  rw [ringColumn_length, ← hsmooth, Prod.mk.injEq] at heq
  obtain ⟨hcoefs, hb⟩ := heq
  have hcoef : ∀ k < r.rraDef.rowCnt, k < coefs.length ∧ coefs.getD k .nan =
      averaged (smootherOffset version r.rraDef) (ringColumn r.rraDef.rowCnt r.ring d) k := by
    intro k hk
    rw [hcoefs, List.length_map, List.length_range, List.getD_eq_getElem?_getD, List.getElem?_map,
      List.getElem?_range hk]
    exact ⟨hk, rfl⟩
  have hneutral := @neutral_iff (smootherOffset version r.rraDef) (ringColumn r.rraDef.rowCnt r.ring d) M
    (by rw [ringColumn_length]; exact hrows) a b (by rw [ringColumn_length, hb]) hpos
  rw [ringColumn_length] at hneutral
  rw [← hneutral]
  simp only [HwMethod.predict_flat]
  constructor
  · intro h k hk
    have hk' := h k hk 0
    rwa [hicpt hwidth, hrow k hk (hcoef k hk).1, ← ha, (hcoef k hk).2] at hk'
  · intro h k hk n
    rw [hicpt hwidth, hrow k hk (hcoef k hk).1, ← ha, (hcoef k hk).2]
    exact h k hk

end Archive

example : smoothColumn 4 1 [.fin 0, .fin 3, .fin 6, .fin 3] = ([.fin 2, .fin 3, .fin 4, .fin 3], .fin 3) := by
  decide +kernel

/-- A season of four rows. -/
def season : RingBuf Row := ⟨0, fun r => [[ExtNum.fin 0, .fin 3, .fin 6, .fin 3].getD r .nan]⟩

/-- The archives of a forecast with intercept `10` and the season above. -/
def seasonRras (M : HwMethod) : List Rra :=
  [⟨hwRra M.cf 4 1, [{ (default : CdpPrep) with hwIntercept := .fin 10 }], season⟩,
    ⟨{ hwRra .seasonal 4 0 with smoothingWindow := .fin (1 / 2) }, [default], season⟩]

lemma ringColumn_season : ringColumn 4 season 0 = [.fin 0, .fin 3, .fin 6, .fin 3] := rfl

theorem applySmoother_predict_iff_additive :
    AllFin (ringColumn 4 season 0) ∧ ∀ k < 4, ∀ n,
      hwAdditiveFunctions.predict (cdpAt (applySmoother 4 1 (seasonRras .additive) 1) 0 0).hwIntercept (.fin 0) n
        (rowValue (applySmoother 4 1 (seasonRras .additive) 1) 1 k 0) =
      hwAdditiveFunctions.predict (.fin 10) (.fin 0) n
        ((smoothColumn 4 1 (ringColumn 4 season 0)).1.getD k .nan) := by
  have hoffset : smootherOffset 4 { hwRra .seasonal 4 0 with smoothingWindow := .fin (1 / 2) } = 1 := by
    decide +kernel
  have hfin : AllFin (ringColumn 4 season 0) := by simp [AllFin, ringColumn_season]
  have hcol : ∀ d < 1, ∀ v ∈ ringColumn 4 season d, v.isnan = false := by
    intro d hd v hv
    obtain rfl : d = 0 := by omega
    obtain ⟨q, rfl⟩ := hfin v hv
    rfl
  have hwindow : ∀ w : ℚ, (.fin (1 / 2) : RrdValue) = .fin w → w ≤ 1 := by
    rintro w hw
    obtain rfl := ExtNum.fin.inj hw
    norm_num
  refine ⟨hfin, ?_⟩
  exact (@applySmoother_predict_iff 4 1 (seasonRras .additive) 1 0 _ _ .additive rfl rfl rfl rfl
    (hoffset.symm ▸ Nat.one_pos) (fun _ => hwindow) hcol Nat.one_pos Nat.one_pos (.fin 10)
    (smoothColumn 4 1 (ringColumn 4 season 0)).2 (smoothColumn 4 1 (ringColumn 4 season 0)).1 rfl
    (by rw [hoffset]; rfl) (fun h => by cases h)).2 (.inl ⟨hfin, trivial⟩)

/-- `MHWPREDICT` forecasts `30` with the smoothed coefficient `3`, and `13` behind renormalisation. -/
theorem multiplicative_forecast_changes :
    (smoothColumn 4 1 (ringColumn 4 season 0)) = ([.fin 2, .fin 3, .fin 4, .fin 3], .fin 3) ∧
      hwMultiplicativeFunctions.predict (.fin 10) (.fin 0) 1 (.fin 3) = .fin 30 ∧
      hwMultiplicativeFunctions.predict (cdpAt (applySmoother 4 1 (seasonRras .multiplicative) 1) 0 0).hwIntercept
        (.fin 0) 1 (rowValue (applySmoother 4 1 (seasonRras .multiplicative) 1) 1 1 0) = .fin 13 ∧
      ¬ ∀ k < 4, ∀ n,
        hwMultiplicativeFunctions.predict
            (cdpAt (applySmoother 4 1 (seasonRras .multiplicative) 1) 0 0).hwIntercept (.fin 0) n
            (rowValue (applySmoother 4 1 (seasonRras .multiplicative) 1) 1 k 0) =
          hwMultiplicativeFunctions.predict (.fin 10) (.fin 0) n
            ((smoothColumn 4 1 (ringColumn 4 season 0)).1.getD k .nan) := by
  have hcol : smoothColumn 4 1 (ringColumn 4 season 0) = ([.fin 2, .fin 3, .fin 4, .fin 3], .fin 3) := by
    decide +kernel
  have hbefore : hwMultiplicativeFunctions.predict (.fin 10) (.fin 0) 1 (.fin 3) = .fin 30 := by decide +kernel
  have hbehind : hwMultiplicativeFunctions.predict
      (cdpAt (applySmoother 4 1 (seasonRras .multiplicative) 1) 0 0).hwIntercept (.fin 0) 1
        (rowValue (applySmoother 4 1 (seasonRras .multiplicative) 1) 1 1 0) = .fin 13 := by decide +kernel
  refine ⟨hcol, hbefore, hbehind, fun h => ?_⟩
  have hrow := h 1 (by decide) 1
  rw [hcol, hbehind] at hrow
  have hwrong : (.fin 13 : RrdValue) = .fin 30 := hrow.trans hbefore
  rw [ExtNum.fin.injEq] at hwrong
  norm_num at hwrong

end Rrdtool
