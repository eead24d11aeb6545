import Rrdtool.Update.ForecastOrder

/-!
# Multiplicative forecasts and the order of the archives

`MHWPREDICT` with its `SEASONAL`, `DEVSEASONAL` and `DEVPREDICT` archives. Of the two branches of `update_seasonal` one
forces the first coefficient to one, the other divides the first value by itself, which `src/rrd_hw_math.c` answers with
NaN unless the value is positive. A coefficient that is not positive makes the intercept NaN later on; then the model
starts again in the middle of a run, with coefficients that are known, and the branches differ there too.
`run_sameForecast_multiplicative` is the result for the runs in which neither happens.
-/

namespace Rrdtool

/-- The method is not about to start from a value that is not positive, nor with a coefficient that is known: for each
data source the value is unknown, or the intercept and the slope are known, or nothing is known and the value is
positive. -/
def HwOp.StartsPositive (g : Member → ℕ) (rrd : Rrd) : HwOp → Prop
  | .update _ temps _ _ => ∀ d < rrd.dsCnt,
    let hw := cdpAt rrd.rra (g .hw) d
    temps.getD d .nan = .nan ∨ (hw.hwIntercept.isnan = false ∧ hw.hwSlope.isnan = false) ∨
      hw.hwIntercept = .nan ∧ (cdpAt rrd.rra (g .sea) d).hwIntercept = .nan ∧
        ∃ q : ℚ, 0 < q ∧ temps.getD d .nan = .fin q
  | .smooth => True

section Run

variable {h h' : Header} {g : Member → ℕ} {rrd : Rrd}

/-- A positive value over itself is the coefficient that is forced. -/
lemma initSeasonality_self {q : ℚ} (hq : 0 < q) :
    HwMethod.multiplicative.functions.initSeasonality (.fin q) (.fin q) = HwMethod.multiplicative.functions.identity := by
  have hpos : notPositive (.fin q) = false := by simp [notPositive, hq]
  simp only [HwMethod.functions, hwMultiplicativeFunctions, hpos, Bool.false_eq_true, if_false]
  rw [ExtNum.fin_div_fin hq.ne', div_self hq.ne']

lemma HwOp.StartsPositive.starts {op : HwOp} (h : op.StartsPositive g rrd) : op.Starts .multiplicative g rrd := by
  cases op with
  | smooth => trivial
  | update procPdpCnt temps coef time =>
    intro d hd
    obtain hnan | ⟨hI, hS⟩ | ⟨hI, hs, q, hq, hx⟩ := h d hd
    · exact .unknown hnan
    · exact .running hI hS
    · refine .bootstrap hI hs ?_
      rw [hx]
      exact initSeasonality_self hq

/-- Files whose archives are in a different order store the same multiplicative forecasts, in every run in which the
method starts from positive values. -/
theorem run_sameForecast_multiplicative {σ : Equiv.Perm ℕ} {random random' : ℕ → ℕ} (hre : h.Reordered h' σ)
    (hrandom : ∀ i, random' (σ i) = random i) (hlinked : LinkedBy .multiplicative (h.rra[·]?) g) {ops : List HwOp}
    (hstart : ∀ ops₁ op, ops₁ ++ [op] <+: ops → op.StartsPositive g (ops₁.foldl Rrd.hwStep (rrdInitData h random)))
    (m : Member) :
    ∃ r r', (ops.foldl Rrd.hwStep (rrdInitData h random)).rra[g m]? = some r ∧
      (ops.foldl Rrd.hwStep (rrdInitData h' random')).rra[σ (g m)]? = some r' ∧
      r'.ring = r.ring ∧ r'.cdpPrep = r.cdpPrep := by
  obtain ⟨-, -, hsame⟩ := run_same_of_starts hre hrandom hlinked.devpredict (fun hT => DevReader.noConfusion hT)
    fun ops₁ op hfront => (hstart ops₁ op hfront).starts
  exact hsame.ring_cdpPrep m

end Run

/-- The archives with `MHWPREDICT` in front. -/
def mhwFirst : Header :=
  forecastHeader [hwRra .mhwpredict 4 1, hwRra .seasonal 4 0, hwRra .devseasonal 4 0, hwRra .devpredict 4 2] (by
    simp only [List.forall_mem_cons, List.not_mem_nil, false_implies, implies_true, and_true]
    exact ⟨hwRra_valid rfl (by decide), hwRra_valid rfl (by decide), hwRra_valid rfl (by decide),
      hwRra_valid rfl (by decide)⟩)

/-- The same archives with `SEASONAL` in front. -/
def mhwSeasonalFirst : Header :=
  forecastHeader [hwRra .seasonal 4 1, hwRra .mhwpredict 4 0, hwRra .devseasonal 4 1, hwRra .devpredict 4 2] (by
    simp only [List.forall_mem_cons, List.not_mem_nil, false_implies, implies_true, and_true]
    exact ⟨hwRra_valid rfl (by decide), hwRra_valid rfl (by decide), hwRra_valid rfl (by decide),
      hwRra_valid rfl (by decide)⟩)

lemma mhwFirst_reordered : mhwFirst.Reordered mhwSeasonalFirst (Equiv.swap 0 1) := by
  refine ⟨rfl, rfl, rfl, rfl, fun i => ?_⟩
  match i with
  | 0 => rfl
  | 1 => rfl
  | 2 => rfl
  | 3 => rfl
  | i + 4 =>
    rw [Equiv.swap_apply_of_ne_of_ne (by omega) (by omega)]
    rfl

lemma mhwFirst_linked : LinkedBy .multiplicative (mhwFirst.rra[·]?) hwFirstIdx := by
  refine ⟨fun m => ?_, fun j r hj hcf _ => ?_⟩
  · cases m <;> exact ⟨_, rfl, rfl, rfl, by decide, rfl⟩
  · match j with
    | 0 => cases Option.some.inj hj; cases hcf
    | 1 => rfl
    | 2 => cases Option.some.inj hj; cases hcf
    | 3 => cases Option.some.inj hj; cases hcf
    | j + 4 => cases hj

theorem run_sameForecast_multiplicative_swapped :
    ∃ r r', ([.update 0 [.nan] ⟨[], []⟩ 10, .update 1 [.fin 5] ⟨[], []⟩ 20, .smooth].foldl Rrd.hwStep
        (rrdInitData mhwFirst fun _ => 0)).rra[1]? = some r ∧
      ([.update 0 [.nan] ⟨[], []⟩ 10, .update 1 [.fin 5] ⟨[], []⟩ 20, .smooth].foldl Rrd.hwStep
        (rrdInitData mhwSeasonalFirst fun _ => 0)).rra[0]? = some r' ∧ r'.ring = r.ring ∧ r'.cdpPrep = r.cdpPrep := by
  refine @run_sameForecast_multiplicative mhwFirst mhwSeasonalFirst hwFirstIdx (Equiv.swap 0 1) (fun _ => 0) (fun _ => 0)
    mhwFirst_reordered (fun _ => rfl) mhwFirst_linked _ ?_ .sea
  rintro ops₁ op ⟨rest, heq⟩
  match ops₁ with
  | [] =>
    cases heq
    intro d hd
    obtain rfl : d = 0 := Nat.lt_one_iff.1 hd
    exact .inl rfl
  | [_] =>
    cases heq
    intro d hd
    obtain rfl : d = 0 := Nat.lt_one_iff.1 hd
    exact .inr (.inr ⟨by decide +kernel, by decide +kernel, 5, by norm_num, rfl⟩)
  | [_, _] =>
    cases heq
    trivial
  | _ :: _ :: _ :: ops₁ => simp at heq

/-- A first value of zero: `SEASONAL` stores an unknown coefficient behind `MHWPREDICT`, and one in front of it. With
a later zero the model starts again in the second season, from a coefficient of two that is known. -/
theorem multiplicative_start_shows_order :
    mhwFirst.Reordered mhwSeasonalFirst (Equiv.swap 0 1) ∧
      ([HwOp.update 0 [.fin 0] ⟨[], []⟩ 10].foldl Rrd.hwStep
        (rrdInitData mhwFirst fun _ => 0)).rra[1]?.map (fun r => r.ring.slot 1) = some [.nan] ∧
      ([HwOp.update 0 [.fin 0] ⟨[], []⟩ 10].foldl Rrd.hwStep
        (rrdInitData mhwSeasonalFirst fun _ => 0)).rra[0]?.map (fun r => r.ring.slot 1) = some [.fin 1] ∧
      (([5, 0, 10, 5, 5, 5, 10].map fun q => HwOp.update 0 [.fin q] ⟨[], []⟩ 10).foldl Rrd.hwStep
        (rrdInitData mhwFirst fun _ => 0)).rra[1]?.map (fun r => r.ring.slot 3) = some [.fin (3 / 2)] ∧
      (([5, 0, 10, 5, 5, 5, 10].map fun q => HwOp.update 0 [.fin q] ⟨[], []⟩ 10).foldl Rrd.hwStep
        (rrdInitData mhwSeasonalFirst fun _ => 0)).rra[0]?.map (fun r => r.ring.slot 3) = some [.fin 1] :=
  ⟨mhwFirst_reordered, by decide +kernel, by decide +kernel, by decide +kernel, by decide +kernel⟩

end Rrdtool
