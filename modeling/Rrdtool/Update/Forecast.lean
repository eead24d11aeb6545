import Rrdtool.Update.SeasonalCache

/-!
# The order of the forecasting archives

`HWPREDICT`, `SEASONAL`, `DEVSEASONAL` and `DEVPREDICT` archives that are linked to each other are updated in
the order of the file, and each of them decides by the indices whether a partner has been updated already,
to read the copies of the values before (`src/rrd_hw_update.c`). Each update function is shown to compute
what it would compute before all others (index `0`), so that the order does not matter; `run_sameForecast`
is the result for whole runs.

Two branches of `update_seasonal` agree only as long as the intercept is known when the slope or the
coefficient is, and `x - x` is zero. An infinite value breaks both.
-/

namespace Rrdtool

/-- The phases of a data source: nothing has been observed, or the intercept and the slope are known. -/
inductive HwPhase (hw : CdpPrep) (seasonal : RrdValue) : Prop where
  | bootstrap : hw.hwIntercept = .nan → seasonal = .nan → HwPhase hw seasonal
  | running {i q : ℚ} : hw.hwIntercept = .fin i → hw.hwSlope = .fin q → seasonal.isinf = false →
      HwPhase hw seasonal

/-- The two methods. -/
inductive HwMethod where
  | additive
  | multiplicative

/-- The consolidation function of the forecasting archive. -/
@[grind] def HwMethod.cf : HwMethod → Cf
  | .additive => .hwpredict
  | .multiplicative => .mhwpredict

@[grind] def HwMethod.functions : HwMethod → HwFunctions
  | .additive => hwAdditiveFunctions
  | .multiplicative => hwMultiplicativeFunctions

/-- The new intercept depends on the line only. -/
lemma HwMethod.intercept_congr (M : HwMethod) (alpha observed seasonal : RrdValue) {c c' : CdpPrep}
    (h : hwBaseline c = hwBaseline c') :
    M.functions.intercept alpha observed seasonal c = M.functions.intercept alpha observed seasonal c' := by
  cases M with
  | additive => simp only [HwMethod.functions, hwAdditiveFunctions, h]
  | multiplicative => simp only [HwMethod.functions, hwMultiplicativeFunctions, h]

/-- The order of the archives does not matter for the next value of a data source: it is unknown, or the intercept and
the slope are known, or nothing is known and the value is a first coefficient like the one that is forced. -/
inductive Starts (M : HwMethod) (hw : CdpPrep) (seasonal x : RrdValue) : Prop where
  | unknown : x = .nan → Starts M hw seasonal x
  | running : hw.hwIntercept.isnan = false → hw.hwSlope.isnan = false → Starts M hw seasonal x
  | bootstrap : hw.hwIntercept = .nan → seasonal = .nan →
    M.functions.initSeasonality x x = M.functions.identity → Starts M hw seasonal x

section Members

variable {M : HwMethod} {mid rras : List Rra} {rra hwDef : RraDef} {i d : ℕ} {c : CdpPrep} {x coef : RrdValue}

/-- `update_hwpredict` reads the coefficient as it was, whether `SEASONAL` has been updated or not. -/
lemma updateHwpredict_early
    (hsea : (if rra.dependentRraIdx < i then (cdpAt mid rra.dependentRraIdx d).hwLastIntercept
      else (cdpAt mid rra.dependentRraIdx d).hwIntercept) = (cdpAt rras rra.dependentRraIdx d).hwIntercept) :
    updateHwpredict mid rra i d .primary M.functions c = updateHwpredict rras rra 0 d .primary M.functions c := by
  simp only [updateHwpredict, hsea, Nat.not_lt_zero, if_false]

/-- `update_hwpredict` saves the coefficients it started from, unless it initialises them. -/
lemma updateHwpredict_last {hw : CdpPrep} (h : x = .nan ∨ hw.hwIntercept.isnan = false) :
    (updateHwpredict rras rra 0 d .primary M.functions (hw.set .primary x)).hwLastIntercept = hw.hwIntercept ∧
      (updateHwpredict rras rra 0 d .primary M.functions (hw.set .primary x)).hwLastSlope = hw.hwSlope ∧
      (updateHwpredict rras rra 0 d .primary M.functions (hw.set .primary x)).lastNullCount = hw.nullCount := by
  have hinit : (hw.hwIntercept.isnan && !x.isnan) = false := by
    obtain rfl | hknown := h
    · exact Bool.and_false _
    · rw [hknown, Bool.false_and]
  have hcond : ((hw.set .primary x).hwIntercept.isnan && !((hw.set .primary x).get .primary).isnan) = false := hinit
  simp only [updateHwpredict, CdpPrep.get, CdpPrep.set] at hcond ⊢
  simp only [hcond, Bool.false_eq_true, if_false]
  split_ifs <;> exact ⟨rfl, rfl, rfl⟩

/-- The first value becomes the intercept. -/
lemma updateHwpredict_init {hw : CdpPrep} (hI : hw.hwIntercept = .nan) (hx : x.isnan = false) :
    (updateHwpredict rras rra 0 d .primary M.functions (hw.set .primary x)).hwLastIntercept = x ∧
      (updateHwpredict rras rra 0 d .primary M.functions (hw.set .primary x)).hwLastSlope = .fin 0 := by
  simp only [updateHwpredict, CdpPrep.get, CdpPrep.set, hI, hx, initSlopeIntercept]
  exact ⟨rfl, rfl⟩

/-- The intercept behind a known value. -/
lemma updateHwpredict_intercept {hw : CdpPrep} (hI : hw.hwIntercept.isnan = false) (hS : hw.hwSlope.isnan = false)
    (hsea : (cdpAt rras rra.dependentRraIdx d).hwIntercept.isnan = false) (hx : x.isnan = false) :
    (updateHwpredict rras rra 0 d .primary M.functions (hw.set .primary x)).hwIntercept =
      M.functions.intercept rra.hwAlpha x (cdpAt rras rra.dependentRraIdx d).hwIntercept hw := by
  simp only [updateHwpredict, CdpPrep.get, CdpPrep.set, Nat.not_lt_zero, if_false, hI, hS, hsea, hx, Bool.or_false,
    Bool.false_eq_true]
  exact M.intercept_congr _ _ _ rfl

/-- `update_seasonal` behind `HWPREDICT` stores what it stores in front of it. -/
lemma updateSeasonal_late (hi : rra.dependentRraIdx < i)
    (hdef : rraDefAt rras rra.dependentRraIdx = some hwDef)
    (hsea : (cdpAt rras hwDef.dependentRraIdx d).hwIntercept = c.hwIntercept)
    (hmid : cdpAt mid rra.dependentRraIdx d = updateHwpredict rras hwDef 0 d .primary M.functions
      ((cdpAt rras rra.dependentRraIdx d).set .primary x))
    (hstart : Starts M (cdpAt rras rra.dependentRraIdx d) c.hwIntercept x) :
    updateSeasonal mid rra i d .primary coef M.functions (c.set .primary x) =
      updateSeasonal rras rra 0 d .primary coef M.functions (c.set .primary x) := by
  cases hx : x.isnan with
  | true => simp only [updateSeasonal, CdpPrep.get, CdpPrep.set, hx, if_true]
  | false =>
    cases hstart with
    | unknown hnan =>
      rw [hnan] at hx
      cases hx
    | bootstrap hI hs hfirst =>
      obtain ⟨hlast, hslope⟩ := @updateHwpredict_init M rras hwDef d x _ hI hx
      generalize updateHwpredict rras hwDef 0 d .primary M.functions _ = hw at hmid hlast hslope
      simp only [updateSeasonal, CdpPrep.get, CdpPrep.set, hi, hmid, hlast, hslope, hx, hs, hI, hfirst, if_true,
        Nat.not_lt_zero, if_false, ExtNum.isnan_nan, ExtNum.isnan_fin, Bool.or_false, Bool.true_or, Bool.false_eq_true]
    | running hI hS =>
      obtain ⟨hlast, hslope, -⟩ := @updateHwpredict_last M rras hwDef d x _ (.inr hI)
      cases hs : c.hwIntercept.isnan with
      | true =>
        generalize updateHwpredict rras hwDef 0 d .primary M.functions _ = hw at hmid hlast hslope
        simp only [updateSeasonal, CdpPrep.get, CdpPrep.set, hi, hmid, hlast, hslope, hx, hs, hI, hS, if_true,
          Nat.not_lt_zero, if_false, Bool.or_false, Bool.false_eq_true]
      | false =>
        have hnew := @updateHwpredict_intercept M rras hwDef d x _ hI hS (hsea ▸ hs) hx
        rw [hsea] at hnew
        generalize updateHwpredict rras hwDef 0 d .primary M.functions _ = hw at hmid hlast hslope hnew
        simp only [updateSeasonal, CdpPrep.get, CdpPrep.set, hi, hmid, hlast, hslope, hx, hs, hI, hS, hnew, hdef, if_true,
          Nat.not_lt_zero, if_false, Bool.or_false, Bool.false_eq_true, Option.map_some, Option.getD_some]

/-- `update_devseasonal` computes with the coefficients as they were. -/
lemma updateDevseasonal_early (hdef : rraDefAt rras rra.dependentRraIdx = some hwDef)
    (hdefs : ∀ j, rraDefAt mid j = rraDefAt rras j)
    (hsea : (if hwDef.dependentRraIdx < i then (cdpAt mid hwDef.dependentRraIdx d).hwLastIntercept
      else (cdpAt mid hwDef.dependentRraIdx d).hwIntercept) = (cdpAt rras hwDef.dependentRraIdx d).hwIntercept)
    (hmid : cdpAt mid rra.dependentRraIdx d = if rra.dependentRraIdx < i then
      updateHwpredict rras hwDef 0 d .primary M.functions
        ((cdpAt rras rra.dependentRraIdx d).set .primary x) else cdpAt rras rra.dependentRraIdx d)
    (hstart : Starts M (cdpAt rras rra.dependentRraIdx d) (cdpAt rras hwDef.dependentRraIdx d).hwIntercept x) :
    updateDevseasonal mid rra i d .primary coef M.functions c =
      updateDevseasonal rras rra 0 d .primary coef M.functions c := by
  have hdep : hwDepIdx rras rra.dependentRraIdx = hwDef.dependentRraIdx := by
    rw [hwDepIdx, hdef]
    rfl
  have hdep' : hwDepIdx mid rra.dependentRraIdx = hwDef.dependentRraIdx := by
    rw [hwDepIdx, hdefs, hdef]
    rfl
  simp only [updateDevseasonal, hdep, hdep', hsea, Nat.not_lt_zero, if_false, hmid]
  by_cases hi : rra.dependentRraIdx < i
  · have hlast := fun h => @updateHwpredict_last M rras hwDef d x (cdpAt rras rra.dependentRraIdx d) h
    cases hstart with
    | unknown hnan =>
      obtain ⟨hI, hS, hn⟩ := hlast (.inl hnan)
      simp only [if_pos hi, hI, hS, hn]
    | running hI hS =>
      obtain ⟨hI, hS, hn⟩ := hlast (.inr hI)
      simp only [if_pos hi, hI, hS, hn]
    | bootstrap hI hs hfirst => simp only [hs, ExtNum.isnan_nan, Bool.or_true, if_true]
  · simp only [if_neg hi]

lemma updateDevpredict_early
    (hdev : (if rra.dependentRraIdx < i then (cdpAt mid rra.dependentRraIdx d).hwLastIntercept
      else (cdpAt mid rra.dependentRraIdx d).hwIntercept) = (cdpAt rras rra.dependentRraIdx d).hwIntercept) :
    updateDevpredict mid rra i d .primary c = updateDevpredict rras rra 0 d .primary c := by
  simp only [updateDevpredict, hdev, Nat.not_lt_zero, if_false]

end Members

/-! ### Linked archives -/

/-- The archives of a forecast. -/
inductive Member where
  | hw
  | sea
  | dev
  | pred
deriving DecidableEq

/-- The consolidation function of a member. -/
@[grind] def Member.cf : Member → Cf
  | .hw => .hwpredict
  | .sea => .seasonal
  | .dev => .devseasonal
  | .pred => .devpredict

/-- The member that `dependent_rra_idx` stands for. -/
@[grind] def Member.dep : Member → Member
  | .hw => .sea
  | .sea => .hw
  | .dev => .hw
  | .pred => .dev

/-- The archives at `g` are linked to each other. -/
structure Linked (defs : ℕ → Option RraDef) (g : Member → ℕ) : Prop where
  member : ∀ m, ∃ r, defs (g m) = some r ∧ r.cf = m.cf ∧ r.pdpCnt = 1 ∧ 0 < r.rowCnt ∧
    r.dependentRraIdx = g m.dep
  only : ∀ j r, defs j = some r → r.cf = .seasonal → r.dependentRraIdx = g .hw → j = g .sea

/-- The consolidation function of a member of a forecast with the given method. -/
def Member.cfBy (M : HwMethod) : Member → Cf
  | .hw => M.cf
  | m => m.cf

/-- The archives at `g` are linked to each other, and `g .hw` uses the given method. -/
structure LinkedBy (M : HwMethod) (defs : ℕ → Option RraDef) (g : Member → ℕ) : Prop where
  member : ∀ m, ∃ r, defs (g m) = some r ∧ r.cf = m.cfBy M ∧ r.pdpCnt = 1 ∧ 0 < r.rowCnt ∧
    r.dependentRraIdx = g m.dep
  only : ∀ j r, defs j = some r → r.cf = .seasonal → r.dependentRraIdx = g .hw → j = g .sea

lemma Linked.additive {defs : ℕ → Option RraDef} {g : Member → ℕ} (h : Linked defs g) : LinkedBy .additive defs g := by
  refine ⟨fun m => ?_, h.only⟩
  have hmember := h.member m
  cases m <;> exact hmember

/-- An archive that reads the deviations. -/
inductive DevReader where
  | devpredict
  | failures

@[grind] def DevReader.cf : DevReader → Cf
  | .devpredict => .devpredict
  | .failures => .failures

/-- The consolidation function of a member, when `pred` stands for the given reader of the deviations. -/
def Member.cfFor (M : HwMethod) (T : DevReader) : Member → Cf
  | .pred => T.cf
  | m => m.cfBy M

/-- The archives at `g` are linked to each other, and a `FAILURES` archive finds `SEASONAL` and `DEVSEASONAL` on the
same side of it. -/
structure LinkedFor (M : HwMethod) (T : DevReader) (defs : ℕ → Option RraDef) (g : Member → ℕ) : Prop where
  member : ∀ m, ∃ r, defs (g m) = some r ∧ r.cf = m.cfFor M T ∧ r.pdpCnt = 1 ∧ 0 < r.rowCnt ∧
    r.dependentRraIdx = g m.dep
  only : ∀ j r, defs j = some r → r.cf = .seasonal → r.dependentRraIdx = g .hw → j = g .sea
  side : T = .failures → (g .pred < g .sea ↔ g .pred < g .dev)

lemma LinkedBy.devpredict {M : HwMethod} {defs : ℕ → Option RraDef} {g : Member → ℕ} (h : LinkedBy M defs g) :
    LinkedFor M .devpredict defs g := by
  refine ⟨fun m => ?_, h.only, fun hT => DevReader.noConfusion hT⟩
  have hmember := h.member m
  cases m <;> exact hmember

/-- The indices of the members are different. -/
lemma LinkedFor.injective {M : HwMethod} {T : DevReader} {defs : ℕ → Option RraDef} {g : Member → ℕ}
    (h : LinkedFor M T defs g) {m m' : Member} (heq : g m = g m') : m = m' := by
  obtain ⟨r, hr, hcf, -⟩ := h.member m
  obtain ⟨r', hr', hcf', -⟩ := h.member m'
  rw [heq, hr'] at hr
  obtain rfl := Option.some.inj hr
  rw [hcf] at hcf'
  cases T <;> cases M <;> cases m <;> cases m' <;> first | rfl | cases hcf'

/-- The prediction and the deviation before the pass. -/
@[grind] def earlyInputs (rras : List Rra) (rra : RraDef) (d : ℕ) (fns : HwFunctions) : RrdValue × RrdValue :=
  let devIdx := rra.dependentRraIdx
  let hwIdx := hwDepIdx rras devIdx
  let hw := cdpAt rras hwIdx d
  (fns.predict hw.hwIntercept hw.hwSlope hw.nullCount (cdpAt rras (hwDepIdx rras hwIdx) d).hwIntercept,
    (cdpAt rras devIdx d).hwIntercept)

/-- What `update_aberrant_CF` computes before any partner of the archive is updated. -/
@[grind] def earlyCF (M : HwMethod) (rras : List Rra) (rra : RraDef) (d : ℕ) (coef : RrdValue) (c : CdpPrep) : CdpPrep :=
  match rra.cf with
  | .hwpredict | .mhwpredict => updateHwpredict rras rra 0 d .primary M.functions c
  | .seasonal => updateSeasonal rras rra 0 d .primary coef M.functions c
  | .devseasonal => updateDevseasonal rras rra 0 d .primary coef M.functions c
  | .failures =>
    storeFailure rra .primary (failureJudgement rra (earlyInputs rras rra d M.functions) (c.get .primary)) c
  | _ => updateDevpredict rras rra 0 d .primary c

lemma updateAberrantCF_hwLastIntercept {rras : List Rra} {rra : RraDef} {i d : ℕ} {k : ScratchIdx}
    {coef x : RrdValue} (hcf : rra.cf.isSeasonal) (hlinked : hwFunctionsOf rras rra.dependentRraIdx ≠ none) :
    (updateAberrantCF rras rra i d k coef x).hwLastIntercept = (cdpAt rras i d).hwIntercept := by
  obtain ⟨fns, hfns⟩ := Option.ne_none_iff_exists'.1 hlinked
  have hset : ∀ (c : CdpPrep) v, (c.set k v).hwLastIntercept = c.hwLastIntercept := by
    intro c v
    cases k <;> rfl
  obtain hsea | hdev : rra.cf = .seasonal ∨ rra.cf = .devseasonal := by simpa [Cf.isSeasonal] using hcf
  · simp only [updateAberrantCF, hsea, hfns, updateSeasonal]
    split_ifs <;> simp only [hset, set_hwIntercept]
  · simp only [updateAberrantCF, hdev, hfns, updateDevseasonal]
    split_ifs <;> simp only [hset, set_hwIntercept]

section Slot

variable {M : HwMethod} {T : DevReader} {rras : List Rra} {temps : List RrdValue} {g : Member → ℕ} {n d : ℕ}

/-- The members of a forecast among the archives. -/
structure Members (M : HwMethod) (T : DevReader) (rras : List Rra) (g : Member → ℕ) (n : ℕ) : Prop where
  linked : LinkedFor M T (rraDefAt rras) g
  width : ∀ m r, rras[g m]? = some r → r.cdpPrep.length = n

lemma Members.at (h : Members M T rras g n) (m : Member) :
    ∃ r, rras[g m]? = some r ∧ r.rraDef.cf = m.cfFor M T ∧ r.rraDef.pdpCnt = 1 ∧ 0 < r.rraDef.rowCnt ∧
      r.rraDef.dependentRraIdx = g m.dep ∧ r.cdpPrep.length = n := by
  obtain ⟨rd, hdef, hcf, hone, hrows, hdep⟩ := h.linked.member m
  obtain ⟨r, hr, rfl⟩ := Option.map_eq_some_iff.1 hdef
  exact ⟨r, hr, hcf, hone, hrows, hdep, h.width m r hr⟩

lemma Members.hwFunctionsOf (h : Members M T rras g n) : hwFunctionsOf rras (g .hw) = some M.functions := by
  obtain ⟨r, hr, hcf, -⟩ := h.at .hw
  cases M <;> simp [Rrdtool.hwFunctionsOf, rraDefAt, hr, hcf, Member.cfFor, Member.cfBy, HwMethod.cf, HwMethod.functions]

lemma hwFunctionsOf_updateAberrantSlot (h : Members M T rras g n) (m : ℕ) :
    Rrdtool.hwFunctionsOf (updateAberrantSlot 1 temps .primary rras m) (g .hw) = some M.functions := by
  rw [← h.hwFunctionsOf, Rrdtool.hwFunctionsOf, Rrdtool.hwFunctionsOf, rraDefAt_updateAberrantSlot]

/-- A reader of a seasonal member gets the coefficient as it was. -/
lemma Members.read_coef (h : Members M T rras g n) (hd : d < n) {m : Member} (hm : m = .sea ∨ m = .dev) (i : ℕ) :
    (if g m < i then (cdpAt (updateAberrantSlot 1 temps .primary rras i) (g m) d).hwLastIntercept
      else (cdpAt (updateAberrantSlot 1 temps .primary rras i) (g m) d).hwIntercept) =
      (cdpAt rras (g m) d).hwIntercept := by
  obtain ⟨r, hr, hcf, hone, -, hdep, hwidth⟩ := h.at m
  have hcf' : r.rraDef.cf.isSeasonal := by
    rw [hcf]
    obtain rfl | rfl := hm <;> rfl
  have hdepHw : m.dep = .hw := by
    obtain rfl | rfl := hm <;> rfl
  rw [cdpAt_updateAberrantSlot hr hone (hwidth ▸ hd)]
  split
  · rw [updateAberrantCF_hwLastIntercept hcf' (by
      rw [hdep, hdepHw, hwFunctionsOf_updateAberrantSlot h]
      exact Option.some_ne_none _)]
    rw [cdpAt_updateAberrantSlot hr hone (hwidth ▸ hd), if_neg (lt_irrefl _)]
  · rfl

/-- The forecasting archive, wherever it stands. -/
lemma Members.hw_early (h : Members M T rras g n) (hd : d < n) {r : Rra} (hr : rras[g .hw]? = some r)
    (coef x : RrdValue) :
    updateAberrantCF (updateAberrantSlot 1 temps .primary rras (g .hw)) r.rraDef (g .hw) d .primary coef x =
      updateHwpredict rras r.rraDef 0 d .primary M.functions ((cdpAt rras (g .hw) d).set .primary x) := by
  obtain ⟨r', hr', hcf, hone, -, hdep, hwidth⟩ := h.at .hw
  obtain rfl := Option.some.inj (hr.symm.trans hr')
  have hown := @cdpAt_updateAberrantSlot 1 temps .primary rras (g .hw) (g .hw) d r hr hone (hwidth ▸ hd)
  rw [if_neg (lt_irrefl _)] at hown
  have hearly := @updateHwpredict_early M (updateAberrantSlot 1 temps .primary rras (g .hw)) rras r.rraDef (g .hw) d
    ((cdpAt rras (g .hw) d).set .primary x) (by
      rw [hdep]
      exact h.read_coef hd (.inl rfl) (g .hw))
  cases M with
  | additive =>
    have hcf : r.rraDef.cf = .hwpredict := hcf
    simp only [updateAberrantCF, hcf, hown]
    exact hearly
  | multiplicative =>
    have hcf : r.rraDef.cf = .mhwpredict := hcf
    simp only [updateAberrantCF, hcf, hown]
    exact hearly

lemma Members.earlyCF_hw (h : Members M T rras g n) {r : Rra} (hr : rras[g .hw]? = some r) (coef : RrdValue)
    (mid : List Rra) (c : CdpPrep) :
    earlyCF M mid r.rraDef d coef c = updateHwpredict mid r.rraDef 0 d .primary M.functions c := by
  obtain ⟨r', hr', hcf, -⟩ := h.at .hw
  obtain rfl := Option.some.inj (hr.symm.trans hr')
  cases M with
  | additive =>
    have hcf : r.rraDef.cf = .hwpredict := hcf
    simp only [earlyCF, hcf]
  | multiplicative =>
    have hcf : r.rraDef.cf = .mhwpredict := hcf
    simp only [earlyCF, hcf]

/-- The forecasting archive as another member finds it. -/
lemma Members.hw_mid (h : Members M T rras g n) (hd : d < n) {hw : Rra} (hhw : rras[g .hw]? = some hw) (i : ℕ) :
    cdpAt (updateAberrantSlot 1 temps .primary rras i) (g .hw) d =
      if g .hw < i then updateHwpredict rras hw.rraDef 0 d .primary M.functions
        ((cdpAt rras (g .hw) d).set .primary (temps.getD d .nan)) else cdpAt rras (g .hw) d := by
  obtain ⟨hw', hhw', -, hone, -, -, hwidth⟩ := h.at .hw
  obtain rfl := Option.some.inj (hhw.symm.trans hhw')
  rw [cdpAt_updateAberrantSlot hhw hone (hwidth ▸ hd), h.hw_early hd hhw]

/-- The indices that lead from a reader of the deviations to the other members. -/
lemma Members.hwDepIdx_eq (h : Members M T rras g n) : hwDepIdx rras (g .dev) = g .hw ∧ hwDepIdx rras (g .hw) = g .sea := by
  obtain ⟨dev, hdev, -, -, -, hdevdep, -⟩ := h.at .dev
  obtain ⟨hw, hhw, -, -, -, hhwdep, -⟩ := h.at .hw
  rw [hwDepIdx, hwDepIdx, rraDefAt, rraDefAt, hdev, hhw]
  exact ⟨hdevdep, hhwdep⟩

/-- An unknown coefficient gives no prediction. -/
lemma HwMethod.predict_nan (M : HwMethod) (intercept slope : RrdValue) (nullCount : ℕ) :
    M.functions.predict intercept slope nullCount .nan = .nan := by
  cases M with
  | additive => exact ExtNum.add_nan _
  | multiplicative => exact ExtNum.mul_nan _

/-- `update_failures` judges by the prediction and the deviation before the pass. -/
lemma Members.failureInputs_early (h : Members M .failures rras g n) (hd : d < n)
    (hstart : Starts M (cdpAt rras (g .hw) d) (cdpAt rras (g .sea) d).hwIntercept (temps.getD d .nan)) {r : Rra}
    (hr : rras[g .pred]? = some r) :
    failureInputs (updateAberrantSlot 1 temps .primary rras (g .pred)) r.rraDef (g .pred) d M.functions =
      earlyInputs rras r.rraDef d M.functions := by
  obtain ⟨r', hr', -, -, -, hdep, -⟩ := h.at .pred
  obtain rfl := Option.some.inj (hr.symm.trans hr')
  have hdep : r.rraDef.dependentRraIdx = g .dev := hdep
  obtain ⟨hw, hhw, -⟩ := h.at .hw
  obtain ⟨hdevIdx, hhwIdx⟩ := h.hwDepIdx_eq
  have hdepMid : ∀ j, hwDepIdx (updateAberrantSlot 1 temps .primary rras (g .pred)) j = hwDepIdx rras j := fun j => by
    rw [hwDepIdx, hwDepIdx, rraDefAt_updateAberrantSlot]
  -- a seasonal archive on either side
  have hread : ∀ m, m = .sea ∨ m = .dev →
      (if g .pred < g m then (cdpAt (updateAberrantSlot 1 temps .primary rras (g .pred)) (g m) d).hwIntercept
        else (cdpAt (updateAberrantSlot 1 temps .primary rras (g .pred)) (g m) d).hwLastIntercept) =
        (cdpAt rras (g m) d).hwIntercept := by
    intro m hm
    have hne : g .pred ≠ g m := fun heq => by
      obtain rfl | rfl := hm <;> exact Member.noConfusion (h.linked.injective heq)
    rw [← h.read_coef hd hm (g .pred)]
    by_cases hlt : g .pred < g m
    · rw [if_pos hlt, if_neg (by omega)]
    · rw [if_neg hlt, if_pos (by omega)]
  have hsea := hread .sea (.inl rfl)
  have hdev := hread .dev (.inr rfl)
  simp only [← h.linked.side rfl] at hdev
  have hmid := @Members.hw_mid M .failures rras temps g n d h hd hw hhw (g .pred)
  simp only [failureInputs, earlyInputs, hdep, hdepMid, hdevIdx, hhwIdx, hsea, hdev, hmid]
  congr 1
  have hne : g .pred ≠ g .hw := fun heq => Member.noConfusion (h.linked.injective heq)
  by_cases hlt : g .pred < g .hw
  · rw [if_pos hlt, if_neg (by omega)]
  · rw [if_neg hlt, if_pos (by omega)]
    have hlast := fun h => @updateHwpredict_last M rras hw.rraDef d (temps.getD d .nan) (cdpAt rras (g .hw) d) h
    cases hstart with
    | unknown hnan =>
      obtain ⟨hI, hS, hn⟩ := hlast (.inl hnan)
      rw [hI, hS, hn]
    | running hI hS =>
      obtain ⟨hI, hS, hn⟩ := hlast (.inr hI)
      rw [hI, hS, hn]
    | bootstrap hI hs hfirst => rw [hs, M.predict_nan, M.predict_nan]

/-- The order of the archives does not matter for a member. -/
lemma Members.early (h : Members M T rras g n) (hd : d < n)
    (hstart : Starts M (cdpAt rras (g .hw) d) (cdpAt rras (g .sea) d).hwIntercept (temps.getD d .nan)) {m : Member}
    {r : Rra} (hr : rras[g m]? = some r) (coef : RrdValue) :
    updateAberrantCF (updateAberrantSlot 1 temps .primary rras (g m)) r.rraDef (g m) d .primary coef
        (temps.getD d .nan) =
      earlyCF M rras r.rraDef d coef ((cdpAt rras (g m) d).set .primary (temps.getD d .nan)) := by
  obtain ⟨hw, hhw, -, -, -, hhwdep, -⟩ := h.at .hw
  have hhwdef : rraDefAt rras (g .hw) = some hw.rraDef := by rw [rraDefAt, hhw, Option.map_some]
  have hmid := fun i => @Members.hw_mid M T rras temps g n d h hd hw hhw i
  obtain ⟨r', hr', hcf, hone, -, hdep, hwidth⟩ := h.at m
  obtain rfl := Option.some.inj (hr.symm.trans hr')
  have hown := @cdpAt_updateAberrantSlot 1 temps .primary rras (g m) (g m) d r hr hone (hwidth ▸ hd)
  rw [if_neg (lt_irrefl _)] at hown
  cases m with
  | hw => rw [h.hw_early hd hr, h.earlyCF_hw hr]
  | sea =>
    have hdep : r.rraDef.dependentRraIdx = g .hw := hdep
    have hcf : r.rraDef.cf = .seasonal := hcf
    simp only [updateAberrantCF, earlyCF, hcf, hown, hdep, hwFunctionsOf_updateAberrantSlot h]
    by_cases hlt : g .hw < g .sea
    · refine updateSeasonal_late (hdep ▸ hlt) (hdep ▸ hhwdef) (by rw [hhwdep]; rfl) ?_ (hdep ▸ hstart)
      rw [hdep, hmid, if_pos hlt]
    · simp only [updateSeasonal, hdep, hlt, if_false, Nat.not_lt_zero, hmid, rraDefAt_updateAberrantSlot]
  | dev =>
    have hdep : r.rraDef.dependentRraIdx = g .hw := hdep
    have hcf : r.rraDef.cf = .devseasonal := hcf
    simp only [updateAberrantCF, earlyCF, hcf, hown, hdep, hwFunctionsOf_updateAberrantSlot h]
    refine updateDevseasonal_early (hdep ▸ hhwdef) (rraDefAt_updateAberrantSlot _) ?_ ?_ (by rw [hdep, hhwdep]; exact hstart)
    · rw [hhwdep]
      exact h.read_coef hd (.inl rfl) (g .dev)
    · rw [hdep, hmid]
  | pred =>
    cases T with
    | devpredict =>
      have hcf : r.rraDef.cf = .devpredict := hcf
      simp only [updateAberrantCF, earlyCF, hcf, hown]
      apply updateDevpredict_early
      rw [hdep]
      exact h.read_coef hd (.inr rfl) (g .pred)
    | failures =>
      have hcf : r.rraDef.cf = .failures := hcf
      have hdep : r.rraDef.dependentRraIdx = g .dev := hdep
      have hidx : hwDepIdx (updateAberrantSlot 1 temps .primary rras (g .pred)) (g .dev) = g .hw := by
        rw [← h.hwDepIdx_eq.1, hwDepIdx, hwDepIdx, rraDefAt_updateAberrantSlot]
      simp only [updateAberrantCF, earlyCF, hcf, hown, hdep, hidx, hwFunctionsOf_updateAberrantSlot h,
        updateFailures_halves, h.failureInputs_early hd hstart hr]

end Slot

/-! ### One pass -/

/-- What `update_all_cdp_prep` does to an archive of one primary data point per row when one step is closed. -/
@[grind] def prepOne (r : Rra) : Rra := if r.rraDef.cf.isSeasonal then (doScheduleSmooth r 1).1 else r

lemma updateRraCdpPrep_one {r : Rra} (hone : r.rraDef.pdpCnt = 1) (procPdpCnt : ℕ) (temps : List RrdValue)
    (s : SeasonalCoef) : (updateRraCdpPrep 1 procPdpCnt temps s r).1 = prepOne r := by
  have hsame : ∀ r' : Rra, r'.rraDef.pdpCnt = 1 → ∀ s, updateCdpPrep 1 procPdpCnt temps s r' = r' := by
    intro r' h' s
    have hmany : ¬ 1 < r'.rraDef.pdpCnt := by omega
    have htwo : ¬ 2 < 1 := by omega
    simp only [updateCdpPrep, if_neg hmany, if_neg htwo]
    have hid : r'.cdpPrep.mapIdx (fun _ c => c) = r'.cdpPrep := by
      apply List.ext_getElem?
      intro d
      simp
    rw [hid]
  simp only [updateRraCdpPrep, prepOne]
  split
  · exact hsame _ ((doScheduleSmooth_keeps r 1).rraDef ▸ hone) _
  · exact hsame r hone s

lemma prepOne_keeps (r : Rra) : r.Keeps (prepOne r) := by
  unfold prepOne
  split
  · exact doScheduleSmooth_keeps r 1
  · exact .refl r

lemma prepOne_hwIntercept (r : Rra) (d : ℕ) :
    ((prepOne r).cdpPrep[d]?.getD default).hwIntercept = (r.cdpPrep[d]?.getD default).hwIntercept := by
  have hhead : ∀ cdps : List CdpPrep,
      (((cdps.modifyHead fun c => { c with nullCount := c.nullCount + 1 })[d]?).getD default).hwIntercept =
        (cdps[d]?.getD default).hwIntercept := by
    intro cdps
    cases cdps with
    | nil => rfl
    | cons c cdps => cases d <;> rfl
  simp only [prepOne, doScheduleSmooth]
  split_ifs <;> first | rfl | exact hhead r.cdpPrep

/-- The new areas of a member. -/
@[grind] def forecastCdps (M : HwMethod) (rras : List Rra) (temps : List RrdValue) (r : Rra) : List CdpPrep :=
  (prepOne r).cdpPrep.mapIdx fun d c =>
    earlyCF M rras r.rraDef d ((readAhead 1 .primary r).getD d .nan) (c.set .primary (temps.getD d .nan))

/-- A member after a pass. -/
@[grind] def forecastRra (M : HwMethod) (rras : List Rra) (temps : List RrdValue) (r : Rra) : Rra :=
  { prepOne r with
    cdpPrep := forecastCdps M rras temps r
    ring := r.ring.push r.rraDef.rowCnt ((forecastCdps M rras temps r).map (·.primaryVal)) }

/-- The order of the archives does not matter for the next update. -/
def StartsAll (M : HwMethod) (rras : List Rra) (g : Member → ℕ) (n : ℕ) (temps : List RrdValue) : Prop :=
  ∀ d < n, Starts M (cdpAt rras (g .hw) d) (cdpAt rras (g .sea) d).hwIntercept (temps.getD d .nan)

section OnePass

variable {M : HwMethod} {T : DevReader} {rrd : Rrd} {a : PassArgs} {g : Member → ℕ} {n : ℕ}

lemma prepared_at {i : ℕ} {r : Rra} (ha : a.elapsed = 1) (hi : rrd.rra[i]? = some r) (hone : r.rraDef.pdpCnt = 1) :
    (rrd.prepared a)[i]? = some (prepOne r) := by
  obtain ⟨s', hprep, -⟩ := @pass_at rrd a i r hi
  rw [hprep, ha, updateRraCdpPrep_one hone]

lemma Members.prepared (h : Members M T rrd.rra g n) (ha : a.elapsed = 1) : Members M T (rrd.prepared a) g n := by
  have hdefs : rraDefAt (rrd.prepared a) = rraDefAt rrd.rra := funext fun j => rraDefAt_prepared j
  refine ⟨hdefs ▸ h.linked, fun m r hr => ?_⟩
  obtain ⟨r₀, hr₀, -, hone, -, -, hwidth⟩ := h.at m
  rw [prepared_at ha hr₀ hone] at hr
  rw [← Option.some.inj hr, (prepOne_keeps r₀).length, hwidth]

/-- The phase of each data source, for the cached coefficient and for those in the rows. -/
structure Phases (rras : List Rra) (g : Member → ℕ) (n : ℕ) : Prop where
  cached : ∀ d < n, HwPhase (cdpAt rras (g .hw) d) (cdpAt rras (g .sea) d).hwIntercept
  rows : ∀ r, rras[g .sea]? = some r → ∀ d < n, ∀ j,
    HwPhase (cdpAt rras (g .hw) d) ((r.ring.slot j).getD d .nan)

lemma Members.cdpAt_hw_prepared (h : Members M T rrd.rra g n) (ha : a.elapsed = 1) (d : ℕ) :
    cdpAt (rrd.prepared a) (g .hw) d = cdpAt rrd.rra (g .hw) d := by
  obtain ⟨r, hr, hcf, hone, -⟩ := h.at .hw
  have hprep : prepOne r = r := by
    rw [prepOne, hcf]
    cases M <;> rfl
  rw [cdpAt, cdpAt, prepared_at ha hr hone, hr, hprep]

lemma Members.hwIntercept_prepared (h : Members M T rrd.rra g n) (ha : a.elapsed = 1) (m : Member) (d : ℕ) :
    (cdpAt (rrd.prepared a) (g m) d).hwIntercept = (cdpAt rrd.rra (g m) d).hwIntercept := by
  obtain ⟨r, hr, -, hone, -⟩ := h.at m
  rw [cdpAt, cdpAt, prepared_at ha hr hone, hr]
  exact prepOne_hwIntercept r d

/-- A member through one pass. -/
lemma pass_member (h : Members M T rrd.rra g n) (ha : a.elapsed = 1) (hstart : StartsAll M rrd.rra g n a.temps)
    {m : Member} {r : Rra} (hr : rrd.rra[g m]? = some r) :
    (rrd.pass a).rra[g m]? = some (forecastRra M (rrd.prepared a) a.temps r) := by
  obtain ⟨r', hr', hcf, hone, hrows, -, hwidth⟩ := h.at m
  obtain rfl := Option.some.inj (hr.symm.trans hr')
  have hprep := prepared_at ha hr hone
  have hkeeps := prepOne_keeps r
  obtain ⟨s', -, hwrite⟩ := @pass_at rrd a (g m) r hr
  have hspec := updateRraCdpPrep_spec a.elapsed a.procPdpCnt a.temps s' r
  have hstepCnt : rraStepCnt r.rraDef 1 a.procPdpCnt = 1 := by
    rw [rraStepCnt_of_one hone le_rfl]
    omega
  have hstep : (updateRraCdpPrep a.elapsed a.procPdpCnt a.temps s' r).2.1.stepCnt = 1 := by
    rw [hspec.stepCnt, ha, hstepCnt]
  have hskip : (updateRraCdpPrep a.elapsed a.procPdpCnt a.temps s' r).2.1.skipUpdate = false := by
    simp only [updateRraCdpPrep, ha, hstepCnt]
    split <;> rfl
  have hlt := (List.getElem?_eq_some_iff.1 hprep).1
  have hab := @updateAberrantSlot_at 1 a.temps .primary _ _ (g m) _ hprep (hkeeps.rraDef ▸ hone) hlt
  have hcdps : aberrantCdps 1 a.temps .primary
      (updateAberrantSlot 1 a.temps .primary (rrd.prepared a) (g m)) (prepOne r) (g m) =
        forecastCdps M (rrd.prepared a) a.temps r := by
    have hahead : readAhead 1 .primary (prepOne r) = readAhead 1 .primary r := by
      simp only [readAhead, lookupSeasonal, hkeeps.rraDef, hkeeps.ring]
    apply List.ext_getElem?
    intro d
    rw [aberrantCdps, forecastCdps, List.getElem?_mapIdx, List.getElem?_mapIdx, hahead]
    cases hc : (prepOne r).cdpPrep[d]? with
    | none => rfl
    | some c =>
      have hd : d < n := by
        rw [← hwidth, ← hkeeps.length]
        exact (List.getElem?_eq_some_iff.1 hc).1
      have hcdp : cdpAt (rrd.prepared a) (g m) d = c := by
        rw [cdpAt, hprep, Option.bind_some, hc]
        rfl
      have hnow : Starts M (cdpAt (rrd.prepared a) (g .hw) d) (cdpAt (rrd.prepared a) (g .sea) d).hwIntercept
          (a.temps.getD d .nan) := by
        rw [h.cdpAt_hw_prepared ha, h.hwIntercept_prepared ha .sea]
        exact hstart d hd
      rw [Option.map_some, Option.map_some, (h.prepared ha).early hd hnow hprep, hcdp, hkeeps.rraDef]
  rw [← updateAberrantCdps_one, hcdps, ← ha] at hab
  rw [hwrite _ hab, hstep, hskip]
  simp only [writeRraRows, forecastRra, Bool.false_eq_true, if_false, hkeeps.rraDef, hkeeps.ring]
  rfl

/-! ### The phases along a run -/

/-- The parameters are numbers; an unknown `gamma` does no harm. -/
structure HwParams (defs : ℕ → Option RraDef) (g : Member → ℕ) : Prop where
  hw : ∀ r, defs (g .hw) = some r → ∃ alpha beta : ℚ, r.hwAlpha = .fin alpha ∧ r.hwBeta = .fin beta
  sea : ∀ r, defs (g .sea) = some r → r.seasonalGamma.isinf = false
  window : ∀ r, defs (g .sea) = some r → ∀ w : ℚ, r.smoothingWindow = .fin w → w ≤ 1

section Phase

variable {rras : List Rra} {rra seaDef : RraDef} {d : ℕ} {hw c : CdpPrep} {s v x coef : RrdValue}

lemma HwPhase.starts (h : HwPhase hw s) (hx : x.isinf = false) : Starts .additive hw s x := by
  cases h with
  | bootstrap hI hs =>
    cases x with
    | nan => exact .unknown rfl
    | ninf => cases hx
    | pinf => cases hx
    | fin q =>
      refine .bootstrap hI hs ?_
      show (.fin q - .fin q : RrdValue) = .fin 0
      rw [ExtNum.fin_sub_fin, sub_self]
  | running hI hS => exact .running (by rw [hI]; rfl) (by rw [hS]; rfl)

/-- What is known of a coefficient stays known. -/
lemma HwPhase.next (hparams : ∃ alpha beta : ℚ, rra.hwAlpha = .fin alpha ∧ rra.hwBeta = .fin beta)
    (hsea : (cdpAt rras rra.dependentRraIdx d).hwIntercept = s) (hs : HwPhase hw s) (hv : HwPhase hw v)
    (hx : x.isinf = false) :
    HwPhase (updateHwpredict rras rra 0 d .primary hwAdditiveFunctions (hw.set .primary x)) v := by
  obtain ⟨alpha, beta, halpha, hbeta⟩ := hparams
  cases hs with
  | bootstrap hI hs =>
    obtain rfl : v = .nan := by
      cases hv with
      | bootstrap _ hv => exact hv
      | running hI' => rw [hI] at hI'; cases hI'
    cases x with
    | nan => exact .bootstrap (by simp [updateHwpredict, CdpPrep.get, CdpPrep.set, hI]) rfl
    | ninf => cases hx
    | pinf => cases hx
    | fin x =>
      exact .running (by simp [updateHwpredict, CdpPrep.get, CdpPrep.set, hI, initSlopeIntercept]; rfl)
        (by simp [updateHwpredict, CdpPrep.get, CdpPrep.set, hI, initSlopeIntercept]; rfl) rfl
  | @running i q hI hS hs =>
    have hv' : v.isinf = false := by
      cases hv with
      | bootstrap _ hv => rw [hv]; rfl
      | running _ _ hv => exact hv
    cases s with
    | nan =>
      exact .running (by simp [updateHwpredict, CdpPrep.get, CdpPrep.set, hI, hsea]; rfl)
        (by simp [updateHwpredict, CdpPrep.get, CdpPrep.set, hI, hS, hsea]; rfl) hv'
    | ninf => cases hs
    | pinf => cases hs
    | fin s =>
      cases x with
      | nan =>
        exact .running (by simp [updateHwpredict, CdpPrep.get, CdpPrep.set, hI, hS, hsea]; rfl)
          (by simp [updateHwpredict, CdpPrep.get, CdpPrep.set, hI, hS, hsea]; rfl) hv'
      | ninf => cases hx
      | pinf => cases hx
      | fin x =>
        exact .running
          (by simp [updateHwpredict, CdpPrep.get, CdpPrep.set, hI, hS, hsea, hwAdditiveFunctions, halpha,
            hwBaseline]; rfl)
          (by simp [updateHwpredict, CdpPrep.get, CdpPrep.set, hI, hS, hsea, hwAdditiveFunctions, halpha, hbeta,
            hwBaseline, hwCalculateSlope]; rfl) hv'

/-- The new coefficient is known only together with the intercept. -/
lemma HwPhase.next_row (hparams : ∃ alpha beta : ℚ, rra.hwAlpha = .fin alpha ∧ rra.hwBeta = .fin beta)
    (hgamma : seaDef.seasonalGamma.isinf = false) (hdef : rraDefAt rras seaDef.dependentRraIdx = some rra)
    (hsea : (cdpAt rras rra.dependentRraIdx d).hwIntercept = c.hwIntercept)
    (hhw : cdpAt rras seaDef.dependentRraIdx d = hw) (hs : HwPhase hw c.hwIntercept) (hx : x.isinf = false) :
    HwPhase (updateHwpredict rras rra 0 d .primary hwAdditiveFunctions (hw.set .primary x))
      (updateSeasonal rras seaDef 0 d .primary coef hwAdditiveFunctions (c.set .primary x)).primaryVal := by
  have hnext : ∀ {v}, HwPhase hw v → HwPhase (updateHwpredict rras rra 0 d .primary hwAdditiveFunctions
      (hw.set .primary x)) v := fun hv => HwPhase.next hparams hsea hs hv hx
  obtain ⟨alpha, beta, halpha, hbeta⟩ := hparams
  cases x with
  | nan =>
    have hrow : (updateSeasonal rras seaDef 0 d .primary coef hwAdditiveFunctions
        (c.set .primary .nan)).primaryVal = c.hwIntercept := by
      simp [updateSeasonal, CdpPrep.get, CdpPrep.set]
    rw [hrow]
    exact hnext hs
  | ninf => cases hx
  | pinf => cases hx
  | fin x =>
    cases hs with
    | bootstrap hI hs =>
      have hrow : (updateSeasonal rras seaDef 0 d .primary coef hwAdditiveFunctions
          (c.set .primary (.fin x))).primaryVal = .fin 0 := by
        simp [updateSeasonal, CdpPrep.get, CdpPrep.set, hhw, hI, hwAdditiveFunctions]
      rw [hrow]
      exact .running (by simp [updateHwpredict, CdpPrep.get, CdpPrep.set, hI, initSlopeIntercept]; rfl)
        (by simp [updateHwpredict, CdpPrep.get, CdpPrep.set, hI, initSlopeIntercept]; rfl) rfl
    | @running i q hI hS hs =>
      have hnext : ∀ {v : RrdValue}, v.isinf = false → HwPhase (updateHwpredict rras rra 0 d .primary
          hwAdditiveFunctions (hw.set .primary (.fin x))) v := fun hv => hnext (.running hI hS hv)
      apply hnext
      cases hcoef : c.hwIntercept with
      | nan => simp [updateSeasonal, CdpPrep.get, CdpPrep.set, hhw, hI, hS, hcoef, hwAdditiveFunctions, ExtNum.isinf]
      | ninf =>
        rw [hcoef] at hs
        cases hs
      | pinf =>
        rw [hcoef] at hs
        cases hs
      | fin s =>
        cases hg : seaDef.seasonalGamma with
        | nan =>
          simp [updateSeasonal, CdpPrep.get, CdpPrep.set, hhw, hI, hS, hcoef, hwAdditiveFunctions, hg, ExtNum.isinf]
        | ninf =>
          rw [hg] at hgamma
          cases hgamma
        | pinf =>
          rw [hg] at hgamma
          cases hgamma
        | fin gamma =>
          simp [updateSeasonal, CdpPrep.get, CdpPrep.set, hhw, hI, hS, hcoef, hwAdditiveFunctions, hg, hdef, halpha,
            hwBaseline, ExtNum.isinf]

end Phase

/-- The area of a member after a pass. -/
lemma cdpAt_pass (h : Members M T rrd.rra g n) (ha : a.elapsed = 1) (hstart : StartsAll M rrd.rra g n a.temps)
    {m : Member} {r : Rra} (hr : rrd.rra[g m]? = some r) {d : ℕ} (hd : d < n) :
    cdpAt (rrd.pass a).rra (g m) d = earlyCF M (rrd.prepared a) r.rraDef d ((readAhead 1 .primary r).getD d .nan)
      ((cdpAt (rrd.prepared a) (g m) d).set .primary (a.temps.getD d .nan)) := by
  obtain ⟨r', hr', -, hone, -, -, hwidth⟩ := h.at m
  obtain rfl := Option.some.inj (hr.symm.trans hr')
  have hlt : d < (prepOne r).cdpPrep.length := by
    rw [(prepOne_keeps r).length, hwidth]
    exact hd
  rw [cdpAt, pass_member h ha hstart hr, cdpAt, prepared_at ha hr hone, Option.bind_some, Option.bind_some,
    List.getElem?_eq_getElem hlt, forecastRra, forecastCdps, List.getElem?_mapIdx, List.getElem?_eq_getElem hlt]
  rfl

lemma Members.pass (h : Members M T rrd.rra g n) (ha : a.elapsed = 1) (hstart : StartsAll M rrd.rra g n a.temps) :
    Members M T (rrd.pass a).rra g n := by
  have hdefs : rraDefAt (rrd.pass a).rra = rraDefAt rrd.rra := funext fun j => rraDefAt_pass j
  refine ⟨hdefs ▸ h.linked, fun m r hr => ?_⟩
  obtain ⟨r₀, hr₀, -, -, -, -, hwidth⟩ := h.at m
  rw [pass_member h ha hstart hr₀] at hr
  rw [← Option.some.inj hr, forecastRra, forecastCdps, List.length_mapIdx, (prepOne_keeps r₀).length, hwidth]

lemma Phases.startsAll (h : Phases rrd.rra g n) (hx : ∀ d < n, (a.temps.getD d .nan).isinf = false) :
    StartsAll .additive rrd.rra g n a.temps := fun d hd => (h.cached d hd).starts (hx d hd)

/-- One pass keeps the phases. -/
lemma Phases.pass (h : Members .additive T rrd.rra g n) (hparams : HwParams (rraDefAt rrd.rra) g) (ha : a.elapsed = 1)
    (hphases : Phases rrd.rra g n) (hx : ∀ d < n, (a.temps.getD d .nan).isinf = false) :
    Phases (rrd.pass a).rra g n := by
  obtain ⟨hw, hhw, hhwcf, -, -, hhwdep, -⟩ := h.at .hw
  obtain ⟨sea, hsea, hseacf, hone, hrows, hseadep, hwidth⟩ := h.at .sea
  have hhwdef : rraDefAt (rrd.prepared a) (g .hw) = some hw.rraDef := by
    rw [rraDefAt_prepared, rraDefAt, hhw, Option.map_some]
  have hnums := hparams.hw hw.rraDef (by rw [rraDefAt, hhw, Option.map_some])
  have hgamma := hparams.sea sea.rraDef (by rw [rraDefAt, hsea, Option.map_some])
  have hcached := hphases.cached
  have hstart := hphases.startsAll hx
  have hnewHw : ∀ d < n, cdpAt (rrd.pass a).rra (g .hw) d =
      updateHwpredict (rrd.prepared a) hw.rraDef 0 d .primary hwAdditiveFunctions
        ((cdpAt rrd.rra (g .hw) d).set .primary (a.temps.getD d .nan)) := by
    intro d hd
    rw [cdpAt_pass h ha hstart hhw hd, h.earlyCF_hw hhw, h.cdpAt_hw_prepared ha]
    rfl
  have hcoef : ∀ d, (cdpAt (rrd.prepared a) hw.rraDef.dependentRraIdx d).hwIntercept =
      (cdpAt rrd.rra (g .sea) d).hwIntercept := by
    intro d
    rw [hhwdep]
    exact h.hwIntercept_prepared ha .sea d
  have hseacf' : sea.rraDef.cf = .seasonal := hseacf
  have hseadep' : sea.rraDef.dependentRraIdx = g .hw := hseadep
  have hnext : ∀ d < n, ∀ v, HwPhase (cdpAt rrd.rra (g .hw) d) v → HwPhase (cdpAt (rrd.pass a).rra (g .hw) d) v := by
    intro d hd v hv
    rw [hnewHw d hd]
    exact HwPhase.next hnums (hcoef d) (hcached d hd) hv (hx d hd)
  refine ⟨fun d hd => ?_, fun r hr d hd j => ?_⟩
  · -- the coefficient read ahead comes from a row
    have hnew : (cdpAt (rrd.pass a).rra (g .sea) d).hwIntercept = (readAhead 1 .primary sea).getD d .nan := by
      rw [cdpAt_pass h ha hstart hsea hd, earlyCF, hseacf']
      simp only [updateSeasonal]
      split_ifs <;> simp only [set_hwIntercept]
    have hslot : ∃ j, readAhead 1 .primary sea = sea.ring.slot j := by
      rw [readAhead, hseacf', if_pos rfl, lookupSeasonal_eq]
      exact ⟨_, rfl⟩
    obtain ⟨j, hj⟩ := hslot
    rw [hnew, hj]
    exact hnext d hd _ (hphases.rows sea hsea d hd j)
  · have hpass := pass_member h ha hstart hsea
    rw [hr] at hpass
    obtain rfl := Option.some.inj hpass
    simp only [forecastRra, RingBuf.push, Function.update_apply]
    split
    · have hlt : d < (prepOne sea).cdpPrep.length := by
        rw [(prepOne_keeps sea).length, hwidth]
        exact hd
      have hcdp : cdpAt (rrd.prepared a) (g .sea) d = (prepOne sea).cdpPrep[d] := by
        rw [cdpAt, prepared_at ha hsea hone, Option.bind_some, List.getElem?_eq_getElem hlt, Option.getD_some]
      have hrow : ((forecastCdps .additive (rrd.prepared a) a.temps sea).map (·.primaryVal)).getD d .nan =
          (updateSeasonal (rrd.prepared a) sea.rraDef 0 d .primary ((readAhead 1 .primary sea).getD d .nan)
            hwAdditiveFunctions ((cdpAt (rrd.prepared a) (g .sea) d).set .primary
              (a.temps.getD d .nan))).primaryVal := by
        rw [List.getD_eq_getElem?_getD, List.getElem?_map, forecastCdps, List.getElem?_mapIdx,
          List.getElem?_eq_getElem hlt, ← hcdp]
        simp only [Option.map_some, Option.getD_some, earlyCF, hseacf', HwMethod.functions]
      rw [hrow, hnewHw d hd]
      apply HwPhase.next_row hnums hgamma
      · rw [hseadep', hhwdef]
      · rw [hcoef, h.hwIntercept_prepared ha .sea]
      · rw [hseadep', h.cdpAt_hw_prepared ha]
      · rw [h.hwIntercept_prepared ha .sea]
        exact hcached d hd
      · exact hx d hd
    · exact hnext d hd _ (hphases.rows sea hsea d hd j)

end OnePass

/-! ### Two files -/

/-- An archive with another index in `dependent_rra_idx`. -/
@[grind] def Rra.relink (r : Rra) (k : ℕ) : Rra := { r with rraDef := { r.rraDef with dependentRraIdx := k } }

@[simp] lemma relink_cdpPrep (r : Rra) (k : ℕ) : (r.relink k).cdpPrep = r.cdpPrep := rfl
@[simp] lemma relink_ring (r : Rra) (k : ℕ) : (r.relink k).ring = r.ring := rfl
@[simp] lemma relink_cf (r : Rra) (k : ℕ) : (r.relink k).rraDef.cf = r.rraDef.cf := rfl
@[simp] lemma relink_rowCnt (r : Rra) (k : ℕ) : (r.relink k).rraDef.rowCnt = r.rraDef.rowCnt := rfl

/-- The members of two files hold the same: definitions up to the indices, areas and rows. -/
def SameForecast (rras rras' : List Rra) (g g' : Member → ℕ) : Prop :=
  ∀ m, ∃ r, rras[g m]? = some r ∧ rras'[g' m]? = some (r.relink (g' m.dep))

lemma SameForecast.cdpAt {rras rras' : List Rra} {g g' : Member → ℕ} (h : SameForecast rras rras' g g') (m : Member)
    (d : ℕ) : cdpAt rras' (g' m) d = cdpAt rras (g m) d := by
  obtain ⟨r, hr, hr'⟩ := h m
  rw [Rrdtool.cdpAt, Rrdtool.cdpAt, hr, hr']
  rfl

lemma SameForecast.startsAll {M : HwMethod} {rras rras' : List Rra} {g g' : Member → ℕ} {n : ℕ} {temps : List RrdValue}
    (h : SameForecast rras rras' g g') (hstart : StartsAll M rras g n temps) : StartsAll M rras' g' n temps := by
  intro d hd
  rw [h.cdpAt, h.cdpAt]
  exact hstart d hd

section TwoFiles

variable {M : HwMethod} {T : DevReader} {rrd rrd' : Rrd} {a : PassArgs} {g g' : Member → ℕ} {n : ℕ}

lemma prepOne_relink (r : Rra) (k : ℕ) : prepOne (r.relink k) = (prepOne r).relink k := by
  have hsmooth : (doScheduleSmooth (r.relink k) 1).1 = ((doScheduleSmooth r 1).1).relink k := by
    simp only [doScheduleSmooth, relink_cdpPrep, relink_ring, relink_rowCnt]
    by_cases hburnin : burninCycles < (r.cdpPrep.headD default).nullCount
    · simp only [hburnin, if_true]
    · by_cases hwrap : r.rraDef.rowCnt ≤ r.ring.cur + 1
      · simp only [hburnin, if_false, hwrap, if_true]
        rfl
      · simp only [hburnin, hwrap, if_false]
  simp only [prepOne, relink_cf]
  by_cases hcf : r.rraDef.cf.isSeasonal
  · simp only [hcf, if_true, hsmooth]
  · simp only [hcf, if_false, Bool.false_eq_true]

/-- The members of both files are computed from the same values. -/
lemma earlyCF_relink {rras rras' : List Rra} (hsame : SameForecast rras rras' g g') {d : ℕ} {m : Member} {r : Rra}
    (hr : rras[g m]? = some r) (hcf : ∀ m r, rras[g m]? = some r → r.rraDef.cf = m.cfFor M T)
    (hdep : ∀ m r, rras[g m]? = some r → r.rraDef.dependentRraIdx = g m.dep) (coef : RrdValue) (c : CdpPrep) :
    earlyCF M rras' (r.relink (g' m.dep)).rraDef d coef c = earlyCF M rras r.rraDef d coef c := by
  have hcdp := fun m => hsame.cdpAt m d
  obtain ⟨hw, hhw, hhw'⟩ := hsame .hw
  have hmcf := hcf m r hr
  have hmdep := hdep m r hr
  have hhwdep := hdep .hw hw hhw
  obtain ⟨dev, hdev, hdev'⟩ := hsame .dev
  have hidx : hwDepIdx rras (g .hw) = g .sea := by
    rw [hwDepIdx, rraDefAt, hhw]
    exact hhwdep
  have hidx' : hwDepIdx rras' (g' .hw) = g' .sea := by
    rw [hwDepIdx, rraDefAt, hhw']
    rfl
  have hdevIdx : hwDepIdx rras (g .dev) = g .hw := by
    rw [hwDepIdx, rraDefAt, hdev]
    exact hdep .dev dev hdev
  have hdevIdx' : hwDepIdx rras' (g' .dev) = g' .hw := by
    rw [hwDepIdx, rraDefAt, hdev']
    rfl
  cases m with
  | hw =>
    cases M with
    | additive =>
      have hmcf : r.rraDef.cf = .hwpredict := hmcf
      simp only [earlyCF, Rra.relink, hmcf, updateHwpredict, Nat.not_lt_zero, if_false, hmdep, hcdp]
    | multiplicative =>
      have hmcf : r.rraDef.cf = .mhwpredict := hmcf
      simp only [earlyCF, Rra.relink, hmcf, updateHwpredict, Nat.not_lt_zero, if_false, hmdep, hcdp]
  | sea =>
    have hmdep : r.rraDef.dependentRraIdx = g .hw := hmdep
    have hmcf : r.rraDef.cf = .seasonal := hmcf
    simp only [earlyCF, Rra.relink, hmcf, updateSeasonal, Nat.not_lt_zero, if_false, hmdep, hcdp,
      rraDefAt, hhw, hhw', Option.map_some, Member.dep, Option.getD_some]
  | dev =>
    have hmdep : r.rraDef.dependentRraIdx = g .hw := hmdep
    have hmcf : r.rraDef.cf = .devseasonal := hmcf
    simp only [earlyCF, Rra.relink, hmcf, updateDevseasonal, Nat.not_lt_zero, if_false, hmdep, hcdp,
      Member.dep, hidx, hidx']
  | pred =>
    cases T with
    | devpredict =>
      have hmcf : r.rraDef.cf = .devpredict := hmcf
      simp only [earlyCF, Rra.relink, hmcf, updateDevpredict, Nat.not_lt_zero, if_false, hmdep, hcdp]
    | failures =>
      have hmcf : r.rraDef.cf = .failures := hmcf
      have hmdep : r.rraDef.dependentRraIdx = g .dev := hmdep
      have hinputs : earlyInputs rras' (r.relink (g' .dev)).rraDef d M.functions =
          earlyInputs rras r.rraDef d M.functions := by
        simp only [earlyInputs, Rra.relink, hmdep, hdevIdx, hdevIdx', hidx, hidx', hcdp]
      simp only [earlyCF, Rra.relink, hmcf, Member.dep] at hinputs ⊢
      rw [hinputs]
      rfl

lemma SameForecast.prepared (h : Members M T rrd.rra g n) (ha : a.elapsed = 1)
    (hsame : SameForecast rrd.rra rrd'.rra g g') : SameForecast (rrd.prepared a) (rrd'.prepared a) g g' := by
  intro m
  obtain ⟨r, hr, hr'⟩ := hsame m
  obtain ⟨r₀, hr₀, -, hone, -⟩ := h.at m
  obtain rfl := Option.some.inj (hr.symm.trans hr₀)
  refine ⟨prepOne r, prepared_at ha hr hone, ?_⟩
  rw [prepared_at ha hr' hone, prepOne_relink]

/-- One pass stores the same in both files. -/
lemma SameForecast.pass (h : Members M T rrd.rra g n) (h' : Members M T rrd'.rra g' n) (ha : a.elapsed = 1)
    (hstart : StartsAll M rrd.rra g n a.temps) (hsame : SameForecast rrd.rra rrd'.rra g g') :
    SameForecast (rrd.pass a).rra (rrd'.pass a).rra g g' := by
  intro m
  obtain ⟨r, hr, hr'⟩ := hsame m
  obtain ⟨r₀, hr₀, -, hone, -⟩ := h.at m
  obtain rfl := Option.some.inj (hr.symm.trans hr₀)
  refine ⟨_, pass_member h ha hstart hr, ?_⟩
  rw [pass_member h' ha (hsame.startsAll hstart) hr']
  have hmem := h.prepared ha
  have hprep := SameForecast.prepared h ha hsame
  have hcdps : forecastCdps M (rrd'.prepared a) a.temps (r.relink (g' m.dep)) =
      forecastCdps M (rrd.prepared a) a.temps r := by
    have hcf : ∀ m r, (rrd.prepared a)[g m]? = some r → r.rraDef.cf = m.cfFor M T := by
      intro m r hr
      obtain ⟨r₁, hr₁, hcf, -⟩ := hmem.at m
      exact Option.some.inj (hr.symm.trans hr₁) ▸ hcf
    have hdep : ∀ m r, (rrd.prepared a)[g m]? = some r → r.rraDef.dependentRraIdx = g m.dep := by
      intro m r hr
      obtain ⟨r₁, hr₁, -, -, -, hdep, -⟩ := hmem.at m
      exact Option.some.inj (hr.symm.trans hr₁) ▸ hdep
    have hearly := fun d coef c =>
      @earlyCF_relink M T g g' _ _ hprep d m _ (prepared_at ha hr hone) hcf hdep coef c
    have hdef := (prepOne_keeps r).rraDef
    have hrelink : ((prepOne r).relink (g' m.dep)).rraDef = (r.relink (g' m.dep)).rraDef := by
      simp only [Rra.relink, hdef]
    simp only [hrelink, hdef] at hearly
    rw [forecastCdps, forecastCdps, prepOne_relink]
    simp only [hearly]
    rfl
  rw [forecastRra, forecastRra, hcdps, prepOne_relink]
  rfl

end TwoFiles

end Rrdtool
