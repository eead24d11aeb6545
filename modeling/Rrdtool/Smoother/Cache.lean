import Rrdtool.Smoother.Renormalise

/-!
# The smoother and the cached coefficients

`apply_smoother` rewrites the rows of a seasonal archive and the intercept of its forecast, but not the coefficient
that the preparation areas of the archive hold for the next observation. The cache stays in step with the rows only
where smoothing leaves the next row as it is (`smoothAllRras_cached_iff`).
-/

namespace Rrdtool

/-- The cached coefficients of all seasonal archives. -/
def CachesInSync (rras : List Rra) : Prop :=
  ∀ (i : ℕ) rra, rras[i]? = some rra → rra.rraDef.cf.isSeasonal → SeasonalCached rra

/-- The method of archive `i`. -/
@[grind] def methodOf (rras : List Rra) (i : ℕ) : Option HwMethod :=
  match (rraDefAt rras i).map RraDef.cf with
  | some .hwpredict => some .additive
  | some .mhwpredict => some .multiplicative
  | _ => none

lemma hwFunctionsOf_eq (rras : List Rra) (i : ℕ) :
    hwFunctionsOf rras i = (methodOf rras i).map HwMethod.functions := by
  unfold hwFunctionsOf methodOf
  cases (rraDefAt rras i).map RraDef.cf with
  | none => rfl
  | some cf => cases cf <;> rfl

/-- A seasonal archive behind the smoother. -/
@[grind] def smoothSeasonal (version dsCnt : ℕ) (rras : List Rra) (rra : Rra) : Rra :=
  if rra.rraDef.cf = .seasonal then
    match methodOf rras rra.rraDef.dependentRraIdx with
    | some M => smoothSea M version dsCnt rra
    | none => rra
  else smoothDev version dsCnt rra

/-- The smoother rewrites rows only. -/
lemma smoothSeasonal_keeps (version dsCnt : ℕ) (rras : List Rra) (rra : Rra) :
    (smoothSeasonal version dsCnt rras rra).rraDef = rra.rraDef ∧
      (smoothSeasonal version dsCnt rras rra).cdpPrep = rra.cdpPrep ∧
      (smoothSeasonal version dsCnt rras rra).ring.cur = rra.ring.cur := by
  simp only [smoothSeasonal, smoothSea, smoothDev]
  split
  · split
    · split <;> exact ⟨rfl, rfl, rfl⟩
    · exact ⟨rfl, rfl, rfl⟩
  · split <;> exact ⟨rfl, rfl, rfl⟩

section SmoothAll

variable {version dsCnt : ℕ} {rras mid : List Rra} {i j : ℕ} {rra r : Rra}

lemma methodOf_congr (hdefs : ∀ j, rraDefAt mid j = rraDefAt rras j) (i : ℕ) : methodOf mid i = methodOf rras i := by
  rw [methodOf, methodOf, hdefs]

/-- `apply_smoother` rewrites the rows of its own archive. -/
lemma applySmoother_self (hdefs : ∀ j, rraDefAt mid j = rraDefAt rras j) (hi : mid[i]? = some rra) :
    (applySmoother version dsCnt mid i)[i]? = some (smoothSeasonal version dsCnt rras rra) := by
  have hlt := (List.getElem?_eq_some_iff.1 hi).1
  by_cases hsea : rra.rraDef.cf = .seasonal
  · rw [smoothSeasonal, if_pos hsea, ← methodOf_congr hdefs]
    cases hM : methodOf mid rra.rraDef.dependentRraIdx with
    | none =>
      have hfns : hwFunctionsOf mid rra.rraDef.dependentRraIdx = none := by rw [hwFunctionsOf_eq, hM, Option.map_none]
      simp only [applySmoother, hi, hsea, if_true, hfns]
      split <;> exact hi
    | some M =>
      have hfns : hwFunctionsOf mid rra.rraDef.dependentRraIdx = some M.functions := by
        rw [hwFunctionsOf_eq, hM, Option.map_some]
      obtain ⟨hw, hhw⟩ : ∃ hw, mid[rra.rraDef.dependentRraIdx]? = some hw := by
        cases hnone : mid[rra.rraDef.dependentRraIdx]? with
        | none => simp [methodOf, rraDefAt, hnone] at hM
        | some hw => exact ⟨hw, rfl⟩
      have hne : rra.rraDef.dependentRraIdx ≠ i := by
        intro heq
        obtain hw' | hw' := hwFunctionsOf_some hfns rra (heq ▸ hi)
        · rw [hsea] at hw'
          cases hw'
        · rw [hsea] at hw'
          cases hw'
      rw [applySmoother_of_sea hi hsea hfns hhw hne, List.getElem?_set_ne hne, List.getElem?_set_self hlt]
  · rw [applySmoother_of_dev hi hsea, List.getElem?_set_self hlt, smoothSeasonal, if_neg hsea]

/-- `apply_smoother` leaves the other seasonal archives alone. -/
lemma applySmoother_elsewhere (hi : mid[i]? = some r) (hj : mid[j]? = some rra) (hcf : rra.rraDef.cf.isSeasonal)
    (hne : i ≠ j) : (applySmoother version dsCnt mid i)[j]? = some rra := by
  by_cases hsea : r.rraDef.cf = .seasonal
  · simp only [applySmoother, hi, hsea, if_true]
    split
    · exact hj
    · split
      · exact hj
      · rename_i fns hfns
        have hdep : r.rraDef.dependentRraIdx ≠ j := by
          intro heq
          obtain hw | hw := hwFunctionsOf_some hfns rra (heq ▸ hj)
          · rw [hw] at hcf
            cases hcf
          · rw [hw] at hcf
            cases hcf
        simp only [List.getElem?_modify, if_neg hdep, if_neg hne, hj, Option.map_eq_map, Option.map_some]
  · rw [applySmoother_of_dev hi hsea, List.getElem?_set_ne hne, hj]

/-- The seasonal archives after the first `k` archives have been visited. -/
lemma foldl_smoothRra (hj : rras[j]? = some rra) (hcf : rra.rraDef.cf.isSeasonal) (k : ℕ) :
    (∀ i, rraDefAt ((List.range k).foldl (smoothRra version dsCnt) rras) i = rraDefAt rras i) ∧
      ((List.range k).foldl (smoothRra version dsCnt) rras)[j]? =
        some (if j < k then smoothSeasonal version dsCnt rras rra else rra) := by
  induction k with
  | zero => exact ⟨fun i => rfl, hj⟩
  | succ k ih =>
    obtain ⟨hdefs, hmid⟩ := ih
    rw [List.range_succ, List.foldl_append, List.foldl_cons, List.foldl_nil]
    generalize (List.range k).foldl (smoothRra version dsCnt) rras = mid at hdefs hmid
    refine ⟨fun i => (smoothRra_defs k i).trans (hdefs i), ?_⟩
    have hrra : ∃ rra', mid[j]? = some rra' ∧ rra'.rraDef.cf.isSeasonal ∧
        (j ≠ k → (if j < k + 1 then smoothSeasonal version dsCnt rras rra else rra) = rra') := by
      refine ⟨_, hmid, ?_, fun hne => ?_⟩
      · split
        · rw [(smoothSeasonal_keeps version dsCnt rras rra).1]
          exact hcf
        · exact hcf
      · have hiff : j < k + 1 ↔ j < k := by omega
        simp only [hiff]
    obtain ⟨rra', hj', hcf', hstay⟩ := hrra
    by_cases hjk : j = k
    · subst hjk
      rw [if_neg (lt_irrefl j)] at hmid
      have hdef : rraDefAt mid j = some rra.rraDef := by rw [rraDefAt, hmid, Option.map_some]
      rw [smoothRra, hdef, if_pos (Nat.lt_succ_self j)]
      simp only [hcf, if_true]
      exact applySmoother_self hdefs hmid
    · rw [hstay hjk, smoothRra]
      split
      · rename_i rd hrd
        split
        · obtain ⟨r, hr, -⟩ := Option.map_eq_some_iff.1 hrd
          exact applySmoother_elsewhere hr hj' hcf' (Ne.symm hjk)
        · exact hj'
      · exact hj'

lemma smoothAllRras_seasonal {rrd : Rrd} (hj : rrd.rra[j]? = some rra) (hcf : rra.rraDef.cf.isSeasonal) :
    (smoothAllRras rrd).rra[j]? = some (smoothSeasonal rrd.version rrd.dsCnt rrd.rra rra) := by
  rw [smoothAllRras_rra, (foldl_smoothRra hj hcf rrd.rra.length).2, if_pos (List.getElem?_eq_some_iff.1 hj).1]

end SmoothAll

/-! ### The next row -/

/-- What the smoother makes of row `k` of data source `d`: the mean of its window, and in a `SEASONAL` archive what is
left of it without the baseline. -/
@[grind] def smoothedCoef (version : ℕ) (rras : List Rra) (rra : Rra) (d k : ℕ) : RrdValue :=
  let col := ringColumn rra.rraDef.rowCnt rra.ring d
  let offset := smootherOffset version rra.rraDef
  if rra.rraDef.cf = .seasonal then
    match methodOf rras rra.rraDef.dependentRraIdx with
    | some M => M.functions.initSeasonality (averaged offset col k)
        ((∑ k ∈ Finset.range rra.rraDef.rowCnt, averaged offset col k) / .fin rra.rraDef.rowCnt)
    | none => (rra.ring.slot k).getD d .nan
  else averaged offset col k

/-- The next row of an archive is not changed by the smoother: there is no window, or a coefficient is unknown, or the
row is what the smoother makes of it. -/
def NextRowKept (version dsCnt : ℕ) (rras : List Rra) (rra : Rra) : Prop :=
  smootherOffset version rra.rraDef = 0 ∨
    (∃ d < dsCnt, ∃ v ∈ ringColumn rra.rraDef.rowCnt rra.ring d, v.isnan = true) ∨
    ∀ d < dsCnt, smoothedCoef version rras rra d ((rra.ring.cur + 1) % rra.rraDef.rowCnt) =
      (rra.ring.slot ((rra.ring.cur + 1) % rra.rraDef.rowCnt)).getD d .nan

section NextRow

variable {version dsCnt : ℕ} {rras : List Rra} {rra : Rra}

/-- An archive without a window or with an unknown coefficient is left alone. -/
lemma smoothSeasonal_of_none (h : smoothedCols version dsCnt rra = none) : smoothSeasonal version dsCnt rras rra = rra := by
  unfold smoothSeasonal
  split
  · split
    · rw [smoothSea, h]
    · rfl
  · rw [smoothDev, h]

lemma smoothSeasonal_slot (hlt : smootherOffset version rra.rraDef < rra.rraDef.rowCnt)
    (hcols : smoothedCols version dsCnt rra = some (((List.range dsCnt).map
      (ringColumn rra.rraDef.rowCnt rra.ring)).map
        (smoothColumn rra.rraDef.rowCnt (smootherOffset version rra.rraDef)))) {d k : ℕ} (hd : d < dsCnt)
    (hk : k < rra.rraDef.rowCnt) :
    ((smoothSeasonal version dsCnt rras rra).ring.slot k).getD d .nan = smoothedCoef version rras rra d k := by
  have hcol := @smoothColumn_eq (smootherOffset version rra.rraDef) (ringColumn rra.rraDef.rowCnt rra.ring d)
    (by rw [ringColumn_length]; exact hlt)
  rw [ringColumn_length] at hcol
  have hp : (((List.range dsCnt).map (ringColumn rra.rraDef.rowCnt rra.ring)).map
      (smoothColumn rra.rraDef.rowCnt (smootherOffset version rra.rraDef)))[d]? =
        some ((List.range rra.rraDef.rowCnt).map
          (averaged (smootherOffset version rra.rraDef) (ringColumn rra.rraDef.rowCnt rra.ring d)),
          (∑ k ∈ Finset.range rra.rraDef.rowCnt,
            averaged (smootherOffset version rra.rraDef) (ringColumn rra.rraDef.rowCnt rra.ring d) k) /
              .fin rra.rraDef.rowCnt) := by
    rw [List.getElem?_map, List.getElem?_map, List.getElem?_range hd, Option.map_some, Option.map_some, hcol]
  have hget : ∀ f : ℕ → RrdValue, ((List.range rra.rraDef.rowCnt).map f).getD k .nan = f k := by
    intro f
    rw [List.getD_eq_getElem?_getD, List.getElem?_map, List.getElem?_range hk]
    rfl
  by_cases hsea : rra.rraDef.cf = .seasonal
  · simp only [smoothSeasonal, smoothedCoef, hsea, if_true]
    cases methodOf rras rra.rraDef.dependentRraIdx with
    | none => rfl
    | some M =>
      simp only [smoothSea, hcols]
      rw [storeCols_slot hp _ hk, List.map_map, hget]
      rfl
  · simp only [smoothSeasonal, smoothedCoef, hsea, if_false, smoothDev, hcols]
    rw [storeCols_slot hp _ hk, hget]

/-- The cache of one archive behind the smoother. -/
lemma seasonalCached_iff (hrows : 0 < rra.rraDef.rowCnt) (hwidth : rra.cdpPrep.length = dsCnt)
    (hwindow : 4 ≤ version → ∀ w : ℚ, rra.rraDef.smoothingWindow = .fin w → w ≤ 1) (hcached : SeasonalCached rra) :
    SeasonalCached (smoothSeasonal version dsCnt rras rra) ↔ NextRowKept version dsCnt rras rra := by
  by_cases hdo : smootherOffset version rra.rraDef = 0 ∨
      ∃ d < dsCnt, ∃ v ∈ ringColumn rra.rraDef.rowCnt rra.ring d, v.isnan = true
  · have hnone : smoothedCols version dsCnt rra = none := by
      refine if_pos (hdo.imp_right ?_)
      rintro ⟨d, hd, v, hv, hnan⟩
      exact List.any_eq_true.2 ⟨_, List.mem_map.2 ⟨d, List.mem_range.2 hd, rfl⟩, List.any_eq_true.2 ⟨v, hv, hnan⟩⟩
    rw [smoothSeasonal_of_none hnone]
    exact iff_of_true hcached (hdo.imp_right .inl)
  · rw [not_or] at hdo
    obtain ⟨hoffset, hnan⟩ := hdo
    have hcols := @smoothedCols_eq version dsCnt rra (Nat.pos_of_ne_zero hoffset) fun d hd v hv =>
      Bool.eq_false_iff.2 fun h => hnan ⟨d, hd, v, hv, h⟩
    have hslot := fun {d : ℕ} (hd : d < dsCnt) => @smoothSeasonal_slot version dsCnt rras rra
      (smootherOffset_lt hrows hwindow) hcols d ((rra.ring.cur + 1) % rra.rraDef.rowCnt) hd (Nat.mod_lt _ hrows)
    obtain ⟨hdef, hcdp, hcur⟩ := smoothSeasonal_keeps version dsCnt rras rra
    rw [SeasonalCached, hdef, hcdp, hcur]
    constructor
    · intro h
      refine .inr (.inr fun d hd => ?_)
      have hlt : d < rra.cdpPrep.length := hwidth ▸ hd
      rw [← hslot hd, ← h d _ (List.getElem?_eq_getElem hlt), hcached d _ (List.getElem?_eq_getElem hlt)]
    · rintro (hzero | hany | hkept) d c hc
      · exact absurd hzero hoffset
      · exact absurd hany hnan
      · have hd : d < dsCnt := hwidth ▸ (List.getElem?_eq_some_iff.1 hc).1
        rw [hslot hd, hkept d hd]
        exact hcached d c hc

end NextRow

/-- What every file promises of its seasonal archives. -/
structure SeasonalLayout (version dsCnt : ℕ) (rra : Rra) : Prop where
  rows : 0 < rra.rraDef.rowCnt
  width : rra.cdpPrep.length = dsCnt
  window : 4 ≤ version → ∀ w : ℚ, rra.rraDef.smoothingWindow = .fin w → w ≤ 1

/-- The cached coefficients are in step with the rows behind the smoother exactly if it leaves the next row of every
seasonal archive as it is. -/
theorem smoothAllRras_cached_iff {rrd : Rrd}
    (hlayout : ∀ (i : ℕ) rra, rrd.rra[i]? = some rra → rra.rraDef.cf.isSeasonal →
      SeasonalLayout rrd.version rrd.dsCnt rra)
    (hsync : CachesInSync rrd.rra) :
    CachesInSync (smoothAllRras rrd).rra ↔
      ∀ (i : ℕ) rra, rrd.rra[i]? = some rra → rra.rraDef.cf.isSeasonal →
        NextRowKept rrd.version rrd.dsCnt rrd.rra rra := by
  have hone : ∀ (i : ℕ) rra, rrd.rra[i]? = some rra → rra.rraDef.cf.isSeasonal →
      (SeasonalCached (smoothSeasonal rrd.version rrd.dsCnt rrd.rra rra) ↔
        NextRowKept rrd.version rrd.dsCnt rrd.rra rra) := by
    intro i rra hi hcf
    obtain ⟨hrows, hwidth, hwindow⟩ := hlayout i rra hi hcf
    exact seasonalCached_iff hrows hwidth hwindow (hsync i rra hi hcf)
  constructor
  · intro h i rra hi hcf
    refine (hone i rra hi hcf).1 (h i _ (smoothAllRras_seasonal hi hcf) ?_)
    rw [(smoothSeasonal_keeps _ _ _ _).1]
    exact hcf
  · intro h i rra' hi' hcf'
    obtain ⟨rra, hi, hspec⟩ := Pointwise.getElem?_right (smoothAllRras_spec rrd) hi'
    rw [hspec.rraDef] at hcf'
    rw [smoothAllRras_seasonal hi hcf'] at hi'
    exact Option.some.inj hi' ▸ (hone i rra hi hcf').2 (h i rra hi hcf')

/-- A file with a season of four rows, the next row of which is cached. -/
def seasonFile (rows : List RrdValue) : Rrd :=
  { rrdInitData cachedHeader (fun _ => 0) with
    rra := [⟨hwRra .hwpredict 4 1, [{ (default : CdpPrep) with hwIntercept := .fin 10 }], season⟩,
      ⟨{ hwRra .seasonal 4 0 with smoothingWindow := .fin (1 / 2) },
        [{ (default : CdpPrep) with hwIntercept := rows.getD 1 .nan }], ⟨0, fun r => [rows.getD r .nan]⟩⟩] }

/-- The one seasonal archive of the file. -/
lemma seasonFile_seasonal {rows : List RrdValue} {i : ℕ} {rra : Rra} (hi : (seasonFile rows).rra[i]? = some rra)
    (hcf : rra.rraDef.cf.isSeasonal) :
    rra = ⟨{ hwRra .seasonal 4 0 with smoothingWindow := .fin (1 / 2) },
      [{ (default : CdpPrep) with hwIntercept := rows.getD 1 .nan }], ⟨0, fun r => [rows.getD r .nan]⟩⟩ := by
  match i with
  | 0 =>
    obtain rfl := Option.some.inj hi
    cases hcf
  | 1 => exact (Option.some.inj hi).symm
  | i + 2 => cases hi

lemma seasonFile_sync (rows : List RrdValue) : CachesInSync (seasonFile rows).rra := by
  intro i rra hi hcf d c hc
  obtain rfl := seasonFile_seasonal hi hcf
  match d with
  | 0 =>
    obtain rfl := Option.some.inj hc
    rfl
  | d + 1 => cases hc

theorem smoothAllRras_cached_iff_zero : CachesInSync (smoothAllRras (seasonFile [.fin 0, .fin 0, .fin 0, .fin 0])).rra := by
  refine (smoothAllRras_cached_iff (fun i rra hi hcf => ?_) (seasonFile_sync _)).2 fun i rra hi hcf => ?_
  · obtain rfl := seasonFile_seasonal hi hcf
    refine ⟨by decide, rfl, fun _ w hw => ?_⟩
    obtain rfl := ExtNum.fin.inj hw
    norm_num
  · obtain rfl := seasonFile_seasonal hi hcf
    refine .inr (.inr fun d hd => ?_)
    obtain rfl : d = 0 := Nat.lt_one_iff.1 hd
    decide +kernel

/-- The next row is smoothed from `3` to `0` and the intercept raised from `10` to `13`, while the cache holds `3`. -/
theorem smoother_leaves_cache :
    CachesInSync (seasonFile [.fin 0, .fin 3, .fin 6, .fin 3]).rra ∧
      (cdpAt (smoothAllRras (seasonFile [.fin 0, .fin 3, .fin 6, .fin 3])).rra 0 0).hwIntercept = .fin 13 ∧
      ¬ CachesInSync (smoothAllRras (seasonFile [.fin 0, .fin 3, .fin 6, .fin 3])).rra := by
  have hrun : ((smoothAllRras (seasonFile [.fin 0, .fin 3, .fin 6, .fin 3])).rra[1]?.map fun rra =>
      (rra.rraDef.rowCnt, rra.ring.cur, rra.cdpPrep.map (·.hwIntercept), rra.ring.slot 1)) =
      some (4, 0, [.fin 3], [.fin 0]) := by decide +kernel
  refine ⟨seasonFile_sync _, by decide +kernel, fun h => ?_⟩
  obtain ⟨rra, hrra, heq⟩ := Option.map_eq_some_iff.1 hrun
  simp only [Prod.mk.injEq] at heq
  obtain ⟨hrows, hcur, hcdp, hslot⟩ := heq
  obtain ⟨c, hc, hval⟩ := List.map_eq_singleton_iff.1 hcdp
  have hdef := @rraDefAt_smoothAllRras (seasonFile [.fin 0, .fin 3, .fin 6, .fin 3]) 1
  rw [rraDefAt, hrra, Option.map_some] at hdef
  have hcf : rra.rraDef.cf.isSeasonal := by
    rw [Option.some.inj hdef]
    rfl
  have hcached := h 1 rra hrra hcf 0 c (by rw [hc]; rfl)
  rw [hrows, hcur, hval, hslot] at hcached
  exact absurd hcached (by decide)

end Rrdtool
