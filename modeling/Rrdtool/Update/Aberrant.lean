import Rrdtool.Update.Pass

/-!
# What `update_aberrant_cdps` does

The spec lemmas of `update_aberrant_cdps` of `src/rrd_update.c`. An archive of one primary data point per
row gets new preparation areas, which are computed from the areas that the other archives have at that
moment (`updateAberrantRra_eq`); the loop reaches the archives in the order of the file
(`updateAberrantSlot_at`).
-/

namespace Rrdtool

@[simp] lemma get_set (c : CdpPrep) (k : ScratchIdx) (v : RrdValue) : (c.set k v).get k = v := by
  cases k <;> rfl

@[simp] lemma set_set (c : CdpPrep) (k : ScratchIdx) (v w : RrdValue) : (c.set k v).set k w = c.set k w := by
  cases k <;> rfl

/-! ### The halves of `update_failures` -/

/-- The prediction and the deviation that `update_failures` judges by. -/
def failureInputs (rras : List Rra) (rra : RraDef) (i d : ℕ) (fns : HwFunctions) : RrdValue × RrdValue :=
  let devIdx := rra.dependentRraIdx
  let hwIdx := hwDepIdx rras devIdx
  let seasonalIdx := hwDepIdx rras hwIdx
  let dev := cdpAt rras devIdx d
  let sea := cdpAt rras seasonalIdx d
  let hw := cdpAt rras hwIdx d
  let deviation := if i < seasonalIdx then dev.hwIntercept else dev.hwLastIntercept
  let seasonal := if i < seasonalIdx then sea.hwIntercept else sea.hwLastIntercept
  (if i < hwIdx then fns.predict hw.hwIntercept hw.hwSlope hw.nullCount seasonal
    else fns.predict hw.hwLastIntercept hw.hwLastSlope hw.lastNullCount seasonal, deviation)

/-- The judgement by a prediction and a deviation. -/
def failureJudgement (rra : RraDef) (inputs : RrdValue × RrdValue) (observed : RrdValue) : Bool :=
  !inputs.2.isnan && (observed.isnan || hwIsViolation observed inputs.1 inputs.2 rra.deltaPos rra.deltaNeg)

/-- What `update_failures` does with its judgement. -/
def storeFailure (rra : RraDef) (k : ScratchIdx) (violation : Bool) (c : CdpPrep) : CdpPrep :=
  let violations :=
    violation :: (c.violations.take (rra.windowLen - 1) ++ c.violations.drop (max rra.windowLen 1))
  let count := (violations.take (max rra.windowLen 1)).count true
  CdpPrep.set { c with violations := violations } k (if count < rra.failureThreshold then .fin 0 else .fin 1)

lemma updateFailures_halves (rras : List Rra) (rra : RraDef) (i d : ℕ) (k : ScratchIdx) (fns : HwFunctions)
    (c : CdpPrep) :
    updateFailures rras rra i d k fns c =
      storeFailure rra k (failureJudgement rra (failureInputs rras rra i d fns) (c.get k)) c := rfl

section OneArchive

variable {rras rras' : List Rra} {rra : Rra} {rraDef : RraDef} {i d : ℕ} {k : ScratchIdx}

/-- `update_aberrant_CF` reads the areas of one data source and the definitions only. -/
lemma updateAberrantCF_congr (hcdp : ∀ j, cdpAt rras' j d = cdpAt rras j d)
    (hdef : ∀ j, rraDefAt rras' j = rraDefAt rras j) (coef x : RrdValue) :
    updateAberrantCF rras' rraDef i d k coef x = updateAberrantCF rras rraDef i d k coef x := by
  have hdep : ∀ j, hwDepIdx rras' j = hwDepIdx rras j := fun j => by simp only [hwDepIdx, hdef]
  have hfns : ∀ j, hwFunctionsOf rras' j = hwFunctionsOf rras j := fun j => by
    simp only [hwFunctionsOf, hdef]
  simp only [updateAberrantCF, updateHwpredict, updateSeasonal, updateDevpredict, updateDevseasonal,
    updateFailures, hcdp, hdef, hdep, hfns]

/-- The coefficients that are read ahead for an archive. -/
@[grind] def readAhead (elapsed : ℕ) (k : ScratchIdx) (rra : Rra) : Row :=
  if rra.rraDef.cf.isSeasonal then lookupSeasonal rra (if k = .primary then elapsed + 1 else elapsed + 2)
  else []

/-- The preparation areas that an archive gets. -/
@[grind] def aberrantCdps (elapsed : ℕ) (temps : List RrdValue) (k : ScratchIdx) (rras : List Rra) (rra : Rra) (i : ℕ) :
    List CdpPrep :=
  rra.cdpPrep.mapIdx fun d _ =>
    updateAberrantCF rras rra.rraDef i d k ((readAhead elapsed k rra).getD d .nan) (temps.getD d .nan)

lemma cdpAt_set_of_same {cdps : List CdpPrep} (hi : rras[i]? = some rra) (hd : cdps[d]? = rra.cdpPrep[d]?)
    (j : ℕ) : cdpAt (rras.set i { rra with cdpPrep := cdps }) j d = cdpAt rras j d := by
  obtain rfl | hj := eq_or_ne i j
  · have hset := List.getElem?_set_self (a := { rra with cdpPrep := cdps }) (List.getElem?_eq_some_iff.1 hi).1
    rw [cdpAt, cdpAt, hset, hi, Option.bind_some, Option.bind_some, hd]
  · rw [cdpAt, cdpAt, List.getElem?_set_ne hj]

lemma rraDefAt_set_cdpPrep {cdps : List CdpPrep} (hi : rras[i]? = some rra) (j : ℕ) :
    rraDefAt (rras.set i { rra with cdpPrep := cdps }) j = rraDefAt rras j := by
  obtain rfl | hj := eq_or_ne i j
  · have hset := List.getElem?_set_self (a := { rra with cdpPrep := cdps }) (List.getElem?_eq_some_iff.1 hi).1
    rw [rraDefAt, rraDefAt, hset, hi]
    rfl
  · rw [rraDefAt, rraDefAt, List.getElem?_set_ne hj]

lemma setCdp_set {cdps : List CdpPrep} {c : CdpPrep} (hi : rras[i]? = some rra) :
    setCdp (rras.set i { rra with cdpPrep := cdps }) i d c =
      rras.set i { rra with cdpPrep := cdps.set d c } := by
  have hlt := (List.getElem?_eq_some_iff.1 hi).1
  apply List.ext_getElem?
  intro j
  obtain rfl | hj := eq_or_ne i j
  · simp [setCdp, hlt]
  · simp [setCdp, hj]

/-- One archive in the inner loop of `update_aberrant_cdps`. -/
lemma updateAberrantRra_eq {elapsed : ℕ} {temps : List RrdValue} (hi : rras[i]? = some rra)
    (hone : rra.rraDef.pdpCnt = 1) :
    updateAberrantRra elapsed temps k rras i =
      rras.set i { rra with cdpPrep := aberrantCdps elapsed temps k rras rra i } := by
  have hfold : ∀ m ≤ rra.cdpPrep.length,
      (List.range m).foldl (fun rras d => setCdp rras i d (updateAberrantCF rras rra.rraDef i d k
          ((readAhead elapsed k rra).getD d .nan) (temps.getD d .nan))) rras =
        rras.set i { rra with cdpPrep :=
          (aberrantCdps elapsed temps k rras rra i).take m ++ rra.cdpPrep.drop m } := by
    intro m hm
    induction m with
    | zero =>
      obtain ⟨hlt, rfl⟩ := List.getElem?_eq_some_iff.1 hi
      exact (List.set_getElem_self hlt).symm
    | succ m ih =>
      have hlen : (aberrantCdps elapsed temps k rras rra i).length = rra.cdpPrep.length := List.length_mapIdx
      rw [List.range_succ, List.foldl_append, ih (by omega), List.foldl_cons, List.foldl_nil]
      have hsame : ((aberrantCdps elapsed temps k rras rra i).take m ++ rra.cdpPrep.drop m)[m]? =
          rra.cdpPrep[m]? := by
        rw [List.getElem?_append_right (by simp), List.getElem?_drop]
        simp [hlen, Nat.min_eq_left (Nat.le_of_succ_le hm)]
      rw [updateAberrantCF_congr (fun j => cdpAt_set_of_same hi hsame j)
        fun j => rraDefAt_set_cdpPrep hi j, setCdp_set hi]
      congr 2
      have hdrop : rra.cdpPrep.drop m = rra.cdpPrep[m] :: rra.cdpPrep.drop (m + 1) :=
        List.drop_eq_getElem_cons (by omega)
      have hget : (aberrantCdps elapsed temps k rras rra i)[m]? = some (updateAberrantCF rras rra.rraDef i m k
          ((readAhead elapsed k rra).getD m .nan) (temps.getD m .nan)) := by
        simp [aberrantCdps, List.getElem?_eq_getElem hm]
      rw [hdrop, List.take_add_one, hget, List.set_append_right _ _ (by simp)]
      simp only [List.length_take, hlen, Nat.min_eq_left (Nat.le_of_succ_le hm), Nat.sub_self, List.set_cons_zero,
        Option.toList_some, List.append_assoc, List.singleton_append]
  have hall := hfold rra.cdpPrep.length le_rfl
  have hlen : (aberrantCdps elapsed temps k rras rra i).length = rra.cdpPrep.length := List.length_mapIdx
  rw [List.drop_length, List.append_nil, ← hlen, List.take_length, hlen] at hall
  simp only [updateAberrantRra, hi, if_pos hone]
  exact hall

/-- Archives that consolidate are left alone. -/
lemma updateAberrantRra_of_ne {elapsed : ℕ} {temps : List RrdValue} (hi : rras[i]? = some rra)
    (hmany : rra.rraDef.pdpCnt ≠ 1) : updateAberrantRra elapsed temps k rras i = rras := by
  simp only [updateAberrantRra, hi, if_neg hmany]

end OneArchive

/-- One pass of the outer loop of `update_aberrant_cdps`. -/
def updateAberrantSlot (elapsed : ℕ) (temps : List RrdValue) (k : ScratchIdx) (rras : List Rra) (m : ℕ) :
    List Rra :=
  (List.range m).foldl (updateAberrantRra elapsed temps k) rras

section Slot

variable {elapsed : ℕ} {temps : List RrdValue} {k : ScratchIdx} {rras : List Rra}

lemma updateAberrantSlot_succ (m : ℕ) :
    updateAberrantSlot elapsed temps k rras (m + 1) =
      updateAberrantRra elapsed temps k (updateAberrantSlot elapsed temps k rras m) m := by
  simp [updateAberrantSlot, List.range_succ]

lemma updateAberrantRra_getElem?_of_ne {i j : ℕ} (h : i ≠ j) :
    (updateAberrantRra elapsed temps k rras i)[j]? = rras[j]? := by
  cases hi : rras[i]? with
  | none => simp only [updateAberrantRra, hi]
  | some rra =>
    by_cases hone : rra.rraDef.pdpCnt = 1
    · rw [updateAberrantRra_eq hi hone, List.getElem?_set_ne h]
    · rw [updateAberrantRra_of_ne hi hone]

/-- An archive that the loop has not reached is as it was. -/
lemma updateAberrantSlot_getElem?_of_le {m j : ℕ} (h : m ≤ j) :
    (updateAberrantSlot elapsed temps k rras m)[j]? = rras[j]? := by
  induction m with
  | zero => rfl
  | succ m ih =>
    rw [updateAberrantSlot_succ, updateAberrantRra_getElem?_of_ne (by omega)]
    exact ih (by omega)

/-- An archive that the loop has left stays as it is. -/
lemma updateAberrantSlot_getElem?_of_lt {m j : ℕ} (h : j < m) :
    (updateAberrantSlot elapsed temps k rras m)[j]? =
      (updateAberrantSlot elapsed temps k rras (j + 1))[j]? := by
  induction m with
  | zero => omega
  | succ m ih =>
    obtain rfl | hlt := Nat.eq_or_lt_of_le (Nat.le_of_lt_succ h)
    · rfl
    · rw [updateAberrantSlot_succ, updateAberrantRra_getElem?_of_ne (by omega)]
      exact ih hlt

/-- The archive at `i` when the loop has passed it. -/
lemma updateAberrantSlot_at {m i : ℕ} {rra : Rra} (hi : rras[i]? = some rra)
    (hone : rra.rraDef.pdpCnt = 1) (h : i < m) :
    (updateAberrantSlot elapsed temps k rras m)[i]? =
      some { rra with
        cdpPrep := aberrantCdps elapsed temps k (updateAberrantSlot elapsed temps k rras i) rra i } := by
  have hmid : (updateAberrantSlot elapsed temps k rras i)[i]? = some rra := by
    rw [updateAberrantSlot_getElem?_of_le le_rfl, hi]
  rw [updateAberrantSlot_getElem?_of_lt h, updateAberrantSlot_succ, updateAberrantRra_eq hmid hone]
  exact List.getElem?_set_self (List.getElem?_eq_some_iff.1 hmid).1

/-- An archive that consolidates, behind the loop. -/
lemma updateAberrantSlot_of_ne {m i : ℕ} {rra : Rra} (hi : rras[i]? = some rra) (hmany : rra.rraDef.pdpCnt ≠ 1)
    (h : i < m) : (updateAberrantSlot elapsed temps k rras m)[i]? = some rra := by
  have hmid : (updateAberrantSlot elapsed temps k rras i)[i]? = some rra := by
    rw [updateAberrantSlot_getElem?_of_le le_rfl, hi]
  rw [updateAberrantSlot_getElem?_of_lt h, updateAberrantSlot_succ, updateAberrantRra_of_ne hmid hmany, hmid]

/-- The area of an archive of one primary data point per row, while the loop is running. -/
lemma cdpAt_updateAberrantSlot {i m d : ℕ} {rra : Rra} (hi : rras[i]? = some rra) (hone : rra.rraDef.pdpCnt = 1)
    (hd : d < rra.cdpPrep.length) :
    cdpAt (updateAberrantSlot elapsed temps k rras m) i d =
      if i < m then updateAberrantCF (updateAberrantSlot elapsed temps k rras i) rra.rraDef i d k
        ((readAhead elapsed k rra).getD d .nan) (temps.getD d .nan)
      else cdpAt rras i d := by
  split
  · rename_i hlt
    rw [cdpAt, updateAberrantSlot_at hi hone hlt, Option.bind_some, aberrantCdps, List.getElem?_mapIdx,
      List.getElem?_eq_getElem hd]
    rfl
  · rename_i hle
    rw [cdpAt, cdpAt, updateAberrantSlot_getElem?_of_le (not_lt.1 hle)]

/-- The definitions stay. -/
lemma rraDefAt_updateAberrantSlot (m j : ℕ) :
    rraDefAt (updateAberrantSlot elapsed temps k rras m) j = rraDefAt rras j := by
  induction m with
  | zero => rfl
  | succ m ih =>
    rw [updateAberrantSlot_succ, ← ih]
    generalize updateAberrantSlot elapsed temps k rras m = mid
    cases hm : mid[m]? with
    | none => simp only [updateAberrantRra, hm]
    | some rra =>
      by_cases hone : rra.rraDef.pdpCnt = 1
      · rw [updateAberrantRra_eq hm hone, rraDefAt_set_cdpPrep hm]
      · rw [updateAberrantRra_of_ne hm hone]

lemma updateAberrantSlot_length (m : ℕ) : (updateAberrantSlot elapsed temps k rras m).length = rras.length := by
  induction m with
  | zero => rfl
  | succ m ih =>
    rw [updateAberrantSlot_succ, ← ih]
    generalize updateAberrantSlot elapsed temps k rras m = mid
    cases hm : mid[m]? with
    | none => simp only [updateAberrantRra, hm]
    | some rra =>
      by_cases hone : rra.rraDef.pdpCnt = 1
      · rw [updateAberrantRra_eq hm hone, List.length_set]
      · rw [updateAberrantRra_of_ne hm hone]

end Slot

lemma updateAberrantCdps_one (temps : List RrdValue) (rras : List Rra) :
    updateAberrantCdps 1 temps rras = updateAberrantSlot 1 temps .primary rras rras.length := rfl

lemma updateAberrantCdps_two (temps : List RrdValue) (rras : List Rra) :
    updateAberrantCdps 2 temps rras = updateAberrantSlot 2 temps .secondary
      (updateAberrantSlot 2 temps .primary rras rras.length) rras.length := by
  rw [updateAberrantCdps, show aberrantSlots 2 = [.primary, .secondary] from rfl, List.foldl_cons, List.foldl_cons,
    List.foldl_nil]
  show updateAberrantSlot 2 temps .secondary (updateAberrantSlot 2 temps .primary rras rras.length)
    (updateAberrantSlot 2 temps .primary rras rras.length).length = _
  rw [updateAberrantSlot_length]

lemma updateAberrantSlot_spec (elapsed : ℕ) (temps : List RrdValue) (k : ScratchIdx) (rras : List Rra) (m : ℕ) :
    List.Forall₂ AberrantSpec rras (updateAberrantSlot elapsed temps k rras m) :=
  Pointwise.foldl_right (List.forall₂_same.2 fun rra _ => ⟨.refl rra, fun _ => rfl⟩) _ fun _ _ hl =>
    updateAberrantRra_spec hl

lemma updateAberrantCdps_of_two_lt {elapsed : ℕ} (h : 2 < elapsed) (temps : List RrdValue) (rras : List Rra) :
    updateAberrantCdps elapsed temps rras = rras := by
  have hslots : aberrantSlots elapsed = [] := by
    rw [aberrantSlots, if_neg (by omega), if_neg (by omega)]
  rw [updateAberrantCdps, hslots, List.foldl_nil]

/-! ### A pass, archive by archive -/

/-- What a pass of `process_arg` over the archives is called with. -/
structure PassArgs where
  elapsed : ℕ
  procPdpCnt : ℕ
  temps : List RrdValue
  coef : SeasonalCoef
  time : ℕ

/-- A pass over the archives. -/
@[grind] def Rrd.pass (rrd : Rrd) (a : PassArgs) : Rrd :=
  (consolidate rrd a.elapsed a.procPdpCnt a.temps a.coef a.time).1

section OnePass

variable {rrd : Rrd} {a : PassArgs} {i : ℕ} {rra : Rra}

lemma updateAllCdpPrep_at {elapsed procPdpCnt : ℕ} {temps : List RrdValue} {s : SeasonalCoef} {rras : List Rra}
    (hi : rras[i]? = some rra) : ∃ s', (updateAllCdpPrep elapsed procPdpCnt temps s rras).1[i]? =
      some ((updateRraCdpPrep elapsed procPdpCnt temps s' rra).1,
        (updateRraCdpPrep elapsed procPdpCnt temps s' rra).2.1) := by
  induction rras generalizing s i with
  | nil => cases hi
  | cons rra₀ rras ih =>
    cases i with
    | zero =>
      obtain rfl := Option.some.inj hi
      exact ⟨s, rfl⟩
    | succ i => exact ih hi

/-- The archives when `update_aberrant_cdps` is reached. -/
@[grind] def Rrd.prepared (rrd : Rrd) (a : PassArgs) : List Rra :=
  (updateAllCdpPrep a.elapsed a.procPdpCnt a.temps a.coef rrd.rra).1.map Prod.fst

lemma prepared_length : (rrd.prepared a).length = rrd.rra.length := by
  rw [Rrd.prepared, List.length_map]
  exact (updateAllCdpPrep_spec a.elapsed a.procPdpCnt a.temps a.coef rrd.rra).length_eq.symm

lemma rraDefAt_prepared (j : ℕ) : rraDefAt (rrd.prepared a) j = rraDefAt rrd.rra j := by
  cases hj : rrd.rra[j]? with
  | none =>
    have hnone : (rrd.prepared a)[j]? = none := by
      rw [List.getElem?_eq_none_iff, prepared_length]
      exact List.getElem?_eq_none_iff.1 hj
    rw [rraDefAt, rraDefAt, hj, hnone]
  | some rra =>
    obtain ⟨s', hs⟩ := @updateAllCdpPrep_at j rra a.elapsed a.procPdpCnt a.temps a.coef _ hj
    rw [rraDefAt, rraDefAt, hj, Rrd.prepared, List.getElem?_map, hs]
    exact congrArg some (updateRraCdpPrep_spec ..).rraDef

/-- The archive at `i` through one pass: it is prepared, updated with the others and written. -/
lemma pass_at (hi : rrd.rra[i]? = some rra) :
    ∃ s', (rrd.prepared a)[i]? = some (updateRraCdpPrep a.elapsed a.procPdpCnt a.temps s' rra).1 ∧
      ∀ rra', (updateAberrantCdps a.elapsed a.temps (rrd.prepared a))[i]? = some rra' →
        (rrd.pass a).rra[i]? = some
          (writeRraRows (rra'.rraDef.pdpCnt * rrd.pdpStep) a.time
            (updateRraCdpPrep a.elapsed a.procPdpCnt a.temps s' rra).2.1.skipUpdate
            (updateRraCdpPrep a.elapsed a.procPdpCnt a.temps s' rra).2.1.stepCnt .primary 1 rra').1 := by
  obtain ⟨s', hs⟩ := @updateAllCdpPrep_at i rra a.elapsed a.procPdpCnt a.temps a.coef _ hi
  refine ⟨s', by rw [Rrd.prepared, List.getElem?_map, hs]; rfl, fun rra' hrra' => ?_⟩
  show ((writeToRras rrd.pdpStep a.time (updateAberrantCdps a.elapsed a.temps (rrd.prepared a)) _).map
    Prod.fst)[i]? = _
  rw [List.getElem?_map, writeToRras, List.getElem?_zipWith, hrra', List.getElem?_map, hs]
  rfl

/-- Writing the rows leaves the areas alone. -/
lemma cdpAt_pass_eq (hi : rrd.rra[i]? = some rra) (d : ℕ) :
    cdpAt (rrd.pass a).rra i d = cdpAt (updateAberrantCdps a.elapsed a.temps (rrd.prepared a)) i d := by
  obtain ⟨s', hprep, hwrite⟩ := @pass_at rrd a i rra hi
  obtain ⟨rra', hrra', -⟩ := Pointwise.getElem?_left (updateAberrantCdps_spec a.elapsed a.temps (rrd.prepared a)) hprep
  rw [cdpAt, cdpAt, hwrite rra' hrra', hrra', Option.bind_some, Option.bind_some, writeRraRows_keeps.2.1]

/-- A pass leaves the definitions alone. -/
lemma rraDefAt_pass (j : ℕ) : rraDefAt (rrd.pass a).rra j = rraDefAt rrd.rra j := by
  obtain ⟨written, hspec, hrrd, -⟩ :=
    consolidate_spec rrd a.elapsed a.procPdpCnt a.temps a.coef a.time
  rw [Rrd.pass, hrrd, rraDefAt, rraDefAt, List.getElem?_map]
  cases hj : rrd.rra[j]? with
  | none =>
    have hnone : written[j]? = none := by
      rw [List.getElem?_eq_none_iff, ← hspec.length_eq]
      exact List.getElem?_eq_none_iff.1 hj
    rw [hnone]
    rfl
  | some rra =>
    obtain ⟨p, hp, hpass⟩ := Pointwise.getElem?_left hspec hj
    rw [hp]
    exact congrArg some hpass.rraDef

end OnePass

/-! ### The passes of an argument -/

/-- What the passes of an accepted argument are called with; `rrd` is the file before it. -/
@[grind] def Accepted.passes (rrd : Rrd) (acc : Accepted) : List PassArgs :=
  match acc.phases with
  | [] => []
  | [p] => [⟨p.elapsedPdpSt, p.procPdpCnt, p.pdpTemp, ⟨[], []⟩, acc.sec⟩]
  | p :: q :: _ =>
    let el := calculateElapsedSteps rrd acc.sec acc.usec (rrd.interval acc.sec acc.usec)
    let time := rrd.lastUp + secOpenPdp rrd.pdpStep el.preInt
    let s := (consolidate rrd p.elapsedPdpSt p.procPdpCnt p.pdpTemp ⟨[], []⟩ time).2.2
    [⟨p.elapsedPdpSt, p.procPdpCnt, p.pdpTemp, ⟨[], []⟩, time⟩, ⟨q.elapsedPdpSt, q.procPdpCnt, q.pdpTemp, s, acc.sec⟩]

section OneArgument

variable {rrd rrd' : Rrd}

/-- A pass reads the archives and the step only. -/
lemma pass_congr (hstep : rrd'.pdpStep = rrd.pdpStep) (hrra : rrd'.rra = rrd.rra) (a : PassArgs) :
    (rrd'.pass a).pdpStep = (rrd.pass a).pdpStep ∧ (rrd'.pass a).rra = (rrd.pass a).rra := by
  refine ⟨hstep, ?_⟩
  simp only [Rrd.pass, consolidate, hstep, hrra]

lemma closePdps_pass {host pass procPdpCnt pdpNew s time phase s'}
    (h : closePdps host rrd pass procPdpCnt pdpNew s time = (rrd', some (phase, s'))) :
    rrd'.pdpStep = rrd.pdpStep ∧
      rrd'.rra = (rrd.pass ⟨phase.elapsedPdpSt, phase.procPdpCnt, phase.pdpTemp, s, time⟩).rra ∧
      s' = (consolidate rrd phase.elapsedPdpSt phase.procPdpCnt phase.pdpTemp s time).2.2 := by
  unfold closePdps at h
  split at h
  · cases h
  · cases h
    exact ⟨rfl, rfl, rfl⟩

/-- An accepted argument does to the archives what its passes do. -/
lemma processArg_passes {host tmpl input acc} (h : processArg host tmpl rrd input = (rrd', .ok acc)) :
    rrd'.pdpStep = rrd.pdpStep ∧ rrd'.rra = ((acc.passes rrd).foldl Rrd.pass rrd).rra := by
  obtain ⟨atStyle, time, ds, xs, -, -, -, happly, -⟩ := processArg_ok h
  obtain ⟨-, hph, rfl⟩ | ⟨-, -, rrd₁, phase, s, hph, rfl, h₁⟩ |
    ⟨-, rrd₁, phase₁, s₁, rrd₂, phase₂, s₂, hph, rfl, h₁, h₂⟩ := applyPdpNew_some happly
  · rw [Accepted.passes, hph]
    exact ⟨rfl, rfl⟩
  · obtain ⟨hstep, hrra, -⟩ := closePdps_pass h₁
    rw [Accepted.passes, hph]
    exact ⟨hstep, hrra⟩
  · obtain ⟨hstep₁, hrra₁, rfl⟩ := closePdps_pass h₁
    obtain ⟨hstep₂, hrra₂, -⟩ := closePdps_pass h₂
    rw [Accepted.passes, hph]
    exact ⟨hstep₂.trans hstep₁, hrra₂.trans (@pass_congr (rrd.pass _) rrd₁ hstep₁ hrra₁ _).2⟩

end OneArgument

end Rrdtool
