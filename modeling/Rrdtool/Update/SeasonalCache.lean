import Rrdtool.Create
import Rrdtool.Update.Aberrant
import Rrdtool.Lib.Outcome

/-!
# The cached seasonal coefficients

A `SEASONAL` or `DEVSEASONAL` archive keeps the coefficient that the next observation belongs to in its
preparation areas. `update_aberrant_cdps` refreshes it for one or two steps, `update_all_cdp_prep` and
`reset_cdp` of `src/rrd_update.c` for more, with offsets from a pointer that `write_to_rras` moves later.

The offsets are right for one step, and for three steps or more as long as the pointer moves as far as
time does; for two steps the row behind the right one is read, and `rra_step_cnt` is at most the number
of rows. `run_seasonalCached` is the invariant of the passes that are not of these kinds.
-/

namespace Rrdtool

/-- The cached coefficient of each data source is the one in the row behind the current one. -/
def SeasonalCached (rra : Rra) : Prop :=
  ∀ d c, rra.cdpPrep[d]? = some c →
    c.hwIntercept = (rra.ring.slot ((rra.ring.cur + 1) % rra.rraDef.rowCnt)).getD d .nan

/-- The steps of a pass after which the cached coefficients are right. -/
def CacheKept (rowCnt elapsed : ℕ) : Prop :=
  elapsed = 1 ∨ 2 < elapsed ∧ (elapsed ≤ rowCnt ∨ rowCnt ∣ elapsed)

instance (rowCnt elapsed : ℕ) : Decidable (CacheKept rowCnt elapsed) := inferInstanceAs (Decidable (_ ∨ _))

/-! ### The ring -/

lemma lookupSeasonal_eq (rra : Rra) (offset : ℕ) :
    lookupSeasonal rra offset = rra.ring.slot ((rra.ring.cur + offset) % rra.rraDef.rowCnt) := by
  simp only [lookupSeasonal]
  split
  · rfl
  · rename_i hlt
    rw [Nat.mod_eq_of_lt (not_le.1 hlt)]

lemma iterate_next {cap cur : ℕ} (h : cur < cap) (n : ℕ) : (RingBuf.next cap)^[n] cur = (cur + n) % cap := by
  induction n with
  | zero => exact (Nat.mod_eq_of_lt h).symm
  | succ n ih =>
    rw [Function.iterate_succ_apply', ih, RingBuf.next_eq_mod (Nat.mod_lt _ (by omega)), Nat.mod_add_mod]
    rfl

lemma writeRraRows_skip {stepTime time n k sub} (rra : Rra) :
    (writeRraRows stepTime time true n k sub rra).1.ring.slot = rra.ring.slot := by
  induction n generalizing k sub rra with
  | zero => rfl
  | succ n ih => exact ih { rra with ring := rra.ring.skip rra.rraDef.rowCnt }

lemma rraStepCnt_of_one {rra : RraDef} {elapsed : ℕ} (hone : rra.pdpCnt = 1) (h : 1 ≤ elapsed) (procPdpCnt : ℕ) :
    rraStepCnt rra elapsed procPdpCnt = min elapsed rra.rowCnt := by
  have hoffset : startPdpOffset 1 procPdpCnt = 1 := by rw [startPdpOffset, Nat.mod_one]
  simp only [rraStepCnt, hone, hoffset, if_pos h, Nat.div_one]
  rw [Nat.sub_add_cancel h]

/-! ### One pass -/

@[simp] lemma set_hwIntercept (c : CdpPrep) (k : ScratchIdx) (v : RrdValue) :
    (c.set k v).hwIntercept = c.hwIntercept := by
  cases k <;> rfl

/-- The coefficient read ahead is cached. -/
lemma updateAberrantCF_hwIntercept {rras : List Rra} {rra : RraDef} {i d : ℕ} {k : ScratchIdx} {coef x : RrdValue}
    (hcf : rra.cf.isSeasonal) (hlinked : hwFunctionsOf rras rra.dependentRraIdx ≠ none) :
    (updateAberrantCF rras rra i d k coef x).hwIntercept = coef := by
  obtain ⟨fns, hfns⟩ := Option.ne_none_iff_exists'.1 hlinked
  obtain hsea | hdev : rra.cf = .seasonal ∨ rra.cf = .devseasonal := by simpa [Cf.isSeasonal] using hcf
  · simp only [updateAberrantCF, hsea, hfns, updateSeasonal]
    split_ifs <;> simp only [set_hwIntercept]
  · simp only [updateAberrantCF, hdev, hfns, updateDevseasonal]
    split_ifs <;> simp only [set_hwIntercept]

lemma add_mod_ne {cur cap : ℕ} (h : 2 ≤ cap) : (cur + 2) % cap ≠ (cur + 1) % cap := by
  intro heq
  have hdvd := (Nat.modEq_iff_dvd' (by omega : cur + 1 ≤ cur + 2)).1 heq.symm
  rw [show cur + 2 - (cur + 1) = 1 by omega] at hdvd
  exact absurd (Nat.le_of_dvd one_pos hdvd) (by omega)

section Pass

variable {rrd : Rrd} {a : PassArgs} {i : ℕ} {rra : Rra}

/-- A pass of one step. -/
lemma pass_seasonalCached_one (hi : rrd.rra[i]? = some rra) (hcf : rra.rraDef.cf.isSeasonal)
    (hone : rra.rraDef.pdpCnt = 1) (hrows : 2 ≤ rra.rraDef.rowCnt) (hcur : rra.ring.cur < rra.rraDef.rowCnt)
    (hlinked : hwFunctionsOf rrd.rra rra.rraDef.dependentRraIdx ≠ none) (ha : a.elapsed = 1) :
    ∃ rra', (rrd.pass a).rra[i]? = some rra' ∧ SeasonalCached rra' := by
  obtain ⟨elapsed, procPdpCnt, temps, coef, time⟩ := a
  obtain rfl : elapsed = 1 := ha
  obtain ⟨s', hprep, hwrite⟩ := @pass_at rrd ⟨1, procPdpCnt, temps, coef, time⟩ i rra hi
  have hstepCnt : rraStepCnt rra.rraDef 1 procPdpCnt = 1 := by
    rw [rraStepCnt_of_one hone le_rfl]
    omega
  have hspec := updateRraCdpPrep_spec 1 procPdpCnt temps s' rra
  have hskip : (updateRraCdpPrep 1 procPdpCnt temps s' rra).2.1.skipUpdate = false := by
    simp only [updateRraCdpPrep, hcf, if_true, hstepCnt]
    exact decide_eq_false (by omega)
  have hstep := hspec.stepCnt.trans hstepCnt
  generalize updateRraCdpPrep 1 procPdpCnt temps s' rra = prep at *
  have hlt := (List.getElem?_eq_some_iff.1 hprep).1
  have hone' : prep.1.rraDef.pdpCnt = 1 := hspec.rraDef ▸ hone
  have hcf' : prep.1.rraDef.cf.isSeasonal := hspec.rraDef ▸ hcf
  have hab := @updateAberrantSlot_at 1 temps .primary _ _ i prep.1 hprep hone' hlt
  have hlinked' : hwFunctionsOf (updateAberrantSlot 1 temps .primary
      (rrd.prepared ⟨1, procPdpCnt, temps, coef, time⟩) i) prep.1.rraDef.dependentRraIdx ≠ none := by
    rw [hwFunctionsOf, rraDefAt_updateAberrantSlot, rraDefAt_prepared, hspec.rraDef]
    exact hlinked
  refine ⟨_, hwrite _ hab, fun d c hc => ?_⟩
  rw [hstep, hskip] at hc ⊢
  obtain ⟨-, rfl⟩ := List.getElem?_eq_some_iff.1 hc
  simp only [writeRraRows, aberrantCdps, List.getElem_mapIdx, RingBuf.push, Bool.false_eq_true, if_false]
  -- the row that is written is not the one that was read ahead
  rw [updateAberrantCF_hwIntercept hcf' hlinked', readAhead, if_pos hcf', if_pos rfl, lookupSeasonal_eq,
    hspec.rraDef, hspec.ring, RingBuf.next_eq_mod hcur, Nat.mod_add_mod,
    Function.update_of_ne (add_mod_ne hrows)]

/-- A pass of three steps or more. -/
lemma pass_seasonalCached_many (hi : rrd.rra[i]? = some rra) (hcf : rra.rraDef.cf.isSeasonal)
    (hone : rra.rraDef.pdpCnt = 1) (hrows : 2 ≤ rra.rraDef.rowCnt) (hcur : rra.ring.cur < rra.rraDef.rowCnt)
    (ha : 2 < a.elapsed) (hmoved : a.elapsed ≤ rra.rraDef.rowCnt ∨ rra.rraDef.rowCnt ∣ a.elapsed) :
    ∃ rra', (rrd.pass a).rra[i]? = some rra' ∧ SeasonalCached rra' := by
  obtain ⟨s', hprep, hwrite⟩ := @pass_at rrd a i rra hi
  have hspec := updateRraCdpPrep_spec a.elapsed a.procPdpCnt a.temps s' rra
  have hstepCnt := rraStepCnt_of_one hone (by omega : 1 ≤ a.elapsed) a.procPdpCnt
  have hskip : (updateRraCdpPrep a.elapsed a.procPdpCnt a.temps s' rra).2.1.skipUpdate = true := by
    simp only [updateRraCdpPrep, hcf, if_true, hstepCnt]
    exact decide_eq_true (by omega)
  have hcached : ∀ (d : ℕ) (c : CdpPrep),
      (updateRraCdpPrep a.elapsed a.procPdpCnt a.temps s' rra).1.cdpPrep[d]? = some c →
        c.hwIntercept = (lookupSeasonal rra (a.elapsed + 1)).getD d .nan := by
    intro d c hc
    obtain ⟨-, rfl⟩ := List.getElem?_eq_some_iff.1 hc
    have hskip' : decide (1 < rraStepCnt rra.rraDef a.elapsed a.procPdpCnt) = true := by
      rw [hstepCnt]
      exact decide_eq_true (by omega)
    have hkeeps := doScheduleSmooth_keeps rra a.elapsed
    have hone' : ¬ 1 < (doScheduleSmooth rra a.elapsed).1.rraDef.pdpCnt := by
      rw [hkeeps.rraDef]
      omega
    simp only [updateRraCdpPrep, hcf, if_true, hskip', updateCdpPrep, List.getElem_mapIdx, if_neg hone', if_pos ha]
    obtain hsea | hdev : rra.rraDef.cf = .seasonal ∨ rra.rraDef.cf = .devseasonal := by
      simpa [Cf.isSeasonal] using hcf
    · simp only [resetCdp, hkeeps.rraDef, hsea]
    · simp only [resetCdp, hkeeps.rraDef, hdev]
  generalize (updateRraCdpPrep a.elapsed a.procPdpCnt a.temps s' rra) = prep at *
  rw [updateAberrantCdps_of_two_lt ha] at hwrite
  refine ⟨_, hwrite _ hprep, fun d c hc => ?_⟩
  obtain ⟨hdef, hcdp, hcur'⟩ := @writeRraRows_keeps (prep.1.rraDef.pdpCnt * rrd.pdpStep) a.time
    prep.2.1.skipUpdate prep.2.1.stepCnt .primary 1 prep.1
  rw [hcdp] at hc
  rw [hcached d c hc, hdef, hcur', hskip, writeRraRows_skip, lookupSeasonal_eq, hspec.rraDef, hspec.ring,
    iterate_next hcur, hspec.stepCnt, hstepCnt, Nat.mod_add_mod]
  congr 2
  -- the pointer moves by the number of steps, up to whole turns
  obtain hle | ⟨q, hq⟩ := hmoved
  · rw [Nat.min_eq_left hle]
    rfl
  · have hmin : min a.elapsed rra.rraDef.rowCnt = rra.rraDef.rowCnt := by
      rw [Nat.min_eq_right]
      exact Nat.le_of_dvd (by omega) ⟨q, hq⟩
    rw [hmin, hq]
    have hleft : rra.ring.cur + (rra.rraDef.rowCnt * q + 1) = rra.ring.cur + 1 + rra.rraDef.rowCnt * q := by omega
    have hright : rra.ring.cur + rra.rraDef.rowCnt + 1 = rra.ring.cur + 1 + rra.rraDef.rowCnt := by omega
    rw [hleft, hright, Nat.add_mul_mod_self_left, Nat.add_mod_right]

end Pass

/-! ### Runs -/

/-- What a pass needs to know of the archive: the pointer lies in the ring, and the file has the
definitions it was created with. -/
structure CacheInv (h : Header) (i : ℕ) (rrd : Rrd) : Prop where
  rraDef : ∀ j, rraDefAt rrd.rra j = h.rra[j]?
  cur : ∀ rra, rrd.rra[i]? = some rra → rra.ring.cur < rra.rraDef.rowCnt
  cached : ∀ rra, rrd.rra[i]? = some rra → SeasonalCached rra

variable {h : Header} {i : ℕ} {rraDef : RraDef}

lemma rraDefAt_rrdInitData (random : ℕ → ℕ) (j : ℕ) : rraDefAt (rrdInitData h random).rra j = h.rra[j]? := by
  rw [rraDefAt, rrdInitData, List.getElem?_mapIdx, Option.map_map]
  exact congrFun Option.map_id _

lemma rrdInitData_cacheInv (hi : h.rra[i]? = some rraDef) (hcf : rraDef.cf.isSeasonal) (random : ℕ → ℕ) :
    CacheInv h i (rrdInitData h random) := by
  have hinit : ∀ rra, (rrdInitData h random).rra[i]? = some rra → rra = initRra h rraDef (random i) := by
    intro rra hrra
    rw [rrdInitData, List.getElem?_mapIdx, hi] at hrra
    exact (Option.some.inj hrra).symm
  refine ⟨rraDefAt_rrdInitData random, fun rra hrra => ?_, fun rra hrra d c hc => ?_⟩
  · rw [hinit rra hrra]
    exact Nat.mod_lt _ (h.valid rraDef (List.mem_of_getElem? hi)).rowCnt_pos
  · rw [hinit rra hrra] at hc ⊢
    obtain ⟨hd, rfl⟩ := List.getElem?_eq_some_iff.1 hc
    have hd : d < h.ds.length := by simpa [initRra] using hd
    obtain hsea | hdev : rraDef.cf = .seasonal ∨ rraDef.cf = .devseasonal := by simpa [Cf.isSeasonal] using hcf
    · simp [initRra, initCdp, hsea, initSeasonalCdp, hd]
    · simp [initRra, initCdp, hdev, initSeasonalCdp, hd]

lemma pass_cacheInv {rrd : Rrd} {a : PassArgs} (hi : h.rra[i]? = some rraDef) (hcf : rraDef.cf.isSeasonal)
    (hone : rraDef.pdpCnt = 1) (hrows : 2 ≤ rraDef.rowCnt)
    (hlinked : ∃ hw ∈ h.rra[rraDef.dependentRraIdx]?, hw.cf = .hwpredict ∨ hw.cf = .mhwpredict)
    (ha : CacheKept rraDef.rowCnt a.elapsed) (hinv : CacheInv h i rrd) : CacheInv h i (rrd.pass a) := by
  have hdef := hinv.rraDef i
  rw [hi, rraDefAt] at hdef
  obtain ⟨rra, hrra, rfl⟩ := Option.map_eq_some_iff.1 hdef
  have hlinked' : hwFunctionsOf rrd.rra rra.rraDef.dependentRraIdx ≠ none := by
    obtain ⟨hw, hhw, hcf | hcf⟩ := hlinked
    · simp [hwFunctionsOf, hinv.rraDef, Option.mem_def.1 hhw, hcf]
    · simp [hwFunctionsOf, hinv.rraDef, Option.mem_def.1 hhw, hcf]
  have hcur := hinv.cur rra hrra
  obtain ⟨rra', hrra', hcached⟩ : ∃ rra', (rrd.pass a).rra[i]? = some rra' ∧ SeasonalCached rra' := by
    obtain hone' | ⟨hmany, hmoved⟩ := ha
    · exact pass_seasonalCached_one hrra hcf hone hrows hcur hlinked' hone'
    · exact pass_seasonalCached_many hrra hcf hone hrows hcur hmany hmoved
  refine ⟨fun j => by rw [rraDefAt_pass, hinv.rraDef], fun rra₁ h₁ => ?_, fun rra₁ h₁ => ?_⟩
  · obtain ⟨written, hspec, hrrd, -⟩ :=
      consolidate_spec rrd a.elapsed a.procPdpCnt a.temps a.coef a.time
    obtain ⟨p, hp, hpass⟩ := Pointwise.getElem?_left hspec hrra
    rw [Rrd.pass, hrrd, List.getElem?_map, hp] at h₁
    obtain rfl := Option.some.inj h₁
    rw [hpass.cur, hpass.rraDef, iterate_next hcur]
    exact Nat.mod_lt _ (by omega)
  · rw [hrra'] at h₁
    exact Option.some.inj h₁ ▸ hcached

/-- The cached coefficients of a seasonal archive track the ring in every run whose passes keep them. -/
theorem run_seasonalCached (random : ℕ → ℕ) (hi : h.rra[i]? = some rraDef) (hcf : rraDef.cf.isSeasonal)
    (hone : rraDef.pdpCnt = 1) (hrows : 2 ≤ rraDef.rowCnt)
    (hlinked : ∃ hw ∈ h.rra[rraDef.dependentRraIdx]?, hw.cf = .hwpredict ∨ hw.cf = .mhwpredict)
    {passes : List PassArgs} (hpasses : ∀ a ∈ passes, CacheKept rraDef.rowCnt a.elapsed) :
    ∃ rra, (passes.foldl Rrd.pass (rrdInitData h random)).rra[i]? = some rra ∧ SeasonalCached rra := by
  have hinv : CacheInv h i (passes.foldl Rrd.pass (rrdInitData h random)) := by
    induction passes using List.reverseRecOn with
    | nil => exact rrdInitData_cacheInv hi hcf random
    | append_singleton passes a ih =>
      rw [List.foldl_append]
      have hfront := ih fun b hb => hpasses b (List.mem_append_left [a] hb)
      exact pass_cacheInv hi hcf hone hrows hlinked (hpasses a (by simp)) hfront
  have hdef := hinv.rraDef i
  rw [hi, rraDefAt] at hdef
  obtain ⟨rra, hrra, -⟩ := Option.map_eq_some_iff.1 hdef
  exact ⟨rra, hrra, hinv.cached rra hrra⟩

/-- An archive of one step to the row with the parameters of Holt-Winters forecasting. -/
def hwRra (cf : Cf) (rowCnt dependentRraIdx : ℕ) : RraDef :=
  { plainRra cf rowCnt 1 0 with
    dependentRraIdx := dependentRraIdx, hwAlpha := .fin (1 / 2), hwBeta := .fin (1 / 2)
    seasonalGamma := .fin (1 / 2) }

/-- One `GAUGE` with the archives `HWPREDICT` and `SEASONAL` of four rows. -/
def cachedHeader : Header where
  version := 4
  pdpStep := 10
  lastUp := 1000
  ds := [gaugeDs ['a'] 60]
  rra := [hwRra .hwpredict 4 1, hwRra .seasonal 4 0]
  pdpStep_pos := tenSeconds_pos
  lastUp_lt := thousand_lt
  valid r hr := by
    obtain rfl | rfl : r = hwRra .hwpredict 4 1 ∨ r = hwRra .seasonal 4 0 := by simpa using hr
    · exact ⟨by decide, by decide, by decide, fun hcf => absurd hcf (by decide)⟩
    · exact ⟨by decide, by decide, by decide, fun hcf => absurd hcf (by decide)⟩

/-- A pass of some steps with one value. -/
def passOf (elapsed : ℕ) (x : ℚ) : PassArgs := ⟨elapsed, 0, [.fin x], ⟨[], []⟩, 1000⟩

theorem run_seasonalCached_three :
    ∃ rra, ([passOf 1 5, passOf 3 6, passOf 1 7].foldl Rrd.pass (rrdInitData cachedHeader fun _ => 0)).rra[1]? =
      some rra ∧ SeasonalCached rra :=
  run_seasonalCached (fun _ => 0) (show cachedHeader.rra[1]? = some (hwRra .seasonal 4 0) from rfl) (by decide)
    (by decide) (by decide) ⟨hwRra .hwpredict 4 1, rfl, .inl rfl⟩ (by decide)

/-- After a pass of two steps the coefficient of the row behind the right one is cached. -/
theorem two_steps_not_cached :
    ∃ rra, ([passOf 1 5, passOf 1 7, passOf 1 8, passOf 1 9, passOf 2 6].foldl Rrd.pass
      (rrdInitData cachedHeader fun _ => 0)).rra[1]? = some rra ∧ ¬ SeasonalCached rra := by
  refine Outcome.exists_of_any_imp (fun rra => rra.rraDef.rowCnt = 4 ∧ rra.ring.cur = 2 ∧
    rra.cdpPrep.map (·.hwIntercept) = [.fin 4] ∧ rra.ring.slot 3 = [.fin 3]) (by decide +kernel) ?_
  rintro rra - ⟨hrows, hcur, hcdp, hslot⟩ hcached
  obtain ⟨c, hc, hval⟩ := List.map_eq_singleton_iff.1 hcdp
  have := hcached 0 c (by rw [hc]; rfl)
  rw [hrows, hcur, hval, hslot] at this
  exact absurd this (by decide)

end Rrdtool
