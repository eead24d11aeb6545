import Rrdtool.Update.Invariant
import Rrdtool.Lib.StepRate
import Rrdtool.Lib.Outcome

/-!
# Primary data points conserve the rate

A `GAUGE` reading is a rate that holds since the update before. The readings of a run make up a
piecewise constant rate (`Db.segs`), and the primary data points handed to the archives should be its
averages over their steps, with `PDP_val` its integral over the open one (`Conserves`).

`applyPdpNew_gauge` says what one update hands out: the step that was open before gets what was
collected in it and the new rate for the rest of it, all others get the new rate. That takes the
split of `process_arg`, which counts the rest of the open step in whole seconds; so the last update
must not lie inside a second when more than one step is closed (`Op.splitsExactly`).
-/

namespace Rrdtool

open List ExtNum StepRate

/-- The rate that a reading stands for. -/
def gaugeRate (v : Text) : ℚ :=
  match rrdStrtodbl v with
  | .whole (.fin r) => r
  | _ => 0

/-- A reading that `update_pdp_prep` takes as a rate: a finite number inside the limits, not later
than the heartbeat allows. -/
structure GaugeReading (d : DsDef) (v : Text) (interval : ℚ) : Prop where
  gauge : d.dst = .gauge
  known : isKnownText v
  rate : rrdStrtodbl v = .whole (.fin (gaugeRate v))
  limits : outOfLimits d (.fin (gaugeRate v)) = false
  heartbeat : interval ≤ d.mrhbCnt

instance (d : DsDef) (v : Text) (interval : ℚ) : Decidable (GaugeReading d v interval) :=
  decidable_of_iff
    (d.dst = .gauge ∧ isKnownText v ∧ rrdStrtodbl v = .whole (.fin (gaugeRate v)) ∧
      outOfLimits d (.fin (gaugeRate v)) = false ∧ interval ≤ d.mrhbCnt)
    ⟨fun ⟨h₁, h₂, h₃, h₄, h₅⟩ => ⟨h₁, h₂, h₃, h₄, h₅⟩,
      fun ⟨h₁, h₂, h₃, h₄, h₅⟩ => ⟨h₁, h₂, h₃, h₄, h₅⟩⟩

lemma updatePdpPrepDs_gauge {d v interval} (h : GaugeReading d v interval) (p : PdpPrep) :
    updatePdpPrepDs d p v interval =
      ({ p with lastDs := copyLastDs v }, .ok (.fin (gaugeRate v * interval))) := by
  have hnot : ¬ (d.mrhbCnt : ℚ) < interval := not_lt.2 h.heartbeat
  simp [updatePdpPrepDs, hnot, h.known, h.gauge, h.heartbeat, readingAmount, readNumber, h.rate,
    Except.map, h.limits]

/-- One pass for a data source whose amount comes from the rate `r`. -/
lemma processPdpSt_gauge {host pdpStep} {pass : PdpPass} {D : DataSource} {r I : ℚ} {temps}
    (hdst : D.dsDef.dst ≠ .cdef) (hunkn : D.pdpPrep.unknSecCnt = 0)
    (hval : ifDnan D.pdpPrep.val (.fin 0) = .fin I) (hi : 0 < pass.interval)
    (hb : pass.interval ≤ D.dsDef.mrhbCnt) (he : 0 < pass.elapsedPdpSt * pdpStep)
    (fits : pass.elapsedPdpSt * pdpStep < 2 ^ 64) :
    processPdpSt host pdpStep pass D (.fin (r * pass.interval)) temps =
      ({ D.pdpPrep with unknSecCnt := 0, val := .fin (r * pass.postInt) },
        some (.fin ((I + r * pass.preInt) / (pass.elapsedPdpSt * pdpStep : ℕ)))) := by
  have hamount : (.fin (r * pass.interval) / .fin pass.interval : RrdValue) = .fin r := by
    rw [fin_div_fin hi.ne', mul_div_cancel_right₀ r hi.ne']
  have hs : (s32 ((0 : ℕ) : ℤ) : ℚ) = 0 := by
    rw [s32_natCast (by norm_num)]
    simp
  have hstep : ¬ ((D.dsDef.mrhbCnt : ℚ) < pass.interval ∨
      (pdpStep : ℚ) / 2 < s32 (D.pdpPrep.unknSecCnt : ℤ)) := by
    rw [hunkn, hs]
    rintro (h | h)
    · exact absurd h (not_lt.2 hb)
    · have : (0 : ℚ) ≤ (pdpStep : ℚ) / 2 := by positivity
      linarith
  have hu : u64 ((pass.elapsedPdpSt * pdpStep : ℕ) - (D.pdpPrep.unknSecCnt : ℤ)) =
      pass.elapsedPdpSt * pdpStep := by
    rw [hunkn, u64_sub (Nat.zero_le _) fits, Nat.sub_zero]
  have hne : ((pass.elapsedPdpSt * pdpStep : ℕ) : ℚ) ≠ 0 := by exact_mod_cast he.ne'
  simp only [processPdpSt, isnan_fin, Bool.false_eq_true, if_false, if_neg hdst, hamount, hval,
    fin_mul_fin, fin_add_fin, pdpRate, if_neg hstep, hu, sub_zero, fin_div_fin hne]

/-- What a pass does to one data source. -/
lemma closePdps_ds {host rrd pass p xs s time rrd' phase s'} {d : ℕ} {D : DataSource} {x : RrdValue}
    (hlen : xs.length = rrd.ds.length) (hD : rrd.ds[d]? = some D) (hx : xs[d]? = some x)
    (h : closePdps host rrd pass p xs s time = (rrd', some (phase, s'))) :
    ∃ (D' : DataSource) (t : RrdValue) (temps : List RrdValue), rrd'.ds[d]? = some D' ∧ D'.dsDef = D.dsDef ∧ phase.pdpTemp[d]? = some t ∧
      processPdpSt host rrd.pdpStep pass D x temps = (D'.pdpPrep, some t) := by
  obtain ⟨ds, written, hp, -, rfl, -⟩ := closePdps_some h
  obtain ⟨ts, hts, -, -, hall⟩ := processAllPdpSt_some hp hlen
  have hz : (rrd.ds.zip xs)[d]? = some (D, x) := List.getElem?_zip_eq_some.2 ⟨hD, hx⟩
  obtain ⟨⟨D', t⟩, hb, hdef, temps, ht⟩ := Pointwise.getElem?_left hall hz
  obtain ⟨hD', ht'⟩ := List.getElem?_zip_eq_some.1 hb
  rw [List.nil_append] at hts
  exact ⟨D', t, temps, hD', hdef, by rw [hts]; exact ht', ht⟩

/-- The state of data source `d` with the definition `dd`: nothing is unknown in the open step, and
`I` has been collected. -/
def Collected (d : ℕ) (dd : DsDef) (I : ℚ) (rrd : Rrd) : Prop :=
  ∃ D, rrd.ds[d]? = some D ∧ D.dsDef = dd ∧ D.pdpPrep.unknSecCnt = 0 ∧
    ifDnan D.pdpPrep.val (.fin 0) = .fin I

/-- The primary data points that passes hand out for data source `d`, with the number of the step of
each. -/
@[grind] def pdpsOf (d : ℕ) (phases : List Phase) : List (ℕ × Option RrdValue) :=
  phases.flatMap fun ph => (List.range ph.elapsedPdpSt).map fun k =>
    (ph.procPdpCnt + k, ph.pdpTemp[d]?)

/-- One pass for the data source, with the rate `r`. -/
lemma closePdps_gauge {host rrd} {pass : PdpPass} {p xs s time rrd' phase s'} {d : ℕ} {dd : DsDef}
    {r I : ℚ}
    (hlen : xs.length = rrd.ds.length) (hdst : dd.dst ≠ .cdef) (hc : Collected d dd I rrd)
    (hx : xs[d]? = some (.fin (r * pass.interval))) (hi : 0 < pass.interval)
    (hb : pass.interval ≤ dd.mrhbCnt) (he : 0 < pass.elapsedPdpSt * rrd.pdpStep)
    (fits : pass.elapsedPdpSt * rrd.pdpStep < 2 ^ 64)
    (h : closePdps host rrd pass p xs s time = (rrd', some (phase, s'))) :
    (∃ D' : DataSource, rrd'.ds[d]? = some D' ∧ D'.dsDef = dd ∧ D'.pdpPrep.unknSecCnt = 0 ∧
        D'.pdpPrep.val = .fin (r * pass.postInt)) ∧
      pdpsOf d [phase] = (List.range' p pass.elapsedPdpSt).map fun j =>
        (j, some (.fin ((I + r * pass.preInt) / (pass.elapsedPdpSt * rrd.pdpStep : ℕ)))) := by
  obtain ⟨D, hD, rfl, hunkn, hval⟩ := hc
  obtain ⟨D', t, temps, hD', hdef, ht, hproc⟩ := closePdps_ds hlen hD hx h
  obtain ⟨-, -, -, -, -, -, -, -, hel, hpc⟩ := closePdps_some h
  rw [processPdpSt_gauge hdst hunkn hval hi hb he fits] at hproc
  obtain ⟨hprep, htemp⟩ := Prod.mk.inj hproc
  cases htemp
  refine ⟨⟨D', hD', hdef, by rw [← hprep], by rw [← hprep]⟩, ?_⟩
  simp only [pdpsOf, List.flatMap_cons, List.flatMap_nil, List.append_nil, hel, hpc, ht,
    List.range'_eq_map_range, List.map_map]
  rfl

/-! ### One update -/

/-- The time of the last update. -/
@[grind] def Rrd.now (rrd : Rrd) : ℚ := rrd.lastUp + (rrd.lastUpUsec : ℚ) / 10 ^ 6

/-- The time of an update. -/
@[grind] def timeOf (sec usec : ℕ) : ℚ := sec + (usec : ℚ) / 10 ^ 6

lemma interval_eq (rrd : Rrd) (sec usec : ℕ) :
    rrd.interval sec usec = timeOf sec usec - rrd.now := by
  unfold Rrd.interval timeOf Rrd.now
  ring

lemma timeOf_lt {sec usec sec' usec' : ℕ} (h : before (sec, usec) (sec', usec'))
    (hu : usec < 10 ^ 6) : timeOf sec usec < timeOf sec' usec' := by
  have hu' : (usec : ℚ) / 10 ^ 6 < 1 := by
    rw [div_lt_one (by norm_num)]
    exact_mod_cast hu
  have h0 : (0 : ℚ) ≤ (usec' : ℚ) / 10 ^ 6 := by positivity
  unfold timeOf
  obtain hlt | ⟨heq, hlt⟩ := h
  · have : (sec : ℚ) + 1 ≤ sec' := by exact_mod_cast hlt
    linarith
  · have h1 : (sec : ℚ) = sec' := by exact_mod_cast heq
    have h2 : (usec : ℚ) / 10 ^ 6 < (usec' : ℚ) / 10 ^ 6 := by
      have : (usec : ℚ) < usec' := by exact_mod_cast hlt
      gcongr
    linarith

/-- The start of the open step. -/
@[grind] def Rrd.boundary (rrd : Rrd) : ℚ := rrd.pdpStep * (rrd.lastUp / rrd.pdpStep : ℕ)

lemma boundary_add_mod (rrd : Rrd) : (rrd.lastUp : ℚ) = rrd.boundary + (rrd.lastUp % rrd.pdpStep : ℕ) := by
  unfold Rrd.boundary
  exact_mod_cast (Nat.div_add_mod rrd.lastUp rrd.pdpStep).symm

lemma boundary_le_now (rrd : Rrd) : rrd.boundary ≤ rrd.now := by
  have h := boundary_add_mod rrd
  have h0 : (0 : ℚ) ≤ (rrd.lastUp % rrd.pdpStep : ℕ) := Nat.cast_nonneg _
  have h1 : (0 : ℚ) ≤ (rrd.lastUpUsec : ℚ) / 10 ^ 6 := by positivity
  unfold Rrd.now
  linarith

/-- What one update hands out for data source `d` with the rate `r`. -/
@[grind] def handsOut (rrd : Rrd) (sec : ℕ) (I r : ℚ) : List (ℕ × Option RrdValue) :=
  (List.range' (rrd.lastUp / rrd.pdpStep) (rrd.stepsPassed sec)).map fun j =>
    (j, some (.fin (if j = rrd.lastUp / rrd.pdpStep then
      (I + r * (rrd.boundary + rrd.pdpStep - rrd.now)) / rrd.pdpStep else r)))

/-- The rest of the open step in whole seconds, when the last update lies on a second. -/
lemma secOpenPdp_eq {rrd : Rrd} {sec usec interval} (pos : 0 < rrd.pdpStep)
    (husec : rrd.lastUpUsec = 0) (passed : 0 < rrd.stepsPassed sec) :
    secOpenPdp rrd.pdpStep (calculateElapsedSteps rrd sec usec interval).preInt =
      (rrd.pdpStep - rrd.lastUp % rrd.pdpStep) % rrd.pdpStep := by
  obtain ⟨hpre, -⟩ := @calculateElapsedSteps_split _ _ usec interval pos passed
  have hdiv := Nat.div_add_mod rrd.lastUp rrd.pdpStep
  have hmod := Nat.mod_lt rrd.lastUp pos
  have hmul : rrd.pdpStep * (sec / rrd.pdpStep) = rrd.pdpStep * (rrd.lastUp / rrd.pdpStep) +
      rrd.pdpStep * (rrd.stepsPassed sec - 1) + rrd.pdpStep := by
    unfold Rrd.stepsPassed at passed ⊢
    rw [← Nat.mul_add, ← Nat.mul_succ]
    congr 1
    omega
  have hle : rrd.lastUp ≤ rrd.pdpStep * (sec / rrd.pdpStep) := by omega
  have hfloor : ⌊(calculateElapsedSteps rrd sec usec interval).preInt⌋₊ =
      rrd.pdpStep * (sec / rrd.pdpStep) - rrd.lastUp := by
    rw [hpre, husec, Nat.cast_zero, zero_div, sub_zero, ← Nat.cast_sub hle, Nat.floor_natCast]
  rw [secOpenPdp, hfloor, show rrd.pdpStep * (sec / rrd.pdpStep) - rrd.lastUp =
    (rrd.pdpStep - rrd.lastUp % rrd.pdpStep) + rrd.pdpStep * (rrd.stepsPassed sec - 1) by omega,
    Nat.add_mul_mod_self_left]

/-- A step that is open is closed after what is left of it, one that has not begun at once. -/
lemma secOpenPdp_cases {rrd : Rrd} {sec usec interval} (pos : 0 < rrd.pdpStep)
    (whole : rrd.lastUpUsec = 0) (passed : 0 < rrd.stepsPassed sec) :
    secOpenPdp rrd.pdpStep (calculateElapsedSteps rrd sec usec interval).preInt =
      if rrd.lastUp % rrd.pdpStep = 0 then 0 else rrd.pdpStep - rrd.lastUp % rrd.pdpStep := by
  rw [secOpenPdp_eq pos whole passed]
  obtain h0 | hopen := Nat.eq_zero_or_pos (rrd.lastUp % rrd.pdpStep)
  · rw [if_pos h0, h0, Nat.sub_zero, Nat.mod_self]
  · rw [if_neg hopen.ne']
    exact Nat.mod_eq_of_lt (by omega)

/-- The time before the latest boundary, in terms of the steps passed. -/
lemma preInt_eq {rrd : Rrd} {sec usec interval} (pos : 0 < rrd.pdpStep)
    (passed : 0 < rrd.stepsPassed sec) :
    (calculateElapsedSteps rrd sec usec interval).preInt =
      rrd.boundary + rrd.pdpStep * (rrd.stepsPassed sec : ℕ) - rrd.now := by
  obtain ⟨hpre, -⟩ := @calculateElapsedSteps_split _ _ usec interval pos passed
  have hsum : sec / rrd.pdpStep = rrd.lastUp / rrd.pdpStep + rrd.stepsPassed sec := by
    unfold Rrd.stepsPassed at passed ⊢
    omega
  rw [hpre, hsum, Rrd.boundary, Rrd.now]
  push_cast
  ring

lemma postInt_eq {rrd : Rrd} {sec usec interval} (pos : 0 < rrd.pdpStep)
    (passed : 0 < rrd.stepsPassed sec) :
    (calculateElapsedSteps rrd sec usec interval).postInt =
      timeOf sec usec - (rrd.pdpStep * (sec / rrd.pdpStep : ℕ) : ℚ) := by
  obtain ⟨-, hpost⟩ := @calculateElapsedSteps_split _ _ usec interval pos passed
  have h : ((rrd.pdpStep * (sec / rrd.pdpStep) + sec % rrd.pdpStep : ℕ) : ℚ) = sec := by
    exact_mod_cast Nat.div_add_mod sec rrd.pdpStep
  push_cast at h
  rw [hpost, timeOf]
  linarith

/-- A passed boundary splits the interval. -/
lemma interval_eq_add {rrd : Rrd} {sec usec interval} (pos : 0 < rrd.pdpStep)
    (passed : 0 < rrd.stepsPassed sec) :
    rrd.interval sec usec = (calculateElapsedSteps rrd sec usec interval).preInt +
        (calculateElapsedSteps rrd sec usec interval).postInt ∧
      0 ≤ (calculateElapsedSteps rrd sec usec interval).postInt := by
  obtain ⟨hpre, hpost⟩ := @calculateElapsedSteps_split _ _ usec interval pos passed
  have h : ((rrd.pdpStep * (sec / rrd.pdpStep) + sec % rrd.pdpStep : ℕ) : ℚ) = sec := by
    exact_mod_cast Nat.div_add_mod sec rrd.pdpStep
  rw [Nat.cast_add] at h
  refine ⟨?_, ?_⟩
  · rw [hpre, hpost, Rrd.interval, ← h]
    ring
  · rw [hpost]
    positivity

/-- The shares of a known amount in the open step and in the rest. -/
lemma openPdpNew_fin {sec₁ : ℕ} {interval r : ℚ} (hi : 0 < interval) :
    openPdpNew sec₁ interval (.fin (r * interval)) = .fin (r * sec₁) ∧
      restPdpNew sec₁ interval (.fin (r * interval)) = .fin (r * (interval - sec₁)) := by
  have hopen : openPdpNew sec₁ interval (.fin (r * interval)) = .fin (r * sec₁) := by
    simp only [openPdpNew, isnan_fin, hi, decide_true, Bool.not_false, Bool.and_self, if_true,
      fin_mul_fin, fin_div_fin hi.ne']
    congr 1
    field_simp
  refine ⟨hopen, ?_⟩
  simp only [restPdpNew, hopen, isnan_fin, hi, decide_true, Bool.not_false, Bool.and_self, if_true,
    fin_sub_fin]
  congr 1
  ring

/-- Several steps without a split: the open step was empty, and every step gets the new rate. -/
lemma handsOut_of_empty {rrd : Rrd} {sec : ℕ} {I r : ℚ} (pos : 0 < rrd.pdpStep)
    (hb : rrd.boundary = rrd.now) (hI : I = 0) :
    handsOut rrd sec I r = (List.range' (rrd.lastUp / rrd.pdpStep) (rrd.stepsPassed sec)).map fun j =>
      (j, some (.fin r)) := by
  have hne : (rrd.pdpStep : ℚ) ≠ 0 := by exact_mod_cast pos.ne'
  unfold handsOut
  refine List.map_congr_left fun j _ => ?_
  have hq : (I + r * (rrd.boundary + rrd.pdpStep - rrd.now)) / rrd.pdpStep = r := by
    rw [hI, hb]
    field_simp
    ring
  rw [hq, ite_self]

/-- Several steps with a split: the open step is filled up, the others get the new rate. -/
lemma handsOut_of_split {rrd : Rrd} {sec : ℕ} {I r : ℚ} (many : 1 < rrd.stepsPassed sec) :
    handsOut rrd sec I r =
      (rrd.lastUp / rrd.pdpStep,
        some (.fin ((I + r * (rrd.boundary + rrd.pdpStep - rrd.now)) / rrd.pdpStep))) ::
      (List.range' (rrd.lastUp / rrd.pdpStep + 1) (rrd.stepsPassed sec - 1)).map fun j =>
        (j, some (.fin r)) := by
  unfold handsOut
  rw [show rrd.stepsPassed sec = (rrd.stepsPassed sec - 1) + 1 by omega, List.range'_succ,
    List.map_cons, if_pos rfl]
  congr 1
  refine List.map_congr_left fun j hj => ?_
  have hj' := (List.mem_range'_1.1 hj).1
  rw [if_neg (by omega)]

/-- Data source `d` after an update, with `J` collected. -/
def CollectedExactly (d : ℕ) (dd : DsDef) (J : ℚ) (rrd : Rrd) : Prop :=
  ∃ D : DataSource, rrd.ds[d]? = some D ∧ D.dsDef = dd ∧ D.pdpPrep.unknSecCnt = 0 ∧
    D.pdpPrep.val = .fin J

lemma CollectedExactly.collected {d dd J rrd} (h : CollectedExactly d dd J rrd) :
    Collected d dd J rrd := by
  obtain ⟨D, hD, hdef, hunkn, hval⟩ := h
  exact ⟨D, hD, hdef, hunkn, by rw [hval]; rfl⟩

/-- An update inside the open step. -/
lemma simpleUpdate_gauge {rrd : Rrd} {sec usec interval xs} {d : ℕ} {dd : DsDef} {r I : ℚ}
    (hc : Collected d dd I rrd) (hx : xs[d]? = some (.fin (r * interval))) :
    CollectedExactly d dd (I + r * interval)
      ({ rrd with ds := simpleUpdate interval rrd.ds xs }.setLastUp sec usec) := by
  obtain ⟨D, hD, hdef, hunkn, hval⟩ := hc
  have hget : (simpleUpdate interval rrd.ds xs)[d]? =
      some { D with pdpPrep := simpleUpdateDs interval D.pdpPrep (.fin (r * interval)) } := by
    rw [simpleUpdate, List.getElem?_zipWith, hD, hx]
  refine ⟨_, hget, hdef, by simp [simpleUpdateDs, hunkn], ?_⟩
  cases hv : D.pdpPrep.val with
  | nan =>
    rw [hv] at hval
    cases hval
    simp [simpleUpdateDs, hv]
  | fin y =>
    rw [hv] at hval
    cases hval
    simp [simpleUpdateDs, hv]
  | pinf =>
    rw [hv] at hval
    cases hval
  | ninf =>
    rw [hv] at hval
    cases hval

/-- What has been collected after an update at `sec` and `usec`. -/
@[grind] def collects (rrd : Rrd) (sec usec : ℕ) (I r : ℚ) : ℚ :=
  if rrd.stepsPassed sec = 0 then I + r * rrd.interval sec usec
  else r * (timeOf sec usec - rrd.pdpStep * (sec / rrd.pdpStep : ℕ))

lemma fits_of_lt {rrd : Rrd} {sec : ℕ} (hsec : sec < 2 ^ 63) :
    rrd.stepsPassed sec * rrd.pdpStep < 2 ^ 64 := by
  have h1 : rrd.stepsPassed sec * rrd.pdpStep ≤ sec / rrd.pdpStep * rrd.pdpStep :=
    Nat.mul_le_mul_right _ (Nat.sub_le _ _)
  have h2 := Nat.div_mul_le_self sec rrd.pdpStep
  omega

section Update

variable {host : Host} {rrd rrd' rrd₁ : Rrd} {sec usec : ℕ} {xs : List RrdValue} {d : ℕ} {dd : DsDef}
  {r I : ℚ}

/-- An update in one pass. -/
lemma onePass_gauge {phase s} (pos : 0 < rrd.pdpStep) (hsec : sec < 2 ^ 63)
    (hlen : xs.length = rrd.ds.length) (passed : 0 < rrd.stepsPassed sec)
    (exact : rrd.stepsPassed sec ≤ 1 ∨ rrd.lastUpUsec = 0)
    (hns : ¬ splits rrd.pdpStep (calculateElapsedSteps rrd sec usec (rrd.interval sec usec)).preInt
      (rrd.stepsPassed sec)) (hdst : dd.dst ≠ .cdef)
    (hc : Collected d dd I rrd) (hI : rrd.boundary = rrd.now → I = 0)
    (hx : xs[d]? = some (.fin (r * rrd.interval sec usec))) (hi : 0 < rrd.interval sec usec)
    (hb : rrd.interval sec usec ≤ dd.mrhbCnt)
    (h : closePdps host rrd
      ⟨rrd.interval sec usec, (calculateElapsedSteps rrd sec usec (rrd.interval sec usec)).preInt,
        (calculateElapsedSteps rrd sec usec (rrd.interval sec usec)).postInt, rrd.stepsPassed sec⟩
      (rrd.lastUp / rrd.pdpStep) xs ⟨[], []⟩ sec = (rrd₁, some (phase, s))) :
    CollectedExactly d dd (collects rrd sec usec I r) (rrd₁.setLastUp sec usec) ∧
      pdpsOf d [phase] = handsOut rrd sec I r := by
  obtain ⟨⟨D, hD, hdef, hunkn, hval⟩, hpdps⟩ := closePdps_gauge hlen hdst hc hx hi hb
    (Nat.mul_pos passed pos) (fits_of_lt hsec) h
  refine ⟨⟨D, hD, hdef, hunkn, ?_⟩, ?_⟩
  · rw [collects, if_neg passed.ne', hval, postInt_eq pos passed]
  · rw [hpdps, preInt_eq pos passed]
    obtain one | many := (Nat.succ_le_of_lt passed).eq_or_lt
    · simp [handsOut, ← one]
    · -- without a split the last update lies on a boundary
      have husec : rrd.lastUpUsec = 0 := by
        obtain h1 | h0 := exact
        · exact absurd many (not_lt.2 h1)
        · exact h0
      have hz : secOpenPdp rrd.pdpStep
          (calculateElapsedSteps rrd sec usec (rrd.interval sec usec)).preInt = 0 := by
        by_contra hne
        exact hns ⟨many, Nat.pos_of_ne_zero hne⟩
      rw [secOpenPdp_eq pos husec passed] at hz
      have hage : rrd.lastUp % rrd.pdpStep = 0 := by
        by_contra hne
        have hlt := Nat.mod_lt rrd.lastUp pos
        rw [Nat.mod_eq_of_lt (by omega)] at hz
        omega
      have hnow : rrd.boundary = rrd.now := by
        rw [Rrd.now, boundary_add_mod, hage, husec]
        simp
      have hstep : (rrd.pdpStep : ℚ) ≠ 0 := by exact_mod_cast pos.ne'
      have hne : ((rrd.stepsPassed sec : ℕ) : ℚ) ≠ 0 := by exact_mod_cast passed.ne'
      have hr : (0 + r * (rrd.now + (rrd.pdpStep : ℚ) * (rrd.stepsPassed sec : ℕ) - rrd.now)) /
          ((rrd.stepsPassed sec * rrd.pdpStep : ℕ) : ℚ) = r := by
        push_cast
        field_simp
        ring
      rw [handsOut_of_empty pos hnow (hI hnow), hI hnow, hnow, hr]

/-- An update in two passes. -/
lemma split_gauge {phase₁ s₁ rrd₂ phase₂ s₂} {sec₁ : ℕ}
    (hsec₁ : sec₁ = secOpenPdp rrd.pdpStep
      (calculateElapsedSteps rrd sec usec (rrd.interval sec usec)).preInt)
    (pos : 0 < rrd.pdpStep) (hsec : sec < 2 ^ 63)
    (hlen : xs.length = rrd.ds.length) (many : 1 < rrd.stepsPassed sec)
    (husec : rrd.lastUpUsec = 0) (hopen : 0 < sec₁) (hdst : dd.dst ≠ .cdef)
    (hc : Collected d dd I rrd)
    (hx : xs[d]? = some (.fin (r * rrd.interval sec usec))) (hi : 0 < rrd.interval sec usec)
    (hb : rrd.interval sec usec ≤ dd.mrhbCnt)
    (h₁ : closePdps host rrd ⟨sec₁, sec₁, 0, 1⟩ (rrd.lastUp / rrd.pdpStep)
      (xs.map (openPdpNew sec₁ (rrd.interval sec usec))) ⟨[], []⟩ (rrd.lastUp + sec₁) =
        (rrd₁, some (phase₁, s₁)))
    (h₂ : closePdps host rrd₁
      ⟨rrd.interval sec usec - sec₁,
        (calculateElapsedSteps rrd sec usec (rrd.interval sec usec)).preInt - sec₁,
        (calculateElapsedSteps rrd sec usec (rrd.interval sec usec)).postInt,
        rrd.stepsPassed sec - 1⟩
      (rrd.lastUp / rrd.pdpStep + 1) (xs.map (restPdpNew sec₁ (rrd.interval sec usec))) s₁ sec =
        (rrd₂, some (phase₂, s₂))) :
    CollectedExactly d dd (collects rrd sec usec I r) (rrd₂.setLastUp sec usec) ∧
      pdpsOf d [phase₁, phase₂] = handsOut rrd sec I r := by
  have passed : 0 < rrd.stepsPassed sec := lt_trans one_pos many
  have hstep : (rrd.pdpStep : ℚ) ≠ 0 := by exact_mod_cast pos.ne'
  have hrest : (sec₁ : ℚ) = rrd.boundary + rrd.pdpStep - rrd.now := by
    have hlt := Nat.mod_lt rrd.lastUp pos
    rw [secOpenPdp_eq pos husec passed] at hsec₁
    have hage : 0 < rrd.lastUp % rrd.pdpStep := by
      by_contra hne
      rw [Nat.eq_zero_of_not_pos hne, Nat.sub_zero, Nat.mod_self] at hsec₁
      omega
    rw [Nat.mod_eq_of_lt (by omega)] at hsec₁
    rw [hsec₁, Nat.cast_sub hlt.le, Rrd.now, boundary_add_mod, husec]
    push_cast
    ring
  have hpre := @preInt_eq _ _ usec (rrd.interval sec usec) pos passed
  have hpost := @postInt_eq _ _ usec (rrd.interval sec usec) pos passed
  -- the rest of the interval holds at least one more step
  have hpre₂ : (calculateElapsedSteps rrd sec usec (rrd.interval sec usec)).preInt - sec₁ =
      (rrd.stepsPassed sec - 1 : ℕ) * (rrd.pdpStep : ℚ) := by
    rw [hpre, hrest, Nat.cast_sub many.le]
    push_cast
    ring
  have hrestPos : 0 < (rrd.stepsPassed sec - 1) * rrd.pdpStep :=
    Nat.mul_pos (Nat.sub_pos_of_lt many) pos
  have hi₂ : 0 < rrd.interval sec usec - sec₁ := by
    obtain ⟨hsum, hnn⟩ := @interval_eq_add _ _ usec (rrd.interval sec usec) pos passed
    have : (0 : ℚ) < (rrd.stepsPassed sec - 1 : ℕ) * (rrd.pdpStep : ℚ) := by exact_mod_cast hrestPos
    linarith
  have hx₁ : (xs.map (openPdpNew sec₁ (rrd.interval sec usec)))[d]? = some (.fin (r * sec₁)) := by
    rw [List.getElem?_map, hx, Option.map_some, (openPdpNew_fin hi).1]
  have hx₂ : (xs.map (restPdpNew sec₁ (rrd.interval sec usec)))[d]? =
      some (.fin (r * (rrd.interval sec usec - sec₁))) := by
    rw [List.getElem?_map, hx, Option.map_some, (openPdpNew_fin hi).2]
  have hfits := @fits_of_lt rrd _ hsec
  have hsec₁' : (0 : ℚ) < sec₁ := by exact_mod_cast hopen
  obtain ⟨hstep₁, -, -, -⟩ := closePdps_frame h₁
  obtain ⟨hlen₁, -⟩ := closePdps_unknSecCnt (by simpa using hlen) h₁
  obtain ⟨⟨D, hD, hdef, hunkn, hval⟩, hpdps₁⟩ := @closePdps_gauge _ _ ⟨sec₁, sec₁, 0, 1⟩ _ _ _ _ _ _ _ _ _ _ _
    (by simpa using hlen) hdst hc hx₁ hsec₁' (by show (sec₁ : ℚ) ≤ dd.mrhbCnt; linarith)
    (by simpa using pos)
    (lt_of_le_of_lt (Nat.mul_le_mul_right _ passed) hfits) h₁
  have hc₁ : Collected d dd 0 rrd₁ := ⟨D, hD, hdef, hunkn, by rw [hval]; simp [ifDnan]⟩
  obtain ⟨⟨D', hD', hdef', hunkn', hval'⟩, hpdps₂⟩ := closePdps_gauge
    (by rw [List.length_map, hlen, hlen₁]) hdst hc₁ hx₂ hi₂
    (by show rrd.interval sec usec - sec₁ ≤ dd.mrhbCnt; linarith)
    (by rw [hstep₁]; exact hrestPos)
    (by rw [hstep₁]; exact lt_of_le_of_lt (Nat.mul_le_mul_right _ (Nat.sub_le _ 1)) hfits) h₂
  refine ⟨⟨D', hD', hdef', hunkn', ?_⟩, ?_⟩
  · rw [collects, if_neg passed.ne', hval', hpost]
  · have hr : (0 + r * ((rrd.stepsPassed sec - 1 : ℕ) * (rrd.pdpStep : ℚ))) /
        (((rrd.stepsPassed sec - 1) * rrd.pdpStep : ℕ) : ℚ) = r := by
      have hne : (((rrd.stepsPassed sec - 1) * rrd.pdpStep : ℕ) : ℚ) ≠ 0 := by
        exact_mod_cast hrestPos.ne'
      rw [zero_add, Nat.cast_mul]
      rw [Nat.cast_mul] at hne
      exact mul_div_cancel_right₀ r hne
    have hcat : pdpsOf d [phase₁, phase₂] = pdpsOf d [phase₁] ++ pdpsOf d [phase₂] := by
      simp [pdpsOf]
    rw [hcat, hpdps₁, hpdps₂, handsOut_of_split many]
    dsimp only
    rw [hstep₁, hpre₂, hr, hrest]
    simp

/-- What one update does for a data source that reads the rate `r`. -/
lemma applyPdpNew_gauge {phases} (pos : 0 < rrd.pdpStep) (hsec : sec < 2 ^ 63)
    (hlen : xs.length = rrd.ds.length) (small : rrd.stepsPassed sec < 2 ^ 31)
    (exact : rrd.stepsPassed sec ≤ 1 ∨ rrd.lastUpUsec = 0) (hdst : dd.dst ≠ .cdef)
    (hc : Collected d dd I rrd) (hI : rrd.boundary = rrd.now → I = 0)
    (hx : xs[d]? = some (.fin (r * rrd.interval sec usec))) (hi : 0 < rrd.interval sec usec)
    (hb : rrd.interval sec usec ≤ dd.mrhbCnt)
    (h : applyPdpNew host rrd sec usec xs = (rrd', some phases)) :
    CollectedExactly d dd (collects rrd sec usec I r) rrd' ∧
      pdpsOf d phases = handsOut rrd sec I r := by
  have hel := @calculateElapsedSteps_elapsed _ _ usec (rrd.interval sec usec) pos small
  have hproc := @calculateElapsedSteps_procPdpCnt _ sec usec (rrd.interval sec usec) pos
  obtain ⟨h0, rfl, rfl⟩ | ⟨hpos, hns, rrd₁, phase, s, rfl, rfl, hc₁⟩ |
    ⟨⟨hsplit, hopen⟩, rrd₁, phase₁, s₁, rrd₂, phase₂, s₂, rfl, rfl, hc₁, hc₂⟩ := applyPdpNew_some h
  · rw [hel] at h0
    refine ⟨?_, by simp [pdpsOf, handsOut, h0]⟩
    rw [collects, if_pos h0]
    exact simpleUpdate_gauge hc hx
  · rw [hel] at hpos hns
    rw [hel, hproc] at hc₁
    exact onePass_gauge pos hsec hlen hpos exact hns hdst hc hI hx hi hb hc₁
  · rw [hel] at hsplit
    rw [hproc] at hc₁
    rw [hel, hproc] at hc₂
    have husec : rrd.lastUpUsec = 0 := by
      obtain h1 | h0 := exact
      · exact absurd hsplit (not_lt.2 h1)
      · exact h0
    exact split_gauge rfl pos hsec hlen hsplit husec hopen hdst hc hx hi hb hc₁ hc₂

/-- What an accepted argument does for a data source that reads a rate. -/
lemma processArg_gauge {tmpl input acc} {v : Text} (inv : rrd.Inv)
    (h : processArg host tmpl rrd input = (rrd', .ok acc)) (hv : acc.updvals[d]? = some v)
    (hread : GaugeReading dd v (rrd.interval acc.sec acc.usec))
    (small : rrd.stepsPassed acc.sec < 2 ^ 31)
    (exact : rrd.stepsPassed acc.sec ≤ 1 ∨ rrd.lastUpUsec = 0)
    (hc : Collected d dd I rrd) (hI : rrd.boundary = rrd.now → I = 0) :
    CollectedExactly d dd (collects rrd acc.sec acc.usec I (gaugeRate v)) rrd' ∧
      pdpsOf d acc.phases = handsOut rrd acc.sec I (gaugeRate v) := by
  obtain ⟨atStyle, time, ds, xs, hparse, htime, hprep, happly, -, -⟩ := processArg_ok h
  obtain ⟨hsec, husec, hlater⟩ := getTimeFromReading_ok htime
  obtain ⟨hxs, hall, hds⟩ := updatePdpPrep_ok hprep (parseDs_length hparse)
  have hi : 0 < rrd.interval acc.sec acc.usec := by
    rw [interval_eq, sub_pos]
    exact timeOf_lt hlater inv.lastUpUsec_lt
  obtain ⟨D, hD, rfl, hunkn, hval⟩ := hc
  have hz : (rrd.ds.zip acc.updvals)[d]? = some (D, v) := List.getElem?_zip_eq_some.2 ⟨hD, hv⟩
  obtain ⟨⟨D', x⟩, hb, hdef, hupd⟩ := Pointwise.getElem?_left hall hz
  obtain ⟨hD', hx⟩ := List.getElem?_zip_eq_some.1 hb
  rw [updatePdpPrepDs_gauge hread] at hupd
  obtain ⟨hprep', hx'⟩ := Prod.mk.inj hupd
  cases hx'
  have hc' : Collected d D.dsDef I { rrd with ds := ds } :=
    ⟨D', hD', hdef, by rw [← hprep']; exact hunkn, by rw [← hprep']; exact hval⟩
  exact @applyPdpNew_gauge _ { rrd with ds := ds } _ _ _ _ _ _ _ _ _ inv.pdpStep_pos hsec
    (by rw [hxs]; exact hds.symm) small exact (by rw [hread.gauge]; decide) hc' hI hx hi
    hread.heartbeat happly

end Update

/-! ### Runs -/

/-- The rate that an accepted argument gives to the time since the one before. -/
def Accepted.seg (d : ℕ) (acc : Accepted) : Seg ℚ where
  start := timeOf acc.lastUp acc.lastUpUsec
  stop := timeOf acc.sec acc.usec
  rate := gaugeRate (acc.updvals.getD d [])

/-- The rate of data source `d` over a run. -/
@[grind] def Db.segs (d : ℕ) (db : Db) : List (Seg ℚ) := db.accepted.map (·.seg d)

/-- The primary data points of data source `d` handed out in a run. -/
@[grind] def Db.pdps (d : ℕ) (db : Db) : List (ℕ × Option RrdValue) :=
  db.accepted.flatMap fun acc => pdpsOf d acc.phases

/-- The primary data points of a run that began at `start` conserve the rate: one is handed out for
each step, in order, each is the average of the rate over its step, and after an update `PDP_val` is
the integral of the rate over the open step. -/
structure Conserves (d start : ℕ) (db : Db) : Prop where
  each : (db.pdps d).map Prod.fst = List.range' (start / db.rrd.pdpStep)
    (db.rrd.lastUp / db.rrd.pdpStep - start / db.rrd.pdpStep)
  average : ∀ p ∈ db.pdps d, p.2 = some (.fin (integral (db.segs d) (db.rrd.pdpStep * (p.1 : ℚ))
    (db.rrd.pdpStep * (p.1 + 1 : ℚ)) / db.rrd.pdpStep))
  pdpVal : db.accepted ≠ [] → ∃ D, db.rrd.ds[d]? = some D ∧
    D.pdpPrep.val = .fin (integral (db.segs d) db.rrd.boundary db.rrd.now)

/-- What is known along a run about data source `d`, defined by `dd`. -/
structure GaugeInv (d : ℕ) (dd : DsDef) (start : ℕ) (db : Db) : Prop where
  inv : db.rrd.Inv
  start_le : start ≤ db.rrd.lastUp
  stop_le : ∀ s ∈ db.segs d, s.stop ≤ db.rrd.now
  collected : Collected d dd (integral (db.segs d) db.rrd.boundary db.rrd.now) db.rrd
  conserves : Conserves d start db

lemma now_lt_boundary_add {rrd : Rrd} (inv : rrd.Inv) : rrd.now < rrd.boundary + rrd.pdpStep := by
  have hb := boundary_add_mod rrd
  have hm : ((rrd.lastUp % rrd.pdpStep : ℕ) : ℚ) + 1 ≤ rrd.pdpStep := by
    exact_mod_cast Nat.mod_lt rrd.lastUp inv.pdpStep_pos
  have hu : (rrd.lastUpUsec : ℚ) / 10 ^ 6 < 1 := by
    rw [div_lt_one (by norm_num)]
    exact_mod_cast inv.lastUpUsec_lt
  rw [Rrd.now, hb]
  linarith

section Segments

variable {rrd : Rrd} {segs : List (Seg ℚ)} {sec usec : ℕ} {r : ℚ}

/-- The boundary reached by an update. -/
lemma boundary_step (hle : rrd.lastUp ≤ sec) :
    ((rrd.pdpStep * (sec / rrd.pdpStep) : ℕ) : ℚ) =
      rrd.boundary + rrd.pdpStep * (rrd.stepsPassed sec : ℕ) := by
  have hsum : sec / rrd.pdpStep = rrd.lastUp / rrd.pdpStep + rrd.stepsPassed sec := by
    have := Nat.div_le_div_right (c := rrd.pdpStep) hle
    unfold Rrd.stepsPassed
    omega
  rw [hsum, Rrd.boundary]
  push_cast
  ring

lemma boundary_step_le (sec usec : ℕ) (step : ℕ) : ((step * (sec / step) : ℕ) : ℚ) ≤ timeOf sec usec := by
  have h : ((step * (sec / step) : ℕ) : ℚ) ≤ sec := by exact_mod_cast Nat.mul_div_le sec step
  have h0 : (0 : ℚ) ≤ (usec : ℚ) / 10 ^ 6 := by positivity
  unfold timeOf
  linarith

/-- The open step after an update holds the integral of the rate. -/
lemma collects_eq_integral (inv : rrd.Inv) (hle : rrd.lastUp ≤ sec)
    (hlt : rrd.now < timeOf sec usec) (hstop : ∀ s ∈ segs, s.stop ≤ rrd.now) :
    integral (segs ++ [⟨rrd.now, timeOf sec usec, r⟩])
        ((rrd.pdpStep : ℚ) * (sec / rrd.pdpStep : ℕ)) (timeOf sec usec) =
      collects rrd sec usec (integral segs rrd.boundary rrd.now) r := by
  have hb := boundary_le_now rrd
  have hb' := @boundary_step rrd _ hle
  have hle' := boundary_step_le sec usec rrd.pdpStep
  have hstep := now_lt_boundary_add inv
  rw [Nat.cast_mul] at hb' hle'
  rw [integral_append, integral_singleton, collects]
  split
  · rename_i h0
    rw [h0, Nat.cast_zero, mul_zero, add_zero] at hb'
    rw [hb', integral_cut hstop hlt.le, amount_of_start hb hlt.le (le_refl _), interval_eq]
  · rename_i hne
    have hone : (1 : ℚ) ≤ (rrd.stepsPassed sec : ℕ) := by
      exact_mod_cast Nat.one_le_iff_ne_zero.2 hne
    have hnow : rrd.now ≤ rrd.pdpStep * (sec / rrd.pdpStep : ℕ) := by
      rw [hb']
      have : (rrd.pdpStep : ℚ) ≤ rrd.pdpStep * (rrd.stepsPassed sec : ℕ) :=
        le_mul_of_one_le_right (Nat.cast_nonneg _) hone
      linarith
    rw [integral_of_le fun s hs => (hstop s hs).trans hnow, zero_add,
      amount_of_inside hnow hle' (le_refl _)]

/-- What an update hands out are the averages of the rate. -/
lemma handsOut_eq_average (inv : rrd.Inv)
    (hstop : ∀ s ∈ segs, s.stop ≤ rrd.now) :
    ∀ p ∈ handsOut rrd sec (integral segs rrd.boundary rrd.now) r,
      p.2 = some (.fin (integral (segs ++ [⟨rrd.now, timeOf sec usec, r⟩])
        (rrd.pdpStep * (p.1 : ℚ)) (rrd.pdpStep * (p.1 + 1 : ℚ)) / rrd.pdpStep)) := by
  intro p hp
  obtain ⟨j, hj, rfl⟩ := List.mem_map.1 hp
  obtain ⟨hqj, hje⟩ := List.mem_range'_1.1 hj
  have hb := boundary_le_now rrd
  have hstep := now_lt_boundary_add inv
  have hpos : (0 : ℚ) < rrd.pdpStep := by exact_mod_cast inv.pdpStep_pos
  have hend : (rrd.pdpStep : ℚ) * (j + 1) ≤ timeOf sec usec := by
    refine le_trans ?_ (boundary_step_le sec usec rrd.pdpStep)
    have hj' : j + 1 ≤ sec / rrd.pdpStep := by
      unfold Rrd.stepsPassed at hje
      omega
    exact_mod_cast Nat.mul_le_mul_left rrd.pdpStep hj'
  simp only [integral_append, integral_singleton]
  split
  · rename_i hq
    have hbj : (rrd.pdpStep : ℚ) * j = rrd.boundary := by rw [hq]; rfl
    have hbj' : (rrd.pdpStep : ℚ) * (j + 1) = rrd.boundary + rrd.pdpStep := by
      rw [mul_add, hbj, mul_one]
    rw [hbj'] at hend
    rw [hbj, hbj', integral_cut hstop hstep.le, amount_of_start hb hstep.le hend]
  · rename_i hq
    have hnow : rrd.now ≤ rrd.pdpStep * (j : ℚ) := by
      have hj' : ((rrd.lastUp / rrd.pdpStep : ℕ) : ℚ) + 1 ≤ j := by
        have : rrd.lastUp / rrd.pdpStep + 1 ≤ j := by omega
        exact_mod_cast this
      have := mul_le_mul_of_nonneg_left hj' hpos.le
      unfold Rrd.boundary at hstep
      linarith
    have hmono : (rrd.pdpStep : ℚ) * j ≤ rrd.pdpStep * (j + 1) := by linarith
    rw [integral_of_le fun s hs => (hstop s hs).trans hnow, zero_add,
      amount_of_inside (s := ⟨rrd.now, timeOf sec usec, r⟩) hnow hmono hend]
    congr 2
    field_simp
    ring

end Segments

/-- The argument has a reading of data source `d` that is taken as a rate. -/
@[grind] def Op.readsGauge (d : ℕ) (db : Db) : Op → Prop
  | .arg host tmpl input =>
    match parseDs db.rrd.dsCnt tmpl input with
    | .error _ => True
    | .ok (atStyle, time, updvals) =>
      match getTimeFromReading host db.rrd atStyle time with
      | .error _ => True
      | .ok (sec, usec) =>
        match db.rrd.ds[d]?, updvals[d]? with
        | some D, some v => GaugeReading D.dsDef v (db.rrd.interval sec usec)
        | _, _ => False
  | .smooth => True

instance (d : ℕ) (db : Db) (op : Op) : Decidable (Op.readsGauge d db op) := by
  cases op with
  | arg host tmpl input =>
    unfold Op.readsGauge
    dsimp only
    match parseDs db.rrd.dsCnt tmpl input with
    | .error _ => exact instDecidableTrue
    | .ok (atStyle, time, updvals) =>
      dsimp only
      match getTimeFromReading host db.rrd atStyle time with
      | .error _ => exact instDecidableTrue
      | .ok (sec, usec) =>
        dsimp only
        match db.rrd.ds[d]?, updvals[d]? with
        | some _, some _ => infer_instance
        | some _, none => exact instDecidableFalse
        | none, some _ => exact instDecidableFalse
        | none, none => exact instDecidableFalse
  | smooth => exact inferInstanceAs (Decidable True)

/-- The split of the open step, if one is needed, is exact: the last update lies on a second. -/
def Op.splitsExactly (db : Db) : Op → Prop
  | .arg host tmpl input =>
    ∀ t ∈ argTime host tmpl db.rrd input, db.rrd.stepsPassed t.1 ≤ 1 ∨ db.rrd.lastUpUsec = 0
  | .smooth => True

instance (db : Db) (op : Op) : Decidable (Op.splitsExactly db op) :=
  match op with
  | .arg host tmpl input =>
    inferInstanceAs (Decidable (∀ t ∈ argTime host tmpl db.rrd input, _ ∨ _))
  | .smooth => inferInstanceAs (Decidable True)

lemma argTime_of_ok {host tmpl rrd input rrd' acc}
    (h : processArg host tmpl rrd input = (rrd', .ok acc)) :
    (acc.sec, acc.usec) ∈ argTime host tmpl rrd input := by
  obtain ⟨atStyle, time, ds, xs, hparse, htime, -⟩ := processArg_ok h
  simp only [argTime, hparse, htime]
  rfl

/-- One accepted argument. -/
lemma gauge_arg {d dd start} {db : Db} {host tmpl input rrd' acc} (g : GaugeInv d dd start db)
    (hp : processArg host tmpl db.rrd input = (rrd', .ok acc))
    (hread : Op.readsGauge d db (.arg host tmpl input)) (hfits : Op.fits db (.arg host tmpl input))
    (hexact : Op.splitsExactly db (.arg host tmpl input)) :
    GaugeInv d dd start ⟨rrd', db.accepted ++ [acc]⟩ := by
  have hmem := argTime_of_ok hp
  have small : db.rrd.stepsPassed acc.sec < 2 ^ 31 := hfits _ hmem
  obtain ⟨hu, hlater⟩ := processArg_inv g.inv hfits hp
  obtain ⟨atStyle, time, ds, xs, hparse, htime, -, -, hl, hlu⟩ := processArg_ok hp
  obtain ⟨D, hD, hdef, hunkn, hval⟩ := g.collected
  have hread' : ∃ v, acc.updvals[d]? = some v ∧
      GaugeReading dd v (db.rrd.interval acc.sec acc.usec) := by
    simp only [Op.readsGauge, hparse, htime, hD] at hread
    split at hread
    · rename_i D' v hDv hv
      cases hDv
      rw [hdef] at hread
      exact ⟨v, hv, hread⟩
    · cases hread
  obtain ⟨v, hv, hreading⟩ := hread'
  obtain ⟨hcol, hpdps⟩ := processArg_gauge g.inv hp hv hreading small (hexact _ hmem)
    ⟨D, hD, hdef, hunkn, hval⟩ fun hbn => by rw [hbn]; exact integral_self _ _
  have hle : db.rrd.lastUp ≤ acc.sec := hlater.le
  have hlt : db.rrd.now < timeOf acc.sec acc.usec := timeOf_lt hlater g.inv.lastUpUsec_lt
  have hstep := hu.pdpStep
  have hnow : rrd'.now = timeOf acc.sec acc.usec := by
    rw [Rrd.now, hu.lastUp, hu.lastUpUsec]
    rfl
  have hbound : rrd'.boundary = db.rrd.pdpStep * (acc.sec / db.rrd.pdpStep : ℕ) := by
    rw [Rrd.boundary, hstep, hu.lastUp]
  have hseg : acc.seg d = ⟨db.rrd.now, timeOf acc.sec acc.usec, gaugeRate v⟩ := by
    simp [Accepted.seg, hl, hlu, hv, Rrd.now, timeOf]
  have hsegs : Db.segs d ⟨rrd', db.accepted ++ [acc]⟩ =
      db.segs d ++ [⟨db.rrd.now, timeOf acc.sec acc.usec, gaugeRate v⟩] := by
    simp [Db.segs, hseg]
  have hintegral := collects_eq_integral (r := gaugeRate v) g.inv hle hlt g.stop_le
  have hpdps' : Db.pdps d ⟨rrd', db.accepted ++ [acc]⟩ = db.pdps d ++
      handsOut db.rrd acc.sec (integral (db.segs d) db.rrd.boundary db.rrd.now) (gaugeRate v) := by
    simp [Db.pdps, hpdps]
  refine ⟨hu.inv, ?_, ?_, ?_, ?_, ?_, ?_⟩
  · show start ≤ rrd'.lastUp
    rw [hu.lastUp]
    exact g.start_le.trans hle
  · intro s hs
    show s.stop ≤ rrd'.now
    rw [hsegs] at hs
    rw [hnow]
    obtain hs | hs := List.mem_append.1 hs
    · exact (g.stop_le s hs).trans hlt.le
    · rw [List.mem_singleton.1 hs]
  · rw [hsegs]
    show Collected d dd (integral _ rrd'.boundary rrd'.now) rrd'
    rw [hbound, hnow, hintegral]
    exact hcol.collected
  · rw [hpdps', List.map_append, g.conserves.each]
    show _ = List.range' (start / rrd'.pdpStep) (rrd'.lastUp / rrd'.pdpStep - start / rrd'.pdpStep)
    rw [hstep, hu.lastUp, handsOut, List.map_map]
    have h1 := Nat.div_le_div_right (c := db.rrd.pdpStep) g.start_le
    have h2 := Nat.div_le_div_right (c := db.rrd.pdpStep) hle
    have hid : (Prod.fst ∘ fun j => (j, some (ExtNum.fin (if j = db.rrd.lastUp / db.rrd.pdpStep then
        (integral (db.segs d) db.rrd.boundary db.rrd.now +
          gaugeRate v * (db.rrd.boundary + db.rrd.pdpStep - db.rrd.now)) / db.rrd.pdpStep
        else gaugeRate v)))) = (id : ℕ → ℕ) := rfl
    rw [hid, List.map_id,
      show acc.sec / db.rrd.pdpStep - start / db.rrd.pdpStep =
        (db.rrd.lastUp / db.rrd.pdpStep - start / db.rrd.pdpStep) + db.rrd.stepsPassed acc.sec by
        unfold Rrd.stepsPassed; omega]
    rw [← List.range'_append_1, Nat.add_sub_cancel' h1]
  · intro p hpm
    rw [hsegs]
    show p.2 = some (.fin (integral _ (rrd'.pdpStep * (p.1 : ℚ)) (rrd'.pdpStep * (p.1 + 1 : ℚ)) /
      rrd'.pdpStep))
    rw [hstep]
    rw [hpdps'] at hpm
    obtain hpm | hpm := List.mem_append.1 hpm
    · rw [g.conserves.average p hpm, integral_append, integral_singleton]
      have hrange : p.1 ∈ (db.pdps d).map Prod.fst := List.mem_map_of_mem hpm
      rw [g.conserves.each, List.mem_range'_1] at hrange
      have hend : (db.rrd.pdpStep : ℚ) * (p.1 + 1) ≤ db.rrd.boundary := by
        have hj : p.1 + 1 ≤ db.rrd.lastUp / db.rrd.pdpStep := by
          have := Nat.div_le_div_right (c := db.rrd.pdpStep) g.start_le
          omega
        unfold Rrd.boundary
        exact_mod_cast Nat.mul_le_mul_left db.rrd.pdpStep hj
      have hbefore := hend.trans (boundary_le_now db.rrd)
      rw [amount_of_ge (s := ⟨db.rrd.now, _, _⟩) hbefore, add_zero]
    · exact handsOut_eq_average g.inv g.stop_le p hpm
  · intro _
    rw [hsegs]
    show ∃ D, rrd'.ds[d]? = some D ∧ D.pdpPrep.val = .fin (integral _ rrd'.boundary rrd'.now)
    rw [hbound, hnow, hintegral]
    obtain ⟨D', hD', -, -, hval'⟩ := hcol
    exact ⟨D', hD', hval'⟩

/-- The argument names a whole second. -/
def Op.wholeSecond (db : Db) : Op → Prop
  | .arg host tmpl input => ∀ t ∈ argTime host tmpl db.rrd input, t.2 = 0
  | .smooth => True

instance (db : Db) (op : Op) : Decidable (Op.wholeSecond db op) :=
  match op with
  | .arg host tmpl input => inferInstanceAs (Decidable (∀ t ∈ argTime host tmpl db.rrd input, _ = 0))
  | .smooth => inferInstanceAs (Decidable True)

/-- A state on a step boundary, where nothing is collected yet. -/
structure StartsOnBoundary (d : ℕ) (rrd : Rrd) : Prop where
  inv : rrd.Inv
  boundary : rrd.lastUp % rrd.pdpStep = 0
  usec : rrd.lastUpUsec = 0
  empty : ∃ D, rrd.ds[d]? = some D ∧ (D.pdpPrep.val = .nan ∨ D.pdpPrep.val = .fin 0)

lemma StartsOnBoundary.gaugeInv {d rrd} (h : StartsOnBoundary d rrd) :
    ∃ dd, GaugeInv d dd rrd.lastUp ⟨rrd, []⟩ := by
  obtain ⟨D, hD, hval⟩ := h.empty
  have hunkn := h.inv.unknSec D (List.mem_of_getElem? hD)
  rw [h.boundary] at hunkn
  refine ⟨D.dsDef, h.inv, le_refl _, by simp [Db.segs], ?_, ?_, by simp [Db.pdps], fun hne =>
    absurd rfl hne⟩
  · refine ⟨D, hD, rfl, Nat.le_zero.1 hunkn, ?_⟩
    obtain hval | hval := hval
    · rw [hval]
      rfl
    · rw [hval]
      rfl
  · simp [Db.pdps]

/-- One step of a run in which every argument has a rate for data source `d`. -/
lemma gauge_step {d dd start} (db : Db) (op : Op) (db' : Db) (g : GaugeInv d dd start db)
    (hread : op.readsGauge d db) (hfits : op.fits db) (hexact : op.splitsExactly db)
    (hstep : db.step op = some db') : GaugeInv d dd start db' := by
  cases op with
  | arg host tmpl input =>
    simp only [Db.step] at hstep
    split at hstep
    · cases hstep
    · rename_i rrd' acc hp
      cases hstep
      exact gauge_arg g hp hread hfits hexact
  | smooth =>
    cases hstep
    exact ⟨smoothAllRras_inv g.inv, g.start_le, g.stop_le, g.collected,
      ⟨g.conserves.each, g.conserves.average, g.conserves.pdpVal⟩⟩

/-- Along every run from a step boundary with readings on whole seconds, none of which closes
`2 ^ 31` steps or more, the primary data points conserve the rate. -/
theorem conserves_of_wholeSeconds {d rrd ops db} (hstart : StartsOnBoundary d rrd)
    (hrun : Db.run ⟨rrd, []⟩ ops = some db)
    (hok : Run.Always Db.step
      (fun db op => op.readsGauge d db ∧ op.wholeSecond db ∧ op.fits db) ⟨rrd, []⟩ ops) :
    Conserves d rrd.lastUp db := by
  obtain ⟨dd, hinit⟩ := hstart.gaugeInv
  have hstep : ∀ (db : Db) (op : Op) (db' : Db),
      (GaugeInv d dd rrd.lastUp db ∧ db.rrd.lastUpUsec = 0) →
      (op.readsGauge d db ∧ op.wholeSecond db ∧ op.fits db) → db.step op = some db' →
      (GaugeInv d dd rrd.lastUp db' ∧ db'.rrd.lastUpUsec = 0) := by
    intro db op db' ⟨g, husec⟩ ⟨hread, hwhole, hfits⟩ hstep
    have hexact : op.splitsExactly db := by
      cases op with
      | arg host tmpl input => exact fun _ _ => .inr husec
      | smooth => trivial
    refine ⟨gauge_step db op db' g hread hfits hexact hstep, ?_⟩
    cases op with
    | arg host tmpl input =>
      simp only [Db.step] at hstep
      split at hstep
      · cases hstep
      · rename_i rrd' acc hp
        cases hstep
        obtain ⟨hu, -⟩ := processArg_inv g.inv hfits hp
        rw [hu.lastUpUsec]
        exact hwhole _ (argTime_of_ok hp)
    | smooth =>
      cases hstep
      exact husec
  exact (Run.run_inv_of _ hstep hrun hok ⟨hinit, hstart.usec⟩).1.conserves

lemma gaugeHeader_startsOnBoundary (pdpStep mrhbCnt : ℕ) (pos : 0 < pdpStep) (random : ℕ → ℕ)
    (h : 1000 % pdpStep = 0) :
    StartsOnBoundary 0 (rrdInitData (gaugeHeader pdpStep mrhbCnt pos) random) :=
  ⟨rrdInitData_inv _ _, h, rfl, _, rfl, .inl rfl⟩

example : (rrdInitData (gaugeHeader 10 60 (by decide)) fun _ => 3).lastUp = 1000 := by decide +kernel

theorem conserves_of_wholeSeconds_three_updates :
    ∃ db, Db.run ⟨rrdInitData (gaugeHeader 10 60 (by decide)) fun _ => 3, []⟩
        [.arg .idle [0] "1004:7".toList, .arg .idle [0] "1037:8".toList,
          .arg .idle [0] "1041:3".toList] = some db ∧
      Conserves 0 1000 db := by
  refine Outcome.exists_of_isSome (by decide +kernel) fun db hdb => ?_
  exact conserves_of_wholeSeconds (gaugeHeader_startsOnBoundary 10 60 (by decide) _ (by decide)) hdb
    (by decide +kernel)

/-- A reading after `2 ^ 32` steps of one second closes none of them: `PDP_val` holds the amount of
the whole interval. -/
theorem reading_after_many_steps_is_collected :
    ∃ db, Db.run ⟨rrdInitData (gaugeHeader 1 8589934592 (by decide)) fun _ => 3, []⟩
        [.arg .idle [0] "4294968296:1".toList] = some db ∧
      Op.readsGauge 0 ⟨rrdInitData (gaugeHeader 1 8589934592 (by decide)) fun _ => 3, []⟩
        (.arg .idle [0] "4294968296:1".toList) ∧
      ¬ Conserves 0 1000 db := by
  refine Outcome.exists_of_any_imp (fun db => db.rrd.ds.map (·.pdpPrep.val) = [.fin 4294967296] ∧
    integral (db.segs 0) db.rrd.boundary db.rrd.now = 0 ∧ db.accepted.length = 1) (by decide +kernel) ?_
  rintro db - ⟨hval, hint, hacc⟩
  refine ⟨by decide +kernel, fun hc => ?_⟩
  obtain ⟨D, hD, hDval⟩ := hc.pdpVal fun hnil => by rw [hnil] at hacc; cases hacc
  rw [hint] at hDval
  have hmem : D.pdpPrep.val ∈ db.rrd.ds.map (·.pdpPrep.val) :=
    List.mem_map_of_mem (List.mem_of_getElem? hD)
  rw [hval, List.mem_singleton, hDval] at hmem
  exact absurd hmem (by decide +kernel)

/-- Along every run from a step boundary, at any times, in which an update that closes several steps
follows one on a whole second, and none closes `2 ^ 31` steps or more, the primary data points
conserve the rate. -/
theorem conserves_of_splitsExactly {d rrd ops db} (hstart : StartsOnBoundary d rrd)
    (hrun : Db.run ⟨rrd, []⟩ ops = some db)
    (hok : Run.Always Db.step
      (fun db op => op.readsGauge d db ∧ op.splitsExactly db ∧ op.fits db) ⟨rrd, []⟩ ops) :
    Conserves d rrd.lastUp db := by
  obtain ⟨dd, hinit⟩ := hstart.gaugeInv
  have hstep : ∀ (db : Db) (op : Op) (db' : Db), GaugeInv d dd rrd.lastUp db →
      (op.readsGauge d db ∧ op.splitsExactly db ∧ op.fits db) → db.step op = some db' →
      GaugeInv d dd rrd.lastUp db' := by
    intro db op db' g ⟨hread, hexact, hfits⟩ hstep
    exact gauge_step db op db' g hread hfits hexact hstep
  exact (Run.run_inv_of _ hstep hrun hok hinit).conserves

example : (Db.run ⟨rrdInitData (gaugeHeader 10 60 (by decide)) fun _ => 3, []⟩
    [.arg .idle [0] "1017.5:8".toList]).isSome := by
  decide +kernel

theorem conserves_of_splitsExactly_subseconds :
    ∃ db, Db.run ⟨rrdInitData (gaugeHeader 10 60 (by decide)) fun _ => 3, []⟩
        [.arg .idle [0] "1004.25:7".toList, .arg .idle [0] "1017.5:8".toList,
          .arg .idle [0] "1018:3".toList, .arg .idle [0] "1055.75:2".toList] = some db ∧
      Conserves 0 1000 db := by
  refine Outcome.exists_of_isSome (by decide +kernel) fun db hdb => ?_
  exact conserves_of_splitsExactly (gaugeHeader_startsOnBoundary 10 60 (by decide) _ (by decide)) hdb
    (by decide +kernel)

/-- After an update at half a second, an update that closes three steps gives half a second of its
rate to the wrong steps. -/
theorem split_counts_whole_seconds :
    ∃ db, Db.run ⟨rrdInitData (gaugeHeader 10 60 (by decide)) fun _ => 3, []⟩
        [.arg .idle [0] "1005.5:10".toList, .arg .idle [0] "1037:20".toList] = some db ∧
      db.pdps 0 = [(100, some (.fin (27 / 2))), (101, some (.fin (41 / 2))),
        (102, some (.fin (41 / 2)))] ∧
      integral (db.segs 0) 1000 1010 / 10 = 29 / 2 ∧ ¬ Conserves 0 1000 db := by
  refine Outcome.exists_of_any_imp (fun db => db.pdps 0 = [(100, some (.fin (27 / 2))), (101, some (.fin (41 / 2))),
    (102, some (.fin (41 / 2)))] ∧ integral (db.segs 0) 1000 1010 / 10 = 29 / 2 ∧ db.rrd.pdpStep = 10)
    (by decide +kernel) ?_
  rintro db - ⟨hpdps, hint, hstep⟩
  refine ⟨hpdps, hint, fun hc => ?_⟩
  have h := hc.average (100, some (.fin (27 / 2))) (by rw [hpdps]; simp)
  rw [hstep] at h
  norm_num at h hint
  rw [hint] at h
  norm_num at h

end Rrdtool
