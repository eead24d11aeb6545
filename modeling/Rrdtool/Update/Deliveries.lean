import Mathlib.Data.List.ReduceOption
import Rrdtool.Update.Conservation

/-!
# How unknown time is delivered

A primary data point of `src/rrd_update.c` should depend on the seconds of its step only: unknown if more than half
of them are, and their average otherwise (`pdpOfSeconds`), however the seconds are split into updates. The code
adds the unknown seconds of `simple_update` up in `PDP_unkn_sec_cnt` and takes those of the closing update as
`pre_unknown`; the half rule of `process_pdp_st` sees the former only, and its test of the heartbeat sees the
interval of the closing update only. `covered_iff` says when that makes no difference.
-/

namespace Rrdtool

open List ExtNum Groups

/-! ### Seconds -/

/-- An update as one data source sees it: the rate, `none` if it is unknown, and the seconds it holds for. -/
abbrev Chunk := Option ℚ × ℕ

/-- `pdp_new` of the update. -/
def amountOf (rate : Option ℚ) (interval : ℚ) : RrdValue := rate.elim .nan fun r => .fin (r * interval)

/-- The average over the known seconds. -/
@[grind] def averageKnown (secs : List (Option ℚ)) : RrdValue :=
  if secs.reduceOption = [] then .nan else .fin (secs.reduceOption.sum / secs.reduceOption.length)

/-- The primary data point of a step with these seconds. -/
def pdpOfSeconds (secs : List (Option ℚ)) : RrdValue :=
  if (secs.length : ℚ) / 2 < secs.count none then .nan else averageKnown secs

lemma count_none_add (secs : List (Option ℚ)) : secs.count none + secs.reduceOption.length = secs.length := by
  induction secs with
  | nil => rfl
  | cons s secs ih =>
    cases s with
    | none =>
      rw [List.count_cons_self, List.reduceOption_cons_of_none, List.length_cons]
      omega
    | some r =>
      rw [List.count_cons_of_ne (by simp), List.reduceOption_cons_of_some, List.length_cons, List.length_cons]
      omega

lemma reduceOption_replicate_some (n : ℕ) (r : ℚ) :
    (List.replicate n (some r)).reduceOption = List.replicate n r := by
  induction n with
  | zero => rfl
  | succ n ih => rw [List.replicate_succ, List.reduceOption_cons_of_some, ih, List.replicate_succ]

lemma reduceOption_eq_nil_iff_count (secs : List (Option ℚ)) :
    secs.reduceOption = [] ↔ secs.count none = secs.length := by
  have := count_none_add secs
  rw [← List.length_eq_zero_iff]
  omega

/-- A step whose seconds are all alike. -/
lemma averageKnown_replicate {n : ℕ} (pos : 0 < n) (rate : Option ℚ) :
    averageKnown (List.replicate n rate) = rate.elim .nan .fin := by
  cases rate with
  | none => rw [averageKnown, List.reduceOption_replicate_none, if_pos rfl, Option.elim_none]
  | some r =>
    have hne : (n : ℚ) ≠ 0 := by exact_mod_cast pos.ne'
    rw [averageKnown, reduceOption_replicate_some, if_neg (by simp [pos.ne']), List.sum_replicate, List.length_replicate,
      nsmul_eq_mul, mul_div_cancel_left₀ r hne, Option.elim_some]

/-! ### One pass over one data source -/

/-- The preparation area after these seconds of the open step. -/
structure HoldsSeconds (p : PdpPrep) (secs : List (Option ℚ)) : Prop where
  unknSecCnt : p.unknSecCnt = secs.count none
  val : (p.val = .nan ∧ secs.reduceOption = []) ∨ p.val = .fin secs.reduceOption.sum

/-- Seconds of one rate, behind those that are there. -/
lemma simpleUpdateDs_holds {p : PdpPrep} {secs : List (Option ℚ)} (hp : HoldsSeconds p secs) (rate : Option ℚ) (n : ℕ) :
    HoldsSeconds (simpleUpdateDs n p (amountOf rate n)) (secs ++ List.replicate n rate) := by
  cases rate with
  | none =>
    refine ⟨?_, ?_⟩
    · show p.unknSecCnt + ⌊(n : ℚ)⌋₊ = _
      rw [Nat.floor_natCast, hp.unknSecCnt, List.count_append, List.count_replicate_self]
    · rw [List.reduceOption_append, List.reduceOption_replicate_none, List.append_nil]
      exact hp.val
  | some r =>
    refine ⟨?_, .inr ?_⟩
    · rw [List.count_append, List.count_replicate, if_neg (by simp), Nat.add_zero]
      exact hp.unknSecCnt
    · rw [List.reduceOption_append, reduceOption_replicate_some, List.sum_append, List.sum_replicate, nsmul_eq_mul]
      show (if p.val.isnan then ExtNum.fin (r * n) else p.val + .fin (r * n)) = _
      obtain ⟨hnan, hnil⟩ | hfin := hp.val
      · rw [hnan, hnil]
        simp [mul_comm]
      · rw [hfin]
        simp [mul_comm]

/-- What `process_pdp_st` takes for too much unknown time: an interval longer than the heartbeat, or more than half a
step of seconds that were unknown before. -/
def dumped (pdpStep mrhbCnt : ℕ) (interval : ℚ) (secs : List (Option ℚ)) : Prop :=
  (mrhbCnt : ℚ) < interval ∨ (pdpStep : ℚ) / 2 < s32 (secs.count none)

instance (pdpStep mrhbCnt : ℕ) (interval : ℚ) (secs : List (Option ℚ)) :
    Decidable (dumped pdpStep mrhbCnt interval secs) := inferInstanceAs (Decidable (_ ∨ _))

lemma amountOf_div {r interval : ℚ} (hi : 0 < interval) :
    (amountOf (some r) interval / .fin interval : RrdValue) = .fin r := by
  show (ExtNum.fin (r * interval) / .fin interval : RrdValue) = _
  rw [fin_div_fin hi.ne', mul_div_cancel_right₀ r hi.ne']

/-- The seconds after the boundary are what the next step begins with. -/
lemma processPdpSt_next {host : Host} {pdpStep : ℕ} {pass : PdpPass} {D : DataSource} {rate : Option ℚ} {v : ℕ}
    {temps : List RrdValue} {p : PdpPrep} {t : RrdValue} (hdst : D.dsDef.dst ≠ .cdef) (hi : 0 < pass.interval)
    (hpost : pass.postInt = v)
    (h : processPdpSt host pdpStep pass D (amountOf rate pass.interval) temps = (p, some t)) :
    HoldsSeconds p (List.replicate v rate) := by
  simp only [processPdpSt, if_neg hdst] at h
  obtain ⟨rfl, -⟩ := Prod.mk.inj h
  cases rate with
  | none =>
    refine ⟨?_, .inl ⟨rfl, List.reduceOption_replicate_none⟩⟩
    show ⌊pass.postInt⌋₊ = _
    rw [hpost, Nat.floor_natCast, List.count_replicate_self]
  | some r =>
    have hnan : (amountOf (some r) pass.interval).isnan = false := rfl
    simp only [hnan, amountOf_div hi, Bool.false_eq_true, if_false, hpost, fin_mul_fin]
    refine ⟨?_, .inr ?_⟩
    · rw [List.count_replicate, if_neg (by simp)]
    · rw [reduceOption_replicate_some, List.sum_replicate, nsmul_eq_mul, mul_comm]

/-- The value of the steps that the seconds `secs` and `w` more of them make up. -/
lemma processPdpSt_value {host : Host} {pdpStep : ℕ} {pass : PdpPass} {D : DataSource} {secs : List (Option ℚ)}
    {rate : Option ℚ} {w : ℕ} {temps : List RrdValue} {p : PdpPrep} {t : RrdValue} (hdst : D.dsDef.dst ≠ .cdef)
    (hp : HoldsSeconds D.pdpPrep secs) (hi : 0 < pass.interval) (hpre : pass.preInt = w)
    (hw : 0 < w) (hlen : secs.length + w = pass.elapsedPdpSt * pdpStep) (fits : pass.elapsedPdpSt * pdpStep < 2 ^ 64)
    (h : processPdpSt host pdpStep pass D (amountOf rate pass.interval) temps = (p, some t)) :
    t = if dumped pdpStep D.dsDef.mrhbCnt pass.interval secs then .nan
      else averageKnown (secs ++ List.replicate w rate) := by
  have hcount := count_none_add secs
  have hknown : u64 ((pass.elapsedPdpSt * pdpStep : ℕ) - (D.pdpPrep.unknSecCnt : ℤ)) =
      secs.reduceOption.length + w := by
    rw [hp.unknSecCnt, u64_sub (by omega) fits, ← hlen]
    omega
  have htemp : ∀ val preUnknown, pdpRate pdpStep D.dsDef pass D.pdpPrep.unknSecCnt val preUnknown =
      if dumped pdpStep D.dsDef.mrhbCnt pass.interval secs then .nan
      else val / .fin ((secs.reduceOption.length + w : ℕ) - preUnknown) := by
    intro val preUnknown
    rw [pdpRate, hknown, hp.unknSecCnt]
    rfl
  simp only [processPdpSt, if_neg hdst] at h
  obtain ⟨-, ht⟩ := Prod.mk.inj h
  obtain rfl := Option.some.inj ht
  cases rate with
  | none =>
    show pdpRate pdpStep D.dsDef pass D.pdpPrep.unknSecCnt D.pdpPrep.val pass.preInt = _
    have hsub : (((secs.reduceOption.length + w : ℕ) : ℚ) - w) = secs.reduceOption.length := by
      push_cast
      ring
    rw [htemp, averageKnown, List.reduceOption_append, List.reduceOption_replicate_none, List.append_nil, hpre, hsub]
    refine if_congr Iff.rfl rfl ?_
    obtain ⟨hnan, hnil⟩ | hfin := hp.val
    · rw [hnan, if_pos hnil, nan_div]
    · rw [hfin]
      split
      · rename_i hnil
        rw [hnil]
        rfl
      · rename_i hne
        exact fin_div_fin (by exact_mod_cast fun h0 => hne (List.length_eq_zero_iff.1 h0))
  | some r =>
    have hnan : (amountOf (some r) pass.interval).isnan = false := rfl
    have hval : ifDnan D.pdpPrep.val (.fin 0) = .fin secs.reduceOption.sum := by
      obtain ⟨hnan, hnil⟩ | hfin := hp.val
      · rw [hnan, hnil]
        rfl
      · rw [hfin]
        rfl
    have hne : ((secs.reduceOption.length + w : ℕ) : ℚ) ≠ 0 := by exact_mod_cast (by omega)
    simp only [hnan, amountOf_div hi, Bool.false_eq_true, if_false, hval, hpre, fin_mul_fin, fin_add_fin]
    rw [htemp, averageKnown, List.reduceOption_append, reduceOption_replicate_some,
      if_neg (List.append_ne_nil_of_right_ne_nil _ (by simp [hw.ne'])), List.sum_append, List.sum_replicate,
      nsmul_eq_mul, List.length_append, List.length_replicate, sub_zero, fin_div_fin hne, mul_comm]

/-- Steps that lie within one update have its rate. -/
lemma wholeSteps_value {pdpStep mrhbCnt m : ℕ} {interval : ℚ} {rate : Option ℚ} (hm : 0 < m)
    (late : rate ≠ none → interval ≤ mrhbCnt) :
    (if dumped pdpStep mrhbCnt interval [] then ExtNum.nan else averageKnown ([] ++ List.replicate m rate)) =
      rate.elim .nan .fin := by
  rw [List.nil_append, averageKnown_replicate hm]
  cases rate with
  | none => exact ite_self _
  | some r =>
    refine if_neg fun hd => ?_
    obtain hlate | hhalf := hd
    · exact absurd hlate (not_lt.2 (late (by simp)))
    · have hzero : s32 ((([] : List (Option ℚ)).count none : ℕ) : ℤ) = 0 := s32_natCast (by simp)
      rw [hzero, Int.cast_zero] at hhalf
      have : (0 : ℚ) ≤ (pdpStep : ℚ) / 2 := by positivity
      linarith

/-- The shares of the step left open and of the rest. -/
lemma openPdpNew_amountOf {w : ℕ} {interval : ℚ} (hi : 0 < interval) (rate : Option ℚ) :
    openPdpNew w interval (amountOf rate interval) = amountOf rate w ∧
      restPdpNew w interval (amountOf rate interval) = amountOf rate (interval - w) := by
  cases rate with
  | none => exact ⟨rfl, rfl⟩
  | some r => exact openPdpNew_fin hi

/-- A pass for the data source, with the rate of the update. -/
lemma closePdps_seconds {host rrd} {pass : PdpPass} {p xs s time rrd' phase s'} {d : ℕ} {D : DataSource}
    {rate : Option ℚ} {v : ℕ} (hlen : xs.length = rrd.ds.length) (hdst : D.dsDef.dst ≠ .cdef)
    (hD : rrd.ds[d]? = some D) (hx : xs[d]? = some (amountOf rate pass.interval)) (hi : 0 < pass.interval)
    (hpost : pass.postInt = v) (h : closePdps host rrd pass p xs s time = (rrd', some (phase, s'))) :
    ∃ (D' : DataSource) (t : RrdValue), rrd'.ds[d]? = some D' ∧ D'.dsDef = D.dsDef ∧
      HoldsSeconds D'.pdpPrep (List.replicate v rate) ∧
      pdpsOf d [phase] = (List.range' p pass.elapsedPdpSt).map (fun j => (j, some t)) ∧
      ∀ (secs : List (Option ℚ)) (w : ℕ), HoldsSeconds D.pdpPrep secs → pass.preInt = w → 0 < w →
        secs.length + w = pass.elapsedPdpSt * rrd.pdpStep → pass.elapsedPdpSt * rrd.pdpStep < 2 ^ 64 →
        t = if dumped rrd.pdpStep D.dsDef.mrhbCnt pass.interval secs then .nan
          else averageKnown (secs ++ List.replicate w rate) := by
  obtain ⟨D', t, temps, hD', hdef, ht, hproc⟩ := closePdps_ds hlen hD hx h
  obtain ⟨-, -, -, -, -, -, -, -, hel, hpc⟩ := closePdps_some h
  refine ⟨D', t, hD', hdef, processPdpSt_next hdst hi hpost hproc, ?_, ?_⟩
  · simp only [pdpsOf, List.flatMap_cons, List.flatMap_nil, List.append_nil, hel, hpc, ht,
      List.range'_eq_map_range, List.map_map]
    rfl
  · intro secs w hp hpre hw hsum fits
    exact processPdpSt_value hdst hp hi hpre hw hsum fits hproc

/-! ### One update -/

/-- The interval that the test of the heartbeat sees when an update of `n` seconds closes the step that `secs` are in:
the rest `w` of the step if it is closed on its own, before other steps that the update closes. -/
def closingInterval (pdpStep n w : ℕ) (secs : List (Option ℚ)) : ℕ :=
  if pdpStep + w ≤ n ∧ secs ≠ [] then w else n

section OneUpdate

variable {host : Host} {rrd rrd' : Rrd} {sec n d : ℕ} {xs : List RrdValue} {phases : List Phase} {D : DataSource}
  {rate : Option ℚ} {secs : List (Option ℚ)} {fresh : Prop}

/-- What an update hands out for the data source, and the seconds of the step it leaves open. `fresh` says that
the seconds of the step open before are known. -/
structure HandsOutSeconds (rrd : Rrd) (n d : ℕ) (dd : DsDef) (rate : Option ℚ) (secs : List (Option ℚ)) (fresh : Prop)
    (rrd' : Rrd) (phases : List Phase) : Prop where
  inside : n < rrd.pdpStep - rrd.lastUp % rrd.pdpStep → pdpsOf d phases = [] ∧
    ∃ D' : DataSource, rrd'.ds[d]? = some D' ∧ D'.dsDef = dd ∧
      (fresh → HoldsSeconds D'.pdpPrep (secs ++ List.replicate n rate))
  closes : rrd.pdpStep - rrd.lastUp % rrd.pdpStep ≤ n →
    (∃ D' : DataSource, rrd'.ds[d]? = some D' ∧ D'.dsDef = dd ∧
      HoldsSeconds D'.pdpPrep (List.replicate ((rrd.lastUp + n) % rrd.pdpStep) rate)) ∧
    ∃ t, pdpsOf d phases = (rrd.lastUp / rrd.pdpStep, some t) ::
        (List.range' (rrd.lastUp / rrd.pdpStep + 1) (rrd.stepsPassed (rrd.lastUp + n) - 1)).map
          (fun j => (j, some (rate.elim .nan .fin))) ∧
      (fresh → t =
        if dumped rrd.pdpStep dd.mrhbCnt (closingInterval rrd.pdpStep n (rrd.pdpStep - rrd.lastUp % rrd.pdpStep) secs) secs
        then .nan
        else averageKnown (secs ++ List.replicate (rrd.pdpStep - rrd.lastUp % rrd.pdpStep) rate))

lemma interval_of_whole (whole : rrd.lastUpUsec = 0) (n : ℕ) : rrd.interval (rrd.lastUp + n) 0 = n := by
  rw [Rrd.interval, whole]
  push_cast
  ring

/-- The steps passed, in seconds. -/
lemma stepsPassed_mul (n : ℕ) :
    rrd.lastUp % rrd.pdpStep + n = rrd.stepsPassed (rrd.lastUp + n) * rrd.pdpStep + (rrd.lastUp + n) % rrd.pdpStep := by
  have hold := Nat.div_add_mod rrd.lastUp rrd.pdpStep
  have hnew := Nat.div_add_mod (rrd.lastUp + n) rrd.pdpStep
  have hle : rrd.lastUp / rrd.pdpStep ≤ (rrd.lastUp + n) / rrd.pdpStep := Nat.div_le_div_right (Nat.le_add_right _ n)
  have hmul : rrd.stepsPassed (rrd.lastUp + n) * rrd.pdpStep =
      rrd.pdpStep * ((rrd.lastUp + n) / rrd.pdpStep) - rrd.pdpStep * (rrd.lastUp / rrd.pdpStep) := by
    rw [Rrd.stepsPassed, Nat.mul_comm, Nat.mul_sub]
  have := Nat.mul_le_mul_left rrd.pdpStep hle
  omega

/-- Boundaries, in seconds: none is passed before the step is full, and two or more only after another step. -/
lemma stepsPassed_cases (pos : 0 < rrd.pdpStep) (n : ℕ) :
    (n < rrd.pdpStep - rrd.lastUp % rrd.pdpStep ↔ rrd.stepsPassed (rrd.lastUp + n) = 0) ∧
      (rrd.pdpStep + (rrd.pdpStep - rrd.lastUp % rrd.pdpStep) ≤ n ↔ 1 < rrd.stepsPassed (rrd.lastUp + n)) := by
  have hsum := @stepsPassed_mul rrd n
  have hmod := Nat.mod_lt rrd.lastUp pos
  have hmod' := Nat.mod_lt (rrd.lastUp + n) pos
  obtain h0 | h1 | h2 : rrd.stepsPassed (rrd.lastUp + n) = 0 ∨ rrd.stepsPassed (rrd.lastUp + n) = 1 ∨
      2 ≤ rrd.stepsPassed (rrd.lastUp + n) := by omega
  · rw [h0] at hsum ⊢
    omega
  · rw [h1] at hsum ⊢
    omega
  · have hmul := Nat.mul_le_mul_right rrd.pdpStep h2
    omega

/-- An update inside the step. -/
lemma simpleUpdate_seconds (whole : rrd.lastUpUsec = 0) (hD : rrd.ds[d]? = some D)
    (hx : xs[d]? = some (amountOf rate n)) (hp : fresh → HoldsSeconds D.pdpPrep secs) :
    ∃ D' : DataSource,
      ({ rrd with ds := simpleUpdate (rrd.interval (rrd.lastUp + n) 0) rrd.ds xs }.setLastUp (rrd.lastUp + n) 0).ds[d]? =
        some D' ∧ D'.dsDef = D.dsDef ∧ (fresh → HoldsSeconds D'.pdpPrep (secs ++ List.replicate n rate)) := by
  refine ⟨{ D with pdpPrep := simpleUpdateDs n D.pdpPrep (amountOf rate n) }, ?_, rfl, fun hf => ?_⟩
  · show (simpleUpdate _ _ _)[d]? = _
    rw [interval_of_whole whole, simpleUpdate, List.getElem?_zipWith, hD, hx]
  · exact simpleUpdateDs_holds (hp hf) rate n

/-- The seconds of the update before the latest boundary, and after it. -/
lemma preInt_postInt_seconds (pos : 0 < rrd.pdpStep) (whole : rrd.lastUpUsec = 0) {interval : ℚ}
    (passed : 0 < rrd.stepsPassed (rrd.lastUp + n)) :
    (calculateElapsedSteps rrd (rrd.lastUp + n) 0 interval).preInt = (n - (rrd.lastUp + n) % rrd.pdpStep : ℕ) ∧
      (calculateElapsedSteps rrd (rrd.lastUp + n) 0 interval).postInt = ((rrd.lastUp + n) % rrd.pdpStep : ℕ) := by
  obtain ⟨hpre, hpost⟩ := @calculateElapsedSteps_split _ _ 0 interval pos passed
  have hsum := @stepsPassed_mul rrd n
  have hmod := Nat.mod_lt rrd.lastUp pos
  have hle := Nat.mul_le_mul_right rrd.pdpStep (Nat.succ_le_of_lt passed)
  have hdiv := Nat.div_add_mod (rrd.lastUp + n) rrd.pdpStep
  have hboundary : rrd.pdpStep * ((rrd.lastUp + n) / rrd.pdpStep) = rrd.lastUp + (n - (rrd.lastUp + n) % rrd.pdpStep) := by
    omega
  rw [hpre, hpost, whole, hboundary]
  push_cast
  exact ⟨by ring, by ring⟩

/-- An update that closes the step in one pass. -/
lemma onePass_seconds {rrd₁ : Rrd} {phase : Phase} {s : SeasonalCoef} (pos : 0 < rrd.pdpStep)
    (whole : rrd.lastUpUsec = 0) (hsec : rrd.lastUp + n < 2 ^ 63) (hlen : xs.length = rrd.ds.length)
    (hD : rrd.ds[d]? = some D) (hdst : D.dsDef.dst ≠ .cdef) (hn : 0 < n)
    (passed : 0 < rrd.stepsPassed (rrd.lastUp + n))
    (single : rrd.stepsPassed (rrd.lastUp + n) = 1 ∨ rrd.lastUp % rrd.pdpStep = 0)
    (hx : xs[d]? = some (amountOf rate n)) (late : rate ≠ none → n ≤ D.dsDef.mrhbCnt)
    (hp : fresh → HoldsSeconds D.pdpPrep secs) (hs : fresh → secs.length = rrd.lastUp % rrd.pdpStep)
    (hfresh : rrd.lastUp % rrd.pdpStep = 0 → fresh)
    (h : closePdps host rrd
      ⟨n, (calculateElapsedSteps rrd (rrd.lastUp + n) 0 n).preInt, (calculateElapsedSteps rrd (rrd.lastUp + n) 0 n).postInt,
        rrd.stepsPassed (rrd.lastUp + n)⟩ (rrd.lastUp / rrd.pdpStep) xs ⟨[], []⟩ (rrd.lastUp + n) =
          (rrd₁, some (phase, s))) :
    HandsOutSeconds rrd n d D.dsDef rate secs fresh (rrd₁.setLastUp (rrd.lastUp + n) 0) [phase] := by
  obtain ⟨hinside, hmany⟩ := @stepsPassed_cases rrd pos n
  have hsum := @stepsPassed_mul rrd n
  have hmod := Nat.mod_lt rrd.lastUp pos
  have hle := Nat.mul_le_mul_right rrd.pdpStep (Nat.succ_le_of_lt passed)
  have hfits : rrd.stepsPassed (rrd.lastUp + n) * rrd.pdpStep < 2 ^ 64 := fits_of_lt hsec
  have hi : (0 : ℚ) < n := by exact_mod_cast hn
  obtain ⟨hpre, hpost⟩ := @preInt_postInt_seconds _ n pos whole (n : ℚ) passed
  obtain ⟨D', t, hD', hdef, hnext, hpdps, hval⟩ := closePdps_seconds hlen hdst hD hx hi hpost h
  dsimp only at hpdps hval
  refine ⟨fun hlt => absurd (hinside.1 hlt) passed.ne', fun _ => ⟨⟨D', hD', hdef, hnext⟩, t, ?_, fun hf => ?_⟩⟩
  · obtain hone | hzero := single
    · rw [hpdps, hone]
      rfl
    · have hsecs : secs = [] := List.length_eq_zero_iff.1 ((hs (hfresh hzero)).trans hzero)
      have ht := hval [] _ (by rw [← hsecs]; exact hp (hfresh hzero)) hpre (by omega) (by simp; omega) hfits
      rw [wholeSteps_value (by omega) (by exact_mod_cast late)] at ht
      obtain ⟨m, hm⟩ : ∃ m, rrd.stepsPassed (rrd.lastUp + n) = m + 1 := ⟨_, (Nat.sub_add_cancel passed).symm⟩
      rw [hpdps, ht, hm, List.range'_succ]
      rfl
  · have hlen' := hs hf
    obtain hone | hzero := single
    · have hinterval : closingInterval rrd.pdpStep n (rrd.pdpStep - rrd.lastUp % rrd.pdpStep) secs = n :=
        if_neg fun hc => absurd (hmany.1 hc.1) (by omega)
      have ht := hval secs (n - (rrd.lastUp + n) % rrd.pdpStep) (hp hf) hpre (by omega) (by omega) hfits
      rw [hone, Nat.one_mul] at hsum
      rw [ht, hinterval, show n - (rrd.lastUp + n) % rrd.pdpStep = rrd.pdpStep - rrd.lastUp % rrd.pdpStep by omega]
    · have hsecs : secs = [] := List.length_eq_zero_iff.1 (hlen'.trans hzero)
      subst hsecs
      have ht := hval [] _ (hp hf) hpre (by omega) (by simp; omega) hfits
      rw [wholeSteps_value (by omega) (by exact_mod_cast late)] at ht
      have hinterval : closingInterval rrd.pdpStep n (rrd.pdpStep - rrd.lastUp % rrd.pdpStep) [] = n :=
        if_neg fun hc => hc.2 rfl
      rw [ht, hinterval, wholeSteps_value (by omega) (by exact_mod_cast late)]

/-- An update that closes the step left open in a pass of its own. -/
lemma split_seconds {rrd₁ rrd₂ : Rrd} {phase₁ phase₂ : Phase} {s₁ s₂ : SeasonalCoef} {w : ℕ} (pos : 0 < rrd.pdpStep)
    (whole : rrd.lastUpUsec = 0) (hsec : rrd.lastUp + n < 2 ^ 63) (hlen : xs.length = rrd.ds.length)
    (hD : rrd.ds[d]? = some D) (hdst : D.dsDef.dst ≠ .cdef) (hn : 0 < n)
    (many : 1 < rrd.stepsPassed (rrd.lastUp + n)) (hopen : 0 < rrd.lastUp % rrd.pdpStep)
    (hw : w = rrd.pdpStep - rrd.lastUp % rrd.pdpStep)
    (hx : xs[d]? = some (amountOf rate n)) (late : rate ≠ none → n ≤ D.dsDef.mrhbCnt)
    (hp : fresh → HoldsSeconds D.pdpPrep secs) (hs : fresh → secs.length = rrd.lastUp % rrd.pdpStep)
    (h₁ : closePdps host rrd ⟨w, w, 0, 1⟩ (rrd.lastUp / rrd.pdpStep) (xs.map (openPdpNew w n)) ⟨[], []⟩
      (rrd.lastUp + w) = (rrd₁, some (phase₁, s₁)))
    (h₂ : closePdps host rrd₁
      ⟨n - w, (calculateElapsedSteps rrd (rrd.lastUp + n) 0 n).preInt - w,
        (calculateElapsedSteps rrd (rrd.lastUp + n) 0 n).postInt, rrd.stepsPassed (rrd.lastUp + n) - 1⟩
      (rrd.lastUp / rrd.pdpStep + 1) (xs.map (restPdpNew w n)) s₁ (rrd.lastUp + n) = (rrd₂, some (phase₂, s₂))) :
    HandsOutSeconds rrd n d D.dsDef rate secs fresh (rrd₂.setLastUp (rrd.lastUp + n) 0) [phase₁, phase₂] := by
  obtain ⟨hinside, hmany⟩ := @stepsPassed_cases rrd pos n
  have hsum := @stepsPassed_mul rrd n
  have hmod := Nat.mod_lt rrd.lastUp pos
  have hmod' := Nat.mod_lt (rrd.lastUp + n) pos
  have hle := Nat.mul_le_mul_right rrd.pdpStep (Nat.succ_le_of_lt many)
  have hfits : rrd.stepsPassed (rrd.lastUp + n) * rrd.pdpStep < 2 ^ 64 := fits_of_lt hsec
  have hsub : (rrd.stepsPassed (rrd.lastUp + n) - 1) * rrd.pdpStep =
      rrd.stepsPassed (rrd.lastUp + n) * rrd.pdpStep - rrd.pdpStep := by
    rw [Nat.sub_mul, Nat.one_mul]
  have hi : (0 : ℚ) < n := by exact_mod_cast hn
  have hwpos : (0 : ℚ) < w := by exact_mod_cast (by omega : 0 < w)
  have hrest : ((n : ℚ) - w) = (n - w : ℕ) := by rw [Nat.cast_sub (by omega)]
  have hrestpos : (0 : ℚ) < (n : ℚ) - w := by
    rw [hrest]
    exact_mod_cast (by omega : 0 < n - w)
  obtain ⟨hpre, hpost⟩ := @preInt_postInt_seconds _ n pos whole (n : ℚ) (by omega)
  obtain ⟨hx₁, hx₂⟩ := openPdpNew_amountOf hi rate (w := w)
  -- the step left open
  obtain ⟨D₁, t₁, hD₁, hdef₁, hnext₁, hpdps₁, hval₁⟩ := @closePdps_seconds _ _ ⟨w, w, 0, 1⟩ _ _ _ _ _ _ _ _
    _ _ 0 (by simpa using hlen) hdst hD (by rw [List.getElem?_map, hx, Option.map_some, hx₁]) hwpos (by simp) h₁
  obtain ⟨hstep₁, -, -, -⟩ := closePdps_frame h₁
  obtain ⟨hlen₁, -⟩ := closePdps_unknSecCnt (by simpa using hlen) h₁
  -- the steps after it
  obtain ⟨D₂, t₂, hD₂, hdef₂, hnext₂, hpdps₂, hval₂⟩ := closePdps_seconds
    (by rw [List.length_map, hlen, hlen₁]) (by rw [hdef₁]; exact hdst) hD₁
    (by rw [List.getElem?_map, hx, Option.map_some, hx₂]) hrestpos hpost h₂
  have ht₂ := hval₂ [] (n - (rrd.lastUp + n) % rrd.pdpStep - w) hnext₁ (by
    show (calculateElapsedSteps _ _ _ _).preInt - (w : ℚ) = _
    rw [hpre, ← Nat.cast_sub (by omega)]) (by omega) (by
      rw [hstep₁]
      show 0 + _ = _
      dsimp only
      omega) (by
      rw [hstep₁]
      dsimp only
      omega)
  rw [wholeSteps_value (by omega) (by
    intro hne
    rw [hdef₁]
    have : (n : ℚ) ≤ D.dsDef.mrhbCnt := by exact_mod_cast late hne
    dsimp only
    linarith)] at ht₂
  refine ⟨fun hlt => absurd (hinside.1 hlt) (by omega), fun _ => ⟨⟨D₂, hD₂, hdef₂.trans hdef₁, hnext₂⟩, t₁, ?_, fun hf => ?_⟩⟩
  · have hcat : pdpsOf d [phase₁, phase₂] = pdpsOf d [phase₁] ++ pdpsOf d [phase₂] := by
      simp [pdpsOf]
    rw [hcat, hpdps₁, hpdps₂, ht₂]
    rfl
  · have hlen' := hs hf
    have hne : secs ≠ [] := by
      rintro rfl
      rw [List.length_nil] at hlen'
      omega
    have hinterval : closingInterval rrd.pdpStep n (rrd.pdpStep - rrd.lastUp % rrd.pdpStep) secs = w := by
      rw [closingInterval, if_pos ⟨hmany.2 many, hne⟩, hw]
    rw [hinterval, ← hw]
    exact hval₁ secs w (hp hf) rfl (by omega) (by dsimp only; omega) (by dsimp only; omega)

/-- What one update hands out. -/
lemma applyPdpNew_seconds (pos : 0 < rrd.pdpStep) (whole : rrd.lastUpUsec = 0) (hsec : rrd.lastUp + n < 2 ^ 63)
    (hlen : xs.length = rrd.ds.length) (hD : rrd.ds[d]? = some D) (hdst : D.dsDef.dst ≠ .cdef) (hn : 0 < n)
    (small : rrd.stepsPassed (rrd.lastUp + n) < 2 ^ 31)
    (hx : xs[d]? = some (amountOf rate n)) (late : rate ≠ none → n ≤ D.dsDef.mrhbCnt)
    (hp : fresh → HoldsSeconds D.pdpPrep secs) (hs : fresh → secs.length = rrd.lastUp % rrd.pdpStep)
    (hfresh : rrd.lastUp % rrd.pdpStep = 0 → fresh)
    (h : applyPdpNew host rrd (rrd.lastUp + n) 0 xs = (rrd', some phases)) :
    HandsOutSeconds rrd n d D.dsDef rate secs fresh rrd' phases := by
  have hinterval := interval_of_whole whole n
  have hel := @calculateElapsedSteps_elapsed _ _ 0 (n : ℚ) pos small
  have hproc := @calculateElapsedSteps_procPdpCnt _ (rrd.lastUp + n) 0 (n : ℚ) pos
  have hmod := Nat.mod_lt rrd.lastUp pos
  have hopen := fun passed => @secOpenPdp_cases rrd (rrd.lastUp + n) 0 n pos whole passed
  have hcases := applyPdpNew_some h
  rw [hinterval] at hcases
  obtain ⟨h0, rfl, rfl⟩ | ⟨hpos, hns, rrd₁, phase, s, rfl, rfl, hc₁⟩ |
    ⟨⟨hsplit, hrest⟩, rrd₁, phase₁, s₁, rrd₂, phase₂, s₂, rfl, rfl, hc₁, hc₂⟩ := hcases
  · rw [hel] at h0
    have hlt := (@stepsPassed_cases rrd pos n).1.2 h0
    refine ⟨fun _ => ⟨rfl, ?_⟩, fun hge => absurd hlt (not_lt.2 hge)⟩
    rw [← hinterval]
    exact simpleUpdate_seconds whole hD hx hp
  · rw [hel] at hpos hns
    rw [hel, hproc] at hc₁
    refine onePass_seconds pos whole hsec hlen hD hdst hn hpos ?_ hx late hp hs hfresh hc₁
    by_contra hnot
    obtain ⟨hne, hne0⟩ := not_or.1 hnot
    exact hns ⟨by omega, by rw [hopen hpos, if_neg hne0]; omega⟩
  · rw [hel] at hsplit
    have hpos : 0 < rrd.stepsPassed (rrd.lastUp + n) := by omega
    rw [hopen hpos] at hrest
    have hne0 : rrd.lastUp % rrd.pdpStep ≠ 0 := by
      intro h0
      rw [if_pos h0] at hrest
      omega
    rw [hproc, hopen hpos, if_neg hne0] at hc₁
    rw [hel, hproc, hopen hpos, if_neg hne0] at hc₂
    exact split_seconds pos whole hsec hlen hD hdst hn hsplit (by omega) rfl hx late hp hs hc₁ hc₂

end OneUpdate

/-! ### Files that have reached a boundary -/

/-- A step begins empty. -/
def FreshAtBoundary (rrd : Rrd) : Prop :=
  rrd.lastUpUsec = 0 → rrd.lastUp % rrd.pdpStep = 0 → ∀ (d : ℕ) (D : DataSource), rrd.ds[d]? = some D →
    D.dsDef.dst ≠ .cdef → HoldsSeconds D.pdpPrep []

lemma mul_fin_zero (x : RrdValue) : x * .fin 0 = .nan ∨ x * .fin 0 = .fin 0 := by
  cases x with
  | nan => exact .inl rfl
  | pinf => exact .inl (by decide)
  | ninf => exact .inl (by decide)
  | fin q => exact .inr (by simp)

lemma closePdps_boundary {host rrd} {pass : PdpPass} {p xs s time rrd' phase s'} (hlen : xs.length = rrd.ds.length)
    (hpost : pass.postInt = 0) (h : closePdps host rrd pass p xs s time = (rrd', some (phase, s'))) {d : ℕ}
    {D' : DataSource} (hD' : rrd'.ds[d]? = some D') (hdst : D'.dsDef.dst ≠ .cdef) : HoldsSeconds D'.pdpPrep [] := by
  obtain ⟨hlen', -⟩ := closePdps_unknSecCnt hlen h
  have hlt : d < rrd.ds.length := by
    rw [← hlen']
    exact (List.getElem?_eq_some_iff.1 hD').1
  obtain ⟨D₁, t, temps, hD₁, hdef, -, hproc⟩ := closePdps_ds hlen (List.getElem?_eq_getElem hlt)
    (List.getElem?_eq_getElem (by omega)) h
  obtain rfl := Option.some.inj (hD'.symm.trans hD₁)
  rw [hdef] at hdst
  simp only [processPdpSt, if_neg hdst] at hproc
  obtain ⟨hprep, -⟩ := Prod.mk.inj hproc
  rw [← hprep]
  split
  · exact ⟨by simp [hpost], .inl ⟨rfl, rfl⟩⟩
  · refine ⟨rfl, ?_⟩
    rw [hpost]
    exact (mul_fin_zero _).imp (fun hnan => ⟨hnan, rfl⟩) id

/-- An update that ends on a boundary leaves an empty step. -/
lemma processArg_fresh {host tmpl rrd input rrd' acc} (inv : rrd.Inv) (small : rrd.stepsPassed acc.sec < 2 ^ 31)
    (h : processArg host tmpl rrd input = (rrd', .ok acc)) : FreshAtBoundary rrd' := by
  obtain ⟨atStyle, time, ds, xs, hparse, htime, hprep, happly, -, -⟩ := processArg_ok h
  obtain ⟨-, -, hlater⟩ := getTimeFromReading_ok htime
  obtain ⟨hxs, -, hds⟩ := updatePdpPrep_ok hprep (parseDs_length hparse)
  have hlen : xs.length = ds.length := by rw [hxs, hds]
  have hel := @calculateElapsedSteps_elapsed { rrd with ds := ds } _ acc.usec (rrd.interval acc.sec acc.usec)
    inv.pdpStep_pos small
  intro husec hmod d D' hD' hdst
  -- the boundary has just been passed
  have hpassed : acc.usec = 0 → acc.sec % rrd.pdpStep = 0 → 0 < rrd.stepsPassed acc.sec := by
    intro husec hmod
    have hold := Nat.div_add_mod rrd.lastUp rrd.pdpStep
    have hnew := Nat.div_add_mod acc.sec rrd.pdpStep
    refine Nat.sub_pos_of_lt (lt_of_not_ge fun hge => ?_)
    have := Nat.mul_le_mul_left rrd.pdpStep hge
    omega
  have hpost : acc.usec = 0 → acc.sec % rrd.pdpStep = 0 →
      (calculateElapsedSteps { rrd with ds := ds } acc.sec acc.usec (rrd.interval acc.sec acc.usec)).postInt = 0 := by
    intro husec hmod
    obtain ⟨-, hpost⟩ := @calculateElapsedSteps_split { rrd with ds := ds } _ acc.usec
      (rrd.interval acc.sec acc.usec) inv.pdpStep_pos (hpassed husec hmod)
    rw [hpost, husec]
    simp [hmod]
  obtain ⟨h0, -, rfl⟩ | ⟨-, -, rrd₁, phase, s, -, rfl, hc⟩ |
    ⟨-, rrd₁, phase₁, s₁, rrd₂, phase₂, s₂, -, rfl, hc₁, hc₂⟩ := applyPdpNew_some happly
  · exact absurd (hel.symm.trans h0) (hpassed husec hmod).ne'
  · obtain ⟨hstep, -⟩ := closePdps_frame hc
    have hmod' : acc.sec % rrd.pdpStep = 0 := by
      have : acc.sec % rrd₁.pdpStep = 0 := hmod
      rwa [hstep] at this
    exact closePdps_boundary hlen (hpost husec hmod') hc hD' hdst
  · obtain ⟨hstep₁, -⟩ := closePdps_frame hc₁
    obtain ⟨hstep₂, -⟩ := closePdps_frame hc₂
    obtain ⟨hlen₁, -⟩ := closePdps_unknSecCnt (by simpa using hlen) hc₁
    have hmod' : acc.sec % rrd.pdpStep = 0 := by
      have : acc.sec % rrd₂.pdpStep = 0 := hmod
      rwa [hstep₂, hstep₁] at this
    exact closePdps_boundary (by rw [List.length_map, hlen]; exact hlen₁.symm) (hpost husec hmod') hc₂ hD' hdst

lemma init_fresh (h : Header) (random : ℕ → ℕ) : FreshAtBoundary (rrdInitData h random) := by
  intro _ hmod d D hD _
  have hD : (h.ds.map fun dd => (⟨dd, resetPdpPrep h.lastUp h.pdpStep⟩ : DataSource))[d]? = some D := hD
  rw [List.getElem?_map, Option.map_eq_some_iff] at hD
  obtain ⟨dd, -, rfl⟩ := hD
  exact ⟨hmod, .inl ⟨rfl, rfl⟩⟩

/-- The database is the result of a run whose updates close step counts that fit an `int`. -/
def Db.Reachable (db : Db) : Prop :=
  ∃ (h : Header) (random : ℕ → ℕ) (ops : List Op), Db.run ⟨rrdInitData h random, []⟩ ops = some db ∧
    Run.Always Db.step (fun db op => Op.fits db op) ⟨rrdInitData h random, []⟩ ops

lemma Db.Reachable.fresh {db : Db} (hr : db.Reachable) : db.rrd.Inv ∧ FreshAtBoundary db.rrd := by
  obtain ⟨h, random, ops, hrun, hok⟩ := hr
  have hstep : ∀ (db : Db) (op : Op) (db' : Db), Db.Inv h db ∧ FreshAtBoundary db.rrd → op.fits db →
      db.step op = some db' → Db.Inv h db' ∧ FreshAtBoundary db'.rrd := by
    rintro db op db' ⟨inv, fresh⟩ fits hstep
    refine ⟨step_inv db op db' inv fits hstep, ?_⟩
    cases op with
    | arg host tmpl input =>
      simp only [Db.step] at hstep
      split at hstep
      · cases hstep
      · rename_i rrd' acc hp
        cases hstep
        exact processArg_fresh inv.inv (fits _ (argTime_of_ok hp)) hp
    | smooth =>
      cases hstep
      exact fresh
  obtain ⟨inv, fresh⟩ := Run.run_inv_of (fun db => Db.Inv h db ∧ FreshAtBoundary db.rrd) hstep hrun hok
    ⟨init_inv h random, init_fresh h random⟩
  exact ⟨inv.inv, fresh⟩

/-! ### Deliveries -/

/-- The accepted argument brings data source `d` the seconds of `c`. -/
structure Brings (d : ℕ) (rrd : Rrd) (acc : Accepted) (c : Chunk) : Prop where
  whole : acc.usec = 0
  sec : acc.sec = rrd.lastUp + c.2
  fits : rrd.stepsPassed acc.sec < 2 ^ 31
  amount : ∃ ds xs, updatePdpPrep (rrd.interval acc.sec acc.usec) rrd.ds acc.updvals = (ds, .ok xs) ∧
    xs[d]? = some (amountOf c.1 c.2)

/-- Updates at whole seconds, with the seconds they bring data source `d`; the archives may be smoothed in between. -/
inductive Deliveries (d : ℕ) (rrd : Rrd) : List Chunk → Rrd → Prop
  | nil : Deliveries d rrd [] rrd
  | smooth {cs rrd₁} : Deliveries d rrd cs rrd₁ → Deliveries d rrd cs (smoothAllRras rrd₁)
  | snoc {cs rrd₁ host tmpl input acc rrd₂ c} : Deliveries d rrd cs rrd₁ →
      processArg host tmpl rrd₁ input = (rrd₂, .ok acc) → Brings d rrd₁ acc c → Deliveries d rrd (cs ++ [c]) rrd₂

/-- A known rate comes from a reading within the heartbeat. -/
lemma updatePdpPrepDs_late {d : DsDef} {p p' : PdpPrep} {updval : Text} {interval : ℚ} {x : RrdValue}
    (late : (d.mrhbCnt : ℚ) < interval) (h : updatePdpPrepDs d p updval interval = (p', .ok x)) : x = .nan := by
  unfold updatePdpPrepDs at h
  rw [if_neg fun hc => absurd hc.2.2 (not_le.2 late)] at h
  obtain ⟨-, hx⟩ := Prod.mk.inj h
  exact (Except.ok.inj hx).symm

/-- What one accepted argument hands out. -/
lemma processArg_seconds {host tmpl input} {rrd rrd' : Rrd} {acc : Accepted} {d : ℕ} {D : DataSource} {c : Chunk}
    {secs : List (Option ℚ)} {fresh : Prop} (inv : rrd.Inv) (whole : rrd.lastUpUsec = 0) (hD : rrd.ds[d]? = some D)
    (hdst : D.dsDef.dst ≠ .cdef) (h : processArg host tmpl rrd input = (rrd', .ok acc)) (hb : Brings d rrd acc c)
    (hp : fresh → HoldsSeconds D.pdpPrep secs) (hs : fresh → secs.length = rrd.lastUp % rrd.pdpStep)
    (hfresh : rrd.lastUp % rrd.pdpStep = 0 → fresh) :
    HandsOutSeconds rrd c.2 d D.dsDef c.1 secs fresh rrd' acc.phases ∧ (c.1 ≠ none → c.2 ≤ D.dsDef.mrhbCnt) := by
  obtain ⟨atStyle, time, ds, xs, hparse, htime, hprep, happly, -, -⟩ := processArg_ok h
  obtain ⟨hsec, -, hlater⟩ := getTimeFromReading_ok htime
  have hlen := parseDs_length hparse
  obtain ⟨hxs, hall, hds⟩ := updatePdpPrep_ok hprep hlen
  obtain ⟨ds', xs', hprep', hx⟩ := hb.amount
  obtain ⟨rfl, hok⟩ := Prod.mk.inj (hprep.symm.trans hprep')
  obtain rfl := Except.ok.inj hok
  have hd : d < acc.updvals.length := by
    rw [hlen]
    exact (List.getElem?_eq_some_iff.1 hD).1
  have hz : (rrd.ds.zip acc.updvals)[d]? = some (D, acc.updvals[d]) :=
    List.getElem?_zip_eq_some.2 ⟨hD, List.getElem?_eq_getElem hd⟩
  obtain ⟨⟨D', x⟩, hget, hdef, hupd⟩ := Pointwise.getElem?_left hall hz
  obtain ⟨hD', hx'⟩ := List.getElem?_zip_eq_some.1 hget
  obtain rfl := Option.some.inj (hx'.symm.trans hx)
  have hkeep := updatePdpPrepDs_keeps D.dsDef D.pdpPrep acc.updvals[d] (rrd.interval acc.sec acc.usec)
  rw [hupd] at hkeep
  have hholds : fresh → HoldsSeconds D'.pdpPrep secs := by
    intro hf
    have := hp hf
    exact ⟨hkeep.1.trans this.unknSecCnt, by rw [show D'.pdpPrep.val = D.pdpPrep.val from hkeep.2]; exact this.val⟩
  have hinterval : rrd.interval acc.sec acc.usec = c.2 := by
    rw [hb.sec, hb.whole]
    exact interval_of_whole whole c.2
  have hlate : c.1 ≠ none → c.2 ≤ D'.dsDef.mrhbCnt := by
    intro hne
    by_contra hlt
    have hnan := updatePdpPrepDs_late (by rw [hinterval]; rw [hdef] at hlt; exact_mod_cast not_le.1 hlt) hupd
    obtain ⟨r, hr⟩ := Option.ne_none_iff_exists'.1 hne
    rw [hr] at hnan
    cases hnan
  rw [hb.sec, hb.whole] at happly
  have hn : 0 < c.2 := by
    have := hb.sec
    have := hb.whole
    omega
  rw [show D.dsDef = D'.dsDef from hdef.symm]
  have hout := @applyPdpNew_seconds host { rrd with ds := ds } rrd' c.2 d xs acc.phases D' c.1 secs fresh
    inv.pdpStep_pos whole (by rw [← hb.sec]; exact hsec) (by rw [hxs, hds]) hD' (by rw [hdef]; exact hdst) hn
    (by rw [← hb.sec]; exact hb.fits) hx hlate hholds hs hfresh happly
  exact ⟨⟨hout.inside, hout.closes⟩, hlate⟩

/-- What is known after some deliveries: the seconds of the open step, if it began with them or later. -/
structure Delivered (d : ℕ) (rrd : Rrd) (dd : DsDef) (cs : List Chunk) (rrd₁ : Rrd) : Prop where
  inv : rrd₁.Inv
  whole : rrd₁.lastUpUsec = 0
  pdpStep : rrd₁.pdpStep = rrd.pdpStep
  lastUp : rrd₁.lastUp = rrd.lastUp + (expand cs).length
  ds : ∃ D : DataSource, rrd₁.ds[d]? = some D ∧ D.dsDef = dd ∧
    (rrd.lastUp ≤ rrd.pdpStep * (rrd₁.lastUp / rrd.pdpStep) →
      HoldsSeconds D.pdpPrep ((expand cs).drop (rrd.pdpStep * (rrd₁.lastUp / rrd.pdpStep) - rrd.lastUp)))

/-- The seconds of the open step, counted. -/
lemma Delivered.length_drop {d rrd dd cs rrd₁} (h : Delivered d rrd dd cs rrd₁)
    (hstart : rrd.lastUp ≤ rrd.pdpStep * (rrd₁.lastUp / rrd.pdpStep)) :
    ((expand cs).drop (rrd.pdpStep * (rrd₁.lastUp / rrd.pdpStep) - rrd.lastUp)).length = rrd₁.lastUp % rrd.pdpStep := by
  have hlast := h.lastUp
  have hdiv := Nat.div_add_mod rrd₁.lastUp rrd.pdpStep
  rw [List.length_drop]
  omega

/-- A boundary lies in the run if the update before it does. -/
lemma Delivered.of_mod_eq_zero {d rrd dd cs rrd₁} (h : Delivered d rrd dd cs rrd₁)
    (hmod : rrd₁.lastUp % rrd₁.pdpStep = 0) : rrd.lastUp ≤ rrd.pdpStep * (rrd₁.lastUp / rrd.pdpStep) := by
  have hlast := h.lastUp
  have hdiv := Nat.div_add_mod rrd₁.lastUp rrd.pdpStep
  rw [h.pdpStep] at hmod
  omega

lemma Delivered.snoc {d rrd dd cs rrd₁ host tmpl input acc rrd₂ c} (h : Delivered d rrd dd cs rrd₁)
    (hdst : dd.dst ≠ .cdef) (hp : processArg host tmpl rrd₁ input = (rrd₂, .ok acc)) (hb : Brings d rrd₁ acc c) :
    Delivered d rrd dd (cs ++ [c]) rrd₂ := by
  obtain ⟨D, hD, rfl, hholds⟩ := h.ds
  obtain ⟨hu, -⟩ := processArg_inv h.inv (by
    intro t ht
    obtain rfl := Option.some.inj (ht.symm.trans (argTime_of_ok hp))
    exact hb.fits) hp
  obtain ⟨hout, -⟩ := processArg_seconds h.inv h.whole hD hdst hp hb hholds
    (by rw [h.pdpStep]; exact h.length_drop) h.of_mod_eq_zero
  have hlast := h.lastUp
  have hlast₂ : rrd₂.lastUp = rrd₁.lastUp + c.2 := hu.lastUp.trans hb.sec
  have hstep := hu.pdpStep.trans h.pdpStep
  have pos : 0 < rrd.pdpStep := by
    rw [← h.pdpStep]
    exact h.inv.pdpStep_pos
  have hexpand : expand (cs ++ [c]) = expand cs ++ List.replicate c.2 c.1 := by simp
  have hdiv := Nat.div_add_mod rrd₁.lastUp rrd.pdpStep
  have hdiv₂ := Nat.div_add_mod rrd₂.lastUp rrd.pdpStep
  have hmod := Nat.mod_lt rrd₁.lastUp pos
  have hmod₂ := Nat.mod_lt rrd₂.lastUp pos
  refine ⟨hu.inv, hu.lastUpUsec.trans hb.whole, hstep, ?_, ?_⟩
  · rw [hexpand, List.length_append, List.length_replicate, hlast₂, hlast, Nat.add_assoc]
  · obtain hlt | hge := lt_or_ge c.2 (rrd₁.pdpStep - rrd₁.lastUp % rrd₁.pdpStep)
    · obtain ⟨-, D', hD', hdef, hnext⟩ := hout.inside hlt
      rw [h.pdpStep] at hlt
      refine ⟨D', hD', hdef, ?_⟩
      have hsame : rrd₂.lastUp / rrd.pdpStep = rrd₁.lastUp / rrd.pdpStep := by
        rw [hlast₂]
        refine Nat.div_eq_of_lt_le ?_ ?_
        · rw [Nat.mul_comm]
          omega
        · rw [Nat.mul_comm, Nat.mul_succ]
          omega
      rw [hsame, hexpand]
      intro hstart
      rw [List.drop_append_of_le_length (by omega)]
      exact hnext hstart
    · obtain ⟨⟨D', hD', hdef, hnext⟩, -⟩ := hout.closes hge
      refine ⟨D', hD', hdef, fun _ => ?_⟩
      rw [h.pdpStep] at hge hnext
      have hboundary : rrd₁.lastUp ≤ rrd.pdpStep * (rrd₂.lastUp / rrd.pdpStep) := by
        have hlt : rrd₁.lastUp / rrd.pdpStep + 1 ≤ rrd₂.lastUp / rrd.pdpStep := by
          rw [Nat.le_div_iff_mul_le pos, Nat.mul_comm, Nat.mul_succ]
          omega
        have := Nat.mul_le_mul_left rrd.pdpStep hlt
        rw [Nat.mul_succ] at this
        omega
      rw [hexpand, List.drop_append, List.drop_eq_nil_of_le (by omega), List.nil_append, List.drop_replicate]
      rw [← hlast₂] at hnext
      rwa [show c.2 - (rrd.pdpStep * (rrd₂.lastUp / rrd.pdpStep) - rrd.lastUp - (expand cs).length) =
        rrd₂.lastUp % rrd.pdpStep by omega]

lemma Deliveries.delivered {d rrd dd cs rrd₁} {D : DataSource} (inv : rrd.Inv) (whole : rrd.lastUpUsec = 0)
    (fresh : FreshAtBoundary rrd) (hD : rrd.ds[d]? = some D) (hdef : D.dsDef = dd) (hdst : dd.dst ≠ .cdef)
    (h : Deliveries d rrd cs rrd₁) : Delivered d rrd dd cs rrd₁ := by
  induction h with
  | nil =>
    refine ⟨inv, whole, rfl, rfl, D, hD, hdef, fun hstart => ?_⟩
    have hdiv := Nat.div_add_mod rrd.lastUp rrd.pdpStep
    rw [expand_nil, List.drop_nil]
    exact fresh whole (by omega) d D hD (by rw [hdef]; exact hdst)
  | smooth _ ih => exact ⟨smoothAllRras_inv ih.inv, ih.whole, ih.pdpStep, ih.lastUp, ih.ds⟩
  | snoc _ hp hb ih => exact ih.snoc hdst hp hb

/-! ### The value of a step -/

/-- The seconds of step `k` among those that `cs` brings. -/
def Rrd.secondsOfStep (rrd : Rrd) (k : ℕ) (cs : List Chunk) : List (Option ℚ) :=
  ((expand cs).drop (rrd.pdpStep * k - rrd.lastUp)).take rrd.pdpStep

/-- Updates at whole seconds that cover step `k`: `cs`, and `c` which closes it. The primary data point of the step
gets the value `v`. -/
structure Covers (d k : ℕ) (rrd : Rrd) (dd : DsDef) (cs : List Chunk) (c : Chunk) (v : RrdValue) : Prop where
  reachable : ∃ db : Db, db.Reachable ∧ db.rrd = rrd
  whole : rrd.lastUpUsec = 0
  source : ∃ D : DataSource, rrd.ds[d]? = some D ∧ D.dsDef = dd
  rate : dd.dst ≠ .cdef
  start : rrd.lastUp ≤ rrd.pdpStep * k
  run : ∃ rrd₁ host tmpl input rrd₂ acc, Deliveries d rrd cs rrd₁ ∧
    processArg host tmpl rrd₁ input = (rrd₂, .ok acc) ∧ Brings d rrd₁ acc c ∧
    rrd₁.lastUp < rrd.pdpStep * (k + 1) ∧ rrd.pdpStep * (k + 1) ≤ acc.sec ∧ (k, some v) ∈ pdpsOf d acc.phases

/-- The update `c` closes the step that has the seconds `secs` so far, and the test of `process_pdp_st` finds too much
unknown time exactly if more than half of the step is unknown; or all of it is. -/
def ClosesRightly (pdpStep mrhbCnt : ℕ) (secs : List (Option ℚ)) (c : Chunk) : Prop :=
  let w := pdpStep - secs.length
  let step := secs ++ List.replicate w c.1
  (dumped pdpStep mrhbCnt (closingInterval pdpStep c.2 w secs) secs ↔ (pdpStep : ℚ) / 2 < step.count none) ∨
    step.count none = pdpStep

lemma averageKnown_eq_nan_iff (secs : List (Option ℚ)) : averageKnown secs = .nan ↔ secs.count none = secs.length := by
  rw [← reduceOption_eq_nil_iff_count, averageKnown]
  split
  · rename_i hnil
    exact iff_of_true rfl hnil
  · rename_i hne
    exact iff_of_false nofun hne

/-- The test decides as the seconds do, or it does not matter. -/
lemma ite_eq_pdpOfSeconds_iff {p : Prop} [Decidable p] (step : List (Option ℚ)) :
    (if p then ExtNum.nan else averageKnown step) = pdpOfSeconds step ↔
      (p ↔ (step.length : ℚ) / 2 < step.count none) ∨ step.count none = step.length := by
  rw [pdpOfSeconds, ← averageKnown_eq_nan_iff]
  by_cases hp : p
  · by_cases hhalf : (step.length : ℚ) / 2 < step.count none
    · rw [if_pos hp, if_pos hhalf]
      exact iff_of_true rfl (.inl (iff_of_true hp hhalf))
    · rw [if_pos hp, if_neg hhalf]
      exact ⟨fun h => .inr h.symm, fun h => (h.resolve_left fun hiff => hhalf (hiff.1 hp)).symm⟩
  · by_cases hhalf : (step.length : ℚ) / 2 < step.count none
    · rw [if_neg hp, if_pos hhalf]
      exact ⟨.inr, fun h => h.resolve_left fun hiff => hp (hiff.2 hhalf)⟩
    · rw [if_neg hp, if_neg hhalf]
      exact iff_of_true rfl (.inl (iff_of_false hp hhalf))

/-- The value of a step is that of its seconds exactly if the closing update closes it rightly. -/
lemma covered_iff {d k rrd dd cs c v} (h : Covers d k rrd dd cs c v) :
    v = pdpOfSeconds (rrd.secondsOfStep k (cs ++ [c])) ↔
      ClosesRightly rrd.pdpStep dd.mrhbCnt (rrd.secondsOfStep k cs) c := by
  obtain ⟨db, hreach, rfl⟩ := h.reachable
  obtain ⟨inv, fresh⟩ := hreach.fresh
  obtain ⟨D₀, hD₀, hdef₀⟩ := h.source
  obtain ⟨rrd₁, host, tmpl, input, rrd₂, acc, hdel, hp, hb, hbefore, hclose, hmem⟩ := h.run
  have hdone := hdel.delivered inv h.whole fresh hD₀ hdef₀ h.rate
  obtain ⟨D, hD, rfl, hholds⟩ := hdone.ds
  obtain ⟨hout, late⟩ := processArg_seconds hdone.inv hdone.whole hD h.rate hp hb hholds
    (by rw [hdone.pdpStep]; exact hdone.length_drop) hdone.of_mod_eq_zero
  obtain ⟨hlast, hstep⟩ := And.intro hdone.lastUp hdone.pdpStep
  have pos := inv.pdpStep_pos
  have hdiv := Nat.div_add_mod rrd₁.lastUp db.rrd.pdpStep
  have hmod := Nat.mod_lt rrd₁.lastUp pos
  have hsec := hb.sec
  have hk : rrd₁.lastUp / db.rrd.pdpStep ≤ k := Nat.le_of_lt_succ ((Nat.div_lt_iff_lt_mul pos).2 (by
    rw [Nat.mul_comm]
    exact hbefore))
  have hmul := Nat.mul_le_mul_left db.rrd.pdpStep hk
  rw [Nat.mul_succ] at hbefore hclose
  have hexpand : expand (cs ++ [c]) = expand cs ++ List.replicate c.2 c.1 := by simp
  obtain ⟨-, t, hpdps, hval⟩ := hout.closes (by rw [hstep]; omega)
  rw [hstep] at hpdps hval
  rw [hpdps] at hmem
  simp only [Rrd.secondsOfStep, hexpand]
  obtain hfirst | hrest := List.mem_cons.1 hmem
  · -- the step was open before
    obtain ⟨rfl, hv⟩ := Prod.mk.inj hfirst
    obtain rfl := Option.some.inj hv
    have hlen := hdone.length_drop h.start
    have hdrop := @List.length_drop _ (db.rrd.pdpStep * (rrd₁.lastUp / db.rrd.pdpStep) - db.rrd.lastUp) (expand cs)
    have hcat := @List.drop_append_of_le_length _ (expand cs) (List.replicate c.2 c.1)
      (db.rrd.pdpStep * (rrd₁.lastUp / db.rrd.pdpStep) - db.rrd.lastUp) (by omega)
    rw [hval h.start, hcat]
    generalize (expand cs).drop (db.rrd.pdpStep * (rrd₁.lastUp / db.rrd.pdpStep) - db.rrd.lastUp) = secs at *
    have hfill : (secs ++ List.replicate c.2 c.1).take db.rrd.pdpStep =
        secs ++ List.replicate (db.rrd.pdpStep - secs.length) c.1 := by
      rw [List.take_append, List.take_of_length_le (by omega), List.take_replicate, Nat.min_eq_left (by omega)]
    rw [hfill, List.take_of_length_le (by omega), ← hlen, ite_eq_pdpOfSeconds_iff, List.length_append,
      List.length_replicate, Nat.add_sub_cancel' (by omega)]
    rfl
  · -- the step lies within the update
    obtain ⟨j, hj, hjk⟩ := List.mem_map.1 hrest
    obtain ⟨rfl, hv⟩ := Prod.mk.inj hjk
    obtain rfl := Option.some.inj hv
    have hlater := Nat.mul_le_mul_left db.rrd.pdpStep (List.mem_range'_1.1 hj).1
    rw [Nat.mul_succ] at hlater
    have hfill : ((expand cs ++ List.replicate c.2 c.1).drop (db.rrd.pdpStep * j - db.rrd.lastUp)).take db.rrd.pdpStep =
        List.replicate db.rrd.pdpStep c.1 := by
      rw [List.drop_append, List.drop_eq_nil_of_le (by omega), List.nil_append, List.drop_replicate, List.take_replicate,
        Nat.min_eq_left (by omega)]
    have hinterval : closingInterval db.rrd.pdpStep c.2 (db.rrd.pdpStep - 0) [] = c.2 := if_neg fun hc => hc.2 rfl
    have hwhole := @wholeSteps_value db.rrd.pdpStep D.dsDef.mrhbCnt db.rrd.pdpStep
      (closingInterval db.rrd.pdpStep c.2 (db.rrd.pdpStep - 0) [] : ℚ) c.1 pos (by
        intro hne
        rw [hinterval]
        exact_mod_cast late hne)
    rw [hfill, List.drop_eq_nil_of_le (by omega), List.take_nil, ← hwhole, List.nil_append, ite_eq_pdpOfSeconds_iff,
      List.length_replicate]
    rfl

/-- Two deliveries of the same seconds give the step the same value, which is that of its seconds, under exactly
this condition. -/
theorem deliveries_agree_iff (d k : ℕ) (rrd rrd' : Rrd) (dd : DsDef) (cs cs' : List Chunk) (c c' : Chunk)
    (v v' : RrdValue) (h : Covers d k rrd dd cs c v) (h' : Covers d k rrd' dd cs' c' v')
    (hstep : rrd'.pdpStep = rrd.pdpStep)
    (hsame : rrd'.secondsOfStep k (cs' ++ [c']) = rrd.secondsOfStep k (cs ++ [c])) :
    v = v' ∧ v = pdpOfSeconds (rrd.secondsOfStep k (cs ++ [c])) ↔
      ClosesRightly rrd.pdpStep dd.mrhbCnt (rrd.secondsOfStep k cs) c ∧
        ClosesRightly rrd.pdpStep dd.mrhbCnt (rrd'.secondsOfStep k cs') c' := by
  have hone := covered_iff h
  have hother := covered_iff h'
  rw [hsame, hstep] at hother
  rw [← hone, ← hother]
  constructor
  · rintro ⟨rfl, hv⟩
    exact ⟨hv, hv⟩
  · rintro ⟨hv, hv'⟩
    exact ⟨hv.trans hv'.symm, hv⟩

instance (d : ℕ) (rrd : Rrd) (acc : Accepted) (c : Chunk) : Decidable (Brings d rrd acc c) :=
  decidable_of_iff (acc.usec = 0 ∧ acc.sec = rrd.lastUp + c.2 ∧ rrd.stepsPassed acc.sec < 2 ^ 31 ∧
    (updatePdpPrep (rrd.interval acc.sec acc.usec) rrd.ds acc.updvals).2.toOption.bind (·[d]?) =
      some (amountOf c.1 c.2)) (by
    refine ⟨fun ⟨whole, sec, fits, hx⟩ => ⟨whole, sec, fits, ?_⟩, fun ⟨whole, sec, fits, ds, xs, h, hx⟩ =>
      ⟨whole, sec, fits, by rw [h]; exact hx⟩⟩
    cases h : updatePdpPrep (rrd.interval acc.sec acc.usec) rrd.ds acc.updvals with
    | mk ds r =>
      rw [h] at hx
      cases r with
      | error e => cases hx
      | ok xs => exact ⟨ds, xs, rfl, hx⟩)

/-- The argument is accepted and brings the seconds of `c`, and what it leads to passes `p`. -/
def deliversThen (d : ℕ) (rrd : Rrd) (input : Text) (c : Chunk) (p : Rrd → Accepted → Bool) : Bool :=
  match processArg .idle [d] rrd input with
  | (rrd', .ok acc) => decide (Brings d rrd acc c) && p rrd' acc
  | _ => false

lemma deliversThen_iff {d rrd input c p} : deliversThen d rrd input c p = true ↔
    ∃ rrd' acc, processArg .idle [d] rrd input = (rrd', .ok acc) ∧ Brings d rrd acc c ∧ p rrd' acc = true := by
  rw [deliversThen]
  split
  · rename_i rrd' acc hp
    rw [Bool.and_eq_true, decide_eq_true_iff]
    constructor
    · rintro ⟨hb, h⟩
      exact ⟨rrd', acc, hp, hb, h⟩
    · rintro ⟨rrd₁, acc₁, h₁, hb, h⟩
      obtain ⟨rfl, hacc⟩ := Prod.mk.inj (hp.symm.trans h₁)
      obtain rfl := Except.ok.inj hacc
      exact ⟨hb, h⟩
  · rename_i hno
    refine iff_of_false nofun ?_
    rintro ⟨rrd', acc, h, -⟩
    exact hno rrd' acc h

/-- A `GAUGE` with steps of five minutes, just created. -/
abbrev fiveMinutes : Rrd := rrdInitData (gaugeHeader 300 600 fiveMinutes_pos) fun _ => 0

example : pdpOfSeconds [some 1, some 3] = .fin 2 := by decide +kernel

/-- A rate for 100 seconds, and one unknown reading for the other 200. -/
lemma covers_at_once : Covers 0 4 fiveMinutes (gaugeDs ['a'] 600) [(some 1, 200), (some 2, 100)] (none, 200) (.fin 2) := by
  have hrun : deliversThen 0 fiveMinutes "1200:1".toList (some 1, 200) (fun rrd₁ _ =>
      deliversThen 0 rrd₁ "1300:2".toList (some 2, 100) fun rrd₂ _ =>
        deliversThen 0 rrd₂ "1500:U".toList (none, 200) fun _ acc =>
          decide (rrd₂.lastUp < 1500 ∧ 1500 ≤ acc.sec ∧ (4, some (.fin 2)) ∈ pdpsOf 0 acc.phases)) = true := by
    decide +kernel
  obtain ⟨rrd₁, acc₁, hp₁, hb₁, hrun⟩ := deliversThen_iff.1 hrun
  obtain ⟨rrd₂, acc₂, hp₂, hb₂, hrun⟩ := deliversThen_iff.1 hrun
  obtain ⟨rrd₃, acc₃, hp₃, hb₃, hrun⟩ := deliversThen_iff.1 hrun
  obtain ⟨hbefore, hclose, hmem⟩ := of_decide_eq_true hrun
  exact ⟨⟨_, ⟨_, _, [], rfl, trivial⟩, rfl⟩, rfl, ⟨_, rfl, rfl⟩, by decide, by decide,
    rrd₂, _, _, _, rrd₃, acc₃, .snoc (.snoc .nil hp₁ hb₁) hp₂ hb₂, hp₃, hb₃, hbefore, hclose, hmem⟩

/-- The same seconds, the unknown ones as 199 and one. -/
lemma covers_in_two : Covers 0 4 fiveMinutes (gaugeDs ['a'] 600) [(some 1, 200), (some 2, 100), (none, 199)] (none, 1)
    .nan := by
  have hrun : deliversThen 0 fiveMinutes "1200:1".toList (some 1, 200) (fun rrd₁ _ =>
      deliversThen 0 rrd₁ "1300:2".toList (some 2, 100) fun rrd₂ _ =>
        deliversThen 0 rrd₂ "1499:U".toList (none, 199) fun rrd₃ _ =>
          deliversThen 0 rrd₃ "1500:U".toList (none, 1) fun _ acc =>
            decide (rrd₃.lastUp < 1500 ∧ 1500 ≤ acc.sec ∧ (4, some .nan) ∈ pdpsOf 0 acc.phases)) = true := by
    decide +kernel
  obtain ⟨rrd₁, acc₁, hp₁, hb₁, hrun⟩ := deliversThen_iff.1 hrun
  obtain ⟨rrd₂, acc₂, hp₂, hb₂, hrun⟩ := deliversThen_iff.1 hrun
  obtain ⟨rrd₃, acc₃, hp₃, hb₃, hrun⟩ := deliversThen_iff.1 hrun
  obtain ⟨rrd₄, acc₄, hp₄, hb₄, hrun⟩ := deliversThen_iff.1 hrun
  obtain ⟨hbefore, hclose, hmem⟩ := of_decide_eq_true hrun
  exact ⟨⟨_, ⟨_, _, [], rfl, trivial⟩, rfl⟩, rfl, ⟨_, rfl, rfl⟩, by decide, by decide,
    rrd₃, _, _, _, rrd₄, acc₄, .snoc (.snoc (.snoc .nil hp₁ hb₁) hp₂ hb₂) hp₃ hb₃, hp₄, hb₄, hbefore, hclose, hmem⟩

example : pdpOfSeconds [some 2, some 2, some 2, none] = .fin 2 := by decide +kernel

theorem deliveries_agree_iff_five_minutes :
    ((.fin 2 : RrdValue) = .nan ∧ .fin 2 =
        pdpOfSeconds (fiveMinutes.secondsOfStep 4 ([(some 1, 200), (some 2, 100)] ++ [(none, 200)]))) ↔
      ClosesRightly 300 600 (fiveMinutes.secondsOfStep 4 [(some 1, 200), (some 2, 100)]) (none, 200) ∧
        ClosesRightly 300 600 (fiveMinutes.secondsOfStep 4 [(some 1, 200), (some 2, 100), (none, 199)]) (none, 1) :=
  deliveries_agree_iff 0 4 fiveMinutes fiveMinutes (gaugeDs ['a'] 600) _ _ _ _ _ _ covers_at_once covers_in_two rfl
    (by decide +kernel)

/-- With 200 of 300 seconds unknown the step is unknown if they come in two updates, and has a value if they come in
one. -/
theorem deliveries_disagree :
    ∃ cs c cs' c', Covers 0 4 fiveMinutes (gaugeDs ['a'] 600) cs c (.fin 2) ∧
      Covers 0 4 fiveMinutes (gaugeDs ['a'] 600) cs' c' .nan ∧
      fiveMinutes.secondsOfStep 4 (cs' ++ [c']) = fiveMinutes.secondsOfStep 4 (cs ++ [c]) ∧
      pdpOfSeconds (fiveMinutes.secondsOfStep 4 (cs ++ [c])) = .nan :=
  ⟨_, _, _, _, covers_at_once, covers_in_two, by decide +kernel, by decide +kernel⟩

end Rrdtool
