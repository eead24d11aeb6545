import Rrdtool.Update.Parse
import Rrdtool.Lib.Pointwise

/-!
# Primary data points

Port of the part of `src/rrd_update.c` that turns readings into primary data points:
`update_pdp_prep` (the amount each reading adds, `pdp_new`), `calculate_elapsed_steps`,
`simple_update` (no step boundary was passed) and `process_pdp_st` / `process_all_pdp_st` (one or
more were: the rate handed to the archives, `pdp_temp`, and the carry into the open step).

The loops over the data sources run in order and stop at the first error, with the entries before it
already stored: they return the preparation areas beside the outcome. The `int` result of
`calculate_elapsed_steps`, the `(signed)` cast of the unknown seconds and the unsigned difference in
the divisor are kept (`s32`, `u64`).
-/

namespace Rrdtool

/-- Every character of a `COUNTER` reading is a digit; a `DERIVE` reading may begin with `-`. -/
def isSimpleInteger (dst : Dst) (s : Text) : Bool :=
  match dst, s with
  | .derive, '-' :: s => s.all Char.isDigit
  | _, s => s.all Char.isDigit

/-- The overflow catcher for `COUNTER` differences. -/
@[grind] def counterOverflow (x : RrdValue) : RrdValue :=
  let x := if x < .fin 0 then x + .fin 4294967295 else x
  if x < .fin 0 then x + .fin 18446744069414584320 else x

/-- A number that has to be there in full. -/
@[grind] def readNumber (context : String) (s : Text) : Except UpdateError RrdValue :=
  match rrdStrtodbl s with
  | .whole v => .ok v
  | _ => .error (.badNumber context s)

/-- `last_ds[0] != 'U'`. -/
def isKnownText (s : Text) : Bool := s.head? ≠ some 'U'

/-- The switch of `update_pdp_prep`: the amount and the rate of a known reading. -/
@[grind] def readingAmount (dst : Dst) (lastDs updval : Text) (interval : ℚ) :
    Except UpdateError (RrdValue × RrdValue) :=
  match dst with
  | .counter | .derive =>
    if !isSimpleInteger dst updval then .error (.notInteger dst updval)
    else if isKnownText lastDs then
      let x := rrdDiff updval lastDs
      let x := if dst = .counter then counterOverflow x else x
      .ok (x, x / .fin interval)
    else .ok (.nan, .nan)
  | .absolute =>
    (readNumber "Function update_pdp_prep, case DST_ABSOLUTE" updval).map fun v =>
      (v, v / .fin interval)
  | .gauge =>
    (readNumber "Function update_pdp_prep, case DST_GAUGE" updval).map fun v =>
      (v * .fin interval, v)
  | .dcounter | .dderive =>
    if isKnownText lastDs then
      let context :=
        if dst = .dcounter then "Function update_pdp_prep, case DST_DCOUNTER"
        else "Function update_pdp_prep, case DST_DDERIVE"
      match readNumber context updval, readNumber context lastDs with
      | .error e, _ => .error e
      | _, .error e => .error e
      | .ok newval, .ok oldval =>
        -- a DCOUNTER that changes its direction was reset
        if dst = .dcounter ∧
            ((.fin 0 < newval ∧ newval < oldval) ∨ (newval < .fin 0 ∧ oldval < newval)) then
          .ok (.nan, .nan)
        else .ok (newval - oldval, (newval - oldval) / .fin interval)
    else .ok (.nan, .nan)
  | .cdef => .ok (.nan, .nan)

/-- A rate outside the limits of the data source; a limit that is `nan` does not count. -/
def outOfLimits (d : DsDef) (rate : RrdValue) : Bool :=
  !rate.isnan && ((!d.maxVal.isnan && decide (d.maxVal < rate)) ||
    (!d.minVal.isnan && decide (rate < d.minVal)))

/-- `strncpy` into `last_ds`, with the terminator. -/
def copyLastDs (s : Text) : Text := s.take (lastDsLen - 1)

/-- One iteration of `update_pdp_prep`: the preparation area after it and `pdp_new`. -/
@[grind] def updatePdpPrepDs (d : DsDef) (p : PdpPrep) (updval : Text) (interval : ℚ) :
    PdpPrep × Except UpdateError RrdValue :=
  -- make sure we do not build diffs with old last_ds values
  let p := if (d.mrhbCnt : ℚ) < interval then { p with lastDs := ['U'] } else p
  if isKnownText updval ∧ d.dst ≠ .cdef ∧ interval ≤ d.mrhbCnt then
    match readingAmount d.dst p.lastDs updval interval with
    | .error e => (p, .error e)
    | .ok (amount, rate) =>
      ({ p with lastDs := copyLastDs updval }, .ok (if outOfLimits d rate then .nan else amount))
  else ({ p with lastDs := copyLastDs updval }, .ok .nan)

/-- `update_pdp_prep`. -/
@[grind] def updatePdpPrep (interval : ℚ) :
    List DataSource → List Text → List DataSource × Except UpdateError (List RrdValue)
  | d :: ds, v :: vs =>
    match updatePdpPrepDs d.dsDef d.pdpPrep v interval with
    | (p, .error e) => ({ d with pdpPrep := p } :: ds, .error e)
    | (p, .ok x) =>
      let (ds', r) := updatePdpPrep interval ds vs
      ({ d with pdpPrep := p } :: ds', r.map (x :: ·))
  | ds, _ => (ds, .ok [])

/-- What `calculate_elapsed_steps` finds out: the number of step boundaries passed, the time from
the last update to the latest boundary and from there to the update, and the number of steps
processed before. -/
structure Elapsed where
  elapsedPdpSt : ℕ
  preInt : ℚ
  postInt : ℚ
  procPdpCnt : ℕ
deriving DecidableEq

/-- The time between the last update and this one. -/
@[grind] def Rrd.interval (rrd : Rrd) (sec usec : ℕ) : ℚ :=
  ((sec : ℚ) - rrd.lastUp) + ((usec : ℚ) - rrd.lastUpUsec) / 10 ^ 6

/-- `calculate_elapsed_steps`. -/
def calculateElapsedSteps (rrd : Rrd) (sec usec : ℕ) (interval : ℚ) : Elapsed :=
  let procPdpSt := rrd.lastUp - rrd.lastUp % rrd.pdpStep
  let occuPdpAge := sec % rrd.pdpStep
  let occuPdpSt := sec - occuPdpAge
  let passed := procPdpSt < occuPdpSt
  { elapsedPdpSt := u64 (s32 (((occuPdpSt - procPdpSt) / rrd.pdpStep : ℕ) : ℤ))
    preInt :=
      if passed then (occuPdpSt : ℚ) - rrd.lastUp - (rrd.lastUpUsec : ℚ) / 10 ^ 6 else interval
    postInt := if passed then (occuPdpAge : ℚ) + (usec : ℚ) / 10 ^ 6 else 0
    procPdpCnt := procPdpSt / rrd.pdpStep }

/-- One iteration of `simple_update`. -/
@[grind] def simpleUpdateDs (interval : ℚ) (p : PdpPrep) (pdpNew : RrdValue) : PdpPrep :=
  if pdpNew.isnan then { p with unknSecCnt := p.unknSecCnt + ⌊interval⌋₊ }
  else { p with val := if p.val.isnan then pdpNew else p.val + pdpNew }

/-- `simple_update`. -/
@[grind] def simpleUpdate (interval : ℚ) (ds : List DataSource) (pdpNew : List RrdValue) :
    List DataSource :=
  List.zipWith (fun d x => { d with pdpPrep := simpleUpdateDs interval d.pdpPrep x }) ds pdpNew

/-- The time data that one pass of `process_pdp_st` works with. -/
structure PdpPass where
  interval : ℚ
  preInt : ℚ
  postInt : ℚ
  elapsedPdpSt : ℕ

/-- The rate of the steps just closed, from the preparation area in which the amount up to the
boundary has been added. -/
@[grind] def pdpRate (pdpStep : ℕ) (d : DsDef) (pass : PdpPass) (unknSecCnt : ℕ) (val : RrdValue)
    (preUnknown : ℚ) : RrdValue :=
  if (d.mrhbCnt : ℚ) < pass.interval ∨ (pdpStep : ℚ) / 2 < s32 unknSecCnt then .nan
  else val / .fin (u64 ((pass.elapsedPdpSt * pdpStep : ℕ) - unknSecCnt) - preUnknown)

/-- `process_pdp_st`: the preparation area after it and `pdp_temp` of the data source, `none` when
a `COMPUTE` program fails. `temps` holds `pdp_temp` of the data sources before. -/
@[grind] def processPdpSt (host : Host) (pdpStep : ℕ) (pass : PdpPass) (d : DataSource) (pdpNew : RrdValue)
    (temps : List RrdValue) : PdpPrep × Option RrdValue :=
  let p := d.pdpPrep
  let amount := pdpNew / .fin pass.interval
  let val := if pdpNew.isnan then p.val else ifDnan p.val (.fin 0) + amount * .fin pass.preInt
  let preUnknown := if pdpNew.isnan then pass.preInt else 0
  let temp := pdpRate pdpStep d.dsDef pass p.unknSecCnt val preUnknown
  let next : PdpPrep :=
    if pdpNew.isnan then { p with unknSecCnt := ⌊pass.postInt⌋₊, val := .nan }
    else { p with unknSecCnt := 0, val := amount * .fin pass.postInt }
  if d.dsDef.dst = .cdef then
    match host.rpnCalc d.dsDef.cdef temps pdpStep with
    | none => ({ p with val := val }, none)
    | some t => (next, some t)
  else (next, some temp)

/-- `process_all_pdp_st`. -/
def processAllPdpSt (host : Host) (pdpStep : ℕ) (pass : PdpPass) :
    List DataSource → List RrdValue → List RrdValue → List DataSource × Option (List RrdValue)
  | d :: ds, x :: xs, temps =>
    match processPdpSt host pdpStep pass d x temps with
    | (p, none) => ({ d with pdpPrep := p } :: ds, none)
    | (p, some t) =>
      let (ds', r) := processAllPdpSt host pdpStep pass ds xs (temps ++ [t])
      ({ d with pdpPrep := p } :: ds', r)
  | ds, _, temps => (ds, some temps)

/-! ### What the loops over the data sources do -/

open List

/-- A reading that is taken in changes `last_ds` only. -/
lemma updatePdpPrepDs_keeps (d : DsDef) (p : PdpPrep) (updval : Text) (interval : ℚ) :
    (updatePdpPrepDs d p updval interval).1.unknSecCnt = p.unknSecCnt ∧
      (updatePdpPrepDs d p updval interval).1.val = p.val := by
  unfold updatePdpPrepDs
  by_cases late : (d.mrhbCnt : ℚ) < interval
  all_goals
    simp only [late, if_true, if_false]
    split
    · split <;> exact ⟨rfl, rfl⟩
    · exact ⟨rfl, rfl⟩

/-- `update_pdp_prep` on success, data source by data source. -/
lemma updatePdpPrep_ok {interval ds vs ds' xs} (h : updatePdpPrep interval ds vs = (ds', .ok xs))
    (hlen : vs.length = ds.length) :
    xs.length = ds.length ∧
      Forall₂ (fun (d : DataSource × Text) (r : DataSource × RrdValue) =>
        r.1.dsDef = d.1.dsDef ∧
          updatePdpPrepDs d.1.dsDef d.1.pdpPrep d.2 interval = (r.1.pdpPrep, .ok r.2))
        (ds.zip vs) (ds'.zip xs) ∧ ds'.length = ds.length := by
  induction ds generalizing vs ds' xs with
  | nil =>
    cases h
    exact ⟨rfl, by simp, rfl⟩
  | cons d ds ih =>
    obtain _ | ⟨v, vs⟩ := vs
    · cases hlen
    · simp only [updatePdpPrep] at h
      split at h
      · cases h
      · rename_i p x hp
        obtain ⟨hfst, hsnd⟩ := Prod.mk.inj h
        rcases hr : updatePdpPrep interval ds vs with ⟨ds₁, r₁⟩
        rw [hr] at hfst hsnd
        cases r₁ with
        | error e => cases hsnd
        | ok xs₁ =>
          cases hsnd
          cases hfst
          obtain ⟨hx, hall, hds⟩ := ih hr (by simpa using hlen)
          exact ⟨by simp [hx], .cons ⟨rfl, hp⟩ hall, by simp [hds]⟩

/-- `process_all_pdp_st` on success, data source by data source. -/
lemma processAllPdpSt_some {host pdpStep pass ds xs temps ds' ts}
    (h : processAllPdpSt host pdpStep pass ds xs temps = (ds', some ts))
    (hlen : xs.length = ds.length) :
    ∃ ts', ts = temps ++ ts' ∧ ts'.length = ds.length ∧ ds'.length = ds.length ∧
      Forall₂ (fun (d : DataSource × RrdValue) (r : DataSource × RrdValue) =>
        r.1.dsDef = d.1.dsDef ∧
          ∃ temps, processPdpSt host pdpStep pass d.1 d.2 temps = (r.1.pdpPrep, some r.2))
        (ds.zip xs) (ds'.zip ts') := by
  induction ds generalizing xs temps ds' ts with
  | nil =>
    cases h
    exact ⟨[], by simp, rfl, rfl, by simp⟩
  | cons d ds ih =>
    obtain _ | ⟨x, xs⟩ := xs
    · cases hlen
    · simp only [processAllPdpSt] at h
      split at h
      · cases h
      · rename_i p t hp
        obtain ⟨hfst, hsnd⟩ := Prod.mk.inj h
        rcases hr : processAllPdpSt host pdpStep pass ds xs (temps ++ [t]) with ⟨ds₁, r₁⟩
        rw [hr] at hfst hsnd
        cases hfst
        rw [show r₁ = some ts from hsnd] at hr
        obtain ⟨ts', hts, htl, hdl, hall⟩ := ih hr (by simpa using hlen)
        refine ⟨t :: ts', by simp [hts], by simp [htl], by simp [hdl], ?_⟩
        exact .cons ⟨rfl, temps, hp⟩ hall

lemma readNumber_error {context s e} (h : readNumber context s = .error e) : e.code = -1 := by
  unfold readNumber at h
  split at h
  · cases h
  · cases h
    rfl

lemma readingAmount_error {dst lastDs updval interval e}
    (h : readingAmount dst lastDs updval interval = .error e) : e.code = -1 := by
  have of_map : ∀ {context : String} {f : RrdValue → RrdValue × RrdValue},
      (readNumber context updval).map f = .error e → e.code = -1 := by
    intro context f hf
    cases hr : readNumber context updval with
    | error e' =>
      rw [hr] at hf
      cases hf
      exact readNumber_error hr
    | ok v =>
      rw [hr] at hf
      cases hf
  have of_integer : ∀ {p q : Bool} {x : RrdValue × RrdValue},
      (if p then .error (.notInteger dst updval) else if q then .ok x else .ok (.nan, .nan)) =
        (.error e : Except UpdateError (RrdValue × RrdValue)) → e.code = -1 := by
    intro p q x hx
    split at hx
    · cases hx
      rfl
    · split at hx <;> cases hx
  have of_double : ∀ {context : String} {p : Bool}
      {q : RrdValue → RrdValue → Prop} [∀ a b, Decidable (q a b)]
      {f : RrdValue → RrdValue → RrdValue × RrdValue},
      (if p then
        match readNumber context updval, readNumber context lastDs with
        | .error e, _ => .error e
        | _, .error e => .error e
        | .ok a, .ok b => if q a b then .ok (.nan, .nan) else .ok (f a b)
      else .ok (.nan, .nan)) = (.error e : Except UpdateError (RrdValue × RrdValue)) →
        e.code = -1 := by
    intro context p q _ f hx
    split at hx
    · split at hx
      · rename_i he
        cases hx
        exact readNumber_error he
      · rename_i he _
        cases hx
        exact readNumber_error he
      · split at hx <;> cases hx
    · cases hx
  cases dst with
  | counter => exact of_integer h
  | derive => exact of_integer h
  | absolute => exact of_map h
  | gauge => exact of_map h
  | dcounter => exact of_double h
  | dderive => exact of_double h
  | cdef => cases h

/-- `update_pdp_prep` reports no time stamp error. -/
lemma updatePdpPrep_error {interval ds vs ds' e}
    (h : updatePdpPrep interval ds vs = (ds', .error e)) : e.code = -1 := by
  induction ds generalizing vs ds' with
  | nil => cases h
  | cons d ds ih =>
    cases vs with
    | nil => cases h
    | cons v vs =>
      simp only [updatePdpPrep] at h
      split at h
      · rename_i e' hd
        cases h
        simp only [updatePdpPrepDs] at hd
        split at hd
        · split at hd
          · rename_i hr
            cases hd
            exact readingAmount_error hr
          · cases hd
        · cases hd
      · cases hr : (updatePdpPrep interval ds vs).2 with
        | error e' =>
          rw [hr] at h
          cases h
          exact ih (Prod.ext rfl hr)
        | ok xs =>
          rw [hr] at h
          cases h

/-- The seconds that stay unknown after a step was closed. -/
lemma processPdpSt_unknSecCnt {host pdpStep pass d x temps p t}
    (h : processPdpSt host pdpStep pass d x temps = (p, some t)) :
    p.unknSecCnt ≤ ⌊pass.postInt⌋₊ := by
  have hp : p = if x.isnan then { d.pdpPrep with unknSecCnt := ⌊pass.postInt⌋₊, val := .nan }
      else { d.pdpPrep with unknSecCnt := 0, val := x / .fin pass.interval * .fin pass.postInt } := by
    simp only [processPdpSt] at h
    split at h
    · split at h
      · cases h
      · exact (Prod.mk.inj h).1.symm
    · exact (Prod.mk.inj h).1.symm
  rw [hp]
  split
  · exact le_refl _
  · exact Nat.zero_le _

/-! ### The time that has passed -/

/-- The number of step boundaries between the last update and `sec`. -/
@[grind] def Rrd.stepsPassed (rrd : Rrd) (sec : ℕ) : ℕ := sec / rrd.pdpStep - rrd.lastUp / rrd.pdpStep

lemma sub_mod_eq_mul (a s : ℕ) : a - a % s = s * (a / s) := by
  have := Nat.div_add_mod a s
  omega

/-- The boundaries passed, through the `int` result. -/
lemma calculateElapsedSteps_eq {rrd sec usec interval} (pos : 0 < rrd.pdpStep) :
    (calculateElapsedSteps rrd sec usec interval).elapsedPdpSt = u64 (s32 (rrd.stepsPassed sec)) := by
  have hq : (sec - sec % rrd.pdpStep - (rrd.lastUp - rrd.lastUp % rrd.pdpStep)) / rrd.pdpStep =
      rrd.stepsPassed sec := by
    rw [sub_mod_eq_mul, sub_mod_eq_mul, ← Nat.mul_sub, Nat.mul_div_cancel_left _ pos]
    rfl
  show u64 (s32 ((_ : ℕ) : ℤ)) = _
  rw [hq]

/-- The code counts the boundaries right as long as their number fits an `int`. -/
lemma calculateElapsedSteps_elapsed {rrd sec usec interval} (pos : 0 < rrd.pdpStep)
    (small : rrd.stepsPassed sec < 2 ^ 31) :
    (calculateElapsedSteps rrd sec usec interval).elapsedPdpSt = rrd.stepsPassed sec := by
  rw [calculateElapsedSteps_eq pos, s32_natCast small, u64_natCast (by omega)]

lemma calculateElapsedSteps_procPdpCnt {rrd sec usec interval} (pos : 0 < rrd.pdpStep) :
    (calculateElapsedSteps rrd sec usec interval).procPdpCnt = rrd.lastUp / rrd.pdpStep := by
  show (rrd.lastUp - rrd.lastUp % rrd.pdpStep) / rrd.pdpStep = _
  rw [sub_mod_eq_mul, Nat.mul_div_cancel_left _ pos]

/-- The time before and after the latest boundary, when one was passed. -/
lemma calculateElapsedSteps_split {rrd sec usec interval} (pos : 0 < rrd.pdpStep)
    (passed : 0 < rrd.stepsPassed sec) :
    (calculateElapsedSteps rrd sec usec interval).preInt =
        ((rrd.pdpStep * (sec / rrd.pdpStep) : ℕ) : ℚ) - rrd.lastUp - (rrd.lastUpUsec : ℚ) / 10 ^ 6 ∧
      (calculateElapsedSteps rrd sec usec interval).postInt =
        ((sec % rrd.pdpStep : ℕ) : ℚ) + (usec : ℚ) / 10 ^ 6 := by
  have hlt : rrd.lastUp - rrd.lastUp % rrd.pdpStep < sec - sec % rrd.pdpStep := by
    rw [sub_mod_eq_mul, sub_mod_eq_mul]
    refine (Nat.mul_lt_mul_left pos).2 ?_
    unfold Rrd.stepsPassed at passed
    omega
  refine ⟨?_, if_pos hlt⟩
  rw [← sub_mod_eq_mul]
  exact if_pos hlt

/-- The whole seconds of the interval do not exceed the difference of the whole seconds. -/
lemma floor_interval_le {rrd : Rrd} {sec usec : ℕ} (hle : rrd.lastUp ≤ sec) (hu : usec < 10 ^ 6) :
    ⌊rrd.interval sec usec⌋₊ ≤ sec - rrd.lastUp := by
  refine Nat.lt_succ_iff.1 ((Nat.floor_lt' (Nat.succ_ne_zero _)).2 ?_)
  have hu' : (usec : ℚ) < 10 ^ 6 := by exact_mod_cast hu
  have hp : (0 : ℚ) ≤ rrd.lastUpUsec := Nat.cast_nonneg _
  have hd : ((usec : ℚ) - rrd.lastUpUsec) / 10 ^ 6 < 1 := by
    rw [div_lt_one (by norm_num)]
    linarith
  rw [Rrd.interval, Nat.succ_eq_add_one, Nat.cast_add, Nat.cast_sub hle, Nat.cast_one]
  linarith

/-- The whole seconds since the latest boundary. -/
lemma floor_postInt {age usec : ℕ} (hu : usec < 10 ^ 6) :
    ⌊(age : ℚ) + (usec : ℚ) / 10 ^ 6⌋₊ = age := by
  rw [Nat.floor_eq_iff (by positivity)]
  have hu' : (usec : ℚ) < 10 ^ 6 := by exact_mod_cast hu
  have h0 : (0 : ℚ) ≤ (usec : ℚ) / 10 ^ 6 := by positivity
  have h1 : (usec : ℚ) / 10 ^ 6 < 1 := by
    rw [div_lt_one (by norm_num)]
    exact hu'
  exact ⟨by linarith, by linarith⟩

end Rrdtool
