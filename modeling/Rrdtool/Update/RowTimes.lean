import Rrdtool.Update.Aberrant
import Rrdtool.Update.Conservation
import Rrdtool.Fetch.Window

/-!
# The times of the rows

The time that `write_to_rras` of `src/rrd_update.c` passes on with each row (`rra_time`, which `rrd_updatev`
reports), compared with the time under which `rrd_fetch_fn` returns the row afterwards.

A row of an archive is found by its age, the number of periods closed after it (`RowsByAge`). The time of the
first row of a pass is right; for the rows after it the code subtracts one row length too few, so that their times
are those of the next row (`processArg_times_iff`).
-/

namespace Rrdtool

open List

/-! ### The rows that one archive is given -/

/-- The time of the row written at place `j` of `n`. -/
lemma writeRraRows_time {stepTime time n k sub rra} {j : ℕ} {w}
    (h : (writeRraRows stepTime time false n k sub rra).2[j]? = some w) :
    w.rraTime = (time - time % stepTime : ℕ) - ((n : ℤ) - j - (if j = 0 then sub else 2 : ℕ)) * stepTime := by
  induction n generalizing k sub rra j with
  | zero => cases h
  | succ n ih =>
    cases j with
    | zero =>
      obtain rfl := Option.some.inj h
      simp
    | succ j =>
      rw [ih h]
      have hsub : (if j = 0 then 2 else 2 : ℕ) = 2 := ite_self _
      rw [hsub, if_neg (Nat.succ_ne_zero j)]
      push_cast
      ring

lemma writeRraRows_skipped {stepTime time n k sub rra} :
    (writeRraRows stepTime time true n k sub rra).2 = [] ∧
      (writeRraRows stepTime time true n k sub rra).1.ring = (RingBuf.skip rra.rraDef.rowCnt)^[n] rra.ring := by
  induction n generalizing k sub rra with
  | zero => exact ⟨rfl, rfl⟩
  | succ n ih => exact @ih .secondary 2 { rra with ring := rra.ring.skip rra.rraDef.rowCnt }

/-- What a pass that closes `n` periods of an archive leaves there, and what it reports. -/
structure RowsByAge (span time n : ℕ) (rra rra' : Rra) (ws : List RowWrite) : Prop where
  rraDef : rra'.rraDef = rra.rraDef
  cur : rra'.ring.cur < rra.rraDef.rowCnt
  length : ws.length = if rra.rraDef.cf.isSeasonal ∧ 1 < n then 0 else n
  newer : ∀ (j : ℕ) w, ws[j]? = some w → rra'.ring.byAge rra.rraDef.rowCnt (n - 1 - j) = w.row
  older : ∀ k, n ≤ k → k < rra.rraDef.rowCnt →
    rra'.ring.byAge rra.rraDef.rowCnt k = rra.ring.byAge rra.rraDef.rowCnt (k - n)
  time : ∀ (j : ℕ) w, ws[j]? = some w →
    w.rraTime = span * (time / span : ℕ) - ((n : ℤ) - j - (if j = 0 then 1 else 2 : ℕ)) * span

lemma writeRraRows_byAge {span time n : ℕ} {rra rra₂ : Rra} (hdef : rra₂.rraDef = rra.rraDef)
    (hring : rra₂.ring = rra.ring) (hcur : rra.ring.cur < rra.rraDef.rowCnt) (few : n ≤ rra.rraDef.rowCnt) :
    RowsByAge span time n rra
      (writeRraRows span time (rra.rraDef.cf.isSeasonal && decide (1 < n)) n .primary 1 rra₂).1
      (writeRraRows span time (rra.rraDef.cf.isSeasonal && decide (1 < n)) n .primary 1 rra₂).2 := by
  obtain ⟨hdef', -, hcur'⟩ := @writeRraRows_keeps span time (rra.rraDef.cf.isSeasonal && decide (1 < n)) n .primary 1 rra₂
  rw [hdef] at hdef'
  rw [hdef, hring] at hcur'
  have hlt := iterate_next_lt (Nat.zero_lt_of_lt hcur) n hcur
  rw [← hcur'] at hlt
  cases hskip : rra.rraDef.cf.isSeasonal && decide (1 < n) with
  | true =>
    rw [hskip] at hdef' hlt
    obtain ⟨hnil, hskipped⟩ := @writeRraRows_skipped span time n .primary 1 rra₂
    rw [hdef, hring] at hskipped
    simp only [Bool.and_eq_true, decide_eq_true_eq] at hskip
    refine ⟨hdef', hlt, ?_, ?_, ?_, ?_⟩
    · rw [hnil, if_pos hskip, List.length_nil]
    · rw [hnil]
      nofun
    · intro k hn hk
      rw [hskipped, RingBuf.byAge_skip_iterate hcur hn hk]
    · rw [hnil]
      nofun
  | false =>
    rw [hskip] at hdef' hlt
    obtain ⟨hpush, hrows⟩ := @writeRraRows_rows span time n rra₂
    have hlen : (writeRraRows span time false n .primary 1 rra₂).2.length = n := by
      have := congrArg List.length hrows
      rwa [List.length_map, rraRows_length] at this
    rw [hdef, hring, ← hrows] at hpush
    have hskip' : ¬ (rra.rraDef.cf.isSeasonal ∧ 1 < n) := by
      rw [← Bool.not_eq_true, Bool.and_eq_true, decide_eq_true_eq] at hskip
      exact hskip
    refine ⟨hdef', hlt, ?_, ?_, ?_, ?_⟩
    · rw [hlen, if_neg hskip']
    · intro j w hw
      have hj : j < n := hlen ▸ (List.getElem?_eq_some_iff.1 hw).1
      rw [hpush, RingBuf.byAge_pushAll hcur _ (by omega), dif_pos (by rw [List.length_map, hlen]; omega)]
      simp only [List.getElem_map, List.length_map, hlen]
      obtain ⟨hlt', rfl⟩ := List.getElem?_eq_some_iff.1 hw
      congr 2
      omega
    · intro k hn hk
      rw [hpush, RingBuf.byAge_pushAll hcur _ hk, dif_neg (by rw [List.length_map, hlen]; omega), List.length_map, hlen]
    · intro j w hw
      rw [writeRraRows_time hw, sub_mod_eq_mul]
      push_cast
      rfl

/-- The archive at `i` through a pass, with the rows written there. -/
lemma pass_written_at {rrd : Rrd} {a : PassArgs} {i : ℕ} {rra : Rra} (hi : rrd.rra[i]? = some rra) :
    ∃ rra₂, rra₂.rraDef = rra.rraDef ∧ rra₂.ring = rra.ring ∧
      let n := rraStepCnt rra.rraDef a.elapsed a.procPdpCnt
      let written := writeRraRows (rra.rraDef.pdpCnt * rrd.pdpStep) a.time
        (rra.rraDef.cf.isSeasonal && decide (1 < n)) n .primary 1 rra₂
      (rrd.pass a).rra[i]? = some written.1 ∧
        (consolidate rrd a.elapsed a.procPdpCnt a.temps a.coef a.time).2.1.writes.getD i [] = written.2 := by
  obtain ⟨s', hs⟩ := @updateAllCdpPrep_at i rra a.elapsed a.procPdpCnt a.temps a.coef _ hi
  have hspec := updateRraCdpPrep_spec a.elapsed a.procPdpCnt a.temps s' rra
  have hprep : (rrd.prepared a)[i]? = some (updateRraCdpPrep a.elapsed a.procPdpCnt a.temps s' rra).1 := by
    rw [Rrd.prepared, List.getElem?_map, hs]
    rfl
  obtain ⟨rra₂, hrra₂, hab⟩ := Pointwise.getElem?_left (updateAberrantCdps_spec a.elapsed a.temps (rrd.prepared a)) hprep
  have hskip : (updateRraCdpPrep a.elapsed a.procPdpCnt a.temps s' rra).2.1.skipUpdate =
      (rra.rraDef.cf.isSeasonal && decide (1 < rraStepCnt rra.rraDef a.elapsed a.procPdpCnt)) := by
    unfold updateRraCdpPrep
    cases rra.rraDef.cf.isSeasonal <;> rfl
  have hwritten : (writeToRras rrd.pdpStep a.time (updateAberrantCdps a.elapsed a.temps (rrd.prepared a))
      ((updateAllCdpPrep a.elapsed a.procPdpCnt a.temps a.coef rrd.rra).1.map Prod.snd))[i]? =
      some (writeRraRows (rra.rraDef.pdpCnt * rrd.pdpStep) a.time
        (rra.rraDef.cf.isSeasonal && decide (1 < rraStepCnt rra.rraDef a.elapsed a.procPdpCnt))
        (rraStepCnt rra.rraDef a.elapsed a.procPdpCnt) .primary 1 rra₂) := by
    rw [writeToRras, List.getElem?_zipWith, hrra₂, List.getElem?_map, hs, ← hskip, ← hspec.stepCnt, ← hspec.rraDef,
      ← hab.rraDef]
    rfl
  refine ⟨rra₂, hab.rraDef.trans hspec.rraDef, hab.ring.trans hspec.ring, ?_, ?_⟩
  · show ((writeToRras _ _ _ _).map Prod.fst)[i]? = _
    rw [List.getElem?_map]
    exact congrArg (Option.map Prod.fst) hwritten
  · show ((writeToRras _ _ _ _).map Prod.snd).getD i [] = _
    rw [List.getD_eq_getElem?_getD, List.getElem?_map]
    exact congrArg (fun o => (o.map Prod.snd).getD []) hwritten

/-- The periods of `n` steps that a pass closes. -/
def Phase.closed (n : ℕ) (ph : Phase) : ℕ := rowsClosed n ph.procPdpCnt ph.elapsedPdpSt

lemma closePdps_byAge {host rrd pass p xs s time rrd' phase s' i rra}
    (h : closePdps host rrd pass p xs s time = (rrd', some (phase, s'))) (hi : rrd.rra[i]? = some rra)
    (hcur : rra.ring.cur < rra.rraDef.rowCnt)
    (few : rowsClosed rra.rraDef.pdpCnt p pass.elapsedPdpSt ≤ rra.rraDef.rowCnt) :
    ∃ rra', rrd'.rra[i]? = some rra' ∧ rrd'.pdpStep = rrd.pdpStep ∧
      phase.closed rra.rraDef.pdpCnt = rowsClosed rra.rraDef.pdpCnt p pass.elapsedPdpSt ∧
      RowsByAge (rrd.rowSpan rra.rraDef) time (rowsClosed rra.rraDef.pdpCnt p pass.elapsedPdpSt) rra rra'
        (phase.writes.getD i []) := by
  unfold closePdps at h
  split at h
  · cases h
  · rename_i ds temps _
    obtain ⟨rra₂, hdef, hring, hrra', hwrites⟩ :=
      @pass_written_at { rrd with ds := ds } ⟨pass.elapsedPdpSt, p, temps, s, time⟩ _ _ hi
    cases h
    refine ⟨_, hrra', rfl, rfl, ?_⟩
    rw [rraStepCnt_eq_min, min_eq_left few] at hwrites ⊢
    have := @writeRraRows_byAge (rra.rraDef.pdpCnt * rrd.pdpStep) time _ _ _ hdef hring hcur few
    rw [Rrd.rowSpan, mul_comm]
    rw [← hwrites] at this
    exact this

/-! ### The rows of an update -/

/-- A request that is served from archive `i` returns `row` for the time `t`, if it asks for it. -/
def Rrd.Returns (rrd : Rrd) (i : ℕ) (t : ℤ) (row : Row) : Prop :=
  ∀ cf start stop step res, 0 ≤ start → start ≤ stop → stop < 2 ^ 63 →
    rrdFetchFn rrd cf start stop step = some res → res.rra = i →
    ∀ k < res.data.length, res.start + (k + 1) * res.step = t → res.data[k]? = some (some row)

/-- A row of archive `i` with `k` periods closed after it is reported with the end of the period it stands for: the
time under which it is found. -/
def Rrd.ReportsRow (rrd : Rrd) (i : ℕ) (r : RraDef) (k : ℕ) (w : RowWrite) : Prop :=
  w.rraTime = rrd.rowSpan r * ((rrd.lastUp / rrd.rowSpan r : ℕ) - k : ℤ) ∧
    (r.rowCnt < 2 ^ 31 → rrd.rowSpan r < 2 ^ 63 → rrd.Returns i w.rraTime w.row)

/-- Each row that the passes of an update have written to archive `i` is reported so. -/
@[grind] def Rrd.ReportsTimes (rrd : Rrd) (i : ℕ) (r : RraDef) : List Phase → Prop
  | [] => True
  | ph :: rest =>
    (∀ (j : ℕ) w, (ph.writes.getD i [])[j]? = some w →
      rrd.ReportsRow i r (ph.closed r.pdpCnt - 1 - j + (rest.map (Phase.closed r.pdpCnt)).sum) w) ∧
      rrd.ReportsTimes i r rest

/-- The steps that `process_arg` counts up to `sec`. -/
def Rrd.countedSteps (rrd : Rrd) (sec : ℕ) : ℕ := u64 (s32 (rrd.stepsPassed sec))

/-- The step left open by the last update is closed in a pass of its own. -/
def Rrd.closesOpenStep (rrd : Rrd) (sec : ℕ) : Prop :=
  1 < rrd.countedSteps sec ∧ 0 < rrd.lastUp % rrd.pdpStep

instance (rrd : Rrd) (sec : ℕ) : Decidable (rrd.closesOpenStep sec) := inferInstanceAs (Decidable (_ ∧ _))

/-- The periods of `n` steps that the last pass of an update closes. -/
@[grind] def Rrd.lastPassRows (rrd : Rrd) (n sec : ℕ) : ℕ :=
  if rrd.closesOpenStep sec then rowsClosed n (rrd.lastUp / rrd.pdpStep + 1) (rrd.countedSteps sec - 1)
  else rowsClosed n (rrd.lastUp / rrd.pdpStep) (rrd.countedSteps sec)

/-- A row is returned for the period that its age names. -/
lemma returns_of_byAge {rrd : Rrd} {i k : ℕ} {rra : Rra} {row : Row} (pos : 0 < rrd.pdpStep)
    (valid : rra.rraDef.Valid) (hi : rrd.rra[i]? = some rra) (hk : k < rra.rraDef.rowCnt)
    (hrow : rra.ring.byAge rra.rraDef.rowCnt k = row) (small : rra.rraDef.rowCnt < 2 ^ 31)
    (hspan : rrd.rowSpan rra.rraDef < 2 ^ 63) :
    rrd.Returns i (rrd.rowSpan rra.rraDef * ((rrd.lastUp / rrd.rowSpan rra.rraDef : ℕ) - k : ℤ)) row := by
  rintro cf start stop step res h0 hle hlt hres rfl m hm ht
  have hpos : 0 < rrd.rowSpan rra.rraDef := Nat.mul_pos pos valid.pdpCnt_pos
  obtain ⟨rra', spec⟩ := rrdFetchFn_spec hres h0 hle hlt (by
    intro rra' hrra'
    obtain rfl := Option.some.inj (hi.symm.trans hrra')
    exact ⟨hpos, hspan, valid.rowCnt_pos, small⟩)
  obtain rfl := Option.some.inj (hi.symm.trans spec.chosen)
  rw [spec.row m hm, ht, spec.step, Int.mul_ediv_cancel_left _ (by omega), heldRow, if_pos (by omega)]
  congr 2
  rw [← hrow]
  congr 1
  omega

section OneUpdate

variable {rrd : Rrd} {i : ℕ} {rra rra₁ rra' : Rra}

/-- The rows of the last pass are reported right if there is one at most. -/
lemma reportsRows_last_iff {n : ℕ} {ws : List RowWrite} (pos : 0 < rrd.pdpStep) (valid : rra'.rraDef.Valid)
    (hi : rrd.rra[i]? = some rra') (few : n ≤ rra.rraDef.rowCnt)
    (hrows : RowsByAge (rrd.rowSpan rra.rraDef) rrd.lastUp n rra rra' ws) :
    (∀ (j : ℕ) w, ws[j]? = some w → rrd.ReportsRow i rra'.rraDef (n - 1 - j) w) ↔
      rra.rraDef.cf.isSeasonal ∨ n ≤ 1 := by
  have hdef := hrows.rraDef
  have hspan : 0 < rrd.rowSpan rra'.rraDef := Nat.mul_pos pos valid.pdpCnt_pos
  constructor
  · intro hright
    by_contra hnot
    obtain ⟨hplain, hmany⟩ := not_or.1 hnot
    have hlen : ws.length = n := by rw [hrows.length, if_neg fun h => hplain h.1]
    obtain ⟨w, hw⟩ : ∃ w, ws[1]? = some w := ⟨_, List.getElem?_eq_getElem (by omega)⟩
    have htime := (hright 1 w hw).1
    rw [hrows.time 1 w hw, ← hdef, if_neg one_ne_zero] at htime
    -- the time lies one row length after the period
    have hcast : ((n - 1 - 1 : ℕ) : ℤ) = n - 2 := by omega
    rw [hcast] at htime
    push_cast at htime
    have hzero : (rrd.rowSpan rra'.rraDef : ℤ) = 0 := by linarith
    omega
  · intro hone j w hw
    have hj := (List.getElem?_eq_some_iff.1 hw).1
    rw [hrows.length] at hj
    split at hj
    · omega
    · rename_i hwritten
      have hn : n = 1 := by
        by_contra hne
        exact hwritten ⟨hone.resolve_right (by omega), by omega⟩
      obtain rfl : j = 0 := by omega
      subst hn
      have htime : w.rraTime = rrd.rowSpan rra'.rraDef * ((rrd.lastUp / rrd.rowSpan rra'.rraDef : ℕ) - (0 : ℕ) : ℤ) := by
        rw [hrows.time 0 w hw, if_pos rfl, hdef]
        push_cast
        ring
      refine ⟨htime, fun small hlt => ?_⟩
      rw [htime]
      have hrow := hrows.newer 0 w hw
      rw [← hdef] at hrow few
      exact returns_of_byAge pos valid hi few hrow small hlt

/-- A row written by the pass before the last, which closes one period at most: its time is the end of the period
before the `n` last ones if that is when the pass took place. -/
lemma reportsRows_open_iff {time n₁ n : ℕ} {ws₁ ws : List RowWrite} (pos : 0 < rrd.pdpStep)
    (valid : rra'.rraDef.Valid) (hi : rrd.rra[i]? = some rra') (hone : n₁ ≤ 1) (few : n₁ + n ≤ rra.rraDef.rowCnt)
    (hrows₁ : RowsByAge (rrd.rowSpan rra.rraDef) time n₁ rra rra₁ ws₁)
    (hrows : RowsByAge (rrd.rowSpan rra.rraDef) rrd.lastUp n rra₁ rra' ws) :
    (∀ (j : ℕ) w, ws₁[j]? = some w → rrd.ReportsRow i rra'.rraDef (n₁ - 1 - j + n) w) ↔
      (n₁ = 1 → time / rrd.rowSpan rra.rraDef + n = rrd.lastUp / rrd.rowSpan rra.rraDef) := by
  have hdef := hrows.rraDef.trans hrows₁.rraDef
  have hspan : 0 < rrd.rowSpan rra'.rraDef := Nat.mul_pos pos valid.pdpCnt_pos
  have hlen : ws₁.length = n₁ := by rw [hrows₁.length, if_neg (by omega)]
  have htime : ∀ w, n₁ = 1 → ws₁[0]? = some w →
      w.rraTime = (rrd.rowSpan rra'.rraDef : ℤ) * (time / rrd.rowSpan rra'.rraDef : ℕ) := by
    intro w hn hw
    rw [hrows₁.time 0 w hw, if_pos rfl, hdef, hn]
    push_cast
    ring
  rw [← hdef]
  constructor
  · intro hright hn
    obtain ⟨w, hw⟩ : ∃ w, ws₁[0]? = some w := ⟨_, List.getElem?_eq_getElem (by omega)⟩
    have heq := (hright 0 w hw).1
    rw [htime w hn hw, hn] at heq
    have := mul_left_cancel₀ (by omega) heq
    omega
  · intro hsum j w hw
    have hj := (List.getElem?_eq_some_iff.1 hw).1
    obtain rfl : j = 0 := by omega
    have hn : n₁ = 1 := by omega
    have hsum := hsum hn
    have hage : n₁ - 1 - 0 + n = n := by omega
    have hright : w.rraTime = rrd.rowSpan rra'.rraDef * ((rrd.lastUp / rrd.rowSpan rra'.rraDef : ℕ) - (n : ℕ) : ℤ) := by
      rw [htime w hn hw, ← hsum]
      push_cast
      ring
    rw [hage]
    refine ⟨hright, fun small hlt => ?_⟩
    rw [hright]
    have hnew := hrows₁.newer 0 w hw
    have hold := hrows.older n le_rfl (by rw [hrows₁.rraDef]; omega)
    rw [hn, Nat.sub_self] at hnew
    rw [hrows₁.rraDef, Nat.sub_self, hnew, ← hdef] at hold
    exact returns_of_byAge pos valid hi (by rw [hdef]; omega) hold small hlt

end OneUpdate

lemma countedSteps_eq_zero {rrd : Rrd} {sec : ℕ} (h : rrd.stepsPassed sec = 0) : rrd.countedSteps sec = 0 := by
  rw [Rrd.countedSteps, h]
  rfl

lemma rowsClosed_one_le {n : ℕ} (pos : 0 < n) (p : ℕ) : rowsClosed n p 1 ≤ 1 := by
  rw [rowsClosed_eq_sub pos, Nat.succ_div]
  split <;> omega

lemma rowsClosed_one_iff {n : ℕ} (pos : 0 < n) (p : ℕ) : rowsClosed n p 1 = 1 ↔ n ∣ p + 1 := by
  rw [rowsClosed_eq_sub pos, Nat.succ_div]
  split
  · rename_i hdvd
    exact iff_of_true (by omega) hdvd
  · rename_i hdvd
    exact iff_of_false (by omega) hdvd

lemma rowsClosed_add {n : ℕ} (pos : 0 < n) (p a b : ℕ) :
    rowsClosed n p a + rowsClosed n (p + a) b = rowsClosed n p (a + b) := by
  have hle : p / n ≤ (p + a) / n := Nat.div_le_div_right (Nat.le_add_right p a)
  have hle' : (p + a) / n ≤ (p + a + b) / n := Nat.div_le_div_right (Nat.le_add_right (p + a) b)
  rw [rowsClosed_eq_sub pos, rowsClosed_eq_sub pos, rowsClosed_eq_sub pos, ← Nat.add_assoc]
  omega

/-- Whether the step left open is closed on its own, and when. -/
lemma splits_iff_closesOpenStep {rrd : Rrd} {sec usec interval} (pos : 0 < rrd.pdpStep)
    (whole : rrd.lastUpUsec = 0) :
    (splits rrd.pdpStep (calculateElapsedSteps rrd sec usec interval).preInt (rrd.countedSteps sec) ↔
        rrd.closesOpenStep sec) ∧
      (rrd.closesOpenStep sec →
        rrd.lastUp + secOpenPdp rrd.pdpStep (calculateElapsedSteps rrd sec usec interval).preInt =
          rrd.pdpStep * (rrd.lastUp / rrd.pdpStep + 1)) := by
  have hmod := Nat.mod_lt rrd.lastUp pos
  have hdiv := Nat.div_add_mod rrd.lastUp rrd.pdpStep
  have hpassed : 1 < rrd.countedSteps sec → 0 < rrd.stepsPassed sec := by
    intro hmany
    refine Nat.pos_of_ne_zero fun h0 => ?_
    rw [countedSteps_eq_zero h0] at hmany
    omega
  constructor
  · refine and_congr_right fun hmany => ?_
    rw [secOpenPdp_cases pos whole (hpassed hmany)]
    split <;> omega
  · rintro ⟨hmany, hopen⟩
    rw [secOpenPdp_cases pos whole (hpassed hmany), if_neg hopen.ne', Nat.mul_succ]
    omega

/-- What the passes of an update leave of archive `i`, by the steps counted. -/
lemma applyPdpNew_times_iff {host rrd sec usec xs rrd' phases i rra} (pos : 0 < rrd.pdpStep)
    (whole : rrd.lastUpUsec = 0) (hi : rrd.rra[i]? = some rra) (valid : rra.rraDef.Valid)
    (hcur : rra.ring.cur < rra.rraDef.rowCnt)
    (few : rowsClosed rra.rraDef.pdpCnt (rrd.lastUp / rrd.pdpStep) (rrd.countedSteps sec) ≤ rra.rraDef.rowCnt)
    (h : applyPdpNew host rrd sec usec xs = (rrd', some phases)) :
    ∃ rra', rrd'.rra[i]? = some rra' ∧
      (rrd'.ReportsTimes i rra'.rraDef phases ↔
        (rra.rraDef.cf.isSeasonal ∨ rrd.lastPassRows rra.rraDef.pdpCnt sec ≤ 1) ∧
          (rrd.closesOpenStep sec → rra.rraDef.pdpCnt ∣ rrd.lastUp / rrd.pdpStep + 1 →
            (rrd.lastUp / rrd.pdpStep + rrd.countedSteps sec) / rra.rraDef.pdpCnt = sec / rrd.rowSpan rra.rraDef)) := by
  have hel : (calculateElapsedSteps rrd sec usec (rrd.interval sec usec)).elapsedPdpSt = rrd.countedSteps sec :=
    calculateElapsedSteps_eq pos
  have hproc := @calculateElapsedSteps_procPdpCnt _ sec usec (rrd.interval sec usec) pos
  obtain ⟨hsplits, htime⟩ := @splits_iff_closesOpenStep _ sec usec (rrd.interval sec usec) pos whole
  have hn := valid.pdpCnt_pos
  obtain ⟨h0, rfl, rfl⟩ | ⟨-, hone, rrd₁, phase, s, rfl, rfl, hc⟩ |
    ⟨hsplit, rrd₁, phase₁, s₁, rrd₂, phase₂, s₂, rfl, rfl, hc₁, hc₂⟩ := applyPdpNew_some h
  · rw [hel] at h0
    refine ⟨rra, hi, iff_of_true trivial ⟨.inr ?_, fun hopen => ?_⟩⟩
    · rw [Rrd.lastPassRows, if_neg fun hopen => by have := hopen.1; omega, h0, rowsClosed_eq_sub hn, Nat.add_zero,
        Nat.sub_self]
      exact Nat.zero_le 1
    · have := hopen.1
      omega
  · rw [hel, hsplits] at hone
    rw [hel, hproc] at hc
    obtain ⟨rra', hi', hstep, hclosed, hrows⟩ := closePdps_byAge hc hi hcur few
    refine ⟨rra', hi', ?_⟩
    have hlast := @reportsRows_last_iff (rrd₁.setLastUp sec usec) i rra rra' _ _ (by
      show 0 < rrd₁.pdpStep
      omega) (by rw [hrows.rraDef]; exact valid) hi' few (by
      show RowsByAge (rrd₁.pdpStep * _) sec _ _ _ _
      rw [hstep]
      exact hrows)
    rw [Rrd.lastPassRows, if_neg hone, ← hlast]
    simp only [Rrd.ReportsTimes, List.map_nil, List.sum_nil, Nat.add_zero, hrows.rraDef, hclosed, and_true]
    exact (and_iff_left fun hopen => absurd hopen hone).symm
  · rw [hel, hsplits] at hsplit
    have hmany := hsplit.1
    rw [hproc] at hc₁
    rw [hel, hproc] at hc₂
    have hone := rowsClosed_one_le hn (rrd.lastUp / rrd.pdpStep)
    have hsum : rowsClosed rra.rraDef.pdpCnt (rrd.lastUp / rrd.pdpStep) 1 +
        rowsClosed rra.rraDef.pdpCnt (rrd.lastUp / rrd.pdpStep + 1) (rrd.countedSteps sec - 1) =
          rowsClosed rra.rraDef.pdpCnt (rrd.lastUp / rrd.pdpStep) (rrd.countedSteps sec) := by
      rw [rowsClosed_add hn, Nat.add_sub_cancel' hmany.le]
    obtain ⟨rra₁, hi₁, hstep₁, hclosed₁, hrows₁⟩ := closePdps_byAge hc₁ hi hcur (by dsimp only; omega)
    have hdef₁ := hrows₁.rraDef
    obtain ⟨rra₂, hi₂, hstep₂, hclosed₂, hrows₂⟩ := closePdps_byAge hc₂ hi₁ (by rw [hdef₁]; exact hrows₁.cur) (by
      rw [hdef₁]
      dsimp only
      omega)
    have hdef₂ := hrows₂.rraDef.trans hdef₁
    rw [hdef₁] at hclosed₂
    have hspan : (rrd₂.setLastUp sec usec).rowSpan rra.rraDef = rrd.rowSpan rra.rraDef := by
      show rrd₂.pdpStep * _ = _
      rw [hstep₂, hstep₁]
      rfl
    refine ⟨rra₂, hi₂, ?_⟩
    have hpos : 0 < (rrd₂.setLastUp sec usec).pdpStep := by
      show 0 < rrd₂.pdpStep
      omega
    have hrows : RowsByAge ((rrd₂.setLastUp sec usec).rowSpan rra.rraDef) sec
        (rowsClosed rra.rraDef.pdpCnt (rrd.lastUp / rrd.pdpStep + 1) (rrd.countedSteps sec - 1)) rra₁ rra₂
        (phase₂.writes.getD i []) := by
      rw [hspan]
      have := hrows₂
      rw [hdef₁, Rrd.rowSpan, hstep₁] at this
      exact this
    have hlast := @reportsRows_last_iff (rrd₂.setLastUp sec usec) i rra₁ rra₂
      (rowsClosed rra.rraDef.pdpCnt (rrd.lastUp / rrd.pdpStep + 1) (rrd.countedSteps sec - 1)) _ hpos
      (by rw [hdef₂]; exact valid) hi₂ (by rw [hdef₁]; omega) (by rw [hdef₁]; exact hrows)
    have hopen := @reportsRows_open_iff (rrd₂.setLastUp sec usec) i rra rra₁ rra₂ _ _ _ _ _ hpos
      (by rw [hdef₂]; exact valid) hi₂ hone (by omega) (by rw [hspan]; exact hrows₁) hrows
    rw [Rrd.lastPassRows, if_pos hsplit]
    simp only [hdef₁, hdef₂] at hlast hopen
    simp only [Rrd.ReportsTimes, List.map_nil, List.sum_nil, Nat.add_zero, List.map_cons, List.sum_cons, and_true,
      hdef₂, hclosed₁, hclosed₂]
    rw [hlast, hopen, and_comm, hspan, htime hsplit, Rrd.rowSpan, Nat.mul_div_mul_left _ _ pos, rowsClosed_one_iff hn]
    refine and_congr_right fun _ => ?_
    -- the first pass takes place at the end of the step left open
    have hlater : (rrd.lastUp / rrd.pdpStep + 1) / rra.rraDef.pdpCnt +
        rowsClosed rra.rraDef.pdpCnt (rrd.lastUp / rrd.pdpStep + 1) (rrd.countedSteps sec - 1) =
          (rrd.lastUp / rrd.pdpStep + rrd.countedSteps sec) / rra.rraDef.pdpCnt := by
      rw [rowsClosed_eq_sub hn, Nat.add_assoc, Nat.add_sub_cancel' hmany.le]
      exact Nat.add_sub_cancel' (Nat.div_le_div_right (by omega))
    rw [hlater]
    exact ⟨fun h _ => h, fun h => h hsplit⟩

/-- The times that an update reports for the rows it stores in an archive are those under which the rows are found,
under exactly this condition. -/
theorem processArg_times_iff (host : Host) (tmpl : List ℕ) (rrd : Rrd) (input : Text) (rrd' : Rrd) (acc : Accepted)
    (i : ℕ) (rra : Rra) (inv : rrd.Inv) (hi : rrd.rra[i]? = some rra) (whole : rrd.lastUpUsec = 0)
    (h : processArg host tmpl rrd input = (rrd', .ok acc))
    (few : rowsClosed rra.rraDef.pdpCnt (rrd.lastUp / rrd.pdpStep) (rrd.countedSteps acc.sec) ≤ rra.rraDef.rowCnt) :
    ∃ rra', rrd'.rra[i]? = some rra' ∧
      (rrd'.ReportsTimes i rra'.rraDef acc.phases ↔
        (rra.rraDef.cf.isSeasonal ∨ rrd.lastPassRows rra.rraDef.pdpCnt acc.sec ≤ 1) ∧
          (rrd.closesOpenStep acc.sec → rra.rraDef.pdpCnt ∣ rrd.lastUp / rrd.pdpStep + 1 →
            (rrd.lastUp / rrd.pdpStep + rrd.countedSteps acc.sec) / rra.rraDef.pdpCnt =
              acc.sec / rrd.rowSpan rra.rraDef)) := by
  obtain ⟨atStyle, time, ds, xs, -, -, -, happly, -⟩ := processArg_ok h
  exact @applyPdpNew_times_iff _ { rrd with ds := ds } _ _ _ _ _ _ _ inv.pdpStep_pos whole hi
    (inv.cdp.valid rra (List.mem_of_getElem? hi)) (inv.cdp.cur rra (List.mem_of_getElem? hi)) few happly

theorem processArg_times_iff_one_row :
    ∃ rrd' acc rra rra', processArg .idle [0] (rrdInitData singleHeader fun _ => 2) "1010:7".toList = (rrd', .ok acc) ∧
      (rrdInitData singleHeader fun _ => 2).rra[0]? = some rra ∧ rrd'.rra[0]? = some rra' ∧
      (rrd'.ReportsTimes 0 rra'.rraDef acc.phases ↔
        (rra.rraDef.cf.isSeasonal ∨
            (rrdInitData singleHeader fun _ => 2).lastPassRows rra.rraDef.pdpCnt acc.sec ≤ 1) ∧
          ((rrdInitData singleHeader fun _ => 2).closesOpenStep acc.sec → rra.rraDef.pdpCnt ∣ 1000 / 10 + 1 →
            (1000 / 10 + (rrdInitData singleHeader fun _ => 2).countedSteps acc.sec) / rra.rraDef.pdpCnt =
              acc.sec / (rrdInitData singleHeader fun _ => 2).rowSpan rra.rraDef)) := by
  have hrun : (processArg .idle [0] (rrdInitData singleHeader fun _ => 2) "1010:7".toList).2.toOption.map
      (fun acc => acc.sec) = some 1010 := by decide +kernel
  cases hp : processArg .idle [0] (rrdInitData singleHeader fun _ => 2) "1010:7".toList with
  | mk rrd' r =>
    rw [hp] at hrun
    cases r with
    | error e => cases hrun
    | ok acc =>
      have hsec : acc.sec = 1010 := Option.some.inj hrun
      obtain ⟨rra', hi', hiff⟩ := processArg_times_iff .idle [0] _ _ rrd' acc 0 _ (init_inv singleHeader fun _ => 2).inv
        rfl rfl hp (by rw [hsec]; decide)
      exact ⟨rrd', acc, _, rra', rfl, rfl, hi', hiff⟩

/-- Three rows closed at once: they end at 1010, 1020 and 1030 and are found there, but the last two are reported for
1030 and 1040. -/
theorem processArg_times_run_ahead :
    ∃ rrd' acc, processArg .idle [0] (rrdInitData singleHeader fun _ => 2) "1030:7".toList = (rrd', .ok acc) ∧
      (acc.phases.map fun ph => (ph.writes.getD 0 []).map (·.rraTime)) = [[1010, 1030, 1040]] ∧
      (rrdFetchFn rrd' .average 1000 1039 10).map (fun res => (res.start, res.data)) =
        some (1000, [some [.fin 7], some [.fin 7], some [.fin 7], some [.nan]]) := by
  have htimes : (processArg .idle [0] (rrdInitData singleHeader fun _ => 2) "1030:7".toList).2.toOption.map
      (fun acc => acc.phases.map fun ph => (ph.writes.getD 0 []).map (·.rraTime)) = some [[1010, 1030, 1040]] := by
    decide +kernel
  have hdata : (rrdFetchFn (processArg .idle [0] (rrdInitData singleHeader fun _ => 2) "1030:7".toList).1 .average 1000
      1039 10).map (fun res => (res.start, res.data)) =
        some (1000, [some [.fin 7], some [.fin 7], some [.fin 7], some [.nan]]) := by
    decide +kernel
  rcases hp : processArg .idle [0] (rrdInitData singleHeader fun _ => 2) "1030:7".toList with ⟨rrd', _ | acc⟩
  · rw [hp] at htimes
    cases htimes
  · rw [hp] at htimes hdata
    exact ⟨rrd', acc, rfl, Option.some.inj htimes, hdata⟩

end Rrdtool
