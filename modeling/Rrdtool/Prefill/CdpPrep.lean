import Rrdtool.Modify.History
import Rrdtool.Prefill.Rows

/-!
# Preparing the consolidated data points of a new database

Port of `get_cdp_start_end` and `prefill_cdp_prep` of `src/rrd_create.c`. The open row of an archive is consolidated from
the rows of an archive with one primary data point per row, `cdp_rra_index`. As in the source, the archive to be filled
is given by a candidate.

The loop should do what `update_cdp` does when the primary data points of the open row come one after the other
(`replay`). It goes over times one second behind the ends of the rows, from one row before the open one on. The first
row is there to be closed, which makes the area a new one. For steps of one second the times are one row late, and
before the end of the first row there is nothing to close (`prefillCdpPrep_replays_iff`).
-/

namespace Rrdtool

/-! ### The open row -/

/-- `get_cdp_start_end`. -/
@[grind] def getCdpStartEnd (rrd : MemRrd) (rra : RraDef) : ℤ × ℤ :=
  let cdpStep := s32 (rra.pdpCnt * rrd.pdpStep)
  let start := (rrd.lastUp : ℤ).tdiv cdpStep * cdpStep + 1
  (start, start + cdpStep - 1)

/-- `init_cdp`, on an area that is in use. -/
def initCdpAgain (lastUp pdpStep : ℕ) (rra : RraDef) (p : PdpPrep) (c : CdpPrep) : CdpPrep :=
  match rra.cf with
  | .hwpredict | .mhwpredict => initHwpredictCdp c
  | .seasonal | .devseasonal => initSeasonalCdp c
  | .failures => .zero
  | _ =>
    { c with
      val := .nan
      unknPdpCnt := u64 ((lastUp : ℤ) - p.unknSecCnt) % (pdpStep * rra.pdpCnt % 2 ^ 64) / pdpStep }

namespace SourceCandidate
variable (target : SourceCandidate)

/-- The same data source in another archive. -/
def inRra (i : Fin target.rrd.rra.length) : SourceCandidate := { target with rraIndex := i }

/-- The candidate in a database with other values. -/
def withValues (v : ℕ → RrdValue) : SourceCandidate := { target with rrd := target.rrd.withValues v }

/-- The preparation area, `cdp + extra.l`. -/
def cdp : CdpPrep := target.rra.cdpPrep.getD target.l .zero

/-- A candidate with the same open row, in which the same primary data point is open: its area is copied. -/
def FullyCompatible (candidate : SourceCandidate) : Prop :=
  target.rrd.pdpStep = candidate.rrd.pdpStep ∧
    getCdpStartEnd candidate.rrd candidate.rra.rraDef = getCdpStartEnd target.rrd target.rra.rraDef ∧
    target.rrd.lastUp / target.rrd.pdpStep = candidate.rrd.lastUp / candidate.rrd.pdpStep

instance (candidate : SourceCandidate) : Decidable (target.FullyCompatible candidate) :=
  inferInstanceAs (Decidable (_ ∧ _))

/-- `first_cdp_rra_value`. -/
def firstCdpRraValue : ℤ :=
  (target.rrd.rra.take target.rraIndex).foldl (fun first rra => s32 (first + rra.rraDef.rowCnt)) 0

/-- The index into `rrd_value` for a row of `cdp_rra_index`. -/
def cdpRraIdx (r : ℤ) : ℕ := u64 (s32 (target.firstCdpRraValue + r) * target.rrd.dsCnt + target.l)

end SourceCandidate

open SourceCandidate

/-! ### `prefill_cdp_prep` -/

section Prefill
variable (target column : SourceCandidate)

/-- `n`: what is left of the row of the target at the time `t`, in primary data points. -/
@[grind] def pdpsLeft (t : ℤ) : ℤ :=
  let cdpStep := s32 (target.rrd.pdpStep * target.rra.rraDef.pdpCnt)
  s32 (target.rra.rraDef.pdpCnt - (u64 (t.tmod cdpStep) / target.rrd.pdpStep : ℕ))

/-- The loop body, for `column` as the archive `cdp_rra_index`. -/
@[grind] def prefillCdpStep (cdp : CdpPrep) (t : ℤ) : CdpPrep :=
  let r := rowForTime column.rrd column.rra.rraDef column.rra.curRow t
  if r < 0 then cdp
  else
    let v := column.rrd.rrdValue (column.cdpRraIdx r)
    let n := pdpsLeft target t
    updateCdp target.rra.rraDef.cf cdp v (if n = 1 then 1 else 0) 1 (u64 n) target.rra.rraDef.pdpCnt
      target.rra.rraDef.xff

/-- The loop. -/
@[grind] def prefillCdpLoop (stop : ℤ) : ℕ → ℤ → CdpPrep → Option CdpPrep
  | 0, _, _ => none
  | fuel + 1, t, cdp =>
    if t < stop ∧ t < target.rrd.lastUp then
      prefillCdpLoop stop fuel (t + target.rrd.pdpStep) (prefillCdpStep target column cdp t)
    else some cdp

/-- The area that `prefill_cdp_prep` starts from when there is nothing to copy. -/
def freshCdp : CdpPrep :=
  { initCdpAgain target.rrd.lastUp target.rrd.pdpStep target.rra.rraDef target.ds.pdpPrep target.cdp with
    unknPdpCnt := 0 }

/-- The special case of `pdp_cnt == 1`. -/
def prefillOnePdp (cdp : CdpPrep) : CdpPrep :=
  let cdp := { cdp with unknPdpCnt := 0, primaryVal := .fin 0, secondaryVal := .fin 0 }
  let currentCdpBeginTime := (getCdpStartEnd target.rrd target.rra.rraDef).1
  let r := rowForTime column.rrd column.rra.rraDef column.rra.curRow (currentCdpBeginTime - target.rrd.pdpStep)
  if r < 0 then cdp else { cdp with primaryVal := column.rrd.rrdValue (column.cdpRraIdx r) }

/-- `prefill_cdp_prep`. -/
def prefillCdpPrep (candidates : List SourceCandidate) : Option CdpPrep :=
  match candidates.find? fun candidate => target.FullyCompatible candidate with
  | some candidate => some candidate.cdp
  | none =>
    if target.rra.rraDef.pdpCnt = 1 then some (prefillOnePdp target column (freshCdp target))
    else
      let (currentCdpBeginTime, currentCdpEndTime) := getCdpStartEnd target.rrd target.rra.rraDef
      prefillCdpLoop target column currentCdpEndTime (2 * target.rra.rraDef.pdpCnt + 1)
        (currentCdpBeginTime - target.rra.rraDef.pdpCnt * target.rrd.pdpStep) (freshCdp target)

end Prefill

/-! ### The replay -/

/-- The state that `update_cdp` works with. -/
def CdpPrep.state (c : CdpPrep) : RrdValue × ℕ := (c.val, c.unknPdpCnt)

/-- The area at the beginning of a row. -/
def beginCdp (cf : Cf) (c : CdpPrep) : CdpPrep := { c with val := carryOverInit cf, unknPdpCnt := 0 }

/-- `update_cdp` for one primary data point after the other, from the one with the number `j` of its row on. -/
def replay (rra : RraDef) : ℕ → List RrdValue → CdpPrep → CdpPrep
  | _, [], c => c
  | j, x :: xs, c =>
    replay rra (j + 1) xs
      (updateCdp rra.cf c x (rraStepCnt rra 1 j) 1 (startPdpOffset rra.pdpCnt j) rra.pdpCnt rra.xff)

/-- The primary data points of the open row that have ended, from the oldest on. -/
def openPdps (target column : SourceCandidate) : List RrdValue :=
  (List.range (target.rrd.lastUp / target.rrd.pdpStep % target.rra.rraDef.pdpCnt)).reverse.map fun age =>
    column.rrd.value column.rraIndex column.l age

/-- `prefill_cdp_prep` leaves what the replay leaves. -/
@[grind] def Replays (target column : SourceCandidate) (candidates : List SourceCandidate) : Prop :=
  (prefillCdpPrep target column candidates).map CdpPrep.state =
    some (replay target.rra.rraDef 0 (openPdps target column) (beginCdp target.rra.rraDef.cf target.cdp)).state

/-- What the loop needs: the indices of the rows are `int`s, the row before the open one is closed and the rows of the
open one are all found. Before the first row has ended, the row before it has no number and what counts as its last
primary data point depends on the division of 2^64 by the step. -/
def ClosesBefore (target column : SourceCandidate) : Prop :=
  let last := target.rra.rraDef.cf = .last
  let pdpStep := target.rrd.pdpStep
  let cdpStep := target.rra.rraDef.pdpCnt * pdpStep
  let lastUp := target.rrd.lastUp
  let start := lastUp / cdpStep * cdpStep
  let oldest := s32 (s32 lastUp - column.rowCnt * column.slot)
  (∀ age < lastUp / pdpStep % target.rra.rraDef.pdpCnt, column.rrd.rowsBefore column.rraIndex + column.rowOfAge age < 2 ^ 31) ∧
    if pdpStep = 1 then cdpStep ∣ lastUp ∧ 0 < lastUp ∧ (last ∨ oldest < lastUp - 1)
    else if cdpStep ≤ lastUp then oldest < start ∨ last ∧ (lastUp < start + pdpStep ∨ oldest < start + pdpStep)
    else if oldest < 1 - pdpStep then (2 ^ 64 + 1) / pdpStep % 2 ^ 32 = target.rra.rraDef.pdpCnt
    else last ∧ (lastUp < pdpStep ∨ oldest < pdpStep)

/-- The target has more than one primary data point per row, and `cdp_rra_index` is what `rra_for_cdp_prefilling` makes
it; the values lie in memory. -/
structure CdpPrefill (target : SourceCandidate) (i : Fin target.rrd.rra.length) : Prop where
  plain : target.rra.rraDef.cf.isPlain
  pdpCnt : 2 ≤ target.rra.rraDef.pdpCnt
  cdpStep_lt : target.rra.rraDef.pdpCnt * target.rrd.pdpStep < 2 ^ 31
  one : (target.inRra i).rra.rraDef.pdpCnt = 1
  sized : (target.inRra i).Sized
  long : 2 * target.rra.rraDef.pdpCnt ≤ (target.inRra i).rra.rraDef.rowCnt
  fits : (target.rrd.rowsBefore i + (target.inRra i).rra.rraDef.rowCnt) * target.rrd.dsCnt < 2 ^ 61

/-! ### Single primary data points -/

section Feed
variable {cf : Cf} {s : RrdValue × ℕ} {x : RrdValue} {xs : List RrdValue}

/-- One primary data point that does not close the row. -/
@[grind] def feed (cf : Cf) (s : RrdValue × ℕ) (x : RrdValue) : RrdValue × ℕ :=
  if x.isnan then (s.1, s.2 + 1) else (calculateCdpVal cf s.1 x 1, s.2)

lemma updateCdp_open (cf : Cf) (c : CdpPrep) (x : RrdValue) (offset pdpCnt : ℕ) (xff : RrdValue) :
    (updateCdp cf c x 0 1 offset pdpCnt xff).state = feed cf c.state x := by
  rw [updateCdp, if_neg (lt_irrefl 0), feed]
  split_ifs <;> rfl

/-- The last primary data point of a row leaves a new row. -/
lemma updateCdp_last (cf : Cf) (c : CdpPrep) (x : RrdValue) (pdpCnt : ℕ) (xff : RrdValue) :
    (updateCdp cf c x 1 1 1 pdpCnt xff).state = (carryOverInit cf, 0) := by
  have hval : initializeCarryOver cf x 1 1 pdpCnt = carryOverInit cf := by
    unfold initializeCarryOver
    exact if_pos (.inl (by rw [Nat.sub_self, Nat.zero_mod]))
  have hunkn : (if x.isnan then (1 - 1) % pdpCnt else 0) = 0 := by
    rw [Nat.sub_self, Nat.zero_mod, ite_self]
  rw [updateCdp, if_pos one_pos]
  exact Prod.ext hval hunkn

lemma replay_state {rra : RraDef} {j : ℕ} (hj : j + xs.length < rra.pdpCnt) (c : CdpPrep) :
    (replay rra j xs c).state = xs.foldl (feed rra.cf) c.state := by
  induction xs generalizing j c with
  | nil => rfl
  | cons x xs ih =>
    rw [List.length_cons] at hj
    have hopen : rraStepCnt rra 1 j = 0 := by
      rw [rraStepCnt, startPdpOffset, Nat.mod_eq_of_lt (by omega)]
      exact if_neg (by omega)
    rw [replay, ih (by omega), hopen, updateCdp_open, List.foldl_cons]

/-- The unknown primary data points are counted. -/
lemma foldl_feed_unkn : (xs.foldl (feed cf) s).2 = s.2 + xs.countP (·.isnan) := by
  induction xs generalizing s with
  | nil => rfl
  | cons x xs ih =>
    rw [List.foldl_cons, ih, List.countP_cons, feed]
    split_ifs <;> omega

lemma feed_nan : feed cf s .nan = (s.1, s.2 + 1) := rfl

lemma foldl_feed_nan (h : ∀ x ∈ xs, x = .nan) : xs.foldl (feed cf) s = (s.1, s.2 + xs.length) := by
  induction xs generalizing s with
  | nil => rfl
  | cons x xs ih =>
    rw [List.foldl_cons, h x List.mem_cons_self, feed_nan, ih fun y hy => h y (List.mem_cons_of_mem x hy),
      List.length_cons, add_assoc, add_comm 1]

/-- Only an empty row of `LAST` has no value. -/
lemma carryOverInit_eq_nan (hplain : cf.isPlain) : carryOverInit cf = .nan ↔ cf = .last := by
  cases cf <;> simp_all [carryOverInit, Cf.isPlain]

end Feed

/-! ### One time of the loop -/

section Visit
variable {target c : SourceCandidate} {v : ℕ → RrdValue} {t : ℤ} {s : RrdValue × ℕ}

/-- What the loop does at a time that is not after the last row. -/
@[grind] def visit (target c : SourceCandidate) (v : ℕ → RrdValue) (s : RrdValue × ℕ) (t : ℤ) : RrdValue × ℕ :=
  (c.foundAge t).elim s fun a =>
    if pdpsLeft target t = 1 then (carryOverInit target.rra.rraDef.cf, 0)
    else feed target.rra.rraDef.cf s (v (c.cdpRraIdx (c.rowOfAge a)))

lemma prefillCdpStep_state (h : c.Sized) (ht : t ≤ c.now) (cdp : CdpPrep) :
    (prefillCdpStep target c cdp t).state = visit target c c.rrd.rrdValue cdp.state t := by
  rw [prefillCdpStep, visit, rowForTime_eq h ht]
  cases c.foundAge t with
  | none => rfl
  | some a =>
    have hrow : ¬((c.rowOfAge a : ℤ) < 0) := (Int.natCast_nonneg _).not_gt
    simp only [Option.elim_some, ← rowOfAge_cast h, if_neg hrow]
    split_ifs with hn
    · have hone : u64 1 = 1 := rfl
      rw [hn, hone, updateCdp_last]
    · exact updateCdp_open _ _ _ _ _ _

/-- There is no row after the last one. -/
lemma rowForTime_beyond (h : c.Sized) (h0 : 0 ≤ t) (ht : c.now < t) :
    rowForTime c.rrd c.rra.rraDef c.rra.curRow t = -1 := by
  have hpos := h.slot_pos
  have hage : c.age t ≤ -1 := Int.lt_add_one_iff.1 ((Int.ediv_lt_iff_lt_mul hpos).2 (by omega))
  have hup := Int.emod_lt_of_pos (c.rrd.lastUp : ℤ) hpos
  have hlast : (c.rrd.lastUp : ℤ) < c.reqTime t := by
    have hmul := mul_le_mul_of_nonneg_right hage hpos.le
    rw [reqTime, if_pos h0]
    have hnow : c.now = c.rrd.lastUp - c.rrd.lastUp % c.slot := rfl
    omega
  rw [rowForTime]
  simp only [timeslot_eq h, reqTime_eq h, reqTime_tmod h, if_false, if_pos hlast]

lemma prefillCdpStep_beyond (h : c.Sized) (h0 : 0 ≤ t) (ht : c.now < t) (cdp : CdpPrep) :
    prefillCdpStep target c cdp t = cdp := by
  rw [prefillCdpStep, rowForTime_beyond h h0 ht]
  exact if_pos (by decide)

/-- A row that is not found leaves the area. -/
lemma visit_none (h : c.foundAge t = none) : visit target c v s t = s := by
  rw [visit, h, Option.elim_none]

lemma visit_last {a : ℤ} (h : c.foundAge t = some a) (hn : pdpsLeft target t = 1) :
    visit target c v s t = (carryOverInit target.rra.rraDef.cf, 0) := by
  rw [visit, h, Option.elim_some, if_pos hn]

lemma visit_open {a : ℤ} (h : c.foundAge t = some a) (hn : pdpsLeft target t ≠ 1) :
    visit target c v s t = feed target.rra.rraDef.cf s (v (c.cdpRraIdx (c.rowOfAge a))) := by
  rw [visit, h, Option.elim_some, if_neg hn]

/-- At most one unknown value is counted at a time. -/
lemma visit_unkn : (visit target c v s t).2 ≤ s.2 + 1 := by
  rw [visit]
  cases c.foundAge t with
  | none => exact Nat.le_succ _
  | some a =>
    rw [Option.elim_some, feed]
    split_ifs
    · exact Nat.zero_le _
    · exact le_rfl
    · exact Nat.le_succ _

/-- Where no value is unknown, nothing is counted. -/
lemma foldl_visit_known {ts : List ℤ} (h0 : s.2 = 0)
    (hknown : ∀ t ∈ ts, ∀ a, c.foundAge t = some a → v (c.cdpRraIdx (c.rowOfAge a)) ≠ .nan) :
    (ts.foldl (visit target c v) s).2 = 0 := by
  induction ts generalizing s with
  | nil => exact h0
  | cons t ts ih =>
    refine ih ?_ fun t' ht' => hknown t' (List.mem_cons_of_mem t ht')
    cases hfound : c.foundAge t with
    | none => rw [visit_none hfound, h0]
    | some a =>
      by_cases hn : pdpsLeft target t = 1
      · rw [visit_last hfound hn]
      · have hv := hknown t List.mem_cons_self a hfound
        rw [visit_open hfound hn, feed, if_neg fun hnan => hv (ExtNum.isnan_eq_true.1 hnan)]
        exact h0

lemma foldl_prefillCdpStep (h : c.Sized) {ts : List ℤ} (hts : ∀ t ∈ ts, t ≤ c.now) (cdp : CdpPrep) :
    (ts.foldl (prefillCdpStep target c) cdp).state = ts.foldl (visit target c c.rrd.rrdValue) cdp.state := by
  induction ts generalizing cdp with
  | nil => rfl
  | cons t ts ih =>
    rw [List.foldl_cons, List.foldl_cons, ih fun t' ht' => hts t' (List.mem_cons_of_mem t ht'),
      prefillCdpStep_state h (hts t List.mem_cons_self)]

/-- The loop, for a known number of iterations. -/
lemma prefillCdpLoop_eq {stop : ℤ} {k fuel : ℕ} (hfuel : k < fuel)
    (hgo : ∀ j < k, t + j * target.rrd.pdpStep < min stop target.rrd.lastUp)
    (hend : min stop target.rrd.lastUp ≤ t + k * target.rrd.pdpStep) (cdp : CdpPrep) :
    prefillCdpLoop target c stop fuel t cdp =
      some (((List.range k).map fun j : ℕ => t + j * target.rrd.pdpStep).foldl (prefillCdpStep target c) cdp) := by
  induction k generalizing fuel t cdp with
  | zero =>
    obtain ⟨fuel, rfl⟩ := Nat.exists_eq_add_one_of_ne_zero (Nat.ne_of_gt hfuel)
    rw [prefillCdpLoop, if_neg (by omega)]
    rfl
  | succ k ih =>
    obtain ⟨fuel, rfl⟩ := Nat.exists_eq_add_one_of_ne_zero (Nat.ne_of_gt (Nat.zero_lt_of_lt hfuel))
    have hfirst := hgo 0 k.succ_pos
    have hshift : ∀ j : ℕ, t + target.rrd.pdpStep + j * target.rrd.pdpStep = t + (j + 1 : ℕ) * target.rrd.pdpStep :=
      fun j => by push_cast; ring
    rw [prefillCdpLoop, if_pos (by omega), ih (by omega) (fun j hj => by rw [hshift]; exact hgo (j + 1) (by omega))
      (by rw [hshift]; exact hend), List.range_succ_eq_map, List.map_cons, List.map_map, List.foldl_cons]
    simp only [Function.comp_def, hshift, Nat.succ_eq_add_one, Nat.cast_zero, zero_mul, add_zero]

end Visit

/-! ### The times of the loop -/

namespace SourceCandidate
variable (target : SourceCandidate)

/-- The last second before the open row. -/
@[grind] def cdpStart : ℤ :=
  (target.rrd.lastUp / (target.rra.rraDef.pdpCnt * target.rrd.pdpStep) *
    (target.rra.rraDef.pdpCnt * target.rrd.pdpStep) : ℕ)

/-- The primary data points of the open row that have ended. -/
@[grind] def openCnt : ℕ := target.rrd.lastUp / target.rrd.pdpStep % target.rra.rraDef.pdpCnt

/-- The time of the iteration `j`. -/
@[grind] def rowTime (j : ℕ) : ℤ := target.cdpStart + 1 + (j - target.rra.rraDef.pdpCnt) * target.rrd.pdpStep

/-- Rows that end then are too old for `row_for_time`. -/
def oldest : ℤ := s32 (s32 target.rrd.lastUp - target.rowCnt * target.slot)

end SourceCandidate

lemma SourceCandidate.lastUp_eq (target : SourceCandidate) : (target.rrd.lastUp : ℤ) =
    target.cdpStart + target.openCnt * target.rrd.pdpStep + (target.rrd.lastUp % target.rrd.pdpStep : ℕ) := by
  have hcdp := Nat.div_add_mod' target.rrd.lastUp (target.rra.rraDef.pdpCnt * target.rrd.pdpStep)
  have hpdp := Nat.mod_mul_left_div_self target.rrd.lastUp target.rrd.pdpStep target.rra.rraDef.pdpCnt
  have hrest := Nat.div_add_mod' (target.rrd.lastUp % (target.rra.rraDef.pdpCnt * target.rrd.pdpStep)) target.rrd.pdpStep
  rw [hpdp, Nat.mod_mul_left_mod] at hrest
  rw [cdpStart, openCnt]
  norm_cast
  omega

lemma SourceCandidate.rowTime_mono (target : SourceCandidate) {j j' : ℕ} (hle : j ≤ j') : target.rowTime j ≤ target.rowTime j' := by
  have hmul := mul_le_mul_of_nonneg_right (Int.ofNat_le.2 hle) (Int.natCast_nonneg target.rrd.pdpStep)
  rw [rowTime, rowTime, sub_mul, sub_mul]
  linarith

lemma SourceCandidate.rowTime_inside (target : SourceCandidate) (j : ℕ) :
    target.rowTime (target.rra.rraDef.pdpCnt + j) = target.cdpStart + (1 + j * target.rrd.pdpStep) := by
  rw [rowTime]
  push_cast
  ring

lemma SourceCandidate.cdpStart_nonneg (target : SourceCandidate) : 0 ≤ target.cdpStart := Int.natCast_nonneg _

namespace CdpPrefill
variable {target : SourceCandidate} {i : Fin target.rrd.rra.length} {j : ℕ} (h : CdpPrefill target i)
include h

lemma slot_eq : (target.inRra i).slot = target.rrd.pdpStep := by
  rw [slot, h.one, Nat.cast_one, one_mul]
  rfl

lemma pdpStep_pos : 0 < target.rrd.pdpStep := by
  have hpos := h.sized.slot_pos
  rw [h.slot_eq] at hpos
  exact_mod_cast hpos

lemma cdpStep_pos : 0 < target.rra.rraDef.pdpCnt * target.rrd.pdpStep :=
  Nat.mul_pos (by have := h.pdpCnt; omega) h.pdpStep_pos

lemma openCnt_lt : target.openCnt < target.rra.rraDef.pdpCnt :=
  Nat.mod_lt _ (by have := h.pdpCnt; omega)

lemma now_eq : (target.inRra i).now = target.cdpStart + target.openCnt * target.rrd.pdpStep := by
  have hup := target.lastUp_eq
  have hnow : (target.inRra i).now = target.rrd.lastUp - (target.rrd.lastUp % target.rrd.pdpStep : ℕ) := by
    rw [now, h.slot_eq]
    rfl
  omega

lemma getCdpStartEnd_eq : getCdpStartEnd target.rrd target.rra.rraDef =
    (target.cdpStart + 1, target.cdpStart + (target.rra.rraDef.pdpCnt * target.rrd.pdpStep : ℕ)) := by
  have hstep : s32 (target.rra.rraDef.pdpCnt * target.rrd.pdpStep) =
      (target.rra.rraDef.pdpCnt * target.rrd.pdpStep : ℕ) := by
    rw [← Nat.cast_mul, s32_natCast h.cdpStep_lt]
  have hstart : (target.rrd.lastUp : ℤ).tdiv (target.rra.rraDef.pdpCnt * target.rrd.pdpStep : ℕ) *
      (target.rra.rraDef.pdpCnt * target.rrd.pdpStep : ℕ) = target.cdpStart := by
    rw [cdpStart, Int.tdiv_eq_ediv_of_nonneg (Int.natCast_nonneg _), Nat.cast_mul (_ / _), Int.natCast_div]
  rw [getCdpStartEnd, hstep]
  simp only [hstart]
  exact Prod.ext rfl (by dsimp only; omega)

lemma age_rowTime : (target.inRra i).age (target.rowTime j) =
    target.rra.rraDef.pdpCnt + target.openCnt - 1 - j := by
  have hpos := h.pdpStep_pos
  refine age_eq h.sized ?_ ?_
  · rw [h.now_eq, h.slot_eq, rowTime]
    linarith
  · rw [h.now_eq, h.slot_eq, rowTime]
    have : (1 : ℤ) ≤ target.rrd.pdpStep := by exact_mod_cast hpos
    linarith

lemma pastCnt_rowTime (h0 : 0 ≤ target.rowTime j) : (target.inRra i).pastCnt (target.rowTime j) =
    target.rra.rraDef.pdpCnt + target.openCnt - 1 - j := by
  rw [pastCnt_eq h.sized, if_pos (.inl h0), add_zero, h.age_rowTime]

/-- From the epoch on, `row_for_time` looks for the end of the row. -/
lemma reqTime_rowTime (h0 : 0 ≤ target.rowTime j) : (target.inRra i).reqTime (target.rowTime j) =
    target.cdpStart + (j + 1 - target.rra.rraDef.pdpCnt) * target.rrd.pdpStep := by
  rw [reqTime, if_pos h0, h.age_rowTime, h.now_eq, h.slot_eq]
  ring

/-- The archive is long enough: a row that is not too old is found. -/
lemma foundAge_rowTime : (target.inRra i).foundAge (target.rowTime j) =
    if (target.inRra i).reqTime (target.rowTime j) ≤ (target.inRra i).oldest then none
    else some ((target.inRra i).pastCnt (target.rowTime j)) := by
  have hpast : (target.inRra i).pastCnt (target.rowTime j) < (target.inRra i).rowCnt := by
    have hopen := h.openCnt_lt
    have hlong := h.long
    have hrows : (target.inRra i).rowCnt = (target.inRra i).rra.rraDef.rowCnt := rfl
    rw [pastCnt_eq h.sized, h.age_rowTime]
    split_ifs <;> omega
  rw [foundAge, if_neg hpast.not_ge]
  rfl

end CdpPrefill

/-! ### The indices of the rows -/

section Idx
variable {c : SourceCandidate}

lemma firstCdpRraValue_eq (c : SourceCandidate) : c.firstCdpRraValue = s32 (c.rrd.rowsBefore c.rraIndex) := by
  have hsum : ∀ (rras : List MemRra) (first : ℤ), rras.foldl (fun first rra => s32 (first + rra.rraDef.rowCnt)) (s32 first) =
      s32 (first + ((rras.map (·.rraDef.rowCnt)).sum : ℕ)) := by
    intro rras
    induction rras with
    | nil => exact fun first => by simp
    | cons rra rras ih =>
      intro first
      rw [List.foldl_cons, s32_add_left, ih, List.map_cons, List.sum_cons, Nat.cast_add, add_assoc]
  have hzero : s32 0 = 0 := rfl
  rw [firstCdpRraValue, ← hzero, hsum, zero_add]
  rfl

/-- The index of a row of the archive in `rrd_value`. -/
def SourceCandidate.rowIdx (c : SourceCandidate) (row : ℕ) : ℕ :=
  (c.rrd.rowsBefore c.rraIndex + row) * c.rrd.dsCnt + c.l

/-- An index counted by `int`s is the index of a row of the archive only if it is that of the row itself, and then it
did not wrap around. -/
lemma cdpRraIdx_eq_iff {r row : ℕ} (hr : r < c.rra.rraDef.rowCnt) (hrow : row < c.rra.rraDef.rowCnt)
    (hrows : c.rra.rraDef.rowCnt < 2 ^ 31)
    (hfits : (c.rrd.rowsBefore c.rraIndex + c.rra.rraDef.rowCnt) * c.rrd.dsCnt < 2 ^ 61) :
    c.cdpRraIdx r = c.rowIdx row ↔ r = row ∧ c.rrd.rowsBefore c.rraIndex + r < 2 ^ 31 := by
  have hl : (c.l : ℕ) < c.rrd.dsCnt := c.l.isLt
  have hbelow : ∀ {n : ℕ}, n < c.rrd.rowsBefore c.rraIndex + c.rra.rraDef.rowCnt → n * c.rrd.dsCnt + c.l < 2 ^ 61 :=
    fun hn => by
      have hmul := Nat.mul_le_mul_right c.rrd.dsCnt (Nat.succ_le_of_lt hn)
      rw [Nat.succ_mul] at hmul
      omega
  rw [cdpRraIdx, firstCdpRraValue_eq, s32_add_left, ← Nat.cast_add, rowIdx]
  constructor
  · intro heq
    obtain hz | hz := lt_or_ge (s32 (c.rrd.rowsBefore c.rraIndex + r : ℕ)) 0
    · -- the index of such a row is far above the values
      have hwrapped : 2 ^ 31 ≤ c.rrd.rowsBefore c.rraIndex + r := by
        by_contra hlt
        rw [s32_natCast (not_le.1 hlt)] at hz
        omega
      have hds : c.rrd.dsCnt < 2 ^ 30 := by
        have hmul := Nat.mul_le_mul_right c.rrd.dsCnt (hwrapped.trans (Nat.add_le_add_left hr.le _))
        omega
      have hlow := le_s32 (c.rrd.rowsBefore c.rraIndex + r : ℕ)
      have hprod := mul_le_mul_of_nonneg_right hlow (Int.natCast_nonneg c.rrd.dsCnt)
      have hprod' := mul_le_mul_of_nonneg_right (Int.le_sub_one_of_lt hz) (Int.natCast_nonneg c.rrd.dsCnt)
      have hrowIdx := hbelow (Nat.add_lt_add_left hrow (c.rrd.rowsBefore c.rraIndex))
      rw [u64_eq_emod, ← Int.add_emod_right, Int.emod_eq_of_lt (by omega) (by omega)] at heq
      omega
    · have hemod := s32_emod (c.rrd.rowsBefore c.rraIndex + r : ℕ)
      have hlt := s32_lt (c.rrd.rowsBefore c.rraIndex + r : ℕ)
      lift s32 (c.rrd.rowsBefore c.rraIndex + r : ℕ) to ℕ using hz with z
      have hzlt := hbelow (show z < c.rrd.rowsBefore c.rraIndex + c.rra.rraDef.rowCnt by omega)
      rw [← Nat.cast_mul, ← Nat.cast_add, u64_natCast (by omega)] at heq
      have hz : z = c.rrd.rowsBefore c.rraIndex + row :=
        Nat.eq_of_mul_eq_mul_right (Nat.zero_lt_of_lt hl) (Nat.add_right_cancel heq)
      constructor <;> omega
  · rintro ⟨rfl, hint⟩
    have hidx := hbelow (Nat.add_lt_add_left hr (c.rrd.rowsBefore c.rraIndex))
    rw [s32_natCast hint, ← Nat.cast_mul, ← Nat.cast_add, u64_natCast (by omega)]

/-- The row of an age, as the specification has it. -/
lemma value_eq (h : c.Sized) {age : ℕ} (hage : age < c.rra.rraDef.rowCnt) :
    c.rrd.value c.rraIndex c.l age = c.rrd.rrdValue (c.rowIdx (c.rowOfAge age)) := by
  have hrra : c.rrd.rra[(c.rraIndex : ℕ)]? = some c.rra := List.getElem?_eq_getElem c.rraIndex.isLt
  have hrow : (c.rra.curRow + c.rra.rraDef.rowCnt - age) % c.rra.rraDef.rowCnt = c.rowOfAge age := by
    have hcnt : c.rowCnt = c.rra.rraDef.rowCnt := rfl
    have hcast : ((c.rra.curRow + c.rra.rraDef.rowCnt - age : ℕ) : ℤ) = c.rra.curRow - age + c.rra.rraDef.rowCnt := by
      omega
    have hrowOfAge := rowOfAge_cast h age
    rw [hcnt, ← Int.add_emod_right, ← hcast] at hrowOfAge
    exact_mod_cast hrowOfAge.symm
  rw [MemRrd.value, hrra]
  simp only [hrow]
  rfl

end Idx

/-! ### The iterations -/

namespace CdpPrefill
variable {target : SourceCandidate} {i : Fin target.rrd.rra.length} {j n : ℕ} {v : ℕ → RrdValue} {s : RrdValue × ℕ}
  (h : CdpPrefill target i)

/-- Iterations that find a row, or may find one. -/
@[grind] def iterations (target : SourceCandidate) : ℕ :=
  target.rra.rraDef.pdpCnt + target.openCnt - if target.rrd.pdpStep = 1 then 1 else 0

/-- The values of the first iterations, in turn. -/
def visitRows (target : SourceCandidate) (i : Fin target.rrd.rra.length) (v : ℕ → RrdValue) (n : ℕ) (s : RrdValue × ℕ) :
    RrdValue × ℕ :=
  ((List.range n).map target.rowTime).foldl (visit target (target.inRra i) v) s

lemma visitRows_succ : visitRows target i v (n + 1) s =
    visit target (target.inRra i) v (visitRows target i v n s) (target.rowTime n) := by
  rw [visitRows, List.range_succ, List.map_append, List.foldl_append]
  rfl

lemma iterations_eq (hstep : target.rrd.pdpStep ≠ 1) :
    iterations target = target.rra.rraDef.pdpCnt + target.openCnt := by
  rw [iterations, if_neg hstep, Nat.sub_zero]

/-- The values that the loop reads for the open row. -/
@[grind] def readPdps (target : SourceCandidate) (i : Fin target.rrd.rra.length) (v : ℕ → RrdValue) : List RrdValue :=
  (List.range target.openCnt).reverse.map fun age : ℕ => v ((target.inRra i).cdpRraIdx ((target.inRra i).rowOfAge age))

/-- The values that the replay takes. -/
@[grind] def replayPdps (target : SourceCandidate) (i : Fin target.rrd.rra.length) (v : ℕ → RrdValue) : List RrdValue :=
  (List.range target.openCnt).reverse.map fun age : ℕ => v ((target.inRra i).rowIdx ((target.inRra i).rowOfAge age))

/-- The indices of the rows of the open row are `int`s. -/
def IntRows (target : SourceCandidate) (i : Fin target.rrd.rra.length) : Prop :=
  ∀ age < target.openCnt, target.rrd.rowsBefore i + (target.inRra i).rowOfAge age < 2 ^ 31

/-- The loop leaves what the replay leaves, whatever the values are. -/
@[grind] def Same (target : SourceCandidate) (i : Fin target.rrd.rra.length) : Prop :=
  ∀ v, visitRows target i v (iterations target) (.nan, 0) =
    (replayPdps target i v).foldl (feed target.rra.rraDef.cf) (carryOverInit target.rra.rraDef.cf, 0)

lemma replayPdps_nan (s : RrdValue × ℕ) : (replayPdps target i fun _ => .nan).foldl (feed target.rra.rraDef.cf) s =
    (s.1, s.2 + target.openCnt) := by
  rw [foldl_feed_nan fun x hx => ?_, replayPdps, List.length_map, List.length_reverse, List.length_range]
  obtain ⟨-, -, rfl⟩ := List.mem_map.1 hx
  rfl

lemma readPdps_nan (s : RrdValue × ℕ) : (readPdps target i fun _ => .nan).foldl (feed target.rra.rraDef.cf) s =
    (s.1, s.2 + target.openCnt) := by
  rw [foldl_feed_nan fun x hx => ?_, readPdps, List.length_map, List.length_reverse, List.length_range]
  obtain ⟨-, -, rfl⟩ := List.mem_map.1 hx
  rfl

include h

lemma freshCdp_state : (freshCdp target).state = (.nan, 0) := by
  have hplain := h.plain
  rw [freshCdp, initCdpAgain]
  cases hcf : target.rra.rraDef.cf <;> simp_all [Cf.isPlain, CdpPrep.state]

/-- The loop runs over these iterations, and over one more where the row has not ended. -/
lemma exists_iterations : ∃ k, k < 2 * target.rra.rraDef.pdpCnt + 1 ∧
    (∀ j < k, target.rowTime j < target.rrd.lastUp) ∧ (target.rrd.lastUp : ℤ) ≤ target.rowTime k ∧
    (k = iterations target ∨
      k = iterations target + 1 ∧ (target.inRra i).now < target.rowTime (iterations target)) := by
  have hup := target.lastUp_eq
  have hnow := h.now_eq
  have hopen := h.openCnt_lt
  have hcnt := h.pdpCnt
  have hpos := h.pdpStep_pos
  have hrest := Nat.mod_lt target.rrd.lastUp hpos
  have hlt : ∀ j k : ℕ, j + 1 ≤ k → target.rowTime j + target.rrd.pdpStep ≤ target.rowTime k := fun j k hjk => by
    have hmul := mul_le_mul_of_nonneg_right (Int.ofNat_le.2 hjk) (Int.natCast_nonneg target.rrd.pdpStep)
    rw [rowTime, rowTime]
    push_cast at hmul ⊢
    linarith
  have htime : target.rowTime (target.rra.rraDef.pdpCnt + target.openCnt) =
      target.cdpStart + 1 + target.openCnt * target.rrd.pdpStep := by
    rw [rowTime]
    push_cast
    ring
  rw [iterations]
  split_ifs with hone
  · have hrow : ∀ n : ℕ, target.rowTime n = target.cdpStart + 1 + (n - target.rra.rraDef.pdpCnt) := fun n => by
      rw [rowTime, hone, Nat.cast_one, mul_one]
    rw [hone, Nat.mod_one, Nat.cast_one, mul_one] at hup
    refine ⟨_, by omega, fun j hj => ?_, ?_, .inl rfl⟩
    · rw [hrow]
      omega
    · rw [hrow]
      omega
  · rw [Nat.sub_zero]
    obtain hshort | hlong := le_or_gt (target.rrd.lastUp % target.rrd.pdpStep) 1
    · refine ⟨_, by omega, fun j hj => ?_, by omega, .inl rfl⟩
      have hbefore := hlt j _ (Nat.succ_le_of_lt hj)
      omega
    · have hnext := hlt (target.rra.rraDef.pdpCnt + target.openCnt) _ le_rfl
      refine ⟨target.rra.rraDef.pdpCnt + target.openCnt + 1, by omega, fun j hj => ?_, by omega, .inr ⟨rfl, by omega⟩⟩
      have hbefore := target.rowTime_mono (Nat.le_of_lt_succ hj)
      omega

lemma rowTime_le_now (hj : j < target.rra.rraDef.pdpCnt + target.openCnt) : target.rowTime j ≤ (target.inRra i).now := by
  have hpos := h.pdpStep_pos
  have hmul := mul_le_mul_of_nonneg_right (Int.ofNat_le.2 (Nat.succ_le_of_lt hj)) (Int.natCast_nonneg target.rrd.pdpStep)
  rw [h.now_eq, rowTime]
  push_cast at hmul
  linarith [Int.natCast_pos.2 hpos]

/-- Without a candidate to copy from, the loop visits the rows. -/
lemma prefillCdpPrep_state {candidates : List SourceCandidate} (hnone : ∀ c ∈ candidates, ¬target.FullyCompatible c) :
    (prefillCdpPrep target (target.inRra i) candidates).map CdpPrep.state =
      some (visitRows target i target.rrd.rrdValue (iterations target) (.nan, 0)) := by
  have hcnt := h.pdpCnt
  have hfind : (candidates.find? fun candidate => target.FullyCompatible candidate) = none :=
    List.find?_eq_none.2 fun c hc => by simpa using hnone c hc
  have hstop : min (target.cdpStart + (target.rra.rraDef.pdpCnt * target.rrd.pdpStep : ℕ)) (target.rrd.lastUp : ℤ) =
      target.rrd.lastUp := by
    have hdiv := Nat.div_add_mod' target.rrd.lastUp (target.rra.rraDef.pdpCnt * target.rrd.pdpStep)
    have hrest := Nat.mod_lt target.rrd.lastUp h.cdpStep_pos
    rw [cdpStart, ← Nat.cast_add, min_eq_right]
    exact_mod_cast (by omega)
  have htime : ∀ j : ℕ, target.cdpStart + 1 - target.rra.rraDef.pdpCnt * target.rrd.pdpStep + j * target.rrd.pdpStep =
      target.rowTime j := fun j => by
    rw [rowTime]
    ring
  obtain ⟨k, hk, hgo, hend, hlast⟩ := h.exists_iterations
  have hloop := @prefillCdpLoop_eq target (target.inRra i) _ _ k _ hk (fun j hj => by rw [hstop, htime]; exact hgo j hj)
    (by rw [hstop, htime]; exact hend) (freshCdp target)
  simp only [htime] at hloop
  rw [prefillCdpPrep, hfind]
  simp only [h.getCdpStartEnd_eq, if_neg (show target.rra.rraDef.pdpCnt ≠ 1 by omega)]
  have hvisit : (((List.range (iterations target)).map target.rowTime).foldl (prefillCdpStep target (target.inRra i))
      (freshCdp target)).state = visitRows target i target.rrd.rrdValue (iterations target) (.nan, 0) := by
    rw [foldl_prefillCdpStep h.sized, h.freshCdp_state]
    · rfl
    · intro t ht
      obtain ⟨j, hj, rfl⟩ := List.mem_map.1 ht
      exact h.rowTime_le_now ((List.mem_range.1 hj).trans_le (Nat.sub_le _ _))
  rw [hloop, Option.map_some]
  obtain rfl | ⟨rfl, hbeyond⟩ := hlast
  · rw [hvisit]
  · have h0 : 0 ≤ (target.inRra i).now := by
      rw [h.now_eq, cdpStart]
      positivity
    rw [List.range_succ, List.map_append, List.foldl_append, List.map_singleton, List.foldl_cons, List.foldl_nil,
      prefillCdpStep_beyond h.sized (by omega) hbeyond, hvisit]

/-! ### The row before the open one -/

lemma visit_old (hold : (target.inRra i).reqTime (target.rowTime j) ≤ (target.inRra i).oldest) :
    visit target (target.inRra i) v s (target.rowTime j) = s :=
  visit_none (by rw [h.foundAge_rowTime, if_pos hold])

/-- When the last row is too old, all rows are. -/
lemma visitRows_old (hold : (target.inRra i).reqTime (target.rowTime n) ≤ (target.inRra i).oldest) :
    visitRows target i v (n + 1) s = s := by
  induction n generalizing s with
  | zero => exact visitRows_succ.trans (h.visit_old hold)
  | succ n ih =>
    rw [visitRows_succ, ih ((reqTime_mono h.sized (target.rowTime_mono n.le_succ)).trans hold), h.visit_old hold]

lemma visitRows_last (hnew : (target.inRra i).oldest < (target.inRra i).reqTime (target.rowTime n))
    (hn : pdpsLeft target (target.rowTime n) = 1) :
    visitRows target i v (n + 1) s = (carryOverInit target.rra.rraDef.cf, 0) := by
  rw [visitRows_succ]
  exact visit_last (by rw [h.foundAge_rowTime, if_neg hnew.not_ge]) hn

lemma visitRows_open (hnew : (target.inRra i).oldest < (target.inRra i).reqTime (target.rowTime n))
    (hn : pdpsLeft target (target.rowTime n) ≠ 1) :
    0 < (visitRows target i (fun _ => .nan) (n + 1) s).2 := by
  rw [visitRows_succ, visit_open (by rw [h.foundAge_rowTime, if_neg hnew.not_ge]) hn]
  exact Nat.succ_pos _

/-! ### The rows of the open one -/

/-- A time in a row of the target tells how many primary data points are left. -/
lemma pdpsLeft_eq (k : ℕ) {x : ℕ} (hx : x < target.rra.rraDef.pdpCnt * target.rrd.pdpStep) :
    pdpsLeft target (k * (target.rra.rraDef.pdpCnt * target.rrd.pdpStep) + x : ℕ) =
      target.rra.rraDef.pdpCnt - (x / target.rrd.pdpStep : ℕ) := by
  have hcdp := h.cdpStep_lt
  have hstep : s32 (target.rrd.pdpStep * target.rra.rraDef.pdpCnt) =
      (target.rra.rraDef.pdpCnt * target.rrd.pdpStep : ℕ) := by
    rw [mul_comm, ← Nat.cast_mul, s32_natCast hcdp]
  have hpdps : x / target.rrd.pdpStep < target.rra.rraDef.pdpCnt :=
    (Nat.div_lt_iff_lt_mul h.pdpStep_pos).2 hx
  have hcnt : target.rra.rraDef.pdpCnt < 2 ^ 31 := (Nat.le_mul_of_pos_right _ h.pdpStep_pos).trans_lt hcdp
  rw [pdpsLeft, hstep, Int.tmod_eq_emod_of_nonneg (Int.natCast_nonneg _), ← Int.natCast_mod,
    Nat.mul_add_mod_self_right, Nat.mod_eq_of_lt hx, u64_natCast (by omega)]
  generalize x / target.rrd.pdpStep = pdps at hpdps
  exact s32_of_lt (by omega) (by omega)

/-- The primary data points before one of the row. -/
lemma pdpsLeft_rowTime (hstep : target.rrd.pdpStep ≠ 1) (k : ℕ) (hj : j < target.rra.rraDef.pdpCnt) :
    pdpsLeft target (k * (target.rra.rraDef.pdpCnt * target.rrd.pdpStep) + (1 + j * target.rrd.pdpStep) : ℕ) =
      target.rra.rraDef.pdpCnt - j := by
  have hpos := h.pdpStep_pos
  have hlt : 1 + j * target.rrd.pdpStep < target.rra.rraDef.pdpCnt * target.rrd.pdpStep := by
    have hmul := Nat.mul_le_mul_right target.rrd.pdpStep (Nat.succ_le_of_lt hj)
    rw [Nat.succ_mul] at hmul
    omega
  rw [h.pdpsLeft_eq k hlt, Nat.add_mul_div_right _ _ hpos, Nat.div_eq_of_lt (by omega), zero_add]

lemma visit_inside (hstep : target.rrd.pdpStep ≠ 1) (hj : j < target.openCnt)
    (hnew : (target.inRra i).oldest < target.cdpStart + (j + 1) * target.rrd.pdpStep) :
    visit target (target.inRra i) v s (target.rowTime (target.rra.rraDef.pdpCnt + j)) =
      feed target.rra.rraDef.cf s
        (v ((target.inRra i).cdpRraIdx ((target.inRra i).rowOfAge (target.openCnt - 1 - j : ℕ)))) := by
  have hopen := h.openCnt_lt
  have h0 : 0 ≤ target.rowTime (target.rra.rraDef.pdpCnt + j) := by
    have := target.cdpStart_nonneg
    rw [target.rowTime_inside]
    positivity
  have hreq := h.reqTime_rowTime h0
  have hpast := h.pastCnt_rowTime h0
  have hleft : pdpsLeft target (target.rowTime (target.rra.rraDef.pdpCnt + j)) = target.rra.rraDef.pdpCnt - j := by
    rw [target.rowTime_inside, cdpStart]
    exact_mod_cast h.pdpsLeft_rowTime hstep _ (by omega)
  have hage : (target.rra.rraDef.pdpCnt + target.openCnt - 1 - (target.rra.rraDef.pdpCnt + j : ℕ) : ℤ) =
      (target.openCnt - 1 - j : ℕ) := by
    omega
  have hrow : (target.cdpStart + ((target.rra.rraDef.pdpCnt + j : ℕ) + 1 - target.rra.rraDef.pdpCnt) *
      target.rrd.pdpStep : ℤ) = target.cdpStart + (j + 1) * target.rrd.pdpStep := by
    push_cast
    ring
  rw [hrow] at hreq
  rw [hage] at hpast
  refine visit_open (a := (target.openCnt - 1 - j : ℕ)) ?_ (by omega)
  rw [h.foundAge_rowTime, if_neg (by omega), hpast]

/-- The rows of the open row are read from the oldest on, if none of them is too old. -/
lemma visitRows_inside (hstep : target.rrd.pdpStep ≠ 1) (hn : n ≤ target.openCnt)
    (hnew : n = 0 ∨ (target.inRra i).oldest < target.cdpStart + target.rrd.pdpStep) :
    visitRows target i v (target.rra.rraDef.pdpCnt + n) s =
      ((List.range n).map fun j => v ((target.inRra i).cdpRraIdx
        ((target.inRra i).rowOfAge (target.openCnt - 1 - j : ℕ)))).foldl (feed target.rra.rraDef.cf)
        (visitRows target i v target.rra.rraDef.pdpCnt s) := by
  induction n with
  | zero => rfl
  | succ n ih =>
    have hfirst := hnew.resolve_left n.succ_ne_zero
    have hlast : (target.inRra i).oldest < target.cdpStart + (n + 1) * target.rrd.pdpStep := by
      have : (0 : ℤ) ≤ n * target.rrd.pdpStep := by positivity
      linarith
    rw [← add_assoc, visitRows_succ, ih (by omega) (.inr hfirst), h.visit_inside hstep hn hlast, List.range_succ,
      List.map_append, List.foldl_append]
    rfl

lemma visitRows_all (hstep : target.rrd.pdpStep ≠ 1)
    (hnew : target.openCnt = 0 ∨ (target.inRra i).oldest < target.cdpStart + target.rrd.pdpStep) :
    visitRows target i v (target.rra.rraDef.pdpCnt + target.openCnt) s =
      (readPdps target i v).foldl (feed target.rra.rraDef.cf) (visitRows target i v target.rra.rraDef.pdpCnt s) := by
  have hreverse : (List.range target.openCnt).reverse = (List.range target.openCnt).map fun j => target.openCnt - 1 - j := by
    rw [List.range_eq_range', List.reverse_range']
    simp only [zero_add, List.range_eq_range']
  rw [h.visitRows_inside hstep le_rfl hnew, readPdps, hreverse, List.map_map]
  rfl

lemma reqTime_first : (target.inRra i).reqTime (target.rowTime target.rra.rraDef.pdpCnt) =
    target.cdpStart + target.rrd.pdpStep := by
  have h0 : 0 ≤ target.rowTime (target.rra.rraDef.pdpCnt + 0) := by
    have := target.cdpStart_nonneg
    rw [target.rowTime_inside]
    positivity
  have hreq := h.reqTime_rowTime h0
  rw [add_zero] at hreq
  rw [hreq]
  ring

/-- A row that is too old is missed. -/
lemma visitRows_missed (hopen : 0 < target.openCnt)
    (hold : target.cdpStart + target.rrd.pdpStep ≤ (target.inRra i).oldest) :
    (visitRows target i (fun _ => .nan) (target.rra.rraDef.pdpCnt + target.openCnt) s).2 <
      (visitRows target i (fun _ => .nan) target.rra.rraDef.pdpCnt s).2 + target.openCnt := by
  have hmiss : ∀ n, (visitRows target i (fun _ => .nan) (target.rra.rraDef.pdpCnt + (n + 1)) s).2 ≤
      (visitRows target i (fun _ => .nan) target.rra.rraDef.pdpCnt s).2 + n := by
    intro n
    induction n with
    | zero =>
      have htime : (target.inRra i).reqTime (target.rowTime target.rra.rraDef.pdpCnt) ≤ (target.inRra i).oldest := by
        rw [h.reqTime_first]
        exact hold
      rw [← add_assoc, visitRows_succ]
      exact (congrArg Prod.snd (h.visit_old htime)).le
    | succ n ih =>
      rw [← add_assoc, visitRows_succ]
      exact visit_unkn.trans (Nat.succ_le_succ ih)
  obtain ⟨n, hn⟩ := Nat.exists_eq_add_one_of_ne_zero hopen.ne'
  have := hmiss n
  rw [hn]
  omega

/-! ### The loop and the replay -/

lemma age_lt_rowCnt {age : ℕ} (hage : age < target.openCnt) : age < (target.inRra i).rra.rraDef.rowCnt := by
  have := h.openCnt_lt
  have := h.long
  omega

lemma replays_iff {candidates : List SourceCandidate} (hnone : ∀ c ∈ candidates, ¬target.FullyCompatible c) :
    Replays target (target.inRra i) candidates ↔
      visitRows target i target.rrd.rrdValue (iterations target) (.nan, 0) =
        (replayPdps target i target.rrd.rrdValue).foldl (feed target.rra.rraDef.cf)
          (carryOverInit target.rra.rraDef.cf, 0) := by
  have hpdps : openPdps target (target.inRra i) = replayPdps target i target.rrd.rrdValue :=
    List.map_congr_left fun age hage =>
      value_eq h.sized (h.age_lt_rowCnt (List.mem_range.1 (List.mem_reverse.1 hage)))
  have hlength : 0 + (replayPdps target i target.rrd.rrdValue).length < target.rra.rraDef.pdpCnt := by
    rw [replayPdps, List.length_map, List.length_reverse, List.length_range, zero_add]
    exact h.openCnt_lt
  rw [Replays, h.prefillCdpPrep_state hnone, hpdps, replay_state hlength, Option.some.injEq]
  rfl

/-- The loop reads other values than the replay when an index is not an `int`. -/
lemma readPdps_eq_iff (c0 : RrdValue) :
    (∀ v, (readPdps target i v).foldl (feed target.rra.rraDef.cf) (c0, 0) =
      (replayPdps target i v).foldl (feed target.rra.rraDef.cf) (c0, 0)) ↔ IntRows target i := by
  have hidx : ∀ {age age' : ℕ}, age < target.openCnt → age' < target.openCnt →
      ((target.inRra i).cdpRraIdx ((target.inRra i).rowOfAge age) = (target.inRra i).rowIdx ((target.inRra i).rowOfAge age') ↔
        (target.inRra i).rowOfAge age = (target.inRra i).rowOfAge age' ∧
          target.rrd.rowsBefore i + (target.inRra i).rowOfAge age < 2 ^ 31) := fun _ _ =>
    cdpRraIdx_eq_iff (rowOfAge_lt h.sized _) (rowOfAge_lt h.sized _) (Nat.cast_lt.1 h.sized.rowCnt_lt) h.fits
  constructor
  · -- exactly the values of the replay are unknown
    intro heq age hage
    let v (k : ℕ) : RrdValue :=
      if k ∈ (List.range target.openCnt).map fun age : ℕ => (target.inRra i).rowIdx ((target.inRra i).rowOfAge age)
      then .nan else .fin 0
    have hreplay : (replayPdps target i v).countP (·.isnan) = target.openCnt := by
      have hall : ∀ x ∈ replayPdps target i v, x.isnan = true := by
        intro x hx
        obtain ⟨age, hage, rfl⟩ := List.mem_map.1 hx
        exact ExtNum.isnan_eq_true.2 (if_pos (List.mem_map_of_mem (List.mem_reverse.1 hage)))
      rw [List.countP_eq_length.2 hall, replayPdps, List.length_map, List.length_reverse, List.length_range]
    have hunkn := congrArg Prod.snd (heq v)
    rw [foldl_feed_unkn, foldl_feed_unkn, hreplay] at hunkn
    have hread : (readPdps target i v).countP (·.isnan) = (readPdps target i v).length := by
      rw [readPdps, List.length_map, List.length_reverse, List.length_range, ← readPdps]
      exact Nat.add_left_cancel hunkn
    have hnan := List.countP_eq_length.1 hread _
      (List.mem_map_of_mem (List.mem_reverse.2 (List.mem_range.2 hage)))
    have hmem : (target.inRra i).cdpRraIdx ((target.inRra i).rowOfAge age) ∈
        (List.range target.openCnt).map fun age : ℕ => (target.inRra i).rowIdx ((target.inRra i).rowOfAge age) := by
      by_contra hnot
      rw [show v _ = .fin 0 from if_neg hnot] at hnan
      cases hnan
    obtain ⟨age', hage', heq'⟩ := List.mem_map.1 hmem
    exact ((hidx hage (List.mem_range.1 hage')).1 heq'.symm).2
  · intro hint v
    have hsame : readPdps target i v = replayPdps target i v :=
      List.map_congr_left fun age hage => by
        have hage := List.mem_range.1 (List.mem_reverse.1 hage)
        rw [(hidx hage hage).2 ⟨rfl, hint age hage⟩]
    rw [hsame]

/-- The last row before the open one is found: it must be closed by it. -/
lemma same_iff_of_new (hstep : target.rrd.pdpStep ≠ 1) (hn : target.rra.rraDef.pdpCnt = n + 1)
    (hnew : (target.inRra i).oldest < (target.inRra i).reqTime (target.rowTime n)) :
    Same target i ↔ IntRows target i ∧ pdpsLeft target (target.rowTime n) = 1 := by
  have hfirst : (target.inRra i).oldest < target.cdpStart + target.rrd.pdpStep := by
    rw [← h.reqTime_first, hn]
    exact hnew.trans_le (reqTime_mono h.sized (target.rowTime_mono n.le_succ))
  by_cases hleft : pdpsLeft target (target.rowTime n) = 1
  · have hsame : Same target i ↔ ∀ v, (readPdps target i v).foldl (feed target.rra.rraDef.cf)
        (carryOverInit target.rra.rraDef.cf, 0) =
          (replayPdps target i v).foldl (feed target.rra.rraDef.cf) (carryOverInit target.rra.rraDef.cf, 0) :=
      forall_congr' fun v => by
        rw [iterations_eq hstep, h.visitRows_all hstep (.inr hfirst), hn, h.visitRows_last hnew hleft]
    rw [hsame, h.readPdps_eq_iff, and_iff_left hleft]
  · refine iff_of_false (fun hsame => ?_) fun hright => hleft hright.2
    have hopen := h.visitRows_open hnew hleft (s := (.nan, 0))
    have hunkn := congrArg Prod.snd (hsame fun _ => .nan)
    rw [iterations_eq hstep, h.visitRows_all hstep (.inr hfirst), hn, readPdps_nan, replayPdps_nan] at hunkn
    dsimp only at hunkn
    omega

/-- It is not found: there is no row that could be closed. -/
lemma same_iff_of_old (hstep : target.rrd.pdpStep ≠ 1) (hn : target.rra.rraDef.pdpCnt = n + 1)
    (hold : (target.inRra i).reqTime (target.rowTime n) ≤ (target.inRra i).oldest) :
    Same target i ↔ IntRows target i ∧ target.rra.rraDef.cf = .last ∧
      (target.openCnt = 0 ∨ (target.inRra i).oldest < target.cdpStart + target.rrd.pdpStep) := by
  by_cases hnew : target.openCnt = 0 ∨ (target.inRra i).oldest < target.cdpStart + target.rrd.pdpStep
  · have hread : ∀ v, visitRows target i v (iterations target) (.nan, 0) =
        (readPdps target i v).foldl (feed target.rra.rraDef.cf) (.nan, 0) := fun v => by
      rw [iterations_eq hstep, h.visitRows_all hstep hnew, hn, h.visitRows_old hold]
    by_cases hlast : target.rra.rraDef.cf = .last
    · rw [Same, (carryOverInit_eq_nan h.plain).2 hlast]
      simp only [hread, h.readPdps_eq_iff, hnew, and_true]
      exact (and_iff_left hlast).symm
    · refine iff_of_false (fun hsame => ?_) fun hright => hlast hright.2.1
      have hval := congrArg Prod.fst (hsame fun _ => .nan)
      rw [hread, readPdps_nan, replayPdps_nan] at hval
      exact hlast ((carryOverInit_eq_nan h.plain).1 hval.symm)
  · refine iff_of_false (fun hsame => ?_) fun hright => hnew hright.2.2
    rw [not_or, not_lt] at hnew
    have hmissed := h.visitRows_missed (s := (.nan, 0)) (Nat.pos_of_ne_zero hnew.1) hnew.2
    have hunkn := congrArg Prod.snd (hsame fun _ => .nan)
    rw [iterations_eq hstep, replayPdps_nan] at hunkn
    rw [hunkn, hn, h.visitRows_old hold] at hmissed
    exact lt_irrefl _ hmissed

/-- For steps of one second the last primary data point is not visited. -/
lemma not_same_of_one (hstep : target.rrd.pdpStep = 1) (hopen : target.openCnt ≠ 0) : ¬Same target i := by
  intro hsame
  let newest := (target.inRra i).rowIdx ((target.inRra i).rowOfAge (0 : ℕ))
  have hknown : (visitRows target i (fun k => if k = newest then .nan else .fin 0) (iterations target) (.nan, 0)).2 = 0 := by
    refine foldl_visit_known rfl fun t ht a hfound hnan => ?_
    obtain ⟨j, hj, rfl⟩ := List.mem_map.1 ht
    rw [List.mem_range, iterations, if_pos hstep] at hj
    obtain ⟨hpast, hlt⟩ := foundAge_eq_some hfound
    have hage : 1 ≤ a := by
      rw [hpast, pastCnt_eq h.sized, h.age_rowTime]
      split_ifs <;> omega
    have hidx : (target.inRra i).cdpRraIdx ((target.inRra i).rowOfAge a) = newest := by
      by_contra hne
      rw [if_neg hne] at hnan
      cases hnan
    obtain ⟨hrow, -⟩ := (cdpRraIdx_eq_iff (rowOfAge_lt h.sized _) (rowOfAge_lt h.sized _)
      (Nat.cast_lt.1 h.sized.rowCnt_lt) h.fits).1 hidx
    have hzero := rowOfAge_inj h.sized (by omega) hlt le_rfl h.sized.rowCnt_pos hrow
    omega
  have hunkn := congrArg Prod.snd (hsame fun k => if k = newest then .nan else .fin 0)
  rw [hknown, foldl_feed_unkn, zero_add] at hunkn
  have hmem : (0 : ℕ) ∈ (List.range target.openCnt).reverse :=
    List.mem_reverse.2 (List.mem_range.2 (Nat.pos_of_ne_zero hopen))
  have hpos : 0 < (replayPdps target i fun k => if k = newest then .nan else .fin 0).countP (·.isnan) :=
    List.countP_pos_iff.2 ⟨_, List.mem_map_of_mem hmem, ExtNum.isnan_eq_true.2 (if_pos rfl)⟩
  omega

lemma same_iff_of_one (hstep : target.rrd.pdpStep = 1) (hn : target.rra.rraDef.pdpCnt = n + 2) :
    Same target i ↔ target.openCnt = 0 ∧
      if (target.inRra i).reqTime (target.rowTime n) ≤ (target.inRra i).oldest then target.rra.rraDef.cf = .last
      else pdpsLeft target (target.rowTime n) = 1 := by
  by_cases hopen : target.openCnt = 0
  · have hiter : iterations target = n + 1 := by
      rw [iterations, if_pos hstep, hopen, hn]
      rfl
    have hreplay : ∀ v, (replayPdps target i v).foldl (feed target.rra.rraDef.cf) (carryOverInit target.rra.rraDef.cf, 0) =
        (carryOverInit target.rra.rraDef.cf, 0) := fun v => by
      rw [replayPdps, hopen]
      rfl
    rw [and_iff_right hopen, Same]
    simp only [hreplay, hiter]
    split_ifs with hold
    · simp only [h.visitRows_old hold, forall_const, Prod.mk.injEq, and_true]
      exact eq_comm.trans (carryOverInit_eq_nan h.plain)
    · by_cases hleft : pdpsLeft target (target.rowTime n) = 1
      · simp only [h.visitRows_last (not_le.1 hold) hleft, hleft, forall_const]
      · refine iff_of_false (fun hsame => ?_) hleft
        have hunkn := h.visitRows_open (not_le.1 hold) hleft (s := (.nan, 0))
        rw [hsame] at hunkn
        exact lt_irrefl 0 hunkn
  · exact iff_of_false (h.not_same_of_one hstep hopen) fun hright => hopen hright.1

/-! ### When the row before the open one is closed -/

lemma openCnt_eq_zero_iff : target.openCnt = 0 ↔ (target.rrd.lastUp : ℤ) < target.cdpStart + target.rrd.pdpStep := by
  have hup := target.lastUp_eq
  have hrest := Nat.mod_lt target.rrd.lastUp h.pdpStep_pos
  constructor
  · intro hopen
    rw [hopen] at hup
    push_cast at hup
    omega
  · intro hlt
    by_contra hopen
    have hmul := Nat.mul_le_mul_right target.rrd.pdpStep (Nat.one_le_iff_ne_zero.2 hopen)
    rw [one_mul] at hmul
    omega

/-- After the first row of the target, its last primary data point closes it. -/
lemma closes_of_le (hn : target.rra.rraDef.pdpCnt = n + 1) (hstep : target.rrd.pdpStep ≠ 1)
    (hle : target.rra.rraDef.pdpCnt * target.rrd.pdpStep ≤ target.rrd.lastUp) :
    (target.inRra i).reqTime (target.rowTime n) = target.cdpStart ∧ pdpsLeft target (target.rowTime n) = 1 := by
  obtain ⟨k, hk⟩ := Nat.exists_eq_add_one_of_ne_zero (Nat.div_pos hle h.cdpStep_pos).ne'
  have hstart : target.cdpStart = (k * (target.rra.rraDef.pdpCnt * target.rrd.pdpStep) +
      target.rra.rraDef.pdpCnt * target.rrd.pdpStep : ℕ) := by
    rw [cdpStart, hk, Nat.succ_mul]
  have htime : target.rowTime n =
      (k * (target.rra.rraDef.pdpCnt * target.rrd.pdpStep) + (1 + n * target.rrd.pdpStep) : ℕ) := by
    rw [rowTime, hstart, hn]
    push_cast
    ring
  constructor
  · rw [h.reqTime_rowTime (htime ▸ Int.natCast_nonneg _), hn]
    push_cast
    ring
  · rw [htime, h.pdpsLeft_rowTime hstep k (by omega), hn]
    push_cast
    ring

/-- Before, its number comes from a negative time. -/
lemma closes_of_lt (hn : target.rra.rraDef.pdpCnt = n + 1) (hstep : target.rrd.pdpStep ≠ 1)
    (hlt : target.rrd.lastUp < target.rra.rraDef.pdpCnt * target.rrd.pdpStep) :
    (target.inRra i).reqTime (target.rowTime n) = 1 - target.rrd.pdpStep ∧
      (pdpsLeft target (target.rowTime n) = 1 ↔
        (2 ^ 64 + 1) / target.rrd.pdpStep % 2 ^ 32 = target.rra.rraDef.pdpCnt) := by
  have hpos := h.pdpStep_pos
  have hstart : target.cdpStart = 0 := by
    rw [cdpStart, Nat.div_eq_of_lt hlt, zero_mul, Nat.cast_zero]
  have htime : target.rowTime n = 1 - target.rrd.pdpStep := by
    rw [rowTime, hstart, hn]
    push_cast
    ring
  constructor
  · rw [htime, reqTime, if_neg (by omega)]
  · have hcdp := h.cdpStep_lt
    have hcnt : target.rra.rraDef.pdpCnt < 2 ^ 31 := (Nat.le_mul_of_pos_right _ hpos).trans_lt hcdp
    have hsmall : target.rrd.pdpStep - 1 < target.rra.rraDef.pdpCnt * target.rrd.pdpStep :=
      (Nat.sub_lt hpos one_pos).trans_le (Nat.le_mul_of_pos_left _ (by omega))
    have hmod : (1 - target.rrd.pdpStep : ℤ).tmod (target.rra.rraDef.pdpCnt * target.rrd.pdpStep : ℕ) =
        1 - target.rrd.pdpStep := by
      have hneg : (1 - target.rrd.pdpStep : ℤ) = -(target.rrd.pdpStep - 1 : ℕ) := by omega
      rw [hneg, Int.neg_tmod, Int.tmod_eq_of_lt (Int.natCast_nonneg _) (by exact_mod_cast hsmall)]
    have hunsigned : u64 (1 - target.rrd.pdpStep) = 2 ^ 64 + 1 - target.rrd.pdpStep * 1 := by
      rw [u64_eq_emod, ← Int.add_emod_right, Int.emod_eq_of_lt (by omega) (by omega)]
      omega
    have hq : 1 ≤ (2 ^ 64 + 1) / target.rrd.pdpStep := (Nat.one_le_div_iff hpos).2 (by omega)
    rw [htime, pdpsLeft, ← Nat.cast_mul, mul_comm target.rrd.pdpStep, s32_natCast hcdp, hmod, hunsigned,
      Nat.sub_mul_div_of_le _ _ _ (by omega)]
    have hemod := s32_emod (target.rra.rraDef.pdpCnt - ((2 ^ 64 + 1) / target.rrd.pdpStep - 1 : ℕ))
    have hlow := le_s32 (target.rra.rraDef.pdpCnt - ((2 ^ 64 + 1) / target.rrd.pdpStep - 1 : ℕ))
    have hhigh := s32_lt (target.rra.rraDef.pdpCnt - ((2 ^ 64 + 1) / target.rrd.pdpStep - 1 : ℕ))
    generalize (2 ^ 64 + 1) / target.rrd.pdpStep = q at *
    omega

/-- For steps of one second it is the last but one. -/
lemma closes_of_one (hn : target.rra.rraDef.pdpCnt = n + 2) (hstep : target.rrd.pdpStep = 1)
    (hopen : target.openCnt = 0) (hup : 0 < target.rrd.lastUp) :
    (target.inRra i).reqTime (target.rowTime n) = target.rrd.lastUp - 1 ∧ pdpsLeft target (target.rowTime n) = 1 := by
  have hdiv := Nat.div_add_mod' target.rrd.lastUp target.rra.rraDef.pdpCnt
  have hmod : target.rrd.lastUp % target.rra.rraDef.pdpCnt = 0 := by
    rw [openCnt, hstep, Nat.div_one] at hopen
    exact hopen
  obtain ⟨k, hk⟩ := Nat.exists_eq_add_one_of_ne_zero (n := target.rrd.lastUp / target.rra.rraDef.pdpCnt) fun h0 => by
    rw [h0, hmod, zero_mul] at hdiv
    omega
  rw [hk, hmod, Nat.succ_mul, add_zero] at hdiv
  have hstart : target.cdpStart = target.rrd.lastUp := by
    rw [cdpStart, hstep, mul_one, hk, Nat.succ_mul, hdiv]
  have htime : target.rowTime n =
      (k * (target.rra.rraDef.pdpCnt * target.rrd.pdpStep) + (target.rra.rraDef.pdpCnt - 1) : ℕ) := by
    rw [rowTime, hstart, hstep, mul_one]
    omega
  constructor
  · rw [h.reqTime_rowTime (htime ▸ Int.natCast_nonneg _), hstart, hn, hstep]
    push_cast
    ring
  · rw [htime, h.pdpsLeft_eq k (by rw [hstep]; omega), hstep]
    omega

/-- At the epoch the rows before it are found, and none of them closes a row. -/
lemma not_same_of_zero (hn : target.rra.rraDef.pdpCnt = n + 2) (hstep : target.rrd.pdpStep = 1)
    (hup : target.rrd.lastUp = 0) : ¬Same target i := by
  have hcdp := h.cdpStep_lt
  rw [hstep, mul_one] at hcdp
  have hlong := h.long
  have hrows := h.sized.rowCnt_lt
  have hrowCnt : (target.inRra i).rowCnt = (target.inRra i).rra.rraDef.rowCnt := rfl
  have htime : target.rowTime n = -1 := by
    rw [rowTime, cdpStart, hup, hstep, Nat.zero_div, zero_mul]
    omega
  have hreq : (target.inRra i).reqTime (target.rowTime n) = -1 := by
    rw [htime, reqTime, if_neg (by decide)]
  have holdest : (target.inRra i).oldest = -(target.inRra i).rowCnt := by
    have hzero : s32 (target.inRra i).rrd.lastUp = 0 := by
      rw [show (target.inRra i).rrd.lastUp = 0 from hup]
      rfl
    rw [oldest, hzero, h.slot_eq, hstep, Nat.cast_one, mul_one, zero_sub, s32_of_mem (by omega) (by omega)]
  have hleft : pdpsLeft target (target.rowTime n) ≠ 1 := by
    have hmod : (-1 : ℤ).tmod (target.rra.rraDef.pdpCnt : ℕ) = -1 := by
      rw [Int.neg_tmod, Int.tmod_eq_of_lt (by decide) (by omega)]
    have hunsigned : u64 (-1) = 2 ^ 64 - 1 := rfl
    have hemod := s32_emod (target.rra.rraDef.pdpCnt - (2 ^ 64 - 1 : ℕ))
    rw [htime, pdpsLeft, hstep, Nat.cast_one, one_mul, s32_natCast hcdp, hmod, hunsigned, Nat.div_one]
    omega
  rw [h.same_iff_of_one hstep hn, if_neg (by omega)]
  exact fun hsame => hleft hsame.2

/-- The loop does what the replay does exactly when it closes the row before the open one. -/
lemma same_iff : Same target i ↔ ClosesBefore target (target.inRra i) := by
  have hcnt := h.pdpCnt
  have hstart : target.cdpStart = (target.rrd.lastUp / (target.rra.rraDef.pdpCnt * target.rrd.pdpStep) *
    (target.rra.rraDef.pdpCnt * target.rrd.pdpStep) : ℕ) := rfl
  have hopen : target.openCnt = 0 ↔ target.rrd.lastUp < target.rrd.lastUp /
      (target.rra.rraDef.pdpCnt * target.rrd.pdpStep) * (target.rra.rraDef.pdpCnt * target.rrd.pdpStep) +
        target.rrd.pdpStep := by
    rw [h.openCnt_eq_zero_iff, hstart]
    exact_mod_cast Iff.rfl
  change _ ↔ IntRows target i ∧ if target.rrd.pdpStep = 1 then _ else _
  split_ifs with hstep hle hnew
  · obtain ⟨n, hn⟩ := Nat.exists_eq_add_of_le' hcnt
    have hdvd : target.rra.rraDef.pdpCnt * target.rrd.pdpStep ∣ target.rrd.lastUp ↔ target.openCnt = 0 := by
      rw [hstep, mul_one, openCnt, hstep, Nat.div_one, Nat.dvd_iff_mod_eq_zero]
    obtain hup | hup := Nat.eq_zero_or_pos target.rrd.lastUp
    · exact iff_of_false (h.not_same_of_zero hn hstep hup) fun hright => hright.2.2.1.ne' hup
    · rw [h.same_iff_of_one hstep hn, hdvd, and_iff_right hup, ← and_assoc]
      by_cases hzero : target.openCnt = 0
      · have hint : IntRows target i := fun age hage => absurd hage (by omega)
        obtain ⟨hreq, hleft⟩ := h.closes_of_one hn hstep hzero hup
        rw [hreq, and_iff_right hzero, and_iff_right ⟨hint, hzero⟩]
        show (if _ ≤ (target.inRra i).oldest then _ else _) ↔ _ ∨ (target.inRra i).oldest < _
        split_ifs with hold
        · exact (or_iff_left hold.not_gt).symm
        · exact iff_of_true hleft (.inr (not_le.1 hold))
      · exact iff_of_false (fun hsame => hzero hsame.1) fun hright => hzero hright.1.2
  · obtain ⟨n, hn⟩ := Nat.exists_eq_add_of_le' (show 1 ≤ target.rra.rraDef.pdpCnt by omega)
    obtain ⟨hreq, hleft⟩ := h.closes_of_le hn hstep hle
    rw [← hstart]
    obtain hnew | hold := lt_or_ge (target.inRra i).oldest target.cdpStart
    · rw [h.same_iff_of_new hstep hn (hreq ▸ hnew)]
      exact and_congr_right fun _ => iff_of_true hleft (.inl hnew)
    · rw [h.same_iff_of_old hstep hn (hreq ▸ hold), hopen]
      show _ ↔ _ ∧ (_ < _ ∨ _)
      exact and_congr_right fun _ => (or_iff_right hold.not_gt).symm
  · obtain ⟨n, hn⟩ := Nat.exists_eq_add_of_le' (show 1 ≤ target.rra.rraDef.pdpCnt by omega)
    obtain ⟨hreq, hleft⟩ := h.closes_of_lt hn hstep (not_le.1 hle)
    rw [h.same_iff_of_new hstep hn (hreq ▸ hnew), hleft]
  · obtain ⟨n, hn⟩ := Nat.exists_eq_add_of_le' (show 1 ≤ target.rra.rraDef.pdpCnt by omega)
    obtain ⟨hreq, -⟩ := h.closes_of_lt hn hstep (not_le.1 hle)
    rw [h.same_iff_of_old hstep hn (hreq ▸ not_lt.1 hnew), hopen, hstart, Nat.div_eq_of_lt (not_le.1 hle), zero_mul,
      Nat.cast_zero, zero_add, zero_add]
    rfl

end CdpPrefill

/-! ### Main results -/

/-- Without a candidate to copy from, `prefill_cdp_prep` leaves what the replay leaves, whatever the values are, if and
only if the row before the open one is closed. -/
theorem prefillCdpPrep_replays_iff {target : SourceCandidate} {i : Fin target.rrd.rra.length} (h : CdpPrefill target i)
    {candidates : List SourceCandidate} (hnone : ∀ c ∈ candidates, ¬target.FullyCompatible c) :
    (∀ v, Replays (target.withValues v) ((target.inRra i).withValues v) candidates) ↔
      ClosesBefore target (target.inRra i) := by
  rw [← h.same_iff]
  refine forall_congr' fun v => ?_
  have h' : CdpPrefill (target.withValues v) i :=
    ⟨h.plain, h.pdpCnt, h.cdpStep_lt, h.one, ⟨h.sized.slot_pos, h.sized.slot_lt, h.sized.rowCnt_pos, h.sized.rowCnt_lt,
      h.sized.curRow_lt⟩, h.long, h.fits⟩
  exact h'.replays_iff hnone

/-- An archive of two primary data points per row, behind it one of single ones. -/
def twoPdpTarget (pdpStep lastUp : ℕ) : SourceCandidate where
  source := 0
  rrd := {
    version := 3, pdpStep := pdpStep, lastUp := lastUp, lastUpUsec := 0
    ds := [⟨gaugeDs ['a'] 600, ⟨['U'], 0, .nan⟩⟩]
    rra := [⟨plainRra .average 5 2 (1 / 2), [.zero], 0⟩, ⟨plainRra .average 4 1 (1 / 2), [.zero], 3⟩]
    rrdValue := fun _ => .fin 0 }
  rraIndex := (0 : Fin 2)
  l := (0 : Fin 1)

lemma twoPdpTarget_prefill (pdpStep lastUp : ℕ) (hpos : 0 < pdpStep) (hlt : pdpStep < 2 ^ 30) :
    CdpPrefill (twoPdpTarget pdpStep lastUp) (1 : Fin 2) where
  plain := rfl
  pdpCnt := le_rfl
  cdpStep_lt := show 2 * pdpStep < 2 ^ 31 by omega
  one := rfl
  sized := ⟨show (0 : ℤ) < (1 : ℕ) * pdpStep by omega, show ((1 : ℕ) * pdpStep : ℤ) < 2 ^ 31 by omega,
    show (0 : ℤ) < (4 : ℕ) by decide, show ((4 : ℕ) : ℤ) < 2 ^ 31 by decide, show 3 < 4 by decide⟩
  long := show 2 * 2 ≤ 4 from le_rfl
  fits := show (5 + 4) * 1 < 2 ^ 61 by decide

/-- Five minutes per step, 400 seconds into a row. -/
theorem prefillCdpPrep_replays_iff_step :
    ClosesBefore (twoPdpTarget 300 1000) ((twoPdpTarget 300 1000).inRra (1 : Fin 2)) ∧
      ∀ v, Replays ((twoPdpTarget 300 1000).withValues v) (((twoPdpTarget 300 1000).inRra (1 : Fin 2)).withValues v) [] := by
  have hcloses : ClosesBefore (twoPdpTarget 300 1000) ((twoPdpTarget 300 1000).inRra (1 : Fin 2)) := by
    refine ⟨by decide, ?_⟩
    decide
  exact ⟨hcloses, (prefillCdpPrep_replays_iff (twoPdpTarget_prefill 300 1000 (by decide) (by decide)) (by simp)).2 hcloses⟩

/-- One second per step: the last primary data point is unknown, but it is the one before it that is read. -/
theorem prefillCdpPrep_unkn :
    ¬Replays ((twoPdpTarget 1 1001).withValues fun k => if k = 8 then .nan else .fin 0)
      (((twoPdpTarget 1 1001).inRra (1 : Fin 2)).withValues fun k => if k = 8 then .nan else .fin 0) [] := by
  unfold Replays
  decide +kernel

end Rrdtool
