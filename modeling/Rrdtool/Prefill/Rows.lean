import Rrdtool.Prefill

/-!
# The rows that a bin is filled from

The rows of a candidate are told by their age: how many rows before the current one they were written. `row_for_time` and
`end_time_for_row` in terms of ages are `rowForTime_eq` and `rowEnd_eq`. The inner loop of `prefill_bin` goes over
`binRows`, from the row of the first second of the bin on (`prefillCandidate_eq`).

Their number is a difference of two rows, taken modulo the size of the ring, and a full ring counts as an empty one.
`row_for_time` rounds towards zero, also before the epoch, and takes the oldest time of the ring for an `int`. `Finds`
says when it finds the row of a time (`foundAge_eq_iff`).
-/

namespace Rrdtool

lemma positiveMod_eq_emod {a b : ℤ} (hb : 0 < b) : positiveMod a b = a % b := by
  have hlt := Int.emod_lt_of_pos a hb
  have hnonneg := Int.emod_nonneg a hb.ne'
  rw [positiveMod, Int.tmod_eq_emod]
  have habs : (b.natAbs : ℤ) = b := Int.natAbs_of_nonneg hb.le
  split_ifs <;> omega

namespace SourceCandidate
variable (c : SourceCandidate)

/-- The seconds of a row, and the number of rows. -/
@[grind] def slot : ℤ := c.rra.rraDef.pdpCnt * c.rrd.pdpStep

@[grind] def rowCnt : ℤ := c.rra.rraDef.rowCnt

/-- The end of the current row. -/
@[grind] def now : ℤ := c.rrd.lastUp - c.rrd.lastUp % c.slot

/-- The length and the number of the rows are positive and fit into an `int`, and the current row is one of them. -/
structure Sized : Prop where
  slot_pos : 0 < c.slot
  slot_lt : c.slot < 2 ^ 31
  rowCnt_pos : 0 < c.rowCnt
  rowCnt_lt : c.rowCnt < 2 ^ 31
  curRow_lt : c.rra.curRow < c.rra.rraDef.rowCnt

/-- `end_time_for_row_simple`. -/
@[grind] def rowEnd (row : ℕ) : ℤ := endTimeForRow c.rrd c.rra.rraDef c.rra.curRow row

/-- The seconds of the row and the bin from `start` to `stop` meet. -/
def Intersects (start stop : ℤ) (row : ℕ) : Prop := c.rowEnd row - c.slot < stop ∧ start ≤ c.rowEnd row

instance (start stop : ℤ) (row : ℕ) : Decidable (c.Intersects start stop row) := inferInstanceAs (Decidable (_ ∧ _))

/-- The time is one that a row of the ring covers. -/
def InWindow (t : ℤ) : Prop := c.now - c.rowCnt * c.slot < t ∧ t ≤ c.now

/-- The age of the row that covers a time. -/
@[grind] def age (t : ℤ) : ℤ := (c.now - t) / c.slot

/-- The time that `row_for_time` looks for: the end of the row, or the time itself before the epoch. -/
@[grind] def reqTime (t : ℤ) : ℤ := if 0 ≤ t then c.now - c.age t * c.slot else t

/-- `past_cnt` of `row_for_time`. -/
@[grind] def pastCnt (t : ℤ) : ℤ := (c.rrd.lastUp - c.reqTime t) / c.slot

/-- The age of the row that `row_for_time` finds. -/
@[grind] def foundAge (t : ℤ) : Option ℤ :=
  if c.reqTime t ≤ s32 (s32 c.rrd.lastUp - c.rowCnt * c.slot) then none
  else if c.rowCnt ≤ c.pastCnt t then none
  else some (c.pastCnt t)

/-- The row of an age. -/
@[grind] def rowOfAge (a : ℤ) : ℕ := ((c.rra.curRow - a) % c.rowCnt).toNat

/-- When `row_for_time` finds the row of a time of the ring: the end of the row is after the oldest time as an `int`, and
before the epoch the seconds since `now` and those that are left of the row are less than a row. -/
def Finds (t : ℤ) : Prop :=
  s32 (s32 c.rrd.lastUp - c.rowCnt * c.slot) < c.reqTime t ∧ (0 ≤ t ∨ c.rrd.lastUp % c.slot + -t % c.slot < c.slot)

end SourceCandidate

open SourceCandidate

variable {c : SourceCandidate} {t start stop : ℤ}

lemma timeslot_eq (h : c.Sized) : timeslot c.rrd c.rra.rraDef = c.slot :=
  s32_of_lt h.slot_pos.le h.slot_lt

lemma s32_rowCnt (h : c.Sized) : s32 c.rra.rraDef.rowCnt = c.rowCnt := s32_of_lt h.rowCnt_pos.le h.rowCnt_lt

lemma rowEnd_eq (h : c.Sized) (row : ℕ) : c.rowEnd row = c.now - (c.rra.curRow - row) % c.rowCnt * c.slot := by
  have hmod : (c.rrd.lastUp : ℤ).tmod c.slot = c.rrd.lastUp % c.slot :=
    Int.tmod_eq_emod_of_nonneg (Int.natCast_nonneg _)
  rw [rowEnd, endTimeForRow, timeslot_eq h, hmod]
  show _ - _ - positiveMod _ c.rowCnt * c.slot = _
  rw [positiveMod_eq_emod h.rowCnt_pos]
  rfl

/-- The end of the row that covers a time. -/
lemma now_sub_age (c : SourceCandidate) (t : ℤ) : c.now - c.age t * c.slot = t + (c.now - t) % c.slot := by
  have h := Int.emod_add_mul_ediv (c.now - t) c.slot
  rw [age, mul_comm]
  linarith

lemma now_eq (c : SourceCandidate) : c.now = c.rrd.lastUp / c.slot * c.slot := by
  have h := Int.emod_add_mul_ediv (c.rrd.lastUp : ℤ) c.slot
  rw [now, mul_comm]
  linarith

/-- What is left of the row that covers a time. -/
lemma now_sub_emod (c : SourceCandidate) (t : ℤ) : (c.now - t) % c.slot = -t % c.slot := by
  rw [now_eq, sub_eq_add_neg, add_comm, Int.add_mul_emod_self_right]

/-- `row_for_time` looks for `reqTime`. -/
lemma reqTime_eq (h : c.Sized) (t : ℤ) :
    (if 0 < t.tmod c.slot then t + c.slot - t.tmod c.slot else t) = c.reqTime t := by
  have hpos := h.slot_pos
  have hlt := Int.emod_lt_of_pos t hpos
  have hnonneg := Int.emod_nonneg t hpos.ne'
  have habs : (c.slot.natAbs : ℤ) = c.slot := Int.natAbs_of_nonneg hpos.le
  rw [reqTime, now_sub_age, now_sub_emod, Int.neg_emod, Int.tmod_eq_emod]
  by_cases hdvd : c.slot ∣ t
  · have hzero := Int.emod_eq_zero_of_dvd hdvd
    simp only [hdvd, or_true, if_true]
    split_ifs <;> omega
  · have hrest : t % c.slot ≠ 0 := fun h => hdvd (Int.dvd_of_emod_eq_zero h)
    simp only [hdvd, or_false, if_false]
    split_ifs <;> omega

/-- There is nothing to round in it. -/
lemma reqTime_tmod (h : c.Sized) (t : ℤ) : ¬0 < (c.reqTime t).tmod c.slot := by
  have hpos := h.slot_pos
  rw [reqTime]
  split_ifs with ht
  · rw [now_eq, ← sub_mul, Int.mul_tmod_left]
    exact lt_irrefl 0
  · have hlt := Int.emod_lt_of_pos t hpos
    have habs : (c.slot.natAbs : ℤ) = c.slot := Int.natAbs_of_nonneg hpos.le
    rw [Int.tmod_eq_emod]
    split_ifs with hdvd
    · have hzero := Int.emod_eq_zero_of_dvd (hdvd.resolve_left ht)
      omega
    · omega

lemma now_le (h : c.Sized) : c.now ≤ c.rrd.lastUp := by
  have := Int.emod_nonneg (c.rrd.lastUp : ℤ) h.slot_pos.ne'
  rw [now]
  omega

lemma age_nonneg (h : c.Sized) (ht : t ≤ c.now) : 0 ≤ c.age t :=
  Int.ediv_nonneg (by omega) h.slot_pos.le

lemma reqTime_le (h : c.Sized) (ht : t ≤ c.now) : c.reqTime t ≤ c.now := by
  rw [reqTime]
  split_ifs
  · have := mul_nonneg (age_nonneg h ht) h.slot_pos.le
    omega
  · exact ht

lemma rowForTime_eq (h : c.Sized) (ht : t ≤ c.now) :
    rowForTime c.rrd c.rra.rraDef c.rra.curRow t =
      (c.foundAge t).elim (-1) fun a => (c.rra.curRow - a) % c.rowCnt := by
  have hle := (reqTime_le h ht).trans (now_le h)
  rw [rowForTime, foundAge, pastCnt]
  simp only [timeslot_eq h, reqTime_eq h, reqTime_tmod h, if_false, s32_rowCnt h, if_neg hle.not_gt]
  rw [Int.tdiv_eq_ediv_of_nonneg (by omega)]
  split_ifs
  · rfl
  · rfl
  · exact positiveMod_eq_emod h.rowCnt_pos

lemma reqTime_mono (h : c.Sized) {t t' : ℤ} (hle : t ≤ t') : c.reqTime t ≤ c.reqTime t' := by
  have hpos := h.slot_pos
  rw [reqTime, reqTime]
  split_ifs with ht ht'
  · have hage : c.age t' ≤ c.age t := Int.ediv_le_ediv hpos (by omega)
    have := mul_le_mul_of_nonneg_right hage hpos.le
    omega
  · omega
  · have := Int.emod_nonneg (c.now - t') hpos.ne'
    rw [now_sub_age]
    omega
  · exact hle

lemma pastCnt_anti (h : c.Sized) {t t' : ℤ} (hle : t ≤ t') : c.pastCnt t' ≤ c.pastCnt t := by
  have := reqTime_mono h hle
  exact Int.ediv_le_ediv h.slot_pos (by omega)

/-- From the epoch on the age is right; before it, it may be one too many. -/
lemma pastCnt_eq (h : c.Sized) (t : ℤ) :
    c.pastCnt t = c.age t + if 0 ≤ t ∨ c.rrd.lastUp % c.slot + -t % c.slot < c.slot then 0 else 1 := by
  have hpos := h.slot_pos
  have hup := Int.emod_nonneg (c.rrd.lastUp : ℤ) hpos.ne'
  have hup' := Int.emod_lt_of_pos (c.rrd.lastUp : ℤ) hpos
  have hrest := Int.emod_nonneg (-t) hpos.ne'
  have hrest' := Int.emod_lt_of_pos (-t) hpos
  have hnow : c.rrd.lastUp = c.now + c.rrd.lastUp % c.slot := by
    rw [now]
    omega
  rw [pastCnt, reqTime]
  by_cases ht : 0 ≤ t
  · have hsum : c.rrd.lastUp - (c.now - c.age t * c.slot) = c.rrd.lastUp % c.slot + c.age t * c.slot := by omega
    rw [if_pos ht, if_pos (.inl ht), hsum, Int.add_mul_ediv_right _ _ hpos.ne', Int.ediv_eq_zero_of_lt hup hup']
    ring
  · have hage := now_sub_age c t
    rw [now_sub_emod] at hage
    have hsum : c.rrd.lastUp - t = c.rrd.lastUp % c.slot + -t % c.slot + c.age t * c.slot := by omega
    rw [if_neg ht, hsum, Int.add_mul_ediv_right _ _ hpos.ne', add_comm]
    simp only [ht, false_or]
    split_ifs with hlt
    · rw [Int.ediv_eq_zero_of_lt (by omega) hlt]
    · have hone : c.rrd.lastUp % c.slot + -t % c.slot =
          c.rrd.lastUp % c.slot + -t % c.slot - c.slot + 1 * c.slot := by ring
      rw [hone, Int.add_mul_ediv_right _ _ hpos.ne', Int.ediv_eq_zero_of_lt (by omega) (by omega), zero_add]

lemma age_lt (h : c.Sized) (ht : c.InWindow t) : c.age t < c.rowCnt := by
  rw [age, Int.ediv_lt_iff_lt_mul h.slot_pos]
  have := ht.1
  omega

lemma foundAge_eq_some {a : ℤ} (hfound : c.foundAge t = some a) : a = c.pastCnt t ∧ a < c.rowCnt := by
  rw [foundAge] at hfound
  split_ifs at hfound with hold hpast
  obtain rfl := Option.some.inj hfound
  exact ⟨rfl, not_le.1 hpast⟩

/-- `row_for_time` finds the row of a time of the ring if and only if `Finds` holds. -/
lemma foundAge_eq_iff (h : c.Sized) (ht : c.InWindow t) : c.foundAge t = some (c.age t) ↔ c.Finds t := by
  have hpast := pastCnt_eq h t
  constructor
  · intro hfound
    obtain ⟨hage, -⟩ := foundAge_eq_some hfound
    rw [foundAge] at hfound
    split_ifs at hfound with hold
    refine ⟨not_le.1 hold, ?_⟩
    split_ifs at hpast with hrest
    · exact hrest
    · omega
  · rintro ⟨hold, hrest⟩
    rw [if_pos hrest, add_zero] at hpast
    rw [foundAge, if_neg hold.not_ge, hpast, if_neg (age_lt h ht).not_ge]

/-! ### Rows and ages -/

section Ring
variable (h : c.Sized)
include h

lemma rowOfAge_lt (a : ℤ) : c.rowOfAge a < c.rra.rraDef.rowCnt := by
  have := Int.emod_lt_of_pos (c.rra.curRow - a) h.rowCnt_pos
  have := Int.emod_nonneg (c.rra.curRow - a) h.rowCnt_pos.ne'
  have : c.rowCnt = c.rra.rraDef.rowCnt := rfl
  rw [rowOfAge]
  omega

lemma rowOfAge_cast (a : ℤ) : (c.rowOfAge a : ℤ) = (c.rra.curRow - a) % c.rowCnt :=
  Int.toNat_of_nonneg (Int.emod_nonneg _ h.rowCnt_pos.ne')

lemma rowEnd_rowOfAge {a : ℤ} (h0 : 0 ≤ a) (ha : a < c.rowCnt) : c.rowEnd (c.rowOfAge a) = c.now - a * c.slot := by
  rw [rowEnd_eq h, rowOfAge_cast h, Int.sub_emod, Int.emod_emod, ← Int.sub_emod, sub_sub_cancel, Int.emod_eq_of_lt h0 ha]

/-- Every row of the ring has an age. -/
lemma exists_age {row : ℕ} (hrow : row < c.rra.rraDef.rowCnt) : ∃ a, 0 ≤ a ∧ a < c.rowCnt ∧ c.rowOfAge a = row := by
  refine ⟨(c.rra.curRow - row) % c.rowCnt, Int.emod_nonneg _ h.rowCnt_pos.ne', Int.emod_lt_of_pos _ h.rowCnt_pos, ?_⟩
  have hcast : (row : ℤ) < c.rowCnt := Int.ofNat_lt.2 hrow
  rw [rowOfAge, Int.sub_emod, Int.emod_emod, ← Int.sub_emod, sub_sub_cancel,
    Int.emod_eq_of_lt (Int.natCast_nonneg row) hcast, Int.toNat_natCast]

lemma rowOfAge_inj {a b : ℤ} (ha0 : 0 ≤ a) (ha : a < c.rowCnt) (hb0 : 0 ≤ b) (hb : b < c.rowCnt)
    (heq : c.rowOfAge a = c.rowOfAge b) : a = b := by
  have hend := rowEnd_rowOfAge h ha0 ha
  rw [heq, rowEnd_rowOfAge h hb0 hb] at hend
  exact mul_right_cancel₀ h.slot_pos.ne' (by omega)

/-- A time after the start of the row of age `a`, and one before its end. -/
lemma age_le_iff {a : ℤ} : c.age t ≤ a ↔ c.now - a * c.slot - c.slot < t := by
  rw [← Int.lt_add_one_iff, age, Int.ediv_lt_iff_lt_mul h.slot_pos, add_mul, one_mul]
  omega

lemma le_age_iff {a : ℤ} : a ≤ c.age t ↔ t ≤ c.now - a * c.slot := by
  rw [age, Int.le_ediv_iff_mul_le h.slot_pos]
  omega

lemma age_eq {a : ℤ} (hlow : c.now - a * c.slot - c.slot < t) (hhigh : t ≤ c.now - a * c.slot) : c.age t = a :=
  le_antisymm ((age_le_iff h).2 hlow) ((le_age_iff h).2 hhigh)

/-- A row meets the bin when its age is between those of the ends. -/
lemma intersects_iff {a : ℤ} (h0 : 0 ≤ a) (ha : a < c.rowCnt) :
    c.Intersects start stop (c.rowOfAge a) ↔ c.age stop ≤ a ∧ a ≤ c.age start := by
  rw [Intersects, rowEnd_rowOfAge h h0 ha, age_le_iff h, le_age_iff h]

end Ring

/-! ### The inner loop -/

/-- The rows that the inner loop goes over, for a bin from `start` to `stop`. -/
@[grind] def SourceCandidate.binRows (c : SourceCandidate) (start stop : ℤ) : List ℕ :=
  let rra := c.rra.rraDef
  let endBin := u64 (rowForTime c.rrd rra c.rra.curRow stop)
  let startBin := u64 (rowForTime c.rrd rra c.rra.curRow start)
  if startBin < rra.rowCnt ∧ endBin < rra.rowCnt then
    (List.range (positiveMod (s32 ((endBin : ℤ) - startBin + 1)) (s32 rra.rowCnt)).toNat).map fun i =>
      (startBin + i) % rra.rowCnt
  else []

/-- Rows in turn, until the bin is covered. -/
@[grind] def overRows (junk : Coverage) (bin : TargetBin) (c : SourceCandidate) : List ℕ → PrefillBin → CoverageM PrefillBin
  | [], st => pure st
  | row :: rows, st =>
    if st.totalCovered < bin.size then do
      let st ← prefillRow junk bin c row st
      overRows junk bin c rows st
    else pure st

lemma overlap_nonneg (start1 end1 start2 end2 : ℤ) : 0 ≤ overlap start1 end1 start2 end2 := by
  unfold overlap
  split_ifs <;> omega

lemma s64_slot (h : c.Sized) : s64 (c.rra.rraDef.pdpCnt * c.rrd.pdpStep) = c.slot :=
  s64_of_lt h.slot_pos.le (h.slot_lt.trans (by norm_num))

section Row
variable {junk : Coverage} {bin : TargetBin} {row : ℕ} {st : PrefillBin} {a : List Coverage} {m : ℤ}

/-- An unknown value is passed over. -/
lemma prefillRow_nan (hv : c.value row = .nan) : prefillRow junk bin c row st = .ok st := by
  rw [prefillRow]
  dsimp only
  rw [hv, if_neg fun h => h.2 rfl]
  rfl

/-- A known value: what `add_coverage` covers for it decides. -/
lemma prefillRow_known (h : c.Sized) (hv : c.value row ≠ .nan)
    (hadd : addCoverage junk st.coverage (c.rowEnd row - c.slot + 1) (c.rowEnd row) = .ok (a, m)) :
    prefillRow junk bin c row st = .ok (if 0 < m then
      ⟨a, st.totalCovered + m, prefillConsolidate bin.cf st.value (c.value row) (s32 bin.size) m⟩
      else { st with coverage := a }) := by
  have hoverlap := overlap_nonneg bin.start bin.stop (c.rowEnd row - c.slot + 1) (c.rowEnd row)
  have hend : endTimeForRow c.rrd c.rra.rraDef c.rra.curRow row = c.rowEnd row := rfl
  rw [prefillRow]
  simp only [hend, s64_slot h]
  rw [if_pos ⟨by omega, fun hn => hv (ExtNum.isnan_eq_true.1 hn)⟩, hadd]
  show (if 0 < m then _ else _) = _
  split_ifs <;> rfl

end Row

lemma prefillRows_eq (junk : Coverage) (bin : TargetBin) (c : SourceCandidate) (n ci : ℕ) (st : PrefillBin)
    (hci : ci ≤ c.rra.rraDef.rowCnt) (hpos : 0 < c.rra.rraDef.rowCnt) :
    prefillRows junk bin c n ci st =
      overRows junk bin c ((List.range n).map fun i => (ci + i) % c.rra.rraDef.rowCnt) st := by
  induction n generalizing ci st with
  | zero => rfl
  | succ n ih =>
    have hwrap : (if ci = c.rra.rraDef.rowCnt then 0 else ci) = ci % c.rra.rraDef.rowCnt := by
      split_ifs with hfull
      · rw [hfull, Nat.mod_self]
      · rw [Nat.mod_eq_of_lt (by omega)]
    have hlt := Nat.mod_lt ci hpos
    have hnext : ∀ i, (ci % c.rra.rraDef.rowCnt + 1 + i) % c.rra.rraDef.rowCnt = (ci + (i + 1)) % c.rra.rraDef.rowCnt :=
      fun i => by rw [add_assoc, Nat.mod_add_mod, add_comm 1 i]
    rw [prefillRows, List.range_succ_eq_map, List.map_cons, List.map_map, overRows, add_zero]
    simp only [hwrap]
    split
    · refine congrArg _ (funext fun st' => ?_)
      rw [ih _ _ (by omega)]
      simp only [hnext]
      rfl
    · rfl

lemma prefillCandidate_eq (c : SourceCandidate) (junk : Coverage) (bin : TargetBin) (st : PrefillBin) :
    prefillCandidate junk bin c st = overRows junk bin c (c.binRows bin.start bin.stop) st := by
  rw [prefillCandidate, binRows]
  dsimp only
  split_ifs with hrange
  · exact prefillRows_eq junk bin c _ _ st hrange.1.le (Nat.zero_lt_of_lt hrange.1)
  · rfl

lemma mem_ages {a b : ℤ} (hba : b ≤ a) {row : ℕ} :
    row ∈ (List.range (a - b + 1).toNat).map (fun i : ℕ => c.rowOfAge (a - i)) ↔
      ∃ e, b ≤ e ∧ e ≤ a ∧ c.rowOfAge e = row := by
  rw [List.mem_map]
  constructor
  · rintro ⟨i, hi, rfl⟩
    rw [List.mem_range] at hi
    exact ⟨a - i, by omega, by omega, rfl⟩
  · rintro ⟨e, hbe, hea, rfl⟩
    refine ⟨(a - e).toNat, List.mem_range.2 (by omega), ?_⟩
    rw [Int.toNat_of_nonneg (by omega), sub_sub_cancel]

section Ring
variable (h : c.Sized)
include h

/-- The row of an age as `row_for_time` gives it. -/
lemma u64_row (a : ℤ) : u64 ((c.rra.curRow - a) % c.rowCnt) = c.rowOfAge a := by
  have := Int.emod_lt_of_pos (c.rra.curRow - a) h.rowCnt_pos
  have := h.rowCnt_lt
  rw [u64_of_lt (Int.emod_nonneg _ h.rowCnt_pos.ne') (by omega)]
  rfl

lemma binRows_none (hs : start ≤ c.now) (hstop : stop ≤ c.now)
    (hnone : c.foundAge start = none ∨ c.foundAge stop = none) : c.binRows start stop = [] := by
  have hlt := h.rowCnt_lt
  have hcnt : c.rowCnt = c.rra.rraDef.rowCnt := rfl
  have hout : ¬u64 (-1) < c.rra.rraDef.rowCnt := by
    have : u64 (-1) = 2 ^ 64 - 1 := by decide
    omega
  rw [binRows, if_neg]
  rintro ⟨hstart, hend⟩
  rw [rowForTime_eq h hs] at hstart
  rw [rowForTime_eq h hstop] at hend
  rcases hnone with hnone | hnone
  · rw [hnone] at hstart
    exact hout hstart
  · rw [hnone] at hend
    exact hout hend

/-- Both rows are found: as many rows as there are from one to the other, modulo the size of the ring. -/
lemma binRows_some {a b : ℤ} (hs : start ≤ c.now) (hstop : stop ≤ c.now) (ha : c.foundAge start = some a)
    (hb : c.foundAge stop = some b) :
    c.binRows start stop = (List.range ((a - b + 1) % c.rowCnt).toNat).map fun i : ℕ => c.rowOfAge (a - i) := by
  have hpos := h.rowCnt_pos
  have hlt := h.rowCnt_lt
  have hcnt : c.rowCnt = c.rra.rraDef.rowCnt := rfl
  have hrowa := rowOfAge_lt h a
  have hrowb := rowOfAge_lt h b
  have hcount : ((c.rowOfAge b : ℤ) - c.rowOfAge a + 1) % c.rowCnt = (a - b + 1) % c.rowCnt := by
    rw [rowOfAge_cast h, rowOfAge_cast h]
    have hmod : (c.rra.curRow - b) % c.rowCnt - (c.rra.curRow - a) % c.rowCnt + 1 ≡
        (c.rra.curRow - b) - (c.rra.curRow - a) + 1 [ZMOD c.rowCnt] :=
      ((Int.mod_modEq _ _).sub (Int.mod_modEq _ _)).add_right 1
    rw [hmod.eq]
    congr 1
    ring
  have hstartBin : u64 (rowForTime c.rrd c.rra.rraDef c.rra.curRow start) = c.rowOfAge a := by
    rw [rowForTime_eq h hs, ha]
    exact u64_row h a
  have hendBin : u64 (rowForTime c.rrd c.rra.rraDef c.rra.curRow stop) = c.rowOfAge b := by
    rw [rowForTime_eq h hstop, hb]
    exact u64_row h b
  rw [binRows]
  simp only [hstartBin, hendBin]
  rw [if_pos ⟨hrowa, hrowb⟩, s32_rowCnt h, s32_of_mem (by omega) (by omega), positiveMod_eq_emod hpos, hcount]
  refine List.map_congr_left fun i _ => ?_
  have hcast : (((c.rowOfAge a + i) % c.rra.rraDef.rowCnt : ℕ) : ℤ) = c.rowOfAge (a - i) := by
    rw [rowOfAge_cast h, Int.natCast_mod, Nat.cast_add, rowOfAge_cast h, ← hcnt, Int.emod_add_emod]
    congr 1
    ring
  exact_mod_cast hcast

/-- Unless the rows are the whole ring, they have the ages from `a` down to `b`. -/
lemma binRows_ages {a b : ℤ} (hs : start ≤ c.now) (hstop : stop ≤ c.now) (ha : c.foundAge start = some a)
    (hb : c.foundAge stop = some b) (hba : b ≤ a) (hpart : a - b + 1 < c.rowCnt) :
    c.binRows start stop = (List.range (a - b + 1).toNat).map fun i : ℕ => c.rowOfAge (a - i) := by
  rw [binRows_some h hs hstop ha hb, Int.emod_eq_of_lt (by omega) hpart]

/-- A full ring counts as an empty one. -/
lemma binRows_full {a b : ℤ} (hs : start ≤ c.now) (hstop : stop ≤ c.now) (ha : c.foundAge start = some a)
    (hb : c.foundAge stop = some b) (hfull : a - b + 1 = c.rowCnt) : c.binRows start stop = [] := by
  rw [binRows_some h hs hstop ha hb, hfull, Int.emod_self]
  rfl

/-- They are in the order of time. -/
lemma ages_sorted {a b : ℤ} (h0 : 0 ≤ b) (ha : a < c.rowCnt) :
    (((List.range (a - b + 1).toNat).map fun i : ℕ => c.rowOfAge (a - i)).map c.rowEnd).Pairwise (· < ·) := by
  rw [List.map_map, List.pairwise_map]
  refine List.Pairwise.imp_of_mem ?_ List.pairwise_lt_range
  intro i j hi hj hij
  rw [List.mem_range] at hi hj
  have hpos := h.slot_pos
  have hlt : (a - j) * c.slot < (a - i) * c.slot := mul_lt_mul_of_pos_right (by omega) hpos
  show c.rowEnd _ < c.rowEnd _
  rw [rowEnd_rowOfAge h (by omega) (by omega), rowEnd_rowOfAge h (by omega) (by omega)]
  omega

end Ring

/-! ### When the right rows are visited -/

/-- The rows are those that meet the bin, each once and in the order of time. -/
def VisitsBin (c : SourceCandidate) (start stop : ℤ) (rows : List ℕ) : Prop :=
  (rows.map c.rowEnd).Pairwise (· < ·) ∧
    ∀ row, row ∈ rows ↔ row < c.rra.rraDef.rowCnt ∧ c.Intersects start stop row

/-- The ages of the rows that are gone over are those of the rows that meet the bin. -/
lemma visitsBin_ages (h : c.Sized) {a b : ℤ} (h0 : 0 ≤ b) (hba : b ≤ a) (ha : a < c.rowCnt)
    (hb0 : 0 ≤ c.age stop) (hle : c.age stop ≤ c.age start) (ha' : c.age start < c.rowCnt) :
    VisitsBin c start stop ((List.range (a - b + 1).toNat).map fun i : ℕ => c.rowOfAge (a - i)) ↔
      a = c.age start ∧ b = c.age stop := by
  constructor
  · rintro ⟨-, hmem⟩
    have hin : ∀ e, 0 ≤ e → e < c.rowCnt → ((b ≤ e ∧ e ≤ a) ↔ c.age stop ≤ e ∧ e ≤ c.age start) := by
      intro e he0 he
      have hrow := hmem (c.rowOfAge e)
      rw [mem_ages hba, and_iff_right (rowOfAge_lt h e), intersects_iff h he0 he] at hrow
      rw [← hrow]
      constructor
      · exact fun hbe => ⟨e, hbe.1, hbe.2, rfl⟩
      · rintro ⟨e', hbe, hea, heq⟩
        obtain rfl := rowOfAge_inj h (by omega) (by omega) he0 he heq
        exact ⟨hbe, hea⟩
    have h1 := hin a (by omega) ha
    have h2 := hin b h0 (by omega)
    have h3 := hin _ (by omega) ha'
    have h4 := hin _ hb0 (by omega)
    omega
  · rintro ⟨rfl, rfl⟩
    refine ⟨ages_sorted h h0 ha, fun row => ?_⟩
    rw [mem_ages hba]
    constructor
    · rintro ⟨e, hbe, hea, rfl⟩
      exact ⟨rowOfAge_lt h e, (intersects_iff h (by omega) (by omega)).2 ⟨hbe, hea⟩⟩
    · rintro ⟨hrow, hmeets⟩
      obtain ⟨e, he0, he, rfl⟩ := exists_age h hrow
      obtain ⟨hbe, hea⟩ := (intersects_iff h he0 he).1 hmeets
      exact ⟨e, hbe, hea, rfl⟩

/-- Some row of the ring does not meet the bin when fewer rows than the ring has do. -/
lemma exists_outside_iff (h : c.Sized) (hb0 : 0 ≤ c.age stop) (hle : c.age stop ≤ c.age start)
    (ha' : c.age start < c.rowCnt) :
    (∃ row < c.rra.rraDef.rowCnt, ¬c.Intersects start stop row) ↔ c.age start - c.age stop + 1 < c.rowCnt := by
  constructor
  · rintro ⟨row, hrow, hout⟩
    obtain ⟨e, he0, he, rfl⟩ := exists_age h hrow
    rw [intersects_iff h he0 he] at hout
    omega
  · intro hlt
    rcases eq_or_lt_of_le hb0 with hzero | hpos
    · refine ⟨c.rowOfAge (c.rowCnt - 1), rowOfAge_lt h _, ?_⟩
      rw [intersects_iff h (by omega) (by omega)]
      omega
    · refine ⟨c.rowOfAge 0, rowOfAge_lt h _, ?_⟩
      rw [intersects_iff h le_rfl h.rowCnt_pos]
      omega

/-- For a bin within the ring, the inner loop visits exactly the rows that meet the bin, each once and in the order of
time, if and only if the rows of both ends are found and some row of the ring does not meet the bin. -/
theorem binRows_visits_iff {c : SourceCandidate} {start stop : ℤ} (h : c.Sized) (hle : start ≤ stop)
    (hs : c.InWindow start) (he : c.InWindow stop) :
    VisitsBin c start stop (c.binRows start stop) ↔
      c.Finds start ∧ c.Finds stop ∧ ∃ row < c.rra.rraDef.rowCnt, ¬c.Intersects start stop row := by
  have hb0 := age_nonneg h he.2
  have hage : c.age stop ≤ c.age start := Int.ediv_le_ediv h.slot_pos (by omega)
  have ha' := age_lt h hs
  -- the row of the last second always meets the bin
  have hmeets : c.Intersects start stop (c.rowOfAge (c.age stop)) :=
    (intersects_iff h hb0 (by omega)).2 ⟨le_rfl, hage⟩
  have hempty : ¬VisitsBin c start stop [] := fun hv =>
    List.not_mem_nil ((hv.2 _).2 ⟨rowOfAge_lt h _, hmeets⟩)
  rw [← foundAge_eq_iff h hs, ← foundAge_eq_iff h he]
  cases hfs : c.foundAge start with
  | none =>
    rw [binRows_none h hs.2 he.2 (.inl hfs)]
    exact iff_of_false hempty fun hr => by cases hr.1
  | some a =>
    cases hfe : c.foundAge stop with
    | none =>
      rw [binRows_none h hs.2 he.2 (.inr hfe)]
      exact iff_of_false hempty fun hr => by cases hr.2.1
    | some b =>
      obtain ⟨hapast, ha⟩ := foundAge_eq_some hfs
      obtain ⟨hbpast, -⟩ := foundAge_eq_some hfe
      have hba : b ≤ a := by
        rw [hapast, hbpast]
        exact pastCnt_anti h hle
      have h0 : 0 ≤ b := by
        rw [hbpast, pastCnt_eq h]
        split_ifs <;> omega
      rw [Option.some.injEq, Option.some.injEq, exists_outside_iff h hb0 hage ha']
      rcases eq_or_lt_of_le (show a - b + 1 ≤ c.rowCnt by omega) with hfull | hpart
      · rw [binRows_full h hs.2 he.2 hfs hfe hfull]
        refine iff_of_false hempty ?_
        rintro ⟨rfl, rfl, hlt⟩
        exact hlt.ne hfull
      · rw [binRows_ages h hs.2 he.2 hfs hfe hba hpart, visitsBin_ages h h0 hba ha hb0 hage ha']
        constructor
        · rintro ⟨rfl, rfl⟩
          exact ⟨rfl, rfl, hpart⟩
        · exact fun hr => ⟨hr.1, hr.2.1⟩

end Rrdtool
