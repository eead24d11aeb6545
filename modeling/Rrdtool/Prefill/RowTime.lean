import Rrdtool.Prefill.Rows

/-!
# Rows and times in `int`s

`end_time_for_row` and `row_for_time` (`src/rrd_create.c`) with all their conversions: rows, row counts, the slot length and
products of them are `int`s there, and only the times have 64 bits. A time before the epoch is not rounded up to the end of
its row. `rowForTimeInt_converts_iff` says for which archives the two are each other's inverse for every row and every time.
-/

namespace Rrdtool

/-- `end_time_for_row` in `int`s; nothing for a division by 0. -/
@[grind] def endTimeForRowInt (rrd : MemRrd) (rra : RraDef) (curRow row : ℤ) : Option ℤ :=
  let slot := timeslot rrd rra
  let rowCnt := s32 rra.rowCnt
  if rowCnt = 0 ∨ slot = 0 then none
  else
    let pastCnt := positiveMod (s32 (curRow - row)) rowCnt
    some (rrd.lastUp - (rrd.lastUp : ℤ).tmod slot - s32 (pastCnt * slot))

/-- `row_for_time` in `int`s; nothing for a division by 0. -/
@[grind] def rowForTimeInt (rrd : MemRrd) (rra : RraDef) (curRow reqTime : ℤ) : Option ℤ :=
  let slot := timeslot rrd rra
  let rowCnt := s32 rra.rowCnt
  if slot = 0 then none
  else
    let delta := reqTime.tmod slot
    let reqTime := if 0 < delta then reqTime + (slot - delta) else reqTime
    let delta := reqTime.tmod slot
    let lastUp : ℤ := if 0 < delta then rrd.lastUp + (slot - delta) else rrd.lastUp
    if lastUp < reqTime then some (-1)
    else if reqTime ≤ s32 (s32 lastUp - s32 (rowCnt * slot)) then some (-1)
    else
      let pastCnt := s32 ((lastUp - reqTime).tdiv slot)
      if rowCnt ≤ pastCnt then some (-1)
      else if rowCnt = 0 then none
      else
        let row := positiveMod (s32 (curRow - pastCnt)) rowCnt
        some (if row < 0 then row + rowCnt else row)

/-- The seconds of a row. -/
def slotLength (rrd : MemRrd) (rra : RraDef) : ℤ := rra.pdpCnt * rrd.pdpStep

/-- The row covers the time. -/
def CoversTime (rrd : MemRrd) (rra : RraDef) (curRow row : ℕ) (t : ℤ) : Prop :=
  ∃ e, endTimeForRowInt rrd rra curRow row = some e ∧ e - slotLength rrd rra < t ∧ t ≤ e

/-- The functions are each other's inverse: the end of a row leads back to it, a time that a row covers leads to this row,
and one that none covers to -1. -/
structure Converts (rrd : MemRrd) (rra : RraDef) (curRow : ℕ) : Prop where
  inverse : ∀ row < rra.rowCnt,
    ∃ e, endTimeForRowInt rrd rra curRow row = some e ∧ rowForTimeInt rrd rra curRow e = some (row : ℤ)
  inside : ∀ row < rra.rowCnt, ∀ t, CoversTime rrd rra curRow row t → rowForTimeInt rrd rra curRow t = some (row : ℤ)
  outside : ∀ t, (∀ row < rra.rowCnt, ¬ CoversTime rrd rra curRow row t) → rowForTimeInt rrd rra curRow t = some (-1)

/-- The time before the oldest row, as an `int`. -/
def intLimit (rrd : MemRrd) (rra : RraDef) : ℤ := s32 (rrd.lastUp - rra.rowCnt * slotLength rrd rra)

/-- The end of the current row. -/
@[grind] def currentEnd (rrd : MemRrd) (rra : RraDef) : ℤ := rrd.lastUp - rrd.lastUp % slotLength rrd rra

/-- The slot length, the row count and the age of the oldest row are `int`s; the time before the oldest row as an `int` is
not too late, and not 2^31 rows too early; and the oldest row ends after the epoch, or the last update was at the end of a
row. -/
structure IntsSuffice (rrd : MemRrd) (rra : RraDef) : Prop where
  slot_lt : slotLength rrd rra < 2 ^ 31
  rowCnt_lt : rra.rowCnt < 2 ^ 31
  age_lt : (rra.rowCnt - 1) * slotLength rrd rra < 2 ^ 31
  limit_le : intLimit rrd rra ≤ rrd.lastUp - rra.rowCnt * slotLength rrd rra
  limit_near : rrd.lastUp - intLimit rrd rra ≤ 2 ^ 31 * slotLength rrd rra ∨
    -1 ≤ intLimit rrd rra ∧ currentEnd rrd rra - intLimit rrd rra ≤ 2 ^ 31 * slotLength rrd rra
  epoch : (rra.rowCnt - 1) * slotLength rrd rra < currentEnd rrd rra ∨ slotLength rrd rra ∣ rrd.lastUp

/-! ### Rounding -/

/-- The time that is looked for. -/
@[grind] def roundUp (slot t : ℤ) : ℤ := if 0 < t.tmod slot then t + (slot - t.tmod slot) else t

section Rounding

variable {slot t e : ℤ}

lemma roundUp_of_dvd (h : slot ∣ t) : roundUp slot t = t := by
  rw [roundUp, Int.tmod_eq_zero_of_dvd h, if_neg (lt_irrefl 0)]

lemma tmod_nonpos (ht : t ≤ 0) : t.tmod slot ≤ 0 := by
  have := Int.tmod_nonneg slot (neg_nonneg.2 ht)
  rw [Int.neg_tmod] at this
  omega

lemma roundUp_of_nonpos (ht : t ≤ 0) : roundUp slot t = t := if_neg (tmod_nonpos ht).not_gt

/-- The end of the slot that a time from the epoch on is in. -/
lemma roundUp_eq (ht : 0 ≤ t) (hdvd : slot ∣ e) (hlow : e - slot < t) (hhigh : t ≤ e) :
    roundUp slot t = e := by
  obtain ⟨k, rfl⟩ := hdvd
  rcases eq_or_lt_of_le hhigh with rfl | hlt
  · exact roundUp_of_dvd ⟨k, rfl⟩
  · have hmod : t.tmod slot = t - (slot * k - slot) := by
      rw [Int.tmod_eq_emod_of_nonneg ht]
      have hsplit : t = t - (slot * k - slot) + slot * (k - 1) := by ring
      nth_rewrite 1 [hsplit]
      rw [Int.add_mul_emod_self_left, Int.emod_eq_of_lt (by omega) (by omega)]
    rw [roundUp, hmod, if_pos (by omega)]
    ring

/-- From the epoch on it is the end of a slot, the first one from the time on. -/
lemma exists_roundUp (hslot : 0 < slot) (ht : 0 ≤ t) :
    ∃ k, roundUp slot t = slot * k ∧ slot * k - slot < t ∧ t ≤ slot * k := by
  have hmod := Int.emod_nonneg (-t) hslot.ne'
  have hlt := Int.emod_lt_of_pos (-t) hslot
  have hsum := Int.emod_add_mul_ediv (-t) slot
  have heq : slot * -(-t / slot) = t + -t % slot := by
    rw [mul_neg]
    omega
  refine ⟨-(-t / slot), ?_, by omega, by omega⟩
  exact roundUp_eq ht ⟨_, rfl⟩ (by omega) (by omega)

/-- Only one end of a slot lies in a slot. -/
lemma eq_of_dvd_of_mem {f : ℤ} (he : slot ∣ e) (hf : slot ∣ f) (hlow : f - slot < e) (hhigh : e ≤ f) : e = f := by
  have hzero := Int.eq_zero_of_dvd_of_nonneg_of_lt (show 0 ≤ f - e by omega) (by omega) (hf.sub he)
  omega

end Rounding

/-! ### The row of a rounded time -/

section RowAt

variable (rrd : MemRrd) (rra : RraDef) (cur : ℕ)

/-- The rest of `row_for_time`, for a time at which there is nothing to round. -/
@[grind] def rowAt (e : ℤ) : Option ℤ :=
  let rowCnt := s32 rra.rowCnt
  if (rrd.lastUp : ℤ) < e then some (-1)
  else if e ≤ intLimit rrd rra then some (-1)
  else
    let pastCnt := s32 ((rrd.lastUp - e).tdiv (timeslot rrd rra))
    if rowCnt ≤ pastCnt then some (-1)
    else if rowCnt = 0 then none
    else
      let row := positiveMod (s32 (cur - pastCnt)) rowCnt
      some (if row < 0 then row + rowCnt else row)

variable {rrd rra cur} {t e x : ℤ}

lemma s32_emod_congr {z w : ℤ} (h : z % 2 ^ 32 = w % 2 ^ 32) : s32 z = s32 w := by
  have hz := s32_emod z
  have hw := s32_emod w
  have := s32_lt z
  have := s32_lt w
  have := le_s32 z
  have := le_s32 w
  omega

lemma intLimit_eq : s32 (s32 rrd.lastUp - s32 (s32 rra.rowCnt * timeslot rrd rra)) = intLimit rrd rra := by
  apply s32_emod_congr
  have hlast : s32 rrd.lastUp ≡ rrd.lastUp [ZMOD 2 ^ 32] := s32_emod _
  have hcnt : s32 rra.rowCnt ≡ rra.rowCnt [ZMOD 2 ^ 32] := s32_emod _
  have hslot : timeslot rrd rra ≡ slotLength rrd rra [ZMOD 2 ^ 32] := s32_emod _
  have hprod : s32 (s32 rra.rowCnt * timeslot rrd rra) ≡ s32 rra.rowCnt * timeslot rrd rra [ZMOD 2 ^ 32] := s32_emod _
  exact hlast.sub (hprod.trans (hcnt.mul hslot))

lemma rowForTimeInt_eq (hslot : timeslot rrd rra ≠ 0) (hround : roundUp (timeslot rrd rra) t = e)
    (hdone : ¬ 0 < e.tmod (timeslot rrd rra)) : rowForTimeInt rrd rra cur t = rowAt rrd rra cur e := by
  unfold rowForTimeInt
  dsimp only
  rw [if_neg hslot, ← roundUp, hround, if_neg hdone, intLimit_eq]
  rfl

/-- A row that is found is one that there is as an `int`. -/
lemma rowForTimeInt_lt (hcnt : 0 < s32 rra.rowCnt) (h : rowForTimeInt rrd rra cur t = some x) :
    x < s32 rra.rowCnt := by
  have hrow : ∀ a, ¬ positiveMod a (s32 rra.rowCnt) < 0 ∧ positiveMod a (s32 rra.rowCnt) < s32 rra.rowCnt := by
    intro a
    rw [positiveMod_eq_emod hcnt]
    exact ⟨(Int.emod_nonneg a hcnt.ne').not_gt, Int.emod_lt_of_pos a hcnt⟩
  unfold rowForTimeInt at h
  simp only [(hrow _).1, if_false] at h
  split_ifs at h
  all_goals
    cases h
    first | exact (hrow _).2 | omega

/-- With a row count that is an `int`, the row is found if it is not too old. -/
lemma rowAt_eq (hcnt : s32 rra.rowCnt = rra.rowCnt) (hcur : cur < rra.rowCnt) {q : ℤ} (he : e ≤ rrd.lastUp)
    (hlimit : intLimit rrd rra < e) (hq : s32 ((rrd.lastUp - e).tdiv (timeslot rrd rra)) = q) :
    rowAt rrd rra cur e = some (if (rra.rowCnt : ℤ) ≤ q then -1 else s32 (cur - q) % rra.rowCnt) := by
  have hpos : (0 : ℤ) < rra.rowCnt := by omega
  rw [rowAt]
  dsimp only
  rw [if_neg he.not_gt, if_neg hlimit.not_ge, hq, hcnt, if_neg hpos.ne', positiveMod_eq_emod hpos,
    if_neg (Int.emod_nonneg _ hpos.ne').not_gt]
  split_ifs <;> rfl

end RowAt

/-! ### Where the `int`s suffice -/

section Suffice

variable {rrd : MemRrd} {rra : RraDef} {cur row : ℕ} {t e : ℤ}

/-- How many rows before the current one a row is. -/
@[grind] def rowAge (rra : RraDef) (cur row : ℕ) : ℤ := ((cur : ℤ) - row) % rra.rowCnt

lemma rowAge_nonneg (hcur : cur < rra.rowCnt) : 0 ≤ rowAge rra cur row := Int.emod_nonneg _ (by omega)

lemma rowAge_lt (hcur : cur < rra.rowCnt) : rowAge rra cur row < rra.rowCnt := Int.emod_lt_of_pos _ (by omega)

/-- The row of an age. -/
lemma row_of_age (hrow : row < rra.rowCnt) :
    ((cur : ℤ) - rowAge rra cur row) % rra.rowCnt = row := by
  rw [rowAge, Int.sub_emod, Int.emod_emod, ← Int.sub_emod, sub_sub_cancel]
  exact Int.emod_eq_of_lt (by omega) (by omega)

lemma exists_row {p : ℤ} (h0 : 0 ≤ p) (hp : p < rra.rowCnt) :
    ∃ row < rra.rowCnt, rowAge rra cur row = p := by
  have hpos : (0 : ℤ) < rra.rowCnt := by omega
  have hnonneg := Int.emod_nonneg ((cur : ℤ) - p) hpos.ne'
  have hlt := Int.emod_lt_of_pos ((cur : ℤ) - p) hpos
  refine ⟨(((cur : ℤ) - p) % rra.rowCnt).toNat, by omega, ?_⟩
  rw [rowAge, Int.toNat_of_nonneg hnonneg, Int.sub_emod, Int.emod_emod, ← Int.sub_emod, sub_sub_cancel,
    Int.emod_eq_of_lt h0 hp]

/-- The rows of two different ages are different. -/
lemma rowAge_inj {p q : ℤ} (hp0 : 0 ≤ p) (hp : p < rra.rowCnt) (hq0 : 0 ≤ q) (hq : q < rra.rowCnt)
    (heq : ((cur : ℤ) - p) % rra.rowCnt = ((cur : ℤ) - q) % rra.rowCnt) : p = q := by
  have hmod : (p : ℤ) ≡ q [ZMOD rra.rowCnt] := by
    have hsub : ((cur : ℤ) - (cur - p)) ≡ cur - (cur - q) [ZMOD rra.rowCnt] := Int.ModEq.sub rfl heq
    simpa only [sub_sub_cancel] using hsub
  rwa [Int.ModEq, Int.emod_eq_of_lt hp0 hp, Int.emod_eq_of_lt hq0 hq] at hmod

/-- The end of a row by its age. -/
@[grind] def rowEndAt (rrd : MemRrd) (rra : RraDef) (p : ℤ) : ℤ := currentEnd rrd rra - p * slotLength rrd rra

lemma timeslot_eq_slotLength (hslot : 0 < slotLength rrd rra) (h : slotLength rrd rra < 2 ^ 31) :
    timeslot rrd rra = slotLength rrd rra := s32_of_lt hslot.le h

lemma s32_rowCnt_eq (h : rra.rowCnt < 2 ^ 31) : s32 rra.rowCnt = rra.rowCnt := s32_natCast h

lemma rowForTimeInt_rowAt (hslot : 0 < slotLength rrd rra) (hslot' : slotLength rrd rra < 2 ^ 31)
    (hround : roundUp (slotLength rrd rra) t = e) (hdone : ¬ 0 < e.tmod (slotLength rrd rra)) :
    rowForTimeInt rrd rra cur t = rowAt rrd rra cur e := by
  have heq := timeslot_eq_slotLength hslot hslot'
  rw [← heq] at hround hdone
  exact rowForTimeInt_eq (by omega) hround hdone

lemma endTimeForRowInt_eq (hslot : 0 < slotLength rrd rra) (hslot' : slotLength rrd rra < 2 ^ 31)
    (hcnt : rra.rowCnt < 2 ^ 31) (hcur : cur < rra.rowCnt) (hrow : row < rra.rowCnt) :
    endTimeForRowInt rrd rra cur row =
      some (currentEnd rrd rra - s32 (rowAge rra cur row * slotLength rrd rra)) := by
  have hpos : (0 : ℤ) < rra.rowCnt := by omega
  rw [endTimeForRowInt]
  dsimp only
  rw [timeslot_eq_slotLength hslot hslot', s32_rowCnt_eq hcnt, if_neg (by omega), positiveMod_eq_emod hpos,
    @s32_of_mem ((cur : ℤ) - row) (by omega) (by omega), Int.tmod_eq_emod_of_nonneg (Int.natCast_nonneg _)]
  rfl

/-- A row's end where the products are `int`s. -/
lemma endTimeForRowInt_rowEndAt (hslot : 0 < slotLength rrd rra) (hslot' : slotLength rrd rra < 2 ^ 31)
    (hcnt : rra.rowCnt < 2 ^ 31) (hage : (rra.rowCnt - 1) * slotLength rrd rra < 2 ^ 31) (hcur : cur < rra.rowCnt)
    (hrow : row < rra.rowCnt) :
    endTimeForRowInt rrd rra cur row = some (rowEndAt rrd rra (rowAge rra cur row)) := by
  have hnonneg := @rowAge_nonneg rra cur row hcur
  have hlt := @rowAge_lt rra cur row hcur
  have hprod := mul_nonneg hnonneg hslot.le
  have hle : rowAge rra cur row * slotLength rrd rra ≤ (rra.rowCnt - 1) * slotLength rrd rra :=
    mul_le_mul_of_nonneg_right (by omega) hslot.le
  rw [endTimeForRowInt_eq hslot hslot' hcnt hcur hrow, s32_of_lt hprod (by omega)]
  rfl

lemma currentEnd_eq : currentEnd rrd rra = slotLength rrd rra * (rrd.lastUp / slotLength rrd rra) := by
  have hsum := Int.emod_add_mul_ediv (rrd.lastUp : ℤ) (slotLength rrd rra)
  rw [currentEnd]
  omega

lemma currentEnd_nonneg (hslot : 0 < slotLength rrd rra) : 0 ≤ currentEnd rrd rra := by
  rw [currentEnd_eq]
  exact mul_nonneg hslot.le (Int.ediv_nonneg (Int.natCast_nonneg _) hslot.le)

lemma slotLength_dvd_rowEndAt (p : ℤ) : slotLength rrd rra ∣ rowEndAt rrd rra p := by
  have hcurrent : slotLength rrd rra ∣ currentEnd rrd rra := Int.dvd_self_sub_emod
  exact hcurrent.sub (Dvd.intro_left p rfl)

/-- The rows since a time in the row of age `p`, which is not rounded or ends at it. -/
lemma ediv_eq_age (hslot : 0 < slotLength rrd rra) {p : ℤ} (hlow : rowEndAt rrd rra p - slotLength rrd rra < e)
    (hhigh : e ≤ rowEndAt rrd rra p)
    (h : slotLength rrd rra ∣ e ∨ slotLength rrd rra ∣ rrd.lastUp) :
    (rrd.lastUp - e) / slotLength rrd rra = p := by
  have hrest := Int.emod_nonneg (rrd.lastUp : ℤ) hslot.ne'
  have hrest' := Int.emod_lt_of_pos (rrd.lastUp : ℤ) hslot
  rcases h with he | hlast
  · have heq := eq_of_dvd_of_mem he (@slotLength_dvd_rowEndAt rrd rra p) hlow hhigh
    rw [rowEndAt, currentEnd] at heq
    have hsplit : (rrd.lastUp : ℤ) - e = rrd.lastUp % slotLength rrd rra + p * slotLength rrd rra := by
      rw [heq]
      ring
    rw [hsplit, Int.add_mul_ediv_right _ _ hslot.ne', Int.ediv_eq_zero_of_lt hrest hrest', zero_add]
  · have hzero := Int.emod_eq_zero_of_dvd hlast
    rw [rowEndAt, currentEnd] at hlow hhigh
    apply le_antisymm
    · apply Int.lt_add_one_iff.1
      rw [Int.ediv_lt_iff_lt_mul hslot, add_mul, one_mul]
      omega
    · rw [Int.le_ediv_iff_mul_le hslot]
      omega

/-- A time that a row covers, and that is looked for, leads to the row. -/
lemma rowAt_covered (h : IntsSuffice rrd rra) (hslot : 0 < slotLength rrd rra) (hcur : cur < rra.rowCnt)
    (hrow : row < rra.rowCnt) (hlow : rowEndAt rrd rra (rowAge rra cur row) - slotLength rrd rra < e)
    (hhigh : e ≤ rowEndAt rrd rra (rowAge rra cur row))
    (hdvd : slotLength rrd rra ∣ e ∨ slotLength rrd rra ∣ rrd.lastUp) : rowAt rrd rra cur e = some (row : ℤ) := by
  have hnonneg := @rowAge_nonneg rra cur row hcur
  have hlt := @rowAge_lt rra cur row hcur
  have hprod := mul_nonneg hnonneg hslot.le
  have hle : rowAge rra cur row * slotLength rrd rra ≤ (rra.rowCnt - 1) * slotLength rrd rra :=
    mul_le_mul_of_nonneg_right (by omega) hslot.le
  have hq := ediv_eq_age hslot hlow hhigh hdvd
  have hrest := Int.emod_nonneg (rrd.lastUp : ℤ) hslot.ne'
  have hrest' := Int.emod_lt_of_pos (rrd.lastUp : ℤ) hslot
  have hlimit := h.limit_le
  have hcnt := h.rowCnt_lt
  have hend : e ≤ rrd.lastUp := by
    rw [rowEndAt, currentEnd] at hhigh
    omega
  have hafter : intLimit rrd rra < e := by
    have hexpand : ((rra.rowCnt : ℤ) - 1) * slotLength rrd rra = rra.rowCnt * slotLength rrd rra - slotLength rrd rra := by
      ring
    rcases hdvd with he | hlast
    · have hmul := eq_of_dvd_of_mem he (slotLength_dvd_rowEndAt _) hlow hhigh
      rw [rowEndAt, currentEnd] at hmul
      omega
    · have hzero := Int.emod_eq_zero_of_dvd hlast
      rw [rowEndAt, currentEnd] at hlow
      omega
  rw [rowAt_eq (s32_rowCnt_eq hcnt) hcur hend hafter (q := rowAge rra cur row), if_neg (by omega),
    s32_of_mem (by omega) (by omega), row_of_age hrow]
  rw [timeslot_eq_slotLength hslot h.slot_lt, Int.tdiv_eq_ediv_of_nonneg (by omega), hq, s32_of_lt hnonneg (by omega)]

/-- The times that no row covers lie after the current row or before the oldest one. -/
lemma beyond_of_not_covers (h : IntsSuffice rrd rra) (hslot : 0 < slotLength rrd rra) (hcur : cur < rra.rowCnt)
    (hout : ∀ row < rra.rowCnt, ¬ CoversTime rrd rra cur row t) :
    currentEnd rrd rra < t ∨ t ≤ rowEndAt rrd rra rra.rowCnt := by
  by_contra! hin
  obtain ⟨hhigh, hlow⟩ := hin
  rw [rowEndAt] at hlow
  have hp0 : 0 ≤ (currentEnd rrd rra - t) / slotLength rrd rra := Int.ediv_nonneg (by omega) hslot.le
  have hp : (currentEnd rrd rra - t) / slotLength rrd rra < rra.rowCnt := by
    rw [Int.ediv_lt_iff_lt_mul hslot]
    omega
  obtain ⟨row, hrow, hage⟩ := @exists_row rra cur _ hp0 hp
  have hmod := Int.emod_nonneg (currentEnd rrd rra - t) hslot.ne'
  have hmod' := Int.emod_lt_of_pos (currentEnd rrd rra - t) hslot
  have hsum := Int.emod_add_mul_ediv (currentEnd rrd rra - t) (slotLength rrd rra)
  rw [mul_comm] at hsum
  refine hout row hrow ⟨_, endTimeForRowInt_rowEndAt hslot h.slot_lt h.rowCnt_lt h.age_lt hcur hrow, ?_, ?_⟩
  · rw [hage, rowEndAt]
    omega
  · rw [hage, rowEndAt]
    omega

/-- The number of rows since a time after the limit is an `int`. -/
lemma past_lt (h : IntsSuffice rrd rra) (hslot : 0 < slotLength rrd rra) (hafter : intLimit rrd rra < e)
    (hdvd : 0 ≤ e → slotLength rrd rra ∣ e) : (rrd.lastUp - e) / slotLength rrd rra < 2 ^ 31 := by
  have hrest := Int.emod_nonneg (rrd.lastUp : ℤ) hslot.ne'
  have hrest' := Int.emod_lt_of_pos (rrd.lastUp : ℤ) hslot
  rcases h.limit_near with hnear | ⟨hepoch, hnear⟩
  · rw [Int.ediv_lt_iff_lt_mul hslot]
    omega
  · obtain ⟨k, hk⟩ : slotLength rrd rra ∣ currentEnd rrd rra - e :=
      Int.dvd_self_sub_emod.sub (hdvd (by omega))
    have hsplit : (rrd.lastUp : ℤ) - e = rrd.lastUp % slotLength rrd rra + slotLength rrd rra * k := by
      rw [← hk, currentEnd]
      ring
    rw [hsplit, Int.add_mul_ediv_left _ _ hslot.ne', Int.ediv_eq_zero_of_lt hrest hrest', zero_add]
    have hlt : slotLength rrd rra * k < slotLength rrd rra * 2 ^ 31 := by
      rw [← hk]
      omega
    exact lt_of_mul_lt_mul_left hlt hslot.le

/-- A time before the oldest row that is looked for. -/
lemma rowAt_old (h : IntsSuffice rrd rra) (hslot : 0 < slotLength rrd rra) (hcur : cur < rra.rowCnt)
    (he : e ≤ rowEndAt rrd rra rra.rowCnt) (hdvd : 0 ≤ e → slotLength rrd rra ∣ e) :
    rowAt rrd rra cur e = some (-1) := by
  have hrest := Int.emod_nonneg (rrd.lastUp : ℤ) hslot.ne'
  have hrest' := Int.emod_lt_of_pos (rrd.lastUp : ℤ) hslot
  have hcnt := h.rowCnt_lt
  have hprod : 0 ≤ rra.rowCnt * slotLength rrd rra := mul_nonneg (by omega) hslot.le
  have hend : e ≤ rrd.lastUp := by
    rw [rowEndAt, currentEnd] at he
    omega
  rcases le_or_gt e (intLimit rrd rra) with hle | hafter
  · rw [rowAt]
    dsimp only
    rw [if_neg hend.not_gt, if_pos hle]
  · have hmany : (rra.rowCnt : ℤ) ≤ (rrd.lastUp - e) / slotLength rrd rra := by
      rw [Int.le_ediv_iff_mul_le hslot]
      rw [rowEndAt, currentEnd] at he
      omega
    have hfew := past_lt h hslot hafter hdvd
    rw [rowAt_eq (s32_rowCnt_eq hcnt) hcur hend hafter rfl, timeslot_eq_slotLength hslot h.slot_lt,
      Int.tdiv_eq_ediv_of_nonneg (by omega), s32_of_lt (by omega) hfew, if_pos hmany]

lemma IntsSuffice.converts (h : IntsSuffice rrd rra) (hslot : 0 < slotLength rrd rra) (hcur : cur < rra.rowCnt) :
    Converts rrd rra cur := by
  have hrun := fun t e => @rowForTimeInt_rowAt rrd rra cur t e hslot h.slot_lt
  have hdone : ∀ {e : ℤ}, slotLength rrd rra ∣ e → ¬ 0 < e.tmod (slotLength rrd rra) := by
    intro e he
    rw [Int.tmod_eq_zero_of_dvd he]
    exact lt_irrefl 0
  have hdone' : ∀ {e : ℤ}, e ≤ 0 → ¬ 0 < e.tmod (slotLength rrd rra) := fun he => (tmod_nonpos he).not_gt
  have hends := fun row hrow =>
    @endTimeForRowInt_rowEndAt rrd rra cur row hslot h.slot_lt h.rowCnt_lt h.age_lt hcur hrow
  have hrest := Int.emod_nonneg (rrd.lastUp : ℤ) hslot.ne'
  have hinside : ∀ row < rra.rowCnt, ∀ t, CoversTime rrd rra cur row t →
      rowForTimeInt rrd rra cur t = some (row : ℤ) := by
    rintro row hrow t ⟨e, he, hlow, hhigh⟩
    rw [hends row hrow] at he
    obtain rfl := Option.some.inj he
    have hmul := @slotLength_dvd_rowEndAt rrd rra (rowAge rra cur row)
    rcases le_or_gt 0 t with ht | ht
    · rw [hrun t _ (roundUp_eq ht hmul hlow hhigh) (hdone hmul)]
      exact rowAt_covered h hslot hcur hrow (by omega) le_rfl (.inl hmul)
    · rw [hrun t t (roundUp_of_nonpos ht.le) (hdone' ht.le)]
      refine rowAt_covered h hslot hcur hrow hlow hhigh ?_
      rcases h.epoch with hepoch | hlast
      · -- then no row covers a time before the epoch
        exfalso
        have hlt := @rowAge_lt rra cur row hcur
        have hle : rowAge rra cur row * slotLength rrd rra ≤ (rra.rowCnt - 1) * slotLength rrd rra :=
          mul_le_mul_of_nonneg_right (by omega) hslot.le
        have hpos : 0 < rowEndAt rrd rra (rowAge rra cur row) := by
          rw [rowEndAt]
          omega
        have := Int.le_of_dvd hpos hmul
        omega
      · exact .inr hlast
  refine ⟨fun row hrow => ?_, hinside, fun t hout => ?_⟩
  · refine ⟨_, hends row hrow, hinside row hrow _ ⟨_, hends row hrow, by omega, le_rfl⟩⟩
  · have hnow := @currentEnd_nonneg rrd rra hslot
    rcases le_or_gt 0 t with ht | ht
    · obtain ⟨k, hround, hlow, hhigh⟩ := @exists_roundUp (slotLength rrd rra) t hslot ht
      rw [hrun t _ hround (hdone ⟨k, rfl⟩)]
      rcases beyond_of_not_covers h hslot hcur hout with hafter | hbefore
      · have hlast : (rrd.lastUp : ℤ) < slotLength rrd rra * k := by
          by_contra! hle
          have hk : k ≤ rrd.lastUp / slotLength rrd rra := by
            rwa [Int.le_ediv_iff_mul_le hslot, mul_comm]
          have := mul_le_mul_of_nonneg_left hk hslot.le
          rw [← currentEnd_eq] at this
          omega
        exact if_pos hlast
      · apply rowAt_old h hslot hcur _ fun _ => ⟨k, rfl⟩
        obtain ⟨j, hj⟩ := @slotLength_dvd_rowEndAt rrd rra rra.rowCnt
        have hlt : slotLength rrd rra * (k - 1) < slotLength rrd rra * j := by
          rw [mul_sub, mul_one, ← hj]
          omega
        rw [hj]
        have := lt_of_mul_lt_mul_left hlt hslot.le
        exact mul_le_mul_of_nonneg_left (by omega) hslot.le
    · rw [hrun t t (roundUp_of_nonpos ht.le) (hdone' ht.le)]
      rcases beyond_of_not_covers h hslot hcur hout with hafter | hbefore
      · omega
      · exact rowAt_old h hslot hcur hbefore fun h0 => absurd h0 ht.not_ge

/-- Where the `int`s suffice, the functions are those of the model without them. -/
lemma IntsSuffice.endTimeForRow (h : IntsSuffice rrd rra) (hslot : 0 < slotLength rrd rra) (hcur : cur < rra.rowCnt)
    (hrow : row < rra.rowCnt) : endTimeForRowInt rrd rra cur row = some (Rrdtool.endTimeForRow rrd rra cur row) := by
  have hpos : (0 : ℤ) < rra.rowCnt := by omega
  rw [endTimeForRowInt_rowEndAt hslot h.slot_lt h.rowCnt_lt h.age_lt hcur hrow, Rrdtool.endTimeForRow,
    timeslot_eq_slotLength hslot h.slot_lt, positiveMod_eq_emod hpos,
    Int.tmod_eq_emod_of_nonneg (Int.natCast_nonneg _)]
  rfl

lemma IntsSuffice.rowForTime (h : IntsSuffice rrd rra) (hslot : 0 < slotLength rrd rra) (hcur : cur < rra.rowCnt)
    (t : ℤ) : rowForTimeInt rrd rra cur t = some (Rrdtool.rowForTime rrd rra cur t) := by
  have hpos : (0 : ℤ) < rra.rowCnt := by omega
  have hcnt := h.rowCnt_lt
  have htimeslot := timeslot_eq_slotLength hslot h.slot_lt
  obtain ⟨e, hround, hdone, hdvd⟩ : ∃ e, roundUp (slotLength rrd rra) t = e ∧ ¬ 0 < e.tmod (slotLength rrd rra) ∧
      (0 ≤ e → slotLength rrd rra ∣ e) := by
    rcases le_or_gt 0 t with ht | ht
    · obtain ⟨k, hround, -, -⟩ := exists_roundUp hslot ht
      exact ⟨_, hround, (Int.tmod_eq_zero_of_dvd ⟨k, rfl⟩).not_gt, fun _ => ⟨k, rfl⟩⟩
    · exact ⟨t, roundUp_of_nonpos ht.le, not_lt.2 (tmod_nonpos ht.le), fun h0 => absurd h0 ht.not_ge⟩
  have hround' : (if 0 < t.tmod (slotLength rrd rra) then t + slotLength rrd rra - t.tmod (slotLength rrd rra) else t) = e := by
    rw [← hround, roundUp]
    split_ifs <;> omega
  have hwrap : s32 (s32 rrd.lastUp - s32 rra.rowCnt * slotLength rrd rra) = intLimit rrd rra :=
    s32_emod_congr (Int.ModEq.sub (s32_emod _) (Int.ModEq.mul (s32_emod _) rfl))
  rw [rowForTimeInt_rowAt hslot h.slot_lt hround hdone, Rrdtool.rowForTime]
  simp only [htimeslot, hround', hdone, if_false, hwrap]
  by_cases hlast : (rrd.lastUp : ℤ) < e
  · rw [rowAt]
    dsimp only
    rw [if_pos hlast, if_pos hlast]
  · by_cases hlimit : e ≤ intLimit rrd rra
    · rw [rowAt]
      dsimp only
      rw [if_neg hlast, if_pos hlimit, if_neg hlast, if_pos hlimit]
    · have hq0 : 0 ≤ (rrd.lastUp - e) / slotLength rrd rra := Int.ediv_nonneg (by omega) hslot.le
      have hq := past_lt h hslot (not_le.1 hlimit) hdvd
      rw [rowAt_eq (s32_rowCnt_eq hcnt) hcur (not_lt.1 hlast) (not_le.1 hlimit) rfl, if_neg hlast, if_neg hlimit,
        htimeslot, s32_rowCnt_eq hcnt, Int.tdiv_eq_ediv_of_nonneg (by omega), s32_of_lt hq0 hq]
      split_ifs with hpast
      · rfl
      · rw [positiveMod_eq_emod hpos, s32_of_mem (by omega) (by omega)]

end Suffice

/-! ### Where they do not -/

section Necessary

variable {rrd : MemRrd} {rra : RraDef} {cur row : ℕ} {t e : ℤ}

/-- A row that is found from a time at which there is nothing to round. -/
lemma rowAt_some (h : rowAt rrd rra cur e = some (row : ℤ)) :
    e ≤ rrd.lastUp ∧ intLimit rrd rra < e ∧ s32 ((rrd.lastUp - e).tdiv (timeslot rrd rra)) < s32 rra.rowCnt := by
  rw [rowAt] at h
  dsimp only at h
  split_ifs at h with hlast hlimit hpast
  · have := Option.some.inj h
    omega
  · have := Option.some.inj h
    omega
  · have := Option.some.inj h
    omega
  all_goals exact ⟨not_lt.1 hlast, not_le.1 hlimit, not_le.1 hpast⟩

section Slot

variable (h : Converts rrd rra cur) (hcur : cur < rra.rowCnt)
include h hcur

lemma Converts.timeslot_ne : timeslot rrd rra ≠ 0 := by
  intro hzero
  obtain ⟨e, he, -⟩ := h.inverse cur hcur
  rw [endTimeForRowInt] at he
  dsimp only at he
  rw [if_pos (.inr hzero)] at he
  cases he

/-- The end of the current row, with the slot length as an `int`. -/
lemma Converts.end_current : endTimeForRowInt rrd rra cur cur =
    some (rrd.lastUp - (rrd.lastUp : ℤ).tmod (timeslot rrd rra)) := by
  obtain ⟨e, he, -⟩ := h.inverse cur hcur
  rw [endTimeForRowInt] at he ⊢
  dsimp only at he ⊢
  split_ifs at he with hzero
  rw [if_neg hzero, sub_self]
  have hs : s32 0 = 0 := by decide
  rw [hs, positiveMod, Int.zero_tmod, if_neg (lt_irrefl 0), zero_mul, hs, sub_zero]

/-- It leads back to the current row. -/
lemma Converts.rowAt_current :
    rowAt rrd rra cur (rrd.lastUp - (rrd.lastUp : ℤ).tmod (timeslot rrd rra)) = some (cur : ℤ) := by
  obtain ⟨e, he, hrow⟩ := h.inverse cur hcur
  rw [h.end_current hcur] at he
  obtain rfl := Option.some.inj he
  have hdvd : timeslot rrd rra ∣ rrd.lastUp - (rrd.lastUp : ℤ).tmod (timeslot rrd rra) := Int.dvd_self_sub_tmod
  rwa [rowForTimeInt_eq (h.timeslot_ne hcur) (roundUp_of_dvd hdvd)
    (by rw [Int.tmod_eq_zero_of_dvd hdvd]; exact lt_irrefl 0)] at hrow

lemma Converts.rowCnt_lt : rra.rowCnt < 2 ^ 31 := by
  have hpast := (rowAt_some (h.rowAt_current hcur)).2.2
  rw [sub_sub_cancel] at hpast
  have hzero : ((rrd.lastUp : ℤ).tmod (timeslot rrd rra)).tdiv (timeslot rrd rra) = 0 := by
    apply Int.natAbs_eq_zero.1
    rw [Int.natAbs_tdiv, Int.natAbs_tmod]
    exact Nat.div_eq_of_lt (Nat.mod_lt _ (Int.natAbs_pos.2 (h.timeslot_ne hcur)))
  rw [hzero] at hpast
  obtain ⟨e, -, hrow⟩ := h.inverse (rra.rowCnt - 1) (by omega)
  have hlt := rowForTimeInt_lt hpast hrow
  have := s32_lt rra.rowCnt
  omega

/-- A time at which there is nothing to round, and that a row covers, is as old as the row. -/
lemma Converts.age_of_covers (hdone : ¬ 0 < t.tmod (timeslot rrd rra)) (hrow : row < rra.rowCnt)
    (ht : CoversTime rrd rra cur row t) :
    t ≤ rrd.lastUp ∧ intLimit rrd rra < t ∧ s32 ((rrd.lastUp - t).tdiv (timeslot rrd rra)) < rra.rowCnt ∧
      s32 (cur - s32 ((rrd.lastUp - t).tdiv (timeslot rrd rra))) % rra.rowCnt = row := by
  have hcnt := s32_rowCnt_eq (h.rowCnt_lt hcur)
  have hrun := h.inside row hrow t ht
  rw [rowForTimeInt_eq (h.timeslot_ne hcur) (if_neg hdone) hdone] at hrun
  obtain ⟨hlast, hlimit, hpast⟩ := rowAt_some hrun
  rw [hcnt] at hpast
  refine ⟨hlast, hlimit, hpast, ?_⟩
  rw [rowAt_eq hcnt hcur hlast hlimit rfl, if_neg hpast.not_ge] at hrun
  exact Option.some.inj hrun

/-- A time of the current row, with the slot length as an `int`. -/
lemma Converts.covers_current (hlow : rrd.lastUp - (rrd.lastUp : ℤ).tmod (timeslot rrd rra) - slotLength rrd rra < t)
    (hhigh : t ≤ rrd.lastUp - (rrd.lastUp : ℤ).tmod (timeslot rrd rra)) : CoversTime rrd rra cur cur t :=
  ⟨_, h.end_current hcur, hlow, hhigh⟩

/-- A slot length that is a smaller one as an `int` finds the row before. -/
lemma Converts.not_smaller (hpos : 0 < timeslot rrd rra) (hlt : timeslot rrd rra < slotLength rrd rra) : False := by
  have hcnt := h.rowCnt_lt hcur
  have hdvd : timeslot rrd rra ∣ rrd.lastUp - (rrd.lastUp : ℤ).tmod (timeslot rrd rra) - timeslot rrd rra :=
    (Int.dvd_self_sub_tmod).sub (dvd_refl _)
  have hdone : ¬ 0 < (rrd.lastUp - (rrd.lastUp : ℤ).tmod (timeslot rrd rra) - timeslot rrd rra).tmod (timeslot rrd rra) := by
    rw [Int.tmod_eq_zero_of_dvd hdvd]
    exact lt_irrefl 0
  obtain ⟨-, -, hpast, hrow⟩ := h.age_of_covers hcur hdone hcur (h.covers_current hcur (by omega) (by omega))
  have hrest := Int.tmod_nonneg (timeslot rrd rra) (Int.natCast_nonneg rrd.lastUp)
  have hrest' := Int.tmod_lt_of_pos (rrd.lastUp : ℤ) hpos
  have hone : ((rrd.lastUp : ℤ) - (rrd.lastUp - (rrd.lastUp : ℤ).tmod (timeslot rrd rra) - timeslot rrd rra)).tdiv
      (timeslot rrd rra) = 1 := by
    have hsplit : (rrd.lastUp : ℤ) - (rrd.lastUp - (rrd.lastUp : ℤ).tmod (timeslot rrd rra) - timeslot rrd rra) =
        (rrd.lastUp : ℤ).tmod (timeslot rrd rra) + 1 * timeslot rrd rra := by ring
    rw [hsplit, Int.tdiv_eq_ediv_of_nonneg (by omega), Int.add_mul_ediv_right _ _ hpos.ne',
      Int.ediv_eq_zero_of_lt hrest hrest', zero_add]
  have hs : s32 1 = 1 := by decide
  rw [hone, hs] at hpast hrow
  rw [s32_of_mem (by omega) (by omega)] at hrow
  have hcur' : ((cur : ℤ) - 0) % rra.rowCnt = cur := by
    rw [sub_zero]
    exact Int.emod_eq_of_lt (by omega) (by omega)
  have := rowAge_inj (by omega) hpast le_rfl (by omega) (hrow.trans hcur'.symm)
  omega

/-- A negative slot length finds the current row for a later time, or for one that is too old. -/
lemma Converts.not_negative (hneg : timeslot rrd rra < 0) (hlong : 2 ^ 31 ≤ slotLength rrd rra) : False := by
  have hcnt := h.rowCnt_lt hcur
  have hslot := s32_emod (slotLength rrd rra)
  have htimeslot : timeslot rrd rra = s32 (slotLength rrd rra) := rfl
  have hlow := le_s32 (slotLength rrd rra)
  rcases eq_or_ne (timeslot rrd rra) (-1) with hone | hone
  · have hmod : (rrd.lastUp : ℤ).tmod (timeslot rrd rra) = 0 := by
      rw [hone]
      exact Int.tmod_eq_zero_of_dvd ⟨-rrd.lastUp, by ring⟩
    have hdone : ¬ 0 < ((rrd.lastUp : ℤ) - 2 ^ 31 - 1).tmod (timeslot rrd rra) := by
      rw [hone, Int.tmod_eq_zero_of_dvd ⟨-(rrd.lastUp - 2 ^ 31 - 1), by ring⟩]
      exact lt_irrefl 0
    obtain ⟨-, -, hpast, -⟩ := h.age_of_covers hcur hdone hcur (h.covers_current hcur (by omega) (by omega))
    have hold : ((rrd.lastUp : ℤ) - (rrd.lastUp - 2 ^ 31 - 1)).tdiv (timeslot rrd rra) = -2 ^ 31 - 1 := by
      rw [hone]
      have hsub : (rrd.lastUp : ℤ) - (rrd.lastUp - 2 ^ 31 - 1) = 2 ^ 31 + 1 := by ring
      rw [hsub]
      rfl
    have hs : s32 (-2 ^ 31 - 1) = 2 ^ 31 - 1 := by decide
    rw [hold, hs] at hpast
    omega
  · -- a second after the next row is rounded to the end of the current one
    set e := (rrd.lastUp : ℤ) - (rrd.lastUp : ℤ).tmod (timeslot rrd rra) with he
    have hdvd : timeslot rrd rra ∣ e := Int.dvd_self_sub_tmod
    have he0 : 0 ≤ e := by
      have hle := Nat.mod_le (rrd.lastUp : ℤ).natAbs (timeslot rrd rra).natAbs
      rw [← Int.natAbs_tmod] at hle
      omega
    have hmod : (e - timeslot rrd rra + 1).tmod (timeslot rrd rra) = 1 := by
      obtain ⟨k, hk⟩ := hdvd
      have hsplit : e - timeslot rrd rra + 1 = 1 + timeslot rrd rra * (k - 1) := by
        rw [hk]
        ring
      rw [Int.tmod_eq_emod_of_nonneg (by omega), hsplit, Int.add_mul_emod_self_left, ← Int.emod_neg,
        Int.emod_eq_of_lt (by omega) (by omega)]
    have hround : roundUp (timeslot rrd rra) (e - timeslot rrd rra + 1) = e := by
      rw [roundUp, hmod, if_pos zero_lt_one]
      ring
    have hrun : rowForTimeInt rrd rra cur (e - timeslot rrd rra + 1) = some (cur : ℤ) := by
      rw [rowForTimeInt_eq (h.timeslot_ne hcur) hround (by rw [Int.tmod_eq_zero_of_dvd hdvd]; exact lt_irrefl 0)]
      exact h.rowAt_current hcur
    by_cases hcovered : ∃ row < rra.rowCnt, CoversTime rrd rra cur row (e - timeslot rrd rra + 1)
    · obtain ⟨row, hrow, hcovers⟩ := hcovered
      have hsame := h.inside row hrow _ hcovers
      rw [hrun] at hsame
      obtain rfl : cur = row := Nat.cast_injective (Option.some.inj hsame)
      obtain ⟨e', he', -, hle⟩ := hcovers
      rw [h.end_current hcur] at he'
      obtain rfl := Option.some.inj he'
      omega
    · have hnone := h.outside (e - timeslot rrd rra + 1) fun row hrow hcovers => hcovered ⟨row, hrow, hcovers⟩
      rw [hrun] at hnone
      have := Option.some.inj hnone
      omega

lemma Converts.slot_lt : slotLength rrd rra < 2 ^ 31 := by
  by_contra! hlong
  have hlt : timeslot rrd rra < 2 ^ 31 := s32_lt _
  rcases lt_trichotomy (timeslot rrd rra) 0 with hneg | hzero | hpos
  · exact h.not_negative hcur hneg hlong
  · exact h.timeslot_ne hcur hzero
  · exact h.not_smaller hcur hpos (by omega)

end Slot

section Age

variable (h : Converts rrd rra cur) (hcur : cur < rra.rowCnt) (hslot : 0 < slotLength rrd rra)
include h hcur hslot

lemma Converts.age_of_covers' (hdone : ¬ 0 < t.tmod (slotLength rrd rra)) (hrow : row < rra.rowCnt)
    (ht : CoversTime rrd rra cur row t) :
    t ≤ rrd.lastUp ∧ intLimit rrd rra < t ∧ s32 ((rrd.lastUp - t) / slotLength rrd rra) < rra.rowCnt ∧
      s32 (cur - s32 ((rrd.lastUp - t) / slotLength rrd rra)) % rra.rowCnt = row := by
  have hage := @Converts.age_of_covers rrd rra cur row t h hcur
  rw [timeslot_eq_slotLength hslot (h.slot_lt hcur)] at hage
  obtain ⟨hlast, hlimit, hpast, heq⟩ := hage hdone hrow ht
  rw [Int.tdiv_eq_ediv_of_nonneg (by omega)] at hpast heq
  exact ⟨hlast, hlimit, hpast, heq⟩

/-- The end of the oldest row is where it is meant to be. -/
lemma Converts.age_lt : (rra.rowCnt - 1) * slotLength rrd rra < 2 ^ 31 := by
  by_contra! hlong
  have hcnt := h.rowCnt_lt hcur
  have hslot' := h.slot_lt hcur
  have htimeslot := timeslot_eq_slotLength hslot hslot'
  obtain ⟨row, hrow, hage⟩ := @exists_row rra cur (rra.rowCnt - 1) (by omega) (by omega)
  have hback := @row_of_age rra cur row hrow
  rw [hage] at hback
  obtain ⟨e, he, hrun⟩ := h.inverse row hrow
  rw [endTimeForRowInt_eq hslot hslot' hcnt hcur hrow, hage] at he
  obtain rfl := Option.some.inj he
  have hwrap := s32_emod ((rra.rowCnt - 1) * slotLength rrd rra)
  have hwrap' := s32_lt ((rra.rowCnt - 1) * slotLength rrd rra)
  set w := s32 ((rra.rowCnt - 1) * slotLength rrd rra)
  -- the time that is looked for is too late by 2^32 seconds or more
  obtain ⟨e', hround, hle, hdone⟩ : ∃ e', roundUp (slotLength rrd rra) (currentEnd rrd rra - w) = e' ∧
      currentEnd rrd rra - w ≤ e' ∧ ¬ 0 < e'.tmod (slotLength rrd rra) := by
    rcases le_total 0 (currentEnd rrd rra - w) with h0 | h0
    · obtain ⟨k, hround, -, hle⟩ := exists_roundUp hslot h0
      exact ⟨_, hround, hle, (Int.tmod_eq_zero_of_dvd ⟨k, rfl⟩).not_gt⟩
    · exact ⟨_, roundUp_of_nonpos h0, le_rfl, not_lt.2 (tmod_nonpos h0)⟩
  rw [rowForTimeInt_rowAt hslot hslot' hround hdone] at hrun
  obtain ⟨hlast, hlimit, hpast⟩ := rowAt_some hrun
  rw [rowAt_eq (s32_rowCnt_eq hcnt) hcur hlast hlimit rfl, if_neg (by rw [← s32_rowCnt_eq hcnt]; exact hpast.not_ge),
    htimeslot, Int.tdiv_eq_ediv_of_nonneg (by omega)] at hrun
  have hrest := Int.emod_lt_of_pos (rrd.lastUp : ℤ) hslot
  have hq0 : 0 ≤ (rrd.lastUp - e') / slotLength rrd rra := Int.ediv_nonneg (by omega) hslot.le
  have hq : (rrd.lastUp - e') / slotLength rrd rra < rra.rowCnt - 1 := by
    rw [Int.ediv_lt_iff_lt_mul hslot]
    rw [currentEnd] at hle
    omega
  rw [s32_of_lt hq0 (by omega), s32_of_mem (by omega) (by omega)] at hrun
  have := rowAge_inj hq0 (by omega) (by omega) (by omega) ((Option.some.inj hrun).trans hback.symm)
  omega

/-- The limit as an `int` is not too late. -/
lemma Converts.limit_le : intLimit rrd rra ≤ rrd.lastUp - rra.rowCnt * slotLength rrd rra := by
  by_contra! hlate
  have hage := h.age_lt hcur hslot
  have hslot' := h.slot_lt hcur
  have hexpand : ((rra.rowCnt : ℤ) - 1) * slotLength rrd rra = rra.rowCnt * slotLength rrd rra - slotLength rrd rra := by
    ring
  have hlimit := (rowAt_some (h.rowAt_current hcur)).2.1
  have hrest := Int.tmod_nonneg (timeslot rrd rra) (Int.natCast_nonneg rrd.lastUp)
  have hmod := s32_emod (rrd.lastUp - rra.rowCnt * slotLength rrd rra)
  rw [← intLimit] at hmod
  omega

/-- A time 2^31 rows ago is not after the limit. -/
lemma Converts.not_far (hdone : ¬ 0 < t.tmod (slotLength rrd rra)) (hlimit : intLimit rrd rra < t)
    (hfar : 2 ^ 31 * slotLength rrd rra ≤ rrd.lastUp - t) (hnear : rrd.lastUp - t < (2 ^ 31 + 1) * slotLength rrd rra) :
    False := by
  have hcnt := h.rowCnt_lt hcur
  have hslot' := h.slot_lt hcur
  have htimeslot := timeslot_eq_slotLength hslot hslot'
  have hq : (rrd.lastUp - t) / slotLength rrd rra = 2 ^ 31 := by
    apply le_antisymm
    · exact Int.lt_add_one_iff.1 ((Int.ediv_lt_iff_lt_mul hslot).2 hnear)
    · exact (Int.le_ediv_iff_mul_le hslot).2 hfar
  have hs : s32 (2 ^ 31) = -2 ^ 31 := by decide
  have hout := h.outside t fun row hrow => by
    rintro ⟨e, he, hlow, -⟩
    rw [endTimeForRowInt_rowEndAt hslot hslot' hcnt (h.age_lt hcur hslot) hcur hrow] at he
    obtain rfl := Option.some.inj he
    have hlt := @rowAge_lt rra cur row hcur
    have hage : rowAge rra cur row * slotLength rrd rra ≤ (2 ^ 31 - 2) * slotLength rrd rra :=
      mul_le_mul_of_nonneg_right (by omega) hslot.le
    have hrest := Int.emod_lt_of_pos (rrd.lastUp : ℤ) hslot
    rw [rowEndAt, currentEnd] at hlow
    omega
  rw [rowForTimeInt_rowAt hslot hslot' (if_neg hdone) hdone, rowAt_eq (s32_rowCnt_eq hcnt) hcur (by omega) hlimit rfl, htimeslot, Int.tdiv_eq_ediv_of_nonneg (by omega), hq, hs,
    if_neg (by omega)] at hout
  have hne : (rra.rowCnt : ℤ) ≠ 0 := by omega
  exact absurd ((Int.emod_nonneg _ hne).trans_eq (Option.some.inj hout)) (by decide)

lemma Converts.limit_near : rrd.lastUp - intLimit rrd rra ≤ 2 ^ 31 * slotLength rrd rra ∨
    -1 ≤ intLimit rrd rra ∧ currentEnd rrd rra - intLimit rrd rra ≤ 2 ^ 31 * slotLength rrd rra := by
  by_contra! hfar
  obtain ⟨hfar, hfar'⟩ := hfar
  have hrest := Int.emod_nonneg (rrd.lastUp : ℤ) hslot.ne'
  have hrest' := Int.emod_lt_of_pos (rrd.lastUp : ℤ) hslot
  have hnow : currentEnd rrd rra = rrd.lastUp - rrd.lastUp % slotLength rrd rra := rfl
  by_cases hend : 2 ^ 31 * slotLength rrd rra < currentEnd rrd rra - intLimit rrd rra
  · have hdvd : slotLength rrd rra ∣ currentEnd rrd rra - 2 ^ 31 * slotLength rrd rra :=
      (Int.dvd_self_sub_emod).sub (Dvd.intro_left _ rfl)
    exact h.not_far hcur hslot (Int.tmod_eq_zero_of_dvd hdvd).not_gt (by omega) (by omega) (by omega)
  · have hbefore : intLimit rrd rra < -1 := by
      by_contra! hepoch
      exact hend (hfar' hepoch)
    exact h.not_far hcur hslot (not_lt.2 (tmod_nonpos (show intLimit rrd rra + 1 ≤ 0 by omega))) (by omega) (by omega)
      (by omega)

/-- Before the epoch, a second after the end of a row is as old as the row. -/
lemma Converts.epoch : (rra.rowCnt - 1) * slotLength rrd rra < currentEnd rrd rra ∨ slotLength rrd rra ∣ rrd.lastUp := by
  by_contra! hlong
  obtain ⟨hlong, hndvd⟩ := hlong
  have hcnt := h.rowCnt_lt hcur
  have hslot' := h.slot_lt hcur
  have hrest := Int.emod_nonneg (rrd.lastUp : ℤ) hslot.ne'
  have hrest' := Int.emod_lt_of_pos (rrd.lastUp : ℤ) hslot
  have hrest0 : rrd.lastUp % slotLength rrd rra ≠ 0 := fun hzero => hndvd (Int.dvd_of_emod_eq_zero hzero)
  have hp0 : (0 : ℤ) ≤ rrd.lastUp / slotLength rrd rra := Int.ediv_nonneg (Int.natCast_nonneg _) hslot.le
  have hsum := @currentEnd_eq rrd rra
  have hp : (rrd.lastUp : ℤ) / slotLength rrd rra ≤ rra.rowCnt - 1 := by
    rw [hsum, mul_comm] at hlong
    exact le_of_mul_le_mul_right hlong hslot
  -- the row that ends at the epoch
  obtain ⟨row, hrow, hage⟩ := @exists_row rra cur _ hp0 (by omega)
  have hback := @row_of_age rra cur row hrow
  have hend := endTimeForRowInt_rowEndAt hslot hslot' hcnt (h.age_lt hcur hslot) hcur hrow
  rw [hage, rowEndAt, hsum, mul_comm, sub_self] at hend
  obtain ⟨-, -, hpast, heq⟩ := h.age_of_covers' hcur hslot (not_lt.2 (tmod_nonpos (show 1 - slotLength rrd rra ≤ 0 by omega)))
    hrow ⟨0, hend, by omega, by omega⟩
  have hq : (rrd.lastUp - (1 - slotLength rrd rra)) / slotLength rrd rra = rrd.lastUp / slotLength rrd rra + 1 := by
    have hsplit : rrd.lastUp - (1 - slotLength rrd rra) =
        rrd.lastUp % slotLength rrd rra - 1 + slotLength rrd rra * (rrd.lastUp / slotLength rrd rra + 1) := by
      rw [mul_add, mul_one, ← hsum, currentEnd]
      ring
    rw [hsplit, Int.add_mul_ediv_left _ _ hslot.ne', Int.ediv_eq_zero_of_lt (by omega) (by omega), zero_add]
  have hone := @s32_of_lt (rrd.lastUp / slotLength rrd rra + 1) (by omega) (by omega)
  rw [hq, hone] at hpast heq
  rw [s32_of_mem (by omega) (by omega)] at heq
  rw [hage] at hback
  have := rowAge_inj (by omega) hpast hp0 (by omega) (heq.trans hback.symm)
  omega

end Age

end Necessary

/-- For every row and every time the two functions are each other's inverse, and times outside of the ring are told from
those inside, exactly if the `int`s suffice. -/
theorem rowForTimeInt_converts_iff (rrd : MemRrd) (rra : RraDef) (curRow : ℕ) (hcur : curRow < rra.rowCnt)
    (hslot : 0 < rra.pdpCnt * rrd.pdpStep) : Converts rrd rra curRow ↔ IntsSuffice rrd rra := by
  have hpos : 0 < slotLength rrd rra := by
    rw [slotLength]
    exact_mod_cast hslot
  refine ⟨fun h => ⟨h.slot_lt hcur, h.rowCnt_lt hcur, h.age_lt hcur hpos, h.limit_le hcur hpos, h.limit_near hcur hpos,
    h.epoch hcur hpos⟩, fun h => h.converts hpos hcur⟩

/-- What the two functions read of a database. -/
def timesRrd (pdpStep lastUp : ℕ) : MemRrd where
  version := 3
  pdpStep := pdpStep
  lastUp := lastUp
  lastUpUsec := 0
  ds := []
  rra := []
  rrdValue := fun _ => .nan

/-- Three rows of 300 seconds. -/
theorem rowForTimeInt_converts_three : Converts (timesRrd 300 1200) (plainRra .average 3 1 0) 2 := by
  apply (rowForTimeInt_converts_iff (timesRrd 300 1200) (plainRra .average 3 1 0) 2 (by decide) (by decide)).2
  constructor <;> decide +kernel

/-- The oldest one of 25000 days ends in 2091 and has no row; in a ring of ten seconds in 2038 the epoch has one. -/
theorem rowForTimeInt_wraps :
    endTimeForRowInt (timesRrd 86400 1700000000) (plainRra .average 25000 1 0) 0 1 = some 3834973696 ∧
      rowForTimeInt (timesRrd 86400 1700000000) (plainRra .average 25000 1 0) 0 3834973696 = some (-1) ∧
      rowForTimeInt (timesRrd 1 2147483748) (plainRra .average 10 1 0) 0 0 = some 8 ∧
      ¬ Converts (timesRrd 86400 1700000000) (plainRra .average 25000 1 0) 0 := by
  have hend : endTimeForRowInt (timesRrd 86400 1700000000) (plainRra .average 25000 1 0) 0 1 = some 3834973696 := by
    decide +kernel
  have hrow : rowForTimeInt (timesRrd 86400 1700000000) (plainRra .average 25000 1 0) 0 3834973696 = some (-1) := by
    decide +kernel
  refine ⟨hend, hrow, by decide +kernel, fun h => ?_⟩
  obtain ⟨e, he, hback⟩ := h.inverse 1 (by decide)
  obtain rfl : e = 3834973696 := Option.some.inj (he.symm.trans hend)
  exact absurd (hback.symm.trans hrow) (by decide)

end Rrdtool
