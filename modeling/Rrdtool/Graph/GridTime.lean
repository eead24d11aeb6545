import Rrdtool.Lib.CInt
import Rrdtool.Lib.Civil

/-!
# The grid search

`find_first_time` and `find_next_time` (`src/rrd_graph.c`) in the UTC mode. The grid is drawn from the first of these
times to the end of the graph, so that the start has to lie between it and the next one.
-/

namespace Rrdtool

open Civil

inductive TmtEn where
  | second | minute | hour | day | week | month | year
deriving DecidableEq

/-- The fields that `find_first_time` leaves of the start. -/
@[grind] def firstTm (firstWeekday : ℤ) (tm : StructTm) (baseint : TmtEn) (basestep : ℤ) : StructTm :=
  match baseint with
  | .second => { tm with sec := tm.sec - tm.sec.tmod basestep }
  | .minute => { tm with sec := 0, min := tm.min - tm.min.tmod basestep }
  | .hour => { tm with sec := 0, min := 0, hour := tm.hour - tm.hour.tmod basestep }
  | .day => { tm with sec := 0, min := 0, hour := 0 }
  | .week =>
    let tm := { tm with sec := 0, min := 0, hour := 0, mday := tm.mday - (tm.wday - firstWeekday) }
    if tm.wday = 0 ∧ 0 < firstWeekday then { tm with mday := tm.mday - 7 } else tm
  | .month => { tm with sec := 0, min := 0, hour := 0, mday := 1, mon := tm.mon - tm.mon.tmod basestep }
  | .year =>
    { tm with
      sec := 0, min := 0, hour := 0, mday := 1, mon := 0, year := tm.year - (s32 (tm.year + 1900)).tmod basestep }

@[grind] def findFirstTime (firstWeekday start : ℤ) (baseint : TmtEn) (basestep : ℤ) : ℤ :=
  timegm (firstTm firstWeekday (gmtime start) baseint basestep)

/-- One round of the loop of `find_next_time`; the fields are of type `int`. -/
@[grind] def nextTm (tm : StructTm) (baseint : TmtEn) (basestep : ℤ) : StructTm :=
  match baseint with
  | .second => { tm with sec := s32 (tm.sec + basestep) }
  | .minute => { tm with min := s32 (tm.min + basestep) }
  | .hour => { tm with hour := s32 (tm.hour + basestep) }
  | .day => { tm with mday := s32 (tm.mday + basestep) }
  | .week => { tm with mday := s32 (tm.mday + 7 * basestep) }
  | .month => { tm with mon := s32 (tm.mon + basestep) }
  | .year => { tm with year := s32 (tm.year + basestep) }

/-- The loop of `find_next_time`, which goes on for `retries` more rounds while the conversion seems to have failed; the
conversion has normalised the fields by then. -/
@[grind] def nextTime (baseint : TmtEn) (basestep : ℤ) : ℕ → StructTm → ℤ
  | 0, tm => timegm (nextTm tm baseint basestep)
  | retries + 1, tm =>
    let madetime := timegm (nextTm tm baseint basestep)
    if madetime = -1 then nextTime baseint basestep retries (gmtime madetime) else madetime

def nextTimeLimit : TmtEn → ℕ
  | .second => 7200
  | .minute => 120
  | _ => 2

def findNextTime (current : ℤ) (baseint : TmtEn) (basestep : ℤ) : ℤ :=
  nextTime baseint basestep (nextTimeLimit baseint + 1) (gmtime current)

/-- What the fields of the start and the step have to satisfy. The step is added to a field of type `int`, which has to end
beyond the field of the start; a second before 1970 that the step leads to is taken for a failure, and the search goes on
from there. A week is found only when the start is a Sunday or not before the first day of the week, a year before the
year 0 only when it is on the grid. -/
@[grind] def GridFits (firstWeekday start : ℤ) (baseint : TmtEn) (basestep : ℤ) : Prop :=
  let tm := gmtime start
  match baseint with
  | .second =>
    let sec := s32 (tm.sec - tm.sec % basestep + basestep)
    if start - tm.sec + sec = -1 then start < s32 (59 + basestep) - 60 else tm.sec < sec
  | .minute => tm.min < s32 (tm.min - tm.min % basestep + basestep)
  | .hour => tm.hour < s32 (tm.hour - tm.hour % basestep + basestep)
  | .day => tm.mday < s32 (tm.mday + basestep)
  | .week =>
    let days := (tm.wday - firstWeekday) % 7
    let mday := (gmtime (start - 86400 * days)).mday
    (tm.wday = 0 ∨ firstWeekday ≤ tm.wday) ∧ mday + days < s32 (mday + 7 * basestep)
  | .month => tm.mon < s32 (tm.mon - tm.mon % basestep + basestep)
  | .year =>
    let year := s32 (tm.year + 1900)
    (0 ≤ year ∨ basestep ∣ year) ∧ tm.year < s32 (tm.year - year % basestep + basestep)

instance (firstWeekday start : ℤ) (baseint : TmtEn) (basestep : ℤ) :
    Decidable (GridFits firstWeekday start baseint basestep) := by
  unfold GridFits
  cases baseint <;> dsimp only <;> infer_instance

section Search

variable {firstWeekday start basestep t : ℤ} {baseint : TmtEn} {tm : StructTm}

lemma nextTime_of_ne (retries : ℕ) (h : timegm (nextTm tm baseint basestep) ≠ -1) :
    nextTime baseint basestep retries tm = timegm (nextTm tm baseint basestep) := by
  cases retries with
  | zero => rfl
  | succ retries =>
    unfold nextTime
    exact if_neg h

lemma timegm_nextTm_second (t : ℤ) :
    timegm (nextTm (gmtime t) .second basestep) = t - t % 60 + s32 (t % 60 + basestep) := by
  have h := timegm_gmtime t
  unfold timegm at h
  rw [gmtime_sec] at h
  unfold nextTm timegm StructTm.month
  unfold StructTm.month at h
  rw [gmtime_sec]
  dsimp only
  omega

/-- From the second before 1970 the search comes back to it only by a step of length 0. -/
lemma nextTime_second (retries : ℕ) :
    nextTime .second basestep retries (gmtime (-1)) = s32 (59 + basestep) - 60 := by
  have hstep := @timegm_nextTm_second basestep (-1)
  norm_num at hstep
  induction retries with
  | zero =>
    unfold nextTime
    omega
  | succ retries ih =>
    unfold nextTime
    dsimp only
    split
    · rename_i h
      rw [h]
      exact ih
    · omega

lemma findNextTime_second (t : ℤ) :
    findNextTime t .second basestep =
      if t - (gmtime t).sec + s32 ((gmtime t).sec + basestep) = -1 then s32 (59 + basestep) - 60
      else t - (gmtime t).sec + s32 ((gmtime t).sec + basestep) := by
  have hstep := @timegm_nextTm_second basestep t
  unfold findNextTime
  split
  · rename_i h
    rw [gmtime_sec, ← hstep] at h
    unfold nextTime
    dsimp only
    rw [if_pos h, h]
    exact nextTime_second _
  · rename_i h
    rw [gmtime_sec, ← hstep] at h
    rw [nextTime_of_ne _ h, hstep, gmtime_sec]

/-- What is left of a field that is not negative. -/
lemma rounded_field {field : ℤ} (h : 0 ≤ field) (hstep : 1 ≤ basestep) :
    field.tmod basestep = field % basestep ∧ 0 ≤ field % basestep ∧ field % basestep ≤ field := by
  refine ⟨Int.tmod_eq_emod_of_nonneg h, Int.emod_nonneg _ (by omega), ?_⟩
  have hdiv := Int.emod_add_mul_ediv field basestep
  have hnn := mul_nonneg (by omega : 0 ≤ basestep) (Int.ediv_nonneg h (by omega : 0 ≤ basestep))
  omega

/-- On a full minute the first round of the search is the last one. -/
lemma findNextTime_of_ne_second (hbase : baseint ≠ .second) (ht : t % 60 = 0) :
    findNextTime t baseint basestep = timegm (nextTm (gmtime t) baseint basestep) := by
  apply nextTime_of_ne
  unfold timegm
  have hsec : (nextTm (gmtime t) baseint basestep).sec = 0 := by
    cases baseint
    all_goals first
      | exact absurd rfl hbase
      | exact ht
  rw [hsec]
  omega

lemma brackets_second (hstep : 1 ≤ basestep) :
    (findFirstTime firstWeekday start .second basestep ≤ start ∧
      start < findNextTime (findFirstTime firstWeekday start .second basestep) .second basestep) ↔
    GridFits firstWeekday start .second basestep := by
  obtain ⟨htmod, hnn, hle⟩ := rounded_field (show 0 ≤ (gmtime start).sec by rw [gmtime_sec]; omega) hstep
  have hfirst : findFirstTime firstWeekday start .second basestep = start - (gmtime start).sec % basestep := by
    have h := timegm_gmtime start
    unfold findFirstTime firstTm timegm StructTm.month
    unfold timegm StructTm.month at h
    dsimp only
    rw [htmod]
    omega
  have hsec : (gmtime (start - (gmtime start).sec % basestep)).sec = (gmtime start).sec - (gmtime start).sec % basestep := by
    rw [gmtime_sec] at hnn hle ⊢
    rw [gmtime_sec]
    omega
  rw [hfirst, findNextTime_second, hsec]
  unfold GridFits
  dsimp only
  generalize (gmtime start).sec % basestep = r at hnn hle hsec
  rw [show start - r - ((gmtime start).sec - r) = start - (gmtime start).sec by omega]
  split
  all_goals omega

lemma brackets_minute (hstep : 1 ≤ basestep) :
    (findFirstTime firstWeekday start .minute basestep ≤ start ∧
      start < findNextTime (findFirstTime firstWeekday start .minute basestep) .minute basestep) ↔
    GridFits firstWeekday start .minute basestep := by
  obtain ⟨htmod, hnn, hle⟩ := rounded_field (show 0 ≤ (gmtime start).min by rw [gmtime_min]; omega) hstep
  have hfirst : findFirstTime firstWeekday start .minute basestep =
      start - start % 60 - 60 * ((gmtime start).min % basestep) := by
    have h := timegm_gmtime start
    have hsec := gmtime_sec start
    unfold findFirstTime firstTm timegm StructTm.month
    unfold timegm StructTm.month at h
    dsimp only
    rw [htmod]
    omega
  rw [gmtime_min] at hnn hle hfirst
  rw [hfirst]
  generalize hr : start / 60 % 60 % basestep = r at hnn hle
  have hnext : findNextTime (start - start % 60 - 60 * r) .minute basestep =
      start - start % 60 + 60 * (s32 (start / 60 % 60 - r + basestep) - start / 60 % 60) := by
    have h := timegm_gmtime (start - start % 60 - 60 * r)
    have hmin : (gmtime (start - start % 60 - 60 * r)).min = start / 60 % 60 - r := by
      rw [gmtime_min]
      omega
    rw [findNextTime_of_ne_second (by decide) (by omega)]
    unfold nextTm timegm StructTm.month
    unfold timegm StructTm.month at h
    rw [hmin]
    dsimp only
    omega
  rw [hnext]
  unfold GridFits
  simp only [gmtime_min, hr]
  omega

lemma brackets_hour (hstep : 1 ≤ basestep) :
    (findFirstTime firstWeekday start .hour basestep ≤ start ∧
      start < findNextTime (findFirstTime firstWeekday start .hour basestep) .hour basestep) ↔
    GridFits firstWeekday start .hour basestep := by
  obtain ⟨htmod, hnn, hle⟩ := rounded_field (show 0 ≤ (gmtime start).hour by rw [gmtime_hour]; omega) hstep
  have hfirst : findFirstTime firstWeekday start .hour basestep =
      start - start % 3600 - 3600 * ((gmtime start).hour % basestep) := by
    have h := timegm_gmtime start
    have hsec := gmtime_sec start
    have hmin := gmtime_min start
    unfold findFirstTime firstTm timegm StructTm.month
    unfold timegm StructTm.month at h
    dsimp only
    rw [htmod]
    omega
  rw [gmtime_hour] at hnn hle hfirst
  rw [hfirst]
  generalize hr : start / 3600 % 24 % basestep = r at hnn hle
  have hnext : findNextTime (start - start % 3600 - 3600 * r) .hour basestep =
      start - start % 3600 + 3600 * (s32 (start / 3600 % 24 - r + basestep) - start / 3600 % 24) := by
    have h := timegm_gmtime (start - start % 3600 - 3600 * r)
    have hhour : (gmtime (start - start % 3600 - 3600 * r)).hour = start / 3600 % 24 - r := by
      rw [gmtime_hour]
      omega
    rw [findNextTime_of_ne_second (by decide) (by omega)]
    unfold nextTm timegm StructTm.month
    unfold timegm StructTm.month at h
    rw [hhour]
    dsimp only
    omega
  rw [hnext]
  unfold GridFits
  simp only [gmtime_hour, hr]
  omega

lemma brackets_day :
    (findFirstTime firstWeekday start .day basestep ≤ start ∧
      start < findNextTime (findFirstTime firstWeekday start .day basestep) .day basestep) ↔
    GridFits firstWeekday start .day basestep := by
  have hfirst : findFirstTime firstWeekday start .day basestep = start - start % 86400 := by
    have h := timegm_midnight start (gmtime start).mday
    rw [sub_self, mul_zero, add_zero] at h
    exact h
  have hnext : findNextTime (start - start % 86400) .day basestep =
      start - start % 86400 + 86400 * (s32 ((gmtime start).mday + basestep) - (gmtime start).mday) := by
    rw [findNextTime_of_ne_second (by decide) (by omega)]
    unfold nextTm
    dsimp only
    rw [timegm_mday, gmtime_mday_midnight]
  rw [hfirst, hnext]
  unfold GridFits
  omega

lemma brackets_week (hlo : 0 ≤ firstWeekday) (hhi : firstWeekday ≤ 6) :
    (findFirstTime firstWeekday start .week basestep ≤ start ∧
      start < findNextTime (findFirstTime firstWeekday start .week basestep) .week basestep) ↔
    GridFits firstWeekday start .week basestep := by
  have hwday := gmtime_wday start
  obtain ⟨days, hdays⟩ : ∃ days, days = if (gmtime start).wday = 0 ∧ 0 < firstWeekday
      then (gmtime start).wday - firstWeekday + 7 else (gmtime start).wday - firstWeekday := ⟨_, rfl⟩
  have hfirst : findFirstTime firstWeekday start .week basestep = start - 86400 * days - (start - 86400 * days) % 86400 := by
    unfold findFirstTime firstTm
    dsimp only
    split
    · rename_i h
      rw [if_pos h] at hdays
      rw [timegm_midnight]
      omega
    · rename_i h
      rw [if_neg h] at hdays
      rw [timegm_midnight]
      omega
  have hnext : findNextTime (start - 86400 * days - (start - 86400 * days) % 86400) .week basestep =
      start - 86400 * days - (start - 86400 * days) % 86400 +
        86400 * (s32 ((gmtime (start - 86400 * days)).mday + 7 * basestep) - (gmtime (start - 86400 * days)).mday) := by
    rw [findNextTime_of_ne_second (by decide) (by omega)]
    unfold nextTm
    dsimp only
    rw [timegm_mday, gmtime_mday_midnight]
  rw [hfirst, hnext]
  unfold GridFits
  dsimp only
  by_cases h : (gmtime start).wday = 0 ∨ firstWeekday ≤ (gmtime start).wday
  · have hmod : ((gmtime start).wday - firstWeekday) % 7 = days := by
      split at hdays
      all_goals omega
    rw [hmod]
    have hdnn : 0 ≤ days := by omega
    constructor
    · rintro ⟨-, hlt⟩
      exact ⟨h, by omega⟩
    · rintro ⟨-, hlt⟩
      exact ⟨by omega, by omega⟩
  · rw [if_neg (by omega)] at hdays
    constructor
    · rintro ⟨hle, -⟩
      omega
    · rintro ⟨hday, -⟩
      exact absurd hday h

lemma brackets_month (hstep : 1 ≤ basestep) :
    (findFirstTime firstWeekday start .month basestep ≤ start ∧
      start < findNextTime (findFirstTime firstWeekday start .month basestep) .month basestep) ↔
    GridFits firstWeekday start .month basestep := by
  have hmon := gmtime_mon start
  obtain ⟨htmod, hnn, hle⟩ := rounded_field hmon.1 hstep
  obtain ⟨month, hmonth⟩ :
      ∃ month, 12 * ((gmtime start).year + 1900) + ((gmtime start).mon - (gmtime start).mon % basestep) = month := ⟨_, rfl⟩
  have hfirst : findFirstTime firstWeekday start .month basestep = 86400 * (firstOfMonth month - epoch) := by
    unfold findFirstTime firstTm
    dsimp only
    rw [htmod, timegm_firstOfMonth, hmonth]
  have hnext : findNextTime (86400 * (firstOfMonth month - epoch)) .month basestep =
      86400 * (firstOfMonth (month - month % 12 + s32 (month % 12 + basestep)) - epoch) := by
    rw [findNextTime_of_ne_second (by decide) (by omega)]
    unfold nextTm
    dsimp only
    rw [gmtime_firstOfMonth]
    unfold timegm StructTm.month
    dsimp only
    have hsplit : 12 * (month / 12 - 1900 + 1900) + s32 (month % 12 + basestep) =
        month - month % 12 + s32 (month % 12 + basestep) := by omega
    rw [hsplit]
    omega
  have hmod : month % 12 = (gmtime start).mon - (gmtime start).mon % basestep := by omega
  rw [hfirst, hnext, firstOfMonth_le_iff, ← not_le, firstOfMonth_le_iff, hmod]
  unfold GridFits StructTm.month
  dsimp only
  omega

lemma tmod_nonneg_iff {year : ℤ} : 0 ≤ year.tmod basestep ↔ 0 ≤ year ∨ basestep ∣ year := by
  constructor
  · intro h
    by_contra hneg
    push Not at hneg
    obtain ⟨hyear, hdvd⟩ := hneg
    have hneg := Int.tmod_nonneg basestep (by omega : 0 ≤ -year)
    rw [Int.neg_tmod] at hneg
    exact hdvd (Int.dvd_of_tmod_eq_zero (by omega))
  · rintro (h | h)
    · exact Int.tmod_nonneg _ h
    · rw [Int.tmod_eq_zero_of_dvd h]

lemma tmod_eq_emod {year : ℤ} (h : 0 ≤ year.tmod basestep) :
    year.tmod basestep = year % basestep := by
  obtain hyear | hdvd := tmod_nonneg_iff.1 h
  · exact Int.tmod_eq_emod_of_nonneg hyear
  · rw [Int.tmod_eq_zero_of_dvd hdvd, Int.emod_eq_zero_of_dvd hdvd]

lemma brackets_year (hstep : 1 ≤ basestep) :
    (findFirstTime firstWeekday start .year basestep ≤ start ∧
      start < findNextTime (findFirstTime firstWeekday start .year basestep) .year basestep) ↔
    GridFits firstWeekday start .year basestep := by
  obtain ⟨year, hyear⟩ : ∃ year, s32 ((gmtime start).year + 1900) = year := ⟨_, rfl⟩
  have hmon := gmtime_mon start
  have hfirst : findFirstTime firstWeekday start .year basestep =
      86400 * (firstOfMonth (12 * ((gmtime start).year - year.tmod basestep + 1900)) - epoch) := by
    unfold findFirstTime firstTm
    dsimp only
    rw [hyear, timegm_firstOfMonth, add_zero]
  have hnext (y : ℤ) : findNextTime (86400 * (firstOfMonth (12 * (y + 1900)) - epoch)) .year basestep =
      86400 * (firstOfMonth (12 * (s32 (y + basestep) + 1900)) - epoch) := by
    rw [findNextTime_of_ne_second (by decide) (by omega)]
    unfold nextTm
    dsimp only
    rw [gmtime_firstOfMonth]
    unfold timegm StructTm.month
    dsimp only
    rw [show 12 * (y + 1900) / 12 - 1900 = y by omega, show 12 * (y + 1900) % 12 = 0 by omega]
    simp only [add_zero]
    omega
  rw [hfirst, hnext, firstOfMonth_le_iff, ← not_le, firstOfMonth_le_iff]
  unfold GridFits StructTm.month
  dsimp only
  rw [hyear, ← tmod_nonneg_iff]
  constructor
  · rintro ⟨hle, hlt⟩
    have hnn : 0 ≤ year.tmod basestep := by omega
    rw [tmod_eq_emod hnn] at hlt
    exact ⟨hnn, by omega⟩
  · rintro ⟨hnn, hlt⟩
    rw [tmod_eq_emod hnn]
    have := Int.emod_nonneg year (by omega : basestep ≠ 0)
    exact ⟨by omega, by omega⟩

/-- A rounded field and a step that fit in an `int` together end beyond the field. -/
lemma lt_s32_rounded {field : ℤ} (h0 : 0 ≤ field) (h : field < 2 ^ 30) (hstep : 1 ≤ basestep) (hlt : basestep < 2 ^ 28) :
    field < s32 (field - field % basestep + basestep) := by
  obtain ⟨-, hnn, hle⟩ := rounded_field h0 hstep
  have hmod := Int.emod_lt_of_pos field (by omega : 0 < basestep)
  rw [s32_of_lt (by omega) (by omega)]
  omega

/-- Steps that stay in an `int` fit, from the first day of the week on and from the year 0 on. -/
lemma gridFits_of_lt (hstep : 1 ≤ basestep) (hlt : basestep < 2 ^ 28)
    (hweek : (gmtime start).wday = 0 ∨ firstWeekday ≤ (gmtime start).wday)
    (hyear : 0 ≤ (gmtime start).year + 1900 ∧ (gmtime start).year + 1900 < 2 ^ 30) :
    GridFits firstWeekday start baseint basestep := by
  unfold GridFits
  cases baseint with
  | second =>
    have hsec := gmtime_sec start
    have h : (gmtime start).sec < s32 ((gmtime start).sec - (gmtime start).sec % basestep + basestep) :=
      lt_s32_rounded (by omega) (by omega) hstep hlt
    dsimp only
    split
    · rw [s32_of_lt (by omega) (by omega)]
      omega
    · exact h
  | minute =>
    have hmin := gmtime_min start
    exact lt_s32_rounded (by omega) (by omega) hstep hlt
  | hour =>
    have hhour := gmtime_hour start
    exact lt_s32_rounded (by omega) (by omega) hstep hlt
  | day =>
    have hmday := gmtime_mday start
    dsimp only
    rw [s32_of_lt (by omega) (by omega)]
    omega
  | week =>
    have hmday := gmtime_mday (start - 86400 * (((gmtime start).wday - firstWeekday) % 7))
    refine ⟨hweek, ?_⟩
    rw [s32_of_lt (by omega) (by omega)]
    omega
  | month =>
    have hmon := gmtime_mon start
    exact lt_s32_rounded (by omega) (by omega) hstep hlt
  | year =>
    obtain ⟨-, hnn, hle⟩ := rounded_field hyear.1 hstep
    have hmod := Int.emod_lt_of_pos ((gmtime start).year + 1900) (by omega : 0 < basestep)
    dsimp only
    rw [s32_of_lt hyear.1 (by omega)]
    refine ⟨.inl hyear.1, ?_⟩
    rw [s32_of_mem (by omega) (by omega)]
    omega

end Search

/-- The first grid time is not after the start and the next one is after it if and only if the step fits. -/
theorem findFirstTime_brackets_iff (start : ℤ) (baseint : TmtEn) {firstWeekday basestep : ℤ} (hlo : 0 ≤ firstWeekday)
    (hhi : firstWeekday ≤ 6) (hstep : 1 ≤ basestep) :
    (findFirstTime firstWeekday start baseint basestep ≤ start ∧
      start < findNextTime (findFirstTime firstWeekday start baseint basestep) baseint basestep) ↔
    GridFits firstWeekday start baseint basestep := by
  cases baseint with
  | second => exact brackets_second hstep
  | minute => exact brackets_minute hstep
  | hour => exact brackets_hour hstep
  | day => exact brackets_day
  | week => exact brackets_week hlo hhi
  | month => exact brackets_month hstep
  | year => exact brackets_year hstep

/-- A Tuesday in the weeks of a locale, by the first day of the week. -/
theorem findFirstTime_brackets_tuesday :
    findFirstTime 1 1700000000 .week 1 ≤ 1700000000 ∧
      1700000000 < findNextTime (findFirstTime 1 1700000000 .week 1) .week 1 :=
  (findFirstTime_brackets_iff 1700000000 .week (by decide) (by decide) (by decide)).2 (by decide)

/-- With a week that begins on Saturday, the search from a Tuesday starts on the Saturday that follows. -/
theorem findFirstTime_saturday :
    ¬ ∀ (start : ℤ) (baseint : TmtEn) (firstWeekday basestep : ℤ), 0 ≤ firstWeekday → firstWeekday ≤ 6 → 1 ≤ basestep →
      findFirstTime firstWeekday start baseint basestep ≤ start ∧
        start < findNextTime (findFirstTime firstWeekday start baseint basestep) baseint basestep := by
  intro h
  have hlate : ¬ findFirstTime 6 1700000000 .week 1 ≤ 1700000000 := by decide
  exact hlate (h 1700000000 .week 6 1 (by decide) (by decide) (by decide)).1

end Rrdtool
