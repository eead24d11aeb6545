import Mathlib.Tactic

/-!
# Civil time

The Gregorian calendar with its days numbered, and the time that a clock shows on a day. Two clocks that are less than
a day apart show the same day or neighbouring ones, and on neighbouring days they show the same year except at its turn
(`day_cases`). A month is found from its days and the days from it (`monthOf_eq`), which makes the conversion of seconds
to broken-down time and the one back inverses (`timegm_gmtime`).
-/

namespace Civil

/-- The leap years. -/
@[grind] def isLeap (year : ℤ) : Prop := (4 ∣ year ∧ ¬ 100 ∣ year) ∨ 400 ∣ year

instance (year : ℤ) : Decidable (isLeap year) := inferInstanceAs (Decidable (_ ∨ _))

@[grind] def daysInYear (year : ℤ) : ℤ := if isLeap year then 366 else 365

/-- The number of the first day of a year; day 0 is the first one of the year 1. -/
@[grind] def firstDay (year : ℤ) : ℤ := 365 * (year - 1) + (year - 1) / 4 - (year - 1) / 100 + (year - 1) / 400

/-- What a clock shows; `yday` counts from 0. -/
structure Clock where
  year : ℤ
  yday : ℤ
  hour : ℤ
  min : ℤ
  sec : ℤ
deriving DecidableEq

structure Clock.Valid (c : Clock) : Prop where
  yday : 0 ≤ c.yday ∧ c.yday < daysInYear c.year
  hour : 0 ≤ c.hour ∧ c.hour < 24
  min : 0 ≤ c.min ∧ c.min < 60
  sec : 0 ≤ c.sec ∧ c.sec < 60

instance (c : Clock) : Decidable c.Valid :=
  decidable_of_iff ((0 ≤ c.yday ∧ c.yday < daysInYear c.year) ∧ (0 ≤ c.hour ∧ c.hour < 24) ∧ (0 ≤ c.min ∧ c.min < 60) ∧
      (0 ≤ c.sec ∧ c.sec < 60))
    ⟨fun ⟨h₁, h₂, h₃, h₄⟩ => ⟨h₁, h₂, h₃, h₄⟩, fun ⟨h₁, h₂, h₃, h₄⟩ => ⟨h₁, h₂, h₃, h₄⟩⟩

/-- The number of the day. -/
@[grind] def Clock.day (c : Clock) : ℤ := firstDay c.year + c.yday

/-- The seconds since midnight. -/
@[grind] def Clock.time (c : Clock) : ℤ := c.hour * 3600 + c.min * 60 + c.sec

/-- The seconds since the beginning of day 0. -/
@[grind] def Clock.seconds (c : Clock) : ℤ := c.day * 86400 + c.time

lemma daysInYear_cases (year : ℤ) : daysInYear year = 365 ∨ daysInYear year = 366 := by
  unfold daysInYear
  split
  · exact .inr rfl
  · exact .inl rfl

lemma firstDay_succ (year : ℤ) : firstDay (year + 1) = firstDay year + daysInYear year := by
  unfold firstDay daysInYear
  split
  · rename_i leap
    unfold isLeap at leap
    omega
  · rename_i plain
    unfold isLeap at plain
    omega

lemma firstDay_add_le {year : ℤ} (n : ℕ) : firstDay year + 365 * n ≤ firstDay (year + n) := by
  induction n with
  | zero => simp
  | succ n ih =>
    have hnext := firstDay_succ (year + n)
    obtain h | h := daysInYear_cases (year + n)
    all_goals
      push_cast
      rw [← add_assoc]
      omega

lemma firstDay_mono {year year' : ℤ} (h : year ≤ year') : firstDay year ≤ firstDay year' := by
  obtain ⟨n, rfl⟩ := Int.le.dest h
  have := @firstDay_add_le year n
  omega

section Valid

variable {c c' : Clock}

lemma Clock.Valid.time (h : c.Valid) : 0 ≤ c.time ∧ c.time < 86400 := by
  obtain ⟨-, hhour, hmin, hsec⟩ := h
  unfold Clock.time
  omega

/-- A day of a later year is later. -/
lemma day_lt_of_year_lt (h : c.Valid) (h' : c'.Valid) (hy : c.year < c'.year) : c.day < c'.day := by
  have hmono := firstDay_mono (Int.add_one_le_of_lt hy)
  have hnext := firstDay_succ c.year
  obtain ⟨-, hlt⟩ := h.yday
  obtain ⟨hnn, -⟩ := h'.yday
  unfold Clock.day
  omega

/-- Neighbouring days: in one year, or at its turn. -/
lemma year_of_day_succ (h : c.Valid) (h' : c'.Valid) (hday : c'.day = c.day + 1) :
    (c'.year = c.year ∧ c'.yday = c.yday + 1) ∨ (c'.year = c.year + 1 ∧ c'.yday = 0 ∧ 364 ≤ c.yday) := by
  obtain ⟨hnn, hlt⟩ := h.yday
  obtain ⟨hnn', hlt'⟩ := h'.yday
  have hnext := firstDay_succ c.year
  have hlen := daysInYear_cases c.year
  obtain hy | hy | hy := lt_trichotomy c'.year c.year
  · have := day_lt_of_year_lt h' h hy
    omega
  · unfold Clock.day at hday
    rw [hy] at hday
    exact .inl ⟨hy, by omega⟩
  · have hmono := firstDay_mono (Int.add_one_le_of_lt hy)
    unfold Clock.day at hday
    obtain heq | hlater := (Int.add_one_le_of_lt hy).eq_or_lt
    · rw [← heq] at hday
      exact .inr ⟨heq.symm, by omega, by omega⟩
    · have hmono' := firstDay_mono (Int.add_one_le_of_lt hlater)
      have hnext' := firstDay_succ (c.year + 1)
      have hlen' := daysInYear_cases (c.year + 1)
      omega

lemma year_of_day_eq (h : c.Valid) (h' : c'.Valid) (hday : c'.day = c.day) : c'.year = c.year ∧ c'.yday = c.yday := by
  have hy : c'.year = c.year := by
    obtain hy | hy | hy := lt_trichotomy c'.year c.year
    · exact absurd hday (day_lt_of_year_lt h' h hy).ne
    · exact hy
    · exact absurd hday (day_lt_of_year_lt h h' hy).ne'
  refine ⟨hy, ?_⟩
  unfold Clock.day at hday
  rw [hy] at hday
  omega

/-- Clocks that are less than a day apart show the same day or neighbouring ones. -/
lemma day_cases (h : c.Valid) (h' : c'.Valid) (near : |c'.seconds - c.seconds| < 86400) :
    c'.day = c.day ∨ c'.day = c.day + 1 ∨ c.day = c'.day + 1 := by
  obtain ⟨hlo, hhi⟩ := abs_lt.1 near
  have htime := h.time
  have htime' := h'.time
  unfold Clock.seconds at hlo hhi
  omega

end Valid

/-- The days of a year before a month; January is month 0. -/
@[grind] def daysBeforeMonth (year mon : ℤ) : ℤ :=
  ([0, 31, 59, 90, 120, 151, 181, 212, 243, 273, 304, 334] : List ℤ).getD mon.toNat 0 +
    if isLeap year ∧ 2 ≤ mon then 1 else 0

/-- The number of the first day of a month, the months counted through from January of the year 0. -/
def firstOfMonth (month : ℤ) : ℤ := firstDay (month / 12) + daysBeforeMonth (month / 12) (month % 12)

/-- The year of a day: 146097 days are 400 years, and what this leaves out is less than a year. -/
@[grind] def yearOf (day : ℤ) : ℤ :=
  let year := day * 400 / 146097 + 1
  if firstDay (year + 1) ≤ day then year + 1 else if firstDay year ≤ day then year else year - 1

/-- The month of a day: no month is longer than 31 days, and a year is less than a month shorter than twelve of these. -/
def monthOf (day : ℤ) : ℤ :=
  let month := 12 * yearOf day + (day - firstDay (yearOf day)) / 31
  if firstOfMonth (month + 1) ≤ day then month + 1 else month

/-- Broken-down time; the fields are counted as the C library counts them. -/
structure StructTm where
  sec : ℤ
  min : ℤ
  hour : ℤ
  mday : ℤ
  mon : ℤ
  year : ℤ
  wday : ℤ
deriving DecidableEq

/-- The number of the day on which the seconds are counted from 0. -/
def epoch : ℤ := firstDay 1970

/-- The day on which a second lies. -/
@[grind] def dayOf (t : ℤ) : ℤ := t / 86400 + epoch

@[grind] def gmtime (t : ℤ) : StructTm where
  sec := t % 60
  min := t / 60 % 60
  hour := t / 3600 % 24
  mday := dayOf t - firstOfMonth (monthOf (dayOf t)) + 1
  mon := monthOf (dayOf t) % 12
  year := monthOf (dayOf t) / 12 - 1900
  wday := (dayOf t + 1) % 7

/-- The month in which a broken-down time lies when its fields up to the day are in range. -/
@[grind] def StructTm.month (tm : StructTm) : ℤ := 12 * (tm.year + 1900) + tm.mon

@[grind] def timegm (tm : StructTm) : ℤ :=
  (firstOfMonth tm.month + tm.mday - 1 - epoch) * 86400 + tm.hour * 3600 + tm.min * 60 + tm.sec

section Months

variable {year day month month' t : ℤ}

lemma yearOf_spec (day : ℤ) : firstDay (yearOf day) ≤ day ∧ day < firstDay (yearOf day + 1) := by
  unfold yearOf
  dsimp only
  split
  · rename_i h
    refine ⟨h, ?_⟩
    unfold firstDay
    omega
  · split
    · constructor
      · assumption
      · omega
    · rename_i h
      rw [sub_add_cancel]
      refine ⟨?_, by omega⟩
      unfold firstDay
      omega

/-- The first day of a month of a given year. -/
lemma firstOfMonth_eq (year : ℤ) {mon : ℤ} (h0 : 0 ≤ mon) (h : mon < 12) :
    firstOfMonth (12 * year + mon) = firstDay year + daysBeforeMonth year mon := by
  have hdiv : (12 * year + mon) / 12 = year := by omega
  have hmod : (12 * year + mon) % 12 = mon := by omega
  rw [firstOfMonth, hdiv, hmod]

lemma firstOfMonth_year (year : ℤ) : firstOfMonth (12 * year) = firstDay year := by
  have h := firstOfMonth_eq year (le_refl 0) (by norm_num)
  rw [add_zero] at h
  simpa [daysBeforeMonth] using h

lemma daysBeforeMonth_le (year : ℤ) {mon : ℤ} (h0 : 0 ≤ mon) (h : mon < 12) :
    31 * mon - 7 ≤ daysBeforeMonth year mon ∧ daysBeforeMonth year mon ≤ 31 * mon := by
  interval_cases mon
  all_goals
    by_cases leap : isLeap year
    all_goals simp [daysBeforeMonth, leap]

/-- A month has 28 to 31 days. -/
lemma firstOfMonth_succ (month : ℤ) :
    firstOfMonth month + 28 ≤ firstOfMonth (month + 1) ∧ firstOfMonth (month + 1) ≤ firstOfMonth month + 31 := by
  obtain ⟨year, mon, rfl, h0, h⟩ : ∃ year mon : ℤ, month = 12 * year + mon ∧ 0 ≤ mon ∧ mon < 12 :=
    ⟨month / 12, month % 12, by omega, by omega, by omega⟩
  rw [firstOfMonth_eq year h0 h]
  obtain hlast | hmon : mon = 11 ∨ mon < 11 := by omega
  · have hyear : 12 * year + mon + 1 = 12 * (year + 1) := by omega
    rw [hyear, firstOfMonth_year, firstDay_succ, hlast]
    by_cases leap : isLeap year
    all_goals
      simp only [daysBeforeMonth, daysInYear, leap, reduceIte]
      simp
      omega
  · rw [add_assoc (12 * year) mon 1, firstOfMonth_eq year (by omega) (by omega)]
    interval_cases mon
    all_goals
      by_cases leap : isLeap year
      all_goals simp [daysBeforeMonth, leap, add_assoc]

lemma firstOfMonth_lt (h : month < month') : firstOfMonth month < firstOfMonth month' := by
  obtain ⟨n, rfl⟩ := Int.lt.dest h
  induction n with
  | zero =>
    have := firstOfMonth_succ month
    push_cast at *
    omega
  | succ n ih =>
    have hlast := ih (by omega)
    have := firstOfMonth_succ (month + (n + 1 : ℕ))
    push_cast at *
    rw [← add_assoc month (n + 1 : ℤ) 1] at *
    omega

lemma monthOf_spec (day : ℤ) : firstOfMonth (monthOf day) ≤ day ∧ day < firstOfMonth (monthOf day + 1) := by
  obtain ⟨hlo, hhi⟩ := yearOf_spec day
  have hnext := firstDay_succ (yearOf day)
  have hlen := daysInYear_cases (yearOf day)
  obtain ⟨mon, hmon⟩ : ∃ mon, (day - firstDay (yearOf day)) / 31 = mon := ⟨_, rfl⟩
  have hle := @daysBeforeMonth_le (yearOf day) mon (by omega) (by omega)
  have heq := @firstOfMonth_eq (yearOf day) mon (by omega) (by omega)
  unfold monthOf
  rw [hmon]
  dsimp only
  split
  · rename_i h
    refine ⟨h, ?_⟩
    obtain hlast | hbefore | hother : mon = 11 ∨ mon = 10 ∨ mon < 10 := by omega
    · rw [hlast, show 12 * yearOf day + 11 + 1 = 12 * (yearOf day + 1) by omega, firstOfMonth_year] at h
      omega
    · rw [hbefore, show 12 * yearOf day + 10 + 1 + 1 = 12 * (yearOf day + 1) by omega, firstOfMonth_year]
      exact hhi
    · rw [add_assoc, add_assoc, firstOfMonth_eq (yearOf day) (by omega) (by omega)]
      have := @daysBeforeMonth_le (yearOf day) (mon + (1 + 1)) (by omega) (by omega)
      omega
  · rename_i h
    refine ⟨?_, not_le.1 h⟩
    rw [heq]
    omega

lemma monthOf_eq (hlo : firstOfMonth month ≤ day) (hhi : day < firstOfMonth (month + 1)) : monthOf day = month := by
  obtain ⟨hlo', hhi'⟩ := monthOf_spec day
  obtain h | h | h := lt_trichotomy (monthOf day) month
  · obtain heq | hlt := (Int.add_one_le_of_lt h).eq_or_lt
    · rw [heq] at hhi'
      omega
    · have := firstOfMonth_lt hlt
      omega
  · exact h
  · obtain heq | hlt := (Int.add_one_le_of_lt h).eq_or_lt
    · rw [heq] at hhi
      omega
    · have := firstOfMonth_lt hlt
      omega

@[simp] lemma gmtime_month (t : ℤ) : (gmtime t).month = monthOf (dayOf t) := by
  unfold StructTm.month gmtime
  dsimp only
  omega

/-- The two conversions are inverses. -/
@[simp] lemma timegm_gmtime (t : ℤ) : timegm (gmtime t) = t := by
  rw [timegm, gmtime_month]
  unfold gmtime dayOf
  dsimp only
  omega

lemma gmtime_sec (t : ℤ) : (gmtime t).sec = t % 60 := rfl

lemma gmtime_min (t : ℤ) : (gmtime t).min = t / 60 % 60 := rfl

lemma gmtime_hour (t : ℤ) : (gmtime t).hour = t / 3600 % 24 := rfl

lemma gmtime_mon (t : ℤ) : 0 ≤ (gmtime t).mon ∧ (gmtime t).mon < 12 := by
  unfold gmtime
  dsimp only
  omega

lemma gmtime_wday (t : ℤ) : (gmtime t).wday = (dayOf t + 1) % 7 := rfl

/-- The first day of the month in which a time lies. -/
lemma firstOfMonth_gmtime (t : ℤ) : firstOfMonth (gmtime t).month = dayOf t - (gmtime t).mday + 1 := by
  rw [gmtime_month]
  unfold gmtime
  dsimp only
  omega

lemma gmtime_mday (t : ℤ) : 1 ≤ (gmtime t).mday ∧ (gmtime t).mday ≤ 31 := by
  obtain ⟨hlo, hhi⟩ := monthOf_spec (dayOf t)
  have hlen := firstOfMonth_succ (monthOf (dayOf t))
  unfold gmtime
  dsimp only
  omega

/-- The first second of the day on which a time lies, moved by some days. -/
lemma timegm_midnight (t mday : ℤ) :
    timegm { gmtime t with sec := 0, min := 0, hour := 0, mday := mday } =
      t - t % 86400 + 86400 * (mday - (gmtime t).mday) := by
  have h := timegm_gmtime t
  have hsec := gmtime_sec t
  have hmin := gmtime_min t
  have hhour := gmtime_hour t
  unfold timegm StructTm.month
  unfold timegm StructTm.month at h
  dsimp only
  omega

/-- A day is added at midnight. -/
lemma timegm_mday (t mday : ℤ) :
    timegm { gmtime t with mday := mday } = t + 86400 * (mday - (gmtime t).mday) := by
  have h := timegm_gmtime t
  unfold timegm StructTm.month
  unfold timegm StructTm.month at h
  dsimp only
  omega

lemma gmtime_mday_midnight (t : ℤ) : (gmtime (t - t % 86400)).mday = (gmtime t).mday := by
  have hday : dayOf (t - t % 86400) = dayOf t := by
    unfold dayOf
    omega
  unfold gmtime
  rw [hday]

/-- The first second of a month. -/
lemma timegm_firstOfMonth (t mon year : ℤ) :
    timegm { gmtime t with sec := 0, min := 0, hour := 0, mday := 1, mon := mon, year := year } =
      86400 * (firstOfMonth (12 * (year + 1900) + mon) - epoch) := by
  unfold timegm StructTm.month
  dsimp only
  omega

/-- What the clock shows at the first second of a month. -/
lemma gmtime_firstOfMonth (month : ℤ) :
    gmtime (86400 * (firstOfMonth month - epoch)) =
      { sec := 0, min := 0, hour := 0, mday := 1, mon := month % 12, year := month / 12 - 1900,
        wday := (firstOfMonth month + 1) % 7 } := by
  have hday : dayOf (86400 * (firstOfMonth month - epoch)) = firstOfMonth month := by
    unfold dayOf
    omega
  have hmonth : monthOf (firstOfMonth month) = month := by
    apply monthOf_eq
    · exact le_refl _
    · have := firstOfMonth_succ month
      omega
  unfold gmtime
  rw [hday, hmonth]
  congr 1
  all_goals omega

/-- A time is in or after a month that begins before it. -/
lemma firstOfMonth_le_iff (t month : ℤ) :
    86400 * (firstOfMonth month - epoch) ≤ t ↔ month ≤ (gmtime t).month := by
  obtain ⟨hlo, hhi⟩ := monthOf_spec (dayOf t)
  rw [gmtime_month]
  have hday : 86400 * (firstOfMonth month - epoch) ≤ t ↔ firstOfMonth month ≤ dayOf t := by
    unfold dayOf
    omega
  rw [hday]
  constructor
  · intro h
    by_contra hlt
    obtain heq | hlater := (Int.add_one_le_of_lt (not_le.1 hlt)).eq_or_lt
    · rw [heq] at hhi
      omega
    · have := firstOfMonth_lt hlater
      omega
  · intro h
    obtain heq | hbefore := h.eq_or_lt
    · rwa [heq]
    · have := firstOfMonth_lt hbefore
      omega

end Months

end Civil
