import Rrdtool.Lib.Civil
import Rrdtool.Rpn.Calc

/-!
# The offset of the local time

Port of `tzoffset` of `src/rrd_rpncalc.c`, which `LTIME` adds to the time. It takes the difference of the times of day
and finds out from `tm_yday` and `tm_year` whether the local day is the next one or the one before. The day of the year
is compared first, so that the last day of a year comes out after the first day of the next (`tzoffset_eq_iff`).
-/

namespace Rrdtool

open Civil

/-- The fields of `struct tm` that `tzoffset` reads; `year` counts from 1900. -/
structure TzTm where
  sec : ℤ
  min : ℤ
  hour : ℤ
  yday : ℤ
  year : ℤ

/-- `tzoffset`, with what `gmtime_r` and `localtime_r` return. -/
def tzoffset (gmtime localtime : ℤ → TzTm) (now : ℤ) : ℤ :=
  let gm := gmtime now
  let l := localtime now
  let off := (l.sec - gm.sec) + (l.min - gm.min) * 60 + (l.hour - gm.hour) * 3600
  if gm.yday < l.yday ∨ gm.year < l.year then off + 24 * 3600
  else if l.yday < gm.yday ∨ l.year < gm.year then off - 24 * 3600
  else off

/-- The clock that shows the fields. -/
@[grind] def TzTm.clock (t : TzTm) : Clock := ⟨t.year + 1900, t.yday, t.hour, t.min, t.sec⟩

/-- The fields are those of the civil time `seconds` after the beginning of 1970. -/
structure TzTm.Shows (t : TzTm) (seconds : ℤ) : Prop where
  valid : t.clock.Valid
  seconds : t.clock.seconds - firstDay 1970 * 86400 = seconds

instance (t : TzTm) (seconds : ℤ) : Decidable (t.Shows seconds) :=
  decidable_of_iff (t.clock.Valid ∧ t.clock.seconds - firstDay 1970 * 86400 = seconds)
    ⟨fun ⟨h₁, h₂⟩ => ⟨h₁, h₂⟩, fun ⟨h₁, h₂⟩ => ⟨h₁, h₂⟩⟩

/-- The days that `tzoffset` takes the local day to be ahead. -/
@[grind] def daysAhead (gm l : TzTm) : ℤ :=
  if gm.yday < l.yday ∨ gm.year < l.year then 1 else if l.yday < gm.yday ∨ l.year < gm.year then -1 else 0

lemma tzoffset_eq (gmtime localtime : ℤ → TzTm) (now : ℤ) :
    tzoffset gmtime localtime now = (localtime now).clock.time - (gmtime now).clock.time +
      daysAhead (gmtime now) (localtime now) * 86400 := by
  unfold tzoffset daysAhead Clock.time TzTm.clock
  dsimp only
  split
  · ring
  · split
    · ring
    · ring

/-- The days are counted right unless the local year is behind. -/
lemma daysAhead_eq_iff {gm l : TzTm} (hgm : gm.clock.Valid) (hl : l.clock.Valid)
    (near : |l.clock.seconds - gm.clock.seconds| < 86400) :
    daysAhead gm l = l.clock.day - gm.clock.day ↔ gm.year ≤ l.year := by
  unfold daysAhead
  obtain same | ahead | behind := day_cases hgm hl near
  · obtain ⟨hyear, hyday⟩ := year_of_day_eq hgm hl same
    simp only [TzTm.clock] at hyear hyday
    rw [if_neg (by omega), if_neg (by omega), same]
    omega
  · obtain ⟨hyear, hyday⟩ | ⟨hyear, hyday, -⟩ := year_of_day_succ hgm hl ahead
    all_goals
      simp only [TzTm.clock] at hyear hyday
      rw [if_pos (by omega), ahead]
      omega
  · obtain ⟨hyear, hyday⟩ | ⟨hyear, hyday, hlast⟩ := year_of_day_succ hl hgm behind
    · simp only [TzTm.clock] at hyear hyday
      rw [if_neg (by omega), if_pos (by omega), behind]
      omega
    · -- the last day of the year has the greater number
      simp only [TzTm.clock] at hyear hyday hlast
      rw [if_pos (by omega), behind]
      omega

/-- The offset is right exactly if the days are counted right. -/
lemma tzoffset_eq_iff_days {gmtime localtime : ℤ → TzTm} {now offset : ℤ} (hgm : (gmtime now).Shows now)
    (hl : (localtime now).Shows (now + offset)) : tzoffset gmtime localtime now = offset ↔
      daysAhead (gmtime now) (localtime now) = (localtime now).clock.day - (gmtime now).clock.day := by
  have h₁ := hgm.seconds
  have h₂ := hl.seconds
  rw [tzoffset_eq]
  unfold Clock.seconds at h₁ h₂
  omega

lemma near_of_shows {gm l : TzTm} {now offset : ℤ} (hgm : gm.Shows now) (hl : l.Shows (now + offset))
    (near : |offset| < 24 * 3600) : |l.clock.seconds - gm.clock.seconds| < 86400 := by
  have h₁ := hgm.seconds
  have h₂ := hl.seconds
  rw [show l.clock.seconds - gm.clock.seconds = offset by omega]
  exact near

/-- The offset is right exactly if the local year is not behind the one of UTC. -/
theorem tzoffset_eq_iff (gmtime localtime : ℤ → TzTm) (now offset : ℤ) (hgm : (gmtime now).Shows now)
    (hl : (localtime now).Shows (now + offset)) (near : |offset| < 24 * 3600) :
    tzoffset gmtime localtime now = offset ↔ (gmtime now).year ≤ (localtime now).year := by
  rw [tzoffset_eq_iff_days hgm hl]
  exact daysAhead_eq_iff hgm.valid hl.valid (near_of_shows hgm hl near)

/-- Half past midnight of the first of March 2024, two hours to the west. -/
theorem tzoffset_eq_iff_march :
    tzoffset (fun _ => ⟨0, 30, 0, 60, 124⟩) (fun _ => ⟨0, 30, 22, 59, 124⟩) 1709253000 = -7200 ↔ (124 : ℤ) ≤ 124 :=
  tzoffset_eq_iff (fun _ => ⟨0, 30, 0, 60, 124⟩) (fun _ => ⟨0, 30, 22, 59, 124⟩) 1709253000 (-7200)
    (by decide +kernel) (by decide +kernel) (by decide)

/-- Half past midnight of the first of January 2024, where it is still the last of December: the local time comes out
two days late. -/
theorem tzoffset_new_year :
    ∃ gmtime localtime : ℤ → TzTm, ∃ now offset : ℤ, (gmtime now).Shows now ∧ (localtime now).Shows (now + offset) ∧
      |offset| < 24 * 3600 ∧ offset = -3600 ∧ tzoffset gmtime localtime now = -3600 + 2 * 24 * 3600 :=
  ⟨fun _ => ⟨0, 30, 0, 0, 124⟩, fun _ => ⟨0, 30, 23, 364, 123⟩, 1704069000, -3600, by decide +kernel, by decide +kernel,
    by decide, rfl, rfl⟩

/-- What `LTIME` pushes. -/
lemma calcOp_ltime {m : Machine} {call : Call} {nodes : List CalcNode} {rpi : ℕ} {n : CalcNode} {st : CalcState}
    {gmtime localtime : ℤ → TzTm} {offset : ℤ} (hop : n.op = .ltime) (hm : m.tzoffset = tzoffset gmtime localtime)
    (hgm : (gmtime call.dataIdx).Shows call.dataIdx) (hl : (localtime call.dataIdx).Shows (call.dataIdx + offset))
    (near : |offset| < 24 * 3600) (hyear : (gmtime call.dataIdx).year ≤ (localtime call.dataIdx).year) :
    calcOp m call nodes rpi n st = push st (.fin (call.dataIdx + offset : ℤ)) := by
  have hdays := (daysAhead_eq_iff hgm.valid hl.valid (near_of_shows hgm hl near)).2 hyear
  have hoffset := (tzoffset_eq_iff_days hgm hl).2 hdays
  simp only [calcOp, hop, hm, hoffset]
  push_cast
  rw [add_comm]

end Rrdtool
