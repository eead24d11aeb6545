import Rrdtool.Graph.DataProc

/-!
# The value axis

The end of `data_proc` (`src/rrd_graph.c`): the limits of the user are combined with the range of the data, and two
repairs have to leave a lower limit below the upper one. `dataProc_axis_iff` says for which settings they do.
-/

namespace Rrdtool

open Checked

/-! ### The range of the data -/

section Range

variable {S : Set ℚ} {minval maxval : RrdValue} {logarithmic : Bool}

/-- All of the numbers are positive, and there is one. -/
def AllPositive (S : Set ℚ) : Prop := S.Nonempty ∧ ∀ x ∈ S, 0 < x

/-- All of the numbers are negative, and there is one. -/
def AllNegative (S : Set ℚ) : Prop := S.Nonempty ∧ ∀ x ∈ S, x < 0

lemma least_pos_iff {x : ℚ} (h : IsLeast S x) : 0 < x ↔ AllPositive S :=
  ⟨fun hx => ⟨⟨x, h.1⟩, fun _ hy => hx.trans_le (h.2 hy)⟩, fun hall => hall.2 x h.1⟩

lemma greatest_neg_iff {x : ℚ} (h : IsGreatest S x) : x < 0 ↔ AllNegative S :=
  ⟨fun hx => ⟨⟨x, h.1⟩, fun _ hy => (h.2 hy).trans_lt hx⟩, fun hall => hall.2 x h.1⟩

/-- On a logarithmic axis the range of the data is positive, also when there is nothing to show. -/
lemma dataRange_logarithmic (hmin : Least (drawable true S) minval) (hmax : Greatest S maxval) :
    ∃ a b, dataRange true minval maxval = (.fin a, .fin b) ∧ 0 < a ∧ a ≤ b := by
  have hdummy : (0 : RrdValue) < .fin (51 / 10) := (ExtNum.fin_lt_fin 0 _).2 (by norm_num)
  have hzero : ¬ (0 : RrdValue) < 0 := ExtNum.lt_irrefl' 0
  have hten : (.fin (51 / 10) / .fin (10 * 10 ^ 8) : RrdValue) = .fin (51 / 10 / (10 * 10 ^ 8)) :=
    ExtNum.fin_div_fin (by norm_num)
  by_cases hnone : minval.isnan ∨ maxval.isnan ∨ ¬ 0 < maxval
  · refine ⟨51 / 10 / (10 * 10 ^ 8), 51 / 10, ?_, by norm_num, by norm_num⟩
    simp only [dataRange, if_true, if_pos hnone, if_pos hzero, hten]
  · obtain ⟨hminval, hmaxval, hpos⟩ : ¬ minval.isnan ∧ ¬ maxval.isnan ∧ 0 < maxval := by
      simpa only [not_or, not_not] using hnone
    obtain ⟨-, rfl⟩ | ⟨a, rfl, ha⟩ := hmin
    · exact absurd rfl hminval
    · obtain ⟨-, rfl⟩ | ⟨b, rfl, hb⟩ := hmax
      · exact absurd rfl hmaxval
      · have hapos : 0 < a := ha.1.2 rfl
        refine ⟨a, b, ?_, hapos, hb.2 ha.1.1⟩
        have hlow : ¬ ¬ (0 : RrdValue) < .fin a := not_not.2 ((ExtNum.fin_lt_fin 0 a).2 hapos)
        simp only [dataRange, if_true, if_neg hnone, if_neg hlow]

/-- The range of the data and its signs. -/
lemma dataRange_spec (hmin : Least (drawable logarithmic S) minval) (hmax : Greatest S maxval) :
    ∃ a b, dataRange logarithmic minval maxval = (.fin a, .fin b) ∧ a ≤ b ∧ (logarithmic = true → 0 < a) ∧
      (0 < a ↔ logarithmic = true ∨ AllPositive S) ∧ (b < 0 ↔ logarithmic = false ∧ AllNegative S) := by
  cases logarithmic with
  | true =>
    obtain ⟨a, b, hrange, hpos, hle⟩ := dataRange_logarithmic hmin hmax
    exact ⟨a, b, hrange, hle, fun _ => hpos, iff_of_true hpos (.inl rfl),
      iff_of_false (not_lt.2 (hpos.le.trans hle)) fun h => Bool.noConfusion h.1⟩
  | false =>
    rw [placed_linear] at hmin
    obtain ⟨hempty, hrange⟩ | ⟨a, b, hrange, ha, hb⟩ := dataRange_linear hmin hmax
    · subst hempty
      refine ⟨0, 1, hrange, zero_le_one, fun h => Bool.noConfusion h, iff_of_false (lt_irrefl 0) ?_,
        iff_of_false (by norm_num) fun h => Set.not_nonempty_empty h.2.1⟩
      rintro (h | h)
      · cases h
      · exact Set.not_nonempty_empty h.1
    · refine ⟨a, b, hrange, ha.2 hb.1, fun h => Bool.noConfusion h, (least_pos_iff ha).trans ?_,
        (greatest_neg_iff hb).trans ?_⟩
      · exact (or_iff_right Bool.false_ne_true).symm
      · exact (and_iff_right rfl).symm

end Range

/-! ### The limits -/

section Limits

variable {im : ImageDesc} {a b : ℚ}

/-- The lower limit in use is positive: the given one, or else that of the data. -/
def LowerPositive (im : ImageDesc) (dataPositive : Prop) : Prop :=
  0 < im.minval ∨ (im.minval = .nan ∨ im.allowShrink = true) ∧ dataPositive

/-- The upper limit in use is negative: the given one, or else that of the data. -/
def UpperNegative (im : ImageDesc) (dataNegative : Prop) : Prop :=
  im.maxval < 0 ∨ (im.maxval = .nan ∨ im.allowShrink = true) ∧ dataNegative

/-- What the data ask for as lower limit; a logarithmic axis gets some room. -/
lemma lowerData (im : ImageDesc) (hlog : im.logarithmic = true → 0 < a) :
    ∃ d, (if im.logarithmic then .fin a / .fin 2 else .fin a : RrdValue) = .fin d ∧ d ≤ a ∧ (0 < d ↔ 0 < a) := by
  by_cases h : im.logarithmic = true
  · have hpos := hlog h
    refine ⟨a / 2, ?_, by linarith, iff_of_true (by linarith) hpos⟩
    rw [if_pos h, ExtNum.fin_div_fin two_ne_zero]
  · exact ⟨a, if_neg h, le_rfl, Iff.rfl⟩

lemma upperData (im : ImageDesc) (hlog : im.logarithmic = true → 0 < b) :
    ∃ d, (if im.logarithmic then .fin b * .fin 2 else .fin b : RrdValue) = .fin d ∧ b ≤ d ∧ (d < 0 ↔ b < 0) := by
  by_cases h : im.logarithmic = true
  · have hpos := hlog h
    exact ⟨b * 2, if_pos h, by linarith, iff_of_false (by linarith) (by linarith)⟩
  · exact ⟨b, if_neg h, le_rfl, Iff.rfl⟩

lemma lowerLimit_spec (hlog : im.logarithmic = true → 0 < a) (hinf : im.minval.isinf = false) :
    ∃ l, lowerLimit im (.fin a) = .fin l ∧ (im.rigid = false → l ≤ a) ∧
      (im.rigid = true → (0 < l ↔ LowerPositive im (0 < a))) := by
  obtain ⟨d, hd, hle, hpos⟩ := lowerData im hlog
  simp only [lowerLimit, hd, LowerPositive]
  cases hgiven : im.minval with
  | pinf => rw [hgiven] at hinf; cases hinf
  | ninf => rw [hgiven] at hinf; cases hinf
  | nan => exact ⟨d, by simp, fun _ => hle, fun _ => hpos.trans (by simp)⟩
  | fin given =>
    have hzero : (0 : RrdValue) < .fin given ↔ 0 < given := ExtNum.fin_lt_fin 0 given
    cases hrigid : im.rigid with
    | true =>
      by_cases hshrink : im.allowShrink = true ∧ given < a
      · refine ⟨d, by simp [hshrink], fun h => Bool.noConfusion h, fun _ => hpos.trans ⟨fun h => .inr ⟨.inr hshrink.1, h⟩, ?_⟩⟩
        rintro (h | ⟨-, h⟩)
        · exact (hzero.1 h).trans hshrink.2
        · exact h
      · refine ⟨given, by simp [hshrink], fun h => Bool.noConfusion h, fun _ => ⟨fun h => .inl (hzero.2 h), ?_⟩⟩
        rintro (h | ⟨h | hallow, h⟩)
        · exact hzero.1 h
        · cases h
        · exact h.trans_le (not_lt.1 fun hlt => hshrink ⟨hallow, hlt⟩)
    | false =>
      by_cases hlt : a < given
      · exact ⟨d, by simp [hlt], fun _ => hle, fun h => Bool.noConfusion h⟩
      · exact ⟨given, by simp [hlt], fun _ => not_lt.1 hlt, fun h => Bool.noConfusion h⟩

lemma upperLimit_spec (hlog : im.logarithmic = true → 0 < b) (hinf : im.maxval.isinf = false) :
    ∃ u, upperLimit im (.fin b) = .fin u ∧ (im.rigid = false → b ≤ u) ∧
      (im.rigid = true → (u < 0 ↔ UpperNegative im (b < 0))) := by
  obtain ⟨d, hd, hle, hneg⟩ := upperData im hlog
  simp only [upperLimit, hd, UpperNegative]
  cases hgiven : im.maxval with
  | pinf => rw [hgiven] at hinf; cases hinf
  | ninf => rw [hgiven] at hinf; cases hinf
  | nan => exact ⟨d, by simp, fun _ => hle, fun _ => hneg.trans (by simp)⟩
  | fin given =>
    have hzero : (.fin given : RrdValue) < 0 ↔ given < 0 := ExtNum.fin_lt_fin given 0
    cases hrigid : im.rigid with
    | true =>
      by_cases hshrink : im.allowShrink = true ∧ b < given
      · refine ⟨d, by simp [hshrink], fun h => Bool.noConfusion h, fun _ => hneg.trans ⟨fun h => .inr ⟨.inr hshrink.1, h⟩, ?_⟩⟩
        rintro (h | ⟨-, h⟩)
        · exact hshrink.2.trans (hzero.1 h)
        · exact h
      · refine ⟨given, by simp [hshrink], fun h => Bool.noConfusion h, fun _ => ⟨fun h => .inl (hzero.2 h), ?_⟩⟩
        rintro (h | ⟨h | hallow, h⟩)
        · exact hzero.1 h
        · cases h
        · exact (not_lt.1 fun hlt => hshrink ⟨hallow, hlt⟩).trans_lt h
    | false =>
      by_cases hlt : given < b
      · exact ⟨d, by simp [hlt], fun _ => hle, fun h => Bool.noConfusion h⟩
      · exact ⟨given, by simp [hlt], fun _ => not_lt.1 hlt, fun h => Bool.noConfusion h⟩

/-- The repairs fail exactly for a lower limit above 0 and an upper limit below. -/
lemma repair_iff (l u : ℚ) : separate (.fin l) (.fin u) < spread (separate (.fin l) (.fin u)) (.fin u) ↔ ¬ (0 < l ∧ u < 0) := by
  have hzero : ∀ x : ℚ, (0 : RrdValue) < .fin x ↔ 0 < x := ExtNum.fin_lt_fin 0
  -- Limits that are apart stay where they are.
  have hapart : ∀ x : ℚ, x ≠ u → spread (.fin x) (.fin u) = .fin u := fun x hx =>
    if_neg fun heq => hx (ExtNum.fin.inj heq)
  have hequal : (.fin u : RrdValue) < spread (.fin u) (.fin u) := by
    obtain hneg | rfl | hpos := lt_trichotomy u 0
    · have hmoved : ¬ (.fin (u * (99 / 100)) : RrdValue) = 0 := fun h => by linarith [ExtNum.fin.inj h]
      simp only [spread, if_true, if_neg ((hzero u).not.2 hneg.not_gt), ExtNum.fin_mul_fin, if_neg hmoved]
      exact (ExtNum.fin_lt_fin _ _).2 (by linarith)
    · have hstill : (.fin (0 * (99 / 100)) : RrdValue) = 0 := congrArg ExtNum.fin (zero_mul _)
      simp only [spread, if_true, if_neg ((hzero 0).not.2 (lt_irrefl 0)), ExtNum.fin_mul_fin, if_pos hstill]
      exact (ExtNum.fin_lt_fin _ _).2 one_pos
    · have hmoved : ¬ (.fin (u * (101 / 100)) : RrdValue) = 0 := fun h => by linarith [ExtNum.fin.inj h]
      simp only [spread, if_true, if_pos ((hzero u).2 hpos), ExtNum.fin_mul_fin, if_neg hmoved]
      exact (ExtNum.fin_lt_fin _ _).2 (by linarith)
  obtain hlt | rfl | hgt := lt_trichotomy l u
  · rw [separate, if_neg ((ExtNum.fin_lt_fin u l).not.2 hlt.not_gt), hapart l hlt.ne, ExtNum.fin_lt_fin]
    exact iff_of_true hlt fun h => by linarith [h.1, h.2]
  · rw [separate, if_neg (ExtNum.lt_irrefl' _)]
    exact iff_of_true hequal fun h => by linarith [h.1, h.2]
  · rw [separate, if_pos ((ExtNum.fin_lt_fin u l).2 hgt)]
    by_cases hl : 0 < l
    · rw [if_pos ((hzero l).2 hl), ExtNum.fin_mul_fin]
      obtain hneg | rfl | hpos := lt_trichotomy u 0
      · rw [hapart _ (by linarith), ExtNum.fin_lt_fin]
        exact iff_of_false (by linarith) (not_not.2 ⟨hl, hneg⟩)
      · rw [mul_zero]
        exact iff_of_true hequal fun h => lt_irrefl 0 h.2
      · rw [hapart _ (by linarith), ExtNum.fin_lt_fin]
        exact iff_of_true (by linarith) fun h => by linarith [h.2]
    · have hneg : u < 0 := hgt.trans_le (not_lt.1 hl)
      rw [if_neg ((hzero l).not.2 hl), ExtNum.fin_mul_fin, hapart _ (by linarith), ExtNum.fin_lt_fin]
      exact iff_of_true (by linarith) fun h => hl h.1

end Limits

/-! ### The axis -/

lemma dataProc_result {im : ImageDesc} {r : ProcResult} (h : dataProc im = .ok r) :
    ∃ st upper, procPixels im = .ok st ∧ upper = upperLimit im (dataRange im.logarithmic st.minval st.maxval).2 ∧
      r.minval = separate (lowerLimit im (dataRange im.logarithmic st.minval st.maxval).1) upper ∧
      r.maxval = spread r.minval upper := by
  obtain ⟨st, hst, hr⟩ := bind_eq_ok h
  obtain rfl := Except.ok.inj hr
  exact ⟨st, _, hst, rfl, rfl, rfl⟩

/-- The axis is not empty and not upside down unless it is rigid, its lower limit is positive and its upper limit is
negative. A limit that is not given, or may shrink, is positive or negative if all numbers that are shown are; the
lower limit of a logarithmic axis is positive always. -/
theorem dataProc_axis_iff (im : ImageDesc) (r : ProcResult) (hminval : im.minval.isinf = false)
    (hmaxval : im.maxval.isinf = false) (h : dataProc im = .ok r) :
    r.minval < r.maxval ↔ ¬ (im.rigid = true ∧ LowerPositive im (im.logarithmic = true ∨ AllPositive (shown im)) ∧
      UpperNegative im (im.logarithmic = false ∧ AllNegative (shown im))) := by
  obtain ⟨st, upper, hst, rfl, hlower, hupper⟩ := dataProc_result h
  obtain ⟨st', hst', hmin, hmax, -⟩ := procPixels_spec (allHaveValues_of_ok hst)
  obtain rfl := Except.ok.inj (hst.symm.trans hst')
  obtain ⟨a, b, hrange, hab, hlog, hpos, hneg⟩ := dataRange_spec hmin hmax
  obtain ⟨l, hl, hfree, hrigid⟩ := lowerLimit_spec hlog hminval
  obtain ⟨u, hu, hfree', hrigid'⟩ := @upperLimit_spec im b (fun hl => (hlog hl).trans_le hab) hmaxval
  rw [hupper, hlower, hrange, hl, hu, repair_iff, ← hpos, ← hneg]
  refine not_congr ⟨?_, ?_⟩
  · rintro ⟨hl0, hu0⟩
    have hr : im.rigid = true := by
      by_contra hnot
      have hnot' := Bool.eq_false_iff.2 hnot
      linarith [hfree hnot', hfree' hnot']
    exact ⟨hr, (hrigid hr).1 hl0, (hrigid' hr).1 hu0⟩
  · rintro ⟨hr, hl0, hu0⟩
    exact ⟨(hrigid hr).2 hl0, (hrigid' hr).2 hu0⟩

/-- A rigid axis from 5 on, for a line at -2. -/
def rigidAbove : ImageDesc where
  start := 1700000000
  endTime := 1700086400
  xsize := 1
  gdes := [.paint ⟨.line, false, false, .fin (-2), -1⟩]
  logarithmic := false
  rigid := true
  allowShrink := false
  minval := .fin 5
  maxval := .nan
  start_nonneg := day_nonneg
  start_le := day_le
  xsize_pos := by decide
  resolved := by
    rintro p (_ | ⟨_, ⟨⟩⟩)
    exact .inl ⟨rfl, by decide⟩
  no_stack := by
    rintro (_ | ⟨_, ⟨⟩⟩)

/-- The lower limit ends up at -1.98, above the upper limit -2. -/
theorem rigidAbove_axis :
    ∃ r, dataProc rigidAbove = .ok r ∧ r.minval = .fin (-198 / 100) ∧ r.maxval = .fin (-2) ∧ ¬ r.minval < r.maxval :=
  ⟨_, rfl, by decide +kernel, by decide +kernel, by decide +kernel⟩

/-- The same axis is right when it is not rigid. -/
theorem dataProc_axis_free : ∃ r, dataProc { rigidAbove with rigid := false } = .ok r ∧ r.minval < r.maxval :=
  ⟨_, rfl, (dataProc_axis_iff { rigidAbove with rigid := false } _ rfl rfl rfl).2 fun hbad => Bool.noConfusion hbad.1⟩

end Rrdtool
