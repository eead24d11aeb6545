import Rrdtool.Update.Pdp
import Rrdtool.Diff

/-!
# Counters that wrap around

The difference of two readings of a `COUNTER` is corrected when it is negative: `update_pdp_prep` adds `2^32 - 1` and,
if that is not enough, `2^64 - 2^32`. For a counter of 32 or 64 bits that has wrapped around the result is one less
than its increment (`counterAmount_exact_iff`).
-/

namespace Rrdtool

/-- A reading of a counter: a digit string for which the buffer of `rrd_diff` has room. -/
structure CounterText (s : Text) (n : ℕ) : Prop where
  nonempty : s ≠ []
  digits : ∀ x ∈ s, x.isDigit
  length : s.length + 2 ≤ lastDsLen
  value : digitsVal s = n

variable {a b : ℕ} {last new : Text}

lemma CounterText.known (h : CounterText last a) : isKnownText last = true := by
  obtain ⟨x, s, rfl⟩ := List.exists_cons_of_ne_nil h.nonempty
  have hx := h.digits x List.mem_cons_self
  rw [isKnownText, List.head?_cons, decide_eq_true_eq]
  rintro heq
  cases heq
  cases hx

/-- The amount that is read from two readings. -/
lemma readingAmount_counter (hlast : CounterText last a) (hnew : CounterText new b) (interval : ℚ) :
    readingAmount .counter last new interval =
      .ok (counterOverflow (.fin ((b : ℚ) - a)), counterOverflow (.fin ((b : ℚ) - a)) / .fin interval) := by
  have hsimple : isSimpleInteger .counter new = true := List.all_eq_true.2 hnew.digits
  have hlen : max new.length last.length ≤ lastDsLen := by
    have := hlast.length
    have := hnew.length
    omega
  have hdiff := rrdDiff_digits hnew.nonempty hlast.nonempty hnew.digits hlast.digits hlen
  rw [hnew.value, hlast.value] at hdiff
  simp only [readingAmount, hsimple, hlast.known, hdiff, Bool.not_true, Bool.false_eq_true, if_false, if_true]

/-- The two corrections together. -/
lemma counterOverflow_nonneg {x : ℚ} (h : 0 ≤ x) : counterOverflow (.fin x) = .fin x := by
  have hno : ¬ (.fin x : RrdValue) < .fin 0 := by simpa using h
  simp only [counterOverflow, hno, if_false]

lemma counterOverflow_once {x : ℚ} (h : x < 0) (h32 : -4294967295 ≤ x) :
    counterOverflow (.fin x) = .fin (x + 4294967295) := by
  have hneg : (.fin x : RrdValue) < .fin 0 := by simpa using h
  have hno : ¬ (.fin (x + 4294967295) : RrdValue) < .fin 0 := by
    simp only [ExtNum.fin_lt_fin, not_lt]
    linarith
  have hadd : (.fin x + .fin 4294967295 : RrdValue) = .fin (x + 4294967295) := rfl
  simp only [counterOverflow, hneg, if_true, hadd, hno, if_false]

lemma counterOverflow_twice {x : ℚ} (h : x < -4294967295) :
    counterOverflow (.fin x) = .fin (x + 4294967295 + 18446744069414584320) := by
  have hneg : (.fin x : RrdValue) < .fin 0 := by
    simp only [ExtNum.fin_lt_fin]
    linarith
  have hneg' : (.fin (x + 4294967295) : RrdValue) < .fin 0 := by
    simp only [ExtNum.fin_lt_fin]
    linarith
  have hadd : (.fin x + .fin 4294967295 : RrdValue) = .fin (x + 4294967295) := rfl
  simp only [counterOverflow, hneg, if_true, hadd, hneg']
  rfl

/-- A counter of `w` bits that has advanced by `d` since it was `a`: the amount is `d` exactly if it has not wrapped
around. -/
theorem counterAmount_exact_iff (w a d : ℕ) (hw : w = 32 ∨ w = 64) (ha : a < 2 ^ w) (hd : d < 2 ^ w)
    (last new : Text) (interval : ℚ) (hlast : CounterText last a) (hnew : CounterText new ((a + d) % 2 ^ w))
    (h64 : w = 64 → (a + d) % 2 ^ w < a → (((a + d) % 2 ^ w : ℕ) : ℤ) - a < -2 ^ 32) :
    ∃ x rate, readingAmount .counter last new interval = .ok (x, rate) ∧
      (x = .fin d ↔ ¬ (a + d) % 2 ^ w < a) := by
  refine ⟨_, _, readingAmount_counter hlast hnew interval, ?_⟩
  by_cases hwrap : (a + d) % 2 ^ w < a
  · have hge : 2 ^ w ≤ a + d := by
      by_contra hlt
      rw [Nat.mod_eq_of_lt (not_le.1 hlt)] at hwrap
      omega
    have hsum : (a + d) % 2 ^ w = a + d - 2 ^ w := by
      rw [Nat.mod_eq_sub_mod hge, Nat.mod_eq_of_lt (by omega)]
    have hcast : (((a + d) % 2 ^ w : ℕ) : ℚ) - a = d - 2 ^ w := by
      rw [hsum, Nat.cast_sub hge]
      push_cast
      ring
    have hdpos : (1 : ℚ) ≤ d := by
      have : 1 ≤ d := by omega
      exact_mod_cast this
    have hless : ∀ {y : ℚ}, y = d - 1 → ((.fin y : RrdValue) = .fin d ↔ ¬ (a + d) % 2 ^ w < a) := by
      intro y hy
      refine iff_of_false (fun h => ?_) (not_not.2 hwrap)
      have := ExtNum.fin.inj h
      linarith
    rw [hcast]
    obtain rfl | rfl := hw
    · have hdlt : (d : ℚ) < 2 ^ 32 := by exact_mod_cast hd
      rw [counterOverflow_once (by linarith) (by linarith)]
      apply hless
      ring
    · have hfar : ((((a + d) % 2 ^ 64 : ℕ) : ℚ) - a) < -2 ^ 32 := by exact_mod_cast h64 rfl hwrap
      rw [hcast] at hfar
      rw [counterOverflow_twice (by linarith)]
      apply hless
      ring
  · have hsum : (a + d) % 2 ^ w = a + d := by
      apply Nat.mod_eq_of_lt
      by_contra hge
      rw [Nat.mod_eq_sub_mod (not_lt.1 hge), Nat.mod_eq_of_lt (by omega)] at hwrap
      omega
    have hcast : ((a + d : ℕ) : ℚ) - a = d := by
      push_cast
      ring
    rw [hsum, hcast, counterOverflow_nonneg (Nat.cast_nonneg d)]
    exact iff_of_true rfl (by omega)

theorem counterAmount_exact_iff_up :
    ∃ x rate, readingAmount .counter "4294967290".toList "4294967295".toList 300 = .ok (x, rate) ∧
      (x = .fin (5 : ℕ) ↔ ¬ (4294967290 + 5) % 2 ^ 32 < 4294967290) :=
  counterAmount_exact_iff 32 4294967290 5 (.inl rfl) (by decide) (by decide) _ _ 300
    ⟨by decide, List.all_eq_true.1 (by decide), by decide, by decide⟩
    ⟨by decide, List.all_eq_true.1 (by decide), by decide, by decide⟩ nofun

/-- A counter of 32 bits goes from `4294967290` to `4` in ten steps, and one of 64 bits from its last value to `4` in
five. -/
theorem counterAmount_misses_one :
    readingAmount .counter "4294967290".toList "4".toList 1 = .ok (.fin 9, .fin 9) ∧ (4294967290 + 10) % 2 ^ 32 = 4 ∧
      readingAmount .counter "18446744073709551615".toList "4".toList 1 = .ok (.fin 4, .fin 4) ∧
      (18446744073709551615 + 5) % 2 ^ 64 = 4 := by
  refine ⟨by decide +kernel, by decide, by decide +kernel, by decide⟩

end Rrdtool
