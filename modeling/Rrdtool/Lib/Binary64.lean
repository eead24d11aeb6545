import Rrdtool.Lib.ExtNum

/-!
# Doubles by their bits

The number that the 64 bits of a double stand for, read without rounding: one bit for the sign, 11 for the exponent and
52 for the fraction. An exponent field of zero marks the subnormal numbers, the largest one the infinities and NaN.
-/

namespace Binary64

@[grind] def negative (b : ℕ) : Bool := b / 2 ^ 63 % 2 = 1

@[grind] def exponent (b : ℕ) : ℕ := b / 2 ^ 52 % 2 ^ 11

@[grind] def fraction (b : ℕ) : ℕ := b % 2 ^ 52

/-- The distance of a finite double from zero. -/
@[grind] def magnitude (b : ℕ) : ℚ :=
  if exponent b = 0 then fraction b / 2 ^ 1074 else (2 ^ 52 + fraction b) * 2 ^ exponent b / 2 ^ 1075

/-- The number that the bits `b` stand for. -/
@[grind] def value (b : ℕ) : ExtNum ℚ :=
  if exponent b = 2 ^ 11 - 1 then
    if fraction b ≠ 0 then .nan else if negative b then .ninf else .pinf
  else .fin (if negative b then -magnitude b else magnitude b)

/-- The bits of `1.0`. -/
@[grind] def one : ℕ := 0x3ff0000000000000

lemma value_zero : value 0 = .fin 0 := by
  simp [value, magnitude, exponent, fraction, negative]

/-- Below `2 ^ 52` the bits are a subnormal number. -/
lemma value_of_lt {b : ℕ} (hb : b < 2 ^ 52) : value b = .fin (b / 2 ^ 1074) := by
  have hexp : exponent b = 0 := by rw [exponent, Nat.div_eq_of_lt hb, Nat.zero_mod]
  have hneg : negative b = false := by
    rw [negative, Nat.div_eq_of_lt (hb.trans (by norm_num))]
    rfl
  rw [value, hexp, if_neg (by norm_num), hneg, if_neg Bool.false_ne_true, magnitude, if_pos hexp, fraction,
    Nat.mod_eq_of_lt hb]

/-- Such a number is less than 1. -/
lemma not_lt_value_of_lt {b : ℕ} (hb : b < 2 ^ 52) {q : ℚ} (hq : 1 ≤ q) : ¬(.fin q : ExtNum ℚ) < value b := by
  rw [value_of_lt hb, ExtNum.fin_lt_fin, not_lt]
  refine le_trans ?_ hq
  rw [div_le_one (by positivity)]
  have hpow : (2 : ℚ) ^ 52 ≤ 2 ^ 1074 := pow_le_pow_right₀ (by norm_num) (by norm_num)
  exact le_trans (by exact_mod_cast hb.le) hpow

lemma value_one : value one = .fin 1 := by
  have hexp : exponent one = 1023 := by decide
  have hfrac : fraction one = 0 := by decide
  have hneg : negative one = false := by decide
  have hpow : (2 : ℚ) ^ 52 * 2 ^ 1023 / 2 ^ 1075 = 1 := by
    rw [← pow_add, div_self (by positivity)]
  have hmag : magnitude one = 1 := by
    rw [magnitude, hexp, hfrac, if_neg (by decide), Nat.cast_zero, add_zero, hpow]
  rw [value, hexp, hneg, hmag, if_neg (by decide)]
  rfl

end Binary64
