import Mathlib.Tactic

/-!
# C integer conversions

The conversions a C program performs silently on an LP64 machine: into `unsigned long`, by reduction
modulo `2 ^ 64`, and into `int` and `long`, by reduction into the signed range. They are the identity
on the values that fit (`u64_natCast`, `s32_of_lt`, `s64_of_lt`).
-/

/-- Conversion to `unsigned long`. -/
@[grind] def u64 (z : ℤ) : ℕ := (BitVec.ofInt 64 z).toNat

/-- Conversion to `int`. -/
@[grind] def s32 (z : ℤ) : ℤ := (BitVec.ofInt 32 z).toInt

/-- Conversion to `long`. -/
@[grind] def s64 (z : ℤ) : ℤ := (BitVec.ofInt 64 z).toInt

lemma u64_eq_emod (z : ℤ) : u64 z = (z % 2 ^ 64).toNat := by
  rw [u64, BitVec.toNat_ofInt]
  norm_num

lemma u64_of_lt {z : ℤ} (h0 : 0 ≤ z) (h : z < 2 ^ 64) : u64 z = z.toNat := by
  rw [u64_eq_emod, Int.emod_eq_of_lt h0 h]

@[simp] lemma u64_natCast {n : ℕ} (h : n < 2 ^ 64) : u64 n = n := by
  rw [u64_of_lt (Int.natCast_nonneg n) (by exact_mod_cast h), Int.toNat_natCast]

/-- An unsigned difference that does not wrap. -/
lemma u64_sub {a b : ℕ} (hb : b ≤ a) (ha : a < 2 ^ 64) : u64 ((a : ℤ) - b) = a - b := by
  rw [u64_of_lt (by omega) (by omega)]
  omega

lemma s32_of_lt {z : ℤ} (h0 : 0 ≤ z) (h : z < 2 ^ 31) : s32 z = z := by
  rw [s32, BitVec.toInt_ofInt, Int.bmod_def, Int.emod_eq_of_lt h0 (by norm_num; omega),
    if_pos (by norm_num; omega)]

/-- An `int` is not changed by the conversion. -/
lemma s32_of_mem {z : ℤ} (h0 : -2 ^ 31 ≤ z) (h : z < 2 ^ 31) : s32 z = z := by
  rw [s32, BitVec.toInt_ofInt]
  exact Int.bmod_eq_of_le (by norm_num; omega) (by norm_num; omega)

lemma s32_lt (z : ℤ) : s32 z < 2 ^ 31 := by
  have h := @BitVec.toInt_lt 32 (BitVec.ofInt 32 z)
  rw [s32]
  omega

lemma le_s32 (z : ℤ) : -2 ^ 31 ≤ s32 z := by
  have h := @BitVec.le_toInt 32 (BitVec.ofInt 32 z)
  rw [s32]
  omega

lemma s32_emod (z : ℤ) : s32 z % 2 ^ 32 = z % 2 ^ 32 := by
  rw [s32, BitVec.toInt_ofInt]
  exact Int.bmod_emod

/-- An addend may be converted before the sum is. -/
lemma s32_add_left (a b : ℤ) : s32 (s32 a + b) = s32 (a + b) := by
  rw [s32, s32, s32, BitVec.toInt_ofInt, BitVec.toInt_ofInt, BitVec.toInt_ofInt, Int.bmod_add_bmod]

lemma s32_s32 (z : ℤ) : s32 (s32 z) = s32 z := by
  have h := s32_add_left z 0
  rwa [add_zero, add_zero] at h

lemma s32_natCast {n : ℕ} (h : n < 2 ^ 31) : s32 n = n :=
  s32_of_lt (Int.natCast_nonneg n) (by exact_mod_cast h)

lemma s64_of_lt {z : ℤ} (h0 : 0 ≤ z) (h : z < 2 ^ 63) : s64 z = z := by
  rw [s64, BitVec.toInt_ofInt, Int.bmod_def, Int.emod_eq_of_lt h0 (by norm_num; omega),
    if_pos (by norm_num; omega)]

lemma s64_natCast {n : ℕ} (h : n < 2 ^ 63) : s64 n = n :=
  s64_of_lt (Int.natCast_nonneg n) (by exact_mod_cast h)

/-- A `long` that went through `unsigned long`. -/
lemma s64_u64 {z : ℤ} (h0 : -2 ^ 63 ≤ z) (h : z < 2 ^ 63) : s64 (u64 z) = z := by
  rw [s64, u64, BitVec.ofInt_natCast, BitVec.ofNat_toNat, BitVec.setWidth_eq, BitVec.toInt_ofInt]
  exact Int.bmod_eq_of_le (by norm_num; omega) (by norm_num; omega)

/-- Numbers that differ by a multiple of `2 ^ 32` are converted to the same `int`. -/
lemma s32_add_mul (z k : ℤ) : s32 (z + 2 ^ 32 * k) = s32 z := by
  have hzero : BitVec.ofInt 32 (2 ^ 32) = 0#32 := by decide
  rw [s32, s32, BitVec.ofInt_add, BitVec.ofInt_mul, hzero, BitVec.zero_mul, BitVec.add_zero]
