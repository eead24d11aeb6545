import Mathlib.Algebra.Order.Field.Rat
import Mathlib.Algebra.BigOperators.Group.List.Basic
import Mathlib.Tactic

/-!
# Extended numbers with a not-a-number

The value domain of a program that computes in floating point, read without rounding: the elements
of a linearly ordered field, two infinities and one `nan`. The operations follow IEEE 754 on the
special values (`nan` is absorbing, `∞ - ∞`, `0 * ∞` and `∞ / ∞` are `nan`, every comparison with
`nan` is false); the sign of zero is not kept, so a quotient by zero takes the sign of its
numerator.

Addition is associative and commutative on the whole type (`instAddCommMonoid`), so sums of lists
are Mathlib's `List.sum`; a list with both infinities has no sum (`sum_eq_nan_of_mem`),
`mul_natCast` turns a product by a positive count into a repeated sum, and a quotient by one goes
through a sum (`sum_div_natCast`). `hi` and `lo` are the running maximum and minimum.
-/

/-- A number, an infinity, or not a number. -/
inductive ExtNum (K : Type*) where
  | nan
  | ninf
  | fin (x : K)
  | pinf
deriving DecidableEq

namespace ExtNum

/-- The C predicate `isnan`. -/
@[grind] def isnan {K : Type*} : ExtNum K → Bool
  | .nan => true
  | _ => false

/-- The infinities. -/
@[grind] def isinf {K : Type*} : ExtNum K → Bool
  | .pinf => true
  | .ninf => true
  | _ => false

@[simp] lemma isnan_nan {K : Type*} : (nan : ExtNum K).isnan = true := rfl
@[simp] lemma isnan_ninf {K : Type*} : (ninf : ExtNum K).isnan = false := rfl
@[simp] lemma isnan_fin {K : Type*} (x : K) : (fin x).isnan = false := rfl
@[simp] lemma isnan_pinf {K : Type*} : (pinf : ExtNum K).isnan = false := rfl

@[simp] lemma isnan_eq_true {K : Type*} {a : ExtNum K} : a.isnan = true ↔ a = nan := by
  cases a <;> simp [isnan]

@[simp] lemma isnan_eq_false {K : Type*} {a : ExtNum K} : a.isnan = false ↔ a ≠ nan := by
  cases a <;> simp [isnan]

variable {K : Type*}

section Additive

variable [Field K]

/-- Sum of two extended numbers. -/
@[grind] def add : ExtNum K → ExtNum K → ExtNum K
  | .nan, _ => .nan
  | _, .nan => .nan
  | .fin x, .fin y => .fin (x + y)
  | .fin _, b => b
  | a, .fin _ => a
  | .pinf, .pinf => .pinf
  | .ninf, .ninf => .ninf
  | _, _ => .nan

/-- Change of sign. -/
def neg : ExtNum K → ExtNum K
  | .nan => .nan
  | .ninf => .pinf
  | .fin x => .fin (-x)
  | .pinf => .ninf

instance : Add (ExtNum K) := ⟨add⟩
instance : Zero (ExtNum K) := ⟨.fin 0⟩
instance : Neg (ExtNum K) := ⟨neg⟩
instance : Sub (ExtNum K) := ⟨fun a b => add a (neg b)⟩

lemma zero_def : (0 : ExtNum K) = fin 0 := rfl

@[simp] lemma nan_add (a : ExtNum K) : nan + a = nan := rfl
@[simp] lemma add_nan (a : ExtNum K) : a + nan = nan := by cases a <;> rfl
@[simp] lemma fin_add_fin (x y : K) : fin x + fin y = fin (x + y) := rfl
@[simp] lemma fin_add_pinf (x : K) : fin x + pinf = pinf := rfl
@[simp] lemma fin_add_ninf (x : K) : fin x + ninf = ninf := rfl
@[simp] lemma pinf_add_fin (x : K) : pinf + fin x = pinf := rfl
@[simp] lemma ninf_add_fin (x : K) : ninf + fin x = ninf := rfl
@[simp] lemma pinf_add_pinf : (pinf + pinf : ExtNum K) = pinf := rfl
@[simp] lemma ninf_add_ninf : (ninf + ninf : ExtNum K) = ninf := rfl
@[simp] lemma pinf_add_ninf : (pinf + ninf : ExtNum K) = nan := rfl
@[simp] lemma ninf_add_pinf : (ninf + pinf : ExtNum K) = nan := rfl

@[simp] lemma fin_sub_fin (x y : K) : fin x - fin y = fin (x - y) :=
  congrArg fin (sub_eq_add_neg x y).symm

/-- A number that has been added can be taken away again. -/
lemma add_sub_cancel_fin (a : ExtNum K) (x : K) : a + fin x - fin x = a := by
  show add (add a (fin x)) (fin (-x)) = a
  cases a <;> simp [add]

/-- An infinity that is taken out of a sum it belongs to leaves nothing. -/
lemma add_sub_self_of_isinf (a : ExtNum K) {b : ExtNum K} (hb : b.isinf = true) : a + b - b = nan := by
  cases b with
  | nan => cases hb
  | fin x => cases hb
  | pinf => cases a <;> rfl
  | ninf => cases a <;> rfl

lemma nan_sub (a : ExtNum K) : nan - a = nan := rfl

lemma add_comm' (a b : ExtNum K) : a + b = b + a := by
  cases a <;> cases b <;> simp [add_comm]

lemma add_assoc' (a b c : ExtNum K) : a + b + c = a + (b + c) := by
  cases a <;> cases b <;> cases c <;> simp [add_assoc]

lemma zero_add' (a : ExtNum K) : 0 + a = a := by
  cases a <;> simp [zero_def]

instance instAddCommMonoid : AddCommMonoid (ExtNum K) where
  add_assoc := add_assoc'
  zero_add := zero_add'
  add_zero a := by rw [add_comm', zero_add']
  add_comm := add_comm'
  nsmul := nsmulRec

/-- A list with both infinities has no sum. -/
lemma sum_eq_nan_of_mem [DecidableEq K] {l : List (ExtNum K)} (hp : pinf ∈ l) (hn : ninf ∈ l) :
    l.sum = nan := by
  have hn' : ninf ∈ l.erase pinf := (List.mem_erase_of_ne (by simp)).2 hn
  rw [← List.sum_erase hp, ← List.sum_erase hn', ← add_assoc, pinf_add_ninf, nan_add]

lemma fin_sum {ι : Type*} (s : Finset ι) (f : ι → K) : ∑ i ∈ s, (fin (f i) : ExtNum K) = fin (∑ i ∈ s, f i) := by
  classical
  induction s using Finset.induction_on with
  | empty => rfl
  | insert i s hi ih => rw [Finset.sum_insert hi, Finset.sum_insert hi, ih, fin_add_fin]

/-- A sum over known values without one of the infinities is known. -/
lemma sum_ne_nan {ι : Type*} {s : Finset ι} {f : ι → ExtNum K} (hnan : ∀ i ∈ s, f i ≠ nan)
    (hinf : (∀ i ∈ s, f i ≠ pinf) ∨ ∀ i ∈ s, f i ≠ ninf) : ∑ i ∈ s, f i ≠ nan := by
  obtain hinf | hinf := hinf
  · refine (Finset.sum_induction f (fun a => a ≠ nan ∧ a ≠ pinf) ?_ (by simp [zero_def]) fun i hi =>
      ⟨hnan i hi, hinf i hi⟩).1
    rintro a b ⟨ha, ha'⟩ ⟨hb, hb'⟩
    cases a <;> cases b <;> simp_all
  · refine (Finset.sum_induction f (fun a => a ≠ nan ∧ a ≠ ninf) ?_ (by simp [zero_def]) fun i hi =>
      ⟨hnan i hi, hinf i hi⟩).1
    rintro a b ⟨ha, ha'⟩ ⟨hb, hb'⟩
    cases a <;> cases b <;> simp_all

/-- A sum with both infinities is not a number. -/
lemma sum_eq_nan {ι : Type*} {s : Finset ι} {f : ι → ExtNum K} {i j : ι} (hi : i ∈ s) (hj : j ∈ s) (hp : f i = pinf)
    (hn : f j = ninf) : ∑ k ∈ s, f k = nan := by
  classical
  have hne : j ≠ i := by
    rintro rfl
    rw [hp] at hn
    cases hn
  rw [← Finset.add_sum_erase s f hi, ← Finset.add_sum_erase (s.erase i) f (Finset.mem_erase.2 ⟨hne, hj⟩), ← add_assoc,
    hp, hn, pinf_add_ninf, nan_add]

lemma fin_of_add_eq_fin {a b : ExtNum K} {x : K} (h : a + b = fin x) : ∃ y, a = fin y := by
  cases a with
  | fin y => exact ⟨y, rfl⟩
  | nan => cases h
  | ninf => cases b <;> cases h
  | pinf => cases b <;> cases h

/-- A sum that is a number has numbers for summands. -/
lemma fin_of_sum_eq_fin {ι : Type*} {s : Finset ι} {f : ι → ExtNum K} {x : K} (h : ∑ i ∈ s, f i = fin x) {i : ι}
    (hi : i ∈ s) : ∃ y, f i = fin y := by
  classical
  rw [← Finset.add_sum_erase s f hi] at h
  exact fin_of_add_eq_fin h

end Additive

section Order

variable [LinearOrder K]

/-- Strict comparison, false as soon as one side is `nan`. -/
@[grind] def lt : ExtNum K → ExtNum K → Bool
  | .fin x, .fin y => decide (x < y)
  | .ninf, .fin _ => true
  | .ninf, .pinf => true
  | .fin _, .pinf => true
  | _, _ => false

instance : LT (ExtNum K) := ⟨fun a b => lt a b = true⟩
instance (a b : ExtNum K) : Decidable (a < b) := inferInstanceAs (Decidable (lt a b = true))

@[simp] lemma fin_lt_fin (x y : K) : (fin x < fin y) ↔ x < y := by
  show (decide (x < y) = true) ↔ x < y
  exact decide_eq_true_iff

@[simp] lemma not_nan_lt (a : ExtNum K) : ¬ nan < a := by
  cases a <;> simp [LT.lt, lt]

@[simp] lemma not_lt_nan (a : ExtNum K) : ¬ a < nan := by
  cases a <;> simp [LT.lt, lt]

@[simp] lemma not_lt_ninf (a : ExtNum K) : ¬ a < ninf := by
  cases a <;> simp [LT.lt, lt]

@[simp] lemma not_pinf_lt (a : ExtNum K) : ¬ pinf < a := by
  cases a <;> simp [LT.lt, lt]

/-- The greater of two numbers, as a program keeps a running maximum. -/
@[grind] def hi (m x : ExtNum K) : ExtNum K := if m < x then x else m

/-- The smaller of two numbers, as a program keeps a running minimum. -/
@[grind] def lo (m x : ExtNum K) : ExtNum K := if x < m then x else m

lemma lt_irrefl' (a : ExtNum K) : ¬ a < a := by
  cases a <;> simp

lemma hi_hi_self (m x : ExtNum K) : hi (hi m x) x = hi m x := by
  unfold hi
  split
  · rw [if_neg (lt_irrefl' x)]
  · rfl

lemma lo_lo_self (m x : ExtNum K) : lo (lo m x) x = lo m x := by
  unfold lo
  split
  · rw [if_neg (lt_irrefl' x)]
  · rfl

lemma hi_ninf {a : ExtNum K} (ha : a ≠ nan) : hi ninf a = a := by
  cases a <;> simp_all [hi, LT.lt, lt]

lemma lo_pinf {a : ExtNum K} (ha : a ≠ nan) : lo pinf a = a := by
  cases a <;> simp_all [lo, LT.lt, lt]

lemma hi_mem (m x : ExtNum K) : hi m x = m ∨ hi m x = x := by
  unfold hi
  split
  · exact .inr rfl
  · exact .inl rfl

lemma lo_mem (m x : ExtNum K) : lo m x = m ∨ lo m x = x := by
  unfold lo
  split
  · exact .inr rfl
  · exact .inl rfl

end Order

section Multiplicative

variable [Field K] [LinearOrder K]

/-- The infinity `a` scaled by the sign of `x`; `nan` for a zero `x`. -/
@[grind] def bySign (x : K) (a : ExtNum K) : ExtNum K :=
  if 0 < x then a else if x < 0 then neg a else .nan

/-- Product of two extended numbers. -/
@[grind] def mul : ExtNum K → ExtNum K → ExtNum K
  | .nan, _ => .nan
  | _, .nan => .nan
  | .fin x, .fin y => .fin (x * y)
  | .fin x, b => bySign x b
  | a, .fin y => bySign y a
  | .pinf, b => b
  | .ninf, b => neg b

/-- Quotient of two extended numbers; a zero divisor counts as positive zero. -/
def div : ExtNum K → ExtNum K → ExtNum K
  | .nan, _ => .nan
  | _, .nan => .nan
  | .fin x, .fin y => if y = 0 then bySign x .pinf else .fin (x / y)
  | .fin _, _ => .fin 0
  | a, .fin y => if y < 0 then neg a else a
  | _, _ => .nan

/-- Absolute value. -/
def abs : ExtNum K → ExtNum K
  | .nan => .nan
  | .ninf => .pinf
  | .fin x => .fin (max x (-x))
  | .pinf => .pinf

instance : Mul (ExtNum K) := ⟨mul⟩
instance : Div (ExtNum K) := ⟨div⟩

@[simp] lemma fin_mul_fin (x y : K) : fin x * fin y = fin (x * y) := rfl
@[simp] lemma nan_mul (a : ExtNum K) : nan * a = nan := rfl
@[simp] lemma mul_nan (a : ExtNum K) : a * nan = nan := by cases a <;> rfl
@[simp] lemma nan_div (a : ExtNum K) : nan / a = nan := rfl

lemma fin_div_fin {x y : K} (hy : y ≠ 0) : fin x / fin y = fin (x / y) :=
  if_neg hy

lemma pinf_mul_fin {y : K} (hy : 0 < y) : pinf * fin y = pinf := if_pos hy

lemma ninf_mul_fin {y : K} (hy : 0 < y) : ninf * fin y = ninf := if_pos hy

lemma pinf_div_fin {y : K} (hy : 0 < y) : pinf / fin y = pinf := if_neg hy.not_gt

lemma ninf_div_fin {y : K} (hy : 0 < y) : ninf / fin y = ninf := if_neg hy.not_gt

/-- A positive divisor and the same factor cancel. -/
lemma div_mul_cancel_fin (a : ExtNum K) {y : K} (hy : 0 < y) : a / fin y * fin y = a := by
  cases a with
  | nan => rfl
  | ninf => rw [ninf_div_fin hy, ninf_mul_fin hy]
  | pinf => rw [pinf_div_fin hy, pinf_mul_fin hy]
  | fin x => rw [fin_div_fin hy.ne', fin_mul_fin, div_mul_cancel₀ x hy.ne']

end Multiplicative

section Count

variable [Field K] [LinearOrder K] [IsStrictOrderedRing K]

/-- A product by a positive count is a repeated sum. -/
lemma mul_natCast (a : ExtNum K) {k : ℕ} (hk : 0 < k) :
    a * fin (k : K) = (List.replicate k a).sum := by
  have pos : ∀ n : ℕ, (0 : K) < (n + 1 : ℕ) := fun n => by exact_mod_cast n.succ_pos
  obtain ⟨k, rfl⟩ := Nat.exists_eq_succ_of_ne_zero hk.ne'
  induction k with
  | zero =>
    have h1 : (fin ((Nat.succ 0 : ℕ) : K)) = fin 1 := by simp
    rw [h1]
    cases a with
    | nan => rfl
    | fin x => simp
    | pinf => simp [HMul.hMul, Mul.mul, mul, bySign]
    | ninf => simp [HMul.hMul, Mul.mul, mul, bySign]
  | succ k ih =>
    rw [List.replicate_succ, List.sum_cons, ← ih (Nat.succ_pos k)]
    have h1 := pos k
    have h2 := pos (k + 1)
    cases a with
    | nan => rfl
    | fin x =>
      simp only [fin_mul_fin, fin_add_fin]
      congr 1
      push_cast
      ring
    | pinf =>
      show bySign _ _ = pinf + bySign _ _
      rw [bySign, if_pos h2, bySign, if_pos h1, pinf_add_pinf]
    | ninf =>
      show bySign _ _ = ninf + bySign _ _
      rw [bySign, if_pos h2, bySign, if_pos h1, ninf_add_ninf]

lemma div_natCast_eq_nan_iff {a : ExtNum K} {k : ℕ} (hk : 0 < k) :
    a / fin (k : K) = nan ↔ a = nan := by
  have pos : (0 : K) < k := by exact_mod_cast hk
  cases a with
  | nan => exact ⟨fun _ => rfl, fun _ => rfl⟩
  | fin x => simp [fin_div_fin pos.ne']
  | pinf =>
    show (if (k : K) < 0 then neg pinf else pinf) = nan ↔ pinf = nan
    rw [if_neg pos.not_gt]
  | ninf =>
    show (if (k : K) < 0 then neg ninf else ninf) = nan ↔ ninf = nan
    rw [if_neg pos.not_gt]

lemma div_natCast {a : ExtNum K} {k : ℕ} (hk : 0 < k) : a / fin (k : K) =
    match a with
    | .fin x => .fin (x / k)
    | a => a := by
  have pos : (0 : K) < k := by exact_mod_cast hk
  cases a with
  | nan => rfl
  | fin x => exact fin_div_fin pos.ne'
  | pinf => exact if_neg pos.not_gt
  | ninf => exact if_neg pos.not_gt

lemma fin_of_div_natCast_eq_fin {a : ExtNum K} {k : ℕ} (hk : 0 < k) {x : K} (h : a / fin (k : K) = fin x) :
    ∃ y, a = fin y := by
  rw [div_natCast hk] at h
  cases a with
  | fin y => exact ⟨y, rfl⟩
  | nan => cases h
  | ninf => cases h
  | pinf => cases h

lemma add_div_natCast (a b : ExtNum K) {k : ℕ} (hk : 0 < k) :
    (a + b) / fin (k : K) = a / fin (k : K) + b / fin (k : K) := by
  simp only [div_natCast hk]
  cases a <;> cases b <;> simp [add_div]

/-- A quotient by a count goes through a sum. -/
lemma sum_div_natCast {ι : Type*} (s : Finset ι) (f : ι → ExtNum K) {k : ℕ} (hk : 0 < k) :
    (∑ i ∈ s, f i) / fin (k : K) = ∑ i ∈ s, f i / fin (k : K) := by
  classical
  induction s using Finset.induction_on with
  | empty =>
    rw [Finset.sum_empty, Finset.sum_empty, div_natCast hk, zero_def]
    simp
  | insert i s hi ih => rw [Finset.sum_insert hi, Finset.sum_insert hi, add_div_natCast _ _ hk, ih]

/-- A positive factor of the divisor cancels. -/
lemma div_mul_fin (a : ExtNum K) {y z : K} (hy : 0 < y) (hz : 0 < z) : a / fin (y * z) * fin z = a / fin y := by
  have hyz := mul_pos hy hz
  cases a with
  | nan => rfl
  | ninf => rw [ninf_div_fin hyz, ninf_mul_fin hz, ninf_div_fin hy]
  | pinf => rw [pinf_div_fin hyz, pinf_mul_fin hz, pinf_div_fin hy]
  | fin x =>
    rw [fin_div_fin hyz.ne', fin_mul_fin, fin_div_fin hy.ne']
    congr 1
    field_simp

/-- A mean over `y` parts becomes one over `k` of them. -/
lemma div_div_mul_fin (a : ExtNum K) {y z k : K} (hy : 0 < y) (hz : 0 < z) (hk : 0 < k) :
    a / fin y / fin (k * z) * fin (y * z) = a / fin k := by
  have hkz := mul_pos hk hz
  have hyz := mul_pos hy hz
  cases a with
  | nan => rfl
  | ninf => rw [ninf_div_fin hy, ninf_div_fin hkz, ninf_mul_fin hyz, ninf_div_fin hk]
  | pinf => rw [pinf_div_fin hy, pinf_div_fin hkz, pinf_mul_fin hyz, pinf_div_fin hk]
  | fin x =>
    rw [fin_div_fin hy.ne', fin_div_fin hkz.ne', fin_mul_fin, fin_div_fin hk.ne']
    congr 1
    field_simp

/-- The mean of equal values. -/
lemma nsmul_div_natCast (a : ExtNum K) {k : ℕ} (hk : 0 < k) : (k • a) / fin (k : K) = a := by
  have pos : (0 : K) < k := by exact_mod_cast hk
  rw [← List.sum_replicate, ← mul_natCast a hk, div_natCast hk]
  cases a with
  | nan => rfl
  | fin x => simp [pos.ne']
  | pinf =>
    show (match bySign (k : K) pinf with | .fin x => .fin (x / k) | a => a) = pinf
    rw [bySign, if_pos pos]
  | ninf =>
    show (match bySign (k : K) ninf with | .fin x => .fin (x / k) | a => a) = ninf
    rw [bySign, if_pos pos]

end Count

end ExtNum
