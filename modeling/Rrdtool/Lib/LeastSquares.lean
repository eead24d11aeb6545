import Mathlib.Algebra.BigOperators.Group.List.Basic
import Mathlib.Algebra.Order.BigOperators.Group.List
import Mathlib.Tactic

/-!
# Least squares

The line of least squares through a list of points, with its coefficients as quotients of sums. They solve the normal
equations (`residuals_sum`, `residuals_moment`) when two of the points are not above each other, and no other line has
smaller squares (`slope_intercept_least`).
-/

namespace LeastSquares

variable {K : Type*} [Field K]

/-- The sum of a function over the points. -/
@[grind] def total (f : K → K → K) (ps : List (K × K)) : K := (ps.map fun p => f p.1 p.2).sum

/-- How much the points vary horizontally. -/
@[grind] def spread (ps : List (K × K)) : K :=
  ps.length * total (fun x _ => x * x) ps - total (fun x _ => x) ps * total (fun x _ => x) ps

@[grind] def slope (ps : List (K × K)) : K :=
  (total (fun x _ => x) ps * total (fun _ y => y) ps - ps.length * total (fun x y => x * y) ps) /
    (total (fun x _ => x) ps * total (fun x _ => x) ps - ps.length * total (fun x _ => x * x) ps)

@[grind] def intercept (ps : List (K × K)) : K := (total (fun _ y => y) ps - slope ps * total (fun x _ => x) ps) / ps.length

/-- How far a point is above a line. -/
@[grind] def residual (a b x y : K) : K := y - (a * x + b)

variable {f g : K → K → K} {p : K × K} {ps : List (K × K)} {a b : K}

@[simp] lemma total_nil : total f [] = 0 := rfl

@[simp] lemma total_cons : total f (p :: ps) = f p.1 p.2 + total f ps := rfl

lemma total_append (ps qs : List (K × K)) : total f (ps ++ qs) = total f ps + total f qs := by
  rw [total, List.map_append, List.sum_append]
  rfl

lemma total_residual (a b : K) (ps : List (K × K)) :
    total (residual a b) ps = total (fun _ y => y) ps - a * total (fun x _ => x) ps - ps.length * b := by
  induction ps with
  | nil => simp
  | cons p ps ih =>
    simp only [total_cons, ih, List.length_cons]
    rw [residual]
    push_cast
    ring

lemma total_moment (a b : K) (ps : List (K × K)) :
    total (fun x y => x * residual a b x y) ps =
      total (fun x y => x * y) ps - a * total (fun x _ => x * x) ps - b * total (fun x _ => x) ps := by
  induction ps with
  | nil => simp
  | cons p ps ih =>
    simp only [total_cons, ih]
    rw [residual]
    ring

/-- The squares for one line from those for another. -/
lemma total_sq (a b a' b' : K) (ps : List (K × K)) :
    total (fun x y => residual a' b' x y ^ 2) ps =
      total (fun x y => residual a b x y ^ 2) ps + total (fun x _ => ((a - a') * x + (b - b')) ^ 2) ps +
        2 * ((a - a') * total (fun x y => x * residual a b x y) ps + (b - b') * total (residual a b) ps) := by
  induction ps with
  | nil => simp
  | cons p ps ih =>
    simp only [total_cons, ih]
    rw [residual, residual]
    ring

lemma spread_cons : spread (p :: ps) = spread ps + total (fun x _ => (x - p.1) ^ 2) ps := by
  have hsq : total (fun x _ => (x - p.1) ^ 2) ps =
      total (fun x _ => x * x) ps - 2 * p.1 * total (fun x _ => x) ps + ps.length * (p.1 * p.1) := by
    induction ps with
    | nil => simp
    | cons q ps ih =>
      simp only [total_cons, ih, List.length_cons]
      push_cast
      ring
  rw [hsq, spread, spread]
  simp only [total_cons, List.length_cons]
  push_cast
  ring

section Normal

variable (hlen : (ps.length : K) ≠ 0) (hspread : spread ps ≠ 0)

include hlen

/-- The line passes through the middle of the points. -/
lemma residuals_sum : total (residual (slope ps) (intercept ps)) ps = 0 := by
  rw [total_residual, intercept, mul_div_cancel₀ _ hlen, sub_self]

include hspread

/-- The residuals do not depend on the place. -/
lemma residuals_moment : total (fun x y => x * residual (slope ps) (intercept ps) x y) ps = 0 := by
  have hden : total (fun x _ => x) ps * total (fun x _ => x) ps - ps.length * total (fun x _ => x * x) ps ≠ 0 := by
    intro h
    apply hspread
    rw [spread, ← neg_sub, h, neg_zero]
  have hslope : slope ps * (total (fun x _ => x) ps * total (fun x _ => x) ps - ps.length * total (fun x _ => x * x) ps) =
      total (fun x _ => x) ps * total (fun _ y => y) ps - ps.length * total (fun x y => x * y) ps :=
    div_mul_cancel₀ _ hden
  have hintercept : intercept ps * ps.length = total (fun _ y => y) ps - slope ps * total (fun x _ => x) ps :=
    div_mul_cancel₀ _ hlen
  rw [total_moment]
  apply mul_right_cancel₀ hlen
  linear_combination hslope - total (fun x _ => x) ps * hintercept

end Normal

section Order

variable [LinearOrder K] [IsStrictOrderedRing K]

lemma total_nonneg (h : ∀ x y, 0 ≤ f x y) (ps : List (K × K)) : 0 ≤ total f ps := by
  apply List.sum_nonneg
  intro z hz
  obtain ⟨p, -, rfl⟩ := List.mem_map.1 hz
  exact h p.1 p.2

lemma total_pos (h : ∀ x y, 0 ≤ f x y) (hp : p ∈ ps) (hpos : 0 < f p.1 p.2) : 0 < total f ps := by
  apply hpos.trans_le
  apply List.single_le_sum
  · intro z hz
    obtain ⟨q, -, rfl⟩ := List.mem_map.1 hz
    exact h q.1 q.2
  · exact List.mem_map.2 ⟨p, hp, rfl⟩

lemma spread_nonneg (ps : List (K × K)) : 0 ≤ spread ps := by
  induction ps with
  | nil => simp [spread]
  | cons p ps ih =>
    rw [spread_cons]
    exact add_nonneg ih (total_nonneg (fun x _ => sq_nonneg (x - p.1)) ps)

/-- Only points that are all above each other do not vary. -/
theorem spread_pos {p q : K × K} (hp : p ∈ ps) (hq : q ∈ ps) (hne : p.1 ≠ q.1) : 0 < spread ps := by
  induction ps with
  | nil => cases hp
  | cons r ps ih =>
    have hrest := spread_nonneg ps
    have hsq : ∀ q : K × K, q ∈ ps → q.1 ≠ r.1 → 0 < total (fun x _ => (x - r.1) ^ 2) ps := fun q hq hne =>
      total_pos (fun x _ => sq_nonneg (x - r.1)) hq (sq_pos_of_ne_zero (sub_ne_zero.2 hne))
    rw [spread_cons]
    rcases List.mem_cons.1 hp with rfl | hp'
    · rcases List.mem_cons.1 hq with rfl | hq'
      · exact absurd rfl hne
      · exact add_pos_of_nonneg_of_pos hrest (hsq q hq' hne.symm)
    · rcases List.mem_cons.1 hq with rfl | hq'
      · exact add_pos_of_nonneg_of_pos hrest (hsq p hp' hne)
      · exact add_pos_of_pos_of_nonneg (ih hp' hq') (total_nonneg (fun x _ => sq_nonneg (x - r.1)) ps)

/-- No line has smaller squares. -/
theorem slope_intercept_least (hlen : (ps.length : K) ≠ 0) (hspread : spread ps ≠ 0) (a b : K) :
    total (fun x y => residual (slope ps) (intercept ps) x y ^ 2) ps ≤ total (fun x y => residual a b x y ^ 2) ps := by
  rw [total_sq (slope ps) (intercept ps) a b, residuals_sum hlen, residuals_moment hlen hspread]
  have hnonneg := total_nonneg (fun x _ => sq_nonneg ((slope ps - a) * x + (intercept ps - b))) ps
  linarith

end Order

end LeastSquares
