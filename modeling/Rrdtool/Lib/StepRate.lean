import Mathlib.Algebra.Order.Field.Basic
import Mathlib.Algebra.BigOperators.Group.List.Basic
import Mathlib.Tactic

/-!
# The integral of a piecewise constant rate

A rate that is constant on each of a list of segments, and its integral over an interval: the sum of
the rates, each times the length of the overlap of its segment with the interval. Segments that end
before the interval begins do not count (`integral_of_le`), an interval can be cut off where the
segments end (`integral_cut`), and the two shapes in which one segment meets an interval have their
closed forms (`amount_of_inside`, `amount_of_start`).
-/

namespace StepRate

variable {K : Type*} [Field K] [LinearOrder K]

/-- A rate from one time to another. -/
structure Seg (K : Type*) where
  start : K
  stop : K
  rate : K

/-- The length of the overlap of a segment with `[a, b]`. -/
@[grind] def overlap (s : Seg K) (a b : K) : K := max 0 (min s.stop b - max s.start a)

/-- What a segment contributes to `[a, b]`. -/
@[grind] def amount (s : Seg K) (a b : K) : K := s.rate * overlap s a b

/-- The integral over `[a, b]`. -/
@[grind] def integral (segs : List (Seg K)) (a b : K) : K := (segs.map fun s => amount s a b).sum

@[simp] lemma integral_nil (a b : K) : integral ([] : List (Seg K)) a b = 0 := rfl

@[simp] lemma integral_append (l l' : List (Seg K)) (a b : K) :
    integral (l ++ l') a b = integral l a b + integral l' a b := by
  simp [integral]

@[simp] lemma integral_singleton (s : Seg K) (a b : K) : integral [s] a b = amount s a b := by
  simp [integral]

/-- Nothing is added after the last segment. -/
lemma integral_cut {segs : List (Seg K)} {a b t : K} (h : ∀ s ∈ segs, s.stop ≤ t) (hb : t ≤ b) :
    integral segs a b = integral segs a t := by
  unfold integral
  congr 1
  refine List.map_congr_left fun s hs => ?_
  have h1 : min s.stop b = s.stop := min_eq_left ((h s hs).trans hb)
  have h2 : min s.stop t = s.stop := min_eq_left (h s hs)
  rw [amount, amount, overlap, overlap, h1, h2]

variable [IsStrictOrderedRing K]

lemma overlap_of_le {s : Seg K} {a b : K} (h : s.stop ≤ a) : overlap s a b = 0 := by
  refine max_eq_left ?_
  have h1 := min_le_left s.stop b
  have h2 := le_max_right s.start a
  linarith

lemma overlap_of_ge {s : Seg K} {a b : K} (h : b ≤ s.start) : overlap s a b = 0 := by
  refine max_eq_left ?_
  have h1 := min_le_right s.stop b
  have h2 := le_max_left s.start a
  linarith

/-- Segments that are over do not count. -/
lemma integral_of_le {segs : List (Seg K)} {a b : K} (h : ∀ s ∈ segs, s.stop ≤ a) :
    integral segs a b = 0 := by
  refine List.sum_eq_zero fun x hx => ?_
  obtain ⟨s, hs, rfl⟩ := List.mem_map.1 hx
  rw [amount, overlap_of_le (h s hs), mul_zero]

lemma integral_self (segs : List (Seg K)) (a : K) : integral segs a a = 0 := by
  refine List.sum_eq_zero fun x hx => ?_
  obtain ⟨s, -, rfl⟩ := List.mem_map.1 hx
  have h1 := min_le_right s.stop a
  have h2 := le_max_right s.start a
  rw [amount, overlap, max_eq_left (by linarith), mul_zero]

/-- The interval lies inside the segment. -/
lemma amount_of_inside {s : Seg K} {a b : K} (ha : s.start ≤ a) (hab : a ≤ b) (hb : b ≤ s.stop) :
    amount s a b = s.rate * (b - a) := by
  rw [amount, overlap, min_eq_right hb, max_eq_right ha, max_eq_right (by linarith)]

/-- The interval begins before the segment and ends inside it. -/
lemma amount_of_start {s : Seg K} {a b : K} (ha : a ≤ s.start) (hs : s.start ≤ b) (hb : b ≤ s.stop) :
    amount s a b = s.rate * (b - s.start) := by
  rw [amount, overlap, min_eq_right hb, max_eq_left ha, max_eq_right (by linarith)]

/-- A later segment does not count. -/
lemma amount_of_ge {s : Seg K} {a b : K} (h : b ≤ s.start) : amount s a b = 0 := by
  rw [amount, overlap_of_ge h, mul_zero]

end StepRate
