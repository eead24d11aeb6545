import Mathlib.Algebra.Ring.Periodic
import Mathlib.Algebra.BigOperators.Intervals
import Mathlib.Tactic

/-!
# Sums over a ring

The values on a ring of `n` places are a function on the integers of period `n`. A window of `m` places slides
over it (`windowSum_succ`); its sums over one turn add up to `m` times the sum of the ring (`sum_windowSum`), since
the sum over one turn does not depend on where the turn starts (`sum_shift`).
-/

namespace Cyclic

open Finset

variable {M : Type*} [AddCommMonoid M] {f : ℤ → M} {n : ℕ}

/-- The sum of the `m` values from `z` on. -/
@[grind] def windowSum (f : ℤ → M) (m : ℕ) (z : ℤ) : M := ∑ i ∈ range m, f (z + i)

/-- The window takes up the next value and drops its first one. -/
lemma windowSum_succ (f : ℤ → M) (m : ℕ) (z : ℤ) :
    windowSum f m z + f (z + m) = f z + windowSum f m (z + 1) := by
  have hnext : ∀ i : ℕ, z + 1 + i = z + (i + 1 : ℕ) := by
    intro i
    push_cast
    ring
  simp only [windowSum, hnext]
  rw [← sum_range_succ, sum_range_succ', add_comm, Nat.cast_zero, add_zero]

lemma sum_shift_one (hf : Function.Periodic f n) (c : ℤ) :
    ∑ k ∈ range n, f (c + 1 + k) = ∑ k ∈ range n, f (c + k) := by
  have hslide := windowSum_succ f n c
  cases n with
  | zero => rfl
  | succ n =>
    have hnext : ∀ k : ℕ, c + 1 + k = c + (k + 1 : ℕ) := by
      intro k
      push_cast
      ring
    have hlast : f (c + (n + 1 : ℕ)) = f (c + (0 : ℕ)) := by
      rw [hf c, Nat.cast_zero, add_zero]
    simp only [hnext]
    rw [sum_range_succ, hlast, ← sum_range_succ' fun k : ℕ => f (c + k)]

/-- The sum over one turn, wherever it starts. -/
lemma sum_shift (hf : Function.Periodic f n) (c : ℤ) :
    ∑ k ∈ range n, f (c + k) = ∑ k ∈ range n, f k := by
  induction c with
  | zero => simp
  | succ c ih => rw [sum_shift_one hf, ih]
  | pred c ih =>
    rw [← ih, ← sum_shift_one hf (-(c : ℤ) - 1)]
    simp

/-- Over one turn, a window of `m` places meets every value `m` times. -/
lemma sum_windowSum (hf : Function.Periodic f n) (m : ℕ) (c : ℤ) :
    ∑ k ∈ range n, windowSum f m (c + k) = m • ∑ k ∈ range n, f k := by
  simp only [windowSum]
  rw [sum_comm]
  have hinner : ∀ i ∈ range m, ∑ k ∈ range n, f (c + k + i) = ∑ k ∈ range n, f k := by
    intro i _
    rw [← sum_shift hf (c + i)]
    exact sum_congr rfl fun k _ => congrArg f (by ring)
  rw [sum_congr rfl hinner, sum_const, card_range]

end Cyclic
