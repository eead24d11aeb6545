import Mathlib.Algebra.BigOperators.Group.Finset.Basic
import Mathlib.Algebra.BigOperators.Intervals

/-!
# Running sums with resets

A running sum that some of its terms set back to 0 before they are added (`running`). It is the sum over the open
segment, the terms that no later term has cut off (`running_eq_sum`).
-/

namespace Segments

variable {M : Type*} [AddCommMonoid M] {reset : ℕ → Bool} {f : ℕ → M}

/-- The running sum of the first terms. -/
@[grind] def running (reset : ℕ → Bool) (f : ℕ → M) : ℕ → M
  | 0 => 0
  | k + 1 => (if reset k then 0 else running reset f k) + f k

/-- The term `j` is not cut off by one of the first `k` terms. -/
def Open (reset : ℕ → Bool) (k j : ℕ) : Prop := ∀ l < k, j < l → reset l = false

instance (k : ℕ) : DecidablePred (Open reset k) := fun j => inferInstanceAs (Decidable (∀ l < k, j < l → reset l = false))

lemma open_succ {k j : ℕ} (h : j < k) : Open reset (k + 1) j ↔ reset k = false ∧ Open reset k j := by
  constructor
  · intro hopen
    exact ⟨hopen k (Nat.lt_succ_self k) h, fun l hl => hopen l (Nat.lt_succ_of_lt hl)⟩
  · rintro ⟨hk, hopen⟩ l hl hjl
    obtain hlt | rfl := Nat.lt_succ_iff_lt_or_eq.1 hl
    · exact hopen l hlt hjl
    · exact hk

/-- The last term is not cut off. -/
lemma open_last (k : ℕ) : Open reset (k + 1) k := fun l hl hkl => absurd hl (by omega)

/-- The running sum is the sum over the open segment. -/
theorem running_eq_sum (k : ℕ) : running reset f k = ∑ j ∈ (Finset.range k).filter (Open reset k), f j := by
  induction k with
  | zero => rfl
  | succ k ih =>
    rw [running, Finset.range_add_one, Finset.filter_insert, if_pos (open_last k),
      Finset.sum_insert (by simp), add_comm]
    congr 1
    by_cases hk : reset k
    · rw [if_pos hk, Finset.filter_false_of_mem, Finset.sum_empty]
      intro j hj hopen
      rw [((open_succ (Finset.mem_range.1 hj)).1 hopen).1] at hk
      cases hk
    · rw [if_neg hk, ih]
      refine Finset.sum_congr (Finset.filter_congr fun j hj => ?_) fun _ _ => rfl
      rw [open_succ (Finset.mem_range.1 hj)]
      exact (and_iff_right (Bool.eq_false_iff.2 hk)).symm

end Segments
