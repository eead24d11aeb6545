import Mathlib.Tactic

/-!
# Parts of an array

An array is a function of the place, and `slice` is what stands in it from a place on. A program that keeps two places
in a buffer takes the front of the slice between them (`slice_take`, `slice_drop`, `slice_add`) or stores somewhere else
(`slice_update`), and the slice stays what it is.
-/

namespace Slice

variable {α : Type*}

/-- The `len` elements from the place `p` on. -/
@[grind] def slice (mem : ℕ → α) (p len : ℕ) : List α := (List.range len).map fun i => mem (p + i)

variable {mem mem' : ℕ → α} {p q len n i : ℕ} {x : α} {l : List α}

@[simp] lemma length_slice (mem : ℕ → α) (p len : ℕ) : (slice mem p len).length = len := by
  rw [slice, List.length_map, List.length_range]

@[simp] lemma slice_zero (mem : ℕ → α) (p : ℕ) : slice mem p 0 = [] := rfl

lemma getElem?_slice (h : i < len) : (slice mem p len)[i]? = some (mem (p + i)) := by
  rw [slice, List.getElem?_map, List.getElem?_range h, Option.map_some]

/-- The slice behind a first one. -/
lemma slice_add (mem : ℕ → α) (p n len : ℕ) : slice mem p (n + len) = slice mem p n ++ slice mem (p + n) len := by
  rw [slice, List.range_add, List.map_append, List.map_map, slice, slice]
  congr 1
  exact List.map_congr_left fun i _ => congrArg mem (Nat.add_assoc p n i).symm

lemma slice_succ (mem : ℕ → α) (p len : ℕ) : slice mem p (len + 1) = mem p :: slice mem (p + 1) len := by
  rw [Nat.add_comm, slice_add]
  rfl

lemma slice_concat (mem : ℕ → α) (p len : ℕ) : slice mem p (len + 1) = slice mem p len ++ [mem (p + len)] :=
  slice_add mem p len 1

lemma slice_take (mem : ℕ → α) (p len n : ℕ) : slice mem p (min len n) = (slice mem p len).take n := by
  rw [slice, slice, ← List.map_take, List.take_range, Nat.min_comm]

lemma slice_drop (mem : ℕ → α) (p len n : ℕ) : slice mem (p + n) (len - n) = (slice mem p len).drop n := by
  obtain hlt | hle := Nat.lt_or_ge len n
  · rw [Nat.sub_eq_zero_of_le hlt.le, slice_zero, List.drop_eq_nil_of_le (by rw [length_slice]; exact hlt.le)]
  · obtain ⟨m, rfl⟩ := Nat.exists_eq_add_of_le hle
    rw [Nat.add_sub_cancel_left, slice_add, List.drop_left' (length_slice mem p n)]

lemma slice_congr (h : ∀ i < len, mem (p + i) = mem' (q + i)) : slice mem p len = slice mem' q len :=
  List.map_congr_left fun i hi => h i (List.mem_range.1 hi)

/-- The slice that holds a list. -/
lemma slice_eq (h : ∀ i (hi : i < l.length), mem (p + i) = l.get ⟨i, hi⟩) : slice mem p l.length = l := by
  refine List.ext_getElem (length_slice mem p l.length) fun i _ hi => ?_
  rw [List.getElem_eq_iff, getElem?_slice hi, h i hi]
  rfl

lemma slice_update (h : q < p ∨ p + len ≤ q) (x : α) : slice (Function.update mem q x) p len = slice mem p len :=
  slice_congr fun i hi => Function.update_of_ne (by omega) x mem

end Slice
