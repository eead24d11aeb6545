import Mathlib.Data.List.Sort
import Mathlib.Tactic

/-!
# Sorting with a comparison

`r` is what a comparison function answers, `le` the order that is meant. The two need only agree on different elements of
the list: a comparison that puts an element behind itself still sorts (`insertionSort_pairwise`). An element has rank `k`
if it is in place `k` of the sorted list, counted from one (`Ranked`).
-/

namespace Ranking

variable {α : Type*} {le r : α → α → Prop} {xs ys : List α} {x y : α} {k l : ℕ}

/-- The comparison answers as the order does for different elements of the list. -/
def Compares (r le : α → α → Prop) (xs : List α) : Prop := ∀ x ∈ xs, ∀ y ∈ xs, x ≠ y → (r x y ↔ le x y)

lemma Compares.mono (hr : Compares r le ys) (h : xs ⊆ ys) : Compares r le xs := fun x hx y hy =>
  hr x (h hx) y (h hy)

section Comparison

variable [IsLinearOrder α le]

lemma Compares.of_before (hr : Compares r le xs) (hx : x ∈ xs) (hy : y ∈ xs) (h : r x y) : le x y := by
  rcases eq_or_ne x y with rfl | hne
  · exact refl_of le x
  · exact (hr x hx y hy hne).1 h

lemma Compares.of_not_before (hr : Compares r le xs) (hx : x ∈ xs) (hy : y ∈ xs) (h : ¬ r x y) : le y x := by
  rcases eq_or_ne x y with rfl | hne
  · exact refl_of le x
  · exact (total_of le x y).resolve_left fun hle => h ((hr x hx y hy hne).2 hle)

variable [DecidableRel r]

lemma orderedInsert_pairwise (hr : Compares r le (x :: xs)) (h : xs.Pairwise le) :
    (xs.orderedInsert r x).Pairwise le := by
  induction xs with
  | nil => exact List.pairwise_singleton le x
  | cons y xs ih =>
    obtain ⟨hy, hxs⟩ := List.pairwise_cons.1 h
    have hx : x ∈ x :: y :: xs := .head _
    have hy' : y ∈ x :: y :: xs := .tail _ (.head _)
    rw [List.orderedInsert_cons]
    split
    · rename_i hxy
      have hle := hr.of_before hx hy' hxy
      apply List.Pairwise.cons _ h
      intro z hz
      rcases List.mem_cons.1 hz with rfl | hz
      · exact hle
      · exact trans_of le hle (hy z hz)
    · rename_i hxy
      have hle := hr.of_not_before hx hy' hxy
      have hrest : Compares r le (x :: xs) := hr.mono (List.cons_subset_cons x (List.subset_cons_self y xs))
      apply List.Pairwise.cons _ (ih hrest hxs)
      intro z hz
      rcases (List.mem_orderedInsert r).1 hz with rfl | hz
      · exact hle
      · exact hy z hz

lemma insertionSort_pairwise (hr : Compares r le xs) : (xs.insertionSort r).Pairwise le := by
  induction xs with
  | nil => exact List.Pairwise.nil
  | cons x xs ih =>
    have hsorted := ih (hr.mono (List.subset_cons_self x xs))
    apply orderedInsert_pairwise (hr.mono _) hsorted
    exact List.cons_subset_cons x (List.perm_insertionSort r xs).subset

/-- What is sorted and has the same elements is what sorting leaves. -/
lemma eq_insertionSort (hr : Compares r le xs) (hperm : ys.Perm xs) (hys : ys.Pairwise le) :
    ys = xs.insertionSort r :=
  (hperm.trans (List.perm_insertionSort r xs).symm).eq_of_pairwise' hys (insertionSort_pairwise hr)

end Comparison

/-- The elements can be ordered with any of them in any place. -/
lemma exists_perm_getElem? (hx : x ∈ xs) (hk : k < xs.length) : ∃ ys : List α, ys.Perm xs ∧ ys[k]? = some x := by
  obtain ⟨front, back, rfl⟩ := List.append_of_mem hx
  set rest := front ++ back with hrest
  have hlen : k ≤ rest.length := by
    simp only [List.length_append, List.length_cons] at hk hrest ⊢
    rw [hrest, List.length_append]
    omega
  refine ⟨rest.take k ++ x :: rest.drop k, ?_, ?_⟩
  · apply List.perm_middle.trans
    rw [List.take_append_drop]
    exact List.perm_middle.symm
  · rw [List.getElem?_append_right (List.length_take_le k rest), List.length_take, min_eq_left hlen, Nat.sub_self]
    rfl

/-- `x` is in place `k` of the sorted list. -/
def Ranked (le : α → α → Prop) (xs : List α) (k : ℕ) (x : α) : Prop :=
  ∃ sorted : List α, sorted.Perm xs ∧ sorted.Pairwise le ∧ 1 ≤ k ∧ sorted[k - 1]? = some x

lemma Ranked.mem (h : Ranked le xs k x) : x ∈ xs := by
  obtain ⟨sorted, hperm, -, -, hx⟩ := h
  exact hperm.subset (List.mem_of_getElem? hx)

/-- A greater rank has a greater element. -/
lemma Ranked.mono [IsLinearOrder α le] (hx : Ranked le xs k x) (hy : Ranked le xs l y) (h : k ≤ l) : le x y := by
  obtain ⟨sorted, hperm, hsorted, hk, hx⟩ := hx
  obtain ⟨sorted', hperm', hsorted', -, hy⟩ := hy
  obtain rfl : sorted = sorted' := (hperm.trans hperm'.symm).eq_of_pairwise' hsorted hsorted'
  obtain ⟨hlx, rfl⟩ := List.getElem?_eq_some_iff.1 hx
  obtain ⟨hly, rfl⟩ := List.getElem?_eq_some_iff.1 hy
  rcases Nat.eq_or_lt_of_le h with rfl | hlt
  · exact refl_of le _
  · exact List.pairwise_iff_getElem.1 hsorted _ _ hlx hly (by omega)

end Ranking
