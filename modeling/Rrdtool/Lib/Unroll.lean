import Mathlib.Tactic

/-!
# A ring of rows from the newest to the oldest

A ring is a list with the place of its current row; the rows before that place were written before it, and those
behind it are the oldest ones. `newestFirst` lists the rows by age (`getElem?_newestFirst`). Rows that are put in
behind the current one are older than all others (`newestFirst_insert`), and rows that are taken out there, or at the
beginning when none is left, are the oldest ones (`newestFirst_remove`, `newestFirst_remove_wrapped`).
-/

namespace Unroll

variable {α : Type*} {rows : List α} {cur n k : ℕ}

/-- The rows by age. -/
@[grind] def newestFirst (rows : List α) (cur : ℕ) : List α := (rows.take (cur + 1)).reverse ++ (rows.drop (cur + 1)).reverse

lemma length_newestFirst (rows : List α) (cur : ℕ) : (newestFirst rows cur).length = rows.length := by
  rw [newestFirst, List.length_append, List.length_reverse, List.length_reverse, ← List.length_append,
    List.take_append_drop]

/-- The row of an age. -/
lemma getElem?_newestFirst (hcur : cur < rows.length) (hk : k < rows.length) :
    (newestFirst rows cur)[k]? = rows[(cur + rows.length - k) % rows.length]? := by
  have htake : (rows.take (cur + 1)).reverse.length = cur + 1 := by
    rw [List.length_reverse, List.length_take, min_eq_left hcur]
  obtain hle | hgt := Nat.lt_or_ge k (cur + 1)
  · have hmod : (cur + rows.length - k) % rows.length = cur - k := by
      rw [show cur + rows.length - k = cur - k + rows.length by omega, Nat.add_mod_right, Nat.mod_eq_of_lt (by omega)]
    rw [newestFirst, List.getElem?_append_left (htake.symm ▸ hle), List.getElem?_reverse (by rw [List.length_take]; omega),
      List.length_take, min_eq_left hcur, hmod, List.getElem?_take_of_lt (by omega)]
    congr 1
  · have hmod : (cur + rows.length - k) % rows.length = cur + rows.length - k := Nat.mod_eq_of_lt (by omega)
    rw [newestFirst, List.getElem?_append_right (htake.symm ▸ hgt), htake, hmod,
      List.getElem?_reverse (by rw [List.length_drop]; omega), List.length_drop, List.getElem?_drop]
    congr 1
    omega

/-- Rows behind the current one are the oldest. -/
lemma newestFirst_insert (hcur : cur < rows.length) (fresh : List α) :
    newestFirst (rows.take (cur + 1) ++ fresh ++ rows.drop (cur + 1)) cur = newestFirst rows cur ++ fresh.reverse := by
  have htake : (rows.take (cur + 1)).length = cur + 1 := by rw [List.length_take, min_eq_left hcur]
  rw [newestFirst, List.append_assoc, List.take_append_of_le_length htake.ge, List.take_of_length_le htake.le,
    List.drop_append_of_le_length htake.ge, List.drop_of_length_le htake.le, List.nil_append, List.reverse_append,
    newestFirst, List.append_assoc]

/-- The oldest rows are taken out behind the current one. -/
lemma newestFirst_remove (hn : cur + 1 + n ≤ rows.length) :
    newestFirst (rows.take (cur + 1) ++ rows.drop (cur + 1 + n)) cur = (newestFirst rows cur).take (rows.length - n) := by
  have htake : (rows.take (cur + 1)).length = cur + 1 := by rw [List.length_take, min_eq_left (by omega)]
  have hdrop : (rows.drop (cur + 1)).reverse.take (rows.length - n - (cur + 1)) = (rows.drop (cur + 1 + n)).reverse := by
    rw [List.take_reverse, List.length_drop, List.drop_drop]
    congr 2
    omega
  rw [newestFirst, List.take_append_of_le_length htake.ge, List.take_of_length_le htake.le,
    List.drop_append_of_le_length htake.ge, List.drop_of_length_le htake.le, List.nil_append, newestFirst,
    List.take_append, List.length_reverse, htake, hdrop,
    List.take_of_length_le (show (rows.take (cur + 1)).reverse.length ≤ rows.length - n by rw [List.length_reverse]; omega)]

/-- When no row is left behind the current one, the oldest rows are the first ones. -/
lemma newestFirst_remove_wrapped (hcur : cur < rows.length) (hn : n ≤ cur) :
    newestFirst ((rows.take (cur + 1)).drop n) (cur - n) = (newestFirst rows cur).take (cur + 1 - n) := by
  have hlen : ((rows.take (cur + 1)).drop n).length = cur - n + 1 := by
    rw [List.length_drop, List.length_take, min_eq_left hcur]
    omega
  rw [newestFirst, List.take_of_length_le hlen.le, List.drop_of_length_le hlen.le, List.reverse_nil, List.append_nil,
    newestFirst, List.take_append_of_le_length (by rw [List.length_reverse, List.length_take]; omega), List.take_reverse,
    List.length_take, min_eq_left hcur]
  congr 2
  omega

/-- Taking out the `n` oldest rows: the rows that are left, and the place of the current one. -/
@[grind] def shrink (rows : List α) (cur n : ℕ) : List α × ℕ :=
  if cur + n < rows.length then (rows.take (cur + 1) ++ rows.drop (cur + 1 + n), cur)
  else ((rows.take (cur + 1)).drop (cur + 1 + n - rows.length), cur - (cur + 1 + n - rows.length))

lemma newestFirst_shrink (hcur : cur < rows.length) (hn : n < rows.length) :
    newestFirst (shrink rows cur n).1 (shrink rows cur n).2 = (newestFirst rows cur).take (rows.length - n) := by
  rw [shrink]
  split_ifs with hroom
  · exact newestFirst_remove (by omega)
  · rw [newestFirst_remove_wrapped hcur (by omega)]
    congr 1
    omega

lemma length_shrink (hcur : cur < rows.length) (hn : n < rows.length) : (shrink rows cur n).1.length = rows.length - n := by
  rw [shrink]
  split_ifs with hroom
  · simp only [List.length_append, List.length_take, List.length_drop]
    omega
  · simp only [List.length_take, List.length_drop]
    omega

lemma shrink_cur_lt (cur : ℕ) (hn : n < rows.length) : (shrink rows cur n).2 < rows.length - n := by
  rw [shrink]
  split_ifs with hroom <;> dsimp only <;> omega

lemma shrink_map {β : Type*} (f : α → β) (rows : List α) (cur n : ℕ) :
    shrink (rows.map f) cur n = ((shrink rows cur n).1.map f, (shrink rows cur n).2) := by
  rw [shrink, shrink, List.length_map]
  split_ifs with hroom
  · rw [List.map_append, List.map_take, List.map_drop]
  · rw [List.map_drop, List.map_take]

lemma mem_of_mem_shrink {row : α} (h : row ∈ (shrink rows cur n).1) : row ∈ rows := by
  rw [shrink] at h
  split_ifs at h with hroom
  · exact (List.mem_append.1 h).elim List.mem_of_mem_take List.mem_of_mem_drop
  · exact List.mem_of_mem_take (List.mem_of_mem_drop h)

end Unroll
