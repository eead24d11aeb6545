import Mathlib.Tactic

/-!
# A window over a history

The last `w` entries of a history, newest first, kept in cells that are shifted when an entry arrives. A cell that has
not been filled counts as `fill`. `Window.Agrees` says that the first `w` cells hold the newest entries; it is kept by
`slide` (`Agrees.slide`), and then counting in the cells is counting in the history (`Agrees.count_eq`).
-/

namespace Window

variable {α : Type*} {fill v x : α} {w : ℕ} {cells history : List α}

/-- The first `w` cells hold the newest entries of the history. -/
def Agrees (fill : α) (w : ℕ) (cells history : List α) : Prop :=
  ∀ j < w, cells.getD j fill = history.getD j fill

/-- Shift the first `w` cells by one, and put `v` in front. -/
@[grind] def slide (w : ℕ) (v : α) (cells : List α) : List α :=
  v :: (cells.take (w - 1) ++ cells.drop (max w 1))

lemma slide_getD_succ {j : ℕ} (hj : j + 1 < w) : (slide w v cells).getD (j + 1) fill = cells.getD j fill := by
  have hmax : max w 1 = w := by omega
  rw [slide, List.getD_cons_succ, hmax, List.getD_eq_getElem?_getD, List.getD_eq_getElem?_getD]
  obtain hlt | hle := lt_or_ge j cells.length
  · rw [List.getElem?_append_left (by simp; omega), List.getElem?_take_of_lt (by omega)]
  · have hdrop : cells.drop w = [] := List.drop_eq_nil_of_le (by omega)
    have htake : cells.take (w - 1) = cells := List.take_of_length_le (by omega)
    rw [hdrop, htake, List.append_nil]

lemma Agrees.slide (h : Agrees fill w cells history) : Agrees fill w (slide w v cells) (v :: history) := by
  intro j hj
  cases j with
  | zero => rfl
  | succ j =>
    rw [slide_getD_succ hj, List.getD_cons_succ]
    exact h j (by omega)

/-- What is counted in the first entries, when unfilled ones do not count. -/
lemma count_take [DecidableEq α] (hx : x ≠ fill) (w : ℕ) (l : List α) :
    (l.take w).count x = ((List.range w).map fun j => l.getD j fill).count x := by
  induction w generalizing l with
  | zero => rfl
  | succ w ih =>
    rw [List.range_succ_eq_map, List.map_cons, List.map_map]
    cases l with
    | nil =>
      have hnil := ih ([] : List α)
      simp only [List.take_nil, List.count_nil] at hnil ⊢
      rw [List.count_cons_of_ne (by simpa using hx.symm)]
      exact hnil
    | cons a l =>
      rw [List.take_succ_cons, List.count_cons, List.count_cons, ih l]
      rfl

lemma Agrees.count_eq [DecidableEq α] (h : Agrees fill w cells history) (hx : x ≠ fill) :
    (cells.take w).count x = (history.take w).count x := by
  rw [count_take hx, count_take hx]
  congr 1
  exact List.map_congr_left fun j hj => h j (List.mem_range.1 hj)

end Window
