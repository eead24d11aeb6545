import Rrdtool.Lib.Checked

/-!
# Arrays that are filled from the front

The cells of an array hold nothing at first. A store behind the end of the array goes wrong, and so does a load there or
of a cell that holds nothing. `filled n as` is the array of `n` cells whose first ones hold the elements of `as`: one more
can be stored exactly if there is room (`store_filled`, `store_filled_full`), and the first `k` can be loaded exactly if
there are so many (`loadFirst_filled`, `loadFirst_unfilled`).
-/

namespace Slots

open Checked

universe u

/-- What goes wrong with a cell. -/
inductive SlotFault where
  | outside (i : ℕ)
  | unfilled (i : ℕ)
deriving DecidableEq

variable {ε : Type*} {α : Type u}

/-- An array of `n` cells. -/
def new (n : ℕ) : List (Option α) := List.replicate n none

/-- Stores in the cell `i`. -/
@[grind] def store (cells : List (Option α)) (i : ℕ) (a : α) : Except (Stop ε SlotFault) (List (Option α)) :=
  if i < cells.length then .ok (cells.set i (some a)) else .error (.fault (.outside i))

/-- What the cell `i` holds. -/
@[grind] def load (cells : List (Option α)) (i : ℕ) : Except (Stop ε SlotFault) α :=
  match cells[i]? with
  | none => .error (.fault (.outside i))
  | some none => .error (.fault (.unfilled i))
  | some (some a) => .ok a

/-- What the first `k` cells hold. -/
@[grind] def loadFirst (cells : List (Option α)) : ℕ → Except (Stop ε SlotFault) (List α)
  | 0 => .ok []
  | k + 1 => do
    let as ← loadFirst cells k
    let a ← load cells k
    return as ++ [a]

/-- The array of `n` cells whose first ones hold `as`. -/
@[grind] def filled (n : ℕ) (as : List α) : List (Option α) := as.map some ++ List.replicate (n - as.length) none

variable {n k : ℕ} {as : List α}

lemma new_eq_filled (n : ℕ) : new n = filled n ([] : List α) := rfl

lemma filled_length (h : as.length ≤ n) : (filled n as).length = n := by
  rw [filled, List.length_append, List.length_map, List.length_replicate]
  exact Nat.add_sub_cancel' h

lemma store_filled (h : as.length < n) (a : α) :
    (store (filled n as) as.length a : Except (Stop ε SlotFault) _) = .ok (filled n (as ++ [a])) := by
  obtain ⟨m, hm⟩ : ∃ m, n - as.length = m + 1 := ⟨n - as.length - 1, by omega⟩
  have hlater : n - (as ++ [a]).length = m := by
    rw [List.length_append, List.length_singleton]
    omega
  rw [store, filled_length h.le, if_pos h]
  congr 1
  rw [filled, filled, hm, hlater, List.set_append_right _ _ (by simp)]
  simp [List.replicate_succ]

lemma store_filled_full (h : as.length = n) (a : α) :
    (store (filled n as) as.length a : Except (Stop ε SlotFault) _) = .error (.fault (.outside n)) := by
  rw [store, filled_length h.le, if_neg (not_lt.2 h.ge), h]

lemma load_filled (h : k < as.length) : (load (filled n as) k : Except (Stop ε SlotFault) α) = .ok as[k] := by
  have hcell : (filled n as)[k]? = some (some as[k]) := by
    rw [filled, List.getElem?_append_left (by simpa using h), List.getElem?_map, List.getElem?_eq_getElem h]
    rfl
  rw [load, hcell]

lemma loadFirst_filled (h : k ≤ as.length) :
    (loadFirst (filled n as) k : Except (Stop ε SlotFault) _) = .ok (as.take k) := by
  induction k with
  | zero => rfl
  | succ k ih =>
    have hfront := ih (Nat.le_of_succ_le h)
    have hcell : (load (filled n as) k : Except (Stop ε SlotFault) α) = .ok as[k] := load_filled h
    rw [loadFirst, hfront, ok_bind, hcell, ok_bind, List.take_succ_eq_append_getElem h]
    rfl

/-- A cell that is not filled is found. -/
lemma loadFirst_unfilled (hk : as.length < k) (hn : as.length < n) :
    (loadFirst (filled n as) k : Except (Stop ε SlotFault) _) = .error (.fault (.unfilled as.length)) := by
  induction k with
  | zero => contradiction
  | succ k ih =>
    obtain hlt | heq := Nat.lt_succ_iff_lt_or_eq.1 hk
    · rw [loadFirst, ih hlt]
      rfl
    · have hcell : (filled n as)[k]? = some none := by
        rw [← heq, filled, List.getElem?_append_right (by simp), List.length_map, Nat.sub_self]
        exact List.getElem?_replicate_of_lt (Nat.sub_pos_of_lt hn)
      rw [loadFirst, ← heq, loadFirst_filled le_rfl, ok_bind, load, heq, hcell]
      rfl

end Slots
