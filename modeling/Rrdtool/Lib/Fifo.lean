import Mathlib.Logic.Function.Basic
import Mathlib.Tactic

/-!
# Queues in a ring of cells

A first-in first-out queue in `capacity` cells: `tail` is the cell that is written next, `head` the one that
is read next. Neither operation looks at the other end, so a push onto a full queue and a pop from an empty
one go unnoticed; `size` counts the elements for the proofs only.

`Holds q l` says that `q` holds the elements of `l`, oldest first. `new_holds`, `Holds.push` and `Holds.pop` are
the rules.
-/

/-- A queue with its next cells to be read and written. -/
structure Fifo (α : Type*) where
  capacity : ℕ
  head : ℕ
  tail : ℕ
  size : ℕ
  slot : ℕ → α

namespace Fifo

variable {α : Type*}

/-- The empty queue; what its cells hold is not looked at. -/
def new (capacity : ℕ) (slot : ℕ → α) : Fifo α := ⟨capacity, capacity, 0, 0, slot⟩

@[grind] def push (q : Fifo α) (x : α) : Fifo α :=
  { q with
    slot := Function.update q.slot q.tail x
    tail := (q.tail + 1) % q.capacity
    size := q.size + 1 }

def pop (q : Fifo α) : α × Fifo α :=
  let head := q.head % q.capacity
  (q.slot head, { q with head := head + 1, size := q.size - 1 })

/-- The queue holds the elements of the list, oldest first. -/
structure Holds (q : Fifo α) (l : List α) : Prop where
  pos : 0 < q.capacity
  size : q.size = l.length
  le : l.length ≤ q.capacity
  tail : q.tail = (q.head + l.length) % q.capacity
  slot : ∀ i x, l[i]? = some x → q.slot ((q.head + i) % q.capacity) = x

lemma new_holds {capacity : ℕ} (h : 0 < capacity) (slot : ℕ → α) : (new capacity slot).Holds [] := by
  refine ⟨h, rfl, Nat.zero_le _, ?_, fun i x hx => by cases hx⟩
  simp [new]

@[simp] lemma push_capacity (q : Fifo α) (x : α) : (q.push x).capacity = q.capacity := rfl
@[simp] lemma pop_capacity (q : Fifo α) : q.pop.2.capacity = q.capacity := rfl

/-- Two places of a ring that are less than a turn apart are different. -/
lemma place_ne {capacity h i j : ℕ} (hij : i < j) (hj : j < i + capacity) :
    (h + i) % capacity ≠ (h + j) % capacity := by
  intro heq
  have hdvd := (Nat.modEq_iff_dvd' (by omega : h + i ≤ h + j)).1 heq
  have hle := Nat.le_of_dvd (by omega) hdvd
  omega

lemma Holds.push {q : Fifo α} {l : List α} (h : q.Holds l) (hlt : l.length < q.capacity) (x : α) :
    (q.push x).Holds (l ++ [x]) := by
  refine ⟨h.pos, ?_, ?_, ?_, fun i y hy => ?_⟩
  · simp [Fifo.push, h.size]
  · simpa using hlt
  · show (q.tail + 1) % q.capacity = (q.head + (l ++ [x]).length) % q.capacity
    rw [h.tail, Nat.mod_add_mod, List.length_append, List.length_singleton, ← Nat.add_assoc]
  · show Function.update q.slot q.tail x ((q.head + i) % q.capacity) = y
    obtain hi | hi := Nat.lt_or_ge i l.length
    · rw [List.getElem?_append_left hi] at hy
      rw [h.tail, Function.update_of_ne (place_ne hi (by omega))]
      exact h.slot i y hy
    · have hlast : i = l.length := by
        have := (List.getElem?_eq_some_iff.1 hy).1
        simp at this
        omega
      subst hlast
      rw [List.getElem?_concat_length] at hy
      rw [h.tail, Function.update_self]
      exact Option.some.inj hy

lemma Holds.pop {q : Fifo α} {x : α} {l : List α} (h : q.Holds (x :: l)) : q.pop.1 = x ∧ q.pop.2.Holds l := by
  have hshift : ∀ i, (q.head % q.capacity + 1 + i) % q.capacity = (q.head + (i + 1)) % q.capacity := by
    intro i
    rw [Nat.add_assoc, Nat.mod_add_mod, Nat.add_comm 1 i]
  refine ⟨h.slot 0 x rfl, h.pos, ?_, ?_, ?_, fun i y hy => ?_⟩
  · simp [Fifo.pop, h.size]
  · have := h.le
    simp only [List.length_cons] at this
    exact (Nat.le_succ _).trans this
  · exact h.tail.trans (hshift l.length).symm
  · show q.slot ((q.head % q.capacity + 1 + i) % q.capacity) = y
    rw [hshift]
    exact h.slot (i + 1) y hy

end Fifo
