import Mathlib.Data.List.Induction
import Mathlib.Logic.Function.Basic
import Mathlib.Tactic

/-!
# Ring buffers

A ring of `cap` slots with a pointer `cur` to the newest one. `push` advances the pointer with
wrap-around and overwrites the slot it reaches; `skip` only advances. The contents are read by age:
`byAge cap r 0` is the newest slot, `byAge cap r (cap - 1)` the oldest. The two spec lemmas are
`byAge_push_zero` / `byAge_push_succ` for one push and `byAge_pushAll` for a list of pushes.
-/

/-- A ring: the newest position and the slots. -/
structure RingBuf (α : Type*) where
  cur : ℕ
  slot : ℕ → α

namespace RingBuf

variable {α : Type*} {cap : ℕ} {r : RingBuf α}

/-- The position after `cur`, with wrap-around. -/
@[grind] def next (cap cur : ℕ) : ℕ :=
  if cap ≤ cur + 1 then 0 else cur + 1

/-- Advance without writing. -/
def skip (cap : ℕ) (r : RingBuf α) : RingBuf α :=
  { r with cur := next cap r.cur }

/-- Advance and overwrite the slot that is reached. -/
@[grind] def push (cap : ℕ) (r : RingBuf α) (x : α) : RingBuf α :=
  { cur := next cap r.cur, slot := Function.update r.slot (next cap r.cur) x }

/-- The slot that was reached `k` advances ago. -/
@[grind] def byAge (cap : ℕ) (r : RingBuf α) (k : ℕ) : α :=
  r.slot ((r.cur + cap - k) % cap)

lemma next_lt (hc : 0 < cap) (c : ℕ) : next cap c < cap := by
  unfold next
  split <;> omega

lemma next_eq_mod {c : ℕ} (h : c < cap) : next cap c = (c + 1) % cap := by
  unfold next
  split
  · rw [show c + 1 = cap by omega, Nat.mod_self]
  · rw [Nat.mod_eq_of_lt (by omega)]

@[simp] lemma push_cur (cap : ℕ) (r : RingBuf α) (x : α) : (push cap r x).cur = next cap r.cur := rfl
@[simp] lemma skip_cur (cap : ℕ) (r : RingBuf α) : (skip cap r).cur = next cap r.cur := rfl

/-- The slot just written is the newest. -/
lemma byAge_push_zero (hc : 0 < cap) (x : α) : byAge cap (push cap r x) 0 = x := by
  have h := next_lt hc r.cur
  simp [byAge, push, Nat.mod_eq_of_lt h]

/-- Counted from the pointer, every slot is one further back after an advance. -/
lemma index_next {c k : ℕ} (h : c < cap) (hk : k + 1 < cap) :
    (next cap c + cap - (k + 1)) % cap = (c + cap - k) % cap := by
  unfold next
  split
  · rw [Nat.mod_eq_of_lt (by omega), show c + cap - k = cap - 1 - k + cap by omega,
      Nat.add_mod_right, Nat.mod_eq_of_lt (by omega)]
    omega
  · rw [show c + 1 + cap - (k + 1) = c + cap - k by omega]

/-- Every other slot gets older by one. -/
lemma byAge_push_succ (h : r.cur < cap) {k : ℕ} (hk : k + 1 < cap) (x : α) :
    byAge cap (push cap r x) (k + 1) = byAge cap r k := by
  have ne : (r.cur + cap - k) % cap ≠ next cap r.cur := by
    unfold next
    split
    · rw [show r.cur + cap - k = cap - 1 - k + cap by omega, Nat.add_mod_right,
        Nat.mod_eq_of_lt (by omega)]
      omega
    · rcases le_or_gt k r.cur with le | gt
      · rw [show r.cur + cap - k = r.cur - k + cap by omega, Nat.add_mod_right,
          Nat.mod_eq_of_lt (by omega)]
        omega
      · rw [Nat.mod_eq_of_lt (by omega)]
        omega
  simp only [byAge, push_cur, index_next h hk]
  exact Function.update_of_ne ne x r.slot

/-- Slots that are passed over get older all the same. -/
lemma byAge_skip_iterate (h : r.cur < cap) {n k : ℕ} (hn : n ≤ k) (hk : k < cap) :
    byAge cap ((skip cap)^[n] r) k = byAge cap r (k - n) := by
  induction n generalizing r with
  | zero => rfl
  | succ n ih =>
    rw [Function.iterate_succ_apply, ih (next_lt (by omega) r.cur) (by omega),
      show k - n = k - (n + 1) + 1 by omega]
    exact congrArg r.slot (index_next h (by omega))

/-- Push a list, oldest first. -/
@[grind] def pushAll (cap : ℕ) (r : RingBuf α) (xs : List α) : RingBuf α :=
  xs.foldl (push cap) r

lemma pushAll_append (xs ys : List α) :
    pushAll cap r (xs ++ ys) = pushAll cap (pushAll cap r xs) ys := by
  simp [pushAll]

lemma pushAll_cur_lt (h : r.cur < cap) (xs : List α) : (pushAll cap r xs).cur < cap := by
  induction xs generalizing r with
  | nil => exact h
  | cons x xs ih => exact ih (next_lt (by omega) r.cur)

/-- After pushing `xs`, the last pushed is the newest; what was there before is older by the number
of pushes. -/
lemma byAge_pushAll (h : r.cur < cap) (xs : List α) {k : ℕ} (hk : k < cap) :
    byAge cap (pushAll cap r xs) k =
      if hx : k < xs.length then xs[xs.length - 1 - k] else byAge cap r (k - xs.length) := by
  induction xs using List.reverseRecOn generalizing k with
  | nil => simp [pushAll]
  | append_singleton xs x ih =>
    rw [pushAll_append]
    show byAge cap (push cap (pushAll cap r xs) x) k = _
    have hcur := pushAll_cur_lt h xs
    cases k with
    | zero =>
      rw [byAge_push_zero (by omega)]
      simp
    | succ k =>
      rw [byAge_push_succ hcur hk, ih (by omega)]
      by_cases hx : k < xs.length
      · rw [dif_pos hx, dif_pos (by simpa using hx), List.getElem_append_left (by simp; omega)]
        congr 1
        simp
        omega
      · rw [dif_neg hx, dif_neg (by simpa using hx)]
        congr 1
        simp

end RingBuf
