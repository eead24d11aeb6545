import Rrdtool.Lib.Checked

/-!
# Results written over their own input

A program that writes its results one after the other into the array that it still reads from. `put` is the array with
some cells replaced. `fill` computes each cell from the array as it is then, and `fill_eq` is its rule: the results are
`w` if each one can be computed while the cells before it already hold theirs.
-/

namespace InPlace

open Checked

universe u

variable {ε φ : Type*} {α : Type u}

/-- The array with `w` in the `n` cells from `dst` on. -/
@[grind] def put (mem : ℕ → α) (dst n : ℕ) (w : ℕ → α) : ℕ → α := fun p => if dst ≤ p ∧ p < dst + n then w (p - dst) else mem p

section Put

variable {mem : ℕ → α} {dst n m p : ℕ} {w w' : ℕ → α}

@[simp] lemma put_zero : put mem dst 0 w = mem := funext fun p => if_neg (by omega)

lemma put_inside (h : p < n) : put mem dst n w (dst + p) = w p := by
  rw [put, if_pos (by omega), Nat.add_sub_cancel_left]

lemma put_before (h : p < dst) : put mem dst n w p = mem p := if_neg (by omega)

lemma put_behind (h : dst + n ≤ p) : put mem dst n w p = mem p := if_neg (by omega)

lemma put_succ : Function.update (put mem dst n w) (dst + n) (w n) = put mem dst (n + 1) w := by
  funext p
  by_cases hp : p = dst + n
  · rw [hp, Function.update_self, put_inside (Nat.lt_succ_self n)]
  · rw [Function.update_of_ne hp, put, put]
    refine if_congr ⟨fun h => ⟨h.1, by omega⟩, fun h => ⟨h.1, by omega⟩⟩ rfl rfl

/-- Cells that are replaced behind those that have been. -/
lemma put_put (hw : ∀ p < n, w' p = w p) :
    put (put mem dst n w) (dst + n) m (fun p => w' (n + p)) = put mem dst (n + m) w' := by
  funext p
  obtain hbefore | hin := Nat.lt_or_ge p dst
  · rw [put_before (by omega), put_before hbefore, put_before hbefore]
  · obtain ⟨q, rfl⟩ := Nat.exists_eq_add_of_le hin
    obtain hfirst | hlater := Nat.lt_or_ge q n
    · rw [put_before (by omega), put_inside hfirst, put_inside (by omega), hw q hfirst]
    · obtain ⟨r, rfl⟩ := Nat.exists_eq_add_of_le hlater
      obtain hr | hr := Nat.lt_or_ge r m
      · rw [← Nat.add_assoc, put_inside hr, Nat.add_assoc, put_inside (by omega)]
      · rw [put_behind (by omega), put_behind (by omega), put_behind (by omega)]

lemma put_congr (hw : ∀ p < n, w p = w' p) : put mem dst n w = put mem dst n w' := by
  funext p
  unfold put
  split
  · exact hw _ (by omega)
  · rfl

end Put

/-- The array, and the place of the next result. -/
structure Cursor (α : Type u) where
  mem : ℕ → α
  dst : ℕ

/-- Writes a result; there is no writing behind the array. -/
def emit (size : ℕ) (bad : ℕ → φ) (x : α) (c : Cursor α) : Except (Stop ε φ) (Cursor α) :=
  if c.dst < size then .ok ⟨Function.update c.mem c.dst x, c.dst + 1⟩ else .error (.fault (bad c.dst))

/-- The round `k` of a loop that writes one result in each. -/
def round (size : ℕ) (bad : ℕ → φ) (val : ℕ → (ℕ → α) → Except (Stop ε φ) α) (k : ℕ) (c : Cursor α) :
    Except (Stop ε φ) (Cursor α) := do
  let x ← val k c.mem
  emit size bad x c

/-- Writes `n` results, each computed from the array as it is then. -/
def fill (size : ℕ) (bad : ℕ → φ) (val : ℕ → (ℕ → α) → Except (Stop ε φ) α) (n : ℕ) (c : Cursor α) :
    Except (Stop ε φ) (Cursor α) :=
  steps (round size bad val) n c

variable {size n : ℕ} {bad : ℕ → φ} {val : ℕ → (ℕ → α) → Except (Stop ε φ) α} {c : Cursor α} {w : ℕ → α}

/-- The results are `w` if each can be computed from what the ones before it have left of the array. -/
theorem fill_eq (hroom : c.dst + n ≤ size) (hval : ∀ k < n, val k (put c.mem c.dst k w) = .ok (w k)) :
    fill size bad val n c = .ok ⟨put c.mem c.dst n w, c.dst + n⟩ := by
  unfold fill
  induction n with
  | zero => rw [steps, put_zero, Nat.add_zero]
  | succ n ih =>
    have hlt : c.dst + n < size := by omega
    rw [steps, ih (by omega) fun k hk => hval k (Nat.lt_succ_of_lt hk), ok_bind, round, hval n (Nat.lt_succ_self n), ok_bind,
      emit, if_pos hlt, put_succ, Nat.add_assoc]

end InPlace
