import Mathlib.Tactic

/-!
# Groups of a run-length coded list

`expand` writes a list of values with counts out in full, and `groups n l` splits a list into its
consecutive full groups of `n`, without the incomplete one at the end. The rules take a full group
off the front (`groups_append`), any number of groups of equal values (`groups_replicate`), and stop
at an incomplete one (`groups_of_lt`).
-/

namespace Groups

variable {α : Type*}

/-- The values, each as often as its count says. -/
@[grind] def expand (us : List (α × ℕ)) : List α :=
  us.flatMap fun u => List.replicate u.2 u.1

/-- The same values, one at a time. -/
def singles (us : List (α × ℕ)) : List (α × ℕ) :=
  (expand us).map fun x => (x, 1)

@[simp] lemma expand_nil : expand ([] : List (α × ℕ)) = [] := rfl

@[simp] lemma expand_cons (u : α × ℕ) (us : List (α × ℕ)) :
    expand (u :: us) = List.replicate u.2 u.1 ++ expand us := by
  simp [expand]

@[simp] lemma expand_append (us vs : List (α × ℕ)) : expand (us ++ vs) = expand us ++ expand vs := by
  simp [expand]

lemma expand_singles (us : List (α × ℕ)) : expand (singles us) = expand us := by
  simp [singles, expand, List.flatMap_map]

lemma mem_expand {us : List (α × ℕ)} (h : ∀ u ∈ us, 1 ≤ u.2) {x : α} :
    x ∈ expand us ↔ x ∈ us.map Prod.fst := by
  simp only [expand, List.mem_flatMap, List.mem_replicate, List.mem_map]
  constructor
  · rintro ⟨u, hu, -, rfl⟩
    exact ⟨u, hu, rfl⟩
  · rintro ⟨u, hu, rfl⟩
    exact ⟨u, hu, Nat.one_le_iff_ne_zero.1 (h u hu), rfl⟩

/-- The full groups of `n` consecutive entries. -/
@[grind] def groups (n : ℕ) (l : List α) : List (List α) :=
  (List.range (l.length / n)).map fun i => (l.drop (i * n)).take n

lemma groups_of_lt {n : ℕ} {l : List α} (h : l.length < n) : groups n l = [] := by
  simp [groups, Nat.div_eq_of_lt h]

lemma groups_append {n : ℕ} (hn : 0 < n) {g : List α} (hg : g.length = n) (l : List α) :
    groups n (g ++ l) = g :: groups n l := by
  have hlen : (g ++ l).length / n = l.length / n + 1 := by
    rw [List.length_append, hg, Nat.add_comm, Nat.add_div_right _ hn]
  unfold groups
  rw [hlen, List.range_succ_eq_map, List.map_cons, List.map_map]
  congr 1
  · simp [← hg]
  · refine List.map_congr_left fun i _ => ?_
    simp only [Function.comp]
    rw [show (i.succ) * n = g.length + i * n by rw [hg, Nat.succ_mul]; omega,
      List.drop_length_add_append]

lemma groups_replicate {n : ℕ} (hn : 0 < n) (x : α) (k : ℕ) (l : List α) :
    groups n (List.replicate (k * n) x ++ l) =
      List.replicate k (List.replicate n x) ++ groups n l := by
  induction k with
  | zero => simp
  | succ k ih =>
    rw [Nat.succ_mul, Nat.add_comm, List.replicate_add, List.append_assoc,
      groups_append hn (by simp), ih, List.replicate_succ, List.cons_append]

end Groups
