import Mathlib.Tactic

/-!
# Lists laid out behind each other

Where the elements of a list of lists stand in the one list that they make up: a block starts behind the blocks
before it (`getElem?_flatten_block`), and rows of one width stand at multiples of it (`getElem?_flatten_row`,
`take_flatten`, `drop_flatten`). Blocks of known lengths can be told from the list (`flatMap_eq_iff`).
-/

namespace Blocks

variable {α : Type*}

/-- The length of the first blocks. -/
@[grind] def before (blocks : List (List α)) (n : ℕ) : ℕ := ((blocks.take n).map List.length).sum

lemma getElem?_flatten_block {blocks : List (List α)} {n i : ℕ} {block : List α} (hb : blocks[n]? = some block)
    (hi : i < block.length) : blocks.flatten[before blocks n + i]? = block[i]? := by
  obtain ⟨hn, rfl⟩ := List.getElem?_eq_some_iff.1 hb
  have hsplit : blocks = blocks.take n ++ blocks[n] :: blocks.drop (n + 1) := by
    rw [List.getElem_cons_drop, List.take_append_drop]
  have hlen : (blocks.take n).flatten.length = before blocks n := List.length_flatten
  conv_lhs => rw [hsplit]
  rw [List.flatten_append, List.flatten_cons, ← hsplit, List.getElem?_append_right (hlen ▸ Nat.le_add_right _ _), hlen,
    Nat.add_sub_cancel_left, List.getElem?_append_left hi]

lemma getElem?_flatten_row {rows : List (List α)} {w i c : ℕ} {row : List α} (hw : ∀ row ∈ rows, row.length = w)
    (hrow : rows[i]? = some row) (hc : c < w) : rows.flatten[i * w + c]? = row[c]? := by
  have hmem : row ∈ rows := List.mem_of_getElem? hrow
  have hbefore : before rows i = i * w := by
    have hi : i ≤ rows.length := (List.getElem?_eq_some_iff.1 hrow).1.le
    rw [before, List.map_congr_left fun row hrow => hw row (List.mem_of_mem_take hrow), List.map_const',
      List.sum_replicate, smul_eq_mul, List.length_take_of_le hi]
  rw [← hbefore]
  exact getElem?_flatten_block hrow (by rwa [hw row hmem])

/-- The first rows, and the others, of one width. -/
lemma take_flatten {rows : List (List α)} {w : ℕ} (hw : ∀ row ∈ rows, row.length = w) (n : ℕ) :
    rows.flatten.take (n * w) = (rows.take n).flatten := by
  induction rows generalizing n with
  | nil => simp
  | cons row rows ih =>
    cases n with
    | zero => simp
    | succ n =>
      have hrow := hw row List.mem_cons_self
      rw [List.flatten_cons, List.take_succ_cons, List.flatten_cons, Nat.succ_mul, add_comm, ← hrow,
        List.take_length_add_append, hrow, ih fun r hr => hw r (List.mem_cons_of_mem row hr)]

lemma drop_flatten {rows : List (List α)} {w : ℕ} (hw : ∀ row ∈ rows, row.length = w) (n : ℕ) :
    rows.flatten.drop (n * w) = (rows.drop n).flatten := by
  induction rows generalizing n with
  | nil => simp
  | cons row rows ih =>
    cases n with
    | zero => simp
    | succ n =>
      have hrow := hw row List.mem_cons_self
      rw [List.flatten_cons, List.drop_succ_cons, Nat.succ_mul, add_comm, ← hrow, List.drop_length_add_append, hrow,
        ih fun r hr => hw r (List.mem_cons_of_mem row hr)]

lemma length_flatten {rows : List (List α)} {w : ℕ} (hw : ∀ row ∈ rows, row.length = w) :
    rows.flatten.length = rows.length * w := by
  rw [List.length_flatten, List.map_congr_left fun row hrow => hw row hrow, List.map_const', List.sum_replicate,
    smul_eq_mul]

/-- A range of places, by rows. -/
lemma map_range_mul {β : Type*} (f : ℕ → β) (n w : ℕ) :
    (List.range (n * w)).map f = ((List.range n).map fun i => (List.range w).map fun c => f (i * w + c)).flatten := by
  induction n with
  | zero => simp
  | succ n ih =>
    rw [Nat.succ_mul, List.range_add, List.map_append, ih, List.range_succ, List.map_append, List.flatten_append,
      List.map_map]
    simp [Function.comp_def]

/-- Blocks of the same lengths make up the same list exactly if they are the same. -/
lemma flatMap_eq_iff {β : Type*} {f g : α → List β} {l : List α}
    (hlen : ∀ a ∈ l, (f a).length = (g a).length) :
    l.flatMap f = l.flatMap g ↔ ∀ a ∈ l, f a = g a := by
  induction l with
  | nil => exact iff_of_true rfl nofun
  | cons a l ih =>
    have htail : ∀ b ∈ l, (f b).length = (g b).length := fun b hb => hlen b (List.mem_cons_of_mem a hb)
    rw [List.flatMap_cons, List.flatMap_cons, List.forall_mem_cons, ← ih htail]
    constructor
    · exact fun h => List.append_inj h (hlen a List.mem_cons_self)
    · rintro ⟨ha, hl⟩
      rw [ha, hl]

end Blocks
