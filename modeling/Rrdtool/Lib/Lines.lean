import Mathlib.Tactic

/-!
# Lists cut at a separator

A list cut behind every separator (`lines`), and the pieces put together again, each with a separator
behind it (`terminated`). The two are inverse to each other on the lists that end with a separator.

A list that arrives in parts is cut as it comes: the pieces that a separator ends (`ended`) and what is behind the last
of them (`unfinished`), to which the next part is added (`ended_append`, `unfinished_append`).
-/

namespace Lines

variable {α : Type*} [DecidableEq α] {sep : α}

/-- The pieces of a list; one that no separator ends is the last of them. -/
@[grind] def lines (sep : α) : List α → List (List α)
  | [] => []
  | a :: l =>
    if a = sep then [] :: lines sep l
    else match lines sep l with
      | [] => [[a]]
      | piece :: pieces => (a :: piece) :: pieces

/-- The pieces, each with a separator behind it. -/
@[grind] def terminated (sep : α) (pieces : List (List α)) : List α :=
  pieces.flatMap fun piece => piece ++ [sep]

/-- There is nothing behind the last separator. -/
@[grind] def Complete (sep : α) (l : List α) : Prop := l.getLast?.all (· = sep)

instance (l : List α) : Decidable (Complete sep l) := inferInstanceAs (Decidable (_ = true))

lemma complete_tail {a : α} {l : List α} (h : Complete sep (a :: l)) : Complete sep l := by
  cases l with
  | nil => rfl
  | cons b l => rwa [Complete, List.getLast?_cons_cons] at h

lemma not_mem_of_mem_lines {l piece : List α} (h : piece ∈ lines sep l) : sep ∉ piece := by
  induction l generalizing piece with
  | nil => cases h
  | cons a l ih =>
    rw [lines] at h
    split at h
    · obtain rfl | h := List.mem_cons.1 h
      · exact List.not_mem_nil
      · exact ih h
    · rename_i ha
      split at h
      · obtain rfl := List.mem_singleton.1 h
        simpa using Ne.symm ha
      · rename_i first pieces hl
        obtain rfl | h := List.mem_cons.1 h
        · have := ih (hl ▸ List.mem_cons_self : first ∈ lines sep l)
          simp [Ne.symm ha, this]
        · exact ih (hl ▸ List.mem_cons_of_mem first h)

/-- The pieces put together again. -/
lemma terminated_lines {l : List α} (h : Complete sep l) : terminated sep (lines sep l) = l := by
  induction l with
  | nil => rfl
  | cons a l ih =>
    have ih := ih (complete_tail h)
    rw [lines]
    split
    · rename_i ha
      rw [ha]
      exact congrArg (sep :: ·) ih
    · rename_i ha
      split
      · rename_i hl
        -- the last element is a separator
        rw [hl] at ih
        have hnil : l = [] := ih.symm
        subst hnil
        exact absurd (by simpa [Complete] using h) ha
      · rename_i piece pieces hl
        rw [hl] at ih
        exact congrArg (a :: ·) ih

lemma count_terminated {pieces : List (List α)} (h : ∀ piece ∈ pieces, sep ∉ piece) :
    (terminated sep pieces).count sep = pieces.length := by
  induction pieces with
  | nil => rfl
  | cons piece pieces ih =>
    have hpiece := List.count_eq_zero.2 (h piece List.mem_cons_self)
    have ih := ih fun q hq => h q (List.mem_cons_of_mem piece hq)
    rw [terminated] at ih ⊢
    simp only [List.flatMap_cons, List.count_append, hpiece, List.count_singleton_self, ih,
      List.length_cons]
    omega

/-- A complete list has as many pieces as separators. -/
lemma length_lines {l : List α} (h : Complete sep l) : (lines sep l).length = l.count sep := by
  rw [← count_terminated fun _ => not_mem_of_mem_lines, terminated_lines h]

lemma lines_cons_sep (piece l : List α) (h : sep ∉ piece) :
    lines sep (piece ++ sep :: l) = piece :: lines sep l := by
  induction piece with
  | nil => simp [lines]
  | cons a piece ih =>
    have ha : a ≠ sep := fun heq => h (heq ▸ List.mem_cons_self)
    rw [List.cons_append, lines, if_neg ha, ih fun hmem => h (List.mem_cons_of_mem a hmem)]

/-- The pieces are found again. -/
lemma lines_terminated {pieces : List (List α)} (h : ∀ piece ∈ pieces, sep ∉ piece) :
    lines sep (terminated sep pieces) = pieces := by
  induction pieces with
  | nil => rfl
  | cons piece pieces ih =>
    have hcons : terminated sep (piece :: pieces) = piece ++ sep :: terminated sep pieces := by
      simp [terminated]
    rw [hcons, lines_cons_sep _ _ (h piece List.mem_cons_self),
      ih fun q hq => h q (List.mem_cons_of_mem piece hq)]

lemma complete_terminated (pieces : List (List α)) :
    Complete sep (terminated sep pieces) := by
  cases pieces using List.reverseRecOn with
  | nil => rfl
  | append_singleton pieces piece => simp [Complete, terminated]

omit [DecidableEq α] in
/-- A text that is printed in parts, line by line. -/
lemma flatten_groups {groups : List (List (List α))} {pieces : List (List α)}
    (h : List.Forall₂ (fun group piece => group.flatten = piece ++ [sep]) groups pieces) :
    groups.flatten.flatten = terminated sep pieces := by
  induction h with
  | nil => rfl
  | cons hgroup _ ih =>
    rw [List.flatten_cons, List.flatten_append, hgroup, ih]
    rfl

omit [DecidableEq α] in
/-- No part is longer than its line. -/
lemma length_le_of_groups {groups : List (List (List α))} {pieces : List (List α)} {n : ℕ}
    (h : List.Forall₂ (fun group piece => group.flatten = piece ++ [sep]) groups pieces)
    (hn : ∀ piece ∈ pieces, piece.length + 1 < n) : ∀ part ∈ groups.flatten, part.length < n := by
  induction h with
  | nil => exact fun part hpart => absurd hpart List.not_mem_nil
  | @cons group piece groups pieces hgroup _ ih =>
    intro part hpart
    obtain hpart | hpart := List.mem_append.1 hpart
    · have hle : part.length ≤ group.flatten.length := (List.sublist_flatten_of_mem hpart).length_le
      rw [hgroup, List.length_append, List.length_singleton] at hle
      exact lt_of_le_of_lt hle (hn piece List.mem_cons_self)
    · exact ih (fun q hq => hn q (List.mem_cons_of_mem piece hq)) part hpart

/-! ### Lists that arrive in parts -/

/-- The pieces that a separator ends. -/
@[grind] def ended (sep : α) (l : List α) : List (List α) := (l.splitOn sep).dropLast

/-- What is behind the last separator. -/
@[grind] def unfinished (sep : α) (l : List α) : List α := (l.splitOn sep).getLastD []

/-- A list has no separator, or a first piece that one ends. -/
@[elab_as_elim]
lemma piece_induction {motive : List α → Prop} (last : ∀ l, sep ∉ l → motive l)
    (piece : ∀ p l, sep ∉ p → motive l → motive (p ++ sep :: l)) (l : List α) : motive l := by
  induction hn : l.length using Nat.strong_induction_on generalizing l with
  | _ n ih =>
    by_cases hmem : sep ∈ l
    · obtain ⟨p, rest, rfl, hp⟩ := List.eq_append_cons_of_mem hmem
      refine piece p rest hp (ih rest.length ?_ rest rfl)
      rw [← hn, List.length_append, List.length_cons]
      omega
    · exact last l hmem

variable {l p : List α}

lemma ended_of_not_mem (h : sep ∉ l) : ended sep l = [] := by
  rw [ended, List.splitOn_eq_singleton h, List.dropLast_singleton]

lemma unfinished_of_not_mem (h : sep ∉ l) : unfinished sep l = l := by
  rw [unfinished, List.splitOn_eq_singleton h]
  rfl

lemma ended_cons (h : sep ∉ p) (l : List α) : ended sep (p ++ sep :: l) = p :: ended sep l := by
  rw [ended, List.splitOn_append_cons_self, List.splitOn_eq_singleton h, List.singleton_append,
    List.dropLast_cons_of_ne_nil (List.splitOn_ne_nil _ _), ended]

lemma unfinished_cons (h : sep ∉ p) (l : List α) : unfinished sep (p ++ sep :: l) = unfinished sep l := by
  rw [unfinished, List.splitOn_append_cons_self, List.splitOn_eq_singleton h, List.singleton_append, unfinished]
  obtain ⟨q, pieces, hq⟩ := List.exists_cons_of_ne_nil (List.splitOn_ne_nil sep l)
  rw [hq]
  rfl

lemma not_mem_unfinished (l : List α) : sep ∉ unfinished sep l := by
  induction l using piece_induction with
  | last l h => rwa [unfinished_of_not_mem h]
  | piece p l h ih => rwa [unfinished_cons h]

/-- What is added to a list only touches its unfinished piece. -/
theorem ended_append (l m : List α) : ended sep (l ++ m) = ended sep l ++ ended sep (unfinished sep l ++ m) := by
  induction l using piece_induction with
  | last l h => rw [ended_of_not_mem h, unfinished_of_not_mem h, List.nil_append]
  | piece p l h ih =>
    rw [List.append_assoc, List.cons_append, ended_cons h, ended_cons h, unfinished_cons h, ih, List.cons_append]

theorem unfinished_append (l m : List α) : unfinished sep (l ++ m) = unfinished sep (unfinished sep l ++ m) := by
  induction l using piece_induction with
  | last l h => rw [unfinished_of_not_mem h]
  | piece p l h ih => rw [List.append_assoc, List.cons_append, unfinished_cons h, unfinished_cons h, ih]

end Lines
