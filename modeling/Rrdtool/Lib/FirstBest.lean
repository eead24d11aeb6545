import Mathlib.Tactic

/-!
# The first best element of a list

A loop that keeps the best element seen so far and replaces it by a better one only (`pick`). What it
ends with is better than all elements before it, and not worse than those behind it
(`foldl_pick`).
-/

namespace FirstBest

variable {α : Type*} {better : α → α → Prop}

/-- One iteration: the element is kept when it is the first or better than the one kept. -/
@[grind] def pick (better : α → α → Prop) [DecidableRel better] : Option α → α → Option α
  | none, a => some a
  | some b, a => if better a b then some a else some b

/-- The place of the first best element. -/
structure Wins (better : α → α → Prop) (l : List α) (before : List α) (x : α) (behind : List α) :
    Prop where
  split : l = before ++ x :: behind
  beats : ∀ y ∈ before, better x y
  unbeaten : ∀ y ∈ behind, ¬ better y x

lemma foldl_pick_isSome [DecidableRel better] {l : List α} {b : α} : (l.foldl (pick better) (some b)).isSome := by
  induction l generalizing b with
  | nil => rfl
  | cons a l ih =>
    rw [List.foldl_cons, pick]
    split
    · exact ih
    · exact ih

/-- There is a best element unless the list is empty. -/
lemma foldl_pick_eq_none [DecidableRel better] {l : List α} : l.foldl (pick better) none = none ↔ l = [] := by
  cases l with
  | nil => simp
  | cons a l =>
    have hsome : (l.foldl (pick better) (some a)).isSome := foldl_pick_isSome
    simpa [pick] using Option.isSome_iff_ne_none.1 hsome

/-- The loop ends with the first best element. -/
lemma foldl_pick [DecidableRel better] (trans : ∀ {a b c}, better a b → better b c → better a c)
    (negtrans : ∀ {a b c}, better a b → ¬ better c b → better a c) {l : List α} {x : α}
    (h : l.foldl (pick better) none = some x) : ∃ before behind, Wins better l before x behind := by
  induction l using List.reverseRecOn generalizing x with
  | nil => cases h
  | append_singleton l a ih =>
    rw [List.foldl_append, List.foldl_cons, List.foldl_nil] at h
    cases hl : l.foldl (pick better) none with
    | none =>
      rw [hl] at h
      obtain rfl := Option.some.inj h
      rw [foldl_pick_eq_none.1 hl]
      exact ⟨[], [], rfl, fun y hy => absurd hy List.not_mem_nil, fun y hy => absurd hy List.not_mem_nil⟩
    | some b =>
      obtain ⟨before, behind, win⟩ := ih hl
      rw [hl, pick] at h
      split at h
      · rename_i hab
        obtain rfl := Option.some.inj h
        refine ⟨l, [], rfl, fun y hy => ?_, fun y hy => absurd hy List.not_mem_nil⟩
        rw [win.split] at hy
        obtain hy | hy := List.mem_append.1 hy
        · exact trans hab (win.beats y hy)
        · obtain rfl | hy := List.mem_cons.1 hy
          · exact hab
          · exact negtrans hab (win.unbeaten y hy)
      · rename_i hab
        obtain rfl := Option.some.inj h
        refine ⟨before, behind ++ [a], by rw [win.split]; simp, win.beats, fun y hy => ?_⟩
        obtain hy | hy := List.mem_append.1 hy
        · exact win.unbeaten y hy
        · exact List.mem_singleton.1 hy ▸ hab

/-- Two places in a list, the first before the second. -/
lemma mem_of_split {a b a' b' : List α} {x x' : α} (h : a ++ x :: b = a' ++ x' :: b')
    (hlt : a.length < a'.length) : x ∈ a' ∧ x' ∈ b := by
  obtain ⟨mid, rfl, hmid⟩ | ⟨mid, rfl, -⟩ := List.append_eq_append_iff.1 h
  · cases mid with
    | nil => simp at hlt
    | cons m mid =>
      obtain ⟨rfl, rfl⟩ := List.cons.inj hmid
      exact ⟨List.mem_append_right a List.mem_cons_self, List.mem_append_right mid List.mem_cons_self⟩
  · simp at hlt

/-- Two orders have the same first best element when they agree about the winners. -/
lemma Wins.unique {better' : α → α → Prop} {l before behind before' behind' : List α} {x x' : α}
    (win : Wins better l before x behind) (win' : Wins better' l before' x' behind')
    (agree : better x x' ↔ better' x x') (agree' : better x' x ↔ better' x' x) : x = x' := by
  have hsplit := win.split.symm.trans win'.split
  obtain hlt | heq | hgt := lt_trichotomy before.length before'.length
  · obtain ⟨hx, hx'⟩ := mem_of_split hsplit hlt
    exact absurd (agree'.2 (win'.beats x hx)) (win.unbeaten x' hx')
  · exact (List.cons.inj (List.append_inj hsplit heq).2).1
  · obtain ⟨hx', hx⟩ := mem_of_split hsplit.symm hgt
    exact absurd (agree.1 (win.beats x' hx')) (win'.unbeaten x hx)

end FirstBest
