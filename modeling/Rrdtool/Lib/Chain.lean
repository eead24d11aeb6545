import Mathlib.Data.List.Nodup

/-!
# Linked lists

A chain of links over a type of nodes is a function `f : Option ι → Option ι`: the node after a node,
and at `none` the node the chain begins with; after the last node there is `none`. `Chain f none l`
says that `f` runs through `l`. A doubly linked list is a chain, and a second one for the reverse.

The rules are `Chain.insert` and `Chain.remove`: two links are written, and the node is between its
neighbours or no longer between them. `Chain.frame` keeps a chain when another link is written.
-/

variable {ι : Type*}

/-- The links run from `p` through the list. -/
def Chain (f : Option ι → Option ι) : Option ι → List ι → Prop
  | p, [] => f p = none
  | p, x :: l => f p = some x ∧ Chain f (some x) l

namespace Chain

variable {f : Option ι → Option ι} {p k v : Option ι} {l a b : List ι} {x : ι}

/-- The last node of the list, or `p` before it. -/
@[grind] def last (p : Option ι) : List ι → Option ι
  | [] => p
  | x :: l => last (some x) l

lemma last_some (x : ι) (l : List ι) : ∃ y ∈ x :: l, last (some x) l = some y := by
  induction l generalizing x with
  | nil => exact ⟨x, List.mem_cons_self, rfl⟩
  | cons y l ih =>
    obtain ⟨z, hz, heq⟩ := ih y
    exact ⟨z, List.mem_cons_of_mem x hz, heq⟩

lemma last_none (l : List ι) : last none l = l.getLast? := by
  have hcons : ∀ (x : ι) (l : List ι), last (some x) l = (x :: l).getLast? := by
    intro x l
    induction l generalizing x with
    | nil => rfl
    | cons y l ih =>
      rw [List.getLast?_cons_cons]
      exact ih y
  cases l with
  | nil => rfl
  | cons x l => exact hcons x l

lemma first (h : Chain f p l) : f p = l.head? := by
  cases l with
  | nil => exact h
  | cons x l => exact h.1

lemma after (h : Chain f p (a ++ x :: b)) : f (some x) = b.head? := by
  induction a generalizing p with
  | nil => exact h.2.first
  | cons y a ih => exact ih h.2

variable [DecidableEq ι]

lemma frame (h : Chain f p l) (hp : p ≠ k) (hl : ∀ x ∈ l, some x ≠ k) :
    Chain (Function.update f k v) p l := by
  induction l generalizing p with
  | nil =>
    show Function.update f k v p = none
    rw [Function.update_of_ne hp]
    exact h
  | cons x l ih =>
    refine ⟨?_, ih h.2 (hl x List.mem_cons_self) fun y hy => hl y (List.mem_cons_of_mem x hy)⟩
    rw [Function.update_of_ne hp]
    exact h.1

/-- A new node is put between two neighbours. -/
theorem insert (h : Chain f p (a ++ b)) (nodup : (a ++ b).Nodup) (hp : ∀ y ∈ a ++ b, p ≠ some y)
    (hx : x ∉ a ++ b) (hpx : p ≠ some x) :
    Chain (Function.update (Function.update f (last p a) (some x)) (some x) b.head?) p
      (a ++ x :: b) := by
  induction a generalizing p with
  | nil =>
    refine ⟨?_, ?_⟩
    · rw [Function.update_of_ne hpx]
      exact Function.update_self _ _ _
    · cases b with
      | nil => exact Function.update_self _ _ _
      | cons y b =>
        refine ⟨Function.update_self _ _ _, ?_⟩
        have hb : ∀ z ∈ y :: b, some z ≠ some x ∧ some z ≠ p := fun z hz =>
          ⟨fun heq => hx (Option.some.inj heq ▸ hz), fun heq => hp z hz heq.symm⟩
        refine (h.2.frame ?_ ?_).frame ?_ ?_
        · exact (hb y List.mem_cons_self).2
        · exact fun z hz => (hb z (List.mem_cons_of_mem y hz)).2
        · exact (hb y List.mem_cons_self).1
        · exact fun z hz => (hb z (List.mem_cons_of_mem y hz)).1
  | cons y a ih =>
    have hxa : x ∉ a ++ b := fun hmem => hx (List.mem_cons_of_mem y hmem)
    have hyx : some y ≠ some x := fun heq =>
      hx (Option.some.inj heq ▸ List.mem_cons_self)
    have hpl : p ≠ last (some y) a := by
      obtain ⟨z, hz, heq⟩ := last_some y a
      rw [heq]
      exact hp z (List.mem_append_left b hz)
    refine ⟨?_, ih h.2 nodup.of_cons ?_ hxa hyx⟩
    · show Function.update (Function.update f (last (some y) a) (some x)) (some x) b.head? p = some y
      rw [Function.update_of_ne hpx, Function.update_of_ne hpl]
      exact h.1
    · intro z hz heq
      cases heq
      exact (List.nodup_cons.1 nodup).1 hz

/-- A node is taken out from between its neighbours. -/
theorem remove (h : Chain f p (a ++ x :: b)) (nodup : (a ++ x :: b).Nodup)
    (hp : ∀ y ∈ a ++ x :: b, p ≠ some y) :
    Chain (Function.update (Function.update f (last p a) b.head?) (some x) v) p (a ++ b) := by
  induction a generalizing p with
  | nil =>
    have hpx : p ≠ some x := hp x List.mem_cons_self
    cases b with
    | nil =>
      show Function.update (Function.update f p none) (some x) v p = none
      rw [Function.update_of_ne hpx, Function.update_self]
    | cons y b =>
      have hxb : ∀ z ∈ y :: b, some z ≠ some x := by
        intro z hz heq
        cases heq
        exact (List.nodup_cons.1 nodup).1 hz
      have hpb : ∀ z ∈ y :: b, some z ≠ p := fun z hz heq =>
        hp z (List.mem_cons_of_mem x hz) heq.symm
      refine ⟨?_, (h.2.2.frame ?_ ?_).frame ?_ ?_⟩
      · rw [Function.update_of_ne hpx]
        exact Function.update_self _ _ _
      · exact hpb y List.mem_cons_self
      · exact fun z hz => hpb z (List.mem_cons_of_mem y hz)
      · exact hxb y List.mem_cons_self
      · exact fun z hz => hxb z (List.mem_cons_of_mem y hz)
  | cons y a ih =>
    have hpx : p ≠ some x := hp x (by simp)
    have hpl : p ≠ last (some y) a := by
      obtain ⟨z, hz, heq⟩ := last_some y a
      rw [heq]
      exact hp z (List.mem_append_left _ hz)
    refine ⟨?_, ih h.2 nodup.of_cons ?_⟩
    · show Function.update (Function.update f (last (some y) a) b.head?) (some x) v p = some y
      rw [Function.update_of_ne hpx, Function.update_of_ne hpl]
      exact h.1
    · intro z hz heq
      cases heq
      exact (List.nodup_cons.1 nodup).1 hz

end Chain
