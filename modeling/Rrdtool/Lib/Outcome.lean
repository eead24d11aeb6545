import Mathlib.Logic.Basic

/-!
# The outcome of a computation

That a computation returns something with a property is decided by running it: the run is written once, in the
statement, and its result has a name in what remains to be shown.
-/

namespace Outcome

variable {α : Type*} {x : Option α} {p q : α → Prop}

lemma exists_of_isSome (h : x.isSome) (hq : ∀ a, x = some a → q a) : ∃ a, x = some a ∧ q a := by
  obtain ⟨a, ha⟩ := Option.isSome_iff_exists.1 h
  exact ⟨a, ha, hq a ha⟩

/-- A property of the result that is decided. -/
lemma exists_of_any [DecidablePred p] (h : x.any fun a => decide (p a)) : ∃ a, x = some a ∧ p a := by
  obtain ⟨a, ha, hp⟩ := (Option.any_eq_true _ _).1 h
  exact ⟨a, ha, of_decide_eq_true hp⟩

/-- What follows from a decided property of the result. -/
lemma exists_of_any_imp (p : α → Prop) [DecidablePred p] (h : x.any fun a => decide (p a))
    (hq : ∀ a, x = some a → p a → q a) : ∃ a, x = some a ∧ q a := by
  obtain ⟨a, ha, hp⟩ := exists_of_any h
  exact ⟨a, ha, hq a ha hp⟩

end Outcome
