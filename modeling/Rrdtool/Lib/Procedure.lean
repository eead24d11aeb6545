import Mathlib.Logic.Basic

/-!
# Procedures that may fail

A procedure works on a state, returns a value or fails, and leaves a state behind in either case. What it has to do is said
by an optional value: `Settles` is to succeed with a result that suits the value where there is one, and to fail where there
is none. Procedures in sequence settle as their specifications do (`Settles.bind`).
-/

namespace Procedure

/-- A procedure on a state of the type `σ` that may fail with an `ε`. -/
abbrev Proc (ε σ α : Type) := ExceptT ε (StateM σ) α

variable {ε σ α β γ δ : Type}

/-- What comes of a procedure: its value or its failure, and the state that it leaves. -/
def outcome (m : Proc ε σ α) (s : σ) : Except ε α × σ := m.run.run s

/-- A procedure whose failure is a value. -/
def attempt (m : Proc ε σ α) : Proc ε σ (Except ε α) := ExceptT.lift m.run

@[simp] lemma outcome_pure (a : α) (s : σ) : outcome (pure a : Proc ε σ α) s = (.ok a, s) := rfl

@[simp] lemma outcome_throw (e : ε) (s : σ) : outcome (throw e : Proc ε σ α) s = (.error e, s) := rfl

@[simp] lemma outcome_get (s : σ) : outcome (get : Proc ε σ σ) s = (.ok s, s) := rfl

@[simp] lemma outcome_set (s s' : σ) : outcome (set s' : Proc ε σ PUnit) s = (.ok ⟨⟩, s') := rfl

lemma outcome_bind (m : Proc ε σ α) (f : α → Proc ε σ β) (s : σ) :
    outcome (m >>= f) s =
      match outcome m s with
      | (.ok a, s') => outcome (f a) s'
      | (.error e, s') => (.error e, s') := by
  show (ExceptT.bindCont f ((m.run.run s).1)).run ((m.run.run s).2) = _
  unfold outcome
  obtain ⟨e | a, s'⟩ := m.run.run s
  · rfl
  · rfl

lemma outcome_attempt (m : Proc ε σ α) (s : σ) : outcome (attempt m) s = (.ok (outcome m s).1, (outcome m s).2) := rfl

lemma outcome_bind_ok {m : Proc ε σ α} {f : α → Proc ε σ β} {s s' : σ} {a : α} (h : outcome m s = (.ok a, s')) :
    outcome (m >>= f) s = outcome (f a) s' := by
  rw [outcome_bind, h]

lemma outcome_bind_error {m : Proc ε σ α} {f : α → Proc ε σ β} {s s' : σ} {e : ε} (h : outcome m s = (.error e, s')) :
    outcome (m >>= f) s = (.error e, s') := by
  rw [outcome_bind, h]

/-- What comes of the procedure and the state that it leaves are as `post` says. -/
@[grind] def Ends (m : Proc ε σ α) (s : σ) (post : Except ε α → σ → Prop) : Prop := post (outcome m s).1 (outcome m s).2

section Ends

variable {m : Proc ε σ α} {f : α → Proc ε σ β} {s : σ} {a : α} {e : ε}
variable {post post' : Except ε α → σ → Prop} {next : Except ε β → σ → Prop}

lemma ends_pure (h : post (.ok a) s) : Ends (pure a) s post := h

/-- The state is read. -/
lemma ends_get_bind {f : σ → Proc ε σ β} (h : Ends (f s) s next) : Ends (get >>= f) s next := by
  unfold Ends at h ⊢
  rw [outcome_bind_ok (outcome_get s)]
  exact h

lemma ends_throw (h : post (.error e) s) : Ends (throw e : Proc ε σ α) s post := h

lemma Ends.imp (h : Ends m s post) (himp : ∀ r s', post r s' → post' r s') : Ends m s post' := himp _ _ h

/-- One procedure behind the other; a failure is passed on. -/
lemma Ends.bind (h : Ends m s post) (hok : ∀ a s', post (.ok a) s' → Ends (f a) s' next)
    (herror : ∀ e s', post (.error e) s' → next (.error e) s') : Ends (m >>= f) s next := by
  unfold Ends at h ⊢
  rw [outcome_bind]
  revert h
  obtain ⟨e | a, s'⟩ := outcome m s
  · exact herror e s'
  · exact hok a s'

end Ends

/-- The procedure succeeds as the specification says, or fails, as a failure may be, where it gives nothing. -/
@[grind] def Settles (fails : ε → Prop) (m : Proc ε σ α) (s : σ) (spec : Option β) (suits : β → α → σ → Prop) : Prop :=
  match spec with
  | some b => ∃ a s', outcome m s = (.ok a, s') ∧ suits b a s'
  | none => ∃ e s', outcome m s = (.error e, s') ∧ fails e

section Settles

variable {fails : ε → Prop} {m : Proc ε σ α} {f : α → Proc ε σ γ} {s s' : σ} {spec : Option β} {g : β → Option δ}
variable {suits suits' : β → α → σ → Prop} {suits'' : δ → γ → σ → Prop} {a : α} {b : β} {e : ε}

lemma settles_ok (h : outcome m s = (.ok a, s')) (hsuits : suits b a s') : Settles fails m s (some b) suits :=
  ⟨a, s', h, hsuits⟩

lemma settles_error (h : outcome m s = (.error e, s')) (he : fails e) : Settles fails m s (none : Option β) suits :=
  ⟨e, s', h, he⟩

lemma settles_pure (h : suits b a s) : Settles fails (pure a) s (some b) suits := settles_ok rfl h

lemma settles_throw (h : fails e) : Settles fails (throw e : Proc ε σ α) s (none : Option β) suits := settles_error rfl h

/-- One procedure behind the other. -/
lemma Settles.bind (h : Settles fails m s spec suits)
    (hf : ∀ b a s', suits b a s' → Settles fails (f a) s' (g b) suits'') : Settles fails (m >>= f) s (spec.bind g) suits'' := by
  cases spec with
  | none =>
    obtain ⟨e, s', heq, he⟩ := h
    exact settles_error (outcome_bind_error heq) he
  | some b =>
    obtain ⟨a, s', heq, hsuits⟩ := h
    have hnext := hf b a s' hsuits
    unfold Settles at hnext ⊢
    rw [Option.bind_some, outcome_bind_ok heq]
    exact hnext

/-- Behind a procedure that is known to succeed. -/
lemma Settles.after {spec : Option δ} (h : outcome m s = (.ok a, s')) (hf : Settles fails (f a) s' spec suits'') :
    Settles fails (m >>= f) s spec suits'' := by
  unfold Settles at hf ⊢
  rw [outcome_bind_ok h]
  exact hf

lemma Settles.imp (h : Settles fails m s spec suits) (himp : ∀ b a s', suits b a s' → suits' b a s') :
    Settles fails m s spec suits' := by
  cases spec with
  | none => exact h
  | some b =>
    obtain ⟨a, s', heq, hsuits⟩ := h
    exact ⟨a, s', heq, himp b a s' hsuits⟩

/-- A procedure that settles succeeds if and only if its specification gives a value. -/
lemma Settles.isSome_iff (h : Settles fails m s spec suits) : spec.isSome ↔ ∃ a s', outcome m s = (.ok a, s') := by
  cases spec with
  | none =>
    obtain ⟨e, s', heq, -⟩ := h
    refine iff_of_false nofun ?_
    rintro ⟨a, s'', hok⟩
    rw [heq] at hok
    cases hok
  | some b =>
    obtain ⟨a, s', heq, -⟩ := h
    exact iff_of_true rfl ⟨a, s', heq⟩

end Settles

end Procedure
