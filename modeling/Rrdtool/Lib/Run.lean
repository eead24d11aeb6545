import Mathlib.Tactic

/-!
# Runs of a partial step function

A system is a partial function `step : σ → α → Option σ`: the state after an action, or `none` when
the action is not possible there. `run` folds it over a list of actions. A condition on steps is
carried along a run by `Always`. The rules are `run_append`, and `run_inv` / `run_inv_of`: what one
step preserves (from states and actions that meet the condition) a whole run preserves;
`always_of_inv` turns an invariant into a condition that every step of the run meets, `constant_iff`
says when a value is constant along a run. `foldlM_ok` is the rule for a loop whose iterations may
fail.
-/

namespace Run

variable {σ α : Type*} {step : σ → α → Option σ} {ok : σ → α → Prop}

/-- The state after a list of actions. -/
@[grind] def run (step : σ → α → Option σ) (s : σ) : List α → Option σ
  | [] => some s
  | a :: l => (step s a).bind fun s' => run step s' l

/-- Every step of the run from `s` is taken in a state and with an action that meet `ok`. -/
def Always (step : σ → α → Option σ) (ok : σ → α → Prop) (s : σ) : List α → Prop
  | [] => True
  | a :: l => ok s a ∧ ∀ s' ∈ step s a, Always step ok s' l

instance decidableAlways [∀ s a, Decidable (ok s a)] (s : σ) :
    ∀ l, Decidable (Always step ok s l)
  | [] => inferInstanceAs (Decidable True)
  | a :: l =>
    have : Decidable (∀ s' ∈ step s a, Always step ok s' l) :=
      match h : step s a with
      | none => isTrue (by simp)
      | some s' =>
        match decidableAlways s' l with
        | isTrue t => isTrue (by simpa using t)
        | isFalse f => isFalse (by simpa using f)
    inferInstanceAs (Decidable (_ ∧ _))

@[simp] lemma run_nil (s : σ) : run step s [] = some s := rfl

lemma run_cons {s : σ} {a : α} {l : List α} {s'' : σ} :
    run step s (a :: l) = some s'' ↔ ∃ s', step s a = some s' ∧ run step s' l = some s'' := by
  simp [run, Option.bind_eq_some_iff]

lemma run_append {s s'' : σ} {l l' : List α} :
    run step s (l ++ l') = some s'' ↔ ∃ s', run step s l = some s' ∧ run step s' l' = some s'' := by
  induction l generalizing s with
  | nil => simp
  | cons a l ih =>
    simp only [List.cons_append, run_cons, ih]
    constructor
    · rintro ⟨s₁, h₁, s', h, h'⟩
      exact ⟨s', ⟨s₁, h₁, h⟩, h'⟩
    · rintro ⟨s', ⟨s₁, h₁, h⟩, h'⟩
      exact ⟨s₁, h₁, s', h, h'⟩

/-- What every conforming step preserves, every conforming run preserves. -/
theorem run_inv_of (Inv : σ → Prop)
    (hstep : ∀ s a s', Inv s → ok s a → step s a = some s' → Inv s') {s s' : σ} {l : List α}
    (hrun : run step s l = some s') (hok : Always step ok s l) (hs : Inv s) : Inv s' := by
  induction l generalizing s with
  | nil =>
    cases hrun
    exact hs
  | cons a l ih =>
    obtain ⟨s₁, h₁, h⟩ := run_cons.1 hrun
    exact ih h (hok.2 s₁ h₁) (hstep s a s₁ hs hok.1 h₁)

/-- What an invariant of the conforming steps implies holds at every step of a conforming run. -/
theorem always_of_inv (Inv : σ → Prop) {P : σ → α → Prop}
    (hstep : ∀ s a s', Inv s → ok s a → step s a = some s' → Inv s')
    (himp : ∀ s a, Inv s → ok s a → P s a) {s : σ} {l : List α} (hok : Always step ok s l)
    (hs : Inv s) : Always step P s l := by
  induction l generalizing s with
  | nil => exact trivial
  | cons a l ih =>
    refine ⟨himp s a hs hok.1, fun s' h => ?_⟩
    exact ih (hok.2 s' h) (hstep s a s' hs hok.1 h)

lemma always_congr {P Q : σ → α → Prop} (h : ∀ s a, P s a ↔ Q s a) {s : σ} {l : List α} :
    Always step P s l ↔ Always step Q s l := by
  induction l generalizing s with
  | nil => exact Iff.rfl
  | cons a l ih => exact and_congr (h s a) (forall_congr' fun s' => forall_congr' fun _ => ih)

/-- A value that a step keeps exactly under a condition is constant along a run exactly if all steps meet it. -/
theorem constant_iff {β : Type*} (f : σ → β) {P : σ → α → Prop} (Inv : σ → Prop)
    (hstep : ∀ s a s', Inv s → step s a = some s' → Inv s' ∧ (f s' = f s ↔ P s a)) {s s'' : σ} {l : List α}
    (hrun : run step s l = some s'') (hs : Inv s) :
    (∀ front s', front <+: l → run step s front = some s' → f s' = f s) ↔ Always step P s l := by
  induction l generalizing s with
  | nil =>
    refine iff_of_true (fun front s' hfront hrun' => ?_) trivial
    rw [List.prefix_nil.1 hfront] at hrun'
    cases hrun'
    rfl
  | cons a l ih =>
    obtain ⟨s₁, h₁, hrest⟩ := run_cons.1 hrun
    obtain ⟨hinv, hkept⟩ := hstep s a s₁ hs h₁
    constructor
    · intro hall
      have hfirst : f s₁ = f s := hall [a] s₁ (List.prefix_append [a] l) (run_cons.2 ⟨s₁, h₁, rfl⟩)
      refine ⟨hkept.1 hfirst, fun s₂ h₂ => ?_⟩
      obtain rfl := Option.some.inj (h₁.symm.trans h₂)
      refine (ih hrest hinv).1 fun front s' hfront hrun' => ?_
      rw [hfirst]
      exact hall (a :: front) s' (List.cons_prefix_cons.2 ⟨rfl, hfront⟩) (run_cons.2 ⟨s₁, h₁, hrun'⟩)
    · rintro ⟨hok, hlater⟩ front s' hfront hrun'
      cases front with
      | nil =>
        cases hrun'
        rfl
      | cons b front =>
        obtain ⟨rfl, htail⟩ := List.cons_prefix_cons.1 hfront
        obtain ⟨s₂, h₂, hrun'⟩ := run_cons.1 hrun'
        obtain rfl := Option.some.inj (h₁.symm.trans h₂)
        rw [← hkept.2 hok]
        exact (ih hrest hinv).2 (hlater s₁ h₁) front s' htail hrun'

/-- A loop that may fail: when every iteration returns and keeps what is said of the state and the
rest, the loop returns. -/
theorem foldlM_ok {ε : Type*} {f : σ → α → Except ε σ} (P : σ → List α → Prop)
    (hstep : ∀ s a l, P s (a :: l) → ∃ s', f s a = .ok s' ∧ P s' l) {s : σ} {l : List α} (hs : P s l) :
    ∃ s', l.foldlM f s = .ok s' ∧ P s' [] := by
  induction l generalizing s with
  | nil => exact ⟨s, rfl, hs⟩
  | cons a l ih =>
    obtain ⟨s₁, h₁, hs₁⟩ := hstep s a l hs
    obtain ⟨s', h', hs'⟩ := ih hs₁
    refine ⟨s', ?_, hs'⟩
    rw [List.foldlM_cons, h₁]
    exact h'

/-- What every step preserves, every run preserves. -/
theorem run_inv (Inv : σ → Prop) (hstep : ∀ s a s', Inv s → step s a = some s' → Inv s')
    {s s' : σ} {l : List α} (hrun : run step s l = some s') (hs : Inv s) : Inv s' := by
  induction l generalizing s with
  | nil =>
    cases hrun
    exact hs
  | cons a l ih =>
    obtain ⟨s₁, h₁, h⟩ := run_cons.1 hrun
    exact ih h (hstep s a s₁ hs h₁)

end Run
