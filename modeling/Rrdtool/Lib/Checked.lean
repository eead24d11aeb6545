import Mathlib.Tactic

/-!
# Computations that may go wrong

A computation stops in one of two ways that a caller can tell apart: it reports an error, or it does something
that it must not do. `Safe P` says that it does not go wrong and that its result has the property `P`; it goes
through the program from its end (`safe_bind`).

A program that takes one step after the other keeps an invariant and is safe exactly if every step that is
reached meets its guard (`safe_steps_iff`). The same holds of a loop over a list whose iterations report no error
(`safe_foldlM_iff`).
-/

/-- The end of a computation without a result. -/
inductive Stop (ε φ : Type*) where
  | error (e : ε)
  | fault (f : φ)
deriving DecidableEq

namespace Checked

universe u

variable {ε φ : Type*} {α β σ : Type u} {P Q : α → Prop}

/-- The computation does not go wrong, and its result has the property. -/
def Safe (P : α → Prop) : Except (Stop ε φ) α → Prop
  | .ok a => P a
  | .error (.error _) => True
  | .error (.fault _) => False

/-- The computation does not go wrong. -/
@[grind] def NoFault (m : Except (Stop ε φ) α) : Prop := Safe (fun _ => True) m

@[simp] lemma safe_ok (a : α) : Safe P (.ok a : Except (Stop ε φ) α) ↔ P a := Iff.rfl
@[simp] lemma safe_pure (a : α) : Safe P (pure a : Except (Stop ε φ) α) ↔ P a := Iff.rfl
@[simp] lemma safe_error (e : ε) : Safe P (.error (.error e) : Except (Stop ε φ) α) := trivial
@[simp] lemma not_safe_fault (f : φ) : ¬ Safe P (.error (.fault f) : Except (Stop ε φ) α) := id

/-- A computation that has a result had one in its first part. -/
lemma bind_eq_ok {m : Except ε α} {f : α → Except ε β} {b : β} (h : (m >>= f) = .ok b) :
    ∃ a, m = .ok a ∧ f a = .ok b := by
  cases m with
  | error e => cases h
  | ok a => exact ⟨a, rfl, h⟩

@[simp] lemma ok_bind (a : α) (f : α → Except (Stop ε φ) β) : (.ok a >>= f) = f a := rfl

@[simp] lemma safe_bind {P : β → Prop} (m : Except (Stop ε φ) α) (f : α → Except (Stop ε φ) β) :
    Safe P (m >>= f) ↔ Safe (fun a => Safe P (f a)) m := by
  obtain ⟨e | f⟩ | a := m
  · exact Iff.rfl
  · exact Iff.rfl
  · exact Iff.rfl

@[simp] lemma safe_ite {c : Prop} [Decidable c] (m n : Except (Stop ε φ) α) :
    Safe P (if c then m else n) ↔ (c → Safe P m) ∧ (¬ c → Safe P n) := by
  split <;> simp_all

lemma Safe.mono {m : Except (Stop ε φ) α} (h : Safe P m) (hPQ : ∀ a, P a → Q a) : Safe Q m := by
  obtain ⟨e | f⟩ | a := m
  · exact h
  · exact h
  · exact hPQ a h

/-- A property that every result has. -/
lemma NoFault.safe {m : Except (Stop ε φ) α} (h : NoFault m) (hP : ∀ a, m = .ok a → P a) : Safe P m := by
  obtain ⟨e | f⟩ | a := m
  · exact trivial
  · exact h
  · exact hP a rfl

lemma Safe.noFault {m : Except (Stop ε φ) α} (h : Safe P m) : NoFault m := h.mono fun _ _ => trivial

lemma noFault_iff {m : Except (Stop ε φ) α} : NoFault m ↔ ∀ f, m ≠ .error (.fault f) := by
  obtain ⟨e | f⟩ | a := m
  · simp [NoFault]
  · simp [NoFault]
  · simp [NoFault]

/-- What went wrong. -/
def faultOf : Except (Stop ε φ) α → Option φ
  | .error (.fault f) => some f
  | _ => none

lemma eq_fault_of_faultOf {m : Except (Stop ε φ) α} {f : φ} (h : faultOf m = some f) : m = .error (.fault f) := by
  obtain ⟨e | f'⟩ | a := m
  · cases h
  · rw [Option.some.inj h]
  · cases h

section Steps

variable (step : ℕ → σ → Except (Stop ε φ) σ)

/-- The first steps of a program. -/
@[grind] def steps : ℕ → σ → Except (Stop ε φ) σ
  | 0, st => .ok st
  | k + 1, st => steps k st >>= step k

variable {step} {Inv : σ → Prop} {Guard : ℕ → σ → Prop}

/-- A program whose steps keep the invariant when they meet their guards, and go wrong when they do not. -/
lemma safe_steps_iff (hsafe : ∀ k st, Inv st → Guard k st → Safe Inv (step k st))
    (hguard : ∀ k st, Inv st → NoFault (step k st) → Guard k st) {st : σ} (hst : Inv st) (n : ℕ) :
    (NoFault (steps step n st) ↔ ∀ k < n, ∀ st', steps step k st = .ok st' → Guard k st') ∧
      (NoFault (steps step n st) → Safe Inv (steps step n st)) := by
  induction n with
  | zero =>
    refine ⟨iff_of_true trivial fun k hk => absurd hk (Nat.not_lt_zero k), fun _ => hst⟩
  | succ n ih =>
    have hprev : NoFault (steps step (n + 1) st) → NoFault (steps step n st) := fun h =>
      Safe.noFault ((safe_bind _ _).1 h)
    have hlast : NoFault (steps step (n + 1) st) → ∀ st', steps step n st = .ok st' → Inv st' ∧ Guard n st' := by
      intro h st' hst'
      have hinv : Inv st' := by
        have hall := ih.2 (hprev h)
        rwa [hst'] at hall
      have hstep := (safe_bind _ _).1 h
      rw [hst'] at hstep
      exact ⟨hinv, hguard n st' hinv hstep⟩
    have hrun : (∀ k < n + 1, ∀ st', steps step k st = .ok st' → Guard k st') → Safe Inv (steps step (n + 1) st) := by
      intro h
      have hall := ih.2 (ih.1.2 fun k hk => h k (Nat.lt_succ_of_lt hk))
      refine (safe_bind _ _).2 ?_
      cases hst' : steps step n st with
      | error e =>
        rw [hst'] at hall
        obtain e | f := e
        · exact safe_error e
        · exact absurd hall (not_safe_fault f)
      | ok st' =>
        rw [hst'] at hall
        exact hsafe n st' hall (h n (Nat.lt_succ_self n) st' hst')
    have hiff : NoFault (steps step (n + 1) st) → ∀ k < n + 1, ∀ st', steps step k st = .ok st' → Guard k st' := by
      intro h k hk st' hst'
      obtain hlt | rfl := Nat.lt_succ_iff_lt_or_eq.1 hk
      · exact ih.1.1 (hprev h) k hlt st' hst'
      · exact (hlast h st' hst').2
    exact ⟨⟨hiff, fun h => (hrun h).noFault⟩, fun h => hrun (hiff h)⟩

/-- Every state that a safe program reaches keeps the invariant. -/
lemma inv_of_noFault (hsafe : ∀ k st, Inv st → Guard k st → Safe Inv (step k st))
    (hguard : ∀ k st, Inv st → NoFault (step k st) → Guard k st) {st st' : σ} (hst : Inv st) {k : ℕ}
    (h : steps step k st = .ok st') : Inv st' := by
  have hno : NoFault (steps step k st) := by
    rw [h]
    exact trivial
  have hall := (safe_steps_iff hsafe hguard hst k).2 hno
  rwa [h] at hall

end Steps

section Loops

/-- The computation reports no error. -/
def Accepted (m : Except (Stop ε φ) α) : Prop := ∀ e, m ≠ .error (.error e)

lemma Accepted.bind {m : Except (Stop ε φ) α} {f : α → Except (Stop ε φ) β} (h : Accepted (m >>= f)) :
    Accepted m ∧ ∀ a, m = .ok a → Accepted (f a) := by
  constructor
  · rintro e rfl
    exact h e rfl
  · rintro a rfl
    exact h

variable (f : σ → α → Except (Stop ε φ) σ) (ok : σ → α → Prop)

/-- Every iteration that a loop reaches meets `ok` in the state before it. -/
def Always : σ → List α → Prop
  | _, [] => True
  | s, a :: l => ok s a ∧ ∀ s', f s a = .ok s' → Always s' l

variable {f ok} {Inv : σ → Prop}

/-- A loop whose iterations keep the invariant exactly if they meet a condition: all of its states have the
invariant exactly if all of its iterations meet it. -/
lemma safe_foldlM_iff (hstep : ∀ s a, Inv s → Accepted (f s a) → (Safe Inv (f s a) ↔ ok s a)) {s : σ} {l : List α}
    (hs : Inv s) (hacc : Accepted (l.foldlM f s)) :
    (∀ front, front <+: l → Safe Inv (front.foldlM f s)) ↔ Always f ok s l := by
  induction l generalizing s with
  | nil =>
    refine iff_of_true (fun front hfront => ?_) trivial
    rw [List.prefix_nil.1 hfront]
    exact hs
  | cons a l ih =>
    rw [List.foldlM_cons] at hacc
    obtain ⟨hfirst, hlater⟩ := hacc.bind
    constructor
    · intro hall
      have hsafe : Safe Inv (f s a) := by
        have h1 := hall [a] (List.prefix_append [a] l)
        rw [List.foldlM_cons] at h1
        exact ((safe_bind _ _).1 h1).mono fun _ hs' => hs'
      refine ⟨(hstep s a hs hfirst).1 hsafe, fun s' hs' => ?_⟩
      rw [hs'] at hsafe
      refine (ih hsafe (hlater s' hs')).1 fun front hfront => ?_
      have h2 := hall (a :: front) (List.cons_prefix_cons.2 ⟨rfl, hfront⟩)
      rwa [List.foldlM_cons, hs'] at h2
    · rintro ⟨hok, hrest⟩ front hfront
      cases front with
      | nil => exact hs
      | cons b front =>
        obtain ⟨rfl, htail⟩ := List.cons_prefix_cons.1 hfront
        have hsafe := (hstep s b hs hfirst).2 hok
        rw [List.foldlM_cons]
        refine (safe_bind _ _).2 ?_
        cases hs' : f s b with
        | error e =>
          obtain e | φ := e
          · exact trivial
          · rw [hs'] at hsafe
            exact hsafe
        | ok s' =>
          rw [hs'] at hsafe
          exact (ih hsafe (hlater s' hs')).2 (hrest s' hs') front htail

end Loops

end Checked
