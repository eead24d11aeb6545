import Rrdtool.Lib.Checked

/-!
# The errors of a computation

`Reports P` says that the errors which a computation reports have the property `P`. It goes through a program from its
beginning (`Reports.bind`).
-/

namespace Checked

variable {ε φ : Type*} {α β : Type} {P : ε → Prop}

/-- An error that the computation reports has the property. -/
def Reports (P : ε → Prop) (m : Except (Stop ε φ) α) : Prop := ∀ e, m = .error (.error e) → P e

lemma Reports.ok (a : α) : Reports P (.ok a : Except (Stop ε φ) α) := by
  rintro e ⟨⟩

lemma Reports.fault (f : φ) : Reports P (.error (.fault f) : Except (Stop ε φ) α) := by
  rintro e ⟨⟩

lemma Reports.error {e : ε} (h : P e) : Reports P (.error (.error e) : Except (Stop ε φ) α) := by
  rintro e' ⟨⟩
  exact h

lemma Reports.bind {m : Except (Stop ε φ) α} {f : α → Except (Stop ε φ) β} (hm : Reports P m)
    (hf : ∀ a, Reports P (f a)) : Reports P (m >>= f) := by
  intro e h
  obtain ⟨e' | f'⟩ | a := m
  · obtain rfl : e' = e := by injection h with h; injection h
    exact hm e' rfl
  · cases h
  · exact hf a e h

lemma Reports.ite {c : Prop} [Decidable c] {m n : Except (Stop ε φ) α} (hm : Reports P m) (hn : Reports P n) :
    Reports P (if c then m else n) := by
  split
  · exact hm
  · exact hn

/-- A program that has stopped stays there. -/
lemma steps_error {σ : Type*} {step : ℕ → σ → Except (Stop ε φ) σ} {st : σ} {e : Stop ε φ} {k n : ℕ} (hle : k ≤ n)
    (h : steps step k st = .error e) : steps step n st = .error e := by
  induction n, hle using Nat.le_induction with
  | base => exact h
  | succ n _ ih =>
    rw [steps, ih]
    rfl

end Checked
