import Mathlib.Data.List.Forall2
import Mathlib.Tactic

/-!
# Lists related entry by entry

Rules for `List.Forall₂`, as needed where a program rewrites the entries of an array one at a time:
reading one entry (`getElem?_left`), a pass that changes one entry (`modify_right`), and a loop of such
changes (`foldl_right`).
-/

namespace Pointwise

open List

variable {α β γ ι : Type*} {R : α → β → Prop}

/-- An entry on the left has a related one at the same index on the right. -/
lemma getElem?_left {l : List α} {l' : List β} (h : Forall₂ R l l') {i : ℕ} {a : α}
    (ha : l[i]? = some a) : ∃ b, l'[i]? = some b ∧ R a b := by
  induction h generalizing i with
  | nil => cases ha
  | @cons x y xs ys hxy _ ih =>
    cases i with
    | zero =>
      cases ha
      exact ⟨y, rfl, hxy⟩
    | succ i => exact ih ha

/-- An entry on the right has a related one at the same index on the left. -/
lemma getElem?_right {l : List α} {l' : List β} (h : Forall₂ R l l') {i : ℕ} {b : β}
    (hb : l'[i]? = some b) : ∃ a, l[i]? = some a ∧ R a b := by
  obtain ⟨a, ha, hab⟩ := getElem?_left (R := fun b a => R a b) h.flip hb
  exact ⟨a, ha, hab⟩

lemma mem_right {l : List α} {l' : List β} (h : Forall₂ R l l') {b : β} (hb : b ∈ l') :
    ∃ a ∈ l, R a b := by
  obtain ⟨i, hi⟩ := List.mem_iff_getElem?.1 hb
  obtain ⟨a, ha, hab⟩ := getElem?_right h hi
  exact ⟨a, List.mem_iff_getElem?.2 ⟨i, ha⟩, hab⟩

/-- Changing one entry on the right keeps the relation if it does so for that entry. -/
lemma modify_right {l : List α} {l' : List β} (h : Forall₂ R l l') (i : ℕ) {f : β → β}
    (hf : ∀ a b, l[i]? = some a → R a b → R a (f b)) : Forall₂ R l (l'.modify i f) := by
  induction h generalizing i with
  | nil => simp
  | @cons x y xs ys hxy hxys ih =>
    cases i with
    | zero => exact .cons (hf x y rfl hxy) hxys
    | succ i => exact .cons hxy (ih i fun a b ha hab => hf a b ha hab)

/-- A loop whose every iteration keeps the relation keeps it. -/
lemma foldl_right {l : List α} {l' : List β} (h : Forall₂ R l l') {g : List β → ι → List β}
    (is : List ι) (hg : ∀ l' i, Forall₂ R l l' → Forall₂ R l (g l' i)) :
    Forall₂ R l (is.foldl g l') := by
  induction is generalizing l' with
  | nil => exact h
  | cons i is ih => exact ih (hg l' i h)

end Pointwise
