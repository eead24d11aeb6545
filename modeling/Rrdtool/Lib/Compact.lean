import Mathlib.Tactic

/-!
# Compacting a list

A loop that goes through a list and keeps what an operation makes of some of its elements (`keepFrom`). An element
that is kept moves to the place given by the number of elements kept before it (`newIdx`); it stays where it was
exactly if nothing before it was dropped (`newIdx_eq_iff`).
-/

namespace Compact

variable {α β : Type*} (f : ℕ → α → Option β)

/-- What is kept of the elements, of which the first has the index `j`. -/
@[grind] def keepFrom : ℕ → List α → List β
  | _, [] => []
  | j, a :: l => (f j a).toList ++ keepFrom (j + 1) l

/-- The place of the element with the index `i`. -/
@[grind] def newIdx (l : List α) (i : ℕ) : ℕ := (keepFrom f 0 (l.take i)).length

variable {f}

lemma keepFrom_append (j : ℕ) (l l' : List α) :
    keepFrom f j (l ++ l') = keepFrom f j l ++ keepFrom f (j + l.length) l' := by
  induction l generalizing j with
  | nil => rfl
  | cons a l ih =>
    rw [List.cons_append, keepFrom, keepFrom, ih, List.append_assoc, List.length_cons, Nat.add_right_comm, Nat.add_assoc]

lemma length_keepFrom_le (j : ℕ) (l : List α) : (keepFrom f j l).length ≤ l.length := by
  induction l generalizing j with
  | nil => exact le_rfl
  | cons a l ih =>
    have hone : (f j a).toList.length ≤ 1 := by cases f j a <;> simp
    have := ih (j + 1)
    rw [keepFrom, List.length_append, List.length_cons]
    omega

/-- What is kept comes from an element. -/
lemma mem_keepFrom {j : ℕ} {l : List α} {b : β} :
    b ∈ keepFrom f j l ↔ ∃ u a, l[u]? = some a ∧ f (j + u) a = some b := by
  induction l generalizing j with
  | nil => simp [keepFrom]
  | cons a l ih =>
    rw [keepFrom, List.mem_append, Option.mem_toList, ih]
    constructor
    · rintro (hb | ⟨u, c, hc, hb⟩)
      · exact ⟨0, a, rfl, hb⟩
      · exact ⟨u + 1, c, hc, by rwa [Nat.add_comm u, ← Nat.add_assoc]⟩
    · rintro ⟨u, c, hc, hb⟩
      cases u with
      | zero =>
        obtain rfl := Option.some.inj hc
        exact .inl hb
      | succ u => exact .inr ⟨u, c, hc, by rwa [Nat.add_assoc, Nat.add_comm 1]⟩

/-- Nothing is dropped exactly if the length does not change. -/
lemma length_keepFrom_eq_iff (j : ℕ) (l : List α) :
    (keepFrom f j l).length = l.length ↔ ∀ u a, l[u]? = some a → (f (j + u) a).isSome := by
  induction l generalizing j with
  | nil => simp [keepFrom]
  | cons a l ih =>
    have hle := length_keepFrom_le (f := f) (j + 1) l
    rw [keepFrom, List.length_append, List.length_cons]
    constructor
    · intro h u b hb
      have hone : (f j a).toList.length ≤ 1 := by cases f j a <;> simp
      cases u with
      | zero =>
        cases hb
        cases hf : f j a with
        | none =>
          rw [hf, Option.toList_none, List.length_nil] at h
          omega
        | some b => simp
      | succ u =>
        have := (ih (j + 1)).1 (by omega) u b hb
        rwa [Nat.add_right_comm] at this
    · intro h
      have hfirst := h 0 a rfl
      obtain ⟨b, hb⟩ := Option.isSome_iff_exists.1 hfirst
      have hrest := (ih (j + 1)).2 fun u b hb => by
        have := h (u + 1) b hb
        rwa [Nat.add_right_comm]
      rw [Nat.add_zero] at hb
      rw [hb, hrest, Option.toList_some, List.length_singleton, Nat.add_comm]

/-- An element that is kept stands at its new place. -/
lemma getElem?_keepFrom {l : List α} {i : ℕ} {a : α} {b : β} (ha : l[i]? = some a) (hb : f i a = some b) :
    (keepFrom f 0 l)[newIdx f l i]? = some b := by
  obtain ⟨hi, rfl⟩ := List.getElem?_eq_some_iff.1 ha
  have hsplit : l = l.take i ++ l[i] :: l.drop (i + 1) := by
    rw [List.getElem_cons_drop, List.take_append_drop]
  have htake : (l.take i).length = i := List.length_take_of_le hi.le
  conv_lhs => rw [hsplit]
  rw [keepFrom_append, newIdx, htake, Nat.zero_add, keepFrom, hb, ← hsplit]
  rw [List.getElem?_append_right le_rfl, Nat.sub_self]
  rfl

/-- An element keeps its place exactly if nothing before it is dropped. -/
lemma newIdx_eq_iff {l : List α} {i : ℕ} (hi : i ≤ l.length) :
    newIdx f l i = i ↔ ∀ u a, u < i → l[u]? = some a → (f u a).isSome := by
  have htake : (l.take i).length = i := List.length_take_of_le hi
  have h := length_keepFrom_eq_iff (f := f) 0 (l.take i)
  rw [htake] at h
  refine h.trans ⟨fun h u a hu ha => ?_, fun h u a ha => ?_⟩
  · have := h u a (by rwa [List.getElem?_take_of_lt hu])
    rwa [Nat.zero_add] at this
  · have hu : u < i := by
      by_contra hge
      rw [List.getElem?_eq_none (by omega)] at ha
      cases ha
    rw [List.getElem?_take_of_lt hu] at ha
    rw [Nat.zero_add]
    exact h u a hu ha

/-- The places depend only on what is kept. -/
lemma newIdx_congr {γ : Type*} {g : ℕ → α → Option γ} (h : ∀ j a, (f j a).isSome = (g j a).isSome) (l : List α) (i : ℕ) :
    newIdx f l i = newIdx g l i := by
  have hlen : ∀ (l : List α) (j : ℕ), (keepFrom f j l).length = (keepFrom g j l).length := by
    intro l
    induction l with
    | nil => exact fun j => rfl
    | cons a l ih =>
      intro j
      have hj := h j a
      rw [keepFrom, keepFrom, List.length_append, List.length_append, ih]
      cases hf : f j a <;> cases hg : g j a <;> simp_all
  exact hlen _ 0

/-- A filter keeps the elements themselves. -/
lemma keepFrom_filter (p : α → Bool) (j : ℕ) (l : List α) :
    keepFrom (fun _ a => if p a then some a else none) j l = l.filter p := by
  induction l generalizing j with
  | nil => rfl
  | cons a l ih =>
    rw [keepFrom, ih, List.filter_cons]
    split <;> rfl

end Compact
