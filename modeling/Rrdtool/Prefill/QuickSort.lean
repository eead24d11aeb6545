import Mathlib.Tactic
import Mathlib.Logic.Equiv.Basic

/-!
# `quick_sort`

Port of `src/quicksort.c`, on an array as a function of the index. The comparison of the candidates is no order: an exact
match comes before everything, also before itself. Whatever the comparison is, the elements stay the same ones
(`quickSort_perm`), and one that comes before all others ends up first (`quickSort_head`). Where the comparison answers as
an order does, the elements are in this order afterwards (`quickSort_sorted`).
-/

namespace Rrdtool

variable {α : Type} (cmp : α → α → ℤ)

/-- The loop of `sort`, for the pivot at `p`. -/
@[grind] def sortLoop (p : ℕ) : ℕ → (ℕ → α) → ℕ → ℕ → (ℕ → α) × ℕ × ℕ
  | 0, a, l, r => (a, l, r)
  | n + 1, a, l, r =>
    if l < r then
      if cmp (a l) (a p) ≤ 0 then sortLoop p n a (l + 1) r
      else if 0 ≤ cmp (a r) (a p) then sortLoop p n a l (r - 1)
      else sortLoop p n (a ∘ Equiv.swap l r) l r
    else (a, l, r)

/-- `sort`, from index `first` to `last`. -/
@[grind] def sort : ℕ → (ℕ → α) → ℕ → ℕ → ℕ → α
  | 0, a, _, _ => a
  | n + 1, a, first, last =>
    if first < last then
      let (a, l, r) := sortLoop cmp first (2 * (last - first) + 1) a (first + 1) last
      let a := if cmp (a l) (a first) ≤ 0 then a ∘ Equiv.swap l first else a ∘ Equiv.swap (l - 1) first
      sort n (sort n a first (l - 1)) r last
    else a

/-- `quick_sort`. -/
@[grind] def quickSort : List α → List α
  | [] => []
  | x :: xs =>
    (List.range (x :: xs).length).map
      (sort cmp (x :: xs).length (fun i => (x :: xs).getD i x) 0 ((x :: xs).length - 1))

/-- `a'` is `a` with elements moved between `first` and `last`. -/
structure Moved (first last : ℕ) (a a' : ℕ → α) : Prop where
  outside : ∀ j, j < first ∨ last < j → a' j = a j
  kept : ∀ i, first ≤ i → i ≤ last → ∃ j, first ≤ j ∧ j ≤ last ∧ a' j = a i
  old : ∀ j, ∃ i, a' j = a i

/-- `a'` is `a` with the elements between `first` and `last` in another order. -/
def Permuted (first last : ℕ) (a a' : ℕ → α) : Prop :=
  ∃ σ : Equiv.Perm ℕ, (∀ j, j < first ∨ last < j → σ j = j) ∧ a' = a ∘ σ

variable {cmp} {a a' a'' : ℕ → α} {first last l r n p : ℕ} {x : α}

lemma Permuted.refl (first last : ℕ) (a : ℕ → α) : Permuted first last a a := ⟨1, fun _ _ => rfl, rfl⟩

lemma Permuted.trans (h : Permuted first last a a') (h' : Permuted first last a' a'') : Permuted first last a a'' := by
  obtain ⟨σ, hσ, rfl⟩ := h
  obtain ⟨τ, hτ, rfl⟩ := h'
  refine ⟨σ * τ, fun j hj => ?_, rfl⟩
  rw [Equiv.Perm.mul_apply, hτ j hj, hσ j hj]

lemma Permuted.widen {first' last' : ℕ} (h : Permuted first last a a') (hf : first' ≤ first) (hl : last ≤ last') :
    Permuted first' last' a a' := by
  obtain ⟨σ, hσ, rfl⟩ := h
  exact ⟨σ, fun j hj => hσ j (by omega), rfl⟩

lemma permuted_swap {i j : ℕ} (a : ℕ → α) (hif : first ≤ i) (hil : i ≤ last) (hjf : first ≤ j) (hjl : j ≤ last) :
    Permuted first last a (a ∘ Equiv.swap i j) :=
  ⟨Equiv.swap i j, fun _ _ => Equiv.swap_apply_of_ne_of_ne (by omega) (by omega), rfl⟩

/-- What is inside stays inside. -/
lemma Permuted.inside (h : Permuted first last a a') {j : ℕ} (hf : first ≤ j) (hl : j ≤ last) :
    ∃ i, first ≤ i ∧ i ≤ last ∧ a' j = a i := by
  obtain ⟨σ, hσ, rfl⟩ := h
  refine ⟨σ j, ?_, ?_, rfl⟩
  all_goals
    by_contra hout
    have hfix := σ.injective (hσ (σ j) (by omega))
    omega

lemma Permuted.moved (h : Permuted first last a a') : Moved first last a a' := by
  obtain ⟨σ, hσ, rfl⟩ := h
  refine ⟨fun j hj => congrArg a (hσ j hj), fun i hf hl => ⟨σ.symm i, ?_, ?_, ?_⟩, fun j => ⟨σ j, rfl⟩⟩
  · by_contra hout
    have hfix := hσ (σ.symm i) (by omega)
    rw [Equiv.apply_symm_apply] at hfix
    omega
  · by_contra hout
    have hfix := hσ (σ.symm i) (by omega)
    rw [Equiv.apply_symm_apply] at hfix
    omega
  · rw [Function.comp_apply, Equiv.apply_symm_apply]

/-- The loop ends with `l` and `r` at one place; before it no element comes after the pivot, and after it none before. -/
lemma sortLoop_spec (hp : p < l) (hlr : l ≤ r) (hn : 2 * (r - l) + (if cmp (a l) (a p) ≤ 0 then 0 else 1) ≤ n) :
    ∃ a' m, sortLoop cmp p n a l r = (a', m, m) ∧ l ≤ m ∧ m ≤ r ∧ Permuted l r a a' ∧
      (∀ j, l ≤ j → j < m → cmp (a' j) (a p) ≤ 0) ∧ ∀ j, m < j → j ≤ r → 0 ≤ cmp (a' j) (a p) := by
  induction n generalizing a l r with
  | zero =>
    obtain rfl : l = r := by omega
    exact ⟨a, l, rfl, le_rfl, le_rfl, .refl l l a, fun j hj hj' => by omega, fun j hj hj' => by omega⟩
  | succ n ih =>
    rw [sortLoop]
    by_cases hlt : l < r
    · rw [if_pos hlt]
      by_cases hle : cmp (a l) (a p) ≤ 0
      · rw [if_pos hle] at hn ⊢
        obtain ⟨a', m, heq, hlm, hmr, hperm, hleft, hright⟩ := ih (a := a) (l := l + 1) (r := r) (by omega) (by omega)
          (by split_ifs <;> omega)
        refine ⟨a', m, heq, by omega, hmr, hperm.widen (by omega) le_rfl, fun j hj hjm => ?_, hright⟩
        rcases Nat.eq_or_lt_of_le hj with rfl | hlater
        · rwa [hperm.moved.outside l (.inl l.lt_succ_self)]
        · exact hleft j hlater hjm
      · rw [if_neg hle] at hn ⊢
        by_cases hge : 0 ≤ cmp (a r) (a p)
        · rw [if_pos hge]
          obtain ⟨a', m, heq, hlm, hmr, hperm, hleft, hright⟩ := ih (a := a) (l := l) (r := r - 1) hp (by omega)
            (by rw [if_neg hle]; omega)
          refine ⟨a', m, heq, hlm, by omega, hperm.widen le_rfl (by omega), hleft, fun j hj hjr => ?_⟩
          rcases Nat.lt_or_ge (r - 1) j with hlast | hbefore
          · rw [hperm.moved.outside j (.inr hlast)]
            obtain rfl : j = r := by omega
            exact hge
          · exact hright j hj hbefore
        · rw [if_neg hge]
          have hpivot : (a ∘ Equiv.swap l r) p = a p := by
            rw [Function.comp_apply, Equiv.swap_apply_of_ne_of_ne (by omega) (by omega)]
          have hleft : (a ∘ Equiv.swap l r) l = a r := by rw [Function.comp_apply, Equiv.swap_apply_left]
          obtain ⟨a', m, heq, hlm, hmr, hperm, hsides⟩ := ih (a := a ∘ Equiv.swap l r) (l := l) (r := r) hp hlr
            (by rw [hpivot, hleft, if_pos (by omega)]; omega)
          rw [hpivot] at hsides
          exact ⟨a', m, heq, hlm, hmr, (permuted_swap a le_rfl hlr hlr le_rfl).trans hperm, hsides⟩
    · rw [if_neg hlt]
      obtain rfl : l = r := by omega
      exact ⟨a, l, rfl, le_rfl, le_rfl, .refl l l a, fun j hj hj' => by omega, fun j hj hj' => by omega⟩

/-- One call of `sort` with something to sort: the loop, the exchange with the pivot, and the two parts. -/
lemma sort_succ (hlt : first < last) (a : ℕ → α) :
    ∃ a' m, Permuted (first + 1) last a a' ∧ first < m ∧ m ≤ last ∧
      (∀ j, first < j → j < m → cmp (a' j) (a' first) ≤ 0) ∧ (∀ j, m < j → j ≤ last → 0 ≤ cmp (a' j) (a' first)) ∧
      ∀ n, sort cmp (n + 1) a first last =
        sort cmp n (sort cmp n (if cmp (a' m) (a' first) ≤ 0 then a' ∘ Equiv.swap m first
          else a' ∘ Equiv.swap (m - 1) first) first (m - 1)) m last := by
  have hloop := @sortLoop_spec α cmp a (first + 1) last (2 * (last - first) + 1) first
  obtain ⟨a', m, heq, hlm, hmr, hperm, hsides⟩ := hloop (by omega) (by omega) (by split_ifs <;> omega)
  have hpivot : a' first = a first := hperm.moved.outside first (.inl (by omega))
  rw [← hpivot] at hsides
  refine ⟨a', m, hperm, by omega, hmr, hsides.1, hsides.2, fun n => ?_⟩
  rw [sort, if_pos hlt, heq]

lemma permuted_exchange {m : ℕ} (hm : first < m) (hml : m ≤ last) (a : ℕ → α) :
    Permuted first last a
      (if cmp (a m) (a first) ≤ 0 then a ∘ Equiv.swap m first else a ∘ Equiv.swap (m - 1) first) := by
  split_ifs
  · exact permuted_swap a hm.le hml le_rfl (by omega)
  · exact permuted_swap a (by omega) (by omega) le_rfl (by omega)

lemma sort_permuted (n : ℕ) (a : ℕ → α) (first last : ℕ) : Permuted first last a (sort cmp n a first last) := by
  induction n generalizing a first last with
  | zero => exact .refl first last a
  | succ n ih =>
    by_cases hlt : first < last
    · obtain ⟨a', m, hperm, hm, hml, -, -, heq⟩ := @sort_succ α cmp first last hlt a
      rw [heq]
      exact ((hperm.widen (by omega) le_rfl).trans (permuted_exchange hm hml a')).trans
        (((ih _ first (m - 1)).widen le_rfl (by omega)).trans ((ih _ m last).widen (by omega) le_rfl))
    · rw [sort, if_neg hlt]
      exact .refl first last a

/-! ### A comparison that answers as an order does -/

/-- What the comparison says of two elements is so in the order. -/
def Answers (cmp : α → α → ℤ) (le : α → α → Prop) (x y : α) : Prop :=
  (cmp x y ≤ 0 → le x y) ∧ (0 ≤ cmp x y → le y x)

section Sorted

variable {le : α → α → Prop} [Std.Refl le]

/-- After the exchange the pivot lies between the two parts. -/
lemma between_exchange (hcmp : ∀ i j, Answers cmp le (a i) (a j)) {m : ℕ} (hm : first < m)
    (hleft : ∀ j, first < j → j < m → cmp (a j) (a first) ≤ 0)
    (hright : ∀ j, m < j → j ≤ last → 0 ≤ cmp (a j) (a first)) {b : ℕ → α}
    (hb : b = if cmp (a m) (a first) ≤ 0 then a ∘ Equiv.swap m first else a ∘ Equiv.swap (m - 1) first) :
    (∀ j, first ≤ j → j ≤ m - 1 → le (b j) (a first)) ∧ ∀ j, m ≤ j → j ≤ last → le (a first) (b j) := by
  have hbefore : ∀ j, first ≤ j → j < m → le (a j) (a first) := by
    intro j hj hjm
    rcases Nat.eq_or_lt_of_le hj with rfl | hlt
    · exact refl_of le _
    · exact (hcmp j first).1 (hleft j hlt hjm)
  have hafter : ∀ j, m < j → j ≤ last → le (a first) (a j) := fun j hj hjl => (hcmp j first).2 (hright j hj hjl)
  subst hb
  split_ifs with hle
  · refine ⟨fun j hj hjm => ?_, fun j hj hjl => ?_⟩
    · rcases Nat.eq_or_lt_of_le hj with rfl | hlt
      · rw [Function.comp_apply, Equiv.swap_apply_right]
        exact (hcmp m first).1 hle
      · rw [Function.comp_apply, Equiv.swap_apply_of_ne_of_ne (by omega) (by omega)]
        exact hbefore j hj (by omega)
    · rcases Nat.eq_or_lt_of_le hj with rfl | hlt
      · rw [Function.comp_apply, Equiv.swap_apply_left]
        exact refl_of le _
      · rw [Function.comp_apply, Equiv.swap_apply_of_ne_of_ne (by omega) (by omega)]
        exact hafter j hlt hjl
  · refine ⟨fun j hj hjm => ?_, fun j hj hjl => ?_⟩
    · rw [Function.comp_apply, Equiv.swap_apply_def]
      split_ifs
      · exact refl_of le _
      · exact hbefore (m - 1) (by omega) (by omega)
      · exact hbefore j hj (by omega)
    · rw [Function.comp_apply, Equiv.swap_apply_of_ne_of_ne (by omega) (by omega)]
      rcases Nat.eq_or_lt_of_le hj with rfl | hlt
      · exact (hcmp m first).2 (by omega)
      · exact hafter j hlt hjl

/-- With a comparison that answers as an order does, `sort` sorts. -/
lemma sort_sorted [IsTrans α le] (hcmp : ∀ i j, Answers cmp le (a i) (a j)) (hn : last - first < n) {i j : ℕ} (hi : first ≤ i)
    (hij : i ≤ j) (hj : j ≤ last) : le (sort cmp n a first last i) (sort cmp n a first last j) := by
  induction n generalizing a first last i j with
  | zero => omega
  | succ n ih =>
    have hpermuted : ∀ {a' first last}, Permuted first last a a' → ∀ i j, Answers cmp le (a' i) (a' j) := by
      rintro _ _ _ ⟨σ, -, rfl⟩ i j
      exact hcmp (σ i) (σ j)
    by_cases hlt : first < last
    · obtain ⟨a', m, hperm, hm, hml, hleft, hright, heq⟩ := @sort_succ α cmp first last hlt a
      have hperm' : Permuted first last a a' := hperm.widen (by omega) le_rfl
      have hexchange := @permuted_exchange α cmp first last m hm hml a'
      rw [heq]
      obtain ⟨hbefore, hafter⟩ := between_exchange (hpermuted hperm') hm hleft hright rfl
      set b := if cmp (a' m) (a' first) ≤ 0 then a' ∘ Equiv.swap m first else a' ∘ Equiv.swap (m - 1) first
      -- the first part is sorted, then the second one
      have hb := hperm'.trans hexchange
      have hc := @sort_permuted α cmp n b first (m - 1)
      have hsorted := fun i j => @ih b first (m - 1) (hpermuted hb) (by omega) i j
      set c := sort cmp n b first (m - 1)
      have hd := @sort_permuted α cmp n c m last
      have hc' := hb.trans (hc.widen le_rfl (by omega))
      have hsorted' := fun i j => @ih c m last (hpermuted hc') (by omega) i j
      set d := sort cmp n c m last
      rcases Nat.lt_or_ge j m with hjm | hmj
      · rw [hd.moved.outside i (.inl (by omega)), hd.moved.outside j (.inl hjm)]
        exact hsorted i j hi hij (by omega)
      · rcases Nat.lt_or_ge i m with him | hmi
        · obtain ⟨i', hi', hi'm, heqi⟩ := hc.inside hi (by omega)
          obtain ⟨j', hj', hj'l, heqj⟩ := hd.inside hmj hj
          rw [hd.moved.outside i (.inl him), heqi, heqj, hc.moved.outside j' (.inr (by omega))]
          exact trans_of le (hbefore i' hi' hi'm) (hafter j' hj' hj'l)
        · exact hsorted' i j hmi hij hj
    · obtain rfl : i = j := by omega
      exact refl_of le _

end Sorted

/-- `x` comes before every other element. -/
def Foremost (cmp : α → α → ℤ) (x : α) (a : ℕ → α) : Prop := ∀ j, a j ≠ x → cmp x (a j) < 0 ∧ 0 < cmp (a j) x

lemma Foremost.moved (h : Foremost cmp x a) (hm : Moved first last a a') : Foremost cmp x a' := fun j hj => by
  obtain ⟨i, hi⟩ := hm.old j
  rw [hi] at hj ⊢
  exact h i hj

/-- After the exchange such an element is in the first part. -/
lemma Foremost.exchange (h : Foremost cmp x a) {m : ℕ} (hm : first < m)
    (hright : ∀ j, m < j → j ≤ last → 0 ≤ cmp (a j) (a first)) (hin : ∃ i, first ≤ i ∧ i ≤ last ∧ a i = x) :
    ∃ j, first ≤ j ∧ j ≤ m - 1 ∧
      (if cmp (a m) (a first) ≤ 0 then a ∘ Equiv.swap m first else a ∘ Equiv.swap (m - 1) first) j = x := by
  obtain ⟨i, hif, hil, hi⟩ := hin
  by_cases hpivot : a first = x
  · -- the pivot goes to the end of the part, unless it is exchanged with itself
    split_ifs with hle
    · refine ⟨first, le_rfl, by omega, ?_⟩
      rw [Function.comp_apply, Equiv.swap_apply_right]
      by_contra hne
      have := (h m hne).2
      rw [hpivot] at hle
      omega
    · refine ⟨m - 1, by omega, le_rfl, ?_⟩
      rw [Function.comp_apply, Equiv.swap_apply_left]
      exact hpivot
  · have hbefore := (h first hpivot).1
    have him : i ≤ m := by
      by_contra hout
      have := hright i (by omega) hil
      rw [hi] at this
      omega
    have hfi : i ≠ first := by
      rintro rfl
      exact hpivot hi
    rcases eq_or_lt_of_le him with rfl | hlt
    · rw [hi, if_pos hbefore.le]
      refine ⟨first, le_rfl, by omega, ?_⟩
      rw [Function.comp_apply, Equiv.swap_apply_right]
      exact hi
    · split_ifs
      · refine ⟨i, hif, by omega, ?_⟩
        rw [Function.comp_apply, Equiv.swap_apply_of_ne_of_ne hlt.ne hfi]
        exact hi
      · by_cases hend : i = m - 1
        · refine ⟨first, le_rfl, by omega, ?_⟩
          rw [Function.comp_apply, Equiv.swap_apply_right, ← hend]
          exact hi
        · refine ⟨i, hif, by omega, ?_⟩
          rw [Function.comp_apply, Equiv.swap_apply_of_ne_of_ne hend hfi]
          exact hi

/-- An element that comes before every other is sorted to the front. -/
lemma sort_front (hx : Foremost cmp x a) (hin : ∃ i, first ≤ i ∧ i ≤ last ∧ a i = x) (hn : last - first < n) :
    sort cmp n a first last first = x := by
  induction n generalizing a first last with
  | zero => omega
  | succ n ih =>
    by_cases hlt : first < last
    · obtain ⟨a', m, hperm, hm, hml, -, hright, heq⟩ := @sort_succ α cmp first last hlt a
      have hmoved' : Moved first last a a' := (hperm.widen (by omega) le_rfl).moved
      have hx' := hx.moved hmoved'
      obtain ⟨i₀, hi₀, hil₀, hax⟩ := hin
      obtain ⟨i, hif, hil, hi⟩ := hmoved'.kept i₀ hi₀ hil₀
      rw [heq, (sort_permuted n _ m last).moved.outside first (.inl hm)]
      exact ih (hx'.moved (permuted_exchange hm hml a').moved) (hx'.exchange hm hright ⟨i, hif, hil, hi.trans hax⟩) (by omega)
    · obtain ⟨i, hif, hil, hi⟩ := hin
      obtain rfl : i = first := by omega
      rw [sort, if_neg hlt]
      exact hi

/-! ### The sorted list -/

lemma getD_mem_cons (y : α) (ys : List α) (i : ℕ) : (y :: ys).getD i y ∈ y :: ys := by
  rw [List.getD_eq_getElem?_getD]
  cases hi : (y :: ys)[i]? with
  | none => exact List.mem_cons_self
  | some z => exact List.mem_of_getElem? hi

lemma map_range_getD (l : List α) (y : α) : (List.range l.length).map (fun i => l.getD i y) = l := by
  apply List.ext_getElem
  · rw [List.length_map, List.length_range]
  · intro i hi hil
    rw [List.getElem_map, List.getElem_range, List.getD_eq_getElem?_getD, List.getElem?_eq_getElem hil, Option.getD_some]

/-- An order of the places is an order of the elements. -/
lemma Permuted.perm (h : Permuted 0 n a a') : ((List.range (n + 1)).map a').Perm ((List.range (n + 1)).map a) := by
  obtain ⟨σ, hσ, rfl⟩ := h
  rw [← List.map_map]
  apply List.Perm.map
  apply (List.perm_ext_iff_of_nodup (List.nodup_range.map σ.injective) List.nodup_range).2
  intro k
  rw [List.mem_map, List.mem_range]
  constructor
  · rintro ⟨j, hj, rfl⟩
    rw [List.mem_range] at hj
    by_contra hout
    have := σ.injective (hσ (σ j) (.inr (by omega)))
    omega
  · intro hk
    refine ⟨σ.symm k, List.mem_range.2 ?_, σ.apply_symm_apply k⟩
    by_contra hout
    have := hσ (σ.symm k) (.inr (by omega))
    rw [σ.apply_symm_apply] at this
    omega

/-- Nothing is lost and nothing is added. -/
lemma quickSort_perm (l : List α) : (quickSort cmp l).Perm l := by
  cases l with
  | nil => exact .nil
  | cons y ys =>
    have hperm := (@sort_permuted α cmp (y :: ys).length (fun i => (y :: ys).getD i y) 0 ys.length).perm
    have hrange := map_range_getD (y :: ys) y
    rw [List.length_cons] at hrange
    rw [hrange] at hperm
    exact hperm

/-- With a comparison that answers as an order does on the elements, they are in this order afterwards. -/
lemma quickSort_sorted {le : α → α → Prop} [Std.Refl le] [IsTrans α le] {l : List α}
    (hcmp : ∀ x ∈ l, ∀ y ∈ l, Answers cmp le x y) : (quickSort cmp l).Pairwise le := by
  cases l with
  | nil => exact .nil
  | cons y ys =>
    have hanswers : ∀ i j, Answers cmp le ((y :: ys).getD i y) ((y :: ys).getD j y) := fun i j =>
      hcmp _ (getD_mem_cons y ys i) _ (getD_mem_cons y ys j)
    rw [quickSort, List.pairwise_map]
    apply (List.pairwise_lt_range).imp_of_mem
    intro i j _ hj hij
    rw [List.mem_range, List.length_cons] at hj
    exact sort_sorted hanswers (by rw [List.length_cons]; omega) (Nat.zero_le i) hij.le
      (by rw [List.length_cons]; omega)

/-- An element that comes before every other is the first one of the sorted list. -/
theorem quickSort_head {l : List α} (hx : x ∈ l) (hfirst : ∀ y ∈ l, y ≠ x → cmp x y < 0 ∧ 0 < cmp y x) :
    (quickSort cmp l).head? = some x := by
  cases l with
  | nil => cases hx
  | cons y ys =>
    obtain ⟨i, hi, hix⟩ := List.getElem_of_mem hx
    have hin : (y :: ys).getD i y = x := by
      rw [List.getD_eq_getElem?_getD, List.getElem?_eq_getElem hi, hix]
      rfl
    have hfront : sort cmp (y :: ys).length (fun i => (y :: ys).getD i y) 0 ((y :: ys).length - 1) 0 = x :=
      sort_front (fun j hj => hfirst _ (getD_mem_cons y ys j) hj) ⟨i, Nat.zero_le i, by omega, hin⟩
        (by rw [List.length_cons]; omega)
    rw [quickSort, List.head?_map, List.length_cons, List.range_succ_eq_map, List.head?_cons, Option.map_some, ← hfront,
      List.length_cons]

end Rrdtool
