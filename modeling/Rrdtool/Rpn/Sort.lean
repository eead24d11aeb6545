import Rrdtool.Rpn.Median

/-!
# The comparison of `SORT`

`rpn_compare_double` (`src/rrd_rpncalc.c`) puts the unknown value first and the numbers in their order. When its first
argument is infinite it answers with the sign of it, and when only the second one is, with the sign of that, where the
opposite one is meant. So a finite value lies above +INF and +INF lies above it and above itself. `SORT`, `MEDIAN`, `PERCENT` and
`PREDICTPERC` give `qsort` this comparison. `rpnCompareDouble_orders_iff` says on which values it is the order that is
meant, and which values `SORT` leaves in ascending order with every `qsort`.
-/

namespace Rrdtool

open Checked Ranking

/-- On these values the comparison is a total preorder, that of the ascending order, and only a value and itself are
equal. -/
structure Orders (xs : List RrdValue) : Prop where
  antisymm : ∀ x ∈ xs, ∀ y ∈ xs, rpnCompareDouble x y = -(rpnCompareDouble y x).sign
  trans : ∀ x ∈ xs, ∀ y ∈ xs, ∀ z ∈ xs, rpnCompareDouble x y ≤ 0 → rpnCompareDouble y z ≤ 0 → rpnCompareDouble x z ≤ 0
  zero : ∀ x ∈ xs, ∀ y ∈ xs, (rpnCompareDouble x y = 0 ↔ x = y)
  ascending : ∀ x ∈ xs, ∀ y ∈ xs, (rpnCompareDouble x y ≤ 0 ↔ Ascending x y)

/-- An infinite value beside the unknown one or the other infinite one, or no infinite value. -/
@[grind] def Clear (x y : RrdValue) : Prop := x.isinf ∨ y.isinf → x.isnan ∨ y.isnan ∨ (x.isinf ∧ y.isinf ∧ x ≠ y)

instance decidableClear (x y : RrdValue) : Decidable (Clear x y) := by
  unfold Clear
  infer_instance

section Compare

variable {x y z : RrdValue} {xs ys : List RrdValue}

/-- The answer is -1, 0 or 1. -/
@[simp] lemma sign_rpnCompareDouble : (rpnCompareDouble x y).sign = rpnCompareDouble x y := by
  cases x with
  | fin x =>
    cases y with
    | fin y =>
      rw [rpnCompareDouble_fin]
      split_ifs <;> rfl
    | nan | ninf | pinf => rfl
  | nan => cases y <;> rfl
  | ninf => cases y <;> rfl
  | pinf => cases y <;> rfl

/-- The answer changes its sign when the two change places, except beside an infinite value that is not clear of the
other. -/
lemma swap_iff_clear : rpnCompareDouble x y = -rpnCompareDouble y x ↔ Clear x y := by
  cases x with
  | fin x =>
    cases y with
    | fin y =>
      have hclear : Clear (.fin x) (.fin y) := fun h => by cases h <;> contradiction
      refine iff_of_true ?_ hclear
      rw [rpnCompareDouble_fin, rpnCompareDouble_fin]
      split_ifs with hlt hgt
      · exact absurd hlt (lt_asymm hgt)
      all_goals rfl
    | nan | ninf | pinf => simp [Clear, rpnCompareDouble, ExtNum.isinf]
  | nan => cases y <;> simp [Clear, rpnCompareDouble]
  | ninf => cases y <;> simp [Clear, rpnCompareDouble, ExtNum.isinf]
  | pinf => cases y <;> simp [Clear, rpnCompareDouble, ExtNum.isinf]

lemma consistent_iff_clear : Consistent xs ↔ xs.Pairwise Clear :=
  List.Pairwise.iff fun _ _ => swap_iff_clear

/-- Only an infinite value is not equal to itself. -/
lemma rpnCompareDouble_self : rpnCompareDouble x x = 0 ↔ x.isinf = false := by
  cases x with
  | fin x => simp [rpnCompareDouble_fin, ExtNum.isinf]
  | nan | ninf | pinf => simp [rpnCompareDouble, ExtNum.isinf]

/-- Without an infinite value the answer is that of the order. -/
lemma rpnCompareDouble_le_iff (hx : x.isinf = false) (hy : y.isinf = false) :
    rpnCompareDouble x y ≤ 0 ↔ Ascending x y := by
  rcases eq_or_ne x y with rfl | hne
  · exact iff_of_true (rpnCompareDouble_self.2 hx).le (refl_of Ascending x)
  · apply ascending_iff hne
    apply swap_iff_clear.2
    rintro (h | h)
    · exact absurd (hx.symm.trans h) Bool.false_ne_true
    · exact absurd (hy.symm.trans h) Bool.false_ne_true

lemma orders_iff : Orders xs ↔ ∀ x ∈ xs, x.isinf = false := by
  constructor
  · intro h x hx
    exact rpnCompareDouble_self.1 ((h.zero x hx x hx).2 rfl)
  · intro hfin
    have hle : ∀ x ∈ xs, ∀ y ∈ xs, (rpnCompareDouble x y ≤ 0 ↔ Ascending x y) := fun x hx y hy =>
      rpnCompareDouble_le_iff (hfin x hx) (hfin y hy)
    have hswap : ∀ x ∈ xs, ∀ y ∈ xs, rpnCompareDouble x y = -rpnCompareDouble y x := by
      intro x hx y hy
      apply swap_iff_clear.2
      rintro (h | h)
      · exact absurd ((hfin x hx).symm.trans h) Bool.false_ne_true
      · exact absurd ((hfin y hy).symm.trans h) Bool.false_ne_true
    refine ⟨fun x hx y hy => ?_, fun x hx y hy z hz hxy hyz => ?_, fun x hx y hy => ⟨fun h => ?_, ?_⟩, hle⟩
    · rw [sign_rpnCompareDouble]
      exact hswap x hx y hy
    · apply (hle x hx z hz).2
      exact trans_of Ascending ((hle x hx y hy).1 hxy) ((hle y hy z hz).1 hyz)
    · have hback : rpnCompareDouble y x = 0 := by
        rw [hswap y hy x hx, h, neg_zero]
      exact antisymm_of Ascending ((hle x hx y hy).1 h.le) ((hle y hy x hx).1 hback.le)
    · rintro rfl
      exact rpnCompareDouble_self.2 (hfin x hx)

/-- Where the comparison is not consistent, one `qsort` or another leaves different values in the wrong order. -/
lemma ascending_of_every_qsort :
    (∀ sort, Sorts sort → (sort xs).Pairwise Ascending) ↔ xs.Pairwise Clear ∨ ∀ x ∈ xs, ∀ y ∈ xs, x = y := by
  constructor
  · intro h
    rw [← consistent_iff_clear]
    refine or_iff_not_imp_left.2 fun hcons x hx y hy => ?_
    have hfirst : ∀ z ∈ xs, Ranked Ascending xs 1 z := by
      intro z hz
      obtain ⟨ys, hperm, hys⟩ := exists_perm_getElem? hz (List.length_pos_of_mem hz)
      obtain ⟨sort, hsort, rfl⟩ := exists_sorts hperm hcons
      exact ⟨sort xs, hperm, h sort hsort, le_rfl, hys⟩
    exact antisymm_of Ascending ((hfirst x hx).mono (hfirst y hy) le_rfl) ((hfirst y hy).mono (hfirst x hx) le_rfl)
  · rintro (hclear | hsame) sort hsort
    · exact hsort.ascending xs (consistent_iff_clear.2 hclear)
    · have hsub := (hsort.perm xs).subset
      apply List.pairwise_of_forall_mem_list
      intro x hx y hy
      rw [hsame x (hsub hx) y (hsub hy)]
      exact refl_of Ascending y

end Compare

/-! ### `SORT` with any `qsort` -/

/-- `opSort` with a `qsort`. -/
def opSortBy (sort : List RrdValue → List RrdValue) (m : Machine) (st : CalcState) : Calc CalcState := do
  let (spn, st) ← takeCount m st
  sortBlockBy sort st st.stptr (st.stptr - spn + 1) spn

lemma opSortBy_qsort : opSortBy qsort = opSort := rfl

/-- With every `qsort` that keeps its promise `SORT` leaves the values in ascending order, and what lies below them as it
is. -/
def SortsAscending (m : Machine) (vs : List RrdValue) (count : RrdValue) : Prop :=
  ∀ sort, Sorts sort → ∀ st, OnTop (vs ++ [count]) st → ∃ st', opSortBy sort m st = .ok st' ∧
    st'.stptr = st.stptr - 1 ∧ (topValues st' vs.length).Perm vs ∧ (topValues st' vs.length).Pairwise Ascending ∧
    ∀ i < st.stptr - vs.length, st'.s i = st.s i

section OpSort

variable {sort : List RrdValue → List RrdValue} {m : Machine} {st : CalcState} {vs : List RrdValue} {count : RrdValue}

/-- The count is taken off and the values below it are handed to `qsort`. -/
lemma opSortBy_eq (hsort : Sorts sort) (hst : OnTop (vs ++ [count]) st) (hcount : toInt m count = vs.length) :
    ∃ st', opSortBy sort m st = .ok st' ∧ st'.stptr = st.stptr - 1 ∧ topValues st' vs.length = sort vs ∧
      ∀ i < st.stptr - vs.length, st'.s i = st.s i := by
  obtain ⟨htake, hvs⟩ := takeCount_eq hst hcount
  obtain ⟨hlow, hhigh⟩ := hst.room
  have hle := hst.le
  rw [List.length_append, List.length_singleton] at hle
  push_cast at hle
  obtain ⟨st', hrun, ⟨hptr, -⟩, hblock, hbelow⟩ := @sortBlockBy_spec sort (st.to (st.stptr - 1)) vs.length
    (st.stptr - 1 - vs.length + 1) hsort (st.stptr - 1) (by omega) (by omega) (by rw [to_dcStacksize]; omega)
  rw [to_stptr] at hptr
  rw [to_s, hvs] at hblock
  refine ⟨st', ?_, hptr, ?_, fun i hi => ?_⟩
  · rw [opSortBy, htake, ok_bind]
    exact hrun
  · rw [topValues_eq_block, hptr]
    exact hblock
  · exact hbelow i (by omega)

lemma sortsAscending_iff (hcount : toInt m count = vs.length) :
    SortsAscending m vs count ↔ ∀ sort, Sorts sort → (sort vs).Pairwise Ascending := by
  constructor
  · intro h sort hsort
    obtain ⟨st, hst, -⟩ := onTop_stackOf (vs ++ [count])
    obtain ⟨st', hrun, -, -, hsorted, -⟩ := h sort hsort st hst
    obtain ⟨st'', hrun', -, hvalues, -⟩ := opSortBy_eq hsort hst hcount
    obtain rfl : st' = st'' := Except.ok.inj (hrun.symm.trans hrun')
    rwa [hvalues] at hsorted
  · intro h sort hsort st hst
    obtain ⟨st', hrun, hptr, hvalues, hbelow⟩ := opSortBy_eq hsort hst hcount
    refine ⟨st', hrun, hptr, ?_, ?_, hbelow⟩
    · rw [hvalues]
      exact hsort.perm vs
    · rw [hvalues]
      exact h sort hsort

end OpSort

/-- The comparison is the order of the values, and `SORT` leaves them in it, exactly if none is infinite. What `SORT`
leaves is ascending also when every infinite value stands beside unknown ones and the other infinite one only, or when all
values are the same. -/
theorem rpnCompareDouble_orders_iff (m : Machine) (vs : List RrdValue) (count : RrdValue)
    (hcount : toInt m count = vs.length) :
    ((Orders vs ∧ SortsAscending m vs count) ↔ ∀ x ∈ vs, x.isinf = false) ∧
      (SortsAscending m vs count ↔ vs.Pairwise Clear ∨ ∀ x ∈ vs, ∀ y ∈ vs, x = y) := by
  have hsorts : SortsAscending m vs count ↔ vs.Pairwise Clear ∨ ∀ x ∈ vs, ∀ y ∈ vs, x = y :=
    (sortsAscending_iff hcount).trans ascending_of_every_qsort
  refine ⟨⟨fun h => orders_iff.1 h.1, fun hfin => ⟨orders_iff.2 hfin, hsorts.2 (.inl ?_)⟩⟩, hsorts⟩
  apply List.pairwise_of_forall_mem_list
  rintro x hx y hy (h | h)
  · exact absurd ((hfin x hx).symm.trans h) Bool.false_ne_true
  · exact absurd ((hfin y hy).symm.trans h) Bool.false_ne_true

/-- `5,nan,-3,3,SORT`. -/
theorem rpnCompareDouble_orders_three :
    Orders [.fin 5, .nan, .fin (-3)] ∧ SortsAscending bareMachine [.fin 5, .nan, .fin (-3)] (.fin 3) :=
  (rpnCompareDouble_orders_iff bareMachine [.fin 5, .nan, .fin (-3)] (.fin 3) (by decide +kernel)).1.2 (by decide)

/-- 1 and +INF lie above each other, +INF lies above itself, and a `qsort` leaves `INF,1,2,SORT` as it is. -/
theorem rpnCompareDouble_infinite :
    rpnCompareDouble (.fin 1) .pinf = 1 ∧ rpnCompareDouble .pinf (.fin 1) = 1 ∧ rpnCompareDouble .pinf .pinf = 1 ∧
      ¬ Orders [.fin 1, .pinf] ∧ ¬ SortsAscending bareMachine [.pinf, .fin 1] (.fin 2) := by
  refine ⟨by decide, by decide, by decide, fun h => ?_, fun h => ?_⟩
  · exact absurd (h.antisymm (.fin 1) (by decide) .pinf (by decide)) (by decide)
  · have hclear := ascending_of_every_qsort.1 ((sortsAscending_iff (by decide +kernel)).1 h)
    exact absurd hclear (by decide)

end Rrdtool
