import Rrdtool.Rpn.Percent

/-!
# The median of the known values

`v1,...,vn,n,MEDIAN` moves the known values to the front of the block that holds the operands, with one pointer from
each end, and sorts them there. `Moving` is what holds while the pointers come closer: everything in front of the first
one is known, and no known value has been lost. `opMedian_median` says that what is left is the median.
-/

namespace Rrdtool

open Checked Ranking

/-! ### The known values are moved to the front -/

/-- The loop has come to this point; `known` are the known values that there are. -/
structure Moving (st : CalcState) (lo : ℤ) (known : List RrdValue) (goodvals badvals : ℤ) (st' : CalcState) : Prop where
  frame : SameFrame st st'
  lo_le : lo ≤ goodvals
  le : goodvals ≤ badvals
  le_top : badvals ≤ st.stptr
  front : ∀ i, lo ≤ i → i < goodvals → (st'.s i).isnan = false
  known : (knownValues (block st'.s lo (badvals - lo + 1).toNat)).Perm known
  below : ∀ i < lo, st'.s i = st.s i

section Moving

variable {st st' : CalcState} {lo goodvals badvals : ℤ} {known xs ys : List RrdValue} {s : ℤ → RrdValue} {n : ℕ}

@[simp] lemma knownValues_append : knownValues (xs ++ ys) = knownValues xs ++ knownValues ys := List.filter_append ..

lemma knownValues_eq_self (h : ∀ x ∈ xs, x.isnan = false) : knownValues xs = xs :=
  List.filter_eq_self.2 fun x hx => by rw [h x hx]; rfl

lemma block_succ (s : ℤ → RrdValue) (lo : ℤ) (n : ℕ) : block s lo (n + 1) = block s lo n ++ [s (lo + n)] := by
  rw [block_add]
  simp [block]

lemma Moving.start (hn : 0 < n) (hlo : lo + n = st.stptr + 1) :
    Moving st lo (knownValues (block st.s lo n)) lo st.stptr st := by
  have hlen : (st.stptr - lo + 1).toNat = n := by omega
  refine ⟨SameFrame.refl st, le_refl lo, by omega, le_refl _, fun i h₁ h₂ => absurd h₁ h₂.not_ge, ?_, fun _ _ => rfl⟩
  rw [hlen]

lemma Moving.good (h : Moving st lo known goodvals badvals st') (hlt : goodvals < badvals)
    (hgood : (st'.s goodvals).isnan = false) : Moving st lo known (goodvals + 1) badvals st' := by
  refine ⟨h.frame, ?_, hlt, h.le_top, fun i hlo hi => ?_, h.known, h.below⟩
  · have := h.lo_le
    omega
  · rcases lt_or_eq_of_le (Int.lt_add_one_iff.1 hi) with hi | rfl
    · exact h.front i hlo hi
    · exact hgood

/-- The unknown value is overwritten with the last one. -/
lemma Moving.bad (h : Moving st lo known goodvals badvals st') (hlt : goodvals < badvals)
    (hbad : (st'.s goodvals).isnan = true) : Moving st lo known goodvals (badvals - 1)
      { st' with s := Function.update st'.s goodvals (st'.s badvals) } := by
  have hlo := h.lo_le
  refine ⟨h.frame, hlo, by omega, ?_, fun i hi hgood => ?_, ?_, fun i hi => ?_⟩
  · have := h.le_top
    omega
  · show (Function.update st'.s goodvals (st'.s badvals) i).isnan = false
    rw [Function.update_of_ne (by omega)]
    exact h.front i hi hgood
  · apply List.Perm.trans _ h.known
    -- what lies in front of the place, and behind it
    obtain ⟨a, ha⟩ := Int.le.dest hlo
    obtain ⟨b, hb⟩ := Int.le.dest (show goodvals + 1 ≤ badvals by omega)
    have hlen : (badvals - 1 - lo + 1).toNat = a + (1 + b) := by omega
    have hlen' : (badvals - lo + 1).toNat = a + (1 + b) + 1 := by omega
    have hfront : block (Function.update st'.s goodvals (st'.s badvals)) lo a = block st'.s lo a :=
      block_congr fun i _ hi => Function.update_of_ne (by omega) _ _
    have hback : block (Function.update st'.s goodvals (st'.s badvals)) (goodvals + 1) b =
        block st'.s (goodvals + 1) b :=
      block_congr fun i hi _ => Function.update_of_ne (by omega) _ _
    have hplace : lo + a + (1 : ℕ) = goodvals + 1 := by
      push_cast
      omega
    have hlast : lo + (a + (1 + b) : ℕ) = badvals := by
      push_cast
      omega
    have hone : ∀ f : ℤ → RrdValue, block f (lo + a) 1 = [f goodvals] := fun f => by
      rw [ha]
      simp [block]
    have hnan : knownValues [st'.s goodvals] = [] := by simp [knownValues, hbad]
    show (knownValues (block (Function.update st'.s goodvals (st'.s badvals)) lo _)).Perm _
    rw [hlen, hlen', block_succ, block_add, block_add, block_add, block_add, hplace, hfront, hback, hlast, hone, hone,
      Function.update_self]
    simp only [knownValues_append, hnan, List.nil_append, List.append_assoc]
    exact List.Perm.append_left _ List.perm_append_comm
  · show Function.update st'.s goodvals (st'.s badvals) i = st.s i
    rw [Function.update_of_ne (by omega)]
    exact h.below i hi

/-- The pointers meet. -/
lemma Moving.loop (h : Moving st lo known goodvals badvals st') (h0 : 0 ≤ lo) (hdc : st.stptr < st.dcStacksize)
    (hn : badvals - goodvals = n) :
    ∃ meet st'', medianLoop n goodvals badvals (badvals - lo + 1) st' = .ok (meet, meet - lo + 1, st'') ∧
      Moving st lo known meet meet st'' := by
  induction n generalizing goodvals badvals st' with
  | zero =>
    obtain rfl : goodvals = badvals := by omega
    exact ⟨goodvals, st', rfl, h⟩
  | succ n ih =>
    push_cast at hn
    obtain ⟨hptr, hsize⟩ := h.frame
    have hlo := h.lo_le
    have htop := h.le_top
    have hrd : rd st' st'.stptr goodvals = .ok (st'.s goodvals) := if_pos (by omega)
    rw [medianLoop, if_pos (by omega), hrd, ok_bind]
    cases hgood : (st'.s goodvals).isnan with
    | true =>
      have hrd' : rd st' st'.stptr badvals = .ok (st'.s badvals) := if_pos (by omega)
      have hwr : wr st' goodvals (st'.s badvals) =
          .ok { st' with s := Function.update st'.s goodvals (st'.s badvals) } := if_pos (by omega)
      obtain ⟨meet, st'', hrun, hmoving⟩ := ih (h.bad (by omega) hgood) (by omega)
      refine ⟨meet, st'', ?_, hmoving⟩
      rw [if_pos rfl, hrd', ok_bind, hwr, ok_bind, ← hrun]
      congr 1
      ring
    | false =>
      obtain ⟨meet, st'', hrun, hmoving⟩ := ih (h.good (by omega) hgood) (by omega)
      exact ⟨meet, st'', by rw [if_neg (by simp), hrun], hmoving⟩

/-- Where the pointers have met, the known values are a block of their own. -/
lemma Moving.done (h : Moving st lo known goodvals goodvals st') :
    ∃ k : ℕ, (if (st'.s goodvals).isnan then goodvals - lo + 1 - 1 else goodvals - lo + 1) = k ∧
      (block st'.s lo k).Perm known := by
  obtain ⟨a, ha⟩ := Int.le.dest h.lo_le
  have hlen : (goodvals - lo + 1).toNat = a + 1 := by omega
  have hfront : knownValues (block st'.s lo a) = block st'.s lo a := by
    apply knownValues_eq_self
    intro x hx
    obtain ⟨k, hk, rfl⟩ := List.mem_map.1 hx
    have := List.mem_range.1 hk
    exact h.front _ (by omega) (by omega)
  have hknown := h.known
  rw [hlen, block_succ, knownValues_append, hfront, ha] at hknown
  split
  · rename_i hbad
    refine ⟨a, by omega, ?_⟩
    simpa [knownValues, hbad] using hknown
  · rename_i hgood
    refine ⟨a + 1, by push_cast; omega, ?_⟩
    rw [block_succ, ha]
    simpa [knownValues, hgood] using hknown

end Moving

/-! ### The median -/

/-- The numbers among the values. -/
def finValues (vs : List RrdValue) : List ℚ := vs.filterMap fun v =>
  match v with
  | .fin x => some x
  | _ => none

/-- The median of the numbers among the values: the mean of the two in the middle if there is an even number of them. -/
@[grind] def median (vs : List RrdValue) : RrdValue :=
  let sorted := (finValues vs).insertionSort (· ≤ ·)
  let n := sorted.length
  if n = 0 then .nan
  else if n % 2 = 1 then .fin (sorted.getD (n / 2) 0)
  else .fin ((sorted.getD (n / 2 - 1) 0 + sorted.getD (n / 2) 0) / 2)

section Median

variable {m : Machine} {st : CalcState} {vs ws : List RrdValue} {count : RrdValue}

lemma knownValues_eq_finValues (h : ∀ v ∈ vs, v.isinf = false) : knownValues vs = (finValues vs).map .fin := by
  induction vs with
  | nil => rfl
  | cons v vs ih =>
    have hv := h v (.head _)
    have hrest := ih fun w hw => h w (.tail _ hw)
    rw [knownValues] at hrest ⊢
    cases v with
    | nan => exact hrest
    | ninf => cases hv
    | pinf => cases hv
    | fin x =>
      rw [List.filter_cons_of_pos rfl, hrest]
      rfl

lemma finValues_knownValues (vs : List RrdValue) : finValues (knownValues vs) = finValues vs := by
  induction vs with
  | nil => rfl
  | cons v vs ih =>
    cases v with
    | nan => exact ih
    | ninf => exact ih
    | pinf => exact ih
    | fin x => exact congrArg (x :: ·) ih

/-- The median is a matter of the known values, in any order. -/
lemma median_eq_of_perm (h : (knownValues ws).Perm (knownValues vs)) : median ws = median vs := by
  have hperm : (finValues ws).Perm (finValues vs) := by
    rw [← finValues_knownValues ws, ← finValues_knownValues vs]
    exact h.filterMap _
  have hsorted : (finValues ws).insertionSort (· ≤ ·) = (finValues vs).insertionSort (· ≤ ·) := by
    apply eq_insertionSort (fun _ _ _ _ _ => Iff.rfl) _ (insertionSort_pairwise fun _ _ _ _ _ => Iff.rfl)
    exact (List.perm_insertionSort _ _).trans hperm
  rw [median, median, hsorted]

lemma consistent_fin (xs : List ℚ) : Consistent (xs.map .fin) := by
  apply List.pairwise_map.2
  apply List.pairwise_of_forall
  intro x y
  rw [rpnCompareDouble_fin, rpnCompareDouble_fin]
  rcases lt_trichotomy x y with h | rfl | h
  · simp [h, h.not_gt]
  · simp
  · simp [h, h.not_gt]

/-- Numbers are sorted as numbers. -/
lemma qsort_fin {xs : List ℚ} {ys : List RrdValue} (h : ys.Perm (xs.map .fin)) :
    qsort ys = (xs.insertionSort (· ≤ ·)).map .fin := by
  have hcons : Consistent ys := by
    have hsymm : ∀ {x y : RrdValue}, rpnCompareDouble x y = -rpnCompareDouble y x →
        rpnCompareDouble y x = -rpnCompareDouble x y := fun hxy => by rw [hxy, neg_neg]
    exact (h.pairwise_iff hsymm).2 (consistent_fin xs)
  symm
  apply eq_insertionSort hcons.compares
  · exact ((List.perm_insertionSort _ xs).map _).trans h.symm
  · apply List.pairwise_map.2
    refine (@insertionSort_pairwise ℚ (· ≤ ·) (· ≤ ·) xs _ _ fun _ _ _ _ _ => Iff.rfl).imp fun hxy => ?_
    simpa [Ascending, level] using hxy

/-- The count is taken off the stack. -/
lemma takeCount_eq (hst : OnTop (vs ++ [count]) st) (hcount : toInt m count = vs.length) :
    takeCount m st = .ok (↑vs.length, st.to (st.stptr - 1)) ∧
      block st.s (st.stptr - 1 - vs.length + 1) vs.length = vs := by
  obtain ⟨hvs, harg⟩ := hst.append
  have hle := hst.le
  rw [List.length_append, List.length_singleton] at hle
  push_cast at hle
  have hn : st.s st.stptr = count := by
    have hplace : [count][0]? = some (st.s (st.stptr - (1 : ℕ) + 1 + (0 : ℕ))) := by
      nth_rewrite 1 [← harg]
      exact getElem?_block Nat.zero_lt_one
    rw [Option.some.inj hplace]
    congr 1
    push_cast
    ring
  refine ⟨?_, hvs⟩
  have hunder : stackunderflow st 0 = .ok () := if_neg (by omega)
  have hrd : rd st st.stptr st.stptr = .ok count := by
    rw [← hn]
    exact if_pos (by omega)
  have hunder' : stackunderflow (st.to (st.stptr - 1)) (vs.length - 1) = .ok () := if_neg (by rw [to_stptr]; omega)
  rw [takeCount, hunder, ok_bind, hrd, ok_bind, hcount]
  dsimp only
  rw [hunder', ok_bind]

/-- The median is in the middle of the sorted numbers. -/
lemma median_eq {k : ℕ} {xs : List RrdValue} (hk : k ≠ 0)
    (hxs : xs = ((finValues vs).insertionSort (· ≤ ·)).map .fin) (hlen : xs.length = k) :
    (k % 2 = 1 → xs[k / 2]? = some (median vs)) ∧
      (k % 2 ≠ 1 → ∃ x y : ℚ, xs[k / 2]? = some (.fin x) ∧ xs[k / 2 - 1]? = some (.fin y) ∧
        median vs = .fin (1 / 2) * (.fin x + .fin y)) := by
  set sorted := (finValues vs).insertionSort (· ≤ ·) with hsorted
  have hn : sorted.length = k := by rw [← hlen, hxs, List.length_map]
  have hplace : ∀ i < k, xs[i]? = some (.fin (sorted.getD i 0)) := fun i hi => by
    rw [hxs, List.getElem?_map, List.getD_eq_getElem?_getD, List.getElem?_eq_getElem (by omega)]
    rfl
  constructor
  · intro hodd
    rw [hplace _ (by omega), median, ← hsorted, hn, if_neg hk, if_pos hodd]
  · intro heven
    refine ⟨_, _, hplace _ (by omega), hplace _ (by omega), ?_⟩
    rw [median, ← hsorted, hn, if_neg hk, if_neg heven]
    show (ExtNum.fin _ : RrdValue) = .fin _
    congr 1
    ring

/-- `OP_MEDIAN` behind its loop. -/
@[grind] def medianTail (elements finalElements : ℤ) (st : CalcState) : Calc CalcState :=
  let top := st.stptr
  let elementPtr := st.stptr - elements + 1
  let st := st.to (st.stptr - elements)
  if finalElements = 0 then push st .nan
  else do
    let st ← sortBlock st top elementPtr finalElements
    let v ← rd st top (elementPtr + finalElements / 2)
    if finalElements % 2 = 1 then push st v
    else do
      let w ← rd st top (elementPtr + finalElements / 2 - 1)
      push st (.fin (1 / 2) * (v + w))

/-- The loop leaves the known values at the beginning of the block. -/
lemma opMedian_eq_medianTail (hst : OnTop (vs ++ [count]) st) (hcount : toInt m count = vs.length) (hne : vs ≠ []) :
    ∃ (k : ℕ) (st' : CalcState), opMedian m st = medianTail vs.length k st' ∧
      (block st'.s (st.stptr - vs.length) k).Perm (knownValues vs) ∧ SameFrame (st.to (st.stptr - 1)) st' ∧
      ∀ i < st.stptr - vs.length, st'.s i = st.s i := by
  obtain ⟨htake, hblock⟩ := takeCount_eq hst hcount
  obtain ⟨hlow, hhigh⟩ := hst.room
  have hle := hst.le
  rw [List.length_append, List.length_singleton] at hle
  push_cast at hle
  have hpos := List.length_pos_iff.2 hne
  have hlo : st.stptr - 1 - vs.length + 1 = st.stptr - vs.length := by ring
  rw [hlo] at hblock
  obtain ⟨meet, st', hloop, hmoving⟩ := (@Moving.start (st.to (st.stptr - 1)) (st.stptr - vs.length) vs.length hpos
    (by rw [to_stptr]; ring)).loop (n := vs.length - 1) (by omega) (by rw [to_stptr, to_dcStacksize]; omega)
    (by rw [to_stptr]; omega)
  obtain ⟨k, hk, hknown⟩ := hmoving.done
  have hmeet := hmoving.lo_le
  have hmeet' := hmoving.le_top
  rw [to_stptr] at hmeet'
  have hrd : rd st' (st.stptr - 1) meet = .ok (st'.s meet) := if_pos (by omega)
  have hargs : medianLoop (↑vs.length - 1 : ℤ).toNat (st.stptr - 1 - vs.length + 1) (st.stptr - 1) vs.length
      (st.to (st.stptr - 1)) = .ok (meet, meet - (st.stptr - vs.length) + 1, st') := by
    rw [← hloop, hlo, to_stptr]
    congr 1
    · omega
    · ring
  rw [to_s, hblock] at hknown
  refine ⟨k, st', ?_, hknown, hmoving.frame, hmoving.below⟩
  rw [opMedian, htake, ok_bind]
  dsimp only [to_stptr]
  rw [hargs, ok_bind]
  dsimp only
  rw [hrd, ok_bind, hk, medianTail, hmoving.frame.1]
  rfl

/-- The known values at the beginning of the block are sorted, and the median is taken. -/
lemma medianTail_replaced {k : ℕ} {st' : CalcState} (hst : OnTop (vs ++ [count]) st)
    (hknown : (block st'.s (st.stptr - vs.length) k).Perm ((finValues vs).map .fin))
    (hframe : SameFrame (st.to (st.stptr - 1)) st') (hbelow : ∀ i < st.stptr - vs.length, st'.s i = st.s i) :
    ∃ st'', medianTail vs.length k st' = .ok st'' ∧ Replaced (vs.length + 1) (median vs) st st'' := by
  obtain ⟨hlow, hhigh⟩ := hst.room
  obtain ⟨hptr, hdc⟩ := hframe
  rw [to_stptr] at hptr
  rw [to_dcStacksize] at hdc
  have hle := hst.le
  rw [List.length_append, List.length_singleton] at hle
  push_cast at hle
  have hkn : k ≤ vs.length := by
    have hlen := hknown.length_eq
    rw [length_block, List.length_map] at hlen
    rw [hlen]
    exact List.length_filterMap_le _ vs
  have hlo : st'.stptr - vs.length + 1 = st.stptr - vs.length := by
    rw [hptr]
    ring
  have hpush : ∀ v (sorted : CalcState), SameFrame (st'.to (st'.stptr - vs.length)) sorted →
      (∀ i < st.stptr - vs.length, sorted.s i = st'.s i) →
      ∃ st'', push sorted v = .ok st'' ∧ Replaced (vs.length + 1) v st st'' := by
    rintro v sorted ⟨hptr', hdc'⟩ hsorted
    apply push_replaced hst.room (by omega) (by push_cast; omega) (by rw [hdc', to_dcStacksize, hdc])
    · rw [hptr', to_stptr, hptr]
      push_cast
      ring
    · intro i hi
      push_cast at hi
      rw [hsorted i (by omega), hbelow i (by omega)]
  rw [medianTail, hlo]
  by_cases hzero : k = 0
  · -- no value is known
    have hmedian : median vs = .nan := by
      rw [hzero] at hknown
      rw [median, if_pos]
      rw [List.length_insertionSort, ← List.length_map ExtNum.fin, ← hknown.length_eq]
      rfl
    rw [if_pos (by exact_mod_cast hzero), hmedian]
    exact hpush .nan _ (SameFrame.refl _) fun _ _ => rfl
  · rw [if_neg (by exact_mod_cast hzero)]
    obtain ⟨sorted, hsort, hsame, hsorted, hrest⟩ := @sortBlockBy_spec qsort (st'.to (st'.stptr - vs.length)) k
      (st.stptr - vs.length) qsort_sorts st'.stptr (by omega) (by omega) (by rw [to_dcStacksize]; omega)
    have hsort' : sortBlock (st'.to (st'.stptr - vs.length)) st'.stptr (st.stptr - vs.length) k = .ok sorted := hsort
    rw [to_s, qsort_fin hknown] at hsorted
    obtain ⟨hodd, heven⟩ := median_eq hzero hsorted length_block
    have hrd : ∀ i : ℕ, ∀ v, i < k → (block sorted.s (st.stptr - vs.length) k)[i]? = some v →
        rd sorted st'.stptr (st.stptr - vs.length + i) = .ok v := fun i v hi hv => by
      rw [← Option.some.inj ((getElem?_block hi).symm.trans hv)]
      apply if_pos
      omega
    have hhalf : st.stptr - vs.length + (k : ℤ) / 2 = st.stptr - vs.length + (k / 2 : ℕ) := by
      push_cast
      ring
    rw [hsort', ok_bind, hhalf]
    by_cases hparity : k % 2 = 1
    · rw [hrd _ _ (by omega) (hodd hparity), ok_bind, if_pos (by omega)]
      exact hpush _ _ hsame hrest
    · obtain ⟨x, y, hx, hy, hmedian⟩ := heven hparity
      have hbefore : st.stptr - vs.length + (k / 2 : ℕ) - 1 = st.stptr - vs.length + (k / 2 - 1 : ℕ) := by omega
      rw [hrd _ _ (by omega) hx, ok_bind, if_neg (by omega), hbefore, hrd _ _ (by omega) hy, ok_bind, hmedian]
      exact hpush _ _ hsame hrest

end Median

/-- `MEDIAN` replaces its operands by the median of the known ones, whatever their order is and wherever the unknown
ones stand. -/
theorem opMedian_median (m : Machine) (st : CalcState) (vs : List RrdValue) (count : RrdValue)
    (hst : OnTop (vs ++ [count]) st) (hcount : toInt m count = vs.length) (hne : vs ≠ [])
    (hvs : ∀ v ∈ vs, v.isinf = false) :
    (∃ st', opMedian m st = .ok st' ∧ Replaced (vs.length + 1) (median vs) st st') ∧
      ∀ ws, (knownValues ws).Perm (knownValues vs) → median ws = median vs := by
  refine ⟨?_, fun ws hperm => median_eq_of_perm hperm⟩
  obtain ⟨k, st', hrun, hknown, hframe, hbelow⟩ := opMedian_eq_medianTail hst hcount hne
  rw [knownValues_eq_finValues hvs] at hknown
  rw [hrun]
  exact medianTail_replaced hst hknown hframe hbelow

/-- `4,nan,1,3,nan,5,MEDIAN`. -/
theorem opMedian_median_five :
    (∃ st', opMedian bareMachine (stackOf [.fin 4, .nan, .fin 1, .fin 3, .nan, .fin 5]) = .ok st' ∧
        Replaced 6 (median [.fin 4, .nan, .fin 1, .fin 3, .nan])
          (stackOf [.fin 4, .nan, .fin 1, .fin 3, .nan, .fin 5]) st') ∧
      ∀ ws, (knownValues ws).Perm (knownValues [.fin 4, .nan, .fin 1, .fin 3, .nan]) →
        median ws = median [.fin 4, .nan, .fin 1, .fin 3, .nan] :=
  opMedian_median bareMachine (stackOf [.fin 4, .nan, .fin 1, .fin 3, .nan, .fin 5])
    [.fin 4, .nan, .fin 1, .fin 3, .nan] (.fin 5) ⟨⟨by decide, by decide⟩, by decide, by decide +kernel⟩
    (by decide +kernel) (by decide) (by decide)

end Rrdtool
