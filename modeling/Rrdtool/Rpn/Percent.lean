import Rrdtool.Lib.Ranked
import Rrdtool.Rpn.Roll

/-!
# The element that `PERCENT` takes

`v1,...,vn,p,n,PERCENT` sorts the `n` values on the stack, where the smallest is the unknown value, and takes the one of
rank `p` percent of `n`, rounded. The rank is counted from the place below the values. For a small `p` it is rounded to
0, and then what lies below them is taken. The comparison puts an infinite value that it finds in its second argument on
the wrong side, and what `qsort` makes of that is not said (`Sorts`). `opPercent_ranked_iff` says when the element is the
right one.
-/

namespace Rrdtool

open Checked Ranking

/-! ### The order of the values -/

/-- The places of the values: the unknown value, then the numbers with the infinite ones at the ends. -/
@[grind] def level : RrdValue → WithBot (WithBot (WithTop ℚ))
  | .nan => ⊥
  | .ninf => (⊥ : WithBot (WithTop ℚ))
  | .fin x => ((x : WithTop ℚ) : WithBot (WithTop ℚ))
  | .pinf => ((⊤ : WithTop ℚ) : WithBot (WithTop ℚ))

/-- The ascending order. -/
@[grind] def Ascending (x y : RrdValue) : Prop := level x ≤ level y

lemma level_injective : Function.Injective level := by
  intro x y h
  cases x <;> cases y <;> simp_all [level]

instance : IsLinearOrder RrdValue Ascending where
  refl x := le_refl (level x)
  trans _ _ _ hxy hyz := le_trans hxy hyz
  antisymm _ _ hxy hyx := level_injective (le_antisymm hxy hyx)
  total x y := le_total (level x) (level y)

/-- The comparison answers the other way round when two of the values change places. It does not for an infinite value
and a finite one, nor for an infinite one and itself. -/
def Consistent (xs : List RrdValue) : Prop := xs.Pairwise fun x y => rpnCompareDouble x y = -rpnCompareDouble y x

instance (xs : List RrdValue) : Decidable (Consistent xs) := inferInstanceAs (Decidable (List.Pairwise _ _))

/-- What is promised of `qsort`. -/
structure Sorts (sort : List RrdValue → List RrdValue) : Prop where
  perm : ∀ xs, (sort xs).Perm xs
  ascending : ∀ xs, Consistent xs → (sort xs).Pairwise Ascending

lemma rpnCompareDouble_fin (x y : ℚ) :
    rpnCompareDouble (.fin x) (.fin y) = if x < y then -1 else if y < x then 1 else 0 := by
  have hsub : ∀ a b : ℚ, (.fin a - .fin b : RrdValue) = .fin (a - b) := fun a b => by
    rw [sub_eq_add_neg]
    rfl
  simp only [rpnCompareDouble, ExtNum.isnan_fin, Bool.false_eq_true, if_false, false_and, hsub, ExtNum.zero_def,
    ExtNum.fin_lt_fin, sub_neg, sub_pos]

lemma ascending_iff {x y : RrdValue} (hne : x ≠ y) (h : rpnCompareDouble x y = -rpnCompareDouble y x) :
    rpnCompareDouble x y ≤ 0 ↔ Ascending x y := by
  cases x with
  | fin x =>
    cases y with
    | fin y =>
      have hplace : Ascending (.fin x) (.fin y) ↔ x ≤ y := by simp [Ascending, level]
      rw [rpnCompareDouble_fin, hplace]
      split_ifs <;> simp <;> linarith
    | nan => simp_all [Ascending, level, rpnCompareDouble]
    | ninf => simp_all [rpnCompareDouble]
    | pinf => simp_all [rpnCompareDouble]
  | nan => cases y <;> simp_all [Ascending, level, rpnCompareDouble]
  | ninf => cases y <;> simp_all [Ascending, level, rpnCompareDouble]
  | pinf => cases y <;> simp_all [Ascending, level, rpnCompareDouble]

lemma Consistent.compares {xs : List RrdValue} (h : Consistent xs) :
    Compares (fun x y => rpnCompareDouble x y ≤ 0) Ascending xs := by
  have hsymm : Std.Symm fun x y => rpnCompareDouble x y = -rpnCompareDouble y x := ⟨fun x y hxy => by
    show rpnCompareDouble y x = -rpnCompareDouble x y
    rw [hxy, neg_neg]⟩
  intro x hx y hy hne
  exact ascending_iff hne (h.forall hx hy hne)

lemma qsort_sorts : Sorts qsort where
  perm xs := List.perm_insertionSort _ xs
  ascending _ h := insertionSort_pairwise h.compares

/-! ### Values on the stack -/

/-- The values of a block of the memory. -/
@[grind] def block (s : ℤ → RrdValue) (lo : ℤ) (n : ℕ) : List RrdValue := (List.range n).map fun (k : ℕ) => s (lo + k)

/-- The values lie on top of the stack, and there is room for more. -/
structure OnTop (xs : List RrdValue) (st : CalcState) : Prop where
  room : Room st
  le : xs.length ≤ st.stptr + 1
  values : topValues st xs.length = xs

/-- The topmost `n` values are replaced by `v`. -/
structure Replaced (n : ℕ) (v : RrdValue) (st st' : CalcState) : Prop where
  stptr : st'.stptr = st.stptr - n + 1
  top : st'.s st'.stptr = v
  below : ∀ i ≤ st.stptr - n, st'.s i = st.s i

section Blocks

variable {s s' : ℤ → RrdValue} {lo : ℤ} {n k : ℕ} {st : CalcState} {xs ys : List RrdValue}

@[simp] lemma length_block : (block s lo n).length = n := by simp [block]

lemma topValues_eq_block : topValues st n = block st.s (st.stptr - n + 1) n := rfl

lemma getElem?_block (h : k < n) : (block s lo n)[k]? = some (s (lo + k)) := by
  simp [block, h]

lemma block_add (s : ℤ → RrdValue) (lo : ℤ) (n k : ℕ) : block s lo (n + k) = block s lo n ++ block s (lo + n) k := by
  rw [block, List.range_add, List.map_append, List.map_map]
  congr 1
  refine List.map_congr_left fun i _ => ?_
  show s (lo + (n + i : ℕ)) = s (lo + n + i)
  congr 1
  push_cast
  ring

lemma block_congr (h : ∀ i, lo ≤ i → i < lo + n → s i = s' i) : block s lo n = block s' lo n := by
  refine List.map_congr_left fun k hk => h _ (by omega) ?_
  have := List.mem_range.1 hk
  omega

/-- Values on top of others. -/
lemma OnTop.append (h : OnTop (xs ++ ys) st) :
    topValues (st.to (st.stptr - ys.length)) xs.length = xs ∧ topValues st ys.length = ys := by
  have hvalues := h.values
  rw [topValues_eq_block, List.length_append, block_add] at hvalues
  obtain ⟨hxs, hys⟩ := List.append_inj hvalues length_block
  constructor
  · rw [topValues_eq_block]
    refine Eq.trans ?_ hxs
    rw [to_stptr, to_s]
    congr 1
    push_cast
    ring
  · rw [topValues_eq_block]
    refine Eq.trans ?_ hys
    congr 1
    push_cast
    ring

/-- What is written to a block. -/
lemma writeBlock_spec {vs : List RrdValue} (h0 : 0 ≤ lo) (h : lo + vs.length ≤ st.dcStacksize) :
    ∃ st', writeBlock st lo vs = .ok st' ∧ SameFrame st st' ∧ block st'.s lo vs.length = vs ∧
      ∀ i < lo, st'.s i = st.s i := by
  induction vs generalizing lo st with
  | nil => exact ⟨st, rfl, SameFrame.refl st, rfl, fun _ _ => rfl⟩
  | cons v vs ih =>
    rw [List.length_cons, Nat.cast_succ] at h
    have hwr : wr st lo v = .ok { st with s := Function.update st.s lo v } := if_pos ⟨h0, by omega⟩
    obtain ⟨st', hst', hsame, hblock, hbelow⟩ := @ih (lo + 1) { st with s := Function.update st.s lo v } (by omega)
      (show lo + 1 + vs.length ≤ st.dcStacksize by omega)
    refine ⟨st', by rw [writeBlock, hwr, ok_bind, hst'], hsame, ?_, fun i hi => ?_⟩
    · have hfirst : st'.s lo = v := by
        rw [hbelow lo (by omega)]
        exact Function.update_self ..
      rw [List.length_cons, add_comm, block_add, Nat.cast_one, hblock]
      simp [block, hfirst]
    · rw [hbelow i (by omega)]
      exact Function.update_of_ne (by omega) _ _

/-- The result goes where the operands have been. -/
lemma push_replaced {st' : CalcState} {v : RrdValue} (hroom : Room st) (hn : 1 ≤ n) (hle : n ≤ st.stptr + 1)
    (hdc : st'.dcStacksize = st.dcStacksize) (hptr : st'.stptr = st.stptr - n)
    (hbelow : ∀ i ≤ st.stptr - n, st'.s i = st.s i) : ∃ st'', push st' v = .ok st'' ∧ Replaced n v st st'' := by
  obtain ⟨hlow, hhigh⟩ := hroom
  have hwr : push st' v =
      .ok { st' with s := Function.update st'.s (st'.stptr + 1) v, stptr := st'.stptr + 1 } := by
    apply if_pos
    rw [to_dcStacksize, hdc, hptr]
    omega
  refine ⟨_, hwr, ?_, Function.update_self .., fun i hi => ?_⟩
  · rw [hptr]
  · show Function.update st'.s (st'.stptr + 1) v i = st.s i
    rw [Function.update_of_ne (by omega)]
    exact hbelow i hi

end Blocks

/-! ### `PERCENT` with any `qsort` -/

/-- `sortBlock` with a `qsort`. -/
def sortBlockBy (sort : List RrdValue → List RrdValue) (st : CalcState) (top lo n : ℤ) : Calc CalcState :=
  if n < 0 then .error (.fault (.read lo))
  else do
    let xs ← readBlock st top lo n.toNat
    writeBlock st lo (sort xs)

/-- `opPercent` with a `qsort`. -/
def opPercentBy (sort : List RrdValue → List RrdValue) (m : Machine) (st : CalcState) : Calc CalcState := do
  stackunderflow st 2
  let elements := toInt m (← rd st st.stptr st.stptr)
  let percent ← rd st (st.stptr - 1) (st.stptr - 1)
  let st := st.to (st.stptr - 2)
  let top := st.stptr
  if percent.isnan ∨ percent < 0 ∨ .fin 100 < percent then .error (.error .percent)
  else do
    stackunderflow st (elements - 1)
    let st ← sortBlockBy sort st top (top - elements + 1) elements
    let st := st.to (st.stptr - elements)
    let v ← rd st top (st.stptr + toInt m (onFinite roundAway (percent * .fin elements / .fin 100)))
    push st v

lemma opPercentBy_qsort : opPercentBy qsort = opPercent := rfl

section Percent

variable {sort : List RrdValue → List RrdValue} {m : Machine} {st : CalcState} {vs : List RrdValue} {count : RrdValue}
  {p : ℚ} {n : ℕ} {lo : ℤ}

/-- A block is sorted in its place. -/
lemma sortBlockBy_spec (hsort : Sorts sort) {top : ℤ} (h0 : 0 ≤ lo) (htop : lo + n ≤ top + 1)
    (hdc : top < st.dcStacksize) :
    ∃ st', sortBlockBy sort st top lo n = .ok st' ∧ SameFrame st st' ∧ block st'.s lo n = sort (block st.s lo n) ∧
      ∀ i < lo, st'.s i = st.s i := by
  have hread := @readBlock_eq st top lo n h0 htop
  have hlen : (sort (block st.s lo n)).length = n := by rw [(hsort.perm _).length_eq, length_block]
  obtain ⟨st', hst', hsame, hblock, hbelow⟩ := @writeBlock_spec lo st (sort (block st.s lo n)) h0 (by rw [hlen]; omega)
  rw [hlen] at hblock
  refine ⟨st', ?_, hsame, hblock, hbelow⟩
  rw [sortBlockBy, if_neg (by omega), Int.toNat_natCast, hread, ok_bind]
  exact hst'

/-- The whole number nearest to `p` percent of `n`. -/
@[grind] def nearestRank (n : ℕ) (p : ℚ) : ℕ := ⌊p * n / 100 + 1 / 2⌋₊

/-- The rank that is meant. -/
def percentRank (n : ℕ) (p : ℚ) : ℕ := max 1 (nearestRank n p)

lemma nearestRank_mono (n : ℕ) : Monotone (nearestRank n) := by
  intro p q h
  apply Nat.floor_mono
  gcongr

lemma nearestRank_le (hp : p ≤ 100) : nearestRank n p ≤ n := by
  have hle : p * n / 100 ≤ n := by
    have := mul_le_mul_of_nonneg_right hp (Nat.cast_nonneg n : (0 : ℚ) ≤ n)
    linarith
  apply Nat.le_of_lt_succ
  apply (Nat.floor_lt' (Nat.succ_ne_zero n)).2
  push_cast
  linarith

lemma one_le_nearestRank_iff : 1 ≤ nearestRank n p ↔ 50 ≤ p * n := by
  rw [nearestRank, Nat.one_le_floor_iff]
  constructor
  · intro h
    linarith
  · intro h
    linarith

/-- The index that the operator computes. -/
lemma toInt_percent (hp : 0 ≤ p) (hrank : nearestRank n p < 2 ^ 31) :
    toInt m (onFinite roundAway (.fin p * .fin ((n : ℤ) : ℚ) / .fin 100)) = nearestRank n p := by
  have hquot : (.fin p * .fin ((n : ℤ) : ℚ) / .fin 100 : RrdValue) = .fin (p * n / 100) := by
    rw [Int.cast_natCast, ← ExtNum.fin_div_fin (by norm_num)]
    rfl
  have hpos : 0 ≤ p * n / 100 := by positivity
  have hround : roundAway (p * n / 100) = ((nearestRank n p : ℤ) : ℚ) := by
    rw [roundAway, if_pos hpos, nearestRank, Int.natCast_floor_eq_floor (by linarith)]
  rw [hquot, onFinite, hround]
  apply toInt_intCast
  · omega
  · exact_mod_cast hrank

/-- The two arguments on top of the values. -/
lemma OnTop.args {x y : RrdValue} (h : OnTop (vs ++ [x, y]) st) :
    topValues (st.to (st.stptr - 2)) vs.length = vs ∧ st.s (st.stptr - 1) = x ∧ st.s st.stptr = y := by
  obtain ⟨hvs, hargs⟩ := h.append
  have hplace : ∀ k : ℕ, k < 2 → [x, y][k]? = some (st.s (st.stptr - 2 + 1 + k)) := fun k hk => by
    rw [← hargs]
    exact getElem?_block hk
  have hx := Option.some.inj (hplace 0 (by decide))
  have hy := Option.some.inj (hplace 1 (by decide))
  refine ⟨hvs, ?_, ?_⟩
  · rw [hx]
    congr 1
    push_cast
    ring
  · rw [hy]
    congr 1
    push_cast
    ring

/-- The operator takes the place of the rank, counted from the one below the values. -/
lemma opPercentBy_eq (hsort : Sorts sort) (hst : OnTop (vs ++ [.fin p, count]) st) (hcount : toInt m count = vs.length)
    (hne : vs ≠ []) (h0 : 0 ≤ p) (h100 : p ≤ 100) :
    ∃ sorted : CalcState, SameFrame (st.to (st.stptr - 2)) sorted ∧
      block sorted.s (st.stptr - 2 - vs.length + 1) vs.length = sort vs ∧
      (∀ i < st.stptr - 2 - vs.length + 1, sorted.s i = st.s i) ∧
      opPercentBy sort m st =
        rd (sorted.to (st.stptr - 2 - vs.length)) (st.stptr - 2)
          (st.stptr - 2 - vs.length + nearestRank vs.length p) >>= push (sorted.to (st.stptr - 2 - vs.length)) := by
  obtain ⟨hvs, hp, hn⟩ := hst.args
  obtain ⟨hlow, hhigh⟩ := hst.room
  have hle := hst.le
  rw [List.length_append, List.length_cons, List.length_cons, List.length_nil] at hle
  push_cast at hle
  have hpos := List.length_pos_iff.2 hne
  have hlen : vs.length < 2 ^ 31 := by
    have := toInt_lt (m := m) count
    omega
  obtain ⟨sorted, hrun, hsame, hblock, hbelow⟩ := @sortBlockBy_spec sort (st.to (st.stptr - 2)) vs.length
    (st.stptr - 2 - vs.length + 1) hsort (st.stptr - 2) (by omega) (by omega) (by rw [to_dcStacksize]; omega)
  rw [topValues_eq_block, to_stptr] at hvs
  rw [hvs] at hblock
  refine ⟨sorted, hsame, hblock, hbelow, ?_⟩
  have hindex := @toInt_percent m p vs.length h0 ((nearestRank_le h100).trans_lt hlen)
  have hunder : stackunderflow st 2 = .ok () := if_neg (by omega)
  have hrd : rd st st.stptr st.stptr = .ok count := by
    rw [← hn]
    exact if_pos (by omega)
  have hrd' : rd st (st.stptr - 1) (st.stptr - 1) = .ok (.fin p) := by
    rw [← hp]
    exact if_pos (by omega)
  have hpercent : ¬ ((.fin p : RrdValue).isnan ∨ (.fin p : RrdValue) < 0 ∨ (.fin 100 : RrdValue) < .fin p) := by
    simp [ExtNum.zero_def, h0, h100]
  have hunder' : stackunderflow (st.to (st.stptr - 2)) (vs.length - 1) = .ok () := if_neg (by rw [to_stptr]; omega)
  have hptr : sorted.stptr = st.stptr - 2 := hsame.1
  unfold opPercentBy
  rw [hunder, ok_bind, hrd, ok_bind]
  dsimp only
  rw [hrd', ok_bind]
  dsimp only [to_stptr]
  rw [if_neg hpercent, hcount, hunder', ok_bind, hrun, ok_bind, hptr, hindex]

/-- An element of the values is taken when the rank is not 0. -/
lemma opPercentBy_ranked (hsort : Sorts sort) (hst : OnTop (vs ++ [.fin p, count]) st)
    (hcount : toInt m count = vs.length) (hne : vs ≠ []) (h0 : 0 ≤ p) (h100 : p ≤ 100) (hrank : 1 ≤ nearestRank vs.length p) :
    ∃ st' v, opPercentBy sort m st = .ok st' ∧ Replaced (vs.length + 2) v st st' ∧
      (sort vs)[nearestRank vs.length p - 1]? = some v := by
  obtain ⟨sorted, ⟨hptr, hdc⟩, hblock, hbelow, hrun⟩ := opPercentBy_eq hsort hst hcount hne h0 h100
  obtain ⟨hlow, hhigh⟩ := hst.room
  have hle := hst.le
  rw [List.length_append, List.length_cons, List.length_cons, List.length_nil] at hle
  push_cast at hle
  have hk := nearestRank_le (n := vs.length) h100
  set k := nearestRank vs.length p
  set base := st.stptr - 2 - vs.length with hbase
  set v := sorted.s (base + k) with hv
  have hrd : rd (sorted.to base) (st.stptr - 2) (base + k) = .ok v := if_pos (by omega)
  obtain ⟨st', hpush, hreplaced⟩ := @push_replaced (vs.length + 2) st (sorted.to base) v hst.room (by omega)
    (by push_cast; omega) (by rw [to_dcStacksize, hdc, to_dcStacksize]) (by rw [to_stptr]; push_cast; omega)
    (fun i hi => hbelow i (by push_cast at hi; omega))
  refine ⟨st', v, by rw [hrun, hrd, ok_bind, hpush], hreplaced, ?_⟩
  rw [← hblock, getElem?_block (by omega), hv]
  congr 2
  omega

/-- Nothing lies below the values of an operator that takes all of the stack. -/
lemma opPercentBy_below (hsort : Sorts sort) (hst : OnTop (vs ++ [.fin p, count]) st)
    (hcount : toInt m count = vs.length) (hne : vs ≠ []) (h0 : 0 ≤ p) (h100 : p ≤ 100) (hrank : nearestRank vs.length p = 0)
    (hall : st.stptr = vs.length + 1) : opPercentBy sort m st = .error (.fault (.read (-1))) := by
  obtain ⟨sorted, -, -, -, hrun⟩ := opPercentBy_eq hsort hst hcount hne h0 h100
  have hrd : rd (sorted.to (st.stptr - 2 - vs.length)) (st.stptr - 2) (st.stptr - 2 - vs.length + (0 : ℕ)) =
      .error (.fault (.read (st.stptr - 2 - vs.length + (0 : ℕ)))) := if_neg (by omega)
  rw [hrun, hrank, hrd, hall]
  show (Except.error (Stop.fault (Fault.read _)) : Calc CalcState) = _
  congr 3
  push_cast
  ring

/-- A stack with nothing else on it. -/
lemma onTop_stackOf (xs : List RrdValue) : ∃ st, OnTop xs st ∧ st.stptr = xs.length - 1 := by
  refine ⟨⟨fun i => xs.getD i.toNat .nan, xs.length - 1, xs.length + 4⟩, ⟨⟨?_, ?_⟩, ?_, ?_⟩, rfl⟩
  · show (-1 : ℤ) ≤ xs.length - 1
    omega
  · show (xs.length - 1 + 5 : ℤ) ≤ xs.length + 4
    omega
  · show (xs.length : ℤ) ≤ xs.length - 1 + 1
    omega
  · apply List.ext_getElem
    · exact length_topValues
    · intro k h₁ h₂
      simp only [topValues, List.getElem_map, List.getElem_range]
      rw [show ((xs.length : ℤ) - 1 - xs.length + 1 + k).toNat = k by omega]
      rw [List.getD_eq_getElem?_getD, List.getElem?_eq_getElem h₂, Option.getD_some]

end Percent

/-- With every `qsort` that keeps its promise `PERCENT` takes a value of the rank that is `p` percent of their number, and
leaves what lies below them. -/
def TakesRank (m : Machine) (vs : List RrdValue) (p : ℚ) (count : RrdValue) : Prop :=
  ∀ sort, Sorts sort → ∀ st, OnTop (vs ++ [.fin p, count]) st → ∃ st' v, opPercentBy sort m st = .ok st' ∧
    Replaced (vs.length + 2) v st st' ∧ v ∈ vs ∧ Ranked Ascending vs (percentRank vs.length p) v

/-- A `qsort` that leaves these values in this order. -/
lemma exists_sorts {vs ys : List RrdValue} (hperm : ys.Perm vs) (h : ¬ Consistent vs) :
    ∃ sort, Sorts sort ∧ sort vs = ys := by
  refine ⟨fun xs => if xs = vs then ys else qsort xs, ⟨fun xs => ?_, fun xs hxs => ?_⟩, if_pos rfl⟩
  · split
    · rename_i heq
      rw [heq]
      exact hperm
    · exact qsort_sorts.perm xs
  · have hne : xs ≠ vs := by
      rintro rfl
      exact h hxs
    rw [if_neg hne]
    exact qsort_sorts.ascending xs hxs

/-- Where the comparison is not consistent, any of the values may be taken. -/
lemma TakesRank.ranked {m : Machine} {vs : List RrdValue} {p : ℚ} {count z : RrdValue} (h : TakesRank m vs p count)
    (hcount : toInt m count = vs.length) (h0 : 0 ≤ p) (h100 : p ≤ 100) (hrank : 1 ≤ nearestRank vs.length p)
    (hcons : ¬ Consistent vs) (hz : z ∈ vs) : Ranked Ascending vs (percentRank vs.length p) z := by
  have hpos := List.length_pos_of_mem hz
  have hk := nearestRank_le (n := vs.length) h100
  obtain ⟨ys, hperm, hys⟩ := exists_perm_getElem? hz (show nearestRank vs.length p - 1 < vs.length by omega)
  obtain ⟨sort, hsort, hsorted⟩ := exists_sorts hperm hcons
  obtain ⟨st, hst, -⟩ := onTop_stackOf (vs ++ [.fin p, count])
  obtain ⟨st', v, hrun, hreplaced, -, hranked⟩ := h sort hsort st hst
  obtain ⟨st'', w, hrun', hreplaced', hw⟩ :=
    opPercentBy_ranked hsort hst hcount (List.length_pos_iff.1 hpos) h0 h100 hrank
  rw [hsorted, hys] at hw
  obtain rfl : st' = st'' := Except.ok.inj (hrun.symm.trans hrun')
  rw [Option.some.inj hw, ← hreplaced'.top, hreplaced.top]
  exact hranked

/-- `PERCENT` takes an element of its window, of a rank that is monotone in `p`, exactly if `p` percent of the values
are at least half a value and the comparison is consistent on them. -/
theorem opPercent_ranked_iff (m : Machine) (vs : List RrdValue) (p : ℚ) (count : RrdValue)
    (hcount : toInt m count = vs.length) (hne : vs ≠ []) (h0 : 0 ≤ p) (h100 : p ≤ 100) :
    (Monotone (percentRank vs.length) ∧ percentRank vs.length p ∈ Set.Icc 1 vs.length ∧ TakesRank m vs p count) ↔
      50 ≤ p * vs.length ∧ (Consistent vs ∨ ∀ x ∈ vs, ∀ y ∈ vs, x = y) := by
  constructor
  · rintro ⟨-, hbounds, htakes⟩
    have hrank : 50 ≤ p * vs.length := by
      by_contra hlow
      have hzero : nearestRank vs.length p = 0 := by
        have := mt one_le_nearestRank_iff.1 hlow
        omega
      obtain ⟨st, hst, hall⟩ := onTop_stackOf (vs ++ [.fin p, count])
      rw [List.length_append] at hall
      obtain ⟨st', v, hrun, -⟩ := htakes qsort qsort_sorts st hst
      rw [opPercentBy_below qsort_sorts hst hcount hne h0 h100 hzero (by simp at hall ⊢; omega)] at hrun
      cases hrun
    refine ⟨hrank, or_iff_not_imp_left.2 fun hcons x hx y hy => ?_⟩
    have hany : ∀ z ∈ vs, Ranked Ascending vs (percentRank vs.length p) z := fun z hz =>
      htakes.ranked hcount h0 h100 (one_le_nearestRank_iff.2 hrank) hcons hz
    exact antisymm_of Ascending ((hany x hx).mono (hany y hy) le_rfl) ((hany y hy).mono (hany x hx) le_rfl)
  · rintro ⟨hrank, hvs⟩
    have hrank' := one_le_nearestRank_iff.2 hrank
    have hk : percentRank vs.length p = nearestRank vs.length p := max_eq_right hrank'
    refine ⟨fun _ _ h => max_le_max le_rfl (nearestRank_mono _ h), ?_, ?_⟩
    · rw [hk]
      exact ⟨hrank', nearestRank_le h100⟩
    · intro sort hsort st hst
      obtain ⟨st', v, hrun, hreplaced, hv⟩ := opPercentBy_ranked hsort hst hcount hne h0 h100 hrank'
      have hmem := (hsort.perm vs).subset (List.mem_of_getElem? hv)
      rw [hk]
      refine ⟨st', v, hrun, hreplaced, hmem, sort vs, hsort.perm vs, ?_, hrank', hv⟩
      rcases hvs with hcons | hsame
      · exact hsort.ascending vs hcons
      · apply List.pairwise_of_forall_mem_list
        intro x hx y hy
        rw [hsame x ((hsort.perm vs).subset hx) y ((hsort.perm vs).subset hy)]
        exact refl_of Ascending y

/-- `5,nan,2,95,3,PERCENT`. -/
theorem opPercent_ranked_iff_three : TakesRank bareMachine [.fin 5, .nan, .fin 2] 95 (.fin 3) :=
  ((opPercent_ranked_iff bareMachine [.fin 5, .nan, .fin 2] 95 (.fin 3) (by decide +kernel) (by decide) (by norm_num)
    (by norm_num)).2 ⟨by norm_num, .inl (by decide +kernel)⟩).2.2

/-- `7,5,0,1,PERCENT` takes the 7. -/
theorem opPercent_below :
    ((opPercent bareMachine (stackOf [.fin 7, .fin 5, .fin 0, .fin 1])).toOption.map fun st => (st.s 0, st.s st.stptr)) =
        some (.fin 7, .fin 7) ∧
      ¬ TakesRank bareMachine [.fin 5] 0 (.fin 1) := by
  have hrun : ((opPercent bareMachine (stackOf [.fin 7, .fin 5, .fin 0, .fin 1])).toOption.map fun st =>
      (st.s 0, st.s st.stptr)) = some (.fin 7, .fin 7) := by
    decide +kernel
  refine ⟨hrun, fun htakes => ?_⟩
  have hst : OnTop ([.fin 5] ++ [.fin 0, .fin 1]) (stackOf [.fin 7, .fin 5, .fin 0, .fin 1]) :=
    ⟨⟨by decide, by decide⟩, by decide, by decide +kernel⟩
  obtain ⟨st', v, hst', hreplaced, hv, -⟩ := htakes qsort qsort_sorts _ hst
  rw [opPercentBy_qsort] at hst'
  rw [hst'] at hrun
  have htop : st'.s st'.stptr = .fin 7 := congrArg Prod.snd (Option.some.inj hrun)
  rw [hreplaced.top] at htop
  rw [htop] at hv
  exact absurd hv (by decide)

-- an infinite value comes before a finite one and behind it
example : ((opPercent bareMachine (stackOf [.fin 1, .pinf, .fin 100, .fin 2])).toOption.map fun st => st.s st.stptr) =
    some (.fin 1) := by
  decide +kernel

end Rrdtool
