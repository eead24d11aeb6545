import Rrdtool.Prefill

/-!
# When `add_coverage` is exact

A coverage array is a partition of a range. What the operations on the array come to is said once, as the elements
before the index and those after it (`growCoverage_at`, `setInterval_at`); then one lemma for the loop when the new
interval starts with the current one (`coverageLoop_aligned`) and one when it does not yet (`coverageLoop_spec`).

`is_interval_within_interval` does not look at the position of an interval of one second. An uncovered second before the
new interval is therefore covered as well, and a new interval of one second ends the loop at the first element.
`AddsExactly` says when neither of these matters.
-/

namespace Rrdtool
open Tiling

/-- An uncovered interval of one second that ends before `s`. -/
def Early (s : ℤ) (c : Coverage) : Prop := c.covered = false ∧ c.start = c.stop ∧ c.stop < s

instance (s : ℤ) (c : Coverage) : Decidable (Early s c) := inferInstanceAs (Decidable (_ ∧ _ ∧ _))

/-- What is asked of `add_coverage` for a partition `a` of `lo` to `hi` and a new interval. -/
def Exact (lo hi : ℤ) (a : List Coverage) (start stop : ℤ) (r : CoverageM (List Coverage × ℤ)) : Prop :=
  ∃ a' n, r = .ok (a', n) ∧ Partition lo hi a' ∧
    cover a' = cover a ∪ (Finset.Icc start stop ∩ Finset.Icc lo hi) ∧ n = (cover a' \ cover a).card

/-- The part `s` to `e` of the new interval that lies within the range is empty, or what it adds fits into an `int`, and
  - for more than one second, no single second before `s` is uncovered,
  - for one second, it lies in the first interval, or the first interval and the second are covered. -/
@[grind] def AddsExactly (lo hi : ℤ) (a : List Coverage) (start stop : ℤ) : Prop :=
  min stop hi < max start lo ∨
    ((Finset.Icc (max start lo) (min stop hi) \ cover a).card < 2 ^ 31 ∧
      (max start lo < min stop hi ∧ (∀ c ∈ a, ¬Early (max start lo) c) ∨
        max start lo = min stop hi ∧
          ∃ c ∈ a.head?, max start lo ≤ c.stop ∨ c.covered = true ∧ max start lo ∈ cover a))

/-! ### The array -/

variable {junk c : Coverage} {front rest : List Coverage} {i n k : ℕ} {lo hi start stop m : ℤ} {covered : Bool}

lemma coverageAt_at (hi : i = front.length) : coverageAt (front ++ c :: rest) i = .ok c := by
  subst hi
  rw [coverageAt, List.getElem?_append_right le_rfl, Nat.sub_self]
  rfl

lemma setInterval_at (hi : i = front.length) :
    setInterval (front ++ c :: rest) i covered start stop = .ok (front ++ ⟨covered, start, stop⟩ :: rest) := by
  subst hi
  rw [setInterval, if_pos (by rw [List.length_append, List.length_cons]; omega), List.set_append_right _ _ le_rfl,
    Nat.sub_self, List.set_cons_zero]

lemma growCoverage_at (junk c : Coverage) (rest : List Coverage) (k : ℕ) (hi : i = front.length) :
    ∃ gap : List Coverage, gap.length = k ∧
      growCoverage junk (front ++ c :: rest) i k = .ok (front ++ (gap ++ c :: rest)) := by
  subst hi
  refine ⟨((c :: rest) ++ List.replicate k junk).take k, ?_, ?_⟩
  · rw [List.length_take, List.length_append, List.length_replicate]
    omega
  · rw [growCoverage, if_pos (by rw [List.length_append]; omega), List.append_assoc, List.take_length_add_append,
      List.drop_left, List.append_assoc]

/-- An interval in place of the current one and one after it. -/
lemma grow_two {β : Type} {covered' : Bool} {start' stop' : ℤ} {f : List Coverage → CoverageM β}
    (hi : i = front.length) :
    (do
      let a ← growCoverage junk (front ++ c :: rest) i 1
      let a ← setInterval a i covered start stop
      let a ← setInterval a (i + 1) covered' start' stop'
      f a) = f (front ++ ⟨covered, start, stop⟩ :: ⟨covered', start', stop'⟩ :: rest) := by
  obtain ⟨gap, hgap, heq⟩ := growCoverage_at junk c rest 1 hi
  obtain ⟨g, rfl⟩ := List.length_eq_one_iff.1 hgap
  have hsecond : setInterval (front ++ [⟨covered, start, stop⟩] ++ c :: rest) (i + 1) covered' start' stop' =
      .ok (front ++ [⟨covered, start, stop⟩] ++ ⟨covered', start', stop'⟩ :: rest) :=
    setInterval_at (by rw [List.length_append, hi]; rfl)
  rw [List.append_assoc, List.append_assoc] at hsecond
  rw [heq]
  show (setInterval (front ++ g :: c :: rest) i covered start stop >>= _) = _
  rw [setInterval_at hi]
  show (setInterval (front ++ ([⟨covered, start, stop⟩] ++ c :: rest)) (i + 1) covered' start' stop' >>= f) = _
  rw [hsecond]
  rfl

/-- Three intervals in place of the current one. -/
lemma grow_three {β : Type} {covered' covered'' : Bool} {start' stop' start'' stop'' : ℤ}
    {f : List Coverage → CoverageM β} (hi : i = front.length) :
    (do
      let a ← growCoverage junk (front ++ c :: rest) i 2
      let a ← setInterval a i covered start stop
      let a ← setInterval a (i + 1) covered' start' stop'
      let a ← setInterval a (i + 2) covered'' start'' stop''
      f a) =
      f (front ++ ⟨covered, start, stop⟩ :: ⟨covered', start', stop'⟩ :: ⟨covered'', start'', stop''⟩ :: rest) := by
  obtain ⟨gap, hgap, heq⟩ := growCoverage_at junk c rest 2 hi
  obtain ⟨g, g', rfl⟩ := List.length_eq_two.1 hgap
  have hsecond : setInterval (front ++ [⟨covered, start, stop⟩] ++ g' :: c :: rest) (i + 1) covered' start' stop' =
      .ok (front ++ [⟨covered, start, stop⟩] ++ ⟨covered', start', stop'⟩ :: c :: rest) :=
    setInterval_at (by rw [List.length_append, hi]; rfl)
  have hthird : setInterval (front ++ [⟨covered, start, stop⟩, ⟨covered', start', stop'⟩] ++ c :: rest) (i + 2)
      covered'' start'' stop'' =
      .ok (front ++ [⟨covered, start, stop⟩, ⟨covered', start', stop'⟩] ++ ⟨covered'', start'', stop''⟩ :: rest) :=
    setInterval_at (by rw [List.length_append, hi]; rfl)
  rw [List.append_assoc, List.append_assoc] at hsecond hthird
  rw [heq]
  show (setInterval (front ++ g :: g' :: c :: rest) i covered start stop >>= _) = _
  rw [setInterval_at hi]
  show (setInterval (front ++ ([⟨covered, start, stop⟩] ++ g' :: c :: rest)) (i + 1) covered' start' stop' >>= _) = _
  rw [hsecond]
  show (setInterval (front ++ ([⟨covered, start, stop⟩, ⟨covered', start', stop'⟩] ++ c :: rest)) (i + 2) covered''
    start'' stop'' >>= f) = _
  rw [hthird]
  rfl

/-! ### Intervals -/

/-- An interval of one second lies within every other. -/
lemma isIntervalWithinInterval_iff {start' stop' : ℤ} (h : start ≤ stop) (h' : start' ≤ stop') :
    isIntervalWithinInterval start stop start' stop' = true ↔ start = stop ∨ start' ≤ start ∧ stop ≤ stop' := by
  unfold isIntervalWithinInterval overlap
  split_ifs <;> simp only [decide_eq_true_eq, false_iff] <;> omega

lemma isTimeWithinInterval_iff {t : ℤ} : isTimeWithinInterval t start stop = true ↔ start ≤ t ∧ t ≤ stop := by
  rw [isTimeWithinInterval, Bool.and_eq_true, decide_eq_true_eq, decide_eq_true_eq]

/-- Case (A): an uncovered interval gives its part to the new one. -/
lemma splitCoverage_at (junk : Coverage) (front rest : List Coverage) (m : ℤ) (hi : i = front.length)
    (hc : c.covered = false) (hs : c.start ≤ start) (hle : start ≤ stop) (he : stop ≤ c.stop) :
    ∃ l, splitCoverage junk stop ⟨front ++ c :: rest, start, m⟩ i c =
        .ok ⟨front ++ (l ++ rest), start, s32 (m + (stop - start + 1))⟩ ∧
      Tiles c.start c.stop l ∧ cover l = Finset.Icc start stop := by
  have hnone : ∀ a b : ℤ, (⟨false, a, b⟩ : Tile).cover = ∅ := fun _ _ => rfl
  have hnew : (⟨true, start, stop⟩ : Tile).cover = Finset.Icc start stop := rfl
  unfold splitCoverage
  rw [if_neg (by rw [hc]; exact Bool.false_ne_true)]
  dsimp only
  split_ifs with hall hfirst hlast
  · obtain ⟨rfl, rfl⟩ := hall
    refine ⟨[⟨true, c.start, c.stop⟩], ?_, ⟨rfl, hle, rfl⟩, ?_⟩
    · rw [setInterval_at hi]
      rfl
    · rw [cover_cons, cover_nil, hnew, Finset.union_empty]
  · subst hfirst
    have hne : stop ≠ c.stop := fun h => hall ⟨rfl, h⟩
    refine ⟨[⟨true, c.start, stop⟩, ⟨false, stop + 1, c.stop⟩], ?_, ⟨rfl, hle, rfl, by dsimp only; omega, rfl⟩, ?_⟩
    · rw [grow_two hi]
      rfl
    · rw [cover_cons, cover_cons, cover_nil, hnew, hnone, Finset.union_empty, Finset.union_empty]
  · subst hlast
    refine ⟨[⟨false, c.start, start - 1⟩, ⟨true, start, c.stop⟩], ?_,
      ⟨rfl, by dsimp only; omega, by dsimp only; omega, by dsimp only; omega, rfl⟩, ?_⟩
    · rw [grow_two hi]
      rfl
    · rw [cover_cons, cover_cons, cover_nil, hnew, hnone, Finset.union_empty, Finset.empty_union]
  · refine ⟨[⟨false, c.start, start - 1⟩, ⟨true, start, stop⟩, ⟨false, stop + 1, c.stop⟩], ?_,
      ⟨rfl, by dsimp only; omega, by dsimp only; omega, by dsimp only; omega, rfl, by dsimp only; omega, rfl⟩, ?_⟩
    · rw [grow_three hi]
      rfl
    · rw [cover_cons, cover_cons, cover_cons, cover_nil, hnew, hnone, hnone, Finset.union_empty, Finset.empty_union,
        Finset.union_empty]

/-- Case (A) for an uncovered interval that ends before the new one: the last of the three starts after its end. -/
lemma splitCoverage_outside (hc : c.covered = false) (hpos : c.start ≤ c.stop) (hs : c.stop < start)
    (hle : start ≤ stop) :
    splitCoverage junk stop ⟨c :: rest, start, m⟩ 0 c =
      .ok ⟨⟨false, c.start, start - 1⟩ :: ⟨true, start, stop⟩ :: ⟨false, stop + 1, c.stop⟩ :: rest, start,
        s32 (m + (stop - start + 1))⟩ := by
  have hthree {β : Type} {f : List Coverage → CoverageM β} : (do
      let a ← growCoverage junk ([] ++ c :: rest) 0 2
      let a ← setInterval a 0 false c.start (start - 1)
      let a ← setInterval a (0 + 1) true start stop
      let a ← setInterval a (0 + 2) false (stop + 1) c.stop
      f a) = _ := grow_three rfl
  simp only [List.nil_append] at hthree
  rw [splitCoverage, if_neg (by rw [hc]; exact Bool.false_ne_true)]
  dsimp only
  rw [if_neg (by omega), if_neg (by omega), if_neg (by omega), hthree]
  rfl

/-! ### The loop -/

lemma coverageLoop_within (junk : Coverage) (front rest : List Coverage) (n : ℕ) (m : ℤ) (hi : i = front.length)
    (hle : start ≤ stop) (hpos : c.start ≤ c.stop) (h : start = stop ∨ c.start ≤ start ∧ stop ≤ c.stop) :
    coverageLoop junk stop (n + 1) ⟨front ++ c :: rest, start, m⟩ i =
      splitCoverage junk stop ⟨front ++ c :: rest, start, m⟩ i c := by
  rw [coverageLoop, if_pos (by rw [hi, List.length_append, List.length_cons]; omega)]
  show (coverageAt (front ++ c :: rest) i >>= _) = _
  rw [coverageAt_at hi]
  show (if _ then _ else _) = _
  rw [if_pos ((isIntervalWithinInterval_iff hle hpos).2 h)]

lemma coverageLoop_next (junk : Coverage) (front rest : List Coverage) (n : ℕ) (m : ℤ) (hi : i = front.length)
    (hle : start ≤ stop) (hpos : c.start ≤ c.stop) (h : ¬(start = stop ∨ c.start ≤ start ∧ stop ≤ c.stop)) :
    coverageLoop junk stop (n + 1) ⟨front ++ c :: rest, start, m⟩ i = (do
      let st ← coverCoverage stop ⟨front ++ c :: rest, start, m⟩ i c
      let st ← crossCoverage junk st i c.start c.stop
      coverageLoop junk stop n st (i + 1)) := by
  rw [coverageLoop, if_pos (by rw [hi, List.length_append, List.length_cons]; omega)]
  show (coverageAt (front ++ c :: rest) i >>= _) = _
  rw [coverageAt_at hi]
  show (if _ then _ else _) = _
  rw [if_neg (mt (isIntervalWithinInterval_iff hle hpos).1 h)]

/-- Case (B) leaves a covered interval. -/
lemma coverCoverage_covered (st : AddCoverage) (i : ℕ) (h : c.covered = true) : coverCoverage stop st i c = .ok st := by
  rw [coverCoverage, h, Bool.not_true, Bool.and_false, if_neg Bool.false_ne_true]
  rfl

/-- Case (B) leaves an interval that is not within the new one. -/
lemma coverCoverage_keep (st : AddCoverage) (i : ℕ) (hle : st.start ≤ stop) (hpos : c.start ≤ c.stop)
    (h : ¬(c.start = c.stop ∨ st.start ≤ c.start ∧ c.stop ≤ stop)) : coverCoverage stop st i c = .ok st := by
  rw [coverCoverage, if_neg]
  · rfl
  · rw [Bool.and_eq_true]
    exact fun hw => h ((isIntervalWithinInterval_iff hpos hle).1 hw.1)

lemma coverCoverage_at (hi : i = front.length) (hc : c.covered = false) (hle : start ≤ stop) (hpos : c.start ≤ c.stop)
    (h : c.start = c.stop ∨ start ≤ c.start ∧ c.stop ≤ stop) :
    coverCoverage stop ⟨front ++ c :: rest, start, m⟩ i c =
      .ok ⟨front ++ ⟨true, c.start, c.stop⟩ :: rest, start, s32 (m + (c.stop - c.start + 1))⟩ := by
  rw [coverCoverage, if_pos (by rw [(isIntervalWithinInterval_iff hpos hle).2 h, hc]; rfl)]
  show (setInterval (front ++ c :: rest) i true c.start c.stop >>= _) = _
  rw [setInterval_at hi]
  rfl

/-- Case (C) does nothing before the new interval starts. -/
lemma crossCoverage_before {st : AddCoverage} {orgStart orgEnd : ℤ} (h : orgEnd < st.start) :
    crossCoverage junk st i orgStart orgEnd = .ok st := by
  rw [crossCoverage, if_neg]
  · rfl
  · rw [isTimeWithinInterval_iff]
    omega

/-- Case (C): a covered interval moves the start. -/
lemma crossCoverage_covered {orgStart orgEnd : ℤ} (hi : i = front.length) (hc : c.covered = true)
    (hs : orgStart ≤ start) (he : start ≤ orgEnd) :
    crossCoverage junk ⟨front ++ c :: rest, start, m⟩ i orgStart orgEnd =
      .ok ⟨front ++ c :: rest, orgEnd + 1, m⟩ := by
  rw [crossCoverage, if_pos (isTimeWithinInterval_iff.2 ⟨hs, he⟩)]
  show (coverageAt (front ++ c :: rest) i >>= _) = _
  rw [coverageAt_at hi]
  show (if _ then _ else _) = _
  rw [if_pos hc]
  rfl

/-- Case (C): an uncovered interval is split. -/
lemma crossCoverage_split (junk : Coverage) (front rest : List Coverage) (m : ℤ) (hi : i = front.length)
    (hc : c.covered = false) (hs : c.start < start) (he : start ≤ c.stop) :
    crossCoverage junk ⟨front ++ c :: rest, start, m⟩ i c.start c.stop =
      .ok ⟨front ++ ⟨false, c.start, start - 1⟩ :: ⟨true, start, c.stop⟩ :: rest, c.stop + 1,
        s32 (m + (c.stop - start + 1))⟩ := by
  rw [crossCoverage, if_pos (isTimeWithinInterval_iff.2 ⟨hs.le, he⟩)]
  show (coverageAt (front ++ c :: rest) i >>= _) = _
  rw [coverageAt_at hi]
  show (if _ then _ else if _ then _ else _) = _
  rw [if_neg (by rw [hc]; exact Bool.false_ne_true), if_neg hs.ne]
  dsimp only
  rw [grow_two hi]
  rfl

/-- Case (A): the new interval lies within the current one. -/
lemma coverageLoop_inside (junk : Coverage) (front : List Coverage) (htiles : Tiles lo hi (c :: rest))
    (hs : c.start ≤ start) (hle : start ≤ stop) (he : stop ≤ c.stop) (hm : s32 m = m) :
    ∃ l st, coverageLoop junk stop (n + 1) ⟨front ++ c :: rest, start, m⟩ front.length = .ok st ∧
      st.array = front ++ l ∧ Tiles lo hi l ∧ cover l = cover (c :: rest) ∪ Finset.Icc start stop ∧
      st.newlyCovered = s32 (m + (Finset.Icc start stop \ cover (c :: rest)).card) := by
  have htiles' := htiles
  obtain ⟨rfl, hc, hnext⟩ := htiles
  rw [coverageLoop_within _ _ _ _ _ rfl hle hc (.inr ⟨hs, he⟩)]
  cases hflag : c.covered with
  | true =>
    have hsub : Finset.Icc start stop ⊆ cover (c :: rest) := fun t ht => by
      obtain ⟨h1, h2⟩ := Finset.mem_Icc.1 ht
      exact Finset.mem_union_left _ (mem_cover_tile.2 ⟨hflag, by omega, by omega⟩)
    refine ⟨c :: rest, ⟨front ++ c :: rest, start, m⟩, ?_, rfl, htiles', (Finset.union_eq_left.2 hsub).symm, ?_⟩
    · rw [splitCoverage, if_pos hflag]
      rfl
    · rw [Finset.sdiff_eq_empty_iff_subset.2 hsub, Finset.card_empty, Nat.cast_zero, add_zero, hm]
  | false =>
    obtain ⟨l, heq, hl, hcover⟩ := splitCoverage_at junk front rest m rfl hflag hs hle he
    have hempty : c.cover = ∅ := by rw [Tile.cover, hflag, if_neg Bool.false_ne_true]
    have hdisjoint : Finset.Icc start stop \ cover (c :: rest) = Finset.Icc start stop := by
      rw [cover_cons, hempty, Finset.empty_union, Finset.sdiff_eq_self_iff_disjoint, Finset.disjoint_left]
      intro t ht ht'
      have h1 := (Finset.mem_Icc.1 ht).2
      have h2 := (hnext.bounds ht').1
      omega
    refine ⟨l ++ rest, _, heq, rfl, tiles_append.2 ⟨_, hl, hnext⟩, ?_, ?_⟩
    · rw [cover_append, hcover, cover_cons, hempty, Finset.empty_union, Finset.union_comm]
    · rw [hdisjoint, Int.card_Icc, Int.toNat_of_nonneg (by omega)]
      dsimp only
      congr 1
      omega

/-- The loop where the new interval starts with the current one. -/
lemma coverageLoop_aligned (junk : Coverage) (front : List Coverage) (htiles : Tiles start hi rest)
    (hle : start ≤ stop) (hhi : stop ≤ hi) (hn : rest.length < n) (hm : s32 m = m) :
    ∃ l st, coverageLoop junk stop n ⟨front ++ rest, start, m⟩ front.length = .ok st ∧ st.array = front ++ l ∧
      Tiles start hi l ∧ cover l = cover rest ∪ Finset.Icc start stop ∧
      st.newlyCovered = s32 (m + (Finset.Icc start stop \ cover rest).card) := by
  induction rest generalizing front start m n with
  | nil =>
    have : start = hi + 1 := htiles
    omega
  | cons c rest ih =>
    obtain ⟨n, rfl⟩ : ∃ k, n = k + 1 := ⟨n - 1, by omega⟩
    have hrest : rest.length < n := by
      rw [List.length_cons] at hn
      omega
    have htiles' := htiles
    obtain ⟨rfl, hc, hnext⟩ := htiles
    by_cases hend : stop ≤ c.stop
    · exact coverageLoop_inside junk front htiles' le_rfl hle hend hm
    · -- cases (B) and (C): the rest of the new interval starts with the next one
      have hkept := htiles'.cover_union_Icc (e := stop) (by omega)
      have hcount := htiles'.card_Icc_sdiff (e := stop) (by omega)
      rw [coverageLoop_next _ _ _ _ _ rfl hle hc (by omega), ← hkept, hcount]
      cases hflag : c.covered with
      | true =>
        obtain ⟨l, st, heq, harray, hl, hcover, hnew⟩ := ih (front ++ [c]) hnext (by omega) hrest hm
        have hfull : c.cover = Finset.Icc c.start c.stop := by rw [Tile.cover, hflag, if_pos rfl]
        refine ⟨c :: l, st, ?_, by rw [harray, List.append_assoc]; rfl, ⟨rfl, hc, hl⟩,
          by rw [cover_cons, hcover, hfull], ?_⟩
        · rw [coverCoverage_covered _ _ hflag]
          show (crossCoverage junk ⟨front ++ c :: rest, c.start, m⟩ front.length c.start c.stop >>= _) = _
          rw [crossCoverage_covered rfl hflag le_rfl hc, ← heq, List.append_assoc, List.length_append]
          rfl
        · rw [hnew, hfull, Finset.sdiff_self, Finset.card_empty, zero_add]
      | false =>
        obtain ⟨l, st, heq, harray, hl, hcover, hnew⟩ := ih (front ++ [⟨true, c.start, c.stop⟩])
          (m := s32 (m + (c.stop - c.start + 1))) hnext (by omega) hrest (s32_s32 _)
        have hempty : c.cover = ∅ := by rw [Tile.cover, hflag, if_neg Bool.false_ne_true]
        refine ⟨⟨true, c.start, c.stop⟩ :: l, st, ?_, by rw [harray, List.append_assoc]; rfl, ⟨rfl, hc, hl⟩,
          by rw [cover_cons, hcover]; rfl, ?_⟩
        · rw [coverCoverage_at rfl hflag hle hc (.inr ⟨le_rfl, by omega⟩)]
          show (crossCoverage junk ⟨front ++ ⟨true, c.start, c.stop⟩ :: rest, c.start, _⟩ front.length c.start c.stop
            >>= _) = _
          rw [crossCoverage_covered rfl rfl le_rfl hc, ← heq, List.append_assoc, List.length_append]
          rfl
        · rw [hnew, hempty, Finset.sdiff_empty, Int.card_Icc, s32_add_left]
          push_cast
          rw [Int.toNat_of_nonneg (by omega)]
          congr 1
          ring

/-- Cases (C) and after: the new interval starts within the current one and ends after it. -/
lemma coverageLoop_crossing (junk : Coverage) (front : List Coverage) (htiles : Tiles lo hi (c :: rest))
    (halt : (c :: rest).IsChain fun c d => c.covered ≠ d.covered) (hs : c.start < start) (he : start ≤ c.stop)
    (hlt : c.stop < stop) (hhi : stop ≤ hi) (hn : rest.length + 1 < n) (hm : s32 m = m) :
    ∃ l st, coverageLoop junk stop (n + 1) ⟨front ++ c :: rest, start, m⟩ front.length = .ok st ∧
      st.array = front ++ l ∧ Tiles lo hi l ∧ cover l = cover (c :: rest) ∪ Finset.Icc start stop ∧
      st.newlyCovered = s32 (m + (Finset.Icc start stop \ cover (c :: rest)).card) := by
  obtain ⟨rfl, hc, hnext⟩ := htiles
  -- the two parts of the current interval, before `start` and from it on
  have hcut : cover (c :: rest) =
      (⟨c.covered, c.start, start - 1⟩ : Tile).cover ∪ cover (⟨c.covered, start, c.stop⟩ :: rest) := by
    rw [cover_cons, cover_cons, ← Finset.union_assoc, Tile.cover_cut hs.le he]
  have hparts : Tiles start hi (⟨c.covered, start, c.stop⟩ :: rest) := ⟨rfl, he, hnext⟩
  have hkept := hparts.cover_union_Icc (e := stop) hlt.le
  have hcount := hparts.card_Icc_sdiff (e := stop) hlt.le
  dsimp only at hkept hcount
  have hout : Finset.Icc start stop \ cover (c :: rest) =
      Finset.Icc start stop \ cover (⟨c.covered, start, c.stop⟩ :: rest) := by
    rw [hcut]
    ext t
    simp only [Finset.mem_sdiff, Finset.mem_union, Finset.mem_Icc, not_or]
    refine ⟨fun h => ⟨h.1, h.2.2⟩, fun h => ⟨h.1, fun ht => ?_, h.2⟩⟩
    have := (mem_cover_tile.1 ht).2
    dsimp only at this
    omega
  have hloop : coverageLoop junk stop (n + 1) ⟨front ++ c :: rest, start, m⟩ front.length =
      (crossCoverage junk ⟨front ++ c :: rest, start, m⟩ front.length c.start c.stop >>= fun st =>
        coverageLoop junk stop n st (front.length + 1)) := by
    rw [coverageLoop_next _ _ _ _ _ rfl (by omega) hc (by omega), coverCoverage_keep _ _ (by dsimp only; omega) hc
      (by dsimp only; omega)]
    rfl
  have hsum : cover (c :: rest) ∪ Finset.Icc start stop = (⟨c.covered, c.start, start - 1⟩ : Tile).cover ∪
      (Finset.Icc start c.stop ∪ (cover rest ∪ Finset.Icc (c.stop + 1) stop)) := by
    rw [hcut, Finset.union_assoc, ← hkept]
  rw [hloop, hsum, hout, hcount]
  cases hflag : c.covered with
  | true =>
    obtain ⟨l, st, heq, harray, hl, hcover, hnew⟩ := coverageLoop_aligned junk (front ++ [c])
      hnext (by omega) hhi (by omega : rest.length < n) hm
    have hfull : (⟨true, start, c.stop⟩ : Tile).cover = Finset.Icc start c.stop := rfl
    have hwhole := Tile.cover_cut hs.le he
    rw [hflag] at hwhole
    refine ⟨c :: l, st, ?_, by rw [harray, List.append_assoc]; rfl, ⟨rfl, hc, hl⟩, ?_, ?_⟩
    · rw [crossCoverage_covered rfl hflag hs.le he, ← heq, List.append_assoc, List.length_append]
      rfl
    · rw [cover_cons, hcover, ← hfull, ← hwhole, Finset.union_assoc]
    · rw [hnew, hfull, Finset.sdiff_self, Finset.card_empty, zero_add]
  | false =>
    -- the second part is one more interval before what is left of the new one
    obtain ⟨n, rfl⟩ : ∃ k, n = k + 1 := ⟨n - 1, by omega⟩
    have hfull : (⟨true, start, c.stop⟩ : Tile).cover = Finset.Icc start c.stop := rfl
    have hempty : ∀ a b, (⟨false, a, b⟩ : Tile).cover = ∅ := fun _ _ => rfl
    have hsplit := crossCoverage_split junk front rest m rfl hflag hs he
    have hcard : ((Finset.Icc start c.stop).card : ℤ) = c.stop - start + 1 := by
      rw [Int.card_Icc, Int.toNat_of_nonneg (by omega)]
      ring
    rw [hsplit]
    show ∃ l st, coverageLoop junk stop (n + 1) ⟨front ++ ([⟨false, c.start, start - 1⟩] ++ ⟨true, start, c.stop⟩ ::
      rest), c.stop + 1, s32 (m + (c.stop - start + 1))⟩ (front.length + 1) = _ ∧ _
    rw [← List.append_assoc, hempty, hempty, Finset.empty_union, Finset.sdiff_empty, Nat.cast_add, hcard]
    rcases eq_or_lt_of_le (show c.stop + 1 ≤ stop by omega) with hlast | hmore
    · -- one second is left, which ends the loop; the next interval has it
      obtain ⟨d, rest, rfl⟩ := hnext.eq_cons (by omega)
      have hd : d.covered = true := by
        have h := (List.isChain_cons_cons.1 halt).1
        rw [hflag] at h
        exact Bool.eq_true_of_not_eq_false h.symm
      have hsub : Finset.Icc (c.stop + 1) stop ⊆ cover (d :: rest) := fun t ht => by
        obtain ⟨hds, hdle, -⟩ := hnext
        have := Finset.mem_Icc.1 ht
        exact Finset.mem_union_left _ (mem_cover_tile.2 ⟨hd, by omega, by omega⟩)
      refine ⟨⟨false, c.start, start - 1⟩ :: ⟨true, start, c.stop⟩ :: d :: rest,
        ⟨front ++ [⟨false, c.start, start - 1⟩] ++ ⟨true, start, c.stop⟩ :: d :: rest, c.stop + 1,
          s32 (m + (c.stop - start + 1))⟩, ?_, List.append_assoc _ _ _,
        ⟨rfl, by dsimp only; omega, by dsimp only; omega, by dsimp only; omega, hnext⟩, ?_, ?_⟩
      · rw [coverageLoop_within _ _ _ _ _ (by rw [List.length_append]; rfl) hlast.le he (.inl hlast), splitCoverage,
          if_pos rfl]
        rfl
      · rw [Finset.union_eq_left.2 hsub, cover_cons, cover_cons, hempty, Finset.empty_union, hfull]
      · rw [Finset.sdiff_eq_empty_iff_subset.2 hsub, Finset.card_empty, Nat.cast_zero, add_zero]
    · obtain ⟨l, st, heq, harray, hl, hcover, hnew⟩ := coverageLoop_aligned junk
        (front ++ [⟨false, c.start, start - 1⟩] ++ [⟨true, start, c.stop⟩]) (n := n) hnext (by omega) hhi
        (by omega) (s32_s32 (m + (c.stop - start + 1)))
      refine ⟨⟨false, c.start, start - 1⟩ :: ⟨true, start, c.stop⟩ :: l, st, ?_,
        by rw [harray, List.append_assoc, List.append_assoc]; rfl,
        ⟨rfl, by dsimp only; omega, by dsimp only; omega, by dsimp only; omega, hl⟩, ?_, ?_⟩
      · rw [coverageLoop_next _ _ _ _ _ (by rw [List.length_append]; rfl) hmore.le he (by dsimp only; omega),
          coverCoverage_covered _ _ rfl]
        show (crossCoverage junk ⟨_, c.stop + 1, _⟩ (front.length + 1) start c.stop >>= _) = _
        rw [crossCoverage_before (by dsimp only; omega), ← heq]
        simp only [List.append_assoc, List.length_append, List.length_singleton]
        rfl
      · rw [cover_cons, cover_cons, hempty, Finset.empty_union, hfull, hcover]
      · rw [hnew, s32_add_left, add_assoc]

/-- What the loop makes of the intervals `l` from the index on: `l'`, and `n` for the seconds gained. -/
structure Loops (lo hi start stop m : ℤ) (l l' : List Coverage) (n : ℤ) : Prop where
  tiles : Tiles lo hi l'
  early : ∀ c ∈ l, Early start c → c.start ∈ cover l'
  exact : (∀ c ∈ l, ¬Early start c) → cover l' = cover l ∪ Finset.Icc start stop ∧
    n = s32 (m + (Finset.Icc start stop \ cover l).card)

/-- An interval before the new one that keeps its status, or is not early and changes nothing. -/
lemma Loops.cons {l l' : List Coverage} {m' n : ℤ} {c' : Coverage} (h : Loops (c.stop + 1) hi start stop m' l l' n)
    (hle : c.start ≤ c.stop) (hbefore : c.stop < start) (hs : c'.start = c.start) (he : c'.stop = c.stop)
    (hearly : Early start c → c'.covered = true) (hkeep : ¬Early start c → c' = c ∧ m' = m) :
    Loops c.start hi start stop m (c :: l) (c' :: l') n := by
  constructor
  · exact ⟨hs, by omega, by rw [he]; exact h.tiles⟩
  · intro d hd hde
    rcases List.mem_cons.1 hd with rfl | hd
    · exact Finset.mem_union_left _ (mem_cover_tile.2 ⟨hearly hde, by omega, by omega⟩)
    · exact Finset.mem_union_right _ (h.early d hd hde)
  · intro hnone
    obtain ⟨rfl, rfl⟩ := hkeep (hnone c List.mem_cons_self)
    obtain ⟨hcover, hnew⟩ := h.exact fun d hd => hnone d (List.mem_cons_of_mem _ hd)
    refine ⟨by rw [cover_cons, cover_cons, hcover, Finset.union_assoc], ?_⟩
    have hout : Finset.Icc start stop \ cover (c' :: l) = Finset.Icc start stop \ cover l := by
      ext t
      simp only [cover_cons, Finset.mem_sdiff, Finset.mem_union, Finset.mem_Icc, not_or]
      refine ⟨fun h => ⟨h.1, h.2.2⟩, fun h => ⟨h.1, fun hc => ?_, h.2⟩⟩
      have := (mem_cover_tile.1 hc).2
      omega
    rw [hnew, hout]

/-- The loop for a new interval of more than one second. -/
lemma coverageLoop_spec (junk : Coverage) (front : List Coverage) (htiles : Tiles lo hi rest)
    (halt : rest.IsChain fun c d => c.covered ≠ d.covered)
    (hlo : lo ≤ start) (hlt : start < stop) (hhi : stop ≤ hi) (hn : rest.length + 1 < n) (hm : s32 m = m) :
    ∃ l st, coverageLoop junk stop n ⟨front ++ rest, start, m⟩ front.length = .ok st ∧ st.array = front ++ l ∧
      Loops lo hi start stop m rest l st.newlyCovered := by
  induction rest generalizing lo front m n with
  | nil =>
    have : lo = hi + 1 := htiles
    omega
  | cons c rest ih =>
    obtain ⟨n, rfl⟩ : ∃ k, n = k + 1 := ⟨n - 1, by omega⟩
    have hrest : rest.length + 1 < n := by
      rw [List.length_cons] at hn
      omega
    have htiles' := htiles
    obtain ⟨rfl, hc, hnext⟩ := htiles
    rcases eq_or_lt_of_le hlo with rfl | hstart
    · -- the new interval starts here, and none is before it
      obtain ⟨l, st, heq, harray, hl, hcover, hnew⟩ := coverageLoop_aligned junk front
        (n := n + 1) htiles' hlt.le hhi (by omega) hm
      refine ⟨l, st, heq, harray, hl, fun d hd hde => ?_, fun _ => ⟨hcover, hnew⟩⟩
      have := htiles'.start_le hd
      obtain ⟨-, h1, h2⟩ := hde
      omega
    · have hearly (h : start ≤ c.stop) : ∀ d ∈ c :: rest, ¬Early start d := fun d hd ⟨_, h1, h2⟩ => by
        rcases List.mem_cons.1 hd with rfl | hd
        · omega
        · have := hnext.start_le hd
          omega
      rcases lt_or_ge c.stop start with hbefore | hcross
      · -- only case (B) can apply, to an early interval
        rw [coverageLoop_next _ _ _ _ _ rfl hlt.le hc (by omega)]
        by_cases he : Early start c
        · obtain ⟨l, st, heq, harray, hl⟩ := ih (front ++ [⟨true, c.start, c.stop⟩])
            (m := s32 (m + (c.stop - c.start + 1))) hnext halt.of_cons (by omega) hrest (s32_s32 _)
          refine ⟨⟨true, c.start, c.stop⟩ :: l, st, ?_, by rw [harray, List.append_assoc]; rfl,
            hl.cons hc hbefore rfl rfl (fun _ => rfl) fun h => absurd he h⟩
          rw [coverCoverage_at rfl he.1 hlt.le hc (.inl he.2.1)]
          show (crossCoverage junk ⟨front ++ ⟨true, c.start, c.stop⟩ :: rest, start, _⟩ front.length c.start c.stop
            >>= _) = _
          rw [crossCoverage_before hbefore, ← heq, List.append_assoc, List.length_append]
          rfl
        · obtain ⟨l, st, heq, harray, hl⟩ := ih (front ++ [c]) hnext halt.of_cons (by omega) hrest hm
          refine ⟨c :: l, st, ?_, by rw [harray, List.append_assoc]; rfl,
            hl.cons hc hbefore rfl rfl (fun h => absurd h he) fun _ => ⟨rfl, rfl⟩⟩
          have hkeep : coverCoverage stop ⟨front ++ c :: rest, start, m⟩ front.length c =
              .ok ⟨front ++ c :: rest, start, m⟩ := by
            cases hflag : c.covered with
            | true => exact coverCoverage_covered _ _ hflag
            | false =>
              refine coverCoverage_keep _ _ hlt.le hc fun hw => he ⟨hflag, ?_, hbefore⟩
              dsimp only at hw
              omega
          rw [hkeep]
          show (crossCoverage junk ⟨front ++ c :: rest, start, m⟩ front.length c.start c.stop >>= _) = _
          rw [crossCoverage_before hbefore, ← heq, List.append_assoc, List.length_append]
          rfl
      · by_cases hend : stop ≤ c.stop
        · obtain ⟨l, st, heq, harray, hl, hresult⟩ := coverageLoop_inside junk front (n := n)
            htiles' hstart.le hlt.le hend hm
          exact ⟨l, st, heq, harray, hl, fun d hd hde => absurd hde (hearly hcross d hd), fun _ => hresult⟩
        · obtain ⟨l, st, heq, harray, hl, hresult⟩ := coverageLoop_crossing junk front (n := n)
            htiles' halt hstart hcross (by omega) hhi hrest hm
          exact ⟨l, st, heq, harray, hl, fun d hd hde => absurd hde (hearly hcross d hd), fun _ => hresult⟩

/-! ### Cleanup -/

lemma cleanupCoverage_at (front : List Coverage) (hn : rest.length < n) :
    cleanupCoverage n (front ++ c :: rest) front.length = .ok (front ++ collapse c rest) := by
  induction n generalizing front c rest with
  | zero => exact absurd hn (Nat.not_lt_zero _)
  | succ n ih =>
    rw [cleanupCoverage]
    cases rest with
    | nil =>
      rw [if_neg (by rw [List.length_append, List.length_singleton]; omega)]
      rfl
    | cons d rest =>
      have hnext : coverageAt (front ++ c :: d :: rest) (front.length + 1) = .ok d := by
        have h : coverageAt (front ++ [c] ++ d :: rest) (front.length + 1) = .ok d :=
          coverageAt_at (by rw [List.length_append]; rfl)
        rwa [List.append_assoc] at h
      have hrest : rest.length < n := by
        rw [List.length_cons] at hn
        omega
      rw [if_pos (by rw [List.length_append, List.length_cons, List.length_cons]; omega), coverageAt_at rfl, hnext]
      show (if c.covered = d.covered then _ else _) = _
      rw [collapse]
      split
      · -- the next element is taken out, and the pass stays at its index
        have herase : (front ++ (⟨c.covered, c.start, d.stop⟩ : Coverage) :: d :: rest).eraseIdx (front.length + 1) =
            front ++ ⟨c.covered, c.start, d.stop⟩ :: rest := by
          rw [List.eraseIdx_append_of_length_le (Nat.le_add_right _ 1), Nat.add_sub_cancel_left]
          rfl
        rw [setInterval_at rfl]
        show cleanupCoverage n ((front ++ _ :: d :: rest).eraseIdx (front.length + 1)) front.length = _
        rw [herase]
        exact ih front hrest
      · have h := ih (front ++ [c]) (c := d) hrest
        rwa [List.append_assoc, List.append_assoc, List.length_append] at h

/-! ### The whole function -/

variable {a : List Coverage}

/-- The part of the new interval that lies within the range. -/
lemma icc_inter (start stop lo hi : ℤ) :
    Finset.Icc start stop ∩ Finset.Icc lo hi = Finset.Icc (max start lo) (min stop hi) := by
  ext t
  simp only [Finset.mem_inter, Finset.mem_Icc]
  omega

/-- The function with the ends of the range in place of the first and the last element's. -/
lemma addCoverage_eq (hfirst : c.start = lo) (hlast : ∀ d ∈ (c :: rest).getLast?, d.stop = hi) (hr : lo ≤ hi)
    (hle : start ≤ stop) :
    addCoverage junk (c :: rest) start stop =
      if min stop hi < max start lo then .ok (c :: rest, 0)
      else (do
        let st ← coverageLoop junk (min stop hi) (2 * (c :: rest).length + 1) ⟨c :: rest, max start lo, 0⟩ 0
        let a ← cleanupCoverage (2 * st.array.length) st.array 0
        pure (a, st.newlyCovered)) := by
  obtain ⟨d, hd⟩ : ∃ d, (c :: rest).getLast? = some d := ⟨_, List.getLast?_eq_some_getLast (List.cons_ne_nil c rest)⟩
  have hat : coverageAt (c :: rest) ((c :: rest).length - 1) = .ok d := by
    rw [coverageAt, ← List.getLast?_eq_getElem?, hd]
  have hstop : d.stop = hi := hlast d hd
  have hmax : (if start < c.start then c.start else start) = max start lo := by
    rw [hfirst, max_def]
    split_ifs <;> omega
  have hmin : (if d.stop < stop then d.stop else stop) = min stop hi := by
    rw [hstop, min_def]
    split_ifs <;> omega
  rw [addCoverage, hat]
  show (if (if d.stop < stop then d.stop else stop) < c.start ∨ d.stop < (if start < c.start then c.start else start)
    then _ else _) = _
  rw [hmax, hmin, hstop, hfirst]
  have hiff : (min stop hi < lo ∨ hi < max start lo) ↔ min stop hi < max start lo := by omega
  simp only [hiff]
  rfl

/-- After the loop, the pass makes a partition of what is there. -/
lemma addCoverage_of_loop (hfirst : c.start = lo) (hlast : ∀ d ∈ (c :: rest).getLast?, d.stop = hi) (hr : lo ≤ hi)
    (hle : start ≤ stop) (hin : max start lo ≤ min stop hi) {st : AddCoverage} {c' : Coverage} {l : List Coverage}
    (hloop : coverageLoop junk (min stop hi) (2 * (c :: rest).length + 1) ⟨c :: rest, max start lo, 0⟩ 0 = .ok st)
    (harray : st.array = c' :: l) :
    addCoverage junk (c :: rest) start stop = .ok (collapse c' l, st.newlyCovered) := by
  rw [addCoverage_eq hfirst hlast hr hle, if_neg hin.not_gt, hloop]
  show (cleanupCoverage (2 * st.array.length) st.array 0 >>= _) = _
  rw [harray]
  have h := cleanupCoverage_at [] (c := c') (by rw [List.length_cons]; omega : l.length < 2 * (c' :: l).length)
  rw [List.nil_append, List.length_nil] at h
  rw [h]
  rfl

/-- The result of a loop that covers the new interval, and counts it, is exact unless the count is too large. -/
lemma exact_iff_of_loop (ha : Tiles lo hi (c :: rest)) (hr : lo ≤ hi) (hle : start ≤ stop)
    (hin : max start lo ≤ min stop hi) {st : AddCoverage} {l : List Coverage}
    (hloop : coverageLoop junk (min stop hi) (2 * (c :: rest).length + 1) ⟨c :: rest, max start lo, 0⟩ 0 = .ok st)
    (harray : st.array = l) (hl : Tiles lo hi l)
    (hcover : cover l = cover (c :: rest) ∪ Finset.Icc (max start lo) (min stop hi))
    (hnew : st.newlyCovered = s32 (0 + (Finset.Icc (max start lo) (min stop hi) \ cover (c :: rest)).card)) :
    Exact lo hi (c :: rest) start stop (addCoverage junk (c :: rest) start stop) ↔
      (Finset.Icc (max start lo) (min stop hi) \ cover (c :: rest)).card < 2 ^ 31 := by
  obtain ⟨c', l, rfl⟩ := hl.eq_cons hr
  obtain ⟨hpart, hsame⟩ := collapse_partition hl
  have hgain : cover (collapse c' l) \ cover (c :: rest) =
      Finset.Icc (max start lo) (min stop hi) \ cover (c :: rest) := by
    rw [hsame, hcover, Finset.union_sdiff_left]
  rw [addCoverage_of_loop ha.1 (fun _ => ha.stop_getLast) hr hle hin hloop harray, ← hgain]
  rw [← hgain, zero_add] at hnew
  constructor
  · rintro ⟨a', n, heq, -, -, hn⟩
    cases heq
    have hlt := s32_lt (cover (collapse c' l) \ cover (c :: rest)).card
    rw [← hnew, hn] at hlt
    exact_mod_cast hlt
  · intro hlt
    exact ⟨_, _, rfl, hpart, by rw [hsame, hcover, icc_inter], by rw [hnew, s32_natCast hlt]⟩

/-- For more than one second, `add_coverage` is exact unless it covers an early second. -/
lemma exact_iff_of_lt (ha : Partition lo hi (c :: rest)) (hr : lo ≤ hi) (hle : start ≤ stop)
    (hlt : max start lo < min stop hi) :
    Exact lo hi (c :: rest) start stop (addCoverage junk (c :: rest) start stop) ↔
      (Finset.Icc (max start lo) (min stop hi) \ cover (c :: rest)).card < 2 ^ 31 ∧
        ∀ d ∈ c :: rest, ¬Early (max start lo) d := by
  obtain ⟨l, st, hloop, harray, hl⟩ := coverageLoop_spec junk [] (m := 0)
    (n := 2 * (c :: rest).length + 1) ha.tiles ha.alternate (le_max_right start lo) hlt (min_le_right stop hi)
    (by rw [List.length_cons]; omega) rfl
  rw [List.nil_append] at hloop harray
  by_cases hearly : ∀ d ∈ c :: rest, ¬Early (max start lo) d
  · obtain ⟨hcover, hnew⟩ := hl.exact hearly
    rw [and_iff_left hearly]
    exact exact_iff_of_loop ha.tiles hr hle hlt.le hloop harray hl.tiles hcover hnew
  · refine iff_of_false ?_ fun h => hearly h.2
    simp only [not_forall, not_not] at hearly
    obtain ⟨d, hd, hde⟩ := hearly
    obtain ⟨c', l, rfl⟩ := hl.tiles.eq_cons hr
    rintro ⟨a', n, heq, -, hcover, -⟩
    rw [addCoverage_of_loop ha.tiles.1 (fun _ => ha.tiles.stop_getLast) hr hle hlt.le hloop harray] at heq
    cases heq
    have hmem := hl.early d hd hde
    rw [← (collapse_partition hl.tiles).2, hcover, icc_inter] at hmem
    obtain ⟨hflag, hone, hbefore⟩ := hde
    rcases Finset.mem_union.1 hmem with hmem | hmem
    · exact ha.tiles.notMem_cover hd hflag le_rfl hone.le hmem
    · have := (Finset.mem_Icc.1 hmem).1
      omega

/-- For one second, the first element decides. -/
lemma exact_iff_of_eq (ha : Partition lo hi (c :: rest)) (hr : lo ≤ hi) (hle : start ≤ stop)
    (heq : max start lo = min stop hi) :
    Exact lo hi (c :: rest) start stop (addCoverage junk (c :: rest) start stop) ↔
      max start lo ≤ c.stop ∨ c.covered = true ∧ max start lo ∈ cover (c :: rest) := by
  have hfirst := ha.tiles.1
  have hpos : c.start ≤ c.stop := by
    rw [hfirst]
    exact ha.tiles.2.1
  by_cases hs : max start lo ≤ c.stop
  · -- the second is in the first interval
    obtain ⟨l, st, hloop, harray, hl, hcover, hnew⟩ := coverageLoop_inside junk [] (m := 0)
      (n := 2 * (c :: rest).length) ha.tiles (hfirst.trans_le (le_max_right start lo)) heq.le (by omega) rfl
    have hone : (Finset.Icc (max start lo) (min stop hi) \ cover (c :: rest)).card < 2 ^ 31 := by
      refine (Finset.card_le_card Finset.sdiff_subset).trans_lt ?_
      rw [Int.card_Icc, ← heq]
      omega
    rw [List.nil_append] at hloop harray
    exact iff_of_true ((exact_iff_of_loop ha.tiles hr hle heq.le hloop harray hl hcover hnew).2 hone) (.inl hs)
  · have hloop := coverageLoop_within junk [] rest (2 * (c :: rest).length) 0 rfl heq.le hpos (.inl heq)
    rw [List.nil_append, List.length_nil] at hloop
    cases hflag : c.covered with
    | true =>
      -- nothing changes, which is right if the second was covered
      rw [splitCoverage, if_pos hflag] at hloop
      by_cases hmem : max start lo ∈ cover (c :: rest)
      · have hsub : Finset.Icc (max start lo) (min stop hi) ⊆ cover (c :: rest) := fun t ht => by
          obtain ⟨h1, h2⟩ := Finset.mem_Icc.1 ht
          obtain rfl : t = max start lo := by omega
          exact hmem
        have hnone := Finset.sdiff_eq_empty_iff_subset.2 hsub
        refine iff_of_true ((exact_iff_of_loop ha.tiles hr hle heq.le hloop rfl ha.tiles
          (Finset.union_eq_left.2 hsub).symm ?_).2 ?_) (.inr ⟨rfl, hmem⟩)
        · rw [hnone]
          rfl
        · rw [hnone]
          norm_num
      · refine iff_of_false ?_ fun h => h.elim hs fun h => hmem h.2
        rintro ⟨a', n, hres, -, hcover, -⟩
        rw [addCoverage_of_loop ha.tiles.1 (fun _ => ha.tiles.stop_getLast) hr hle heq.le hloop rfl] at hres
        cases hres
        rw [(collapse_partition ha.tiles).2, icc_inter] at hcover
        apply hmem
        rw [hcover]
        exact Finset.mem_union_right _ (Finset.mem_Icc.2 ⟨le_rfl, heq.le⟩)
    | false =>
      -- the interval is split at a second that is after it
      refine iff_of_false ?_ fun h => h.elim hs fun h => Bool.noConfusion h.1
      rintro ⟨a', n, hres, hpart, -, -⟩
      obtain ⟨d, rest, rfl⟩ := ha.tiles.2.2.eq_cons (by omega)
      have hd : (false = d.covered) = False := by
        have h := (List.isChain_cons_cons.1 ha.alternate).1
        rw [hflag] at h
        exact eq_false h
      rw [splitCoverage_outside hflag hpos (by omega) heq.le] at hloop
      rw [addCoverage_of_loop ha.tiles.1 (fun _ => ha.tiles.stop_getLast) hr hle heq.le hloop rfl] at hres
      cases hres
      have htiles := hpart.tiles
      simp only [collapse, hd, Bool.false_eq_true, Bool.true_eq_false, if_false] at htiles
      obtain ⟨-, -, -, -, -, hbad, -⟩ := htiles
      dsimp only at hbad
      omega

/-- `add_coverage` is exact if and only if `AddsExactly` holds. -/
theorem addCoverage_exact_iff {junk : Coverage} {a : List Coverage} {lo hi start stop : ℤ} (ha : Partition lo hi a)
    (hr : lo ≤ hi) (hle : start ≤ stop) :
    Exact lo hi a start stop (addCoverage junk a start stop) ↔ AddsExactly lo hi a start stop := by
  obtain ⟨c, rest, rfl⟩ := ha.tiles.eq_cons hr
  rcases lt_trichotomy (max start lo) (min stop hi) with hlt | heq | hgt
  · rw [exact_iff_of_lt ha hr hle hlt, AddsExactly, or_iff_right hlt.not_gt, or_iff_left fun h => hlt.ne h.1,
      and_iff_right hlt]
  · have hone : (Finset.Icc (max start lo) (min stop hi) \ cover (c :: rest)).card < 2 ^ 31 := by
      refine (Finset.card_le_card Finset.sdiff_subset).trans_lt ?_
      rw [Int.card_Icc, ← heq]
      omega
    rw [exact_iff_of_eq ha hr hle heq, AddsExactly, or_iff_right heq.not_gt, and_iff_right hone]
    constructor
    · exact fun h => .inr ⟨heq, c, rfl, h⟩
    · rintro (⟨hlt, -⟩ | ⟨-, d, hd, h⟩)
      · exact absurd heq hlt.ne
      · cases hd
        exact h
  · refine iff_of_true ⟨c :: rest, 0, ?_, ha, ?_, ?_⟩ (.inl hgt)
    · rw [addCoverage_eq ha.tiles.1 (fun _ => ha.tiles.stop_getLast) hr hle, if_pos hgt]
    · rw [icc_inter, Finset.Icc_eq_empty hgt.not_ge, Finset.union_empty]
    · rw [Finset.sdiff_self, Finset.card_empty, Nat.cast_zero]

/-- An interval that is clipped to the second of two seconds. -/
theorem addCoverage_exact_iff_two :
    Exact 0 1 [⟨false, 0, 1⟩] 1 7 (addCoverage default [⟨false, 0, 1⟩] 1 7) ↔ AddsExactly 0 1 [⟨false, 0, 1⟩] 1 7 :=
  addCoverage_exact_iff ⟨⟨rfl, by decide, rfl⟩, List.isChain_singleton _⟩ (by decide) (by decide)

/-- A covered second before an uncovered one: when the second one is added, the loop ends at the first. -/
theorem addCoverage_misses_second :
    ¬∀ (junk : Coverage) (a : List Coverage) (lo hi start stop : ℤ), Partition lo hi a → lo ≤ hi → start ≤ stop →
      Exact lo hi a start stop (addCoverage junk a start stop) := by
  intro h
  obtain ⟨a', n, heq, -, hcover, -⟩ := h default [⟨true, 0, 0⟩, ⟨false, 1, 1⟩] 0 1 1 1
    ⟨⟨rfl, le_rfl, rfl, le_rfl, rfl⟩, by decide⟩ (by decide) le_rfl
  have hrun : addCoverage default [⟨true, 0, 0⟩, ⟨false, 1, 1⟩] 1 1 = .ok ([⟨true, 0, 0⟩, ⟨false, 1, 1⟩], 0) := by
    decide
  rw [hrun] at heq
  cases heq
  have hmem : (1 : ℤ) ∈ cover [⟨true, 0, 0⟩, ⟨false, 1, 1⟩] ∪ (Finset.Icc 1 1 ∩ Finset.Icc 0 1) :=
    Finset.mem_union_right _ (by decide)
  rw [← hcover] at hmem
  simp only [cover_cons, cover_nil, Finset.mem_union, mem_cover_tile] at hmem
  rcases hmem with ⟨-, -, h1⟩ | ⟨h0, -⟩ | h0
  · exact absurd h1 (by decide)
  · exact Bool.noConfusion h0
  · exact absurd h0 (Finset.notMem_empty 1)

end Rrdtool
