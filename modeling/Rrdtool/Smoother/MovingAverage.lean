import Rrdtool.Create
import Rrdtool.Smoother
import Rrdtool.Lib.Checked
import Rrdtool.Lib.Cyclic

/-!
# The smoother is a circular moving average

`averageColumn` is followed through its two loops. The queue holds the rows of the window, as long as its capacity
fits into an `int`; the running sum is the sum of the queue as long as only numbers have left the window, and not
a number from then on. `averageColumn_iff` says when every row becomes the mean of the rows around it.
-/

namespace Rrdtool

open Cyclic Checked

/-- The rows of a column, counted on and back over the end. -/
@[grind] def onRing (col : List RrdValue) (z : ℤ) : RrdValue := col.getD (z % col.length).toNat .nan

/-- The mean of the `2 * offset + 1` rows around row `k`. -/
@[grind] def windowMean (offset : ℕ) (col : List RrdValue) (k : ℕ) : RrdValue :=
  windowSum (onRing col) (2 * offset + 1) ((k : ℤ) - offset) / .fin (2 * offset + 1 : ℕ)

lemma onRing_periodic (col : List RrdValue) : Function.Periodic (onRing col) col.length := fun z => by
  rw [onRing, Int.add_emod_right]
  rfl

lemma onRing_natCast {col : List RrdValue} {k : ℕ} (hk : k < col.length) : onRing col k = col.getD k .nan := by
  rw [onRing, Int.emod_eq_of_lt (by omega) (by omega), Int.toNat_natCast]

lemma myMod_eq {z : ℤ} {m : ℕ} (h : -(m : ℤ) < z) : myMod z m = (z % m).toNat := by
  unfold myMod
  split
  · have hmod : z % m = z + m := by
      rw [← Int.add_emod_right, Int.emod_eq_of_lt (by omega) (by omega)]
    rw [hmod, Nat.mod_eq_of_lt (by omega)]
    omega
  · obtain ⟨n, rfl⟩ := Int.eq_ofNat_of_zero_le (not_lt.1 ‹¬ z < 0›)
    rfl

lemma getD_myMod {col : List RrdValue} {z : ℤ} (h : -(col.length : ℤ) < z) :
    col.getD (myMod z col.length) .nan = onRing col z := by
  rw [myMod_eq h, onRing]

lemma windowRow_eq {rowCount offset i : ℕ} (hoffset : offset < 2 ^ 63) (hi : i < 2 ^ 63) :
    windowRow rowCount offset i = myMod ((i : ℤ) - offset) rowCount := by
  rw [windowRow, s64_u64 (by omega) (by omega)]

section Loops

variable {offset : ℕ} {col : List RrdValue}

/-- Only numbers have left the window when it reaches row `t`. -/
def LeftNumbers (offset : ℕ) (col : List RrdValue) (t : ℕ) : Prop :=
  ∀ s < t, (onRing col ((s : ℤ) - offset)).isnan = false ∧ (onRing col ((s : ℤ) - offset)).isinf = false

instance (t : ℕ) : Decidable (LeftNumbers offset col t) := inferInstanceAs (Decidable (∀ s < t, _))

/-- What becomes of row `k`. -/
@[grind] def averaged (offset : ℕ) (col : List RrdValue) (k : ℕ) : RrdValue :=
  if LeftNumbers offset col k then windowMean offset col k else .nan

/-- The queue in front of row `t`. -/
@[grind] def windowQueue (offset : ℕ) (col : List RrdValue) (t : ℕ) : List RrdValue :=
  (List.range (2 * offset)).map fun (j : ℕ) => onRing col ((t : ℤ) - offset + j)

/-- The running sum in front of row `t`. -/
@[grind] def runningSum (offset : ℕ) (col : List RrdValue) (t : ℕ) : RrdValue :=
  if LeftNumbers offset col t then windowSum (onRing col) (2 * offset) ((t : ℤ) - offset) else .nan

/-- The queue takes up the next row and drops its first one. -/
lemma windowQueue_append (t : ℕ) : windowQueue offset col t ++ [onRing col ((t + offset : ℕ) : ℤ)] =
    onRing col ((t : ℤ) - offset) :: windowQueue offset col (t + 1) := by
  have hlast : onRing col ((t + offset : ℕ) : ℤ) = onRing col ((t : ℤ) - offset + (2 * offset : ℕ)) :=
    congrArg _ (by push_cast; ring)
  have hnext : windowQueue offset col (t + 1) =
      (List.range (2 * offset)).map fun (j : ℕ) => onRing col ((t : ℤ) - offset + (j + 1 : ℕ)) :=
    List.map_congr_left fun j _ => congrArg _ (by push_cast; ring)
  rw [windowQueue, hlast, ← List.map_singleton (f := fun (j : ℕ) => onRing col ((t : ℤ) - offset + j)),
    ← List.map_append, ← List.range_succ, hnext, List.range_succ_eq_map, List.map_cons, List.map_map]
  simp [Function.comp_def]

/-- The running sum takes up the next row and drops its first one. -/
lemma runningSum_succ (t : ℕ) :
    runningSum offset col t + onRing col ((t + offset : ℕ) : ℤ) - onRing col ((t : ℤ) - offset) =
      runningSum offset col (t + 1) := by
  have hlast : ((t + offset : ℕ) : ℤ) = (t : ℤ) - offset + (2 * offset : ℕ) := by
    push_cast
    ring
  have hstep : ((t : ℤ) - offset) + 1 = ((t + 1 : ℕ) : ℤ) - offset := by
    push_cast
    ring
  have hleft : LeftNumbers offset col (t + 1) ↔ LeftNumbers offset col t ∧
      (onRing col ((t : ℤ) - offset)).isnan = false ∧ (onRing col ((t : ℤ) - offset)).isinf = false :=
    Nat.forall_lt_succ_right
  by_cases ht : LeftNumbers offset col t
  · rw [runningSum, if_pos ht, hlast, windowSum_succ, hstep, add_comm]
    cases hx : onRing col ((t : ℤ) - offset) with
    | fin q => rw [ExtNum.add_sub_cancel_fin, runningSum, if_pos (hleft.2 ⟨ht, by rw [hx]; exact ⟨rfl, rfl⟩⟩)]
    | nan =>
      rw [runningSum, if_neg fun h => by simpa [hx] using (hleft.1 h).2.1, ExtNum.add_nan, ExtNum.nan_sub]
    | pinf =>
      rw [runningSum, if_neg fun h => by simpa [hx, ExtNum.isinf] using (hleft.1 h).2.2,
        ExtNum.add_sub_self_of_isinf _ rfl]
    | ninf =>
      rw [runningSum, if_neg fun h => by simpa [hx, ExtNum.isinf] using (hleft.1 h).2.2,
        ExtNum.add_sub_self_of_isinf _ rfl]
  · rw [runningSum, if_neg ht, runningSum, if_neg fun h => ht (hleft.1 h).1, ExtNum.nan_add, ExtNum.nan_sub]

/-- The sum over the window, the mean of which is stored. -/
lemma runningSum_div (t : ℕ) :
    (runningSum offset col t + onRing col ((t + offset : ℕ) : ℤ)) / .fin (2 * offset + 1 : ℕ) =
      averaged offset col t := by
  have hlast : ((t + offset : ℕ) : ℤ) = (t : ℤ) - offset + (2 * offset : ℕ) := by
    push_cast
    ring
  unfold runningSum averaged
  split
  · rw [windowMean, hlast, windowSum, windowSum, Finset.sum_range_succ]
  · rw [ExtNum.nan_add, ExtNum.nan_div]

/-- The moving average in front of row `t`. -/
@[grind] def windowState (offset : ℕ) (col : List RrdValue) (t : ℕ) : Smoother where
  queue := windowQueue offset col t
  workingAverage := runningSum offset col t
  baseline := ∑ k ∈ Finset.range t, averaged offset col k
  values := (List.range t).map (averaged offset col) ++ col.drop t

@[simp] lemma windowQueue_length (t : ℕ) : (windowQueue offset col t).length = 2 * offset := by
  simp [windowQueue]

/-- One iteration moves the window on by one row. -/
lemma smootherStep_windowState {t : ℕ} (ht : t < col.length) :
    smootherStep col.length offset col (windowState offset col t) (t + offset) = windowState offset col (t + 1) := by
  have hread : col.getD (myMod ((t + offset : ℕ) : ℤ) col.length) .nan = onRing col ((t + offset : ℕ) : ℤ) :=
    getD_myMod (by omega)
  have hcenter : myMod (((t + offset : ℕ) : ℤ) - offset) col.length = t := by
    rw [Nat.cast_add, add_sub_cancel_right, myMod_eq (by omega), Int.emod_eq_of_lt (by omega) (by omega), Int.toNat_natCast]
  have hvalues : ((List.range t).map (averaged offset col) ++ col.drop t).set t (averaged offset col t) =
      (List.range (t + 1)).map (averaged offset col) ++ col.drop (t + 1) := by
    rw [List.set_append_right _ _ (by simp), List.length_map, List.length_range, Nat.sub_self,
      List.drop_eq_getElem_cons ht, List.set_cons_zero, List.range_succ, List.map_append, List.append_assoc]
    rfl
  simp only [smootherStep, windowState, hread, hcenter, windowQueue_append, List.tail_cons, List.headD_cons,
    runningSum_succ, runningSum_div, hvalues, Finset.sum_range_succ]

/-- The moving average of a whole column. -/
lemma smoothColumn_eq (hoffset : offset < col.length) :
    smoothColumn col.length offset col =
      ((List.range col.length).map (averaged offset col),
        (∑ k ∈ Finset.range col.length, averaged offset col k) / .fin col.length) := by
  have hfirst : ((List.range (2 * offset)).map fun (i : ℕ) =>
      col.getD (myMod ((i : ℤ) - offset) col.length) .nan) = windowQueue offset col 0 := by
    refine List.map_congr_left fun i _ => ?_
    rw [getD_myMod (by omega)]
    exact congrArg _ (by push_cast; ring)
  have hsum : (windowQueue offset col 0).foldl (· + ·) (.fin 0) = runningSum offset col 0 := by
    have hleft : LeftNumbers offset col 0 := fun s hs => absurd hs (Nat.not_lt_zero s)
    rw [runningSum, if_pos hleft, ← ExtNum.zero_def, ← List.sum_eq_foldl]
    exact (Multiset.sum_coe _).symm
  have hstart : Smoother.mk (windowQueue offset col 0) (runningSum offset col 0) (.fin 0) col =
      windowState offset col 0 := rfl
  have hloop : ∀ t ≤ col.length, ((List.range t).map (· + offset)).foldl (smootherStep col.length offset col)
      (windowState offset col 0) = windowState offset col t := by
    intro t ht
    induction t with
    | zero => rfl
    | succ t ih =>
      rw [List.range_succ, List.map_append, List.foldl_append, ih (by omega)]
      exact smootherStep_windowState ht
  simp only [smoothColumn, hfirst, hsum, hstart, hloop _ le_rfl]
  simp [windowState]

/-! ### The queue -/

/-- The state of the loops holds what the moving average is computed from. -/
structure SmootherColumn.Holds (s : SmootherColumn) (s' : Smoother) : Prop where
  buffer : s.buffer.Holds s'.queue
  workingAverage : s.workingAverage = s'.workingAverage
  baseline : s.baseline = s'.baseline
  rrdValues : s.rrdValues = s'.values

lemma readRow_eq {k : ℕ} (hk : k < col.length) : readRow col k = .ok (col.getD k .nan) := by
  rw [readRow, List.getElem?_eq_getElem hk, List.getD_eq_getElem?_getD, List.getElem?_eq_getElem hk]
  rfl

lemma queuePush_eq {q : Fifo RrdValue} {l : List RrdValue} (h : q.Holds l) (hlt : l.length < q.capacity)
    (x : RrdValue) : queuePush q x = .ok (q.push x) := if_pos (h.size ▸ hlt)

lemma queuePop_eq {q : Fifo RrdValue} {x : RrdValue} {l : List RrdValue} (h : q.Holds (x :: l)) :
    queuePop q = .ok q.pop := if_neg (by rw [h.size]; exact Nat.succ_ne_zero _)

/-- One iteration finds room for the next row and a first row to drop. -/
lemma averageStep_holds {s : SmootherColumn} {s' : Smoother} {rowCount i : ℕ} (h : s.Holds s')
    (hroom : s'.queue.length < s.buffer.capacity) (hoffset : offset < 2 ^ 63) (hi : i < 2 ^ 63)
    (hread : myMod i rowCount < col.length) (hwrite : myMod ((i : ℤ) - offset) rowCount < s.rrdValues.length) :
    ∃ s₁, averageStep rowCount offset col s i = .ok s₁ ∧ s₁.Holds (smootherStep rowCount offset col s' i) ∧
      s₁.buffer.capacity = s.buffer.capacity := by
  have hread' : windowRow rowCount 0 i = myMod i rowCount := by
    rw [windowRow_eq (by norm_num) hi, Nat.cast_zero, sub_zero]
  have hpush := h.buffer.push hroom (col.getD (myMod i rowCount) .nan)
  obtain ⟨x, l, hl⟩ : ∃ x l, s'.queue ++ [col.getD (myMod i rowCount) .nan] = x :: l :=
    List.exists_cons_of_ne_nil (by simp)
  rw [hl] at hpush
  obtain ⟨hx, hpop⟩ := hpush.pop
  have hstep : averageStep rowCount offset col s i = .ok
      { buffer := (s.buffer.push (col.getD (myMod i rowCount) .nan)).pop.2
        workingAverage := s.workingAverage + col.getD (myMod i rowCount) .nan - x
        baseline := s.baseline +
          (s.workingAverage + col.getD (myMod i rowCount) .nan) / .fin (2 * offset + 1 : ℕ)
        rrdValues := s.rrdValues.set (myMod ((i : ℤ) - offset) rowCount)
          ((s.workingAverage + col.getD (myMod i rowCount) .nan) / .fin (2 * offset + 1 : ℕ)) } := by
    simp only [averageStep, hread', windowRow_eq hoffset hi, readRow_eq hread, queuePush_eq h.buffer hroom, writeRow,
      if_pos hwrite, queuePop_eq hpush, hx, bind, Except.bind, pure, Except.pure]
  refine ⟨_, hstep, ⟨?_, ?_, ?_, ?_⟩, rfl⟩
  · show Fifo.Holds _ (s'.queue ++ [col.getD (myMod i rowCount) .nan]).tail
    rw [hl]
    exact hpop
  · simp only [smootherStep, hl, List.headD_cons, h.workingAverage]
  · simp only [smootherStep, h.baseline, h.workingAverage]
  · simp only [smootherStep, h.rrdValues, h.workingAverage]

/-- The rows that the first `n` iterations of the first loop read. -/
@[grind] def firstRows (rowCount offset : ℕ) (col : List RrdValue) (n : ℕ) : List RrdValue :=
  (List.range n).map fun (i : ℕ) => col.getD (myMod ((i : ℤ) - offset) rowCount) .nan

lemma firstRows_succ (rowCount n : ℕ) : firstRows rowCount offset col (n + 1) =
    firstRows rowCount offset col n ++ [col.getD (myMod ((n : ℤ) - offset) rowCount) .nan] := by
  rw [firstRows, List.range_succ, List.map_append]
  rfl

@[simp] lemma firstRows_length (rowCount n : ℕ) : (firstRows rowCount offset col n).length = n := by
  simp [firstRows]

/-- The first loop fills the queue with the rows in front of row `offset`. -/
lemma fill_holds {rowCount capacity : ℕ} (hoffset : offset < 2 ^ 62)
    (hread : ∀ i < 2 * offset, myMod ((i : ℤ) - offset) rowCount < col.length) (hpos : 0 < capacity) {n : ℕ}
    (hn : n ≤ 2 * offset) (hroom : n ≤ capacity) :
    ∃ q, (List.range n).foldlM (fillStep rowCount offset col) (Fifo.new capacity fun _ => .nan, .fin 0) =
      .ok (q, (firstRows rowCount offset col n).foldl (· + ·) (.fin 0)) ∧ q.capacity = capacity ∧
      q.Holds (firstRows rowCount offset col n) := by
  induction n with
  | zero => exact ⟨_, rfl, rfl, Fifo.new_holds hpos _⟩
  | succ n ih =>
    obtain ⟨q, hq, hcap, hholds⟩ := ih (by omega) (by omega)
    have hlt : (firstRows rowCount offset col n).length < q.capacity := by
      rw [firstRows_length, hcap]
      exact hroom
    refine ⟨q.push (col.getD (myMod ((n : ℤ) - offset) rowCount) .nan), ?_, hcap, ?_⟩
    · rw [List.range_succ, List.foldlM_append, hq, firstRows_succ, List.foldl_append]
      simp only [List.foldlM_cons, List.foldlM_nil, List.foldl_cons, List.foldl_nil, fillStep,
        windowRow_eq (show offset < 2 ^ 63 by omega) (show n < 2 ^ 63 by omega), readRow_eq (hread n hn),
        queuePush_eq hholds hlt, bind, Except.bind, pure, Except.pure]
    · rw [firstRows_succ]
      exact hholds.push hlt _

/-- The second loop computes the moving average of the column. -/
lemma average_holds {rowCount : ℕ} (hoffset : offset < 2 ^ 62) (hlen : col.length = rowCount)
    (hrows : rowCount < 2 ^ 62) (hpos : 0 < rowCount) {l : List ℕ} (hl : ∀ i ∈ l, offset ≤ i ∧ i < rowCount + offset)
    {s : SmootherColumn} {s' : Smoother} (h : s.Holds s') (hqueue : s'.queue.length < s.buffer.capacity)
    (hvalues : s.rrdValues.length = rowCount) :
    ∃ s₁, l.foldlM (averageStep rowCount offset col) s = .ok s₁ ∧
      s₁.Holds (l.foldl (smootherStep rowCount offset col) s') := by
  induction l generalizing s s' with
  | nil => exact ⟨s, rfl, h⟩
  | cons i l ih =>
    have hi := hl i List.mem_cons_self
    have hmod : ∀ z : ℤ, -(rowCount : ℤ) < z → myMod z rowCount < rowCount := by
      intro z hz
      rw [myMod_eq hz]
      have := Int.emod_lt_of_pos z (by omega : (0 : ℤ) < rowCount)
      omega
    have hread : myMod i rowCount < col.length := by
      rw [hlen]
      exact hmod i (by omega)
    have hwrite : myMod ((i : ℤ) - offset) rowCount < s.rrdValues.length := by
      rw [hvalues]
      exact hmod _ (by omega)
    obtain ⟨s₁, hs₁, hholds, hcap⟩ := averageStep_holds h hqueue (by omega : offset < 2 ^ 63) (by omega : i < 2 ^ 63)
      hread hwrite
    have hqueue' : (smootherStep rowCount offset col s' i).queue.length < s₁.buffer.capacity := by
      rw [hcap]
      simpa [smootherStep] using hqueue
    have hvalues' : s₁.rrdValues.length = rowCount := by
      rw [hholds.rrdValues, smootherStep, List.length_set, ← h.rrdValues, hvalues]
    obtain ⟨s₂, hs₂, hlast⟩ := ih (fun j hj => hl j (List.mem_cons_of_mem i hj)) hholds hqueue' hvalues'
    refine ⟨s₂, ?_, hlast⟩
    rw [List.foldlM_cons, hs₁]
    exact hs₂

/-- Both loops run through, and leave the moving average of the column. -/
lemma averageColumn_eq {rowCount : ℕ} (hlen : col.length = rowCount) (hrows : rowCount < 2 ^ 62)
    (hle : offset < rowCount) (hcap : 2 * offset + 1 < 2 ^ 31) :
    averageColumn rowCount offset col = .ok (smoothColumn rowCount offset col) := by
  have halloc : queueAlloc (s32 (2 * offset + 1 : ℕ)) = .ok (Fifo.new (2 * offset + 1) fun _ => .nan) := by
    rw [s32_natCast hcap, queueAlloc, if_neg (by omega), Int.toNat_natCast]
  have hread : ∀ i < 2 * offset, myMod ((i : ℤ) - offset) rowCount < col.length := by
    intro i _
    rw [hlen, myMod_eq (by omega)]
    have := Int.emod_lt_of_pos ((i : ℤ) - offset) (by omega : (0 : ℤ) < rowCount)
    omega
  obtain ⟨q, hq, hqcap, hholds⟩ := fill_holds (by omega) hread (Nat.succ_pos (2 * offset)) le_rfl (Nat.le_succ _)
  have hstart : SmootherColumn.Holds ⟨q, (firstRows rowCount offset col (2 * offset)).foldl (· + ·) (.fin 0), .fin 0,
      col⟩ ⟨firstRows rowCount offset col (2 * offset), (firstRows rowCount offset col (2 * offset)).foldl (· + ·)
        (.fin 0), .fin 0, col⟩ := ⟨hholds, rfl, rfl, rfl⟩
  have hl : ∀ i ∈ (List.range rowCount).map (· + offset), offset ≤ i ∧ i < rowCount + offset := by
    intro i hi
    obtain ⟨t, ht, rfl⟩ := List.mem_map.1 hi
    rw [List.mem_range] at ht
    omega
  obtain ⟨s, hs, hlast⟩ := average_holds (by omega) hlen hrows (by omega) hl hstart
    (by rw [hqcap, firstRows_length]; omega) hlen
  simp only [averageColumn, halloc, hq, hs, bind, Except.bind, pure, Except.pure, hlast.rrdValues, hlast.baseline]
  rfl

/-! ### Queues that are too small -/

lemma fill_size {rowCount : ℕ} {l : List ℕ} {s s' : Fifo RrdValue × RrdValue}
    (h : l.foldlM (fillStep rowCount offset col) s = .ok s') :
    s'.1.size = s.1.size + l.length ∧ s'.1.capacity = s.1.capacity := by
  induction l generalizing s with
  | nil =>
    cases h
    exact ⟨rfl, rfl⟩
  | cons i l ih =>
    rw [List.foldlM_cons] at h
    obtain ⟨s₁, hs₁, h⟩ := bind_eq_ok h
    obtain ⟨x, -, hs₁⟩ := bind_eq_ok hs₁
    obtain ⟨q, hq, hs₁⟩ := bind_eq_ok hs₁
    cases hs₁
    rw [queuePush] at hq
    split at hq
    · cases hq
      obtain ⟨hsize, hcap⟩ := ih h
      refine ⟨hsize.trans ?_, hcap⟩
      simp only [Fifo.push, List.length_cons]
      omega
    · cases hq

/-- The loops run through only with a capacity that fits into an `int`. -/
lemma capacity_of_ok {rowCount : ℕ} (hrows : 0 < rowCount) {r : List RrdValue × RrdValue}
    (h : averageColumn rowCount offset col = .ok r) : 2 * offset + 1 < 2 ^ 31 := by
  obtain ⟨q₀, hq₀, h⟩ := bind_eq_ok h
  obtain ⟨⟨q, sum⟩, hq, h⟩ := bind_eq_ok h
  obtain ⟨s, hs, -⟩ := bind_eq_ok h
  rw [queueAlloc] at hq₀
  split at hq₀
  · cases hq₀
  · cases hq₀
    obtain ⟨hsize, hcap⟩ : q.size = 0 + (List.range (2 * offset)).length ∧
        q.capacity = (s32 (2 * offset + 1 : ℕ)).toNat := fill_size hq
    rw [List.length_range] at hsize
    obtain ⟨n, rfl⟩ := Nat.exists_eq_succ_of_ne_zero hrows.ne'
    rw [List.range_succ_eq_map, List.map_cons, List.foldlM_cons] at hs
    obtain ⟨s₁, hs₁, -⟩ := bind_eq_ok hs
    obtain ⟨x, -, hs₁⟩ := bind_eq_ok hs₁
    obtain ⟨q₁, hq₁, -⟩ := bind_eq_ok hs₁
    -- the queue is as long as the window when the second loop pushes its first row
    rw [queuePush] at hq₁
    split at hq₁
    · rename_i hlt
      have hroom : q.size < q.capacity := hlt
      rw [hsize, hcap] at hroom
      have hmax := s32_lt (2 * offset + 1 : ℕ)
      omega
    · cases hq₁

end Loops

/-! ### The rows become means -/

/-- No infinite value leaves the window in front of row `k`, or the window of row `k` has no mean. -/
def WindowKept (offset : ℕ) (col : List RrdValue) : Prop :=
  ∀ k < col.length, LeftNumbers offset col k ∨
    (∃ z : ℤ, |z - k| ≤ offset ∧ onRing col z = .pinf) ∧ ∃ z : ℤ, |z - k| ≤ offset ∧ onRing col z = .ninf

section Means

variable {offset : ℕ} {col : List RrdValue}

lemma windowMean_eq_nan_iff (hnan : ∀ v ∈ col, v.isnan = false) (hpos : 0 < col.length) (k : ℕ) :
    windowMean offset col k = .nan ↔
      (∃ z : ℤ, |z - k| ≤ offset ∧ onRing col z = .pinf) ∧ ∃ z : ℤ, |z - k| ≤ offset ∧ onRing col z = .ninf := by
  have hknown : ∀ z, onRing col z ≠ .nan := by
    intro z hz
    have hlt : (z % col.length).toNat < col.length := by
      have := Int.emod_lt_of_pos z (by omega : (0 : ℤ) < col.length)
      omega
    rw [onRing, List.getD_eq_getElem?_getD, List.getElem?_eq_getElem hlt, Option.getD_some] at hz
    exact ExtNum.isnan_eq_false.1 (hnan _ (List.getElem_mem hlt)) hz
  -- the places of the window
  have hplace : ∀ v, (∃ z : ℤ, |z - k| ≤ offset ∧ onRing col z = v) ↔
      ∃ i ∈ Finset.range (2 * offset + 1), onRing col ((k : ℤ) - offset + (i : ℕ)) = v := by
    intro v
    constructor
    · rintro ⟨z, hz, hv⟩
      rw [abs_le] at hz
      refine ⟨(z - (k - offset)).toNat, Finset.mem_range.2 (by omega), ?_⟩
      rw [Int.toNat_of_nonneg (by omega), ← hv]
      exact congrArg _ (by ring)
    · rintro ⟨i, hi, hv⟩
      rw [Finset.mem_range] at hi
      exact ⟨_, abs_le.2 ⟨by omega, by omega⟩, hv⟩
  rw [windowMean, ExtNum.div_natCast_eq_nan_iff (Nat.succ_pos _), windowSum, hplace, hplace]
  constructor
  · intro hsum
    by_contra hcon
    rw [not_and_or] at hcon
    refine ExtNum.sum_ne_nan (fun i _ => hknown _) ?_ hsum
    obtain hcon | hcon := hcon
    · exact .inl fun i hi hv => hcon ⟨i, hi, hv⟩
    · exact .inr fun i hi hv => hcon ⟨i, hi, hv⟩
  · rintro ⟨⟨i, hi, hp⟩, j, hj, hn⟩
    exact ExtNum.sum_eq_nan hi hj hp hn

lemma averaged_eq_iff (hnan : ∀ v ∈ col, v.isnan = false) (hpos : 0 < col.length) (k : ℕ) :
    averaged offset col k = windowMean offset col k ↔ LeftNumbers offset col k ∨
      (∃ z : ℤ, |z - k| ≤ offset ∧ onRing col z = .pinf) ∧ ∃ z : ℤ, |z - k| ≤ offset ∧ onRing col z = .ninf := by
  rw [← windowMean_eq_nan_iff hnan hpos, averaged]
  split
  · rename_i h
    exact iff_of_true rfl (.inl h)
  · rename_i h
    exact ⟨fun heq => .inr heq.symm, fun hor => (hor.resolve_left h).symm⟩

/-- The means of all windows add up to the column. -/
lemma sum_windowMean : ((List.range col.length).map (windowMean offset col)).sum = col.sum := by
  have hwindows := sum_windowSum (onRing_periodic col) (2 * offset + 1) (-offset)
  have hcol : ∑ k ∈ Finset.range col.length, onRing col k = col.sum := by
    have hlist : col = (List.range col.length).map fun (k : ℕ) => onRing col k := by
      refine List.ext_getElem (by simp) fun k hk _ => ?_
      rw [List.getElem_map, List.getElem_range, onRing_natCast hk, List.getD_eq_getElem?_getD,
        List.getElem?_eq_getElem hk, Option.getD_some]
    conv_rhs => rw [hlist]
    exact Multiset.sum_coe _
  calc ((List.range col.length).map (windowMean offset col)).sum
      = ∑ k ∈ Finset.range col.length,
          windowSum (onRing col) (2 * offset + 1) (-offset + k) / .fin (2 * offset + 1 : ℕ) := by
        simp only [neg_add_eq_sub]
        exact (Multiset.sum_coe _).symm
    _ = ((2 * offset + 1) • ∑ k ∈ Finset.range col.length, onRing col k) / .fin (2 * offset + 1 : ℕ) := by
        rw [← ExtNum.sum_div_natCast _ _ (Nat.succ_pos _), hwindows]
    _ = col.sum := by rw [ExtNum.nsmul_div_natCast _ (Nat.succ_pos _), hcol]

/-- The values are numbers. -/
@[grind] def AllFin (l : List RrdValue) : Prop := ∀ v ∈ l, ∃ q : ℚ, v = .fin q

lemma AllFin.onRing {col : List RrdValue} (h : AllFin col) (hpos : 0 < col.length) (z : ℤ) :
    ∃ q : ℚ, onRing col z = .fin q := by
  have hlt : (z % col.length).toNat < col.length := by
    have := Int.emod_lt_of_pos z (by omega : (0 : ℤ) < col.length)
    omega
  rw [Rrdtool.onRing, List.getD_eq_getElem?_getD, List.getElem?_eq_getElem hlt]
  exact h _ (List.getElem_mem hlt)

lemma AllFin.leftNumbers (h : AllFin col) (hpos : 0 < col.length) (k : ℕ) : LeftNumbers offset col k := by
  intro s _
  obtain ⟨q, hq⟩ := h.onRing hpos ((s : ℤ) - offset)
  rw [hq]
  exact ⟨rfl, rfl⟩

lemma AllFin.averaged (h : AllFin col) (hpos : 0 < col.length) (k : ℕ) :
    averaged offset col k = windowMean offset col k := if_pos (h.leftNumbers hpos k)

lemma AllFin.windowMean (h : AllFin col) (hpos : 0 < col.length) (k : ℕ) :
    ∃ q : ℚ, windowMean offset col k = .fin q := by
  choose f hf using h.onRing hpos
  have hne : ((2 * offset + 1 : ℕ) : ℚ) ≠ 0 := by positivity
  refine ⟨(∑ i ∈ Finset.range (2 * offset + 1), f ((k : ℤ) - offset + (i : ℕ))) / (2 * offset + 1 : ℕ), ?_⟩
  simp only [Rrdtool.windowMean, windowSum, hf]
  rw [ExtNum.fin_sum, ExtNum.fin_div_fin hne]

/-- A column of numbers is smoothed to numbers. -/
lemma smoothColumn_numbers {rowCount : ℕ} (hcol : AllFin col) (hlen : col.length = rowCount)
    (hoffset : offset < rowCount) :
    AllFin (smoothColumn rowCount offset col).1 ∧ ∃ q : ℚ, (smoothColumn rowCount offset col).2 = .fin q := by
  subst hlen
  have hpos : 0 < col.length := by omega
  have hmean : Rrdtool.averaged offset col = Rrdtool.windowMean offset col := funext (hcol.averaged hpos)
  rw [smoothColumn_eq hoffset, hmean]
  refine ⟨fun v hv => ?_, ?_⟩
  · obtain ⟨k, -, rfl⟩ := List.mem_map.1 hv
    exact hcol.windowMean hpos k
  · choose f hf using @AllFin.windowMean offset col hcol hpos
    have hne : ((col.length : ℕ) : ℚ) ≠ 0 := by positivity
    simp only [hf]
    rw [ExtNum.fin_sum, ExtNum.fin_div_fin hne]
    exact ⟨_, rfl⟩

/-- The half width of the window is less than the number of rows. -/
lemma smootherOffset_lt {version : ℕ} {rra : RraDef} (hrows : 0 < rra.rowCnt)
    (hwindow : 4 ≤ version → ∀ w : ℚ, rra.smoothingWindow = .fin w → w ≤ 1) :
    smootherOffset version rra < rra.rowCnt := by
  have hpos : (0 : ℚ) < rra.rowCnt := by exact_mod_cast hrows
  have hfloor : ∀ w : ℚ, w ≤ 1 → ⌊w / 2 * rra.rowCnt⌋₊ < rra.rowCnt := by
    intro w hw
    rw [Nat.floor_lt' (by omega)]
    calc w / 2 * rra.rowCnt ≤ 1 / 2 * rra.rowCnt := by gcongr
      _ < rra.rowCnt := by linarith
  unfold smootherOffset
  split
  · rename_i hversion
    split
    · rename_i w hw
      exact hfloor w (hwindow hversion w hw)
    · exact hrows
  · exact hfloor (5 / 100) (by norm_num)

/-- Only an archive with rows has a window. -/
lemma rowCnt_pos_of_offset {version : ℕ} {rra : RraDef} (h : 0 < smootherOffset version rra) : 0 < rra.rowCnt := by
  refine Nat.pos_of_ne_zero fun hzero => h.ne' ?_
  simp only [smootherOffset, hzero, Nat.cast_zero, mul_zero, Nat.floor_zero]
  split
  · split <;> rfl
  · rfl

end Means

example : windowMean 1 [.fin 0, .fin 3, .fin 6, .fin 3] 1 = .fin 3 := by decide +kernel

/-- A `SEASONAL` archive of four rows and a window of half the season. -/
def smoothedRra : RraDef := { plainRra .seasonal 4 1 0 with smoothingWindow := .fin (1 / 2) }

end Rrdtool
