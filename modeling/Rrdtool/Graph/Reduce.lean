import Rrdtool.Graph.DataFetch
import Rrdtool.Graph.Variable
import Rrdtool.Lib.InPlace

/-!
# The reduction in place

`rrd_reduce_data` (`src/rrd_graph.c`) on the array that it works in: a reading pointer goes through the old rows, a
writing pointer behind it fills the same array with the new ones, and the number of rows is an `unsigned long`.
Every read and write is checked against the size of the array.

`rrdReduceData_exact_iff` says when the new rows are right, `rrdReduceData_succeeds_iff` when there is a result at all.
-/

namespace Rrdtool

open Checked InPlace

/-- The array with its two pointers, and the rows that are left. -/
structure ReduceState where
  cursor : Cursor RrdValue
  src : ℕ
  rowCnt : ℕ

/-- `*p`. -/
def readCell (size : ℕ) (mem : ℕ → RrdValue) (p : ℕ) : Reads RrdValue :=
  if p < size then .ok (mem p) else .error (.fault (.data p))

/-- The value of a column of the next new row. -/
def reduceCol (size : ℕ) (kind : ReduceKind) (dsCnt factor src col : ℕ) (mem : ℕ → RrdValue) : Reads RrdValue := do
  let vals ← (List.range factor).mapM fun i => readCell size mem (src + i * dsCnt + col)
  .ok (combine kind vals)

/-- A row of `DNAN`. -/
def nanRow (size dsCnt : ℕ) (c : Cursor RrdValue) : Reads (Cursor RrdValue) :=
  fill size (fun p => .data p) (fun _ _ => .ok .nan) dsCnt c

/-- A row of `DNAN` for an interval that is not complete. -/
def partialNanRow (size dsCnt : ℕ) (offset : ℤ) (c : Cursor RrdValue) : Reads (Cursor RrdValue) :=
  if offset ≠ 0 then nanRow size dsCnt c else .ok c

/-- The next new row. -/
def reduceRow (size : ℕ) (kind : ReduceKind) (dsCnt factor : ℕ) (st : ReduceState) : Reads ReduceState := do
  let c ← fill size (fun p => .data p) (reduceCol size kind dsCnt factor st.src) dsCnt st.cursor
  .ok ⟨c, st.src + dsCnt * factor, u64 ((st.rowCnt : ℤ) - factor)⟩

/-- The loop over the new rows; the rows that are left get fewer. -/
@[grind] def reduceLoop (size : ℕ) (kind : ReduceKind) (dsCnt factor : ℕ) : ℕ → ReduceState → Reads ReduceState
  | 0, st => .ok st
  | fuel + 1, st =>
    if (factor : ℤ) ≤ s64 st.rowCnt then do
      let st ← reduceRow size kind dsCnt factor st
      reduceLoop size kind dsCnt factor fuel st
    else .ok st

/-- The old rows that are skipped at the start, up to the next multiple of the new step. -/
@[grind] def skipStart (start : ℤ) (curStep factor : ℕ) : ℕ :=
  if start % (curStep * factor : ℕ) ≠ 0 then factor - (start % (curStep * factor : ℕ) / curStep).toNat else 0

/-- The old rows that are left out at the end. -/
def skipEnd (endTime : ℤ) (curStep factor : ℕ) : ℕ :=
  if endTime % (curStep * factor : ℕ) ≠ 0 then (endTime % (curStep * factor : ℕ) / curStep).toNat else 0

/-- What `rrd_reduce_data` changes, with the place behind the last value that it has written. -/
structure ReduceResult where
  start : ℤ
  endTime : ℤ
  step : ℕ
  mem : ℕ → RrdValue
  written : ℕ

/-- `rrd_reduce_data` on an array of `size` values. A factor that is no `int` has no defined value. -/
@[grind] def rrdReduceDataInPlace (cf : Cf) (size : ℕ) (curStep : ℕ) (start endTime : ℤ) (step dsCnt : ℕ) (mem : ℕ → RrdValue) :
    Reads ReduceResult :=
  let factor := reduceFactor curStep step
  if 2 ^ 31 ≤ factor then .error (.fault (.conversion factor))
  else do
    let newStep := curStep * factor
    let endOffset := endTime % newStep
    let startOffset := start % newStep
    let rowCnt := u64 ((endTime - start) / curStep)
    let c ← partialNanRow size dsCnt startOffset ⟨mem, 0⟩
    let rowCnt := u64 ((rowCnt : ℤ) - skipStart start curStep factor)
    let rowCnt := u64 ((rowCnt : ℤ) - skipEnd endTime curStep factor)
    if rowCnt % factor ≠ 0 then .error (.error (.sanity rowCnt factor))
    else do
      let st ← reduceLoop size (reduceKind cf) dsCnt factor rowCnt ⟨c, skipStart start curStep factor * dsCnt, rowCnt⟩
      let c ← partialNanRow size dsCnt endOffset st.cursor
      .ok ⟨start - startOffset, if endOffset ≠ 0 then endTime - endOffset + newStep else endTime, newStep, c.mem, c.dst⟩

/-! ### The loops -/

section Loops

variable {size dsCnt factor src col fuel g : ℕ} {kind : ReduceKind} {mem mem' : ℕ → RrdValue} {c : Cursor RrdValue}

lemma nanRow_eq (hroom : c.dst + dsCnt ≤ size) :
    nanRow size dsCnt c = .ok ⟨put c.mem c.dst dsCnt fun _ => .nan, c.dst + dsCnt⟩ :=
  fill_eq hroom fun _ _ => rfl

/-- The value `p` of the new rows, counted from the first one that is combined. -/
@[grind] def groupValue (kind : ReduceKind) (dsCnt factor : ℕ) (mem : ℕ → RrdValue) (src p : ℕ) : RrdValue :=
  combine kind ((List.range factor).map fun i => mem (src + (p / dsCnt * factor + i) * dsCnt + p % dsCnt))

lemma reduceCol_eq (hsize : src + factor * dsCnt ≤ size) (hcol : col < dsCnt) :
    reduceCol size kind dsCnt factor src col mem =
      .ok (combine kind ((List.range factor).map fun i => mem (src + i * dsCnt + col))) := by
  rw [reduceCol, mapM_ok, ok_bind]
  intro i hi
  have hrow := Nat.mul_le_mul_right dsCnt (List.mem_range.1 hi)
  rw [Nat.succ_mul] at hrow
  exact if_pos (by omega)

/-- The values of a row are computed from cells that are not yet written over. -/
lemma reduceRow_eq {rowCnt : ℕ} (hdst : c.dst ≤ src) (hsize : src + factor * dsCnt ≤ size) (hfactor : 0 < factor) :
    reduceRow size kind dsCnt factor ⟨c, src, rowCnt⟩ =
      .ok ⟨⟨put c.mem c.dst dsCnt (groupValue kind dsCnt factor c.mem src), c.dst + dsCnt⟩, src + dsCnt * factor,
        u64 ((rowCnt : ℤ) - factor)⟩ := by
  have hone := Nat.mul_le_mul_right dsCnt hfactor
  have hroom : c.dst + dsCnt ≤ size := by omega
  rw [reduceRow, fill_eq (w := groupValue kind dsCnt factor c.mem src) hroom, ok_bind]
  intro col hcol
  rw [reduceCol_eq hsize hcol, groupValue, Nat.div_eq_of_lt hcol, Nat.mod_eq_of_lt hcol]
  congr 3
  funext i
  rw [Nat.zero_mul, Nat.zero_add]
  obtain hlt | hge := Nat.lt_or_ge (src + i * dsCnt + col) (c.dst + col)
  · omega
  · exact put_behind hge

/-- The loop combines all of the groups. -/
lemma reduceLoop_eq (hdst : c.dst ≤ src) (hsize : src + g * factor * dsCnt ≤ size) (hfactor : 0 < factor)
    (hfuel : g ≤ fuel) (hlong : g * factor < 2 ^ 63) :
    reduceLoop size kind dsCnt factor fuel ⟨c, src, g * factor⟩ =
      .ok ⟨⟨put c.mem c.dst (g * dsCnt) (groupValue kind dsCnt factor c.mem src), c.dst + g * dsCnt⟩,
        src + g * factor * dsCnt, 0⟩ := by
  induction g generalizing c src fuel with
  | zero =>
    have hdone : ¬ (factor : ℤ) ≤ s64 (0 : ℕ) := by
      rw [s64_natCast (by norm_num)]
      omega
    simp only [Nat.zero_mul, put_zero, Nat.add_zero]
    cases fuel with
    | zero => rfl
    | succ fuel => rw [reduceLoop, if_neg hdone]
  | succ g ih =>
    obtain ⟨fuel, rfl⟩ : ∃ f, fuel = f + 1 := ⟨fuel - 1, by omega⟩
    have hcells : (g + 1) * factor * dsCnt = factor * dsCnt + g * factor * dsCnt := by ring
    have hdstcells : (g + 1) * dsCnt = dsCnt + g * dsCnt := by ring
    have hrows : (g + 1) * factor = g * factor + factor := Nat.succ_mul g factor
    have hone := Nat.mul_le_mul_right dsCnt hfactor
    have hrest : u64 (((g + 1) * factor : ℕ) - factor : ℤ) = g * factor := by
      rw [u64_sub (by omega) (by omega)]
      omega
    rw [reduceLoop, if_pos (by rw [s64_natCast hlong]; omega), reduceRow_eq hdst (by omega) hfactor, ok_bind, hrest,
      Nat.mul_comm dsCnt factor]
    rw [ih (by simp only; omega) (by omega) (by omega) (by omega), hcells, hdstcells]
    simp only [Nat.add_assoc]
    congr 3
    rw [← put_put (fun _ _ => rfl)]
    refine put_congr fun p hp => ?_
    have hpos : 0 < dsCnt := by
      refine Nat.pos_of_ne_zero fun hzero => ?_
      rw [hzero] at hp
      omega
    rw [groupValue, groupValue, Nat.add_div_left p hpos, Nat.add_mod_left]
    congr 2
    funext i
    rw [put_behind]
    · congr 1
      ring
    · omega

end Loops

/-! ### The window in old rows -/

section Window

variable {start endTime : ℤ} {curStep factor a b : ℕ}

/-- A multiple of the new step is in the window. -/
def HasMultiple (start endTime : ℤ) (newStep : ℕ) : Prop := ∃ m : ℤ, start ≤ m * newStep ∧ m * newStep ≤ endTime

lemma emod_newStep (curStep a factor : ℕ) :
    ((curStep * a : ℕ) : ℤ) % (curStep * factor : ℕ) = (curStep * (a % factor) : ℕ) := by
  rw [← Int.natCast_emod, Nat.mul_mod_mul_left]

/-- The first multiple of the factor that is not before `a`. -/
@[grind] def nextGroup (factor a : ℕ) : ℕ := a / factor + if a % factor ≠ 0 then 1 else 0

lemma skipStart_eq (hcur : 0 < curStep) (hfactor : 0 < factor) (ha : start = (curStep * a : ℕ)) :
    a + skipStart start curStep factor = nextGroup factor a * factor := by
  have hmod := Nat.mod_lt a hfactor
  have hdiv := Nat.div_add_mod a factor
  rw [Nat.mul_comm] at hdiv
  rw [skipStart, nextGroup, ha, emod_newStep]
  by_cases hzero : a % factor = 0
  · rw [if_neg (by simp [hzero]), if_neg (not_not.2 hzero), Nat.add_zero, Nat.add_zero]
    omega
  · have hne : ((curStep * (a % factor) : ℕ) : ℤ) ≠ 0 := by
      exact_mod_cast (Nat.mul_pos hcur (Nat.pos_of_ne_zero hzero)).ne'
    rw [if_pos hne, if_pos hzero, ← Int.natCast_ediv, Nat.mul_div_cancel_left _ hcur, Int.toNat_natCast, Nat.succ_mul]
    omega

lemma skipEnd_eq (hcur : 0 < curStep) (hb : endTime = (curStep * b : ℕ)) : skipEnd endTime curStep factor = b % factor := by
  rw [skipEnd, hb, emod_newStep]
  by_cases hzero : b % factor = 0
  · rw [if_neg (by simp [hzero]), hzero]
  · have hne : ((curStep * (b % factor) : ℕ) : ℤ) ≠ 0 := by
      exact_mod_cast (Nat.mul_pos hcur (Nat.pos_of_ne_zero hzero)).ne'
    rw [if_pos hne, ← Int.natCast_ediv, Nat.mul_div_cancel_left _ hcur, Int.toNat_natCast]

/-- There is a multiple of the new step exactly if the groups do not end before they begin. -/
lemma hasMultiple_iff (hcur : 0 < curStep) (hfactor : 0 < factor) (ha : start = (curStep * a : ℕ))
    (hb : endTime = (curStep * b : ℕ)) : HasMultiple start endTime (curStep * factor) ↔ nextGroup factor a ≤ b / factor := by
  have hmod := Nat.mod_lt a hfactor
  have hdiv := Nat.div_add_mod a factor
  constructor
  · rintro ⟨m, hlow, hhigh⟩
    have hcurz : (0 : ℤ) < curStep := by exact_mod_cast hcur
    have hrow : (m * (curStep * factor : ℕ) : ℤ) = curStep * (m * factor) := by
      push_cast
      ring
    rw [ha, hrow, Nat.cast_mul] at hlow
    rw [hb, hrow, Nat.cast_mul] at hhigh
    have hlow' : (a : ℤ) ≤ m * factor := le_of_mul_le_mul_left hlow hcurz
    have hhigh' : m * factor ≤ (b : ℤ) := le_of_mul_le_mul_left hhigh hcurz
    have hfactorz : (0 : ℤ) < factor := by exact_mod_cast hfactor
    obtain ⟨k, rfl⟩ := Int.eq_ofNat_of_zero_le (by
      by_contra hneg
      have := mul_le_mul_of_nonneg_right (show m ≤ -1 by omega) hfactorz.le
      omega : 0 ≤ m)
    have hlow'' : a ≤ k * factor := by exact_mod_cast hlow'
    have hhigh'' : k * factor ≤ b := by exact_mod_cast hhigh'
    refine le_trans ?_ ((Nat.le_div_iff_mul_le hfactor).2 hhigh'')
    unfold nextGroup
    split
    · refine Nat.succ_le_of_lt ((Nat.div_lt_iff_lt_mul hfactor).2 (lt_of_le_of_ne hlow'' fun heq => ?_))
      rename_i hne
      exact hne (by rw [heq, Nat.mul_mod_left])
    · rw [Nat.add_zero]
      exact Nat.div_le_of_le_mul (by rwa [Nat.mul_comm])
  · intro hle
    refine ⟨nextGroup factor a, ?_, ?_⟩
    · have hskip := skipStart_eq hcur hfactor ha
      have hrow : a ≤ nextGroup factor a * factor := by omega
      rw [ha]
      have hmul := Nat.mul_le_mul_left curStep hrow
      rw [Nat.mul_left_comm] at hmul
      exact_mod_cast hmul
    · have hrow := (Nat.mul_le_mul_right factor hle).trans (Nat.div_mul_le_self b factor)
      rw [hb]
      have hmul := Nat.mul_le_mul_left curStep hrow
      rw [Nat.mul_left_comm] at hmul
      exact_mod_cast hmul

/-- The rows that are skipped fit into the window exactly if it has a multiple of the new step. -/
lemma skips_le_iff (hcur : 0 < curStep) (hfactor : 0 < factor) (ha : start = (curStep * a : ℕ))
    (hb : endTime = (curStep * b : ℕ)) (hab : a ≤ b) :
    skipStart start curStep factor + skipEnd endTime curStep factor ≤ b - a ↔
      HasMultiple start endTime (curStep * factor) := by
  have hskip := skipStart_eq hcur hfactor ha
  have hmod := Nat.mod_lt b hfactor
  have hdiv := Nat.div_add_mod b factor
  rw [Nat.mul_comm] at hdiv
  rw [hasMultiple_iff hcur hfactor ha hb, skipEnd_eq hcur hb]
  constructor
  · intro hle
    have hrows : nextGroup factor a * factor ≤ b / factor * factor := by omega
    exact Nat.le_of_mul_le_mul_right hrows hfactor
  · intro hle
    have hrows := Nat.mul_le_mul_right factor hle
    omega

end Window

/-! ### The result -/

section Result

variable {start endTime : ℤ} {curStep factor step dsCnt size a b : ℕ} {cf : Cf} {mem : ℕ → RrdValue}

/-- Whether there is a row of `nan` at the start, and at the end. -/
@[grind] def partialRow (z : ℤ) (newStep : ℕ) : ℕ := if z % newStep ≠ 0 then 1 else 0

/-- A row of `nan` stands for old rows that are skipped. -/
lemma partialRow_le (hcur : 0 < curStep) (hfactor : 0 < factor) (ha : start = (curStep * a : ℕ))
    (hb : endTime = (curStep * b : ℕ)) : partialRow start (curStep * factor) ≤ skipStart start curStep factor ∧
      partialRow endTime (curStep * factor) ≤ skipEnd endTime curStep factor := by
  constructor
  · unfold partialRow skipStart
    split
    · rw [ha, emod_newStep, ← Int.natCast_ediv, Nat.mul_div_cancel_left _ hcur, Int.toNat_natCast]
      have := Nat.mod_lt a hfactor
      omega
    · exact le_rfl
  · rw [skipEnd_eq hcur hb]
    unfold partialRow
    split
    · rename_i hne
      rw [hb, emod_newStep] at hne
      refine Nat.pos_of_ne_zero fun hzero => hne ?_
      rw [hzero, Nat.mul_zero, Nat.cast_zero]
    · exact Nat.zero_le _

/-- There are no more new rows than old ones. -/
lemma newRows_le (hcur : 0 < curStep) (hfactor : 0 < factor) (ha : start = (curStep * a : ℕ))
    (hb : endTime = (curStep * b : ℕ)) (hle : nextGroup factor a ≤ b / factor) :
    partialRow start (curStep * factor) + (b / factor - nextGroup factor a) + partialRow endTime (curStep * factor) ≤
      b - a := by
  obtain ⟨hfirst, hlast⟩ := partialRow_le hcur hfactor ha hb
  have hskip := skipStart_eq hcur hfactor ha
  have hdiv := Nat.div_add_mod b factor
  rw [Nat.mul_comm] at hdiv
  rw [skipEnd_eq hcur hb] at hlast
  obtain ⟨g, hg⟩ := Nat.exists_eq_add_of_le hle
  have hrows : b / factor * factor = nextGroup factor a * factor + g * factor := by rw [hg]; ring
  have hgle : g ≤ g * factor := Nat.le_mul_of_pos_right g hfactor
  omega

/-- The array of the result: a row of `nan` at the start if the first interval is not complete, the combined rows, and
one at the end. -/
@[grind] def reducedMem (cf : Cf) (dsCnt factor : ℕ) (mem : ℕ → RrdValue) (first groups last skip : ℕ) : ℕ → RrdValue :=
  put (put (put mem 0 (first * dsCnt) fun _ => .nan) (first * dsCnt) (groups * dsCnt)
    (groupValue (reduceKind cf) dsCnt factor mem (skip * dsCnt))) ((first + groups) * dsCnt) (last * dsCnt) fun _ => .nan

lemma partialNanRow_eq {size : ℕ} {c : Cursor RrdValue} {z : ℤ} {newStep : ℕ}
    (hroom : c.dst + partialRow z newStep * dsCnt ≤ size) :
    partialNanRow size dsCnt (z % newStep) c =
      .ok ⟨put c.mem c.dst (partialRow z newStep * dsCnt) fun _ => .nan, c.dst + partialRow z newStep * dsCnt⟩ := by
  unfold partialRow at hroom ⊢
  unfold partialNanRow
  by_cases hne : z % newStep ≠ 0
  · rw [if_pos hne, Nat.one_mul] at hroom
    rw [if_pos hne, if_pos hne, Nat.one_mul, nanRow_eq hroom]
  · rw [if_neg hne, if_neg hne, Nat.zero_mul, put_zero, Nat.add_zero]

/-- The result for a window with a multiple of the new step, in old rows. -/
lemma rrdReduceDataInPlace_eq (hcur : 0 < curStep) (hfactor : 0 < factor) (hint : factor < 2 ^ 31)
    (heq : reduceFactor curStep step = factor) (ha : start = (curStep * a : ℕ)) (hb : endTime = (curStep * b : ℕ))
    (hab : a < b) (hlong : b < 2 ^ 63) (hle : nextGroup factor a ≤ b / factor) (hsize : (b - a) * dsCnt ≤ size) :
    rrdReduceDataInPlace cf size curStep start endTime step dsCnt mem = .ok
      ⟨start - start % (curStep * factor : ℕ),
        if endTime % (curStep * factor : ℕ) ≠ 0 then endTime - endTime % (curStep * factor : ℕ) + (curStep * factor : ℕ)
          else endTime,
        curStep * factor,
        reducedMem cf dsCnt factor mem (partialRow start (curStep * factor)) (b / factor - nextGroup factor a)
          (partialRow endTime (curStep * factor)) (skipStart start curStep factor),
        (partialRow start (curStep * factor) + (b / factor - nextGroup factor a) +
          partialRow endTime (curStep * factor)) * dsCnt⟩ := by
  have hskip := skipStart_eq hcur hfactor ha
  have hend : skipEnd endTime curStep factor = b % factor := skipEnd_eq hcur hb
  have hmod := Nat.mod_lt b hfactor
  have hdiv := Nat.div_add_mod b factor
  rw [Nat.mul_comm] at hdiv
  obtain ⟨g, hg⟩ := Nat.exists_eq_add_of_le hle
  have hgroups : b / factor - nextGroup factor a = g := by omega
  have hrows : b / factor * factor = nextGroup factor a * factor + g * factor := by rw [hg]; ring
  have hcnt : (endTime - start) / curStep = ((b - a : ℕ) : ℤ) := by
    have hsub : endTime - start = curStep * ((b - a : ℕ) : ℤ) := by
      rw [ha, hb, Nat.cast_sub hab.le]
      push_cast
      ring
    rw [hsub, Int.mul_ediv_cancel_left _ (by exact_mod_cast hcur.ne')]
  obtain ⟨hfirst, hlast⟩ := partialRow_le hcur hfactor ha hb
  have hgle : g ≤ g * factor := Nat.le_mul_of_pos_right g hfactor
  have hspace := newRows_le hcur hfactor ha hb hle
  rw [hgroups] at hspace
  have hcells := Nat.mul_le_mul_right dsCnt hspace
  rw [Nat.add_mul, Nat.add_mul] at hcells
  have hsrc : skipStart start curStep factor * dsCnt + g * factor * dsCnt ≤ size := by
    rw [← Nat.add_mul]
    exact (Nat.mul_le_mul_right dsCnt (by omega)).trans hsize
  have hdst : 0 + partialRow start (curStep * factor) * dsCnt ≤ skipStart start curStep factor * dsCnt := by
    rw [Nat.zero_add]
    exact Nat.mul_le_mul_right dsCnt hfirst
  have hleft : u64 (((u64 (((u64 ((endTime - start) / curStep) : ℕ) : ℤ) - skipStart start curStep factor) : ℕ) : ℤ) -
      skipEnd endTime curStep factor) = g * factor := by
    have hsub : u64 (((b - a : ℕ) : ℤ) - skipStart start curStep factor) = b - a - skipStart start curStep factor :=
      u64_sub (by omega) (by omega)
    rw [hcnt, u64_natCast (by omega), hsub, u64_sub (by omega) (by omega)]
    omega
  have hsanity : ¬ g * factor % factor ≠ 0 := not_not.2 (Nat.mul_mod_left g factor)
  have hfit : ¬ 2 ^ 31 ≤ factor := by omega
  rw [rrdReduceDataInPlace, heq, if_neg hfit]
  simp only [hleft, if_neg hsanity]
  have hroom : (⟨mem, 0⟩ : Cursor RrdValue).dst + partialRow start (curStep * factor) * dsCnt ≤ size := by
    rw [Nat.zero_add]
    omega
  have hroom' : 0 + partialRow start (curStep * factor) * dsCnt + g * dsCnt + partialRow endTime (curStep * factor) * dsCnt ≤
      size := by omega
  rw [partialNanRow_eq hroom, ok_bind, reduceLoop_eq hdst hsrc hfactor hgle (by omega), ok_bind, partialNanRow_eq hroom',
    ok_bind, hgroups, reducedMem]
  -- The combined rows are read behind the row of `nan`.
  have hread : ∀ p < g * dsCnt, groupValue (reduceKind cf) dsCnt factor
      (put mem 0 (partialRow start (curStep * factor) * dsCnt) fun _ => .nan) (skipStart start curStep factor * dsCnt) p =
        groupValue (reduceKind cf) dsCnt factor mem (skipStart start curStep factor * dsCnt) p := by
    intro p _
    rw [groupValue, groupValue]
    congr 2
    funext i
    exact put_behind (by omega)
  simp only [Nat.zero_add, Nat.add_mul]
  rw [put_congr hread]

/-- The rows of `nan` in old rows. -/
lemma partialRow_eq (hcur : 0 < curStep) (ha : start = (curStep * a : ℕ)) (factor : ℕ) :
    partialRow start (curStep * factor) = if a % factor ≠ 0 then 1 else 0 := by
  rw [partialRow, ha, emod_newStep]
  refine if_congr ?_ rfl rfl
  rw [Nat.cast_ne_zero, Nat.mul_ne_zero_iff, and_iff_right hcur.ne']

lemma sub_emod_newStep (ha : start = (curStep * a : ℕ)) (factor : ℕ) :
    start - start % (curStep * factor : ℕ) = ((curStep * factor * (a / factor) : ℕ) : ℤ) := by
  have hdiv : curStep * a = curStep * factor * (a / factor) + curStep * (a % factor) := by
    conv_lhs => rw [← Nat.div_add_mod a factor]
    ring
  rw [ha, emod_newStep, hdiv]
  push_cast
  ring

/-- The end of the result. -/
lemma newEnd_eq (hb : endTime = (curStep * b : ℕ)) (factor : ℕ) :
    (if endTime % (curStep * factor : ℕ) ≠ 0 then endTime - endTime % (curStep * factor : ℕ) + (curStep * factor : ℕ)
      else endTime) = ((curStep * factor * (b / factor + partialRow endTime (curStep * factor)) : ℕ) : ℤ) := by
  have hsub := sub_emod_newStep hb factor
  unfold partialRow
  split
  · rw [hsub]
    push_cast
    ring
  · rename_i hzero
    rw [not_not.1 hzero, sub_zero] at hsub
    rw [hsub, Nat.add_zero]

/-- The rows of the result are those that are written. -/
lemma newRows_eq (hcur : 0 < curStep) (hfactor : 0 < factor) (ha : start = (curStep * a : ℕ))
    (hb : endTime = (curStep * b : ℕ)) (hle : nextGroup factor a ≤ b / factor) :
    (((if endTime % (curStep * factor : ℕ) ≠ 0 then endTime - endTime % (curStep * factor : ℕ) + (curStep * factor : ℕ)
      else endTime) - (start - start % (curStep * factor : ℕ))) / (curStep * factor : ℕ)).toNat =
        partialRow start (curStep * factor) + (b / factor - nextGroup factor a) + partialRow endTime (curStep * factor) := by
  have hpos : 0 < curStep * factor := Nat.mul_pos hcur hfactor
  have hnext : nextGroup factor a = a / factor + partialRow start (curStep * factor) := by
    rw [partialRow_eq hcur ha, nextGroup]
  have hrows : ((curStep * factor * (b / factor + partialRow endTime (curStep * factor)) : ℕ) : ℤ) -
      ((curStep * factor * (a / factor) : ℕ) : ℤ) = (curStep * factor : ℕ) *
        ((b / factor + partialRow endTime (curStep * factor) - a / factor : ℕ) : ℤ) := by
    rw [Nat.cast_sub (by omega)]
    push_cast
    ring
  rw [newEnd_eq hb, sub_emod_newStep ha, hrows, Int.mul_ediv_cancel_left _ (by exact_mod_cast hpos.ne'), Int.toNat_natCast]
  omega

end Result

/-! ### When there is a result -/

/-- `rrd_reduce_data` returns 1, the rows that it skips are rows of the window, so that their number does not wrap, and
it writes as many rows as the new window has. -/
def ReduceSucceeds (cf : Cf) (curStep : ℕ) (start endTime : ℤ) (step dsCnt : ℕ) (mem : ℕ → RrdValue) : Prop :=
  let rows := ((endTime - start) / curStep).toNat
  let factor := reduceFactor curStep step
  ∃ r, rrdReduceDataInPlace cf (rows * dsCnt) curStep start endTime step dsCnt mem = .ok r ∧
    skipStart start curStep factor + skipEnd endTime curStep factor ≤ rows ∧
    r.written = ((r.endTime - r.start) / r.step).toNat * dsCnt

section Succeeds

variable {start endTime : ℤ} {curStep step : ℕ}

lemma exists_rows (hstart : 0 ≤ start) (hlt : start < endTime) (hcur : 0 < curStep) (hds : (curStep : ℤ) ∣ start)
    (hde : (curStep : ℤ) ∣ endTime) : ∃ a b : ℕ, start = (curStep * a : ℕ) ∧ endTime = (curStep * b : ℕ) ∧ a < b ∧
      ((endTime - start) / curStep).toNat = b - a := by
  have hcurz : (0 : ℤ) < curStep := by exact_mod_cast hcur
  obtain ⟨m, rfl⟩ := hds
  obtain ⟨n, rfl⟩ := hde
  have hm : 0 ≤ m := nonneg_of_mul_nonneg_right hstart hcurz
  have hmn : m < n := lt_of_mul_lt_mul_left hlt hcurz.le
  refine ⟨m.toNat, n.toNat, ?_, ?_, by omega, ?_⟩
  · rw [Nat.cast_mul, Int.toNat_of_nonneg hm]
  · rw [Nat.cast_mul, Int.toNat_of_nonneg (by omega)]
  · rw [← mul_sub, Int.mul_ediv_cancel_left _ hcurz.ne']
    omega

lemma reduceFactor_pos (hcur : 0 < curStep) (hstep : curStep < step) : 0 < reduceFactor curStep step :=
  (two_le_reduceFactor hcur hstep).trans_lt' Nat.zero_lt_two

lemma lt_of_times {b : ℕ} (hcur : 0 < curStep) (hend : endTime < 2 ^ 63) (hb : endTime = (curStep * b : ℕ)) : b < 2 ^ 63 := by
  have hle : b ≤ curStep * b := Nat.le_mul_of_pos_left b hcur
  have hlt : curStep * b < 2 ^ 63 := by
    rw [hb] at hend
    exact_mod_cast hend
  exact hle.trans_lt hlt

end Succeeds

/-- The reduction has a result, with the right number of rows, exactly if the factor is an `int` and the window has a
multiple of the new step: inside of a single interval of the new step more rows are skipped than there are. -/
theorem rrdReduceData_succeeds_iff (cf : Cf) (curStep : ℕ) (start endTime : ℤ) (step dsCnt : ℕ) (mem : ℕ → RrdValue)
    (hcur : 0 < curStep) (hstart : 0 ≤ start) (hlt : start < endTime) (hend : endTime < 2 ^ 63)
    (hds : (curStep : ℤ) ∣ start) (hde : (curStep : ℤ) ∣ endTime) (hstep : curStep < step) :
    ReduceSucceeds cf curStep start endTime step dsCnt mem ↔
      reduceFactor curStep step < 2 ^ 31 ∧ HasMultiple start endTime (curStep * reduceFactor curStep step) := by
  obtain ⟨a, b, ha, hb, hab, hrows⟩ := exists_rows hstart hlt hcur hds hde
  have hfactor := reduceFactor_pos hcur hstep
  have hskips := skips_le_iff hcur hfactor ha hb hab.le
  unfold ReduceSucceeds
  simp only [hrows]
  constructor
  · rintro ⟨r, hr, hle, -⟩
    refine ⟨?_, hskips.1 hle⟩
    by_contra hbig
    rw [rrdReduceDataInPlace, if_pos (not_lt.1 hbig)] at hr
    cases hr
  · rintro ⟨hint, hmultiple⟩
    have hle := (hasMultiple_iff hcur hfactor ha hb).1 hmultiple
    refine ⟨_, rrdReduceDataInPlace_eq hcur hfactor hint rfl ha hb hab (lt_of_times hcur hend hb) hle le_rfl, hskips.2 hmultiple, ?_⟩
    rw [newRows_eq hcur hfactor ha hb hle]

/-- The 100 seconds from 400 to 500 lie inside of a single interval of 300 seconds; 18446744073709551613 rows remain. -/
theorem rrdReduceData_oneInterval :
    rrdReduceDataInPlace .average 1 100 400 500 300 1 (fun _ => 0) =
        .error (.error (.sanity 18446744073709551613 3)) ∧
      ¬ ReduceSucceeds .average 100 400 500 300 1 fun _ => 0 := by
  have hfails : rrdReduceDataInPlace .average 1 100 400 500 300 1 (fun _ => 0) =
      .error (.error (.sanity 18446744073709551613 3)) := by rfl
  refine ⟨hfails, ?_⟩
  rintro ⟨r, hr, -⟩
  rw [show ((500 - 400 : ℤ) / (100 : ℕ)).toNat * 1 = 1 from rfl, hfails] at hr
  cases hr

/-- The 600 seconds from 400 to 1000 have multiples of 300 seconds. -/
theorem rrdReduceData_succeeds_twoIntervals : ReduceSucceeds .average 100 400 1000 300 1 fun _ => 0 :=
  (rrdReduceData_succeeds_iff .average 100 400 1000 300 1 (fun _ => 0) (by decide) (by decide) (by decide) (by decide)
    (by decide) (by decide) (by decide)).2 ⟨by decide, 2, by decide, by decide⟩

/-! ### What the result holds -/

/-- The known ones of some values. -/
@[grind] def knownVals (vals : List RrdValue) : List ℚ :=
  vals.filterMap fun val => match val with | .fin x => some x | _ => none

/-- The number that stands for some numbers, while they are being collected. -/
def Collects (kind : ReduceKind) (known : List ℚ) (y : ℚ) : Prop :=
  match kind with
  | .average => y = known.sum
  | .minimum => y ∈ known ∧ ∀ z ∈ known, y ≤ z
  | .maximum => y ∈ known ∧ ∀ z ∈ known, z ≤ y
  | .last => known.getLast? = some y

/-- The mean, minimum, maximum or last one of the known values, `nan` if there are none. -/
def Consolidates (kind : ReduceKind) (vals : List RrdValue) (x : RrdValue) : Prop :=
  knownVals vals = [] ∧ x = .nan ∨
    knownVals vals ≠ [] ∧ ∃ y, x = .fin y ∧
      match kind with
      | .average => y = (knownVals vals).sum / (knownVals vals).length
      | kind => Collects kind (knownVals vals) y

section Combine

variable {kind : ReduceKind} {known : List ℚ} {acc : RrdValue × ℕ} {vals : List RrdValue} {x y : ℚ}

/-- What the loop over the values has found, for the known ones so far. -/
def ReducedFrom (kind : ReduceKind) (known : List ℚ) (acc : RrdValue × ℕ) : Prop :=
  acc.2 = known.length ∧ (known = [] ∧ acc.1 = .nan ∨ known ≠ [] ∧ ∃ y, acc.1 = .fin y ∧ Collects kind known y)

lemma collects_singleton : Collects kind [x] x := by
  cases kind with
  | average => exact List.sum_singleton.symm
  | minimum => exact ⟨List.mem_singleton_self x, fun z hz => (List.mem_singleton.1 hz).ge⟩
  | maximum => exact ⟨List.mem_singleton_self x, fun z hz => (List.mem_singleton.1 hz).le⟩
  | last => rfl

lemma collects_append (h : Collects kind known y) :
    ∃ z, addValue kind (.fin y) (.fin x) = .fin z ∧ Collects kind (known ++ [x]) z := by
  cases kind with
  | average => exact ⟨y + x, rfl, by rw [Collects, List.sum_append, List.sum_singleton, ← h]⟩
  | minimum =>
    obtain ⟨hmem, hle⟩ := h
    by_cases hlt : y < x
    · refine ⟨y, if_pos ((ExtNum.fin_lt_fin y x).2 hlt), List.mem_append_left _ hmem, fun z hz => ?_⟩
      obtain hz | hz := List.mem_append.1 hz
      · exact hle z hz
      · exact (List.mem_singleton.1 hz).symm ▸ hlt.le
    · refine ⟨x, if_neg ((ExtNum.fin_lt_fin y x).not.2 hlt), List.mem_append_right _ (List.mem_singleton_self x), fun z hz => ?_⟩
      obtain hz | hz := List.mem_append.1 hz
      · exact (not_lt.1 hlt).trans (hle z hz)
      · exact (List.mem_singleton.1 hz).ge
  | maximum =>
    obtain ⟨hmem, hle⟩ := h
    by_cases hlt : x < y
    · refine ⟨y, if_pos ((ExtNum.fin_lt_fin x y).2 hlt), List.mem_append_left _ hmem, fun z hz => ?_⟩
      obtain hz | hz := List.mem_append.1 hz
      · exact hle z hz
      · exact (List.mem_singleton.1 hz).symm ▸ hlt.le
    · refine ⟨x, if_neg ((ExtNum.fin_lt_fin x y).not.2 hlt), List.mem_append_right _ (List.mem_singleton_self x), fun z hz => ?_⟩
      obtain hz | hz := List.mem_append.1 hz
      · exact (hle z hz).trans (not_lt.1 hlt)
      · exact (List.mem_singleton.1 hz).le
  | last => exact ⟨x, rfl, List.getLast?_concat⟩

lemma ReducedFrom.fin (h : ReducedFrom kind known acc) (x : ℚ) : ReducedFrom kind (known ++ [x]) (combineStep kind acc (.fin x)) := by
  obtain ⟨hcnt, hval⟩ := h
  refine ⟨by simp [combineStep, hcnt], .inr ⟨by simp, ?_⟩⟩
  obtain ⟨rfl, hnan⟩ | ⟨-, y, hy, hcollects⟩ := hval
  · exact ⟨x, by simp [combineStep, hnan], collects_singleton⟩
  · obtain ⟨z, hz, hcollects'⟩ := @collects_append kind known x y hcollects
    exact ⟨z, by simp [combineStep, hy, hz], hcollects'⟩

/-- The loop collects the known values. -/
lemma reducedFrom_foldl (hfin : ∀ val ∈ vals, val.isinf = false) (h : ReducedFrom kind known acc) :
    ReducedFrom kind (known ++ knownVals vals) (vals.foldl (combineStep kind) acc) := by
  induction vals generalizing known acc with
  | nil => simpa [knownVals] using h
  | cons val vals ih =>
    obtain ⟨hval, hvals⟩ := List.forall_mem_cons.1 hfin
    rw [List.foldl_cons]
    cases val with
    | nan => exact ih hvals h
    | fin x =>
      have hstep := ih hvals (h.fin x)
      rwa [List.append_assoc] at hstep
    | pinf => cases hval
    | ninf => cases hval

/-- The value of an interval is the mean, minimum, maximum or last of its known values. -/
lemma combine_consolidates (kind : ReduceKind) (hfin : ∀ val ∈ vals, val.isinf = false) :
    Consolidates kind vals (combine kind vals) := by
  have h := @reducedFrom_foldl kind [] (.nan, 0) vals hfin ⟨rfl, .inl ⟨rfl, rfl⟩⟩
  rw [List.nil_append] at h
  obtain ⟨hcnt, hval⟩ := h
  obtain ⟨hnone, -⟩ | ⟨hsome, y, hy, hcollects⟩ := hval
  · refine .inl ⟨hnone, ?_⟩
    rw [hnone] at hcnt
    exact if_pos hcnt
  · have hne : (knownVals vals).length ≠ 0 := fun hzero => hsome (List.eq_nil_of_length_eq_zero hzero)
    refine .inr ⟨hsome, ?_⟩
    simp only [combine, hcnt, if_neg hne, hy]
    cases kind with
    | average =>
      refine ⟨y / (knownVals vals).length, ExtNum.fin_div_fin (by exact_mod_cast hne), ?_⟩
      rw [show y = (knownVals vals).sum from hcollects]
    | minimum => exact ⟨y, rfl, hcollects⟩
    | maximum => exact ⟨y, rfl, hcollects⟩
    | last => exact ⟨y, rfl, hcollects⟩

end Combine

/-- The old values of a column whose intervals lie between two times. -/
def sourceValues (curStep : ℕ) (start endTime : ℤ) (dsCnt col : ℕ) (mem : ℕ → RrdValue) (lo hi : ℤ) : List RrdValue :=
  ((List.range ((endTime - start) / curStep).toNat).filter fun i : ℕ =>
    lo ≤ start + i * curStep ∧ start + (i + 1) * curStep ≤ hi).map fun i => mem (i * dsCnt + col)

/-- `rrd_reduce_data` returns 1, the start is rounded down and the end up to multiples of the new step, and the array
begins with the rows of the new window, each with the consolidated old values of its interval, or `nan` if the old
window has only a part of it. What stands behind them is not changed. -/
def ReduceExact (cf : Cf) (curStep : ℕ) (start endTime : ℤ) (step dsCnt : ℕ) (mem : ℕ → RrdValue) : Prop :=
  let newStep := curStep * reduceFactor curStep step
  let size := ((endTime - start) / curStep).toNat * dsCnt
  ∃ r, rrdReduceDataInPlace cf size curStep start endTime step dsCnt mem = .ok r ∧ r.step = newStep ∧
    ((newStep : ℤ) ∣ r.start ∧ r.start ≤ start ∧ start < r.start + newStep) ∧
    ((newStep : ℤ) ∣ r.endTime ∧ endTime ≤ r.endTime ∧ r.endTime < endTime + newStep) ∧
    r.written = ((r.endTime - r.start) / newStep).toNat * dsCnt ∧ r.written ≤ size ∧
    (∀ p, r.written ≤ p → r.mem p = mem p) ∧
    ∀ j col : ℕ, (j : ℤ) < (r.endTime - r.start) / newStep → col < dsCnt →
      let lo := r.start + j * newStep
      if start ≤ lo ∧ lo + newStep ≤ endTime then
        Consolidates (reduceKind cf) (sourceValues curStep start endTime dsCnt col mem lo (lo + newStep))
          (r.mem (j * dsCnt + col))
      else r.mem (j * dsCnt + col) = .nan

section Exact

variable {start endTime : ℤ} {curStep factor step dsCnt a b first groups last skip j col n : ℕ} {cf : Cf} {mem : ℕ → RrdValue}

lemma reducedMem_first (hj : j < first) (hcol : col < dsCnt) :
    reducedMem cf dsCnt factor mem first groups last skip (j * dsCnt + col) = .nan := by
  have hrow := Nat.mul_le_mul_right dsCnt hj
  rw [Nat.succ_mul] at hrow
  have hin : j * dsCnt + col < first * dsCnt := by omega
  have hbefore : j * dsCnt + col < (first + groups) * dsCnt := by
    rw [Nat.add_mul]
    omega
  rw [reducedMem, put_before hbefore, put_before hin, ← Nat.zero_add (j * dsCnt + col), put_inside hin]

lemma reducedMem_group (hj : j < groups) (hcol : col < dsCnt) :
    reducedMem cf dsCnt factor mem first groups last skip ((first + j) * dsCnt + col) =
      combine (reduceKind cf) ((List.range factor).map fun i => mem ((skip + j * factor + i) * dsCnt + col)) := by
  have hrow := Nat.mul_le_mul_right dsCnt hj
  rw [Nat.succ_mul] at hrow
  have hin : j * dsCnt + col < groups * dsCnt := by omega
  have hbefore : (first + j) * dsCnt + col < (first + groups) * dsCnt := by
    rw [Nat.add_mul, Nat.add_mul]
    omega
  have hdiv : (j * dsCnt + col) / dsCnt = j := by
    rw [Nat.mul_comm, Nat.mul_add_div (by omega), Nat.div_eq_of_lt hcol, Nat.add_zero]
  have hmod : (j * dsCnt + col) % dsCnt = col := by rw [Nat.mul_comm, Nat.mul_add_mod, Nat.mod_eq_of_lt hcol]
  rw [reducedMem, put_before hbefore, Nat.add_mul, Nat.add_assoc, put_inside hin, groupValue, hdiv, hmod]
  congr 2
  funext i
  congr 1
  ring

lemma reducedMem_last (hj : j < last) (hcol : col < dsCnt) :
    reducedMem cf dsCnt factor mem first groups last skip ((first + groups + j) * dsCnt + col) = .nan := by
  have hrow := Nat.mul_le_mul_right dsCnt hj
  rw [Nat.succ_mul] at hrow
  have hin : j * dsCnt + col < last * dsCnt := by omega
  rw [reducedMem, Nat.add_mul _ j, Nat.add_assoc, put_inside hin]

lemma reducedMem_behind {p : ℕ} (hp : (first + groups + last) * dsCnt ≤ p) :
    reducedMem cf dsCnt factor mem first groups last skip p = mem p := by
  rw [Nat.add_mul] at hp
  have hgroups : first * dsCnt + groups * dsCnt ≤ p := by
    rw [← Nat.add_mul]
    omega
  rw [reducedMem, put_behind hp, put_behind hgroups, put_behind (by omega)]

/-- The indices in a range of indices. -/
lemma filter_range_between (hn : first + factor ≤ n) :
    (List.range n).filter (fun i => first ≤ i ∧ i + 1 ≤ first + factor) = (List.range factor).map fun i => first + i := by
  have hsplit : List.range n =
      List.range' 0 first ++ (List.range' first factor ++ List.range' (first + factor) (n - (first + factor))) := by
    have hfront := List.range'_append_1 (s := 0) (m := first) (n := factor + (n - (first + factor)))
    rw [Nat.zero_add] at hfront
    rw [List.range_eq_range', List.range'_append_1, hfront]
    congr 1
    omega
  rw [hsplit, List.filter_append, List.filter_append, List.filter_eq_nil_iff.2, List.nil_append, List.filter_eq_self.2,
    List.filter_eq_nil_iff.2, List.append_nil, List.range'_eq_map_range]
  · intro i hi
    have := List.mem_range'_1.1 hi
    simp only [decide_eq_true_eq]
    omega
  · intro i hi
    have := List.mem_range'_1.1 hi
    simp only [decide_eq_true_eq]
    omega
  · intro i hi
    have := List.mem_range'_1.1 hi
    simp only [decide_eq_true_eq]
    omega

/-- The old rows of a complete interval are those of its group. -/
lemma sourceValues_eq (hcur : 0 < curStep) {lo : ℤ} (hn : first + factor ≤ ((endTime - start) / curStep).toNat)
    (hlo : lo = start + first * curStep) :
    sourceValues curStep start endTime dsCnt col mem lo (lo + (curStep * factor : ℕ)) =
      (List.range factor).map fun i => mem ((first + i) * dsCnt + col) := by
  have hcurz : (0 : ℤ) < curStep := by exact_mod_cast hcur
  have hbetween : ∀ i : ℕ, (lo ≤ start + i * curStep ∧ start + (i + 1) * curStep ≤ lo + (curStep * factor : ℕ)) ↔
      (first ≤ i ∧ i + 1 ≤ first + factor) := by
    intro i
    have hhigh : lo + (curStep * factor : ℕ) = start + (first + factor : ℕ) * curStep := by
      rw [hlo]
      push_cast
      ring
    rw [hhigh, hlo]
    refine and_congr ?_ ?_
    · rw [add_le_add_iff_left, mul_le_mul_iff_left₀ hcurz, Nat.cast_le]
    · rw [add_le_add_iff_left, mul_le_mul_iff_left₀ hcurz, ← Nat.cast_succ, Nat.cast_le]
  simp only [sourceValues, hbetween]
  rw [filter_range_between hn, List.map_map]
  rfl

/-- The new rows whose interval is inside of the old window are those that are combined. -/
lemma windowInside_iff (hcur : 0 < curStep) (hfactor : 0 < factor) (ha : start = (curStep * a : ℕ))
    (hb : endTime = (curStep * b : ℕ)) (j : ℕ) :
    (start ≤ ((curStep * factor * (a / factor) : ℕ) : ℤ) + j * (curStep * factor : ℕ) ∧
      ((curStep * factor * (a / factor) : ℕ) : ℤ) + j * (curStep * factor : ℕ) + (curStep * factor : ℕ) ≤ endTime) ↔
      (nextGroup factor a ≤ a / factor + j ∧ a / factor + j + 1 ≤ b / factor) := by
  have hlo : ((curStep * factor * (a / factor) : ℕ) : ℤ) + j * (curStep * factor : ℕ) =
      (curStep * ((a / factor + j) * factor) : ℕ) := by
    push_cast
    ring
  have hhi : ((curStep * ((a / factor + j) * factor) : ℕ) : ℤ) + (curStep * factor : ℕ) =
      (curStep * ((a / factor + j + 1) * factor) : ℕ) := by
    push_cast
    ring
  have hmod := Nat.mod_lt a hfactor
  have hdiv := Nat.div_add_mod a factor
  rw [Nat.mul_comm] at hdiv
  rw [hlo, hhi, ha, hb, Nat.cast_le, Nat.cast_le]
  refine and_congr ?_ ?_
  · rw [Nat.mul_le_mul_left_iff hcur, Nat.add_mul]
    unfold nextGroup
    split
    · constructor
      · intro h
        have : 0 < j := by
          refine Nat.pos_of_ne_zero ?_
          rintro rfl
          omega
        omega
      · intro h
        have := Nat.mul_le_mul_right factor (show 1 ≤ j by omega)
        omega
    · exact iff_of_true (by omega) (by omega)
  · rw [Nat.mul_le_mul_left_iff hcur, Nat.le_div_iff_mul_le hfactor]

end Exact

/-- With a multiple of the new step in the window, the reduction is exact if and only if the factor is an `int`. -/
theorem rrdReduceData_exact_iff (cf : Cf) (curStep : ℕ) (start endTime : ℤ) (step dsCnt : ℕ) (mem : ℕ → RrdValue)
    (hcur : 0 < curStep) (hstart : 0 ≤ start) (hlt : start < endTime) (hend : endTime < 2 ^ 63)
    (hds : (curStep : ℤ) ∣ start) (hde : (curStep : ℤ) ∣ endTime) (hstep : curStep < step)
    (hmultiple : HasMultiple start endTime (curStep * reduceFactor curStep step))
    (hfin : ∀ p, (mem p).isinf = false) :
    ReduceExact cf curStep start endTime step dsCnt mem ↔ reduceFactor curStep step < 2 ^ 31 := by
  obtain ⟨a, b, ha, hb, hab, hrows⟩ := exists_rows hstart hlt hcur hds hde
  have hfactor := reduceFactor_pos hcur hstep
  have hle := (hasMultiple_iff hcur hfactor ha hb).1 hmultiple
  unfold ReduceExact
  simp only [hrows]
  constructor
  · rintro ⟨r, hr, -⟩
    by_contra hbig
    rw [rrdReduceDataInPlace, if_pos (not_lt.1 hbig)] at hr
    cases hr
  · intro hint
    have heq := @rrdReduceDataInPlace_eq start endTime curStep _ step dsCnt _ a b cf mem hcur hfactor hint rfl ha hb hab
      (lt_of_times hcur hend hb) hle le_rfl
    have hnewrows := newRows_eq hcur hfactor ha hb hle
    have hnew : (0 : ℤ) < (curStep * reduceFactor curStep step : ℕ) := by exact_mod_cast Nat.mul_pos hcur hfactor
    have hspace := newRows_le hcur hfactor ha hb hle
    have hskip := skipStart_eq hcur hfactor ha
    have hnext : nextGroup (reduceFactor curStep step) a =
        a / reduceFactor curStep step + partialRow start (curStep * reduceFactor curStep step) := by
      rw [partialRow_eq hcur ha, nextGroup]
    have hend' := newEnd_eq hb (reduceFactor curStep step)
    have hstart' := sub_emod_newStep ha (reduceFactor curStep step)
    have hinside := fun j => windowInside_iff (j := j) hcur hfactor ha hb
    generalize reduceFactor curStep step = factor at *
    refine ⟨_, heq, rfl, ⟨Int.dvd_self_sub_emod, ?_, ?_⟩, ⟨?_, ?_, ?_⟩, ?_, Nat.mul_le_mul_right dsCnt hspace,
      fun p hp => reducedMem_behind hp, fun j col hj hcol => ?_⟩
    · linarith [Int.emod_nonneg start hnew.ne']
    · linarith [Int.emod_lt_of_pos start hnew]
    · simp only [hend']
      exact_mod_cast Dvd.intro _ rfl
    · simp only
      split
      · linarith [Int.emod_lt_of_pos endTime hnew]
      · exact le_rfl
    · simp only
      split
      · rename_i hne
        have := lt_of_le_of_ne (Int.emod_nonneg endTime hnew.ne') (Ne.symm hne)
        linarith
      · linarith
    · rw [hnewrows]
    · have hj' : j < partialRow start (curStep * factor) + (b / factor - nextGroup factor a) +
          partialRow endTime (curStep * factor) := by
        rw [← hnewrows]
        exact (Int.lt_toNat).2 hj
      simp only [hstart', hinside]
      split
      · rename_i hin
        obtain ⟨k, rfl⟩ := Nat.exists_eq_add_of_le (show partialRow start (curStep * factor) ≤ j by omega)
        have hk : k < b / factor - nextGroup factor a := by omega
        have hgroup := Nat.mul_le_mul_right factor hk
        rw [Nat.succ_mul, Nat.sub_mul] at hgroup
        have hdiv := Nat.div_mul_le_self b factor
        have hspan : skipStart start curStep factor + k * factor + factor ≤ ((endTime - start) / curStep).toNat := by
          rw [hrows]
          omega
        rw [reducedMem_group hk hcol, sourceValues_eq hcur hspan]
        · refine combine_consolidates (reduceKind cf) fun val hval => ?_
          obtain ⟨i, -, rfl⟩ := List.mem_map.1 hval
          exact hfin _
        · have hrow : curStep * factor * (a / factor) + (partialRow start (curStep * factor) + k) * (curStep * factor) =
              curStep * a + (skipStart start curStep factor + k * factor) * curStep := by
            have hmul := congrArg (curStep * ·) hskip
            simp only [hnext] at hmul
            linarith
          have hcast : ((curStep * factor * (a / factor) : ℕ) : ℤ) +
              ((partialRow start (curStep * factor) + k : ℕ) : ℤ) * ((curStep * factor : ℕ) : ℤ) =
                ((curStep * a : ℕ) : ℤ) + ((skipStart start curStep factor + k * factor : ℕ) : ℤ) * curStep := by
            exact_mod_cast hrow
          rwa [← ha] at hcast
      · rename_i hout
        obtain hfirst | hlast : j < partialRow start (curStep * factor) ∨
            partialRow start (curStep * factor) + (b / factor - nextGroup factor a) ≤ j := by omega
        · exact reducedMem_first hfirst hcol
        · obtain ⟨k, rfl⟩ := Nat.exists_eq_add_of_le hlast
          exact reducedMem_last (by omega) hcol

/-- Five rows of 100 seconds, with one value that is not known, in steps of 200 seconds. -/
theorem rrdReduceData_exact_fiveRows :
    ReduceExact .maximum 100 300 800 150 1 fun p => if p = 2 then .nan else .fin p :=
  (rrdReduceData_exact_iff .maximum 100 300 800 150 1 _ (by decide) (by decide) (by decide) (by decide) (by decide)
    (by decide) (by decide) ⟨2, by decide, by decide⟩ fun p => by split <;> rfl).2 (by decide)

/-- Two rows of a second are reduced to a step of 2147483648 seconds: the factor is no `int`. -/
theorem rrdReduceData_wideFactor :
    ¬ ReduceExact .maximum 1 2147483647 2147483649 2147483648 1 fun p => .fin p := by
  rintro ⟨r, hr, -⟩
  cases hr

end Rrdtool
