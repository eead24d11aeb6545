import Rrdtool.Graph.Variable
import Rrdtool.Lib.Segments

/-!
# The values of the pixels

Port of `data_proc` (`src/rrd_graph.c`). For each pixel column it goes through the elements of the graph with one
accumulator `paintval`, which an element that is not stacked sets back to 0. `dataProc_pixels_iff` says when each
element gets the sum of its stack group and the extreme values are those of these sums.
-/

namespace Rrdtool

open Checked

/-- The elements that get values for the pixels. -/
inductive Painter where
  | line
  | area
  | tick
deriving DecidableEq

/-- The fields of a `LINE`, `AREA` or `TICK`. A number that is given in place of a variable is in `yrule`, with -1 for
the variable. -/
structure Paint where
  gf : Painter
  stack : Bool
  skipscale : Bool
  yrule : RrdValue
  vidx : ℤ
deriving DecidableEq

/-- A graph description, with the fields that are read for its type: a `DEF` or `CDEF`, a `VDEF` with its value, an
element to paint, a `STACK`, or another one. -/
inductive GraphElem where
  | variable (v : VarData)
  | vdef (val : RrdValue)
  | paint (p : Paint)
  | stack
  | other

/-- What the parser has found for the name of a variable: a variable that is well formed, with no number beside it,
or none for a number. -/
@[grind] def Paint.Resolved (gdes : List GraphElem) (p : Paint) : Prop :=
  p.vidx = -1 ∧ p.gf ≠ .tick ∨
    0 ≤ p.vidx ∧ (p.gf ≠ .tick → p.yrule = .nan) ∧
      ((∃ val, gdes[p.vidx.toNat]? = some (.vdef val)) ∨
        ∃ v : VarData, gdes[p.vidx.toNat]? = some (.variable v) ∧ v.WellFormed)

/-- What is read of the image (C `image_desc_t`). The limits are `nan` when they are not given. The options are
checked to name a window, and the parser resolves all names and turns each `STACK` into a `LINE` or an `AREA`. -/
structure ImageDesc where
  start : ℤ
  endTime : ℤ
  xsize : ℕ
  gdes : List GraphElem
  logarithmic : Bool
  rigid : Bool
  allowShrink : Bool
  minval : RrdValue
  maxval : RrdValue
  start_nonneg : 0 ≤ start
  start_le : start ≤ endTime
  xsize_pos : 0 < xsize
  resolved : ∀ p : Paint, .paint p ∈ gdes → p.Resolved gdes
  no_stack : .stack ∉ gdes

/-- `pixstep`, the time that passes in one pixel. -/
def ImageDesc.pixstep (im : ImageDesc) : ℚ := (im.endTime - im.start : ℤ) / im.xsize

/-- `gr_time`, the time of a pixel. -/
def ImageDesc.grTime (im : ImageDesc) (i : ℕ) : ℤ := ⌊(im.start : ℚ) + im.pixstep * i⌋

/-- The value of an element at a time. -/
@[grind] def paintValue (gdes : List GraphElem) (p : Paint) (grTime : ℤ) : Reads RrdValue :=
  if p.yrule.isnan ∨ p.gf = .tick then
    if p.vidx < 0 then .error (.fault (.gdes p.vidx))
    else
      match gdes[p.vidx.toNat]? with
      | some (.vdef val) => .ok val
      | some (.variable v) => v.valueAt v.read grTime
      | _ => .error (.fault (.gdes p.vidx))
  else .ok p.yrule

/-- The variables of the loops, and the cells `p_data[i]` of the elements. -/
structure ProcState where
  paintval : RrdValue
  minval : RrdValue
  maxval : RrdValue
  pData : ℕ → ℕ → Option RrdValue

/-- `gdes[ii].p_data[i] = x`. -/
@[grind] def ProcState.store (st : ProcState) (ii i : ℕ) (x : RrdValue) : ProcState :=
  { st with pData := Function.update st.pData ii (Function.update (st.pData ii) i (some x)) }

/-- Whether a value counts for the extreme values. -/
@[grind] def Paint.scaled (p : Paint) (paintval : RrdValue) : Bool :=
  !paintval.isnan && !paintval.isinf && p.gf ≠ .tick && !p.skipscale

/-- The new smallest value; a logarithmic axis has no place for one that is not positive. -/
def newMinval (logarithmic : Bool) (minval paintval : RrdValue) : RrdValue :=
  if (minval.isnan ∨ paintval < minval) ∧ ¬ (logarithmic ∧ ¬ 0 < paintval) then paintval else minval

/-- The new greatest value. -/
def newMaxval (maxval paintval : RrdValue) : RrdValue := if maxval.isnan ∨ maxval < paintval then paintval else maxval

/-- The extreme values after one more value of an element. -/
@[grind] def ProcState.track (st : ProcState) (logarithmic : Bool) (p : Paint) : ProcState :=
  if p.scaled st.paintval then
    { st with
      minval := newMinval logarithmic st.minval st.paintval
      maxval := newMaxval st.maxval st.paintval }
  else st

/-- The element `ii` for the pixel `i`. -/
@[grind] def procElem (im : ImageDesc) (i ii : ℕ) (st : ProcState) : Reads ProcState :=
  match im.gdes[ii]? with
  | some (.paint p) => do
    let value ← paintValue im.gdes p (im.grTime i)
    let paintval := if p.stack then st.paintval else 0
    if value.isnan then .ok ({ st with paintval := paintval }.store ii i .nan)
    else .ok (({ st with paintval := paintval + value }.store ii i (paintval + value)).track im.logarithmic p)
  | some .stack => .error (.error .stack)
  | _ => .ok st

/-- One pixel. -/
def procPixel (im : ImageDesc) (i : ℕ) (st : ProcState) : Reads ProcState :=
  steps (procElem im i) im.gdes.length { st with paintval := 0 }

/-- The loop over the pixels. -/
def procPixels (im : ImageDesc) : Reads ProcState := steps (procPixel im) im.xsize ⟨0, .nan, .nan, fun _ _ => none⟩

/-- The extreme values, with dummy values when there are no data. -/
@[grind] def dataRange (logarithmic : Bool) (minval maxval : RrdValue) : RrdValue × RrdValue :=
  if logarithmic then
    let r := if minval.isnan ∨ maxval.isnan ∨ ¬ 0 < maxval then (0, .fin (51 / 10)) else (minval, maxval)
    (if ¬ 0 < r.1 then r.2 / .fin (10 * 10 ^ 8) else r.1, r.2)
  else if minval.isnan ∨ maxval.isnan then (0, .fin 1) else (minval, maxval)

/-- The lower limit of the axis: what the user has given and the smallest value. -/
def lowerLimit (im : ImageDesc) (minval : RrdValue) : RrdValue :=
  let data := if im.logarithmic then minval / .fin 2 else minval
  let lower := if im.minval.isnan ∨ ¬ im.rigid ∧ minval < im.minval then data else im.minval
  if ¬ lower.isnan ∧ im.rigid ∧ im.allowShrink ∧ lower < minval then data else lower

/-- The upper limit of the axis. -/
def upperLimit (im : ImageDesc) (maxval : RrdValue) : RrdValue :=
  let data := if im.logarithmic then maxval * .fin 2 else maxval
  let upper := if im.maxval.isnan ∨ ¬ im.rigid ∧ im.maxval < maxval then data else im.maxval
  if ¬ upper.isnan ∧ im.rigid ∧ im.allowShrink ∧ maxval < upper then data else upper

/-- A lower limit above the upper one is moved. -/
@[grind] def separate (lower upper : RrdValue) : RrdValue :=
  if upper < lower then
    if 0 < lower then .fin (99 / 100) * upper else .fin (101 / 100) * upper
  else lower

/-- An upper limit that equals the lower one is moved. -/
@[grind] def spread (lower upper : RrdValue) : RrdValue :=
  if lower = upper then
    let upper := if 0 < upper then upper * .fin (101 / 100) else upper * .fin (99 / 100)
    if upper = 0 then .fin 1 else upper
  else upper

/-- The values of the pixels and the limits of the axis. -/
structure ProcResult where
  pData : ℕ → ℕ → Option RrdValue
  minval : RrdValue
  maxval : RrdValue

/-- `data_proc`. -/
def dataProc (im : ImageDesc) : Reads ProcResult := do
  let st ← procPixels im
  let range := dataRange im.logarithmic st.minval st.maxval
  let upper := upperLimit im range.2
  let lower := separate (lowerLimit im range.1) upper
  .ok ⟨st.pData, lower, spread lower upper⟩

/-! ### What the pixels show -/

/-- The value of an element at a time: the number, the value of the `VDEF`, or the row of the variable that the time
falls into. -/
@[grind] def elemValue (gdes : List GraphElem) (p : Paint) (t : ℤ) : RrdValue :=
  if p.vidx < 0 then p.yrule
  else
    match gdes[p.vidx.toNat]? with
    | some (.vdef val) => val
    | some (.variable v) => if v.start ≤ t ∧ t < v.endTime then v.row ((t - v.start) / v.step).toNat else .nan
    | _ => .nan

/-- The time of a pixel. -/
def ImageDesc.pixelTime (im : ImageDesc) (i : ℕ) : ℤ := im.start + i * (im.endTime - im.start) / im.xsize

/-- The element begins a stack group. -/
@[grind] def beginsGroup (gdes : List GraphElem) (k : ℕ) : Bool :=
  match gdes[k]? with
  | some (.paint p) => !p.stack
  | _ => false

/-- What the element adds to its stack group; nothing if its value is not known. -/
@[grind] def contribution (gdes : List GraphElem) (t : ℤ) (k : ℕ) : RrdValue :=
  match gdes[k]? with
  | some (.paint p) => if (elemValue gdes p t).isnan then 0 else elemValue gdes p t
  | _ => 0

/-- The sum of the known values of the stack group of an element, up to and including it. -/
def stackSum (gdes : List GraphElem) (t : ℤ) (k : ℕ) : RrdValue :=
  ∑ j ∈ (Finset.range (k + 1)).filter (Segments.Open (beginsGroup gdes) (k + 1)), contribution gdes t j

/-- What an element shows in a pixel. -/
@[grind] def pixelValue (im : ImageDesc) (p : Paint) (i k : ℕ) : RrdValue :=
  if (elemValue im.gdes p (im.pixelTime i)).isnan then .nan else stackSum im.gdes (im.pixelTime i) k

/-- The element shows the number in the pixel, and it counts for the extreme values. -/
def Shown (im : ImageDesc) (i k : ℕ) (x : ℚ) : Prop :=
  ∃ p, im.gdes[k]? = some (.paint p) ∧ p.gf ≠ .tick ∧ p.skipscale = false ∧ pixelValue im p i k = .fin x

/-- The smallest of some numbers, or `nan` if there are none. -/
def Least (S : Set ℚ) (m : RrdValue) : Prop := S = ∅ ∧ m = .nan ∨ ∃ x, m = .fin x ∧ IsLeast S x

/-- The greatest of some numbers, or `nan` if there are none. -/
def Greatest (S : Set ℚ) (m : RrdValue) : Prop := S = ∅ ∧ m = .nan ∨ ∃ x, m = .fin x ∧ IsGreatest S x

/-- The numbers that have been shown before the element `ii` of the pixel `i`. -/
def shownBefore (im : ImageDesc) (i ii : ℕ) : Set ℚ := {x | ∃ i' k, (i' < i ∨ i' = i ∧ k < ii) ∧ Shown im i' k x}

/-- The numbers of all pixels. -/
@[grind] def shown (im : ImageDesc) : Set ℚ := {x | ∃ i < im.xsize, ∃ k, Shown im i k x}

section Extremes

variable {S : Set ℚ} {m : RrdValue} {x : ℚ}

lemma Least.add (h : Least S m) : Least (insert x S) (if m.isnan ∨ .fin x < m then .fin x else m) := by
  obtain ⟨rfl, rfl⟩ | ⟨y, rfl, hy⟩ := h
  · refine .inr ⟨x, rfl, ?_⟩
    rw [insert_empty_eq]
    exact isLeast_singleton
  · simp only [ExtNum.isnan_fin, Bool.false_eq_true, false_or, ExtNum.fin_lt_fin]
    refine .inr ⟨min x y, ?_, hy.insert x⟩
    by_cases hxy : x < y
    · rw [if_pos hxy, min_eq_left hxy.le]
    · rw [if_neg hxy, min_eq_right (not_lt.1 hxy)]

lemma Greatest.add (h : Greatest S m) : Greatest (insert x S) (if m.isnan ∨ m < .fin x then .fin x else m) := by
  obtain ⟨rfl, rfl⟩ | ⟨y, rfl, hy⟩ := h
  · refine .inr ⟨x, rfl, ?_⟩
    rw [insert_empty_eq]
    exact isGreatest_singleton
  · simp only [ExtNum.isnan_fin, Bool.false_eq_true, false_or, ExtNum.fin_lt_fin]
    refine .inr ⟨max x y, ?_, hy.insert x⟩
    by_cases hxy : y < x
    · rw [if_pos hxy, max_eq_left hxy.le]
    · rw [if_neg hxy, max_eq_right (not_lt.1 hxy)]

/-- The numbers that a logarithmic axis has a place for. -/
def drawable (logarithmic : Bool) (S : Set ℚ) : Set ℚ := {x ∈ S | logarithmic → 0 < x}

lemma Least.addDrawable {logarithmic : Bool} (h : Least (drawable logarithmic S) m) :
    Least (drawable logarithmic (insert x S)) (newMinval logarithmic m (.fin x)) := by
  unfold newMinval
  by_cases hplace : logarithmic = true ∧ ¬ (0 : RrdValue) < .fin x
  · have hnot : ¬ 0 < x := fun hx => hplace.2 ((ExtNum.fin_lt_fin 0 x).2 hx)
    have hsame : drawable logarithmic (insert x S) = drawable logarithmic S := by
      refine Set.ext fun y => ⟨?_, fun hy => ⟨.inr hy.1, hy.2⟩⟩
      rintro ⟨rfl | hy, hpos⟩
      · exact absurd (hpos hplace.1) hnot
      · exact ⟨hy, hpos⟩
    rw [if_neg fun hcond => hcond.2 hplace, hsame]
    exact h
  · have hplus : drawable logarithmic (insert x S) = insert x (drawable logarithmic S) := by
      refine Set.ext fun y => ⟨?_, ?_⟩
      · rintro ⟨rfl | hy, hpos⟩
        · exact .inl rfl
        · exact .inr ⟨hy, hpos⟩
      · rintro (rfl | hy)
        · refine ⟨.inl rfl, fun hlog => by_contra fun hnot => hplace ⟨hlog, fun hx => hnot ?_⟩⟩
          exact (ExtNum.fin_lt_fin 0 y).1 hx
        · exact ⟨.inr hy.1, hy.2⟩
    rw [hplus]
    simp only [hplace, not_false_eq_true, and_true]
    exact h.add

end Extremes

/-! ### The loops -/

section Loops

variable {im : ImageDesc} {gdes : List GraphElem} {p : Paint} {i ii : ℕ} {st st' : ProcState} {t : ℤ}

/-- The time of a pixel is the start and the whole seconds of its offset. -/
lemma grTime_eq (im : ImageDesc) (i : ℕ) : im.grTime i = im.pixelTime i := by
  have hsum : (im.start : ℚ) + im.pixstep * i = im.start + ((i * (im.endTime - im.start) : ℤ) : ℚ) / (im.xsize : ℕ) := by
    rw [ImageDesc.pixstep]
    push_cast
    ring
  rw [ImageDesc.grTime, ImageDesc.pixelTime, hsum, Int.floor_intCast_add, Rat.floor_intCast_div_natCast]

/-- A number that is not `nan`, or a variable. -/
def Paint.HasValue (p : Paint) : Prop := ¬ (p.vidx = -1 ∧ p.yrule = .nan)

/-- What the source reads for an element is its value, and no index is outside of the data. -/
lemma paintValue_eq (h : p.Resolved gdes) (hvalue : p.HasValue) (t : ℤ) :
    paintValue gdes p t = .ok (elemValue gdes p t) := by
  obtain ⟨hidx, hgf⟩ | ⟨hidx, hyrule, hvar⟩ := h
  · have hnum : p.yrule ≠ .nan := fun hnan => hvalue ⟨hidx, hnan⟩
    have hcond : ¬ (p.yrule.isnan = true ∨ p.gf = .tick) := not_or.2 ⟨hnum ∘ ExtNum.isnan_eq_true.1, hgf⟩
    have hneg : p.vidx < 0 := by omega
    rw [paintValue, elemValue, if_neg hcond, if_pos hneg]
  · have hcond : p.yrule.isnan = true ∨ p.gf = .tick := by
      by_cases htick : p.gf = .tick
      · exact .inr htick
      · exact .inl (ExtNum.isnan_eq_true.2 (hyrule htick))
    have hneg : ¬ p.vidx < 0 := by omega
    rw [paintValue, elemValue, if_pos hcond, if_neg hneg, if_neg hneg]
    obtain ⟨val, hval⟩ | ⟨v, hv, hwf⟩ := hvar
    · rw [hval]
    · rw [hv]
      by_cases hin : v.start ≤ t ∧ t < v.endTime
      · have hpos : (0 : ℤ) < v.step := by exact_mod_cast hwf.step_pos
        have hnonneg : 0 ≤ (t - v.start) / v.step := Int.ediv_nonneg (by omega) hpos.le
        have hread := hwf.read_row (hwf.row_lt hin.1 hin.2)
        rw [Int.toNat_of_nonneg hnonneg] at hread
        simp only [VarData.valueAt, if_pos hin]
        exact hread
      · simp only [VarData.valueAt, if_neg hin]

/-- The accumulator before an element. -/
@[grind] def openSum (gdes : List GraphElem) (t : ℤ) (k : ℕ) : RrdValue :=
  Segments.running (beginsGroup gdes) (contribution gdes t) k

lemma openSum_succ (k : ℕ) : openSum gdes t (k + 1) = stackSum gdes t k := Segments.running_eq_sum (k + 1)

lemma openSum_paint {k : ℕ} (hp : gdes[k]? = some (.paint p)) :
    openSum gdes t (k + 1) = (if p.stack then openSum gdes t k else 0) +
      if (elemValue gdes p t).isnan then 0 else elemValue gdes p t := by
  simp only [openSum, Segments.running, beginsGroup, contribution, hp]
  cases p.stack <;> rfl

lemma openSum_other {k : ℕ} (h : ∀ p : Paint, gdes[k]? ≠ some (.paint p)) : openSum gdes t (k + 1) = openSum gdes t k := by
  have hbegins : beginsGroup gdes k = false := by
    unfold beginsGroup
    split
    · exact absurd ‹_› (h _)
    · rfl
  have hnothing : contribution gdes t k = 0 := by
    unfold contribution
    split
    · exact absurd ‹_› (h _)
    · rfl
  rw [openSum, Segments.running, hbegins, hnothing, add_zero]
  rfl

lemma mem_shownBefore_succ {x : ℚ} : x ∈ shownBefore im i (ii + 1) ↔ x ∈ shownBefore im i ii ∨ Shown im i ii x := by
  constructor
  · rintro ⟨i', k, hlt, hx⟩
    obtain hi | ⟨rfl, hk⟩ := hlt
    · exact .inl ⟨i', k, .inl hi, hx⟩
    · obtain hk | rfl := Nat.lt_succ_iff_lt_or_eq.1 hk
      · exact .inl ⟨i', k, .inr ⟨rfl, hk⟩, hx⟩
      · exact .inr hx
  · rintro (⟨i', k, hlt, hx⟩ | hx)
    · exact ⟨i', k, by omega, hx⟩
    · exact ⟨i, ii, .inr ⟨rfl, Nat.lt_succ_self ii⟩, hx⟩

/-- What holds before the element `ii` of the pixel `i`. -/
structure ProcInv (im : ImageDesc) (i ii : ℕ) (st : ProcState) : Prop where
  paintval : st.paintval = openSum im.gdes (im.pixelTime i) ii
  minval : Least (drawable im.logarithmic (shownBefore im i ii)) st.minval
  maxval : Greatest (shownBefore im i ii) st.maxval
  pData : ∀ i' k p, (i' < i ∨ i' = i ∧ k < ii) → im.gdes[k]? = some (.paint p) →
    st.pData k i' = some (pixelValue im p i' k)

/-- The extreme values after an element that shows `x`, or nothing that counts. -/
lemma track_spec {S : Set ℚ} (hmin : Least (drawable im.logarithmic S) st.minval) (hmax : Greatest S st.maxval) :
    let counted := {x | st.paintval = .fin x ∧ p.gf ≠ .tick ∧ p.skipscale = false}
    Least (drawable im.logarithmic (counted ∪ S)) (st.track im.logarithmic p).minval ∧
      Greatest (counted ∪ S) (st.track im.logarithmic p).maxval := by
  intro counted
  by_cases hscaled : p.scaled st.paintval = true
  · have hparts := hscaled
    simp only [Paint.scaled, Bool.and_eq_true, Bool.not_eq_true', decide_eq_true_eq] at hparts
    obtain ⟨⟨⟨hnan, hinf⟩, hgf⟩, hskip⟩ := hparts
    obtain ⟨x, hx⟩ : ∃ x, st.paintval = .fin x := by
      cases hval : st.paintval with
      | fin x => exact ⟨x, rfl⟩
      | nan => rw [hval] at hnan; cases hnan
      | pinf => rw [hval] at hinf; cases hinf
      | ninf => rw [hval] at hinf; cases hinf
    have hcounted : counted ∪ S = insert x S := by
      refine Set.ext fun y => or_congr_left ⟨?_, ?_⟩
      · rintro ⟨hy, -⟩
        exact (ExtNum.fin.inj (hx.symm.trans hy)).symm
      · rintro rfl
        exact ⟨hx, hgf, hskip⟩
    rw [hcounted, ProcState.track, if_pos hscaled, hx]
    exact ⟨hmin.addDrawable, hmax.add⟩
  · have hcounted : counted = ∅ := by
      refine Set.eq_empty_of_forall_notMem fun y hy => hscaled ?_
      obtain ⟨hy, hgf, hskip⟩ := hy
      simp [Paint.scaled, hy, hgf, hskip, ExtNum.isinf]
    rw [hcounted, Set.empty_union, ProcState.track, if_neg hscaled]
    exact ⟨hmin, hmax⟩

@[simp] lemma track_paintval : (st.track im.logarithmic p).paintval = st.paintval := by
  unfold ProcState.track
  split <;> rfl

@[simp] lemma track_pData : (st.track im.logarithmic p).pData = st.pData := by
  unfold ProcState.track
  split <;> rfl

lemma store_self (st : ProcState) (ii i : ℕ) (x : RrdValue) : (st.store ii i x).pData ii i = some x := by
  simp only [ProcState.store, Function.update_self]

lemma store_other {k i' : ℕ} {x : RrdValue} (h : ¬ (i' = i ∧ k = ii)) : (st.store ii i x).pData k i' = st.pData k i' := by
  simp only [ProcState.store]
  by_cases hk : k = ii
  · subst hk
    rw [Function.update_self, Function.update_of_ne fun hi => h ⟨hi, rfl⟩]
  · rw [Function.update_of_ne hk]

/-- What an element with the value `value` does to the state. -/
lemma procElem_inv {value : RrdValue} (h : ProcInv im i ii st) (hp : im.gdes[ii]? = some (.paint p))
    (hread : paintValue im.gdes p (im.grTime i) = .ok value) (hvalue : value = elemValue im.gdes p (im.pixelTime i)) :
    Safe (ProcInv im i (ii + 1)) (procElem im i ii st) := by
  have hopen := @openSum_paint im.gdes p (im.pixelTime i) ii hp
  rw [← hvalue, ← h.paintval] at hopen
  simp only [procElem, hp, hread, ok_bind]
  -- A cell that was written before is not this one.
  have hkept : ∀ i' k p', ¬ (i' = i ∧ k = ii) → (i' < i ∨ i' = i ∧ k < ii + 1) → im.gdes[k]? = some (.paint p') →
      st.pData k i' = some (pixelValue im p' i' k) := fun i' k p' hne hlt hp' => h.pData i' k p' (by omega) hp'
  by_cases hnan : value.isnan = true
  · have hpixel : pixelValue im p i ii = .nan := by rw [pixelValue, ← hvalue, if_pos hnan]
    have hshown : shownBefore im i (ii + 1) = shownBefore im i ii := by
      refine Set.ext fun x => mem_shownBefore_succ.trans (or_iff_left ?_)
      rintro ⟨p', hp', -, -, hx⟩
      obtain rfl : p = p' := GraphElem.paint.inj (Option.some.inj (hp.symm.trans hp'))
      rw [hpixel] at hx
      cases hx
    rw [if_pos hnan]
    rw [if_pos hnan, add_zero] at hopen
    refine ⟨hopen.symm, ?_, ?_, fun i' k p' hlt hp' => ?_⟩
    · rw [hshown]
      exact h.minval
    · rw [hshown]
      exact h.maxval
    · by_cases hself : i' = i ∧ k = ii
      · obtain ⟨rfl, rfl⟩ := hself
        obtain rfl : p = p' := GraphElem.paint.inj (Option.some.inj (hp.symm.trans hp'))
        rw [store_self, hpixel]
      · rw [store_other hself]
        exact hkept i' k p' hself hlt hp'
  · rw [if_neg hnan]
    rw [if_neg hnan] at hopen
    have hpixel : pixelValue im p i ii = (if p.stack then st.paintval else 0) + value := by
      rw [pixelValue, ← hvalue, if_neg hnan, ← openSum_succ, hopen]
    have hshown : shownBefore im i (ii + 1) = {x | (if p.stack then st.paintval else 0) + value = .fin x ∧
        p.gf ≠ .tick ∧ p.skipscale = false} ∪ shownBefore im i ii := by
      refine Set.ext fun x => mem_shownBefore_succ.trans (or_comm.trans (or_congr_left ⟨?_, ?_⟩))
      · rintro ⟨p', hp', hgf, hskip, hx⟩
        obtain rfl : p = p' := GraphElem.paint.inj (Option.some.inj (hp.symm.trans hp'))
        exact ⟨hpixel ▸ hx, hgf, hskip⟩
      · rintro ⟨hx, hgf, hskip⟩
        exact ⟨p, hp, hgf, hskip, hpixel.trans hx⟩
    obtain ⟨hmin, hmax⟩ := @track_spec im p
      ({ st with paintval := (if p.stack then st.paintval else 0) + value }.store ii i
        ((if p.stack then st.paintval else 0) + value)) _ h.minval h.maxval
    refine ⟨?_, ?_, ?_, fun i' k p' hlt hp' => ?_⟩
    · rw [track_paintval]
      exact hopen.symm
    · rw [hshown]
      exact hmin
    · rw [hshown]
      exact hmax
    · rw [track_pData]
      by_cases hself : i' = i ∧ k = ii
      · obtain ⟨rfl, rfl⟩ := hself
        obtain rfl : p = p' := GraphElem.paint.inj (Option.some.inj (hp.symm.trans hp'))
        rw [store_self, hpixel]
      · rw [store_other hself]
        exact hkept i' k p' hself hlt hp'

lemma procElem_other (h : ProcInv im i ii st) (hp : ∀ p : Paint, im.gdes[ii]? ≠ some (.paint p)) :
    procElem im i ii st = .ok st ∧ ProcInv im i (ii + 1) st := by
  have hshown : shownBefore im i (ii + 1) = shownBefore im i ii := by
    refine Set.ext fun x => mem_shownBefore_succ.trans (or_iff_left ?_)
    rintro ⟨p, hp', -⟩
    exact hp p hp'
  refine ⟨?_, ?_, ?_, ?_, fun i' k p hlt hp' => ?_⟩
  · unfold procElem
    split
    · exact absurd ‹_› (hp _)
    · rename_i hstack
      exact absurd (List.mem_of_getElem? hstack) im.no_stack
    · rfl
  · rw [openSum_other hp, h.paintval]
  · rw [hshown]
    exact h.minval
  · rw [hshown]
    exact h.maxval
  · refine h.pData i' k p ?_ hp'
    by_contra hnot
    obtain ⟨rfl, rfl⟩ : i' = i ∧ k = ii := by omega
    exact hp p hp'

/-- The elements with their values. -/
def AllHaveValues (im : ImageDesc) : Prop := ∀ p : Paint, .paint p ∈ im.gdes → p.HasValue

/-- One pixel, as far as the element `ii`. -/
lemma procPixel_steps (hall : AllHaveValues im) (h : ProcInv im i 0 st) :
    ∃ st', steps (procElem im i) ii st = .ok st' ∧ ProcInv im i ii st' := by
  induction ii with
  | zero => exact ⟨st, rfl, h⟩
  | succ ii ih =>
    obtain ⟨st₁, hst₁, hinv⟩ := ih
    rw [steps, hst₁, ok_bind]
    by_cases hp : ∃ p, im.gdes[ii]? = some (.paint p)
    · obtain ⟨p, hp⟩ := hp
      have hmem := List.mem_of_getElem? hp
      have hread := paintValue_eq (im.resolved p hmem) (hall p hmem) (im.grTime i)
      have hsafe := procElem_inv hinv hp hread (by rw [grTime_eq])
      cases hst : procElem im i ii st₁ with
      | ok st₂ =>
        rw [hst] at hsafe
        exact ⟨st₂, rfl, hsafe⟩
      | error e =>
        simp only [procElem, hp, hread, ok_bind] at hst
        split at hst <;> cases hst
    · obtain ⟨hst, hnext⟩ := procElem_other hinv fun p hp' => hp ⟨p, hp'⟩
      exact ⟨st₁, hst, hnext⟩

/-- The first pixels. -/
lemma procPixels_steps (hall : AllHaveValues im) (i : ℕ) :
    ∃ st, steps (procPixel im) i ⟨0, .nan, .nan, fun _ _ => none⟩ = .ok st ∧ ProcInv im i 0 { st with paintval := 0 } := by
  induction i with
  | zero =>
    refine ⟨_, rfl, rfl, ?_, ?_, fun i' k p hlt => absurd hlt (by omega)⟩
    · have hnone : drawable im.logarithmic (shownBefore im 0 0) = ∅ := by
        refine Set.eq_empty_of_forall_notMem ?_
        rintro x ⟨⟨i', k, hlt, -⟩, -⟩
        omega
      exact .inl ⟨hnone, rfl⟩
    · refine .inl ⟨Set.eq_empty_of_forall_notMem ?_, rfl⟩
      rintro x ⟨i', k, hlt, -⟩
      omega
  | succ i ih =>
    obtain ⟨st, hst, hinv⟩ := ih
    obtain ⟨st', hst', hinv'⟩ := @procPixel_steps im i im.gdes.length _ hall hinv
    have hshown : shownBefore im (i + 1) 0 = shownBefore im i im.gdes.length := by
      refine Set.ext fun x => ⟨?_, ?_⟩
      · rintro ⟨i', k, hlt, hx⟩
        obtain ⟨p, hp, -⟩ := id hx
        have hk := (List.getElem?_eq_some_iff.1 hp).1
        exact ⟨i', k, by omega, hx⟩
      · rintro ⟨i', k, hlt, hx⟩
        exact ⟨i', k, by omega, hx⟩
    refine ⟨st', ?_, rfl, ?_, ?_, fun i' k p hlt hp => ?_⟩
    · rw [steps, hst, ok_bind]
      exact hst'
    · rw [hshown]
      exact hinv'.minval
    · rw [hshown]
      exact hinv'.maxval
    · have hk := (List.getElem?_eq_some_iff.1 hp).1
      exact hinv'.pData i' k p (by omega) hp

lemma shownBefore_xsize (im : ImageDesc) : shownBefore im im.xsize 0 = shown im := by
  refine Set.ext fun x => ⟨?_, ?_⟩
  · rintro ⟨i, k, hlt, hx⟩
    exact ⟨i, by omega, k, hx⟩
  · rintro ⟨i, hi, k, hx⟩
    exact ⟨i, k, .inl hi, hx⟩

/-- The loops end with the values of all pixels and the extreme values of what is shown. -/
lemma procPixels_spec (hall : AllHaveValues im) :
    ∃ st, procPixels im = .ok st ∧ Least (drawable im.logarithmic (shown im)) st.minval ∧ Greatest (shown im) st.maxval ∧
      ∀ k p, im.gdes[k]? = some (.paint p) → ∀ i < im.xsize, st.pData k i = some (pixelValue im p i k) := by
  obtain ⟨st, hst, hinv⟩ := procPixels_steps hall im.xsize
  have hmin := hinv.minval
  have hmax := hinv.maxval
  rw [shownBefore_xsize] at hmin hmax
  exact ⟨st, hst, hmin, hmax, fun k p hp i hi => hinv.pData i k p (.inl hi) hp⟩

/-- For a number that is `nan` the source reads the description in front of the first one. -/
lemma allHaveValues_of_ok (h : procPixels im = .ok st) : AllHaveValues im := by
  rintro p hp ⟨hidx, hnan⟩
  obtain ⟨k, hk⟩ := List.mem_iff_getElem?.1 hp
  obtain ⟨a, b, hpixel⟩ := round_of_steps h im.xsize_pos
  obtain ⟨c, d, helem⟩ := round_of_steps hpixel (List.getElem?_eq_some_iff.1 hk).1
  have hread : paintValue im.gdes p (im.grTime 0) = .error (.fault (.gdes p.vidx)) := by
    rw [paintValue, if_pos (.inl (ExtNum.isnan_eq_true.2 hnan)), if_pos (by omega)]
  rw [procElem, hk] at helem
  obtain ⟨value, hvalue, -⟩ := bind_eq_ok helem
  rw [hread] at hvalue
  cases hvalue

end Loops

/-! ### Pixels and extreme values -/

/-- `data_proc` ends, each element shows the sum of its stack group in each pixel, and on a linear axis the extreme
values are those of the numbers that are shown, 0 and 1 if there are none. -/
def PixelsRight (im : ImageDesc) : Prop :=
  ∃ st r, procPixels im = .ok st ∧ dataProc im = .ok r ∧
    (∀ k p, im.gdes[k]? = some (.paint p) → ∀ i < im.xsize, r.pData k i = some (pixelValue im p i k)) ∧
    (im.logarithmic = false →
      shown im = ∅ ∧ dataRange false st.minval st.maxval = (0, .fin 1) ∨
        ∃ lo hi, dataRange false st.minval st.maxval = (.fin lo, .fin hi) ∧ IsLeast (shown im) lo ∧ IsGreatest (shown im) hi)

lemma dataRange_linear {S : Set ℚ} {minval maxval : RrdValue} (hmin : Least S minval) (hmax : Greatest S maxval) :
    S = ∅ ∧ dataRange false minval maxval = (0, .fin 1) ∨
      ∃ lo hi, dataRange false minval maxval = (.fin lo, .fin hi) ∧ IsLeast S lo ∧ IsGreatest S hi := by
  obtain ⟨hempty, rfl⟩ | ⟨lo, rfl, hlo⟩ := hmin
  · exact .inl ⟨hempty, rfl⟩
  · obtain ⟨rfl, -⟩ | ⟨hi, rfl, hhi⟩ := hmax
    · exact absurd hlo.1 (Set.notMem_empty lo)
    · exact .inr ⟨lo, hi, rfl, hlo, hhi⟩

lemma placed_linear (S : Set ℚ) : drawable false S = S := Set.ext fun _ => and_iff_left fun h => Bool.noConfusion h

lemma day_nonneg : (0 : ℤ) ≤ 1700000000 := by decide

lemma day_le : (1700000000 : ℤ) ≤ 1700086400 := by decide

/-- `LINE1:nan` in a graph of a day. -/
def nanLine : ImageDesc where
  start := 1700000000
  endTime := 1700086400
  xsize := 400
  gdes := [.paint ⟨.line, false, false, .nan, -1⟩]
  logarithmic := false
  rigid := false
  allowShrink := false
  minval := .nan
  maxval := .nan
  start_nonneg := by decide
  start_le := by decide
  xsize_pos := by decide
  resolved := by
    rintro p (_ | ⟨_, ⟨⟩⟩)
    exact .inl ⟨rfl, by decide⟩
  no_stack := by
    rintro (_ | ⟨_, ⟨⟩⟩)

end Rrdtool
