import Rrdtool.Graph.DataCalc
import Rrdtool.Graph.Variable
import Rrdtool.Lib.Blocks
import Rrdtool.Lib.CInt

/-!
# The rows of an export

Port of `rrd_xport_fn`, `is_numeric` and the loops of `rrd_xport_format_sv` (`src/rrd_xport.c`), and of a `SHIFT` in
`data_calc` (`src/rrd_graph.c`). The window of the export is that of the image, rounded outwards to the common step of
the columns; each column reads its variable at the times of this window. `rrdXportFn_rows_iff` says when the rows show
what their times say.
-/

namespace Rrdtool

open Checked

/-! ### Shifted variables -/

/-- A `SHIFT` of a variable: the old shift is taken back, the new one is a multiple of the step. -/
def applyShift (v : VarData) (oldShift shval : ℤ) : VarData × ℤ :=
  let shift := Int.tdiv shval v.step * v.step
  ({ v with start := v.start - oldShift + shift, endTime := v.endTime - oldShift + shift }, shift)

/-- A variable from and to multiples of its step. -/
structure VarData.Aligned (v : VarData) : Prop extends v.WellFormed where
  dvd_start : (v.step : ℤ) ∣ v.start

/-- The window and the shift stay multiples of the step. -/
lemma applyShift_aligned {v : VarData} {oldShift : ℤ} (h : v.Aligned) (hold : (v.step : ℤ) ∣ oldShift) (shval : ℤ) :
    (applyShift v oldShift shval).1.Aligned ∧ (v.step : ℤ) ∣ (applyShift v oldShift shval).2 := by
  have hshift : (v.step : ℤ) ∣ Int.tdiv shval v.step * v.step := Dvd.intro_left _ rfl
  have hsame : v.endTime - oldShift + Int.tdiv shval v.step * v.step -
      (v.start - oldShift + Int.tdiv shval v.step * v.step) = v.endTime - v.start := by ring
  refine ⟨⟨⟨h.step_pos, ?_, h.ds_nonneg, h.ds_lt, ?_⟩, ?_⟩, hshift⟩
  · exact hsame ▸ h.dvd
  · show v.data.length = VarData.rowCnt _ * v.dsCnt
    rw [VarData.rowCnt, h.length_eq, VarData.rowCnt]
    simp only [applyShift, hsame]
  · exact Int.dvd_add (Int.dvd_sub h.dvd_start hold) hshift

/-! ### `rrd_xport_fn` -/

/-- The elements that may be columns. -/
inductive ColumnGf where
  | line
  | area
  | stack
  | xport
deriving DecidableEq

/-- An element that may be a column. -/
structure Column where
  gf : ColumnGf
  vname : Text
  legend : Text
  vidx : ℤ
deriving DecidableEq

/-- A graph description, with the fields that are read for its type. -/
inductive XportElem where
  | variable (v : VarData)
  | column (c : Column)
  | other
deriving DecidableEq

/-- `is_numeric`. -/
def isNumeric : Text → Bool
  | [] => false
  | c :: s =>
    (c = '-' || c = '.' || c.isDigit) && s.all (fun d => d.isDigit || d = '.') && (c :: s).count '.' ≤ 1

/-- Whether an element is a column: not if it is a constant line, and `dolines` is for all but `XPORT`. -/
def Column.handled (dolines : Bool) (c : Column) : Bool := !isNumeric c.vname && (c.gf = .xport || dolines)

/-- The columns, `ref_list`. -/
def refList (dolines : Bool) (gdes : List XportElem) : List Column :=
  gdes.filterMap fun e =>
    match e with
    | .column c => if c.handled dolines then some c else none
    | _ => none

/-- The variable that a column names, if there is one. -/
def columnVar (gdes : List XportElem) (c : Column) : Option VarData :=
  if c.vidx < 0 then none
  else
    match gdes[c.vidx.toNat]? with
    | some (.variable v) => some v
    | _ => none

/-- The variable of a column. -/
@[grind] def varOf (gdes : List XportElem) (c : Column) : Reads VarData :=
  match columnVar gdes c with
  | some v => .ok v
  | none => .error (.fault (.gdes c.vidx))

/-- What is read of the image. The options are checked to name a window, and each column refers to a `DEF` or `CDEF`. -/
structure XportImage where
  start : ℤ
  endTime : ℤ
  gdes : List XportElem
  dolines : Bool
  start_nonneg : 0 ≤ start
  start_le : start ≤ endTime
  resolved : ∀ c ∈ refList dolines gdes, ∃ v, columnVar gdes c = some v ∧ v.Aligned

/-- What is exported. -/
structure XportResult where
  start : ℤ
  endTime : ℤ
  step : ℕ
  colCnt : ℕ
  legendV : List Text
  data : List RrdValue

/-- The value of a column for the row at `now`, behind those that are written already. -/
def xportCell (gdes : List XportElem) (now : ℤ) (data : List RrdValue) (c : Column) : Reads (List RrdValue) := do
  let v ← varOf gdes c
  if 0 < v.step then do
    let x ← v.read ((now - v.start) / v.step * v.dsCnt + v.ds)
    .ok (data ++ [x])
  else .ok data

/-- One row. -/
def xportRow (gdes : List XportElem) (cols : List Column) (start : ℤ) (step dstRow : ℕ) (data : List RrdValue) :
    Reads (List RrdValue) :=
  cols.foldlM (xportCell gdes (start + dstRow * step)) data

/-- `rrd_xport_fn`, behind `data_fetch` and `data_calc`. The loop over the rows compares numbers of type `int`. -/
def rrdXportFn (im : XportImage) : Reads XportResult := do
  let cols := refList im.dolines im.gdes
  if cols = [] then .error (.error .noXport)
  else do
    let stepList ← cols.mapM fun c => return (← varOf im.gdes c).step
    let step := rrdLcd stepList
    let start := im.start - im.start % step
    let endTime := im.endTime - im.endTime % step
    let endTime := if endTime < im.endTime then endTime + step else endTime
    let rowCnt := (endTime - start) / step
    let data ← steps (xportRow im.gdes cols start step) (s32 rowCnt).toNat []
    .ok ⟨start, endTime, step, cols.length, cols.map Column.legend, data⟩

/-! ### `rrd_xport_format_sv` -/

/-- The loop over the times, with the pointer to the values: the time of each row and its values. -/
@[grind] def svLoop (endTime : ℤ) (step colCnt : ℕ) : ℕ → ℤ → List RrdValue → List (ℤ × List RrdValue)
  | 0, _, _ => []
  | fuel + 1, ti, ptr =>
    if ti ≤ endTime then (ti, ptr.take colCnt) :: svLoop endTime step colCnt fuel (ti + step) (ptr.drop colCnt)
    else []

/-- The rows that `rrd_xport_format_sv` prints. -/
@[grind] def rrdXportFormatSv (r : XportResult) : List (ℤ × List RrdValue) :=
  svLoop r.endTime r.step r.colCnt (r.endTime - r.start).toNat (r.start + r.step) r.data

/-! ### What the rows show -/

/-- The value of a variable at a time: that of the row whose interval contains it, or `nan` outside of the window. -/
def VarData.ShowsAt (v : VarData) (t : ℤ) (x : RrdValue) : Prop :=
  if v.start < t ∧ t ≤ v.endTime then
    ∃ r : ℕ, (v.start + r * v.step < t ∧ t ≤ v.start + (r + 1) * v.step) ∧ x = v.row r
  else x = .nan

/-- The steps of the variables of the columns. -/
@[grind] def XportImage.steps (im : XportImage) : List ℕ :=
  (refList im.dolines im.gdes).map fun c => ((columnVar im.gdes c).map VarData.step).getD 0

/-- The greatest common divisor of the steps. -/
def XportImage.commonStep (im : XportImage) : ℕ := im.steps.foldl Nat.gcd 0

/-- The window of the image, rounded outwards to the common step. -/
def XportImage.xportStart (im : XportImage) : ℤ := im.start - im.start % im.commonStep

@[grind] def XportImage.xportEnd (im : XportImage) : ℤ :=
  if im.endTime - im.endTime % im.commonStep < im.endTime then im.endTime - im.endTime % im.commonStep + im.commonStep
  else im.endTime - im.endTime % im.commonStep

section Cells

variable {gdes : List XportElem} {c : Column} {cols : List Column} {v : VarData} {S : ℤ} {step k : ℕ}
  {data data' : List RrdValue}

lemma xportCell_eq (hc : columnVar gdes c = some v) (hv : v.Aligned) (now : ℤ) (data : List RrdValue) :
    xportCell gdes now data c = v.read ((now - v.start) / v.step * v.dsCnt + v.ds) >>= fun x => .ok (data ++ [x]) := by
  have hvar : varOf gdes c = .ok v := by rw [varOf, hc]
  rw [xportCell, hvar, ok_bind, if_pos hv.step_pos]

/-- The steps and the times of a row in multiples of the common step. -/
lemma exists_multiples (hv : v.Aligned) (hstep : step ∣ v.step) (hS : (step : ℤ) ∣ S) :
    ∃ (a : ℤ) (q : ℕ), 0 < step ∧ 0 < q ∧ v.step = step * q ∧ S + k * step - v.start = step * a := by
  obtain ⟨q, hq⟩ := hstep
  have hpos : 0 < step * q := hq ▸ hv.step_pos
  have hstart : (step : ℤ) ∣ v.start := (Int.natCast_dvd_natCast.2 ⟨q, hq⟩).trans hv.dvd_start
  obtain ⟨a, ha⟩ := Int.dvd_sub (Int.dvd_add hS (Dvd.intro_left (k : ℤ) rfl)) hstart
  exact ⟨a, q, Nat.pos_of_mul_pos_right hpos, Nat.pos_of_mul_pos_left hpos, hq, ha⟩

/-- Inside of the window the value of the right row is written. -/
lemma xportCell_inside (hc : columnVar gdes c = some v) (hv : v.Aligned) (hstep : step ∣ v.step) (hS : (step : ℤ) ∣ S)
    (hstart : v.start < S + (k + 1) * step) (hend : S + (k + 1) * step ≤ v.endTime) :
    ∃ x, v.ShowsAt (S + (k + 1) * step) x ∧ xportCell gdes (S + k * step) data c = .ok (data ++ [x]) := by
  obtain ⟨a, q, hpos, hqpos, hq, ha⟩ := @exists_multiples v S step k hv hstep hS
  have hposz : (0 : ℤ) < step := by exact_mod_cast hpos
  have htime : S + (k + 1) * step = v.start + step * (a + 1) := by linear_combination ha
  have hqz : (v.step : ℤ) = step * q := by exact_mod_cast hq
  have ha0 : 0 ≤ a := by
    rw [htime] at hstart
    have hmul : 0 < (step : ℤ) * (a + 1) := by linarith
    exact Int.lt_add_one_iff.1 (pos_of_mul_pos_right hmul hposz.le)
  have hrow : (S + k * step - v.start) / v.step = ((a / q).toNat : ℤ) := by
    rw [ha, hqz, Int.mul_ediv_mul_of_pos _ _ hposz, Int.toNat_of_nonneg (Int.ediv_nonneg ha0 (Int.natCast_nonneg q))]
  have hr : ((a / q).toNat : ℤ) = a / q := Int.toNat_of_nonneg (Int.ediv_nonneg ha0 (Int.natCast_nonneg q))
  have hlow : a / q * q ≤ a := Int.ediv_mul_le a (by omega)
  have hhigh : a < (a / q + 1) * q := Int.lt_ediv_add_one_mul_self a (by omega)
  have hlow' : (a / q) * v.step ≤ step * a := by
    rw [hqz]
    have hmul := mul_le_mul_of_nonneg_left hlow hposz.le
    linarith
  have hhigh' : (step : ℤ) * (a + 1) ≤ (a / q + 1) * v.step := by
    rw [hqz]
    have hmul := mul_le_mul_of_nonneg_left (Int.add_one_le_of_lt hhigh) hposz.le
    linarith
  have hbefore : S + k * step < v.endTime := by linarith
  have hin := hv.row_lt (t := S + k * step) (by rw [← sub_nonneg, ha]; positivity) hbefore
  rw [hrow, Int.toNat_natCast] at hin
  refine ⟨v.row (a / q).toNat, ?_, ?_⟩
  · rw [VarData.ShowsAt, if_pos ⟨hstart, hend⟩]
    refine ⟨(a / q).toNat, ⟨?_, ?_⟩, rfl⟩
    · rw [hr, htime]
      linarith
    · rw [hr, htime]
      linarith
  · rw [xportCell_eq hc hv, hrow, hv.read_row hin, ok_bind]

/-- Outside of the window the index is outside of the data. -/
lemma xportCell_outside (hc : columnVar gdes c = some v) (hv : v.Aligned) (hstep : step ∣ v.step) (hS : (step : ℤ) ∣ S)
    (hout : ¬ (v.start < S + (k + 1) * step ∧ S + (k + 1) * step ≤ v.endTime)) :
    ∃ f, xportCell gdes (S + k * step) data c = .error (.fault f) := by
  obtain ⟨a, q, hpos, hqpos, hq, ha⟩ := @exists_multiples v S step k hv hstep hS
  have hposz : (0 : ℤ) < step := by exact_mod_cast hpos
  have hvpos : (0 : ℤ) < v.step := by exact_mod_cast hv.step_pos
  have hds := hv.ds_lt
  have hds0 := hv.ds_nonneg
  have hread : ¬ (0 ≤ (S + k * step - v.start) / v.step * v.dsCnt + v.ds ∧
      (S + k * step - v.start) / v.step * v.dsCnt + v.ds < v.data.length) := by
    rintro ⟨hlow, hhigh⟩
    have hr0 : 0 ≤ (S + k * step - v.start) / v.step := by
      by_contra hneg
      have hmul := mul_le_mul_of_nonneg_right (show (S + k * step - v.start) / v.step ≤ -1 by omega)
        (Int.natCast_nonneg v.dsCnt)
      linarith
    have hafter : 0 ≤ S + k * step - v.start := by
      have hmul := Int.ediv_mul_le (S + k * step - v.start) hvpos.ne'
      have := mul_nonneg hr0 hvpos.le
      linarith
    refine hout ⟨by linarith, ?_⟩
    -- The row is one of the window, so the time is before its end, and the end is a multiple of the step.
    have hrow : (S + k * step - v.start) / v.step < (v.endTime - v.start) / v.step := by
      by_contra hge
      have hcnt : (v.data.length : ℤ) ≤ (S + k * step - v.start) / v.step * v.dsCnt := by
        rw [hv.length_eq, VarData.rowCnt]
        push_cast
        refine mul_le_mul_of_nonneg_right ?_ (Int.natCast_nonneg _)
        rw [Int.toNat_eq_max]
        exact max_le (not_lt.1 hge) hr0
      linarith
    rw [Int.lt_ediv_iff_mul_lt hvpos hv.dvd] at hrow
    obtain ⟨m, hm⟩ := (Int.natCast_dvd_natCast.2 hstep).trans hv.dvd
    have hbefore : S + k * step - v.start < v.endTime - v.start := by
      have hlt := Int.lt_ediv_add_one_mul_self (S + k * step - v.start) hvpos
      obtain ⟨n, hn⟩ := hv.dvd
      have hrow' : (S + k * step - v.start) / v.step + 1 ≤ n := by
        rw [hn, mul_comm] at hrow
        exact Int.add_one_le_of_lt (lt_of_mul_lt_mul_left hrow hvpos.le)
      have hmul := mul_le_mul_of_nonneg_right hrow' hvpos.le
      linarith
    rw [ha, hm] at hbefore
    have hnext := Int.add_one_le_of_lt (lt_of_mul_lt_mul_left hbefore hposz.le)
    have hmul := mul_le_mul_of_nonneg_left hnext hposz.le
    linarith
  exact ⟨_, by rw [xportCell_eq hc hv, VarData.read_of_not hread]; rfl⟩

lemma xportCell_length {now : ℤ} (hc : columnVar gdes c = some v) (hv : v.Aligned)
    (h : xportCell gdes now data c = .ok data') : data'.length = data.length + 1 := by
  rw [xportCell_eq hc hv] at h
  obtain ⟨x, -, hx⟩ := bind_eq_ok h
  rw [← Except.ok.inj hx, List.length_append, List.length_singleton]

/-- The columns with their variables. -/
def ColumnsResolved (gdes : List XportElem) (step : ℕ) (cols : List Column) : Prop :=
  ∀ c ∈ cols, ∃ v, columnVar gdes c = some v ∧ v.Aligned ∧ step ∣ v.step

lemma xportRow_length {now : ℤ} (hcols : ColumnsResolved gdes step cols)
    (h : cols.foldlM (xportCell gdes now) data = .ok data') : data'.length = data.length + cols.length := by
  induction cols generalizing data with
  | nil =>
    obtain rfl := Except.ok.inj h
    rfl
  | cons c cols ih =>
    rw [List.foldlM_cons] at h
    obtain ⟨data₁, h₁, hrest⟩ := bind_eq_ok h
    obtain ⟨v, hc, hv, -⟩ := hcols c List.mem_cons_self
    rw [ih (fun c' hc' => hcols c' (List.mem_cons_of_mem c hc')) hrest, xportCell_length hc hv h₁, List.length_cons]
    omega

/-- A row that is done has read a cell of each column. -/
lemma cell_of_row {now : ℤ} (h : cols.foldlM (xportCell gdes now) data = .ok data') (hc : c ∈ cols) :
    ∃ d d', xportCell gdes now d c = .ok d' := by
  induction cols generalizing data with
  | nil => exact absurd hc List.not_mem_nil
  | cons c' cols ih =>
    rw [List.foldlM_cons] at h
    obtain ⟨data₁, h₁, hrest⟩ := bind_eq_ok h
    obtain rfl | hc := List.mem_cons.1 hc
    · exact ⟨data, data₁, h₁⟩
    · exact ih hrest hc

/-- The time is in the windows of all columns. -/
def Covered (gdes : List XportElem) (cols : List Column) (t : ℤ) : Prop :=
  ∀ c ∈ cols, ∀ v, columnVar gdes c = some v → v.start < t ∧ t ≤ v.endTime

/-- The values are those of the columns at a time. -/
def RowShows (gdes : List XportElem) (cols : List Column) (t : ℤ) (cells : List RrdValue) : Prop :=
  List.Forall₂ (fun c x => ∃ v, columnVar gdes c = some v ∧ v.ShowsAt t x) cols cells

lemma xportRow_covered (hcols : ColumnsResolved gdes step cols) (hS : (step : ℤ) ∣ S)
    (h : Covered gdes cols (S + (k + 1) * step)) :
    ∃ cells, xportRow gdes cols S step k data = .ok (data ++ cells) ∧ RowShows gdes cols (S + (k + 1) * step) cells := by
  unfold xportRow
  induction cols generalizing data with
  | nil => exact ⟨[], by rw [List.append_nil]; rfl, .nil⟩
  | cons c cols ih =>
    obtain ⟨v, hc, hv, hstep⟩ := hcols c List.mem_cons_self
    obtain ⟨hstart, hend⟩ := h c List.mem_cons_self v hc
    obtain ⟨x, hx, hcell⟩ := @xportCell_inside _ _ _ _ _ _ data hc hv hstep hS hstart hend
    obtain ⟨cells, hrest, hshows⟩ := @ih (data ++ [x]) (fun c' hc' => hcols c' (List.mem_cons_of_mem c hc'))
      fun c' hc' => h c' (List.mem_cons_of_mem c hc')
    refine ⟨x :: cells, ?_, .cons ⟨v, hc, hx⟩ hshows⟩
    rw [List.foldlM_cons, hcell, ok_bind, hrest, List.append_assoc, List.singleton_append]

lemma covered_of_row (hcols : ColumnsResolved gdes step cols) (hS : (step : ℤ) ∣ S)
    (h : xportRow gdes cols S step k data = .ok data') : Covered gdes cols (S + (k + 1) * step) := by
  intro c hc v hv
  obtain ⟨v', hv', haligned, hstep⟩ := hcols c hc
  obtain rfl := Option.some.inj (hv.symm.trans hv')
  by_contra hout
  obtain ⟨d, d', hcell⟩ := cell_of_row h hc
  obtain ⟨f, hf⟩ := @xportCell_outside _ _ _ _ _ _ d hv haligned hstep hS hout
  rw [hf] at hcell
  cases hcell

/-- The rows of covered times. -/
lemma xportRows_covered (hcols : ColumnsResolved gdes step cols) (hS : (step : ℤ) ∣ S) {n : ℕ}
    (h : ∀ k < n, Covered gdes cols (S + (k + 1) * step)) :
    ∃ rows : List (List RrdValue), steps (xportRow gdes cols S step) n [] = .ok rows.flatten ∧ rows.length = n ∧
      ∀ (k : ℕ) row, rows[k]? = some row → RowShows gdes cols (S + (k + 1) * step) row := by
  induction n with
  | zero => exact ⟨[], rfl, rfl, fun k row hrow => by cases hrow⟩
  | succ n ih =>
    obtain ⟨rows, hrows, hlen, hshows⟩ := ih fun k hk => h k (Nat.lt_succ_of_lt hk)
    obtain ⟨cells, hcells, hrow⟩ := @xportRow_covered _ _ _ _ n rows.flatten hcols hS (h n (Nat.lt_succ_self n))
    refine ⟨rows ++ [cells], ?_, by rw [List.length_append, hlen, List.length_singleton], fun k row hk => ?_⟩
    · rw [steps, hrows, ok_bind, hcells, List.flatten_append, List.flatten_singleton]
    · obtain hlt | hge := Nat.lt_or_ge k rows.length
      · rw [List.getElem?_append_left hlt] at hk
        exact hshows k row hk
      · rw [List.getElem?_append_right hge] at hk
        obtain ⟨hlast, rfl⟩ := List.getElem?_eq_some_iff.1 hk
        obtain rfl : k = n := by
          rw [List.length_singleton] at hlast
          omega
        simpa using hrow

lemma xportRows_length (hcols : ColumnsResolved gdes step cols) {n : ℕ}
    (h : steps (xportRow gdes cols S step) n [] = .ok data) : data.length = n * cols.length := by
  induction n generalizing data with
  | zero =>
    obtain rfl := Except.ok.inj h
    rw [List.length_nil, Nat.zero_mul]
  | succ n ih =>
    obtain ⟨data₁, h₁, hlast⟩ := bind_eq_ok h
    rw [xportRow_length hcols hlast, ih h₁, Nat.succ_mul]

end Cells

/-! ### The labels -/

/-- The formatter goes through the times and the rows side by side. -/
lemma svLoop_rows {rows : List (List RrdValue)} {w step fuel : ℕ} {ti E : ℤ} (hw : ∀ row ∈ rows, row.length = w)
    (hstep : 0 < step) (hE : E = ti + rows.length * step - step) (hfuel : rows.length ≤ fuel) (k : ℕ) :
    (svLoop E step w fuel ti rows.flatten)[k]? = (rows[k]?).map fun row => (ti + k * step, row) := by
  have hstepz : (0 : ℤ) < step := by exact_mod_cast hstep
  induction rows generalizing fuel ti k with
  | nil =>
    cases fuel with
    | zero => rfl
    | succ fuel =>
      rw [List.length_nil] at hE
      rw [svLoop, if_neg (by push_cast at hE; omega)]
      rfl
  | cons row rows ih =>
    obtain ⟨fuel, rfl⟩ : ∃ f, fuel = f + 1 := ⟨fuel - 1, by rw [List.length_cons] at hfuel; omega⟩
    have hrow := hw row List.mem_cons_self
    have hle : ti ≤ E := by
      rw [hE, List.length_cons]
      push_cast
      have := mul_nonneg (Int.natCast_nonneg rows.length) hstepz.le
      linarith
    rw [svLoop, if_pos hle, List.flatten_cons, ← hrow, List.take_left, List.drop_left]
    cases k with
    | zero => simp
    | succ k =>
      have hrest := @ih fuel (ti + step) (fun r hr => hw r (List.mem_cons_of_mem row hr))
        (by rw [hE, List.length_cons]; push_cast; ring) (by rw [List.length_cons] at hfuel; omega) k
      rw [← hrow] at hrest
      rw [List.getElem?_cons_succ, hrest, List.getElem?_cons_succ]
      congr 2
      funext r
      push_cast
      congr 1
      ring

/-! ### The export -/

section Export

variable {im : XportImage}

lemma steps_pos {b : ℕ} (hb : b ∈ im.steps) : 0 < b := by
  obtain ⟨c, hc, rfl⟩ := List.mem_map.1 hb
  obtain ⟨v, hv, haligned⟩ := im.resolved c hc
  rw [hv]
  exact haligned.step_pos

lemma resolved_commonStep (im : XportImage) : ColumnsResolved im.gdes im.commonStep (refList im.dolines im.gdes) := by
  intro c hc
  obtain ⟨v, hv, haligned⟩ := im.resolved c hc
  refine ⟨v, hv, haligned, (foldl_gcd_dvd 0).2 _ (List.mem_map.2 ⟨c, hc, ?_⟩)⟩
  rw [hv]
  rfl

lemma commonStep_pos (hcols : refList im.dolines im.gdes ≠ []) : 0 < im.commonStep := by
  obtain ⟨c, hc⟩ := List.exists_mem_of_ne_nil _ hcols
  obtain ⟨v, -, haligned, hdvd⟩ := resolved_commonStep im c hc
  exact Nat.pos_of_dvd_of_pos hdvd haligned.step_pos

/-- `rrd_xport_fn` is the loop over the rows of the rounded window. -/
lemma rrdXportFn_eq (hcols : refList im.dolines im.gdes ≠ []) :
    rrdXportFn im = (do
      let data ← Checked.steps (xportRow im.gdes (refList im.dolines im.gdes) im.xportStart im.commonStep)
        (s32 ((im.xportEnd - im.xportStart) / im.commonStep)).toNat []
      .ok ⟨im.xportStart, im.xportEnd, im.commonStep, (refList im.dolines im.gdes).length,
        (refList im.dolines im.gdes).map Column.legend, data⟩) := by
  have hlist : ((refList im.dolines im.gdes).mapM fun c => return (← varOf im.gdes c).step : Reads (List ℕ)) =
      .ok im.steps := by
    refine mapM_ok fun c hc => ?_
    obtain ⟨v, hv, -⟩ := im.resolved c hc
    rw [varOf, hv]
    rfl
  have hlcd : rrdLcd im.steps = im.commonStep := rrdLcd_eq_gcd fun b hb => steps_pos hb
  rw [rrdXportFn, if_neg hcols, hlist, ok_bind, hlcd]
  rfl

lemma xportStart_dvd (im : XportImage) : (im.commonStep : ℤ) ∣ im.xportStart := Int.dvd_self_sub_emod

lemma xportEnd_dvd (im : XportImage) : (im.commonStep : ℤ) ∣ im.xportEnd := by
  unfold XportImage.xportEnd
  split
  · exact Int.dvd_add Int.dvd_self_sub_emod dvd_rfl
  · exact Int.dvd_self_sub_emod

lemma xportStart_le_xportEnd (hpos : 0 < im.commonStep) : im.xportStart ≤ im.xportEnd := by
  have hposz : (0 : ℤ) < im.commonStep := by exact_mod_cast hpos
  have hstart := Int.emod_nonneg im.start hposz.ne'
  have hend := Int.emod_lt_of_pos im.endTime hposz
  have hle := im.start_le
  unfold XportImage.xportStart XportImage.xportEnd
  split <;> omega

/-- The number of rows of the window. -/
@[grind] def XportImage.rowCnt (im : XportImage) : ℕ := ((im.xportEnd - im.xportStart) / im.commonStep).toNat

lemma rowCnt_eq (hpos : 0 < im.commonStep) :
    (im.xportEnd - im.xportStart) / im.commonStep = (im.rowCnt : ℤ) ∧
      im.xportEnd = im.xportStart + im.rowCnt * im.commonStep := by
  have hnonneg : 0 ≤ (im.xportEnd - im.xportStart) / im.commonStep :=
    Int.ediv_nonneg (by linarith [xportStart_le_xportEnd hpos]) (Int.natCast_nonneg _)
  have hcnt : (im.rowCnt : ℤ) = (im.xportEnd - im.xportStart) / im.commonStep := Int.toNat_of_nonneg hnonneg
  refine ⟨hcnt.symm, ?_⟩
  rw [hcnt, Int.ediv_mul_cancel (Int.dvd_sub (xportEnd_dvd im) (xportStart_dvd im))]
  ring

/-- The export ends with as many cells as it has rows and columns, and each row that the formatter prints has the
values of the columns at the time in front of it. -/
def XportRight (im : XportImage) : Prop :=
  ∃ r, rrdXportFn im = .ok r ∧ r.start = im.xportStart ∧ r.endTime = im.xportEnd ∧ r.step = im.commonStep ∧
    r.colCnt = (refList im.dolines im.gdes).length ∧ r.data.length = im.rowCnt * r.colCnt ∧
    (rrdXportFormatSv r).length = im.rowCnt ∧
    ∀ (k : ℕ) t cells, (rrdXportFormatSv r)[k]? = some (t, cells) →
      t = r.start + (k + 1) * r.step ∧ RowShows im.gdes (refList im.dolines im.gdes) t cells

/-- A number of rows that is no `int` is another number for the loop. -/
lemma lt_of_s32_rows {n : ℕ} (h : (s32 n).toNat = n) : n < 2 ^ 31 := by
  have hlt := s32_lt n
  omega

/-- The columns cover the window if they cover its first and its last row. -/
lemma xportCovered_iff (im : XportImage) (hpos : 0 < im.commonStep) (hlt : im.xportStart < im.xportEnd) :
    (∀ k < im.rowCnt, Covered im.gdes (refList im.dolines im.gdes) (im.xportStart + (k + 1) * im.commonStep)) ↔
      ∀ c ∈ refList im.dolines im.gdes, ∀ v, columnVar im.gdes c = some v →
        v.start ≤ im.xportStart ∧ im.xportEnd ≤ v.endTime := by
  have hposz : (0 : ℤ) < im.commonStep := by exact_mod_cast hpos
  obtain ⟨-, hend⟩ := rowCnt_eq hpos
  have hcnt : 0 < im.rowCnt := by
    refine Nat.pos_of_ne_zero fun hzero => ?_
    rw [hzero, Nat.cast_zero, zero_mul] at hend
    omega
  constructor
  · intro h c hc v hv
    have hfirst := (h 0 hcnt c hc v hv).1
    have hlast := (h (im.rowCnt - 1) (Nat.sub_lt hcnt Nat.one_pos) c hc v hv).2
    rw [Nat.cast_pred hcnt, sub_add_cancel, ← hend] at hlast
    refine ⟨?_, hlast⟩
    obtain ⟨v', hv', haligned, hdvd⟩ := resolved_commonStep im c hc
    obtain rfl := Option.some.inj (hv.symm.trans hv')
    obtain ⟨m, hm⟩ := Int.dvd_sub (xportStart_dvd im) ((Int.natCast_dvd_natCast.2 hdvd).trans haligned.dvd_start)
    have hm0 : 0 < (im.commonStep : ℤ) * (m + 1) := by
      push_cast at hfirst
      linarith
    have hm1 := Int.lt_add_one_iff.1 (pos_of_mul_pos_right hm0 hposz.le)
    have := mul_nonneg hposz.le hm1
    omega
  · intro h k hk c hc v hv
    obtain ⟨hstart, hle⟩ := h c hc v hv
    have hrows : ((k : ℤ) + 1) * im.commonStep ≤ im.rowCnt * im.commonStep :=
      mul_le_mul_of_nonneg_right (by omega) hposz.le
    have hone : (0 : ℤ) < (k + 1) * im.commonStep := mul_pos (by omega) hposz
    exact ⟨by linarith, by linarith⟩

/-- The rows of an export show what their times say exactly if the window is empty, or if each variable covers it and
the number of rows is an `int`. -/
theorem rrdXportFn_rows_iff (im : XportImage) (hcols : refList im.dolines im.gdes ≠ []) :
    XportRight im ↔ (im.xportStart < im.xportEnd → im.rowCnt < 2 ^ 31 ∧
      ∀ c ∈ refList im.dolines im.gdes, ∀ v, columnVar im.gdes c = some v →
        v.start ≤ im.xportStart ∧ im.xportEnd ≤ v.endTime) := by
  have hpos := commonStep_pos hcols
  have hposz : (0 : ℤ) < im.commonStep := by exact_mod_cast hpos
  have hresolved := resolved_commonStep im
  obtain ⟨hdiv, hend⟩ := rowCnt_eq hpos
  have heq := rrdXportFn_eq hcols
  rw [hdiv] at heq
  constructor
  · rintro ⟨r, hr, -, -, -, hcnt, hlen, -⟩ hlt
    rw [heq] at hr
    obtain ⟨data, hdata, hr⟩ := bind_eq_ok hr
    obtain rfl := Except.ok.inj hr
    have hcells := (xportRows_length hresolved hdata).symm.trans hlen
    have hint : (s32 im.rowCnt).toNat = im.rowCnt :=
      Nat.eq_of_mul_eq_mul_right (List.length_pos_iff.2 hcols) hcells
    refine ⟨lt_of_s32_rows hint, (xportCovered_iff im hpos hlt).1 fun k hk => ?_⟩
    rw [hint] at hdata
    obtain ⟨d, d', hrow⟩ := round_of_steps hdata hk
    exact covered_of_row hresolved (xportStart_dvd im) hrow
  · intro h
    have hcovered : (s32 im.rowCnt).toNat = im.rowCnt ∧ ∀ k < im.rowCnt,
        Covered im.gdes (refList im.dolines im.gdes) (im.xportStart + (k + 1) * im.commonStep) := by
      obtain hlt | hge := lt_or_ge im.xportStart im.xportEnd
      · obtain ⟨hint, hwindow⟩ := h hlt
        refine ⟨?_, (xportCovered_iff im hpos hlt).2 hwindow⟩
        rw [s32_natCast hint, Int.toNat_natCast]
      · have hzero : im.rowCnt = 0 := by
          by_contra hne
          have := mul_pos (Int.natCast_pos.2 (Nat.pos_of_ne_zero hne)) hposz
          omega
        rw [hzero]
        exact ⟨rfl, fun k hk => absurd hk (Nat.not_lt_zero k)⟩
    obtain ⟨hint, hcov⟩ := hcovered
    obtain ⟨rows, hrows, hlen, hshows⟩ := xportRows_covered hresolved (xportStart_dvd im) hcov
    rw [hint, hrows, ok_bind] at heq
    have hwidth : ∀ row ∈ rows, row.length = (refList im.dolines im.gdes).length := by
      intro row hrow
      obtain ⟨k, hk⟩ := List.mem_iff_getElem?.1 hrow
      exact (hshows k row hk).length_eq.symm
    have hsv := @svLoop_rows rows _ _ (im.xportEnd - im.xportStart).toNat (im.xportStart + im.commonStep) im.xportEnd hwidth hpos (by rw [hend, hlen]; ring) (by
        have hle : (rows.length : ℤ) * 1 ≤ rows.length * im.commonStep :=
          mul_le_mul_of_nonneg_left (by omega) (Int.natCast_nonneg _)
        rw [hlen] at hle ⊢
        omega)
    refine ⟨_, heq, rfl, rfl, rfl, rfl, ?_, ?_, fun k t cells hk => ?_⟩
    · show rows.flatten.length = _
      rw [List.length_flatten, List.map_congr_left hwidth, List.map_const', List.sum_replicate, smul_eq_mul, hlen]
    · have hnone : ∀ k, (rrdXportFormatSv ⟨im.xportStart, im.xportEnd, im.commonStep, (refList im.dolines im.gdes).length,
          (refList im.dolines im.gdes).map Column.legend, rows.flatten⟩)[k]? = none ↔ rows[k]? = none := fun k => by
        rw [rrdXportFormatSv, hsv, Option.map_eq_none_iff]
      simp only [List.getElem?_eq_none_iff, hlen] at hnone
      exact le_antisymm ((hnone _).2 le_rfl) ((hnone _).1 le_rfl)
    · rw [rrdXportFormatSv, hsv, Option.map_eq_some_iff] at hk
      obtain ⟨row, hrow, hpair⟩ := hk
      obtain ⟨rfl, rfl⟩ := Prod.mk.inj hpair
      have htime : im.xportStart + im.commonStep + k * im.commonStep = im.xportStart + (k + 1) * im.commonStep := by ring
      rw [htime]
      exact ⟨rfl, hshows k row hrow⟩

end Export

/-- The data of a `DEF` for 300 seconds. -/
def threeRows : VarData := ⟨1700000100, 1700000400, 100, 0, 1, [.fin 1, .fin 2, .fin 3]⟩

lemma threeRows_aligned : threeRows.Aligned := ⟨by decide, by decide⟩

/-- An export of these 300 seconds, when the variable has been shifted. -/
def shiftedColumn (shval : ℤ) : XportImage where
  start := 1700000100
  endTime := 1700000400
  gdes := [.variable (applyShift threeRows 0 shval).1, .column ⟨.xport, ['a'], [], 0⟩]
  dolines := false
  start_nonneg := by decide
  start_le := by decide
  resolved := by
    rintro c (_ | ⟨_, ⟨⟩⟩)
    exact ⟨_, rfl, (applyShift_aligned threeRows_aligned (dvd_zero _) shval).1⟩

/-- With `SHIFT:a:300` the first row is read in front of the data. -/
theorem shiftedColumn_late :
    rrdXportFn (shiftedColumn 300) = .error (.fault (.data (-3))) ∧ ¬ XportRight (shiftedColumn 300) := by
  have hfault : rrdXportFn (shiftedColumn 300) = .error (.fault (.data (-3))) := rfl
  refine ⟨hfault, ?_⟩
  rintro ⟨r, hr, -⟩
  rw [hfault] at hr
  cases hr

/-- A shift of less than one step is none. -/
theorem shiftedColumn_right : XportRight (shiftedColumn 99) := by
  refine (rrdXportFn_rows_iff (shiftedColumn 99) (by decide)).2 fun _ => ⟨by decide, ?_⟩
  rintro c (_ | ⟨_, ⟨⟩⟩) v hv
  obtain rfl := Option.some.inj hv
  decide

end Rrdtool
