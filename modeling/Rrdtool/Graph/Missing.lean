import Rrdtool.Graph.DataReads
import Rrdtool.Graph.Reduce
import Rrdtool.Graph.Vdef

/-!
# Data that are missing

Port of `data_fetch` (`src/rrd_graph.c`) and `rrd_fetch_empty` (`src/rrd_fetch.c`) with the arrays of the data. With
`ALLOW_MISSING_DS` a file that can not be fetched is replaced by data that are made up, and a name that is not in the
file is no error. `dataFetch_missing_iff` says when the consumers of such a DEF read unknown values and nothing else.
-/

namespace Rrdtool

open Checked InPlace

/-- The data of a DEF in an array of `size` values. -/
structure DefData where
  start : ℤ
  endTime : ℤ
  step : ℕ
  dsNamv : List Text
  size : ℕ
  mem : ℕ → RrdValue

/-- What comes of a request: data, or the request with the window and the step that the failed fetch has left. -/
inductive Answer where
  | data (f : DefData)
  | failed (req : FetchRequest)

/-! ### `rrd_fetch_empty` -/

/-- `while (--rows) (*data)[rows - 1] = DNAN`. -/
def fillDown : ℕ → (ℕ → RrdValue) → ℕ → RrdValue
  | 0, mem => mem
  | rows + 1, mem => fillDown rows (Function.update mem rows .nan)

/-- The window that is made up. -/
@[grind] def emptyStart (req : FetchRequest) : ℤ := req.start - req.start % emptyStep req

@[grind] def emptyEnd (req : FetchRequest) : ℤ := req.endTime + (emptyStep req - req.endTime % emptyStep req)

/-- `rrd_fetch_empty`, with what the allocated memory contains. -/
def rrdFetchEmptyInPlace (memory : ℕ → RrdValue) (req : FetchRequest) (dsNam : Text) : Reads DefData :=
  if emptyStep req = 0 then .error (.fault .divisionByZero)
  else
    let rows := ((emptyEnd req - emptyStart req) / emptyStep req).toNat + 1
    .ok ⟨emptyStart req, emptyEnd req, emptyStep req, [dsNam], rows, fillDown (rows - 1) memory⟩

/-! ### `data_fetch` -/

section Fetch

variable (answer : FetchRequest → Answer) (memory : ℕ → RrdValue) (im : Image)

/-- What was fetched is reduced to at least the step of the image. -/
@[grind] def reducedInPlace (d : DefElem) (f : DefData) : Reads DefData :=
  if f.step < max d.request.step im.step then do
    let r ← rrdReduceDataInPlace (d.reduce.getD d.request.cf) f.size f.step f.start f.endTime (max d.request.step im.step)
      f.dsNamv.length f.mem
    .ok { f with start := r.start, endTime := r.endTime, step := r.step, mem := r.mem }
  else .ok f

/-- The data of a DEF when they are not there already. -/
def fetchData (d : DefElem) : Reads DefData :=
  match answer d.request with
  | .data f => reducedInPlace im d f
  | .failed req =>
    if im.allowMissingDs then do
      let f ← rrdFetchEmptyInPlace memory req d.dsNam
      reducedInPlace im d f
    else .error (.error .fetch)

/-- The loop over the names; the last one that fits is taken. -/
def findDs (dsNam : Text) (dsNamv : List Text) : ℤ :=
  dsNamv.zipIdx.foldl (fun ds p => if p.1 = dsNam then (p.2 : ℤ) else ds) (-1)

/-- The fields of a description that hold the data, with the column `ds`. -/
@[grind] def DefData.column (f : DefData) (ds : ℤ) : VarData :=
  ⟨f.start, f.endTime, f.step, ds, f.dsNamv.length, (List.range f.size).map f.mem⟩

/-- One DEF, with the data that are there already. -/
def fetchDef (rrdMap : List (Text × DefData)) (d : DefElem) : Reads (DefData × VarData) := do
  let f ← match rrdMap.lookup (gdesFetchKey im d d.request.step) with
    | some f => .ok f
    | none => fetchData answer memory im d
  let ds := findDs d.dsNam f.dsNamv
  if ds = -1 ∧ im.allowMissingDs = false then .error (.error (.noDs d.dsNam d.request.rrd)) else .ok (f, f.column ds)

/-- One round of `data_fetch`: the map with one more entry, and the descriptions. -/
def fetchRound (acc : List (Text × DefData) × List VarData) (d : DefElem) :
    Reads (List (Text × DefData) × List VarData) := do
  let (f, v) ← fetchDef answer memory im acc.1 d
  .ok ((gdesFetchKey im d f.step, f) :: acc.1, acc.2 ++ [v])

/-- `data_fetch`. -/
def dataFetchInPlace (defs : List DefElem) : Reads (List (Text × DefData) × List VarData) :=
  defs.foldlM (fetchRound answer memory im) ([], [])

end Fetch

/-! ### What the consumers read -/

/-- The value at an index, which has to be in the data and unknown. -/
@[grind] def VarData.watched (v : VarData) (idx : ℤ) : Reads RrdValue := do
  let x ← v.read idx
  if x.isnan then .ok x else .error (.fault (.data idx))

/-- The fields of the description of a variable that a CDEF reads. -/
structure Gdes.Holds (g : Gdes) (v : VarData) : Prop where
  start_eq : g.start = v.start
  end_eq : g.endTime = v.endTime
  step_eq : g.step = v.step
  ds_eq : (g.ds : ℤ) = v.ds
  dsCnt_eq : g.dsCnt = v.dsCnt
  data_eq : ∀ (i : ℕ) x, v.data[i]? = some x → g.data i = x

/-- The data have a window of whole steps, and each value that a consumer reads is in the array and unknown: for
`vdef_calc`, which may only go wrong in an array of its own, `print_calc`, `data_proc` at any time, and `data_calc`, at
each operator whose window is inside. -/
structure VarData.ReadsUnknown (v : VarData) : Prop where
  step_pos : 0 < v.step
  dvd_start : (v.step : ℤ) ∣ v.start
  dvd_end : (v.step : ℤ) ∣ v.endTime
  vdef : ∀ m sort op param f, vdefCalc v.watched v m sort op param = .error (.fault f) → ∃ i, f = .array i
  print : ∀ cf f, printCalc v.watched v cf ≠ .error (.fault f)
  paint : ∀ t f, v.valueAt v.watched t ≠ .error (.fault f)
  cdef : ∀ m gdes p stack k rpi call st, (∀ g ∈ dataVars gdes p, g.Stepped) → CdefReaches m gdes p stack k rpi call st →
    (∀ n, p[rpi]? = some n → WindowsInside m gdes p rpi call st n) → ∀ t ∈ stepTouches m call rpi st,
      ∀ n, p[t.1]? = some n → n.hasData gdes → (gdes n.ptr).Holds v → ∀ node, st.nodes[t.1]? = some node →
        v.watched (node.place t.2) = .ok .nan

section Column

variable {v : VarData} {r : ℕ}

/-- A column of its own whose rows are all unknown. -/
structure VarData.Blank (v : VarData) : Prop where
  step_pos : 0 < v.step
  dvd_start : (v.step : ℤ) ∣ v.start
  dvd_end : (v.step : ℤ) ∣ v.endTime
  start_le : v.start ≤ v.endTime
  ds_eq : v.ds = 0
  dsCnt_eq : v.dsCnt = 1
  rows : ∀ r < v.rowCnt, v.data[r]? = some .nan

lemma VarData.Blank.watched (h : v.Blank) {idx : ℤ} (hidx : idx = r) (hr : r < v.rowCnt) : v.watched idx = .ok .nan := by
  rw [VarData.watched, VarData.read_of_getElem? hidx (h.rows r hr), ok_bind]
  rfl

lemma VarData.Blank.readable (h : v.Blank) : ReadableColumn v.watched v := by
  intro r hr
  refine ⟨.nan, h.watched (r := r) ?_ hr⟩
  rw [h.ds_eq, h.dsCnt_eq]
  ring

lemma VarData.Blank.paint (h : v.Blank) (t : ℤ) : ∃ x, v.valueAt v.watched t = .ok x := by
  rw [VarData.valueAt]
  split
  · rename_i hin
    have hpos : (0 : ℤ) < v.step := by exact_mod_cast h.step_pos
    have hrow := VarData.row_lt h.step_pos (Int.dvd_sub h.dvd_end h.dvd_start) hin.1 hin.2
    refine ⟨.nan, h.watched (r := ((t - v.start) / v.step).toNat) ?_ hrow⟩
    rw [h.ds_eq, h.dsCnt_eq, Int.toNat_of_nonneg (Int.ediv_nonneg (by omega) hpos.le)]
    ring
  · exact ⟨.nan, rfl⟩

/-- Every consumer of such a column reads unknown values. -/
lemma VarData.Blank.readsUnknown (h : v.Blank) : v.ReadsUnknown where
  step_pos := h.step_pos
  dvd_start := h.dvd_start
  dvd_end := h.dvd_end
  vdef m sort op param f hf := by
    obtain ⟨val, hval⟩ | ⟨i, hi⟩ := vdefCalc_cases h.readable h.step_pos.ne' m sort op param
    · rw [hval] at hf
      cases hf
    · rw [hi] at hf
      cases hf
      exact ⟨i, rfl⟩
  print cf f hf := by
    obtain ⟨x, hx⟩ := exists_printCalc h.readable h.step_pos.ne' h.start_le h.ds_eq.ge cf
    rw [hx] at hf
    cases hf
  paint t f hf := by
    obtain ⟨x, hx⟩ := h.paint t
    rw [hx] at hf
    cases hf
  cdef m gdes p stack k rpi call st hstepped hreaches hwindows t ht n hn hdata hholds node hnode := by
    have hinside := (readsInside_iff hstepped hreaches).2 hwindows t ht n hn hdata node hnode
    have hcnt : (gdes n.ptr).rowCount * (gdes n.ptr).dsCnt = v.rowCnt := by
      rw [Gdes.rowCount, hholds.start_eq, hholds.end_eq, hholds.step_eq, hholds.dsCnt_eq, h.dsCnt_eq, VarData.rowCnt,
        Int.toNat_of_nonneg (Int.ediv_nonneg (sub_nonneg.2 h.start_le) (Int.natCast_nonneg _))]
      ring
    rw [hcnt] at hinside
    exact h.watched (r := (node.place t.2).toNat) (Int.toNat_of_nonneg hinside.1).symm (by omega)

lemma watched_neg {idx : ℤ} (hidx : idx < 0) : v.watched idx = .error (.fault (.data idx)) := by
  rw [VarData.watched, VarData.read, if_neg (by omega)]
  rfl

/-- With the column -1 the first value that is read is in front of the data. -/
lemma not_readsUnknown_absent (hds : v.ds = -1) (hle : v.start ≤ v.endTime) : ¬ v.ReadsUnknown := by
  intro h
  have hstep : v.step ≠ 0 := h.step_pos.ne'
  cases hrows : v.rowCnt with
  | zero =>
    -- there are no rows, but `print_calc` looks at the index -1 before it stops
    have hzero : (v.endTime - v.start) / (v.step : ℤ) = 0 := by
      have hnonneg : 0 ≤ (v.endTime - v.start) / (v.step : ℤ) := Int.ediv_nonneg (by omega) (Int.natCast_nonneg _)
      rw [VarData.rowCnt] at hrows
      omega
    have hmax : maxIi v = 0 := by
      rw [maxIi, hzero, zero_mul]
      rfl
    refine h.print .average (.data (-1)) ?_
    have hfuel : (maxIi v - v.ds).toNat = 1 := by
      rw [hmax, hds]
      rfl
    rw [printCalc, if_neg hstep, hfuel, printLoop, if_pos (by omega), hds, watched_neg (by omega)]
    rfl
  | succ n =>
    have hfirst : vdefCalc v.watched v bareMachine id .first .nan = .error (.fault (.data (-1))) := by
      have hcell : vdefData v.watched v 0 = .error (.fault (.data (-1))) := by
        rw [vdefData, hds, Nat.cast_zero, zero_mul, add_zero, watched_neg (by omega)]
      unfold vdefCalc
      rw [if_neg hstep]
      show vdefFirst v.watched v = _
      rw [vdefFirst, hrows, skipUnknown, hcell]
      rfl
    obtain ⟨i, hi⟩ := h.vdef _ _ _ _ _ hfirst
    cases hi

end Column

/-! ### The reduction of unknown values -/

section Reduction

variable {start endTime : ℤ} {curStep factor step dsCnt size a b : ℕ} {cf : Cf} {mem : ℕ → RrdValue}

lemma combine_unknown {kind : ReduceKind} {vals : List RrdValue} (h : ∀ val ∈ vals, val = .nan) : combine kind vals = .nan := by
  have hfold : ∀ acc, vals.foldl (combineStep kind) acc = acc := by
    intro acc
    induction vals with
    | nil => rfl
    | cons val vals ih =>
      obtain ⟨rfl, hrest⟩ := List.forall_mem_cons.1 h
      exact ih hrest
  simp only [combine, hfold, if_true]

/-- The reduction of unknown values is unknown. -/
lemma reducedMem_unknown {first groups last skip n p : ℕ} (hmem : ∀ q < n, mem q = .nan) (hn : skip + groups * factor ≤ n)
    (hp : p < first + groups + last) : reducedMem cf 1 factor mem first groups last skip p = .nan := by
  obtain hfirst | hfirst := Nat.lt_or_ge p first
  · have heq : reducedMem cf 1 factor mem first groups last skip (p * 1 + 0) = .nan :=
      reducedMem_first hfirst Nat.zero_lt_one
    rwa [Nat.mul_one, Nat.add_zero] at heq
  · obtain ⟨j, rfl⟩ := Nat.exists_eq_add_of_le hfirst
    obtain hgroup | hgroup := Nat.lt_or_ge j groups
    · have heq : reducedMem cf 1 factor mem first groups last skip ((first + j) * 1 + 0) = _ :=
        reducedMem_group hgroup Nat.zero_lt_one
      rw [Nat.mul_one, Nat.add_zero] at heq
      rw [heq]
      refine combine_unknown fun val hval => ?_
      obtain ⟨i, hi, rfl⟩ := List.mem_map.1 hval
      refine hmem _ ?_
      have hrow := Nat.mul_le_mul_right factor hgroup
      rw [Nat.succ_mul] at hrow
      have := List.mem_range.1 hi
      omega
    · obtain ⟨l, rfl⟩ := Nat.exists_eq_add_of_le hgroup
      have heq : reducedMem cf 1 factor mem first groups last skip ((first + groups + l) * 1 + 0) = .nan :=
        reducedMem_last (by omega) Nat.zero_lt_one
      rwa [Nat.mul_one, Nat.add_zero, Nat.add_assoc first] at heq

/-- What a reduction does to the window. -/
lemma rrdReduceDataInPlace_window {r : ReduceResult} (h : rrdReduceDataInPlace cf size curStep start endTime step dsCnt mem = .ok r) :
    let newStep := curStep * reduceFactor curStep step
    r.start = start - start % newStep ∧ r.step = newStep ∧
      r.endTime = if endTime % newStep ≠ 0 then endTime - endTime % newStep + newStep else endTime := by
  intro newStep
  unfold rrdReduceDataInPlace at h
  dsimp only at h
  split at h
  · cases h
  · obtain ⟨c, -, h⟩ := bind_eq_ok h
    split at h
    · cases h
    · obtain ⟨st, -, h⟩ := bind_eq_ok h
      obtain ⟨c', -, h⟩ := bind_eq_ok h
      obtain rfl := Except.ok.inj h
      exact ⟨rfl, rfl, rfl⟩

/-- Inside of a single interval the number of rows that are left wraps. -/
lemma single_rows (hcur : 0 < curStep) (hfactor : 0 < factor) (ha : start = (curStep * a : ℕ)) (hb : endTime = (curStep * b : ℕ))
    (hab : a < b) (hlong : b < 2 ^ 63) (hsingle : ¬ nextGroup factor a ≤ b / factor) :
    a / factor = b / factor ∧ partialRow start (curStep * factor) = 1 ∧ partialRow endTime (curStep * factor) = 1 ∧
      u64 (((u64 (((u64 ((endTime - start) / curStep) : ℕ) : ℤ) - skipStart start curStep factor) : ℕ) : ℤ) -
        skipEnd endTime curStep factor) = u64 (-(factor : ℤ)) := by
  have hskip := skipStart_eq hcur hfactor ha
  have hend : skipEnd endTime curStep factor = b % factor := skipEnd_eq hcur hb
  have hdiva := Nat.div_add_mod a factor
  have hdivb := Nat.div_add_mod b factor
  have hdiv : a / factor ≤ b / factor := Nat.div_le_div_right hab.le
  have hnext : a % factor ≠ 0 ∧ nextGroup factor a = a / factor + 1 := by
    unfold nextGroup at hsingle ⊢
    split at hsingle
    · rename_i hne
      exact ⟨hne, by rw [if_pos hne]⟩
    · omega
  have hquot : a / factor = b / factor := by omega
  have hlast : b % factor ≠ 0 := by
    intro hzero
    rw [hzero, ← hquot] at hdivb
    omega
  refine ⟨hquot, ?_, ?_, ?_⟩
  · rw [partialRow_eq hcur ha, if_pos hnext.1]
  · rw [partialRow_eq hcur hb, if_pos hlast]
  · have hcnt : (endTime - start) / curStep = (b : ℤ) - a := by
      have hsub : endTime - start = curStep * ((b : ℤ) - a) := by
        rw [ha, hb]
        push_cast
        ring
      rw [hsub, Int.mul_ediv_cancel_left _ (by exact_mod_cast hcur.ne')]
    have hrows : (b : ℤ) - a - skipStart start curStep factor - skipEnd endTime curStep factor = -(factor : ℤ) := by
      rw [hnext.2, Nat.succ_mul, hquot, Nat.mul_comm] at hskip
      rw [hend]
      omega
    rw [hcnt, ← hrows]
    simp only [u64_eq_emod]
    omega

/-- What `rrd_reduce_data` does there: it reports an error, unless the factor divides the number at which the rows wrap.
Then it writes a row of `nan` for each end of the window. -/
lemma rrdReduceDataInPlace_single (hcur : 0 < curStep) (hfactor : 0 < factor) (hint : factor < 2 ^ 31)
    (heq : reduceFactor curStep step = factor) (ha : start = (curStep * a : ℕ)) (hb : endTime = (curStep * b : ℕ))
    (hab : a < b) (hlong : b < 2 ^ 63) (hsingle : ¬ nextGroup factor a ≤ b / factor) (hsize : 2 ≤ size) :
    if factor ∣ 2 ^ 64 then
      ∃ r, rrdReduceDataInPlace cf size curStep start endTime step 1 mem = .ok r ∧ r.mem 0 = .nan
    else ∀ r, rrdReduceDataInPlace cf size curStep start endTime step 1 mem ≠ .ok r := by
  obtain ⟨-, hfirst, hlast, hleft⟩ := single_rows hcur hfactor ha hb hab hlong hsingle
  have hwrap : u64 (-(factor : ℤ)) = 2 ^ 64 - factor := by
    rw [u64_eq_emod]
    omega
  have hmod : (2 ^ 64 - factor) % factor = 0 ↔ factor ∣ 2 ^ 64 := by
    rw [← Nat.dvd_iff_mod_eq_zero]
    exact Nat.dvd_sub_self_right.trans ⟨fun h => h.resolve_right (by omega), .inl⟩
  have hfit : ¬ 2 ^ 31 ≤ factor := by omega
  rw [rrdReduceDataInPlace, heq, if_neg hfit]
  simp only [hleft, hwrap]
  have hroom : (⟨mem, 0⟩ : Cursor RrdValue).dst + partialRow start (curStep * factor) * 1 ≤ size := by
    rw [hfirst]
    show 0 + 1 * 1 ≤ size
    omega
  rw [partialNanRow_eq hroom, ok_bind, hfirst]
  split
  · rename_i hdvd
    have hsanity : ¬ (2 ^ 64 - factor) % factor ≠ 0 := not_not.2 (hmod.2 hdvd)
    have hloop : ∀ st : ReduceState, st.rowCnt = 2 ^ 64 - factor →
        reduceLoop size (reduceKind cf) 1 factor (2 ^ 64 - factor) st = .ok st := by
      intro st hst
      obtain ⟨fuel, hfuel⟩ : ∃ fuel, 2 ^ 64 - factor = fuel + 1 := ⟨2 ^ 64 - factor - 1, by omega⟩
      have hneg : s64 (st.rowCnt : ℕ) = -(factor : ℤ) := by
        rw [hst, ← hwrap, s64_u64 (by omega) (by omega)]
      rw [hfuel, reduceLoop, if_neg]
      rw [hneg]
      omega
    have hroom' : 0 + 1 * 1 + partialRow endTime (curStep * factor) * 1 ≤ size := by
      rw [hlast]
      omega
    rw [if_neg hsanity, hloop _ rfl, ok_bind, partialNanRow_eq hroom', ok_bind, hlast]
    refine ⟨_, rfl, ?_⟩
    show put (put mem 0 (1 * 1) fun _ => .nan) (0 + 1 * 1) (1 * 1) (fun _ => .nan) (0 + 0) = .nan
    rw [put_before (by omega), put_inside (by omega)]
  · rename_i hdvd
    rw [if_pos fun hzero => hdvd (hmod.1 hzero)]
    rintro r ⟨⟩

end Reduction

/-! ### Data that are made up -/

/-- The number of rows in the window. -/
@[grind] def DefData.rowCnt (f : DefData) : ℕ := ((f.endTime - f.start) / f.step).toNat

/-- One column of rows that are all unknown. -/
structure DefData.Blank (f : DefData) : Prop where
  step_pos : 0 < f.step
  dvd_start : (f.step : ℤ) ∣ f.start
  dvd_end : (f.step : ℤ) ∣ f.endTime
  start_le : f.start ≤ f.endTime
  one : f.dsNamv.length = 1
  size_le : f.rowCnt ≤ f.size
  rows : ∀ r < f.rowCnt, f.mem r = .nan

/-- The window can be reduced: the factor is an `int`, and a multiple of the new step is in the window or the factor divides
the number at which the rows wrap. -/
def ReduceFits (start endTime : ℤ) (curStep step : ℕ) : Prop :=
  curStep < step → reduceFactor curStep step < 2 ^ 31 ∧
    (HasMultiple start endTime (curStep * reduceFactor curStep step) ∨ reduceFactor curStep step ∣ 2 ^ 64)

section MadeUp

variable {im : Image} {d : DefElem} {f : DefData} {req : FetchRequest} {nam : Text} {memory : ℕ → RrdValue}

lemma DefData.Blank.column (h : f.Blank) : (f.column 0).Blank where
  step_pos := h.step_pos
  dvd_start := h.dvd_start
  dvd_end := h.dvd_end
  start_le := h.start_le
  ds_eq := rfl
  dsCnt_eq := h.one
  rows r hr := by
    have hlt : r < f.size := Nat.lt_of_lt_of_le hr h.size_le
    show ((List.range f.size).map f.mem)[r]? = some .nan
    rw [List.getElem?_map, List.getElem?_range hlt, Option.map_some, h.rows r hr]

/-- What the reduction of such data has to show: the window comes from `rrd_reduce_data`, the rows are unknown. -/
lemma DefData.Blank.of_reduce {cf : Cf} {step a b rows : ℕ} {r : ReduceResult} (h : f.Blank) (hfactor : 0 < reduceFactor f.step step)
    (ha : f.start = (f.step * a : ℕ)) (hb : f.endTime = (f.step * b : ℕ))
    (hr : rrdReduceDataInPlace cf f.size f.step f.start f.endTime step 1 f.mem = .ok r)
    (hrows : ((r.endTime - r.start) / r.step).toNat = rows) (hsize : rows ≤ f.size) (hmem : ∀ p < rows, r.mem p = .nan) :
    DefData.Blank { f with start := r.start, endTime := r.endTime, step := r.step, mem := r.mem } := by
  obtain ⟨hstart, hstep, hend⟩ := rrdReduceDataInPlace_window hr
  have hpos : (0 : ℤ) < (f.step * reduceFactor f.step step : ℕ) := by exact_mod_cast Nat.mul_pos h.step_pos hfactor
  have hmods := Int.emod_nonneg f.start hpos.ne'
  have hmode := Int.emod_lt_of_pos f.endTime hpos
  have hle := h.start_le
  refine ⟨?_, ?_, ?_, ?_, h.one, ?_, ?_⟩
  · show 0 < r.step
    rw [hstep]
    exact Nat.mul_pos h.step_pos hfactor
  · show (r.step : ℤ) ∣ r.start
    rw [hstart, hstep]
    exact Int.dvd_self_sub_emod
  · show (r.step : ℤ) ∣ r.endTime
    rw [hend, hstep, newEnd_eq hb, Nat.cast_mul (f.step * _)]
    exact Dvd.intro _ rfl
  · show r.start ≤ r.endTime
    rw [hstart, hend]
    split
    · omega
    · omega
  · show ((r.endTime - r.start) / r.step).toNat ≤ f.size
    rw [hrows]
    exact hsize
  · intro p hp
    refine hmem p ?_
    rw [← hrows]
    exact hp

/-- The reduction keeps the rows unknown, and it has a result exactly if the window can be reduced. -/
lemma DefData.Blank.reduced (h : f.Blank) (hroom : f.rowCnt < f.size) (hstart : 0 ≤ f.start) (hlt : f.start < f.endTime)
    (hend : f.endTime < 2 ^ 63) :
    (ReduceFits f.start f.endTime f.step (max d.request.step im.step) →
      ∃ f', reducedInPlace im d f = .ok f' ∧ f'.Blank ∧ f'.dsNamv = f.dsNamv) ∧
      ∀ f', reducedInPlace im d f = .ok f' → ReduceFits f.start f.endTime f.step (max d.request.step im.step) := by
  by_cases hstep : f.step < max d.request.step im.step
  · have hreduce : reducedInPlace im d f = (do
        let r ← rrdReduceDataInPlace (d.reduce.getD d.request.cf) f.size f.step f.start f.endTime (max d.request.step im.step)
          1 f.mem
        .ok { f with start := r.start, endTime := r.endTime, step := r.step, mem := r.mem }) := by
      rw [reducedInPlace, if_pos hstep, h.one]
    rw [hreduce]
    generalize max d.request.step im.step = step at hstep ⊢
    generalize d.reduce.getD d.request.cf = cf
    obtain ⟨a, b, ha, hb, hab, hcnt⟩ := exists_rows hstart hlt h.step_pos h.dvd_start h.dvd_end
    have hrowCnt : f.rowCnt = b - a := hcnt
    have hfactor := reduceFactor_pos h.step_pos hstep
    have hlong := lt_of_times h.step_pos hend hb
    have hmultiple := hasMultiple_iff h.step_pos hfactor ha hb
    have hresult : ∀ r, rrdReduceDataInPlace cf f.size f.step f.start f.endTime step 1 f.mem = .ok r → (do
        let r ← rrdReduceDataInPlace cf f.size f.step f.start f.endTime step 1 f.mem
        .ok { f with start := r.start, endTime := r.endTime, step := r.step, mem := r.mem } : Reads DefData) =
          .ok { f with start := r.start, endTime := r.endTime, step := r.step, mem := r.mem } := by
      intro r hr
      rw [hr, ok_bind]
    by_cases hint : reduceFactor f.step step < 2 ^ 31
    · by_cases hle : nextGroup (reduceFactor f.step step) a ≤ b / reduceFactor f.step step
      · have heq := @rrdReduceDataInPlace_eq f.start f.endTime f.step _ step 1 f.size a b cf f.mem h.step_pos hfactor hint rfl
          ha hb hab hlong hle (by omega)
        refine ⟨fun _ => ⟨_, hresult _ heq, ?_, rfl⟩, fun _ _ _ => ⟨hint, .inl (hmultiple.2 hle)⟩⟩
        have hspace := newRows_le h.step_pos hfactor ha hb hle
        refine h.of_reduce hfactor ha hb heq (newRows_eq h.step_pos hfactor ha hb hle) (by omega) fun p hp => ?_
        have hskip := skipStart_eq h.step_pos hfactor ha
        have hrows := Nat.div_mul_le_self b (reduceFactor f.step step)
        obtain ⟨g, hg⟩ := Nat.exists_eq_add_of_le hle
        rw [hg, Nat.add_mul] at hrows
        refine reducedMem_unknown h.rows ?_ hp
        rw [hg, Nat.add_sub_cancel_left]
        omega
      · have hsingle := @rrdReduceDataInPlace_single f.start f.endTime f.step _ step f.size a b cf f.mem h.step_pos hfactor hint
          rfl ha hb hab hlong hle (by omega)
        obtain ⟨hquot, hfirst, hlast, -⟩ := single_rows h.step_pos hfactor ha hb hab hlong hle
        by_cases hdvd : reduceFactor f.step step ∣ 2 ^ 64
        · rw [if_pos hdvd] at hsingle
          obtain ⟨r, hr, hcell⟩ := hsingle
          refine ⟨fun _ => ⟨_, hresult r hr, ?_, rfl⟩, fun _ _ _ => ⟨hint, .inr hdvd⟩⟩
          obtain ⟨hwstart, hwstep, hwend⟩ := rrdReduceDataInPlace_window hr
          refine @DefData.Blank.of_reduce f cf step a b 1 r h hfactor ha hb hr ?_ (by omega) fun p hp => ?_
          · have hpos : (0 : ℤ) < (f.step * reduceFactor f.step step : ℕ) := by
              exact_mod_cast Nat.mul_pos h.step_pos hfactor
            have hone : r.endTime - r.start = (f.step * reduceFactor f.step step : ℕ) := by
              rw [hwend, hwstart, newEnd_eq hb, sub_emod_newStep ha, hlast, hquot]
              push_cast
              ring
            rw [hone, hwstep, Int.ediv_self hpos.ne']
            rfl
          · obtain rfl : p = 0 := by omega
            exact hcell
        · rw [if_neg hdvd] at hsingle
          refine ⟨fun hfits => absurd (hfits hstep).2 ?_, fun f' hf' => ?_⟩
          · rintro (hmult | hpow)
            · exact hle (hmultiple.1 hmult)
            · exact hdvd hpow
          · obtain ⟨r, hr, -⟩ := bind_eq_ok hf'
            exact absurd hr (hsingle r)
    · refine ⟨fun hfits => absurd (hfits hstep).1 hint, fun f' hf' => ?_⟩
      obtain ⟨r, hr, -⟩ := bind_eq_ok hf'
      rw [rrdReduceDataInPlace, if_pos (not_lt.1 hint)] at hr
      cases hr
  · have hsame : reducedInPlace im d f = .ok f := if_neg hstep
    exact ⟨fun _ => ⟨f, hsame, h, rfl⟩, fun _ _ hlt => absurd hlt hstep⟩

lemma fillDown_eq {rows r : ℕ} {mem : ℕ → RrdValue} : fillDown rows mem r = if r < rows then .nan else mem r := by
  induction rows generalizing mem with
  | zero => rfl
  | succ rows ih =>
    rw [fillDown, ih]
    by_cases hr : r = rows
    · rw [hr, if_neg (lt_irrefl rows), Function.update_self, if_pos (Nat.lt_succ_self rows)]
    · rw [Function.update_of_ne hr]
      exact if_congr (by omega) rfl rfl

/-- The window that is made up goes from and to a multiple of its step, and it has a row. -/
lemma emptyWindow (hpos : 0 < emptyStep req) (hstart : 0 ≤ req.start) (hle : req.start ≤ req.endTime) :
    (emptyStep req : ℤ) ∣ emptyStart req ∧ (emptyStep req : ℤ) ∣ emptyEnd req ∧ 0 ≤ emptyStart req ∧
      emptyStart req < emptyEnd req := by
  have hposz : (0 : ℤ) < emptyStep req := by exact_mod_cast hpos
  have hlt := Int.emod_lt_of_pos req.endTime hposz
  have hmod := Int.emod_nonneg req.start hposz.ne'
  have hdiv := Int.emod_add_mul_ediv req.start (emptyStep req)
  have hquot := mul_nonneg hposz.le (Int.ediv_nonneg hstart hposz.le)
  refine ⟨Int.dvd_self_sub_emod, ?_, ?_, ?_⟩
  · rw [emptyEnd, show req.endTime + ((emptyStep req : ℤ) - req.endTime % emptyStep req) =
      req.endTime - req.endTime % emptyStep req + emptyStep req by ring]
    exact Int.dvd_add Int.dvd_self_sub_emod dvd_rfl
  · rw [emptyStart]
    omega
  · rw [emptyStart, emptyEnd]
    omega

/-- `rrd_fetch_empty` gives such data, with one value behind the rows. -/
lemma rrdFetchEmptyInPlace_blank (hpos : 0 < emptyStep req) (hstart : 0 ≤ req.start) (hle : req.start ≤ req.endTime) :
    ∃ f, rrdFetchEmptyInPlace memory req nam = .ok f ∧ f.Blank ∧ f.rowCnt < f.size ∧ f.start = emptyStart req ∧
      f.endTime = emptyEnd req ∧ f.step = emptyStep req ∧ f.dsNamv = [nam] := by
  obtain ⟨hdvd, hdvd', -, hlt⟩ := emptyWindow hpos hstart hle
  refine ⟨_, if_neg hpos.ne', ⟨hpos, hdvd, hdvd', hlt.le, rfl, Nat.le_succ _, fun r hr => ?_⟩, Nat.lt_succ_self _, rfl, rfl, rfl,
    rfl⟩
  exact fillDown_eq.trans (if_pos hr)

end MadeUp

/-! ### The runs of `data_fetch` -/

section Run

variable {answer : FetchRequest → Answer} {memory : ℕ → RrdValue} {im : Image} {rrdMap : List (Text × DefData)}
  {pre : List DefElem} {d e : DefElem} {f f' : DefData} {v : VarData}

/-- The data for `e` are those of the request of `d`, which is `e` itself when there are none under its key. -/
@[grind] def MadeFor (answer : FetchRequest → Answer) (memory : ℕ → RrdValue) (im : Image) (rrdMap : List (Text × DefData))
    (e d : DefElem) : Prop :=
  match rrdMap.lookup (gdesFetchKey im e e.request.step) with
  | some f => fetchData answer memory im d = .ok f
  | none => d = e

/-- The data are missing: the fetch has failed, or the data source of `e` is not in the file. -/
def MissingData (answer : FetchRequest → Answer) (e d : DefElem) : Prop :=
  match answer d.request with
  | .data f => e.dsNam ∉ f.dsNamv
  | .failed _ => True

/-- An answer has a window, after 1970 for a failed fetch, whose times fit when they are rounded up. -/
def Answer.HasWindow : Answer → Prop
  | .data f => f.start ≤ f.endTime
  | .failed req => 0 ≤ req.start ∧ req.start ≤ req.endTime ∧ emptyEnd req < 2 ^ 63

/-- Data that were fetched before were made for one of the DEFs before. -/
lemma lookup_made (hmap : ∀ key f, (key, f) ∈ rrdMap → ∃ d ∈ pre, fetchData answer memory im d = .ok f) :
    ∃ d ∈ pre ++ [e], MadeFor answer memory im rrdMap e d := by
  unfold MadeFor
  cases hlook : rrdMap.lookup (gdesFetchKey im e e.request.step) with
  | none => exact ⟨e, List.mem_append_right pre List.mem_cons_self, rfl⟩
  | some f =>
    obtain ⟨l, l', hl, -⟩ := List.lookup_eq_some_iff.1 hlook
    obtain ⟨d, hd, hf⟩ := hmap _ f (hl ▸ List.mem_append_right l List.mem_cons_self)
    exact ⟨d, List.mem_append_left _ hd, hf⟩

/-- A DEF takes the data of the DEF that they were made for. -/
lemma fetchDef_ok_iff (hallow : im.allowMissingDs = true) (h : MadeFor answer memory im rrdMap e d) :
    fetchDef answer memory im rrdMap e = .ok (f, v) ↔
      fetchData answer memory im d = .ok f ∧ v = f.column (findDs e.dsNam f.dsNamv) := by
  have hcheck : ∀ f : DefData, (if findDs e.dsNam f.dsNamv = -1 ∧ im.allowMissingDs = false then
      .error (.error (.noDs e.dsNam e.request.rrd)) else .ok (f, f.column (findDs e.dsNam f.dsNamv)) :
        Reads (DefData × VarData)) = .ok (f, f.column (findDs e.dsNam f.dsNamv)) := by
    intro f
    rw [if_neg]
    rw [hallow]
    exact fun hand => absurd hand.2 (by decide)
  have heq : fetchDef answer memory im rrdMap e =
      fetchData answer memory im d >>= fun f => .ok (f, f.column (findDs e.dsNam f.dsNamv)) := by
    unfold MadeFor at h
    simp only [fetchDef, hcheck]
    split at h
    · rw [h]
    · rw [h]
  rw [heq]
  constructor
  · intro hok
    obtain ⟨f', hf', hcolumn⟩ := bind_eq_ok hok
    obtain ⟨rfl, rfl⟩ := Prod.mk.inj (Except.ok.inj hcolumn)
    exact ⟨hf', rfl⟩
  · rintro ⟨hf, rfl⟩
    rw [hf, ok_bind]

/-- In every run the data in the map were made for DEFs that are done. -/
lemma dataFetch_map (hallow : im.allowMissingDs = true) {acc : List (Text × DefData) × List VarData}
    (h : dataFetchInPlace answer memory im pre = .ok acc) :
    ∀ key f, (key, f) ∈ acc.1 → ∃ d ∈ pre, fetchData answer memory im d = .ok f := by
  induction pre using List.reverseRecOn generalizing acc with
  | nil =>
    obtain rfl := Except.ok.inj h
    exact fun key f hf => absurd hf List.not_mem_nil
  | append_singleton pre e ih =>
    rw [dataFetchInPlace, List.foldlM_append] at h
    obtain ⟨acc₁, hpre, hround⟩ := bind_eq_ok h
    rw [List.foldlM_cons] at hround
    obtain ⟨acc₂, hlast, hnil⟩ := bind_eq_ok hround
    obtain rfl := Except.ok.inj hnil
    obtain ⟨⟨f₁, v₁⟩, hdef, hacc⟩ := bind_eq_ok hlast
    obtain rfl := Except.ok.inj hacc
    intro key f hmem
    obtain heq | hmem := List.mem_cons.1 (show (key, f) ∈ (gdesFetchKey im e f₁.step, f₁) :: acc₁.1 from hmem)
    · obtain ⟨-, rfl⟩ := Prod.mk.inj heq
      obtain ⟨d, hd, hmade⟩ := @lookup_made answer memory im acc₁.1 pre e (ih hpre)
      exact ⟨d, hd, ((fetchDef_ok_iff hallow hmade).1 hdef).1⟩
    · obtain ⟨d, hd, hf⟩ := ih hpre key f hmem
      exact ⟨d, List.mem_append_left _ hd, hf⟩

/-! ### The column -/

lemma findDs_zipIdx {dsNam : Text} {names : List Text} {n : ℕ} {ds : ℤ} :
    (dsNam ∉ names → (names.zipIdx n).foldl (fun ds p => if p.1 = dsNam then (p.2 : ℤ) else ds) ds = ds) := by
  induction names generalizing n ds with
  | nil => exact fun _ => rfl
  | cons name names ih =>
    intro hnot
    obtain ⟨hne, hrest⟩ := not_or.1 (List.mem_cons.not.1 hnot)
    rw [List.zipIdx_cons, List.foldl_cons, if_neg fun h => hne h.symm]
    exact ih hrest

lemma findDs_absent {dsNam : Text} {names : List Text} (h : dsNam ∉ names) : findDs dsNam names = -1 := findDs_zipIdx h

lemma findDs_self (dsNam : Text) : findDs dsNam [dsNam] = 0 := if_pos rfl

/-! ### The window -/

lemma reducedInPlace_dsNamv (h : reducedInPlace im d f = .ok f') : f'.dsNamv = f.dsNamv := by
  unfold reducedInPlace at h
  split at h
  · obtain ⟨r, -, hr⟩ := bind_eq_ok h
    obtain rfl := Except.ok.inj hr
    rfl
  · obtain rfl := Except.ok.inj h
    rfl

lemma reducedInPlace_start_le (h : reducedInPlace im d f = .ok f') (hpos : 0 < f'.step) (hle : f.start ≤ f.endTime) :
    f'.start ≤ f'.endTime := by
  unfold reducedInPlace at h
  split at h
  · obtain ⟨r, hr, hf'⟩ := bind_eq_ok h
    obtain rfl := Except.ok.inj hf'
    obtain ⟨hstart, hstep, hend⟩ := rrdReduceDataInPlace_window hr
    have hnew : (0 : ℤ) < (f.step * reduceFactor f.step (max d.request.step im.step) : ℕ) := by
      rw [← hstep]
      exact_mod_cast hpos
    have hmods := Int.emod_nonneg f.start hnew.ne'
    have hmode := Int.emod_lt_of_pos f.endTime hnew
    show r.start ≤ r.endTime
    rw [hstart, hend]
    split
    · omega
    · omega
  · obtain rfl := Except.ok.inj h
    exact hle

/-- Data of another data source are at the column -1. -/
lemma not_readsUnknown_of_name (hname : e.dsNam ∉ f'.dsNamv) (hle : 0 < f'.step → f'.start ≤ f'.endTime) :
    ¬ (f'.column (findDs e.dsNam f'.dsNamv)).ReadsUnknown := by
  intro h
  have hpos : 0 < f'.step := h.step_pos
  exact not_readsUnknown_absent (findDs_absent hname) (hle hpos) h

/-- The data that are made up for a failed fetch are good for its data source, if they can be made up. -/
def EmptyFits (answer : FetchRequest → Answer) (im : Image) (e d : DefElem) : Prop :=
  ∃ req, answer d.request = .failed req ∧ e.dsNam = d.dsNam ∧ 0 < emptyStep req ∧
    ReduceFits (emptyStart req) (emptyEnd req) (emptyStep req) (max d.request.step im.step)

lemma fetchDef_missing_iff (hallow : im.allowMissingDs = true) (hmade : MadeFor answer memory im rrdMap e d)
    (hmissing : MissingData answer e d) (hwindow : (answer d.request).HasWindow) :
    (∃ f v, fetchDef answer memory im rrdMap e = .ok (f, v) ∧ v.ReadsUnknown) ↔ EmptyFits answer im e d := by
  have hdef : (∃ f v, fetchDef answer memory im rrdMap e = .ok (f, v) ∧ v.ReadsUnknown) ↔
      ∃ f, fetchData answer memory im d = .ok f ∧ (f.column (findDs e.dsNam f.dsNamv)).ReadsUnknown := by
    constructor
    · rintro ⟨f, v, hok, hreads⟩
      obtain ⟨hf, rfl⟩ := (fetchDef_ok_iff hallow hmade).1 hok
      exact ⟨f, hf, hreads⟩
    · rintro ⟨f, hf, hreads⟩
      exact ⟨f, _, (fetchDef_ok_iff hallow hmade).2 ⟨hf, rfl⟩, hreads⟩
  rw [hdef, EmptyFits, fetchData]
  unfold MissingData at hmissing
  cases hanswer : answer d.request with
  | data f₀ =>
    rw [hanswer] at hmissing hwindow
    refine iff_of_false ?_ ?_
    · rintro ⟨f, hf, hreads⟩
      have hname : e.dsNam ∉ f.dsNamv := by
        rw [reducedInPlace_dsNamv hf]
        exact hmissing
      exact not_readsUnknown_of_name hname (fun hpos => reducedInPlace_start_le hf hpos hwindow) hreads
    · rintro ⟨req, hreq, -⟩
      cases hreq
  | failed req =>
    rw [hanswer] at hwindow
    obtain ⟨hstart, hle, hend⟩ := hwindow
    dsimp only
    rw [if_pos hallow]
    obtain hzero | hpos := Nat.eq_zero_or_pos (emptyStep req)
    · refine iff_of_false ?_ ?_
      · rintro ⟨f, hf, -⟩
        rw [rrdFetchEmptyInPlace, if_pos hzero] at hf
        cases hf
      · rintro ⟨req', hreq', -, hpos, -⟩
        obtain rfl := Answer.failed.inj hreq'
        omega
    · obtain ⟨f, hf, hblank, hroom, hfstart, hfend, hfstep, hfnam⟩ :=
        @rrdFetchEmptyInPlace_blank req d.dsNam memory hpos hstart hle
      obtain ⟨-, -, hnonneg, hlt⟩ := emptyWindow hpos hstart hle
      obtain ⟨hfits, hback⟩ := @DefData.Blank.reduced im d f hblank hroom (hfstart ▸ hnonneg) (hfstart ▸ hfend ▸ hlt) (hfend ▸ hend)
      rw [hfstart, hfend, hfstep] at hfits hback
      rw [hf, ok_bind]
      constructor
      · rintro ⟨f', hf', hreads⟩
        refine ⟨req, rfl, ?_, hpos, hback f' hf'⟩
        by_contra hne
        refine not_readsUnknown_of_name ?_ (fun hpos' => reducedInPlace_start_le hf' hpos' hblank.start_le) hreads
        rw [reducedInPlace_dsNamv hf', hfnam]
        exact fun hmem => hne (List.mem_singleton.1 hmem)
      · rintro ⟨req', hreq', hname, -, hreduce⟩
        obtain rfl := Answer.failed.inj hreq'
        obtain ⟨f', hf', hblank', hnam'⟩ := hfits hreduce
        refine ⟨f', hf', ?_⟩
        rw [hnam', hfnam, hname, findDs_self]
        exact hblank'.column.readsUnknown

end Run

/-- In every run of `data_fetch` with `ALLOW_MISSING_DS`, a DEF gets the data that were made for a DEF before it or for
itself. When they are missing, its consumers read unknown values and nothing else exactly if the fetch has failed for the
same name and the data can be made up. -/
theorem dataFetch_missing_iff (answer : FetchRequest → Answer) (memory : ℕ → RrdValue) (im : Image) (pre : List DefElem)
    (e : DefElem) (acc : List (Text × DefData) × List VarData) (hallow : im.allowMissingDs = true)
    (hwindow : ∀ d ∈ pre ++ [e], (answer d.request).HasWindow) (hrun : dataFetchInPlace answer memory im pre = .ok acc) :
    ∃ d ∈ pre ++ [e], MadeFor answer memory im acc.1 e d ∧ (MissingData answer e d →
      ((∃ f v, fetchDef answer memory im acc.1 e = .ok (f, v) ∧ v.ReadsUnknown) ↔ EmptyFits answer im e d)) := by
  obtain ⟨d, hd, hmade⟩ := @lookup_made answer memory im acc.1 pre e (dataFetch_map hallow hrun)
  exact ⟨d, hd, hmade, fun hmissing => fetchDef_missing_iff hallow hmade hmissing (hwindow d hd)⟩

/-- `DEF:a=f.rrd:x:AVERAGE:step=300` with an hour from 920804400 on. -/
def hourDef : DefElem :=
  ⟨{ rrd := "f.rrd".toList, daemon := [], cf := .average, start := 920804400, endTime := 920808000, step := 300 },
    "x".toList, none⟩

/-- An image with a step of one second in which data may be missing. -/
def missingImage : Image := { step := 1, stepOrig := 1, allowMissingDs := true }

/-- Without a file, the consumers of `hourDef` read unknown values. -/
theorem dataFetch_missing_hour : ∃ f v,
    fetchDef .failed (fun _ => .fin 7) missingImage [] hourDef = .ok (f, v) ∧ v.ReadsUnknown := by
  obtain ⟨d, hd, -, hiff⟩ := dataFetch_missing_iff .failed (fun _ => .fin 7) missingImage [] hourDef ([], []) rfl
    (fun d hd => by
      obtain rfl := List.mem_singleton.1 hd
      exact ⟨by decide, by decide, by decide⟩) rfl
  obtain rfl := List.mem_singleton.1 hd
  exact (hiff trivial).2 ⟨hourDef.request, rfl, rfl, by decide, fun hlt => absurd hlt (by decide)⟩

/-- An hour of a data source that is not `x`. -/
def otherSource : DefData := ⟨920804400, 920808000, 300, ["y".toList], 12, fun _ => .fin 7⟩

/-- `hourDef` with a minute, and with no step. -/
def minuteDef : DefElem :=
  ⟨{ rrd := "f.rrd".toList, daemon := [], cf := .average, start := 920804400, endTime := 920804460, step := 0 },
    "x".toList, none⟩

/-- A data source that is not in the file is read at the column -1. For a minute of a file that can not be fetched and no
step, the step that is made up is 0, and it is divided by it. -/
theorem dataFetch_missing_absent :
    (∃ f v, fetchDef (fun _ => .data otherSource) (fun _ => .fin 7) missingImage [] hourDef = .ok (f, v) ∧
      printCalc v.read v .average = .error (.fault (.data (-1))) ∧ ¬ v.ReadsUnknown) ∧
    fetchDef .failed (fun _ => .fin 7) missingImage [] minuteDef = .error (.fault .divisionByZero) := by
  refine ⟨⟨otherSource, otherSource.column (-1), rfl, rfl, ?_⟩, rfl⟩
  exact not_readsUnknown_absent rfl (by decide)

end Rrdtool
