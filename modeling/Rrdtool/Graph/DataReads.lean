import Rrdtool.Graph.DataCalc
import Rrdtool.Rpn.Reads

/-!
# Where the rows of a CDEF are read from

The reads of `rpn_calc` through the data pointers of a CDEF, at every row and for variables of any steps and starts. The
guards of `PREV`, `TREND` and `PREDICT` count the rows of the CDEF, and a variable with a longer step has fewer of them.
`dataCalc_reads_iff` says when each read is in the data of its variable.
-/

namespace Rrdtool

open Checked

/-- The number of rows of a variable. -/
def Gdes.rowCount (v : Gdes) : ℤ := (v.endTime - v.start) / v.step

/-- The number of its rows that have ended at a time. -/
def Gdes.rowsBy (v : Gdes) (now : ℤ) : ℤ := (now - v.start) / v.step

section Run

variable {m : Machine} {gdes : ℤ → Gdes} {p : List Rpnp} {stack : CalcState}

/-- The step of a CDEF divides those of its variables, and it begins and ends at a multiple of it, not before one of the
variables. -/
lemma cdefTimes_spec (hstepped : ∀ v ∈ dataVars gdes p, v.Stepped) (hne : dataVars gdes p ≠ []) :
    let t := cdefTimes gdes p
    let g := rrdLcd t.steparray
    0 < g ∧ (∀ v ∈ dataVars gdes p, g ∣ v.step ∧ v.start ≤ t.start) ∧ (g : ℤ) ∣ t.start ∧ (g : ℤ) ∣ t.endTime := by
  intro t g
  have hsteps : t.steparray = (dataVars gdes p).map Gdes.step := foldl_steparray
  have hgcd : g = ((dataVars gdes p).map Gdes.step).foldl Nat.gcd 0 := by
    show rrdLcd t.steparray = _
    rw [hsteps]
    refine rrdLcd_eq_gcd fun b hb => ?_
    obtain ⟨v, hv, rfl⟩ := List.mem_map.1 hb
    exact (hstepped v hv).step_pos
  have hdvd : ∀ v ∈ dataVars gdes p, g ∣ v.step := fun v hv => hgcd ▸ (foldl_gcd_dvd 0).2 _ (List.mem_map_of_mem hv)
  have hcast : ∀ v ∈ dataVars gdes p, (g : ℤ) ∣ v.step := fun v hv => Int.natCast_dvd_natCast.2 (hdvd v hv)
  obtain ⟨-, hstart, hS⟩ := @foldl_start gdes p ⟨0, 0, []⟩
  refine ⟨?_, fun v hv => ⟨hdvd v hv, hstart v hv⟩, ?_, ?_⟩
  · obtain ⟨v, hv⟩ := List.exists_mem_of_ne_nil _ hne
    exact Nat.pos_of_dvd_of_pos (hdvd v hv) (hstepped v hv).step_pos
  · obtain hzero | ⟨v, hv, heq⟩ := hS
    · exact (show t.start = 0 from hzero) ▸ dvd_zero _
    · exact (show t.start = v.start from heq) ▸ (hcast v hv).trans (hstepped v hv).dvd_start
  · obtain hzero | ⟨v, hv, heq⟩ := @foldl_end_mem gdes p ⟨0, 0, []⟩
    · exact (show t.endTime = 0 from hzero) ▸ dvd_zero _
    · exact (show t.endTime = v.endTime from heq) ▸ (hcast v hv).trans (hstepped v hv).dvd_end

/-- `data_calc` computes one row after the other. -/
lemma dataCalc_eq_steps (hstepped : ∀ v ∈ dataVars gdes p, v.Stepped) (hne : dataVars gdes p ≠ []) :
    let t := cdefTimes gdes p
    let g := rrdLcd t.steparray
    dataCalc m gdes p stack = (do
      let acc ← steps (rowStep m t.start g) ((t.endTime - t.start) / g).toNat ([], ⟨stack, p.map (cdefNode gdes t.start)⟩)
      .ok ⟨t.start, t.endTime, g, acc.1⟩) := by
  intro t g
  obtain ⟨hpos, -, hdvdS, hdvdE⟩ := cdefTimes_spec hstepped hne
  have hposz : (0 : ℤ) < g := by exact_mod_cast hpos
  have hsteps : t.steparray ≠ [] := by
    rw [show t.steparray = (dataVars gdes p).map Gdes.step from foldl_steparray]
    exact fun hnil => hne (List.map_eq_nil_iff.1 hnil)
  have hrows : cdefRows m t.endTime g (t.endTime - t.start).toNat (t.start + g) =
      steps (rowStep m t.start g) ((t.endTime - t.start) / g).toNat := by
    funext init
    obtain hle | hlt := le_or_gt t.endTime t.start
    · rw [Int.toNat_of_nonpos (by omega), Int.toNat_of_nonpos]
      · rfl
      · exact Int.ediv_nonpos_of_nonpos_of_neg (by omega) hposz
    · have hcount : (((t.endTime - t.start) / g).toNat : ℤ) = (t.endTime - t.start) / g :=
        Int.toNat_of_nonneg (Int.ediv_nonneg (by omega) hposz.le)
      have hend : t.endTime = t.start + (t.endTime - t.start) / g * g := by
        rw [Int.ediv_mul_cancel (Int.dvd_sub hdvdE hdvdS)]
        ring
      have hloop := @cdefRows_eq_steps m t.start t.endTime g init hpos ((t.endTime - t.start) / g).toNat
        (t.endTime - t.start).toNat 0 (by rw [hcount, Nat.cast_zero, zero_add]; exact hend) (by
          have hle : (t.endTime - t.start) / g ≤ t.endTime - t.start := Int.ediv_le_self _ (by omega)
          omega)
      rw [steps, ok_bind, Nat.cast_zero, zero_add, one_mul, Nat.zero_add] at hloop
      exact hloop
  rw [dataCalc]
  show (if t.steparray = [] then _ else _) = _
  rw [if_neg hsteps, ← hrows]

/-- `data_calc` comes to the operator `rpi` of the row `k`, with these arguments of `rpn_calc` and this state. -/
def CdefReaches (m : Machine) (gdes : ℤ → Gdes) (p : List Rpnp) (stack : CalcState) (k rpi : ℕ) (call : Call)
    (st : CalcRun) : Prop :=
  let t := cdefTimes gdes p
  let g := rrdLcd t.steparray
  (k : ℤ) < (t.endTime - t.start) / g ∧ ∃ rows st₀,
    steps (rowStep m t.start g) k ([], ⟨stack, p.map (cdefNode gdes t.start)⟩) = .ok (rows, st₀) ∧
      call = rowCall g (t.start + (k + 1) * g) rows ∧ steps (calcStep m call) rpi st₀.start = .ok st

variable {k rpi : ℕ} {call : Call} {st : CalcRun}

@[simp] lemma advance_op (n : CalcNode) : (advance call n).op = n.op := by
  rw [advance]
  split
  · rfl
  · rfl

/-- The operators stay what they are. -/
lemma steps_rows_op {S : ℤ} {g : ℕ} {acc : List RrdValue × CalcRun}
    (h : steps (rowStep m S g) k ([], ⟨stack, p.map (cdefNode gdes S)⟩) = .ok acc) (j : ℕ) :
    (acc.2.nodes[j]?).map CalcNode.op = (p[j]?).map fun n => (cdefNode gdes S n).op := by
  induction k generalizing acc with
  | zero =>
    obtain rfl := Except.ok.inj h
    show ((p.map (cdefNode gdes S))[j]?).map CalcNode.op = _
    rw [List.getElem?_map, Option.map_map]
    rfl
  | succ k ih =>
    obtain ⟨acc₁, hk, hrow⟩ := bind_eq_ok h
    obtain ⟨v, st', hcalc, rfl⟩ := cdefRow_some hrow
    rw [← ih hk, rpnCalc_nodes hcalc j, Option.map_map]
    congr 1
    funext n
    exact advance_op n

lemma reaches_op (h : CdefReaches m gdes p stack k rpi call st) (j : ℕ) :
    (st.nodes[j]?).map CalcNode.op = (p[j]?).map fun n => (cdefNode gdes (cdefTimes gdes p).start n).op := by
  obtain ⟨-, rows, st₀, hrows, rfl, hsteps⟩ := h
  have hnodes := steps_nodes hsteps j
  have hstart : st₀.start.nodes[j]? = st₀.nodes[j]? := rfl
  rw [hnodes, hstart, Option.map_map, ← steps_rows_op hrows j]
  congr 1
  funext n
  split
  · exact advance_op n
  · rfl

/-- A node without data is a number, or an operator of its own. -/
lemma reaches_plain (h : CdefReaches m gdes p stack k rpi call st) {j : ℕ} {n : Rpnp} (hn : p[j]? = some n)
    (hdata : ¬ n.hasData gdes) :
    ∃ node, st.nodes[j]? = some node ∧ node.op = if n.namesVariable then .number else n.op := by
  have hop := reaches_op h j
  rw [hn, Option.map_some] at hop
  obtain ⟨node, hnode, heq⟩ := Option.map_eq_some_iff.1 hop
  refine ⟨node, hnode, heq.trans ?_⟩
  rw [cdefNode]
  dsimp only
  by_cases hname : n.namesVariable = true
  · have hcnt : (gdes n.ptr).dsCnt = 0 := by simpa [Rpnp.hasData, hname] using hdata
    rw [if_pos hname, if_pos hname, if_pos hcnt]
  · rw [if_neg hname, if_neg hname]

lemma rowIndex_cast {v : Gdes} {S : ℤ} {g : ℕ} (hle : v.start ≤ S) (k : ℕ) :
    (rowIndex v S g k : ℤ) = v.rowsBy (S + k * g) := by
  rw [rowIndex, Gdes.rowsBy, Int.natCast_ediv, Nat.cast_add, Int.toNat_of_nonneg (by omega), Nat.cast_mul]
  congr 1
  ring

/-- The pointer of a variable is on the first of its rows that has not ended: before its node is done by the row before,
behind it by this row. -/
lemma reaches_node (hstepped : ∀ v ∈ dataVars gdes p, v.Stepped) (h : CdefReaches m gdes p stack k rpi call st) {j : ℕ}
    {n : Rpnp} (hn : p[j]? = some n) (hdata : n.hasData gdes) :
    ∃ r : ℕ, st.nodes[j]? = some (varNode (gdes n.ptr) n r) ∧
      (r : ℤ) = (gdes n.ptr).rowsBy (if j < rpi then call.dataIdx else call.dataIdx - call.stepWidth) := by
  have hmem : gdes n.ptr ∈ dataVars gdes p := mem_dataVars.2 ⟨n, List.mem_of_getElem? hn, hdata, rfl⟩
  have hname : n.namesVariable = true := by
    rw [Rpnp.hasData, Bool.and_eq_true] at hdata
    exact hdata.1
  obtain ⟨hpos, hvars, hdvdS, -⟩ := cdefTimes_spec hstepped (List.ne_nil_of_mem hmem)
  obtain ⟨hdvd, hle⟩ := hvars _ hmem
  obtain ⟨-, rows, st₀, hrows, rfl, hsteps⟩ := h
  have hnodes := steps_nodes hsteps j
  have hstart : st₀.start.nodes[j]? = st₀.nodes[j]? := rfl
  rw [hstart, steps_rows_nodes hpos hdvdS hn hdata hdvd (hstepped _ hmem) hle hrows, Option.map_some] at hnodes
  have hnow : (rowCall (rrdLcd (cdefTimes gdes p).steparray)
      ((cdefTimes gdes p).start + (k + 1) * (rrdLcd (cdefTimes gdes p).steparray : ℤ)) rows).dataIdx =
      (cdefTimes gdes p).start + ((k + 1 : ℕ) : ℤ) * (rrdLcd (cdefTimes gdes p).steparray : ℤ) := by
    push_cast
    rfl
  split
  · rename_i hlt
    rw [if_pos hlt, advance_varNode hname, hnow] at hnodes
    refine ⟨_, hnodes, ?_⟩
    have hsucc := rowIndex_succ hpos hdvd hdvdS (hstepped _ hmem) hle k
    rw [show (k : ℤ) + 1 = ((k + 1 : ℕ) : ℤ) from (Nat.cast_succ k).symm] at hsucc
    rw [← hsucc, rowIndex_cast hle, hnow]
  · rename_i hge
    rw [if_neg hge] at hnodes
    refine ⟨_, hnodes, ?_⟩
    rw [rowIndex_cast hle, hnow]
    congr 1
    show _ = _ - (rrdLcd (cdefTimes gdes p).steparray : ℤ)
    push_cast
    ring

/-! ### Reads in range -/

/-- Every row that the operator reads through the pointer of a variable is in the data of this variable. -/
@[grind] def ReadsInside (m : Machine) (gdes : ℤ → Gdes) (p : List Rpnp) (rpi : ℕ) (call : Call) (st : CalcRun) : Prop :=
  ∀ t ∈ stepTouches m call rpi st, ∀ n, p[t.1]? = some n → n.hasData gdes → ∀ node, st.nodes[t.1]? = some node →
    0 ≤ node.place t.2 ∧ node.place t.2 < (gdes n.ptr).rowCount * (gdes n.ptr).dsCnt

/-- The rounds of the loop of `OP_TREND`. -/
@[grind] def trendRounds (dur step : ℤ) : ℤ := max 1 ((dur + step - 1) / step)

/-- What the operator looks at is between the start and the end of the window of its variable: for a variable, its window
has not ended before this row; for `PREV`, a row of it has ended before this row, unless this is the first one; for
`TREND`, as many rows have ended as the duration asks for, unless this is asked of more rows of the CDEF than there are;
for `PREDICT`, each shift goes back to a row that has begun, and to one that there is. -/
@[grind] def WindowsInside (m : Machine) (gdes : ℤ → Gdes) (p : List Rpnp) (rpi : ℕ) (call : Call) (st : CalcRun) (n : Rpnp) :
    Prop :=
  match n.op with
  | .variable => n.hasData gdes → (gdes n.ptr).rowsBy (call.dataIdx - call.stepWidth) < (gdes n.ptr).rowCount
  | .prevOther => n.hasData gdes → 0 < call.outputIdx →
    0 < (gdes n.ptr).rowsBy (call.dataIdx - call.stepWidth) ∧
      (gdes n.ptr).rowsBy (call.dataIdx - call.stepWidth) ≤ (gdes n.ptr).rowCount
  | .trend | .trendnan => 2 ≤ rpi → ∀ x, p[rpi - 2]? = some x → x.hasData gdes →
    ∀ dur node, trendDur m (st.nodes[rpi - 2]?) (grow st.stack) = some (dur, node) →
      m.fceil dur (gdes x.ptr).step ≤ call.outputIdx + 1 →
        trendRounds dur (gdes x.ptr).step ≤ (gdes x.ptr).rowsBy call.dataIdx ∧
          (gdes x.ptr).rowsBy call.dataIdx ≤ (gdes x.ptr).rowCount
  | .predict | .predictsigma | .predictperc => ∀ x, p[rpi - 1]? = some x → x.hasData gdes →
    ∀ offset ∈ opPredictOffsets m call (gdes x.ptr).step n.op (grow st.stack),
      offset ≤ (gdes x.ptr).rowsBy call.dataIdx ∧
        (gdes x.ptr).rowsBy call.dataIdx - offset < (gdes x.ptr).rowCount
  | _ => True

/-- A cell of the column of a variable. -/
lemma place_inside_iff {v : Gdes} (hv : v.Stepped) (n : Rpnp) (r : ℕ) (o : ℤ) :
    (0 ≤ (varNode v n r).place o ∧ (varNode v n r).place o < v.rowCount * v.dsCnt) ↔ 0 ≤ r + o ∧ r + o < v.rowCount := by
  have hds : (v.ds : ℤ) < v.dsCnt := by exact_mod_cast hv.ds_lt
  have hds0 : (0 : ℤ) ≤ v.ds := Int.natCast_nonneg _
  have hplace : (varNode v n r).place o = v.ds + (r + o) * v.dsCnt := by
    simp only [CalcNode.place, varNode]
    ring
  rw [hplace]
  generalize (r : ℤ) + o = x
  constructor
  · rintro ⟨hlow, hhigh⟩
    constructor
    · by_contra hneg
      nlinarith
    · by_contra hge
      nlinarith
  · rintro ⟨hlow, hhigh⟩
    constructor
    · positivity
    · nlinarith

lemma trendRounds_more {dur step : ℤ} (hstep : 0 < step) (h : 0 < dur - step) :
    trendRounds dur step = trendRounds (dur - step) step + 1 := by
  have hquot : (dur + step - 1) / step = (dur - step + step - 1) / step + 1 := by
    rw [← Int.add_mul_ediv_right _ 1 hstep.ne']
    congr 1
    ring
  have hone : 1 ≤ (dur - step + step - 1) / step := by
    rw [Int.le_ediv_iff_mul_le hstep]
    linarith
  rw [trendRounds, trendRounds, hquot]
  omega

lemma trendRounds_last {dur step : ℤ} (hstep : 0 < step) (h : ¬ 0 < dur - step) : trendRounds dur step = 1 := by
  have hlt : (dur + step - 1) / step < 2 := by
    rw [Int.ediv_lt_iff_lt_mul hstep]
    linarith
  rw [trendRounds]
  omega

/-- The loop of `OP_TREND` goes back one row in each round. -/
lemma mem_trendOffsets {step : ℤ} (hstep : 0 < step) {fuel : ℕ} {dur i o : ℤ} (hfuel : dur.toNat < fuel) :
    o ∈ trendOffsets step fuel dur i ↔ i - trendRounds dur step < o ∧ o ≤ i := by
  induction fuel generalizing dur i with
  | zero => omega
  | succ fuel ih =>
    rw [trendOffsets, List.mem_cons]
    by_cases hmore : 0 < dur - step
    · have hone : 1 ≤ trendRounds (dur - step) step := le_max_left _ _
      rw [if_pos hmore, ih (by omega), trendRounds_more hstep hmore]
      omega
    · rw [if_neg hmore, trendRounds_last hstep hmore]
      simp only [List.not_mem_nil, or_false]
      omega

/-- The row of a variable that the pointer of its node is on. -/
lemma inside_at_iff (hstepped : ∀ v ∈ dataVars gdes p, v.Stepped) (h : CdefReaches m gdes p stack k rpi call st) {j : ℕ}
    {x : Rpnp} (hx : p[j]? = some x) (hdata : x.hasData gdes) (o : ℤ) :
    (∀ n, p[j]? = some n → n.hasData gdes → ∀ node, st.nodes[j]? = some node →
      0 ≤ node.place o ∧ node.place o < (gdes n.ptr).rowCount * (gdes n.ptr).dsCnt) ↔
      0 ≤ (gdes x.ptr).rowsBy (if j < rpi then call.dataIdx else call.dataIdx - call.stepWidth) + o ∧
        (gdes x.ptr).rowsBy (if j < rpi then call.dataIdx else call.dataIdx - call.stepWidth) + o <
          (gdes x.ptr).rowCount := by
  obtain ⟨r, hnode, hr⟩ := reaches_node hstepped h hx hdata
  have hv : (gdes x.ptr).Stepped := hstepped _ (mem_dataVars.2 ⟨x, List.mem_of_getElem? hx, hdata, rfl⟩)
  rw [← hr, ← place_inside_iff hv x r o]
  constructor
  · exact fun hall => hall x hx hdata _ hnode
  · intro hin n hn _ node hnode'
    obtain rfl := Option.some.inj (hx.symm.trans hn)
    obtain rfl := Option.some.inj (hnode.symm.trans hnode')
    exact hin

/-- Only variables with data have rows. -/
lemma readsInside_of_plain (h : ∀ t ∈ stepTouches m call rpi st, ∀ n, p[t.1]? = some n → ¬ n.hasData gdes) :
    ReadsInside m gdes p rpi call st := fun t ht n hn hdata => absurd hdata (h t ht n hn)

lemma hasData_cases {n : Rpnp} (h : n.hasData gdes) : n.op = .variable ∨ n.op = .prevOther := by
  rw [Rpnp.hasData, Bool.and_eq_true, Rpnp.namesVariable, Bool.or_eq_true, decide_eq_true_eq, decide_eq_true_eq] at h
  exact h.1

lemma stepTouches_eq {node : CalcNode} (h : st.nodes[rpi]? = some node) :
    stepTouches m call rpi st = opTouches m call st.nodes rpi node (grow st.stack) := by
  rw [stepTouches, h]

lemma dsCnt_ne_zero {n : Rpnp} (h : n.hasData gdes) : ((gdes n.ptr).dsCnt : ℤ) ≠ 0 := by
  rw [Rpnp.hasData, Bool.and_eq_true, decide_eq_true_eq] at h
  exact_mod_cast h.2

/-- A variable, or its value before. -/
lemma readsInside_variable (hstepped : ∀ v ∈ dataVars gdes p, v.Stepped) (h : CdefReaches m gdes p stack k rpi call st)
    {n : Rpnp} (hn : p[rpi]? = some n) (hdata : n.hasData gdes) :
    ReadsInside m gdes p rpi call st ↔ WindowsInside m gdes p rpi call st n := by
  obtain ⟨r, hnode, hr⟩ := reaches_node hstepped h hn hdata
  have hcnt : (varNode (gdes n.ptr) n r).dsCnt ≠ 0 := dsCnt_ne_zero hdata
  have hinside := inside_at_iff hstepped h hn hdata
  rw [if_neg (lt_irrefl rpi)] at hinside hr
  rw [ReadsInside, stepTouches_eq hnode]
  obtain hop | hop := hasData_cases hdata
  · have htouches : opTouches m call st.nodes rpi (varNode (gdes n.ptr) n r) (grow st.stack) = [(rpi, 0)] := by
      simp only [opTouches, show (varNode (gdes n.ptr) n r).op = .variable from hop, if_neg hcnt]
    rw [htouches, List.forall_mem_singleton, hinside]
    simp only [WindowsInside, hop, hdata, true_implies]
    omega
  · have htouches : opTouches m call st.nodes rpi (varNode (gdes n.ptr) n r) (grow st.stack) =
        if call.outputIdx ≤ 0 then [] else [(rpi, -1)] := by
      simp only [opTouches, show (varNode (gdes n.ptr) n r).op = .prevOther from hop, hcnt, false_or]
    rw [htouches]
    simp only [WindowsInside, hop, hdata, true_implies]
    split
    · rename_i hidx
      exact iff_of_true (fun t ht => absurd ht List.not_mem_nil) fun hpos => absurd hpos (not_lt.2 hidx)
    · rename_i hidx
      rw [List.forall_mem_singleton, hinside]
      omega

/-- The reads of the rows of the variable `j` at the given distances. -/
lemma readsInside_map (hstepped : ∀ v ∈ dataVars gdes p, v.Stepped) (h : CdefReaches m gdes p stack k rpi call st)
    {j : ℕ} (hj : j < rpi) {offsets : List ℤ} (htouches : stepTouches m call rpi st = offsets.map fun o => (j, o)) :
    ReadsInside m gdes p rpi call st ↔ ∀ x, p[j]? = some x → x.hasData gdes → ∀ o ∈ offsets,
      0 ≤ (gdes x.ptr).rowsBy call.dataIdx + o ∧ (gdes x.ptr).rowsBy call.dataIdx + o < (gdes x.ptr).rowCount := by
  rw [ReadsInside, htouches, List.forall_mem_map]
  constructor
  · intro hall x hx hdata o ho
    have hinside := (inside_at_iff hstepped h hx hdata o).1 (hall o ho)
    rwa [if_pos hj] at hinside
  · intro hall o ho x hx hdata
    have hinside := (inside_at_iff hstepped h hx hdata o).2
    rw [if_pos hj] at hinside
    exact hinside (hall x hx hdata o ho) x hx hdata

lemma trendDur_node {var node : CalcNode} {st : CalcState} {dur : ℤ} (h : trendDur m (some var) st = some (dur, node)) :
    node = var := by
  rw [trendDur] at h
  split at h
  · cases h
  · split at h
    · cases h
    · exact (Prod.mk.inj (Option.some.inj h)).2.symm

/-- `TREND` goes back through the rows of the variable two places before it. -/
lemma readsInside_trend (hstepped : ∀ v ∈ dataVars gdes p, v.Stepped) (h : CdefReaches m gdes p stack k rpi call st)
    {n : Rpnp} {node : CalcNode} (hnode : st.nodes[rpi]? = some node) (hop : node.op = n.op)
    (hn : n.op = .trend ∨ n.op = .trendnan) :
    ReadsInside m gdes p rpi call st ↔ WindowsInside m gdes p rpi call st n := by
  have htouches : stepTouches m call rpi st = (opTrendOffsets m call (if rpi < 2 then none else st.nodes[rpi - 2]?)
      (grow st.stack)).map fun i => (rpi - 2, i) := by
    rw [stepTouches_eq hnode, opTouches]
    obtain hop' | hop' := hn
    · simp only [hop, hop']
    · simp only [hop, hop']
  have hwindows : WindowsInside m gdes p rpi call st n ↔ 2 ≤ rpi → ∀ x, p[rpi - 2]? = some x → x.hasData gdes →
      ∀ dur node, trendDur m (st.nodes[rpi - 2]?) (grow st.stack) = some (dur, node) →
        m.fceil dur (gdes x.ptr).step ≤ call.outputIdx + 1 →
          trendRounds dur (gdes x.ptr).step ≤ (gdes x.ptr).rowsBy call.dataIdx ∧
            (gdes x.ptr).rowsBy call.dataIdx ≤ (gdes x.ptr).rowCount := by
    obtain hop' | hop' := hn
    · simp only [WindowsInside, hop']
    · simp only [WindowsInside, hop']
  rw [hwindows]
  by_cases hrpi : rpi < 2
  · rw [if_pos hrpi] at htouches
    have hnil : stepTouches m call rpi st = [] := htouches
    refine iff_of_true (fun t ht => ?_) fun hle => absurd hle (not_le.2 hrpi)
    rw [hnil] at ht
    exact absurd ht List.not_mem_nil
  · rw [if_neg hrpi] at htouches
    rw [readsInside_map hstepped h (by omega) htouches, forall_prop_of_true (not_lt.1 hrpi)]
    refine forall_congr' fun x => forall_congr' fun hx => forall_congr' fun hdata => ?_
    obtain ⟨r, hvar, -⟩ := reaches_node hstepped h hx hdata
    have hv : (gdes x.ptr).Stepped := hstepped _ (mem_dataVars.2 ⟨x, List.mem_of_getElem? hx, hdata, rfl⟩)
    have hstep : (0 : ℤ) < (gdes x.ptr).step := by exact_mod_cast hv.step_pos
    rw [opTrendOffsets]
    cases hdur : trendDur m (st.nodes[rpi - 2]?) (grow st.stack) with
    | none =>
      refine iff_of_true (fun o ho => absurd ho List.not_mem_nil) fun dur node hsome => ?_
      cases hsome
    | some d =>
      obtain ⟨dur, node'⟩ := d
      obtain rfl : node' = varNode (gdes x.ptr) x r := trendDur_node (hvar ▸ hdur)
      have hone : 1 ≤ trendRounds dur (gdes x.ptr).step := le_max_left _ _
      have hdurs : (∀ d node, some (dur, varNode (gdes x.ptr) x r) = some (d, node) →
          m.fceil d (gdes x.ptr).step ≤ call.outputIdx + 1 →
            trendRounds d (gdes x.ptr).step ≤ (gdes x.ptr).rowsBy call.dataIdx ∧
              (gdes x.ptr).rowsBy call.dataIdx ≤ (gdes x.ptr).rowCount) ↔
          (m.fceil dur (gdes x.ptr).step ≤ call.outputIdx + 1 →
            trendRounds dur (gdes x.ptr).step ≤ (gdes x.ptr).rowsBy call.dataIdx ∧
              (gdes x.ptr).rowsBy call.dataIdx ≤ (gdes x.ptr).rowCount) := by
        refine ⟨fun hall => hall dur _ rfl, fun hin d node hsome => ?_⟩
        obtain ⟨rfl, -⟩ := Prod.mk.inj (Option.some.inj hsome)
        exact hin
      rw [hdurs]
      show (∀ o ∈ if m.fceil dur (gdes x.ptr).step ≤ call.outputIdx + 1 then
        trendOffsets (gdes x.ptr).step (dur.toNat + 1) dur (-1) else [], _) ↔ _
      split
      · rename_i hrows
        rw [forall_prop_of_true hrows]
        simp only [mem_trendOffsets hstep (Nat.lt_succ_self dur.toNat)]
        -- the first row that is read is the last one that has ended
        constructor
        · intro hall
          have hlast := hall (-1) ⟨by omega, le_rfl⟩
          have hfirst := hall (-trendRounds dur (gdes x.ptr).step) ⟨by omega, by omega⟩
          omega
        · rintro ⟨hlow, hhigh⟩ o ⟨hfirst, hlast⟩
          omega
      · rename_i hrows
        exact iff_of_true (fun o ho => absurd ho List.not_mem_nil) fun hle => absurd hle hrows

/-- `PREDICT` goes back through the rows of the variable before it. -/
lemma readsInside_predict (hstepped : ∀ v ∈ dataVars gdes p, v.Stepped) (h : CdefReaches m gdes p stack k rpi call st)
    {n : Rpnp} (hn : p[rpi]? = some n) (hdata : ¬ n.hasData gdes) {node : CalcNode} (hnode : st.nodes[rpi]? = some node)
    (hop : node.op = n.op) (hpredict : n.op = .predict ∨ n.op = .predictsigma ∨ n.op = .predictperc) :
    ReadsInside m gdes p rpi call st ↔ WindowsInside m gdes p rpi call st n := by
  have htouches : stepTouches m call rpi st = (opPredictOffsets m call ((st.nodes[rpi - 1]?).getD node).step n.op
      (grow st.stack)).map fun offset => (rpi - 1, -offset) := by
    rw [stepTouches_eq hnode, opTouches]
    obtain hop' | hop' | hop' := hpredict
    · simp only [hop, hop']
    · simp only [hop, hop']
    · simp only [hop, hop']
  have hwindows : WindowsInside m gdes p rpi call st n ↔ ∀ x, p[rpi - 1]? = some x → x.hasData gdes →
      ∀ offset ∈ opPredictOffsets m call (gdes x.ptr).step n.op (grow st.stack),
        offset ≤ (gdes x.ptr).rowsBy call.dataIdx ∧
          (gdes x.ptr).rowsBy call.dataIdx - offset < (gdes x.ptr).rowCount := by
    obtain hop' | hop' | hop' := hpredict
    · simp only [WindowsInside, hop']
    · simp only [WindowsInside, hop']
    · simp only [WindowsInside, hop']
  rw [hwindows]
  obtain rfl | hrpi := Nat.eq_zero_or_pos rpi
  · refine iff_of_true (readsInside_of_plain fun t ht x hx => ?_) fun x hx hdata' => ?_
    · rw [htouches] at ht
      obtain ⟨o, -, rfl⟩ := List.mem_map.1 ht
      exact Option.some.inj (hn.symm.trans hx) ▸ hdata
    · exact absurd hdata' (Option.some.inj (hn.symm.trans hx) ▸ hdata)
  · rw [show (fun offset : ℤ => (rpi - 1, -offset)) = (fun o => (rpi - 1, o)) ∘ fun offset => -offset from rfl,
      ← List.map_map] at htouches
    rw [readsInside_map hstepped h (by omega) htouches]
    refine forall_congr' fun x => forall_congr' fun hx => forall_congr' fun hdata' => ?_
    obtain ⟨r, hvar, -⟩ := reaches_node hstepped h hx hdata'
    rw [hvar, Option.getD_some, List.forall_mem_map]
    refine forall_congr' fun o => forall_congr' fun _ => ?_
    omega

/-- The other operators read nothing. -/
lemma readsInside_other {n : Rpnp} {node : CalcNode} (hnode : st.nodes[rpi]? = some node)
    (hop : node.op = if n.namesVariable then .number else n.op) (hdata : ¬ n.hasData gdes)
    (htrend : ¬ (n.op = .trend ∨ n.op = .trendnan))
    (hpredict : ¬ (n.op = .predict ∨ n.op = .predictsigma ∨ n.op = .predictperc)) :
    ReadsInside m gdes p rpi call st ↔ WindowsInside m gdes p rpi call st n := by
  rw [not_or] at htrend
  rw [not_or, not_or] at hpredict
  have hname : n.namesVariable = true ↔ n.op = .variable ∨ n.op = .prevOther := by simp [Rpnp.namesVariable]
  have hnil : stepTouches m call rpi st = [] := by
    rw [stepTouches_eq hnode, opTouches, hop]
    by_cases hvar : n.namesVariable = true
    · rw [if_pos hvar]
    · rw [if_neg hvar]
      rw [hname, not_or] at hvar
      split <;> simp_all
  refine iff_of_true (fun t ht => ?_) ?_
  · rw [hnil] at ht
    exact absurd ht List.not_mem_nil
  · unfold WindowsInside
    split <;> simp_all

/-- An operator reads in range exactly if the windows allow it. -/
lemma readsInside_iff (hstepped : ∀ v ∈ dataVars gdes p, v.Stepped) (h : CdefReaches m gdes p stack k rpi call st) :
    ReadsInside m gdes p rpi call st ↔ ∀ n, p[rpi]? = some n → WindowsInside m gdes p rpi call st n := by
  cases hn : p[rpi]? with
  | none =>
    have hop := reaches_op h rpi
    rw [hn, Option.map_none, Option.map_eq_none_iff] at hop
    refine iff_of_true (fun t ht => ?_) fun n hn' => absurd hn' (Option.some_ne_none n).symm
    rw [stepTouches, hop] at ht
    exact absurd ht List.not_mem_nil
  | some n =>
    have hone : ReadsInside m gdes p rpi call st ↔ WindowsInside m gdes p rpi call st n := by
      by_cases hdata : n.hasData gdes
      · exact readsInside_variable hstepped h hn hdata
      · obtain ⟨node, hnode, hop⟩ := reaches_plain h hn hdata
        by_cases htrend : n.op = .trend ∨ n.op = .trendnan
        · have hname : ¬ n.namesVariable = true := by
            obtain hop' | hop' := htrend
            · simp [Rpnp.namesVariable, hop']
            · simp [Rpnp.namesVariable, hop']
          exact readsInside_trend hstepped h hnode (hop.trans (if_neg hname)) htrend
        · by_cases hpredict : n.op = .predict ∨ n.op = .predictsigma ∨ n.op = .predictperc
          · have hname : ¬ n.namesVariable = true := by
              obtain hop' | hop' | hop' := hpredict
              · simp [Rpnp.namesVariable, hop']
              · simp [Rpnp.namesVariable, hop']
              · simp [Rpnp.namesVariable, hop']
            exact readsInside_predict hstepped h hn hdata hnode (hop.trans (if_neg hname)) hpredict
          · exact readsInside_other hnode hop hdata htrend hpredict
    rw [hone]
    exact ⟨fun hin n' hn' => Option.some.inj hn' ▸ hin, fun hall => hall n rfl⟩

end Run

/-- Every read that a CDEF makes through the data pointers, at every operator of every row, is in the data of its
variable exactly if at each of them what it looks at is between the start and the end of the window of the variable. -/
theorem dataCalc_reads_iff (m : Machine) (gdes : ℤ → Gdes) (p : List Rpnp) (stack : CalcState)
    (hstepped : ∀ v ∈ dataVars gdes p, v.Stepped) :
    (∀ k rpi call st, CdefReaches m gdes p stack k rpi call st → ReadsInside m gdes p rpi call st) ↔
      ∀ k rpi call st, CdefReaches m gdes p stack k rpi call st →
        ∀ n, p[rpi]? = some n → WindowsInside m gdes p rpi call st n := by
  constructor
  · intro hall k rpi call st h
    exact (readsInside_iff hstepped h).1 (hall k rpi call st h)
  · intro hall k rpi call st h
    exact (readsInside_iff hstepped h).2 (hall k rpi call st h)

/-- The sum of two variables with steps of 300 and 200 seconds reads in range, from the first operator of the first row
on. -/
theorem dataCalc_reads_sum :
    (∃ call st, CdefReaches bareMachine twoSteps [.variable 0, .variable 1, .plain .add] ⟨fun _ => .nan, -1, 0⟩ 0 0 call st) ∧
      ∀ k rpi call st,
        CdefReaches bareMachine twoSteps [.variable 0, .variable 1, .plain .add] ⟨fun _ => .nan, -1, 0⟩ k rpi call st →
          ReadsInside bareMachine twoSteps [.variable 0, .variable 1, .plain .add] rpi call st := by
  refine ⟨⟨_, _, by decide, [], _, rfl, rfl, rfl⟩, ?_⟩
  have hstepped : ∀ v ∈ dataVars twoSteps [.variable 0, .variable 1, .plain .add], v.Stepped := by
    rintro v (_ | ⟨_, _ | ⟨_, ⟨⟩⟩⟩)
    · exact ⟨by decide, by decide, by decide, by decide⟩
    · exact ⟨by decide, by decide, by decide, by decide⟩
  refine (dataCalc_reads_iff _ _ _ _ hstepped).2 fun k rpi call st h n hn => ?_
  obtain ⟨hk, rows, st₀, -, rfl, -⟩ := h
  have hrow : (k : ℤ) < 6 := hk
  match rpi with
  | 0 =>
    obtain rfl := Option.some.inj hn
    intro _
    show (600 + ((k : ℤ) + 1) * 100 - 100 - 600) / 300 < 2
    omega
  | 1 =>
    obtain rfl := Option.some.inj hn
    intro _
    show (600 + ((k : ℤ) + 1) * 100 - 100 - 600) / 200 < 3
    omega
  | 2 =>
    obtain rfl := Option.some.inj hn
    exact trivial
  | rpi + 3 => cases hn

/-- A variable with a step of 300 seconds and one with a step of 100 seconds. -/
def mixedSteps (ptr : ℤ) : Gdes :=
  if ptr = 0 then ⟨600, 1200, 300, 0, 1, fun i => .fin i, .nan⟩ else ⟨600, 1200, 100, 0, 1, fun i => .fin i, .nan⟩

/-- In the second row, `PREV` of the first variable reads in front of its data: the CDEF has a row before it, the
variable has not. -/
theorem dataCalc_reads_prev : ¬ ∀ m gdes p stack, (∀ v ∈ dataVars gdes p, v.Aligned) →
    ∀ k rpi call st, CdefReaches m gdes p stack k rpi call st → ReadsInside m gdes p rpi call st := by
  intro hall
  have haligned : ∀ v ∈ dataVars mixedSteps [.prevOther 0, .variable 1, .plain .add], v.Aligned := by
    rintro v (_ | ⟨_, _ | ⟨_, ⟨⟩⟩⟩)
    · exact ⟨by decide, by decide, by decide, by decide, by decide, by decide⟩
    · exact ⟨by decide, by decide, by decide, by decide, by decide, by decide⟩
  have hfirst : (steps (rowStep bareMachine 600 100) 1
      ([], ⟨⟨fun _ => .nan, -1, 0⟩, [.prevOther 0, .variable 1, .plain .add].map (cdefNode mixedSteps 600)⟩)).isOk := by
    decide
  cases hrows : steps (rowStep bareMachine 600 100) 1
      ([], ⟨⟨fun _ => .nan, -1, 0⟩, [.prevOther 0, .variable 1, .plain .add].map (cdefNode mixedSteps 600)⟩) with
  | error e =>
    rw [hrows] at hfirst
    cases hfirst
  | ok acc =>
    have hreaches : CdefReaches bareMachine mixedSteps [.prevOther 0, .variable 1, .plain .add] ⟨fun _ => .nan, -1, 0⟩ 1 0
        (rowCall 100 800 acc.1) acc.2.start := ⟨by decide, acc.1, acc.2, hrows, rfl, rfl⟩
    have hlen : acc.1.length = 1 := steps_rows_length hrows
    have hinside := (readsInside_iff (fun v hv => (haligned v hv).stepped) hreaches).1
      (hall _ _ _ _ haligned _ _ _ _ hreaches) _ rfl
    have hended := hinside rfl (show (0 : ℤ) < acc.1.length by omega)
    exact absurd hended.1 (show ¬ (0 : ℤ) < (800 - 100 - 600) / 300 by decide)

end Rrdtool
