import Rrdtool.Rpn.Calc

/-!
# What the calculator reads of its variables

The rows of the data of a variable that an operator of `rpn_calc` reads through the data pointer, relative to the row
that the pointer is on (`stepTouches`). Nothing else of the data has an effect on what the operator does
(`calcStep_congr`).
-/

namespace Rrdtool

open Checked

section Touches

variable (m : Machine) (call : Call)

/-- The offsets into the data that `OP_PREDICT` looks at for one shift. -/
def shiftOffsets (shiftstep locstep : ℤ) : List ℤ :=
  ((List.range (locstep + 1).toNat).map fun i => shiftstep + (i : ℤ)).filter fun offset =>
    0 ≤ offset ∧ offset < call.outputIdx

/-- The offsets for all shifts, up to one that is negative. -/
def predictOffsets (step : ℤ) (st : CalcState) (top shifts locstep : ℤ) : ℕ → ℕ → List ℤ
  | 0, _ => []
  | n + 1, loop =>
    match if shifts < 0 then rd st st.stptr st.stptr else rd st top (st.stptr + loop) with
    | .error _ => []
    | .ok x =>
      let shiftstep := toInt m (if shifts < 0 then .fin loop * x else x)
      if shiftstep < 0 then []
      else shiftOffsets call (m.fceil shiftstep step) locstep ++ predictOffsets step st top shifts locstep n (loop + 1)

/-- The window and the shifts of `OP_PREDICT`, with the stack behind them. -/
def predictArgs (step : ℤ) (st : CalcState) : Calc (ℤ × ℤ × ℤ × CalcState) := do
  stackunderflow st 2
  let st := st.to (st.stptr - 1)
  let locstepsize := toInt m (← rd st st.stptr st.stptr)
  let st := st.to (st.stptr - 1)
  let shifts := toInt m (← rd st st.stptr st.stptr)
  stackunderflow st shifts
  let top := st.stptr
  .ok (top, shifts, m.fceil locstepsize step, st.to (if shifts < 0 then top - 1 else top - shifts))

/-- The offsets of `OP_PREDICT`, `OP_PREDICTSIGMA` and `OP_PREDICTPERC`. -/
def opPredictOffsets (step : ℤ) (op : RpnOp) (st : CalcState) : List ℤ :=
  match takePercentile op st >>= fun p => predictArgs m step p.2 with
  | .error _ => []
  | .ok (top, shifts, locstep, st) => predictOffsets m call step st top shifts locstep shifts.natAbs 0

/-- The offsets of the loop of `OP_TREND`. -/
@[grind] def trendOffsets (step : ℤ) : ℕ → ℤ → ℤ → List ℤ
  | 0, _, _ => []
  | fuel + 1, dur, i => i :: if 0 < dur - step then trendOffsets step fuel (dur - step) (i - 1) else []

/-- The duration of `OP_TREND`, when the stack and the variable are as they should be. -/
@[grind] def trendDur (var : Option CalcNode) (st : CalcState) : Option (ℤ × CalcNode) :=
  match var with
  | none => none
  | some var =>
    if st.stptr < 1 ∨ var.op ≠ .variable then none
    else match rd st st.stptr st.stptr with
      | .error _ => none
      | .ok x => some (toTime m x, var)

/-- The offsets of `OP_TREND` and `OP_TRENDNAN`. -/
@[grind] def opTrendOffsets (var : Option CalcNode) (st : CalcState) : List ℤ :=
  match trendDur m var st with
  | none => []
  | some (dur, var) =>
    if m.fceil dur var.step ≤ call.outputIdx + 1 then trendOffsets var.step (dur.toNat + 1) dur (-1) else []

/-- The rows that an operator reads: the node with the data pointer, and the distance from its row. -/
@[grind] def opTouches (nodes : List CalcNode) (rpi : ℕ) (n : CalcNode) (st : CalcState) : List (ℕ × ℤ) :=
  match n.op with
  | .variable => if n.dsCnt = 0 then [] else [(rpi, 0)]
  | .prevOther => if n.dsCnt = 0 ∨ call.outputIdx ≤ 0 then [] else [(rpi, -1)]
  | .predict | .predictsigma | .predictperc =>
    (opPredictOffsets m call ((nodes[rpi - 1]?).getD n).step n.op st).map fun offset => (rpi - 1, -offset)
  | .trend | .trendnan =>
    (opTrendOffsets m call (if rpi < 2 then none else nodes[rpi - 2]?) st).map fun i => (rpi - 2, i)
  | _ => []

/-- The rows that a round of `rpn_calc` reads. -/
@[grind] def stepTouches (rpi : ℕ) (st : CalcRun) : List (ℕ × ℤ) :=
  match st.nodes[rpi]? with
  | none => []
  | some n => opTouches m call st.nodes rpi n (grow st.stack)

end Touches

/-! ### Nothing else is read -/

section Congr

variable {m : Machine} {call : Call} {prev : CalcNode} {d : ℤ → RrdValue} {st : CalcState} {step top shifts locstep : ℤ}

/-- Where a row of a variable is in its data. -/
@[grind] def CalcNode.place (n : CalcNode) (offset : ℤ) : ℤ := n.pos + n.dsCnt * offset

lemma shiftVals_eq (shiftstep : ℤ) :
    shiftVals call prev shiftstep locstep = (shiftOffsets call shiftstep locstep).filterMap fun offset =>
      let val := prev.data (prev.place (-offset))
      if val.isnan then none else some val := by
  rw [shiftVals, shiftOffsets, List.filterMap_filter, List.filterMap_map]
  refine List.filterMap_congr fun i _ => ?_
  have hplace : prev.place (-(shiftstep + i)) = prev.pos - prev.dsCnt * (shiftstep + i) := by
    unfold CalcNode.place
    ring
  simp only [Function.comp_apply, hplace, decide_eq_true_eq]

lemma shiftVals_congr {shiftstep : ℤ}
    (h : ∀ offset ∈ shiftOffsets call shiftstep locstep, d (prev.place (-offset)) = prev.data (prev.place (-offset))) :
    shiftVals call { prev with data := d } shiftstep locstep = shiftVals call prev shiftstep locstep := by
  rw [shiftVals_eq, shiftVals_eq]
  refine List.filterMap_congr fun offset hoffset => ?_
  have hplace : CalcNode.place { prev with data := d } (-offset) = prev.place (-offset) := rfl
  simp only [hplace, h offset hoffset]

lemma predictLoop_succ (n loop : ℕ) :
    predictLoop m call prev st top shifts locstep (n + 1) loop =
      (if shifts < 0 then rd st st.stptr st.stptr else rd st top (st.stptr + loop)) >>= fun x =>
        let shiftstep := toInt m (if shifts < 0 then .fin loop * x else x)
        if shiftstep < 0 then .error (.error (.shiftStep shiftstep))
        else predictLoop m call prev st top shifts locstep n (loop + 1) >>= fun vals =>
          .ok (shiftVals call prev (m.fceil shiftstep prev.step) locstep ++ vals) := by
  rw [predictLoop]
  split
  · rfl
  · rfl

lemma predictLoop_congr {n loop : ℕ}
    (h : ∀ offset ∈ predictOffsets m call prev.step st top shifts locstep n loop,
      d (prev.place (-offset)) = prev.data (prev.place (-offset))) :
    predictLoop m call { prev with data := d } st top shifts locstep n loop =
      predictLoop m call prev st top shifts locstep n loop := by
  induction n generalizing loop with
  | zero => rfl
  | succ n ih =>
    rw [predictLoop_succ, predictLoop_succ]
    rw [predictOffsets] at h
    cases hx : (if shifts < 0 then rd st st.stptr st.stptr else rd st top (st.stptr + loop)) with
    | error e => rfl
    | ok x =>
      simp only [hx] at h
      simp only [ok_bind]
      generalize toInt m (if shifts < 0 then .fin loop * x else x) = shiftstep at h ⊢
      split
      · rfl
      · rename_i hneg
        rw [if_neg hneg] at h
        rw [ih fun offset hoffset => h offset (List.mem_append_right _ hoffset),
          shiftVals_congr fun offset hoffset => h offset (List.mem_append_left _ hoffset)]

/-- The operator after its arguments. -/
lemma predictShifts_eq (op : RpnOp) (percentile : RrdValue) :
    predictShifts m call prev op percentile st =
      predictArgs m prev.step st >>= fun a =>
        predictLoop m call prev a.2.2.2 a.1 a.2.1 a.2.2.1 a.2.1.natAbs 0 >>= fun vals =>
          wr a.2.2.2 a.2.2.2.stptr (predictVal m op percentile vals) := by
  simp only [predictShifts, predictArgs, bind_assoc, ok_bind]

lemma opPredict_congr {op : RpnOp}
    (h : ∀ offset ∈ opPredictOffsets m call prev.step op st, d (prev.place (-offset)) = prev.data (prev.place (-offset))) :
    opPredict m call { prev with data := d } op st = opPredict m call prev op st := by
  rw [opPredictOffsets] at h
  rw [opPredict, opPredict]
  cases hp : takePercentile op st with
  | error e => rfl
  | ok p =>
    rw [hp, ok_bind] at h
    simp only [ok_bind, predictShifts_eq]
    cases ha : predictArgs m prev.step p.2 with
    | error e => rfl
    | ok a =>
      rw [ha] at h
      simp only [ok_bind]
      rw [predictLoop_congr h]

/-! ### `OP_TREND` -/

lemma trendLoop_congr {ignorenan : Bool} {fuel : ℕ} {dur i : ℤ} {accum : RrdValue} {count : ℕ}
    (h : ∀ o ∈ trendOffsets step fuel dur i, d (prev.place o) = prev.data (prev.place o)) :
    trendLoop { prev with data := d } ignorenan step fuel dur i accum count =
      trendLoop prev ignorenan step fuel dur i accum count := by
  induction fuel generalizing dur i accum count with
  | zero => rfl
  | succ fuel ih =>
    rw [trendOffsets] at h
    have hval : d (prev.pos + prev.dsCnt * i) = prev.data (prev.pos + prev.dsCnt * i) := h i List.mem_cons_self
    simp only [trendLoop, hval]
    split
    · rename_i hmore
      rw [if_pos hmore] at h
      exact ih fun o ho => h o (List.mem_cons_of_mem i ho)
    · rfl

lemma opTrend_congr {op : RpnOp} {var : Option CalcNode}
    (h : ∀ n, var = some n → ∀ o ∈ opTrendOffsets m call var st, d (n.place o) = n.data (n.place o)) :
    opTrend m call (var.map fun n => { n with data := d }) op st = opTrend m call var op st := by
  cases var with
  | none => rfl
  | some n =>
    have hn := h n rfl
    rw [Option.map_some, opTrend, opTrend, stackunderflow]
    split
    · rfl
    · rename_i hstptr
      rw [ok_bind, ok_bind]
      dsimp only
      split
      · rfl
      · rename_i hop
        cases hx : rd st st.stptr st.stptr with
        | error e => rfl
        | ok x =>
          have hdur : trendDur m (some n) st = some (toTime m x, n) := by
            rw [trendDur, if_neg (not_or.2 ⟨hstptr, hop⟩), hx]
          rw [opTrendOffsets, hdur] at hn
          simp only [ok_bind]
          split
          · rename_i hrows
            simp only [if_pos hrows] at hn
            rw [trendLoop_congr hn]
          · rfl

end Congr

section Step

variable {m : Machine} {call : Call} {rpi : ℕ} {st : CalcRun}

/-- The program with other data. -/
def withData (d : ℕ → ℤ → RrdValue) (nodes : List CalcNode) : List CalcNode :=
  nodes.mapIdx fun j n => { n with data := d j }

lemma getElem?_withData (d : ℕ → ℤ → RrdValue) (nodes : List CalcNode) (j : ℕ) :
    (withData d nodes)[j]? = (nodes[j]?).map fun n => { n with data := d j } := List.getElem?_mapIdx

lemma opPredict_withData {d : ℕ → ℤ → RrdValue} {nodes : List CalcNode} {n : CalcNode} {op : RpnOp} {st : CalcState}
    (hn : nodes[rpi]? = some n)
    (h : ∀ offset ∈ opPredictOffsets m call ((nodes[rpi - 1]?).getD n).step op st, ∀ n', nodes[rpi - 1]? = some n' →
      d (rpi - 1) (n'.place (-offset)) = n'.data (n'.place (-offset))) :
    opPredict m call (((withData d nodes)[rpi - 1]?).getD { n with data := d rpi }) op st =
      opPredict m call ((nodes[rpi - 1]?).getD n) op st := by
  obtain ⟨hlt, -⟩ := List.getElem?_eq_some_iff.1 hn
  obtain ⟨n', hn'⟩ : ∃ n', nodes[rpi - 1]? = some n' := ⟨_, List.getElem?_eq_getElem (Nat.lt_of_le_of_lt (Nat.sub_le _ _) hlt)⟩
  rw [getElem?_withData, hn', Option.map_some, Option.getD_some, Option.getD_some]
  rw [hn', Option.getD_some] at h
  exact opPredict_congr fun offset hoffset => h offset hoffset n' rfl

lemma opTrend_withData {d : ℕ → ℤ → RrdValue} {nodes : List CalcNode} {op : RpnOp} {st : CalcState}
    (h : ∀ n, nodes[rpi - 2]? = some n → ∀ o ∈ opTrendOffsets m call (if rpi < 2 then none else nodes[rpi - 2]?) st,
      d (rpi - 2) (n.place o) = n.data (n.place o)) :
    opTrend m call (if rpi < 2 then none else (withData d nodes)[rpi - 2]?) op st =
      opTrend m call (if rpi < 2 then none else nodes[rpi - 2]?) op st := by
  rw [getElem?_withData]
  split
  · rfl
  · rename_i hrpi
    rw [if_neg hrpi] at h
    exact opTrend_congr h

/-- An operator does the same with other data, unless the rows differ that it reads. -/
lemma calcOp_withData {d : ℕ → ℤ → RrdValue} {nodes : List CalcNode} {n : CalcNode} {st : CalcState}
    (hn : nodes[rpi]? = some n)
    (h : ∀ t ∈ opTouches m call nodes rpi n st, ∀ n', nodes[t.1]? = some n' → d t.1 (n'.place t.2) = n'.data (n'.place t.2)) :
    calcOp m call (withData d nodes) rpi { n with data := d rpi } st = calcOp m call nodes rpi n st := by
  obtain ⟨op, val, data, pos, dsCnt, step⟩ := n
  cases op with
  | «variable» =>
    show opVariable call _ st = opVariable call _ st
    rw [opVariable, opVariable]
    dsimp only
    split
    · rfl
    · rename_i hcnt
      have hrow : d rpi (pos + dsCnt * 0) = data (pos + dsCnt * 0) :=
        h (rpi, 0) (by rw [opTouches, if_neg hcnt]; exact List.mem_cons_self) _ hn
      rw [mul_zero, add_zero] at hrow
      rw [if_pos rfl, if_pos rfl, hrow]
  | prevOther =>
    show opVariable call _ st = opVariable call _ st
    rw [opVariable, opVariable]
    dsimp only
    split
    · rfl
    · rename_i hcnt
      simp only [reduceCtorEq, if_false]
      split
      · rfl
      · rename_i hidx
        have hrow : d rpi (pos + dsCnt * -1) = data (pos + dsCnt * -1) :=
          h (rpi, -1) (by rw [opTouches, if_neg (not_or.2 ⟨hcnt, hidx⟩)]; exact List.mem_cons_self) _ hn
        rw [mul_neg, mul_one, ← sub_eq_add_neg] at hrow
        rw [hrow]
  | predict | predictsigma | predictperc =>
    exact opPredict_withData hn fun offset hoffset n' hn' =>
      h (rpi - 1, -offset) (List.mem_map_of_mem (f := fun offset => (rpi - 1, -offset)) hoffset) n' hn'
  | trend | trendnan =>
    exact opTrend_withData fun n' hn' o ho => h (rpi - 2, o) (List.mem_map_of_mem (f := fun o => (rpi - 2, o)) ho) n' hn'
  | _ => rfl

/-- A round of `rpn_calc` does the same with other data, unless the rows differ that it reads. -/
theorem calcStep_congr {d : ℕ → ℤ → RrdValue}
    (h : ∀ t ∈ stepTouches m call rpi st, ∀ n, st.nodes[t.1]? = some n → d t.1 (n.place t.2) = n.data (n.place t.2)) :
    (calcStep m call rpi ⟨st.stack, withData d st.nodes⟩).map CalcRun.stack = (calcStep m call rpi st).map CalcRun.stack := by
  rw [stepTouches] at h
  rw [calcStep, calcStep, getElem?_withData]
  cases hn : st.nodes[rpi]? with
  | none => rfl
  | some n =>
    rw [hn] at h
    rw [Option.map_some]
    dsimp only
    rw [calcOp_withData hn h]
    cases calcOp m call st.nodes rpi n (grow st.stack) with
    | error e => rfl
    | ok stack => rfl

end Step

end Rrdtool
