import Rrdtool.Rpn.Calc

/-!
# The rows of a CDEF

Port of `data_calc` and `rrd_lcd` (`src/rrd_graph.c`) for a `GF_CDEF`. The data of the variables may have
different steps: the result runs from the latest start to the earliest end, with the greatest common divisor of the
steps, and each variable is read through a pointer of its own. `dataCalc_rows` says how many rows there are, and
that each operand of a row is the value of the variable at the time of that row.
-/

namespace Rrdtool

open Checked

/-- The fields of a graph description (C `graph_desc_t`) that a variable has. -/
structure Gdes where
  start : ℤ
  endTime : ℤ
  step : ℕ
  ds : ℕ
  dsCnt : ℕ
  data : ℤ → RrdValue
  vfVal : RrdValue

/-! ### `rrd_lcd` -/

/-- The inner loop of `rrd_lcd`; the remainder gets smaller. -/
def euclidLoop : ℕ → ℕ → ℕ → ℕ
  | 0, a, _ => a
  | fuel + 1, a, b => if a % b = 0 then b else euclidLoop fuel b (a % b)

/-- The outer loop of `rrd_lcd`, with the number that it has come to. -/
def lcdLoop : ℕ → List ℕ → ℕ
  | a, [] => a
  | a, b :: num => if b = 0 then a else lcdLoop (euclidLoop b a b) num

/-- `rrd_lcd` of the numbers in front of the 0. -/
def rrdLcd : List ℕ → ℕ
  | [] => 0
  | a :: num => lcdLoop a num

/-! ### `data_calc` -/

/-- The nodes that name a variable. -/
@[grind] def Rpnp.namesVariable (n : Rpnp) : Bool := n.op = .variable || n.op = .prevOther

/-- The variables with data, not those of a `VDEF`. -/
@[grind] def Rpnp.hasData (gdes : ℤ → Gdes) (n : Rpnp) : Bool := n.namesVariable && (gdes n.ptr).dsCnt ≠ 0

/-- The times of a CDEF, and the steps of its variables. -/
structure CdefTimes where
  start : ℤ
  endTime : ℤ
  steparray : List ℕ

/-- What one node does to the times. -/
@[grind] def addVariable (gdes : ℤ → Gdes) (t : CdefTimes) (n : Rpnp) : CdefTimes :=
  if n.hasData gdes then
    let g := gdes n.ptr
    { start := if t.start < g.start then g.start else t.start
      endTime := if t.endTime = 0 ∨ g.endTime < t.endTime then g.endTime else t.endTime
      steparray := t.steparray ++ [g.step] }
  else t

/-- The variables in the expression. -/
def cdefTimes (gdes : ℤ → Gdes) (p : List Rpnp) : CdefTimes := p.foldl (addVariable gdes) ⟨0, 0, []⟩

/-- A node with its pointer on the value for the first row. A `VDEF` becomes a number. -/
@[grind] def cdefNode (gdes : ℤ → Gdes) (start : ℤ) (n : Rpnp) : CalcNode :=
  let g := gdes n.ptr
  if n.namesVariable then
    if g.dsCnt = 0 then ⟨.number, g.vfVal, fun _ => .nan, 0, 0, 0⟩
    else
      let diff := start - g.start
      ⟨n.op, n.val, g.data, if 0 < diff then g.ds + diff / g.step * g.dsCnt else g.ds, g.dsCnt, g.step⟩
  else ⟨n.op, n.val, fun _ => .nan, 0, 0, 0⟩

/-- The arguments of `rpn_calc` for a row. -/
def rowCall (step : ℕ) (now : ℤ) (rows : List RrdValue) : Call :=
  ⟨now, fun i => rows.getD i.toNat .nan, rows.length, step⟩

/-- The row at the time `now`. -/
def cdefRow (m : Machine) (step : ℕ) (now : ℤ) (acc : List RrdValue × CalcRun) : Calc (List RrdValue × CalcRun) := do
  let (v, st) ← rpnCalc m (rowCall step now acc.1) acc.2
  .ok (acc.1 ++ [v], st)

/-- The loop over the rows. -/
@[grind] def cdefRows (m : Machine) (endTime : ℤ) (step : ℕ) :
    ℕ → ℤ → List RrdValue × CalcRun → Calc (List RrdValue × CalcRun)
  | 0, _, acc => .ok acc
  | fuel + 1, now, acc =>
    if now ≤ endTime then do
      let acc ← cdefRow m step now acc
      cdefRows m endTime step fuel (now + step) acc
    else .ok acc

/-- The data of a CDEF. -/
structure CdefData where
  start : ℤ
  endTime : ℤ
  step : ℕ
  rows : List RrdValue

/-- `data_calc` for one `GF_CDEF`, with the stack that the CDEFs before it have left. -/
@[grind] def dataCalc (m : Machine) (gdes : ℤ → Gdes) (p : List Rpnp) (stack : CalcState) : Calc CdefData := do
  let t := cdefTimes gdes p
  if t.steparray = [] then .error (.error .noVariable)
  else do
    let step := rrdLcd t.steparray
    let acc ← cdefRows m t.endTime step (t.endTime - t.start).toNat (t.start + step)
      ([], ⟨stack, p.map (cdefNode gdes t.start)⟩)
    .ok ⟨t.start, t.endTime, step, acc.1⟩

/-! ### The greatest common divisor -/

lemma euclidLoop_eq_gcd {fuel a b : ℕ} (hb : 0 < b) (hfuel : b ≤ fuel) : euclidLoop fuel a b = Nat.gcd a b := by
  induction fuel generalizing a b with
  | zero => omega
  | succ fuel ih =>
    have hrest := Nat.mod_lt a hb
    unfold euclidLoop
    split
    · rename_i hzero
      exact (Nat.gcd_eq_right (Nat.dvd_of_mod_eq_zero hzero)).symm
    · rename_i hne
      rw [ih (Nat.pos_of_ne_zero hne) (by omega), Nat.gcd_comm a b, Nat.gcd_rec b a, Nat.gcd_comm]

lemma lcdLoop_eq_gcd {a : ℕ} {num : List ℕ} (hnum : ∀ b ∈ num, 0 < b) : lcdLoop a num = num.foldl Nat.gcd a := by
  induction num generalizing a with
  | nil => rfl
  | cons b num ih =>
    have hb := hnum b List.mem_cons_self
    rw [lcdLoop, if_neg hb.ne', euclidLoop_eq_gcd hb le_rfl, List.foldl_cons]
    exact ih fun c hc => hnum c (List.mem_cons_of_mem b hc)

/-- `rrd_lcd` of positive numbers is their greatest common divisor. -/
lemma rrdLcd_eq_gcd {num : List ℕ} (hnum : ∀ b ∈ num, 0 < b) : rrdLcd num = num.foldl Nat.gcd 0 := by
  cases num with
  | nil => rfl
  | cons a num =>
    rw [rrdLcd, lcdLoop_eq_gcd fun b hb => hnum b (List.mem_cons_of_mem a hb), List.foldl_cons, Nat.gcd_zero_left]

lemma foldl_gcd_dvd {num : List ℕ} (a : ℕ) : num.foldl Nat.gcd a ∣ a ∧ ∀ b ∈ num, num.foldl Nat.gcd a ∣ b := by
  induction num generalizing a with
  | nil => exact ⟨dvd_rfl, fun b hb => absurd hb List.not_mem_nil⟩
  | cons c num ih =>
    obtain ⟨hacc, hrest⟩ := ih (Nat.gcd a c)
    rw [List.foldl_cons]
    exact ⟨hacc.trans (Nat.gcd_dvd_left a c), List.forall_mem_cons.2 ⟨hacc.trans (Nat.gcd_dvd_right a c), hrest⟩⟩

/-! ### The pointers -/

section Pointers

variable {m : Machine} {call : Call} {st st' : CalcRun} {gdes : ℤ → Gdes}

/-- The node of a variable whose pointer is on the row `r`. -/
@[grind] def varNode (g : Gdes) (n : Rpnp) (r : ℕ) : CalcNode := ⟨n.op, n.val, g.data, g.ds + r * g.dsCnt, g.dsCnt, g.step⟩

lemma advance_varNode {g : Gdes} {n : Rpnp} {r : ℕ} (hn : n.namesVariable) :
    advance call (varNode g n r) = varNode g n (if call.dataIdx % g.step = 0 then r + 1 else r) := by
  have hop : n.op = .variable ∨ n.op = .prevOther := by simpa [Rpnp.namesVariable] using hn
  by_cases hstep : call.dataIdx % g.step = 0
  · rw [if_pos hstep, advance, if_pos ⟨hop, hstep⟩]
    simp only [varNode, CalcNode.mk.injEq, true_and, and_true]
    push_cast
    ring
  · rw [if_neg hstep, advance, if_neg fun h => hstep h.2]

lemma calcStep_nodes {j : ℕ} (h : calcStep m call j st = .ok st') (i : ℕ) :
    st'.nodes[i]? = (st.nodes[i]?).map (if i = j then advance call else id) := by
  simp only [calcStep] at h
  split at h
  · rename_i hnone
    obtain rfl := Except.ok.inj h
    by_cases hij : i = j
    · rw [if_pos hij, hij, hnone, Option.map_none]
    · rw [if_neg hij, Option.map_id_fun, id]
  · rename_i n hn
    cases hop : calcOp m call st.nodes j n (grow st.stack) with
    | error e =>
      rw [hop] at h
      cases h
    | ok stack =>
      rw [hop] at h
      obtain rfl := Except.ok.inj h
      rw [List.getElem?_set]
      by_cases hij : j = i
      · subst hij
        have hlt : j < st.nodes.length := (List.getElem?_eq_some_iff.1 hn).1
        rw [if_pos rfl, if_pos hlt, if_pos rfl, hn, Option.map_some]
      · rw [if_neg hij, if_neg fun h => hij h.symm, Option.map_id_fun, id]

/-- The operators that are done have moved their pointers, the others not yet. -/
lemma steps_nodes {j : ℕ} (h : steps (calcStep m call) j st = .ok st') (i : ℕ) :
    st'.nodes[i]? = (st.nodes[i]?).map (if i < j then advance call else id) := by
  induction j generalizing st' with
  | zero =>
    obtain rfl := Except.ok.inj h
    rw [if_neg (Nat.not_lt_zero i), Option.map_id_fun, id]
  | succ j ih =>
    rw [steps] at h
    cases hj : steps (calcStep m call) j st with
    | error e =>
      rw [hj] at h
      cases h
    | ok st₁ =>
      rw [hj, ok_bind] at h
      rw [calcStep_nodes h i, ih hj, Option.map_map]
      by_cases hij : i = j
      · rw [if_pos hij, if_neg (by omega), if_pos (by omega), Function.comp_id]
      · rw [if_neg hij, Function.id_comp]
        by_cases hlt : i < j
        · rw [if_pos hlt, if_pos (by omega)]
        · rw [if_neg hlt, if_neg (by omega)]

lemma rpnCalc_nodes {v : RrdValue} (h : rpnCalc m call st = .ok (v, st')) (i : ℕ) :
    st'.nodes[i]? = (st.nodes[i]?).map (advance call) := by
  unfold rpnCalc at h
  cases hrun : steps (calcStep m call) st.nodes.length st.start with
  | error e =>
    rw [hrun] at h
    cases h
  | ok st₁ =>
    rw [hrun, ok_bind] at h
    have hst' : st' = st₁ := by
      split at h
      · cases h
      · cases hv : rd st₁.stack st₁.stack.stptr 0 with
        | error e =>
          rw [hv] at h
          cases h
        | ok v' =>
          rw [hv] at h
          exact (Prod.mk.inj (Except.ok.inj h)).2.symm
    rw [hst', steps_nodes hrun i]
    by_cases hi : i < st.nodes.length
    · rw [if_pos hi]
      rfl
    · have hnone : st.start.nodes[i]? = none := List.getElem?_eq_none (not_lt.1 hi)
      have hnone' : st.nodes[i]? = none := hnone
      rw [hnone, hnone']
      rfl

end Pointers

/-! ### The rows of a variable -/

/-- The data of a variable, as fetch and reduction deliver them: from and to a multiple of its step. -/
structure Gdes.Aligned (g : Gdes) : Prop where
  step_pos : 0 < g.step
  start_pos : 0 < g.start
  end_pos : 0 < g.endTime
  dvd_start : (g.step : ℤ) ∣ g.start
  dvd_end : (g.step : ℤ) ∣ g.endTime
  ds_lt : g.ds < g.dsCnt

/-- The same of data that a shift may have moved to any time. -/
structure Gdes.Stepped (g : Gdes) : Prop where
  step_pos : 0 < g.step
  dvd_start : (g.step : ℤ) ∣ g.start
  dvd_end : (g.step : ℤ) ∣ g.endTime
  ds_lt : g.ds < g.dsCnt

lemma Gdes.Aligned.stepped {g : Gdes} (h : g.Aligned) : g.Stepped := ⟨h.step_pos, h.dvd_start, h.dvd_end, h.ds_lt⟩

/-- The row of the variable for the row `k` of a CDEF that starts at `S`. -/
@[grind] def rowIndex (g : Gdes) (S : ℤ) (step k : ℕ) : ℕ := ((S - g.start).toNat + k * step) / g.step

section RowIndex

variable {g : Gdes} {S : ℤ} {step : ℕ}

/-- The step of a CDEF divides those of its variables and all times. -/
lemma exists_quotients (hstep : step ∣ g.step) (hS : (step : ℤ) ∣ S) (hg : g.Stepped) (hle : g.start ≤ S) :
    ∃ q d : ℕ, 0 < q ∧ g.step = step * q ∧ (S - g.start).toNat = step * d ∧ S = g.start + step * d := by
  obtain ⟨q, hq⟩ := hstep
  have hdvd : (step : ℤ) ∣ S - g.start :=
    Int.dvd_sub hS ((Int.natCast_dvd_natCast.2 (Dvd.intro q hq.symm)).trans hg.dvd_start)
  obtain ⟨d, hd⟩ := Int.natCast_dvd_natCast.1 (show (step : ℤ) ∣ ((S - g.start).toNat : ℤ) by
    rwa [Int.toNat_of_nonneg (by omega)])
  refine ⟨q, d, ?_, hq, hd, ?_⟩
  · refine Nat.pos_of_ne_zero fun hzero => hg.step_pos.ne' ?_
    rw [hq, hzero, Nat.mul_zero]
  · have hcast : ((S - g.start).toNat : ℤ) = step * d := by exact_mod_cast hd
    omega

lemma rowIndex_eq {q d k : ℕ} (hpos : 0 < step) (hq : g.step = step * q) (hd : (S - g.start).toNat = step * d) :
    rowIndex g S step k = (d + k) / q := by
  rw [rowIndex, hq, hd, Nat.mul_comm k step, ← Nat.mul_add, Nat.mul_div_mul_left _ _ hpos]

/-- The pointer advances exactly when the time of the row ends an interval of the variable. -/
lemma rowIndex_succ (hpos : 0 < step) (hstep : step ∣ g.step) (hS : (step : ℤ) ∣ S) (hg : g.Stepped)
    (hle : g.start ≤ S) (k : ℕ) :
    rowIndex g S step (k + 1) =
      if (S + (k + 1) * step) % (g.step : ℤ) = 0 then rowIndex g S step k + 1 else rowIndex g S step k := by
  obtain ⟨q, d, hqpos, hq, hd, hSd⟩ := exists_quotients hstep hS hg hle
  have hdvd : (S + (k + 1) * step) % (g.step : ℤ) = 0 ↔ q ∣ d + k + 1 := by
    have htime : S + (k + 1) * step = g.start + (step : ℤ) * ((d + k + 1 : ℕ) : ℤ) := by
      rw [hSd]
      push_cast
      ring
    rw [htime, ← Int.dvd_iff_emod_eq_zero, Int.dvd_add_right hg.dvd_start, hq]
    push_cast
    rw [mul_dvd_mul_iff_left (by exact_mod_cast hpos.ne')]
    exact_mod_cast Iff.rfl
  rw [rowIndex_eq hpos hq hd, rowIndex_eq hpos hq hd, ← Nat.add_assoc, Nat.succ_div]
  simp only [hdvd]
  split <;> rfl

/-- The interval of the row contains the time of the row of the CDEF, and the row is one of the variable. -/
lemma rowIndex_interval (hpos : 0 < step) (hstep : step ∣ g.step) (hS : (step : ℤ) ∣ S) (hg : g.Stepped)
    (hle : g.start ≤ S) {k : ℕ} {E : ℤ} (hE : E ≤ g.endTime) (hk : S + (k + 1) * step ≤ E) :
    g.start + rowIndex g S step k * g.step < S + (k + 1) * step ∧
      S + (k + 1) * step ≤ g.start + (rowIndex g S step k + 1) * g.step ∧
      (rowIndex g S step k : ℤ) < (g.endTime - g.start) / g.step := by
  obtain ⟨q, d, hqpos, hq, hd, hSd⟩ := exists_quotients hstep hS hg hle
  rw [rowIndex_eq hpos hq hd]
  have hlow : (d + k) / q * q ≤ d + k := Nat.div_mul_le_self _ _
  have hhigh : d + k + 1 ≤ ((d + k) / q + 1) * q := by
    have h := Nat.lt_mul_div_succ (d + k) hqpos
    rw [Nat.mul_comm] at h
    exact h
  generalize (d + k) / q = r at hlow hhigh ⊢
  have hlow' : (r : ℤ) * g.step ≤ step * (d + k : ℕ) := by
    rw [hq]
    have hrow := Nat.mul_le_mul_left step hlow
    rw [Nat.mul_left_comm] at hrow
    exact_mod_cast hrow
  have hhigh' : (step : ℤ) * (d + k + 1 : ℕ) ≤ (r + 1) * g.step := by
    rw [hq]
    have hrow := Nat.mul_le_mul_left step hhigh
    rw [Nat.mul_left_comm step] at hrow
    exact_mod_cast hrow
  have hposz : (0 : ℤ) < step := by exact_mod_cast hpos
  have htime : S + (k + 1) * step = g.start + (step : ℤ) * (d + k + 1 : ℕ) := by
    rw [hSd]
    push_cast
    ring
  have hlt : g.start + (r : ℤ) * g.step < S + (k + 1) * step := by
    rw [htime]
    push_cast at hlow' ⊢
    linarith
  refine ⟨hlt, by linarith, ?_⟩
  have hstepz : (0 : ℤ) < g.step := by exact_mod_cast hg.step_pos
  rw [Int.lt_ediv_iff_mul_lt hstepz (Int.dvd_sub hg.dvd_end hg.dvd_start)]
  linarith

end RowIndex

/-! ### The times of a CDEF -/

section Times

variable {gdes : ℤ → Gdes} {p : List Rpnp} {t : CdefTimes}

/-- The variables of a program. -/
@[grind] def dataVars (gdes : ℤ → Gdes) (p : List Rpnp) : List Gdes := (p.filter (Rpnp.hasData gdes)).map fun n => gdes n.ptr

lemma dataVars_cons_of_hasData {n : Rpnp} (h : n.hasData gdes) :
    dataVars gdes (n :: p) = gdes n.ptr :: dataVars gdes p := by
  rw [dataVars, List.filter_cons_of_pos h]
  rfl

lemma dataVars_cons_of_not {n : Rpnp} (h : ¬ n.hasData gdes) : dataVars gdes (n :: p) = dataVars gdes p := by
  rw [dataVars, List.filter_cons_of_neg h]
  rfl

lemma foldl_steparray : (p.foldl (addVariable gdes) t).steparray = t.steparray ++ (dataVars gdes p).map Gdes.step := by
  induction p generalizing t with
  | nil => exact (List.append_nil _).symm
  | cons n p ih =>
    rw [List.foldl_cons, ih]
    by_cases h : n.hasData gdes
    · rw [dataVars_cons_of_hasData h, addVariable, if_pos h, List.map_cons, List.append_assoc]
      rfl
    · rw [dataVars_cons_of_not h, addVariable, if_neg h]

lemma foldl_start : t.start ≤ (p.foldl (addVariable gdes) t).start ∧
    (∀ g ∈ dataVars gdes p, g.start ≤ (p.foldl (addVariable gdes) t).start) ∧
    ((p.foldl (addVariable gdes) t).start = t.start ∨
      ∃ g ∈ dataVars gdes p, (p.foldl (addVariable gdes) t).start = g.start) := by
  induction p generalizing t with
  | nil => exact ⟨le_rfl, fun g hg => absurd hg List.not_mem_nil, .inl rfl⟩
  | cons n p ih =>
    obtain ⟨hle, hall, hmem⟩ := @ih (addVariable gdes t n)
    rw [List.foldl_cons]
    by_cases h : n.hasData gdes
    · rw [dataVars_cons_of_hasData h]
      have hstart : (addVariable gdes t n).start = if t.start < (gdes n.ptr).start then (gdes n.ptr).start else t.start := by
        rw [addVariable, if_pos h]
      have hmax : t.start ≤ (addVariable gdes t n).start ∧ (gdes n.ptr).start ≤ (addVariable gdes t n).start := by
        rw [hstart]
        split <;> omega
      refine ⟨hmax.1.trans hle, List.forall_mem_cons.2 ⟨hmax.2.trans hle, hall⟩, ?_⟩
      obtain heq | ⟨g, hg, heq⟩ := hmem
      · rw [heq, hstart]
        split
        · exact .inr ⟨_, List.mem_cons_self, rfl⟩
        · exact .inl rfl
      · exact .inr ⟨g, List.mem_cons_of_mem _ hg, heq⟩
    · rw [dataVars_cons_of_not h]
      have hsame : addVariable gdes t n = t := by rw [addVariable, if_neg h]
      rw [hsame] at hle hmem
      rw [hsame] at hall ⊢
      exact ⟨hle, hall, hmem⟩

/-- The 0 stands for an end that is not yet known. -/
lemma foldl_end (hpos : ∀ g ∈ dataVars gdes p, 0 < g.endTime) :
    (t.endTime ≠ 0 → (p.foldl (addVariable gdes) t).endTime ≤ t.endTime) ∧
    (∀ g ∈ dataVars gdes p, (p.foldl (addVariable gdes) t).endTime ≤ g.endTime) ∧
    ((p.foldl (addVariable gdes) t).endTime = t.endTime ∧ (t.endTime ≠ 0 ∨ dataVars gdes p = []) ∨
      ∃ g ∈ dataVars gdes p, (p.foldl (addVariable gdes) t).endTime = g.endTime) := by
  induction p generalizing t with
  | nil => exact ⟨fun _ => le_rfl, fun g hg => absurd hg List.not_mem_nil, .inl ⟨rfl, .inr rfl⟩⟩
  | cons n p ih =>
    rw [List.foldl_cons]
    by_cases h : n.hasData gdes
    · rw [dataVars_cons_of_hasData h] at hpos ⊢
      obtain ⟨hn, htail⟩ := List.forall_mem_cons.1 hpos
      obtain ⟨hle, hall, hmem⟩ := @ih (addVariable gdes t n) htail
      have hend : (addVariable gdes t n).endTime =
          if t.endTime = 0 ∨ (gdes n.ptr).endTime < t.endTime then (gdes n.ptr).endTime else t.endTime := by
        rw [addVariable, if_pos h]
      have hmin : (t.endTime ≠ 0 → (addVariable gdes t n).endTime ≤ t.endTime) ∧
          (addVariable gdes t n).endTime ≤ (gdes n.ptr).endTime ∧ (addVariable gdes t n).endTime ≠ 0 := by
        rw [hend]
        split <;> omega
      have hle' := hle hmin.2.2
      refine ⟨fun h0 => hle'.trans (hmin.1 h0), List.forall_mem_cons.2 ⟨hle'.trans hmin.2.1, hall⟩, ?_⟩
      obtain ⟨heq, -⟩ | ⟨g, hg, heq⟩ := hmem
      · rw [heq, hend]
        split
        · exact .inr ⟨_, List.mem_cons_self, rfl⟩
        · rename_i hnot
          exact .inl ⟨rfl, .inl (not_or.1 hnot).1⟩
      · exact .inr ⟨g, List.mem_cons_of_mem _ hg, heq⟩
    · rw [dataVars_cons_of_not h] at hpos ⊢
      have hsame : addVariable gdes t n = t := by rw [addVariable, if_neg h]
      rw [hsame]
      exact ih hpos

lemma foldl_end_mem : (p.foldl (addVariable gdes) t).endTime = t.endTime ∨
    ∃ g ∈ dataVars gdes p, (p.foldl (addVariable gdes) t).endTime = g.endTime := by
  induction p generalizing t with
  | nil => exact .inl rfl
  | cons n p ih =>
    rw [List.foldl_cons]
    by_cases h : n.hasData gdes
    · rw [dataVars_cons_of_hasData h]
      obtain heq | ⟨g, hg, heq⟩ := @ih (addVariable gdes t n)
      · rw [heq, addVariable, if_pos h]
        dsimp only
        split
        · exact .inr ⟨_, List.mem_cons_self, rfl⟩
        · exact .inl rfl
      · exact .inr ⟨g, List.mem_cons_of_mem _ hg, heq⟩
    · have hsame : addVariable gdes t n = t := by rw [addVariable, if_neg h]
      rw [dataVars_cons_of_not h, hsame]
      exact ih

lemma mem_dataVars {g : Gdes} : g ∈ dataVars gdes p ↔ ∃ n ∈ p, n.hasData gdes ∧ gdes n.ptr = g := by
  simp [dataVars, and_assoc]

/-- The latest start, the earliest end, and the steps. -/
lemma cdefTimes_eq {S E : ℤ} (haligned : ∀ g ∈ dataVars gdes p, g.Aligned)
    (hS : IsGreatest {t | ∃ g ∈ dataVars gdes p, t = g.start} S)
    (hE : IsLeast {t | ∃ g ∈ dataVars gdes p, t = g.endTime} E) :
    cdefTimes gdes p = ⟨S, E, (dataVars gdes p).map Gdes.step⟩ := by
  obtain ⟨⟨gS, hgS, hSeq⟩, hSmax⟩ := hS
  obtain ⟨⟨gE, hgE, hEeq⟩, hEmin⟩ := hE
  have hstart : (cdefTimes gdes p).start = S := by
    obtain ⟨-, hall, hmem⟩ := @foldl_start gdes p ⟨0, 0, []⟩
    refine le_antisymm ?_ (hSeq ▸ hall gS hgS)
    obtain heq | ⟨g, hg, heq⟩ := hmem
    · have hpos := (haligned gS hgS).start_pos
      exact heq.le.trans (by rw [hSeq]; exact hpos.le)
    · exact heq.le.trans (hSmax ⟨g, hg, rfl⟩)
  have hend : (cdefTimes gdes p).endTime = E := by
    obtain ⟨-, hall, hmem⟩ := @foldl_end gdes p ⟨0, 0, []⟩ fun g hg => (haligned g hg).end_pos
    refine le_antisymm (hEeq ▸ hall gE hgE) ?_
    obtain ⟨-, h0 | hnil⟩ | ⟨g, hg, heq⟩ := hmem
    · exact absurd rfl h0
    · rw [hnil] at hgE
      exact absurd hgE List.not_mem_nil
    · exact (hEmin ⟨g, hg, rfl⟩).trans heq.ge
  have hsteps : (cdefTimes gdes p).steparray = (dataVars gdes p).map Gdes.step := foldl_steparray
  rw [← hstart, ← hend, ← hsteps]

end Times

/-! ### The rows -/

section Rows

variable {m : Machine} {gdes : ℤ → Gdes} {p : List Rpnp} {S E : ℤ} {step : ℕ} {init : List RrdValue × CalcRun}

/-- The row `k` of a CDEF that starts at `S`. -/
def rowStep (m : Machine) (S : ℤ) (step k : ℕ) (acc : List RrdValue × CalcRun) : Calc (List RrdValue × CalcRun) :=
  cdefRow m step (S + (k + 1) * step) acc

/-- The loop of the source does the rows from `k` up to the end. -/
lemma cdefRows_eq_steps (hpos : 0 < step) {n fuel k : ℕ} (hE : E = S + (k + n) * step) (hfuel : n ≤ fuel) :
    (steps (rowStep m S step) k init >>= cdefRows m E step fuel (S + (k + 1) * step)) =
      steps (rowStep m S step) (k + n) init := by
  have hposz : (0 : ℤ) < step := by exact_mod_cast hpos
  induction n generalizing fuel k with
  | zero =>
    have hdone : cdefRows m E step fuel (S + (k + 1) * step) = .ok := by
      funext acc
      cases fuel with
      | zero => rfl
      | succ fuel =>
        rw [cdefRows, if_neg]
        rw [hE]
        push_cast
        linarith
    rw [hdone]
    exact bind_pure _
  | succ n ih =>
    obtain ⟨fuel, rfl⟩ : ∃ f, fuel = f + 1 := ⟨fuel - 1, by omega⟩
    have hround : cdefRows m E step (fuel + 1) (S + (k + 1) * step) =
        fun acc => rowStep m S step k acc >>= cdefRows m E step fuel (S + ((k + 1 : ℕ) + 1) * step) := by
      funext acc
      have hnow : S + (k + 1) * step + step = S + ((k + 1 : ℕ) + 1) * step := by
        push_cast
        ring
      rw [cdefRows, if_pos, hnow]
      · rfl
      · rw [hE]
        push_cast
        have hrest : (0 : ℤ) ≤ n * step := by positivity
        linarith
    rw [hround, ← bind_assoc]
    have hrest := @ih fuel (k + 1) (by rw [hE]; push_cast; ring) (by omega)
    rw [steps] at hrest
    rw [hrest]
    congr 1
    omega

lemma cdefRow_some {now : ℤ} {acc acc' : List RrdValue × CalcRun} (h : cdefRow m step now acc = .ok acc') :
    ∃ v st', rpnCalc m (rowCall step now acc.1) acc.2 = .ok (v, st') ∧ acc' = (acc.1 ++ [v], st') := by
  unfold cdefRow at h
  cases hcalc : rpnCalc m (rowCall step now acc.1) acc.2 with
  | error e =>
    rw [hcalc] at h
    cases h
  | ok r =>
    rw [hcalc, ok_bind] at h
    exact ⟨r.1, r.2, rfl, (Except.ok.inj h).symm⟩

lemma steps_rows_length {k : ℕ} {acc : List RrdValue × CalcRun} (h : steps (rowStep m S step) k init = .ok acc) :
    acc.1.length = init.1.length + k := by
  induction k generalizing acc with
  | zero =>
    obtain rfl := Except.ok.inj h
    rfl
  | succ k ih =>
    rw [steps] at h
    cases hk : steps (rowStep m S step) k init with
    | error e =>
      rw [hk] at h
      cases h
    | ok acc₁ =>
      rw [hk, ok_bind] at h
      obtain ⟨v, st', -, rfl⟩ := cdefRow_some h
      rw [List.length_append, List.length_singleton, ih hk, Nat.add_assoc]

lemma cdefNode_eq_varNode {n : Rpnp} (hn : n.hasData gdes) (hle : (gdes n.ptr).start ≤ S) :
    cdefNode gdes S n = varNode (gdes n.ptr) n (rowIndex (gdes n.ptr) S step 0) := by
  have hand : n.namesVariable = true ∧ (gdes n.ptr).dsCnt ≠ 0 := by simpa [Rpnp.hasData] using hn
  have hpos : (if 0 < S - (gdes n.ptr).start then
      ((gdes n.ptr).ds : ℤ) + (S - (gdes n.ptr).start) / (gdes n.ptr).step * (gdes n.ptr).dsCnt
      else (gdes n.ptr).ds) = (gdes n.ptr).ds + (rowIndex (gdes n.ptr) S step 0 : ℤ) * (gdes n.ptr).dsCnt := by
    rw [rowIndex, Nat.zero_mul, Nat.add_zero, Int.natCast_ediv, Int.toNat_of_nonneg (by omega)]
    split
    · rfl
    · have hzero : S - (gdes n.ptr).start = 0 := by omega
      rw [hzero, Int.zero_ediv, zero_mul, add_zero]
  simp only [cdefNode, hand.1, if_true, if_neg hand.2, hpos]
  rfl

/-- Before the row `k`, the pointer of each variable is on its row for it. -/
lemma steps_rows_nodes {stack : CalcState} (hpos : 0 < step) (hS : (step : ℤ) ∣ S) {i : ℕ} {n : Rpnp}
    (hi : p[i]? = some n) (hn : n.hasData gdes) (hstep : step ∣ (gdes n.ptr).step) (hg : (gdes n.ptr).Stepped)
    (hle : (gdes n.ptr).start ≤ S) {k : ℕ} {acc : List RrdValue × CalcRun}
    (h : steps (rowStep m S step) k ([], ⟨stack, p.map (cdefNode gdes S)⟩) = .ok acc) :
    acc.2.nodes[i]? = some (varNode (gdes n.ptr) n (rowIndex (gdes n.ptr) S step k)) := by
  have hname : n.namesVariable := by
    rw [Rpnp.hasData, Bool.and_eq_true] at hn
    exact hn.1
  induction k generalizing acc with
  | zero =>
    obtain rfl := Except.ok.inj h
    show (p.map (cdefNode gdes S))[i]? = _
    rw [List.getElem?_map, hi, Option.map_some, cdefNode_eq_varNode hn hle]
  | succ k ih =>
    rw [steps] at h
    cases hk : steps (rowStep m S step) k ([], ⟨stack, p.map (cdefNode gdes S)⟩) with
    | error e =>
      rw [hk] at h
      cases h
    | ok acc₁ =>
      rw [hk, ok_bind] at h
      obtain ⟨v, st', hcalc, rfl⟩ := cdefRow_some h
      have hnode := rpnCalc_nodes hcalc i
      rw [ih hk, Option.map_some, advance_varNode hname] at hnode
      rw [hnode, rowIndex_succ hpos hstep hS hg hle k]
      rfl

/-- The value of a variable is pushed from where its pointer is. -/
lemma calcStep_variable {call : Call} {st st' : CalcRun} {i : ℕ} {n : CalcNode} (hn : st.nodes[i]? = some n)
    (hop : n.op = .variable) (h : calcStep m call i st = .ok st') : st'.stack.s st'.stack.stptr = n.data n.pos := by
  simp only [calcStep, hn] at h
  cases hcalc : calcOp m call st.nodes i n (grow st.stack) with
  | error e =>
    rw [hcalc] at h
    cases h
  | ok stack =>
    rw [hcalc, ok_bind] at h
    obtain rfl := Except.ok.inj h
    simp only [calcOp, hop, opVariable, if_true, push, wr] at hcalc
    split at hcalc
    · cases hcalc
    · split at hcalc
      · obtain rfl := Except.ok.inj hcalc
        exact Function.update_self _ _ _
      · cases hcalc

end Rows

/-- The rows of a CDEF. There are as many as the common step fits between the latest start `S` and the earliest end
`E`, and when the row `k` is computed, each operand that names a variable is the value of that row of the variable
whose interval contains the time of the row `k`. -/
theorem dataCalc_rows (m : Machine) (gdes : ℤ → Gdes) (p : List Rpnp) (stack : CalcState) (S E : ℤ)
    (haligned : ∀ v ∈ dataVars gdes p, v.Aligned) (hS : IsGreatest {t | ∃ v ∈ dataVars gdes p, t = v.start} S)
    (hE : IsLeast {t | ∃ v ∈ dataVars gdes p, t = v.endTime} E) (hSE : S < E) :
    let g := ((dataVars gdes p).map Gdes.step).foldl Nat.gcd 0
    let init : List RrdValue × CalcRun := ([], ⟨stack, p.map (cdefNode gdes S)⟩)
    dataCalc m gdes p stack = (do
        let acc ← steps (rowStep m S g) ((E - S) / g).toNat init
        .ok ⟨S, E, g, acc.1⟩) ∧
      (∀ c, dataCalc m gdes p stack = .ok c → (c.rows.length : ℤ) = (E - S) / g) ∧
      ∀ k : ℕ, (k : ℤ) < (E - S) / g → ∀ rows st, steps (rowStep m S g) k init = .ok (rows, st) →
        ∀ rpi st', steps (calcStep m (rowCall g (S + (k + 1) * g) rows)) rpi st.start = .ok st' →
          ∀ n, p[rpi]? = some n → n.op = .variable → (gdes n.ptr).dsCnt ≠ 0 →
            let v := gdes n.ptr
            ∃ r : ℕ, (v.start + r * v.step < S + (k + 1) * g ∧ S + (k + 1) * g ≤ v.start + (r + 1) * v.step) ∧
              (v.ds + r * v.dsCnt : ℤ) < (v.endTime - v.start) / v.step * v.dsCnt ∧
              ∀ st'', calcStep m (rowCall g (S + (k + 1) * g) rows) rpi st' = .ok st'' →
                st''.stack.s st''.stack.stptr = v.data (v.ds + r * v.dsCnt) := by
  intro g init
  have htimes := cdefTimes_eq haligned hS hE
  have hlcd : rrdLcd ((dataVars gdes p).map Gdes.step) = g := by
    refine rrdLcd_eq_gcd fun b hb => ?_
    obtain ⟨v, hv, rfl⟩ := List.mem_map.1 hb
    exact (haligned v hv).step_pos
  obtain ⟨⟨vS, hvS, hSeq⟩, hSmax⟩ := hS
  obtain ⟨⟨vE, hvE, hEeq⟩, hEmin⟩ := hE
  have hdvd : ∀ v ∈ dataVars gdes p, g ∣ v.step := fun v hv => (foldl_gcd_dvd 0).2 _ (List.mem_map_of_mem hv)
  have hpos : 0 < g := Nat.pos_of_dvd_of_pos (hdvd vS hvS) (haligned vS hvS).step_pos
  have hposz : (0 : ℤ) < g := by exact_mod_cast hpos
  have hdvdS : (g : ℤ) ∣ S := hSeq ▸ (Int.natCast_dvd_natCast.2 (hdvd vS hvS)).trans (haligned vS hvS).dvd_start
  have hdvdE : (g : ℤ) ∣ E := hEeq ▸ (Int.natCast_dvd_natCast.2 (hdvd vE hvE)).trans (haligned vE hvE).dvd_end
  have hcount : (((E - S) / g).toNat : ℤ) = (E - S) / g := Int.toNat_of_nonneg (Int.ediv_nonneg (by omega) hposz.le)
  have hend : E = S + (E - S) / g * g := by
    rw [Int.ediv_mul_cancel (Int.dvd_sub hdvdE hdvdS)]
    ring
  have hequation : dataCalc m gdes p stack = (do
      let acc ← steps (rowStep m S g) ((E - S) / g).toNat init
      .ok ⟨S, E, g, acc.1⟩) := by
    have hne : (dataVars gdes p).map Gdes.step ≠ [] := List.ne_nil_of_mem (List.mem_map_of_mem hvS)
    have hrows := @cdefRows_eq_steps m S E g init hpos ((E - S) / g).toNat (E - S).toNat 0
      (by rw [hcount, Nat.cast_zero, zero_add]; exact hend) (by
        have hle : (E - S) / g ≤ E - S := Int.ediv_le_self _ (by omega)
        omega)
    rw [steps, ok_bind, Nat.cast_zero, zero_add, one_mul, Nat.zero_add] at hrows
    simp only [dataCalc, htimes, hlcd, if_neg hne]
    rw [hrows]
  refine ⟨hequation, fun c hc => ?_, fun k hk rows st hst rpi st' hst' n hn hop hcnt => ?_⟩
  · rw [hequation] at hc
    cases hrun : steps (rowStep m S g) ((E - S) / g).toNat init with
    | error e =>
      rw [hrun] at hc
      cases hc
    | ok acc =>
      rw [hrun, ok_bind] at hc
      obtain rfl := Except.ok.inj hc
      have hlen := steps_rows_length hrun
      rw [List.length_nil, Nat.zero_add] at hlen
      rw [hlen, hcount]
  · have hdata : n.hasData gdes := by simp [Rpnp.hasData, Rpnp.namesVariable, hop, hcnt]
    have hmem : gdes n.ptr ∈ dataVars gdes p := mem_dataVars.2 ⟨n, List.mem_of_getElem? hn, hdata, rfl⟩
    have hv := haligned _ hmem
    have hle : (gdes n.ptr).start ≤ S := hSmax ⟨_, hmem, rfl⟩
    have htime : S + (k + 1) * g ≤ E := by
      have hrows : ((k : ℤ) + 1) * g ≤ (E - S) / g * g := mul_le_mul_of_nonneg_right (by omega) hposz.le
      linarith
    obtain ⟨hlow, hhigh, hrow⟩ := rowIndex_interval hpos (hdvd _ hmem) hdvdS hv.stepped hle (hEmin ⟨_, hmem, rfl⟩) htime
    refine ⟨rowIndex (gdes n.ptr) S g k, ⟨hlow, hhigh⟩, ?_, fun st'' hst'' => ?_⟩
    · have hds : ((gdes n.ptr).ds : ℤ) < (gdes n.ptr).dsCnt := by exact_mod_cast hv.ds_lt
      have hrows := mul_le_mul_of_nonneg_right (Int.add_one_le_of_lt hrow) (Int.natCast_nonneg (gdes n.ptr).dsCnt)
      linarith
    · have hnodes := steps_nodes hst' rpi
      have hstart : st.start.nodes[rpi]? = st.nodes[rpi]? := rfl
      rw [if_neg (lt_irrefl rpi), Option.map_id_fun, id, hstart,
        steps_rows_nodes hpos hdvdS hn hdata (hdvd _ hmem) hv.stepped hle hst] at hnodes
      exact calcStep_variable hnodes hop hst''

/-- Two variables, with a step of 300 and a step of 200 seconds. -/
def twoSteps (ptr : ℤ) : Gdes :=
  if ptr = 0 then ⟨600, 1200, 300, 0, 1, fun i => .fin i, .nan⟩ else ⟨600, 1200, 200, 1, 2, fun i => .fin (10 * i), .nan⟩

/-- The sum of the two has a step of 100 seconds. -/
theorem dataCalc_rows_twoSteps :
    dataVars twoSteps [.variable 0, .variable 1, .plain .add] = [twoSteps 0, twoSteps 1] ∧
      ∀ c, dataCalc bareMachine twoSteps [.variable 0, .variable 1, .plain .add] ⟨fun _ => .nan, -1, 0⟩ = .ok c →
        (c.rows.length : ℤ) = (1200 - 600) / (100 : ℕ) := by
  have hvars : dataVars twoSteps [.variable 0, .variable 1, .plain .add] = [twoSteps 0, twoSteps 1] := rfl
  have haligned : ∀ v ∈ [twoSteps 0, twoSteps 1], v.Aligned := by
    rintro v (_ | ⟨_, _ | ⟨_, ⟨⟩⟩⟩)
    · exact ⟨by decide, by decide, by decide, by decide, by decide, by decide⟩
    · exact ⟨by decide, by decide, by decide, by decide, by decide, by decide⟩
  refine ⟨hvars, (dataCalc_rows bareMachine twoSteps [.variable 0, .variable 1, .plain .add] ⟨fun _ => .nan, -1, 0⟩
    600 1200 (hvars ▸ haligned) ⟨⟨twoSteps 0, hvars ▸ List.mem_cons_self, rfl⟩, ?_⟩
    ⟨⟨twoSteps 0, hvars ▸ List.mem_cons_self, rfl⟩, ?_⟩ (by decide)).2.1⟩
  · rintro t ⟨v, hv, rfl⟩
    rw [hvars] at hv
    obtain _ | ⟨_, _ | ⟨_, ⟨⟩⟩⟩ := hv <;> exact le_rfl
  · rintro t ⟨v, hv, rfl⟩
    rw [hvars] at hv
    obtain _ | ⟨_, _ | ⟨_, ⟨⟩⟩⟩ := hv <;> exact le_rfl

end Rrdtool
