import Rrdtool.Lib.CInt
import Rrdtool.Lib.Reports
import Rrdtool.Rpn.RoundTrip
import Rrdtool.Rpn.Stack

/-!
# Computed data sources

`parseCDEF_DS` refuses operators that the update cannot evaluate, `process_pdp_st` expands the program of a data source
and puts the values of the other data sources into it, and `rpn_calc` runs it. The fields of a node that point to the data
of a variable are never set. No operator that is accepted needs them but one: `PREV(name)` is neither refused nor
replaced by a value, and its data source count of 0 makes `rpn_calc` give up (`processComputed_evaluates_iff`).
-/

namespace Rrdtool

open Checked

/-! ### The update of a computed data source -/

/-- The values of the data sources for the variables. -/
def substitute (pdpTemp : ℤ → RrdValue) (n : Rpnp) : Rpnp :=
  if n.op = .variable then { n with op := .number, val := pdpTemp n.ptr } else n

/-- A node of the calculator; the fields of the data come from `unset`. -/
def calcNode (unset : CalcNode) (n : Rpnp) : CalcNode := { unset with op := n.op, val := n.val }

/-- The program that `process_pdp_st` hands to `rpn_calc`; `unset i` are the fields of node `i` that nobody sets. -/
@[grind] def computedNodes (unset : ℕ → CalcNode) (pdpTemp : ℤ → RrdValue) (c : List RpnCdefds) : List CalcNode :=
  (rpnExpand c).mapIdx fun i n => calcNode (unset i) (substitute pdpTemp n)

/-- The part of `process_pdp_st` for a `COMPUTE` data source: the new value of `pdp_temp[ds_idx]` and the stack. -/
@[grind] def processComputed (m : Machine) (unset : ℕ → CalcNode) (pdpTemp : ℤ → RrdValue) (dsIdx pdpStep : ℤ)
    (stack : CalcState) (c : List RpnCdefds) : Calc (RrdValue × CalcState) := do
  let (v, st) ← rpnCalc m ⟨0, pdpTemp, dsIdx, s32 pdpStep⟩ ⟨stack, computedNodes unset pdpTemp c⟩
  .ok (v, st.stack)

/-- `calloc` has cleared the node. -/
def clearedNode : CalcNode := ⟨.number, .fin 0, fun _ => .nan, 0, 0, 0⟩

/-- The errors that an accepted expression may end in: a stack underflow, a final stack that is not a single value, and
an operand that is out of range. -/
inductive Permitted : RpnError → Prop where
  | underflow : Permitted .underflow
  | finalSize : Permitted .finalSize
  | percent : Permitted .percent
  | outOfMemory (base : ℤ) : Permitted (.outOfMemory base)

/-! ### The operators that are accepted -/

section Operators

variable {m : Machine} {call : Call} {st : CalcState} {nodes nodes' : List CalcNode} {rpi : ℕ} {n n' : CalcNode}

/-- The operator is evaluated without the data of a variable. -/
def Plain (op : RpnOp) : Prop := op ∉ unsupportedOps ∧ op ≠ .variable ∧ op ≠ .prevOther

instance (op : RpnOp) : Decidable (Plain op) := inferInstanceAs (Decidable (_ ∧ _))

/-- The operator only depends on the operator and the number of the node. -/
lemma calcOp_congr (hplain : Plain n.op) (hop : n'.op = n.op) (hval : n'.val = n.val) :
    calcOp m call nodes' rpi n' st = calcOp m call nodes rpi n st := by
  obtain ⟨op, val, data, pos, dsCnt, step⟩ := n
  obtain ⟨op', val', data', pos', dsCnt', step'⟩ := n'
  obtain rfl : op' = op := hop
  obtain rfl : val' = val := hval
  cases op' with
  | «variable» => exact absurd rfl hplain.2.1
  | prevOther => exact absurd rfl hplain.2.2
  | trend => exact absurd (show RpnOp.trend ∈ unsupportedOps by decide) hplain.1
  | trendnan => exact absurd (show RpnOp.trendnan ∈ unsupportedOps by decide) hplain.1
  | predict => exact absurd (show RpnOp.predict ∈ unsupportedOps by decide) hplain.1
  | predictsigma => exact absurd (show RpnOp.predictsigma ∈ unsupportedOps by decide) hplain.1
  | predictperc => exact absurd (show RpnOp.predictperc ∈ unsupportedOps by decide) hplain.1
  | _ => rfl

lemma advance_plain (hplain : Plain n.op) : advance call n = n :=
  if_neg fun h => h.1.elim hplain.2.1 hplain.2.2

lemma reports_rd {top i : ℤ} : Reports Permitted (rd st top i) := .ite (.ok _) (.fault _)

lemma reports_wr {i : ℤ} {v : RrdValue} : Reports Permitted (wr st i v) := .ite (.ok _) (.fault _)

lemma reports_push {v : RrdValue} : Reports Permitted (push st v) := reports_wr

lemma reports_stackunderflow {k : ℤ} : Reports Permitted (stackunderflow st k) := .ite (.error .underflow) (.ok _)

lemma reports_unary {f : RrdValue → RrdValue} : Reports Permitted (unary f st) :=
  reports_stackunderflow.bind fun _ => reports_rd.bind fun _ => reports_wr

lemma reports_binary {f : RrdValue → RrdValue → RrdValue} : Reports Permitted (binary f st) :=
  reports_stackunderflow.bind fun _ => reports_rd.bind fun _ => reports_rd.bind fun _ => reports_wr.bind fun _ => .ok _

lemma reports_ternary {f : RrdValue → RrdValue → RrdValue → RrdValue} : Reports Permitted (ternary f st) :=
  reports_stackunderflow.bind fun _ => reports_rd.bind fun _ => reports_rd.bind fun _ => reports_rd.bind fun _ =>
    reports_wr.bind fun _ => .ok _

lemma reports_takeCount : Reports Permitted (takeCount m st) :=
  reports_stackunderflow.bind fun _ => reports_rd.bind fun _ => reports_stackunderflow.bind fun _ => .ok _

lemma reports_readBlock {top lo : ℤ} {k : ℕ} : Reports Permitted (readBlock st top lo k) := by
  induction k generalizing lo with
  | zero => exact .ok _
  | succ k ih => exact reports_rd.bind fun _ => ih.bind fun _ => .ok _

lemma reports_writeBlock {lo : ℤ} {xs : List RrdValue} : Reports Permitted (writeBlock st lo xs) := by
  induction xs generalizing lo st with
  | nil => exact .ok _
  | cons x xs ih => exact reports_wr.bind fun _ => ih

lemma reports_sortBlock {top lo k : ℤ} : Reports Permitted (sortBlock st top lo k) :=
  .ite (.fault _) (reports_readBlock.bind fun _ => reports_writeBlock)

lemma reports_revLoop {fuel : ℕ} {p q : ℤ} : Reports Permitted (revLoop fuel p q st) := by
  induction fuel generalizing p q st with
  | zero => exact .ok _
  | succ fuel ih =>
    exact .ite (reports_rd.bind fun _ => reports_rd.bind fun _ => reports_wr.bind fun _ => reports_wr.bind fun _ => ih)
      (.ok _)

lemma reports_popLoop {k : ℕ} : Reports Permitted (popLoop k st) := by
  induction k generalizing st with
  | zero => exact .ok _
  | succ k ih => exact reports_rd.bind fun _ => ih.bind fun _ => .ok _

lemma reports_popCounted {k : ℤ} : Reports Permitted (popCounted k st) := .ite (.fault _) reports_popLoop

lemma reports_medianLoop {fuel : ℕ} {goodvals badvals finalElements : ℤ} :
    Reports Permitted (medianLoop fuel goodvals badvals finalElements st) := by
  induction fuel generalizing goodvals badvals finalElements st with
  | zero => exact .ok _
  | succ fuel ih =>
    exact .ite (reports_rd.bind fun _ => .ite (reports_rd.bind fun _ => reports_wr.bind fun _ => ih) ih) (.ok _)

lemma reports_rollLoop {base j : ℤ} {tmpStack : List RrdValue} {k : ℕ} :
    Reports Permitted (rollLoop base tmpStack k j st) := by
  induction k generalizing j st with
  | zero => exact .ok _
  | succ k ih => exact reports_wr.bind fun _ => ih

lemma reports_copyLoop {base : ℤ} {k : ℕ} : Reports Permitted (copyLoop base k st) := by
  induction k generalizing st with
  | zero => exact .ok _
  | succ k ih => exact reports_rd.bind fun _ => reports_wr.bind fun _ => ih

lemma reports_opXimum {better : RrdValue → RrdValue → Bool} : Reports Permitted (opXimum better m st) :=
  reports_takeCount.bind fun _ => reports_popCounted.bind fun _ => reports_push

lemma reports_opMedian : Reports Permitted (opMedian m st) :=
  reports_takeCount.bind fun _ => reports_medianLoop.bind fun _ => reports_rd.bind fun _ =>
    .ite reports_push (reports_sortBlock.bind fun _ => reports_rd.bind fun _ =>
      .ite reports_push (reports_rd.bind fun _ => reports_push))

lemma reports_opPercent : Reports Permitted (opPercent m st) :=
  reports_stackunderflow.bind fun _ => reports_rd.bind fun _ => reports_rd.bind fun _ =>
    .ite (.error .percent) (reports_stackunderflow.bind fun _ => reports_sortBlock.bind fun _ =>
      reports_rd.bind fun _ => reports_push)

lemma reports_opRoll : Reports Permitted (opRoll m st) :=
  reports_stackunderflow.bind fun _ => reports_rd.bind fun _ => reports_rd.bind fun _ =>
    reports_stackunderflow.bind fun _ => .ite (.error (.outOfMemory _))
      (reports_readBlock.bind fun _ => reports_rollLoop)

lemma reports_opCopy : Reports Permitted (opCopy m st) :=
  reports_rd.bind fun _ => reports_stackunderflow.bind fun _ => .ite (.fault _) reports_copyLoop

/-- A plain operator reports a permitted error if it reports one. -/
lemma reports_calcOp (hplain : Plain n.op) : Reports Permitted (calcOp m call nodes rpi n st) := by
  have hunary := @reports_unary st
  have hbinary := @reports_binary st
  have hternary := @reports_ternary st
  have hpush := @reports_push st
  unfold calcOp
  generalize n.op = op at hplain
  cases op with
  | «variable» => exact absurd rfl hplain.2.1
  | prevOther => exact absurd rfl hplain.2.2
  | trend => exact absurd (by decide) hplain.1
  | trendnan => exact absurd (by decide) hplain.1
  | predict => exact absurd (by decide) hplain.1
  | predictsigma => exact absurd (by decide) hplain.1
  | predictperc => exact absurd (by decide) hplain.1
  | dup => exact reports_stackunderflow.bind fun _ => reports_rd.bind fun _ => reports_wr.bind fun _ => .ok _
  | pop => exact reports_stackunderflow.bind fun _ => .ok _
  | exc =>
    exact reports_stackunderflow.bind fun _ => reports_rd.bind fun _ => reports_rd.bind fun _ =>
      reports_wr.bind fun _ => reports_wr
  | sort => exact reports_takeCount.bind fun _ => reports_sortBlock
  | rev => exact reports_takeCount.bind fun _ => reports_revLoop
  | avg => exact reports_takeCount.bind fun _ => reports_popLoop.bind fun _ => reports_push
  | stdev => exact reports_takeCount.bind fun _ => reports_popCounted.bind fun _ => reports_push
  | median => exact reports_opMedian
  | percent => exact reports_opPercent
  | smax => exact reports_opXimum
  | smin => exact reports_opXimum
  | roll => exact reports_opRoll
  | index =>
    exact reports_stackunderflow.bind fun _ => reports_rd.bind fun _ => reports_stackunderflow.bind fun _ =>
      reports_rd.bind fun _ => reports_wr
  | copy => exact reports_opCopy
  | «end» => exact .ok _
  | _ => first | exact hpush | exact hunary | exact hbinary | exact hternary

end Operators

/-! ### The run of an accepted program -/

/-- The programs have the same operators and numbers. -/
structure SameProgram (nodes nodes' : List CalcNode) : Prop where
  length : nodes'.length = nodes.length
  node : ∀ (i : ℕ) (n n' : CalcNode), nodes[i]? = some n → nodes'[i]? = some n' → n'.op = n.op ∧ n'.val = n.val

section Run

variable {m : Machine} {call : Call} {stack : CalcState} {nodes nodes' : List CalcNode} {k : ℕ}

lemma calcStep_plain {n : CalcNode} (hn : nodes[k]? = some n) (hplain : Plain n.op) :
    calcStep m call k ⟨stack, nodes⟩ = (calcOp m call nodes k n (grow stack)).map fun stack => ⟨stack, nodes⟩ := by
  have hset : nodes.set k n = nodes := by
    obtain ⟨hk, rfl⟩ := List.getElem?_eq_some_iff.1 hn
    exact List.set_getElem_self hk
  unfold calcStep
  dsimp only
  rw [hn]
  dsimp only
  rw [advance_plain hplain, hset]
  cases calcOp m call nodes k n (grow stack) with
  | error e => rfl
  | ok st => rfl

/-- Up to the first `PREV(name)` the two programs do the same. -/
lemma steps_agree (hsame : SameProgram nodes nodes') (hk : k ≤ nodes.length)
    (hplain : ∀ i < k, ∀ n, nodes[i]? = some n → n.op ≠ .prevOther → Plain n.op)
    (hreach : ∀ i < k, ∀ n, nodes[i]? = some n → n.op = .prevOther →
      ∀ run, steps (calcStep m call) i ⟨stack, nodes⟩ ≠ .ok run) :
    (∃ e, steps (calcStep m call) k ⟨stack, nodes⟩ = .error e ∧
        steps (calcStep m call) k ⟨stack, nodes'⟩ = .error e ∧ ∀ x, e = .error x → Permitted x) ∨
      ∃ st, steps (calcStep m call) k ⟨stack, nodes⟩ = .ok ⟨st, nodes⟩ ∧
        steps (calcStep m call) k ⟨stack, nodes'⟩ = .ok ⟨st, nodes'⟩ := by
  induction k with
  | zero => exact .inr ⟨stack, rfl, rfl⟩
  | succ k ih =>
    rcases ih (by omega) (fun i hi => hplain i (by omega)) (fun i hi => hreach i (by omega)) with
      ⟨e, he, he', hx⟩ | ⟨st, hst, hst'⟩
    · exact .inl ⟨e, by rw [steps, he]; rfl, by rw [steps, he']; rfl, hx⟩
    · obtain ⟨n, hn⟩ : ∃ n, nodes[k]? = some n := ⟨_, List.getElem?_eq_getElem (by omega)⟩
      obtain ⟨n', hn'⟩ : ∃ n', nodes'[k]? = some n' :=
        ⟨_, List.getElem?_eq_getElem (by rw [hsame.length]; omega)⟩
      obtain ⟨hop, hval⟩ := hsame.node k n n' hn hn'
      have hn_plain : Plain n.op := hplain k (by omega) n hn fun hprev => hreach k (by omega) n hn hprev _ hst
      have hn_plain' : Plain n'.op := by rwa [hop]
      have hreports := @reports_calcOp m call (grow st) nodes k n hn_plain
      rw [steps, hst, steps, hst', ok_bind, ok_bind, calcStep_plain hn hn_plain, calcStep_plain hn' hn_plain',
        calcOp_congr hn_plain hop hval]
      cases hrun : calcOp m call nodes k n (grow st) with
      | error e =>
        refine .inl ⟨e, rfl, rfl, ?_⟩
        rintro x rfl
        exact hreports x hrun
      | ok st' => exact .inr ⟨st', rfl, rfl⟩

/-- `PREV(name)` cannot be evaluated when the data source count is not set. -/
lemma calcStep_prevOther {n : CalcNode} (hn : nodes[k]? = some n) (hop : n.op = .prevOther) (hcnt : n.dsCnt = 0) :
    calcStep m call k ⟨stack, nodes⟩ = .error (.error .vdef) := by
  unfold calcStep calcOp
  simp only [hn, hop, opVariable, hcnt, if_true]
  rfl

end Run

section Accepted

variable {names : List Text} {expr : Text} {c : List RpnCdefds} {pdpTemp : ℤ → RrdValue} {unset : ℕ → CalcNode}

lemma op_of_compactNode {n : Rpnp} {cn : RpnCdefds} (h : compactNode n = .ok cn) : (expandNode cn).op = n.op := by
  unfold expandNode
  cases hop : n.op with
  | number =>
    simp only [compactNode, hop] at h
    split at h
    · split at h
      · cases h
      · obtain rfl := Except.ok.inj h
        rw [ofCode_code]
        rfl
    · cases h
  | «variable» =>
    simp only [compactNode, hop] at h
    obtain rfl := Except.ok.inj h
    rw [ofCode_code]
    rfl
  | prevOther =>
    simp only [compactNode, hop] at h
    obtain rfl := Except.ok.inj h
    rw [ofCode_code]
    rfl
  | _ =>
    simp only [compactNode, hop] at h
    obtain rfl := Except.ok.inj h
    rw [ofCode_code]
    rfl

lemma ops_of_compact {p : List Rpnp} (h : p.mapM compactNode = .ok c) : (rpnExpand c).map Rpnp.op = p.map Rpnp.op := by
  induction p generalizing c with
  | nil =>
    obtain rfl := Except.ok.inj h
    rfl
  | cons node p ih =>
    obtain ⟨cn, c', hcn, hc', rfl⟩ := compact_cons h
    have htail := ih hc'
    rw [rpnExpand] at htail ⊢
    rw [List.map_cons, List.map_cons, List.map_cons, op_of_compactNode hcn, htail]

/-- What is accepted has no operator that is not supported. -/
lemma op_of_parseCDEFDS (h : parseCDEFDS names expr = .ok c) : ∀ n ∈ rpnExpand c, n.op ∉ unsupportedOps := by
  intro n hn hop
  unfold parseCDEFDS at h
  split at h
  · cases h
  · rename_i p hp
    split at h
    · cases h
    · rename_i hall
      unfold rpnCompact at h
      split at h
      · cases h
      · have hmem : n.op ∈ p.map Rpnp.op := by
          rw [← ops_of_compact h]
          exact List.mem_map_of_mem hn
        obtain ⟨n', hn', heq⟩ := List.mem_map.1 hmem
        apply hall
        rw [List.any_eq_true]
        exact ⟨n', hn', by rw [heq]; exact decide_eq_true hop⟩

/-- Every operator that is handed to `rpn_calc` is plain, but for `PREV(name)`. -/
lemma plain_computedNodes (h : parseCDEFDS names expr = .ok c) {k : ℕ} {n : CalcNode}
    (hn : (computedNodes unset pdpTemp c)[k]? = some n) (hprev : n.op ≠ .prevOther) : Plain n.op := by
  rw [computedNodes, List.getElem?_mapIdx] at hn
  obtain ⟨node, hnode, rfl⟩ := Option.map_eq_some_iff.1 hn
  have hop := op_of_parseCDEFDS h node (List.mem_of_getElem? hnode)
  have hcalc : (calcNode (unset k) (substitute pdpTemp node)).op = (substitute pdpTemp node).op := rfl
  rw [hcalc] at hprev ⊢
  unfold substitute at hprev ⊢
  split at hprev
  · rename_i hvar
    rw [if_pos hvar]
    exact show Plain RpnOp.number by decide
  · rename_i hvar
    rw [if_neg hvar]
    exact ⟨hop, hvar, hprev⟩

lemma sameProgram_computedNodes (unset unset' : ℕ → CalcNode) (pdpTemp : ℤ → RrdValue) (c : List RpnCdefds) :
    SameProgram (computedNodes unset pdpTemp c) (computedNodes unset' pdpTemp c) := by
  constructor
  · simp [computedNodes]
  · intro i n n' hn hn'
    rw [computedNodes, List.getElem?_mapIdx] at hn hn'
    obtain ⟨node, hnode, rfl⟩ := Option.map_eq_some_iff.1 hn
    obtain ⟨node', hnode', rfl⟩ := Option.map_eq_some_iff.1 hn'
    obtain rfl := Option.some.inj (hnode.symm.trans hnode')
    exact ⟨rfl, rfl⟩

end Accepted

/-- The expression can be evaluated: whatever the fields hold that are not set, the outcome is the same, and an error
is one of those that are permitted. -/
structure Evaluates (m : Machine) (pdpTemp : ℤ → RrdValue) (dsIdx pdpStep : ℤ) (stack : CalcState)
    (c : List RpnCdefds) : Prop where
  unset : ∀ unset, processComputed m unset pdpTemp dsIdx pdpStep stack c =
    processComputed m (fun _ => clearedNode) pdpTemp dsIdx pdpStep stack c
  errors : ∀ e, processComputed m (fun _ => clearedNode) pdpTemp dsIdx pdpStep stack c = .error (.error e) → Permitted e

/-- The calculator gets as far as a `PREV(name)`. -/
def ReachesPrevOther (m : Machine) (pdpTemp : ℤ → RrdValue) (dsIdx pdpStep : ℤ) (stack : CalcState)
    (c : List RpnCdefds) : Prop :=
  let nodes := computedNodes (fun _ => clearedNode) pdpTemp c
  ∃ k n run, nodes[k]? = some n ∧ n.op = .prevOther ∧
    steps (calcStep m ⟨0, pdpTemp, dsIdx, s32 pdpStep⟩) k ⟨stack.to (-1), nodes⟩ = .ok run

section Process

variable {names : List Text} {expr : Text} {c : List RpnCdefds} {m : Machine} {unset : ℕ → CalcNode}
  {pdpTemp : ℤ → RrdValue} {dsIdx pdpStep : ℤ} {stack st : CalcState} {nodes : List CalcNode}

/-- What `rpn_calc` makes of the last stack. -/
def finish (st : CalcState) : Calc (RrdValue × CalcState) :=
  if st.stptr ≠ 0 then .error (.error .finalSize)
  else do
    let v ← rd st st.stptr 0
    .ok (v, st)

lemma processComputed_of_error {e : Stop RpnError Fault}
    (h : steps (calcStep m ⟨0, pdpTemp, dsIdx, s32 pdpStep⟩) (computedNodes unset pdpTemp c).length
      ⟨stack.to (-1), computedNodes unset pdpTemp c⟩ = .error e) :
    processComputed m unset pdpTemp dsIdx pdpStep stack c = .error e := by
  unfold processComputed rpnCalc CalcRun.start
  dsimp only
  rw [h]
  rfl

lemma processComputed_of_ok
    (h : steps (calcStep m ⟨0, pdpTemp, dsIdx, s32 pdpStep⟩) (computedNodes unset pdpTemp c).length
      ⟨stack.to (-1), computedNodes unset pdpTemp c⟩ = .ok ⟨st, nodes⟩) :
    processComputed m unset pdpTemp dsIdx pdpStep stack c = finish st := by
  unfold processComputed rpnCalc CalcRun.start finish
  dsimp only
  rw [h, ok_bind]
  dsimp only
  split
  · rfl
  · cases rd st st.stptr 0 with
    | error e => rfl
    | ok v => rfl

lemma reports_finish : Reports Permitted (finish st) := .ite (.error .finalSize) (reports_rd.bind fun _ => .ok _)

/-- The first `PREV(name)` that is reached stops the run. -/
lemma processComputed_of_reaches (accepted : parseCDEFDS names expr = .ok c)
    (h : ReachesPrevOther m pdpTemp dsIdx pdpStep stack c) :
    processComputed m (fun _ => clearedNode) pdpTemp dsIdx pdpStep stack c = .error (.error .vdef) := by
  classical
  set nodes := computedNodes (fun _ => clearedNode) pdpTemp c with hnodes
  obtain ⟨n, run, hn, hop, hrun⟩ := Nat.find_spec h
  have hfirst := fun i (hi : i < Nat.find h) => Nat.find_min h hi
  set k := Nat.find h
  obtain ⟨hlt, -⟩ := List.getElem?_eq_some_iff.1 hn
  rcases steps_agree (sameProgram_computedNodes (fun _ => clearedNode) (fun _ => clearedNode) pdpTemp c) hlt.le
      (fun i _ n hn hprev => plain_computedNodes accepted hn hprev)
      (fun i hi n hn hprev run hrun => hfirst i hi ⟨n, run, hn, hprev, hrun⟩) with ⟨e, he, -, -⟩ | ⟨st, hst, -⟩
  · rw [hrun] at he
    cases he
  · have hcnt : n.dsCnt = 0 := by
      rw [computedNodes, List.getElem?_mapIdx] at hn
      obtain ⟨node, -, rfl⟩ := Option.map_eq_some_iff.1 hn
      rfl
    apply processComputed_of_error
    apply steps_error (show k + 1 ≤ _ from hlt)
    rw [steps, hst, ok_bind]
    exact calcStep_prevOther hn hop hcnt

end Process

/-- An accepted expression can be evaluated exactly if the calculator does not get as far as a `PREV(name)`. -/
theorem processComputed_evaluates_iff (names : List Text) (expr : Text) (c : List RpnCdefds)
    (accepted : parseCDEFDS names expr = .ok c) (m : Machine) (pdpTemp : ℤ → RrdValue) (dsIdx pdpStep : ℤ)
    (stack : CalcState) :
    Evaluates m pdpTemp dsIdx pdpStep stack c ↔ ¬ ReachesPrevOther m pdpTemp dsIdx pdpStep stack c := by
  constructor
  · intro h hreaches
    cases h.errors .vdef (processComputed_of_reaches accepted hreaches)
  · intro hreaches
    have hagree := fun unset => @steps_agree m ⟨0, pdpTemp, dsIdx, s32 pdpStep⟩ (stack.to (-1)) _ _ _
      (sameProgram_computedNodes (fun _ => clearedNode) unset pdpTemp c) le_rfl
      (fun i _ n hn hprev => plain_computedNodes accepted hn hprev)
      (fun i _ n hn hprev run hrun => hreaches ⟨i, n, run, hn, hprev, hrun⟩)
    have hlength := fun unset => (sameProgram_computedNodes (fun _ => clearedNode) unset pdpTemp c).length
    constructor
    · intro unset
      have h := hagree unset
      rw [← hlength unset] at h
      rcases h with ⟨e, he, he', -⟩ | ⟨st, hst, hst'⟩
      · rw [hlength] at he
        rw [processComputed_of_error he, processComputed_of_error he']
      · rw [hlength] at hst
        rw [processComputed_of_ok hst, processComputed_of_ok hst']
    · intro e h
      rcases hagree fun _ => clearedNode with ⟨x, hx, -, hpermitted⟩ | ⟨st, hst, -⟩
      · rw [processComputed_of_error hx] at h
        exact hpermitted e (Except.error.inj h)
      · rw [processComputed_of_ok hst] at h
        exact reports_finish e h

example : parseCDEFDS ["a".toList] "a,2,*".toList =
    .ok [⟨RpnOp.variable.code, 0⟩, ⟨RpnOp.number.code, 2⟩, ⟨RpnOp.mul.code, 0⟩] := by
  decide +kernel

/-- A stack that has not been used. -/
def emptyStack : CalcState := ⟨fun _ => .nan, -1, 0⟩

/-- `a,2,*`. -/
theorem processComputed_evaluates_iff_twice :
    Evaluates bareMachine (fun _ => .fin 3) 1 300 emptyStack
      [⟨RpnOp.variable.code, 0⟩, ⟨RpnOp.number.code, 2⟩, ⟨RpnOp.mul.code, 0⟩] := by
  apply (processComputed_evaluates_iff ["a".toList] "a,2,*".toList _ (by decide +kernel) bareMachine (fun _ => .fin 3) 1
    300 emptyStack).2
  rintro ⟨k, n, -, hn, hop, -⟩
  have hops : ∀ op ∈ (computedNodes (fun _ => clearedNode) (fun _ => .fin 3)
      [⟨RpnOp.variable.code, 0⟩, ⟨RpnOp.number.code, 2⟩, ⟨RpnOp.mul.code, 0⟩]).map CalcNode.op, op ≠ .prevOther := by
    decide +kernel
  exact hops n.op (List.mem_map_of_mem (List.mem_of_getElem? hn)) hop

/-- `PREV(a)` is accepted, and no update can evaluate it. -/
theorem processComputed_prev :
    ∃ c, parseCDEFDS ["a".toList] "PREV(a)".toList = .ok c ∧
      processComputed bareMachine (fun _ => clearedNode) (fun _ => .fin 3) 1 300 emptyStack c = .error (.error .vdef) ∧
      ¬ Evaluates bareMachine (fun _ => .fin 3) 1 300 emptyStack c := by
  have hrun : processComputed bareMachine (fun _ => clearedNode) (fun _ => .fin 3) 1 300 emptyStack
      [⟨RpnOp.prevOther.code, 0⟩] = .error (.error .vdef) := by
    rfl
  refine ⟨[⟨RpnOp.prevOther.code, 0⟩], by decide +kernel, hrun, fun h => ?_⟩
  cases h.errors .vdef hrun

end Rrdtool
