import Rrdtool.Rpn.Stack

/-!
# Expressions

A program for the calculator of operators that take a fixed number of values off the stack is an expression written with
the operators behind their operands. `rpnCalc_iff_expression` says that `rpn_calc` evaluates it: it succeeds on the programs
that are written like this (`RpnExpr.program`) and on no others, and the value is that of the expression. The run keeps the
expressions whose values are on the stack (`OnStack`), and each operator makes one of those that it takes (`reads_calcOp`).
-/

namespace Rrdtool

open Checked

/-- What an operator makes of the values that it takes off the stack. -/
inductive Effect where
  | value (v : RrdValue)
  | unary (f : RrdValue → RrdValue)
  | binary (f : RrdValue → RrdValue → RrdValue)
  | ternary (f : RrdValue → RrdValue → RrdValue → RrdValue)

/-- The step on the stack. -/
def Effect.apply (st : CalcState) : Effect → Calc CalcState
  | .value v => push st v
  | .unary f => Rrdtool.unary f st
  | .binary f => Rrdtool.binary f st
  | .ternary f => Rrdtool.ternary f st

/-- The operators with a fixed number of operands; a variable needs its data. -/
@[grind] def effect (m : Machine) (call : Call) (n : CalcNode) : Option Effect :=
  match n.op with
  | .number => some (.value n.val)
  | .variable => if n.dsCnt = 0 then none else some (.value (n.data n.pos))
  | .prevOther =>
    if n.dsCnt = 0 then none else some (.value (if call.outputIdx ≤ 0 then .nan else n.data (n.pos - n.dsCnt)))
  | .stepwidth => some (.value (.fin call.stepWidth))
  | .count => some (.value (.fin (call.outputIdx + 1)))
  | .prev => some (.value (if call.outputIdx ≤ 0 then .nan else call.output (call.outputIdx - 1)))
  | .unkn => some (.value .nan)
  | .inf => some (.value .pinf)
  | .neginf => some (.value .ninf)
  | .now => some (.value (.fin m.time))
  | .time => some (.value (.fin call.dataIdx))
  | .ltime => some (.value (.fin (m.tzoffset call.dataIdx + call.dataIdx)))
  | .newday => some (.value (changes m call Tm.mday))
  | .newweek =>
    some (.value (if (m.localtime call.dataIdx).wday = m.firstWeekday then changes m call Tm.wday else .fin 0))
  | .newmonth => some (.value (changes m call Tm.mon))
  | .newyear => some (.value (changes m call Tm.year))
  | .add => some (.binary (· + ·))
  | .addnan => some (.binary fun x y => if x.isnan then y else if y.isnan then x else x + y)
  | .sub => some (.binary (· - ·))
  | .mul => some (.binary (· * ·))
  | .div => some (.binary (· / ·))
  | .mod => some (.binary m.fmod)
  | .pow => some (.binary m.pow)
  | .atan2 => some (.binary m.atan2)
  | .sin => some (.unary m.sin)
  | .cos => some (.unary m.cos)
  | .atan => some (.unary m.atan)
  | .log => some (.unary m.log)
  | .exp => some (.unary m.exp)
  | .sqrt => some (.unary m.sqrt)
  | .abs => some (.unary ExtNum.abs)
  | .rad2deg => some (.unary (.fin 57.29577951 * ·))
  | .deg2rad => some (.unary (.fin 0.0174532952 * ·))
  | .ceil => some (.unary (onFinite fun q => ⌈q⌉))
  | .round => some (.unary (onFinite roundAway))
  | .floor => some (.unary (onFinite fun q => ⌊q⌋))
  | .un => some (.unary fun x => truth x.isnan)
  | .isinf => some (.unary fun x => truth x.isinf)
  | .lt => some (.binary (compare fun x y => x < y))
  | .le => some (.binary (compare fun x y => ¬ y < x))
  | .gt => some (.binary (compare fun x y => y < x))
  | .ge => some (.binary (compare fun x y => ¬ x < y))
  | .ne => some (.binary (compare fun x y => x ≠ y))
  | .eq => some (.binary (compare fun x y => x = y))
  | .min => some (.binary fun x y => if x.isnan then x else if y.isnan then y else if y < x then y else x)
  | .minnan => some (.binary fun x y => if x.isnan then y else if y.isnan then x else if y < x then y else x)
  | .max => some (.binary fun x y => if x.isnan then x else if y.isnan then y else if x < y then y else x)
  | .maxnan => some (.binary fun x y => if x.isnan then y else if y.isnan then x else if x < y then y else x)
  | .if => some (.ternary fun x y z => if x.isnan ∨ x = 0 then z else y)
  | .limit => some (.ternary fun x y z => if x.isnan then x else if y.isnan then y else if z.isnan then z
      else if x < y then .nan else if z < x then .nan else x)
  | _ => none

/-- What becomes of the values on the stack, the top of it first; there have to be enough. -/
def Effect.on : Effect → List RrdValue → Option (List RrdValue)
  | .value v, vs => some (v :: vs)
  | .unary f, x :: vs => some (f x :: vs)
  | .binary f, y :: x :: vs => some (f x y :: vs)
  | .ternary f, z :: y :: x :: vs => some (f x y z :: vs)
  | _, _ => none

/-- A program of such operators, on the values alone. -/
@[grind] def onValues (m : Machine) (call : Call) (nodes : List CalcNode) (vs : List RrdValue) : Option (List RrdValue) :=
  nodes.foldlM (fun vs n => (effect m call n).bind fun e => e.on vs) vs

/-- An expression: the node of an operator and what it is applied to. -/
inductive RpnExpr where
  | value (n : CalcNode)
  | unary (n : CalcNode) (x : RpnExpr)
  | binary (n : CalcNode) (x y : RpnExpr)
  | ternary (n : CalcNode) (x y z : RpnExpr)

namespace RpnExpr

/-- The program: the operator stands behind its operands. -/
@[grind] def program : RpnExpr → List CalcNode
  | .value n => [n]
  | .unary n x => x.program ++ [n]
  | .binary n x y => x.program ++ y.program ++ [n]
  | .ternary n x y z => x.program ++ y.program ++ z.program ++ [n]

/-- The value, if each operator has as many operands as it takes. -/
@[grind] def eval (m : Machine) (call : Call) : RpnExpr → Option RrdValue
  | .value n =>
    match effect m call n with
    | some (.value v) => some v
    | _ => none
  | .unary n x =>
    match effect m call n with
    | some (.unary f) => (x.eval m call).map f
    | _ => none
  | .binary n x y =>
    match effect m call n with
    | some (.binary f) => (x.eval m call).bind fun u => (y.eval m call).map (f u)
    | _ => none
  | .ternary n x y z =>
    match effect m call n with
    | some (.ternary f) => (x.eval m call).bind fun u => (y.eval m call).bind fun v => (z.eval m call).map (f u v)
    | _ => none

end RpnExpr

section Operators

variable {m : Machine} {call : Call} {nodes : List CalcNode} {rpi : ℕ} {n : CalcNode} {e : Effect}

lemma opVariable_value {v : RrdValue} {st : CalcState} (hcnt : n.dsCnt ≠ 0)
    (hv : v = if n.op = .variable then n.data n.pos else if call.outputIdx ≤ 0 then .nan else n.data (n.pos - n.dsCnt)) :
    opVariable call n st = push st v := by
  unfold opVariable
  rw [if_neg hcnt, hv]

/-- The operator does what its effect says. -/
lemma calcOp_effect (h : effect m call n = some e) (st : CalcState) : calcOp m call nodes rpi n st = e.apply st := by
  obtain ⟨op, val, data, pos, dsCnt, step⟩ := n
  cases op with
  | «variable» =>
    simp only [effect] at h
    split at h
    · cases h
    · rename_i hcnt
      obtain rfl := Option.some.inj h
      exact opVariable_value hcnt (if_pos rfl).symm
  | prevOther =>
    simp only [effect] at h
    split at h
    · cases h
    · rename_i hcnt
      obtain rfl := Option.some.inj h
      exact opVariable_value hcnt (if_neg nofun).symm
  | _ =>
    first
    | (obtain rfl := Option.some.inj h; rfl)
    | cases h

/-- The stack holds the values, the first of them at the top, and has room for them. -/
structure OnStack (vs : List RrdValue) (st : CalcState) : Prop where
  stptr : st.stptr = vs.length - 1
  value : ∀ (i : ℕ) (v : RrdValue), vs[i]? = some v → st.s (st.stptr - i) = v
  room : st.stptr ≤ st.dcStacksize

variable {st : CalcState} {ws vs : List RrdValue} {v : RrdValue} {p : ℤ} {i : ℕ}

lemma onStack_empty (h : 0 ≤ st.dcStacksize) : OnStack [] (st.to (-1)) := ⟨rfl, nofun, by rw [to_stptr, to_dcStacksize]; omega⟩

lemma OnStack.grow (h : OnStack vs st) : OnStack vs (grow st) ∧ (grow st).stptr + 5 ≤ (grow st).dcStacksize := by
  obtain ⟨-, hroom⟩ := grow_room ⟨show -1 ≤ st.stptr by rw [h.stptr]; omega, h.room⟩
  unfold Rrdtool.grow at hroom ⊢
  split at hroom
  · rename_i hfull
    rw [if_pos hfull]
    exact ⟨⟨h.stptr, h.value, by have := h.room; dsimp only [dcStackblock]; omega⟩, hroom⟩
  · rename_i hfull
    rw [if_neg hfull]
    exact ⟨h, hroom⟩

/-- The values at the top are replaced by one. -/
lemma OnStack.replace (us : List RrdValue) (h : OnStack (us ++ ws) st) (htop : p = ws.length) (hroom : p ≤ st.dcStacksize) :
    OnStack (v :: ws) { st with s := Function.update st.s p v, stptr := p } := by
  refine ⟨by rw [htop, List.length_cons]; push_cast; ring, ?_, hroom⟩
  intro i x hx
  cases i with
  | zero =>
    obtain rfl := Option.some.inj hx
    exact (congrArg _ (by simp)).trans (Function.update_self p v st.s)
  | succ i =>
    have hold : (us ++ ws)[us.length + i]? = some x := by
      rw [List.getElem?_append_right (by omega), Nat.add_sub_cancel_left]
      exact hx
    have hplace : p - (i + 1 : ℕ) = st.stptr - (us.length + i : ℕ) := by
      rw [h.stptr, htop, List.length_append]
      push_cast
      ring
    show Function.update st.s p v (p - (i + 1 : ℕ)) = x
    rw [Function.update_of_ne (by omega), hplace]
    exact h.value _ x hold

/-- A value of the stack is read. -/
lemma OnStack.rd (h : OnStack vs st) (hv : vs[i]? = some v) (hp : p = st.stptr - i) : rd st st.stptr p = .ok v := by
  have hi : i < vs.length := (List.getElem?_eq_some_iff.1 hv).1
  have hstptr := h.stptr
  unfold Rrdtool.rd
  rw [if_pos (by omega), hp, h.value i v hv]

lemma wr_ok (h0 : 0 ≤ p) (h : p < st.dcStacksize) : wr st p v = .ok { st with s := Function.update st.s p v } :=
  if_pos ⟨h0, h⟩

/-- There are enough values. -/
lemma OnStack.enough (h : OnStack vs st) (hlen : p < vs.length) : stackunderflow st p = .ok () :=
  if_neg (by have := h.stptr; omega)

lemma OnStack.underflow (h : OnStack vs st) (hlen : vs.length ≤ p) : stackunderflow st p = .error (.error .underflow) :=
  if_pos (by have := h.stptr; omega)

/-- What an operator comes to on a stack. -/
def Reaches (c : Calc CalcState) : Option (List RrdValue) → Prop
  | some vs => ∃ st, c = .ok st ∧ OnStack vs st
  | none => c = .error (.error .underflow)

lemma reaches_push (h : OnStack vs st) (hroom : st.stptr + 5 ≤ st.dcStacksize) : Reaches (push st v) (some (v :: vs)) := by
  have hstptr := h.stptr
  have hnew := OnStack.replace [] (p := st.stptr + 1) (v := v) h (by omega) (by omega)
  exact ⟨_, wr_ok (by omega) (by rw [to_dcStacksize]; omega), hnew⟩

lemma reaches_unary (f : RrdValue → RrdValue) (h : OnStack vs st) (hroom : st.stptr + 5 ≤ st.dcStacksize) :
    Reaches (unary f st) (Effect.on (.unary f) vs) := by
  have hstptr := h.stptr
  unfold unary
  match vs with
  | [] =>
    rw [h.underflow (by simp)]
    rfl
  | x :: vs =>
    rw [List.length_cons] at hstptr
    refine ⟨_, ?_, OnStack.replace [x] (p := st.stptr) h (by omega) (by omega)⟩
    rw [h.enough (by simp only [List.length_cons]; omega), ok_bind, h.rd (i := 0) rfl (by omega), ok_bind]
    exact wr_ok (by omega) (by omega)

lemma reaches_binary (f : RrdValue → RrdValue → RrdValue) (h : OnStack vs st) (hroom : st.stptr + 5 ≤ st.dcStacksize) :
    Reaches (binary f st) (Effect.on (.binary f) vs) := by
  have hstptr := h.stptr
  unfold binary
  match vs with
  | [] =>
    rw [h.underflow (by simp)]
    rfl
  | [_] =>
    rw [h.underflow (by simp)]
    rfl
  | y :: x :: vs =>
    rw [List.length_cons, List.length_cons] at hstptr
    refine ⟨_, ?_, OnStack.replace [y, x] (p := st.stptr - 1) h (by omega) (by omega)⟩
    rw [h.enough (by simp only [List.length_cons]; omega), ok_bind, h.rd (i := 1) rfl (by omega), ok_bind, h.rd (i := 0) rfl (by omega), ok_bind,
      wr_ok (by omega) (by omega), ok_bind]
    rfl

lemma reaches_ternary (f : RrdValue → RrdValue → RrdValue → RrdValue) (h : OnStack vs st)
    (hroom : st.stptr + 5 ≤ st.dcStacksize) : Reaches (ternary f st) (Effect.on (.ternary f) vs) := by
  have hstptr := h.stptr
  unfold ternary
  match vs with
  | [] =>
    rw [h.underflow (by simp)]
    rfl
  | [_] =>
    rw [h.underflow (by simp)]
    rfl
  | [_, _] =>
    rw [h.underflow (by simp)]
    rfl
  | z :: y :: x :: vs =>
    rw [List.length_cons, List.length_cons, List.length_cons] at hstptr
    refine ⟨_, ?_, OnStack.replace [z, y, x] (p := st.stptr - 2) h (by omega) (by omega)⟩
    rw [h.enough (by simp only [List.length_cons]; omega), ok_bind, h.rd (i := 2) rfl (by omega), ok_bind, h.rd (i := 1) rfl (by omega), ok_bind,
      h.rd (i := 0) rfl (by omega), ok_bind, wr_ok (by omega) (by omega), ok_bind]
    rfl

lemma reaches_calcOp (nodes : List CalcNode) (rpi : ℕ) (he : effect m call n = some e) (h : OnStack vs st) :
    Reaches (calcOp m call nodes rpi n (Rrdtool.grow st)) (e.on vs) := by
  obtain ⟨hgrown, hroom⟩ := h.grow
  rw [calcOp_effect he]
  cases e with
  | value v => exact reaches_push hgrown hroom
  | unary f => exact reaches_unary f hgrown hroom
  | binary f => exact reaches_binary f hgrown hroom
  | ternary f => exact reaches_ternary f hgrown hroom

end Operators

/-! ### The run -/

section Run

variable {m : Machine} {call : Call} {nodes : List CalcNode} {stack : CalcState} {vs : List RrdValue}

/-- What the run has done behind the first `k` operators: those to come are as they were. -/
lemma reaches_steps (hall : ∀ n ∈ nodes, (effect m call n).isSome) (hstack : 0 ≤ stack.dcStacksize) {k : ℕ}
    (hk : k ≤ nodes.length) :
    match onValues m call (nodes.take k) [] with
    | some vs => ∃ run, steps (calcStep m call) k (CalcRun.start ⟨stack, nodes⟩) = .ok run ∧ OnStack vs run.stack ∧
        ∀ i, k ≤ i → run.nodes[i]? = nodes[i]?
    | none => steps (calcStep m call) k (CalcRun.start ⟨stack, nodes⟩) = .error (.error .underflow) := by
  induction k with
  | zero => exact ⟨_, rfl, onStack_empty hstack, fun _ _ => rfl⟩
  | succ k ih =>
    have hn : nodes[k]? = some nodes[k] := List.getElem?_eq_getElem hk
    obtain ⟨e, he⟩ := Option.isSome_iff_exists.1 (hall nodes[k] (List.getElem_mem hk))
    have hvalues : onValues m call (nodes.take (k + 1)) [] = (onValues m call (nodes.take k) []).bind e.on := by
      unfold onValues
      rw [List.take_add_one, hn, List.foldlM_append]
      simp [he]
    have hprev := ih (by omega)
    rw [hvalues, steps]
    cases hvs : onValues m call (nodes.take k) [] with
    | none =>
      rw [hvs] at hprev
      rw [Option.bind_none, hprev]
      rfl
    | some vs =>
      rw [hvs] at hprev
      obtain ⟨run, hrun, hon, hrest⟩ := hprev
      have hnode : run.nodes[k]? = some nodes[k] := (hrest k (le_refl k)).trans hn
      have hop := reaches_calcOp run.nodes k he hon
      rw [Option.bind_some, hrun, ok_bind]
      unfold calcStep
      simp only [hnode]
      cases hnext : e.on vs with
      | none =>
        rw [hnext] at hop
        rw [hop]
        rfl
      | some vs' =>
        rw [hnext] at hop
        obtain ⟨st, hst, hon'⟩ := hop
        refine ⟨⟨st, run.nodes.set k (advance call nodes[k])⟩, by rw [hst]; rfl, hon', ?_⟩
        intro i hi
        rw [List.getElem?_set_ne (by omega)]
        exact hrest i (by omega)

/-- `rpn_calc` works on the values alone. -/
lemma rpnCalc_iff_onValues (hall : ∀ n ∈ nodes, (effect m call n).isSome) (hstack : 0 ≤ stack.dcStacksize) (v : RrdValue) :
    (∃ run, rpnCalc m call ⟨stack, nodes⟩ = .ok (v, run)) ↔ onValues m call nodes [] = some [v] := by
  have hreach := reaches_steps hall hstack (le_refl nodes.length)
  rw [List.take_length] at hreach
  unfold rpnCalc
  cases hvs : onValues m call nodes [] with
  | none =>
    rw [hvs] at hreach
    simp only [hreach]
    exact iff_of_false (fun ⟨_, h⟩ => nomatch h) nofun
  | some vs =>
    rw [hvs] at hreach
    obtain ⟨run, hrun, hon, -⟩ := hreach
    simp only [hrun, ok_bind]
    have hstptr := hon.stptr
    split
    · rename_i hsize
      refine iff_of_false (fun ⟨_, h⟩ => nomatch h) ?_
      rintro ⟨⟩
      exact hsize hstptr
    · rename_i hsize
      rw [not_not] at hsize
      rw [hsize] at hstptr
      match vs with
      | [] => exact absurd hstptr (by simp)
      | x :: _ :: vs =>
        rw [List.length_cons, List.length_cons] at hstptr
        omega
      | [x] =>
        rw [hon.rd (i := 0) rfl (by omega)]
        refine ⟨?_, ?_⟩
        · rintro ⟨run', h⟩
          obtain ⟨rfl, -⟩ := Prod.mk.inj (Except.ok.inj h)
          rfl
        · rintro ⟨⟩
          exact ⟨run, rfl⟩

end Run

/-! ### Reading it back -/

section Reading

variable {m : Machine} {call : Call} {nodes rest : List CalcNode} {n : CalcNode} {vs vs' : List RrdValue} {e : Effect}
  {es : List RpnExpr} {v : RrdValue}

lemma onValues_append (p q : List CalcNode) (vs : List RrdValue) :
    onValues m call (p ++ q) vs = (onValues m call p vs).bind (onValues m call q) := List.foldlM_append

lemma onValues_singleton (h : effect m call n = some e) : onValues m call [n] vs = e.on vs := by
  simp [onValues, h]

/-- The program of an expression puts its value on the stack. -/
lemma onValues_program {x : RpnExpr} (h : x.eval m call = some v) (vs : List RrdValue) :
    onValues m call x.program vs = some (v :: vs) := by
  induction x generalizing v vs with
  | value n =>
    simp only [RpnExpr.eval] at h
    split at h
    · rename_i heff
      obtain rfl := Option.some.inj h
      exact onValues_singleton heff
    · cases h
  | unary n x ihx =>
    simp only [RpnExpr.eval] at h
    split at h
    · rename_i heff
      obtain ⟨u, hu, rfl⟩ := Option.map_eq_some_iff.1 h
      rw [RpnExpr.program, onValues_append, ihx hu, Option.bind_some, onValues_singleton heff]
      rfl
    · cases h
  | binary n x y ihx ihy =>
    simp only [RpnExpr.eval] at h
    split at h
    · rename_i heff
      obtain ⟨u, hu, hy⟩ := Option.bind_eq_some_iff.1 h
      obtain ⟨w, hw, rfl⟩ := Option.map_eq_some_iff.1 hy
      rw [RpnExpr.program, onValues_append, onValues_append, ihx hu, Option.bind_some, ihy hw, Option.bind_some,
        onValues_singleton heff]
      rfl
    · cases h
  | ternary n x y z ihx ihy ihz =>
    simp only [RpnExpr.eval] at h
    split at h
    · rename_i heff
      obtain ⟨u, hu, hrest⟩ := Option.bind_eq_some_iff.1 h
      obtain ⟨w, hw, hz⟩ := Option.bind_eq_some_iff.1 hrest
      obtain ⟨t, ht, rfl⟩ := Option.map_eq_some_iff.1 hz
      rw [RpnExpr.program, onValues_append, onValues_append, onValues_append, ihx hu, Option.bind_some, ihy hw,
        Option.bind_some, ihz ht, Option.bind_some, onValues_singleton heff]
      rfl
    · cases h

/-- Each value on the stack is that of an expression; together they are the program so far. -/
lemma exists_expressions (h : onValues m call nodes [] = some vs) :
    ∃ es, List.Forall₂ (fun x v => RpnExpr.eval m call x = some v) es vs ∧ es.reverse.flatMap RpnExpr.program = nodes := by
  induction nodes using List.reverseRecOn generalizing vs with
  | nil =>
    obtain rfl := Option.some.inj h
    exact ⟨[], .nil, rfl⟩
  | append_singleton nodes n ih =>
    rw [onValues_append] at h
    obtain ⟨us, hus, hn⟩ := Option.bind_eq_some_iff.1 h
    obtain ⟨es, hes, hprogram⟩ := ih hus
    obtain ⟨e, he⟩ : ∃ e, effect m call n = some e := by
      cases heff : effect m call n with
      | none => simp [onValues, heff] at hn
      | some e => exact ⟨e, rfl⟩
    rw [onValues_singleton he] at hn
    -- the operator takes the expressions whose values it takes off the stack
    cases e with
    | value v =>
      obtain rfl := Option.some.inj hn
      exact ⟨.value n :: es, .cons (by simp [RpnExpr.eval, he]) hes, by simp [RpnExpr.program, hprogram]⟩
    | unary f =>
      cases hes with
      | nil => cases hn
      | @cons x _ es _ hx hes =>
        obtain rfl := Option.some.inj hn
        refine ⟨.unary n x :: es, .cons (by simp [RpnExpr.eval, he, hx]) hes, ?_⟩
        rw [← hprogram]
        simp [RpnExpr.program]
    | binary f =>
      cases hes with
      | nil => cases hn
      | @cons y _ es _ hy hes =>
        cases hes with
        | nil => cases hn
        | @cons x _ es _ hx hes =>
          obtain rfl := Option.some.inj hn
          refine ⟨.binary n x y :: es, .cons (by simp [RpnExpr.eval, he, hx, hy]) hes, ?_⟩
          rw [← hprogram]
          simp [RpnExpr.program]
    | ternary f =>
      cases hes with
      | nil => cases hn
      | @cons z _ es _ hz hes =>
        cases hes with
        | nil => cases hn
        | @cons y _ es _ hy hes =>
          cases hes with
          | nil => cases hn
          | @cons x _ es _ hx hes =>
            obtain rfl := Option.some.inj hn
            refine ⟨.ternary n x y z :: es, .cons (by simp [RpnExpr.eval, he, hx, hy, hz]) hes, ?_⟩
            rw [← hprogram]
            simp [RpnExpr.program]

end Reading

/-- `rpn_calc` succeeds on a program of operators with a fixed number of operands if and only if it is an expression written
with the operators behind their operands, and its value is that of the expression. -/
theorem rpnCalc_iff_expression (m : Machine) (call : Call) (stack : CalcState) (nodes : List CalcNode) (v : RrdValue)
    (fixed : ∀ n ∈ nodes, (effect m call n).isSome) (allocated : 0 ≤ stack.dcStacksize) :
    (∃ run, rpnCalc m call ⟨stack, nodes⟩ = .ok (v, run)) ↔ ∃ x : RpnExpr, x.program = nodes ∧ x.eval m call = some v := by
  rw [rpnCalc_iff_onValues fixed allocated]
  constructor
  · intro h
    obtain ⟨es, hes, hprogram⟩ := exists_expressions h
    match es, hes with
    | [x], .cons hx .nil => exact ⟨x, by simpa using hprogram, hx⟩
  · rintro ⟨x, rfl, hx⟩
    exact onValues_program hx []

/-- The node of an operator without data. -/
def operatorNode (op : RpnOp) (val : RrdValue) : CalcNode := ⟨op, val, fun _ => .nan, 0, 0, 0⟩

/-- `2,3,+` -/
theorem rpnCalc_iff_expression_sum :
    ∃ run, rpnCalc bareMachine ⟨0, fun _ => .nan, 0, 1⟩
      ⟨⟨fun _ => .nan, -1, 0⟩, [operatorNode .number (.fin 2), operatorNode .number (.fin 3), operatorNode .add .nan]⟩ =
        .ok (.fin 2 + .fin 3, run) :=
  (rpnCalc_iff_expression _ _ _ _ _ (by decide) (by decide)).2
    ⟨.binary (operatorNode .add .nan) (.value (operatorNode .number (.fin 2))) (.value (operatorNode .number (.fin 3))),
      rfl, rfl⟩

end Rrdtool
