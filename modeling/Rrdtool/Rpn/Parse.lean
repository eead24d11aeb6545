import Rrdtool.Strtol

/-!
# RPN expressions

Port of the first half of `src/rrd_rpncalc.c`: the operators (`enum op_en`), the parser `rpn_parse`, the
compact form that a `COMPUTE` data source keeps in its definition (`rpn_compact`, `rpn_expand`), the printer
of that form (`rpn_compact2str`) and `parseCDEF_DS`.

The parser reads an expression character by character, as the `sscanf` and `strncmp` calls of the source do.
A `PREV(name` whose name is not closed makes the source read behind the end of the string; it is refused here.
-/

namespace Rrdtool

/-- The operators (C `enum op_en`), in the order of their numbers. -/
inductive RpnOp where
  | number | variable | inf | prev | neginf | unkn | now | time | add | mod | sub | mul | div | sin | dup | exc
  | pop | cos | log | exp | lt | le | gt | ge | eq | if | min | max | limit | floor | ceil | un | end | ltime | ne
  | isinf | prevOther | count | atan | sqrt | sort | rev | trend | trendnan | atan2 | rad2deg | deg2rad | predict
  | predictsigma | avg | abs | addnan | minnan | maxnan | median | predictperc | depth | copy | roll | index
  | stepwidth | newday | newweek | newmonth | newyear | smin | smax | stdev | percent | pow | round
deriving DecidableEq

/-- The operators that `rpn_parse` matches by their name, in the order of the source. -/
def opNames : List (RpnOp × Text) :=
  [(.add, "+".toList), (.sub, "-".toList), (.mul, "*".toList), (.div, "/".toList), (.mod, "%".toList),
    (.sin, "SIN".toList), (.cos, "COS".toList), (.log, "LOG".toList), (.floor, "FLOOR".toList),
    (.ceil, "CEIL".toList), (.exp, "EXP".toList), (.dup, "DUP".toList), (.exc, "EXC".toList), (.pop, "POP".toList),
    (.ltime, "LTIME".toList), (.newday, "NEWDAY".toList), (.newweek, "NEWWEEK".toList),
    (.newmonth, "NEWMONTH".toList), (.newyear, "NEWYEAR".toList), (.stepwidth, "STEPWIDTH".toList),
    (.lt, "LT".toList), (.le, "LE".toList), (.gt, "GT".toList), (.ge, "GE".toList), (.eq, "EQ".toList),
    (.if, "IF".toList), (.min, "MIN".toList), (.max, "MAX".toList), (.limit, "LIMIT".toList),
    (.unkn, "UNKN".toList), (.un, "UN".toList), (.neginf, "NEGINF".toList), (.ne, "NE".toList),
    (.count, "COUNT".toList), (.prev, "PREV".toList), (.inf, "INF".toList), (.isinf, "ISINF".toList),
    (.now, "NOW".toList), (.time, "TIME".toList), (.atan2, "ATAN2".toList), (.atan, "ATAN".toList),
    (.sqrt, "SQRT".toList), (.sort, "SORT".toList), (.rev, "REV".toList), (.trend, "TREND".toList),
    (.trendnan, "TRENDNAN".toList), (.predict, "PREDICT".toList), (.predictsigma, "PREDICTSIGMA".toList),
    (.predictperc, "PREDICTPERC".toList), (.rad2deg, "RAD2DEG".toList), (.deg2rad, "DEG2RAD".toList),
    (.avg, "AVG".toList), (.abs, "ABS".toList), (.addnan, "ADDNAN".toList), (.minnan, "MINNAN".toList),
    (.maxnan, "MAXNAN".toList), (.median, "MEDIAN".toList), (.depth, "DEPTH".toList), (.copy, "COPY".toList),
    (.roll, "ROLL".toList), (.index, "INDEX".toList), (.smax, "SMAX".toList), (.smin, "SMIN".toList),
    (.stdev, "STDEV".toList), (.percent, "PERCENT".toList), (.pow, "POW".toList), (.round, "ROUND".toList)]

/-- A node of a program (C `rpnp_t`): the operator, the value of a `OP_NUMBER` and the index of a variable. -/
structure Rpnp where
  op : RpnOp
  val : RrdValue
  ptr : ℤ
deriving DecidableEq

def Rpnp.number (val : RrdValue) : Rpnp := ⟨.number, val, 0⟩
@[grind] def Rpnp.variable (ptr : ℤ) : Rpnp := ⟨.variable, .fin 0, ptr⟩
@[grind] def Rpnp.prevOther (ptr : ℤ) : Rpnp := ⟨.prevOther, .fin 0, ptr⟩
@[grind] def Rpnp.plain (op : RpnOp) : Rpnp := ⟨op, .fin 0, 0⟩

/-! ### `rpn_parse` -/

/-- The characters of a number, `[0-9.e+-]`. -/
def isNumChar (c : Char) : Bool := c.isDigit || c = '.' || c = 'e' || c = '+' || c = '-'

/-- The characters of a name, `[_A-Za-z0-9-]`. -/
def isNameChar (c : Char) : Bool := c.isAlphanum || c = '_' || c = '-'

/-- The characters that `%n[...]` reads. -/
@[grind] def scanSet (n : ℕ) (inSet : Char → Bool) (expr : Text) : Text := (expr.take n).takeWhile inSet

/-- `MAX_VNAME_LEN`. -/
def maxVnameLen : ℕ := 255

/-- An operand ends at a comma or at the end. -/
@[grind] def endsAt (expr : Text) (pos : ℕ) : Bool := expr[pos]? = none || expr[pos]? = some ','

/-- A number with a comma behind it. -/
@[grind] def matchNumber (expr : Text) : Option (Rpnp × Text) :=
  let doubleStr := scanSet 40 isNumChar expr
  if doubleStr ≠ [] ∧ expr[doubleStr.length]? = some ',' then
    match rrdStrtodbl doubleStr with
    | .whole v => some (.number v, expr.drop doubleStr.length)
    | _ => none
  else none

/-- `match_op`. -/
@[grind] def matchOp (expr : Text) (o : RpnOp × Text) : Option (Rpnp × Text) :=
  if o.2.isPrefixOf expr ∧ endsAt expr o.2.length then some (.plain o.1, expr.drop o.2.length) else none

/-- `match_op_param`, for `PREV`: whether the branch is entered, and what it makes of the expression. -/
@[grind] def matchPrevOther (lookup : Text → Option ℕ) (expr : Text) : Option (Option (Rpnp × Text)) :=
  if "PREV(".toList.isPrefixOf expr then
    let vname := scanSet maxVnameLen isNameChar (expr.drop 5)
    if vname = [] then none
    else
      let length := 4 + vname.length + 2
      if length ≤ expr.length ∧ endsAt expr length then
        some ((lookup vname).map fun (i : ℕ) => (Rpnp.prevOther (i : ℤ), expr.drop length))
      else some none
  else none

/-- The name of a variable. -/
@[grind] def matchVariable (lookup : Text → Option ℕ) (expr : Text) : Option (Rpnp × Text) :=
  let vname := scanSet maxVnameLen isNameChar expr
  if vname ≠ [] ∧ endsAt expr vname.length then
    (lookup vname).map fun (i : ℕ) => (Rpnp.variable (i : ℤ), expr.drop vname.length)
  else none

/-- One operand of an expression, and the expression behind it. No operator has a name that starts with
`PREV(`, so that this branch can stand behind theirs. -/
@[grind] def rpnOperand (lookup : Text → Option ℕ) (expr : Text) : Option (Rpnp × Text) :=
  match matchNumber expr with
  | some r => some r
  | none =>
    match opNames.findSome? (matchOp expr) with
    | some r => some r
    | none =>
      match matchPrevOther lookup expr with
      | some r => r
      | none => matchVariable lookup expr

/-- The loop of `rpn_parse`. -/
@[grind] def rpnLoop (lookup : Text → Option ℕ) : ℕ → Text → Option (List Rpnp)
  | 0, _ => none
  | fuel + 1, expr =>
    match rpnOperand lookup expr with
    | none => none
    | some (node, []) => some [node]
    | some (node, c :: expr) =>
      if c = ',' then if expr = [] then some [node] else (rpnLoop lookup fuel expr).map (node :: ·)
      else none

/-- `rpn_parse`, without the `OP_END` behind the program. -/
@[grind] def rpnParse (lookup : Text → Option ℕ) (expr : Text) : Option (List Rpnp) :=
  if expr = [] then none else rpnLoop lookup (expr.length + 1) expr

/-- `lookup_DS`. -/
def lookupDS (names : List Text) (dsName : Text) : Option ℕ := names.findIdx? (· = dsName)

/-! ### The compact form -/

/-- Conversion to `short`. -/
def s16 (z : ℤ) : ℤ := (z + 2 ^ 15) % 2 ^ 16 - 2 ^ 15

/-- `DS_CDEF_MAX_RPN_NODES`. -/
def dsCdefMaxRpnNodes : ℕ := 20

/-- The number of an operator. -/
@[grind] def RpnOp.code (op : RpnOp) : ℕ := op.ctorIdx

/-- The ways a program is refused for a `COMPUTE` data source. -/
inductive CdefError where
  | parse
  | unsupported
  | maxNodes (count : ℕ)
  | constant
deriving DecidableEq

/-- The message left by `rrd_set_error`. -/
def CdefError.message : CdefError → String
  | .parse => "failed to parse computed data source"
  | .unsupported =>
    "operators TIME LTIME STEPWIDTH PREV NEW* COUNT TREND TRENDNAN PREDICT PREDICTSIGMA PREDICTPERC are not " ++
      "supported with DS COMPUTE"
  | .maxNodes count =>
    "Maximum " ++ toString (dsCdefMaxRpnNodes - 1) ++ " RPN nodes permitted. Got " ++ toString count ++
      " RPN nodes at present."
  | .constant => "constants must be integers in the interval (-32768, 32767)"

/-- One node of `rpn_compact`. -/
@[grind] def compactNode (n : Rpnp) : Except CdefError RpnCdefds :=
  match n.op with
  | .number =>
    match n.val with
    | .fin q =>
      if ⌊q⌋ < -2 ^ 15 ∨ 2 ^ 15 - 1 < ⌊q⌋ ∨ (⌊q⌋ : ℚ) ≠ q then .error .constant
      else .ok ⟨RpnOp.number.code, ⌊q⌋⟩
    | _ => .error .constant
  | .variable => .ok ⟨RpnOp.variable.code, s16 n.ptr⟩
  | .prevOther => .ok ⟨RpnOp.prevOther.code, s16 n.ptr⟩
  | op => .ok ⟨op.code, 0⟩

/-- `rpn_compact`, without the `OP_END` behind the program. -/
@[grind] def rpnCompact (p : List Rpnp) : Except CdefError (List RpnCdefds) :=
  if dsCdefMaxRpnNodes < p.length + 1 then .error (.maxNodes p.length)
  else p.mapM compactNode

/-- All operators. -/
def allOps : List RpnOp := [.number, .variable, .prevOther, .end] ++ opNames.map Prod.fst

/-- The operator of a number. -/
def RpnOp.ofCode (code : ℕ) : RpnOp := (allOps.find? (·.code = code)).getD .end

/-- One node of `rpn_expand`. -/
@[grind] def expandNode (c : RpnCdefds) : Rpnp :=
  match RpnOp.ofCode c.op with
  | .number => .number (.fin c.val)
  | .variable => .variable c.val
  | .prevOther => .prevOther c.val
  | op => .plain op

/-- `rpn_expand`. -/
def rpnExpand (c : List RpnCdefds) : List Rpnp := c.map expandNode

/-- The operator as `rpn_compact2str` prints it; there is no text for `OP_PREV_OTHER`. -/
def compact2str (names : List Text) (c : RpnCdefds) : Text :=
  match RpnOp.ofCode c.op with
  | .number => decimal c.val
  | .variable => if c.val < 0 then [] else names.getD c.val.toNat []
  | op => ((opNames.find? (·.1 = op)).map Prod.snd).getD []

/-- The operands with commas between them. -/
@[grind] def joinCommas : List Text → Text
  | [] => []
  | [t] => t
  | t :: ts => t ++ ',' :: joinCommas ts

/-- `rpn_compact2str`. -/
def rpnCompact2str (names : List Text) (c : List RpnCdefds) : Text := joinCommas (c.map (compact2str names))

/-- The operators that `parseCDEF_DS` does not permit. -/
def unsupportedOps : List RpnOp :=
  [.time, .ltime, .prev, .count, .trend, .trendnan, .predict, .predictsigma, .predictperc, .stepwidth, .newday,
    .newweek, .newmonth, .newyear]

/-- `parseCDEF_DS`: the compact program of the data source. -/
@[grind] def parseCDEFDS (names : List Text) (def' : Text) : Except CdefError (List RpnCdefds) :=
  match rpnParse (lookupDS names) def' with
  | none => .error .parse
  | some p => if p.any (·.op ∈ unsupportedOps) then .error .unsupported else rpnCompact p

example : rpnParse (lookupDS [['a']]) "a,2,*".toList = some [.variable 0, .number (.fin 2), .plain .mul] := by
  decide +kernel

end Rrdtool
