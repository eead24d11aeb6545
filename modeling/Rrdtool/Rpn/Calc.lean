import Mathlib.Data.List.Sort
import Rrdtool.Lib.Checked
import Rrdtool.Rpn.Parse

/-!
# The RPN calculator

Port of `rpn_calc` (`src/rrd_rpncalc.c`). The stack is a memory with a pointer to its top and a size up to
which it is allocated. Each read and each write of the source is checked here: a read has to be between the
bottom and the top of the stack, a write between the bottom and the allocated size. An operator that takes its
operands off the stack before it reads them may still read them. A loop that does not end and an access that
is not allowed are a `Fault`; what the source reports with `rrd_set_error` is an `RpnError`.

The functions of the C library, the clock, and what the machine makes of a number that does not fit into an
integer are the fields of a `Machine`. Integers do not overflow and memory does not run out, except for a
negative size.
-/

namespace Rrdtool

open Checked

/-- The fields of `struct tm` that are read. -/
structure Tm where
  mday : ℤ
  wday : ℤ
  mon : ℤ
  year : ℤ

/-- The C library and the machine. -/
structure Machine where
  sin : RrdValue → RrdValue
  cos : RrdValue → RrdValue
  atan : RrdValue → RrdValue
  log : RrdValue → RrdValue
  exp : RrdValue → RrdValue
  sqrt : RrdValue → RrdValue
  fmod : RrdValue → RrdValue → RrdValue
  pow : RrdValue → RrdValue → RrdValue
  atan2 : RrdValue → RrdValue → RrdValue
  /-- The integer for a number that does not fit. -/
  wild : RrdValue → ℤ
  /-- `(int) ceil((float) a / (float) b)`. -/
  fceil : ℤ → ℤ → ℤ
  time : ℤ
  localtime : ℤ → Tm
  tzoffset : ℤ → ℤ
  firstWeekday : ℤ

/-- A machine without mathematical functions, at the time 0. -/
def bareMachine : Machine where
  sin := fun _ => .nan
  cos := fun _ => .nan
  atan := fun _ => .nan
  log := fun _ => .nan
  exp := fun _ => .nan
  sqrt := fun _ => .nan
  fmod := fun _ _ => .nan
  pow := fun _ _ => .nan
  atan2 := fun _ _ => .nan
  wild := fun _ => -2 ^ 31
  fceil := fun a b => ⌈(a / b : ℚ)⌉
  time := 0
  localtime := fun _ => ⟨1, 4, 0, 70⟩
  tzoffset := fun _ => 0
  firstWeekday := 0

/-- A node of a program in the calculator (C `rpnp_t`): `pos` is where `data` points to. -/
structure CalcNode where
  op : RpnOp
  val : RrdValue
  data : ℤ → RrdValue
  pos : ℤ
  dsCnt : ℤ
  step : ℤ

/-- The arguments of one call. -/
structure Call where
  dataIdx : ℤ
  output : ℤ → RrdValue
  outputIdx : ℤ
  stepWidth : ℤ

/-- The stack (C `rpnstack_t`) and the pointer to its top. -/
structure CalcState where
  s : ℤ → RrdValue
  stptr : ℤ
  dcStacksize : ℤ

/-- The stack and the program. -/
structure CalcRun where
  stack : CalcState
  nodes : List CalcNode

/-- The errors that are reported. -/
inductive RpnError where
  /-- "RPN stack underflow" -/
  | underflow
  /-- "VDEF made it into rpn_calc... aborting" -/
  | vdef
  /-- "unsupported percentile: %f" -/
  | percentile (percentile : RrdValue)
  /-- "negative shift step not allowed: %i" -/
  | shiftStep (shiftstep : ℤ)
  /-- "malformed trend arguments" -/
  | trend
  /-- "percentile argument must be between 0 and 100" -/
  | percent
  /-- "RPN out of memory (allocating %i objects)" -/
  | outOfMemory (base : ℤ)
  /-- "RPN final stack size != 1" -/
  | finalSize
  /-- "rpn expressions without DEF or CDEF variables are not supported" (`data_calc`) -/
  | noVariable
deriving DecidableEq

/-- What must not happen. -/
inductive Fault where
  | read (i : ℤ)
  | write (i : ℤ)
  | loop
deriving DecidableEq

/-- A computation on the stack. -/
abbrev Calc (α : Type) := Except (Stop RpnError Fault) α

/-! ### Access to the stack -/

/-- `rpnstack->s[i]` as a value, with the top of the stack. -/
@[grind] def rd (st : CalcState) (top i : ℤ) : Calc RrdValue :=
  if 0 ≤ i ∧ i ≤ top then .ok (st.s i) else .error (.fault (.read i))

/-- `rpnstack->s[i] = v`. -/
@[grind] def wr (st : CalcState) (i : ℤ) (v : RrdValue) : Calc CalcState :=
  if 0 ≤ i ∧ i < st.dcStacksize then .ok { st with s := Function.update st.s i v }
  else .error (.fault (.write i))

/-- `stackunderflow(MINSIZE)`. -/
@[grind] def stackunderflow (st : CalcState) (minsize : ℤ) : Calc Unit :=
  if st.stptr < minsize then .error (.error .underflow) else .ok ()

/-- The pointer is moved to `stptr`. -/
def CalcState.to (st : CalcState) (stptr : ℤ) : CalcState := { st with stptr := stptr }

/-- `dc_stackblock`. -/
@[grind] def dcStackblock : ℤ := 1000

/-- The stack grows before each operator. -/
@[grind] def grow (st : CalcState) : CalcState :=
  if st.dcStacksize < st.stptr + 5 then { st with dcStacksize := st.dcStacksize + dcStackblock } else st

/-- `rpnstack->s[++stptr] = v`. -/
@[grind] def push (st : CalcState) (v : RrdValue) : Calc CalcState := wr (st.to (st.stptr + 1)) (st.stptr + 1) v

/-- An operator with one operand. -/
@[grind] def unary (f : RrdValue → RrdValue) (st : CalcState) : Calc CalcState := do
  stackunderflow st 0
  let x ← rd st st.stptr st.stptr
  wr st st.stptr (f x)

/-- An operator with two operands. -/
@[grind] def binary (f : RrdValue → RrdValue → RrdValue) (st : CalcState) : Calc CalcState := do
  stackunderflow st 1
  let x ← rd st st.stptr (st.stptr - 1)
  let y ← rd st st.stptr st.stptr
  let st ← wr st (st.stptr - 1) (f x y)
  .ok (st.to (st.stptr - 1))

/-- An operator with three operands. -/
@[grind] def ternary (f : RrdValue → RrdValue → RrdValue → RrdValue) (st : CalcState) : Calc CalcState := do
  stackunderflow st 2
  let x ← rd st st.stptr (st.stptr - 2)
  let y ← rd st st.stptr (st.stptr - 1)
  let z ← rd st st.stptr st.stptr
  let st ← wr st (st.stptr - 2) (f x y z)
  .ok (st.to (st.stptr - 2))

/-- The values of a block of the stack. -/
@[grind] def readBlock (st : CalcState) (top : ℤ) : ℤ → ℕ → Calc (List RrdValue)
  | _, 0 => .ok []
  | lo, n + 1 => do
    let x ← rd st top lo
    let xs ← readBlock st top (lo + 1) n
    .ok (x :: xs)

/-- A block of the stack is overwritten. -/
@[grind] def writeBlock (st : CalcState) : ℤ → List RrdValue → Calc CalcState
  | _, [] => .ok st
  | lo, x :: xs => do
    let st ← wr st lo x
    writeBlock st (lo + 1) xs

/-! ### Numbers -/

/-- A number without its fractional part. -/
@[grind] def truncate (q : ℚ) : ℤ := if 0 ≤ q then ⌊q⌋ else ⌈q⌉

/-- `(int) v`. -/
@[grind] def toInt (m : Machine) (v : RrdValue) : ℤ :=
  match v with
  | .fin q => if -2 ^ 31 - 1 < q ∧ q < 2 ^ 31 then truncate q else s32 (m.wild v)
  | _ => s32 (m.wild v)

/-- `(time_t) v`. -/
def toTime (m : Machine) (v : RrdValue) : ℤ :=
  match v with
  | .fin q => if -2 ^ 63 - 1 < q ∧ q < 2 ^ 63 then truncate q else s64 (m.wild v)
  | _ => s64 (m.wild v)

/-- A function of the finite values that keeps the others. -/
@[grind] def onFinite (f : ℚ → ℚ) (v : RrdValue) : RrdValue :=
  match v with
  | .fin q => .fin (f q)
  | v => v

/-- `round`. -/
@[grind] def roundAway (q : ℚ) : ℚ := if 0 ≤ q then ⌊q + 1 / 2⌋ else -⌊-q + 1 / 2⌋

/-- A truth value. -/
def truth (b : Bool) : RrdValue := .fin (if b then 1 else 0)

/-- A comparison: `nan` for an operand that is not known. -/
def compare (f : RrdValue → RrdValue → Bool) (x y : RrdValue) : RrdValue :=
  if x.isnan then x else if y.isnan then y else truth (f x y)

/-- `rpn_compare_double`. -/
@[grind] def rpnCompareDouble (x y : RrdValue) : ℤ :=
  if x.isnan ∧ y.isnan then 0
  else if x.isnan then -1
  else if y.isnan then 1
  else
    match x, y with
    | .pinf, _ => 1
    | .ninf, _ => -1
    | _, .pinf => 1
    | _, .ninf => -1
    | _, _ => if x - y < 0 then -1 else if 0 < x - y then 1 else 0

/-- `qsort` with `rpn_compare_double`. -/
def qsort (xs : List RrdValue) : List RrdValue := xs.insertionSort fun x y => rpnCompareDouble x y ≤ 0

/-- A block of `n` values from `lo` on is sorted. A negative `n` is a size beyond all memory. -/
@[grind] def sortBlock (st : CalcState) (top lo n : ℤ) : Calc CalcState :=
  if n < 0 then .error (.fault (.read lo))
  else do
    let xs ← readBlock st top lo n.toNat
    writeBlock st lo (qsort xs)

/-! ### Operators that take a count from the stack -/

/-- `n = (int) rpnstack->s[stptr--]` with the checks before and behind it: the count and the stack below it. -/
@[grind] def takeCount (m : Machine) (st : CalcState) : Calc (ℤ × CalcState) := do
  stackunderflow st 0
  let n := toInt m (← rd st st.stptr st.stptr)
  let st := st.to (st.stptr - 1)
  stackunderflow st (n - 1)
  .ok (n, st)

/-- `OP_SORT`. -/
@[grind] def opSort (m : Machine) (st : CalcState) : Calc CalcState := do
  let (spn, st) ← takeCount m st
  sortBlock st st.stptr (st.stptr - spn + 1) spn

/-- The loop of `OP_REV`; the distance between the pointers gets smaller. -/
def revLoop : ℕ → ℤ → ℤ → CalcState → Calc CalcState
  | 0, _, _, st => .ok st
  | fuel + 1, p, q, st =>
    if p < q then do
      let x ← rd st st.stptr q
      let y ← rd st st.stptr p
      let st ← wr st q y
      let st ← wr st p x
      revLoop fuel (p + 1) (q - 1) st
    else .ok st

/-- `OP_REV`. -/
def opRev (m : Machine) (st : CalcState) : Calc CalcState := do
  let (spn, st) ← takeCount m st
  revLoop (spn - 1).toNat (st.stptr - spn + 1) st.stptr st

/-- `rpnstack->s[stptr--]`, a number of times. -/
@[grind] def popLoop : ℕ → CalcState → Calc (List RrdValue × CalcState)
  | 0, st => .ok ([], st)
  | n + 1, st => do
    let v ← rd st st.stptr st.stptr
    let (vs, st) ← popLoop n (st.to (st.stptr - 1))
    .ok (v :: vs, st)

/-- `while (elements--)`: a negative count does not come to its end before the bottom of the stack. -/
@[grind] def popCounted (elements : ℤ) (st : CalcState) : Calc (List RrdValue × CalcState) :=
  if elements < 0 then .error (.fault (.read (-1))) else popLoop elements.toNat st

/-- The values that are known. -/
@[grind] def knownValues (vs : List RrdValue) : List RrdValue := vs.filter (!·.isnan)

/-- `OP_AVG`. -/
def opAvg (m : Machine) (st : CalcState) : Calc CalcState := do
  let (i, st) ← takeCount m st
  let (vs, st) ← popLoop i.toNat st
  push st (if knownValues vs = [] then .nan else (knownValues vs).sum / .fin (knownValues vs).length)

/-- One value of `OP_STDEV`. -/
def stdevStep (acc : ℕ × RrdValue × RrdValue) (datum : RrdValue) : ℕ × RrdValue × RrdValue :=
  let n := acc.1 + 1
  let delta := datum - acc.2.1
  let mean := acc.2.1 + delta / .fin n
  (n, mean, acc.2.2 + delta * (datum - mean))

/-- `OP_STDEV`. -/
@[grind] def opStdev (m : Machine) (st : CalcState) : Calc CalcState := do
  let (elements, st) ← takeCount m st
  let (vs, st) ← popCounted elements st
  let (n, _, mean2) := (knownValues vs).foldl stdevStep (0, 0, 0)
  push st (if n < 2 then .nan else m.sqrt (mean2 / .fin (n - 1)))

/-- `OP_SMAX` and `OP_SMIN`. -/
@[grind] def opXimum (better : RrdValue → RrdValue → Bool) (m : Machine) (st : CalcState) : Calc CalcState := do
  let (elements, st) ← takeCount m st
  let (vs, st) ← popCounted elements st
  push st (vs.foldl (fun ximum element => if ximum.isnan || better element ximum then element else ximum) .nan)

/-- `OP_SMAX`. -/
def opSmax (m : Machine) (st : CalcState) : Calc CalcState := opXimum (fun x y => y < x) m st

/-- `OP_SMIN`. -/
def opSmin (m : Machine) (st : CalcState) : Calc CalcState := opXimum (fun x y => x < y) m st

/-- The loop of `OP_MEDIAN` that moves the known values to the front. -/
@[grind] def medianLoop : ℕ → ℤ → ℤ → ℤ → CalcState → Calc (ℤ × ℤ × CalcState)
  | 0, goodvals, _, finalElements, st => .ok (goodvals, finalElements, st)
  | fuel + 1, goodvals, badvals, finalElements, st =>
    if goodvals < badvals then do
      if (← rd st st.stptr goodvals).isnan then
        let v ← rd st st.stptr badvals
        let st ← wr st goodvals v
        medianLoop fuel goodvals (badvals - 1) (finalElements - 1) st
      else medianLoop fuel (goodvals + 1) badvals finalElements st
    else .ok (goodvals, finalElements, st)

/-- `OP_MEDIAN`. -/
@[grind] def opMedian (m : Machine) (st : CalcState) : Calc CalcState := do
  let (elements, st) ← takeCount m st
  let top := st.stptr
  let elementPtr := st.stptr - elements + 1
  let (goodvals, finalElements, st) ← medianLoop (elements - 1).toNat elementPtr top elements st
  let finalElements := if (← rd st top goodvals).isnan then finalElements - 1 else finalElements
  let st := st.to (st.stptr - elements)
  if finalElements = 0 then push st .nan
  else do
    let st ← sortBlock st top elementPtr finalElements
    let v ← rd st top (elementPtr + finalElements / 2)
    if finalElements % 2 = 1 then push st v
    else do
      let w ← rd st top (elementPtr + finalElements / 2 - 1)
      push st (.fin (1 / 2) * (v + w))

/-- `OP_PERCENT`. -/
@[grind] def opPercent (m : Machine) (st : CalcState) : Calc CalcState := do
  stackunderflow st 2
  let elements := toInt m (← rd st st.stptr st.stptr)
  let percent ← rd st (st.stptr - 1) (st.stptr - 1)
  let st := st.to (st.stptr - 2)
  let top := st.stptr
  if percent.isnan ∨ percent < 0 ∨ .fin 100 < percent then .error (.error .percent)
  else do
    stackunderflow st (elements - 1)
    let st ← sortBlock st top (top - elements + 1) elements
    let st := st.to (st.stptr - elements)
    let v ← rd st top (st.stptr + toInt m (onFinite roundAway (percent * .fin elements / .fin 100)))
    push st v

/-- The loop of `OP_ROLL`. -/
@[grind] def rollLoop (base : ℤ) (tmpStack : List RrdValue) : ℕ → ℤ → CalcState → Calc CalcState
  | 0, _, st => .ok st
  | i + 1, j, st => do
    let j := (j - 1) % base
    let st ← wr st (st.stptr - i) (tmpStack.getD j.toNat .nan)
    rollLoop base tmpStack i j st

/-- `OP_ROLL`. -/
@[grind] def opRoll (m : Machine) (st : CalcState) : Calc CalcState := do
  stackunderflow st 1
  let step := toInt m (← rd st st.stptr st.stptr)
  let base := toInt m (← rd st (st.stptr - 1) (st.stptr - 1))
  let st := st.to (st.stptr - 2)
  stackunderflow st (base - 1)
  if base < 0 then .error (.error (.outOfMemory base))
  else do
    let tmpStack ← readBlock st st.stptr st.stptr base.toNat
    rollLoop base tmpStack base.toNat (base + step) st

/-- `OP_INDEX`. -/
@[grind] def opIndex (m : Machine) (st : CalcState) : Calc CalcState := do
  stackunderflow st 0
  let i := toInt m (← rd st st.stptr st.stptr)
  stackunderflow st i
  let v ← rd st st.stptr (st.stptr - i)
  wr st st.stptr v

/-- The stack grows until `need` values are allocated. -/
@[grind] def growLoop (need : ℤ) : ℕ → ℤ → ℤ
  | 0, dcStacksize => dcStacksize
  | fuel + 1, dcStacksize => if dcStacksize < need then growLoop need fuel (dcStacksize + dcStackblock) else dcStacksize

/-- The loop of `OP_COPY`. -/
@[grind] def copyLoop (base : ℤ) : ℕ → CalcState → Calc CalcState
  | 0, st => .ok st
  | n + 1, st => do
    let st := st.to (st.stptr + 1)
    let v ← rd st st.stptr (st.stptr - base)
    let st ← wr st st.stptr v
    copyLoop base n st

/-- `OP_COPY`. The loop over a negative count starts with a read above the top. -/
@[grind] def opCopy (m : Machine) (st : CalcState) : Calc CalcState := do
  let base := toInt m (← rd st st.stptr st.stptr)
  let st := st.to (st.stptr - 1)
  stackunderflow st (base - 1)
  let need := st.stptr + base
  let st := { st with dcStacksize := growLoop need (need - st.dcStacksize).toNat st.dcStacksize }
  if base < 0 then .error (.fault (.read (st.stptr + 1 - base))) else copyLoop base base.toNat st

/-! ### Operators that look at other values of a variable -/

/-- The values that `OP_PREDICT` finds at one shift. -/
def shiftVals (call : Call) (prev : CalcNode) (shiftstep locstep : ℤ) : List RrdValue :=
  (List.range (locstep + 1).toNat).filterMap fun i =>
    let offset := shiftstep + i
    if 0 ≤ offset ∧ offset < call.outputIdx then
      let val := prev.data (prev.pos - prev.dsCnt * offset)
      if val.isnan then none else some val
    else none

/-- The loop of `OP_PREDICT` over the shifts; `loop` of `doshifts` are done. -/
@[grind] def predictLoop (m : Machine) (call : Call) (prev : CalcNode) (st : CalcState) (top shifts locstep : ℤ) :
    ℕ → ℕ → Calc (List RrdValue)
  | 0, _ => .ok []
  | n + 1, loop => do
    let x ← if shifts < 0 then rd st st.stptr st.stptr else rd st top (st.stptr + loop)
    let shiftstep := toInt m (if shifts < 0 then .fin loop * x else x)
    if shiftstep < 0 then .error (.error (.shiftStep shiftstep))
    else do
      let vals ← predictLoop m call prev st top shifts locstep n (loop + 1)
      .ok (shiftVals call prev (m.fceil shiftstep prev.step) locstep ++ vals)

/-- The value of `OP_PREDICTPERC`. -/
def percentileOf (m : Machine) (percentile : RrdValue) (vals : List RrdValue) : RrdValue :=
  let extra := qsort vals
  let idxf := percentile * .fin (vals.length - 1)
  if percentile < 0 then extra.getD (toInt m (onFinite roundAway idxf.abs)).toNat .nan
  else
    let idx := toInt m (onFinite (fun q => ⌊q⌋) idxf)
    let deltax := idxf - .fin idx
    let val := extra.getD idx.toNat .nan
    if deltax = 0 then val else val + (extra.getD (idx.toNat + 1) .nan - val) * deltax

/-- The result of `OP_PREDICT`, `OP_PREDICTSIGMA` and `OP_PREDICTPERC`. -/
def predictVal (m : Machine) (op : RpnOp) (percentile : RrdValue) (vals : List RrdValue) : RrdValue :=
  let count : RrdValue := .fin vals.length
  let sum := vals.sum
  let sum2 := (vals.map fun val => val * val).sum
  match op with
  | .predict => if vals = [] then .nan else sum / count
  | .predictsigma =>
    if vals.length ≤ 1 then .nan
    else
      let val := count * sum2 - sum * sum
      if val < 0 then .nan else m.sqrt (val / (count * (count - .fin 1)))
  | .predictperc => if vals = [] then .nan else percentileOf m percentile vals
  | _ => .nan

/-- The percentile of `OP_PREDICTPERC`. -/
def takePercentile (op : RpnOp) (st : CalcState) : Calc (RrdValue × CalcState) :=
  if op = .predictperc then do
    stackunderflow st 1
    let st := st.to (st.stptr - 1)
    let percentile ← rd st st.stptr st.stptr
    if .fin 100 < percentile.abs then .error (.error (.percentile percentile))
    else .ok (percentile / .fin 100, st)
  else .ok (.nan, st)

/-- The operators once the percentile is taken off the stack. -/
@[grind] def predictShifts (m : Machine) (call : Call) (prev : CalcNode) (op : RpnOp) (percentile : RrdValue) (st : CalcState) :
    Calc CalcState := do
  stackunderflow st 2
  let st := st.to (st.stptr - 1)
  let locstepsize := toInt m (← rd st st.stptr st.stptr)
  let st := st.to (st.stptr - 1)
  let shifts := toInt m (← rd st st.stptr st.stptr)
  stackunderflow st shifts
  let top := st.stptr
  let st := st.to (if shifts < 0 then top - 1 else top - shifts)
  let locstep := m.fceil locstepsize prev.step
  let vals ← predictLoop m call prev st top shifts locstep shifts.natAbs 0
  wr st st.stptr (predictVal m op percentile vals)

/-- `OP_PREDICT`, `OP_PREDICTSIGMA` and `OP_PREDICTPERC`. -/
@[grind] def opPredict (m : Machine) (call : Call) (prev : CalcNode) (op : RpnOp) (st : CalcState) : Calc CalcState := do
  let (percentile, st) ← takePercentile op st
  predictShifts m call prev op percentile st

/-- The loop of `OP_TREND`. With a positive `step` it is over before the fuel is. -/
@[grind] def trendLoop (var : CalcNode) (ignorenan : Bool) (step : ℤ) :
    ℕ → ℤ → ℤ → RrdValue → ℕ → Calc (RrdValue × ℕ)
  | 0, _, _, _, _ => .error (.fault .loop)
  | fuel + 1, dur, i, accum, count =>
    let val := var.data (var.pos + var.dsCnt * i)
    let (accum, count) := if ignorenan || !val.isnan then (accum + val, count + 1) else (accum, count)
    if 0 < dur - step then trendLoop var ignorenan step fuel (dur - step) (i - 1) accum count
    else .ok (accum, count)

/-- `OP_TREND` and `OP_TRENDNAN`. -/
@[grind] def opTrend (m : Machine) (call : Call) (var : Option CalcNode) (op : RpnOp) (st : CalcState) : Calc CalcState := do
  stackunderflow st 1
  match var with
  | none => .error (.error .trend)
  | some var =>
    if var.op ≠ .variable then .error (.error .trend)
    else do
      let dur := toTime m (← rd st st.stptr st.stptr)
      let st := st.to (st.stptr - 1)
      if m.fceil dur var.step ≤ call.outputIdx + 1 then do
        let (accum, count) ← trendLoop var (op = .trend) var.step (dur.toNat + 1) dur (-1) 0 0
        wr st st.stptr (if count = 0 then .nan else accum / .fin count)
      else wr st st.stptr .nan

/-! ### One operator -/

/-- `OP_VARIABLE` and `OP_PREV_OTHER`. -/
@[grind] def opVariable (call : Call) (n : CalcNode) (st : CalcState) : Calc CalcState :=
  if n.dsCnt = 0 then .error (.error .vdef)
  else push st (if n.op = .variable then n.data n.pos
    else if call.outputIdx ≤ 0 then .nan else n.data (n.pos - n.dsCnt))

/-- The pointer of a variable advances at the end of its own step. -/
@[grind] def advance (call : Call) (n : CalcNode) : CalcNode :=
  if (n.op = .variable ∨ n.op = .prevOther) ∧ call.dataIdx % n.step = 0 then { n with pos := n.pos + n.dsCnt } else n

/-- Whether a field of the local time changes with this step. -/
def changes (m : Machine) (call : Call) (field : Tm → ℤ) : RrdValue :=
  truth (field (m.localtime call.dataIdx) ≠ field (m.localtime (call.dataIdx - call.stepWidth)))

/-- The `switch` of `rpn_calc`. -/
@[grind] def calcOp (m : Machine) (call : Call) (nodes : List CalcNode) (rpi : ℕ) (n : CalcNode) (st : CalcState) :
    Calc CalcState :=
  match n.op with
  | .number => push st n.val
  | .variable => opVariable call n st
  | .prevOther => opVariable call n st
  | .stepwidth => push st (.fin call.stepWidth)
  | .count => push st (.fin (call.outputIdx + 1))
  | .prev => push st (if call.outputIdx ≤ 0 then .nan else call.output (call.outputIdx - 1))
  | .unkn => push st .nan
  | .inf => push st .pinf
  | .neginf => push st .ninf
  | .now => push st (.fin m.time)
  | .time => push st (.fin call.dataIdx)
  | .ltime => push st (.fin (m.tzoffset call.dataIdx + call.dataIdx))
  | .newday => push st (changes m call Tm.mday)
  | .newweek => push st (if (m.localtime call.dataIdx).wday = m.firstWeekday then changes m call Tm.wday else .fin 0)
  | .newmonth => push st (changes m call Tm.mon)
  | .newyear => push st (changes m call Tm.year)
  | .add => binary (· + ·) st
  | .addnan => binary (fun x y => if x.isnan then y else if y.isnan then x else x + y) st
  | .sub => binary (· - ·) st
  | .mul => binary (· * ·) st
  | .div => binary (· / ·) st
  | .mod => binary m.fmod st
  | .pow => binary m.pow st
  | .sin => unary m.sin st
  | .atan => unary m.atan st
  | .rad2deg => unary (.fin 57.29577951 * ·) st
  | .deg2rad => unary (.fin 0.0174532952 * ·) st
  | .atan2 => binary m.atan2 st
  | .cos => unary m.cos st
  | .ceil => unary (onFinite fun q => ⌈q⌉) st
  | .round => unary (onFinite roundAway) st
  | .floor => unary (onFinite fun q => ⌊q⌋) st
  | .log => unary m.log st
  | .dup => do
    stackunderflow st 0
    let v ← rd st st.stptr st.stptr
    let st ← wr st (st.stptr + 1) v
    .ok (st.to (st.stptr + 1))
  | .pop => do
    stackunderflow st 0
    .ok (st.to (st.stptr - 1))
  | .exc => do
    stackunderflow st 1
    let dummy ← rd st st.stptr st.stptr
    let v ← rd st st.stptr (st.stptr - 1)
    let st ← wr st st.stptr v
    wr st (st.stptr - 1) dummy
  | .exp => unary m.exp st
  | .lt => binary (compare fun x y => x < y) st
  | .le => binary (compare fun x y => ¬ y < x) st
  | .gt => binary (compare fun x y => y < x) st
  | .ge => binary (compare fun x y => ¬ x < y) st
  | .ne => binary (compare fun x y => x ≠ y) st
  | .eq => binary (compare fun x y => x = y) st
  | .if => ternary (fun x y z => if x.isnan ∨ x = 0 then z else y) st
  | .min => binary (fun x y => if x.isnan then x else if y.isnan then y else if y < x then y else x) st
  | .minnan => binary (fun x y => if x.isnan then y else if y.isnan then x else if y < x then y else x) st
  | .max => binary (fun x y => if x.isnan then x else if y.isnan then y else if x < y then y else x) st
  | .maxnan => binary (fun x y => if x.isnan then y else if y.isnan then x else if x < y then y else x) st
  | .limit => ternary (fun x y z => if x.isnan then x else if y.isnan then y else if z.isnan then z
      else if x < y then .nan else if z < x then .nan else x) st
  | .un => unary (fun x => truth x.isnan) st
  | .isinf => unary (fun x => truth x.isinf) st
  | .sqrt => unary m.sqrt st
  | .sort => opSort m st
  | .rev => opRev m st
  | .predict => opPredict m call ((nodes[rpi - 1]?).getD n) n.op st
  | .predictsigma => opPredict m call ((nodes[rpi - 1]?).getD n) n.op st
  | .predictperc => opPredict m call ((nodes[rpi - 1]?).getD n) n.op st
  | .trend => opTrend m call (if rpi < 2 then none else nodes[rpi - 2]?) n.op st
  | .trendnan => opTrend m call (if rpi < 2 then none else nodes[rpi - 2]?) n.op st
  | .avg => opAvg m st
  | .abs => unary ExtNum.abs st
  | .median => opMedian m st
  | .stdev => opStdev m st
  | .percent => opPercent m st
  | .smax => opSmax m st
  | .smin => opSmin m st
  | .roll => opRoll m st
  | .index => opIndex m st
  | .copy => opCopy m st
  | .depth => push st (.fin (st.stptr + 1))
  | .end => .ok st

/-- One round of the loop of `rpn_calc`. -/
@[grind] def calcStep (m : Machine) (call : Call) (rpi : ℕ) (st : CalcRun) : Calc CalcRun :=
  let stack := grow st.stack
  match st.nodes[rpi]? with
  | none => .ok ⟨stack, st.nodes⟩
  | some n => do
    let stack ← calcOp m call st.nodes rpi n stack
    .ok ⟨stack, st.nodes.set rpi (advance call n)⟩

/-- The start of `rpn_calc`. -/
@[grind] def CalcRun.start (st : CalcRun) : CalcRun := ⟨st.stack.to (-1), st.nodes⟩

/-- `rpn_calc`: the value for `output[output_idx]`, and the stack and the program for the next call. -/
@[grind] def rpnCalc (m : Machine) (call : Call) (st : CalcRun) : Calc (RrdValue × CalcRun) := do
  let st ← steps (calcStep m call) st.nodes.length st.start
  if st.stack.stptr ≠ 0 then .error (.error .finalSize)
  else do
    let v ← rd st.stack st.stack.stptr 0
    .ok (v, st)

end Rrdtool
