import Rrdtool.Graph.Arguments
import Rrdtool.Graph.DataFetch
import Rrdtool.Lib.Procedure

/-!
# `DEF`

Port of `parse_def` and of what `newGraphDescription` does for it (`src/rrd_graph_helper.c`). The arguments are taken by
their keys first; what is not taken then is the name with the file, the data source and the function. If this fails it is
tried once more with another first character in the key of the first argument.
-/

namespace Rrdtool.ParseDef

open Procedure Arguments

/-! ### Arguments -/

/-- `getKeyValueArgument`; the last one counts. -/
@[grind] def getKeyValueArgument (arg key : Text) (flag : ℤ) : List (KeyValue Str) → Option (Str × List (KeyValue Str))
  | [] => none
  | kv :: kvs =>
    match getKeyValueArgument arg key flag kvs with
    | some (value, kvs) => some (value, kv :: kvs)
    | none => if kv.key.text arg = key then some (kv.value, (if flag = 0 then kv else { kv with flag }) :: kvs) else none

@[grind] def getFirstUnusedArgument (flag : ℤ) : List (KeyValue Str) → Option (KeyValue Str × List (KeyValue Str))
  | [] => none
  | kv :: kvs =>
    if kv.flag = 0 then some ({ kv with flag }, { kv with flag } :: kvs)
    else (getFirstUnusedArgument flag kvs).map fun (first, kvs) => (first, kv :: kvs)

@[grind] def resetParsedArguments (kvs : List (KeyValue Str)) : List (KeyValue Str) :=
  kvs.map fun kv => if kv.flag = 255 then kv else { kv with flag := 0 }

/-- `getLong`, if nothing is left of the text. -/
def getLong (v : Text) : Option ℤ :=
  match strtol 10 v with
  | some (val, []) => some (toLong val)
  | _ => none

/-- The command of an argument, as `rrd_graph_script` looks it up. -/
def command (pa : ParsedArgs) : Option (Text × ParsedArgs) :=
  let found :=
    match getKeyValueArgument pa.arg "cmd".toList 255 pa.kvArgs with
    | some found => some found
    | none => getKeyValueArgument pa.arg "pos0".toList 255 pa.kvArgs
  found.map fun (cmd, kvArgs) => (cmd.text pa.arg, { pa with kvArgs })

/-! ### Descriptions -/

/-- What a `DEF` has of `graph_desc_t`; a function is missing if it is -1. -/
structure GraphDesc where
  debug : ℤ
  vname : Text
  rrd : Text
  dsNam : Text
  cf : Option Cf
  cfReduce : Option Cf
  cfReduceSet : Bool
  daemon : Text
  step : ℤ
  stepOrig : ℤ
  start : ℤ
  startOrig : ℤ
  endTime : ℤ
  endOrig : ℤ
deriving DecidableEq

structure Graph where
  step : ℤ
  start : ℤ
  endTime : ℤ
  gdes : List GraphDesc
  gdefMap : Text → Option ℕ
  rrdMap : Text → Option ℕ

/-- `find_var`, if there is one. -/
def Graph.findVar (im : Graph) (key : Text) : Option ℕ := im.gdefMap key

/-- The functions that are used for times, with their values of the type `Tv`. -/
structure Clock (Tv : Type) where
  absolute : ℤ → Tv
  parsetime : Text → Tv → Except Text Tv
  procStartEnd : Tv → Tv → Except Text (ℤ × ℤ)

/-- An error, or a string of the program's own that is written to. -/
inductive Fault where
  | error (message : Text)
  | crash
deriving DecidableEq

/-- The arguments, and the description that is made of them. -/
structure Parsing where
  pa : ParsedArgs
  gdp : GraphDesc

abbrev Parse (α : Type) := Proc Fault Parsing α

def fail {α : Type} (message : Text) : Parse α := throw (.error message)

def textOf (s : Str) : Parse Text := return s.text (← get).pa.arg

def describeAs (f : GraphDesc → GraphDesc) : Parse Unit := modify fun s => { s with gdp := f s.gdp }

/-- The value of a key, which is used now. -/
def valueOf (key : String) : Parse (Option Str) := do
  let s ← get
  match getKeyValueArgument s.pa.arg key.toList 1 s.pa.kvArgs with
  | none => return none
  | some (value, kvArgs) =>
    set { s with pa := { s.pa with kvArgs } }
    return some value

@[grind] def firstUnused (complaint : String) : Parse (KeyValue Str) := do
  let s ← get
  match getFirstUnusedArgument 1 s.pa.kvArgs with
  | none => fail (complaint.toList ++ s.pa.argOrig)
  | some (first, kvArgs) =>
    set { s with pa := { s.pa with kvArgs } }
    return first

/-! ### `newGraphDescription` -/

/-- A whole number, 0 if it is not given. -/
def longOf (key complaint : String) (good : ℤ → Bool) : Parse ℤ := do
  match ← valueOf key with
  | none => return 0
  | some t =>
    let text ← textOf t
    match (getLong text).filter good with
    | none => fail (complaint.toList ++ text)
    | some val => return val

def setReduce : Parse Unit := do
  match ← valueOf "reduce" with
  | none => return
  | some t =>
    let reduce ← textOf t
    describeAs fun gdp => { gdp with cfReduce := rrdCfConv reduce, cfReduceSet := true }
    if rrdCfConv reduce = none then fail ("bad reduce CF: ".toList ++ reduce) else return

def setDaemon : Parse Unit := do
  match ← valueOf "daemon" with
  | none => return
  | some t =>
    let daemon ← textOf t
    describeAs fun gdp => { gdp with daemon := daemon.take 255 }

section Times

variable {Tv : Type} (clock : Clock Tv)

@[grind] def timeOf (key complaint : String) (now : ℤ) : Parse Tv := do
  match ← valueOf key with
  | none => return clock.absolute now
  | some t =>
    match clock.parsetime (← textOf t) (clock.absolute now) with
    | .error e => fail (complaint.toList ++ e)
    | .ok tv => return tv

/-- The times of a start and an end, if they are in order. -/
def Clock.range (startTv endTv : Tv) : Except Text (ℤ × ℤ) := do
  let (start, endTime) ← clock.procStartEnd startTv endTv
  if start < 3600 * 24 * 365 * 10 then
    .error ("the first entry to fetch should be after 1980 (".toList ++ decimal start ++ [')'])
  else if endTime < start then
    .error ("start (".toList ++ decimal start ++ ") should be less than end (".toList ++ decimal endTime ++ [')'])
  else .ok (start, endTime)

def setTimes : Parse Unit := do
  let startTv ← timeOf clock "start" "start time: " (← get).gdp.start
  let endTv ← timeOf clock "end" "end time: " (← get).gdp.endTime
  match clock.range startTv endTv with
  | .error e => fail e
  | .ok (start, endTime) =>
    describeAs fun gdp => { gdp with start, startOrig := start, endTime, endOrig := endTime }

/-- What has been given, or what the first argument that has not been used is. -/
@[grind] def part {α : Type} (given : Option α) (ofFirst : KeyValue Str → α) (complaint : String) : Parse α :=
  match given with
  | some a => return a
  | none => return ofFirst (← firstUnused complaint)

/-- What is given by its position, if it has not been given by its key. -/
def positional (vname rrd ds cf : Option Str) : Parse (Str × Str × Str × Str) := do
  let (vname, rrd) ← part (vname.bind fun vname => rrd.map fun rrd => (vname, rrd))
    (fun first => (vname.getD first.key, rrd.getD first.value)) "No argument for definition of vdef/rrd in "
  let ds ← part ds (fun first => first.value) "No argument for definition of DS in "
  let cf ← part cf (fun first => first.value) "No argument for definition of CF in "
  return (vname, rrd, ds, cf)

/-- The string at a place ends where a colour begins, and the colour where the next one does. -/
def cutColor (arg : Text) (p : ℕ) : Text :=
  let h1 := p + ((stringAt arg p).takeWhile (· ≠ '#')).length
  let arg := arg.set h1 '\x00'
  let h2 := h1 + 1 + ((stringAt arg (h1 + 1)).takeWhile (· ≠ '#')).length
  if arg.getD h2 '\x00' = '#' then arg.set h2 '\x00' else arg

/-- The name, without the colours that may follow it. -/
def nameOf (vname : Str) : Parse Text := do
  let text ← textOf vname
  if '#' ∈ text then
    match vname with
    | .literal _ => throw .crash
    | .place p =>
      modify fun s => { s with pa := { s.pa with arg := cutColor s.pa.arg p } }
      textOf vname
  else return text

def assign (findVar : Text → Option ℕ) (vname rrd ds cf : Str) : Parse Unit := do
  let name ← nameOf vname
  if (findVar name).isSome then fail ("trying to reuse vname ".toList ++ name)
  else
    let rrd ← textOf rrd
    let ds ← textOf ds
    let cf ← textOf cf
    describeAs fun gdp =>
      { gdp with vname := name.take 255, rrd := rrd.take 1023, dsNam := ds.take 19, cf := rrdCfConv cf }
    if rrdCfConv cf = none then fail ("bad CF: ".toList ++ cf) else return

/-- What is given by its key: the parts of the definition, and options. -/
@[grind] def options : Parse (Option Str × Option Str × Option Str × Option Str) := do
  let debug ← longOf "debug" "Bad debug value: " fun _ => true
  describeAs fun gdp => { gdp with debug }
  let vname ← valueOf "vname"
  let rrd ← valueOf "rrd"
  let ds ← valueOf "ds"
  let cf ← valueOf "cf"
  setReduce
  setDaemon
  let step ← longOf "step" "Bad step value: " (1 ≤ ·)
  describeAs fun gdp => { gdp with step }
  return (vname, rrd, ds, cf)

/-- The fields of a description, by the bits that `parse_def` asks for. -/
def describe (findVar : Text → Option ℕ) : Parse Unit := do
  let (vname, rrd, ds, cf) ← options
  setTimes clock
  let (vname, rrd, ds, cf) ← positional vname rrd ds cf
  assign findVar vname rrd ds cf

/-- `gdes_alloc`: the new description. -/
def Graph.gdesAlloc (im : Graph) : GraphDesc where
  debug := 0
  vname := []
  rrd := []
  dsNam := []
  cf := some .average
  cfReduce := some .average
  cfReduceSet := false
  daemon := []
  step := im.step
  stepOrig := im.step
  start := im.start
  startOrig := im.start
  endTime := im.endTime
  endOrig := im.endTime

/-- The number of a function. -/
def cfNumber (cf : Option Cf) : ℤ := cf.elim (-1) fun cf => cf.code

/-- `gdes_fetch_key`. -/
def GraphDesc.fetchKey (gdp : GraphDesc) : Text :=
  gdp.rrd ++ ':' :: gdp.daemon ++ ':' :: decimal (cfNumber gdp.cf) ++ ':' :: decimal (cfNumber gdp.cfReduce) ++
    ':' :: decimal (s32 gdp.startOrig) ++ ':' :: decimal (s32 gdp.endOrig) ++ ':' :: decimal (s32 gdp.stepOrig) ++
    ':' :: decimal (s32 gdp.step)

/-- The description is the last one of the graph, and is found by its key and by its name. -/
@[grind] def Graph.add (im : Graph) (gdp : GraphDesc) : Graph :=
  let n := im.gdes.length
  let gdefMap := if (im.rrdMap gdp.fetchKey).isNone then Function.update im.gdefMap gdp.fetchKey (some n) else im.gdefMap
  { im with
    gdes := im.gdes ++ [if gdp.step = 0 then { gdp with step := im.step } else gdp]
    gdefMap := Function.update gdefMap gdp.vname (some n) }

/-- Another first character; the end of an empty string is its first character. -/
def patchKey (arg : Text) (p : ℕ) : Text :=
  arg.set p (Char.ofNat (((arg.getD p '\x00').toNat + 128) % 256))

/-- `parse_def`. -/
@[grind] def parseDef (im : Graph) (pa : ParsedArgs) : Except Fault Graph :=
  match outcome (describe clock im.findVar) { pa, gdp := im.gdesAlloc } with
  | (.ok _, s) => .ok (im.add s.gdp)
  | (.error .crash, _) => .error .crash
  | (.error (.error message), s) =>
    let kvArgs := resetParsedArguments s.pa.kvArgs
    match getFirstUnusedArgument 0 kvArgs with
    | none => .error .crash
    | some (first, kvArgs) =>
      match first.key with
      | .literal key => if key ∈ poskeys then .error (.error message) else .error .crash
      | .place p =>
        match outcome (describe clock im.findVar) { pa := { s.pa with arg := patchKey s.pa.arg p, kvArgs }, gdp := s.gdp } with
        | (.ok _, s) => .ok (im.add s.gdp)
        | (.error .crash, _) => .error .crash
        | (.error (.error _), _) => .error (.error message)

end Times

end Rrdtool.ParseDef
