import Rrdtool.Create.Parse
import Rrdtool.Restore.Reader

/-!
# Restoring a dump

Port of the parser of `src/rrd_restore.c`, from the rows of an archive up to `parse_file`. Most of its functions go through
the elements up to an end (`elements`) and choose by the name what to read. `parse_tag_rra_params` does the same, but its
status is overwritten by that of the check behind each element.
-/

namespace Rrdtool.Restore

open Procedure

/-! ### What is restored -/

/-- An entry of `ds_def` and `pdp_prep`; the program of a `COMPUTE` source is stored over `par`. -/
structure RestoredDs where
  dsNam : Text
  dst : Text
  par : List Unival
  cdef : List RpnCdefds
  lastDs : Text
  scratch : List Unival

/-- An entry of `cdp_prep`; the violations are stored over `scratch`. -/
structure RestoredCdp where
  scratch : List Unival
  violations : List Bool

/-- An entry of `rra_def` and `rra_ptr`, with its part of `cdp_prep` and of `rrd_value`. -/
structure RestoredRra where
  cfNam : Text
  rowCnt : ℕ
  pdpCnt : ℕ
  par : List Unival
  cdpPrep : List RestoredCdp
  curRow : ℕ
  rows : List Row

structure Restored where
  version : Text
  pdpStep : ℕ
  lastUp : ℤ
  ds : List RestoredDs
  rra : List RestoredRra

/-- Unions that have been zeroed. -/
def zeroed : List Unival := List.replicate 10 (.cnt 0)

def RestoredDs.zero : RestoredDs := { dsNam := [], dst := [], par := zeroed, cdef := [], lastDs := [], scratch := zeroed }

def RestoredCdp.zero : RestoredCdp := { scratch := zeroed, violations := [] }

/-- An archive for which `parse_tag_rra` has made room. -/
@[grind] def RestoredRra.fresh (dsCnt : ℕ) : RestoredRra :=
  { cfNam := [], rowCnt := 0, pdpCnt := 0, par := zeroed, cdpPrep := List.replicate dsCnt .zero, curRow := 0, rows := [] }

def Restored.zero : Restored := { version := [], pdpStep := 0, lastUp := 0, ds := [], rra := [] }

/-- A double of a zeroed union is 0. -/
@[grind] def Unival.uVal : Unival → RrdValue
  | .val v => v
  | .cnt _ => .fin 0

/-! ### Elements -/

/-- The elements up to the end `closing`, where the status is returned, as it is where there is no element. The value of
`body` says besides whether the end of the element is gone already. -/
@[grind] def elementLoop {σ : Type} (closing : Text) (body : Text → σ → Read (σ × Bool)) : ℕ → Bool → σ → Read σ
  | 0, _, _ => throw .endless
  | fuel + 1, ok, s => do
    match ← attempt getXmlElement with
    | .error e => if ok then return s else throw e
    | .ok element =>
      if sameName element closing then
        if ok then return s else throw .silent
      else
        let (s, continued) ← body element s
        if continued then elementLoop closing body fuel true s
        else
          expectElementEnd element
          elementLoop closing body fuel true s

/-- The loop, which takes a node of the document in each round; `ok` is the status in front of it. -/
def elements {σ : Type} (closing : Text) (body : Text → σ → Read (σ × Bool)) (ok : Bool) (s : σ) : Read σ := do
  elementLoop closing body ((← get).rest.length + 1) ok s

/-- What is found in a table of element names. -/
def lookup {α : Type} (table : List (Text × α)) (element : Text) : Option α :=
  (table.find? fun entry => sameName element entry.1).map (·.2)

/-! ### The archives -/

/-- `value_check_range`. -/
def valueCheckRange (env : Env) (ds : RestoredDs) (v : RrdValue) : RrdValue :=
  if env.rangeCheck then
    let min := (ds.par.getD 1 (.cnt 0)).uVal
    let max := (ds.par.getD 2 (.cnt 0)).uVal
    if (min ≠ .nan ∧ v < min) ∨ (max ≠ .nan ∧ max < v) then .nan else v
  else v

/-- `parse_tag_rra_database_row`. -/
@[grind] def parseTagRraDatabaseRow (env : Env) : List RestoredDs → Read Row
  | [] => return []
  | ds :: dss => do
    expectElement "v".toList
    let v ← getXmlDouble env
    expectElement "/v".toList
    let row ← parseTagRraDatabaseRow env dss
    return valueCheckRange env ds v :: row

/-- The rows of `parse_tag_rra_database`, for an archive that has `rowCnt` of them already. -/
@[grind] def databaseElement (env : Env) (dss : List RestoredDs) (rowCnt : ℕ) (element : Text) (rows : List Row) :
    Read (List Row × Bool) := do
  if sameName element "row".toList then
    let row ← parseTagRraDatabaseRow env dss
    expectElement "/row".toList
    return (rows ++ [row], true)
  else if rowCnt + rows.length = 0 then throw .divisionByZero
  else
    throw (.error ("line ".toList ++ decimal (← get).node.line ++ ": found unexpected tag: ".toList ++ element))

/-- The end of `parse_tag_rra_database`, for the archive with the number `i`: the rows are turned so that the pointer is at the
last. Behind a second database with rows the source turns more rows than there are. -/
@[grind] def rotateRows (env : Env) (i : ℕ) (rra : RestoredRra) (rows : List Row) : Except Failure RestoredRra :=
  let rowCnt := rra.rowCnt + rows.length
  if rowCnt = 0 then .error .divisionByZero
  else if rows ≠ [] ∧ rra.rowCnt ≠ 0 then .error .outOfBounds
  else
    let curRow := env.random i % rowCnt
    let a := rowCnt - curRow - 1
    let start := if rows = [] then rra.rows else rows
    .ok { rra with rowCnt, curRow, rows := start.drop a ++ start.take a }

/-- `parse_tag_rra_database`. -/
def parseTagRraDatabase (env : Env) (dss : List RestoredDs) (i : ℕ) (rra : RestoredRra) : Read RestoredRra := do
  let rows ← elements "/database".toList (databaseElement env dss rra.rowCnt) true []
  match rotateRows env i rra rows with
  | .ok rra => return rra
  | .error e => throw e

/-- What an element of `cdp_prep` is read into: a union of `scratch`, or the violations. -/
inductive CdpTag where
  | number (par : ℕ) (kind : NumKind)
  | history
deriving DecidableEq

def cdpTags : List (Text × CdpTag) :=
  [("primary_value".toList, .number 8 .double), ("secondary_value".toList, .number 9 .double),
    ("intercept".toList, .number 2 .double), ("last_intercept".toList, .number 3 .double),
    ("slope".toList, .number 4 .double), ("last_slope".toList, .number 5 .double), ("nan_count".toList, .number 6 .ulong),
    ("last_nan_count".toList, .number 7 .ulong), ("seasonal".toList, .number 2 .double),
    ("last_seasonal".toList, .number 3 .double), ("init_flag".toList, .number 6 .ulong), ("history".toList, .history),
    ("value".toList, .number 0 .double), ("unknown_datapoints".toList, .number 1 .ulong)]

/-- `parse_tag_rra_cdp_prep_ds_history`. -/
def parseTagRraCdpPrepDsHistory (cdp : RestoredCdp) : Read RestoredCdp := do
  let history ← getXmlText
  return { cdp with violations := (history.take 10).map (· = '1') }

@[grind] def cdpPrepDsElement (env : Env) (element : Text) (cdp : RestoredCdp) : Read (RestoredCdp × Bool) :=
  match lookup cdpTags element with
  | some (.number par kind) => do
    let v ← getXmlNumber env kind
    return ({ cdp with scratch := cdp.scratch.set par v }, false)
  | some .history => do
    let cdp ← parseTagRraCdpPrepDsHistory cdp
    return (cdp, false)
  | none => throw (.error ("parse_tag_rra_cdp_prep: Unknown tag: ".toList ++ element))

/-- `parse_tag_rra_cdp_prep_ds`; the status is -1 before the first element. -/
@[grind] def parseTagRraCdpPrepDs (env : Env) : Read RestoredCdp :=
  elements "/ds".toList (cdpPrepDsElement env) false .zero

/-- `parse_tag_rra_cdp_prep`, for each data source. -/
@[grind] def cdpPrepLoop (env : Env) : ℕ → Read (List RestoredCdp)
  | 0 => return []
  | n + 1 => do
    expectElement "ds".toList
    let cdp ← parseTagRraCdpPrepDs env
    let cdps ← cdpPrepLoop env n
    return cdp :: cdps

@[grind] def parseTagRraCdpPrep (env : Env) (dsCnt : ℕ) : Read (List RestoredCdp) := do
  let cdps ← cdpPrepLoop env dsCnt
  expectElement "/cdp_prep".toList
  return cdps

/-- What an element of `params` is read into: a union of `par`, or all of them. -/
inductive ParamTag where
  | number (par : ℕ) (kind : NumKind)
  | value
deriving DecidableEq

def paramTags : List (Text × ParamTag) :=
  [("hw_alpha".toList, .number 1 .double), ("hw_beta".toList, .number 2 .double),
    ("dependent_rra_idx".toList, .number 3 .ulong), ("seasonal_gamma".toList, .number 1 .double),
    ("seasonal_smooth_idx".toList, .number 4 .ulong), ("smoothing_window".toList, .number 2 .double),
    ("delta_pos".toList, .number 1 .double), ("delta_neg".toList, .number 2 .double), ("window_len".toList, .number 4 .ulong),
    ("failure_threshold".toList, .number 5 .ulong), ("xff".toList, .number 0 .double), ("value".toList, .value)]

/-- The loop over `par` for version 1.0.49, up to its failure; between the first two texts no element is read. -/
@[grind] def valueLoop (env : Env) : ℕ → ℕ → List Unival → Read (List Unival)
  | 0, _, par => return par
  | n + 1, i, par => do
    match ← attempt (getXmlNumber env (if i = 3 ∨ i = 4 ∨ i = 5 then .ulong else .double)) with
    | .error _ => return par
    | .ok v =>
      let par := par.set i v
      if i = 0 then valueLoop env n (i + 1) par
      else
        match ← attempt (do expectElement "/value".toList; expectElement "value".toList) with
        | .error _ => return par
        | .ok () => valueLoop env n (i + 1) par

/-- An element of `params`. Whatever the status, that of `expect_element_end` takes its place. -/
@[grind] def paramsElement (env : Env) (element : Text) (rra : RestoredRra) : Read (RestoredRra × Bool) :=
  match lookup paramTags element with
  | some (.number par kind) => do
    match ← attempt (getXmlNumber env kind) with
    | .error _ => return (rra, false)
    | .ok v => return ({ rra with par := rra.par.set par v }, false)
  | some .value => do
    let par ← valueLoop env 10 0 rra.par
    return ({ rra with par }, false)
  | none => return (rra, false)

/-- `parse_tag_rra_params`; the status is -1 before the first element. -/
@[grind] def parseTagRraParams (env : Env) (rra : RestoredRra) : Read RestoredRra :=
  elements "/params".toList (paramsElement env) false rra

/-- `parse_tag_rra_cf`. -/
def parseTagRraCf (rra : RestoredRra) : Read RestoredRra := do
  let cfNam ← getXmlString 20
  match rrdCfConv cfNam with
  | some _ => return { rra with cfNam }
  | none => throw (.error ("parse_tag_rra_cf: Unknown consolidation function: ".toList ++ cfNam))

/-- An element of an archive, in a database of the given version. -/
@[grind] def rraElement (env : Env) (version : ℤ) (dss : List RestoredDs) (i : ℕ) (element : Text) (rra : RestoredRra) :
    Read (RestoredRra × Bool) := do
  if sameName element "cf".toList then
    return (← parseTagRraCf rra, false)
  else if sameName element "pdp_per_row".toList then
    return ({ rra with pdpCnt := ← getXmlUlong env }, false)
  else if version = 1 ∧ sameName element "xff".toList then
    return ({ rra with par := rra.par.set 0 (.val (← getXmlDouble env)) }, false)
  else if 2 ≤ version ∧ sameName element "params".toList then
    return (← parseTagRraParams env rra, true)
  else if sameName element "cdp_prep".toList then
    return ({ rra with cdpPrep := ← parseTagRraCdpPrep env dss.length }, true)
  else if sameName element "database".toList then
    return (← parseTagRraDatabase env dss i rra, true)
  else
    throw (.error ("line ".toList ++ decimal (← get).node.line ++ ": parse_tag_rra: Unknown tag: ".toList ++ element))

/-- `parse_tag_rra`. -/
def parseTagRra (env : Env) (rrd : Restored) : Read Restored := do
  let rra ← elements "/rra".toList (rraElement env (atoi rrd.version) rrd.ds rrd.rra.length) true (.fresh rrd.ds.length)
  return { rrd with rra := rrd.rra ++ [rra] }

/-! ### The data sources -/

/-- What an element of a data source is read into. -/
inductive DsTag where
  | name | type | cdef | lastDs
  | par (par : ℕ) (kind : NumKind)
  | scratch (par : ℕ) (kind : NumKind)
deriving DecidableEq

def dsTags : List (Text × DsTag) :=
  [("name".toList, .name), ("type".toList, .type), ("minimal_heartbeat".toList, .par 0 .ulong), ("min".toList, .par 1 .double),
    ("max".toList, .par 2 .double), ("cdef".toList, .cdef), ("last_ds".toList, .lastDs), ("value".toList, .scratch 1 .double),
    ("unknown_sec".toList, .scratch 0 .ulong)]

/-- `parse_tag_ds_cdef`; the names are those of all data sources so far. -/
def parseTagDsCdef (names : List Text) (ds : RestoredDs) : Read RestoredDs := do
  let text ← getXmlText
  match parseCDEFDS (names ++ [ds.dsNam]) text with
  | .ok cdef => return { ds with cdef }
  | .error e => throw (.error e.message.toList)

/-- `parse_tag_ds_type`. -/
def parseTagDsType (ds : RestoredDs) : Read RestoredDs := do
  let dst ← getXmlText
  match dstConv dst with
  | some _ => return { ds with dst := dst.take 19 }
  | none => throw (.error ("parse_tag_ds_type: Unknown data source type: ".toList ++ dst))

@[grind] def dsElement (env : Env) (names : List Text) (element : Text) (ds : RestoredDs) : Read (RestoredDs × Bool) :=
  match lookup dsTags element with
  | some .name => return ({ ds with dsNam := ← getXmlString 20 }, false)
  | some .type => return (← parseTagDsType ds, false)
  | some .cdef => return (← parseTagDsCdef names ds, false)
  | some .lastDs => return ({ ds with lastDs := ← getXmlString 30 }, false)
  | some (.par par kind) => return ({ ds with par := ds.par.set par (← getXmlNumber env kind) }, false)
  | some (.scratch par kind) => return ({ ds with scratch := ds.scratch.set par (← getXmlNumber env kind) }, false)
  | none => throw (.error ("parse_tag_ds: Unknown tag: ".toList ++ element))

/-- `parse_tag_ds`. -/
@[grind] def parseTagDs (env : Env) (rrd : Restored) : Read Restored := do
  if rrd.rra ≠ [] then
    throw (.error "parse_tag_ds: All data source definitions MUST precede the RRA definitions!".toList)
  else
    let ds ← elements "/ds".toList (dsElement env (rrd.ds.map (·.dsNam))) true .zero
    return { rrd with ds := rrd.ds ++ [ds] }

/-! ### The dump -/

@[grind] def rrdElement (env : Env) (element : Text) (rrd : Restored) : Read (Restored × Bool) := do
  if sameName element "version".toList then
    return ({ rrd with version := ← getXmlString 5 }, false)
  else if sameName element "step".toList then
    return ({ rrd with pdpStep := ← getXmlUlong env }, false)
  else if sameName element "lastupdate".toList then
    return ({ rrd with lastUp := ← getXmlTimeT env }, false)
  else if sameName element "ds".toList then
    return (← parseTagDs env rrd, true)
  else if sameName element "rra".toList then
    return (← parseTagRra env rrd, true)
  else throw (.error ("parse_tag_rrd: Unknown tag: ".toList ++ element))

/-- `parse_tag_rrd`. -/
def parseTagRrd (env : Env) : Read Restored := elements "/rrd".toList (rrdElement env) true .zero

/-- `parse_file`, for a file with the given nodes. -/
@[grind] def parseFile (env : Env) (nodes : List Node) : Except Failure Restored :=
  (outcome (do expectElement "rrd".toList; parseTagRrd env) { node := { kind := none, line := 1 }, rest := nodes }).1

end Rrdtool.Restore
