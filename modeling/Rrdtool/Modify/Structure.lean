import Rrdtool.Create.Parse
import Rrdtool.Update.Cdp

/-!
# Modifying a database

Port of `rrd_modify_structure` in `src/rrd_modify.c`: data sources are removed and added, archives are removed,
shortened, prolonged and added, and the rows are copied into a new database in which every ring is unrolled. New
rows are filled from the other archives (`populate_row`).

Here the database is the `rrd_t` in memory (`MemRrd`), in which the rows of all archives stand in one array behind
each other, and the loops find their way by counting. Counts of rows and values are `int`s of the source and wrap
around as these do. What the source leaves uninitialised is a parameter (`Memory`): the definition of a data
source that could not be parsed, a row that no loop writes and the pointer of an archive that does not exist.
-/

namespace Rrdtool

/-! ### The database in memory -/

/-- An archive without its rows. -/
structure MemRra where
  rraDef : RraDef
  cdpPrep : List CdpPrep
  curRow : ℕ
deriving DecidableEq

/-- `rrd_t`. -/
structure MemRrd where
  version : ℕ
  pdpStep : ℕ
  lastUp : ℕ
  lastUpUsec : ℕ
  ds : List DataSource
  rra : List MemRra
  rrdValue : ℕ → RrdValue

@[grind] def MemRrd.dsCnt (rrd : MemRrd) : ℕ := rrd.ds.length

/-- The rows of the first archives. -/
@[grind] def MemRrd.rowsBefore (rrd : MemRrd) (r : ℕ) : ℕ := ((rrd.rra.take r).map (·.rraDef.rowCnt)).sum

/-- The value of a data source in the row of an archive that is `age` rows older than the current one. -/
@[grind] def MemRrd.value (rrd : MemRrd) (r d age : ℕ) : RrdValue :=
  match rrd.rra[r]? with
  | none => .nan
  | some rra =>
    let row := (rra.curRow + rra.rraDef.rowCnt - age) % rra.rraDef.rowCnt
    rrd.rrdValue ((rrd.rowsBefore r + row) * rrd.dsCnt + d)

/-! ### What is to be done -/

/-- What happens to a data source: the entries `'c'`, `'d'` and `'a'` of `ds_ops`. -/
inductive DsOp where
  | copy | delete | add
deriving DecidableEq

inductive ResizeOp where
  | set | minus | plus
deriving DecidableEq

/-- A modification of an archive (C `rra_mod_op_t`); `DELRRA:i` sets the rows of archive `i` to 0. -/
inductive RraModOp where
  | resize (index : ℤ) (op : ResizeOp) (rowCount : ℕ)
  | add (rraDef : Text)
deriving DecidableEq

/-- The first modification of the archive with this index. -/
def resizeOf (ops : List RraModOp) (j : ℕ) : Option (ResizeOp × ℕ) :=
  ops.findSome? fun
    | .resize index op rowCount => if index = j then some (op, rowCount) else none
    | .add _ => none

/-- `final_row_count`. -/
@[grind] def finalRowCount (rowCnt : ℕ) : Option (ResizeOp × ℕ) → ℤ
  | none => s32 rowCnt
  | some (.set, n) => max 0 (s32 n)
  | some (.minus, n) => max 0 (s32 (s32 rowCnt - n))
  | some (.plus, n) => max 0 (s32 (s32 rowCnt + n))

/-- The rows that are left out at the old end, and the rows that are put before it. -/
@[grind] def skippedAndAdded (rowCnt : ℕ) : Option (ResizeOp × ℕ) → ℕ × ℕ
  | none => (0, 0)
  | some (.set, n) => if n < rowCnt then (rowCnt - n, 0) else (0, n - rowCnt)
  | some (.minus, n) => (n, 0)
  | some (.plus, n) => (0, n)

/-- A loop over `ds_ops`, with the index `i` into the input and `ii` into the output. -/
@[grind] def columnsFrom {α : Type*} (old fresh : ℕ → α) : ℕ → ℕ → List DsOp → List α
  | _, _, [] => []
  | i, ii, .copy :: ops => old i :: columnsFrom old fresh (i + 1) (ii + 1) ops
  | i, ii, .add :: ops => fresh ii :: columnsFrom old fresh (i + 1) (ii + 1) ops
  | i, ii, .delete :: ops => columnsFrom old fresh (i + 1) ii ops

@[grind] def columns {α : Type*} (old fresh : ℕ → α) (dsOps : List DsOp) : List α := columnsFrom old fresh 0 0 dsOps

/-- `ds_map`. -/
@[grind] def dsMap (dsOps : List DsOp) : List (Option ℕ) := columns some (fun _ => none) dsOps

/-- The entry of `ds_ops` for a data source that exists. -/
@[grind] def dsOpOf (removeDS : List Text) (d : DataSource) : DsOp := if d.dsDef.dsNam ∈ removeDS then .delete else .copy

/-! ### Filling new rows -/

/-- An archive that new rows may be filled from (C `candidate_t`): its rows start at `base`. -/
structure RraCandidate where
  rra : MemRra
  base : ℕ

/-- `select_for_modify`. -/
def selectForModify (tofill maybe : RraDef) : Bool := maybe.cf = tofill.cf ∨ maybe.cf = .average

/-- `sort_candidates`. -/
def sortCandidates (a b : RraCandidate) : ℤ :=
  if a.rra.rraDef.pdpCnt = b.rra.rraDef.pdpCnt then s32 ((b.rra.rraDef.rowCnt : ℤ) - a.rra.rraDef.rowCnt)
  else s32 ((a.rra.rraDef.pdpCnt : ℤ) - b.rra.rraDef.pdpCnt)

/-- `find_candidate_rras`. -/
def findCandidateRras (rrd : MemRrd) (rra : RraDef) : List RraCandidate :=
  let candidates := rrd.rra.mapIdx fun i other => RraCandidate.mk other (rrd.rowsBefore i * rrd.dsCnt)
  (candidates.filter fun c => selectForModify rra c.rra.rraDef).insertionSort fun a b => sortCandidates a b ≤ 0

/-- `positive_mod`. -/
@[grind] def positiveMod (a b : ℤ) : ℤ :=
  let x := a.tmod b
  if x < 0 then x + b else x

/-- The seconds of a row, as an `int`. -/
def timeslot (rrd : MemRrd) (rra : RraDef) : ℤ := s32 (rra.pdpCnt * rrd.pdpStep)

/-- `end_time_for_row`. -/
@[grind] def endTimeForRow (rrd : MemRrd) (rra : RraDef) (curRow row : ℤ) : ℤ :=
  let slot := timeslot rrd rra
  rrd.lastUp - (rrd.lastUp : ℤ).tmod slot - positiveMod (curRow - row) rra.rowCnt * slot

/-- `row_for_time`. -/
@[grind] def rowForTime (rrd : MemRrd) (rra : RraDef) (curRow reqTime : ℤ) : ℤ :=
  let slot := timeslot rrd rra
  let delta := reqTime.tmod slot
  let reqTime := if 0 < delta then reqTime + slot - delta else reqTime
  let delta := reqTime.tmod slot
  let lastUp : ℤ := if 0 < delta then rrd.lastUp + slot - delta else rrd.lastUp
  if lastUp < reqTime then -1
  else if reqTime ≤ s32 (s32 lastUp - s32 rra.rowCnt * slot) then -1
  else
    let pastCnt := (lastUp - reqTime).tdiv slot
    if s32 rra.rowCnt ≤ pastCnt then -1 else positiveMod (curRow - pastCnt) rra.rowCnt

/-- The rows of a candidate that cover a time: the first and how many. -/
@[grind] def candidateRows (rrd : MemRrd) (c : RraCandidate) (startTime endTime : ℤ) : Option (ℤ × ℤ) :=
  let rra := c.rra.rraDef
  let first := rowForTime rrd rra c.rra.curRow startTime
  let last := rowForTime rrd rra c.rra.curRow endTime
  if first = -1 ∧ last = -1 then none
  else
    let first := if first = -1 then (c.rra.curRow : ℤ) else first
    let last : ℤ := if last = -1 then ((u64 ((c.rra.curRow : ℤ) - 1) % rra.rowCnt : ℕ) : ℤ) else last
    let rows := last - first + 1
    some (first, if rows < 0 then rows + rra.rowCnt else rows)

/-- The accumulator of `populate_row`: `tmp`, `covered` and `final`. -/
structure Populate where
  tmp : RrdValue
  covered : ℤ
  final : RrdValue

/-- One value of a candidate. -/
def populateStep (cf : Cf) (slot : ℤ) (acc : Populate) (v : RrdValue) : Populate :=
  if v.isnan then acc
  else
    match cf with
    | .average =>
      let tmp := if acc.tmp.isnan then v * .fin slot else acc.tmp + v * .fin slot
      let covered := acc.covered + slot
      ⟨tmp, covered, tmp / .fin covered⟩
    | .minimum =>
      let tmp := if acc.tmp.isnan then v else if acc.tmp < v then acc.tmp else v
      ⟨tmp, acc.covered, tmp⟩
    | .maximum =>
      let tmp := if acc.tmp.isnan then v else if v < acc.tmp then acc.tmp else v
      ⟨tmp, acc.covered, tmp⟩
    | _ => ⟨v, acc.covered, v⟩

/-- The value that a candidate gives for the column `k` of the input. -/
@[grind] def populateValue (rrd : MemRrd) (cf : Cf) (c : RraCandidate) (first rows : ℤ) (k : ℕ) : RrdValue :=
  let slot := timeslot rrd c.rra.rraDef
  let values := (List.range rows.toNat).map fun i =>
    rrd.rrdValue (c.base + (first.toNat + i) % c.rra.rraDef.rowCnt * rrd.dsCnt + k)
  (values.foldl (populateStep cf slot) ⟨.nan, 0, .nan⟩).final

/-- A candidate fills the columns of a row that have no value yet. -/
@[grind] def populateFrom (rrd : MemRrd) (cf : Cf) (map : List (Option ℕ)) (startTime endTime : ℤ) (row : Row) (c : RraCandidate) :
    Row :=
  match candidateRows rrd c startTime endTime with
  | none => row
  | some (first, rows) =>
    row.mapIdx fun k v =>
      match map.getD k none with
      | none => v
      | some inK => if v.isnan then populateValue rrd cf c first rows inK else v

/-- `populate_row`, for one row of the archive `rra` of the output. -/
def populateRow (rrd : MemRrd) (map : List (Option ℕ)) (rra : RraDef) (curRow : ℤ) (row : ℕ) : Row :=
  let unknown : Row := List.replicate map.length .nan
  if rrd.rra = [] ∨ rra.cf.isPlain = false then unknown
  else
    let endTime := endTimeForRow rrd rra curRow row
    let startTime := endTime - (rra.pdpCnt * rrd.pdpStep : ℕ) + 1
    (findCandidateRras rrd rra).foldl (populateFrom rrd rra.cf map startTime endTime) unknown

/-! ### The new structure -/

/-- What is read although nothing was written there. -/
structure Memory where
  /-- the variable `added`, for a definition that was not understood -/
  dsDef : Text → DsDef
  /-- a row of the new array -/
  row : ℕ → Row
  /-- `rra_ptr` behind its end -/
  curRow : ℕ → ℕ

/-- The errors of `rrd_modify_structure`. -/
inductive ModifyError where
  /-- "direct modification is only supported for version 3, 4 or 5 of RRD files. ..." -/
  | version
  /-- "Duplicate DS name: %s" -/
  | duplicateDs (dsNam : Text)
  /-- an error of `parseRRA` -/
  | rra (e : CreateError)
  /-- an error that `parseDS` left, and that is noticed when an archive is added -/
  | ds
deriving DecidableEq

abbrev ModifyM (α : Type) := Except (Stop ModifyError DivisionByZero) α

/-- The errors of the parsers of `rrd_create.c`. -/
def liftCreate {α : Type} : CreateM α → ModifyM α
  | .ok a => .ok a
  | .error (.error e) => .error (.error (.rra e))
  | .error (.fault f) => .error (.fault f)

/-- The variable `added`, and whether an error was left behind. -/
def parseAdded (mem : Memory) (names : List Text) (c : Text) : DsDef × Bool :=
  match (parseDS names (c.drop 3)).2 with
  | .ok d => (d, false)
  | .error _ => (mem.dsDef c, true)

/-- `add_dss`: the data sources, and whether an error was left behind. -/
@[grind] def addDss (mem : Memory) (lastUp pdpStep : ℕ) : List DataSource → List Text → ModifyM (List DataSource × Bool)
  | ds, [] => .ok (ds, false)
  | ds, c :: addDS => do
    let names := ds.map (·.dsDef.dsNam)
    let (added, failed) := parseAdded mem names c
    if (lookupDS names added.dsNam).isSome then .error (.error (.duplicateDs added.dsNam))
    else
      let (ds, failed') ← addDss mem lastUp pdpStep (ds ++ [⟨added, ⟨['U'], lastUp % pdpStep, .fin 0⟩⟩]) addDS
      return (ds, failed || failed')

/-- The archive `j` of the input in the output, unless no row of it is left. -/
@[grind] def handleRraDef (rrd : MemRrd) (ds : List DataSource) (dsOps : List DsOp) (ops : List RraModOp) (j : ℕ) (rra : MemRra) :
    Option MemRra :=
  let final := finalRowCount rra.rraDef.rowCnt (resizeOf ops j)
  if final = 0 then none
  else
    let rraDef := { rra.rraDef with rowCnt := u64 final }
    let fresh (ii : ℕ) : CdpPrep :=
      (ds[ii]?).elim .zero fun d => initCdp rrd.lastUp rrd.pdpStep rraDef d.pdpPrep
    some ⟨rraDef, columns (fun i => rra.cdpPrep.getD i .zero) fresh dsOps, u64 (final - 1)⟩

/-- `handle_rra_defs`. -/
def handleRraDefs (rrd : MemRrd) (ds : List DataSource) (dsOps : List DsOp) (ops : List RraModOp) :
    ℕ → List MemRra → List MemRra
  | _, [] => []
  | j, rra :: rras =>
    (handleRraDef rrd ds dsOps ops j rra).toList ++ handleRraDefs rrd ds dsOps ops (j + 1) rras

/-- The row `oi` of an archive in the output; `totalCnt` is where the source takes its values to start. -/
@[grind] def modRow (mem : Memory) (rrd : MemRrd) (dsOps : List DsOp) (rra : MemRra) (op : Option (ResizeOp × ℕ))
    (final curRow totalCnt : ℤ) (oi : ℕ) : Row :=
  let (skipped, added) := skippedAndAdded rra.rraDef.rowCnt op
  if oi < added then populateRow rrd (dsMap dsOps) { rra.rraDef with rowCnt := u64 final } curRow oi
  else
    let ii := skipped + (oi - added)
    if ii < rra.rraDef.rowCnt then
      let realIi := (ii + rra.curRow + 1) % rra.rraDef.rowCnt
      columns (fun j => rrd.rrdValue (u64 (totalCnt + realIi * rrd.dsCnt + j))) (fun _ => .nan) dsOps
    else mem.row oi

/-- `mod_rras`: the rows of the archives from `j` on. `outRra` are the archives of the output. An archive that is
removed leaves `total_cnt` as it is. -/
@[grind] def modRras (mem : Memory) (rrd : MemRrd) (outRra : List MemRra) (dsOps : List DsOp) (ops : List RraModOp) :
    ℕ → ℤ → List MemRra → List (List Row)
  | _, _, [] => []
  | j, totalCnt, rra :: rras =>
    let op := resizeOf ops j
    let final := finalRowCount rra.rraDef.rowCnt op
    if op.isSome ∧ final = 0 then modRras mem rrd outRra dsOps ops (j + 1) totalCnt rras
    else
      let curRow := (outRra[j]?).elim (mem.curRow j) (·.curRow)
      (List.range (u64 final)).map (modRow mem rrd dsOps rra op final curRow totalCnt) ::
        modRras mem rrd outRra dsOps ops (j + 1) (s32 (totalCnt + rrd.dsCnt * rra.rraDef.rowCnt)) rras

/-! ### New archives -/

/-- The first loop of `add_rras`; `failed` is an error that was left behind. -/
def addRraDefs (pdpStep hash : ℕ) (failed : Bool) :
    List RraDef → Option ℕ → List RraModOp → ModifyM (List RraDef × Option ℕ)
  | rras, required, [] => .ok (rras, required)
  | rras, required, .resize .. :: ops => addRraDefs pdpStep hash failed rras required ops
  | rras, required, .add rraDef :: ops =>
    if failed then .error (.error .ds)
    else do
      let st ← liftCreate (parseRRA pdpStep hash required rraDef)
      let rras ← liftCreate (handleDependentRras hash rras st)
      addRraDefs pdpStep hash failed rras st.requireVersion ops

/-- The candidate that `prepare_CDPs` chooses. -/
def chosenCandidate (rrd : MemRrd) (rra : RraDef) : Option RraCandidate :=
  (findCandidateRras rrd rra).find? fun c => c.rra.rraDef.pdpCnt = 1 ∨ c.rra.rraDef.cf = .average

/-- The rows of the chosen candidate that belong to the open interval: the first, or -1, and how many. -/
def openRows (rrd : MemRrd) (rra : RraDef) (c : RraCandidate) : ℤ × ℤ :=
  let slot := timeslot rrd rra
  let delta := (rrd.lastUp : ℤ).tmod slot
  let endTime := if delta ≠ 0 then rrd.lastUp - delta + slot else rrd.lastUp
  let startRow := rowForTime rrd c.rra.rraDef c.rra.curRow (endTime - slot + 1)
  let endRow : ℤ :=
    if (rrd.lastUp : ℤ) ≤ endTime then c.rra.curRow else rowForTime rrd c.rra.rraDef c.rra.curRow endTime
  let cnt := endRow - startRow + 1
  (startRow, if endRow < startRow then cnt + c.rra.rraDef.rowCnt else cnt)

/-- The preparation area of a data source that the chosen candidate knows; `curr` is its last value. -/
def prepareCdp (rrd : MemRrd) (rra : RraDef) (c : RraCandidate) (inK : ℕ) (curr : RrdValue) : CdpPrep :=
  let (startRow, cnt) := openRows rrd rra c
  let at' (row : ℕ) : RrdValue := rrd.rrdValue (c.base + row * rrd.dsCnt + inK)
  let start := { CdpPrep.zero with primaryVal := curr }
  if startRow = -1 then { start with secondaryVal := ((c.rra.cdpPrep[inK]?).elim .nan (·.primaryVal)) }
  else
    let preStart := if startRow - 1 < 0 then c.rra.rraDef.rowCnt - 1 else (startRow - 1).toNat
    (List.range cnt.toNat).foldl
      (fun cdp j => updateCdp rra.cf cdp (at' ((startRow.toNat + j) % c.rra.rraDef.rowCnt)) 0 1
        (u64 ((rra.pdpCnt : ℤ) - j)) rra.pdpCnt c.rra.rraDef.xff)
      { start with secondaryVal := at' preStart }

/-- `prepare_CDPs`; `values` is the new array and `rowsBefore` the number of rows before the archive. -/
def prepareCdps (rrd : MemRrd) (ds : List DataSource) (map : List (Option ℕ)) (rra : RraDef) (rowsBefore : ℕ)
    (values : List RrdValue) : List CdpPrep :=
  ds.mapIdx fun i d =>
    match chosenCandidate rrd rra, map.getD i none with
    | some c, some inK =>
      prepareCdp rrd rra c inK (values.getD (rowsBefore + ds.length * (rra.rowCnt - 1) + i) .nan)
    | _, _ => initCdp rrd.lastUp rrd.pdpStep rra d.pdpPrep

/-- The second loop of `add_rras`: the archives and the whole array. -/
@[grind] def addRras (rrd : MemRrd) (ds : List DataSource) (map : List (Option ℕ)) :
    ℕ → List RrdValue → List RraDef → List MemRra × List RrdValue
  | _, values, [] => ([], values)
  | rowsBefore, values, rra :: rras =>
    let rows := (List.range rra.rowCnt).map (populateRow rrd map rra (rra.rowCnt - 1 : ℕ))
    let values := values ++ rows.flatten
    let (heads, values') := addRras rrd ds map (rowsBefore + rra.rowCnt) values rras
    (⟨rra, prepareCdps rrd ds map rra rowsBefore values, rra.rowCnt - 1⟩ :: heads, values')

/-- `rrd_modify_structure`. -/
@[grind]
def rrdModifyStructure (mem : Memory) (rrd : MemRrd) (removeDS addDS : List Text) (ops : List RraModOp) (hash : ℕ) :
    ModifyM MemRrd := do
  if rrd.version < 3 ∨ 5 < rrd.version then .error (.error .version)
  else
    let copied := rrd.ds.filter fun d => d.dsDef.dsNam ∉ removeDS
    let (ds, failed) ← addDss mem rrd.lastUp rrd.pdpStep copied addDS
    let dsOps := rrd.ds.map (dsOpOf removeDS) ++ List.replicate (ds.length - copied.length) .add
    let kept := handleRraDefs rrd ds dsOps ops 0 rrd.rra
    let values := (modRras mem rrd kept dsOps ops 0 0 rrd.rra).flatten.flatten
    let (rras, required) ← addRraDefs rrd.pdpStep hash failed (kept.map (·.rraDef)) none ops
    let rowsBefore := (kept.map (·.rraDef.rowCnt)).sum
    let (new, values) := addRras rrd ds (dsMap dsOps) rowsBefore values (rras.drop kept.length)
    return { rrd with
      version := if required.getD rrd.version < rrd.version then required.getD rrd.version else rrd.version
      ds := ds
      rra := kept ++ new
      rrdValue := fun i => values.getD i .nan }

end Rrdtool
