import Rrdtool.Create
import Rrdtool.Lib.Binary64
import Rrdtool.Lib.Tiling
import Rrdtool.Modify.Structure

/-!
# Filling a new database from other databases

Port of the part of `src/rrd_create.c` that fills the rows and the preparation areas of a new database from its
sources: `add_coverage`, `prefill_bin` and `prefill_pdp_prep`. The databases are those in memory, as `rrd_modify.c`
has them, whose `row_for_time` and `end_time_for_row` are used here as well.

The coverage of a row is an array of intervals that grows by `realloc` and `memmove`; an access outside of it is a
`CoverageFault`.
-/

namespace Rrdtool

/-! ### Intervals -/

/-- `overlap`. -/
@[grind] def overlap (start1 end1 start2 end2 : ℤ) : ℤ :=
  if end1 ≤ start1 then 0
  else if end2 ≤ start2 then 0
  else if end2 < start1 then 0
  else if end1 < start2 then 0
  else min end1 end2 - max start1 start2

/-- `is_interval_within_interval`. -/
def isIntervalWithinInterval (start1 end1 start2 end2 : ℤ) : Bool :=
  if end2 - start2 < end1 - start1 then false else overlap start1 end1 start2 end2 = end1 - start1

/-- `is_time_within_interval`. -/
def isTimeWithinInterval (t start stop : ℤ) : Bool := start ≤ t && t ≤ stop

/-- Seconds with one status (C `coverage_t`, whose `end` is `stop`); both ends belong to them. -/
abbrev Coverage := Tiling.Tile

/-- What must not happen: an access outside of the array, or a `double` that is not a `long` where one is converted. The
loops are bounded here, and running out of the bound is a fault as well. -/
inductive CoverageFault where
  | index (i : ℕ)
  | conversion
  | endless
deriving DecidableEq

abbrev CoverageM (α : Type) := Except CoverageFault α

/-- `current_coverage + i`. -/
@[grind] def coverageAt (a : List Coverage) (i : ℕ) : CoverageM Coverage :=
  match a[i]? with
  | some c => .ok c
  | none => .error (.index i)

/-- `set_interval`. -/
def setInterval (a : List Coverage) (i : ℕ) (covered : Bool) (start stop : ℤ) : CoverageM (List Coverage) :=
  if i < a.length then .ok (a.set i ⟨covered, start, stop⟩) else .error (.index i)

/-- `realloc` for `k` more elements, and `memmove` of the elements from `i` on by `k`. What the new memory holds is
`junk`. -/
def growCoverage (junk : Coverage) (a : List Coverage) (i k : ℕ) : CoverageM (List Coverage) :=
  if i ≤ a.length then .ok ((a ++ List.replicate k junk).take (i + k) ++ a.drop i) else .error (.index i)

/-- The local state of the loop of `add_coverage`: the array, the start of what is left of the new interval and
`*newly_covered_interval`. -/
structure AddCoverage where
  array : List Coverage
  start : ℤ
  newlyCovered : ℤ
deriving DecidableEq

/-- `*newly_covered_interval += ...`, on an `int`. -/
def AddCoverage.gain (st : AddCoverage) (array : List Coverage) (seconds : ℤ) : AddCoverage :=
  { st with array := array, newlyCovered := s32 (st.newlyCovered + seconds) }

/-- Case (A) of the loop: the new interval lies within the current one. -/
@[grind] def splitCoverage (junk : Coverage) (stop : ℤ) (st : AddCoverage) (i : ℕ) (cc : Coverage) : CoverageM AddCoverage := do
  let start := st.start
  if cc.covered then pure st
  else if start = cc.start ∧ stop = cc.stop then
    let a ← setInterval st.array i true cc.start cc.stop
    pure (st.gain a (stop - start + 1))
  else if cc.start = start then
    let a ← growCoverage junk st.array i 1
    let a ← setInterval a i true cc.start stop
    let a ← setInterval a (i + 1) false (stop + 1) cc.stop
    pure (st.gain a (stop - start + 1))
  else if cc.stop = stop then
    let a ← growCoverage junk st.array i 1
    let a ← setInterval a i false cc.start (start - 1)
    let a ← setInterval a (i + 1) true start cc.stop
    pure (st.gain a (stop - start + 1))
  else
    let a ← growCoverage junk st.array i 2
    let a ← setInterval a i false cc.start (start - 1)
    let a ← setInterval a (i + 1) true start stop
    let a ← setInterval a (i + 2) false (stop + 1) cc.stop
    pure (st.gain a (stop - start + 1))

/-- Case (B): the current interval lies within the new one. -/
@[grind] def coverCoverage (stop : ℤ) (st : AddCoverage) (i : ℕ) (cc : Coverage) : CoverageM AddCoverage :=
  if isIntervalWithinInterval cc.start cc.stop st.start stop && !cc.covered then do
    let a ← setInterval st.array i true cc.start cc.stop
    pure (st.gain a (cc.stop - cc.start + 1))
  else pure st

/-- Case (C): the new interval starts within the current one, whose status may have changed in case (B). -/
@[grind] def crossCoverage (junk : Coverage) (st : AddCoverage) (i : ℕ) (orgStart orgEnd : ℤ) : CoverageM AddCoverage := do
  if isTimeWithinInterval st.start orgStart orgEnd then
    let cc ← coverageAt st.array i
    if cc.covered then pure { st with start := orgEnd + 1 }
    else if cc.start = st.start then
      let a ← setInterval st.array i true cc.start cc.stop
      pure { st with array := a, start := orgEnd + 1 }
    else
      let a ← growCoverage junk st.array i 1
      let a ← setInterval a i false orgStart (st.start - 1)
      let a ← setInterval a (i + 1) true st.start orgEnd
      pure { st.gain a (orgEnd - st.start + 1) with start := orgEnd + 1 }
  else pure st

/-- The loop of `add_coverage` from index `i` on. -/
@[grind] def coverageLoop (junk : Coverage) (stop : ℤ) : ℕ → AddCoverage → ℕ → CoverageM AddCoverage
  | 0, _, _ => .error .endless
  | n + 1, st, i =>
    if i < st.array.length then do
      let cc ← coverageAt st.array i
      if isIntervalWithinInterval st.start stop cc.start cc.stop then splitCoverage junk stop st i cc
      else
        let st ← coverCoverage stop st i cc
        let st ← crossCoverage junk st i cc.start cc.stop
        coverageLoop junk stop n st (i + 1)
    else .ok st

/-- The cleanup pass, from index `i` on: neighbours of one status become one interval. -/
def cleanupCoverage : ℕ → List Coverage → ℕ → CoverageM (List Coverage)
  | 0, _, _ => .error .endless
  | n + 1, a, i =>
    if i + 1 < a.length then do
      let cc ← coverageAt a i
      let next ← coverageAt a (i + 1)
      if cc.covered = next.covered then
        let a ← setInterval a i cc.covered cc.start next.stop
        cleanupCoverage n (a.eraseIdx (i + 1)) i
      else cleanupCoverage n a (i + 1)
    else .ok a

/-- `add_coverage`: the array and `*newly_covered_interval`. -/
def addCoverage (junk : Coverage) (a : List Coverage) (start stop : ℤ) : CoverageM (List Coverage × ℤ) := do
  let first ← coverageAt a 0
  let last ← coverageAt a (a.length - 1)
  let start := if start < first.start then first.start else start
  let stop := if last.stop < stop then last.stop else stop
  -- out of boundaries check
  if stop < first.start ∨ last.stop < start then pure (a, 0)
  else
    let st ← coverageLoop junk stop (2 * a.length + 1) ⟨a, start, 0⟩ 0
    let a ← cleanupCoverage (2 * st.array.length) st.array 0
    pure (a, st.newlyCovered)

/-! ### Candidates -/

/-- An archive and a data source of one of the sources (C `candidate_t`, whose `extra.l` is `l`). Two candidates have the
same `rrd` pointer when `source` is the same. -/
structure SourceCandidate where
  source : ℕ
  rrd : MemRrd
  rraIndex : Fin rrd.rra.length
  l : Fin rrd.ds.length

namespace SourceCandidate
variable (c : SourceCandidate)

@[grind] def rra : MemRra := c.rrd.rra.get c.rraIndex

@[grind] def ds : DataSource := c.rrd.ds.get c.l

/-- An element of `values`, in column `extra.l`. -/
@[grind] def value (row : ℕ) : RrdValue := c.rrd.rrdValue ((c.rrd.rowsBefore c.rraIndex + row) * c.rrd.dsCnt + c.l)

end SourceCandidate

/-- A `double` as a `long`, where that is defined. -/
@[grind] def truncLong : RrdValue → Option ℤ
  | .fin q =>
    let z := if q < 0 then ⌈q⌉ else ⌊q⌋
    if -2 ^ 63 ≤ z ∧ z < 2 ^ 63 then some z else none
  | _ => none

lemma truncLong_of_nonneg {q : ℚ} (h0 : 0 ≤ q) (h : q < 2 ^ 63) : truncLong (.fin q) = some ⌊q⌋ := by
  have hfloor : 0 ≤ ⌊q⌋ := Int.floor_nonneg.2 h0
  have hlt : ⌊q⌋ < 2 ^ 63 := Int.floor_lt.2 (by exact_mod_cast h)
  rw [truncLong, if_neg h0.not_gt, if_pos ⟨by omega, hlt⟩]

/-! ### Bins -/

/-- `prefill_consolidate`. -/
def prefillConsolidate (currentCf : Cf) (currentEstimate addedValue : RrdValue) (targetBinSize newlyCoveredSize : ℤ) :
    RrdValue :=
  match currentCf with
  | .minimum =>
    if currentEstimate.isnan then addedValue else if currentEstimate < addedValue then currentEstimate else addedValue
  | .maximum =>
    if currentEstimate.isnan then addedValue else if addedValue < currentEstimate then currentEstimate else addedValue
  | .last => addedValue
  | _ => ifDnan currentEstimate (.fin 0) + addedValue / .fin targetBinSize * .fin newlyCoveredSize

/-- `prefill_finish`. -/
def prefillFinish (currentCf : Cf) (currentEstimate : RrdValue) (targetBinSize totalCoveredSize : ℤ) : RrdValue :=
  if totalCoveredSize = 0 then .nan
  else
    match currentCf with
    | .average => currentEstimate / .fin totalCoveredSize * .fin targetBinSize
    | _ => currentEstimate

/-- The row that is filled: what `prefill_bin` reads of the target. -/
structure TargetBin where
  cf : Cf
  xff : RrdValue
  size : ℤ
  start : ℤ
  stop : ℤ

/-- `bin_size`, `bin_start_time` and `bin_end_time` of a row of the target. -/
def targetBin (rrd : MemRrd) (rra : MemRra) (cnt : ℕ) : TargetBin :=
  let binSize := s64 (rra.rraDef.pdpCnt * rrd.pdpStep)
  let binEndTime := endTimeForRow rrd rra.rraDef rra.curRow cnt
  ⟨rra.rraDef.cf, rra.rraDef.xff, binSize, binEndTime - binSize + 1, binEndTime⟩

/-- The variables of `prefill_bin` that its loops change. -/
structure PrefillBin where
  coverage : List Coverage
  totalCovered : ℤ
  value : RrdValue
deriving DecidableEq

section Bin
variable (junk : Coverage) (bin : TargetBin)

/-- One row of a candidate. -/
@[grind] def prefillRow (c : SourceCandidate) (ci : ℕ) (st : PrefillBin) : CoverageM PrefillBin :=
  let candBinSize := s64 (c.rra.rraDef.pdpCnt * c.rrd.pdpStep)
  let candBinEndTime := endTimeForRow c.rrd c.rra.rraDef c.rra.curRow ci
  let candBinStartTime := candBinEndTime - candBinSize + 1
  let covered := overlap bin.start bin.stop candBinStartTime candBinEndTime + 1
  let v := c.value ci
  if 0 < covered ∧ ¬v.isnan then do
    let (coverage, newlyCovered) ← addCoverage junk st.coverage candBinStartTime candBinEndTime
    if 0 < newlyCovered then
      pure ⟨coverage, st.totalCovered + newlyCovered,
        prefillConsolidate bin.cf st.value v (s32 bin.size) newlyCovered⟩
    else pure { st with coverage := coverage }
  else pure st

/-- The loop over `bin_count` rows from `ci` on. -/
def prefillRows (c : SourceCandidate) : ℕ → ℕ → PrefillBin → CoverageM PrefillBin
  | 0, _, st => pure st
  | n + 1, ci, st =>
    if st.totalCovered < bin.size then do
      let ci := if ci = c.rra.rraDef.rowCnt then 0 else ci
      let st ← prefillRow junk bin c ci st
      prefillRows c n (ci + 1) st
    else pure st

/-- The rows of one candidate. -/
def prefillCandidate (c : SourceCandidate) (st : PrefillBin) : CoverageM PrefillBin :=
  let rra := c.rra.rraDef
  let endBin := u64 (rowForTime c.rrd rra c.rra.curRow bin.stop)
  let startBin := u64 (rowForTime c.rrd rra c.rra.curRow bin.start)
  if startBin < rra.rowCnt ∧ endBin < rra.rowCnt then
    let binCount := positiveMod (s32 ((endBin : ℤ) - startBin + 1)) (s32 rra.rowCnt)
    prefillRows junk bin c binCount.toNat startBin st
  else pure st

/-- The loop over the candidates. -/
@[grind] def prefillCandidates : List SourceCandidate → PrefillBin → CoverageM PrefillBin
  | [], st => pure st
  | c :: cs, st =>
    if st.totalCovered < bin.size then do
      let st ← prefillCandidate junk bin c st
      prefillCandidates cs st
    else pure st

/-- `prefill_bin`: what it stores, or nothing when the row is left as it is. -/
@[grind] def prefillBin (candidates : List SourceCandidate) : CoverageM (Option RrdValue) := do
  let minRequiredCoverage ← (truncLong (bin.xff * .fin bin.size)).elim (.error .conversion) .ok
  let st ← prefillCandidates junk bin candidates ⟨[⟨false, bin.start, bin.stop⟩], 0, .nan⟩
  pure (if minRequiredCoverage < st.totalCovered then
    some (prefillFinish bin.cf st.value (s32 bin.size) (s32 st.totalCovered)) else none)

end Bin

/-! ### The preparation areas -/

/-- The first second of the step that `last_up` is in; it ends `pdp_step - 1` seconds later. -/
@[grind] def pdpBeginTime (rrd : MemRrd) : ℤ := rrd.lastUp / rrd.pdpStep * rrd.pdpStep + 1

def pdpEndTime (rrd : MemRrd) : ℤ := pdpBeginTime rrd + rrd.pdpStep - 1

/-- The preparation area that `prefill_pdp_prep` copies. `u_cnt` and `u_val` are one union: the count is compared as the
`double` that its bits are. -/
@[grind] def copyPdpPrep (rrd srrd : MemRrd) (p : PdpPrep) : Option PdpPrep :=
  let unknown := Binary64.value p.unknSecCnt
  if .fin (rrd.pdpStep : ℚ) < unknown then do
    let sourceKnown ← truncLong (.fin srrd.pdpStep - unknown)
    let maxTargetKnown := rrd.lastUp - pdpBeginTime rrd
    some { p with unknSecCnt := (max 0 (maxTargetKnown - sourceKnown)).toNat }
  else some p

/-- The last value of the candidate can go into the step that the target is in. -/
@[grind] def SourceCandidate.matchesPdp (rrd : MemRrd) (d : DataSource) (c : SourceCandidate) : Bool :=
  c.ds.pdpPrep.lastDs ≠ ['U'] && pdpEndTime c.rrd ≤ pdpEndTime rrd && pdpBeginTime rrd ≤ pdpEndTime c.rrd &&
    d.dsDef.dst = c.ds.dsDef.dst

/-- The loop of `prefill_pdp_prep`; `srrd` is the source of the candidate before. -/
def prefillPdpLoop (rrd : MemRrd) (d : DataSource) : Option ℕ → List SourceCandidate → Option PdpPrep
  | _, [] => some d.pdpPrep
  | srrd, c :: cs =>
    if srrd = some c.source then prefillPdpLoop rrd d srrd cs
    else if c.matchesPdp rrd d then copyPdpPrep rrd c.rrd c.ds.pdpPrep
    else prefillPdpLoop rrd d (some c.source) cs

/-- `prefill_pdp_prep` for the data source `l`. It has no result where a conversion of a `double` is undefined. -/
def prefillPdpPrep (rrd : MemRrd) (l : ℕ) (candidates : List SourceCandidate) : Option MemRrd :=
  match rrd.ds[l]? with
  | none => some rrd
  | some d =>
    if d.pdpPrep.lastDs ≠ ['U'] then some rrd
    else
      (prefillPdpLoop rrd d none candidates).map fun p => { rrd with ds := rrd.ds.set l { d with pdpPrep := p } }

/-- The calls that `rrd_prefill_data` makes, one for each archive and each data source with candidates. -/
def prefillPdpPreps : MemRrd → List (ℕ × List SourceCandidate) → Option MemRrd
  | rrd, [] => some rrd
  | rrd, (l, candidates) :: calls => do
    let rrd ← prefillPdpPrep rrd l candidates
    prefillPdpPreps rrd calls

end Rrdtool
