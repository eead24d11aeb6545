import Rrdtool.Format
import Rrdtool.Create

/-!
# Fetching

Port of `rrd_fetch_fn` of `src/rrd_fetch.c`: the choice of the archive that matches a request best,
the rounding of the request to its rows, and the loop that copies the rows out of the ring, with
unknown rows before and after it.

Times are `time_t` and may be negative; where the source mixes them with `unsigned long` (the
remainders of the rounding) the conversion is kept, as are the `(long)` cast of the step that is asked
for and the `(signed)` cast of the row count. The
file position is part of the state of the copying loop: `none` until the first seek.
-/

namespace Rrdtool

/-! ### The choice of the archive -/

/-- The archive can serve a request for `cf`: it has that consolidation function, or one step to the
row and both are plain. -/
def RraDef.matches (rra : RraDef) (cf : Cf) : Bool :=
  rra.cf = cf || (rra.pdpCnt = 1 && cf.isPlain && rra.cf.isPlain)

/-- The best archives found so far: one that reaches back to the start of the request (index and step
difference), and one that does not (index, length covered and step difference). -/
structure BestMatch where
  full : Option (ℕ × ℤ)
  part : Option (ℕ × ℤ × ℤ)

/-- One iteration of the search. -/
@[grind] def considerRra (rrd : Rrd) (cf : Cf) (start stop : ℤ) (step : ℕ) (best : BestMatch)
    (ir : ℕ × Rra) : BestMatch :=
  let rra := ir.2.rraDef
  if rra.matches cf then
    let calEnd : ℤ := (rrd.lastUp - rrd.lastUp % (rra.pdpCnt * rrd.pdpStep) : ℕ)
    let calStart : ℤ := calEnd - (rra.pdpCnt * rra.rowCnt * rrd.pdpStep : ℕ)
    let stepDiff : ℤ := |s64 step - (rrd.pdpStep * rra.pdpCnt : ℕ)|
    if calStart ≤ start then
      match best.full with
      | none => { best with full := some (ir.1, stepDiff) }
      | some (_, d) => if stepDiff < d then { best with full := some (ir.1, stepDiff) } else best
    else
      let tmpMatch := (stop - start) - (calStart - start)
      match best.part with
      | none => { best with part := some (ir.1, tmpMatch, stepDiff) }
      | some (_, m, d) =>
        if m < tmpMatch ∨ (m = tmpMatch ∧ stepDiff < d) then
          { best with part := some (ir.1, tmpMatch, stepDiff) }
        else best
  else best

/-- The index of the archive a request is served from. -/
@[grind] def chooseRra (rrd : Rrd) (cf : Cf) (start stop : ℤ) (step : ℕ) : Option ℕ :=
  let best := ((List.range rrd.rra.length).zip rrd.rra).foldl
    (considerRra rrd cf start stop step) ⟨none, none⟩
  match best.full, best.part with
  | some (i, _), _ => some i
  | none, some (i, _) => some i
  | none, none => none

/-! ### Copying the rows -/

/-- The copying loop, with `n` rows to go: `i` counts the rows from the oldest of the ring, and
`pointer` is the row at the file position, if it has been set. A read at an unknown position gives
`none`. -/
def fetchRows (rra : Rra) (nanRow : Row) : ℕ → ℤ → Option ℤ → List (Option Row)
  | 0, _, _ => []
  | n + 1, i, pointer =>
    if i < 0 ∨ s32 rra.rraDef.rowCnt ≤ i then some nanRow :: fetchRows rra nanRow n (i + 1) pointer
    else
      let pointer := pointer.map fun p =>
        if s32 rra.rraDef.rowCnt ≤ p then p - rra.rraDef.rowCnt else p
      pointer.map (fun p => rra.ring.slot p.toNat) ::
        fetchRows rra nanRow n (i + 1) (pointer.map (· + 1))

/-- What a request returns. `rows` is the number of rows allocated for the data. -/
structure FetchResult where
  rra : ℕ
  start : ℤ
  stop : ℤ
  step : ℕ
  rows : ℕ
  dsNamv : List Text
  data : List (Option Row)

/-- `rrd_fetch_fn`; `none` when no archive matches. -/
@[grind] def rrdFetchFn (rrd : Rrd) (cf : Cf) (start stop : ℤ) (step : ℕ) : Option FetchResult :=
  match chooseRra rrd cf start stop step with
  | none => none
  | some idx =>
    match rrd.rra[idx]? with
    | none => none
    | some rra =>
      let step := rrd.pdpStep * rra.rraDef.pdpCnt
      let start := start - (u64 start % step : ℕ)
      let stop := stop + (step - u64 stop % step : ℕ)
      let rraEndTime : ℤ := (rrd.lastUp - rrd.lastUp % step : ℕ)
      let rraStartTime : ℤ := rraEndTime - (step * (rra.rraDef.rowCnt - 1) : ℕ)
      let startOffset := (start + step - rraStartTime).tdiv step
      let endOffset := (rraEndTime - stop).tdiv step
      let pointer :=
        if start ≤ rraEndTime ∧ rraStartTime - step ≤ stop then
          some ((if startOffset ≤ 0 then (rra.ring.cur + 1 : ℤ)
            else rra.ring.cur + 1 + startOffset).tmod (s32 rra.rraDef.rowCnt))
        else none
      let nanRow := List.replicate rrd.dsCnt .nan
      some
        { rra := idx
          start := start
          stop := stop
          step := step
          rows := u64 (stop - start) / step + 1
          dsNamv := rrd.ds.map (·.dsDef.dsNam)
          data := fetchRows rra nanRow (s32 rra.rraDef.rowCnt - endOffset - startOffset).toNat
            startOffset pointer }

end Rrdtool
