import Rrdtool.HoltWinters
import Rrdtool.Lib.CInt
import Rrdtool.Lib.Fifo

/-!
# The moving average of the smoother

The loops of `apply_smoother` in `src/rrd_hw.c` with the queue they work with: a `FIFOqueue` is an array of
`capacity` cells that neither `queue_push` nor `queue_pop` checks, and the rows are found by `MyMod` on a
difference of `unsigned long` that is passed as `signed long`. What the C code would do wrong silently is a
`SmootherFault` here. The columns do not touch each other, so that one column is taken through the loops.
-/

namespace Rrdtool

/-- What the loops must not do: use a queue that could not be allocated, push onto a full queue, pop from an empty
one, or leave the array of rows. -/
inductive SmootherFault where
  | queueAlloc
  | overrun
  | underrun
  | row (k : ℕ)
deriving DecidableEq

/-- `queue_alloc`; `malloc` fails for a negative capacity. -/
@[grind] def queueAlloc (capacity : ℤ) : Except SmootherFault (Fifo RrdValue) :=
  if capacity ≤ 0 then .error .queueAlloc else .ok (Fifo.new capacity.toNat fun _ => .nan)

/-- `queue_push`. -/
@[grind] def queuePush (q : Fifo RrdValue) (value : RrdValue) : Except SmootherFault (Fifo RrdValue) :=
  if q.size < q.capacity then .ok (q.push value) else .error .overrun

/-- `queue_pop`. -/
def queuePop (q : Fifo RrdValue) : Except SmootherFault (RrdValue × Fifo RrdValue) :=
  if q.size = 0 then .error .underrun else .ok q.pop

/-- `rrd_values[k * row_length + j]` in column `j`. -/
def readRow (col : List RrdValue) (k : ℕ) : Except SmootherFault RrdValue :=
  match col[k]? with
  | some v => .ok v
  | none => .error (.row k)

/-- Store into `rrd_values[k * row_length + j]`. -/
def writeRow (col : List RrdValue) (k : ℕ) (v : RrdValue) : Except SmootherFault (List RrdValue) :=
  if k < col.length then .ok (col.set k v) else .error (.row k)

/-- `MyMod(i - offset, row_count)`. -/
def windowRow (rowCount offset i : ℕ) : ℕ := myMod (s64 (u64 ((i : ℤ) - offset))) rowCount

/-- One iteration of the loop over the first `2 * offset` terms. -/
def fillStep (rowCount offset : ℕ) (col : List RrdValue) (s : Fifo RrdValue × RrdValue) (i : ℕ) :
    Except SmootherFault (Fifo RrdValue × RrdValue) := do
  let x ← readRow col (windowRow rowCount offset i)
  let buffer ← queuePush s.1 x
  pure (buffer, s.2 + x)

/-- The loops' state for one column. -/
structure SmootherColumn where
  buffer : Fifo RrdValue
  workingAverage : RrdValue
  baseline : RrdValue
  rrdValues : List RrdValue

/-- One iteration of the loop over the moving averages; `cpy` is `rrd_values_cpy`. -/
def averageStep (rowCount offset : ℕ) (cpy : List RrdValue) (s : SmootherColumn) (i : ℕ) :
    Except SmootherFault SmootherColumn := do
  let x ← readRow cpy (windowRow rowCount 0 i)
  let sum := s.workingAverage + x
  let buffer ← queuePush s.buffer x
  -- the center of the window
  let avg := sum / .fin (2 * offset + 1 : ℕ)
  let rrdValues ← writeRow s.rrdValues (windowRow rowCount offset i) avg
  let (first, buffer) ← queuePop buffer
  pure ⟨buffer, sum - first, s.baseline + avg, rrdValues⟩

/-- The column and its baseline behind both loops. -/
def averageColumn (rowCount offset : ℕ) (col : List RrdValue) :
    Except SmootherFault (List RrdValue × RrdValue) := do
  let buffer ← queueAlloc (s32 (2 * offset + 1 : ℕ))
  let (buffer, sum) ← (List.range (2 * offset)).foldlM (fillStep rowCount offset col) (buffer, .fin 0)
  let s ← ((List.range rowCount).map (· + offset)).foldlM (averageStep rowCount offset col)
    ⟨buffer, sum, .fin 0, col⟩
  pure (s.rrdValues, s.baseline / .fin rowCount)

end Rrdtool
