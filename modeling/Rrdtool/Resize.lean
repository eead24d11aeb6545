import Rrdtool.Modify.Write
import Rrdtool.Open
import Rrdtool.Strtol

/-!
# Changing the number of rows of an archive

Port of `rrd_resize` of `src/rrd_resize.c`, with the part of `src/rrd_open.c` that creates a file and reads and writes
it by `rrd_read`, `rrd_write` and `rrd_seek`. Files are sequences of words of eight bytes, in which every structure of
the format has a whole number of words. A file has the length that it was created with, and what does not fit is not
written.

`l`, the number of values to be moved, and the lengths of files are `unsigned long`s. The operating system is taken to
create a file of any length.
-/

namespace Rrdtool

/-! ### Files -/

/-- What an item is in the file. -/
@[grind] def FileItem.part : FileItem → RrdPart
  | .statHead .. => .statHead
  | .dsDef _ => .dsDef
  | .rraDef _ => .rraDef
  | .liveHead .. => .liveHead
  | .pdpPrep _ => .pdpPrep
  | .cdpPrep _ => .cdpPrep
  | .rraPtr _ => .rraPtr
  | .value _ => .rrdValue

/-- Eight bytes of a file: a part of an item, the zeros of a new file, or a value of which only a part was there. -/
inductive FileWord where
  | part (item : FileItem) (k : ℕ)
  | zero
  | torn

/-- The words of an item. -/
@[grind] def FileItem.words (item : FileItem) : List FileWord := (List.range (item.part.sizeof / 8)).map (.part item)

/-- Items as they stand in a file. -/
@[grind] def fileWords (items : List FileItem) : List FileWord := items.flatMap FileItem.words

/-- A file that was created (C `rrd_file_t`); `pos` is counted in words. -/
structure CreatedFile where
  words : List FileWord
  pos : ℕ

/-- `rrd_write`. -/
@[grind] def rrdWrite (file : CreatedFile) (buf : List FileWord) : CreatedFile :=
  if file.words.length < file.pos + buf.length then file
  else ⟨file.words.take file.pos ++ buf ++ file.words.drop (file.pos + buf.length), file.pos + buf.length⟩

/-- `rrd_seek`, with `SEEK_SET` and with `SEEK_CUR`. -/
@[grind] def seekSet (file : CreatedFile) (off : ℕ) : CreatedFile := { file with pos := off }
@[grind] def seekCur (file : CreatedFile) (off : ℕ) : CreatedFile := { file with pos := file.pos + off }

/-- `rrd_get_header_size`. -/
def rrdGetHeaderSize (version dsCnt rraCnt : ℕ) : ℕ :=
  (128 + 120 * dsCnt + 120 * rraCnt + (if version < 3 then 8 else 16) + 112 * dsCnt + 80 * dsCnt * rraCnt + 8 * rraCnt) %
    2 ^ 64

/-- `newfile_size` of `rrd_open`. -/
def newfileSize (rrd : MemRrd) : ℕ :=
  let valueCnt := rrd.rra.foldl (fun valueCnt rra => (valueCnt + rrd.dsCnt * rra.rraDef.rowCnt) % 2 ^ 64) 0
  let dataLen := 8 * valueCnt % 2 ^ 64
  (rrdGetHeaderSize rrd.version rrd.dsCnt rrd.rra.length + dataLen) % 2 ^ 64

/-- `rrd_open` with `RRD_CREAT`: nothing can be mapped of an empty file. -/
def rrdCreat (rrd : MemRrd) : Option CreatedFile :=
  if newfileSize rrd = 0 then none else some ⟨List.replicate (newfileSize rrd / 8) .zero, 0⟩

/-! ### Moving values -/

/-- The variables of `rrd_resize`: what is left to be read of the old file, `buffer`, the new file, `row_cnt` and
`cur_row` of the archive, and `modify`. -/
structure Resize where
  input : List FileWord
  buffer : FileWord
  out : CreatedFile
  rowCnt : ℕ
  curRow : ℕ
  modify : ℤ

/-- `rrd_read` of one value, which leaves `buffer` at the end of the file. -/
@[grind] def readValue (st : Resize) : Resize :=
  match st.input with
  | [] => st
  | word :: input => { st with buffer := word, input := input }

/-- `rrd_write` of one value. -/
def writeValue (st : Resize) : Resize := { st with out := rrdWrite st.out [st.buffer] }

/-- The body of the loops that move values. -/
@[grind] def moveValue (st : Resize) : Resize := writeValue (readValue st)

section Rows
variable (dsCnt : ℕ)

/-- `rrd_seek` over a row of the old file. -/
def skipRow (st : Resize) : Resize := { st with input := st.input.drop dsCnt }

/-- Adding rows, behind the current one. -/
@[grind] def growRra (st : Resize) : Resize :=
  let st := moveValue^[dsCnt * (st.curRow + 1) % 2 ^ 64] st
  writeValue^[u64 (dsCnt * st.modify)] { st with buffer := .part (.value .nan) 0 }

/-- A row at the beginning of the archive is removed. -/
def removeFirst (st : Resize) : Resize :=
  { skipRow dsCnt st with curRow := u64 ((st.curRow : ℤ) - 1), rowCnt := u64 ((st.rowCnt : ℤ) - 1), modify := st.modify + 1 }

/-- A row behind the current one is removed. -/
@[grind] def removeNext (st : Resize) : Resize :=
  { skipRow dsCnt st with rowCnt := u64 ((st.rowCnt : ℤ) - 1), modify := st.modify + 1 }

/-- Removing rows, behind the current one and from the beginning. -/
@[grind] def shrinkRra (st : Resize) : Resize :=
  let removeEnd := s64 (u64 (st.curRow - st.modify) % st.rowCnt)
  let st := if removeEnd ≤ s64 st.curRow then (removeFirst dsCnt)^[(removeEnd + 1).toNat] st else st
  let st := moveValue^[(st.curRow + 1) * dsCnt] st
  (removeNext dsCnt)^[(-st.modify).toNat] st

end Rows

/-- Moving what is left, of which the last bytes may not be a whole value. -/
@[grind] def moveRest (torn : Bool) : List FileWord → CreatedFile → CreatedFile
  | [], out => if torn then if out.words.length < out.pos + 1 then out else rrdWrite out [.torn] else out
  | word :: input, out => moveRest torn input (if out.words.length < out.pos + 1 then out else rrdWrite out [word])

/-! ### `rrd_resize` -/

inductive ResizeError where
  | reserved
  | parameters
  | growOrShrink
  | noRow
  | noSuchRra
  | notThatBig
  | cannotCreate
  | version (version : ℕ)
deriving DecidableEq

/-- The message left by `rrd_set_error`; `strerror` is what the operating system says, and a version has four digits. -/
def ResizeError.message (strerror : String) : ResizeError → String
  | .reserved => "resize.rrd is a reserved name"
  | .parameters => "wrong number of parameters"
  | .growOrShrink => "I can only GROW or SHRINK"
  | .noRow => "Please grow or shrink with at least 1 row"
  | .noSuchRra => "no such RRA in this RRD"
  | .notThatBig => "This RRA is not that big"
  | .cannotCreate => "Can't create 'resize.rrd': " ++ strerror
  | .version v => "Do not know how to handle RRD version " ++ String.ofList (List.leftpad 4 '0' (decimal v))

/-- The old file: the database, the words behind its values and whether some bytes are behind these. -/
structure ResizeInput where
  rrd : MemRrd
  behind : List FileWord
  torn : Bool

/-- The values of a database, in the order of the file. -/
def valueItems (rrd : MemRrd) : List FileItem :=
  (List.range (rrd.rowsBefore rrd.rra.length * rrd.dsCnt)).map fun j => .value (rrd.rrdValue j)

/-- The archive with other rows. -/
@[grind] def MemRrd.setRows (rrd : MemRrd) (target rowCnt curRow : ℕ) : MemRrd :=
  { rrd with rra := rrd.rra.modify target fun rra =>
      { rra with rraDef := { rra.rraDef with rowCnt := rowCnt }, curRow := curRow } }

/-- The values that `rrd_resize` moves, for the archive `target`. -/
@[grind] def moveValues (input : ResizeInput) (target : ℕ) (rra : MemRra) (modify : ℤ) (out : CreatedFile) : Resize :=
  let rrd := input.rrd
  let before := (rrd.rra.take target).foldl (fun l rra => (l + rrd.dsCnt * rra.rraDef.rowCnt) % 2 ^ 64) 0
  let st : Resize :=
    ⟨fileWords (valueItems rrd) ++ input.behind, .zero, out, rra.rraDef.rowCnt, rra.curRow, modify⟩
  let st := moveValue^[before] st
  let st := if 0 < modify then growRra rrd.dsCnt st else shrinkRra rrd.dsCnt st
  { st with out := moveRest input.torn st.input st.out, rowCnt := u64 (st.rowCnt + st.modify) }

/-- The definitions and the pointers are written once more. -/
def rewriteRra (rrd : MemRrd) (out : CreatedFile) : CreatedFile :=
  let out := seekSet out (16 + 15 * rrd.dsCnt)
  let out := rrdWrite out (fileWords (rrd.rra.map fun rra => .rraDef rra.rraDef))
  let out := seekCur out 2
  let out := seekCur out (14 * rrd.dsCnt)
  let out := seekCur out (10 * rrd.dsCnt * rrd.rra.length)
  rrdWrite out (fileWords (rrd.rra.map fun rra => .rraPtr rra.curRow))

/-- The header and the values, in a new file. -/
@[grind] def resizeFile (input : ResizeInput) (target : ℕ) (rra : MemRra) (modify : ℤ) (out : CreatedFile) : CreatedFile :=
  let rrd := { input.rrd with version := if input.rrd.version = 1 then 3 else input.rrd.version }
  let out := (headerChunks rrd).foldl (fun out chunk => rrdWrite out (fileWords chunk)) out
  let st := moveValues input target rra modify out
  rewriteRra (rrd.setRows target st.rowCnt st.curRow) st.out

/-- `strtol`, with the base 0. -/
def strtolLong (str : Text) : ℤ := toLong (((strtol 0 str).map (·.1)).getD 0)

/-- `target_rra`, and `modify` with its sign. -/
def resizeTarget (rraArg : Text) : ℕ := u64 (strtolLong rraArg)
def resizeModify (op rowsArg : Text) : ℤ :=
  if op = "SHRINK".toList then -strtolLong rowsArg else strtolLong rowsArg

/-- `rrd_resize`: the new file, or nothing when a loop does not end. The counter `tmp` is an `unsigned int`. -/
def rrdResize (argv : List Text) (input : ResizeInput) : Option (Except ResizeError CreatedFile) :=
  if argv[1]? = some "resize.rrd".toList then some (.error .reserved)
  else
    match argv with
    | [_, _, rraArg, op, rowsArg] =>
      let targetRra := resizeTarget rraArg
      if op ≠ "GROW".toList ∧ op ≠ "SHRINK".toList then some (.error .growOrShrink)
      else if strtolLong rowsArg < 1 then some (.error .noRow)
      else
        let modify := resizeModify op rowsArg
        match input.rrd.rra[targetRra]? with
        | none => some (.error .noSuchRra)
        | some rra =>
          if modify < 0 ∧ s64 rra.rraDef.rowCnt ≤ -modify then some (.error .notThatBig)
          else
            match rrdCreat (input.rrd.setRows targetRra (u64 (rra.rraDef.rowCnt + modify)) rra.curRow) with
            | none => some (.error .cannotCreate)
            | some out =>
              if input.rrd.version ∉ [1, 3, 4] then some (.error (.version input.rrd.version))
              else if modify < 0 ∧ 2 ^ 32 ≤ input.rrd.dsCnt then none
              else some (.ok (resizeFile input targetRra rra modify out))
    | _ => some (.error .parameters)

/-! ### What it should be -/

/-- A database after its archive `target` was resized: the rows of an age are the ones they were, and there are unknown
ones behind the oldest. -/
structure Resized (rrd rrd' : MemRrd) (target : ℕ) (modify : ℤ) : Prop where
  head : { rrd' with rra := rrd.rra, rrdValue := rrd.rrdValue } = rrd
  length : rrd'.rra.length = rrd.rra.length
  others : ∀ j, j ≠ target → rrd'.rra[j]? = rrd.rra[j]?
  archive : ∀ rra, rrd.rra[target]? = some rra → ∃ rowCnt curRow : ℕ,
    rrd'.rra[target]? = some { rra with rraDef := { rra.rraDef with rowCnt := rowCnt }, curRow := curRow } ∧
      (rowCnt : ℤ) = rra.rraDef.rowCnt + modify ∧ curRow < rowCnt
  sameRows : ∀ j rra, j ≠ target → rrd.rra[j]? = some rra → ∀ age < rra.rraDef.rowCnt, ∀ d < rrd.dsCnt,
    rrd'.value j d age = rrd.value j d age
  kept : ∀ rra, rrd.rra[target]? = some rra → ∀ age < rra.rraDef.rowCnt, (age : ℤ) < rra.rraDef.rowCnt + modify →
    ∀ d < rrd.dsCnt, rrd'.value target d age = rrd.value target d age
  unknown : ∀ rra, rrd.rra[target]? = some rra → ∀ age : ℕ, rra.rraDef.rowCnt ≤ age →
    (age : ℤ) < rra.rraDef.rowCnt + modify → ∀ d < rrd.dsCnt, rrd'.value target d age = .nan

/-- The bytes of the new file. -/
@[grind] def resizedBytes (rrd : MemRrd) (modify : ℤ) : ℤ :=
  144 + 232 * rrd.dsCnt + 128 * rrd.rra.length + 80 * rrd.dsCnt * rrd.rra.length +
    8 * rrd.dsCnt * (rrd.rowsBefore rrd.rra.length + modify)

end Rrdtool
