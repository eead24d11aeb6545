import Rrdtool.Fetch
import Rrdtool.Protocol.Request
import Rrdtool.Protocol.Response

/-!
# Fetching through the daemon

Port of `rrd_client_fetch` of `src/rrd_client.c`, with the parsers of the lines it reads, and of
`handle_request_fetch` of `src/rrd_daemon.c`, for a file without values in the cache. The step that is
asked for is not part of the request: the daemon fetches with step -1.

`%0.17e` is a parameter, as are the file system, the memory behind the buffers and arrays, and how the
connection cuts the bytes.
-/

namespace Rrdtool
open Client

/-- What a fetch returns. A row that was read at an unknown position of the file is `none`. -/
structure Fetched where
  start : ℤ
  stop : ℤ
  step : ℕ
  dsNamv : List Text
  data : List (Option Row)

/-- What `rrd_fetch_fn` returns of its result. -/
def FetchResult.fetched (res : FetchResult) : Fetched :=
  ⟨res.start, res.stop, res.step, res.dsNamv, res.data⟩

/-- `strcasecmp (a, b) == 0`. -/
def eqCI (a b : Text) : Bool := a.map Char.toLower == b.map Char.toLower

/-- The values of `t` in `for (t = start + step; t <= end; t += step)`. -/
@[grind] def rowTimes (start stop : ℤ) (step : ℕ) : List ℤ :=
  (List.range ((stop - start) / step).toNat).map fun j => start + (j + 1 : ℕ) * step

/-! ### The request -/

/-- The line that `rrd_client_fetch` sends. -/
def fetchRequest (getPath : Text → Option Text) (filename cf : Text) (start stop : ℤ) : Option Text := do
  let buffer ← addAll [] ["FETCH".toList]
  let path ← getPath filename
  let buffer ← addAll buffer [path]
  let buffer ← addAll buffer [cf]
  let buffer ←
    if 0 < start then do
      let buffer ← addAll buffer [ulong start.toNat]
      if 0 < stop then addAll buffer [ulong stop.toNat] else some buffer
    else some buffer
  return endLine buffer

/-! ### The daemon -/

/-- `buffer_get_field`, which fails on a buffer that is used up. -/
def getField (buffer : Option Text) : Option (Text × Option Text) := buffer.bind bufferGetField

/-- The fields that are left, up to one that cannot be read. -/
def fieldsLeft : ℕ → Option Text → List Text
  | 0, _ => []
  | n + 1, buffer =>
    match getField buffer with
    | none => []
    | some (field, buffer) => field :: fieldsLeft n buffer

/-- The arguments of `FETCH`, and the buffer behind them. -/
structure FetchArgs where
  file : Text
  cf : Text
  startStr : Option Text
  endStr : Option Text
  buffer : Option Text

/-- The arguments are read; the times are optional. -/
def fetchArgs (buffer : Option Text) : Option FetchArgs := do
  let (file, buffer) ← getField buffer
  let (cf, buffer) ← getField buffer
  match getField buffer with
  | none => some ⟨file, cf, none, none, buffer⟩
  | some (startStr, buffer) =>
    match getField buffer with
    | none => some ⟨file, cf, some startStr, none, buffer⟩
    | some (endStr, buffer) => some ⟨file, cf, some startStr, some endStr, buffer⟩

/-- `strtol` without an error: there are digits, and the value fits. -/
@[grind] def strtolFits (base : ℕ) (str : Text) : Option ℤ :=
  match strtol base str with
  | none => none
  | some (v, _) => if toLong v = v then some v else none

/-- A time of the request, at time `now`. -/
@[grind] def parseTime (now : ℤ) (str : Text) : Option ℤ :=
  (strtolFits 0 str).map fun value => if 0 < value then value else now + value

/-- The data sources that are asked for by name. -/
def selectFields (file : Text) (dsNamv : List Text) : List ℕ → List Text → Except Text (List ℕ)
  | fieldIdx, [] => .ok fieldIdx
  | fieldIdx, field :: fields =>
    if dsNamv.length ≤ fieldIdx.length then .error "too many fields given - duplicates!\n".toList
    else if field = [] then selectFields file dsNamv fieldIdx fields
    else match dsNamv.findIdx? (· = field) with
      | none => .error ("field ".toList ++ field ++ " not found in ".toList ++ file ++ ['\n'])
      | some found =>
        if found ∈ fieldIdx then .error ("field ".toList ++ field ++ " already used\n".toList)
        else selectFields file dsNamv (fieldIdx ++ [found]) fields

/-- The text of the error when `rrd_fetch_r` finds no archive. -/
def noMatchText : Text :=
  "rrd_fetch_r failed: the RRD does not contain an RRA matching the chosen CF\n".toList

/-- What a daemon and its connection are given. -/
structure FetchEnv where
  /-- `get_abs_path`, `check_file_access` and `rrd_open`, with the text of an error. -/
  openRrd : Text → Except Text Rrd
  now : ℤ
  /-- `%0.17e`. -/
  print : RrdValue → Text
  /-- The values in the array of the data that the fetch has not set. -/
  junk : ℕ → RrdValue
  /-- The memory behind a buffer of `RRD_CMD_MAX` bytes. -/
  behind : ℕ → Char
  /-- The connection delivers the bytes in chunks. -/
  deliver : Text → Conn
  delivered : ∀ bytes, (deliver bytes).unread = bytes

namespace FetchEnv

variable (env : FetchEnv)

/-- `handle_request_fetch_parse`, with -1 as the step: the result and the fields to be sent, or the text
of the error. -/
def handleRequestFetchParse (buffer : Option Text) : Except Text (FetchResult × List ℕ) :=
  match fetchArgs buffer with
  | none => .error "Usage: FETCH <file> <CF> [<start> [<end>] [<column>...]]\n".toList
  | some args => do
    let rrd ← env.openRrd args.file
    let startTm ← match args.startStr with
      | none => .ok (env.now - 86400)
      | some str => match parseTime env.now str with
        | some t => .ok t
        | none => .error ("Cannot parse start time `".toList ++ str ++
            "': Only simple integers are allowed.\n".toList)
    let endTm ← match args.endStr with
      | none => .ok env.now
      | some str => match parseTime env.now str with
        | some t => .ok t
        | none => .error ("Cannot parse end time `".toList ++ str ++
            "': Only simple integers are allowed.\n".toList)
    let cf ← match rrdCfConv args.cf with
      | some cf => .ok cf
      | none => .error ("rrd_fetch_r failed: unknown consolidation function '".toList ++ args.cf ++ "'\n".toList)
    let res ← match rrdFetchFn rrd cf startTm endTm (u64 (-1)) with
      | some res => .ok res
      | none => .error noMatchText
    let fieldIdx ← selectFields args.file res.dsNamv []
      (fieldsLeft (args.buffer.elim 0 fun b => b.length + 1) args.buffer)
    .ok (res, if fieldIdx = [] then List.range res.dsNamv.length else fieldIdx)

/-- `parsed.data[idx]`, with as many values in a row as there are data sources. -/
def cell (res : FetchResult) (idx : ℕ) : RrdValue :=
  match res.data[idx / res.dsNamv.length]? with
  | some (some row) => (row[idx % res.dsNamv.length]?).getD (env.junk idx)
  | _ => env.junk idx

/-- `%10lu`. -/
def padded (n : ℕ) : Text := List.replicate (10 - (ulong n).length) ' ' ++ ulong n

/-- A line with a number. -/
def numericLine (name : Text) (n : ℕ) : Text := name ++ ": ".toList ++ ulong n ++ ['\n']

/-- The texts of the line with the names. -/
def nameInfo : List Text → List Text
  | [] => []
  | name :: names => name :: names.map (' ' :: ·)

/-- The texts of row `j`, which ends at time `t`. -/
def rowInfo (res : FetchResult) (fieldIdx : List ℕ) (j : ℕ) (t : ℤ) : List Text :=
  (padded (u64 t) ++ [':']) ::
    fieldIdx.map (fun i => ' ' :: env.print (env.cell res ((j * res.dsNamv.length + i) % 2 ^ 32))) ++
    [['\n']]

/-- The texts that `handle_request_fetch` adds to the response. -/
def fetchInfo (res : FetchResult) (fieldIdx : List ℕ) : List Text :=
  [numericLine "FlushVersion".toList 1, numericLine "Start".toList (u64 res.start),
    numericLine "End".toList (u64 res.stop), numericLine "Step".toList res.step,
    numericLine "DSCount".toList fieldIdx.length, "DSName: ".toList] ++
    nameInfo (fieldIdx.map fun i => res.dsNamv.getD i []) ++ [['\n']] ++
    (rowTimes res.start res.stop res.step).zipIdx.flatMap fun (t, j) => env.rowInfo res fieldIdx j t

/-- `handle_request_fetch`: the code, text and texts of the response. -/
def handleRequestFetch (buffer : Option Text) : ResponseCode × Text × List Text :=
  match env.handleRequestFetchParse buffer with
  | .error text => (.err, text, [])
  | .ok (res, fieldIdx) => (.ok, "Success\n".toList, env.fetchInfo res fieldIdx)

/-- `handle_request`, for the one command. -/
@[grind] def handleRequest (cmd : Text) : Option (ResponseCode × Text × List Text) :=
  match bufferGetField cmd with
  | some (cmdStr, buffer) =>
    if eqCI cmdStr "FETCH".toList then some (env.handleRequestFetch buffer) else none
  | none => none

end FetchEnv

/-! ### The client -/

/-- `parse_header`. -/
def parseHeader (line : Text) : Option (Text × Text) :=
  match line.span (· ≠ ':') with
  | (_, []) => none
  | (key, _ :: tmp) =>
    let value := tmp.dropWhile fun c => c = ' ' || c = '\t'
    if value = [] then none else some (key, value)

/-- `parse_ulong_header`. -/
def parseUlongHeader (line : Text) : Option (Text × ℕ) := do
  let (key, strValue) ← parseHeader line
  let value ← strtolFits 0 strValue
  some (key, u64 value)

/-- The tokens of `strtok_r (.., " \t\r\n", ..)`. -/
def tokens (string : Text) : List Text :=
  (string.splitOnP fun c => c = ' ' || c = '\t' || c = '\x0d' || c = '\n').filter (· ≠ [])

/-- `parse_char_array_header`. -/
def parseCharArrayHeader (line : Text) (arrayLen : ℕ) : Option (Text × List Text) := do
  let (key, value) ← parseHeader line
  let tmpArray := (tokens value).take arrayLen
  if tmpArray.length ≠ arrayLen then none else some (key, tmpArray)

/-- A field that `rrd_strtodbl` reads to its end. -/
def parseValue (str : Text) : Option RrdValue :=
  match rrdStrtodbl str with
  | .whole v => some v
  | _ => none

/-- `parse_value_array_header`. -/
def parseValueArrayHeader (line : Text) (arrayLen : ℕ) : Option (ℤ × Row) := do
  let (strKey, strArray) ← parseCharArrayHeader line arrayLen
  let time ← strtolFits 10 strKey
  let array ← strArray.mapM parseValue
  some (time, array)

/-- `READ_NUMERIC_FIELD`. -/
def readNumericField (lines : List Text) (currentLine : ℕ) (name : Text) : Option ℕ := do
  let line ← lines[currentLine]?
  let (key, value) ← parseUlongHeader line
  if eqCI key name then some value else none

/-- The line of row `j`; the lines of the rows follow the six of the header. -/
def valueLine (lines : List Text) (dsNum j : ℕ) : Option (Option Row) := do
  let line ← lines[6 + j]?
  let (_, row) ← parseValueArrayHeader line dsNum
  some (some row)

/-- What `rrd_client_fetch` makes of the response. -/
def fetchReply (res : RrdcResponse) : Option Fetched := do
  guard (1 ≤ res.lines.length)
  let flushVersion ← readNumericField res.lines 0 "FlushVersion".toList
  guard (flushVersion = 1)
  guard (5 ≤ res.lines.length)
  let start ← readNumericField res.lines 1 "Start".toList
  let stop ← readNumericField res.lines 2 "End".toList
  guard (s64 start < s64 stop)
  let step ← readNumericField res.lines 3 "Step".toList
  guard (1 ≤ step)
  let dsNum ← readNumericField res.lines 4 "DSCount".toList
  guard (1 ≤ dsNum)
  let line ← res.lines[5]?
  let (key, dsNames) ← parseCharArrayHeader line dsNum
  guard (eqCI "DSName".toList key)
  let dataSize := u64 (dsNum * (s64 stop - s64 start)) / step
  guard (1 ≤ dataSize)
  guard (res.lines.length = 6 + dataSize / dsNum)
  let data ← (rowTimes (s64 start) (s64 stop) step).zipIdx.mapM fun p => valueLine res.lines dsNum p.2
  some ⟨s64 start, s64 stop, step, dsNames, data⟩

/-- `rrd_client_fetch` on a connection to the daemon. -/
def rrdClientFetch (env : FetchEnv) (getPath : Text → Option Text) (filename cf : Text)
    (start stop : ℤ) : Option Fetched := do
  let line ← fetchRequest getPath filename cf start stop
  let (cmd, _) ← nextCmd line
  let (rc, text, info) ← env.handleRequest cmd
  let sock := info.foldl (addResponseInfo env.behind) accepted
  let (res, _) ← (responseRead (env.deliver (sendResponse env.behind sock rc text).1)).toOption
  if res.status < 0 then none else fetchReply res

end Rrdtool
