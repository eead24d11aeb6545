import Rrdtool.Lib.Procedure
import Rrdtool.Strtol

/-!
# Reading a dump

The helpers of `src/rrd_restore.c` that take elements, texts and numbers from the XML reader. The reader is the list of the
nodes that it will stop at; it is a well-formed document, so that nothing but its end can make the reader fail.
-/

namespace Rrdtool.Restore

open Procedure

/-- The nodes that the helpers look at. -/
inductive NodeKind where
  | element (name : Text)
  | endElement (name : Text)
  | text (value : Text)
deriving DecidableEq

/-- A node of the document with the line that the parser is in; it has no kind if it is a comment, blank text or the like. -/
structure Node where
  kind : Option NodeKind
  line : ℤ

/-- The reader: the node that it has stopped at, and those to come. -/
structure Reader where
  node : Node
  rest : List Node

/-- How a part of the dump is not restored: with a message, with a status alone, by a division by zero, by a write outside of
the rows, or not at all. -/
inductive Failure where
  | error (message : Text)
  | silent
  | divisionByZero
  | outOfBounds
  | endless
deriving DecidableEq

abbrev Read (α : Type) := Proc Failure Reader α

/-- What lies outside of the dump: the option `--range-check`, what `rrd_random` gives for each archive, and what
`rrd_strerror` has to say. -/
structure Env where
  rangeCheck : Bool
  random : ℕ → ℕ
  strerror : Text

/-- The next node that has a kind. -/
@[grind] def advance : List Node → Option (NodeKind × Reader)
  | [] => none
  | { kind := none, line := _ } :: rest => advance rest
  | { kind := some kind, line } :: rest => some (kind, { node := { kind := some kind, line }, rest })

/-- `get_xml_element`; the name of an end has a slash in front. -/
@[grind] def getXmlElement : Read Text := do
  match advance (← get).rest with
  | none => throw (.error "the xml ended while we were looking for an element".toList)
  | some (kind, reader) =>
    set reader
    match kind with
    | .text value =>
      throw (.error ("line ".toList ++ decimal reader.node.line ++ ": expected element but found text '".toList ++ value ++ ['\'']))
    | .element name => return name
    | .endElement name => return '/' :: name

/-- `xmlStrcasecmp (a, b) == 0`. -/
@[grind] def sameName (a b : Text) : Bool := a.map Char.toLower = b.map Char.toLower

/-- `expect_element`. -/
def expectElement (expName : Text) : Read Unit := do
  let name ← getXmlElement
  if sameName name expName then return
  else
    throw (.error ("line ".toList ++ decimal (← get).node.line ++ ": expected <".toList ++ name ++ "> element but found <".toList ++
      expName ++ ['>']))

/-- `expect_element_end`; the reader may have stopped at the end already. -/
@[grind] def expectElementEnd (expName : Text) : Read Unit := do
  let name ←
    match (← get).node.kind with
    | some (.endElement name) => pure ('/' :: name)
    | _ => getXmlElement
  if sameName name.tail expName ∧ name.head? = some '/' then return
  else
    throw (.error ("line ".toList ++ decimal (← get).node.line ++ ": expected </".toList ++ expName ++
      "> end element but found <".toList ++ name ++ ['>']))

/-- The text up to a blank, without those in front. -/
@[grind] def firstWord (text : Text) : Text := (text.dropWhile isSpace).takeWhile fun c => !isSpace c

/-- `get_xml_text`: the first word, which is empty if the element ends at once. -/
@[grind] def getXmlText : Read Text := do
  match advance (← get).rest with
  | none => throw (.error "file ended while looking for text".toList)
  | some (kind, reader) =>
    set reader
    match kind with
    | .element name =>
      throw (.error ("line ".toList ++ decimal reader.node.line ++ ": expected a value but found a <".toList ++ name ++
        "> element".toList))
    | .endElement _ => return []
    | .text value => return firstWord value

/-- `get_xml_string`. -/
def getXmlString (maxLen : ℕ) : Read Text := do
  let str ← getXmlText
  if maxLen ≤ str.length then
    throw (.error ("'".toList ++ str ++ "' is longer than ".toList ++ decimal maxLen))
  else return str

/-- A number, as `read` converts the text of it. -/
def getXmlConverted {α : Type} (env : Env) (name : Text) (read : Text → Option α) : Read α := do
  let text ← getXmlText
  match read text with
  | some v => return v
  | none =>
    throw (.error ("ling ".toList ++ decimal (← get).node.line ++ ": ".toList ++ name ++ " from '".toList ++ text ++ "' ".toList ++
      env.strerror))

/-- The value of `strtoll (text, NULL, 0)`, unless `errno` is set. -/
@[grind] def timeOf (text : Text) : Option ℤ :=
  let temp := ((strtol 0 text).map (·.1)).getD 0
  if -2 ^ 63 ≤ temp ∧ temp < 2 ^ 63 then some temp else none

/-- The value of `strtoul (text, NULL, 0)`, unless `errno` is set. -/
def ulongOf (text : Text) : Option ℕ :=
  let temp := ((strtol 0 text).map (·.1)).getD 0
  if temp.natAbs < 2 ^ 64 then some (u64 temp) else none

/-- `xmlStrcasestr (text, word) != NULL`. -/
def containsWord (word text : Text) : Bool := text.tails.any (hasPrefixCI word)

/-- The value that `get_xml_double` takes from a text. -/
def doubleOf (text : Text) : Option RrdValue :=
  if containsWord "nan".toList text then some .nan
  else if containsWord "-inf".toList text then some .ninf
  else if containsWord "+inf".toList text ∨ containsWord "inf".toList text then some .pinf
  else
    match rrdStrtodbl text with
    | .whole v => some v
    | _ => none

/-- A number of a union: a count or a double. -/
inductive Unival where
  | cnt (n : ℕ)
  | val (v : RrdValue)
deriving DecidableEq

inductive NumKind where
  | ulong | double
deriving DecidableEq

/-- What is read from a text where a number of the kind is expected. -/
@[grind] def NumKind.read : NumKind → Text → Option Unival
  | .ulong, text => (ulongOf text).map .cnt
  | .double, text => (doubleOf text).map .val

/-- `get_xml_time_t`. -/
def getXmlTimeT (env : Env) : Read ℤ := getXmlConverted env "get_xml_time_t".toList timeOf

/-- `get_xml_ulong`. -/
def getXmlUlong (env : Env) : Read ℕ := getXmlConverted env "get_xml_ulong".toList ulongOf

/-- `get_xml_double`. -/
def getXmlDouble (env : Env) : Read RrdValue := getXmlConverted env "get_xml_double".toList doubleOf

def getXmlNumber (env : Env) : NumKind → Read Unival
  | .ulong => return .cnt (← getXmlUlong env)
  | .double => return .val (← getXmlDouble env)

end Rrdtool.Restore
