import Mathlib.Data.Bool.AllAny
import Mathlib.Data.List.TakeWhile
import Rrdtool.Format

/-!
# Arguments of graph elements

Port of `parseArguments` (`src/rrd_graph_helper.c`), which splits `LINE1:a#ff0000:label=x` at the colons. It works in one
copy of the argument: an escaped colon moves the rest of the copy up, a field is ended by a NUL in place of its colon, and
keys and values are places of the copy (`Str`). What is to be found there is `arguments`, by the fields alone.
-/

namespace Rrdtool

namespace Arguments

/-! ### The code -/

/-- A C string: one of the program's own, or one that stands in the copy of the argument. -/
inductive Str where
  | literal (text : Text)
  | place (p : ℕ)
deriving DecidableEq

def stringAt (arg : Text) (p : ℕ) : Text := (arg.drop p).takeWhile (· ≠ '\x00')

@[grind] def Str.text (arg : Text) : Str → Text
  | .literal text => text
  | .place p => stringAt arg p

/-- `keyvalue_t`, with strings of the type `α`. -/
structure KeyValue (α : Type) where
  key : α
  value : α
  keyvalue : Text
  pos : ℕ
  flag : ℤ
deriving DecidableEq

/-- `parsedargs_t`. -/
structure ParsedArgs where
  arg : Text
  argOrig : Text
  kvArgs : List (KeyValue Str)
deriving DecidableEq

@[grind] def KeyValue.read (arg : Text) (kv : KeyValue Str) : KeyValue Text :=
  { key := kv.key.text arg, value := kv.value.text arg, keyvalue := kv.keyvalue, pos := kv.pos, flag := kv.flag }

/-- The arguments as they are read afterwards. -/
@[grind] def ParsedArgs.read (pa : ParsedArgs) : List (KeyValue Text) := pa.kvArgs.map (·.read pa.arg)

def poskeys : List Text :=
  ["pos0".toList, "pos1".toList, "pos2".toList, "pos3".toList, "pos4".toList, "pos5".toList, "pos6".toList,
    "pos7".toList, "pos8".toList, "pos9".toList]

/-- The words that are a key and a value behind the first positional field. -/
def keywords : List (Text × Text × Text) :=
  [("STACK".toList, "stack".toList, "1".toList), ("strftime".toList, "strftime".toList, "1".toList),
    ("dashes".toList, "dashes".toList, "5,5".toList), ("valstrftime".toList, "vformatter".toList, "timestamp".toList),
    ("valstrfduration".toList, "vformatter".toList, "duration".toList), ("skipscale".toList, "skipscale".toList, "1".toList)]

/-- The keyword of a field. -/
@[grind] def keyword (poscnt : ℕ) (field : Text) : Option (Text × Text) :=
  if 0 < poscnt then (keywords.find? (·.1 = field)).map (·.2) else none

/-- The synonyms of keys, one after the other. -/
def synonym (arg : Text) (key : Str) : Str :=
  let key := if key.text arg = "label".toList then .literal "legend".toList else key
  let key := if key.text arg = "colour".toList then .literal "color".toList else key
  if key.text arg = "colour2".toList then .literal "color2".toList else key

/-- The variables of the scan. -/
structure Scan where
  arg : Text
  cnt : ℕ
  poscnt : ℕ
  pos : ℕ
  field : Option ℕ
  kvArgs : List (KeyValue Str)

/-- The start of a field, where there is none. -/
@[grind] def Scan.start (s : Scan) : Scan :=
  match s.field with
  | some _ => s
  | none => { s with field := some s.pos, cnt := s.cnt + 1 }

/-- `addToArguments`, with the synonyms in front of it. -/
@[grind] def Scan.add (s : Scan) (keyvalue : Text) (key value : Str) : Scan :=
  { s with kvArgs := s.kvArgs ++ [{ key := synonym s.arg key, value, keyvalue, pos := s.cnt, flag := 0 }], field := none }

/-- The end of the field that begins at `field`. -/
@[grind] def Scan.endField (s : Scan) (field : ℕ) : Except Text Scan :=
  let arg := s.arg.set s.pos '\x00'
  let keyvalue := stringAt arg field
  let equal := field + (keyvalue.takeWhile (· ≠ '=')).length
  if arg.getD equal '\x00' = '=' then
    .ok ({ s with arg := arg.set equal '\x00' }.add keyvalue (.place field) (.place (equal + 1)))
  else
    match keyword s.poscnt keyvalue with
    | some (key, value) => .ok ({ s with arg }.add keyvalue (.literal key) (.literal value))
    | none =>
      if 9 < s.poscnt then .error "too many positional arguments".toList
      else .ok ({ s with arg, poscnt := s.poscnt + 1 }.add keyvalue (.literal (poskeys.getD s.poscnt [])) (.place field))

lemma endField_keeps {s s' : Scan} {field : ℕ} (h : s.endField field = .ok s') :
    s'.arg.length = s.arg.length ∧ s'.pos = s.pos := by
  unfold Scan.endField at h
  dsimp only at h
  split at h
  · cases h
    exact ⟨by simp [Scan.add], rfl⟩
  · split at h
    · cases h
      exact ⟨by simp [Scan.add], rfl⟩
    · split at h
      · cases h
      · cases h
        exact ⟨by simp [Scan.add], rfl⟩

lemma start_keeps (s : Scan) : s.start.arg = s.arg ∧ s.start.pos = s.pos := by
  unfold Scan.start
  split
  · exact ⟨rfl, rfl⟩
  · exact ⟨rfl, rfl⟩

lemma lt_length_of_getD {arg : Text} {p : ℕ} (h : arg.getD p '\x00' ≠ '\x00') : p < arg.length := by
  by_contra hle
  rw [List.getD_eq_getElem?_getD, List.getElem?_eq_none (Nat.le_of_not_lt hle)] at h
  exact h rfl

/-- The loop of `parseArguments`; the end of the argument is a field as well. -/
@[grind] def Scan.run (s : Scan) : Except Text Scan :=
  let c := s.arg.getD s.pos '\x00'
  if _hslash : c = '\\' then
    let arg := if s.arg.getD (s.pos + 1) '\x00' = ':' then s.arg.eraseIdx s.pos else s.arg
    Scan.run { s.start with arg, pos := s.pos + 1 }
  else if _hsep : c = '\x00' ∨ c = ':' then
    match _hfield : s.start.endField (s.start.field.getD s.pos) with
    | .error e => .error e
    | .ok s' => if _hend : c = '\x00' then .ok s' else Scan.run { s' with pos := s.pos + 1 }
  else Scan.run { s.start with pos := s.pos + 1 }
termination_by s.arg.length - s.pos
decreasing_by
  · have hlt : s.pos < s.arg.length := lt_length_of_getD (by rw [show s.arg.getD s.pos '\x00' = '\\' from _hslash]; decide)
    have hlen : arg.length ≤ s.arg.length := by
      show (if _ then _ else _ : Text).length ≤ _
      split
      · exact List.length_eraseIdx_le _ _
      · exact le_rfl
    show arg.length - (s.pos + 1) < s.arg.length - s.pos
    omega
  · have hlt : s.pos < s.arg.length := lt_length_of_getD _hend
    have hlen := (endField_keeps _hfield).1
    rw [(start_keeps s).1] at hlen
    show s'.arg.length - (s.pos + 1) < s.arg.length - s.pos
    omega
  · have hlt : s.pos < s.arg.length := lt_length_of_getD fun hend => _hsep (.inl hend)
    show s.start.arg.length - (s.pos + 1) < s.arg.length - s.pos
    rw [(start_keeps s).1]
    omega

/-- `parseArguments`. -/
def parseArguments (origarg : Text) : Except Text ParsedArgs := do
  let s ← Scan.run
    { arg := origarg ++ ['\x00'], cnt := 0, poscnt := 0, pos := 0, field := some 0, kvArgs := [] }
  return { arg := s.arg, argOrig := origarg, kvArgs := s.kvArgs }

/-! ### What the fields say -/

/-- The key that is meant by a synonym. -/
@[grind] def renamed (key : Text) : Text :=
  if key = "label".toList then "legend".toList
  else if key = "colour".toList then "color".toList
  else if key = "colour2".toList then "color2".toList
  else key

/-- The argument that a field is, with the number of positional fields so far. -/
@[grind] def argument (poscnt pos : ℕ) (field : Text) : Except Text (KeyValue Text × ℕ) :=
  if '=' ∈ field then
    .ok ({ key := renamed (field.takeWhile (· ≠ '=')), value := (field.dropWhile (· ≠ '=')).tail, keyvalue := field, pos,
           flag := 0 }, poscnt)
  else
    match keyword poscnt field with
    | some (key, value) => .ok ({ key := renamed key, value, keyvalue := field, pos, flag := 0 }, poscnt)
    | none =>
      if 9 < poscnt then .error "too many positional arguments".toList
      else .ok ({ key := renamed (poskeys.getD poscnt []), value := field, keyvalue := field, pos, flag := 0 }, poscnt + 1)

/-- The arguments that a list of fields is. -/
@[grind] def arguments : ℕ → ℕ → List Text → Except Text (List (KeyValue Text))
  | _, _, [] => .ok []
  | poscnt, pos, field :: fields => do
    let (kv, poscnt) ← argument poscnt pos field
    let kvs ← arguments poscnt (pos + 1) fields
    return kv :: kvs

/-- The colons of a field with backslashes in front. -/
@[grind] def escape (field : Text) : Text := field.flatMap fun c => if c = ':' then ['\\', ':'] else [c]

@[grind] def joined (fields : List Text) : Text := List.intercalate [':'] (fields.map escape)

/-! ### The scan -/

section Run

variable {done cur tail field : Text} {cnt poscnt : ℕ} {kvArgs : List (KeyValue Str)} {c : Char}

/-- In a field: what is done with in front of it, what has been read of it, and what is left. -/
@[grind] def inField (done cur tail : Text) (cnt poscnt : ℕ) (kvArgs : List (KeyValue Str)) : Scan :=
  { arg := done ++ cur ++ tail, cnt, poscnt, pos := (done ++ cur).length, field := some done.length, kvArgs }

lemma getD_length_add (pre tail : Text) (k : ℕ) (d : Char) : (pre ++ tail).getD (pre.length + k) d = tail.getD k d := by
  rw [List.getD_eq_getElem?_getD, List.getElem?_append_right (Nat.le_add_right _ _), Nat.add_sub_cancel_left,
    List.getD_eq_getElem?_getD]

lemma getD_length_append (pre tail : Text) (c d : Char) : (pre ++ c :: tail).getD pre.length d = c :=
  getD_length_add pre (c :: tail) 0 d

/-- A field begins at the first character that is read. -/
lemma run_start (s : Scan) : s.run = s.start.run := by
  obtain ⟨arg, cnt, poscnt, pos, field, kvArgs⟩ := s
  cases field with
  | some field => rfl
  | none =>
    rw [Scan.run]
    conv_rhs => rw [Scan.run]
    rfl

lemma run_plain (hslash : c ≠ '\\') (hnul : c ≠ '\x00') (hcolon : c ≠ ':') :
    (inField done cur (c :: tail) cnt poscnt kvArgs).run = (inField done (cur ++ [c]) tail cnt poscnt kvArgs).run := by
  have hget : (inField done cur (c :: tail) cnt poscnt kvArgs).arg.getD (inField done cur (c :: tail) cnt poscnt kvArgs).pos
      '\x00' = c := getD_length_append (done ++ cur) tail c _
  rw [Scan.run]
  dsimp only
  rw [dif_neg (by rw [hget]; exact hslash), dif_neg (by rw [hget]; exact not_or_intro hnul hcolon)]
  congr 1
  simp [inField, Scan.start, Nat.add_assoc]

lemma run_escaped :
    (inField done cur ('\\' :: ':' :: tail) cnt poscnt kvArgs).run =
      (inField done (cur ++ [':']) tail cnt poscnt kvArgs).run := by
  have hget : (inField done cur ('\\' :: ':' :: tail) cnt poscnt kvArgs).arg.getD
      (inField done cur ('\\' :: ':' :: tail) cnt poscnt kvArgs).pos '\x00' = '\\' :=
    getD_length_append (done ++ cur) (':' :: tail) _ _
  rw [Scan.run]
  dsimp only
  have hnext : (inField done cur ('\\' :: ':' :: tail) cnt poscnt kvArgs).arg.getD
      ((inField done cur ('\\' :: ':' :: tail) cnt poscnt kvArgs).pos + 1) '\x00' = ':' :=
    getD_length_add (done ++ cur) ('\\' :: ':' :: tail) 1 _
  have herase : (done ++ cur ++ '\\' :: ':' :: tail).eraseIdx (done ++ cur).length = done ++ (cur ++ [':']) ++ tail := by
    rw [List.eraseIdx_append_of_length_le le_rfl, Nat.sub_self, List.eraseIdx_cons_zero, List.append_assoc, List.append_assoc,
      List.append_assoc]
    rfl
  rw [dif_pos hget, if_pos hnext]
  congr 1
  simp only [inField, Scan.start]
  rw [herase, ← List.append_assoc, @List.length_append _ (done ++ cur) [':']]
  rfl

/-- A field that ends before the colon behind it: no NUL, and no backslash at its end. -/
structure Readable (field : Text) : Prop where
  nul : '\x00' ∉ field
  slash : field.getLast? ≠ some '\\'

lemma readable_of_forall (hchars : ∀ c ∈ field, c ≠ '\\' ∧ c ≠ '\x00') : Readable field where
  nul := fun h => (hchars _ h).2 rfl
  slash := fun h => (hchars _ (List.mem_of_getLast? h)).1 rfl

/-- A backslash that is not in front of a colon is a character like any other. -/
lemma run_backslash (hcolon : c ≠ ':') :
    (inField done cur ('\\' :: c :: tail) cnt poscnt kvArgs).run =
      (inField done (cur ++ ['\\']) (c :: tail) cnt poscnt kvArgs).run := by
  have hget : (inField done cur ('\\' :: c :: tail) cnt poscnt kvArgs).arg.getD
      (inField done cur ('\\' :: c :: tail) cnt poscnt kvArgs).pos '\x00' = '\\' :=
    getD_length_append (done ++ cur) (c :: tail) _ _
  have hnext : (inField done cur ('\\' :: c :: tail) cnt poscnt kvArgs).arg.getD
      ((inField done cur ('\\' :: c :: tail) cnt poscnt kvArgs).pos + 1) '\x00' ≠ ':' := by
    have h : (done ++ cur ++ '\\' :: c :: tail).getD ((done ++ cur).length + 1) '\x00' = c :=
      getD_length_add (done ++ cur) ('\\' :: c :: tail) 1 _
    exact fun h' => hcolon (h.symm.trans h')
  rw [Scan.run]
  dsimp only
  rw [dif_pos hget, if_neg hnext]
  congr 1
  simp [inField, Scan.start, Nat.add_assoc]

/-- The whole of a field is read, without the backslashes in front of its colons. -/
lemma run_field (hfield : Readable field) :
    (inField done cur (escape field ++ tail) cnt poscnt kvArgs).run =
      (inField done (cur ++ field) tail cnt poscnt kvArgs).run := by
  induction field generalizing cur with
  | nil => rw [escape, List.flatMap_nil, List.nil_append, List.append_nil]
  | cons c field ih =>
    have hnul : c ≠ '\x00' := by
      rintro rfl
      exact hfield.nul List.mem_cons_self
    have hrest : Readable field := by
      refine ⟨fun h => hfield.nul (List.mem_cons_of_mem c h), fun h => hfield.slash ?_⟩
      cases field with
      | nil => cases h
      | cons d field => rw [List.getLast?_cons_cons, h]
    have ih' := @ih (cur ++ [c]) hrest
    rw [List.append_assoc, List.singleton_append] at ih'
    rw [← ih']
    by_cases hcolon : c = ':'
    · rw [hcolon]
      exact run_escaped
    · have hescape : escape (c :: field) = c :: escape field := by
        rw [escape, List.flatMap_cons, if_neg hcolon]
        rfl
      rw [hescape]
      by_cases hslash : c = '\\'
      · subst hslash
        -- What follows the backslash is a character of the field, or the backslash of a colon.
        obtain ⟨d, rest, hd, hne⟩ : ∃ d rest, escape field ++ tail = d :: rest ∧ d ≠ ':' := by
          cases field with
          | nil => exact absurd rfl hfield.slash
          | cons d field =>
            by_cases hd : d = ':'
            · exact ⟨'\\', _, by rw [hd, escape, List.flatMap_cons, if_pos rfl]; rfl, by decide⟩
            · exact ⟨d, _, by rw [escape, List.flatMap_cons, if_neg hd]; rfl, hd⟩
        rw [List.cons_append, hd]
        exact run_backslash hne
      · exact run_plain hslash hnul hcolon

/-! ### The end of a field -/

lemma stringAt_append {pre text : Text} (h : '\x00' ∉ text) (tail : Text) :
    stringAt (pre ++ text ++ '\x00' :: tail) pre.length = text := by
  rw [stringAt, List.append_assoc, List.drop_left', List.takeWhile_append_of_pos, List.takeWhile_cons_of_neg (by simp),
    List.append_nil]
  · intro c hc
    simpa using fun h' : c = '\x00' => h (h' ▸ hc)
  · rfl

/-- A synonym is renamed; what is not stays where it is. -/
lemma synonym_eq (arg : Text) (key : Str) :
    synonym arg key = if renamed (key.text arg) = key.text arg then key else .literal (renamed (key.text arg)) := by
  unfold synonym renamed
  dsimp only
  by_cases hlabel : key.text arg = "label".toList
  · rw [if_pos hlabel, if_pos hlabel, hlabel]
    rfl
  · rw [if_neg hlabel, if_neg hlabel]
    by_cases hcolour : key.text arg = "colour".toList
    · simp only [hcolour, if_true]
      rfl
    · rw [if_neg hcolour, if_neg hcolour]
      by_cases hcolour2 : key.text arg = "colour2".toList
      · rw [if_pos hcolour2, if_pos hcolour2, hcolour2]
        rfl
      · rw [if_neg hcolour2, if_neg hcolour2, if_pos rfl]

lemma synonym_literal (arg key : Text) : synonym arg (.literal key) = .literal (renamed key) := by
  rw [synonym_eq]
  split
  · rename_i h
    exact congrArg Str.literal h.symm
  · rfl

/-- The argument that a field at the place `p` of the copy is, with the places of its strings. -/
@[grind] def argumentAt (poscnt pos p : ℕ) (field : Text) : Except Text (KeyValue Str × ℕ) :=
  if '=' ∈ field then
    let key := field.takeWhile (· ≠ '=')
    .ok ({ key := if renamed key = key then .place p else .literal (renamed key), value := .place (p + key.length + 1),
           keyvalue := field, pos, flag := 0 }, poscnt)
  else
    match keyword poscnt field with
    | some (key, value) =>
      .ok ({ key := .literal (renamed key), value := .literal value, keyvalue := field, pos, flag := 0 }, poscnt)
    | none =>
      if 9 < poscnt then .error "too many positional arguments".toList
      else
        .ok ({ key := .literal (renamed (poskeys.getD poscnt [])), value := .place p, keyvalue := field, pos, flag := 0 },
          poscnt + 1)

/-- What becomes of a field in the copy. -/
@[grind] def cutField (field : Text) : Text :=
  if '=' ∈ field then field.takeWhile (· ≠ '=') ++ '\x00' :: (field.dropWhile (· ≠ '=')).tail else field

/-- The copy up to `done` is all that an argument is read from. -/
def ReadsIn (done : Text) (kvArg : KeyValue Str) (kv : KeyValue Text) : Prop := ∀ tail, kvArg.read (done ++ tail) = kv

lemma takeWhile_equal {k : Text} (h : '=' ∉ k) (v : Text) :
    (k ++ '=' :: v).takeWhile (· ≠ '=') = k ∧ (k ++ '=' :: v).dropWhile (· ≠ '=') = '=' :: v := by
  have hk : ∀ c ∈ k, decide (c ≠ '=') = true := by
    intro c hc
    rw [decide_eq_true_eq]
    rintro rfl
    exact h hc
  constructor
  · rw [List.takeWhile_append_of_pos hk, List.takeWhile_cons_of_neg (by decide), List.append_nil]
  · rw [List.dropWhile_append_of_pos hk, List.dropWhile_cons_of_neg (by decide)]

lemma set_length_append (pre tail : Text) (c d : Char) : (pre ++ c :: tail).set pre.length d = pre ++ d :: tail := by
  rw [List.set_append_right _ _ le_rfl, Nat.sub_self]
  rfl

/-- In the copy a key ends where its value begins. -/
lemma stringAt_equal {k v : Text} (hk : '\x00' ∉ k) (hv : '\x00' ∉ v) (rest : Text) :
    stringAt (done ++ (k ++ '\x00' :: v) ++ '\x00' :: rest) done.length = k ∧
      stringAt (done ++ (k ++ '\x00' :: v) ++ '\x00' :: rest) (done.length + k.length + 1) = v := by
  constructor
  · simpa using @stringAt_append done k hk (v ++ '\x00' :: rest)
  · simpa [Nat.add_assoc] using @stringAt_append (done ++ k ++ ['\x00']) v hv rest

lemma cutField_equal {k : Text} (h : '=' ∉ k) (v : Text) : cutField (k ++ '=' :: v) = k ++ '\x00' :: v := by
  rw [cutField, if_pos (by simp), (takeWhile_equal h v).1, (takeWhile_equal h v).2]
  rfl

/-- The end of a field gives the argument that the field is, at its place. -/
lemma endField_at (hnul : '\x00' ∉ field) (sep : Char) :
    (inField done field (sep :: tail) cnt poscnt kvArgs).endField done.length =
      (argumentAt poscnt cnt done.length field).map fun (kvArg, poscnt) =>
        { arg := done ++ cutField field ++ '\x00' :: tail, cnt, poscnt, pos := (done ++ field).length, field := none,
          kvArgs := kvArgs ++ [kvArg] } := by
  have hstring := @stringAt_append done _ hnul tail
  unfold Scan.endField inField argumentAt
  by_cases hequal : '=' ∈ field
  · obtain ⟨k, v, rfl, hk⟩ := List.eq_append_cons_of_mem hequal
    have hsplit : done ++ (k ++ '=' :: v) ++ '\x00' :: tail = (done ++ k) ++ '=' :: (v ++ '\x00' :: tail) := by simp
    have hset : (done ++ (k ++ '=' :: v) ++ '\x00' :: tail).set (done ++ k).length '\x00' =
        done ++ (k ++ '\x00' :: v) ++ '\x00' :: tail := by
      rw [hsplit, set_length_append]
      simp
    have hget : (done ++ (k ++ '=' :: v) ++ '\x00' :: tail).getD (done ++ k).length '\x00' = '=' := by
      rw [hsplit, getD_length_append]
    have hkey := (@stringAt_equal done _ v (fun h => hnul (List.mem_append_left _ h))
      (fun h => hnul (List.mem_append_right _ (List.mem_cons_of_mem _ h))) tail).1
    have hlength : done.length + k.length = (done ++ k).length := List.length_append.symm
    rw [if_pos hequal, cutField_equal hk]
    simp only [set_length_append, hstring, (takeWhile_equal hk v).1, hlength, hget, if_pos, hset]
    rw [Scan.add]
    simp only [synonym_eq, Str.text, hkey]
    rfl
  · have htake : field.takeWhile (· ≠ '=') = field := by
      rw [List.takeWhile_eq_self_iff]
      intro c hc
      rw [decide_eq_true_eq]
      rintro rfl
      exact hequal hc
    have hget : (done ++ field ++ '\x00' :: tail).getD (done.length + field.length) '\x00' ≠ '=' := by
      rw [← List.length_append, getD_length_append]
      decide
    rw [if_neg hequal, cutField, if_neg hequal]
    simp only [set_length_append, hstring, htake, if_neg hget]
    cases keyword poscnt field with
    | some word =>
      obtain ⟨key, value⟩ := word
      dsimp only
      rw [Scan.add, synonym_literal]
      rfl
    | none =>
      dsimp only
      by_cases hmany : 9 < poscnt
      · rw [if_pos hmany, if_pos hmany]
        rfl
      · rw [if_neg hmany, if_neg hmany, Scan.add, synonym_literal]
        rfl

/-- An argument at its place is read as the argument that the field is. -/
lemma argumentAt_reads (hnul : '\x00' ∉ field) (pos : ℕ) :
    match argument poscnt pos field with
    | .error e => argumentAt poscnt pos done.length field = .error e
    | .ok (kv, poscnt') => ∃ kvArg, argumentAt poscnt pos done.length field = .ok (kvArg, poscnt') ∧
        ReadsIn (done ++ cutField field ++ ['\x00']) kvArg kv := by
  unfold argument argumentAt
  by_cases hequal : '=' ∈ field
  · obtain ⟨k, v, rfl, hk⟩ := List.eq_append_cons_of_mem hequal
    rw [if_pos hequal, if_pos hequal, (takeWhile_equal hk v).1, (takeWhile_equal hk v).2, cutField_equal hk]
    refine ⟨_, rfl, fun rest => ?_⟩
    obtain ⟨hkey, hvalue⟩ := @stringAt_equal done k v (fun h => hnul (List.mem_append_left _ h))
      (fun h => hnul (List.mem_append_right _ (List.mem_cons_of_mem _ h))) rest
    rw [List.append_assoc, List.singleton_append, KeyValue.read]
    dsimp only
    rw [Str.text, hvalue]
    congr 1
    split
    · rename_i hsame
      rw [Str.text, hkey, hsame]
    · rfl
  · rw [if_neg hequal, if_neg hequal, cutField, if_neg hequal]
    cases keyword poscnt field with
    | some word => exact ⟨_, rfl, fun rest => rfl⟩
    | none =>
      dsimp only
      by_cases hmany : 9 < poscnt
      · rw [if_pos hmany, if_pos hmany]
      · rw [if_neg hmany, if_neg hmany]
        refine ⟨_, rfl, fun rest => ?_⟩
        rw [KeyValue.read, List.append_assoc, List.singleton_append]
        dsimp only
        rw [@Str.text.eq_2, stringAt_append hnul]
        rfl

/-! ### The run -/

lemma run_nul : (inField done cur ('\x00' :: tail) cnt poscnt kvArgs).run =
    (inField done cur ('\x00' :: tail) cnt poscnt kvArgs).endField done.length := by
  have hget : (inField done cur ('\x00' :: tail) cnt poscnt kvArgs).arg.getD
      (inField done cur ('\x00' :: tail) cnt poscnt kvArgs).pos '\x00' = '\x00' :=
    getD_length_append (done ++ cur) tail _ _
  have hstart : (inField done cur ('\x00' :: tail) cnt poscnt kvArgs).start.endField
      ((inField done cur ('\x00' :: tail) cnt poscnt kvArgs).start.field.getD
        (inField done cur ('\x00' :: tail) cnt poscnt kvArgs).pos) =
      (inField done cur ('\x00' :: tail) cnt poscnt kvArgs).endField done.length := rfl
  rw [Scan.run]
  dsimp only
  rw [dif_neg (by rw [hget]; decide), dif_pos (.inl hget)]
  split
  · rename_i e herror
    rw [← hstart, herror]
  · rename_i s' hok
    rw [dif_pos hget, ← hstart, hok]

lemma run_colon : (inField done cur (':' :: tail) cnt poscnt kvArgs).run =
    ((inField done cur (':' :: tail) cnt poscnt kvArgs).endField done.length).bind fun s =>
      Scan.run { s with pos := (done ++ cur).length + 1 } := by
  have hget : (inField done cur (':' :: tail) cnt poscnt kvArgs).arg.getD
      (inField done cur (':' :: tail) cnt poscnt kvArgs).pos '\x00' = ':' :=
    getD_length_append (done ++ cur) tail _ _
  have hstart : (inField done cur (':' :: tail) cnt poscnt kvArgs).start.endField
      ((inField done cur (':' :: tail) cnt poscnt kvArgs).start.field.getD
        (inField done cur (':' :: tail) cnt poscnt kvArgs).pos) =
      (inField done cur (':' :: tail) cnt poscnt kvArgs).endField done.length := rfl
  rw [Scan.run]
  dsimp only
  rw [dif_neg (by rw [hget]; decide), dif_pos (.inr hget)]
  split
  · rename_i e herror
    rw [← hstart, herror]
    rfl
  · rename_i s' hok
    rw [dif_neg (by rw [hget]; decide), ← hstart, hok]
    rfl

lemma arguments_error {fields : List Text} {pos : ℕ} {e : Text} (h : argument poscnt pos field = .error e) :
    arguments poscnt pos (field :: fields) = .error e := by
  rw [arguments, h]
  rfl

lemma arguments_ok {fields : List Text} {pos poscnt' : ℕ} {kv : KeyValue Text}
    (h : argument poscnt pos field = .ok (kv, poscnt')) :
    arguments poscnt pos (field :: fields) = (arguments poscnt' (pos + 1) fields).map (kv :: ·) := by
  rw [arguments, h]
  cases hrest : arguments poscnt' (pos + 1) fields
  all_goals
    simp only [bind, Except.bind, hrest]
    rfl

/-- The arguments that a list of fields from the place `p` on is. -/
@[grind] def argumentsAt : ℕ → ℕ → ℕ → List Text → Except Text (List (KeyValue Str))
  | _, _, _, [] => .ok []
  | poscnt, pos, p, field :: fields =>
    match argumentAt poscnt pos p field with
    | .error e => .error e
    | .ok (kv, poscnt) => (argumentsAt poscnt (pos + 1) (p + field.length + 1) fields).map (kv :: ·)

/-- What becomes of the fields in the copy. -/
@[grind] def cutFields (fields : List Text) : Text := fields.flatMap fun field => cutField field ++ ['\x00']

lemma length_cutField (field : Text) : (cutField field).length = field.length := by
  unfold cutField
  split
  · rename_i hequal
    obtain ⟨k, v, rfl, hk⟩ := List.eq_append_cons_of_mem hequal
    rw [(takeWhile_equal hk v).1, (takeWhile_equal hk v).2]
    simp
  · rfl

/-- The fields are read one after the other, each as the argument that it is. -/
lemma run_fields {fields : List Text} (hne : fields ≠ []) (hfields : ∀ field ∈ fields, Readable field) :
    (inField done [] (joined fields ++ ['\x00']) cnt poscnt kvArgs).run.map (fun s => (s.arg, s.kvArgs)) =
      (argumentsAt poscnt cnt done.length fields).map fun kvs => (done ++ cutFields fields, kvArgs ++ kvs) := by
  induction fields generalizing done cnt poscnt kvArgs with
  | nil => exact absurd rfl hne
  | cons field fields ih =>
    have hfield := hfields field List.mem_cons_self
    cases fields with
    | nil =>
      have hjoined : joined [field] = escape field := by simp [joined]
      have hend := @endField_at done [] field cnt poscnt kvArgs hfield.nul '\x00'
      rw [hjoined, run_field hfield, List.nil_append, run_nul, hend, argumentsAt]
      cases argumentAt poscnt cnt done.length field with
      | error e => rfl
      | ok result => exact congrArg Except.ok (Prod.ext (by simp [cutFields]) rfl)
    | cons field' fields =>
      have hjoined : joined (field :: field' :: fields) = escape field ++ ':' :: joined (field' :: fields) := by
        simp [joined, List.intercalate]
      have hend := @endField_at done (joined (field' :: fields) ++ ['\x00']) field cnt poscnt kvArgs hfield.nul ':'
      rw [hjoined, List.append_assoc, List.cons_append, run_field hfield, List.nil_append, run_colon, hend, argumentsAt]
      cases argumentAt poscnt cnt done.length field with
      | error e => rfl
      | ok result =>
        obtain ⟨kvArg, poscnt'⟩ := result
        have hlength : (done ++ cutField field ++ ['\x00']).length = done.length + field.length + 1 := by
          simp [length_cutField, Nat.add_assoc]
        have hnext : ({ arg := done ++ cutField field ++ '\x00' :: (joined (field' :: fields) ++ ['\x00']), cnt,
                        poscnt := poscnt', pos := (done ++ field).length + 1, field := none,
                        kvArgs := kvArgs ++ [kvArg] } : Scan).start =
            inField (done ++ cutField field ++ ['\x00']) [] (joined (field' :: fields) ++ ['\x00']) (cnt + 1) poscnt'
              (kvArgs ++ [kvArg]) := by
          simp [Scan.start, inField, length_cutField, Nat.add_assoc]
        have hrest := @ih (done ++ cutField field ++ ['\x00']) (cnt + 1) poscnt' (kvArgs ++ [kvArg]) (List.cons_ne_nil _ _)
          fun f hf => hfields f (List.mem_cons_of_mem _ hf)
        rw [hlength] at hrest
        rw [Except.map, Except.bind, run_start, hnext, hrest]
        dsimp only
        cases argumentsAt poscnt' (cnt + 1) (done.length + field.length + 1) (field' :: fields) with
        | error e => rfl
        | ok kvs => exact congrArg Except.ok (Prod.ext (by simp [cutFields]) (List.append_assoc _ _ _))

/-- The arguments at their places are read as the arguments that the fields are. -/
lemma argumentsAt_reads {fields : List Text} (hfields : ∀ field ∈ fields, Readable field) (pos : ℕ) :
    (argumentsAt poscnt pos done.length fields).map (fun kvs => kvs.map (·.read (done ++ cutFields fields))) =
      arguments poscnt pos fields := by
  induction fields generalizing done poscnt pos with
  | nil => rfl
  | cons field fields ih =>
    have hhead := @argumentAt_reads done field poscnt (hfields field List.mem_cons_self).nul pos
    rw [argumentsAt]
    cases hargument : argument poscnt pos field with
    | error e =>
      rw [hargument] at hhead
      rw [hhead, arguments_error hargument]
      rfl
    | ok result =>
      obtain ⟨kv, poscnt'⟩ := result
      rw [hargument] at hhead
      obtain ⟨kvArg, hat, hread⟩ := hhead
      have hlength : (done ++ cutField field ++ ['\x00']).length = done.length + field.length + 1 := by
        simp [length_cutField, Nat.add_assoc]
      have hsplit : done ++ cutFields (field :: fields) = done ++ cutField field ++ ['\x00'] ++ cutFields fields := by
        simp [cutFields]
      have hrest := @ih (done ++ cutField field ++ ['\x00']) poscnt' (fun f hf => hfields f (List.mem_cons_of_mem _ hf)) (pos + 1)
      rw [hlength] at hrest
      rw [hat, arguments_ok hargument, ← hrest, hsplit]
      dsimp only
      cases argumentsAt poscnt' (pos + 1) (done.length + field.length + 1) fields with
      | error e => rfl
      | ok kvs => exact congrArg Except.ok (congrArg₂ List.cons (hread _) rfl)

/-- What `parseArguments` makes of fields that are joined by colons. -/
lemma parseArguments_at {fields : List Text} (hne : fields ≠ []) (hfields : ∀ field ∈ fields, Readable field) :
    parseArguments (joined fields) =
      (argumentsAt 0 0 0 fields).map fun kvs => { arg := cutFields fields, argOrig := joined fields, kvArgs := kvs } := by
  have hrun := @run_fields [] 0 0 [] fields hne hfields
  have hstart : (⟨joined fields ++ ['\x00'], 0, 0, 0, some 0, []⟩ : Scan) =
      inField [] [] (joined fields ++ ['\x00']) 0 0 [] := rfl
  unfold parseArguments
  rw [hstart]
  cases hresult : (inField [] [] (joined fields ++ ['\x00']) 0 0 []).run with
  | error e =>
    rw [hresult] at hrun
    cases hat : argumentsAt 0 0 0 fields with
    | error e' =>
      rw [List.length_nil, hat] at hrun
      cases hrun
      rfl
    | ok kvs =>
      rw [List.length_nil, hat] at hrun
      cases hrun
  | ok s =>
    rw [hresult] at hrun
    cases hat : argumentsAt 0 0 0 fields with
    | error e' =>
      rw [List.length_nil, hat] at hrun
      cases hrun
    | ok kvs =>
      rw [List.length_nil, hat] at hrun
      obtain ⟨harg, hkvs⟩ := Prod.mk.inj (Except.ok.inj hrun)
      simp only [bind, Except.bind, Except.map, pure, Except.pure]
      rw [harg, hkvs]
      rfl

lemma parseArguments_fields {fields : List Text} (hne : fields ≠ []) (hfields : ∀ field ∈ fields, Readable field) :
    (parseArguments (joined fields)).map ParsedArgs.read = arguments 0 0 fields := by
  rw [parseArguments_at hne hfields, ← @argumentsAt_reads [] 0 fields hfields 0]
  cases argumentsAt 0 0 0 fields
  all_goals rfl

lemma argument_of_lt (pos : ℕ) (h : '=' ∉ field → poscnt ≤ 9) :
    ∃ kv poscnt', argument poscnt pos field = .ok (kv, poscnt') ∧ kv.keyvalue = field ∧
      ('=' ∈ field → kv.value = (field.dropWhile (· ≠ '=')).tail ∧ poscnt' = poscnt) ∧ poscnt' ≤ poscnt + 1 := by
  unfold argument
  by_cases hequal : '=' ∈ field
  · rw [if_pos hequal]
    exact ⟨_, _, rfl, rfl, fun _ => ⟨rfl, rfl⟩, Nat.le_succ _⟩
  · rw [if_neg hequal]
    cases keyword poscnt field with
    | some word => exact ⟨_, _, rfl, rfl, fun h => absurd h hequal, Nat.le_succ _⟩
    | none =>
      dsimp only
      rw [if_neg (by have := h hequal; omega)]
      exact ⟨_, _, rfl, rfl, fun h => absurd h hequal, le_rfl⟩

/-- As many words as there are keys for them are read. -/
lemma exists_arguments {fields : List Text} (h : (fields.filter fun field => '=' ∉ field).length + poscnt ≤ 10) (pos : ℕ) :
    ∃ kvs, arguments poscnt pos fields = .ok kvs ∧
      List.Forall₂ (fun field kv => kv.keyvalue = field ∧ ('=' ∈ field → kv.value = (field.dropWhile (· ≠ '=')).tail))
        fields kvs := by
  induction fields generalizing poscnt pos with
  | nil => exact ⟨[], rfl, .nil⟩
  | cons field fields ih =>
    have hfilter : ((field :: fields).filter fun field => '=' ∉ field).length =
        (if '=' ∈ field then 0 else 1) + (fields.filter fun field => '=' ∉ field).length := by
      by_cases hequal : '=' ∈ field
      · simp [hequal]
      · simp [hequal, Nat.add_comm]
    rw [hfilter] at h
    obtain ⟨kv, poscnt', hargument, hkeyvalue, hvalue, hle⟩ := @argument_of_lt field poscnt pos fun hequal => by
      rw [if_neg hequal] at h
      omega
    have hrest : (fields.filter fun field => '=' ∉ field).length + poscnt' ≤ 10 := by
      by_cases hequal : '=' ∈ field
      · rw [(hvalue hequal).2]
        omega
      · rw [if_neg hequal] at h
        omega
    obtain ⟨kvs, harguments, hall⟩ := ih hrest (pos + 1)
    refine ⟨kv :: kvs, ?_, .cons ⟨hkeyvalue, fun hequal => (hvalue hequal).1⟩ hall⟩
    rw [arguments_ok hargument, harguments]
    rfl

end Run

/-- Fields that are joined by colons are split again: `parseArguments` gives each one back, in order, with what stands
behind its first equal sign as value. -/
def Splits (fields : List Text) : Prop :=
  ∃ pa, parseArguments (joined fields) = .ok pa ∧
    List.Forall₂ (fun field kv => kv.keyvalue = field ∧ ('=' ∈ field → kv.value = (field.dropWhile (· ≠ '=')).tail))
      fields pa.read

/-- Fields without backslashes are split again, whatever else stands in them. -/
theorem parseArguments_splits {fields : List Text} (hne : fields ≠ [])
    (hchars : ∀ field ∈ fields, ∀ c ∈ field, c ≠ '\\' ∧ c ≠ '\x00')
    (hpositional : (fields.filter fun field => '=' ∉ field).length ≤ 10) : Splits fields := by
  obtain ⟨kvs, harguments, hall⟩ := @exists_arguments 0 fields hpositional 0
  have hparse := parseArguments_fields hne fun field hfield => readable_of_forall (hchars field hfield)
  rw [harguments] at hparse
  cases hresult : parseArguments (joined fields) with
  | error e =>
    rw [hresult] at hparse
    cases hparse
  | ok pa =>
    rw [hresult] at hparse
    obtain rfl := Except.ok.inj hparse
    exact ⟨pa, hresult, hall⟩

/-- A field with a colon in its value, and an empty one at the end. -/
theorem parseArguments_splits_legend : Splits ["LINE1".toList, "a#ff0000".toList, "legend=a:b".toList, []] :=
  parseArguments_splits (by decide)
    (by
      intro field hfield
      fin_cases hfield
      all_goals exact List.all_iff_forall_prop.1 (by decide))
    (by decide)

/-- No fields are split into one that is empty. -/
theorem parseArguments_splits_nil :
    ¬ ∀ fields : List Text, (∀ field ∈ fields, ∀ c ∈ field, c ≠ '\\' ∧ c ≠ '\x00') →
      (fields.filter fun field => '=' ∉ field).length ≤ 10 → Splits fields := by
  intro h
  obtain ⟨pa, hparse, hall⟩ := h [] nofun (by decide)
  have hone := @parseArguments_fields [[]] (List.cons_ne_nil _ _) fun field hfield => by
    rw [List.mem_singleton.1 hfield]
    exact ⟨List.not_mem_nil, nofun⟩
  have hsame : joined [] = joined [[]] := rfl
  rw [← hsame, hparse] at hone
  have hread : pa.read = [] := List.forall₂_nil_left_iff.1 hall
  rw [Except.map, hread] at hone
  cases hone

end Arguments

end Rrdtool
