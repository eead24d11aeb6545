import Mathlib
import Rrdtool.Graph.DefAttempt

/-!
# The names of `DEF`

What `parse_def` (`src/rrd_graph_helper.c`) makes of `DEF:vname=rrd:ds:CF` for every name. `parseDef_answers_iff` says for
which names there is an error or the variable that is meant.
-/

namespace Rrdtool.ParseDef

open Procedure Arguments

/-! ### The copy -/

/-- The fields of a definition. -/
@[grind] def fields (v R D C : Text) : List Text := ["DEF".toList, v ++ '=' :: R, D, C]

/-- The copy of a definition, with `v` for its name. -/
@[grind] def copyOf (v R D C : Text) : Text :=
  ['D', 'E', 'F', '\x00'] ++ v ++ '\x00' :: R ++ '\x00' :: D ++ '\x00' :: C ++ ['\x00']

/-- A name as it may stand in a definition. -/
structure LegalName (v : Text) : Prop where
  ne_nil : v ≠ []
  length : v.length ≤ 255
  chars : ∀ c ∈ v, c.isAlphanum ∨ c = '_' ∨ c = '-'

/-- A word: a field that is no key with a value. -/
structure Word (field : Text) : Prop extends Arguments.Readable field where
  equal : '=' ∉ field

section Layout

variable {v R D C field arg : Text}

lemma LegalName.not_mem (hv : LegalName v) {c : Char} (hc : (c.isAlphanum || c = '_' || c = '-') = false) : c ∉ v := by
  intro hmem
  have hchar := hv.chars c hmem
  simp only [Bool.or_eq_false_iff, decide_eq_false_iff_not] at hc
  rcases hchar with h | h | h
  · rw [h] at hc
    cases hc.1.1
  · exact hc.1.2 h
  · exact hc.2 h

lemma LegalName.readable (hv : LegalName v) (hR : Arguments.Readable R) : Arguments.Readable (v ++ '=' :: R) where
  nul := by
    rw [List.mem_append, List.mem_cons]
    rintro (h | h | h)
    · exact hv.not_mem (by decide) h
    · cases h
    · exact hR.nul h
  slash := by
    rw [List.getLast?_append]
    cases R with
    | nil => simp
    | cons c R => simpa [List.getLast?_cons_cons] using hR.slash

lemma cutFields_eq (hv : LegalName v) (hD : Word D) (hC : Word C) : cutFields (fields v R D C) = copyOf v R D C := by
  have hcut : cutField (v ++ '=' :: R) = v ++ '\x00' :: R := cutField_equal (hv.not_mem (by decide)) R
  have hdef : cutField "DEF".toList = ['D', 'E', 'F'] := rfl
  have hcutD : cutField D = D := if_neg hD.equal
  have hcutC : cutField C = C := if_neg hC.equal
  unfold cutFields fields copyOf
  simp only [List.flatMap_cons, List.flatMap_nil, hcut, hdef, hcutD, hcutC, List.append_assoc, List.cons_append,
    List.nil_append, List.append_nil]

/-! ### Words -/

/-- The keys that a data source or a function may be read with. -/
def wordKeys : List Text := ["pos1".toList, "pos2".toList] ++ keywords.map (·.2.1)

lemma wordOf_mem {poscnt : ℕ} (hpos : poscnt = 1 ∨ poscnt = 2) (field : Text) : (wordOf poscnt field).1 ∈ wordKeys := by
  have hkeywords : ∀ word ∈ keywords, word.2.1 ∈ wordKeys := by decide
  have hposkeys : ∀ n, n = 1 ∨ n = 2 → poskeys.getD n [] ∈ wordKeys := by
    rintro n (rfl | rfl)
    all_goals decide
  unfold wordOf keyword
  rw [if_pos (by omega)]
  cases hfind : keywords.find? (·.1 = field) with
  | some word => exact hkeywords word (List.mem_of_find?_eq_some hfind)
  | none => exact hposkeys poscnt hpos

lemma wordOf_not_mem {poscnt : ℕ} (hpos : poscnt = 1 ∨ poscnt = 2) (field : Text) :
    (wordOf poscnt field).1 ∉ "cmd".toList :: "pos0".toList :: optionKeys := by
  have hdisjoint : ∀ key ∈ wordKeys, key ∉ "cmd".toList :: "pos0".toList :: optionKeys := by decide
  exact hdisjoint _ (wordOf_mem hpos field)

/-- A keyword is no function, and neither is its value. -/
lemma rrdCfConv_wordOf (poscnt : ℕ) (field : Text) : rrdCfConv (wordOf poscnt field).2 = rrdCfConv field := by
  have hkeywords : ∀ word ∈ keywords, rrdCfConv word.2.2 = rrdCfConv word.1 := by decide
  unfold wordOf keyword
  split
  · rename_i word hword
    split at hword
    · obtain ⟨found, hfind, rfl⟩ := Option.map_eq_some_iff.1 hword
      have hname : found.1 = field := by simpa using List.find?_some hfind
      rw [hkeywords found (List.mem_of_find?_eq_some hfind), hname]
    · cases hword
  · rfl

/-- The argument that a word at the place `p` is. -/
lemma argumentAt_word {poscnt : ℕ} (hfield : Word field) (hpos : poscnt = 1 ∨ poscnt = 2) (pos p : ℕ) :
    ∃ kv, argumentAt poscnt pos p field = .ok (kv, if (keyword poscnt field).isSome then poscnt else poscnt + 1) ∧
      kv.key = .literal (wordOf poscnt field).1 ∧ kv.flag = 0 ∧
      ∀ arg, stringAt arg p = field → kv.value.text arg = (wordOf poscnt field).2 := by
  have hrenamed : ∀ key ∈ wordKeys, renamed key = key := by decide
  have hkey := hrenamed _ (wordOf_mem hpos field)
  unfold argumentAt
  rw [if_neg hfield.equal]
  unfold wordOf at hkey ⊢
  cases hword : keyword poscnt field with
  | some word =>
    rw [hword] at hkey
    exact ⟨_, rfl, congrArg Str.literal hkey, rfl, fun arg _ => rfl⟩
  | none =>
    rw [hword] at hkey
    dsimp only
    rw [if_neg (by omega)]
    exact ⟨_, rfl, congrArg Str.literal hkey, rfl, fun arg harg => harg⟩

/-! ### The arguments in the copy -/

/-- The arguments of a definition, with the number `n` of the words in front of the function. -/
structure Four.Of (x : Four) (v R D C : Text) (n : ℕ) : Prop where
  arg : x.arg = copyOf v R D C
  flags : x.Flags 0 0
  name : x.k₁.key = if renamed v = v then .place 4 else .literal (renamed v)
  words : ∀ kv ∈ [x.k₂, x.k₃], ∃ text ∉ "cmd".toList :: "pos0".toList :: optionKeys, kv.key = .literal text
  reads : ∀ v', v'.length = v.length → '\x00' ∉ v' →
    Four.Reads { x with arg := copyOf v' R D C } (x.k₁.key.text (copyOf v' R D C)) R (wordOf 1 D) (wordOf n C)

/-- The strings of the copy are where they are read. -/
lemma stringAt_copyOf (hv : '\x00' ∉ v) (hR : '\x00' ∉ R) (hD : '\x00' ∉ D) (hC : '\x00' ∉ C) :
    stringAt (copyOf v R D C) 0 = "DEF".toList ∧ stringAt (copyOf v R D C) 4 = v ∧
      stringAt (copyOf v R D C) (4 + v.length + 1) = R ∧
      stringAt (copyOf v R D C) (4 + (v.length + R.length + 1) + 1) = D ∧
      stringAt (copyOf v R D C) (4 + (v.length + R.length + 1) + 1 + D.length + 1) = C := by
  have hplace : ∀ (pre text tail : Text) (p : ℕ), '\x00' ∉ text → copyOf v R D C = pre ++ text ++ '\x00' :: tail →
      pre.length = p → stringAt (copyOf v R D C) p = text := by
    rintro pre text tail p hnul hsplit rfl
    rw [hsplit]
    exact stringAt_append hnul tail
  refine ⟨?_, ?_, ?_, ?_, ?_⟩
  · exact hplace [] "DEF".toList _ 0 (by decide) rfl rfl
  · exact hplace ['D', 'E', 'F', '\x00'] v (R ++ '\x00' :: D ++ '\x00' :: C ++ ['\x00']) 4 hv
      (by simp only [copyOf, List.append_assoc, List.cons_append]) rfl
  · exact hplace (['D', 'E', 'F', '\x00'] ++ v ++ ['\x00']) R (D ++ '\x00' :: C ++ ['\x00']) _ hR
      (by simp only [copyOf, List.append_assoc, List.cons_append, List.nil_append]) (by simp; omega)
  · exact hplace (['D', 'E', 'F', '\x00'] ++ v ++ '\x00' :: R ++ ['\x00']) D (C ++ ['\x00']) _ hD
      (by simp only [copyOf, List.append_assoc, List.cons_append, List.nil_append]) (by simp; omega)
  · exact hplace (['D', 'E', 'F', '\x00'] ++ v ++ '\x00' :: R ++ '\x00' :: D ++ ['\x00']) C [] _ hC
      (by simp only [copyOf, List.append_assoc, List.cons_append, List.nil_append]) (by simp; omega)

/-- The argument with the name and the file, which is behind the command. -/
def nameAt (v R : Text) : KeyValue Str where
  key := if renamed v = v then .place 4 else .literal (renamed v)
  value := .place (4 + v.length + 1)
  keyvalue := v ++ '=' :: R
  pos := 1
  flag := 0

lemma argumentAt_name (hv : LegalName v) (R : Text) : argumentAt 1 1 4 (v ++ '=' :: R) = .ok (nameAt v R, 1) := by
  unfold argumentAt nameAt
  rw [if_pos (by simp), (takeWhile_equal (hv.not_mem (by decide)) R).1]

/-- The arguments of a definition are at their places. -/
lemma exists_four (hv : LegalName v) (hR : Arguments.Readable R) (hD : Word D) (hC : Word C) :
    ∃ (x : Four) (n : ℕ), x.Of v R D C n ∧
      parseArguments (Arguments.joined (fields v R D C)) = .ok ⟨x.arg, x.orig, x.kvs false⟩ := by
  have hreadable : ∀ field ∈ fields v R D C, Arguments.Readable field := by
    simp only [fields, List.forall_mem_cons, List.not_mem_nil, false_imp_iff, implies_true, and_true]
    exact ⟨readable_of_forall (List.all_iff_forall_prop.1 (by decide)), hv.readable hR, hD.toReadable, hC.toReadable⟩
  have hlength : (v ++ '=' :: R).length = v.length + R.length + 1 := by
    rw [List.length_append, List.length_cons, Nat.add_assoc]
  obtain ⟨k₂, hk₂, hkey₂, hflag₂, hvalue₂⟩ := argumentAt_word hD (.inl rfl) 2 (4 + (v.length + R.length + 1) + 1)
  obtain ⟨n, hn, hnext⟩ : ∃ n, (n = 1 ∨ n = 2) ∧ (if (keyword 1 D).isSome then 1 else 1 + 1) = n := by
    split
    · exact ⟨1, .inl rfl, rfl⟩
    · exact ⟨2, .inr rfl, rfl⟩
  obtain ⟨k₃, hk₃, hkey₃, hflag₃, hvalue₃⟩ :=
    argumentAt_word hC hn 3 (4 + (v.length + R.length + 1) + 1 + D.length + 1)
  have hnot₂ := wordOf_not_mem (.inl rfl) D
  have hnot₃ := wordOf_not_mem hn C
  refine ⟨⟨copyOf v R D C, Arguments.joined (fields v R D C), ⟨.literal "pos0".toList, .place 0, "DEF".toList, 0, 0⟩, nameAt v R, k₂,
    k₃⟩, n, ⟨rfl, ⟨rfl, rfl, hflag₂, hflag₃⟩, rfl, ?_, ?_⟩, ?_⟩
  · simp only [List.forall_mem_cons, List.not_mem_nil, false_imp_iff, implies_true, and_true]
    exact ⟨⟨_, hnot₂, hkey₂⟩, ⟨_, hnot₃, hkey₃⟩⟩
  · intro v' hlength' hnul
    obtain ⟨hdef, -, hrrd, hds, hcf⟩ := stringAt_copyOf hnul hR.nul hD.nul hC.nul
    rw [hlength'] at hrrd hds hcf
    exact ⟨rfl, hdef, rfl, hrrd, hkey₂, hvalue₂ _ hds, ⟨_, fun h => hnot₃ (.tail _ (.tail _ h)), hkey₃⟩, hvalue₃ _ hcf,
      fun h => hnot₂ (.tail _ (.tail _ h))⟩
  · have hfirst : argumentAt 0 0 0 "DEF".toList = .ok (⟨.literal "pos0".toList, .place 0, "DEF".toList, 0, 0⟩, 1) := rfl
    have harguments : argumentsAt 0 0 0 (fields v R D C) =
        .ok [⟨.literal "pos0".toList, .place 0, "DEF".toList, 0, 0⟩, nameAt v R, k₂, k₃] := by
      have hdef : 0 + "DEF".toList.length + 1 = 4 := rfl
      rw [hnext] at hk₂
      simp only [fields, argumentsAt, hfirst, hdef, argumentAt_name hv R, hlength, hk₂, hk₃]
      rfl
    have hne : fields v R D C ≠ [] := List.cons_ne_nil _ _
    rw [parseArguments_at hne hreadable, cutFields_eq hv hD hC, harguments]
    rfl

end Layout

/-! ### Both attempts -/

section Attempts

variable {Tv : Type} {clock : Clock Tv} {im : Graph} {x : Four} {v t R D C : Text} {ds cf : Text × Text} {times : ℤ × ℤ}

/-- A definition that is in the graph, with the parts that its description has. -/
def Defines (im : Graph) (arg : Text) (parts : Str × Str × Str × Str) (r : Except Fault Graph) : Prop :=
  ∃ gdp, Describes arg parts gdp ∧ r = .ok (im.add gdp)

lemma at_gdesAlloc (im : Graph) (x : Four) :
    At x (im.start, im.endTime) false { pa := ⟨x.arg, x.orig, x.kvs false⟩, gdp := im.gdesAlloc } := ⟨rfl, rfl⟩

/-- The first attempt succeeds with its parts, or leaves the arguments as they were. -/
lemma parseDef_first (h : x.Reads t R ds cf)
    (hcolor : ∀ parts, partsWith x t = some parts → '#' ∉ parts.1.text x.arg) :
    match attempted clock im.findVar x t R (im.start, im.endTime) with
    | some parts => Defines im x.arg parts (parseDef clock im ⟨x.arg, x.orig, x.kvs false⟩)
    | none => ∃ s message,
        outcome (describe clock im.findVar) { pa := ⟨x.arg, x.orig, x.kvs false⟩, gdp := im.gdesAlloc } =
          (.error (.error message), s) ∧
        After x ((timesWith clock t R (im.start, im.endTime)).getD (im.start, im.endTime)) s := by
  have hends := @describe_ends x t R ds cf (im.start, im.endTime) _ Tv clock im.findVar h (at_gdesAlloc im x) hcolor
  unfold Ends at hends
  obtain ⟨r, s, hrun⟩ : ∃ r s,
      outcome (describe clock im.findVar) { pa := ⟨x.arg, x.orig, x.kvs false⟩, gdp := im.gdesAlloc } = (r, s) := ⟨_, _, rfl⟩
  rw [hrun] at hends
  obtain ⟨hafter, hresult⟩ := hends
  cases hattempted : attempted clock im.findVar x t R (im.start, im.endTime) with
  | some parts =>
    rw [hattempted] at hresult
    obtain ⟨rfl, hdescribes⟩ := hresult
    refine ⟨s.gdp, hdescribes, ?_⟩
    unfold parseDef
    rw [hrun]
  | none =>
    rw [hattempted] at hresult
    obtain ⟨message, rfl⟩ := hresult
    exact ⟨s, message, hrun, hafter⟩

/-- What has been used is free again, but not the command. -/
lemma reset_kvs (hflags : x.Flags 255 0) (b : Bool) : resetParsedArguments (x.kvs b) = x.kvs false := by
  obtain ⟨arg, orig, k₀, k₁, k₂, k₃⟩ := x
  obtain ⟨key₁, value₁, keyvalue₁, pos₁, flag₁⟩ := k₁
  obtain ⟨key₂, value₂, keyvalue₂, pos₂, flag₂⟩ := k₂
  obtain ⟨key₃, value₃, keyvalue₃, pos₃, flag₃⟩ := k₃
  obtain ⟨key₀, value₀, keyvalue₀, pos₀, flag₀⟩ := k₀
  obtain ⟨rfl, rfl, rfl, rfl⟩ := hflags
  cases b
  all_goals rfl

lemma firstUnused_name (hflags : x.Flags 255 0) : getFirstUnusedArgument 0 (x.kvs false) = some (x.k₁, x.kvs false) := by
  obtain ⟨arg, orig, k₀, k₁, k₂, k₃⟩ := x
  obtain ⟨key₁, value₁, keyvalue₁, pos₁, flag₁⟩ := k₁
  obtain ⟨key₀, value₀, keyvalue₀, pos₀, flag₀⟩ := k₀
  obtain ⟨rfl, rfl, -, -⟩ := hflags
  rfl

lemma firstUnused_command (hflags : x.Flags 0 255) (b : Bool) :
    ∃ first kvs, getFirstUnusedArgument 0 (resetParsedArguments (x.kvs b)) = some (first, kvs) ∧ first.key = x.k₀.key := by
  have hflag : x.k₀.flag ≠ 255 := by
    rw [hflags.flag₀]
    decide
  simp only [Four.kvs, resetParsedArguments, List.map_cons, if_neg hflag, getFirstUnusedArgument, if_true]
  exact ⟨_, _, rfl, rfl⟩

/-- A name that the program itself has given is not written to. -/
lemma parseDef_literal (h : x.Reads t R ds cf) (hflags : x.Flags 255 0)
    (hcolor : ∀ parts, partsWith x t = some parts → '#' ∉ parts.1.text x.arg) {key : Text} (hkey : x.k₁.key = .literal key)
    (hnot : key ∉ poskeys) (hfailed : attempted clock im.findVar x t R (im.start, im.endTime) = none) :
    parseDef clock im ⟨x.arg, x.orig, x.kvs false⟩ = .error .crash := by
  have hfirst := @parseDef_first Tv clock im x t R ds cf h hcolor
  rw [hfailed] at hfirst
  obtain ⟨s, message, hrun, hafter⟩ := hfirst
  obtain ⟨b, hreset⟩ := hafter.kvs
  unfold parseDef
  rw [hrun]
  simp only [hreset, reset_kvs hflags, firstUnused_name hflags, hkey, if_neg hnot]

/-- Where something else has been the command, the command is a positional argument, and there is no second attempt. -/
lemma parseDef_command (h : x.Reads t R ds cf) (hflags : x.Flags 0 255)
    (hcolor : ∀ parts, partsWith x t = some parts → '#' ∉ parts.1.text x.arg)
    (hfailed : attempted clock im.findVar x t R (im.start, im.endTime) = none) :
    ∃ message, parseDef clock im ⟨x.arg, x.orig, x.kvs false⟩ = .error (.error message) := by
  have hfirst := @parseDef_first Tv clock im x t R ds cf h hcolor
  rw [hfailed] at hfirst
  obtain ⟨s, message, hrun, hafter⟩ := hfirst
  obtain ⟨b, hreset⟩ := hafter.kvs
  obtain ⟨first, kvs, hunused, hkey⟩ := firstUnused_command hflags b
  have hposkey : "pos0".toList ∈ poskeys := by decide
  refine ⟨message, ?_⟩
  unfold parseDef
  rw [hrun]
  simp only [hreset, hunused, hkey, h.key₀, if_pos hposkey]

/-- The second attempt, with another first character in the name. -/
lemma parseDef_again (h : x.Reads t R ds cf) (hflags : x.Flags 255 0)
    (hcolor : ∀ parts, partsWith x t = some parts → '#' ∉ parts.1.text x.arg) {p : ℕ} (hkey : x.k₁.key = .place p)
    (hfailed : attempted clock im.findVar x t R (im.start, im.endTime) = none) {y : Four} {t' : Text}
    (hy : y = { x with arg := patchKey x.arg p }) (h' : y.Reads t' R ds cf)
    (hcolor' : ∀ parts, partsWith y t' = some parts → '#' ∉ parts.1.text y.arg) :
    match attempted clock im.findVar y t' R ((timesWith clock t R (im.start, im.endTime)).getD (im.start, im.endTime)) with
    | some parts => Defines im y.arg parts (parseDef clock im ⟨x.arg, x.orig, x.kvs false⟩)
    | none => ∃ message, parseDef clock im ⟨x.arg, x.orig, x.kvs false⟩ = .error (.error message) := by
  have hfirst := @parseDef_first Tv clock im x t R ds cf h hcolor
  rw [hfailed] at hfirst
  obtain ⟨s, message, hrun, hafter⟩ := hfirst
  obtain ⟨b, hreset⟩ := hafter.kvs
  rw [reset_kvs hflags] at hreset
  have hparse : ∀ r s', outcome (describe clock im.findVar)
      { pa := { s.pa with arg := patchKey x.arg p, kvArgs := x.kvs false }, gdp := s.gdp } = (r, s') →
      (∀ u, r = .ok u → parseDef clock im ⟨x.arg, x.orig, x.kvs false⟩ = .ok (im.add s'.gdp)) ∧
        ∀ e, r = .error (.error e) → parseDef clock im ⟨x.arg, x.orig, x.kvs false⟩ = .error (.error message) := by
    intro r s' hagain
    unfold parseDef
    rw [hrun]
    simp only [hreset, firstUnused_name hflags, hkey, hafter.arg]
    rw [hagain]
    constructor
    · rintro u rfl
      rfl
    · rintro e rfl
      rfl
  have hat : At y ((timesWith clock t R (im.start, im.endTime)).getD (im.start, im.endTime)) false
      { pa := { s.pa with arg := patchKey x.arg p, kvArgs := x.kvs false }, gdp := s.gdp } := by
    rw [hy]
    exact ⟨congrArg (ParsedArgs.mk _ · _) hafter.orig, hafter.times⟩
  have hends := @describe_ends y t' R ds cf _ _ Tv clock im.findVar h' hat hcolor'
  unfold Ends at hends
  obtain ⟨r, s', hagain⟩ : ∃ r s', outcome (describe clock im.findVar)
      { pa := { s.pa with arg := patchKey x.arg p, kvArgs := x.kvs false }, gdp := s.gdp } = (r, s') := ⟨_, _, rfl⟩
  rw [hagain] at hends
  obtain ⟨-, hresult⟩ := hends
  cases hattempted : attempted clock im.findVar y t' R
      ((timesWith clock t R (im.start, im.endTime)).getD (im.start, im.endTime)) with
  | some parts =>
    rw [hattempted] at hresult
    obtain ⟨rfl, hdescribes⟩ := hresult
    exact ⟨s'.gdp, hdescribes, (hparse _ _ hagain).1 _ rfl⟩
  | none =>
    rw [hattempted] at hresult
    obtain ⟨message', rfl⟩ := hresult
    exact ⟨message, (hparse _ _ hagain).2 _ rfl⟩

/-- The parts of an attempt that succeeds. -/
lemma attempted_eq_some {findVar : Text → Option ℕ} {parts : Str × Str × Str × Str} :
    attempted clock findVar x t R times = some parts ↔
      timesWith clock t R times ≠ none ∧ partsWith x t = some parts ∧ Assignable findVar x.arg parts := by
  unfold attempted
  cases timesWith clock t R times with
  | none => simp
  | some times' => simp [Option.filter_eq_some_iff]

end Attempts

/-! ### The command -/

section Command

variable {x : Four} {v R D C : Text} {n : ℕ}

/-- The four arguments are searched from the last to the first. -/
lemma getKeyValueArgument_four {key : Text} {flag : ℤ} (hflag : flag ≠ 0) (h₂ : x.k₂.key.text x.arg ≠ key)
    (h₃ : x.k₃.key.text x.arg ≠ key) :
    getKeyValueArgument x.arg key flag (x.kvs false) =
      if x.k₁.key.text x.arg = key then
        some (x.k₁.value, Four.kvs { x with k₁ := { x.k₁ with flag } } false)
      else if x.k₀.key.text x.arg = key then
        some (x.k₀.value, Four.kvs { x with k₀ := { x.k₀ with flag } } false)
      else none := by
  have hname : used false x.k₁ = x.k₁ := rfl
  simp only [Four.kvs, getKeyValueArgument, if_neg h₂, if_neg h₃, if_neg hflag, hname]
  by_cases h₁ : x.k₁.key.text x.arg = key
  · rw [if_pos h₁, if_pos h₁]
    rfl
  · rw [if_neg h₁, if_neg h₁]

/-- The command is the first field, or the file where the name is a key that the command is looked up with. -/
lemma command_four (hx : x.Of v R D C n) (h : x.Reads (renamed v) R (wordOf 1 D) (wordOf n C)) :
    command ⟨x.arg, x.orig, x.kvs false⟩ =
      if renamed v = "cmd".toList ∨ renamed v = "pos0".toList then
        some (R, ⟨x.arg, x.orig, Four.kvs { x with k₁ := { x.k₁ with flag := 255 } } false⟩)
      else some ("DEF".toList, ⟨x.arg, x.orig, Four.kvs { x with k₀ := { x.k₀ with flag := 255 } } false⟩) := by
  have hwords : ∀ kv ∈ [x.k₂, x.k₃], ∀ key ∈ ["cmd".toList, "pos0".toList], kv.key.text x.arg ≠ key := by
    intro kv hkv key hkey
    obtain ⟨text, htext, heq⟩ := hx.words kv hkv
    rw [heq]
    rintro rfl
    exact htext (List.mem_append_left optionKeys hkey)
  have hkey₀ : x.k₀.key.text x.arg = "pos0".toList := congrArg (Str.text x.arg) h.key₀
  have hfound := @getKeyValueArgument_four x _ 255 (by decide) (hwords x.k₂ (by simp) "cmd".toList (by simp))
    (hwords x.k₃ (by simp) _ (by simp))
  have hfound₀ := @getKeyValueArgument_four x _ 255 (by decide) (hwords x.k₂ (by simp) "pos0".toList (by simp))
    (hwords x.k₃ (by simp) _ (by simp))
  have hne : "pos0".toList ≠ "cmd".toList := by decide
  rw [h.key₁, hkey₀, if_neg hne] at hfound
  rw [h.key₁, hkey₀, if_pos rfl] at hfound₀
  unfold command
  dsimp only
  rw [hfound, hfound₀]
  by_cases hcmd : renamed v = "cmd".toList
  · have hor : renamed v = "cmd".toList ∨ renamed v = "pos0".toList := .inl hcmd
    rw [if_pos hcmd, if_pos hor]
    exact congrArg some (Prod.ext h.value₁ rfl)
  · rw [if_neg hcmd]
    by_cases hpos : renamed v = "pos0".toList
    · rw [if_pos hpos, if_pos (.inr hpos)]
      exact congrArg some (Prod.ext h.value₁ rfl)
    · rw [if_neg hpos, if_neg (not_or_intro hcmd hpos)]
      exact congrArg some (Prod.ext h.value₀ rfl)

end Command

/-! ### Names -/

/-- The name with another first character. -/
def patched : Text → Text
  | [] => []
  | c :: v => Char.ofNat ((c.toNat + 128) % 256) :: v

section Names

variable {v t R D C : Text}

lemma patchKey_copyOf (hv : LegalName v) : patchKey (copyOf v R D C) 4 = copyOf (patched v) R D C := by
  cases v with
  | nil => exact absurd rfl hv.ne_nil
  | cons c v => rfl

lemma LegalName.toNat_lt (hv : LegalName v) {c : Char} (hc : c ∈ v) : c.toNat < 128 := by
  have hrange : ∀ n : UInt32, (n.toNat ≤ 90 ∨ n.toNat ≤ 122 ∨ n.toNat ≤ 57) → n.toNat < 128 := by
    intro n h
    omega
  rcases hv.chars c hc with h | rfl | rfl
  · refine hrange c.val ?_
    simp only [Char.isAlphanum, Char.isAlpha, Char.isUpper, Char.isLower, Char.isDigit, Bool.or_eq_true, Bool.and_eq_true,
      decide_eq_true_eq] at h
    rcases h with (⟨-, h⟩ | ⟨-, h⟩) | ⟨-, h⟩
    · exact .inl h
    · exact .inr (.inl h)
    · exact .inr (.inr h)
  · decide
  · decide

/-- The other first character is one that no name has. -/
lemma exists_patched (hv : LegalName v) : ∃ c, patched v = c :: v.tail ∧ 128 ≤ c.toNat := by
  cases v with
  | nil => exact absurd rfl hv.ne_nil
  | cons c v =>
    have hc := hv.toNat_lt List.mem_cons_self
    have hvalue : (Char.ofNat (c.toNat + 128)).toNat = c.toNat + 128 := by
      have hvalid : (c.toNat + 128).isValidChar := .inl (by omega)
      rw [Char.ofNat, dif_pos hvalid]
      rfl
    refine ⟨_, rfl, ?_⟩
    rw [Nat.mod_eq_of_lt (by omega), hvalue]
    omega

lemma patched_ne (hv : LegalName v) : patched v ≠ v := by
  obtain ⟨c, hc, hbig⟩ := exists_patched hv
  intro h
  rw [hc] at h
  have hsmall := hv.toNat_lt (h ▸ List.mem_cons_self)
  omega

lemma length_patched (hv : LegalName v) : (patched v).length = v.length := by
  cases v with
  | nil => rfl
  | cons c v => rfl

lemma not_mem_patched (hv : LegalName v) {d : Char} (hd : d.toNat < 128) (hnot : d ∉ v) : d ∉ patched v := by
  obtain ⟨c, hc, hbig⟩ := exists_patched hv
  rw [hc, List.mem_cons]
  rintro (rfl | hmem)
  · omega
  · exact hnot (List.mem_of_mem_tail hmem)

lemma mem_optionKeys_of_isKey (h : isKey t = true) : t ∈ optionKeys := by
  simp only [isKey, isOption, Bool.or_eq_true, decide_eq_true_eq] at h
  rcases h with (h | rfl) | rfl
  · exact List.mem_append_left ["start".toList, "end".toList] h
  · decide
  · decide

lemma isKey_patched (hv : LegalName v) : isKey (patched v) = false := by
  have hheads : ∀ key ∈ optionKeys, (key.head?.all fun c => c.toNat < 128) = true := by decide
  obtain ⟨c, hc, hbig⟩ := exists_patched hv
  rw [Bool.eq_false_iff]
  intro hkey
  have hsmall := hheads _ (mem_optionKeys_of_isKey hkey)
  rw [hc, List.head?_cons, Option.all_some, decide_eq_true_eq] at hsmall
  omega

lemma renamed_cases (h : renamed v ≠ v) : renamed v ∈ ["legend".toList, "color".toList, "color2".toList] := by
  unfold renamed at h ⊢
  split_ifs at h ⊢
  · exact .head _
  · exact .tail _ (.head _)
  · exact .tail _ (.tail _ (.head _))
  · exact absurd rfl h

/-- The name that the first attempt defines. -/
@[grind] def firstName (v D : Text) : Option Text :=
  if v = "cmd".toList ∨ v = "pos0".toList then some "pos0".toList
  else if v = "ds".toList ∨ v = "cf".toList then some (wordOf 1 D).1
  else if isKey v then none
  else some v

/-- The function of the first attempt. -/
@[grind] def firstCf (v R C : Text) : Text := if v = "cf".toList then R else C

/-- A name that the first attempt defines and that has to be another one. -/
def taken : List Text := ["ds".toList, "cf".toList, "cmd".toList]

lemma firstName_short (hv : LegalName v) {name : Text} (h : firstName v D = some name) : name.length ≤ 255 ∧ '#' ∉ name := by
  have hwords : ∀ key ∈ wordKeys, key.length ≤ 255 ∧ '#' ∉ key := by decide
  unfold firstName at h
  split_ifs at h
  · cases h
    decide
  · cases h
    exact hwords _ (wordOf_mem (.inl rfl) D)
  · cases h
    exact ⟨hv.length, hv.not_mem (by decide)⟩

/-- The first attempt defines the name itself, but for three names. -/
lemma firstName_eq_iff {name : Text} (h : firstName v D = some name) : name = v ↔ v ∉ taken := by
  have hwords : ∀ key ∈ wordKeys, key ∉ taken := by decide
  unfold firstName at h
  split_ifs at h with hcommand hpart hkey
  · cases h
    rcases hcommand with rfl | rfl
    all_goals decide
  · cases h
    have hmem : v ∈ taken := by
      rcases hpart with rfl | rfl
      all_goals decide
    exact iff_of_false (fun heq => hwords _ (wordOf_mem (.inl rfl) D) (heq ▸ hmem)) fun hnot => hnot hmem
  · cases h
    refine iff_of_true rfl ?_
    simp only [taken, List.mem_cons, List.not_mem_nil, or_false]
    tauto

end Names

/-! ### The first attempt -/

section First

variable {Tv : Type} {clock : Clock Tv} {im : Graph} {x : Four} {v R D C : Text} {n : ℕ} {times : ℤ × ℤ}

/-- The flags of the arguments by the time that `parse_def` gets them. -/
@[grind] def Flagged (x : Four) (v R : Text) : Prop :=
  if v = "cmd".toList ∨ v = "pos0".toList then x.Flags 0 255 ∧ R = "DEF".toList else x.Flags 255 0

/-- What the parts of the first attempt say. -/
structure Says (x : Four) (v R D C : Text) (name : Text) (parts : Str × Str × Str × Str) : Prop where
  name : parts.1.text x.arg = name
  cf : rrdCfConv (parts.2.2.2.text x.arg) = rrdCfConv (firstCf v R C)
  rrd : v ∉ taken → parts.2.1.text x.arg = R
  ds : v ∉ taken → parts.2.2.1.text x.arg = (wordOf 1 D).2

lemma partsWith_first (h : x.Reads v R (wordOf 1 D) (wordOf n C)) (hflagged : Flagged x v R) :
    match firstName v D with
    | none => partsWith x v = none
    | some name => ∃ parts, partsWith x v = some parts ∧ Says x v R D C name parts := by
  have hkey₂ : x.k₂.key.text x.arg = (wordOf 1 D).1 := congrArg (Str.text x.arg) h.key₂
  have hcf : rrdCfConv (x.k₃.value.text x.arg) = rrdCfConv C := by rw [h.value₃, rrdCfConv_wordOf]
  unfold Flagged at hflagged
  unfold firstName
  by_cases hcommand : v = "cmd".toList ∨ v = "pos0".toList
  · rw [if_pos hcommand] at hflagged ⊢
    have hkey : isKey v = false := by
      rcases hcommand with rfl | rfl
      all_goals decide
    have hnot : v ≠ "cf".toList := by
      rcases hcommand with rfl | rfl
      all_goals decide
    refine ⟨_, partsWith_command hflagged.1 hkey, congrArg (Str.text x.arg) h.key₀, ?_, fun _ => ?_, fun _ => h.value₂⟩
    · rw [firstCf, if_neg hnot]
      exact hcf
    · rw [hflagged.2]
      exact h.value₀
  · rw [if_neg hcommand] at hflagged ⊢
    by_cases hkey : isKey v
    · have hparts := partsWith_isKey hflagged hkey
      by_cases hds : v = "ds".toList
      · have hnot : v ≠ "cf".toList := by
          rw [hds]
          decide
        have htaken : v ∈ taken := by
          rw [hds]
          decide
        rw [if_pos hds] at hparts
        rw [if_pos (.inl hds)]
        refine ⟨_, hparts, hkey₂, ?_, fun h => absurd htaken h, fun h => absurd htaken h⟩
        rw [firstCf, if_neg hnot]
        exact hcf
      · rw [if_neg hds] at hparts
        by_cases hcf' : v = "cf".toList
        · have htaken : v ∈ taken := by
            rw [hcf']
            decide
          rw [if_pos hcf'] at hparts
          rw [if_pos (.inr hcf')]
          refine ⟨_, hparts, hkey₂, ?_, fun h => absurd htaken h, fun h => absurd htaken h⟩
          rw [firstCf, if_pos hcf']
          exact congrArg rrdCfConv h.value₁
        · rw [if_neg hcf'] at hparts
          rw [if_neg (not_or_intro hds hcf'), if_pos hkey]
          exact hparts
    · have hplain : isKey v = false := Bool.eq_false_iff.2 hkey
      have hoption := isOption_of_isKey hplain
      have hds : v ≠ "ds".toList := ne_of_isOption hoption (by decide)
      have hcf' : v ≠ "cf".toList := ne_of_isOption hoption (by decide)
      rw [if_neg (not_or_intro hds hcf'), if_neg hkey]
      refine ⟨_, partsWith_plain hflagged hplain, h.key₁, ?_, fun _ => h.value₁, fun _ => h.value₂⟩
      rw [firstCf, if_neg hcf']
      exact hcf

/-- The first attempt is accepted: the value of an option, the times, the name and the function. -/
def Accepted (clock : Clock Tv) (im : Graph) (v R D C : Text) : Prop :=
  timesWith clock v R (im.start, im.endTime) ≠ none ∧
    (∃ name, firstName v D = some name ∧ im.findVar name = none) ∧ rrdCfConv (firstCf v R C) ≠ none

/-- The second attempt is accepted, with the times of the first one where these were in order. -/
def AcceptedAgain (clock : Clock Tv) (im : Graph) (v R C : Text) : Prop :=
  window clock none none ((timesWith clock v R (im.start, im.endTime)).getD (im.start, im.endTime)) ≠ none ∧
    im.findVar (patched v) = none ∧ rrdCfConv C ≠ none

/-- The first attempt succeeds if it is accepted. -/
lemma attempted_first (h : x.Reads v R (wordOf 1 D) (wordOf n C)) (hflagged : Flagged x v R) :
    match attempted clock im.findVar x v R (im.start, im.endTime) with
    | none => ¬ Accepted clock im v R D C
    | some parts => Accepted clock im v R D C ∧ ∃ name, firstName v D = some name ∧ Says x v R D C name parts := by
  have hfirst := partsWith_first h hflagged
  cases hattempted : attempted clock im.findVar x v R (im.start, im.endTime) with
  | none =>
    rintro ⟨htimes, ⟨name, hname, hfree⟩, hcf⟩
    rw [hname] at hfirst
    obtain ⟨parts, hparts, hsaid⟩ := hfirst
    have hassign : Assignable im.findVar x.arg parts := ⟨by rw [hsaid.name, hfree], by rw [hsaid.cf]; exact hcf⟩
    rw [attempted_eq_some.2 ⟨htimes, hparts, hassign⟩] at hattempted
    cases hattempted
  | some parts =>
    obtain ⟨htimes, hparts, hfree, hcf⟩ := attempted_eq_some.1 hattempted
    cases hname : firstName v D with
    | none =>
      rw [hname] at hfirst
      rw [hfirst] at hparts
      cases hparts
    | some name =>
      rw [hname] at hfirst
      obtain ⟨parts', hparts', hsaid⟩ := hfirst
      rw [hparts] at hparts'
      cases hparts'
      rw [hsaid.name] at hfree
      rw [hsaid.cf] at hcf
      exact ⟨⟨htimes, ⟨name, hname, hfree⟩, hcf⟩, name, rfl, hsaid⟩

/-- The name of the second attempt is none of the keys. -/
lemma timesWith_of_not_isKey {t : Text} (h : isKey t = false) : timesWith clock t R times = window clock none none times := by
  have hoption := isOption_of_isKey h
  have hnot : ¬ Refused t R := by
    rintro (⟨rfl, -⟩ | ⟨rfl, -⟩ | ⟨rfl, -⟩)
    all_goals exact absurd hoption (by decide)
  have hne : ∀ key : String, isKey key.toList = true → textGiven t R key = none := by
    intro key hkey
    refine textGiven_of_ne ?_
    rintro rfl
    rw [h] at hkey
    cases hkey
  rw [timesWith, if_neg hnot, hne "start" (by decide), hne "end" (by decide)]

/-- The second attempt succeeds if it is accepted, with the other name. -/
lemma attempted_again (hv : LegalName v) (h : x.Reads (patched v) R (wordOf 1 D) (wordOf n C)) (hflags : x.Flags 255 0) :
    match attempted clock im.findVar x (patched v) R
      ((timesWith clock v R (im.start, im.endTime)).getD (im.start, im.endTime)) with
    | none => ¬ AcceptedAgain clock im v R C
    | some parts => AcceptedAgain clock im v R C ∧ parts.1.text x.arg = patched v := by
  have hparts := partsWith_plain hflags (isKey_patched hv)
  have hcf : rrdCfConv (x.k₃.value.text x.arg) = rrdCfConv C := by rw [h.value₃, rrdCfConv_wordOf]
  have htimes := @timesWith_of_not_isKey Tv clock R
    ((timesWith clock v R (im.start, im.endTime)).getD (im.start, im.endTime)) _ (isKey_patched hv)
  cases hattempted : attempted clock im.findVar x (patched v) R
      ((timesWith clock v R (im.start, im.endTime)).getD (im.start, im.endTime)) with
  | none =>
    rintro ⟨hwindow, hfree, hfunction⟩
    have hassign : Assignable im.findVar x.arg (x.k₁.key, x.k₁.value, x.k₂.value, x.k₃.value) :=
      ⟨by rw [h.key₁, hfree], by rw [hcf]; exact hfunction⟩
    rw [attempted_eq_some.2 ⟨by rw [htimes]; exact hwindow, hparts, hassign⟩] at hattempted
    cases hattempted
  | some parts =>
    obtain ⟨hwindow, hparts', hfree, hfunction⟩ := attempted_eq_some.1 hattempted
    rw [hparts] at hparts'
    cases hparts'
    rw [htimes] at hwindow
    rw [h.key₁] at hfree
    rw [hcf] at hfunction
    exact ⟨⟨hwindow, hfree, hfunction⟩, h.key₁⟩

/-- An error, or the variable that is meant: it is found by its name, and has its file, its data source and its function. -/
def Answers (im : Graph) (v R D C : Text) : Except Fault Graph → Prop
  | .error (.error _) => True
  | .error .crash => False
  | .ok im' => im'.findVar v = some im.gdes.length ∧ ∃ gdp cf, im'.gdes[im.gdes.length]? = some gdp ∧
      gdp.vname = v ∧ gdp.rrd = R ∧ gdp.dsNam = D ∧ gdp.cf = some cf ∧ rrdCfConv C = some cf

/-- The file and the data source are kept as they are. -/
structure Fits (R D : Text) : Prop where
  rrd : R.length ≤ 1023
  ds : D.length ≤ 19
  word : keyword 1 D = none

/-- No synonym; what the first attempt accepts is none of three names and is kept as it is, and what it does not accept is
not accepted under another name. -/
structure Meant (clock : Clock Tv) (im : Graph) (v R D C : Text) : Prop where
  synonym : renamed v = v
  first : Accepted clock im v R D C → v ∉ taken ∧ Fits R D
  again : ¬ Accepted clock im v R D C → AcceptedAgain clock im v R C → v = "cmd".toList ∨ v = "pos0".toList

lemma answers_defines {arg : Text} {parts : Str × Str × Str × Str} {r : Except Fault Graph} (h : Defines im arg parts r)
    (hcf : rrdCfConv (parts.2.2.2.text arg) ≠ none) :
    Answers im v R D C r ↔ (parts.1.text arg).take 255 = v ∧ (parts.2.1.text arg).take 1023 = R ∧
      (parts.2.2.1.text arg).take 19 = D ∧ rrdCfConv (parts.2.2.2.text arg) = rrdCfConv C := by
  obtain ⟨gdp, hdescribes, rfl⟩ := h
  have hget : (im.add gdp).gdes[im.gdes.length]? = some (if gdp.step = 0 then { gdp with step := im.step } else gdp) := by
    rw [Graph.add]
    exact List.getElem?_concat_length
  have hfields : ∀ gdp' : GraphDesc, gdp' = (if gdp.step = 0 then { gdp with step := im.step } else gdp) →
      gdp'.vname = gdp.vname ∧ gdp'.rrd = gdp.rrd ∧ gdp'.dsNam = gdp.dsNam ∧ gdp'.cf = gdp.cf := by
    rintro gdp' rfl
    split
    all_goals exact ⟨rfl, rfl, rfl, rfl⟩
  rw [← hdescribes.vname, ← hdescribes.rrd, ← hdescribes.dsNam, ← hdescribes.cf]
  rw [← hdescribes.cf] at hcf
  constructor
  · rintro ⟨-, gdp', cf, hgdp, hvname, hrrd, hds, hfunction, hconv⟩
    rw [hget] at hgdp
    obtain ⟨h₁, h₂, h₃, h₄⟩ := hfields gdp' (Option.some.inj hgdp).symm
    exact ⟨h₁ ▸ hvname, h₂ ▸ hrrd, h₃ ▸ hds, by rw [← h₄, hfunction, hconv]⟩
  · rintro ⟨rfl, rfl, rfl, hfunction⟩
    obtain ⟨cf, hconv⟩ := Option.ne_none_iff_exists'.1 hcf
    obtain ⟨h₁, h₂, h₃, h₄⟩ := hfields _ rfl
    refine ⟨?_, _, cf, hget, h₁, h₂, h₃, h₄.trans hconv, hfunction.symm.trans hconv⟩
    rw [Graph.findVar, Graph.add]
    exact Function.update_self _ _ _

/-- A keyword is no data source, as its value is another text. -/
lemma fits_iff : R.take 1023 = R ∧ (wordOf 1 D).2.take 19 = D ↔ Fits R D := by
  have hkeywords : ∀ word ∈ keywords, word.2.2.take 19 ≠ word.1 := by decide
  constructor
  · rintro ⟨hR, hD⟩
    have hword : keyword 1 D = none := by
      cases hword : keyword 1 D with
      | none => rfl
      | some word =>
        unfold wordOf at hD
        rw [hword] at hD
        obtain ⟨found, hfind, rfl⟩ := Option.map_eq_some_iff.1 hword
        have hname : found.1 = D := by simpa using List.find?_some hfind
        exact absurd (hD.trans hname.symm) (hkeywords found (List.mem_of_find?_eq_some hfind))
    unfold wordOf at hD
    rw [hword] at hD
    exact ⟨(List.take_eq_self_iff _).1 hR, (List.take_eq_self_iff _).1 hD, hword⟩
  · rintro ⟨hR, hD, hword⟩
    unfold wordOf
    rw [hword]
    exact ⟨List.take_of_length_le hR, List.take_of_length_le hD⟩

/-- What the first attempt defines is what is meant, but for three names and for what is too long. -/
lemma answers_first (hv : LegalName v) {parts : Str × Str × Str × Str} {name : Text} {r : Except Fault Graph}
    (h : Defines im x.arg parts r) (haccepted : Accepted clock im v R D C) (hname : firstName v D = some name)
    (hsaid : Says x v R D C name parts) : Answers im v R D C r ↔ v ∉ taken ∧ Fits R D := by
  have hshort := (firstName_short hv hname).1
  have hcf : rrdCfConv (parts.2.2.2.text x.arg) ≠ none := by
    rw [hsaid.cf]
    exact haccepted.2.2
  rw [answers_defines h hcf, hsaid.name, List.take_of_length_le hshort, firstName_eq_iff hname, ← fits_iff]
  constructor
  · rintro ⟨hnot, hrrd, hds, -⟩
    rw [hsaid.rrd hnot] at hrrd
    rw [hsaid.ds hnot] at hds
    exact ⟨hnot, hrrd, hds⟩
  · rintro ⟨hnot, hrrd, hds⟩
    have hne : v ≠ "cf".toList := by
      rintro rfl
      exact hnot (by decide)
    rw [hsaid.rrd hnot, hsaid.ds hnot, hsaid.cf, firstCf, if_neg hne]
    exact ⟨hnot, hrrd, hds, rfl⟩

/-- A synonym is defined under the name that it stands for, or its place is one of the program's own strings. -/
lemma not_answers_synonym (h : x.Reads (renamed v) R (wordOf 1 D) (wordOf n C)) (hflags : x.Flags 255 0)
    (hkey : x.k₁.key = .literal (renamed v)) (hne : renamed v ≠ v) :
    ¬ Answers im v R D C (parseDef clock im ⟨x.arg, x.orig, x.kvs false⟩) := by
  have hnames : ∀ name ∈ ["legend".toList, "color".toList, "color2".toList],
      isKey name = false ∧ name ∉ poskeys ∧ '#' ∉ name ∧ name.length ≤ 255 := by decide
  obtain ⟨hplain, hposkey, hcolor, hlength⟩ := hnames _ (renamed_cases hne)
  have hparts := partsWith_plain hflags hplain
  have hcolors : ∀ parts, partsWith x (renamed v) = some parts → '#' ∉ parts.1.text x.arg := by
    intro parts h'
    rw [hparts] at h'
    cases h'
    rw [h.key₁]
    exact hcolor
  have hfirst := @parseDef_first Tv clock im x _ R _ _ h hcolors
  cases hattempted : attempted clock im.findVar x (renamed v) R (im.start, im.endTime) with
  | none =>
    rw [parseDef_literal h hflags hcolors hkey hposkey hattempted]
    exact id
  | some parts =>
    rw [hattempted] at hfirst
    obtain ⟨-, hparts', -, hcf⟩ := attempted_eq_some.1 hattempted
    rw [hparts] at hparts'
    cases hparts'
    rw [answers_defines hfirst hcf, h.key₁, List.take_of_length_le hlength]
    exact fun h' => hne h'.1

/-- Any other name. -/
lemma answers_iff_meant (hv : LegalName v) (h : x.Reads v R (wordOf 1 D) (wordOf n C)) (hflagged : Flagged x v R)
    (hkey : x.k₁.key = .place 4) {y : Four} (hy : y = { x with arg := patchKey x.arg 4 })
    (hagain : y.Reads (patched v) R (wordOf 1 D) (wordOf n C)) (hsynonym : renamed v = v) :
    Answers im v R D C (parseDef clock im ⟨x.arg, x.orig, x.kvs false⟩) ↔ Meant clock im v R D C := by
  have hfirst := partsWith_first h hflagged
  have hcolors : ∀ parts, partsWith x v = some parts → '#' ∉ parts.1.text x.arg := by
    intro parts hparts
    cases hname : firstName v D with
    | none =>
      rw [hname] at hfirst
      rw [hfirst] at hparts
      cases hparts
    | some name =>
      rw [hname] at hfirst
      obtain ⟨parts', hparts', hsaid⟩ := hfirst
      rw [hparts] at hparts'
      cases hparts'
      rw [hsaid.name]
      exact (firstName_short hv hname).2
  have hends := @parseDef_first Tv clock im x _ R _ _ h hcolors
  have haccepted := @attempted_first Tv clock im x v R D C n h hflagged
  cases hattempted : attempted clock im.findVar x v R (im.start, im.endTime) with
  | some parts =>
    rw [hattempted] at hends haccepted
    obtain ⟨haccepted, name, hname, hsaid⟩ := haccepted
    rw [answers_first hv hends haccepted hname hsaid]
    exact ⟨fun h => ⟨hsynonym, fun _ => h, fun hnot => absurd haccepted hnot⟩, fun h => h.first haccepted⟩
  | none =>
    rw [hattempted] at haccepted
    have hmeant : Meant clock im v R D C ↔ (AcceptedAgain clock im v R C → v = "cmd".toList ∨ v = "pos0".toList) :=
      ⟨fun h => h.again haccepted, fun h => ⟨hsynonym, fun h' => absurd h' haccepted, fun _ => h⟩⟩
    rw [hmeant]
    unfold Flagged at hflagged
    by_cases hcommand : v = "cmd".toList ∨ v = "pos0".toList
    · rw [if_pos hcommand] at hflagged
      obtain ⟨message, herror⟩ := parseDef_command h hflagged.1 hcolors hattempted
      rw [herror]
      exact iff_of_true trivial fun _ => hcommand
    · rw [if_neg hcommand] at hflagged
      have hflags : y.Flags 255 0 := by
        rw [hy]
        exact ⟨hflagged.flag₀, hflagged.flag₁, hflagged.flag₂, hflagged.flag₃⟩
      have hcolors' : ∀ parts, partsWith y (patched v) = some parts → '#' ∉ parts.1.text y.arg := by
        intro parts hparts
        rw [partsWith_plain hflags (isKey_patched hv)] at hparts
        cases hparts
        rw [hagain.key₁]
        exact not_mem_patched hv (by decide) (hv.not_mem (by decide))
      have hsecond := parseDef_again h hflagged hcolors hkey hattempted hy hagain hcolors'
      have haccepted' := @attempted_again Tv clock im y v R D C n hv hagain hflags
      cases hattempted' : attempted clock im.findVar y (patched v) R
          ((timesWith clock v R (im.start, im.endTime)).getD (im.start, im.endTime)) with
      | none =>
        rw [hattempted'] at hsecond haccepted'
        obtain ⟨message, herror⟩ := hsecond
        rw [herror]
        exact iff_of_true trivial fun h => absurd h haccepted'
      | some parts =>
        rw [hattempted'] at hsecond haccepted'
        obtain ⟨haccepted', hname⟩ := haccepted'
        have hcf := (attempted_eq_some.1 hattempted').2.2.2
        have hlength : (patched v).length ≤ 255 := (length_patched hv).trans_le hv.length
        rw [answers_defines hsecond hcf, hname, List.take_of_length_le hlength]
        exact iff_of_false (fun h => patched_ne hv h.1) fun h => hcommand (h haccepted')

/-- The flags do not matter for what is read. -/
lemma Four.Reads.flagged {t : Text} {ds cf : Text × Text} (h : x.Reads t R ds cf) (f₀ f₁ : ℤ) :
    Four.Reads { x with k₀ := { x.k₀ with flag := f₀ }, k₁ := { x.k₁ with flag := f₁ } } t R ds cf :=
  ⟨h.key₀, h.value₀, h.key₁, h.value₁, h.key₂, h.value₂, h.key₃, h.value₃, h.noOption⟩

/-- The arguments that `parse_def` gets, and what is read there with another name in the copy. -/
lemma exists_flagged (hv : LegalName v) (hR : Arguments.Readable R) (hD : Word D) (hC : Word C) {pa pa' : ParsedArgs}
    (hparse : parseArguments (Arguments.joined (fields v R D C)) = .ok pa) (hcommand : command pa = some ("DEF".toList, pa')) :
    ∃ (x : Four) (n : ℕ), pa' = ⟨x.arg, x.orig, x.kvs false⟩ ∧ x.arg = copyOf v R D C ∧ Flagged x (renamed v) R ∧
      x.k₁.key = (if renamed v = v then .place 4 else .literal (renamed v)) ∧
      ∀ v', v'.length = v.length → '\x00' ∉ v' →
        Four.Reads { x with arg := copyOf v' R D C } (x.k₁.key.text (copyOf v' R D C)) R (wordOf 1 D) (wordOf n C) := by
  obtain ⟨⟨arg, orig, k₀, k₁, k₂, k₃⟩, n, hx, hparse'⟩ := exists_four hv hR hD hC
  rw [hparse] at hparse'
  cases hparse'
  obtain rfl : arg = copyOf v R D C := hx.arg
  have hname : k₁.key.text (copyOf v R D C) = renamed v := by
    rw [show k₁.key = _ from hx.name]
    split
    · rename_i hsame
      rw [hsame]
      exact (stringAt_copyOf (hv.not_mem (by decide)) hR.nul hD.nul hC.nul).2.1
    · rfl
  have hreads := hx.reads v rfl (hv.not_mem (by decide))
  dsimp only at hreads
  rw [hname] at hreads
  rw [command_four hx hreads] at hcommand
  have hflags := hx.flags
  by_cases hname : renamed v = "cmd".toList ∨ renamed v = "pos0".toList
  · rw [if_pos hname] at hcommand
    obtain ⟨hfile, rfl⟩ := Prod.mk.inj (Option.some.inj hcommand)
    refine ⟨⟨copyOf v R D C, orig, k₀, { k₁ with flag := 255 }, k₂, k₃⟩, n, rfl, rfl, ?_, hx.name,
      fun v' hlength hnul => (hx.reads v' hlength hnul).flagged k₀.flag 255⟩
    rw [Flagged, if_pos hname]
    exact ⟨⟨hflags.flag₀, rfl, hflags.flag₂, hflags.flag₃⟩, hfile⟩
  · rw [if_neg hname] at hcommand
    obtain ⟨-, rfl⟩ := Prod.mk.inj (Option.some.inj hcommand)
    refine ⟨⟨copyOf v R D C, orig, { k₀ with flag := 255 }, k₁, k₂, k₃⟩, n, rfl, rfl, ?_, hx.name,
      fun v' hlength hnul => (hx.reads v' hlength hnul).flagged 255 k₁.flag⟩
    rw [Flagged, if_neg hname]
    exact ⟨rfl, hflags.flag₁, hflags.flag₂, hflags.flag₃⟩

/-- What comes of the argument `DEF:vname=rrd:ds:CF`, if its command is `DEF`. -/
def scriptDef (clock : Clock Tv) (im : Graph) (v R D C : Text) : Option (Except Fault Graph) :=
  (parseArguments (Arguments.joined (fields v R D C))).toOption.bind fun pa =>
    (command pa).bind fun (cmd, pa) => if cmd = "DEF".toList then some (parseDef clock im pa) else none

lemma scriptDef_eq_some {r : Except Fault Graph} : scriptDef clock im v R D C = some r ↔
    ∃ pa pa', parseArguments (Arguments.joined (fields v R D C)) = .ok pa ∧ command pa = some ("DEF".toList, pa') ∧
      parseDef clock im pa' = r := by
  unfold scriptDef
  cases parseArguments (Arguments.joined (fields v R D C)) with
  | error e => simp [Except.toOption]
  | ok pa =>
    cases hcommand : command pa with
    | none => simp [Except.toOption, hcommand]
    | some found =>
      obtain ⟨cmd, pa'⟩ := found
      by_cases hdef : cmd = "DEF".toList
      · simp [Except.toOption, hcommand, hdef]
      · simp [Except.toOption, hcommand]

/-- `DEF:vname=rrd:ds:CF` ends with an error or with the variable that is meant just where the name is no synonym, where what
is accepted at first is not one of three names and fits, and where what is refused at first is refused again. -/
theorem parseDef_answers_iff {clock : Clock Tv} {im : Graph} {r : Except Fault Graph} (hv : LegalName v) (hR : Arguments.Readable R)
    (hD : Word D) (hC : Word C) (hscript : scriptDef clock im v R D C = some r) :
    Answers im v R D C r ↔ Meant clock im v R D C := by
  obtain ⟨pa, pa', hparse, hcommand, rfl⟩ := scriptDef_eq_some.1 hscript
  obtain ⟨x, n, rfl, harg, hflagged, hkey, hreads⟩ := exists_flagged hv hR hD hC hparse hcommand
  have hx : { x with arg := copyOf v R D C } = x := by
    rw [← harg]
  have h := hreads v rfl (hv.not_mem (by decide))
  rw [hx] at h
  by_cases hsynonym : renamed v = v
  · rw [if_pos hsynonym] at hkey
    rw [hsynonym] at hflagged
    have hplaces : ∀ v', '\x00' ∉ v' → x.k₁.key.text (copyOf v' R D C) = v' := by
      intro v' hnul
      rw [hkey]
      exact (stringAt_copyOf hnul hR.nul hD.nul hC.nul).2.1
    have hnul : '\x00' ∉ patched v := not_mem_patched hv (by decide) (hv.not_mem (by decide))
    have hagain := hreads (patched v) (length_patched hv) hnul
    rw [hplaces _ (hv.not_mem (by decide))] at h
    rw [hplaces _ hnul] at hagain
    exact answers_iff_meant hv h hflagged hkey (by rw [harg, patchKey_copyOf hv]) hagain hsynonym
  · rw [if_neg hsynonym] at hkey
    rw [hkey] at h
    have hnames : ∀ name ∈ ["legend".toList, "color".toList, "color2".toList], ¬ (name = "cmd".toList ∨ name = "pos0".toList) := by
      decide
    unfold Flagged at hflagged
    rw [if_neg (hnames _ (renamed_cases hsynonym))] at hflagged
    exact iff_of_false (not_answers_synonym h hflagged hkey hsynonym) fun h => hsynonym h.synonym

/-- A clock that knows only the times of a graph. -/
def plainClock : Clock ℤ where
  absolute := id
  parsetime _ _ := .error "unparsable time".toList
  procStartEnd start endTime := .ok (start, endTime)

/-- A graph of an hour, without any descriptions. -/
def hourGraph : Graph where
  step := 300
  start := 1000000000
  endTime := 1000003600
  gdes := []
  gdefMap _ := none
  rrdMap _ := none

/-- A name that is no key is defined. -/
theorem parseDef_answers_iff_temp :
    ∃ r, scriptDef plainClock hourGraph "temp".toList "a.rrd".toList "x".toList "AVERAGE".toList = some r ∧
      Answers hourGraph "temp".toList "a.rrd".toList "x".toList "AVERAGE".toList r := by
  obtain ⟨r, hr⟩ := Option.isSome_iff_exists.1 (show (scriptDef plainClock hourGraph "temp".toList "a.rrd".toList
    "x".toList "AVERAGE".toList).isSome = true by decide +kernel)
  have haccepted : Accepted plainClock hourGraph "temp".toList "a.rrd".toList "x".toList "AVERAGE".toList :=
    ⟨by decide, ⟨"temp".toList, by decide, rfl⟩, by decide⟩
  refine ⟨r, hr, (parseDef_answers_iff ⟨by decide, by decide, List.all_iff_forall_prop.1 (by decide)⟩ ⟨by decide, by decide⟩
    ⟨⟨by decide, by decide⟩, by decide⟩ ⟨⟨by decide, by decide⟩, by decide⟩ hr).2 ⟨by decide, fun _ => ⟨by decide, by decide, by decide, by decide⟩, ?_⟩⟩
  exact fun hnot => absurd haccepted hnot

/-- A file is no step, so that the name `step` becomes another one. -/
theorem parseDef_misses_step :
    ¬ ∀ (clock : Clock ℤ) (im : Graph) (v R D C : Text) (r : Except Fault Graph), LegalName v → Arguments.Readable R → Word D → Word C →
      scriptDef clock im v R D C = some r → Answers im v R D C r := by
  intro h
  obtain ⟨r, hr⟩ := Option.isSome_iff_exists.1 (show (scriptDef plainClock hourGraph "step".toList "a.rrd".toList
    "x".toList "AVERAGE".toList).isSome = true by decide +kernel)
  have hanswers := h plainClock hourGraph "step".toList "a.rrd".toList "x".toList "AVERAGE".toList r
    ⟨by decide, by decide, List.all_iff_forall_prop.1 (by decide)⟩ ⟨by decide, by decide⟩ ⟨⟨by decide, by decide⟩, by decide⟩
    ⟨⟨by decide, by decide⟩, by decide⟩ hr
  have hmissing : (scriptDef plainClock hourGraph "step".toList "a.rrd".toList "x".toList "AVERAGE".toList).map
      (fun r => r.toOption.map fun im => im.findVar "step".toList) = some (some none) := by decide +kernel
  rw [hr] at hmissing
  cases r with
  | error e => cases hmissing
  | ok im =>
    have hnone : im.findVar "step".toList = none := Option.some.inj (Option.some.inj hmissing)
    rw [Answers, hnone] at hanswers
    cases hanswers.1

end First

end Rrdtool.ParseDef
