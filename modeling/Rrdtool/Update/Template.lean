import Mathlib.Data.List.NodupEquivFin
import Mathlib.Data.List.TakeWhile
import Rrdtool.Create
import Rrdtool.Update.Parse

/-!
# Templates

Port of `parse_template` of `src/rrd_update.c` and of the mapping that an update through the daemon
uses instead: `rrd_get_file_template` and `rrd_map_template_to_values`, which rewrites the update
string for all data sources of the file.

`rrd_get_file_template` lists the `COMPUTE` data sources, which an update without a template leaves out,
and a name that is repeated is counted once only. `mapping_agrees_iff` says when the two ways agree.
-/

namespace Rrdtool

/-! ### The direct way -/

/-- `ds_match`. -/
def dsMatch (rrd : Rrd) (dsNam : Text) : Option ℕ := (rrd.ds.map (·.dsDef.dsNam)).findIdx? (· = dsNam)

/-- The ways a template is refused. -/
inductive TemplateError where
  | moreThanRrd
  | unknownDs (dsname : Text)
deriving DecidableEq

/-- The message left by `rrd_set_error`. -/
def TemplateError.message : TemplateError → String
  | .moreThanRrd => "tmplt contains more DS definitions than RRD"
  | .unknownDs dsname => "unknown DS name '" ++ String.ofList dsname ++ "'"

/-- The loop of `parse_template` over the names, with the entries of `tmpl_idx` behind the time. -/
def parseNames (rrd : Rrd) : List ℕ → List Text → Except TemplateError (List ℕ)
  | tmplIdx, [] => .ok tmplIdx
  | tmplIdx, dsname :: dsnames =>
    if rrd.dsCnt < tmplIdx.length + 1 then .error .moreThanRrd
    else match dsMatch rrd dsname with
      | none => .error (.unknownDs dsname)
      | some i => parseNames rrd (tmplIdx ++ [i]) dsnames

/-- `parse_template`. -/
def parseTemplate (rrd : Rrd) (tmplt : Text) : Except TemplateError (List ℕ) :=
  parseNames rrd [] (splitFields tmplt)

/-! ### The way through the daemon -/

/-- `rrd_get_file_template`. -/
def rrdGetFileTemplate (rrd : Rrd) : Text := joinFields (rrd.ds.map (·.dsDef.dsNam))

/-- `_count_fields`. -/
def countFields (field : Text) : ℕ := if field = [] then 0 else field.count ':' + 1

/-- The places behind the colons of a string. -/
@[grind] def behindColons : Text → List Text
  | [] => []
  | c :: s => if c = ':' then s :: behindColons s else behindColons s

/-- The places a pointer visits that is moved behind the next colon as long as there is one. -/
@[grind] def fieldStarts (s : Text) : List Text := s :: behindColons s

/-- The field at a place, up to the next colon. -/
@[grind] def fieldAt (s : Text) : Text := s.takeWhile (· ≠ ':')

/-- `_concat_field_n`. -/
@[grind] def concatFieldN (string value : Text) (field : ℕ) : Option Text :=
  (fieldStarts value)[field]?.map fun value => string ++ fieldAt value

/-- The field at `tpl` is the one at `field`. -/
def sameField (tpl field : Text) : Bool :=
  let len := (fieldAt field).length
  tpl.take len = field.take len && (tpl[len]? = none || tpl[len]? = some ':')

/-- `_concat_field`: the string and the number of fields found. -/
@[grind] def concatField (string tpl value field : Text) : Option (Text × ℕ) :=
  match (fieldStarts tpl).findIdx? fun tpl => sameField tpl field with
  | some fieldidx => (concatFieldN (string ++ [':']) value (fieldidx + 1)).map fun string => (string, 1)
  | none => some (string ++ [':', 'U'], 0)

/-- The loop of `rrd_map_template_to_values` over the fields of the file. -/
@[grind] def concatFields (tpl value : Text) : Text × ℕ → List Text → Option (Text × ℕ)
  | p, [] => some p
  | (mapped, fieldsCount), ptr :: ptrs => do
    let (mapped, ret) ← concatField mapped tpl value ptr
    concatFields tpl value (mapped, fieldsCount + ret) ptrs

/-- `rrd_map_template_to_values`. -/
@[grind] def rrdMapTemplateToValues (tpl fileTpl value : Text) : Option Text := do
  guard (countFields tpl + 1 = countFields value)
  guard (countFields tpl ≤ countFields fileTpl)
  let mapped ← concatFieldN [] value 0
  let (mapped, fieldsCount) ←
    concatFields tpl value (mapped, 0) ((fieldStarts fileTpl).take (countFields fileTpl))
  guard (fieldsCount = countFields tpl)
  some mapped

/-! ### Fields -/

lemma splitFields_cons_ne {c : Char} {s : Text} (h : c ≠ ':') :
    ∃ f fs, splitFields s = f :: fs ∧ splitFields (c :: s) = (c :: f) :: fs := by
  cases hs : splitFields s with
  | nil =>
    exfalso
    cases s with
    | nil => cases hs
    | cons d s =>
      rw [splitFields] at hs
      split at hs
      · cases hs
      · split at hs <;> cases hs
  | cons f fs => exact ⟨f, fs, rfl, by simp [splitFields, h, hs]⟩

/-- The fields are what stands at the places behind the colons. -/
lemma map_fieldStarts (s : Text) : (fieldStarts s).map fieldAt = splitFields s := by
  induction s with
  | nil => rfl
  | cons c s ih =>
    by_cases h : c = ':'
    · have hstarts : fieldStarts (c :: s) = (c :: s) :: fieldStarts s := by simp [fieldStarts, behindColons, h]
      rw [hstarts, List.map_cons, ih]
      simp [splitFields, fieldAt, h]
    · obtain ⟨f, fs, hs, hcs⟩ := splitFields_cons_ne (s := s) h
      rw [hs, fieldStarts, List.map_cons] at ih
      obtain ⟨hf, hfs⟩ := List.cons.inj ih
      rw [hcs, fieldStarts, behindColons, if_neg h, List.map_cons, hfs, ← hf]
      simp [fieldAt, h]

lemma countFields_eq {s : Text} (h : s ≠ []) : countFields s = (splitFields s).length := by
  have hlength : (fieldStarts s).length = s.count ':' + 1 := by
    clear h
    rw [fieldStarts, List.length_cons]
    congr 1
    induction s with
    | nil => rfl
    | cons c s ih =>
      by_cases hc : c = ':'
      · simp [behindColons, hc, ih]
      · simp [behindColons, hc, ih]
  rw [countFields, if_neg h, ← map_fieldStarts, List.length_map, hlength]

lemma splitFields_of_not_mem {f : Text} (h : ':' ∉ f) : splitFields f = [f] := by
  induction f with
  | nil => rfl
  | cons c f ih =>
    have hc : c ≠ ':' := fun heq => h (heq ▸ List.mem_cons_self)
    obtain ⟨g, gs, hf, hcf⟩ := splitFields_cons_ne (s := f) hc
    rw [ih fun hmem => h (List.mem_cons_of_mem c hmem)] at hf
    obtain ⟨rfl, rfl⟩ := List.cons.inj hf
    exact hcf

lemma splitFields_append_colon {f s : Text} (h : ':' ∉ f) :
    splitFields (f ++ ':' :: s) = f :: splitFields s := by
  induction f with
  | nil => simp [splitFields]
  | cons c f ih =>
    have hc : c ≠ ':' := fun heq => h (heq ▸ List.mem_cons_self)
    obtain ⟨g, gs, hf, hcf⟩ := splitFields_cons_ne (s := f ++ ':' :: s) hc
    rw [ih fun hmem => h (List.mem_cons_of_mem c hmem)] at hf
    obtain ⟨rfl, rfl⟩ := List.cons.inj hf
    exact hcf

/-- A string with its first field in front. -/
lemma joinFields_cons (f : Text) (fs : List Text) : joinFields (f :: fs) = f ++ fs.flatMap (':' :: ·) := by
  induction fs generalizing f with
  | nil => simp [joinFields]
  | cons g fs ih =>
    rw [joinFields, ih, List.flatMap_cons]
    · rfl
    · simp

/-- The fields of a string that was put together. -/
lemma splitFields_joinFields {f : Text} {fs : List Text} (h : ∀ g ∈ f :: fs, ':' ∉ g) :
    splitFields (joinFields (f :: fs)) = f :: fs := by
  rw [joinFields_cons]
  induction fs generalizing f with
  | nil =>
    rw [List.flatMap_nil, List.append_nil, splitFields_of_not_mem (h f List.mem_cons_self)]
  | cons g fs ih =>
    rw [List.flatMap_cons, List.cons_append, splitFields_append_colon (h f List.mem_cons_self),
      ih fun q hq => h q (List.mem_cons_of_mem f hq)]

/-! ### The mapped string -/

lemma not_colon_mem_fieldAt (s : Text) : ':' ∉ fieldAt s := fun hmem => by
  simpa using List.mem_takeWhile_imp hmem

lemma sameField_iff (tpl field : Text) : sameField tpl field = true ↔ fieldAt tpl = fieldAt field := by
  have hfield : field.take (fieldAt field).length = fieldAt field :=
    (List.prefix_iff_eq_take.1 (List.takeWhile_prefix _)).symm
  have hno := not_colon_mem_fieldAt field
  simp only [sameField, hfield, Bool.and_eq_true, Bool.or_eq_true, decide_eq_true_eq]
  generalize fieldAt field = name at hno ⊢
  constructor
  · rintro ⟨htake, hend⟩
    have hother : ∀ c ∈ name, (decide (c ≠ ':')) = true := fun c hc =>
      decide_eq_true fun heq => hno (heq ▸ hc)
    rw [← List.take_append_drop name.length tpl, htake, fieldAt, List.takeWhile_append_of_pos hother]
    cases hdrop : tpl.drop name.length with
    | nil => simp
    | cons c rest =>
      have hc : tpl[name.length]? = some c := by
        rw [← List.head?_drop, hdrop, List.head?_cons]
      have hcolon : c = ':' := by simpa [hc] using hend
      simp [hcolon]
  · rintro rfl
    have hsplit : fieldAt tpl ++ tpl.dropWhile (· ≠ ':') = tpl := List.takeWhile_append_dropWhile
    constructor
    · exact (List.prefix_iff_eq_take.1 (List.takeWhile_prefix _)).symm
    · have hbehind : ∀ a b : Text, (a ++ b)[a.length]? = b[0]? := by
        intro a b
        rw [List.getElem?_append_right le_rfl, Nat.sub_self]
      have hget : tpl[(fieldAt tpl).length]? = (tpl.dropWhile (· ≠ ':'))[0]? := by
        rw [← hbehind (fieldAt tpl), hsplit]
      rw [hget]
      cases hdrop : tpl.dropWhile (· ≠ ':') with
      | nil => simp
      | cons c rest =>
        have hc := List.head?_dropWhile_not (fun c => decide (c ≠ ':')) tpl
        rw [hdrop] at hc
        simpa using hc

/-- The field of the template that stands for a field of the file. -/
lemma findIdx?_sameField (tpl field : Text) : ((fieldStarts tpl).findIdx? fun tpl => sameField tpl field) =
    (splitFields tpl).findIdx? (· = fieldAt field) := by
  rw [← map_fieldStarts, List.findIdx?_map]
  congr 1
  funext p
  rw [Bool.eq_iff_iff, sameField_iff]
  simp

/-- The reading that a template gives to a name: the first value for it. -/
@[grind] def firstReading (names values : List Text) (x : Text) : Option Text := (names.zip values).lookup x

lemma lookup_zip (names values : List Text) (x : Text) :
    (names.zip values).lookup x = (names.findIdx? (· = x)).bind (values[·]?) := by
  induction names generalizing values with
  | nil => rfl
  | cons name names ih =>
    cases values with
    | nil => simp
    | cons value values =>
      rw [List.zip_cons_cons, List.lookup_cons, List.findIdx?_cons]
      by_cases h : name = x
      · simp [h]
      · rw [ih values]
        have hx : (x == name) = false := by simpa using Ne.symm h
        simp only [hx, h, decide_false]
        cases names.findIdx? (· = x) <;> simp

lemma concatFieldN_eq (string value : Text) (k : ℕ) :
    concatFieldN string value k = (splitFields value)[k]?.map (string ++ ·) := by
  rw [concatFieldN, ← map_fieldStarts, List.getElem?_map, Option.map_map]
  rfl

section Mapped

variable {tpl value time : Text} {values : List Text}

lemma concatField_eq (string field : Text) (hvalue : splitFields value = time :: values)
    (hcount : (splitFields tpl).length = values.length) :
    concatField string tpl value field =
      some (string ++ ':' :: (firstReading (splitFields tpl) values (fieldAt field)).getD ['U'],
        if fieldAt field ∈ splitFields tpl then 1 else 0) := by
  rw [concatField, findIdx?_sameField, firstReading, lookup_zip]
  cases hidx : (splitFields tpl).findIdx? (· = fieldAt field) with
  | none =>
    have hnot : fieldAt field ∉ splitFields tpl := by
      intro hmem
      have := List.findIdx?_eq_none_iff.1 hidx _ hmem
      simp at this
    simp [hnot]
  | some i =>
    obtain ⟨hlt, hi, -⟩ := List.findIdx?_eq_some_iff_getElem.1 hidx
    have hmem : fieldAt field ∈ splitFields tpl := by
      have := of_decide_eq_true hi
      exact this ▸ List.getElem_mem hlt
    have hget : values[i]? = some (values.get ⟨i, hcount ▸ hlt⟩) := List.getElem?_eq_getElem _
    rw [Option.bind_some, hget, if_pos hmem]
    simp only [concatFieldN_eq, hvalue, List.getElem?_cons_succ, hget, Option.map_some, Option.getD_some,
      List.append_assoc, List.singleton_append]

/-- The readings of the mapped string. -/
@[grind] def mappedReadings (names tmplt values : List Text) : List Text :=
  names.map fun x => (firstReading tmplt values x).getD ['U']

lemma concatFields_eq (p : Text × ℕ) (ptrs : List Text) (hvalue : splitFields value = time :: values)
    (hcount : (splitFields tpl).length = values.length) :
    concatFields tpl value p ptrs =
      some (p.1 ++ (mappedReadings (ptrs.map fieldAt) (splitFields tpl) values).flatMap (':' :: ·),
        p.2 + ((ptrs.map fieldAt).filter (· ∈ splitFields tpl)).length) := by
  induction ptrs generalizing p with
  | nil => simp [concatFields, mappedReadings]
  | cons ptr ptrs ih =>
    simp only [concatFields, concatField_eq p.1 ptr hvalue hcount, Option.bind_eq_bind, Option.bind_some, ih]
    congr 2
    · simp [mappedReadings]
    · by_cases hmem : fieldAt ptr ∈ splitFields tpl
      · rw [if_pos hmem, List.map_cons, List.filter_cons_of_pos (by simpa using hmem), List.length_cons]
        omega
      · rw [if_neg hmem, List.map_cons, List.filter_cons_of_neg (by simpa using hmem)]
        rfl

/-- The mapping succeeds when there is a value for each name of the template, and as many fields of the
file are named there. -/
lemma rrdMapTemplateToValues_eq {names : List Text} (hvalue : splitFields value = time :: values)
    (hvalues : values ≠ []) (htpl : tpl ≠ []) (hnames : names ≠ []) (hfile : joinFields names ≠ [])
    (hcolon : ∀ x ∈ names, ':' ∉ x) (hle : (splitFields tpl).length ≤ names.length) :
    rrdMapTemplateToValues tpl (joinFields names) value =
      if values.length = (splitFields tpl).length ∧
          (names.filter (· ∈ splitFields tpl)).length = (splitFields tpl).length then
        some (joinFields (time :: mappedReadings names (splitFields tpl) values))
      else none := by
  obtain ⟨name, names, rfl⟩ := List.exists_cons_of_ne_nil hnames
  have hsplit := splitFields_joinFields hcolon
  have hne : value ≠ [] := by
    rintro rfl
    obtain ⟨-, rfl⟩ := List.cons.inj hvalue
    exact hvalues rfl
  have hstarts : ((fieldStarts (joinFields (name :: names))).take (countFields (joinFields (name :: names)))).map
      fieldAt = name :: names := by
    rw [List.map_take, map_fieldStarts, countFields_eq hfile, List.take_length, hsplit]
  simp only [rrdMapTemplateToValues, countFields_eq htpl, countFields_eq hne, hvalue, concatFieldN_eq,
    List.getElem?_cons_zero, Option.map_some, List.nil_append, List.length_cons, Option.bind_eq_bind, guard]
  have hfileCount : (splitFields tpl).length ≤ countFields (joinFields (name :: names)) := by
    rw [countFields_eq hfile, hsplit]
    exact hle
  by_cases hcount : values.length = (splitFields tpl).length
  · rw [if_pos (by omega), if_pos hfileCount]
    simp only [concatFields_eq _ _ hvalue hcount.symm, hstarts, Option.pure_def, Option.bind_some, Nat.zero_add]
    by_cases hall : ((name :: names).filter (· ∈ splitFields tpl)).length = (splitFields tpl).length
    · rw [if_pos hall, if_pos ⟨hcount, hall⟩, joinFields_cons]
      rfl
    · rw [if_neg hall, if_neg fun h => hall h.2]
      rfl
  · have hno : ¬ (values.length = (splitFields tpl).length ∧
        ((name :: names).filter (· ∈ splitFields tpl)).length = (splitFields tpl).length) :=
      fun h => hcount h.1
    rw [if_neg (by omega), if_neg hno]
    rfl

end Mapped

/-! ### The readings -/

lemma foldl_set_length (ps : List (ℕ × Text)) (vs : List Text) :
    (ps.foldl (fun vs p => vs.set p.1 p.2) vs).length = vs.length := by
  induction ps generalizing vs with
  | nil => rfl
  | cons p ps ih => rw [List.foldl_cons, ih, List.length_set]

/-- The last value that is written to a place stays. -/
lemma getElem_foldl_set (ps : List (ℕ × Text)) (vs : List Text) (i : ℕ) (hi : i < vs.length) :
    (ps.foldl (fun vs p => vs.set p.1 p.2) vs)[i]? = some ((ps.reverse.lookup i).getD vs[i]) := by
  induction ps using List.reverseRecOn with
  | nil => simp
  | append_singleton ps p ih =>
    rw [List.foldl_append, List.foldl_cons, List.foldl_nil, List.getElem?_set, List.reverse_append]
    obtain ⟨j, v⟩ := p
    by_cases h : j = i
    · subst h
      rw [if_pos rfl, if_pos (by rw [foldl_set_length]; exact hi)]
      simp
    · rw [if_neg h, ih]
      have hne : (i == j) = false := by simpa using Ne.symm h
      simp [List.lookup_cons, hne]

lemma mem_joinFields {c : Char} {f : Text} {fs : List Text} (h : c ∈ joinFields (f :: fs)) :
    c = ':' ∨ ∃ g ∈ f :: fs, c ∈ g := by
  rw [joinFields_cons] at h
  obtain h | h := List.mem_append.1 h
  · exact .inr ⟨f, List.mem_cons_self, h⟩
  · obtain ⟨g, hg, h⟩ := List.mem_flatMap.1 h
    obtain rfl | h := List.mem_cons.1 h
    · exact .inl rfl
    · exact .inr ⟨g, List.mem_cons_of_mem f hg, h⟩

/-- What an update string of the form `time:value:...` is split into. -/
lemma parseDs_joinFields {dsCnt : ℕ} {tmpl : List ℕ} {time : Text} {values : List Text} (hvalues : values ≠ [])
    (hcolon : ∀ f ∈ time :: values, ':' ∉ f) (hat : ∀ f ∈ time :: values, '@' ∉ f) :
    parseDs dsCnt tmpl (joinFields (time :: values)) =
      if tmpl.length < values.length then .error (.extraData (joinFields (values.drop (max tmpl.length 1))))
      else if values.length < tmpl.length then .error (.readings tmpl.length values.length time)
      else .ok (false, time,
        (tmpl.zip values).foldl (fun vs p => vs.set p.1 p.2) (List.replicate dsCnt ['U'])) := by
  obtain ⟨value, values, rfl⟩ := List.exists_cons_of_ne_nil hvalues
  have hjoin : joinFields (time :: value :: values) = time ++ ':' :: joinFields (value :: values) := rfl
  have htime : ∀ c ∈ time, (decide (c ≠ ':')) = true := fun c hc =>
    decide_eq_true fun heq => hcolon time List.mem_cons_self (heq ▸ hc)
  have hno : (joinFields (time :: value :: values)).contains '@' = false := by
    refine Bool.eq_false_iff.2 fun h => ?_
    obtain heq | ⟨f, hf, hmem⟩ := mem_joinFields (List.contains_iff_mem.1 h)
    · cases heq
    · exact hat f hf hmem
  have htake : (joinFields (time :: value :: values)).takeWhile (· ≠ ':') = time := by
    rw [hjoin, List.takeWhile_append_of_pos htime]
    simp
  have hdrop : ((joinFields (time :: value :: values)).dropWhile (· ≠ ':')).tail = joinFields (value :: values) := by
    rw [hjoin, List.dropWhile_append_of_pos htime]
    simp
  have hcontains : (joinFields (time :: value :: values)).contains ':' = true := by
    rw [hjoin]
    simp
  simp only [parseDs, hno, Bool.false_eq_true, if_false, hcontains, Bool.not_true, htake, hdrop,
    splitFields_joinFields fun f hf => hcolon f (List.mem_cons_of_mem time hf)]

/-- The names of the data sources. -/
@[grind] def Rrd.dsNames (rrd : Rrd) : List Text := rrd.ds.map (·.dsDef.dsNam)

lemma parseNames_ok {rrd : Rrd} {acc tmpl : List ℕ} {names : List Text}
    (h : parseNames rrd acc names = .ok tmpl) :
    tmpl = acc ++ names.map (fun x => rrd.dsNames.findIdx (· = x)) ∧ (∀ x ∈ names, x ∈ rrd.dsNames) ∧
      (names ≠ [] → acc.length + names.length ≤ rrd.dsCnt) := by
  induction names generalizing acc with
  | nil =>
    obtain rfl := Except.ok.inj h
    exact ⟨by simp, fun x hx => absurd hx List.not_mem_nil, fun h => absurd rfl h⟩
  | cons name names ih =>
    rw [parseNames] at h
    split at h
    · cases h
    · rename_i hle
      split at h
      · cases h
      · rename_i i hi
        obtain ⟨rfl, hmem, hlength⟩ := ih h
        have hfound := List.findIdx?_eq_some_iff_findIdx_eq.1 hi
        have hname : name ∈ rrd.dsNames := by
          have hget := List.findIdx?_eq_some_iff_getElem.1 hi
          obtain ⟨hlt, heq, -⟩ := hget
          exact of_decide_eq_true heq ▸ List.getElem_mem hlt
        refine ⟨?_, ?_, ?_⟩
        · rw [List.map_cons, ← hfound.2, List.append_assoc]
          rfl
        · intro x hx
          obtain rfl | hx := List.mem_cons.1 hx
          · exact hname
          · exact hmem x hx
        · intro _
          cases names with
          | nil =>
            rw [List.length_singleton]
            omega
          | cons name' names =>
            have := hlength (List.cons_ne_nil name' names)
            rw [List.length_append, List.length_singleton] at this
            rw [List.length_cons]
            omega

/-- The last value that a template gives to a name. -/
@[grind] def lastReading (tmplt values : List Text) (x : Text) : Option Text := (tmplt.zip values).reverse.lookup x

lemma lookup_map_key {l : List (Text × Text)} {f : Text → ℕ} {i : ℕ} {x : Text}
    (h : ∀ p ∈ l, f p.1 = i ↔ p.1 = x) : (l.map (Prod.map f id)).lookup i = l.lookup x := by
  induction l with
  | nil => rfl
  | cons p l ih =>
    obtain ⟨y, v⟩ := p
    have hy := h (y, v) List.mem_cons_self
    have ih := ih fun q hq => h q (List.mem_cons_of_mem _ hq)
    rw [List.map_cons, Prod.map_apply, List.lookup_cons, List.lookup_cons, ih]
    have heq : (i == f y) = (x == y) := by
      rw [Bool.eq_iff_iff, beq_iff_eq, beq_iff_eq]
      exact ⟨fun h => (hy.1 h.symm).symm, fun h => (hy.2 h.symm).symm⟩
    rw [heq]
    rfl

section Readings

variable {names tmplt values : List Text}

lemma getElem_findIdx {x : Text} (hx : x ∈ names) :
    ∃ h : names.findIdx (· = x) < names.length, names[names.findIdx (· = x)] = x := by
  have hlt : names.findIdx (· = x) < names.length :=
    List.findIdx_lt_length.2 ⟨x, hx, by simp⟩
  exact ⟨hlt, of_decide_eq_true (List.findIdx_getElem (w := hlt))⟩

/-- The value that stays for a data source: the last one for its name, if it is the first of that name. -/
lemma lookup_templateIdx {i : ℕ} (hi : i < names.length) (hsub : ∀ x ∈ tmplt, x ∈ names) :
    ((tmplt.map fun x => names.findIdx (· = x)).zip values).reverse.lookup i =
      if names.findIdx (· = names[i]) = i then lastReading tmplt values names[i] else none := by
  have hpairs : (tmplt.map fun x => names.findIdx (· = x)).zip values =
      (tmplt.zip values).map (Prod.map (fun x => names.findIdx (· = x)) id) := List.zip_map_left ..
  have hkey : ∀ p ∈ (tmplt.zip values).reverse, names.findIdx (· = p.1) = i → p.1 = names[i] := by
    rintro ⟨x, v⟩ hp rfl
    exact (getElem_findIdx (hsub x (List.of_mem_zip (List.mem_reverse.1 hp)).1)).2.symm
  rw [hpairs, ← List.map_reverse]
  split
  · rename_i hfirst
    refine lookup_map_key fun p hp => ⟨hkey p hp, fun hx => ?_⟩
    rw [hx, hfirst]
  · rename_i hfirst
    rw [List.lookup_eq_none_iff]
    intro p hp
    obtain ⟨q, hq, rfl⟩ := List.mem_map.1 hp
    have hne : i ≠ names.findIdx (· = q.1) := by
      intro heq
      apply hfirst
      rw [← hkey q hq heq.symm, ← heq]
    simpa [Prod.map] using hne

/-- The readings with the template. -/
lemma templateReadings_getElem {i : ℕ} (hi : i < names.length) (hsub : ∀ x ∈ tmplt, x ∈ names) :
    (((tmplt.map fun x => names.findIdx (· = x)).zip values).foldl (fun vs p => vs.set p.1 p.2)
      (List.replicate names.length ['U']))[i]? =
      some ((if names.findIdx (· = names[i]) = i then lastReading tmplt values names[i] else none).getD ['U']) := by
  rw [getElem_foldl_set _ _ _ (by simpa using hi), lookup_templateIdx hi hsub, List.getElem_replicate]

lemma firstReading_isSome (hlength : tmplt.length = values.length) {x : Text} (hx : x ∈ tmplt) :
    ∃ v, firstReading tmplt values x = some v := by
  rw [← Option.isSome_iff_exists, firstReading, List.lookup_isSome_iff]
  obtain ⟨i, hi, rfl⟩ := List.getElem_of_mem hx
  refine ⟨(tmplt[i], values.get ⟨i, hlength ▸ hi⟩), ?_, by simp⟩
  rw [List.mem_iff_getElem?]
  exact ⟨i, by simp [hi, hlength ▸ hi]⟩

lemma lastReading_isSome (hlength : tmplt.length = values.length) {x : Text} (hx : x ∈ tmplt) :
    ∃ v, lastReading tmplt values x = some v := by
  obtain ⟨v, hv⟩ := firstReading_isSome hlength hx
  rw [← Option.isSome_iff_exists, lastReading, List.lookup_isSome_iff]
  obtain ⟨p, hp, hkey⟩ := List.lookup_isSome_iff.1 (Option.isSome_iff_exists.2 ⟨v, hv⟩)
  exact ⟨p, List.mem_reverse.2 hp, hkey⟩

lemma firstReading_eq_none {x : Text} (hx : x ∉ tmplt) : firstReading tmplt values x = none := by
  rw [firstReading, List.lookup_eq_none_iff]
  intro p hp
  have := (List.of_mem_zip hp).1
  have hne : x ≠ p.1 := fun heq => hx (heq ▸ this)
  simpa using hne

lemma lastReading_eq_none {x : Text} (hx : x ∉ tmplt) : lastReading tmplt values x = none := by
  rw [lastReading, List.lookup_eq_none_iff]
  intro p hp
  have := (List.of_mem_zip (List.mem_reverse.1 hp)).1
  have hne : x ≠ p.1 := fun heq => hx (heq ▸ this)
  simpa using hne

/-- The mapped string has the readings of the template exactly when each name gets the same value
whenever it stands in the template, and the value `U` if several data sources have it. -/
lemma mappedReadings_eq_iff (hlength : tmplt.length = values.length) (hsub : ∀ x ∈ tmplt, x ∈ names) :
    mappedReadings names tmplt values =
        ((tmplt.map fun x => names.findIdx (· = x)).zip values).foldl (fun vs p => vs.set p.1 p.2)
          (List.replicate names.length ['U']) ↔
      (∀ x ∈ tmplt, firstReading tmplt values x = lastReading tmplt values x) ∧
        ∀ x ∈ tmplt, names.Duplicate x → firstReading tmplt values x = some ['U'] := by
  have hmapped : ∀ i (hi : i < names.length), (mappedReadings names tmplt values)[i]? =
      some ((firstReading tmplt values names[i]).getD ['U']) := by
    intro i hi
    rw [mappedReadings, List.getElem?_map, List.getElem?_eq_getElem hi, Option.map_some]
  constructor
  · intro heq
    have key : ∀ i (hi : i < names.length), (firstReading tmplt values names[i]).getD ['U'] =
        (if names.findIdx (· = names[i]) = i then lastReading tmplt values names[i] else none).getD ['U'] := by
      intro i hi
      have := hmapped i hi
      rw [heq, templateReadings_getElem hi hsub] at this
      exact (Option.some.inj this).symm
    refine ⟨fun x hx => ?_, fun x hx hdup => ?_⟩
    · obtain ⟨hlt, hget⟩ := getElem_findIdx (hsub x hx)
      obtain ⟨v, hv⟩ := firstReading_isSome hlength hx
      obtain ⟨w, hw⟩ := lastReading_isSome hlength hx
      have := key _ hlt
      simp only [hget, if_true, hv, hw, Option.getD_some] at this
      rw [hv, hw, this]
    · obtain ⟨n, m, hlt, hn, hm⟩ := List.duplicate_iff_exists_distinct_get.1 hdup
      obtain ⟨v, hv⟩ := firstReading_isSome hlength hx
      have hnot : names.findIdx (· = x) ≠ m := by
        intro hfirst
        have hbefore : (n : ℕ) < names.findIdx (· = x) := by omega
        exact absurd hn.symm (by simpa using List.not_of_lt_findIdx hbefore)
      have := key m m.isLt
      rw [List.get_eq_getElem] at hm
      simp only [← hm, if_neg hnot, hv, Option.getD_some, Option.getD_none] at this
      rw [hv, this]
  · rintro ⟨hsame, hdup⟩
    apply List.ext_getElem?
    intro i
    by_cases hi : i < names.length
    · rw [hmapped i hi, templateReadings_getElem hi hsub]
      by_cases hmem : names[i] ∈ tmplt
      · split
        · rw [hsame _ hmem]
        · rename_i hfirst
          -- an earlier data source has the name
          have hdup' : names.Duplicate names[i] := by
            obtain ⟨hlt, hget⟩ := getElem_findIdx (List.getElem_mem hi)
            have hle : names.findIdx (· = names[i]) ≤ i := by
              by_contra hgt
              exact absurd (List.not_of_lt_findIdx (not_le.1 hgt)) (by simp)
            exact List.duplicate_iff_exists_distinct_get.2
              ⟨⟨_, hlt⟩, ⟨i, hi⟩, Fin.mk_lt_mk.2 (by omega), hget.symm, rfl⟩
          rw [hdup _ hmem hdup']
          rfl
      · rw [firstReading_eq_none hmem, lastReading_eq_none hmem, ite_self]
    · rw [List.getElem?_eq_none (by simpa [mappedReadings] using hi),
        List.getElem?_eq_none (by rw [foldl_set_length, List.length_replicate]; omega)]

lemma mem_mappedReadings {v : Text} (h : v ∈ mappedReadings names tmplt values) : v ∈ values ∨ v = ['U'] := by
  obtain ⟨x, -, rfl⟩ := List.mem_map.1 h
  cases hx : firstReading tmplt values x with
  | none => exact .inr rfl
  | some v =>
    obtain ⟨l₁, l₂, hsplit, -⟩ := List.lookup_eq_some_iff.1 hx
    have hmem : (x, v) ∈ tmplt.zip values := by
      rw [hsplit]
      simp
    exact .inl (List.of_mem_zip hmem).2

end Readings

/-! ### Both ways -/

/-- Writing all places in order. -/
lemma foldl_set_range (vs front us : List Text) (h : us.length = vs.length) :
    ((List.range' front.length vs.length).zip vs).foldl (fun vs p => vs.set p.1 p.2) (front ++ us) =
      front ++ vs := by
  induction vs generalizing front us with
  | nil =>
    rw [List.length_eq_zero_iff.1 h]
    rfl
  | cons v vs ih =>
    obtain ⟨u, us, rfl⟩ := List.exists_cons_of_length_eq_add_one h
    have hset : (front ++ u :: us).set front.length v = (front ++ [v]) ++ us := by simp
    rw [List.length_cons, List.range'_succ, List.zip_cons_cons, List.foldl_cons, hset]
    have := ih (front ++ [v]) us (Nat.succ.inj h)
    rw [List.length_append, List.length_singleton] at this
    rw [this, List.append_assoc, List.singleton_append]

/-- No data source is computed from the others. -/
def Rrd.NoCompute (rrd : Rrd) : Prop := ∀ ds ∈ rrd.ds, ds.dsDef.dst ≠ .cdef

lemma defaultTemplate_of_noCompute {rrd : Rrd} (h : rrd.NoCompute) :
    rrd.defaultTemplate = List.range rrd.dsCnt := by
  rw [Rrd.defaultTemplate, List.filter_eq_self]
  intro i hi
  have hi : i < rrd.ds.length := List.mem_range.1 hi
  simpa [List.getElem?_eq_getElem hi] using h _ (List.getElem_mem hi)

lemma defaultTemplate_length_lt {rrd : Rrd} (h : ¬ rrd.NoCompute) :
    rrd.defaultTemplate.length < rrd.dsCnt := by
  have hle : rrd.defaultTemplate.length ≤ (List.range rrd.dsCnt).length := List.length_filter_le ..
  rw [List.length_range] at hle
  refine lt_of_le_of_ne hle fun heq => h ?_
  intro ds hds
  obtain ⟨i, hi, rfl⟩ := List.getElem_of_mem hds
  have hall := List.length_filter_eq_length_iff.1 (heq.trans List.length_range.symm) i (List.mem_range.2 hi)
  simpa [List.getElem?_eq_getElem hi] using hall

/-- The mapping agrees with the template: it succeeds when the readings can be split with the template,
and what it returns is split into the same time and readings without one. -/
def MappingAgrees (rrd : Rrd) (tpl : Text) (tmpl : List ℕ) (v : Text) : Prop :=
  ((rrdMapTemplateToValues tpl (rrdGetFileTemplate rrd) v).isSome ↔
      ∃ r, parseDs rrd.dsCnt tmpl v = .ok r) ∧
    ∀ mapped, rrdMapTemplateToValues tpl (rrdGetFileTemplate rrd) v = some mapped →
      parseDs rrd.dsCnt rrd.defaultTemplate mapped = parseDs rrd.dsCnt tmpl v

/-- The template can be mapped for these values. -/
structure Mappable (rrd : Rrd) (tmplt values : List Text) : Prop where
  /-- As many data sources are named in the template as it has names. -/
  named : (rrd.dsNames.filter (· ∈ tmplt)).length = tmplt.length
  /-- A name that is repeated in the template has the same value at its last place as at its first. -/
  repeated : ∀ x ∈ tmplt, firstReading tmplt values x = lastReading tmplt values x
  /-- A name that several data sources have has the value `U`. -/
  shared : ∀ x ∈ tmplt, rrd.dsNames.Duplicate x → firstReading tmplt values x = some ['U']
  noCompute : rrd.NoCompute

section BothWays

variable {rrd : Rrd} {tpl time : Text} {tmpl : List ℕ} {values : List Text}

/-- What a template that `parse_template` accepts says about the file. -/
lemma parseTemplate_ok (hnames : ∀ x ∈ rrd.dsNames, x ≠ [] ∧ ':' ∉ x) (htmpl : parseTemplate rrd tpl = .ok tmpl) :
    tmpl = (splitFields tpl).map (fun x => rrd.dsNames.findIdx (· = x)) ∧
      (∀ x ∈ splitFields tpl, x ∈ rrd.dsNames) ∧ (splitFields tpl).length ≤ rrd.dsNames.length ∧ tpl ≠ [] := by
  have hne : splitFields tpl ≠ [] := by
    rw [← map_fieldStarts, fieldStarts]
    exact List.cons_ne_nil _ _
  obtain ⟨heq, hsub, hlength⟩ := parseNames_ok htmpl
  refine ⟨by simpa using heq, hsub, ?_, ?_⟩
  · have := hlength hne
    rw [List.length_nil, Nat.zero_add] at this
    rw [Rrd.dsNames, List.length_map]
    exact this
  · rintro rfl
    exact (hnames [] (hsub [] List.mem_cons_self)).1 rfl

/-- The mapping, for a template that `parse_template` accepts. -/
lemma map_rrdGetFileTemplate (hnames : ∀ x ∈ rrd.dsNames, x ≠ [] ∧ ':' ∉ x)
    (htmpl : parseTemplate rrd tpl = .ok tmpl) (hvalues : values ≠ []) (hcolon : ∀ f ∈ time :: values, ':' ∉ f) :
    rrdMapTemplateToValues tpl (rrdGetFileTemplate rrd) (joinFields (time :: values)) =
      if values.length = (splitFields tpl).length ∧
          (rrd.dsNames.filter (· ∈ splitFields tpl)).length = (splitFields tpl).length then
        some (joinFields (time :: mappedReadings rrd.dsNames (splitFields tpl) values))
      else none := by
  obtain ⟨-, hsub, hle, htpl⟩ := parseTemplate_ok hnames htmpl
  have hmem : fieldAt tpl ∈ rrd.dsNames := by
    apply hsub
    rw [← map_fieldStarts]
    exact List.mem_cons_self
  have hcons : rrd.dsNames ≠ [] := List.ne_nil_of_mem hmem
  have hfile : joinFields rrd.dsNames ≠ [] := by
    obtain ⟨name, names, hrrd⟩ := List.exists_cons_of_ne_nil hcons
    have hname := (hnames name (by rw [hrrd]; exact List.mem_cons_self)).1
    rw [hrrd, joinFields_cons]
    exact fun h => hname (List.append_eq_nil_iff.1 h).1
  exact rrdMapTemplateToValues_eq (splitFields_joinFields hcolon) hvalues htpl hcons hfile
    (fun x hx => (hnames x hx).2) hle

/-- What the mapped string is split into without a template. -/
lemma parseDs_mapped (hcons : rrd.dsNames ≠ []) (hcolon : ∀ f ∈ time :: values, ':' ∉ f)
    (hat : ∀ f ∈ time :: values, '@' ∉ f) (tmplt : List Text) :
    (rrd.NoCompute → parseDs rrd.dsCnt rrd.defaultTemplate
        (joinFields (time :: mappedReadings rrd.dsNames tmplt values)) =
          .ok (false, time, mappedReadings rrd.dsNames tmplt values)) ∧
      (¬ rrd.NoCompute → ∀ r, parseDs rrd.dsCnt rrd.defaultTemplate
        (joinFields (time :: mappedReadings rrd.dsNames tmplt values)) ≠ .ok r) := by
  have hfield : ∀ c : Char, c ≠ 'U' → (∀ f ∈ time :: values, c ∉ f) →
      ∀ f ∈ time :: mappedReadings rrd.dsNames tmplt values, c ∉ f := by
    intro c hc hall f hf
    obtain rfl | hf := List.mem_cons.1 hf
    · exact hall _ List.mem_cons_self
    · obtain hf | rfl := mem_mappedReadings hf
      · exact hall f (List.mem_cons_of_mem time hf)
      · simpa using hc
  have hlength : (mappedReadings rrd.dsNames tmplt values).length = rrd.dsCnt := by
    rw [mappedReadings, List.length_map, Rrd.dsNames, List.length_map]
    rfl
  have hne : mappedReadings rrd.dsNames tmplt values ≠ [] := fun h => hcons (List.map_eq_nil_iff.1 h)
  rw [parseDs_joinFields hne (hfield ':' (by decide) hcolon) (hfield '@' (by decide) hat), hlength]
  constructor
  · intro hno
    rw [defaultTemplate_of_noCompute hno, List.length_range, if_neg (lt_irrefl _), if_neg (lt_irrefl _)]
    have := foldl_set_range (mappedReadings rrd.dsNames tmplt values) [] (List.replicate rrd.dsCnt ['U'])
      (by rw [hlength, List.length_replicate])
    rw [hlength, List.length_nil, ← List.range_eq_range', List.nil_append, List.nil_append] at this
    rw [this]
  · intro hcompute r h
    rw [if_pos (defaultTemplate_length_lt hcompute)] at h
    cases h

/-- The two ways of an update with a template agree exactly when the number of values does not fit the
template, or the template can be mapped. -/
theorem mapping_agrees_iff (hnames : ∀ x ∈ rrd.dsNames, x ≠ [] ∧ ':' ∉ x)
    (htmpl : parseTemplate rrd tpl = .ok tmpl) (hvalues : values ≠ [])
    (hcolon : ∀ f ∈ time :: values, ':' ∉ f) (hat : ∀ f ∈ time :: values, '@' ∉ f) :
    MappingAgrees rrd tpl tmpl (joinFields (time :: values)) ↔
      (values.length = (splitFields tpl).length → Mappable rrd (splitFields tpl) values) := by
  obtain ⟨rfl, hsub, -, -⟩ := parseTemplate_ok hnames htmpl
  have hdsCnt : rrd.dsCnt = rrd.dsNames.length := by
    rw [Rrd.dsNames, List.length_map]
    rfl
  rw [MappingAgrees, map_rrdGetFileTemplate hnames htmpl hvalues hcolon, parseDs_joinFields hvalues hcolon hat,
    List.length_map]
  generalize splitFields tpl = tmplt at hsub
  by_cases hcount : values.length = tmplt.length
  · have hcons : rrd.dsNames ≠ [] := by
      obtain ⟨x, hx⟩ := List.exists_mem_of_length_pos (hcount ▸ List.length_pos_of_ne_nil hvalues)
      exact List.ne_nil_of_mem (hsub x hx)
    have hreadings := mappedReadings_eq_iff hcount.symm hsub
    obtain ⟨hplain, hcomputed⟩ := parseDs_mapped hcons hcolon hat tmplt
    have hmore : ¬ tmplt.length < values.length := by omega
    have hless : ¬ values.length < tmplt.length := by omega
    rw [if_neg hmore, if_neg hless]
    constructor
    · rintro ⟨hsome, hsame⟩ -
      have hnamed : (rrd.dsNames.filter (· ∈ tmplt)).length = tmplt.length := by
        by_contra hne
        rw [if_neg fun h => hne h.2] at hsome
        exact absurd (hsome.2 ⟨_, rfl⟩) (by simp)
      have hmapped := hsame _ (if_pos ⟨hcount, hnamed⟩)
      have hno : rrd.NoCompute := by
        by_contra hno
        exact hcomputed hno _ hmapped
      rw [hplain hno, hdsCnt] at hmapped
      obtain ⟨hrepeated, hshared⟩ := hreadings.1 (Prod.ext_iff.1 (Prod.ext_iff.1 (Except.ok.inj hmapped)).2).2
      exact ⟨hnamed, hrepeated, hshared, hno⟩
    · intro h
      have h := h hcount
      rw [if_pos ⟨hcount, h.named⟩]
      refine ⟨by simp, fun mapped hmapped => ?_⟩
      rw [← Option.some.inj hmapped, hplain h.noCompute, hreadings.2 ⟨h.repeated, h.shared⟩, hdsCnt]
  · -- both ways refuse the string
    rw [if_neg fun h => hcount h.1]
    have hrefused : ∀ (e e' : UpdateError) (r r' : Bool × Text × List Text),
        (if tmplt.length < values.length then .error e
          else if values.length < tmplt.length then .error e' else .ok r') ≠ Except.ok r := by
      intro e e' r r' h
      split at h
      · cases h
      · rw [if_pos (by omega)] at h
        cases h
    refine ⟨fun _ h => absurd h hcount, fun _ => ⟨?_, fun mapped h => by cases h⟩⟩
    exact ⟨fun h => by simp at h, fun ⟨_, h⟩ => (hrefused _ _ _ _ h).elim⟩

end BothWays

/-- A file with a `GAUGE` data source `a` and a data source `b` of the given type. -/
def twoSources (dst : Dst) : Rrd :=
  rrdInitData { gaugeHeader 10 60 tenSeconds_pos with
    ds := [gaugeDs ['a'] 60, { gaugeDs ['b'] 60 with dst := dst }] } fun _ => 0

theorem mapping_agrees_iff_swapped :
    MappingAgrees (twoSources .gauge) "b:a".toList [1, 0] "10:1:2".toList := by
  have hagrees := @mapping_agrees_iff (twoSources .gauge) "b:a".toList ['1', '0'] [1, 0] [['1'], ['2']]
    (by decide) (by decide) (by decide) (by decide) (by decide)
  refine hagrees.2 fun _ => ⟨by decide, by decide, fun x _ hdup => ?_, ?_⟩
  · exact absurd hdup (List.nodup_iff_forall_not_duplicate.1 (by decide) x)
  · intro ds hds
    revert ds
    decide

/-- The mapped string has a reading for the `COMPUTE` data source, which an update without a template
does not take. -/
theorem mapping_of_compute_refused :
    parseTemplate (twoSources .cdef) ['a'] = .ok [0] ∧
      parseDs (twoSources .cdef).dsCnt [0] "10:1".toList = .ok (false, "10".toList, [['1'], ['U']]) ∧
      rrdMapTemplateToValues ['a'] (rrdGetFileTemplate (twoSources .cdef)) "10:1".toList =
        some "10:1:U".toList ∧
      parseDs (twoSources .cdef).dsCnt (twoSources .cdef).defaultTemplate "10:1:U".toList =
        .error (.extraData ['U']) ∧
      ¬ MappingAgrees (twoSources .cdef) ['a'] [0] "10:1".toList := by
  have hmapped : rrdMapTemplateToValues ['a'] (rrdGetFileTemplate (twoSources .cdef)) "10:1".toList =
      some "10:1:U".toList := by decide
  have hdirect : parseDs (twoSources .cdef).dsCnt [0] "10:1".toList =
      .ok (false, "10".toList, [['1'], ['U']]) := by rfl
  have hindirect : parseDs (twoSources .cdef).dsCnt (twoSources .cdef).defaultTemplate "10:1:U".toList =
      .error (.extraData ['U']) := by rfl
  refine ⟨by rfl, hdirect, hmapped, hindirect, fun h => ?_⟩
  have := h.2 _ hmapped
  rw [hdirect, hindirect] at this
  cases this

end Rrdtool
