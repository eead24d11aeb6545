import Rrdtool.Lib.Checked
import Rrdtool.Update.Template

/-!
# The buffer of the mapped string

`rrd_map_template_to_values` of `src/rrd_update.c` with the bytes that it allocates: the length counts on each name of
the template standing for one field of the file, but the names are compared only after the loop has written the
string. `mapped_fits_iff` says when the string fits nevertheless.
-/

namespace Rrdtool

open Checked

/-- The ways the mapping is refused. `noField` leaves no message. -/
inductive MapError where
  | mismatch (fieldsTpl fieldsValue : ℕ)
  | bigger (fieldsTpl fieldsFileTpl : ℕ)
  | noField
  | notInRrdfile (tpl fileTpl : Text)
deriving DecidableEq

/-- The message left by `rrd_set_error`. -/
def MapError.message : MapError → Option String
  | .mismatch fieldsTpl fieldsValue =>
    some ("rrd_map_template_to_values: mismatch of number of fields in template (" ++ toString fieldsTpl ++
      ") with number of fields in values (" ++ toString (u64 (fieldsValue - 1)) ++ ")")
  | .bigger fieldsTpl fieldsFileTpl =>
    some ("rrd_map_template_to_values: number of fields in template (" ++ toString fieldsTpl ++
      ") bigger than number of fields in rrdfile (" ++ toString fieldsFileTpl ++ ")")
  | .noField => none
  | .notInRrdfile tpl fileTpl =>
    some ("rrd_map_template_to_values: there are fields in template (" ++ String.ofList tpl ++
      ") that are not in the rrdfile (" ++ String.ofList fileTpl ++ ")")

/-- A result of the mapping. A fault is a write behind the buffer, with the bytes that it takes. -/
abbrev Mapped (α : Type) := Except (Stop MapError ℕ) α

/-- `strcat` and `strncat` in a buffer of `len` bytes, with the terminating null byte. -/
@[grind] def strcatIn (len : ℕ) (string s : Text) : Mapped Text :=
  if string.length + s.length + 1 ≤ len then .ok (string ++ s) else .error (.fault (string.length + s.length + 1))

/-- `_concat_field_n`. -/
@[grind] def concatFieldNIn (len : ℕ) (string value : Text) (field : ℕ) : Mapped Text :=
  match (fieldStarts value)[field]? with
  | none => .error (.error .noField)
  | some value => strcatIn len string (fieldAt value)

/-- `_concat_field`. -/
@[grind] def concatFieldIn (len : ℕ) (string tpl value field : Text) : Mapped (Text × ℕ) := do
  let string ← strcatIn len string [':']
  match (fieldStarts tpl).findIdx? fun tpl => sameField tpl field with
  | some fieldidx => do
    let string ← concatFieldNIn len string value (fieldidx + 1)
    pure (string, 1)
  | none => do
    let string ← strcatIn len string ['U']
    pure (string, 0)

/-- The loop over the fields of the file. -/
@[grind] def concatFieldsIn (len : ℕ) (tpl value : Text) : Text × ℕ → List Text → Mapped (Text × ℕ)
  | p, [] => .ok p
  | (mapped, fieldsCount), ptr :: ptrs => do
    let (mapped, ret) ← concatFieldIn len mapped tpl value ptr
    concatFieldsIn len tpl value (mapped, fieldsCount + ret) ptrs

/-- The length of the buffer. -/
def mappedLen (tpl fileTpl value : Text) : ℕ := value.length + 1 + (countFields fileTpl - countFields tpl) * 2

/-- `rrd_map_template_to_values`, in a buffer of `len` bytes. -/
@[grind] def rrdMapTemplateToValuesIn (len : ℕ) (tpl fileTpl value : Text) : Mapped Text :=
  if countFields tpl + 1 ≠ countFields value then
    .error (.error (.mismatch (countFields tpl) (countFields value)))
  else if countFields fileTpl < countFields tpl then
    .error (.error (.bigger (countFields tpl) (countFields fileTpl)))
  else do
    let mapped ← concatFieldNIn len [] value 0
    let (mapped, fieldsCount) ←
      concatFieldsIn len tpl value (mapped, 0) ((fieldStarts fileTpl).take (countFields fileTpl))
    if fieldsCount ≠ countFields tpl then .error (.error (.notInRrdfile tpl fileTpl)) else .ok mapped

/-! ### A run that stays in the buffer -/

section Unbounded

variable {len : ℕ}

/-- The result of a run that stays in the buffer is the one of a run without a bound. -/
def Agrees {α : Type} (m : Mapped α) (o : Option α) : Prop := NoFault m → m.toOption = o

lemma Agrees.bind {α β : Type} {m : Mapped α} {o : Option α} {f : α → Mapped β} {g : α → Option β} (h : Agrees m o)
    (hf : ∀ a, Agrees (f a) (g a)) : Agrees (m >>= f) (o.bind g) := by
  intro hno
  have hm := h (Safe.noFault ((safe_bind m f).1 hno))
  obtain ⟨e | b⟩ | a := m
  · rw [← hm]
    rfl
  · exact absurd hno (not_safe_fault b)
  · rw [← hm]
    exact hf a hno

lemma agrees_pure {α : Type} (a : α) : Agrees (pure a) (some a) := fun _ => rfl

lemma strcatIn_agrees (string s : Text) : Agrees (strcatIn len string s) (some (string ++ s)) := by
  intro hno
  rw [strcatIn] at hno ⊢
  split at hno
  · rw [if_pos ‹_›]
    rfl
  · exact absurd hno (not_safe_fault _)

lemma concatFieldNIn_agrees (string value : Text) (field : ℕ) :
    Agrees (concatFieldNIn len string value field) (concatFieldN string value field) := by
  rw [concatFieldNIn, concatFieldN]
  cases (fieldStarts value)[field]? with
  | none => exact fun _ => rfl
  | some value => exact strcatIn_agrees string (fieldAt value)

lemma concatFieldIn_agrees (string tpl value field : Text) :
    Agrees (concatFieldIn len string tpl value field) (concatField string tpl value field) := by
  rw [concatFieldIn, concatField]
  cases (fieldStarts tpl).findIdx? fun tpl => sameField tpl field with
  | none =>
    have h := (@strcatIn_agrees len string [':']).bind fun string' =>
      (@strcatIn_agrees len string' ['U']).bind fun string => @agrees_pure _ (string, 0)
    rwa [Option.bind_some, Option.bind_some, List.append_assoc] at h
  | some i =>
    have h := (@strcatIn_agrees len string [':']).bind fun string' =>
      (@concatFieldNIn_agrees len string' value (i + 1)).bind fun string => @agrees_pure _ (string, 1)
    rw [Option.bind_some] at h
    simp only [Option.map_eq_bind]
    exact h

lemma concatFieldsIn_agrees (tpl value : Text) (p : Text × ℕ) (ptrs : List Text) :
    Agrees (concatFieldsIn len tpl value p ptrs) (concatFields tpl value p ptrs) := by
  induction ptrs generalizing p with
  | nil => exact agrees_pure p
  | cons ptr ptrs ih => exact (concatFieldIn_agrees p.1 tpl value ptr).bind fun q => ih (q.1, p.2 + q.2)

/-- The mapping of the update is the result in a buffer that is long enough. -/
lemma rrdMapTemplateToValuesIn_agrees (tpl fileTpl value : Text) :
    Agrees (rrdMapTemplateToValuesIn len tpl fileTpl value) (rrdMapTemplateToValues tpl fileTpl value) := by
  rw [rrdMapTemplateToValuesIn, rrdMapTemplateToValues]
  by_cases hvalue : countFields tpl + 1 = countFields value
  · by_cases hfile : countFields fileTpl < countFields tpl
    · rw [if_neg (not_not.2 hvalue), if_pos hfile, guard, if_pos hvalue, guard, if_neg (not_le.2 hfile)]
      exact fun _ => rfl
    · rw [if_neg (not_not.2 hvalue), if_neg hfile, guard, if_pos hvalue, guard, if_pos (not_lt.1 hfile)]
      show Agrees _ ((concatFieldN [] value 0).bind fun mapped => (concatFields tpl value (mapped, 0) _).bind fun p =>
        (guard (p.2 = countFields tpl) : Option Unit).bind fun _ => some p.1)
      refine (concatFieldNIn_agrees [] value 0).bind fun mapped => ?_
      refine (concatFieldsIn_agrees tpl value (mapped, 0) _).bind fun ⟨mapped', fieldsCount⟩ => ?_
      dsimp only
      by_cases hcount : fieldsCount = countFields tpl
      · rw [if_neg (not_not.2 hcount), guard, if_pos hcount]
        exact agrees_pure mapped'
      · rw [if_pos hcount, guard, if_neg hcount]
        exact fun _ => rfl
  · rw [if_pos hvalue, guard, if_neg hvalue]
    exact fun _ => rfl

end Unbounded

/-! ### The bytes that a run takes -/

section Bytes

variable {len : ℕ} {tpl value time : Text} {values : List Text}

lemma safe_strcatIn {P : Text → Prop} (string s : Text) :
    Safe P (strcatIn len string s) ↔ string.length + s.length + 1 ≤ len ∧ P (string ++ s) := by
  rw [strcatIn]
  split
  · rename_i hfits
    exact (and_iff_right hfits).symm
  · rename_i hfits
    exact iff_of_false (not_safe_fault _) fun h => hfits h.1

/-- The bytes of some readings, each with its colon. -/
@[grind] def readingBytes (readings : List Text) : ℕ := (readings.map fun r => r.length + 1).sum

/-- A field of the file, when each name of the template has a value. -/
lemma safe_concatFieldIn {P : Text × ℕ → Prop} (string field : Text) (hvalue : splitFields value = time :: values)
    (hcount : (splitFields tpl).length = values.length) :
    Safe P (concatFieldIn len string tpl value field) ↔
      string.length + ((firstReading (splitFields tpl) values (fieldAt field)).getD ['U']).length + 2 ≤ len ∧
        P (string ++ ':' :: (firstReading (splitFields tpl) values (fieldAt field)).getD ['U'],
          if fieldAt field ∈ splitFields tpl then 1 else 0) := by
  have hplain := concatField_eq string field hvalue hcount
  rw [concatFieldIn, safe_bind, safe_strcatIn]
  rw [concatField] at hplain
  generalize (firstReading (splitFields tpl) values (fieldAt field)).getD ['U'] = reading at hplain ⊢
  generalize (if fieldAt field ∈ splitFields tpl then 1 else 0) = ret at hplain ⊢
  cases hfind : (fieldStarts tpl).findIdx? fun tpl => sameField tpl field with
  | none =>
    rw [hfind] at hplain
    obtain ⟨hstring, rfl⟩ := Prod.mk.inj (Option.some.inj hplain)
    obtain rfl : ['U'] = reading := (List.cons.inj (List.append_cancel_left hstring)).2
    rw [safe_bind, safe_strcatIn, List.append_assoc, List.length_append]
    simp only [List.length_singleton, List.singleton_append, safe_pure]
    constructor
    · rintro ⟨-, hlen, hP⟩
      exact ⟨hlen, hP⟩
    · rintro ⟨hlen, hP⟩
      exact ⟨by omega, hlen, hP⟩
  | some i =>
    rw [hfind] at hplain
    obtain ⟨string', hfield, hpair⟩ := Option.map_eq_some_iff.1 hplain
    obtain ⟨hstring, rfl⟩ := Prod.mk.inj hpair
    obtain ⟨p, hp, hat⟩ := Option.map_eq_some_iff.1 hfield
    rw [safe_bind, concatFieldNIn, hp, safe_strcatIn]
    obtain rfl : fieldAt p = reading := by
      rw [← hat, List.append_assoc] at hstring
      exact (List.cons.inj (List.append_cancel_left hstring)).2
    rw [List.append_assoc, List.length_append]
    simp only [List.length_singleton, List.singleton_append, safe_pure]
    constructor
    · rintro ⟨-, hlen, hP⟩
      exact ⟨by omega, hP⟩
    · rintro ⟨hlen, hP⟩
      exact ⟨by omega, by omega, hP⟩

/-- The loop takes the bytes of the readings. -/
lemma noFault_concatFieldsIn (p : Text × ℕ) (ptrs : List Text)
    (hvalue : splitFields value = time :: values) (hcount : (splitFields tpl).length = values.length)
    (hroom : p.1.length + 1 ≤ len) :
    NoFault (concatFieldsIn len tpl value p ptrs) ↔
      p.1.length + readingBytes (mappedReadings (ptrs.map fieldAt) (splitFields tpl) values) + 1 ≤ len := by
  induction ptrs generalizing p with
  | nil => exact iff_of_true trivial hroom
  | cons ptr ptrs ih =>
    rw [concatFieldsIn, NoFault, safe_bind, safe_concatFieldIn p.1 ptr hvalue hcount]
    simp only [mappedReadings, readingBytes, List.map_cons, List.sum_cons] at ih ⊢
    generalize (firstReading (splitFields tpl) values (fieldAt ptr)).getD ['U'] = reading
    constructor
    · rintro ⟨hlen, hrest⟩
      have := (ih (p.1 ++ ':' :: reading, _) (by simp; omega)).1 hrest
      simp only [List.length_append, List.length_cons] at this
      omega
    · intro hlen
      refine ⟨by omega, (ih (p.1 ++ ':' :: reading, _) (by simp; omega)).2 ?_⟩
      simp only [List.length_append, List.length_cons]
      omega

/-- Without a template the fields of the file take two bytes each, or end the run. -/
lemma noFault_concatFieldsIn_nil (p : Text × ℕ) (ptrs : List Text) (hvalue : splitFields value = [time])
    (hroom : p.1.length + 2 * ptrs.length + 1 ≤ len) : NoFault (concatFieldsIn len [] value p ptrs) := by
  induction ptrs generalizing p with
  | nil => trivial
  | cons ptr ptrs ih =>
    rw [List.length_cons] at hroom
    rw [concatFieldsIn, NoFault, safe_bind, concatFieldIn, safe_bind, safe_strcatIn]
    refine ⟨by simp only [List.length_singleton]; omega, ?_⟩
    cases (fieldStarts []).findIdx? fun tpl => sameField tpl ptr with
    | none =>
      rw [safe_bind, safe_strcatIn]
      simp only [List.length_append, List.length_singleton]
      refine ⟨by omega, ih (p.1 ++ [':'] ++ ['U'], p.2 + 0) ?_⟩
      simp only [List.length_append, List.length_singleton]
      omega
    | some i =>
      have hnone : (fieldStarts value)[i + 1]? = none := by
        rw [List.getElem?_eq_none_iff, ← List.length_map fieldAt, map_fieldStarts, hvalue, List.length_singleton]
        exact Nat.le_add_left 1 i
      rw [safe_bind, concatFieldNIn, hnone]
      exact safe_error _

/-- The bytes of a string are those of its fields. -/
lemma readingBytes_splitFields (s : Text) : readingBytes (splitFields s) = s.length + 1 := by
  induction s with
  | nil => rfl
  | cons c s ih =>
    by_cases h : c = ':'
    · rw [h, show splitFields (':' :: s) = [] :: splitFields s by simp [splitFields], readingBytes, List.map_cons,
        List.sum_cons, ← readingBytes, ih, List.length_cons, List.length_nil]
      omega
    · obtain ⟨f, fs, hs, hcs⟩ := splitFields_cons_ne (s := s) h
      rw [hs] at ih
      simp only [hcs, readingBytes, List.map_cons, List.sum_cons, List.length_cons] at ih ⊢
      omega

end Bytes

/-! ### When the string fits -/

/-- The fields of the file that take the reading of a place of the template. -/
@[grind] def usesOf (names fileNames : List Text) (j : ℕ) : ℕ := fileNames.countP fun x => names.findIdx? (· = x) = some j

/-- What the readings that are taken twice or more add to the string, less what those that are not taken at all save:
the bytes by which a reading is longer than the `U` that stands for it otherwise. -/
def mappedExcess (names fileNames values : List Text) : ℤ :=
  ∑ j ∈ Finset.range values.length, ((usesOf names fileNames j : ℤ) - 1) * ((values.getD j []).length - 1)

lemma usesOf_cons (names : List Text) (x : Text) (fileNames : List Text) (j : ℕ) :
    usesOf names (x :: fileNames) j = usesOf names fileNames j + if names.findIdx? (· = x) = some j then 1 else 0 := by
  simp only [usesOf, List.countP_cons, decide_eq_true_eq]

/-- The bytes of a reading, next to those of `U`. -/
lemma length_firstReading {names values : List Text} (hcount : names.length = values.length) (x : Text) :
    (((firstReading names values x).getD ['U']).length : ℤ) = 1 + ∑ j ∈ Finset.range values.length,
      (if names.findIdx? (· = x) = some j then 1 else 0) * (((values.getD j []).length : ℤ) - 1) := by
  rw [firstReading, lookup_zip]
  cases hidx : names.findIdx? (· = x) with
  | none => simp
  | some i =>
    obtain ⟨hlt, -, -⟩ := List.findIdx?_eq_some_iff_getElem.1 hidx
    have hmem : i ∈ Finset.range values.length := Finset.mem_range.2 (hcount ▸ hlt)
    have hget : values[i]? = some (values.getD i []) := by
      rw [List.getD_eq_getElem?_getD, List.getElem?_eq_getElem (Finset.mem_range.1 hmem), Option.getD_some]
    simp only [Option.some.injEq, ite_mul, one_mul, zero_mul]
    rw [Finset.sum_ite_eq, if_pos hmem, Option.bind_some, hget, Option.getD_some]
    ring

lemma readingBytes_mappedReadings {names values : List Text} (hcount : names.length = values.length)
    (fileNames : List Text) : (readingBytes (mappedReadings fileNames names values) : ℤ) = 2 * fileNames.length +
      ∑ j ∈ Finset.range values.length, (usesOf names fileNames j : ℤ) * ((values.getD j []).length - 1) := by
  induction fileNames with
  | nil => simp [mappedReadings, readingBytes, usesOf]
  | cons x fileNames ih =>
    have hx := length_firstReading hcount x
    simp only [mappedReadings, readingBytes, List.map_cons, List.sum_cons] at ih ⊢
    simp only [usesOf_cons, Nat.cast_add, add_mul, Finset.sum_add_distrib, List.length_cons, Nat.cast_ite, Nat.cast_one,
      Nat.cast_zero]
    rw [ih, hx]
    ring

lemma readingBytes_values (values : List Text) : (readingBytes values : ℤ) = 2 * values.length +
    ∑ j ∈ Finset.range values.length, (((values.getD j []).length : ℤ) - 1) := by
  induction values with
  | nil => rfl
  | cons v values ih =>
    rw [readingBytes, List.map_cons, List.sum_cons, ← readingBytes, List.length_cons, Finset.sum_range_succ']
    simp only [List.getD_cons_succ, List.getD_cons_zero]
    push_cast
    rw [ih]
    ring

/-- Once the fields are counted, the time and the loop are what there is to write. -/
lemma noFault_mapped_iff {len : ℕ} {tpl fileTpl value time : Text} {values : List Text}
    (hvalue : countFields tpl + 1 = countFields value) (hfile : countFields tpl ≤ countFields fileTpl)
    (hsplit : splitFields value = time :: values) :
    NoFault (rrdMapTemplateToValuesIn len tpl fileTpl value) ↔ time.length + 1 ≤ len ∧
      NoFault (concatFieldsIn len tpl value (time, 0) ((fieldStarts fileTpl).take (countFields fileTpl))) := by
  have htime : fieldAt value = time := by
    have := map_fieldStarts value
    rw [hsplit, fieldStarts, List.map_cons] at this
    exact (List.cons.inj this).1
  have hend : ∀ p : Text × ℕ, NoFault (match p with
      | (mapped, fieldsCount) => if fieldsCount ≠ countFields tpl then
          (.error (.error (.notInRrdfile tpl fileTpl)) : Mapped Text) else .ok mapped) := by
    rintro ⟨mapped, fieldsCount⟩
    rw [NoFault, safe_ite]
    exact ⟨fun _ => trivial, fun _ => trivial⟩
  have hstart : (fieldStarts value)[0]? = some value := rfl
  rw [rrdMapTemplateToValuesIn, if_neg (not_not.2 hvalue), if_neg (not_lt.2 hfile), NoFault, safe_bind, concatFieldNIn,
    hstart, safe_strcatIn, List.length_nil, Nat.zero_add, List.nil_append, htime, safe_bind]
  exact and_congr_right fun _ => ⟨Safe.noFault, fun h => h.mono fun p _ => hend p⟩

/-- The mapped string stays in its buffer, whether the mapping succeeds or not, under exactly this condition. -/
theorem mapped_fits_iff (tpl fileTpl value : Text) (hvalue : countFields tpl + 1 = countFields value)
    (hfile : countFields tpl ≤ countFields fileTpl) :
    NoFault (rrdMapTemplateToValuesIn (mappedLen tpl fileTpl value) tpl fileTpl value) ↔
      mappedExcess (splitFields tpl) (splitFields fileTpl) (splitFields value).tail ≤ 0 := by
  have hne : value ≠ [] := by
    rintro rfl
    exact absurd hvalue (Nat.succ_ne_zero _)
  have hbytes := readingBytes_splitFields value
  rw [countFields_eq hne] at hvalue
  obtain ⟨time, values, hsplit⟩ : ∃ time values, splitFields value = time :: values :=
    List.exists_cons_of_length_eq_add_one hvalue.symm
  rw [noFault_mapped_iff (by rw [countFields_eq hne, hvalue]) hfile hsplit]
  rw [hsplit, List.length_cons] at hvalue
  rw [hsplit, readingBytes, List.map_cons, List.sum_cons, ← readingBytes] at hbytes
  rw [hsplit, List.tail_cons, mappedLen]
  by_cases htpl : tpl = []
  · subst htpl
    obtain rfl : values = [] := List.length_eq_zero_iff.1 (Nat.succ.inj hvalue).symm
    refine iff_of_true ⟨by omega, noFault_concatFieldsIn_nil (time, 0) _ hsplit ?_⟩ le_rfl
    have hzero : countFields [] = 0 := rfl
    have hlen := List.length_take_le (countFields fileTpl) (fieldStarts fileTpl)
    dsimp only
    omega
  · have htplCount := countFields_eq htpl
    have hcount : (splitFields tpl).length = values.length := htplCount.symm.trans (Nat.succ.inj hvalue)
    have hfileTpl : fileTpl ≠ [] := by
      rintro rfl
      have hzero : countFields [] = 0 := rfl
      have : 0 < (splitFields tpl).length := List.length_pos_of_ne_nil (by rw [← map_fieldStarts]; simp [fieldStarts])
      omega
    have hstarts : ((fieldStarts fileTpl).take (countFields fileTpl)).map fieldAt = splitFields fileTpl := by
      rw [List.map_take, map_fieldStarts, countFields_eq hfileTpl, List.take_length]
    have hmapped := readingBytes_mappedReadings hcount (splitFields fileTpl)
    have hvalues := readingBytes_values values
    have hexcess : mappedExcess (splitFields tpl) (splitFields fileTpl) values =
        ∑ j ∈ Finset.range values.length,
            (usesOf (splitFields tpl) (splitFields fileTpl) j : ℤ) * ((values.getD j []).length - 1) -
          ∑ j ∈ Finset.range values.length, (((values.getD j []).length : ℤ) - 1) := by
      rw [← Finset.sum_sub_distrib]
      exact Finset.sum_congr rfl fun j _ => by ring
    have hfileCount := countFields_eq hfileTpl
    rw [and_iff_right (by omega), noFault_concatFieldsIn (time, 0) _ hsplit hcount (by dsimp only; omega), hstarts, hexcess]
    dsimp only
    omega

theorem mapped_fits_iff_two_of_three :
    NoFault (rrdMapTemplateToValuesIn (mappedLen "a:c".toList "a:b:c".toList "1:20:3".toList) "a:c".toList
        "a:b:c".toList "1:20:3".toList) ↔
      mappedExcess (splitFields "a:c".toList) (splitFields "a:b:c".toList) (splitFields "1:20:3".toList).tail ≤ 0 :=
  mapped_fits_iff "a:c".toList "a:b:c".toList "1:20:3".toList (by decide) (by decide)

/-- The file has no `x`: the null byte of `1:U` lies behind the three bytes that are allocated. -/
theorem mapped_overflow :
    countFields "x".toList + 1 = countFields "1:".toList ∧ countFields "x".toList ≤ countFields "a".toList ∧
      mappedLen "x".toList "a".toList "1:".toList = 3 ∧
      rrdMapTemplateToValuesIn 3 "x".toList "a".toList "1:".toList = .error (.fault 4) := by decide

end Rrdtool
