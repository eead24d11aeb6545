import Rrdtool.Protocol.Response

/-!
# Bytes of a request

Port of `buffer_get_field` and `find_command` of `src/rrd_daemon.c` for every line that a client can send. The line may
have NULs in it, and a NUL ends a field like a blank, unless it is escaped: then it stands in the field, which ends there
for all that read it as a string. The buffer holds the final NUL, and is empty when it is used up. Where there is no NUL
in the line this is `bufferGetField` (`Bytes.bufferGetField_of_text`).
-/

namespace Rrdtool

namespace Bytes

/-- `buffer_get_field`: the field and what is left of the buffer. -/
@[grind] def bufferGetField : Text → Option (Text × Text)
  | [] => none
  | c :: rest =>
    if c = ' ' ∨ c = '\x00' then some ([], rest)
    else if c = '\\' then
      match rest with
      | [] => none
      | c' :: rest => (bufferGetField rest).map fun p => (c' :: p.1, p.2)
    else (bufferGetField rest).map fun p => (c :: p.1, p.2)

/-- The fields of the buffer, as strings, up to `n` of them. -/
@[grind] def fieldsUpTo : ℕ → Text → List Text
  | 0, _ => []
  | n + 1, buffer =>
    match bufferGetField buffer with
    | none => []
    | some (field, rest) => cstr field :: fieldsUpTo n rest

/-- The fields of the buffer; each one takes a byte. -/
@[grind] def fields (buffer : Text) : List Text := fieldsUpTo buffer.length buffer

section Field

variable {buffer rest field : Text} {c : Char}

lemma bufferGetField_separator (h : c = ' ' ∨ c = '\x00') : bufferGetField (c :: rest) = some ([], rest) := by
  rw [bufferGetField.eq_def]
  exact if_pos h

lemma bufferGetField_escaped (c : Char) (rest : Text) :
    bufferGetField ('\\' :: c :: rest) = (bufferGetField rest).map fun p => (c :: p.1, p.2) := by
  rw [bufferGetField.eq_def]
  dsimp only
  rw [if_neg (by decide), if_pos rfl]

lemma bufferGetField_plain (h : ¬ (c = ' ' ∨ c = '\x00')) (hslash : c ≠ '\\') :
    bufferGetField (c :: rest) = (bufferGetField rest).map fun p => (c :: p.1, p.2) := by
  rw [bufferGetField.eq_def]
  dsimp only
  rw [if_neg h, if_neg hslash]

/-- What is left of the buffer is shorter, and its end. -/
lemma bufferGetField_suffix (h : bufferGetField buffer = some (field, rest)) :
    rest.length < buffer.length ∧ rest <:+ buffer := by
  induction buffer using bufferGetField.induct generalizing field with
  | case1 => cases h
  | case2 c buffer hsep =>
    rw [bufferGetField_separator hsep] at h
    cases h
    exact ⟨Nat.lt_succ_self _, List.suffix_cons _ _⟩
  | case3 => cases h
  | case4 c buffer hsep ih =>
    rw [bufferGetField_escaped] at h
    obtain ⟨⟨field', rest'⟩, hrest, heq⟩ := Option.map_eq_some_iff.1 h
    cases heq
    obtain ⟨hlt, hsuffix⟩ := ih hrest
    refine ⟨hlt.trans (by simp), hsuffix.trans ?_⟩
    exact (List.suffix_cons _ _).trans (List.suffix_cons _ _)
  | case5 c buffer hsep hslash ih =>
    rw [bufferGetField_plain hsep hslash] at h
    obtain ⟨⟨field', rest'⟩, hrest, heq⟩ := Option.map_eq_some_iff.1 h
    cases heq
    obtain ⟨hlt, hsuffix⟩ := ih hrest
    exact ⟨hlt.trans (Nat.lt_succ_self _), hsuffix.trans (List.suffix_cons _ _)⟩

/-- There are no more fields than bytes. -/
lemma fieldsUpTo_eq_fields {n : ℕ} (h : buffer.length ≤ n) : fieldsUpTo n buffer = fields buffer := by
  have hmore : ∀ (n : ℕ) (buffer : Text), buffer.length ≤ n → fieldsUpTo (n + 1) buffer = fieldsUpTo n buffer := by
    intro n
    induction n with
    | zero =>
      intro buffer h
      rw [List.length_eq_zero_iff.1 (Nat.le_zero.1 h)]
      rfl
    | succ n ih =>
      intro buffer h
      rw [fieldsUpTo, fieldsUpTo]
      cases hget : bufferGetField buffer with
      | none => rfl
      | some p =>
        obtain ⟨field, rest⟩ := p
        have hlt := (bufferGetField_suffix hget).1
        dsimp only
        rw [ih rest (by omega)]
  induction n, h using Nat.le_induction with
  | base => rfl
  | succ n h ih => rw [hmore n buffer h, ih]

lemma fields_none (h : bufferGetField buffer = none) : fields buffer = [] := by
  rw [← fieldsUpTo_eq_fields (Nat.le_succ buffer.length), fieldsUpTo, h]

lemma fields_some (h : bufferGetField buffer = some (field, rest)) : fields buffer = cstr field :: fields rest := by
  have hlt := (bufferGetField_suffix h).1
  rw [← fieldsUpTo_eq_fields (Nat.le_succ buffer.length), fieldsUpTo, h]
  dsimp only
  rw [fieldsUpTo_eq_fields hlt.le]

/-- What stands behind a field that ends is not looked at. -/
lemma bufferGetField_append (h : bufferGetField buffer = some (field, rest)) (post : Text) :
    bufferGetField (buffer ++ post) = some (field, rest ++ post) := by
  induction buffer using bufferGetField.induct generalizing field with
  | case1 => cases h
  | case2 c buffer hsep =>
    rw [bufferGetField_separator hsep] at h
    cases h
    exact bufferGetField_separator hsep
  | case3 => cases h
  | case4 c buffer hsep ih =>
    rw [bufferGetField_escaped] at h
    obtain ⟨⟨field', rest'⟩, hrest, heq⟩ := Option.map_eq_some_iff.1 h
    cases heq
    rw [List.cons_append, List.cons_append, bufferGetField_escaped, ih hrest]
    rfl
  | case5 c buffer hsep hslash ih =>
    rw [bufferGetField_plain hsep hslash] at h
    obtain ⟨⟨field', rest'⟩, hrest, heq⟩ := Option.map_eq_some_iff.1 h
    cases heq
    rw [List.cons_append, bufferGetField_plain hsep hslash, ih hrest]
    rfl

/-- The fields of the front come first. -/
lemma fields_prefix_append (buffer post : Text) : fields buffer <+: fields (buffer ++ post) := by
  induction hn : buffer.length using Nat.strong_induction_on generalizing buffer with
  | _ n ih =>
    cases hget : bufferGetField buffer with
    | none =>
      rw [fields_none hget]
      exact List.nil_prefix
    | some p =>
      obtain ⟨field, rest⟩ := p
      have hlt := (bufferGetField_suffix hget).1
      rw [fields_some hget, fields_some (bufferGetField_append hget post), List.prefix_cons_inj]
      exact ih rest.length (hn ▸ hlt) rest rfl

/-- A field of a string is a part of it. -/
lemma bufferGetField_sublist {text : Text} (h : '\x00' ∉ text)
    (hget : bufferGetField (text ++ ['\x00']) = some (field, rest)) : List.Sublist field text := by
  induction text using bufferGetField.induct generalizing field with
  | case1 =>
    cases hget
    exact List.Sublist.refl _
  | case2 c text hsep =>
    rw [List.cons_append, bufferGetField_separator hsep] at hget
    cases hget
    exact List.nil_sublist _
  | case3 =>
    rw [List.cons_append, List.nil_append, bufferGetField_escaped] at hget
    cases hget
  | case4 c text hsep ih =>
    rw [List.cons_append, List.cons_append, bufferGetField_escaped] at hget
    obtain ⟨⟨field', rest'⟩, hrest, heq⟩ := Option.map_eq_some_iff.1 hget
    cases heq
    have htext : '\x00' ∉ text := fun hin => h (List.mem_cons_of_mem _ (List.mem_cons_of_mem _ hin))
    exact ((ih htext hrest).cons_cons c).cons _
  | case5 c text hsep hslash ih =>
    rw [List.cons_append, bufferGetField_plain hsep hslash] at hget
    obtain ⟨⟨field', rest'⟩, hrest, heq⟩ := Option.map_eq_some_iff.1 hget
    cases heq
    exact (ih (fun hin => h (List.mem_cons_of_mem _ hin)) hrest).cons_cons c

/-- A string without blanks and backslashes is one field. -/
lemma bufferGetField_of_plain {text : Text} (h : '\x00' ∉ text) (hplain : ' ' ∉ text ∧ '\\' ∉ text)
    (hsep : c = ' ' ∨ c = '\x00') (rest : Text) : bufferGetField (text ++ c :: rest) = some (text, rest) := by
  induction text with
  | nil => exact bufferGetField_separator hsep
  | cons c' text ih =>
    simp only [List.mem_cons, not_or] at h hplain
    obtain ⟨⟨hblank, hblanks⟩, hslash, hslashes⟩ := hplain
    rw [List.cons_append, bufferGetField_plain (not_or.2 ⟨Ne.symm hblank, Ne.symm h.1⟩) (Ne.symm hslash),
      ih h.2 ⟨hblanks, hslashes⟩]
    rfl

/-- Only such a string is its own field. -/
lemma plain_of_bufferGetField {text : Text} (h : '\x00' ∉ text)
    (hget : bufferGetField (text ++ ['\x00']) = some (text, rest)) : ' ' ∉ text ∧ '\\' ∉ text := by
  induction text with
  | nil => exact ⟨List.not_mem_nil, List.not_mem_nil⟩
  | cons c text ih =>
    simp only [List.mem_cons, not_or] at h
    by_cases hsep : c = ' ' ∨ c = '\x00'
    · rw [List.cons_append, bufferGetField_separator hsep] at hget
      cases hget
    by_cases hslash : c = '\\'
    · subst hslash
      cases text with
      | nil =>
        rw [List.cons_append, List.nil_append, bufferGetField_escaped] at hget
        cases hget
      | cons c' text =>
        rw [List.cons_append, List.cons_append, bufferGetField_escaped] at hget
        obtain ⟨⟨field', rest'⟩, hrest, heq⟩ := Option.map_eq_some_iff.1 hget
        obtain ⟨hfield, -⟩ := Prod.mk.inj heq
        -- the field lacks the backslash
        have htext : '\x00' ∉ text := fun hin => h.2 (List.mem_cons_of_mem _ hin)
        have hlen := (bufferGetField_sublist htext hrest).length_le
        have heqlen := congrArg List.length hfield
        simp only [List.length_cons] at heqlen
        omega
    · rw [List.cons_append, bufferGetField_plain hsep hslash] at hget
      obtain ⟨⟨field', rest'⟩, hrest, heq⟩ := Option.map_eq_some_iff.1 hget
      cases heq
      obtain ⟨hblanks, hslashes⟩ := ih h.2 hrest
      obtain ⟨hblank, -⟩ := not_or.1 hsep
      exact ⟨List.not_mem_cons_of_ne_of_not_mem (Ne.symm hblank) hblanks,
        List.not_mem_cons_of_ne_of_not_mem (Ne.symm hslash) hslashes⟩

end Field

/-- The text of a line without NULs is read as `bufferGetField` reads it. -/
lemma bufferGetField_of_text {text : Text} (h : '\x00' ∉ text) :
    bufferGetField (text ++ ['\x00']) =
      (Rrdtool.bufferGetField text).map fun p => (p.1, (p.2.map (· ++ ['\x00'])).getD []) := by
  induction text using Rrdtool.bufferGetField.induct with
  | case1 => rfl
  | case2 rest => exact bufferGetField_separator (.inl rfl)
  | case3 => rfl
  | case4 c rest ih =>
    have hrest : '\x00' ∉ rest := fun hin => h (List.mem_cons_of_mem _ (List.mem_cons_of_mem _ hin))
    rw [List.cons_append, List.cons_append, bufferGetField_escaped, ih hrest, Rrdtool.bufferGetField, Option.map_map,
      Option.map_map]
    rfl
  | case5 c rest hblank hlast hslash ih =>
    obtain ⟨hnul, hrest⟩ : '\x00' ≠ c ∧ '\x00' ∉ rest := by simpa using h
    have hplain : ¬ (c = ' ' ∨ c = '\\') := by
      rintro (rfl | rfl)
      · exact hblank rfl
      · cases rest with
        | nil => exact hlast rfl rfl
        | cons c' rest => exact hslash c' rest rfl rfl
    obtain ⟨hb, hs⟩ := not_or.1 hplain
    rw [List.cons_append, bufferGetField_plain (not_or.2 ⟨hb, hnul.symm⟩) hs, ih hrest,
      Rrdtool.bufferGetField_normal hplain, Option.map_map, Option.map_map]
    rfl

end Bytes

end Rrdtool
