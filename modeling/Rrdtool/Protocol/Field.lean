import Rrdtool.Format

/-!
# Fields of a request

Port of `buffer_add_string` of `src/rrd_client.c` and of `next_cmd` and `buffer_get_field` of
`src/rrd_daemon.c`. A character stands for a byte. The daemon's buffer counts its final NUL, so that
a buffer that is used up differs from an empty last field: it is `none`.
-/

namespace Rrdtool

/-- `RRD_CMD_MAX`. -/
@[grind] def rrdCmdMax : ℕ := 4096

/-! ### The client -/

/-- A string as it is sent. -/
@[grind] def escape : Text → Text
  | [] => []
  | c :: str => if c = ' ' ∨ c = '\\' then '\\' :: c :: escape str else c :: escape str

/-- The strings in the buffer. -/
@[grind] def joined (strs : List Text) : Text := strs.flatMap fun str => escape str ++ [' ']

/-- `buffer_add_string`, with the bytes that are free: what is added to the buffer. -/
@[grind] def bufferAddString : ℕ → Text → Option Text
  | 0, _ => none
  | _ + 1, [] => some [' ']
  | free + 1, c :: str =>
    if c = ' ' ∨ c = '\\' then
      if free = 0 then none
      else (bufferAddString (free - 1) str).map fun t => '\\' :: c :: t
    else (bufferAddString free str).map (c :: ·)

/-- A string is added when it fits, escaped and with a blank behind it. -/
lemma bufferAddString_eq (free : ℕ) (str : Text) :
    bufferAddString free str = if (escape str).length < free then some (escape str ++ [' ']) else none := by
  induction str generalizing free with
  | nil =>
    cases free with
    | zero => rfl
    | succ free => simp [bufferAddString, escape]
  | cons c str ih =>
    cases free with
    | zero => simp [bufferAddString]
    | succ free =>
      simp only [bufferAddString, escape]
      split
      · cases free with
        | zero => simp
        | succ free =>
          rw [if_neg (Nat.succ_ne_zero free), Nat.add_sub_cancel, ih]
          split <;> simp_all
      · rw [ih]
        split <;> simp_all

/-! ### The daemon -/

/-- `buffer_get_field`: the field and what is left of the buffer. It fails when a backslash escapes
the final NUL. -/
@[grind] def bufferGetField : Text → Option (Text × Option Text)
  | [] => some ([], none)
  | ' ' :: rest => some ([], some rest)
  | ['\\'] => none
  | '\\' :: c :: rest => (bufferGetField rest).map fun p => (c :: p.1, p.2)
  | c :: rest => (bufferGetField rest).map fun p => (c :: p.1, p.2)

lemma bufferGetField_normal {c : Char} {rest : Text} (h : ¬ (c = ' ' ∨ c = '\\')) :
    bufferGetField (c :: rest) = (bufferGetField rest).map fun p => (c :: p.1, p.2) := by
  obtain ⟨hblank, hslash⟩ := not_or.1 h
  rw [bufferGetField]
  · exact hblank
  · rintro rfl
    exact absurd rfl hslash
  · rintro c' rest' rfl
    exact absurd rfl hslash

/-- The field in front of a blank. -/
lemma bufferGetField_escape_blank (str rest : Text) :
    bufferGetField (escape str ++ ' ' :: rest) = some (str, some rest) := by
  induction str with
  | nil => simp [escape, bufferGetField]
  | cons c str ih =>
    simp only [escape]
    split
    · simp [bufferGetField, ih]
    · rename_i h
      rw [List.cons_append, bufferGetField_normal h, ih]
      rfl

/-- The last field. -/
lemma bufferGetField_escape (str : Text) : bufferGetField (escape str) = some (str, none) := by
  induction str with
  | nil => rfl
  | cons c str ih =>
    simp only [escape]
    split
    · simp [bufferGetField, ih]
    · rename_i h
      rw [bufferGetField_normal h, ih]
      rfl

end Rrdtool
