import Rrdtool.Format

/-!
# Reading numbers

Port of `src/rrd_strtod.c` (`rrd_strtod`, `rrd_strtodbl`, `parse_special`) and of `src/rrd_diff.c`
(`rrd_diff`, the difference of two long decimal integers). The digits are accumulated exactly, where
the C code accumulates them in a double.
-/

namespace Rrdtool

/-- C `isspace` in the C locale. -/
@[grind] def isSpace (c : Char) : Bool :=
  c = ' ' || c = '\t' || c = '\n' || c = '\x0b' || c = '\x0c' || c = '\x0d'

/-- The value of a digit character. -/
@[grind] def digitVal (c : Char) : ℕ := c.toNat - '0'.toNat

/-- The number a list of digit characters denotes, most significant first. -/
@[grind] def digitsVal (ds : Text) : ℕ := ds.foldl (fun n c => n * 10 + digitVal c) 0

lemma digitVal_le {c : Char} (h : c.isDigit) : digitVal c ≤ 9 := by
  simp only [Char.isDigit, Bool.and_eq_true, decide_eq_true_eq] at h
  have h9 : c.toNat ≤ 57 := h.2
  have h0 : '0'.toNat = 48 := rfl
  rw [digitVal, h0]
  omega

/-- An optional sign; `true` for `-`. -/
@[grind] def readSign : Text → Bool × Text
  | '-' :: p => (true, p)
  | '+' :: p => (false, p)
  | p => (false, p)

/-- The digits behind an optional point, and the rest. -/
@[grind] def readDecimals : Text → Text × Text
  | '.' :: p => (p.takeWhile Char.isDigit, p.dropWhile Char.isDigit)
  | p => ([], p)

/-- The optional exponent: its signed value and the rest. An `e` without digits is read as a zero
exponent. -/
@[grind] def readExponent : Text → ℤ × Text
  | c :: p =>
    if c = 'e' ∨ c = 'E' then
      let (negative, p) := readSign p
      let n := digitsVal (p.takeWhile Char.isDigit)
      (if negative then -n else n, p.dropWhile Char.isDigit)
    else (0, c :: p)
  | [] => (0, [])

lemma readSign_suffix (p : Text) : (readSign p).2 <:+ p := by
  unfold readSign
  split
  · exact List.suffix_cons _ _
  · exact List.suffix_cons _ _
  · exact List.suffix_refl _

lemma readDecimals_suffix (p : Text) : (readDecimals p).2 <:+ p := by
  unfold readDecimals
  split
  · exact (List.dropWhile_suffix _).trans (List.suffix_cons _ _)
  · exact List.suffix_refl _

lemma readExponent_suffix (p : Text) : (readExponent p).2 <:+ p := by
  cases p with
  | nil => exact List.suffix_refl _
  | cons c p =>
    simp only [readExponent]
    split
    · exact ((List.dropWhile_suffix _).trans (readSign_suffix p)).trans (List.suffix_cons _ _)
    · exact List.suffix_refl _

/-- `rrd_strtod`: the number at the front of the string and the rest of the string, or `none` when
`endptr` is left at the start (no digits, or an exponent outside `DBL_MIN_EXP .. DBL_MAX_EXP`). The
exponent is summed up in an `int`, which comes to one conversion at the end. -/
@[grind] def rrdStrtod (str : Text) : Option (ℚ × Text) :=
  let p := str.dropWhile isSpace
  let (negative, p) := readSign p
  let whole := p.takeWhile Char.isDigit
  let p := p.dropWhile Char.isDigit
  let (decimals, p) := readDecimals p
  if (whole ++ decimals).isEmpty then none
  else
    let number : ℚ := digitsVal (whole ++ decimals)
    let number := if negative then -number else number
    let (e, p) := readExponent p
    let exponent := s32 (e - decimals.length)
    if exponent < -1021 ∨ 1024 < exponent then none
    else some (number * (10 : ℚ) ^ exponent, p)

lemma s32_zero : s32 0 = 0 := rfl

/-- `strncasecmp (str, word, strlen word) == 0`. -/
@[grind] def hasPrefixCI (word str : Text) : Bool :=
  (str.take word.length).map Char.toLower == word

/-- `parse_special`: the spellings of `nan` and `inf` at the front of the string. -/
@[grind] def parseSpecial (str : Text) : Option RrdValue :=
  if hasPrefixCI ['-', 'n', 'a', 'n'] str then some .nan
  else if hasPrefixCI ['n', 'a', 'n'] str then some .nan
  else if hasPrefixCI ['i', 'n', 'f'] str then some .pinf
  else if hasPrefixCI ['-', 'i', 'n', 'f'] str then some .ninf
  else none

/-- How far `rrd_strtodbl` got: its return codes 0, 1 and 2. -/
inductive Strtodbl where
  | notConverted
  | partly (v : ℚ) (rest : Text)
  | whole (v : RrdValue)
deriving DecidableEq

/-- `rrd_strtodbl`. -/
@[grind] def rrdStrtodbl (str : Text) : Strtodbl :=
  match rrdStrtod str with
  | none =>
    match parseSpecial str with
    | some v => .whole v
    | none => .notConverted
  | some (v, []) => .whole (.fin v)
  | some (v, rest) => .partly v rest

/-- The sign flag and the digits `rrd_diff` finds in one of its arguments: everything before the
first digit is skipped, and a `-` among it marks the number as negative. -/
@[grind] def diffOperand (s : Text) : Bool × Text :=
  let skipped := s.takeWhile fun c => !c.isDigit
  (skipped.contains '-', (s.dropWhile fun c => !c.isDigit).takeWhile Char.isDigit)

/-- The subtraction loop of `rrd_diff` on the pairs of digits from the least significant one, with
the borrow `c`: the digits of the result and the last borrow. -/
@[grind] def diffLoop : List (ℕ × ℕ) → ℤ → List ℕ × ℤ
  | [], c => ([], c)
  | (a, b) :: ps, c =>
    let r : ℤ := a - c - b
    let (ds, c') := diffLoop ps (if r < 0 then 1 else 0)
    ((if r < 0 then r + 10 else r).toNat :: ds, c')

/-- The digits of both operands from the least significant one, up to the length of the longer; the
branches of the loop for an exhausted operand read its digit as zero. -/
@[grind] def diffDigits (a b : Text) : List (ℕ × ℕ) :=
  let m := max a.length b.length
  let pad (s : Text) := s.reverse.map digitVal ++ List.replicate (m - s.length) 0
  (pad a).zip (pad b)

/-- The ten's complement loop of `rrd_diff`, with the carry `c`. -/
@[grind] def complementLoop : List ℕ → ℤ → List ℕ
  | [], _ => []
  | d :: ds, c =>
    let r : ℤ := 9 - d + c
    (if 9 < r then r - 10 else r).toNat :: complementLoop ds (if 9 < r then 1 else 0)

/-- The number a list of digits denotes, least significant first. -/
@[grind] def ofDigitsLe : List ℕ → ℕ
  | [] => 0
  | d :: ds => d + 10 * ofDigitsLe ds

/-- `LAST_DS_LEN`: the size of the `last_ds` field. -/
def lastDsLen : ℕ := 30

/-- `rrd_diff`: the difference of two decimal integers. -/
def rrdDiff (a b : Text) : RrdValue :=
  let (aNeg, a) := diffOperand a
  let (bNeg, b) := diffOperand b
  if a = [] ∨ b = [] then .nan
  else if aNeg ≠ bNeg then .nan
  else if lastDsLen < max a.length b.length then .nan
  else
    let (ds, c) := diffLoop (diffDigits a b) 0
    let result : ℚ := if c = 0 then ofDigitsLe ds else -(ofDigitsLe (complementLoop ds c))
    .fin (if aNeg ∧ bNeg then -result else result)

example : rrdStrtodbl ['-', '1', '2', '.', '5', 'e', '1'] = .whole (.fin (-125)) := by decide +kernel

example : rrdDiff ['1', '0', '0', '5'] ['9', '8'] = .fin 907 := by decide +kernel

example : rrdDiff ['9', '8'] ['1', '0', '0', '5'] = .fin (-907) := by decide +kernel

end Rrdtool
