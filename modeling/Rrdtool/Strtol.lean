import Mathlib.Data.List.TakeWhile
import Rrdtool.Strtod
import Rrdtool.Lib.CInt

/-!
# Integers as text

`strtol` of the C library, and the decimal text that `%lu` and `%d` print. A number that was printed
is read back (`strtol_ulong`, `strtol_decimal`).
-/

namespace Rrdtool

/-- `%lu`, as `buffer_add_ulong` prints it. -/
def ulong (n : ℕ) : Text := (toString n).toList

/-- `%d`. -/
@[grind] def decimal (n : ℤ) : Text := if n < 0 then '-' :: ulong n.natAbs else ulong n.natAbs

/-- The value of a digit of a base up to 16. -/
@[grind] def digitOf (c : Char) : Option ℕ :=
  if c.isDigit then some (c.toNat - '0'.toNat)
  else if 'a' ≤ c ∧ c ≤ 'f' then some (c.toNat - 'a'.toNat + 10)
  else if 'A' ≤ c ∧ c ≤ 'F' then some (c.toNat - 'A'.toNat + 10)
  else none

/-- A digit of the base. -/
@[grind] def isDigitOf (base : ℕ) (c : Char) : Bool := (digitOf c).any (· < base)

/-- The base that the text has when it is not given, and what follows its mark. -/
@[grind] def readBase : Text → ℕ × Text
  | '0' :: x :: c :: p =>
    if (x = 'x' ∨ x = 'X') ∧ isDigitOf 16 c then (16, c :: p) else (8, '0' :: x :: c :: p)
  | '0' :: p => (8, '0' :: p)
  | p => (10, p)

/-- The number at the front of the text, in base 10 or, with base 0, in the base that it has, and the
text behind it. -/
@[grind] def readInteger (base : ℕ) (p : Text) : Option (ℕ × Text) :=
  let (base, p) := if base = 0 then readBase p else (base, p)
  let digits := p.takeWhile (isDigitOf base)
  if digits = [] then none
  else
    some (digits.foldl (fun n c => n * base + (digitOf c).getD 0) 0, p.dropWhile (isDigitOf base))

/-- `strtol` before the value is brought into the range of `long`: the value and the text behind it, or
`none` when there are no digits. -/
@[grind] def strtol (base : ℕ) (str : Text) : Option (ℤ × Text) :=
  let (negative, p) := readSign (str.dropWhile isSpace)
  (readInteger base p).map fun (v, rest) => (if negative then -(v : ℤ) else v, rest)

/-- The value `strtol` returns, at the ends of the range for one that does not fit. -/
@[grind] def toLong (v : ℤ) : ℤ := max (-2 ^ 63) (min v (2 ^ 63 - 1))

/-- `atoi`: a text without digits gives 0. -/
@[grind] def atoi (str : Text) : ℤ := s32 (((strtol 10 str).map fun (v, _) => toLong v).getD 0)

/-- `atol`. -/
def atol (str : Text) : ℤ := toLong (((strtol 10 str).map (·.1)).getD 0)

/-! ### Numbers that were printed -/

lemma ulong_eq_toDigits (n : ℕ) : ulong n = Nat.toDigits 10 n := Nat.toList_repr

lemma ulong_ne_nil (n : ℕ) : ulong n ≠ [] := by
  rw [ulong_eq_toDigits]
  exact Nat.toDigits_ne_nil

lemma isDigit_of_mem_ulong {n : ℕ} {c : Char} (h : c ∈ ulong n) : c.isDigit := by
  rw [ulong_eq_toDigits] at h
  exact Nat.isDigit_of_mem_toDigits (by decide) (by decide) h

lemma isDigitOf_of_isDigit {c : Char} (h : c.isDigit) : isDigitOf 10 c := by
  have hrange := Char.isDigit_iff_toNat.1 h
  have h0 : '0'.toNat = 48 := rfl
  have h9 : '9'.toNat = 57 := rfl
  simp only [isDigitOf, digitOf, h, if_true, Option.any_some, decide_eq_true_eq, h0]
  omega

lemma isSpace_of_isDigit {c : Char} (h : c.isDigit) : isSpace c = false := by
  refine Bool.eq_false_iff.2 fun hspace => ?_
  simp only [isSpace, Bool.or_eq_true, decide_eq_true_eq] at hspace
  obtain ((((rfl | rfl) | rfl) | rfl) | rfl) | rfl := hspace <;> exact absurd h (by decide)

/-- The digits of a printed number denote it. -/
lemma foldl_ulong (n : ℕ) :
    (ulong n).foldl (fun n c => n * 10 + (digitOf c).getD 0) 0 = n := by
  have hfold : ∀ (ds : Text) (v : ℕ), (∀ c ∈ ds, c.isDigit) →
      ds.foldl (fun n c => n * 10 + (digitOf c).getD 0) v = Nat.ofDigitChars 10 ds v := by
    intro ds
    induction ds with
    | nil => exact fun _ _ => rfl
    | cons c ds ih =>
      intro v hds
      have hc : (digitOf c).getD 0 = c.toNat - '0'.toNat := by
        simp [digitOf, hds c List.mem_cons_self]
      rw [List.foldl_cons, hc, ih _ fun d hd => hds d (List.mem_cons_of_mem c hd)]
      rw [Nat.ofDigitChars_cons, Nat.mul_comm]
  rw [hfold _ _ fun c hc => isDigit_of_mem_ulong hc, ulong_eq_toDigits]
  exact Nat.ofDigitChars_ten_toDigits

/-- A positive number is printed without a leading zero. -/
lemma head_ulong_ne_zero {n : ℕ} (hn : 0 < n) : (ulong n).head? ≠ some '0' := by
  simp only [ulong_eq_toDigits]
  induction n using Nat.strong_induction_on with
  | _ n ih =>
    obtain hlt | hle := Nat.lt_or_ge n 10
    · rw [Nat.toDigits_of_lt_base hlt]
      interval_cases n <;> decide
    · rw [Nat.toDigits_of_base_le (by decide) hle, List.head?_append_of_ne_nil _ Nat.toDigits_ne_nil]
      exact ih (n / 10) (by omega) (by omega)

/-- The base of a printed number is found. -/
lemma readBase_ulong {n : ℕ} {rest : Text} (hn : 0 < n) :
    readBase (ulong n ++ rest) = (10, ulong n ++ rest) := by
  have hne := head_ulong_ne_zero hn
  obtain ⟨c, ds, hds⟩ := List.exists_cons_of_ne_nil (ulong_ne_nil n)
  rw [hds] at hne ⊢
  unfold readBase
  split
  · simp_all
  · simp_all
  · rfl

/-- What `strtol` stops at behind a number. -/
@[grind] def Stops (rest : Text) : Prop := rest.head?.all fun c => c = ' '

lemma takeWhile_ulong {n : ℕ} {rest : Text} (h : Stops rest) :
    (ulong n ++ rest).takeWhile (isDigitOf 10) = ulong n ∧
      (ulong n ++ rest).dropWhile (isDigitOf 10) = rest := by
  have hdigits : ∀ c ∈ ulong n, isDigitOf 10 c := fun c hc =>
    isDigitOf_of_isDigit (isDigit_of_mem_ulong hc)
  rw [List.takeWhile_append_of_pos hdigits, List.dropWhile_append_of_pos hdigits]
  cases rest with
  | nil => simp
  | cons c rest =>
    have hc : c = ' ' := by simpa [Stops] using h
    subst hc
    have hblank : isDigitOf 10 ' ' = false := by decide
    simp [hblank]

/-- A zero is read as an octal number. -/
lemma readInteger_zero {rest : Text} (h : Stops rest) :
    readInteger 0 (ulong 0 ++ rest) = some (0, rest) := by
  have hblank : isDigitOf 8 ' ' = false := by decide
  have hzero : isDigitOf 8 '0' = true := by decide
  have hval : digitOf '0' = some 0 := by decide
  cases rest with
  | nil => rfl
  | cons c rest =>
    have hc : c = ' ' := by simpa [Stops] using h
    subst hc
    have hbase : readBase (ulong 0 ++ ' ' :: rest) = (8, '0' :: ' ' :: rest) := by
      cases rest <;> simp [readBase, ulong_eq_toDigits]
    simp [readInteger, hbase, hblank, hzero, hval]

lemma readInteger_ulong {n base : ℕ} {rest : Text} (hbase : base = 0 ∨ base = 10) (h : Stops rest) :
    readInteger base (ulong n ++ rest) = some (n, rest) := by
  -- base 10, given or found
  have hten : ∀ p : Text, (if base = 0 then readBase p else (base, p)) = (10, p) →
      p = ulong n ++ rest → readInteger base p = some (n, rest) := by
    rintro p hp rfl
    obtain ⟨htake, hdrop⟩ := takeWhile_ulong (n := n) h
    simp only [readInteger, hp, htake, hdrop, if_neg (ulong_ne_nil n), foldl_ulong]
  obtain rfl | rfl := hbase
  · obtain rfl | hn := Nat.eq_zero_or_pos n
    · exact readInteger_zero h
    · exact hten _ (by rw [if_pos rfl, readBase_ulong hn]) rfl
  · exact hten _ (if_neg (by decide)) rfl

/-- `strtol` on the digits that `%lu` printed. -/
lemma strtol_ulong {n base : ℕ} {rest : Text} (hbase : base = 0 ∨ base = 10) (h : Stops rest) :
    strtol base (ulong n ++ rest) = some ((n : ℤ), rest) := by
  obtain ⟨c, ds, hds⟩ := List.exists_cons_of_ne_nil (ulong_ne_nil n)
  have hc : c.isDigit := isDigit_of_mem_ulong (hds ▸ List.mem_cons_self)
  have hspace : (ulong n ++ rest).dropWhile isSpace = ulong n ++ rest := by
    rw [hds, List.cons_append, List.dropWhile_cons_of_neg (by simp [isSpace_of_isDigit hc])]
  have hsign : readSign (ulong n ++ rest) = (false, ulong n ++ rest) := by
    rw [hds, List.cons_append, readSign]
    · rintro p hp
      rw [(List.cons.inj hp).1] at hc
      exact absurd hc (by decide)
    · rintro p hp
      rw [(List.cons.inj hp).1] at hc
      exact absurd hc (by decide)
  simp only [strtol, hspace, hsign, readInteger_ulong hbase h]
  rfl

/-- `strtol` on what `%d` printed. -/
lemma strtol_decimal {n : ℤ} {base : ℕ} {rest : Text} (hbase : base = 0 ∨ base = 10)
    (h : Stops rest) : strtol base (decimal n ++ rest) = some (n, rest) := by
  unfold decimal
  split
  · have hsign : readSign (('-' :: ulong n.natAbs ++ rest).dropWhile isSpace) =
        (true, ulong n.natAbs ++ rest) := rfl
    simp only [strtol, hsign, readInteger_ulong hbase h, Option.map_some, if_true]
    congr 2
    omega
  · rw [strtol_ulong hbase h, Int.natAbs_of_nonneg (by omega)]

/-! ### Digits -/

lemma foldl_digitOf {digits : Text} (h : ∀ c ∈ digits, c.isDigit) :
    digits.foldl (fun n c => n * 10 + (digitOf c).getD 0) 0 = digitsVal digits := by
  have hfold : ∀ (ds : Text) (v : ℕ), (∀ c ∈ ds, c.isDigit) →
      ds.foldl (fun n c => n * 10 + (digitOf c).getD 0) v = ds.foldl (fun n c => n * 10 + digitVal c) v := by
    intro ds
    induction ds with
    | nil => exact fun _ _ => rfl
    | cons c ds ih =>
      intro v hds
      have hc : (digitOf c).getD 0 = digitVal c := by simp [digitOf, digitVal, hds c List.mem_cons_self]
      rw [List.foldl_cons, List.foldl_cons, hc, ih _ fun d hd => hds d (List.mem_cons_of_mem c hd)]
  exact hfold _ _ h

lemma digitsVal_ulong (n : ℕ) : digitsVal (ulong n) = n := by
  rw [← foldl_digitOf fun c hc => isDigit_of_mem_ulong hc]
  exact foldl_ulong n

lemma strtol_digits {digits : Text} (hne : digits ≠ []) (h : ∀ c ∈ digits, c.isDigit) :
    strtol 10 digits = some ((digitsVal digits : ℤ), []) := by
  have htake : digits.takeWhile (isDigitOf 10) = digits :=
    List.takeWhile_eq_self_iff.2 fun c hc => isDigitOf_of_isDigit (h c hc)
  have hdrop : digits.dropWhile (isDigitOf 10) = [] :=
    List.dropWhile_eq_nil_iff.2 fun c hc => isDigitOf_of_isDigit (h c hc)
  have hsign : readSign (digits.dropWhile isSpace) = (false, digits) := by
    obtain ⟨c, ds, rfl⟩ := List.exists_cons_of_ne_nil hne
    have hc := h c List.mem_cons_self
    rw [List.dropWhile_cons_of_neg (by rw [isSpace_of_isDigit hc]; decide), readSign]
    · rintro p hp
      rw [(List.cons.inj hp).1] at hc
      exact absurd hc (by decide)
    · rintro p hp
      rw [(List.cons.inj hp).1] at hc
      exact absurd hc (by decide)
  have hread : readInteger 10 digits = some (digitsVal digits, []) := by
    simp only [readInteger, OfNat.ofNat_ne_zero, reduceIte, htake, hdrop, if_neg hne, foldl_digitOf h]
  simp only [strtol, hsign, hread]
  rfl

lemma atoi_digits {digits : Text} (hne : digits ≠ []) (h : ∀ c ∈ digits, c.isDigit) :
    atoi digits = s32 (toLong (digitsVal digits)) := by
  rw [atoi, strtol_digits hne h]
  rfl

lemma atol_digits {digits : Text} (hne : digits ≠ []) (h : ∀ c ∈ digits, c.isDigit) :
    atol digits = toLong (digitsVal digits) := by
  rw [atol, strtol_digits hne h]
  rfl

end Rrdtool
