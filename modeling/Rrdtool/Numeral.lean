import Mathlib.Data.List.TakeWhile
import Rrdtool.Strtol

/-!
# Decimal numbers

What a decimal number is, and when `rrd_strtodbl` recognises one. The scan takes the marker of an exponent before it has
seen a digit of it, compares the exponent as an `int` with the range of a double, and finds a special word by its first
letters.
-/

namespace Rrdtool

/-- An optional sign, and whether it is negative. -/
inductive SignPart : Text → Bool → Prop where
  | absent : SignPart [] false
  | plus : SignPart ['+'] false
  | minus : SignPart ['-'] true

/-- An optional fraction, and its digits. -/
inductive FractionPart : Text → Text → Prop where
  | absent : FractionPart [] []
  | point {decimals : Text} : (∀ c ∈ decimals, c.isDigit) → FractionPart ('.' :: decimals) decimals

/-- An optional exponent, and its value. -/
inductive ExponentPart : Text → ℤ → Prop where
  | absent : ExponentPart [] 0
  | marked {marker : Char} {sign digits : Text} {negative : Bool} : (marker = 'e' ∨ marker = 'E') →
    SignPart sign negative → digits ≠ [] → (∀ c ∈ digits, c.isDigit) →
    ExponentPart (marker :: (sign ++ digits)) (if negative then -digitsVal digits else digitsVal digits)

/-- The number that the digits in front of the exponent denote without their point. -/
def significand (negative : Bool) (digits : Text) : ℚ := if negative then -digitsVal digits else digitsVal digits

/-- A decimal number: its significand, and the power of ten to scale it by. -/
inductive DecimalNumber : Text → ℚ → ℤ → Prop where
  | mk {blanks sign whole fraction decimals exponent : Text} {negative : Bool} {e : ℤ} : (∀ c ∈ blanks, isSpace c) →
    SignPart sign negative → (∀ c ∈ whole, c.isDigit) → FractionPart fraction decimals → whole ++ decimals ≠ [] →
    ExponentPart exponent e →
    DecimalNumber (blanks ++ (sign ++ (whole ++ (fraction ++ exponent)))) (significand negative (whole ++ decimals))
      (e - decimals.length)

/-- The words for what is not a number and for the infinities, in capital or in small letters. -/
inductive SpecialWord (s : Text) : RrdValue → Prop where
  | nan : s.map Char.toLower = ['n', 'a', 'n'] → SpecialWord s .nan
  | minusNan : s.map Char.toLower = ['-', 'n', 'a', 'n'] → SpecialWord s .nan
  | inf : s.map Char.toLower = ['i', 'n', 'f'] → SpecialWord s .pinf
  | minusInf : s.map Char.toLower = ['-', 'i', 'n', 'f'] → SpecialWord s .ninf

def IsNumber (s : Text) : Prop := (∃ q e, DecimalNumber s q e) ∨ ∃ v, SpecialWord s v

/-- The value of a number whose exponent fits in an `int`, and of a special word. -/
inductive Denotes (s : Text) : RrdValue → Prop where
  | number {q : ℚ} {e : ℤ} : DecimalNumber s q e → -2 ^ 31 ≤ e → e < 2 ^ 31 → Denotes s (.fin (q * 10 ^ e))
  | word {v : RrdValue} : SpecialWord s v → Denotes s v

/-- What the text in front of an exponent is made of, as `rrd_strtod` scans it. -/
structure Mantissa where
  negative : Bool
  whole : Text
  decimals : Text
  rest : Text

@[grind] def Mantissa.digits (m : Mantissa) : Text := m.whole ++ m.decimals

@[grind] def scanMantissa (s : Text) : Mantissa :=
  let p := s.dropWhile isSpace
  let (negative, p) := readSign p
  let whole := p.takeWhile Char.isDigit
  let (decimals, rest) := readDecimals (p.dropWhile Char.isDigit)
  { negative, whole, decimals, rest }

@[grind] def hasMarker : Text → Bool
  | c :: _ => c = 'e' || c = 'E'
  | [] => false

/-- The digits behind the marker of an exponent. -/
@[grind] def exponentDigits (p : Text) : Text := (readSign p.tail).2.takeWhile Char.isDigit

/-- The exponent at which a decimal number ends: one that has digits. -/
@[grind] def readFullExponent (p : Text) : ℤ × Text := if hasMarker p ∧ exponentDigits p = [] then (0, p) else readExponent p

/-- The scan takes nothing that is not part of a number: behind the marker of an exponent there are digits, the exponent is,
as an `int`, one of a double, and nothing follows the letters of a special word. -/
def ScansInFull (s : Text) : Prop :=
  let m := scanMantissa s
  if m.digits = [] then ∀ v, parseSpecial s = some v → SpecialWord s v
  else (hasMarker m.rest → exponentDigits m.rest ≠ []) ∧ -1021 ≤ s32 ((readExponent m.rest).1 - m.decimals.length) ∧
    s32 ((readExponent m.rest).1 - m.decimals.length) ≤ 1024

/-- The verdict on a text is exact. -/
structure RecognisedExactly (s : Text) : Prop where
  whole : (∃ v, rrdStrtodbl s = .whole v) ↔ IsNumber s
  value : ∀ v, rrdStrtodbl s = .whole v → ∀ w, Denotes s w → v = w
  partly : (∃ v rest, rrdStrtodbl s = .partly v rest) ↔ ¬ IsNumber s ∧ ∃ t u, s = t ++ u ∧ IsNumber t
  endptr : ∀ v rest, rrdStrtodbl s = .partly v rest →
    ∃ t, s = t ++ rest ∧ IsNumber t ∧ ∀ t' u, s = t' ++ u → IsNumber t' → t'.length ≤ t.length

section Scan

variable {s t u p digits sign fraction exponent : Text} {c marker : Char} {negative : Bool} {e : ℤ} {q : ℚ}

lemma rrdStrtod_eq (s : Text) :
    rrdStrtod s =
      let m := scanMantissa s
      if m.digits.isEmpty then none
      else
        let exponent := s32 ((readExponent m.rest).1 - m.decimals.length)
        if exponent < -1021 ∨ 1024 < exponent then none
        else some (significand m.negative m.digits * (10 : ℚ) ^ exponent, (readExponent m.rest).2) := by
  rfl

lemma scanMantissa_rest (s : Text) :
    (scanMantissa s).rest = (readDecimals ((readSign (s.dropWhile isSpace)).2.dropWhile Char.isDigit)).2 := rfl

/-! ### What is scanned is a number -/

lemma readSign_sound (p : Text) : ∃ sign, p = sign ++ (readSign p).2 ∧ SignPart sign (readSign p).1 := by
  unfold readSign
  split
  · exact ⟨['-'], rfl, .minus⟩
  · exact ⟨['+'], rfl, .plus⟩
  · exact ⟨[], rfl, .absent⟩

lemma readDecimals_sound (p : Text) :
    ∃ fraction, p = fraction ++ (readDecimals p).2 ∧ FractionPart fraction (readDecimals p).1 := by
  unfold readDecimals
  split
  · rename_i p
    refine ⟨'.' :: p.takeWhile Char.isDigit, ?_, .point fun _ => List.mem_takeWhile_imp⟩
    rw [List.cons_append, List.takeWhile_append_dropWhile]
  · exact ⟨[], rfl, .absent⟩

lemma readFullExponent_sound (p : Text) :
    ∃ exponent, p = exponent ++ (readFullExponent p).2 ∧ ExponentPart exponent (readFullExponent p).1 := by
  unfold readFullExponent
  split
  · exact ⟨[], rfl, .absent⟩
  · rename_i h
    cases p with
    | nil => exact ⟨[], rfl, .absent⟩
    | cons c p =>
      simp only [readExponent]
      split
      · rename_i hc
        have hdigits : exponentDigits (c :: p) ≠ [] := fun hnil => h ⟨by simpa [hasMarker] using hc, hnil⟩
        obtain ⟨sign, hp, hsign⟩ := readSign_sound p
        refine ⟨c :: (sign ++ exponentDigits (c :: p)), ?_, .marked hc hsign hdigits fun _ => List.mem_takeWhile_imp⟩
        dsimp only
        rw [List.cons_append, List.append_assoc]
        congr 1
        unfold exponentDigits
        rw [List.tail_cons, List.takeWhile_append_dropWhile]
        exact hp
      · exact ⟨[], rfl, .absent⟩

/-- The digits found, a number ends where they and a full exponent do. -/
lemma scanMantissa_sound (hdigits : (scanMantissa s).digits ≠ []) :
    ∃ t, s = t ++ (readFullExponent (scanMantissa s).rest).2 ∧
      DecimalNumber t (significand (scanMantissa s).negative (scanMantissa s).digits)
        ((readFullExponent (scanMantissa s).rest).1 - (scanMantissa s).decimals.length) := by
  obtain ⟨exponent, hrest, hexponent⟩ := readFullExponent_sound (scanMantissa s).rest
  obtain ⟨sign, hsigned, hsign⟩ := readSign_sound (s.dropWhile isSpace)
  obtain ⟨fraction, hpoint, hfraction⟩ :=
    readDecimals_sound ((readSign (s.dropWhile isSpace)).2.dropWhile Char.isDigit)
  have hblanks : ∀ c ∈ s.takeWhile isSpace, isSpace c := fun _ => List.mem_takeWhile_imp
  have hwhole : ∀ c ∈ (readSign (s.dropWhile isSpace)).2.takeWhile Char.isDigit, c.isDigit :=
    fun _ => List.mem_takeWhile_imp
  have hnumber := DecimalNumber.mk hblanks hsign hwhole hfraction hdigits hexponent
  refine ⟨_, ?_, hnumber⟩
  simp only [List.append_assoc]
  rw [← hrest, scanMantissa_rest, ← hpoint, List.takeWhile_append_dropWhile, ← hsigned, List.takeWhile_append_dropWhile]

/-! ### A number is scanned to its end -/

lemma ne_of_isDigit (h : c.isDigit) : c ≠ '-' ∧ c ≠ '+' ∧ c ≠ '.' := by
  refine ⟨?_, ?_, ?_⟩
  all_goals
    rintro rfl
    exact absurd h (by decide)

lemma readSign_complete (hsign : SignPart sign negative) (hp : ∀ c ∈ p.head?, c ≠ '-' ∧ c ≠ '+') :
    readSign (sign ++ p) = (negative, p) := by
  cases hsign with
  | plus => rfl
  | minus => rfl
  | absent =>
    cases p with
    | nil => rfl
    | cons c p =>
      obtain ⟨hminus, hplus⟩ := hp c rfl
      rw [List.nil_append, readSign]
      · exact fun _ h => hminus (List.cons.inj h).1
      · exact fun _ h => hplus (List.cons.inj h).1

lemma readFullExponent_suffix (p : Text) : (readFullExponent p).2 <:+ p := by
  unfold readFullExponent
  split
  · exact List.suffix_refl _
  · exact readExponent_suffix p

lemma readFullExponent_complete (h : ExponentPart (marker :: p) e) (u : Text) :
    (readFullExponent (marker :: (p ++ u))).2 <:+ u ∧ (u = [] → (readFullExponent (marker :: (p ++ u))).1 = e) := by
  cases h with
  | @marked _ sign digits negative hmarker hsign hne hdigits =>
    have hhead : ∀ c ∈ (digits ++ u).head?, c ≠ '-' ∧ c ≠ '+' := by
      intro c hc
      cases digits with
      | nil => exact absurd rfl hne
      | cons d digits =>
        cases hc
        obtain ⟨hminus, hplus, -⟩ := ne_of_isDigit (hdigits c (List.mem_cons_self ..))
        exact ⟨hminus, hplus⟩
    have hread : readSign (sign ++ digits ++ u) = (negative, digits ++ u) := by
      rw [List.append_assoc]
      exact readSign_complete hsign hhead
    have htake : (digits ++ u).takeWhile Char.isDigit = digits ++ u.takeWhile Char.isDigit :=
      List.takeWhile_append_of_pos hdigits
    have hdrop : (digits ++ u).dropWhile Char.isDigit = u.dropWhile Char.isDigit :=
      List.dropWhile_append_of_pos hdigits
    have hfull : exponentDigits (marker :: (sign ++ digits ++ u)) ≠ [] := by
      unfold exponentDigits
      rw [List.tail_cons, hread]
      dsimp only
      rw [htake]
      exact List.append_ne_nil_of_left_ne_nil hne _
    unfold readFullExponent
    rw [if_neg fun h => hfull h.2]
    simp only [readExponent, if_pos hmarker, hread, htake, hdrop]
    refine ⟨List.dropWhile_suffix _, ?_⟩
    rintro rfl
    rw [List.takeWhile_nil, List.append_nil]

lemma marker_of_exponentPart (h : ExponentPart (marker :: p) e) : marker.isDigit = false ∧ marker ≠ '.' := by
  cases h with
  | marked hmarker =>
    obtain rfl | rfl := hmarker
    · exact ⟨by decide, by decide⟩
    · exact ⟨by decide, by decide⟩

lemma readDecimals_of_ne (h : c ≠ '.') (p : Text) : readDecimals (c :: p) = ([], c :: p) := by
  rw [readDecimals]
  exact fun _ heq => h (List.cons.inj heq).1

/-- What follows the digits in front of the point. -/
lemma readDecimals_complete {decimals tail : Text} (hfraction : FractionPart fraction decimals)
    (hexponent : ExponentPart exponent e) (htail : fraction ++ (exponent ++ u) = tail) :
    decimals <+: (readDecimals (tail.dropWhile Char.isDigit)).1 ∧
      (readFullExponent (readDecimals (tail.dropWhile Char.isDigit)).2).2 <:+ u ∧
      (u = [] → tail.takeWhile Char.isDigit = [] ∧ (readDecimals (tail.dropWhile Char.isDigit)).1 = decimals ∧
        (readFullExponent (readDecimals (tail.dropWhile Char.isDigit)).2).1 = e) := by
  subst htail
  cases hfraction with
  | absent =>
    rw [List.nil_append]
    cases exponent with
    | nil =>
      cases hexponent
      refine ⟨List.nil_prefix, ?_, ?_⟩
      · exact (readFullExponent_suffix _).trans ((readDecimals_suffix _).trans (List.dropWhile_suffix _))
      · rintro rfl
        exact ⟨rfl, rfl, rfl⟩
    | cons marker p =>
      obtain ⟨hdigit, hpoint⟩ := marker_of_exponentPart hexponent
      obtain ⟨hsuffix, hvalue⟩ := readFullExponent_complete hexponent u
      rw [List.cons_append, List.dropWhile_cons_of_neg (by rw [hdigit]; decide), readDecimals_of_ne hpoint,
        List.takeWhile_cons_of_neg (by rw [hdigit]; decide)]
      exact ⟨List.nil_prefix, hsuffix, fun hu => ⟨rfl, rfl, hvalue hu⟩⟩
  | point hdecimals =>
    rw [List.cons_append, List.dropWhile_cons_of_neg (by decide), List.takeWhile_cons_of_neg (by decide)]
    simp only [readDecimals]
    rw [List.takeWhile_append_of_pos hdecimals, List.dropWhile_append_of_pos hdecimals]
    cases exponent with
    | nil =>
      cases hexponent
      refine ⟨List.prefix_append _ _, (readFullExponent_suffix _).trans (List.dropWhile_suffix _), ?_⟩
      rintro rfl
      exact ⟨trivial, List.append_nil _, rfl⟩
    | cons marker p =>
      obtain ⟨hdigit, -⟩ := marker_of_exponentPart hexponent
      obtain ⟨hsuffix, hvalue⟩ := readFullExponent_complete hexponent u
      rw [List.cons_append, List.dropWhile_cons_of_neg (by rw [hdigit]; decide),
        List.takeWhile_cons_of_neg (by rw [hdigit]; decide), List.append_nil]
      exact ⟨List.prefix_refl _, hsuffix, fun hu => ⟨trivial, rfl, hvalue hu⟩⟩

/-- The digits of a number are scanned to the end, with what follows it; so is its exponent. -/
lemma scanMantissa_complete (h : DecimalNumber t q e) (u : Text) :
    (scanMantissa (t ++ u)).digits ≠ [] ∧ (readFullExponent (scanMantissa (t ++ u)).rest).2 <:+ u ∧
      (u = [] → significand (scanMantissa (t ++ u)).negative (scanMantissa (t ++ u)).digits = q ∧
        (readFullExponent (scanMantissa (t ++ u)).rest).1 - (scanMantissa (t ++ u)).decimals.length = e) := by
  cases h with
  | @mk blanks sign whole fraction decimals exponent negative e hblanks hsign hwhole hfraction hne hexponent =>
    obtain ⟨tail, htail⟩ : ∃ tail, fraction ++ (exponent ++ u) = tail := ⟨_, rfl⟩
    have hhead : ∀ c ∈ (whole ++ tail).head?, c.isDigit ∨ c = '.' := by
      intro c hc
      cases whole with
      | nil =>
        cases hfraction with
        | absent => exact absurd rfl hne
        | point =>
          subst htail
          cases hc
          exact .inr rfl
      | cons d whole =>
        cases hc
        exact .inl (hwhole c (List.mem_cons_self ..))
    have hsigned : readSign (sign ++ (whole ++ tail)) = (negative, whole ++ tail) := by
      apply readSign_complete hsign
      intro c hc
      obtain hdigit | rfl := hhead c hc
      · obtain ⟨hminus, hplus, -⟩ := ne_of_isDigit hdigit
        exact ⟨hminus, hplus⟩
      · exact ⟨by decide, by decide⟩
    have hstart : ∀ c ∈ (sign ++ (whole ++ tail)).head?, isSpace c = false := by
      intro c hc
      cases hsign with
      | plus =>
        cases hc
        rfl
      | minus =>
        cases hc
        rfl
      | absent =>
        obtain hdigit | rfl := hhead c hc
        · exact isSpace_of_isDigit hdigit
        · rfl
    have hblank : (blanks ++ (sign ++ (whole ++ tail))).dropWhile isSpace = sign ++ (whole ++ tail) := by
      rw [List.dropWhile_append_of_pos hblanks]
      cases hcs : sign ++ (whole ++ tail) with
      | nil => rfl
      | cons c cs =>
        rw [hcs] at hstart
        exact List.dropWhile_cons_of_neg (by rw [hstart c rfl]; decide)
    have hscan : scanMantissa (blanks ++ (sign ++ (whole ++ (fraction ++ exponent))) ++ u) =
        { negative, whole := whole ++ tail.takeWhile Char.isDigit,
          decimals := (readDecimals (tail.dropWhile Char.isDigit)).1,
          rest := (readDecimals (tail.dropWhile Char.isDigit)).2 } := by
      simp only [List.append_assoc, htail]
      simp only [scanMantissa, hblank, hsigned, List.takeWhile_append_of_pos hwhole, List.dropWhile_append_of_pos hwhole]
    obtain ⟨hdecs, hsuffix, hwholly⟩ := readDecimals_complete hfraction hexponent htail
    rw [hscan]
    refine ⟨?_, hsuffix, ?_⟩
    · intro hnil
      obtain ⟨hleft, hright⟩ := List.append_eq_nil_iff.1 hnil
      obtain ⟨hwnil, -⟩ := List.append_eq_nil_iff.1 hleft
      have hnil : (readDecimals (tail.dropWhile Char.isDigit)).1 = [] := hright
      rw [hnil] at hdecs
      exact hne (List.append_eq_nil_iff.2 ⟨hwnil, List.prefix_nil.1 hdecs⟩)
    · intro hu
      obtain ⟨hnil, hdecimals, hvalue⟩ := hwholly hu
      simp only [Mantissa.digits]
      rw [hnil, hdecimals, hvalue, List.append_nil]
      exact ⟨rfl, rfl⟩

/-! ### Special words -/

lemma not_isDigit_of_toLower (h : c.toLower = 'n' ∨ c.toLower = 'i') : c.isDigit = false := by
  by_contra hdigit
  rw [Bool.not_eq_false] at hdigit
  have hlower : c.toLower = c := by
    unfold Char.toLower
    apply dif_neg
    simp only [Char.isDigit, UInt32.le_iff_toNat_le, Bool.and_eq_true, decide_eq_true_eq, ge_iff_le] at hdigit ⊢
    have h9 : '9'.val.toNat = 57 := rfl
    have hA : 'A'.val.toNat = 65 := rfl
    omega
  rw [hlower] at h
  obtain rfl | rfl := h
  all_goals exact absurd hdigit (by decide)

lemma isSpace_of_toLower (h : c.toLower = 'n' ∨ c.toLower = 'i') : isSpace c = false := by
  refine Bool.eq_false_iff.2 fun hspace => ?_
  simp only [isSpace, Bool.or_eq_true, decide_eq_true_eq] at hspace
  obtain ((((rfl | rfl) | rfl) | rfl) | rfl) | rfl := hspace <;> exact absurd h (by decide)

/-- At the first letter of a word there are no digits to scan. -/
lemma no_digits_at_letter (h : c.toLower = 'n' ∨ c.toLower = 'i') (p : Text) :
    (c :: p).takeWhile Char.isDigit = [] ∧ (readDecimals ((c :: p).dropWhile Char.isDigit)).1 = [] := by
  have hdigit := not_isDigit_of_toLower h
  have hpoint : c ≠ '.' := by
    rintro rfl
    exact absurd h (by decide)
  rw [List.takeWhile_cons_of_neg (by rw [hdigit]; decide), List.dropWhile_cons_of_neg (by rw [hdigit]; decide),
    readDecimals_of_ne hpoint]
  exact ⟨rfl, rfl⟩

lemma scanMantissa_letter (h : c.toLower = 'n' ∨ c.toLower = 'i') (p : Text) : (scanMantissa (c :: p)).digits = [] := by
  obtain ⟨htake, hdrop⟩ := no_digits_at_letter h p
  have hsign : readSign (c :: p) = (false, c :: p) := by
    apply readSign_complete .absent
    intro d hd
    cases hd
    constructor
    all_goals
      rintro rfl
      exact absurd h (by decide)
  have hblank : (c :: p).dropWhile isSpace = c :: p :=
    List.dropWhile_cons_of_neg (by rw [isSpace_of_toLower h]; decide)
  simp only [Mantissa.digits, scanMantissa, hblank, hsign, htake, hdrop, List.append_nil]

lemma scanMantissa_minus_letter (h : c.toLower = 'n' ∨ c.toLower = 'i') (p : Text) :
    (scanMantissa ('-' :: c :: p)).digits = [] := by
  obtain ⟨htake, hdrop⟩ := no_digits_at_letter h p
  have hsign : readSign ('-' :: c :: p) = (true, c :: p) := rfl
  have hblank : ('-' :: c :: p).dropWhile isSpace = '-' :: c :: p := List.dropWhile_cons_of_neg (by decide)
  simp only [Mantissa.digits, scanMantissa, hblank, hsign, htake, hdrop, List.append_nil]

lemma eq_minus_of_toLower (h : c.toLower = '-') : c = '-' := by
  unfold Char.toLower at h
  split at h
  · rename_i hupper
    have hval := congrArg (fun d => d.val.toNat) h
    simp only [UInt32.toNat_add, UInt32.le_iff_toNat_le, ge_iff_le] at hval hupper
    have hA : 'A'.val.toNat = 65 := rfl
    have hZ : 'Z'.val.toNat = 90 := rfl
    have hshift : ('a'.val - 'A'.val).toNat = 32 := rfl
    have hminus : '-'.val.toNat = 45 := rfl
    omega
  · exact h

/-- Before a special word ends, no digit is scanned, and the word is found. -/
lemma scanMantissa_word {v : RrdValue} (h : SpecialWord t v) (u : Text) :
    (scanMantissa (t ++ u)).digits = [] ∧ parseSpecial (t ++ u) = some v := by
  cases h with
  | nan h =>
    obtain ⟨a, b, c, rfl, ha, hb, hc⟩ : ∃ a b c, t = [a, b, c] ∧ a.toLower = 'n' ∧ b.toLower = 'a' ∧ c.toLower = 'n' := by
      simpa [List.map_eq_cons_iff, and_assoc, eq_comm] using h
    exact ⟨scanMantissa_letter (.inl ha) _, by simp [parseSpecial, hasPrefixCI, ha, hb, hc]⟩
  | minusNan h =>
    obtain ⟨sign, a, b, c, rfl, hsign, ha, hb, hc⟩ : ∃ sign a b c, t = [sign, a, b, c] ∧ sign.toLower = '-' ∧
        a.toLower = 'n' ∧ b.toLower = 'a' ∧ c.toLower = 'n' := by
      simpa [List.map_eq_cons_iff, and_assoc, eq_comm] using h
    cases eq_minus_of_toLower hsign
    exact ⟨scanMantissa_minus_letter (.inl ha) _, by simp [parseSpecial, hasPrefixCI, ha, hb, hc, hsign]⟩
  | inf h =>
    obtain ⟨a, b, c, rfl, ha, hb, hc⟩ : ∃ a b c, t = [a, b, c] ∧ a.toLower = 'i' ∧ b.toLower = 'n' ∧ c.toLower = 'f' := by
      simpa [List.map_eq_cons_iff, and_assoc, eq_comm] using h
    exact ⟨scanMantissa_letter (.inr ha) _, by simp [parseSpecial, hasPrefixCI, ha, hb, hc]⟩
  | minusInf h =>
    obtain ⟨sign, a, b, c, rfl, hsign, ha, hb, hc⟩ : ∃ sign a b c, t = [sign, a, b, c] ∧ sign.toLower = '-' ∧
        a.toLower = 'i' ∧ b.toLower = 'n' ∧ c.toLower = 'f' := by
      simpa [List.map_eq_cons_iff, and_assoc, eq_comm] using h
    cases eq_minus_of_toLower hsign
    exact ⟨scanMantissa_minus_letter (.inr ha) _, by simp [parseSpecial, hasPrefixCI, ha, hb, hc, hsign]⟩

lemma word_of_parseSpecial {v : RrdValue} (h : parseSpecial s = some v) : ∃ t u, s = t ++ u ∧ SpecialWord t v := by
  have hsplit : ∀ word : Text, hasPrefixCI word s → ∃ t u, s = t ++ u ∧ t.map Char.toLower = word := by
    intro word hword
    exact ⟨s.take word.length, s.drop word.length, (List.take_append_drop _ _).symm, eq_of_beq hword⟩
  unfold parseSpecial at h
  split at h
  · rename_i hword
    obtain ⟨t, u, hs, ht⟩ := hsplit _ hword
    cases h
    exact ⟨t, u, hs, .minusNan ht⟩
  · split at h
    · rename_i hword
      obtain ⟨t, u, hs, ht⟩ := hsplit _ hword
      cases h
      exact ⟨t, u, hs, .nan ht⟩
    · split at h
      · rename_i hword
        obtain ⟨t, u, hs, ht⟩ := hsplit _ hword
        cases h
        exact ⟨t, u, hs, .inf ht⟩
      · split at h
        · rename_i hword
          obtain ⟨t, u, hs, ht⟩ := hsplit _ hword
          cases h
          exact ⟨t, u, hs, .minusInf ht⟩
        · cases h

/-! ### The verdict -/

/-- A number in front of a text whose digits are scanned ends no later than the scan. -/
lemma scanned_of_isNumber (hdigits : (scanMantissa s).digits ≠ []) (hs : s = t ++ u) (h : IsNumber t) :
    (readFullExponent (scanMantissa s).rest).2 <:+ u := by
  subst hs
  obtain ⟨q, e, h⟩ | ⟨v, h⟩ := h
  · exact (scanMantissa_complete h u).2.1
  · exact absurd (scanMantissa_word h u).1 hdigits

lemma word_of_isNumber (hdigits : (scanMantissa s).digits = []) (hs : s = t ++ u) (h : IsNumber t) :
    ∃ v, SpecialWord t v ∧ parseSpecial s = some v := by
  subst hs
  obtain ⟨q, e, h⟩ | ⟨v, h⟩ := h
  · exact absurd hdigits (scanMantissa_complete h u).1
  · exact ⟨v, h, (scanMantissa_word h u).2⟩

/-- Without digits, the verdict is exact when a special word is the whole text. -/
lemma recognised_iff_of_nil (hdigits : (scanMantissa s).digits = []) :
    RecognisedExactly s ↔ ∀ v, parseSpecial s = some v → SpecialWord s v := by
  have hstrtod : rrdStrtod s = none := by
    rw [rrdStrtod_eq]
    simp [hdigits]
  have hself : ∀ {w}, SpecialWord s w → parseSpecial s = some w := by
    intro w hw
    have h := (scanMantissa_word hw []).2
    rwa [List.append_nil] at h
  have hnumber : ∀ {q e}, ¬ DecimalNumber s q e := by
    intro q e h
    have hne := (scanMantissa_complete h []).1
    rw [List.append_nil] at hne
    exact hne hdigits
  cases hspecial : parseSpecial s with
  | none =>
    have hverdict : rrdStrtodbl s = .notConverted := by
      unfold rrdStrtodbl
      rw [hstrtod, hspecial]
    have hnone : ∀ {t u}, s = t ++ u → ¬ IsNumber t := by
      intro t u hs h
      obtain ⟨v, -, hv⟩ := word_of_isNumber hdigits hs h
      rw [hspecial] at hv
      cases hv
    constructor
    · intro _ v hv
      cases hv
    · intro _
      refine ⟨⟨?_, ?_⟩, ?_, ⟨?_, ?_⟩, ?_⟩
      · rintro ⟨v, hv⟩
        rw [hverdict] at hv
        cases hv
      · intro h
        exact absurd h (hnone (List.append_nil s).symm)
      · intro v hv
        rw [hverdict] at hv
        cases hv
      · rintro ⟨v, rest, hv⟩
        rw [hverdict] at hv
        cases hv
      · rintro ⟨-, t, u, hs, h⟩
        exact absurd h (hnone hs)
      · intro v rest hv
        rw [hverdict] at hv
        cases hv
  | some v =>
    have hverdict : rrdStrtodbl s = .whole v := by
      unfold rrdStrtodbl
      rw [hstrtod, hspecial]
    constructor
    · intro h w hw
      cases hw
      obtain ⟨q, e, hq⟩ | ⟨w, hw⟩ := h.whole.1 ⟨v, hverdict⟩
      · exact absurd hq hnumber
      · have heq := hself hw
        rw [hspecial] at heq
        cases heq
        exact hw
    · intro h
      have hword := h v rfl
      refine ⟨⟨fun _ => .inr ⟨v, hword⟩, fun _ => ⟨v, hverdict⟩⟩, ?_, ⟨?_, ?_⟩, ?_⟩
      · intro v' hv w hw
        rw [hverdict] at hv
        cases hv
        cases hw with
        | number hq => exact absurd hq hnumber
        | word hw =>
          have heq := hself hw
          rw [hspecial] at heq
          exact Option.some.inj heq
      · rintro ⟨v, rest, hv⟩
        rw [hverdict] at hv
        cases hv
      · rintro ⟨hn, -⟩
        exact absurd (.inr ⟨v, hword⟩) hn
      · intro v rest hv
        rw [hverdict] at hv
        cases hv

lemma parseSpecial_of_digits (hdigits : (scanMantissa s).digits ≠ []) : parseSpecial s = none := by
  cases hspecial : parseSpecial s with
  | none => rfl
  | some v =>
    obtain ⟨t, u, rfl, hword⟩ := word_of_parseSpecial hspecial
    exact absurd (scanMantissa_word hword u).1 hdigits

/-- The verdict, the digits found. -/
lemma rrdStrtodbl_of_digits (hdigits : (scanMantissa s).digits ≠ []) {x : ℤ}
    (hx : s32 ((readExponent (scanMantissa s).rest).1 - (scanMantissa s).decimals.length) = x) :
    rrdStrtodbl s =
      if -1021 ≤ x ∧ x ≤ 1024 then
        let v := significand (scanMantissa s).negative (scanMantissa s).digits * (10 : ℚ) ^ x
        if (readExponent (scanMantissa s).rest).2 = [] then .whole (.fin v)
        else .partly v (readExponent (scanMantissa s).rest).2
      else .notConverted := by
  unfold rrdStrtodbl
  rw [rrdStrtod_eq, parseSpecial_of_digits hdigits]
  dsimp only
  rw [if_neg (by simpa using hdigits), hx]
  by_cases hrange : -1021 ≤ x ∧ x ≤ 1024
  · rw [if_neg (by omega), if_pos hrange]
    cases hrest : (readExponent (scanMantissa s).rest).2 with
    | nil => rfl
    | cons c rest => rfl
  · rw [if_pos (by omega), if_neg hrange]

lemma length_readExponent_lt (h : hasMarker p) : (readExponent p).2.length < p.length := by
  cases p with
  | nil => cases h
  | cons c p =>
    have hmarker : c = 'e' ∨ c = 'E' := by simpa [hasMarker] using h
    have hle := ((List.dropWhile_suffix Char.isDigit).trans (readSign_suffix p)).length_le
    simp only [readExponent, if_pos hmarker, List.length_cons]
    omega

lemma recognised_of_scan (hdigits : (scanMantissa s).digits ≠ [])
    (hmarker : hasMarker (scanMantissa s).rest → exponentDigits (scanMantissa s).rest ≠ []) {x : ℤ}
    (hx : s32 ((readExponent (scanMantissa s).rest).1 - (scanMantissa s).decimals.length) = x)
    (hrange : -1021 ≤ x ∧ x ≤ 1024) : RecognisedExactly s := by
  have hfull : readFullExponent (scanMantissa s).rest = readExponent (scanMantissa s).rest :=
    if_neg fun h => hmarker h.1 h.2
  obtain ⟨t, hs, ht⟩ := scanMantissa_sound hdigits
  have hverdict := rrdStrtodbl_of_digits hdigits hx
  rw [if_pos hrange] at hverdict
  rw [hfull] at hs ht
  dsimp only at hverdict
  have hends : ∀ {t' u}, s = t' ++ u → IsNumber t' → (readExponent (scanMantissa s).rest).2 <:+ u := by
    intro t' u hs' h
    rw [← hfull]
    exact scanned_of_isNumber hdigits hs' h
  by_cases hrest : (readExponent (scanMantissa s).rest).2 = []
  · rw [if_pos hrest] at hverdict
    have hnumber : IsNumber s := by
      rw [hrest, List.append_nil] at hs
      rw [← hs] at ht
      exact .inl ⟨_, _, ht⟩
    refine ⟨⟨fun _ => hnumber, fun _ => ⟨_, hverdict⟩⟩, ?_, ⟨?_, ?_⟩, ?_⟩
    · intro v hv w hw
      rw [hverdict] at hv
      cases hv
      cases hw with
      | @number q e hq hlo hhi =>
        obtain ⟨-, -, hvalue⟩ := scanMantissa_complete hq []
        rw [List.append_nil, hfull] at hvalue
        obtain ⟨rfl, rfl⟩ := hvalue rfl
        rw [s32_of_mem hlo hhi] at hx
        rw [hx]
      | word hw =>
        have hnil := (scanMantissa_word hw []).1
        rw [List.append_nil] at hnil
        exact absurd hnil hdigits
    · rintro ⟨v, rest, hv⟩
      rw [hverdict] at hv
      cases hv
    · rintro ⟨hn, -⟩
      exact absurd hnumber hn
    · intro v rest hv
      rw [hverdict] at hv
      cases hv
  · rw [if_neg hrest] at hverdict
    have hnot : ¬ IsNumber s := fun h => hrest (List.suffix_nil.1 (hends (List.append_nil s).symm h))
    refine ⟨⟨?_, fun h => absurd h hnot⟩, ?_, ⟨fun _ => ⟨hnot, t, _, hs, .inl ⟨_, _, ht⟩⟩, fun _ => ⟨_, _, hverdict⟩⟩, ?_⟩
    · rintro ⟨v, hv⟩
      rw [hverdict] at hv
      cases hv
    · intro v hv
      rw [hverdict] at hv
      cases hv
    · intro v rest hv
      rw [hverdict] at hv
      cases hv
      refine ⟨t, hs, .inl ⟨_, _, ht⟩, ?_⟩
      intro t' u hs' h
      have hle := (hends hs' h).length_le
      have hlen := congrArg List.length hs
      have hlen' := congrArg List.length hs'
      rw [List.length_append] at hlen hlen'
      omega

lemma scan_of_recognised (hdigits : (scanMantissa s).digits ≠ []) (h : RecognisedExactly s) {x : ℤ}
    (hx : s32 ((readExponent (scanMantissa s).rest).1 - (scanMantissa s).decimals.length) = x) :
    (hasMarker (scanMantissa s).rest → exponentDigits (scanMantissa s).rest ≠ []) ∧ -1021 ≤ x ∧ x ≤ 1024 := by
  obtain ⟨t, hs, ht⟩ := scanMantissa_sound hdigits
  have hverdict := rrdStrtodbl_of_digits hdigits hx
  by_cases hrange : -1021 ≤ x ∧ x ≤ 1024
  · refine ⟨fun hmarker hnone => ?_, hrange⟩
    have hfull : readFullExponent (scanMantissa s).rest = (0, (scanMantissa s).rest) := if_pos ⟨hmarker, hnone⟩
    have hlt := length_readExponent_lt hmarker
    rw [if_pos hrange] at hverdict
    dsimp only at hverdict
    by_cases hrest : (readExponent (scanMantissa s).rest).2 = []
    · rw [if_pos hrest] at hverdict
      have hle := (scanned_of_isNumber hdigits (List.append_nil s).symm (h.whole.1 ⟨_, hverdict⟩)).length_le
      rw [hfull] at hle
      dsimp only [List.length_nil] at hle
      omega
    · rw [if_neg hrest] at hverdict
      obtain ⟨t', hs', ht', -⟩ := h.endptr _ _ hverdict
      have hle := (scanned_of_isNumber hdigits hs' ht').length_le
      rw [hfull] at hle
      dsimp only at hle
      omega
  · rw [if_neg hrange] at hverdict
    by_cases hnumber : IsNumber s
    · obtain ⟨v, hv⟩ := h.whole.2 hnumber
      rw [hverdict] at hv
      cases hv
    · obtain ⟨v, rest, hv⟩ := h.partly.2 ⟨hnumber, t, _, hs, .inl ⟨_, _, ht⟩⟩
      rw [hverdict] at hv
      cases hv

end Scan

/-- The verdict on a text is exact if and only if the scan takes what belongs to a number and nothing else. -/
theorem rrdStrtodbl_exact_iff (s : Text) : RecognisedExactly s ↔ ScansInFull s := by
  unfold ScansInFull
  dsimp only
  split
  · rename_i hdigits
    exact recognised_iff_of_nil hdigits
  · rename_i hdigits
    constructor
    · intro h
      exact scan_of_recognised hdigits h rfl
    · rintro ⟨hmarker, hrange⟩
      exact recognised_of_scan hdigits hmarker rfl hrange

/-- The marker of an exponent without digits counts as part of the number. -/
theorem rrdStrtodbl_marker : ¬ ∀ s, RecognisedExactly s := by
  intro h
  have hdigits : (scanMantissa ['1', 'e']).digits ≠ [] := by decide
  obtain ⟨hmarker, -⟩ := scan_of_recognised hdigits (h ['1', 'e']) rfl
  exact hmarker (by decide) (by decide)

end Rrdtool
