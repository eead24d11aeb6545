import Mathlib.Data.List.TakeWhile
import Rrdtool.Strtod
import Rrdtool.Lib.Checked

/-!
# The buffer of `rrd_diff`

`rrd_diff` of `src/rrd_diff.c` once more, now with the buffer `res` that it builds its result in: the digits of the
operands are subtracted as character codes from the right to the left, a negative result is complemented in a
second pass, and the string is read by `rrd_strtodbl`. Every access to the buffer is checked.

With a buffer that is large enough the digits are those of the difference (`rrdDiffRes_digits`), which is what
`rrdDiff` computes. The buffer has `LAST_DS_LEN + 1` bytes, and the result of two operands of `m` digits needs
`m + 3` (`rrdDiffRes_inside_iff`).
-/

namespace Rrdtool

open Checked

/-! ### The buffer -/

/-- An access outside of the buffer. -/
structure OutOfRes where
  index : ℕ
deriving DecidableEq

/-- `rrd_diff` reports no errors. -/
abbrev DiffM (α : Type) := Except (Stop Empty OutOfRes) α

/-- The buffer `res`: its size, and the codes of the characters in it. -/
@[ext]
structure Res where
  size : ℕ
  cells : ℕ → ℤ

/-- The buffer with another cell. -/
@[grind] def Res.set (res : Res) (i : ℕ) (v : ℤ) : Res := { res with cells := Function.update res.cells i v }

@[grind] def Res.write (res : Res) (i : ℕ) (v : ℤ) : DiffM Res :=
  if i < res.size then .ok (res.set i v) else .error (.fault ⟨i⟩)

@[grind] def Res.read (res : Res) (i : ℕ) : DiffM ℤ := if i < res.size then .ok (res.cells i) else .error (.fault ⟨i⟩)

/-- The code of a character. -/
@[grind] def code (c : Char) : ℤ := c.toNat

/-- `for (b1 = res; b1 <= r1; b1++) *b1 = ' '`, with `n` cells left. -/
def fillBlank : ℕ → ℕ → Res → DiffM Res
  | 0, _, res => .ok res
  | n + 1, i, res => do
    let res ← res.write i (code ' ')
    fillBlank n (i + 1) res

/-- The difference of two digits, before the borrow is looked at; an operand that is exhausted has no digit. -/
@[grind] def subtractCodes (c : ℤ) : Option Char → Option Char → ℤ
  | some a, some b => code a - c - code b + code '0'
  | some a, none => code a - c
  | none, b => code '0' - code (b.getD '0') - c + code '0'

/-- The loop that subtracts, with `n` digits left. The operands stand with their last digit in front, as the
pointers `a1` and `b1` run. -/
def subtractLoop : ℕ → Text → Text → ℕ → ℤ → Res → DiffM (Res × ℤ)
  | 0, _, _, _, c, res => .ok (res, c)
  | n + 1, a, b, r1, c, res => do
    let res ← res.write r1 (subtractCodes c a.head? b.head?)
    let v ← res.read r1
    if v < code '0' then
      let res ← res.write r1 (v + 10)
      subtractLoop n a.tail b.tail (r1 - 1) 1 res
    else if code '9' < v then
      let res ← res.write r1 (v - 10)
      subtractLoop n a.tail b.tail (r1 - 1) 1 res
    else subtractLoop n a.tail b.tail (r1 - 1) 0 res

/-- `isdigit`, of a code. -/
def isDigitCode (v : ℤ) : Bool := code '0' ≤ v ∧ v ≤ code '9'

/-- The loop that complements a negative result, with `n` digits left. The cell is read before `n` is looked at. -/
@[grind] def fixLoop : ℕ → ℕ → ℤ → Res → DiffM Res
  | 0, r1, _, res => do
    let _ ← res.read r1
    return res
  | n + 1, r1, c, res => do
    let v ← res.read r1
    if isDigitCode v then
      let v := code '9' - v + c + code '0'
      let res ← res.write r1 v
      if code '9' < v then
        let res ← res.write r1 (v - 10)
        fixLoop n (r1 - 1) 1 res
      else fixLoop n (r1 - 1) 0 res
    else return res

/-- The string that starts at `i`, of at most `n` characters. -/
@[grind] def readString (res : Res) : ℕ → ℕ → DiffM Text
  | 0, _ => .ok []
  | n + 1, i => do
    let v ← res.read i
    if v = 0 then return []
    else
      let s ← readString res n (i + 1)
      return Char.ofNat v.toNat :: s

/-- The string that is built for two operands of digits, and whether it stands for a negative number. -/
@[grind] def diffString (res : Res) (a b : Text) : DiffM (Text × Bool) := do
  let m := max a.length b.length
  let res ← fillBlank (m + 2) 0 res
  let res ← res.write (m + 1 + 1) 0
  let (res, c) ← subtractLoop m a.reverse b.reverse (m + 1) 0 res
  let res ← if c ≠ 0 then fixLoop m (m + 1) c res else .ok res
  let s ← readString res (res.size + 1) 0
  return (s, c ≠ 0)

/-- The number that a string denotes, `DNAN` if it is none. -/
def readResult (s : Text) : RrdValue :=
  match rrdStrtodbl s with
  | .whole v => v
  | _ => .nan

/-- `rrd_diff`, with the buffer as it is before. -/
@[grind] def rrdDiffRes (res : Res) (a b : Text) : DiffM RrdValue :=
  let (aNeg, a) := diffOperand a
  let (bNeg, b) := diffOperand b
  if a = [] ∨ b = [] then .ok .nan
  else if aNeg ≠ bNeg then .ok .nan
  else if lastDsLen < max a.length b.length then .ok .nan
  else do
    let (s, negative) ← diffString res a b
    let result := if negative then -readResult s else readResult s
    return if aNeg && bNeg then -result else result

/-! ### The digits of a difference -/

/-- The digits of the operands from the last one on; an operand that is exhausted has the digit zero. -/
@[grind] def digitPairs : ℕ → Text → Text → List (ℕ × ℕ)
  | 0, _, _ => []
  | n + 1, a, b => ((a.head?.map digitVal).getD 0, (b.head?.map digitVal).getD 0) :: digitPairs n a.tail b.tail

lemma length_digitPairs (n : ℕ) (a b : Text) : (digitPairs n a b).length = n := by
  induction n generalizing a b with
  | zero => rfl
  | succ n ih => exact congrArg (· + 1) (ih _ _)

lemma zip_padded {n : ℕ} {a b : Text} (ha : a.length ≤ n) (hb : b.length ≤ n) :
    (a.map digitVal ++ List.replicate (n - a.length) 0).zip (b.map digitVal ++ List.replicate (n - b.length) 0) =
      digitPairs n a b := by
  induction n generalizing a b with
  | zero =>
    obtain rfl := List.eq_nil_of_length_eq_zero (Nat.le_zero.1 ha)
    obtain rfl := List.eq_nil_of_length_eq_zero (Nat.le_zero.1 hb)
    rfl
  | succ n ih =>
    have hpad : ∀ s : Text, s.length ≤ n + 1 → s.map digitVal ++ List.replicate (n + 1 - s.length) 0 =
        (s.head?.map digitVal).getD 0 :: (s.tail.map digitVal ++ List.replicate (n - s.tail.length) 0) := by
      intro s hs
      cases s with
      | nil => rfl
      | cons c s => simp
    rw [hpad a ha, hpad b hb, List.zip_cons_cons, digitPairs, ih]
    · rw [List.length_tail]
      omega
    · rw [List.length_tail]
      omega

lemma diffDigits_eq (a b : Text) : diffDigits a b = digitPairs (max a.length b.length) a.reverse b.reverse := by
  have ha : a.reverse.length ≤ max a.length b.length := by
    rw [List.length_reverse]
    exact le_max_left _ _
  have hb : b.reverse.length ≤ max a.length b.length := by
    rw [List.length_reverse]
    exact le_max_right _ _
  have h := zip_padded ha hb
  rwa [List.length_reverse, List.length_reverse] at h

/-- All are decimal digits. -/
def DigitsOk (ps : List (ℕ × ℕ)) : Prop := ∀ p ∈ ps, p.1 ≤ 9 ∧ p.2 ≤ 9

lemma ofDigitsLe_lt {ds : List ℕ} (h : ∀ d ∈ ds, d ≤ 9) : ofDigitsLe ds < 10 ^ ds.length := by
  induction ds with
  | nil => exact Nat.one_pos
  | cons d ds ih =>
    have hd := h d List.mem_cons_self
    have hrest := ih fun e he => h e (List.mem_cons_of_mem d he)
    rw [ofDigitsLe, List.length_cons, pow_succ]
    omega

/-- The subtraction with borrow. -/
lemma diffLoop_spec {ps : List (ℕ × ℕ)} (h : DigitsOk ps) {c : ℤ} (hc : c = 0 ∨ c = 1) :
    (diffLoop ps c).1.length = ps.length ∧ (∀ d ∈ (diffLoop ps c).1, d ≤ 9) ∧
      ((diffLoop ps c).2 = 0 ∨ (diffLoop ps c).2 = 1) ∧
      (ofDigitsLe (diffLoop ps c).1 : ℤ) =
        ofDigitsLe (ps.map Prod.fst) - ofDigitsLe (ps.map Prod.snd) - c + (diffLoop ps c).2 * 10 ^ ps.length := by
  induction ps generalizing c with
  | nil =>
    refine ⟨rfl, fun d hd => (nomatch hd), hc, ?_⟩
    simp [diffLoop, ofDigitsLe]
  | cons p ps ih =>
    obtain ⟨a, b⟩ := p
    obtain ⟨ha, hb⟩ := h (a, b) List.mem_cons_self
    have hrest : DigitsOk ps := fun p hp => h p (List.mem_cons_of_mem _ hp)
    have hborrow : (if (a : ℤ) - c - b < 0 then (1 : ℤ) else 0) = 0 ∨ (if (a : ℤ) - c - b < 0 then (1 : ℤ) else 0) = 1 := by
      split
      · exact .inr rfl
      · exact .inl rfl
    obtain ⟨hlen, hdigits, hlast, hval⟩ := ih hrest hborrow
    simp only [diffLoop]
    refine ⟨congrArg (· + 1) hlen, ?_, hlast, ?_⟩
    · intro d hd
      obtain rfl | hd := List.mem_cons.1 hd
      · split <;> omega
      · exact hdigits d hd
    · simp only [ofDigitsLe, List.map_cons, List.length_cons, pow_succ, Nat.cast_add, Nat.cast_mul, hval]
      push_cast
      have ha' : (a : ℤ) ≤ 9 := by exact_mod_cast ha
      have hb' : (b : ℤ) ≤ 9 := by exact_mod_cast hb
      split
      · rw [Int.toNat_of_nonneg (by omega)]
        ring
      · rw [Int.toNat_of_nonneg (by omega)]
        ring

/-- The complement to the next power of ten. -/
lemma complementLoop_spec {ds : List ℕ} (h : ∀ d ∈ ds, d ≤ 9) {c : ℤ} (hc : c = 0 ∨ c = 1) :
    (complementLoop ds c).length = ds.length ∧ (∀ d ∈ complementLoop ds c, d ≤ 9) ∧
      (∃ k : ℤ, (k = 0 ∨ k = 1) ∧
        (ofDigitsLe (complementLoop ds c) : ℤ) = 10 ^ ds.length - 1 - ofDigitsLe ds + c - k * 10 ^ ds.length) := by
  induction ds generalizing c with
  | nil =>
    refine ⟨rfl, fun d hd => (nomatch hd), c, hc, ?_⟩
    simp [complementLoop, ofDigitsLe]
  | cons d ds ih =>
    have hd := h d List.mem_cons_self
    have hcarry : (if 9 < 9 - (d : ℤ) + c then (1 : ℤ) else 0) = 0 ∨ (if 9 < 9 - (d : ℤ) + c then (1 : ℤ) else 0) = 1 := by
      split
      · exact .inr rfl
      · exact .inl rfl
    obtain ⟨hlen, hdigits, k, hk, hval⟩ := ih (fun e he => h e (List.mem_cons_of_mem d he)) hcarry
    simp only [complementLoop]
    refine ⟨congrArg (· + 1) hlen, ?_, k, hk, ?_⟩
    · intro e he
      obtain rfl | he := List.mem_cons.1 he
      · split <;> omega
      · exact hdigits e he
    · simp only [ofDigitsLe, List.length_cons, pow_succ, Nat.cast_add, Nat.cast_mul, hval]
      push_cast
      have hd' : (d : ℤ) ≤ 9 := by exact_mod_cast hd
      split
      · rw [Int.toNat_of_nonneg (by omega)]
        ring
      · rw [Int.toNat_of_nonneg (by omega)]
        ring

lemma ofDigitsLe_append_zeros (ds : List ℕ) (k : ℕ) : ofDigitsLe (ds ++ List.replicate k 0) = ofDigitsLe ds := by
  induction ds with
  | nil =>
    induction k with
    | zero => rfl
    | succ k ih =>
      rw [List.nil_append] at ih ⊢
      show 0 + 10 * ofDigitsLe (List.replicate k 0) = 0
      rw [ih]
      rfl
  | cons d ds ih => rw [List.cons_append, ofDigitsLe, ih, ofDigitsLe]

/-- The value of a digit string, from its last digit on. -/
lemma ofDigitsLe_reverse (s : Text) : ofDigitsLe (s.reverse.map digitVal) = digitsVal s := by
  induction s using List.reverseRecOn with
  | nil => rfl
  | append_singleton s c ih =>
    rw [List.reverse_append, List.reverse_singleton, List.singleton_append, List.map_cons, ofDigitsLe, ih]
    simp only [digitsVal, List.foldl_append, List.foldl_cons, List.foldl_nil]
    omega

lemma head_digitVal_le {s : Text} (h : ∀ c ∈ s, c.isDigit) : (s.head?.map digitVal).getD 0 ≤ 9 := by
  cases s with
  | nil => exact Nat.zero_le 9
  | cons c s => exact digitVal_le (h c List.mem_cons_self)

lemma digitsOk_digitPairs {n : ℕ} {a b : Text} (ha : ∀ c ∈ a, c.isDigit) (hb : ∀ c ∈ b, c.isDigit) :
    DigitsOk (digitPairs n a b) := by
  induction n generalizing a b with
  | zero => exact fun p hp => nomatch hp
  | succ n ih =>
    intro p hp
    obtain rfl | hp := List.mem_cons.1 hp
    · exact ⟨head_digitVal_le ha, head_digitVal_le hb⟩
    · apply ih _ _ p hp
      · exact fun c hc => ha c (List.mem_of_mem_tail hc)
      · exact fun c hc => hb c (List.mem_of_mem_tail hc)

section Operands

variable {a b : Text} (ha : ∀ c ∈ a, c.isDigit) (hb : ∀ c ∈ b, c.isDigit)

include ha hb in
lemma digitsOk_diffDigits : DigitsOk (diffDigits a b) := by
  rw [diffDigits_eq]
  apply digitsOk_digitPairs
  · exact fun c hc => ha c (List.mem_reverse.1 hc)
  · exact fun c hc => hb c (List.mem_reverse.1 hc)

lemma map_fst_diffDigits (a b : Text) : ofDigitsLe ((diffDigits a b).map Prod.fst) = digitsVal a := by
  rw [diffDigits, List.map_fst_zip, ofDigitsLe_append_zeros, ofDigitsLe_reverse]
  simp

lemma map_snd_diffDigits (a b : Text) : ofDigitsLe ((diffDigits a b).map Prod.snd) = digitsVal b := by
  rw [diffDigits, List.map_snd_zip, ofDigitsLe_append_zeros, ofDigitsLe_reverse]
  simp

lemma length_diffDigits (a b : Text) : (diffDigits a b).length = max a.length b.length := by
  rw [diffDigits_eq, length_digitPairs]

include ha hb in
/-- The digits that are left in the buffer, least significant first, and whether they were complemented. -/
lemma diffLoop_value :
    ∃ ds, ds.length = max a.length b.length ∧ (∀ d ∈ ds, d ≤ 9) ∧
      (ofDigitsLe ds : ℤ) = |(digitsVal a : ℤ) - digitsVal b| ∧
      ((diffLoop (diffDigits a b) 0).2 = 0 ∧ digitsVal b ≤ digitsVal a ∧ ds = (diffLoop (diffDigits a b) 0).1 ∨
        (diffLoop (diffDigits a b) 0).2 = 1 ∧ digitsVal a < digitsVal b ∧
          ds = complementLoop (diffLoop (diffDigits a b) 0).1 1) := by
  obtain ⟨hlen, hdigits, hborrow, hval⟩ := diffLoop_spec (digitsOk_diffDigits ha hb) (c := 0) (.inl rfl)
  rw [map_fst_diffDigits, map_snd_diffDigits, length_diffDigits] at hval
  rw [length_diffDigits] at hlen
  have hlt := ofDigitsLe_lt hdigits
  rw [hlen] at hlt
  have hlt' : (ofDigitsLe (diffLoop (diffDigits a b) 0).1 : ℤ) < 10 ^ max a.length b.length := by exact_mod_cast hlt
  have hnn : (0 : ℤ) ≤ ofDigitsLe (diffLoop (diffDigits a b) 0).1 := Int.natCast_nonneg _
  obtain hc | hc := hborrow
  · rw [hc] at hval
    refine ⟨_, hlen, hdigits, ?_, .inl ⟨hc, by omega, rfl⟩⟩
    rw [hval, abs_of_nonneg]
    · ring
    · omega
  · obtain ⟨hlen', hdigits', k, hk, hval'⟩ := complementLoop_spec hdigits (c := 1) (.inr rfl)
    rw [hc, one_mul, sub_zero] at hval
    rw [hlen] at hlen' hval'
    have hneg : (digitsVal a : ℤ) < digitsVal b := by omega
    have hnn' : (0 : ℤ) ≤ ofDigitsLe (complementLoop (diffLoop (diffDigits a b) 0).1 1) := Int.natCast_nonneg _
    refine ⟨_, hlen', hdigits', ?_, .inr ⟨hc, by exact_mod_cast hneg, rfl⟩⟩
    rw [abs_of_neg (by omega)]
    obtain rfl | rfl := hk
    · rw [hval', hval]
      ring
    · -- all digits were zero, and then no borrow is left
      have hpos : (0 : ℤ) < 10 ^ max a.length b.length := by positivity
      have hb' : (digitsVal b : ℤ) < 10 ^ max a.length b.length := by
        have hall : ∀ d ∈ (diffDigits a b).map Prod.snd, d ≤ 9 := by
          intro d hd
          obtain ⟨p, hp, rfl⟩ := List.mem_map.1 hd
          exact (digitsOk_diffDigits ha hb p hp).2
        have hsnd := ofDigitsLe_lt hall
        rw [map_snd_diffDigits, List.length_map, length_diffDigits] at hsnd
        exact_mod_cast hsnd
      omega

end Operands

/-! ### What the loops leave in the buffer -/

section Buffer

variable {res : Res} {i n : ℕ} {v c : ℤ} {ds : List ℕ}

@[simp] lemma set_size (res : Res) (i : ℕ) (v : ℤ) : (res.set i v).size = res.size := rfl

@[simp] lemma set_set_cell (res : Res) (i : ℕ) (v w : ℤ) : (res.set i v).set i w = res.set i w := by
  simp [Res.set]

lemma write_ok (h : i < res.size) : res.write i v = .ok (res.set i v) := if_pos h

lemma read_ok (h : i < res.size) : res.read i = .ok (res.cells i) := if_pos h

lemma read_set (h : i < res.size) : (res.set i v).read i = .ok v := by
  rw [read_ok (by exact h)]
  simp [Res.set]

lemma fillBlank_ok (h : i + n ≤ res.size) :
    fillBlank n i res = .ok { res with cells := fun j => if i ≤ j ∧ j < i + n then code ' ' else res.cells j } := by
  induction n generalizing i res with
  | zero =>
    refine congrArg Except.ok (Res.ext rfl (funext fun j => ?_))
    exact (if_neg (by omega)).symm
  | succ n ih =>
    rw [fillBlank, write_ok (by omega), ok_bind, ih (by rw [set_size]; omega)]
    refine congrArg Except.ok (Res.ext rfl (funext fun j => ?_))
    simp only [Res.set, Function.update_apply]
    split_ifs <;> first | rfl | omega

/-- The buffer with digits from its third cell on, of which the last one comes first in the list. -/
@[grind] def Res.digits (res : Res) (ds : List ℕ) : Res :=
  { res with cells := fun j => if 2 ≤ j ∧ j ≤ ds.length + 1 then code '0' + (ds.getD (ds.length + 1 - j) 0 : ℕ)
      else res.cells j }

lemma digits_cells {j : ℕ} (h : j < 2 ∨ ds.length + 1 < j) : (res.digits ds).cells j = res.cells j :=
  if_neg (by omega)

lemma digits_nil (res : Res) : res.digits [] = res := by
  refine Res.ext rfl (funext fun j => if_neg fun h => ?_)
  rw [List.length_nil] at h
  omega

lemma digits_cons (res : Res) (d : ℕ) (hn : n = ds.length + 2) :
    (res.set n (code '0' + d)).digits ds = res.digits (d :: ds) := by
  refine Res.ext rfl (funext fun j => ?_)
  simp only [Res.digits, Res.set, Function.update_apply, List.length_cons]
  obtain hj | hj | hj := lt_trichotomy j n
  · by_cases h2 : 2 ≤ j
    · rw [if_pos ⟨h2, by omega⟩, if_pos ⟨h2, by omega⟩]
      have hidx : ds.length + 1 + 1 - j = ds.length + 1 - j + 1 := by omega
      rw [hidx, List.getD_cons_succ]
    · rw [if_neg (by omega), if_neg (by omega), if_neg (by omega)]
  · rw [if_neg (by omega), if_pos hj, if_pos (by omega)]
    have hidx : ds.length + 1 + 1 - j = 0 := by omega
    rw [hidx, List.getD_cons_zero]
  · rw [if_neg (by omega), if_neg (by omega), if_neg (by omega)]

lemma set_digits (res : Res) (hn : n = ds.length + 2) (v : ℤ) : (res.digits ds).set n v = (res.set n v).digits ds := by
  refine Res.ext rfl (funext fun j => ?_)
  simp only [Res.digits, Res.set, Function.update_apply]
  by_cases hj : j = n
  · rw [if_pos hj, if_neg (by omega), if_pos hj]
  · rw [if_neg hj, if_neg hj]

lemma code_digit {x : Char} (h : x.isDigit) : code x = code '0' + (digitVal x : ℕ) := by
  simp only [Char.isDigit, Bool.and_eq_true, decide_eq_true_eq] at h
  have h0 : 48 ≤ x.toNat := h.1
  have hcode : '0'.toNat = 48 := rfl
  rw [code, code, digitVal, hcode]
  omega

lemma subtractCodes_eq {a b : Text} (ha : ∀ x ∈ a, x.isDigit) (hb : ∀ x ∈ b, x.isDigit) (c : ℤ) :
    subtractCodes c a.head? b.head? =
      code '0' + (((a.head?.map digitVal).getD 0 : ℕ) - c - ((b.head?.map digitVal).getD 0 : ℕ)) := by
  cases a with
  | nil =>
    cases b with
    | nil =>
      simp only [subtractCodes, List.head?_nil, Option.getD_none, Option.map_none, Nat.cast_zero]
      ring
    | cons y b =>
      simp only [subtractCodes, List.head?_nil, List.head?_cons, Option.getD_some, Option.map_none, Option.map_some,
        Option.getD_none, code_digit (hb y List.mem_cons_self), Nat.cast_zero]
      ring
  | cons x a =>
    cases b with
    | nil =>
      simp only [subtractCodes, List.head?_nil, List.head?_cons, Option.getD_some, Option.map_none, Option.map_some,
        Option.getD_none, code_digit (ha x List.mem_cons_self), Nat.cast_zero]
      ring
    | cons y b =>
      simp only [subtractCodes, List.head?_cons, Option.getD_some, Option.map_some,
        code_digit (ha x List.mem_cons_self), code_digit (hb y List.mem_cons_self)]
      ring

lemma subtractLoop_ok {a b : Text} (ha : ∀ x ∈ a, x.isDigit) (hb : ∀ x ∈ b, x.isDigit) (hc : c = 0 ∨ c = 1)
    (hsize : n + 1 < res.size) :
    subtractLoop n a b (n + 1) c res =
      .ok (res.digits (diffLoop (digitPairs n a b) c).1, (diffLoop (digitPairs n a b) c).2) := by
  induction n generalizing a b c res with
  | zero =>
    show Except.ok (res, c) = .ok (res.digits [], c)
    rw [digits_nil]
  | succ n ih =>
    have ha' : ∀ x ∈ a.tail, x.isDigit := fun x hx => ha x (List.mem_of_mem_tail hx)
    have hb' : ∀ x ∈ b.tail, x.isDigit := fun x hx => hb x (List.mem_of_mem_tail hx)
    have hlen : ∀ c', c' = 0 ∨ c' = 1 → n + 1 + 1 = (diffLoop (digitPairs n a.tail b.tail) c').1.length + 2 := by
      intro c' hc'
      rw [(diffLoop_spec (digitsOk_digitPairs ha' hb') hc').1, length_digitPairs]
    have hx := head_digitVal_le ha
    have hy := head_digitVal_le hb
    rw [subtractLoop, write_ok (by omega), ok_bind, read_set (by omega), ok_bind, subtractCodes_eq ha hb]
    simp only [digitPairs, diffLoop]
    generalize (a.head?.map digitVal).getD 0 = x at hx ⊢
    generalize (b.head?.map digitVal).getD 0 = y at hy ⊢
    by_cases hneg : (x : ℤ) - c - y < 0
    · rw [if_pos (by omega), write_ok (by rw [set_size]; omega), ok_bind, Nat.add_sub_cancel,
        ih ha' hb' (.inr rfl) (by simpa using hsize.le), set_set_cell, if_pos hneg, if_pos hneg,
        ← digits_cons res _ (hlen 1 (.inr rfl)), Int.toNat_of_nonneg (by omega), add_assoc (code '0')]
    · have hnine : ¬ code '9' < code '0' + ((x : ℤ) - c - y) := by
        have : code '9' = code '0' + 9 := rfl
        omega
      rw [if_neg (by omega), if_neg hnine, Nat.add_sub_cancel, ih ha' hb' (.inl rfl) (by simpa using hsize.le),
        if_neg hneg, if_neg hneg, ← digits_cons res _ (hlen 0 (.inl rfl)), Int.toNat_of_nonneg (by omega)]

lemma fixLoop_ok (hds : ∀ d ∈ ds, d ≤ 9) (hc : c = 0 ∨ c = 1) (hsize : ds.length + 1 < res.size) :
    fixLoop ds.length (ds.length + 1) c (res.digits ds) = .ok (res.digits (complementLoop ds c)) := by
  induction ds generalizing c res with
  | nil =>
    rw [List.length_nil, fixLoop, read_ok (by exact hsize)]
    rfl
  | cons d ds ih =>
    have hd := hds d List.mem_cons_self
    have hds' : ∀ e ∈ ds, e ≤ 9 := fun e he => hds e (List.mem_cons_of_mem d he)
    have hnine : code '9' = code '0' + 9 := rfl
    rw [List.length_cons] at hsize ⊢
    have hread : (res.digits (d :: ds)).read (ds.length + 1 + 1) = .ok (code '0' + d) := by
      rw [← digits_cons res d rfl, ← set_digits res rfl, read_set (by exact hsize)]
    have hdigit : isDigitCode (code '0' + d) = true := by
      rw [isDigitCode, hnine, decide_eq_true_eq]
      omega
    have hlen : ∀ c', c' = 0 ∨ c' = 1 → ds.length + 1 + 1 = (complementLoop ds c').length + 2 := by
      intro c' hc'
      rw [(complementLoop_spec hds' hc').1]
    have hset : ∀ v, (res.digits (d :: ds)).set (ds.length + 1 + 1) v =
        (res.set (ds.length + 1 + 1) v).digits ds := by
      intro v
      rw [← digits_cons res d rfl, ← set_digits res rfl, set_set_cell, set_digits res rfl]
    have hcode : code '9' - (code '0' + d) + c + code '0' = code '0' + (9 - d + c) := by
      rw [hnine]
      ring
    rw [fixLoop, hread, ok_bind, if_pos hdigit, hcode, complementLoop]
    dsimp only
    rw [write_ok (by exact hsize), ok_bind]
    by_cases hcarry : (9 : ℤ) < 9 - d + c
    · rw [if_pos (by omega), write_ok (by exact hsize), ok_bind, set_set_cell, hset, Nat.add_sub_cancel,
        ih hds' (.inr rfl) (by simpa using Nat.lt_of_succ_lt hsize), if_pos hcarry, if_pos hcarry,
        ← digits_cons res _ (hlen 1 (.inr rfl)), Int.toNat_of_nonneg (by omega), add_sub_assoc]
    · rw [if_neg (by omega), hset, Nat.add_sub_cancel, ih hds' (.inl rfl) (by simpa using Nat.lt_of_succ_lt hsize),
        if_neg hcarry, if_neg hcarry, ← digits_cons res _ (hlen 0 (.inl rfl)), Int.toNat_of_nonneg (by omega)]

/-- The string that stands in the buffer. -/
lemma readString_ok {s : Text} (hs : ∀ k x, s[k]? = some x → res.cells (i + k) = code x ∧ x ≠ Char.ofNat 0)
    (hend : res.cells (i + s.length) = 0) (hsize : i + s.length < res.size) (hn : s.length < n) :
    readString res n i = .ok s := by
  induction s generalizing i n with
  | nil =>
    obtain ⟨n, rfl⟩ : ∃ k, n = k + 1 := ⟨n - 1, by rw [List.length_nil] at hn; omega⟩
    rw [List.length_nil, Nat.add_zero] at hend hsize
    rw [readString, read_ok hsize, ok_bind, if_pos hend]
    rfl
  | cons x s ih =>
    rw [List.length_cons] at hn hsize hend
    obtain ⟨n, rfl⟩ : ∃ k, n = k + 1 := ⟨n - 1, by omega⟩
    obtain ⟨hcell, hne⟩ := hs 0 x rfl
    have hcode : code x ≠ 0 := by
      intro h
      apply hne
      rw [← Char.ofNat_toNat x]
      exact congrArg Char.ofNat (Int.natCast_eq_zero.1 h)
    have hrest := @ih (i + 1) n (fun k y hy => by
      have := hs (k + 1) y hy
      rwa [← Nat.add_assoc, Nat.add_right_comm] at this)
      (by rwa [Nat.add_right_comm]) (by omega) (by omega)
    rw [Nat.add_zero] at hcell
    rw [readString, read_ok (by omega), ok_bind, hcell, if_neg hcode, hrest, ok_bind, code, Int.toNat_natCast,
      Char.ofNat_toNat]
    rfl

/-- The character of a digit. -/
def digitChar (d : ℕ) : Char := Char.ofNat (48 + d)

lemma digitChar_spec {d : ℕ} (h : d ≤ 9) :
    (digitChar d).isDigit ∧ digitVal (digitChar d) = d ∧ code (digitChar d) = code '0' + d ∧
      digitChar d ≠ Char.ofNat 0 := by
  have hall : ∀ d ≤ 9, (digitChar d).isDigit ∧ digitVal (digitChar d) = d ∧ code (digitChar d) = code '0' + d ∧
      digitChar d ≠ Char.ofNat 0 := by decide
  exact hall d h

/-- The digits as they stand in the string. -/
@[grind] def digitText (ds : List ℕ) : Text := ds.reverse.map digitChar

lemma digitsVal_digitText (hds : ∀ d ∈ ds, d ≤ 9) : digitsVal (digitText ds) = ofDigitsLe ds := by
  have hvals : (ds.map digitChar).map digitVal = ds := by
    have hcongr : ∀ d ∈ ds, (digitVal ∘ digitChar) d = id d := fun d hd => (digitChar_spec (hds d hd)).2.1
    rw [List.map_map, List.map_congr_left hcongr, List.map_id]
  rw [← ofDigitsLe_reverse, digitText, ← List.map_reverse, List.reverse_reverse, hvals]

lemma digitText_isDigit (hds : ∀ d ∈ ds, d ≤ 9) : ∀ x ∈ digitText ds, x.isDigit := by
  intro x hx
  obtain ⟨d, hd, rfl⟩ := List.mem_map.1 hx
  exact (digitChar_spec (hds d (List.mem_reverse.1 hd))).1

/-- The string in the buffer once the digits stand there. -/
lemma readString_digits (hds : ∀ d ∈ ds, d ≤ 9) (h0 : res.cells 0 = code ' ') (h1 : res.cells 1 = code ' ')
    (hend : res.cells (ds.length + 2) = 0) (hsize : ds.length + 2 < res.size) :
    readString (res.digits ds) (res.size + 1) 0 = .ok (' ' :: ' ' :: digitText ds) := by
  have hlen : (' ' :: ' ' :: digitText ds).length = ds.length + 2 := by simp [digitText]
  apply readString_ok
  · intro k x hx
    rw [Nat.zero_add]
    obtain _ | _ | k := k
    · cases hx
      exact ⟨(digits_cells (by omega)).trans h0, by decide⟩
    · cases hx
      exact ⟨(digits_cells (by omega)).trans h1, by decide⟩
    · rw [List.getElem?_cons_succ, List.getElem?_cons_succ, digitText, List.getElem?_map] at hx
      obtain ⟨d, hd, rfl⟩ := Option.map_eq_some_iff.1 hx
      have hk : k < ds.length := by
        have := (List.getElem?_eq_some_iff.1 hd).1
        rwa [List.length_reverse] at this
      rw [List.getElem?_reverse hk] at hd
      have hmem : d ∈ ds := List.mem_of_getElem? hd
      have hidx : ds.length + 1 - (k + 1 + 1) = ds.length - 1 - k := by omega
      refine ⟨?_, (digitChar_spec (hds d hmem)).2.2.2⟩
      rw [(digitChar_spec (hds d hmem)).2.2.1]
      simp only [Res.digits]
      rw [if_pos (by omega), hidx, List.getD_eq_getElem?_getD, hd, Option.getD_some]
  · rw [hlen, Nat.zero_add]
    exact (digits_cells (by omega)).trans hend
  · rw [hlen, Nat.zero_add]
    exact hsize
  · rw [hlen]
    omega

end Buffer

/-! ### The string and its value -/

/-- A string of digits behind two blanks is a number. -/
lemma readResult_digits {s : Text} (hne : s ≠ []) (hs : ∀ x ∈ s, x.isDigit) :
    readResult (' ' :: ' ' :: s) = .fin (digitsVal s : ℚ) := by
  obtain ⟨x, s, rfl⟩ := List.exists_cons_of_ne_nil hne
  have hx := hs x List.mem_cons_self
  have hspace : isSpace x = false := by
    by_contra h
    simp only [isSpace, Bool.not_eq_false, Bool.or_eq_true, decide_eq_true_eq] at h
    obtain ((((rfl | rfl) | rfl) | rfl) | rfl) | rfl := h <;> cases hx
  have hsign : readSign (x :: s) = (false, x :: s) := by
    unfold readSign
    split
    case h_1 heq =>
      cases heq
      cases hx
    case h_2 heq =>
      cases heq
      cases hx
    case h_3 => rfl
  have hread : rrdStrtod (' ' :: ' ' :: x :: s) = some ((digitsVal (x :: s) : ℚ), []) := by
    have htake : (x :: s).takeWhile Char.isDigit = x :: s := List.takeWhile_eq_self_iff.2 hs
    have hdrop : (x :: s).dropWhile Char.isDigit = [] := List.dropWhile_eq_nil_iff.2 hs
    have hblank : (' ' :: ' ' :: x :: s).dropWhile isSpace = x :: s := by
      rw [List.dropWhile_cons_of_pos (by decide), List.dropWhile_cons_of_pos (by decide),
        List.dropWhile_cons_of_neg (by rw [hspace]; decide)]
    simp only [rrdStrtod, hblank, hsign, htake, hdrop, readDecimals, readExponent, List.append_nil]
    norm_num [s32_zero]
  rw [readResult, rrdStrtodbl, hread]

section Result

variable {a b : Text} (ha : ∀ x ∈ a, x.isDigit) (hb : ∀ x ∈ b, x.isDigit)

include ha hb in
/-- The string that is built, when it fits. -/
lemma diffString_ok {res : Res} (hsize : max a.length b.length + 2 < res.size) :
    ∃ s, diffString res a b = .ok (' ' :: ' ' :: s, decide (digitsVal a < digitsVal b)) ∧
      s.length = max a.length b.length ∧ (∀ x ∈ s, x.isDigit) ∧
      (digitsVal s : ℤ) = |(digitsVal a : ℤ) - digitsVal b| := by
  obtain ⟨ds, hlen, hds, hval, hcase⟩ := diffLoop_value ha hb
  refine ⟨digitText ds, ?_, by simp [digitText, hlen], digitText_isDigit hds, by rw [digitsVal_digitText hds, hval]⟩
  have ha' : ∀ x ∈ a.reverse, x.isDigit := fun x hx => ha x (List.mem_reverse.1 hx)
  have hb' : ∀ x ∈ b.reverse, x.isDigit := fun x hx => hb x (List.mem_reverse.1 hx)
  obtain ⟨m, hm⟩ : ∃ m, m = max a.length b.length := ⟨_, rfl⟩
  rw [diffDigits_eq, ← hm] at hcase
  rw [← hm] at hsize hlen
  simp only [diffString, ← hm]
  rw [fillBlank_ok (by omega), ok_bind, write_ok (by exact hsize), ok_bind,
    subtractLoop_ok ha' hb' (.inl rfl) (by exact Nat.lt_of_succ_lt hsize), ok_bind]
  generalize hres : Res.set _ (m + 1 + 1) 0 = filled
  have h0 : filled.cells 0 = code ' ' := by
    rw [← hres]
    simp [Res.set]
  have h1 : filled.cells 1 = code ' ' := by
    rw [← hres]
    simp [Res.set]
  have hend : filled.cells (ds.length + 2) = 0 := by
    rw [← hres, hlen]
    simp [Res.set]
  have hsz : filled.size = res.size := by
    rw [← hres]
    rfl
  rw [← hsz, ← hlen] at hsize
  have hread := readString_digits hds h0 h1 hend hsize
  obtain ⟨hc, hle, rfl⟩ | ⟨hc, hlt, rfl⟩ := hcase
  · simp only [hc, ne_eq, not_true_eq_false, if_false]
    rw [ok_bind]
    simp only [Res.digits] at hread ⊢
    rw [hread, ok_bind, decide_eq_false (not_lt.2 hle)]
    rfl
  · have hok : DigitsOk (digitPairs m a.reverse b.reverse) := digitsOk_digitPairs ha' hb'
    obtain ⟨hlen₀, hds₀, -⟩ := diffLoop_spec hok (c := 0) (.inl rfl)
    rw [length_digitPairs] at hlen₀
    have hfix : fixLoop m (m + 1) 1 (filled.digits (diffLoop (digitPairs m a.reverse b.reverse) 0).1) =
        .ok (filled.digits (complementLoop (diffLoop (digitPairs m a.reverse b.reverse) 0).1 1)) := by
      have h := @fixLoop_ok filled 1 _ hds₀ (.inr rfl) (by omega)
      rwa [hlen₀] at h
    simp only [hc, ne_eq, one_ne_zero, not_false_eq_true, if_true]
    rw [hfix, ok_bind]
    simp only [Res.digits] at hread ⊢
    rw [hread, ok_bind, decide_eq_true hlt]
    rfl

include ha hb in
/-- With a buffer that is large enough, the value is the difference. -/
lemma diffString_value {res : Res} (hne : a ≠ []) (hsize : max a.length b.length + 2 < res.size) :
    ∃ s negative, diffString res a b = .ok (s, negative) ∧
      (if negative then -readResult s else readResult s) = .fin ((digitsVal a : ℚ) - digitsVal b) := by
  obtain ⟨s, hs, hlen, hdigits, hval⟩ := diffString_ok ha hb hsize
  have hpos : s ≠ [] := by
    have : 0 < a.length := List.length_pos_iff.2 hne
    rw [← List.length_pos_iff, hlen]
    omega
  refine ⟨_, _, hs, ?_⟩
  rw [readResult_digits hpos hdigits]
  have hq : (digitsVal s : ℚ) = |(digitsVal a : ℚ) - digitsVal b| := by exact_mod_cast hval
  by_cases hlt : digitsVal a < digitsVal b
  · have hltq : (digitsVal a : ℚ) < digitsVal b := by exact_mod_cast hlt
    rw [if_pos (decide_eq_true hlt), hq, abs_of_neg (by linarith)]
    show ExtNum.fin (- -((digitsVal a : ℚ) - digitsVal b)) = _
    rw [neg_neg]
  · have hleq : (digitsVal b : ℚ) ≤ digitsVal a := by exact_mod_cast not_lt.1 hlt
    rw [if_neg (by simpa using hlt), hq, abs_of_nonneg (by linarith)]

end Result

/-- A sign in front of a number. -/
@[grind] def signText (neg : Bool) : Text := if neg then ['-'] else []

/-- The number that a sign and a digit string denote. -/
def signedVal (neg : Bool) (s : Text) : ℚ := if neg then -(digitsVal s : ℚ) else digitsVal s

lemma diffOperand_signText {neg : Bool} {s : Text} (hne : s ≠ []) (hs : ∀ x ∈ s, x.isDigit) :
    diffOperand (signText neg ++ s) = (neg, s) := by
  obtain ⟨x, s, rfl⟩ := List.exists_cons_of_ne_nil hne
  have hx : (!x.isDigit) = false := by rw [hs x List.mem_cons_self, Bool.not_true]
  have htake : (x :: s).takeWhile Char.isDigit = x :: s := List.takeWhile_eq_self_iff.2 hs
  cases neg with
  | false =>
    simp only [diffOperand, signText, Bool.false_eq_true, if_false, List.nil_append]
    rw [List.takeWhile_cons_of_neg (by rw [hx]; decide), List.dropWhile_cons_of_neg (by rw [hx]; decide), htake]
    rfl
  | true =>
    simp only [diffOperand, signText, if_true, List.singleton_append]
    rw [List.takeWhile_cons_of_pos (by decide), List.dropWhile_cons_of_pos (by decide),
      List.takeWhile_cons_of_neg (by rw [hx]; decide), List.dropWhile_cons_of_neg (by rw [hx]; decide), htake]
    rfl

lemma rrdDiffRes_same {res : Res} {a b : Text} (neg : Bool) (hane : a ≠ []) (hbne : b ≠ [])
    (ha : ∀ x ∈ a, x.isDigit) (hb : ∀ x ∈ b, x.isDigit) (hlen : max a.length b.length ≤ lastDsLen)
    (hsize : max a.length b.length + 2 < res.size) :
    rrdDiffRes res (signText neg ++ a) (signText neg ++ b) = .ok (.fin (signedVal neg a - signedVal neg b)) := by
  obtain ⟨s, negative, hs, hval⟩ := diffString_value ha hb hane hsize
  simp only [rrdDiffRes, diffOperand_signText hane ha, diffOperand_signText hbne hb, hane, hbne, or_self, if_false,
    ne_eq, not_true_eq_false, not_lt.2 hlen, Bool.and_self, hs, ok_bind, hval]
  cases neg with
  | false => rfl
  | true =>
    show Except.ok (ExtNum.fin (-((digitsVal a : ℚ) - digitsVal b))) =
      .ok (ExtNum.fin (-(digitsVal a : ℚ) - -(digitsVal b : ℚ)))
    rw [neg_sub_neg, neg_sub]

lemma diffOperand_isDigit (s : Text) : ∀ x ∈ (diffOperand s).2, x.isDigit := fun _ hx => List.mem_takeWhile_imp hx

/-- With a buffer that is large enough, `rrd_diff` computes what it computes without one. -/
lemma rrdDiffRes_eq {res : Res} {a b : Text}
    (hsize : max (diffOperand a).2.length (diffOperand b).2.length + 2 < res.size) :
    rrdDiffRes res a b = .ok (rrdDiff a b) := by
  simp only [rrdDiffRes, rrdDiff]
  split
  case isTrue => rfl
  case isFalse hne =>
    split
    case isTrue => rfl
    case isFalse =>
      split
      case isTrue => rfl
      case isFalse =>
        have ha := diffOperand_isDigit a
        have hb := diffOperand_isDigit b
        obtain ⟨s, negative, hs, hval⟩ := diffString_value ha hb (fun h => hne (.inl h)) hsize
        obtain ⟨ds, -, -, habs, hcase⟩ := diffLoop_value ha hb
        have hq : (ofDigitsLe ds : ℚ) = |(digitsVal (diffOperand a).2 : ℚ) - digitsVal (diffOperand b).2| := by
          exact_mod_cast habs
        have hresult : (if (diffLoop (diffDigits (diffOperand a).2 (diffOperand b).2) 0).2 = 0 then
            (ofDigitsLe (diffLoop (diffDigits (diffOperand a).2 (diffOperand b).2) 0).1 : ℚ)
          else -(ofDigitsLe (complementLoop (diffLoop (diffDigits (diffOperand a).2 (diffOperand b).2) 0).1
            (diffLoop (diffDigits (diffOperand a).2 (diffOperand b).2) 0).2) : ℚ)) =
            (digitsVal (diffOperand a).2 : ℚ) - digitsVal (diffOperand b).2 := by
          obtain ⟨hc, hle, rfl⟩ | ⟨hc, hlt, rfl⟩ := hcase
          · have hleq : (digitsVal (diffOperand b).2 : ℚ) ≤ digitsVal (diffOperand a).2 := by exact_mod_cast hle
            rw [if_pos hc, hq, abs_of_nonneg (by linarith)]
          · have hltq : (digitsVal (diffOperand a).2 : ℚ) < digitsVal (diffOperand b).2 := by exact_mod_cast hlt
            rw [hc, if_neg one_ne_zero, hq, abs_of_neg (by linarith), neg_neg]
        rw [hs, ok_bind]
        simp only [hval, hresult, Bool.and_eq_true]
        split
        · rfl
        · rfl

/-- The difference of two counters. -/
lemma rrdDiff_digits {a b : Text} (hane : a ≠ []) (hbne : b ≠ []) (ha : ∀ x ∈ a, x.isDigit) (hb : ∀ x ∈ b, x.isDigit)
    (hlen : max a.length b.length ≤ lastDsLen) : rrdDiff a b = .fin ((digitsVal a : ℚ) - digitsVal b) := by
  obtain ⟨res, hres⟩ : ∃ res : Res, res.size = max a.length b.length + 3 := ⟨⟨_, fun _ => 0⟩, rfl⟩
  have hsame := @rrdDiffRes_same res a b false hane hbne ha hb hlen (by omega)
  have ha' := @diffOperand_signText false a hane ha
  have hb' := @diffOperand_signText false b hbne hb
  have heq := @rrdDiffRes_eq res (signText false ++ a) (signText false ++ b) (by
    rw [ha', hb', hres]
    exact Nat.lt_succ_self _)
  exact Except.ok.inj (heq.symm.trans hsame)

lemma fillBlank_size {n i : ℕ} {res r : Res} (h : fillBlank n i res = .ok r) : r.size = res.size := by
  induction n generalizing i res with
  | zero =>
    cases h
    rfl
  | succ n ih =>
    obtain ⟨res', hwrite, h⟩ := bind_eq_ok h
    unfold Res.write at hwrite
    split at hwrite
    · cases hwrite
      exact (ih h).trans (set_size res i _)
    · cases hwrite

/-- The terminator of the string does not fit. -/
lemma diffString_fault {res : Res} {a b : Text} (h : res.size ≤ max a.length b.length + 2) :
    ∃ f, diffString res a b = .error (.fault f) := by
  rw [diffString]
  cases hfill : fillBlank (max a.length b.length + 2) 0 res with
  | error e =>
    obtain e | f := e
    · cases e
    · exact ⟨f, rfl⟩
  | ok r =>
    refine ⟨⟨max a.length b.length + 1 + 1⟩, ?_⟩
    have hwrite : r.write (max a.length b.length + 1 + 1) 0 = .error (.fault ⟨max a.length b.length + 1 + 1⟩) := by
      refine if_neg ?_
      rw [fillBlank_size hfill]
      omega
    rw [ok_bind, hwrite]
    rfl

/-- `rrd_diff` gets as far as to its buffer. -/
structure UsesRes (a b : Text) : Prop where
  left : (diffOperand a).2 ≠ []
  right : (diffOperand b).2 ≠ []
  sign : (diffOperand a).1 = (diffOperand b).1
  length : max (diffOperand a).2.length (diffOperand b).2.length ≤ lastDsLen

lemma rrdDiffRes_fault {cells : ℕ → ℤ} {a b : Text} (huses : UsesRes a b)
    (hlong : lastDsLen < max (diffOperand a).2.length (diffOperand b).2.length + 2) :
    ∃ f, rrdDiffRes ⟨lastDsLen + 1, cells⟩ a b = .error (.fault f) := by
  obtain ⟨f, hf⟩ := @diffString_fault ⟨lastDsLen + 1, cells⟩ _ _ (Nat.succ_le_of_lt hlong)
  refine ⟨f, ?_⟩
  simp only [rrdDiffRes, huses.left, huses.right, or_self, if_false, huses.sign, ne_eq, not_true_eq_false,
    not_lt.2 huses.length, hf]
  rfl

/-- All accesses are inside the buffer exactly if the longer operand leaves room for two blanks and the terminator. -/
theorem rrdDiffRes_inside_iff (cells : ℕ → ℤ) (a b : Text) :
    (∀ f, rrdDiffRes ⟨lastDsLen + 1, cells⟩ a b ≠ .error (.fault f)) ↔
      (UsesRes a b → max (diffOperand a).2.length (diffOperand b).2.length + 2 ≤ lastDsLen) := by
  constructor
  · intro hno huses
    by_contra hlong
    obtain ⟨f, hf⟩ := @rrdDiffRes_fault cells _ _ huses (not_le.1 hlong)
    exact hno f hf
  · intro hroom f hf
    by_cases huses : UsesRes a b
    · have hsize := hroom huses
      rw [rrdDiffRes_eq (by show _ < lastDsLen + 1; omega)] at hf
      cases hf
    · simp only [rrdDiffRes] at hf
      split at hf
      case isTrue => cases hf
      case isFalse hne =>
        split at hf
        case isTrue => cases hf
        case isFalse hsign =>
          split at hf
          case isTrue => cases hf
          case isFalse hlen =>
            exact huses ⟨fun h => hne (.inl h), fun h => hne (.inr h), not_not.1 hsign, not_lt.1 hlen⟩

/-- A reading of 29 digits, and the same one read before and stored in `last_ds`. -/
theorem rrdDiffRes_writes_behind :
    (List.replicate 29 '1').all Char.isDigit ∧ (List.replicate 29 '1').length ≤ lastDsLen - 1 ∧
      ¬ ∀ f, rrdDiffRes ⟨lastDsLen + 1, fun _ => 0⟩ (List.replicate 29 '1') (List.replicate 29 '1') ≠
        .error (.fault f) := by
  have huses : UsesRes (List.replicate 29 '1') (List.replicate 29 '1') :=
    ⟨by decide, by decide, by decide, by decide⟩
  obtain ⟨f, hf⟩ := rrdDiffRes_fault huses (by decide)
  exact ⟨by decide, by decide, fun h => h f hf⟩

end Rrdtool
