import Mathlib.Data.Bool.AllAny
import Rrdtool.Parsetime.Dates

/-!
# Time offsets

What an offset specification means, and when `rrd_parsetime` adds that. The loop takes two tokens at a time: a number, and
the token behind it for its unit. Where that is not a unit it is gone: a sign, so that the sign before is repeated, a
number, or whatever else stands there.
-/

namespace Rrdtool.Parsetime

open Civil

/-! ### What is read -/

def Sym.tokid : Sym → TokId
  | .num _ => .number
  | .sym tokid => tokid

/-- The unit that is taken from the token behind a number. -/
@[grind] def unitRead (prevMultiplier : Option TokId) (digits : Text) (t : Sym) : TokId :=
  if t.tokid = .monthsMinutes then guessMonthsMinutes prevMultiplier (atoi digits) else t.tokid

def IsSign (tokid : TokId) : Prop := tokid = .plus ∨ tokid = .minus

instance (tokid : TokId) : Decidable (IsSign tokid) := inferInstanceAs (Decidable (_ ∨ _))

/-- The loop of the offset on the tokens: the time value, or nothing for an error. -/
@[grind] def runSyms (ptv : TimeValue) (op : TokId) (prev : Option TokId) : List Sym → Option TimeValue
  | [] => some ptv
  | [.num d] => some (addDelta ptv .eof op (atoi d))
  | .num d :: t :: ts => runSyms (addDelta ptv (unitRead prev d t) op (atoi d)) op (some (unitRead prev d t)) ts
  | [.sym sign, .num d] => if IsSign sign then some (addDelta ptv .eof sign (atoi d)) else none
  | .sym sign :: .num d :: t :: ts =>
    if IsSign sign then
      runSyms (addDelta ptv (unitRead none d t) sign (atoi d)) sign (some (unitRead none d t)) ts
    else none
  | .sym _ :: _ => none

section Loop

variable {s s' : State} {static : Repeated} {ts : List Sym} {t : Sym} {d : Text}

lemma tokid_of_on {sc : Scanner} (h : sc.On (t :: ts)) : sc.tokid = t.tokid := by
  cases t with
  | num d => exact (tokid_of_num h).1
  | sym tokid => exact tokid_of_sym h

/-- What `addNumber` does behind a number, with the token that follows. -/
lemma addNumber_cons (static : Repeated) (hw : Words s.scanner.specials) (hon : s.scanner.On (.num d :: t :: ts)) :
    ∃ sc : Scanner, sc.specials = s.scanner.specials ∧ sc.Ahead ts ∧
      addNumber s static =
        ({ scanner := sc, ptv := addDelta s.ptv (unitRead static.prevMultiplier d t) static.op (atoi d) },
          { static with prevMultiplier := some (unitRead static.prevMultiplier d t) }) := by
  obtain ⟨-, htoken⟩ := tokid_of_num hon
  have hnext := hon.next hw
  have htokid := tokid_of_on hnext
  unfold addNumber unitRead
  rw [htoken]
  dsimp only
  rw [← htokid]
  by_cases h : s.scanner.next.tokid = .monthsMinutes
  · rw [if_pos h, if_pos h]
    exact ⟨{ s.scanner.next with tokid := guessMonthsMinutes static.prevMultiplier (atoi d) }, next_specials s.scanner,
      hnext.ahead, rfl⟩
  · rw [if_neg h, if_neg h]
    exact ⟨_, next_specials _, hnext.ahead, rfl⟩

lemma addNumber_end (static : Repeated) (hw : Words s.scanner.specials) (hon : s.scanner.On [.num d]) :
    ∃ sc : Scanner, sc.specials = s.scanner.specials ∧ sc.Ahead [] ∧
      addNumber s static =
        ({ scanner := sc, ptv := addDelta s.ptv .eof static.op (atoi d) }, { static with prevMultiplier := some .eof }) := by
  obtain ⟨-, htoken⟩ := tokid_of_num hon
  have hnext := hon.next hw
  refine ⟨s.scanner.next, next_specials _, hnext.2, ?_⟩
  unfold addNumber
  rw [htoken]
  dsimp only
  rw [if_neg (by rw [hnext.1]; decide), hnext.1]

lemma tokid_ne_number {sc : Scanner} {tokid : TokId} (h : sc.On (.sym tokid :: ts)) : tokid ≠ .number := by
  obtain ⟨-, hsymbol, -⟩ := h
  unfold Scanner.symbol at hsymbol
  split at hsymbol
  · cases hsymbol
  · rename_i hne
    cases hsymbol
    exact hne

/-- A round behind a number: the next token is taken for its unit, and the one behind it is read. -/
lemma round_cons (static : Repeated) (hw : Words s.scanner.specials) (hon : s.scanner.On (.num d :: t :: ts)) :
    ∃ s', Words s'.scanner.specials ∧ s'.scanner.On ts ∧
      s'.ptv = addDelta s.ptv (unitRead static.prevMultiplier d t) static.op (atoi d) ∧
      ({ (addNumber s static).1 with scanner := (addNumber s static).1.scanner.next } : State) = s' ∧
      (addNumber s static).2 = { static with prevMultiplier := some (unitRead static.prevMultiplier d t) } := by
  obtain ⟨sc, hspecials, hahead, hadd⟩ := addNumber_cons static hw hon
  rw [← hspecials] at hw
  rw [hadd]
  refine ⟨_, ?_, hahead.next hw, rfl, rfl, rfl⟩
  rw [next_specials]
  exact hw

lemma round_end (static : Repeated) (hw : Words s.scanner.specials) (hon : s.scanner.On [.num d]) :
    ∃ s', Words s'.scanner.specials ∧ s'.scanner.On [] ∧ s'.ptv = addDelta s.ptv .eof static.op (atoi d) ∧
      ({ (addNumber s static).1 with scanner := (addNumber s static).1.scanner.next } : State) = s' := by
  obtain ⟨sc, hspecials, hahead, hadd⟩ := addNumber_end static hw hon
  rw [← hspecials] at hw
  rw [hadd]
  refine ⟨_, ?_, hahead.next hw, rfl, rfl⟩
  rw [next_specials]
  exact hw

/-- The outcome of the loop agrees with the one on the tokens. -/
def Agrees (outcome : Except Text State) : Option TimeValue → Prop
  | some ptv => ∃ s, outcome = .ok s ∧ s.scanner.tokid = .eof ∧ s.ptv = ptv
  | none => ∀ s, outcome = .ok s → s.scanner.tokid ≠ .eof ∧ s.scanner.tokid ≠ .plus ∧ s.scanner.tokid ≠ .minus

lemma offsetLoop_number (fuel : ℕ) (h : s.scanner.tokid = .number) :
    offsetLoop (fuel + 1) s static =
      offsetLoop fuel { (addNumber s static).1 with scanner := (addNumber s static).1.scanner.next }
        (addNumber s static).2 := by
  rw [offsetLoop]
  rw [if_pos (.inr (.inr h))]
  simp only [if_pos h]
  rfl

lemma offsetLoop_sign (fuel : ℕ) (h : IsSign s.scanner.tokid) (hnext : s.scanner.next.tokid = .number) :
    offsetLoop (fuel + 1) s static =
      offsetLoop fuel
        { (addNumber { s with scanner := s.scanner.next } { op := s.scanner.tokid, prevMultiplier := none }).1 with
          scanner :=
            (addNumber { s with scanner := s.scanner.next } { op := s.scanner.tokid, prevMultiplier := none }).1.scanner.next }
        (addNumber { s with scanner := s.scanner.next } { op := s.scanner.tokid, prevMultiplier := none }).2 := by
  have hnumber : s.scanner.tokid ≠ .number := by
    rintro heq
    rw [heq] at h
    obtain h | h := h
    all_goals cases h
  rw [offsetLoop]
  rw [if_pos (by obtain h | h := h; exacts [.inl h, .inr (.inl h)])]
  simp only [if_neg hnumber, plusMinus, expect2, if_pos hnext]
  rfl

lemma offsetLoop_noNumber (fuel : ℕ) (h : IsSign s.scanner.tokid) (hnext : s.scanner.next.tokid ≠ .number) :
    ∃ e, offsetLoop (fuel + 1) s static = .error e := by
  have hnumber : s.scanner.tokid ≠ .number := by
    rintro heq
    rw [heq] at h
    obtain h | h := h
    all_goals cases h
  rw [offsetLoop]
  rw [if_pos (by obtain h | h := h; exacts [.inl h, .inr (.inl h)])]
  simp only [if_neg hnumber, plusMinus, expect2, if_neg hnext]
  exact ⟨_, rfl⟩

lemma offsetLoop_other (fuel : ℕ) (h : ¬ IsSign s.scanner.tokid) (hnumber : s.scanner.tokid ≠ .number) :
    offsetLoop (fuel + 1) s static = .ok s := by
  rw [offsetLoop, if_neg]
  · rfl
  · rintro (heq | heq | heq)
    · exact h (.inl heq)
    · exact h (.inr heq)
    · exact hnumber heq

lemma runSyms_other {ptv : TimeValue} {op : TokId} {prev : Option TokId} {sign : TokId} (h : ¬ IsSign sign) (ts : List Sym) :
    runSyms ptv op prev (.sym sign :: ts) = none := by
  unfold runSyms
  split
  all_goals simp_all

lemma offsetLoop_spec (fuel : ℕ) (hw : Words s.scanner.specials) (hon : s.scanner.On ts) (hfuel : ts.length ≤ fuel) :
    Agrees (offsetLoop fuel s static) (runSyms s.ptv static.op static.prevMultiplier ts) := by
  induction fuel generalizing s static ts with
  | zero =>
    cases List.length_eq_zero_iff.1 (Nat.le_zero.1 hfuel)
    exact ⟨s, rfl, hon.1, rfl⟩
  | succ fuel ih =>
    match ts, hon, hfuel with
    | [], hon, _ =>
      refine ⟨s, ?_, hon.1, rfl⟩
      rw [offsetLoop, if_neg (by rw [hon.1]; decide)]
      rfl
    | [.num d], hon, _ =>
      obtain ⟨s', hw', hon', hptv, hround⟩ := round_end static hw hon
      rw [offsetLoop_number fuel (tokid_of_num hon).1, hround, runSyms, ← hptv]
      exact ih hw' hon' (Nat.zero_le _)
    | .num d :: t :: ts, hon, hfuel =>
      obtain ⟨s', hw', hon', hptv, hround, hstatic⟩ := round_cons static hw hon
      rw [offsetLoop_number fuel (tokid_of_num hon).1, hround, hstatic, runSyms, ← hptv]
      exact ih hw' hon' (by simp only [List.length_cons] at hfuel; omega)
    | .sym sign :: ts, hon, hfuel =>
      have htokid := tokid_of_sym hon
      have hrest := hon.next hw
      have hw' : Words s.scanner.next.specials := by
        rw [next_specials]
        exact hw
      by_cases hsign : IsSign sign
      · match ts, hrest, hfuel with
        | [], hrest, _ =>
          obtain ⟨e, herror⟩ := @offsetLoop_noNumber s static fuel (htokid ▸ hsign) (by rw [hrest.1]; decide)
          rw [herror]
          exact fun _ h => nomatch h
        | .sym x :: ts, hrest, _ =>
          obtain ⟨e, herror⟩ := @offsetLoop_noNumber s static fuel (htokid ▸ hsign)
            (by rw [tokid_of_sym hrest]; exact tokid_ne_number hrest)
          rw [herror]
          exact fun _ h => nomatch h
        | [.num d], hrest, _ =>
          obtain ⟨s', hw', hon', hptv, hround⟩ :=
            @round_end { s with scanner := s.scanner.next } d { op := s.scanner.tokid, prevMultiplier := none } hw' hrest
          rw [offsetLoop_sign fuel (htokid ▸ hsign) (tokid_of_num hrest).1, hround, runSyms, if_pos hsign]
          rw [htokid] at hptv
          rw [← hptv]
          exact ih hw' hon' (Nat.zero_le _)
        | .num d :: t :: ts, hrest, hfuel =>
          obtain ⟨s', hw', hon', hptv, hround, hstatic⟩ :=
            @round_cons { s with scanner := s.scanner.next } ts t d { op := s.scanner.tokid, prevMultiplier := none } hw' hrest
          rw [offsetLoop_sign fuel (htokid ▸ hsign) (tokid_of_num hrest).1, hround, hstatic, runSyms, if_pos hsign]
          rw [htokid] at hptv ⊢
          rw [← hptv]
          exact ih hw' hon' (by simp only [List.length_cons] at hfuel; omega)
      · rw [runSyms_other hsign, offsetLoop_other fuel (htokid ▸ hsign) (htokid ▸ tokid_ne_number hon)]
        rintro s' ⟨⟩
        refine ⟨hon.1, ?_, ?_⟩
        · intro h
          exact hsign (.inl (htokid ▸ h))
        · intro h
          exact hsign (.inr (htokid ▸ h))

end Loop

/-! ### Terms -/

inductive Sign where
  | plus | minus
deriving DecidableEq

def Sign.tokid : Sign → TokId
  | .plus => .plus
  | .minus => .minus

/-- The units; `m` is written for months as well as for minutes. -/
inductive OffsetUnit where
  | seconds | minutes | hours | days | weeks | months | years | monthsMinutes
deriving DecidableEq

def OffsetUnit.tokid : OffsetUnit → TokId
  | .seconds => .seconds
  | .minutes => .minutes
  | .hours => .hours
  | .days => .days
  | .weeks => .weeks
  | .months => .months
  | .years => .years
  | .monthsMinutes => .monthsMinutes

/-- A number of the offset with its sign and its unit, where they are written. -/
structure Term where
  sign : Option Sign
  digits : Text
  unit : Option OffsetUnit
deriving DecidableEq

@[grind] def Term.symbols (t : Term) : List Sym :=
  t.sign.toList.map (fun sign => .sym sign.tokid) ++ .num t.digits :: t.unit.toList.map fun unit => .sym unit.tokid

/-- The sign of a term: its own, or the one before. -/
def Term.signIn (op : TokId) (t : Term) : TokId := (t.sign.map Sign.tokid).getD op

/-- The unit of a term with the given number; what `m` means is guessed from the unit before. -/
def Term.unitIn (prevMultiplier : Option TokId) (n : ℤ) (t : Term) : TokId :=
  match t.unit with
  | none => .seconds
  | some .monthsMinutes => guessMonthsMinutes (if t.sign.isSome then none else prevMultiplier) n
  | some unit => unit.tokid

/-- What a term stands for. -/
structure Summand where
  sign : TokId
  number : ℤ
  unit : TokId

/-- The summands of a list of terms, with the given reading of digits. -/
@[grind] def summands (number : Text → ℤ) (op : TokId) (prevMultiplier : Option TokId) : List Term → List Summand
  | [] => []
  | t :: ts =>
    let unit := t.unitIn prevMultiplier (number t.digits)
    { sign := t.signIn op, number := number t.digits, unit } ::
      summands number (t.signIn op) (t.unit.map fun _ => unit) ts

/-- The fields that an offset changes. -/
inductive Field where
  | offset | year | mon | mday
deriving DecidableEq

/-- The width of the C type of a field. -/
@[grind] def Field.bits : Field → ℕ
  | .offset => 64
  | _ => 32

/-- A value of the C type of a field. -/
def Field.Holds (f : Field) (v : ℤ) : Prop := -2 ^ (f.bits - 1) ≤ v ∧ v < 2 ^ (f.bits - 1)

instance (f : Field) (v : ℤ) : Decidable (f.Holds v) := inferInstanceAs (Decidable (_ ∧ _))

/-- The field that a unit is counted in, and how often. -/
@[grind] def measure : TokId → Field × ℤ
  | .years => (.year, 1)
  | .months => (.mon, 1)
  | .weeks => (.mday, 7)
  | .days => (.mday, 1)
  | .hours => (.offset, 3600)
  | .minutes => (.offset, 60)
  | _ => (.offset, 1)

/-- What a summand adds to a field. -/
@[grind] def Summand.amount (x : Summand) (f : Field) : ℤ :=
  if (measure x.unit).1 = f then (if x.sign = .plus then x.number else -x.number) * (measure x.unit).2 else 0

@[grind] def total (xs : List Summand) (f : Field) : ℤ := (xs.map fun x => x.amount f).sum

/-- The total of the products as `int`. -/
@[grind] def intTotal (xs : List Summand) (f : Field) : ℤ := (xs.map fun x => s32 (x.amount f)).sum

def TimeValue.field (ptv : TimeValue) : Field → ℤ
  | .offset => ptv.offset
  | .year => ptv.tm.year
  | .mon => ptv.tm.mon
  | .mday => ptv.tm.mday

def TimeValue.withFields (ptv : TimeValue) (v : Field → ℤ) : TimeValue :=
  { ptv with offset := v .offset, tm := { ptv.tm with year := v .year, mon := v .mon, mday := v .mday } }

/-- The fields are values of their C types. -/
@[grind] def TimeValue.Fits (ptv : TimeValue) : Prop := ∀ f : Field, f.Holds (ptv.field f)

/-- What the terms are read as: behind a number without unit the next sign is taken for it, or the next number where there
is no sign, and then there is an error if that number has a unit. -/
@[grind] def asRead : Bool → List Term → Option (List Term)
  | _, [] => some []
  | false, t :: ts => (asRead t.unit.isNone ts).map (t :: ·)
  | true, { sign := some _, digits, unit } :: ts =>
    (asRead unit.isNone ts).map ({ sign := none, digits, unit } :: ·)
  | true, { sign := none, digits := _, unit := none } :: ts => asRead false ts
  | true, { sign := none, digits := _, unit := some _ } :: _ => none

/-! ### Sums -/

section Sums

variable {f : Field} {ptv : TimeValue} {x : Summand} {xs : List Summand}

/-- The conversion to the C type of a field. -/
def Field.wrap : Field → ℤ → ℤ
  | .offset => s64
  | _ => s32

lemma s32_eq_bmod (z : ℤ) : s32 z = z.bmod (2 ^ 32) := by rw [s32, BitVec.toInt_ofInt]

lemma s64_eq_bmod (z : ℤ) : s64 z = z.bmod (2 ^ 64) := by rw [s64, BitVec.toInt_ofInt]

lemma wrap_eq_bmod (v : ℤ) : f.wrap v = v.bmod (2 ^ f.bits) := by
  cases f with
  | offset => exact s64_eq_bmod v
  | year => exact s32_eq_bmod v
  | mon => exact s32_eq_bmod v
  | mday => exact s32_eq_bmod v

lemma wrap_of_holds {v : ℤ} (h : f.Holds v) : f.wrap v = v := by
  obtain ⟨hle, hlt⟩ := h
  rw [wrap_eq_bmod]
  cases f
  all_goals
    simp only [Field.bits] at hle hlt ⊢
    exact Int.bmod_eq_of_le (by norm_num at hle ⊢; omega) (by norm_num at hlt ⊢; omega)

lemma holds_wrap (v : ℤ) : f.Holds (f.wrap v) := by
  have hle := @Int.le_bmod v (2 ^ f.bits) (Nat.two_pow_pos _)
  have hlt := @Int.bmod_lt v (2 ^ f.bits) (Nat.two_pow_pos _)
  rw [wrap_eq_bmod]
  unfold Field.Holds
  cases f
  all_goals
    simp only [Field.bits] at hle hlt ⊢
    norm_num at hle hlt ⊢
    omega

lemma wrap_wrap_add (u v : ℤ) : f.wrap (f.wrap u + v) = f.wrap (u + v) := by
  rw [wrap_eq_bmod, wrap_eq_bmod, wrap_eq_bmod, Int.bmod_add_bmod]

/-- The conversion gives an exact value if and only if that fits and what is missing is a multiple of the size. -/
lemma wrap_eq_iff {u v : ℤ} : f.wrap u = v ↔ f.Holds v ∧ (2 ^ f.bits : ℤ) ∣ v - u := by
  constructor
  · rintro rfl
    refine ⟨holds_wrap u, ?_⟩
    have hself : (2 ^ f.bits : ℤ) ∣ u.bmod (2 ^ f.bits) - u := by
      have h := @Int.dvd_bmod_sub_self u (2 ^ f.bits)
      push_cast at h
      exact h
    rw [wrap_eq_bmod]
    exact hself
  · rintro ⟨hholds, k, hk⟩
    obtain rfl : v = u + (2 ^ f.bits : ℕ) * k := by
      push_cast
      omega
    rw [← wrap_of_holds hholds, wrap_eq_bmod, wrap_eq_bmod, Int.add_mul_bmod_self_left]

lemma s32_mul_left (a b : ℤ) : s32 (s32 a * b) = s32 (a * b) := by
  rw [s32_eq_bmod, s32_eq_bmod, s32_eq_bmod, Int.bmod_mul_bmod]

/-- The sign may be applied before a factor or after it. -/
lemma s32_signed_mul (op : TokId) (n k : ℤ) : s32 (signed op n * k) = s32 ((if op = .plus then n else -n) * k) :=
  s32_mul_left _ k

lemma s32_signed_s32 (op : TokId) (n k : ℤ) : s32 (signed op (s32 (n * k))) = s32 ((if op = .plus then n else -n) * k) := by
  unfold signed
  rw [s32_s32]
  split
  · rw [s32_s32]
  · rw [show -s32 (n * k) = s32 (n * k) * -1 by ring, s32_mul_left]
    congr 1
    ring

/-- What a number adds in the field of its unit, as an `int`. -/
lemma addDelta_measure (ptv : TimeValue) (unit op : TokId) (delta : ℤ) :
    addDelta ptv unit op delta =
      ptv.withFields fun f =>
        if (measure unit).1 = f then
          f.wrap (ptv.field f + s32 ((if op = .plus then delta else -delta) * (measure unit).2))
        else ptv.field f := by
  have hone : s32 ((if op = .plus then delta else -delta) * 1) = signed op delta := by
    rw [mul_one]
    rfl
  have hhours : s32 (signed op delta * 60 * 60) = s32 ((if op = .plus then delta else -delta) * 3600) := by
    rw [mul_assoc]
    exact s32_signed_mul op delta 3600
  cases unit
  case weeks =>
    have hweeks : s32 (ptv.tm.mday + signed op (s32 (delta * 7))) =
        s32 (ptv.tm.mday + s32 ((if op = .plus then delta else -delta) * 7)) := by
      rw [← s32_signed_s32, signed, s32_s32]
    simp only [addDelta, hweeks]
    rfl
  case hours =>
    simp only [addDelta, hhours]
    rfl
  case minutes =>
    simp only [addDelta, s32_signed_mul]
    rfl
  all_goals
    simp only [addDelta, measure, hone]
    rfl

lemma addDelta_eq (hfits : ptv.Fits) (unit op : TokId) (delta : ℤ) :
    addDelta ptv unit op delta =
      ptv.withFields fun f => f.wrap (ptv.field f + s32 (Summand.amount { sign := op, number := delta, unit } f)) := by
  rw [addDelta_measure]
  congr 1
  ext f
  unfold Summand.amount
  split
  · rfl
  · rw [s32_zero, add_zero, wrap_of_holds (hfits f)]

/-- The summands applied to the time value. -/
def applied (ptv : TimeValue) (xs : List Summand) : TimeValue :=
  xs.foldl (fun ptv x => addDelta ptv x.unit x.sign x.number) ptv

lemma field_withFields (ptv : TimeValue) (v : Field → ℤ) (f : Field) : (ptv.withFields v).field f = v f := by
  cases f
  all_goals rfl

/-- A sum of numbers changes the fields by the total, as far as the fields and the products hold it. -/
lemma applied_eq (hfits : ptv.Fits) (xs : List Summand) :
    applied ptv xs = ptv.withFields fun f => f.wrap (ptv.field f + intTotal xs f) := by
  induction xs generalizing ptv with
  | nil =>
    have hsame : (fun f : Field => f.wrap (ptv.field f + intTotal [] f)) = ptv.field := by
      ext f
      rw [intTotal, List.map_nil, List.sum_nil, add_zero, wrap_of_holds (hfits f)]
    rw [hsame]
    rfl
  | cons x xs ih =>
    have hfits' : (addDelta ptv x.unit x.sign x.number).Fits := by
      intro f
      rw [addDelta_eq hfits, field_withFields]
      exact holds_wrap _
    have hstep : applied ptv (x :: xs) = applied (addDelta ptv x.unit x.sign x.number) xs := rfl
    rw [hstep, ih hfits']
    have hfields : (fun f : Field => f.wrap ((addDelta ptv x.unit x.sign x.number).field f + intTotal xs f)) =
        fun f => f.wrap (ptv.field f + intTotal (x :: xs) f) := by
      ext f
      rw [addDelta_eq hfits, field_withFields, wrap_wrap_add, intTotal, intTotal, List.map_cons, List.sum_cons, add_assoc]
    rw [hfields, addDelta_eq hfits]
    rfl

/-- A time value with other fields is the same if and only if the fields are. -/
lemma withFields_inj (ptv : TimeValue) {u v : Field → ℤ} : ptv.withFields u = ptv.withFields v ↔ ∀ f, u f = v f := by
  constructor
  · intro h f
    rw [← field_withFields ptv u f, h, field_withFields]
  · intro h
    rw [funext h]

/-- What the terms lose that are read as others. -/
@[grind] def lost (terms read : List Term) (f : Field) : ℤ :=
  total (summands (fun d => digitsVal d) .plus none terms) f - intTotal (summands atoi .plus none read) f

/-- The time value changed by the exact sum of the terms. -/
@[grind] def TimeValue.plus (ptv : TimeValue) (terms : List Term) : TimeValue :=
  ptv.withFields fun f => ptv.field f + total (summands (fun d => digitsVal d) .plus none terms) f

lemma applied_eq_plus_iff (hfits : ptv.Fits) (terms read : List Term) :
    applied ptv (summands atoi .plus none read) = ptv.plus terms ↔
      ∀ f, f.Holds ((ptv.plus terms).field f) ∧ (2 ^ f.bits : ℤ) ∣ lost terms read f := by
  rw [applied_eq hfits, TimeValue.plus, withFields_inj]
  refine forall_congr' fun f => ?_
  rw [wrap_eq_iff, field_withFields, lost, add_sub_add_left_eq_sub]

end Sums

/-! ### What the terms are read as -/

section Terms

variable {ptv : TimeValue} {op : TokId} {prev : Option TokId}

/-- Only what `m` means depends on the unit before. -/
lemma runSyms_prev {prev' : Option TokId} (h : ∀ n, guessMonthsMinutes prev n = guessMonthsMinutes prev' n) (ptv : TimeValue)
    (op : TokId) (ts : List Sym) : runSyms ptv op prev ts = runSyms ptv op prev' ts := by
  match ts with
  | [] => rfl
  | [.num d] => rfl
  | .num d :: t :: ts =>
    have hunit : unitRead prev d t = unitRead prev' d t := by
      unfold unitRead
      rw [h]
    rw [runSyms, runSyms, hunit]
  | [.sym _] => rfl
  | [.sym _, .num d] => rfl
  | .sym _ :: .num d :: t :: ts => rw [runSyms, runSyms]
  | .sym _ :: .sym _ :: _ => rfl

lemma guess_sign (sign : Sign) (n : ℤ) : guessMonthsMinutes (some sign.tokid) n = guessMonthsMinutes none n := by
  cases sign
  all_goals rfl

lemma isSign_tokid (sign : Sign) : IsSign sign.tokid := by
  cases sign with
  | plus => exact .inl rfl
  | minus => exact .inr rfl

lemma exists_sign {tokid : TokId} (h : IsSign tokid) : ∃ sign : Sign, sign.tokid = tokid := by
  obtain rfl | rfl := h
  exacts [⟨.plus, rfl⟩, ⟨.minus, rfl⟩]

/-- A sign is the one of the number behind it. -/
lemma runSyms_sign (sign : Sign) (ptv : TimeValue) (op : TokId) (prev : Option TokId) (d : Text) (ts : List Sym) :
    runSyms ptv op prev (.sym sign.tokid :: .num d :: ts) = runSyms ptv sign.tokid none (.num d :: ts) := by
  cases ts with
  | nil => rw [runSyms, runSyms, if_pos (isSign_tokid sign)]
  | cons t ts => rw [runSyms, runSyms, if_pos (isSign_tokid sign)]

def offsetSymbols (terms : List Term) : List Sym := terms.flatMap Term.symbols

/-- The terms as they are read, in front of which the last number has its unit, or takes the next token for it. -/
def ReadsAs (terms : List Term) : Prop :=
  (∀ ptv op prev, runSyms ptv op prev (offsetSymbols terms) =
    (asRead false terms).map fun read => applied ptv (summands atoi op prev read)) ∧
  ∀ ptv op prev d, runSyms ptv op prev (.num d :: offsetSymbols terms) =
    (asRead true terms).map fun read => applied (addDelta ptv .seconds op (atoi d)) (summands atoi op none read)

lemma unitRead_unit (prev : Option TokId) (d : Text) (unit : OffsetUnit) :
    unitRead prev d (.sym unit.tokid) = Term.unitIn prev (atoi d) { sign := none, digits := d, unit := some unit } := by
  cases unit
  all_goals rfl

/-- A term without sign, with the terms behind it. -/
lemma runSyms_unsigned {ts : List Term} (h : ReadsAs ts) (ptv : TimeValue) (op : TokId) (prev : Option TokId) (digits : Text)
    (unit : Option OffsetUnit) :
    runSyms ptv op prev (offsetSymbols ({ sign := none, digits, unit } :: ts)) =
      (asRead unit.isNone ts).map fun read =>
        applied ptv (summands atoi op prev ({ sign := none, digits, unit } :: read)) := by
  cases unit with
  | none => exact h.2 ptv op prev digits
  | some unit =>
    have hsymbols : offsetSymbols ({ sign := none, digits, unit := some unit } :: ts) =
        .num digits :: .sym unit.tokid :: offsetSymbols ts := rfl
    rw [hsymbols, runSyms, unitRead_unit, h.1]
    rfl

/-- A sign is the same as one before. -/
lemma summands_signed (number : Text → ℤ) (op : TokId) (prev : Option TokId) (sign : Sign) (digits : Text)
    (unit : Option OffsetUnit) (ts : List Term) :
    summands number op prev ({ sign := some sign, digits, unit } :: ts) =
      summands number sign.tokid none ({ sign := none, digits, unit } :: ts) := by
  have hunit : ∀ n, Term.unitIn prev n { sign := some sign, digits, unit } =
      Term.unitIn none n { sign := none, digits, unit } := by
    intro n
    cases unit with
    | none => rfl
    | some unit =>
      cases unit
      all_goals rfl
  rw [summands, summands, hunit]
  rfl

lemma runSyms_signed {ts : List Term} (h : ReadsAs ts) (ptv : TimeValue) (op : TokId) (prev : Option TokId) (sign : Sign)
    (digits : Text) (unit : Option OffsetUnit) :
    runSyms ptv op prev (offsetSymbols ({ sign := some sign, digits, unit } :: ts)) =
      (asRead unit.isNone ts).map fun read =>
        applied ptv (summands atoi op prev ({ sign := some sign, digits, unit } :: read)) := by
  simp only [summands_signed]
  rw [← runSyms_unsigned h]
  exact runSyms_sign sign ptv op prev digits _

/-- A token that is taken for the unit of a number is none: it is read in seconds. -/
lemma runSyms_taken {t : Sym} (h : t.tokid = .plus ∨ t.tokid = .minus ∨ t.tokid = .number) (ptv : TimeValue) (op : TokId)
    (prev : Option TokId) (d : Text) (ts : List Sym) :
    runSyms ptv op prev (.num d :: t :: ts) = runSyms (addDelta ptv .seconds op (atoi d)) op none ts := by
  have hunit : unitRead prev d t = t.tokid := by
    unfold unitRead
    rw [if_neg]
    rintro heq
    rw [heq] at h
    obtain h | h | h := h
    all_goals cases h
  have hguess : ∀ n, guessMonthsMinutes (some t.tokid) n = guessMonthsMinutes none n := by
    obtain h | h | h := h
    all_goals
      rw [h]
      exact fun _ => rfl
  have hdelta : addDelta ptv t.tokid op (atoi d) = addDelta ptv .seconds op (atoi d) := by
    obtain h | h | h := h
    all_goals
      rw [h]
      rfl
  rw [runSyms, hunit, runSyms_prev hguess, hdelta]

/-- What the loop reads are the terms with the tokens left out that are taken for a unit. -/
lemma readsAs (terms : List Term) : ReadsAs terms := by
  induction terms with
  | nil => exact ⟨fun _ _ _ => rfl, fun _ _ _ _ => rfl⟩
  | cons t ts ih =>
    obtain ⟨sign, digits, unit⟩ := t
    constructor
    · intro ptv op prev
      rw [asRead, Option.map_map]
      cases sign with
      | none => exact runSyms_unsigned ih ptv op prev digits unit
      | some sign => exact runSyms_signed ih ptv op prev sign digits unit
    · intro ptv op prev d
      cases sign with
      | some sign =>
        have htaken : IsSign sign.tokid := isSign_tokid sign
        rw [asRead, Option.map_map]
        refine (@runSyms_taken (.sym sign.tokid) ?_ ptv op prev d _).trans (runSyms_unsigned ih _ op none digits unit)
        exact htaken.imp_right .inl
      | none =>
        have htaken : ∀ ts, runSyms ptv op prev (.num d :: .num digits :: ts) =
            runSyms (addDelta ptv .seconds op (atoi d)) op none ts := runSyms_taken (.inr (.inr rfl)) ptv op prev d
        cases unit with
        | none => exact (htaken _).trans (ih.1 _ op none)
        | some unit =>
          refine (htaken _).trans ?_
          cases unit
          all_goals exact runSyms_other (by unfold IsSign; decide) _

end Terms

/-! ### The whole offset -/

/-- What the loop runs through: an optional sign, a number and one more token, whatever that is. -/
inductive Rounds : List Sym → Prop where
  | nil : Rounds []
  | last (d : Text) : Rounds [.num d]
  | number (d : Text) (t : Sym) {ts : List Sym} : Rounds ts → Rounds (.num d :: t :: ts)
  | sign (sign : Sign) (d : Text) {ts : List Sym} : Rounds (.num d :: ts) → Rounds (.sym sign.tokid :: .num d :: ts)

/-- A unit, a sign or a number. -/
def Sym.BelongsBehind (t : Sym) : Prop :=
  (∃ d, t = .num d) ∨ (∃ sign : Sign, t = .sym sign.tokid) ∨ ∃ unit : OffsetUnit, t = .sym unit.tokid

/-- A character that the scanner does not read. -/
def isForeign (c : Char) : Bool := !isBlank c && !c.isDigit && !c.isAlpha && (punctuation c).isNone

/-- Behind some number there is neither the end nor a unit, a sign or a number. -/
def Foreign (text : Text) (toks : List Sym) : Prop :=
  (∃ pre d t post, toks = pre ++ .num d :: t :: post ∧ ¬ t.BelongsBehind) ∨
    (∃ pre d, toks = pre ++ [.num d]) ∧ ∃ c ∈ text, isForeign c

/-- What is expected of an offset with the tokens `toks`, behind a reference that `s` is the state after: a list of terms
changes the time by its sum or is an error, and foreign text behind a number is an error. -/
def AddsUp (outcome : Except Text TimeValue) (s : State) (toks : List Sym) : Prop :=
  ((∀ c ∈ s.scanner.sct, ¬ isForeign c) → ∀ terms, toks = offsetSymbols terms → ∀ ptv, outcome = .ok ptv →
    ptv = s.ptv.plus terms) ∧
  (Foreign s.scanner.sct toks → ∃ e, outcome = .error e)

/-- When it is so: what stands behind the numbers in the rounds of the loop is not foreign, the sums fit the fields, and
what the terms lose by a sign or a number that is taken for a unit, and by products beyond an `int`, comes to nothing. -/
def LosesNothing (s : State) (toks : List Sym) : Prop :=
  ((∀ c ∈ s.scanner.sct, ¬ isForeign c) → ∀ terms read, toks = offsetSymbols terms → asRead false terms = some read →
    ∀ f : Field, f.Holds ((s.ptv.plus terms).field f) ∧ (2 ^ f.bits : ℤ) ∣ lost terms read f) ∧
  (Rounds toks → ¬ Foreign s.scanner.sct toks)

section Offset

variable {s : State} {static : Repeated} {toks : List Sym}

lemma runSyms_isSome_iff (toks : List Sym) (ptv : TimeValue) (op : TokId) (prev : Option TokId) :
    (runSyms ptv op prev toks).isSome ↔ Rounds toks := by
  constructor
  · fun_induction runSyms ptv op prev toks with
    | case1 => exact fun _ => .nil
    | case2 => exact fun _ => .last _
    | case3 _ _ _ _ _ _ ih => exact fun h => .number _ _ (ih h)
    | case4 _ _ _ _ _ hsign =>
      obtain ⟨sign, rfl⟩ := exists_sign hsign
      exact fun _ => .sign _ _ (.last _)
    | case5 => exact nofun
    | case6 _ _ _ _ _ _ _ hsign ih =>
      obtain ⟨sign, rfl⟩ := exists_sign hsign
      exact fun h => .sign _ _ (.number _ _ (ih h))
    | case7 => exact nofun
    | case8 => exact nofun
  · intro h
    induction h generalizing ptv op prev with
    | nil => rfl
    | last d => rfl
    | number d t _ ih => exact ih _ _ _
    | sign sign d _ ih =>
      rw [runSyms_sign]
      exact ih _ _ _

/-- Each token takes a character. -/
lemma Ahead.length_le {specials : SpecialTokens} {text : Text} {ts : List Sym} (hw : Words specials)
    (h : Parsetime.Ahead specials text ts) : ts.length ≤ text.length := by
  induction h with
  | stop => exact Nat.zero_le _
  | @cons text ts hne _ ih =>
    have hlt : (Scanner.init specials text).next.sct.length < text.length := by
      obtain ⟨h, -⟩ | ⟨-, -, h, -⟩ | ⟨-, -, -, h, -⟩ | ⟨c, p, -, -, -, -, h, -⟩ :=
        @next_cases (Scanner.init specials text) hw rfl
      · exact absurd h hne
      · exact h
      · exact h
      · exact absurd h hne
    rw [List.length_cons]
    omega

lemma parseOffset_sign (hsign : IsSign s.scanner.tokid) :
    parseOffset s static =
      (offsetLoop (s.scanner.sct.length + 1) { s with scanner := { s.scanner with specials := timeMultipliers } } static).bind
        fun s =>
          if s.scanner.tokid = .eof then .ok s
          else .error ("unparsable trailing text: '...".toList ++ s.trailing ++ ['\'']) := by
  have h : s.scanner.tokid = .plus ∨ s.scanner.tokid = .minus := hsign
  unfold parseOffset
  rw [if_pos h]
  rfl

/-- The parser of the offset gives what the loop on the tokens does. -/
lemma parseOffset_iff (hsign : IsSign s.scanner.tokid)
    (htoks : ({ s.scanner with specials := timeMultipliers } : Scanner).On toks) (ptv : TimeValue) :
    (∃ s', parseOffset s static = .ok s' ∧ s'.ptv = ptv) ↔
      runSyms s.ptv static.op static.prevMultiplier toks = some ptv := by
  have hlen : toks.length ≤ s.scanner.sct.length + 1 := by
    obtain _ | ⟨t, ts⟩ := toks
    · exact Nat.zero_le _
    · have hahead := htoks.ahead
      unfold Scanner.Ahead at hahead
      split at hahead
      · rw [hahead, List.length_singleton]
        omega
      · rw [List.length_cons]
        exact Nat.succ_le_succ (Ahead.length_le words_timeMultipliers hahead)
  have hspec := @offsetLoop_spec { s with scanner := { s.scanner with specials := timeMultipliers } } static toks
    (s.scanner.sct.length + 1) words_timeMultipliers htoks hlen
  rw [parseOffset_sign hsign]
  cases hrun : runSyms s.ptv static.op static.prevMultiplier toks with
  | some ptv' =>
    rw [hrun] at hspec
    obtain ⟨s', hloop, heof, hptv⟩ := hspec
    rw [hloop, Except.bind, if_pos heof]
    constructor
    · rintro ⟨s'', heq, rfl⟩
      cases heq
      rw [hptv]
    · intro heq
      cases heq
      exact ⟨s', rfl, hptv⟩
  | none =>
    rw [hrun] at hspec
    refine iff_of_false ?_ nofun
    rintro ⟨s', heq, -⟩
    cases hloop : offsetLoop (s.scanner.sct.length + 1)
        { s with scanner := { s.scanner with specials := timeMultipliers } } static with
    | error e =>
      rw [hloop] at heq
      cases heq
    | ok s'' =>
      obtain ⟨hne, -⟩ := hspec s'' hloop
      rw [hloop, Except.bind, if_neg hne] at heq
      cases heq

/-- The sign that an offset begins with is that of its first term, so that the one before does not matter. -/
lemma runSyms_terms (hsign : IsSign s.scanner.tokid) {terms : List Term}
    (hterms : ({ s.scanner with specials := timeMultipliers } : Scanner).On (offsetSymbols terms)) :
    runSyms s.ptv static.op static.prevMultiplier (offsetSymbols terms) =
      (asRead false terms).map fun read => applied s.ptv (summands atoi .plus none read) := by
  rw [(readsAs terms).1]
  obtain _ | ⟨⟨_ | sign, digits, unit⟩, ts⟩ := terms
  · rfl
  · obtain ⟨hnumber, -⟩ := tokid_of_num hterms
    dsimp only at hnumber
    rw [hnumber] at hsign
    obtain h | h := hsign
    all_goals cases h
  · rw [asRead, Option.map_map, Option.map_map]
    rfl

end Offset

/-! ### Terms that are read as they are written -/

/-- A number without a unit is the last one, or the same sign is written behind it. -/
def Repeats (op : TokId) : List Term → Prop
  | [] => True
  | t :: ts => (t.unit = none → ∀ t' ∈ ts.head?, t'.sign.map Sign.tokid = some (t.signIn op)) ∧ Repeats (t.signIn op) ts

/-- Terms whose tokens are all read for what they are, with numbers and products that an `int` holds. -/
structure Plain (terms : List Term) : Prop where
  repeats : Repeats .plus terms
  digits : ∀ t ∈ terms, t.digits ≠ [] ∧ (∀ c ∈ t.digits, c.isDigit) ∧ digitsVal t.digits < 2 ^ 31
  products : ∀ x ∈ summands (fun d => digitsVal d) .plus none terms, ∀ f, -2 ^ 31 ≤ x.amount f ∧ x.amount f < 2 ^ 31

section Plain

variable {op : TokId} {prev : Option TokId}

lemma offsetSymbols_ne_unit (ts : List Term) (unit : OffsetUnit) (rest : List Sym) :
    offsetSymbols ts ≠ .sym unit.tokid :: rest := by
  obtain _ | ⟨⟨_ | sign, digits, unit'⟩, ts⟩ := ts
  · exact nofun
  · exact nofun
  · rintro h
    have htokid : sign.tokid = unit.tokid := Sym.sym.inj (List.cons.inj h).1
    cases sign
    all_goals
      cases unit
      all_goals cases htokid

/-- The terms of an offset are determined by its tokens. -/
lemma offsetSymbols_inj {ts us : List Term} (h : offsetSymbols ts = offsetSymbols us) : ts = us := by
  induction ts generalizing us with
  | nil =>
    obtain _ | ⟨⟨_ | sign, digits, unit⟩, us⟩ := us
    · rfl
    all_goals cases h
  | cons t ts ih =>
    obtain _ | ⟨u, us⟩ := us
    · obtain ⟨_ | sign, digits, unit⟩ := t
      all_goals cases h
    · obtain ⟨sign, digits, unit⟩ := t
      obtain ⟨sign', digits', unit'⟩ := u
      have hsplit : sign = sign' ∧ .num digits :: (unit.toList.map fun unit => Sym.sym unit.tokid) ++ offsetSymbols ts =
          .num digits' :: (unit'.toList.map fun unit => Sym.sym unit.tokid) ++ offsetSymbols us := by
        cases sign with
        | none =>
          cases sign' with
          | none => exact ⟨rfl, h⟩
          | some sign' => cases h
        | some sign =>
          cases sign' with
          | none => cases h
          | some sign' =>
            obtain ⟨hhead, htail⟩ := List.cons.inj h
            have htokid := Sym.sym.inj hhead
            refine ⟨?_, htail⟩
            cases sign
            all_goals
              cases sign'
              all_goals first | rfl | cases htokid
      obtain ⟨rfl, hrest⟩ := hsplit
      obtain ⟨hdigits, hunit⟩ := List.cons.inj hrest
      cases hdigits
      cases unit with
      | none =>
        cases unit' with
        | none => rw [ih hunit]
        | some unit' => exact absurd hunit (offsetSymbols_ne_unit ts unit' _)
      | some unit =>
        cases unit' with
        | none => exact absurd hunit.symm (offsetSymbols_ne_unit us unit _)
        | some unit' =>
          obtain ⟨hhead, htail⟩ := List.cons.inj hunit
          have htokid := Sym.sym.inj hhead
          rw [ih htail]
          cases unit
          all_goals
            cases unit'
            all_goals first | rfl | cases htokid

lemma summands_cons (number : Text → ℤ) (t : Term) {ts us : List Term}
    (h : ∀ prev, (t.unit = none → prev = none) →
      summands number (t.signIn op) prev ts = summands number (t.signIn op) prev us) (prev : Option TokId) :
    summands number op prev (t :: ts) = summands number op prev (t :: us) := by
  rw [summands, summands, h]
  rintro hunit
  rw [hunit]
  rfl

/-- Such terms are read with the same meaning. -/
lemma asRead_of_repeats (number : Text → ℤ) {ts : List Term} (h : Repeats op ts) :
    (∃ read, asRead false ts = some read ∧ ∀ prev, summands number op prev read = summands number op prev ts) ∧
      ((∀ t ∈ ts.head?, t.sign.map Sign.tokid = some op) →
        ∃ read, asRead true ts = some read ∧ ∀ prev, summands number op none read = summands number op prev ts) := by
  induction ts generalizing op with
  | nil => exact ⟨⟨[], rfl, fun _ => rfl⟩, fun _ => ⟨[], rfl, fun _ => rfl⟩⟩
  | cons t ts ih =>
    obtain ⟨hsign, hts⟩ := h
    have hread : ∃ read, asRead t.unit.isNone ts = some read ∧ ∀ prev, (t.unit = none → prev = none) →
        summands number (t.signIn op) prev read = summands number (t.signIn op) prev ts := by
      cases hunit : t.unit with
      | none =>
        obtain ⟨read, hread, hsum⟩ := (ih hts).2 (hsign hunit)
        refine ⟨read, hread, ?_⟩
        rintro prev hprev
        rw [hprev rfl]
        exact hsum none
      | some unit =>
        obtain ⟨read, hread, hsum⟩ := (ih hts).1
        exact ⟨read, hread, fun prev _ => hsum prev⟩
    obtain ⟨read, hread, hsum⟩ := hread
    refine ⟨⟨t :: read, ?_, summands_cons number t hsum⟩, ?_⟩
    · rw [asRead, hread, Option.map_some]
    · intro hop
      obtain ⟨_ | sign, digits, unit⟩ := t
      · cases hop _ rfl
      · obtain rfl : sign.tokid = op := Option.some.inj (hop _ rfl)
        refine ⟨{ sign := none, digits, unit } :: read, ?_, fun prev => ?_⟩
        · rw [asRead, hread, Option.map_some]
        · rw [summands_signed]
          exact summands_cons number { sign := none, digits, unit } hsum none

lemma summands_congr {number number' : Text → ℤ} {ts : List Term} (h : ∀ t ∈ ts, number t.digits = number' t.digits) :
    summands number op prev ts = summands number' op prev ts := by
  induction ts generalizing op prev with
  | nil => rfl
  | cons t ts ih =>
    rw [summands, summands, h t List.mem_cons_self, ih fun t' ht' => h t' (List.mem_cons_of_mem t ht')]

lemma atoi_of_lt {d : Text} (hne : d ≠ []) (hdigits : ∀ c ∈ d, c.isDigit) (hlt : digitsVal d < 2 ^ 31) :
    atoi d = digitsVal d := by
  rw [atoi_digits hne hdigits]
  have hlong : toLong (digitsVal d) = digitsVal d := by
    unfold toLong
    omega
  rw [hlong, s32_natCast hlt]

lemma Plain.lost_eq_zero {terms read : List Term} (h : Plain terms) (hread : asRead false terms = some read) (f : Field) :
    lost terms read f = 0 := by
  obtain ⟨read', hread', hsum⟩ := (asRead_of_repeats atoi h.repeats).1
  obtain rfl : read = read' := Option.some.inj (hread.symm.trans hread')
  have hnumbers : summands atoi .plus none terms = summands (fun d => digitsVal d) .plus none terms := by
    refine summands_congr fun t ht => ?_
    obtain ⟨hne, hdigits, hlt⟩ := h.digits t ht
    exact atoi_of_lt hne hdigits hlt
  have hint : ∀ x ∈ summands (fun d => digitsVal d) .plus none terms, s32 (x.amount f) = x.amount f :=
    fun x hx => s32_of_mem (h.products x hx f).1 (h.products x hx f).2
  rw [lost, hsum, hnumbers, total, intTotal, List.map_congr_left hint, sub_self]

lemma belongsBehind_of_mem {terms : List Term} {t : Sym} (h : t ∈ offsetSymbols terms) : t.BelongsBehind := by
  obtain ⟨term, -, h⟩ := List.mem_flatMap.1 h
  unfold Term.symbols at h
  obtain h | h := List.mem_append.1 h
  · obtain ⟨sign, -, rfl⟩ := List.mem_map.1 h
    exact .inr (.inl ⟨sign, rfl⟩)
  · obtain rfl | h := List.mem_cons.1 h
    · exact .inl ⟨_, rfl⟩
    · obtain ⟨unit, -, rfl⟩ := List.mem_map.1 h
      exact .inr (.inr ⟨unit, rfl⟩)

/-- Of such terms nothing is lost, where the sums fit the fields. -/
theorem Plain.losesNothing {s : State} {terms : List Term} (h : Plain terms) (hclean : ∀ c ∈ s.scanner.sct, ¬ isForeign c)
    (hfits : (s.ptv.plus terms).Fits) : LosesNothing s (offsetSymbols terms) := by
  refine ⟨fun _ terms' read hterms hread f => ?_, fun _ hforeign => ?_⟩
  · obtain rfl := offsetSymbols_inj hterms
    rw [h.lost_eq_zero hread]
    exact ⟨hfits f, dvd_zero _⟩
  · obtain ⟨pre, d, t, post, hsplit, ht⟩ | ⟨-, c, hc, hforeign⟩ := hforeign
    · refine ht (@belongsBehind_of_mem terms t ?_)
      rw [hsplit]
      simp
    · exact hclean c hc hforeign

end Plain

/-- The terms of an offset add up if and only if nothing is lost. -/
theorem parseTime_addsUp_iff {localtime : ℤ → StructTm} {now : StructTm} {tspec : Text} {static : Repeated} {s : State}
    {toks : List Sym} (hs : parseReference localtime now tspec = .ok s) (hsign : IsSign s.scanner.tokid)
    (htoks : ({ s.scanner with specials := timeMultipliers } : Scanner).On toks) (hfits : s.ptv.Fits) :
    AddsUp (parseTime localtime now tspec static) s toks ↔ LosesNothing s toks := by
  have hrun : ∀ ptv, parseTime localtime now tspec static = .ok ptv ↔
      runSyms s.ptv static.op static.prevMultiplier toks = some ptv := by
    intro ptv
    rw [← parseOffset_iff hsign htoks]
    unfold parseTime
    rw [hs]
    cases hoffset : parseOffset s static with
    | error e => simp [bind, Except.bind, hoffset]
    | ok s' => simp [bind, Except.bind, hoffset, pure, Except.pure]
  refine and_congr ?_ ?_
  · refine imp_congr_right fun _ => ⟨?_, ?_⟩
    · intro h terms read hterms hread
      rw [← applied_eq_plus_iff hfits]
      refine h terms hterms _ ((hrun _).2 ?_)
      rw [hterms] at htoks ⊢
      rw [runSyms_terms hsign htoks, hread, Option.map_some]
    · intro h terms hterms ptv hptv
      rw [hterms] at htoks
      rw [hrun, hterms, runSyms_terms hsign htoks, Option.map_eq_some_iff] at hptv
      obtain ⟨read, hread, rfl⟩ := hptv
      exact (applied_eq_plus_iff hfits terms read).2 (h terms read hterms hread)
  · have herror : (∃ e, parseTime localtime now tspec static = .error e) ↔ ¬ Rounds toks := by
      rw [← runSyms_isSome_iff toks s.ptv static.op static.prevMultiplier]
      cases houtcome : parseTime localtime now tspec static with
      | ok ptv => simp [(hrun ptv).1 houtcome]
      | error e =>
        refine iff_of_true ⟨e, rfl⟩ ?_
        rw [Option.isSome_iff_exists]
        rintro ⟨ptv, hptv⟩
        rw [(hrun ptv).2 hptv] at houtcome
        cases houtcome
    rw [herror]
    exact ⟨fun h hrounds hforeign => h hforeign hrounds, fun h hforeign hrounds => h hrounds hforeign⟩

/-- The terms of an hour less three seconds, and of five less three. -/
def hourTerms : List Term := [⟨some .plus, ['1'], some .hours⟩, ⟨some .minus, ['3'], some .seconds⟩]

def fiveTerms : List Term := [⟨some .plus, ['5'], none⟩, ⟨some .minus, ['3'], none⟩]

lemma on_hourTerms : ({ (start november "+1h-3s".toList).scanner with specials := timeMultipliers } : Scanner).On
    (offsetSymbols hourTerms) :=
  ⟨by decide, by decide, .cons (by decide) (.cons (by decide) (.cons (by decide) (.cons (by decide)
    (.cons (by decide) (.stop (by decide))))))⟩

lemma on_fiveTerms : ({ (start november "+5-3".toList).scanner with specials := timeMultipliers } : Scanner).On
    (offsetSymbols fiveTerms) :=
  ⟨by decide, by decide, .cons (by decide) (.cons (by decide) (.cons (by decide) (.stop (by decide))))⟩

lemma fits_november : (start november []).ptv.Fits := by
  intro f
  cases f
  all_goals decide

lemma plain_hourTerms : Plain hourTerms := by
  refine ⟨⟨nofun, nofun, trivial⟩, ?_, ?_⟩
  · intro t ht
    fin_cases ht
    all_goals exact ⟨by decide, List.all_iff_forall_prop.1 (by decide), by decide⟩
  · intro x hx f
    fin_cases hx
    all_goals
      cases f
      all_goals decide

/-- An hour less three seconds. -/
theorem parseTime_addsUp_hour :
    AddsUp (parseTime gmtime november "+1h-3s".toList { op := .plus, prevMultiplier := none })
      (start november "+1h-3s".toList) (offsetSymbols hourTerms) :=
  (parseTime_addsUp_iff rfl (.inl rfl) on_hourTerms fits_november).2
    (plain_hourTerms.losesNothing (List.all_iff_forall_prop.1 (by decide)) (by intro f; cases f; all_goals decide))

/-- Behind a number without unit, a minus is taken for one: five less three is eight. -/
theorem parseTime_addsUp_five :
    ¬ ∀ (localtime : ℤ → StructTm) (now : StructTm) (tspec : Text) (static : Repeated) (s : State) (toks : List Sym),
      parseReference localtime now tspec = .ok s → IsSign s.scanner.tokid →
      ({ s.scanner with specials := timeMultipliers } : Scanner).On toks → s.ptv.Fits →
      AddsUp (parseTime localtime now tspec static) s toks := by
  intro h
  obtain ⟨hsum, -⟩ := h gmtime november "+5-3".toList { op := .plus, prevMultiplier := none } _ _ rfl (.inl rfl) on_fiveTerms
    fits_november
  have height : parseTime gmtime november "+5-3".toList { op := .plus, prevMultiplier := none } =
      .ok { type := .absolute, offset := 8, tm := november } := by decide
  have htwo := hsum (List.all_iff_forall_prop.1 (by decide)) fiveTerms rfl _ height
  exact absurd (congrArg TimeValue.offset htwo) (by decide)

end Rrdtool.Parsetime
