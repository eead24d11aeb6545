import Mathlib.Data.Bool.AllAny
import Mathlib.Data.List.TakeWhile
import Rrdtool.Create.Parse

/-!
# Durations

What the argument of `rrd_scaled_duration` (`src/rrd_utils.c`) means, and when the function finds it. It looks at one
character behind the digits only, takes the greatest number for one that does not fit, and multiplies modulo `2 ^ 64`.
-/

namespace Rrdtool

/-- What an argument means: a count without a unit, or the part of the seconds that the divisor gives. -/
inductive ScaledDuration (divisor : ℕ) : Text → ℕ → Prop where
  | count {digits : Text} : (∀ c ∈ digits, c.isDigit) → 0 < digitsVal digits → digitsVal digits < 2 ^ 64 →
    ScaledDuration divisor digits (digitsVal digits)
  | scaled {digits : Text} {unit : Char} {seconds n : ℕ} : (∀ c ∈ digits, c.isDigit) → unitSeconds unit = some seconds →
    0 < n → digitsVal digits * seconds = n * divisor → n * divisor < 2 ^ 64 →
    ScaledDuration divisor (digits ++ [unit]) n

/-- The seconds that `rrd_scaled_duration` computes. -/
@[grind] def wrappedSeconds (digits : Text) (seconds : ℕ) : ℕ := min (digitsVal digits) (2 ^ 64 - 1) * seconds % 2 ^ 64

/-- Nothing of the argument is overlooked: a count fits, and so do the seconds, with nothing behind the unit, unless what is
computed for them is refused. -/
def ReadInFull (divisor : ℕ) (token : Text) : Prop :=
  let digits := token.takeWhile Char.isDigit
  match token.dropWhile Char.isDigit with
  | [] => digitsVal digits < 2 ^ 64
  | unit :: rest =>
    ∀ seconds ∈ unitSeconds unit, (rest = [] ∧ digitsVal digits * seconds < 2 ^ 64) ∨
      wrappedSeconds digits seconds = 0 ∨ ¬ divisor ∣ wrappedSeconds digits seconds

section Durations

variable {divisor n seconds : ℕ} {digits rest : Text} {unit : Char}

lemma unitSeconds_pos (h : unitSeconds unit = some seconds) : 0 < seconds := by
  unfold unitSeconds at h
  split at h
  all_goals cases h
  all_goals decide

lemma not_isDigit_of_unitSeconds (h : unitSeconds unit = some seconds) : unit.isDigit = false := by
  unfold unitSeconds at h
  split at h
  all_goals cases h
  all_goals rfl

lemma digitsVal_nil : digitsVal [] = 0 := rfl

lemma wrappedSeconds_of_lt (hpos : 0 < seconds) (h : digitsVal digits * seconds < 2 ^ 64) :
    wrappedSeconds digits seconds = digitsVal digits * seconds := by
  have hle := Nat.le_mul_of_pos_right (digitsVal digits) hpos
  rw [wrappedSeconds, min_eq_left (by omega), Nat.mod_eq_of_lt h]

/-- A count. -/
lemma rrdScaledDuration_count (hdigits : ∀ c ∈ digits, c.isDigit) (hdiv : 1 ≤ divisor) :
    rrdScaledDuration digits divisor = .ok n ↔ 0 < digitsVal digits ∧ n = min (digitsVal digits) (2 ^ 64 - 1) := by
  have htake : digits.takeWhile Char.isDigit = digits := List.takeWhile_eq_self_iff.2 hdigits
  have hdrop : digits.dropWhile Char.isDigit = [] := List.dropWhile_eq_nil_iff.2 hdigits
  rw [rrdScaledDuration, htake, hdrop]
  dsimp only
  by_cases hnil : digits = []
  · subst hnil
    rw [if_pos rfl]
    exact iff_of_false nofun fun h => (Nat.lt_irrefl 0 h.1)
  · rw [if_neg hnil, if_neg (by omega)]
    split
    · exact iff_of_false nofun fun h => by omega
    · rw [Except.ok.injEq]
      exact ⟨fun h => ⟨by omega, h.symm⟩, fun h => h.2.symm⟩

/-- A time. -/
lemma rrdScaledDuration_unit (hdigits : ∀ c ∈ digits, c.isDigit) (hunit : unit.isDigit = false) (hdiv : 1 ≤ divisor) :
    rrdScaledDuration (digits ++ unit :: rest) divisor = .ok n ↔
      ∃ seconds ∈ unitSeconds unit, 0 < n ∧ wrappedSeconds digits seconds = n * divisor := by
  have htake : (digits ++ unit :: rest).takeWhile Char.isDigit = digits := by
    rw [List.takeWhile_append_of_pos hdigits, List.takeWhile_cons_of_neg (by rw [hunit]; exact Bool.false_ne_true), List.append_nil]
  have hdrop : (digits ++ unit :: rest).dropWhile Char.isDigit = unit :: rest := by
    rw [List.dropWhile_append_of_pos hdigits, List.dropWhile_cons_of_neg (by rw [hunit]; exact Bool.false_ne_true)]
  rw [rrdScaledDuration, htake, hdrop]
  dsimp only
  by_cases hnil : digits = []
  · subst hnil
    rw [if_pos rfl]
    refine iff_of_false nofun ?_
    rintro ⟨seconds, -, hn, hvalue⟩
    rw [wrappedSeconds, digitsVal_nil, Nat.zero_min, Nat.zero_mul, Nat.zero_mod] at hvalue
    exact absurd hvalue.symm (Nat.mul_ne_zero hn.ne' (by omega))
  · rw [if_neg hnil, if_neg (by omega)]
    cases hseconds : unitSeconds unit with
    | none => exact iff_of_false nofun fun ⟨_, hs, _⟩ => by cases hs
    | some seconds =>
      have hvalue : min (digitsVal digits) (2 ^ 64 - 1) * seconds % 2 ^ 64 = wrappedSeconds digits seconds := rfl
      simp only [Option.mem_some, exists_eq_left', hvalue]
      by_cases hzero : wrappedSeconds digits seconds = 0
      · rw [if_pos hzero, hzero]
        exact iff_of_false nofun fun h => (Nat.mul_pos h.1 hdiv).ne h.2
      · rw [if_neg hzero]
        by_cases hdvd : divisor ∣ wrappedSeconds digits seconds
        · rw [if_neg (not_not.2 (Nat.mod_eq_zero_of_dvd hdvd)), Except.ok.injEq, Nat.div_eq_iff_eq_mul_left hdiv hdvd]
          refine ⟨fun h => ⟨Nat.pos_of_ne_zero fun hn => hzero ?_, h⟩, fun h => h.2⟩
          rw [h, hn, Nat.zero_mul]
        · rw [if_pos fun h => hdvd (Nat.dvd_of_mod_eq_zero h)]
          refine iff_of_false nofun fun h => hdvd ?_
          rw [h.2]
          exact Nat.dvd_mul_left divisor n

lemma scaledDuration_count_iff (hdigits : ∀ c ∈ digits, c.isDigit) :
    ScaledDuration divisor digits n ↔ 0 < digitsVal digits ∧ digitsVal digits < 2 ^ 64 ∧ n = digitsVal digits := by
  constructor
  · intro h
    cases h with
    | count _ hpos hlt => exact ⟨hpos, hlt, rfl⟩
    | scaled _ hunit =>
      have hdigit := hdigits _ (List.mem_append_right _ (List.mem_singleton_self _))
      rw [not_isDigit_of_unitSeconds hunit] at hdigit
      cases hdigit
  · rintro ⟨hpos, hlt, rfl⟩
    exact .count hdigits hpos hlt

lemma scaledDuration_unit_iff (hdigits : ∀ c ∈ digits, c.isDigit) (hunit : unit.isDigit = false) :
    ScaledDuration divisor (digits ++ unit :: rest) n ↔ rest = [] ∧
      ∃ seconds ∈ unitSeconds unit, 0 < n ∧ digitsVal digits * seconds = n * divisor ∧ n * divisor < 2 ^ 64 := by
  constructor
  · intro h
    generalize htoken : digits ++ unit :: rest = token at h
    cases h with
    | count hall =>
      rw [← htoken] at hall
      have hdigit := hall unit (List.mem_append_right _ List.mem_cons_self)
      rw [hunit] at hdigit
      cases hdigit
    | @scaled digits' unit' seconds _ hdigits' hunit' hpos hvalue hlt =>
      have hplain : ∀ {c : Char} {l : Text}, c.isDigit = false → (c :: l).takeWhile Char.isDigit = [] := fun h =>
        List.takeWhile_cons_of_neg (by rw [h]; exact Bool.false_ne_true)
      have htake := congrArg (List.takeWhile Char.isDigit) htoken
      rw [List.takeWhile_append_of_pos hdigits, List.takeWhile_append_of_pos hdigits', hplain hunit,
        hplain (not_isDigit_of_unitSeconds hunit'), List.append_nil, List.append_nil] at htake
      subst htake
      obtain ⟨rfl, rfl⟩ := List.cons.inj (List.append_cancel_left htoken)
      exact ⟨rfl, seconds, hunit', hpos, hvalue, hlt⟩
  · rintro ⟨rfl, seconds, hseconds, hpos, hvalue, hlt⟩
    exact .scaled hdigits hseconds hpos hvalue hlt

end Durations

/-- The function finds what an argument means exactly if it reads the argument in full. -/
theorem rrdScaledDuration_iff (token : Text) (divisor : ℕ) (hdiv : 1 ≤ divisor) :
    (∀ n, rrdScaledDuration token divisor = .ok n ↔ ScaledDuration divisor token n) ↔ ReadInFull divisor token := by
  have hdigits : ∀ c ∈ token.takeWhile Char.isDigit, c.isDigit := fun c hc => List.mem_takeWhile_imp hc
  have htoken := List.takeWhile_append_dropWhile (p := Char.isDigit) (l := token)
  rw [ReadInFull]
  generalize token.takeWhile Char.isDigit = digits at hdigits htoken ⊢
  cases hrest : token.dropWhile Char.isDigit with
  | nil =>
    rw [hrest, List.append_nil] at htoken
    subst htoken
    simp only [rrdScaledDuration_count hdigits hdiv, scaledDuration_count_iff hdigits]
    constructor
    · intro h
      by_contra hlarge
      have hmin := min_eq_right (show 2 ^ 64 - 1 ≤ digitsVal digits by omega)
      exact hlarge ((h (2 ^ 64 - 1)).1 ⟨by omega, hmin.symm⟩).2.1
    · intro hlt n
      rw [min_eq_left (by omega)]
      exact and_congr_right' (and_iff_right hlt).symm
  | cons unit rest =>
    have hunit : unit.isDigit = false := by
      have hhead := List.head?_dropWhile_not Char.isDigit token
      rw [hrest] at hhead
      exact hhead
    rw [hrest] at htoken
    subst htoken
    simp only [rrdScaledDuration_unit hdigits hunit hdiv, scaledDuration_unit_iff hdigits hunit]
    cases hseconds : unitSeconds unit with
    | none => simp
    | some seconds =>
      simp only [Option.mem_some, exists_eq_left', forall_eq']
      constructor
      · intro h
        by_contra hnot
        obtain ⟨hpart, hzero, hdvd⟩ : ¬ (rest = [] ∧ digitsVal digits * seconds < 2 ^ 64) ∧
            wrappedSeconds digits seconds ≠ 0 ∧ divisor ∣ wrappedSeconds digits seconds := by
          simpa only [not_or, not_not] using hnot
        obtain ⟨n, hn⟩ := hdvd
        rw [Nat.mul_comm] at hn
        have hpos : 0 < n := Nat.pos_of_ne_zero fun h0 => hzero (by rw [hn, h0, Nat.zero_mul])
        obtain ⟨hnil, -, hvalue, hlt⟩ := (h n).1 ⟨hpos, hn⟩
        exact hpart ⟨hnil, hvalue ▸ hlt⟩
      · intro h n
        have hwrap := @wrappedSeconds_of_lt seconds digits (unitSeconds_pos hseconds)
        constructor
        · rintro ⟨hpos, hn⟩
          rcases h with ⟨hnil, hlt⟩ | hzero | hdvd
          · rw [← hn, hwrap hlt]
            exact ⟨hnil, hpos, rfl, hlt⟩
          · exact absurd (hn.symm.trans hzero) (Nat.mul_pos hpos hdiv).ne'
          · exact absurd ⟨n, hn.trans (Nat.mul_comm n divisor)⟩ hdvd
        · rintro ⟨-, hpos, hvalue, hlt⟩
          rw [hwrap (hvalue ▸ hlt)]
          exact ⟨hpos, hvalue⟩

/-- Two hours are 24 steps of 300 seconds. -/
theorem rrdScaledDuration_two_hours : rrdScaledDuration ['2', 'h'] 300 = .ok 24 :=
  ((rrdScaledDuration_iff ['2', 'h'] 300 (by decide)).2 (fun _ hunit => .inl ⟨rfl, by cases hunit; decide⟩) 24).2
    (@ScaledDuration.scaled 300 ['2'] 'h' 3600 24 (List.all_iff_forall_prop.1 (by decide)) rfl (by decide) rfl (by decide))

/-- `5mx` is taken for five minutes. -/
theorem rrdScaledDuration_garbage :
    ¬ ∀ n, rrdScaledDuration ['5', 'm', 'x'] 60 = .ok n ↔ ScaledDuration 60 ['5', 'm', 'x'] n := by
  intro h
  obtain ⟨hnil, -⟩ := (@scaledDuration_unit_iff 60 5 ['5'] ['x'] 'm' (List.all_iff_forall_prop.1 (by decide)) rfl).1 ((h 5).1 (by decide +kernel))
  cases hnil

end Rrdtool
