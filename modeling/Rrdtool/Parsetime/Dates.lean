import Rrdtool.Parsetime.Parse

/-!
# Dates without a year

A date without a year means the current one. `rrd_parsetime` has it in the time value when it reads the date, except in a
specification that begins with a number: there the year 30000 stands for none, which `assign_date` takes for a year of
four digits, so that it is not found again.
-/

namespace Rrdtool.Parsetime

open Civil

/-- A month and a day of it. -/
inductive DayMonth where
  | name (mon : Fin 12) (mday : Text)
  | slash (mon mday : Text)
  | dot (mday mon : Text)

@[grind] def DayMonth.symbols : DayMonth → List Sym
  | .name mon mday => [.sym (.month mon), .num mday]
  | .slash mon mday => [.num mon, .sym .slash, .num mday]
  | .dot mday mon => [.num mday, .sym .dot, .num mon]

@[grind] def DayMonth.mday : DayMonth → ℤ
  | .name _ mday | .slash _ mday | .dot mday _ => digitsVal mday

/-- The month, counted from January. -/
@[grind] def DayMonth.mon : DayMonth → ℤ
  | .name mon _ => (mon : ℕ)
  | .slash mon _ | .dot _ mon => digitsVal mon - 1

structure DayMonth.Valid (d : DayMonth) : Prop where
  mday : 1 ≤ d.mday ∧ d.mday ≤ 31
  mon : 0 ≤ d.mon ∧ d.mon ≤ 11

inductive Half where
  | am | pm

/-- A time of day: hours, with or without minutes, of the day or of half of it, or a word for one. -/
inductive TimeOfDay where
  | clock (hour : Text) (minute : Option Text) (half : Option Half)
  | midnight | noon | teatime

@[grind] def Half.symbol : Half → Sym
  | .am => .sym .am
  | .pm => .sym .pm

@[grind] def minuteSymbols : Option Text → List Sym
  | none => []
  | some minute => [.sym .colon, .num minute]

def halfSymbols : Option Half → List Sym
  | none => []
  | some half => [half.symbol]

@[grind] def TimeOfDay.symbols : TimeOfDay → List Sym
  | .clock hour minute half => .num hour :: (minuteSymbols minute ++ halfSymbols half)
  | .midnight => [.sym .midnight]
  | .noon => [.sym .noon]
  | .teatime => [.sym .teatime]

def TimeOfDay.Valid : TimeOfDay → Prop
  | .clock hour minute half =>
    hour.length ≤ 2 ∧ digitsVal hour ≤ (if half.isSome then 12 else 23) ∧ ∀ m ∈ minute, digitsVal m ≤ 59
  | _ => True

/-- A date without a year, alone or with a time of day in front of it or behind it. -/
inductive Dated where
  | alone (date : DayMonth)
  | timeFirst (time : TimeOfDay) (date : DayMonth)
  | dateFirst (date : DayMonth) (time : TimeOfDay)

def Dated.date : Dated → DayMonth
  | .alone date | .timeFirst _ date | .dateFirst date _ => date

@[grind] def Dated.symbols : Dated → List Sym
  | .alone date => date.symbols
  | .timeFirst time date => time.symbols ++ date.symbols
  | .dateFirst date time => date.symbols ++ time.symbols

def Dated.Valid : Dated → Prop
  | .alone date => date.Valid
  | .timeFirst time date | .dateFirst date time => date.Valid ∧ time.Valid

/-- When the current year is the one that is assigned. A month name or a word for a time in front leaves it in the time value,
and a year up to 2038 survives the window of two and four digits. In a specification that begins with a number the year is
30000 in any case. Behind a month and a day, hours are taken for a year, and no other time is read. -/
def Dated.KeepsYear (year : ℤ) : Dated → Prop
  | .alone (.name ..) => year ≤ 138
  | .alone _ => year = 28100
  | .timeFirst (.clock ..) _ => year = 28100
  | .timeFirst _ _ => year ≤ 138
  | .dateFirst (.name ..) (.clock hour none none) => year = 100 + digitsVal hour
  | .dateFirst (.name ..) _ => False
  | .dateFirst _ (.clock ..) => year = 28100
  | .dateFirst _ _ => False

section Reading

variable {s : State} {ts : List Sym} {d h : Text} {tokid : TokId} {ptv ptv' : TimeValue} {mday mon year hour : ℤ}

/-! ### The year -/

@[grind] def setDate (ptv : TimeValue) (mday mon year : ℤ) : TimeValue := { ptv with tm := { ptv.tm with mday, mon, year } }

section Year

variable (hmday : 1 ≤ mday ∧ mday ≤ 31) (hmon : 0 ≤ mon ∧ mon ≤ 11)

include hmday hmon

lemma assignDate_of_le (hlo : 70 ≤ year) (hhi : year ≤ 138) :
    assignDate ptv mday mon year = .ok (setDate ptv mday mon year) := by
  unfold assignDate
  rw [if_neg (by omega), if_neg (by omega)]
  simp only [pure_bind]
  rw [if_neg (by omega), s32_of_lt (by omega) (by omega), s32_of_lt hmon.1 (by omega), s32_of_lt (by omega) (by omega)]
  rfl

/-- The hours of a day are years of this century. -/
lemma assignDate_hour (hlo : 0 ≤ hour) (hhi : hour ≤ 23) :
    assignDate ptv mday mon hour = .ok (setDate ptv mday mon (100 + hour)) := by
  unfold assignDate
  rw [if_neg (by omega), if_pos (by omega)]
  simp only [pure_bind]
  rw [if_neg (by omega), s32_of_lt (by omega) (by omega), s32_of_lt hmon.1 (by omega), s32_of_lt (by omega) (by omega),
    add_comm]
  rfl

lemma assignDate_noYear : assignDate ptv mday mon noYear = .ok (setDate ptv mday mon 28100) := by
  unfold assignDate noYear
  rw [if_pos (by decide), if_pos (by decide)]
  simp only [pure_bind]
  rw [if_neg (by decide), s32_of_lt (by omega) (by omega), s32_of_lt hmon.1 (by omega), s32_of_lt (by omega) (by omega)]
  rfl

end Year

/-- A later year does not survive. -/
lemma assignDate_of_gt (hyear : 138 < year) (h : assignDate ptv mday mon year = .ok ptv') : ptv'.tm.year ≠ year := by
  unfold assignDate at h
  rw [if_pos hyear] at h
  split at h
  · simp only [pure_bind] at h
    split at h
    · cases h
    · cases h
      intro heq
      have hmod := s32_emod (year - 1900)
      dsimp only at heq
      omega
  · cases h

/-! ### The time of day -/

/-- What the numbers of a specification denote. -/
lemma number_of_digits (hd : d ≠ [] ∧ ∀ c ∈ d, c.isDigit) (hlt : digitsVal d < 2 ^ 31) :
    atoi d = digitsVal d ∧ atol d = digitsVal d := by
  have hlong : toLong (digitsVal d) = digitsVal d := by
    unfold toLong
    omega
  rw [atoi_digits hd.1 hd.2, atol_digits hd.1 hd.2, hlong]
  exact ⟨s32_natCast hlt, rfl⟩

lemma digitsVal_short (hd : ∀ c ∈ d, c.isDigit) (hlen : d.length ≤ 2) : digitsVal d < 100 := by
  match d, hlen with
  | [], _ => decide
  | [a], _ =>
    have ha := digitVal_le (hd a (by simp))
    simp only [digitsVal, List.foldl_cons, List.foldl_nil]
    omega
  | [a, b], _ =>
    have ha := digitVal_le (hd a (by simp))
    have hb := digitVal_le (hd b (by simp))
    simp only [digitsVal, List.foldl_cons, List.foldl_nil]
    omega

lemma decimal_natCast (n : ℕ) : decimal n = ulong n := by
  rw [decimal, if_neg (by omega), Int.natAbs_natCast]

lemma tod_word (hlen : 2 < s.scanner.token.length) : tod s = .ok s := by
  unfold tod
  exact if_pos hlen

/-- The first number of a date is given back. -/
lemma tod_date (hw : s.scanner.specials = variousWords) {sep : TokId} (hsep : sep = .slash ∨ sep = .dot)
    (hon : s.scanner.On (.num d :: .sym sep :: ts)) (hd : d ≠ [] ∧ ∀ c ∈ d, c.isDigit) :
    ∃ s' d', tod s = .ok s' ∧ s'.ptv = s.ptv ∧ s'.scanner.specials = variousWords ∧
      s'.scanner.On (.num d' :: .sym sep :: ts) ∧ (d' ≠ [] ∧ ∀ c ∈ d', c.isDigit) ∧ digitsVal d' = digitsVal d := by
  obtain ⟨htokid, htoken⟩ := tokid_of_num hon
  have hwords : Words s.scanner.specials := by
    rw [hw]
    exact words_variousWords
  by_cases hlen : 2 < s.scanner.token.length
  · exact ⟨s, d, tod_word hlen, rfl, hw, hon, hd, rfl⟩
  · have hnext := hon.next hwords
    have hsc := tokid_of_sym hnext
    have hneed : s.scanner.next.need = false := by
      have hne := hnext.1
      obtain ⟨heof, -⟩ | ⟨-, hneed, -⟩ | ⟨-, -, hneed, -⟩ | ⟨c, p, -, -, -, -, heof, -⟩ :=
        next_cases hwords (need_of_ahead hon.ahead)
      · exact absurd heof hne
      · exact hneed
      · exact hneed
      · exact absurd heof hne
    rw [htoken] at hlen
    have hlt := digitsVal_short hd.2 (by omega)
    obtain ⟨hatoi, -⟩ := number_of_digits hd (by omega)
    refine ⟨{ s with scanner := s.scanner.next.giveBack s.scanner (atoi s.scanner.token) }, ulong (digitsVal d), ?_, rfl,
      (next_specials _).trans hw, ?_, ⟨ulong_ne_nil _, fun c hc => isDigit_of_mem_ulong hc⟩, digitsVal_ulong _⟩
    · unfold tod
      rw [if_neg (by rw [htoken]; exact hlen)]
      dsimp only
      rw [if_pos (by rw [hsc]; exact hsep)]
      rfl
    · have hahead := hon.ahead
      have hsaved := need_of_ahead hahead
      unfold Scanner.Ahead at hahead
      rw [if_neg (by rw [hsaved]; decide)] at hahead
      have htokid' : (s.scanner.next.giveBack s.scanner (atoi s.scanner.token)).tokid = .number := htokid
      refine ⟨by rw [htokid']; decide, ?_, ?_⟩
      · unfold Scanner.symbol
        rw [if_pos htokid', htoken, hatoi]
        exact congrArg Sym.num (decimal_natCast _)
      · unfold Scanner.Ahead
        rw [if_neg (by exact (by rw [hneed]; decide : ¬ s.scanner.next.need = true))]
        exact (next_specials s.scanner).symm ▸ hahead

/-- A scanner that has just read a token of the first table. -/
def Fresh (sc : Scanner) : Prop := ∃ before : Scanner, before.specials = variousWords ∧ sc = before.next

lemma Fresh.specials {sc : Scanner} (h : Fresh sc) : sc.specials = variousWords := by
  obtain ⟨before, hw, rfl⟩ := h
  rw [next_specials, hw]

/-- Behind a time of day there is a date that begins with a number or with a month, or nothing. -/
def Follows (ts : List Sym) : Prop := ∀ t ∈ ts.head?, (∃ d, t = .num d) ∨ ∃ m, t = .sym (.month m)

lemma tokid_of_follows {sc : Scanner} (hf : Follows ts) (hon : sc.On ts) :
    sc.tokid = .eof ∨ sc.tokid = .number ∨ ∃ m, sc.tokid = .month m := by
  cases ts with
  | nil => exact .inl hon.1
  | cons t ts =>
    obtain ⟨d, rfl⟩ | ⟨m, rfl⟩ := hf t rfl
    · exact .inr (.inl (tokid_of_num hon).1)
    · exact .inr (.inr ⟨m, tokid_of_sym hon⟩)

lemma minutes_spec {sc : Scanner} {minute : Option Text} (hw : sc.specials = variousWords)
    (hon : sc.On (minuteSymbols minute ++ ts)) (hcolon : minute = none → sc.tokid ≠ .colon)
    (hd : ∀ m ∈ minute, (m ≠ [] ∧ ∀ c ∈ m, c.isDigit) ∧ digitsVal m ≤ 59) :
    ∃ value sc', minutes sc = .ok (value, sc') ∧ sc'.specials = variousWords ∧ sc'.On ts := by
  have hwords : Words sc.specials := by
    rw [hw]
    exact words_variousWords
  have hwords' : Words sc.next.specials := by
    rw [next_specials]
    exact hwords
  unfold minutes
  cases minute with
  | none =>
    rw [if_neg (hcolon rfl)]
    exact ⟨0, sc, rfl, hw, hon⟩
  | some m =>
    obtain ⟨hdigits, hle⟩ := hd m rfl
    have hnum := hon.next hwords
    obtain ⟨htokid, htoken⟩ := tokid_of_num hnum
    obtain ⟨hatoi, -⟩ := number_of_digits hdigits (by omega)
    rw [if_pos (tokid_of_sym hon)]
    unfold expect2
    rw [if_pos htokid]
    refine ⟨digitsVal m, sc.next.next, ?_, ?_, hnum.next hwords'⟩
    · change (if 59 < atoi sc.next.token then _ else _) = _
      rw [htoken, hatoi, if_neg (by omega)]
      rfl
    · rw [next_specials, next_specials, hw]

/-- A time of day is taken. -/
lemma tod_clock {hour : Text} {minute : Option Text} {half : Option Half} (hw : s.scanner.specials = variousWords)
    (hon : s.scanner.On (.num hour :: (minuteSymbols minute ++ (halfSymbols half ++ ts)))) (hf : Follows ts)
    (hvalid : (TimeOfDay.clock hour minute half).Valid) (hhour : hour ≠ [] ∧ ∀ c ∈ hour, c.isDigit)
    (hminute : ∀ m ∈ minute, m ≠ [] ∧ ∀ c ∈ m, c.isDigit) :
    ∃ s' value m, tod s = .ok s' ∧ s'.scanner.specials = variousWords ∧ s'.scanner.On ts ∧ value ≤ 23 ∧
      s'.ptv = { s.ptv with tm := { s.ptv.tm with hour := value, min := m, sec := 0 } } := by
  obtain ⟨hlen, hle, hmin⟩ := hvalid
  have hwords : Words s.scanner.specials := by
    rw [hw]
    exact words_variousWords
  obtain ⟨-, htoken⟩ := tokid_of_num hon
  have hlt := digitsVal_short hhour.2 hlen
  obtain ⟨hatoi, -⟩ := number_of_digits hhour (by omega)
  have hnext := hon.next hwords
  have htokid : s.scanner.next.tokid ≠ .slash ∧ s.scanner.next.tokid ≠ .dot ∧
      (minute = none → s.scanner.next.tokid ≠ .colon) := by
    cases minute with
    | some m =>
      have hcolon := tokid_of_sym hnext
      rw [hcolon]
      exact ⟨nofun, nofun, nofun⟩
    | none =>
      cases half with
      | some half =>
        cases half with
        | am =>
          have ham := tokid_of_sym hnext
          rw [ham]
          exact ⟨nofun, nofun, nofun⟩
        | pm =>
          have hpm := tokid_of_sym hnext
          rw [hpm]
          exact ⟨nofun, nofun, nofun⟩
      | none =>
        obtain h | h | ⟨m, h⟩ := tokid_of_follows hf hnext
        all_goals
          rw [h]
          exact ⟨nofun, nofun, nofun⟩
  obtain ⟨value, sc, hminutes, hsc, hscon⟩ :=
    minutes_spec ((next_specials _).trans hw) hnext htokid.2.2 fun m hm => ⟨hminute m hm, hmin m hm⟩
  have hwordssc : Words sc.specials := by
    rw [hsc]
    exact words_variousWords
  have htod : tod s =
      if sc.tokid = .am ∨ sc.tokid = .pm then
        if (12 : ℤ) < digitsVal hour then .error "there cannot be more than 12 AM or PM hours".toList
        else .ok { scanner := sc.next, ptv := setTime s.ptv (hourOfHalf sc.tokid (digitsVal hour)) value }
      else if (23 : ℤ) < digitsVal hour then .ok { s with scanner := sc.giveBack s.scanner (digitsVal hour) }
      else .ok { scanner := sc, ptv := setTime s.ptv (digitsVal hour) value } := by
    unfold tod
    rw [if_neg (by rw [htoken]; omega)]
    dsimp only
    rw [if_neg (by rintro (h | h); exacts [htokid.1 h, htokid.2.1 h]), hminutes, htoken, hatoi]
    rfl
  rw [htod]
  cases half with
  | none =>
    have hother : ¬ (sc.tokid = .am ∨ sc.tokid = .pm) := by
      obtain h | h | ⟨m, h⟩ := tokid_of_follows hf hscon
      all_goals
        rw [h]
        rintro (h | h) <;> cases h
    have hlt24 : (digitsVal hour : ℤ) ≤ 23 := by exact_mod_cast hle
    refine ⟨_, digitsVal hour, value, by rw [if_neg hother, if_neg (by omega)], hsc, hscon, hlt24, ?_⟩
    exact if_neg (by omega)
  | some half =>
    have hle12 : (digitsVal hour : ℤ) ≤ 12 := by exact_mod_cast hle
    have hnn : (0 : ℤ) ≤ digitsVal hour := Int.natCast_nonneg _
    have hon' := hscon.next hwordssc
    have hspecials := (next_specials sc).trans hsc
    have htokid' : sc.tokid = .am ∨ sc.tokid = .pm := by
      cases half with
      | am => exact .inl (tokid_of_sym hscon)
      | pm => exact .inr (tokid_of_sym hscon)
    have hhalf : hourOfHalf sc.tokid (digitsVal hour) ≤ 23 := by
      unfold hourOfHalf
      split
      · split
        all_goals omega
      · split
        all_goals omega
    refine ⟨_, hourOfHalf sc.tokid (digitsVal hour), value, by rw [if_pos htokid', if_neg (by omega)], hspecials, hon',
      hhalf, ?_⟩
    exact if_neg (by omega)

lemma atoi_of_end {sc : Scanner} (hw : Words sc.specials) (hon : sc.next.On []) :
    atoi sc.next.token = 0 ∧ sc.next.token.length ≤ 2 := by
  obtain htoken | ⟨c, hdigit, -, hblank, hmark, htoken⟩ := next_of_eof hw hon.1
  · rw [htoken]
    exact ⟨rfl, by decide⟩
  · rw [htoken]
    refine ⟨?_, by simp⟩
    have hspace : isSpace c = false := by
      simp only [isBlank, Bool.or_eq_false_iff] at hblank
      exact hblank.1.1
    have hsign : readSign [c] = (false, [c]) := by
      rw [readSign]
      · rintro p hp
        cases hp
        cases hmark
      · rintro p hp
        cases hp
        cases hmark
    have hten : isDigitOf 10 c = false := by
      unfold isDigitOf digitOf
      rw [hdigit]
      simp only [Bool.false_eq_true, reduceIte]
      split
      · simp
      · split
        · simp
        · rfl
    have hread : readInteger 10 [c] = none := by
      simp only [readInteger, OfNat.ofNat_ne_zero, reduceIte, List.takeWhile_cons_of_neg (by rw [hten]; decide :
        ¬ isDigitOf 10 c = true)]
    have hdrop : [c].dropWhile isSpace = [c] := List.dropWhile_cons_of_neg (by rw [hspace]; decide)
    unfold atoi strtol
    rw [hdrop, hsign]
    simp only [hread]
    rfl

/-- At the end, midnight is read. -/
lemma tod_end (hw : s.scanner.specials = variousWords) (hon : s.scanner.On [])
    (htoken : atoi s.scanner.token = 0 ∧ s.scanner.token.length ≤ 2) :
    ∃ s', tod s = .ok s' ∧ s'.scanner.On [] ∧
      s'.ptv = { s.ptv with tm := { s.ptv.tm with hour := 0, min := 0, sec := 0 } } := by
  have hwords : Words s.scanner.specials := by
    rw [hw]
    exact words_variousWords
  have hnext := hon.next_nil hwords
  have heof := hnext.1
  refine ⟨{ scanner := s.scanner.next, ptv := setTime s.ptv 0 0 }, ?_, hnext, rfl⟩
  have hminutes : minutes s.scanner.next = .ok (0, s.scanner.next) := by
    unfold minutes
    rw [if_neg (by rw [heof]; decide)]
    rfl
  unfold tod
  rw [if_neg (by omega)]
  dsimp only
  rw [if_neg (by rw [heof]; decide), hminutes, htoken.1]
  change (if s.scanner.next.tokid = .am ∨ s.scanner.next.tokid = .pm then _ else if (23 : ℤ) < 0 then _ else _) = _
  rw [if_neg (by rw [heof]; decide), if_neg (by decide)]
  rfl

/-! ### The date -/

/-- A month and a day, with whatever year there is. -/
lemma day_name (localtime : ℤ → StructTm) {m : Fin 12} (hw : s.scanner.specials = variousWords)
    (hon : s.scanner.On (.sym (.month m) :: .num d :: ts)) (hd : d ≠ [] ∧ ∀ c ∈ d, c.isDigit) (hlt : digitsVal d < 2 ^ 31)
    (hts : ∀ t ∈ ts.head?, ∀ e, t ≠ .num e) :
    ∃ sc : Scanner, Fresh sc ∧ sc.On ts ∧
      day localtime s = (assignDate s.ptv (digitsVal d) (m : ℕ) s.ptv.tm.year).map fun ptv => { scanner := sc, ptv } := by
  have hwords : Words s.scanner.specials := by
    rw [hw]
    exact words_variousWords
  have hwords' : Words s.scanner.next.specials := by
    rw [next_specials]
    exact hwords
  have hnum := hon.next hwords
  obtain ⟨htokid, htoken⟩ := tokid_of_num hnum
  obtain ⟨-, hatol⟩ := number_of_digits hd hlt
  have hrest := hnum.next hwords'
  have hother : s.scanner.next.next.tokid ≠ .number := by
    cases ts with
    | nil =>
      rw [hrest.1]
      intro heof
      cases heof
    | cons t ts =>
      intro hnumber
      obtain ⟨-, hsymbol, -⟩ := hrest
      unfold Scanner.symbol at hsymbol
      rw [if_pos hnumber] at hsymbol
      exact hts t rfl _ hsymbol.symm
  refine ⟨s.scanner.next.next, ⟨s.scanner.next, (next_specials _).trans hw, rfl⟩, hrest, ?_⟩
  unfold day
  rw [tokid_of_sym hon]
  dsimp only
  unfold expect2
  rw [if_pos htokid]
  change ((do
    let ptv ← assignDate s.ptv (atol s.scanner.next.token) (m : ℕ) (if s.scanner.next.next.tokid = TokId.number
      then (atol s.scanner.next.next.token, s.scanner.next.next.next) else (s.ptv.tm.year, s.scanner.next.next)).1
    return { scanner := (if s.scanner.next.next.tokid = TokId.number
      then (atol s.scanner.next.next.token, s.scanner.next.next.next) else (s.ptv.tm.year, s.scanner.next.next)).2, ptv }) :
        Except Text State) = _
  rw [if_neg hother, htoken, hatol]
  rfl

/-- A month and two numbers, the second one of which is the year. -/
lemma day_name_year (localtime : ℤ → StructTm) {m : Fin 12} {y : Text} (hw : s.scanner.specials = variousWords)
    (hon : s.scanner.On (.sym (.month m) :: .num d :: .num y :: ts)) (hd : d ≠ [] ∧ ∀ c ∈ d, c.isDigit)
    (hlt : digitsVal d < 2 ^ 31) (hy : y ≠ [] ∧ ∀ c ∈ y, c.isDigit) (hylt : digitsVal y < 2 ^ 31) :
    ∃ sc : Scanner, sc.On ts ∧
      day localtime s = (assignDate s.ptv (digitsVal d) (m : ℕ) (digitsVal y)).map fun ptv => { scanner := sc, ptv } := by
  have hwords : Words s.scanner.specials := by
    rw [hw]
    exact words_variousWords
  have hwords' : Words s.scanner.next.specials := by
    rw [next_specials]
    exact hwords
  have hwords'' : Words s.scanner.next.next.specials := by
    rw [next_specials]
    exact hwords'
  have hnum := hon.next hwords
  obtain ⟨htokid, htoken⟩ := tokid_of_num hnum
  obtain ⟨-, hatol⟩ := number_of_digits hd hlt
  have hyear := hnum.next hwords'
  obtain ⟨hytokid, hytoken⟩ := tokid_of_num hyear
  obtain ⟨-, hyatol⟩ := number_of_digits hy hylt
  refine ⟨s.scanner.next.next.next, hyear.next hwords'', ?_⟩
  unfold day
  rw [tokid_of_sym hon]
  dsimp only
  unfold expect2
  rw [if_pos htokid]
  change ((do
    let ptv ← assignDate s.ptv (atol s.scanner.next.token) (m : ℕ) (if s.scanner.next.next.tokid = TokId.number
      then (atol s.scanner.next.next.token, s.scanner.next.next.next) else (s.ptv.tm.year, s.scanner.next.next)).1
    return { scanner := (if s.scanner.next.next.tokid = TokId.number
      then (atol s.scanner.next.next.token, s.scanner.next.next.next) else (s.ptv.tm.year, s.scanner.next.next)).2, ptv }) :
        Except Text State) = _
  rw [if_pos hytokid, htoken, hatol, hytoken, hyatol]
  rfl

lemma slashDate_spec {sc : Scanner} {sep : TokId} {b : Text} {first : ℤ} (hw : sc.specials = variousWords)
    (hsep : sep = .slash ∨ sep = .dot) (hon : sc.On (.sym sep :: .num b :: ts)) (hfirst : first ≤ 31)
    (hb : b ≠ [] ∧ ∀ c ∈ b, c.isDigit) (hlt : digitsVal b < 2 ^ 31) (hts : ∀ t ∈ ts.head?, t ≠ .sym sep) :
    ∃ sc' : Scanner, Fresh sc' ∧ sc'.On ts ∧
      slashDate first year sc =
        .ok (if sep = .dot then ((digitsVal b : ℤ), first, year, sc') else (first, (digitsVal b : ℤ), year, sc')) := by
  have hwords : Words sc.specials := by
    rw [hw]
    exact words_variousWords
  have hwords' : Words sc.next.specials := by
    rw [next_specials]
    exact hwords
  have htokid := tokid_of_sym hon
  have hnum := hon.next hwords
  obtain ⟨hntokid, hntoken⟩ := tokid_of_num hnum
  obtain ⟨-, hatol⟩ := number_of_digits hb hlt
  have hrest := hnum.next hwords'
  have hother : sc.next.next.tokid ≠ sep := by
    intro heq
    cases ts with
    | nil =>
      have heof := hrest.1
      rw [heq] at heof
      obtain rfl | rfl := hsep
      all_goals cases heof
    | cons t ts =>
      obtain ⟨-, hsymbol, -⟩ := hrest
      unfold Scanner.symbol at hsymbol
      rw [heq, if_neg (by rintro rfl; obtain h | h := hsep <;> cases h)] at hsymbol
      exact hts t rfl hsymbol.symm
  have hexpect : ∀ complaint, expect2 .number complaint sc = .ok sc.next := fun _ => if_pos hntokid
  refine ⟨sc.next.next, ⟨sc.next, (next_specials _).trans hw, rfl⟩, hrest, ?_⟩
  unfold slashDate
  rw [if_pos ⟨hfirst, by rw [htokid]; exact hsep⟩, htokid]
  simp only [hexpect]
  change Except.bind (.ok sc.next) _ = _
  simp only [Except.bind, hntoken, hatol, if_neg hother]
  rfl

/-- A month and a day in numbers, with whatever year there is. -/
lemma day_number (localtime : ℤ → StructTm) {sep : TokId} {a b : Text} (hw : s.scanner.specials = variousWords)
    (hsep : sep = .slash ∨ sep = .dot) (hon : s.scanner.On (.num a :: .sym sep :: .num b :: ts))
    (ha : a ≠ [] ∧ ∀ c ∈ a, c.isDigit) (hb : b ≠ [] ∧ ∀ c ∈ b, c.isDigit)
    (hmon : mon + 1 = if sep = .dot then (digitsVal b : ℤ) else digitsVal a)
    (hmday : mday = if sep = .dot then (digitsVal a : ℤ) else digitsVal b) (hmonle : 0 ≤ mon ∧ mon ≤ 11)
    (hmdayle : 1 ≤ mday ∧ mday ≤ 31) (hts : ∀ t ∈ ts.head?, t ≠ .sym sep) :
    ∃ sc : Scanner, Fresh sc ∧ sc.On ts ∧
      day localtime s = (assignDate s.ptv mday mon s.ptv.tm.year).map fun ptv => { scanner := sc, ptv } := by
  have hwords : Words s.scanner.specials := by
    rw [hw]
    exact words_variousWords
  have hle : (digitsVal a : ℤ) ≤ 31 ∧ (digitsVal b : ℤ) ≤ 31 := by
    obtain rfl | rfl := hsep
    · rw [if_neg (by decide)] at hmon hmday
      omega
    · rw [if_pos rfl] at hmon hmday
      omega
  obtain ⟨htokid, htoken⟩ := tokid_of_num hon
  obtain ⟨-, hatol⟩ := number_of_digits ha (by omega)
  obtain ⟨sc, hsc, hscon, hslash⟩ := @slashDate_spec _ s.ptv.tm.year _ _ _ _ ((next_specials _).trans hw) hsep
    (hon.next hwords) hle.1 hb (by omega) hts
  refine ⟨sc, hsc, hscon, ?_⟩
  have hnumeric : numericDate (digitsVal a) s.ptv.tm.year s.scanner = .ok (mon + 1, mday, s.ptv.tm.year, sc) := by
    unfold numericDate
    rw [if_neg (by omega), hslash, hmon, hmday]
    obtain rfl | rfl := hsep
    · rfl
    · rfl
  unfold day
  rw [htokid, htoken, hatol]
  dsimp only
  rw [if_neg (by omega), hnumeric]
  change (if mon + 1 - 1 < 0 ∨ 11 < mon + 1 - 1 then _ else if mday < 1 ∨ 31 < mday then _ else _) = _
  rw [if_neg (by omega), if_neg (by omega), add_sub_cancel_right]
  rfl

/-- A date without a year, with whatever year there is. -/
lemma day_date (localtime : ℤ → StructTm) {date : DayMonth} (hw : s.scanner.specials = variousWords)
    (hon : s.scanner.On (date.symbols ++ ts)) (hvalid : date.Valid)
    (hd : ∀ d, .num d ∈ date.symbols → d ≠ [] ∧ ∀ c ∈ d, c.isDigit)
    (hts : ∀ t ∈ ts.head?, t ≠ .sym .slash ∧ t ≠ .sym .dot ∧ ((∃ m d, date = .name m d) → ∀ e, t ≠ .num e)) :
    ∃ sc : Scanner, Fresh sc ∧ sc.On ts ∧
      day localtime s = (assignDate s.ptv date.mday date.mon s.ptv.tm.year).map fun ptv => { scanner := sc, ptv } := by
  obtain ⟨hmday, hmon⟩ := hvalid
  cases date with
  | name m d =>
    have hdigits := hd d (by simp [DayMonth.symbols])
    simp only [DayMonth.mday] at hmday
    exact day_name _ hw hon hdigits (by omega) fun t ht e => (hts t ht).2.2 ⟨m, d, rfl⟩ e
  | slash m d =>
    have hm := hd m (by simp [DayMonth.symbols])
    have hdigits := hd d (by simp [DayMonth.symbols])
    apply day_number _ hw (.inl rfl) hon hm hdigits
    · rw [if_neg (by decide)]
      exact sub_add_cancel _ _
    · rfl
    · exact hmon
    · exact hmday
    · exact fun t ht => (hts t ht).1
  | dot d m =>
    have hm := hd m (by simp [DayMonth.symbols])
    have hdigits := hd d (by simp [DayMonth.symbols])
    apply day_number _ hw (.inr rfl) hon hdigits hm
    · rw [if_pos rfl]
      exact sub_add_cancel _ _
    · rfl
    · exact hmon
    · exact hmday
    · exact fun t ht => (hts t ht).2.1

end Reading

/-- The specification means the date in that year, before the time is normalised. -/
def Yields (localtime : ℤ → StructTm) (now : StructTm) (tspec : Text) (static : Repeated) (date : DayMonth) (year : ℤ) : Prop :=
  ∃ ptv, parseTime localtime now tspec static = .ok ptv ∧ ptv.tm.mday = date.mday ∧ ptv.tm.mon = date.mon ∧
    ptv.tm.year = year

section Specifications

variable {localtime : ℤ → StructTm} {now : StructTm} {text : Text} {static : Repeated} {s : State} {date : DayMonth} {ts : List Sym}
  {sc : Scanner} {p : TimeValue} {year : ℤ}

/-- The state in which the specification is looked at. -/
@[grind] def start (now : StructTm) (text : Text) : State :=
  { scanner := (Scanner.init variousWords text).next, ptv := { type := .absolute, offset := 0, tm := now } }

lemma parseTime_of_end (href : parseReference localtime now text = .ok s) (heof : s.scanner.tokid = .eof) :
    parseTime localtime now text static = .ok s.ptv := by
  have hoffset : parseOffset s static = .ok s := by
    unfold parseOffset
    rw [if_neg (by rw [heof]; decide)]
    simp only [pure_bind]
    rw [if_pos heof]
    rfl
  unfold parseTime
  rw [href]
  change (do
    let s ← parseOffset s static
    return s.ptv) = _
  rw [hoffset]
  rfl

lemma parseTime_of_trailing (href : parseReference localtime now text = .ok s) (hplus : s.scanner.tokid ≠ .plus)
    (hminus : s.scanner.tokid ≠ .minus) (heof : s.scanner.tokid ≠ .eof) (ptv : TimeValue) :
    parseTime localtime now text static ≠ .ok ptv := by
  have hoffset : parseOffset s static = .error ("unparsable trailing text: '...".toList ++ s.trailing ++ ['\'']) := by
    unfold parseOffset
    rw [if_neg (by rintro (h | h); exacts [hplus h, hminus h])]
    simp only [pure_bind]
    rw [if_neg heof]
  unfold parseTime
  rw [href]
  change (do
    let s ← parseOffset s static
    return s.ptv) ≠ _
  rw [hoffset]
  nofun

lemma parseTime_of_error {e : Text} (href : parseReference localtime now text = .error e) (ptv : TimeValue) :
    parseTime localtime now text static ≠ .ok ptv := by
  unfold parseTime
  rw [href]
  nofun

/-- The date is read with the current year. -/
lemma yields_of_assign (hvalid : date.Valid) (hyear : 70 ≤ now.year) (hon : sc.On [])
    (href : parseReference localtime now text =
      (assignDate p date.mday date.mon now.year).map fun ptv => { scanner := sc, ptv }) :
    Yields localtime now text static date now.year ↔ now.year ≤ 138 := by
  constructor
  · rintro ⟨ptv, hparse, -, -, hsame⟩
    by_contra hgt
    cases hassign : assignDate p date.mday date.mon now.year with
    | error e =>
      rw [hassign] at href
      exact parseTime_of_error href ptv hparse
    | ok ptv' =>
      rw [hassign] at href
      have hend := @parseTime_of_end _ _ _ static _ href hon.1
      rw [hend] at hparse
      cases hparse
      exact assignDate_of_gt (by omega) hassign hsame
  · intro hle
    rw [assignDate_of_le hvalid.mday hvalid.mon hyear hle] at href
    exact ⟨_, parseTime_of_end href hon.1, rfl, rfl, rfl⟩

/-- A specification that is read, with the date in some year. -/
lemma yields_of_ok (href : parseReference localtime now text = .ok s) (hon : s.scanner.On []) {other : ℤ}
    (hmday : s.ptv.tm.mday = date.mday) (hmon : s.ptv.tm.mon = date.mon) (hother : s.ptv.tm.year = other) :
    Yields localtime now text static date year ↔ year = other := by
  have hend := @parseTime_of_end _ _ _ static _ href hon.1
  constructor
  · rintro ⟨ptv, hparse, -, -, hsame⟩
    rw [hend] at hparse
    cases hparse
    rw [← hsame, hother]
  · rintro rfl
    exact ⟨_, hend, hmday, hmon, hother⟩

/-- The current time is put aside in a specification that begins with a number. -/
def putAside (now : StructTm) (text : Text) : State :=
  { start now text with ptv := { (start now text).ptv with tm := { now with hour := noHour, year := noYear } } }

lemma parseReference_number (htokid : (start now text).scanner.tokid = .number) :
    parseReference localtime now text = numberFirst localtime (start now text) := by
  unfold parseReference
  unfold start at htokid
  dsimp only at htokid ⊢
  rw [htokid]
  rfl

lemma numberFirst_eq {s₁ s₂ : State} (htod : tod (putAside now text) = .ok s₁) (hday : day localtime s₁ = .ok s₂) :
    numberFirst localtime (start now text) =
      (if s₂.ptv.tm.hour = noHour ∧ s₂.ptv.tm.year ≠ noYear then tod s₂ else .ok s₂).map (restoreNow now) := by
  unfold numberFirst
  change (do
    let s ← tod (putAside now text)
    let s ← day localtime s
    let s ← if s.ptv.tm.hour = noHour ∧ s.ptv.tm.year ≠ noYear then tod s else pure s
    return restoreNow now s) = _
  rw [htod]
  change (do
    let s ← day localtime s₁
    let s ← if s.ptv.tm.hour = noHour ∧ s.ptv.tm.year ≠ noYear then tod s else pure s
    return restoreNow now s) = _
  rw [hday]
  change (if s₂.ptv.tm.hour = noHour ∧ s₂.ptv.tm.year ≠ noYear then do
      let s ← tod s₂
      return restoreNow now s
    else return restoreNow now s₂) = _
  split
  · cases tod s₂ with
    | error => rfl
    | ok => rfl
  · rfl

lemma restoreNow_of_ne (h : s.ptv.tm.year ≠ noYear) :
    (restoreNow now s).scanner = s.scanner ∧ (restoreNow now s).ptv.tm.mday = s.ptv.tm.mday ∧
      (restoreNow now s).ptv.tm.mon = s.ptv.tm.mon ∧ (restoreNow now s).ptv.tm.year = s.ptv.tm.year :=
  ⟨rfl, rfl, rfl, if_neg h⟩

variable (localtime) in
/-- A time of day, and a date. -/
lemma reference_clock {hour : Text} {minute : Option Text} {half : Option Half}
    (hon : (start now text).scanner.On (.num hour :: (minuteSymbols minute ++ (halfSymbols half ++ date.symbols))))
    (htime : (TimeOfDay.clock hour minute half).Valid) (hvalid : date.Valid)
    (hd : ∀ d, .num d ∈ date.symbols → d ≠ [] ∧ ∀ c ∈ d, c.isDigit) (hhour : hour ≠ [] ∧ ∀ c ∈ hour, c.isDigit)
    (hminute : ∀ m ∈ minute, m ≠ [] ∧ ∀ c ∈ m, c.isDigit) :
    ∃ s, parseReference localtime now text = .ok s ∧ s.scanner.On [] ∧ s.ptv.tm.mday = date.mday ∧
      s.ptv.tm.mon = date.mon ∧ s.ptv.tm.year = 28100 := by
  have hw : (putAside now text).scanner.specials = variousWords := next_specials _
  have hf : Follows date.symbols := by
    intro t ht
    cases date with
    | name m d =>
      cases ht
      exact .inr ⟨m, rfl⟩
    | slash m d =>
      cases ht
      exact .inl ⟨m, rfl⟩
    | dot d m =>
      cases ht
      exact .inl ⟨d, rfl⟩
  obtain ⟨s₁, value, m, htod, hw₁, hon₁, hle, hptv⟩ := tod_clock (s := putAside now text) hw hon hf htime hhour hminute
  rw [← List.append_nil date.symbols] at hon₁
  obtain ⟨sc, -, hscon, hday⟩ := day_date localtime hw₁ hon₁ hvalid hd (by simp)
  have hyear : s₁.ptv.tm.year = noYear := by
    rw [hptv]
    rfl
  rw [hyear, assignDate_noYear hvalid.mday hvalid.mon] at hday
  have hnum := numberFirst_eq htod hday
  have hhour' : (setDate s₁.ptv date.mday date.mon 28100).tm.hour ≠ noHour := by
    have hsame : (setDate s₁.ptv date.mday date.mon 28100).tm.hour = value := by
      unfold setDate
      dsimp only
      rw [hptv]
    rw [hsame]
    unfold noHour
    omega
  rw [if_neg fun h => hhour' h.1] at hnum
  have hne : (setDate s₁.ptv date.mday date.mon 28100).tm.year ≠ noYear := by
    change (28100 : ℤ) ≠ noYear
    decide
  obtain ⟨-, -, -, hsame⟩ := @restoreNow_of_ne now { scanner := sc, ptv := setDate s₁.ptv date.mday date.mon 28100 } hne
  exact ⟨_, (parseReference_number (tokid_of_num hon).1).trans hnum, hscon, rfl, rfl, hsame⟩

variable (localtime) in
/-- A date in numbers at the front: the time of day is read behind it. -/
lemma reference_numeric (hnumeric : ∀ m d, date ≠ .name m d) (hon : (start now text).scanner.On (date.symbols ++ ts))
    (hvalid : date.Valid) (hd : ∀ d, .num d ∈ date.symbols → d ≠ [] ∧ ∀ c ∈ d, c.isDigit)
    (hts : ∀ t ∈ ts.head?, t ≠ .sym .slash ∧ t ≠ .sym .dot) :
    ∃ (sc : Scanner) (p : TimeValue), Fresh sc ∧ sc.On ts ∧ p.tm.mday = date.mday ∧ p.tm.mon = date.mon ∧
      p.tm.year = 28100 ∧
      parseReference localtime now text = (tod { scanner := sc, ptv := p }).map (restoreNow now) := by
  have hw : (putAside now text).scanner.specials = variousWords := next_specials _
  obtain ⟨a, b, sep, hsep, hsymbols, hmon, hmday⟩ : ∃ a b sep, (sep = TokId.slash ∨ sep = TokId.dot) ∧
      date.symbols = [.num a, .sym sep, .num b] ∧
      date.mon + 1 = (if sep = .dot then (digitsVal b : ℤ) else digitsVal a) ∧
      date.mday = if sep = .dot then (digitsVal a : ℤ) else digitsVal b := by
    cases date with
    | name m d => exact absurd rfl (hnumeric m d)
    | slash m d => exact ⟨m, d, .slash, .inl rfl, rfl, sub_add_cancel _ _, rfl⟩
    | dot d m => exact ⟨d, m, .dot, .inr rfl, rfl, sub_add_cancel _ _, rfl⟩
  rw [hsymbols] at hon hd
  have ha := hd a (by simp)
  have hb := hd b (by simp)
  obtain ⟨s₁, a', htod, hptv, hw₁, hon₁, ha', hsame⟩ := tod_date (s := putAside now text) hw hsep hon ha
  have hts' : ∀ t ∈ ts.head?, t ≠ .sym sep := by
    intro t ht
    obtain ⟨hslash, hdot⟩ := hts t ht
    obtain rfl | rfl := hsep
    · exact hslash
    · exact hdot
  rw [← hsame] at hmon hmday
  obtain ⟨sc, hsc, hscon, hday⟩ := day_number localtime hw₁ hsep hon₁ ha' hb hmon hmday hvalid.mon
    hvalid.mday hts'
  have hyear : s₁.ptv.tm.year = noYear := by
    rw [hptv]
    rfl
  rw [hyear, assignDate_noYear hvalid.mday hvalid.mon] at hday
  have hnum := numberFirst_eq htod hday
  have haside : (setDate s₁.ptv date.mday date.mon 28100).tm.hour = noHour ∧
      (setDate s₁.ptv date.mday date.mon 28100).tm.year ≠ noYear := by
    constructor
    · unfold setDate
      dsimp only
      rw [hptv]
      rfl
    · change (28100 : ℤ) ≠ noYear
      decide
  rw [if_pos haside] at hnum
  exact ⟨sc, _, hsc, hscon, rfl, rfl, rfl, (parseReference_number (tokid_of_num hon).1).trans hnum⟩

/-- A word for a time of day. -/
def IsHour (w : TokId) : Prop := w = .midnight ∨ w = .noon ∨ w = .teatime

lemma length_of_isHour {w : TokId} (hsc : Fresh sc) (hw : IsHour w) (htokid : sc.tokid = w) : 2 < sc.token.length := by
  obtain ⟨before, hspecials, rfl⟩ := hsc
  have hwords : Words before.specials := by
    rw [hspecials]
    exact words_variousWords
  have hlong : ∀ word ∈ variousWords, word.2 = w → 2 < word.1.length := by
    obtain rfl | rfl | rfl := hw
    all_goals decide
  have hmark : ∀ c, punctuation c ≠ some w := by
    intro c
    unfold punctuation
    obtain rfl | rfl | rfl := hw
    all_goals
      split
      all_goals
        intro hmark
        cases hmark
  obtain ⟨word, hmem, hid, hlen⟩ := next_of_word hwords htokid
    (by obtain rfl | rfl | rfl := hw <;> exact TokId.noConfusion) (by obtain rfl | rfl | rfl := hw <;> exact TokId.noConfusion)
    (by obtain rfl | rfl | rfl := hw <;> exact TokId.noConfusion) hmark
  rw [hspecials] at hmem
  rw [← hlen]
  exact hlong word hmem hid

lemma parseReference_month {m : Fin 12} (htokid : (start now text).scanner.tokid = .month m) :
    parseReference localtime now text = do
      let s ← day localtime (start now text)
      if s.scanner.tokid = .number then tod s else return s := by
  unfold parseReference
  unfold start at htokid
  dsimp only at htokid ⊢
  rw [htokid]
  rfl

variable (localtime) in
lemma parseReference_isHour {w : TokId} (hw : IsHour w) (htokid : (start now text).scanner.tokid = w) :
    ∃ hour, parseReference localtime now text = hourFirst localtime (start now text) hour := by
  unfold parseReference
  unfold start at htokid
  dsimp only at htokid ⊢
  rw [htokid]
  obtain rfl | rfl | rfl := hw
  · exact ⟨0, rfl⟩
  · exact ⟨12, rfl⟩
  · exact ⟨16, rfl⟩

variable (localtime) in
/-- A month name and a day, with something behind it that is not a number. -/
lemma reference_name {m : Fin 12} {d : Text} (hon : (start now text).scanner.On (.sym (.month m) :: .num d :: ts))
    (hd : d ≠ [] ∧ ∀ c ∈ d, c.isDigit) (hlt : digitsVal d < 2 ^ 31) (hts : ∀ t ∈ ts.head?, ∀ e, t ≠ .num e) :
    ∃ sc : Scanner, sc.On ts ∧
      parseReference localtime now text =
        (assignDate (start now text).ptv (digitsVal d) (m : ℕ) now.year).map fun ptv => { scanner := sc, ptv } := by
  obtain ⟨sc, -, hscon, hday⟩ := day_name localtime (s := start now text) (next_specials _) hon hd hlt hts
  refine ⟨sc, hscon, ?_⟩
  have hother : sc.tokid ≠ .number := by
    cases ts with
    | nil =>
      rw [hscon.1]
      nofun
    | cons t ts =>
      intro hnumber
      obtain ⟨-, hsymbol, -⟩ := hscon
      unfold Scanner.symbol at hsymbol
      rw [if_pos hnumber] at hsymbol
      exact hts t rfl _ hsymbol.symm
  rw [parseReference_month (tokid_of_sym hon), hday]
  change _ = (assignDate (start now text).ptv (digitsVal d) (m : ℕ) (start now text).ptv.tm.year).map _
  cases assignDate (start now text).ptv (digitsVal d) (m : ℕ) (start now text).ptv.tm.year with
  | error => rfl
  | ok ptv => exact if_neg hother

/-- The state behind a word for a time of day. -/
def atHour (now : StructTm) (text : Text) (hour : ℤ) : State :=
  { scanner := (start now text).scanner.next
    ptv := { (start now text).ptv with tm := { (start now text).ptv.tm with hour, min := 0, sec := 0 } } }

variable (localtime) in
/-- A word for a time of day, and a date. -/
lemma reference_isHour {w : TokId} (hw : IsHour w) (hon : (start now text).scanner.On (.sym w :: date.symbols))
    (hvalid : date.Valid) (hd : ∀ d, .num d ∈ date.symbols → d ≠ [] ∧ ∀ c ∈ d, c.isDigit) :
    ∃ (sc : Scanner) (p : TimeValue), sc.On [] ∧
      parseReference localtime now text =
        (assignDate p date.mday date.mon now.year).map fun ptv => { scanner := sc, ptv } := by
  obtain ⟨hour, href⟩ := parseReference_isHour localtime hw (tokid_of_sym hon)
  have hwords : Words (start now text).scanner.specials := by
    rw [start, next_specials]
    exact words_variousWords
  have hnext := hon.next hwords
  rw [← List.append_nil date.symbols] at hnext
  obtain ⟨sc, -, hscon, hday⟩ := day_date localtime (s := atHour now text hour)
    ((next_specials _).trans (next_specials _)) hnext hvalid hd (by simp)
  exact ⟨sc, (atHour now text hour).ptv, hscon, href.trans hday⟩

/-! ### The forms of a specification -/

lemma yields_numeric (hnumeric : ∀ m d, date ≠ .name m d) (hon : (start now text).scanner.On (date.symbols ++ []))
    (hvalid : date.Valid) (hd : ∀ d, .num d ∈ date.symbols → d ≠ [] ∧ ∀ c ∈ d, c.isDigit) :
    Yields localtime now text static date year ↔ year = 28100 := by
  obtain ⟨sc, p, hsc, hscon, hmday, hmon, hyear, href⟩ :=
    reference_numeric localtime hnumeric hon hvalid hd (by simp)
  have hend : atoi sc.token = 0 ∧ sc.token.length ≤ 2 := by
    obtain ⟨before, hspecials, rfl⟩ := hsc
    apply atoi_of_end _ hscon
    rw [hspecials]
    exact words_variousWords
  obtain ⟨s, htod, hson, hptv⟩ := tod_end (s := { scanner := sc, ptv := p }) hsc.specials hscon hend
  rw [htod] at href
  have hsame : s.ptv.tm.mday = date.mday ∧ s.ptv.tm.mon = date.mon ∧ s.ptv.tm.year = 28100 := by
    rw [hptv]
    exact ⟨hmday, hmon, hyear⟩
  obtain ⟨hscanner, hmday', hmon', hyear'⟩ := @restoreNow_of_ne now s (by rw [hsame.2.2]; decide)
  exact yields_of_ok href (hscanner ▸ hson) (hmday'.trans hsame.1) (hmon'.trans hsame.2.1) (hyear'.trans hsame.2.2)

lemma yields_numeric_clock {hour : Text} {minute : Option Text} {half : Option Half} (hnumeric : ∀ m d, date ≠ .name m d)
    (hon : (start now text).scanner.On (date.symbols ++ (TimeOfDay.clock hour minute half).symbols))
    (hvalid : date.Valid) (hd : ∀ d, .num d ∈ date.symbols → d ≠ [] ∧ ∀ c ∈ d, c.isDigit)
    (htime : (TimeOfDay.clock hour minute half).Valid) (hhour : hour ≠ [] ∧ ∀ c ∈ hour, c.isDigit)
    (hminute : ∀ m ∈ minute, m ≠ [] ∧ ∀ c ∈ m, c.isDigit) :
    Yields localtime now text static date year ↔ year = 28100 := by
  have hts : ∀ t ∈ (TimeOfDay.clock hour minute half).symbols.head?, t ≠ .sym .slash ∧ t ≠ .sym .dot := by
    intro t ht
    cases ht
    exact ⟨nofun, nofun⟩
  obtain ⟨sc, p, hsc, hscon, hmday, hmon, hyear, href⟩ :=
    reference_numeric localtime hnumeric hon hvalid hd hts
  have hclock : sc.On (.num hour :: (minuteSymbols minute ++ (halfSymbols half ++ []))) := by
    rw [List.append_nil]
    exact hscon
  obtain ⟨s, value, m, htod, -, hson, -, hptv⟩ :=
    tod_clock (s := { scanner := sc, ptv := p }) hsc.specials hclock (by simp [Follows]) htime hhour hminute
  rw [htod] at href
  have hsame : s.ptv.tm.mday = date.mday ∧ s.ptv.tm.mon = date.mon ∧ s.ptv.tm.year = 28100 := by
    rw [hptv]
    exact ⟨hmday, hmon, hyear⟩
  obtain ⟨hscanner, hmday', hmon', hyear'⟩ := @restoreNow_of_ne now s (by rw [hsame.2.2]; decide)
  exact yields_of_ok href (hscanner ▸ hson) (hmday'.trans hsame.1) (hmon'.trans hsame.2.1) (hyear'.trans hsame.2.2)

/-- A word for a time of day is left over behind a date in numbers. -/
lemma not_yields_numeric_hour {w : TokId} (hw : IsHour w) (hnumeric : ∀ m d, date ≠ .name m d)
    (hon : (start now text).scanner.On (date.symbols ++ [.sym w])) (hvalid : date.Valid)
    (hd : ∀ d, .num d ∈ date.symbols → d ≠ [] ∧ ∀ c ∈ d, c.isDigit) :
    ¬ Yields localtime now text static date year := by
  have hts : ∀ t ∈ ([.sym w] : List Sym).head?, t ≠ .sym .slash ∧ t ≠ .sym .dot := by
    intro t ht
    cases ht
    obtain rfl | rfl | rfl := hw
    all_goals exact ⟨nofun, nofun⟩
  obtain ⟨sc, p, hsc, hscon, -, -, -, href⟩ := reference_numeric localtime hnumeric hon hvalid hd hts
  have htokid := tokid_of_sym hscon
  rw [tod_word (length_of_isHour hsc hw htokid)] at href
  rintro ⟨ptv, hparse, -⟩
  refine parseTime_of_trailing href ?_ ?_ ?_ ptv hparse
  all_goals
    change sc.tokid ≠ _
    rw [htokid]
    obtain rfl | rfl | rfl := hw
    all_goals nofun

/-- What is neither a number nor a sign is left over behind a month name and a day. -/
lemma not_yields_name {m : Fin 12} {d : Text} {t : TokId} (ht : t ≠ .plus ∧ t ≠ .minus ∧ t ≠ .eof)
    (hon : (start now text).scanner.On (.sym (.month m) :: .num d :: .sym t :: ts))
    (hd : d ≠ [] ∧ ∀ c ∈ d, c.isDigit) (hlt : digitsVal d < 2 ^ 31) :
    ¬ Yields localtime now text static date year := by
  have hts : ∀ t' ∈ (.sym t :: ts).head?, ∀ e, t' ≠ .num e := by
    intro t' ht'
    cases ht'
    nofun
  obtain ⟨sc, hscon, href⟩ := reference_name localtime hon hd hlt hts
  have htokid := tokid_of_sym hscon
  rintro ⟨ptv, hparse, -⟩
  cases hassign : assignDate (start now text).ptv (digitsVal d) (m : ℕ) now.year with
  | error e =>
    rw [hassign] at href
    exact parseTime_of_error href ptv hparse
  | ok ptv' =>
    rw [hassign] at href
    refine parseTime_of_trailing href ?_ ?_ ?_ ptv hparse
    all_goals
      change sc.tokid ≠ _
      rw [htokid]
    · exact ht.1
    · exact ht.2.1
    · exact ht.2.2

/-- Hours behind a month name and a day are taken for a year; behind that, nothing of a time of day is read. -/
lemma yields_name_clock {m : Fin 12} {d hour : Text} (hon : (start now text).scanner.On (.sym (.month m) :: .num d ::
      .num hour :: ts)) (hts : ts = [] ∨ ∃ t us, ts = .sym t :: us ∧ t ≠ .plus ∧ t ≠ .minus ∧ t ≠ .eof ∧ t ≠ .number)
    (hvalid : (DayMonth.name m d).Valid) (hd : d ≠ [] ∧ ∀ c ∈ d, c.isDigit) (hhour : hour ≠ [] ∧ ∀ c ∈ hour, c.isDigit)
    (hle : digitsVal hour ≤ 23) :
    Yields localtime now text static (.name m d) year ↔ ts = [] ∧ year = 100 + digitsVal hour := by
  have hmday := hvalid.mday
  have hmon : (0 : ℤ) ≤ (m : ℕ) ∧ ((m : ℕ) : ℤ) ≤ 11 := hvalid.mon
  simp only [DayMonth.mday] at hmday
  obtain ⟨sc, hscon, hday⟩ := day_name_year localtime (s := start now text) (next_specials _) hon hd
    (by omega) hhour (by omega)
  have hlt : (digitsVal hour : ℤ) ≤ 23 := by exact_mod_cast hle
  rw [assignDate_hour hmday hmon (Int.natCast_nonneg _) hlt] at hday
  have href : parseReference localtime now text = .ok
      { scanner := sc, ptv := setDate (start now text).ptv (digitsVal d) (m : ℕ) (100 + digitsVal hour) } := by
    rw [parseReference_month (tokid_of_sym hon), hday]
    apply if_neg
    change sc.tokid ≠ .number
    obtain rfl | ⟨t, us, rfl, -, -, -, hnumber⟩ := hts
    · rw [hscon.1]
      nofun
    · rw [tokid_of_sym hscon]
      exact hnumber
  obtain rfl | ⟨t, us, rfl, hplus, hminus, heof, -⟩ := hts
  · rw [@yields_of_ok _ _ _ _ _ (.name m d) _ href hscon _ rfl rfl rfl]
    exact (and_iff_right rfl).symm
  · constructor
    · rintro ⟨ptv, hparse, -⟩
      have htokid := tokid_of_sym hscon
      refine absurd hparse (parseTime_of_trailing href ?_ ?_ ?_ ptv)
      all_goals
        change sc.tokid ≠ _
        rw [htokid]
      · exact hplus
      · exact hminus
      · exact heof
    · rintro ⟨hnil, -⟩
      cases hnil

end Specifications

section Forms

variable {localtime : ℤ → StructTm} {now : StructTm} {tspec : Text} {static : Repeated} {date : DayMonth} {time : TimeOfDay}

lemma isHour_or_clock (date : DayMonth) (time : TimeOfDay) :
    (∃ w, IsHour w ∧ time.symbols = [.sym w] ∧ (∀ year, (Dated.timeFirst time date).KeepsYear year = (year ≤ 138)) ∧
      ∀ year, (Dated.dateFirst date time).KeepsYear year = False) ∨ ∃ hour minute half, time = .clock hour minute half := by
  cases time with
  | clock hour minute half => exact .inr ⟨hour, minute, half, rfl⟩
  | midnight => exact .inl ⟨.midnight, .inl rfl, rfl, fun _ => rfl, fun _ => by cases date <;> rfl⟩
  | noon => exact .inl ⟨.noon, .inr (.inl rfl), rfl, fun _ => rfl, fun _ => by cases date <;> rfl⟩
  | teatime => exact .inl ⟨.teatime, .inr (.inr rfl), rfl, fun _ => rfl, fun _ => by cases date <;> rfl⟩

lemma alone_iff (hyear : 70 ≤ now.year) (hvalid : date.Valid) (hon : (start now tspec).scanner.On date.symbols)
    (hd : ∀ d, .num d ∈ date.symbols → d ≠ [] ∧ ∀ c ∈ d, c.isDigit) :
    Yields localtime now tspec static date now.year ↔ (Dated.alone date).KeepsYear now.year := by
  cases date with
  | name m d =>
    have hmday := hvalid.mday
    simp only [DayMonth.mday] at hmday
    obtain ⟨sc, hscon, href⟩ := reference_name localtime hon (hd d (by simp [DayMonth.symbols])) (by omega)
      (by simp)
    exact yields_of_assign hvalid hyear hscon href
  | slash m d =>
    rw [← List.append_nil (DayMonth.slash m d).symbols] at hon
    exact yields_numeric (fun _ _ => nofun) hon hvalid hd
  | dot d m =>
    rw [← List.append_nil (DayMonth.dot d m).symbols] at hon
    exact yields_numeric (fun _ _ => nofun) hon hvalid hd

lemma timeFirst_iff (hyear : 70 ≤ now.year) (hvalid : date.Valid) (htime : time.Valid)
    (hon : (start now tspec).scanner.On (time.symbols ++ date.symbols))
    (hd : ∀ d, .num d ∈ time.symbols ++ date.symbols → d ≠ [] ∧ ∀ c ∈ d, c.isDigit) :
    Yields localtime now tspec static date now.year ↔ (Dated.timeFirst time date).KeepsYear now.year := by
  have hddate : ∀ d, .num d ∈ date.symbols → d ≠ [] ∧ ∀ c ∈ d, c.isDigit := fun d h => hd d (List.mem_append_right _ h)
  obtain ⟨w, hw, hsymbols, hkeeps, -⟩ | ⟨hour, minute, half, rfl⟩ := isHour_or_clock date time
  · rw [hsymbols] at hon
    rw [hkeeps]
    obtain ⟨sc, p, hscon, href⟩ := reference_isHour localtime hw hon hvalid hddate
    exact yields_of_assign hvalid hyear hscon href
  · have hhour := hd hour (by simp [TimeOfDay.symbols])
    have hminute : ∀ m ∈ minute, m ≠ [] ∧ ∀ c ∈ m, c.isDigit := by
      rintro m hm
      cases hm
      exact hd m (by simp [TimeOfDay.symbols, minuteSymbols])
    simp only [TimeOfDay.symbols, List.cons_append, List.append_assoc] at hon
    obtain ⟨s, href, hson, hmday, hmon, hother⟩ :=
      reference_clock localtime hon htime hvalid hddate hhour hminute
    exact yields_of_ok href hson hmday hmon hother

lemma dateFirst_iff (hvalid : date.Valid) (htime : time.Valid)
    (hon : (start now tspec).scanner.On (date.symbols ++ time.symbols))
    (hd : ∀ d, .num d ∈ date.symbols ++ time.symbols → d ≠ [] ∧ ∀ c ∈ d, c.isDigit) :
    Yields localtime now tspec static date now.year ↔ (Dated.dateFirst date time).KeepsYear now.year := by
  have hddate : ∀ d, .num d ∈ date.symbols → d ≠ [] ∧ ∀ c ∈ d, c.isDigit := fun d h => hd d (List.mem_append_left _ h)
  obtain ⟨w, hw, hsymbols, -, hkeeps⟩ | ⟨hour, minute, half, rfl⟩ := isHour_or_clock date time
  · rw [hsymbols] at hon
    rw [hkeeps]
    have hother : w ≠ .plus ∧ w ≠ .minus ∧ w ≠ .eof := by
      obtain rfl | rfl | rfl := hw
      all_goals exact ⟨nofun, nofun, nofun⟩
    refine iff_of_false ?_ id
    cases date with
    | name m d =>
      have hmday := hvalid.mday
      simp only [DayMonth.mday] at hmday
      exact not_yields_name hother hon (hddate d (by simp [DayMonth.symbols])) (by omega)
    | slash m d => exact not_yields_numeric_hour hw (fun _ _ => nofun) hon hvalid hddate
    | dot d m => exact not_yields_numeric_hour hw (fun _ _ => nofun) hon hvalid hddate
  · have hhour := hd hour (by simp [TimeOfDay.symbols])
    have hminute : ∀ m ∈ minute, m ≠ [] ∧ ∀ c ∈ m, c.isDigit := by
      rintro m hm
      cases hm
      exact hd m (by simp [TimeOfDay.symbols, minuteSymbols])
    cases date with
    | slash m d => exact yields_numeric_clock (fun _ _ => nofun) hon hvalid hddate htime hhour hminute
    | dot d m => exact yields_numeric_clock (fun _ _ => nofun) hon hvalid hddate htime hhour hminute
    | name m d =>
      have hdigits := hddate d (by simp [DayMonth.symbols])
      obtain ⟨hlen, hle, -⟩ := htime
      have hle23 : digitsVal hour ≤ 23 := by
        split at hle
        all_goals omega
      have hbehind : minuteSymbols minute ++ halfSymbols half = [] ∨ ∃ t us, minuteSymbols minute ++ halfSymbols half =
          .sym t :: us ∧ t ≠ .plus ∧ t ≠ .minus ∧ t ≠ .eof ∧ t ≠ .number := by
        cases minute with
        | some m => exact .inr ⟨.colon, _, rfl, nofun, nofun, nofun, nofun⟩
        | none =>
          cases half with
          | none => exact .inl rfl
          | some half =>
            cases half with
            | am => exact .inr ⟨.am, [], rfl, nofun, nofun, nofun, nofun⟩
            | pm => exact .inr ⟨.pm, [], rfl, nofun, nofun, nofun, nofun⟩
      rw [yields_name_clock hon hbehind hvalid hdigits hhour hle23]
      cases minute with
      | some m => exact iff_of_false (fun h => List.cons_ne_nil _ _ h.1) id
      | none =>
        cases half with
        | none => exact and_iff_right rfl
        | some half => exact iff_of_false (fun h => List.cons_ne_nil _ _ h.1) id

end Forms

/-- A date without a year means the current one if and only if the specification keeps it. -/
theorem parseTime_currentYear_iff {localtime : ℤ → StructTm} {now : StructTm} {tspec : Text} {static : Repeated} {spec : Dated}
    (hyear : 70 ≤ now.year) (hvalid : spec.Valid) (hspec : Parsetime.Ahead variousWords tspec spec.symbols) :
    Yields localtime now tspec static spec.date now.year ↔ spec.KeepsYear now.year := by
  have hon : (start now tspec).scanner.On spec.symbols := on_init words_variousWords hspec
  have hd : ∀ d, .num d ∈ spec.symbols → d ≠ [] ∧ ∀ c ∈ d, c.isDigit := fun _ => hspec.digits words_variousWords
  cases spec with
  | alone date => exact alone_iff hyear hvalid hon hd
  | timeFirst time date => exact timeFirst_iff hyear hvalid.1 hvalid.2 hon hd
  | dateFirst date time => exact dateFirst_iff hvalid.1 hvalid.2 hon hd

/-- The tokens of a month name and a day, and of a month and a day in numbers. -/
lemma ahead_christmas :
    Parsetime.Ahead variousWords "dec 24".toList (Dated.alone (.name 11 ['2', '4'])).symbols ∧
      Parsetime.Ahead variousWords "12/24".toList (Dated.alone (.slash ['1', '2'] ['2', '4'])).symbols := by
  constructor
  · exact .cons (by decide) (.cons (by decide) (.stop (by decide)))
  · exact .cons (by decide) (.cons (by decide) (.cons (by decide) (.stop (by decide))))

lemma valid_christmas : (Dated.alone (.name 11 ['2', '4'])).Valid ∧ (Dated.alone (.slash ['1', '2'] ['2', '4'])).Valid := by
  refine ⟨⟨?_, ?_⟩, ?_, ?_⟩
  all_goals decide

/-- A day in the year 2023. -/
def november : StructTm := gmtime 1700000000

/-- A month name keeps the current year. -/
theorem parseTime_currentYear_name :
    Yields gmtime november "dec 24".toList { op := .plus, prevMultiplier := none } (.name 11 ['2', '4']) november.year :=
  (@parseTime_currentYear_iff gmtime november _ { op := .plus, prevMultiplier := none } _ (by decide) valid_christmas.1
    ahead_christmas.1).2 (by decide : november.year ≤ 138)

/-- A month and a day in numbers are those of the year 30000. -/
theorem parseTime_currentYear_slash :
    ¬ ∀ (localtime : ℤ → StructTm) (now : StructTm) (tspec : Text) (static : Repeated) (spec : Dated), 70 ≤ now.year → spec.Valid →
      Parsetime.Ahead variousWords tspec spec.symbols → Yields localtime now tspec static spec.date now.year := by
  intro h
  have hyields := h gmtime november "12/24".toList { op := .plus, prevMultiplier := none } _ (by decide) valid_christmas.2
    ahead_christmas.2
  have hyear := (alone_iff (by decide) valid_christmas.2 (on_init words_variousWords ahead_christmas.2)
    fun _ => ahead_christmas.2.digits words_variousWords).1 hyields
  have hother : ¬ november.year = 28100 := by decide
  exact hother hyear

end Rrdtool.Parsetime
