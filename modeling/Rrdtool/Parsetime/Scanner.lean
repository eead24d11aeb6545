import Mathlib.Data.List.TakeWhile
import Rrdtool.Strtol

/-!
# The scanner of time specifications

`token` of `src/rrd_parsetime.c`, which `rrd_parsetime` runs on one argument. What it reads is a list of tokens
(`Ahead`): a run of `token` takes them one by one, and then only finds the end.
-/

namespace Rrdtool.Parsetime

/-- The symbols; months and days of the week are counted from January and from Sunday. -/
inductive TokId where
  | midnight | noon | teatime
  | pm | am | yesterday | today | tomorrow | now | start | fin | epoch
  | seconds | minutes | hours | days | weeks | months | years
  | monthsMinutes
  | number | plus | minus | dot | colon | slash | id
  | month (mon : Fin 12)
  | weekday (wday : Fin 7)
  | eof
deriving DecidableEq

/-- A table of words. -/
abbrev SpecialTokens := List (Text × TokId)

def variousWords : SpecialTokens :=
  [("midnight".toList, .midnight), ("noon".toList, .noon), ("teatime".toList, .teatime), ("am".toList, .am),
    ("pm".toList, .pm), ("tomorrow".toList, .tomorrow), ("yesterday".toList, .yesterday), ("today".toList, .today),
    ("now".toList, .now), ("n".toList, .now), ("start".toList, .start), ("s".toList, .start), ("end".toList, .fin),
    ("e".toList, .fin), ("epoch".toList, .epoch), ("jan".toList, .month 0), ("feb".toList, .month 1),
    ("mar".toList, .month 2), ("apr".toList, .month 3), ("may".toList, .month 4), ("jun".toList, .month 5),
    ("jul".toList, .month 6), ("aug".toList, .month 7), ("sep".toList, .month 8), ("oct".toList, .month 9),
    ("nov".toList, .month 10), ("dec".toList, .month 11), ("january".toList, .month 0), ("february".toList, .month 1),
    ("march".toList, .month 2), ("april".toList, .month 3), ("may".toList, .month 4), ("june".toList, .month 5),
    ("july".toList, .month 6), ("august".toList, .month 7), ("september".toList, .month 8), ("october".toList, .month 9),
    ("november".toList, .month 10), ("december".toList, .month 11), ("sunday".toList, .weekday 0),
    ("sun".toList, .weekday 0), ("monday".toList, .weekday 1), ("mon".toList, .weekday 1), ("tuesday".toList, .weekday 2),
    ("tue".toList, .weekday 2), ("wednesday".toList, .weekday 3), ("wed".toList, .weekday 3),
    ("thursday".toList, .weekday 4), ("thu".toList, .weekday 4), ("friday".toList, .weekday 5), ("fri".toList, .weekday 5),
    ("saturday".toList, .weekday 6), ("sat".toList, .weekday 6)]

def timeMultipliers : SpecialTokens :=
  [("second".toList, .seconds), ("seconds".toList, .seconds), ("sec".toList, .seconds), ("s".toList, .seconds),
    ("minute".toList, .minutes), ("minutes".toList, .minutes), ("min".toList, .minutes), ("m".toList, .monthsMinutes),
    ("hour".toList, .hours), ("hours".toList, .hours), ("hr".toList, .hours), ("h".toList, .hours), ("day".toList, .days),
    ("days".toList, .days), ("d".toList, .days), ("week".toList, .weeks), ("weeks".toList, .weeks), ("wk".toList, .weeks),
    ("w".toList, .weeks), ("month".toList, .months), ("months".toList, .months), ("mon".toList, .months),
    ("year".toList, .years), ("years".toList, .years), ("yr".toList, .years), ("y".toList, .years)]

/-- `parse_token`: the first word of the table that is the argument in capital or in small letters. -/
@[grind] def parseToken (specials : SpecialTokens) (arg : Text) : TokId :=
  ((specials.find? fun (name, _) => name.map Char.toLower = arg.map Char.toLower).map (·.2)).getD .id

/-- The variables of the scanner: the words that it knows, the rest of the argument, whether the argument is used up, and
the token that was read last. -/
structure Scanner where
  specials : SpecialTokens
  sct : Text
  need : Bool
  tokid : TokId
  token : Text
deriving DecidableEq

/-- What is skipped in front of a token. -/
def isBlank (c : Char) : Bool := isSpace c || c = '_' || c = ','

/-- The tokens of one character. -/
@[grind] def punctuation : Char → Option TokId
  | ':' => some .colon
  | '.' => some .dot
  | '+' => some .plus
  | '-' => some .minus
  | '/' => some .slash
  | _ => none

/-- `token`. There is no argument behind the first one; a character that begins no token is an end that is not read. -/
@[grind] def Scanner.next (s : Scanner) : Scanner :=
  if s.need then { s with tokid := .eof, token := [] }
  else
    match s.sct.dropWhile isBlank with
    | [] => { s with sct := [], need := true, tokid := .eof, token := [] }
    | c :: p =>
      if c.isDigit then
        { s with sct := p.dropWhile Char.isDigit, tokid := .number, token := c :: p.takeWhile Char.isDigit }
      else if c.isAlpha then
        let token := c :: p.takeWhile Char.isAlpha
        { s with sct := p.dropWhile Char.isAlpha, tokid := parseToken s.specials token, token }
      else
        match punctuation c with
        | some tokid => { s with sct := p, tokid, token := [c] }
        | none => { s with sct := c :: p, tokid := .eof, token := [c] }

/-- `init_scanner`. -/
@[grind] def Scanner.init (specials : SpecialTokens) (tspec : Text) : Scanner :=
  { specials, sct := tspec, need := false, tokid := .eof, token := [] }

/-! ### What is read -/

/-- A token that the parser distinguishes: a number by its digits, everything else by its symbol. -/
inductive Sym where
  | num (digits : Text)
  | sym (tokid : TokId)
deriving DecidableEq

@[grind] def Scanner.symbol (s : Scanner) : Sym := if s.tokid = .number then .num s.token else .sym s.tokid

/-- The tokens of a text, up to its end or to a character that begins none. -/
inductive Ahead (specials : SpecialTokens) : Text → List Sym → Prop where
  | stop {text : Text} : (Scanner.init specials text).next.tokid = .eof → Ahead specials text []
  | cons {text : Text} {ts : List Sym} : (Scanner.init specials text).next.tokid ≠ .eof →
    Ahead specials (Scanner.init specials text).next.sct ts →
    Ahead specials text ((Scanner.init specials text).next.symbol :: ts)

/-- The tokens that the scanner has still to read. -/
@[grind] def Scanner.Ahead (s : Scanner) (ts : List Sym) : Prop :=
  if s.need then ts = [] else Parsetime.Ahead s.specials s.sct ts

/-- The token that was read, and those to read; none is left at the end. -/
def Scanner.On (s : Scanner) : List Sym → Prop
  | [] => s.tokid = .eof ∧ s.Ahead []
  | t :: ts => s.tokid ≠ .eof ∧ s.symbol = t ∧ s.Ahead ts

/-- A table of words only. -/
@[grind] def Words (specials : SpecialTokens) : Prop := ∀ word ∈ specials, word.2 ≠ .eof ∧ word.2 ≠ .number

lemma words_variousWords : Words variousWords := by
  unfold Words
  decide

lemma words_timeMultipliers : Words timeMultipliers := by
  unfold Words
  decide

section Reading

variable {s : Scanner} {specials : SpecialTokens} {text : Text} {t : Sym} {ts : List Sym}

lemma parseToken_ne (hw : Words specials) (arg : Text) :
    parseToken specials arg ≠ .eof ∧ parseToken specials arg ≠ .number := by
  unfold parseToken
  cases hfind : specials.find? fun (name, _) => name.map Char.toLower = arg.map Char.toLower with
  | none => exact ⟨nofun, nofun⟩
  | some word => exact hw word (List.mem_of_find?_eq_some hfind)

lemma punctuation_ne {c : Char} {tokid : TokId} (h : punctuation c = some tokid) :
    tokid ≠ .eof ∧ tokid ≠ .number ∧ c.isDigit = false := by
  unfold punctuation at h
  split at h
  all_goals
    cases h
    try exact ⟨nofun, nofun, by decide⟩

@[simp] lemma next_specials (s : Scanner) : s.next.specials = s.specials := by
  unfold Scanner.next
  repeat' split
  all_goals rfl

/-- What `token` finds: the end of the argument, a number, a word, a sign of one character, or a character that begins no
token. -/
lemma next_cases (hw : Words s.specials) (h : s.need = false) :
    (s.next.tokid = .eof ∧ s.next.need = true ∧ s.next.token = []) ∨
    (s.next.tokid = .number ∧ s.next.need = false ∧ s.next.sct.length < s.sct.length ∧ s.next.token ≠ [] ∧
      ∀ c ∈ s.next.token, c.isDigit) ∨
    (s.next.tokid ≠ .eof ∧ s.next.tokid ≠ .number ∧ s.next.need = false ∧ s.next.sct.length < s.sct.length ∧
      (s.next.tokid = parseToken s.specials s.next.token ∨ punctuation (s.next.token.headD ' ') = some s.next.tokid)) ∨
    ∃ c p, isBlank c = false ∧ c.isDigit = false ∧ c.isAlpha = false ∧ punctuation c = none ∧ s.next.tokid = .eof ∧
      s.next.need = false ∧ s.next.sct = c :: p ∧ s.next.token = [c] := by
  have hle : (s.sct.dropWhile isBlank).length ≤ s.sct.length := (List.dropWhile_suffix isBlank).length_le
  unfold Scanner.next
  rw [h]
  simp only [Bool.false_eq_true, reduceIte]
  cases hrest : s.sct.dropWhile isBlank with
  | nil => exact .inl ⟨rfl, rfl, rfl⟩
  | cons c p =>
    rw [hrest, List.length_cons] at hle
    have hblank : isBlank c = false := by
      have hne : s.sct.dropWhile isBlank ≠ [] := by
        rw [hrest]
        exact List.cons_ne_nil _ _
      have hhead := List.head_dropWhile_not isBlank hne
      simpa [hrest] using hhead
    dsimp only
    split
    · rename_i hdigit
      have hlen := (List.dropWhile_suffix (l := p) Char.isDigit).length_le
      refine .inr (.inl ⟨rfl, rfl, by dsimp only; omega, List.cons_ne_nil _ _, ?_⟩)
      intro d hd
      obtain rfl | hd := List.mem_cons.1 hd
      · exact hdigit
      · exact List.mem_takeWhile_imp hd
    · rename_i hdigit
      split
      · have hlen := (List.dropWhile_suffix (l := p) Char.isAlpha).length_le
        obtain ⟨heof, hnumber⟩ := parseToken_ne hw (c :: p.takeWhile Char.isAlpha)
        exact .inr (.inr (.inl ⟨heof, hnumber, rfl, by dsimp only; omega, .inl rfl⟩))
      · rename_i halpha
        cases hmark : punctuation c with
        | some tokid =>
          obtain ⟨heof, hnumber, -⟩ := punctuation_ne hmark
          exact .inr (.inr (.inl ⟨heof, hnumber, rfl, by dsimp only; omega, .inr hmark⟩))
        | none =>
          exact .inr (.inr (.inr ⟨c, p, hblank, by simpa using hdigit, by simpa using halpha, hmark, rfl, rfl, rfl, rfl⟩))

/-- Nothing but the words and the rest of the argument matters. -/
lemma next_eq_init (h : s.need = false) : s.next = (Scanner.init s.specials s.sct).next := by
  unfold Scanner.next Scanner.init
  rw [h]

lemma next_of_need (h : s.need = true) : s.next.tokid = .eof ∧ s.next.need = true ∧ s.next.token = [] := by
  unfold Scanner.next
  rw [if_pos h]
  exact ⟨rfl, h, rfl⟩

/-- A character that begins no token is found again. -/
lemma init_next_of_mark {c : Char} (p : Text) (hblank : isBlank c = false) (hdigit : c.isDigit = false)
    (halpha : c.isAlpha = false) (hmark : punctuation c = none) : (Scanner.init specials (c :: p)).next.tokid = .eof := by
  have hdrop : (c :: p).dropWhile isBlank = c :: p := List.dropWhile_cons_of_neg (by rw [hblank]; decide)
  simp only [Scanner.next, Scanner.init, hdrop, hdigit, halpha, hmark, Bool.false_eq_true, reduceIte]

/-- The next token, and those that are left. -/
lemma Scanner.Ahead.next (hw : Words s.specials) (h : s.Ahead ts) : s.next.On ts := by
  unfold Scanner.Ahead at h
  split at h
  · rename_i hneed
    subst h
    obtain ⟨heof, hneed', -⟩ := next_of_need hneed
    refine ⟨heof, ?_⟩
    unfold Scanner.Ahead
    rw [if_pos hneed']
  · rename_i hneed
    rw [Bool.not_eq_true] at hneed
    have hinit := next_eq_init hneed
    cases h with
    | stop heof =>
      rw [← hinit] at heof
      refine ⟨heof, ?_⟩
      unfold Scanner.Ahead
      obtain ⟨-, hneed', -⟩ | ⟨hnumber, -⟩ | ⟨hne, -⟩ | ⟨c, p, hblank, hdigit, halpha, hmark, -, hneed', hsct, -⟩ :=
        next_cases hw hneed
      · rw [if_pos hneed']
      · rw [heof] at hnumber
        cases hnumber
      · exact absurd heof hne
      · rw [hneed', hsct, next_specials, if_neg (by decide)]
        exact .stop (init_next_of_mark p hblank hdigit halpha hmark)
    | cons hne hahead =>
      rw [← hinit] at hne hahead ⊢
      refine ⟨hne, rfl, ?_⟩
      unfold Scanner.Ahead
      have hneed' : s.next.need = false := by
        obtain ⟨heof, -⟩ | ⟨-, hneed', -⟩ | ⟨-, -, hneed', -⟩ | ⟨c, p, -, -, -, -, heof, -⟩ := next_cases hw hneed
        · exact absurd heof hne
        · exact hneed'
        · exact hneed'
        · exact absurd heof hne
      rw [hneed', if_neg (by decide), next_specials]
      exact hahead

lemma Scanner.On.ahead (h : s.On (t :: ts)) : s.Ahead ts := h.2.2

lemma Scanner.On.next (hw : Words s.specials) (h : s.On (t :: ts)) : s.next.On ts := h.ahead.next hw

lemma Scanner.On.next_nil (hw : Words s.specials) (h : s.On []) : s.next.On [] := h.2.next hw

lemma on_init (hw : Words specials) (h : Parsetime.Ahead specials text ts) : (Scanner.init specials text).next.On ts :=
  Scanner.Ahead.next hw h

/-- Every text has its tokens. -/
lemma exists_ahead (hw : Words specials) (text : Text) : ∃ ts, Parsetime.Ahead specials text ts := by
  induction hlen : text.length using Nat.strong_induction_on generalizing text with
  | _ n ih =>
    by_cases heof : (Scanner.init specials text).next.tokid = .eof
    · exact ⟨[], .stop heof⟩
    · have hlt : (Scanner.init specials text).next.sct.length < text.length := by
        obtain ⟨h, -⟩ | ⟨-, -, h, -⟩ | ⟨-, -, -, h, -⟩ | ⟨c, p, -, -, -, -, h, -⟩ :=
          @next_cases (Scanner.init specials text) hw rfl
        · exact absurd h heof
        · exact h
        · exact h
        · exact absurd h heof
      obtain ⟨ts, hts⟩ := ih _ (hlen ▸ hlt) _ rfl
      exact ⟨_, .cons heof hts⟩

/-- What an end leaves as token: nothing, or the character that begins none. -/
lemma next_of_eof (hw : Words s.specials) (h : s.next.tokid = .eof) :
    s.next.token = [] ∨ ∃ c, c.isDigit = false ∧ c.isAlpha = false ∧ isBlank c = false ∧ punctuation c = none ∧
      s.next.token = [c] := by
  cases hneed : s.need with
  | true => exact .inl (next_of_need hneed).2.2
  | false =>
    obtain ⟨-, -, htoken⟩ | ⟨hnumber, -⟩ | ⟨hne, -⟩ | ⟨c, p, hblank, hdigit, halpha, hmark, -, -, -, htoken⟩ :=
      next_cases hw hneed
    · exact .inl htoken
    · rw [h] at hnumber
      cases hnumber
    · exact absurd h hne
    · exact .inr ⟨c, hdigit, halpha, hblank, hmark, htoken⟩

/-- The length of a word is that of its name in the table. -/
lemma next_of_word (hw : Words s.specials) {tokid : TokId} (h : s.next.tokid = tokid) (hne : tokid ≠ .eof)
    (hnumber : tokid ≠ .number) (hid : tokid ≠ .id) (hmark : ∀ c, punctuation c ≠ some tokid) :
    ∃ word ∈ s.specials, word.2 = tokid ∧ word.1.length = s.next.token.length := by
  cases hneed : s.need with
  | true => exact absurd ((next_of_need hneed).1.symm.trans h).symm hne
  | false =>
    obtain ⟨heof, -⟩ | ⟨hnum, -⟩ | ⟨-, -, -, -, hparse | hpunct⟩ | ⟨c, p, -, -, -, -, heof, -⟩ := next_cases hw hneed
    · exact absurd (heof.symm.trans h).symm hne
    · exact absurd (hnum.symm.trans h).symm hnumber
    · rw [h] at hparse
      unfold parseToken at hparse
      cases hfind : s.specials.find? fun (name, _) => name.map Char.toLower = s.next.token.map Char.toLower with
      | none =>
        rw [hfind] at hparse
        exact absurd hparse hid
      | some word =>
        rw [hfind] at hparse
        refine ⟨word, List.mem_of_find?_eq_some hfind, hparse.symm, ?_⟩
        have hname := List.find?_some hfind
        simp only [decide_eq_true_eq] at hname
        simpa using congrArg List.length hname
    · rw [h] at hpunct
      exact absurd hpunct (hmark _)
    · exact absurd (heof.symm.trans h).symm hne

/-- The digits of the numbers that are read. -/
lemma Ahead.digits (hw : Words specials) (h : Parsetime.Ahead specials text ts) {d : Text} (hd : .num d ∈ ts) :
    d ≠ [] ∧ ∀ c ∈ d, c.isDigit := by
  induction h with
  | stop => cases hd
  | @cons text ts hne _ ih =>
    obtain hd | hd := List.mem_cons.1 hd
    · unfold Scanner.symbol at hd
      split at hd
      · rename_i hnumber
        cases hd
        obtain ⟨heof, -⟩ | ⟨-, -, -, hdigits⟩ | ⟨-, hother, -⟩ | ⟨c, p, -, -, -, -, heof, -⟩ :=
          @next_cases (Scanner.init specials text) hw rfl
        · exact absurd heof hne
        · exact hdigits
        · exact absurd hnumber hother
        · exact absurd heof hne
      · cases hd
    · exact ih hd

lemma tokid_of_num {d : Text} (h : s.On (.num d :: ts)) : s.tokid = .number ∧ s.token = d := by
  obtain ⟨-, hsymbol, -⟩ := h
  unfold Scanner.symbol at hsymbol
  split at hsymbol
  · rename_i hnumber
    cases hsymbol
    exact ⟨hnumber, rfl⟩
  · cases hsymbol

lemma tokid_of_sym {tokid : TokId} (h : s.On (.sym tokid :: ts)) : s.tokid = tokid := by
  obtain ⟨-, hsymbol, -⟩ := h
  unfold Scanner.symbol at hsymbol
  split at hsymbol
  · cases hsymbol
  · cases hsymbol
    rfl

/-- The argument is not used up while there are tokens. -/
lemma need_of_ahead (h : s.Ahead (t :: ts)) : s.need = false := by
  unfold Scanner.Ahead at h
  split at h
  · cases h
  · rename_i hneed
    simpa using hneed

end Reading

end Rrdtool.Parsetime
