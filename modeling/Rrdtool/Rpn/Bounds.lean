import Rrdtool.Rpn.RoundTrip

/-!
# Reading an expression in memory

`rpn_parse` again, on the string in memory: `expr` is a position, and every character is read with `readAt`, which stops
at a position behind the terminating NUL. It finds the operands that `rpnOperand` finds in the rest of the string
(`rpnRound_eq`), but for one: it takes the length of a `PREV(name)` from the name, whether or not the parenthesis has
been closed, and when the string ends with the name it reads behind the NUL (`rpnParseAt_inside_iff`).
-/

namespace Rrdtool

/-- `s[p]`, where the terminating NUL is `none`; behind it there is nothing to read. -/
def readAt (s : Text) (p : ℕ) : Except ℕ (Option Char) := if p ≤ s.length then .ok s[p]? else .error p

/-- `%n[...]` of `sscanf`. -/
@[grind] def scanSetAt (s : Text) (inSet : Char → Bool) : ℕ → ℕ → Except ℕ Text
  | 0, _ => .ok []
  | n + 1, p => do
    match ← readAt s p with
    | none => .ok []
    | some c =>
      if inSet c then do
        let cs ← scanSetAt s inSet n (p + 1)
        .ok (c :: cs)
      else .ok []

/-- `strncmp` with the length of the name. -/
def strncmpAt (s : Text) : Text → ℕ → Except ℕ Bool
  | [], _ => .ok true
  | c :: cs, p => do
    let x ← readAt s p
    if x = some c then strncmpAt s cs (p + 1) else .ok false

/-- `expr[pos] == ',' || expr[pos] == '\0'`. -/
@[grind] def endsAtPlace (s : Text) (p : ℕ) : Except ℕ Bool := do
  let x ← readAt s p
  .ok (x = none || x = some ',')

/-- What an operand leaves in `rpnp[steps]` and in `expr`; `return NULL` leaves nothing. -/
abbrev Operand := Option (Option Rpnp × ℕ)

/-- A number with a comma behind it. -/
def matchNumberAt (s : Text) (p : ℕ) : Except ℕ (Option Operand) := do
  let doubleStr ← scanSetAt s isNumChar 40 p
  if doubleStr = [] then .ok none
  else do
    let x ← readAt s (p + doubleStr.length)
    if x = some ',' then
      match rrdStrtodbl doubleStr with
      | .whole v => .ok (some (some (some (.number v), p + doubleStr.length)))
      | _ => .ok none
    else .ok none

/-- `match_op`. -/
def matchOpAt (s : Text) (p : ℕ) (o : RpnOp × Text) : Except ℕ (Option Operand) := do
  if ← strncmpAt s o.2 p then do
    if ← endsAtPlace s (p + o.2.length) then .ok (some (some (some (.plain o.1), p + o.2.length)))
    else .ok none
  else .ok none

/-- `match_op_param`, for `PREV`. Where no operand ends, nothing is done. -/
@[grind] def matchPrevOtherAt (lookup : Text → Option ℕ) (s : Text) (p : ℕ) : Except ℕ (Option Operand) := do
  if ← strncmpAt s "PREV(".toList p then do
    let vname ← scanSetAt s isNameChar maxVnameLen (p + 5)
    if vname = [] then .ok none
    else do
      let length := 4 + vname.length + 2
      if ← endsAtPlace s (p + length) then
        match lookup vname with
        | none => .ok (some none)
        | some i => .ok (some (some (some (.prevOther i), p + length)))
      else .ok (some (some (none, p)))
  else .ok none

/-- The name of a variable. -/
def matchVariableAt (lookup : Text → Option ℕ) (s : Text) (p : ℕ) : Except ℕ (Option Operand) := do
  let vname ← scanSetAt s isNameChar maxVnameLen p
  if vname = [] then .ok none
  else do
    if ← endsAtPlace s (p + vname.length) then
      match lookup vname with
      | none => .ok none
      | some i => .ok (some (some (some (.variable i), p + vname.length)))
    else .ok none

/-- The operators are tried one after the other. -/
def matchOpsAt (s : Text) (p : ℕ) : List (RpnOp × Text) → Except ℕ (Option Operand)
  | [] => .ok none
  | o :: os => do
    match ← matchOpAt s p o with
    | some r => .ok (some r)
    | none => matchOpsAt s p os

/-- One operand. -/
@[grind] def rpnOperandAt (lookup : Text → Option ℕ) (s : Text) (p : ℕ) : Except ℕ Operand := do
  match ← matchNumberAt s p with
  | some r => .ok r
  | none =>
    match ← matchOpsAt s p (opNames.takeWhile (·.1 ≠ .prev)) with
    | some r => .ok r
    | none =>
      match ← matchPrevOtherAt lookup s p with
      | some r => .ok r
      | none =>
        match ← matchOpsAt s p (opNames.dropWhile (·.1 ≠ .prev)) with
        | some r => .ok r
        | none =>
          match ← matchVariableAt lookup s p with
          | some r => .ok r
          | none => .ok none

/-- A round of the loop: it is over, or has been left with the last operand, or goes on behind a comma, or has been left
with an error. -/
inductive Round where
  | over
  | last (node : Option Rpnp)
  | next (node : Option Rpnp) (expr : ℕ)
  | failed

/-- The end of a round. -/
@[grind] def tailAt (s : Text) (operand : Operand) : Except ℕ Round :=
  match operand with
  | none => .ok .failed
  | some (node, p) => do
    let x ← readAt s p
    if x = none then .ok (.last node) else if x = some ',' then .ok (.next node (p + 1)) else .ok .failed

/-- A round of the loop of `rpn_parse`. -/
@[grind] def rpnRound (lookup : Text → Option ℕ) (s : Text) (p : ℕ) : Except ℕ Round := do
  let x ← readAt s p
  if x = none then .ok .over
  else do
    let operand ← rpnOperandAt lookup s p
    tailAt s operand

/-- The loop of `rpn_parse`; it has not come to its end where the fuel does not suffice. -/
@[grind] def rpnLoopAt (lookup : Text → Option ℕ) (s : Text) : ℕ → ℕ → Except ℕ (Option (Option (List (Option Rpnp))))
  | 0, _ => .ok none
  | fuel + 1, p => do
    match ← rpnRound lookup s p with
    | .over => .ok (some (some []))
    | .last node => .ok (some (some [node]))
    | .next node p => do
      let program ← rpnLoopAt lookup s fuel p
      .ok (program.map (·.map (node :: ·)))
    | .failed => .ok (some none)

/-- `rpn_parse`. -/
def rpnParseAt (lookup : Text → Option ℕ) (s : Text) : Except ℕ (Option (Option (List (Option Rpnp)))) := do
  let x ← readAt s 0
  if x = none then .ok (some none) else rpnLoopAt lookup s (s.length + 1) 0

/-! ### What is read -/

section Reads

variable {s rest : Text} {p k n : ℕ} {inSet : Char → Bool} {lookup : Text → Option ℕ}

lemma readAt_eq (h : p ≤ s.length) : readAt s p = .ok s[p]? := if_pos h

lemma readAt_drop (h : k ≤ (s.drop p).length) (hp : p ≤ s.length) : readAt s (p + k) = .ok (s.drop p)[k]? := by
  rw [List.length_drop] at h
  rw [readAt_eq (by omega), List.getElem?_drop]

/-- The string ends here, or there is a character. -/
lemma drop_cases (s : Text) (p : ℕ) :
    (s.drop p = [] ∧ s[p]? = none) ∨
      ∃ c cs, s.drop p = c :: cs ∧ s[p]? = some c ∧ s.drop (p + 1) = cs ∧ p + 1 ≤ s.length := by
  rcases lt_or_ge p s.length with hlt | hge
  · exact .inr ⟨s[p], s.drop (p + 1), List.drop_eq_getElem_cons hlt, List.getElem?_eq_getElem hlt, rfl, hlt⟩
  · exact .inl ⟨List.drop_eq_nil_iff.2 hge, List.getElem?_eq_none_iff.2 hge⟩

lemma scanSetAt_eq (hp : p ≤ s.length) : scanSetAt s inSet n p = .ok (scanSet n inSet (s.drop p)) := by
  induction n generalizing p with
  | zero => simp [scanSetAt, scanSet]
  | succ n ih =>
    rw [scanSetAt, readAt_eq hp]
    rcases drop_cases s p with ⟨hrest, hx⟩ | ⟨c, cs, hrest, hx, hcs, hlt⟩
    · rw [hrest, hx]
      rfl
    · rw [hrest, hx]
      show (if inSet c then _ else _) = _
      rw [scanSet, List.take_succ_cons, List.takeWhile_cons]
      split
      · rw [ih hlt, hcs]
        rfl
      · rfl

lemma strncmpAt_eq {name : Text} (hp : p ≤ s.length) : strncmpAt s name p = .ok (name.isPrefixOf (s.drop p)) := by
  induction name generalizing p with
  | nil => rfl
  | cons d name ih =>
    rw [strncmpAt, readAt_eq hp]
    rcases drop_cases s p with ⟨hrest, hx⟩ | ⟨c, cs, hrest, hx, hcs, hlt⟩
    · rw [hrest, hx]
      rfl
    · rw [hrest, hx]
      show (if some c = some d then _ else _) = _
      rw [List.isPrefixOf_cons_cons]
      by_cases hcd : c = d
      · rw [if_pos (by rw [hcd]), ih hlt, hcs, hcd, beq_self_eq_true, Bool.true_and]
      · have hne : (d == c) = false := beq_eq_false_iff_ne.2 fun h => hcd h.symm
        rw [if_neg (by simpa using hcd), hne, Bool.false_and]

lemma endsAtPlace_eq (hp : p ≤ s.length) (h : k ≤ (s.drop p).length) :
    endsAtPlace s (p + k) = .ok (endsAt (s.drop p) k) := by
  rw [endsAtPlace, readAt_drop h hp]
  rfl

end Reads

/-! ### The operands -/

section Operands

variable {s rest : Text} {p k n : ℕ} {lookup : Text → Option ℕ} {node : Rpnp} {o : RpnOp × Text}

/-- The operand that is read from the rest of the string, and the place behind it. -/
def placed (s : Text) (r : Rpnp × Text) : Operand := some (some r.1, s.length - r.2.length)

lemma placed_drop (hp : p ≤ s.length) (hk : k ≤ (s.drop p).length) (node : Rpnp) :
    placed s (node, (s.drop p).drop k) = some (some node, p + k) := by
  rw [List.length_drop] at hk
  rw [placed, List.drop_drop, List.length_drop]
  congr 2
  omega

lemma length_scanSet_le (n : ℕ) (inSet : Char → Bool) (rest : Text) : (scanSet n inSet rest).length ≤ rest.length :=
  ((List.takeWhile_prefix _).trans (List.take_prefix _ _)).length_le

lemma matchNumberAt_eq (hp : p ≤ s.length) : matchNumberAt s p = .ok ((matchNumber (s.drop p)).map (placed s)) := by
  have hlen := length_scanSet_le 40 isNumChar (s.drop p)
  rw [matchNumberAt, scanSetAt_eq hp, matchNumber]
  show (if scanSet 40 isNumChar (s.drop p) = [] then _ else _) = _
  by_cases hnil : scanSet 40 isNumChar (s.drop p) = []
  · rw [if_pos hnil, if_neg fun h => h.1 hnil]
    rfl
  · rw [if_neg hnil, readAt_drop hlen hp]
    show (if (s.drop p)[(scanSet 40 isNumChar (s.drop p)).length]? = some ',' then _ else _) = _
    by_cases hcomma : (s.drop p)[(scanSet 40 isNumChar (s.drop p)).length]? = some ','
    · rw [if_pos hcomma, if_pos ⟨hnil, hcomma⟩]
      cases rrdStrtodbl (scanSet 40 isNumChar (s.drop p)) with
      | whole v =>
        rw [Option.map_some, placed_drop hp hlen]
      | _ => rfl
    · rw [if_neg hcomma, if_neg fun h => hcomma h.2]
      rfl

lemma matchOpAt_eq (hp : p ≤ s.length) : matchOpAt s p o = .ok ((matchOp (s.drop p) o).map (placed s)) := by
  rw [matchOpAt, strncmpAt_eq hp, matchOp]
  show (if o.2.isPrefixOf (s.drop p) then _ else _) = _
  by_cases hpre : o.2.isPrefixOf (s.drop p)
  · have hlen : o.2.length ≤ (s.drop p).length := (List.isPrefixOf_iff_prefix.1 hpre).length_le
    rw [if_pos hpre, endsAtPlace_eq hp hlen]
    show (if endsAt (s.drop p) o.2.length then _ else _) = _
    by_cases hend : endsAt (s.drop p) o.2.length
    · rw [if_pos hend, if_pos ⟨hpre, hend⟩, Option.map_some, placed_drop hp hlen]
    · rw [if_neg hend, if_neg fun h => hend h.2]
      rfl
  · rw [if_neg hpre, if_neg fun h => hpre h.1]
    rfl

lemma matchOpsAt_eq (hp : p ≤ s.length) (os : List (RpnOp × Text)) :
    matchOpsAt s p os = .ok ((os.findSome? (matchOp (s.drop p))).map (placed s)) := by
  induction os with
  | nil => rfl
  | cons o os ih =>
    rw [matchOpsAt, matchOpAt_eq hp, List.findSome?_cons]
    cases matchOp (s.drop p) o with
    | none => exact ih
    | some r => rfl

lemma matchVariableAt_eq (hp : p ≤ s.length) :
    matchVariableAt lookup s p = .ok ((matchVariable lookup (s.drop p)).map (placed s)) := by
  have hlen := length_scanSet_le maxVnameLen isNameChar (s.drop p)
  rw [matchVariableAt, scanSetAt_eq hp, matchVariable]
  show (if scanSet maxVnameLen isNameChar (s.drop p) = [] then _ else _) = _
  by_cases hnil : scanSet maxVnameLen isNameChar (s.drop p) = []
  · rw [if_pos hnil, if_neg fun h => h.1 hnil]
    rfl
  · rw [if_neg hnil, endsAtPlace_eq hp hlen]
    show (if endsAt (s.drop p) (scanSet maxVnameLen isNameChar (s.drop p)).length then _ else _) = _
    by_cases hend : endsAt (s.drop p) (scanSet maxVnameLen isNameChar (s.drop p)).length
    · rw [if_pos hend, if_pos ⟨hnil, hend⟩]
      cases lookup (scanSet maxVnameLen isNameChar (s.drop p)) with
      | none => rfl
      | some i =>
        show _ = Except.ok (some (placed s (Rpnp.variable i, _)))
        rw [placed_drop hp hlen]
    · rw [if_neg hend, if_neg fun h => hend h.2]
      rfl

/-- An operand `PREV(name` that the string ends with. -/
def Unclosed (rest : Text) : Prop :=
  "PREV(".toList <+: rest ∧ rest.drop 5 ≠ [] ∧ (rest.drop 5).length ≤ maxVnameLen ∧ ∀ c ∈ rest.drop 5, isNameChar c

instance (rest : Text) : Decidable (Unclosed rest) := inferInstanceAs (Decidable (_ ∧ _))

/-- The length that is taken from the name reaches behind the NUL exactly if the operand is not closed. -/
lemma unclosed_iff (hpre : "PREV(".toList <+: rest) (hne : scanSet maxVnameLen isNameChar (rest.drop 5) ≠ []) :
    Unclosed rest ↔ rest.length < 4 + (scanSet maxVnameLen isNameChar (rest.drop 5)).length + 2 := by
  have hlen : 5 ≤ rest.length := hpre.length_le
  obtain ⟨hsplit, hall, hmax⟩ := scanSet_prefix maxVnameLen isNameChar (rest.drop 5)
  have hname := length_scanSet_le maxVnameLen isNameChar (rest.drop 5)
  constructor
  · rintro ⟨-, -, hshort, hchars⟩
    have hscan : scanSet maxVnameLen isNameChar (rest.drop 5) = rest.drop 5 := by
      rw [scanSet, List.take_of_length_le hshort, List.takeWhile_eq_self_iff.2 hchars]
    rw [hscan, List.length_drop]
    omega
  · intro hlt
    have hscan : scanSet maxVnameLen isNameChar (rest.drop 5) = rest.drop 5 := by
      have hbehind : (rest.drop 5).drop (scanSet maxVnameLen isNameChar (rest.drop 5)).length = [] := by
        apply List.drop_eq_nil_iff.2
        rw [List.length_drop]
        omega
      rw [hbehind, List.append_nil] at hsplit
      exact hsplit.symm
    rw [hscan] at hne hall hmax
    exact ⟨hpre, hne, hmax, hall⟩

/-- The branch with the name that it has read. -/
lemma matchPrevOtherAt_eq (hp : p ≤ s.length) (hpre : "PREV(".toList <+: s.drop p) {vname : Text}
    (hname : scanSet maxVnameLen isNameChar ((s.drop p).drop 5) = vname) :
    matchPrevOtherAt lookup s p =
      if vname = [] then .ok none
      else endsAtPlace s (p + (4 + vname.length + 2)) >>= fun ends =>
        if ends then
          match lookup vname with
          | none => .ok (some none)
          | some i => .ok (some (some (some (.prevOther i), p + (4 + vname.length + 2))))
        else .ok (some (some (none, p))) := by
  have hlen : 5 ≤ (s.drop p).length := hpre.length_le
  rw [List.length_drop] at hlen
  rw [matchPrevOtherAt, strncmpAt_eq hp]
  show (if "PREV(".toList.isPrefixOf (s.drop p) then _ else _) = _
  rw [if_pos (List.isPrefixOf_iff_prefix.2 hpre), scanSetAt_eq (by omega), ← List.drop_drop, hname]
  rfl

lemma matchPrevOtherAt_unclosed (hp : p ≤ s.length) (h : Unclosed (s.drop p)) :
    matchPrevOtherAt lookup s p = .error (s.length + 1) := by
  obtain ⟨hpre, hne, hshort, hchars⟩ := h
  have hlen : 5 ≤ (s.drop p).length := hpre.length_le
  have hscan : scanSet maxVnameLen isNameChar ((s.drop p).drop 5) = (s.drop p).drop 5 := by
    rw [scanSet, List.take_of_length_le hshort, List.takeWhile_eq_self_iff.2 hchars]
  have hplace : p + (4 + ((s.drop p).drop 5).length + 2) = s.length + 1 := by
    rw [List.length_drop, List.length_drop] at *
    omega
  rw [matchPrevOtherAt_eq hp hpre hscan, if_neg hne, hplace, endsAtPlace, readAt, if_neg (by omega)]
  rfl

/-- The outcome of a branch of the chain, on the string in memory and on the rest of the string. -/
inductive SameOutcome (s : Text) : Option Operand → Option (Option (Rpnp × Text)) → Prop where
  | none : SameOutcome s none none
  | refused {operand : Operand} (h : tailAt s operand = .ok .failed) : SameOutcome s (some operand) (some none)
  | placed (r : Rpnp × Text) : SameOutcome s (some (placed s r)) (some (some r))

lemma matchPrevOtherAt_closed (hp : p ≤ s.length) (h : ¬ Unclosed (s.drop p)) :
    ∃ r, matchPrevOtherAt lookup s p = .ok r ∧ SameOutcome s r (matchPrevOther lookup (s.drop p)) := by
  by_cases hpre : "PREV(".toList <+: s.drop p
  · rw [matchPrevOtherAt_eq hp hpre rfl, matchPrevOther, if_pos (List.isPrefixOf_iff_prefix.2 hpre)]
    dsimp only
    split
    · exact ⟨none, rfl, .none⟩
    · rename_i hne
      have hlen := not_lt.1 (mt (unclosed_iff hpre hne).2 h)
      generalize scanSet maxVnameLen isNameChar ((s.drop p).drop 5) = vname at hne hlen ⊢
      rw [endsAtPlace_eq hp hlen]
      by_cases hend : endsAt (s.drop p) (4 + vname.length + 2)
      · simp only [bind, Except.bind, hend, if_true, hlen, and_self]
        cases lookup vname with
        | none => exact ⟨some none, rfl, .refused rfl⟩
        | some i =>
          refine ⟨_, rfl, ?_⟩
          rw [← placed_drop hp hlen]
          exact .placed _
      · simp only [bind, Except.bind, hend, Bool.false_eq_true, if_false, and_false]
        refine ⟨_, rfl, .refused ?_⟩
        -- nothing is done, and the `P` is no comma
        obtain ⟨t, ht⟩ := hpre
        have hhead : s[p]? = some 'P' := by
          have h0 := congrArg (·[0]?) ht
          simpa using h0.symm
        rw [tailAt, readAt_eq hp, hhead]
        rfl
  · have hprefix : ¬ "PREV(".toList.isPrefixOf (s.drop p) := fun h => hpre (List.isPrefixOf_iff_prefix.1 h)
    rw [matchPrevOtherAt, strncmpAt_eq hp, matchPrevOther, if_neg hprefix]
    simp only [bind, Except.bind, hprefix, Bool.false_eq_true, if_false]
    exact ⟨none, rfl, .none⟩

/-- No other operand begins in this way. -/
lemma not_matched_of_paren (hpre : "PREV(".toList <+: rest) :
    matchNumber rest = none ∧ ∀ o ∈ opNames, matchOp rest o = none := by
  obtain ⟨t, rfl⟩ := hpre
  constructor
  · rfl
  · intro o ho
    apply if_neg
    rintro ⟨hname, hend⟩
    have hname' := List.isPrefixOf_iff_prefix.1 hname
    have hlen : o.2.length ≤ 4 := by
      by_contra hlong
      have hsub : "PREV(".toList <+: o.2 :=
        List.prefix_of_prefix_length_le (List.prefix_append _ t) hname' (show 5 ≤ o.2.length by omega)
      exact (opNames_text ho).2.1 (hsub.subset (by decide))
    generalize o.2.length = k at hlen hend
    interval_cases k
    all_goals simp [endsAt] at hend

lemma rpnOperandAt_unclosed (hp : p ≤ s.length) (h : Unclosed (s.drop p)) :
    rpnOperandAt lookup s p = .error (s.length + 1) := by
  obtain ⟨hnum, hops⟩ := not_matched_of_paren h.1
  have hfront : (opNames.takeWhile (·.1 ≠ .prev)).findSome? (matchOp (s.drop p)) = none :=
    List.findSome?_eq_none_iff.2 fun o ho => hops o ((List.takeWhile_prefix _).subset ho)
  rw [rpnOperandAt, matchNumberAt_eq hp, hnum]
  simp only [bind, Except.bind, Option.map_none, matchOpsAt_eq hp, hfront, matchPrevOtherAt_unclosed hp h]

lemma matchPrevOther_paren {x : Option (Rpnp × Text)} (h : matchPrevOther lookup rest = some x) :
    "PREV(".toList <+: rest := by
  by_contra hpre
  rw [matchPrevOther, if_neg fun h => hpre (List.isPrefixOf_iff_prefix.1 h)] at h
  cases h

/-- The operand of the memory is the operand of the rest of the string. -/
lemma rpnOperandAt_closed (hp : p ≤ s.length) (h : ¬ Unclosed (s.drop p)) :
    ∃ operand, rpnOperandAt lookup s p = .ok operand ∧
      SameOutcome s (some operand) (some (rpnOperand lookup (s.drop p))) := by
  have hsplit := List.takeWhile_append_dropWhile (p := fun o : RpnOp × Text => o.1 ≠ .prev) (l := opNames)
  have hfind : opNames.findSome? (matchOp (s.drop p)) =
      ((opNames.takeWhile (·.1 ≠ .prev)).findSome? (matchOp (s.drop p))).or
        ((opNames.dropWhile (·.1 ≠ .prev)).findSome? (matchOp (s.drop p))) := by
    rw [← List.findSome?_append, hsplit]
  obtain ⟨r, hr, hagrees⟩ := @matchPrevOtherAt_closed s p lookup hp h
  rw [rpnOperandAt, matchNumberAt_eq hp, rpnOperand]
  simp only [bind, Except.bind, matchOpsAt_eq hp, matchVariableAt_eq hp, hr, hfind]
  cases matchNumber (s.drop p) with
  | some r => exact ⟨placed s r, rfl, .placed r⟩
  | none =>
    cases (opNames.takeWhile (·.1 ≠ .prev)).findSome? (matchOp (s.drop p)) with
    | some r => exact ⟨placed s r, rfl, .placed r⟩
    | none =>
      cases hprev : matchPrevOther lookup (s.drop p) with
      | some x =>
        have hops := (not_matched_of_paren (matchPrevOther_paren hprev)).2
        have hback : (opNames.dropWhile (·.1 ≠ .prev)).findSome? (matchOp (s.drop p)) = none :=
          List.findSome?_eq_none_iff.2 fun o ho => hops o ((List.dropWhile_suffix _).subset ho)
        rw [hprev] at hagrees
        rw [hback]
        cases hagrees with
        | refused hfailed => exact ⟨_, rfl, .refused hfailed⟩
        | placed r => exact ⟨_, rfl, .placed r⟩
      | none =>
        rw [hprev] at hagrees
        cases hagrees
        cases (opNames.dropWhile (·.1 ≠ .prev)).findSome? (matchOp (s.drop p)) with
        | some r => exact ⟨placed s r, rfl, .placed r⟩
        | none =>
          cases matchVariable lookup (s.drop p) with
          | some r => exact ⟨placed s r, rfl, .placed r⟩
          | none => exact ⟨none, rfl, .refused rfl⟩

/-- An operand is the front of what is left. -/
lemma rpnOperand_drop {rest' : Text} (h : rpnOperand lookup rest = some (node, rest')) :
    ∃ k, 1 ≤ k ∧ k ≤ rest.length ∧ rest' = rest.drop k := by
  have hscan : ∀ n inSet, scanSet n inSet rest ≠ [] → 1 ≤ (scanSet n inSet rest).length := fun _ _ hne =>
    List.length_pos_iff.2 hne
  unfold rpnOperand at h
  split at h
  · rename_i r hnum
    obtain rfl := Option.some.inj h
    unfold matchNumber at hnum
    dsimp only at hnum
    split at hnum
    · rename_i hcond
      split at hnum
      · obtain ⟨-, rfl⟩ := Prod.mk.inj (Option.some.inj hnum)
        exact ⟨_, hscan _ _ hcond.1, length_scanSet_le _ _ _, rfl⟩
      · cases hnum
    · cases hnum
  · split at h
    · rename_i r hop
      obtain rfl := Option.some.inj h
      obtain ⟨o, ho, hmatch⟩ := List.exists_of_findSome?_eq_some hop
      unfold matchOp at hmatch
      split at hmatch
      · rename_i hcond
        obtain ⟨-, rfl⟩ := Prod.mk.inj (Option.some.inj hmatch)
        exact ⟨_, List.length_pos_iff.2 (opNames_text ho).2.2, (List.isPrefixOf_iff_prefix.1 hcond.1).length_le, rfl⟩
      · cases hmatch
    · split at h
      · rename_i r hprev
        obtain rfl := h
        unfold matchPrevOther at hprev
        dsimp only at hprev
        split at hprev
        · split at hprev
          · cases hprev
          · split at hprev
            · rename_i hcond
              obtain ⟨i, -, heq⟩ := Option.map_eq_some_iff.1 (Option.some.inj hprev)
              obtain ⟨-, rfl⟩ := Prod.mk.inj heq
              exact ⟨_, by omega, hcond.1, rfl⟩
            · cases Option.some.inj hprev
        · cases hprev
      · unfold matchVariable at h
        dsimp only at h
        split at h
        · rename_i hcond
          obtain ⟨i, -, heq⟩ := Option.map_eq_some_iff.1 h
          obtain ⟨-, rfl⟩ := Prod.mk.inj heq
          exact ⟨_, hscan _ _ hcond.1, length_scanSet_le _ _ _, rfl⟩
        · cases h

end Operands

/-! ### The rounds -/

/-- What follows from the operand of the rest of the string. -/
@[grind] def roundOf (s : Text) : Option (Rpnp × Text) → Round
  | none => .failed
  | some (node, []) => .last (some node)
  | some (node, c :: rest) => if c = ',' then .next (some node) (s.length - rest.length) else .failed

section Rounds

variable {s : Text} {p p' : ℕ} {lookup : Text → Option ℕ} {node : Option Rpnp}

/-- A round that does not come upon an unclosed `PREV(name` does what the operand says. -/
lemma rpnRound_eq (hp : p < s.length) :
    rpnRound lookup s p =
      if Unclosed (s.drop p) then .error (s.length + 1) else .ok (roundOf s (rpnOperand lookup (s.drop p))) := by
  have hread : readAt s p = .ok (some s[p]) := by rw [readAt_eq hp.le, List.getElem?_eq_getElem hp]
  rw [rpnRound, hread]
  simp only [bind, Except.bind, reduceCtorEq, if_false]
  by_cases h : Unclosed (s.drop p)
  · rw [rpnOperandAt_unclosed hp.le h, if_pos h]
  · obtain ⟨operand, hrun, hagrees⟩ := @rpnOperandAt_closed s p lookup hp.le h
    rw [hrun, if_neg h]
    dsimp only
    generalize hx : rpnOperand lookup (s.drop p) = x at hagrees
    cases hagrees with
    | refused hfailed => exact hfailed
    | placed r =>
      obtain ⟨node, rest⟩ := r
      obtain ⟨k, -, hk, rfl⟩ := rpnOperand_drop hx
      have hk' := hk
      rw [List.length_drop] at hk'
      rw [placed_drop hp.le hk, tailAt]
      rw [readAt_eq (by omega), List.drop_drop]
      rcases drop_cases s (p + k) with ⟨hrest, hc⟩ | ⟨c, cs, hrest, hc, hcs, hlt⟩
      · rw [hrest, hc]
        rfl
      · rw [hrest, hc, roundOf, ← hcs, List.length_drop]
        by_cases hcomma : c = ','
        · rw [if_pos hcomma, show s.length - (s.length - (p + k + 1)) = p + k + 1 by omega]
          simp [bind, Except.bind, hcomma]
        · rw [if_neg hcomma]
          simp [bind, Except.bind, hcomma]

/-- A round that goes on does so behind the comma of its operand. -/
lemma roundOf_next (h : roundOf s (rpnOperand lookup (s.drop p)) = .next node p') :
    ∃ n rest, rpnOperand lookup (s.drop p) = some (n, ',' :: rest) ∧ node = some n ∧ s.drop p' = rest ∧ p < p' ∧
      p' ≤ s.length := by
  cases hx : rpnOperand lookup (s.drop p) with
  | none =>
    rw [hx] at h
    cases h
  | some r =>
    obtain ⟨n, rest⟩ := r
    obtain ⟨k, hpos, hk, hrest⟩ := rpnOperand_drop hx
    rw [List.length_drop] at hk
    rw [hx] at h
    cases rest with
    | nil => cases h
    | cons c rest =>
      rw [roundOf] at h
      split at h
      · rename_i hcomma
        obtain ⟨rfl, rfl⟩ := Round.next.inj h
        rw [List.drop_drop] at hrest
        rcases drop_cases s (p + k) with ⟨hnil, -⟩ | ⟨c', cs, hcons, -, hcs, hlt⟩
        · rw [hnil] at hrest
          cases hrest
        · rw [hcons] at hrest
          obtain ⟨rfl, rfl⟩ := List.cons.inj hrest
          have hplace : s.length - rest.length = p + k + 1 := by
            rw [← hcs, List.length_drop]
            omega
          exact ⟨n, rest, by rw [hcomma], rfl, by rw [hplace, hcs], by omega, by omega⟩
      · cases h

end Rounds

/-- The positions at which a round begins. -/
inductive RoundAt (lookup : Text → Option ℕ) (s : Text) : ℕ → Prop where
  | start : RoundAt lookup s 0
  | next {p p' : ℕ} {node : Option Rpnp} (h : RoundAt lookup s p) (hnext : rpnRound lookup s p = .ok (.next node p')) :
      RoundAt lookup s p'

/-- What is left of the string behind accepted operands and their commas. -/
inductive Left (lookup : Text → Option ℕ) (s : Text) : Text → Prop where
  | start : Left lookup s s
  | next {rest rest' : Text} {node : Rpnp} (h : Left lookup s rest)
      (hnext : rpnOperand lookup rest = some (node, ',' :: rest')) : Left lookup s rest'

/-- Every round reads inside of the string and returns or advances, and the loop comes to its end. -/
structure StaysInside (lookup : Text → Option ℕ) (s : Text) : Prop where
  inside : ∀ p, RoundAt lookup s p → p ≤ s.length ∧ ∃ round, rpnRound lookup s p = .ok round
  advances : ∀ p node p', RoundAt lookup s p → rpnRound lookup s p = .ok (.next node p') → p < p' ∧ p' ≤ s.length
  terminates : ∃ result, rpnParseAt lookup s = .ok (some result)

section Inside

variable {s rest : Text} {p p' fuel : ℕ} {lookup : Text → Option ℕ} {node : Option Rpnp}

/-- At the end of the string the loop is over. -/
lemma rpnRound_end : rpnRound lookup s s.length = .ok .over := by
  rw [rpnRound, readAt_eq le_rfl, List.getElem?_eq_none_iff.2 le_rfl]
  rfl

lemma rpnRound_next (hp : p ≤ s.length) (h : rpnRound lookup s p = .ok (.next node p')) :
    ∃ n rest, rpnOperand lookup (s.drop p) = some (n, ',' :: rest) ∧ node = some n ∧ s.drop p' = rest ∧ p < p' ∧
      p' ≤ s.length := by
  rcases lt_or_eq_of_le hp with hlt | rfl
  · rw [rpnRound_eq hlt] at h
    split at h
    · cases h
    · exact roundOf_next (Except.ok.inj h)
  · rw [rpnRound_end] at h
    cases h

lemma RoundAt.left (h : RoundAt lookup s p) : p ≤ s.length ∧ Left lookup s (s.drop p) := by
  induction h with
  | start => exact ⟨Nat.zero_le _, .start⟩
  | next h hnext ih =>
    obtain ⟨n, rest, hoperand, -, hrest, -, hle⟩ := rpnRound_next ih.1 hnext
    rw [hrest]
    exact ⟨hle, ih.2.next hoperand⟩

/-- The loop makes of the rest of the string what the parser of texts makes of it. -/
lemma rpnLoopAt_eq (hclosed : ∀ rest, Left lookup s rest → ¬ Unclosed rest) (hp : p < s.length)
    (hround : RoundAt lookup s p) (hfuel : s.length - p < fuel) :
    rpnLoopAt lookup s fuel p = .ok (some ((rpnLoop lookup fuel (s.drop p)).map (·.map some))) := by
  induction fuel generalizing p with
  | zero => exact absurd hfuel (Nat.not_lt_zero _)
  | succ fuel ih =>
    have hrun := @rpnRound_eq s p lookup hp
    rw [if_neg (hclosed _ hround.left.2)] at hrun
    rw [rpnLoopAt, hrun, rpnLoop]
    cases hx : rpnOperand lookup (s.drop p) with
    | none => rfl
    | some r =>
      obtain ⟨n, rest⟩ := r
      cases rest with
      | nil => rfl
      | cons c rest =>
        by_cases hcomma : c = ','
        · have hnext : rpnRound lookup s p = .ok (.next (some n) (s.length - rest.length)) := by
            rw [hrun, hx, roundOf, if_pos hcomma]
          obtain ⟨n', rest', hoperand, hn, hrest, hlt, hle⟩ := rpnRound_next hp.le hnext
          obtain ⟨rfl, hcons⟩ := Prod.mk.inj (Option.some.inj (hx.symm.trans hoperand))
          obtain ⟨-, rfl⟩ := List.cons.inj hcons
          simp only [roundOf, hcomma, if_true, bind, Except.bind]
          by_cases hnil : rest = []
          · -- the expression ends with the comma
            obtain ⟨fuel, rfl⟩ : ∃ k, fuel = k + 1 := ⟨fuel - 1, by omega⟩
            rw [if_pos hnil, hnil, List.length_nil, Nat.sub_zero, rpnLoopAt, rpnRound_end]
            rfl
          · have hlt' : s.length - rest.length < s.length := by
              rw [← not_le, ← List.drop_eq_nil_iff, hrest]
              exact hnil
            rw [if_neg hnil, ih hlt' (hround.next hnext) (by omega), hrest]
            cases rpnLoop lookup fuel rest with
            | none => rfl
            | some nodes => rfl
        · simp [bind, Except.bind, roundOf, hcomma]

lemma rpnParseAt_eq (hclosed : ∀ rest, Left lookup s rest → ¬ Unclosed rest) :
    rpnParseAt lookup s = .ok (some ((rpnParse lookup s).map (·.map some))) := by
  rw [rpnParseAt, readAt_eq (Nat.zero_le _), rpnParse]
  cases s with
  | nil => rfl
  | cons c cs => exact rpnLoopAt_eq hclosed (Nat.succ_pos _) .start (Nat.lt_succ_self _)

/-- As long as the rounds stay inside, they come to all that is left. -/
lemma StaysInside.roundAt (h : StaysInside lookup s) (hleft : Left lookup s rest) :
    ∃ p, RoundAt lookup s p ∧ s.drop p = rest := by
  induction hleft with
  | start => exact ⟨0, .start, rfl⟩
  | @next rest rest' n hleft hnext ih =>
    obtain ⟨p, hround, rfl⟩ := ih
    obtain ⟨k, -, hk, hrest⟩ := rpnOperand_drop hnext
    obtain ⟨hle, round, hrun⟩ := h.inside p hround
    have hlt : p < s.length := by
      rcases lt_or_eq_of_le hle with hlt | rfl
      · exact hlt
      · rw [List.drop_length, List.drop_nil] at hrest
        cases hrest
    have hround' := @rpnRound_eq s p lookup hlt
    split at hround'
    · rw [hround'] at hrun
      cases hrun
    · rw [hnext, roundOf, if_pos rfl] at hround'
      obtain ⟨n', rest'', hoperand, -, hdrop, -, -⟩ := rpnRound_next hle hround'
      obtain ⟨-, hcons⟩ := Prod.mk.inj (Option.some.inj (hnext.symm.trans hoperand))
      obtain ⟨-, rfl⟩ := List.cons.inj hcons
      exact ⟨_, hround.next hround', hdrop⟩

end Inside

/-- `rpn_parse` stays inside of its string exactly if no operand that it comes to is a `PREV(name` which the string
ends with. -/
theorem rpnParseAt_inside_iff (lookup : Text → Option ℕ) (s : Text) :
    StaysInside lookup s ↔ ∀ rest, Left lookup s rest → ¬ Unclosed rest := by
  constructor
  · intro h rest hleft hunclosed
    obtain ⟨p, hround, rfl⟩ := h.roundAt hleft
    obtain ⟨hle, round, hrun⟩ := h.inside p hround
    have hlt : p < s.length := by
      rcases lt_or_eq_of_le hle with hlt | rfl
      · exact hlt
      · rw [List.drop_length] at hunclosed
        exact absurd rfl hunclosed.2.1
    rw [rpnRound_eq hlt, if_pos hunclosed] at hrun
    cases hrun
  · intro hclosed
    refine ⟨fun p hround => ?_, fun p node p' hround hnext => ?_, _, rpnParseAt_eq hclosed⟩
    · obtain ⟨hle, hleft⟩ := hround.left
      refine ⟨hle, ?_⟩
      rcases lt_or_eq_of_le hle with hlt | rfl
      · exact ⟨_, by rw [rpnRound_eq hlt, if_neg (hclosed _ hleft)]⟩
      · exact ⟨_, rpnRound_end⟩
    · obtain ⟨-, -, -, -, -, hlt, hle⟩ := rpnRound_next hround.left.1 hnext
      exact ⟨hlt, hle⟩

example : (rpnParseAt (lookupDS ["a".toList]) "a,2,*".toList).toOption.isSome := by decide +kernel

/-- `PREV(a` without its parenthesis: the character behind the NUL is read. -/
theorem rpnParseAt_unclosed :
    rpnParseAt (lookupDS ["a".toList]) "PREV(a".toList = .error 7 ∧
      ¬ StaysInside (lookupDS ["a".toList]) "PREV(a".toList := by
  have hrun : rpnParseAt (lookupDS ["a".toList]) "PREV(a".toList = .error 7 := by decide +kernel
  refine ⟨hrun, fun h => ?_⟩
  obtain ⟨result, hresult⟩ := h.terminates
  rw [hrun] at hresult
  cases hresult

end Rrdtool
