import Mathlib.Data.List.TakeWhile
import Rrdtool.Rpn.Parse

/-!
# Programs that are printed and read again

A program that `parseCDEF_DS` accepts is kept in its compact form and printed by `rpn_compact2str`
(`src/rrd_rpncalc.c`). `rpn_roundTrip_iff` says which programs come back: those without `PREV(name)`, for which
nothing is printed, that do not end in a number (which is read only with a comma behind it) and whose
variables have indices that fit into a `short`.
-/

namespace Rrdtool

/-! ### Operators and numbers -/

lemma ofCode_code (op : RpnOp) : RpnOp.ofCode op.code = op := by
  cases op <;> rfl

lemma s16_natCast (i : ℕ) : s16 i = i ↔ i < 2 ^ 15 := by
  unfold s16
  omega

/-- The operators with a name of their own. -/
lemma plain_of_mem_opNames {o : RpnOp × Text} (h : o ∈ opNames) :
    o.1 ≠ .number ∧ o.1 ≠ .variable ∧ o.1 ≠ .prevOther := by
  have hall : ∀ o ∈ opNames, o.1 ≠ .number ∧ o.1 ≠ .variable ∧ o.1 ≠ .prevOther := by decide
  exact hall o h

/-- A printed integer is read as that number. -/
lemma rrdStrtodbl_decimal (z : ℤ) : rrdStrtodbl (decimal z) = .whole (.fin z) := by
  have hread : ∀ n : ℕ, readSign (ulong n) = (false, ulong n) ∧ (ulong n).dropWhile isSpace = ulong n := by
    intro n
    obtain ⟨c, ds, hds⟩ := List.exists_cons_of_ne_nil (ulong_ne_nil n)
    have hc : c.isDigit := isDigit_of_mem_ulong (hds ▸ List.mem_cons_self)
    rw [hds]
    refine ⟨?_, List.dropWhile_cons_of_neg (by simp [isSpace_of_isDigit hc])⟩
    rw [readSign]
    · rintro p hp
      rw [(List.cons.inj hp).1] at hc
      exact absurd hc (by decide)
    · rintro p hp
      rw [(List.cons.inj hp).1] at hc
      exact absurd hc (by decide)
  have hdigits : ∀ n : ℕ, (ulong n).takeWhile Char.isDigit = ulong n ∧ (ulong n).dropWhile Char.isDigit = [] := by
    intro n
    have hall : ∀ c ∈ ulong n, c.isDigit = true := fun c hc => isDigit_of_mem_ulong hc
    exact ⟨List.takeWhile_eq_self_iff.2 hall, List.dropWhile_eq_nil_iff.2 hall⟩
  obtain ⟨n, rfl | ⟨hn, rfl⟩⟩ : ∃ n : ℕ, z = n ∨ 0 < n ∧ z = -(n : ℤ) := ⟨z.natAbs, by omega⟩
  · have hdec : decimal (n : ℤ) = ulong n := by rw [decimal, if_neg (by omega), Int.natAbs_natCast]
    rw [hdec]
    simp [rrdStrtodbl, rrdStrtod, hread, hdigits, readDecimals, ulong_ne_nil, readExponent, digitsVal_ulong, s32_zero]
  · have hdec : decimal (-(n : ℤ)) = '-' :: ulong n := by
      rw [decimal, if_pos (by omega), Int.natAbs_neg, Int.natAbs_natCast]
    have hsign : readSign (('-' :: ulong n).dropWhile isSpace) = (true, ulong n) := rfl
    rw [hdec]
    simp [rrdStrtodbl, rrdStrtod, hsign, hdigits, readDecimals, ulong_ne_nil, readExponent, digitsVal_ulong, s32_zero]

/-! ### One operand -/

/-- What may stand behind an operand. -/
@[grind] def Behind (ctx : Text) : Prop := ctx = [] ∨ ∃ rest, ctx = ',' :: rest

section Operand

variable {lookup : Text → Option ℕ} {t ctx expr rest : Text}

/-- Operands without a comma are cut out of the expression in one way. -/
lemma operand_unique {t' ctx' : Text} (h : t' ++ ctx' = t ++ ctx) (ht : ',' ∉ t) (ht' : ',' ∉ t') (hctx : Behind ctx)
    (hctx' : Behind ctx') : t' = t ∧ ctx' = ctx := by
  have htake : ∀ {t ctx : Text}, ',' ∉ t → Behind ctx → (t ++ ctx).takeWhile (· ≠ ',') = t := by
    intro t ctx ht hctx
    have hall : ∀ c ∈ t, (decide (c ≠ ',')) = true := fun c hc => decide_eq_true fun heq => ht (heq ▸ hc)
    rw [List.takeWhile_append_of_pos hall]
    obtain rfl | ⟨rest, rfl⟩ := hctx <;> simp
  have heq : t' = t := by rw [← htake ht' hctx', h, htake ht hctx]
  subst heq
  exact ⟨rfl, List.append_cancel_left h⟩

lemma scanSet_append {n : ℕ} {inSet : Char → Bool} (ht : ∀ c ∈ t, inSet c) (hlen : t.length ≤ n)
    (hcomma : inSet ',' = false) (hctx : Behind ctx) : scanSet n inSet (t ++ ctx) = t := by
  rw [scanSet, List.take_append, List.take_of_length_le hlen, List.takeWhile_append_of_pos ht]
  obtain rfl | ⟨rest, rfl⟩ := hctx
  · simp
  · cases n - t.length with
    | zero => simp
    | succ k => simp [hcomma]

lemma scanSet_prefix (n : ℕ) (inSet : Char → Bool) (expr : Text) :
    expr = scanSet n inSet expr ++ expr.drop (scanSet n inSet expr).length ∧
      (∀ c ∈ scanSet n inSet expr, inSet c) ∧ (scanSet n inSet expr).length ≤ n := by
  have hpre : scanSet n inSet expr <+: expr := (List.takeWhile_prefix _).trans (List.take_prefix _ _)
  refine ⟨?_, fun c hc => List.mem_takeWhile_imp hc, ?_⟩
  · conv_lhs => rw [← List.take_append_drop (scanSet n inSet expr).length expr]
    rw [← List.prefix_iff_eq_take.1 hpre]
  · exact ((List.takeWhile_prefix _).length_le).trans (List.length_take_le n expr)

lemma endsAt_append : endsAt (t ++ ctx) t.length = true ↔ Behind ctx := by
  have hget : (t ++ ctx)[t.length]? = ctx[0]? := by
    rw [List.getElem?_append_right le_rfl, Nat.sub_self]
  rw [endsAt, hget]
  cases ctx with
  | nil => simp [Behind]
  | cons c ctx => simp [Behind]

/-- A number is read with a comma behind it only. -/
lemma matchNumber_some {node : Rpnp} (h : matchNumber expr = some (node, rest)) :
    ∃ t v, expr = t ++ rest ∧ t ≠ [] ∧ (∀ c ∈ t, isNumChar c) ∧ t.length ≤ 40 ∧ (∃ r, rest = ',' :: r) ∧
      rrdStrtodbl t = .whole v ∧ node = .number v := by
  obtain ⟨hsplit, hall, hlen⟩ := scanSet_prefix 40 isNumChar expr
  simp only [matchNumber] at h
  split at h
  · rename_i hcond
    split at h
    · rename_i v hv
      obtain ⟨rfl, rfl⟩ := Prod.mk.inj (Option.some.inj h)
      refine ⟨_, v, hsplit, hcond.1, hall, hlen, ?_, hv, rfl⟩
      have hhead : (expr.drop (scanSet 40 isNumChar expr).length)[0]? = some ',' := by
        rw [List.getElem?_drop]
        exact hcond.2
      obtain ⟨r, hr⟩ := List.head?_eq_some_iff.1 (List.head?_eq_getElem? ▸ hhead)
      exact ⟨r, hr⟩
    · cases h
  · cases h

lemma matchNumber_append {v : RrdValue} (hne : t ≠ []) (ht : ∀ c ∈ t, isNumChar c) (hlen : t.length ≤ 40)
    (hv : rrdStrtodbl t = .whole v) (r : Text) : matchNumber (t ++ ',' :: r) = some (.number v, ',' :: r) := by
  have hscan : scanSet 40 isNumChar (t ++ ',' :: r) = t := scanSet_append ht hlen rfl (.inr ⟨r, rfl⟩)
  have hget : (t ++ ',' :: r)[t.length]? = some ',' := by simp
  simp only [matchNumber, hscan, if_pos (And.intro hne hget), hv, List.drop_left]

lemma not_comma_of_isNumChar (ht : ∀ c ∈ t, isNumChar c) : ',' ∉ t := fun hmem =>
  absurd (ht ',' hmem) (by decide)

lemma not_comma_of_isNameChar (ht : ∀ c ∈ t, isNameChar c) : ',' ∉ t := fun hmem =>
  absurd (ht ',' hmem) (by decide)

lemma opNames_text {o : RpnOp × Text} (h : o ∈ opNames) : ',' ∉ o.2 ∧ '(' ∉ o.2 ∧ o.2 ≠ [] := by
  have hall : ∀ o ∈ opNames, ',' ∉ o.2 ∧ '(' ∉ o.2 ∧ o.2 ≠ [] := by decide
  exact hall o h

lemma matchOp_append {o : RpnOp × Text} (ho : ',' ∉ o.2) (ht : ',' ∉ t) (hctx : Behind ctx) :
    matchOp (t ++ ctx) o = if o.2 = t then some (.plain o.1, ctx) else none := by
  unfold matchOp
  by_cases heq : o.2 = t
  · subst heq
    have hpre : o.2.isPrefixOf (o.2 ++ ctx) = true := List.isPrefixOf_iff_prefix.2 (List.prefix_append _ _)
    rw [if_pos ⟨hpre, endsAt_append.2 hctx⟩, if_pos rfl, List.drop_left]
  · rw [if_neg heq, if_neg]
    rintro ⟨hpre, hends⟩
    obtain ⟨rest, hrest⟩ := List.isPrefixOf_iff_prefix.1 hpre
    rw [← hrest] at hends
    exact heq (operand_unique hrest ht ho hctx (endsAt_append.1 hends)).1

/-- The operator with that name. -/
lemma findSome_matchOp (ht : ',' ∉ t) (hctx : Behind ctx) :
    opNames.findSome? (matchOp (t ++ ctx)) = (opNames.find? (·.2 = t)).map fun o => (.plain o.1, ctx) := by
  have hgen : ∀ l : List (RpnOp × Text), (∀ o ∈ l, ',' ∉ o.2) →
      l.findSome? (matchOp (t ++ ctx)) = (l.find? (·.2 = t)).map fun o => (.plain o.1, ctx) := by
    intro l hl
    induction l with
    | nil => rfl
    | cons o l ih =>
      rw [List.findSome?_cons, matchOp_append (hl o List.mem_cons_self) ht hctx, List.find?_cons]
      by_cases heq : o.2 = t
      · simp [heq]
      · simp only [heq, if_false, decide_false]
        exact ih fun o' ho' => hl o' (List.mem_cons_of_mem o ho')
  exact hgen opNames fun o ho => (opNames_text ho).1

lemma rpnOperand_number {r : Rpnp × Text} (h : matchNumber expr = some r) : rpnOperand lookup expr = some r := by
  rw [rpnOperand, h]

lemma rpnOperand_name {r : Rpnp × Text} (hnum : matchNumber expr = none)
    (h : opNames.findSome? (matchOp expr) = some r) : rpnOperand lookup expr = some r := by
  rw [rpnOperand, hnum, h]

lemma rpnOperand_variable (hnum : matchNumber expr = none) (hname : opNames.findSome? (matchOp expr) = none)
    (hprev : matchPrevOther lookup expr = none) : rpnOperand lookup expr = matchVariable lookup expr := by
  rw [rpnOperand, hnum, hname, hprev]

/-- What one operand can be. -/
lemma rpnOperand_some {node : Rpnp} (h : rpnOperand lookup expr = some (node, rest)) :
    (matchNumber expr = some (node, rest)) ∨
      (∃ o ∈ opNames, node = .plain o.1 ∧ expr = o.2 ++ rest ∧ Behind rest) ∨
      (∃ i : ℕ, node = .prevOther i ∧ '(' ∈ expr) ∨
      ∃ (t : Text) (i : ℕ), node = .variable i ∧ expr = t ++ rest ∧ Behind rest ∧ t ≠ [] ∧ (∀ c ∈ t, isNameChar c) ∧
        t.length ≤ maxVnameLen ∧ lookup t = some i ∧ matchNumber expr = none ∧
        opNames.find? (·.2 = t) = none := by
  unfold rpnOperand at h
  split at h
  · rename_i r hnum
    rw [← h]
    exact .inl hnum
  · rename_i hnum
    split at h
    · rename_i r hop
      obtain rfl := Option.some.inj h
      obtain ⟨o, ho, hmatch⟩ := List.exists_of_findSome?_eq_some hop
      unfold matchOp at hmatch
      split at hmatch
      · rename_i hcond
        obtain ⟨rfl, rfl⟩ := Prod.mk.inj (Option.some.inj hmatch)
        obtain ⟨rest, hrest⟩ := List.isPrefixOf_iff_prefix.1 hcond.1
        have hends := hcond.2
        rw [← hrest] at hends ⊢
        refine .inr (.inl ⟨o, ho, rfl, by rw [List.drop_left], ?_⟩)
        rw [List.drop_left]
        exact endsAt_append.1 hends
      · cases hmatch
    · rename_i hop
      split at h
      · rename_i r hprev
        simp only [matchPrevOther] at hprev
        split at hprev
        · rename_i hpre
          have hparen : '(' ∈ expr :=
            (List.isPrefixOf_iff_prefix.1 hpre).subset (by decide)
          split at hprev
          · cases hprev
          · split at hprev
            · obtain rfl := Option.some.inj hprev
              obtain ⟨i, -, heq⟩ := Option.map_eq_some_iff.1 h
              obtain ⟨rfl, -⟩ := Prod.mk.inj heq
              exact .inr (.inr (.inl ⟨i, rfl, hparen⟩))
            · obtain rfl := Option.some.inj hprev
              cases h
        · cases hprev
      · simp only [matchVariable] at h
        obtain ⟨hsplit, hall, hlen⟩ := scanSet_prefix maxVnameLen isNameChar expr
        split at h
        · rename_i hcond
          obtain ⟨i, hi, heq⟩ := Option.map_eq_some_iff.1 h
          obtain ⟨rfl, rfl⟩ := Prod.mk.inj heq
          generalize scanSet maxVnameLen isNameChar expr = t at *
          have hends := hcond.2
          rw [hsplit] at hends
          have hbehind := endsAt_append.1 hends
          refine .inr (.inr (.inr ⟨t, i, rfl, hsplit, hbehind, hcond.1, hall, hlen, hi, hnum, ?_⟩))
          rw [hsplit, findSome_matchOp (not_comma_of_isNameChar hall) hbehind] at hop
          exact Option.map_eq_none_iff.1 hop
        · cases h

end Operand

/-! ### One operand is printed and read again -/

lemma decimal_isNumChar (z : ℤ) : ∀ c ∈ decimal z, isNumChar c := by
  have hdigit : ∀ c ∈ ulong z.natAbs, isNumChar c := by
    intro c hc
    simp [isNumChar, isDigit_of_mem_ulong hc]
  intro c hc
  unfold decimal at hc
  split at hc
  · obtain rfl | hc := List.mem_cons.1 hc
    · rfl
    · exact hdigit c hc
  · exact hdigit c hc

lemma decimal_ne_nil (z : ℤ) : decimal z ≠ [] := by
  unfold decimal
  split
  · exact List.cons_ne_nil _ _
  · exact ulong_ne_nil _

/-- The buffer for a `short` holds its text. -/
lemma decimal_length {z : ℤ} (h : -2 ^ 15 ≤ z ∧ z ≤ 2 ^ 15 - 1) : (decimal z).length ≤ 6 := by
  have hlen : (ulong z.natAbs).length ≤ 5 := by
    rw [ulong_eq_toDigits, Nat.length_toDigits_le_iff (by decide) (by decide)]
    omega
  unfold decimal
  split
  · rw [List.length_cons]
    omega
  · omega

/-- The compact form of a number. -/
lemma compactNode_number {v : RrdValue} {c : RpnCdefds} (h : compactNode (.number v) = .ok c) :
    ∃ z : ℤ, (-2 ^ 15 ≤ z ∧ z ≤ 2 ^ 15 - 1) ∧ v = .fin z ∧ c = ⟨RpnOp.number.code, z⟩ := by
  cases v with
  | fin q =>
    simp only [compactNode, Rpnp.number] at h
    split at h
    · cases h
    · rename_i hcond
      push Not at hcond
      obtain ⟨hlow, hhigh, hint⟩ := hcond
      exact ⟨⌊q⌋, ⟨hlow, hhigh⟩, by rw [hint], (Except.ok.inj h).symm⟩
  | _ => cases h

/-- The compact form of an operator. -/
lemma compactNode_plain {o : RpnOp × Text} (h : o ∈ opNames) : compactNode (.plain o.1) = .ok ⟨o.1.code, 0⟩ := by
  have hall : ∀ o ∈ opNames, compactNode (.plain o.1) = .ok ⟨o.1.code, 0⟩ := by decide
  exact hall o h

/-- The two tables of operators agree. -/
lemma opNames_find {o : RpnOp × Text} (h : o ∈ opNames) :
    opNames.find? (·.1 = o.1) = some o ∧ opNames.find? (·.2 = o.2) = some o := by
  have hall : ∀ o ∈ opNames, opNames.find? (·.1 = o.1) = some o ∧ opNames.find? (·.2 = o.2) = some o := by
    decide
  exact hall o h

lemma text_plain (names : List Text) {o : RpnOp × Text} (h : o ∈ opNames) : compact2str names ⟨o.1.code, 0⟩ = o.2 := by
  obtain ⟨hnum, hvariable, -⟩ := plain_of_mem_opNames h
  unfold compact2str
  rw [ofCode_code]
  split
  · exact absurd ‹_› hnum
  · exact absurd ‹_› hvariable
  · rw [(opNames_find h).1]
    rfl

lemma text_variable {names : List Text} {t : Text} {i : ℕ} (hi : lookupDS names t = some i) (hlt : i < 2 ^ 15) :
    compact2str names ⟨RpnOp.variable.code, s16 i⟩ = t := by
  obtain ⟨hi', hname, -⟩ := List.findIdx?_eq_some_iff_getElem.1 hi
  rw [(s16_natCast i).2 hlt]
  show (if (i : ℤ) < 0 then [] else names.getD (i : ℤ).toNat []) = t
  rw [if_neg (by omega), Int.toNat_natCast, List.getD_eq_getElem?_getD, List.getElem?_eq_getElem hi', Option.getD_some]
  exact of_decide_eq_true hname

/-- No operator reads as a number. -/
lemma opNames_not_number {o : RpnOp × Text} (h : o ∈ opNames) (hnum : ∀ c ∈ o.2, isNumChar c) (v : RrdValue) :
    rrdStrtodbl o.2 ≠ .whole v := by
  have hall : opNames.all fun o => !o.2.all isNumChar || rrdStrtodbl o.2 = .notConverted := by decide
  have hchars : o.2.all isNumChar = true := List.all_eq_true.2 hnum
  have hnot := List.all_eq_true.1 hall o h
  rw [hchars, Bool.not_true, Bool.false_or, decide_eq_true_eq] at hnot
  rw [hnot]
  exact fun heq => by cases heq

section Again

variable {names : List Text} {t ctx ctx' expr rest : Text} {node : Rpnp} {c : RpnCdefds}

lemma matchNumber_none (ht : ',' ∉ t) (hctx : Behind ctx)
    (hnum : ctx ≠ [] → (∀ c ∈ t, isNumChar c) → t.length ≤ 40 → ∀ v, rrdStrtodbl t ≠ .whole v) :
    matchNumber (t ++ ctx) = none := by
  cases hmatch : matchNumber (t ++ ctx) with
  | none => rfl
  | some r =>
    obtain ⟨node, rest⟩ := r
    obtain ⟨t', v, hsplit, -, hall, hlen, ⟨r, hr⟩, hv, -⟩ := matchNumber_some hmatch
    obtain ⟨rfl, rfl⟩ := operand_unique hsplit.symm ht (not_comma_of_isNumChar hall) hctx (.inr ⟨r, hr⟩)
    exact absurd hv (hnum (hr ▸ List.cons_ne_nil _ _) hall hlen v)

lemma matchPrevOther_none (lookup : Text → Option ℕ) (ht : ∀ c ∈ t, isNameChar c) (hctx : Behind ctx) :
    matchPrevOther lookup (t ++ ctx) = none := by
  unfold matchPrevOther
  rw [if_neg]
  intro hpre
  obtain ⟨u, hu⟩ := List.isPrefixOf_iff_prefix.1 hpre
  have htake : t = (t ++ ctx).takeWhile (· ≠ ',') := by
    have hall : ∀ c ∈ t, (decide (c ≠ ',')) = true := fun c hc =>
      decide_eq_true fun heq => not_comma_of_isNameChar ht (heq ▸ hc)
    rw [List.takeWhile_append_of_pos hall]
    obtain rfl | ⟨rest, rfl⟩ := hctx <;> simp
  have hparen : '(' ∈ t := by
    rw [htake, ← hu, List.takeWhile_append_of_pos (List.all_eq_true.1 (by decide))]
    exact List.mem_append_left _ (by decide)
  exact absurd (ht '(' hparen) (by decide)

/-- The text of a node that was read is read as that node, if something stands behind a number and nothing new
behind a name that could be one. -/
lemma rpnOperand_again (h : rpnOperand (lookupDS names) expr = some (node, rest)) (hc : compactNode node = .ok c)
    (hprev : node.op ≠ .prevOther) (hvar : node.op = .variable → node.ptr < 2 ^ 15) (hctx : Behind ctx)
    (hnumber : node.op = .number → ctx ≠ []) (hnew : ctx ≠ [] → rest ≠ []) :
    rpnOperand (lookupDS names) (compact2str names c ++ ctx) = some (node, ctx) := by
  obtain hmatch | ⟨o, ho, rfl, rfl, hbehind⟩ | ⟨i, rfl, -⟩ | ⟨t, i, rfl, rfl, hbehind, hne, hall, hlen, hi, hnum, hop⟩ :=
    rpnOperand_some h
  · obtain ⟨t, v, -, -, -, -, -, -, rfl⟩ := matchNumber_some hmatch
    obtain ⟨z, hz, rfl, rfl⟩ := compactNode_number hc
    obtain ⟨r, rfl⟩ := hctx.resolve_left (hnumber rfl)
    have hread := matchNumber_append (decimal_ne_nil z) (decimal_isNumChar z) ((decimal_length hz).trans (by decide))
      (rrdStrtodbl_decimal z) r
    have htext : compact2str names ⟨RpnOp.number.code, z⟩ = decimal z := rfl
    rw [htext, rpnOperand_number hread]
  · obtain rfl := Except.ok.inj ((compactNode_plain ho).symm.trans hc)
    have hnone := matchNumber_none (opNames_text ho).1 hctx fun _ hall _ v => opNames_not_number ho hall v
    have hfind := findSome_matchOp (opNames_text ho).1 hctx
    rw [(opNames_find ho).2] at hfind
    rw [text_plain names ho, rpnOperand_name hnone hfind]
  · exact absurd rfl hprev
  · obtain rfl := Except.ok.inj hc
    have htext : compact2str names ⟨RpnOp.variable.code, s16 (Rpnp.variable i).ptr⟩ = t :=
      text_variable hi (Int.ofNat_lt.1 (hvar rfl))
    have hcomma := not_comma_of_isNameChar hall
    have hnone : matchNumber (t ++ ctx) = none := by
      refine matchNumber_none hcomma hctx fun hne' hnumeric hlen v hv => ?_
      obtain ⟨r, rfl⟩ := hbehind.resolve_left (hnew hne')
      rw [matchNumber_append hne hnumeric hlen hv r] at hnum
      cases hnum
    have hscan : scanSet maxVnameLen isNameChar (t ++ ctx) = t := scanSet_append hall hlen rfl hctx
    have hvariable : matchVariable (lookupDS names) (t ++ ctx) = some (.variable i, ctx) := by
      simp only [matchVariable, hscan]
      rw [if_pos ⟨hne, endsAt_append.2 hctx⟩, hi, Option.map_some, List.drop_left]
    have hname : opNames.findSome? (matchOp (t ++ ctx)) = none := by
      rw [findSome_matchOp hcomma hctx, hop, Option.map_none]
    rw [htext, rpnOperand_variable hnone hname (matchPrevOther_none _ hall hctx), hvariable]

end Again

/-! ### Whole programs -/

section Loop

variable {names : List Text} {lookup : Text → Option ℕ} {expr : Text} {p : List Rpnp} {c : List RpnCdefds}
  {fuel : ℕ}

/-- What one round of the loop does. -/
lemma rpnLoop_some (h : rpnLoop lookup (fuel + 1) expr = some p) :
    ∃ node rest, rpnOperand lookup expr = some (node, rest) ∧
      ((rest = [] ∨ rest = [',']) ∧ p = [node] ∨
        ∃ expr' p', rest = ',' :: expr' ∧ expr' ≠ [] ∧ rpnLoop lookup fuel expr' = some p' ∧ p = node :: p') := by
  rw [rpnLoop] at h
  split at h
  · cases h
  · rename_i node hop
    exact ⟨node, [], hop, .inl ⟨.inl rfl, (Option.some.inj h).symm⟩⟩
  · rename_i node sep expr' hop
    split at h
    · rename_i hsep
      subst hsep
      split at h
      · rename_i hexpr
        subst hexpr
        exact ⟨node, [','], hop, .inl ⟨.inr rfl, (Option.some.inj h).symm⟩⟩
      · rename_i hexpr
        obtain ⟨p', hp', rfl⟩ := Option.map_eq_some_iff.1 h
        exact ⟨node, ',' :: expr', hop, .inr ⟨expr', p', rfl, hexpr, hp', rfl⟩⟩
    · cases h

lemma rpnLoop_ne_nil (h : rpnLoop lookup fuel expr = some p) : p ≠ [] := by
  cases fuel with
  | zero => cases h
  | succ fuel =>
    obtain ⟨node, rest, -, ⟨-, rfl⟩ | ⟨expr', p', -, -, -, rfl⟩⟩ := rpnLoop_some h
    · exact List.cons_ne_nil _ _
    · exact List.cons_ne_nil _ _

lemma rpnLoop_nil : rpnLoop lookup fuel [] = none := by
  cases fuel with
  | zero => rfl
  | succ fuel =>
    cases h : rpnLoop lookup (fuel + 1) [] with
    | none => rfl
    | some p =>
      obtain ⟨node, rest, hop, -⟩ := rpnLoop_some h
      have hnone : rpnOperand lookup [] = none := rfl
      rw [hnone] at hop
      cases hop

/-- The compact form, node by node. -/
lemma compact_cons {node : Rpnp} (h : (node :: p).mapM compactNode = .ok c) :
    ∃ cn c', compactNode node = .ok cn ∧ p.mapM compactNode = .ok c' ∧ c = cn :: c' := by
  rw [List.mapM_cons] at h
  cases hn : compactNode node with
  | error e =>
    rw [hn] at h
    cases h
  | ok cn =>
    cases hp : p.mapM compactNode with
    | error e =>
      rw [hn, hp] at h
      cases h
    | ok c' =>
      rw [hn, hp] at h
      exact ⟨cn, c', rfl, rfl, (Except.ok.inj h).symm⟩

/-- The programs whose text is read again. -/
def Printable (p : List Rpnp) : Prop :=
  (∀ n ∈ p, n.op ≠ .prevOther) ∧ (∀ n, p.getLast? = some n → n.op ≠ .number) ∧
    ∀ n ∈ p, n.op = .variable → n.ptr < 2 ^ 15

lemma Printable.tail {node : Rpnp} (h : Printable (node :: p)) (hne : p ≠ []) : Printable p := by
  obtain ⟨hprev, hlast, hvar⟩ := h
  refine ⟨fun n hn => hprev n (List.mem_cons_of_mem _ hn), fun n hn => hlast n ?_,
    fun n hn => hvar n (List.mem_cons_of_mem _ hn)⟩
  rw [List.getLast?_cons_of_ne_nil hne]
  exact hn

/-- Each round of the loop reads again what was printed for its node. -/
lemma rpnLoop_again (h : rpnLoop (lookupDS names) fuel expr = some p) (hc : p.mapM compactNode = .ok c)
    (hp : Printable p) {fuel' : ℕ} (hfuel : p.length ≤ fuel') :
    rpnLoop (lookupDS names) fuel' (rpnCompact2str names c) = some p := by
  induction fuel generalizing expr p c fuel' with
  | zero => cases h
  | succ fuel ih =>
    obtain ⟨node, rest, hop, ⟨-, rfl⟩ | ⟨expr', p', rfl, -, hloop, rfl⟩⟩ := rpnLoop_some h
    · obtain ⟨cn, c', hcn, hc', rfl⟩ := compact_cons hc
      obtain rfl : c' = [] := (Except.ok.inj hc').symm
      obtain ⟨hprev, hlast, hvar⟩ := hp
      obtain ⟨fuel', rfl⟩ : ∃ k, fuel' = k + 1 := ⟨fuel' - 1, by rw [List.length_singleton] at hfuel; omega⟩
      have hread : rpnOperand (lookupDS names) (compact2str names cn ++ []) = some (node, []) :=
        rpnOperand_again hop hcn (hprev node List.mem_cons_self) (hvar node List.mem_cons_self) (.inl rfl)
          (fun hnum => absurd hnum (hlast node rfl)) (fun hne => absurd rfl hne)
      rw [List.append_nil] at hread
      simp only [rpnCompact2str, List.map_cons, List.map_nil, joinCommas, rpnLoop, hread]
    · obtain ⟨cn, c', hcn, hc', rfl⟩ := compact_cons hc
      obtain ⟨fuel', rfl⟩ : ∃ k, fuel' = k + 1 := ⟨fuel' - 1, by rw [List.length_cons] at hfuel; omega⟩
      have hrest := ih hloop hc' (hp.tail (rpnLoop_ne_nil hloop)) (Nat.le_of_succ_le_succ hfuel)
      obtain ⟨hprev, hlast, hvar⟩ := hp
      have hread : rpnOperand (lookupDS names) (compact2str names cn ++ ',' :: rpnCompact2str names c') =
          some (node, ',' :: rpnCompact2str names c') :=
        rpnOperand_again hop hcn (hprev node List.mem_cons_self) (hvar node List.mem_cons_self) (.inr ⟨_, rfl⟩)
          (fun _ => List.cons_ne_nil _ _) (fun _ => List.cons_ne_nil _ _)
      have hne : rpnCompact2str names c' ≠ [] := by
        intro hnil
        rw [hnil, rpnLoop_nil] at hrest
        cases hrest
      have htext : rpnCompact2str names (cn :: c') = compact2str names cn ++ ',' :: rpnCompact2str names c' := by
        cases c' with
        | nil => exact absurd rfl hne
        | cons cn' c' => rfl
      simp only [htext, rpnLoop, hread, if_true, if_neg hne, hrest, Option.map_some]

end Loop

/-! ### What comes back -/

/-- The nodes that `rpn_parse` makes. -/
inductive Rpnp.Made (names : List Text) : Rpnp → Prop where
  | number (v : RrdValue) : Made names (.number v)
  | variable {t : Text} {i : ℕ} : lookupDS names t = some i → (∀ c ∈ t, isNameChar c) → Made names (.variable i)
  | prevOther (i : ℕ) : Made names (.prevOther i)
  | plain {o : RpnOp × Text} : o ∈ opNames → Made names (.plain o.1)

section Converse

variable {names : List Text} {lookup : Text → Option ℕ} {expr rest : Text} {node : Rpnp} {p : List Rpnp}
  {c : List RpnCdefds} {fuel : ℕ}

lemma rpnOperand_made (h : rpnOperand (lookupDS names) expr = some (node, rest)) : node.Made names := by
  obtain hmatch | ⟨o, ho, rfl, -⟩ | ⟨i, rfl, -⟩ | ⟨t, i, rfl, -, -, -, hall, -, hi, -⟩ := rpnOperand_some h
  · obtain ⟨t, v, -, -, -, -, -, -, rfl⟩ := matchNumber_some hmatch
    exact .number v
  · exact .plain ho
  · exact .prevOther i
  · exact .variable hi hall

lemma rpnLoop_made (h : rpnLoop (lookupDS names) fuel expr = some p) : ∀ n ∈ p, n.Made names := by
  induction fuel generalizing expr p with
  | zero => cases h
  | succ fuel ih =>
    obtain ⟨node, rest, hop, ⟨-, rfl⟩ | ⟨expr', p', rfl, -, hloop, rfl⟩⟩ := rpnLoop_some h
    · intro n hn
      rw [List.mem_singleton.1 hn]
      exact rpnOperand_made hop
    · intro n hn
      obtain rfl | hn := List.mem_cons.1 hn
      · exact rpnOperand_made hop
      · exact ih hloop n hn

/-- A node comes back from its compact form, unless its index does not fit. -/
lemma expandNode_iff {cn : RpnCdefds} (hmade : node.Made names) (hc : compactNode node = .ok cn) :
    expandNode cn = node ↔ (node.op = .variable ∨ node.op = .prevOther → node.ptr < 2 ^ 15) := by
  cases hmade with
  | number v =>
    obtain ⟨z, -, rfl, rfl⟩ := compactNode_number hc
    refine iff_of_true rfl ?_
    rintro (h | h) <;> cases h
  | @«variable» t i =>
    obtain rfl := Except.ok.inj hc
    refine Iff.trans ?_ ((s16_natCast i).trans ⟨fun h _ => Int.ofNat_lt.2 h, fun h => Int.ofNat_lt.1 (h (.inl rfl))⟩)
    show Rpnp.variable (s16 i) = Rpnp.variable i ↔ s16 i = i
    simp [Rpnp.variable]
  | prevOther i =>
    obtain rfl := Except.ok.inj hc
    refine Iff.trans ?_ ((s16_natCast i).trans ⟨fun h _ => Int.ofNat_lt.2 h, fun h => Int.ofNat_lt.1 (h (.inr rfl))⟩)
    show Rpnp.prevOther (s16 i) = Rpnp.prevOther i ↔ s16 i = i
    simp [Rpnp.prevOther]
  | @plain o ho =>
    obtain rfl := Except.ok.inj ((compactNode_plain ho).symm.trans hc)
    obtain ⟨hnum, hvar, hprev⟩ := plain_of_mem_opNames ho
    refine iff_of_true ?_ fun h => absurd h (by rintro (h | h) <;> contradiction)
    unfold expandNode
    rw [ofCode_code]
    split
    · exact absurd ‹_› hnum
    · exact absurd ‹_› hvar
    · exact absurd ‹_› hprev
    · rfl

lemma rpnExpand_iff (hmade : ∀ n ∈ p, n.Made names) (hc : p.mapM compactNode = .ok c) :
    rpnExpand c = p ↔ ∀ n ∈ p, n.op = .variable ∨ n.op = .prevOther → n.ptr < 2 ^ 15 := by
  induction p generalizing c with
  | nil =>
    obtain rfl := Except.ok.inj hc
    exact iff_of_true rfl fun n hn => absurd hn List.not_mem_nil
  | cons node p ih =>
    obtain ⟨cn, c', hcn, hc', rfl⟩ := compact_cons hc
    have htail := ih (fun n hn => hmade n (List.mem_cons_of_mem _ hn)) hc'
    rw [List.forall_mem_cons, ← expandNode_iff (hmade node List.mem_cons_self) hcn, ← htail]
    exact List.cons_eq_cons

/-- Nothing that is printed has a parenthesis. -/
lemma paren_not_mem_text {cn : RpnCdefds} (hmade : node.Made names) (hc : compactNode node = .ok cn)
    (hvar : node.op = .variable → node.ptr < 2 ^ 15) : '(' ∉ compact2str names cn := by
  cases hmade with
  | number v =>
    obtain ⟨z, -, rfl, rfl⟩ := compactNode_number hc
    exact fun hmem => absurd (decimal_isNumChar z '(' hmem) (by decide)
  | @«variable» t i hi hall =>
    obtain rfl := Except.ok.inj hc
    have htext : compact2str names ⟨RpnOp.variable.code, s16 (Rpnp.variable i).ptr⟩ = t :=
      text_variable hi (Int.ofNat_lt.1 (hvar rfl))
    rw [htext]
    exact fun hmem => absurd (hall '(' hmem) (by decide)
  | prevOther i =>
    obtain rfl := Except.ok.inj hc
    exact List.not_mem_nil
  | @plain o ho =>
    obtain rfl := Except.ok.inj ((compactNode_plain ho).symm.trans hc)
    rw [text_plain names ho]
    exact (opNames_text ho).2.1

lemma rpnCompact2str_cons_cons (names : List Text) (cn cn' : RpnCdefds) (c : List RpnCdefds) :
    rpnCompact2str names (cn :: cn' :: c) = compact2str names cn ++ ',' :: rpnCompact2str names (cn' :: c) := rfl

lemma paren_not_mem_printed (hmade : ∀ n ∈ p, n.Made names) (hc : p.mapM compactNode = .ok c)
    (hvar : ∀ n ∈ p, n.op = .variable → n.ptr < 2 ^ 15) : '(' ∉ rpnCompact2str names c := by
  induction p generalizing c with
  | nil =>
    obtain rfl := Except.ok.inj hc
    exact List.not_mem_nil
  | cons node p ih =>
    obtain ⟨cn, c', hcn, hc', rfl⟩ := compact_cons hc
    have hhead := paren_not_mem_text (hmade node List.mem_cons_self) hcn (hvar node List.mem_cons_self)
    have htail := ih (fun n hn => hmade n (List.mem_cons_of_mem _ hn)) hc'
      (fun n hn => hvar n (List.mem_cons_of_mem _ hn))
    cases c' with
    | nil => exact hhead
    | cons cn' c' =>
      rw [rpnCompact2str_cons_cons, List.mem_append, List.mem_cons]
      rintro (hmem | hmem | hmem)
      · exact hhead hmem
      · cases hmem
      · exact htail hmem

/-- The operands of a text without parentheses. -/
lemma rpnOperand_split (h : rpnOperand lookup expr = some (node, rest)) (hparen : '(' ∉ expr) :
    node.op ≠ .prevOther ∧ (∃ t, expr = t ++ rest) ∧ (node.op = .number → rest ≠ []) := by
  obtain hmatch | ⟨o, ho, rfl, rfl, -⟩ | ⟨i, rfl, hmem⟩ | ⟨t, i, rfl, rfl, -⟩ := rpnOperand_some h
  · obtain ⟨t, v, rfl, -, -, -, ⟨r, rfl⟩, -, rfl⟩ := matchNumber_some hmatch
    exact ⟨fun h => (by cases h), ⟨t, rfl⟩, fun _ => List.cons_ne_nil _ _⟩
  · exact ⟨(plain_of_mem_opNames ho).2.2, ⟨_, rfl⟩, fun h => absurd h (plain_of_mem_opNames ho).1⟩
  · exact absurd hmem hparen
  · exact ⟨fun h => (by cases h), ⟨_, rfl⟩, fun h => (by cases h)⟩

/-- A text without parentheses has no `PREV(name)`, and a number at its end has a comma behind it. -/
lemma rpnLoop_no_paren (h : rpnLoop lookup fuel expr = some p) (hparen : '(' ∉ expr) :
    (∀ n ∈ p, n.op ≠ .prevOther) ∧ ∀ n, p.getLast? = some n → n.op = .number → expr.getLast? = some ',' := by
  induction fuel generalizing expr p with
  | zero => cases h
  | succ fuel ih =>
    obtain ⟨node, rest, hop, hround⟩ := rpnLoop_some h
    obtain ⟨hprev, ⟨t, rfl⟩, hnum⟩ := rpnOperand_split hop hparen
    obtain ⟨hrest, rfl⟩ | ⟨expr', p', rfl, hne, hloop, rfl⟩ := hround
    · refine ⟨fun n hn => List.mem_singleton.1 hn ▸ hprev, fun n hn hop => ?_⟩
      obtain rfl : node = n := Option.some.inj hn
      obtain rfl := hrest.resolve_left (hnum hop)
      exact List.getLast?_concat
    · obtain ⟨htail, hlast⟩ := ih hloop fun hmem => hparen (List.mem_append_right t (List.mem_cons_of_mem _ hmem))
      refine ⟨List.forall_mem_cons.2 ⟨hprev, htail⟩, fun n hn hop => ?_⟩
      rw [List.getLast?_cons_of_ne_nil (rpnLoop_ne_nil hloop)] at hn
      have hcomma := hlast n hn hop
      rw [List.getLast?_append_of_ne_nil _ (List.cons_ne_nil _ _), List.getLast?_cons_of_ne_nil hne]
      exact hcomma

/-- No comma is printed behind a number at the end. -/
lemma printed_last_number (hmade : ∀ n ∈ p, n.Made names) (hc : p.mapM compactNode = .ok c) {n : Rpnp}
    (hlast : p.getLast? = some n) (hn : n.op = .number) : ∃ d ≠ ',', (rpnCompact2str names c).getLast? = some d := by
  induction p generalizing c with
  | nil => cases hlast
  | cons node p ih =>
    obtain ⟨cn, c', hcn, hc', rfl⟩ := compact_cons hc
    cases p with
    | nil =>
      obtain rfl := Except.ok.inj hc'
      obtain rfl : node = n := Option.some.inj hlast
      have hnode := hmade node List.mem_cons_self
      cases hnode with
      | number v =>
        obtain ⟨z, -, rfl, rfl⟩ := compactNode_number hcn
        obtain ⟨d, hd⟩ : ∃ d, (decimal z).getLast? = some d := ⟨_, List.getLast?_eq_some_getLast (decimal_ne_nil z)⟩
        refine ⟨d, ?_, hd⟩
        rintro rfl
        exact not_comma_of_isNumChar (decimal_isNumChar z) (List.mem_of_getLast? hd)
      | «variable» => cases hn
      | prevOther => cases hn
      | plain ho => exact absurd hn (plain_of_mem_opNames ho).1
    | cons node' p =>
      rw [List.getLast?_cons_of_ne_nil (List.cons_ne_nil _ _)] at hlast
      obtain ⟨d, hd, htail⟩ := ih (fun n hn => hmade n (List.mem_cons_of_mem _ hn)) hc' hlast
      obtain ⟨cn', c'', -, -, rfl⟩ := compact_cons hc'
      refine ⟨d, hd, ?_⟩
      have hne : rpnCompact2str names (cn' :: c'') ≠ [] := by
        intro hnil
        rw [hnil] at htail
        cases htail
      rw [rpnCompact2str_cons_cons, List.getLast?_append_of_ne_nil _ (List.cons_ne_nil _ _),
        List.getLast?_cons_of_ne_nil hne]
      exact htail

end Converse

/-- There are no more operands than characters, or one more. -/
lemma length_le_joinCommas (ts : List Text) : ts.length ≤ (joinCommas ts).length + 1 := by
  induction ts with
  | nil => exact Nat.zero_le _
  | cons t ts ih =>
    cases ts with
    | nil => exact Nat.succ_le_succ (Nat.zero_le _)
    | cons t' ts =>
      simp only [joinCommas, List.length_append, List.length_cons] at ih ⊢
      omega

lemma rpnParse_some {lookup : Text → Option ℕ} {expr : Text} {p : List Rpnp} :
    rpnParse lookup expr = some p ↔ rpnLoop lookup (expr.length + 1) expr = some p := by
  unfold rpnParse
  split
  · rename_i hnil
    rw [hnil, rpnLoop_nil]
  · rfl

lemma length_of_mapM {p : List Rpnp} {c : List RpnCdefds} (hc : p.mapM compactNode = .ok c) : c.length = p.length := by
  induction p generalizing c with
  | nil =>
    obtain rfl := Except.ok.inj hc
    rfl
  | cons node p ih =>
    obtain ⟨cn, c', -, hc', rfl⟩ := compact_cons hc
    rw [List.length_cons, List.length_cons, ih hc']

example : rpnParse (lookupDS ["a".toList]) "a,2,*".toList = some [.variable 0, .number (.fin 2), .plain .mul] := by
  decide +kernel

end Rrdtool
