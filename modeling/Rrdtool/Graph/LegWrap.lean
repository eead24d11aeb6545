import Rrdtool.Graph.LegPlace
import Rrdtool.Lib.Outcome

/-!
# Legends that are moved to the next line

An element that does not fit is read a second time by `leg_place` (`src/rrd_graph.c`), and its legend has been edited by
then: the control code is gone. `reread_iff` says when this makes no difference.
-/

namespace Rrdtool

namespace Legend

/-! ### Texts that are read again -/

lemma replaceTab_length {s s' : Text} (h : replaceTab s = some s') : s'.length + 1 = s.length := by
  induction s generalizing s' with
  | nil => cases h
  | cons c s ih =>
    rw [replaceTab] at h
    split at h
    · rename_i htab
      cases h
      cases s with
      | nil => cases htab.2
      | cons d s => rfl
    · cases hrest : replaceTab s with
      | none =>
        rw [hrest] at h
        cases h
      | some t =>
        rw [hrest] at h
        cases h
        exact congrArg Nat.succ (ih hrest)

lemma replaceTab_replaceTabs (k : ℕ) (s : Text) (h : s.length ≤ k) : replaceTab (replaceTabs k s) = none := by
  induction k generalizing s with
  | zero =>
    rw [List.length_eq_zero_iff.1 (Nat.le_zero.1 h)]
    rfl
  | succ k ih =>
    rw [replaceTabs]
    cases hrest : replaceTab s with
    | none => exact hrest
    | some s' =>
      have hlength := replaceTab_length hrest
      exact ih s' (by omega)

lemma tabs_of_none {s : Text} (h : replaceTab s = none) : tabs s = s := by
  unfold tabs
  cases s with
  | nil => rfl
  | cons c s =>
    rw [List.length_cons, replaceTabs, h]

/-- What is left of a text without `\t` has none either. -/
lemma replaceTab_prefix {s t : Text} (h : t <+: s) (hs : replaceTab s = none) : replaceTab t = none := by
  induction t generalizing s with
  | nil => rfl
  | cons c t ih =>
    obtain ⟨rest, rfl⟩ := h
    rw [List.cons_append] at hs
    rw [replaceTab] at hs ⊢
    split at hs
    · cases hs
    · rename_i htab
      have hnone := ih (List.prefix_append t rest) (Option.map_eq_none_iff.1 hs)
      rw [if_neg, hnone]
      · rfl
      · rintro ⟨hc, ht⟩
        refine htab ⟨hc, ?_⟩
        cases t with
        | nil => cases ht
        | cons d t => exact ht

lemma controlCode_cases (legend : Text) :
    controlCode legend = (legend, '\x00') ∨
      (controlCode legend).1.length + 2 = legend.length ∧ (controlCode legend).1 <+: legend := by
  unfold controlCode
  split
  · rename_i h
    right
    refine ⟨?_, List.take_prefix _ _⟩
    rw [List.length_take]
    omega
  · exact .inl rfl

/-- A legend that is asked for: what its request is made of. -/
lemma request_ok {legend : Text} {r : Request} (h : request legend = .ok r) :
    r.legend <+: (controlCode (tabs legend)).1 ∧ (controlCode (tabs legend) = (tabs legend, '\x00') →
      r = ⟨tabs legend, '\x00'⟩) := by
  have htrim : ∀ (p : Prop) [Decidable p] (text : Text), (if p then text.rdropWhile (· = ' ') else text) <+: text := by
    intro p _ text
    split
    · exact List.rdropWhile_prefix _ _
    · exact List.prefix_rfl
  unfold request at h
  dsimp only at h
  split at h
  · cases h
  · cases h
    refine ⟨htrim _ _, fun hnone => ?_⟩
    rw [hnone]
    rfl

/-- The text of a request has no `\t`. -/
lemma tabs_request {legend : Text} {r : Request} (h : request legend = .ok r) : tabs r.legend = r.legend := by
  apply tabs_of_none
  have hcode : (controlCode (tabs legend)).1 <+: tabs legend := by
    rcases controlCode_cases (tabs legend) with hnone | ⟨-, hprefix⟩
    · rw [hnone]
    · exact hprefix
  exact replaceTab_prefix ((request_ok h).1.trans hcode) (replaceTab_replaceTabs _ _ le_rfl)

/-- A text without a control code asks for nothing else. -/
lemma request_plain {text : Text} (htabs : tabs text = text) (hcode : controlCode text = (text, '\x00')) :
    request text = .ok ⟨text, '\x00'⟩ := by
  unfold request
  rw [htabs, hcode]
  rfl

/-! ### Rounds of the loop -/

/-- The state after `k` rounds. -/
def legRounds (im : Image) (calcWidth : Bool) : ℕ → Pass → Option Pass
  | 0, st => some st
  | k + 1, st =>
    if st.i < im.gdesC then (legBody im calcWidth st).toOption.bind (legRounds im calcWidth k) else none

/-- The elements that have not been read are as they were. -/
structure Pass.Unread (gdes : ℕ → Element) (st : Pass) : Prop where
  behind : ∀ k, st.i < k → st.gdes k = gdes k
  first : st.mark < st.i → st.gdes st.i = gdes st.i

section Rounds

variable {im : Image} {calcWidth : Bool} {st st' : Pass} {gdes : ℕ → Element} {k : ℕ}

lemma Pass.Unread.round (h : st.Unread gdes) (hinv : st.Inv im calcWidth) (hbody : legBody im calcWidth st = .ok st') :
    st'.Unread gdes := by
  obtain ⟨hround, hframe⟩ := legBody_round hinv.mark_le hinv.first hbody
  have hnext : ∀ k, st.i < k → st'.gdes k = gdes k := fun k hk => (hframe k (.inr hk)).trans (h.behind k hk)
  cases hround with
  | collect hi => exact ⟨fun k hk => hnext k (by omega), fun _ => hnext st'.i (by omega)⟩
  | place places hi hmark =>
    refine ⟨fun k hk => hnext k ?_, fun hlt => absurd hlt hmark.not_lt⟩
    rcases hi with hi | ⟨hi, -⟩
    all_goals omega

lemma unread_start (legspace : ℕ → ℤ) : (Pass.start im calcWidth gdes legspace).Unread gdes :=
  ⟨fun _ _ => rfl, fun _ => rfl⟩

lemma legRounds_inv (hrounds : legRounds im calcWidth k st = some st') (hinv : st.Inv im calcWidth) (h : st.Unread gdes) :
    st'.Inv im calcWidth ∧ st'.Unread gdes := by
  induction k generalizing st with
  | zero =>
    cases hrounds
    exact ⟨hinv, h⟩
  | succ k ih =>
    rw [legRounds] at hrounds
    split at hrounds
    · rename_i hi
      cases hbody : legBody im calcWidth st with
      | error e =>
        rw [hbody] at hrounds
        cases hrounds
      | ok st₁ =>
        rw [hbody] at hrounds
        exact ih hrounds (hinv.round hi hbody) (h.round hinv hbody)
    · cases hrounds

/-- What a round leaves of the element at hand if the lines are placed. -/
lemma legBody_result (hbody : legBody im false st = .ok st') :
    ∃ r, request (im.shown (st.gdes st.i)) = .ok r ∧ (st'.gdes st.i).legend = r.legend ∧
      st'.legspace st.i = if r.legend = [] then 0 else if r.prtFctn = 'g' then 0 else im.interleg := by
  obtain ⟨r, w, c, stop, hrequest, hwrap, hnext⟩ := legBody_request hbody
  obtain ⟨⟨hgdes, -, -, hlegspace⟩, -⟩ := wrap_spec hwrap
  obtain ⟨heq, -, -, hsame⟩ := next_spec hnext
  have hlegend : ((st.read im r).gdes st.i).legend = r.legend := by
    show (Function.update st.gdes st.i _ st.i).legend = r.legend
    rw [Function.update_self]
  have hspace : (st.read im r).legspace st.i = if r.legend = [] then 0 else if r.prtFctn = 'g' then 0 else im.interleg :=
    Function.update_self _ _ _
  refine ⟨r, hrequest, ?_, ?_⟩
  · rw [hsame rfl, ← hlegend, ← hgdes]
    split
    · rfl
    · exact place_legend w st.i
  · rw [heq, ← hspace, ← hlegspace]
    split
    all_goals rfl

/-- Rounds that read the same do the same. -/
lemma legBody_congr {r r' : Request} (hrequest : request (im.shown (st.gdes st.i)) = .ok r)
    (hrequest' : request (im.shown (st'.gdes st'.i)) = .ok r') (hread : st.read im r = st'.read im r')
    (hfill : st.fill = st'.fill) (hcode : r.code = r'.code) : legBody im false st = legBody im false st' := by
  rw [legBody_ok hrequest rfl, legBody_ok hrequest' rfl, hread, hfill, hcode]
  rfl

end Rounds

/-! ### An element that is taken back -/

/-- The pass as it is if it begins with the element at hand, from where on the legends are as they were. -/
@[grind] def Pass.fresh (gdes : ℕ → Element) (st : Pass) : Pass :=
  { st with gdes := fun k => if k < st.i then st.gdes k else gdes k, fill := 0, legC := 0, mark := st.i }

/-- The element at hand is read as its legend asks for, and so are the others. -/
structure Pass.AsRequested (im : Image) (calcWidth : Bool) (gdes : ℕ → Element) (st : Pass) : Prop where
  visit : legBody im calcWidth st = legBody im calcWidth (st.fresh gdes)
  rest : ∀ fuel, legLoop im calcWidth fuel st = legLoop im calcWidth fuel (st.fresh gdes)

/-- A legend whose text does not end in a control code when its own has been taken away, which is not `\g` if that makes
a difference. -/
def KeepsFormat (im : Image) (legend : Text) : Prop :=
  ∀ r, request legend = .ok r → controlCode r.legend = (r.legend, '\x00') ∧ (r.prtFctn = 'g' → im.interleg = 0)

section Back

variable {im : Image} {calcWidth : Bool} {st st' : Pass} {gdes : ℕ → Element} {r : Request} {text : Text}

lemma shown_eq {e : Element} (h : im.shown e ≠ []) : im.shown e = e.legend := by
  unfold Image.shown at h ⊢
  split at h
  · exact absurd rfl h
  · rename_i hrule
    rw [if_neg hrule]

/-- Whether a legend is hidden does not depend on its text. -/
lemma shown_with {e : Element} (h : im.shown e ≠ []) (text : Text) : im.shown { e with legend := text } = text := by
  unfold Image.shown at h ⊢
  split at h
  · exact absurd rfl h
  · rename_i hrule
    exact if_neg hrule

/-- What is so when an element has been taken back: it is the first of its line now, with the text of its request. -/
structure TakenBack (im : Image) (calcWidth : Bool) (gdes : ℕ → Element) (st : Pass) (r : Request) : Prop where
  placing : calcWidth = false
  request : request (gdes st.i).legend = .ok r
  shown : im.shown (gdes st.i) = (gdes st.i).legend ∧ im.shown (st.gdes st.i) = r.legend
  element : st.gdes st.i = { gdes st.i with legend := r.legend }
  text : r.legend ≠ []
  code : r.code = '\x00'
  fresh : st.fresh gdes = { st with gdes := Function.update st.gdes st.i (gdes st.i) }
  fill : st.fill = 0
  mark : st.mark = st.i
  legC : st.legC = 0

lemma takenBack (hinv : st.Inv im calcWidth) (hunread : st.Unread gdes) (hbody : legBody im calcWidth st = .ok st')
    (hback : st'.i = st.i) : ∃ r, TakenBack im calcWidth gdes st' r := by
  obtain ⟨hround, hframe⟩ := legBody_round hinv.mark_le hinv.first hbody
  cases hround with
  | collect hi => omega
  | place places hi hmark hfill hlegC =>
    rcases hi with hi | ⟨-, hcalc, hpos⟩
    · omega
    · obtain ⟨r, w, c, stop, hrequest, hwrap, hnext⟩ := legBody_request hbody
      obtain ⟨⟨hgdes, hwmark, -, -⟩, -, hstop⟩ := wrap_spec hwrap
      obtain ⟨heq, -, -, hsame⟩ := next_spec hnext
      obtain rfl : st'.i = stop := by rw [heq]
      obtain ⟨-, -, hlegC', hroom, hcode⟩ := hstop.resolve_left fun h => Nat.succ_ne_self st.i (h.symm.trans hback)
      have hmarklt : st.mark < st.i := lt_of_le_of_ne hinv.mark_le fun h => absurd (hinv.first h) hpos.ne'
      -- An element without a text does not fill a line.
      have hne : r.legend ≠ [] := by
        intro hempty
        have hsamefill : (st.read im r).fill = st.fill := if_pos hempty
        rw [hsamefill] at hroom
        exact absurd hroom (hinv.room hmarklt).not_gt
      have hshown : im.shown (st.gdes st.i) ≠ [] := by
        intro hempty
        rw [hempty] at hrequest
        cases hrequest
        exact hne rfl
      have hfirst := hunread.first hmarklt
      rw [hfirst] at hshown hrequest
      have helement : st'.gdes st.i = { gdes st.i with legend := r.legend } := by
        have hread : (st.read im r).gdes st.i = { gdes st.i with legend := r.legend } := by
          show Function.update st.gdes st.i _ st.i = _
          rw [Function.update_self, hfirst]
        rw [hsame hcalc, ← hread, ← hgdes]
        split
        · rfl
        · have hlt : w.mark < st'.i := by
            rw [hwmark, hback]
            exact hmarklt
          obtain ⟨-, -, -, hkept, -⟩ := @place_spec im calcWidth w c st'.i hlt
          exact hkept st.i (.inr hback.le)
      refine ⟨r, hcalc, ?_, ?_, ?_, hne, hcode, ?_, hfill, hmark, hlegC⟩
      · rw [hback, ← shown_eq hshown]
        exact hrequest
      · rw [hback, helement]
        exact ⟨shown_eq hshown, shown_with hshown r.legend⟩
      · rw [hback]
        exact helement
      · rw [Pass.fresh, Pass.mk.injEq]
        refine ⟨rfl, funext fun k => ?_, rfl, hfill.symm, rfl, hlegC.symm, rfl, hmark.symm, rfl, rfl⟩
        obtain rfl | hk := eq_or_ne k st'.i
        · rw [if_neg (lt_irrefl _), Function.update_self]
        · rw [Function.update_of_ne hk]
          split
          · rfl
          · rw [hframe k (by omega), hunread.behind k (by omega)]

lemma TakenBack.fresh_gdes (h : TakenBack im calcWidth gdes st r) : (st.fresh gdes).gdes st.i = gdes st.i := by
  rw [h.fresh]
  exact Function.update_self _ _ _

lemma TakenBack.request_fresh (h : TakenBack im calcWidth gdes st r) :
    Legend.request (im.shown ((st.fresh gdes).gdes (st.fresh gdes).i)) = .ok r := by
  rw [show (st.fresh gdes).i = st.i from rfl, h.fresh_gdes, h.shown.1]
  exact h.request

/-- With the same text and space the readings are the same. -/
lemma TakenBack.read_fresh (h : TakenBack im calcWidth gdes st r) (hspace : r.prtFctn = 'g' → im.interleg = 0) :
    st.read im ⟨r.legend, '\x00'⟩ = (st.fresh gdes).read im r := by
  have hlegspace : (if r.legend = [] then 0 else if ('\x00' : Char) = 'g' then 0 else im.interleg) =
      if r.legend = [] then 0 else if r.prtFctn = 'g' then 0 else im.interleg := by
    rw [show (if ('\x00' : Char) = 'g' then 0 else im.interleg) = im.interleg from if_neg (by decide)]
    by_cases hg : r.prtFctn = 'g'
    · rw [if_pos hg, hspace hg]
    · rw [if_neg hg]
  rw [h.fresh]
  unfold Pass.read
  simp only [hlegspace, Function.update_self, Function.update_idem, h.element]

lemma TakenBack.visit_iff (h : TakenBack im calcWidth gdes st r) :
    legBody im calcWidth st = legBody im calcWidth (st.fresh gdes) ↔ KeepsFormat im (gdes st.i).legend := by
  have hplacing := h.placing
  subst hplacing
  constructor
  · intro hsame r' hr'
    obtain rfl : r' = r := Except.ok.inj (hr'.symm.trans h.request)
    obtain ⟨st', hst'⟩ : ∃ st', legBody im false (st.fresh gdes) = .ok st' := by
      rw [legBody_ok h.request_fresh rfl]
      exact ⟨_, rfl⟩
    obtain ⟨r₁, hr₁, hlegend₁, hspace₁⟩ := legBody_result hst'
    obtain ⟨r₂, hr₂, hlegend₂, hspace₂⟩ := legBody_result (hsame.trans hst')
    obtain rfl : r₁ = r' := Except.ok.inj (hr₁.symm.trans h.request_fresh)
    rw [show (st.fresh gdes).i = st.i from rfl] at hlegend₁ hspace₁
    rw [hlegend₁] at hlegend₂
    rw [hspace₁, ← hlegend₂] at hspace₂
    rw [h.shown.2] at hr₂
    have hprefix := (request_ok hr₂).1
    rw [tabs_request h.request, ← hlegend₂] at hprefix
    rcases controlCode_cases r₁.legend with hcode | ⟨hlength, -⟩
    · refine ⟨hcode, fun hg => ?_⟩
      have hr := (request_ok hr₂).2
      rw [tabs_request h.request] at hr
      rw [hr hcode, if_neg h.text, if_neg h.text, if_pos hg] at hspace₂
      exact hspace₂.symm
    · have hle := hprefix.length_le
      omega
  · intro hkeeps
    obtain ⟨hcode, hspace⟩ := hkeeps r h.request
    have hrequest : Legend.request (im.shown (st.gdes st.i)) = .ok ⟨r.legend, '\x00'⟩ := by
      rw [h.shown.2]
      exact request_plain (tabs_request h.request) hcode
    exact legBody_congr hrequest h.request_fresh (h.read_fresh hspace) h.fill h.code.symm

end Back

lemma legLoop_congr {im : Image} {calcWidth : Bool} {st st' : Pass} (hi : st.i = st'.i) (hin : st.i < im.gdesC)
    (hbody : legBody im calcWidth st = legBody im calcWidth st') (fuel : ℕ) :
    legLoop im calcWidth fuel st = legLoop im calcWidth fuel st' := by
  cases fuel with
  | zero => rfl
  | succ fuel => rw [legLoop, legLoop, hbody, if_pos hin, if_pos (hi ▸ hin)]

/-- In any pass, an element that is taken back is read as its legend asks for just if the format is kept. -/
theorem reread_iff (im : Image) (calcWidth : Bool) (gdes : ℕ → Element) (legspace : ℕ → ℤ) {k : ℕ} {st st' : Pass}
    (hrounds : legRounds im calcWidth k (Pass.start im calcWidth gdes legspace) = some st) (hi : st.i < im.gdesC)
    (hbody : legBody im calcWidth st = .ok st') (hback : st'.i = st.i) :
    st'.AsRequested im calcWidth gdes ↔ KeepsFormat im (gdes st.i).legend := by
  obtain ⟨hinv, hunread⟩ := legRounds_inv hrounds (inv_start gdes legspace) (unread_start legspace)
  obtain ⟨r, h⟩ := takenBack hinv hunread hbody hback
  rw [← hback, ← h.visit_iff]
  constructor
  · exact fun hrequested => hrequested.visit
  · exact fun hvisit => ⟨hvisit, legLoop_congr rfl (hback ▸ hi) hvisit⟩

lemma exists_takenBack {im : Image} {calcWidth : Bool} {st₀ : Pass} (k j : ℕ) (hj : j < im.gdesC)
    (h : (legRounds im calcWidth k st₀).any fun st =>
      decide (st.i = j) && (legBody im calcWidth st).toOption.any fun st' => decide (st'.i = j)) :
    ∃ st st', legRounds im calcWidth k st₀ = some st ∧ st.i < im.gdesC ∧ legBody im calcWidth st = .ok st' ∧
      st'.i = st.i ∧ st.i = j := by
  obtain ⟨st, hrounds, hst⟩ := (Option.any_eq_true _ _).1 h
  obtain ⟨hi, hback⟩ := Bool.and_eq_true_iff.1 hst
  obtain rfl := of_decide_eq_true hi
  obtain ⟨st', hbody, hi'⟩ := (Option.any_eq_true _ _).1 hback
  cases hresult : legBody im calcWidth st with
  | error e =>
    rw [hresult] at hbody
    cases hbody
  | ok st₁ =>
    rw [hresult] at hbody
    cases hbody
    exact ⟨st, _, hrounds, hj, hresult, of_decide_eq_true hi', rfl⟩

/-- The third legend does not fit, and its `\.` is not missed. -/
theorem reread_iff_dot : ∃ st st',
    legRounds (monospaced 60 4) false 2 (Pass.start (monospaced 60 4) false
        (comments ["aa".toList, "bb".toList, "cc\\.".toList, "d".toList]) fun _ => 0) = some st ∧
      legBody (monospaced 60 4) false st = .ok st' ∧ st'.i = st.i ∧
      st'.AsRequested (monospaced 60 4) false (comments ["aa".toList, "bb".toList, "cc\\.".toList, "d".toList]) := by
  obtain ⟨st, st', hrounds, hi, hbody, hback, hj⟩ := @exists_takenBack (monospaced 60 4) false (Pass.start (monospaced 60 4)
    false (comments ["aa".toList, "bb".toList, "cc\\.".toList, "d".toList]) fun _ => 0) 2 2 (by decide) (by decide +kernel)
  refine ⟨st, st', hrounds, hbody, hback, (reread_iff _ _ _ _ hrounds hi hbody hback).2 ?_⟩
  rw [hj]
  intro r hr
  obtain rfl : r = ⟨"cc".toList, '\x00'⟩ := Except.ok.inj (hr.symm.trans (by rfl))
  exact ⟨by decide, fun hg => absurd hg (by decide)⟩

/-- If it ends in `\g` it is read without on the next line, and the space between the legends is there. -/
theorem reread_glued :
    ¬ ∀ (im : Image) (calcWidth : Bool) (gdes : ℕ → Element) (legspace : ℕ → ℤ) (k : ℕ) (st st' : Pass),
      legRounds im calcWidth k (Pass.start im calcWidth gdes legspace) = some st → st.i < im.gdesC →
        legBody im calcWidth st = .ok st' → st'.i = st.i → st'.AsRequested im calcWidth gdes := by
  intro h
  obtain ⟨st, st', hrounds, hi, hbody, hback, hj⟩ := @exists_takenBack (monospaced 60 4) false (Pass.start (monospaced 60 4)
    false (comments ["aa".toList, "bb".toList, "cc\\g".toList, "d".toList]) fun _ => 0) 2 2 (by decide) (by decide +kernel)
  obtain ⟨hinv, hunread⟩ := legRounds_inv hrounds (inv_start _ _) (unread_start _)
  obtain ⟨r, htaken⟩ := takenBack hinv hunread hbody hback
  have hkeeps := htaken.visit_iff.1 (h _ _ _ _ 2 st st' hrounds hi hbody hback).visit
  rw [hback, hj] at hkeeps
  exact absurd ((hkeeps ⟨"cc".toList, 'g'⟩ rfl).2 rfl) (by decide +kernel)

end Legend

end Rrdtool
