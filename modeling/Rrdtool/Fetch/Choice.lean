import Rrdtool.Fetch.Window
import Rrdtool.Lib.FirstBest

/-!
# The choice of the archive and the step

The search of `rrd_fetch_fn` keeps the first best archive (`FirstBest`): of those that reach back to
the start of the request the one whose step is nearest to the one asked for, otherwise the one that
covers most. Whether an archive is found does not depend on the step (`chooseRra_eq_none_iff`), and two
requests that differ in the step only are served from archives of different steps or from the same one
(`chooseRra_unique`).
-/

namespace Rrdtool

open FirstBest

/-- An archive that can serve the request: its index, the time it covers (not looked at when it reaches
back to the start) and its step. -/
structure Candidate where
  idx : ℕ
  covered : ℤ
  span : ℕ

/-- The order of the search, for the step that is asked for. -/
@[grind] def Candidate.Better (step : ℤ) (c c' : Candidate) : Prop :=
  c'.covered < c.covered ∨ (c'.covered = c.covered ∧ |step - c.span| < |step - c'.span|)

instance (step : ℤ) : DecidableRel (Candidate.Better step) := fun _ _ => instDecidableOr

section Search

variable (rrd : Rrd) (cf : Cf) (start stop : ℤ)

/-- `cal_start` of the archive. -/
def calStart (rra : RraDef) : ℤ :=
  ((rrd.lastUp - rrd.lastUp % (rra.pdpCnt * rrd.pdpStep) : ℕ) : ℤ) -
    (rra.pdpCnt * rra.rowCnt * rrd.pdpStep : ℕ)

/-- The archive, if it reaches back to the start. -/
@[grind] def fullCandidate (ir : ℕ × Rra) : Option Candidate :=
  if ir.2.rraDef.matches cf ∧ calStart rrd ir.2.rraDef ≤ start then
    some ⟨ir.1, 0, rrd.rowSpan ir.2.rraDef⟩
  else none

/-- The archive, if it does not. -/
@[grind] def partCandidate (ir : ℕ × Rra) : Option Candidate :=
  if ir.2.rraDef.matches cf ∧ start < calStart rrd ir.2.rraDef then
    some ⟨ir.1, (stop - start) - (calStart rrd ir.2.rraDef - start), rrd.rowSpan ir.2.rraDef⟩
  else none

/-- What the search keeps of the best candidates. -/
@[grind] def BestMatch.of (step : ℤ) (full part : Option Candidate) : BestMatch where
  full := full.map fun c => (c.idx, |step - c.span|)
  part := part.map fun c => (c.idx, c.covered, |step - c.span|)

end Search

variable {rrd : Rrd} {cf : Cf} {start stop : ℤ}

/-- One iteration looks at one of the two candidates. -/
lemma considerRra_eq (step : ℕ) {full part : Option Candidate} {ir : ℕ × Rra}
    (hfull : ∀ c ∈ full, c.covered = 0) :
    considerRra rrd cf start stop step (.of (s64 step) full part) ir =
      .of (s64 step) ((fullCandidate rrd cf start ir).elim full (pick (Candidate.Better (s64 step)) full))
        ((partCandidate rrd cf start stop ir).elim part (pick (Candidate.Better (s64 step)) part)) := by
  simp only [considerRra, fullCandidate, partCandidate]
  split
  · rename_i hm
    split
    · rename_i hle
      have hle : calStart rrd ir.2.rraDef ≤ start := hle
      rw [if_pos ⟨hm, hle⟩, if_neg fun h => absurd h.2 (not_lt.2 hle)]
      cases full with
      | none => rfl
      | some b =>
        have hcovered : b.covered = 0 := hfull b rfl
        simp only [BestMatch.of, Option.map_some, Option.elim_some, Option.elim_none, pick,
          Candidate.Better, Rrd.rowSpan, hcovered, lt_irrefl, true_and, false_or]
        split <;> rfl
    · rename_i hlt
      have hlt : ¬ calStart rrd ir.2.rraDef ≤ start := hlt
      rw [if_neg fun h => hlt h.2, if_pos ⟨hm, not_le.1 hlt⟩]
      cases part with
      | none => rfl
      | some b =>
        simp only [BestMatch.of, Option.map_some, Option.elim_some, Option.elim_none, pick]
        by_cases hbetter : Candidate.Better (s64 step)
          ⟨ir.1, (stop - start) - (calStart rrd ir.2.rraDef - start), rrd.rowSpan ir.2.rraDef⟩ b
        · rw [if_pos hbetter]
          exact if_pos hbetter
        · rw [if_neg hbetter]
          exact if_neg hbetter
  · rename_i hm
    rw [if_neg fun h => hm h.1, if_neg fun h => hm h.1]
    rfl

/-- The search is two searches at once. -/
lemma foldl_considerRra (step : ℕ) (l : List (ℕ × Rra)) {full part : Option Candidate}
    (hfull : ∀ c ∈ full, c.covered = 0) :
    l.foldl (considerRra rrd cf start stop step) (.of (s64 step) full part) =
      .of (s64 step) ((l.filterMap (fullCandidate rrd cf start)).foldl (pick (Candidate.Better (s64 step))) full)
        ((l.filterMap (partCandidate rrd cf start stop)).foldl (pick (Candidate.Better (s64 step))) part) := by
  induction l generalizing full part with
  | nil => rfl
  | cons ir l ih =>
    rw [List.foldl_cons, considerRra_eq step hfull, ih]
    · simp only [List.filterMap_cons]
      cases fullCandidate rrd cf start ir <;> cases partCandidate rrd cf start stop ir <;> rfl
    · intro c hc
      cases hcand : fullCandidate rrd cf start ir with
      | none =>
        rw [hcand] at hc
        exact hfull c hc
      | some c' =>
        have hc' : c'.covered = 0 := by
          unfold fullCandidate at hcand
          split at hcand
          · cases hcand
            rfl
          · cases hcand
        rw [hcand] at hc
        cases full with
        | none =>
          obtain rfl := Option.some.inj hc
          exact hc'
        | some b =>
          simp only [Option.elim_some, pick] at hc
          split at hc
          · obtain rfl := Option.some.inj hc
            exact hc'
          · obtain rfl := Option.some.inj hc
            exact hfull b rfl

/-! ### Requests that differ in the step only -/

lemma Candidate.Better.trans {step : ℤ} {a b c : Candidate} (hab : Candidate.Better step a b)
    (hbc : Candidate.Better step b c) : Candidate.Better step a c := by
  unfold Candidate.Better at *
  omega

lemma Candidate.Better.negtrans {step : ℤ} {a b c : Candidate} (hab : Candidate.Better step a b)
    (hcb : ¬ Candidate.Better step c b) : Candidate.Better step a c := by
  unfold Candidate.Better at *
  omega

/-- Between archives of one step the step that is asked for does not matter. -/
lemma Candidate.better_iff_of_span {step step' : ℤ} {a b : Candidate} (h : a.span = b.span) :
    Candidate.Better step a b ↔ Candidate.Better step' a b := by
  simp [Candidate.Better, h]

/-- Candidates in the order of the archives. -/
@[grind] def candidates (rrd : Rrd) (f : ℕ × Rra → Option Candidate) : List Candidate :=
  ((List.range rrd.rra.length).zip rrd.rra).filterMap f

/-- The best candidate of one of the two searches. -/
def bestOf (rrd : Rrd) (f : ℕ × Rra → Option Candidate) (step : ℕ) : Option Candidate :=
  (candidates rrd f).foldl (pick (Candidate.Better (s64 step))) none

lemma chooseRra_eq (step : ℕ) :
    chooseRra rrd cf start stop step =
      ((bestOf rrd (fullCandidate rrd cf start) step).or
        (bestOf rrd (partCandidate rrd cf start stop) step)).map Candidate.idx := by
  have hnone : ∀ c ∈ (none : Option Candidate), c.covered = 0 := by simp
  simp only [chooseRra, bestOf, candidates]
  rw [show (⟨none, none⟩ : BestMatch) = .of (s64 step) none none from rfl, foldl_considerRra step _ hnone]
  cases List.foldl (pick (Candidate.Better (s64 step))) none
      (List.filterMap (fullCandidate rrd cf start) ((List.range rrd.rra.length).zip rrd.rra)) <;>
    cases List.foldl (pick (Candidate.Better (s64 step))) none
      (List.filterMap (partCandidate rrd cf start stop) ((List.range rrd.rra.length).zip rrd.rra)) <;> rfl

lemma bestOf_eq_none {f : ℕ × Rra → Option Candidate} {step : ℕ} :
    bestOf rrd f step = none ↔ candidates rrd f = [] := foldl_pick_eq_none

lemma bestOf_wins {f : ℕ × Rra → Option Candidate} {step : ℕ} {c : Candidate}
    (h : bestOf rrd f step = some c) :
    ∃ before behind, Wins (Candidate.Better (s64 step)) (candidates rrd f) before c behind := by
  apply foldl_pick _ _ h
  · exact Candidate.Better.trans
  · exact Candidate.Better.negtrans

lemma bestOf_unique {f : ℕ × Rra → Option Candidate} {step step' : ℕ} {c c' : Candidate}
    (h : bestOf rrd f step = some c) (h' : bestOf rrd f step' = some c') (hspan : c.span = c'.span) :
    c = c' := by
  obtain ⟨_, _, win⟩ := bestOf_wins h
  obtain ⟨_, _, win'⟩ := bestOf_wins h'
  apply win.unique win'
  · exact Candidate.better_iff_of_span hspan
  · exact Candidate.better_iff_of_span hspan.symm

/-- A candidate is an archive with its index and step. -/
def Describes (rrd : Rrd) (f : ℕ × Rra → Option Candidate) : Prop :=
  ∀ ir c, f ir = some c → c.idx = ir.1 ∧ c.span = rrd.rowSpan ir.2.rraDef

lemma describes_full : Describes rrd (fullCandidate rrd cf start) := by
  intro ir c h
  unfold fullCandidate at h
  split at h
  · cases h
    exact ⟨rfl, rfl⟩
  · cases h

lemma describes_part : Describes rrd (partCandidate rrd cf start stop) := by
  intro ir c h
  unfold partCandidate at h
  split at h
  · cases h
    exact ⟨rfl, rfl⟩
  · cases h

lemma bestOf_span {f : ℕ × Rra → Option Candidate} {step : ℕ} {c : Candidate} {rra : Rra}
    (hf : Describes rrd f) (h : bestOf rrd f step = some c) (hrra : rrd.rra[c.idx]? = some rra) :
    c.span = rrd.rowSpan rra.rraDef := by
  obtain ⟨before, behind, win⟩ := bestOf_wins h
  have hmem : c ∈ candidates rrd f := by
    rw [win.split]
    exact List.mem_append_right before List.mem_cons_self
  obtain ⟨ir, hir, hc⟩ := List.mem_filterMap.1 hmem
  obtain ⟨hidx, hspan⟩ := hf ir c hc
  rw [hidx, getElem?_of_mem_zip hir] at hrra
  rw [hspan, Option.some.inj hrra]

lemma bestOf_isSome_iff {f : ℕ × Rra → Option Candidate} (step step' : ℕ) :
    bestOf rrd f step = none ↔ bestOf rrd f step' = none := by
  rw [bestOf_eq_none, bestOf_eq_none]

/-- Whether an archive is found does not depend on the step. -/
lemma chooseRra_eq_none_iff (step step' : ℕ) :
    chooseRra rrd cf start stop step = none ↔ chooseRra rrd cf start stop step' = none := by
  simp only [chooseRra_eq, Option.map_eq_none_iff, Option.or_eq_none_iff]
  rw [bestOf_isSome_iff step step', @bestOf_isSome_iff _ (partCandidate rrd cf start stop) step step']

/-- Requests for different steps are served from one archive, or from archives of different steps. -/
lemma chooseRra_unique {step step' i j : ℕ} {rra rra' : Rra}
    (hi : chooseRra rrd cf start stop step = some i) (hj : chooseRra rrd cf start stop step' = some j)
    (hrra : rrd.rra[i]? = some rra) (hrra' : rrd.rra[j]? = some rra')
    (hspan : rrd.rowSpan rra.rraDef = rrd.rowSpan rra'.rraDef) : i = j := by
  have key : ∀ {f : ℕ × Rra → Option Candidate} {c c' : Candidate}, Describes rrd f →
      bestOf rrd f step = some c → bestOf rrd f step' = some c' → c.idx = i → c'.idx = j → i = j := by
    rintro f c c' hf hc hc' rfl rfl
    rw [bestOf_unique hc hc' ?_]
    rw [bestOf_span hf hc hrra, bestOf_span hf hc' hrra', hspan]
  rw [chooseRra_eq, Option.map_eq_some_iff] at hi hj
  obtain ⟨c, hc, hidx⟩ := hi
  obtain ⟨c', hc', hidx'⟩ := hj
  -- either both searches find an archive that reaches back to the start, or none does
  cases hfull : bestOf rrd (fullCandidate rrd cf start) step with
  | some b =>
    cases hfull' : bestOf rrd (fullCandidate rrd cf start) step' with
    | some b' =>
      rw [hfull, Option.some_or] at hc
      rw [hfull', Option.some_or] at hc'
      obtain rfl := Option.some.inj hc
      obtain rfl := Option.some.inj hc'
      exact key describes_full hfull hfull' hidx hidx'
    | none =>
      rw [bestOf_isSome_iff step' step, hfull] at hfull'
      cases hfull'
  | none =>
    have hfull' := (bestOf_isSome_iff step step').1 hfull
    rw [hfull, Option.none_or] at hc
    rw [hfull', Option.none_or] at hc'
    exact key describes_part hc hc' hidx hidx'

/-! ### The best archive -/

/-- The archive at `i` can serve a request for `cf`. -/
def Eligible (rrd : Rrd) (cf : Cf) (i : ℕ) (rra : Rra) : Prop := rrd.rra[i]? = some rra ∧ rra.rraDef.matches cf

/-- `tmp_step_diff` of the archive. -/
@[grind] def stepDiff (rrd : Rrd) (step : ℕ) (rra : RraDef) : ℤ := |s64 step - rrd.rowSpan rra|

lemma mem_zip_range {i : ℕ} {rra : Rra} (h : rrd.rra[i]? = some rra) :
    (i, rra) ∈ (List.range rrd.rra.length).zip rrd.rra := by
  obtain ⟨hlt, -⟩ := List.getElem?_eq_some_iff.1 h
  refine List.mem_of_getElem? (List.getElem?_zip_eq_some.2 ⟨?_, h⟩)
  rw [List.getElem?_eq_getElem (by rw [List.length_range]; exact hlt), List.getElem_range]

lemma mem_candidates {f : ℕ × Rra → Option Candidate} {c : Candidate} :
    c ∈ candidates rrd f ↔ ∃ i rra, rrd.rra[i]? = some rra ∧ f (i, rra) = some c := by
  rw [candidates, List.mem_filterMap]
  constructor
  · rintro ⟨ir, hir, hc⟩
    exact ⟨ir.1, ir.2, getElem?_of_mem_zip hir, hc⟩
  · rintro ⟨i, rra, h, hc⟩
    exact ⟨(i, rra), mem_zip_range h, hc⟩

/-- The candidates stand in the order of the archives. -/
lemma candidates_sorted {f : ℕ × Rra → Option Candidate} (hf : Describes rrd f) :
    (candidates rrd f).Pairwise fun c c' => c.idx < c'.idx := by
  have hzip : ((List.range rrd.rra.length).zip rrd.rra).Pairwise fun ir ir' => ir.1 < ir'.1 := by
    rw [← List.pairwise_map, List.map_fst_zip (by rw [List.length_range])]
    exact List.pairwise_lt_range
  rw [candidates, List.pairwise_filterMap]
  refine hzip.imp fun hlt c hc c' hc' => ?_
  rw [(hf _ c hc).1, (hf _ c' hc').1]
  exact hlt

/-- The best candidate comes first in the order of the search and, among equals, in that of the archives. -/
lemma bestOf_le {f : ℕ × Rra → Option Candidate} {step : ℕ} {c c' : Candidate} (hf : Describes rrd f)
    (h : bestOf rrd f step = some c) (hc' : c' ∈ candidates rrd f) :
    toLex (-c.covered, toLex (|s64 step - c.span|, c.idx)) ≤
      toLex (-c'.covered, toLex (|s64 step - c'.span|, c'.idx)) := by
  obtain ⟨before, behind, win⟩ := bestOf_wins h
  rw [win.split] at hc'
  obtain hbefore | hrest := List.mem_append.1 hc'
  · have hbeats := win.beats c' hbefore
    simp only [Candidate.Better] at hbeats
    simp only [Prod.Lex.toLex_le_toLex]
    omega
  · obtain rfl | hbehind := List.mem_cons.1 hrest
    · exact le_rfl
    · have hunbeaten := win.unbeaten c' hbehind
      have hsorted := candidates_sorted hf
      rw [win.split] at hsorted
      have hidx := List.rel_of_pairwise_cons (List.pairwise_append.1 hsorted).2.1 hbehind
      simp only [Candidate.Better] at hunbeaten
      simp only [Prod.Lex.toLex_le_toLex]
      omega

lemma bestOf_mem {f : ℕ × Rra → Option Candidate} {step : ℕ} {c : Candidate} (h : bestOf rrd f step = some c) :
    c ∈ candidates rrd f := by
  obtain ⟨before, behind, win⟩ := bestOf_wins h
  rw [win.split]
  exact List.mem_append_right before List.mem_cons_self

lemma fullCandidate_eq_some {i : ℕ} {rra : Rra} {c : Candidate} :
    fullCandidate rrd cf start (i, rra) = some c ↔ rra.rraDef.matches cf ∧ calStart rrd rra.rraDef ≤ start ∧
      c = ⟨i, 0, rrd.rowSpan rra.rraDef⟩ := by
  rw [fullCandidate, Option.ite_none_right_eq_some, Option.some.injEq, and_assoc, @eq_comm _ c]

lemma partCandidate_eq_some {i : ℕ} {rra : Rra} {c : Candidate} :
    partCandidate rrd cf start stop (i, rra) = some c ↔ rra.rraDef.matches cf ∧ start < calStart rrd rra.rraDef ∧
      c = ⟨i, (stop - start) - (calStart rrd rra.rraDef - start), rrd.rowSpan rra.rraDef⟩ := by
  rw [partCandidate, Option.ite_none_right_eq_some, Option.some.injEq, and_assoc, @eq_comm _ c]

/-- A request fails if no archive can serve it. -/
lemma chooseRra_eq_none {step : ℕ} : chooseRra rrd cf start stop step = none ↔ ∀ i rra, ¬ Eligible rrd cf i rra := by
  rw [chooseRra_eq, Option.map_eq_none_iff, Option.or_eq_none_iff, bestOf_eq_none, bestOf_eq_none,
    List.eq_nil_iff_forall_not_mem, List.eq_nil_iff_forall_not_mem]
  constructor
  · rintro ⟨hfull, hpart⟩ i rra ⟨hi, hm⟩
    obtain hle | hlt := le_or_gt (calStart rrd rra.rraDef) start
    · exact hfull _ (mem_candidates.2 ⟨i, rra, hi, fullCandidate_eq_some.2 ⟨hm, hle, rfl⟩⟩)
    · exact hpart _ (mem_candidates.2 ⟨i, rra, hi, partCandidate_eq_some.2 ⟨hm, hlt, rfl⟩⟩)
  · intro hno
    constructor
    · intro c hc
      obtain ⟨i, rra, hi, hf⟩ := mem_candidates.1 hc
      exact hno i rra ⟨hi, (fullCandidate_eq_some.1 hf).1⟩
    · intro c hc
      obtain ⟨i, rra, hi, hf⟩ := mem_candidates.1 hc
      exact hno i rra ⟨hi, (partCandidate_eq_some.1 hf).1⟩

/-- The archive that a request is served from. -/
structure Optimal (rrd : Rrd) (cf : Cf) (start : ℤ) (step i : ℕ) (rra : Rra) : Prop where
  eligible : Eligible rrd cf i rra
  full : (∃ j r, Eligible rrd cf j r ∧ calStart rrd r.rraDef ≤ start) → calStart rrd rra.rraDef ≤ start ∧
    ∀ j r, Eligible rrd cf j r → calStart rrd r.rraDef ≤ start →
      toLex (stepDiff rrd step rra.rraDef, i) ≤ toLex (stepDiff rrd step r.rraDef, j)
  part : (∀ j r, Eligible rrd cf j r → start < calStart rrd r.rraDef) → ∀ j r, Eligible rrd cf j r →
    toLex (calStart rrd rra.rraDef, toLex (stepDiff rrd step rra.rraDef, i)) ≤
      toLex (calStart rrd r.rraDef, toLex (stepDiff rrd step r.rraDef, j))

lemma chooseRra_optimal {step i : ℕ} (h : chooseRra rrd cf start stop step = some i) :
    ∃ rra, Optimal rrd cf start step i rra := by
  rw [chooseRra_eq, Option.map_eq_some_iff] at h
  obtain ⟨c, hc, rfl⟩ := h
  cases hfull : bestOf rrd (fullCandidate rrd cf start) step with
  | some b =>
    rw [hfull, Option.some_or] at hc
    obtain rfl := Option.some.inj hc
    obtain ⟨i, rra, hi, hf⟩ := mem_candidates.1 (bestOf_mem hfull)
    obtain ⟨hm, hle, rfl⟩ := fullCandidate_eq_some.1 hf
    refine ⟨rra, ⟨hi, hm⟩, fun _ => ⟨hle, fun j r hj hle' => ?_⟩, fun hlate => ?_⟩
    · have := bestOf_le describes_full hfull
        (mem_candidates.2 ⟨j, r, hj.1, fullCandidate_eq_some.2 ⟨hj.2, hle', rfl⟩⟩)
      simpa only [stepDiff, Prod.Lex.toLex_le_toLex, lt_irrefl, true_and, false_or] using this
    · exact absurd hle (not_le.2 (hlate i rra ⟨hi, hm⟩))
  | none =>
    rw [hfull, Option.none_or] at hc
    have hnone := bestOf_eq_none.1 hfull
    obtain ⟨i, rra, hi, hf⟩ := mem_candidates.1 (bestOf_mem hc)
    obtain ⟨hm, hlt, rfl⟩ := partCandidate_eq_some.1 hf
    refine ⟨rra, ⟨hi, hm⟩, ?_, fun hlate j r hj => ?_⟩
    · rintro ⟨j, r, hj, hle⟩
      have := mem_candidates.2 ⟨j, r, hj.1, fullCandidate_eq_some.2 ⟨hj.2, hle, rfl⟩⟩
      rw [hnone] at this
      exact absurd this List.not_mem_nil
    · have := bestOf_le describes_part hc
        (mem_candidates.2 ⟨j, r, hj.1, partCandidate_eq_some.2 ⟨hj.2, hlate j r hj, rfl⟩⟩)
      simp only [Prod.Lex.toLex_le_toLex, stepDiff] at this ⊢
      omega

/-- The seconds of the request that lie in the window of the archive. -/
def coverage (rrd : Rrd) (start stop : ℤ) (rra : RraDef) : ℤ :=
  max 0 (min stop (rrd.lastUp - rrd.lastUp % (rra.pdpCnt * rrd.pdpStep) : ℕ) - max start (calStart rrd rra))

/-- An archive of seven rows of 10 seconds, and one of a single row of 60. -/
def unevenHeader : Header where
  version := 3
  pdpStep := 10
  lastUp := 1000
  ds := [gaugeDs ['a'] 600]
  rra := [plainRra .average 7 1 (1 / 2), plainRra .average 1 6 (1 / 2)]
  pdpStep_pos := tenSeconds_pos
  lastUp_lt := thousand_lt
  valid r hr := by
    obtain rfl | hr := List.mem_cons.1 hr
    · exact ⟨by decide, by decide, by decide, fun _ => ⟨1 / 2, rfl, by norm_num, by norm_num⟩⟩
    · rw [List.mem_singleton.1 hr]
      exact ⟨by decide, by decide, by decide, fun _ => ⟨1 / 2, rfl, by norm_num, by norm_num⟩⟩

end Rrdtool
