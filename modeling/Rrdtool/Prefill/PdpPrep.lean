import Rrdtool.Prefill

/-!
# The unknown seconds of a prefilled data source

The state machine of the updates keeps `unkn_sec_cnt` of a data source at most `last_up % pdp_step`
(`MemRrd.UnknownWithin`). `prefill_pdp_prep` copies the count of the first source that matches (`chosenSource`), with the
step and the time of the source, and cuts it down under a test that reads the count as a `double`. `Fits` says which
counts come out within the bound; over all calls the invariant is kept if and only if the chosen counts fit
(`prefillPdpPreps_within_iff`).
-/

namespace Rrdtool

/-- No data source has more unknown seconds than the step that `last_up` is in has begun. -/
def MemRrd.UnknownWithin (rrd : MemRrd) : Prop := ∀ d ∈ rrd.ds, d.pdpPrep.unknSecCnt ≤ rrd.lastUp % rrd.pdpStep

/-- The candidate that the loop of `prefill_pdp_prep` copies from. -/
@[grind] def chooseCandidate (rrd : MemRrd) (d : DataSource) : Option ℕ → List SourceCandidate → Option SourceCandidate
  | _, [] => none
  | srrd, c :: cs =>
    if srrd = some c.source then chooseCandidate rrd d srrd cs
    else if c.matchesPdp rrd d then some c
    else chooseCandidate rrd d (some c.source) cs

/-- The candidate that the data source `l` is filled from, over all calls. -/
@[grind] def chosenSource (rrd : MemRrd) (l : ℕ) (calls : List (ℕ × List SourceCandidate)) : Option SourceCandidate :=
  match rrd.ds[l]? with
  | none => none
  | some d =>
    if d.pdpPrep.lastDs ≠ ['U'] then none
    else calls.findSome? fun call => if call.1 = l then chooseCandidate rrd d none call.2 else none

/-- The count of the candidate is within the bound of the target. When its bits, read as a `double`, are more than a step,
it is replaced: then the step of the source must not be 2 or more below that number. -/
@[grind] def Fits (rrd : MemRrd) (c : SourceCandidate) : Prop :=
  if .fin (rrd.pdpStep : ℚ) < Binary64.value c.ds.pdpPrep.unknSecCnt then
    ∃ q, Binary64.value c.ds.pdpPrep.unknSecCnt = .fin q ∧ -2 < c.rrd.pdpStep - q ∧ c.rrd.pdpStep - q < 2 ^ 63
  else c.ds.pdpPrep.unknSecCnt ≤ rrd.lastUp % rrd.pdpStep

variable {rrd rrd' : MemRrd} {d : DataSource} {l : ℕ} {c : SourceCandidate} {cs : List SourceCandidate}
  {calls : List (ℕ × List SourceCandidate)}

/-! ### One candidate -/

lemma pdpBeginTime_eq (rrd : MemRrd) : rrd.lastUp - pdpBeginTime rrd = (rrd.lastUp % rrd.pdpStep : ℕ) - 1 := by
  have h := Int.emod_add_mul_ediv (rrd.lastUp : ℤ) rrd.pdpStep
  rw [pdpBeginTime]
  push_cast
  linarith [mul_comm (rrd.pdpStep : ℤ) (rrd.lastUp / rrd.pdpStep)]

/-- The `long` is at least -1 when the number was above -2. -/
lemma truncLong_fin (q : ℚ) : (∃ z, truncLong (.fin q) = some z ∧ -1 ≤ z) ↔ -2 < q ∧ q < 2 ^ 63 := by
  unfold truncLong
  dsimp only
  by_cases hq : q < 0
  · have hceil : ⌈q⌉ ≤ 0 := Int.ceil_le.2 (by exact_mod_cast hq.le)
    have hlow : -2 < ⌈q⌉ ↔ -2 < q := by
      rw [Int.lt_ceil]
      norm_num
    rw [if_pos hq, and_iff_left (hq.trans (by norm_num)), ← hlow]
    constructor
    · rintro ⟨z, hz, hle⟩
      split_ifs at hz
      obtain rfl := Option.some.inj hz
      omega
    · intro h
      exact ⟨⌈q⌉, if_pos ⟨by omega, by omega⟩, by omega⟩
  · have hfloor : 0 ≤ ⌊q⌋ := Int.floor_nonneg.2 (not_lt.1 hq)
    have hhigh : ⌊q⌋ < 2 ^ 63 ↔ q < 2 ^ 63 := by
      rw [Int.floor_lt]
      norm_num
    rw [if_neg hq]
    constructor
    · rintro ⟨z, hz, -⟩
      split_ifs at hz with hfits
      exact ⟨by linarith, hhigh.1 hfits.2⟩
    · rintro ⟨-, h⟩
      exact ⟨⌊q⌋, if_pos ⟨by omega, hhigh.2 h⟩, by omega⟩

lemma copyPdpPrep_within_iff :
    (∃ p, copyPdpPrep rrd c.rrd c.ds.pdpPrep = some p ∧ p.unknSecCnt ≤ rrd.lastUp % rrd.pdpStep) ↔ Fits rrd c := by
  unfold copyPdpPrep Fits
  dsimp only
  split_ifs with hlt
  · rw [pdpBeginTime_eq]
    cases hval : Binary64.value c.ds.pdpPrep.unknSecCnt with
    | fin q =>
      rw [ExtNum.fin_sub_fin]
      -- what is left of the step is one less than the bound, so -1 known seconds are the least that fit
      have hcut : (∃ p, (do
            let sourceKnown ← truncLong (.fin ((c.rrd.pdpStep : ℚ) - q))
            some { c.ds.pdpPrep with
              unknSecCnt := (max 0 (((rrd.lastUp % rrd.pdpStep : ℕ) : ℤ) - 1 - sourceKnown)).toNat }) = some p ∧
            p.unknSecCnt ≤ rrd.lastUp % rrd.pdpStep) ↔
          ∃ z, truncLong (.fin ((c.rrd.pdpStep : ℚ) - q)) = some z ∧ -1 ≤ z := by
        constructor
        · rintro ⟨p, hp, hle⟩
          obtain ⟨z, hz, hp⟩ := Option.bind_eq_some_iff.1 hp
          obtain rfl := Option.some.inj hp
          refine ⟨z, hz, ?_⟩
          dsimp only at hle
          omega
        · rintro ⟨z, hz, hle⟩
          rw [hz]
          exact ⟨_, rfl, by dsimp only; omega⟩
      rw [hcut, truncLong_fin]
      exact ⟨fun h => ⟨q, rfl, h⟩, fun ⟨q', hq', h⟩ => by cases hq'; exact h⟩
    | nan => exact absurd hlt (by rw [hval]; exact ExtNum.not_lt_nan _)
    | ninf => exact absurd hlt (by rw [hval]; exact ExtNum.not_lt_ninf _)
    | pinf =>
      refine iff_of_false ?_ fun ⟨q, hq, _⟩ => by cases hq
      rintro ⟨p, hp, -⟩
      cases hp
  · exact ⟨fun ⟨p, hp, h⟩ => Option.some.inj hp ▸ h, fun h => ⟨_, rfl, h⟩⟩

/-! ### One call -/

lemma prefillPdpLoop_eq (srrd : Option ℕ) :
    prefillPdpLoop rrd d srrd cs =
      (chooseCandidate rrd d srrd cs).elim (some d.pdpPrep) fun c => copyPdpPrep rrd c.rrd c.ds.pdpPrep := by
  induction cs generalizing srrd with
  | nil => rfl
  | cons c cs ih =>
    rw [prefillPdpLoop, chooseCandidate]
    split_ifs with hsame hmatch
    · exact ih srrd
    · rfl
    · exact ih (some c.source)

/-- A chosen candidate matches. -/
lemma chooseCandidate_matches {srrd : Option ℕ} (h : chooseCandidate rrd d srrd cs = some c) :
    c.matchesPdp rrd d = true := by
  induction cs generalizing srrd with
  | nil => cases h
  | cons c' cs ih =>
    rw [chooseCandidate] at h
    split_ifs at h with hsame hmatch
    · exact ih h
    · obtain rfl := Option.some.inj h
      exact hmatch
    · exact ih h

/-- The choice looks at the times, the step and the type only. -/
lemma chooseCandidate_congr {d' : DataSource} {srrd : Option ℕ} (hup : rrd'.lastUp = rrd.lastUp)
    (hstep : rrd'.pdpStep = rrd.pdpStep) (hdst : d'.dsDef = d.dsDef) :
    chooseCandidate rrd' d' srrd cs = chooseCandidate rrd d srrd cs := by
  have hbegin : pdpBeginTime rrd' = pdpBeginTime rrd := by rw [pdpBeginTime, pdpBeginTime, hup, hstep]
  have hend : pdpEndTime rrd' = pdpEndTime rrd := by rw [pdpEndTime, pdpEndTime, hbegin, hstep]
  have hmatch : ∀ c : SourceCandidate, c.matchesPdp rrd' d' = c.matchesPdp rrd d := fun c => by
    rw [SourceCandidate.matchesPdp, SourceCandidate.matchesPdp, hbegin, hend, hdst]
  induction cs generalizing srrd with
  | nil => rfl
  | cons c cs ih => rw [chooseCandidate, chooseCandidate, hmatch, ih, ih]

/-- What a call does: nothing, or it copies from the candidate that it chooses. -/
lemma prefillPdpPrep_cases (rrd : MemRrd) (l : ℕ) (cs : List SourceCandidate) :
    chosenSource rrd l [(l, cs)] = none ∧ prefillPdpPrep rrd l cs = some rrd ∨
    ∃ d c, rrd.ds[l]? = some d ∧ d.pdpPrep.lastDs = ['U'] ∧ chooseCandidate rrd d none cs = some c ∧
      chosenSource rrd l [(l, cs)] = some c ∧
      prefillPdpPrep rrd l cs = (copyPdpPrep rrd c.rrd c.ds.pdpPrep).map fun p =>
        { rrd with ds := rrd.ds.set l { d with pdpPrep := p } } := by
  unfold prefillPdpPrep chosenSource
  cases hd : rrd.ds[l]? with
  | none => exact .inl ⟨rfl, rfl⟩
  | some d =>
    dsimp only
    by_cases hu : d.pdpPrep.lastDs ≠ ['U']
    · exact .inl ⟨if_pos hu, if_pos hu⟩
    · rw [if_neg hu, if_neg hu, prefillPdpLoop_eq, List.findSome?_singleton, if_pos rfl]
      cases hc : chooseCandidate rrd d none cs with
      | none =>
        refine .inl ⟨rfl, ?_⟩
        obtain ⟨hl, rfl⟩ := List.getElem?_eq_some_iff.1 hd
        show some { rrd with ds := rrd.ds.set l rrd.ds[l] } = some rrd
        rw [List.set_getElem_self]
      | some c => exact .inr ⟨d, c, rfl, not_not.1 hu, hc, rfl, rfl⟩

/-- A copied area has a last value. -/
lemma copyPdpPrep_lastDs {p : PdpPrep} (h : copyPdpPrep rrd c.rrd c.ds.pdpPrep = some p) :
    p.lastDs = c.ds.pdpPrep.lastDs := by
  unfold copyPdpPrep at h
  dsimp only at h
  split_ifs at h
  · obtain ⟨z, -, hp⟩ := Option.bind_eq_some_iff.1 h
    exact Option.some.inj hp ▸ rfl
  · exact Option.some.inj h ▸ rfl

/-! ### All calls -/

/-- A data source with a last value is left as it is. -/
lemma prefillPdpPreps_keeps (h : prefillPdpPreps rrd calls = some rrd') (hd : rrd.ds[l]? = some d)
    (hu : d.pdpPrep.lastDs ≠ ['U']) : rrd'.ds[l]? = some d := by
  induction calls generalizing rrd with
  | nil => exact Option.some.inj h ▸ hd
  | cons call calls ih =>
    obtain ⟨l', cs⟩ := call
    obtain ⟨mid, hmid, hrest⟩ := Option.bind_eq_some_iff.1 h
    rcases prefillPdpPrep_cases rrd l' cs with ⟨-, hsame⟩ | ⟨d', c, hd', hu', -, -, hcopy⟩
    · rw [hsame] at hmid
      obtain rfl := Option.some.inj hmid
      exact ih hrest hd
    · rw [hcopy] at hmid
      obtain ⟨p, -, rfl⟩ := Option.map_eq_some_iff.1 hmid
      have hne : l' ≠ l := by
        rintro rfl
        rw [hd] at hd'
        obtain rfl := Option.some.inj hd'
        exact hu hu'
      exact ih hrest (by rwa [List.getElem?_set_ne hne])

/-- The calls keep the times. -/
lemma prefillPdpPreps_times (h : prefillPdpPreps rrd calls = some rrd') :
    rrd'.lastUp = rrd.lastUp ∧ rrd'.pdpStep = rrd.pdpStep := by
  induction calls generalizing rrd with
  | nil => exact Option.some.inj h ▸ ⟨rfl, rfl⟩
  | cons call calls ih =>
    obtain ⟨l', cs⟩ := call
    obtain ⟨mid, hmid, hrest⟩ := Option.bind_eq_some_iff.1 h
    rcases prefillPdpPrep_cases rrd l' cs with ⟨-, hsame⟩ | ⟨d', c, -, -, -, -, hcopy⟩
    · rw [hsame] at hmid
      obtain rfl := Option.some.inj hmid
      exact ih hrest
    · rw [hcopy] at hmid
      obtain ⟨p, -, rfl⟩ := Option.map_eq_some_iff.1 hmid
      have htimes := ih hrest
      exact htimes

/-- What the first call leaves to be chosen for. -/
lemma chosenSource_cons (rrd rrd' : MemRrd) (hu : rrd'.lastUp = rrd.lastUp) (hs : rrd'.pdpStep = rrd.pdpStep) {l' : ℕ}
    (hd : rrd'.ds[l]? = rrd.ds[l]?) (hfirst : l' ≠ l ∨ chosenSource rrd l [(l', cs)] = none) :
    chosenSource rrd l ((l', cs) :: calls) = chosenSource rrd' l calls := by
  unfold chosenSource at hfirst ⊢
  rw [hd]
  cases hdl : rrd.ds[l]? with
  | none => rfl
  | some d =>
    rw [hdl] at hfirst
    dsimp only at hfirst ⊢
    split_ifs with hknown
    · rfl
    · have hcongr : (fun call : ℕ × List SourceCandidate =>
          if call.1 = l then chooseCandidate rrd' d none call.2 else none) =
          fun call => if call.1 = l then chooseCandidate rrd d none call.2 else none := by
        funext call
        rw [chooseCandidate_congr hu hs rfl]
      rw [hcongr, List.findSome?_cons]
      by_cases hl : l' = l
      · rw [if_neg hknown, List.findSome?_singleton, if_pos hl] at hfirst
        rw [if_pos hl, hfirst.resolve_left (not_not.2 hl)]
      · rw [if_neg hl]

lemma chosenSource_head {call : ℕ × List SourceCandidate} (h : chosenSource rrd l [call] = some c) :
    chosenSource rrd l (call :: calls) = some c := by
  unfold chosenSource at h ⊢
  cases hd : rrd.ds[l]? with
  | none => rw [hd] at h; cases h
  | some d =>
    rw [hd] at h
    dsimp only at h ⊢
    split_ifs at h ⊢ with hu
    rw [List.findSome?_singleton] at h
    rw [List.findSome?_cons, h]

/-- A data source with a last value is not filled. -/
lemma chosenSource_known (hd : rrd.ds[l]? = some d) (hu : d.pdpPrep.lastDs ≠ ['U']) :
    chosenSource rrd l calls = none := by
  unfold chosenSource
  rw [hd]
  exact if_pos hu

/-- After the calls no data source has more unknown seconds than its step has begun, if and only if every count that was
copied fits. -/
theorem prefillPdpPreps_within_iff {rrd : MemRrd} {calls : List (ℕ × List SourceCandidate)} (h : rrd.UnknownWithin) :
    (∃ rrd', prefillPdpPreps rrd calls = some rrd' ∧ rrd'.UnknownWithin) ↔
      ∀ l c, chosenSource rrd l calls = some c → Fits rrd c := by
  induction calls generalizing rrd with
  | nil =>
    refine iff_of_true ⟨rrd, rfl, h⟩ fun l c hc => ?_
    unfold chosenSource at hc
    split at hc
    · cases hc
    · rw [List.findSome?_nil, ite_self] at hc
      cases hc
  | cons call calls ih =>
    obtain ⟨l, cs⟩ := call
    rw [prefillPdpPreps]
    rcases prefillPdpPrep_cases rrd l cs with ⟨hnone, hsame⟩ | ⟨d, c, hd, hu, hchoose, hchosen, hcopy⟩
    · rw [hsame]
      show (∃ rrd', prefillPdpPreps rrd calls = some rrd' ∧ _) ↔ _
      rw [ih h]
      refine forall_congr' fun l' => ?_
      rw [chosenSource_cons rrd rrd rfl rfl rfl]
      by_cases hl : l = l'
      · exact .inr (hl ▸ hnone)
      · exact .inl hl
    · have hl : l < rrd.ds.length := (List.getElem?_eq_some_iff.1 hd).1
      have hmatch := chooseCandidate_matches hchoose
      have hknown : ∀ p, copyPdpPrep rrd c.rrd c.ds.pdpPrep = some p → p.lastDs ≠ ['U'] := fun p hp => by
        rw [copyPdpPrep_lastDs hp]
        simp only [SourceCandidate.matchesPdp, Bool.and_eq_true, decide_eq_true_eq] at hmatch
        exact hmatch.1.1.1
      have hset : ∀ p, ({ rrd with ds := rrd.ds.set l { d with pdpPrep := p } } : MemRrd).ds[l]? =
          some { d with pdpPrep := p } := fun p => List.getElem?_set_self hl
      rw [hcopy]
      by_cases hfit : Fits rrd c
      · -- the data source is done, and the others are as before
        obtain ⟨p, hp, hle⟩ := copyPdpPrep_within_iff.2 hfit
        rw [hp]
        show (∃ rrd', prefillPdpPreps { rrd with ds := rrd.ds.set l { d with pdpPrep := p } } calls = some rrd' ∧ _) ↔ _
        have hwithin : ({ rrd with ds := rrd.ds.set l { d with pdpPrep := p } } : MemRrd).UnknownWithin := fun e he => by
          rcases List.mem_or_eq_of_mem_set he with he | rfl
          · exact h e he
          · exact hle
        rw [ih hwithin]
        refine forall_congr' fun l' => ?_
        by_cases hll : l = l'
        · subst hll
          rw [chosenSource_known (hset p) (hknown p hp), chosenSource_head hchosen]
          exact iff_of_true (fun c' hc' => by cases hc') fun c' hc' => Option.some.inj hc' ▸ hfit
        · have hrest : chosenSource rrd l' ((l, cs) :: calls) =
              chosenSource { rrd with ds := rrd.ds.set l { d with pdpPrep := p } } l' calls :=
            chosenSource_cons rrd { rrd with ds := rrd.ds.set l { d with pdpPrep := p } } rfl rfl
              (List.getElem?_set_ne hll) (.inl hll)
          rw [hrest]
          rfl
      · refine iff_of_false ?_ fun hall => hfit (hall l c (chosenSource_head hchosen))
        rintro ⟨rrd', hrun, hwithin⟩
        obtain ⟨mid, hmid, hrest⟩ := Option.bind_eq_some_iff.1 hrun
        obtain ⟨p, hp, rfl⟩ := Option.map_eq_some_iff.1 hmid
        have hkept := prefillPdpPreps_keeps hrest (hset p) (hknown p hp)
        obtain ⟨hup, hstep⟩ := prefillPdpPreps_times hrest
        have hle := hwithin _ (List.mem_of_getElem? hkept)
        rw [hup, hstep] at hle
        exact hfit (copyPdpPrep_within_iff.1 ⟨p, hp, hle⟩)

/-- A count below `2 ^ 52` is never replaced. -/
lemma fits_iff_of_lt (hcount : c.ds.pdpPrep.unknSecCnt < 2 ^ 52) (hstep : 0 < rrd.pdpStep) :
    Fits rrd c ↔ c.ds.pdpPrep.unknSecCnt ≤ rrd.lastUp % rrd.pdpStep := by
  rw [Fits, if_neg (Binary64.not_lt_value_of_lt hcount (by exact_mod_cast hstep))]

/-- A database of one `GAUGE` and one archive. -/
def gaugeRrd (lastUp : ℕ) (p : PdpPrep) : MemRrd where
  version := 3
  pdpStep := 300
  lastUp := lastUp
  lastUpUsec := 0
  ds := [⟨gaugeDs ['a'] 600, p⟩]
  rra := [⟨plainRra .average 5 1 (1 / 2), [CdpPrep.zero], 0⟩]
  rrdValue := fun _ => .nan

/-- Its only candidate: 150 seconds before `lastUp` were unknown. -/
def gaugeSource (lastUp : ℕ) : SourceCandidate where
  source := 0
  rrd := gaugeRrd lastUp ⟨['5'], 150, .nan⟩
  rraIndex := ⟨0, Nat.one_pos⟩
  l := ⟨0, Nat.one_pos⟩

lemma unknownWithin_reset (lastUp : ℕ) : (gaugeRrd lastUp (resetPdpPrep lastUp 300)).UnknownWithin := fun d hd => by
  obtain rfl := List.mem_singleton.1 hd
  exact le_rfl

/-- A source that was updated later in the same step, and one call. -/
theorem prefillPdpPreps_within_iff_gauge :
    (∃ rrd', prefillPdpPreps (gaugeRrd 3010 (resetPdpPrep 3010 300)) [(0, [gaugeSource 3200])] = some rrd' ∧
      rrd'.UnknownWithin) ↔
    ∀ l c, chosenSource (gaugeRrd 3010 (resetPdpPrep 3010 300)) l [(0, [gaugeSource 3200])] = some c →
      Fits (gaugeRrd 3010 (resetPdpPrep 3010 300)) c :=
  prefillPdpPreps_within_iff (unknownWithin_reset 3010)

/-- Its 150 unknown seconds are copied, while the step of the target has begun 10 seconds ago. -/
theorem prefillPdpPreps_copies_count :
    ¬∀ (rrd : MemRrd) (calls : List (ℕ × List SourceCandidate)), rrd.UnknownWithin →
      ∃ rrd', prefillPdpPreps rrd calls = some rrd' ∧ rrd'.UnknownWithin := by
  intro h
  obtain ⟨rrd', hrun, hwithin⟩ := h _ [(0, [gaugeSource 3200])] (unknownWithin_reset 3010)
  obtain ⟨mid, hmid, hrest⟩ := Option.bind_eq_some_iff.1 hrun
  have hcall : prefillPdpPrep (gaugeRrd 3010 (resetPdpPrep 3010 300)) 0 [gaugeSource 3200] =
      (copyPdpPrep (gaugeRrd 3010 (resetPdpPrep 3010 300)) (gaugeSource 3200).rrd ⟨['5'], 150, .nan⟩).map fun p =>
        gaugeRrd 3010 p := rfl
  have hcopy : copyPdpPrep (gaugeRrd 3010 (resetPdpPrep 3010 300)) (gaugeSource 3200).rrd ⟨['5'], 150, .nan⟩ =
      some ⟨['5'], 150, .nan⟩ := by
    rw [copyPdpPrep, if_neg]
    exact Binary64.not_lt_value_of_lt (by norm_num) (by norm_num [gaugeRrd])
  rw [hcall, hcopy] at hmid
  obtain rfl := Option.some.inj hmid
  obtain rfl := Option.some.inj hrest
  exact absurd (hwithin _ List.mem_cons_self) (by decide)

end Rrdtool
