import Rrdtool.Update.Process
import Rrdtool.Lib.Pointwise

/-!
# What a pass and an update do

The spec lemmas of `src/rrd_update.c`'s upper half, on which every later result rests; nothing after
this module unfolds `consolidate`, `closePdps`, `applyPdpNew` or `processArg`.

`PassSpec` says what one pass does to one archive: its definition stays, its pointer advances by
`rra_step_cnt`, and unless the archive is seasonal, the rows pushed are the primary row followed by
copies of the secondary row. `closePdps_some`, `applyPdpNew_some` and `processArg_ok` invert the
functions on success, `processArg_error` on failure.
-/

namespace Rrdtool

open List

/-! ### The rows of one archive -/

/-- The rows written from the preparation areas: the primary row, then the secondary one again and
again. -/
@[grind] def rraRows (cdp : List CdpPrep) : ℕ → List Row
  | 0 => []
  | n + 1 => cdp.map (·.primaryVal) :: List.replicate n (cdp.map (·.secondaryVal))

@[simp] lemma rraRows_length (cdp : List CdpPrep) (n : ℕ) : (rraRows cdp n).length = n := by
  cases n <;> simp [rraRows]

/-- What `write_to_rras` leaves alone, and how far the pointer moves. -/
lemma writeRraRows_keeps {stepTime time skip n k sub rra} :
    (writeRraRows stepTime time skip n k sub rra).1.rraDef = rra.rraDef ∧
      (writeRraRows stepTime time skip n k sub rra).1.cdpPrep = rra.cdpPrep ∧
      (writeRraRows stepTime time skip n k sub rra).1.ring.cur =
        (RingBuf.next rra.rraDef.rowCnt)^[n] rra.ring.cur := by
  induction n generalizing k sub rra with
  | zero => exact ⟨rfl, rfl, rfl⟩
  | succ n ih =>
    obtain ⟨hdef, hcdp, hcur⟩ := @ih .secondary 2
      { rra with ring := if skip then rra.ring.skip rra.rraDef.rowCnt
          else rra.ring.push rra.rraDef.rowCnt (rra.cdpPrep.map (·.get k)) }
    refine ⟨hdef, hcdp, ?_⟩
    rw [Function.iterate_succ_apply]
    refine Eq.trans hcur ?_
    cases skip <;> rfl

lemma writeRraRows_secondary {stepTime time n sub rra} :
    (writeRraRows stepTime time false n .secondary sub rra).1.ring =
        rra.ring.pushAll rra.rraDef.rowCnt (List.replicate n (rra.cdpPrep.map (·.secondaryVal))) ∧
      (writeRraRows stepTime time false n .secondary sub rra).2.map (·.row) =
        List.replicate n (rra.cdpPrep.map (·.secondaryVal)) := by
  induction n generalizing sub rra with
  | zero => exact ⟨rfl, rfl⟩
  | succ n ih =>
    obtain ⟨hring, hrows⟩ := @ih 2
      { rra with ring := rra.ring.push rra.rraDef.rowCnt (rra.cdpPrep.map (·.secondaryVal)) }
    exact ⟨hring, congrArg (_ :: ·) hrows⟩

/-- The rows that `write_to_rras` stores in an archive that is not skipped. -/
lemma writeRraRows_rows {stepTime time n rra} :
    (writeRraRows stepTime time false n .primary 1 rra).1.ring =
        rra.ring.pushAll rra.rraDef.rowCnt (rraRows rra.cdpPrep n) ∧
      (writeRraRows stepTime time false n .primary 1 rra).2.map (·.row) = rraRows rra.cdpPrep n := by
  cases n with
  | zero => exact ⟨rfl, rfl⟩
  | succ n =>
    obtain ⟨hring, hrows⟩ := @writeRraRows_secondary stepTime time n 2
      { rra with ring := rra.ring.push rra.rraDef.rowCnt (rra.cdpPrep.map (·.primaryVal)) }
    exact ⟨hring, congrArg (_ :: ·) hrows⟩

/-! ### The preparation of the archives -/

/-- The archive as it was, but for the contents of its preparation areas. -/
structure Rra.Keeps (rra rra' : Rra) : Prop where
  rraDef : rra'.rraDef = rra.rraDef
  ring : rra'.ring = rra.ring
  length : rra'.cdpPrep.length = rra.cdpPrep.length

lemma Rra.Keeps.refl (rra : Rra) : rra.Keeps rra := ⟨rfl, rfl, rfl⟩

lemma doScheduleSmooth_keeps (rra : Rra) (elapsed : ℕ) :
    rra.Keeps (doScheduleSmooth rra elapsed).1 := by
  simp only [doScheduleSmooth]
  split
  · exact .refl rra
  · split
    · exact ⟨rfl, rfl, by simp⟩
    · exact .refl rra

/-- What `update_all_cdp_prep` does to one archive. -/
structure PrepareSpec (elapsed procPdpCnt : ℕ) (temps : List RrdValue) (rra rra' : Rra)
    (pass : RraPass) : Prop extends rra.Keeps rra' where
  stepCnt : pass.stepCnt = rraStepCnt rra.rraDef elapsed procPdpCnt
  skipUpdate : ¬ rra.rraDef.cf.isSeasonal → pass.skipUpdate = false
  cdpPrep : ¬ rra.rraDef.cf.isSeasonal → 1 < rra.rraDef.pdpCnt →
    rra'.cdpPrep = rra.cdpPrep.mapIdx fun d c =>
      updateCdp rra.rraDef.cf c (temps.getD d .nan) (rraStepCnt rra.rraDef elapsed procPdpCnt)
        elapsed (startPdpOffset rra.rraDef.pdpCnt procPdpCnt) rra.rraDef.pdpCnt rra.rraDef.xff

lemma updateRraCdpPrep_spec (elapsed procPdpCnt : ℕ) (temps : List RrdValue) (s : SeasonalCoef)
    (rra : Rra) :
    PrepareSpec elapsed procPdpCnt temps rra (updateRraCdpPrep elapsed procPdpCnt temps s rra).1
      (updateRraCdpPrep elapsed procPdpCnt temps s rra).2.1 := by
  unfold updateRraCdpPrep
  split
  · rename_i seasonal
    obtain ⟨hdef, hring, hlen⟩ := doScheduleSmooth_keeps rra elapsed
    refine ⟨⟨hdef, hring, ?_⟩, rfl, fun h => absurd seasonal h, fun h => absurd seasonal h⟩
    simpa [updateCdpPrep] using hlen
  · refine ⟨⟨rfl, rfl, by simp [updateCdpPrep]⟩, rfl, fun _ => rfl, fun _ many => ?_⟩
    simp only [updateCdpPrep, if_pos many]

lemma updateAllCdpPrep_spec (elapsed procPdpCnt : ℕ) (temps : List RrdValue) (s : SeasonalCoef)
    (rras : List Rra) :
    Forall₂ (fun rra p => PrepareSpec elapsed procPdpCnt temps rra p.1 p.2) rras
      (updateAllCdpPrep elapsed procPdpCnt temps s rras).1 := by
  induction rras generalizing s with
  | nil => exact .nil
  | cons rra rras ih =>
    exact .cons (updateRraCdpPrep_spec elapsed procPdpCnt temps s rra)
      (ih (updateRraCdpPrep elapsed procPdpCnt temps s rra).2.2)

/-- What `update_aberrant_cdps` does to one archive. -/
structure AberrantSpec (rra rra' : Rra) : Prop extends rra.Keeps rra' where
  cdpPrep : rra.rraDef.pdpCnt ≠ 1 → rra'.cdpPrep = rra.cdpPrep

lemma setCdp_spec {rras rras' i d c} (h : Forall₂ AberrantSpec rras rras')
    (one : ∀ rra, rras[i]? = some rra → rra.rraDef.pdpCnt = 1) :
    Forall₂ AberrantSpec rras (setCdp rras' i d c) := by
  refine Pointwise.modify_right h i fun rra rra' hi hs => ?_
  refine ⟨⟨hs.rraDef, hs.ring, ?_⟩, fun ne => absurd (one rra hi) ne⟩
  rw [← hs.length]
  exact List.length_set

lemma updateAberrantRra_spec {elapsed temps k rras rras' i} (h : Forall₂ AberrantSpec rras rras') :
    Forall₂ AberrantSpec rras (updateAberrantRra elapsed temps k rras' i) := by
  unfold updateAberrantRra
  split
  · exact h
  · rename_i rra' hi
    split
    · rename_i one
      refine Pointwise.foldl_right h _ fun l d hl => setCdp_spec hl fun rra hrra => ?_
      obtain ⟨b, hb, hs⟩ := Pointwise.getElem?_left h hrra
      rw [hi] at hb
      cases hb
      rw [← hs.rraDef]
      exact one
    · exact h

lemma updateAberrantCdps_spec (elapsed : ℕ) (temps : List RrdValue) (rras : List Rra) :
    Forall₂ AberrantSpec rras (updateAberrantCdps elapsed temps rras) := by
  have refl : Forall₂ AberrantSpec rras rras :=
    List.forall₂_same.2 fun rra _ => ⟨.refl rra, fun _ => rfl⟩
  refine Pointwise.foldl_right refl _ fun l k hl => ?_
  exact Pointwise.foldl_right hl _ fun l' i hl' => updateAberrantRra_spec hl'

/-! ### One pass -/

/-- What one pass does to one archive, where `ws` are the rows it writes there. -/
structure PassSpec (elapsed procPdpCnt : ℕ) (temps : List RrdValue) (rra rra' : Rra)
    (ws : List RowWrite) : Prop where
  rraDef : rra'.rraDef = rra.rraDef
  length : rra'.cdpPrep.length = rra.cdpPrep.length
  cur : rra'.ring.cur =
    (RingBuf.next rra.rraDef.rowCnt)^[rraStepCnt rra.rraDef elapsed procPdpCnt] rra.ring.cur
  ring : ¬ rra.rraDef.cf.isSeasonal →
    rra'.ring = rra.ring.pushAll rra.rraDef.rowCnt (ws.map (·.row))
  rows : ¬ rra.rraDef.cf.isSeasonal →
    ws.map (·.row) = rraRows rra'.cdpPrep (rraStepCnt rra.rraDef elapsed procPdpCnt)
  cdpPrep : ¬ rra.rraDef.cf.isSeasonal → 1 < rra.rraDef.pdpCnt →
    rra'.cdpPrep = rra.cdpPrep.mapIdx fun d c =>
      updateCdp rra.rraDef.cf c (temps.getD d .nan) (rraStepCnt rra.rraDef elapsed procPdpCnt)
        elapsed (startPdpOffset rra.rraDef.pdpCnt procPdpCnt) rra.rraDef.pdpCnt rra.rraDef.xff

lemma writeRraRows_spec {elapsed procPdpCnt temps rra rra₁ rra₂ pass stepTime time}
    (prep : PrepareSpec elapsed procPdpCnt temps rra rra₁ pass) (ab : AberrantSpec rra₁ rra₂) :
    PassSpec elapsed procPdpCnt temps rra
      (writeRraRows stepTime time pass.skipUpdate pass.stepCnt .primary 1 rra₂).1
      (writeRraRows stepTime time pass.skipUpdate pass.stepCnt .primary 1 rra₂).2 := by
  have hdef : rra₂.rraDef = rra.rraDef := ab.rraDef.trans prep.rraDef
  have hring : rra₂.ring = rra.ring := ab.ring.trans prep.ring
  obtain ⟨wdef, wcdp, wcur⟩ :=
    @writeRraRows_keeps stepTime time pass.skipUpdate pass.stepCnt .primary 1 rra₂
  obtain ⟨wring, wrows⟩ := @writeRraRows_rows stepTime time pass.stepCnt rra₂
  refine ⟨wdef.trans hdef, ?_, ?_, fun plain => ?_, fun plain => ?_, fun plain many => ?_⟩
  · rw [wcdp, ab.length, prep.length]
  · rw [wcur, hdef, hring, prep.stepCnt]
  · rw [prep.skipUpdate plain, wring, wrows, hdef, hring]
  · rw [prep.skipUpdate plain, wrows, ← prep.stepCnt]
    rw [@writeRraRows_keeps stepTime time false pass.stepCnt .primary 1 rra₂ |>.2.1]
  · have ne : rra₁.rraDef.pdpCnt ≠ 1 := by
      rw [prep.rraDef]
      omega
    rw [wcdp, ab.cdpPrep ne, prep.cdpPrep plain many]

/-- What one pass does to the file: the archives are related one by one to what they become and to
the rows written there, and nothing else changes. -/
lemma consolidate_spec (rrd : Rrd) (elapsed procPdpCnt : ℕ) (temps : List RrdValue)
    (s : SeasonalCoef) (time : ℕ) :
    ∃ written, Forall₂ (fun rra p => PassSpec elapsed procPdpCnt temps rra p.1 p.2) rrd.rra written ∧
      (consolidate rrd elapsed procPdpCnt temps s time).1 =
        { rrd with rra := written.map Prod.fst } ∧
      (consolidate rrd elapsed procPdpCnt temps s time).2.1.writes = written.map Prod.snd := by
  have prep := updateAllCdpPrep_spec elapsed procPdpCnt temps s rrd.rra
  refine ⟨_, ?_, rfl, rfl⟩
  have ab := updateAberrantCdps_spec elapsed temps
    ((updateAllCdpPrep elapsed procPdpCnt temps s rrd.rra).1.map Prod.fst)
  generalize updateAberrantCdps elapsed temps _ = rras at ab
  generalize (updateAllCdpPrep elapsed procPdpCnt temps s rrd.rra).1 = prepared at prep ab
  clear s
  generalize rrd.rra = rras₀ at prep
  induction prep generalizing rras with
  | nil => simp [writeToRras]
  | cons hp _ ih =>
    cases ab with
    | cons ha hab => exact .cons (writeRraRows_spec hp ha) (ih _ hab)

/-- A pass that succeeds: the primary data points and what the archives make of them. -/
lemma closePdps_some {host rrd pass procPdpCnt pdpNew s time rrd' phase s'}
    (h : closePdps host rrd pass procPdpCnt pdpNew s time = (rrd', some (phase, s'))) :
    ∃ ds written,
      processAllPdpSt host rrd.pdpStep pass rrd.ds pdpNew [] = (ds, some phase.pdpTemp) ∧
      Forall₂ (fun rra p => PassSpec pass.elapsedPdpSt procPdpCnt phase.pdpTemp rra p.1 p.2)
        rrd.rra written ∧
      rrd' = { rrd with ds := ds, rra := written.map Prod.fst } ∧
      phase.writes = written.map Prod.snd ∧
      phase.pdpPrep = rrd.ds.map (·.pdpPrep) ∧ phase.cdpPrep = rrd.rra.map (·.cdpPrep) ∧
      phase.elapsedPdpSt = pass.elapsedPdpSt ∧ phase.procPdpCnt = procPdpCnt := by
  unfold closePdps at h
  split at h
  · cases h
  · rename_i ds temps htemps
    obtain ⟨written, hw, hrrd, hwrites⟩ :=
      consolidate_spec { rrd with ds := ds } pass.elapsedPdpSt procPdpCnt temps s time
    generalize consolidate _ _ _ _ _ _ = r at h hrrd hwrites
    obtain ⟨rrd₁, c, s₁⟩ := r
    cases h
    exact ⟨ds, written, htemps, hw, hrrd, hwrites, rfl, rfl, rfl, rfl⟩

/-! ### One update -/

/-- The step left open is processed on its own. -/
def splits (pdpStep : ℕ) (preInt : ℚ) (elapsed : ℕ) : Prop :=
  1 < elapsed ∧ 0 < secOpenPdp pdpStep preInt

instance (pdpStep : ℕ) (preInt : ℚ) (elapsed : ℕ) : Decidable (splits pdpStep preInt elapsed) :=
  inferInstanceAs (Decidable (_ ∧ _))

lemma splitLeftOpen_some {host w rrd' w'} (h : splitLeftOpen host w = (rrd', some w')) :
    let sec := secOpenPdp w.rrd.pdpStep w.pass.preInt
    (¬ splits w.rrd.pdpStep w.pass.preInt w.pass.elapsedPdpSt ∧ w' = w) ∨
    (splits w.rrd.pdpStep w.pass.preInt w.pass.elapsedPdpSt ∧
      ∃ phase s, closePdps host w.rrd ⟨sec, sec, 0, 1⟩ w.procPdpCnt
          (w.pdpNew.map (openPdpNew sec w.pass.interval)) w.coef (w.rrd.lastUp + sec) =
            (w'.rrd, some (phase, s)) ∧
        w' =
          { rrd := w'.rrd
            pass :=
              ⟨w.pass.interval - sec, w.pass.preInt - sec, w.pass.postInt, w.pass.elapsedPdpSt - 1⟩
            procPdpCnt := w.procPdpCnt + 1
            pdpNew := w.pdpNew.map (restPdpNew sec w.pass.interval)
            coef := s
            phases := w.phases ++ [phase] }) := by
  intro sec
  simp only [splitLeftOpen] at h
  split at h
  · rename_i hs
    split at h
    · cases h
    · rename_i rrd₁ phase s h₁
      cases h
      exact .inr ⟨hs, phase, s, h₁, rfl⟩
  · rename_i hs
    cases h
    exact .inl ⟨hs, rfl⟩

/-- The ways `process_arg` succeeds after `update_pdp_prep`: without closing a step, in one pass, or
in two. -/
lemma applyPdpNew_some {host rrd sec usec pdpNew rrd' phases}
    (h : applyPdpNew host rrd sec usec pdpNew = (rrd', some phases)) :
    let interval := rrd.interval sec usec
    let el := calculateElapsedSteps rrd sec usec interval
    let open' := secOpenPdp rrd.pdpStep el.preInt
    (el.elapsedPdpSt = 0 ∧ phases = [] ∧
      rrd' = { rrd with ds := simpleUpdate interval rrd.ds pdpNew }.setLastUp sec usec) ∨
    (0 < el.elapsedPdpSt ∧ ¬ splits rrd.pdpStep el.preInt el.elapsedPdpSt ∧
      ∃ rrd₁ phase s, phases = [phase] ∧ rrd' = rrd₁.setLastUp sec usec ∧
        closePdps host rrd ⟨interval, el.preInt, el.postInt, el.elapsedPdpSt⟩ el.procPdpCnt pdpNew
          ⟨[], []⟩ sec = (rrd₁, some (phase, s))) ∨
    (splits rrd.pdpStep el.preInt el.elapsedPdpSt ∧
      ∃ rrd₁ phase₁ s₁ rrd₂ phase₂ s₂, phases = [phase₁, phase₂] ∧
        rrd' = rrd₂.setLastUp sec usec ∧
        closePdps host rrd ⟨open', open', 0, 1⟩ el.procPdpCnt
          (pdpNew.map (openPdpNew open' interval)) ⟨[], []⟩ (rrd.lastUp + open') =
            (rrd₁, some (phase₁, s₁)) ∧
        closePdps host rrd₁
          ⟨interval - open', el.preInt - open', el.postInt, el.elapsedPdpSt - 1⟩
          (el.procPdpCnt + 1) (pdpNew.map (restPdpNew open' interval)) s₁ sec =
            (rrd₂, some (phase₂, s₂))) := by
  intro interval el open'
  simp only [applyPdpNew] at h
  split at h
  · rename_i none
    cases h
    exact .inl ⟨none, rfl, rfl⟩
  · rename_i some
    have pos : 0 < el.elapsedPdpSt := Nat.pos_of_ne_zero some
    split at h
    · cases h
    · rename_i _ w hw
      obtain ⟨hs, rfl⟩ | ⟨hs, phase₁, s₁, h₁, hw'⟩ := splitLeftOpen_some hw
      · split at h
        · cases h
        · rename_i rrd₁ phase s h₁
          cases h
          exact .inr (.inl ⟨pos, hs, rrd₁, phase, s, rfl, rfl, h₁⟩)
      · rw [hw'] at h
        split at h
        · cases h
        · rename_i rrd₂ phase₂ s₂ h₂
          cases h
          exact .inr (.inr ⟨hs, w.rrd, phase₁, s₁, rrd₂, phase₂, s₂, rfl, rfl, h₁, h₂⟩)

/-- An accepted argument. -/
lemma processArg_ok {host tmpl rrd input rrd' acc}
    (h : processArg host tmpl rrd input = (rrd', .ok acc)) :
    ∃ atStyle time ds pdpNew,
      parseDs rrd.dsCnt tmpl input = .ok (atStyle, time, acc.updvals) ∧
      getTimeFromReading host rrd atStyle time = .ok (acc.sec, acc.usec) ∧
      updatePdpPrep (rrd.interval acc.sec acc.usec) rrd.ds acc.updvals = (ds, .ok pdpNew) ∧
      applyPdpNew host { rrd with ds := ds } acc.sec acc.usec pdpNew = (rrd', some acc.phases) ∧
      acc.lastUp = rrd.lastUp ∧ acc.lastUpUsec = rrd.lastUpUsec := by
  unfold processArg at h
  split at h
  · cases h
  · rename_i atStyle time updvals hp
    split at h
    · cases h
    · rename_i sec usec ht
      split at h
      · cases h
      · rename_i ds pdpNew hu
        split at h
        · cases h
        · rename_i rrd₁ phases ha
          cases h
          exact ⟨atStyle, time, ds, pdpNew, hp, ht, hu, ha, rfl, rfl⟩

/-- A refused argument: before anything is stored, in `update_pdp_prep`, or in a `COMPUTE`
program. -/
lemma processArg_error {host tmpl rrd input rrd' e}
    (h : processArg host tmpl rrd input = (rrd', .error e)) :
    (rrd' = rrd ∧ parseDs rrd.dsCnt tmpl input = .error e) ∨
    ∃ atStyle time updvals, parseDs rrd.dsCnt tmpl input = .ok (atStyle, time, updvals) ∧
      ((rrd' = rrd ∧ getTimeFromReading host rrd atStyle time = .error e) ∨
      ∃ sec usec ds, getTimeFromReading host rrd atStyle time = .ok (sec, usec) ∧
        ((rrd' = { rrd with ds := ds } ∧
          updatePdpPrep (rrd.interval sec usec) rrd.ds updvals = (ds, .error e)) ∨
        ∃ pdpNew, e = .compute ∧
          updatePdpPrep (rrd.interval sec usec) rrd.ds updvals = (ds, .ok pdpNew) ∧
          applyPdpNew host { rrd with ds := ds } sec usec pdpNew = (rrd', none))) := by
  unfold processArg at h
  split at h
  · rename_i hp
    cases h
    exact .inl ⟨rfl, hp⟩
  · rename_i atStyle time updvals hp
    refine .inr ⟨atStyle, time, updvals, hp, ?_⟩
    split at h
    · rename_i ht
      cases h
      exact .inl ⟨rfl, ht⟩
    · rename_i sec usec ht
      split at h
      · rename_i ds _ hu
        cases h
        exact .inr ⟨sec, usec, ds, ht, .inl ⟨rfl, hu⟩⟩
      · rename_i ds pdpNew hu
        split at h
        · rename_i rrd₁ ha
          cases h
          exact .inr ⟨sec, usec, ds, ht, .inr ⟨pdpNew, rfl, hu, ha⟩⟩
        · cases h

/-- A time stamp error leaves the file alone. -/
lemma processArg_timeError {host tmpl rrd input rrd' e}
    (h : processArg host tmpl rrd input = (rrd', .error e)) (code : e.code = -2) : rrd' = rrd := by
  obtain ⟨hrrd, -⟩ | ⟨_, _, _, -, ⟨hrrd, -⟩ | ⟨_, _, _, -, ⟨-, hu⟩ | ⟨_, he, -, -⟩⟩⟩ :=
    processArg_error h
  · exact hrrd
  · exact hrrd
  · rw [updatePdpPrep_error hu] at code
    cases code
  · rw [he] at code
    cases code

lemma updateArgs_run {host tmpl skip rrd args rrd' accs} (prev : List Accepted)
    (h : updateArgs host tmpl skip rrd args = (rrd', .ok accs)) :
    ∃ ops, Db.run ⟨rrd, prev⟩ ops = some ⟨rrd', prev ++ accs⟩ := by
  induction args generalizing rrd accs prev with
  | nil =>
    cases h
    exact ⟨[], by simp⟩
  | cons input args ih =>
    simp only [updateArgs] at h
    split at h
    · rename_i rrd₁ e hp
      split at h
      · rename_i hskip
        rw [processArg_timeError hp hskip.2] at h
        exact ih prev h
      · cases h
    · rename_i rrd₁ acc hp
      cases hr : (updateArgs host tmpl skip rrd₁ args).2 with
      | error e =>
        rw [hr] at h
        cases h
      | ok accs' =>
        rw [hr] at h
        cases h
        obtain ⟨ops, hops⟩ := ih (prev ++ [acc]) (Prod.ext rfl hr)
        refine ⟨.arg host tmpl input :: ops, Run.run_cons.2 ⟨⟨rrd₁, prev ++ [acc]⟩, ?_, ?_⟩⟩
        · simp only [Db.step, hp]
        · rw [List.append_assoc] at hops
          exact hops

/-- Every successful call of `_rrd_updatex` is a run. -/
theorem rrdUpdatex_run {host tmpl skip rrd args rrd' accs} (prev : List Accepted)
    (h : rrdUpdatex host tmpl skip rrd args = (rrd', .ok accs)) :
    ∃ ops, Db.run ⟨rrd, prev⟩ ops = some ⟨rrd', prev ++ accs⟩ := by
  unfold rrdUpdatex at h
  split at h
  · cases h
  · rename_i rrd₁ accs₁ hargs
    obtain ⟨ops, hops⟩ := updateArgs_run prev hargs
    split at h
    · cases h
      exact ⟨ops ++ [.smooth], Run.run_append.2 ⟨_, hops, rfl⟩⟩
    · cases h
      exact ⟨ops, hops⟩

/-! ### Smoothing -/

/-- What smoothing does to one archive. -/
structure SmoothSpec (rra rra' : Rra) : Prop where
  rraDef : rra'.rraDef = rra.rraDef
  length : rra'.cdpPrep.length = rra.cdpPrep.length
  cur : rra'.ring.cur = rra.ring.cur
  ring : ¬ rra.rraDef.cf.isSeasonal → rra'.ring = rra.ring
  cdpPrep : rra.rraDef.cf ≠ .hwpredict → rra.rraDef.cf ≠ .mhwpredict → rra'.cdpPrep = rra.cdpPrep

lemma SmoothSpec.refl (rra : Rra) : SmoothSpec rra rra :=
  ⟨rfl, rfl, rfl, fun _ => rfl, fun _ _ => rfl⟩

lemma hwFunctionsOf_some {rras i fns} (h : hwFunctionsOf rras i = some fns) :
    ∀ rra, rras[i]? = some rra → rra.rraDef.cf = .hwpredict ∨ rra.rraDef.cf = .mhwpredict := by
  intro rra hi
  simp only [hwFunctionsOf, rraDefAt, hi, Option.map_some] at h
  split at h
  · rename_i hcf
    exact .inl (Option.some.inj hcf)
  · rename_i hcf
    exact .inr (Option.some.inj hcf)
  · cases h

lemma applySmoother_spec {version dsCnt rras rras' i} (h : Forall₂ SmoothSpec rras rras')
    (seasonal : ∀ rra, rras[i]? = some rra → rra.rraDef.cf.isSeasonal) :
    Forall₂ SmoothSpec rras (applySmoother version dsCnt rras' i) := by
  have store : ∀ (slots : Rra → ℕ → Row), Forall₂ SmoothSpec rras
      (rras'.modify i fun rra => { rra with ring := { rra.ring with slot := slots rra } }) := by
    intro slots
    refine Pointwise.modify_right h i fun rra rra' hi hs => ?_
    exact ⟨hs.rraDef, hs.length, hs.cur, fun plain => absurd (seasonal rra hi) plain, hs.cdpPrep⟩
  simp only [applySmoother]
  split
  · exact h
  · split
    · exact h
    · split
      · split
        · exact h
        · rename_i fns hfns
          refine Pointwise.modify_right (store _) _ fun rra rra' hi hs => ?_
          refine ⟨hs.rraDef, by simpa using hs.length, hs.cur, hs.ring, fun n1 n2 => ?_⟩
          obtain ⟨b, hb, hsb⟩ := Pointwise.getElem?_left h hi
          have hcf := hwFunctionsOf_some hfns b hb
          rw [hsb.rraDef] at hcf
          obtain hcf | hcf := hcf
          · exact absurd hcf n1
          · exact absurd hcf n2
      · exact store _

/-- Smoothing rewrites the rows of seasonal archives and the baselines of the predictions that
depend on them. -/
lemma smoothAllRras_spec (rrd : Rrd) :
    Forall₂ SmoothSpec rrd.rra (smoothAllRras rrd).rra := by
  refine Pointwise.foldl_right (List.forall₂_same.2 fun rra _ => .refl rra) _ fun l i hl => ?_
  split
  · rename_i rra hi
    split
    · rename_i hs
      refine applySmoother_spec hl fun rra₀ h₀ => ?_
      obtain ⟨b, hb, hsb⟩ := Pointwise.getElem?_left hl h₀
      rw [rraDefAt, hb] at hi
      cases hi
      rw [← hsb.rraDef]
      exact hs
    · exact hl
  · exact hl

end Rrdtool
