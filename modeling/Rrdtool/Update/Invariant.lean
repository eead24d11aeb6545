import Rrdtool.Update.Pass
import Rrdtool.Update.Consolidation
import Rrdtool.Lib.Outcome

/-!
# The invariant of the update machine

What holds in every state reached from a new file by accepted updates: time goes forward, the
unknown seconds of a data source fit the open step, the unknown points of an archive fit its open
row, and the pointers stay inside their archives (`Rrd.Inv`). For each pass this means that neither
of its two unsigned differences wraps (`Phase.Sound`).

The state inside an update is described by `CdpInv`, relative to the number of steps processed so
far; one pass moves it forward by the steps it closes (`closePdps_inv`). The one thing an update has
to satisfy is that the number of steps it closes fits an `int` (`Op.fits`).
-/

namespace Rrdtool

open List ExtNum

/-! ### The archives -/

/-- The archives after `procPdpCnt` steps. -/
structure Rrd.CdpInv (procPdpCnt : ℕ) (rrd : Rrd) : Prop where
  valid : ∀ rra ∈ rrd.rra, rra.rraDef.Valid
  cur : ∀ rra ∈ rrd.rra, rra.ring.cur < rra.rraDef.rowCnt
  unkn : ∀ rra ∈ rrd.rra, rra.rraDef.cf.isPlain → 1 < rra.rraDef.pdpCnt →
    ∀ c ∈ rra.cdpPrep, c.unknPdpCnt ≤ procPdpCnt % rra.rraDef.pdpCnt

lemma not_isSeasonal_of_isPlain {cf : Cf} (h : cf.isPlain) : ¬ cf.isSeasonal := by
  cases cf <;> simp_all [Cf.isPlain, Cf.isSeasonal]

lemma iterate_next_lt {cap : ℕ} (pos : 0 < cap) (k : ℕ) {cur : ℕ} (h : cur < cap) :
    (RingBuf.next cap)^[k] cur < cap := by
  induction k generalizing cur with
  | zero => exact h
  | succ k ih => exact ih (RingBuf.next_lt pos cur)

/-- An update counts no more unknown points than the open row has points. -/
lemma updateCdp_unknPdpCnt_le {cf c x e p n rowCnt xff} (pos : 0 < n) (row : 0 < rowCnt)
    (h : c.unknPdpCnt ≤ p % n) :
    (updateCdp cf c x (min (rowsClosed n p e) rowCnt) e (startPdpOffset n p) n xff).unknPdpCnt ≤
      (p + e) % n := by
  have hmod : p % n < n := Nat.mod_lt p pos
  have hpe : (p + e) % n = (p % n + e) % n := (Nat.mod_add_mod p n e).symm
  unfold rowsClosed startPdpOffset
  by_cases hle : n - p % n ≤ e
  · have hwrap : (p + e) % n = (e - (n - p % n)) % n := by
      rw [hpe, show p % n + e = e - (n - p % n) + n by omega, Nat.add_mod_right]
    rw [if_pos hle, hwrap]
    have hstep : 0 < min ((e - (n - p % n)) / n + 1) rowCnt := lt_min (Nat.succ_pos _) row
    simp only [updateCdp, if_pos hstep]
    split
    · exact le_refl _
    · exact Nat.zero_le _
  · have hopen : (p + e) % n = p % n + e := by rw [hpe, Nat.mod_eq_of_lt (by omega)]
    rw [if_neg hle, hopen, Nat.zero_min]
    simp only [updateCdp, lt_irrefl, if_false]
    split
    · exact Nat.add_le_add_right h e
    · exact le_trans h (Nat.le_add_right _ e)

/-- One pass moves the invariant of the archives forward by the steps it closes. -/
lemma closePdps_inv {host rrd pass p xs s time rrd' phase s'} (inv : rrd.CdpInv p)
    (h : closePdps host rrd pass p xs s time = (rrd', some (phase, s'))) :
    rrd'.CdpInv (p + pass.elapsedPdpSt) := by
  obtain ⟨ds, written, -, hw, rfl, -⟩ := closePdps_some h
  have from_ : ∀ rra' ∈ written.map Prod.fst, ∃ rra ∈ rrd.rra, ∃ ws,
      PassSpec pass.elapsedPdpSt p phase.pdpTemp rra rra' ws := by
    intro rra' hrra'
    obtain ⟨q, hq, rfl⟩ := List.mem_map.1 hrra'
    obtain ⟨rra, hrra, hs⟩ := Pointwise.mem_right hw hq
    exact ⟨rra, hrra, q.2, hs⟩
  refine ⟨fun rra' hrra' => ?_, fun rra' hrra' => ?_, fun rra' hrra' plain many c hc => ?_⟩
  · obtain ⟨rra, hrra, ws, hs⟩ := from_ rra' hrra'
    rw [hs.rraDef]
    exact inv.valid rra hrra
  · obtain ⟨rra, hrra, ws, hs⟩ := from_ rra' hrra'
    rw [hs.rraDef, hs.cur]
    exact iterate_next_lt (inv.valid rra hrra).rowCnt_pos _ (inv.cur rra hrra)
  · obtain ⟨rra, hrra, ws, hs⟩ := from_ rra' hrra'
    rw [hs.rraDef] at plain many ⊢
    rw [hs.cdpPrep (not_isSeasonal_of_isPlain plain) many] at hc
    obtain ⟨d, hd, rfl⟩ := List.mem_mapIdx.1 hc
    rw [rraStepCnt_eq_min]
    exact updateCdp_unknPdpCnt_le (inv.valid rra hrra).pdpCnt_pos (inv.valid rra hrra).rowCnt_pos
      (inv.unkn rra hrra plain many _ (List.getElem_mem hd))

/-- The data sources after a pass. -/
lemma closePdps_unknSecCnt {host rrd pass p xs s time rrd' phase s'}
    (hlen : xs.length = rrd.ds.length)
    (h : closePdps host rrd pass p xs s time = (rrd', some (phase, s'))) :
    rrd'.ds.length = rrd.ds.length ∧
      ∀ d ∈ rrd'.ds, d.pdpPrep.unknSecCnt ≤ ⌊pass.postInt⌋₊ := by
  obtain ⟨ds, written, hp, -, rfl, -⟩ := closePdps_some h
  obtain ⟨ts, -, htl, hdl, hall⟩ := processAllPdpSt_some hp hlen
  refine ⟨hdl, fun d hd => ?_⟩
  obtain ⟨i, hi⟩ := List.mem_iff_getElem?.1 hd
  have hi' : i < ts.length := by
    rw [htl, ← hdl]
    exact (List.getElem?_eq_some_iff.1 hi).1
  have hz : (ds.zip ts)[i]? = some (d, ts[i]) := by
    rw [List.getElem?_zip_eq_some]
    exact ⟨hi, List.getElem?_eq_getElem hi'⟩
  obtain ⟨a, -, -, temps, ht⟩ := Pointwise.getElem?_right hall hz
  exact processPdpSt_unknSecCnt ht

/-- No difference that a pass computes wraps: the known seconds of the steps closed, and the number of
known points of a row that is not unknown. -/
structure Phase.Sound (pdpStep : ℕ) (defs : List RraDef) (ph : Phase) : Prop where
  seconds : ∀ p ∈ ph.pdpPrep, p.unknSecCnt ≤ ph.elapsedPdpSt * pdpStep ∧
    u64 ((ph.elapsedPdpSt * pdpStep : ℕ) - p.unknSecCnt) = ph.elapsedPdpSt * pdpStep - p.unknSecCnt
  points : ∀ (i : ℕ) (rra : RraDef) (cs : List CdpPrep) (d : ℕ) (c : CdpPrep) (unkn : ℕ),
    defs[i]? = some rra → ph.cdpPrep[i]? = some cs → cs[d]? = some c → rra.cf.isPlain → 1 < rra.pdpCnt →
    unkn = c.unknPdpCnt + (if (ph.pdpTemp.getD d .nan).isnan then
      startPdpOffset rra.pdpCnt ph.procPdpCnt else 0) →
    ¬ (.fin rra.pdpCnt * rra.xff : RrdValue) < .fin unkn →
    0 < u64 ((rra.pdpCnt : ℤ) - unkn) ∧ u64 ((rra.pdpCnt : ℤ) - unkn) = rra.pdpCnt - unkn

lemma closePdps_sound {host rrd pass p xs s time rrd' phase s'} (inv : rrd.CdpInv p)
    (secs : ∀ d ∈ rrd.ds, d.pdpPrep.unknSecCnt ≤ pass.elapsedPdpSt * rrd.pdpStep)
    (fits : pass.elapsedPdpSt * rrd.pdpStep < 2 ^ 64)
    (h : closePdps host rrd pass p xs s time = (rrd', some (phase, s'))) :
    phase.Sound rrd.pdpStep (rrd.rra.map (·.rraDef)) := by
  obtain ⟨ds, written, -, -, -, -, hpdp, hcdp, hel, hproc⟩ := closePdps_some h
  refine ⟨fun p hp => ?_, fun i rra cs d c unkn hi hcs hc plain many hunkn few => ?_⟩
  · rw [hpdp] at hp
    obtain ⟨d, hd, rfl⟩ := List.mem_map.1 hp
    rw [hel]
    exact ⟨secs d hd, u64_sub (secs d hd) fits⟩
  · obtain ⟨r, hr, rfl⟩ := List.mem_map.1 (List.mem_of_getElem? hi)
    obtain ⟨q, hxff, -, hq⟩ := (inv.valid r hr).xff plain
    rw [hxff] at few
    have hlt : unkn < r.rraDef.pdpCnt := unknown_lt (inv.valid r hr).pdpCnt_pos hq few
    have hsub : u64 ((r.rraDef.pdpCnt : ℤ) - unkn) = r.rraDef.pdpCnt - unkn :=
      u64_sub hlt.le (inv.valid r hr).pdpCnt_lt
    exact ⟨by rw [hsub]; exact Nat.sub_pos_of_lt hlt, hsub⟩

/-! ### The whole file -/

/-- The invariant of the file between updates. -/
structure Rrd.Inv (rrd : Rrd) : Prop where
  pdpStep_pos : 0 < rrd.pdpStep
  lastUp_lt : rrd.lastUp < 2 ^ 63
  lastUpUsec_lt : rrd.lastUpUsec < 10 ^ 6
  unknSec : ∀ d ∈ rrd.ds, d.pdpPrep.unknSecCnt ≤ rrd.lastUp % rrd.pdpStep
  cdp : rrd.CdpInv (rrd.lastUp / rrd.pdpStep)

lemma rrdInitData_inv (h : Header) (random : ℕ → ℕ) : (rrdInitData h random).Inv := by
  have from_ : ∀ rra ∈ (rrdInitData h random).rra, ∃ r ∈ h.rra, ∃ k, rra = initRra h r k := by
    intro rra hrra
    obtain ⟨i, hi, rfl⟩ := List.mem_mapIdx.1 hrra
    exact ⟨h.rra[i], List.getElem_mem hi, random i, rfl⟩
  refine ⟨h.pdpStep_pos, h.lastUp_lt, by norm_num [rrdInitData], fun d hd => ?_,
    fun rra hrra => ?_, fun rra hrra => ?_, fun rra hrra plain many c hc => ?_⟩
  · obtain ⟨d, -, rfl⟩ := List.mem_map.1 hd
    exact le_refl _
  · obtain ⟨r, hr, k, rfl⟩ := from_ rra hrra
    exact h.valid r hr
  · obtain ⟨r, hr, k, rfl⟩ := from_ rra hrra
    exact Nat.mod_lt k (h.valid r hr).rowCnt_pos
  · obtain ⟨r, hr, k, rfl⟩ := from_ rra hrra
    have plain' : r.cf.isPlain := plain
    rw [List.eq_of_mem_replicate hc, initCdp_unknPdpCnt plain' h.pdpStep_pos]
    exact le_refl _

/-- Later, in seconds and microseconds. -/
@[grind] def before (t t' : ℕ × ℕ) : Prop := t.1 < t'.1 ∨ (t.1 = t'.1 ∧ t.2 < t'.2)

lemma before.le {t t' : ℕ × ℕ} (h : before t t') : t.1 ≤ t'.1 := by
  obtain h | h := h
  · exact h.le
  · exact h.1.le

lemma before.trans {t t' t'' : ℕ × ℕ} (h : before t t') (h' : before t' t'') : before t t'' := by
  unfold before at *
  omega

/-- Seconds that are unknown after an update inside the open step. -/
lemma simpleUpdate_unknSecCnt {rrd : Rrd} {sec usec xs} (inv : rrd.Inv) (hle : rrd.lastUp ≤ sec)
    (husec : usec < 10 ^ 6) (same : rrd.stepsPassed sec = 0) :
    ∀ d ∈ simpleUpdate (rrd.interval sec usec) rrd.ds xs,
      d.pdpPrep.unknSecCnt ≤ sec % rrd.pdpStep := by
  intro d hd
  have hq : sec / rrd.pdpStep = rrd.lastUp / rrd.pdpStep := by
    have := Nat.div_le_div_right (c := rrd.pdpStep) hle
    unfold Rrd.stepsPassed at same
    omega
  have hage : sec % rrd.pdpStep = rrd.lastUp % rrd.pdpStep + (sec - rrd.lastUp) := by
    have h1 := Nat.div_add_mod sec rrd.pdpStep
    have h2 := Nat.div_add_mod rrd.lastUp rrd.pdpStep
    rw [hq] at h1
    omega
  have hfloor := @floor_interval_le rrd _ _ hle husec
  rw [simpleUpdate] at hd
  obtain ⟨i, hi, rfl⟩ := List.mem_iff_getElem.1 hd
  rw [List.getElem_zipWith]
  have hd₀ := inv.unknSec _ (List.getElem_mem (by simp at hi; omega : i < rrd.ds.length))
  simp only [simpleUpdateDs]
  split
  · show _ + _ ≤ _
    omega
  · exact hd₀.trans (by omega)

lemma map_rraDef_of_forall₂ {R : Rra → Rra → Prop} (hR : ∀ rra rra', R rra rra' →
    rra'.rraDef = rra.rraDef) {l l' : List Rra} (h : Forall₂ R l l') :
    l'.map (·.rraDef) = l.map (·.rraDef) := by
  induction h with
  | nil => rfl
  | cons hr _ ih => rw [List.map_cons, List.map_cons, hR _ _ hr, ih]

/-- What a pass leaves alone. -/
lemma closePdps_frame {host rrd pass p xs s time rrd' phase s'}
    (h : closePdps host rrd pass p xs s time = (rrd', some (phase, s'))) :
    rrd'.pdpStep = rrd.pdpStep ∧ rrd'.lastUp = rrd.lastUp ∧ rrd'.lastUpUsec = rrd.lastUpUsec ∧
      rrd'.rra.map (·.rraDef) = rrd.rra.map (·.rraDef) := by
  obtain ⟨ds, written, -, hw, rfl, -⟩ := closePdps_some h
  refine ⟨rfl, rfl, rfl, ?_⟩
  show (written.map Prod.fst).map (·.rraDef) = _
  exact map_rraDef_of_forall₂ (R := fun rra rra' => ∃ ws, PassSpec _ _ _ rra rra' ws)
    (fun rra rra' hs => hs.choose_spec.rraDef)
    (List.forall₂_map_right_iff.2 (hw.imp fun rra q hs => ⟨q.2, hs⟩))

/-- What an update does to a file in the invariant. -/
structure UpdateInv (rrd : Rrd) (sec usec : ℕ) (rrd' : Rrd) (phases : List Phase) : Prop where
  inv : rrd'.Inv
  lastUp : rrd'.lastUp = sec
  lastUpUsec : rrd'.lastUpUsec = usec
  pdpStep : rrd'.pdpStep = rrd.pdpStep
  defs : rrd'.rra.map (·.rraDef) = rrd.rra.map (·.rraDef)
  sound : ∀ ph ∈ phases, ph.Sound rrd.pdpStep (rrd.rra.map (·.rraDef))

/-- After the last pass of an update. -/
lemma Rrd.CdpInv.setLastUp {rrd : Rrd} {sec usec p} (inv : rrd.CdpInv p) (pos : 0 < rrd.pdpStep)
    (hsec : sec < 2 ^ 63) (husec : usec < 10 ^ 6) (hp : p = sec / rrd.pdpStep)
    (secs : ∀ d ∈ rrd.ds, d.pdpPrep.unknSecCnt ≤ sec % rrd.pdpStep) :
    (rrd.setLastUp sec usec).Inv := by
  subst hp
  exact ⟨pos, hsec, husec, secs, ⟨inv.valid, inv.cur, inv.unkn⟩⟩

lemma applyPdpNew_inv {host rrd sec usec xs rrd' phases} (inv : rrd.Inv)
    (hlen : xs.length = rrd.ds.length) (hle : rrd.lastUp ≤ sec) (hsec : sec < 2 ^ 63)
    (husec : usec < 10 ^ 6) (small : rrd.stepsPassed sec < 2 ^ 31)
    (h : applyPdpNew host rrd sec usec xs = (rrd', some phases)) :
    UpdateInv rrd sec usec rrd' phases := by
  have pos := inv.pdpStep_pos
  have hage : rrd.lastUp % rrd.pdpStep < rrd.pdpStep := Nat.mod_lt _ pos
  have hel := @calculateElapsedSteps_elapsed _ _ usec (rrd.interval sec usec) pos small
  have hproc := @calculateElapsedSteps_procPdpCnt _ sec usec (rrd.interval sec usec) pos
  have hsum : rrd.lastUp / rrd.pdpStep + rrd.stepsPassed sec = sec / rrd.pdpStep := by
    have := Nat.div_le_div_right (c := rrd.pdpStep) hle
    unfold Rrd.stepsPassed
    omega
  have hfits : rrd.stepsPassed sec * rrd.pdpStep < 2 ^ 64 := by
    have h1 : rrd.stepsPassed sec * rrd.pdpStep ≤ sec / rrd.pdpStep * rrd.pdpStep :=
      Nat.mul_le_mul_right _ (by omega)
    have h2 := Nat.div_mul_le_self sec rrd.pdpStep
    omega
  obtain ⟨h0, rfl, rfl⟩ | ⟨hpos, -, rrd₁, phase, s, rfl, rfl, hc⟩ |
    ⟨⟨hsplit, -⟩, rrd₁, phase₁, s₁, rrd₂, phase₂, s₂, rfl, rfl, hc₁, hc₂⟩ := applyPdpNew_some h
  · rw [hel] at h0
    have hq : rrd.lastUp / rrd.pdpStep = sec / rrd.pdpStep := by omega
    exact ⟨@Rrd.CdpInv.setLastUp { rrd with ds := _ } _ _ _
      ⟨inv.cdp.valid, inv.cdp.cur, inv.cdp.unkn⟩ pos hsec husec hq
      (simpleUpdate_unknSecCnt inv hle husec h0), rfl, rfl, rfl, rfl, by simp⟩
  · rw [hel] at hpos
    obtain ⟨-, hpost⟩ := @calculateElapsedSteps_split _ _ usec (rrd.interval sec usec) pos hpos
    rw [hel, hproc] at hc
    obtain ⟨hstep, -, -, hdefs⟩ := closePdps_frame hc
    obtain ⟨-, hsecs⟩ := closePdps_unknSecCnt hlen hc
    have hinv := closePdps_inv inv.cdp hc
    have hsound := closePdps_sound inv.cdp (fun d hd => (inv.unknSec d hd).trans
      (hage.le.trans (Nat.le_mul_of_pos_left _ hpos))) hfits hc
    refine ⟨hinv.setLastUp (by rw [hstep]; exact pos) hsec husec ?_ ?_, rfl, rfl, hstep, hdefs, ?_⟩
    · rw [hstep]
      exact hsum
    · rw [hstep]
      intro d hd
      have := hsecs d hd
      rwa [hpost, floor_postInt husec] at this
    · intro ph hph
      rw [List.mem_singleton.1 hph]
      exact hsound
  · rw [hel] at hsplit
    have hpos : 0 < rrd.stepsPassed sec := lt_trans one_pos hsplit
    obtain ⟨-, hpost⟩ := @calculateElapsedSteps_split _ _ usec (rrd.interval sec usec) pos hpos
    rw [hproc] at hc₁
    rw [hel, hproc] at hc₂
    obtain ⟨hstep₁, -, -, hdefs₁⟩ := closePdps_frame hc₁
    obtain ⟨hlen₁, hsecs₁⟩ := closePdps_unknSecCnt (by simpa using hlen) hc₁
    have hinv₁ := closePdps_inv inv.cdp hc₁
    have hsound₁ := closePdps_sound inv.cdp (fun d hd => (inv.unknSec d hd).trans
      (by rw [one_mul]; exact hage.le)) (by
        refine lt_of_le_of_lt ?_ hfits
        exact Nat.mul_le_mul_right _ hpos) hc₁
    obtain ⟨hstep₂, -, -, hdefs₂⟩ := closePdps_frame hc₂
    obtain ⟨-, hsecs₂⟩ := closePdps_unknSecCnt (by rw [List.length_map, hlen, hlen₁]) hc₂
    have hinv₂ := closePdps_inv hinv₁ hc₂
    have hsound₂ := closePdps_sound hinv₁ (fun d hd => (hsecs₁ d hd).trans (by simp)) (by
        rw [hstep₁]
        refine lt_of_le_of_lt ?_ hfits
        exact Nat.mul_le_mul_right _ (Nat.sub_le _ 1)) hc₂
    refine ⟨hinv₂.setLastUp (by rw [hstep₂, hstep₁]; exact pos) hsec husec ?_ ?_, rfl, rfl,
      hstep₂.trans hstep₁, hdefs₂.trans hdefs₁, ?_⟩
    · rw [hstep₂, hstep₁, ← hsum]
      show rrd.lastUp / rrd.pdpStep + 1 + (rrd.stepsPassed sec - 1) = _
      omega
    · rw [hstep₂, hstep₁]
      intro d hd
      have := hsecs₂ d hd
      rwa [hpost, floor_postInt husec] at this
    · intro ph hph
      obtain rfl | hph := List.mem_cons.1 hph
      · exact hsound₁
      · rw [List.mem_singleton.1 hph, ← hstep₁, ← hdefs₁]
        exact hsound₂

/-! ### Runs -/

/-- The number of steps that an update closes fits an `int`. -/
@[grind] def Op.fits (db : Db) : Op → Prop
  | .arg host tmpl input => ∀ t ∈ argTime host tmpl db.rrd input, db.rrd.stepsPassed t.1 < 2 ^ 31
  | .smooth => True

instance (db : Db) (op : Op) : Decidable (Op.fits db op) :=
  match op with
  | .arg host tmpl input =>
    inferInstanceAs (Decidable (∀ t ∈ argTime host tmpl db.rrd input, _ < 2 ^ 31))
  | .smooth => inferInstanceAs (Decidable True)

/-- An accepted argument is later than the one before and keeps the invariant. -/
lemma processArg_inv {host tmpl rrd input rrd' acc} (inv : rrd.Inv)
    (fits : ∀ t ∈ argTime host tmpl rrd input, rrd.stepsPassed t.1 < 2 ^ 31)
    (h : processArg host tmpl rrd input = (rrd', .ok acc)) :
    UpdateInv rrd acc.sec acc.usec rrd' acc.phases ∧
      before (rrd.lastUp, rrd.lastUpUsec) (acc.sec, acc.usec) := by
  obtain ⟨atStyle, time, ds, xs, hparse, htime, hprep, happly, -, -⟩ := processArg_ok h
  obtain ⟨hsec, husec, hlater⟩ := getTimeFromReading_ok htime
  have hlen : acc.updvals.length = rrd.ds.length := parseDs_length hparse
  obtain ⟨hxs, hall, hds⟩ := updatePdpPrep_ok hprep hlen
  have small : rrd.stepsPassed acc.sec < 2 ^ 31 := by
    refine fits (acc.sec, acc.usec) ?_
    simp only [argTime, hparse, htime]
    rfl
  have inv' : ({ rrd with ds := ds } : Rrd).Inv := by
    refine ⟨inv.pdpStep_pos, inv.lastUp_lt, inv.lastUpUsec_lt, fun d hd => ?_,
      ⟨inv.cdp.valid, inv.cdp.cur, inv.cdp.unkn⟩⟩
    obtain ⟨i, hi⟩ := List.mem_iff_getElem?.1 hd
    have hi' : i < xs.length := by
      rw [hxs, ← hds]
      exact (List.getElem?_eq_some_iff.1 hi).1
    have hz : (ds.zip xs)[i]? = some (d, xs[i]) := by
      rw [List.getElem?_zip_eq_some]
      exact ⟨hi, List.getElem?_eq_getElem hi'⟩
    obtain ⟨a, ha, -, hupd⟩ := Pointwise.getElem?_right hall hz
    have hkeep := (updatePdpPrepDs_keeps a.1.dsDef a.1.pdpPrep a.2
      (rrd.interval acc.sec acc.usec)).1
    rw [hupd] at hkeep
    rw [show d.pdpPrep.unknSecCnt = a.1.pdpPrep.unknSecCnt from hkeep]
    exact inv.unknSec a.1 (List.of_mem_zip (List.mem_of_getElem? ha)).1
  have hle : rrd.lastUp ≤ acc.sec := by omega
  refine ⟨?_, hlater⟩
  have hu := applyPdpNew_inv inv' (by rw [hxs]; exact hds.symm) hle hsec husec small happly
  exact ⟨hu.inv, hu.lastUp, hu.lastUpUsec, hu.pdpStep, hu.defs, hu.sound⟩

/-- Smoothing keeps the invariant. -/
lemma smoothAllRras_inv {rrd : Rrd} (inv : rrd.Inv) : (smoothAllRras rrd).Inv := by
  have hs := smoothAllRras_spec rrd
  refine ⟨inv.pdpStep_pos, inv.lastUp_lt, inv.lastUpUsec_lt, inv.unknSec, fun rra' hrra' => ?_,
    fun rra' hrra' => ?_, fun rra' hrra' plain many c hc => ?_⟩
  · obtain ⟨rra, hrra, hspec⟩ := Pointwise.mem_right hs hrra'
    rw [hspec.rraDef]
    exact inv.cdp.valid rra hrra
  · obtain ⟨rra, hrra, hspec⟩ := Pointwise.mem_right hs hrra'
    rw [hspec.rraDef, hspec.cur]
    exact inv.cdp.cur rra hrra
  · obtain ⟨rra, hrra, hspec⟩ := Pointwise.mem_right hs hrra'
    rw [hspec.rraDef] at plain many ⊢
    have hne : rra.rraDef.cf ≠ .hwpredict ∧ rra.rraDef.cf ≠ .mhwpredict := by
      constructor
      · intro hcf
        rw [hcf] at plain
        cases plain
      · intro hcf
        rw [hcf] at plain
        cases plain
    rw [hspec.cdpPrep hne.1 hne.2] at hc
    exact inv.cdp.unkn rra hrra plain many c hc

/-- The times of a database: that of its creation and those of the updates. -/
@[grind] def Db.times (h : Header) (db : Db) : List (ℕ × ℕ) :=
  (h.lastUp, 0) :: db.accepted.map fun acc => (acc.sec, acc.usec)

/-- What is known about a database made from `h`. -/
structure Db.Inv (h : Header) (db : Db) : Prop where
  inv : db.rrd.Inv
  pdpStep : db.rrd.pdpStep = h.pdpStep
  defs : db.rrd.rra.map (·.rraDef) = h.rra
  increasing : (db.times h).Pairwise before
  latest : (db.times h).getLast? = some (db.rrd.lastUp, db.rrd.lastUpUsec)
  sound : ∀ acc ∈ db.accepted, ∀ ph ∈ acc.phases, ph.Sound h.pdpStep h.rra

lemma init_inv (h : Header) (random : ℕ → ℕ) : Db.Inv h ⟨rrdInitData h random, []⟩ := by
  refine ⟨rrdInitData_inv h random, rfl, ?_, by simp [Db.times], rfl, by simp⟩
  refine List.ext_getElem? fun i => ?_
  show ((h.rra.mapIdx _).map _)[i]? = _
  rw [List.getElem?_map, List.getElem?_mapIdx, Option.map_map]
  cases h.rra[i]? with
  | none => rfl
  | some r => rfl

lemma before_getLast {l : List (ℕ × ℕ)} {t : ℕ × ℕ} (hp : l.Pairwise before)
    (hl : l.getLast? = some t) : ∀ u ∈ l, u = t ∨ before u t := by
  obtain ⟨ys, rfl⟩ := List.getLast?_eq_some_iff.1 hl
  intro u hu
  obtain hu | hu := List.mem_append.1 hu
  · exact .inr ((List.pairwise_append.1 hp).2.2 u hu t (by simp))
  · exact .inl (List.mem_singleton.1 hu)

/-- One step keeps what is known about the database. -/
lemma step_inv {h : Header} (db : Db) (op : Op) (db' : Db) (inv : Db.Inv h db) (fits : op.fits db)
    (hstep : db.step op = some db') : Db.Inv h db' := by
  cases op with
  | arg host tmpl input =>
    simp only [Db.step] at hstep
    split at hstep
    · cases hstep
    · rename_i rrd' acc hp
      cases hstep
      obtain ⟨hu, hlater⟩ := processArg_inv inv.inv fits hp
      have htimes : Db.times h ⟨rrd', db.accepted ++ [acc]⟩ =
          db.times h ++ [(acc.sec, acc.usec)] := by simp [Db.times]
      refine ⟨hu.inv, hu.pdpStep.trans inv.pdpStep, hu.defs.trans inv.defs, ?_, ?_, ?_⟩
      · rw [htimes, List.pairwise_append]
        refine ⟨inv.increasing, by simp, fun t ht t' ht' => ?_⟩
        rw [List.mem_singleton.1 ht']
        obtain rfl | hb := before_getLast inv.increasing inv.latest t ht
        · exact hlater
        · exact hb.trans hlater
      · rw [htimes, List.getLast?_append]
        simp [hu.lastUp, hu.lastUpUsec]
      · intro acc' hacc' ph hph
        obtain hacc' | hacc' := List.mem_append.1 hacc'
        · exact inv.sound acc' hacc' ph hph
        · rw [List.mem_singleton.1 hacc'] at hph
          rw [← inv.pdpStep, ← inv.defs]
          exact hu.sound ph hph
  | smooth =>
    cases hstep
    refine ⟨smoothAllRras_inv inv.inv, inv.pdpStep, ?_, inv.increasing, inv.latest, inv.sound⟩
    rw [← inv.defs]
    exact map_rraDef_of_forall₂ (fun _ _ hs => hs.rraDef) (smoothAllRras_spec db.rrd)

/-- In every run from a new file whose updates each close fewer than `2 ^ 31` steps, the invariant
holds in the state that is reached: time has strictly increased, the unknown seconds and points fit
the open step and the open rows, no difference has wrapped, and every pointer is inside its
archive. -/
theorem reachable_inv {h : Header} {random : ℕ → ℕ} {ops : List Op} {db : Db}
    (hrun : Db.run ⟨rrdInitData h random, []⟩ ops = some db)
    (hok : Run.Always Db.step Op.fits ⟨rrdInitData h random, []⟩ ops) : Db.Inv h db :=
  Run.run_inv_of _ step_inv hrun hok (init_inv h random)

theorem reachable_inv_three_updates :
    ∃ db, Db.run ⟨rrdInitData (gaugeHeader 10 60 (by decide)) fun _ => 3, []⟩
        [.arg .idle [0] "1004.5:7".toList, .arg .idle [0] "1037.25:U".toList,
          .arg .idle [0] "1041:8".toList] = some db ∧
      Db.Inv (gaugeHeader 10 60 (by decide)) db := by
  refine Outcome.exists_of_isSome (by decide +kernel) fun db hdb => ?_
  exact reachable_inv hdb (by decide +kernel)

/-- With `2 ^ 32` steps of one second between two updates, `calculate_elapsed_steps` returns 0: the
update is taken for one inside the open step, and its unknown seconds exceed the step. -/
theorem unknSecCnt_exceeds_open_step :
    ∃ db, Db.run ⟨rrdInitData (gaugeHeader 1 60 (by decide)) fun _ => 3, []⟩
        [.arg .idle [0] "4294968296:U".toList] = some db ∧
      ∃ d ∈ db.rrd.ds, db.rrd.lastUp % db.rrd.pdpStep < d.pdpPrep.unknSecCnt :=
  Outcome.exists_of_any (by decide +kernel)

end Rrdtool
