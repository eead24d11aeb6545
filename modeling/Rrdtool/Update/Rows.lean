import Rrdtool.Update.Invariant

/-!
# The rows an archive holds

What the ring of an archive holds after a run. An update that closes the periods up to `m` of an
archive writes one row for each of them, in order (`processArg_rows`), so the row a run stored for
a period (`Db.rowOf`) is found by the age of that period: the ring holds, for each of the last
`row_cnt` periods, the row stored when it closed, and an unknown row if it closed before the file
was made (`Db.RingHolds`). This needs each update to close at most `row_cnt` periods of the archive
(`Op.closesAtMost`), and an archive that is not seasonal: those skip bulk updates and are smoothed.
-/

namespace Rrdtool

open List

/-! ### The rows of a run -/

/-- The rows an update has written to archive `i`, oldest first. -/
@[grind] def Accepted.rows (acc : Accepted) (i : ℕ) : List Row :=
  acc.phases.flatMap fun ph => (ph.writes.getD i []).map (·.row)

/-- The row an update has written to archive `i` when the period that ends at `n * span` closed. -/
@[grind] def Accepted.rowOf (acc : Accepted) (i span : ℕ) (n : ℤ) : Option Row :=
  if (acc.lastUp / span : ℕ) < n ∧ n ≤ (acc.sec / span : ℕ) then
    (acc.rows i)[(n - (acc.lastUp / span : ℕ) - 1).toNat]?
  else none

/-- The row stored in archive `i` when the period that ends at `n * span` closed. -/
@[grind] def Db.rowOf (db : Db) (i span : ℕ) (n : ℤ) : Option Row :=
  db.accepted.findSome? fun acc => acc.rowOf i span n

/-- The length of a row of the archive, in seconds. -/
@[grind] def Rrd.rowSpan (rrd : Rrd) (rra : RraDef) : ℕ := rrd.pdpStep * rra.pdpCnt

/-! ### One pass -/

/-- The rows closed are the boundaries passed. -/
lemma rowsClosed_eq_sub {n : ℕ} (pos : 0 < n) (p e : ℕ) : rowsClosed n p e = (p + e) / n - p / n := by
  have hmod : p % n < n := Nat.mod_lt p pos
  have hp : p + e = n * (p / n) + (p % n + e) := by
    have := Nat.div_add_mod p n
    omega
  have hdiv : (p + e) / n = p / n + (p % n + e) / n := by
    conv_lhs => rw [hp]
    exact Nat.mul_add_div pos _ _
  rw [hdiv, Nat.add_sub_cancel_left]
  unfold rowsClosed startPdpOffset
  split
  · rename_i hle
    have hsum : p % n + e = (e - (n - p % n)) + n := by omega
    rw [hsum, Nat.add_div_right _ pos]
  · rename_i hlt
    rw [Nat.div_eq_of_lt (by omega)]

/-- A pass on archive `i`: the rows it writes there are pushed on the ring, one for each row
closed. -/
lemma closePdps_rows {host rrd pass p xs s time rrd' phase s' i rra}
    (h : closePdps host rrd pass p xs s time = (rrd', some (phase, s')))
    (hi : rrd.rra[i]? = some rra) (plain : ¬ rra.rraDef.cf.isSeasonal) (pos : 0 < rra.rraDef.pdpCnt)
    (few : (p + pass.elapsedPdpSt) / rra.rraDef.pdpCnt - p / rra.rraDef.pdpCnt ≤ rra.rraDef.rowCnt) :
    ∃ rra', rrd'.rra[i]? = some rra' ∧ rra'.rraDef = rra.rraDef ∧
      rra'.ring =
        rra.ring.pushAll rra.rraDef.rowCnt ((phase.writes.getD i []).map (·.row)) ∧
      ((phase.writes.getD i []).map (·.row)).length =
        (p + pass.elapsedPdpSt) / rra.rraDef.pdpCnt - p / rra.rraDef.pdpCnt := by
  obtain ⟨ds, written, -, hw, rfl, hwrites, -⟩ := closePdps_some h
  obtain ⟨q, hq, spec⟩ := Pointwise.getElem?_left hw hi
  have hrra' : (written.map Prod.fst)[i]? = some q.1 := by rw [List.getElem?_map, hq]; rfl
  have hws : phase.writes.getD i [] = q.2 := by
    rw [hwrites, List.getD_eq_getElem?_getD, List.getElem?_map, hq]
    rfl
  refine ⟨q.1, hrra', spec.rraDef, ?_, ?_⟩
  · rw [hws]
    exact spec.ring plain
  · rw [hws, spec.rows plain, rraRows_length, rraStepCnt_eq_min, rowsClosed_eq_sub pos]
    exact min_eq_left few

/-! ### One update -/

/-- What an update does to the ring of archive `i`. -/
structure RowsSpec (rrd : Rrd) (i sec : ℕ) (rra : Rra) (rrd' : Rrd) (rows : List Row) : Prop where
  ring : ∃ rra', rrd'.rra[i]? = some rra' ∧ rra'.rraDef = rra.rraDef ∧
    rra'.ring = rra.ring.pushAll rra.rraDef.rowCnt rows
  length : rows.length = sec / rrd.rowSpan rra.rraDef - rrd.lastUp / rrd.rowSpan rra.rraDef

lemma applyPdpNew_rows {host rrd sec usec xs rrd' phases i rra} (pos : 0 < rrd.pdpStep)
    (hle : rrd.lastUp ≤ sec) (small : rrd.stepsPassed sec < 2 ^ 31) (hi : rrd.rra[i]? = some rra)
    (plain : ¬ rra.rraDef.cf.isSeasonal) (valid : rra.rraDef.Valid)
    (few : sec / rrd.rowSpan rra.rraDef - rrd.lastUp / rrd.rowSpan rra.rraDef ≤ rra.rraDef.rowCnt)
    (h : applyPdpNew host rrd sec usec xs = (rrd', some phases)) :
    RowsSpec rrd i sec rra rrd'
      (phases.flatMap fun ph => (ph.writes.getD i []).map (·.row)) := by
  have hel := @calculateElapsedSteps_elapsed _ _ usec (rrd.interval sec usec) pos small
  have hproc := @calculateElapsedSteps_procPdpCnt _ sec usec (rrd.interval sec usec) pos
  have hsum : rrd.lastUp / rrd.pdpStep + rrd.stepsPassed sec = sec / rrd.pdpStep := by
    have := Nat.div_le_div_right (c := rrd.pdpStep) hle
    unfold Rrd.stepsPassed
    omega
  have hn := valid.pdpCnt_pos
  simp only [Rrd.rowSpan, ← Nat.div_div_eq_div_mul, ← hsum] at few
  suffices hs : (∃ rra', rrd'.rra[i]? = some rra' ∧ rra'.rraDef = rra.rraDef ∧
      rra'.ring = rra.ring.pushAll rra.rraDef.rowCnt
        (phases.flatMap fun ph => (ph.writes.getD i []).map (·.row))) ∧
      (phases.flatMap fun ph => (ph.writes.getD i []).map (·.row)).length =
        (rrd.lastUp / rrd.pdpStep + rrd.stepsPassed sec) / rra.rraDef.pdpCnt -
          rrd.lastUp / rrd.pdpStep / rra.rraDef.pdpCnt by
    refine ⟨hs.1, ?_⟩
    rw [hs.2, hsum, Rrd.rowSpan, Nat.div_div_eq_div_mul, Nat.div_div_eq_div_mul]
  generalize rrd.lastUp / rrd.pdpStep = p at *
  obtain ⟨h0, rfl, rfl⟩ | ⟨hpos, -, rrd₁, phase, s, rfl, rfl, hc⟩ |
    ⟨⟨hsplit, -⟩, rrd₁, phase₁, s₁, rrd₂, phase₂, s₂, rfl, rfl, hc₁, hc₂⟩ := applyPdpNew_some h
  · rw [hel] at h0
    refine ⟨⟨rra, hi, rfl, rfl⟩, ?_⟩
    simp [h0]
  · rw [hel, hproc] at hc
    obtain ⟨rra', hi', hdef, hring, hlen⟩ := closePdps_rows hc hi plain hn few
    rw [List.flatMap_singleton]
    exact ⟨⟨rra', hi', hdef, hring⟩, hlen⟩
  · rw [hel] at hsplit
    rw [hproc] at hc₁
    rw [hel, hproc] at hc₂
    -- each of the two passes closes a part of the periods
    have hmid : p / rra.rraDef.pdpCnt ≤ (p + 1) / rra.rraDef.pdpCnt :=
      Nat.div_le_div_right (Nat.le_succ p)
    have hend : (p + 1) / rra.rraDef.pdpCnt ≤ (p + rrd.stepsPassed sec) / rra.rraDef.pdpCnt :=
      Nat.div_le_div_right (by omega)
    have hadd : p + 1 + (rrd.stepsPassed sec - 1) = p + rrd.stepsPassed sec := by omega
    obtain ⟨rra₁, hi₁, hdef₁, hring₁, hlen₁⟩ := closePdps_rows hc₁ hi plain hn (by
      show (p + 1) / _ - _ ≤ _
      omega)
    rw [← hdef₁] at plain hn
    obtain ⟨rra₂, hi₂, hdef₂, hring₂, hlen₂⟩ := closePdps_rows hc₂ hi₁ plain hn (by
      show (p + 1 + (rrd.stepsPassed sec - 1)) / _ - _ ≤ _
      rw [hadd, hdef₁]
      omega)
    rw [List.flatMap_cons, List.flatMap_singleton]
    refine ⟨⟨rra₂, hi₂, hdef₂.trans hdef₁, ?_⟩, ?_⟩
    · rw [hring₂, hring₁, hdef₁, RingBuf.pushAll_append]
    · rw [List.length_append, hlen₁, hlen₂, hdef₁]
      show _ + ((p + 1 + (rrd.stepsPassed sec - 1)) / _ - _) = _
      rw [hadd]
      show (p + 1) / _ - _ + _ = _
      omega

/-- The number of data sources does not change. -/
lemma applyPdpNew_dsCnt {host rrd sec usec xs rrd' phases} (hlen : xs.length = rrd.ds.length)
    (h : applyPdpNew host rrd sec usec xs = (rrd', some phases)) : rrd'.dsCnt = rrd.dsCnt := by
  obtain ⟨-, -, rfl⟩ | ⟨-, -, rrd₁, phase, s, -, rfl, hc⟩ |
    ⟨-, rrd₁, phase₁, s₁, rrd₂, phase₂, s₂, -, rfl, hc₁, hc₂⟩ := applyPdpNew_some h
  · show (simpleUpdate _ _ _).length = _
    simp [simpleUpdate, hlen, Rrd.dsCnt]
  · exact (closePdps_unknSecCnt hlen hc).1
  · obtain ⟨hlen₁, -⟩ := closePdps_unknSecCnt (by simpa using hlen) hc₁
    obtain ⟨hlen₂, -⟩ := closePdps_unknSecCnt (by rw [List.length_map, hlen, hlen₁]) hc₂
    exact hlen₂.trans hlen₁

/-- An accepted argument writes one row to archive `i` for each period it closes. -/
lemma processArg_rows {host tmpl rrd input rrd' acc i rra} (inv : rrd.Inv)
    (fits : ∀ t ∈ argTime host tmpl rrd input, rrd.stepsPassed t.1 < 2 ^ 31)
    (hi : rrd.rra[i]? = some rra) (plain : ¬ rra.rraDef.cf.isSeasonal)
    (few : ∀ t ∈ argTime host tmpl rrd input,
      t.1 / rrd.rowSpan rra.rraDef - rrd.lastUp / rrd.rowSpan rra.rraDef ≤ rra.rraDef.rowCnt)
    (h : processArg host tmpl rrd input = (rrd', .ok acc)) :
    RowsSpec rrd i acc.sec rra rrd' (acc.rows i) ∧ rrd'.dsCnt = rrd.dsCnt ∧
      acc.lastUp = rrd.lastUp := by
  obtain ⟨atStyle, time, ds, xs, hparse, htime, hprep, happly, hlast, -⟩ := processArg_ok h
  obtain ⟨-, -, hlater⟩ := getTimeFromReading_ok htime
  have harg : (acc.sec, acc.usec) ∈ argTime host tmpl rrd input := by
    simp only [argTime, hparse, htime]
    rfl
  obtain ⟨hxs, -, hds⟩ := updatePdpPrep_ok hprep (parseDs_length hparse)
  have valid : rra.rraDef.Valid := inv.cdp.valid rra (List.mem_of_getElem? hi)
  have hrows := @applyPdpNew_rows _ { rrd with ds := ds } _ _ _ _ _ _ _ inv.pdpStep_pos (by
    show rrd.lastUp ≤ _
    omega) (fits _ harg) hi plain valid (few _ harg) happly
  exact ⟨⟨hrows.ring, hrows.length⟩,
    (applyPdpNew_dsCnt (by rw [hxs]; exact hds.symm) happly).trans hds, hlast⟩

/-! ### Runs -/

/-- The update closes at most `row_cnt` periods of archive `i`. -/
def Op.closesAtMost (i : ℕ) (db : Db) : Op → Prop
  | .arg host tmpl input => ∀ t ∈ argTime host tmpl db.rrd input, ∀ rra ∈ db.rrd.rra[i]?,
      t.1 / db.rrd.rowSpan rra.rraDef - db.rrd.lastUp / db.rrd.rowSpan rra.rraDef ≤
        rra.rraDef.rowCnt
  | .smooth => True

instance (i : ℕ) (db : Db) (op : Op) : Decidable (Op.closesAtMost i db op) :=
  match op with
  | .arg host tmpl input =>
    inferInstanceAs (Decidable (∀ t ∈ argTime host tmpl db.rrd input, ∀ rra ∈ db.rrd.rra[i]?, _ ≤ _))
  | .smooth => inferInstanceAs (Decidable True)

/-- A row of unknown values. -/
def unknownRow (dsCnt : ℕ) : Row := List.replicate dsCnt .nan

/-- The ring of archive `i` holds the rows of the last `row_cnt` periods, and each update has stored
one row for each period it closed. -/
structure Db.RingHolds (h : Header) (i : ℕ) (r : RraDef) (db : Db) : Prop where
  inv : Db.Inv h db
  dsCnt : db.rrd.dsCnt = h.ds.length
  onePerPeriod : ∀ acc ∈ db.accepted, (acc.rows i).length =
    acc.sec / (h.pdpStep * r.pdpCnt) - acc.lastUp / (h.pdpStep * r.pdpCnt)
  ring : ∃ rra, db.rrd.rra[i]? = some rra ∧ rra.rraDef = r ∧ ∀ k < r.rowCnt,
    rra.ring.byAge r.rowCnt k =
      (db.rowOf i (h.pdpStep * r.pdpCnt)
        ((db.rrd.lastUp / (h.pdpStep * r.pdpCnt) : ℕ) - k)).getD (unknownRow h.ds.length)

lemma init_ringHolds {h : Header} {random : ℕ → ℕ} {i r} (hi : h.rra[i]? = some r) :
    Db.RingHolds h i r ⟨rrdInitData h random, []⟩ := by
  refine ⟨init_inv h random, ?_, by simp, initRra h r (random i), ?_, rfl, fun k _ => rfl⟩
  · simp [rrdInitData, Rrd.dsCnt]
  · show (h.rra.mapIdx _)[i]? = _
    rw [List.getElem?_mapIdx, hi]
    rfl

/-- An earlier update has stored nothing for a period that closes later. -/
lemma rowOf_eq_none_of_lt {h : Header} {db : Db} (inv : Db.Inv h db) {i span : ℕ} {n : ℤ}
    (hn : (db.rrd.lastUp / span : ℕ) < n) : db.rowOf i span n = none := by
  refine List.findSome?_eq_none_iff.2 fun acc hacc => if_neg fun hc => ?_
  have hle : acc.sec ≤ db.rrd.lastUp := by
    have hmem : (acc.sec, acc.usec) ∈ db.times h := .tail _ (List.mem_map.2 ⟨acc, hacc, rfl⟩)
    obtain heq | hb := before_getLast inv.increasing inv.latest _ hmem
    · exact (Prod.mk.inj heq).1.le
    · exact hb.le
  have := Nat.div_le_div_right (c := span) hle
  omega

/-- The rows of a run after one more update. -/
lemma rowOf_append {h : Header} {db : Db} (inv : Db.Inv h db) {rrd' acc i span} {n : ℤ}
    (hlast : acc.lastUp = db.rrd.lastUp) :
    Db.rowOf ⟨rrd', db.accepted ++ [acc]⟩ i span n =
      if (db.rrd.lastUp / span : ℕ) < n then acc.rowOf i span n else db.rowOf i span n := by
  have happ : Db.rowOf ⟨rrd', db.accepted ++ [acc]⟩ i span n =
      (db.rowOf i span n).or (acc.rowOf i span n) := by
    simp [Db.rowOf, List.findSome?_append]
  rw [happ]
  split
  · rename_i hlt
    rw [rowOf_eq_none_of_lt inv hlt, Option.none_or]
  · rename_i hle
    have hacc : acc.rowOf i span n = none := by
      refine if_neg fun hc => ?_
      rw [hlast] at hc
      exact hle hc.1
    rw [hacc, Option.or_none]

/-- One step keeps what the ring holds. -/
lemma step_ringHolds {h : Header} {i r} (plain : ¬ r.cf.isSeasonal) (db : Db) (op : Op)
    (db' : Db) (holds : Db.RingHolds h i r db) (ok : op.fits db ∧ op.closesAtMost i db)
    (hstep : db.step op = some db') : Db.RingHolds h i r db' := by
  have inv' := step_inv db op db' holds.inv ok.1 hstep
  obtain ⟨rra, hi, rfl, hring⟩ := holds.ring
  cases op with
  | arg host tmpl input =>
    simp only [Db.step] at hstep
    split at hstep
    · cases hstep
    · rename_i rrd' acc hp
      cases hstep
      obtain ⟨⟨⟨rra', hi', hdef, hpush⟩, hlen⟩, hds, hlast⟩ :=
        processArg_rows holds.inv.inv ok.1 hi plain (fun t ht => ok.2 t ht rra hi) hp
      obtain ⟨hu, hlater⟩ := processArg_inv holds.inv.inv ok.1 hp
      rw [Rrd.rowSpan, holds.inv.pdpStep] at hlen
      refine ⟨inv', hds.trans holds.dsCnt, ?_, rra', hi', hdef, fun k hk => ?_⟩
      · intro acc' hacc'
        obtain hacc' | hacc' := List.mem_append.1 hacc'
        · exact holds.onePerPeriod acc' hacc'
        · rw [List.mem_singleton.1 hacc', hlen, hlast]
      · have hcur := holds.inv.inv.cdp.cur rra (List.mem_of_getElem? hi)
        have hmono : db.rrd.lastUp / (h.pdpStep * rra.rraDef.pdpCnt) ≤
            acc.sec / (h.pdpStep * rra.rraDef.pdpCnt) := Nat.div_le_div_right hlater.le
        rw [hpush, RingBuf.byAge_pushAll hcur _ hk, rowOf_append holds.inv hlast]
        show _ = Option.getD (if _ < ((rrd'.lastUp / _ : ℕ) : ℤ) - k then _ else _) _
        rw [hu.lastUp]
        split
        · rename_i hlt
          have hidx : (((acc.sec / (h.pdpStep * rra.rraDef.pdpCnt) : ℕ) : ℤ) - k -
              (acc.lastUp / (h.pdpStep * rra.rraDef.pdpCnt) : ℕ) - 1).toNat =
                (acc.rows i).length - 1 - k := by
            rw [hlast]
            omega
          rw [if_pos (by omega), Accepted.rowOf, if_pos (by rw [hlast]; omega), hidx,
            List.getElem?_eq_getElem (by omega), Option.getD_some]
        · rename_i hge
          rw [if_neg (by omega), hring _ (by omega)]
          congr 2
          omega
  | smooth =>
    cases hstep
    obtain ⟨rra', hi', hs⟩ := Pointwise.getElem?_left (smoothAllRras_spec db.rrd) hi
    refine ⟨inv', holds.dsCnt, holds.onePerPeriod, rra', hi', hs.rraDef, fun k hk => ?_⟩
    rw [hs.ring plain]
    exact hring k hk

/-- In every run whose updates close at most `row_cnt` periods of archive `i` each, its ring holds
the rows stored for the last `row_cnt` periods. -/
theorem run_ringHolds {h : Header} {random : ℕ → ℕ} {ops : List Op} {db : Db} {i r}
    (hi : h.rra[i]? = some r) (plain : ¬ r.cf.isSeasonal)
    (hrun : Db.run ⟨rrdInitData h random, []⟩ ops = some db)
    (hok : Run.Always Db.step (fun db op => op.fits db ∧ op.closesAtMost i db)
      ⟨rrdInitData h random, []⟩ ops) : Db.RingHolds h i r db :=
  Run.run_inv_of _ (step_ringHolds plain) hrun hok
    (init_ringHolds hi)

end Rrdtool
