import Rrdtool.Update.Invariant
import Rrdtool.Update.SeasonalCache
import Rrdtool.Lib.Outcome

/-!
# The phase of a season

A row of a `SEASONAL` or `DEVSEASONAL` archive stands for a place in the season, so that its pointer must move as
far as the time does, in every pass of `process_arg` of `src/rrd_update.c`. `rra_step_cnt` is at most the number of
rows, which only keeps the ages of the rows of other archives right: behind a longer gap the pointer has moved one
turn. `run_phase_iff` says which runs keep the phase.
-/

namespace Rrdtool

/-- The row of the pointer, counted from the step of the last update. -/
@[grind] def Rrd.phase (rrd : Rrd) (i : ℕ) : ℤ :=
  match rrd.rra[i]? with
  | some rra => ((rra.ring.cur : ℤ) - (rrd.lastUp / rrd.pdpStep : ℕ)) % rra.rraDef.rowCnt
  | none => 0

/-- How far an update moves the pointer of an archive with `rowCnt` rows of one step each. -/
@[grind] def Rrd.pointerSteps (rowCnt : ℕ) (rrd : Rrd) (sec usec : ℕ) : ℕ :=
  let el := calculateElapsedSteps rrd sec usec (rrd.interval sec usec)
  if splits rrd.pdpStep el.preInt el.elapsedPdpSt then 1 + min (el.elapsedPdpSt - 1) rowCnt
  else min el.elapsedPdpSt rowCnt

/-- An update moves the pointer as far as the time, up to whole turns. -/
@[grind] def Rrd.KeepsPhase (rowCnt : ℕ) (rrd : Rrd) (sec usec : ℕ) : Prop :=
  rrd.pointerSteps rowCnt sec usec ≡ rrd.stepsPassed sec [MOD rowCnt]

instance (rowCnt : ℕ) (rrd : Rrd) (sec usec : ℕ) : Decidable (rrd.KeepsPhase rowCnt sec usec) :=
  inferInstanceAs (Decidable (_ % _ = _ % _))

/-- `m` steps, at most one turn of them. -/
lemma min_modEq_iff {m n : ℕ} : min m n ≡ m [MOD n] ↔ m ≤ n ∨ n ∣ m := by
  obtain hle | hlt := le_or_gt m n
  · rw [min_eq_left hle]
    exact iff_of_true rfl (.inl hle)
  · rw [min_eq_right hlt.le, Nat.ModEq, Nat.mod_self, eq_comm, ← Nat.dvd_iff_mod_eq_zero]
    exact (or_iff_right (by omega)).symm

/-- The phase is kept by `k` steps that are at most a turn or whole turns; the step that is closed on its own does not
count. -/
lemma keepsPhase_iff {rowCnt : ℕ} {rrd : Rrd} {sec usec : ℕ} (pos : 0 < rrd.pdpStep)
    (small : rrd.stepsPassed sec < 2 ^ 31) :
    rrd.KeepsPhase rowCnt sec usec ↔
      if splits rrd.pdpStep (calculateElapsedSteps rrd sec usec (rrd.interval sec usec)).preInt (rrd.stepsPassed sec) then
        rrd.stepsPassed sec - 1 ≤ rowCnt ∨ rowCnt ∣ rrd.stepsPassed sec - 1
      else rrd.stepsPassed sec ≤ rowCnt ∨ rowCnt ∣ rrd.stepsPassed sec := by
  simp only [Rrd.KeepsPhase, Rrd.pointerSteps, calculateElapsedSteps_elapsed pos small]
  split
  · rename_i hsplit
    have hmany := hsplit.1
    obtain ⟨m, hm⟩ : ∃ m, rrd.stepsPassed sec = 1 + m := ⟨_, (Nat.add_sub_cancel' hmany.le).symm⟩
    rw [hm, Nat.add_sub_cancel_left, ← min_modEq_iff]
    exact Nat.ModEq.add_iff_left (Nat.ModEq.refl 1)
  · exact min_modEq_iff

/-- A pointer that moves by `p` while the time moves by `k` keeps its distance. -/
lemma sub_emod_eq_iff (cur p q k n : ℕ) :
    ((((cur + p) % n : ℕ) : ℤ) - (q + k : ℕ)) % n = ((cur : ℤ) - (q : ℕ)) % n ↔ p ≡ k [MOD n] := by
  rw [← Int.natCast_modEq_iff]
  show _ ≡ _ [ZMOD n] ↔ _
  rw [Int.modEq_iff_dvd, Int.modEq_iff_dvd]
  have hdiv : (((cur + p) % n : ℕ) : ℤ) + n * ((cur + p) / n : ℕ) = cur + p := by exact_mod_cast Nat.mod_add_div (cur + p) n
  have hsub : (cur : ℤ) - q - ((((cur + p) % n : ℕ) : ℤ) - (q + k : ℕ)) = k - p + n * ((cur + p) / n : ℕ) := by
    push_cast
    push_cast at hdiv
    linarith
  rw [hsub]
  exact dvd_add_left (dvd_mul_right _ _)

section OneUpdate

variable {i : ℕ} {r : RraDef} {rrd rrd' : Rrd}

/-- The archive at `i` as a pass needs it. -/
structure PhaseInv (i : ℕ) (r : RraDef) (rrd : Rrd) : Prop where
  pdpStep_pos : 0 < rrd.pdpStep
  rra : ∃ rra, rrd.rra[i]? = some rra ∧ rra.rraDef = r ∧ rra.ring.cur < r.rowCnt

/-- A pass moves the pointer by its steps, one turn at most. -/
lemma closePdps_cur {host pass p xs s time phase s' rra} (hone : r.pdpCnt = 1)
    (h : closePdps host rrd pass p xs s time = (rrd', some (phase, s'))) (hi : rrd.rra[i]? = some rra)
    (hdef : rra.rraDef = r) (hcur : rra.ring.cur < r.rowCnt) (hpos : 1 ≤ pass.elapsedPdpSt) :
    ∃ rra', rrd'.rra[i]? = some rra' ∧ rra'.rraDef = r ∧
      rra'.ring.cur = (rra.ring.cur + min pass.elapsedPdpSt r.rowCnt) % r.rowCnt := by
  subst hdef
  obtain ⟨ds, written, -, hw, rfl, -⟩ := closePdps_some h
  obtain ⟨q, hq, hpass⟩ := Pointwise.getElem?_left hw hi
  refine ⟨q.1, ?_, hpass.rraDef, ?_⟩
  · show (written.map Prod.fst)[i]? = _
    rw [List.getElem?_map, hq]
    rfl
  · rw [hpass.cur, iterate_next hcur, rraStepCnt_of_one hone hpos]

/-- An update moves the pointer by `pointerSteps`. -/
lemma applyPdpNew_cur {host sec usec xs phases rra} (hone : r.pdpCnt = 1) (hi : rrd.rra[i]? = some rra)
    (hdef : rra.rraDef = r) (hcur : rra.ring.cur < r.rowCnt)
    (h : applyPdpNew host rrd sec usec xs = (rrd', some phases)) :
    rrd'.pdpStep = rrd.pdpStep ∧ rrd'.lastUp = sec ∧ ∃ rra', rrd'.rra[i]? = some rra' ∧ rra'.rraDef = r ∧
      rra'.ring.cur = (rra.ring.cur + rrd.pointerSteps r.rowCnt sec usec) % r.rowCnt := by
  obtain ⟨h0, rfl, rfl⟩ | ⟨hpos, hone', rrd₁, phase, s, rfl, rfl, hc⟩ |
    ⟨hsplit, rrd₁, phase₁, s₁, rrd₂, phase₂, s₂, rfl, rfl, hc₁, hc₂⟩ := applyPdpNew_some h
  · refine ⟨rfl, rfl, rra, hi, hdef, ?_⟩
    have hnone : ¬ splits rrd.pdpStep (calculateElapsedSteps rrd sec usec (rrd.interval sec usec)).preInt
        (calculateElapsedSteps rrd sec usec (rrd.interval sec usec)).elapsedPdpSt := by
      intro hsplit
      have := hsplit.1
      omega
    rw [Rrd.pointerSteps, if_neg hnone, h0, Nat.zero_min, Nat.add_zero, Nat.mod_eq_of_lt hcur]
  · obtain ⟨rra', hi', hdef', hcur'⟩ := closePdps_cur hone hc hi hdef hcur hpos
    refine ⟨(closePdps_frame hc).1, rfl, rra', hi', hdef', ?_⟩
    rw [hcur', Rrd.pointerSteps, if_neg hone']
  · have hmany := hsplit.1
    obtain ⟨rra₁, hi₁, hdef₁, hcur₁⟩ := closePdps_cur hone hc₁ hi hdef hcur le_rfl
    have hlt : rra₁.ring.cur < r.rowCnt := by
      rw [hcur₁]
      exact Nat.mod_lt _ (by omega)
    obtain ⟨rra₂, hi₂, hdef₂, hcur₂⟩ := closePdps_cur hone hc₂ hi₁ hdef₁ hlt (by
      dsimp only
      omega)
    refine ⟨(closePdps_frame hc₂).1.trans (closePdps_frame hc₁).1, rfl, rra₂, hi₂, hdef₂, ?_⟩
    rw [hcur₂, hcur₁, Rrd.pointerSteps, if_pos hsplit, Nat.mod_add_mod, min_eq_left (by omega : 1 ≤ r.rowCnt),
      Nat.add_assoc]

/-- One update keeps the phase exactly if the pointer moves as far as the time. -/
lemma processArg_phase {host tmpl input acc} (hone : r.pdpCnt = 1) (hinv : PhaseInv i r rrd)
    (h : processArg host tmpl rrd input = (rrd', .ok acc)) :
    PhaseInv i r rrd' ∧ (rrd'.phase i = rrd.phase i ↔ rrd.KeepsPhase r.rowCnt acc.sec acc.usec) := by
  obtain ⟨pos, rra, hi, hdef, hcur⟩ := hinv
  obtain ⟨atStyle, time, ds, xs, -, htime, -, happly, -⟩ := processArg_ok h
  obtain ⟨-, -, hlater⟩ := getTimeFromReading_ok htime
  obtain ⟨hstep, hlast, rra', hi', hdef', hcur'⟩ := @applyPdpNew_cur i r { rrd with ds := ds } _ _ _ _ _ _ _ hone hi
    hdef hcur happly
  have hstep : rrd'.pdpStep = rrd.pdpStep := hstep
  have hcur' : rra'.ring.cur = (rra.ring.cur + rrd.pointerSteps r.rowCnt acc.sec acc.usec) % r.rowCnt := hcur'
  have hlt : rra'.ring.cur < r.rowCnt := by
    rw [hcur']
    exact Nat.mod_lt _ (by omega)
  refine ⟨⟨hstep ▸ pos, rra', hi', hdef', hlt⟩, ?_⟩
  have hsum : acc.sec / rrd.pdpStep = rrd.lastUp / rrd.pdpStep + rrd.stepsPassed acc.sec := by
    have := Nat.div_le_div_right (c := rrd.pdpStep) (by omega : rrd.lastUp ≤ acc.sec)
    unfold Rrd.stepsPassed
    omega
  rw [Rrd.phase, Rrd.phase, hi, hi']
  simp only [hdef, hdef', hlast, hstep, hcur', hsum]
  exact sub_emod_eq_iff _ _ _ _ _

end OneUpdate

/-! ### Runs -/

/-- A step of a run keeps the phase of an archive with `rowCnt` rows. -/
@[grind] def Op.KeepsPhase (rowCnt : ℕ) (db : Db) : Op → Prop
  | .arg host tmpl input => ∀ t ∈ argTime host tmpl db.rrd input, db.rrd.KeepsPhase rowCnt t.1 t.2
  | .smooth => True

instance (rowCnt : ℕ) (db : Db) (op : Op) : Decidable (op.KeepsPhase rowCnt db) :=
  match op with
  | .arg host tmpl input =>
    inferInstanceAs (Decidable (∀ t ∈ argTime host tmpl db.rrd input, db.rrd.KeepsPhase rowCnt t.1 t.2))
  | .smooth => inferInstanceAs (Decidable True)

section Run

variable {h : Header} {i : ℕ} {r : RraDef}

lemma rrdInitData_phaseInv (random : ℕ → ℕ) (hi : h.rra[i]? = some r) : PhaseInv i r (rrdInitData h random) := by
  refine ⟨h.pdpStep_pos, initRra h r (random i), ?_, rfl, Nat.mod_lt _ (h.valid r (List.mem_of_getElem? hi)).rowCnt_pos⟩
  rw [rrdInitData, List.getElem?_mapIdx, hi]
  rfl

lemma step_phase (hone : r.pdpCnt = 1) (db : Db) (op : Op) (db' : Db) (hinv : PhaseInv i r db.rrd)
    (hstep : db.step op = some db') :
    PhaseInv i r db'.rrd ∧ (db'.rrd.phase i = db.rrd.phase i ↔ op.KeepsPhase r.rowCnt db) := by
  cases op with
  | arg host tmpl input =>
    simp only [Db.step] at hstep
    split at hstep
    · cases hstep
    · rename_i rrd' acc hp
      cases hstep
      obtain ⟨hinv', hiff⟩ := processArg_phase hone hinv hp
      obtain ⟨atStyle, time, -, -, hparse, htime, -⟩ := processArg_ok hp
      have htimes : argTime host tmpl db.rrd input = some (acc.sec, acc.usec) := by
        simp only [argTime, hparse, htime]
        rfl
      refine ⟨hinv', hiff.trans ?_⟩
      simp only [Op.KeepsPhase, htimes, Option.mem_def, Option.some.injEq, forall_eq']
  | smooth =>
    cases hstep
    obtain ⟨pos, rra, hi, hdef, hcur⟩ := hinv
    obtain ⟨rra', hi', hspec⟩ := Pointwise.getElem?_left (smoothAllRras_spec db.rrd) hi
    refine ⟨⟨pos, rra', hi', hspec.rraDef.trans hdef, hspec.cur.symm ▸ hcur⟩, iff_of_true ?_ trivial⟩
    show (smoothAllRras db.rrd).phase i = db.rrd.phase i
    rw [Rrd.phase, Rrd.phase, hi, hi']
    simp only [hspec.rraDef, hspec.cur]
    rfl

/-- The pointer of an archive of one step to the row, and so of every seasonal archive, keeps its phase over the whole
life of a file exactly if every update moves it as far as the time. -/
theorem run_phase_iff {random : ℕ → ℕ} {ops : List Op} {db : Db} (hi : h.rra[i]? = some r) (hone : r.pdpCnt = 1)
    (hrun : Db.run ⟨rrdInitData h random, []⟩ ops = some db) :
    (∀ front db', front <+: ops → Db.run ⟨rrdInitData h random, []⟩ front = some db' →
        db'.rrd.phase i = (rrdInitData h random).phase i) ↔
      Run.Always Db.step (fun db op => op.KeepsPhase r.rowCnt db) ⟨rrdInitData h random, []⟩ ops :=
  Run.constant_iff (fun db : Db => db.rrd.phase i) (fun db => PhaseInv i r db.rrd) (step_phase hone) hrun
    (rrdInitData_phaseInv random hi)

end Run

theorem run_phase_iff_two_updates :
    (Db.run ⟨rrdInitData cachedHeader fun _ => 0, []⟩
      [.arg .idle [0] "1010:5".toList, .arg .idle [0] "1030:6".toList, .smooth]).isSome ∧
    ∀ front db', front <+: [.arg .idle [0] "1010:5".toList, .arg .idle [0] "1030:6".toList, .smooth] →
      Db.run ⟨rrdInitData cachedHeader fun _ => 0, []⟩ front = some db' →
        db'.rrd.phase 1 = (rrdInitData cachedHeader fun _ => 0).phase 1 := by
  have hrun : (Db.run ⟨rrdInitData cachedHeader fun _ => 0, []⟩
      [.arg .idle [0] "1010:5".toList, .arg .idle [0] "1030:6".toList, .smooth]).isSome := by decide +kernel
  obtain ⟨db, hdb⟩ := Option.isSome_iff_exists.1 hrun
  refine ⟨hrun, ?_⟩
  exact (run_phase_iff (show cachedHeader.rra[1]? = some (hwRra .seasonal 4 0) from rfl) rfl hdb).2 (by decide +kernel)

/-- A gap of five steps over a season of four rows: the pointer has moved one turn, and the season is one step late. -/
theorem long_gap_shifts_season :
    (rrdInitData cachedHeader fun _ => 0).phase 1 = 0 ∧
      ∃ db, Db.run ⟨rrdInitData cachedHeader fun _ => 0, []⟩
        [.arg .idle [0] "1010:5".toList, .arg .idle [0] "1060:6".toList] = some db ∧ db.rrd.phase 1 = 3 := by
  exact ⟨by decide, Outcome.exists_of_any (by decide +kernel)⟩

end Rrdtool
