import Rrdtool.Update.ForecastOrder
import Rrdtool.Update.Scratch

/-!
# Failures and the order of the archives

`update_failures` of `src/rrd_hw_update.c` tests the place of `SEASONAL` to choose between the two copies of the
deviation of `DEVSEASONAL`, where `update_devpredict` and the others test the place of the archive they read. The choice
is right as long as `FAILURES` stands on the same side of both archives; `run_sameFailures` is the result for the files
where it does.
-/

namespace Rrdtool

/-- A `FAILURES` archive and the archives it depends on. -/
inductive FailureMember where
  | hw
  | sea
  | dev
  | fail

@[grind] def FailureMember.cf : FailureMember → Cf
  | .hw => .hwpredict
  | .sea => .seasonal
  | .dev => .devseasonal
  | .fail => .failures

/-- The member that `dependent_rra_idx` stands for. -/
@[grind] def FailureMember.dep : FailureMember → FailureMember
  | .hw => .sea
  | .sea => .hw
  | .dev => .hw
  | .fail => .dev

/-- The archives at `g` are linked to each other. -/
structure FailureLinked (defs : ℕ → Option RraDef) (g : FailureMember → ℕ) : Prop where
  member : ∀ m, ∃ r, defs (g m) = some r ∧ r.cf = m.cf ∧ r.pdpCnt = 1 ∧ 0 < r.rowCnt ∧ r.dependentRraIdx = g m.dep
  only : ∀ j r, defs j = some r → r.cf = .seasonal → r.dependentRraIdx = g .hw → j = g .sea

/-- `FAILURES` stands on the same side of `SEASONAL` and of `DEVSEASONAL`. -/
def SameSide (g : FailureMember → ℕ) : Prop := g .fail < g .sea ↔ g .fail < g .dev

instance (g : FailureMember → ℕ) : Decidable (SameSide g) := inferInstanceAs (Decidable (_ ↔ _))

/-- The places as those of a forecast, with `FAILURES` as the reader of the deviations. -/
@[grind] def forecastIdx (g : FailureMember → ℕ) : Member → ℕ
  | .hw => g .hw
  | .sea => g .sea
  | .dev => g .dev
  | .pred => g .fail

section Order

variable {h h' : Header} {g : FailureMember → ℕ}

lemma FailureLinked.linkedFor {defs : ℕ → Option RraDef} (hlinked : FailureLinked defs g) (hside : SameSide g) :
    LinkedFor .additive .failures defs (forecastIdx g) := by
  refine ⟨fun m => ?_, hlinked.only, fun _ => hside⟩
  cases m with
  | hw => exact hlinked.member .hw
  | sea => exact hlinked.member .sea
  | dev => exact hlinked.member .dev
  | pred => exact hlinked.member .fail

/-- The update of a file is about to judge by the values in force before it. -/
lemma ForecastInv.failureInputs {rrd : Rrd} {a : PassArgs} {r : RraDef} {d : ℕ}
    (hinv : ForecastInv .additive .failures h (forecastIdx g) rrd) (ha : a.elapsed = 1)
    (hstart : StartsAll .additive rrd.rra (forecastIdx g) rrd.dsCnt a.temps) (hr : h.rra[g .fail]? = some r)
    (hd : d < h.ds.length) :
    failureInputs (updateAberrantSlot 1 a.temps .primary (rrd.prepared a) (g .fail)) r (g .fail) d hwAdditiveFunctions =
      earlyInputs rrd.rra r d hwAdditiveFunctions := by
  have hmembers := hinv.members
  rw [hinv.dsCnt] at hstart
  have hprep := hmembers.prepared ha
  obtain ⟨rra, hrra, -⟩ := hprep.at .pred
  have hdef : rra.rraDef = r := by
    have hdefAt := (@rraDefAt_prepared rrd a (g .fail)).trans (hinv.rraDef (g .fail))
    rw [hr, rraDefAt, show (rrd.prepared a)[g .fail]? = some rra from hrra] at hdefAt
    exact Option.some.inj hdefAt
  have hnow : Starts .additive (cdpAt (rrd.prepared a) (g .hw) d) (cdpAt (rrd.prepared a) (g .sea) d).hwIntercept
      (a.temps.getD d .nan) := by
    have hhw := hmembers.cdpAt_hw_prepared ha d
    have hsea := hmembers.hwIntercept_prepared ha .sea d
    simp only [forecastIdx] at hhw hsea
    rw [hhw, hsea]
    exact hstart d hd
  have hearly := hprep.failureInputs_early hd hnow hrra
  rw [hdef] at hearly
  refine hearly.trans ?_
  -- the preparation of the archives leaves what is read as it was
  have hdep : r.dependentRraIdx = g .dev := by
    obtain ⟨r', hr', -, -, -, hdep, -⟩ := hprep.at .pred
    rw [← hdef, Option.some.inj (hrra.symm.trans hr')]
    exact hdep
  obtain ⟨hdevIdx, hhwIdx⟩ := hmembers.hwDepIdx_eq
  obtain ⟨hdevIdx', hhwIdx'⟩ := hprep.hwDepIdx_eq
  have hhw := hmembers.cdpAt_hw_prepared ha d
  have hsea := hmembers.hwIntercept_prepared ha .sea d
  have hdev := hmembers.hwIntercept_prepared ha .dev d
  simp only [forecastIdx] at hdevIdx hhwIdx hdevIdx' hhwIdx' hhw hsea hdev
  simp only [earlyInputs, hdep, hdevIdx, hhwIdx, hdevIdx', hhwIdx', hhw, hsea, hdev, HwMethod.functions]

/-- Every step of a run without infinite values starts alike in all orders. -/
lemma run_starts (hlinked : FailureLinked (h.rra[·]?) g) (hside : SameSide g)
    (hparams : HwParams (h.rra[·]?) (forecastIdx g)) (random : ℕ → ℕ) {ops ops₁ : List HwOp} {op : HwOp}
    (hfin : ∀ op ∈ ops, op.Finite) (hfront : ops₁ ++ [op] <+: ops) :
    ForecastInv .additive .failures h (forecastIdx g) (ops₁.foldl Rrd.hwStep (rrdInitData h random)) ∧
      op.Starts .additive (forecastIdx g) (ops₁.foldl Rrd.hwStep (rrdInitData h random)) := by
  have hmem : ∀ op' ∈ ops₁ ++ [op], op'.Finite := fun op' hop => hfin op' (hfront.subset hop)
  obtain ⟨hinv, hphases⟩ := run_phases (hlinked.linkedFor hside) hparams random fun op' hop =>
    hmem op' (List.mem_append_left [op] hop)
  exact ⟨hinv, (hwStep_phases hparams (hmem op (by simp)) hinv hphases).1⟩

/-- Files whose archives are in a different order store the same failures, and judge every value by the prediction and
the deviation in force before it, in every run without infinite values, as long as `FAILURES` stands on the same side of
`SEASONAL` and of `DEVSEASONAL`. -/
theorem run_sameFailures {σ : Equiv.Perm ℕ} {random random' : ℕ → ℕ} (hre : h.Reordered h' σ)
    (hrandom : ∀ i, random' (σ i) = random i) (hlinked : FailureLinked (h.rra[·]?) g)
    (hparams : HwParams (h.rra[·]?) (forecastIdx g)) (hside : SameSide g) (hside' : SameSide fun m => σ (g m))
    {ops : List HwOp} (hfin : ∀ op ∈ ops, op.Finite) :
    (∃ r r', (ops.foldl Rrd.hwStep (rrdInitData h random)).rra[g .fail]? = some r ∧
        (ops.foldl Rrd.hwStep (rrdInitData h' random')).rra[σ (g .fail)]? = some r' ∧
        r'.ring = r.ring ∧ r'.cdpPrep = r.cdpPrep) ∧
      ∀ ops₁ procPdpCnt temps coef time, ops₁ ++ [.update procPdpCnt temps coef time] <+: ops →
        ∀ r d, h.rra[g .fail]? = some r → d < h.ds.length →
          let rrd := ops₁.foldl Rrd.hwStep (rrdInitData h random)
          failureInputs (updateAberrantSlot 1 temps .primary (rrd.prepared ⟨1, procPdpCnt, temps, coef, time⟩)
              (g .fail)) r (g .fail) d hwAdditiveFunctions = earlyInputs rrd.rra r d hwAdditiveFunctions := by
  constructor
  · have hmap : (fun m => σ (forecastIdx g m)) = forecastIdx fun m => σ (g m) := by
      funext m
      cases m <;> rfl
    obtain ⟨-, -, hsame⟩ := run_same_of_starts hre hrandom (hlinked.linkedFor hside) (fun _ => hside')
      fun ops₁ op hfront => (run_starts hlinked hside hparams random hfin hfront).2
    exact hsame.ring_cdpPrep .pred
  · intro ops₁ procPdpCnt temps coef time hfront r d hr hd rrd
    obtain ⟨hinv, hstart⟩ := run_starts hlinked hside hparams random hfin hfront
    exact hinv.failureInputs (a := ⟨1, procPdpCnt, temps, coef, time⟩) rfl hstart hr hd

end Order

/-- A `FAILURES` archive for which each violation is a failure. -/
def singleFailure (dependentRraIdx : ℕ) : RraDef :=
  { failuresRra dependentRraIdx with
    windowLen := 1, failureThreshold := 1, deltaPos := .fin 1, deltaNeg := .fin 1 }

lemma singleFailure_valid (dependentRraIdx : ℕ) : (singleFailure dependentRraIdx).Valid := by
  refine ⟨show 0 < 4 by decide, Nat.one_pos, by norm_num [singleFailure, failuresRra, hwRra, plainRra], fun hplain => ?_⟩
  cases hplain

/-- The archives with `FAILURES` at the end. -/
def failuresLast : Header :=
  forecastHeader [hwRra .hwpredict 4 1, hwRra .seasonal 2 0, hwRra .devseasonal 2 0, singleFailure 2] (by
    simp only [List.forall_mem_cons, List.not_mem_nil, false_implies, implies_true, and_true]
    exact ⟨hwRra_valid rfl (by decide), hwRra_valid rfl (by decide), hwRra_valid rfl (by decide), singleFailure_valid 2⟩)

/-- The same archives with `FAILURES` in front. -/
def failuresFirst : Header :=
  forecastHeader [singleFailure 2, hwRra .seasonal 2 3, hwRra .devseasonal 2 3, hwRra .hwpredict 4 1] (by
    simp only [List.forall_mem_cons, List.not_mem_nil, false_implies, implies_true, and_true]
    exact ⟨singleFailure_valid 2, hwRra_valid rfl (by decide), hwRra_valid rfl (by decide), hwRra_valid rfl (by decide)⟩)

/-- The same archives with `FAILURES` between `SEASONAL` and `DEVSEASONAL`. -/
def failuresBetween : Header :=
  forecastHeader [hwRra .hwpredict 4 1, hwRra .seasonal 2 0, singleFailure 3, hwRra .devseasonal 2 0] (by
    simp only [List.forall_mem_cons, List.not_mem_nil, false_implies, implies_true, and_true]
    exact ⟨hwRra_valid rfl (by decide), hwRra_valid rfl (by decide), singleFailure_valid 3, hwRra_valid rfl (by decide)⟩)

/-- The places in `failuresLast`. -/
def failuresLastIdx : FailureMember → ℕ
  | .hw => 0
  | .sea => 1
  | .dev => 2
  | .fail => 3

lemma failuresLast_first : failuresLast.Reordered failuresFirst (Equiv.swap 0 3) := by
  refine ⟨rfl, rfl, rfl, rfl, fun i => ?_⟩
  match i with
  | 0 => rfl
  | 1 => rfl
  | 2 => rfl
  | 3 => rfl
  | i + 4 =>
    rw [Equiv.swap_apply_of_ne_of_ne (by omega) (by omega)]
    rfl

lemma failuresLast_between : failuresLast.Reordered failuresBetween (Equiv.swap 2 3) := by
  refine ⟨rfl, rfl, rfl, rfl, fun i => ?_⟩
  match i with
  | 0 => rfl
  | 1 => rfl
  | 2 => rfl
  | 3 => rfl
  | i + 4 =>
    rw [Equiv.swap_apply_of_ne_of_ne (by omega) (by omega)]
    rfl

lemma failuresLast_linked : FailureLinked (failuresLast.rra[·]?) failuresLastIdx := by
  refine ⟨fun m => ?_, fun j r hj hcf _ => ?_⟩
  · cases m <;> exact ⟨_, rfl, rfl, rfl, by decide, rfl⟩
  · match j with
    | 0 => cases Option.some.inj hj; cases hcf
    | 1 => rfl
    | 2 => cases Option.some.inj hj; cases hcf
    | 3 => cases Option.some.inj hj; cases hcf
    | j + 4 => cases hj

lemma failuresLast_params : HwParams (failuresLast.rra[·]?) (forecastIdx failuresLastIdx) := by
  refine ⟨fun r hr => ?_, fun r hr => ?_, fun r hr w hw => ?_⟩
  · cases Option.some.inj hr
    exact ⟨1 / 2, 1 / 2, rfl, rfl⟩
  · cases Option.some.inj hr
    rfl
  · cases Option.some.inj hr
    cases hw
    norm_num

/-- An update with one value. -/
@[grind] def HwOp.value (x : RrdValue) : HwOp := .update 0 [x] ⟨[], []⟩ 10

theorem run_sameFailures_first :
    ∃ r r', ([HwOp.value (.fin 5), HwOp.value .nan, .smooth, HwOp.value (.fin 6)].foldl Rrd.hwStep
        (rrdInitData failuresLast fun _ => 0)).rra[3]? = some r ∧
      ([HwOp.value (.fin 5), HwOp.value .nan, .smooth, HwOp.value (.fin 6)].foldl Rrd.hwStep
        (rrdInitData failuresFirst fun _ => 0)).rra[0]? = some r' ∧ r'.ring = r.ring ∧ r'.cdpPrep = r.cdpPrep :=
  (@run_sameFailures failuresLast failuresFirst failuresLastIdx (Equiv.swap 0 3) (fun _ => 0) (fun _ => 0)
    failuresLast_first (fun _ => rfl) failuresLast_linked failuresLast_params (by decide) (by decide) _
    (by simp [HwOp.value, HwOp.Finite, ExtNum.isinf])).1

/-- Between the two archives, `FAILURES` takes the deviation of the step before, and misses the failure. -/
theorem failures_between_miss :
    failuresLast.Reordered failuresBetween (Equiv.swap 2 3) ∧
      FailureLinked (failuresLast.rra[·]?) failuresLastIdx ∧
      (([5, 6, 5, 7, 8].map fun x => HwOp.value (.fin x)).foldl Rrd.hwStep
        (rrdInitData failuresLast fun _ => 0)).rra[3]?.map (fun r => r.ring.slot 1) = some [.fin 1] ∧
      (([5, 6, 5, 7, 8].map fun x => HwOp.value (.fin x)).foldl Rrd.hwStep
        (rrdInitData failuresBetween fun _ => 0)).rra[2]?.map (fun r => r.ring.slot 1) = some [.fin 0] :=
  ⟨failuresLast_between, failuresLast_linked, by decide +kernel, by decide +kernel⟩

end Rrdtool
