import Rrdtool.Smoother.MovingAverage
import Rrdtool.Update.Forecast

/-!
# Forecasts do not depend on the order of the archives

The smoother of `src/rrd_hw.c` between the passes, and whole runs. Smoothing a `SEASONAL` archive rewrites
its rows and the intercepts of its `HWPREDICT` archive, smoothing a `DEVSEASONAL` archive its rows; neither
reads what the other writes, so the order in which `smooth_all_rras` reaches them does not matter.

`run_sameForecast` is the result: two files whose archives are in a different order store the same
predictions, coefficients, deviations and deviation predictions.
-/

namespace Rrdtool

/-! ### The smoother on the members -/

/-- The smoothed columns of an archive with their baselines, when it is smoothed. -/
@[grind] def smoothedCols (version dsCnt : ℕ) (rra : Rra) : Option (List (List RrdValue × RrdValue)) :=
  let offset := smootherOffset version rra.rraDef
  let cols := (List.range dsCnt).map (ringColumn rra.rraDef.rowCnt rra.ring)
  if offset = 0 ∨ cols.any (·.any (·.isnan)) then none
  else some (cols.map (smoothColumn rra.rraDef.rowCnt offset))

/-- The archive with new columns. -/
@[grind] def storeCols (rra : Rra) (cols : List (List RrdValue)) : Rra :=
  { rra with ring :=
      { rra.ring with slot := fun r =>
          if r < rra.rraDef.rowCnt then cols.map fun col => col.getD r .nan else rra.ring.slot r } }

/-- A `SEASONAL` archive after the smoother. -/
@[grind] def smoothSea (M : HwMethod) (version dsCnt : ℕ) (rra : Rra) : Rra :=
  match smoothedCols version dsCnt rra with
  | none => rra
  | some ps => storeCols rra (ps.map fun p => p.1.map fun v => M.functions.initSeasonality v p.2)

/-- A `DEVSEASONAL` archive after the smoother. -/
@[grind] def smoothDev (version dsCnt : ℕ) (rra : Rra) : Rra :=
  match smoothedCols version dsCnt rra with
  | none => rra
  | some ps => storeCols rra (ps.map (·.1))

/-- A `HWPREDICT` archive after its `SEASONAL` archive `sea` has been smoothed. -/
@[grind] def smoothHw (version dsCnt : ℕ) (sea hw : Rra) : Rra :=
  match smoothedCols version dsCnt sea with
  | none => hw
  | some ps =>
    { hw with cdpPrep := hw.cdpPrep.mapIdx fun d c =>
        { c with hwIntercept := c.hwIntercept + ((ps[d]?).map Prod.snd).getD (.fin 0) } }

section Smooth

variable {M : HwMethod} {T : DevReader} {version dsCnt : ℕ} {rras : List Rra} {g : Member → ℕ} {n : ℕ}

lemma modify_eq_set {i : ℕ} {r : Rra} (hi : rras[i]? = some r) (f : Rra → Rra) : rras.modify i f = rras.set i (f r) := by
  obtain ⟨hlt, rfl⟩ := List.getElem?_eq_some_iff.1 hi
  apply List.ext_getElem?
  intro j
  obtain rfl | hj := eq_or_ne i j
  · simp [hlt]
  · simp [hj]

lemma applySmoother_of_dev {i : ℕ} {r : Rra} (hi : rras[i]? = some r) (hcf : r.rraDef.cf ≠ .seasonal) :
    applySmoother version dsCnt rras i = rras.set i (smoothDev version dsCnt r) := by
  simp only [applySmoother, hi, smoothDev, smoothedCols, if_neg hcf]
  split
  · obtain ⟨hlt, rfl⟩ := List.getElem?_eq_some_iff.1 hi
    exact (List.set_getElem_self hlt).symm
  · rw [modify_eq_set hi]
    rfl

lemma applySmoother_of_sea {i : ℕ} {r hw : Rra} (hi : rras[i]? = some r) (hcf : r.rraDef.cf = .seasonal)
    (hfns : hwFunctionsOf rras r.rraDef.dependentRraIdx = some M.functions)
    (hhw : rras[r.rraDef.dependentRraIdx]? = some hw) (hne : r.rraDef.dependentRraIdx ≠ i) :
    applySmoother version dsCnt rras i =
      (rras.set i (smoothSea M version dsCnt r)).set r.rraDef.dependentRraIdx (smoothHw version dsCnt r hw) := by
  simp only [applySmoother, hi, smoothSea, smoothHw, smoothedCols, hcf, if_true, hfns]
  split
  · obtain ⟨hlt, rfl⟩ := List.getElem?_eq_some_iff.1 hi
    obtain ⟨hlt', rfl⟩ := List.getElem?_eq_some_iff.1 hhw
    rw [List.set_getElem_self, List.set_getElem_self]
  · rw [modify_eq_set hi, modify_eq_set (by rw [List.getElem?_set_ne hne.symm, hhw])]
    rfl

/-- One iteration of `smooth_all_rras`. -/
@[grind] def smoothRra (version dsCnt : ℕ) (rras : List Rra) (i : ℕ) : List Rra :=
  match rraDefAt rras i with
  | some rra => if rra.cf.isSeasonal then applySmoother version dsCnt rras i else rras
  | none => rras

/-- The members while `smooth_all_rras` is running. -/
@[grind] def smoothedMember (M : HwMethod) (version dsCnt : ℕ) (rr : Member → Rra) (sea dev : Bool) : Member → Rra
  | .hw => if sea then smoothHw version dsCnt (rr .sea) (rr .hw) else rr .hw
  | .sea => if sea then smoothSea M version dsCnt (rr .sea) else rr .sea
  | .dev => if dev then smoothDev version dsCnt (rr .dev) else rr .dev
  | .pred => rr .pred

lemma smoothDev_keeps (r : Rra) :
    (smoothDev version dsCnt r).rraDef = r.rraDef ∧ (smoothDev version dsCnt r).cdpPrep = r.cdpPrep := by
  unfold smoothDev
  split <;> exact ⟨rfl, rfl⟩

lemma smoothSea_keeps (r : Rra) :
    (smoothSea M version dsCnt r).rraDef = r.rraDef ∧ (smoothSea M version dsCnt r).cdpPrep = r.cdpPrep := by
  unfold smoothSea
  split <;> exact ⟨rfl, rfl⟩

lemma smoothHw_keeps (sea r : Rra) :
    (smoothHw version dsCnt sea r).rraDef = r.rraDef ∧ (smoothHw version dsCnt sea r).ring = r.ring ∧
      (smoothHw version dsCnt sea r).cdpPrep.length = r.cdpPrep.length := by
  unfold smoothHw
  split
  · exact ⟨rfl, rfl, rfl⟩
  · exact ⟨rfl, rfl, List.length_mapIdx⟩

lemma smoothedMember_keeps (rr : Member → Rra) (sea dev : Bool) (m : Member) :
    (smoothedMember M version dsCnt rr sea dev m).rraDef = (rr m).rraDef ∧
      (smoothedMember M version dsCnt rr sea dev m).cdpPrep.length = (rr m).cdpPrep.length := by
  cases m with
  | hw =>
    simp only [smoothedMember]
    split
    · exact ⟨(smoothHw_keeps _ _).1, (smoothHw_keeps _ _).2.2⟩
    · exact ⟨rfl, rfl⟩
  | sea =>
    simp only [smoothedMember]
    split
    · rw [(smoothSea_keeps _).1, (smoothSea_keeps _).2]
      exact ⟨rfl, rfl⟩
    · exact ⟨rfl, rfl⟩
  | dev =>
    simp only [smoothedMember]
    split
    · rw [(smoothDev_keeps _).1, (smoothDev_keeps _).2]
      exact ⟨rfl, rfl⟩
    · exact ⟨rfl, rfl⟩
  | pred => exact ⟨rfl, rfl⟩

/-- Smoothing another archive leaves the members alone. -/
lemma applySmoother_other (h : LinkedFor M T (rraDefAt rras) g) {i : ℕ} {r : Rra} (hi : rras[i]? = some r)
    (hother : ∀ m, i ≠ g m) (m : Member) :
    (applySmoother version dsCnt rras i)[g m]? = rras[g m]? := by
  by_cases hsea : r.rraDef.cf = .seasonal
  · simp only [applySmoother, hi, hsea, if_true]
    split
    · rfl
    · split
      · rfl
      · rename_i fns hfns
        have hne : r.rraDef.dependentRraIdx ≠ g m := by
          intro heq
          rw [heq] at hfns
          obtain ⟨rd, hrd, hrdcf, -⟩ := h.member m
          simp only [hwFunctionsOf, hrd, Option.map_some, hrdcf] at hfns
          cases m with
          | hw =>
            refine hother .sea (h.only i r.rraDef ?_ hsea heq)
            rw [rraDefAt, hi, Option.map_some]
          | sea => cases hfns
          | dev => cases hfns
          | pred => cases T <;> cases hfns
        simp [hne, hother m]
  · rw [applySmoother_of_dev hi hsea, List.getElem?_set_ne (hother m)]

lemma smoothRra_defs (i j : ℕ) : rraDefAt (smoothRra version dsCnt rras i) j = rraDefAt rras j := by
  unfold smoothRra
  split
  · split
    · rename_i r hi hcf
      have hspec := @applySmoother_spec version dsCnt rras rras i
        (List.forall₂_same.2 fun r _ => SmoothSpec.refl r) fun r' hr' => by
          rw [rraDefAt, hr'] at hi
          have hdef : r'.rraDef = r := Option.some.inj hi
          rw [hdef]
          exact hcf
      cases hj : rras[j]? with
      | none =>
        have hnone : (applySmoother version dsCnt rras i)[j]? = none := by
          rw [List.getElem?_eq_none_iff, ← hspec.length_eq]
          exact List.getElem?_eq_none_iff.1 hj
        rw [rraDefAt, rraDefAt, hj, hnone]
      | some r' =>
        obtain ⟨r'', hr'', hs⟩ := Pointwise.getElem?_left hspec hj
        rw [rraDefAt, rraDefAt, hj, hr'']
        exact congrArg some hs.rraDef
    · rfl
  · rfl

/-- The members after the first `k` archives have been visited. -/
lemma smooth_members (h : Members M T rras g n) {rr : Member → Rra} (hrr : ∀ m, rras[g m]? = some (rr m)) (k : ℕ) :
    (∀ j, rraDefAt ((List.range k).foldl (smoothRra version dsCnt) rras) j = rraDefAt rras j) ∧
      ∀ m, ((List.range k).foldl (smoothRra version dsCnt) rras)[g m]? =
        some (smoothedMember M version dsCnt rr (g .sea < k) (g .dev < k) m) := by
  have hcf : ∀ m, (rr m).rraDef.cf = m.cfFor M T := by
    intro m
    obtain ⟨r, hr, hcf, -⟩ := h.at m
    exact Option.some.inj ((hrr m).symm.trans hr) ▸ hcf
  have hdep : (rr .sea).rraDef.dependentRraIdx = g .hw := by
    obtain ⟨r, hr, -, -, -, hdep, -⟩ := h.at .sea
    exact Option.some.inj ((hrr .sea).symm.trans hr) ▸ hdep
  induction k with
  | zero =>
    refine ⟨fun j => rfl, fun m => ?_⟩
    rw [List.range_zero, List.foldl_nil, hrr]
    cases m <;> simp [smoothedMember]
  | succ k ih =>
    obtain ⟨ihdefs, ih⟩ := ih
    rw [List.range_succ, List.foldl_append, List.foldl_cons, List.foldl_nil]
    generalize (List.range k).foldl (smoothRra version dsCnt) rras = mid at ihdefs ih
    refine ⟨fun j => (smoothRra_defs k j).trans (ihdefs j), fun m => ?_⟩
    have hlinked : LinkedFor M T (rraDefAt mid) g := by
      rw [funext ihdefs]
      exact h.linked
    have hinj := fun {m m' : Member} (heq : g m = g m') => hlinked.injective heq
    by_cases hsea : g .sea = k
    · have hdev : (decide (g .dev < k + 1)) = decide (g .dev < k) := by
        have : g .dev ≠ k := fun heq => Member.noConfusion (hinj (heq.trans hsea.symm))
        exact decide_eq_decide.2 (by omega)
      have hmid := ih .sea
      have hhw := ih .hw
      simp only [smoothedMember, hsea, lt_irrefl, decide_false, Bool.false_eq_true, if_false] at hmid hhw
      have hfns : hwFunctionsOf mid (g .hw) = some M.functions := by
        rw [← h.hwFunctionsOf, hwFunctionsOf, hwFunctionsOf, ihdefs]
      have hne : g .hw ≠ k := fun heq => Member.noConfusion (hinj (heq.trans hsea.symm))
      have hdef : rraDefAt mid k = some (rr .sea).rraDef := by rw [rraDefAt, hmid, Option.map_some]
      have hsmooth : smoothRra version dsCnt mid k =
          (mid.set k (smoothSea M version dsCnt (rr .sea))).set (g .hw)
            (smoothHw version dsCnt (rr .sea) (rr .hw)) := by
        have hseacf : (rr .sea).rraDef.cf = .seasonal := hcf .sea
        simp only [smoothRra, hdef, hseacf, Cf.isSeasonal, true_or, decide_true, if_true]
        rw [applySmoother_of_sea hmid (hcf .sea) (hdep ▸ hfns) (hdep ▸ hhw) (hdep ▸ hne), hdep]
      have hklt := (List.getElem?_eq_some_iff.1 hmid).1
      have hhwlt := (List.getElem?_eq_some_iff.1 hhw).1
      rw [hsmooth]
      cases m with
      | hw =>
        rw [List.getElem?_set_self (by rw [List.length_set]; exact hhwlt)]
        simp [smoothedMember, hsea]
      | sea =>
        rw [hsea, List.getElem?_set_ne hne, List.getElem?_set_self hklt]
        simp [smoothedMember]
      | dev =>
        rw [List.getElem?_set_ne fun heq => Member.noConfusion (hinj heq),
          List.getElem?_set_ne fun heq => Member.noConfusion (hinj (hsea.trans heq)), ih .dev]
        simp only [smoothedMember, hdev]
      | pred =>
        rw [List.getElem?_set_ne fun heq => Member.noConfusion (hinj heq),
          List.getElem?_set_ne fun heq => Member.noConfusion (hinj (hsea.trans heq)), ih .pred]
        rfl
    · have hsea' : (decide (g .sea < k + 1)) = decide (g .sea < k) := decide_eq_decide.2 (by omega)
      by_cases hdevk : g .dev = k
      · have hmid := ih .dev
        simp only [smoothedMember, hdevk, lt_irrefl, decide_false, Bool.false_eq_true, if_false] at hmid
        have hdef : rraDefAt mid k = some (rr .dev).rraDef := by rw [rraDefAt, hmid, Option.map_some]
        have hsmooth : smoothRra version dsCnt mid k = mid.set k (smoothDev version dsCnt (rr .dev)) := by
          have hdevcf : (rr .dev).rraDef.cf = .devseasonal := hcf .dev
          simp only [smoothRra, hdef, hdevcf, Cf.isSeasonal, or_true, decide_true, if_true]
          exact applySmoother_of_dev hmid (by rw [hcf]; exact fun heq => Cf.noConfusion heq)
        have hklt := (List.getElem?_eq_some_iff.1 hmid).1
        rw [hsmooth]
        by_cases hm : m = .dev
        · subst hm
          rw [hdevk, List.getElem?_set_self hklt]
          simp [smoothedMember]
        · rw [List.getElem?_set_ne fun heq => hm (hinj (heq.symm.trans hdevk.symm)), ih m]
          cases m with
          | hw => simp only [smoothedMember, hsea']
          | sea => simp only [smoothedMember, hsea']
          | dev => exact absurd rfl hm
          | pred => rfl
      · have hdev' : (decide (g .dev < k + 1)) = decide (g .dev < k) := decide_eq_decide.2 (by omega)
        rw [hsea', hdev', ← ih m, smoothRra]
        split
        · rename_i rd hrd
          split
          · rename_i hseasonal
            obtain ⟨r, hr, rfl⟩ := Option.map_eq_some_iff.1 hrd
            refine applySmoother_other hlinked hr (fun m' heq => ?_) m
            obtain ⟨rd', hrd', hcf', -⟩ := hlinked.member m'
            rw [← heq, hrd] at hrd'
            obtain rfl := Option.some.inj hrd'
            rw [hcf'] at hseasonal
            cases m' with
            | hw => cases M <;> cases hseasonal
            | sea => exact hsea heq.symm
            | dev => exact hdevk heq.symm
            | pred => cases T <;> cases hseasonal
          · rfl
        · rfl

/-- The columns that are smoothed consist of numbers, and so do the results. -/
lemma smoothedCols_numbers {r : Rra} {ps : List (List RrdValue × RrdValue)} (hrows : 0 < r.rraDef.rowCnt)
    (hwindow : ∀ w : ℚ, r.rraDef.smoothingWindow = .fin w → w ≤ 1) (hps : smoothedCols version n r = some ps)
    {d : ℕ} (hd : d < n) (hproper : ∀ j, ((r.ring.slot j).getD d .nan).isinf = false) :
    (∃ q : ℚ, (r.ring.slot 0).getD d .nan = .fin q) ∧
      ∃ p, ps[d]? = some p ∧ AllFin p.1 ∧ ∃ q : ℚ, p.2 = .fin q := by
  simp only [smoothedCols] at hps
  split at hps
  · cases hps
  · rename_i hdo
    obtain rfl := Option.some.inj hps
    have hcol : AllFin (ringColumn r.rraDef.rowCnt r.ring d) := by
      intro v hv
      have hknown : v.isnan = false := by
        refine Bool.eq_false_iff.2 fun hnan => hdo (.inr ?_)
        rw [List.any_eq_true]
        refine ⟨_, List.mem_map.2 ⟨d, List.mem_range.2 hd, rfl⟩, ?_⟩
        rw [List.any_eq_true]
        exact ⟨v, hv, hnan⟩
      obtain ⟨j, -, rfl⟩ := List.mem_map.1 hv
      have := hproper j
      cases hval : (r.ring.slot j).getD d .nan with
      | nan =>
        rw [hval] at hknown
        cases hknown
      | ninf =>
        rw [hval] at this
        cases this
      | pinf =>
        rw [hval] at this
        cases this
      | fin q => exact ⟨q, rfl⟩
    have hlen : (ringColumn r.rraDef.rowCnt r.ring d).length = r.rraDef.rowCnt := by simp [ringColumn]
    have hnum := smoothColumn_numbers hcol hlen (@smootherOffset_lt version _ hrows fun _ => hwindow)
    refine ⟨hcol _ (List.mem_map.2 ⟨0, List.mem_range.2 hrows, rfl⟩), _, ?_, hnum⟩
    rw [List.getElem?_map, List.getElem?_map, List.getElem?_range hd]
    rfl

/-- The phase behind the smoother. -/
lemma HwPhase.smooth {hw : CdpPrep} {v w : RrdValue} {b : ℚ} (hw' : HwPhase hw v) {q : ℚ} (hv : v = .fin q)
    (hb : w.isinf = false) : HwPhase { hw with hwIntercept := hw.hwIntercept + .fin b } w := by
  cases hw' with
  | bootstrap _ hnan =>
    rw [hv] at hnan
    cases hnan
  | running hI hS _ => exact .running (by rw [hI]; rfl) hS hb

end Smooth

section SmoothAll

variable {rrd rrd' : Rrd} {g g' : Member → ℕ} {n : ℕ}

lemma smoothAllRras_rra (rrd : Rrd) : (smoothAllRras rrd).rra =
    (List.range rrd.rra.length).foldl (smoothRra rrd.version rrd.dsCnt) rrd.rra := rfl

lemma rraDefAt_smoothAllRras (j : ℕ) : rraDefAt (smoothAllRras rrd).rra j = rraDefAt rrd.rra j := by
  rw [smoothAllRras_rra]
  generalize List.range rrd.rra.length = is
  induction is using List.reverseRecOn with
  | nil => rfl
  | append_singleton is i ih => rw [List.foldl_append, List.foldl_cons, List.foldl_nil, smoothRra_defs, ih]

/-- The members behind the smoother. -/
lemma smoothAllRras_member (h : Members M T rrd.rra g n) {rr : Member → Rra} (hrr : ∀ m, rrd.rra[g m]? = some (rr m))
    (m : Member) : (smoothAllRras rrd).rra[g m]? =
      some (smoothedMember M rrd.version rrd.dsCnt rr true true m) := by
  have hsea : g .sea < rrd.rra.length := (List.getElem?_eq_some_iff.1 (hrr .sea)).1
  have hdev : g .dev < rrd.rra.length := (List.getElem?_eq_some_iff.1 (hrr .dev)).1
  rw [smoothAllRras_rra, (smooth_members h hrr rrd.rra.length).2 m, decide_eq_true hsea, decide_eq_true hdev]

lemma Members.exists (h : Members M T rrd.rra g n) : ∃ rr : Member → Rra, ∀ m, rrd.rra[g m]? = some (rr m) := by
  choose rr hrr using fun m => h.at m
  exact ⟨rr, fun m => (hrr m).1⟩

lemma Members.smooth (h : Members M T rrd.rra g n) : Members M T (smoothAllRras rrd).rra g n := by
  have hdefs : rraDefAt (smoothAllRras rrd).rra = rraDefAt rrd.rra := funext rraDefAt_smoothAllRras
  obtain ⟨rr, hrr⟩ := h.exists
  refine ⟨hdefs ▸ h.linked, fun m r hr => ?_⟩
  rw [smoothAllRras_member h hrr m] at hr
  rw [← Option.some.inj hr, (smoothedMember_keeps rr true true m).2]
  exact h.width m (rr m) (hrr m)

/-- The smoother keeps the phases. -/
lemma Phases.smooth (h : Members .additive T rrd.rra g n) (hn : rrd.dsCnt = n) (hparams : HwParams (rraDefAt rrd.rra) g)
    (hphases : Phases rrd.rra g n) : Phases (smoothAllRras rrd).rra g n := by
  obtain ⟨rr, hrr⟩ := h.exists
  have hsea := hrr .sea
  have hdef : rraDefAt rrd.rra (g .sea) = some (rr .sea).rraDef := by rw [rraDefAt, hsea, Option.map_some]
  have hrows : 0 < (rr .sea).rraDef.rowCnt := by
    obtain ⟨r, hr, -, -, hrows, -⟩ := h.at .sea
    exact Option.some.inj (hsea.symm.trans hr) ▸ hrows
  have hwindow := hparams.window _ hdef
  have hmember := smoothAllRras_member h hrr
  have hproper : ∀ d < n, ∀ j, (((rr .sea).ring.slot j).getD d .nan).isinf = false := by
    intro d hd j
    cases hphases.rows _ hsea d hd j with
    | bootstrap _ hnan => rw [hnan]; rfl
    | running _ _ hinf => exact hinf
  have hcachedEq : ∀ d, cdpAt (smoothAllRras rrd).rra (g .sea) d = cdpAt rrd.rra (g .sea) d := by
    intro d
    rw [cdpAt, cdpAt, hmember .sea, hsea, Option.bind_some, Option.bind_some]
    simp only [smoothedMember, if_true, (smoothSea_keeps _).2]
  rw [hn] at hmember
  cases hps : smoothedCols rrd.version n (rr .sea) with
  | none =>
    have hhwEq : ∀ d, cdpAt (smoothAllRras rrd).rra (g .hw) d = cdpAt rrd.rra (g .hw) d := by
      intro d
      rw [cdpAt, cdpAt, hmember .hw, hrr .hw]
      simp only [smoothedMember, if_true, smoothHw, hps]
    refine ⟨fun d hd => ?_, fun r hr d hd j => ?_⟩
    · rw [hhwEq, hcachedEq]
      exact hphases.cached d hd
    · rw [hmember .sea] at hr
      rw [hhwEq, ← Option.some.inj hr]
      simp only [smoothedMember, if_true, smoothSea, hps]
      exact hphases.rows _ hsea d hd j
  | some ps =>
    have hnext : ∀ d < n, ∀ w : RrdValue, w.isinf = false →
        HwPhase (cdpAt (smoothAllRras rrd).rra (g .hw) d) w := by
      intro d hd w hw
      obtain ⟨⟨q, hq⟩, p, hp, -, b, hb⟩ := smoothedCols_numbers hrows hwindow hps hd (hproper d hd)
      have hlt : d < (rr .hw).cdpPrep.length := by
        rw [h.width .hw _ (hrr .hw)]
        exact hd
      have hnew : cdpAt (smoothAllRras rrd).rra (g .hw) d = { cdpAt rrd.rra (g .hw) d with
          hwIntercept := (cdpAt rrd.rra (g .hw) d).hwIntercept + .fin b } := by
        rw [cdpAt, cdpAt, hmember .hw, hrr .hw, Option.bind_some, Option.bind_some]
        simp only [smoothedMember, if_true, smoothHw, hps, List.getElem?_mapIdx, List.getElem?_eq_getElem hlt,
          Option.map_some, Option.getD_some, hp, hb]
      rw [hnew]
      exact HwPhase.smooth (hphases.rows _ hsea d hd 0) hq hw
    refine ⟨fun d hd => hnext d hd _ ?_, fun r hr d hd j => hnext d hd _ ?_⟩
    · rw [hcachedEq]
      cases hphases.cached d hd with
      | bootstrap _ hnan => rw [hnan]; rfl
      | running _ _ hinf => exact hinf
    · rw [hmember .sea] at hr
      rw [← Option.some.inj hr]
      simp only [smoothedMember, if_true, smoothSea, hps, storeCols]
      split
      · rename_i hj
        obtain ⟨-, p, hp, hfin, b, hb⟩ := smoothedCols_numbers hrows hwindow hps hd (hproper d hd)
        rw [List.getD_eq_getElem?_getD, List.getElem?_map, List.getElem?_map, hp, Option.map_some, Option.map_some,
          Option.getD_some, List.getD_eq_getElem?_getD, List.getElem?_map]
        cases hval : p.1[j]? with
        | none => rfl
        | some v =>
          obtain ⟨q, rfl⟩ := hfin v (List.mem_of_getElem? hval)
          rw [hb]
          rfl
      · exact hproper d hd j

lemma smoothSea_relink (version dsCnt : ℕ) (r : Rra) (k : ℕ) :
    smoothSea M version dsCnt (r.relink k) = (smoothSea M version dsCnt r).relink k := by
  have hcols : smoothedCols version dsCnt (r.relink k) = smoothedCols version dsCnt r := rfl
  simp only [smoothSea, hcols]
  cases smoothedCols version dsCnt r <;> rfl

lemma smoothDev_relink (version dsCnt : ℕ) (r : Rra) (k : ℕ) :
    smoothDev version dsCnt (r.relink k) = (smoothDev version dsCnt r).relink k := by
  have hcols : smoothedCols version dsCnt (r.relink k) = smoothedCols version dsCnt r := rfl
  simp only [smoothDev, hcols]
  cases smoothedCols version dsCnt r <;> rfl

lemma smoothHw_relink (version dsCnt : ℕ) (sea hw : Rra) (k k' : ℕ) :
    smoothHw version dsCnt (sea.relink k) (hw.relink k') = (smoothHw version dsCnt sea hw).relink k' := by
  have hcols : smoothedCols version dsCnt (sea.relink k) = smoothedCols version dsCnt sea := rfl
  simp only [smoothHw, hcols]
  cases smoothedCols version dsCnt sea <;> rfl

/-- The smoother stores the same in both files. -/
lemma SameForecast.smooth (h : Members M T rrd.rra g n) (h' : Members M T rrd'.rra g' n) (hversion : rrd'.version = rrd.version)
    (hdsCnt : rrd'.dsCnt = rrd.dsCnt) (hsame : SameForecast rrd.rra rrd'.rra g g') :
    SameForecast (smoothAllRras rrd).rra (smoothAllRras rrd').rra g g' := by
  choose rr hrr hrr' using hsame
  intro m
  refine ⟨_, smoothAllRras_member h hrr m, ?_⟩
  rw [smoothAllRras_member h' hrr' m, hversion, hdsCnt]
  cases m with
  | hw => simp only [smoothedMember, if_true, smoothHw_relink]
  | sea => simp only [smoothedMember, if_true, smoothSea_relink]
  | dev => simp only [smoothedMember, if_true, smoothDev_relink]
  | pred => rfl

end SmoothAll

/-! ### Runs -/

/-- A step of a run: an update that closes one step, or the smoothing at the end of a call. -/
inductive HwOp where
  | update (procPdpCnt : ℕ) (temps : List RrdValue) (coef : SeasonalCoef) (time : ℕ)
  | smooth

/-- The values of an update are known numbers or unknown, none is infinite. -/
@[grind] def HwOp.Finite : HwOp → Prop
  | .update _ temps _ _ => ∀ v ∈ temps, v.isinf = false
  | .smooth => True

def Rrd.hwStep (rrd : Rrd) : HwOp → Rrd
  | .update procPdpCnt temps coef time => rrd.pass ⟨1, procPdpCnt, temps, coef, time⟩
  | .smooth => smoothAllRras rrd

/-- The order of the archives does not matter for the step. -/
def HwOp.Starts (M : HwMethod) (g : Member → ℕ) (rrd : Rrd) : HwOp → Prop
  | .update _ temps _ _ => StartsAll M rrd.rra g rrd.dsCnt temps
  | .smooth => True

/-- The state of a file between two steps. -/
structure ForecastInv (M : HwMethod) (T : DevReader) (h : Header) (g : Member → ℕ) (rrd : Rrd) : Prop where
  version : rrd.version = h.version
  dsCnt : rrd.dsCnt = h.ds.length
  rraDef : ∀ j, rraDefAt rrd.rra j = h.rra[j]?
  members : Members M T rrd.rra g h.ds.length

section Run

variable {M : HwMethod} {T : DevReader} {h h' : Header} {g g' : Member → ℕ} {rrd rrd' : Rrd}

lemma isinf_getD {temps : List RrdValue} (hfin : ∀ v ∈ temps, v.isinf = false) (d : ℕ) :
    (temps.getD d .nan).isinf = false := by
  rw [List.getD_eq_getElem?_getD]
  cases hd : temps[d]? with
  | none => rfl
  | some v => exact hfin v (List.mem_of_getElem? hd)

/-- One step of a run. -/
lemma hwStep_inv {op : HwOp} (hinv : ForecastInv M T h g rrd) (hstart : op.Starts M g rrd) :
    ForecastInv M T h g (rrd.hwStep op) := by
  cases op with
  | update procPdpCnt temps coef time =>
    have hstart : StartsAll M rrd.rra g rrd.dsCnt temps := hstart
    rw [hinv.dsCnt] at hstart
    exact ⟨hinv.version, hinv.dsCnt, fun j => (rraDefAt_pass j).trans (hinv.rraDef j), hinv.members.pass rfl hstart⟩
  | smooth =>
    exact ⟨hinv.version, hinv.dsCnt, fun j => (rraDefAt_smoothAllRras j).trans (hinv.rraDef j), hinv.members.smooth⟩

lemma hwStep_same (hds : h'.ds.length = h.ds.length) (hversion : h'.version = h.version) {op : HwOp}
    (hinv : ForecastInv M T h g rrd) (hinv' : ForecastInv M T h' g' rrd') (hstart : op.Starts M g rrd)
    (hsame : SameForecast rrd.rra rrd'.rra g g') :
    SameForecast (rrd.hwStep op).rra (rrd'.hwStep op).rra g g' := by
  have hmembers' := hinv'.members
  rw [hds] at hmembers'
  cases op with
  | update procPdpCnt temps coef time =>
    have hstart : StartsAll M rrd.rra g rrd.dsCnt temps := hstart
    rw [hinv.dsCnt] at hstart
    exact SameForecast.pass hinv.members hmembers' rfl hstart hsame
  | smooth =>
    refine SameForecast.smooth hinv.members hmembers' ?_ ?_ hsame
    · rw [hinv.version, hinv'.version, hversion]
    · rw [hinv.dsCnt, hinv'.dsCnt, hds]

/-- A step of the other file starts as well. -/
lemma HwOp.Starts.same {op : HwOp} (hdsCnt : rrd'.dsCnt = rrd.dsCnt) (hsame : SameForecast rrd.rra rrd'.rra g g')
    (hstart : op.Starts M g rrd) : op.Starts M g' rrd' := by
  cases op with
  | update procPdpCnt temps coef time =>
    have hstart : StartsAll M rrd.rra g rrd.dsCnt temps := hstart
    rw [← hdsCnt] at hstart
    exact hsame.startsAll hstart
  | smooth => trivial

lemma rrdInitData_at (hlinked : LinkedFor M T (h.rra[·]?) g) (random : ℕ → ℕ) (m : Member) :
    ∃ rd, h.rra[g m]? = some rd ∧ rd.cf = m.cfFor M T ∧ rd.dependentRraIdx = g m.dep ∧
      (rrdInitData h random).rra[g m]? = some (initRra h rd (random (g m))) := by
  obtain ⟨rd, hrd, hcf, -, -, hdep⟩ := hlinked.member m
  have hrd : h.rra[g m]? = some rd := hrd
  refine ⟨rd, hrd, hcf, hdep, ?_⟩
  rw [rrdInitData, List.getElem?_mapIdx]
  simp only [hrd, Option.map_some]

lemma rrdInitData_forecastInv (hlinked : LinkedFor M T (h.rra[·]?) g) (random : ℕ → ℕ) :
    ForecastInv M T h g (rrdInitData h random) := by
  have hdefs : rraDefAt (rrdInitData h random).rra = (h.rra[·]?) := funext (rraDefAt_rrdInitData random)
  refine ⟨rfl, by simp [Rrd.dsCnt, rrdInitData], congrFun hdefs, ⟨hdefs ▸ hlinked, fun m r hr => ?_⟩⟩
  obtain ⟨rd, -, -, -, hr'⟩ := rrdInitData_at hlinked random m
  rw [hr'] at hr
  rw [← Option.some.inj hr, initRra, List.length_replicate]

/-! ### The phases along a run -/

/-- One step keeps the phases. -/
lemma hwStep_phases (hparams : HwParams (h.rra[·]?) g) {op : HwOp} (hfin : op.Finite) (hinv : ForecastInv .additive T h g rrd)
    (hphases : Phases rrd.rra g h.ds.length) :
    op.Starts .additive g rrd ∧ Phases (rrd.hwStep op).rra g h.ds.length := by
  have hparams' : HwParams (rraDefAt rrd.rra) g := by
    rw [funext hinv.rraDef]
    exact hparams
  cases op with
  | update procPdpCnt temps coef time =>
    have hx := fun d (_ : d < h.ds.length) => isinf_getD hfin d
    refine ⟨?_, Phases.pass hinv.members hparams' rfl hphases hx⟩
    show StartsAll .additive rrd.rra g rrd.dsCnt temps
    rw [hinv.dsCnt]
    exact fun d hd => (hphases.cached d hd).starts (hx d hd)
  | smooth => exact ⟨trivial, Phases.smooth hinv.members hinv.dsCnt hparams' hphases⟩

lemma rrdInitData_phases (hlinked : LinkedFor .additive T (h.rra[·]?) g) (random : ℕ → ℕ) :
    Phases (rrdInitData h random).rra g h.ds.length := by
  have hcdp : ∀ m d, d < h.ds.length → m = .hw ∨ m = .sea →
      (cdpAt (rrdInitData h random).rra (g m) d).hwIntercept = .nan := by
    intro m d hd hm
    obtain ⟨rd, -, hcf, -, hr⟩ := rrdInitData_at hlinked random m
    rw [cdpAt, hr, Option.bind_some, initRra, List.getElem?_replicate, if_pos hd, Option.getD_some]
    obtain rfl | rfl := hm
    · rw [initCdp, hcf]
      rfl
    · rw [initCdp, hcf]
      rfl
  refine ⟨fun d hd => .bootstrap (hcdp .hw d hd (.inl rfl)) (hcdp .sea d hd (.inr rfl)), fun r hr d hd j => ?_⟩
  obtain ⟨rd, -, -, -, hr'⟩ := rrdInitData_at hlinked random .sea
  rw [hr'] at hr
  refine .bootstrap (hcdp .hw d hd (.inl rfl)) ?_
  rw [← Option.some.inj hr, initRra]
  simp [hd]

/-- The phases behind a run. -/
lemma run_phases (hlinked : LinkedFor .additive T (h.rra[·]?) g) (hparams : HwParams (h.rra[·]?) g) (random : ℕ → ℕ)
    {ops : List HwOp} (hfin : ∀ op ∈ ops, op.Finite) :
    ForecastInv .additive T h g (ops.foldl Rrd.hwStep (rrdInitData h random)) ∧
      Phases (ops.foldl Rrd.hwStep (rrdInitData h random)).rra g h.ds.length := by
  induction ops using List.reverseRecOn with
  | nil => exact ⟨rrdInitData_forecastInv hlinked random, rrdInitData_phases hlinked random⟩
  | append_singleton ops op ih =>
    obtain ⟨hinv, hphases⟩ := ih fun op' hop => hfin op' (List.mem_append_left [op] hop)
    obtain ⟨hstart, hnext⟩ := hwStep_phases hparams (hfin op (by simp)) hinv hphases
    rw [List.foldl_append]
    exact ⟨hwStep_inv hinv hstart, hnext⟩

/-! ### Two files -/

/-- The archives of one header in another order, with `dependent_rra_idx` changed accordingly. -/
structure Header.Reordered (h h' : Header) (σ : Equiv.Perm ℕ) : Prop where
  version : h'.version = h.version
  pdpStep : h'.pdpStep = h.pdpStep
  lastUp : h'.lastUp = h.lastUp
  ds : h'.ds = h.ds
  rra : ∀ i, h'.rra[σ i]? = h.rra[i]?.map fun r => { r with dependentRraIdx := σ r.dependentRraIdx }

lemma LinkedFor.reordered {σ : Equiv.Perm ℕ} (hre : h.Reordered h' σ) (hlinked : LinkedFor M T (h.rra[·]?) g)
    (hside : T = .failures → (σ (g .pred) < σ (g .sea) ↔ σ (g .pred) < σ (g .dev))) :
    LinkedFor M T (h'.rra[·]?) (fun m => σ (g m)) := by
  refine ⟨fun m => ?_, fun j r hj hcf hdep => ?_, hside⟩
  · obtain ⟨r, hr, hcf, hone, hrows, hdep⟩ := hlinked.member m
    refine ⟨{ r with dependentRraIdx := σ r.dependentRraIdx }, ?_, hcf, hone, hrows, congrArg σ hdep⟩
    show h'.rra[σ (g m)]? = _
    rw [hre.rra, show h.rra[g m]? = some r from hr, Option.map_some]
  · obtain ⟨i, rfl⟩ := σ.surjective j
    have hj : h'.rra[σ i]? = some r := hj
    rw [hre.rra] at hj
    obtain ⟨r₀, hr₀, rfl⟩ := Option.map_eq_some_iff.1 hj
    rw [hlinked.only i r₀ hr₀ hcf (σ.injective hdep)]

lemma rrdInitData_same {σ : Equiv.Perm ℕ} {random random' : ℕ → ℕ} (hre : h.Reordered h' σ)
    (hrandom : ∀ i, random' (σ i) = random i) (hlinked : LinkedFor M T (h.rra[·]?) g) :
    SameForecast (rrdInitData h random).rra (rrdInitData h' random').rra g (fun m => σ (g m)) := by
  intro m
  obtain ⟨rd, hrd, -, hdep, hr⟩ := rrdInitData_at hlinked random m
  refine ⟨initRra h rd (random (g m)), hr, ?_⟩
  rw [rrdInitData, List.getElem?_mapIdx]
  simp only [hre.rra, hrd, Option.map_some, hrandom, initRra, hre.ds, hre.lastUp, hre.pdpStep, hdep, Rra.relink]
  rfl

/-- Files whose archives are in a different order hold the same forecasts behind every run in whose steps the order
does not matter. -/
lemma run_same_of_starts {σ : Equiv.Perm ℕ} {random random' : ℕ → ℕ} (hre : h.Reordered h' σ)
    (hrandom : ∀ i, random' (σ i) = random i) (hlinked : LinkedFor M T (h.rra[·]?) g)
    (hside : T = .failures → (σ (g .pred) < σ (g .sea) ↔ σ (g .pred) < σ (g .dev))) {ops : List HwOp}
    (hstart : ∀ ops₁ op, ops₁ ++ [op] <+: ops → op.Starts M g (ops₁.foldl Rrd.hwStep (rrdInitData h random))) :
    ForecastInv M T h g (ops.foldl Rrd.hwStep (rrdInitData h random)) ∧
      ForecastInv M T h' (fun m => σ (g m)) (ops.foldl Rrd.hwStep (rrdInitData h' random')) ∧
      SameForecast (ops.foldl Rrd.hwStep (rrdInitData h random)).rra
        (ops.foldl Rrd.hwStep (rrdInitData h' random')).rra g fun m => σ (g m) := by
  induction ops using List.reverseRecOn with
  | nil =>
    exact ⟨rrdInitData_forecastInv hlinked random, rrdInitData_forecastInv (hlinked.reordered hre hside) random',
      rrdInitData_same hre hrandom hlinked⟩
  | append_singleton ops op ih =>
    obtain ⟨hinv, hinv', hsame⟩ := ih fun ops₁ op' hfront => hstart ops₁ op' (hfront.trans (List.prefix_append ops [op]))
    have hnow := hstart ops op (List.prefix_refl _)
    have hnow' := hnow.same (by rw [hinv.dsCnt, hinv'.dsCnt, hre.ds]) hsame
    rw [List.foldl_append, List.foldl_append]
    exact ⟨hwStep_inv hinv hnow, hwStep_inv hinv' hnow',
      hwStep_same (by rw [hre.ds]) hre.version hinv hinv' hnow hsame⟩

lemma SameForecast.ring_cdpPrep {rras rras' : List Rra} (hsame : SameForecast rras rras' g g') (m : Member) :
    ∃ r r', rras[g m]? = some r ∧ rras'[g' m]? = some r' ∧ r'.ring = r.ring ∧ r'.cdpPrep = r.cdpPrep := by
  obtain ⟨r, hr, hr'⟩ := hsame m
  exact ⟨r, _, hr, hr', rfl, rfl⟩

/-- Files whose archives are in a different order store the same forecasts, in every run without infinite
values and with numbers as parameters. -/
theorem run_sameForecast {σ : Equiv.Perm ℕ} {random random' : ℕ → ℕ} (hre : h.Reordered h' σ)
    (hrandom : ∀ i, random' (σ i) = random i) (hlinked : Linked (h.rra[·]?) g) (hparams : HwParams (h.rra[·]?) g)
    {ops : List HwOp} (hfin : ∀ op ∈ ops, op.Finite) (m : Member) :
    ∃ r r', (ops.foldl Rrd.hwStep (rrdInitData h random)).rra[g m]? = some r ∧
      (ops.foldl Rrd.hwStep (rrdInitData h' random')).rra[σ (g m)]? = some r' ∧
      r'.ring = r.ring ∧ r'.cdpPrep = r.cdpPrep := by
  have hstart : ∀ ops₁ op, ops₁ ++ [op] <+: ops →
      op.Starts .additive g (ops₁.foldl Rrd.hwStep (rrdInitData h random)) := by
    intro ops₁ op hfront
    have hmem : ∀ op' ∈ ops₁ ++ [op], op'.Finite := fun op' hop => hfin op' (hfront.subset hop)
    obtain ⟨hinv, hphases⟩ := run_phases hlinked.additive.devpredict hparams random fun op' hop =>
      hmem op' (List.mem_append_left [op] hop)
    exact (hwStep_phases hparams (hmem op (by simp)) hinv hphases).1
  obtain ⟨-, -, hsame⟩ := run_same_of_starts hre hrandom hlinked.additive.devpredict
    (fun hT => DevReader.noConfusion hT) hstart
  exact hsame.ring_cdpPrep m

end Run

/-- One `GAUGE` with the given archives. -/
def forecastHeader (rra : List RraDef) (valid : ∀ r ∈ rra, r.Valid) : Header where
  version := 4
  pdpStep := 10
  lastUp := 1000
  ds := [gaugeDs ['a'] 60]
  rra := rra
  pdpStep_pos := tenSeconds_pos
  lastUp_lt := thousand_lt
  valid := valid

lemma hwRra_valid {cf : Cf} {rowCnt dep : ℕ} (hcf : cf.isPlain = false) (hrows : 0 < rowCnt) :
    (hwRra cf rowCnt dep).Valid := by
  refine ⟨hrows, Nat.one_pos, by norm_num [hwRra, plainRra], fun hplain => ?_⟩
  rw [show (hwRra cf rowCnt dep).cf = cf from rfl, hcf] at hplain
  cases hplain

/-- The archives with `HWPREDICT` in front. -/
def hwFirst : Header :=
  forecastHeader [hwRra .hwpredict 4 1, hwRra .seasonal 4 0, hwRra .devseasonal 4 0, hwRra .devpredict 4 2] (by
    simp only [List.forall_mem_cons, List.not_mem_nil, false_implies, implies_true, and_true]
    exact ⟨hwRra_valid rfl (by decide), hwRra_valid rfl (by decide), hwRra_valid rfl (by decide),
      hwRra_valid rfl (by decide)⟩)

/-- The same archives with `SEASONAL` in front. -/
def seasonalFirst : Header :=
  forecastHeader [hwRra .seasonal 4 1, hwRra .hwpredict 4 0, hwRra .devseasonal 4 1, hwRra .devpredict 4 2] (by
    simp only [List.forall_mem_cons, List.not_mem_nil, false_implies, implies_true, and_true]
    exact ⟨hwRra_valid rfl (by decide), hwRra_valid rfl (by decide), hwRra_valid rfl (by decide),
      hwRra_valid rfl (by decide)⟩)

/-- The places in `hwFirst`. -/
def hwFirstIdx : Member → ℕ
  | .hw => 0
  | .sea => 1
  | .dev => 2
  | .pred => 3

lemma hwFirst_reordered : hwFirst.Reordered seasonalFirst (Equiv.swap 0 1) := by
  refine ⟨rfl, rfl, rfl, rfl, fun i => ?_⟩
  match i with
  | 0 => rfl
  | 1 => rfl
  | 2 => rfl
  | 3 => rfl
  | i + 4 =>
    rw [Equiv.swap_apply_of_ne_of_ne (by omega) (by omega)]
    rfl

theorem run_sameForecast_swapped :
    ∃ r r', ([.update 0 [.nan] ⟨[], []⟩ 10, .update 1 [.fin 5] ⟨[], []⟩ 20, .smooth].foldl Rrd.hwStep
        (rrdInitData hwFirst fun _ => 0)).rra[1]? = some r ∧
      ([.update 0 [.nan] ⟨[], []⟩ 10, .update 1 [.fin 5] ⟨[], []⟩ 20, .smooth].foldl Rrd.hwStep
        (rrdInitData seasonalFirst fun _ => 0)).rra[0]? = some r' ∧ r'.ring = r.ring ∧ r'.cdpPrep = r.cdpPrep := by
  have hlinked : Linked (hwFirst.rra[·]?) hwFirstIdx := by
    refine ⟨fun m => ?_, fun j r hj hcf _ => ?_⟩
    · cases m <;> exact ⟨_, rfl, rfl, rfl, by decide, rfl⟩
    · match j with
      | 0 => cases Option.some.inj hj; cases hcf
      | 1 => rfl
      | 2 => cases Option.some.inj hj; cases hcf
      | 3 => cases Option.some.inj hj; cases hcf
      | j + 4 => cases hj
  have hparams : HwParams (hwFirst.rra[·]?) hwFirstIdx := by
    refine ⟨fun r hr => ?_, fun r hr => ?_, fun r hr w hw => ?_⟩
    · cases Option.some.inj hr
      exact ⟨1 / 2, 1 / 2, rfl, rfl⟩
    · cases Option.some.inj hr
      rfl
    · cases Option.some.inj hr
      cases hw
      norm_num
  exact @run_sameForecast hwFirst seasonalFirst hwFirstIdx (Equiv.swap 0 1) (fun _ => 0) (fun _ => 0)
    hwFirst_reordered (fun _ => rfl) hlinked hparams _ (by simp [HwOp.Finite, ExtNum.isinf]) .sea

/-- An infinite first value: `SEASONAL` stores an unknown coefficient behind `HWPREDICT`, and zero in front
of it. -/
theorem infinite_value_shows_order :
    hwFirst.Reordered seasonalFirst (Equiv.swap 0 1) ∧
      ([HwOp.update 0 [.pinf] ⟨[], []⟩ 10].foldl Rrd.hwStep
        (rrdInitData hwFirst fun _ => 0)).rra[1]?.map (fun r => r.ring.slot 1) = some [.nan] ∧
      ([HwOp.update 0 [.pinf] ⟨[], []⟩ 10].foldl Rrd.hwStep
        (rrdInitData seasonalFirst fun _ => 0)).rra[0]?.map (fun r => r.ring.slot 1) = some [.fin 0] :=
  ⟨hwFirst_reordered, by decide +kernel, by decide +kernel⟩

end Rrdtool
