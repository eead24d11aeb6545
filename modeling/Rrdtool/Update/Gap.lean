import Rrdtool.Update.Aberrant
import Rrdtool.Update.Conservation
import Rrdtool.Fetch.Window

/-!
# Updates after a long gap

What `src/rrd_update.c` does when an update comes late and closes many steps at once. The number of steps
passes through the `int` result of `calculate_elapsed_steps` (`calculateElapsedSteps_exact_iff`), and the number of
rows is cut off at `row_cnt` by `update_all_cdp_prep` (`consolidate_clamp_iff`).
-/

namespace Rrdtool

open List

/-! ### The number of steps -/

/-- A count survives the way through `int` only if it fits. -/
lemma u64_s32_eq_iff {n : ℕ} (h : n < 2 ^ 63) : u64 (s32 n) = n ↔ n < 2 ^ 31 := by
  constructor
  · intro heq
    have hlt : s32 n < 2 ^ 31 := BitVec.toInt_lt
    have hge : -2 ^ 31 ≤ s32 n := BitVec.le_toInt _
    obtain hneg | hpos := lt_or_ge (s32 n) 0
    · have hwrap : u64 (s32 n) = (s32 n + 2 ^ 64).toNat := by
        rw [u64_eq_emod, ← Int.add_emod_right, Int.emod_eq_of_lt (by omega) (by omega)]
      omega
    · rw [u64_of_lt hpos (by omega)] at heq
      omega
  · intro hlt
    rw [s32_natCast hlt, u64_natCast (by omega)]

/-- The value of the period that is open before a pass, if the steps it lacks have the rate `x`. -/
def openPeriodVal (rra : RraDef) (procPdpCnt : ℕ) (c : CdpPrep) (x : RrdValue) : RrdValue :=
  let offset := startPdpOffset rra.pdpCnt procPdpCnt
  let unkn := if x.isnan then c.unknPdpCnt + offset else c.unknPdpCnt
  if .fin rra.pdpCnt * rra.xff < .fin unkn then .nan
  else initializeCdpVal rra.cf { c with unknPdpCnt := unkn } x offset rra.pdpCnt

/-- The rows of a pass that does not cut their number: the primary row once, and the secondary row for every
further period closed. -/
def unclampedRows (rra : RraDef) (cdp : List CdpPrep) (a : PassArgs) : List Row :=
  rraRows cdp (rowsClosed rra.pdpCnt a.procPdpCnt a.elapsed)

/-- The archive `rra'` that a pass leaves of `rra`, with the ring it gets when the number of rows is not cut. -/
def Rra.unclamped (rra rra' : Rra) (a : PassArgs) : Rra :=
  { rra' with ring := rra.ring.pushAll rra.rraDef.rowCnt (unclampedRows rra.rraDef rra'.cdpPrep a) }

/-- What `update_cdp` leaves for the rows. -/
lemma updateCdp_vals (rra : RraDef) (procPdpCnt elapsed : ℕ) (c : CdpPrep) (x : RrdValue) {stepCnt : ℕ}
    (pos : 0 < stepCnt) :
    let c' := updateCdp rra.cf c x stepCnt elapsed (startPdpOffset rra.pdpCnt procPdpCnt) rra.pdpCnt rra.xff
    c'.primaryVal = openPeriodVal rra procPdpCnt c x ∧ c'.secondaryVal = x := by
  simp only [updateCdp, if_pos pos, openPeriodVal]
  by_cases hx : x.isnan
  · obtain rfl := ExtNum.isnan_eq_true.1 hx
    exact ⟨by cases rra.cf <;> rfl, rfl⟩
  · simp only [hx]
    exact ⟨by cases rra.cf <;> rfl, rfl⟩

/-- With more than two steps an archive of one step to the row gets the rate for every row. -/
lemma resetCdp_plain {rra : RraDef} (plain : rra.cf.isPlain) (c : CdpPrep) (x : RrdValue) (elapsed d : ℕ)
    (s : SeasonalCoef) : resetCdp rra c x elapsed d s = { c with primaryVal := x, secondaryVal := x } := by
  unfold resetCdp
  split
  all_goals first | rfl | simp_all [Cf.isPlain]

lemma updateAberrantCF_plain {rras : List Rra} {rra : RraDef} (plain : rra.cf.isPlain) (i d : ℕ) (k : ScratchIdx)
    (coef x : RrdValue) : updateAberrantCF rras rra i d k coef x = (cdpAt rras i d).set k x := by
  unfold updateAberrantCF
  split
  all_goals first | rfl | simp_all [Cf.isPlain]

lemma aberrantCdps_plain {elapsed : ℕ} {temps : List RrdValue} {k : ScratchIdx} {rras : List Rra} {rra : Rra} {i : ℕ}
    (plain : rra.rraDef.cf.isPlain) (hi : rras[i]? = some rra) :
    aberrantCdps elapsed temps k rras rra i = rra.cdpPrep.mapIdx fun d c => c.set k (temps.getD d .nan) := by
  apply List.ext_getElem?
  intro d
  simp only [aberrantCdps, List.getElem?_mapIdx, updateAberrantCF_plain plain]
  cases hd : rra.cdpPrep[d]? with
  | none => rfl
  | some c =>
    have hat : cdpAt rras i d = c := by
      rw [cdpAt, hi]
      simp [hd]
    simp only [Option.map_some, hat]

/-- Both slots of such an archive after `update_aberrant_cdps` for two steps. -/
lemma updateAberrantCdps_plain {temps : List RrdValue} {rras : List Rra} {rra : Rra} {i : ℕ}
    (plain : rra.rraDef.cf.isPlain) (one : rra.rraDef.pdpCnt = 1) (hi : rras[i]? = some rra) :
    (updateAberrantCdps 2 temps rras)[i]? = some { rra with cdpPrep := rra.cdpPrep.mapIdx fun d c =>
      { c with primaryVal := temps.getD d .nan, secondaryVal := temps.getD d .nan } } := by
  have hlt := (List.getElem?_eq_some_iff.1 hi).1
  have hat : ∀ {k rras} {rra : Rra}, rras[i]? = some rra → rra.rraDef.cf.isPlain → rra.rraDef.pdpCnt = 1 →
      i < rras.length → (updateAberrantSlot 2 temps k rras rras.length)[i]? =
        some { rra with cdpPrep := rra.cdpPrep.mapIdx fun d c => c.set k (temps.getD d .nan) } := by
    intro k rras rra hi plain one hlt
    rw [updateAberrantSlot_at hi one hlt, aberrantCdps_plain plain]
    rw [updateAberrantSlot_getElem?_of_le le_rfl, hi]
  have hfirst := @hat .primary _ _ hi plain one hlt
  have hsecond := @hat .secondary _ _ hfirst plain one (by rw [updateAberrantSlot_length]; exact hlt)
  refine Eq.trans hsecond ?_
  simp only [List.mapIdx_mapIdx]
  rfl

/-- The archive of one step to the row when the rows of several steps are written: both values are the rate. -/
lemma pass_one {rrd : Rrd} {a : PassArgs} {i : ℕ} {rra rra' : Rra} (hi : rrd.rra[i]? = some rra)
    (plain : rra.rraDef.cf.isPlain) (one : rra.rraDef.pdpCnt = 1) (several : 1 < a.elapsed)
    (hi' : (rrd.pass a).rra[i]? = some rra') :
    rra'.cdpPrep = rra.cdpPrep.mapIdx fun d c =>
      { c with primaryVal := a.temps.getD d .nan, secondaryVal := a.temps.getD d .nan } := by
  have hseasonal : ¬ rra.rraDef.cf.isSeasonal := by
    cases hcf : rra.rraDef.cf <;> simp_all [Cf.isPlain, Cf.isSeasonal]
  obtain ⟨s', hprep, hpass⟩ := @pass_at _ a _ _ hi
  have hone : ¬ 1 < rra.rraDef.pdpCnt := by omega
  -- what update_cdp_prep leaves
  have hupd : (updateRraCdpPrep a.elapsed a.procPdpCnt a.temps s' rra).1 =
      { rra with cdpPrep := rra.cdpPrep.mapIdx fun d c =>
        if 2 < a.elapsed then { c with primaryVal := a.temps.getD d .nan, secondaryVal := a.temps.getD d .nan }
        else c } := by
    simp only [updateRraCdpPrep, if_neg hseasonal, updateCdpPrep, if_neg hone, resetCdp_plain plain]
  obtain hmany | htwo := Nat.lt_or_ge 2 a.elapsed
  · rw [hpass _ (by rw [updateAberrantCdps_of_two_lt hmany, hprep])] at hi'
    obtain rfl := Option.some.inj hi'
    rw [writeRraRows_keeps.2.1, hupd]
    simp only [if_pos hmany]
  · have hel : a.elapsed = 2 := by omega
    have hsame : (rra.cdpPrep.mapIdx fun d c => if 2 < a.elapsed then
        { c with primaryVal := a.temps.getD d .nan, secondaryVal := a.temps.getD d .nan } else c) = rra.cdpPrep := by
      simp only [if_neg (not_lt.2 htwo)]
      exact List.mapIdx_eq_iff.2 fun d => Option.map_id'.symm
    rw [hupd, hsame] at hprep
    have hab := @updateAberrantCdps_plain a.temps _ _ _ plain one hprep
    rw [← hel] at hab
    rw [hpass _ hab] at hi'
    obtain rfl := Option.some.inj hi'
    rw [writeRraRows_keeps.2.1]

lemma forall_mem_mapIdx {α β : Type*} {l : List α} {f : ℕ → α → β} {p : β → Prop} :
    (∀ b ∈ l.mapIdx f, p b) ↔ ∀ i a, l[i]? = some a → p (f i a) := by
  simp only [List.mem_mapIdx]
  constructor
  · intro h i a hi
    obtain ⟨hlt, rfl⟩ := List.getElem?_eq_some_iff.1 hi
    exact h _ ⟨i, hlt, rfl⟩
  · rintro h _ ⟨i, hlt, rfl⟩
    exact h i _ (List.getElem?_eq_getElem hlt)

/-- A ring that is given one row and then copies of another for longer than it reaches back holds the copies; if the
number is cut to its size, the first row is the oldest one. -/
lemma byAge_rraRows_iff {ring : RingBuf Row} {cap n : ℕ} (hcur : ring.cur < cap) (hlong : cap < n)
    (cdp : List CdpPrep) :
    (∀ k < cap, (ring.pushAll cap (rraRows cdp cap)).byAge cap k =
        (ring.pushAll cap (rraRows cdp n)).byAge cap k) ↔
      cdp.map (·.primaryVal) = cdp.map (·.secondaryVal) := by
  obtain ⟨cap, rfl⟩ : ∃ m, cap = m + 1 := ⟨cap - 1, by omega⟩
  obtain ⟨n, rfl⟩ : ∃ m, n = m + 1 := ⟨n - 1, by omega⟩
  have hall : ∀ {m k}, k < m + 1 → (hk : k < cap + 1) →
      (ring.pushAll (cap + 1) (rraRows cdp (m + 1))).byAge (cap + 1) k =
        if k = m then cdp.map (·.primaryVal) else cdp.map (·.secondaryVal) := by
    intro m k hkm hk
    rw [RingBuf.byAge_pushAll hcur _ hk, dif_pos (by simpa using hkm)]
    simp only [rraRows, List.getElem_cons, List.getElem_replicate, List.length_cons, List.length_replicate]
    split
    · rw [if_pos (by omega)]
    · rw [if_neg (by omega)]
  constructor
  · intro hsame
    have hlast := hsame cap (by omega)
    rw [hall (by omega) (by omega), hall (by omega) (by omega), if_pos rfl, if_neg (by omega)] at hlast
    exact hlast
  · intro heq k hk
    rw [hall hk hk, hall (by omega) hk, heq, ite_self, ite_self]

/-- The ring of a pass is the one of the pass that does not cut the number of rows, read by age, if few rows are
closed, if a row is one step, or if the open period gets the rate of the others. -/
lemma pass_clamp_iff {rrd : Rrd} {a : PassArgs} {i : ℕ} {rra rra' : Rra} (hi : rrd.rra[i]? = some rra)
    (plain : rra.rraDef.cf.isPlain) (valid : rra.rraDef.Valid) (hcur : rra.ring.cur < rra.rraDef.rowCnt)
    (hi' : (rrd.pass a).rra[i]? = some rra') :
    (∀ k < rra.rraDef.rowCnt, rra'.ring.byAge rra.rraDef.rowCnt k =
        (rra.unclamped rra' a).ring.byAge rra.rraDef.rowCnt k) ↔
      rowsClosed rra.rraDef.pdpCnt a.procPdpCnt a.elapsed ≤ rra.rraDef.rowCnt ∨ rra.rraDef.pdpCnt = 1 ∨
        ∀ d c, rra.cdpPrep[d]? = some c →
          openPeriodVal rra.rraDef a.procPdpCnt c (a.temps.getD d .nan) = a.temps.getD d .nan := by
  have hseasonal : ¬ rra.rraDef.cf.isSeasonal := by
    cases hcf : rra.rraDef.cf <;> simp_all [Cf.isPlain, Cf.isSeasonal]
  obtain ⟨written, hspec, hrrd, -⟩ := consolidate_spec rrd a.elapsed a.procPdpCnt a.temps a.coef a.time
  obtain ⟨q, hq, spec⟩ := Pointwise.getElem?_left hspec hi
  have hq1 : (rrd.pass a).rra[i]? = some q.1 := by
    rw [Rrd.pass, hrrd, List.getElem?_map, hq]
    rfl
  obtain rfl := Option.some.inj (hq1.symm.trans hi')
  have hring : q.1.ring = rra.ring.pushAll rra.rraDef.rowCnt (rraRows q.1.cdpPrep
      (min (rowsClosed rra.rraDef.pdpCnt a.procPdpCnt a.elapsed) rra.rraDef.rowCnt)) := by
    rw [spec.ring hseasonal, spec.rows hseasonal, rraStepCnt_eq_min]
  rw [hring, Rra.unclamped, unclampedRows]
  dsimp only
  obtain hfew | hlong := le_or_gt (rowsClosed rra.rraDef.pdpCnt a.procPdpCnt a.elapsed) rra.rraDef.rowCnt
  · rw [min_eq_left hfew]
    exact iff_of_true (fun _ _ => rfl) (.inl hfew)
  · rw [min_eq_right hlong.le, byAge_rraRows_iff hcur hlong]
    obtain hone | hmany : rra.rraDef.pdpCnt = 1 ∨ 1 < rra.rraDef.pdpCnt := by
      have := valid.pdpCnt_pos
      omega
    · have hseveral : 1 < a.elapsed := by
        rw [hone, rowsClosed_eq_sub Nat.one_pos] at hlong
        omega
      refine iff_of_true ?_ (.inr (.inl hone))
      rw [pass_one hi plain hone hseveral hi', List.map_inj_left, forall_mem_mapIdx]
      exact fun _ _ _ => rfl
    · have hpos : 0 < rraStepCnt rra.rraDef a.elapsed a.procPdpCnt := by
        rw [rraStepCnt_eq_min, min_eq_right hlong.le]
        exact valid.rowCnt_pos
      rw [spec.cdpPrep hseasonal hmany, List.map_inj_left, forall_mem_mapIdx]
      have hvals : ∀ (c : CdpPrep) (x : RrdValue),
          ((updateCdp rra.rraDef.cf c x (rraStepCnt rra.rraDef a.elapsed a.procPdpCnt) a.elapsed
              (startPdpOffset rra.rraDef.pdpCnt a.procPdpCnt) rra.rraDef.pdpCnt rra.rraDef.xff).primaryVal =
            (updateCdp rra.rraDef.cf c x (rraStepCnt rra.rraDef a.elapsed a.procPdpCnt) a.elapsed
              (startPdpOffset rra.rraDef.pdpCnt a.procPdpCnt) rra.rraDef.pdpCnt rra.rraDef.xff).secondaryVal) ↔
            openPeriodVal rra.rraDef a.procPdpCnt c x = x := by
        intro c x
        obtain ⟨hprimary, hsecondary⟩ := updateCdp_vals rra.rraDef a.procPdpCnt a.elapsed c x hpos
        rw [hprimary, hsecondary]
      simp only [hvals]
      exact ⟨fun h => .inr (.inr h), fun h => (h.resolve_left (not_le.2 hlong)).resolve_left hmany.ne'⟩

/-! ### What a request sees -/

/-- The choice of the archive looks at the definitions only. -/
lemma chooseRra_congr {rrd : Rrd} {rras : List Rra} (hdefs : rras.map (·.rraDef) = rrd.rra.map (·.rraDef)) (cf : Cf)
    (start stop : ℤ) (step : ℕ) :
    chooseRra { rrd with rra := rras } cf start stop step = chooseRra rrd cf start stop step := by
  have hbare : ∀ l : List Rra, ((List.range l.length).zip l).foldl (considerRra rrd cf start stop step) ⟨none, none⟩ =
      ((List.range (l.map (·.rraDef)).length).zip (l.map (·.rraDef))).foldl
        (fun best ir => considerRra rrd cf start stop step best (ir.1, ⟨ir.2, [], ⟨0, fun _ => []⟩⟩)) ⟨none, none⟩ := by
    intro l
    rw [List.length_map, List.zip_map_right, List.foldl_map]
    rfl
  have hsame : ((List.range rras.length).zip rras).foldl (considerRra rrd cf start stop step) ⟨none, none⟩ =
      ((List.range rrd.rra.length).zip rrd.rra).foldl (considerRra rrd cf start stop step) ⟨none, none⟩ := by
    rw [hbare, hbare, hdefs]
  unfold chooseRra
  dsimp only
  rw [← hsame]
  rfl

/-- The row of a period is found by its age. -/
lemma heldRow_congr {rrd : Rrd} {rra : Rra} {ring : RingBuf Row}
    (hsame : ∀ k < rra.rraDef.rowCnt, rra.ring.byAge rra.rraDef.rowCnt k = ring.byAge rra.rraDef.rowCnt k) (n : ℤ) :
    heldRow rrd rra n = heldRow rrd { rra with ring := ring } n := by
  simp only [heldRow]
  split
  · rename_i hin
    exact hsame _ (by omega)
  · rfl

/-- A request does not tell two rings apart that hold the same rows by age. -/
lemma rrdFetchFn_of_byAge {rrd : Rrd} {i : ℕ} {rra : Rra} {ring : RingBuf Row} (pos : 0 < rrd.pdpStep)
    (valid : rra.rraDef.Valid) (small : rra.rraDef.rowCnt < 2 ^ 31) (hi : rrd.rra[i]? = some rra)
    (hsame : ∀ k < rra.rraDef.rowCnt, rra.ring.byAge rra.rraDef.rowCnt k = ring.byAge rra.rraDef.rowCnt k)
    (cf : Cf) {start stop : ℤ} (h0 : 0 ≤ start) (hle : start ≤ stop) (hlt : stop < 2 ^ 63) (step : ℕ) :
    rrdFetchFn rrd cf start stop step =
      rrdFetchFn { rrd with rra := rrd.rra.set i { rra with ring := ring } } cf start stop step := by
  have hdefs : (rrd.rra.set i { rra with ring := ring }).map (·.rraDef) = rrd.rra.map (·.rraDef) := by
    rw [List.map_set]
    refine List.ext_getElem? fun j => ?_
    obtain rfl | hj := eq_or_ne i j
    · rw [List.getElem?_set_self (by simpa using (List.getElem?_eq_some_iff.1 hi).1), List.getElem?_map, hi]
      rfl
    · rw [List.getElem?_set_ne hj]
  have hchoose := chooseRra_congr hdefs cf start stop step
  have hset : (rrd.rra.set i { rra with ring := ring })[i]? = some { rra with ring := ring } :=
    List.getElem?_set_self (List.getElem?_eq_some_iff.1 hi).1
  cases hidx : chooseRra rrd cf start stop step with
  | none => simp only [rrdFetchFn, hchoose, hidx]
  | some idx =>
    obtain rfl | hne := eq_or_ne i idx
    · have hspan : 0 < rrd.rowSpan rra.rraDef := Nat.mul_pos pos valid.pdpCnt_pos
      have hab : start / rrd.rowSpan rra.rraDef ≤ stop / rrd.rowSpan rra.rraDef :=
        Int.ediv_le_ediv (by omega) hle
      have hheld : ∀ n, heldRow { rrd with rra := rrd.rra.set i { rra with ring := ring } } { rra with ring := ring } n =
          heldRow rrd rra n := fun n => (heldRow_congr hsame n).symm
      rw [rrdFetchFn_eq hidx hi ⟨h0, by omega⟩ ⟨by omega, hlt⟩ hspan ⟨valid.rowCnt_pos, small⟩ hab,
        rrdFetchFn_eq (hchoose.trans hidx) hset ⟨h0, by omega⟩ ⟨by omega, hlt⟩ hspan ⟨valid.rowCnt_pos, small⟩ hab]
      simp only [hheld]
      rfl
    · simp only [rrdFetchFn, hchoose, hidx, List.getElem?_set_ne hne]
      rfl

/-- What the archive holds after a pass, and what any request returns from it once the time of the update is
stored, is what a pass that does not cut the number of rows leaves, under exactly this condition. -/
theorem consolidate_clamp_iff (rrd : Rrd) (a : PassArgs) (i : ℕ) (rra rra' : Rra) (pos : 0 < rrd.pdpStep)
    (hi : rrd.rra[i]? = some rra) (plain : rra.rraDef.cf.isPlain) (valid : rra.rraDef.Valid)
    (hcur : rra.ring.cur < rra.rraDef.rowCnt) (hi' : (rrd.pass a).rra[i]? = some rra') :
    ((∀ k < rra.rraDef.rowCnt, rra'.ring.byAge rra.rraDef.rowCnt k =
          (rra.unclamped rra' a).ring.byAge rra.rraDef.rowCnt k) ∧
        (rra.rraDef.rowCnt < 2 ^ 31 → ∀ sec usec cf start stop step, 0 ≤ start → start ≤ stop → stop < 2 ^ 63 →
          rrdFetchFn ((rrd.pass a).setLastUp sec usec) cf start stop step =
            rrdFetchFn ({ rrd.pass a with rra := (rrd.pass a).rra.set i (rra.unclamped rra' a) }.setLastUp sec usec)
              cf start stop step)) ↔
      rowsClosed rra.rraDef.pdpCnt a.procPdpCnt a.elapsed ≤ rra.rraDef.rowCnt ∨ rra.rraDef.pdpCnt = 1 ∨
        ∀ d c, rra.cdpPrep[d]? = some c →
          openPeriodVal rra.rraDef a.procPdpCnt c (a.temps.getD d .nan) = a.temps.getD d .nan := by
  rw [← pass_clamp_iff hi plain valid hcur hi']
  refine ⟨And.left, fun hsame => ⟨hsame, ?_⟩⟩
  intro small sec usec cf start stop step h0 hle hlt
  have hdef : rra'.rraDef = rra.rraDef := by
    have := @rraDefAt_pass rrd a i
    rw [rraDefAt, rraDefAt, hi, hi'] at this
    exact Option.some.inj this
  have hpos : 0 < ((rrd.pass a).setLastUp sec usec).pdpStep := pos
  rw [← hdef] at valid small hsame
  exact rrdFetchFn_of_byAge hpos valid small hi' hsame cf h0 hle hlt step

theorem consolidate_clamp_iff_short :
    let rrd := rrdInitData (gaugeHeader 10 600 (by decide)) fun _ => 0
    let a : PassArgs := ⟨3, 100, [.fin 7], ⟨[], []⟩, 1030⟩
    ∃ rra rra', rrd.rra[0]? = some rra ∧ (rrd.pass a).rra[0]? = some rra' ∧
      (((∀ k < rra.rraDef.rowCnt, rra'.ring.byAge rra.rraDef.rowCnt k =
            (rra.unclamped rra' a).ring.byAge rra.rraDef.rowCnt k) ∧
          (rra.rraDef.rowCnt < 2 ^ 31 → ∀ sec usec cf start stop step, 0 ≤ start → start ≤ stop → stop < 2 ^ 63 →
            rrdFetchFn ((rrd.pass a).setLastUp sec usec) cf start stop step =
              rrdFetchFn ({ rrd.pass a with rra := (rrd.pass a).rra.set 0 (rra.unclamped rra' a) }.setLastUp sec usec)
                cf start stop step)) ↔
        rowsClosed rra.rraDef.pdpCnt a.procPdpCnt a.elapsed ≤ rra.rraDef.rowCnt ∨ rra.rraDef.pdpCnt = 1 ∨
          ∀ d c, rra.cdpPrep[d]? = some c →
            openPeriodVal rra.rraDef a.procPdpCnt c (a.temps.getD d .nan) = a.temps.getD d .nan) :=
  ⟨_, _, rfl, rfl, consolidate_clamp_iff (rrdInitData (gaugeHeader 10 600 (by decide)) fun _ => 0)
    ⟨3, 100, [.fin 7], ⟨[], []⟩, 1030⟩ 0 _ _ (by decide) rfl (by decide)
    ((gaugeHeader 10 600 (by decide)).valid _ (.head _)) (by decide) rfl⟩

/-- A step of rate `1`, then thirty of rate `9`, with five rows of two steps: the oldest of the fifteen rows closed at
once lies ten rows back, yet its value stands where a row of rate `9` belongs, and a request returns it. -/
theorem consolidate_clamp_keeps_first_row :
    ∃ db rra rra', Db.run ⟨rrdInitData (gaugeHeader 10 600 (by decide)) fun _ => 0, []⟩
        [.arg .idle [0] "1010:1".toList] = some db ∧
      db.rrd.rra[0]? = some rra ∧
      (db.rrd.pass ⟨30, 101, [.fin 9], ⟨[], []⟩, 1310⟩).rra[0]? = some rra' ∧
      rra'.ring.byAge 5 4 = [.fin 5] ∧
      (rra.unclamped rra' ⟨30, 101, [.fin 9], ⟨[], []⟩, 1310⟩).ring.byAge 5 4 = [.fin 9] ∧
      ((db.step (.arg .idle [0] "1310:9".toList)).bind fun db' =>
        (rrdFetchFn db'.rrd .average 1200 1219 20).map (·.data)) = some [some [.fin 5]] := by
  have hrun : ((Db.run ⟨rrdInitData (gaugeHeader 10 600 (by decide)) fun _ => 0, []⟩
      [.arg .idle [0] "1010:1".toList]).bind fun db => db.rrd.rra[0]?.bind fun rra =>
        (db.rrd.pass ⟨30, 101, [.fin 9], ⟨[], []⟩, 1310⟩).rra[0]?.map fun rra' =>
          decide (rra'.ring.byAge 5 4 = [.fin 5] ∧
            (rra.unclamped rra' ⟨30, 101, [.fin 9], ⟨[], []⟩, 1310⟩).ring.byAge 5 4 = [.fin 9] ∧
            ((db.step (.arg .idle [0] "1310:9".toList)).bind fun db' =>
              (rrdFetchFn db'.rrd .average 1200 1219 20).map (·.data)) = some [some [.fin 5]])) = some true := by
    decide +kernel
  obtain ⟨db, hdb, hrest⟩ := Option.bind_eq_some_iff.1 hrun
  obtain ⟨rra, hrra, hrest⟩ := Option.bind_eq_some_iff.1 hrest
  obtain ⟨rra', hrra', hprop⟩ := Option.map_eq_some_iff.1 hrest
  exact ⟨db, rra, rra', hdb, hrra, hrra', of_decide_eq_true hprop⟩

end Rrdtool
