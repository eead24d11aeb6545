import Rrdtool.Create.Parse
import Rrdtool.Lib.Window
import Rrdtool.Update.SeasonalCache

/-!
# The window of a failures archive

`update_failures` of `src/rrd_hw_update.c` shifts its judgement of a value into the violation bytes of the data source
and counts them; `erase_violations` forgets them when an update closes more than two steps. What the bytes hold is the
record of the judgements since then (`pass_window`), so that the verdict is one about the last `window_len` values.
-/

namespace Rrdtool

/-! ### One value -/

/-- The judgement of `update_failures` on a value. -/
def failureViolation (rras : List Rra) (rra : RraDef) (i d : ℕ) (fns : HwFunctions) (observed : RrdValue) : Bool :=
  failureJudgement rra (failureInputs rras rra i d fns) observed

/-- The value that stands for a failure, when `threshold` of the last `windowLen` judgements are violations. -/
@[grind] def failureVerdict (windowLen threshold : ℕ) (violations : List Bool) : RrdValue :=
  if (violations.take windowLen).count true < threshold then .fin 0 else .fin 1

section OneValue

variable {rras : List Rra} {rra : RraDef} {i d : ℕ} {k : ScratchIdx} {fns : HwFunctions} {c : CdpPrep}

lemma set_violations (c : CdpPrep) (k : ScratchIdx) (v : RrdValue) : (c.set k v).violations = c.violations := by
  cases k <;> rfl

/-- `update_failures` shifts its judgement into the window, and judges the window. -/
lemma updateFailures_eq (hpos : 0 < rra.windowLen) :
    updateFailures rras rra i d k fns c =
      CdpPrep.set
        { c with violations :=
            Window.slide rra.windowLen (failureViolation rras rra i d fns (c.get k)) c.violations }
        k (failureVerdict rra.windowLen rra.failureThreshold
          (Window.slide rra.windowLen (failureViolation rras rra i d fns (c.get k)) c.violations)) := by
  have hmax : max rra.windowLen 1 = rra.windowLen := by omega
  simp only [updateFailures_halves, storeFailure, failureVerdict, Window.slide, failureViolation, hmax]

/-- The verdict is one about the record. -/
lemma failureVerdict_of_agrees {windowLen threshold : ℕ} {cells history : List Bool}
    (h : Window.Agrees false windowLen cells history) :
    failureVerdict windowLen threshold cells = failureVerdict windowLen threshold history := by
  rw [failureVerdict, failureVerdict, h.count_eq (by decide)]

lemma agrees_eraseViolations (windowLen : ℕ) (violations : List Bool) :
    Window.Agrees false windowLen (eraseViolations windowLen violations) [] := by
  intro j hj
  rw [eraseViolations, List.getD_eq_getElem?_getD, List.getElem?_mapIdx]
  cases violations[j]? with
  | none => rfl
  | some v => rw [Option.map_some, if_pos hj]; rfl

end OneValue

/-! ### The events of a window -/

/-- What happens to the window of a data source: a value is judged and a verdict stored, or the window is erased. -/
inductive WindowEvent where
  | judged (violation : Bool) (stored : RrdValue)
  | erased

/-- The judgements since the window was erased, newest first. -/
@[grind] def WindowEvent.record (history : List Bool) : WindowEvent → List Bool
  | .judged violation _ => violation :: history
  | .erased => []

/-- The call of `update_failures` for data source `d` of archive `i`, when the loop of `update_aberrant_cdps` that
fills slot `k` comes to it. -/
def failureCall (elapsed : ℕ) (temps : List RrdValue) (k : ScratchIdx) (rras : List Rra) (i d : ℕ) :
    List WindowEvent :=
  let mid := updateAberrantSlot elapsed temps k rras i
  match rraDefAt rras i with
  | none => []
  | some rra =>
    if rra.pdpCnt = 1 then
      match hwFunctionsOf mid (hwDepIdx mid rra.dependentRraIdx) with
      | none => []
      | some fns =>
        [.judged (failureViolation mid rra i d fns (temps.getD d .nan))
          ((updateAberrantCF mid rra i d k .nan (temps.getD d .nan)).get k)]
    else []

/-- The events of a pass. -/
@[grind] def Rrd.windowEvents (rrd : Rrd) (a : PassArgs) (i d : ℕ) : List WindowEvent :=
  let prepared := rrd.prepared a
  if 2 < a.elapsed then
    if ((rraDefAt rrd.rra i).map (·.pdpCnt)).getD 0 ≤ 1 then [.erased] else []
  else if a.elapsed = 1 then failureCall 1 a.temps .primary prepared i d
  else if a.elapsed = 2 then
    failureCall 2 a.temps .primary prepared i d ++
      failureCall 2 a.temps .secondary (updateAberrantSlot 2 a.temps .primary prepared prepared.length) i d
  else []

/-- The events of several passes. -/
def passEvents (i d : ℕ) : Rrd → List PassArgs → List WindowEvent
  | _, [] => []
  | rrd, a :: as => rrd.windowEvents a i d ++ passEvents i d (rrd.pass a) as

/-- The events of a step of a run. -/
@[grind] def Op.windowEvents (i d : ℕ) (db : Db) : Op → List WindowEvent
  | .arg host tmpl input =>
    match processArg host tmpl db.rrd input with
    | (_, .error _) => []
    | (_, .ok acc) => passEvents i d db.rrd (acc.passes db.rrd)
  | .smooth => []

/-- The events of a run. -/
@[grind] def Db.windowEvents (i d : ℕ) : Db → List Op → List WindowEvent
  | _, [] => []
  | db, op :: ops => op.windowEvents i d db ++ ((db.step op).map fun db' => Db.windowEvents i d db' ops).getD []

/-- Every verdict is the one about the record up to it. -/
def Verdicts (windowLen threshold : ℕ) : List Bool → List WindowEvent → Prop
  | _, [] => True
  | history, .judged violation stored :: es =>
    stored = failureVerdict windowLen threshold (violation :: history) ∧
      Verdicts windowLen threshold (violation :: history) es
  | _, .erased :: es => Verdicts windowLen threshold [] es

section Verdicts

variable {windowLen threshold : ℕ} {history : List Bool} {es es' : List WindowEvent}

lemma Verdicts.append (h : Verdicts windowLen threshold history es)
    (h' : Verdicts windowLen threshold (es.foldl WindowEvent.record history) es') :
    Verdicts windowLen threshold history (es ++ es') := by
  induction es generalizing history with
  | nil => exact h'
  | cons e es ih =>
    cases e with
    | judged violation stored => exact ⟨h.1, ih h.2 h'⟩
    | erased => exact @ih [] h h'

/-- One verdict among them. -/
lemma Verdicts.at (h : Verdicts windowLen threshold history es) {front : List WindowEvent} {violation : Bool}
    {stored : RrdValue} (hfront : front ++ [.judged violation stored] <+: es) :
    stored = failureVerdict windowLen threshold (violation :: front.foldl WindowEvent.record history) := by
  obtain ⟨rest, rfl⟩ := hfront
  induction front generalizing history with
  | nil => exact h.1
  | cons e front ih =>
    cases e with
    | judged violation' stored' => exact ih h.2
    | erased => exact @ih [] h

end Verdicts

/-! ### One pass -/

/-- The window of data source `d` of archive `i` holds the record. -/
@[grind] def WindowHolds (r : RraDef) (rras : List Rra) (i d : ℕ) (history : List Bool) : Prop :=
  Window.Agrees false r.windowLen (cdpAt rras i d).violations history

section OnePass

variable {rrd : Rrd} {a : PassArgs} {rras : List Rra} {rra : Rra} {r : RraDef} {i d : ℕ} {history : List Bool}
  {elapsed : ℕ} {temps : List RrdValue} {k : ScratchIdx}

/-- What the code computes when `update_failures` is called. -/
lemma updateAberrantCF_failures (hcf : r.cf = .failures) {fns : HwFunctions}
    (hfns : hwFunctionsOf rras (hwDepIdx rras r.dependentRraIdx) = some fns) (coef x : RrdValue) :
    updateAberrantCF rras r i d k coef x = updateFailures rras r i d k fns ((cdpAt rras i d).set k x) := by
  simp only [updateAberrantCF, hcf, hfns]

/-- One loop of `update_aberrant_cdps`. -/
lemma updateAberrantSlot_window (hi : rras[i]? = some rra) (hdef : rra.rraDef = r) (hcf : r.cf = .failures)
    (hpos : 0 < r.windowLen) (hd : d < rra.cdpPrep.length) {m : ℕ} (hm : i < m)
    (hholds : WindowHolds r rras i d history) :
    Verdicts r.windowLen r.failureThreshold history (failureCall elapsed temps k rras i d) ∧
      WindowHolds r (updateAberrantSlot elapsed temps k rras m) i d
        ((failureCall elapsed temps k rras i d).foldl WindowEvent.record history) := by
  subst hdef
  have hdefAt : rraDefAt rras i = some rra.rraDef := by rw [rraDefAt, hi, Option.map_some]
  simp only [failureCall, hdefAt]
  by_cases hone : rra.rraDef.pdpCnt = 1
  · have harea := @cdpAt_updateAberrantSlot elapsed temps k rras i m d rra hi hone hd
    have hmid := @cdpAt_updateAberrantSlot elapsed temps k rras i i d rra hi hone hd
    rw [if_pos hm] at harea
    rw [if_neg (lt_irrefl i)] at hmid
    rw [if_pos hone, WindowHolds, harea]
    generalize updateAberrantSlot elapsed temps k rras i = mid at hmid ⊢
    cases hfns : hwFunctionsOf mid (hwDepIdx mid rra.rraDef.dependentRraIdx) with
    | none =>
      refine ⟨trivial, ?_⟩
      simp only [updateAberrantCF, hcf, hfns, set_violations, hmid]
      exact hholds
    | some fns =>
      have hslide := @Window.Agrees.slide _ _ (failureViolation mid rra.rraDef i d fns (temps.getD d .nan)) _ _ _ hholds
      simp only [updateAberrantCF_failures hcf hfns, hmid, updateFailures_eq hpos, get_set, set_violations, Verdicts,
        and_true, List.foldl_cons, List.foldl_nil, WindowEvent.record]
      exact ⟨failureVerdict_of_agrees hslide, hslide⟩
  · rw [if_neg hone]
    refine ⟨trivial, ?_⟩
    rw [WindowHolds, cdpAt, updateAberrantSlot_of_ne hi hone hm, ← hi]
    exact hholds

lemma updateCdp_violations (cf : Cf) (c : CdpPrep) (x : RrdValue) (stepCnt elapsed offset pdpCnt : ℕ) (xff : RrdValue) :
    (updateCdp cf c x stepCnt elapsed offset pdpCnt xff).violations = c.violations := by
  unfold updateCdp
  split_ifs <;> rfl

/-- `update_all_cdp_prep` erases the window when more than two steps are closed. -/
lemma prepared_window (hi : rrd.rra[i]? = some rra) (hdef : rra.rraDef = r) (hcf : r.cf = .failures)
    (hd : d < rra.cdpPrep.length) (hholds : WindowHolds r rrd.rra i d history) :
    ∃ rra', (rrd.prepared a)[i]? = some rra' ∧ rra'.rraDef = r ∧ d < rra'.cdpPrep.length ∧
      WindowHolds r (rrd.prepared a) i d (if 2 < a.elapsed ∧ r.pdpCnt ≤ 1 then [] else history) := by
  subst hdef
  obtain ⟨s', hprep, -⟩ := @pass_at rrd a i rra hi
  have hplain : rra.rraDef.cf.isSeasonal = false := by rw [hcf]; rfl
  have hrra : (updateRraCdpPrep a.elapsed a.procPdpCnt a.temps s' rra).1 =
      updateCdpPrep a.elapsed a.procPdpCnt a.temps s' rra := by
    simp only [updateRraCdpPrep, hplain, Bool.false_eq_true, if_false]
  rw [hrra] at hprep
  refine ⟨_, hprep, rfl, by simpa [updateCdpPrep] using hd, ?_⟩
  have hbefore : cdpAt rrd.rra i d = rra.cdpPrep[d] := by
    rw [cdpAt, hi, Option.bind_some, List.getElem?_eq_getElem hd, Option.getD_some]
  rw [WindowHolds, hbefore] at hholds
  rw [WindowHolds, cdpAt, hprep, Option.bind_some, updateCdpPrep, List.getElem?_mapIdx, List.getElem?_eq_getElem hd,
    Option.map_some, Option.getD_some]
  by_cases hmany : 1 < rra.rraDef.pdpCnt
  · rw [if_pos hmany, if_neg (by omega), updateCdp_violations]
    exact hholds
  · rw [if_neg hmany]
    by_cases helapsed : 2 < a.elapsed
    · rw [if_pos helapsed, if_pos ⟨helapsed, by omega⟩, resetCdp, hcf]
      exact agrees_eraseViolations _ _
    · rw [if_neg helapsed, if_neg fun h => helapsed h.1]
      exact hholds

/-- One pass. -/
lemma pass_window (hi : rrd.rra[i]? = some rra) (hdef : rra.rraDef = r) (hcf : r.cf = .failures) (hpos : 0 < r.windowLen)
    (hd : d < rra.cdpPrep.length) (hholds : WindowHolds r rrd.rra i d history) :
    Verdicts r.windowLen r.failureThreshold history (rrd.windowEvents a i d) ∧
      WindowHolds r (rrd.pass a).rra i d ((rrd.windowEvents a i d).foldl WindowEvent.record history) := by
  obtain ⟨rra', hi', hdef', hd', hprep⟩ := @prepared_window rrd a rra r i d history hi hdef hcf hd hholds
  have hdefAt : rraDefAt rrd.rra i = some r := by rw [rraDefAt, hi, Option.map_some, hdef]
  rw [WindowHolds, cdpAt_pass_eq hi]
  simp only [Rrd.windowEvents, hdefAt, Option.map_some, Option.getD_some]
  by_cases hbulk : 2 < a.elapsed
  · rw [if_pos hbulk, updateAberrantCdps_of_two_lt hbulk]
    by_cases hone : r.pdpCnt ≤ 1
    · rw [if_pos ⟨hbulk, hone⟩] at hprep
      rw [if_pos hone]
      exact ⟨trivial, hprep⟩
    · rw [if_neg fun h => hone h.2] at hprep
      rw [if_neg hone]
      exact ⟨trivial, hprep⟩
  · rw [if_neg fun h => hbulk h.1] at hprep
    rw [if_neg hbulk]
    have hlen : i < (rrd.prepared a).length := (List.getElem?_eq_some_iff.1 hi').1
    by_cases hone : a.elapsed = 1
    · rw [if_pos hone, hone, updateAberrantCdps_one]
      exact updateAberrantSlot_window hi' hdef' hcf hpos hd' hlen hprep
    · rw [if_neg hone]
      by_cases htwo : a.elapsed = 2
      · rw [if_pos htwo, htwo, updateAberrantCdps_two, List.foldl_append]
        obtain ⟨hv₁, hh₁⟩ := @updateAberrantSlot_window _ rra' r i d history 2 a.temps .primary hi' hdef' hcf hpos hd' _
          hlen hprep
        obtain ⟨rra₁, hi₁, hs₁⟩ := Pointwise.getElem?_left (updateAberrantSlot_spec 2 a.temps .primary
          (rrd.prepared a) (rrd.prepared a).length) hi'
        have hlen₁ : i < (updateAberrantSlot 2 a.temps .primary (rrd.prepared a) (rrd.prepared a).length).length :=
          (List.getElem?_eq_some_iff.1 hi₁).1
        rw [updateAberrantSlot_length] at hlen₁
        obtain ⟨hv₂, hh₂⟩ := @updateAberrantSlot_window _ rra₁ r i d _ 2 a.temps .secondary hi₁
          (hs₁.rraDef.trans hdef') hcf hpos (hs₁.length.symm ▸ hd') _ hlen₁ hh₁
        exact ⟨hv₁.append hv₂, hh₂⟩
      · rw [if_neg htwo]
        have hnone : aberrantSlots a.elapsed = [] := by rw [aberrantSlots, if_neg hone, if_neg htwo]
        rw [updateAberrantCdps, hnone]
        exact ⟨trivial, hprep⟩

end OnePass

/-! ### Runs -/

/-- The archive at `i` with an area for each of `n` data sources. -/
def HasArchive (rrd : Rrd) (i : ℕ) (r : RraDef) (n : ℕ) : Prop :=
  ∃ rra, rrd.rra[i]? = some rra ∧ rra.rraDef = r ∧ rra.cdpPrep.length = n

section Run

variable {i d n : ℕ} {r : RraDef} {history : List Bool}

lemma HasArchive.pass {rrd : Rrd} (h : HasArchive rrd i r n) (a : PassArgs) : HasArchive (rrd.pass a) i r n := by
  obtain ⟨rra, hi, hdef, hlen⟩ := h
  obtain ⟨written, hspec, hrrd, -⟩ := consolidate_spec rrd a.elapsed a.procPdpCnt a.temps a.coef a.time
  obtain ⟨p, hp, hs⟩ := Pointwise.getElem?_left hspec hi
  refine ⟨p.1, ?_, hs.rraDef.trans hdef, hs.length.trans hlen⟩
  rw [Rrd.pass, hrrd]
  simp only [List.getElem?_map, hp, Option.map_some]

lemma passEvents_window (hcf : r.cf = .failures) (hpos : 0 < r.windowLen) (hd : d < n) (as : List PassArgs) {rrd : Rrd}
    (harchive : HasArchive rrd i r n) (hholds : WindowHolds r rrd.rra i d history) :
    Verdicts r.windowLen r.failureThreshold history (passEvents i d rrd as) ∧
      HasArchive (as.foldl Rrd.pass rrd) i r n ∧
      WindowHolds r (as.foldl Rrd.pass rrd).rra i d ((passEvents i d rrd as).foldl WindowEvent.record history) := by
  induction as generalizing rrd history with
  | nil => exact ⟨trivial, harchive, hholds⟩
  | cons a as ih =>
    obtain ⟨rra, hi, hdef, hlen⟩ := harchive
    obtain ⟨hverdicts, hnext⟩ := @pass_window rrd a rra r i d history hi hdef hcf hpos (hlen ▸ hd) hholds
    obtain ⟨hrest, harchive', hholds'⟩ := ih (HasArchive.pass ⟨rra, hi, hdef, hlen⟩ a) hnext
    rw [passEvents, List.foldl_append]
    exact ⟨hverdicts.append hrest, harchive', hholds'⟩

/-- One step of a run. -/
lemma step_window (hcf : r.cf = .failures) (hpos : 0 < r.windowLen) (hd : d < n) {db db' : Db} {op : Op}
    (hstep : db.step op = some db') (harchive : HasArchive db.rrd i r n) (hholds : WindowHolds r db.rrd.rra i d history) :
    Verdicts r.windowLen r.failureThreshold history (op.windowEvents i d db) ∧ HasArchive db'.rrd i r n ∧
      WindowHolds r db'.rrd.rra i d ((op.windowEvents i d db).foldl WindowEvent.record history) := by
  cases op with
  | arg host tmpl input =>
    simp only [Db.step] at hstep
    split at hstep
    · cases hstep
    · rename_i rrd' acc hp
      cases hstep
      obtain ⟨-, hrra⟩ := processArg_passes hp
      obtain ⟨hverdicts, harchive', hholds'⟩ := passEvents_window hcf hpos hd (acc.passes db.rrd) harchive hholds
      simp only [Op.windowEvents, hp, HasArchive, hrra]
      exact ⟨hverdicts, harchive', hholds'⟩
  | smooth =>
    cases hstep
    obtain ⟨rra, hi, hdef, hlen⟩ := harchive
    obtain ⟨rra', hi', hs⟩ := Pointwise.getElem?_left (smoothAllRras_spec db.rrd) hi
    have hareas : rra'.cdpPrep = rra.cdpPrep := hs.cdpPrep (by rw [hdef, hcf]; decide) (by rw [hdef, hcf]; decide)
    refine ⟨trivial, ⟨rra', hi', hs.rraDef.trans hdef, hareas ▸ hlen⟩, ?_⟩
    show WindowHolds r (smoothAllRras db.rrd).rra i d history
    rw [WindowHolds, cdpAt, hi', Option.bind_some, hareas]
    rw [WindowHolds, cdpAt, hi, Option.bind_some] at hholds
    exact hholds

/-- The verdicts of a run are about the values judged since the window was last erased. -/
lemma run_verdicts (hcf : r.cf = .failures) (hpos : 0 < r.windowLen) (hd : d < n) (ops : List Op) {db : Db}
    (harchive : HasArchive db.rrd i r n) (hholds : WindowHolds r db.rrd.rra i d history) :
    Verdicts r.windowLen r.failureThreshold history (Db.windowEvents i d db ops) := by
  induction ops generalizing db history with
  | nil => trivial
  | cons op ops ih =>
    rw [Db.windowEvents]
    cases hstep : db.step op with
    | none =>
      -- an argument that is refused has no events
      rw [Option.map_none, Option.getD_none, List.append_nil]
      cases op with
      | smooth => cases hstep
      | arg host tmpl input =>
        simp only [Db.step] at hstep
        split at hstep
        · rename_i hp
          simp only [Op.windowEvents, hp]
          trivial
        · cases hstep
    | some db' =>
      obtain ⟨hverdicts, harchive', hholds'⟩ := step_window hcf hpos hd hstep harchive hholds
      exact hverdicts.append (ih harchive' hholds')

end Run

end Rrdtool
