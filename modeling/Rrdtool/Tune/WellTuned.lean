import Rrdtool.Create.WellFormed
import Rrdtool.Tune

/-!
# What tuning keeps

The options of tune check less than the arguments of create do: a heartbeat may be zero, a name may be taken, a
parameter may be `nan`, the failure threshold may exceed the length of the window, and a type of data source may need
a higher version of the file.

The states that accepted options lead to are well formed exactly if every option is given with care in the state
before it (`rrdTuneR_wellTuned_iff`).
-/

namespace Rrdtool

open Checked

/-! ### Well-formed files -/

/-- Strictly between 0 and 1. -/
def IsInside (v : RrdValue) : Prop := ∃ q : ℚ, v = .fin q ∧ 0 < q ∧ q < 1

/-- A well-formed data source of a file. -/
structure DsDef.WellTuned (version : ℕ) (d : DsDef) : Prop where
  heartbeat : d.dst ≠ .cdef → 1 ≤ d.mrhbCnt
  expression : d.dst = .cdef → d.cdef ≠ []
  version : ∀ v, d.dst.requireVersion = some v → v ≤ version

/-- An archive that needs version 4: `MHWPREDICT`, or a smoothing window that is none of those that create sets by
itself. -/
def RraDef.NeedsFour (rra : RraDef) : Prop :=
  rra.cf = .mhwpredict ∨
    rra.cf.isSeasonal ∧ rra.smoothingWindow ≠ .fin 0 ∧ rra.smoothingWindow ≠ (rraDefaults .seasonal).smoothingWindow

/-- A well-formed archive of a file. -/
structure RraDef.WellTuned (version : ℕ) (rra : RraDef) : Prop where
  prediction : rra.cf.isHwpredict → IsInside rra.hwAlpha ∧ IsInside rra.hwBeta
  gamma : rra.cf.isSeasonal → IsInside rra.seasonalGamma
  smoothing : rra.cf.isSeasonal → ∃ q : ℚ, rra.smoothingWindow = .fin q ∧ 0 ≤ q ∧ q ≤ 1
  window : rra.cf = .failures →
    1 ≤ rra.failureThreshold ∧ rra.failureThreshold ≤ rra.windowLen ∧ rra.windowLen ≤ maxFailuresWindowLen
  delta : rra.cf = .failures →
    (.fin (1 / 10) = rra.deltaPos ∨ .fin (1 / 10) < rra.deltaPos) ∧
      (.fin (1 / 10) = rra.deltaNeg ∨ .fin (1 / 10) < rra.deltaNeg)
  version : rra.NeedsFour → 4 ≤ version

/-- The names of the data sources. -/
@[grind] def Rrd.names (rrd : Rrd) : List Text := rrd.ds.map (·.dsDef.dsNam)

/-- A well-formed file. -/
structure Rrd.WellTuned (rrd : Rrd) : Prop where
  names : rrd.names.Nodup
  ds : ∀ d ∈ rrd.ds, d.dsDef.WellTuned rrd.version
  rra : ∀ rra ∈ rrd.rra, rra.rraDef.WellTuned rrd.version

/-! ### Options that are given with care -/

/-- The first archive with a consolidation function has an index that fits, or none that is found. -/
def IdxFits (rrd : Rrd) (cf : Cf) : Prop :=
  ∀ i, rrd.rra.findIdx? (·.rraDef.cf = cf) = some i → s16 i = -1 ∨ s16 i = i

/-- What is not checked of an option. -/
@[grind] def OptionOk (rrd : Rrd) : TuneOpt × Text → Prop
  | (.heartbeat, arg) => ∀ dsNam heartbeat ds, scanHeartbeat arg = some (dsNam, heartbeat) →
      dsMatch rrd dsNam = some ds → dstAt rrd ds ≠ some .cdef ∧ heartbeat ≠ 0
  | (.minimum, arg) | (.maximum, arg) => ∀ dsNam limit ds, scanLimit arg = some (dsNam, limit) →
      dsMatch rrd dsNam = some ds → dstAt rrd ds ≠ some .cdef
  | (.dataSourceType, arg) => ∀ dsNam string ds dst, scanDst arg = some (dsNam, string) →
      dsMatch rrd dsNam = some ds → dstConv string = some dst →
        (dstAt rrd ds = some .cdef ↔ dst = .cdef) ∧ ∀ v, dst.requireVersion = some v → v ≤ rrd.version
  | (.dataSourceRename, arg) => ∀ dsNam dsNew, scanRename arg = some (dsNam, dsNew) →
      dsNew = dsNam ∨ dsMatch rrd dsNew = none
  | (.deltapos, arg) | (.deltaneg, arg) =>
      IdxFits rrd .failures ∧ rrdStrtodbl arg ≠ .whole .nan ∧
        (rrdStrtodbl arg = .notConverted → rrdStrtodFailed arg ≠ .fin 0)
  | (.failureThreshold, arg) =>
      IdxFits rrd .failures ∧ ∀ i rra, rrd.rra.findIdx? (·.rraDef.cf = .failures) = some i →
        rraDefAt rrd.rra i = some rra → u64 (atoi arg) ≤ rra.windowLen
  | (.windowLength, arg) =>
      IdxFits rrd .failures ∧ ∀ i rra, rrd.rra.findIdx? (·.rraDef.cf = .failures) = some i →
        rraDefAt rrd.rra i = some rra → rra.failureThreshold ≤ u64 (atoi arg)
  | (.alpha, arg) | (.beta, arg) =>
      IdxFits rrd .hwpredict ∧
        ((∀ i, rrd.rra.findIdx? (·.rraDef.cf = .hwpredict) = some i → s16 i = -1) → IdxFits rrd .mhwpredict) ∧
        rrdStrtodbl arg ≠ .whole .nan
  | (.gamma, arg) | (.smoothingWindow, arg) => IdxFits rrd .seasonal ∧ rrdStrtodbl arg ≠ .whole .nan
  | (.gammaDeviation, arg) | (.smoothingWindowDeviation, arg) =>
      IdxFits rrd .devseasonal ∧ rrdStrtodbl arg ≠ .whole .nan
  | (.aberrantReset, _) | (.step, _) | (.daemon, _) | (.unknown, _) => True

/-! ### Storing into one entry -/

section Store

variable {rrd : Rrd} {i : ℕ} {version version' : ℕ}

/-- Of a list whose elements have a property, one is changed. -/
lemma forall_mem_modify_iff {α : Type*} {P : α → Prop} {l : List α} {a : α} {g : α → α} (h : ∀ b ∈ l, P b)
    (ha : l[i]? = some a) : (∀ b ∈ l.modify i g, P b) ↔ P (g a) := by
  constructor
  · intro hall
    refine hall (g a) (List.mem_iff_getElem?.2 ⟨i, ?_⟩)
    rw [List.getElem?_modify_eq, ha]
    rfl
  · intro hg b hb
    obtain ⟨j, hj⟩ := List.mem_iff_getElem?.1 hb
    obtain rfl | hne := eq_or_ne i j
    · rw [List.getElem?_modify_eq, ha] at hj
      cases hj
      exact hg
    · rw [List.getElem?_modify_ne _ _ hne] at hj
      exact h b (List.mem_of_getElem? hj)

lemma DsDef.WellTuned.mono {d : DsDef} (h : d.WellTuned version) (hle : version ≤ version') :
    d.WellTuned version' :=
  ⟨h.heartbeat, h.expression, fun v hv => (h.version v hv).trans hle⟩

lemma RraDef.WellTuned.mono {rra : RraDef} (h : rra.WellTuned version) (hle : version ≤ version') :
    rra.WellTuned version' :=
  ⟨h.prediction, h.gamma, h.smoothing, h.window, h.delta, fun hneeds => (h.version hneeds).trans hle⟩

lemma raiseVersion_version (rrd : Rrd) : (raiseVersion rrd).version = max 4 rrd.version := by
  simp only [raiseVersion]
  split <;> omega

lemma Rrd.WellTuned.raiseVersion (h : rrd.WellTuned) : (raiseVersion rrd).WellTuned := by
  have hle : rrd.version ≤ (Rrdtool.raiseVersion rrd).version := by
    rw [raiseVersion_version]
    exact le_max_right 4 rrd.version
  exact ⟨h.names, fun d hd => (h.ds d hd).mono hle, fun rra hrra => (h.rra rra hrra).mono hle⟩

lemma map_modify_eq_set {α β : Type*} {l : List α} {a : α} (f : α → β) (g : α → α) (ha : l[i]? = some a) :
    (l.modify i g).map f = (l.map f).set i (f (g a)) := by
  refine List.ext_getElem? fun j => ?_
  rw [List.getElem?_map]
  obtain rfl | hne := eq_or_ne i j
  · have hi : i < (l.map f).length := by
      rw [List.length_map]
      exact (List.getElem?_eq_some_iff.1 ha).1
    rw [List.getElem?_modify_eq, ha, List.getElem?_set_self hi]
    rfl
  · rw [List.getElem?_modify_ne _ _ hne, List.getElem?_set_ne hne, List.getElem?_map]

lemma set_same {α : Type*} {l : List α} {a : α} (ha : l[i]? = some a) : l.set i a = l := by
  obtain ⟨hi, rfl⟩ := List.getElem?_eq_some_iff.1 ha
  exact List.set_getElem_self hi

lemma names_getElem? {d : DataSource} (hd : rrd.ds[i]? = some d) : rrd.names[i]? = some d.dsDef.dsNam := by
  rw [Rrd.names, List.getElem?_map, hd]
  rfl

/-- A data source changes and keeps its name. -/
lemma Rrd.WellTuned.modify_ds_iff {d : DataSource} {g : DataSource → DataSource} (h : rrd.WellTuned)
    (hd : rrd.ds[i]? = some d) (hname : (g d).dsDef.dsNam = d.dsDef.dsNam) :
    ({ rrd with ds := rrd.ds.modify i g } : Rrd).WellTuned ↔ (g d).dsDef.WellTuned rrd.version := by
  have hnames : (rrd.ds.modify i g).map (·.dsDef.dsNam) = rrd.names := by
    rw [map_modify_eq_set _ _ hd, hname]
    exact set_same (names_getElem? hd)
  rw [← forall_mem_modify_iff (P := fun d => d.dsDef.WellTuned rrd.version) h.ds hd]
  constructor
  · exact fun hwell => hwell.ds
  · intro hds
    refine ⟨?_, hds, h.rra⟩
    rw [Rrd.names, hnames]
    exact h.names

/-- An archive changes. -/
lemma Rrd.WellTuned.modify_rra_iff {rra : Rra} {g : Rra → Rra} (h : rrd.WellTuned) (hrra : rrd.rra[i]? = some rra) :
    ({ rrd with rra := rrd.rra.modify i g } : Rrd).WellTuned ↔ (g rra).rraDef.WellTuned rrd.version := by
  rw [← forall_mem_modify_iff (P := fun rra : Rra => rra.rraDef.WellTuned rrd.version) h.rra hrra]
  constructor
  · exact fun hwell => hwell.rra
  · exact fun hall => ⟨h.names, h.ds, hall⟩

/-- The name that `ds_match` finds. -/
lemma exists_of_dsMatch {dsNam : Text} (h : dsMatch rrd dsNam = some i) :
    ∃ d, rrd.ds[i]? = some d ∧ d.dsDef.dsNam = dsNam := by
  obtain ⟨hi, hnam, -⟩ := List.findIdx?_eq_some_iff_getElem.1 h
  rw [List.length_map] at hi
  refine ⟨rrd.ds[i], List.getElem?_eq_getElem hi, ?_⟩
  rw [List.getElem_map] at hnam
  exact of_decide_eq_true hnam

lemma dsMatch_eq_none_iff {dsNam : Text} : dsMatch rrd dsNam = none ↔ dsNam ∉ rrd.names := by
  rw [dsMatch, List.findIdx?_eq_none_iff]
  constructor
  · intro hall hmem
    exact absurd (hall dsNam hmem) (by simp)
  · intro hnot x hx
    exact decide_eq_false fun heq => hnot (heq ▸ hx)

/-- A data source is renamed. -/
lemma Rrd.WellTuned.rename_iff {dsNam dsNew : Text} (h : rrd.WellTuned) (hmatch : dsMatch rrd dsNam = some i) :
    (setDsDef rrd i fun d => { d with dsNam := dsNew }).WellTuned ↔ dsNew = dsNam ∨ dsMatch rrd dsNew = none := by
  obtain ⟨d, hd, rfl⟩ := exists_of_dsMatch hmatch
  have hi : i < rrd.names.length := by
    rw [Rrd.names, List.length_map]
    exact (List.getElem?_eq_some_iff.1 hd).1
  have hset : (setDsDef rrd i fun d => { d with dsNam := dsNew }).names = rrd.names.set i dsNew :=
    map_modify_eq_set (fun d : DataSource => d.dsDef.dsNam) _ hd
  have hds : ∀ d ∈ (setDsDef rrd i fun d => { d with dsNam := dsNew }).ds, d.dsDef.WellTuned rrd.version := by
    refine (forall_mem_modify_iff (P := fun d => d.dsDef.WellTuned rrd.version) h.ds hd).2 ?_
    have hwell := h.ds d (List.mem_of_getElem? hd)
    exact ⟨hwell.heartbeat, hwell.expression, hwell.version⟩
  rw [dsMatch_eq_none_iff]
  constructor
  · intro hwell
    have hnodup := hwell.names
    rw [hset] at hnodup
    refine or_iff_not_imp_left.2 fun hne hmem => ?_
    -- the new name stands at another index as well
    obtain ⟨j, hj⟩ := List.mem_iff_getElem?.1 hmem
    have hij : i ≠ j := by
      rintro rfl
      rw [names_getElem? hd] at hj
      exact hne (Option.some.inj hj).symm
    have hsame : (rrd.names.set i dsNew)[i]? = (rrd.names.set i dsNew)[j]? := by
      rw [List.getElem?_set_self hi, List.getElem?_set_ne hij, hj]
    exact hij ((List.getElem?_inj (by rwa [List.length_set]) hnodup).1 hsame)
  · intro hfree
    refine ⟨?_, hds, h.rra⟩
    rw [hset]
    obtain rfl | hnot := hfree
    · rw [set_same (names_getElem? hd)]
      exact h.names
    · exact h.names.set hnot

end Store

/-! ### Arguments that are accepted -/

section Accept

variable {rrd : Rrd} {arg : Text} {cf : Cf} {e : TuneError} {v : RrdValue}

lemma orRefuse_bind {α : Type} {o : Option α} {f : α → TuneM Rrd} (h : Checked.Accepted (orRefuse e o >>= f)) :
    ∃ a, o = some a ∧ (orRefuse e o >>= f) = f a ∧ Checked.Accepted (f a) := by
  cases o with
  | none => exact absurd rfl (h e)
  | some a => exact ⟨a, rfl, rfl, h⟩

lemma matchDs_bind {dsNam : Text} {f : ℕ → TuneM Rrd} (h : Checked.Accepted (matchDs rrd dsNam >>= f)) :
    ∃ ds d, dsMatch rrd dsNam = some ds ∧ rrd.ds[ds]? = some d ∧ (matchDs rrd dsNam >>= f) = f ds ∧
      Checked.Accepted (f ds) := by
  unfold matchDs at h ⊢
  cases hm : dsMatch rrd dsNam with
  | none =>
    rw [hm] at h
    exact absurd rfl (h (.unknownDs dsNam))
  | some ds =>
    rw [hm] at h
    obtain ⟨d, hd, -⟩ := exists_of_dsMatch hm
    exact ⟨ds, d, rfl, hd, rfl, h⟩

lemma inside_iff (h : outsideOpen v = false) : IsInside v ↔ v ≠ .nan := by
  simp only [outsideOpen, decide_eq_false_iff_not, not_or] at h
  cases v with
  | nan => simp [IsInside]
  | ninf => exact absurd (show (ExtNum.ninf : RrdValue) < 0 from rfl) h.1
  | pinf => exact absurd (show (.fin 1 : RrdValue) < .pinf from rfl) h.2.2.2
  | fin q =>
    have h0 : ¬ q < 0 := fun hq => h.1 ((ExtNum.fin_lt_fin q 0).2 hq)
    have h1 : ¬ 1 < q := fun hq => h.2.2.2 ((ExtNum.fin_lt_fin 1 q).2 hq)
    have hne0 : q ≠ 0 := fun hq => h.2.1 (by rw [hq]; rfl)
    have hne1 : q ≠ 1 := fun hq => h.2.2.1 (by rw [hq])
    exact iff_of_true ⟨q, rfl, lt_of_le_of_ne (not_lt.1 h0) hne0.symm, lt_of_le_of_ne (not_lt.1 h1) hne1⟩ nofun

/-- A parameter that is accepted is a number in the range, or `nan`. -/
lemma readHwParameter_accepted {outside : RrdValue → Bool} (h : Checked.Accepted (readHwParameter outside arg)) :
    ∃ v, readHwParameter outside arg = .ok v ∧ outside v = false ∧ (v = .nan ↔ rrdStrtodbl arg = .whole .nan) := by
  unfold readHwParameter at h ⊢
  cases hr : rrdStrtodbl arg with
  | notConverted =>
    rw [hr] at h
    exact absurd rfl (h .hwParse)
  | partly q rest =>
    simp only [hr] at h ⊢
    cases ho : outside (.fin q) with
    | true =>
      rw [ho, if_pos rfl] at h
      exact absurd rfl (h .hwRange)
    | false => exact ⟨.fin q, rfl, ho, by simp⟩
  | whole v =>
    simp only [hr] at h ⊢
    cases ho : outside v with
    | true =>
      rw [ho, if_pos rfl] at h
      exact absurd rfl (h .hwRange)
    | false => exact ⟨v, rfl, ho, by simp⟩

lemma rrdStrtodFailed_cases (str : Text) : rrdStrtodFailed str = .fin 0 ∨ rrdStrtodFailed str = .pinf := by
  simp only [rrdStrtodFailed]
  split
  · exact Or.inl rfl
  · exact Or.inr rfl

/-- A delta that is accepted is large enough, or it is `nan` or could not be converted. -/
lemma readDelta_accepted (h : Checked.Accepted (readDelta arg)) :
    ∃ v, readDelta arg = .ok v ∧
      ((.fin (1 / 10) = v ∨ .fin (1 / 10) < v) ↔
        rrdStrtodbl arg ≠ .whole .nan ∧ (rrdStrtodbl arg = .notConverted → rrdStrtodFailed arg ≠ .fin 0)) := by
  unfold readDelta at h ⊢
  cases hr : rrdStrtodbl arg with
  | notConverted =>
    refine ⟨rrdStrtodFailed arg, rfl, ?_⟩
    obtain hz | hp := rrdStrtodFailed_cases arg
    · rw [hz]
      refine iff_of_false ?_ fun hand => hand.2 rfl rfl
      rintro (heq | hlt)
      · exact absurd (ExtNum.fin.inj heq) (by norm_num)
      · exact absurd ((ExtNum.fin_lt_fin _ _).1 hlt) (by norm_num)
    · rw [hp]
      exact iff_of_true (Or.inr rfl) ⟨nofun, fun _ => nofun⟩
  | partly q rest =>
    simp only [hr] at h
    split at h
    · exact absurd rfl (h .tooSmall)
    · exact absurd rfl (h .deltaParse)
  | whole v =>
    simp only [hr] at h ⊢
    split at h
    · exact absurd rfl (h .tooSmall)
    · rename_i hlarge
      refine ⟨v, if_neg hlarge, ?_⟩
      cases v with
      | nan => simp
      | ninf => exact absurd rfl hlarge
      | pinf => exact iff_of_true (Or.inr rfl) ⟨nofun, nofun⟩
      | fin q =>
        refine iff_of_true ?_ ⟨nofun, nofun⟩
        have hle : (1 / 10 : ℚ) ≤ q := not_lt.1 fun hq => hlarge ((ExtNum.fin_lt_fin _ _).2 hq)
        obtain heq | hlt := hle.eq_or_lt
        · exact Or.inl (by rw [heq])
        · exact Or.inr ((ExtNum.fin_lt_fin _ _).2 hlt)

/-- The archive that is found. -/
lemma rraIdxOf_accepted (h : Checked.Accepted (rraIdxOf rrd cf e)) :
    ∃ i rra, rrd.rra.findIdx? (·.rraDef.cf = cf) = some i ∧ rrd.rra[i]? = some rra ∧ rra.rraDef.cf = cf ∧
      s16 i ≠ -1 ∧ rraIdxOf rrd cf e = if s16 i = i then .ok i else .error (.fault .rraIdx) := by
  unfold rraIdxOf at h ⊢
  cases hf : rrd.rra.findIdx? (·.rraDef.cf = cf) with
  | none =>
    rw [hf] at h
    exact absurd rfl (h e)
  | some i =>
    simp only [hf] at h ⊢
    obtain ⟨hi, hcf, -⟩ := List.findIdx?_eq_some_iff_getElem.1 hf
    have hne : s16 i ≠ -1 := by
      intro hm
      rw [if_pos hm] at h
      exact absurd rfl (h e)
    exact ⟨i, rrd.rra[i], rfl, List.getElem?_eq_getElem hi, of_decide_eq_true hcf, hne, if_neg hne⟩

end Accept

/-! ### One option -/

section Step

variable {rrd : Rrd} {arg : Text} {cf : Cf} {e : TuneError} {ds : ℕ} {d : DataSource}

lemma dstAt_eq (hd : rrd.ds[ds]? = some d) : dstAt rrd ds = some d.dsDef.dst := by
  rw [dstAt, hd]
  rfl

lemma setDsPar_safe_iff (h : rrd.WellTuned) (hd : rrd.ds[ds]? = some d) {f : DsDef → DsDef}
    (hnam : ∀ d, (f d).dsNam = d.dsNam) (hdst : (f d.dsDef).dst = d.dsDef.dst) :
    Safe Rrd.WellTuned (setDsPar rrd ds f) ↔ dstAt rrd ds ≠ some .cdef ∧ 1 ≤ (f d.dsDef).mrhbCnt := by
  have hwell := h.ds d (List.mem_of_getElem? hd)
  unfold setDsPar
  split
  · rename_i hcdef
    exact iff_of_false (not_safe_fault _) fun hand => hand.1 hcdef
  · rename_i hcdef
    rw [safe_ok, setDsDef, h.modify_ds_iff hd (hnam d.dsDef), and_iff_right hcdef]
    have hne : d.dsDef.dst ≠ .cdef := fun heq => hcdef (by rw [dstAt_eq hd, heq])
    constructor
    · exact fun hf => hf.heartbeat (hdst ▸ hne)
    · intro hpos
      refine ⟨fun _ => hpos, fun hc => absurd (hdst ▸ hc) hne, ?_⟩
      rw [hdst]
      exact hwell.version

lemma setDst_safe_iff (h : rrd.WellTuned) (hd : rrd.ds[ds]? = some d) (dst : Dst) :
    Safe Rrd.WellTuned (setDst rrd ds dst) ↔
      (dstAt rrd ds = some .cdef ↔ dst = .cdef) ∧ ∀ v, dst.requireVersion = some v → v ≤ rrd.version := by
  have hwell := h.ds d (List.mem_of_getElem? hd)
  have hat := dstAt_eq hd
  unfold setDst
  split
  · rename_i hsame
    rw [hsame] at hat ⊢
    cases hat
    exact iff_of_true h ⟨by simp, hwell.version⟩
  · rename_i hdiff
    split
    · rename_i hcross
      refine iff_of_false (not_safe_fault _) fun hand => ?_
      obtain hold | rfl := hcross
      · exact hdiff (by rw [hold, hand.1.1 hold])
      · exact hdiff (hand.1.2 rfl)
    · rename_i hcross
      obtain ⟨hold, hnew⟩ := not_or.1 hcross
      rw [safe_ok, and_iff_right (iff_of_false hold hnew)]
      refine (h.modify_ds_iff hd rfl).trans ?_
      have hne : d.dsDef.dst ≠ .cdef := fun heq => hold (by rw [hat, heq])
      constructor
      · exact fun hf => hf.version
      · exact fun hv => ⟨fun _ => hwell.heartbeat hne, fun hc => absurd hc hnew, hv⟩

/-- What is stored into the archive that is found. -/
lemma setRra_safe_iff (h : rrd.WellTuned) (hacc : Checked.Accepted (rraIdxOf rrd cf e)) :
    ∃ i rra, rrd.rra.findIdx? (·.rraDef.cf = cf) = some i ∧ rrd.rra[i]? = some rra ∧ rra.rraDef.cf = cf ∧
      ∀ g : Rra → Rra,
        (Safe Rrd.WellTuned (rraIdxOf rrd cf e >>= fun i => .ok { rrd with rra := rrd.rra.modify i g }) ↔
          IdxFits rrd cf ∧ (g rra).rraDef.WellTuned rrd.version) := by
  obtain ⟨i, rra, hf, hrra, hcf, hne, heq⟩ := rraIdxOf_accepted hacc
  have hfits : IdxFits rrd cf ↔ s16 i = i := by
    constructor
    · exact fun hfit => (hfit i hf).resolve_left hne
    · intro hi j hj
      rw [hf] at hj
      cases hj
      exact Or.inr hi
  refine ⟨i, rra, hf, hrra, hcf, fun g => ?_⟩
  rw [hfits, heq]
  split
  · rename_i hi
    rw [ok_bind, safe_ok, h.modify_rra_iff hrra, and_iff_right hi]
  · rename_i hi
    exact iff_of_false (not_safe_fault _) fun hand => hi hand.1

/-- A parameter of an archive that must lie strictly between 0 and 1. -/
lemma setHwarg_safe_iff (h : rrd.WellTuned) {f : RrdValue → RraDef → RraDef}
    (hf : ∀ v rra, rra.cf = cf → rra.WellTuned rrd.version → ((f v rra).WellTuned rrd.version ↔ IsInside v))
    (hacc : Checked.Accepted (setHwarg rrd cf f arg)) :
    Safe Rrd.WellTuned (setHwarg rrd cf f arg) ↔ IdxFits rrd cf ∧ rrdStrtodbl arg ≠ .whole .nan := by
  obtain ⟨hread, hlater⟩ := hacc.bind
  obtain ⟨v, hv, hout, hnan⟩ := readHwParameter_accepted hread
  obtain ⟨i, rra, -, hrra, hcf, hstore⟩ := setRra_safe_iff h (hlater v hv).bind.1
  rw [setHwarg, hv, ok_bind, ne_eq, ← hnan, ← ne_eq, ← inside_iff hout,
    ← hf v rra.rraDef hcf (h.rra rra (List.mem_of_getElem? hrra))]
  exact hstore fun rra => { rra with rraDef := f v rra.rraDef }

/-- The smoothing window of an archive of a file that has version 4. -/
lemma setHwsmootharg_safe_iff (h : rrd.WellTuned) (hfour : 4 ≤ rrd.version) (hcf : cf.isSeasonal)
    (hacc : Checked.Accepted (setHwsmootharg rrd cf arg)) :
    Safe Rrd.WellTuned (setHwsmootharg rrd cf arg) ↔ IdxFits rrd cf ∧ rrdStrtodbl arg ≠ .whole .nan := by
  obtain ⟨hread, hlater⟩ := hacc.bind
  obtain ⟨v, hv, hout, hnan⟩ := readHwParameter_accepted hread
  obtain ⟨i, rra, -, hrra, rfl, hstore⟩ := setRra_safe_iff h (hlater v hv).bind.1
  have hwell := h.rra rra (List.mem_of_getElem? hrra)
  rw [setHwsmootharg, hv, ok_bind, ne_eq, ← hnan, ← ne_eq, ← closed_iff hout]
  refine (hstore fun rra => { rra with rraDef := { rra.rraDef with smoothingWindow := v } }).trans
    (and_congr_right fun _ => ?_)
  constructor
  · exact fun hnew => hnew.smoothing hcf
  · exact fun hv => ⟨hwell.prediction, hwell.gamma, fun _ => hv, hwell.window, hwell.delta, fun _ => hfour⟩

lemma setDeltaarg_safe_iff (h : rrd.WellTuned) {f : RrdValue → RraDef → RraDef}
    (hf : ∀ v rra, rra.cf = .failures → rra.WellTuned rrd.version →
      ((f v rra).WellTuned rrd.version ↔ .fin (1 / 10) = v ∨ .fin (1 / 10) < v))
    (hacc : Checked.Accepted (setDeltaarg rrd f arg)) :
    Safe Rrd.WellTuned (setDeltaarg rrd f arg) ↔
      IdxFits rrd .failures ∧ rrdStrtodbl arg ≠ .whole .nan ∧
        (rrdStrtodbl arg = .notConverted → rrdStrtodFailed arg ≠ .fin 0) := by
  obtain ⟨hread, hlater⟩ := hacc.bind
  obtain ⟨v, hv, hlarge⟩ := readDelta_accepted hread
  obtain ⟨i, rra, -, hrra, hcf, hstore⟩ := setRra_safe_iff h (hlater v hv).bind.1
  rw [setDeltaarg, hv, ok_bind, ← hlarge, ← hf v rra.rraDef hcf (h.rra rra (List.mem_of_getElem? hrra))]
  exact hstore fun rra => { rra with rraDef := f v rra.rraDef }

lemma setWindowarg_safe_iff (h : rrd.WellTuned) {f : ℕ → RraDef → RraDef} {P : ℕ → RraDef → Prop}
    (hf : ∀ n rra, 1 ≤ n → n ≤ maxFailuresWindowLen → rra.cf = .failures → rra.WellTuned rrd.version →
      ((f n rra).WellTuned rrd.version ↔ P n rra))
    (hacc : Checked.Accepted (setWindowarg rrd f arg)) :
    Safe Rrd.WellTuned (setWindowarg rrd f arg) ↔
      IdxFits rrd .failures ∧ ∀ i rra, rrd.rra.findIdx? (·.rraDef.cf = .failures) = some i →
        rraDefAt rrd.rra i = some rra → P (u64 (atoi arg)) rra := by
  simp only [setWindowarg] at hacc ⊢
  split at hacc
  · exact absurd rfl (hacc .windowRange)
  · rename_i hrange
    obtain ⟨hpos, hmax⟩ := not_or.1 hrange
    obtain ⟨i, rra, hfound, hrra, hcf, hstore⟩ := setRra_safe_iff h hacc.bind.1
    rw [if_neg hrange]
    have hone : ∀ j rra', rrd.rra.findIdx? (·.rraDef.cf = .failures) = some j → rraDefAt rrd.rra j = some rra' →
        rra' = rra.rraDef := by
      intro j rra' hj hrra'
      rw [hfound] at hj
      cases hj
      rw [rraDefAt, hrra] at hrra'
      exact (Option.some.inj hrra').symm
    have hat : rraDefAt rrd.rra i = some rra.rraDef := by
      rw [rraDefAt, hrra]
      rfl
    have hall : (∀ j rra', rrd.rra.findIdx? (·.rraDef.cf = .failures) = some j → rraDefAt rrd.rra j = some rra' →
        P (u64 (atoi arg)) rra') ↔ P (u64 (atoi arg)) rra.rraDef := by
      constructor
      · exact fun hP => hP i rra.rraDef hfound hat
      · intro hP j rra' hj hrra'
        rw [hone j rra' hj hrra']
        exact hP
    rw [hall, ← hf _ rra.rraDef (not_lt.1 hpos) (not_lt.1 hmax) hcf (h.rra rra (List.mem_of_getElem? hrra))]
    simp only [setRraDef, List.modify_modify_eq]
    exact hstore _

/-- A parameter of the `HWPREDICT` archive, or else of the `MHWPREDICT` archive. -/
lemma setPrediction_safe_iff (h : rrd.WellTuned) {f : RrdValue → RraDef → RraDef}
    (hf : ∀ v rra, rra.cf.isHwpredict → rra.WellTuned rrd.version → ((f v rra).WellTuned rrd.version ↔ IsInside v))
    (hacc : Checked.Accepted (setPrediction rrd f arg)) :
    Safe Rrd.WellTuned (setPrediction rrd f arg) ↔
      IdxFits rrd .hwpredict ∧
        ((∀ i, rrd.rra.findIdx? (·.rraDef.cf = .hwpredict) = some i → s16 i = -1) → IdxFits rrd .mhwpredict) ∧
        rrdStrtodbl arg ≠ .whole .nan := by
  have hhw : ∀ v rra, rra.cf = .hwpredict → rra.WellTuned rrd.version →
      ((f v rra).WellTuned rrd.version ↔ IsInside v) := fun v rra hcf => hf v rra (by rw [hcf]; rfl)
  have hmhw : ∀ v rra, rra.cf = .mhwpredict → rra.WellTuned rrd.version →
      ((f v rra).WellTuned rrd.version ↔ IsInside v) := fun v rra hcf => hf v rra (by rw [hcf]; rfl)
  unfold setPrediction at hacc ⊢
  split
  · rename_i e he
    -- the value was read, so there is no `HWPREDICT` archive
    rw [he] at hacc
    obtain ⟨v, hv, -, -⟩ := readHwParameter_accepted hacc.bind.1
    have hnone : ∀ i, rrd.rra.findIdx? (·.rraDef.cf = .hwpredict) = some i → s16 i = -1 := by
      intro i hi
      rw [setHwarg, hv, ok_bind, rraIdxOf, hi] at he
      by_contra hne
      simp only [if_neg hne] at he
      split at he <;> cases he
    rw [setHwarg_safe_iff h hmhw hacc]
    constructor
    · exact fun hand => ⟨fun i hi => Or.inl (hnone i hi), fun _ => hand.1, hand.2⟩
    · exact fun hand => ⟨hand.2.1 hnone, hand.2.2⟩
  · rename_i hne
    have hhwacc : Checked.Accepted (setHwarg rrd .hwpredict f arg) := fun e he => hne e he
    rw [setHwarg_safe_iff h hhw hhwacc]
    have hsome : ¬ ∀ i, rrd.rra.findIdx? (·.rraDef.cf = .hwpredict) = some i → s16 i = -1 := by
      intro hall
      obtain ⟨v, hv, -, -⟩ := readHwParameter_accepted hhwacc.bind.1
      obtain ⟨i, -, hi, -, -, hidx, -⟩ := rraIdxOf_accepted (hhwacc.bind.2 v hv).bind.1
      exact hidx (hall i hi)
    constructor
    · exact fun hand => ⟨hand.1, fun hall => absurd hall hsome, hand.2⟩
    · exact fun hand => ⟨hand.1, hand.2.2⟩

lemma resetAberrantRra_rraDef (ds : ℕ) (rra : Rra) : (resetAberrantRra ds rra).rraDef = rra.rraDef := by
  unfold resetAberrantRra
  split <;> rfl

lemma resetAberrantCoefficients_wellTuned (h : rrd.WellTuned) (ds : ℕ) :
    (resetAberrantCoefficients rrd ds).WellTuned := by
  refine ⟨h.names, h.ds, fun rra hrra => ?_⟩
  obtain ⟨rra', hrra', rfl⟩ := List.mem_map.1 hrra
  rw [resetAberrantRra_rraDef]
  exact h.rra rra' hrra'

lemma seasonalGamma_wellTuned_iff {version : ℕ} {rra : RraDef} {v : RrdValue} (hwell : rra.WellTuned version)
    (hcf : rra.cf.isSeasonal) : ({ rra with seasonalGamma := v } : RraDef).WellTuned version ↔ IsInside v := by
  constructor
  · exact fun hnew => hnew.gamma hcf
  · exact fun hv => ⟨hwell.prediction, fun _ => hv, hwell.smoothing, hwell.window, hwell.delta, hwell.version⟩

lemma heartbeat_safe_iff (h : rrd.WellTuned) (hacc : Checked.Accepted (tuneOption rrd (.heartbeat, arg))) :
    Safe Rrd.WellTuned (tuneOption rrd (.heartbeat, arg)) ↔ OptionOk rrd (.heartbeat, arg) := by
  simp only [tuneOption, OptionOk] at hacc ⊢
  obtain ⟨⟨dsNam, heartbeat⟩, hscan, heq, hacc⟩ := orRefuse_bind hacc
  rw [heq]
  obtain ⟨ds, d, hds, hd, heq, -⟩ := matchDs_bind hacc
  dsimp only at heq ⊢
  rw [heq]
  refine (setDsPar_safe_iff h hd (f := fun d => { d with mrhbCnt := heartbeat }) (fun _ => rfl) rfl).trans ?_
  constructor
  · intro hand dsNam' heartbeat' ds' hscan' hds'
    cases hscan.symm.trans hscan'
    cases hds.symm.trans hds'
    exact ⟨hand.1, Nat.one_le_iff_ne_zero.1 hand.2⟩
  · intro hall
    obtain ⟨hcdef, hne⟩ := hall dsNam heartbeat ds hscan hds
    exact ⟨hcdef, Nat.one_le_iff_ne_zero.2 hne⟩

/-- `--minimum` and `--maximum`. -/
lemma limit_safe_iff (h : rrd.WellTuned) (f : RrdValue → DsDef → DsDef) (hnam : ∀ v d, (f v d).dsNam = d.dsNam)
    (hdst : ∀ v d, (f v d).dst = d.dst) (hmrhb : ∀ v d, (f v d).mrhbCnt = d.mrhbCnt)
    (hacc : Checked.Accepted (do
      let scanned ← orRefuse e (scanLimit arg)
      let ds ← matchDs rrd scanned.1
      setDsPar rrd ds (f scanned.2))) :
    Safe Rrd.WellTuned (do
      let scanned ← orRefuse e (scanLimit arg)
      let ds ← matchDs rrd scanned.1
      setDsPar rrd ds (f scanned.2)) ↔
      ∀ dsNam limit ds, scanLimit arg = some (dsNam, limit) → dsMatch rrd dsNam = some ds →
        dstAt rrd ds ≠ some .cdef := by
  obtain ⟨⟨dsNam, limit⟩, hscan, heq, hacc⟩ := orRefuse_bind hacc
  rw [heq]
  obtain ⟨ds, d, hds, hd, heq, -⟩ := matchDs_bind hacc
  dsimp only at heq ⊢
  rw [heq, setDsPar_safe_iff h hd (hnam limit) (hdst limit _)]
  constructor
  · intro hand dsNam' limit' ds' hscan' hds'
    cases hscan.symm.trans hscan'
    cases hds.symm.trans hds'
    exact hand.1
  · intro hall
    have hcdef := hall dsNam limit ds hscan hds
    refine ⟨hcdef, ?_⟩
    rw [hmrhb]
    exact (h.ds d (List.mem_of_getElem? hd)).heartbeat fun heq => hcdef (by rw [dstAt_eq hd, heq])

lemma dataSourceType_safe_iff (h : rrd.WellTuned) (hacc : Checked.Accepted (tuneOption rrd (.dataSourceType, arg))) :
    Safe Rrd.WellTuned (tuneOption rrd (.dataSourceType, arg)) ↔ OptionOk rrd (.dataSourceType, arg) := by
  simp only [tuneOption, OptionOk] at hacc ⊢
  obtain ⟨⟨dsNam, string⟩, hscan, heq, hacc⟩ := orRefuse_bind hacc
  rw [heq]
  obtain ⟨ds, d, hds, hd, heq, hacc⟩ := matchDs_bind hacc
  dsimp only at heq ⊢
  rw [heq]
  obtain ⟨dst, hdst, heq, -⟩ := orRefuse_bind hacc
  rw [heq, setDst_safe_iff h hd]
  constructor
  · intro hand dsNam' string' ds' dst' hscan' hds' hdst'
    cases hscan.symm.trans hscan'
    cases hds.symm.trans hds'
    cases hdst.symm.trans hdst'
    exact hand
  · exact fun hall => hall dsNam string ds dst hscan hds hdst

lemma dataSourceRename_safe_iff (h : rrd.WellTuned) (hacc : Checked.Accepted (tuneOption rrd (.dataSourceRename, arg))) :
    Safe Rrd.WellTuned (tuneOption rrd (.dataSourceRename, arg)) ↔ OptionOk rrd (.dataSourceRename, arg) := by
  simp only [tuneOption, OptionOk] at hacc ⊢
  obtain ⟨⟨dsNam, dsNew⟩, hscan, heq, hacc⟩ := orRefuse_bind hacc
  rw [heq]
  obtain ⟨ds, d, hds, -, heq, -⟩ := matchDs_bind hacc
  dsimp only at heq ⊢
  rw [heq]
  refine (h.rename_iff hds).trans ?_
  constructor
  · intro hfree dsNam' dsNew' hscan'
    cases hscan.symm.trans hscan'
    exact hfree
  · exact fun hall => hall dsNam dsNew hscan

/-- An option that is accepted keeps a well-formed file so exactly if it is given with care. -/
lemma tuneOption_safe_iff (h : rrd.WellTuned) (o : TuneOpt × Text) (hacc : Checked.Accepted (tuneOption rrd o)) :
    Safe Rrd.WellTuned (tuneOption rrd o) ↔ OptionOk rrd o := by
  obtain ⟨opt, arg⟩ := o
  cases opt with
  | heartbeat => exact heartbeat_safe_iff h hacc
  | minimum =>
    simp only [tuneOption, OptionOk] at hacc ⊢
    exact limit_safe_iff h (fun v d => { d with minVal := v }) (fun _ _ => rfl) (fun _ _ => rfl) (fun _ _ => rfl) hacc
  | maximum =>
    simp only [tuneOption, OptionOk] at hacc ⊢
    exact limit_safe_iff h (fun v d => { d with maxVal := v }) (fun _ _ => rfl) (fun _ _ => rfl) (fun _ _ => rfl) hacc
  | dataSourceType => exact dataSourceType_safe_iff h hacc
  | dataSourceRename => exact dataSourceRename_safe_iff h hacc
  | deltapos =>
    simp only [tuneOption, OptionOk] at hacc ⊢
    refine setDeltaarg_safe_iff h (fun v rra hcf hwell => ?_) hacc
    constructor
    · exact fun hnew => (hnew.delta hcf).1
    · exact fun hv => ⟨hwell.prediction, hwell.gamma, hwell.smoothing, hwell.window,
        fun hcf => ⟨hv, (hwell.delta hcf).2⟩, hwell.version⟩
  | deltaneg =>
    simp only [tuneOption, OptionOk] at hacc ⊢
    refine setDeltaarg_safe_iff h (fun v rra hcf hwell => ?_) hacc
    constructor
    · exact fun hnew => (hnew.delta hcf).2
    · exact fun hv => ⟨hwell.prediction, hwell.gamma, hwell.smoothing, hwell.window,
        fun hcf => ⟨(hwell.delta hcf).1, hv⟩, hwell.version⟩
  | failureThreshold =>
    simp only [tuneOption, OptionOk] at hacc ⊢
    refine setWindowarg_safe_iff h (P := fun n rra => n ≤ rra.windowLen) (fun n rra hpos _ hcf hwell => ?_) hacc
    constructor
    · exact fun hnew => (hnew.window hcf).2.1
    · exact fun hle => ⟨hwell.prediction, hwell.gamma, hwell.smoothing,
        fun hcf => ⟨hpos, hle, (hwell.window hcf).2.2⟩, hwell.delta, hwell.version⟩
  | windowLength =>
    simp only [tuneOption, OptionOk] at hacc ⊢
    refine setWindowarg_safe_iff h (P := fun n rra => rra.failureThreshold ≤ n) (fun n rra _ hmax hcf hwell => ?_) hacc
    constructor
    · exact fun hnew => (hnew.window hcf).2.1
    · exact fun hle => ⟨hwell.prediction, hwell.gamma, hwell.smoothing,
        fun hcf => ⟨(hwell.window hcf).1, hle, hmax⟩, hwell.delta, hwell.version⟩
  | alpha =>
    simp only [tuneOption, OptionOk] at hacc ⊢
    refine setPrediction_safe_iff h (fun v rra hcf hwell => ?_) hacc
    constructor
    · exact fun hnew => (hnew.prediction hcf).1
    · exact fun hv => ⟨fun hcf => ⟨hv, (hwell.prediction hcf).2⟩, hwell.gamma, hwell.smoothing, hwell.window,
        hwell.delta, hwell.version⟩
  | beta =>
    simp only [tuneOption, OptionOk] at hacc ⊢
    refine setPrediction_safe_iff h (fun v rra hcf hwell => ?_) hacc
    constructor
    · exact fun hnew => (hnew.prediction hcf).2
    · exact fun hv => ⟨fun hcf => ⟨(hwell.prediction hcf).1, hv⟩, hwell.gamma, hwell.smoothing, hwell.window,
        hwell.delta, hwell.version⟩
  | gamma =>
    simp only [tuneOption, OptionOk] at hacc ⊢
    exact setHwarg_safe_iff h (fun v rra hcf hwell => seasonalGamma_wellTuned_iff hwell (by rw [hcf]; rfl)) hacc
  | gammaDeviation =>
    simp only [tuneOption, OptionOk] at hacc ⊢
    exact setHwarg_safe_iff h (fun v rra hcf hwell => seasonalGamma_wellTuned_iff hwell (by rw [hcf]; rfl)) hacc
  | smoothingWindow =>
    simp only [tuneOption, OptionOk] at hacc ⊢
    exact setHwsmootharg_safe_iff h.raiseVersion (raiseVersion_version rrd ▸ le_max_left 4 rrd.version) rfl hacc
  | smoothingWindowDeviation =>
    simp only [tuneOption, OptionOk] at hacc ⊢
    exact setHwsmootharg_safe_iff h.raiseVersion (raiseVersion_version rrd ▸ le_max_left 4 rrd.version) rfl hacc
  | aberrantReset =>
    simp only [tuneOption, OptionOk] at hacc ⊢
    split at hacc
    · exact absurd rfl (hacc .aberrantReset)
    · rename_i hname
      obtain ⟨ds, d, -, -, heq, -⟩ := matchDs_bind hacc
      rw [if_neg hname, heq]
      exact iff_of_true (resetAberrantCoefficients_wellTuned h ds) trivial
  | step => exact iff_of_true h trivial
  | daemon => exact iff_of_true h trivial
  | unknown => exact absurd rfl (hacc (.option arg))

end Step

/-! ### All options -/

/-- The files that accepted options lead to are well formed exactly if every option is given with care. -/
theorem rrdTuneR_wellTuned_iff {rrd : Rrd} {options : List (TuneOpt × Text)} (h : rrd.WellTuned)
    (hacc : Checked.Accepted (rrdTuneR rrd options)) :
    (∀ front, front <+: options → Safe Rrd.WellTuned (rrdTuneR rrd front)) ↔
      Always tuneOption OptionOk rrd options :=
  safe_foldlM_iff (fun _ o hrrd hacc => tuneOption_safe_iff hrrd o hacc) h hacc

/-- The data sources `a` and `b` and an archive of failures. -/
def gaugePair : Rrd :=
  rrdInitData
    { version := 3
      pdpStep := 300
      lastUp := 1000
      ds := [gaugeDs ['a'] 600, gaugeDs ['b'] 600]
      rra := [{ plainRra .failures 5 1 0 with
        deltaPos := .fin 2, deltaNeg := .fin 2, windowLen := 9, failureThreshold := 7 }]
      pdpStep_pos := fiveMinutes_pos
      lastUp_lt := by decide
      valid := by
        intro r hr
        rw [List.mem_singleton.1 hr]
        exact ⟨by decide, by decide, by decide, nofun⟩ }
    fun _ => 0

lemma gaugePair_wellTuned : gaugePair.WellTuned := by
  refine ⟨by decide, ?_, ?_⟩
  · intro d hd
    have hcases : d.dsDef = gaugeDs ['a'] 600 ∨ d.dsDef = gaugeDs ['b'] 600 := by
      obtain rfl | hd := List.mem_cons.1 hd
      · exact Or.inl rfl
      · rw [List.mem_singleton.1 hd]
        exact Or.inr rfl
    obtain heq | heq := hcases
    · rw [heq]
      exact ⟨fun _ => by decide, nofun, nofun⟩
    · rw [heq]
      exact ⟨fun _ => by decide, nofun, nofun⟩
  · intro rra hrra
    rw [List.mem_singleton.1 hrra]
    refine ⟨nofun, nofun, nofun, fun _ => by decide, fun _ => ?_, ?_⟩
    · exact ⟨Or.inr ((ExtNum.fin_lt_fin _ _).2 (by norm_num)), Or.inr ((ExtNum.fin_lt_fin _ _).2 (by norm_num))⟩
    · rintro (h | h)
      · cases h
      · cases h.1

theorem rrdTuneR_wellTuned_iff_heartbeat :
    Safe Rrd.WellTuned (rrdTuneR gaugePair [(.heartbeat, "a:900".toList)]) := by
  have hok : rrdTuneR gaugePair [(.heartbeat, "a:900".toList)] =
      .ok (setDsDef gaugePair 0 fun d => { d with mrhbCnt := 900 }) := rfl
  refine (rrdTuneR_wellTuned_iff gaugePair_wellTuned fun e he => ?_).2 ?_ _ (List.prefix_refl _)
  · rw [hok] at he
    cases he
  · refine ⟨?_, fun _ _ => trivial⟩
    intro dsNam heartbeat ds hscan hds
    have hscanned : scanHeartbeat "a:900".toList = some (['a'], 900) := by decide
    cases hscanned.symm.trans hscan
    have hmatched : dsMatch gaugePair ['a'] = some 0 := by decide
    cases hmatched.symm.trans hds
    exact ⟨by decide, by decide⟩

/-- A data source takes the name of another one. -/
theorem rename_takes_name :
    gaugePair.WellTuned ∧ Checked.Accepted (rrdTuneR gaugePair [(.dataSourceRename, "a:b".toList)]) ∧
      ¬ Safe Rrd.WellTuned (rrdTuneR gaugePair [(.dataSourceRename, "a:b".toList)]) := by
  have hok : rrdTuneR gaugePair [(.dataSourceRename, "a:b".toList)] =
      .ok (setDsDef gaugePair 0 fun d => { d with dsNam := ['b'] }) := rfl
  rw [hok]
  refine ⟨gaugePair_wellTuned, nofun, fun h => ?_⟩
  have hnames : [['b'], ['b']].Nodup := h.names
  exact absurd hnames (by decide)

end Rrdtool
