import Rrdtool.Create.WellFormed
import Rrdtool.Modify.References
import Rrdtool.Tune.WellTuned

/-!
# The version of a modified database

`parseDS` and `parseRRA` report the version that a definition needs. `add_dss` keeps what is reported in a variable
that nobody reads, and `add_rras` stores what is reported only when it is less than the version of the database. So
the version never goes up, and version 5 goes down to 4 with an archive that needs 4. It is the right one exactly if
it was the right one for all that survives and all that is added, and if no such archive is added to a database of
version 5 (`rrdModifyStructure_version_iff`).
-/

namespace Rrdtool

open Checked

/-! ### What the parsers require -/

/-- The version that `parseDS` requires for a text. -/
def dsTextVersion (c : Text) : Option ℕ :=
  (matchDsRe (c.drop 3)).bind fun (_, dst, _) => (dstConv dst).bind Dst.requireVersion

/-- `parseRRA` requires version 4: for `MHWPREDICT`, and for a smoothing window, which is a fifth token. -/
def demandsFour (arg : Text) : Bool :=
  match colonTokens (arg.drop 4) with
  | [] => false
  | token :: tokens =>
    match parseCf token with
    | .ok cf => cf = .mhwpredict || cf.isSeasonal && 4 ≤ tokens.length
    | .error _ => false

/-- A text of an archive among the modifications requires version 4. -/
@[grind] def AddsFour (ops : List RraModOp) : Prop := ∃ t, RraModOp.add t ∈ ops ∧ demandsFour t

/-- The version of the output is enough for the input, for all definitions and for all that was asked for. -/
structure VersionCovers (rrd out : MemRrd) (ops : List RraModOp) : Prop where
  input : rrd.version ≤ out.version
  ds : ∀ d ∈ out.ds, ∀ v, d.dsDef.dst.requireVersion = some v → v ≤ out.version
  rra : ∀ a ∈ out.rra, a.rraDef.NeedsFour → 4 ≤ out.version
  added : AddsFour ops → 4 ≤ out.version

/-- The version of the input is enough for all that survives and all that is added, and nothing lowers it. -/
structure InputCovers (rrd : MemRrd) (removeDS addDS : List Text) (ops : List RraModOp) : Prop where
  lowered : rrd.version = 5 → ¬ AddsFour ops
  ds : ∀ d ∈ rrd.ds, d.dsDef.dsNam ∉ removeDS → ∀ v, d.dsDef.dst.requireVersion = some v → v ≤ rrd.version
  addDS : ∀ c ∈ addDS, ∀ v, dsTextVersion c = some v → v ≤ rrd.version
  rra : ∀ j a, rrd.rra[j]? = some a → (keepRra ops j a).isSome → a.rraDef.NeedsFour → 4 ≤ rrd.version
  added : AddsFour ops → 4 ≤ rrd.version

/-! ### Data sources -/

lemma parseDst_dst {names : List Text} {dsNam dst args : Text} {d : DsDef}
    (h : parseDst names dsNam dst args = .ok d) : dstConv dst = some d.dst := by
  unfold parseDst at h
  split at h
  case h_1 => cases h
  case h_2 hdst =>
    split at h
    · cases h
    · cases h
      exact hdst
  case h_3 hdst =>
    split at h
    · cases h
    · cases h
      exact hdst

lemma parseAdded_version {mem : Memory} {names : List Text} {c : Text} {d : DsDef}
    (h : parseAdded mem names c = (d, false)) : d.dst.requireVersion = dsTextVersion c := by
  unfold parseAdded at h
  split at h
  case h_1 d' hd =>
    obtain rfl : d' = d := congrArg Prod.fst h
    unfold parseDS at hd
    split at hd
    · cases hd
    · rename_i hre
      rw [dsTextVersion, hre]
      show _ = (dstConv _).bind Dst.requireVersion
      rw [parseDst_dst hd, Option.bind_some]
  case h_2 => cases congrArg Prod.snd h

/-- The data sources behind those that were there are those of the texts. -/
lemma addDss_added {mem : Memory} {lastUp pdpStep : ℕ} {addDS : List Text} {ds ds' : List DataSource}
    (h : addDss mem lastUp pdpStep ds addDS = .ok (ds', false)) :
    (∀ d ∈ ds', d ∈ ds ∨ ∃ c ∈ addDS, d.dsDef.dst.requireVersion = dsTextVersion c) ∧
      ∀ c ∈ addDS, ∃ d ∈ ds', d.dsDef.dst.requireVersion = dsTextVersion c := by
  induction addDS generalizing ds with
  | nil =>
    cases h
    exact ⟨fun d hd => .inl hd, nofun⟩
  | cons c addDS ih =>
    simp only [addDss] at h
    split at h
    case isTrue => cases h
    case isFalse =>
      obtain ⟨⟨ds₁, failed₁⟩, h₁, h⟩ := bind_eq_ok h
      obtain ⟨rfl, hfailed⟩ := Prod.mk.inj (Except.ok.inj h)
      obtain ⟨hparsed, rfl⟩ := Bool.or_eq_false_iff.1 hfailed
      have hversion := parseAdded_version (Prod.ext rfl hparsed)
      obtain ⟨hfrom, hto⟩ := ih h₁
      have hprefix := addDss_append h₁
      constructor
      · intro d hd
        obtain hd | ⟨c', hc', hd⟩ := hfrom d hd
        · obtain hd | hd := List.mem_append.1 hd
          · exact .inl hd
          · obtain rfl := List.mem_singleton.1 hd
            exact .inr ⟨c, List.mem_cons_self, hversion⟩
        · exact .inr ⟨c', List.mem_cons_of_mem c hc', hd⟩
      · intro c' hc'
        obtain rfl | hc' := List.mem_cons.1 hc'
        · exact ⟨_, hprefix.subset (List.mem_append_right ds (List.mem_singleton_self _)), hversion⟩
        · exact hto c' hc'

/-! ### Archives -/

section Archives

variable {pdpStep hash : ℕ} {st st' : RraParse}

lemma isSeasonal_iff_kind (cf : Cf) : cf.isSeasonal ↔ cf.kind = .seasonal := by
  cases cf <;> decide

lemma rraToken4_requires {token : Text} (h : rraToken4 token st = .ok st') (hcf : st.rraDef.cf.isSeasonal) :
    st'.requireVersion = requireAtLeast st.requireVersion 4 := by
  unfold rraToken4 at h
  cases hcf' : st.rraDef.cf <;> rw [hcf'] at h hcf
  case seasonal | devseasonal =>
    simp only at h
    split at h
    · cases h
    · split at h
      · cases h
      · cases h
        rfl
  all_goals cases hcf

/-- Only the fifth token of a seasonal archive requires a version, and sets a smoothing window. -/
lemma rraToken_requires {tokenIdx : ℕ} {token : Text} (h : rraToken pdpStep hash tokenIdx token st = .ok st') :
    if st.rraDef.cf.isSeasonal ∧ tokenIdx = 4 then st'.requireVersion = requireAtLeast st.requireVersion 4
    else st'.requireVersion = st.requireVersion ∧ st'.rraDef.smoothingWindow = st.rraDef.smoothingWindow := by
  have hstep := rraToken_step h
  split
  case isTrue hwindow =>
    obtain ⟨hcf, rfl⟩ := hwindow
    exact rraToken4_requires h hcf
  case isFalse hother =>
    rw [isSeasonal_iff_kind] at hother
    generalize st.rraDef.cf.kind = kind at hstep hother
    cases hstep with
    | smoothing => exact absurd ⟨rfl, rfl⟩ hother
    | _ => exact ⟨rfl, rfl⟩

lemma rraToken_cf {tokenIdx : ℕ} {token : Text} (h : rraToken pdpStep hash tokenIdx token st = .ok st') :
    st'.rraDef.cf = st.rraDef.cf := (rraToken_step h).cf

/-- The loop over the tokens from the one with the index `tokenIdx` on. -/
lemma rraTokens_requires {tokenIdx : ℕ} {tokens : List Text}
    (h : rraTokens pdpStep hash tokenIdx tokens st = .ok st') :
    st'.rraDef.cf = st.rraDef.cf ∧
      if st.rraDef.cf.isSeasonal ∧ tokenIdx ≤ 4 ∧ 4 < tokenIdx + tokens.length then
        st'.requireVersion = requireAtLeast st.requireVersion 4
      else st'.requireVersion = st.requireVersion ∧ st'.rraDef.smoothingWindow = st.rraDef.smoothingWindow := by
  induction tokens generalizing tokenIdx st with
  | nil =>
    cases h
    rw [List.length_nil, if_neg (by omega)]
    exact ⟨rfl, rfl, rfl⟩
  | cons token tokens ih =>
    obtain ⟨st₁, h₁, h⟩ := bind_eq_ok h
    have hfirst := rraToken_requires h₁
    obtain ⟨hcf, hrest⟩ := ih h
    rw [rraToken_cf h₁] at hcf hrest
    refine ⟨hcf, ?_⟩
    rw [List.length_cons]
    split at hfirst
    case isTrue hwindow =>
      obtain ⟨hseasonal, rfl⟩ := hwindow
      rw [if_neg (by omega)] at hrest
      rw [if_pos ⟨hseasonal, le_rfl, by omega⟩, hrest.1, hfirst]
    case isFalse hother =>
      rw [hfirst.1, hfirst.2] at hrest
      by_cases hseasonal : st.rraDef.cf.isSeasonal
      · have hne : tokenIdx ≠ 4 := fun h4 => hother ⟨hseasonal, h4⟩
        have hiff : tokenIdx + 1 ≤ 4 ∧ 4 < tokenIdx + 1 + tokens.length ↔
            tokenIdx ≤ 4 ∧ 4 < tokenIdx + (tokens.length + 1) := by omega
        simp only [hiff] at hrest
        exact hrest
      · rw [if_neg fun h => hseasonal h.1] at hrest ⊢
        exact hrest

lemma rraDefaults_cf (cf : Cf) : (rraDefaults cf).cf = cf := by
  cases cf <;> rfl

lemma rraDefaults_window {cf : Cf} (hcf : cf.isSeasonal) :
    (rraDefaults cf).smoothingWindow = (rraDefaults .seasonal).smoothingWindow := by
  cases cf
  case seasonal | devseasonal => rfl
  all_goals cases hcf

/-- An archive that needs version 4 requires it. -/
lemma parseRRA_requires {required : Option ℕ} {arg : Text} (h : parseRRA pdpStep hash required arg = .ok st) :
    st.requireVersion = (if demandsFour arg then requireAtLeast required 4 else required) ∧
      (st.rraDef.NeedsFour → demandsFour arg) := by
  unfold parseRRA at h
  unfold demandsFour
  split at h
  case h_1 => cases h
  case h_2 token tokens htokens =>
    obtain ⟨cf, hparse, h⟩ := bind_eq_ok h
    obtain ⟨st₁, h₁, h⟩ := bind_eq_ok h
    obtain ⟨hcf, hrest⟩ := rraTokens_requires h₁
    rw [rraDefaults_cf] at hcf hrest
    have hst : st₁ = st := by
      split at h
      · cases h
      · exact Except.ok.inj h
    subst hst
    simp only [htokens, hparse]
    by_cases hmhw : cf = .mhwpredict
    · subst hmhw
      rw [if_neg fun h => Bool.false_ne_true h.1, if_pos rfl] at hrest
      exact ⟨hrest.1, fun _ => rfl⟩
    · rw [if_neg hmhw] at hrest
      by_cases hwindow : cf.isSeasonal ∧ 4 ≤ tokens.length
      · rw [if_pos ⟨hwindow.1, by omega⟩] at hrest
        simp [hwindow.1, hwindow.2, hrest]
      · rw [if_neg fun h => hwindow ⟨h.1, by omega⟩] at hrest
        have hdemands : ¬ (cf = .mhwpredict || cf.isSeasonal && 4 ≤ tokens.length) := by
          simpa [hmhw] using hwindow
        rw [if_neg hdemands]
        refine ⟨hrest.1, ?_⟩
        rintro (hneeds | ⟨hseasonal, -, hneeds⟩)
        · exact absurd (hcf.symm.trans hneeds) hmhw
        · rw [hcf] at hseasonal
          exact absurd (hrest.2.trans (rraDefaults_window hseasonal)) hneeds

lemma createHwContingentRras_not_needs {hwIndex period smoothIdx : ℕ} {hw rra : RraDef}
    (h : rra ∈ createHwContingentRras hwIndex period smoothIdx hw) : ¬ rra.NeedsFour := by
  simp only [createHwContingentRras, List.mem_cons, List.not_mem_nil, or_false] at h
  rintro (hcf | ⟨hcf, hzero, -⟩)
  · obtain rfl | rfl | rfl | rfl := h <;> cases hcf
  · obtain rfl | rfl | rfl | rfl := h
    · exact hzero rfl
    · exact hzero rfl
    · cases hcf
    · cases hcf

/-- An archive and those that it depends on. -/
lemma handleDependentRras_needs {rras rras' : List RraDef} (h : handleDependentRras hash rras st = .ok rras')
    {rra : RraDef} (hrra : rra ∈ rras') (hneeds : rra.NeedsFour) : rra ∈ rras ∨ st.rraDef.NeedsFour := by
  unfold handleDependentRras at h
  split at h
  case isTrue =>
    obtain ⟨i, -, h⟩ := bind_eq_ok h
    cases h
    obtain hrra | hrra := List.mem_append.1 hrra
    · exact .inl hrra
    · obtain rfl | hrra := List.mem_cons.1 hrra
      · exact .inr hneeds
      · exact absurd hneeds (createHwContingentRras_not_needs hrra)
  case isFalse =>
    cases h
    obtain hrra | hrra := List.mem_append.1 hrra
    · exact .inl hrra
    · rw [List.mem_singleton.1 hrra] at hneeds
      exact .inr hneeds

lemma liftCreate_eq_ok {α : Type} {m : CreateM α} {a : α} (h : liftCreate m = .ok a) : m = .ok a := by
  unfold liftCreate at h
  split at h
  · exact congrArg Except.ok (Except.ok.inj h)
  · cases h
  · cases h

/-- What the first loop of `add_rras` collects. -/
lemma addRraDefs_requires {failed : Bool} {rras rras' : List RraDef} {required required' : Option ℕ}
    {ops : List RraModOp} (h : addRraDefs pdpStep hash failed rras required ops = .ok (rras', required')) :
    (AddsFour ops → required' = some (max (required.getD 0) 4)) ∧ (¬ AddsFour ops → required' = required) ∧
      ∀ rra ∈ rras', rra.NeedsFour → rra ∈ rras ∨ AddsFour ops := by
  induction ops generalizing rras required with
  | nil =>
    cases h
    refine ⟨fun hadds => ?_, fun _ => rfl, fun rra hrra _ => .inl hrra⟩
    obtain ⟨t, ht, -⟩ := hadds
    cases ht
  | cons op ops ih =>
    cases op with
    | resize index op n =>
      have hadds : AddsFour (.resize index op n :: ops) ↔ AddsFour ops := by simp [AddsFour]
      rw [hadds]
      exact ih h
    | add rraDef =>
      have hadds : AddsFour (.add rraDef :: ops) ↔ demandsFour rraDef ∨ AddsFour ops := by
        simp [AddsFour, or_and_right, exists_or]
      simp only [addRraDefs] at h
      split at h
      case isTrue => cases h
      case isFalse =>
        obtain ⟨st, hst, h⟩ := bind_eq_ok h
        obtain ⟨rras₁, hrras₁, h⟩ := bind_eq_ok h
        obtain ⟨hrequired, hneeds⟩ := parseRRA_requires (liftCreate_eq_ok hst)
        obtain ⟨hpos, hneg, hfrom⟩ := ih h
        rw [hadds]
        refine ⟨fun hor => ?_, fun hno => ?_, fun rra hrra hn => ?_⟩
        · by_cases hrest : AddsFour ops
          · rw [hpos hrest, hrequired]
            split <;> simp [requireAtLeast]
          · rw [hneg hrest, hrequired, if_pos (hor.resolve_right hrest)]
            rfl
        · rw [hneg fun hrest => hno (.inr hrest), hrequired, if_neg fun hd => hno (.inl hd)]
        · obtain hrra | hrest := hfrom rra hrra hn
          · obtain hrra | hst := handleDependentRras_needs (liftCreate_eq_ok hrras₁) hrra hn
            · exact .inl hrra
            · exact .inr (.inl (hneeds hst))
          · exact .inr (.inr hrest)

end Archives

/-! ### The output -/

section Output

variable {mem : Memory} {rrd out : MemRrd} {removeDS addDS : List Text} {ops : List RraModOp} {hash : ℕ}

lemma addRras_defs (rrd : MemRrd) (ds : List DataSource) (map : List (Option ℕ)) (rowsBefore : ℕ)
    (values : List RrdValue) (rras : List RraDef) :
    (addRras rrd ds map rowsBefore values rras).1.map (·.rraDef) = rras := by
  induction rras generalizing rowsBefore values with
  | nil => rfl
  | cons rra rras ih => rw [addRras, List.map_cons, ih]

lemma handleRraDef_needs {ds : List DataSource} {dsOps : List DsOp} {j : ℕ} {a a' : MemRra}
    (h : handleRraDef rrd ds dsOps ops j a = some a') : a'.rraDef.NeedsFour ↔ a.rraDef.NeedsFour := by
  simp only [handleRraDef] at h
  split at h
  · cases h
  · cases h
    exact Iff.rfl

/-- The version is never raised. -/
lemma rrdModifyStructure_version (h : rrdModifyStructure mem rrd removeDS addDS ops hash = .ok out) :
    3 ≤ rrd.version ∧ rrd.version ≤ 5 ∧ (rrd.version = 5 → AddsFour ops → out.version = 4) ∧
      (¬ (rrd.version = 5 ∧ AddsFour ops) → out.version = rrd.version) ∧
      ∀ a ∈ out.rra, a.rraDef.NeedsFour →
        (∃ j b, rrd.rra[j]? = some b ∧ (keepRra ops j b).isSome ∧ b.rraDef.NeedsFour) ∨ AddsFour ops := by
  simp only [rrdModifyStructure, handleRraDefs_eq] at h
  split at h
  case isTrue => cases h
  case isFalse hrange =>
    push Not at hrange
    obtain ⟨⟨ds, failed⟩, -, h⟩ := bind_eq_ok h
    obtain ⟨⟨rras, required⟩, hrras, h⟩ := bind_eq_ok h
    obtain ⟨hpos, hneg, hfrom⟩ := addRraDefs_requires hrras
    rw [Option.getD_none, max_eq_right (Nat.zero_le 4)] at hpos
    cases h
    refine ⟨hrange.1, hrange.2, fun h5 hadds => ?_, fun hno => ?_, fun a ha hneeds => ?_⟩
    · simp only [hpos hadds, h5]
      rfl
    · by_cases hadds : AddsFour ops
      · simp only [hpos hadds, Option.getD_some]
        rw [if_neg]
        have hfive : rrd.version ≠ 5 := fun h5 => hno ⟨h5, hadds⟩
        omega
      · simp only [hneg hadds, Option.getD_none, lt_irrefl, if_false]
    · have hkept : ∀ ds dsOps b, b ∈ Compact.keepFrom (handleRraDef rrd ds dsOps ops) 0 rrd.rra →
          b.rraDef.NeedsFour → ∃ j a, rrd.rra[j]? = some a ∧ (keepRra ops j a).isSome ∧ a.rraDef.NeedsFour := by
        intro ds dsOps b hb hneeds
        obtain ⟨j, a, ha, hdef⟩ := Compact.mem_keepFrom.1 hb
        rw [Nat.zero_add] at hdef
        refine ⟨j, a, ha, ?_, (handleRraDef_needs hdef).1 hneeds⟩
        rw [← handleRraDef_isSome rrd ds dsOps, hdef]
        rfl
      obtain ha | ha := List.mem_append.1 ha
      · exact .inl (hkept _ _ a ha hneeds)
      · have hdef := List.mem_map_of_mem (f := (·.rraDef)) ha
        rw [addRras_defs] at hdef
        obtain hold | hadds := hfrom _ (List.mem_of_mem_drop hdef) hneeds
        · obtain ⟨b, hb, heq⟩ := List.mem_map.1 hold
          exact .inl (hkept _ _ b hb (heq ▸ hneeds))
        · exact .inr hadds

/-- The version of an accepted modification is right exactly if that of the input is right for all that survives and
all that is added, and no archive lowers it. -/
theorem rrdModifyStructure_version_iff (mem : Memory) (rrd out : MemRrd) (removeDS addDS : List Text)
    (ops : List RraModOp) (hash : ℕ) (h : rrdModifyStructure mem rrd removeDS addDS ops hash = .ok out)
    (hds : addDss mem rrd.lastUp rrd.pdpStep (rrd.ds.filter fun d => d.dsDef.dsNam ∉ removeDS) addDS =
      .ok (out.ds, false)) :
    VersionCovers rrd out ops ↔ InputCovers rrd removeDS addDS ops := by
  obtain ⟨h3, h5, hlowered, hsame, hrra⟩ := rrdModifyStructure_version h
  obtain ⟨hfrom, hto⟩ := addDss_added hds
  have hkept := (addDss_append hds).subset
  constructor
  · intro hcovers
    have hno : ¬ (rrd.version = 5 ∧ AddsFour ops) := by
      rintro ⟨hfive, hadds⟩
      have hle := hcovers.input
      rw [hlowered hfive hadds, hfive] at hle
      omega
    have hversion := hsame hno
    refine ⟨fun hfive hadds => hno ⟨hfive, hadds⟩, fun d hd hkeep v hv => ?_, fun c hc v hv => ?_,
      fun j a ha hkeep hneeds => ?_, fun hadds => hversion ▸ hcovers.added hadds⟩
    · exact hversion ▸ hcovers.ds d (hkept (List.mem_filter.2 ⟨hd, by simpa using hkeep⟩)) v hv
    · obtain ⟨d, hd, hdst⟩ := hto c hc
      exact hversion ▸ hcovers.ds d hd v (hdst.trans hv)
    · obtain ⟨dsOps, new, values, hm⟩ := rrdModifyStructure_modified h
      obtain ⟨a', ha', hplace, -⟩ := hm.rra_at ha hkeep
      exact hversion ▸ hcovers.rra a' (List.mem_of_getElem? hplace) ((handleRraDef_needs ha').2 hneeds)
  · intro hcovers
    have hversion := hsame fun hboth => hcovers.lowered hboth.1 hboth.2
    refine ⟨hversion.ge, fun d hd v hv => ?_, fun a ha hneeds => ?_, fun hadds => ?_⟩
    · rw [hversion]
      obtain hd | ⟨c, hc, hdst⟩ := hfrom d hd
      · obtain ⟨hd, hkeep⟩ := List.mem_filter.1 hd
        exact hcovers.ds d hd (by simpa using hkeep) v hv
      · exact hcovers.addDS c hc v (hdst.symm.trans hv)
    · rw [hversion]
      obtain ⟨j, b, hb, hkeep, hneeds⟩ | hadds := hrra a ha hneeds
      · exact hcovers.rra j b hb hkeep hneeds
      · exact hcovers.added hadds
    · rw [hversion]
      exact hcovers.added hadds

end Output

lemma eq_ok_of_toOption {ε α : Type*} {m : Except ε α} {a : α} (h : m.toOption = some a) : m = .ok a := by
  cases m with
  | error e => cases h
  | ok b => exact congrArg Except.ok (Option.some.inj h)

/-- `DS:d:DCOUNTER:600:U:U` and an archive of averages, added to a database of version 5. -/
theorem rrdModifyStructure_version_iff_five :
    ∃ out, rrdModifyStructure noMemory { computedRrd with version := 5 } [] ["DS:d:DCOUNTER:600:U:U".toList]
        [.add "RRA:AVERAGE:0.5:1:2".toList] 0 = .ok out ∧
      (VersionCovers { computedRrd with version := 5 } out [.add "RRA:AVERAGE:0.5:1:2".toList] ↔
        InputCovers { computedRrd with version := 5 } [] ["DS:d:DCOUNTER:600:U:U".toList]
          [.add "RRA:AVERAGE:0.5:1:2".toList]) := by
  obtain ⟨out, h⟩ := exists_ok (show (rrdModifyStructure noMemory { computedRrd with version := 5 } []
    ["DS:d:DCOUNTER:600:U:U".toList] [.add "RRA:AVERAGE:0.5:1:2".toList] 0).toOption.isSome by decide +kernel)
  have hds : ((rrdModifyStructure noMemory { computedRrd with version := 5 } []
      ["DS:d:DCOUNTER:600:U:U".toList] [.add "RRA:AVERAGE:0.5:1:2".toList] 0).toOption.map fun out =>
        (out.ds, false)) =
      (addDss noMemory computedRrd.lastUp computedRrd.pdpStep computedRrd.ds
        ["DS:d:DCOUNTER:600:U:U".toList]).toOption := by decide +kernel
  rw [h] at hds
  exact ⟨out, h, rrdModifyStructure_version_iff _ _ _ _ _ _ _ h (eq_ok_of_toOption hds.symm)⟩

/-- A `DCOUNTER` does not raise version 3, and `MHWPREDICT` lowers version 5. -/
theorem rrdModifyStructure_version_low :
    (∃ out, rrdModifyStructure noMemory computedRrd [] ["DS:d:DCOUNTER:600:U:U".toList] [] 0 = .ok out ∧
        ¬ VersionCovers computedRrd out []) ∧
      ∃ out, rrdModifyStructure noMemory { computedRrd with version := 5 } []
          [] [.add "RRA:MHWPREDICT:10:0.1:0.1:5".toList] 0 = .ok out ∧
        ¬ VersionCovers { computedRrd with version := 5 } out [.add "RRA:MHWPREDICT:10:0.1:0.1:5".toList] := by
  constructor
  · obtain ⟨out, h⟩ := exists_ok (show (rrdModifyStructure noMemory computedRrd []
      ["DS:d:DCOUNTER:600:U:U".toList] [] 0).toOption.isSome by decide)
    refine ⟨out, h, fun hcovers => ?_⟩
    have hdst : ((rrdModifyStructure noMemory computedRrd []
        ["DS:d:DCOUNTER:600:U:U".toList] [] 0).toOption.bind fun out =>
          (out.ds[3]?).bind fun (d : DataSource) => d.dsDef.dst.requireVersion) = some 5 := by decide
    rw [h] at hdst
    obtain ⟨_, hout, hdst⟩ := Option.bind_eq_some_iff.1 hdst
    obtain rfl := Option.some.inj hout
    obtain ⟨d, hd, hv⟩ := Option.bind_eq_some_iff.1 hdst
    have hle := hcovers.ds d (List.mem_of_getElem? hd) 5 hv
    rw [(rrdModifyStructure_version h).2.2.2.1 fun hfive => absurd hfive.1 (by decide)] at hle
    exact absurd hle (by decide)
  · obtain ⟨out, h⟩ := exists_ok (show (rrdModifyStructure noMemory { computedRrd with version := 5 } []
      [] [.add "RRA:MHWPREDICT:10:0.1:0.1:5".toList] 0).toOption.isSome by decide +kernel)
    refine ⟨out, h, fun hcovers => ?_⟩
    have hle := hcovers.input
    have hadds : AddsFour [.add "RRA:MHWPREDICT:10:0.1:0.1:5".toList] :=
      ⟨_, List.mem_singleton_self _, by decide⟩
    rw [(rrdModifyStructure_version h).2.2.1 rfl hadds] at hle
    exact absurd hle (by decide)

end Rrdtool
