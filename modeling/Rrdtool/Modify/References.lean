import Rrdtool.Modify.Structure
import Rrdtool.Create.WellFormed
import Rrdtool.Lib.Compact

/-!
# References between the parts of a database

A `COMPUTE` data source refers to other data sources by their index, in its RPN program, and an archive of a
forecast to another archive, in `dependent_rra_idx`. `rrd_modify_structure` copies both as they are while it
compacts the lists that they are indices of.

An accepted modification keeps the references of what survives exactly if nothing is removed up to the places
that they point to (`rrdModifyStructure_refs_iff`).
-/

namespace Rrdtool

open Checked

/-! ### References -/

/-- The data source that a node of an RPN program refers to. -/
def RpnCdefds.ref (c : RpnCdefds) : Option ℕ :=
  match RpnOp.ofCode c.op with
  | .variable | .prevOther => if 0 ≤ c.val then some c.val.toNat else none
  | _ => none

/-- The data sources that are not removed. -/
@[grind] def keepDs (removeDS : List Text) (_ : ℕ) (d : DataSource) : Option DataSource :=
  if d.dsDef.dsNam ∉ removeDS then some d else none

/-- The archives of which rows are left. -/
@[grind] def keepRra (ops : List RraModOp) (j : ℕ) (rra : MemRra) : Option MemRra :=
  if finalRowCount rra.rraDef.rowCnt (resizeOf ops j) = 0 then none else some rra

/-- Where the data source with the index `i` stands in the output. -/
@[grind] def newDs (rrd : MemRrd) (removeDS : List Text) (i : ℕ) : ℕ := Compact.newIdx (keepDs removeDS) rrd.ds i

/-- Where the archive with the index `j` stands in the output. -/
def newRra (rrd : MemRrd) (ops : List RraModOp) (j : ℕ) : ℕ := Compact.newIdx (keepRra ops) rrd.rra j

/-- The data source `d` with the index `i` refers to the data source `e` with the index `v`, and both are part of
the database. -/
structure RefersDs (rrd : MemRrd) (i : ℕ) (d : DataSource) (k v : ℕ) (e : DataSource) : Prop where
  source : rrd.ds[i]? = some d
  compute : d.dsDef.dst = .cdef
  ref : (d.dsDef.cdef[k]?).bind RpnCdefds.ref = some v
  target : rrd.ds[v]? = some e

/-- The archive `a` with the index `j` depends on the archive `b`. -/
structure RefersRra (rrd : MemRrd) (j : ℕ) (a b : MemRra) : Prop where
  source : rrd.rra[j]? = some a
  forecast : a.rraDef.cf.expects.isSome
  target : rrd.rra[a.rraDef.dependentRraIdx]? = some b

/-- Every reference of a part that survives points to the part that it pointed to, which has not been removed. -/
structure RefsKept (rrd out : MemRrd) (removeDS : List Text) (ops : List RraModOp) : Prop where
  ds : ∀ i d k v e, RefersDs rrd i d k v e → (keepDs removeDS i d).isSome →
    (keepDs removeDS v e).isSome ∧ ∃ d' v' e', out.ds[newDs rrd removeDS i]? = some d' ∧ d'.dsDef.dsNam = d.dsDef.dsNam ∧
      (d'.dsDef.cdef[k]?).bind RpnCdefds.ref = some v' ∧ v' = newDs rrd removeDS v ∧
      out.ds[v']? = some e' ∧ e'.dsDef.dsNam = e.dsDef.dsNam
  rra : ∀ j a b, RefersRra rrd j a b → (keepRra ops j a).isSome →
    (keepRra ops a.rraDef.dependentRraIdx b).isSome ∧ ∃ a', out.rra[newRra rrd ops j]? = some a' ∧
      a'.rraDef.cf = a.rraDef.cf ∧ a'.rraDef.dependentRraIdx = newRra rrd ops a.rraDef.dependentRraIdx

/-- Nothing is removed up to a place that a part that survives refers to. -/
structure NoneRemovedBelow (rrd : MemRrd) (removeDS : List Text) (ops : List RraModOp) : Prop where
  ds : ∀ i d k v e, RefersDs rrd i d k v e → (keepDs removeDS i d).isSome →
    ∀ u c, u ≤ v → rrd.ds[u]? = some c → (keepDs removeDS u c).isSome
  rra : ∀ j a b, RefersRra rrd j a b → (keepRra ops j a).isSome →
    ∀ u c, u ≤ a.rraDef.dependentRraIdx → rrd.rra[u]? = some c → (keepRra ops u c).isSome

/-! ### What is copied -/

variable {mem : Memory} {rrd out : MemRrd} {removeDS addDS : List Text} {ops : List RraModOp} {hash : ℕ}

lemma addDss_append {lastUp pdpStep : ℕ} {ds ds' : List DataSource} {failed : Bool}
    (h : addDss mem lastUp pdpStep ds addDS = .ok (ds', failed)) : ds <+: ds' := by
  induction addDS generalizing ds failed with
  | nil =>
    cases h
    exact List.prefix_refl _
  | cons c addDS ih =>
    simp only [addDss] at h
    split at h
    case isTrue => cases h
    case isFalse =>
      obtain ⟨⟨ds₁, failed₁⟩, h₁, h⟩ := bind_eq_ok h
      cases h
      exact (List.prefix_append ds _).trans (ih h₁)

lemma handleRraDefs_eq (rrd : MemRrd) (ds : List DataSource) (dsOps : List DsOp) (ops : List RraModOp) (j : ℕ)
    (rras : List MemRra) :
    handleRraDefs rrd ds dsOps ops j rras = Compact.keepFrom (handleRraDef rrd ds dsOps ops) j rras := by
  induction rras generalizing j with
  | nil => rfl
  | cons rra rras ih => rw [handleRraDefs, ih, Compact.keepFrom]

lemma handleRraDef_isSome (rrd : MemRrd) (ds : List DataSource) (dsOps : List DsOp) (ops : List RraModOp) (j : ℕ)
    (rra : MemRra) : (handleRraDef rrd ds dsOps ops j rra).isSome = (keepRra ops j rra).isSome := by
  simp only [handleRraDef, keepRra]
  split <;> rfl

lemma addRras_append (rrd : MemRrd) (ds : List DataSource) (map : List (Option ℕ)) (rowsBefore : ℕ)
    (values : List RrdValue) (rras : List RraDef) : values <+: (addRras rrd ds map rowsBefore values rras).2 := by
  induction rras generalizing rowsBefore values with
  | nil => exact List.prefix_refl values
  | cons rra rras ih => exact (List.prefix_append values _).trans (ih _ _)

/-- The archives that survive, as they are in the output. -/
def keptRras (rrd : MemRrd) (ds : List DataSource) (dsOps : List DsOp) (ops : List RraModOp) : List MemRra :=
  Compact.keepFrom (handleRraDef rrd ds dsOps ops) 0 rrd.rra

/-- The output of an accepted modification: what survives comes first, and its rows come first. -/
structure Modified (mem : Memory) (rrd out : MemRrd) (removeDS : List Text) (ops : List RraModOp) (dsOps : List DsOp)
    (new : List MemRra) (values : List RrdValue) : Prop where
  ds : Compact.keepFrom (keepDs removeDS) 0 rrd.ds <+: out.ds
  dsOps_eq : dsOps = rrd.ds.map (dsOpOf removeDS) ++
    List.replicate (out.ds.length - (Compact.keepFrom (keepDs removeDS) 0 rrd.ds).length) .add
  rra : out.rra = keptRras rrd out.ds dsOps ops ++ new
  values_append : (modRras mem rrd (keptRras rrd out.ds dsOps ops) dsOps ops 0 0 rrd.rra).flatten.flatten <+: values
  rrdValue : out.rrdValue = fun i => values.getD i .nan

lemma rrdModifyStructure_modified (h : rrdModifyStructure mem rrd removeDS addDS ops hash = .ok out) :
    ∃ dsOps new values, Modified mem rrd out removeDS ops dsOps new values := by
  have hkeep : keepDs removeDS = fun _ d => if (decide (d.dsDef.dsNam ∉ removeDS)) = true then some d else none := by
    funext j d
    simp [keepDs]
  have hfilter := Compact.keepFrom_filter (fun d : DataSource => d.dsDef.dsNam ∉ removeDS) 0 rrd.ds
  rw [← hkeep] at hfilter
  simp only [rrdModifyStructure, handleRraDefs_eq, ← hfilter] at h
  split at h
  case isTrue => cases h
  case isFalse =>
    obtain ⟨⟨ds, failed⟩, hds, h⟩ := bind_eq_ok h
    obtain ⟨⟨rras, required⟩, -, h⟩ := bind_eq_ok h
    cases h
    exact ⟨_, _, _, addDss_append hds, rfl, rfl, addRras_append _ _ _ _ _ _, rfl⟩

/-- A data source that survives is copied to its place. -/
lemma ds_copied (h : rrdModifyStructure mem rrd removeDS addDS ops hash = .ok out) {i : ℕ} {d : DataSource}
    (hd : rrd.ds[i]? = some d) (hkeep : (keepDs removeDS i d).isSome) : out.ds[newDs rrd removeDS i]? = some d := by
  obtain ⟨dsOps, new, values, hm⟩ := rrdModifyStructure_modified h
  obtain ⟨added, hds⟩ := hm.ds
  have hsome : keepDs removeDS i d = some d := by
    unfold keepDs at hkeep ⊢
    split at hkeep
    · rw [if_pos ‹_›]
    · cases hkeep
  have hplace := Compact.getElem?_keepFrom hd hsome
  rw [newDs, ← hds, List.getElem?_append_left (List.getElem?_eq_some_iff.1 hplace).1]
  exact hplace

/-- An archive that survives is copied to its place, with other rows. -/
lemma Modified.rra_at {dsOps : List DsOp} {new : List MemRra} {values : List RrdValue}
    (hm : Modified mem rrd out removeDS ops dsOps new values) {j : ℕ} {a : MemRra} (ha : rrd.rra[j]? = some a)
    (hkeep : (keepRra ops j a).isSome) :
    ∃ a', handleRraDef rrd out.ds dsOps ops j a = some a' ∧ out.rra[newRra rrd ops j]? = some a' ∧
      (keptRras rrd out.ds dsOps ops)[newRra rrd ops j]? = some a' := by
  rw [← handleRraDef_isSome rrd out.ds dsOps] at hkeep
  obtain ⟨a', ha'⟩ := Option.isSome_iff_exists.1 hkeep
  have hidx : newRra rrd ops j = Compact.newIdx (handleRraDef rrd out.ds dsOps ops) rrd.rra j :=
    (Compact.newIdx_congr (handleRraDef_isSome rrd out.ds dsOps ops) rrd.rra j).symm
  have hplace : (keptRras rrd out.ds dsOps ops)[newRra rrd ops j]? = some a' :=
    hidx ▸ Compact.getElem?_keepFrom ha ha'
  refine ⟨a', ha', ?_, hplace⟩
  rw [hm.rra, List.getElem?_append_left (List.getElem?_eq_some_iff.1 hplace).1]
  exact hplace

lemma rra_copied (h : rrdModifyStructure mem rrd removeDS addDS ops hash = .ok out) {j : ℕ} {a : MemRra}
    (ha : rrd.rra[j]? = some a) (hkeep : (keepRra ops j a).isSome) :
    ∃ a', out.rra[newRra rrd ops j]? = some a' ∧ a'.rraDef.cf = a.rraDef.cf ∧
      a'.rraDef.dependentRraIdx = a.rraDef.dependentRraIdx := by
  obtain ⟨dsOps, new, values, hm⟩ := rrdModifyStructure_modified h
  obtain ⟨a', ha', hplace, -⟩ := hm.rra_at ha hkeep
  refine ⟨a', hplace, ?_⟩
  simp only [handleRraDef] at ha'
  split at ha'
  · cases ha'
  · cases ha'
    exact ⟨rfl, rfl⟩

/-! ### The references of the output -/

/-- The places up to that of an element that is kept, when it keeps its place. -/
lemma kept_below {α β : Type*} {f : ℕ → α → Option β} {l : List α} {v : ℕ} {e : α} (he : l[v]? = some e)
    (hkeep : (f v e).isSome) :
    Compact.newIdx f l v = v ↔ ∀ u c, u ≤ v → l[u]? = some c → (f u c).isSome := by
  rw [Compact.newIdx_eq_iff (List.getElem?_eq_some_iff.1 he).1.le]
  constructor
  · intro h u c hu hc
    obtain hlt | rfl := lt_or_eq_of_le hu
    · exact h u c hlt hc
    · rw [he] at hc
      cases hc
      exact hkeep
  · exact fun h u c hu hc => h u c hu.le hc

/-- A reference that is kept points to a place up to which nothing is removed. -/
lemma noneRemovedBelow_of_refsKept (h : rrdModifyStructure mem rrd removeDS addDS ops hash = .ok out)
    (hkept : RefsKept rrd out removeDS ops) : NoneRemovedBelow rrd removeDS ops := by
  refine ⟨fun i d k v e href hd => ?_, fun j a b href ha => ?_⟩
  · obtain ⟨he, d', v', e', hd', -, hv', hnew, -⟩ := hkept.ds i d k v e href hd
    rw [ds_copied h href.source hd] at hd'
    cases hd'
    rw [href.ref] at hv'
    cases hv'
    exact (kept_below href.target he).1 hnew.symm
  · obtain ⟨hb, a', ha', -, hnew⟩ := hkept.rra j a b href ha
    obtain ⟨a'', ha'', -, hidx⟩ := rra_copied h href.source ha
    rw [ha''] at ha'
    cases ha'
    rw [hidx] at hnew
    exact (kept_below href.target hb).1 hnew.symm

lemma refsKept_of_noneRemovedBelow (h : rrdModifyStructure mem rrd removeDS addDS ops hash = .ok out)
    (hnone : NoneRemovedBelow rrd removeDS ops) : RefsKept rrd out removeDS ops := by
  refine ⟨fun i d k v e href hd => ?_, fun j a b href ha => ?_⟩
  · have hall := hnone.ds i d k v e href hd
    have he := hall v e le_rfl href.target
    have hnew : newDs rrd removeDS v = v := (kept_below href.target he).2 hall
    refine ⟨he, d, v, e, ds_copied h href.source hd, rfl, href.ref, hnew.symm, ?_, rfl⟩
    have hplace := ds_copied h href.target he
    rwa [hnew] at hplace
  · have hall := hnone.rra j a b href ha
    have hb := hall _ b le_rfl href.target
    have hnew : newRra rrd ops a.rraDef.dependentRraIdx = a.rraDef.dependentRraIdx :=
      (kept_below href.target hb).2 hall
    obtain ⟨a', ha', hcf, hidx⟩ := rra_copied h href.source ha
    exact ⟨hb, a', ha', hcf, hidx.trans hnew.symm⟩

/-- An accepted modification keeps the references exactly if nothing is removed up to where they point. -/
theorem rrdModifyStructure_refs_iff (mem : Memory) (rrd out : MemRrd) (removeDS addDS : List Text)
    (ops : List RraModOp) (hash : ℕ) (h : rrdModifyStructure mem rrd removeDS addDS ops hash = .ok out) :
    RefsKept rrd out removeDS ops ↔ NoneRemovedBelow rrd removeDS ops :=
  ⟨noneRemovedBelow_of_refsKept h, refsKept_of_noneRemovedBelow h⟩

/-- Nothing is left uninitialised in the examples. -/
def noMemory : Memory := ⟨fun c => gaugeDs c 0, fun _ => [], fun _ => 0⟩

/-- Three data sources, of which the last is computed from the second, and the archives of a forecast behind one of
averages. -/
def computedRrd : MemRrd where
  version := 3
  pdpStep := 300
  lastUp := 1000
  lastUpUsec := 0
  ds := [gaugeDs ['a'] 600, gaugeDs ['b'] 600,
    ⟨['c'], .cdef, 0, .fin 0, .fin 0, [⟨RpnOp.variable.code, 1⟩, ⟨RpnOp.number.code, 2⟩, ⟨RpnOp.mul.code, 0⟩]⟩].map
      fun d => ⟨d, resetPdpPrep 1000 300⟩
  rra := [plainRra .average 2 1 0, { plainRra .hwpredict 2 1 0 with dependentRraIdx := 2 },
    { plainRra .seasonal 2 1 0 with dependentRraIdx := 1 }].map fun r => ⟨r, List.replicate 3 .zero, 0⟩
  rrdValue := fun _ => .nan

/-- A modification that is not refused. -/
lemma exists_ok {ε α : Type*} {m : Except ε α} (h : m.toOption.isSome) : ∃ a, m = .ok a := by
  cases m with
  | error e => cases h
  | ok a => exact ⟨a, rfl⟩

theorem rrdModifyStructure_refs_iff_computed :
    ∃ out, rrdModifyStructure noMemory computedRrd [] ["DS:d:GAUGE:600:U:U".toList] [] 0 = .ok out ∧
      (RefsKept computedRrd out [] [] ↔ NoneRemovedBelow computedRrd [] []) := by
  obtain ⟨out, h⟩ := exists_ok
    (show (rrdModifyStructure noMemory computedRrd [] ["DS:d:GAUGE:600:U:U".toList] [] 0).toOption.isSome by decide +kernel)
  exact ⟨out, h, rrdModifyStructure_refs_iff _ _ _ _ _ _ _ h⟩

/-- When the first data source is removed, the third is computed from itself; when the first archive is removed,
the forecast depends on an archive that is not there. -/
theorem rrdModifyStructure_shifts_refs :
    (∃ out, rrdModifyStructure noMemory computedRrd [['a']] [] [] 0 = .ok out ∧ ¬ RefsKept computedRrd out [['a']] []) ∧
      ∃ out, rrdModifyStructure noMemory computedRrd [] [] [.resize 0 .set 0] 0 = .ok out ∧
        ¬ RefsKept computedRrd out [] [.resize 0 .set 0] := by
  constructor
  · obtain ⟨out, h⟩ := exists_ok
      (show (rrdModifyStructure noMemory computedRrd [['a']] [] [] 0).toOption.isSome by decide +kernel)
    refine ⟨out, h, fun hkept => ?_⟩
    have hnone := (noneRemovedBelow_of_refsKept h hkept).ds 2 _ 0 1 _ ⟨rfl, rfl, by decide +kernel, rfl⟩ rfl
    exact absurd (hnone 0 _ zero_le_one rfl) (by decide +kernel)
  · obtain ⟨out, h⟩ := exists_ok
      (show (rrdModifyStructure noMemory computedRrd [] [] [.resize 0 .set 0] 0).toOption.isSome by decide +kernel)
    refine ⟨out, h, fun hkept => ?_⟩
    have hnone := (noneRemovedBelow_of_refsKept h hkept).rra 1 _ _ ⟨rfl, rfl, rfl⟩ (by decide +kernel)
    exact absurd (hnone 0 _ (Nat.zero_le _) rfl) (by decide +kernel)

end Rrdtool
