import Rrdtool.Prefill
import Rrdtool.Prefill.QuickSort

/-!
# The candidates of a data source

Port of `find_matching_candidates` of `src/rrd_create.c` with what it calls: the data source is looked for by name, which a
mapping may replace, in every source or in the one that the mapping names; the archives of a source are selected and
sorted. An archive with the function and the resolution of the target comes before all others (`orderCandidates_exact`).
-/

namespace Rrdtool

/-- `mapping_t`: the name of a data source in the sources, and which source to look in (counted from 1, when it is not
negative). -/
structure Mapping where
  dsNam : Text
  mappedName : Text
  index : ℤ

/-- `select_create_candidates`. -/
@[grind] def selectCreateCandidates (tofill maybe : RraDef) : Bool := maybe.cf = .average ∨ maybe.cf = tofill.cf

/-- The seconds of a row as `order_candidates` multiplies them: an `unsigned long` by an `int`. -/
@[grind] def rowSpan (rrd : MemRrd) (rra : RraDef) : ℕ := u64 (rra.pdpCnt * s32 rrd.pdpStep)

/-- The function and the resolution are those of the target. -/
def ExactMatch (rrd : MemRrd) (rra : RraDef) (c : SourceCandidate) : Prop :=
  c.rra.rraDef.cf = rra.cf ∧ rowSpan c.rrd c.rra.rraDef = rowSpan rrd rra

instance (rrd : MemRrd) (rra : RraDef) (c : SourceCandidate) : Decidable (ExactMatch rrd rra c) :=
  inferInstanceAs (Decidable (_ ∧ _))

/-- `order_candidates`. -/
@[grind] def orderCandidates (rrd : MemRrd) (rra : RraDef) (a b : SourceCandidate) : ℤ :=
  let aRra := a.rra.rraDef
  let bRra := b.rra.rraDef
  if ExactMatch rrd rra a then -1
  else if ExactMatch rrd rra b then 1
  else if aRra.cf ≠ bRra.cf then
    if aRra.cf = .average then -1 else if bRra.cf = .average then 1 else 0
  else
    let d := s32 ((rowSpan a.rrd aRra : ℤ) - rowSpan b.rrd bRra)
    if d ≠ 0 then d else -s32 ((aRra.rowCnt : ℤ) - bRra.rowCnt)

/-- `find_mapping`. -/
def findMapping (dsNam : Text) (mappings : List Mapping) : Option Mapping := mappings.find? fun m => dsNam = m.dsNam

/-- `find_ds_match`. -/
def findDsMatch (dsDef : DsDef) (src : MemRrd) (mapping : Option Mapping) : Option (Fin src.ds.length) :=
  let lookedForDsName :=
    match mapping with
    | some m => if m.mappedName ≠ [] then m.mappedName else dsDef.dsNam
    | none => dsDef.dsNam
  src.ds.findFinIdx? fun d => lookedForDsName = d.dsDef.dsNam

/-- `find_candidate_rras`, with `select_create_candidates`. -/
def findCreateCandidates (src : MemRrd) (source : ℕ) (rra : RraDef) (l : Fin src.ds.length) : List SourceCandidate :=
  ((List.finRange src.rra.length).filter fun i => selectCreateCandidates rra (src.rra.get i).rraDef).map fun i =>
    ⟨source, src, i, l⟩

/-- The candidates of one source, sorted. -/
def sourceCandidates (rrd : MemRrd) (rra : RraDef) (dsDef : DsDef) (mapping : Option Mapping) (source : ℕ)
    (src : MemRrd) : List SourceCandidate :=
  if mapping.any fun m => 0 ≤ m.index ∧ (source : ℤ) + 1 ≠ m.index then []
  else
    match findDsMatch dsDef src mapping with
    | none => []
    | some l => quickSort (orderCandidates rrd rra) (findCreateCandidates src source rra l)

/-- `find_matching_candidates`, with `select_create_candidates` and `order_candidates`. -/
def findMatchingCandidates (rrd : MemRrd) (rra : RraDef) (dsDef : DsDef) (sources : List MemRrd)
    (mappings : List Mapping) : List SourceCandidate :=
  (sources.mapIdx (sourceCandidates rrd rra dsDef (findMapping dsDef.dsNam mappings))).flatten

/-- An exact match comes before every candidate that is none. -/
lemma orderCandidates_exact {rrd : MemRrd} {rra : RraDef} {x y : SourceCandidate} (hx : ExactMatch rrd rra x)
    (hy : ¬ExactMatch rrd rra y) : orderCandidates rrd rra x y < 0 ∧ 0 < orderCandidates rrd rra y x := by
  rw [orderCandidates, orderCandidates, if_pos hx, if_neg hy, if_pos hx]
  decide

/-- The only exact match is the first candidate. -/
lemma sourceCandidates_head {rrd : MemRrd} {rra : RraDef} {x : SourceCandidate} {l : List SourceCandidate} (hmem : x ∈ l)
    (hx : ExactMatch rrd rra x) (honly : ∀ y ∈ l, ExactMatch rrd rra y → y = x) :
    ∃ rest, quickSort (orderCandidates rrd rra) l = x :: rest := by
  have hhead : (quickSort (orderCandidates rrd rra) l).head? = some x :=
    quickSort_head hmem fun y hy hne => orderCandidates_exact hx fun hy' => hne (honly y hy hy')
  exact ⟨_, List.eq_cons_of_mem_head? hhead⟩

end Rrdtool
