import Rrdtool.Lib.FirstBest
import Rrdtool.Prefill.CdpPrep

/-!
# The archive that open rows are filled from

Port of `rra_for_cdp_prefilling` and `remove_temporary_rra_for_cdp_prefilling` of `src/rrd_create.c`. They grow and
shrink the arrays of the database, which are here what they are in the source: one list each for all archives
(`FlatRrd`). Memory is taken to be there; what it holds when it is new is `NewMemory`.

The archive is longer than any window that is read, and nothing is left of it (`Invisible`). But all its areas are
initialised from the same element of `pdp_prep`, the one with the number of the archive
(`rraForCdpPrefilling_invisible_iff`).
-/

namespace Rrdtool

/-! ### The arrays -/

/-- The arrays of `rrd_t` for all archives, and what `init_cdp` reads besides. -/
structure FlatRrd where
  pdpStep : ℕ
  lastUp : ℕ
  pdpPrep : List PdpPrep
  rraDef : List RraDef
  rraPtr : List ℕ
  cdpPrep : List CdpPrep
  rrdValue : List RrdValue

namespace FlatRrd

/-- `stat_head->ds_cnt` and `stat_head->rra_cnt`. -/
@[grind] def dsCnt (rrd : FlatRrd) : ℕ := rrd.pdpPrep.length
def rraCnt (rrd : FlatRrd) : ℕ := rrd.rraDef.length

end FlatRrd

/-- The arrays of a database in memory. -/
@[grind] def MemRrd.flat (rrd : MemRrd) : FlatRrd where
  pdpStep := rrd.pdpStep
  lastUp := rrd.lastUp
  pdpPrep := rrd.ds.map (·.pdpPrep)
  rraDef := rrd.rra.map (·.rraDef)
  rraPtr := rrd.rra.map (·.curRow)
  cdpPrep := rrd.rra.flatMap (·.cdpPrep)
  rrdValue := (List.range (rrd.rowsBefore rrd.rra.length * rrd.dsCnt)).map rrd.rrdValue

/-- What `realloc` gives behind the old elements, and what is behind the end of `pdp_prep`. -/
structure NewMemory where
  rraDef : RraDef
  cdpPrep : CdpPrep
  pdpPrep : PdpPrep

/-! ### The archive -/

/-- The variables of the loop over the archives: `original_total_rows`, `largest_pdp` and `found_rra_index` with the
definition that `average_1_pdp_rra` points to. -/
structure RraScan where
  totalRows : ℕ
  largestPdp : ℕ
  found : Option (RraDef × ℕ)

/-- An archive of averages with one primary data point per row. -/
def RraDef.IsAverageOnePdp (rra : RraDef) : Prop := rra.pdpCnt = 1 ∧ rra.cf = .average

instance (rra : RraDef) : Decidable rra.IsAverageOnePdp := inferInstanceAs (Decidable (_ ∧ _))

/-- An archive that takes the place of the one found before. -/
def Longer (a b : RraDef × ℕ) : Prop := b.1.rowCnt < a.1.rowCnt

lemma Longer.trans {a b c : RraDef × ℕ} (hab : Longer a b) (hbc : Longer b c) : Longer a c := lt_trans hbc hab

lemma Longer.of_not {a b c : RraDef × ℕ} (hab : Longer a b) (hcb : ¬Longer c b) : Longer a c :=
  lt_of_le_of_lt (not_lt.1 hcb) hab

instance : DecidableRel Longer := fun _ _ => inferInstanceAs (Decidable (_ < _))

@[grind] def scanRra (s : RraScan) (rra : RraDef × ℕ) : RraScan where
  totalRows := s.totalRows + rra.1.rowCnt
  largestPdp := max s.largestPdp rra.1.pdpCnt
  found := if rra.1.IsAverageOnePdp then FirstBest.pick Longer s.found rra else s.found

@[grind] def FlatRrd.scan (rrd : FlatRrd) : RraScan := rrd.rraDef.zipIdx.foldl scanRra ⟨0, 0, none⟩

/-- What `rra_for_cdp_prefilling` returns, whether it added an archive, and which elements of `pdp_prep` it handed to
`init_cdp`, one for each data source. -/
structure Prefilling where
  rrd : FlatRrd
  index : ℕ
  added : Bool
  handed : List ℕ

/-- The archive is appended to the four arrays. -/
@[grind] def addTemporary (mem : NewMemory) (rrd : FlatRrd) (originalTotalRows largestPdp : ℕ) : Prefilling :=
  let foundRraIndex := rrd.rraCnt
  let rraDef := { mem.rraDef with cf := .average, pdpCnt := 1, rowCnt := largestPdp, xff := .fin (1 / 2) }
  let handed := (List.range rrd.dsCnt).map fun _ => foundRraIndex
  { rrd := { rrd with
      rraDef := rrd.rraDef ++ [rraDef]
      rraPtr := rrd.rraPtr ++ [0]
      cdpPrep := rrd.cdpPrep.take (rrd.dsCnt * foundRraIndex) ++ handed.map fun k =>
        initCdpAgain rrd.lastUp rrd.pdpStep rraDef (rrd.pdpPrep.getD k mem.pdpPrep) mem.cdpPrep
      rrdValue := rrd.rrdValue.take (rrd.dsCnt * originalTotalRows) ++ List.replicate (largestPdp * rrd.dsCnt) .nan }
    index := foundRraIndex
    added := true
    handed := handed }

/-- `rra_for_cdp_prefilling`. -/
def rraForCdpPrefilling (mem : NewMemory) (rrd : FlatRrd) : Prefilling :=
  let scan := rrd.scan
  let largestPdp := scan.largestPdp * 2 % 2 ^ 64
  match scan.found with
  | none => addTemporary mem rrd scan.totalRows largestPdp
  | some (average1PdpRra, foundRraIndex) =>
    if average1PdpRra.rowCnt < largestPdp then addTemporary mem rrd scan.totalRows largestPdp
    else ⟨rrd, foundRraIndex, false, []⟩

/-- `remove_temporary_rra_for_cdp_prefilling`. -/
def removeTemporaryRraForCdpPrefilling (rrd : FlatRrd) (addedIndex : ℕ) : FlatRrd :=
  let totalRows := ((rrd.rraDef.zipIdx.filter fun rra => rra.2 ≠ addedIndex).map (·.1.rowCnt)).sum
  let rraCnt := rrd.rraCnt - 1
  { rrd with
    rraDef := rrd.rraDef.take rraCnt
    rraPtr := rrd.rraPtr.take rraCnt
    cdpPrep := rrd.cdpPrep.take (rraCnt * rrd.dsCnt)
    rrdValue := rrd.rrdValue.take (totalRows * rrd.dsCnt) }

/-- The end of `rrd_prefill_data`. -/
def donePrefilling (p : Prefilling) (rrd : FlatRrd) : FlatRrd :=
  if p.added then removeTemporaryRraForCdpPrefilling rrd p.index else rrd

/-! ### What it should be -/

/-- What happens between the two: the elements of the arrays change, but the archives do not. -/
structure InPlace (rrd rrd' : FlatRrd) : Prop where
  rraDef : rrd'.rraDef = rrd.rraDef
  rraPtr : rrd'.rraPtr = rrd.rraPtr
  pdpPrep : rrd'.pdpPrep.length = rrd.pdpPrep.length
  cdpPrep : rrd'.cdpPrep.length = rrd.cdpPrep.length
  rrdValue : rrd'.rrdValue.length = rrd.rrdValue.length

/-- The archive has a row for every time that `prefill_cdp_prep` reads for an archive `rra`. -/
def CoversWindow (rrd : MemRrd) (rra archive : RraDef) : Prop :=
  (rrd.lastUp : ℤ) - rrd.lastUp % rrd.pdpStep - archive.rowCnt * rrd.pdpStep <
    (getCdpStartEnd rrd rra).1 - rra.pdpCnt * rrd.pdpStep

/-- Only elements of `pdp_prep` are read, each for its own data source, the archive is long enough, and nothing is left
of it: the archives are what they were, with what was stored in them. -/
structure Invisible (rrd : MemRrd) (p : Prefilling) : Prop where
  bounds : ∀ k ∈ p.handed, k < rrd.dsCnt
  own : p.added = true → p.handed = List.range rrd.dsCnt
  long : ∀ rra ∈ rrd.rra, s32 (rra.rraDef.pdpCnt * rrd.pdpStep) ≠ 0 →
    ∃ archive, p.rrd.rraDef[p.index]? = some archive ∧ archive.IsAverageOnePdp ∧ CoversWindow rrd rra.rraDef archive
  removed : ∀ rrd', InPlace p.rrd rrd' → donePrefilling p rrd' = { rrd' with
    rraDef := rrd.flat.rraDef
    rraPtr := rrd.flat.rraPtr
    cdpPrep := rrd'.cdpPrep.take rrd.flat.cdpPrep.length
    rrdValue := rrd'.rrdValue.take rrd.flat.rrdValue.length }
  restored : donePrefilling p p.rrd = rrd.flat

/-! ### The loop over the archives -/

section Scan
variable {l : List (RraDef × ℕ)} {s : RraScan}

lemma foldl_scanRra_totalRows : (l.foldl scanRra s).totalRows = s.totalRows + (l.map (·.1.rowCnt)).sum := by
  induction l generalizing s with
  | nil => rfl
  | cons rra l ih =>
    rw [List.foldl_cons, ih, List.map_cons, List.sum_cons, scanRra, add_assoc]

lemma foldl_scanRra_largestPdp {n : ℕ} :
    (l.foldl scanRra s).largestPdp ≤ n ↔ s.largestPdp ≤ n ∧ ∀ rra ∈ l, rra.1.pdpCnt ≤ n := by
  induction l generalizing s with
  | nil => simp
  | cons rra l ih => rw [List.foldl_cons, ih, scanRra, max_le_iff, List.forall_mem_cons, and_assoc]

lemma foldl_scanRra_found :
    (l.foldl scanRra s).found = (l.filter fun rra => rra.1.IsAverageOnePdp).foldl (FirstBest.pick Longer) s.found := by
  induction l generalizing s with
  | nil => rfl
  | cons rra l ih =>
    rw [List.foldl_cons, ih, List.filter_cons, scanRra]
    by_cases h : rra.1.IsAverageOnePdp
    · simp only [h, if_true, decide_true, List.foldl_cons]
    · simp only [h, if_false, decide_false, Bool.false_eq_true]

/-- The archive found is one of averages of single primary data points, and none of these is longer. -/
lemma foldl_scanRra_found_some {rra : RraDef × ℕ} (h : (l.foldl scanRra ⟨0, 0, none⟩).found = some rra) :
    rra ∈ l ∧ rra.1.IsAverageOnePdp ∧ ∀ other ∈ l, other.1.IsAverageOnePdp → other.1.rowCnt ≤ rra.1.rowCnt := by
  rw [foldl_scanRra_found] at h
  obtain ⟨before, behind, win⟩ := @FirstBest.foldl_pick _ Longer _ Longer.trans Longer.of_not _ _ h
  have hmem : rra ∈ l.filter fun rra => rra.1.IsAverageOnePdp := by
    rw [win.split]
    exact List.mem_append_right before List.mem_cons_self
  rw [List.mem_filter, decide_eq_true_iff] at hmem
  refine ⟨hmem.1, hmem.2, fun other hother haverage => ?_⟩
  have hin : other ∈ before ++ rra :: behind := win.split ▸ List.mem_filter.2 ⟨hother, decide_eq_true haverage⟩
  obtain hbefore | hrra := List.mem_append.1 hin
  · exact le_of_lt (win.beats other hbefore)
  · obtain rfl | hbehind := List.mem_cons.1 hrra
    · exact le_rfl
    · exact not_lt.1 (win.unbeaten other hbehind)

lemma foldl_scanRra_found_none (h : (l.foldl scanRra ⟨0, 0, none⟩).found = none) {rra : RraDef × ℕ} (hrra : rra ∈ l) :
    ¬rra.1.IsAverageOnePdp := by
  intro haverage
  rw [foldl_scanRra_found, FirstBest.foldl_pick_eq_none] at h
  exact List.not_mem_nil (h ▸ List.mem_filter.2 ⟨hrra, decide_eq_true haverage⟩)

end Scan

/-! ### Adding and removing -/

section Flat
variable {mem : NewMemory} {rrd : MemRrd} (hcdp : ∀ rra ∈ rrd.rra, rra.cdpPrep.length = rrd.dsCnt)

lemma flat_dsCnt : rrd.flat.dsCnt = rrd.dsCnt := List.length_map _

lemma flat_rraCnt : rrd.flat.rraCnt = rrd.rra.length := List.length_map _

lemma rowCnts_zipIdx (l : List RraDef) : l.zipIdx.map (·.1.rowCnt) = l.map (·.rowCnt) := by
  conv_rhs => rw [← List.zipIdx_map_fst 0 l, List.map_map]
  rfl

lemma flat_totalRows : rrd.flat.scan.totalRows = rrd.rowsBefore rrd.rra.length := by
  rw [FlatRrd.scan, foldl_scanRra_totalRows, zero_add, rowCnts_zipIdx, MemRrd.rowsBefore, List.take_length, MemRrd.flat, List.map_map]
  rfl

include hcdp in
lemma flat_cdpPrep_length : rrd.flat.cdpPrep.length = rrd.rra.length * rrd.dsCnt := by
  have hlengths : rrd.rra.map (fun rra => rra.cdpPrep.length) = List.replicate rrd.rra.length rrd.dsCnt :=
    List.eq_replicate_iff.2 ⟨List.length_map _, fun n hn => by
      obtain ⟨rra, hrra, rfl⟩ := List.mem_map.1 hn
      exact hcdp rra hrra⟩
  rw [MemRrd.flat, List.length_flatMap, hlengths, List.sum_replicate, smul_eq_mul]

lemma flat_rrdValue_length : rrd.flat.rrdValue.length = rrd.rowsBefore rrd.rra.length * rrd.dsCnt := by
  rw [MemRrd.flat, List.length_map, List.length_range]

lemma mem_flat_rraDef {rra : MemRra} (hrra : rra ∈ rrd.rra) : ∃ i, (rra.rraDef, i) ∈ rrd.flat.rraDef.zipIdx := by
  obtain ⟨i, hi⟩ := List.mem_iff_getElem?.1 (List.mem_map_of_mem (f := (·.rraDef)) hrra)
  exact ⟨i, List.mk_mem_zipIdx_iff_getElem?.2 hi⟩

lemma exists_of_mem_flat {rraDef : RraDef × ℕ} (h : rraDef ∈ rrd.flat.rraDef.zipIdx) :
    ∃ rra ∈ rrd.rra, rra.rraDef = rraDef.1 :=
  List.mem_map.1 (List.mem_of_getElem? (List.mk_mem_zipIdx_iff_getElem?.1 h))

lemma flat_largestPdp {n : ℕ} : rrd.flat.scan.largestPdp ≤ n ↔
    ∀ rra ∈ rrd.rra, rra.rraDef.pdpCnt ≤ n := by
  rw [FlatRrd.scan, foldl_scanRra_largestPdp, and_iff_right (Nat.zero_le n)]
  constructor
  · intro h rra hrra
    obtain ⟨i, hi⟩ := mem_flat_rraDef hrra
    exact h _ hi
  · intro h rra hrra
    obtain ⟨rra', hrra', heq⟩ := exists_of_mem_flat hrra
    exact heq ▸ h rra' hrra'

/-- The rows of the archives before the one that was added. -/
lemma totalRows_added (l : List RraDef) (rra : RraDef) :
    (((l ++ [rra]).zipIdx.filter fun rra => rra.2 ≠ l.length).map (·.1.rowCnt)).sum = (l.map (·.rowCnt)).sum := by
  have hkept : (l.zipIdx.filter fun rra => rra.2 ≠ l.length) = l.zipIdx :=
    List.filter_eq_self.2 fun rra hrra => decide_eq_true (by
      have := List.snd_lt_of_mem_zipIdx hrra
      omega)
  have hgone : (([rra].zipIdx l.length).filter fun rra => rra.2 ≠ l.length) = [] := by simp
  rw [List.zipIdx_append, List.filter_append, zero_add, hgone, List.append_nil, hkept, rowCnts_zipIdx]

variable (mem rrd) in
/-- The database with the archive. -/
@[grind] def added (largestPdp : ℕ) : Prefilling :=
  addTemporary mem rrd.flat (rrd.rowsBefore rrd.rra.length) largestPdp

include hcdp in
/-- What is left when the archive is removed. -/
lemma removed_added (largestPdp : ℕ) {rrd' : FlatRrd} (h : InPlace (added mem rrd largestPdp).rrd rrd') :
    donePrefilling (added mem rrd largestPdp) rrd' = { rrd' with
      rraDef := rrd.flat.rraDef
      rraPtr := rrd.flat.rraPtr
      cdpPrep := rrd'.cdpPrep.take rrd.flat.cdpPrep.length
      rrdValue := rrd'.rrdValue.take rrd.flat.rrdValue.length } := by
  have hdef : rrd'.rraDef = rrd.flat.rraDef ++ [{ mem.rraDef with
      cf := .average, pdpCnt := 1, rowCnt := largestPdp, xff := .fin (1 / 2) }] := h.rraDef
  have hptr : rrd'.rraPtr = rrd.flat.rraPtr ++ [0] := h.rraPtr
  have hds : rrd'.dsCnt = rrd.dsCnt := h.pdpPrep.trans flat_dsCnt
  have hcnt : rrd'.rraCnt - 1 = rrd.flat.rraDef.length := by
    rw [FlatRrd.rraCnt, hdef, List.length_append]
    rfl
  have hptrs : rrd.flat.rraPtr.length = rrd.flat.rraDef.length := (List.length_map _).trans flat_rraCnt.symm
  have hrows : ((rrd'.rraDef.zipIdx.filter fun rra => rra.2 ≠ rrd.flat.rraDef.length).map (·.1.rowCnt)).sum =
      rrd.rowsBefore rrd.rra.length := by
    rw [hdef, totalRows_added, MemRrd.rowsBefore, List.take_length, MemRrd.flat, List.map_map]
    rfl
  rw [donePrefilling, if_pos (show (added mem rrd largestPdp).added = true from rfl), removeTemporaryRraForCdpPrefilling]
  have hindex : (added mem rrd largestPdp).index = rrd.flat.rraDef.length := rfl
  simp only [hindex, hrows, hcnt, hds, flat_cdpPrep_length hcdp, flat_rrdValue_length]
  rw [hdef, hptr, List.take_left, ← hptrs, List.take_left, hptrs, show rrd.flat.rraDef.length = rrd.rra.length from flat_rraCnt]

lemma InPlace.refl (rrd : FlatRrd) : InPlace rrd rrd := ⟨rfl, rfl, rfl, rfl, rfl⟩

include hcdp in
lemma restored_added (largestPdp : ℕ) :
    donePrefilling (added mem rrd largestPdp) (added mem rrd largestPdp).rrd = rrd.flat := by
  have hcdps : rrd.flat.dsCnt * rrd.flat.rraCnt = rrd.flat.cdpPrep.length := by
    rw [flat_cdpPrep_length hcdp, flat_dsCnt, flat_rraCnt, mul_comm]
  have hvalues : rrd.flat.dsCnt * rrd.rowsBefore rrd.rra.length = rrd.flat.rrdValue.length := by
    rw [flat_rrdValue_length, flat_dsCnt, mul_comm]
  rw [removed_added hcdp largestPdp (.refl _), added, addTemporary]
  simp only [hcdps, hvalues, List.take_length, List.take_left]

/-- The window of an archive with at most half as many primary data points per row. -/
lemma coversWindow_of_le {rra archive : RraDef} (hle : 2 * rra.pdpCnt ≤ archive.rowCnt)
    (hstep : s32 (rra.pdpCnt * rrd.pdpStep) ≠ 0) : CoversWindow rrd rra archive := by
  have hmul := Int.tmod_add_tdiv_mul rrd.lastUp (s32 (rra.pdpCnt * rrd.pdpStep))
  have hlt := Int.emod_lt_abs (rrd.lastUp : ℤ) hstep
  have habs : |s32 (rra.pdpCnt * rrd.pdpStep)| ≤ rra.pdpCnt * rrd.pdpStep := by
    obtain hsmall | hbig := lt_or_ge (rra.pdpCnt * rrd.pdpStep) (2 ^ 31)
    · rw [← Nat.cast_mul, s32_natCast hsmall, abs_of_nonneg (Int.natCast_nonneg _)]
    · have hlow := le_s32 (rra.pdpCnt * rrd.pdpStep)
      have hhigh := s32_lt (rra.pdpCnt * rrd.pdpStep)
      exact (abs_le.2 ⟨hlow, hhigh.le⟩).trans (by exact_mod_cast hbig)
  have hrows : (2 * rra.pdpCnt * rrd.pdpStep : ℤ) ≤ archive.rowCnt * rrd.pdpStep :=
    mul_le_mul_of_nonneg_right (by exact_mod_cast hle) (Int.natCast_nonneg _)
  have hrest : (0 : ℤ) ≤ (rrd.lastUp % rrd.pdpStep : ℕ) := Int.natCast_nonneg _
  rw [Int.natCast_mod] at hrest
  rw [Int.tmod_eq_emod_of_nonneg (Int.natCast_nonneg _)] at hmul
  rw [CoversWindow, getCdpStartEnd]
  dsimp only
  linarith

variable (mem) in
/-- The elements of `pdp_prep` are the right ones when there is at most one, which is then the first. -/
lemma handed_added_iff (largestPdp : ℕ) : (added mem rrd largestPdp).handed = List.range rrd.dsCnt ↔
    rrd.dsCnt = 0 ∨ rrd.dsCnt = 1 ∧ rrd.rra = [] := by
  have hhanded : (added mem rrd largestPdp).handed = (List.range rrd.dsCnt).map fun _ => rrd.rra.length := by
    rw [added, addTemporary, flat_dsCnt, flat_rraCnt]
  rw [hhanded]
  constructor
  · intro hown
    obtain hds | hds := Nat.eq_zero_or_pos rrd.dsCnt
    · exact .inl hds
    · have helement : ∀ k < rrd.dsCnt, rrd.rra.length = k := fun k hk => by
        have hget := congrArg (·[k]?) hown
        simpa [hk] using hget
      have hfirst := helement 0 hds
      have hone : rrd.dsCnt = 1 := by
        by_contra hne
        have := helement 1 (by omega)
        omega
      exact .inr ⟨hone, List.length_eq_zero_iff.1 hfirst⟩
  · rintro (hds | ⟨hds, hrra⟩)
    · rw [hds]
      rfl
    · rw [hds, hrra]
      rfl

/-- An archive that is there already. -/
lemma invisible_found {average : RraDef} {foundRraIndex : ℕ} (hget : rrd.flat.rraDef[foundRraIndex]? = some average)
    (haverage : average.IsAverageOnePdp) (hlong : ∀ rra ∈ rrd.rra, 2 * rra.rraDef.pdpCnt ≤ average.rowCnt) :
    Invisible rrd ⟨rrd.flat, foundRraIndex, false, []⟩ where
  bounds _ hk := absurd hk List.not_mem_nil
  own h := Bool.noConfusion h
  long rra hrra hstep := ⟨average, hget, haverage, coversWindow_of_le (hlong rra hrra) hstep⟩
  removed rrd' h := by
    have hkept : donePrefilling ⟨rrd.flat, foundRraIndex, false, []⟩ rrd' = rrd' := rfl
    rw [hkept, ← h.rraDef, ← h.rraPtr, ← h.cdpPrep, ← h.rrdValue, List.take_length, List.take_length]
  restored := rfl

include hcdp in
/-- An archive that is added. -/
lemma invisible_added_iff {largestPdp : ℕ} (hlong : ∀ rra ∈ rrd.rra, 2 * rra.rraDef.pdpCnt ≤ largestPdp) :
    Invisible rrd (added mem rrd largestPdp) ↔ rrd.dsCnt = 0 ∨ rrd.dsCnt = 1 ∧ rrd.rra = [] := by
  rw [← handed_added_iff mem largestPdp]
  constructor
  · exact fun h => h.own rfl
  · intro hown
    have hget : (added mem rrd largestPdp).rrd.rraDef[(added mem rrd largestPdp).index]? =
        some { mem.rraDef with cf := .average, pdpCnt := 1, rowCnt := largestPdp, xff := .fin (1 / 2) } :=
      List.getElem?_concat_length
    exact {
      bounds := fun k hk => List.mem_range.1 (hown ▸ hk)
      own := fun _ => hown
      long := fun rra hrra hstep => ⟨_, hget, ⟨rfl, rfl⟩, coversWindow_of_le (hlong rra hrra) hstep⟩
      removed := fun rrd' => removed_added hcdp largestPdp
      restored := restored_added hcdp largestPdp }

end Flat

/-! ### Main results -/

/-- The archive is invisible if and only if none is added, since one of averages of single primary data points has at
least twice as many rows as any archive has primary data points per row, or the index of the archive is that of the
only data source. -/
theorem rraForCdpPrefilling_invisible_iff (mem : NewMemory) {rrd : MemRrd}
    (hcdp : ∀ rra ∈ rrd.rra, rra.cdpPrep.length = rrd.dsCnt) (hcnt : ∀ rra ∈ rrd.rra, rra.rraDef.pdpCnt < 2 ^ 63) :
    Invisible rrd (rraForCdpPrefilling mem rrd.flat) ↔
      (∃ rra ∈ rrd.rra, rra.rraDef.IsAverageOnePdp ∧ ∀ other ∈ rrd.rra, 2 * other.rraDef.pdpCnt ≤ rra.rraDef.rowCnt) ∨
        rrd.dsCnt = 0 ∨ rrd.dsCnt = 1 ∧ rrd.rra = [] := by
  have hbig : rrd.flat.scan.largestPdp < 2 ^ 63 :=
    Nat.lt_of_le_pred (by norm_num) (flat_largestPdp.2 fun rra hrra => Nat.le_pred_of_lt (hcnt rra hrra))
  have hlong : ∀ n, rrd.flat.scan.largestPdp * 2 % 2 ^ 64 ≤ n ↔
      ∀ rra ∈ rrd.rra, 2 * rra.rraDef.pdpCnt ≤ n := fun n => by
    rw [Nat.mod_eq_of_lt (by omega), ← Nat.le_div_iff_mul_le (by decide), flat_largestPdp]
    exact forall₂_congr fun _ _ => by omega
  have hadded : Invisible rrd (addTemporary mem rrd.flat rrd.flat.scan.totalRows
      (rrd.flat.scan.largestPdp * 2 % 2 ^ 64)) ↔
        rrd.dsCnt = 0 ∨ rrd.dsCnt = 1 ∧ rrd.rra = [] := by
    rw [flat_totalRows]
    exact invisible_added_iff hcdp ((hlong _).1 le_rfl)
  unfold rraForCdpPrefilling
  dsimp only
  cases hfound : rrd.flat.scan.found with
  | none =>
    dsimp only
    rw [hadded]
    refine (or_iff_right ?_).symm
    rintro ⟨rra, hrra, haverage, -⟩
    obtain ⟨i, hi⟩ := mem_flat_rraDef hrra
    exact foldl_scanRra_found_none hfound hi haverage
  | some found =>
    obtain ⟨average, i⟩ := found
    obtain ⟨hmem, haverage, hbest⟩ := foldl_scanRra_found_some hfound
    dsimp only
    split_ifs with hshort
    · rw [hadded]
      refine (or_iff_right ?_).symm
      rintro ⟨rra, hrra, haverage', hlong'⟩
      obtain ⟨i', hi'⟩ := mem_flat_rraDef hrra
      exact hshort.not_ge (((hlong _).2 hlong').trans (hbest _ hi' haverage'))
    · have hwindow := (hlong _).1 (not_lt.1 hshort)
      obtain ⟨rra, hrra, heq⟩ := exists_of_mem_flat hmem
      dsimp only at heq
      refine iff_of_true (invisible_found (List.mk_mem_zipIdx_iff_getElem?.1 hmem) haverage hwindow) (.inl ⟨rra, hrra, ?_, ?_⟩)
      · exact heq ▸ haverage
      · exact heq ▸ hwindow

/-- New memory that holds zeros. -/
def zeroMemory : NewMemory := ⟨plainRra .average 0 0 0, .zero, ⟨[], 0, .fin 0⟩⟩

/-- Two primary data points per row, and four rows of single ones. -/
theorem rraForCdpPrefilling_invisible_iff_four :
    Invisible (twoPdpTarget 300 1000).rrd (rraForCdpPrefilling zeroMemory (twoPdpTarget 300 1000).rrd.flat) :=
  (rraForCdpPrefilling_invisible_iff zeroMemory (by decide) (by decide)).2
    (.inl ⟨⟨plainRra .average 4 1 (1 / 2), [.zero], 3⟩, List.mem_cons_of_mem _ List.mem_cons_self, by decide, by decide⟩)

/-- One data source and one archive of two primary data points per row: `pdp_prep` is read at the index 1. -/
theorem rraForCdpPrefilling_outside :
    ¬Invisible { (twoPdpTarget 300 1000).rrd with rra := (twoPdpTarget 300 1000).rrd.rra.take 1 }
      (rraForCdpPrefilling zeroMemory
        { (twoPdpTarget 300 1000).rrd with rra := (twoPdpTarget 300 1000).rrd.rra.take 1 }.flat) :=
  fun h => absurd (h.bounds 1 (by decide)) (by decide)

end Rrdtool
