import Rrdtool.Modify.History

/-!
# The last value of a new archive

`prepare_CDPs` takes the last value of a new archive from `rrd_value`. The place of the archive in this array is
handed to it in rows, and it counts on from there in values. When there are rows before the archive and more than one
data source, it finds another place (`addRras_primaryVal_iff`).
-/

namespace Rrdtool

/-! ### The rows of new archives -/

/-- The rows of some new archives, behind each other. -/
@[grind] def populated (rrd : MemRrd) (map : List (Option ℕ)) (rras : List RraDef) : List RrdValue :=
  rras.flatMap fun rra => ((List.range rra.rowCnt).map (populateRow rrd map rra (rra.rowCnt - 1 : ℕ))).flatten

@[grind] def rowsOf (rras : List RraDef) : ℕ := (rras.map (·.rowCnt)).sum

variable {rrd : MemRrd} {ds : List DataSource} {map : List (Option ℕ)}

lemma length_rows (map : List (Option ℕ)) (rra : RraDef) :
    ((List.range rra.rowCnt).map (populateRow rrd map rra (rra.rowCnt - 1 : ℕ))).flatten.length =
      rra.rowCnt * map.length := by
  have hwidth (oi : ℕ) : (List.length ∘ populateRow rrd map rra (rra.rowCnt - 1 : ℕ)) oi = map.length :=
    length_populateRow map rra _ oi
  rw [List.length_flatten, List.map_map, List.map_congr_left fun oi _ => hwidth oi, List.map_const',
    List.sum_replicate, List.length_range, smul_eq_mul]

lemma length_populated (map : List (Option ℕ)) (rras : List RraDef) :
    (populated rrd map rras).length = rowsOf rras * map.length := by
  induction rras with
  | nil => rw [rowsOf, List.map_nil, List.sum_nil, zero_mul]; rfl
  | cons rra rras ih =>
    rw [populated, List.flatMap_cons, List.length_append, ← populated, ih, length_rows, rowsOf, rowsOf,
      List.map_cons, List.sum_cons, add_mul]

/-- The archive `k` of the new ones is set up after its rows and those before them have been filled. -/
lemma addRras_getElem? (rowsBefore : ℕ) (values : List RrdValue) (rras : List RraDef) (k : ℕ) :
    (addRras rrd ds map rowsBefore values rras).1[k]? = rras[k]?.map fun rra =>
      ⟨rra, prepareCdps rrd ds map rra (rowsBefore + rowsOf (rras.take k))
        (values ++ populated rrd map (rras.take (k + 1))), rra.rowCnt - 1⟩ := by
  induction rras generalizing rowsBefore values k with
  | nil => rfl
  | cons rra rras ih =>
    cases k with
    | zero => simp [addRras, populated, rowsOf]
    | succ k =>
      rw [addRras, List.getElem?_cons_succ, List.getElem?_cons_succ, ih]
      simp [populated, rowsOf, add_assoc]

/-- The newest row of the archive `k`, in the array as it is then. -/
lemma newest_getElem? (rrd : MemRrd) {map : List (Option ℕ)} {rowsBefore : ℕ} {values : List RrdValue}
    {rras : List RraDef} {k i : ℕ} {rra : RraDef}
    (hlen : values.length = rowsBefore * map.length) (hk : rras[k]? = some rra) (hpos : 0 < rra.rowCnt)
    (hi : i < map.length) :
    (values ++ populated rrd map (rras.take (k + 1)))[(rowsBefore + rowsOf (rras.take k) + (rra.rowCnt - 1)) *
      map.length + i]? = (populateRow rrd map rra (rra.rowCnt - 1 : ℕ) (rra.rowCnt - 1))[i]? := by
  have hsplit : populated rrd map (rras.take (k + 1)) = populated rrd map (rras.take k) ++
      ((List.range rra.rowCnt).map (populateRow rrd map rra (rra.rowCnt - 1 : ℕ))).flatten := by
    rw [List.take_add_one, hk, populated, List.flatMap_append, ← populated]
    simp
  have hbefore : (values ++ populated rrd map (rras.take k)).length =
      (rowsBefore + rowsOf (rras.take k)) * map.length := by
    rw [List.length_append, hlen, length_populated, add_mul]
  rw [hsplit, ← List.append_assoc, List.getElem?_append_right (by rw [hbefore]; nlinarith), hbefore,
    show (rowsBefore + rowsOf (rras.take k) + (rra.rowCnt - 1)) * map.length + i -
      (rowsBefore + rowsOf (rras.take k)) * map.length = (rra.rowCnt - 1) * map.length + i by
        rw [add_mul _ (rra.rowCnt - 1)]; omega]
  refine Blocks.getElem?_flatten_row (w := map.length) ?_ ?_ hi
  · intro row hrow
    obtain ⟨oi, -, rfl⟩ := List.mem_map.1 hrow
    exact length_populateRow map rra _ oi
  · rw [List.getElem?_map, List.getElem?_range (by omega)]
    rfl

/-! ### What is read -/

/-- The place in `rrd_value` that `prepare_CDPs` reads. -/
@[grind] def primaryIndex (dsCnt rowsBefore rowCnt i : ℕ) : ℕ := rowsBefore + dsCnt * (rowCnt - 1) + i

/-- The place of the data source in the newest row of the archive. -/
@[grind] def newestIndex (dsCnt rowsBefore rowCnt i : ℕ) : ℕ := (rowsBefore + (rowCnt - 1)) * dsCnt + i

/-- The rows of the candidate that are read: the one before the open interval, and those of the open interval. -/
@[grind] def rowsRead (rrd : MemRrd) (rra : RraDef) (c : RraCandidate) : List ℕ :=
  let (startRow, cnt) := openRows rrd rra c
  if startRow = -1 then []
  else
    (if startRow - 1 < 0 then c.rra.rraDef.rowCnt - 1 else (startRow - 1).toNat) ::
      (List.range cnt.toNat).map fun j => (startRow.toNat + j) % c.rra.rraDef.rowCnt

/-- A preparation area depends on no other rows of the candidate. -/
lemma prepareCdp_eq (rra : RraDef) (c : RraCandidate) (inK : ℕ) (curr : RrdValue) :
    prepareCdp rrd rra c inK curr =
      match (rowsRead rrd rra c).map fun row => rrd.rrdValue (c.base + row * rrd.dsCnt + inK) with
      | [] => { CdpPrep.zero with
          primaryVal := curr, secondaryVal := (c.rra.cdpPrep[inK]?).elim .nan (·.primaryVal) }
      | before :: vs => vs.zipIdx.foldl
          (fun cdp (v, j) => updateCdp rra.cf cdp v 0 1 (u64 ((rra.pdpCnt : ℤ) - j)) rra.pdpCnt c.rra.rraDef.xff)
          { CdpPrep.zero with primaryVal := curr, secondaryVal := before } := by
  simp only [prepareCdp, rowsRead]
  generalize openRows rrd rra c = rows
  have hindex {α : Type} (f : ℕ → α) (n : ℕ) :
      ((List.range n).map f).zipIdx = (List.range n).map fun j => (f j, j) := by
    refine List.ext_getElem (by simp) fun j _ _ => ?_
    simp
  split
  · rfl
  · simp only [List.map_cons, List.map_map, hindex, List.foldl_map, Function.comp_apply]

/-- No row is looked up that the candidate does not have. -/
lemma rowsRead_lt {rra : RraDef} {c : RraCandidate} (hrows : 0 < c.rra.rraDef.rowCnt) :
    ∀ row ∈ rowsRead rrd rra c, row < c.rra.rraDef.rowCnt := by
  have hmod (a : ℤ) : positiveMod a c.rra.rraDef.rowCnt < c.rra.rraDef.rowCnt := by
    have hlt := Int.tmod_lt_of_pos a (show (0 : ℤ) < c.rra.rraDef.rowCnt by omega)
    simp only [positiveMod]
    split <;> omega
  have hstart : (openRows rrd rra c).1 < c.rra.rraDef.rowCnt := by
    simp only [openRows, rowForTime]
    split_ifs <;> first | omega | exact hmod _
  intro row hrow
  rw [rowsRead] at hrow
  generalize openRows rrd rra c = rows at hrow hstart
  dsimp only at hrow
  split at hrow
  · exact absurd hrow List.not_mem_nil
  · obtain rfl | hrow := List.mem_cons.1 hrow
    · split <;> omega
    · obtain ⟨j, -, rfl⟩ := List.mem_map.1 hrow
      exact Nat.mod_lt _ hrows

lemma mem_rra_of_chosen {rra : RraDef} {c : RraCandidate} (hc : chosenCandidate rrd rra = some c) :
    c.rra ∈ rrd.rra := by
  obtain ⟨_, hq, -⟩ := candidate_spec (List.mem_of_find?_eq_some hc)
  exact List.mem_of_getElem? hq

/-! ### The last value -/

/-- Values that come later do not change the last one. -/
lemma foldl_updateCdp_primaryVal (cf : Cf) (xff : RrdValue) (pdpCnt : ℕ) (vs : List (RrdValue × ℕ))
    (cdp : CdpPrep) :
    (vs.foldl (fun cdp (v, j) => updateCdp cf cdp v 0 1 (u64 ((pdpCnt : ℤ) - j)) pdpCnt xff) cdp).primaryVal =
      cdp.primaryVal := by
  induction vs generalizing cdp with
  | nil => rfl
  | cons v vs ih =>
    have hstep : (updateCdp cf cdp v.1 0 1 (u64 ((pdpCnt : ℤ) - v.2)) pdpCnt xff).primaryVal = cdp.primaryVal := by
      rw [updateCdp, if_neg (lt_irrefl 0)]
      split <;> rfl
    rw [List.foldl_cons, ih, hstep]

lemma prepareCdp_primaryVal (rra : RraDef) (c : RraCandidate) (inK : ℕ) (curr : RrdValue) :
    (prepareCdp rrd rra c inK curr).primaryVal = curr := by
  rw [prepareCdp_eq]
  split
  · rfl
  · exact foldl_updateCdp_primaryVal _ _ _ _ _

/-- The data source `i` of the archive `k` of those that `add_rras` adds, for which there is a candidate `c`. -/
structure Prepared (rrd : MemRrd) (ds : List DataSource) (map : List (Option ℕ)) (rowsBefore : ℕ)
    (values : List RrdValue) (rras : List RraDef) (k : ℕ) (rra : RraDef) (c : RraCandidate) (i inK : ℕ) : Prop where
  rows_pos : ∀ a ∈ rrd.rra, 0 < a.rraDef.rowCnt
  length_values : values.length = rowsBefore * ds.length
  length_map : map.length = ds.length
  getElem? : rras[k]? = some rra
  rowCnt_pos : 0 < rra.rowCnt
  ds_lt : i < ds.length
  chosen : chosenCandidate rrd rra = some c
  mapped : map.getD i none = some inK
  inK_lt : inK < rrd.dsCnt

/-- The last value is that of the newest row of the archive, as it has been filled, and nothing is read outside of
`rrd_value` and of the rows of the candidate. -/
structure OwnData (rrd : MemRrd) (ds : List DataSource) (map : List (Option ℕ)) (rowsBefore : ℕ)
    (values : List RrdValue) (rras : List RraDef) (k : ℕ) (rra : RraDef) (c : RraCandidate) (i inK : ℕ) : Prop where
  primaryVal : ∃ head cdp, (addRras rrd ds map rowsBefore values rras).1[k]? = some head ∧
    head.cdpPrep[i]? = some cdp ∧
    (populateRow rrd map rra (rra.rowCnt - 1 : ℕ) (rra.rowCnt - 1))[i]? = some cdp.primaryVal
  index_lt : primaryIndex ds.length (rowsBefore + rowsOf (rras.take k)) rra.rowCnt i <
    (values ++ populated rrd map (rras.take (k + 1))).length
  rows_lt : ∀ row ∈ rowsRead rrd rra c, row * rrd.dsCnt + inK < c.rra.rraDef.rowCnt * rrd.dsCnt

section Added

variable {rowsBefore : ℕ} {values : List RrdValue} {rras : List RraDef} {k i inK : ℕ} {rra : RraDef}
  {c : RraCandidate}

lemma Prepared.primaryIndex_lt (h : Prepared rrd ds map rowsBefore values rras k rra c i inK) :
    primaryIndex ds.length (rowsBefore + rowsOf (rras.take k)) rra.rowCnt i <
      (values ++ populated rrd map (rras.take (k + 1))).length := by
  have hpos : 1 ≤ ds.length := Nat.one_le_of_lt h.ds_lt
  have hrows : rowsOf (rras.take (k + 1)) = rowsOf (rras.take k) + rra.rowCnt := by
    rw [List.take_add_one, h.getElem?, rowsOf, List.map_append, List.sum_append, rowsOf]
    rfl
  obtain ⟨r, hr⟩ := Nat.exists_eq_succ_of_ne_zero h.rowCnt_pos.ne'
  rw [List.length_append, h.length_values, length_populated, h.length_map, hrows, primaryIndex, hr]
  have hi := h.ds_lt
  have hbefore := Nat.le_mul_of_pos_right (rowsBefore + rowsOf (rras.take k)) hpos
  calc rowsBefore + rowsOf (rras.take k) + ds.length * (r + 1 - 1) + i
      < (rowsBefore + rowsOf (rras.take k)) * ds.length + (ds.length * r + ds.length) := by
        rw [Nat.add_sub_cancel]
        omega
    _ = rowsBefore * ds.length + (rowsOf (rras.take k) + r.succ) * ds.length := by
        rw [Nat.succ_eq_add_one]
        ring

lemma Prepared.rows_lt (h : Prepared rrd ds map rowsBefore values rras k rra c i inK) :
    ∀ row ∈ rowsRead rrd rra c, row * rrd.dsCnt + inK < c.rra.rraDef.rowCnt * rrd.dsCnt := by
  intro row hrow
  have hlt := rowsRead_lt (h.rows_pos _ (mem_rra_of_chosen h.chosen)) row hrow
  calc row * rrd.dsCnt + inK < row * rrd.dsCnt + rrd.dsCnt := Nat.add_lt_add_left h.inK_lt _
    _ = (row + 1) * rrd.dsCnt := (Nat.succ_mul row rrd.dsCnt).symm
    _ ≤ c.rra.rraDef.rowCnt * rrd.dsCnt := Nat.mul_le_mul_right _ hlt

/-- What `prepare_CDPs` takes for the last value. -/
lemma Prepared.primaryVal (h : Prepared rrd ds map rowsBefore values rras k rra c i inK) :
    ∃ head cdp, (addRras rrd ds map rowsBefore values rras).1[k]? = some head ∧ head.cdpPrep[i]? = some cdp ∧
      (values ++ populated rrd map (rras.take (k + 1)))[primaryIndex ds.length (rowsBefore + rowsOf (rras.take k))
        rra.rowCnt i]? = some cdp.primaryVal := by
  obtain ⟨v, hv⟩ : ∃ v, (values ++ populated rrd map (rras.take (k + 1)))[primaryIndex ds.length
      (rowsBefore + rowsOf (rras.take k)) rra.rowCnt i]? = some v :=
    ⟨_, List.getElem?_eq_getElem h.primaryIndex_lt⟩
  have hd := List.getElem?_eq_getElem h.ds_lt
  refine ⟨_, prepareCdp rrd rra c inK v, by rw [addRras_getElem?, h.getElem?]; rfl, ?_, ?_⟩
  · simp only [prepareCdps, List.getElem?_mapIdx, hd, Option.map_some, h.chosen, h.mapped]
    rw [List.getD_eq_getElem?_getD, ← primaryIndex, hv, Option.getD_some]
  · rw [hv, prepareCdp_primaryVal]

/-- The last value comes from the archive itself exactly if there is one data source, no row stands before the archive
or the value at the place that is read is the same. -/
theorem addRras_primaryVal_iff (rrd : MemRrd) (ds : List DataSource) (map : List (Option ℕ)) (rowsBefore : ℕ)
    (values : List RrdValue) (rras : List RraDef) (k : ℕ) (rra : RraDef) (c : RraCandidate) (i inK : ℕ)
    (h : Prepared rrd ds map rowsBefore values rras k rra c i inK) :
    OwnData rrd ds map rowsBefore values rras k rra c i inK ↔
      ds.length = 1 ∨ rowsBefore + rowsOf (rras.take k) = 0 ∨
        (values ++ populated rrd map (rras.take (k + 1)))[primaryIndex ds.length (rowsBefore + rowsOf (rras.take k))
          rra.rowCnt i]? =
        (values ++ populated rrd map (rras.take (k + 1)))[newestIndex ds.length (rowsBefore + rowsOf (rras.take k))
          rra.rowCnt i]? := by
  obtain ⟨head, cdp, hhead, hcdp, hread⟩ := h.primaryVal
  have hnewest := newest_getElem? rrd (h.length_map ▸ h.length_values) h.getElem? h.rowCnt_pos (h.length_map ▸ h.ds_lt)
  rw [h.length_map, ← newestIndex] at hnewest
  constructor
  · intro hown
    obtain ⟨head', cdp', hhead', hcdp', hval⟩ := hown.primaryVal
    obtain rfl : head = head' := Option.some.inj (hhead.symm.trans hhead')
    obtain rfl : cdp = cdp' := Option.some.inj (hcdp.symm.trans hcdp')
    exact .inr (.inr (by rw [hread, hnewest, hval]))
  · intro hcond
    refine ⟨⟨head, cdp, hhead, hcdp, ?_⟩, h.primaryIndex_lt, h.rows_lt⟩
    rw [← hnewest, ← hread]
    obtain hone | hzero | heq := hcond
    · rw [primaryIndex, newestIndex, hone, one_mul, mul_one, Nat.add_assoc]
    · rw [primaryIndex, newestIndex, hzero, Nat.zero_add, Nat.zero_add, Nat.mul_comm]
    · exact heq.symm

end Added

/-- Two data sources and one archive of two rows, whose values tell their place. -/
def pairRrd : MemRrd where
  version := 3
  pdpStep := 300
  lastUp := 3600
  lastUpUsec := 0
  ds := [['a'], ['b']].map fun name => ⟨gaugeDs name 600, resetPdpPrep 3600 300⟩
  rra := [⟨plainRra .average 2 1 0, [.zero, .zero], 1⟩]
  rrdValue := fun k => .fin (k : ℚ)

/-- The archive of `pairRrd`. -/
def pairCandidate : RraCandidate := ⟨⟨plainRra .average 2 1 0, [.zero, .zero], 1⟩, 0⟩

/-- Another archive, when there is none yet. -/
theorem addRras_primaryVal_iff_first :
    OwnData pairRrd pairRrd.ds [some 0, some 1] 0 [] [plainRra .average 2 1 0] 0 (plainRra .average 2 1 0)
        pairCandidate 1 1 ↔
      pairRrd.ds.length = 1 ∨ 0 = 0 ∨
        (populated pairRrd [some 0, some 1] [plainRra .average 2 1 0])[3]? =
          (populated pairRrd [some 0, some 1] [plainRra .average 2 1 0])[3]? := by
  refine addRras_primaryVal_iff pairRrd pairRrd.ds [some 0, some 1] 0 [] [plainRra .average 2 1 0] 0
    (plainRra .average 2 1 0) pairCandidate 1 1 ⟨?_, rfl, rfl, rfl, ?_, ?_, ?_, rfl, ?_⟩
  · decide +kernel
  · decide
  · decide
  · rfl
  · decide

/-- Another archive of the same kind behind the one there is: its last value is taken from its oldest row. -/
theorem rrdModifyStructure_primaryVal :
    ∃ out, rrdModifyStructure noMemory pairRrd [] [] [.add "RRA:AVERAGE:0:1:2".toList] 0 = .ok out ∧
      (chosenCandidate pairRrd (plainRra .average 2 1 0)).isSome ∧
      (out.rra[1]?.bind (·.cdpPrep[0]?)).map (·.primaryVal) = some (out.value 1 0 1) ∧
      out.value 1 0 1 ≠ out.value 1 0 0 := by
  obtain ⟨out, h⟩ := exists_ok
    (show (rrdModifyStructure noMemory pairRrd [] [] [.add "RRA:AVERAGE:0:1:2".toList] 0).toOption.isSome
      by decide +kernel)
  refine ⟨out, h, by decide +kernel, ?_⟩
  have hall : ∀ o ∈ (rrdModifyStructure noMemory pairRrd [] [] [.add "RRA:AVERAGE:0:1:2".toList] 0).toOption,
      (o.rra[1]?.bind (·.cdpPrep[0]?)).map (·.primaryVal) = some (o.value 1 0 1) ∧
        o.value 1 0 1 ≠ o.value 1 0 0 := by decide +kernel
  exact hall out (by rw [h]; rfl)

end Rrdtool
