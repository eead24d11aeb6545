import Rrdtool.Modify.References
import Rrdtool.Lib.Blocks

/-!
# The rows of a modified database

`mod_rras` counts the values of the archives that it has passed in order to know where the next one starts, but an
archive that is removed is passed without being counted. The rows of every later archive are then read from the
place of other rows.

A modification keeps the history, whatever the values are, exactly if no archive is removed before one that
survives (`rrdModifyStructure_history_iff`).
-/

namespace Rrdtool

open Checked

/-! ### History -/

/-- The counts of a database that was read from a file. -/
structure MemRrd.Sound (rrd : MemRrd) : Prop where
  rowCnt : ∀ rra ∈ rrd.rra, 1 ≤ rra.rraDef.rowCnt
  curRow : ∀ rra ∈ rrd.rra, rra.curRow < rra.rraDef.rowCnt
  cdpPrep : ∀ rra ∈ rrd.rra, rra.cdpPrep.length = rrd.dsCnt

/-- The counts, old and new, are in the range of `int`. -/
structure FitsInt (rrd : MemRrd) (ops : List RraModOp) : Prop where
  values : rrd.rowsBefore rrd.rra.length * rrd.dsCnt < 2 ^ 31
  rowCnt : ∀ rra ∈ rrd.rra, rra.rraDef.rowCnt < 2 ^ 31
  resize : ∀ j rra op n, rrd.rra[j]? = some rra → resizeOf ops j = some (op, n) →
    n < 2 ^ 31 ∧ (op = .plus → rra.rraDef.rowCnt + n < 2 ^ 31)

/-- A value is unknown, or it was consolidated from rows of the data source `i` in an archive that may be used for the
archive `a`. -/
def Populated (rrd : MemRrd) (a : MemRra) (i : ℕ) (v : RrdValue) : Prop :=
  v = .nan ∨ ∃ (q : ℕ) (b : MemRra) (rows : List ℕ), rrd.rra[q]? = some b ∧ selectForModify a.rraDef b.rraDef ∧
    (∀ row ∈ rows, row < b.rraDef.rowCnt) ∧
    v = ((rows.map fun row => rrd.rrdValue ((rrd.rowsBefore q + row) * rrd.dsCnt + i)).foldl
      (populateStep a.rraDef.cf (timeslot rrd b.rraDef)) ⟨.nan, 0, .nan⟩).final

/-- What the archive `a` with the index `j` becomes: `a'`. -/
structure HistoryOf (rrd out : MemRrd) (removeDS : List Text) (ops : List RraModOp) (j : ℕ) (a a' : MemRra) : Prop where
  old : ∀ i d, rrd.ds[i]? = some d → (keepDs removeDS i d).isSome →
    ∀ age, age < min a.rraDef.rowCnt a'.rraDef.rowCnt →
      out.value (newRra rrd ops j) (newDs rrd removeDS i) age = rrd.value j i age
  new : ∀ i d, rrd.ds[i]? = some d → (keepDs removeDS i d).isSome →
    ∀ age, a.rraDef.rowCnt ≤ age → age < a'.rraDef.rowCnt →
      Populated rrd a i (out.value (newRra rrd ops j) (newDs rrd removeDS i) age)
  added : ∀ c, newDs rrd removeDS rrd.dsCnt ≤ c → c < out.dsCnt → ∀ age, age < a'.rraDef.rowCnt →
    out.value (newRra rrd ops j) c age = .nan
  cdpPrep : ∀ i d, rrd.ds[i]? = some d → (keepDs removeDS i d).isSome →
    a'.cdpPrep[newDs rrd removeDS i]? = a.cdpPrep[i]?

/-- The history and the preparation areas of all that survives are kept. -/
structure HistoryKept (rrd out : MemRrd) (removeDS : List Text) (ops : List RraModOp) : Prop where
  pdpPrep : ∀ i d, rrd.ds[i]? = some d → (keepDs removeDS i d).isSome →
    (out.ds[newDs rrd removeDS i]?).map (·.pdpPrep) = some d.pdpPrep
  rra : ∀ j a, rrd.rra[j]? = some a → (keepRra ops j a).isSome →
    ∃ a', out.rra[newRra rrd ops j]? = some a' ∧ HistoryOf rrd out removeDS ops j a a'

/-- No archive is removed before one that survives, unless no data source does. -/
def RemovesBehind (rrd : MemRrd) (removeDS : List Text) (ops : List RraModOp) : Prop :=
  (∃ i d, rrd.ds[i]? = some d ∧ (keepDs removeDS i d).isSome) →
    ∀ j a, rrd.rra[j]? = some a → (keepRra ops j a).isSome → ∀ u b, u < j → rrd.rra[u]? = some b → (keepRra ops u b).isSome

/-! ### Columns -/

variable {α : Type*} {old fresh : ℕ → α} {removeDS : List Text}

lemma length_columnsFrom (ops : List DsOp) (i ii i' ii' : ℕ) {β : Type*} {old' fresh' : ℕ → β} :
    (columnsFrom old fresh i ii ops).length = (columnsFrom old' fresh' i' ii' ops).length := by
  induction ops generalizing i ii i' ii' with
  | nil => rfl
  | cons op ops ih =>
    cases op with
    | copy => exact congrArg (· + 1) (ih _ _ _ _)
    | delete => exact ih _ _ _ _
    | add => exact congrArg (· + 1) (ih _ _ _ _)

lemma columnsFrom_kept {i ii j : ℕ} {ds : List DataSource} {rest : List DsOp} {u : ℕ} {d : DataSource}
    (hd : ds[u]? = some d) (hkeep : (keepDs removeDS u d).isSome) :
    (columnsFrom old fresh i ii (ds.map (dsOpOf removeDS) ++ rest))[
      (Compact.keepFrom (keepDs removeDS) j (ds.take u)).length]? = some (old (i + u)) := by
  induction ds generalizing i ii j u with
  | nil => cases hd
  | cons e ds ih =>
    cases u with
    | zero =>
      cases hd
      have hcopy : dsOpOf removeDS d = .copy := by
        unfold keepDs at hkeep
        unfold dsOpOf
        split at hkeep
        case isTrue h => exact if_neg h
        case isFalse => cases hkeep
      rw [List.map_cons, hcopy]
      rfl
    | succ u =>
      have hrest := fun i ii => @ih i ii (j + 1) u hd (by simpa [keepDs] using hkeep)
      rw [List.map_cons, List.cons_append, List.take_succ_cons, Compact.keepFrom, List.length_append, dsOpOf, keepDs]
      by_cases he : e.dsDef.dsNam ∈ removeDS
      · rw [if_pos he, if_neg (not_not.2 he), Option.toList_none, List.length_nil, Nat.zero_add, columnsFrom,
          Nat.add_comm u 1, ← Nat.add_assoc]
        exact hrest (i + 1) ii
      · rw [if_neg he, if_pos he, Option.toList_some, List.length_singleton, columnsFrom, Nat.add_comm 1,
          List.getElem?_cons_succ, Nat.add_comm u 1, ← Nat.add_assoc]
        exact hrest (i + 1) (ii + 1)

/-- The columns that are copied, and behind them those of the new data sources. -/
lemma length_columnsFrom_eq {i ii j : ℕ} {ds : List DataSource} {m : ℕ} :
    (columnsFrom old fresh i ii (ds.map (dsOpOf removeDS) ++ List.replicate m .add)).length =
      (Compact.keepFrom (keepDs removeDS) j ds).length + m := by
  induction ds generalizing i ii j with
  | nil =>
    rw [List.map_nil, List.nil_append, Compact.keepFrom, List.length_nil, Nat.zero_add]
    induction m generalizing i ii with
    | zero => rfl
    | succ m ih => exact congrArg (· + 1) ih
  | cons e ds ih =>
    have hrest := fun i ii => @ih i ii (j + 1)
    rw [List.map_cons, List.cons_append, Compact.keepFrom, List.length_append, dsOpOf, keepDs]
    by_cases he : e.dsDef.dsNam ∈ removeDS
    · rw [if_pos he, if_neg (not_not.2 he), columnsFrom, hrest, Option.toList_none, List.length_nil, Nat.zero_add]
    · rw [if_neg he, if_pos he, columnsFrom, List.length_cons, hrest, Option.toList_some, List.length_singleton]
      omega

lemma columnsFrom_added {i ii j c : ℕ} {ds : List DataSource} {m : ℕ} {v : α}
    (hc : (Compact.keepFrom (keepDs removeDS) j ds).length ≤ c)
    (hc' : c < (Compact.keepFrom (keepDs removeDS) j ds).length + m) :
    (columnsFrom old (fun _ => v) i ii (ds.map (dsOpOf removeDS) ++ List.replicate m .add))[c]? = some v := by
  induction ds generalizing i ii j c with
  | nil =>
    rw [Compact.keepFrom, List.length_nil, Nat.zero_add] at hc'
    rw [List.map_nil, List.nil_append]
    clear hc
    induction m generalizing i ii c with
    | zero => omega
    | succ m ih =>
      cases c with
      | zero => rfl
      | succ c => exact ih (by omega)
  | cons e ds ih =>
    have hrest := fun i ii c => @ih i ii (j + 1) c
    rw [Compact.keepFrom, List.length_append, keepDs] at hc hc'
    rw [List.map_cons, List.cons_append, dsOpOf]
    by_cases he : e.dsDef.dsNam ∈ removeDS
    · rw [if_neg (not_not.2 he), Option.toList_none, List.length_nil, Nat.zero_add] at hc hc'
      rw [if_pos he, columnsFrom]
      exact hrest (i + 1) ii c hc hc'
    · rw [if_pos he, Option.toList_some, List.length_singleton] at hc hc'
      rw [if_neg he, columnsFrom]
      obtain ⟨c, rfl⟩ : ∃ c', c = c' + 1 := ⟨c - 1, by omega⟩
      exact hrest (i + 1) (ii + 1) c (by omega) (by omega)

/-! ### New rows -/

variable {rrd out : MemRrd} {a : MemRra}

/-- A candidate is an archive of the input. -/
lemma candidate_spec {rra : RraDef} {c : RraCandidate} (h : c ∈ findCandidateRras rrd rra) :
    ∃ q, rrd.rra[q]? = some c.rra ∧ c.base = rrd.rowsBefore q * rrd.dsCnt ∧ selectForModify rra c.rra.rraDef := by
  obtain ⟨hmem, hsel⟩ := List.mem_filter.1 ((List.perm_insertionSort _ _).mem_iff.1 h)
  obtain ⟨q, hq⟩ := List.mem_iff_getElem?.1 hmem
  rw [List.getElem?_mapIdx] at hq
  obtain ⟨b, hb, rfl⟩ := Option.map_eq_some_iff.1 hq
  exact ⟨q, hb, rfl, hsel⟩

lemma populateValue_populated (hsound : rrd.Sound) {c : RraCandidate} {rra : RraDef} (hc : c ∈ findCandidateRras rrd rra)
    (hcf : rra.cf = a.rraDef.cf) (first rows : ℤ) (i : ℕ) :
    Populated rrd a i (populateValue rrd rra.cf c first rows i) := by
  obtain ⟨q, hq, hbase, hsel⟩ := candidate_spec hc
  have hpos := hsound.rowCnt c.rra (List.mem_of_getElem? hq)
  refine .inr ⟨q, c.rra, (List.range rows.toNat).map fun n => (first.toNat + n) % c.rra.rraDef.rowCnt, hq, ?_, ?_, ?_⟩
  · simpa [selectForModify, hcf] using hsel
  · intro row hrow
    obtain ⟨n, -, rfl⟩ := List.mem_map.1 hrow
    exact Nat.mod_lt _ hpos
  · simp only [populateValue, hbase, hcf, List.map_map, Function.comp_def, Nat.add_mul]

/-- The values of a row that is being filled. -/
def RowPopulated (rrd : MemRrd) (a : MemRra) (map : List (Option ℕ)) (row : Row) : Prop :=
  ∀ c v, row[c]? = some v → (map.getD c none = none → v = .nan) ∧
    ∀ i, map.getD c none = some i → Populated rrd a i v

lemma populateFrom_populated (hsound : rrd.Sound) {map : List (Option ℕ)} {c : RraCandidate} {rra : RraDef}
    {startTime endTime : ℤ} {row : Row} (hc : c ∈ findCandidateRras rrd rra) (hcf : rra.cf = a.rraDef.cf)
    (h : RowPopulated rrd a map row) :
    RowPopulated rrd a map (populateFrom rrd rra.cf map startTime endTime row c) := by
  unfold populateFrom
  split
  case h_1 => exact h
  case h_2 first rows _ =>
    intro k v hv
    rw [List.getElem?_mapIdx] at hv
    obtain ⟨w, hw, rfl⟩ := Option.map_eq_some_iff.1 hv
    obtain ⟨hfresh, hold⟩ := h k w hw
    cases hmap : map.getD k none with
    | none =>
      rw [hmap] at hfresh
      exact ⟨fun _ => hfresh rfl, nofun⟩
    | some inK =>
      refine ⟨nofun, fun i hi => ?_⟩
      cases hi
      dsimp only
      split
      · exact populateValue_populated hsound hc hcf first rows inK
      · exact hold inK hmap

lemma length_populateFrom (cf : Cf) (map : List (Option ℕ)) (startTime endTime : ℤ) (row : Row) (c : RraCandidate) :
    (populateFrom rrd cf map startTime endTime row c).length = row.length := by
  unfold populateFrom
  split
  · rfl
  · exact List.length_mapIdx

/-- What holds of the row without values and is kept by every candidate. -/
lemma populateRow_induction {map : List (Option ℕ)} {rra : RraDef} {curRow : ℤ} {oi : ℕ} {P : Row → Prop}
    (hstart : P (List.replicate map.length .nan))
    (hstep : ∀ c ∈ findCandidateRras rrd rra, ∀ startTime endTime row, P row →
      P (populateFrom rrd rra.cf map startTime endTime row c)) :
    P (populateRow rrd map rra curRow oi) := by
  simp only [populateRow]
  split
  case isTrue => exact hstart
  case isFalse => exact List.foldlRecOn _ _ hstart fun row hrow c hc => hstep c hc _ _ row hrow

lemma length_populateRow (map : List (Option ℕ)) (rra : RraDef) (curRow : ℤ) (oi : ℕ) :
    (populateRow rrd map rra curRow oi).length = map.length := by
  apply populateRow_induction (P := fun row => row.length = map.length)
  · exact List.length_replicate
  · intro c _ startTime endTime row hrow
    rw [length_populateFrom, hrow]

lemma populateRow_populated (hsound : rrd.Sound) (a : MemRra) (map : List (Option ℕ)) (rra : RraDef)
    (hcf : rra.cf = a.rraDef.cf) (curRow : ℤ) (oi : ℕ) :
    RowPopulated rrd a map (populateRow rrd map rra curRow oi) := by
  apply populateRow_induction
  · intro c v hv
    obtain rfl : v = .nan := List.eq_of_mem_replicate (List.mem_of_getElem? hv)
    exact ⟨fun _ => rfl, fun i _ => .inl rfl⟩
  · exact fun c hc startTime endTime row hrow => populateFrom_populated hsound hc hcf hrow

/-! ### Rows that are copied -/

/-- The new number of rows. -/
lemma finalRowCount_spec {rowCnt : ℕ} {op : Option (ResizeOp × ℕ)} (hpos : 1 ≤ rowCnt) (hlt : rowCnt < 2 ^ 31)
    (hfit : ∀ o n, op = some (o, n) → n < 2 ^ 31 ∧ (o = .plus → rowCnt + n < 2 ^ 31))
    (hne : finalRowCount rowCnt op ≠ 0) :
    ∃ skipped added, skippedAndAdded rowCnt op = (skipped, added) ∧
      finalRowCount rowCnt op = ((rowCnt - skipped + added : ℕ) : ℤ) ∧ skipped < rowCnt ∧ (skipped = 0 ∨ added = 0) ∧
      rowCnt - skipped + added < 2 ^ 31 := by
  have hR : s32 rowCnt = rowCnt := s32_natCast hlt
  match op, hfit, hne with
  | none, _, _ => exact ⟨0, 0, rfl, hR, hpos, .inl rfl, hlt⟩
  | some (.set, n), hfit, hne =>
    have hn : s32 n = n := s32_natCast (hfit _ _ rfl).1
    have hlt' := (hfit _ _ rfl).1
    simp only [finalRowCount, hn] at hne ⊢
    by_cases h : n < rowCnt
    · refine ⟨rowCnt - n, 0, by simp [skippedAndAdded, h], ?_, by omega, .inr rfl, by omega⟩
      omega
    · refine ⟨0, n - rowCnt, by simp [skippedAndAdded, h], ?_, hpos, .inl rfl, by omega⟩
      omega
  | some (.minus, n), hfit, hne =>
    have hlt' := (hfit _ _ rfl).1
    have hn : s32 (s32 rowCnt - n) = rowCnt - n := by
      rw [hR]
      exact s32_of_mem (by omega) (by omega)
    simp only [finalRowCount, hn] at hne ⊢
    exact ⟨n, 0, rfl, by omega, by omega, .inr rfl, by omega⟩
  | some (.plus, n), hfit, hne =>
    have hlt' := (hfit _ _ rfl).2 rfl
    have hn : s32 (s32 rowCnt + n) = rowCnt + n := by
      rw [hR]
      exact s32_of_mem (by omega) (by omega)
    simp only [finalRowCount, hn] at hne ⊢
    exact ⟨0, n, rfl, by omega, hpos, .inl rfl, by omega⟩

/-- An archive that survives, with its counts. -/
structure Kept (rrd : MemRrd) (ops : List RraModOp) (j : ℕ) (a : MemRra) (skipped added : ℕ) : Prop where
  rowCnt : 1 ≤ a.rraDef.rowCnt
  curRow : a.curRow < a.rraDef.rowCnt
  counts : skippedAndAdded a.rraDef.rowCnt (resizeOf ops j) = (skipped, added)
  final : finalRowCount a.rraDef.rowCnt (resizeOf ops j) = ((a.rraDef.rowCnt - skipped + added : ℕ) : ℤ)
  skipped_lt : skipped < a.rraDef.rowCnt
  alone : skipped = 0 ∨ added = 0
  final_lt : a.rraDef.rowCnt - skipped + added < 2 ^ 31

variable {ops : List RraModOp}

lemma exists_kept (hsound : rrd.Sound) (hfits : FitsInt rrd ops) {j : ℕ} (ha : rrd.rra[j]? = some a)
    (hkeep : (keepRra ops j a).isSome) : ∃ skipped added, Kept rrd ops j a skipped added := by
  have hmem : a ∈ rrd.rra := List.mem_of_getElem? ha
  have hne : finalRowCount a.rraDef.rowCnt (resizeOf ops j) ≠ 0 := by
    unfold keepRra at hkeep
    split at hkeep
    · cases hkeep
    · assumption
  obtain ⟨skipped, added, hcounts, hfinal, hlt, halone, hsum⟩ := finalRowCount_spec (hsound.rowCnt a hmem)
    (hfits.rowCnt a hmem) (fun o n hop => hfits.resize j a o n ha hop) hne
  exact ⟨skipped, added, hsound.rowCnt a hmem, hsound.curRow a hmem, hcounts, hfinal, hlt, halone, hsum⟩

variable {mem : Memory} {dsOps : List DsOp} {j skipped added : ℕ}

lemma Kept.u64_final (h : Kept rrd ops j a skipped added) :
    u64 (finalRowCount a.rraDef.rowCnt (resizeOf ops j)) = a.rraDef.rowCnt - skipped + added := by
  have := h.final_lt
  rw [h.final, u64_natCast (by omega)]

/-- A row that both the old and the new archive have. -/
lemma modRow_old (h : Kept rrd ops j a skipped added) {age : ℕ} (hage : age < a.rraDef.rowCnt)
    (hage' : age < a.rraDef.rowCnt - skipped + added) (final curRow totalCnt : ℤ) :
    modRow mem rrd dsOps a (resizeOf ops j) final curRow totalCnt (a.rraDef.rowCnt - skipped + added - 1 - age) =
      columns (fun i => rrd.rrdValue
        (u64 (totalCnt + ((a.curRow + a.rraDef.rowCnt - age) % a.rraDef.rowCnt : ℕ) * rrd.dsCnt + i)))
        (fun _ => .nan) dsOps := by
  have hlt := h.skipped_lt
  have halone := h.alone
  have hpos := h.rowCnt
  have hnew : ¬ a.rraDef.rowCnt - skipped + added - 1 - age < added := by omega
  have hii : skipped + (a.rraDef.rowCnt - skipped + added - 1 - age - added) = a.rraDef.rowCnt - 1 - age := by omega
  have hreal : a.rraDef.rowCnt - 1 - age + a.curRow + 1 = a.curRow + a.rraDef.rowCnt - age := by omega
  simp only [modRow, h.counts, hnew, if_false, hii, hreal]
  rw [if_pos (by omega)]

/-- A row that only the new archive has. -/
lemma modRow_new (h : Kept rrd ops j a skipped added) {age : ℕ} (hage : a.rraDef.rowCnt ≤ age)
    (hage' : age < a.rraDef.rowCnt - skipped + added) (final curRow totalCnt : ℤ) :
    modRow mem rrd dsOps a (resizeOf ops j) final curRow totalCnt (a.rraDef.rowCnt - skipped + added - 1 - age) =
      populateRow rrd (dsMap dsOps) { a.rraDef with rowCnt := u64 final } curRow
        (a.rraDef.rowCnt - skipped + added - 1 - age) := by
  have halone := h.alone
  have hlt := h.skipped_lt
  have hnew : a.rraDef.rowCnt - skipped + added - 1 - age < added := by omega
  simp only [modRow, h.counts, hnew, if_true]

lemma length_modRow (mem : Memory) (dsOps : List DsOp) (h : Kept rrd ops j a skipped added) {oi : ℕ}
    (hoi : oi < a.rraDef.rowCnt - skipped + added) (final curRow totalCnt : ℤ) :
    (modRow mem rrd dsOps a (resizeOf ops j) final curRow totalCnt oi).length = (dsMap dsOps).length := by
  obtain ⟨age, hage, rfl⟩ : ∃ age, age < a.rraDef.rowCnt - skipped + added ∧
      oi = a.rraDef.rowCnt - skipped + added - 1 - age := ⟨a.rraDef.rowCnt - skipped + added - 1 - oi, by omega, by omega⟩
  by_cases hold : age < a.rraDef.rowCnt
  · rw [modRow_old h hold hage]
    exact length_columnsFrom dsOps 0 0 0 0
  · rw [modRow_new h (by omega) hage]
    exact length_populateRow _ _ _ _

/-! ### The blocks of all archives -/

/-- The archives from `j` on, and what is known of their counts. -/
def Ready (rrd : MemRrd) (ops : List RraModOp) (j : ℕ) (rras : List MemRra) : Prop :=
  ∀ i a, rras[i]? = some a → 1 ≤ a.rraDef.rowCnt ∧ a.rraDef.rowCnt < 2 ^ 31 ∧
    ((keepRra ops (j + i) a).isSome → ∃ skipped added, Kept rrd ops (j + i) a skipped added)

lemma Ready.tail {rras : List MemRra} (h : Ready rrd ops j (a :: rras)) : Ready rrd ops (j + 1) rras := by
  intro i b hb
  have := h (i + 1) b hb
  rwa [← Nat.add_assoc, Nat.add_right_comm] at this

/-- An archive is passed exactly if it does not survive. -/
lemma removed_iff (hpos : 1 ≤ a.rraDef.rowCnt) (hlt : a.rraDef.rowCnt < 2 ^ 31) :
    (resizeOf ops j).isSome ∧ finalRowCount a.rraDef.rowCnt (resizeOf ops j) = 0 ↔ (keepRra ops j a).isSome = false := by
  unfold keepRra
  constructor
  · rintro ⟨-, h⟩
    rw [if_pos h]
    rfl
  · intro h
    split at h
    case isTrue hzero =>
      refine ⟨?_, hzero⟩
      cases hop : resizeOf ops j with
      | some op => rfl
      | none =>
        rw [hop, finalRowCount, s32_natCast hlt] at hzero
        omega
    case isFalse => cases h

/-- The rows of the archives that survive. -/
def keptRows (ops : List RraModOp) (j : ℕ) (rras : List MemRra) : ℕ :=
  ((Compact.keepFrom (keepRra ops) j rras).map (·.rraDef.rowCnt)).sum

variable {outRra : List MemRra}

lemma modRras_cons_removed {rras : List MemRra} {totalCnt : ℤ} (h : Ready rrd ops j (a :: rras))
    (hno : (keepRra ops j a).isSome = false) :
    modRras mem rrd outRra dsOps ops j totalCnt (a :: rras) =
      modRras mem rrd outRra dsOps ops (j + 1) totalCnt rras := by
  obtain ⟨hpos, hlt, -⟩ := h 0 a rfl
  simp only [modRras]
  rw [if_pos ((removed_iff hpos hlt).2 hno)]

lemma modRras_cons_kept (mem : Memory) (outRra : List MemRra) (dsOps : List DsOp) {rras : List MemRra} {totalCnt : ℕ}
    (h : Ready rrd ops j (a :: rras)) (hkeep : (keepRra ops j a).isSome) (hfit : totalCnt + rrd.dsCnt * a.rraDef.rowCnt < 2 ^ 31) :
    ∃ curRow, modRras mem rrd outRra dsOps ops j totalCnt (a :: rras) =
      (List.range (u64 (finalRowCount a.rraDef.rowCnt (resizeOf ops j)))).map (modRow mem rrd dsOps a (resizeOf ops j)
        (finalRowCount a.rraDef.rowCnt (resizeOf ops j)) curRow totalCnt) ::
      modRras mem rrd outRra dsOps ops (j + 1) ((totalCnt + rrd.dsCnt * a.rraDef.rowCnt : ℕ) : ℤ) rras := by
  obtain ⟨hpos, hlt, -⟩ := h 0 a rfl
  have hno : ¬ ((resizeOf ops j).isSome ∧ finalRowCount a.rraDef.rowCnt (resizeOf ops j) = 0) := fun hr => by
    rw [(removed_iff hpos hlt).1 hr] at hkeep
    cases hkeep
  refine ⟨(((outRra[j]?).elim (mem.curRow j) (·.curRow) : ℕ) : ℤ), ?_⟩
  conv_lhs => rw [modRras]
  simp only [hno, if_false]
  have hsum : s32 ((totalCnt : ℤ) + rrd.dsCnt * a.rraDef.rowCnt) = ((totalCnt + rrd.dsCnt * a.rraDef.rowCnt : ℕ) : ℤ) := by
    rw [← s32_natCast hfit]
    push_cast
    rfl
  rw [hsum]

lemma keptRows_cons (rras : List MemRra) :
    keptRows ops j (a :: rras) = (if (keepRra ops j a).isSome then a.rraDef.rowCnt else 0) + keptRows ops (j + 1) rras := by
  rw [keptRows, Compact.keepFrom, List.map_append, List.sum_append, ← keptRows]
  congr 1
  unfold keepRra
  split <;> simp

/-- The block of an archive that survives. -/
lemma modRras_block (mem : Memory) (outRra : List MemRra) (dsOps : List DsOp) {rras : List MemRra} {totalCnt i : ℕ}
    (h : Ready rrd ops j rras) (ha : rras[i]? = some a) (hkeep : (keepRra ops (j + i) a).isSome)
    (hfit : totalCnt + rrd.dsCnt * (rras.map (·.rraDef.rowCnt)).sum < 2 ^ 31) :
    ∃ curRow, (modRras mem rrd outRra dsOps ops j totalCnt rras)[(Compact.keepFrom (keepRra ops) j (rras.take i)).length]? =
      some ((List.range (u64 (finalRowCount a.rraDef.rowCnt (resizeOf ops (j + i))))).map
        (modRow mem rrd dsOps a (resizeOf ops (j + i)) (finalRowCount a.rraDef.rowCnt (resizeOf ops (j + i))) curRow
          ((totalCnt + rrd.dsCnt * keptRows ops j (rras.take i) : ℕ) : ℤ))) := by
  induction rras generalizing j totalCnt i with
  | nil => cases ha
  | cons b rras ih =>
    rw [List.map_cons, List.sum_cons, Nat.mul_add] at hfit
    cases i with
    | zero =>
      cases ha
      obtain ⟨curRow, heq⟩ := modRras_cons_kept mem outRra dsOps h hkeep
        (show totalCnt + rrd.dsCnt * a.rraDef.rowCnt < 2 ^ 31 by omega)
      refine ⟨curRow, ?_⟩
      rw [heq]
      rfl
    | succ i =>
      have hshift : j + (i + 1) = j + 1 + i := by omega
      rw [hshift] at hkeep ⊢
      rw [List.take_succ_cons, Compact.keepFrom, List.length_append, keptRows_cons]
      cases hb : (keepRra ops j b).isSome with
      | false =>
        obtain ⟨curRow, hblock⟩ := ih h.tail ha hkeep
          (show totalCnt + rrd.dsCnt * (rras.map (·.rraDef.rowCnt)).sum < 2 ^ 31 by omega)
        refine ⟨curRow, ?_⟩
        rw [modRras_cons_removed h hb, Option.isSome_eq_false_iff.1 hb |> Option.isNone_iff_eq_none.1]
        simpa using hblock
      | true =>
        obtain ⟨b', hb'⟩ := Option.isSome_iff_exists.1 hb
        obtain ⟨_, heq⟩ := modRras_cons_kept mem outRra dsOps h hb
          (show totalCnt + rrd.dsCnt * b.rraDef.rowCnt < 2 ^ 31 by omega)
        obtain ⟨curRow, hblock⟩ := ih h.tail ha hkeep
          (show totalCnt + rrd.dsCnt * b.rraDef.rowCnt + rrd.dsCnt * (rras.map (·.rraDef.rowCnt)).sum < 2 ^ 31 by omega)
        refine ⟨curRow, ?_⟩
        rw [heq, hb', Option.toList_some, List.length_singleton, Nat.add_comm 1, List.getElem?_cons_succ, hblock, if_pos rfl,
          Nat.mul_add, ← Nat.add_assoc]

/-- The blocks are as long as the archives of the output. -/
lemma length_modRras {rras : List MemRra} {ds : List DataSource} {totalCnt : ℤ} (h : Ready rrd ops j rras) :
    (modRras mem rrd outRra dsOps ops j totalCnt rras).map List.length =
      (Compact.keepFrom (handleRraDef rrd ds dsOps ops) j rras).map (·.rraDef.rowCnt) := by
  induction rras generalizing j totalCnt with
  | nil => rfl
  | cons b rras ih =>
    obtain ⟨hpos, hlt, -⟩ := h 0 b rfl
    rw [Compact.keepFrom, List.map_append]
    cases hb : (keepRra ops j b).isSome with
    | false =>
      have hnone : handleRraDef rrd ds dsOps ops j b = none := by
        rw [← handleRraDef_isSome rrd ds dsOps, Option.isSome_eq_false_iff] at hb
        exact Option.isNone_iff_eq_none.1 hb
      rw [modRras_cons_removed h hb, ih h.tail, hnone]
      rfl
    | true =>
      have hne : finalRowCount b.rraDef.rowCnt (resizeOf ops j) ≠ 0 := by
        unfold keepRra at hb
        split at hb
        · cases hb
        · assumption
      conv_lhs => rw [modRras]
      simp only [hne, and_false, if_false, handleRraDef]
      rw [List.map_cons, ih h.tail, List.length_map, List.length_range]
      rfl

/-- All rows of the blocks are as wide as the rows of the output. -/
lemma width_modRras {rras : List MemRra} {totalCnt : ℤ} (h : Ready rrd ops j rras) :
    ∀ block ∈ modRras mem rrd outRra dsOps ops j totalCnt rras, ∀ row ∈ block, row.length = (dsMap dsOps).length := by
  induction rras generalizing j totalCnt with
  | nil => exact fun block hb => nomatch hb
  | cons b rras ih =>
    obtain ⟨hpos, hlt, hkept⟩ := h 0 b rfl
    cases hb : (keepRra ops j b).isSome with
    | false =>
      rw [modRras_cons_removed h hb]
      exact ih h.tail
    | true =>
      obtain ⟨skipped, added, hk⟩ := hkept hb
      have hne : finalRowCount b.rraDef.rowCnt (resizeOf ops j) ≠ 0 := by
        unfold keepRra at hb
        split at hb
        · cases hb
        · assumption
      rw [modRras]
      simp only [hne, and_false, if_false, List.forall_mem_cons]
      refine ⟨fun row hrow => ?_, ih h.tail⟩
      obtain ⟨oi, hoi, rfl⟩ := List.mem_map.1 hrow
      exact length_modRow mem dsOps hk (hk.u64_final ▸ List.mem_range.1 hoi) _ _ _

/-! ### The values of the output -/

variable {new : List MemRra} {values : List RrdValue}

lemma ready (hsound : rrd.Sound) (hfits : FitsInt rrd ops) : Ready rrd ops 0 rrd.rra := by
  intro i a ha
  have hmem : a ∈ rrd.rra := List.mem_of_getElem? ha
  rw [Nat.zero_add]
  exact ⟨hsound.rowCnt a hmem, hfits.rowCnt a hmem, exists_kept hsound hfits ha⟩

lemma Modified.width (hm : Modified mem rrd out removeDS ops dsOps new values) : (dsMap dsOps).length = out.dsCnt := by
  rw [dsMap, columns, hm.dsOps_eq, length_columnsFrom_eq (j := 0)]
  exact Nat.add_sub_of_le hm.ds.length_le

/-- The value of the output that is `age` rows old stands in the row that was written for it. -/
lemma Modified.value_eq (hm : Modified mem rrd out removeDS ops dsOps new values) (hsound : rrd.Sound)
    (hfits : FitsInt rrd ops) (ha : rrd.rra[j]? = some a) (hk : Kept rrd ops j a skipped added)
    (hkeep : (keepRra ops j a).isSome) {c age : ℕ} (hc : c < out.dsCnt)
    (hage : age < a.rraDef.rowCnt - skipped + added) :
    ∃ curRow, out.value (newRra rrd ops j) c age =
      ((modRow mem rrd dsOps a (resizeOf ops j) (finalRowCount a.rraDef.rowCnt (resizeOf ops j)) curRow
        ((rrd.dsCnt * keptRows ops 0 (rrd.rra.take j) : ℕ) : ℤ) (a.rraDef.rowCnt - skipped + added - 1 - age))[c]?).getD .nan := by
  have hready := ready hsound hfits
  have hfit : 0 + rrd.dsCnt * (rrd.rra.map (·.rraDef.rowCnt)).sum < 2 ^ 31 := by
    have := hfits.values
    rw [MemRrd.rowsBefore, List.take_length] at this
    rwa [Nat.zero_add, Nat.mul_comm]
  obtain ⟨a', ha', hout, hplace⟩ := hm.rra_at ha hkeep
  have hfinal := hk.u64_final
  obtain ⟨hrows, hcur⟩ : a'.rraDef.rowCnt = a.rraDef.rowCnt - skipped + added ∧
      a'.curRow = a.rraDef.rowCnt - skipped + added - 1 := by
    have hlt := hk.final_lt
    have hpos := hk.skipped_lt
    simp only [handleRraDef] at ha'
    split at ha'
    · cases ha'
    · cases ha'
      refine ⟨hfinal, ?_⟩
      dsimp only
      rw [hk.final, u64_of_lt (by omega) (by omega)]
      omega
  obtain ⟨blocks, hblocks⟩ : ∃ blocks, blocks = modRras mem rrd (keptRras rrd out.ds dsOps ops) dsOps ops 0 0 rrd.rra :=
    ⟨_, rfl⟩
  obtain ⟨curRow, hblock⟩ : ∃ curRow, blocks[newRra rrd ops j]? = some ((List.range (a.rraDef.rowCnt - skipped + added)).map
      (modRow mem rrd dsOps a (resizeOf ops j) (finalRowCount a.rraDef.rowCnt (resizeOf ops j)) curRow
        ((rrd.dsCnt * keptRows ops 0 (rrd.rra.take j) : ℕ) : ℤ))) := by
    have h := modRras_block mem (keptRras rrd out.ds dsOps ops) dsOps hready ha
      (by rwa [Nat.zero_add]) hfit
    simp only [Nat.zero_add, Nat.cast_zero, hfinal] at h
    rw [hblocks]
    exact h
  refine ⟨curRow, ?_⟩
  -- the rows before the archive are the blocks before it
  have hbefore : Blocks.before blocks (newRra rrd ops j) = out.rowsBefore (newRra rrd ops j) := by
    rw [Blocks.before, MemRrd.rowsBefore, hm.rra, List.take_append_of_le_length
      (List.getElem?_eq_some_iff.1 hplace).1.le, List.map_take, List.map_take, hblocks, length_modRras hready]
    rfl
  have hwidth : ∀ row ∈ blocks.flatten, row.length = out.dsCnt := by
    intro row hrow
    obtain ⟨block, hb, hmem⟩ := List.mem_flatten.1 hrow
    rw [hblocks] at hb
    rw [← hm.width]
    exact width_modRras hready block hb row hmem
  have hoi : a.rraDef.rowCnt - skipped + added - 1 - age < a.rraDef.rowCnt - skipped + added := by omega
  have hrow := Blocks.getElem?_flatten_block hblock (by rwa [List.length_map, List.length_range])
  rw [List.getElem?_map, List.getElem?_range hoi, Option.map_some, hbefore] at hrow
  have hcell := Blocks.getElem?_flatten_row hwidth hrow hc
  have hslot : (a'.curRow + a'.rraDef.rowCnt - age) % a'.rraDef.rowCnt = a.rraDef.rowCnt - skipped + added - 1 - age := by
    have hsum : a'.curRow + a'.rraDef.rowCnt - age =
        a.rraDef.rowCnt - skipped + added - 1 - age + (a.rraDef.rowCnt - skipped + added) := by omega
    rw [hsum, hrows, Nat.add_mod_right, Nat.mod_eq_of_lt hoi]
  obtain ⟨more, hvalues⟩ := hm.values_append
  rw [← hblocks] at hvalues
  have hlen := length_modRow mem dsOps hk hoi
    (finalRowCount a.rraDef.rowCnt (resizeOf ops j)) curRow ((rrd.dsCnt * keptRows ops 0 (rrd.rra.take j) : ℕ) : ℤ)
  rw [hm.width] at hlen
  have hsome := hcell.trans (List.getElem?_eq_getElem (hlen ▸ hc))
  simp only [MemRrd.value, hout, hslot, hm.rrdValue]
  rw [← hvalues, List.getD_eq_getElem?_getD, List.getElem?_append_left (List.getElem?_eq_some_iff.1 hsome).1, hcell]

/-- A data source that survives has a column in the output. -/
lemma Modified.newDs_lt (hm : Modified mem rrd out removeDS ops dsOps new values) {i : ℕ} {d : DataSource}
    (hd : rrd.ds[i]? = some d) (hkeep : (keepDs removeDS i d).isSome) : newDs rrd removeDS i < out.dsCnt := by
  obtain ⟨d', hd'⟩ := Option.isSome_iff_exists.1 hkeep
  have hplace := Compact.getElem?_keepFrom hd hd'
  exact (List.getElem?_eq_some_iff.1 hplace).1.trans_le hm.ds.length_le

/-- Its column is copied from its old one. -/
lemma Modified.column_kept {β : Type*} {old fresh : ℕ → β}
    (hm : Modified mem rrd out removeDS ops dsOps new values) {i : ℕ} {d : DataSource} (hd : rrd.ds[i]? = some d)
    (hkeep : (keepDs removeDS i d).isSome) : (columns old fresh dsOps)[newDs rrd removeDS i]? = some (old i) := by
  rw [columns, hm.dsOps_eq]
  refine (columnsFrom_kept hd hkeep).trans ?_
  rw [Nat.zero_add]

/-- The columns behind those that are copied. -/
lemma Modified.column_added {β : Type*} {old : ℕ → β} {v : β}
    (hm : Modified mem rrd out removeDS ops dsOps new values) {c : ℕ} (hc : newDs rrd removeDS rrd.dsCnt ≤ c)
    (hc' : c < out.dsCnt) : (columns old (fun _ => v) dsOps)[c]? = some v := by
  have hlen := hm.ds.length_le
  rw [newDs, Compact.newIdx, MemRrd.dsCnt, List.take_length] at hc
  rw [MemRrd.dsCnt] at hc'
  rw [columns, hm.dsOps_eq]
  exact columnsFrom_added hc (by omega)

lemma keptRows_le (ops : List RraModOp) (j : ℕ) (rras : List MemRra) :
    keptRows ops j rras ≤ (rras.map (·.rraDef.rowCnt)).sum := by
  induction rras generalizing j with
  | nil => exact le_rfl
  | cons b rras ih =>
    have := ih (j + 1)
    rw [keptRows_cons, List.map_cons, List.sum_cons]
    split <;> omega

/-- No row is missing exactly if no archive is. -/
lemma keptRows_eq_iff (ops : List RraModOp) (j : ℕ) {rras : List MemRra} (hpos : ∀ b ∈ rras, 1 ≤ b.rraDef.rowCnt) :
    keptRows ops j rras = (rras.map (·.rraDef.rowCnt)).sum ↔
      ∀ u b, rras[u]? = some b → (keepRra ops (j + u) b).isSome := by
  induction rras generalizing j with
  | nil => exact ⟨fun _ u b hb => (nomatch hb), fun _ => rfl⟩
  | cons b rras ih =>
    have hb := hpos b List.mem_cons_self
    have hle := keptRows_le ops (j + 1) rras
    have hrest := ih (j + 1) fun b' hb' => hpos b' (List.mem_cons_of_mem b hb')
    rw [keptRows_cons, List.map_cons, List.sum_cons]
    constructor
    · intro h u c hc
      have hkeep : (keepRra ops j b).isSome := by
        by_contra hno
        rw [if_neg hno] at h
        omega
      rw [if_pos hkeep] at h
      cases u with
      | zero =>
        cases hc
        exact hkeep
      | succ u =>
        have := hrest.1 (by omega) u c hc
        rwa [Nat.add_right_comm] at this
    · intro h
      have hkeep : (keepRra ops j b).isSome := h 0 b rfl
      have hsum := hrest.2 fun u c hc => by
        have := h (u + 1) c hc
        rwa [Nat.add_right_comm]
      rw [if_pos hkeep, hsum]

/-- Where the source reads the rows of the archive `j`. -/
def readFrom (rrd : MemRrd) (ops : List RraModOp) (j : ℕ) : ℕ := keptRows ops 0 (rrd.rra.take j)

/-- This is where they stand exactly if no archive before it is removed. -/
lemma readFrom_eq_iff (hsound : rrd.Sound) :
    readFrom rrd ops j = rrd.rowsBefore j ↔ ∀ u b, u < j → rrd.rra[u]? = some b → (keepRra ops u b).isSome := by
  have hiff := keptRows_eq_iff ops 0 fun b (hb : b ∈ rrd.rra.take j) => hsound.rowCnt b (List.mem_of_mem_take hb)
  refine hiff.trans ⟨fun h u b hu hb => ?_, fun h u b hb => ?_⟩
  · have := h u b (by rwa [List.getElem?_take_of_lt hu])
    rwa [Nat.zero_add] at this
  · have hu : u < j := by
      by_contra hge
      rw [List.getElem?_take_eq_none (by omega)] at hb
      cases hb
    rw [List.getElem?_take_of_lt hu] at hb
    rw [Nat.zero_add]
    exact h u b hu hb

lemma rowsBefore_succ (ha : rrd.rra[j]? = some a) :
    rrd.rowsBefore j + a.rraDef.rowCnt ≤ rrd.rowsBefore rrd.rra.length := by
  obtain ⟨hj, rfl⟩ := List.getElem?_eq_some_iff.1 ha
  have hsplit : rrd.rra = rrd.rra.take j ++ rrd.rra[j] :: rrd.rra.drop (j + 1) := by
    rw [List.getElem_cons_drop, List.take_append_drop]
  rw [MemRrd.rowsBefore, MemRrd.rowsBefore, List.take_length]
  conv_rhs => rw [hsplit]
  rw [List.map_append, List.sum_append, List.map_cons, List.sum_cons]
  omega

/-- A row that was there before is read from the rows behind those of the archives that survive. -/
lemma Modified.value_old (hm : Modified mem rrd out removeDS ops dsOps new values) (hsound : rrd.Sound)
    (hfits : FitsInt rrd ops) (ha : rrd.rra[j]? = some a) (hk : Kept rrd ops j a skipped added)
    (hkeep : (keepRra ops j a).isSome) {i : ℕ} {d : DataSource} (hd : rrd.ds[i]? = some d)
    (hkeepDs : (keepDs removeDS i d).isSome) {age : ℕ} (hage : age < a.rraDef.rowCnt)
    (hage' : age < a.rraDef.rowCnt - skipped + added) :
    out.value (newRra rrd ops j) (newDs rrd removeDS i) age =
      rrd.rrdValue ((readFrom rrd ops j + (a.curRow + a.rraDef.rowCnt - age) % a.rraDef.rowCnt) * rrd.dsCnt + i) := by
  obtain ⟨curRow, hvalue⟩ := hm.value_eq hsound hfits ha hk hkeep (hm.newDs_lt hd hkeepDs) hage'
  rw [hvalue, modRow_old hk hage hage', hm.column_kept hd hkeepDs, Option.getD_some]
  -- the index is in the array, and so it is in the range of the counts
  have hi : i < rrd.dsCnt := (List.getElem?_eq_some_iff.1 hd).1
  have hrow : (a.curRow + a.rraDef.rowCnt - age) % a.rraDef.rowCnt < a.rraDef.rowCnt := Nat.mod_lt _ hk.rowCnt
  have hle : readFrom rrd ops j ≤ rrd.rowsBefore j := keptRows_le ops 0 _
  have hsucc := rowsBefore_succ ha
  generalize (a.curRow + a.rraDef.rowCnt - age) % a.rraDef.rowCnt = row at hrow ⊢
  have hbound : (readFrom rrd ops j + row) * rrd.dsCnt + i < 2 ^ 31 :=
    calc (readFrom rrd ops j + row) * rrd.dsCnt + i
        < (readFrom rrd ops j + row + 1) * rrd.dsCnt := by rw [Nat.succ_mul]; omega
      _ ≤ rrd.rowsBefore rrd.rra.length * rrd.dsCnt := Nat.mul_le_mul_right _ (by omega)
      _ < 2 ^ 31 := hfits.values
  have hcast : ((rrd.dsCnt * keptRows ops 0 (rrd.rra.take j) : ℕ) : ℤ) + (row : ℤ) * rrd.dsCnt + i =
      (((readFrom rrd ops j + row) * rrd.dsCnt + i : ℕ) : ℤ) := by
    rw [readFrom]
    push_cast
    ring
  rw [hcast, u64_natCast (by omega)]

lemma Modified.populated_cell (hm : Modified mem rrd out removeDS ops dsOps new values) {c : ℕ} (hc : c < out.dsCnt)
    (rra : RraDef) (curRow : ℤ) (oi : ℕ) :
    (populateRow rrd (dsMap dsOps) rra curRow oi)[c]? =
      some (((populateRow rrd (dsMap dsOps) rra curRow oi)[c]?).getD .nan) := by
  have hlt : c < (populateRow rrd (dsMap dsOps) rra curRow oi).length := by rwa [length_populateRow, hm.width]
  rw [List.getElem?_eq_getElem hlt, Option.getD_some]

/-- A row that was not there before is filled from other archives. -/
lemma Modified.value_new (hm : Modified mem rrd out removeDS ops dsOps new values) (hsound : rrd.Sound)
    (hfits : FitsInt rrd ops) (ha : rrd.rra[j]? = some a) (hk : Kept rrd ops j a skipped added)
    (hkeep : (keepRra ops j a).isSome) {i : ℕ} {d : DataSource} (hd : rrd.ds[i]? = some d)
    (hkeepDs : (keepDs removeDS i d).isSome) {age : ℕ} (hage : a.rraDef.rowCnt ≤ age)
    (hage' : age < a.rraDef.rowCnt - skipped + added) :
    Populated rrd a i (out.value (newRra rrd ops j) (newDs rrd removeDS i) age) := by
  obtain ⟨curRow, hvalue⟩ := hm.value_eq hsound hfits ha hk hkeep (hm.newDs_lt hd hkeepDs) hage'
  rw [hvalue, modRow_new hk hage hage']
  have hall := populateRow_populated hsound a (dsMap dsOps)
    { a.rraDef with rowCnt := u64 (finalRowCount a.rraDef.rowCnt (resizeOf ops j)) } rfl curRow
    (a.rraDef.rowCnt - skipped + added - 1 - age)
  have hcell := hm.populated_cell (hm.newDs_lt hd hkeepDs)
    { a.rraDef with rowCnt := u64 (finalRowCount a.rraDef.rowCnt (resizeOf ops j)) } curRow
    (a.rraDef.rowCnt - skipped + added - 1 - age)
  have hmap : (dsMap dsOps).getD (newDs rrd removeDS i) none = some i := by
    rw [List.getD_eq_getElem?_getD, dsMap, hm.column_kept hd hkeepDs, Option.getD_some]
  exact (hall _ _ hcell).2 i hmap

/-- The column of a new data source. -/
lemma Modified.value_added (hm : Modified mem rrd out removeDS ops dsOps new values) (hsound : rrd.Sound)
    (hfits : FitsInt rrd ops) (ha : rrd.rra[j]? = some a) (hk : Kept rrd ops j a skipped added)
    (hkeep : (keepRra ops j a).isSome) {c : ℕ} (hc : newDs rrd removeDS rrd.dsCnt ≤ c) (hc' : c < out.dsCnt) {age : ℕ}
    (hage' : age < a.rraDef.rowCnt - skipped + added) : out.value (newRra rrd ops j) c age = .nan := by
  obtain ⟨curRow, hvalue⟩ := hm.value_eq hsound hfits ha hk hkeep hc' hage'
  rw [hvalue]
  by_cases hage : age < a.rraDef.rowCnt
  · rw [modRow_old hk hage hage', hm.column_added hc hc', Option.getD_some]
  · rw [modRow_new hk (by omega) hage']
    have hall := populateRow_populated hsound a (dsMap dsOps)
      { a.rraDef with rowCnt := u64 (finalRowCount a.rraDef.rowCnt (resizeOf ops j)) } rfl curRow
      (a.rraDef.rowCnt - skipped + added - 1 - age)
    have hcell := hm.populated_cell hc'
      { a.rraDef with rowCnt := u64 (finalRowCount a.rraDef.rowCnt (resizeOf ops j)) } curRow
      (a.rraDef.rowCnt - skipped + added - 1 - age)
    have hmap : (dsMap dsOps).getD c none = none := by
      rw [List.getD_eq_getElem?_getD, dsMap, hm.column_added hc hc', Option.getD_some]
    exact (hall _ _ hcell).1 hmap

/-! ### When the history is kept -/

lemma Modified.rowCnt_out (hk : Kept rrd ops j a skipped added) {ds : List DataSource} {a' : MemRra}
    (ha' : handleRraDef rrd ds dsOps ops j a = some a') :
    a'.rraDef.rowCnt = a.rraDef.rowCnt - skipped + added := by
  simp only [handleRraDef] at ha'
  split at ha'
  · cases ha'
  · cases ha'
    exact hk.u64_final

lemma Modified.cdpPrep_kept (hm : Modified mem rrd out removeDS ops dsOps new values) (hsound : rrd.Sound)
    (ha : rrd.rra[j]? = some a) {a' : MemRra} (ha' : handleRraDef rrd out.ds dsOps ops j a = some a') {i : ℕ}
    {d : DataSource} (hd : rrd.ds[i]? = some d) (hkeepDs : (keepDs removeDS i d).isSome) :
    a'.cdpPrep[newDs rrd removeDS i]? = a.cdpPrep[i]? := by
  have hi : i < a.cdpPrep.length := by
    rw [hsound.cdpPrep a (List.mem_of_getElem? ha)]
    exact (List.getElem?_eq_some_iff.1 hd).1
  simp only [handleRraDef] at ha'
  split at ha'
  · cases ha'
  · cases ha'
    rw [hm.column_kept hd hkeepDs, List.getD_eq_getElem?_getD, List.getElem?_eq_getElem hi, Option.getD_some]

lemma historyKept_of_removesBehind {addDS : List Text} {hash : ℕ} (hsound : rrd.Sound) (hfits : FitsInt rrd ops)
    (h : rrdModifyStructure mem rrd removeDS addDS ops hash = .ok out) (hbehind : RemovesBehind rrd removeDS ops) :
    HistoryKept rrd out removeDS ops := by
  refine ⟨fun i d hd hkeepDs => ?_, fun j a ha hkeep => ?_⟩
  · rw [ds_copied h hd hkeepDs]
    rfl
  · obtain ⟨dsOps, new, values, hm⟩ := rrdModifyStructure_modified h
    obtain ⟨skipped, added, hk⟩ := exists_kept hsound hfits ha hkeep
    obtain ⟨a', ha', hout, -⟩ := hm.rra_at ha hkeep
    have hrows := Modified.rowCnt_out hk ha'
    refine ⟨a', hout, fun i d hd hkeepDs age hage => ?_, fun i d hd hkeepDs age hage hage' => ?_,
      fun c hc hc' age hage => ?_, fun i d hd hkeepDs => hm.cdpPrep_kept hsound ha ha' hd hkeepDs⟩
    · have hread := (readFrom_eq_iff hsound).2 (hbehind ⟨i, d, hd, hkeepDs⟩ j a ha hkeep)
      rw [lt_min_iff, hrows] at hage
      rw [hm.value_old hsound hfits ha hk hkeep hd hkeepDs hage.1 hage.2, hread]
      simp only [MemRrd.value, ha]
    · exact hm.value_new hsound hfits ha hk hkeep hd hkeepDs hage (hrows ▸ hage')
    · exact hm.value_added hsound hfits ha hk hkeep hc hc' (hrows ▸ hage)

/-- The same database with other values. -/
def MemRrd.withValues (rrd : MemRrd) (v : ℕ → RrdValue) : MemRrd := { rrd with rrdValue := v }

/-- Whether a modification is accepted does not depend on the values. -/
lemma accepted_withValues {addDS : List Text} {hash : ℕ}
    (h : rrdModifyStructure mem rrd removeDS addDS ops hash = .ok out) (v : ℕ → RrdValue) :
    ∃ out', rrdModifyStructure mem (rrd.withValues v) removeDS addDS ops hash = .ok out' := by
  have hkept : ∀ ds dsOps, handleRraDefs (rrd.withValues v) ds dsOps ops 0 (rrd.withValues v).rra =
      handleRraDefs rrd ds dsOps ops 0 rrd.rra := by
    intro ds dsOps
    rw [handleRraDefs_eq, handleRraDefs_eq]
    rfl
  simp only [rrdModifyStructure, hkept] at h ⊢
  split at h
  case isTrue => cases h
  case isFalse hversion =>
    obtain ⟨⟨ds, failed⟩, hds, h⟩ := bind_eq_ok h
    obtain ⟨⟨rras, required⟩, hrras, h⟩ := bind_eq_ok h
    have hversion' : ¬ ((rrd.withValues v).version < 3 ∨ 5 < (rrd.withValues v).version) := hversion
    have hds' : addDss mem (rrd.withValues v).lastUp (rrd.withValues v).pdpStep
        ((rrd.withValues v).ds.filter fun d => d.dsDef.dsNam ∉ removeDS) addDS = .ok (ds, failed) := hds
    rw [if_neg hversion', hds', ok_bind]
    exact ⟨_, congrArg (· >>= _) hrras⟩

lemma removesBehind_of_historyKept {addDS : List Text} {hash : ℕ} (hsound : rrd.Sound) (hfits : FitsInt rrd ops)
    (hvalues : rrd.rrdValue = fun k => .fin (k : ℚ))
    (h : rrdModifyStructure mem rrd removeDS addDS ops hash = .ok out) (hkept : HistoryKept rrd out removeDS ops) :
    RemovesBehind rrd removeDS ops := by
  rintro ⟨i, d, hd, hkeepDs⟩ j a ha hkeep
  obtain ⟨dsOps, new, values, hm⟩ := rrdModifyStructure_modified h
  obtain ⟨skipped, added, hk⟩ := exists_kept hsound hfits ha hkeep
  obtain ⟨a', ha', hout, -⟩ := hm.rra_at ha hkeep
  obtain ⟨a'', hout', hold, -⟩ := hkept.rra j a ha hkeep
  rw [hout] at hout'
  cases hout'
  have hrows := Modified.rowCnt_out hk ha'
  have hpos := hk.rowCnt
  have hlt := hk.skipped_lt
  -- the current row shows where the rows were read
  have hvalue := hold i d hd hkeepDs 0 (by omega)
  rw [hm.value_old hsound hfits ha hk hkeep hd hkeepDs (by omega) (by omega)] at hvalue
  simp only [MemRrd.value, ha, hvalues, ExtNum.fin.injEq, Nat.cast_inj] at hvalue
  have hcnt : 0 < rrd.dsCnt := Nat.zero_lt_of_lt (List.getElem?_eq_some_iff.1 hd).1
  have hsum := Nat.eq_of_mul_eq_mul_right hcnt (Nat.add_right_cancel hvalue)
  exact (readFrom_eq_iff hsound).1 (Nat.add_right_cancel hsum)

/-- An accepted modification keeps the history, whatever the values are, exactly if no archive is removed before one
that survives. -/
theorem rrdModifyStructure_history_iff (mem : Memory) (rrd : MemRrd) (removeDS addDS : List Text) (ops : List RraModOp)
    (hash : ℕ) (hsound : rrd.Sound) (hfits : FitsInt rrd ops)
    (hok : (rrdModifyStructure mem rrd removeDS addDS ops hash).toOption.isSome) :
    (∀ v out, rrdModifyStructure mem (rrd.withValues v) removeDS addDS ops hash = .ok out →
      HistoryKept (rrd.withValues v) out removeDS ops) ↔ RemovesBehind rrd removeDS ops := by
  have hsound' : ∀ v, (rrd.withValues v).Sound := fun v => ⟨hsound.rowCnt, hsound.curRow, hsound.cdpPrep⟩
  have hfits' : ∀ v, FitsInt (rrd.withValues v) ops := fun v => ⟨hfits.values, hfits.rowCnt, hfits.resize⟩
  constructor
  · intro hkept
    obtain ⟨out, h⟩ := exists_ok hok
    obtain ⟨out', h'⟩ := accepted_withValues h fun k => .fin (k : ℚ)
    have hbehind := removesBehind_of_historyKept (hsound' _) (hfits' _) rfl h' (hkept _ out' h')
    exact hbehind
  · intro hbehind v out h
    exact historyKept_of_removesBehind (hsound' v) (hfits' v) h hbehind

/-- One data source and two archives of averages, of two and of three rows, whose values tell their place. -/
def placesRrd : MemRrd where
  version := 3
  pdpStep := 300
  lastUp := 3600
  lastUpUsec := 0
  ds := [⟨gaugeDs ['a'] 600, resetPdpPrep 3600 300⟩]
  rra := [⟨plainRra .average 2 1 0, [.zero], 0⟩, ⟨plainRra .average 3 2 0, [.zero], 1⟩]
  rrdValue := fun k => .fin (k : ℚ)

lemma placesRrd_sound : placesRrd.Sound := ⟨by decide, by decide, by decide⟩

/-- `DELRRA:j`. -/
lemma placesRrd_fitsInt (j : ℕ) : FitsInt placesRrd [.resize j .set 0] := by
  refine ⟨by decide, by decide, fun i a op n _ h => ?_⟩
  simp only [resizeOf, List.findSome?_cons, List.findSome?_nil] at h
  split at h
  case h_1 hop =>
    split at hop
    · cases hop
      cases h
      exact ⟨by decide, nofun⟩
    · cases hop
  case h_2 => cases h

theorem rrdModifyStructure_history_iff_places :
    (∀ v out, rrdModifyStructure noMemory (placesRrd.withValues v) [] [] [.resize 1 .set 0] 0 = .ok out →
      HistoryKept (placesRrd.withValues v) out [] [.resize 1 .set 0]) ↔
      RemovesBehind placesRrd [] [.resize 1 .set 0] :=
  rrdModifyStructure_history_iff _ _ _ _ _ _ placesRrd_sound (placesRrd_fitsInt 1) (by decide +kernel)

/-- When the first archive is removed, the second one gets its rows. -/
theorem rrdModifyStructure_moves_rows :
    ∃ out, rrdModifyStructure noMemory placesRrd [] [] [.resize 0 .set 0] 0 = .ok out ∧
      ¬ HistoryKept placesRrd out [] [.resize 0 .set 0] := by
  obtain ⟨out, h⟩ := exists_ok
    (show (rrdModifyStructure noMemory placesRrd [] [] [.resize 0 .set 0] 0).toOption.isSome by decide +kernel)
  refine ⟨out, h, fun hkept => ?_⟩
  have hbehind := removesBehind_of_historyKept placesRrd_sound (placesRrd_fitsInt 0) rfl h hkept
  exact absurd (hbehind ⟨0, _, rfl, by decide +kernel⟩ 1 _ rfl (by decide +kernel) 0 _ zero_lt_one rfl) (by decide +kernel)

end Rrdtool
