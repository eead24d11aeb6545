import Rrdtool.Resize.Moving

/-!
# The rows that a resize moves

The values of a database are those before an archive, its rows, and those behind it (`rrdValues_eq`). `moveValues`
leaves the others as they are and writes the rows that the archive gets (`moveValues_eq`), if they fit into the new
file.
-/

namespace Rrdtool

/-! ### The values of the archives -/

section Values
variable {rrd : MemRrd} {target : ℕ} {rra : MemRra}

/-- The values of a database. -/
@[grind] def rrdValues (rrd : MemRrd) : List RrdValue :=
  (List.range (rrd.rowsBefore rrd.rra.length * rrd.dsCnt)).map rrd.rrdValue

/-- The values before an archive and behind it. -/
@[grind] def valuesBefore (rrd : MemRrd) (target : ℕ) : List RrdValue :=
  (List.range (rrd.rowsBefore target * rrd.dsCnt)).map rrd.rrdValue

@[grind] def valuesBehind (rrd : MemRrd) (target : ℕ) : List RrdValue :=
  (List.range ((rrd.rowsBefore rrd.rra.length - rrd.rowsBefore (target + 1)) * rrd.dsCnt)).map fun j =>
    rrd.rrdValue (rrd.rowsBefore (target + 1) * rrd.dsCnt + j)

/-- The rows of an archive. -/
@[grind] def archiveRows (rrd : MemRrd) (target rowCnt : ℕ) : List (List RrdValue) :=
  (List.range rowCnt).map fun row =>
    (List.range rrd.dsCnt).map fun d => rrd.rrdValue ((rrd.rowsBefore target + row) * rrd.dsCnt + d)

lemma rowsBefore_mono (rrd : MemRrd) {j k : ℕ} (h : j ≤ k) : rrd.rowsBefore j ≤ rrd.rowsBefore k := by
  rw [MemRrd.rowsBefore, MemRrd.rowsBefore]
  exact ((List.take_sublist_take_left h).map _).sum_le_sum fun _ _ => Nat.zero_le _

lemma rrdValues_eq (hrra : rrd.rra[target]? = some rra) :
    rrdValues rrd =
      valuesBefore rrd target ++ (archiveRows rrd target rra.rraDef.rowCnt).flatten ++ valuesBehind rrd target := by
  have hsucc := rowsBefore_succ' hrra
  have hle := rowsBefore_mono rrd (show target + 1 ≤ rrd.rra.length from (List.getElem?_eq_some_iff.1 hrra).1)
  have htotal : rrd.rowsBefore rrd.rra.length * rrd.dsCnt = rrd.rowsBefore target * rrd.dsCnt +
      rra.rraDef.rowCnt * rrd.dsCnt + (rrd.rowsBefore rrd.rra.length - rrd.rowsBefore (target + 1)) * rrd.dsCnt := by
    rw [← add_mul, ← add_mul, ← hsucc, Nat.add_sub_cancel' hle]
  have hrows : (archiveRows rrd target rra.rraDef.rowCnt).flatten =
      (List.range (rra.rraDef.rowCnt * rrd.dsCnt)).map fun j => rrd.rrdValue (rrd.rowsBefore target * rrd.dsCnt + j) := by
    rw [Blocks.map_range_mul, archiveRows]
    simp only [add_mul, add_assoc]
  rw [rrdValues, htotal, List.range_add, List.range_add, List.map_append, List.map_append, List.map_map, List.map_map, hrows,
    valuesBefore, valuesBehind, hsucc, add_mul]
  rfl

lemma length_archiveRows (rrd : MemRrd) (target rowCnt : ℕ) : (archiveRows rrd target rowCnt).length = rowCnt := by
  rw [archiveRows, List.length_map, List.length_range]

lemma width_archiveRows {rowCnt : ℕ} {row : List RrdValue} (h : row ∈ archiveRows rrd target rowCnt) :
    row.length = rrd.dsCnt := by
  obtain ⟨-, -, rfl⟩ := List.mem_map.1 h
  rw [List.length_map, List.length_range]

/-- The values of the file, archive by archive. -/
lemma rowItems_eq (rrd : MemRrd) :
    (List.range rrd.rra.length).flatMap (fun k => rowItems rrd (rrd.rowsBefore k) (rrd.rowCntAt k)) =
      (rrdValues rrd).map .value := by
  have hfirst : ∀ n ≤ rrd.rra.length,
      (List.range n).flatMap (fun k => rowItems rrd (rrd.rowsBefore k) (rrd.rowCntAt k)) =
        (List.range (rrd.rowsBefore n * rrd.dsCnt)).map fun j => .value (rrd.rrdValue j) := by
    intro n hn
    induction n with
    | zero => simp [MemRrd.rowsBefore]
    | succ n ih =>
      have hrra := List.getElem?_eq_getElem (show n < rrd.rra.length from hn)
      have hcnt : rrd.rowCntAt n = (rrd.rra[n]).rraDef.rowCnt := by
        rw [MemRrd.rowCntAt, hrra]
        rfl
      rw [List.range_succ, List.flatMap_append, ih (by omega), List.flatMap_singleton, rowItems, rowsBefore_succ' hrra, hcnt,
        add_mul, List.range_add, List.map_append, List.map_map]
      rfl
  rw [hfirst _ le_rfl, rrdValues, List.map_map]
  rfl

end Values

/-! ### What is moved -/

/-- The rows of the archive after it was resized, and the current one. -/
@[grind] def resizedRows (dsCnt : ℕ) (rows : List (List RrdValue)) (cur : ℕ) (modify : ℤ) : List (List RrdValue) × ℕ :=
  if 0 < modify then
    (rows.take (cur + 1) ++ List.replicate modify.toNat (List.replicate dsCnt .nan) ++ rows.drop (cur + 1), cur)
  else Unroll.shrink rows cur (-modify).toNat

/-- The archive is there, and rows are added to it or some of its rows are left; the old file is one. -/
structure Resizable (rrd : MemRrd) (target : ℕ) (rra : MemRra) (modify : ℤ) : Prop where
  get : rrd.rra[target]? = some rra
  curRow : rra.curRow < rra.rraDef.rowCnt
  ne : modify ≠ 0
  lt : -modify < rra.rraDef.rowCnt
  values : rrd.rowsBefore rrd.rra.length * rrd.dsCnt < 2 ^ 61
  rowCnt : rra.rraDef.rowCnt < 2 ^ 63
  modify : modify < 2 ^ 63

section Moved
variable {rrd : MemRrd} {target : ℕ} {rra : MemRra} {modify : ℤ}

/-- The rows that the archive gets. -/
@[grind] def newRows (rrd : MemRrd) (target : ℕ) (rra : MemRra) (modify : ℤ) : List (List RrdValue) × ℕ :=
  resizedRows rrd.dsCnt (archiveRows rrd target rra.rraDef.rowCnt) rra.curRow modify

/-- The values of the new file. -/
@[grind] def newValues (rrd : MemRrd) (target : ℕ) (rra : MemRra) (modify : ℤ) : List RrdValue :=
  valuesBefore rrd target ++ (newRows rrd target rra modify).1.flatten ++ valuesBehind rrd target

lemma width_newRows {row : List RrdValue} (h : row ∈ (newRows rrd target rra modify).1) : row.length = rrd.dsCnt := by
  rw [newRows, resizedRows] at h
  split_ifs at h
  · obtain (htake | hfresh) | hdrop := by simpa only [List.mem_append] using h
    · exact width_archiveRows (List.mem_of_mem_take htake)
    · rw [(List.mem_replicate.1 hfresh).2, List.length_replicate]
    · exact width_archiveRows (List.mem_of_mem_drop hdrop)
  · exact width_archiveRows (Unroll.mem_of_mem_shrink h)

lemma length_newRows (h : Resizable rrd target rra modify) :
    ((newRows rrd target rra modify).1.length : ℤ) = rra.rraDef.rowCnt + modify := by
  have hlen := length_archiveRows rrd target rra.rraDef.rowCnt
  have hcur := h.curRow
  have hlt := h.lt
  rw [newRows, resizedRows]
  split_ifs with hgrow
  · simp only [List.length_append, List.length_take, List.length_drop, List.length_replicate, hlen]
    omega
  · rw [Unroll.length_shrink (hlen.symm ▸ hcur) (by omega), hlen]
    omega

lemma newRows_cur_lt (h : Resizable rrd target rra modify) :
    ((newRows rrd target rra modify).2 : ℤ) < rra.rraDef.rowCnt + modify := by
  have hlen := length_archiveRows rrd target rra.rraDef.rowCnt
  have hcur := h.curRow
  have hlt := h.lt
  rw [newRows, resizedRows]
  split_ifs with hgrow
  · dsimp only
    omega
  · have hshrink := Unroll.shrink_cur_lt rra.curRow
      (show (-modify).toNat < (archiveRows rrd target rra.rraDef.rowCnt).length by omega)
    omega

lemma foldl_add_mod {α : Type} (f : α → ℕ) (m : ℕ) (l : List α) (acc : ℕ) :
    l.foldl (fun acc a => (acc + f a) % m) (acc % m) = (acc + (l.map f).sum) % m := by
  induction l generalizing acc with
  | nil => rfl
  | cons a l ih => rw [List.foldl_cons, Nat.mod_add_mod, ih, List.map_cons, List.sum_cons, add_assoc]

/-- `l` for the archives before the one to be resized. -/
lemma valueCnt_eq (rrd : MemRrd) (n : ℕ) :
    (rrd.rra.take n).foldl (fun l rra => (l + rrd.dsCnt * rra.rraDef.rowCnt) % 2 ^ 64) 0 =
      rrd.rowsBefore n * rrd.dsCnt % 2 ^ 64 := by
  have h := foldl_add_mod (fun rra : MemRra => rrd.dsCnt * rra.rraDef.rowCnt) (2 ^ 64) (rrd.rra.take n) 0
  rw [Nat.zero_mod, zero_add] at h
  rw [h, MemRrd.rowsBefore, mul_comm, ← List.sum_map_mul_left]

lemma fileWords_valueItems (rrd : MemRrd) : fileWords (valueItems rrd) = (rrdValues rrd).map valueWord := by
  rw [← fileWords_values, rrdValues, List.map_map]
  rfl

/-- The rows of the archive: what is written of them, and what is left to be moved. -/
lemma moveArchive (st : Resize) (h : Resizable rrd target rra modify) {n : ℕ} {words rest : List FileWord}
    (hout : Written n words st.out) (hcnt : st.rowCnt = rra.rraDef.rowCnt) (hcur : st.curRow = rra.curRow)
    (hmodify : st.modify = modify)
    (hinput : st.input = ((archiveRows rrd target rra.rraDef.rowCnt).map (·.map valueWord)).flatten ++ rest)
    (hfit : words.length + (newRows rrd target rra modify).1.length * rrd.dsCnt ≤ n) (hn : n < 2 ^ 61) :
    ∃ moved left st', (if 0 < modify then growRra rrd.dsCnt st else shrinkRra rrd.dsCnt st) = st' ∧
      st'.input = left ++ rest ∧ moved ++ left = (newRows rrd target rra modify).1.flatten.map valueWord ∧
      Written n (words ++ moved) st'.out ∧ (st'.rowCnt + st'.modify : ℤ) = rra.rraDef.rowCnt + modify ∧
      st'.curRow = (newRows rrd target rra modify).2 := by
  obtain ⟨rows, hrows⟩ : ∃ rows, rows = archiveRows rrd target rra.rraDef.rowCnt := ⟨_, rfl⟩
  have hlen : rows.length = rra.rraDef.rowCnt := hrows ▸ length_archiveRows rrd target _
  have hw : ∀ row ∈ rows.map (·.map valueWord), row.length = rrd.dsCnt := by
    intro row hrow
    obtain ⟨row', hrow', rfl⟩ := List.mem_map.1 hrow
    rw [hrows] at hrow'
    rw [List.length_map, width_archiveRows hrow']
  have hlen' : (rows.map (·.map valueWord)).length = rra.rraDef.rowCnt := (List.length_map _).trans hlen
  have hcurRow := h.curRow
  have hlt := h.lt
  have hnew : ((newRows rrd target rra modify).1.length : ℤ) = rra.rraDef.rowCnt + modify := length_newRows h
  rw [← hrows] at hinput
  by_cases hgrow : 0 < modify
  · have hroom : st.curRow + 1 + st.modify.toNat ≤ (newRows rrd target rra modify).1.length := by
      rw [hcur, hmodify]
      omega
    obtain ⟨out, heq, hwritten⟩ := growRra_eq st hw hout hinput (by rw [hlen', hcur]; exact hcurRow)
      (by rw [hmodify]; omega)
      ((Nat.add_le_add_left (Nat.mul_le_mul_right rrd.dsCnt hroom) _).trans hfit) (by omega)
    rw [List.append_assoc] at hwritten
    refine ⟨_, _, _, (if_pos hgrow).trans heq, rfl, ?_, hwritten, ?_, ?_⟩
    · rw [newRows, resizedRows, if_pos hgrow, ← hrows, hcur, hmodify]
      simp only [List.flatten_append, List.map_append, List.map_flatten, List.map_take, List.map_drop, List.map_replicate,
        List.flatten_replicate_replicate, List.append_assoc, valueWord]
    · rw [← hcnt, ← hmodify]
    · rw [newRows, resizedRows, if_pos hgrow]
      exact hcur
  · obtain ⟨k, hk⟩ : ∃ k : ℕ, modify = -k := ⟨modify.natAbs, by omega⟩
    have hne := h.ne
    have hsize := h.rowCnt
    have hleft : (rows.map (·.map valueWord)).length - k = (newRows rrd target rra modify).1.length := by
      rw [hlen']
      omega
    obtain ⟨moved, left, buffer, out, heq, hmoved, hwritten⟩ := shrinkRra_eq st (k := k) hw hout hinput
      (by rw [hcnt, hlen']) (by rw [hlen', hcur]; exact hcurRow) (hmodify.trans hk) (by omega) (by rw [hlen']; omega)
      (by rw [hlen']; omega)      (by rw [hleft]; exact hfit)
    have hshrink : newRows rrd target rra modify = Unroll.shrink rows st.curRow k := by
      rw [newRows, resizedRows, if_neg hgrow, ← hrows, hcur, hk, neg_neg, Int.toNat_natCast]
    rw [Unroll.shrink_map] at hmoved
    refine ⟨_, _, _, (if_neg hgrow).trans heq, rfl, ?_, hwritten, ?_, ?_⟩
    · rw [hshrink, ← List.flatten_append, hmoved, List.map_flatten]
    · dsimp only
      rw [hleft, ← hnew, add_zero]
    · dsimp only
      rw [Unroll.shrink_map, hshrink]

/-- The values that are moved, and what is known of the archive then. -/
lemma moveValues_eq (h : Resizable rrd target rra modify) {behind : List FileWord} {torn : Bool} {n : ℕ} {words : List FileWord}
    {out : CreatedFile} (hout : Written n words out)
    (hfit : words.length + (newValues rrd target rra modify).length = n) (hn : n < 2 ^ 61) :
    (moveValues ⟨rrd, behind, torn⟩ target rra modify out).out.words =
        words ++ (newValues rrd target rra modify).map valueWord ∧
      (moveValues ⟨rrd, behind, torn⟩ target rra modify out).rowCnt = (newRows rrd target rra modify).1.length ∧
      (moveValues ⟨rrd, behind, torn⟩ target rra modify out).curRow = (newRows rrd target rra modify).2 := by
  have hvalues := h.values
  have hbefore : (rrd.rra.take target).foldl (fun l rra => (l + rrd.dsCnt * rra.rraDef.rowCnt) % 2 ^ 64) 0 =
      ((valuesBefore rrd target).map valueWord).length := by
    have hle := Nat.mul_le_mul_right rrd.dsCnt (rowsBefore_mono rrd (List.getElem?_eq_some_iff.1 h.get).1.le)
    rw [valueCnt_eq, List.length_map, valuesBefore, List.length_map, List.length_range, Nat.mod_eq_of_lt (by omega)]
  have hrest : fileWords (valueItems rrd) ++ behind = (valuesBefore rrd target).map valueWord ++
      (((archiveRows rrd target rra.rraDef.rowCnt).map (·.map valueWord)).flatten ++
        ((valuesBehind rrd target).map valueWord ++ behind)) := by
    rw [fileWords_valueItems, rrdValues_eq h.get]
    simp only [List.map_append, List.map_flatten, List.append_assoc]
  have hflat : (newRows rrd target rra modify).1.flatten.length = (newRows rrd target rra modify).1.length * rrd.dsCnt :=
    Blocks.length_flatten fun row hrow => width_newRows hrow
  rw [newValues, List.length_append, List.length_append, hflat] at hfit
  obtain ⟨buffer, out', hmove, hwritten⟩ := moveValue_iterate
    ⟨fileWords (valueItems rrd) ++ behind, .zero, out, rra.rraDef.rowCnt, rra.curRow, modify⟩ hout hrest
    (by rw [List.length_map]; omega)
  obtain ⟨moved, left, st', heq, hinput, hmoved, hout', hcnt, hcur⟩ := moveArchive ⟨_, buffer, out', _, _, _⟩ h
    hwritten rfl rfl rfl rfl (by rw [List.length_append, List.length_map]; omega) hn
  have hmovedLen : moved.length + left.length = (newRows rrd target rra modify).1.length * rrd.dsCnt := by
    rw [← hflat, ← List.length_append, hmoved, List.length_map]
  have hstate : moveValues ⟨rrd, behind, torn⟩ target rra modify out =
      { st' with out := moveRest torn st'.input st'.out, rowCnt := u64 (st'.rowCnt + st'.modify) } := by
    rw [← heq, moveValues, hbefore]
    dsimp only
    rw [hmove]
  rw [hstate]
  refine ⟨?_, ?_, hcur⟩
  · dsimp only
    rw [hinput, ← List.append_assoc, moveRest_append torn hout' (by
      simp only [List.length_append, List.length_map]
      omega), newValues]
    simp only [List.map_append, ← hmoved, List.append_assoc]
  · have hlen := length_newRows h
    have hrowCnt := h.rowCnt
    have hmodify := h.modify
    dsimp only
    rw [hcnt, ← hlen, u64_natCast (by omega)]

end Moved

end Rrdtool
