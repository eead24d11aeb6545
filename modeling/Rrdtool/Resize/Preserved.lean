import Rrdtool.Modify.History
import Rrdtool.Resize.Rows

/-!
# A resized database

What `rrd_resize` writes is the database with other rows in one archive (`rrdResize_preserves_iff`), for files of
version 3 and 4 whose length can be counted. A file of version 1 gets the header of version 3, but its length is
that of a header of version 1: the last eight bytes are missing.
-/

namespace Rrdtool

variable {rrd : MemRrd} {target : ℕ} {rra : MemRra} {modify : ℤ}

/-! ### The counts -/

section SetRows
variable {rowCnt curRow : ℕ}

lemma setRows_getElem?_ne {j : ℕ} (hj : j ≠ target) : (rrd.setRows target rowCnt curRow).rra[j]? = rrd.rra[j]? :=
  List.getElem?_modify_ne _ _ hj.symm

lemma setRows_getElem? (hrra : rrd.rra[target]? = some rra) : (rrd.setRows target rowCnt curRow).rra[target]? =
    some { rra with rraDef := { rra.rraDef with rowCnt := rowCnt }, curRow := curRow } := by
  rw [MemRrd.setRows, List.getElem?_modify_eq, hrra]
  rfl

lemma length_setRows : (rrd.setRows target rowCnt curRow).rra.length = rrd.rra.length := List.length_modify _ _ _

lemma setRows_cdpPrep : (rrd.setRows target rowCnt curRow).rra.map (·.cdpPrep) = rrd.rra.map (·.cdpPrep) := by
  refine List.ext_getElem? fun j => ?_
  rw [List.getElem?_map, List.getElem?_map]
  obtain rfl | hj := eq_or_ne j target
  · rw [MemRrd.setRows, List.getElem?_modify_eq]
    cases rrd.rra[j]? <;> rfl
  · rw [setRows_getElem?_ne hj]

lemma rowsBefore_setRows {j : ℕ} (hj : j ≤ target) : (rrd.setRows target rowCnt curRow).rowsBefore j = rrd.rowsBefore j := by
  have htake : (rrd.setRows target rowCnt curRow).rra.take j = rrd.rra.take j := by
    refine List.ext_getElem? fun i => ?_
    rw [List.getElem?_take, List.getElem?_take]
    split_ifs with hi
    · exact setRows_getElem?_ne (by omega)
    · rfl
  rw [MemRrd.rowsBefore, MemRrd.rowsBefore, htake]

lemma rowsBefore_setRows_lt (hrra : rrd.rra[target]? = some rra) {j : ℕ} (hj : target < j) (hle : j ≤ rrd.rra.length) :
    (rrd.setRows target rowCnt curRow).rowsBefore j = rrd.rowsBefore j - rrd.rowsBefore (target + 1) +
      (rrd.rowsBefore target + rowCnt) := by
  induction j, hj using Nat.le_induction with
  | base => rw [rowsBefore_succ' (setRows_getElem? hrra), rowsBefore_setRows le_rfl, Nat.sub_self, zero_add]
  | succ j hj ih =>
    have hget : rrd.rra[j]? = some rrd.rra[j] := List.getElem?_eq_getElem hle
    have hmono : rrd.rowsBefore (target + 1) ≤ rrd.rowsBefore j := rowsBefore_mono rrd hj
    rw [rowsBefore_succ' ((setRows_getElem?_ne (by omega)).trans hget), ih (by omega), rowsBefore_succ' hget]
    omega

end SetRows

/-- Places of values, row by row. -/
lemma place_lt {a b w c : ℕ} (h : a < b) (hc : c < w) : a * w + c < b * w :=
  calc a * w + c < (a + 1) * w := by rw [Nat.succ_mul]; omega
    _ ≤ b * w := Nat.mul_le_mul_right w h

/-! ### The values -/

section Places

lemma length_valuesBefore (rrd : MemRrd) (target : ℕ) :
    (valuesBefore rrd target).length = rrd.rowsBefore target * rrd.dsCnt := by
  rw [valuesBefore, List.length_map, List.length_range]

lemma length_newFlat (rrd : MemRrd) (target : ℕ) (rra : MemRra) (modify : ℤ) :
    (newRows rrd target rra modify).1.flatten.length = (newRows rrd target rra modify).1.length * rrd.dsCnt :=
  Blocks.length_flatten fun _ hrow => width_newRows hrow

lemma newValues_before {k : ℕ} (hk : k < rrd.rowsBefore target * rrd.dsCnt) :
    (newValues rrd target rra modify).getD k .nan = rrd.rrdValue k := by
  rw [newValues, List.append_assoc, List.getD_eq_getElem?_getD,
    List.getElem?_append_left (by rwa [length_valuesBefore]), valuesBefore, List.getElem?_map, List.getElem?_range hk]
  rfl

lemma newValues_row {j c : ℕ} {row : List RrdValue} (hrow : (newRows rrd target rra modify).1[j]? = some row)
    (hc : c < rrd.dsCnt) :
    (newValues rrd target rra modify).getD ((rrd.rowsBefore target + j) * rrd.dsCnt + c) .nan = row.getD c .nan := by
  have hj := (List.getElem?_eq_some_iff.1 hrow).1
  rw [newValues, List.append_assoc, add_mul, add_assoc, ← length_valuesBefore, List.getD_eq_getElem?_getD,
    List.getElem?_append_right (Nat.le_add_right _ _), Nat.add_sub_cancel_left,
    List.getElem?_append_left (by rw [length_newFlat]; exact place_lt hj hc),
    Blocks.getElem?_flatten_row (fun _ hrow => width_newRows hrow) hrow hc, List.getD_eq_getElem?_getD]

lemma newValues_behind {j c : ℕ} (hj : j < rrd.rowsBefore rrd.rra.length - rrd.rowsBefore (target + 1))
    (hc : c < rrd.dsCnt) :
    (newValues rrd target rra modify).getD
        ((j + (rrd.rowsBefore target + (newRows rrd target rra modify).1.length)) * rrd.dsCnt + c) .nan =
      rrd.rrdValue ((rrd.rowsBefore (target + 1) + j) * rrd.dsCnt + c) := by
  have hlen : (valuesBefore rrd target ++ (newRows rrd target rra modify).1.flatten).length =
      (rrd.rowsBefore target + (newRows rrd target rra modify).1.length) * rrd.dsCnt := by
    rw [List.length_append, length_valuesBefore, length_newFlat, add_mul]
  rw [newValues, add_comm j, add_mul _ j, ← hlen, add_assoc, List.getD_eq_getElem?_getD,
    List.getElem?_append_right (Nat.le_add_right _ _), Nat.add_sub_cancel_left, valuesBehind, List.getElem?_map,
    List.getElem?_range (place_lt hj hc), add_mul, add_assoc]
  rfl

lemma length_newValues (h : Resizable rrd target rra modify) : ((newValues rrd target rra modify).length : ℤ) =
    rrd.dsCnt * (rrd.rowsBefore rrd.rra.length + modify) := by
  have hsucc := rowsBefore_succ' h.get
  have hle := rowsBefore_mono rrd (show target + 1 ≤ rrd.rra.length from (List.getElem?_eq_some_iff.1 h.get).1)
  rw [newValues, List.length_append, List.length_append, length_valuesBefore, length_newFlat, valuesBehind, List.length_map,
    List.length_range, ← add_mul, ← add_mul, Nat.cast_mul, Nat.cast_add, Nat.cast_add, length_newRows h, Nat.cast_sub hle,
    hsucc, Nat.cast_add]
  ring

end Places

/-! ### The resized database -/

/-- What was written, as a database. -/
def resizedRrd (rrd : MemRrd) (target : ℕ) (rra : MemRra) (modify : ℤ) : MemRrd :=
  { rrd.setRows target (newRows rrd target rra modify).1.length (newRows rrd target rra modify).2 with
    rrdValue := fun k => (newValues rrd target rra modify).getD k .nan }

section Whole

/-- The rows of an archive by age. -/
lemma value_eq_newestFirst (hrra : rrd.rra[target]? = some rra) (hcur : rra.curRow < rra.rraDef.rowCnt) {age d : ℕ}
    (hage : age < rra.rraDef.rowCnt) (hd : d < rrd.dsCnt) : rrd.value target d age =
      ((Unroll.newestFirst (archiveRows rrd target rra.rraDef.rowCnt) rra.curRow)[age]?.getD []).getD d .nan := by
  have hlen := length_archiveRows rrd target rra.rraDef.rowCnt
  rw [Unroll.getElem?_newestFirst (by rwa [hlen]) (by rwa [hlen]), hlen, archiveRows, List.getElem?_map,
    List.getElem?_range (Nat.mod_lt _ (by omega)), MemRrd.value, hrra]
  simp only [Option.map_some, Option.getD_some, List.getD_eq_getElem?_getD, List.getElem?_map, List.getElem?_range hd]

variable (h : Resizable rrd target rra modify)
include h

lemma newestFirst_newRows : Unroll.newestFirst (newRows rrd target rra modify).1 (newRows rrd target rra modify).2 =
    if 0 < modify then Unroll.newestFirst (archiveRows rrd target rra.rraDef.rowCnt) rra.curRow ++
      List.replicate modify.toNat (List.replicate rrd.dsCnt .nan)
    else (Unroll.newestFirst (archiveRows rrd target rra.rraDef.rowCnt) rra.curRow).take
      (newRows rrd target rra modify).1.length := by
  have hlen := length_archiveRows rrd target rra.rraDef.rowCnt
  have hcur : rra.curRow < (archiveRows rrd target rra.rraDef.rowCnt).length := by
    rw [hlen]
    exact h.curRow
  have hlt := h.lt
  have hnew := length_newRows h
  rw [newRows, resizedRows] at hnew ⊢
  split_ifs at hnew ⊢ with hgrow
  · rw [Unroll.newestFirst_insert hcur, List.reverse_replicate]
  · have hn : (-modify).toNat < (archiveRows rrd target rra.rraDef.rowCnt).length := by omega
    rw [Unroll.newestFirst_shrink hcur hn, Unroll.length_shrink hcur hn]

lemma value_resizedRrd {age d : ℕ} (hage : age < (newRows rrd target rra modify).1.length) (hd : d < rrd.dsCnt) :
    (resizedRrd rrd target rra modify).value target d age =
      ((Unroll.newestFirst (newRows rrd target rra modify).1 (newRows rrd target rra modify).2)[age]?.getD []).getD d
        .nan := by
  have hcur := newRows_cur_lt h
  rw [← length_newRows h] at hcur
  have hmod : ((newRows rrd target rra modify).2 + (newRows rrd target rra modify).1.length - age) %
      (newRows rrd target rra modify).1.length < (newRows rrd target rra modify).1.length := Nat.mod_lt _ (by omega)
  rw [Unroll.getElem?_newestFirst (by omega) hage, List.getElem?_eq_getElem hmod, MemRrd.value]
  have hget : (resizedRrd rrd target rra modify).rra[target]? = _ := setRows_getElem? h.get
  have hbefore : (resizedRrd rrd target rra modify).rowsBefore target = rrd.rowsBefore target := rowsBefore_setRows le_rfl
  rw [hget, hbefore]
  exact newValues_row (List.getElem?_eq_getElem hmod) hd

/-- The other archives. -/
lemma value_resizedRrd_ne {j d age : ℕ} {rra' : MemRra} (hj : j ≠ target) (hrra : rrd.rra[j]? = some rra')
    (hage : age < rra'.rraDef.rowCnt) (hd : d < rrd.dsCnt) :
    (resizedRrd rrd target rra modify).value j d age = rrd.value j d age := by
  have hlt := (List.getElem?_eq_some_iff.1 hrra).1
  have hsucc := rowsBefore_succ' hrra
  have hget : (resizedRrd rrd target rra modify).rra[j]? = some rra' := (setRows_getElem?_ne hj).trans hrra
  have hrow : (rra'.curRow + rra'.rraDef.rowCnt - age) % rra'.rraDef.rowCnt < rra'.rraDef.rowCnt :=
    Nat.mod_lt _ (by omega)
  rw [MemRrd.value, MemRrd.value, hget, hrra]
  dsimp only
  obtain hbefore | hbehind := Nat.lt_or_gt_of_ne hj
  · have hrows : (resizedRrd rrd target rra modify).rowsBefore j = rrd.rowsBefore j := rowsBefore_setRows hbefore.le
    have hmono : rrd.rowsBefore (j + 1) ≤ rrd.rowsBefore target := rowsBefore_mono rrd hbefore
    rw [hrows]
    exact newValues_before (place_lt (by omega) hd)
  · have hrows : (resizedRrd rrd target rra modify).rowsBefore j = _ := rowsBefore_setRows_lt h.get hbehind hlt.le
    have hmono : rrd.rowsBefore (target + 1) ≤ rrd.rowsBefore j := rowsBefore_mono rrd hbehind
    have htotal : rrd.rowsBefore (j + 1) ≤ rrd.rowsBefore rrd.rra.length := rowsBefore_mono rrd hlt
    obtain ⟨row, hrowEq⟩ : ∃ row, row = (rra'.curRow + rra'.rraDef.rowCnt - age) % rra'.rraDef.rowCnt := ⟨_, rfl⟩
    rw [← hrowEq] at hrow ⊢
    obtain ⟨i, hi⟩ : ∃ i, i = rrd.rowsBefore j - rrd.rowsBefore (target + 1) + row := ⟨_, rfl⟩
    rw [hrows, add_right_comm, ← hi, show rrd.rowsBefore j + row = rrd.rowsBefore (target + 1) + i by omega]
    exact newValues_behind (by omega) hd

lemma resized_resizedRrd : Resized rrd (resizedRrd rrd target rra modify) target modify where
  head := rfl
  length := length_setRows
  others j hj := setRows_getElem?_ne hj
  archive rra' hrra' := by
    obtain rfl : rra = rra' := Option.some.inj (h.get.symm.trans hrra')
    have hcur := newRows_cur_lt h
    have hlen := length_newRows h
    exact ⟨_, _, setRows_getElem? h.get, hlen, by omega⟩
  sameRows j rra' hj hrra' age hage d hd := value_resizedRrd_ne h hj hrra' hage hd
  kept rra' hrra' age hage hage' d hd := by
    obtain rfl : rra = rra' := Option.some.inj (h.get.symm.trans hrra')
    have hlen := length_newRows h
    rw [value_resizedRrd h (by omega) hd, value_eq_newestFirst h.get h.curRow hage hd, newestFirst_newRows h]
    split_ifs with hgrow
    · rw [List.getElem?_append_left (by rwa [Unroll.length_newestFirst, length_archiveRows])]
    · rw [List.getElem?_take_of_lt (by omega)]
  unknown rra' hrra' age hage hage' d hd := by
    obtain rfl : rra = rra' := Option.some.inj (h.get.symm.trans hrra')
    have hlen := length_newRows h
    rw [value_resizedRrd h (by omega) hd, newestFirst_newRows h, if_pos (by omega),
      List.getElem?_append_right (by rwa [Unroll.length_newestFirst, length_archiveRows]), Unroll.length_newestFirst,
      length_archiveRows, List.getElem?_replicate_of_lt (by omega), Option.getD_some, List.getD_eq_getElem?_getD,
      List.getElem?_replicate_of_lt hd]
    rfl

end Whole

/-! ### The length of the new file -/

section Lengths

lemma iterate_length {f : Resize → Resize} (hf : ∀ st, (f st).out.words.length = st.out.words.length) (k : ℕ)
    (st : Resize) : (f^[k] st).out.words.length = st.out.words.length := by
  induction k generalizing st with
  | zero => rfl
  | succ k ih => rw [Function.iterate_succ_apply, ih, hf]

lemma length_writeValue (st : Resize) : (writeValue st).out.words.length = st.out.words.length := length_rrdWrite _ _

lemma length_moveValue (st : Resize) : (moveValue st).out.words.length = st.out.words.length := by
  rw [moveValue, length_writeValue, readValue]
  cases st.input <;> rfl

lemma length_growRra (dsCnt : ℕ) (st : Resize) : (growRra dsCnt st).out.words.length = st.out.words.length := by
  rw [growRra, iterate_length length_writeValue]
  exact iterate_length length_moveValue _ st

lemma length_shrinkRra (dsCnt : ℕ) (st : Resize) : (shrinkRra dsCnt st).out.words.length = st.out.words.length := by
  have hfirst : ∀ k, ((removeFirst dsCnt)^[k] st).out.words.length = st.out.words.length := fun k =>
    iterate_length (f := removeFirst dsCnt) (fun _ => rfl) k st
  rw [shrinkRra, iterate_length (f := removeNext dsCnt) fun _ => rfl, iterate_length length_moveValue]
  split_ifs
  · exact hfirst _
  · rfl

lemma length_moveRest (torn : Bool) (input : List FileWord) (file : CreatedFile) :
    (moveRest torn input file).words.length = file.words.length := by
  induction input generalizing file with
  | nil =>
    rw [moveRest]
    split_ifs
    · rfl
    · exact length_rrdWrite _ _
    · rfl
  | cons word input ih =>
    rw [moveRest, ih]
    split_ifs
    · rfl
    · exact length_rrdWrite _ _

/-- The file keeps the length that it was created with. -/
lemma length_resizeFile (input : ResizeInput) (target : ℕ) (rra : MemRra) (modify : ℤ) (out : CreatedFile) :
    (resizeFile input target rra modify out).words.length = out.words.length := by
  have hchunks : ∀ chunks : List (List FileItem),
      (chunks.foldl (fun out chunk => rrdWrite out (fileWords chunk)) out).words.length = out.words.length := by
    intro chunks
    induction chunks generalizing out with
    | nil => rfl
    | cons chunk chunks ih => rw [List.foldl_cons, ih, length_rrdWrite]
  rw [resizeFile, rewriteRra, length_rrdWrite, seekCur, seekCur, seekCur, length_rrdWrite, seekSet, moveValues,
    length_moveRest]
  by_cases hgrow : 0 < modify
  · rw [if_pos hgrow, length_growRra, iterate_length length_moveValue, hchunks]
  · rw [if_neg hgrow, length_shrinkRra, iterate_length length_moveValue, hchunks]

/-- The length with which the file is created: a header of version 1 is eight bytes shorter. -/
lemma newfileSize_setRows (h : Resizable rrd target rra modify) (curRow : ℕ) : ∃ total : ℕ,
    (total : ℤ) = resizedBytes rrd modify - (if rrd.version < 3 then 8 else 0) ∧
      newfileSize (rrd.setRows target (u64 (rra.rraDef.rowCnt + modify)) curRow) = total % 2 ^ 64 := by
  have hlen := length_newRows h
  have hrowCnt := h.rowCnt
  have hmodify := h.modify
  have hlt := (List.getElem?_eq_some_iff.1 h.get).1
  have hcount : u64 (rra.rraDef.rowCnt + modify) = (newRows rrd target rra modify).1.length := by
    rw [← hlen, u64_natCast (by omega)]
  have hrows := @rowsBefore_setRows_lt _ _ _ (newRows rrd target rra modify).1.length curRow h.get _ hlt le_rfl
  have hle : rrd.rowsBefore (target + 1) ≤ rrd.rowsBefore rrd.rra.length := rowsBefore_mono rrd hlt
  have hsucc := rowsBefore_succ' h.get
  have hvalues := valueCnt_eq (rrd.setRows target (newRows rrd target rra modify).1.length curRow) rrd.rra.length
  have hds : (rrd.setRows target (newRows rrd target rra modify).1.length curRow).dsCnt = rrd.dsCnt := rfl
  have hversion : (rrd.setRows target (newRows rrd target rra modify).1.length curRow).version = rrd.version := rfl
  obtain ⟨rows, hrowsEq⟩ : ∃ rows, rows = rrd.rowsBefore rrd.rra.length - rrd.rowsBefore (target + 1) +
    (rrd.rowsBefore target + (newRows rrd target rra modify).1.length) := ⟨_, rfl⟩
  have hcast : (rows : ℤ) = rrd.rowsBefore rrd.rra.length + modify := by omega
  rw [List.take_of_length_le length_setRows.le, hrows, hds, ← hrowsEq] at hvalues
  refine ⟨128 + 120 * rrd.dsCnt + 120 * rrd.rra.length + (if rrd.version < 3 then 8 else 16) + 112 * rrd.dsCnt +
    80 * rrd.dsCnt * rrd.rra.length + 8 * rrd.rra.length + 8 * (rows * rrd.dsCnt), ?_, ?_⟩
  · rw [resizedBytes, ← hcast]
    push_cast
    split_ifs <;> ring
  · rw [hcount, newfileSize, rrdGetHeaderSize, hds, hvalues, length_setRows, hversion]
    omega

end Lengths

/-! ### The new file -/

section Whole

lemma atLeastThree_of_le (hversion : 3 ≤ rrd.version) : atLeastThree rrd = rrd := by
  rw [atLeastThree, if_neg (by omega)]

lemma fileWords_serialise (rrd : MemRrd) :
    fileWords (serialise rrd) = headerWords (atLeastThree rrd) ++ (rrdValues rrd).map valueWord := by
  rw [serialise, fileWords_append, rowItems_eq, fileWords_values]
  rfl

lemma rrdValues_resizedRrd (h : Resizable rrd target rra modify) :
    rrdValues (resizedRrd rrd target rra modify) = newValues rrd target rra modify := by
  have hlen := length_newValues h
  have hlt := (List.getElem?_eq_some_iff.1 h.get).1
  have hrows : (resizedRrd rrd target rra modify).rowsBefore rrd.rra.length = _ := rowsBefore_setRows_lt h.get hlt le_rfl
  have hle : rrd.rowsBefore (target + 1) ≤ rrd.rowsBefore rrd.rra.length := rowsBefore_mono rrd hlt
  have hnew := length_newRows h
  have hsucc := rowsBefore_succ' h.get
  have hcast : ((resizedRrd rrd target rra modify).rowsBefore rrd.rra.length : ℤ) =
      rrd.rowsBefore rrd.rra.length + modify := by omega
  have hcount : (resizedRrd rrd target rra modify).rowsBefore (resizedRrd rrd target rra modify).rra.length *
      (resizedRrd rrd target rra modify).dsCnt = (newValues rrd target rra modify).length := by
    have hrra : (resizedRrd rrd target rra modify).rra.length = rrd.rra.length := length_setRows
    have hds : (resizedRrd rrd target rra modify).dsCnt = rrd.dsCnt := rfl
    rw [hrra, hds]
    zify
    rw [hcast, hlen, mul_comm]
  have hvalue : ∀ j, (resizedRrd rrd target rra modify).rrdValue j = (newValues rrd target rra modify).getD j .nan :=
    fun _ => rfl
  refine List.ext_getElem? fun j => ?_
  rw [rrdValues, hcount, List.getElem?_map]
  obtain hj | hj := Nat.lt_or_ge j (newValues rrd target rra modify).length
  · rw [List.getElem?_range hj, List.getElem?_eq_getElem hj, Option.map_some, hvalue, List.getD_eq_getElem?_getD,
      List.getElem?_eq_getElem hj, Option.getD_some]
  · rw [List.getElem?_eq_none (by rwa [List.length_range]), List.getElem?_eq_none hj, Option.map_none]

/-- The words of a new file into which everything fits. -/
lemma resizeFile_words (h : Resizable rrd target rra modify) (hcdp : ∀ rra ∈ rrd.rra, rra.cdpPrep.length = rrd.dsCnt)
    (hversion : 3 ≤ rrd.version) {behind : List FileWord} {torn : Bool} {out : CreatedFile} (hpos : out.pos = 0)
    (hfit : (headerWords rrd).length + (newValues rrd target rra modify).length = out.words.length)
    (hn : out.words.length < 2 ^ 61) :
    (resizeFile ⟨rrd, behind, torn⟩ target rra modify out).words =
      fileWords (serialise (resizedRrd rrd target rra modify)) := by
  have hrrd : { rrd with version := if rrd.version = 1 then 3 else rrd.version } = rrd := by
    rw [if_neg (by omega)]
  have hstart : Written out.words.length [] out := ⟨rfl, rfl, hpos⟩
  have hheader := hstart.chunks (headerChunks rrd) (by
    rw [List.length_nil, zero_add]
    exact (Nat.le_add_right _ _).trans hfit.le)
  rw [List.nil_append] at hheader
  obtain ⟨st, hst⟩ : ∃ st, st = moveValues ⟨rrd, behind, torn⟩ target rra modify
    ((headerChunks rrd).foldl (fun out chunk => rrdWrite out (fileWords chunk)) out) := ⟨_, rfl⟩
  have hmoved := @moveValues_eq _ _ _ _ h behind torn _ _ _ hheader hfit hn
  rw [← hst] at hmoved
  obtain ⟨hwords, hrowCnt, hcurRow⟩ := hmoved
  have hfile : resizeFile ⟨rrd, behind, torn⟩ target rra modify out =
      rewriteRra (rrd.setRows target st.rowCnt st.curRow) ⟨st.out.words, st.out.pos⟩ := by
    rw [resizeFile]
    dsimp only
    rw [hrrd, ← hst]
  have hthree : atLeastThree (resizedRrd rrd target rra modify) = resizedRrd rrd target rra modify :=
    atLeastThree_of_le hversion
  rw [hfile, hwords, hrowCnt, hcurRow, fileWords_serialise, rrdValues_resizedRrd h, hthree]
  exact rewriteRra_eq hcdp setRows_cdpPrep _ _

/-- The archives of a resized database. -/
lemma Resized.rra_eq {rrd' : MemRrd} (h : Resized rrd rrd' target modify) (hrra : rrd.rra[target]? = some rra) :
    ∃ rowCnt curRow : ℕ, (rowCnt : ℤ) = rra.rraDef.rowCnt + modify ∧
      rrd'.rra = (rrd.setRows target rowCnt curRow).rra := by
  obtain ⟨rowCnt, curRow, hget, hcnt, -⟩ := h.archive rra hrra
  refine ⟨rowCnt, curRow, hcnt, List.ext_getElem? fun j => ?_⟩
  obtain rfl | hj := eq_or_ne j target
  · rw [hget, setRows_getElem? hrra]
  · rw [h.others j hj, setRows_getElem?_ne hj]

/-- The length of the file of a resized database. -/
lemma Resized.length_fileWords {rrd' : MemRrd} (h : Resized rrd rrd' target modify) (hrra : rrd.rra[target]? = some rra)
    (hcdp : ∀ rra ∈ rrd.rra, rra.cdpPrep.length = rrd.dsCnt) :
    (8 * (fileWords (serialise rrd')).length : ℤ) = resizedBytes rrd modify := by
  obtain ⟨rowCnt, curRow, hcnt, hrras⟩ := h.rra_eq hrra
  have hlt := (List.getElem?_eq_some_iff.1 hrra).1
  have hds : rrd'.dsCnt = rrd.dsCnt := congrArg (·.ds.length) h.head
  have hcdp' : ∀ rra ∈ rrd'.rra, rra.cdpPrep.length = rrd'.dsCnt := by
    intro rra' hmem
    have hmem' := List.mem_map_of_mem (f := (·.cdpPrep)) hmem
    rw [hrras, setRows_cdpPrep] at hmem'
    obtain ⟨rra, hrra, heq⟩ := List.mem_map.1 hmem'
    rw [← heq, hcdp rra hrra, hds]
  have hlen : (fileWords (serialise rrd')).length = 18 + 29 * rrd.dsCnt + 16 * rrd.rra.length +
      10 * rrd.dsCnt * rrd.rra.length + rrd'.rowsBefore rrd'.rra.length * rrd'.dsCnt := by
    rw [fileWords_serialise, List.length_append, @length_headerWords (atLeastThree rrd') hcdp', List.length_map,
      rrdValues, List.length_map, List.length_range, ← hds, ← h.length]
    rfl
  have hrows : rrd'.rowsBefore rrd.rra.length = (rrd.setRows target rowCnt curRow).rowsBefore rrd.rra.length := by
    rw [MemRrd.rowsBefore, MemRrd.rowsBefore, hrras]
  have hle : rrd.rowsBefore (target + 1) ≤ rrd.rowsBefore rrd.rra.length := rowsBefore_mono rrd hlt
  have hsucc := rowsBefore_succ' hrra
  rw [rowsBefore_setRows_lt hrra hlt le_rfl] at hrows
  have hcast : (rrd'.rowsBefore rrd.rra.length : ℤ) = rrd.rowsBefore rrd.rra.length + modify := by omega
  rw [hlen, hds, h.length, resizedBytes, ← hcast]
  push_cast
  ring

end Whole

/-! ### `rrd_resize` -/

section Accepted
variable {cmd infile rraArg op rowsArg : Text} {input : ResizeInput}

lemma strtolLong_lt (str : Text) : strtolLong str < 2 ^ 63 := by
  rw [strtolLong, toLong]
  omega

/-- What is accepted, and what is done then. -/
lemma rrdResize_accepted (hrows : ∀ rra ∈ input.rrd.rra, rra.rraDef.rowCnt < 2 ^ 63)
    (h : ∀ e, rrdResize [cmd, infile, rraArg, op, rowsArg] input ≠ some (.error e)) :
    ∃ rra out, input.rrd.rra[resizeTarget rraArg]? = some rra ∧ resizeModify op rowsArg ≠ 0 ∧
      resizeModify op rowsArg < 2 ^ 63 ∧ -resizeModify op rowsArg < rra.rraDef.rowCnt ∧ input.rrd.version ∈ [1, 3, 4] ∧
      rrdCreat (input.rrd.setRows (resizeTarget rraArg) (u64 (rra.rraDef.rowCnt + resizeModify op rowsArg)) rra.curRow) =
        some out ∧
      rrdResize [cmd, infile, rraArg, op, rowsArg] input =
        if resizeModify op rowsArg < 0 ∧ 2 ^ 32 ≤ input.rrd.dsCnt then none
        else some (.ok (resizeFile input (resizeTarget rraArg) rra (resizeModify op rowsArg) out)) := by
  rw [rrdResize] at h ⊢
  by_cases hreserved : [cmd, infile, rraArg, op, rowsArg][1]? = some "resize.rrd".toList
  · exact absurd (if_pos hreserved) (h .reserved)
  rw [if_neg hreserved] at h ⊢
  dsimp only at h ⊢
  by_cases hop : op ≠ "GROW".toList ∧ op ≠ "SHRINK".toList
  · exact absurd (if_pos hop) (h .growOrShrink)
  rw [if_neg hop] at h ⊢
  by_cases hone : strtolLong rowsArg < 1
  · exact absurd (if_pos hone) (h .noRow)
  rw [if_neg hone] at h ⊢
  have hlong := strtolLong_lt rowsArg
  have hmodify : resizeModify op rowsArg ≠ 0 ∧ resizeModify op rowsArg < 2 ^ 63 := by
    rw [resizeModify]
    split_ifs <;> omega
  cases hrra : input.rrd.rra[resizeTarget rraArg]? with
  | none =>
    rw [hrra] at h
    exact absurd rfl (h .noSuchRra)
  | some rra =>
    rw [hrra] at h
    dsimp only at h ⊢
    by_cases hbig : resizeModify op rowsArg < 0 ∧ s64 rra.rraDef.rowCnt ≤ -resizeModify op rowsArg
    · exact absurd (if_pos hbig) (h .notThatBig)
    rw [if_neg hbig] at h ⊢
    have hlt : -resizeModify op rowsArg < rra.rraDef.rowCnt := by
      rw [s64_natCast (hrows rra (List.mem_of_getElem? hrra))] at hbig
      omega
    cases hcreat : rrdCreat (input.rrd.setRows (resizeTarget rraArg)
        (u64 (rra.rraDef.rowCnt + resizeModify op rowsArg)) rra.curRow) with
    | none =>
      rw [hcreat] at h
      exact absurd rfl (h .cannotCreate)
    | some out =>
      rw [hcreat] at h
      dsimp only at h ⊢
      by_cases hversion : input.rrd.version ∉ [1, 3, 4]
      · exact absurd (if_pos hversion) (h (.version _))
      rw [if_neg hversion]
      exact ⟨rra, out, rfl, hmodify.1, hmodify.2, hlt, not_not.1 hversion, hcreat, rfl⟩

/-- The length of the file, and what is written into it. -/
lemma rrdResize_eq (hsound : input.rrd.Sound) (hrows : ∀ rra ∈ input.rrd.rra, rra.rraDef.rowCnt < 2 ^ 63)
    (hsize : resizedBytes input.rrd 0 ≤ 2 ^ 63)
    (h : ∀ e, rrdResize [cmd, infile, rraArg, op, rowsArg] input ≠ some (.error e)) :
    ∃ (rra : MemRra) (total : ℕ), Resizable input.rrd (resizeTarget rraArg) rra (resizeModify op rowsArg) ∧
      input.rrd.version ∈ [1, 3, 4] ∧
      (total : ℤ) = resizedBytes input.rrd (resizeModify op rowsArg) - (if input.rrd.version < 3 then 8 else 0) ∧
      rrdResize [cmd, infile, rraArg, op, rowsArg] input =
        if resizeModify op rowsArg < 0 ∧ 2 ^ 32 ≤ input.rrd.dsCnt then none
        else some (.ok (resizeFile input (resizeTarget rraArg) rra (resizeModify op rowsArg)
          ⟨List.replicate (total % 2 ^ 64 / 8) .zero, 0⟩)) := by
  obtain ⟨rra, out, hrra, hne, hmodify, hlt, hversion, hcreat, heq⟩ := rrdResize_accepted hrows h
  have hvalues : input.rrd.rowsBefore input.rrd.rra.length * input.rrd.dsCnt < 2 ^ 61 := by
    have hcdps : (0 : ℤ) ≤ 80 * input.rrd.dsCnt * input.rrd.rra.length := by positivity
    rw [resizedBytes, add_zero, mul_assoc 8, mul_comm (input.rrd.dsCnt : ℤ) (input.rrd.rowsBefore _)] at hsize
    zify
    omega
  have hresizable : Resizable input.rrd (resizeTarget rraArg) rra (resizeModify op rowsArg) :=
    ⟨hrra, hsound.curRow rra (List.mem_of_getElem? hrra), hne, hlt, hvalues, hrows rra (List.mem_of_getElem? hrra),
      hmodify⟩
  obtain ⟨total, htotal, hcreated⟩ := newfileSize_setRows hresizable rra.curRow
  rw [rrdCreat, hcreated] at hcreat
  split_ifs at hcreat with hzero
  obtain rfl := Option.some.inj hcreat
  exact ⟨rra, total, hresizable, hversion, htotal, heq⟩

/-- A database is only written when its length is that of the file. -/
lemma fits_of_preserved (hsound : input.rrd.Sound) (hrows : ∀ rra ∈ input.rrd.rra, rra.rraDef.rowCnt < 2 ^ 63)
    (hsize : resizedBytes input.rrd 0 ≤ 2 ^ 63) {out : CreatedFile} {rrd' : MemRrd}
    (hout : rrdResize [cmd, infile, rraArg, op, rowsArg] input = some (.ok out))
    (hresized : Resized input.rrd rrd' (resizeTarget rraArg) (resizeModify op rowsArg))
    (hwords : out.words = fileWords (serialise rrd')) :
    input.rrd.version ≠ 1 ∧ resizedBytes input.rrd (resizeModify op rowsArg) < 2 ^ 64 ∧
      (resizeModify op rowsArg < 0 → input.rrd.dsCnt < 2 ^ 32) := by
  obtain ⟨rra, total, hresizable, hversion, htotal, heq⟩ := rrdResize_eq hsound hrows hsize fun e he => by
    rw [hout] at he
    cases Option.some.inj he
  rw [heq] at hout
  split_ifs at hout with hloop
  obtain rfl := Except.ok.inj (Option.some.inj hout)
  have hbytes := hresized.length_fileWords hresizable.get hsound.cdpPrep
  rw [← hwords, length_resizeFile, List.length_replicate] at hbytes
  refine ⟨?_, ?_, ?_⟩
  · intro hone
    rw [if_pos (by omega)] at htotal
    omega
  · split_ifs at htotal <;> omega
  · intro hneg
    by_contra hge
    exact hloop ⟨hneg, by omega⟩

/-- A resize that is accepted keeps the rows: the file is the database with other rows in one archive. -/
theorem rrdResize_preserves_iff (hsound : input.rrd.Sound) (hrows : ∀ rra ∈ input.rrd.rra, rra.rraDef.rowCnt < 2 ^ 63)
    (hsize : resizedBytes input.rrd 0 ≤ 2 ^ 63)
    (h : ∀ e, rrdResize [cmd, infile, rraArg, op, rowsArg] input ≠ some (.error e)) :
    (∃ out rrd', rrdResize [cmd, infile, rraArg, op, rowsArg] input = some (.ok out) ∧
        Resized input.rrd rrd' (resizeTarget rraArg) (resizeModify op rowsArg) ∧ out.words = fileWords (serialise rrd')) ↔
      input.rrd.version ≠ 1 ∧ resizedBytes input.rrd (resizeModify op rowsArg) < 2 ^ 64 ∧
        (resizeModify op rowsArg < 0 → input.rrd.dsCnt < 2 ^ 32) := by
  constructor
  · rintro ⟨out, rrd', hout, hresized, hwords⟩
    exact fits_of_preserved hsound hrows hsize hout hresized hwords
  · rintro ⟨hone, hbytes, hds⟩
    obtain ⟨rra, total, hresizable, hversion, htotal, heq⟩ := rrdResize_eq hsound hrows hsize h
    have hthree : 3 ≤ input.rrd.version := by
      simp only [List.mem_cons, List.not_mem_nil, or_false] at hversion
      omega
    have hparts : total = 8 * ((headerWords input.rrd).length +
        (newValues input.rrd (resizeTarget rraArg) rra (resizeModify op rowsArg)).length) := by
      rw [length_headerWords hsound.cdpPrep]
      zify
      rw [htotal, if_neg (by omega), length_newValues hresizable, resizedBytes]
      ring
    rw [if_neg (by omega)] at htotal
    rw [heq, if_neg fun hloop => by have := hds hloop.1; omega]
    refine ⟨_, _, rfl, resized_resizedRrd hresizable, resizeFile_words hresizable hsound.cdpPrep hthree rfl ?_ ?_⟩
    · rw [List.length_replicate, Nat.mod_eq_of_lt (by omega), hparts, Nat.mul_div_cancel_left _ (by norm_num)]
    · rw [List.length_replicate]
      omega

end Accepted

/-- `resize a.rrd 1 SHRINK 1`. -/
def shrinkArgv : List Text :=
  ["resize".toList, "a.rrd".toList, "1".toList, "SHRINK".toList, "1".toList]

theorem rrdResize_preserves_iff_places :
    (∃ out rrd', rrdResize shrinkArgv ⟨placesRrd, [], false⟩ = some (.ok out) ∧
        Resized placesRrd rrd' (resizeTarget "1".toList) (resizeModify "SHRINK".toList "1".toList) ∧
        out.words = fileWords (serialise rrd')) ↔
      placesRrd.version ≠ 1 ∧ resizedBytes placesRrd (resizeModify "SHRINK".toList "1".toList) < 2 ^ 64 ∧
        (resizeModify "SHRINK".toList "1".toList < 0 → placesRrd.dsCnt < 2 ^ 32) :=
  @rrdResize_preserves_iff _ _ _ _ _ ⟨placesRrd, [], false⟩ placesRrd_sound (by decide +kernel) (by decide +kernel)
    fun e he => by
      have hok : ((rrdResize shrinkArgv ⟨placesRrd, [], false⟩).bind Except.toOption).isSome := by decide +kernel
      rw [shrinkArgv, he] at hok
      cases hok

/-- A file of version 1 is resized to one that is too short for its last value. -/
theorem rrdResize_version_one :
    (∃ out, rrdResize shrinkArgv ⟨{ placesRrd with version := 1 }, [], false⟩ = some (.ok out)) ∧
      ¬∃ out rrd', rrdResize shrinkArgv ⟨{ placesRrd with version := 1 }, [], false⟩ = some (.ok out) ∧
        Resized { placesRrd with version := 1 } rrd' (resizeTarget "1".toList)
          (resizeModify "SHRINK".toList "1".toList) ∧ out.words = fileWords (serialise rrd') := by
  have hok : ((rrdResize shrinkArgv ⟨{ placesRrd with version := 1 }, [], false⟩).bind Except.toOption).isSome := by
    decide +kernel
  constructor
  · obtain ⟨out, hout⟩ := Option.isSome_iff_exists.1 hok
    obtain ⟨result, hresult, hout⟩ := Option.bind_eq_some_iff.1 hout
    cases result with
    | error e => cases hout
    | ok out => exact ⟨out, hresult⟩
  · rintro ⟨out, rrd', hout, hresized, hwords⟩
    exact (fits_of_preserved ⟨placesRrd_sound.rowCnt, placesRrd_sound.curRow, placesRrd_sound.cdpPrep⟩
      (by decide +kernel) (by decide +kernel) hout hresized hwords).1 rfl

end Rrdtool
