import Rrdtool.Lib.Unroll
import Rrdtool.Resize

/-!
# What the loops of a resize write

A file that is written from the beginning is told by the words written so far (`Written`), as long as they fit into it.
The loops that add rows and that remove them leave the rows up to the current one in the new file and the others to be
moved (`growRra_eq`, `shrinkRra_eq`). At the end the definitions and the pointers in the header are replaced
(`rewriteRra_eq`).
-/

namespace Rrdtool

/-! ### The new file -/

/-- The first words of a file of `n` words are written. -/
structure Written (n : ℕ) (words : List FileWord) (file : CreatedFile) : Prop where
  length : file.words.length = n
  taken : file.words.take words.length = words
  pos : file.pos = words.length

section Files
variable {n : ℕ} {words buf : List FileWord} {file : CreatedFile}

lemma length_rrdWrite (file : CreatedFile) (buf : List FileWord) : (rrdWrite file buf).words.length = file.words.length := by
  rw [rrdWrite]
  split_ifs with h
  · rfl
  · simp only [List.length_append, List.length_take, List.length_drop]
    omega

/-- The next words, as long as there is place. -/
lemma Written.write (h : Written n words file) (hfit : words.length + buf.length ≤ n) :
    Written n (words ++ buf) (rrdWrite file buf) := by
  have hlen := h.length
  refine ⟨(length_rrdWrite file buf).trans hlen, ?_, ?_⟩
  · rw [rrdWrite, if_neg (by rw [h.pos]; omega), h.pos, h.taken, ← List.length_append]
    exact List.take_left
  · rw [rrdWrite, if_neg (by rw [h.pos]; omega), h.pos, List.length_append]

/-- A file that is full is not written any more. -/
lemma Written.full (h : Written n words file) (hfull : words.length = n) : file.words = words := by
  have hwords := h.taken
  rwa [hfull, ← h.length, List.take_length] at hwords

/-- Words in the middle of a file are replaced. -/
lemma rrdWrite_replace (before behind : List FileWord) {old buf : List FileWord} (hlen : buf.length = old.length) :
    rrdWrite ⟨before ++ old ++ behind, before.length⟩ buf = ⟨before ++ buf ++ behind, before.length + buf.length⟩ := by
  have hfit : ¬(before ++ old ++ behind).length < before.length + buf.length := by
    simp only [List.length_append]
    omega
  rw [rrdWrite, if_neg hfit]
  simp only [hlen]
  rw [List.append_assoc before old, List.take_left, ← List.append_assoc, ← List.length_append, List.drop_left]

end Files

/-! ### Moving values -/

section Moving
variable {n : ℕ} {words ws rest : List FileWord} (st : Resize)

/-- A loop that moves the next values. -/
lemma moveValue_iterate (hout : Written n words st.out) (hinput : st.input = ws ++ rest)
    (hfit : words.length + ws.length ≤ n) :
    ∃ buffer out, moveValue^[ws.length] st = { st with input := rest, buffer := buffer, out := out } ∧
      Written n (words ++ ws) out := by
  induction ws generalizing words st with
  | nil =>
    refine ⟨st.buffer, st.out, ?_, ?_⟩
    · rw [List.nil_append] at hinput
      rw [← hinput]
      rfl
    · rwa [List.append_nil]
  | cons word ws ih =>
    rw [List.length_cons] at hfit
    have hstep : moveValue st = { st with input := ws ++ rest, buffer := word, out := rrdWrite st.out [word] } := by
      rw [moveValue, readValue, hinput]
      rfl
    have hnext : Written n (words ++ [word]) (moveValue st).out := by
      rw [hstep]
      exact hout.write (by simp only [List.length_singleton]; omega)
    obtain ⟨buffer, out, heq, hwritten⟩ := ih _ hnext (by rw [hstep]) (by
      rw [List.length_append, List.length_singleton]
      omega)
    refine ⟨buffer, out, ?_, ?_⟩
    · rw [List.length_cons, Function.iterate_succ_apply, heq, hstep]
    · rwa [List.append_assoc] at hwritten

/-- A loop that writes `buffer`. -/
lemma writeValue_iterate (k : ℕ) (hout : Written n words st.out) (hfit : words.length + k ≤ n) :
    ∃ out, writeValue^[k] st = { st with out := out } ∧ Written n (words ++ List.replicate k st.buffer) out := by
  induction k generalizing words st with
  | zero => exact ⟨st.out, rfl, by rwa [List.replicate_zero, List.append_nil]⟩
  | succ k ih =>
    have hnext : Written n (words ++ [st.buffer]) (writeValue st).out :=
      hout.write (by simp only [List.length_singleton]; omega)
    obtain ⟨out, heq, hwritten⟩ := ih _ hnext (by rw [List.length_append, List.length_singleton]; omega)
    refine ⟨out, ?_, ?_⟩
    · rw [Function.iterate_succ_apply, heq]
      rfl
    · rw [List.append_assoc, List.singleton_append] at hwritten
      rwa [List.replicate_succ]

lemma u64_pred {a : ℕ} (hpos : 0 < a) (hlt : a < 2 ^ 64) : u64 ((a : ℤ) - 1) = a - 1 := by
  exact_mod_cast u64_sub hpos hlt

/-- Rows are removed from the beginning. -/
lemma removeFirst_iterate (dsCnt : ℕ) {k : ℕ} (hcur : k ≤ st.curRow) (hrow : k ≤ st.rowCnt) (hcur' : st.curRow < 2 ^ 64)
    (hrow' : st.rowCnt < 2 ^ 64) :
    (removeFirst dsCnt)^[k] st = { st with
      input := st.input.drop (k * dsCnt), curRow := st.curRow - k, rowCnt := st.rowCnt - k, modify := st.modify + k } := by
  induction k generalizing st with
  | zero => simp
  | succ k ih =>
    have hstep : removeFirst dsCnt st = { st with
        input := st.input.drop dsCnt, curRow := st.curRow - 1, rowCnt := st.rowCnt - 1, modify := st.modify + 1 } := by
      rw [removeFirst, u64_pred (by omega) hcur', u64_pred (by omega) hrow']
      rfl
    rw [Function.iterate_succ_apply, ih, hstep]
    · simp only [List.drop_drop, Nat.sub_sub, Nat.succ_mul, Nat.cast_succ, add_assoc, add_comm 1 k, add_comm dsCnt,
        add_comm (1 : ℤ)]
    all_goals rw [hstep]; dsimp only; omega

/-- Rows are removed behind the current one. -/
lemma removeNext_iterate (dsCnt : ℕ) {k : ℕ} (hrow : k ≤ st.rowCnt) (hrow' : st.rowCnt < 2 ^ 64) :
    (removeNext dsCnt)^[k] st = { st with
      input := st.input.drop (k * dsCnt), rowCnt := st.rowCnt - k, modify := st.modify + k } := by
  induction k generalizing st with
  | zero => simp
  | succ k ih =>
    have hstep : removeNext dsCnt st = { st with
        input := st.input.drop dsCnt, rowCnt := st.rowCnt - 1, modify := st.modify + 1 } := by
      rw [removeNext, u64_pred (by omega) hrow']
      rfl
    rw [Function.iterate_succ_apply, ih, hstep]
    · simp only [List.drop_drop, Nat.sub_sub, Nat.succ_mul, Nat.cast_succ, add_assoc, add_comm 1 k, add_comm dsCnt,
        add_comm (1 : ℤ)]
    all_goals rw [hstep]; dsimp only; omega

/-- What does not fit is not written. -/
lemma moveRest_full (torn : Bool) {file : CreatedFile} (hfull : file.words.length = file.pos) (input : List FileWord) :
    moveRest torn input file = file := by
  induction input with
  | nil =>
    rw [moveRest]
    split_ifs <;> first | rfl | omega
  | cons word input ih => rw [moveRest, if_pos (by omega), ih]

lemma moveRest_append (torn : Bool) {file : CreatedFile} (h : Written n words file) (hfit : words.length + ws.length = n) :
    (moveRest torn (ws ++ rest) file).words = words ++ ws := by
  induction ws generalizing words file with
  | nil =>
    rw [List.length_nil, add_zero] at hfit
    rw [List.nil_append, List.append_nil, moveRest_full torn (by rw [h.length, h.pos, hfit]), h.full hfit]
  | cons word ws ih =>
    rw [List.length_cons] at hfit
    rw [List.cons_append, moveRest, if_neg (by rw [h.length, h.pos]; omega), ih (h.write (by
      rw [List.length_singleton]
      omega)) (by rw [List.length_append, List.length_singleton]; omega), List.append_assoc]
    rfl

/-! ### One archive -/

variable {dsCnt : ℕ} {rows : List (List FileWord)}

lemma drop_rows (hw : ∀ row ∈ rows, row.length = dsCnt) {j : ℕ} (hj : j ≤ rows.length) (rest : List FileWord) :
    (rows.flatten ++ rest).drop (j * dsCnt) = (rows.drop j).flatten ++ rest := by
  have hlen : j * dsCnt ≤ rows.flatten.length := by
    rw [Blocks.length_flatten hw]
    exact Nat.mul_le_mul_right dsCnt hj
  rw [List.drop_append_of_le_length hlen, Blocks.drop_flatten hw]

/-- Rows are moved. -/
lemma moveRows (hw : ∀ row ∈ rows, row.length = dsCnt) (hout : Written n words st.out)
    (hinput : st.input = rows.flatten ++ rest) {j : ℕ} (hj : j ≤ rows.length) (hfit : words.length + j * dsCnt ≤ n) :
    ∃ buffer out, moveValue^[j * dsCnt] st =
      { st with input := (rows.drop j).flatten ++ rest, buffer := buffer, out := out } ∧
        Written n (words ++ (rows.take j).flatten) out := by
  have hlen : (rows.take j).flatten.length = j * dsCnt := by
    rw [Blocks.length_flatten fun row hrow => hw row (List.mem_of_mem_take hrow), List.length_take_of_le hj]
  have hsplit : rows.flatten = (rows.take j).flatten ++ (rows.drop j).flatten := by
    rw [← List.flatten_append, List.take_append_drop]
  rw [← hlen]
  exact moveValue_iterate st hout (by rw [hinput, hsplit, List.append_assoc]) (by rw [hlen]; exact hfit)

/-- Rows are added: those up to the current one are moved, and unknown ones are written. -/
lemma growRra_eq (hw : ∀ row ∈ rows, row.length = dsCnt) (hout : Written n words st.out)
    (hinput : st.input = rows.flatten ++ rest) (hcur : st.curRow < rows.length) (hmodify : 0 ≤ st.modify)
    (hfit : words.length + (st.curRow + 1 + st.modify.toNat) * dsCnt ≤ n) (hn : n < 2 ^ 64) :
    ∃ out, (growRra dsCnt st) = { st with
        input := (rows.drop (st.curRow + 1)).flatten ++ rest, buffer := .part (.value .nan) 0, out := out } ∧
      Written n (words ++ (rows.take (st.curRow + 1)).flatten ++
        List.replicate (st.modify.toNat * dsCnt) (.part (.value .nan) 0)) out := by
  rw [add_mul] at hfit
  obtain ⟨buffer, out, hmove, hwritten⟩ :=
    moveRows st hw hout hinput (show st.curRow + 1 ≤ rows.length from hcur) (by omega)
  have hlen : (rows.take (st.curRow + 1)).flatten.length = (st.curRow + 1) * dsCnt := by
    rw [Blocks.length_flatten fun row hrow => hw row (List.mem_of_mem_take hrow), List.length_take_of_le hcur]
  have hcount : u64 (dsCnt * st.modify) = st.modify.toNat * dsCnt := by
    have hcast : (dsCnt * st.modify : ℤ) = (st.modify.toNat * dsCnt : ℕ) := by
      rw [Nat.cast_mul, Int.toNat_of_nonneg hmodify, mul_comm]
    rw [hcast, u64_natCast (by omega)]
  obtain ⟨out', hwrite, hwritten'⟩ := writeValue_iterate
    { st with input := (rows.drop (st.curRow + 1)).flatten ++ rest, buffer := .part (.value .nan) 0, out := out }
    (st.modify.toNat * dsCnt) hwritten (by rw [List.length_append, hlen]; omega)
  refine ⟨out', ?_, hwritten'⟩
  rw [growRra, mul_comm dsCnt, Nat.mod_eq_of_lt (by omega), hmove]
  dsimp only
  rw [hcount, hwrite]

/-- The row up to which rows are removed. -/
lemma removeEnd_eq {cur cnt k : ℕ} {modify : ℤ} (hmodify : modify = -(k : ℤ)) (hcur : cur < cnt) (hlt : k < cnt)
    (hcnt : cnt < 2 ^ 63) : s64 (u64 (cur - modify) % cnt) =
      if cur + k < cnt then (cur + k : ℤ) else (cur + k - cnt : ℤ) := by
  have hsum : (cur - modify : ℤ) = (cur + k : ℕ) := by
    rw [hmodify]
    push_cast
    ring
  rw [hsum, u64_natCast (by omega), ← Int.natCast_mod]
  split_ifs with hroom
  · rw [Nat.mod_eq_of_lt hroom, s64_natCast (by omega)]
    push_cast
    ring
  · rw [Nat.mod_eq_sub_mod (not_lt.1 hroom), Nat.mod_eq_of_lt (by omega), s64_natCast (by omega)]
    omega

/-- Rows are removed: what is written of the others, and what is left to be moved. -/
lemma shrinkRra_eq {k : ℕ} (hw : ∀ row ∈ rows, row.length = dsCnt) (hout : Written n words st.out)
    (hinput : st.input = rows.flatten ++ rest) (hcnt : st.rowCnt = rows.length) (hcur : st.curRow < rows.length)
    (hmodify : st.modify = -(k : ℤ)) (hk : 0 < k) (hlt : k < rows.length) (hrows : rows.length < 2 ^ 63)
    (hfit : words.length + (rows.length - k) * dsCnt ≤ n) :
    ∃ moved left buffer out, (shrinkRra dsCnt st) = { st with
        input := left.flatten ++ rest, buffer := buffer, out := out, rowCnt := rows.length - k,
        curRow := (Unroll.shrink rows st.curRow k).2, modify := 0 } ∧
      moved ++ left = (Unroll.shrink rows st.curRow k).1 ∧ Written n (words ++ moved.flatten) out := by
  obtain ⟨input, buffer, out, rowCnt, curRow, modify⟩ := st
  dsimp only at *
  subst hinput hcnt hmodify
  rw [shrinkRra, removeEnd_eq rfl hcur hlt hrows, s64_natCast (show curRow < 2 ^ 63 by omega)]
  by_cases hroom : curRow + k < rows.length
  · have hmoved : (curRow + 1) * dsCnt ≤ (rows.length - k) * dsCnt := Nat.mul_le_mul_right dsCnt (by omega)
    obtain ⟨buffer', out', hmove, hwritten⟩ := moveRows ⟨rows.flatten ++ rest, buffer, out, rows.length, curRow, -k⟩ hw
      hout rfl (show curRow + 1 ≤ rows.length from hcur) (show words.length + (curRow + 1) * dsCnt ≤ n by omega)
    have hremove := removeNext_iterate ⟨(rows.drop (curRow + 1)).flatten ++ rest, buffer', out', rows.length, curRow, -k⟩
      dsCnt (k := k) hlt.le (by dsimp only; omega)
    rw [drop_rows (fun row hrow => hw row (List.mem_of_mem_drop hrow)) (by rw [List.length_drop]; omega), List.drop_drop,
      neg_add_cancel] at hremove
    refine ⟨rows.take (curRow + 1), rows.drop (curRow + 1 + k), buffer', out', ?_, ?_, hwritten⟩
    · rw [if_pos hroom, if_neg (by omega)]
      dsimp only
      rw [hmove, neg_neg, Int.toNat_natCast, hremove, Unroll.shrink, if_pos hroom]
    · rw [Unroll.shrink, if_pos hroom]
  · -- no row is left behind the current one: the first ones go as well
    obtain ⟨r, hr⟩ : ∃ r, r = curRow + 1 + k - rows.length := ⟨_, rfl⟩
    have hend : (curRow + k - rows.length + 1 : ℤ).toNat = r := by omega
    have hfirst := removeFirst_iterate ⟨rows.flatten ++ rest, buffer, out, rows.length, curRow, -k⟩ dsCnt (k := r)
      (by dsimp only; omega) (by dsimp only; omega) (by dsimp only; omega) (by dsimp only; omega)
    have hw' : ∀ row ∈ rows.drop r, row.length = dsCnt := fun row hrow => hw row (List.mem_of_mem_drop hrow)
    rw [drop_rows hw (by omega)] at hfirst
    have hmoved : curRow - r + 1 = rows.length - k := by omega
    obtain ⟨buffer', out', hmove, hwritten⟩ := moveRows ⟨(rows.drop r).flatten ++ rest, buffer, out,
      rows.length - r, curRow - r, -k + r⟩ hw' hout rfl (j := curRow - r + 1) (by rw [List.length_drop]; omega)
      (by rw [hmoved]; exact hfit)
    have hremove := removeNext_iterate ⟨((rows.drop r).drop (curRow - r + 1)).flatten ++ rest,
      buffer', out', rows.length - r, curRow - r, -k + r⟩ dsCnt (k := k - r) (by dsimp only; omega) (by dsimp only; omega)
    rw [drop_rows (fun row hrow => hw' row (List.mem_of_mem_drop hrow)) (by simp only [List.length_drop]; omega),
      List.drop_of_length_le (l := (rows.drop r).drop (curRow - r + 1)) (by simp only [List.length_drop]; omega)] at hremove
    refine ⟨(rows.take (curRow + 1)).drop r, [], buffer', out', ?_, ?_, ?_⟩
    · rw [if_neg hroom, if_pos (by omega), hend, hfirst]
      dsimp only
      rw [hmove]
      dsimp only
      rw [show (-(-(k : ℤ) + r)).toNat = k - r by omega, hremove, Unroll.shrink, if_neg hroom, ← hr]
      rw [show rows.length - r - (k - r) = rows.length - k by omega, show -(k : ℤ) + r + (k - r : ℕ) = 0 by omega]
    · rw [List.append_nil, Unroll.shrink, if_neg hroom, hr]
    · have htake : (rows.drop r).take (curRow - r + 1) = (rows.take (curRow + 1)).drop r := by
        rw [List.drop_take]
        congr 1
        omega
      rwa [htake] at hwritten

end Moving

/-! ### The header and the values -/

section Layout
variable {rrd : MemRrd} {target : ℕ} {rra : MemRra}

lemma fileWords_append (a b : List FileItem) : fileWords (a ++ b) = fileWords a ++ fileWords b := List.flatMap_append

/-- A value is one word. -/
@[grind] def valueWord (v : RrdValue) : FileWord := .part (.value v) 0

lemma words_value (v : RrdValue) : (FileItem.value v).words = [valueWord v] := by
  simp [FileItem.words, FileItem.part, RrdPart.sizeof, valueWord]

lemma fileWords_values (vs : List RrdValue) : fileWords (vs.map .value) = vs.map valueWord := by
  induction vs with
  | nil => rfl
  | cons v vs ih =>
    rw [List.map_cons, List.map_cons, ← ih, fileWords, fileWords, List.flatMap_cons, words_value]
    rfl

/-- Items of one size. -/
lemma length_fileWords_map {α : Type} (f : α → FileItem) (l : List α) {part : RrdPart} (hf : ∀ a, (f a).part = part) :
    (fileWords (l.map f)).length = part.sizeof / 8 * l.length := by
  rw [fileWords, List.flatMap_map, List.length_flatMap, List.map_congr_left (g := fun _ => part.sizeof / 8) fun a _ => by
    rw [FileItem.words, List.length_map, List.length_range, hf], List.map_const', List.sum_replicate, smul_eq_mul,
    mul_comm]

/-- The chunks of the header one after the other. -/
lemma Written.chunks {n : ℕ} {words : List FileWord} {out : CreatedFile} (h : Written n words out)
    (chunks : List (List FileItem)) (hfit : words.length + (fileWords chunks.flatten).length ≤ n) :
    Written n (words ++ fileWords chunks.flatten) (chunks.foldl (fun out chunk => rrdWrite out (fileWords chunk)) out) := by
  induction chunks generalizing words out with
  | nil => rwa [List.flatten_nil, fileWords, List.flatMap_nil, List.append_nil]
  | cons chunk chunks ih =>
    rw [List.flatten_cons, fileWords_append, List.length_append] at hfit
    rw [List.flatten_cons, fileWords_append, ← List.append_assoc, List.foldl_cons]
    exact ih (h.write (by omega)) (by rw [List.length_append]; omega)

/-- The words of the header. -/
def headerWords (rrd : MemRrd) : List FileWord := fileWords (headerChunks rrd).flatten

/-- What is before the definitions of the archives, they, what is between them and the pointers, and these. -/
@[grind] def wordsBefore (rrd : MemRrd) : List FileWord :=
  fileWords [.statHead rrd.version rrd.dsCnt rrd.rra.length rrd.pdpStep] ++ fileWords (rrd.ds.map fun d => .dsDef d.dsDef)

def rraDefWords (rras : List MemRra) : List FileWord := fileWords (rras.map fun rra => .rraDef rra.rraDef)

@[grind] def wordsBetween (rrd : MemRrd) : List FileWord :=
  fileWords [.liveHead rrd.lastUp rrd.lastUpUsec] ++ fileWords (rrd.ds.map fun d => .pdpPrep d.pdpPrep) ++
    fileWords (rrd.rra.flatMap fun rra => rra.cdpPrep.map .cdpPrep)

def rraPtrWords (rras : List MemRra) : List FileWord := fileWords (rras.map fun rra => .rraPtr rra.curRow)

lemma headerWords_eq (rrd : MemRrd) : headerWords rrd =
    wordsBefore rrd ++ rraDefWords rrd.rra ++ wordsBetween rrd ++ rraPtrWords rrd.rra := by
  simp only [headerWords, headerChunks, wordsBefore, rraDefWords, wordsBetween, rraPtrWords, List.flatten_cons,
    List.flatten_nil, List.append_nil, fileWords_append, List.append_assoc]

lemma length_fileWords_singleton (item : FileItem) : (fileWords [item]).length = item.part.sizeof / 8 := by
  rw [fileWords, List.flatMap_singleton, FileItem.words, List.length_map, List.length_range]

lemma length_wordsBefore (rrd : MemRrd) : (wordsBefore rrd).length = 16 + 15 * rrd.dsCnt := by
  rw [wordsBefore, List.length_append, length_fileWords_singleton,
    length_fileWords_map (fun d : DataSource => .dsDef d.dsDef) rrd.ds fun _ => rfl]
  simp [FileItem.part, RrdPart.sizeof, MemRrd.dsCnt]

lemma length_rraDefWords (rras : List MemRra) : (rraDefWords rras).length = 15 * rras.length :=
  length_fileWords_map (fun rra : MemRra => .rraDef rra.rraDef) rras fun _ => rfl

lemma length_rraPtrWords (rras : List MemRra) : (rraPtrWords rras).length = 1 * rras.length :=
  length_fileWords_map (fun rra : MemRra => .rraPtr rra.curRow) rras fun _ => rfl

lemma length_wordsBetween (hcdp : ∀ rra ∈ rrd.rra, rra.cdpPrep.length = rrd.dsCnt) :
    (wordsBetween rrd).length = 2 + 14 * rrd.dsCnt + 10 * rrd.dsCnt * rrd.rra.length := by
  have hlen : (rrd.rra.flatMap fun rra => rra.cdpPrep).length = rrd.rra.length * rrd.dsCnt := by
    rw [List.length_flatMap, List.map_congr_left fun rra hrra => hcdp rra hrra, List.map_const', List.sum_replicate,
      smul_eq_mul]
  have hcdps : (fileWords (rrd.rra.flatMap fun rra => rra.cdpPrep.map .cdpPrep)).length = 10 * (rrd.rra.length * rrd.dsCnt) := by
    rw [← hlen, ← List.map_flatMap]
    exact length_fileWords_map FileItem.cdpPrep _ fun _ => rfl
  rw [wordsBetween, List.length_append, List.length_append, length_fileWords_singleton, hcdps,
    length_fileWords_map (fun d : DataSource => .pdpPrep d.pdpPrep) rrd.ds fun _ => rfl, mul_comm rrd.rra.length, mul_assoc]
  simp [FileItem.part, RrdPart.sizeof, MemRrd.dsCnt]

/-- The length of the header. -/
lemma length_headerWords (hcdp : ∀ rra ∈ rrd.rra, rra.cdpPrep.length = rrd.dsCnt) :
    (headerWords rrd).length = 18 + 29 * rrd.dsCnt + 16 * rrd.rra.length + 10 * rrd.dsCnt * rrd.rra.length := by
  rw [headerWords_eq, List.length_append, List.length_append, List.length_append, length_wordsBefore, length_rraDefWords,
    length_rraPtrWords, length_wordsBetween hcdp]
  ring

/-- Two parts of a file are written again. -/
lemma rewrite_parts (before old between old' behind : List FileWord) {buf buf' : List FileWord} (pos : ℕ)
    (hlen : buf.length = old.length) (hlen' : buf'.length = old'.length) :
    (rrdWrite (seekCur (rrdWrite (seekSet ⟨before ++ old ++ between ++ old' ++ behind, pos⟩ before.length) buf)
      between.length) buf').words = before ++ buf ++ between ++ buf' ++ behind := by
  have hfirst : rrdWrite (seekSet ⟨before ++ old ++ between ++ old' ++ behind, pos⟩ before.length) buf =
      ⟨before ++ buf ++ (between ++ old' ++ behind), before.length + buf.length⟩ := by
    rw [← rrdWrite_replace before (between ++ old' ++ behind) hlen]
    simp only [seekSet, List.append_assoc]
  have hsecond := rrdWrite_replace (before ++ buf ++ between) behind hlen'
  have hplace : (before ++ buf ++ between).length = before.length + buf.length + between.length := by
    simp only [List.length_append]
  rw [hplace] at hsecond
  rw [hfirst, seekCur]
  simp only [← List.append_assoc, hsecond]

/-- The definitions and the pointers replace the old ones. -/
lemma rewriteRra_eq {rras : List MemRra} (hcdp : ∀ rra ∈ rrd.rra, rra.cdpPrep.length = rrd.dsCnt)
    (hcdps : rras.map (·.cdpPrep) = rrd.rra.map (·.cdpPrep)) (values : List FileWord) (pos : ℕ) :
    (rewriteRra { rrd with rra := rras } ⟨headerWords rrd ++ values, pos⟩).words =
      headerWords { rrd with rra := rras } ++ values := by
  have hcnt : rras.length = rrd.rra.length := by
    have h := congrArg List.length hcdps
    rwa [List.length_map, List.length_map] at h
  have hareas : (rras.flatMap fun rra => rra.cdpPrep.map FileItem.cdpPrep) =
      rrd.rra.flatMap fun rra => rra.cdpPrep.map .cdpPrep := by
    have h := congrArg (·.flatMap (·.map FileItem.cdpPrep)) hcdps
    simpa only [List.flatMap_map] using h
  have hbefore : wordsBefore { rrd with rra := rras } = wordsBefore rrd := by
    simp only [wordsBefore, hcnt]
    rfl
  have hbetween : wordsBetween { rrd with rra := rras } = wordsBetween rrd := by
    simp only [wordsBetween, hareas]
  have hseek : ∀ out : CreatedFile, seekCur (seekCur (seekCur out 2) (14 * rrd.dsCnt)) (10 * rrd.dsCnt * rrd.rra.length) =
      seekCur out (wordsBetween rrd).length := fun out => by
    simp only [seekCur, length_wordsBetween hcdp, add_assoc]
  have hparts := rewrite_parts (wordsBefore rrd) (rraDefWords rrd.rra) (wordsBetween rrd) (rraPtrWords rrd.rra) values pos
    (show (rraDefWords rras).length = _ by rw [length_rraDefWords, length_rraDefWords, hcnt])
    (show (rraPtrWords rras).length = _ by rw [length_rraPtrWords, length_rraPtrWords, hcnt])
  rw [headerWords_eq rrd, headerWords_eq { rrd with rra := rras }, hbefore, hbetween, ← hparts, length_wordsBefore, ← hseek,
    ← hcnt]
  rfl

end Layout

end Rrdtool
