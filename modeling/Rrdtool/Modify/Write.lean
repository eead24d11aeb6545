import Rrdtool.Lib.Blocks
import Rrdtool.Modify.Structure

/-!
# Writing a database to its file

Port of `write_rrd` and `write_fh` of `src/rrd_create.c`. The database is written to a temporary file, which takes the
name of the output file when it is complete. What the operating system does is given by `Outcomes`; the calls of
`rrdc_forget` do nothing here.

The return code is the one of `write_fh`: it is 0 when the mode cannot be changed or the file not be renamed. The
output file is then the old one (`writeRrd_allOrNothing_iff`).
-/

namespace Rrdtool

/-! ### The file -/

/-- The items of a file, in the units in which they are written. -/
inductive FileItem where
  | statHead (version dsCnt rraCnt pdpStep : ℕ)
  | dsDef (d : DsDef)
  | rraDef (r : RraDef)
  | liveHead (lastUp lastUpUsec : ℕ)
  | pdpPrep (p : PdpPrep)
  | cdpPrep (c : CdpPrep)
  | rraPtr (curRow : ℕ)
  | value (v : RrdValue)

/-- The parts of the header, one for each call of `fwrite`. -/
def headerChunks (rrd : MemRrd) : List (List FileItem) :=
  [[.statHead rrd.version rrd.dsCnt rrd.rra.length rrd.pdpStep], rrd.ds.map fun d => .dsDef d.dsDef,
    rrd.rra.map fun rra => .rraDef rra.rraDef, [.liveHead rrd.lastUp rrd.lastUpUsec],
    rrd.ds.map fun d => .pdpPrep d.pdpPrep, rrd.rra.flatMap fun rra => rra.cdpPrep.map .cdpPrep,
    rrd.rra.map fun rra => .rraPtr rra.curRow]

/-- The values of `numRows` rows from the row `offset` of `rrd_value` on. -/
@[grind] def rowItems (rrd : MemRrd) (offset numRows : ℕ) : List FileItem :=
  (List.range (numRows * rrd.dsCnt)).map fun j => .value (rrd.rrdValue (offset * rrd.dsCnt + j))

/-- `row_cnt` of an archive. -/
@[grind] def MemRrd.rowCntAt (rrd : MemRrd) (k : ℕ) : ℕ := (rrd.rra[k]?).elim 0 (·.rraDef.rowCnt)

/-- A file has version 3 or higher. -/
@[grind] def atLeastThree (rrd : MemRrd) : MemRrd := { rrd with version := if rrd.version < 3 then 3 else rrd.version }

/-- The whole database: every archive with the rows that are its own. -/
@[grind] def serialise (rrd : MemRrd) : List FileItem :=
  (headerChunks (atLeastThree rrd)).flatten ++
    (List.range rrd.rra.length).flatMap fun k => rowItems rrd (rrd.rowsBefore k) (rrd.rowCntAt k)

/-! ### Writing -/

/-- What the operating system does: whether a call succeeds, where `fwrite` stops, if it does not write everything,
and the mode of the output file, if it exists. -/
structure Outcomes where
  malloc : Bool
  mkstemp : Bool
  fdopen : Bool
  fwrite : ℕ → Option ℕ
  fflush : Bool
  stat : Option ℕ
  chmod : Bool
  rename : Bool

/-- A sequence of `FWRITE_CHECK`s, numbered from `call` on: whether all of them succeed, and what is written. -/
def writeChunks (os : Outcomes) : ℕ → List (List FileItem) → List FileItem → Bool × List FileItem
  | _, [], written => (true, written)
  | call, items :: rest, written =>
    match os.fwrite call with
    | some n => (false, written ++ items.take n)
    | none => writeChunks os (call + 1) rest (written ++ items)

/-- The loop of `write_fh` over the archives. Its counter and the offset of the rows are `unsigned int`s. -/
@[grind] def writeRows (os : Outcomes) (rrd : MemRrd) : ℕ → ℕ → ℕ → ℕ → List FileItem → Option (Bool × List FileItem)
  | 0, _, _, _, _ => none
  | fuel + 1, i, rraOffset, call, written =>
    match rrd.rra[i]? with
    | none => some (true, written)
    | some rra =>
      let numRows := rra.rraDef.rowCnt
      if 0 < numRows then
        match os.fwrite call with
        | some n => some (false, written ++ (rowItems rrd rraOffset numRows).take n)
        | none =>
          writeRows os rrd fuel ((i + 1) % 2 ^ 32) ((rraOffset + numRows) % 2 ^ 32) (call + 1)
            (written ++ rowItems rrd rraOffset numRows)
      else writeRows os rrd fuel ((i + 1) % 2 ^ 32) rraOffset call written

/-- `write_fh`. -/
@[grind] def writeFh (fuel : ℕ) (os : Outcomes) (rrd : MemRrd) : Option (ℤ × List FileItem) :=
  match writeChunks os 0 (headerChunks (atLeastThree rrd)) [] with
  | (false, written) => some (-1, written)
  | (true, written) =>
    match writeRows os rrd fuel 0 0 7 written with
    | none => none
    | some (false, written) => some (-1, written)
    | some (true, written) => some (if os.fflush then 0 else -1, written)

/-- What the name of the output file stands for. -/
inductive OutFile where
  | old
  | new (mode : ℕ) (content : List FileItem)

/-- The output file and the temporary file, which has a mode and a content. -/
structure Files where
  out : OutFile
  temp : Option (ℕ × List FileItem)

/-- The mode that `mkstemp` gives, and the one of a file that there was not. -/
def tempMode : ℕ := 0o600
def newMode : ℕ := 0o644

/-- The rename dance: the temporary file gets the mode of the output file, and then its name. -/
def renameTemp (os : Outcomes) (content : List FileItem) : Files :=
  let mode := os.stat.getD newMode
  if os.chmod = false then ⟨.old, some (tempMode, content)⟩
  else if os.rename = false then ⟨.old, some (mode, content)⟩
  else ⟨.new mode content, none⟩

/-- `unlink(tmpfilename)`. -/
def Files.unlinkTemp (files : Files) : Files := { files with temp := none }

/-- `write_rrd`: the return code and the files. -/
@[grind] def writeRrd (fuel : ℕ) (os : Outcomes) (outfilename : Text) (rrd : MemRrd) : Option (ℤ × Files) :=
  if outfilename = ['-'] then (writeFh fuel os rrd).map fun (rc, _) => (rc, ⟨.old, none⟩)
  else if os.malloc = false then some (-1, ⟨.old, none⟩)
  else if os.mkstemp = false then some (-1, Files.unlinkTemp ⟨.old, none⟩)
  else if os.fdopen = false then some (-1, Files.unlinkTemp ⟨.old, some (tempMode, [])⟩)
  else
    (writeFh fuel os rrd).map fun (rc, content) =>
      (rc, (if rc = 0 then renameTemp os content else Files.unlinkTemp ⟨.old, some (tempMode, content)⟩).unlinkTemp)

/-! ### What is written -/

/-- The output file is the old one or the whole of the new database, the temporary file is gone, and the code is 0
exactly if the output file is the new one. -/
structure AllOrNothing (rrd : MemRrd) (rc : ℤ) (files : Files) : Prop where
  out : files.out = .old ∨ ∃ mode, files.out = .new mode (serialise rrd)
  temp : files.temp = none
  rc : rc = 0 ↔ files.out ≠ .old

/-- The calls of `fwrite`, for fewer than 2^32 archives. -/
@[grind] def calls (rrd : MemRrd) : ℕ := 7 + rrd.rra.countP fun rra => 0 < rra.rraDef.rowCnt

/-- The offset of the rows is that of the archive, or the values there are the same. -/
def RowsRight (rrd : MemRrd) : Prop :=
  ∀ k < rrd.rra.length, ∀ j < rrd.rowCntAt k * rrd.dsCnt,
    rrd.rrdValue (rrd.rowsBefore k % 2 ^ 32 * rrd.dsCnt + j) = rrd.rrdValue (rrd.rowsBefore k * rrd.dsCnt + j)

variable {os : Outcomes} {rrd : MemRrd}

lemma writeChunks_eq (call : ℕ) (chunks : List (List FileItem)) (written : List FileItem) :
    ((writeChunks os call chunks written).1 = true ↔ ∀ c, call ≤ c → c < call + chunks.length → os.fwrite c = none) ∧
      ((writeChunks os call chunks written).1 = true →
        (writeChunks os call chunks written).2 = written ++ chunks.flatten) := by
  induction chunks generalizing call written with
  | nil =>
    refine ⟨iff_of_true rfl fun c hle hlt => ?_, fun _ => (List.append_nil written).symm⟩
    rw [List.length_nil] at hlt
    omega
  | cons items chunks ih =>
    rw [writeChunks]
    cases hw : os.fwrite call with
    | some n =>
      refine ⟨iff_of_false Bool.false_ne_true fun hall => ?_, fun h => absurd h Bool.false_ne_true⟩
      have hnone := hall call le_rfl (Nat.lt_add_of_pos_right (by rw [List.length_cons]; exact Nat.succ_pos _))
      rw [hw] at hnone
      cases hnone
    | none =>
      obtain ⟨hiff, hcontent⟩ := ih (call + 1) (written ++ items)
      refine ⟨hiff.trans ⟨fun hall c hle hlt => ?_, fun hall c hle hlt => ?_⟩, fun h => ?_⟩
      · obtain rfl | hne := eq_or_ne c call
        · exact hw
        · rw [List.length_cons] at hlt
          exact hall c (by omega) (by omega)
      · refine hall c (by omega) ?_
        rw [List.length_cons]
        omega
      · rw [hcontent h, List.flatten_cons, List.append_assoc]

/-- The rows as they are written: the offset is an `unsigned int`. -/
@[grind] def writtenRows (rrd : MemRrd) (k : ℕ) : List FileItem := rowItems rrd (rrd.rowsBefore k % 2 ^ 32) (rrd.rowCntAt k)

lemma rowsBefore_succ' {k : ℕ} {rra : MemRra} (h : rrd.rra[k]? = some rra) :
    rrd.rowsBefore (k + 1) = rrd.rowsBefore k + rra.rraDef.rowCnt := by
  simp [MemRrd.rowsBefore, List.take_add_one, h]

/-- A loop that ends has written all archives, unless a call failed. -/
lemma writeRows_eq (hcnt : rrd.rra.length < 2 ^ 32) {fuel i call : ℕ} {written : List FileItem} {ok : Bool}
    {content : List FileItem} (hi : i ≤ rrd.rra.length)
    (h : writeRows os rrd fuel i (rrd.rowsBefore i % 2 ^ 32) call written = some (ok, content)) :
    (ok = true ↔ ∀ c, call ≤ c → c < call + (rrd.rra.drop i).countP (fun rra => 0 < rra.rraDef.rowCnt) →
      os.fwrite c = none) ∧
      (ok = true → content = written ++ (List.range' i (rrd.rra.length - i)).flatMap (writtenRows rrd)) := by
  induction fuel generalizing i call written with
  | zero => cases h
  | succ fuel ih =>
    rw [writeRows] at h
    split at h
    · rename_i hnone
      cases h
      have hlen := List.getElem?_eq_none_iff.1 hnone
      rw [List.drop_eq_nil_of_le hlen, Nat.sub_eq_zero_of_le hlen]
      refine ⟨iff_of_true rfl fun c hle hlt => ?_, fun _ => (List.append_nil content).symm⟩
      rw [List.countP_nil] at hlt
      omega
    · rename_i rra hrra
      obtain ⟨hlt, hget⟩ := List.getElem?_eq_some_iff.1 hrra
      have hnext : (i + 1) % 2 ^ 32 = i + 1 := Nat.mod_eq_of_lt (by omega)
      have hdrop : rrd.rra.drop i = rra :: rrd.rra.drop (i + 1) := by rw [List.drop_eq_getElem_cons hlt, hget]
      have hcntAt : rrd.rowCntAt i = rra.rraDef.rowCnt := by rw [MemRrd.rowCntAt, hrra]; rfl
      have hrange : List.range' i (rrd.rra.length - i) = i :: List.range' (i + 1) (rrd.rra.length - (i + 1)) := by
        rw [show rrd.rra.length - i = rrd.rra.length - (i + 1) + 1 by omega, List.range'_succ]
      dsimp only at h
      split at h
      · rename_i hpos
        have hcount : (rrd.rra.drop i).countP (fun rra => 0 < rra.rraDef.rowCnt) =
            (rrd.rra.drop (i + 1)).countP (fun rra => 0 < rra.rraDef.rowCnt) + 1 := by
          rw [hdrop, List.countP_cons_of_pos (by simpa using hpos)]
        split at h
        · rename_i n hw
          cases h
          refine ⟨iff_of_false Bool.false_ne_true fun hall => ?_, fun h => absurd h Bool.false_ne_true⟩
          have hnone := hall call le_rfl (by omega)
          rw [hw] at hnone
          cases hnone
        · rename_i hw
          rw [hnext, Nat.mod_add_mod, ← rowsBefore_succ' hrra] at h
          obtain ⟨hiff, hcontent⟩ := ih (show i + 1 ≤ rrd.rra.length from hlt) h
          refine ⟨hiff.trans ⟨fun hall c hle hltc => ?_, fun hall c hle hltc => hall c (by omega) (by omega)⟩,
            fun hok => ?_⟩
          · obtain rfl | hne := eq_or_ne c call
            · exact hw
            · exact hall c (by omega) (by omega)
          · rw [hcontent hok, hrange, List.flatMap_cons, writtenRows, hcntAt, List.append_assoc]
      · rename_i hzero
        have hcount : (rrd.rra.drop i).countP (fun rra => 0 < rra.rraDef.rowCnt) =
            (rrd.rra.drop (i + 1)).countP (fun rra => 0 < rra.rraDef.rowCnt) := by
          rw [hdrop, List.countP_cons_of_neg (by simpa using hzero)]
        have hbefore : rrd.rowsBefore (i + 1) = rrd.rowsBefore i := by
          rw [rowsBefore_succ' hrra]
          omega
        rw [hnext, ← hbefore] at h
        obtain ⟨hiff, hcontent⟩ := ih (show i + 1 ≤ rrd.rra.length from hlt) h
        rw [hcount]
        refine ⟨hiff, fun hok => ?_⟩
        have hempty : writtenRows rrd i = [] := by
          rw [writtenRows, hcntAt, rowItems, Nat.eq_zero_of_not_pos hzero, Nat.zero_mul]
          rfl
        rw [hcontent hok, hrange, List.flatMap_cons, hempty, List.nil_append]

/-- The loop ends. -/
lemma writeRows_isSome (hcnt : rrd.rra.length < 2 ^ 32) {fuel i rraOffset call : ℕ} {written : List FileItem}
    (hi : i ≤ rrd.rra.length) (hfuel : rrd.rra.length < fuel + i) :
    (writeRows os rrd fuel i rraOffset call written).isSome := by
  induction fuel generalizing i rraOffset call written with
  | zero => omega
  | succ fuel ih =>
    rw [writeRows]
    split
    · rfl
    · rename_i rra hrra
      have hlt := (List.getElem?_eq_some_iff.1 hrra).1
      rw [Nat.mod_eq_of_lt (show i + 1 < 2 ^ 32 by omega)]
      dsimp only
      split
      · split
        · rfl
        · exact ih (by omega) (by omega)
      · exact ih (by omega) (by omega)

/-- The counter wraps around before it reaches so many archives: the loop ends by a failed call only. -/
lemma writeRows_wraps (hcnt : 2 ^ 32 ≤ rrd.rra.length) {fuel i rraOffset call : ℕ} {written content : List FileItem}
    {ok : Bool} (hi : i < 2 ^ 32)
    (h : writeRows os rrd fuel i rraOffset call written = some (ok, content)) : ok = false := by
  induction fuel generalizing i rraOffset call written with
  | zero => cases h
  | succ fuel ih =>
    have hnext : (i + 1) % 2 ^ 32 < 2 ^ 32 := Nat.mod_lt _ (by norm_num)
    rw [writeRows] at h
    split at h
    · rename_i hnone
      exact absurd (List.getElem?_eq_none_iff.1 hnone) (by omega)
    · dsimp only at h
      split at h
      · split at h
        · cases h
          rfl
        · exact ih hnext h
      · exact ih hnext h

lemma writtenRows_eq_iff (rrd : MemRrd) (written : List FileItem) :
    written ++ (List.range' 0 (rrd.rra.length - 0)).flatMap (writtenRows rrd) =
      written ++ (List.range rrd.rra.length).flatMap (fun k => rowItems rrd (rrd.rowsBefore k) (rrd.rowCntAt k)) ↔
      RowsRight rrd := by
  rw [List.append_cancel_left_eq, Nat.sub_zero, ← List.range_eq_range', Blocks.flatMap_eq_iff fun k _ => by
    rw [writtenRows, rowItems, rowItems, List.length_map, List.length_map]]
  simp only [List.mem_range, RowsRight, writtenRows, rowItems, List.map_inj_left, FileItem.value.injEq]

/-- `write_fh` returns 0 exactly if no call failed. -/
lemma writeFh_eq_zero_iff {fuel : ℕ} {rc : ℤ} {content : List FileItem} (h : writeFh fuel os rrd = some (rc, content)) :
    (rc = 0 ↔ rrd.rra.length < 2 ^ 32 ∧ (∀ c < calls rrd, os.fwrite c = none) ∧ os.fflush = true) ∧
      (rc = 0 → content = (headerChunks (atLeastThree rrd)).flatten ++
        (List.range' 0 (rrd.rra.length - 0)).flatMap (writtenRows rrd)) := by
  have hheader := @writeChunks_eq os 0 (headerChunks (atLeastThree rrd)) []
  have hseven : (headerChunks (atLeastThree rrd)).length = 7 := rfl
  rw [hseven] at hheader
  rw [writeFh] at h
  split at h
  · rename_i written hw
    cases h
    rw [hw] at hheader
    refine ⟨iff_of_false (by decide) fun hall => ?_, fun h0 => absurd h0 (by decide)⟩
    refine absurd (hheader.1.2 fun c _ hc => hall.2.1 c ?_) Bool.false_ne_true
    rw [calls]
    omega
  · rename_i written hw
    rw [hw] at hheader
    obtain ⟨hcalls, hwritten⟩ := hheader
    have hcalls := hcalls.1 rfl
    have hwritten : written = _ := hwritten rfl
    rw [List.nil_append] at hwritten
    split at h
    · cases h
    · rename_i written' hrows
      cases h
      refine ⟨iff_of_false (by decide) fun hall => ?_, fun h0 => absurd h0 (by decide)⟩
      obtain ⟨hiff, -⟩ := writeRows_eq hall.1 (Nat.zero_le _) hrows
      exact absurd (hiff.2 fun c hle hlt => hall.2.1 c (by rw [calls]; exact hlt)) Bool.false_ne_true
    · rename_i written' hrows
      obtain hcnt | hcnt := Nat.lt_or_ge rrd.rra.length (2 ^ 32)
      · obtain ⟨hiff, hcontent⟩ := writeRows_eq hcnt (Nat.zero_le _) hrows
        have hall : ∀ c < calls rrd, os.fwrite c = none := by
          intro c hc
          obtain hlt | hge := Nat.lt_or_ge c 7
          · exact hcalls c (Nat.zero_le c) (by omega)
          · exact hiff.1 rfl c hge hc
        rw [hwritten] at hcontent
        cases hf : os.fflush with
        | false =>
          rw [hf] at h
          cases h
          refine ⟨iff_of_false (by decide) fun hand => ?_, fun h0 => absurd h0 (by decide)⟩
          exact absurd hand.2.2 Bool.false_ne_true
        | true =>
          rw [hf] at h
          cases h
          exact ⟨iff_of_true rfl ⟨hcnt, hall, rfl⟩, fun _ => hcontent rfl⟩
      · exact absurd (writeRows_wraps hcnt (by norm_num) hrows) (by decide)

/-! ### All or nothing -/

/-- The file is not replaced although it should be, or not with the whole database, unless
* the temporary file cannot be created or a call fails while it is written (so many archives that the counter wraps
  around are never written),
* or it gets its mode and its name, and the offset of the rows is right. -/
def WritesRight (os : Outcomes) (rrd : MemRrd) : Prop :=
  os.malloc = false ∨ os.mkstemp = false ∨ os.fdopen = false ∨
    ¬ (rrd.rra.length < 2 ^ 32 ∧ (∀ c < calls rrd, os.fwrite c = none) ∧ os.fflush = true) ∨
    os.chmod = true ∧ os.rename = true ∧ RowsRight rrd

/-- Nothing is replaced and the code is -1. -/
lemma allOrNothing_old (rrd : MemRrd) : AllOrNothing rrd (-1) ⟨.old, none⟩ :=
  ⟨.inl rfl, rfl, iff_of_false (by decide) fun h => h rfl⟩

lemma allOrNothing_renameTemp (content : List FileItem) :
    AllOrNothing rrd 0 (renameTemp os content).unlinkTemp ↔
      os.chmod = true ∧ os.rename = true ∧ content = serialise rrd := by
  rw [renameTemp]
  split
  · rename_i hchmod
    exact iff_of_false (fun h => (h.rc.1 rfl) rfl) fun h => by simp [hchmod] at h
  · rename_i hchmod
    split
    · rename_i hrename
      exact iff_of_false (fun h => (h.rc.1 rfl) rfl) fun h => by simp [hrename] at h
    · rename_i hrename
      rw [Bool.not_eq_false] at hchmod hrename
      rw [and_iff_right hchmod, and_iff_right hrename]
      constructor
      · intro h
        obtain hold | ⟨mode, hnew⟩ := h.out
        · cases hold
        · exact (OutFile.new.inj hnew).2
      · rintro rfl
        exact ⟨.inr ⟨_, rfl⟩, rfl, iff_of_true rfl nofun⟩

lemma writeFh_code {fuel : ℕ} {rc : ℤ} {content : List FileItem} (h : writeFh fuel os rrd = some (rc, content)) :
    rc = 0 ∨ rc = -1 := by
  rw [writeFh] at h
  split at h
  · cases h
    exact .inr rfl
  · split at h
    · cases h
    · cases h
      exact .inr rfl
    · cases h
      split
      · exact .inl rfl
      · exact .inr rfl

lemma writeFh_isSome (os : Outcomes) (hcnt : rrd.rra.length < 2 ^ 32) :
    (writeFh (rrd.rra.length + 1) os rrd).isSome := by
  rw [writeFh]
  split
  · rfl
  · rename_i written hw
    have hsome : (writeRows os rrd (rrd.rra.length + 1) 0 0 7 written).isSome :=
      writeRows_isSome hcnt (Nat.zero_le _) (by omega)
    obtain ⟨⟨ok, content⟩, hrows⟩ := Option.isSome_iff_exists.1 hsome
    rw [hrows]
    cases ok <;> rfl

/-- Whatever fails, a call that returns is all or nothing exactly in the cases of `WritesRight`, and it returns when
there are fewer than 2^32 archives. -/
theorem writeRrd_allOrNothing_iff (os : Outcomes) (outfilename : Text) (rrd : MemRrd) (hname : outfilename ≠ ['-']) :
    (∀ fuel rc files, writeRrd fuel os outfilename rrd = some (rc, files) →
      (AllOrNothing rrd rc files ↔ WritesRight os rrd)) ∧
      (rrd.rra.length < 2 ^ 32 → ∃ fuel, (writeRrd fuel os outfilename rrd).isSome) := by
  constructor
  · intro fuel rc files h
    rw [writeRrd, if_neg hname] at h
    split_ifs at h with hmalloc hmkstemp hfdopen
    · cases h
      exact iff_of_true (allOrNothing_old rrd) (.inl hmalloc)
    · cases h
      exact iff_of_true (allOrNothing_old rrd) (.inr (.inl hmkstemp))
    · cases h
      exact iff_of_true (allOrNothing_old rrd) (.inr (.inr (.inl hfdopen)))
    · obtain ⟨⟨rc', content⟩, hfh, heq⟩ := Option.map_eq_some_iff.1 h
      cases heq
      obtain ⟨hzero, hcontent⟩ := writeFh_eq_zero_iff hfh
      rw [WritesRight, ← hzero, or_iff_right hmalloc, or_iff_right hmkstemp, or_iff_right hfdopen]
      by_cases hrc : rc = 0
      · subst hrc
        rw [if_pos rfl, allOrNothing_renameTemp, hcontent rfl, serialise, writtenRows_eq_iff]
        simp
      · rw [if_neg hrc]
        refine iff_of_true ?_ (.inl hrc)
        obtain rfl := (writeFh_code hfh).resolve_left hrc
        exact allOrNothing_old rrd
  · intro hcnt
    refine ⟨rrd.rra.length + 1, ?_⟩
    rw [writeRrd]
    split_ifs
    · rw [Option.isSome_map]
      exact writeFh_isSome os hcnt
    · rfl
    · rfl
    · rfl
    · rw [Option.isSome_map]
      exact writeFh_isSome os hcnt

/-- One data source and one archive of two rows. -/
def smallRrd : MemRrd where
  version := 3
  pdpStep := 300
  lastUp := 1200
  lastUpUsec := 0
  ds := [⟨⟨['a'], .gauge, 600, .nan, .nan, []⟩, ⟨['5'], 0, .fin 0⟩⟩]
  rra := [⟨plainRra .average 2 1 0, [CdpPrep.zero], 1⟩]
  rrdValue := fun k => .fin (k : ℚ)

/-- Everything succeeds. -/
def noFailure : Outcomes := ⟨true, true, true, fun _ => none, true, some 0o644, true, true⟩

theorem writeRrd_allOrNothing_iff_small :
    (∃ files, writeRrd 2 noFailure ['x'] smallRrd = some (0, files) ∧
      (AllOrNothing smallRrd 0 files ↔ WritesRight noFailure smallRrd)) := by
  refine ⟨_, rfl, ?_⟩
  exact (writeRrd_allOrNothing_iff noFailure ['x'] smallRrd (by decide)).1 2 0 _ rfl

/-- The file cannot be renamed: the code is 0 and the output file the old one. -/
theorem writeRrd_rename_fails :
    writeRrd 2 { noFailure with rename := false } ['x'] smallRrd = some (0, ⟨.old, none⟩) ∧
      ¬ AllOrNothing smallRrd 0 ⟨.old, none⟩ := by
  refine ⟨rfl, fun h => h.rc.1 rfl rfl⟩

end Rrdtool
