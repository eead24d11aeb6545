import Rrdtool.Modify.Structure
import Rrdtool.Prefill.Rows

/-!
# The rows that a new row is filled from

`populate_row` asks `row_for_time` for the rows of a candidate that hold the first and the last second of a new row,
and goes over the rows from the one to the other. An end that is not in the ring is replaced: the first by the current
row, the last by the row in front of it. The rows are those that meet the new row exactly in the cases of
`PopulatesRight` (`populateRow_rows_iff`).
-/

namespace Rrdtool

open SourceCandidate

namespace SourceCandidate

/-- The candidate of `populate_row`. -/
@[grind] def toRraCandidate (c : SourceCandidate) : RraCandidate := ⟨c.rra, c.rrd.rowsBefore c.rraIndex * c.rrd.dsCnt⟩

/-- The rows that `populate_row` goes over, for a new row from `start` to `stop`. -/
@[grind] def populateRows (c : SourceCandidate) (start stop : ℤ) : List ℕ :=
  match candidateRows c.rrd c.toRraCandidate start stop with
  | none => []
  | some (first, rows) => (List.range rows.toNat).map fun i => (first.toNat + i) % c.rra.rraDef.rowCnt

/-- The age of the row that `row_for_time` finds, if it finds one. -/
@[grind] def found (c : SourceCandidate) (t : ℤ) : Option ℤ := if c.now < t then none else c.foundAge t

/-- The rows are those of the ring that meet the seconds from `start` to `stop`, each once. -/
structure MeetsOnce (c : SourceCandidate) (start stop : ℤ) (rows : List ℕ) : Prop where
  once : rows.Nodup
  mem : ∀ row, row ∈ rows ↔ row < c.rra.rraDef.rowCnt ∧ c.Intersects start stop row

/-- When the rows are the right ones.
* Both ends are found: `row_for_time` is right about them, and the rows are fewer than the ring has or start with
  row 0.
* The end lies behind the ring: the current row is row 0, and the row in front of it, taken modulo the number of rows
  without a sign, is row 0 as well.
* The start lies before the ring: only the current row meets the new row.
* None is found: no row meets the new row. -/
def PopulatesRight (c : SourceCandidate) (start stop : ℤ) : Prop :=
  match c.found start, c.found stop with
  | some a, some b => a = c.age start ∧ b = c.age stop ∧ (a - b + 1 < c.rowCnt ∨ c.rowOfAge a = 0)
  | some a, none =>
    a = c.age start ∧ c.rra.curRow = 0 ∧ c.rra.rraDef.rowCnt ∣ 2 ^ 64 - 1 ∧ (a = 0 ∨ a + 1 < c.rowCnt)
  | none, some b =>
    b = 0 ∧ (c.rowCnt = 1 ∨ c.age start = 0) ∨
      b = 1 ∧ c.rra.curRow = 0 ∧ c.age stop = 0 ∧ c.rowCnt ≤ c.age start + 1
  | none, none => ∀ row < c.rra.rraDef.rowCnt, ¬ c.Intersects start stop row

end SourceCandidate

variable {c : SourceCandidate} {start stop t : ℤ}

/-! ### The rows of some ages -/

/-- `n` rows in turn from the one of the age `a` on. -/
def rowsFromAge (c : SourceCandidate) (a : ℤ) (n : ℕ) : List ℕ :=
  (List.range n).map fun (i : ℕ) => c.rowOfAge (a - i)

lemma rowOfAge_congr {a b : ℤ} (hmod : a % c.rowCnt = b % c.rowCnt) : c.rowOfAge a = c.rowOfAge b := by
  rw [rowOfAge, rowOfAge, Int.sub_emod, hmod, ← Int.sub_emod]

/-- Behind the current row the ages start anew at the oldest one. -/
lemma exists_wrapped {a : ℤ} {i n : ℕ} (ha0 : 0 ≤ a) (ha : a < c.rowCnt) (hn : n ≤ c.rowCnt) (hi : i < n) :
    ∃ e, 0 ≤ e ∧ e < c.rowCnt ∧ c.rowOfAge e = c.rowOfAge (a - i) ∧
      (i ≤ a ∧ e = a - i ∨ a < i ∧ e = a - i + c.rowCnt) := by
  by_cases hia : i ≤ a
  · exact ⟨a - i, by omega, by omega, rfl, .inl ⟨hia, rfl⟩⟩
  · have hmod : (a - i + c.rowCnt) % c.rowCnt = (a - i) % c.rowCnt := Int.add_emod_right _ _
    exact ⟨a - i + c.rowCnt, by omega, by omega, rowOfAge_congr hmod, .inr ⟨by omega, rfl⟩⟩

section Ring

variable (h : c.Sized)
include h

lemma rowsFromAge_eq (a : ℤ) (n : ℕ) :
    (List.range n).map (fun i => (c.rowOfAge a + i) % c.rra.rraDef.rowCnt) = rowsFromAge c a n := by
  refine List.map_congr_left fun i _ => ?_
  have hcnt : c.rowCnt = c.rra.rraDef.rowCnt := rfl
  have hcast : (((c.rowOfAge a + i) % c.rra.rraDef.rowCnt : ℕ) : ℤ) = c.rowOfAge (a - i) := by
    rw [rowOfAge_cast h, Int.natCast_mod, Nat.cast_add, rowOfAge_cast h, ← hcnt, Int.emod_add_emod]
    congr 1
    ring
  exact_mod_cast hcast

lemma mem_rowsFromAge {a e : ℤ} {n : ℕ} (ha0 : 0 ≤ a) (ha : a < c.rowCnt) (hn : n ≤ c.rowCnt) (he0 : 0 ≤ e)
    (he : e < c.rowCnt) :
    c.rowOfAge e ∈ rowsFromAge c a n ↔ e ≤ a ∧ a < e + n ∨ a < e ∧ a + c.rowCnt < e + n := by
  rw [rowsFromAge, List.mem_map]
  constructor
  · rintro ⟨i, hi, heq⟩
    rw [List.mem_range] at hi
    obtain ⟨e', he0', he', heq', hage⟩ := exists_wrapped ha0 ha hn hi
    obtain rfl := rowOfAge_inj h he0' he' he0 he (heq'.trans heq)
    omega
  · rintro (hle | hgt)
    · refine ⟨(a - e).toNat, List.mem_range.2 (by omega), ?_⟩
      rw [Int.toNat_of_nonneg (by omega), sub_sub_cancel]
    · refine ⟨(a - e + c.rowCnt).toNat, List.mem_range.2 (by omega), ?_⟩
      rw [Int.toNat_of_nonneg (by omega)]
      refine rowOfAge_congr ?_
      rw [← sub_sub, sub_sub_cancel, Int.sub_emod_right]

lemma rowsFromAge_nodup {a : ℤ} {n : ℕ} (ha0 : 0 ≤ a) (ha : a < c.rowCnt) (hn : n ≤ c.rowCnt) :
    (rowsFromAge c a n).Nodup := by
  refine List.Nodup.map_on (fun i hi j hj heq => ?_) List.nodup_range
  rw [List.mem_range] at hi hj
  obtain ⟨e, he0, he, heq₁, hage⟩ := exists_wrapped ha0 ha hn hi
  obtain ⟨e', he0', he', heq₂, hage'⟩ := exists_wrapped ha0 ha hn hj
  obtain rfl := rowOfAge_inj h he0 he he0' he' ((heq₁.trans heq).trans heq₂.symm)
  omega

/-- The rows meet the new row when their ages do. -/
lemma meetsOnce_rowsFromAge {a : ℤ} {n : ℕ} (ha0 : 0 ≤ a) (ha : a < c.rowCnt) (hn : n ≤ c.rowCnt) :
    c.MeetsOnce start stop (rowsFromAge c a n) ↔ ∀ e, 0 ≤ e → e < c.rowCnt →
      ((e ≤ a ∧ a < e + n ∨ a < e ∧ a + c.rowCnt < e + n) ↔ c.age stop ≤ e ∧ e ≤ c.age start) := by
  constructor
  · intro hmeets e he0 he
    rw [← mem_rowsFromAge h ha0 ha hn he0 he, hmeets.mem, intersects_iff h he0 he, and_iff_right (rowOfAge_lt h e)]
  · intro hages
    refine ⟨rowsFromAge_nodup h ha0 ha hn, fun row => ?_⟩
    constructor
    · intro hrow
      have hlt : row < c.rra.rraDef.rowCnt := by
        obtain ⟨i, -, rfl⟩ := List.mem_map.1 hrow
        exact rowOfAge_lt h _
      obtain ⟨e, he0, he, rfl⟩ := exists_age h hlt
      rw [mem_rowsFromAge h ha0 ha hn he0 he, hages e he0 he] at hrow
      exact ⟨hlt, (intersects_iff h he0 he).2 hrow⟩
    · rintro ⟨hlt, hmeets⟩
      obtain ⟨e, he0, he, rfl⟩ := exists_age h hlt
      rw [intersects_iff h he0 he] at hmeets
      rwa [mem_rowsFromAge h ha0 ha hn he0 he, hages e he0 he]

/-! ### What `row_for_time` finds -/

lemma rowForTime_found (t : ℤ) :
    rowForTime c.rrd c.rra.rraDef c.rra.curRow t =
      (c.found t).elim (-1) fun a => (c.rra.curRow - a) % c.rowCnt := by
  rw [found]
  split
  case isTrue hlate =>
    have hpos := h.slot_pos
    have hup := Int.emod_lt_of_pos (c.rrd.lastUp : ℤ) hpos
    have hnow : 0 ≤ c.now := by
      rw [now_eq]
      exact mul_nonneg (Int.ediv_nonneg (Int.natCast_nonneg _) hpos.le) hpos.le
    have hage : c.age t ≤ -1 := by
      have := Int.ediv_lt_of_lt_mul hpos (show c.now - t < 0 * c.slot by omega)
      rw [age]
      omega
    have hreq : c.rrd.lastUp < c.reqTime t := by
      rw [reqTime, if_pos (by omega)]
      have hmul : c.age t * c.slot ≤ -1 * c.slot := mul_le_mul_of_nonneg_right hage hpos.le
      rw [now] at *
      omega
    rw [rowForTime]
    simp only [timeslot_eq h, reqTime_eq h, reqTime_tmod h, if_false, if_pos hreq]
    rfl
  case isFalse hin => exact rowForTime_eq h (not_lt.1 hin)

lemma found_eq_some {a : ℤ} (hfound : c.found t = some a) :
    t ≤ c.now ∧ 0 ≤ c.age t ∧ c.age t ≤ a ∧ a ≤ c.age t + 1 ∧ a < c.rowCnt ∧ a = c.pastCnt t := by
  rw [found] at hfound
  split at hfound
  case isTrue => cases hfound
  case isFalse hin =>
    obtain ⟨hpast, hlt⟩ := foundAge_eq_some hfound
    have hle := not_lt.1 hin
    have hage := age_nonneg h hle
    have hone := pastCnt_eq h t
    refine ⟨hle, hage, ?_, ?_, hlt, hpast⟩
    · rw [hpast, hone]
      split_ifs <;> omega
    · rw [hpast, hone]
      split_ifs <;> omega

/-- The end is not found behind a start that is, unless it lies behind the ring. -/
lemma lt_of_found_none {a : ℤ} (hle : start ≤ stop) (hs : c.found start = some a) (he : c.found stop = none) :
    c.now < stop := by
  obtain ⟨hs', -, -, -, -, -⟩ := found_eq_some h hs
  by_contra hin
  rw [found, if_neg hs'.not_gt] at hs
  rw [found, if_neg hin] at he
  have hreq := reqTime_mono h hle
  have hpast := pastCnt_anti h hle
  rw [foundAge] at hs he
  split_ifs at hs he <;> omega

/-- Going from the row of the age `a` to that of the age `b`. -/
lemma rowOfAge_step {a b : ℤ} (hba : b ≤ a) (hab : a - b < c.rowCnt) :
    (c.rowOfAge b : ℤ) = if c.rowOfAge a + (a - b) < c.rowCnt then c.rowOfAge a + (a - b)
      else c.rowOfAge a + (a - b) - c.rowCnt := by
  have hlt := rowOfAge_lt h a
  have hcnt : c.rowCnt = c.rra.rraDef.rowCnt := rfl
  have hmod : (c.rowOfAge b : ℤ) = (c.rowOfAge a + (a - b)) % c.rowCnt := by
    rw [rowOfAge_cast h, rowOfAge_cast h, Int.emod_add_emod]
    congr 1
    ring
  rw [hmod]
  split
  · exact Int.emod_eq_of_lt (by omega) (by omega)
  · rw [← Int.sub_emod_right]
    exact Int.emod_eq_of_lt (by omega) (by omega)

/-! ### The rows that are gone over -/

/-- The rows for the ends that `row_for_time` finds, or does not find. -/
lemma populateRows_eq {first last : ℤ}
    (hfirst : first = (c.found start).elim (c.rowOfAge 0 : ℤ) fun a => (c.rowOfAge a : ℤ))
    (hlast : last = (c.found stop).elim ((u64 ((c.rra.curRow : ℤ) - 1) % c.rra.rraDef.rowCnt : ℕ) : ℤ)
      fun b => (c.rowOfAge b : ℤ)) (hsome : c.found start ≠ none ∨ c.found stop ≠ none) :
    c.populateRows start stop = rowsFromAge c ((c.found start).getD 0)
      (if last - first + 1 < 0 then last - first + 1 + c.rowCnt else last - first + 1).toNat := by
  have hrow : ∀ o : Option ℤ, (o.elim (-1) fun a => (c.rra.curRow - a) % c.rowCnt) = -1 ↔ o = none := by
    intro o
    cases o with
    | none => exact iff_of_true rfl rfl
    | some a =>
      have := Int.emod_nonneg (c.rra.curRow - a) h.rowCnt_pos.ne'
      exact iff_of_false (by simp only [Option.elim_some]; omega) nofun
  have hzero : (c.rowOfAge 0 : ℤ) = c.rra.curRow := by
    rw [rowOfAge_cast h, sub_zero]
    exact Int.emod_eq_of_lt (Int.natCast_nonneg _) (Int.ofNat_lt.2 h.curRow_lt)
  rw [populateRows, candidateRows]
  simp only [toRraCandidate, rowForTime_found h, hrow]
  rw [if_neg (by tauto)]
  simp only
  have hfirst' : (if c.found start = none then (c.rra.curRow : ℤ)
      else (c.found start).elim (-1) fun a => (c.rra.curRow - a) % c.rowCnt) = first := by
    rw [hfirst, hzero]
    cases c.found start with
    | none => rfl
    | some a => exact (rowOfAge_cast h a).symm
  have hlast' : (if c.found stop = none then ((u64 ((c.rra.curRow : ℤ) - 1) % c.rra.rraDef.rowCnt : ℕ) : ℤ)
      else (c.found stop).elim (-1) fun a => (c.rra.curRow - a) % c.rowCnt) = last := by
    rw [hlast]
    cases c.found stop with
    | none => rfl
    | some b => exact (rowOfAge_cast h b).symm
  rw [hfirst', hlast', ← rowsFromAge_eq h]
  have hstart : first.toNat = c.rowOfAge ((c.found start).getD 0) := by
    rw [hfirst]
    cases c.found start with
    | none => rfl
    | some a => rfl
  rw [hstart]
  rfl

lemma populateRows_none (hs : c.found start = none) (he : c.found stop = none) : c.populateRows start stop = [] := by
  rw [populateRows, candidateRows]
  simp only [toRraCandidate, rowForTime_found h, hs, he, Option.elim_none]
  rfl

lemma rowOfAge_zero : (c.rowOfAge 0 : ℤ) = c.rra.curRow := by
  rw [rowOfAge_cast h, sub_zero]
  exact Int.emod_eq_of_lt (Int.natCast_nonneg _) (Int.ofNat_lt.2 h.curRow_lt)

/-- Both ends are found. -/
lemma meetsOnce_both {a b : ℤ} (hle : start ≤ stop) (hs : c.found start = some a) (he : c.found stop = some b) :
    c.MeetsOnce start stop (c.populateRows start stop) ↔
      a = c.age start ∧ b = c.age stop ∧ (a - b + 1 < c.rowCnt ∨ c.rowOfAge a = 0) := by
  obtain ⟨-, hage, hlow, hhigh, ha, hapast⟩ := found_eq_some h hs
  obtain ⟨-, hage', hlow', hhigh', hb, hbpast⟩ := found_eq_some h he
  have hba : b ≤ a := by
    rw [hapast, hbpast]
    exact pastCnt_anti h hle
  have hages : c.age stop ≤ c.age start := Int.ediv_le_ediv h.slot_pos (by omega)
  have hX := rowOfAge_lt h a
  have hcnt : c.rowCnt = c.rra.rraDef.rowCnt := rfl
  have hstep := rowOfAge_step h hba (by omega)
  rw [populateRows_eq h rfl rfl (.inl (hs ▸ nofun)), hs, he, Option.getD_some, Option.elim_some, Option.elim_some]
  generalize hn : Int.toNat _ = n
  have hcount : (n : ℤ) =
      if c.rowCnt ≤ c.rowOfAge a + (a - b) ∧ a - b + 1 = c.rowCnt then 0 else a - b + 1 := by
    split_ifs at hn hstep ⊢ <;> omega
  rw [meetsOnce_rowsFromAge h (by omega) ha (by split_ifs at hcount <;> omega)]
  constructor
  · intro hall
    have h1 := hall a (by omega) ha
    have h2 := hall b (by omega) hb
    have h3 := hall (c.age start) hage (by omega)
    have h4 := hall (c.age stop) hage' (by omega)
    split_ifs at hcount <;> omega
  · rintro ⟨rfl, rfl, hpart⟩ e he0 he
    split_ifs at hcount <;> omega

/-- The end lies behind the ring. -/
lemma meetsOnce_behind {a : ℤ} (hle : start ≤ stop) (hs : c.found start = some a) (he : c.found stop = none) :
    c.MeetsOnce start stop (c.populateRows start stop) ↔
        a = c.age start ∧ c.rra.curRow = 0 ∧ c.rra.rraDef.rowCnt ∣ 2 ^ 64 - 1 ∧
          (a = 0 ∨ a + 1 < c.rowCnt) := by
  obtain ⟨-, hage, hlow, hhigh, ha, -⟩ := found_eq_some h hs
  have hX := rowOfAge_lt h a
  have hcnt : c.rowCnt = c.rra.rraDef.rowCnt := rfl
  have hsmall := h.rowCnt_lt
  have hcur := h.curRow_lt
  have hstop : c.age stop < 0 := by
    have := lt_of_found_none h hle hs he
    have hlt := Int.ediv_lt_of_lt_mul h.slot_pos (show c.now - stop < 0 * c.slot by omega)
    rwa [← age] at hlt
  have hstep := rowOfAge_step h (show 0 ≤ a by omega) (by omega)
  rw [rowOfAge_zero h, sub_zero] at hstep
  rw [populateRows_eq h rfl rfl (.inl (hs ▸ nofun)), hs, he, Option.getD_some, Option.elim_some, Option.elim_none]
  have hlast : ((u64 ((c.rra.curRow : ℤ) - 1) % c.rra.rraDef.rowCnt : ℕ) : ℤ) =
      if c.rra.curRow = 0 then (((2 ^ 64 - 1) % c.rra.rraDef.rowCnt : ℕ) : ℤ) else (c.rra.curRow : ℤ) - 1 := by
    split_ifs with hzero
    · rw [hzero]
      rfl
    · rw [u64_of_lt (by omega) (by omega), Nat.mod_eq_of_lt (by omega), Int.toNat_of_nonneg (by omega)]
  have hL := Nat.mod_lt (2 ^ 64 - 1) (show 0 < c.rra.rraDef.rowCnt by omega)
  rw [hlast, Nat.dvd_iff_mod_eq_zero]
  generalize (2 ^ 64 - 1) % c.rra.rraDef.rowCnt = L at hL ⊢
  generalize hn : Int.toNat _ = n
  have hcount : (n : ℤ) =
      if c.rra.curRow = 0 then
        (if a = 0 then (L : ℤ) + 1 else if L + a + 1 < c.rowCnt then L + a + 1 else L + a + 1 - c.rowCnt)
      else a := by
    split_ifs at hn hstep ⊢ <;> omega
  rw [meetsOnce_rowsFromAge h (by omega) ha (by split_ifs at hcount <;> omega)]
  constructor
  · intro hall
    have h1 := hall a (by omega) ha
    have h2 := hall 0 le_rfl (by omega)
    have h3 := hall (c.rowCnt - 1) (by omega) (by omega)
    split_ifs at hcount <;> omega
  · rintro ⟨rfl, hzero, rfl, hpart⟩ e he0 he
    split_ifs at hcount <;> omega

/-- The start lies before the ring. -/
lemma meetsOnce_before {b : ℤ} (hle : start ≤ stop) (hs : c.found start = none) (he : c.found stop = some b) :
    c.MeetsOnce start stop (c.populateRows start stop) ↔
      b = 0 ∧ (c.rowCnt = 1 ∨ c.age start = 0) ∨
        b = 1 ∧ c.rra.curRow = 0 ∧ c.age stop = 0 ∧ c.rowCnt ≤ c.age start + 1 := by
  obtain ⟨-, hage, hlow, hhigh, hb, -⟩ := found_eq_some h he
  have hages : c.age stop ≤ c.age start := Int.ediv_le_ediv h.slot_pos (by omega)
  have hY := rowOfAge_lt h b
  have hcnt : c.rowCnt = c.rra.rraDef.rowCnt := rfl
  have hstep := rowOfAge_step h (show 0 ≤ b by omega) (by omega)
  rw [rowOfAge_zero h, sub_zero] at hstep
  rw [populateRows_eq h rfl rfl (.inr (he ▸ nofun)), hs, he, Option.getD_none, Option.elim_some, Option.elim_none,
    rowOfAge_zero h]
  generalize hn : Int.toNat _ = n
  have hcount : (n : ℤ) = if b = 0 then 1 else if b = 1 ∧ 1 ≤ c.rra.curRow then 0 else c.rowCnt - b + 1 := by
    split_ifs at hn hstep ⊢ <;> omega
  rw [meetsOnce_rowsFromAge h le_rfl h.rowCnt_pos (by split_ifs at hcount <;> omega)]
  constructor
  · intro hall
    have h1 := hall 0 le_rfl (by omega)
    have h2 := hall (c.age stop) hage (by omega)
    have h3 := hall (c.rowCnt - 1) (by omega) (by omega)
    have h4 : 1 < c.rowCnt → _ := fun hone => hall 1 (by omega) hone
    split_ifs at hcount <;> omega
  · rintro (⟨rfl, hone⟩ | ⟨rfl, hzero, hstop, hstart⟩) e he0 he
    · split_ifs at hcount <;> omega
    · split_ifs at hcount <;> omega

/-- The rows that are gone over are the right ones. -/
lemma populateRows_iff (hle : start ≤ stop) :
    c.MeetsOnce start stop (c.populateRows start stop) ↔ c.PopulatesRight start stop := by
  rw [PopulatesRight]
  cases hs : c.found start with
  | some a =>
    cases he : c.found stop with
    | some b => exact meetsOnce_both h hle hs he
    | none => exact meetsOnce_behind h hle hs he
  | none =>
    cases he : c.found stop with
    | some b => exact meetsOnce_before h hle hs he
    | none =>
      rw [populateRows_none h hs he]
      constructor
      · exact fun hmeets row hrow hin => List.not_mem_nil ((hmeets.mem row).2 ⟨hrow, hin⟩)
      · exact fun hout => ⟨List.nodup_nil, fun row =>
          iff_of_false List.not_mem_nil fun hrow => hout row hrow.1 hrow.2⟩

end Ring

/-! ### New rows -/

/-- `row_end_time` and `row_start_time`. -/
def rowEndTime (rrd : MemRrd) (rra : RraDef) (curRow : ℤ) (row : ℕ) : ℤ := endTimeForRow rrd rra curRow row

def rowStartTime (rrd : MemRrd) (rra : RraDef) (curRow : ℤ) (row : ℕ) : ℤ :=
  rowEndTime rrd rra curRow row - (rra.pdpCnt * rrd.pdpStep : ℕ) + 1

/-- The values of column `k` in some rows of the candidate, consolidated. -/
def consolidated (c : SourceCandidate) (cf : Cf) (k : ℕ) (rows : List ℕ) : RrdValue :=
  ((rows.map fun row => c.rrd.rrdValue (c.toRraCandidate.base + row * c.rrd.dsCnt + k)).foldl
    (populateStep cf (timeslot c.rrd c.rra.rraDef)) ⟨.nan, 0, .nan⟩).final

/-- What a candidate puts into a new row depends on nothing but the rows that are gone over. -/
lemma populateFrom_eq (c : SourceCandidate) (cf : Cf) (map : List (Option ℕ)) (start stop : ℤ) (row : Row) :
    populateFrom c.rrd cf map start stop row c.toRraCandidate = row.mapIdx fun k v =>
      match map.getD k none with
      | none => v
      | some inK => if v.isnan then consolidated c cf inK (c.populateRows start stop) else v := by
  rw [populateFrom, populateRows]
  cases candidateRows c.rrd c.toRraCandidate start stop with
  | none =>
    refine (List.mapIdx_eq_iff.2 fun i => ?_).symm
    cases hv : row[i]? with
    | none => rfl
    | some v =>
      simp only [Option.map_some]
      split
      · rfl
      · split
        · rename_i hnan
          rw [ExtNum.isnan_eq_true.1 hnan]
          rfl
        · rfl
  | some found =>
    obtain ⟨first, rows⟩ := found
    simp only [consolidated, populateValue, List.map_map]
    rfl

/-- For every new row and every candidate, the rows that are consolidated are those of the candidate's ring that meet
the new row, each once, exactly in the cases of `PopulatesRight`. -/
theorem populateRow_rows_iff (c : SourceCandidate) (rra : RraDef) (curRow : ℤ) (row : ℕ) (h : c.Sized)
    (hpos : 0 < rra.pdpCnt * c.rrd.pdpStep) :
    c.MeetsOnce (rowStartTime c.rrd rra curRow row) (rowEndTime c.rrd rra curRow row)
        (c.populateRows (rowStartTime c.rrd rra curRow row) (rowEndTime c.rrd rra curRow row)) ↔
      c.PopulatesRight (rowStartTime c.rrd rra curRow row) (rowEndTime c.rrd rra curRow row) := by
  refine populateRows_iff h ?_
  rw [rowStartTime]
  omega

/-- One data source and one archive of three rows, which hold the seconds from 301 to 1200. -/
def shortRrd : MemRrd where
  version := 3
  pdpStep := 300
  lastUp := 1200
  lastUpUsec := 0
  ds := [⟨gaugeDs ['a'] 600, ⟨['5'], 0, .fin 0⟩⟩]
  rra := [⟨plainRra .average 3 1 (1 / 2), [CdpPrep.zero], 2⟩]
  rrdValue := fun k => .fin (k : ℚ)

def shortSource : SourceCandidate := ⟨0, shortRrd, ⟨0, Nat.one_pos⟩, ⟨0, Nat.one_pos⟩⟩

lemma shortSource_sized : shortSource.Sized := by
  constructor <;> decide +kernel

example : (plainRra .average 3 1 (1 / 2)).rowCnt = 3 ∧ (plainRra .average 3 1 (1 / 2)).pdpCnt = 1 := by decide +kernel

/-- The newest row of an archive of two rows. -/
theorem populateRow_rows_iff_newest :
    (shortSource.MeetsOnce 901 1200 (shortSource.populateRows 901 1200) ↔ shortSource.PopulatesRight 901 1200) := by
  have hiff := populateRow_rows_iff shortSource (plainRra .average 2 1 0) 1 1 shortSource_sized (by decide)
  exact hiff

/-- A row from 1 to 600 is filled from the newest row, which is that from 901 to 1200, and from that to 600. -/
theorem populateRow_uses_newest_row :
    rowStartTime shortRrd (plainRra .average 2 2 0) 1 0 = 1 ∧
      rowEndTime shortRrd (plainRra .average 2 2 0) 1 0 = 600 ∧
      shortSource.populateRows 1 600 = [2, 0] ∧ shortSource.rowEnd 2 = 1200 ∧
      ¬ shortSource.MeetsOnce 1 600 (shortSource.populateRows 1 600) := by
  have hrows : shortSource.populateRows 1 600 = [2, 0] := by decide +kernel
  refine ⟨by decide +kernel, by decide +kernel, hrows, by decide +kernel, fun hmeets => ?_⟩
  have hnewest := (hmeets.mem 2).1 (hrows ▸ List.mem_cons_self)
  exact absurd hnewest.2 (by decide +kernel)

end Rrdtool
