import Rrdtool.Format
import Rrdtool.Lib.Checked

/-!
# The variables of a graph and their consumers

The data of a `DEF` or `CDEF` as `data_fetch` and `data_calc` leave them in its description (C `graph_desc_t`), and
the reads that the other parts of a graph make. Each index is checked against the array: an index outside of it is a
fault.
-/

namespace Rrdtool

open Checked

/-- The fields of a variable with data: its window, its step, the column `ds` of `dsCnt`, and the rows one after the
other. -/
structure VarData where
  start : ℤ
  endTime : ℤ
  step : ℕ
  ds : ℤ
  dsCnt : ℕ
  data : List RrdValue
deriving DecidableEq

/-- The errors that are reported. -/
inductive GraphError where
  /-- "STACK should already be turned into LINE or AREA here" -/
  | stack
  /-- "no XPORT found, nothing to do" -/
  | noXport
  /-- "SANITY CHECK: %lu rows cannot be reduced by %i \n" -/
  | sanity (rowCnt factor : ℕ)
  /-- What a file or a daemon has reported. -/
  | fetch
  /-- "No DS called '%s' in '%s'" -/
  | noDs (dsNam rrd : Text)
deriving DecidableEq

/-- What must not happen. -/
inductive GraphFault where
  /-- There is no description with this index. -/
  | gdes (vidx : ℤ)
  /-- There is no value with this index. -/
  | data (idx : ℤ)
  | divisionByZero
  /-- There is no value with this index in an array of `vdef_calc`. -/
  | array (idx : ℤ)
  /-- A number that does not fit is converted into an `int`. -/
  | conversion (x : ℕ)
deriving DecidableEq

/-- A computation that reads the data of a graph. -/
abbrev Reads := Except (Stop GraphError GraphFault)

/-- A loop that ends has gone through each of its rounds. -/
lemma round_of_steps {σ : Type} {step : ℕ → σ → Reads σ} {n k : ℕ} {a b : σ} (h : steps step n a = .ok b) (hk : k < n) :
    ∃ c d, step k c = .ok d := by
  induction n generalizing b with
  | zero => exact absurd hk (Nat.not_lt_zero k)
  | succ n ih =>
    obtain ⟨c, hc, hlast⟩ := bind_eq_ok h
    obtain hlt | rfl := Nat.lt_succ_iff_lt_or_eq.1 hk
    · exact ih hc hlt
    · exact ⟨c, b, hlast⟩

/-- A loop whose rounds all give a result gives the list of the results. -/
lemma mapM_ok {α β : Type} {f : α → Reads β} {g : α → β} {l : List α} (h : ∀ a ∈ l, f a = .ok (g a)) :
    l.mapM f = .ok (l.map g) := by
  induction l with
  | nil => rfl
  | cons a l ih =>
    rw [List.mapM_cons, h a List.mem_cons_self, ok_bind, ih fun b hb => h b (List.mem_cons_of_mem a hb), ok_bind]
    rfl

/-- `data[idx]` of a variable. -/
@[grind] def VarData.read (v : VarData) (idx : ℤ) : Reads RrdValue :=
  if 0 ≤ idx then
    match v.data[idx.toNat]? with
    | some x => .ok x
    | none => .error (.fault (.data idx))
  else .error (.fault (.data idx))

/-- What `data_proc` takes for a time, read in the given way. -/
@[grind] def VarData.valueAt (v : VarData) (read : ℤ → Reads RrdValue) (grTime : ℤ) : Reads RrdValue :=
  if v.start ≤ grTime ∧ grTime < v.endTime then read ((grTime - v.start) / v.step * v.dsCnt + v.ds) else .ok .nan

/-- The number of rows in the window. -/
@[grind] def VarData.rowCnt (v : VarData) : ℕ := ((v.endTime - v.start) / v.step).toNat

/-- The value of a row. -/
@[grind] def VarData.row (v : VarData) (r : ℕ) : RrdValue := v.data.getD (r * v.dsCnt + v.ds.toNat) .nan

/-- A variable as fetch, reduction and `data_calc` deliver it. -/
structure VarData.WellFormed (v : VarData) : Prop where
  step_pos : 0 < v.step
  dvd : (v.step : ℤ) ∣ v.endTime - v.start
  ds_nonneg : 0 ≤ v.ds
  ds_lt : v.ds < v.dsCnt
  length_eq : v.data.length = v.rowCnt * v.dsCnt

instance VarData.decidableWellFormed (v : VarData) : Decidable v.WellFormed :=
  decidable_of_iff (0 < v.step ∧ (v.step : ℤ) ∣ v.endTime - v.start ∧ 0 ≤ v.ds ∧ v.ds < v.dsCnt ∧
      v.data.length = v.rowCnt * v.dsCnt)
    ⟨fun ⟨h₁, h₂, h₃, h₄, h₅⟩ => ⟨h₁, h₂, h₃, h₄, h₅⟩, fun ⟨h₁, h₂, h₃, h₄, h₅⟩ => ⟨h₁, h₂, h₃, h₄, h₅⟩⟩

section Read

variable {v : VarData}

lemma VarData.read_of_getElem? {idx : ℤ} {i : ℕ} {x : RrdValue} (hidx : idx = i) (h : v.data[i]? = some x) :
    v.read idx = .ok x := by
  subst hidx
  rw [VarData.read, if_pos (Int.natCast_nonneg i), Int.toNat_natCast, h]

lemma VarData.read_of_not {idx : ℤ} (h : ¬ (0 ≤ idx ∧ idx < v.data.length)) : v.read idx = .error (.fault (.data idx)) := by
  unfold VarData.read
  split
  · rename_i hnonneg
    rw [List.getElem?_eq_none (by omega)]
  · rfl

/-- The column of a row inside the window is one of the data. -/
lemma VarData.read_row (hds : 0 ≤ v.ds) (hlt : v.ds < v.dsCnt) (hlen : v.rowCnt * v.dsCnt ≤ v.data.length) {r : ℕ}
    (hr : r < v.rowCnt) : v.read (r * v.dsCnt + v.ds) = .ok (v.row r) := by
  have hcell : r * v.dsCnt + v.ds.toNat < v.data.length := by
    have hrow := Nat.mul_le_mul_right v.dsCnt hr
    rw [Nat.succ_mul] at hrow
    omega
  refine VarData.read_of_getElem? (i := r * v.dsCnt + v.ds.toNat) ?_ ?_
  · push_cast
    rw [Int.toNat_of_nonneg hds]
  · rw [VarData.row, List.getD_eq_getElem?_getD, List.getElem?_eq_getElem hcell, Option.getD_some]

lemma VarData.WellFormed.read_row (h : v.WellFormed) {r : ℕ} (hr : r < v.rowCnt) :
    v.read (r * v.dsCnt + v.ds) = .ok (v.row r) :=
  VarData.read_row h.ds_nonneg h.ds_lt h.length_eq.ge hr

/-- A time in the window is a time of a row. -/
lemma VarData.row_lt (hstep : 0 < v.step) (hdvd : (v.step : ℤ) ∣ v.endTime - v.start) {t : ℤ} (hstart : v.start ≤ t)
    (hend : t < v.endTime) : ((t - v.start) / v.step).toNat < v.rowCnt := by
  have hpos : (0 : ℤ) < v.step := by exact_mod_cast hstep
  have hlt : (t - v.start) / v.step < (v.endTime - v.start) / v.step := by
    rw [Int.lt_ediv_iff_mul_lt hpos hdvd]
    have hle := Int.ediv_mul_le (t - v.start) hpos.ne'
    omega
  have hnonneg : 0 ≤ (t - v.start) / v.step := Int.ediv_nonneg (by omega) hpos.le
  rw [VarData.rowCnt]
  omega

lemma VarData.WellFormed.row_lt (h : v.WellFormed) {t : ℤ} (hstart : v.start ≤ t) (hend : t < v.endTime) :
    ((t - v.start) / v.step).toNat < v.rowCnt :=
  VarData.row_lt h.step_pos h.dvd hstart hend

end Read

end Rrdtool
