import Rrdtool.Lib.Binary64
import Rrdtool.Update.FailureWindow

/-!
# The scratch area of a failures archive, byte by byte

`scratch[]` of a preparation area is an array of ten cells of eight bytes, and `update_failures` and `erase_violations`
use its first bytes as an array of `char` (`src/rrd_hw_update.c`, `src/rrd_hw.c`). The code is modelled here on the
bytes, with the cells read as little endian doubles; `scratch_refines` says that the preparation area with a field for
the violations is what the bytes stand for, as long as the window has room in front of `CDP_primary_val`.
-/

namespace Rrdtool

/-- The bytes of `scratch[]`. -/
abbrev Scratch := ℕ → ℕ

/-- `CDP_primary_val` or `CDP_secondary_val`. -/
def ScratchIdx.cell : ScratchIdx → ℕ
  | .primary => 8
  | .secondary => 9

/-- The bits of `scratch[i]`. -/
@[grind] def Scratch.bits (s : Scratch) (i : ℕ) : ℕ :=
  Nat.ofDigits 256 ((List.range 8).map fun j => s (8 * i + j))

/-- Store 64 bits in `scratch[i]`. -/
@[grind] def Scratch.store (s : Scratch) (i bits : ℕ) : Scratch :=
  fun j => if 8 * i ≤ j ∧ j < 8 * i + 8 then bits / 256 ^ (j - 8 * i) % 256 else s j

/-- `scratch[i].u_val`. -/
@[grind] def Scratch.uVal (s : Scratch) (i : ℕ) : RrdValue := Binary64.value (s.bits i)

/-- `init_cdp` of a failures archive, `u_val = 0.0` in every cell. -/
def Scratch.zero : Scratch := fun _ => 0

/-- The loop of `update_failures` over the window: it stores the bytes `n`, …, `1` and adds them to the count. -/
@[grind] def Scratch.shift : ℕ → Scratch → ℕ → Scratch × ℕ
  | 0, s, count => (s, count)
  | n + 1, s, count =>
    let s := Function.update s (n + 1) (s n)
    Scratch.shift n s (count + s (n + 1))

/-- `update_failures` on the bytes, where `judge` is its judgement on the value in the slot. -/
@[grind]
def Scratch.updateFailures (windowLen threshold : ℕ) (k : ScratchIdx) (judge : RrdValue → Bool) (s : Scratch) : Scratch :=
  let violation := (judge (Scratch.uVal s k.cell)).toNat
  let (s, count) := Scratch.shift (windowLen - 1) s violation
  Scratch.store (Function.update s 0 violation) k.cell (if count < threshold then 0 else Binary64.one)

/-- `erase_violations` on the bytes. -/
@[grind] def Scratch.eraseViolations (windowLen : ℕ) (s : Scratch) : Scratch := fun j => if j < windowLen then 0 else s j

/-- What is done to the area: a value is stored in a slot and judged, or the area is reset. -/
inductive ScratchOp where
  | observe (k : ScratchIdx) (bits : BitVec 64) (judge : RrdValue → Bool)
  | reset

/-- The operation on the bytes. -/
def ScratchOp.onBytes (windowLen threshold : ℕ) (s : Scratch) : ScratchOp → Scratch
  | .observe k bits judge => Scratch.updateFailures windowLen threshold k judge (Scratch.store s k.cell bits.toNat)
  | .reset => Scratch.eraseViolations windowLen
      (Scratch.store (Scratch.store s ScratchIdx.primary.cell 0) ScratchIdx.secondary.cell 0)

/-- The operation on the fields. -/
def ScratchOp.onFields (windowLen threshold : ℕ) (c : CdpPrep) : ScratchOp → CdpPrep
  | .observe k bits judge =>
    let c := c.set k (Binary64.value bits.toNat)
    let violations := Window.slide windowLen (judge (c.get k)) c.violations
    CdpPrep.set { c with violations := violations } k (failureVerdict windowLen threshold violations)
  | .reset =>
    { c with
      primaryVal := .fin 0, secondaryVal := .fin 0
      violations := Rrdtool.eraseViolations windowLen c.violations }

/-- The bytes stand for the fields. -/
structure Scratch.Stands (windowLen : ℕ) (s : Scratch) (c : CdpPrep) : Prop where
  violations : ∀ j < windowLen, s j = (c.violations.getD j false).toNat
  slots : ∀ k, Scratch.uVal s k.cell = c.get k

section Cells

variable {s s' : Scratch} {i i' j b : ℕ}

lemma bits_congr (h : ∀ j < 8, s' (8 * i + j) = s (8 * i + j)) : Scratch.bits s' i = Scratch.bits s i := by
  rw [Scratch.bits, Scratch.bits]
  congr 1
  exact List.map_congr_left fun j hj => h j (List.mem_range.1 hj)

/-- The number that the lowest bytes of another make. -/
lemma ofDigits_bytes (n b : ℕ) : Nat.ofDigits 256 ((List.range n).map fun j => b / 256 ^ j % 256) = b % 256 ^ n := by
  induction n generalizing b with
  | zero => rw [List.range_zero, List.map_nil, Nat.ofDigits_nil, Nat.pow_zero, Nat.mod_one]
  | succ n ih =>
    have hnext : ∀ j, b / 256 ^ (j + 1) % 256 = b / 256 / 256 ^ j % 256 := fun j => by
      rw [Nat.div_div_eq_div_mul, Nat.pow_succ']
    rw [List.range_succ_eq_map, List.map_cons, List.map_map, Nat.ofDigits_cons, Nat.pow_zero, Nat.div_one, Nat.pow_succ',
      Nat.mod_mul, ← ih]
    simp only [Function.comp_def, Nat.succ_eq_add_one, hnext]

/-- A cell reads what was stored there. -/
lemma bits_store (hb : b < 2 ^ 64) : Scratch.bits (Scratch.store s i b) i = b := by
  have hbytes : ∀ j < 8, Scratch.store s i b (8 * i + j) = b / 256 ^ j % 256 := by
    intro j hj
    rw [Scratch.store, if_pos (by omega), Nat.add_sub_cancel_left]
  have hmap : (List.range 8).map (fun j => Scratch.store s i b (8 * i + j)) =
      (List.range 8).map fun j => b / 256 ^ j % 256 :=
    List.map_congr_left fun j hj => hbytes j (List.mem_range.1 hj)
  rw [Scratch.bits, hmap, ofDigits_bytes]
  exact Nat.mod_eq_of_lt (hb.trans_eq (by norm_num))

/-- Another cell is left alone. -/
lemma bits_store_ne (h : i ≠ i') : Scratch.bits (Scratch.store s i b) i' = Scratch.bits s i' := by
  apply bits_congr
  intro j hj
  rw [Scratch.store, if_neg (by omega)]

/-- The bytes in front of a cell are left alone. -/
lemma store_of_lt (h : j < 8 * i) : Scratch.store s i b j = s j := by
  rw [Scratch.store, if_neg (by omega)]

/-- The bytes behind the loop. -/
lemma shift_byte (n count : ℕ) (s : Scratch) (j : ℕ) :
    (Scratch.shift n s count).1 j = if 1 ≤ j ∧ j ≤ n then s (j - 1) else s j := by
  induction n generalizing s count with
  | zero => rw [Scratch.shift, if_neg (by omega)]
  | succ n ih =>
    rw [Scratch.shift, ih]
    simp only [Function.update_apply]
    split_ifs <;> first | rfl | omega | (congr 1; omega)

/-- The count behind the loop. -/
lemma shift_count (n count : ℕ) (s : Scratch) :
    (Scratch.shift n s count).2 = count + ((List.range n).map s).sum := by
  induction n generalizing s count with
  | zero => rfl
  | succ n ih =>
    have hsame : (List.range n).map (Function.update s (n + 1) (s n)) = (List.range n).map s :=
      List.map_congr_left fun j hj => Function.update_of_ne (by have := List.mem_range.1 hj; omega) _ _
    rw [Scratch.shift, ih, hsame, Function.update_self, List.range_succ, List.map_append, List.sum_append]
    simp only [List.map_cons, List.map_nil, List.sum_cons, List.sum_nil]
    omega

end Cells

/-! ### One operation -/

section Refines

variable {windowLen threshold : ℕ} {s : Scratch} {c : CdpPrep}

/-- The bytes of a window add up to its violations. -/
lemma sum_window (windowLen : ℕ) (cells : List Bool) :
    ((List.range windowLen).map fun j => (cells.getD j false).toNat).sum = (cells.take windowLen).count true := by
  have hcount : ∀ l : List Bool, (l.map Bool.toNat).sum = l.count true := by
    intro l
    induction l with
    | nil => rfl
    | cons b l ih =>
      rw [List.map_cons, List.sum_cons, ih, List.count_cons]
      cases b with
      | false => simp
      | true => simp [Nat.add_comm]
  rw [Window.count_take (by decide : true ≠ false), ← hcount, List.map_map]
  rfl

/-- The window ends in front of the slots. -/
lemma window_lt_cell (hmax : windowLen ≤ maxFailuresWindowLen) (k : ScratchIdx) {j : ℕ} (hj : j < windowLen) :
    j < 8 * k.cell := by
  have : maxFailuresWindowLen < 64 := by decide
  cases k with
  | primary => exact (hj.trans_le hmax).trans this
  | secondary => exact ((hj.trans_le hmax).trans this).trans (by decide)

lemma cell_injective {k k' : ScratchIdx} (h : k ≠ k') : k.cell ≠ k'.cell := by
  cases k <;> cases k' <;> first | exact absurd rfl h | decide

lemma get_set_of_ne {k k' : ScratchIdx} (h : k ≠ k') (v : RrdValue) : (c.set k v).get k' = c.get k' := by
  cases k <;> cases k' <;> first | exact absurd rfl h | rfl

/-- A value stored in a slot. -/
lemma Scratch.Stands.store (hmax : windowLen ≤ maxFailuresWindowLen) (h : Scratch.Stands windowLen s c) (k : ScratchIdx)
    {b : ℕ} (hb : b < 2 ^ 64) :
    Scratch.Stands windowLen (Scratch.store s k.cell b) (c.set k (Binary64.value b)) := by
  refine ⟨fun j hj => ?_, fun k' => ?_⟩
  · rw [store_of_lt (window_lt_cell hmax k hj), set_violations]
    exact h.violations j hj
  · obtain rfl | hk := eq_or_ne k k'
    · rw [Scratch.uVal, bits_store hb, get_set]
    · rw [Scratch.uVal, bits_store_ne (cell_injective hk), get_set_of_ne hk]
      exact h.slots k'

/-- `update_failures` on bytes that stand for the fields. -/
lemma Scratch.Stands.updateFailures (hpos : 0 < windowLen) (hmax : windowLen ≤ maxFailuresWindowLen)
    (h : Scratch.Stands windowLen s c) (k : ScratchIdx) (judge : RrdValue → Bool) :
    Scratch.Stands windowLen (Scratch.updateFailures windowLen threshold k judge s)
      (CdpPrep.set { c with violations := Window.slide windowLen (judge (c.get k)) c.violations } k
        (failureVerdict windowLen threshold (Window.slide windowLen (judge (c.get k)) c.violations))) := by
  have hjudge : judge (Scratch.uVal s k.cell) = judge (c.get k) := by rw [h.slots k]
  generalize judge (c.get k) = v at hjudge
  -- the window behind the shift
  have hbytes : ∀ j < windowLen, Function.update (Scratch.shift (windowLen - 1) s v.toNat).1 0 v.toNat j =
      ((Window.slide windowLen v c.violations).getD j false).toNat := by
    intro j hj
    cases j with
    | zero => rfl
    | succ j =>
      rw [Function.update_of_ne (by omega), shift_byte, if_pos (by omega), Nat.add_sub_cancel, Window.slide_getD_succ hj]
      exact h.violations j (by omega)
  have hcount : (Scratch.shift (windowLen - 1) s v.toNat).2 =
      ((Window.slide windowLen v c.violations).take windowLen).count true := by
    obtain ⟨n, rfl⟩ : ∃ n, windowLen = n + 1 := ⟨windowLen - 1, by omega⟩
    rw [shift_count, ← sum_window, List.range_succ_eq_map, List.map_cons, List.map_map, List.sum_cons,
      Nat.add_sub_cancel]
    congr 2
    refine List.map_congr_left fun j hj => ?_
    have hj := List.mem_range.1 hj
    rw [Function.comp_apply, Window.slide_getD_succ (by omega)]
    exact h.violations j (by omega)
  -- the slots behind the shift
  have hslots : ∀ k' : ScratchIdx, Scratch.bits (Function.update (Scratch.shift (windowLen - 1) s v.toNat).1 0 v.toNat) k'.cell =
      Scratch.bits s k'.cell := by
    intro k'
    apply bits_congr
    intro j hj
    have hlt : windowLen - 1 < 8 * ScratchIdx.cell k' := window_lt_cell hmax k' (by omega)
    rw [Function.update_of_ne (by omega), shift_byte, if_neg (by omega)]
  have hverdict : Binary64.value (if (Scratch.shift (windowLen - 1) s v.toNat).2 < threshold then 0 else Binary64.one) =
      failureVerdict windowLen threshold (Window.slide windowLen v c.violations) := by
    rw [hcount, failureVerdict]
    split
    · exact Binary64.value_zero
    · exact Binary64.value_one
  have hstands : Scratch.Stands windowLen (Function.update (Scratch.shift (windowLen - 1) s v.toNat).1 0 v.toNat)
      { c with violations := Window.slide windowLen v c.violations } := by
    refine ⟨hbytes, fun k' => ?_⟩
    rw [Scratch.uVal, hslots]
    exact (h.slots k').trans (by cases k' <;> rfl)
  have hbits : (if (Scratch.shift (windowLen - 1) s v.toNat).2 < threshold then 0 else Binary64.one) < 2 ^ 64 := by
    split <;> decide
  rw [← hverdict, Scratch.updateFailures, hjudge]
  exact hstands.store hmax k hbits

/-- Each operation on the bytes stands for the one on the fields. -/
lemma Scratch.Stands.op (hpos : 0 < windowLen) (hmax : windowLen ≤ maxFailuresWindowLen)
    (h : Scratch.Stands windowLen s c) (op : ScratchOp) :
    Scratch.Stands windowLen (op.onBytes windowLen threshold s) (op.onFields windowLen threshold c) := by
  cases op with
  | observe k bits judge => exact (h.store hmax k bits.isLt).updateFailures hpos hmax k judge
  | reset =>
    have hzero := (h.store hmax .primary (by decide : 0 < 2 ^ 64)).store hmax .secondary (by decide : 0 < 2 ^ 64)
    rw [Binary64.value_zero] at hzero
    refine ⟨fun j hj => ?_, fun k => ?_⟩
    · show Scratch.eraseViolations windowLen _ j = _
      rw [Scratch.eraseViolations, if_pos hj]
      exact congrArg Bool.toNat (agrees_eraseViolations windowLen c.violations j hj).symm
    · show Scratch.uVal (Scratch.eraseViolations windowLen _) k.cell = _
      have hslot : Scratch.bits (Scratch.eraseViolations windowLen
          (Scratch.store (Scratch.store s ScratchIdx.primary.cell 0) ScratchIdx.secondary.cell 0)) k.cell =
          Scratch.bits (Scratch.store (Scratch.store s ScratchIdx.primary.cell 0) ScratchIdx.secondary.cell 0)
            k.cell := by
        apply bits_congr
        intro j hj
        have hlt : windowLen - 1 < 8 * ScratchIdx.cell k := window_lt_cell hmax k (by omega)
        rw [Scratch.eraseViolations, if_neg (by omega)]
      rw [Scratch.uVal, hslot]
      exact (hzero.slots k).trans (by cases k <;> rfl)

lemma Scratch.zero_stands : Scratch.Stands windowLen Scratch.zero CdpPrep.zero := by
  refine ⟨fun j _ => rfl, fun k => ?_⟩
  have hbits : Scratch.bits Scratch.zero k.cell = 0 := by
    simp [Scratch.bits, Scratch.zero, List.range_succ, Nat.ofDigits_cons]
  rw [Scratch.uVal, hbits, Binary64.value_zero]
  cases k <;> rfl

/-- The bytes stand for the fields behind any number of operations. -/
lemma scratch_refines (hpos : 0 < windowLen) (hmax : windowLen ≤ maxFailuresWindowLen) (ops : List ScratchOp) :
    Scratch.Stands windowLen (ops.foldl (ScratchOp.onBytes windowLen threshold) Scratch.zero)
      (ops.foldl (ScratchOp.onFields windowLen threshold) CdpPrep.zero) := by
  induction ops using List.reverseRecOn with
  | nil => exact Scratch.zero_stands
  | append_singleton ops op ih =>
    rw [List.foldl_append, List.foldl_append]
    exact ih.op hpos hmax op

end Refines

/-- `update_aberrant_CF` does the operation, with the judgement of `update_failures`. -/
lemma updateAberrantCF_onFields {rras : List Rra} {r : RraDef} {i d : ℕ} {k : ScratchIdx} {fns : HwFunctions}
    (hcf : r.cf = .failures) (hpos : 0 < r.windowLen)
    (hfns : hwFunctionsOf rras (hwDepIdx rras r.dependentRraIdx) = some fns) (coef : RrdValue) (bits : BitVec 64) :
    updateAberrantCF rras r i d k coef (Binary64.value bits.toNat) =
      (ScratchOp.observe k bits (failureViolation rras r i d fns)).onFields r.windowLen r.failureThreshold
        (cdpAt rras i d) := by
  rw [updateAberrantCF_failures hcf hfns, updateFailures_eq hpos]
  rfl

/-- `reset_cdp` does the operation. -/
lemma resetCdp_onFields {r : RraDef} (hcf : r.cf = .failures) (c : CdpPrep) (x : RrdValue) (elapsed d : ℕ)
    (s : SeasonalCoef) :
    resetCdp r c x elapsed d s = ScratchOp.reset.onFields r.windowLen r.failureThreshold c := by
  rw [resetCdp, hcf]
  rfl

/-! ### Runs -/

/-- In every run from creation, the value that `update_failures` stores for an observation stands for a failure exactly
if `failure_threshold` of the last `window_len` values judged since the window was erased are violations; and the
violation bytes and the slots of the observation never disturb each other. -/
theorem run_failure_window {h : Header} {r : RraDef} {i d : ℕ} (hi : h.rra[i]? = some r) (hcf : r.cf = .failures)
    (hthreshold : 1 ≤ r.failureThreshold) (hwindow : r.failureThreshold ≤ r.windowLen)
    (hmax : r.windowLen ≤ maxFailuresWindowLen) (hd : d < h.ds.length) (random : ℕ → ℕ) (ops : List Op) :
    (∀ front violation stored,
        front ++ [.judged violation stored] <+: Db.windowEvents i d ⟨rrdInitData h random, []⟩ ops →
        (stored = .fin 0 ∨ stored = .fin 1) ∧
          (stored = .fin 1 ↔ r.failureThreshold ≤
            ((violation :: front.foldl WindowEvent.record []).take r.windowLen).count true)) ∧
      ∀ sops : List ScratchOp,
        Scratch.Stands r.windowLen (sops.foldl (ScratchOp.onBytes r.windowLen r.failureThreshold) Scratch.zero)
          (sops.foldl (ScratchOp.onFields r.windowLen r.failureThreshold) CdpPrep.zero) := by
  have hpos : 0 < r.windowLen := by omega
  have hinit : (rrdInitData h random).rra[i]? = some (initRra h r (random i)) := by
    rw [rrdInitData, List.getElem?_mapIdx, hi]
    rfl
  have hzero : WindowHolds r (rrdInitData h random).rra i d [] := by
    rw [WindowHolds, cdpAt, hinit, Option.bind_some, initRra, List.getElem?_replicate, if_pos hd, initCdp, hcf]
    exact fun _ _ => rfl
  refine ⟨fun front violation stored hfront => ?_, scratch_refines hpos hmax⟩
  have hverdicts := @run_verdicts i d h.ds.length r [] hcf hpos hd ops ⟨rrdInitData h random, []⟩
    ⟨_, hinit, rfl, List.length_replicate⟩ hzero
  rw [hverdicts.at hfront, failureVerdict]
  split
  · rename_i hfew
    exact ⟨.inl rfl, iff_of_false (by decide) (by omega)⟩
  · rename_i hmany
    exact ⟨.inr rfl, iff_of_true rfl (by omega)⟩

/-- A `FAILURES` archive that looks for two violations in three values. -/
def failuresRra (dependentRraIdx : ℕ) : RraDef :=
  { hwRra .failures 4 dependentRraIdx with
    windowLen := 3, failureThreshold := 2, deltaPos := .fin 2, deltaNeg := .fin 2 }

/-- One `GAUGE` with a season of two rows and its `FAILURES` archive. -/
def failuresHeader : Header where
  version := 4
  pdpStep := 10
  lastUp := 1000
  ds := [gaugeDs ['a'] 600]
  rra := [hwRra .hwpredict 4 1, hwRra .seasonal 2 0, hwRra .devseasonal 2 0, failuresRra 2]
  pdpStep_pos := tenSeconds_pos
  lastUp_lt := thousand_lt
  valid r hr := by
    simp only [List.mem_cons, List.not_mem_nil, or_false] at hr
    obtain rfl | rfl | rfl | rfl := hr <;> exact ⟨by decide, by decide, by decide, fun hcf => absurd hcf (by decide)⟩

/-- Readings from the start of `failuresHeader`: two violations in a row are a failure, and a gap erases the window. -/
def failuresOps : List Op :=
  ["1010:5", "1020:5", "1030:6", "1040:5", "1050:9", "1060:50", "1090:3", "1100:3"].map fun input =>
    .arg .idle [0] input.toList

theorem run_failure_window_two_of_three :
    (∀ front violation stored,
        front ++ [.judged violation stored] <+:
          Db.windowEvents 3 0 ⟨rrdInitData failuresHeader fun _ => 0, []⟩ failuresOps →
        (stored = .fin 0 ∨ stored = .fin 1) ∧
          (stored = .fin 1 ↔ 2 ≤ ((violation :: front.foldl WindowEvent.record []).take 3).count true)) ∧
      ∀ sops : List ScratchOp,
        Scratch.Stands 3 (sops.foldl (ScratchOp.onBytes 3 2) Scratch.zero)
          (sops.foldl (ScratchOp.onFields 3 2) CdpPrep.zero) :=
  @run_failure_window failuresHeader (failuresRra 2) 3 0 rfl rfl (by decide) (by decide) (by decide) (by decide)
    (fun _ => 0) failuresOps

end Rrdtool
