import Rrdtool.Fetch
import Rrdtool.Update.Rows

/-!
# What a request returns

The window a request returns from an archive, and what a run of updates has put there.

`fetchRows_eq` is the spec of the copying loop: the rows by their distance from the oldest row of
the ring, with unknown rows on both sides. `rrdFetchFn_spec` restates it by periods: the row of a
period among the last `row_cnt` comes from the ring by the age of the period. Together with what
the ring holds after a run (`run_ringHolds`), a request returns what the updates have stored
(`fetch_after_run`).
-/

namespace Rrdtool

open List

/-! ### The choice of the archive -/

/-- An index the search has recorded is that of an archive that can serve the request. -/
def BestMatch.Sound (rrd : Rrd) (cf : Cf) (best : BestMatch) : Prop :=
  (∀ p ∈ best.full, ∃ rra, rrd.rra[p.1]? = some rra ∧ rra.rraDef.matches cf) ∧
    ∀ p ∈ best.part, ∃ rra, rrd.rra[p.1]? = some rra ∧ rra.rraDef.matches cf

lemma considerRra_sound {rrd cf start stop step best ir} (sound : BestMatch.Sound rrd cf best)
    (hir : rrd.rra[ir.1]? = some ir.2) :
    BestMatch.Sound rrd cf (considerRra rrd cf start stop step best ir) := by
  simp only [considerRra]
  split
  · rename_i hm
    have found : ∃ rra, rrd.rra[ir.1]? = some rra ∧ rra.rraDef.matches cf := ⟨ir.2, hir, hm⟩
    have full : ∀ d, BestMatch.Sound rrd cf { best with full := some (ir.1, d) } := by
      refine fun d => ⟨fun p hp => ?_, sound.2⟩
      cases hp
      exact found
    have part : ∀ m, BestMatch.Sound rrd cf { best with part := some (ir.1, m) } := by
      refine fun m => ⟨sound.1, fun p hp => ?_⟩
      cases hp
      exact found
    split
    · split
      · exact full _
      · split
        · exact full _
        · exact sound
    · split
      · exact part _
      · split
        · exact part _
        · exact sound
  · exact sound

/-- The archives with their indices. -/
lemma getElem?_of_mem_zip {rrd : Rrd} {ir : ℕ × Rra}
    (hir : ir ∈ (List.range rrd.rra.length).zip rrd.rra) : rrd.rra[ir.1]? = some ir.2 := by
  obtain ⟨j, hj⟩ := List.mem_iff_getElem?.1 hir
  rw [List.getElem?_zip_eq_some] at hj
  obtain ⟨hj₁, hj₂⟩ := hj
  have := List.getElem?_eq_some_iff.1 hj₁
  simp only [List.getElem_range] at this
  rw [← this.2]
  exact hj₂

/-- The archive that is chosen can serve the request. -/
lemma chooseRra_some {rrd cf start stop step i} (h : chooseRra rrd cf start stop step = some i) :
    ∃ rra, rrd.rra[i]? = some rra ∧ rra.rraDef.matches cf := by
  have sound : BestMatch.Sound rrd cf (((List.range rrd.rra.length).zip rrd.rra).foldl
      (considerRra rrd cf start stop step) ⟨none, none⟩) := by
    have members : ∀ ir ∈ (List.range rrd.rra.length).zip rrd.rra, rrd.rra[ir.1]? = some ir.2 :=
      fun ir hir => getElem?_of_mem_zip hir
    generalize (List.range rrd.rra.length).zip rrd.rra = l at members
    have init : BestMatch.Sound rrd cf ⟨none, none⟩ := ⟨by simp, by simp⟩
    generalize (⟨none, none⟩ : BestMatch) = best at init
    induction l generalizing best with
    | nil => exact init
    | cons ir l ih =>
      exact ih (fun ir' h' => members ir' (.tail _ h')) _
        (considerRra_sound init (members ir (.head _)))
  simp only [chooseRra] at h
  split at h
  · rename_i hf
    cases h
    exact sound.1 _ hf
  · rename_i hp
    cases h
    exact sound.2 _ hp
  · cases h

/-! ### The copying loop -/

/-- The row at distance `i` from the oldest row of the ring. -/
def ringRow (rra : Rra) (nanRow : Row) (i : ℤ) : Row :=
  if 0 ≤ i ∧ i < rra.rraDef.rowCnt then rra.ring.slot ((rra.ring.cur + 1 + i.toNat) % rra.rraDef.rowCnt)
  else nanRow

/-- The file position before row `i`: past the slots of the rows before it, with the wrap still to
come. -/
def pointsTo (rra : Rra) (i : ℤ) (pointer : Option ℤ) : Prop :=
  ∃ p : ℕ, pointer = some (p : ℤ) ∧ p ≤ rra.rraDef.rowCnt ∧
    p % rra.rraDef.rowCnt = (rra.ring.cur + 1 + i.toNat) % rra.rraDef.rowCnt

/-- The loop copies row after row. The position need not be set when every row lies on one side of
the ring. -/
lemma fetchRows_eq {rra : Rra} {nanRow : Row} (pos : 0 < rra.rraDef.rowCnt)
    (small : rra.rraDef.rowCnt < 2 ^ 31) {n : ℕ} {i : ℤ} {pointer : Option ℤ}
    (hp : pointsTo rra i pointer ∨ i + n ≤ 0 ∨ rra.rraDef.rowCnt ≤ i) :
    fetchRows rra nanRow n i pointer =
      (List.range n).map fun k => some (ringRow rra nanRow (i + (k : ℕ))) := by
  have tail : ∀ n (i : ℤ), (List.range (n + 1)).map (fun k => some (ringRow rra nanRow (i + (k : ℕ)))) =
      some (ringRow rra nanRow i) ::
        (List.range n).map fun k => some (ringRow rra nanRow (i + 1 + (k : ℕ))) := by
    intro n i
    rw [List.range_succ_eq_map, List.map_cons, List.map_map]
    congr 1
    · simp
    · refine List.map_congr_left fun k _ => ?_
      show some (ringRow rra nanRow (i + ((k + 1 : ℕ) : ℤ))) = _
      congr 2
      push_cast
      ring
  induction n generalizing i pointer with
  | zero => rfl
  | succ n ih =>
    rw [tail, fetchRows, s32_natCast small]
    split
    · rename_i hout
      have hrow : ringRow rra nanRow i = nanRow := if_neg (by omega)
      rw [hrow, ih]
      obtain ⟨p, rfl, hle, hmod⟩ | hp := hp
      · obtain hneg | hpast := hout
        · refine .inl ⟨p, rfl, hle, ?_⟩
          rw [hmod]
          congr 2
          omega
        · exact .inr (.inr (by omega))
      · exact .inr (by omega)
    · rename_i hin
      obtain ⟨p, rfl, hle, hmod⟩ | hp := hp
      · -- the position after the wrap
        have hwrap : (if (rra.rraDef.rowCnt : ℤ) ≤ (p : ℤ) then (p : ℤ) - rra.rraDef.rowCnt else (p : ℤ)) =
            ((p % rra.rraDef.rowCnt : ℕ) : ℤ) := by
          obtain hlt | heq := hle.lt_or_eq
          · rw [if_neg (by omega), Nat.mod_eq_of_lt hlt]
          · rw [if_pos (by omega), heq, Nat.mod_self]
            simp
        have hlt : p % rra.rraDef.rowCnt < rra.rraDef.rowCnt := Nat.mod_lt _ pos
        have hrow : ringRow rra nanRow i = rra.ring.slot (p % rra.rraDef.rowCnt) := by
          rw [hmod]
          exact if_pos (by omega)
        simp only [Option.map_some, hwrap, Int.toNat_natCast, hrow]
        congr 1
        refine ih (.inl ⟨p % rra.rraDef.rowCnt + 1, by push_cast; rfl, hlt, ?_⟩)
        rw [hmod, Nat.mod_add_mod, show (i + 1).toNat = i.toNat + 1 by omega]
        rfl
      · omega

/-! ### The window -/

/-- The row of the archive for the period that ends at `n` row lengths: from the ring if it is one of
the last `row_cnt`, unknown otherwise. -/
@[grind] def heldRow (rrd : Rrd) (rra : Rra) (n : ℤ) : Row :=
  let newest : ℤ := (rrd.lastUp / rrd.rowSpan rra.rraDef : ℕ)
  if newest - rra.rraDef.rowCnt < n ∧ n ≤ newest then
    rra.ring.byAge rra.rraDef.rowCnt (newest - n).toNat
  else unknownRow rrd.dsCnt

/-- Rows by their distance from the oldest are rows by the age of their periods. -/
lemma ringRow_eq_heldRow {rrd rra} {i n : ℤ}
    (h : i = n - 1 - (rrd.lastUp / rrd.rowSpan rra.rraDef : ℕ) + rra.rraDef.rowCnt) :
    ringRow rra (unknownRow rrd.dsCnt) i = heldRow rrd rra n := by
  simp only [ringRow, heldRow]
  by_cases hin : 0 ≤ i ∧ i < rra.rraDef.rowCnt
  · rw [if_pos hin, if_pos (by omega), RingBuf.byAge]
    congr 2
    omega
  · rw [if_neg hin, if_neg (by omega)]

/-- What a request for `cf` from `start` to `stop` returns. -/
structure FetchSpec (rrd : Rrd) (cf : Cf) (start stop : ℤ) (rra : Rra) (res : FetchResult) :
    Prop where
  chosen : rrd.rra[res.rra]? = some rra
  serves : rra.rraDef.matches cf
  step : res.step = rrd.rowSpan rra.rraDef
  start_dvd : (res.step : ℤ) ∣ res.start
  stop_dvd : (res.step : ℤ) ∣ res.stop
  covers : res.start ≤ start ∧ start < res.start + res.step ∧ stop < res.stop ∧
    res.stop ≤ stop + res.step
  count : (res.data.length : ℤ) = (res.stop - res.start) / res.step
  allocated : res.data.length < res.rows
  row : ∀ k < res.data.length,
    res.data[k]? = some (some (heldRow rrd rra ((res.start + (k + 1) * res.step) / res.step)))

lemma sub_u64_mod {t : ℤ} {step : ℕ} (h0 : 0 ≤ t) (h : t < 2 ^ 63) :
    t - (u64 t % step : ℕ) = step * (t / step) := by
  obtain ⟨t, rfl⟩ := Int.eq_ofNat_of_zero_le h0
  rw [u64_natCast (by omega)]
  have := Nat.div_add_mod t step
  push_cast
  exact_mod_cast (by omega : (t : ℤ) - (t % step : ℕ) = (step * (t / step) : ℕ))

lemma add_u64_mod {t : ℤ} {step : ℕ} (pos : 0 < step) (h0 : 0 ≤ t) (h : t < 2 ^ 63) :
    t + (step - u64 t % step : ℕ) = step * (t / step + 1) := by
  have hlt : u64 t % step < step := Nat.mod_lt _ pos
  have := @sub_u64_mod _ step h0 h
  rw [mul_add, mul_one, ← this]
  omega

/-- Where the copying loop starts is the slot of the first row it copies from the ring, unless it
copies none. -/
lemma pointsTo_start {rra : Rra} (pos : 0 < rra.rraDef.rowCnt) (small : rra.rraDef.rowCnt < 2 ^ 31)
    (i : ℤ) :
    pointsTo rra i (some ((if i ≤ 0 then (rra.ring.cur + 1 : ℤ) else rra.ring.cur + 1 + i).tmod
      (s32 rra.rraDef.rowCnt))) := by
  refine ⟨(rra.ring.cur + 1 + i.toNat) % rra.rraDef.rowCnt, ?_, (Nat.mod_lt _ pos).le,
    Nat.mod_mod _ _⟩
  have harg : (if i ≤ 0 then (rra.ring.cur + 1 : ℤ) else rra.ring.cur + 1 + i) =
      ((rra.ring.cur + 1 + i.toNat : ℕ) : ℤ) := by
    split <;> omega
  rw [harg, s32_natCast small]
  rfl

/-- The first row of the window, counted from the oldest row of the ring. -/
lemma startOffset_eq {step rowCnt : ℕ} (pos : 0 < step) (hpos : 0 < rowCnt) (a c : ℤ) :
    ((step : ℤ) * a + step - (step * c - (step * (rowCnt - 1) : ℕ))).tdiv step = a - c + rowCnt := by
  have hmul : (step : ℤ) * a + step - (step * c - (step * (rowCnt - 1) : ℕ)) =
      step * (a - c + rowCnt) := by
    rw [Nat.cast_mul, Nat.cast_sub hpos]
    push_cast
    ring
  rw [hmul, Int.mul_tdiv_cancel_left _ (by omega)]

/-- The rows of the window after the newest row of the ring, negative if there are any. -/
lemma endOffset_eq {step : ℕ} (pos : 0 < step) (b c : ℤ) :
    ((step : ℤ) * c - step * b).tdiv step = c - b := by
  rw [← mul_sub, Int.mul_tdiv_cancel_left _ (by omega)]

/-- The file position is set if the window touches the ring. -/
lemma seek_iff {step rowCnt : ℕ} (pos : 0 < step) (hpos : 0 < rowCnt) (a b c : ℤ) :
    ((step : ℤ) * a ≤ step * c ∧ (step : ℤ) * c - (step * (rowCnt - 1) : ℕ) - step ≤ step * b) ↔
      a ≤ c ∧ c - rowCnt ≤ b := by
  have hs : (0 : ℤ) < step := by omega
  have hmul : (step : ℤ) * c - (step * (rowCnt - 1) : ℕ) - step = step * (c - rowCnt) := by
    rw [Nat.cast_mul, Nat.cast_sub hpos]
    push_cast
    ring
  rw [hmul, mul_le_mul_iff_right₀ hs, mul_le_mul_iff_right₀ hs]

/-- The copied rows, by periods. -/
lemma fetchRows_window {rrd : Rrd} {rra : Rra} (pos : 0 < rra.rraDef.rowCnt)
    (small : rra.rraDef.rowCnt < 2 ^ 31) {a b c : ℤ}
    (hc : c = (rrd.lastUp / rrd.rowSpan rra.rraDef : ℕ)) (hab : a ≤ b) :
    fetchRows rra (unknownRow rrd.dsCnt)
        (s32 rra.rraDef.rowCnt - (c - b) - (a - c + rra.rraDef.rowCnt)).toNat
        (a - c + rra.rraDef.rowCnt)
        (if a ≤ c ∧ c - rra.rraDef.rowCnt ≤ b then
          some ((if a - c + rra.rraDef.rowCnt ≤ 0 then (rra.ring.cur + 1 : ℤ)
            else rra.ring.cur + 1 + (a - c + rra.rraDef.rowCnt)).tmod (s32 rra.rraDef.rowCnt))
        else none) =
      (List.range (b - a).toNat).map fun k => some (heldRow rrd rra (a + 1 + (k : ℕ))) := by
  have hn : (s32 rra.rraDef.rowCnt - (c - b) - (a - c + rra.rraDef.rowCnt)).toNat = (b - a).toNat := by
    rw [s32_natCast small]
    omega
  rw [hn, fetchRows_eq pos small]
  · refine List.map_congr_left fun k _ => ?_
    rw [ringRow_eq_heldRow]
    omega
  · split
    · exact .inl (pointsTo_start pos small _)
    · exact .inr (by omega)

section WindowArithmetic

variable {step : ℕ} (pos : 0 < step)
include pos

lemma window_length (a b : ℤ) : ((step : ℤ) * b - step * a) / step = b - a := by
  rw [← mul_sub, Int.mul_ediv_cancel_left _ (by omega)]

/-- The rows counted for the allocation, before the extra one. -/
lemma window_allocated {a b : ℤ} (hab : a ≤ b) (hlt : (step : ℤ) * b - step * a < 2 ^ 64) :
    (b - a).toNat = u64 (step * b - step * a) / step := by
  obtain ⟨n, hn⟩ := Int.eq_ofNat_of_zero_le (Int.sub_nonneg.2 hab)
  have hmul : (step : ℤ) * b - step * a = ((step * n : ℕ) : ℤ) := by
    rw [← mul_sub, hn]
    push_cast
    rfl
  rw [hmul] at hlt ⊢
  rw [u64_natCast (by exact_mod_cast hlt), Nat.mul_div_cancel_left _ pos, hn]
  rfl

/-- The period of a row of the window. -/
lemma window_period (a : ℤ) (k : ℕ) : ((step : ℤ) * a + (k + 1) * step) / step = a + 1 + k := by
  rw [show (step : ℤ) * a + (k + 1) * step = step * (a + 1 + k) by ring,
    Int.mul_ediv_cancel_left _ (by omega)]

end WindowArithmetic

/-- `rrd_fetch_fn` returns the rows of the periods from the one that contains `start` to the one
that contains `stop`. -/
lemma rrdFetchFn_eq {rrd : Rrd} {cf start stop step idx} {rra : Rra}
    (hidx : chooseRra rrd cf start stop step = some idx) (hrra : rrd.rra[idx]? = some rra)
    (hstart : 0 ≤ start ∧ start < 2 ^ 63) (hstop : 0 ≤ stop ∧ stop < 2 ^ 63)
    (hspan : 0 < rrd.rowSpan rra.rraDef)
    (hrows : 0 < rra.rraDef.rowCnt ∧ rra.rraDef.rowCnt < 2 ^ 31)
    (hab : start / rrd.rowSpan rra.rraDef ≤ stop / rrd.rowSpan rra.rraDef) :
    rrdFetchFn rrd cf start stop step = some
      { rra := idx
        start := rrd.rowSpan rra.rraDef * (start / rrd.rowSpan rra.rraDef)
        stop := rrd.rowSpan rra.rraDef * (stop / rrd.rowSpan rra.rraDef + 1)
        step := rrd.rowSpan rra.rraDef
        rows := u64 (rrd.rowSpan rra.rraDef * (stop / rrd.rowSpan rra.rraDef + 1) -
          rrd.rowSpan rra.rraDef * (start / rrd.rowSpan rra.rraDef)) / rrd.rowSpan rra.rraDef + 1
        dsNamv := rrd.ds.map (·.dsDef.dsNam)
        data := (List.range (stop / rrd.rowSpan rra.rraDef + 1 - start / rrd.rowSpan rra.rraDef).toNat).map
          fun k => some (heldRow rrd rra (start / rrd.rowSpan rra.rraDef + 1 + (k : ℕ))) } := by
  have hend : ((rrd.lastUp - rrd.lastUp % rrd.rowSpan rra.rraDef : ℕ) : ℤ) =
      rrd.rowSpan rra.rraDef * (rrd.lastUp / rrd.rowSpan rra.rraDef : ℕ) := by
    rw [sub_mod_eq_mul]
    push_cast
    rfl
  simp only [rrdFetchFn, hidx, hrra]
  -- everything is a multiple of the length of a row
  rw [show rrd.pdpStep * rra.rraDef.pdpCnt = rrd.rowSpan rra.rraDef from rfl,
    sub_u64_mod hstart.1 hstart.2, add_u64_mod hspan hstop.1 hstop.2, hend,
    startOffset_eq hspan hrows.1, endOffset_eq hspan,
    show List.replicate rrd.dsCnt ExtNum.nan = unknownRow rrd.dsCnt from rfl]
  simp only [seek_iff hspan hrows.1]
  rw [fetchRows_window hrows.1 hrows.2 rfl (by omega)]

/-- What is returned, by the periods of its rows. -/
lemma rrdFetchFn_spec {rrd cf start stop step res} (h : rrdFetchFn rrd cf start stop step = some res)
    (h0 : 0 ≤ start) (hle : start ≤ stop) (hlt : stop < 2 ^ 63)
    (fits : ∀ rra ∈ rrd.rra[res.rra]?, 0 < rrd.rowSpan rra.rraDef ∧ rrd.rowSpan rra.rraDef < 2 ^ 63 ∧
      0 < rra.rraDef.rowCnt ∧ rra.rraDef.rowCnt < 2 ^ 31) :
    ∃ rra, FetchSpec rrd cf start stop rra res := by
  obtain ⟨idx, hidx⟩ : ∃ idx, chooseRra rrd cf start stop step = some idx := by
    cases hidx : chooseRra rrd cf start stop step with
    | none => simp [rrdFetchFn, hidx] at h
    | some idx => exact ⟨idx, rfl⟩
  obtain ⟨rra, hrra, hmatch⟩ := chooseRra_some hidx
  have hres : res.rra = idx := by
    simp only [rrdFetchFn, hidx, hrra, Option.some.injEq] at h
    rw [← h]
  rw [hres] at fits
  obtain ⟨hspan, hspan', hrows⟩ := fits rra hrra
  have hs : (0 : ℤ) < rrd.rowSpan rra.rraDef := by omega
  have hab : start / rrd.rowSpan rra.rraDef ≤ stop / rrd.rowSpan rra.rraDef :=
    Int.ediv_le_ediv hs hle
  rw [rrdFetchFn_eq hidx hrra ⟨h0, by omega⟩ ⟨by omega, hlt⟩ hspan hrows hab] at h
  obtain rfl := Option.some.inj h
  have hstart : 0 ≤ start / (rrd.rowSpan rra.rraDef : ℤ) := Int.ediv_nonneg h0 hs.le
  have hsdiv := Int.mul_ediv_add_emod start (rrd.rowSpan rra.rraDef)
  have hsmod := Int.emod_nonneg start hs.ne'
  have hsmod' := Int.emod_lt_of_pos start hs
  have hedec := Int.mul_ediv_add_emod stop (rrd.rowSpan rra.rraDef)
  have hemod := Int.emod_nonneg stop hs.ne'
  have hemod' := Int.emod_lt_of_pos stop hs
  have hlen : (rrd.rowSpan rra.rraDef : ℤ) * (stop / rrd.rowSpan rra.rraDef + 1) -
      rrd.rowSpan rra.rraDef * (start / rrd.rowSpan rra.rraDef) < 2 ^ 64 := by
    have := mul_nonneg hs.le hstart
    linarith
  refine ⟨rra, hrra, hmatch, rfl, Dvd.intro _ rfl, Dvd.intro _ rfl, ⟨?_, ?_, ?_, ?_⟩, ?_, ?_, ?_⟩
  · show (rrd.rowSpan rra.rraDef : ℤ) * (start / rrd.rowSpan rra.rraDef) ≤ start
    linarith
  · show start < (rrd.rowSpan rra.rraDef : ℤ) * (start / rrd.rowSpan rra.rraDef) + _
    linarith
  · show stop < (rrd.rowSpan rra.rraDef : ℤ) * (stop / rrd.rowSpan rra.rraDef + 1)
    linarith
  · show (rrd.rowSpan rra.rraDef : ℤ) * (stop / rrd.rowSpan rra.rraDef + 1) ≤ stop + _
    linarith
  · rw [List.length_map, List.length_range, window_length hspan, Int.toNat_of_nonneg (by omega)]
  · rw [List.length_map, List.length_range]
    exact Nat.lt_succ_iff.2 (window_allocated hspan (by omega) hlen).le
  · intro k hk
    rw [List.length_map, List.length_range] at hk
    rw [List.getElem?_map, List.getElem?_range hk, Option.map_some, window_period hspan]

/-! ### After a run -/

/-- The row a run has stored in archive `i` for the period that ends at `n` row lengths, if it is one
of the last `row_cnt` periods; unknown otherwise. -/
def Db.storedRow (db : Db) (i : ℕ) (r : RraDef) (n : ℤ) : Row :=
  let newest : ℤ := (db.rrd.lastUp / db.rrd.rowSpan r : ℕ)
  if newest - r.rowCnt < n ∧ n ≤ newest then
    (db.rowOf i (db.rrd.rowSpan r) n).getD (unknownRow db.rrd.dsCnt)
  else unknownRow db.rrd.dsCnt

/-- What a request for `cf` from `start` to `stop` returns after a run, from an archive with
definition `r`. -/
structure Db.Returns (db : Db) (cf : Cf) (start stop : ℤ) (r : RraDef) (res : FetchResult) :
    Prop where
  serves : r.matches cf
  step : res.step = db.rrd.pdpStep * r.pdpCnt
  start_dvd : (res.step : ℤ) ∣ res.start
  stop_dvd : (res.step : ℤ) ∣ res.stop
  covers : res.start ≤ start ∧ start < res.start + res.step ∧ stop < res.stop ∧
    res.stop ≤ stop + res.step
  count : (res.data.length : ℤ) = (res.stop - res.start) / res.step
  allocated : res.data.length < res.rows
  onePerPeriod : ∀ acc ∈ db.accepted,
    (acc.rows res.rra).length = acc.sec / res.step - acc.lastUp / res.step
  row : ∀ k < res.data.length, res.data[k]? =
    some (some (db.storedRow res.rra r ((res.start + (k + 1) * res.step) / res.step)))

/-- The archive keeps the rows it is given, in order, its rows can be counted in an `int`, and the
time it spans in a `time_t`. -/
structure RraDef.Indexed (pdpStep : ℕ) (r : RraDef) : Prop where
  plain : ¬ r.cf.isSeasonal
  rowCnt_lt : r.rowCnt < 2 ^ 31
  span_lt : pdpStep * r.pdpCnt * r.rowCnt < 2 ^ 63

/-- What the ring holds is what the run has stored. -/
lemma heldRow_eq_storedRow {h : Header} {db : Db} {i r rra} (holds : Db.RingHolds h i r db)
    (hi : db.rrd.rra[i]? = some rra) (n : ℤ) : heldRow db.rrd rra n = db.storedRow i r n := by
  obtain ⟨rra', hi', rfl, hring⟩ := holds.ring
  rw [hi] at hi'
  cases hi'
  have hspan : db.rrd.rowSpan rra.rraDef = h.pdpStep * rra.rraDef.pdpCnt := by
    rw [Rrd.rowSpan, holds.inv.pdpStep]
  simp only [heldRow, Db.storedRow]
  split
  · rename_i hin
    rw [hspan] at hin ⊢
    rw [hring _ (by omega), holds.dsCnt]
    congr 2
    omega
  · rfl

/-- After every run of updates that close at most `row_cnt` rows of the chosen archive each, a request
returns the rows that were stored when the periods closed. -/
theorem fetch_after_run {h : Header} {random : ℕ → ℕ} {ops : List Op} {db : Db} {cf : Cf}
    {start stop : ℤ} {step : ℕ} {res : FetchResult}
    (hrun : Db.run ⟨rrdInitData h random, []⟩ ops = some db)
    (hfetch : rrdFetchFn db.rrd cf start stop step = some res)
    (hok : Run.Always Db.step (fun db op => op.fits db ∧ op.closesAtMost res.rra db)
      ⟨rrdInitData h random, []⟩ ops)
    (indexed : ∀ r ∈ h.rra[res.rra]?, r.Indexed h.pdpStep)
    (h0 : 0 ≤ start) (hle : start ≤ stop) (hlt : stop < 2 ^ 63) :
    ∃ r, h.rra[res.rra]? = some r ∧ db.Returns cf start stop r res := by
  have inv : Db.Inv h db :=
    Run.run_inv_of (Db.Inv h)
      (fun db op db' hi (hok : op.fits db ∧ op.closesAtMost res.rra db) =>
        step_inv db op db' hi hok.1) hrun hok (init_inv h random)
  have defs : ∀ rra ∈ db.rrd.rra[res.rra]?, h.rra[res.rra]? = some rra.rraDef := by
    intro rra hrra
    rw [← inv.defs, List.getElem?_map, hrra]
    rfl
  obtain ⟨rra, spec⟩ := rrdFetchFn_spec hfetch h0 hle hlt (by
    intro rra hrra
    obtain ⟨-, hrows, hspan⟩ := indexed rra.rraDef (defs rra hrra)
    have valid := inv.inv.cdp.valid rra (List.mem_of_getElem? hrra)
    have hpos : 0 < db.rrd.rowSpan rra.rraDef := Nat.mul_pos inv.inv.pdpStep_pos valid.pdpCnt_pos
    refine ⟨hpos, ?_, valid.rowCnt_pos, hrows⟩
    rw [Rrd.rowSpan, inv.pdpStep]
    exact lt_of_le_of_lt (Nat.le_mul_of_pos_right _ valid.rowCnt_pos) hspan)
  have hr := defs rra spec.chosen
  have holds := run_ringHolds hr (indexed rra.rraDef hr).plain hrun hok
  refine ⟨rra.rraDef, hr, spec.serves, spec.step, spec.start_dvd, spec.stop_dvd, spec.covers,
    spec.count, spec.allocated, ?_, ?_⟩
  · rw [spec.step, Rrd.rowSpan, inv.pdpStep]
    exact holds.onePerPeriod
  · intro k hk
    rw [spec.row k hk, heldRow_eq_storedRow holds spec.chosen]

/-- One `GAUGE` and an `AVERAGE` of one step to the row, which serves requests for `MAX` as well. -/
def singleHeader : Header where
  version := 3
  pdpStep := 10
  lastUp := 1000
  ds := [gaugeDs ['a'] 60]
  rra := [plainRra .average 4 1 (1 / 2)]
  pdpStep_pos := tenSeconds_pos
  lastUp_lt := thousand_lt
  valid r hr := by
    rw [List.mem_singleton.1 hr]
    exact ⟨by decide, by decide, by decide, fun _ => ⟨1 / 2, rfl, by norm_num, by norm_num⟩⟩

theorem fetch_after_run_maximum :
    ∃ db res, Db.run ⟨rrdInitData singleHeader fun _ => 2, []⟩
        [.arg .idle [0] "1013:7".toList, .arg .idle [0] "1035:9".toList] = some db ∧
      rrdFetchFn db.rrd .maximum 1005 1040 10 = some res ∧
      db.Returns .maximum 1005 1040 (plainRra .average 4 1 (1 / 2)) res := by
  have hrun : ((Db.run ⟨rrdInitData singleHeader fun _ => 2, []⟩
      [.arg .idle [0] "1013:7".toList, .arg .idle [0] "1035:9".toList]).bind fun db =>
        (rrdFetchFn db.rrd .maximum 1005 1040 10).map (·.rra)) = some 0 := by decide +kernel
  obtain ⟨db, hdb, hres⟩ := Option.bind_eq_some_iff.1 hrun
  obtain ⟨res, hfetch, hrra⟩ := Option.map_eq_some_iff.1 hres
  have hok : Run.Always Db.step (fun db op => op.fits db ∧ op.closesAtMost res.rra db)
      ⟨rrdInitData singleHeader fun _ => 2, []⟩
      [.arg .idle [0] "1013:7".toList, .arg .idle [0] "1035:9".toList] := by
    rw [hrra]
    decide +kernel
  have indexed : ∀ r ∈ singleHeader.rra[res.rra]?, r.Indexed singleHeader.pdpStep := by
    rw [hrra]
    intro r hr
    cases hr
    exact ⟨by decide, by decide, by decide⟩
  obtain ⟨r, hr, returns⟩ := fetch_after_run hdb hfetch hok indexed (by decide) (by decide) (by decide)
  rw [hrra] at hr
  cases hr
  exact ⟨db, res, hdb, hfetch, returns⟩

/-- A prediction and its seasonal coefficients, three to the season. -/
def seasonalHeader : Header where
  version := 3
  pdpStep := 10
  lastUp := 1000
  ds := [gaugeDs ['a'] 60]
  rra :=
    [{ plainRra .hwpredict 3 1 0 with
        hwAlpha := .fin (1 / 2), hwBeta := .fin (1 / 2), dependentRraIdx := 1 },
      { plainRra .seasonal 3 1 0 with seasonalGamma := .fin (1 / 2), dependentRraIdx := 0 }]
  pdpStep_pos := tenSeconds_pos
  lastUp_lt := thousand_lt
  valid r hr := by
    simp only [List.mem_cons, List.not_mem_nil, or_false] at hr
    obtain rfl | rfl := hr
    · exact ⟨by decide, by decide, by decide, fun h => nomatch h⟩
    · exact ⟨by decide, by decide, by decide, fun h => nomatch h⟩

/-- The second update closes three periods at once and is skipped by the seasonal archive (the
smoothing it asks for does nothing with so few rows): nothing is stored for the period that ends at
1040, and a request for it returns the row stored for the one that ended at 1010. -/
theorem seasonal_returns_earlier_row :
    ∃ db res, Db.run ⟨rrdInitData seasonalHeader fun _ => 0, []⟩
        [.arg .idle [0] "1010:7".toList, .arg .idle [0] "1040:8".toList, .smooth] = some db ∧
      Run.Always Db.step (fun db op => op.fits db ∧ op.closesAtMost 1 db)
        ⟨rrdInitData seasonalHeader fun _ => 0, []⟩
        [.arg .idle [0] "1010:7".toList, .arg .idle [0] "1040:8".toList, .smooth] ∧
      rrdFetchFn db.rrd .seasonal 1030 1039 10 = some res ∧
      res.rra = 1 ∧ res.start = 1030 ∧ res.step = 10 ∧ res.data = [some [.fin 0]] ∧
      db.rowOf 1 10 104 = none ∧ db.rowOf 1 10 101 = some [.fin 0] ∧
      db.storedRow 1 (plainRra .seasonal 3 1 0) 104 = [.nan] := by
  have hrun : ((Db.run ⟨rrdInitData seasonalHeader fun _ => 0, []⟩
      [.arg .idle [0] "1010:7".toList, .arg .idle [0] "1040:8".toList, .smooth]).bind fun db =>
        (rrdFetchFn db.rrd .seasonal 1030 1039 10).map fun res =>
          decide (res.rra = 1 ∧ res.start = 1030 ∧ res.step = 10 ∧ res.data = [some [.fin 0]] ∧
            db.rowOf 1 10 104 = none ∧ db.rowOf 1 10 101 = some [.fin 0] ∧
            db.storedRow 1 (plainRra .seasonal 3 1 0) 104 = [.nan])) = some true := by
    decide +kernel
  obtain ⟨db, hdb, hres⟩ := Option.bind_eq_some_iff.1 hrun
  obtain ⟨res, hfetch, hprop⟩ := Option.map_eq_some_iff.1 hres
  exact ⟨db, res, hdb, by decide +kernel, hfetch, of_decide_eq_true hprop⟩

end Rrdtool
