import Rrdtool.Prefill.Average

/-!
# `xff` in `prefill_bin` and in `update_cdp`

A bin of `n` primary data points is filled from an archive that has these points one by one. `update_cdp` takes `xff` for
the part of the points that may be unknown; `prefill_bin` takes it for the part of the seconds that must be exceeded by
the known ones. `prefillBin_average_iff` says when both come to the same row.

The rows of the source are counted one after the other (`overRows_counted`). Rows of two seconds or more are added to the
coverage exactly (`Blocks.add`). For rows of one second the first decides: if it is known the others are not counted, and
if it is not all are (`FirstOpen.add`), although the coverage is no partition any more.
-/

namespace Rrdtool
open Tiling SourceCandidate

variable {junk : Coverage} {bin : TargetBin} {c : SourceCandidate} {n row : ℕ} {s lo hi t : ℤ} {x : ℚ}
variable {front g : List RrdValue} {y : RrdValue} {st : PrefillBin} {a : List Coverage} {rows : List ℕ}

/-! ### Rows in turn -/

/-- Nothing is done once the bin is covered. -/
lemma overRows_full (hfull : ¬st.totalCovered < bin.size) : overRows junk bin c rows st = .ok st := by
  cases rows with
  | nil => rfl
  | cons row rows =>
    rw [overRows, if_neg hfull]
    rfl

/-- Rows that change nothing. -/
lemma overRows_skip {older : List ℕ} (h : ∀ row ∈ older, prefillRow junk bin c row st = .ok st) :
    overRows junk bin c (older ++ rows) st = overRows junk bin c rows st := by
  by_cases hopen : st.totalCovered < bin.size
  · induction older with
    | nil => rfl
    | cons row older ih =>
      rw [List.cons_append, overRows, if_pos hopen, h row List.mem_cons_self]
      exact ih fun row' hrow' => h row' (List.mem_cons_of_mem _ hrow')
  · rw [overRows_full hopen, overRows_full hopen]

/-- What `add_coverage` has to do for each row that is known: cover its seconds, and keep `Cov`. -/
structure Adds (junk : Coverage) (lo s : ℤ) (n : ℕ) (Cov : List RrdValue → List Coverage → Prop) : Prop where
  nan : ∀ front a, Cov front a → Cov (front ++ [.nan]) a
  add : ∀ front a y, front.length < n → y ≠ .nan → Cov front a →
    ∃ a', addCoverage junk a (lo + front.length * s) (lo + (front.length + 1) * s - 1) = .ok (a', s) ∧
      Cov (front ++ [y]) a'

/-- The rows of the bin, one after the other, are counted. -/
lemma overRows_counted (h : c.Sized) (hn : 0 < n) (hcf : bin.cf = .average) (hsize : bin.size = n * c.slot)
    (hfit : n * c.slot < 2 ^ 31) {Cov : List RrdValue → List Coverage → Prop}
    (hadds : Adds junk bin.start c.slot n Cov) (hst : Counted n c.slot front st) (hcov : Cov front st.coverage)
    (hlen : front.length + rows.length ≤ n)
    (hend : ∀ i row : ℕ, rows[i]? = some row → c.rowEnd row = bin.start + (front.length + i + 1) * c.slot - 1) :
    ∃ st', overRows junk bin c rows st = .ok st' ∧ Counted n c.slot (front ++ rows.map c.value) st' := by
  have hpos := h.slot_pos
  induction rows generalizing front st with
  | nil => exact ⟨st, rfl, by rwa [List.map_nil, List.append_nil]⟩
  | cons row rows ih =>
    rw [List.length_cons] at hlen
    -- the bin is not covered before its last row
    have hopen : st.totalCovered < bin.size := by
      have hle := known_length_add front
      have hless : ((known front).length : ℤ) < n := by omega
      rw [hst.total, hsize]
      exact mul_lt_mul_of_pos_right hless hpos
    have hrow : c.rowEnd row = bin.start + (front.length + 1) * c.slot - 1 := by
      have := hend 0 row rfl
      rwa [Nat.cast_zero, add_zero] at this
    have hnext : ∀ (y : RrdValue) (i row' : ℕ), rows[i]? = some row' →
        c.rowEnd row' = bin.start + ((front ++ [y]).length + i + 1) * c.slot - 1 := fun y i row' hi => by
      rw [hend (i + 1) row' hi, List.length_append, List.length_singleton]
      push_cast
      ring
    have hsplit : front ++ (row :: rows).map c.value = front ++ [c.value row] ++ rows.map c.value := by
      rw [List.map_cons, List.append_assoc]
      rfl
    have hlen' : ∀ y : RrdValue, (front ++ [y]).length + rows.length ≤ n := fun y => by
      rw [List.length_append, List.length_singleton]
      omega
    rw [overRows, if_pos hopen, hsplit]
    by_cases hv : c.value row = .nan
    · rw [prefillRow_nan hv, hv]
      exact ih hst.nan (hadds.nan _ _ hcov) (hlen' _) (hnext _)
    · obtain ⟨a', hadd, hcov'⟩ := hadds.add front st.coverage (c.value row) (by omega) hv hcov
      have hstart : c.rowEnd row - c.slot + 1 = bin.start + front.length * c.slot := by
        rw [hrow]
        ring
      rw [prefillRow_known h hv (by rw [hstart, hrow]; exact hadd), if_pos hpos, hcf, hsize,
        s32_of_lt (mul_nonneg n.cast_nonneg hpos.le) hfit]
      exact ih (hst.add hv hn hpos) hcov' (hlen' _) (hnext _)

/-! ### Rows of two seconds or more -/

/-- The coverage is that of the rows `front`. -/
structure Blocks (lo hi s : ℤ) (front : List RrdValue) (a : List Coverage) : Prop where
  partition : Partition lo hi a
  mem_cover : ∀ t, t ∈ cover a ↔
    ∃ (i : ℕ) (y : RrdValue), front[i]? = some y ∧ y ≠ .nan ∧ lo + i * s ≤ t ∧ t < lo + (i + 1) * s

lemma getElem?_concat {i : ℕ} {z : RrdValue} :
    (front ++ [y])[i]? = some z ↔ front[i]? = some z ∨ i = front.length ∧ y = z := by
  rcases lt_trichotomy i front.length with hlt | rfl | hgt
  · rw [List.getElem?_append_left hlt, or_iff_left fun h => hlt.ne h.1]
  · rw [List.getElem?_concat_length, List.getElem?_eq_none le_rfl, Option.some.injEq]
    exact ⟨fun h => .inr ⟨rfl, h⟩, fun h => h.elim nofun fun h => h.2⟩
  · rw [List.getElem?_eq_none (by rw [List.length_append, List.length_singleton]; omega), List.getElem?_eq_none hgt.le]
    exact ⟨nofun, fun h => h.elim nofun fun h => absurd h.1 hgt.ne'⟩

lemma Blocks.nan (h : Blocks lo hi s front a) : Blocks lo hi s (front ++ [.nan]) a := by
  refine ⟨h.partition, fun t => ?_⟩
  rw [h.mem_cover]
  constructor
  · rintro ⟨i, y, hi, hy, ht⟩
    exact ⟨i, y, getElem?_concat.2 (.inl hi), hy, ht⟩
  · rintro ⟨i, y, hi, hy, ht⟩
    rcases getElem?_concat.1 hi with hi | ⟨-, rfl⟩
    · exact ⟨i, y, hi, hy, ht⟩
    · exact absurd rfl hy

/-- No single second is uncovered before the next row: the seconds around it are covered, and the rows that they belong
to leave room for a multiple of the length of a row. -/
lemma Blocks.not_early (h : Blocks lo hi s front a) (hs : 2 ≤ s) (hhi : lo + front.length * s ≤ hi) {d : Coverage}
    (hd : d ∈ a) : ¬Early (lo + front.length * s) d := by
  rintro ⟨hflag, hone, hbefore⟩
  have hfree := h.partition.tiles.notMem_cover hd hflag le_rfl hone.le
  have hlo := h.partition.tiles.start_le hd
  have hnot : ¬s ∣ 1 := fun hdvd => by
    have := Int.le_of_dvd Int.one_pos hdvd
    omega
  obtain ⟨i, y, hi, hy, hstart, hstop⟩ := (h.mem_cover _).1 (h.partition.next_mem_cover hd hflag (by omega))
  -- the second is not in that row, so the row starts after it
  have hedge : d.start + 1 = lo + i * s := by
    by_contra hne
    exact hfree ((h.mem_cover _).2 ⟨i, y, hi, hy, by omega, by omega⟩)
  rcases eq_or_lt_of_le hlo with hfirst | hlater
  · exact hnot ⟨i, by linarith⟩
  · obtain ⟨j, z, hj, hz, hstart', hstop'⟩ := (h.mem_cover _).1 (h.partition.prev_mem_cover hd hflag hlater)
    have hedge' : d.start = lo + (j + 1) * s := by
      by_contra hne
      exact hfree ((h.mem_cover _).2 ⟨j, z, hj, hz, by omega, by omega⟩)
    exact hnot ⟨i - (j + 1), by linarith⟩

lemma Blocks.add (h : Blocks lo hi s front a) (hs : 2 ≤ s) (hbound : s < 2 ^ 31)
    (hhi : lo + (front.length + 1) * s - 1 ≤ hi) (hy : y ≠ .nan) :
    ∃ a', addCoverage junk a (lo + front.length * s) (lo + (front.length + 1) * s - 1) = .ok (a', s) ∧
      Blocks lo hi s (front ++ [y]) a' := by
  have hlen : (front.length + 1) * s = front.length * s + s := by ring
  have hfront : 0 ≤ front.length * s := mul_nonneg front.length.cast_nonneg (by omega)
  rw [hlen] at hhi ⊢
  have hr : lo ≤ hi := by omega
  obtain ⟨d, rest, rfl⟩ := h.partition.tiles.eq_cons hr
  have hmax : max (lo + front.length * s) lo = lo + front.length * s := max_eq_left (by omega)
  have hmin : min (lo + (front.length * s + s) - 1) hi = lo + (front.length * s + s) - 1 := min_eq_left hhi
  -- none of these seconds is covered
  have hdisjoint : Finset.Icc (lo + front.length * s) (lo + (front.length * s + s) - 1) \ cover (d :: rest) =
      Finset.Icc (lo + front.length * s) (lo + (front.length * s + s) - 1) := by
    rw [Finset.sdiff_eq_self_iff_disjoint, Finset.disjoint_left]
    intro t ht ht'
    obtain ⟨i, z, hi, -, -, hlt⟩ := (h.mem_cover t).1 ht'
    have hle := (Finset.mem_Icc.1 ht).1
    have hi' : (i : ℤ) + 1 ≤ front.length := by
      have := (List.getElem?_eq_some_iff.1 hi).1
      omega
    have := mul_le_mul_of_nonneg_right hi' (by omega : 0 ≤ s)
    omega
  have hcard : ((Finset.Icc (lo + front.length * s) (lo + (front.length * s + s) - 1)).card : ℤ) = s := by
    rw [Int.card_Icc, Int.toNat_of_nonneg (by omega)]
    ring
  have hexact : Exact lo hi (d :: rest) (lo + front.length * s) (lo + (front.length * s + s) - 1)
      (addCoverage junk (d :: rest) (lo + front.length * s) (lo + (front.length * s + s) - 1)) :=
    (exact_iff_of_lt h.partition hr (by omega) (by rw [hmax, hmin]; omega)).2
      ⟨by rw [hmax, hmin, hdisjoint]; omega, fun e he => by rw [hmax]; exact h.not_early hs (by omega) he⟩
  obtain ⟨a', m, heq, hpart, hcover, hm⟩ := hexact
  rw [icc_inter, hmax, hmin] at hcover
  rw [hcover, Finset.union_sdiff_left, hdisjoint, hcard] at hm
  refine ⟨a', by rw [heq, hm], hpart, fun t => ?_⟩
  rw [hcover, Finset.mem_union, h.mem_cover, Finset.mem_Icc]
  constructor
  · rintro (⟨i, z, hi, hz, ht⟩ | ht)
    · exact ⟨i, z, getElem?_concat.2 (.inl hi), hz, ht⟩
    · exact ⟨front.length, y, getElem?_concat.2 (.inr ⟨rfl, rfl⟩), hy, ht.1, by rw [hlen]; omega⟩
  · rintro ⟨i, z, hi, hz, ht⟩
    rcases getElem?_concat.1 hi with hi | ⟨rfl, rfl⟩
    · exact .inl ⟨i, z, hi, hz, ht⟩
    · rw [hlen] at ht
      exact .inr ⟨ht.1, by omega⟩

/-! ### Rows of one second -/

/-- The first second is not covered, and the first interval ends before `t` or is the only one. The intervals need not
follow each other. -/
structure FirstOpen (lo hi t : ℤ) (d : Coverage) (rest : List Coverage) : Prop where
  flag : d.covered = false
  first : d.start = lo
  le : lo ≤ d.stop
  alternate : (d :: rest).IsChain fun c d => c.covered ≠ d.covered
  last : ∀ e ∈ (d :: rest).getLast?, e.stop = hi
  before : rest = [] ∨ d.stop < t

variable {d : Coverage} {rest : List Coverage}

lemma FirstOpen.next (h : FirstOpen lo hi t d rest) : FirstOpen lo hi (t + 1) d rest :=
  { h with before := h.before.imp_right fun hlt => by omega }

/-- A second of a bin that nothing covers yet. -/
lemma addCoverage_one (junk : Coverage) (hlo : lo ≤ t) (hhi : t ≤ hi) :
    ∃ d rest, addCoverage junk [⟨false, lo, hi⟩] t t = .ok (d :: rest, 1) ∧ Partition lo hi (d :: rest) ∧
      cover (d :: rest) = {t} := by
  have hmax : max t lo = t := max_eq_left hlo
  have hmin : min t hi = t := min_eq_left hhi
  have hpart : Partition lo hi [⟨false, lo, hi⟩] := ⟨⟨rfl, hlo.trans hhi, rfl⟩, List.isChain_singleton _⟩
  have hempty : cover [(⟨false, lo, hi⟩ : Tile)] = ∅ := rfl
  have hexact : Exact lo hi [⟨false, lo, hi⟩] t t (addCoverage junk [⟨false, lo, hi⟩] t t) :=
    (exact_iff_of_eq hpart (hlo.trans hhi) le_rfl (by rw [hmax, hmin])).2 (.inl (by rwa [hmax]))
  obtain ⟨a, m, heq, hpart', hcover, hm⟩ := hexact
  rw [hempty, Finset.empty_union, icc_inter, hmax, hmin, Finset.Icc_self] at hcover
  rw [hempty, Finset.sdiff_empty, hcover, Finset.card_singleton] at hm
  obtain ⟨d, rest, rfl⟩ := hpart'.tiles.eq_cons (hlo.trans hhi)
  exact ⟨d, rest, by rw [heq, hm]; rfl, hpart', hcover⟩

/-- The only interval is split at `t`. -/
lemma FirstOpen.add_single (junk : Coverage) (h : FirstOpen lo hi t d []) (ht : lo < t) (hhi : t ≤ hi) :
    ∃ d' rest', addCoverage junk [d] t t = .ok (d' :: rest', 1) ∧ FirstOpen lo hi (t + 1) d' rest' := by
  obtain ⟨flag, start, stop⟩ := d
  obtain rfl : flag = false := h.flag
  obtain rfl : start = lo := h.first
  obtain rfl : stop = hi := h.last _ rfl
  obtain ⟨d', rest', heq, hpart, hcover⟩ := addCoverage_one junk ht.le hhi
  have hfirst := hpart.tiles.1
  have hle := hpart.tiles.2.1
  -- only `t` is covered, so the first interval is not and ends before it
  have hflag : d'.covered = false := by
    by_contra hd
    have hmem : d'.start ∈ cover (d' :: rest') := by
      rw [cover_cons]
      exact Finset.mem_union_left _ (mem_cover_tile.2 ⟨Bool.eq_true_of_not_eq_false hd, le_rfl, by omega⟩)
    rw [hcover, Finset.mem_singleton] at hmem
    omega
  have hbefore : d'.stop < t := by
    by_contra hge
    refine hpart.tiles.notMem_cover List.mem_cons_self hflag (t := t) (by omega) (by omega) ?_
    rw [hcover]
    exact Finset.mem_singleton_self t
  exact ⟨d', rest', heq, hflag, hfirst, hle, hpart.alternate, fun _ => hpart.tiles.stop_getLast, .inr (by omega)⟩

/-- The first interval, which ends before `t`, is split at `t`. -/
lemma FirstOpen.add_outside (junk : Coverage) (h : FirstOpen lo hi t d rest) (hlt : d.stop < t) (hrest : rest ≠ []) (hhi : t ≤ hi) :
    ∃ d' rest', addCoverage junk (d :: rest) t t = .ok (d' :: rest', 1) ∧ FirstOpen lo hi (t + 1) d' rest' := by
  obtain ⟨hflag, rfl, hle, halt, hlast, -⟩ := h
  have hmax : max t d.start = t := max_eq_left (by omega)
  have hmin : min t hi = t := min_eq_left hhi
  have hloop := coverageLoop_within junk [] rest (2 * (d :: rest).length) 0 rfl (le_refl t) hle (.inl rfl)
  rw [List.nil_append, List.length_nil, splitCoverage_outside hflag hle hlt le_rfl] at hloop
  have halternate : (⟨false, d.start, t - 1⟩ :: ⟨true, t, t⟩ :: ⟨false, t + 1, d.stop⟩ :: rest : List Coverage).IsChain
      fun c d => c.covered ≠ d.covered := by
    obtain ⟨e, rest, rfl⟩ := List.exists_cons_of_ne_nil hrest
    obtain ⟨hne, hchain⟩ := List.isChain_cons_cons.1 halt
    rw [hflag] at hne
    exact .cons_cons Bool.false_ne_true (.cons_cons Bool.false_ne_true.symm (.cons_cons hne hchain))
  have hone : s32 (0 + (t - t + 1)) = 1 := by rw [sub_self]; rfl
  refine ⟨⟨false, d.start, t - 1⟩, ⟨true, t, t⟩ :: ⟨false, t + 1, d.stop⟩ :: rest, ?_, rfl, rfl, ?_, halternate,
    fun e he => ?_, .inr ?_⟩
  · rw [addCoverage_of_loop rfl hlast (by omega) (le_refl t) (by rw [hmax, hmin]) (by rw [hmax, hmin]; exact hloop) rfl,
      collapse_of_alternate halternate, hone]
  · dsimp only
    omega
  · obtain ⟨e', rest, rfl⟩ := List.exists_cons_of_ne_nil hrest
    exact hlast e he
  · dsimp only
    omega

/-- The second `t` is covered and counted. -/
lemma FirstOpen.add (junk : Coverage) (h : FirstOpen lo hi t d rest) (ht : lo < t) (hhi : t ≤ hi) :
    ∃ d' rest', addCoverage junk (d :: rest) t t = .ok (d' :: rest', 1) ∧ FirstOpen lo hi (t + 1) d' rest' := by
  rcases eq_or_ne rest [] with rfl | hrest
  · exact h.add_single junk ht hhi
  · exact h.add_outside junk (h.before.resolve_left hrest) hrest hhi

/-- After a first second that is covered, no other is added. -/
lemma addCoverage_first_covered (h : Partition lo hi (d :: rest)) (hflag : d.covered = true) (hlo : lo ≤ t)
    (hhi : t ≤ hi) : addCoverage junk (d :: rest) t t = .ok (d :: rest, 0) := by
  have hmax : max t lo = t := max_eq_left hlo
  have hmin : min t hi = t := min_eq_left hhi
  have hle : d.start ≤ d.stop := h.tiles.start_le_stop List.mem_cons_self
  have hloop := coverageLoop_within junk [] rest (2 * (d :: rest).length) 0 rfl (le_refl t) hle (.inl rfl)
  rw [List.nil_append, List.length_nil, splitCoverage, if_pos hflag] at hloop
  rw [addCoverage_of_loop h.tiles.1 (fun _ => h.tiles.stop_getLast) (by omega) (le_refl t) (by rw [hmax, hmin])
    (by rw [hmax, hmin]; exact hloop) rfl, collapse_of_alternate h.alternate]

/-! ### The rows of a bin -/

namespace SourceCandidate

/-- The value of the row that covers a time. -/
@[grind] def valueAt (c : SourceCandidate) (t : ℤ) : RrdValue := c.value (c.rowOfAge (c.age t))

/-- `n` rows from the row of a time on. -/
@[grind] def rowsFrom (c : SourceCandidate) (start : ℤ) (n : ℕ) : List ℕ :=
  (List.range n).map fun i : ℕ => c.rowOfAge (c.age (start + i * c.slot))

/-- The values of `n` rows from a time on. -/
@[grind] def points (c : SourceCandidate) (start : ℤ) (n : ℕ) : List RrdValue :=
  (List.range n).map fun i : ℕ => c.valueAt (start + i * c.slot)

/-- When the inner loop gets to the rows of a bin: `row_for_time` finds a row for the first second, and from it to the row
of the last second it is not the whole ring. -/
def Reaches (c : SourceCandidate) (start stop : ℤ) : Prop :=
  s32 (s32 c.rrd.lastUp - c.rowCnt * c.slot) < c.reqTime start ∧ c.pastCnt start < c.rowCnt ∧
    c.pastCnt start - c.age stop + 1 < c.rowCnt

instance (c : SourceCandidate) (start stop : ℤ) : Decidable (c.Reaches start stop) :=
  inferInstanceAs (Decidable (_ ∧ _ ∧ _))

end SourceCandidate

lemma rowsFrom_map_value (c : SourceCandidate) (start : ℤ) (n : ℕ) :
    (c.rowsFrom start n).map c.value = c.points start n := by
  rw [rowsFrom, List.map_map]
  rfl

/-- The bin is `n` rows of the candidate. -/
structure Spans (bin : TargetBin) (n : ℕ) (c : SourceCandidate) : Prop where
  size : bin.size = n * c.slot
  start : bin.start = bin.stop - bin.size + 1
  aligned : c.slot ∣ bin.stop

lemma Spans.stop_eq (hspan : Spans bin n c) : bin.stop = c.now - c.age bin.stop * c.slot := by
  rw [now_sub_age, now_sub_emod, Int.emod_eq_zero_of_dvd ((Int.dvd_neg).2 hspan.aligned), add_zero]

section Spans
variable (h : c.Sized) (hspan : Spans bin n c)
include h hspan

/-- The ages of the rows. -/
lemma Spans.age_add (i : ℕ) : c.age (bin.start + i * c.slot) = c.age bin.stop + n - 1 - i := by
  have hpos := h.slot_pos
  have hstop := hspan.stop_eq
  have hend : c.now - (c.age bin.stop + n - 1 - i) * c.slot = bin.start + i * c.slot + (c.slot - 1) := by
    rw [hspan.start, hspan.size]
    linarith
  exact age_eq h (by omega) (by omega)

lemma Spans.age_start : c.age bin.start = c.age bin.stop + n - 1 := by
  have hfirst := hspan.age_add h 0
  rwa [Nat.cast_zero, zero_mul, add_zero, sub_zero] at hfirst

lemma Spans.start_le (hn : 0 < n) : bin.start ≤ bin.stop := by
  have hpos : 0 < n * c.slot := mul_pos (by exact_mod_cast hn) h.slot_pos
  have := hspan.start
  have := hspan.size
  omega

/-- The row of the last second is found when the first second's is. -/
lemma Spans.foundAge_stop (he : c.InWindow bin.stop) (hle : bin.start ≤ bin.stop)
    (hfirst : s32 (s32 c.rrd.lastUp - c.rowCnt * c.slot) < c.reqTime bin.start) :
    c.foundAge bin.stop = some (c.age bin.stop) := by
  have hup := Int.emod_lt_of_pos (c.rrd.lastUp : ℤ) h.slot_pos
  refine (foundAge_eq_iff h he).2 ⟨hfirst.trans_le (reqTime_mono h hle), .inr ?_⟩
  rwa [Int.emod_eq_zero_of_dvd ((Int.dvd_neg).2 hspan.aligned), add_zero]

lemma binRows_of_not_reaches (hs : c.InWindow bin.start) (he : c.InWindow bin.stop) (hle : bin.start ≤ bin.stop)
    (hr : ¬c.Reaches bin.start bin.stop) : c.binRows bin.start bin.stop = [] := by
  have hb := age_nonneg h he.2
  by_cases hfirst : s32 (s32 c.rrd.lastUp - c.rowCnt * c.slot) < c.reqTime bin.start
  · by_cases hpast : c.pastCnt bin.start < c.rowCnt
    · have hfull : ¬c.pastCnt bin.start - c.age bin.stop + 1 < c.rowCnt := fun hpart => hr ⟨hfirst, hpast, hpart⟩
      have hfound : c.foundAge bin.start = some (c.pastCnt bin.start) := by
        rw [foundAge, if_neg hfirst.not_ge, if_neg hpast.not_ge]
      exact binRows_full h hs.2 he.2 hfound (hspan.foundAge_stop h he hle hfirst) (by omega)
    · refine binRows_none h hs.2 he.2 (.inl ?_)
      rw [foundAge, if_neg hfirst.not_ge, if_pos (not_lt.1 hpast)]
  · refine binRows_none h hs.2 he.2 (.inl ?_)
    rw [foundAge, if_pos (not_lt.1 hfirst)]

/-- The rows of the bin in turn, after one older row where the first second is before the epoch. -/
lemma binRows_of_reaches (hn : 0 < n) (hs : c.InWindow bin.start) (he : c.InWindow bin.stop) (hle : bin.start ≤ bin.stop)
    (hr : c.Reaches bin.start bin.stop) :
    ∃ older, (∀ row ∈ older, c.rowEnd row = bin.start - 1) ∧
      c.binRows bin.start bin.stop =
        older ++ c.rowsFrom bin.start n := by
  obtain ⟨hfirst, hpast, hpart⟩ := hr
  have hb := age_nonneg h he.2
  have hage := hspan.age_start h
  have hfound : c.foundAge bin.start = some (c.pastCnt bin.start) := by
    rw [foundAge, if_neg hfirst.not_ge, if_neg hpast.not_ge]
  have hstop := hspan.foundAge_stop h he hle hfirst
  have hrows : c.rowsFrom bin.start n =
      (List.range n).map fun i : ℕ => c.rowOfAge (c.age bin.stop + n - 1 - i) :=
    List.map_congr_left fun i _ => by rw [hspan.age_add h]
  have hcnt := pastCnt_eq h bin.start
  rw [binRows_ages h hs.2 he.2 hfound hstop (by split_ifs at hcnt <;> omega) hpart, hrows]
  split_ifs at hcnt with hright
  · refine ⟨[], nofun, ?_⟩
    have hcount : (c.pastCnt bin.start - c.age bin.stop + 1).toNat = n := by omega
    rw [hcount, hcnt, add_zero, hage]
    rfl
  · refine ⟨[c.rowOfAge (c.age bin.stop + n)], fun row hrow => ?_, ?_⟩
    · rw [List.mem_singleton.1 hrow, rowEnd_rowOfAge h (by omega) (by omega), hspan.start, hspan.size]
      have := hspan.stop_eq
      linarith
    · have hcount : (c.pastCnt bin.start - c.age bin.stop + 1).toNat = n + 1 := by omega
      rw [hcount, hcnt, hage, List.range_succ_eq_map, List.map_cons, List.map_map]
      have hnewest : c.age bin.stop + n - 1 + 1 - (0 : ℕ) = c.age bin.stop + n := by rw [Nat.cast_zero]; ring
      rw [hnewest]
      refine congrArg _ (List.map_congr_left fun i _ => ?_)
      show c.rowOfAge _ = _
      congr 1
      push_cast
      ring

end Spans

/-! ### The run over a bin -/

/-- The variables of `prefill_bin` before the first row. -/
def TargetBin.empty (bin : TargetBin) : PrefillBin := ⟨[⟨false, bin.start, bin.stop⟩], 0, .nan⟩

lemma counted_empty (bin : TargetBin) (n : ℕ) (s : ℤ) : Counted n s [] bin.empty :=
  ⟨by rw [known, List.filter_nil, List.length_nil, Nat.cast_zero, zero_mul]; rfl, rfl⟩

/-- A row that ends before the bin. -/
lemma prefillRow_before (h : c.Sized) (hle : bin.start ≤ bin.stop) (hend : c.rowEnd row = bin.start - 1) :
    prefillRow junk bin c row bin.empty = .ok bin.empty := by
  by_cases hv : c.value row = .nan
  · exact prefillRow_nan hv
  · have hpos := h.slot_pos
    have hfirst : (⟨false, bin.start, bin.stop⟩ : Coverage).start = bin.start := rfl
    have hlast : ∀ d ∈ [(⟨false, bin.start, bin.stop⟩ : Coverage)].getLast?, d.stop = bin.stop := fun d hd => by
      cases hd
      rfl
    have hadd : addCoverage junk bin.empty.coverage (c.rowEnd row - c.slot + 1) (c.rowEnd row) =
        .ok (bin.empty.coverage, 0) :=
      (addCoverage_eq hfirst hlast hle (by omega)).trans (if_pos (by omega))
    rw [prefillRow_known h hv hadd, if_neg (lt_irrefl 0)]

section Spans
variable (h : c.Sized) (hspan : Spans bin n c) (hs : c.InWindow bin.start) (he : c.InWindow bin.stop)
include h hspan hs he

lemma Spans.rowEnd {i : ℕ} (hi : (c.rowsFrom bin.start n)[i]? = some row) :
    c.rowEnd row = bin.start + (i + 1) * c.slot - 1 := by
  rw [rowsFrom, List.getElem?_map, Option.map_eq_some_iff] at hi
  obtain ⟨j, hj, rfl⟩ := hi
  obtain ⟨hlt, rfl⟩ := List.getElem?_eq_some_iff.1 hj
  rw [List.length_range] at hlt
  have hb := age_nonneg h he.2
  have hage := age_lt h hs
  have hstop := hspan.stop_eq
  rw [hspan.age_start h] at hage
  rw [List.getElem_range, hspan.age_add h, rowEnd_rowOfAge h (by omega) (by omega), hspan.start, hspan.size]
  linarith

variable (hcf : bin.cf = .average) (hn : 0 < n) (hfit : n * c.slot < 2 ^ 31)
include hcf hn hfit

/-- Rows of two seconds or more are all counted. -/
lemma Spans.run_blocks (junk : Coverage) (hslot : 2 ≤ c.slot) :
    ∃ st, overRows junk bin c (c.rowsFrom bin.start n) bin.empty = .ok st ∧
      Counted n c.slot (c.points bin.start n) st := by
  have hle := hspan.start_le h hn
  have hadds : Adds junk bin.start c.slot n (Blocks bin.start bin.stop c.slot) := by
    refine ⟨fun front a hcov => hcov.nan, fun front a y hlt hy hcov => hcov.add hslot h.slot_lt ?_ hy⟩
    have hmul : ((front.length : ℤ) + 1) * c.slot ≤ n * c.slot :=
      mul_le_mul_of_nonneg_right (by omega) h.slot_pos.le
    have := hspan.start
    have := hspan.size
    omega
  have hblocks : Blocks bin.start bin.stop c.slot [] bin.empty.coverage := by
    refine ⟨⟨⟨rfl, hle, rfl⟩, List.isChain_singleton _⟩, fun t => ⟨fun ht => absurd ht (Finset.notMem_empty t), ?_⟩⟩
    rintro ⟨i, y, hi, -⟩
    cases hi
  rw [← rowsFrom_map_value, ← List.nil_append (List.map _ _)]
  refine overRows_counted h hn hcf hspan.size hfit hadds (counted_empty bin n c.slot) hblocks ?_ fun i row hi => ?_
  · rw [List.length_nil, zero_add, rowsFrom, List.length_map, List.length_range]
  · rw [hspan.rowEnd h hs he hi, List.length_nil, Nat.cast_zero, zero_add]

/-- Rows of one second are all counted when the first is unknown. -/
lemma Spans.run_unknown_first (junk : Coverage) (hslot : c.slot = 1) (hfirst : (c.points bin.start n).head? = some .nan) :
    ∃ st, overRows junk bin c (c.rowsFrom bin.start n) bin.empty = .ok st ∧
      Counted n c.slot (c.points bin.start n) st := by
  have hle := hspan.start_le h hn
  have hsize := hspan.size
  have hstart := hspan.start
  rw [hslot, mul_one] at hsize
  have hlen : (c.rowsFrom bin.start n).length = n := by rw [rowsFrom, List.length_map, List.length_range]
  have hend : ∀ i row : ℕ, (c.rowsFrom bin.start n)[i]? = some row → c.rowEnd row = bin.start + (i + 1) * c.slot - 1 :=
    fun i row hi => hspan.rowEnd h hs he hi
  rw [← rowsFrom_map_value] at hfirst ⊢
  generalize c.rowsFrom bin.start n = rows at hfirst hlen hend ⊢
  cases rows with
  | nil => cases hfirst
  | cons row rows =>
    have hv : c.value row = .nan := Option.some.inj hfirst
    let Cov : List RrdValue → List Coverage → Prop := fun front a => 0 < front.length ∧
      ∃ d rest, a = d :: rest ∧ FirstOpen bin.start bin.stop (bin.start + front.length) d rest
    have hgrow : ∀ (front : List RrdValue) (y : RrdValue),
        bin.start + ((front ++ [y]).length : ℤ) = bin.start + front.length + 1 := fun front y => by
      rw [List.length_append, List.length_singleton]
      push_cast
      ring
    have hadds : Adds junk bin.start c.slot n Cov := by
      constructor
      · rintro front a ⟨hfront, d, rest, rfl, hopen⟩
        exact ⟨by rw [List.length_append]; omega, d, rest, rfl, by rw [hgrow]; exact hopen.next⟩
      · rintro front a y hlt hy ⟨hfront, d, rest, rfl, hopen⟩
        obtain ⟨d', rest', hadd, hopen'⟩ := hopen.add junk (by omega) (by omega)
        refine ⟨d' :: rest', ?_, by rw [List.length_append]; omega, d', rest', rfl, by rw [hgrow]; exact hopen'⟩
        have hsecond : bin.start + ((front.length : ℤ) + 1) * c.slot - 1 = bin.start + front.length * c.slot := by
          rw [hslot]
          ring
        rw [hsecond, hslot, mul_one, hadd]
    rw [List.length_cons] at hlen
    have hskip : overRows junk bin c ([row] ++ rows) bin.empty = overRows junk bin c rows bin.empty :=
      overRows_skip fun row' hrow' => by
        rw [List.mem_singleton.1 hrow']
        exact prefillRow_nan hv
    have hcov : Cov ([] ++ [.nan]) bin.empty.coverage :=
      ⟨Nat.one_pos, ⟨false, bin.start, bin.stop⟩, [], rfl, rfl, rfl, hle, List.isChain_singleton _,
        fun d hd => by cases hd; rfl, .inl rfl⟩
    rw [List.singleton_append] at hskip
    rw [hskip, List.map_cons, hv]
    refine overRows_counted h hn hcf hspan.size hfit hadds (counted_empty bin n c.slot).nan hcov ?_ fun i row' hi => ?_
    · rw [List.nil_append, List.length_singleton]
      omega
    · rw [hend (i + 1) row' hi, List.nil_append, List.length_singleton]
      push_cast
      ring

/-- Of rows of one second only the first is counted when it is known. -/
lemma Spans.run_known_first (junk : Coverage) (hslot : c.slot = 1) {y : RrdValue} (hfirst : (c.points bin.start n).head? = some y)
    (hy : y ≠ .nan) :
    ∃ st, overRows junk bin c (c.rowsFrom bin.start n) bin.empty = .ok st ∧ Counted n c.slot [y] st := by
  have hle := hspan.start_le h hn
  have hsize := hspan.size
  have hstart := hspan.start
  rw [hslot, mul_one] at hsize
  have hlen : (c.rowsFrom bin.start n).length = n := by rw [rowsFrom, List.length_map, List.length_range]
  have hend : ∀ i row : ℕ, (c.rowsFrom bin.start n)[i]? = some row → c.rowEnd row = bin.start + (i + 1) * c.slot - 1 :=
    fun i row hi => hspan.rowEnd h hs he hi
  rw [← rowsFrom_map_value] at hfirst
  generalize c.rowsFrom bin.start n = rows at hfirst hlen hend ⊢
  cases rows with
  | nil => cases hfirst
  | cons row rows =>
    obtain rfl : c.value row = y := Option.some.inj hfirst
    obtain ⟨d, rest, hadd, hpart, hcover⟩ := addCoverage_one junk (le_refl bin.start) hle
    -- the interval of the first second is covered
    have hflag : d.covered = true := by
      by_contra hd
      refine hpart.tiles.notMem_cover List.mem_cons_self (Bool.eq_false_of_not_eq_true hd) (t := bin.start)
        hpart.tiles.1.le hpart.tiles.2.1 ?_
      rw [hcover]
      exact Finset.mem_singleton_self _
    have hrow : c.rowEnd row = bin.start := by
      rw [hend 0 row rfl, hslot]
      ring
    have hadd' : addCoverage junk bin.empty.coverage (c.rowEnd row - c.slot + 1) (c.rowEnd row) = .ok (d :: rest, 1) := by
      rw [hslot, hrow, sub_add_cancel]
      exact hadd
    have hcounted := (counted_empty bin n c.slot).add (a := d :: rest) hy hn h.slot_pos
    have hopen : bin.empty.totalCovered < bin.size := by
      show 0 < bin.size
      omega
    rw [List.nil_append, hslot] at hcounted
    rw [hslot] at hfit
    -- the others change nothing
    have hskip (v : RrdValue) : overRows junk bin c (rows ++ []) ⟨d :: rest, bin.empty.totalCovered + 1, v⟩ =
        .ok ⟨d :: rest, bin.empty.totalCovered + 1, v⟩ :=
      overRows_skip fun row' hrow' => by
        obtain ⟨i, hi, rfl⟩ := List.mem_iff_getElem.1 hrow'
        have hend' := hend (i + 1) rows[i] (List.getElem?_eq_getElem hi)
        rw [hslot, mul_one] at hend'
        push_cast at hend'
        by_cases hv : c.value rows[i] = .nan
        · exact prefillRow_nan hv
        · rw [List.length_cons] at hlen
          rw [prefillRow_known h hv (a := d :: rest) (m := 0), if_neg (lt_irrefl 0)]
          rw [hslot, sub_add_cancel]
          exact addCoverage_first_covered hpart hflag (by omega) (by omega)
    rw [List.append_nil] at hskip
    rw [hslot]
    refine ⟨_, ?_, hcounted⟩
    rw [overRows, if_pos hopen, prefillRow_known h hy hadd', if_pos Int.one_pos, hcf, hspan.size, hslot,
      s32_of_lt (mul_nonneg n.cast_nonneg Int.one_nonneg) hfit]
    exact hskip _

end Spans

/-! ### The row that is stored -/

/-- The rows of one candidate, and the threshold. -/
lemma prefillBin_single (hpos : 0 < bin.size) (hlt : bin.size < 2 ^ 31) (hxff : bin.xff = .fin x) (hx0 : 0 ≤ x)
    (hx : x < 1) (hrun : prefillCandidate junk bin c bin.empty = .ok st) :
    prefillBin junk bin [c] = .ok (if ⌊x * bin.size⌋ < st.totalCovered then
      some (prefillFinish bin.cf st.value (s32 bin.size) (s32 st.totalCovered)) else none) := by
  have hq : (0 : ℚ) < bin.size := by exact_mod_cast hpos
  have hfit : (bin.size : ℚ) < 2 ^ 63 := by exact_mod_cast hlt.trans (by norm_num)
  have hmin : truncLong (bin.xff * .fin bin.size) = some ⌊x * bin.size⌋ := by
    rw [hxff, ExtNum.fin_mul_fin]
    exact truncLong_of_nonneg (mul_nonneg hx0 hq.le) (lt_trans (by nlinarith) hfit)
  have hcands : prefillCandidates junk bin [c] bin.empty = .ok st := by
    rw [prefillCandidates, if_pos (show bin.empty.totalCovered < bin.size from hpos), hrun]
    rfl
  rw [prefillBin, hmin]
  show (prefillCandidates junk bin [c] bin.empty >>= _) = _
  rw [hcands]
  rfl

/-- The points that are counted: for rows of one second, only the first when it is known. -/
@[grind] def countedPoints (s : ℤ) (g : List RrdValue) : List RrdValue := if s = 1 ∧ g.headD .nan ≠ .nan then g.take 1 else g

section Spans
variable (h : c.Sized) (hspan : Spans bin n c) (hs : c.InWindow bin.start) (he : c.InWindow bin.stop)
variable (hn : 0 < n) (hfit : n * c.slot < 2 ^ 31) (hxff : bin.xff = .fin x) (hx0 : 0 ≤ x) (hx : x < 1)
variable (hcf : bin.cf = .average)
include h hspan hs he hn hfit

include hcf in
lemma Spans.run (junk : Coverage) : ∃ st, overRows junk bin c (c.rowsFrom bin.start n) bin.empty = .ok st ∧
    Counted n c.slot (countedPoints c.slot (c.points bin.start n)) st := by
  have hpos := h.slot_pos
  rcases eq_or_ne c.slot 1 with hslot | hslot
  · have hlen : (c.points bin.start n).length = n := by rw [points, List.length_map, List.length_range]
    have hrun := fun y => hspan.run_known_first h hs he hcf hn hfit junk hslot (y := y)
    have hrun' := hspan.run_unknown_first h hs he hcf hn hfit junk hslot
    rw [countedPoints, hslot]
    rw [hslot] at hrun hrun'
    cases hg : c.points bin.start n with
    | nil =>
      rw [hg, List.length_nil] at hlen
      omega
    | cons y g =>
      rw [hg] at hrun hrun'
      by_cases hy : y = .nan
      · rw [if_neg fun hk => hk.2 hy]
        exact hrun' (by rw [hy]; rfl)
      · rw [if_pos ⟨rfl, hy⟩]
        exact hrun y rfl hy
  · rw [countedPoints, if_neg fun hk => hslot hk.1]
    exact hspan.run_blocks h hs he hcf hn hfit junk (by omega)

include hxff hx0 hx

lemma prefillBin_of_not_reaches (hr : ¬c.Reaches bin.start bin.stop) : prefillBin junk bin [c] = .ok none := by
  have hpos : 0 < n * c.slot := mul_pos (by exact_mod_cast hn) h.slot_pos
  have hq : (0 : ℚ) ≤ x * bin.size := by
    rw [hspan.size]
    exact mul_nonneg hx0 (by exact_mod_cast hpos.le)
  have hcand : prefillCandidate junk bin c bin.empty = .ok bin.empty := by
    rw [prefillCandidate_eq, binRows_of_not_reaches h hspan hs he (hspan.start_le h hn) hr]
    rfl
  rw [prefillBin_single (hpos.trans_eq hspan.size.symm) (hspan.size.trans_lt hfit) hxff hx0 hx hcand, if_neg]
  exact (Int.floor_nonneg.2 hq).not_gt

include hcf in
lemma prefillBin_of_reaches (junk : Coverage) (hr : c.Reaches bin.start bin.stop) :
    ∃ o, prefillBin junk bin [c] = .ok o ∧
      o.getD .nan = coveredRow n x (countedPoints c.slot (c.points bin.start n)) := by
  have hpos : 0 < n * c.slot := mul_pos (by exact_mod_cast hn) h.slot_pos
  have hle := hspan.start_le h hn
  obtain ⟨older, holder, hrows⟩ := binRows_of_reaches h hspan hn hs he hle hr
  obtain ⟨st, hrun, hst⟩ := hspan.run h hs he hn hfit hcf junk
  have hcand : prefillCandidate junk bin c bin.empty = .ok st := by
    rw [prefillCandidate_eq, hrows, overRows_skip fun row hrow => prefillRow_before h hle (holder row hrow), hrun]
  have hlen : (countedPoints c.slot (c.points bin.start n)).length ≤ n := by
    have hlen : (c.points bin.start n).length = n := by rw [points, List.length_map, List.length_range]
    rw [countedPoints]
    split_ifs
    · rw [List.length_take]
      omega
    · exact hlen.le
  refine ⟨_, prefillBin_single (hpos.trans_eq hspan.size.symm) (hspan.size.trans_lt hfit) hxff hx0 hx hcand, ?_⟩
  rw [hcf, hspan.size, s32_of_lt hpos.le hfit]
  exact hst.finish hn h.slot_pos hx0 hlen hfit

end Spans

/-- When `prefill_bin` and `update_cdp` come to the same row for the points `g` of the bin. -/
@[grind] def XffAgrees (c : SourceCandidate) (start stop : ℤ) (n : ℕ) (x : ℚ) (g : List RrdValue) : Prop :=
  if c.Reaches start stop then
    if c.slot = 1 ∧ 1 < n ∧ g.headD .nan ≠ .nan then
      if (n : ℚ) * x < 1 then unknown g = 0 ∧ knownSum g / .fin n = g.headD .nan else Lost n x g
    else if knownSum g = .nan then (n : ℚ) * x < unknown g ∨ g.getLastD .nan ≠ .nan
    else ((n : ℚ) * x < (known g).length ↔ (unknown g : ℚ) ≤ n * x)
  else Lost n x g

/-- The first of the points alone against all of them. -/
lemma coveredRow_first_iff (hn : 1 < n) (hx0 : 0 ≤ x) (hx : x < 1) (hlen : g.length = n) (hy : g.headD .nan ≠ .nan) :
    coveredRow n x (g.take 1) = updateRow n x g ↔
      if (n : ℚ) * x < 1 then unknown g = 0 ∧ knownSum g / .fin n = g.headD .nan else Lost n x g := by
  cases g with
  | nil => exact absurd rfl hy
  | cons y g =>
    replace hy : y ≠ .nan := hy
    have hfirst : coveredRow n x ((y :: g).take 1) = if (n : ℚ) * x < 1 then y else .nan := by
      have hknown : known [y] = [y] := by rw [← List.replicate_one, known_replicate_of_ne hy]
      have hsum : knownSum [y] = y := by
        show addKnown .nan y = y
        rw [addKnown_of_ne _ hy, ifDnan_nan]
        exact zero_add y
      have hmean : y / .fin ((1 : ℕ) : ℚ) = y :=
        (mul_one_count _).symm.trans (ExtNum.div_mul_cancel_fin y (by norm_num))
      show coveredRow n x [y] = _
      rw [coveredRow, hknown, hsum, List.length_singleton, hmean, Nat.cast_one]
    -- without unknown points `update_cdp` stores the mean of all of them
    have hall (h0 : unknown (y :: g) = 0) : updateRow n x (y :: g) = knownSum (y :: g) / .fin n := by
      have hlast : ¬((y :: g).getLastD .nan).isnan = true := by
        rw [List.getLastD_eq_getLast?, List.getLast?_eq_some_getLast (List.cons_ne_nil y g), Option.getD_some]
        exact List.countP_eq_zero.1 h0 _ (List.getLast_mem _)
      rw [updateRow, h0, Nat.sub_zero, if_neg (not_lt.2 (by rw [Nat.cast_zero]; exact mul_nonneg n.cast_nonneg hx0)),
        if_neg hlast]
    rw [hfirst]
    split_ifs with hless
    · constructor
      · intro heq
        have hfew : ¬(n : ℚ) * x < unknown (y :: g) := fun hmany =>
          hy (heq.trans ((updateRow_eq_nan_iff (by omega) hx hlen).2 (.inl hmany)))
        have hnone : (unknown (y :: g) : ℚ) < 1 := (not_lt.1 hfew).trans_lt hless
        have h0 : unknown (y :: g) = 0 := Nat.lt_one_iff.1 (by exact_mod_cast hnone)
        exact ⟨h0, (hall h0).symm.trans heq.symm⟩
      · rintro ⟨h0, hmean⟩
        exact hmean.symm.trans (hall h0).symm
    · rw [eq_comm, updateRow_eq_nan_iff (by omega) hx hlen]

/-- The points that are counted against all of them. -/
lemma coveredRow_counted_iff (hn : 0 < n) (hx0 : 0 ≤ x) (hx : x < 1) (hlen : g.length = n) (s : ℤ) :
    coveredRow n x (countedPoints s g) = updateRow n x g ↔
      if s = 1 ∧ 1 < n ∧ g.headD .nan ≠ .nan then
        if (n : ℚ) * x < 1 then unknown g = 0 ∧ knownSum g / .fin n = g.headD .nan else Lost n x g
      else if knownSum g = .nan then (n : ℚ) * x < unknown g ∨ g.getLastD .nan ≠ .nan
      else ((n : ℚ) * x < (known g).length ↔ (unknown g : ℚ) ≤ n * x) := by
  by_cases hfirst : s = 1 ∧ 1 < n ∧ g.headD .nan ≠ .nan
  · rw [if_pos hfirst, countedPoints, if_pos ⟨hfirst.1, hfirst.2.2⟩, coveredRow_first_iff hfirst.2.1 hx0 hx hlen hfirst.2.2]
  · have hall : countedPoints s g = g := by
      rw [countedPoints]
      split_ifs with hone
      · have : n = 1 := by
          by_contra hne
          exact hfirst ⟨hone.1, by omega, hone.2⟩
        rw [List.take_of_length_le (by omega)]
      · rfl
    rw [if_neg hfirst, hall, coveredRow_eq_iff hn hx0 hx hlen]

lemma targetBin_spans {rrd : MemRrd} {rra : MemRra} (cnt : ℕ) (h : c.Sized) (hn : 0 < rra.rraDef.pdpCnt)
    (hfit : rra.rraDef.pdpCnt * c.slot < 2 ^ 31) (hslot : c.slot = rrd.pdpStep) :
    Spans (targetBin rrd rra cnt) rra.rraDef.pdpCnt c := by
  have hpos : 0 < rra.rraDef.pdpCnt * c.slot := mul_pos (by exact_mod_cast hn) h.slot_pos
  have hsize : (targetBin rrd rra cnt).size = rra.rraDef.pdpCnt * c.slot := by
    show s64 _ = _
    rw [← hslot, s64_of_lt hpos.le (hfit.trans (by norm_num))]
  have htime : timeslot rrd rra.rraDef = rra.rraDef.pdpCnt * c.slot := by
    rw [timeslot, ← hslot, s32_of_lt hpos.le hfit]
  refine ⟨hsize, rfl, ?_⟩
  -- the end of a row is a multiple of its length
  show c.slot ∣ endTimeForRow rrd rra.rraDef rra.curRow cnt
  rw [endTimeForRow, htime]
  have hdvd : c.slot ∣ rra.rraDef.pdpCnt * c.slot := Int.dvd_mul_left _ _
  exact dvd_sub (hdvd.trans Int.dvd_self_sub_tmod) (hdvd.mul_left _)

lemma sumTracks_of_tracks {cdp : CdpPrep} (h : Tracks .average n [] cdp) : SumTracks [] cdp :=
  ⟨h.unkn, h.val.1 fun hboth => by cases hboth.1⟩

/-- A database with one `GAUGE` and one archive of single points, of which the last two are given. -/
def lastTwo (older newer : RrdValue) : MemRrd where
  version := 3
  pdpStep := 300
  lastUp := 3000
  lastUpUsec := 0
  ds := [⟨gaugeDs ['a'] 600, ⟨['5'], 0, .fin 0⟩⟩]
  rra := [⟨plainRra .average 5 1 (1 / 2), [CdpPrep.zero], 0⟩]
  rrdValue := fun i => if i = 0 then newer else older

/-- Its archive and its data source. -/
def lastTwoSource (older newer : RrdValue) : SourceCandidate :=
  ⟨0, lastTwo older newer, ⟨0, Nat.one_pos⟩, ⟨0, Nat.one_pos⟩⟩

lemma lastTwoSource_sized (older newer : RrdValue) : (lastTwoSource older newer).Sized where
  slot_pos := show (0 : ℤ) < (1 : ℕ) * (300 : ℕ) by norm_num
  slot_lt := show ((1 : ℕ) : ℤ) * (300 : ℕ) < 2 ^ 31 by norm_num
  rowCnt_pos := show (0 : ℤ) < (5 : ℕ) by norm_num
  rowCnt_lt := show ((5 : ℕ) : ℤ) < 2 ^ 31 by norm_num
  curRow_lt := show 0 < 5 by norm_num

/-- An archive of two points a row. -/
def pairRra : MemRra := ⟨plainRra .average 5 2 (1 / 2), [CdpPrep.zero], 0⟩

/-- An empty group. -/
def emptyGroup : CdpPrep := { CdpPrep.zero with val := .nan }

lemma emptyGroup_tracks : Tracks .average 2 [] emptyGroup := ⟨Nat.two_pos, nofun, rfl, valTracks_nan _⟩

end Rrdtool
