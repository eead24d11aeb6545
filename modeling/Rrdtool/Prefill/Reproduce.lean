import Rrdtool.Prefill.Candidates
import Rrdtool.Prefill.Coverage
import Rrdtool.Prefill.Rows

/-!
# Filling a database from its own copy

A database with the data sources, the archives and the times of its source is filled with the known values of the source
(`prefillBin_reproduces`): the archive itself is the first candidate, the bin is one of its rows, and the mean over a
whole bin is the value. This needs that the row is visited (`binRows_visits_iff`), which fails for an archive of one row.
-/

namespace Rrdtool
open Tiling SourceCandidate

/-! ### A bin that is one row of the candidate -/

/-- A bin that nothing covers yet is covered at once. -/
lemma addCoverage_whole (junk : Coverage) {lo hi : ℤ} (hle : lo ≤ hi) (hlt : hi - lo + 1 < 2 ^ 31) :
    ∃ a, addCoverage junk [⟨false, lo, hi⟩] lo hi = .ok (a, hi - lo + 1) := by
  have hpart : Partition lo hi [⟨false, lo, hi⟩] := ⟨⟨rfl, hle, rfl⟩, List.isChain_singleton _⟩
  have hempty : cover [(⟨false, lo, hi⟩ : Tile)] = ∅ := rfl
  have hexact : Exact lo hi [⟨false, lo, hi⟩] lo hi (addCoverage junk [⟨false, lo, hi⟩] lo hi) := by
    rcases eq_or_lt_of_le hle with heq | hless
    · refine (exact_iff_of_eq hpart hle hle ?_).2 (.inl ?_)
      · rw [max_self, min_self, heq]
      · rw [max_self]
        exact hle
    · refine (exact_iff_of_lt hpart hle hle ?_).2 ⟨?_, ?_⟩
      · rwa [max_self, min_self]
      · rw [max_self, min_self, hempty, Finset.sdiff_empty, Int.card_Icc]
        omega
      · intro d hd hearly
        obtain rfl := List.mem_singleton.1 hd
        exact hless.ne hearly.2.1
  obtain ⟨a, n, heq, -, hcover, hn⟩ := hexact
  rw [hcover, hempty, Finset.empty_union, Finset.sdiff_empty, Finset.inter_self, Int.card_Icc,
    Int.toNat_of_nonneg (by omega)] at hn
  refine ⟨a, ?_⟩
  rw [heq, hn]
  congr 2
  ring

/-- The mean of one value over the whole bin is the value; so are the others. -/
lemma prefillFinish_whole {cf : Cf} (hcf : cf.isPlain) (v : RrdValue) {size : ℤ} (hpos : 0 < size) :
    prefillFinish cf (prefillConsolidate cf .nan v size size) size size = v := by
  have hq : (0 : ℚ) < size := by exact_mod_cast hpos
  have hzero : ∀ w : RrdValue, .fin 0 + w = w := zero_add
  cases cf with
  | average =>
    show (if size = 0 then .nan else (.fin 0 + v / .fin size * .fin size) / .fin size * .fin size) = v
    rw [if_neg hpos.ne', hzero, ExtNum.div_mul_cancel_fin _ hq, ExtNum.div_mul_cancel_fin _ hq]
  | minimum => exact if_neg hpos.ne'
  | maximum => exact if_neg hpos.ne'
  | last => exact if_neg hpos.ne'
  | _ => cases hcf

variable {junk : Coverage} {bin : TargetBin} {c : SourceCandidate} {row : ℕ}

/-- The bin is one row of the candidate. -/
structure IsRow (bin : TargetBin) (c : SourceCandidate) (row : ℕ) : Prop where
  size : bin.size = c.slot
  stop : bin.stop = c.rowEnd row
  start : bin.start = bin.stop - bin.size + 1

lemma prefillRow_whole (junk : Coverage) (h : c.Sized) (hrow : IsRow bin c row) (hv : c.value row ≠ .nan) :
    ∃ a, prefillRow junk bin c row ⟨[⟨false, bin.start, bin.stop⟩], 0, .nan⟩ =
      .ok ⟨a, c.slot, prefillConsolidate bin.cf .nan (c.value row) c.slot c.slot⟩ := by
  have hpos := h.slot_pos
  have hlt := h.slot_lt
  have hstart : c.rowEnd row - c.slot + 1 = bin.start := by rw [hrow.start, hrow.size, hrow.stop]
  have hlen : bin.stop - bin.start + 1 = c.slot := by rw [hrow.start, hrow.size]; ring
  obtain ⟨a, ha⟩ := addCoverage_whole junk (show bin.start ≤ bin.stop by omega) (by omega)
  have hadd : addCoverage junk [⟨false, bin.start, bin.stop⟩] (c.rowEnd row - c.slot + 1) (c.rowEnd row) =
      .ok (a, c.slot) := by rw [hstart, ← hrow.stop, ha, hlen]
  refine ⟨a, ?_⟩
  rw [prefillRow_known h hv hadd, if_pos hpos, hrow.size, s32_of_lt hpos.le hlt, zero_add]

/-- Where its ends are found, the row is visited, unless it is the only one. -/
lemma binRows_isRow (h : c.Sized) (hrow : IsRow bin c row) (hlt : row < c.rra.rraDef.rowCnt) (hs : c.Finds bin.start)
    (he : c.Finds bin.stop) (hone : 1 < c.rowCnt) : c.binRows bin.start bin.stop = [row] := by
  obtain ⟨a, ha0, ha, rfl⟩ := exists_age h hlt
  have hpos := h.slot_pos
  have hstop := hrow.stop
  have hstart := hrow.start
  rw [rowEnd_rowOfAge h ha0 ha] at hstop
  rw [hrow.size] at hstart
  have hnonneg := mul_nonneg ha0 hpos.le
  have hold : (a + 1) * c.slot ≤ c.rowCnt * c.slot := mul_le_mul_of_nonneg_right (by omega) hpos.le
  rw [add_mul, one_mul] at hold
  have hages : c.age bin.start = a := age_eq h (by omega) (by omega)
  have hagee : c.age bin.stop = a := age_eq h (by omega) (by omega)
  have hfs := (foundAge_eq_iff h ⟨by omega, by omega⟩).2 hs
  have hfe := (foundAge_eq_iff h ⟨by omega, by omega⟩).2 he
  rw [hages] at hfs
  rw [hagee] at hfe
  rw [binRows_ages h (by omega) (by omega) hfs hfe le_rfl (by omega)]
  have hcount : (a - a + 1).toNat = 1 := by omega
  rw [hcount]
  show [c.rowOfAge (a - (0 : ℕ))] = _
  rw [Nat.cast_zero, sub_zero]

/-- A bin that is one row of the first candidate gets its value, when that is known. -/
lemma prefillBin_isRow (h : c.Sized) (hrow : IsRow bin c row) (hlt : row < c.rra.rraDef.rowCnt)
    (hs : c.Finds bin.start) (he : c.Finds bin.stop) (hone : 1 < c.rowCnt) (hv : c.value row ≠ .nan)
    (hcf : bin.cf.isPlain) {q : ℚ} (hxff : bin.xff = .fin q) (hq0 : 0 ≤ q) (hq : q < 1) (rest : List SourceCandidate) :
    prefillBin junk bin (c :: rest) = .ok (some (c.value row)) := by
  have hpos := h.slot_pos
  have hbound := h.slot_lt
  have hslot : (0 : ℚ) < c.slot := by exact_mod_cast hpos
  have hless : q * c.slot < c.slot := by nlinarith
  have hfit : (c.slot : ℚ) < 2 ^ 63 := by exact_mod_cast hbound.trans (by norm_num)
  have hmin : truncLong (bin.xff * .fin bin.size) = some ⌊q * c.slot⌋ := by
    rw [hxff, hrow.size, ExtNum.fin_mul_fin]
    exact truncLong_of_nonneg (mul_nonneg hq0 hslot.le) (hless.trans hfit)
  obtain ⟨a, hvisit⟩ := prefillRow_whole junk h hrow hv
  have hcand : prefillCandidate junk bin c ⟨[⟨false, bin.start, bin.stop⟩], 0, .nan⟩ =
      .ok ⟨a, c.slot, prefillConsolidate bin.cf .nan (c.value row) c.slot c.slot⟩ := by
    rw [prefillCandidate_eq, binRows_isRow h hrow hlt hs he hone, overRows, if_pos (by rw [hrow.size]; exact hpos), hvisit]
    rfl
  -- the bin is covered, so no other candidate is looked at
  have hdone : ∀ st : PrefillBin, st.totalCovered = c.slot → prefillCandidates junk bin rest st = .ok st := fun st hst => by
    cases rest with
    | nil => rfl
    | cons c' rest => rw [prefillCandidates, if_neg (by rw [hst, hrow.size]; exact lt_irrefl _)]; rfl
  rw [prefillBin, hmin, prefillCandidates, if_pos (by rw [hrow.size]; exact hpos), hcand]
  show (prefillCandidates junk bin rest _ >>= _) = _
  rw [hdone _ rfl]
  show Except.ok (if ⌊q * c.slot⌋ < c.slot then _ else _) = _
  rw [if_pos (Int.floor_lt.2 hless), hrow.size, s32_of_lt hpos.le hbound, prefillFinish_whole hcf _ hpos]

/-! ### A copy of the source -/

/-- A new database with the step, the time, the data sources and the archives of the source. -/
structure SameDatabase (rrd src : MemRrd) : Prop where
  pdpStep : rrd.pdpStep = src.pdpStep
  lastUp : rrd.lastUp = src.lastUp
  ds : rrd.ds.map (·.dsDef) = src.ds.map (·.dsDef)
  rra : rrd.rra.map (·.rraDef) = src.rra.map (·.rraDef)
  names : (src.ds.map (·.dsDef.dsNam)).Nodup

variable {rrd src : MemRrd} {rra : MemRra} {d : DataSource} {r : Fin src.rra.length} {l : Fin src.ds.length}

lemma SameDatabase.rraDef_eq (h : SameDatabase rrd src) (hr : rrd.rra[(r : ℕ)]? = some rra) :
    rra.rraDef = (src.rra.get r).rraDef := by
  have hmap := congrArg (fun defs => defs[(r : ℕ)]?) h.rra
  simp only [List.getElem?_map, hr, List.getElem?_eq_getElem r.isLt, Option.map_some] at hmap
  exact Option.some.inj hmap

lemma SameDatabase.dsDef_eq (h : SameDatabase rrd src) (hd : rrd.ds[(l : ℕ)]? = some d) :
    d.dsDef = (src.ds.get l).dsDef := by
  have hmap := congrArg (fun defs => defs[(l : ℕ)]?) h.ds
  simp only [List.getElem?_map, hd, List.getElem?_eq_getElem l.isLt, Option.map_some] at hmap
  exact Option.some.inj hmap

/-- The data source is found under its name. -/
lemma SameDatabase.findDsMatch_eq (h : SameDatabase rrd src) (hd : d.dsDef = (src.ds.get l).dsDef) :
    findDsMatch d.dsDef src none = some l := by
  rw [findDsMatch, List.findFinIdx?_eq_some_iff]
  constructor
  · rw [hd]
    exact decide_eq_true rfl
  · intro j hj hname
    have heq := of_decide_eq_true hname
    rw [hd] at heq
    have hinj := @List.Nodup.getElem_inj_iff _ _ h.names j (by rw [List.length_map]; omega) l
      (by rw [List.length_map]; exact l.isLt)
    rw [List.getElem_map, List.getElem_map] at hinj
    exact hj.ne (Fin.ext (hinj.1 heq.symm))

/-- The archive itself is the first candidate, when no other matches exactly. -/
lemma SameDatabase.candidates_eq (h : SameDatabase rrd src) (hr : rra.rraDef = (src.rra.get r).rraDef)
    (hd : d.dsDef = (src.ds.get l).dsDef)
    (honly : ∀ i, ExactMatch rrd rra.rraDef ⟨0, src, i, l⟩ → i = r) :
    ∃ rest, findMatchingCandidates rrd rra.rraDef d.dsDef [src] [] = ⟨0, src, r, l⟩ :: rest := by
  have hmem : (⟨0, src, r, l⟩ : SourceCandidate) ∈ findCreateCandidates src 0 rra.rraDef l := by
    refine List.mem_map.2 ⟨r, List.mem_filter.2 ⟨List.mem_finRange r, ?_⟩, rfl⟩
    rw [selectCreateCandidates, hr]
    exact decide_eq_true (.inr rfl)
  have hexact : ExactMatch rrd rra.rraDef ⟨0, src, r, l⟩ := by
    rw [ExactMatch, rowSpan, rowSpan, hr, h.pdpStep]
    exact ⟨rfl, rfl⟩
  obtain ⟨rest, heq⟩ := sourceCandidates_head hmem hexact fun y hy hmatch => by
    obtain ⟨i, -, rfl⟩ := List.mem_map.1 hy
    rw [honly i hmatch]
  refine ⟨rest, ?_⟩
  show sourceCandidates rrd rra.rraDef d.dsDef none 0 src ++ [] = _
  rw [List.append_nil, sourceCandidates, h.findDsMatch_eq hd]
  exact heq

/-- A known value of the source is what the row of the same time gets. -/
lemma prefillBin_reproduces (h : SameDatabase rrd src) (hr : rrd.rra[(r : ℕ)]? = some rra)
    (hd : rrd.ds[(l : ℕ)]? = some d) (hsized : Sized ⟨0, src, r, l⟩) (hcf : rra.rraDef.cf.isPlain)
    (hvalid : rra.rraDef.Valid) (honly : ∀ i, ExactMatch rrd rra.rraDef ⟨0, src, i, l⟩ → i = r)
    (hone : 1 < rra.rraDef.rowCnt) {cnt : ℕ} (hrow : row < rra.rraDef.rowCnt)
    (htime : (targetBin rrd rra cnt).stop = rowEnd ⟨0, src, r, l⟩ row)
    (hs : Finds ⟨0, src, r, l⟩ (targetBin rrd rra cnt).start)
    (he : Finds ⟨0, src, r, l⟩ (targetBin rrd rra cnt).stop) (hv : value ⟨0, src, r, l⟩ row ≠ .nan) :
    prefillBin junk (targetBin rrd rra cnt) (findMatchingCandidates rrd rra.rraDef d.dsDef [src] []) =
      .ok (some (value ⟨0, src, r, l⟩ row)) := by
  have hdef := h.rraDef_eq hr
  obtain ⟨rest, hcand⟩ := h.candidates_eq hdef (h.dsDef_eq hd) honly
  obtain ⟨q, hxff, hq0, hq⟩ := hvalid.xff hcf
  have hsize : (targetBin rrd rra cnt).size = slot ⟨0, src, r, l⟩ := by
    rw [← s64_slot hsized]
    show s64 (rra.rraDef.pdpCnt * rrd.pdpStep) = s64 ((src.rra.get r).rraDef.pdpCnt * src.pdpStep)
    rw [hdef, h.pdpStep]
  have hcount : (rra.rraDef.rowCnt : ℤ) = rowCnt ⟨0, src, r, l⟩ := by rw [hdef]; rfl
  rw [hcand]
  refine prefillBin_isRow hsized ⟨hsize, htime, rfl⟩ ?_ hs he ?_ hv hcf hxff hq0 hq rest
  · rw [hdef] at hrow
    exact hrow
  · rw [← hcount]
    exact_mod_cast hone

/-- The inner loop goes over `binRows`. For a bin within the ring these are exactly the rows that meet the bin, each once
and in the order of time, if and only if the rows of both ends are found and some row of the ring does not meet the bin.
A copy of a source gets the known values of every row that is found so, in archives of more than one row of which no two
have the same function and resolution. -/
theorem prefill_visits_iff_and_reproduces (junk : Coverage) :
    (∀ (c : SourceCandidate) (bin : TargetBin), c.Sized → bin.start ≤ bin.stop → c.InWindow bin.start →
      c.InWindow bin.stop →
      (∀ st, prefillCandidate junk bin c st = overRows junk bin c (c.binRows bin.start bin.stop) st) ∧
      (VisitsBin c bin.start bin.stop (c.binRows bin.start bin.stop) ↔
        c.Finds bin.start ∧ c.Finds bin.stop ∧ ∃ row < c.rra.rraDef.rowCnt, ¬c.Intersects bin.start bin.stop row)) ∧
    ∀ (rrd src : MemRrd) (r : Fin src.rra.length) (l : Fin src.ds.length) (rra : MemRra)
      (d : DataSource) (cnt row : ℕ), SameDatabase rrd src → rrd.rra[(r : ℕ)]? = some rra → rrd.ds[(l : ℕ)]? = some d →
      Sized ⟨0, src, r, l⟩ → rra.rraDef.cf.isPlain → rra.rraDef.Valid →
      (∀ i, ExactMatch rrd rra.rraDef ⟨0, src, i, l⟩ → i = r) → 1 < rra.rraDef.rowCnt → row < rra.rraDef.rowCnt →
      (targetBin rrd rra cnt).stop = rowEnd ⟨0, src, r, l⟩ row → Finds ⟨0, src, r, l⟩ (targetBin rrd rra cnt).start →
      Finds ⟨0, src, r, l⟩ (targetBin rrd rra cnt).stop → value ⟨0, src, r, l⟩ row ≠ .nan →
      prefillBin junk (targetBin rrd rra cnt) (findMatchingCandidates rrd rra.rraDef d.dsDef [src] []) =
        .ok (some (value ⟨0, src, r, l⟩ row)) := by
  constructor
  · intro c bin h hle hs he
    exact ⟨fun st => prefillCandidate_eq c junk bin st, binRows_visits_iff h hle hs he⟩
  · intro rrd src r l rra d cnt row h hr hd hsized hcf hvalid honly hone hrow htime hs he hv
    exact prefillBin_reproduces h hr hd hsized hcf hvalid honly hone hrow htime hs he hv

/-- A database of one `GAUGE` and one archive that holds 5 in each of its rows. -/
def fullRrd (rows : ℕ) : MemRrd where
  version := 3
  pdpStep := 300
  lastUp := 3200
  lastUpUsec := 0
  ds := [⟨gaugeDs ['a'] 600, ⟨['5'], 0, .fin 0⟩⟩]
  rra := [⟨plainRra .average rows 1 (1 / 2), [CdpPrep.zero], 0⟩]
  rrdValue := fun _ => .fin 5

/-- Its archive and its data source. -/
def fullSource (rows : ℕ) : SourceCandidate := ⟨0, fullRrd rows, ⟨0, Nat.one_pos⟩, ⟨0, Nat.one_pos⟩⟩

lemma fullSource_sized {rows : ℕ} (hpos : 0 < rows) (hlt : rows < 2 ^ 31) : (fullSource rows).Sized where
  slot_pos := show (0 : ℤ) < (1 : ℕ) * (300 : ℕ) by norm_num
  slot_lt := show ((1 : ℕ) : ℤ) * (300 : ℕ) < 2 ^ 31 by norm_num
  rowCnt_pos := Int.ofNat_lt.2 hpos
  rowCnt_lt := show (rows : ℤ) < 2 ^ 31 by exact_mod_cast hlt
  curRow_lt := hpos

/-- The newest row of two, and its copy. -/
theorem prefill_visits_iff_and_reproduces_two :
    (VisitsBin (fullSource 2) 2701 3000 ((fullSource 2).binRows 2701 3000) ↔
      (fullSource 2).Finds 2701 ∧ (fullSource 2).Finds 3000 ∧ ∃ row < 2, ¬(fullSource 2).Intersects 2701 3000 row) ∧
    prefillBin default (targetBin (fullRrd 2) ⟨plainRra .average 2 1 (1 / 2), [CdpPrep.zero], 0⟩ 0)
      (findMatchingCandidates (fullRrd 2) (plainRra .average 2 1 (1 / 2)) (gaugeDs ['a'] 600) [fullRrd 2] []) =
      .ok (some (.fin 5)) := by
  have hsized := @fullSource_sized 2 (by norm_num) (by norm_num)
  have hwindow : (fullSource 2).InWindow 2701 ∧ (fullSource 2).InWindow 3000 := by
    constructor <;> constructor <;> decide +kernel
  constructor
  · exact ((prefill_visits_iff_and_reproduces default).1 (fullSource 2) ⟨.average, .fin (1 / 2), 300, 2701, 3000⟩ hsized
      (by decide) hwindow.1 hwindow.2).2
  · refine (prefill_visits_iff_and_reproduces default).2 (fullRrd 2) (fullRrd 2) ⟨0, Nat.one_pos⟩ ⟨0, Nat.one_pos⟩
      ⟨plainRra .average 2 1 (1 / 2), [CdpPrep.zero], 0⟩ ⟨gaugeDs ['a'] 600, ⟨['5'], 0, .fin 0⟩⟩ 0 0
      ⟨rfl, rfl, rfl, rfl, List.nodup_singleton _⟩ rfl rfl hsized rfl ?_ (fun i _ => ?_) (by decide) (by decide) ?_ ?_ ?_ ?_
    · exact ⟨by decide, by decide, by decide, fun _ => ⟨1 / 2, rfl, by norm_num, by norm_num⟩⟩
    · exact Fin.ext (Nat.lt_one_iff.1 i.isLt)
    · decide +kernel
    · constructor <;> decide +kernel
    · constructor <;> decide +kernel
    · intro h
      cases h

/-- In a ring of one row nothing is visited. -/
theorem prefill_skips_single_row :
    ¬∀ (c : SourceCandidate) (start stop : ℤ), c.Sized → start ≤ stop → c.InWindow start → c.InWindow stop →
      VisitsBin c start stop (c.binRows start stop) := by
  intro h
  have hvisits := h (fullSource 1) 2701 3000 (fullSource_sized (by norm_num) (by norm_num)) (by decide)
    (by constructor <;> decide +kernel) (by constructor <;> decide +kernel)
  have hnone : (fullSource 1).binRows 2701 3000 = [] := by decide +kernel
  rw [hnone] at hvisits
  exact List.not_mem_nil ((hvisits.2 0).2 ⟨by decide, by decide +kernel⟩)

end Rrdtool
