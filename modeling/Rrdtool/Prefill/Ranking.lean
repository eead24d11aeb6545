import Rrdtool.Prefill.Candidates
import Rrdtool.Prefill.Rows

/-!
# The order of the candidates

`order_candidates` (`src/rrd_create.c`) puts an exact match before everything, so that two of them come before each other.
Candidates with one function are told apart by a difference of their slot lengths, or of their row counts, that goes into
an `int`. `orderCandidates_ranks_iff` says for which candidates this is the order that is meant.
-/

namespace Rrdtool

open SourceCandidate

variable (rrd : MemRrd) (rra : RraDef)

/-- The function and the slot length of the candidate are those of the target. -/
def MatchesTarget (c : SourceCandidate) : Prop := c.rra.rraDef.cf = rra.cf ∧ c.slot = rra.pdpCnt * rrd.pdpStep

instance decidableMatchesTarget (c : SourceCandidate) : Decidable (MatchesTarget rrd rra c) := inferInstanceAs (Decidable (_ ∧ _))

/-- Where a candidate belongs: exact matches first, then averages, then by the slot length, the greater row count first. -/
@[grind] def place (c : SourceCandidate) : ℕ ×ₗ ℕ ×ₗ ℤ ×ₗ ℤ :=
  toLex (if MatchesTarget rrd rra c then 0 else 1, toLex (if c.rra.rraDef.cf = .average then 0 else 1, toLex (c.slot, -c.rowCnt)))

/-- The comparison is an order on the candidates, and sorting any of them with it puts each where it belongs. -/
structure Ranks (cs : List SourceCandidate) : Prop where
  antisymm : ∀ a b, [a, b].Subperm cs → (orderCandidates rrd rra a b).sign = -(orderCandidates rrd rra b a).sign
  trans : ∀ a b c, [a, b, c].Subperm cs → orderCandidates rrd rra a b ≤ 0 → orderCandidates rrd rra b c ≤ 0 →
    orderCandidates rrd rra a c ≤ 0
  sorted : ∀ ds, ds.Subperm cs →
    (quickSort (orderCandidates rrd rra) ds).Pairwise fun a b => place rrd rra a ≤ place rrd rra b

/-- What lets `a` come before `b`: it is the exact match, or of two that are none it is the average; with the same
function, the first of the differences of the slot lengths and of the row counts that is not 0 as an `int` is the right
way round. -/
@[grind] def Sooner (a b : SourceCandidate) : Prop :=
  ¬ ExactMatch rrd rra b ∧ (ExactMatch rrd rra a ∨
    if a.rra.rraDef.cf = b.rra.rraDef.cf then
      0 < s32 (b.slot - a.slot) ∨ s32 (b.slot - a.slot) = 0 ∧ 0 < s32 (a.rowCnt - b.rowCnt)
    else a.rra.rraDef.cf = .average)

instance decidableSooner (a b : SourceCandidate) : Decidable (Sooner rrd rra a b) := by
  unfold Sooner
  infer_instance

variable {rrd rra} {a b c : SourceCandidate} {cs ds : List SourceCandidate}

/-! ### Differences as `int`s -/

lemma s32_congr {z w : ℤ} (h : z % 2 ^ 32 = w % 2 ^ 32) : s32 z = s32 w := by
  have hz := s32_emod z
  have hw := s32_emod w
  have := s32_lt z
  have := s32_lt w
  have := le_s32 z
  have := le_s32 w
  omega

/-- The other way round, a difference has the other sign, unless there is no such `int`. -/
lemma s32_sub_swap (x y : ℤ) : s32 (y - x) = -s32 (x - y) ∨ s32 (x - y) = -2 ^ 31 ∧ s32 (y - x) = -2 ^ 31 := by
  have hz := s32_emod (x - y)
  have hw := s32_emod (y - x)
  have := s32_lt (x - y)
  have := s32_lt (y - x)
  have := le_s32 (x - y)
  have := le_s32 (y - x)
  omega

/-- The product that is compared is the slot length, up to what an `int` does not hold. -/
lemma rowSpan_modEq (a : SourceCandidate) : (rowSpan a.rrd a.rra.rraDef : ℤ) ≡ a.slot [ZMOD 2 ^ 32] := by
  have hu64 : (rowSpan a.rrd a.rra.rraDef : ℤ) ≡ a.rra.rraDef.pdpCnt * s32 a.rrd.pdpStep [ZMOD 2 ^ 32] := by
    rw [rowSpan, u64_eq_emod, Int.toNat_of_nonneg (Int.emod_nonneg _ (by norm_num))]
    exact Int.emod_emod_of_dvd _ (by norm_num)
  exact hu64.trans (Int.ModEq.mul_left _ (s32_emod _))

lemma s32_rowSpan_sub (a b : SourceCandidate) :
    s32 ((rowSpan a.rrd a.rra.rraDef : ℤ) - rowSpan b.rrd b.rra.rraDef) = s32 (a.slot - b.slot) :=
  s32_congr ((rowSpan_modEq a).sub (rowSpan_modEq b))

/-! ### Two candidates -/

/-- Two candidates that are no exact matches. -/
lemma orderCandidates_other (ha : ¬ ExactMatch rrd rra a) (hb : ¬ ExactMatch rrd rra b) :
    orderCandidates rrd rra a b =
      if a.rra.rraDef.cf = b.rra.rraDef.cf then
        if s32 (a.slot - b.slot) = 0 then -s32 (a.rowCnt - b.rowCnt) else s32 (a.slot - b.slot)
      else if a.rra.rraDef.cf = .average then -1 else if b.rra.rraDef.cf = .average then 1 else 0 := by
  rw [orderCandidates, if_neg ha, if_neg hb, ite_not, s32_rowSpan_sub]
  dsimp only
  rw [ite_not]
  rfl

/-- Of two admitted candidates with different functions one is an average. -/
lemma average_or (ha : selectCreateCandidates rra a.rra.rraDef) (hb : selectCreateCandidates rra b.rra.rraDef)
    (hcf : a.rra.rraDef.cf ≠ b.rra.rraDef.cf) : a.rra.rraDef.cf = .average ∨ b.rra.rraDef.cf = .average := by
  simp only [selectCreateCandidates, decide_eq_true_eq] at ha hb
  rcases ha with ha | ha
  · exact .inl ha
  · rcases hb with hb | hb
    · exact .inr hb
    · exact absurd (ha.trans hb.symm) hcf

lemma sooner_iff (ha : selectCreateCandidates rra a.rra.rraDef) (hb : selectCreateCandidates rra b.rra.rraDef) :
    Sooner rrd rra a b ↔ orderCandidates rrd rra a b < 0 ∧ 0 < orderCandidates rrd rra b a := by
  by_cases hexb : ExactMatch rrd rra b
  · have hneg : orderCandidates rrd rra b a = -1 := if_pos hexb
    refine iff_of_false (fun h => h.1 hexb) fun h => ?_
    omega
  · by_cases hexa : ExactMatch rrd rra a
    · exact iff_of_true ⟨hexb, .inl hexa⟩ (orderCandidates_exact hexa hexb)
    · rw [orderCandidates_other hexa hexb, orderCandidates_other hexb hexa]
      simp only [Sooner, hexa, hexb, not_false_eq_true, true_and, false_or]
      by_cases hcf : a.rra.rraDef.cf = b.rra.rraDef.cf
      · rw [if_pos hcf, if_pos hcf, if_pos hcf.symm]
        have hslot := s32_sub_swap a.slot b.slot
        have hrows := s32_sub_swap a.rowCnt b.rowCnt
        split_ifs <;> omega
      · have hcf' : ¬ b.rra.rraDef.cf = a.rra.rraDef.cf := fun h => hcf h.symm
        simp only [if_neg hcf, if_neg hcf']
        rcases average_or ha hb hcf with havg | havg
        · have hother : b.rra.rraDef.cf ≠ .average := fun h => hcf (havg.trans h.symm)
          simp [havg, hother]
        · have hother : a.rra.rraDef.cf ≠ .average := fun h => hcf (h.trans havg.symm)
          simp [havg, hother]

/-- Two candidates in one place that are no exact matches are equal. -/
lemma orderCandidates_same (ha : selectCreateCandidates rra a.rra.rraDef) (hb : selectCreateCandidates rra b.rra.rraDef)
    (hexa : ¬ ExactMatch rrd rra a) (hexb : ¬ ExactMatch rrd rra b) (h : place rrd rra a = place rrd rra b) :
    orderCandidates rrd rra a b = 0 := by
  obtain ⟨-, havg, hslot, hrows⟩ : _ ∧ _ ∧ _ ∧ _ := by simpa only [place, toLex_inj, Prod.mk.injEq] using h
  have hcf : a.rra.rraDef.cf = b.rra.rraDef.cf := by
    by_contra hcf
    rcases average_or ha hb hcf with hcf' | hcf'
    · rw [if_pos hcf', if_neg fun h => hcf (hcf'.trans h.symm)] at havg
      exact absurd havg (by decide)
    · rw [if_pos hcf', if_neg fun h => hcf (h.trans hcf'.symm)] at havg
      exact absurd havg (by decide)
  rw [orderCandidates_other hexa hexb, if_pos hcf, hslot, neg_inj.1 hrows, sub_self, sub_self]
  decide

/-! ### All candidates -/

/-- No two of the candidates are exact matches, and of two the one that belongs first comes first. -/
def ToldApart (rrd : MemRrd) (rra : RraDef) (cs : List SourceCandidate) : Prop :=
  ∀ a b, [a, b].Subperm cs → ¬ (ExactMatch rrd rra a ∧ ExactMatch rrd rra b) ∧
    (place rrd rra a < place rrd rra b → Sooner rrd rra a b)

lemma subperm_pair (ha : a ∈ cs) (hb : b ∈ cs) (hne : a ≠ b) : [a, b].Subperm cs := by
  apply List.subperm_of_subset
  · simpa using hne
  · intro x hx
    rcases List.mem_pair.1 hx with rfl | rfl
    · exact ha
    · exact hb

lemma quickSort_pair {α : Type} (cmp : α → α → ℤ) (x y : α) :
    quickSort cmp [x, y] = if cmp y x ≤ 0 then [y, x] else [x, y] := by
  by_cases h : cmp y x ≤ 0
  · simp [quickSort, sort, sortLoop, h, List.range_succ]
  · simp [quickSort, sort, sortLoop, h, List.range_succ]

section Selected

variable (hsel : ∀ c ∈ cs, selectCreateCandidates rra c.rra.rraDef)
include hsel

/-- What the comparison says of two candidates is so. -/
lemma ToldApart.answers (h : ToldApart rrd rra cs) (ha : a ∈ cs) (hb : b ∈ cs) :
    Answers (orderCandidates rrd rra) (fun a b => place rrd rra a ≤ place rrd rra b) a b := by
  rcases eq_or_ne a b with rfl | hne
  · exact ⟨fun _ => le_rfl, fun _ => le_rfl⟩
  · constructor
    · intro hle
      by_contra hgt
      have hsooner := (h b a (subperm_pair hb ha hne.symm)).2 (not_le.1 hgt)
      have := ((sooner_iff (hsel b hb) (hsel a ha)).1 hsooner).2
      omega
    · intro hge
      by_contra hgt
      have hsooner := (h a b (subperm_pair ha hb hne)).2 (not_le.1 hgt)
      have := ((sooner_iff (hsel a ha) (hsel b hb)).1 hsooner).1
      omega

lemma ToldApart.antisymm (h : ToldApart rrd rra cs) (hab : [a, b].Subperm cs) :
    (orderCandidates rrd rra a b).sign = -(orderCandidates rrd rra b a).sign := by
  have ha := hsel a (hab.subset (by simp))
  have hb := hsel b (hab.subset (by simp))
  have hba : [b, a].Subperm cs := (List.Perm.swap a b []).subperm.trans hab
  have hsigns : ∀ {x y}, selectCreateCandidates rra x.rra.rraDef → selectCreateCandidates rra y.rra.rraDef →
      Sooner rrd rra x y → (orderCandidates rrd rra x y).sign = -1 ∧ (orderCandidates rrd rra y x).sign = 1 := by
    intro x y hx hy hsooner
    obtain ⟨hneg, hpos⟩ := (sooner_iff hx hy).1 hsooner
    exact ⟨Int.sign_eq_neg_one_of_neg hneg, Int.sign_eq_one_of_pos hpos⟩
  rcases lt_trichotomy (place rrd rra a) (place rrd rra b) with hlt | heq | hgt
  · obtain ⟨hneg, hpos⟩ := hsigns ha hb ((h a b hab).2 hlt)
    rw [hneg, hpos]
  · by_cases hexa : ExactMatch rrd rra a
    · obtain ⟨hneg, hpos⟩ := hsigns ha hb ⟨fun hexb => (h a b hab).1 ⟨hexa, hexb⟩, .inl hexa⟩
      rw [hneg, hpos]
    · by_cases hexb : ExactMatch rrd rra b
      · obtain ⟨hneg, hpos⟩ := hsigns hb ha ⟨hexa, .inl hexb⟩
        rw [hneg, hpos, neg_neg]
      · rw [orderCandidates_same ha hb hexa hexb heq, orderCandidates_same hb ha hexb hexa heq.symm]
        rfl
  · obtain ⟨hneg, hpos⟩ := hsigns hb ha ((h b a hba).2 hgt)
    rw [hneg, hpos, neg_neg]

lemma ToldApart.trans (h : ToldApart rrd rra cs) (habc : [a, b, c].Subperm cs) (hab : orderCandidates rrd rra a b ≤ 0)
    (hbc : orderCandidates rrd rra b c ≤ 0) : orderCandidates rrd rra a c ≤ 0 := by
  have ha : a ∈ cs := habc.subset (by simp)
  have hb : b ∈ cs := habc.subset (by simp)
  have hc : c ∈ cs := habc.subset (by simp)
  by_contra hgt
  -- then all three belong to one place
  have hle := (h.answers hsel ha hb).1 hab
  have hle' := (h.answers hsel hb hc).1 hbc
  have hge := (h.answers hsel ha hc).2 (by omega)
  have hexa : ¬ ExactMatch rrd rra a := by
    intro hexa
    rw [orderCandidates, if_pos hexa] at hgt
    exact hgt (by decide)
  have hexc : ¬ ExactMatch rrd rra c := by
    intro hexc
    have hpair : [b, c].Subperm cs := (List.sublist_cons_self a [b, c]).subperm.trans habc
    have hexb : ¬ ExactMatch rrd rra b := fun hexb => (h b c hpair).1 ⟨hexb, hexc⟩
    rw [orderCandidates, if_neg hexb, if_pos hexc] at hbc
    exact absurd hbc (by decide)
  rw [orderCandidates_same (hsel a ha) (hsel c hc) hexa hexc (le_antisymm (hle.trans hle') hge)] at hgt
  exact hgt le_rfl

end Selected

/-- The comparison is an order on the admitted candidates, and sorts any of them, exactly if no two of them are exact
matches and of two the one that belongs first comes first. -/
theorem orderCandidates_ranks_iff (rrd : MemRrd) (rra : RraDef) (cs : List SourceCandidate)
    (hsel : ∀ c ∈ cs, selectCreateCandidates rra c.rra.rraDef) :
    Ranks rrd rra cs ↔ ToldApart rrd rra cs := by
  constructor
  · intro h a b hab
    have hantisymm := h.antisymm a b hab
    have ha := hsel a (hab.subset (by simp))
    have hb := hsel b (hab.subset (by simp))
    refine ⟨fun hexact => ?_, fun hlt => (sooner_iff ha hb).2 ?_⟩
    · rw [orderCandidates, orderCandidates, if_pos hexact.1, if_pos hexact.2] at hantisymm
      exact absurd hantisymm (by decide)
    · -- the two of them, sorted from both orders
      have hba : [b, a].Subperm cs := (List.Perm.swap a b []).subperm.trans hab
      have hpos : 0 < orderCandidates rrd rra b a := by
        by_contra hle
        have hsorted := h.sorted [a, b] hab
        rw [quickSort_pair, if_pos (not_lt.1 hle), List.pairwise_pair] at hsorted
        exact absurd hlt hsorted.not_gt
      refine ⟨?_, hpos⟩
      rw [Int.sign_eq_one_of_pos hpos] at hantisymm
      exact Int.sign_eq_neg_one_iff_neg.1 hantisymm
  · intro htold
    refine ⟨fun a b => htold.antisymm hsel, fun a b c => htold.trans hsel, fun ds hds => ?_⟩
    have hrefl : Std.Refl fun a b => place rrd rra a ≤ place rrd rra b := ⟨fun _ => le_rfl⟩
    have htrans : IsTrans SourceCandidate fun a b => place rrd rra a ≤ place rrd rra b := ⟨fun _ _ _ => le_trans⟩
    exact quickSort_sorted fun a ha b hb => htold.answers hsel (hds.subset ha) (hds.subset hb)

/-- Archives with averages, each with a number of rows and of intervals to a row. -/
def averagesRrd (rings : List (ℕ × ℕ)) : MemRrd where
  version := 3
  pdpStep := 1
  lastUp := 1200
  lastUpUsec := 0
  ds := [⟨gaugeDs ['a'] 600, ⟨['5'], 0, .fin 0⟩⟩]
  rra := rings.map fun ring => ⟨plainRra .average ring.1 ring.2 (1 / 2), [CdpPrep.zero], 0⟩
  rrdValue := fun _ => .nan

/-- The candidates among them for an archive with averages of 300 intervals. -/
def averages (rings : List (ℕ × ℕ)) : List SourceCandidate :=
  findCreateCandidates (averagesRrd rings) 0 (plainRra .average 10 300 (1 / 2)) ⟨0, Nat.one_pos⟩

lemma averages_admitted (rings : List (ℕ × ℕ)) :
    ∀ c ∈ averages rings, selectCreateCandidates (plainRra .average 10 300 (1 / 2)) c.rra.rraDef := by
  intro c hc
  rw [averages, findCreateCandidates, List.mem_map] at hc
  obtain ⟨i, hi, rfl⟩ := hc
  exact (List.mem_filter.1 hi).2

/-- Three archives without an exact match. -/
theorem orderCandidates_ranks_three :
    Ranks (averagesRrd []) (plainRra .average 10 300 (1 / 2)) (averages [(10, 60), (20, 60), (10, 120)]) := by
  apply (orderCandidates_ranks_iff (averagesRrd []) (plainRra .average 10 300 (1 / 2))
    (averages [(10, 60), (20, 60), (10, 120)]) (averages_admitted _)).2
  intro a b hab
  have hall : ∀ a ∈ averages [(10, 60), (20, 60), (10, 120)], ∀ b ∈ averages [(10, 60), (20, 60), (10, 120)],
      ¬ (ExactMatch (averagesRrd []) (plainRra .average 10 300 (1 / 2)) a ∧
          ExactMatch (averagesRrd []) (plainRra .average 10 300 (1 / 2)) b) ∧
        (place (averagesRrd []) (plainRra .average 10 300 (1 / 2)) a <
            place (averagesRrd []) (plainRra .average 10 300 (1 / 2)) b →
          Sooner (averagesRrd []) (plainRra .average 10 300 (1 / 2)) a b) := by
    decide +kernel
  exact hall a (hab.subset (by simp)) b (hab.subset (by simp))

/-- Of two exact matches each comes before the other one, and rows of 2147483650 seconds are sorted before those of one. -/
theorem orderCandidates_twice :
    (∃ a b, averages [(10, 300), (20, 300)] = [a, b] ∧
        orderCandidates (averagesRrd []) (plainRra .average 10 300 (1 / 2)) a b = -1 ∧
        orderCandidates (averagesRrd []) (plainRra .average 10 300 (1 / 2)) b a = -1) ∧
      (quickSort (orderCandidates (averagesRrd []) (plainRra .average 10 300 (1 / 2)))
          (averages [(10, 2147483650), (10, 1)])).map (·.slot) = [2147483650, 1] ∧
      ¬ Ranks (averagesRrd []) (plainRra .average 10 300 (1 / 2)) (averages [(10, 300), (20, 300)]) := by
  have hpair : ∃ a b, averages [(10, 300), (20, 300)] = [a, b] ∧
      orderCandidates (averagesRrd []) (plainRra .average 10 300 (1 / 2)) a b = -1 ∧
      orderCandidates (averagesRrd []) (plainRra .average 10 300 (1 / 2)) b a = -1 :=
    ⟨_, _, rfl, by decide +kernel, by decide +kernel⟩
  refine ⟨hpair, by decide +kernel, fun h => ?_⟩
  obtain ⟨a, b, heq, hab, hba⟩ := hpair
  have hantisymm := h.antisymm a b (heq ▸ List.Subperm.refl [a, b])
  rw [hab, hba] at hantisymm
  exact absurd hantisymm (by decide)

end Rrdtool
