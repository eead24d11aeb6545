import Rrdtool.Prefill.Coverage
import Rrdtool.Prefill.Rows
import Rrdtool.Update.Consolidation

/-!
# The mean of a bin, by `update` and by `prefill_bin`

Both sum the known values of an `AVERAGE` row and start anew when a sum has become `nan` (`knownSum`). `update_cdp` asks
how many points are unknown and divides by the number of the others (`cdpRows_single`). `prefill_bin` asks for how many
seconds are covered and divides by these.
-/

namespace Rrdtool
open Tiling SourceCandidate

/-! ### What `update_cdp` stores -/

/-- One more value in a sum of the known ones. -/
def addKnown (sum y : RrdValue) : RrdValue := if y.isnan then sum else ifDnan sum (.fin 0) + y

/-- The sum of the known values; after opposite infinities it starts anew. -/
def knownSum (g : List RrdValue) : RrdValue := g.foldl addKnown .nan

/-- The row of an `AVERAGE` archive for the points `g`. -/
@[grind] def updateRow (n : ℕ) (x : ℚ) (g : List RrdValue) : RrdValue :=
  if (n : ℚ) * x < unknown g then .nan
  else (if (g.getLastD .nan).isnan then ifDnan (knownSum g) (.fin 0) else knownSum g) / .fin (n - unknown g : ℕ)

variable {g : List RrdValue} {y : RrdValue} {n p : ℕ} {x : ℚ} {cdp : CdpPrep}

lemma knownSum_append (g : List RrdValue) (y : RrdValue) : knownSum (g ++ [y]) = addKnown (knownSum g) y := by
  rw [knownSum, List.foldl_append]
  rfl

lemma addKnown_nan (sum : RrdValue) : addKnown sum .nan = sum := rfl

lemma addKnown_of_ne (sum : RrdValue) (hy : y ≠ .nan) : addKnown sum y = ifDnan sum (.fin 0) + y := by
  rw [addKnown, ExtNum.isnan_eq_false.2 hy, if_neg Bool.false_ne_true]

/-- The preparation area after the points `front` of a row that is open. -/
structure SumTracks (front : List RrdValue) (cdp : CdpPrep) : Prop where
  unkn : cdp.unknPdpCnt = unknown front
  val : ifDnan cdp.val (.fin 0) = ifDnan (knownSum front) (.fin 0)

lemma mul_one_count (y : RrdValue) : y * .fin ((1 : ℕ) : ℚ) = y := by
  rw [ExtNum.mul_natCast y Nat.one_pos, List.replicate_one, List.sum_singleton]

lemma unknown_append_known {front : List RrdValue} (hy : y ≠ .nan) : unknown (front ++ [y]) = unknown front := by
  rw [unknown_append, unknown, unknown, List.countP_singleton, if_neg (by rwa [ExtNum.isnan_eq_true])]
  rfl

/-- A point that does not close the row. -/
lemma SumTracks.step {front : List RrdValue} (h : SumTracks front cdp) (y : RrdValue) (off : ℕ) :
    SumTracks (front ++ [y]) (updateCdp .average cdp y 0 1 off n (.fin x)) := by
  by_cases hy : y = .nan
  · subst hy
    refine ⟨?_, ?_⟩
    · show cdp.unknPdpCnt + 1 = _
      rw [h.unkn, unknown_append]
      rfl
    · rw [knownSum_append]
      exact h.val
  · have hcdp : updateCdp .average cdp y 0 1 off n (.fin x) = { cdp with val := ifDnan cdp.val (.fin 0) + y } := by
      rw [updateCdp, if_neg (lt_irrefl 0), ExtNum.isnan_eq_false.2 hy, if_neg Bool.false_ne_true,
        calculateCdpVal_average, mul_one_count]
    rw [hcdp]
    refine ⟨?_, ?_⟩
    · show cdp.unknPdpCnt = _
      rw [h.unkn, unknown_append_known hy]
    · show ifDnan (ifDnan cdp.val (.fin 0) + y) (.fin 0) = _
      rw [h.val, knownSum_append, addKnown_of_ne _ hy]

/-- The point that closes the row. -/
lemma SumTracks.close {front : List RrdValue} (h : SumTracks front cdp) (y : RrdValue)
    (hlen : front.length + 1 = n) (hn : n < 2 ^ 64) :
    (updateCdp .average cdp y 1 1 1 n (.fin x)).primaryVal = updateRow n x (front ++ [y]) := by
  have hunkn : cdp.unknPdpCnt + (if y.isnan then 1 else 0) = unknown (front ++ [y]) := by
    rw [h.unkn, unknown_append, unknown, unknown, List.countP_singleton]
  have hprim : (updateCdp .average cdp y 1 1 1 n (.fin x)).primaryVal =
      if (.fin n * .fin x : RrdValue) < .fin (unknown (front ++ [y]) : ℕ) then .nan
      else (ifDnan cdp.val (.fin 0) + ifDnan y (.fin 0) * .fin ((1 : ℕ) : ℚ)) /
        .fin (u64 ((n : ℤ) - unknown (front ++ [y]))) := by
    rw [← hunkn]
    cases y <;> rfl
  have hle : unknown (front ++ [y]) ≤ n := by
    rw [← hlen]
    exact List.countP_le_length.trans (by rw [List.length_append, List.length_singleton])
  rw [hprim, updateRow]
  refine if_congr (by rw [ExtNum.fin_mul_fin, ExtNum.fin_lt_fin]) rfl ?_
  rw [u64_sub hle hn, mul_one_count, h.val, List.getLastD_concat, knownSum_append]
  by_cases hy : y = .nan
  · subst hy
    rw [addKnown_nan]
    show (ifDnan (knownSum front) (.fin 0) + 0) / _ = _
    rw [add_zero]
    rfl
  · rw [addKnown_of_ne _ hy, ifDnan_of_ne hy, ExtNum.isnan_eq_false.2 hy, if_neg Bool.false_ne_true]

/-- The points of a row sent one by one: the row that `update_cdp` stores. -/
lemma cdpRows_single {front back : List RrdValue} (h : SumTracks front cdp) (hp : p % n = front.length)
    (hlen : front.length + back.length = n) (hback : back ≠ []) (hn : n < 2 ^ 64) :
    cdpRows .average n (.fin x) cdp p (back.map fun y => (y, 1)) = [updateRow n x (front ++ back)] := by
  induction back generalizing front cdp p with
  | nil => exact absurd rfl hback
  | cons y back ih =>
    have hoff : startPdpOffset n p = n - front.length := by rw [startPdpOffset, hp]
    rw [List.length_cons] at hlen
    rw [List.map_cons, cdpRows]
    cases back with
    | nil =>
      have hone : n - front.length = 1 := by
        rw [List.length_nil] at hlen
        omega
      have hclosed : rowsClosed n p 1 = 1 := by rw [rowsClosed, hoff, hone, if_pos le_rfl, Nat.sub_self, Nat.zero_div]
      show handedOut (updateCdp .average cdp y (rowsClosed n p 1) 1 (startPdpOffset n p) n (.fin x)) (rowsClosed n p 1) ++
        [] = _
      rw [hclosed, hoff, hone, List.append_nil, handedOut, List.replicate_zero,
        h.close y (by rw [List.length_nil] at hlen; omega) hn]
    | cons y' back =>
      have hopen : rowsClosed n p 1 = 0 := by
        rw [List.length_cons] at hlen
        rw [rowsClosed, hoff, if_neg (by omega)]
      have hnext : (p + 1) % n = (front ++ [y]).length := by
        rw [List.length_cons] at hlen
        rw [List.length_append, List.length_singleton, ← Nat.mod_add_mod, hp, Nat.mod_eq_of_lt (by omega)]
      show handedOut _ (rowsClosed n p 1) ++
        cdpRows .average n (.fin x) (updateCdp .average cdp y (rowsClosed n p 1) 1 (startPdpOffset n p) n (.fin x)) _ _ = _
      rw [hopen, handedOut, List.nil_append, ih (h.step y _) hnext (by rw [List.length_append, List.length_singleton]; omega)
        (List.cons_ne_nil _ _), List.append_assoc]
      rfl

/-- When that row is unknown: too many points are, or the sum is and is not started anew. -/
@[grind] def Lost (n : ℕ) (x : ℚ) (g : List RrdValue) : Prop :=
  (n : ℚ) * x < unknown g ∨ knownSum g = .nan ∧ g.getLastD .nan ≠ .nan

lemma known_length_add (g : List RrdValue) : (known g).length + unknown g = g.length := by
  have := known_length g
  have : unknown g ≤ g.length := List.countP_le_length
  omega

/-- Points that are few enough leave a known one. -/
lemma known_pos (hn : 0 < n) (hx : x < 1) (hlen : g.length = n) (hfew : ¬(n : ℚ) * x < unknown g) :
    0 < (known g).length := by
  have hsum := known_length_add g
  have hlt := unknown_lt hn hx (u := unknown g) (by rwa [ExtNum.fin_mul_fin, ExtNum.fin_lt_fin])
  omega

lemma updateRow_eq_nan_iff (hn : 0 < n) (hx : x < 1) (hlen : g.length = n) : updateRow n x g = .nan ↔ Lost n x g := by
  rw [updateRow, Lost]
  by_cases hmany : (n : ℚ) * x < unknown g
  · rw [if_pos hmany]
    exact iff_of_true rfl (.inl hmany)
  · have hknown := known_pos hn hx hlen hmany
    have hsum := known_length_add g
    rw [if_neg hmany, ExtNum.div_natCast_eq_nan_iff (by omega : 0 < n - unknown g), or_iff_right hmany]
    split_ifs with hlast
    · rw [ExtNum.isnan_eq_true] at hlast
      exact iff_of_false (ifDnan_ne_nan _ (by decide)) fun h => h.2 hlast
    · rw [ExtNum.isnan_eq_true] at hlast
      exact (and_iff_left hlast).symm

/-! ### What `prefill_bin` sums -/

/-- The points so far, in the variables of `prefill_bin`: the seconds that the known ones cover, and the sum of their
parts of the mean over the whole bin. -/
structure Counted (n : ℕ) (s : ℤ) (front : List RrdValue) (st : PrefillBin) : Prop where
  total : st.totalCovered = (known front).length * s
  value : st.value = knownSum front / .fin n

variable {s : ℤ} {front : List RrdValue} {st : PrefillBin} {a : List Coverage}

lemma Counted.nan (h : Counted n s front st) : Counted n s (front ++ [.nan]) st := by
  have hknown : known (front ++ [.nan]) = known front := by rw [known_append]; exact List.append_nil _
  exact ⟨by rw [hknown, h.total], by rw [knownSum_append, addKnown_nan, h.value]⟩

lemma ifDnan_div (v : RrdValue) (hn : 0 < n) : ifDnan (v / .fin n) (.fin 0) = ifDnan v (.fin 0) / .fin n := by
  by_cases hv : v = .nan
  · rw [hv, ExtNum.nan_div, ifDnan_nan, ExtNum.div_natCast hn]
    exact congrArg ExtNum.fin (zero_div _).symm
  · rw [ifDnan_of_ne hv, ifDnan_of_ne (mt (ExtNum.div_natCast_eq_nan_iff hn).1 hv)]

lemma Counted.add (h : Counted n s front st) (hy : y ≠ .nan) (hn : 0 < n) (hs : 0 < s) :
    Counted n s (front ++ [y]) ⟨a, st.totalCovered + s, prefillConsolidate .average st.value y (n * s) s⟩ := by
  have hq : (0 : ℚ) < n := by exact_mod_cast hn
  have hsq : (0 : ℚ) < s := by exact_mod_cast hs
  have hknown : known (front ++ [y]) = known front ++ [y] := by
    rw [known_append, ← List.replicate_one, known_replicate_of_ne hy]
  refine ⟨?_, ?_⟩
  · show st.totalCovered + s = _
    rw [hknown, h.total, List.length_append, List.length_singleton]
    push_cast
    ring
  · show ifDnan st.value (.fin 0) + y / .fin ((n * s : ℤ) : ℚ) * .fin s = _
    rw [knownSum_append, addKnown_of_ne _ hy, h.value, ExtNum.add_div_natCast _ _ hn, ifDnan_div _ hn]
    push_cast
    rw [ExtNum.div_mul_fin y hq hsq]

/-- The row of `prefill_bin`: `xff` is the part of the bin that must be exceeded. -/
@[grind] def coveredRow (n : ℕ) (x : ℚ) (g : List RrdValue) : RrdValue :=
  if (n : ℚ) * x < (known g).length then knownSum g / .fin (known g).length else .nan

/-- What is stored after the points `g`. -/
lemma Counted.finish (h : Counted n s g st) (hn : 0 < n) (hs : 0 < s) (hx0 : 0 ≤ x) (hlen : g.length ≤ n)
    (hfit : n * s < 2 ^ 31) :
    (if ⌊x * (n * s : ℤ)⌋ < st.totalCovered then
      some (prefillFinish .average st.value (n * s) (s32 st.totalCovered)) else none).getD .nan = coveredRow n x g := by
  have hq : (0 : ℚ) < n := by exact_mod_cast hn
  have hsq : (0 : ℚ) < s := by exact_mod_cast hs
  have hle : (known g).length ≤ n := by
    have := known_length_add g
    omega
  have hmul : (known g).length * s ≤ n * s := mul_le_mul_of_nonneg_right (by exact_mod_cast hle) hs.le
  have hiff : ⌊x * (n * s : ℤ)⌋ < st.totalCovered ↔ (n : ℚ) * x < (known g).length := by
    have hassoc : x * (n * s : ℤ) = n * x * s := by
      push_cast
      ring
    rw [h.total, Int.floor_lt, hassoc, Int.cast_mul, Int.cast_natCast, mul_lt_mul_iff_left₀ hsq]
  rw [coveredRow, if_congr hiff rfl rfl]
  split_ifs with hmore
  · have hpos : 0 < (known g).length := by
      have : (0 : ℚ) < (known g).length := (mul_nonneg hq.le hx0).trans_lt hmore
      exact_mod_cast this
    have hk : (0 : ℚ) < (known g).length := by exact_mod_cast hpos
    have htotal : 0 < (known g).length * s := mul_pos (by exact_mod_cast hpos) hs
    rw [Option.getD_some, h.value, h.total, s32_of_lt htotal.le (by omega)]
    show (if (known g).length * s = 0 then .nan else knownSum g / .fin n / .fin (((known g).length * s : ℤ) : ℚ) *
      .fin ((n * s : ℤ) : ℚ)) = _
    rw [if_neg htotal.ne']
    push_cast
    exact ExtNum.div_div_mul_fin _ hq hsq hk
  · rfl

/-- The two rows are the same if and only if both thresholds are on the same side of the points, unless the sum is
unknown. -/
lemma coveredRow_eq_iff (hn : 0 < n) (hx0 : 0 ≤ x) (hx : x < 1) (hlen : g.length = n) :
    coveredRow n x g = updateRow n x g ↔
      if knownSum g = .nan then (n : ℚ) * x < unknown g ∨ g.getLastD .nan ≠ .nan
      else ((n : ℚ) * x < (known g).length ↔ (unknown g : ℚ) ≤ n * x) := by
  split_ifs with hsum
  · have hcovered : coveredRow n x g = .nan := by
      rw [coveredRow, hsum, ExtNum.nan_div, ite_self]
    rw [hcovered, eq_comm, updateRow_eq_nan_iff hn hx hlen, Lost, and_iff_right hsum]
  · have hcount := known_length_add g
    have hrest : n - unknown g = (known g).length := by omega
    have hmean : ∀ hpos : 0 < (known g).length, knownSum g / .fin (known g).length ≠ .nan := fun hpos =>
      mt (ExtNum.div_natCast_eq_nan_iff hpos).1 hsum
    have hupdate : updateRow n x g =
        if (n : ℚ) * x < unknown g then .nan else knownSum g / .fin (known g).length := by
      rw [updateRow, ifDnan_of_ne hsum, ite_self, hrest]
    rw [hupdate, coveredRow, ← not_lt]
    split_ifs with hmore hmany hmany
    · have hpos : 0 < (known g).length := by
        have : (0 : ℚ) < (known g).length := (mul_nonneg n.cast_nonneg hx0).trans_lt hmore
        exact_mod_cast this
      exact iff_of_false (hmean hpos) fun h => h.1 hmore hmany
    · exact iff_of_true rfl ⟨fun _ => hmany, fun _ => hmore⟩
    · exact iff_of_true rfl ⟨fun h => absurd h hmore, fun h => absurd hmany h⟩
    · exact iff_of_false (hmean (known_pos hn hx hlen hmany)).symm fun h => hmore (h.2 hmany)

end Rrdtool
