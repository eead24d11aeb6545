import Rrdtool.Update.Cdp
import Rrdtool.Create
import Rrdtool.Lib.Groups

/-!
# Consolidation is exact

`update_cdp` folds primary data points into rows in closed form: the first row an update closes, the
rows that lie inside it and the open group it leaves. Here it is compared with what the rows are for
(`cdpOf`): write the primary data points out one by one, take them in groups of `pdp_cnt`, and let a
row be unknown when too many of its points are, and the mean, the minimum, the maximum or the last
of its points otherwise.

The comparison is a simulation. `Tracks` relates the preparation area to the updates that make up
the open group; `tracks_step` shows that one update keeps it and hands out the rows of the groups it
closes, and `cdpRows_eq_iff` follows by induction on the updates. `AVERAGE` uses `nan` in `CDP_val`
for an empty group, so a sum that is `nan` because both infinities occurred is started anew; the
exact condition under which that does no harm is `closesExactly`.
-/

namespace Rrdtool

open Groups ExtNum

/-! ### The rows that an archive hands out -/

/-- The number of rows an update closes, before it is cut to the size of the archive. -/
@[grind] def rowsClosed (pdpCnt procPdpCnt elapsed : ℕ) : ℕ :=
  if startPdpOffset pdpCnt procPdpCnt ≤ elapsed then
    (elapsed - startPdpOffset pdpCnt procPdpCnt) / pdpCnt + 1
  else 0

lemma rraStepCnt_eq_min (rra : RraDef) (elapsed procPdpCnt : ℕ) :
    rraStepCnt rra elapsed procPdpCnt =
      min (rowsClosed rra.pdpCnt procPdpCnt elapsed) rra.rowCnt := by
  simp only [rraStepCnt, rowsClosed]
  split
  · rfl
  · simp

/-- The values for the rows closed: the primary value, then the secondary value. -/
@[grind] def handedOut (c : CdpPrep) : ℕ → List RrdValue
  | 0 => []
  | k + 1 => c.primaryVal :: List.replicate k c.secondaryVal

/-- `update_cdp` for one data source over a list of updates, each a value and the number of steps it
stands for. -/
@[grind] def cdpRows (cf : Cf) (pdpCnt : ℕ) (xff : RrdValue) :
    CdpPrep → ℕ → List (RrdValue × ℕ) → List RrdValue
  | _, _, [] => []
  | c, procPdpCnt, (x, elapsed) :: us =>
    let k := rowsClosed pdpCnt procPdpCnt elapsed
    let c := updateCdp cf c x k elapsed (startPdpOffset pdpCnt procPdpCnt) pdpCnt xff
    handedOut c k ++ cdpRows cf pdpCnt xff c (procPdpCnt + elapsed) us

/-! ### What a row is -/

/-- The known values. -/
@[grind] def known (g : List RrdValue) : List RrdValue := g.filter fun x => !x.isnan

/-- The number of unknown values. -/
@[grind] def unknown (g : List RrdValue) : ℕ := g.countP (·.isnan)

/-- The greatest of a list of known values. -/
def greatest : List RrdValue → RrdValue
  | [] => .nan
  | x :: xs => xs.foldl hi x

/-- The smallest of a list of known values. -/
def smallest : List RrdValue → RrdValue
  | [] => .nan
  | x :: xs => xs.foldl lo x

/-- The row of a group of primary data points. -/
@[grind] def cdpOf (cf : Cf) (pdpCnt : ℕ) (xff : RrdValue) (g : List RrdValue) : RrdValue :=
  if .fin pdpCnt * xff < .fin (unknown g) then .nan
  else
    match cf with
    | .average => (known g).sum / .fin (known g).length
    | .maximum => greatest (known g)
    | .minimum => smallest (known g)
    | _ => g.getLastD .nan

@[simp] lemma known_append (g h : List RrdValue) : known (g ++ h) = known g ++ known h := by
  simp [known]

@[simp] lemma unknown_append (g h : List RrdValue) : unknown (g ++ h) = unknown g + unknown h := by
  simp [unknown]

lemma known_replicate_of_ne {x : RrdValue} (hx : x ≠ .nan) (k : ℕ) :
    known (List.replicate k x) = List.replicate k x := by
  simp [known, hx]

@[simp] lemma known_replicate_nan (k : ℕ) : known (List.replicate k .nan) = [] := by
  simp [known]

lemma unknown_replicate (x : RrdValue) (k : ℕ) :
    unknown (List.replicate k x) = if x.isnan then k else 0 := by
  simp [unknown, List.countP_replicate]

lemma known_length (g : List RrdValue) : (known g).length = g.length - unknown g := by
  have h := List.length_eq_length_filter_add (l := g) (·.isnan)
  rw [known, unknown, List.countP_eq_length_filter]
  omega

/-- Few enough unknown values leave at least one known value. -/
lemma unknown_lt {n : ℕ} {q : ℚ} (hn : 0 < n) (hq : q < 1) {u : ℕ}
    (h : ¬ (.fin n * .fin q : RrdValue) < .fin u) : u < n := by
  simp only [fin_mul_fin, fin_lt_fin, not_lt] at h
  have pos : (0 : ℚ) < n := by exact_mod_cast hn
  have : (u : ℚ) < n := by nlinarith
  exact_mod_cast this

/-! ### The open group -/

/-- One more value in a sum of infinities, where a sum that cancels starts anew. -/
@[grind] def cancel (r x : RrdValue) : RrdValue :=
  match x with
  | .pinf => if r = .ninf then .fin 0 else .pinf
  | .ninf => if r = .pinf then .fin 0 else .ninf
  | _ => r

/-- What is left of the infinities of the open group. -/
@[grind] def residue (g : List (RrdValue × ℕ)) : RrdValue := (g.map Prod.fst).foldl cancel (.fin 0)

/-- Opposite infinities. -/
@[grind] def opposed (x y : RrdValue) : Prop := (x = .pinf ∧ y = .ninf) ∨ (x = .ninf ∧ y = .pinf)

instance (x y : RrdValue) : Decidable (opposed x y) := inferInstanceAs (Decidable (_ ∨ _))

/-- Both infinities occur. -/
@[grind] def bothInf (g : List (RrdValue × ℕ)) : Prop :=
  .pinf ∈ g.map Prod.fst ∧ .ninf ∈ g.map Prod.fst

instance (g : List (RrdValue × ℕ)) : Decidable (bothInf g) := inferInstanceAs (Decidable (_ ∧ _))

/-- What `CDP_val` says about the open group. -/
@[grind] def ValTracks (cf : Cf) (g : List (RrdValue × ℕ)) (v : RrdValue) : Prop :=
  match cf with
  | .average =>
    (¬ bothInf g → ifDnan v (.fin 0) = (known (expand g)).sum) ∧
      (v = .pinf ↔ residue g = .pinf) ∧ (v = .ninf ↔ residue g = .ninf)
  | .maximum => ifDnan v .ninf = (known (expand g)).foldl hi .ninf
  | .minimum => ifDnan v .pinf = (known (expand g)).foldl lo .pinf
  | _ => True

/-- The preparation area `c` after the updates `g` of the open group. -/
structure Tracks (cf : Cf) (n : ℕ) (g : List (RrdValue × ℕ)) (c : CdpPrep) : Prop where
  lt : (expand g).length < n
  pos : ∀ u ∈ g, 1 ≤ u.2
  unkn : c.unknPdpCnt = unknown (expand g)
  val : ValTracks cf g c.val

lemma ifDnan_nan (y : RrdValue) : ifDnan .nan y = y := rfl

lemma ifDnan_of_ne {x : RrdValue} (hx : x ≠ .nan) (y : RrdValue) : ifDnan x y = x := by
  simp [ifDnan, hx]

lemma ifDnan_ne_nan (x : RrdValue) {y : RrdValue} (hy : y ≠ .nan) : ifDnan x y ≠ .nan := by
  cases x <;> simp [ifDnan, hy]

/-- An empty group, as `init_cdp` leaves it. -/
lemma valTracks_nan (cf : Cf) : ValTracks cf [] .nan := by
  cases cf <;> simp [ValTracks, ifDnan, known, residue, zero_def]

/-- An empty group, as a row closed without carry leaves it. -/
lemma valTracks_init (cf : Cf) : ValTracks cf [] (carryOverInit cf) := by
  cases cf <;> simp [ValTracks, carryOverInit, ifDnan, known, residue, zero_def]

/-- Unknown points do not touch `CDP_val`. -/
lemma ValTracks.addUnknown {cf g v} (h : ValTracks cf g v) (e : ℕ) :
    ValTracks cf (g ++ [(.nan, e)]) v := by
  have hres : residue (g ++ [(.nan, e)]) = residue g := by simp [residue, cancel]
  have hboth : bothInf (g ++ [(.nan, e)]) ↔ bothInf g := by simp [bothInf]
  cases cf <;> simp_all [ValTracks]

lemma foldl_replicate {op : RrdValue → RrdValue → RrdValue} (hop : ∀ m x, op (op m x) x = op m x)
    {k : ℕ} (hk : 0 < k) (m x : RrdValue) : (List.replicate k x).foldl op m = op m x := by
  induction k, hk using Nat.le_induction with
  | base => rfl
  | succ k _ ih => rw [List.replicate_succ', List.foldl_append, ih, List.foldl_cons, hop, List.foldl_nil]

/-! ### One update of the open group -/

/-- The sum kept for `AVERAGE` with a known point added. -/
lemma calculateCdpVal_average (v x : RrdValue) (e : ℕ) :
    calculateCdpVal .average v x e = ifDnan v (.fin 0) + x * .fin e := by
  cases v <;> simp [calculateCdpVal, ifDnan, ← zero_def]

lemma calculateCdpVal_maximum {v x : RrdValue} (hx : x ≠ .nan) (e : ℕ) :
    calculateCdpVal .maximum v x e = hi (ifDnan v .ninf) x := by
  cases v with
  | nan => simp [calculateCdpVal, ifDnan, hi_ninf hx]
  | _ => rfl

lemma calculateCdpVal_minimum {v x : RrdValue} (hx : x ≠ .nan) (e : ℕ) :
    calculateCdpVal .minimum v x e = lo (ifDnan v .pinf) x := by
  cases v with
  | nan => simp [calculateCdpVal, ifDnan, lo_pinf hx]
  | _ => rfl

/-- A count times a known value is known, and infinite if the value is. -/
lemma mul_count_cases {x : RrdValue} (hx : x ≠ .nan) {e : ℕ} (he : 0 < e) :
    (x = .pinf ∧ x * .fin e = .pinf) ∨ (x = .ninf ∧ x * .fin e = .ninf) ∨
      ∃ q r : ℚ, x = .fin q ∧ x * .fin e = .fin r := by
  have pos : (0 : ℚ) < e := by exact_mod_cast he
  cases x with
  | nan => exact absurd rfl hx
  | pinf => exact .inl ⟨rfl, if_pos pos⟩
  | ninf => exact .inr (.inl ⟨rfl, if_pos pos⟩)
  | fin q => exact .inr (.inr ⟨q, q * e, rfl, rfl⟩)

lemma residue_append (g : List (RrdValue × ℕ)) (x : RrdValue) (e : ℕ) :
    residue (g ++ [(x, e)]) = cancel (residue g) x := by
  simp [residue]

/-- An infinity that is left has occurred. -/
lemma residue_mem (g : List (RrdValue × ℕ)) :
    (residue g = .pinf → .pinf ∈ g.map Prod.fst) ∧
      (residue g = .ninf → .ninf ∈ g.map Prod.fst) := by
  induction g using List.reverseRecOn with
  | nil => simp [residue]
  | append_singleton g u ih =>
    obtain ⟨x, e⟩ := u
    rw [residue_append, List.map_append]
    cases x with
    | pinf =>
      refine ⟨fun _ => by simp, fun h => ?_⟩
      simp only [cancel] at h
      split at h <;> cases h
    | ninf =>
      refine ⟨fun h => ?_, fun _ => by simp⟩
      simp only [cancel] at h
      split at h <;> cases h
    | nan => simpa [cancel] using ih
    | fin q => simpa [cancel] using ih

/-- The infinities of the sum kept for `AVERAGE`. -/
lemma addInf_iff {v r x : RrdValue} (hp : v = .pinf ↔ r = .pinf) (hn : v = .ninf ↔ r = .ninf)
    (hx : x ≠ .nan) {e : ℕ} (he : 0 < e) :
    (ifDnan v (.fin 0) + x * .fin e = .pinf ↔ cancel r x = .pinf) ∧
      (ifDnan v (.fin 0) + x * .fin e = .ninf ↔ cancel r x = .ninf) := by
  obtain ⟨rfl, hm⟩ | ⟨rfl, hm⟩ | ⟨q, s, rfl, hm⟩ := mul_count_cases hx he
  all_goals
    rw [hm]
    cases v <;> simp_all [ifDnan, cancel]

/-- The sum kept for `AVERAGE` is lost when opposite infinities meet. -/
lemma sum_eq_nan_iff {v x : RrdValue} (hx : x ≠ .nan) {e : ℕ} (he : 0 < e) :
    ifDnan v (.fin 0) + x * .fin e = .nan ↔ opposed v x := by
  obtain ⟨rfl, hm⟩ | ⟨rfl, hm⟩ | ⟨q, s, rfl, hm⟩ := mul_count_cases hx he
  all_goals
    rw [hm]
    cases v <;> simp [ifDnan, opposed]

/-- A sum that cancels comes from a group with both infinities. -/
lemma bothInf_of_sum_eq_nan {g v x} (hp : v = .pinf ↔ residue g = .pinf)
    (hn : v = .ninf ↔ residue g = .ninf) (hx : x ≠ .nan) {e : ℕ} (he : 0 < e)
    (h : ifDnan v (.fin 0) + x * .fin e = .nan) : bothInf (g ++ [(x, e)]) := by
  simp only [bothInf, List.map_append, List.mem_append]
  obtain ⟨hvp, rfl⟩ | ⟨hvn, rfl⟩ := (sum_eq_nan_iff hx he).1 h
  · exact ⟨.inl ((residue_mem g).1 (hp.1 hvp)), .inr (by simp)⟩
  · exact ⟨.inr (by simp), .inl ((residue_mem g).2 (hn.1 hvn))⟩

/-- Known points update `CDP_val`. -/
lemma ValTracks.addKnown {cf g v} (h : ValTracks cf g v) {x : RrdValue} (hx : x ≠ .nan) {e : ℕ}
    (he : 0 < e) : ValTracks cf (g ++ [(x, e)]) (calculateCdpVal cf v x e) := by
  have hknown : known (expand (g ++ [(x, e)])) = known (expand g) ++ List.replicate e x := by
    simp [known_replicate_of_ne hx]
  cases cf with
  | average =>
    obtain ⟨hsum, hp, hn⟩ := h
    rw [calculateCdpVal_average]
    obtain ⟨hp', hn'⟩ := addInf_iff hp hn hx he
    refine ⟨fun hb => ?_, by rw [residue_append]; exact hp', by rw [residue_append]; exact hn'⟩
    have hb' : ¬ bothInf g := by
      intro hg
      apply hb
      simp only [bothInf, List.map_append, List.mem_append]
      exact ⟨.inl hg.1, .inl hg.2⟩
    rw [hknown, List.sum_append, ← hsum hb', ← mul_natCast x he]
    refine ifDnan_of_ne (fun hv => hb ?_) _
    exact bothInf_of_sum_eq_nan hp hn hx he hv
  | maximum =>
    have hne : hi (ifDnan v .ninf) x ≠ .nan := by
      obtain h | h := hi_mem (ifDnan v .ninf) x <;> rw [h]
      · exact ifDnan_ne_nan v (by simp)
      · exact hx
    show ifDnan (calculateCdpVal .maximum v x e) .ninf = _
    rw [calculateCdpVal_maximum hx, ifDnan_of_ne hne, hknown, List.foldl_append,
      foldl_replicate hi_hi_self he, ← show _ = _ from h]
  | minimum =>
    have hne : lo (ifDnan v .pinf) x ≠ .nan := by
      obtain h | h := lo_mem (ifDnan v .pinf) x <;> rw [h]
      · exact ifDnan_ne_nan v (by simp)
      · exact hx
    show ifDnan (calculateCdpVal .minimum v x e) .pinf = _
    rw [calculateCdpVal_minimum hx, ifDnan_of_ne hne, hknown, List.foldl_append,
      foldl_replicate lo_lo_self he, ← show _ = _ from h]
  | _ => trivial

/-- The updates of the group left open by an update with `m` points beyond the last row. -/
@[grind] def openGroup (x : RrdValue) (m : ℕ) : List (RrdValue × ℕ) := if m = 0 then [] else [(x, m)]

lemma expand_openGroup (x : RrdValue) (m : ℕ) : expand (openGroup x m) = List.replicate m x := by
  unfold openGroup
  split
  · rename_i h
    simp [h]
  · simp

/-- A carry over is a known point added to an empty group. -/
lemma initializeCarryOver_eq {cf x e off n} (hcf : cf.isPlain) (hm : (e - off) % n ≠ 0)
    (hx : x ≠ .nan) :
    initializeCarryOver cf x e off n = calculateCdpVal cf (carryOverInit cf) x ((e - off) % n) := by
  have hne : ¬ ((e - off) % n = 0 ∨ x.isnan = true) := by simp [hm, hx]
  simp only [initializeCarryOver, if_neg hne]
  cases cf with
  | average =>
    rw [calculateCdpVal_average]
    exact (zero_add _).symm
  | maximum =>
    rw [calculateCdpVal_maximum hx]
    exact (hi_ninf hx).symm
  | minimum =>
    rw [calculateCdpVal_minimum hx]
    exact (lo_pinf hx).symm
  | last => rfl
  | _ => cases hcf

lemma valTracks_carryOver {cf x e off n} (hcf : cf.isPlain) :
    ValTracks cf (openGroup x ((e - off) % n)) (initializeCarryOver cf x e off n) := by
  unfold openGroup
  by_cases hm : (e - off) % n = 0
  · rw [if_pos hm]
    simpa [initializeCarryOver, hm] using valTracks_init cf
  · rw [if_neg hm]
    by_cases hx : x = .nan
    · subst hx
      simpa [initializeCarryOver] using (valTracks_init cf).addUnknown ((e - off) % n)
    · rw [initializeCarryOver_eq hcf hm hx]
      exact (valTracks_init cf).addKnown hx (Nat.pos_of_ne_zero hm)

/-! ### The row that is closed -/

/-- The condition under which the row closed by `off` points of value `x` is right: a sum that was
`nan` before has been started anew, so opposite infinities have to meet again in the end. -/
def closesExactly (cf : Cf) (n : ℕ) (xff : RrdValue) (g : List (RrdValue × ℕ)) (x : RrdValue)
    (off : ℕ) : Prop :=
  cf = .average → ¬ .fin n * xff < .fin (unknown (expand g ++ List.replicate off x)) →
    bothInf g → opposed (residue g) x

instance (cf : Cf) (n : ℕ) (xff : RrdValue) (g : List (RrdValue × ℕ)) (x : RrdValue) (off : ℕ) :
    Decidable (closesExactly cf n xff g x off) :=
  inferInstanceAs (Decidable (_ → _ → _ → _))

lemma foldl_hi_eq_greatest {l : List RrdValue} (hl : l ≠ []) (hk : ∀ x ∈ l, x ≠ .nan) :
    l.foldl hi .ninf = greatest l := by
  cases l with
  | nil => exact absurd rfl hl
  | cons a l => rw [List.foldl_cons, hi_ninf (hk a (by simp)), greatest]

lemma foldl_lo_eq_smallest {l : List RrdValue} (hl : l ≠ []) (hk : ∀ x ∈ l, x ≠ .nan) :
    l.foldl lo .pinf = smallest l := by
  cases l with
  | nil => exact absurd rfl hl
  | cons a l => rw [List.foldl_cons, lo_pinf (hk a (by simp)), smallest]

lemma mem_known {g : List RrdValue} {x : RrdValue} : x ∈ known g ↔ x ∈ g ∧ x ≠ .nan := by
  simp [known]

/-- The mean of the group, when its sum has not been lost. -/
lemma average_sum {g v x off} (h : ValTracks .average g v) (hb : ¬ bothInf g) (hoff : 0 < off) :
    ifDnan v (.fin 0) + ifDnan x (.fin 0) * .fin off =
      (known (expand g ++ List.replicate off x)).sum := by
  rw [h.1 hb, known_append, List.sum_append]
  congr 1
  by_cases hx : x = .nan
  · subst hx
    simp [ifDnan, zero_def]
  · rw [ifDnan_of_ne hx, known_replicate_of_ne hx, mul_natCast x hoff]

/-- `AVERAGE`: the row closed by `off` points of value `x`. -/
lemma initializeCdpVal_average {n g c x off} (ht : Tracks .average n g c)
    (hoff : (expand g).length + off = n) (pos : 0 < off) (hn : n < 2 ^ 64)
    (hu : unknown (expand g ++ List.replicate off x) < n) :
    initializeCdpVal .average
        { c with unknPdpCnt := unknown (expand g ++ List.replicate off x) } x off n =
      (known (expand g ++ List.replicate off x)).sum /
        .fin (known (expand g ++ List.replicate off x)).length ↔
    (bothInf g → opposed (residue g) x) := by
  set full := expand g ++ List.replicate off x with hfull
  have hlen : (known full).length = n - unknown full := by
    rw [known_length, hfull, List.length_append, List.length_replicate, hoff]
  have hdiv : u64 ((n : ℤ) - unknown full) = n - unknown full := u64_sub hu.le hn
  have hpos : 0 < n - unknown full := Nat.sub_pos_of_lt hu
  show (ifDnan c.val (.fin 0) + ifDnan x (.fin 0) * .fin off) /
    .fin ((u64 ((n : ℤ) - unknown full) : ℕ) : ℚ) = _ ↔ _
  rw [hdiv, hlen]
  by_cases hb : bothInf g
  · have hmem : ∀ y, y ≠ .nan → y ∈ g.map Prod.fst → y ∈ known full := fun y hy hm =>
      mem_known.2 ⟨List.mem_append_left _ ((mem_expand ht.pos).2 hm), hy⟩
    have hsum : (known full).sum = .nan :=
      sum_eq_nan_of_mem (hmem _ (by simp) hb.1) (hmem _ (by simp) hb.2)
    rw [hsum, nan_div, div_natCast_eq_nan_iff hpos, forall_prop_of_true hb]
    obtain ⟨-, hp, hn⟩ := ht.val
    by_cases hx : x = .nan
    · have hne : ifDnan c.val (.fin 0) ≠ .nan := ifDnan_ne_nan c.val (by simp)
      subst hx
      rw [ifDnan_nan, fin_mul_fin, zero_mul]
      rw [show ifDnan c.val (.fin 0) + .fin 0 = ifDnan c.val (.fin 0) from add_zero _]
      simp [hne, opposed]
    · rw [ifDnan_of_ne hx, sum_eq_nan_iff hx pos]
      simp only [opposed, hp, hn]
  · rw [average_sum ht.val hb pos]
    exact iff_of_true rfl fun h => absurd h hb

/-- `MAX` and `MIN`: the running extremum with `off` points of value `x`. -/
lemma foldl_known_append {op : RrdValue → RrdValue → RrdValue} (hop : ∀ m x, op (op m x) x = op m x)
    {e : RrdValue} (he : ∀ m, op m e = m) (m : RrdValue) (g : List RrdValue) {off : ℕ}
    (pos : 0 < off) (x : RrdValue) :
    (known (g ++ List.replicate off x)).foldl op m =
      op ((known g).foldl op m) (ifDnan x e) := by
  rw [known_append, List.foldl_append]
  by_cases hx : x = .nan
  · subst hx
    rw [known_replicate_nan, ifDnan_nan, he]
    rfl
  · rw [known_replicate_of_ne hx, foldl_replicate hop pos, ifDnan_of_ne hx]

/-- The row closed by `off` points of value `x` is right under exactly the condition. -/
lemma initializeCdpVal_eq_iff {cf n q g c x off} (hcf : cf.isPlain) (ht : Tracks cf n g c)
    (hoff : (expand g).length + off = n) (pos : 0 < off) (hn : n < 2 ^ 64) (hq : q < 1) :
    (if (.fin n * .fin q : RrdValue) < .fin (unknown (expand g ++ List.replicate off x)) then .nan
      else initializeCdpVal cf
        { c with unknPdpCnt := unknown (expand g ++ List.replicate off x) } x off n) =
      cdpOf cf n (.fin q) (expand g ++ List.replicate off x) ↔
    closesExactly cf n (.fin q) g x off := by
  unfold cdpOf closesExactly
  by_cases few : (.fin n * .fin q : RrdValue) < .fin (unknown (expand g ++ List.replicate off x))
  · rw [if_pos few, if_pos few]
    exact iff_of_true rfl fun _ h => absurd few h
  · rw [if_neg few, if_neg few]
    have hu := unknown_lt (by omega) hq few
    have hne : known (expand g ++ List.replicate off x) ≠ [] := by
      have hlen := known_length (expand g ++ List.replicate off x)
      rw [List.length_append, List.length_replicate, hoff] at hlen
      apply List.ne_nil_of_length_pos
      omega
    have hk : ∀ y ∈ known (expand g ++ List.replicate off x), y ≠ .nan := fun y hy =>
      (mem_known.1 hy).2
    cases cf with
    | average =>
      simp only [few, not_false_eq_true, forall_const]
      exact initializeCdpVal_average ht hoff pos hn hu
    | maximum =>
      refine iff_of_true ?_ (fun h => by cases h)
      show hi (ifDnan c.val .ninf) (ifDnan x .ninf) = greatest _
      have hval : ifDnan c.val .ninf = (known (expand g)).foldl hi .ninf := ht.val
      rw [← foldl_hi_eq_greatest hne hk,
        foldl_known_append hi_hi_self (fun m => if_neg (not_lt_ninf m)) _ _ pos, hval]
    | minimum =>
      refine iff_of_true ?_ (fun h => by cases h)
      show lo (ifDnan c.val .pinf) (ifDnan x .pinf) = smallest _
      have hval : ifDnan c.val .pinf = (known (expand g)).foldl lo .pinf := ht.val
      rw [← foldl_lo_eq_smallest hne hk,
        foldl_known_append lo_lo_self (fun m => if_neg (not_pinf_lt m)) _ _ pos, hval]
    | last =>
      refine iff_of_true ?_ (fun h => by cases h)
      obtain ⟨k, rfl⟩ := Nat.exists_eq_succ_of_ne_zero pos.ne'
      show x = (expand g ++ List.replicate (k + 1) x).getLastD .nan
      rw [List.replicate_succ', ← List.append_assoc]
      simp
    | _ => cases hcf

/-- A group of equal points is a row of their value. -/
lemma cdpOf_replicate {cf n q} (hcf : cf.isPlain) (hn : 0 < n) (hq0 : 0 ≤ q) (hq : q < 1)
    (x : RrdValue) : cdpOf cf n (.fin q) (List.replicate n x) = x := by
  have pos : (0 : ℚ) < n := by exact_mod_cast hn
  unfold cdpOf
  by_cases hx : x = .nan
  · subst hx
    have hlt : (.fin n * .fin q : RrdValue) < .fin (unknown (List.replicate n (.nan : RrdValue))) := by
      rw [unknown_replicate, fin_mul_fin, fin_lt_fin]
      simp only [isnan_nan, if_true]
      nlinarith
    rw [if_pos hlt]
  · have hge : ¬ (.fin n * .fin q : RrdValue) < .fin (unknown (List.replicate n x)) := by
      rw [unknown_replicate, fin_mul_fin, fin_lt_fin]
      simp only [isnan_eq_false.2 hx, Bool.false_eq_true, if_false, Nat.cast_zero, not_lt]
      positivity
    rw [if_neg hge, known_replicate_of_ne hx]
    obtain ⟨k, rfl⟩ := Nat.exists_eq_succ_of_ne_zero hn.ne'
    cases cf with
    | average =>
      show (List.replicate _ x).sum / .fin ((List.replicate _ x).length : ℕ) = x
      rw [List.length_replicate, ← mul_natCast x hn]
      obtain ⟨rfl, hm⟩ | ⟨rfl, hm⟩ | ⟨r, s, rfl, hm⟩ := mul_count_cases hx hn
      · rw [hm]
        exact if_neg pos.not_gt
      · rw [hm]
        exact if_neg pos.not_gt
      · rw [fin_mul_fin, fin_div_fin pos.ne', mul_div_cancel_right₀ r pos.ne']
    | maximum =>
      show (List.replicate k x).foldl hi x = x
      obtain rfl | hk := Nat.eq_zero_or_pos k
      · rfl
      · rw [foldl_replicate hi_hi_self hk]
        exact if_neg (lt_irrefl' x)
    | minimum =>
      show (List.replicate k x).foldl lo x = x
      obtain rfl | hk := Nat.eq_zero_or_pos k
      · rfl
      · rw [foldl_replicate lo_lo_self hk]
        exact if_neg (lt_irrefl' x)
    | last => simp [List.replicate_succ']
    | _ => cases hcf

/-! ### One update -/

/-- An update that closes no row goes into the open group. -/
lemma tracks_open {cf n q g c x e p} (ht : Tracks cf n g c) (he : 0 < e)
    (hp : p % n = (expand g).length) (hlt : (expand g).length + e < n) :
    rowsClosed n p e = 0 ∧
      Tracks cf n (g ++ [(x, e)])
        (updateCdp cf c x 0 e (startPdpOffset n p) n (.fin q)) := by
  have hoff : startPdpOffset n p = n - (expand g).length := by rw [startPdpOffset, hp]
  refine ⟨if_neg (by omega), ?_, ?_, ?_, ?_⟩
  · simpa using hlt
  · intro u hu
    obtain hu | hu := List.mem_append.1 hu
    · exact ht.pos u hu
    · rw [List.mem_singleton.1 hu]
      exact he
  · rw [expand_append, unknown_append, ← ht.unkn]
    by_cases hx : x = .nan
    · subst hx
      simp [updateCdp, unknown_replicate]
    · simp [updateCdp, unknown_replicate, isnan_eq_false.2 hx]
  · by_cases hx : x = .nan
    · subst hx
      exact ht.val.addUnknown e
    · have hv : (updateCdp cf c x 0 e (startPdpOffset n p) n (.fin q)).val =
          calculateCdpVal cf c.val x e := by
        simp [updateCdp, isnan_eq_false.2 hx]
      rw [hv]
      exact ht.val.addKnown hx he

/-- An update that closes rows: the first of them is right under exactly the condition, the others
are, and the rest of the update makes up a new open group. -/
lemma tracks_close {cf n q g c x e p} (hcf : cf.isPlain) (ht : Tracks cf n g c) (hn : n < 2 ^ 64)
    (hq : q < 1) (hp : p % n = (expand g).length) (hle : n ≤ (expand g).length + e) :
    let off := n - (expand g).length
    let c' := updateCdp cf c x ((e - off) / n + 1) e (startPdpOffset n p) n (.fin q)
    rowsClosed n p e = (e - off) / n + 1 ∧ c'.secondaryVal = x ∧
      (c'.primaryVal = cdpOf cf n (.fin q) (expand g ++ List.replicate off x) ↔
        closesExactly cf n (.fin q) g x off) ∧
      Tracks cf n (openGroup x ((e - off) % n)) c' := by
  intro off c'
  have hlt := ht.lt
  have hoff : startPdpOffset n p = off := by rw [startPdpOffset, hp]
  have hle' : off ≤ e := by omega
  have hm : (e - off) % n < n := Nat.mod_lt _ (by omega)
  have hc' : c' = updateCdp cf c x ((e - off) / n + 1) e off n (.fin q) := by
    show updateCdp cf c x _ e (startPdpOffset n p) n (.fin q) = _
    rw [hoff]
  have hunkn : c.unknPdpCnt + (if x.isnan then off else 0) =
      unknown (expand g ++ List.replicate off x) := by
    rw [unknown_append, unknown_replicate, ht.unkn]
  refine ⟨by rw [rowsClosed, hoff, if_pos hle'], ?_, ?_, ?_, ?_, ?_, ?_⟩
  · rw [hc']
    by_cases hx : x = .nan
    · simp [updateCdp, hx]
    · simp [updateCdp, isnan_eq_false.2 hx]
  · rw [← initializeCdpVal_eq_iff hcf ht (by omega) (by omega) hn hq, ← hunkn, hc']
    by_cases hx : x = .nan
    · subst hx
      simp [updateCdp, initializeCdpVal]
    · simp [updateCdp, initializeCdpVal, isnan_eq_false.2 hx]
  · rw [expand_openGroup, List.length_replicate]
    exact hm
  · intro u hu
    unfold openGroup at hu
    split at hu
    · cases hu
    · rename_i hne
      rw [List.mem_singleton.1 hu]
      exact Nat.pos_of_ne_zero hne
  · rw [expand_openGroup, unknown_replicate, hc']
    by_cases hx : x = .nan
    · simp [updateCdp, hx]
    · simp [updateCdp, isnan_eq_false.2 hx]
  · have hv : c'.val = initializeCarryOver cf x e off n := by
      rw [hc']
      simp [updateCdp]
    rw [hv]
    exact valTracks_carryOver hcf

/-! ### Every sequence of updates -/

/-- Every row closed by the updates `us`, after the updates `g` of the open group, is closed under
the condition of `closesExactly`. -/
def rowsExact (cf : Cf) (n : ℕ) (xff : RrdValue) : List (RrdValue × ℕ) → List (RrdValue × ℕ) → Prop
  | _, [] => True
  | g, (x, e) :: us =>
    if (expand g).length + e < n then rowsExact cf n xff (g ++ [(x, e)]) us
    else
      closesExactly cf n xff g x (n - (expand g).length) ∧
        rowsExact cf n xff (openGroup x ((e - (n - (expand g).length)) % n)) us

instance decidableRowsExact (cf : Cf) (n : ℕ) (xff : RrdValue) :
    ∀ g us, Decidable (rowsExact cf n xff g us)
  | _, [] => inferInstanceAs (Decidable True)
  | g, (x, e) :: us =>
    have := decidableRowsExact cf n xff (g ++ [(x, e)]) us
    have := decidableRowsExact cf n xff (openGroup x ((e - (n - (expand g).length)) % n)) us
    inferInstanceAs (Decidable (if (expand g).length + e < n then
        rowsExact cf n xff (g ++ [(x, e)]) us
      else
        closesExactly cf n xff g x (n - (expand g).length) ∧
          rowsExact cf n xff (openGroup x ((e - (n - (expand g).length)) % n)) us))

/-- From an open group on, the rows handed out are the rows of the groups of the primary data points
under exactly the condition. -/
lemma cdpRows_eq_iff {cf n q g c p us} (hcf : cf.isPlain) (hn0 : 0 < n) (hn : n < 2 ^ 64)
    (hq0 : 0 ≤ q) (hq : q < 1) (ht : Tracks cf n g c) (hp : p % n = (expand g).length)
    (hus : ∀ u ∈ us, 1 ≤ u.2) :
    cdpRows cf n (.fin q) c p us = (groups n (expand g ++ expand us)).map (cdpOf cf n (.fin q)) ↔
      rowsExact cf n (.fin q) g us := by
  induction us generalizing g c p with
  | nil =>
    rw [expand_nil, List.append_nil, groups_of_lt ht.lt]
    exact iff_of_true rfl trivial
  | cons u us ih =>
    obtain ⟨x, e⟩ := u
    have he : 1 ≤ e := hus (x, e) (by simp)
    have hus' : ∀ u ∈ us, 1 ≤ u.2 := fun u hu => hus u (by simp [hu])
    have hpe : (p + e) % n = ((expand g).length + e) % n := by rw [← hp, Nat.mod_add_mod]
    simp only [cdpRows, rowsExact]
    by_cases hlt : (expand g).length + e < n
    · obtain ⟨hk, ht'⟩ := tracks_open (q := q) (x := x) ht he hp hlt
      have hp' : (p + e) % n = (expand (g ++ [(x, e)])).length := by
        rw [hpe, Nat.mod_eq_of_lt hlt]
        simp
      have hexp : expand g ++ expand ((x, e) :: us) = expand (g ++ [(x, e)]) ++ expand us := by simp
      rw [hk, if_pos hlt, hexp]
      exact ih ht' hp' hus'
    · obtain ⟨hk, hsec, hprim, ht'⟩ := tracks_close (x := x) hcf ht hn hq hp (not_lt.1 hlt)
      rw [hk, if_neg hlt]
      set off := n - (expand g).length with hoff
      set m := (e - off) % n with hm
      have hlen := ht.lt
      have hle : off ≤ e := by omega
      have hsplit : e = off + ((e - off) / n * n + m) := by
        have := Nat.div_add_mod' (e - off) n
        omega
      have hp' : (p + e) % n = (expand (openGroup x m)).length := by
        rw [expand_openGroup, List.length_replicate, hm, hpe,
          show (expand g).length + e = (e - off) + n by omega, Nat.add_mod_right]
      have hexp : expand g ++ expand ((x, e) :: us) =
          (expand g ++ List.replicate off x) ++ (List.replicate ((e - off) / n * n) x ++
            (expand (openGroup x m) ++ expand us)) := by
        rw [expand_openGroup, expand_cons]
        show _ ++ (List.replicate e x ++ _) = _
        nth_rewrite 1 [hsplit]
        simp only [List.replicate_add, List.append_assoc]
      have hfull : (expand g ++ List.replicate off x).length = n := by
        simp
        omega
      rw [hexp, groups_append hn0 hfull, groups_replicate hn0, List.map_cons, List.map_append,
        List.map_replicate, cdpOf_replicate hcf hn0 hq0 hq, handedOut, hsec, List.cons_append,
        List.cons.injEq, List.append_cancel_left_eq, hprim, ih ht' hp' hus']

/-! ### Consolidation from a row boundary on -/

lemma foldl_mem {op : RrdValue → RrdValue → RrdValue} (hop : ∀ m x, op m x = m ∨ op m x = x)
    (x : RrdValue) (l : List RrdValue) : l.foldl op x ∈ x :: l := by
  induction l generalizing x with
  | nil => simp
  | cons y l ih =>
    rw [List.foldl_cons]
    obtain h | h := hop x y
    · have := ih x
      rw [h]
      simp only [List.mem_cons] at this ⊢
      tauto
    · have := ih y
      rw [h]
      simp only [List.mem_cons] at this ⊢
      tauto

/-- An extreme value of a row is one of the points of its group. -/
lemma cdpOf_mem {cf n xff g} (hcf : cf = .minimum ∨ cf = .maximum)
    (h : (cdpOf cf n xff g).isinf) : cdpOf cf n xff g ∈ g := by
  unfold cdpOf at h ⊢
  split at h
  · cases h
  · rename_i hfew
    rw [if_neg hfew]
    have hsub : ∀ v ∈ known g, v ∈ g := fun v hv => (mem_known.1 hv).1
    obtain rfl | rfl := hcf
    · refine hsub _ ?_
      simp only at h ⊢
      cases hk : known g with
      | nil =>
        rw [hk] at h
        cases h
      | cons x l => exact foldl_mem lo_mem x l
    · refine hsub _ ?_
      simp only at h ⊢
      cases hk : known g with
      | nil =>
        rw [hk] at h
        cases h
      | cons x l => exact foldl_mem hi_mem x l

lemma mem_of_mem_groups {n : ℕ} {l g : List RrdValue} (hg : g ∈ groups n l) {x : RrdValue}
    (hx : x ∈ g) : x ∈ l := by
  obtain ⟨i, -, rfl⟩ := List.mem_map.1 hg
  exact List.mem_of_mem_drop (List.mem_of_mem_take hx)

/-- What is expected of the rows that an archive hands out for the updates `us`: they are the rows of
the groups, an infinite minimum or maximum is one of the points, and sending the points one by one
gives the same rows. -/
def ConsolidatesExactly (rra : RraDef) (c : CdpPrep) (procPdpCnt : ℕ) (us : List (RrdValue × ℕ)) :
    Prop :=
  cdpRows rra.cf rra.pdpCnt rra.xff c procPdpCnt us =
      (groups rra.pdpCnt (expand us)).map (cdpOf rra.cf rra.pdpCnt rra.xff) ∧
    (rra.cf = .minimum ∨ rra.cf = .maximum →
      ∀ v ∈ cdpRows rra.cf rra.pdpCnt rra.xff c procPdpCnt us, v.isinf → v ∈ expand us) ∧
    cdpRows rra.cf rra.pdpCnt rra.xff c procPdpCnt (singles us) =
      cdpRows rra.cf rra.pdpCnt rra.xff c procPdpCnt us

/-- `init_cdp` on a row boundary leaves an empty group. -/
lemma tracks_initCdp {rra : RraDef} {lastUp pdpStep} (hcf : rra.cf.isPlain) (valid : rra.Valid)
    (pos : 0 < pdpStep) (boundary : lastUp / pdpStep % rra.pdpCnt = 0) :
    Tracks rra.cf rra.pdpCnt [] (initCdp lastUp pdpStep rra (resetPdpPrep lastUp pdpStep)) := by
  refine ⟨valid.pdpCnt_pos, by simp, ?_, ?_⟩
  · rw [initCdp_unknPdpCnt hcf pos, boundary]
    rfl
  · have hval : (initCdp lastUp pdpStep rra (resetPdpPrep lastUp pdpStep)).val = .nan := by
      unfold initCdp
      split
      all_goals first | rfl | simp_all [Cf.isPlain]
    rw [hval]
    exact valTracks_nan rra.cf

/-- From a row boundary on, an archive with a plain consolidation function hands out the rows of the
groups of primary data points, for every sequence of updates under exactly the condition that no sum
of an `AVERAGE` group with both infinities was started anew in vain. -/
theorem consolidatesExactly_iff {rra : RraDef} {lastUp pdpStep us} (hcf : rra.cf.isPlain)
    (valid : rra.Valid) (pos : 0 < pdpStep)
    (boundary : lastUp % (pdpStep * rra.pdpCnt) = 0) (hus : ∀ u ∈ us, 1 ≤ u.2) :
    ConsolidatesExactly rra (initCdp lastUp pdpStep rra (resetPdpPrep lastUp pdpStep))
        (lastUp / pdpStep) us ↔
      rowsExact rra.cf rra.pdpCnt rra.xff [] us ∧
        rowsExact rra.cf rra.pdpCnt rra.xff [] (singles us) := by
  obtain ⟨q, hxff, hq0, hq⟩ := valid.xff hcf
  have hp : lastUp / pdpStep % rra.pdpCnt = 0 := by
    rw [← Nat.mod_mul_right_div_self, boundary, Nat.zero_div]
  have ht := tracks_initCdp hcf valid pos hp
  have hsingles : ∀ u ∈ singles us, 1 ≤ u.2 := by
    intro u hu
    obtain ⟨x, -, rfl⟩ := List.mem_map.1 hu
    exact le_refl 1
  have hiff := cdpRows_eq_iff hcf valid.pdpCnt_pos valid.pdpCnt_lt hq0 hq ht hp hus
  have hiff' := cdpRows_eq_iff hcf valid.pdpCnt_pos valid.pdpCnt_lt hq0 hq ht hp hsingles
  rw [expand_nil, List.nil_append, ← hxff] at hiff hiff'
  rw [expand_singles] at hiff'
  unfold ConsolidatesExactly
  rw [← hiff, ← hiff']
  constructor
  · rintro ⟨h, -, h'⟩
    exact ⟨h, h'.trans h⟩
  · rintro ⟨h, h'⟩
    refine ⟨h, fun hext v hv hinf => ?_, h'.trans h.symm⟩
    rw [h] at hv
    obtain ⟨g, hg, rfl⟩ := List.mem_map.1 hv
    exact mem_of_mem_groups hg (cdpOf_mem hext hinf)

/-- Two bulk updates over four groups of an `AVERAGE` archive. -/
theorem consolidatesExactly_bulk :
    ConsolidatesExactly (plainRra .average 10 3 (1 / 2))
      (initCdp 900 100 (plainRra .average 10 3 (1 / 2)) (resetPdpPrep 900 100)) (900 / 100)
      [(.fin 4, 2), (.nan, 3), (.pinf, 7)] :=
  (consolidatesExactly_iff (by decide) ⟨by decide, by decide, by decide, fun _ =>
    ⟨1 / 2, rfl, by norm_num, by norm_num⟩⟩ (by decide) (by decide) (by decide)).2
    (by decide +kernel)

/-- A sum that cancelled is started anew: the mean of `∞`, `-∞` and `5` comes out as `5/3`. -/
theorem average_restarts_after_opposite_infinities :
    cdpRows .average 3 (.fin (1 / 2))
        (initCdp 900 100 (plainRra .average 10 3 (1 / 2)) (resetPdpPrep 900 100)) (900 / 100)
        [(.pinf, 1), (.ninf, 1), (.fin 5, 1)] = [.fin (5 / 3)] ∧
      cdpOf .average 3 (.fin (1 / 2)) [.pinf, .ninf, .fin 5] = .nan ∧
      ¬ ConsolidatesExactly (plainRra .average 10 3 (1 / 2))
        (initCdp 900 100 (plainRra .average 10 3 (1 / 2)) (resetPdpPrep 900 100)) (900 / 100)
        [(.pinf, 1), (.ninf, 1), (.fin 5, 1)] := by
  refine ⟨by decide +kernel, by decide +kernel, fun h => ?_⟩
  exact absurd h.1 (by decide +kernel)

end Rrdtool
