import Rrdtool.Rpn.Calc

/-!
# Safety of the stack

Which operators of `rpn_calc` stay inside the stack. Those with a fixed number of operands always do, because
the stack has room for five values more before each of them (`Room`) and the number of operands is checked. The
others take a count from the stack, and it depends on that count (`OperandsOk`). `rpnCalc_safe_iff` says this for
whole programs.
-/

namespace Rrdtool

open Checked

variable {m : Machine} {st : CalcState} {P : CalcState → Prop}

/-! ### Accesses -/

@[simp] lemma to_stptr (p : ℤ) : (st.to p).stptr = p := rfl
@[simp] lemma to_dcStacksize (p : ℤ) : (st.to p).dcStacksize = st.dcStacksize := rfl
@[simp] lemma to_s (p : ℤ) : (st.to p).s = st.s := rfl

@[simp] lemma safe_rd {P : RrdValue → Prop} {top i : ℤ} :
    Safe P (rd st top i) ↔ (0 ≤ i ∧ i ≤ top) ∧ P (st.s i) := by
  unfold rd
  split <;> simp_all

@[simp] lemma safe_wr {i : ℤ} {v : RrdValue} :
    Safe P (wr st i v) ↔ (0 ≤ i ∧ i < st.dcStacksize) ∧ P { st with s := Function.update st.s i v } := by
  unfold wr
  split <;> simp_all

@[simp] lemma safe_stackunderflow {P : Unit → Prop} {n : ℤ} :
    Safe P (stackunderflow st n) ↔ (n ≤ st.stptr → P ()) := by
  unfold stackunderflow
  split
  · simp only [safe_error, true_iff]
    omega
  · simp only [safe_ok]
    exact ⟨fun h _ => h, fun h => h (by omega)⟩

/-- The stack is allocated up to its top. -/
def Bounded (st : CalcState) : Prop := -1 ≤ st.stptr ∧ st.stptr ≤ st.dcStacksize

/-- There is room for five more values. -/
def Room (st : CalcState) : Prop := -1 ≤ st.stptr ∧ st.stptr + 5 ≤ st.dcStacksize

lemma grow_room (h : Bounded st) : Room (grow st) := by
  obtain ⟨hlow, hhigh⟩ := h
  unfold grow
  split
  · refine ⟨hlow, ?_⟩
    show st.stptr + 5 ≤ st.dcStacksize + 1000
    omega
  · exact ⟨hlow, by omega⟩

/-- Only the values of the stack are changed. -/
def SameFrame (st st' : CalcState) : Prop :=
  st'.stptr = st.stptr ∧ st'.dcStacksize = st.dcStacksize

lemma SameFrame.refl (st : CalcState) : SameFrame st st := ⟨rfl, rfl⟩

/-! ### Blocks and loops -/

lemma readBlock_ok {top lo : ℤ} {n : ℕ} (h0 : 0 ≤ lo) (h : lo + n ≤ top + 1) :
    ∃ xs, readBlock st top lo n = .ok xs ∧ xs.length = n := by
  induction n generalizing lo with
  | zero => exact ⟨[], rfl, rfl⟩
  | succ n ih =>
    push_cast at h
    obtain ⟨xs, hxs, hlen⟩ := @ih (lo + 1) (by omega) (by omega)
    refine ⟨st.s lo :: xs, ?_, by rw [List.length_cons, hlen]⟩
    have hrd : rd st top lo = .ok (st.s lo) := if_pos ⟨h0, by omega⟩
    rw [readBlock, hrd, ok_bind, hxs, ok_bind]

/-- A block that is read safely is inside the stack. -/
lemma readBlock_bounds {top lo : ℤ} {n : ℕ} (h : NoFault (readBlock st top lo n)) (hn : n ≠ 0) :
    0 ≤ lo ∧ lo + n ≤ top + 1 := by
  induction n generalizing lo with
  | zero => exact absurd rfl hn
  | succ n ih =>
    simp only [NoFault, readBlock, safe_bind, safe_rd] at h
    obtain ⟨hlo, htail⟩ := h
    cases n with
    | zero => simpa using hlo
    | succ n =>
      have hrest := ih (Safe.noFault htail) (Nat.succ_ne_zero n)
      push_cast at hrest ⊢
      omega

lemma writeBlock_ok {lo : ℤ} {xs : List RrdValue} (h0 : 0 ≤ lo) (h : lo + xs.length ≤ st.dcStacksize) :
    ∃ st', writeBlock st lo xs = .ok st' ∧ SameFrame st st' := by
  induction xs generalizing lo st with
  | nil => exact ⟨st, rfl, SameFrame.refl st⟩
  | cons x xs ih =>
    rw [List.length_cons, Nat.cast_succ] at h
    have hwr : wr st lo x = .ok { st with s := Function.update st.s lo x } := if_pos ⟨h0, by omega⟩
    obtain ⟨st', hst', hsame⟩ := @ih { st with s := Function.update st.s lo x } (lo + 1) (by omega)
      (show lo + 1 + xs.length ≤ st.dcStacksize by omega)
    exact ⟨st', by rw [writeBlock, hwr, ok_bind, hst'], hsame⟩

lemma sortBlock_ok {top lo n : ℤ} (hn : 0 ≤ n) (h0 : 0 ≤ lo) (htop : lo + n ≤ top + 1) (hdc : top < st.dcStacksize) :
    ∃ st', sortBlock st top lo n = .ok st' ∧ SameFrame st st' := by
  obtain ⟨xs, hxs, hlen⟩ := @readBlock_ok st top lo n.toNat h0 (by omega)
  have hlen' : (qsort xs).length = n.toNat := by rw [qsort, List.length_insertionSort, hlen]
  obtain ⟨st', hst', hsame⟩ := @writeBlock_ok st lo (qsort xs) h0 (by rw [hlen']; omega)
  exact ⟨st', by rw [sortBlock, if_neg (by omega), hxs, ok_bind, hst'], hsame⟩

lemma safe_sortBlock {top lo n : ℤ} (hn : 0 ≤ n) (h0 : 0 ≤ lo) (htop : lo + n ≤ top + 1) (hdc : top < st.dcStacksize) :
    Safe (SameFrame st) (sortBlock st top lo n) := by
  obtain ⟨st', hst', hsame⟩ := sortBlock_ok hn h0 htop hdc
  rw [hst']
  exact hsame

lemma sortBlock_nonneg {top lo n : ℤ} (h : NoFault (sortBlock st top lo n)) : 0 ≤ n := by
  by_contra hn
  rw [sortBlock, if_pos (by omega)] at h
  exact not_safe_fault _ h

lemma safe_revLoop {fuel : ℕ} {p q : ℤ} (hp : 0 ≤ p) (hq : q ≤ st.stptr) (hdc : st.stptr < st.dcStacksize) :
    Safe (SameFrame st) (revLoop fuel p q st) := by
  induction fuel generalizing p q st with
  | zero => exact SameFrame.refl st
  | succ fuel ih =>
    simp only [revLoop, safe_ite, safe_bind, safe_rd, safe_wr, safe_ok]
    refine ⟨fun hpq => ⟨⟨by omega, hq⟩, ⟨hp, by omega⟩, ⟨by omega, by omega⟩, ⟨hp, by omega⟩, ?_⟩, fun _ =>
      SameFrame.refl st⟩
    refine Safe.mono (ih ?_ ?_ hdc) fun st' hst' => hst'
    · omega
    · show q - 1 ≤ st.stptr
      omega

lemma safe_popLoop {n : ℕ} (h : n ≤ st.stptr + 1) :
    Safe (fun r => r.2.stptr = st.stptr - n ∧ r.2.dcStacksize = st.dcStacksize)
      (popLoop n st) := by
  induction n generalizing st with
  | zero => simp [popLoop]
  | succ n ih =>
    simp only [popLoop, safe_bind, safe_rd, safe_ok]
    push_cast at h ⊢
    refine ⟨⟨by omega, le_rfl⟩, Safe.mono (ih ?_) ?_⟩
    · rw [to_stptr]
      omega
    · rintro r ⟨hptr, hdc⟩
      refine ⟨?_, hdc⟩
      rw [hptr, to_stptr]
      omega

lemma safe_popCounted {n : ℤ} (hn : 0 ≤ n) (h : n ≤ st.stptr + 1) :
    Safe (fun r => r.2.stptr = st.stptr - n ∧ r.2.dcStacksize = st.dcStacksize)
      (popCounted n st) := by
  unfold popCounted
  rw [if_neg (by omega)]
  refine Safe.mono (safe_popLoop ?_) fun r hr => ?_
  · omega
  · rwa [Int.toNat_of_nonneg hn] at hr

lemma popCounted_nonneg {n : ℤ} (h : NoFault (popCounted n st)) : 0 ≤ n := by
  by_contra hn
  rw [popCounted, if_pos (by omega)] at h
  exact not_safe_fault _ h

lemma safe_medianLoop {fuel : ℕ} {lo goodvals badvals finalElements : ℤ} (h0 : 0 ≤ lo) (hlo : lo ≤ goodvals)
    (hle : goodvals ≤ badvals) (hbad : badvals ≤ st.stptr) (hdc : st.stptr < st.dcStacksize)
    (hfinal : finalElements = badvals - lo + 1) :
    Safe (fun r => SameFrame st r.2.2 ∧ (lo ≤ r.1 ∧ r.1 ≤ st.stptr) ∧ 1 ≤ r.2.1 ∧ r.2.1 ≤ st.stptr - lo + 1)
      (medianLoop fuel goodvals badvals finalElements st) := by
  induction fuel generalizing goodvals badvals finalElements st with
  | zero =>
    show SameFrame st st ∧ (lo ≤ goodvals ∧ goodvals ≤ st.stptr) ∧ 1 ≤ finalElements ∧ finalElements ≤ st.stptr - lo + 1
    exact ⟨SameFrame.refl st, ⟨hlo, by omega⟩, by omega, by omega⟩
  | succ fuel ih =>
    simp only [medianLoop, safe_ite, safe_bind, safe_rd, safe_wr, safe_ok]
    refine ⟨fun hlt => ⟨⟨by omega, by omega⟩, fun _ => ⟨⟨by omega, by omega⟩, ⟨by omega, by omega⟩, ?_⟩, fun _ => ?_⟩,
      fun _ => ⟨SameFrame.refl st, ⟨hlo, by omega⟩, by omega, by omega⟩⟩
    · refine Safe.mono (ih hlo ?_ ?_ hdc ?_) fun r hr => hr
      · omega
      · show badvals - 1 ≤ st.stptr
        omega
      · omega
    · exact ih (by omega) (by omega) hbad hdc hfinal

lemma safe_rollLoop {base j : ℤ} {tmpStack : List RrdValue} {n : ℕ} (hn : n ≤ st.stptr + 1)
    (hdc : st.stptr < st.dcStacksize) : Safe (SameFrame st) (rollLoop base tmpStack n j st) := by
  induction n generalizing j st with
  | zero => exact SameFrame.refl st
  | succ n ih =>
    push_cast at hn
    simp only [rollLoop, safe_bind, safe_wr]
    refine ⟨⟨by omega, by omega⟩, Safe.mono (ih ?_ hdc) fun st' hst' => hst'⟩
    show (n : ℤ) ≤ st.stptr + 1
    omega

/-- The size of the stack after `OP_COPY` has made it larger. -/
lemma growLoop_spec {need dc : ℤ} {fuel : ℕ} (hfuel : need - dc ≤ fuel) :
    need ≤ growLoop need fuel dc ∧ dc ≤ growLoop need fuel dc ∧
      (growLoop need fuel dc = need ↔ dc ≤ need ∧ dcStackblock ∣ need - dc) := by
  induction fuel generalizing dc with
  | zero =>
    simp only [growLoop, dcStackblock]
    push_cast at hfuel
    omega
  | succ fuel ih =>
    have hrest := @ih (dc + dcStackblock)
    simp only [growLoop]
    simp only [dcStackblock] at hrest ⊢
    push_cast at hfuel
    split
    · obtain ⟨h1, h2, h3⟩ := hrest (by omega)
      refine ⟨h1, by omega, h3.trans ?_⟩
      omega
    · omega

lemma safe_copyLoop {base : ℤ} {n : ℕ} (h0 : 0 ≤ base) (hbase : base ≤ st.stptr + 1)
    (hdc : st.stptr + n < st.dcStacksize ∨ n = 0) :
    Safe (fun st' => st'.stptr = st.stptr + n ∧ st'.dcStacksize = st.dcStacksize)
      (copyLoop base n st) := by
  induction n generalizing st with
  | zero => simp [copyLoop]
  | succ n ih =>
    simp only [Nat.cast_succ, Nat.add_eq_zero_iff, one_ne_zero, and_false, or_false] at hdc
    simp only [copyLoop, safe_bind, safe_rd, safe_wr, to_stptr, to_dcStacksize]
    refine ⟨⟨by omega, by omega⟩, ⟨by omega, by omega⟩, Safe.mono (ih ?_ (.inl ?_)) ?_⟩
    · show base ≤ st.stptr + 1 + 1
      omega
    · show st.stptr + 1 + n < st.dcStacksize
      omega
    · rintro st' ⟨hptr, hsize⟩
      refine ⟨?_, hsize⟩
      rw [hptr]
      show st.stptr + 1 + n = st.stptr + (n + 1 : ℕ)
      push_cast
      omega

lemma copyLoop_bounds {base : ℤ} {n : ℕ} (h : NoFault (copyLoop base n st)) (hn : n ≠ 0) :
    st.stptr + n < st.dcStacksize := by
  induction n generalizing st with
  | zero => exact absurd rfl hn
  | succ n ih =>
    simp only [NoFault, copyLoop, safe_bind, safe_rd, safe_wr, to_stptr, to_dcStacksize] at h
    obtain ⟨-, ⟨-, hwrite⟩, hrest⟩ := h
    cases n with
    | zero => simpa using hwrite
    | succ n =>
      have htail := ih hrest (Nat.succ_ne_zero n)
      have hptr : st.stptr + 1 + (n + 1 : ℕ) < st.dcStacksize := htail
      push_cast at hptr ⊢
      omega

lemma safe_predictLoop {call : Call} {prev : CalcNode} {top shifts locstep : ℤ} {n loop : ℕ}
    (hneg : shifts < 0 → 0 ≤ st.stptr) (hpos : 0 ≤ shifts → 0 ≤ st.stptr ∧ st.stptr + loop + n ≤ top + 1) :
    NoFault (predictLoop m call prev st top shifts locstep n loop) := by
  induction n generalizing loop with
  | zero => exact trivial
  | succ n ih =>
    push_cast at hpos
    simp only [NoFault, predictLoop, safe_bind, safe_ite, safe_rd, safe_error, safe_ok]
    have hrest : NoFault (predictLoop m call prev st top shifts locstep n (loop + 1)) :=
      ih fun h => ⟨(hpos h).1, by push_cast; have := hpos h; omega⟩
    refine ⟨fun h => ⟨⟨hneg h, le_rfl⟩, fun _ => trivial, fun _ => hrest⟩, fun h => ?_⟩
    obtain ⟨h0, htop⟩ := hpos (not_lt.1 h)
    exact ⟨⟨by omega, by omega⟩, fun _ => trivial, fun _ => hrest⟩

lemma predictLoop_nonneg {call : Call} {prev : CalcNode} {top shifts locstep : ℤ} {n loop : ℕ} (hshifts : shifts < 0)
    (hn : n ≠ 0) (h : NoFault (predictLoop m call prev st top shifts locstep n loop)) : 0 ≤ st.stptr := by
  obtain ⟨n, rfl⟩ := Nat.exists_eq_succ_of_ne_zero hn
  simp only [NoFault, predictLoop, if_pos hshifts, safe_bind, safe_rd] at h
  exact h.1.1

/-- The loop of `OP_TREND` ends if the time gets shorter or is over at once. -/
lemma noFault_trendLoop {var : CalcNode} {ignorenan : Bool} {step dur i : ℤ} {accum : RrdValue} {count fuel : ℕ}
    (hstep : 0 < step ∨ dur ≤ step) (hfuel : dur < fuel) (hpos : 0 < fuel) :
    NoFault (trendLoop var ignorenan step fuel dur i accum count) := by
  induction fuel generalizing dur i accum count with
  | zero => exact absurd hpos (lt_irrefl 0)
  | succ fuel ih =>
    push_cast at hfuel
    simp only [NoFault, trendLoop, safe_ite, safe_ok, implies_true, and_true]
    intro hdur
    exact ih (.inl (by omega)) (by omega) (by omega)

lemma trendLoop_ends {var : CalcNode} {ignorenan : Bool} {step dur i : ℤ} {accum : RrdValue} {count fuel : ℕ}
    (h : NoFault (trendLoop var ignorenan step fuel dur i accum count)) : 0 < step ∨ dur ≤ step := by
  induction fuel generalizing dur i accum count with
  | zero => exact absurd h (not_safe_fault _)
  | succ fuel ih =>
    by_contra hnot
    simp only [NoFault, trendLoop, safe_ite, safe_ok, implies_true, and_true] at h
    have hrest := ih (h (by omega))
    omega

/-! ### Operators -/

section Operators

variable {call : Call} {f : RrdValue → RrdValue}

lemma SameFrame.bounded {st' : CalcState} {p : ℤ} (h : SameFrame (st.to p) st') (hlow : -1 ≤ p)
    (hhigh : p ≤ st.dcStacksize) : Bounded st' := by
  obtain ⟨hptr, hdc⟩ := h
  rw [to_stptr] at hptr
  rw [to_dcStacksize] at hdc
  exact ⟨by omega, by omega⟩

lemma safe_push {v : RrdValue} (h0 : -1 ≤ st.stptr) (h : st.stptr + 1 < st.dcStacksize) :
    Safe Bounded (push st v) := by
  simp only [push, safe_wr, to_stptr, to_dcStacksize]
  exact ⟨⟨by omega, h⟩, show -1 ≤ st.stptr + 1 by omega, show st.stptr + 1 ≤ st.dcStacksize by omega⟩

lemma safe_unary (h : Room st) : Safe Bounded (unary f st) := by
  obtain ⟨hlow, hhigh⟩ := h
  simp only [unary, safe_bind, safe_stackunderflow, safe_rd, safe_wr]
  intro h0
  exact ⟨⟨h0, le_rfl⟩, ⟨h0, by omega⟩, hlow, show st.stptr ≤ st.dcStacksize by omega⟩

lemma safe_binary {f : RrdValue → RrdValue → RrdValue} (h : Room st) : Safe Bounded (binary f st) := by
  obtain ⟨hlow, hhigh⟩ := h
  simp only [binary, safe_bind, safe_stackunderflow, safe_rd, safe_wr, safe_ok]
  intro h0
  exact ⟨⟨by omega, by omega⟩, ⟨by omega, le_rfl⟩, ⟨by omega, by omega⟩, show -1 ≤ st.stptr - 1 by omega,
    show st.stptr - 1 ≤ st.dcStacksize by omega⟩

lemma safe_ternary {f : RrdValue → RrdValue → RrdValue → RrdValue} (h : Room st) : Safe Bounded (ternary f st) := by
  obtain ⟨hlow, hhigh⟩ := h
  simp only [ternary, safe_bind, safe_stackunderflow, safe_rd, safe_wr, safe_ok]
  intro h0
  exact ⟨⟨by omega, by omega⟩, ⟨by omega, by omega⟩, ⟨by omega, le_rfl⟩, ⟨by omega, by omega⟩,
    show -1 ≤ st.stptr - 2 by omega, show st.stptr - 2 ≤ st.dcStacksize by omega⟩

lemma safe_opVariable {n : CalcNode} (h : Room st) : Safe Bounded (opVariable call n st) := by
  obtain ⟨hlow, hhigh⟩ := h
  simp only [opVariable, safe_ite, safe_error, implies_true, true_and]
  exact fun _ => safe_push hlow (by omega)

/-- The count on the top of the stack. -/
@[grind] def count (m : Machine) (st : CalcState) : ℤ := toInt m (st.s st.stptr)

@[simp] lemma safe_takeCount {P : ℤ × CalcState → Prop} :
    Safe P (takeCount m st) ↔ (0 ≤ st.stptr → count m st ≤ st.stptr → P (count m st, st.to (st.stptr - 1))) := by
  simp only [takeCount, safe_bind, safe_stackunderflow, safe_rd, safe_ok, to_stptr]
  constructor
  · intro h h0 hle
    exact (h h0).2 (Int.sub_le_sub_right hle 1)
  · intro h h0
    exact ⟨⟨h0, le_rfl⟩, fun hle => h h0 (Int.le_of_sub_le_sub_right hle)⟩

lemma safe_opSort (h : Room st) (hn : 0 ≤ st.stptr → 0 ≤ count m st) : Safe Bounded (opSort m st) := by
  obtain ⟨hlow, hhigh⟩ := h
  simp only [opSort, safe_bind, safe_takeCount, to_stptr]
  intro h0 hle
  have hpos := hn h0
  refine Safe.mono (safe_sortBlock hpos ?_ ?_ ?_) fun st' hst' => hst'.bounded ?_ ?_
  · omega
  · omega
  · rw [to_dcStacksize]
    omega
  · omega
  · omega

lemma opSort_count (h : NoFault (opSort m st)) : 0 ≤ st.stptr → 0 ≤ count m st := by
  intro h0
  simp only [NoFault, opSort, safe_bind, safe_takeCount] at h
  by_contra hneg
  exact hneg (sortBlock_nonneg (h h0 (by omega)))

lemma safe_opRev (h : Room st) : Safe Bounded (opRev m st) := by
  obtain ⟨hlow, hhigh⟩ := h
  simp only [opRev, safe_bind, safe_takeCount, to_stptr]
  intro h0 hle
  refine Safe.mono (safe_revLoop ?_ le_rfl ?_) fun st' hst' => hst'.bounded ?_ ?_
  · omega
  · rw [to_stptr, to_dcStacksize]
    omega
  · omega
  · omega

/-- The result of a counted operator has its place below the values that it took. -/
lemma safe_push_popped {st' : CalcState} {v : RrdValue} {n : ℤ} (h : Room st) (hn : 0 ≤ n) (hle : n ≤ st.stptr)
    (hptr : st'.stptr = st.stptr - 1 - n) (hdc : st'.dcStacksize = st.dcStacksize) : Safe Bounded (push st' v) := by
  obtain ⟨hlow, hhigh⟩ := h
  exact safe_push (by omega) (by omega)

lemma safe_opAvg (h : Room st) : Safe Bounded (opAvg m st) := by
  simp only [opAvg, safe_bind, safe_takeCount]
  intro h0 hle
  refine Safe.mono (safe_popLoop ?_) fun r hr => safe_push_popped h (Int.natCast_nonneg _) ?_ hr.1 hr.2
  · rw [to_stptr]
    omega
  · omega

lemma safe_opStdev (h : Room st) (hn : 0 ≤ st.stptr → 0 ≤ count m st) : Safe Bounded (opStdev m st) := by
  simp only [opStdev, safe_bind, safe_takeCount]
  intro h0 hle
  refine Safe.mono (safe_popCounted (hn h0) ?_) fun r hr => safe_push_popped h (hn h0) hle hr.1 hr.2
  rw [to_stptr]
  omega

lemma opStdev_count (h : NoFault (opStdev m st)) : 0 ≤ st.stptr → 0 ≤ count m st := by
  intro h0
  simp only [NoFault, opStdev, safe_bind, safe_takeCount] at h
  by_contra hneg
  exact hneg (popCounted_nonneg (Safe.noFault (h h0 (by omega))))

lemma safe_opXimum {better : RrdValue → RrdValue → Bool} (h : Room st) (hn : 0 ≤ st.stptr → 0 ≤ count m st) :
    Safe Bounded (opXimum better m st) := by
  simp only [opXimum, safe_bind, safe_takeCount]
  intro h0 hle
  refine Safe.mono (safe_popCounted (hn h0) ?_) fun r hr => safe_push_popped h (hn h0) hle hr.1 hr.2
  rw [to_stptr]
  omega

lemma opXimum_count {better : RrdValue → RrdValue → Bool} (h : NoFault (opXimum better m st)) :
    0 ≤ st.stptr → 0 ≤ count m st := by
  intro h0
  simp only [NoFault, opXimum, safe_bind, safe_takeCount] at h
  by_contra hneg
  exact hneg (popCounted_nonneg (Safe.noFault (h h0 (by omega))))

lemma safe_opMedian (h : Room st) (hn : 0 ≤ st.stptr → 1 ≤ count m st) : Safe Bounded (opMedian m st) := by
  obtain ⟨hlow, hhigh⟩ := h
  simp only [opMedian, safe_bind, safe_takeCount, to_stptr]
  intro h0 hle
  have hpos := hn h0
  have hdc : (st.to (st.stptr - 1)).stptr < (st.to (st.stptr - 1)).dcStacksize := by
    rw [to_stptr, to_dcStacksize]
    omega
  refine Safe.mono (safe_medianLoop ?_ le_rfl ?_ le_rfl hdc ?_) ?_
  · omega
  · omega
  · omega
  rintro ⟨goodvals, finalElements, st'⟩ ⟨⟨hptr, hsize⟩, ⟨hlo, htop⟩, hge, hmax⟩
  simp only [to_stptr, to_dcStacksize] at hptr hsize hlo htop hge hmax
  simp only [safe_rd]
  refine ⟨⟨by omega, htop⟩, ?_⟩
  -- the last pointer may stand on an unknown value
  generalize hfin : (if (st'.s goodvals).isnan = true then finalElements - 1 else finalElements) = n
  have hn : 0 ≤ n ∧ n ≤ finalElements := by
    rw [← hfin]
    split <;> omega
  have hplace : ∀ v st'', SameFrame (st'.to (st'.stptr - count m st)) st'' → Safe Bounded (push st'' v) := by
    rintro v st'' ⟨hptr', hdc'⟩
    rw [to_stptr] at hptr'
    rw [to_dcStacksize] at hdc'
    exact safe_push (by omega) (by omega)
  simp only [safe_ite, safe_bind, safe_rd]
  refine ⟨fun _ => hplace _ _ (SameFrame.refl _), fun hne => Safe.mono (safe_sortBlock ?_ ?_ ?_ ?_) ?_⟩
  · exact hn.1
  · omega
  · omega
  · rw [to_dcStacksize]
    omega
  intro st'' hst''
  exact ⟨⟨by omega, by omega⟩, fun _ => hplace _ _ hst'', fun heven => ⟨⟨by omega, by omega⟩, hplace _ _ hst''⟩⟩

lemma opMedian_count (h : NoFault (opMedian m st)) : 0 ≤ st.stptr → 1 ≤ count m st := by
  intro h0
  simp only [NoFault, opMedian, safe_bind, safe_takeCount, to_stptr] at h
  by_contra hneg
  have hfuel : (count m st - 1).toNat = 0 := by omega
  have hloop := h h0 (by omega)
  simp only [hfuel, medianLoop, safe_ok, safe_rd] at hloop
  omega

lemma toInt_lt (v : RrdValue) : toInt m v < 2 ^ 31 := by
  have hwild : ∀ z : ℤ, s32 z < 2 ^ 31 := fun z => by
    have h := BitVec.toInt_lt (x := BitVec.ofInt 32 z)
    exact h
  unfold toInt
  split
  · rename_i q
    split
    · rename_i hq
      unfold truncate
      split
      · exact Int.floor_lt.2 (by exact_mod_cast hq.2)
      · rename_i hneg
        have hle : ⌈q⌉ ≤ 0 := Int.ceil_le.2 (by push_cast; exact (not_le.1 hneg).le)
        omega
    · exact hwild _
  · exact hwild _

lemma toInt_intCast {k : ℤ} (h0 : 0 ≤ k) (h : k < 2 ^ 31) : toInt m (.fin k) = k := by
  have hlow : (-2 ^ 31 - 1 : ℚ) < k := by
    have hk : (0 : ℚ) ≤ k := by exact_mod_cast h0
    linarith
  have hhigh : (k : ℚ) < 2 ^ 31 := by exact_mod_cast h
  simp only [toInt, if_pos (And.intro hlow hhigh), truncate, Int.floor_intCast, Int.ceil_intCast, ite_self]

/-- The place of a percentile among the sorted values. -/
@[grind] def percentPlace (m : Machine) (percent : RrdValue) (elements : ℤ) : ℤ :=
  toInt m (onFinite roundAway (percent * .fin elements / .fin 100))

lemma percentPlace_bounds {percent : RrdValue} {n : ℤ} (hknown : percent ≠ .nan) (h0 : ¬ percent < 0)
    (h100 : ¬ .fin 100 < percent) (hn : 0 ≤ n) (hlt : n < 2 ^ 31) :
    0 ≤ percentPlace m percent n ∧ percentPlace m percent n ≤ n := by
  cases percent with
  | nan => exact absurd rfl hknown
  | ninf => exact absurd rfl h0
  | pinf => exact absurd rfl h100
  | fin q =>
    have hq0 : 0 ≤ q := not_lt.1 fun h => h0 ((ExtNum.fin_lt_fin q 0).2 h)
    have hq100 : q ≤ 100 := not_lt.1 fun h => h100 ((ExtNum.fin_lt_fin 100 q).2 h)
    have hnq : (0 : ℚ) ≤ n := by exact_mod_cast hn
    have hplace : 0 ≤ q * n / 100 ∧ q * n / 100 ≤ n :=
      ⟨by positivity, by rw [div_le_iff₀ (by norm_num)]; nlinarith⟩
    have hround0 : 0 ≤ ⌊q * n / 100 + 1 / 2⌋ := Int.floor_nonneg.2 (by linarith [hplace.1])
    have hroundn : ⌊q * n / 100 + 1 / 2⌋ ≤ n := by
      refine Int.lt_add_one_iff.1 (Int.floor_lt.2 ?_)
      push_cast
      linarith [hplace.2]
    have heq : percentPlace m (.fin q) n = ⌊q * n / 100 + 1 / 2⌋ := by
      unfold percentPlace
      rw [ExtNum.fin_mul_fin, ExtNum.fin_div_fin (by norm_num), onFinite, roundAway, if_pos hplace.1]
      exact toInt_intCast hround0 (by omega)
    rw [heq]
    exact ⟨hround0, hroundn⟩

/-- The operands of `OP_PERCENT`: a value below the block is read for a small percentage. -/
def PercentOk (m : Machine) (st : CalcState) : Prop :=
  let percent := st.s (st.stptr - 1)
  2 ≤ st.stptr → percent ≠ .nan → ¬ percent < 0 → ¬ .fin 100 < percent →
    0 ≤ count m st ∧ (count m st < st.stptr → 0 ≤ st.stptr - 2 - count m st + percentPlace m percent (count m st))

lemma safe_opPercent (h : Room st) (hn : PercentOk m st) : Safe Bounded (opPercent m st) := by
  obtain ⟨hlow, hhigh⟩ := h
  simp only [opPercent, safe_bind, safe_stackunderflow, safe_rd, to_stptr, safe_ite, safe_error, implies_true, true_and]
  refine fun h2 => ⟨⟨by omega, le_rfl⟩, ⟨by omega, le_rfl⟩, fun hper hle => ?_⟩
  simp only [ExtNum.isnan_eq_true, not_or] at hper
  obtain ⟨hpos, hbottom⟩ := hn h2 hper.1 hper.2.1 hper.2.2
  obtain ⟨hplace0, hplacen⟩ := @percentPlace_bounds m _ _ hper.1 hper.2.1 hper.2.2 hpos (toInt_lt _)
  unfold count at hpos hbottom hplacen hplace0
  have hbot := hbottom (by omega)
  refine Safe.mono (safe_sortBlock hpos ?_ ?_ ?_) ?_
  · omega
  · omega
  · rw [to_dcStacksize]
    omega
  rintro st' ⟨hptr, hdc⟩
  rw [to_stptr] at hptr
  rw [to_dcStacksize] at hdc
  unfold percentPlace at hbot hplacen hplace0
  refine ⟨⟨by omega, by omega⟩, safe_push ?_ ?_⟩
  · rw [to_stptr]
    omega
  · rw [to_stptr, to_dcStacksize]
    omega

lemma opPercent_ok (h : NoFault (opPercent m st)) (hst : Room st) : PercentOk m st := by
  intro h2 hknown h0 h100
  simp only [NoFault, opPercent, safe_bind, safe_stackunderflow, safe_rd, to_stptr, safe_ite, safe_error, implies_true,
    true_and, ExtNum.isnan_eq_true, not_or] at h
  obtain ⟨-, -, hrun⟩ := h h2
  have hpos : 0 ≤ count m st := by
    by_contra hneg
    unfold count at hneg
    exact hneg (sortBlock_nonneg (Safe.noFault (hrun ⟨hknown, h0, h100⟩ (by omega))))
  refine ⟨hpos, fun hlt => ?_⟩
  unfold count at hpos hlt ⊢
  have hread := hrun ⟨hknown, h0, h100⟩ (by omega)
  obtain ⟨hlow, hhigh⟩ := hst
  obtain ⟨st', hst', hptr, -⟩ := @sortBlock_ok (st.to (st.stptr - 2)) _ _ _ hpos
    (show 0 ≤ st.stptr - 2 - toInt m (st.s st.stptr) + 1 by omega)
    (show _ ≤ st.stptr - 2 + 1 by omega) (by rw [to_dcStacksize]; omega)
  rw [hst', safe_ok, hptr, to_stptr] at hread
  exact hread.1.1

lemma safe_opIndex (h : Room st) (hn : 0 ≤ st.stptr → 0 ≤ count m st) : Safe Bounded (opIndex m st) := by
  obtain ⟨hlow, hhigh⟩ := h
  simp only [opIndex, safe_bind, safe_stackunderflow, safe_rd, safe_wr]
  refine fun h0 => ⟨⟨h0, le_rfl⟩, fun hle => ?_⟩
  have hpos := hn h0
  unfold count at hpos
  exact ⟨⟨by omega, by omega⟩, ⟨h0, by omega⟩, hlow, show st.stptr ≤ st.dcStacksize by omega⟩

lemma opIndex_count (h : NoFault (opIndex m st)) : 0 ≤ st.stptr → 0 ≤ count m st := by
  intro h0
  simp only [NoFault, opIndex, safe_bind, safe_stackunderflow, safe_rd, safe_wr] at h
  by_contra hneg
  unfold count at hneg
  have hread := (h h0).2 (by omega)
  omega

/-- The operands of `OP_ROLL`: it copies the block above the top, and not the one below it. -/
def RollOk (m : Machine) (st : CalcState) : Prop :=
  1 ≤ st.stptr → toInt m (st.s (st.stptr - 1)) < st.stptr → toInt m (st.s (st.stptr - 1)) ≤ 1

lemma safe_opRoll (h : Room st) (hn : RollOk m st) : Safe Bounded (opRoll m st) := by
  obtain ⟨hlow, hhigh⟩ := h
  simp only [opRoll, safe_bind, safe_stackunderflow, safe_rd, to_stptr, safe_ite, safe_error, implies_true, true_and]
  refine fun h1 => ⟨⟨by omega, le_rfl⟩, ⟨by omega, le_rfl⟩, fun hle hneg => ?_⟩
  have hone := hn h1 (by omega)
  have hloop : ∀ xs : List RrdValue, Safe Bounded (rollLoop (toInt m (st.s (st.stptr - 1))) xs
      (toInt m (st.s (st.stptr - 1))).toNat (toInt m (st.s (st.stptr - 1)) + toInt m (st.s st.stptr))
      (st.to (st.stptr - 2))) := by
    intro xs
    refine Safe.mono (safe_rollLoop ?_ ?_) fun st' hst' => hst'.bounded ?_ ?_
    · rw [to_stptr]
      omega
    · rw [to_stptr, to_dcStacksize]
      omega
    · omega
    · omega
  obtain hzero | hone' : (toInt m (st.s (st.stptr - 1))).toNat = 0 ∨ toInt m (st.s (st.stptr - 1)) = 1 := by omega
  · rw [hzero] at hloop ⊢
    exact hloop []
  · obtain ⟨xs, hxs, -⟩ := @readBlock_ok (st.to (st.stptr - 2)) (st.stptr - 2) (st.stptr - 2)
      (toInt m (st.s (st.stptr - 1))).toNat (by omega) (by omega)
    rw [hxs]
    exact hloop xs

lemma opRoll_ok (h : NoFault (opRoll m st)) : RollOk m st := by
  intro h1 hlt
  simp only [NoFault, opRoll, safe_bind, safe_stackunderflow, safe_rd, to_stptr, safe_ite, safe_error, implies_true,
    true_and] at h
  by_contra hbase
  obtain ⟨-, -, hrun⟩ := h h1
  have hblock := readBlock_bounds (Safe.noFault (hrun (by omega) (by omega))) (by omega)
  omega

/-- The operands of `OP_COPY`: there is a count, it is not negative, and the copy does not end exactly at the end
of the stack, which then is not made larger. -/
def CopyOk (m : Machine) (st : CalcState) : Prop :=
  0 ≤ st.stptr ∧ 0 ≤ count m st ∧
    (count m st ≤ st.stptr → count m st = 0 ∨ ¬ (st.dcStacksize ≤ st.stptr - 1 + count m st ∧
      dcStackblock ∣ st.stptr - 1 + count m st - st.dcStacksize))

lemma safe_opCopy (h : Room st) (hn : CopyOk m st) : Safe Bounded (opCopy m st) := by
  obtain ⟨hlow, hhigh⟩ := h
  obtain ⟨h0, hpos, hend⟩ := hn
  simp only [opCopy, safe_bind, safe_stackunderflow, safe_rd, to_stptr, safe_ite]
  refine ⟨⟨h0, le_rfl⟩, fun hle => ⟨fun hneg => absurd hpos (not_le.2 hneg), fun _ => ?_⟩⟩
  unfold count at hpos hend
  have hend' := hend (by omega)
  generalize toInt m (st.s st.stptr) = n at *
  obtain ⟨hneed, hsize, heq⟩ := @growLoop_spec (st.stptr - 1 + n) st.dcStacksize
    (st.stptr - 1 + n - st.dcStacksize).toNat (by omega)
  rw [to_dcStacksize]
  refine Safe.mono (safe_copyLoop hpos ?_ ?_) ?_
  · show n ≤ st.stptr - 1 + 1
    omega
  · show st.stptr - 1 + (n.toNat : ℤ) < growLoop _ _ _ ∨ _
    obtain rfl | hend' := hend'
    · exact .inr rfl
    · rw [← heq] at hend'
      refine .inl ?_
      rw [Int.toNat_of_nonneg hpos]
      omega
  · rintro st' ⟨hptr, hdc⟩
    have hptr' : st'.stptr = st.stptr - 1 + n.toNat := hptr
    have hdc' : st'.dcStacksize = growLoop _ _ _ := hdc
    exact ⟨by omega, by omega⟩

lemma opCopy_ok (h : NoFault (opCopy m st)) : CopyOk m st := by
  simp only [NoFault, opCopy, safe_bind, safe_stackunderflow, safe_rd, to_stptr, safe_ite] at h
  obtain ⟨⟨h0, -⟩, hrun⟩ := h
  have hpos : 0 ≤ count m st := by
    by_contra hneg
    unfold count at hneg
    exact not_safe_fault _ ((hrun (by omega)).1 (by omega))
  refine ⟨h0, hpos, fun hle => ?_⟩
  unfold count at hpos hle ⊢
  have hloop := (hrun (by omega)).2 (by omega)
  generalize toInt m (st.s st.stptr) = n at *
  obtain ⟨hneed, hsize, heq⟩ := @growLoop_spec (st.stptr - 1 + n) st.dcStacksize
    (st.stptr - 1 + n - st.dcStacksize).toNat (by omega)
  by_contra hnot
  obtain ⟨hne, hend⟩ := not_or.1 hnot
  rw [← heq, not_not] at hend
  have hbound := copyLoop_bounds hloop (by omega)
  have hbound' : st.stptr - 1 + (n.toNat : ℤ) <
      growLoop (st.stptr - 1 + n) (st.stptr - 1 + n - st.dcStacksize).toNat st.dcStacksize := hbound
  omega

/-- The operands of `OP_PREDICT`, with the value of the variable on the top: a negative number of shifts has one
value below it. -/
def ShiftsOk (m : Machine) (st : CalcState) : Prop :=
  2 ≤ st.stptr → toInt m (st.s (st.stptr - 2)) < 0 → 3 ≤ st.stptr

lemma safe_predictShifts {prev : CalcNode} {op : RpnOp} {percentile : RrdValue} (hdc : st.stptr < st.dcStacksize)
    (hn : ShiftsOk m st) : Safe Bounded (predictShifts m call prev op percentile st) := by
  simp only [predictShifts, safe_bind, safe_stackunderflow, safe_rd, to_stptr]
  refine fun h2 => ⟨⟨by omega, le_rfl⟩, ⟨by omega, le_rfl⟩, fun hle => ?_⟩
  have hneg := hn h2
  have hindex : st.stptr - 1 - 1 = st.stptr - 2 := by omega
  simp only [to_s, hindex] at hle ⊢
  generalize toInt m (st.s (st.stptr - 2)) = shifts at *
  -- the stack pointer is on the first shift
  obtain ⟨p, hp⟩ : ∃ p, (if shifts < 0 then st.stptr - 2 - 1 else st.stptr - 2 - shifts) = p := ⟨_, rfl⟩
  have hp0 : 0 ≤ p ∧ p ≤ st.stptr ∧ (0 ≤ shifts → p + shifts = st.stptr - 2) := by
    rw [← hp]
    split <;> omega
  rw [hp]
  refine Safe.mono (safe_predictLoop (fun _ => hp0.1) fun h0 => ⟨hp0.1, ?_⟩) fun vals _ => ?_
  · have hsum := hp0.2.2 h0
    rw [to_stptr, Int.natAbs_of_nonneg h0, Nat.cast_zero]
    omega
  · simp only [safe_wr, to_dcStacksize]
    exact ⟨⟨hp0.1, by omega⟩, show -1 ≤ p by omega, show p ≤ st.dcStacksize by omega⟩

lemma predictShifts_ok {prev : CalcNode} {op : RpnOp} {percentile : RrdValue}
    (h : NoFault (predictShifts m call prev op percentile st)) : ShiftsOk m st := by
  intro h2 hneg
  simp only [NoFault, predictShifts, safe_bind, safe_stackunderflow, safe_rd, to_stptr] at h
  have hindex : st.stptr - 1 - 1 = st.stptr - 2 := by omega
  simp only [to_s, hindex] at h
  have hloop := (h h2).2.2 (by omega)
  rw [if_pos hneg] at hloop
  have hlow := predictLoop_nonneg hneg (by omega) (Safe.noFault hloop)
  rw [to_stptr] at hlow
  omega

/-- The operands of `OP_PREDICT`, `OP_PREDICTSIGMA` and `OP_PREDICTPERC`. -/
@[grind] def PredictOk (m : Machine) (op : RpnOp) (st : CalcState) : Prop :=
  if op = .predictperc then
    1 ≤ st.stptr → ¬ .fin 100 < (st.s (st.stptr - 1)).abs → ShiftsOk m (st.to (st.stptr - 1))
  else ShiftsOk m st

lemma safe_takePercentile {P : RrdValue × CalcState → Prop} {op : RpnOp} :
    Safe P (takePercentile op st) ↔
      if op = .predictperc then
        1 ≤ st.stptr → ¬ .fin 100 < (st.s (st.stptr - 1)).abs →
          P (st.s (st.stptr - 1) / .fin 100, st.to (st.stptr - 1))
      else P (.nan, st) := by
  unfold takePercentile
  split
  · simp only [safe_bind, safe_stackunderflow, safe_rd, safe_ite, safe_error, safe_ok, to_stptr, to_s, implies_true,
      true_and]
    constructor
    · exact fun h h1 => (h h1).2
    · exact fun h h1 => ⟨⟨by omega, le_rfl⟩, h h1⟩
  · exact Iff.rfl

lemma safe_opPredict {prev : CalcNode} {op : RpnOp} (h : Room st) (hn : PredictOk m op st) :
    Safe Bounded (opPredict m call prev op st) := by
  obtain ⟨hlow, hhigh⟩ := h
  unfold PredictOk at hn
  rw [opPredict, safe_bind, safe_takePercentile]
  split
  · rename_i hop
    rw [if_pos hop] at hn
    intro h1 h100
    refine safe_predictShifts ?_ (hn h1 h100)
    rw [to_stptr, to_dcStacksize]
    omega
  · rename_i hop
    rw [if_neg hop] at hn
    exact safe_predictShifts (by omega) hn

lemma opPredict_ok {prev : CalcNode} {op : RpnOp} (h : NoFault (opPredict m call prev op st)) : PredictOk m op st := by
  unfold PredictOk
  rw [NoFault, opPredict, safe_bind, safe_takePercentile] at h
  split
  · rename_i hop
    rw [if_pos hop] at h
    exact fun h1 h100 => predictShifts_ok (h h1 h100)
  · rename_i hop
    rw [if_neg hop] at h
    exact predictShifts_ok h

/-- The operands of `OP_TREND`: the time gets shorter by the step of the variable. -/
def TrendOk (m : Machine) (call : Call) (var : Option CalcNode) (st : CalcState) : Prop :=
  1 ≤ st.stptr → ∀ v, var = some v → v.op = .variable →
    m.fceil (toTime m (st.s st.stptr)) v.step ≤ call.outputIdx + 1 →
      0 < v.step ∨ toTime m (st.s st.stptr) ≤ v.step

lemma safe_opTrend {var : Option CalcNode} {op : RpnOp} (h : Room st) (hn : TrendOk m call var st) :
    Safe Bounded (opTrend m call var op st) := by
  obtain ⟨hlow, hhigh⟩ := h
  have hwr : 1 ≤ st.stptr → ∀ v, Safe Bounded (wr (st.to (st.stptr - 1)) (st.stptr - 1) v) := by
    intro h1 v
    simp only [safe_wr, to_dcStacksize]
    exact ⟨⟨by omega, by omega⟩, show -1 ≤ st.stptr - 1 by omega, show st.stptr - 1 ≤ st.dcStacksize by omega⟩
  simp only [opTrend, safe_bind, safe_stackunderflow]
  intro h1
  cases var with
  | none => exact safe_error _
  | some v =>
    simp only [safe_ite, safe_error, safe_bind, safe_rd, to_stptr, implies_true, true_and]
    intro hop
    refine ⟨⟨by omega, le_rfl⟩, fun hdata => ?_, fun _ => hwr h1 _⟩
    have hstep := hn h1 v rfl (not_not.1 hop) hdata
    exact Safe.mono (noFault_trendLoop hstep (by omega) (Nat.succ_pos _)) fun r _ => hwr h1 _

lemma opTrend_ok {var : Option CalcNode} {op : RpnOp} (h : NoFault (opTrend m call var op st)) :
    TrendOk m call var st := by
  rintro h1 v rfl hop hdata
  simp only [NoFault, opTrend, safe_bind, safe_stackunderflow, safe_ite, safe_error, safe_rd, implies_true,
    true_and] at h
  exact trendLoop_ends (Safe.noFault (((h h1) (not_not.2 hop)).2.1 hdata))

/-! ### Programs -/

/-- The operands that an operator finds on the stack are such that it stays inside the stack and comes to its
end. -/
@[grind] def OperandsOk (m : Machine) (call : Call) (nodes : List CalcNode) (rpi : ℕ) (op : RpnOp) (st : CalcState) : Prop :=
  match op with
  | .sort | .stdev | .smax | .smin | .index => 0 ≤ st.stptr → 0 ≤ count m st
  | .median => 0 ≤ st.stptr → 1 ≤ count m st
  | .percent => PercentOk m st
  | .roll => RollOk m st
  | .copy => CopyOk m st
  | .predict | .predictsigma | .predictperc => PredictOk m op st
  | .trend | .trendnan => TrendOk m call (if rpi < 2 then none else nodes[rpi - 2]?) st
  | _ => True

lemma safe_calcOp {nodes : List CalcNode} {rpi : ℕ} {n : CalcNode} (h : Room st)
    (hn : OperandsOk m call nodes rpi n.op st) : Safe Bounded (calcOp m call nodes rpi n st) := by
  have hpush : ∀ v, Safe Bounded (push st v) := fun v => safe_push h.1 (by have := h.2; omega)
  cases hop : n.op <;> simp only [hop, OperandsOk] at hn <;> simp only [calcOp, hop]
  case dup =>
    obtain ⟨hlow, hhigh⟩ := h
    simp only [safe_bind, safe_stackunderflow, safe_rd, safe_wr, safe_ok]
    exact fun h0 => ⟨⟨h0, le_rfl⟩, ⟨by omega, by omega⟩, show -1 ≤ st.stptr + 1 by omega,
      show st.stptr + 1 ≤ st.dcStacksize by omega⟩
  case pop =>
    obtain ⟨hlow, hhigh⟩ := h
    simp only [safe_bind, safe_stackunderflow, safe_ok]
    exact fun h0 => ⟨show -1 ≤ st.stptr - 1 by omega, show st.stptr - 1 ≤ st.dcStacksize by omega⟩
  case exc =>
    obtain ⟨hlow, hhigh⟩ := h
    simp only [safe_bind, safe_stackunderflow, safe_rd, safe_wr]
    exact fun h1 => ⟨⟨by omega, le_rfl⟩, ⟨by omega, by omega⟩, ⟨by omega, by omega⟩, ⟨by omega, by omega⟩, hlow,
      show st.stptr ≤ st.dcStacksize by omega⟩
  case «end» => exact ⟨h.1, by have := h.2; omega⟩
  case «variable» => exact safe_opVariable h
  case prevOther => exact safe_opVariable h
  case sort => exact safe_opSort h hn
  case rev => exact safe_opRev h
  case avg => exact safe_opAvg h
  case stdev => exact safe_opStdev h hn
  case smax => exact safe_opXimum h hn
  case smin => exact safe_opXimum h hn
  case index => exact safe_opIndex h hn
  case median => exact safe_opMedian h hn
  case percent => exact safe_opPercent h hn
  case roll => exact safe_opRoll h hn
  case copy => exact safe_opCopy h hn
  case predict => exact safe_opPredict h hn
  case predictsigma => exact safe_opPredict h hn
  case predictperc => exact safe_opPredict h hn
  case trend => exact safe_opTrend h hn
  case trendnan => exact safe_opTrend h hn
  all_goals first | exact hpush _ | exact safe_unary h | exact safe_binary h | exact safe_ternary h

lemma calcOp_operands {nodes : List CalcNode} {rpi : ℕ} {n : CalcNode} (h : Room st)
    (hno : NoFault (calcOp m call nodes rpi n st)) : OperandsOk m call nodes rpi n.op st := by
  cases hop : n.op <;> simp only [OperandsOk] <;> simp only [calcOp, hop] at hno
  case sort => exact opSort_count hno
  case stdev => exact opStdev_count hno
  case smax => exact opXimum_count hno
  case smin => exact opXimum_count hno
  case index => exact opIndex_count hno
  case median => exact opMedian_count hno
  case percent => exact opPercent_ok hno h
  case roll => exact opRoll_ok hno
  case copy => exact opCopy_ok hno
  case predict => exact opPredict_ok hno
  case predictsigma => exact opPredict_ok hno
  case predictperc => exact opPredict_ok hno
  case trend => exact opTrend_ok hno
  case trendnan => exact opTrend_ok hno

/-- The operator that is next allows the stack as it finds it. -/
def StepOk (m : Machine) (call : Call) (rpi : ℕ) (st : CalcRun) : Prop :=
  ∀ n, st.nodes[rpi]? = some n → OperandsOk m call st.nodes rpi n.op (grow st.stack)

lemma safe_calcStep {rpi : ℕ} {st : CalcRun} (h : Bounded st.stack) (hn : StepOk m call rpi st) :
    Safe (fun st' => Bounded st'.stack) (calcStep m call rpi st) := by
  have hroom := grow_room h
  simp only [calcStep]
  cases hnode : st.nodes[rpi]? with
  | none => exact ⟨hroom.1, show (grow st.stack).stptr ≤ (grow st.stack).dcStacksize by have := hroom.2; omega⟩
  | some n =>
    simp only [safe_bind, safe_ok]
    exact safe_calcOp hroom (hn n hnode)

lemma calcStep_ok {rpi : ℕ} {st : CalcRun} (h : Bounded st.stack) (hno : NoFault (calcStep m call rpi st)) :
    StepOk m call rpi st := by
  intro n hnode
  simp only [NoFault, calcStep, hnode, safe_bind, safe_ok] at hno
  exact calcOp_operands (grow_room h) hno

end Operators

/-- A program stays inside the stack and comes to its end exactly if every operator that is reached finds operands
that allow it. The pointer never is below -1. -/
theorem rpnCalc_safe_iff (m : Machine) (call : Call) (st : CalcRun) (hsize : 0 ≤ st.stack.dcStacksize) :
    ((∀ f, rpnCalc m call st ≠ .error (.fault f)) ∧
        ∀ k st', steps (calcStep m call) k st.start = .ok st' → -1 ≤ st'.stack.stptr) ↔
      ∀ k < st.nodes.length, ∀ st', steps (calcStep m call) k st.start = .ok st' →
        ∀ n, st'.nodes[k]? = some n → OperandsOk m call st'.nodes k n.op (grow st'.stack) := by
  have hstart : Bounded st.start.stack := ⟨le_rfl, show -1 ≤ st.stack.dcStacksize by omega⟩
  have hsafe : ∀ k (st : CalcRun), Bounded st.stack → StepOk m call k st →
      Safe (fun st' => Bounded st'.stack) (calcStep m call k st) := fun k st => safe_calcStep
  have hguard : ∀ k (st : CalcRun), Bounded st.stack → NoFault (calcStep m call k st) → StepOk m call k st :=
    fun k st => calcStep_ok
  have hrun := (safe_steps_iff hsafe hguard hstart st.nodes.length).1
  -- the last value is read from a stack with one value
  have hlast : NoFault (rpnCalc m call st) ↔ NoFault (steps (calcStep m call) st.nodes.length st.start) := by
    simp only [NoFault, rpnCalc, safe_bind]
    refine ⟨Safe.noFault, fun h => h.mono fun st' _ => ?_⟩
    simp only [safe_ite, safe_error, safe_bind, safe_rd, safe_ok, implies_true, true_and, not_not]
    exact fun h0 => ⟨⟨le_rfl, h0.ge⟩, trivial⟩
  rw [← noFault_iff, hlast, hrun]
  refine ⟨fun h => h.1, fun h => ⟨h, fun k st' hst' => (inv_of_noFault hsafe hguard hstart hst').1⟩⟩

/-- The first call for a program of numbers and operators, with an empty stack. -/
def freshStack (p : List Rpnp) : CalcRun :=
  ⟨⟨fun _ => .nan, -1, 0⟩, p.map fun n => ⟨n.op, n.val, fun _ => .nan, 0, 0, 0⟩⟩

/-- The first row of an output. -/
def firstCall : Call := ⟨0, fun _ => .nan, 0, 300⟩

example : (rpnCalc bareMachine firstCall (freshStack [])).toOption.isNone := by decide +kernel

theorem rpnCalc_safe_sort :
    0 ≤ (freshStack [.number (.fin 7), .number (.fin 1), .plain .sort]).stack.dcStacksize ∧
      ∀ f, rpnCalc bareMachine firstCall (freshStack [.number (.fin 7), .number (.fin 1), .plain .sort]) ≠
        .error (.fault f) := by
  refine ⟨by decide, ((rpnCalc_safe_iff bareMachine firstCall _ (by decide)).2 ?_).1⟩
  intro k hk st' hst' n hn
  have hk' : k = 0 ∨ k = 1 ∨ k = 2 := by
    simp [freshStack] at hk
    omega
  obtain rfl | rfl | rfl := hk'
  · obtain rfl := Except.ok.inj hst'
    obtain rfl := Option.some.inj hn
    exact trivial
  · obtain rfl := Except.ok.inj hst'
    obtain rfl := Option.some.inj hn
    exact trivial
  · obtain rfl := Except.ok.inj hst'
    obtain rfl := Option.some.inj hn
    exact fun _ => by decide +kernel

/-- `COPY` on an empty stack, `7,8,2,1,ROLL` and `7,-1,INDEX` read outside of the stack. -/
theorem rpnCalc_reads_outside :
    rpnCalc bareMachine firstCall (freshStack [.plain .copy]) = .error (.fault (.read (-1))) ∧
      rpnCalc bareMachine firstCall (freshStack
        [.number (.fin 7), .number (.fin 8), .number (.fin 2), .number (.fin 1), .plain .roll]) =
          .error (.fault (.read 2)) ∧
      rpnCalc bareMachine firstCall (freshStack [.number (.fin 7), .number (.fin (-1)), .plain .index]) =
        .error (.fault (.read 2)) := by
  refine ⟨rfl, eq_fault_of_faultOf ?_, eq_fault_of_faultOf ?_⟩
  · decide +kernel
  · decide +kernel

end Rrdtool
