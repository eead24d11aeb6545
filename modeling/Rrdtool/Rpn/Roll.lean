import Mathlib.Data.List.Rotate
import Rrdtool.Rpn.Stack

/-!
# The rotation of `ROLL`

`n,m,ROLL` is to rotate the topmost `n` values by `m`. `OP_ROLL` copies a block of the stack before it writes the
values back, and the block starts at the top and goes up: it holds the topmost value, the two arguments that were
just taken from the stack, and whatever lies above them. In `Rpn.Calc` that is a read of what is not on the stack.
Here the memory is taken as it lies, as far as it is allocated (`rollMemory`), and the result is the documented one
exactly if the block is the mirror image of the topmost values (`rollMemory_rolled_iff`).
-/

namespace Rrdtool

open Checked

/-- `OP_ROLL` on the memory of the stack. There is no result where an error is reported, where the memory is not
allocated, and where `i + step` is no `int`. -/
@[grind] def rollMemory (m : Machine) (st : CalcState) : Option CalcState :=
  let step := toInt m (st.s st.stptr)
  let base := toInt m (st.s (st.stptr - 1))
  let top := st.to (st.stptr - 2)
  if st.stptr < 1 ∨ top.stptr < base - 1 ∨ base < 0 ∨ 2 ^ 31 ≤ base + step then none
  else
    (do
      let tmpStack ← readBlock top (top.dcStacksize - 1) top.stptr base.toNat
      rollLoop base tmpStack base.toNat (base + step) top : Calc CalcState).toOption

/-- The topmost values, from below. -/
@[grind] def topValues (st : CalcState) (n : ℕ) : List RrdValue :=
  (List.range n).map fun (k : ℕ) => st.s (st.stptr - n + 1 + k)

/-- The stack without the arguments is rotated by `m`: every value goes up by `m` places. -/
structure Rolled (n : ℕ) (m : ℤ) (st st' : CalcState) : Prop where
  stptr : st'.stptr = st.stptr
  below : ∀ i ≤ st.stptr - n, st'.s i = st.s i
  top : topValues st' n = (topValues st n).rotate (-m % n).toNat
  perm : (topValues st' n).Perm (topValues st n)
  undo : (topValues st' n).rotate (m % n).toNat = topValues st n

section Rotation

variable {st st' : CalcState} {n : ℕ} {m : ℤ}

@[simp] lemma length_topValues : (topValues st n).length = n := by simp [topValues]

/-- A rotation and the one back. -/
lemma rotate_back {α : Type*} (xs : List α) (m : ℤ) (h : xs ≠ []) :
    (xs.rotate (-m % xs.length).toNat).rotate (m % xs.length).toNat = xs := by
  have hpos : (0 : ℤ) < xs.length := by
    have := List.length_pos_iff.2 h
    omega
  rw [List.rotate_rotate]
  obtain ⟨c, hc⟩ : (xs.length : ℤ) ∣ -m % xs.length + m % xs.length := by
    rw [Int.dvd_iff_emod_eq_zero, ← Int.add_emod]
    simp
  have h1 := Int.emod_nonneg (-m) hpos.ne'
  have h2 := Int.emod_nonneg m hpos.ne'
  have hc0 : 0 ≤ c := by
    by_contra hneg
    nlinarith
  have hsum : (-m % xs.length).toNat + (m % xs.length).toNat = xs.length * c.toNat := by
    zify
    rw [Int.toNat_of_nonneg h1, Int.toNat_of_nonneg h2, Int.toNat_of_nonneg hc0, hc]
  rw [hsum, List.rotate_length_mul]

/-- Places counted from the other end. -/
lemma emod_mirror {k x : ℤ} (hk : 0 < k) : (k - 1 - x) % k = k - 1 - x % k := by
  have h0 := Int.emod_nonneg x hk.ne'
  have h1 := Int.emod_lt_of_pos x hk
  have hx := Int.emod_add_mul_ediv x k
  calc (k - 1 - x) % k = (k - 1 - x % k + k * -(x / k)) % k := by
        congr 1
        linarith
    _ = (k - 1 - x % k) % k := Int.add_mul_emod_self_left ..
    _ = k - 1 - x % k := Int.emod_eq_of_lt (by omega) (by omega)

/-- Counted from the top, the value in place `i` comes from place `i + m`. -/
lemma topValues_eq_rotate_iff (hn : 0 < n) (hptr : st'.stptr = st.stptr) :
    topValues st' n = (topValues st n).rotate (-m % n).toNat ↔
      ∀ i : ℕ, i < n → st'.s (st.stptr - i) = st.s (st.stptr - (i + m) % n) := by
  have hn' : (0 : ℤ) < n := by omega
  have hr := Int.emod_nonneg (-m) hn'.ne'
  have hplace : ∀ k : ℕ, k < n →
      st.stptr - n + 1 + ((k + (-m % n).toNat) % n : ℕ) = st.stptr - (((n - 1 - k : ℕ) : ℤ) + m) % n := by
    intro k hk
    have hmirror := @emod_mirror n (k - m) hn'
    have hplace : (((n - 1 - k : ℕ) : ℤ) + m) = n - 1 - (k - m) := by
      omega
    have hsum : (((k + (-m % n).toNat) % n : ℕ) : ℤ) = (k - m) % n := by
      push_cast
      rw [Int.toNat_of_nonneg hr, Int.add_emod_emod, sub_eq_add_neg]
    rw [hplace, hmirror, hsum]
    ring
  simp only [List.ext_getElem_iff, List.length_rotate, length_topValues, true_and, List.getElem_rotate]
  constructor
  · intro h i hi
    have hk := h (n - 1 - i) (by omega) (by omega)
    simp only [topValues, List.getElem_map, List.getElem_range, hptr] at hk
    rw [hplace _ (by omega)] at hk
    have hi' : n - 1 - (n - 1 - i) = i := by omega
    rw [hi'] at hk
    rw [← hk]
    congr 1
    omega
  · intro h k hk _
    simp only [topValues, List.getElem_map, List.getElem_range, hptr]
    rw [hplace k hk, ← h (n - 1 - k) (by omega)]
    congr 1
    omega

lemma Rolled.of_places (hn : 0 < n) (hptr : st'.stptr = st.stptr) (hbelow : ∀ i ≤ st.stptr - n, st'.s i = st.s i)
    (hplaces : ∀ i : ℕ, i < n → st'.s (st.stptr - i) = st.s (st.stptr - (i + m) % n)) : Rolled n m st st' := by
  have htop := (topValues_eq_rotate_iff hn hptr).2 hplaces
  have hne : topValues st n ≠ [] := List.ne_nil_of_length_pos (by rwa [length_topValues])
  have hback := rotate_back (topValues st n) m hne
  rw [length_topValues] at hback
  exact ⟨hptr, hbelow, htop, htop ▸ List.rotate_perm _ _, htop ▸ hback⟩

end Rotation

/-! ### The loop -/

section Loop

variable {st : CalcState}

lemma readBlock_eq {top lo : ℤ} {n : ℕ} (h0 : 0 ≤ lo) (h : lo + n ≤ top + 1) :
    readBlock st top lo n = .ok ((List.range n).map fun (k : ℕ) => st.s (lo + k)) := by
  induction n generalizing lo with
  | zero => rfl
  | succ n ih =>
    push_cast at h
    have hrd : rd st top lo = .ok (st.s lo) := if_pos ⟨h0, by omega⟩
    rw [readBlock, hrd, ok_bind, ih (by omega) (by omega), ok_bind, List.range_succ_eq_map, List.map_cons,
      List.map_map]
    congr 2
    · simp
    · refine List.map_congr_left fun k _ => ?_
      show st.s (lo + 1 + k) = st.s (lo + (k + 1 : ℕ))
      congr 1
      push_cast
      ring

/-- The loop writes place `i`, counted from the top, from place `j - n + i` of the copy. -/
lemma rollLoop_spec {base j : ℤ} {tmpStack : List RrdValue} {n : ℕ} (hn : n ≤ st.stptr + 1)
    (hdc : st.stptr < st.dcStacksize) :
    ∃ st', rollLoop base tmpStack n j st = .ok st' ∧ st'.stptr = st.stptr ∧
      (∀ i : ℕ, i < n → st'.s (st.stptr - i) = tmpStack.getD ((j - n + i) % base).toNat .nan) ∧
      ∀ x, x ≤ st.stptr - n ∨ st.stptr < x → st'.s x = st.s x := by
  induction n generalizing j st with
  | zero => exact ⟨st, rfl, rfl, fun i hi => absurd hi (Nat.not_lt_zero i), fun _ _ => rfl⟩
  | succ n ih =>
    push_cast at hn
    set v := tmpStack.getD ((j - 1) % base).toNat .nan with hv
    have hwr : wr st (st.stptr - n) v = .ok { st with s := Function.update st.s (st.stptr - n) v } :=
      if_pos ⟨by omega, by omega⟩
    obtain ⟨st', hrun, hptr, hplaces, hrest⟩ :=
      @ih { st with s := Function.update st.s (st.stptr - n) v } ((j - 1) % base)
        (show (n : ℤ) ≤ st.stptr + 1 by omega) hdc
    refine ⟨st', ?_, hptr, fun i hi => ?_, fun x hx => ?_⟩
    · rw [rollLoop]
      simp only [← hv, hwr, ok_bind]
      exact hrun
    · obtain hlt | rfl := Nat.lt_succ_iff_lt_or_eq.1 hi
      · have hplace := hplaces i hlt
        rw [hplace]
        have hstep : (j - 1) % base - n + i = (j - 1) % base + (i - n) := by ring
        rw [hstep, Int.emod_add_emod]
        congr 3
        push_cast
        ring
      · rw [hrest _ (.inl (le_refl _))]
        show Function.update st.s (st.stptr - i) v (st.stptr - i) = _
        rw [Function.update_self, hv]
        congr 3
        push_cast
        ring
    · push_cast at hx
      rw [hrest x (by show x ≤ st.stptr - n ∨ st.stptr < x; omega)]
      exact Function.update_of_ne (by omega) _ _

variable {m : Machine} {n : ℕ} {step : ℤ}

/-- The memory that is read has to be allocated, and the sum has to be an `int`. -/
lemma rollMemory_bounds {st' : CalcState} (hbase : toInt m (st.s (st.stptr - 1)) = n)
    (hstep : toInt m (st.s st.stptr) = step) (hn : 0 < n) (h : rollMemory m st = some st') :
    st.stptr - 2 + n ≤ st.dcStacksize ∧ n + step < 2 ^ 31 := by
  simp only [rollMemory, hbase, hstep, to_stptr, to_dcStacksize, Int.toNat_natCast] at h
  split at h
  · cases h
  · rename_i hguard
    push Not at hguard
    refine ⟨?_, hguard.2.2.2⟩
    cases hblock : readBlock (st.to (st.stptr - 2)) (st.dcStacksize - 1) (st.stptr - 2) n with
    | error e =>
      rw [hblock] at h
      cases h
    | ok xs =>
      have hno : NoFault (readBlock (st.to (st.stptr - 2)) (st.dcStacksize - 1) (st.stptr - 2) n) := by
        rw [hblock]
        exact trivial
      have hbounds := readBlock_bounds hno hn.ne'
      omega

/-- What the loop leaves: counted from the top, place `i` holds what lay `step + i` places above the top. -/
lemma rollMemory_eq_some (hroom : Room st) (hbase : toInt m (st.s (st.stptr - 1)) = n)
    (hstep : toInt m (st.s st.stptr) = step) (hn : 0 < n) (hle : n ≤ st.stptr - 1)
    (hread : st.stptr - 2 + n ≤ st.dcStacksize) (hint : n + step < 2 ^ 31) :
    ∃ st', rollMemory m st = some st' ∧ st'.stptr = st.stptr - 2 ∧
      (∀ i : ℕ, i < n → st'.s (st.stptr - 2 - i) = st.s (st.stptr - 2 + (i + step) % n)) ∧
      ∀ x ≤ st.stptr - 2 - n, st'.s x = st.s x := by
  obtain ⟨hlow, hhigh⟩ := hroom
  have hn' : (0 : ℤ) < n := by omega
  have hblock := @readBlock_eq (st.to (st.stptr - 2)) (st.dcStacksize - 1) (st.stptr - 2) n (by omega) (by omega)
  obtain ⟨st', hrun, hptr, hplaces, hrest⟩ := @rollLoop_spec (st.to (st.stptr - 2)) n (n + step)
    ((List.range n).map fun (k : ℕ) => st.s (st.stptr - 2 + k)) n (by rw [to_stptr]; omega)
    (by rw [to_stptr, to_dcStacksize]; omega)
  refine ⟨st', ?_, hptr, fun i hi => ?_, fun x hx => ?_⟩
  · simp only [rollMemory, hbase, hstep, to_stptr, to_dcStacksize, Int.toNat_natCast]
    rw [if_neg (by omega), hblock, ok_bind]
    show (rollLoop _ _ _ _ _).toOption = _
    rw [show (fun (k : ℕ) => (st.to (st.stptr - 2)).s (st.stptr - 2 + k)) =
      fun (k : ℕ) => st.s (st.stptr - 2 + k) from rfl, hrun]
    rfl
  · have h0 := Int.emod_nonneg (i + step) hn'.ne'
    have h1 := Int.emod_lt_of_pos (i + step) hn'
    have hplace : (n : ℤ) + step - n + i = i + step := by ring
    have hplaced := hplaces i hi
    rw [hplace, List.getD_eq_getElem?_getD, List.getElem?_map, List.getElem?_range (by omega), Option.map_some,
      Option.getD_some, Int.toNat_of_nonneg h0] at hplaced
    exact hplaced
  · exact hrest x (.inl hx)

lemma rd_eq_ok {top i : ℤ} {v : RrdValue} (h : rd st top i = .ok v) : (0 ≤ i ∧ i ≤ top) ∧ st.s i = v := by
  unfold rd at h
  split at h
  · exact ⟨‹_›, Except.ok.inj h⟩
  · cases h

lemma stackunderflow_eq_ok {minsize : ℤ} {u : Unit} (h : stackunderflow st minsize = .ok u) :
    minsize ≤ st.stptr := by
  unfold stackunderflow at h
  split at h
  · cases h
  · exact not_lt.1 ‹_›

lemma readBlock_mono {top top' lo : ℤ} {xs : List RrdValue} (htop : top ≤ top')
    (h : readBlock st top lo n = .ok xs) : readBlock st top' lo n = .ok xs := by
  induction n generalizing lo xs with
  | zero => exact h
  | succ n ih =>
    obtain ⟨x, hx, h⟩ := bind_eq_ok h
    obtain ⟨ys, hys, h⟩ := bind_eq_ok h
    obtain ⟨⟨h0, hle⟩, rfl⟩ := rd_eq_ok hx
    have hrd : rd st top' lo = .ok (st.s lo) := if_pos ⟨h0, hle.trans htop⟩
    rw [readBlock, hrd, ok_bind, ih hys]
    exact h

/-- Where the operator stays on the stack, that is what happens in the memory. -/
lemma rollMemory_of_opRoll {st' : CalcState} (hroom : Room st)
    (hint : toInt m (st.s (st.stptr - 1)) + toInt m (st.s st.stptr) < 2 ^ 31) (h : opRoll m st = .ok st') :
    rollMemory m st = some st' := by
  obtain ⟨hlow, hhigh⟩ := hroom
  obtain ⟨_, h1, h⟩ := bind_eq_ok h
  obtain ⟨step, hstep, h⟩ := bind_eq_ok h
  obtain ⟨base, hbase, h⟩ := bind_eq_ok h
  obtain ⟨_, hle, h⟩ := bind_eq_ok h
  obtain ⟨-, rfl⟩ := rd_eq_ok hstep
  obtain ⟨-, rfl⟩ := rd_eq_ok hbase
  have hone := stackunderflow_eq_ok h1
  have hbelow := stackunderflow_eq_ok hle
  split at h
  · cases h
  · rename_i hneg
    obtain ⟨xs, hxs, h⟩ := bind_eq_ok h
    have hcopy := readBlock_mono (show st.stptr - 2 ≤ st.dcStacksize - 1 by omega) hxs
    refine (if_neg ?_).trans ?_
    · rw [to_stptr] at hbelow ⊢
      omega
    · rw [to_dcStacksize, hcopy, ok_bind, h]
      rfl

end Loop

/-- `n,m,ROLL` rotates the topmost values exactly if the block from the top upwards is their mirror image, is
allocated, and `n + m` is an `int`. -/
theorem rollMemory_rolled_iff (m : Machine) (st : CalcState) (n : ℕ) (step : ℤ) (hroom : Room st)
    (hbase : toInt m (st.s (st.stptr - 1)) = n) (hstep : toInt m (st.s st.stptr) = step) (hn : 1 ≤ n)
    (hle : n ≤ st.stptr - 1) :
    (∃ st', rollMemory m st = some st' ∧ Rolled n step (st.to (st.stptr - 2)) st') ↔
      st.stptr - 2 + n ≤ st.dcStacksize ∧ n + step < 2 ^ 31 ∧
        ∀ i : ℕ, i < n → st.s (st.stptr - 2 + i) = st.s (st.stptr - 2 - i) := by
  have hn' : (0 : ℤ) < n := by omega
  constructor
  · rintro ⟨st', hrun, hrolled⟩
    obtain ⟨hread, hint⟩ := rollMemory_bounds hbase hstep hn hrun
    refine ⟨hread, hint, fun i hi => ?_⟩
    obtain ⟨st'', hrun', -, hplaces, -⟩ := rollMemory_eq_some hroom hbase hstep hn hle hread hint
    obtain rfl : st' = st'' := Option.some.inj (hrun.symm.trans hrun')
    have hdoc := (topValues_eq_rotate_iff hn hrolled.stptr).1 hrolled.top
    -- the place that takes the value `i` places away from the top
    have h0 := Int.emod_nonneg (i - step) hn'.ne'
    have h1 := Int.emod_lt_of_pos (i - step) hn'
    have hback : (((((i : ℤ) - step) % n).toNat : ℕ) + step) % n = i := by
      rw [Int.toNat_of_nonneg h0, Int.emod_add_emod, sub_add_cancel]
      exact Int.emod_eq_of_lt (by omega) (by omega)
    have hup := hplaces _ (show (((i : ℤ) - step) % n).toNat < n by omega)
    have hdown := hdoc _ (show (((i : ℤ) - step) % n).toNat < n by omega)
    rw [hback] at hup hdown
    exact hup.symm.trans hdown
  · rintro ⟨hread, hint, hmirror⟩
    obtain ⟨st', hrun, hptr, hplaces, hbelow⟩ := rollMemory_eq_some hroom hbase hstep hn hle hread hint
    refine ⟨st', hrun, .of_places hn hptr hbelow fun i hi => (hplaces i hi).trans ?_⟩
    have h0 := Int.emod_nonneg (i + step) hn'.ne'
    have h1 := Int.emod_lt_of_pos (i + step) hn'
    have hmirror' := hmirror ((i + step) % n).toNat (by omega)
    rwa [Int.toNat_of_nonneg h0] at hmirror'

example : topValues ⟨fun i => .fin i, 1, 1000⟩ 2 = [.fin 0, .fin 1] := by decide +kernel

/-- A stack with these values, from below. -/
def stackOf (xs : List RrdValue) : CalcState := ⟨fun i => xs.getD i.toNat .nan, xs.length - 1, 1000⟩

/-- `2,8,2,1,ROLL`: the count that lies above the two values is the same as the lower one. -/
theorem rollMemory_rolled_mirror :
    ∃ st', rollMemory bareMachine (stackOf [.fin 2, .fin 8, .fin 2, .fin 1]) = some st' ∧
      Rolled 2 1 ((stackOf [.fin 2, .fin 8, .fin 2, .fin 1]).to 1) st' := by
  refine (rollMemory_rolled_iff bareMachine (stackOf [.fin 2, .fin 8, .fin 2, .fin 1]) 2 1
    ⟨by decide, by decide⟩ ?_ ?_ (by decide) (by decide)).2 ⟨by decide, by decide, ?_⟩
  · decide +kernel
  · decide +kernel
  · intro i hi
    obtain rfl | rfl : i = 0 ∨ i = 1 := by omega
    · rfl
    · rfl

/-- `a,b,c,d,3,1,ROLL` is documented to leave `a,d,b,c`. The count and the distance come back instead of `b` and
`c`. -/
theorem rollMemory_not_rolled :
    ¬ ∃ st', rollMemory bareMachine (stackOf [.fin 10, .fin 20, .fin 30, .fin 40, .fin 3, .fin 1]) = some st' ∧
      Rolled 3 1 ((stackOf [.fin 10, .fin 20, .fin 30, .fin 40, .fin 3, .fin 1]).to 3) st' := by
  rintro ⟨st', hrun, hrolled⟩
  have hleft : (rollMemory bareMachine (stackOf [.fin 10, .fin 20, .fin 30, .fin 40, .fin 3, .fin 1])).map
      (topValues · 3) = some [.fin 40, .fin 1, .fin 3] := by
    decide +kernel
  have htop : topValues st' 3 = [.fin 40, .fin 20, .fin 30] := hrolled.top
  rw [hrun, Option.map_some, htop] at hleft
  exact absurd hleft (by decide)

end Rrdtool
