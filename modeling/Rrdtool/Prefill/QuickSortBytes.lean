import Rrdtool.Lib.CInt
import Rrdtool.Prefill.QuickSort

/-!
# `quick_sort` in memory

Port of `src/quicksort.c` with its offsets in bytes, which are `int`s, and its byte-wise `swap`. An access outside of the
array has no result, and neither has a call that is not finished within its steps. `quickSortBytes_sorts` says that for an
array whose size fits an `int` there is a result, what it is for any comparison, and that it is sorted if the comparison is
an order.
-/

namespace Rrdtool

/-! ### The code -/

section Code

variable (bytes : ℕ)

/-- The byte at `i` of the array. -/
def loadByte (mem : ℤ → UInt8) (i : ℤ) : Option UInt8 := if 0 ≤ i ∧ i < bytes then some (mem i) else none

/-- The byte `c` is written to the array at `i`. -/
def storeByte (mem : ℤ → UInt8) (i : ℤ) (c : UInt8) : Option (ℤ → UInt8) :=
  if 0 ≤ i ∧ i < bytes then some (Function.update mem i c) else none

/-- `swap`. -/
def swapBytes : ℕ → ℤ → ℤ → (ℤ → UInt8) → Option (ℤ → UInt8)
  | 0, _, _, mem => some mem
  | l + 1, a, b, mem => do
    let c ← loadByte bytes mem a
    let d ← loadByte bytes mem b
    let mem ← storeByte bytes mem a d
    let mem ← storeByte bytes mem b c
    swapBytes l (a + 1) (b + 1) mem

variable (size : ℕ) (cmp : (Fin size → UInt8) → (Fin size → UInt8) → ℤ)

/-- The bytes of the element at `i`. -/
def element (mem : ℤ → UInt8) (i : ℤ) : Fin size → UInt8 := fun k => mem (i + (k : ℕ))

/-- The comparison of two elements of the array. -/
def compareBytes (mem : ℤ → UInt8) (i j : ℤ) : Option ℤ :=
  if (0 ≤ i ∧ i + size ≤ bytes) ∧ 0 ≤ j ∧ j + size ≤ bytes then some (cmp (element size mem i) (element size mem j))
  else none

/-- The loop of `sort`, for the pivot at `p`. An `int` and a `size_t` make a `size_t`, which goes into an `int`. -/
@[grind] def sortLoopBytes (p : ℤ) : ℕ → (ℤ → UInt8) → ℤ → ℤ → Option ((ℤ → UInt8) × ℤ × ℤ)
  | 0, _, _, _ => none
  | n + 1, mem, l, r =>
    if l < r then do
      let left ← compareBytes bytes size cmp mem l p
      if left ≤ 0 then sortLoopBytes p n mem (s32 (l + size)) r
      else do
        let right ← compareBytes bytes size cmp mem r p
        if 0 ≤ right then sortLoopBytes p n mem l (s32 (r - size))
        else do
          let mem ← swapBytes bytes size l r mem
          sortLoopBytes p n mem l r
    else some (mem, l, r)

/-- `sort`. -/
@[grind] def sortBytes : ℕ → (ℤ → UInt8) → ℤ → ℤ → Option (ℤ → UInt8)
  | 0, _, _, _ => none
  | n + 1, mem, first, last =>
    if last ≤ first then some mem
    else do
      let (mem, l, r) ← sortLoopBytes bytes size cmp first n mem (s32 (first + size)) last
      let left ← compareBytes bytes size cmp mem l first
      let mem ←
        (if left ≤ 0 then swapBytes bytes size l first mem else swapBytes bytes size (s32 (l - size)) first mem)
      let mem ← sortBytes n mem first (s32 (l - size))
      sortBytes n mem r last

/-- `quick_sort`; `(nitems - 1) * size` is a `size_t`. -/
@[grind] def quickSortBytes (nitems n : ℕ) (mem : ℤ → UInt8) : Option (ℤ → UInt8) :=
  sortBytes (nitems * size) size cmp n mem 0 (s32 (u64 ((nitems - 1 : ℤ) * size)))

end Code

/-- The elements of the array. -/
def cell (size : ℕ) (mem : ℤ → UInt8) (i : ℕ) : Fin size → UInt8 := element size mem (i * size : ℕ)

/-- Nothing but the array is written. -/
def SameOutside (bytes : ℕ) (mem mem' : ℤ → UInt8) : Prop := ∀ i, i < 0 ∨ (bytes : ℤ) ≤ i → mem' i = mem i

lemma SameOutside.trans {bytes : ℕ} {mem mem' mem'' : ℤ → UInt8} (h : SameOutside bytes mem mem')
    (h' : SameOutside bytes mem' mem'') : SameOutside bytes mem mem'' :=
  fun i hi => (h' i hi).trans (h i hi)

/-! ### The exchange of two elements -/

section Swap

variable {bytes size nitems i j l : ℕ} {a b : ℤ} {mem : ℤ → UInt8}

/-- Two blocks that are the same one or have no byte in common are exchanged. -/
lemma swapBytes_eq (hab : a = b ∨ a + l ≤ b ∨ b + l ≤ a) (ha : 0 ≤ a) (ha' : a + l ≤ bytes) (hb : 0 ≤ b)
    (hb' : b + l ≤ bytes) :
    ∃ mem', swapBytes bytes l a b mem = some mem' ∧ (∀ k : ℕ, k < l → mem' (a + k) = mem (b + k)) ∧
      (∀ k : ℕ, k < l → mem' (b + k) = mem (a + k)) ∧
      ∀ x, (x < a ∨ a + l ≤ x) → (x < b ∨ b + l ≤ x) → mem' x = mem x := by
  induction l generalizing a b mem with
  | zero => exact ⟨mem, rfl, fun k hk => by omega, fun k hk => by omega, fun _ _ _ => rfl⟩
  | succ l ih =>
    push_cast at hab ha' hb'
    set mem₁ := Function.update (Function.update mem a (mem b)) b (mem a) with hmem₁
    have hother : ∀ x, x ≠ a → x ≠ b → mem₁ x = mem x := fun x hxa hxb => by
      rw [hmem₁, Function.update_of_ne hxb, Function.update_of_ne hxa]
    have hatb : mem₁ b = mem a := Function.update_self ..
    have hata : mem₁ a = mem b := by
      rcases eq_or_ne a b with rfl | hne
      · exact hatb
      · rw [hmem₁, Function.update_of_ne hne, Function.update_self]
    obtain ⟨mem', hrun, hfirst, hsecond, houtside⟩ := @ih (a + 1) (b + 1) mem₁ (by omega) (by omega) (by omega)
      (by omega) (by omega)
    have hkept : ∀ x y : ℤ, mem₁ x = mem y → (x < a + 1 ∨ a + 1 + l ≤ x) → (x < b + 1 ∨ b + 1 + l ≤ x) →
        mem' x = mem y := fun x y hxy hxa hxb => (houtside x hxa hxb).trans hxy
    refine ⟨mem', ?_, fun k hk => ?_, fun k hk => ?_, fun x hxa hxb => ?_⟩
    · have hstep : swapBytes bytes (l + 1) a b mem = swapBytes bytes l (a + 1) (b + 1) mem₁ := by
        have hina : 0 ≤ a ∧ a < bytes := ⟨ha, by omega⟩
        have hinb : 0 ≤ b ∧ b < bytes := ⟨hb, by omega⟩
        simp only [swapBytes, loadByte, storeByte, if_pos hina, if_pos hinb, Option.bind_eq_bind, Option.bind_some]
        rfl
      rw [hstep, hrun]
    · cases k with
      | zero =>
        rw [Nat.cast_zero, add_zero, add_zero]
        exact hkept a b hata (by omega) (by omega)
      | succ k =>
        have hk' := hfirst k (by omega)
        rw [hother (b + 1 + k) (by omega) (by omega)] at hk'
        push_cast
        rwa [add_assoc, add_assoc, add_comm 1 (k : ℤ)] at hk'
    · cases k with
      | zero =>
        rw [Nat.cast_zero, add_zero, add_zero]
        exact hkept b a hatb (by omega) (by omega)
      | succ k =>
        have hk' := hsecond k (by omega)
        rw [hother (a + 1 + k) (by omega) (by omega)] at hk'
        push_cast
        rwa [add_assoc, add_assoc, add_comm 1 (k : ℤ)] at hk'
    · push_cast at hxa hxb
      exact hkept x x (hother x (by omega) (by omega)) (by omega) (by omega)

/-- The elements lie one behind the other. -/
lemma mul_size_le (h : i < j) : i * size + size ≤ j * size := by
  have := Nat.mul_le_mul_right size (Nat.succ_le_of_lt h)
  rwa [Nat.succ_mul] at this

lemma cell_swap (hi : i < nitems) (hj : j < nitems) :
    ∃ mem', swapBytes (nitems * size) size (i * size : ℕ) (j * size : ℕ) mem = some mem' ∧
      cell size mem' = cell size mem ∘ Equiv.swap i j ∧ SameOutside (nitems * size) mem mem' := by
  have hi' := @mul_size_le size i nitems hi
  have hj' := @mul_size_le size j nitems hj
  have hdisjoint : ∀ {i j : ℕ}, i = j ∨ i * size + size ≤ j * size ∨ j * size + size ≤ i * size := by
    intro i j
    rcases lt_trichotomy i j with hlt | heq | hgt
    · exact .inr (.inl (mul_size_le hlt))
    · exact .inl heq
    · exact .inr (.inr (mul_size_le hgt))
  obtain ⟨mem', hrun, hfirst, hsecond, houtside⟩ := @swapBytes_eq (nitems * size) size (i * size : ℕ) (j * size : ℕ) mem
    (by rcases @hdisjoint i j with rfl | h | h <;> omega) (by omega) (by omega) (by omega) (by omega)
  refine ⟨mem', hrun, ?_, fun x hx => houtside x (by omega) (by omega)⟩
  funext k
  rw [Function.comp_apply, Equiv.swap_apply_def]
  split_ifs with hki hkj
  · subst hki
    exact funext fun x => hfirst x x.isLt
  · subst hkj
    exact funext fun x => hsecond x x.isLt
  · funext x
    have hx := x.isLt
    refine houtside _ ?_ ?_
    · have := @hdisjoint k i
      omega
    · have := @hdisjoint k j
      omega

end Swap

/-! ### The code in memory does what the code on the elements does -/

section Simulation

variable {size nitems n k p l r first last i j : ℕ} {cmp : (Fin size → UInt8) → (Fin size → UInt8) → ℤ}
  {mem : ℤ → UInt8}

lemma compareBytes_eq (hi : i < nitems) (hj : j < nitems) :
    compareBytes (nitems * size) size cmp mem (i * size : ℕ) (j * size : ℕ) =
      some (cmp (cell size mem i) (cell size mem j)) := by
  have hi' := @mul_size_le size i nitems hi
  have hj' := @mul_size_le size j nitems hj
  exact if_pos ⟨⟨by omega, by omega⟩, by omega, by omega⟩

/-- The next element. -/
lemma s32_next (hfits : nitems * size < 2 ^ 31) (hi : i < nitems) :
    s32 ((i * size : ℕ) + size) = ((i + 1) * size : ℕ) := by
  have hi' := @mul_size_le size i nitems hi
  rw [Nat.succ_mul, Nat.cast_add]
  exact s32_of_lt (by omega) (by omega)

/-- The element before. -/
lemma s32_before (hfits : nitems * size < 2 ^ 31) (hi : i < nitems) (h0 : 0 < i) :
    s32 ((i * size : ℕ) - size) = ((i - 1) * size : ℕ) := by
  have hi' := @mul_size_le size i nitems hi
  have hbefore := @mul_size_le size (i - 1) i (by omega)
  have hstep : i * size = (i - 1) * size + size := by
    rw [← Nat.succ_mul, Nat.succ_eq_add_one, Nat.sub_add_cancel h0]
  rw [hstep, Nat.cast_add, add_sub_cancel_right]
  exact s32_of_lt (by omega) (by omega)

lemma sortLoopBytes_eq (hfits : nitems * size < 2 ^ 31) (hsize : 0 < size) (hp : p < l) (hlr : l ≤ r) (hr : r < nitems)
    (hn : 2 * (r - l) + (if cmp (cell size mem l) (cell size mem p) ≤ 0 then 0 else 1) ≤ n) :
    ∃ (mem' : ℤ → UInt8) (m : ℕ), (∀ k, n < k → sortLoopBytes (nitems * size) size cmp (p * size : ℕ) k mem
        (l * size : ℕ) (r * size : ℕ) = some (mem', ((m * size : ℕ) : ℤ), ((m * size : ℕ) : ℤ))) ∧
      sortLoop cmp p n (cell size mem) l r = (cell size mem', m, m) ∧ SameOutside (nitems * size) mem mem' := by
  induction n generalizing mem l r with
  | zero =>
    obtain rfl : l = r := by omega
    refine ⟨mem, l, fun k hk => ?_, rfl, fun _ _ => rfl⟩
    obtain ⟨k, rfl⟩ := Nat.exists_eq_add_one.2 hk
    exact if_neg (lt_irrefl _)
  | succ n ih =>
    have hstep : ∀ {mem₁ : ℤ → UInt8} {l' r' : ℕ},
        (∀ k, sortLoopBytes (nitems * size) size cmp (p * size : ℕ) (k + 1) mem (l * size : ℕ) (r * size : ℕ) =
          sortLoopBytes (nitems * size) size cmp (p * size : ℕ) k mem₁ (l' * size : ℕ) (r' * size : ℕ)) →
        ∀ {out}, (∀ k, n < k → sortLoopBytes (nitems * size) size cmp (p * size : ℕ) k mem₁ (l' * size : ℕ)
          (r' * size : ℕ) = out) →
        ∀ k, n + 1 < k → sortLoopBytes (nitems * size) size cmp (p * size : ℕ) k mem (l * size : ℕ) (r * size : ℕ) =
          out := by
      intro mem₁ l' r' hone out hrest k hk
      obtain ⟨k, rfl⟩ : ∃ k', k = k' + 1 := ⟨k - 1, by omega⟩
      exact (hone k).trans (hrest k (by omega))
    rw [sortLoop]
    by_cases hlt : l < r
    · have hlt' : ((l * size : ℕ) : ℤ) < (r * size : ℕ) := Nat.cast_lt.2 ((Nat.mul_lt_mul_right hsize).2 hlt)
      have hleft := @compareBytes_eq size nitems l p cmp mem (by omega) (by omega)
      have hright := @compareBytes_eq size nitems r p cmp mem hr (by omega)
      rw [if_pos hlt]
      by_cases hle : cmp (cell size mem l) (cell size mem p) ≤ 0
      · rw [if_pos hle] at hn ⊢
        obtain ⟨mem', m, hrun, hloop, hsame⟩ := @ih (l + 1) r mem (by omega) (by omega) hr (by split_ifs <;> omega)
        refine ⟨mem', m, hstep (fun k => ?_) hrun, hloop, hsame⟩
        rw [sortLoopBytes, if_pos hlt', hleft, Option.bind_eq_bind, Option.bind_some, if_pos hle,
          s32_next hfits (by omega)]
      · rw [if_neg hle] at hn ⊢
        by_cases hge : 0 ≤ cmp (cell size mem r) (cell size mem p)
        · rw [if_pos hge]
          obtain ⟨mem', m, hrun, hloop, hsame⟩ := @ih l (r - 1) mem hp (by omega) (by omega) (by rw [if_neg hle]; omega)
          refine ⟨mem', m, hstep (fun k => ?_) hrun, hloop, hsame⟩
          rw [sortLoopBytes, if_pos hlt', hleft, Option.bind_eq_bind, Option.bind_some, if_neg hle, hright,
            Option.bind_eq_bind, Option.bind_some, if_pos hge, s32_before hfits hr (by omega)]
        · rw [if_neg hge]
          obtain ⟨mem₁, hswap, hcells, hsame⟩ := @cell_swap size nitems l r mem (by omega) hr
          have hpivot : cell size mem₁ p = cell size mem p := by
            rw [hcells, Function.comp_apply, Equiv.swap_apply_of_ne_of_ne (by omega) (by omega)]
          have hswapped : cell size mem₁ l = cell size mem r := by
            rw [hcells, Function.comp_apply, Equiv.swap_apply_left]
          obtain ⟨mem', m, hrun, hloop, hsame'⟩ := @ih l r mem₁ hp hlr hr
            (by rw [hpivot, hswapped, if_pos (by omega)]; omega)
          rw [← hcells]
          refine ⟨mem', m, hstep (fun k => ?_) hrun, hloop, hsame.trans hsame'⟩
          rw [sortLoopBytes, if_pos hlt', hleft, Option.bind_eq_bind, Option.bind_some, if_neg hle, hright,
            Option.bind_eq_bind, Option.bind_some, if_neg hge, hswap, Option.bind_some]
    · obtain rfl : l = r := by omega
      rw [if_neg hlt]
      refine ⟨mem, l, fun k hk => ?_, rfl, fun _ _ => rfl⟩
      obtain ⟨k, rfl⟩ : ∃ k', k = k' + 1 := ⟨k - 1, by omega⟩
      exact if_neg (lt_irrefl _)

/-- With enough steps for the elements between `first` and `last` the array holds what `sort` makes of them. -/
lemma sortBytes_eq (hfits : nitems * size < 2 ^ 31) (hsize : 0 < size) (hlast : last < nitems)
    (hn : last - first < n) :
    ∃ mem', (∀ k, 2 * (last - first) + 2 < k →
        sortBytes (nitems * size) size cmp k mem (first * size : ℕ) (last * size : ℕ) = some mem') ∧
      cell size mem' = sort cmp n (cell size mem) first last ∧ SameOutside (nitems * size) mem mem' := by
  induction n generalizing mem first last with
  | zero => omega
  | succ n ih =>
    rw [sort]
    by_cases hlt : first < last
    · have hlt' : ¬ ((last * size : ℕ) : ℤ) ≤ (first * size : ℕ) := by
        rw [not_le]
        exact Nat.cast_lt.2 ((Nat.mul_lt_mul_right hsize).2 hlt)
      obtain ⟨mem₁, m, hrun, hloop, hsame⟩ := @sortLoopBytes_eq size nitems (2 * (last - first) + 1) first (first + 1)
        last cmp mem hfits hsize (by omega) (by omega) hlast (by split_ifs <;> omega)
      obtain ⟨a', m', heq, hm, hml, -⟩ := @sortLoop_spec _ cmp (cell size mem) (first + 1) last (2 * (last - first) + 1)
        first (by omega) (by omega) (by split_ifs <;> omega)
      obtain rfl : m = m' := congrArg (fun x => x.2.1) (hloop.symm.trans heq)
      have hnext := @s32_next size nitems first hfits (by omega)
      have hbefore := @s32_before size nitems m hfits (by omega) (by omega)
      have hcompare := @compareBytes_eq size nitems m first cmp mem₁ (by omega) (by omega)
      -- the pivot goes to the end of the first part
      obtain ⟨mem₂, hswap, hcells, hsame₂⟩ : ∃ mem₂,
          (if cmp (cell size mem₁ m) (cell size mem₁ first) ≤ 0 then
              swapBytes (nitems * size) size (m * size : ℕ) (first * size : ℕ) mem₁
            else swapBytes (nitems * size) size ((m - 1) * size : ℕ) (first * size : ℕ) mem₁) = some mem₂ ∧
          cell size mem₂ = (if cmp (cell size mem₁ m) (cell size mem₁ first) ≤ 0 then
              cell size mem₁ ∘ Equiv.swap m first
            else cell size mem₁ ∘ Equiv.swap (m - 1) first) ∧
          SameOutside (nitems * size) mem₁ mem₂ := by
        split_ifs
        · exact cell_swap (by omega) (by omega)
        · exact cell_swap (by omega) (by omega)
      obtain ⟨mem₃, hrun₃, hcells₃, hsame₃⟩ := @ih first (m - 1) mem₂ (by omega) (by omega)
      obtain ⟨mem₄, hrun₄, hcells₄, hsame₄⟩ := @ih m last mem₃ hlast (by omega)
      refine ⟨mem₄, fun k hk => ?_, ?_, ((hsame.trans hsame₂).trans hsame₃).trans hsame₄⟩
      · obtain ⟨k, rfl⟩ : ∃ k', k = k' + 1 := ⟨k - 1, by omega⟩
        rw [sortBytes, if_neg hlt', hnext, hrun k (by omega), Option.bind_eq_bind, Option.bind_some]
        dsimp only
        rw [hcompare, Option.bind_eq_bind, Option.bind_some, hbefore, hswap, Option.bind_eq_bind, Option.bind_some,
          hrun₃ k (by omega), Option.bind_some]
        exact hrun₄ k (by omega)
      · rw [if_pos hlt, hloop]
        dsimp only
        rw [hcells₄, hcells₃, hcells]
    · have hle : ((last * size : ℕ) : ℤ) ≤ (first * size : ℕ) := Nat.cast_le.2 (Nat.mul_le_mul_right size (by omega))
      rw [if_neg hlt]
      refine ⟨mem, fun k hk => ?_, rfl, fun _ _ => rfl⟩
      obtain ⟨k, rfl⟩ : ∃ k', k = k' + 1 := ⟨k - 1, by omega⟩
      rw [sortBytes, if_pos hle]

end Simulation

/-! ### Only the elements between the ends matter -/

section Congruence

variable {α : Type} {cmp : α → α → ℤ} {a b : ℕ → α} {lo hi p l r n first last : ℕ}

/-- The two agree between `lo` and `hi`. -/
def AgreeOn (lo hi : ℕ) (a b : ℕ → α) : Prop := ∀ i, lo ≤ i → i ≤ hi → a i = b i

lemma AgreeOn.swap (h : AgreeOn lo hi a b) {j k : ℕ} (hj : lo ≤ j) (hj' : j ≤ hi) (hk : lo ≤ k) (hk' : k ≤ hi) :
    AgreeOn lo hi (a ∘ Equiv.swap j k) (b ∘ Equiv.swap j k) := by
  intro i hi hi'
  apply h
  all_goals
    rw [Equiv.swap_apply_def]
    split_ifs <;> assumption

lemma sortLoop_agree (h : AgreeOn lo hi a b) (hp : lo ≤ p) (hpl : p < l) (hlr : l ≤ r) (hr : r ≤ hi) :
    ∃ a' b' m m', sortLoop cmp p n a l r = (a', m, m') ∧ sortLoop cmp p n b l r = (b', m, m') ∧ l ≤ m ∧ m ≤ m' ∧
      m' ≤ r ∧ AgreeOn lo hi a' b' := by
  induction n generalizing a b l r with
  | zero => exact ⟨a, b, l, r, rfl, rfl, le_rfl, hlr, le_rfl, h⟩
  | succ n ih =>
    rw [sortLoop, sortLoop]
    by_cases hlt : l < r
    · rw [if_pos hlt, if_pos hlt, ← h l (by omega) (by omega), ← h p hp (by omega), ← h r (by omega) hr]
      split_ifs
      · obtain ⟨a', b', m, m', ha, hb, hm, hmm, hm', hagree⟩ := ih (l := l + 1) h (by omega) (by omega) hr
        exact ⟨a', b', m, m', ha, hb, by omega, hmm, hm', hagree⟩
      · obtain ⟨a', b', m, m', ha, hb, hm, hmm, hm', hagree⟩ := ih (r := r - 1) h hpl (by omega) (by omega)
        exact ⟨a', b', m, m', ha, hb, hm, hmm, by omega, hagree⟩
      · exact ih (h.swap (by omega) (by omega) (by omega) hr) hpl hlr hr
    · rw [if_neg hlt, if_neg hlt]
      exact ⟨a, b, l, r, rfl, rfl, le_rfl, hlr, le_rfl, h⟩

lemma sort_agree (h : AgreeOn lo hi a b) (hfirst : lo ≤ first) (hlast : last ≤ hi) :
    AgreeOn lo hi (sort cmp n a first last) (sort cmp n b first last) := by
  induction n generalizing a b first last with
  | zero => exact h
  | succ n ih =>
    rw [sort, sort]
    by_cases hlt : first < last
    · obtain ⟨a', b', m, m', ha, hb, hm, hmm, hm', hagree⟩ :=
        @sortLoop_agree α cmp a b lo hi first (first + 1) last (2 * (last - first) + 1) h hfirst (by omega) hlt hlast
      rw [if_pos hlt, if_pos hlt, ha, hb]
      dsimp only
      rw [← hagree m (by omega) (by omega), ← hagree first hfirst (by omega)]
      apply ih _ (by omega) hlast
      apply ih _ hfirst (by omega)
      split_ifs
      · exact hagree.swap (by omega) (by omega) hfirst (by omega)
      · exact hagree.swap (by omega) (by omega) hfirst (by omega)
    · rw [if_neg hlt, if_neg hlt]
      exact h

end Congruence

/-! ### The whole array -/

/-- The elements of the array as a list. -/
@[grind] def cells (size nitems : ℕ) (mem : ℤ → UInt8) : List (Fin size → UInt8) := (List.range nitems).map (cell size mem)

/-- The comparison is an order, in which different elements may be equal. -/
structure TotalPreorder {α : Type} (cmp : α → α → ℤ) : Prop where
  swap : ∀ x y, cmp x y ≤ 0 ↔ 0 ≤ cmp y x
  trans : ∀ x y z, cmp x y ≤ 0 → cmp y z ≤ 0 → cmp x z ≤ 0

lemma TotalPreorder.refl {α : Type} {cmp : α → α → ℤ} (h : TotalPreorder cmp) (x : α) : cmp x x ≤ 0 := by
  rcases le_total (cmp x x) 0 with hle | hge
  · exact hle
  · exact (h.swap x x).2 hge

section Array

variable {size nitems : ℕ} {cmp : (Fin size → UInt8) → (Fin size → UInt8) → ℤ} {mem : ℤ → UInt8}

lemma s32_u64 (z : ℤ) : s32 (u64 z) = s32 z := by
  rw [u64_eq_emod, Int.toNat_of_nonneg (Int.emod_nonneg z (by norm_num))]
  have hsplit : z % 2 ^ 64 = z + 2 ^ 32 * (-(2 ^ 32 * (z / 2 ^ 64))) := by
    rw [Int.emod_def]
    ring
  rw [hsplit, s32_add_mul]

/-- On the elements of the array, the code in memory is the `quickSort` that the candidates are sorted with. -/
lemma quickSortBytes_eq (cmp : (Fin size → UInt8) → (Fin size → UInt8) → ℤ) (hsize : size < 2 ^ 31)
    (hfits : nitems * size < 2 ^ 31) (mem : ℤ → UInt8) :
    ∃ mem', (∀ n, 2 * nitems < n → quickSortBytes size cmp nitems n mem = some mem') ∧
      cells size nitems mem' = quickSort cmp (cells size nitems mem) ∧ SameOutside (nitems * size) mem mem' := by
  cases nitems with
  | zero =>
    refine ⟨mem, fun n hn => ?_, rfl, fun _ _ => rfl⟩
    obtain ⟨n, rfl⟩ : ∃ n', n = n' + 1 := ⟨n - 1, by omega⟩
    rw [quickSortBytes, s32_u64, s32_of_mem (by push_cast; omega) (by push_cast; omega), sortBytes, if_pos]
    push_cast
    omega
  | succ last =>
    have hend : s32 (u64 (((last + 1 : ℕ) - 1 : ℤ) * size)) = (last * size : ℕ) := by
      have hlast := @mul_size_le size last (last + 1) (by omega)
      rw [s32_u64, Nat.cast_add, Nat.cast_one, add_sub_cancel_right, ← Nat.cast_mul]
      exact s32_natCast (by omega)
    have hstart : (0 : ℤ) = (0 * size : ℕ) := by rw [Nat.zero_mul, Nat.cast_zero]
    rcases Nat.eq_zero_or_pos size with rfl | hpos
    · refine ⟨mem, fun n hn => ?_, ?_, fun _ _ => rfl⟩
      · obtain ⟨n, rfl⟩ : ∃ n', n = n' + 1 := ⟨n - 1, by omega⟩
        rw [quickSortBytes, hend, sortBytes, if_pos (by simp)]
      · -- elements of no bytes are all the same
        apply List.ext_getElem
        · exact (quickSort_perm (cells 0 (last + 1) mem)).length_eq.symm
        · intro i _ _
          exact Subsingleton.elim _ _
    · obtain ⟨mem', hrun, hcells, hsame⟩ :=
        @sortBytes_eq size (last + 1) (last + 1) 0 last cmp mem hfits hpos (by omega) (by omega)
      refine ⟨mem', fun n hn => ?_, ?_, hsame⟩
      · rw [quickSortBytes, hend, hstart]
        exact hrun n (by omega)
      · have hagree : AgreeOn 0 last (cell size mem) fun i => (cells size (last + 1) mem).getD i (cell size mem 0) := by
          intro i _ hi
          dsimp only
          rw [List.getD_eq_getElem?_getD, cells, List.getElem?_map, List.getElem?_range (by omega)]
          rfl
        have hcons : cells size (last + 1) mem =
            cell size mem 0 :: (List.range last).map (cell size mem ∘ Nat.succ) := by
          rw [cells, List.range_succ_eq_map, List.map_cons, List.map_map]
        have hsorted := @sort_agree _ cmp _ _ 0 last (last + 1) 0 last hagree le_rfl le_rfl
        have hlen : (cells size (last + 1) mem).length = last + 1 := by rw [cells, List.length_map, List.length_range]
        rw [hcons, quickSort, ← hcons, hlen, Nat.add_sub_cancel, cells, hcells]
        apply List.map_congr_left
        intro i hi
        exact hsorted i (Nat.zero_le i) (Nat.le_of_lt_succ (List.mem_range.1 hi))

end Array

/-- For every array whose size fits an `int` and every comparison, `quick_sort` ends, without an access outside of the
array. The elements stay the same ones. If the comparison is an order, they are sorted. -/
theorem quickSortBytes_sorts (size nitems : ℕ) (cmp : (Fin size → UInt8) → (Fin size → UInt8) → ℤ) (mem : ℤ → UInt8)
    (hsize : size < 2 ^ 31) (hfits : nitems * size < 2 ^ 31) :
    ∃ mem', (∀ n, 2 * nitems < n → quickSortBytes size cmp nitems n mem = some mem') ∧
      SameOutside (nitems * size) mem mem' ∧ (cells size nitems mem').Perm (cells size nitems mem) ∧
      (TotalPreorder cmp → (cells size nitems mem').Pairwise fun x y => cmp x y ≤ 0) := by
  obtain ⟨mem', hrun, hcells, hsame⟩ := quickSortBytes_eq cmp hsize hfits mem
  refine ⟨mem', hrun, hsame, ?_, fun hcmp => ?_⟩
  · rw [hcells]
    exact quickSort_perm (cells size nitems mem)
  · have hrefl : Std.Refl fun x y => cmp x y ≤ 0 := ⟨hcmp.refl⟩
    have htrans : IsTrans (Fin size → UInt8) fun x y => cmp x y ≤ 0 := ⟨hcmp.trans⟩
    rw [hcells]
    exact quickSort_sorted fun x _ y _ => ⟨id, (hcmp.swap y x).2⟩

/-- Three elements of two bytes, which are compared by the first one. -/
theorem quickSortBytes_sorts_three :
    ∃ mem', (∀ n, 2 * 3 < n → quickSortBytes 2 (fun x y => (x 0).toNat - (y 0).toNat) 3 n
          (fun i => [3, 0, 1, 7, 2, 5].getD i.toNat 0) = some mem') ∧
      SameOutside (3 * 2) (fun i => [3, 0, 1, 7, 2, 5].getD i.toNat 0) mem' ∧
      (cells 2 3 mem').Perm (cells 2 3 fun i => [3, 0, 1, 7, 2, 5].getD i.toNat 0) ∧
      (TotalPreorder (fun x y : Fin 2 → UInt8 => ((x 0).toNat - (y 0).toNat : ℤ)) →
        (cells 2 3 mem').Pairwise fun x y => ((x 0).toNat - (y 0).toNat : ℤ) ≤ 0) :=
  quickSortBytes_sorts 2 3 (fun x y => (x 0).toNat - (y 0).toNat) (fun i => [3, 0, 1, 7, 2, 5].getD i.toNat 0)
    (by decide) (by decide)

end Rrdtool
