import Mathlib.Tactic
import Mathlib.Order.Interval.Finset.Basic
import Mathlib.Data.Int.Interval

/-!
# Tilings of a range of integers

A list of tiles, each with a flag, that follow each other from `lo` to `hi` without a gap (`Tiles`). The covered
integers are those of the tiles whose flag is set. Neighbours of one flag can be made one tile (`collapse`), which keeps
the tiling and what is covered, and leaves tiles whose flags alternate.
-/

namespace Tiling

/-- The integers from `start` to `stop`, with a flag. -/
structure Tile where
  covered : Bool
  start : ℤ
  stop : ℤ
deriving DecidableEq, Inhabited

/-- The tiles follow each other from `lo` to `hi`. -/
@[grind] def Tiles : ℤ → ℤ → List Tile → Prop
  | lo, hi, [] => lo = hi + 1
  | lo, hi, c :: l => c.start = lo ∧ lo ≤ c.stop ∧ Tiles (c.stop + 1) hi l

/-- The integers that one tile covers. -/
noncomputable def Tile.cover (c : Tile) : Finset ℤ := if c.covered then Finset.Icc c.start c.stop else ∅

/-- The covered integers. -/
noncomputable def cover : List Tile → Finset ℤ
  | [] => ∅
  | c :: l => c.cover ∪ cover l

/-- A tiling whose flags alternate. -/
structure Partition (lo hi : ℤ) (l : List Tile) : Prop where
  tiles : Tiles lo hi l
  alternate : l.IsChain fun c d => c.covered ≠ d.covered

variable {lo hi t : ℤ} {c d : Tile} {l l' : List Tile}

@[simp] lemma cover_nil : cover [] = ∅ := rfl
@[simp] lemma cover_cons : cover (c :: l) = c.cover ∪ cover l := rfl

lemma mem_cover_tile : t ∈ c.cover ↔ c.covered = true ∧ c.start ≤ t ∧ t ≤ c.stop := by
  unfold Tile.cover
  split
  · rename_i h
    rw [Finset.mem_Icc, and_iff_right h]
  · rename_i h
    exact iff_of_false (Finset.notMem_empty t) fun h' => h h'.1

@[simp] lemma cover_append (l l' : List Tile) : cover (l ++ l') = cover l ∪ cover l' := by
  induction l with
  | nil => exact (Finset.empty_union _).symm
  | cons c l ih => rw [List.cons_append, cover_cons, cover_cons, ih, Finset.union_assoc]

lemma Tiles.le (h : Tiles lo hi l) : lo ≤ hi + 1 := by
  induction l generalizing lo with
  | nil => exact (show lo = hi + 1 from h).le
  | cons c l ih =>
    obtain ⟨-, hle, hrest⟩ := h
    have := ih hrest
    omega

/-- What is covered lies in the range. -/
lemma Tiles.bounds (h : Tiles lo hi l) (ht : t ∈ cover l) : lo ≤ t ∧ t ≤ hi := by
  induction l generalizing lo with
  | nil => exact absurd ht (Finset.notMem_empty t)
  | cons c l ih =>
    obtain ⟨rfl, hle, hrest⟩ := h
    obtain hc | hl := Finset.mem_union.1 ht
    · obtain ⟨-, hlo, hhi⟩ := mem_cover_tile.1 hc
      have := hrest.le
      omega
    · obtain ⟨hlo, hhi⟩ := ih hrest hl
      omega

/-- No tile starts before the range. -/
lemma Tiles.start_le (h : Tiles lo hi l) (hc : c ∈ l) : lo ≤ c.start := by
  induction l generalizing lo with
  | nil => exact absurd hc List.not_mem_nil
  | cons d l ih =>
    obtain ⟨rfl, hle, hrest⟩ := h
    rcases List.mem_cons.1 hc with rfl | hc
    · exact le_rfl
    · have := ih hrest hc
      omega

/-- The last tile ends the range. -/
lemma Tiles.stop_getLast (h : Tiles lo hi l) (hc : c ∈ l.getLast?) : c.stop = hi := by
  induction l generalizing lo with
  | nil => cases hc
  | cons d l ih =>
    obtain ⟨-, -, hrest⟩ := h
    cases l with
    | nil =>
      obtain rfl : d = c := Option.some.inj hc
      have : d.stop + 1 = hi + 1 := hrest
      omega
    | cons d' l => exact ih hrest hc

lemma tiles_append : Tiles lo hi (l ++ l') ↔ ∃ m, Tiles lo m l ∧ Tiles (m + 1) hi l' := by
  induction l generalizing lo with
  | nil =>
    constructor
    · intro h
      exact ⟨lo - 1, (by omega : lo = lo - 1 + 1), by rwa [sub_add_cancel]⟩
    · rintro ⟨m, hm, h⟩
      obtain rfl : lo = m + 1 := hm
      exact h
  | cons c l ih =>
    simp only [List.cons_append, Tiles, ih]
    constructor
    · rintro ⟨hs, hle, m, hm, h⟩
      exact ⟨m, ⟨hs, hle, hm⟩, h⟩
    · rintro ⟨m, ⟨hs, hle, hm⟩, h⟩
      exact ⟨hs, hle, m, hm, h⟩

/-- The tile that starts the range. -/
lemma Tiles.eq_cons (h : Tiles lo hi l) (hle : lo ≤ hi) : ∃ c l', l = c :: l' := by
  cases l with
  | nil =>
    have : lo = hi + 1 := h
    omega
  | cons c l => exact ⟨c, l, rfl⟩

lemma cover_tile_subset (c : Tile) : c.cover ⊆ Finset.Icc c.start c.stop :=
  fun _ ht => Finset.mem_Icc.2 (mem_cover_tile.1 ht).2

/-- A tile covers what its two parts cover. -/
lemma Tile.cover_cut (hs : c.start ≤ t) (he : t ≤ c.stop) :
    (⟨c.covered, c.start, t - 1⟩ : Tile).cover ∪ (⟨c.covered, t, c.stop⟩ : Tile).cover = c.cover := by
  ext u
  rw [Finset.mem_union, mem_cover_tile, mem_cover_tile, mem_cover_tile, ← and_or_left]
  dsimp only
  exact and_congr_right fun _ => by omega

/-- The integers of a tile without the flag are not covered. -/
lemma Tiles.notMem_cover (h : Tiles lo hi l) (hc : c ∈ l) (hflag : c.covered = false) (hs : c.start ≤ t)
    (he : t ≤ c.stop) : t ∉ cover l := by
  induction l generalizing lo with
  | nil => exact absurd hc List.not_mem_nil
  | cons d l ih =>
    obtain ⟨rfl, hle, hrest⟩ := h
    intro ht
    rcases List.mem_cons.1 hc with rfl | hc
    · rcases Finset.mem_union.1 ht with ht | ht
      · exact absurd (mem_cover_tile.1 ht).1 (by rw [hflag]; exact Bool.false_ne_true)
      · have := hrest.bounds ht
        omega
    · rcases Finset.mem_union.1 ht with ht | ht
      · have hd := (mem_cover_tile.1 ht).2.2
        have := hrest.start_le hc
        omega
      · exact ih hrest hc ht

/-- Covering the range up to `e` tile by tile. -/
lemma Tiles.cover_union_Icc {e : ℤ} (h : Tiles lo hi (c :: l)) (he : c.stop ≤ e) :
    Finset.Icc lo c.stop ∪ (cover l ∪ Finset.Icc (c.stop + 1) e) = cover (c :: l) ∪ Finset.Icc lo e := by
  obtain ⟨rfl, hle, -⟩ := h
  have hc := cover_tile_subset c
  ext t
  have hct := @hc t
  simp only [cover_cons, Finset.mem_union, Finset.mem_Icc] at hct ⊢
  by_cases ht : t ∈ c.cover
  · have := hct ht
    exact iff_of_true (.inl this) (.inl (.inl ht))
  · simp only [ht, false_or]
    by_cases htl : t ∈ cover l
    · simp only [htl, true_or, or_true]
    · simp only [htl, false_or]
      omega

/-- Counting what is not covered up to `e` tile by tile. -/
lemma Tiles.card_Icc_sdiff {e : ℤ} (h : Tiles lo hi (c :: l)) (he : c.stop ≤ e) :
    (Finset.Icc lo e \ cover (c :: l)).card =
      (Finset.Icc lo c.stop \ c.cover).card + (Finset.Icc (c.stop + 1) e \ cover l).card := by
  obtain ⟨rfl, hle, hrest⟩ := h
  have hc := cover_tile_subset c
  rw [← Finset.card_union_of_disjoint]
  · congr 1
    ext t
    have hct := @hc t
    have hlt : t ∈ cover l → c.stop + 1 ≤ t := fun ht => (hrest.bounds ht).1
    simp only [cover_cons, Finset.mem_union, Finset.mem_sdiff, Finset.mem_Icc, not_or] at hct ⊢
    by_cases ht : t ∈ c.cover
    · have := hct ht
      simp only [ht, not_true, false_and, and_false, false_or, false_iff]
      omega
    · by_cases htl : t ∈ cover l
      · have := hlt htl
        simp only [ht, htl, not_true, not_false_iff, and_false, and_true, or_false, false_iff]
        omega
      · simp only [ht, htl, not_false_iff, and_true]
        omega
  · rw [Finset.disjoint_left]
    intro t ht ht'
    have h1 := (Finset.mem_Icc.1 (Finset.mem_sdiff.1 ht).1).2
    have h2 := (Finset.mem_Icc.1 (Finset.mem_sdiff.1 ht').1).1
    omega

/-- The integer after a tile without the flag is covered, as the flags alternate. -/
lemma Partition.next_mem_cover (h : Partition lo hi l) (hc : c ∈ l) (hflag : c.covered = false) (hlt : c.stop < hi) :
    c.stop + 1 ∈ cover l := by
  obtain ⟨l₁, l₂, rfl⟩ := List.append_of_mem hc
  obtain ⟨m, -, -, -, hrest⟩ := tiles_append.1 h.tiles
  obtain ⟨d, l₂, rfl⟩ := hrest.eq_cons (by omega)
  obtain ⟨hds, hdle, -⟩ := hrest
  have hne := (List.isChain_cons_cons.1 (List.isChain_append.1 h.alternate).2.1).1
  rw [hflag] at hne
  have hd : d.covered = true := Bool.eq_true_of_not_eq_false hne.symm
  rw [cover_append, cover_cons, cover_cons]
  exact Finset.mem_union_right _ (Finset.mem_union_right _
    (Finset.mem_union_left _ (mem_cover_tile.2 ⟨hd, hds.le, hdle⟩)))

lemma Tiles.start_le_stop (h : Tiles lo hi l) (hc : c ∈ l) : c.start ≤ c.stop := by
  induction l generalizing lo with
  | nil => exact absurd hc List.not_mem_nil
  | cons d l ih =>
    obtain ⟨rfl, hle, hrest⟩ := h
    rcases List.mem_cons.1 hc with rfl | hc
    · exact hle
    · exact ih hrest hc

/-- So is the integer before it. -/
lemma Partition.prev_mem_cover (h : Partition lo hi l) (hc : c ∈ l) (hflag : c.covered = false) (hlt : lo < c.start) :
    c.start - 1 ∈ cover l := by
  obtain ⟨l₁, l₂, rfl⟩ := List.append_of_mem hc
  obtain ⟨m, hfront, hcs, -, -⟩ := tiles_append.1 h.tiles
  rcases List.eq_nil_or_concat' l₁ with rfl | ⟨l₀, d, rfl⟩
  · have : lo = m + 1 := hfront
    omega
  · have hmem : d ∈ l₀ ++ [d] := List.mem_append_right _ (List.mem_singleton_self d)
    have hstop : d.stop = m := hfront.stop_getLast (by rw [List.getLast?_concat]; rfl)
    have hle := hfront.start_le_stop hmem
    have hne := (List.isChain_append.1 h.alternate).2.2 d (by rw [List.getLast?_concat]; rfl) c rfl
    rw [hflag] at hne
    have hd : d.covered = true := Bool.eq_true_of_not_eq_false hne
    rw [cover_append, cover_append, cover_cons]
    exact Finset.mem_union_left _ (Finset.mem_union_right _
      (Finset.mem_union_left _ (mem_cover_tile.2 ⟨hd, by omega, by omega⟩)))

/-! ### Collapsing -/

/-- The tiles with `c` in front, where neighbours of one flag are one tile. -/
@[grind] def collapse (c : Tile) : List Tile → List Tile
  | [] => [c]
  | d :: l => if c.covered = d.covered then collapse ⟨c.covered, c.start, d.stop⟩ l else c :: collapse d l

lemma collapse_tiles (h : Tiles lo hi (c :: l)) : Tiles lo hi (collapse c l) := by
  induction l generalizing lo c with
  | nil => exact h
  | cons d l ih =>
    obtain ⟨hs, hle, hds, hdle, hrest⟩ := h
    rw [collapse]
    split
    · exact ih ⟨hs, by dsimp only; omega, hrest⟩
    · exact ⟨hs, hle, ih ⟨hds, hdle, hrest⟩⟩

lemma cover_collapse (h : Tiles lo hi (c :: l)) : cover (collapse c l) = cover (c :: l) := by
  induction l generalizing lo c with
  | nil => rfl
  | cons d l ih =>
    obtain ⟨hs, hle, hds, hdle, hrest⟩ := h
    rw [collapse]
    split
    · rename_i hsame
      have hmerged : (⟨c.covered, c.start, d.stop⟩ : Tile).cover = c.cover ∪ d.cover := by
        ext t
        rw [Finset.mem_union, mem_cover_tile, mem_cover_tile, mem_cover_tile, ← hsame, ← and_or_left]
        dsimp only
        exact and_congr_right fun _ => by omega
      rw [ih (⟨hs, by dsimp only; omega, hrest⟩ : Tiles lo hi (⟨c.covered, c.start, d.stop⟩ :: l)), cover_cons,
        cover_cons, cover_cons, hmerged, Finset.union_assoc]
    · rw [cover_cons, ih ⟨hds, hdle, hrest⟩]
      rfl

lemma collapse_head (c : Tile) (l : List Tile) : ∃ c' l', collapse c l = c' :: l' ∧ c'.covered = c.covered := by
  induction l generalizing c with
  | nil => exact ⟨c, [], rfl, rfl⟩
  | cons d l ih =>
    rw [collapse]
    split
    · exact ih ⟨c.covered, c.start, d.stop⟩
    · exact ⟨c, _, rfl, rfl⟩

lemma collapse_alternate (c : Tile) (l : List Tile) : (collapse c l).IsChain fun c d => c.covered ≠ d.covered := by
  induction l generalizing c with
  | nil => exact List.isChain_singleton c
  | cons d l ih =>
    rw [collapse]
    split
    · exact ih ⟨c.covered, c.start, d.stop⟩
    · rename_i hne
      obtain ⟨c', l', heq, hflag⟩ := collapse_head d l
      have hrest := ih d
      rw [heq] at hrest ⊢
      exact List.isChain_cons_cons.2 ⟨by rwa [hflag], hrest⟩

/-- Where the flags alternate there is nothing to collapse. -/
lemma collapse_of_alternate (h : (c :: l).IsChain fun c d => c.covered ≠ d.covered) : collapse c l = c :: l := by
  induction l generalizing c with
  | nil => rfl
  | cons d l ih =>
    obtain ⟨hne, hrest⟩ := List.isChain_cons_cons.1 h
    rw [collapse, if_neg hne, ih hrest]

/-- Collapsing a tiling gives a partition that covers the same. -/
lemma collapse_partition (h : Tiles lo hi (c :: l)) :
    Partition lo hi (collapse c l) ∧ cover (collapse c l) = cover (c :: l) :=
  ⟨⟨collapse_tiles h, collapse_alternate c l⟩, cover_collapse h⟩

end Tiling
