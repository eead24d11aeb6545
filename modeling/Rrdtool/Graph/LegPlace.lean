import Mathlib.Data.List.DropRight
import Rrdtool.Rpn.Calc

/-!
# Places of legends

Port of `leg_place` (`src/rrd_graph.c`). The legends are read one after the other and collected until they fill a line;
one that does not fit is taken back and read again for the next line. A first pass may be made to measure the lines
only (`calc_width`). `legLoop_places` says that every element comes into one line.
-/

namespace Rrdtool

namespace Legend

/-! ### Elements -/

/-- `TXA_LEFT` and so on. -/
inductive Align where
  | left
  | right
  | center
  | justified
deriving DecidableEq

/-- The types of elements that `leg_place` knows. -/
inductive Gf where
  | textalign
  | hrule
  | vrule
  | other
deriving DecidableEq

structure Element where
  gf : Gf
  txtalign : Align
  yrule : RrdValue
  xrule : ℤ
  legend : Text
  legX : ℚ
  legY : ℚ
deriving DecidableEq

/-- The image, with the functions of its font. -/
structure Image where
  machine : Machine
  size : ℚ
  textWidth : ℚ → Text → ℚ
  minval : RrdValue
  maxval : RrdValue
  start : ℤ
  endTime : ℤ
  legendwidth : ℤ
  forceRulesLegend : Bool
  noLegend : Bool
  onlyGraph : Bool
  gdesC : ℕ

def Image.border (im : Image) : ℤ := toInt im.machine (.fin (im.size * 2))

def Image.interleg (im : Image) : ℤ := toInt im.machine (.fin (im.size * 2))

/-! ### What a legend asks for -/

/-- The first `\t` is made a tabulator. -/
@[grind] def replaceTab : Text → Option Text
  | [] => none
  | c :: s => if c = '\\' ∧ s.head? = some 't' then some ('\t' :: s.tail) else (replaceTab s).map (c :: ·)

/-- One after the other, as long as there are any. -/
@[grind] def replaceTabs : ℕ → Text → Text
  | 0, s => s
  | k + 1, s =>
    match replaceTab s with
    | none => s
    | some s' => replaceTabs k s'

def tabs (s : Text) : Text := replaceTabs s.length s

/-- The control code at the end of a legend, and what stands in front of it. -/
def controlCode (legend : Text) : Text × Char :=
  if 2 ≤ legend.length ∧ legend.getD (legend.length - 2) '\x00' = '\\' then
    (legend.take (legend.length - 2), legend.getD (legend.length - 1) '\x00')
  else (legend, '\x00')

/-- The control codes that there are. -/
def controlCodes : List Char := ['l', 'n', 'r', 'j', 'c', 'u', '.', 's', '\x00', 'g']

inductive Fault where
  | unknownControlCode (message : Text)
  | outside (i : ℤ)
deriving DecidableEq

/-- The text of a legend, and the control code that is obeyed. -/
structure Request where
  legend : Text
  prtFctn : Char
deriving DecidableEq

@[grind] def request (legend : Text) : Except Fault Request :=
  let (legend, prtFctn) := controlCode (tabs legend)
  if prtFctn ∉ controlCodes then
    .error (.unknownControlCode ("Unknown control code at the end of '".toList ++ legend ++ "\\".toList ++ [prtFctn, '\'']))
  else
    let prtFctn := if prtFctn = 'n' then 'l' else prtFctn
    -- `\.` lets a legend end in what would be a code.
    let prtFctn := if prtFctn = '.' then '\x00' else prtFctn
    .ok { legend := if prtFctn = 'g' then legend.rdropWhile (· = ' ') else legend, prtFctn }

/-- The control code that ends a line; `\g` does not. -/
@[grind] def Request.code (r : Request) : Char := if r.prtFctn = 'g' then '\x00' else r.prtFctn

/-- A rule out of the graph has no legend. -/
@[grind] def Image.shown (im : Image) (e : Element) : Text :=
  if !im.forceRulesLegend ∧
      (e.gf = .hrule ∧ (e.yrule < im.minval ∨ im.maxval < e.yrule) ∨
        e.gf = .vrule ∧ (e.xrule < im.start ∨ im.endTime < e.xrule)) then []
  else e.legend

/-! ### The loop -/

/-- An element in a line, and where it was put. -/
structure Place where
  item : ℕ
  x : ℚ
  y : ℚ
deriving DecidableEq

/-- A line of legends: the elements from `first` up to `stop`, and those of them that were given a place. -/
structure Line where
  first : ℕ
  stop : ℕ
  places : List Place
deriving DecidableEq

/-- The variables of `leg_place`, and the lines so far. -/
structure Pass where
  i : ℕ
  gdes : ℕ → Element
  legspace : ℕ → ℤ
  fill : ℤ
  legendwidth : ℚ
  legC : ℕ
  legY : ℤ
  mark : ℕ
  defaultTxtalign : Align
  lines : List Line

/-- The text of the element at hand takes up space in the line. -/
@[grind] def Pass.read (im : Image) (st : Pass) (r : Request) : Pass :=
  let e := st.gdes st.i
  let legspace := if r.legend = [] then 0 else if r.prtFctn = 'g' then 0 else im.interleg
  let filled := if 0 < st.fill then s32 (st.fill + legspace) else st.fill
  { st with
    gdes := Function.update st.gdes st.i { e with legend := r.legend }
    legspace := Function.update st.legspace st.i legspace
    fill := if r.legend = [] then st.fill
      else toInt im.machine (.fin (filled + im.textWidth (s32 (filled + im.border)) r.legend))
    legC := if r.legend = [] then st.legC else st.legC + 1
    defaultTxtalign := if e.gf = .textalign then e.txtalign else st.defaultTxtalign }

/-- The control code of an alignment. -/
def Align.prtFctn : Align → Char
  | .right => 'r'
  | .center => 'c'
  | .justified => 'j'
  | .left => 'l'

/-- Whether there is a line to be placed, and up to where: without a control code it depends on the space. -/
def Pass.wrap (im : Image) (calcWidth : Bool) (fillLast : ℤ) (st : Pass) (prtFctn : Char) : Pass × Char × ℕ :=
  if prtFctn = '\x00' then
    let legendwidth : ℚ := if calcWidth ∧ st.legendwidth < st.fill then st.fill else st.legendwidth
    let prtFctn := if st.i + 1 = im.gdesC ∨ legendwidth < st.fill then st.defaultTxtalign.prtFctn else '\x00'
    if legendwidth < st.fill ∧ 1 < st.legC then
      -- Go back one.
      ({ st with legendwidth, fill := fillLast, legC := st.legC - 1 },
        if st.legC - 1 = 1 ∧ prtFctn = 'j' then 'l' else prtFctn, st.i)
    else ({ st with legendwidth }, if st.legC = 1 ∧ prtFctn = 'j' then 'l' else prtFctn, st.i + 1)
  else (st, prtFctn, st.i + 1)

/-- A line while its elements are placed. -/
structure Row where
  gdes : ℕ → Element
  legX : ℚ
  places : List Place

/-- An element is given its place; empty legends are skipped. -/
@[grind] def Row.add (im : Image) (legspace : ℕ → ℤ) (y glue : ℚ) (row : Row) (ii : ℕ) : Row :=
  let e := row.gdes ii
  if e.legend = [] then row
  else
    { gdes := Function.update row.gdes ii { e with legX := row.legX, legY := y }
      legX := row.legX + im.textWidth row.legX e.legend + legspace ii + glue
      places := row.places ++ [{ item := ii, x := row.legX, y }] }

/-- The line up to `stop` is placed. -/
@[grind] def Pass.place (im : Image) (calcWidth : Bool) (st : Pass) (prtFctn : Char) (stop : ℕ) : Pass :=
  let glue : ℚ := if 2 ≤ st.legC ∧ prtFctn = 'j' then (st.legendwidth - st.fill) / ((st.legC : ℚ) - 1) else 0
  let legX : ℚ :=
    if prtFctn = 'c' then im.border + (st.legendwidth - st.fill) / 2
    else if prtFctn = 'r' then st.legendwidth - st.fill + im.border
    else im.border
  let y : ℚ := (s32 (st.legY + im.border) : ℤ)
  let row := (List.range' st.mark (stop - st.mark)).foldl (Row.add im st.legspace y glue) ⟨st.gdes, legX, []⟩
  let legY := if im.border < row.legX ∨ prtFctn = 's' then toInt im.machine (.fin (st.legY + im.size * (9 / 5))) else st.legY
  let legY := if prtFctn = 's' then toInt im.machine (.fin (legY - im.size)) else legY
  let legY := if prtFctn = 'u' then toInt im.machine (.fin (legY - im.size * (9 / 5))) else legY
  { st with
    gdes := row.gdes
    legY
    legendwidth := if calcWidth ∧ st.legendwidth < st.fill then st.fill else st.legendwidth
    fill := 0
    legC := 0
    mark := max st.mark stop
    lines := st.lines ++ [{ first := st.mark, stop, places := row.places }] }

/-- The end of the body: if the lines are only measured, the element before `stop` gets the saved legend back. -/
@[grind] def Pass.next (calcWidth : Bool) (savedLegend : Text) (st : Pass) (stop : ℕ) : Except Fault Pass :=
  if calcWidth then
    match stop with
    | 0 => .error (.outside (-1))
    | i + 1 => .ok { st with i := stop, gdes := Function.update st.gdes i { st.gdes i with legend := savedLegend } }
  else .ok { st with i := stop }

/-- The body of the loop. -/
@[grind] def legBody (im : Image) (calcWidth : Bool) (st : Pass) : Except Fault Pass := do
  let r ← request (im.shown (st.gdes st.i))
  let (wrapped, prtFctn, stop) := (st.read im r).wrap im calcWidth st.fill r.code
  let placed := if prtFctn = '\x00' then wrapped else wrapped.place im calcWidth prtFctn stop
  placed.next calcWidth (st.gdes st.i).legend stop

/-- The loop over the elements; nothing, if there are more rounds than `fuel`. -/
@[grind] def legLoop (im : Image) (calcWidth : Bool) : ℕ → Pass → Option (Except Fault Pass)
  | 0, _ => none
  | fuel + 1, st =>
    if st.i < im.gdesC then
      match legBody im calcWidth st with
      | .error e => some (.error e)
      | .ok st' => legLoop im calcWidth fuel st'
    else some (.ok st)

/-- What the loop starts with. -/
@[grind] def Pass.start (im : Image) (calcWidth : Bool) (gdes : ℕ → Element) (legspace : ℕ → ℤ) : Pass :=
  { i := 0, gdes, legspace, fill := 0
    legendwidth := if calcWidth then 0 else ((im.legendwidth - s32 (2 * im.border) : ℤ) : ℚ)
    legC := 0, legY := 0, mark := 0, defaultTxtalign := .justified, lines := [] }

/-- The image after `leg_place`. -/
structure Placed where
  gdes : ℕ → Element
  legendwidth : ℤ
  legendheight : ℤ

def legPlace (im : Image) (calcWidth : Bool) (legendheight : ℤ) (gdes : ℕ → Element) (legspace : ℕ → ℤ) (fuel : ℕ) :
    Option (Except Fault Placed) :=
  if im.noLegend ∨ im.onlyGraph then some (.ok ⟨gdes, im.legendwidth, legendheight⟩)
  else
    (legLoop im calcWidth fuel (Pass.start im calcWidth gdes legspace)).map fun r => r.map fun st =>
      if calcWidth then
        ⟨st.gdes, toTime im.machine (.fin (st.legendwidth + (s32 (2 * im.border) : ℤ))), legendheight⟩
      else ⟨st.gdes, im.legendwidth, toTime im.machine (.fin (st.legY + im.border * (3 / 5)))⟩

/-! ### Lines -/

/-- The elements with a place in the line. -/
@[grind] def Line.items (line : Line) : List ℕ := line.places.map (·.item)

@[grind] def Line.run (line : Line) : List ℕ := List.range' line.first (line.stop - line.first)

/-- The lines follow each other from `a` to `b`, and none is without an element. -/
def Consecutive : ℕ → ℕ → List Line → Prop
  | a, b, [] => a = b
  | a, b, line :: lines => line.first = a ∧ a < line.stop ∧ Consecutive line.stop b lines

/-- What a line says is so for the elements. -/
structure Line.Lies (calcWidth : Bool) (gdes : ℕ → Element) (line : Line) : Prop where
  sublist : line.items.Sublist line.run
  shown : calcWidth = false → line.items = line.run.filter fun k => (gdes k).legend ≠ []
  positions : ∀ p ∈ line.places, (gdes p.item).legX = p.x ∧ (gdes p.item).legY = p.y

section Lines

variable {a b c k : ℕ} {line : Line} {lines : List Line} {gdes gdes' : ℕ → Element} {calcWidth : Bool}

lemma Consecutive.concat (h : Consecutive a b lines) (hfirst : line.first = b) (hlt : b < line.stop) :
    Consecutive a line.stop (lines ++ [line]) := by
  induction lines generalizing a with
  | nil =>
    obtain rfl : a = b := h
    exact ⟨hfirst, hlt, rfl⟩
  | cons l lines ih =>
    obtain ⟨hl, hstop, hrest⟩ := h
    exact ⟨hl, hstop, ih hrest⟩

/-- The lines lie in the range that they cover. -/
lemma Consecutive.bounds (h : Consecutive a b lines) :
    a ≤ b ∧ ∀ line ∈ lines, a ≤ line.first ∧ line.stop ≤ b := by
  induction lines generalizing a with
  | nil =>
    obtain rfl : a = b := h
    exact ⟨le_rfl, nofun⟩
  | cons l lines ih =>
    obtain ⟨rfl, hstop, hrest⟩ := h
    obtain ⟨hle, hall⟩ := ih hrest
    refine ⟨hstop.le.trans hle, fun line hline => ?_⟩
    rcases List.mem_cons.1 hline with rfl | hline
    · exact ⟨le_rfl, hle⟩
    · exact ⟨hstop.le.trans (hall line hline).1, (hall line hline).2⟩

/-- Every element of the range is in one line. -/
lemma Consecutive.existsUnique (h : Consecutive a b lines) (hak : a ≤ k) (hkb : k < b) :
    ∃! line, line ∈ lines ∧ line.first ≤ k ∧ k < line.stop := by
  induction lines generalizing a with
  | nil =>
    obtain rfl : a = b := h
    exact absurd (hak.trans_lt hkb) (lt_irrefl a)
  | cons l lines ih =>
    obtain ⟨rfl, hstop, hrest⟩ := h
    by_cases hk : k < l.stop
    · refine ⟨l, ⟨List.mem_cons_self, hak, hk⟩, ?_⟩
      rintro line ⟨hline, hfirst, -⟩
      rcases List.mem_cons.1 hline with rfl | hline
      · rfl
      · exact absurd (hk.trans_le (hrest.bounds.2 line hline).1) (Nat.not_lt.2 hfirst)
    · obtain ⟨line, ⟨hline, hfirst, hlt⟩, huniq⟩ := ih hrest (Nat.le_of_not_lt hk)
      refine ⟨line, ⟨List.mem_cons_of_mem l hline, hfirst, hlt⟩, ?_⟩
      rintro line' ⟨hline', hin⟩
      rcases List.mem_cons.1 hline' with rfl | hline'
      · exact absurd hin.2 hk
      · exact huniq line' ⟨hline', hin⟩

lemma mem_run : k ∈ line.run ↔ line.first ≤ k ∧ k < line.stop := by
  rw [Line.run, List.mem_range'_1]
  omega

/-- A line is not concerned with the elements behind it. -/
lemma Line.Lies.congr (h : line.Lies calcWidth gdes)
    (hpos : ∀ k < line.stop, (gdes' k).legX = (gdes k).legX ∧ (gdes' k).legY = (gdes k).legY)
    (hlegend : calcWidth = false → ∀ k < line.stop, (gdes' k).legend = (gdes k).legend) : line.Lies calcWidth gdes' where
  sublist := h.sublist
  shown := by
    intro hcalc
    rw [h.shown hcalc]
    apply List.filter_congr
    intro k hk
    rw [hlegend hcalc k (mem_run.1 hk).2]
  positions := by
    intro p hp
    have hrun := h.sublist.subset (List.mem_map_of_mem hp)
    obtain ⟨hx, hy⟩ := hpos p.item (mem_run.1 hrun).2
    rw [hx, hy]
    exact h.positions p hp

end Lines

/-! ### One round -/

section Body

variable {im : Image} {calcWidth : Bool} {st st' w : Pass} {prtFctn c : Char} {stop k : ℕ} {fillLast : ℤ} {saved : Text}

/-- What the placing of the elements `ks` makes of a row. -/
structure Row.Adds (ks : List ℕ) (row row' : Row) : Prop where
  legend : ∀ k, (row'.gdes k).legend = (row.gdes k).legend
  frame : ∀ k, k ∉ ks → row'.gdes k = row.gdes k
  items : row'.places.map (·.item) = row.places.map (·.item) ++ ks.filter fun k => (row.gdes k).legend ≠ []
  positions : ∀ p ∈ row'.places, p ∈ row.places ∨ (row'.gdes p.item).legX = p.x ∧ (row'.gdes p.item).legY = p.y

lemma add_cases (im : Image) (legspace : ℕ → ℤ) (y glue : ℚ) (row : Row) (k : ℕ) :
    (row.gdes k).legend = [] ∧ row.add im legspace y glue k = row ∨
      (row.gdes k).legend ≠ [] ∧
        (row.add im legspace y glue k).gdes = Function.update row.gdes k { row.gdes k with legX := row.legX, legY := y } ∧
        (row.add im legspace y glue k).places = row.places ++ [{ item := k, x := row.legX, y }] := by
  unfold Row.add
  by_cases hempty : (row.gdes k).legend = []
  · exact .inl ⟨hempty, if_pos hempty⟩
  · dsimp only
    rw [if_neg hempty]
    exact .inr ⟨hempty, rfl, rfl⟩

lemma adds_foldl (legspace : ℕ → ℤ) (y glue : ℚ) {ks : List ℕ} (hnodup : ks.Nodup) (row : Row) :
    row.Adds ks (ks.foldl (Row.add im legspace y glue) row) := by
  induction ks generalizing row with
  | nil => exact ⟨fun _ => rfl, fun _ _ => rfl, (List.append_nil _).symm, fun p hp => .inl hp⟩
  | cons k ks ih =>
    obtain ⟨hk, hks⟩ := List.nodup_cons.1 hnodup
    have h := ih hks (row.add im legspace y glue k)
    rw [List.foldl_cons]
    obtain ⟨hempty, heq⟩ | ⟨hempty, hgdes, hplaces⟩ := add_cases im legspace y glue row k
    · rw [heq] at h ⊢
      refine ⟨h.legend, fun j hj => h.frame j fun h => hj (List.mem_cons_of_mem k h), ?_, h.positions⟩
      rw [h.items, List.filter_cons_of_neg (by simpa using hempty)]
    · have hlegend : ∀ j, ((row.add im legspace y glue k).gdes j).legend = (row.gdes j).legend := by
        intro j
        rw [hgdes]
        obtain rfl | hj := eq_or_ne j k
        · rw [Function.update_self]
        · rw [Function.update_of_ne hj]
      refine ⟨fun j => (h.legend j).trans (hlegend j), fun j hj => ?_, ?_, fun p hp => ?_⟩
      · obtain ⟨hjk, hjks⟩ := not_or.1 (mt List.mem_cons.2 hj)
        rw [h.frame j hjks, hgdes, Function.update_of_ne hjk]
      · rw [h.items, hplaces, List.filter_cons_of_pos (by simpa using hempty), List.map_append, List.append_assoc]
        simp only [hlegend]
        rfl
      · rcases h.positions p hp with hin | hpos
        · rw [hplaces] at hin
          rcases List.mem_append.1 hin with hin | hin
          · exact .inl hin
          · obtain rfl := List.mem_singleton.1 hin
            right
            rw [h.frame _ hk, hgdes, Function.update_self]
            exact ⟨rfl, rfl⟩
        · exact .inr hpos

/-- A line is placed without a change of its legends. -/
lemma place_legend (st : Pass) (k : ℕ) : ((st.place im calcWidth prtFctn stop).gdes k).legend = (st.gdes k).legend :=
  (adds_foldl _ _ _ List.nodup_range' _).legend k

/-- What the placing of a line does. -/
lemma place_spec (hmark : st.mark < stop) :
    ∃ places : List Place,
      (st.place im calcWidth prtFctn stop).lines = st.lines ++ [⟨st.mark, stop, places⟩] ∧
      (⟨st.mark, stop, places⟩ : Line).Lies calcWidth (st.place im calcWidth prtFctn stop).gdes ∧
      (∀ k, k < st.mark ∨ stop ≤ k → (st.place im calcWidth prtFctn stop).gdes k = st.gdes k) ∧
      (st.place im calcWidth prtFctn stop).mark = stop := by
  unfold Pass.place
  dsimp only
  set legX : ℚ := if prtFctn = 'c' then im.border + (st.legendwidth - st.fill) / 2
    else if prtFctn = 'r' then st.legendwidth - st.fill + im.border else im.border
  set glue : ℚ := if 2 ≤ st.legC ∧ prtFctn = 'j' then (st.legendwidth - st.fill) / ((st.legC : ℚ) - 1) else 0
  have h := @adds_foldl im st.legspace ((s32 (st.legY + im.border) : ℤ) : ℚ) glue _
    (List.nodup_range' : (List.range' st.mark (stop - st.mark)).Nodup) ⟨st.gdes, legX, []⟩
  set row := (List.range' st.mark (stop - st.mark)).foldl
    (Row.add im st.legspace ((s32 (st.legY + im.border) : ℤ) : ℚ) glue) ⟨st.gdes, legX, []⟩
  have hitems : (⟨st.mark, stop, row.places⟩ : Line).items =
      (⟨st.mark, stop, row.places⟩ : Line).run.filter fun k => (row.gdes k).legend ≠ [] := by
    simp only [h.legend]
    exact h.items
  refine ⟨row.places, rfl, ⟨?_, fun _ => hitems, fun p hp => ?_⟩, fun k hk => h.frame k ?_, max_eq_right hmark.le⟩
  · rw [hitems]
    exact List.filter_sublist
  · exact (h.positions p hp).resolve_left List.not_mem_nil
  · rw [List.mem_range'_1]
    omega

lemma Align.prtFctn_ne (a : Align) : a.prtFctn ≠ '\x00' := by
  cases a
  all_goals decide

lemma left_alone_ne {p : Prop} [Decidable p] (h : c ≠ '\x00') : (if p then 'l' else c) ≠ '\x00' := by
  split
  · decide
  · exact h

/-- What `wrap` decides: if there is no line to be placed the space is not used up, and it goes back only to an
element that is not the first of its line, for lack of space. -/
lemma wrap_spec (h : st.wrap im calcWidth fillLast prtFctn = (w, c, stop)) :
    (w.gdes = st.gdes ∧ w.mark = st.mark ∧ w.lines = st.lines ∧ w.legspace = st.legspace) ∧
      (c = '\x00' → stop = st.i + 1 ∧ st.i + 1 ≠ im.gdesC ∧ (w.fill : ℚ) ≤ w.legendwidth) ∧
      (stop = st.i + 1 ∨ stop = st.i ∧ calcWidth = false ∧ 1 < st.legC ∧ st.legendwidth < st.fill ∧ prtFctn = '\x00') := by
  unfold Pass.wrap at h
  by_cases hprt : prtFctn = '\x00'
  · rw [if_pos hprt] at h
    dsimp only at h
    have hwidth : calcWidth = true →
        (st.fill : ℚ) ≤ if calcWidth ∧ st.legendwidth < st.fill then (st.fill : ℚ) else st.legendwidth := by
      intro hcalc
      split
      · exact le_rfl
      · rename_i hwide
        exact not_lt.1 fun hlt => hwide ⟨hcalc, hlt⟩
    have hgiven : calcWidth = false →
        (if calcWidth ∧ st.legendwidth < st.fill then (st.fill : ℚ) else st.legendwidth) = st.legendwidth := by
      rintro rfl
      exact if_neg fun h => Bool.noConfusion h.1
    generalize (if calcWidth ∧ st.legendwidth < st.fill then (st.fill : ℚ) else st.legendwidth) = legendwidth at *
    have hcode : st.i + 1 = im.gdesC ∨ legendwidth < st.fill →
        (if st.i + 1 = im.gdesC ∨ legendwidth < st.fill then st.defaultTxtalign.prtFctn else '\x00') ≠ '\x00' := by
      intro hfull
      rw [if_pos hfull]
      exact Align.prtFctn_ne _
    generalize (if st.i + 1 = im.gdesC ∨ legendwidth < st.fill then st.defaultTxtalign.prtFctn else '\x00') = code at *
    by_cases hback : legendwidth < st.fill ∧ 1 < st.legC
    · rw [if_pos hback] at h
      cases h
      have hcalc : calcWidth = false := by
        rw [← Bool.not_eq_true]
        exact fun hcalc => (hwidth hcalc).not_gt hback.1
      exact ⟨⟨rfl, rfl, rfl, rfl⟩, fun h => absurd h (left_alone_ne (hcode (.inr hback.1))),
        .inr ⟨rfl, hcalc, hback.2, hgiven hcalc ▸ hback.1, hprt⟩⟩
    · rw [if_neg hback] at h
      cases h
      refine ⟨⟨rfl, rfl, rfl, rfl⟩, fun h => ?_, .inl rfl⟩
      have hroom : ¬ (st.i + 1 = im.gdesC ∨ legendwidth < st.fill) := fun hfull => left_alone_ne (hcode hfull) h
      exact ⟨rfl, fun hlast => hroom (.inl hlast), not_lt.1 fun hlt => hroom (.inr hlt)⟩
  · rw [if_neg hprt] at h
    cases h
    exact ⟨⟨rfl, rfl, rfl, rfl⟩, fun h => absurd h hprt, .inl rfl⟩

/-- The end of a round only puts a legend back. -/
lemma next_spec (h : w.next calcWidth saved stop = .ok st') :
    st' = { w with i := stop, gdes := st'.gdes } ∧
      (∀ k, (st'.gdes k).legX = (w.gdes k).legX ∧ (st'.gdes k).legY = (w.gdes k).legY) ∧
      (∀ k, k + 1 ≠ stop → st'.gdes k = w.gdes k) ∧ (calcWidth = false → st'.gdes = w.gdes) := by
  unfold Pass.next at h
  cases calcWidth with
  | false =>
    cases h
    exact ⟨rfl, fun _ => ⟨rfl, rfl⟩, fun _ _ => rfl, fun _ => rfl⟩
  | true =>
    cases stop with
    | zero => cases h
    | succ i =>
      cases h
      refine ⟨rfl, fun k => ?_, fun k hk => ?_, fun h => Bool.noConfusion h⟩
      · dsimp only
        obtain rfl | hne := eq_or_ne k i
        · rw [Function.update_self]
          exact ⟨rfl, rfl⟩
        · rw [Function.update_of_ne hne]
          exact ⟨rfl, rfl⟩
      · exact Function.update_of_ne (fun h => hk (congrArg Nat.succ h)) _ _

lemma legBody_ok {r : Request} (hrequest : request (im.shown (st.gdes st.i)) = .ok r)
    (hwrap : (st.read im r).wrap im calcWidth st.fill r.code = (w, c, stop)) :
    legBody im calcWidth st =
      (if c = '\x00' then w else w.place im calcWidth c stop).next calcWidth (st.gdes st.i).legend stop := by
  unfold legBody
  rw [hrequest]
  simp only [bind, Except.bind]
  rw [hwrap]

/-- A round collects the element at hand, or it places a line: up to this element, or up to the one before. -/
inductive Pass.Round (im : Image) (calcWidth : Bool) (st st' : Pass) : Prop where
  | collect (hi : st'.i = st.i + 1) (hlast : st'.i ≠ im.gdesC) (hmark : st'.mark = st.mark) (hlines : st'.lines = st.lines)
      (hfill : (st'.fill : ℚ) ≤ st'.legendwidth)
  | place (places : List Place) (hi : st'.i = st.i + 1 ∨ st'.i = st.i ∧ calcWidth = false ∧ 0 < st.legC)
      (hmark : st'.mark = st'.i) (hfill : st'.fill = 0) (hlegC : st'.legC = 0)
      (hlines : st'.lines = st.lines ++ [⟨st.mark, st'.i, places⟩])
      (hlies : (⟨st.mark, st'.i, places⟩ : Line).Lies calcWidth st'.gdes)

lemma legBody_request (h : legBody im calcWidth st = .ok st') :
    ∃ r w c stop, request (im.shown (st.gdes st.i)) = .ok r ∧
      (st.read im r).wrap im calcWidth st.fill r.code = (w, c, stop) ∧
      (if c = '\x00' then w else w.place im calcWidth c stop).next calcWidth (st.gdes st.i).legend stop = .ok st' := by
  cases hrequest : request (im.shown (st.gdes st.i)) with
  | error e =>
    unfold legBody at h
    rw [hrequest] at h
    cases h
  | ok r =>
    rw [legBody_ok hrequest rfl] at h
    exact ⟨r, _, _, _, rfl, rfl, h⟩

/-- Only an unknown control code is an error: the element before the first is never written to. -/
lemma legBody_error {e : Fault} (h : legBody im calcWidth st = .error e) :
    request (im.shown (st.gdes st.i)) = .error e := by
  cases hrequest : request (im.shown (st.gdes st.i)) with
  | error e' =>
    unfold legBody at h
    rw [hrequest] at h
    cases h
    rfl
  | ok r =>
    exfalso
    cases hwrap : (st.read im r).wrap im calcWidth st.fill r.code with
    | mk w rest =>
    obtain ⟨c, stop⟩ := rest
    rw [legBody_ok hrequest hwrap] at h
    obtain ⟨-, -, rfl | ⟨-, rfl, -⟩⟩ := wrap_spec hwrap
    · unfold Pass.next at h
      split at h
      all_goals cases h
    · cases h

lemma read_frame (r : Request) (hk : k ≠ st.i) : (st.read im r).gdes k = st.gdes k := Function.update_of_ne hk _ _

lemma legC_read (r : Request) : (st.read im r).legC ≤ st.legC + 1 := by
  show (if r.legend = [] then st.legC else st.legC + 1) ≤ st.legC + 1
  split
  · exact Nat.le_succ _
  · exact le_rfl

lemma legBody_round (hmark : st.mark ≤ st.i) (hfirst : st.mark = st.i → st.legC = 0)
    (h : legBody im calcWidth st = .ok st') :
    st.Round im calcWidth st' ∧ ∀ k, k < st.mark ∨ st.i < k → st'.gdes k = st.gdes k := by
  obtain ⟨r, w, c, stop, -, hwrap, hnext⟩ := legBody_request h
  obtain ⟨⟨hgdes, hwmark, hlines, -⟩, hcollect, hstop⟩ := wrap_spec hwrap
  rw [show (st.read im r).i = st.i from rfl] at hcollect hstop
  rw [show (st.read im r).mark = st.mark from rfl] at hwmark
  rw [show (st.read im r).lines = st.lines from rfl] at hlines
  have hstop' : stop = st.i + 1 ∨ stop = st.i ∧ calcWidth = false ∧ 0 < st.legC := by
    rcases hstop with rfl | ⟨rfl, hcalc, hlegC, -⟩
    · exact .inl rfl
    · have hread := @legC_read im st r
      exact .inr ⟨rfl, hcalc, by omega⟩
  have hlt : st.mark < stop := by
    rcases hstop' with rfl | ⟨rfl, -, hlegC⟩
    · exact Nat.lt_succ_of_le hmark
    · exact lt_of_le_of_ne hmark fun heq => absurd (hfirst heq) hlegC.ne'
  have hframe : ∀ k, k < st.mark ∨ st.i < k → w.gdes k = st.gdes k := by
    intro k hk
    rw [hgdes]
    exact read_frame r (by omega)
  by_cases hc : c = '\x00'
  · rw [if_pos hc] at hnext
    obtain ⟨rfl, hlast, hfill⟩ := hcollect hc
    obtain ⟨heq, -, hsame, -⟩ := next_spec hnext
    have hi' : st'.i = st.i + 1 := by rw [heq]
    refine ⟨.collect hi' (hi' ▸ hlast) (by rw [heq]; exact hwmark) (by rw [heq]; exact hlines) (by rw [heq]; exact hfill),
      fun k hk => ?_⟩
    rw [hsame k (by omega)]
    exact hframe k hk
  · rw [if_neg hc] at hnext
    obtain ⟨heq, hpos, hsame, hcalc⟩ := next_spec hnext
    obtain ⟨places, hplaced, hlies, hkept, hmark'⟩ := @place_spec im calcWidth w c stop (hwmark ▸ hlt)
    obtain rfl : st'.i = stop := by rw [heq]
    rw [hwmark] at hplaced hlies hkept
    rw [hlines] at hplaced
    refine ⟨.place places hstop' (by rw [heq]; exact hmark') (by rw [heq]; rfl) (by rw [heq]; rfl)
      (by rw [heq]; exact hplaced) (hlies.congr (fun k _ => hpos k) fun hfalse k _ => by rw [hcalc hfalse]), fun k hk => ?_⟩
    have hk' : k < st.mark ∨ st'.i ≤ k := by omega
    rw [← hframe k hk, ← hkept k hk']
    rcases hstop' with hi | ⟨-, hfalse, -⟩
    · exact hsame k (by omega)
    · rw [hcalc hfalse]

/-! ### The whole pass -/

/-- What is so before every round. -/
structure Pass.Inv (im : Image) (calcWidth : Bool) (st : Pass) : Prop where
  mark_le : st.mark ≤ st.i
  i_le : st.i ≤ im.gdesC
  first : st.mark = st.i → st.legC = 0
  room : st.mark < st.i → (st.fill : ℚ) ≤ st.legendwidth
  done : st.i = im.gdesC → st.mark = im.gdesC
  lines : Consecutive 0 st.mark st.lines
  lies : ∀ line ∈ st.lines, line.Lies calcWidth st.gdes

lemma inv_start (gdes : ℕ → Element) (legspace : ℕ → ℤ) :
    (Pass.start im calcWidth gdes legspace).Inv im calcWidth where
  mark_le := le_rfl
  i_le := Nat.zero_le _
  first := fun _ => rfl
  room := fun h => absurd h (lt_irrefl 0)
  done := id
  lines := rfl
  lies := nofun

/-- The lines that are placed stay as they are, and the next one follows them. -/
lemma Pass.Inv.round (hinv : st.Inv im calcWidth) (hi : st.i < im.gdesC) (h : legBody im calcWidth st = .ok st') :
    st'.Inv im calcWidth := by
  obtain ⟨hround, hframe⟩ := legBody_round hinv.mark_le hinv.first h
  have hlies : ∀ line ∈ st.lines, line.Lies calcWidth st'.gdes := by
    intro line hline
    have hstop := (hinv.lines.bounds.2 line hline).2
    have hsame : ∀ k < line.stop, st'.gdes k = st.gdes k := fun k hk => hframe k (.inl (hk.trans_le hstop))
    exact (hinv.lies line hline).congr (fun k hk => by rw [hsame k hk]; exact ⟨rfl, rfl⟩)
      fun _ k hk => by rw [hsame k hk]
  have hmark := hinv.mark_le
  cases hround with
  | collect hi' hlast hmark' hlines hfill =>
    exact ⟨by omega, by omega, by omega, fun _ => hfill, fun h => absurd h hlast, by rw [hmark', hlines]; exact hinv.lines,
      by rw [hlines]; exact hlies⟩
  | place places hi' hmark' hfill hlegC hlines hplaced =>
    have hlt : st.mark < st'.i := by
      rcases hi' with hi' | ⟨hi', -, hpos⟩
      · omega
      · exact hi' ▸ lt_of_le_of_ne hmark fun heq => absurd (hinv.first heq) hpos.ne'
    refine ⟨hmark'.le, by omega, fun _ => hlegC, fun h => absurd h hmark'.not_lt, fun h => hmark'.trans h, ?_, ?_⟩
    · rw [hmark', hlines]
      exact @Consecutive.concat _ _ ⟨st.mark, st'.i, places⟩ _ hinv.lines rfl hlt
    · rw [hlines]
      intro line hline
      rcases List.mem_append.1 hline with hline | hline
      · exact hlies line hline
      · rw [List.mem_singleton.1 hline]
        exact hplaced

/-- The rounds that may still follow: an element is read twice if it is taken back. -/
def Pass.rounds (im : Image) (st : Pass) : ℕ := 2 * (im.gdesC - st.i) + if st.legC = 0 then 0 else 1

lemma rounds_lt (hinv : st.Inv im calcWidth) (hi : st.i < im.gdesC) (h : legBody im calcWidth st = .ok st') :
    st'.rounds im < st.rounds im := by
  unfold Pass.rounds
  cases (legBody_round hinv.mark_le hinv.first h).1 with
  | collect hi' =>
    have hle : (if st'.legC = 0 then 0 else 1) ≤ 1 := by split <;> omega
    omega
  | place places hi' hmark hfill hlegC =>
    rw [if_pos hlegC]
    rcases hi' with hi' | ⟨hi', -, hpos⟩
    · omega
    · rw [if_neg hpos.ne', hi']
      exact Nat.lt_succ_self _

/-- The loop ends, in a state of the same kind or with an unknown control code. -/
lemma legLoop_inv {fuel : ℕ} (hinv : st.Inv im calcWidth) (hfuel : st.rounds im < fuel) :
    (∃ k e, legLoop im calcWidth fuel st = some (.error e) ∧ request (im.shown k) = .error e) ∨
      ∃ st', legLoop im calcWidth fuel st = some (.ok st') ∧ st'.Inv im calcWidth ∧ st'.i = im.gdesC := by
  induction fuel generalizing st with
  | zero => exact absurd hfuel (Nat.not_lt_zero _)
  | succ fuel ih =>
    rw [legLoop]
    by_cases hi : st.i < im.gdesC
    · rw [if_pos hi]
      cases hbody : legBody im calcWidth st with
      | error e => exact .inl ⟨st.gdes st.i, e, rfl, legBody_error hbody⟩
      | ok st' => exact ih (hinv.round hi hbody) ((rounds_lt hinv hi hbody).trans_le (Nat.le_of_lt_succ hfuel))
    · rw [if_neg hi]
      exact .inr ⟨st, rfl, hinv, le_antisymm hinv.i_le (Nat.le_of_not_lt hi)⟩

end Body

/-- There is no other error of a legend. -/
lemma request_error {legend : Text} {e : Fault} (h : request legend = .error e) :
    ∃ message, e = .unknownControlCode message := by
  unfold request at h
  dsimp only at h
  split at h
  · cases h
    exact ⟨_, rfl⟩
  · cases h

/-- The lines are consecutive runs of the elements, each place is given in one of them, in order; and if the lines are
placed every legend that is shown has its place in exactly one line. -/
structure LaysOut (im : Image) (calcWidth : Bool) (st : Pass) : Prop where
  consecutive : Consecutive 0 im.gdesC st.lines
  lies : ∀ line ∈ st.lines, line.Lies calcWidth st.gdes
  placed : calcWidth = false → ∀ k < im.gdesC, (st.gdes k).legend ≠ [] → ∃! line, line ∈ st.lines ∧ k ∈ line.items

/-- The loop ends, whatever the legends, the width and the font are: with the error of an unknown control code, or with
lines that every element is in. -/
theorem legLoop_places (im : Image) (calcWidth : Bool) (gdes : ℕ → Element) (legspace : ℕ → ℤ) :
    (∃ message, legLoop im calcWidth (2 * im.gdesC + 1) (Pass.start im calcWidth gdes legspace) =
        some (.error (.unknownControlCode message))) ∨
      ∃ st, legLoop im calcWidth (2 * im.gdesC + 1) (Pass.start im calcWidth gdes legspace) = some (.ok st) ∧
        LaysOut im calcWidth st := by
  rcases @legLoop_inv im calcWidth _ (2 * im.gdesC + 1) (inv_start gdes legspace) (Nat.lt_succ_self _) with
    ⟨k, e, hrun, herror⟩ | ⟨st, hrun, hinv, hi⟩
  · obtain ⟨message, rfl⟩ := request_error herror
    exact .inl ⟨message, hrun⟩
  · have hlines : Consecutive 0 im.gdesC st.lines := hinv.done hi ▸ hinv.lines
    refine .inr ⟨st, hrun, hlines, hinv.lies, ?_⟩
    intro hcalc k hk hlegend
    obtain ⟨line, ⟨hline, hin⟩, huniq⟩ := hlines.existsUnique (Nat.zero_le k) hk
    refine ⟨line, ⟨hline, ?_⟩, ?_⟩
    · rw [(hinv.lies line hline).shown hcalc]
      exact List.mem_filter.2 ⟨mem_run.2 hin, by simpa using hlegend⟩
    · rintro line' ⟨hline', hk'⟩
      exact huniq line' ⟨hline', mem_run.1 ((hinv.lies line' hline').sublist.subset hk')⟩

/-- A font whose characters are 10 wide. -/
@[grind] def monospaced (legendwidth : ℤ) (gdesC : ℕ) : Image where
  machine := bareMachine
  size := 2
  textWidth := fun _ text => 10 * text.length
  minval := .fin 0
  maxval := .fin 1
  start := 0
  endTime := 1
  legendwidth := legendwidth
  forceRulesLegend := false
  noLegend := false
  onlyGraph := false
  gdesC := gdesC

/-- Elements that are no rules, with the given legends. -/
def comments (legends : List Text) (k : ℕ) : Element :=
  { gf := .other, txtalign := .justified, yrule := .nan, xrule := 0, legend := legends.getD k [], legX := 0, legY := 0 }

/-- A legend that is only a control code has no place, but when the lines are measured it is put back. -/
theorem legLoop_measures :
    ¬ ∀ (im : Image) (calcWidth : Bool) (gdes : ℕ → Element) (legspace : ℕ → ℤ),
      (∃ message, legLoop im calcWidth (2 * im.gdesC + 1) (Pass.start im calcWidth gdes legspace) =
          some (.error (.unknownControlCode message))) ∨
        ∃ st, legLoop im calcWidth (2 * im.gdesC + 1) (Pass.start im calcWidth gdes legspace) = some (.ok st) ∧
          Consecutive 0 im.gdesC st.lines ∧
            ∀ k < im.gdesC, (st.gdes k).legend ≠ [] → ∃! line, line ∈ st.lines ∧ k ∈ line.items := by
  intro h
  have hrun : (legLoop (monospaced 0 1) true 3 (Pass.start (monospaced 0 1) true (comments ["\\l".toList]) fun _ => 0)).map
      (fun r => r.toOption.map fun st => ((st.gdes 0).legend, st.lines.map (·.items))) = some (some ("\\l".toList, [[]])) := by
    decide +kernel
  rcases h (monospaced 0 1) true (comments ["\\l".toList]) fun _ => 0 with ⟨message, herror⟩ | ⟨st, hok, -, hplaced⟩
  · rw [show 2 * (monospaced 0 1).gdesC + 1 = 3 from rfl] at herror
    rw [herror] at hrun
    cases hrun
  · rw [show 2 * (monospaced 0 1).gdesC + 1 = 3 from rfl] at hok
    rw [hok] at hrun
    obtain ⟨hlegend, hitems⟩ := Prod.mk.inj (Option.some.inj (Option.some.inj hrun))
    obtain ⟨line, ⟨hline, hin⟩, -⟩ := hplaced 0 (by decide) (by rw [hlegend]; decide)
    have hnone : line.items ∈ st.lines.map (·.items) := List.mem_map_of_mem hline
    rw [hitems, List.mem_singleton] at hnone
    rw [hnone] at hin
    exact List.not_mem_nil hin

/-- `leg_place` ends. -/
lemma legPlace_terminates (im : Image) (calcWidth : Bool) (legendheight : ℤ) (gdes : ℕ → Element) (legspace : ℕ → ℤ) :
    ∃ r, legPlace im calcWidth legendheight gdes legspace (2 * im.gdesC + 1) = some r := by
  unfold legPlace
  split
  · exact ⟨_, rfl⟩
  · rcases @legLoop_inv im calcWidth _ (2 * im.gdesC + 1) (inv_start gdes legspace) (Nat.lt_succ_self _) with
      ⟨k, e, hrun, -⟩ | ⟨st, hrun, -⟩
    · exact ⟨_, by rw [hrun]; rfl⟩
    · exact ⟨_, by rw [hrun]; rfl⟩

end Legend

end Rrdtool
