import Mathlib.Tactic

/-!
# Path names

The lexical meaning of an absolute path: it is read component by component, an empty component and `.` stay in the
directory, and `..` goes back to the one above (`resolve`). `normalize` is the path without such components. A component
that is followed by another one has a slash behind it in the path (`infix_of_mem_dropLast`).
-/

namespace Path

/-- A component. -/
abbrev Component := List Char

def dot : Component := ['.']

def dotDot : Component := ['.', '.']

/-- A component that names an entry of a directory. -/
def IsName (c : Component) : Prop := c ≠ [] ∧ c ≠ dot ∧ c ≠ dotDot ∧ '/' ∉ c

instance (c : Component) : Decidable (IsName c) := inferInstanceAs (Decidable (_ ∧ _))

/-- A component, read in the directory `dirs`. -/
@[grind] def enter (dirs : List Component) (c : Component) : List Component :=
  if c = [] ∨ c = dot then dirs else if c = dotDot then dirs.dropLast else dirs ++ [c]

/-- The directories that an absolute path leads through. -/
def resolve (path : List Char) : List Component := (path.splitOn '/').foldl enter []

/-- The directories with a slash in front of each. -/
@[grind] def rooted (dirs : List Component) : List Char := dirs.flatMap ('/' :: ·)

def normalize (path : List Char) : List Char := if resolve path = [] then ['/'] else rooted (resolve path)

/-- The components that do not stay in the directory. -/
@[grind] def moves (path : List Char) : List Component := (path.splitOn '/').filter fun c => c ≠ [] ∧ c ≠ dot

section Resolve

variable {dirs : List Component} {path : List Char}

lemma rooted_append (dirs dirs' : List Component) : rooted (dirs ++ dirs') = rooted dirs ++ rooted dirs' :=
  List.flatMap_append

lemma rooted_ne_nil (h : dirs ≠ []) : rooted dirs ≠ [] := by
  obtain ⟨d, ds, rfl⟩ := List.exists_cons_of_ne_nil h
  exact List.cons_ne_nil '/' _

lemma splitOn_rooted (h : ∀ d ∈ dirs, IsName d) : (rooted dirs).splitOn '/' = [] :: dirs := by
  induction dirs using List.reverseRecOn with
  | nil => rfl
  | append_singleton ds d ih =>
    have hd : '/' ∉ d := (h d (by simp)).2.2.2
    have hlast : rooted [d] = '/' :: d := by simp [rooted]
    rw [rooted_append, hlast, List.splitOn_append_cons_self, ih fun e he => h e (List.mem_append_left _ he),
      List.splitOn_eq_singleton hd, List.cons_append]

/-- Names lead into the directories they name. -/
lemma foldl_enter_names {names : List Component} (h : ∀ c ∈ names, IsName c) (dirs : List Component) :
    names.foldl enter dirs = dirs ++ names := by
  induction names generalizing dirs with
  | nil => simp
  | cons c names ih =>
    obtain ⟨hnil, hdot, hdots, -⟩ := h c (.head _)
    have henter : enter dirs c = dirs ++ [c] := by
      rw [enter, if_neg (not_or.2 ⟨hnil, hdot⟩), if_neg hdots]
    rw [List.foldl_cons, henter, ih (fun d hd => h d (.tail _ hd)), List.append_assoc, List.singleton_append]

lemma foldl_enter_moves (dirs : List Component) :
    (path.splitOn '/').foldl enter dirs = (moves path).foldl enter dirs := by
  unfold moves
  induction path.splitOn '/' generalizing dirs with
  | nil => rfl
  | cons c l ih =>
    rw [List.foldl_cons, ih]
    by_cases hc : c = [] ∨ c = dot
    · have hstay : enter dirs c = dirs := if_pos hc
      rw [hstay, List.filter_cons_of_neg (by simpa [or_iff_not_imp_left] using hc)]
    · rw [List.filter_cons_of_pos (by simpa [not_or] using hc), List.foldl_cons]

/-- A path is read on from the directory that its front leads to. -/
lemma resolve_rooted_append (h : ∀ d ∈ dirs, IsName d) :
    resolve (rooted dirs ++ '/' :: path) = (moves path).foldl enter dirs := by
  have hfront : ([] :: dirs).foldl enter [] = dirs := by
    rw [List.foldl_cons]
    exact foldl_enter_names h []
  rw [resolve, List.splitOn_append_cons_self, splitOn_rooted h, List.foldl_append, hfront, foldl_enter_moves]

lemma normalize_of_resolve (h : resolve path = dirs) : normalize path = if dirs = [] then ['/'] else rooted dirs := by
  rw [normalize, h]

/-- A component that is not the last one has a slash behind it. -/
lemma infix_of_mem_dropLast {c : Component} (h : c ∈ (path.splitOn '/').dropLast) : c ++ ['/'] <:+: path := by
  have hjoin : ['/'].intercalate (path.splitOn '/') = path := List.intercalate_splitOn '/'
  rw [← hjoin]
  generalize path.splitOn '/' = parts at h
  induction parts with
  | nil => cases h
  | cons d parts ih =>
    cases parts with
    | nil => cases h
    | cons e parts =>
      rw [List.intercalate_cons_cons]
      rw [List.dropLast_cons_cons, List.mem_cons] at h
      obtain rfl | h := h
      · exact ⟨[], ['/'].intercalate (e :: parts), by simp⟩
      · exact (ih h).trans (List.suffix_append _ _).isInfix

/-- Every component that moves is a name, or `..`. -/
lemma isName_of_mem_moves {c : Component} (h : c ∈ moves path) (hdots : c ≠ dotDot) : IsName c := by
  obtain ⟨hmem, hne⟩ := List.mem_filter.1 h
  obtain ⟨hnil, hdot⟩ : c ≠ [] ∧ c ≠ dot := by simpa using hne
  refine ⟨hnil, hdot, hdots, ?_⟩
  clear h hne hnil hdot hdots
  induction path generalizing c with
  | nil =>
    rw [List.splitOn_nil, List.mem_singleton] at hmem
    rw [hmem]
    simp
  | cons x path ih =>
    rw [List.splitOn_cons_eq_if_modifyHead] at hmem
    split at hmem
    · obtain rfl | hmem := List.mem_cons.1 hmem
      · simp
      · exact ih hmem
    · rename_i hx
      cases hsplit : path.splitOn '/' with
      | nil => exact absurd hsplit (List.splitOn_ne_nil _ _)
      | cons d ds =>
        rw [hsplit] at hmem ih
        obtain rfl | hmem := List.mem_cons.1 hmem
        · have hd := ih (.head _)
          rw [List.mem_cons, not_or]
          exact ⟨fun he => hx (by rw [← he]; rfl), hd⟩
        · exact ih (.tail _ hmem)

end Resolve

end Path
