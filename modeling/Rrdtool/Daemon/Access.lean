import Rrdtool.Format
import Rrdtool.Lib.Path

/-!
# Access to files

Port of `check_file_access` and `get_abs_path` of `src/rrd_daemon.c`. With `-B` only files in the base directory may be
written. A path with `../` in it is refused, but one may still end in `..`, and nothing is asked of what stands behind
the base directory: the path may lead to the base directory itself, or to the one above (`checkFileAccess_inside_iff`).
-/

namespace Rrdtool

open Path

/-- The base directory as `read_options` takes it: the real path, which is not the root. -/
structure BaseDir where
  dirs : List Text
  ne_nil : dirs ≠ []
  names : ∀ d ∈ dirs, IsName d

/-- `config_base_dir`. -/
@[grind] def BaseDir.text (base : BaseDir) : Text := rooted base.dirs

/-- `check_file_access`; `replay` is `JOURNAL_REPLAY (sock)`. -/
@[grind] def checkFileAccess (writeBaseOnly replay : Bool) (baseDir : Option Text) (file : Text) : Bool :=
  match baseDir with
  | none => true
  | some base =>
    if !writeBaseOnly || replay then true
    else if "../".toList <:+: file then false
    -- relative paths without "../" are ok
    else if file.head? ≠ some '/' then true
    -- file must be of the format base + "/" + <1+ char filename>
    else if file.length < base.length + 1 then false
    else if ¬ base <+: file then false
    else decide (file[base.length]? = some '/')

/-- `get_abs_path`. -/
@[grind] def getAbsPath (baseDir : Option Text) (filename : Text) : Text :=
  match baseDir with
  | none => filename
  | some base => if filename.head? = some '/' then filename else base ++ '/' :: filename

/-- The path leads to something in the base directory, or in a directory of it. -/
@[grind] def BaseDir.Inside (base : BaseDir) (file : Text) : Prop :=
  ∃ rest, rest ≠ [] ∧ normalize file = base.text ++ '/' :: rest

/-- What stands behind the base directory. -/
@[grind] def BaseDir.behind (base : BaseDir) (filename : Text) : Text :=
  if filename.head? = some '/' then filename.drop (base.text.length + 1) else filename

/-- A name stands behind the base directory, and one more than `..` takes away. -/
def BaseDir.LeadsInside (base : BaseDir) (filename : Text) : Prop :=
  if (moves (base.behind filename)).getLast? = some dotDot then 2 < (moves (base.behind filename)).length
  else 0 < (moves (base.behind filename)).length

instance (base : BaseDir) (filename : Text) : Decidable (base.LeadsInside filename) :=
  decidable_of_iff (if (moves (base.behind filename)).getLast? = some dotDot then
    2 < (moves (base.behind filename)).length else 0 < (moves (base.behind filename)).length) Iff.rfl

section Access

variable {base : BaseDir} {filename : Text}

/-- An absolute path that is let through begins with the base directory. -/
lemma checkFileAccess_absolute {file : Text} (h : checkFileAccess true false (some base.text) file)
    (habs : file.head? = some '/') : ∃ path, file = base.text ++ '/' :: path := by
  unfold checkFileAccess at h
  dsimp only [Bool.not_true, Bool.or_false] at h
  split at h
  · contradiction
  split at h
  · contradiction
  split at h
  · contradiction
  split at h
  · contradiction
  split at h
  · contradiction
  · rename_i hpre
    obtain ⟨t, rfl⟩ := not_not.1 hpre
    have hslash : (base.text ++ t)[base.text.length]? = some '/' := of_decide_eq_true h
    rw [List.getElem?_append_right le_rfl, Nat.sub_self] at hslash
    cases t with
    | nil => cases hslash
    | cons c t =>
      obtain rfl : c = '/' := by simpa using hslash
      exact ⟨t, rfl⟩

/-- A path that is let through has no `../` in it. -/
lemma checkFileAccess_no_back {file : Text} (h : checkFileAccess true false (some base.text) file) :
    ¬ "../".toList <:+: file := by
  intro hback
  unfold checkFileAccess at h
  simp only [Bool.not_true, Bool.or_false, Bool.false_eq_true, if_false, if_pos hback] at h

/-- A path that is let through is the base directory with something behind it. -/
lemma checkFileAccess_behind (h : checkFileAccess true false (some base.text) (getAbsPath (some base.text) filename)) :
    getAbsPath (some base.text) filename = base.text ++ '/' :: base.behind filename := by
  by_cases habs : filename.head? = some '/'
  · have hfile : getAbsPath (some base.text) filename = filename := if_pos habs
    have hbehind : base.behind filename = filename.drop (base.text.length + 1) := if_pos habs
    rw [hfile] at h ⊢
    obtain ⟨path, hpath⟩ := checkFileAccess_absolute h habs
    rw [hbehind, hpath, List.drop_append]
    simp
  · have hbehind : base.behind filename = filename := if_neg habs
    rw [hbehind]
    exact if_neg habs

/-- Without `../`, only the last component goes back. -/
lemma moves_cases {path : Text} (h : ¬ "../".toList <:+: path) :
    (∀ c ∈ moves path, IsName c) ∨
      ∃ names, moves path = names ++ [dotDot] ∧ ∀ c ∈ names, IsName c := by
  have hfront : ∀ c ∈ (path.splitOn '/').dropLast, c ≠ dotDot := by
    rintro c hc rfl
    exact h (infix_of_mem_dropLast hc)
  obtain ⟨front, last, hsplit⟩ : ∃ front last, path.splitOn '/' = front ++ [last] :=
    ⟨_, _, (List.dropLast_append_getLast (List.splitOn_ne_nil '/' path)).symm⟩
  rw [hsplit, List.dropLast_concat] at hfront
  have hnames : ∀ c ∈ front.filter fun c => c ≠ [] ∧ c ≠ dot, IsName c := by
    intro c hc
    have hmem : c ∈ moves path := by
      rw [moves, hsplit, List.filter_append]
      exact List.mem_append_left _ hc
    exact isName_of_mem_moves hmem (hfront c (List.mem_filter.1 hc).1)
  by_cases hlast : last = dotDot
  · refine .inr ⟨_, ?_, hnames⟩
    rw [moves, hsplit, hlast, List.filter_append]
    rfl
  · refine .inl fun c hc => isName_of_mem_moves hc ?_
    rintro rfl
    obtain ⟨hmem, -⟩ := List.mem_filter.1 hc
    rw [hsplit, List.mem_append, List.mem_singleton] at hmem
    obtain hmem | rfl := hmem
    · exact hfront _ hmem rfl
    · exact hlast rfl

/-- Directories in the base directory. -/
lemma exists_rest_iff {file : Text} {names : List Component} (hnames : ∀ c ∈ names, IsName c)
    (hfile : resolve file = base.dirs ++ names) : base.Inside file ↔ names ≠ [] := by
  have hne : base.dirs ++ names ≠ [] := List.append_ne_nil_of_left_ne_nil base.ne_nil names
  rw [BaseDir.Inside, normalize_of_resolve hfile, if_neg hne, rooted_append]
  constructor
  · rintro ⟨rest, -, heq⟩ rfl
    have hlen := congrArg List.length heq
    simp [rooted, BaseDir.text] at hlen
  · intro h
    obtain ⟨d, ds, rfl⟩ := List.exists_cons_of_ne_nil h
    obtain ⟨hd, -⟩ := hnames d (.head _)
    exact ⟨d ++ rooted ds, List.append_ne_nil_of_left_ne_nil hd _, rfl⟩

/-- The directory above the base directory. -/
lemma not_inside_above {file : Text} (hfile : resolve file = base.dirs.dropLast) : ¬ base.Inside file := by
  rintro ⟨rest, -, heq⟩
  have hlen := congrArg List.length heq
  have htext : 0 < base.text.length := List.length_pos_iff.2 (rooted_ne_nil base.ne_nil)
  obtain ⟨front, last, hdirs⟩ : ∃ front last, base.dirs = front ++ [last] :=
    ⟨_, _, (List.dropLast_append_getLast base.ne_nil).symm⟩
  rw [hdirs, List.dropLast_concat] at hfile
  rw [normalize_of_resolve hfile, List.length_append, List.length_cons, BaseDir.text, hdirs, rooted_append,
    List.length_append] at hlen
  rw [BaseDir.text, hdirs, rooted_append, List.length_append] at htext
  split at hlen
  · rw [List.length_singleton] at hlen
    omega
  · omega

end Access

/-- A path that is let through leads into the base directory exactly if a name stands behind the base directory that a
`..` at the end does not take away. -/
theorem checkFileAccess_inside_iff (base : BaseDir) (filename : Text)
    (access : checkFileAccess true false (some base.text) (getAbsPath (some base.text) filename)) :
    base.Inside (getAbsPath (some base.text) filename) ↔ base.LeadsInside filename := by
  have hpath := checkFileAccess_behind access
  have hback : ¬ "../".toList <:+: base.behind filename := by
    refine fun hin => checkFileAccess_no_back access ?_
    rw [hpath]
    exact hin.trans ((List.suffix_cons '/' _).trans (List.suffix_append base.text _)).isInfix
  have hresolve := @resolve_rooted_append base.dirs (base.behind filename) base.names
  rw [hpath, BaseDir.LeadsInside]
  rw [show rooted base.dirs = base.text from rfl] at hresolve
  obtain hnames | ⟨names, hmoves, hnames⟩ := moves_cases hback
  · have hlast : (moves (base.behind filename)).getLast? ≠ some dotDot := by
      intro hl
      exact (hnames _ (List.mem_of_getLast? hl)).2.2.1 rfl
    rw [foldl_enter_names hnames] at hresolve
    rw [if_neg hlast, exists_rest_iff hnames hresolve, List.length_pos_iff]
  · have hlast : (moves (base.behind filename)).getLast? = some dotDot := by rw [hmoves, List.getLast?_concat]
    have henter : ∀ dirs : List Component, enter dirs dotDot = dirs.dropLast := fun dirs => by
      rw [enter, if_neg (by decide), if_pos rfl]
    rw [hmoves, List.foldl_append, foldl_enter_names hnames, List.foldl_cons, List.foldl_nil, henter] at hresolve
    rw [if_pos hlast, hmoves, List.length_append, List.length_singleton]
    obtain rfl | hne := eq_or_ne names []
    · rw [List.append_nil] at hresolve
      exact iff_of_false (not_inside_above hresolve) (by simp)
    · rw [List.dropLast_append_of_ne_nil hne] at hresolve
      rw [exists_rest_iff (fun c hc => hnames c (List.dropLast_subset _ hc)) hresolve, ← List.length_pos_iff,
        List.length_dropLast]
      omega

/-- The base directory `/b`. -/
def baseB : BaseDir := ⟨["b".toList], by decide, by decide⟩

/-- A file in a directory of the base directory, with some detours. -/
theorem checkFileAccess_inside_iff_detour :
    baseB.Inside (getAbsPath (some baseB.text) ".//d/e/..".toList) ↔ baseB.LeadsInside ".//d/e/..".toList :=
  checkFileAccess_inside_iff baseB ".//d/e/..".toList (by decide)

/-- The name `..` is let through, and leads above the base directory. -/
theorem checkFileAccess_above :
    ∃ (base : BaseDir) (filename : Text),
      checkFileAccess true false (some base.text) (getAbsPath (some base.text) filename) = true ∧
        getAbsPath (some base.text) filename = "/b/..".toList ∧
        normalize (getAbsPath (some base.text) filename) = "/".toList ∧
        ¬ base.Inside (getAbsPath (some base.text) filename) :=
  ⟨baseB, "..".toList, by decide, by decide, by decide,
    not_inside_above (by decide)⟩

end Rrdtool
