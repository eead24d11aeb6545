import Mathlib.Tactic

/-!
# Stores into cells

A file is seen as its cells, each with its content, and a step of a program as the cells that it stores into, with
what it stores there. `write` is the file after a step, and `after` the step that does what two of them do one after
the other. A step leaves a file as it is exactly if it stores what stands there (`write_eq_self_iff`).

The cells of a list are those of its elements, each under the index of its element (`cells`).
-/

namespace Stores

variable {κ ν ω α : Type*}

/-- The file after a step. There is no storing into a cell that does not exist. -/
@[grind] def write (s file : κ → Option ν) : κ → Option ν := fun c => (file c).map (s c).getD

/-- A step and the one after it. -/
@[grind] def after (later s : κ → Option ν) : κ → Option ν := fun c => (later c).or (s c)

/-- The same in another alphabet. -/
@[grind] def encode (enc : ν → ω) (s : κ → Option ν) : κ → Option ω := fun c => (s c).map enc

/-- A step that stores nothing. -/
def nothing : κ → Option ν := fun _ => none

@[simp] lemma write_nothing (file : κ → Option ν) : write nothing file = file := by
  funext c
  rw [write, nothing]
  cases file c with
  | none => rfl
  | some old => rfl

lemma write_none {s file : κ → Option ν} {c : κ} (h : s c = none) : write s file c = file c := by
  rw [write, h]
  cases file c with
  | none => rfl
  | some old => rfl

lemma write_write (later s file : κ → Option ν) : write later (write s file) = write (after later s) file := by
  funext c
  rw [write, write, write, after, Option.map_map]
  congr 1
  funext old
  cases later c with
  | none => rfl
  | some w => rfl

lemma encode_write (enc : ν → ω) (s file : κ → Option ν) :
    encode enc (write s file) = write (encode enc s) (encode enc file) := by
  funext c
  rw [encode, write, write, encode, encode, Option.map_map, Option.map_map]
  congr 1
  funext old
  cases s c with
  | none => rfl
  | some w => rfl

/-- Nothing changes exactly if what is stored stands there. -/
lemma write_eq_self_iff {s file : κ → Option ν} :
    write s file = file ↔ ∀ c w old, s c = some w → file c = some old → w = old := by
  constructor
  · intro h c w old hw hold
    have hc := congrFun h c
    rw [write, hold, hw] at hc
    exact Option.some.inj hc
  · intro h
    funext c
    rw [write]
    cases hold : file c with
    | none => rfl
    | some old =>
      cases hw : s c with
      | none => rfl
      | some w => exact congrArg some (h c w old hw hold)

/-! ### Lists -/

/-- The cells of the elements of a list. -/
@[grind] def cells (image : α → κ → Option ν) (l : List α) : ℕ × κ → Option ν := fun p => l[p.1]?.bind (image · p.2)

/-- A step on the element `i`. -/
@[grind] def place (i : ℕ) (s : κ → Option ν) : ℕ × κ → Option ν := fun p => if p.1 = i then s p.2 else none

/-- A step on every element. -/
def onAll (l : List α) (s : α → κ → Option ν) : ℕ × κ → Option ν := fun p => l[p.1]?.bind (s · p.2)

/-- A step on a list, element by element. -/
lemma cells_eq_write {image : α → κ → Option ν} {s : ℕ × κ → Option ν} {g : ℕ → α → α} {l l' : List α}
    (hl : ∀ j, l'[j]? = l[j]?.map (g j)) (h : ∀ j, ∀ a ∈ l[j]?, image (g j a) = write (fun c => s (j, c)) (image a)) :
    cells image l' = write s (cells image l) := by
  funext ⟨j, c⟩
  simp only [cells, write, hl]
  cases ha : l[j]? with
  | none => rfl
  | some a => exact congrFun (h j a ha) c

lemma cells_map {image : α → κ → Option ν} {s : ℕ × κ → Option ν} {g : α → α} {l : List α}
    (h : ∀ j, ∀ a ∈ l[j]?, image (g a) = write (fun c => s (j, c)) (image a)) :
    cells image (l.map g) = write s (cells image l) :=
  cells_eq_write (fun _ => List.getElem?_map) h

lemma cells_modify {image : α → κ → Option ν} {s : κ → Option ν} {g : α → α} {l : List α} {i : ℕ}
    (h : ∀ a ∈ l[i]?, image (g a) = write s (image a)) :
    cells image (l.modify i g) = write (place i s) (cells image l) := by
  refine cells_eq_write (fun j => List.getElem?_modify ..) fun j a ha => ?_
  simp only [place]
  by_cases hij : i = j
  · subst hij
    simpa only [if_pos] using h a ha
  · simp only [if_neg hij, if_neg (Ne.symm hij)]
    exact (write_nothing _).symm

end Stores
