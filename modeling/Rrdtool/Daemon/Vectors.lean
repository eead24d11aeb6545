import Rrdtool.Lib.Slots
import Rrdtool.Daemon.Command

/-!
# Argument vectors

Port of `handle_request_create` and `handle_request_tune` of `src/rrd_daemon.c`. Both collect fields of the request in an
array. The one of `CREATE` has 128 cells; that of `TUNE` has as many as the request says, and all of them are handed to
`rrd_tune_r`. Neither counts: `handleVector_inBounds_iff` says which requests stay in the array and fill it.
`rrd_create_r2`, `rrd_tune_r` and the file system are parameters.
-/

namespace Rrdtool

open Bytes Checked Slots

/-- Slashes at the end are not looked at. -/
def dropSlashes (path : Text) : Text := (path.reverse.dropWhile (· = '/')).reverse

/-- `dirname`. -/
def dirname (path : Text) : Text :=
  let front := ((dropSlashes path).reverse.dropWhile (· ≠ '/')).reverse
  if front = [] then (if path.head? = some '/' then ['/'] else ['.'])
  else if dropSlashes front = [] then ['/']
  else dropSlashes front

/-! ### `CREATE` -/

/-- `sizeof (av) / sizeof (av[0])`. -/
def avLength : ℕ := 128

/-- The locals of `handle_request_create`, and the files that `flush_file` has been called with. -/
structure CreateLocals where
  ac : ℕ
  av : List (Option Text)
  sources : List Text
  template : Option Text
  step : ℕ
  lastUp : ℤ
  noOverwrite : Bool
  flushed : List Text

/-- What `rrd_create_r2` is called with. -/
structure CreateCall where
  file : Text
  step : ℕ
  lastUp : ℤ
  noOverwrite : Bool
  sources : List Text
  template : Option Text
  argv : List Text

def createSyntax : String := "CREATE <filename> [-b start] [-s step] [-O] <DS definitions> <RRA definitions>"

@[grind] def CreateLocals.init (srv : Server) : CreateLocals :=
  { ac := 0, av := new avLength, sources := [], template := none, step := 0, lastUp := -1,
    noOverwrite := srv.optNoOverwrite, flushed := [] }

/-- `av[ac++] = tok`. -/
@[grind] def CreateLocals.push (st : CreateLocals) (tok : Text) : Except (Stop Text SlotFault) CreateLocals := do
  let av ← store st.av st.ac tok
  return { st with av := av, ac := st.ac + 1 }

/-- The argument of an option: the next field. -/
def optionArgument (buffer : Text) : Except (Stop Text SlotFault) (Text × Text) :=
  match Bytes.bufferGetField buffer with
  | none => .error (.error (syntaxError createSyntax))
  | some (tok, buffer) => .ok (cstr tok, buffer)

/-- The loop of `handle_request_create`, from one field on: what is left of the buffer and the locals. -/
def createField (tok buffer : Text) (st : CreateLocals) : Except (Stop Text SlotFault) (Text × CreateLocals) :=
  if "-b".toList <+: tok then do
    let (tok, buffer) ← optionArgument buffer
    return (buffer, { st with lastUp := atol tok })
  else if "-s".toList <+: tok then do
    let (tok, buffer) ← optionArgument buffer
    return (buffer, { st with step := u64 (atol tok) })
  else if "-r".toList <+: tok then do
    let (tok, buffer) ← optionArgument buffer
    return (buffer, { st with flushed := st.flushed ++ [tok], sources := st.sources ++ [tok] })
  else if "-t".toList <+: tok then do
    let (tok, buffer) ← optionArgument buffer
    return (buffer, { st with flushed := st.flushed ++ [tok], template := some tok })
  else if "-O".toList <+: tok then
    .ok (buffer, { st with noOverwrite := true })
  else if "DS:".toList <+: tok then do
    let st ← st.push tok
    return (buffer, st)
  else if "RRA:".toList <+: tok then do
    let st ← st.push tok
    return (buffer, st)
  else .error (.error (syntaxError createSyntax))

/-- The loop of `handle_request_create`; a round takes a byte or more. -/
def createLoop : ℕ → Text → CreateLocals → Except (Stop Text SlotFault) CreateLocals
  | 0, _, st => .ok st
  | n + 1, buffer, st =>
    match Bytes.bufferGetField buffer with
    | none => .ok st
    | some (tok, buffer) => createField (cstr tok) buffer st >>= fun p => createLoop n p.1 p.2

/-- The directory of the file is made when it is missing: the error. -/
def makeDirectory (srv : Server) (dir : Text) : Option Text :=
  if srv.missing dir then
    if srv.allowRecursiveMkdir then
      (srv.mkdirP dir).map fun err => "Cannot create ".toList ++ dir ++ ": ".toList ++ err ++ ['\n']
    else
      some ("No permission to recursively create: ".toList ++ dir ++ "\nDid you pass -R to the daemon?\n".toList)
  else none

/-- The end of `handle_request_create`, with the locals after the loop. -/
def createFile (createR2 : CreateCall → Option Text) (file : Text) (st : CreateLocals) :
    Except (Stop Text SlotFault) Text :=
  if st.lastUp ≠ -1 ∧ st.lastUp < 3600 * 24 * 365 * 10 then
    .error (.error "The first entry must be after 1980.\n".toList)
  else do
    let argv ← loadFirst st.av st.ac
    match createR2 ⟨file, st.step, st.lastUp, st.noOverwrite, st.sources, st.template, argv⟩ with
    | none => return "RRD created OK\n".toList
    | some err => .error (.error ("RRD Error: ".toList ++ err ++ ['\n']))

/-- `handle_request_create`. -/
def handleRequestCreate (srv : Server) (createR2 : CreateCall → Option Text) (buffer : Text) :
    Except (Stop Text SlotFault) Text :=
  match Bytes.bufferGetField buffer with
  | none => .error (.error (syntaxError createSyntax))
  | some (pbuffile, buffer) =>
    let file := srv.absPath (cstr pbuffile)
    if !srv.checkAccess file then .error (.error (accessError file))
    else
      match makeDirectory srv (dirname file) with
      | some err => .error (.error err)
      | none => createLoop buffer.length buffer (.init srv) >>= createFile createR2 file

/-! ### `TUNE` -/

def tuneSyntax : String := "TUNE <filename> [options]"

/-- The loop of `handle_request_tune`. -/
def tuneLoop : ℕ → Text → ℕ → List (Option Text) → Except (Stop Text SlotFault) (List (Option Text))
  | 0, _, _, argv => .ok argv
  | n + 1, buffer, argcTmp, argv =>
    match Bytes.bufferGetField buffer with
    | none => .ok argv
    | some (tok, buffer) => store argv argcTmp (cstr tok) >>= tuneLoop n buffer (argcTmp + 1)

/-- The end of `handle_request_tune`: all of the array goes to `rrd_tune_r`. -/
def tuneFile (tuneR : Text → List Text → Option Text) (file : Text) (argc : ℕ) (argv : List (Option Text)) :
    Except (Stop Text SlotFault) Text := do
  let args ← loadFirst argv argc
  match tuneR file args with
  | none => return "Success\n".toList
  | some err => .error (.error ("Got error ".toList ++ err ++ ['\n']))

/-- `handle_request_tune`. -/
def handleRequestTune (srv : Server) (tuneR : Text → List Text → Option Text) (buffer : Text) :
    Except (Stop Text SlotFault) Text :=
  match Bytes.bufferGetField buffer with
  | none => .error (.error (syntaxError tuneSyntax))
  | some (pbuffile, buffer) =>
    let file := srv.absPath (cstr pbuffile)
    if !srv.checkAccess file then .error (.error (accessError file))
    else
      match Bytes.bufferGetField buffer with
      | none => .error (.error (syntaxError tuneSyntax))
      | some (i, buffer) =>
        let argc := atoi (cstr i)
        if argc < 0 then
          .error (.error ("Invalid argument count specified (".toList ++ decimal argc ++ ")\n".toList))
        else if !srv.malloc argc.toNat then .error (.error "Cannot allocate memory\n".toList)
        else tuneLoop buffer.length buffer 0 (new argc.toNat) >>= tuneFile tuneR file argc.toNat

/-! ### What is stored -/

/-- An option with an argument. -/
def takesArgument (tok : Text) : Bool := ["-b", "-s", "-r", "-t"].any fun opt => opt.toList <+: tok

/-- A field that goes into the array of `CREATE`. -/
def isDefinition (tok : Text) : Bool := ["DS:", "RRA:"].any fun start => start.toList <+: tok

/-- The definitions among the fields behind the file, up to the first field that is neither an option nor a
definition. -/
def definitions : List Text → List Text
  | [] => []
  | tok :: toks =>
    if takesArgument tok then
      match toks with
      | [] => []
      | _ :: toks => definitions toks
    else if "-O".toList <+: tok then definitions toks
    else if isDefinition tok then tok :: definitions toks
    else []

/-- The requests with an array of arguments. -/
inductive VectorCommand where
  | create
  | tune

/-- The file of the request may be written, and its directory is there or can be made. -/
@[grind] def Server.admits (srv : Server) (file : Text) : VectorCommand → Bool
  | .create => srv.checkAccess (srv.absPath file) && (makeDirectory srv (dirname (srv.absPath file))).isNone
  | .tune => srv.checkAccess (srv.absPath file)

/-- The array has a cell for every argument and an argument for every cell that is read. -/
@[grind] def VectorFits (srv : Server) (buffer : Text) : VectorCommand → Prop
  | .create =>
    match fields buffer with
    | [] => True
    | file :: toks => srv.admits file .create → (definitions toks).length ≤ avLength
  | .tune =>
    match fields buffer with
    | file :: argc :: args =>
      srv.admits file .tune → 0 ≤ atoi argc → srv.malloc (atoi argc).toNat → (args.length : ℤ) = atoi argc
    | _ => True

section Create

variable {srv : Server} {n : ℕ} {buffer : Text} {st : CreateLocals} {tok : Text}

/-- The array holds the definitions read so far. -/
def CreateLocals.Holds (st : CreateLocals) (defs : List Text) : Prop :=
  defs.length ≤ avLength ∧ st.ac = defs.length ∧ st.av = filled avLength defs

/-- The next field is the argument of an option. -/
lemma definitions_option (h : takesArgument tok) (toks : List Text) : definitions (tok :: toks) = definitions toks.tail := by
  rw [definitions.eq_def]
  dsimp only
  rw [if_pos h]
  cases toks with
  | nil => rfl
  | cons arg toks => rfl

lemma definitions_plain (h : ¬ takesArgument tok) (toks : List Text) :
    definitions (tok :: toks) =
      if "-O".toList <+: tok then definitions toks else if isDefinition tok then tok :: definitions toks else [] := by
  rw [definitions.eq_def]
  dsimp only
  rw [if_neg h]

lemma optionArgument_cases (buffer : Text) :
    (∃ text, optionArgument buffer = .error (.error text) ∧ fields buffer = []) ∨
      ∃ arg buffer', optionArgument buffer = .ok (arg, buffer') ∧ fields buffer = arg :: fields buffer' ∧
        buffer'.length ≤ buffer.length := by
  unfold optionArgument
  cases hget : Bytes.bufferGetField buffer with
  | none => exact .inl ⟨_, rfl, fields_none hget⟩
  | some p => exact .inr ⟨_, _, rfl, fields_some hget, (bufferGetField_suffix hget).1.le⟩

/-- A field ends the request. -/
def EndsRequest (tok buffer : Text) (st : CreateLocals) : Prop :=
  (∃ text, createField tok buffer st = .error (.error text)) ∧ definitions (tok :: fields buffer) = []

/-- A field, with its argument, leaves the array as it is. -/
def LeavesArray (tok buffer : Text) (st : CreateLocals) : Prop :=
  ∃ buffer' st', createField tok buffer st = .ok (buffer', st') ∧ buffer'.length ≤ buffer.length ∧
    st'.ac = st.ac ∧ st'.av = st.av ∧ definitions (tok :: fields buffer) = definitions (fields buffer')

/-- A field is stored in the array. -/
def IsStored (tok buffer : Text) (st : CreateLocals) : Prop :=
  createField tok buffer st = (st.push tok >>= fun st' => .ok (buffer, st')) ∧
    definitions (tok :: fields buffer) = tok :: definitions (fields buffer)

lemma option_cases (h : takesArgument tok) {g : Text → CreateLocals}
    (hg : ∀ arg, (g arg).ac = st.ac ∧ (g arg).av = st.av)
    (hfield : createField tok buffer st = optionArgument buffer >>= fun p => .ok (p.2, g p.1)) :
    EndsRequest tok buffer st ∨ LeavesArray tok buffer st ∨ IsStored tok buffer st := by
  obtain ⟨text, harg, hfields⟩ | ⟨arg, buffer', harg, hfields, hlen⟩ := optionArgument_cases buffer
  · left
    rw [EndsRequest, hfield, harg, definitions_option h, hfields]
    exact ⟨⟨text, rfl⟩, rfl⟩
  · right
    left
    rw [LeavesArray, hfield, harg, definitions_option h, hfields]
    exact ⟨buffer', g arg, rfl, hlen, (hg arg).1, (hg arg).2, rfl⟩

/-- What a field does. -/
lemma createField_cases (tok buffer : Text) (st : CreateLocals) :
    EndsRequest tok buffer st ∨ LeavesArray tok buffer st ∨ IsStored tok buffer st := by
  have htakes : takesArgument tok ↔
      "-b".toList <+: tok ∨ "-s".toList <+: tok ∨ "-r".toList <+: tok ∨ "-t".toList <+: tok := by
    simp [takesArgument]
  by_cases hb : "-b".toList <+: tok
  · exact option_cases (g := fun arg => { st with lastUp := atol arg }) (htakes.2 (.inl hb)) (fun _ => ⟨rfl, rfl⟩)
      (if_pos hb)
  by_cases hs : "-s".toList <+: tok
  · exact option_cases (g := fun arg => { st with step := u64 (atol arg) }) (htakes.2 (.inr (.inl hs)))
      (fun _ => ⟨rfl, rfl⟩) ((if_neg hb).trans (if_pos hs))
  by_cases hr : "-r".toList <+: tok
  · exact option_cases
      (g := fun arg => { st with flushed := st.flushed ++ [arg], sources := st.sources ++ [arg] })
      (htakes.2 (.inr (.inr (.inl hr)))) (fun _ => ⟨rfl, rfl⟩) ((if_neg hb).trans ((if_neg hs).trans (if_pos hr)))
  by_cases ht : "-t".toList <+: tok
  · exact option_cases (g := fun arg => { st with flushed := st.flushed ++ [arg], template := some arg })
      (htakes.2 (.inr (.inr (.inr ht)))) (fun _ => ⟨rfl, rfl⟩)
      ((if_neg hb).trans ((if_neg hs).trans ((if_neg hr).trans (if_pos ht))))
  have hplain : ¬ takesArgument tok := by
    rw [htakes]
    rintro (h | h | h | h)
    · exact hb h
    · exact hs h
    · exact hr h
    · exact ht h
  have hdefs := definitions_plain hplain (fields buffer)
  have hfield : createField tok buffer st =
      if "-O".toList <+: tok then .ok (buffer, { st with noOverwrite := true })
      else if isDefinition tok then st.push tok >>= fun st' => .ok (buffer, st')
      else .error (.error (syntaxError createSyntax)) := by
    unfold createField
    rw [if_neg hb, if_neg hs, if_neg hr, if_neg ht]
    simp only [isDefinition, List.any_cons, List.any_nil, Bool.or_false, Bool.or_eq_true, decide_eq_true_eq]
    by_cases hO : "-O".toList <+: tok
    · rw [if_pos hO, if_pos hO]
    · rw [if_neg hO, if_neg hO]
      by_cases hds : "DS:".toList <+: tok
      · rw [if_pos hds, if_pos (.inl hds)]
        rfl
      · by_cases hrra : "RRA:".toList <+: tok
        · rw [if_neg hds, if_pos hrra, if_pos (.inr hrra)]
          rfl
        · rw [if_neg hds, if_neg hrra, if_neg (not_or.2 ⟨hds, hrra⟩)]
  by_cases hO : "-O".toList <+: tok
  · rw [if_pos hO] at hdefs hfield
    exact .inr (.inl ⟨buffer, _, hfield, le_rfl, rfl, rfl, hdefs⟩)
  rw [if_neg hO] at hdefs hfield
  by_cases hdef : isDefinition tok
  · rw [if_pos hdef] at hdefs hfield
    exact .inr (.inr ⟨hfield, hdefs⟩)
  · rw [if_neg hdef] at hdefs hfield
    exact .inl ⟨⟨_, hfield⟩, hdefs⟩

lemma push_holds {defs : List Text} (hst : st.Holds defs) (hroom : defs.length < avLength) (tok : Text) :
    ∃ st', st.push tok = .ok st' ∧ st'.Holds (defs ++ [tok]) := by
  obtain ⟨-, hac, hav⟩ := hst
  refine ⟨{ st with av := filled avLength (defs ++ [tok]), ac := st.ac + 1 }, ?_, ?_, ?_, rfl⟩
  · rw [CreateLocals.push, hac, hav, store_filled hroom]
    rfl
  · rw [List.length_append, List.length_singleton]
    exact hroom
  · rw [List.length_append, List.length_singleton, hac]

lemma push_full {defs : List Text} (hst : st.Holds defs) (hfull : defs.length = avLength) (tok : Text) :
    st.push tok = .error (.fault (.outside avLength)) := by
  obtain ⟨-, hac, hav⟩ := hst
  rw [CreateLocals.push, hac, hav, store_filled_full hfull]
  rfl

/-- The definitions that are left are stored, or one of them does not fit. -/
lemma createLoop_spec {defs : List Text} (hst : st.Holds defs) (hn : buffer.length ≤ n) :
    if defs.length + (definitions (fields buffer)).length ≤ avLength then
      Safe (fun st' => ∃ defs', st'.Holds defs') (createLoop n buffer st)
    else createLoop n buffer st = .error (.fault (.outside avLength)) := by
  induction n generalizing buffer st defs with
  | zero =>
    obtain rfl : buffer = [] := List.length_eq_zero_iff.1 (Nat.le_zero.1 hn)
    have hnone : definitions (fields []) = [] := rfl
    rw [hnone, List.length_nil, Nat.add_zero, if_pos hst.1]
    exact ⟨defs, hst⟩
  | succ n ih =>
    rw [createLoop]
    cases hget : Bytes.bufferGetField buffer with
    | none =>
      have hnone : definitions [] = [] := rfl
      rw [fields_none hget, hnone, List.length_nil, Nat.add_zero, if_pos hst.1]
      exact ⟨defs, hst⟩
    | some p =>
      obtain ⟨tok, rest⟩ := p
      have hlt := (bufferGetField_suffix hget).1
      rw [fields_some hget]
      dsimp only
      rcases createField_cases (cstr tok) rest st with ⟨⟨text, hend⟩, hdefs⟩ | hleaves | ⟨hstored, hdefs⟩
      · rw [hend, hdefs, List.length_nil, Nat.add_zero, if_pos hst.1]
        exact safe_error text
      · obtain ⟨rest', st', hfield, hlen, hac, hav, hdefs⟩ := hleaves
        have hst' : st'.Holds defs := by rwa [CreateLocals.Holds, hac, hav]
        rw [hfield, hdefs, ok_bind]
        exact ih hst' (by omega)
      · rw [hstored, hdefs, List.length_cons]
        obtain hroom | hfull := hst.1.lt_or_eq
        · obtain ⟨st', hpush, hst'⟩ := push_holds hst hroom (cstr tok)
          have hrest := @ih rest st' _ hst' (by omega)
          rw [List.length_append, List.length_singleton, add_assoc, add_comm 1] at hrest
          rw [hpush]
          exact hrest
        · rw [push_full hst hfull, if_neg (by omega)]
          rfl

lemma createFile_noFault (createR2 : CreateCall → Option Text) (file : Text) (h : ∃ defs, st.Holds defs) :
    NoFault (createFile createR2 file st) := by
  obtain ⟨defs, -, hac, hav⟩ := h
  unfold createFile NoFault
  rw [hac, hav, loadFirst_filled le_rfl]
  split
  · exact safe_error _
  · rw [ok_bind]
    split
    · exact trivial
    · exact safe_error _

/-- The array of `CREATE`. -/
lemma handleRequestCreate_iff (srv : Server) (createR2 : CreateCall → Option Text) (buffer : Text) :
    NoFault (handleRequestCreate srv createR2 buffer) ↔ VectorFits srv buffer .create := by
  rw [handleRequestCreate, VectorFits]
  cases hget : Bytes.bufferGetField buffer with
  | none =>
    rw [fields_none hget]
    exact iff_of_true (safe_error _) trivial
  | some p =>
    obtain ⟨pbuffile, rest⟩ := p
    rw [fields_some hget]
    dsimp only [Server.admits]
    by_cases haccess : srv.checkAccess (srv.absPath (cstr pbuffile))
    · rw [haccess]
      rw [Bool.not_true, Bool.true_and, if_neg Bool.false_ne_true]
      cases hdir : makeDirectory srv (dirname (srv.absPath (cstr pbuffile))) with
      | some err =>
        refine iff_of_true (safe_error err) ?_
        intro h
        cases h
      | none =>
        have hinit : (CreateLocals.init srv).Holds [] := ⟨Nat.zero_le _, rfl, rfl⟩
        have hloop := @createLoop_spec rest.length rest (.init srv) [] hinit le_rfl
        rw [List.length_nil, Nat.zero_add] at hloop
        dsimp only
        split at hloop
        · rename_i hfits
          refine iff_of_true ?_ fun _ => hfits
          exact (safe_bind _ _).2 (hloop.mono fun st' => createFile_noFault createR2 _)
        · rename_i hoverflow
          rw [hloop]
          exact iff_of_false (not_safe_fault _) fun h => hoverflow (h rfl)
    · rw [Bool.not_eq_true] at haccess
      rw [haccess]
      refine iff_of_true (safe_error _) ?_
      intro h
      cases h

end Create

section Tune

variable {n argc : ℕ} {buffer : Text} {args : List Text}

/-- The fields that are left are stored, or one of them does not fit. -/
lemma tuneLoop_spec (hargs : args.length ≤ argc) (hn : buffer.length ≤ n) :
    tuneLoop n buffer args.length (filled argc args) =
      if args.length + (fields buffer).length ≤ argc then .ok (filled argc (args ++ fields buffer))
      else .error (.fault (.outside argc)) := by
  induction n generalizing buffer args with
  | zero =>
    obtain rfl : buffer = [] := List.length_eq_zero_iff.1 (Nat.le_zero.1 hn)
    have hnone : fields [] = [] := rfl
    rw [hnone, List.length_nil, Nat.add_zero, if_pos hargs, List.append_nil]
    rfl
  | succ n ih =>
    rw [tuneLoop]
    cases hget : Bytes.bufferGetField buffer with
    | none =>
      dsimp only
      rw [fields_none hget, List.length_nil, Nat.add_zero, if_pos hargs, List.append_nil]
    | some p =>
      obtain ⟨tok, rest⟩ := p
      have hlt := (bufferGetField_suffix hget).1
      rw [fields_some hget]
      dsimp only
      obtain hroom | hfull := hargs.lt_or_eq
      · have hlen : (args ++ [cstr tok]).length = args.length + 1 := List.length_append
        have hrest := @ih rest (args ++ [cstr tok]) (by omega) (by omega)
        rw [hlen, List.append_assoc, add_assoc, add_comm 1] at hrest
        rw [store_filled hroom, ok_bind]
        exact hrest
      · rw [store_filled_full hfull, List.length_cons, if_neg (by omega)]
        rfl

/-- All of the array is read. -/
lemma tuneFile_noFault_iff (tuneR : Text → List Text → Option Text) (file : Text) (hargs : args.length ≤ argc) :
    NoFault (tuneFile tuneR file argc (filled argc args)) ↔ args.length = argc := by
  unfold tuneFile NoFault
  obtain hless | rfl := hargs.lt_or_eq
  · rw [loadFirst_unfilled hless hless]
    exact iff_of_false (not_safe_fault _) hless.ne
  · rw [loadFirst_filled le_rfl, ok_bind]
    refine iff_of_true ?_ rfl
    split
    · exact trivial
    · exact safe_error _

/-- The array of `TUNE`. -/
lemma handleRequestTune_iff (srv : Server) (tuneR : Text → List Text → Option Text) (buffer : Text) :
    NoFault (handleRequestTune srv tuneR buffer) ↔ VectorFits srv buffer .tune := by
  rw [handleRequestTune, VectorFits]
  cases hget : Bytes.bufferGetField buffer with
  | none =>
    rw [fields_none hget]
    exact iff_of_true (safe_error _) trivial
  | some p =>
    obtain ⟨pbuffile, behind⟩ := p
    rw [fields_some hget]
    dsimp only [Server.admits]
    by_cases haccess : srv.checkAccess (srv.absPath (cstr pbuffile))
    · rw [haccess, Bool.not_true, if_neg Bool.false_ne_true]
      cases hcount : Bytes.bufferGetField behind with
      | none =>
        rw [fields_none hcount]
        exact iff_of_true (safe_error _) trivial
      | some q =>
        obtain ⟨i, rest⟩ := q
        rw [fields_some hcount]
        dsimp only
        by_cases hneg : atoi (cstr i) < 0
        · rw [if_pos hneg]
          exact iff_of_true (safe_error _) fun _ hpos => absurd hneg (not_lt.2 hpos)
        · rw [if_neg hneg]
          by_cases hmalloc : srv.malloc (atoi (cstr i)).toNat
          · have hloop := @tuneLoop_spec rest.length (atoi (cstr i)).toNat rest [] (Nat.zero_le _) le_rfl
            rw [List.length_nil, Nat.zero_add, List.nil_append] at hloop
            rw [hmalloc, Bool.not_true, if_neg Bool.false_ne_true, new_eq_filled, hloop]
            have hargc : ((fields rest).length = (atoi (cstr i)).toNat) ↔ ((fields rest).length : ℤ) = atoi (cstr i) := by
              omega
            split
            · rename_i hfits
              rw [ok_bind, tuneFile_noFault_iff tuneR _ hfits, hargc]
              constructor
              · exact fun h _ _ _ => h
              · exact fun h => h haccess (not_lt.1 hneg) rfl
            · rename_i hoverflow
              refine iff_of_false (not_safe_fault _) fun h => hoverflow ?_
              exact (hargc.2 (h haccess (not_lt.1 hneg) rfl)).le
          · rw [Bool.not_eq_true] at hmalloc
            rw [hmalloc]
            refine iff_of_true (safe_error _) ?_
            exact fun _ _ h => absurd h Bool.false_ne_true
    · have hrefused := Bool.eq_false_iff.2 haccess
      rw [hrefused]
      refine iff_of_true (safe_error _) ?_
      split
      · rename_i heq
        intro h
        rw [← (List.cons.inj heq).1] at h
        exact absurd h haccess
      · trivial

end Tune

/-- The handler of the command. -/
def handleVector (srv : Server) (createR2 : CreateCall → Option Text) (tuneR : Text → List Text → Option Text)
    (buffer : Text) : VectorCommand → Except (Stop Text SlotFault) Text
  | .create => handleRequestCreate srv createR2 buffer
  | .tune => handleRequestTune srv tuneR buffer

/-- The text of `create` for the file `f` with so many definitions. -/
def createText (n : ℕ) : Text := 'f' :: (List.replicate n " DS:".toList).flatten ++ ['\x00']

end Rrdtool
