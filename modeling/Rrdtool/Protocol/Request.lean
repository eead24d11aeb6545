import Rrdtool.Protocol.Field
import Rrdtool.Strtol

/-!
# Requests of the client

Port of the request builders of `src/rrd_client.c`. A request is built in a buffer of `RRD_CMD_MAX`
bytes; each string is followed by a blank, and the last blank becomes the line end. `get_path`, which
asks the file system for the absolute path, is a parameter.

`rrd_client_create_r2` looks at the status of the last option only, so that a longer string before it
can be missing, and `next_cmd` takes a carriage return at the end of the last string for a part of the
line end. Otherwise the daemon reads what was given (`send_faithful_iff`).
-/

namespace Rrdtool

/-! ### The builders -/

/-- The requests of the client, with what its functions are given. -/
inductive ClientRequest where
  | update (filename : Text) (values : List Text) (now : ℕ)
  | flush (filename : Text)
  | forget (filename : Text)
  | create (filename : Text) (pdpStep : ℕ) (lastUp : Option ℕ) (noOverwrite : Bool)
    (sources : List Text) (template : Option Text) (argv : List Text)
  | tune (filename : Text) (argv : List Text)

namespace Client

/-- `buffer_add_string` on the buffer: the buffer, and whether the string was added. -/
@[grind] def addString (buffer str : Text) : Text × Bool :=
  match bufferAddString (rrdCmdMax - buffer.length) str with
  | some t => (buffer ++ t, true)
  | none => (buffer, false)

/-- The strings are added; the first one that is not ends the request. -/
@[grind] def addAll : Text → List Text → Option Text
  | buffer, [] => some buffer
  | buffer, str :: strs =>
    match addString buffer str with
    | (buffer, true) => addAll buffer strs
    | (_, false) => none

/-- The strings are added; only the status of the last one is kept. -/
@[grind] def addLoosely : Text × Bool → List Text → Text × Bool
  | p, [] => p
  | (buffer, _), str :: strs => addLoosely (addString buffer str) strs

/-- The text of `buffer_add_value`, at time `now`. -/
@[grind] def value (now : ℕ) (v : Text) : Text :=
  (if v.take 2 = ['N', ':'] then ulong now ++ ':' :: v.drop 2 else v).take (rrdCmdMax - 1)

/-- The last blank becomes the line end. -/
def endLine (buffer : Text) : Text := buffer.dropLast ++ ['\n']

/-- The options of `create`, from the file on. -/
def createOptions (path : Text) (pdpStep : ℕ) (lastUp : Option ℕ) (noOverwrite : Bool)
    (sources : List Text) (template : Option Text) : List Text :=
  path :: (match lastUp with | some t => [['-', 'b'], ulong t] | none => []) ++
    [['-', 's'], ulong pdpStep] ++ (if noOverwrite then [['-', 'O']] else []) ++
    sources.flatMap (fun s => [['-', 'r'], s]) ++
    (match template with | some t => [['-', 't'], t] | none => [])

end Client

open Client

section

variable (getPath : Text → Option Text)

/-- The line that is sent; `none` when an error is reported instead. -/
@[grind] def ClientRequest.send : ClientRequest → Option Text
  | .update filename values now => do
    let buffer ← addAll [] ["update".toList]
    let path ← getPath filename
    let buffer ← addAll buffer [path]
    let buffer ← addAll buffer (values.map (value now))
    return endLine buffer
  | .flush filename => do
    let buffer ← addAll [] ["flush".toList]
    let path ← getPath filename
    let buffer ← addAll buffer [path]
    return endLine buffer
  | .forget filename => do
    let buffer ← addAll [] ["forget".toList]
    let path ← getPath filename
    let buffer ← addAll buffer [path]
    return endLine buffer
  | .create filename pdpStep lastUp noOverwrite sources template argv => do
    let buffer ← addAll [] ["create".toList]
    let path ← getPath filename
    let (buffer, status) := addLoosely (buffer, true)
      (createOptions path pdpStep lastUp noOverwrite sources template)
    guard status
    let buffer ← addAll buffer argv
    return endLine buffer
  | .tune filename argv => do
    let buffer ← addAll [] ["tune".toList]
    let path ← getPath filename
    let buffer ← addAll buffer [path]
    let buffer ← addAll buffer [ulong argv.length]
    let buffer ← addAll buffer argv
    return endLine buffer

/-- The command and its arguments, when there is a path. -/
@[grind] def ClientRequest.fields : ClientRequest → Option (List Text)
  | .update filename values now =>
    (getPath filename).map fun path => "update".toList :: path :: values.map (value now)
  | .flush filename => (getPath filename).map fun path => ["flush".toList, path]
  | .forget filename => (getPath filename).map fun path => ["forget".toList, path]
  | .create filename pdpStep lastUp noOverwrite sources template argv =>
    (getPath filename).map fun path =>
      "create".toList :: createOptions path pdpStep lastUp noOverwrite sources template ++ argv
  | .tune filename argv =>
    (getPath filename).map fun path => "tune".toList :: path :: ulong argv.length :: argv

end

/-! ### The daemon -/

/-- `next_cmd`: the first line of the buffer and what is behind it. -/
@[grind] def nextCmd (rbuf : Text) : Option (Text × Text) :=
  match rbuf.span (· ≠ '\n') with
  | (_, []) => none
  | (line, _ :: rest) => some (if line.getLast? = some '\r' then line.dropLast else line, rest)

/-- `buffer_get_field` until the buffer is used up, at most `n` times. -/
@[grind] def getFields : ℕ → Text → Option (List Text)
  | 0, _ => none
  | n + 1, buffer =>
    match bufferGetField buffer with
    | none => none
    | some (field, none) => some [field]
    | some (field, some rest) => (getFields n rest).map (field :: ·)

/-- All fields of a command; there are no more than it has characters, and one. -/
def allFields (cmd : Text) : Option (List Text) := getFields (cmd.length + 1) cmd

/-! ### What is read is what was added -/

lemma joined_cons_length (str : Text) (strs : List Text) :
    (joined (str :: strs)).length = (escape str).length + 1 + (joined strs).length := by
  simp [joined]
  omega

/-- The strings are added when they all fit. -/
lemma addAll_eq (buffer : Text) (strs : List Text) (h : buffer.length ≤ rrdCmdMax) :
    addAll buffer strs =
      if buffer.length + (joined strs).length ≤ rrdCmdMax then some (buffer ++ joined strs) else none := by
  induction strs generalizing buffer with
  | nil => simp [addAll, joined, h]
  | cons str strs ih =>
    rw [joined_cons_length]
    simp only [addAll, addString, bufferAddString_eq]
    by_cases hfit : (escape str).length < rrdCmdMax - buffer.length
    · have hlen : (buffer ++ (escape str ++ [' '])).length = buffer.length + (escape str).length + 1 := by
        simp
        omega
      rw [if_pos hfit]
      simp only
      rw [ih _ (by omega), hlen]
      simp only [add_assoc]
      split
      · simp [joined]
      · rfl
    · rw [if_neg hfit, if_neg (by omega)]

/-- The strings that are added when only the last status is kept, and that status. -/
@[grind] def kept : ℕ → Bool → List Text → List Text × Bool
  | _, status, [] => ([], status)
  | used, _, str :: strs =>
    if used + (escape str).length < rrdCmdMax then
      let (strs, status) := kept (used + (escape str).length + 1) true strs
      (str :: strs, status)
    else kept used false strs

lemma addLoosely_eq (buffer : Text) (status : Bool) (strs : List Text) :
    addLoosely (buffer, status) strs =
      (buffer ++ joined (kept buffer.length status strs).1, (kept buffer.length status strs).2) := by
  induction strs generalizing buffer status with
  | nil => simp [addLoosely, kept, joined]
  | cons str strs ih =>
    simp only [addLoosely, addString, bufferAddString_eq, kept]
    by_cases hfit : (escape str).length < rrdCmdMax - buffer.length
    · rw [if_pos hfit, if_pos (by omega)]
      simp only
      rw [ih]
      simp [joined, add_assoc]
    · rw [if_neg hfit, if_neg (by omega)]
      exact ih buffer false

lemma kept_length_le (used : ℕ) (status : Bool) (strs : List Text) :
    (kept used status strs).1.length ≤ strs.length := by
  induction strs generalizing used status with
  | nil => exact le_refl _
  | cons str strs ih =>
    simp only [kept]
    split
    · exact Nat.succ_le_succ (ih _ _)
    · exact (ih _ _).trans (Nat.le_succ _)

lemma kept_used_le {used : ℕ} {status : Bool} {strs : List Text} (h : used ≤ rrdCmdMax) :
    used + (joined (kept used status strs).1).length ≤ rrdCmdMax := by
  induction strs generalizing used status with
  | nil => simpa [kept, joined] using h
  | cons str strs ih =>
    simp only [kept]
    split
    · rename_i hfit
      have := @ih (used + (escape str).length + 1) true (by omega)
      rw [joined_cons_length]
      omega
    · exact ih h

/-- All strings are added exactly when all fit; otherwise there are fewer. -/
lemma kept_cases {used : ℕ} {status : Bool} {strs : List Text} (h : used ≤ rrdCmdMax) :
    (used + (joined strs).length ≤ rrdCmdMax ∧ (kept used status strs).1 = strs) ∨
      (rrdCmdMax < used + (joined strs).length ∧ (kept used status strs).1.length < strs.length) := by
  induction strs generalizing used status with
  | nil => exact .inl ⟨by simpa [joined] using h, rfl⟩
  | cons str strs ih =>
    rw [joined_cons_length]
    simp only [kept]
    split
    · rename_i hfit
      rcases @ih (used + (escape str).length + 1) true (by omega) with
        ⟨hle, heq⟩ | ⟨hlt, hlen⟩
      · exact .inl ⟨by omega, by rw [heq]⟩
      · exact .inr ⟨by omega, Nat.succ_lt_succ hlen⟩
    · rename_i hfit
      refine .inr ⟨by omega, ?_⟩
      exact Nat.lt_succ_of_le (kept_length_le used false strs)

lemma joined_dropLast_cons {str : Text} {strs : List Text} (hne : strs ≠ []) :
    (joined (str :: strs)).dropLast = escape str ++ ' ' :: (joined strs).dropLast := by
  have hrest : joined strs ≠ [] := by
    cases strs with
    | nil => exact absurd rfl hne
    | cons str' strs => simp [joined]
  show ((escape str ++ [' ']) ++ joined strs).dropLast = _
  rw [List.dropLast_append_of_ne_nil hrest]
  simp

/-- The fields of the strings, without the last blank. -/
lemma getFields_joined {strs : List Text} {n : ℕ} (hne : strs ≠ []) (hn : strs.length ≤ n) :
    getFields n (joined strs).dropLast = some strs := by
  induction strs generalizing n with
  | nil => exact absurd rfl hne
  | cons str strs ih =>
    cases n with
    | zero => cases hn
    | succ n =>
      cases strs with
      | nil =>
        have hlast : (joined [str]).dropLast = escape str := by simp [joined]
        rw [hlast, getFields, bufferGetField_escape]
      | cons str' strs =>
        simp only [joined_dropLast_cons (List.cons_ne_nil str' strs), getFields,
          bufferGetField_escape_blank]
        rw [ih (by simp) (Nat.le_of_succ_le_succ hn)]
        rfl

/-- Cut off a carriage return at the end. -/
@[grind] def chompCr (text : Text) : Text := if text.getLast? = some '\r' then text.dropLast else text

/-- A carriage return at the end of the last field is lost. -/
@[grind] def chompLast : List Text → List Text
  | [] => []
  | [str] => [chompCr str]
  | str :: strs => str :: chompLast strs

lemma chompLast_cons {str : Text} {strs : List Text} (hne : strs ≠ []) :
    chompLast (str :: strs) = str :: chompLast strs := by
  cases strs with
  | nil => exact absurd rfl hne
  | cons str' strs => rfl

lemma chompLast_ne_nil {strs : List Text} (hne : strs ≠ []) : chompLast strs ≠ [] := by
  cases strs with
  | nil => exact absurd rfl hne
  | cons str strs =>
    cases strs with
    | nil => simp [chompLast]
    | cons str' strs => simp [chompLast]

lemma chompLast_length (strs : List Text) : (chompLast strs).length = strs.length := by
  induction strs with
  | nil => rfl
  | cons str strs ih =>
    cases strs with
    | nil => rfl
    | cons str' strs =>
      rw [chompLast_cons (by simp), List.length_cons, ih]
      rfl

lemma escape_append (a b : Text) : escape (a ++ b) = escape a ++ escape b := by
  induction a with
  | nil => rfl
  | cons c a ih =>
    simp only [List.cons_append, escape, ih]
    split <;> rfl

lemma mem_escape {c : Char} {str : Text} (h : c ∈ escape str) : c ∈ str ∨ c = '\\' := by
  induction str with
  | nil => cases h
  | cons d str ih =>
    simp only [escape] at h
    split at h
    · simp only [List.mem_cons] at h ⊢
      tauto
    · simp only [List.mem_cons] at h ⊢
      tauto

/-- Escaping keeps the last character. -/
lemma escape_last (str : Text) : (escape str).getLast? = str.getLast? := by
  rcases List.eq_nil_or_concat str with rfl | ⟨a, c, rfl⟩
  · rfl
  · rw [List.concat_eq_append, escape_append]
    simp only [escape]
    split <;> simp

lemma chompCr_escape (str : Text) : chompCr (escape str) = escape (chompCr str) := by
  unfold chompCr
  rw [escape_last]
  split
  · rename_i h
    rcases List.eq_nil_or_concat str with rfl | ⟨a, c, rfl⟩
    · rfl
    · rw [List.concat_eq_append] at h ⊢
      have hc : c = '\r' := by simpa using h
      subst hc
      rw [escape_append]
      simp [escape]
  · rfl

lemma chompCr_append_blank (a l : Text) : chompCr (a ++ ' ' :: l) = a ++ ' ' :: chompCr l := by
  cases l with
  | nil => simp [chompCr]
  | cons c l =>
    have hlast : (a ++ ' ' :: c :: l).getLast? = (c :: l).getLast? := by
      rw [List.getLast?_append_of_ne_nil _ (by simp)]
      simp
    unfold chompCr
    rw [hlast]
    split
    · rw [List.dropLast_append_of_ne_nil (by simp)]
      simp
    · rfl

/-- The daemon cuts off the carriage return of the last field. -/
lemma chompCr_joined {strs : List Text} (hne : strs ≠ []) :
    chompCr (joined strs).dropLast = (joined (chompLast strs)).dropLast := by
  induction strs with
  | nil => exact absurd rfl hne
  | cons str strs ih =>
    cases strs with
    | nil => simp [joined, chompLast, chompCr_escape]
    | cons str' strs =>
      have hne' : str' :: strs ≠ [] := by simp
      rw [chompLast_cons hne', joined_dropLast_cons hne', chompCr_append_blank, ih hne',
        joined_dropLast_cons (chompLast_ne_nil hne')]

/-- A line without a line end in its fields is one command. -/
lemma nextCmd_endLine {strs : List Text} (hne : strs ≠ []) (hnl : ∀ str ∈ strs, '\n' ∉ str) :
    nextCmd (endLine (joined strs)) = some ((joined (chompLast strs)).dropLast, []) := by
  have hfree : ∀ c ∈ (joined strs).dropLast, c ≠ '\n' := by
    rintro c hc rfl
    have hmem := List.dropLast_subset _ hc
    obtain ⟨str, hstr, hin⟩ := List.mem_flatMap.1 hmem
    rcases List.mem_append.1 hin with hin | hin
    · rcases mem_escape hin with hin | hin
      · exact hnl str hstr hin
      · cases hin
    · cases List.mem_singleton.1 hin
  have hspan : (endLine (joined strs)).span (· ≠ '\n') = ((joined strs).dropLast, ['\n']) := by
    rw [endLine, List.span_eq_takeWhile_dropWhile]
    rw [List.takeWhile_append_of_pos (by simpa using hfree),
      List.dropWhile_append_of_pos (by simpa using hfree)]
    simp
  rw [nextCmd, hspan, ← chompCr_joined hne]
  rfl

/-! ### Which requests are faithful -/

section

variable (getPath : Text → Option Text)

/-- The request is not sent, or it is sent as one line that the daemon splits into the command and the
arguments. -/
def ClientRequest.Faithful (r : ClientRequest) : Prop :=
  r.send getPath = none ∨ ∃ line cmd strs, r.send getPath = some line ∧
    r.fields getPath = some strs ∧ nextCmd line = some (cmd, []) ∧ allFields cmd = some strs

/-- The strings that are meant for the line, and the status of the last option. A `create` goes on
without an option that does not fit behind those before it. -/
def ClientRequest.sentFields : ClientRequest → Option (List Text × Bool)
  | .create filename pdpStep lastUp noOverwrite sources template argv =>
    (getPath filename).map fun path =>
      let (options, status) := kept ("create ".toList).length true
        (createOptions path pdpStep lastUp noOverwrite sources template)
      ("create".toList :: options ++ argv, status)
  | r => (r.fields getPath).map fun strs => (strs, true)

/-- The request is refused: its last option, or an argument, does not fit. -/
@[grind] def ClientRequest.Refused (r : ClientRequest) : Prop :=
  ∀ p ∈ r.sentFields getPath, p.2 = false ∨ rrdCmdMax < (joined p.1).length

/-- All strings fit, and the last one does not end in a carriage return. -/
@[grind] def ClientRequest.Fits (r : ClientRequest) : Prop :=
  ∀ strs ∈ r.fields getPath, (joined strs).length ≤ rrdCmdMax ∧
    ∀ str ∈ strs.getLast?, str.getLast? ≠ some '\r'

end

lemma joined_append (strs strs' : List Text) : joined (strs ++ strs') = joined strs ++ joined strs' := by
  simp [joined]

lemma addAll_joined {strs strs' : List Text} (h : (joined strs).length ≤ rrdCmdMax) :
    addAll (joined strs) strs' = if (joined (strs ++ strs')).length ≤ rrdCmdMax then
      some (joined (strs ++ strs')) else none := by
  rw [addAll_eq _ _ h, joined_append, List.length_append]

lemma addAll_append (buffer : Text) (strs strs' : List Text) :
    addAll buffer (strs ++ strs') = (addAll buffer strs).bind fun buffer => addAll buffer strs' := by
  induction strs generalizing buffer with
  | nil => rfl
  | cons str strs ih =>
    simp only [List.cons_append, addAll]
    split
    · exact ih _
    · rfl

/-- The command fits. -/
lemma addAll_command {cmd : Text} (h : (joined [cmd]).length ≤ rrdCmdMax) :
    addAll [] [cmd] = some (joined [cmd]) := by
  have hadd := @addAll_joined [] [cmd] (Nat.zero_le _)
  rw [List.nil_append, if_pos h] at hadd
  exact hadd

/-- The strings behind the command are added and the line is ended. -/
lemma endLine_addAll {cmd : Text} (strs : List Text) (h : (joined [cmd]).length ≤ rrdCmdMax) :
    ((addAll (joined [cmd]) strs).bind fun buffer => some (endLine buffer)) =
      if (joined (cmd :: strs)).length ≤ rrdCmdMax then some (endLine (joined (cmd :: strs)))
      else none := by
  rw [addAll_joined h]
  show Option.bind (if (joined (cmd :: strs)).length ≤ rrdCmdMax then _ else _) _ = _
  split <;> rfl

/-- Strings that are added one list after the other. -/
lemma addAll_bind_append {β : Type} (buffer : Text) (strs strs' : List Text) (f : Text → Option β) :
    ((addAll buffer strs).bind fun buffer => (addAll buffer strs').bind f) = (addAll buffer (strs ++ strs')).bind f := by
  rw [addAll_append, Option.bind_assoc]

/-- A command, and the strings that `add` adds when there is a path. -/
lemma sent_line (cmd : Text) (h : (joined [cmd]).length ≤ rrdCmdMax) (path? : Option Text) (strs : Text → List Text)
    (add : Text → Text → Option Text)
    (hadd : ∀ buffer path, add buffer path = (addAll buffer (strs path)).bind fun buffer => some (endLine buffer)) :
    ((addAll [] [cmd]).bind fun buffer => path?.bind (add buffer)) =
      ((path?.map fun path => cmd :: strs path).map fun strs => (strs, true)).bind fun p =>
        if p.2 = true ∧ (joined p.1).length ≤ rrdCmdMax then some (endLine (joined p.1)) else none := by
  rw [addAll_command h, Option.bind_some]
  cases path? with
  | none => rfl
  | some path =>
    rw [Option.bind_some, Option.map_some, Option.map_some, Option.bind_some, hadd, endLine_addAll _ h]
    exact if_congr (and_iff_right rfl).symm rfl rfl

lemma kept_subset (used : ℕ) (status : Bool) (strs : List Text) : (kept used status strs).1 ⊆ strs := by
  induction strs generalizing used status with
  | nil => exact List.Subset.refl _
  | cons str strs ih =>
    simp only [kept]
    split
    · exact List.cons_subset_cons str (ih _ _)
    · exact List.Subset.trans (ih _ _) (List.subset_cons_self _ _)

lemma chompCr_eq_self_iff (str : Text) : chompCr str = str ↔ str.getLast? ≠ some '\r' := by
  unfold chompCr
  split
  · rename_i h
    refine iff_of_false (fun heq => ?_) (not_not.2 h)
    have hlen := congrArg List.length heq
    have hpos : str ≠ [] := by
      rintro rfl
      cases h
    have := List.length_pos_iff.2 hpos
    rw [List.length_dropLast] at hlen
    omega
  · rename_i h
    exact iff_of_true rfl h

lemma chompLast_eq_self_iff {strs : List Text} (hne : strs ≠ []) :
    chompLast strs = strs ↔ ∀ str ∈ strs.getLast?, str.getLast? ≠ some '\r' := by
  induction strs with
  | nil => exact absurd rfl hne
  | cons str strs ih =>
    cases strs with
    | nil => simp [chompLast, chompCr_eq_self_iff]
    | cons str' strs =>
      rw [chompLast_cons (by simp), List.cons_eq_cons, List.getLast?_cons_cons]
      simpa using ih (by simp)

lemma fields_ne_nil {getPath : Text → Option Text} {r : ClientRequest} {strs : List Text}
    (h : strs ∈ r.fields getPath) : strs ≠ [] := by
  cases r with
  | update filename values now =>
    obtain ⟨path, -, rfl⟩ := Option.map_eq_some_iff.1 h
    simp
  | flush filename =>
    obtain ⟨path, -, rfl⟩ := Option.map_eq_some_iff.1 h
    simp
  | forget filename =>
    obtain ⟨path, -, rfl⟩ := Option.map_eq_some_iff.1 h
    simp
  | create filename pdpStep lastUp noOverwrite sources template argv =>
    obtain ⟨path, -, rfl⟩ := Option.map_eq_some_iff.1 h
    simp
  | tune filename argv =>
    obtain ⟨path, -, rfl⟩ := Option.map_eq_some_iff.1 h
    simp

lemma allFields_joined {strs : List Text} (hne : strs ≠ []) :
    allFields (joined strs).dropLast = some strs := by
  refine getFields_joined hne ?_
  have hlen : strs.length ≤ (joined strs).length := by
    clear hne
    induction strs with
    | nil => exact Nat.zero_le _
    | cons str strs ih =>
      rw [joined_cons_length, List.length_cons]
      omega
  rw [List.length_dropLast]
  omega

section

variable {getPath : Text → Option Text} {r : ClientRequest}

/-- What is sent. -/
lemma send_eq : r.send getPath = (r.sentFields getPath).bind fun p =>
    if p.2 = true ∧ (joined p.1).length ≤ rrdCmdMax then some (endLine (joined p.1)) else none := by
  cases r with
  | update filename values now =>
    exact sent_line "update".toList (by decide) (getPath filename) (fun path => [path] ++ values.map (value now))
      (fun buffer path => (addAll buffer [path]).bind fun buffer => (addAll buffer (values.map (value now))).bind
        fun buffer => some (endLine buffer))
      fun buffer path => addAll_bind_append buffer _ _ _
  | flush filename =>
    exact sent_line "flush".toList (by decide) (getPath filename) (fun path => [path])
      (fun buffer path => (addAll buffer [path]).bind fun buffer => some (endLine buffer)) fun _ _ => rfl
  | forget filename =>
    exact sent_line "forget".toList (by decide) (getPath filename) (fun path => [path])
      (fun buffer path => (addAll buffer [path]).bind fun buffer => some (endLine buffer)) fun _ _ => rfl
  | tune filename argv =>
    refine sent_line "tune".toList (by decide) (getPath filename)
      (fun path => [path] ++ ([ulong argv.length] ++ argv))
      (fun buffer path => (addAll buffer [path]).bind fun buffer => (addAll buffer [ulong argv.length]).bind fun buffer =>
        (addAll buffer argv).bind fun buffer => some (endLine buffer))
      fun buffer path => ?_
    rw [← addAll_bind_append]
    exact congrArg _ (funext fun buffer => addAll_bind_append buffer _ _ _)
  | create filename pdpStep lastUp noOverwrite sources template argv =>
    have hcmd := @addAll_command "create".toList (by decide)
    have hlen : (joined ["create".toList]).length = ("create ".toList).length := rfl
    simp only [ClientRequest.send, ClientRequest.sentFields, Option.bind_eq_bind, hcmd,
      Option.bind_some]
    cases getPath filename with
    | none => rfl
    | some path =>
      simp only [Option.bind_some, Option.map_some, addLoosely_eq, hlen]
      generalize hk : kept ("create ".toList).length true
        (createOptions path pdpStep lastUp noOverwrite sources template) = k
      obtain ⟨options, status⟩ := k
      have hbound : (joined ("create".toList :: options)).length ≤ rrdCmdMax := by
        have := @kept_used_le ("create ".toList).length true
          (createOptions path pdpStep lastUp noOverwrite sources template) (by decide)
        rw [hk] at this
        rw [show "create".toList :: options = ["create".toList] ++ options from rfl, joined_append,
          List.length_append, hlen]
        exact this
      have hjoin : joined ["create".toList] ++ joined options = joined ("create".toList :: options) :=
        (joined_append _ _).symm
      rw [hjoin, addAll_joined hbound]
      cases status with
      | false => rfl
      | true =>
        simp only [guard, if_true, Option.pure_def, Option.bind_some, true_and]
        split <;> rfl

/-- The strings of the line and those that were given. -/
lemma sentFields_cases {p : List Text × Bool} (h : p ∈ r.sentFields getPath) :
    ∃ strs ∈ r.fields getPath, p.1 ≠ [] ∧ (∀ str ∈ p.1, str ∈ strs) ∧
      ((joined strs).length ≤ rrdCmdMax ∨ p.1.length = strs.length → p.1 = strs) := by
  cases r with
  | create filename pdpStep lastUp noOverwrite sources template argv =>
    obtain ⟨path, hpath, rfl⟩ := Option.map_eq_some_iff.1 h
    refine ⟨"create".toList ::
      createOptions path pdpStep lastUp noOverwrite sources template ++ argv, ?_, by simp, ?_, ?_⟩
    · rw [Option.mem_def, ClientRequest.fields, hpath, Option.map_some]
    · intro str hstr
      simp only [List.cons_append, List.mem_cons, List.mem_append] at hstr ⊢
      have := kept_subset ("create ".toList).length true
        (createOptions path pdpStep lastUp noOverwrite sources template) (a := str)
      tauto
    · rcases @kept_cases ("create ".toList).length true
          (createOptions path pdpStep lastUp noOverwrite sources template) (by decide)
        with ⟨-, heq⟩ | ⟨hlt, hlen⟩
      · intro _
        simp only [heq]
      · have hcreate : (escape "create".toList).length = 6 := rfl
        rintro (hle | heq)
        · simp only [List.cons_append, joined_cons_length, joined_append, List.length_append,
            hcreate] at hle
          have : ("create ".toList).length = 7 := rfl
          omega
        · simp only [List.cons_append, List.length_cons, List.length_append] at heq
          omega
  | _ =>
    obtain ⟨strs, hstrs, rfl⟩ := Option.map_eq_some_iff.1 h
    exact ⟨strs, hstrs, fields_ne_nil hstrs, fun str hstr => hstr, fun _ => rfl⟩

/-- A request is faithful exactly when it is refused, or all its strings fit and the last one does not
end in a carriage return. -/
theorem send_faithful_iff (hnl : ∀ strs ∈ r.fields getPath, ∀ str ∈ strs, '\n' ∉ str) :
    r.Faithful getPath ↔ r.Refused getPath ∨ r.Fits getPath := by
  cases hp : r.sentFields getPath with
  | none =>
    have hnone : r.send getPath = none := by rw [send_eq, hp, Option.bind_none]
    refine iff_of_true (.inl hnone) (.inl ?_)
    rw [ClientRequest.Refused, hp]
    simp
  | some p =>
    obtain ⟨strs, hstrs, hne, hmem, hsame⟩ := sentFields_cases hp
    have hfields : ∀ strs' ∈ r.fields getPath, strs' = strs := fun strs' h =>
      Option.some.inj (h.symm.trans hstrs)
    by_cases hsent : p.2 = true ∧ (joined p.1).length ≤ rrdCmdMax
    · have hsend : r.send getPath = some (endLine (joined p.1)) := by
        rw [send_eq, hp, Option.bind_some, if_pos hsent]
      have hcmd := nextCmd_endLine hne fun str hstr => hnl strs hstrs str (hmem str hstr)
      have hall := allFields_joined (chompLast_ne_nil hne)
      have hnot : ¬ r.Refused getPath := by
        intro href
        rcases href p hp with h | h
        · rw [hsent.1] at h
          cases h
        · exact absurd hsent.2 (not_le.2 h)
      constructor
      · rintro (hnone | ⟨line, cmd, strs', hline, hstrs', hnext, hread⟩)
        · rw [hsend] at hnone
          cases hnone
        · cases hsend.symm.trans hline
          cases hcmd.symm.trans hnext
          cases hfields strs' hstrs'
          -- as many strings are read as were given, so none was left out
          have hchomp : chompLast p.1 = strs := Option.some.inj (hall.symm.trans hread)
          have heq : p.1 = strs := hsame (.inr (by rw [← hchomp, chompLast_length]))
          rw [heq] at hchomp hsent hne
          refine .inr fun strs'' h => ?_
          rw [hfields strs'' h]
          exact ⟨hsent.2, (chompLast_eq_self_iff hne).1 hchomp⟩
      · rintro (href | hfits)
        · exact absurd href hnot
        · obtain ⟨hlen, hlast⟩ := hfits strs hstrs
          have heq := hsame (.inl hlen)
          rw [heq] at hsend hcmd hall hne
          rw [(chompLast_eq_self_iff hne).2 hlast] at hcmd hall
          exact .inr ⟨_, _, strs, hsend, hstrs, hcmd, hall⟩
    · have hnone : r.send getPath = none := by rw [send_eq, hp, Option.bind_some, if_neg hsent]
      refine iff_of_true (.inl hnone) (.inl fun p' h => ?_)
      cases hp.symm.trans h
      by_cases hstatus : p.2 = true
      · exact .inr (not_le.1 fun hle => hsent ⟨hstatus, hle⟩)
      · exact .inl (by simpa using hstatus)

end

/-- A file name with a blank and a backslash, and a value for now. -/
theorem send_faithful_iff_update :
    (ClientRequest.update "a b\\c".toList ["N:1".toList, "12:3".toList] 10).Faithful some ∧
      ((ClientRequest.update "a b\\c".toList ["N:1".toList, "12:3".toList] 10).send some).isSome := by
  refine ⟨(send_faithful_iff (by decide +kernel)).2 (.inr ?_), by decide +kernel⟩
  rintro strs ⟨⟩
  exact ⟨by decide +kernel, by decide +kernel⟩

lemma escape_replicate (n : ℕ) : escape (List.replicate n 'a') = List.replicate n 'a' := by
  induction n with
  | zero => rfl
  | succ n ih => rw [List.replicate_succ, escape, if_neg (by decide), ih]

/-- A `create` with a file name that does not fit. -/
lemma create_send_long {path : Text} (h : rrdCmdMax ≤ (escape path).length) :
    (ClientRequest.create path 300 none false [] none []).send some =
      some "create -s 300\n".toList := by
  have hpath : addString "create ".toList path = ("create ".toList, false) := by
    rw [addString, bufferAddString_eq, if_neg]
    exact not_lt.2 ((Nat.sub_le _ _).trans h)
  have hrest : addLoosely ("create ".toList, true)
      (createOptions path 300 none false [] none) = ("create -s 300 ".toList, true) := by
    show addLoosely (addString "create ".toList path) ["-s".toList, ulong 300] = _
    rw [hpath]
    rfl
  have hfirst : addAll [] ["create".toList] = some "create ".toList := rfl
  simp only [ClientRequest.send, Option.bind_eq_bind, hfirst, Option.bind_some, hrest]
  rfl

lemma create_long_not_faithful {path : Text} (h : rrdCmdMax ≤ (escape path).length) :
    ¬ (ClientRequest.create path 300 none false [] none []).Faithful some := by
  have hsend := create_send_long h
  rintro (hnone | ⟨line, cmd, strs, hline, hstrs, hnext, hall⟩)
  · rw [hsend] at hnone
    cases hnone
  · have hcmd : nextCmd "create -s 300\n".toList = some ("create -s 300".toList, []) := by
      rfl
    have hread : allFields "create -s 300".toList =
        some ["create".toList, "-s".toList, "300".toList] := rfl
    cases hsend.symm.trans hline
    cases hcmd.symm.trans hnext
    rw [← Option.some.inj (hread.symm.trans hall)] at hstrs
    have hlen := congrArg List.length (Option.some.inj hstrs)
    cases hlen

/-- A file name that does not fit is left out of a `create`. -/
theorem create_drops_file :
    ∃ path, '\n' ∉ path ∧ (ClientRequest.create path 300 none false [] none []).send some =
        some "create -s 300\n".toList ∧
      ¬ (ClientRequest.create path 300 none false [] none []).Faithful some := by
  have hlong : rrdCmdMax ≤ (escape (List.replicate rrdCmdMax 'a')).length := by
    rw [escape_replicate, List.length_replicate]
  refine ⟨List.replicate rrdCmdMax 'a', fun hmem => ?_, create_send_long hlong,
    create_long_not_faithful hlong⟩
  cases List.eq_of_mem_replicate hmem

end Rrdtool
