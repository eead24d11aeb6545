import Rrdtool.Graph.ParseDef

/-!
# An attempt at a `DEF`

What `newGraphDescription` (`src/rrd_graph_helper.c`) makes of the four arguments of `DEF:vname=rrd:ds:CF`, where the name may
be one of the keys that are looked up first.
-/

namespace Rrdtool.ParseDef

open Procedure Arguments

/-! ### The arguments of a `DEF` -/

/-- The key and the value that a word is read as behind some words. -/
@[grind] def wordOf (poscnt : ℕ) (field : Text) : Text × Text :=
  match keyword poscnt field with
  | some word => word
  | none => (poskeys.getD poscnt [], field)

/-- The keys that are looked up for a `DEF`. -/
def optionKeys : List Text :=
  ["debug".toList, "vname".toList, "rrd".toList, "ds".toList, "cf".toList, "reduce".toList, "daemon".toList, "step".toList,
    "start".toList, "end".toList]

/-- The copy of a `DEF` and its arguments: the command, the name with the file, and two words. -/
structure Four where
  arg : Text
  orig : Text
  k₀ : KeyValue Str
  k₁ : KeyValue Str
  k₂ : KeyValue Str
  k₃ : KeyValue Str

/-- How they are read: `t` is the key of the file `R`. -/
structure Four.Reads (x : Four) (t R : Text) (ds cf : Text × Text) : Prop where
  key₀ : x.k₀.key = .literal "pos0".toList
  value₀ : x.k₀.value.text x.arg = "DEF".toList
  key₁ : x.k₁.key.text x.arg = t
  value₁ : x.k₁.value.text x.arg = R
  key₂ : x.k₂.key = .literal ds.1
  value₂ : x.k₂.value.text x.arg = ds.2
  key₃ : ∃ text ∉ optionKeys, x.k₃.key = .literal text
  value₃ : x.k₃.value.text x.arg = cf.2
  noOption : ds.1 ∉ optionKeys

/-- The argument with the name, which may have been used. -/
@[grind] def used (b : Bool) (kv : KeyValue Str) : KeyValue Str := if b then { kv with flag := 1 } else kv

/-- The state while keys are looked up. -/
structure At (x : Four) (times : ℤ × ℤ) (b : Bool) (s : Parsing) : Prop where
  pa : s.pa = ⟨x.arg, x.orig, [x.k₀, used b x.k₁, x.k₂, x.k₃]⟩
  times : (s.gdp.start, s.gdp.endTime) = times

/-- How a look-up ends: it is refused, or its value is as said and the name is used or not. -/
def LooksUp {α : Type} (x : Four) (times : ℤ × ℤ) (refused : Prop) (value : α → Prop) (b : Bool) (r : Except Fault α)
    (s : Parsing) : Prop :=
  match r with
  | .ok a => ¬ refused ∧ value a ∧ At x times b s
  | .error e => refused ∧ (∃ message, e = .error message) ∧ ∃ b, At x times b s

section Options

variable {x : Four} {t R : Text} {ds cf : Text × Text} {b b' : Bool} {times : ℤ × ℤ} {s : Parsing}
variable {α β : Type} {p q p' : Prop} {value : α → Prop} {value' : β → Prop}

/-- A key finds the name or nothing. -/
lemma getKeyValueArgument_reads (h : x.Reads t R ds cf) {key : Text} (hkey : key ∈ optionKeys) :
    getKeyValueArgument x.arg key 1 [x.k₀, used b x.k₁, x.k₂, x.k₃] =
      if t = key then some (x.k₁.value, [x.k₀, used true x.k₁, x.k₂, x.k₃]) else none := by
  obtain ⟨text, htext, hkey₃⟩ := h.key₃
  have hne₃ : x.k₃.key.text x.arg ≠ key := by
    rw [hkey₃]
    rintro rfl
    exact htext hkey
  have hne₂ : x.k₂.key.text x.arg ≠ key := by
    rw [h.key₂]
    rintro rfl
    exact h.noOption hkey
  have hne₀ : x.k₀.key.text x.arg ≠ key := by
    rw [h.key₀]
    rintro rfl
    exact absurd (show "pos0".toList ∈ optionKeys from hkey) (by decide)
  have hkey₁ : (used b x.k₁).key.text x.arg = t := by
    rw [← h.key₁]
    cases b
    all_goals rfl
  simp only [getKeyValueArgument, if_neg hne₃, if_neg hne₂, hkey₁, if_neg hne₀]
  by_cases ht : t = key
  · rw [if_pos ht, if_pos ht]
    cases b
    all_goals rfl
  · rw [if_neg ht, if_neg ht]

lemma looksUp_pure {a : α} (hp : ¬ p) (ha : value a) (hs : At x times b s) :
    Ends (pure a) s (LooksUp x times p value b) := ends_pure ⟨hp, ha, hs⟩

lemma looksUp_fail (message : Text) (hp : p) (hs : At x times b' s) :
    Ends (fail message : Parse α) s (LooksUp x times p value b) := ends_throw ⟨hp, ⟨message, rfl⟩, b', hs⟩

/-- One look-up behind the other is refused if one of them is. -/
lemma looksUp_bind {m : Parse α} {f : α → Parse β} (h : Ends m s (LooksUp x times p value b))
    (hf : ∀ a s', value a → At x times b s' → Ends (f a) s' (LooksUp x times q value' b')) (hp : p ∨ q ↔ p') :
    Ends (m >>= f) s (LooksUp x times p' value' b') := by
  refine h.bind ?_ ?_
  · rintro a s' ⟨hnot, ha, hs'⟩
    refine (hf a s' ha hs').imp ?_
    rintro (e | c) s'' h
    · exact ⟨hp.1 (.inr h.1), h.2⟩
    · exact ⟨fun h' => (hp.2 h').elim hnot h.1, h.2⟩
  · rintro e s' ⟨hrefused, he⟩
    exact ⟨hp.1 (.inl hrefused), he⟩

lemma describeAs_ends {f : GraphDesc → GraphDesc} (hf : ∀ gdp, (f gdp).start = gdp.start ∧ (f gdp).endTime = gdp.endTime)
    (hs : At x times b s) : Ends (describeAs f) s (LooksUp x times False (fun _ => True) b) := by
  show LooksUp x times False (fun _ => True) b (.ok ()) { s with gdp := f s.gdp }
  exact ⟨id, trivial, hs.pa, (Prod.ext (hf s.gdp).1 (hf s.gdp).2).trans hs.times⟩

lemma textOf_value (h : x.Reads t R ds cf) (hs : At x times b s) :
    Ends (textOf x.k₁.value) s (LooksUp x times False (· = R) b) := by
  show LooksUp x times False (· = R) b (.ok (x.k₁.value.text s.pa.arg)) s
  refine ⟨id, ?_, hs⟩
  rw [hs.pa]
  exact h.value₁

lemma valueOf_ends (h : x.Reads t R ds cf) (hs : At x times b s) {key : String} (hkey : key.toList ∈ optionKeys) :
    Ends (valueOf key) s
      (LooksUp x times False (· = if t = key.toList then some x.k₁.value else none) (b || t = key.toList)) := by
  have hlookup := @getKeyValueArgument_reads x t R ds cf b h _ hkey
  unfold valueOf Ends
  rw [outcome_bind_ok (outcome_get s), hs.pa]
  by_cases ht : t = key.toList
  · rw [if_pos ht] at hlookup ⊢
    simp only [hlookup]
    rw [outcome_bind_ok (outcome_set _ _), outcome_pure]
    exact ⟨id, rfl, by simp [ht], hs.times⟩
  · rw [if_neg ht] at hlookup ⊢
    simp only [hlookup]
    rw [outcome_pure, decide_eq_false ht, Bool.or_false]
    exact ⟨id, rfl, hs⟩

/-- A key that is looked up: what is done with the value, if it is the name. -/
lemma lookup_ends {f : Option Str → Parse α} {key : String} (h : x.Reads t R ds cf) (hs : At x times b s)
    (hkey : key.toList ∈ optionKeys) (hnone : ∀ s', At x times b s' → Ends (f none) s' (LooksUp x times False value b))
    (hsome : ∀ s', At x times true s' → Ends (f (some x.k₁.value)) s' (LooksUp x times p value true)) :
    Ends (valueOf key >>= f) s (LooksUp x times (t = key.toList ∧ p) value (b || t = key.toList)) := by
  by_cases ht : t = key.toList
  · refine looksUp_bind (q := p) (valueOf_ends h hs hkey) (fun a s' ha hs' => ?_) (by simp [ht])
    rw [decide_eq_true ht, Bool.or_true] at hs' ⊢
    rw [ha, if_pos ht]
    exact hsome s' hs'
  · refine looksUp_bind (q := False) (valueOf_ends h hs hkey) (fun a s' ha hs' => ?_) (by simp [ht])
    rw [decide_eq_false ht, Bool.or_false] at hs' ⊢
    rw [ha, if_neg ht]
    exact hnone s' hs'

lemma longOf_ends {key complaint : String} {good : ℤ → Bool} (h : x.Reads t R ds cf) (hs : At x times b s)
    (hkey : key.toList ∈ optionKeys) :
    Ends (longOf key complaint good) s
      (LooksUp x times (t = key.toList ∧ (getLong R).filter good = none) (fun _ => True) (b || t = key.toList)) := by
  refine lookup_ends h hs hkey (fun s' hs' => looksUp_pure id trivial hs') fun s' hs' => ?_
  refine looksUp_bind (q := (getLong R).filter good = none) (textOf_value h hs') ?_ (false_or _).to_iff
  rintro text s'' rfl hs''
  cases hval : (getLong text).filter good with
  | none => exact looksUp_fail _ rfl hs''
  | some val => exact looksUp_pure nofun trivial hs''

lemma setReduce_ends (h : x.Reads t R ds cf) (hs : At x times b s) :
    Ends setReduce s
      (LooksUp x times (t = "reduce".toList ∧ rrdCfConv R = none) (fun _ => True) (b || t = "reduce".toList)) := by
  refine lookup_ends h hs (by decide) (fun s' hs' => looksUp_pure id trivial hs') fun s' hs' => ?_
  refine looksUp_bind (q := rrdCfConv R = none) (textOf_value h hs') ?_ (false_or _).to_iff
  rintro text s'' rfl hs''
  refine looksUp_bind (q := rrdCfConv text = none) (describeAs_ends (fun _ => ⟨rfl, rfl⟩) hs'') ?_ (false_or _).to_iff
  intro _ s₃ _ hs₃
  split
  · rename_i hnone
    exact looksUp_fail _ hnone hs₃
  · rename_i hsome
    exact looksUp_pure hsome trivial hs₃

lemma setDaemon_ends (h : x.Reads t R ds cf) (hs : At x times b s) :
    Ends setDaemon s (LooksUp x times (t = "daemon".toList ∧ False) (fun _ => True) (b || t = "daemon".toList)) := by
  refine lookup_ends h hs (by decide) (fun s' hs' => looksUp_pure id trivial hs') fun s' hs' => ?_
  refine looksUp_bind (q := False) (textOf_value h hs') ?_ (false_or _).to_iff
  intro text s'' _ hs''
  exact describeAs_ends (fun _ => ⟨rfl, rfl⟩) hs''

/-- The name is the key of an option with a value that is refused. -/
@[grind] def Refused (t R : Text) : Prop :=
  t = "debug".toList ∧ getLong R = none ∨ t = "reduce".toList ∧ rrdCfConv R = none ∨
    t = "step".toList ∧ (getLong R).filter (1 ≤ ·) = none

instance decidableRefused (t R : Text) : Decidable (Refused t R) := by
  unfold Refused
  infer_instance

/-- The value of a key, if it is the name. -/
@[grind] def given (x : Four) (t : Text) (key : String) : Option Str := if t = key.toList then some x.k₁.value else none

/-- The name is one of the keys that are looked up before the times. -/
@[grind] def isOption (t : Text) : Bool :=
  t ∈ ["debug".toList, "vname".toList, "rrd".toList, "ds".toList, "cf".toList, "reduce".toList, "daemon".toList, "step".toList]

lemma options_ends (h : x.Reads t R ds cf) (hs : At x times false s) :
    Ends options s (LooksUp x times (Refused t R)
      (· = (given x t "vname", given x t "rrd", given x t "ds", given x t "cf")) (isOption t)) := by
  have hused : isOption t = ((((((((false || t = "debug".toList) || t = "vname".toList) || t = "rrd".toList) ||
      t = "ds".toList) || t = "cf".toList) || t = "reduce".toList) || t = "daemon".toList) || t = "step".toList) := by
    simp only [isOption, List.mem_cons, List.not_mem_nil, or_false, Bool.decide_or, Bool.false_or, Bool.or_assoc]
  have hdebug : (getLong R).filter (fun _ => true) = none ↔ getLong R = none := by
    cases getLong R
    all_goals simp
  rw [hused]
  unfold options
  refine looksUp_bind (longOf_ends h hs (by decide)) (fun debug s₁ _ hs₁ => ?_) (or_congr (and_congr_right' hdebug) Iff.rfl)
  refine looksUp_bind (describeAs_ends (fun _ => ⟨rfl, rfl⟩) hs₁) (fun _ s₂ _ hs₂ => ?_) (false_or _).to_iff
  refine looksUp_bind (valueOf_ends h hs₂ (by decide)) (fun vname s₃ hvname hs₃ => ?_) (false_or _).to_iff
  refine looksUp_bind (valueOf_ends h hs₃ (by decide)) (fun rrd s₄ hrrd hs₄ => ?_) (false_or _).to_iff
  refine looksUp_bind (valueOf_ends h hs₄ (by decide)) (fun ds s₅ hds hs₅ => ?_) (false_or _).to_iff
  refine looksUp_bind (valueOf_ends h hs₅ (by decide)) (fun cf s₆ hcf hs₆ => ?_) (false_or _).to_iff
  refine looksUp_bind (setReduce_ends h hs₆) (fun _ s₇ _ hs₇ => ?_) Iff.rfl
  refine looksUp_bind (setDaemon_ends h hs₇) (fun _ s₈ _ hs₈ => ?_) ((or_congr_left (and_false _).to_iff).trans (false_or _).to_iff)
  refine looksUp_bind (longOf_ends h hs₈ (by decide)) (fun step s₉ _ hs₉ => ?_) (or_false _).to_iff
  refine looksUp_bind (describeAs_ends (fun _ => ⟨rfl, rfl⟩) hs₉) (fun _ s' _ hs' => ?_) (false_or _).to_iff
  rw [hvname, hrrd, hds, hcf]
  exact looksUp_pure id rfl hs'

/-- The text of a key, if it is the name. -/
def textGiven (t R : Text) (key : String) : Option Text := if t = key.toList then some R else none

section Times

variable {Tv : Type} {clock : Clock Tv}

/-- A time that may be given. -/
def timeValue (clock : Clock Tv) (text : Option Text) (now : ℤ) : Option Tv :=
  match text with
  | none => some (clock.absolute now)
  | some text => (clock.parsetime text (clock.absolute now)).toOption

/-- The times that come of the ones that there are, with a start or an end that may be given. -/
def window (clock : Clock Tv) (start endTime : Option Text) (times : ℤ × ℤ) : Option (ℤ × ℤ) :=
  (timeValue clock start times.1).bind fun startTv =>
    (timeValue clock endTime times.2).bind fun endTv => (clock.range startTv endTv).toOption

lemma timeOf_ends {key complaint : String} (h : x.Reads t R ds cf) (hs : At x times b s) (hkey : key.toList ∈ optionKeys)
    (now : ℤ) :
    Ends (timeOf clock key complaint now) s (LooksUp x times (timeValue clock (textGiven t R key) now = none)
      (fun tv => timeValue clock (textGiven t R key) now = some tv) (b || t = key.toList)) := by
  by_cases ht : t = key.toList
  · have hgiven : textGiven t R key = some R := if_pos ht
    rw [hgiven, decide_eq_true ht, Bool.or_true]
    have hlookup := valueOf_ends h hs hkey
    rw [decide_eq_true ht, Bool.or_true, if_pos ht] at hlookup
    refine looksUp_bind hlookup ?_ (false_or _).to_iff
    rintro _ s' rfl hs'
    refine looksUp_bind (textOf_value h hs') ?_ (false_or _).to_iff
    rintro text s'' rfl hs''
    have hvalue : timeValue clock (some text) now = (clock.parsetime text (clock.absolute now)).toOption := rfl
    rw [hvalue]
    cases clock.parsetime text (clock.absolute now) with
    | error e => exact looksUp_fail _ rfl hs''
    | ok tv => exact looksUp_pure nofun rfl hs''
  · have hgiven : textGiven t R key = none := if_neg ht
    rw [hgiven, decide_eq_false ht, Bool.or_false]
    have hlookup := valueOf_ends h hs hkey
    rw [decide_eq_false ht, Bool.or_false, if_neg ht] at hlookup
    refine looksUp_bind hlookup ?_ (false_or _).to_iff
    rintro _ s' rfl hs'
    exact looksUp_pure nofun rfl hs'

/-- The times are set, or stay as they are. -/
lemma setTimes_ends (h : x.Reads t R ds cf) (hs : At x times b s) :
    Ends (setTimes clock) s fun r s' =>
      match window clock (textGiven t R "start") (textGiven t R "end") times with
      | some times' => r = .ok () ∧ At x times' ((b || t = "start".toList) || t = "end".toList) s'
      | none => (∃ message, r = .error (.error message)) ∧ ∃ b, At x times b s' := by
  have hstart : s.gdp.start = times.1 := congrArg Prod.fst hs.times
  unfold window setTimes
  refine ends_get_bind ?_
  rw [hstart]
  refine Ends.bind (timeOf_ends h hs (by decide) times.1) ?_ ?_
  · rintro startTv s₁ ⟨-, htv, hs₁⟩
    have hend : s₁.gdp.endTime = times.2 := congrArg Prod.snd hs₁.times
    rw [htv]
    refine ends_get_bind ?_
    rw [hend]
    refine Ends.bind (timeOf_ends h hs₁ (by decide) times.2) ?_ ?_
    · rintro endTv s₂ ⟨-, htv', hs₂⟩
      rw [Option.bind_some, htv', Option.bind_some]
      cases clock.range startTv endTv with
      | error e => exact ends_throw ⟨⟨_, rfl⟩, _, hs₂⟩
      | ok range => exact ⟨rfl, hs₂.pa, rfl⟩
    · rintro e s₂ ⟨hnone, ⟨message, rfl⟩, hs₂⟩
      rw [Option.bind_some, hnone]
      exact ⟨⟨message, rfl⟩, hs₂⟩
  · rintro e s₁ ⟨hnone, ⟨message, rfl⟩, hs₁⟩
    rw [hnone]
    exact ⟨⟨message, rfl⟩, hs₁⟩

end Times

lemma firstUnused_some {complaint : String} {kv : KeyValue Str} {kvs : List (KeyValue Str)}
    (h : getFirstUnusedArgument 1 s.pa.kvArgs = some (kv, kvs)) :
    outcome (firstUnused complaint) s = (.ok kv, { s with pa := { s.pa with kvArgs := kvs } }) := by
  unfold firstUnused
  rw [outcome_bind_ok (outcome_get s), h]
  simp only
  rw [outcome_bind_ok (outcome_set _ _), outcome_pure]

lemma firstUnused_none {complaint : String} (h : getFirstUnusedArgument 1 s.pa.kvArgs = none) :
    ∃ message, outcome (firstUnused complaint) s = (.error (.error message), s) := by
  unfold firstUnused
  rw [outcome_bind_ok (outcome_get s), h]
  exact ⟨_, rfl⟩

/-- What is given, or the first argument that has not been used. -/
@[grind] def orFirst (o : Option α) (f : KeyValue Str → α) (kvs : List (KeyValue Str)) : Option (α × List (KeyValue Str)) :=
  match o with
  | some a => some (a, kvs)
  | none => (getFirstUnusedArgument 1 kvs).map fun (kv, kvs) => (f kv, kvs)

/-- The parts, with those that are not given taken from the arguments that have not been used. -/
@[grind] def takeParts (vname rrd ds cf : Option Str) (kvs : List (KeyValue Str)) :
    Option ((Str × Str × Str × Str) × List (KeyValue Str)) :=
  (orFirst (vname.bind fun vname => rrd.map fun rrd => (vname, rrd))
    (fun first => (vname.getD first.key, rrd.getD first.value)) kvs).bind fun (name, kvs) =>
  (orFirst ds (fun first => first.value) kvs).bind fun (ds, kvs) =>
  (orFirst cf (fun first => first.value) kvs).bind fun (cf, kvs) => some ((name.1, name.2, ds, cf), kvs)

/-- The state is the same, but for the flags. -/
structure SameButFlags (s s' : Parsing) : Prop where
  arg : s'.pa.arg = s.pa.arg
  orig : s'.pa.argOrig = s.pa.argOrig
  reset : resetParsedArguments s'.pa.kvArgs = resetParsedArguments s.pa.kvArgs
  gdp : s'.gdp = s.gdp

lemma SameButFlags.trans {s' s'' : Parsing} (h : SameButFlags s s') (h' : SameButFlags s' s'') : SameButFlags s s'' :=
  ⟨h'.arg.trans h.arg, h'.orig.trans h.orig, h'.reset.trans h.reset, h'.gdp.trans h.gdp⟩

lemma getFirstUnusedArgument_reset {kvs kvs' : List (KeyValue Str)} {kv : KeyValue Str}
    (h : getFirstUnusedArgument 1 kvs = some (kv, kvs')) : resetParsedArguments kvs' = resetParsedArguments kvs := by
  induction kvs generalizing kvs' with
  | nil => cases h
  | cons k kvs ih =>
    rw [getFirstUnusedArgument] at h
    split at h
    · rename_i hflag
      cases h
      simp [resetParsedArguments, hflag]
    · obtain ⟨⟨kv', rest⟩, hrest, heq⟩ := Option.map_eq_some_iff.1 h
      cases heq
      have hsame := ih hrest
      unfold resetParsedArguments at hsame ⊢
      rw [List.map_cons, List.map_cons, hsame]

/-- A procedure takes arguments as `take` says, and fails where it gives none. -/
def Takes (m : Parse α) (take : List (KeyValue Str) → Option (α × List (KeyValue Str))) : Prop :=
  ∀ s, Ends m s fun r s' => SameButFlags s s' ∧
    match take s.pa.kvArgs with
    | some (a, kvs) => r = .ok a ∧ s'.pa.kvArgs = kvs
    | none => ∃ message, r = .error (.error message)

lemma takes_pure (a : α) : Takes (pure a) fun kvs => some (a, kvs) :=
  fun _ => ends_pure ⟨⟨rfl, rfl, rfl, rfl⟩, rfl, rfl⟩

lemma takes_bind {m : Parse α} {f : α → Parse β} {take : List (KeyValue Str) → Option (α × List (KeyValue Str))}
    {take' : α → List (KeyValue Str) → Option (β × List (KeyValue Str))} (h : Takes m take)
    (hf : ∀ a, Takes (f a) (take' a)) : Takes (m >>= f) fun kvs => (take kvs).bind fun (a, kvs) => take' a kvs := by
  intro s
  have hm := h s
  cases htake : take s.pa.kvArgs with
  | none =>
    rw [htake] at hm
    simp only [htake, Option.bind_none]
    refine hm.bind ?_ ?_
    · rintro a s' ⟨-, message, hok⟩
      cases hok
    · rintro e s' ⟨hsame, message, herror⟩
      cases herror
      exact ⟨hsame, message, rfl⟩
  | some first =>
    obtain ⟨a, kvs⟩ := first
    rw [htake] at hm
    simp only [htake, Option.bind_some]
    refine hm.bind ?_ ?_
    · rintro a' s' ⟨hsame, hok, rfl⟩
      cases hok
      exact (hf a s').imp fun r s'' h => ⟨hsame.trans h.1, h.2⟩
    · rintro e s' ⟨-, hok, -⟩
      cases hok

lemma takes_part (o : Option α) (f : KeyValue Str → α) (complaint : String) : Takes (part o f complaint) (orFirst o f) := by
  intro s
  have hsame : SameButFlags s s := ⟨rfl, rfl, rfl, rfl⟩
  unfold part orFirst
  cases o with
  | some a => exact ends_pure ⟨hsame, rfl, rfl⟩
  | none =>
    cases hfirst : getFirstUnusedArgument 1 s.pa.kvArgs with
    | none =>
      obtain ⟨message, hfail⟩ := @firstUnused_none s complaint hfirst
      unfold Ends
      rw [outcome_bind_error hfail]
      exact ⟨hsame, message, rfl⟩
    | some first =>
      obtain ⟨kv, kvs⟩ := first
      unfold Ends
      rw [outcome_bind_ok (firstUnused_some hfirst), outcome_pure]
      exact ⟨⟨rfl, rfl, getFirstUnusedArgument_reset hfirst, rfl⟩, rfl, rfl⟩

lemma takes_positional (vname rrd ds cf : Option Str) : Takes (positional vname rrd ds cf) (takeParts vname rrd ds cf) :=
  takes_bind (takes_part _ _ _) fun _ => takes_bind (takes_part _ _ _) fun _ => takes_bind (takes_part _ _ _) fun _ =>
    takes_pure _

/-- What a description says of the parts of its definition. -/
structure Describes (arg : Text) (parts : Str × Str × Str × Str) (gdp : GraphDesc) : Prop where
  vname : gdp.vname = (parts.1.text arg).take 255
  rrd : gdp.rrd = (parts.2.1.text arg).take 1023
  dsNam : gdp.dsNam = (parts.2.2.1.text arg).take 19
  cf : gdp.cf = rrdCfConv (parts.2.2.2.text arg)

/-- The parts can be assigned: the name is free and the function is one. -/
def Assignable (findVar : Text → Option ℕ) (arg : Text) (parts : Str × Str × Str × Str) : Prop :=
  findVar (parts.1.text arg) = none ∧ rrdCfConv (parts.2.2.2.text arg) ≠ none

instance decidableAssignable (findVar : Text → Option ℕ) (arg : Text) (parts : Str × Str × Str × Str) :
    Decidable (Assignable findVar arg parts) := inferInstanceAs (Decidable (_ ∧ _))

/-- A name without a colour is assigned if it is free and the function is one. -/
lemma assign_ends {findVar : Text → Option ℕ} (parts : Str × Str × Str × Str) (hcolor : '#' ∉ parts.1.text s.pa.arg) :
    Ends (assign findVar parts.1 parts.2.1 parts.2.2.1 parts.2.2.2) s fun r s' =>
      (s'.pa = s.pa ∧ s'.gdp.start = s.gdp.start ∧ s'.gdp.endTime = s.gdp.endTime) ∧
      if Assignable findVar s.pa.arg parts then r = .ok () ∧ Describes s.pa.arg parts s'.gdp else ∃ message, r = .error (.error message) := by
  obtain ⟨vname, rrd, ds, cf⟩ := parts
  dsimp only at hcolor ⊢
  have htext : ∀ string, outcome (textOf string) s = (.ok (string.text s.pa.arg), s) := fun _ => rfl
  have hname : outcome (nameOf vname) s = (.ok (vname.text s.pa.arg), s) := by
    unfold nameOf
    rw [outcome_bind_ok (htext vname), if_neg hcolor]
    rfl
  unfold assign Ends
  rw [outcome_bind_ok hname]
  by_cases hfree : findVar (vname.text s.pa.arg) = none
  · rw [if_neg (by simp [hfree]), outcome_bind_ok (htext rrd), outcome_bind_ok (htext ds), outcome_bind_ok (htext cf)]
    by_cases hcf : rrdCfConv (cf.text s.pa.arg) = none
    · rw [if_pos hcf]
      dsimp only
      rw [if_neg fun h => h.2 hcf]
      exact ⟨⟨rfl, rfl, rfl⟩, _, rfl⟩
    · rw [if_neg hcf]
      dsimp only
      rw [if_pos ⟨hfree, hcf⟩]
      exact ⟨⟨rfl, rfl, rfl⟩, rfl, rfl, rfl, rfl, rfl⟩
  · rw [if_pos (Option.isSome_iff_ne_none.2 hfree)]
    dsimp only
    rw [if_neg fun h => hfree h.1]
    exact ⟨⟨rfl, rfl, rfl⟩, _, rfl⟩

/-! ### One attempt -/

section Describe

variable {Tv : Type} {clock : Clock Tv} {findVar : Text → Option ℕ}

/-- The arguments when the name may have been used. -/
@[grind] def Four.kvs (x : Four) (b : Bool) : List (KeyValue Str) := [x.k₀, used b x.k₁, x.k₂, x.k₃]

/-- The name is one of all the keys that are looked up. -/
@[grind] def isKey (t : Text) : Bool := (isOption t || t = "start".toList) || t = "end".toList

/-- The times that come of an attempt with the name `t`. -/
@[grind] def timesWith (clock : Clock Tv) (t R : Text) (times : ℤ × ℤ) : Option (ℤ × ℤ) :=
  if Refused t R then none else window clock (textGiven t R "start") (textGiven t R "end") times

/-- The parts of the definition with the name `t`. -/
@[grind] def partsWith (x : Four) (t : Text) : Option (Str × Str × Str × Str) :=
  (takeParts (given x t "vname") (given x t "rrd") (given x t "ds") (given x t "cf") (x.kvs (isKey t))).map (·.1)

/-- The parts that an attempt ends with. -/
@[grind] def attempted (clock : Clock Tv) (findVar : Text → Option ℕ) (x : Four) (t R : Text) (times : ℤ × ℤ) :
    Option (Str × Str × Str × Str) :=
  (timesWith clock t R times).bind fun _ => (partsWith x t).filter fun parts => Assignable findVar x.arg parts

/-- The state after an attempt: the strings are the same, and the times those that there are by then. -/
structure After (x : Four) (times : ℤ × ℤ) (s : Parsing) : Prop where
  arg : s.pa.arg = x.arg
  orig : s.pa.argOrig = x.orig
  kvs : ∃ b, resetParsedArguments s.pa.kvArgs = resetParsedArguments (x.kvs b)
  times : (s.gdp.start, s.gdp.endTime) = times

lemma At.after (hs : At x times b s) : After x times s where
  arg := by rw [hs.pa]
  orig := by rw [hs.pa]
  kvs := ⟨b, by rw [hs.pa]; rfl⟩
  times := hs.times

lemma describe_ends (h : x.Reads t R ds cf) (hs : At x times false s)
    (hcolor : ∀ parts, partsWith x t = some parts → '#' ∉ parts.1.text x.arg) :
    Ends (describe clock findVar) s fun r s' =>
      After x ((timesWith clock t R times).getD times) s' ∧
        match attempted clock findVar x t R times with
        | some parts => r = .ok () ∧ Describes x.arg parts s'.gdp
        | none => ∃ message, r = .error (.error message) := by
  unfold describe attempted timesWith
  refine Ends.bind (options_ends h hs) ?_ ?_
  · rintro _ s₁ ⟨hrefused, rfl, hs₁⟩
    rw [if_neg hrefused]
    dsimp only
    have htimes := @setTimes_ends x t R ds cf (isOption t) times s₁ Tv clock h hs₁
    cases hwindow : window clock (textGiven t R "start") (textGiven t R "end") times with
    | none =>
      rw [hwindow] at htimes
      refine Ends.bind htimes ?_ ?_
      · rintro _ s₂ ⟨⟨message, hok⟩, -⟩
        cases hok
      · rintro e s₂ ⟨⟨message, herror⟩, b, hs₂⟩
        cases herror
        exact ⟨hs₂.after, message, rfl⟩
    | some times' =>
      rw [hwindow] at htimes
      refine Ends.bind htimes ?_ ?_
      · rintro _ s₂ ⟨-, hs₂⟩
        have hkvs : s₂.pa.kvArgs = x.kvs (isKey t) := by
          rw [hs₂.pa]
          rfl
        have htakes := takes_positional (given x t "vname") (given x t "rrd") (given x t "ds") (given x t "cf") s₂
        rw [hkvs] at htakes
        have hafter : ∀ s₃, SameButFlags s₂ s₃ → After x times' s₃ := by
          intro s₃ hsame
          obtain ⟨b, hb⟩ := hs₂.after.kvs
          exact ⟨hsame.arg.trans hs₂.after.arg, hsame.orig.trans hs₂.after.orig, ⟨b, hsame.reset.trans hb⟩,
            by rw [hsame.gdp]; exact hs₂.times⟩
        unfold partsWith
        cases htake : takeParts (given x t "vname") (given x t "rrd") (given x t "ds") (given x t "cf") (x.kvs (isKey t)) with
        | none =>
          rw [htake] at htakes
          refine Ends.bind htakes ?_ ?_
          · rintro _ s₃ ⟨-, message, hok⟩
            cases hok
          · rintro e s₃ ⟨hsame, message, herror⟩
            cases herror
            exact ⟨hafter s₃ hsame, message, rfl⟩
        | some taken =>
          obtain ⟨parts, kvs⟩ := taken
          rw [htake] at htakes
          refine Ends.bind htakes ?_ ?_
          · rintro _ s₃ ⟨hsame, hok, -⟩
            cases hok
            have harg := (hafter s₃ hsame).arg
            have hname : '#' ∉ parts.1.text s₃.pa.arg := by
              rw [harg]
              exact hcolor parts (by rw [partsWith, htake]; rfl)
            refine (assign_ends parts hname).imp ?_
            rintro r s₄ ⟨⟨hpa, hstart, hend⟩, hresult⟩
            have hafter₃ := hafter s₃ hsame
            refine ⟨⟨by rw [hpa]; exact harg, by rw [hpa]; exact hafter₃.orig, by rw [hpa]; exact hafter₃.kvs,
              by rw [hstart, hend]; exact hafter₃.times⟩, ?_⟩
            rw [harg] at hresult
            rw [Option.bind_some, Option.map_some]
            by_cases hassign : Assignable findVar x.arg parts
            · rw [if_pos hassign] at hresult
              rw [Option.filter_some, if_pos (decide_eq_true hassign)]
              exact hresult
            · rw [if_neg hassign] at hresult
              rw [Option.filter_some, if_neg (by simpa using hassign)]
              exact hresult
          · rintro e s₃ ⟨-, hok, -⟩
            cases hok
      · rintro e s₂ ⟨hok, -⟩
        cases hok
  · rintro e s₁ ⟨hrefused, ⟨message, rfl⟩, b, hs₁⟩
    rw [if_pos hrefused]
    exact ⟨hs₁.after, message, rfl⟩

/-! ### The parts of the definition -/

lemma given_of_ne {key : String} (h : t ≠ key.toList) : given x t key = none := if_neg h

lemma textGiven_of_ne {key : String} (h : t ≠ key.toList) : textGiven t R key = none := if_neg h

lemma isOption_of_isKey (h : isKey t = false) : isOption t = false := by
  simp only [isKey, Bool.or_eq_false_iff] at h
  exact h.1.1

lemma ne_of_isOption {key : Text} (h : isOption t = false) (hkey : isOption key = true) : t ≠ key := by
  rintro rfl
  rw [h] at hkey
  cases hkey

/-- A name that is no key is the key of the first argument that has not been used. -/
lemma partsWith_of_not_isKey (h : isKey t = false) :
    partsWith x t = (takeParts none none none none (x.kvs false)).map (·.1) := by
  have hoption := isOption_of_isKey h
  unfold partsWith
  rw [h, given_of_ne (ne_of_isOption hoption (by decide)), given_of_ne (ne_of_isOption hoption (by decide)),
    given_of_ne (ne_of_isOption hoption (by decide)), given_of_ne (ne_of_isOption hoption (by decide))]

/-- The flags of the arguments: the command has been used, or something else has been used as the command. -/
structure Four.Flags (x : Four) (f₀ f₁ : ℤ) : Prop where
  flag₀ : x.k₀.flag = f₀
  flag₁ : x.k₁.flag = f₁
  flag₂ : x.k₂.flag = 0
  flag₃ : x.k₃.flag = 0

lemma partsWith_plain (hflags : x.Flags 255 0) (h : isKey t = false) :
    partsWith x t = some (x.k₁.key, x.k₁.value, x.k₂.value, x.k₃.value) := by
  rw [partsWith_of_not_isKey h]
  simp [takeParts, orFirst, Four.kvs, used, getFirstUnusedArgument, hflags.flag₀, hflags.flag₁, hflags.flag₂, hflags.flag₃]

lemma partsWith_command (hflags : x.Flags 0 255) (h : isKey t = false) :
    partsWith x t = some (x.k₀.key, x.k₀.value, x.k₂.value, x.k₃.value) := by
  rw [partsWith_of_not_isKey h]
  simp [takeParts, orFirst, Four.kvs, used, getFirstUnusedArgument, hflags.flag₀, hflags.flag₁, hflags.flag₂, hflags.flag₃]

lemma firstUnused_used (hflags : x.Flags 255 0) :
    getFirstUnusedArgument 1 (x.kvs true) =
      some ({ x.k₂ with flag := 1 }, [x.k₀, used true x.k₁, { x.k₂ with flag := 1 }, x.k₃]) := by
  simp [Four.kvs, used, getFirstUnusedArgument, hflags.flag₀, hflags.flag₂]

lemma secondUnused_used (hflags : x.Flags 255 0) :
    getFirstUnusedArgument 1 [x.k₀, used true x.k₁, { x.k₂ with flag := 1 }, x.k₃] =
      some ({ x.k₃ with flag := 1 }, [x.k₀, used true x.k₁, { x.k₂ with flag := 1 }, { x.k₃ with flag := 1 }]) := by
  simp [used, getFirstUnusedArgument, hflags.flag₀, hflags.flag₃]

lemma thirdUnused_used (hflags : x.Flags 255 0) :
    getFirstUnusedArgument 1 [x.k₀, used true x.k₁, { x.k₂ with flag := 1 }, { x.k₃ with flag := 1 }] = none := by
  simp [used, getFirstUnusedArgument, hflags.flag₀]

/-- The key of a data source or of a function is taken by it, and the others move up. -/
lemma partsWith_isKey (hflags : x.Flags 255 0) (h : isKey t = true) :
    partsWith x t =
      if t = "ds".toList then some (x.k₂.key, x.k₂.value, x.k₁.value, x.k₃.value)
      else if t = "cf".toList then some (x.k₂.key, x.k₂.value, x.k₃.value, x.k₁.value)
      else none := by
  have hfirst := firstUnused_used hflags
  have hsecond := secondUnused_used hflags
  unfold partsWith takeParts
  rw [h]
  by_cases hds : t = "ds".toList
  · subst hds
    rw [@given_of_ne x _ "vname" (by decide), @given_of_ne x _ "rrd" (by decide),
      @given_of_ne x _ "cf" (by decide), if_pos rfl, given, if_pos rfl]
    simp [orFirst, hfirst, hsecond]
  · rw [if_neg hds, given_of_ne hds]
    by_cases hcf : t = "cf".toList
    · subst hcf
      rw [@given_of_ne x _ "vname" (by decide), @given_of_ne x _ "rrd" (by decide), if_pos rfl, given, if_pos rfl]
      simp [orFirst, hfirst, hsecond]
    · rw [if_neg hcf, given_of_ne hcf]
      have hmissing : ((given x t "vname").bind fun vname => (given x t "rrd").map fun rrd => (vname, rrd)) = none := by
        by_cases hvname : t = "vname".toList
        · subst hvname
          rw [@given_of_ne x _ "rrd" (by decide)]
          simp only [Option.map_none, Option.bind_fun_none]
        · rw [given_of_ne hvname]
          rfl
      rw [hmissing]
      simp [orFirst, hfirst, hsecond, thirdUnused_used hflags]

end Describe

end Options

end Rrdtool.ParseDef
