import Rrdtool.Daemon.Order
import Mathlib.Data.Prod.Lex
import Rrdtool.Lib.Outcome

/-!
# Values that are applied in time

The daemon compares stamps as numbers, and begins with the seconds of the time in the file; `rrd_update_r` compares what
`get_time_from_reading` makes of a stamp, seconds and microseconds (`Rrd.tick`), with the seconds and microseconds in the
file (`Rrd.last`). A stamp that is later than another one can fall into the same microsecond, and one that is later than
the seconds of the file can be before its microseconds; such a value is taken by the daemon and refused by the file.

`keepsTime` says of a step that neither happens and that the batches do not overtake each other. In every run of such
steps the values in the cache are in time (`run_appliesInTime`).
-/

namespace Rrdtool

open FileState

/-! ### Ticks -/

/-- The seconds and microseconds that are read from a stamp. -/
@[grind] def Rrd.tick (rrd : Rrd) (q : ℚ) : ℤ ×ₗ ℕ := toLex ((splitTime (.fin q)).1, keepUsec rrd.version (splitTime (.fin q)).2)

/-- The time of the last update, seconds and microseconds. -/
@[grind] def Rrd.last (rrd : Rrd) : ℤ ×ₗ ℕ := toLex ((rrd.lastUp : ℤ), rrd.lastUpUsec)

/-- A value that can be applied by its time: it has a stamp, which is a time after 1970, and no `@`. -/
structure Timed (value : Text) (q : ℚ) : Prop extends Stamped value q where
  nonneg : 0 ≤ q
  lt : q < 2 ^ 63

section Tick

variable {rrd rrd' : Rrd} {host : Host} {value : Text} {q s t : ℚ}

lemma Rrd.tick_congr (h : rrd'.version = rrd.version) : rrd'.tick q = rrd.tick q := by
  rw [Rrd.tick, Rrd.tick, h]

lemma Rrd.last_of_clock (h : rrd'.clock = rrd.clock) : rrd'.last = rrd.last := by
  obtain ⟨-, hs, hu⟩ : rrd'.version = rrd.version ∧ rrd'.lastUp = rrd.lastUp ∧ rrd'.lastUpUsec = rrd.lastUpUsec := by
    simpa [Rrd.clock] using h
  rw [Rrd.last, Rrd.last, hs, hu]

lemma splitTime_sec (h0 : 0 ≤ q) (hlt : q < 2 ^ 63) : (splitTime (.fin q)).1 = ⌊q⌋ := by
  have hfloor : 0 ≤ ⌊q⌋ := Int.floor_nonneg.2 h0
  refine if_pos ⟨by omega, ?_⟩
  have hle : (⌊q⌋ : ℚ) < 2 ^ 63 := lt_of_le_of_lt (Int.floor_le q) hlt
  exact_mod_cast hle

lemma keepUsec_mono (version : ℕ) {u v : ℕ} (h : u ≤ v) : keepUsec version u ≤ keepUsec version v := by
  unfold keepUsec
  split
  · exact le_rfl
  · exact h

/-- A later stamp is not read as an earlier time. -/
lemma Rrd.tick_mono (rrd : Rrd) (hst : s ≤ t) (h0 : 0 ≤ t) (ht : t < 2 ^ 63) : rrd.tick s ≤ rrd.tick t := by
  have hfloor : 0 ≤ ⌊t⌋ := Int.floor_nonneg.2 h0
  have hle : ⌊s⌋ ≤ ⌊t⌋ := Int.floor_mono hst
  have hlt : ⌊t⌋ < 2 ^ 63 := by
    have hlt : (⌊t⌋ : ℚ) < 2 ^ 63 := lt_of_le_of_lt (Int.floor_le t) ht
    exact_mod_cast hlt
  rw [Rrd.tick, Rrd.tick, Prod.Lex.le_iff]
  simp only [ofLex_toLex]
  rw [splitTime_sec h0 ht]
  by_cases hrange : -2 ^ 63 ≤ ⌊s⌋
  · have hsec : (splitTime (.fin s)).1 = ⌊s⌋ := if_pos ⟨hrange, lt_of_le_of_lt hle hlt⟩
    rw [hsec]
    obtain hlt | heq := hle.lt_or_eq
    · exact .inl hlt
    · refine .inr ⟨heq, keepUsec_mono _ ?_⟩
      have hfrac : (s - ⌊s⌋) * 10 ^ 6 ≤ (t - ⌊t⌋) * 10 ^ 6 := by
        rw [heq]
        gcongr
      exact Nat.floor_mono hfrac
  · have hsec : (splitTime (.fin s)).1 = -2 ^ 63 := if_neg fun h => hrange h.1
    rw [hsec]
    exact .inl (by omega)

/-- How `get_time_from_reading` judges the time of a value. -/
lemma getTimeFromReading_tick (host : Host) (rrd : Rrd) (h : Timed value q) :
    getTimeFromReading host rrd false (value.takeWhile (· ≠ ':')) =
      if rrd.last < rrd.tick q then .ok ((ofLex (rrd.tick q)).1.toNat, (ofLex (rrd.tick q)).2)
      else .error (.illegalTime (ofLex (rrd.tick q)).1 rrd.lastUp) := by
  have horder : rrd.last < rrd.tick q ↔ ¬ ((splitTime (.fin q)).1 < rrd.lastUp ∨
      (splitTime (.fin q)).1 = rrd.lastUp ∧ keepUsec rrd.version (splitTime (.fin q)).2 ≤ rrd.lastUpUsec) := by
    rw [← not_le, Rrd.tick, Rrd.last, Prod.Lex.le_iff]
    simp only [ofLex_toLex]
  unfold getTimeFromReading
  rw [readTime_stamp h.stamp h.nonneg]
  by_cases hlater : rrd.last < rrd.tick q
  · rw [if_pos hlater]
    exact if_neg (horder.1 hlater)
  · rw [if_neg hlater]
    exact if_pos (not_not.1 fun hn => hlater (horder.2 hn))

/-- What `rrd_update_r` does with a value. -/
lemma processArg_tick (host : Host) (tmpl : List ℕ) (rrd : Rrd) (h : Timed value q) :
    (∀ acc, (processArg host tmpl rrd value).2 = .ok acc →
      (processArg host tmpl rrd value).1.version = rrd.version ∧
      (processArg host tmpl rrd value).1.last = rrd.tick q) ∧
    (rrd.last < rrd.tick q → ∀ e, (processArg host tmpl rrd value).2 = .error e → e.code = -1) := by
  have hparse : ∀ {atStyle time updvals}, parseDs rrd.dsCnt tmpl value = .ok (atStyle, time, updvals) →
      atStyle = false ∧ time = value.takeWhile (· ≠ ':') := by
    intro atStyle time updvals hp
    have hat : value.contains '@' = false := by simpa using h.plain
    obtain ⟨hstyle, htime⟩ := parseDs_time hp
    rw [hat] at hstyle htime
    exact ⟨hstyle, htime⟩
  have hread := getTimeFromReading_tick host rrd h
  constructor
  · intro acc hacc
    have hok : processArg host tmpl rrd value = ((processArg host tmpl rrd value).1, .ok acc) := Prod.ext rfl hacc
    obtain ⟨_, _, _, _, hp, ht, -, -, -, -⟩ := processArg_ok hok
    obtain ⟨rfl, rfl⟩ := hparse hp
    obtain ⟨e, he, -⟩ | ⟨acc', hacc', hclock⟩ := @processArg_clock host tmpl rrd value
    · rw [hacc] at he
      cases he
    · rw [hacc] at hacc'
      cases hacc'
      obtain ⟨hv, hs, hu⟩ := by simpa [Rrd.clock] using hclock
      rw [hread] at ht
      split at ht
      · obtain ⟨hsec, husec⟩ := Prod.mk.inj (Except.ok.inj ht)
        have hpos : 0 ≤ (ofLex (rrd.tick q)).1 := by
          rw [Rrd.tick, ofLex_toLex, splitTime_sec h.nonneg h.lt]
          exact Int.floor_nonneg.2 h.nonneg
        refine ⟨hv, ?_⟩
        rw [Rrd.last, hs, hu, ← hsec, ← husec, Int.toNat_of_nonneg hpos]
        rfl
      · cases ht
  · intro hlater e he
    have herr : processArg host tmpl rrd value = ((processArg host tmpl rrd value).1, .error e) := Prod.ext rfl he
    obtain ⟨-, hp⟩ | ⟨_, _, _, hp, ⟨-, ht⟩ | ⟨_, _, _, -, ⟨-, hu⟩ | ⟨_, hc, -, -⟩⟩⟩ := processArg_error herr
    · exact parseDs_error hp
    · obtain ⟨rfl, rfl⟩ := hparse hp
      rw [hread, if_pos hlater] at ht
      cases ht
    · exact updatePdpPrep_error hu
    · rw [hc]
      rfl

/-- The file after a batch: as it was, or with the time of a value of the batch. -/
lemma updateArgs_last (host : Host) (tmpl : List ℕ) {rrd : Rrd} {values : List Text}
    (h : ∀ v ∈ values, ∃ q, Timed v q) :
    (updateArgs host tmpl false rrd values).1.version = rrd.version ∧
      ((updateArgs host tmpl false rrd values).1.last = rrd.last ∨
        ∃ v ∈ values, ∃ q, Timed v q ∧ (updateArgs host tmpl false rrd values).1.last = rrd.tick q) := by
  induction values generalizing rrd with
  | nil => exact ⟨rfl, .inl rfl⟩
  | cons v values ih =>
    obtain ⟨q, hq⟩ := h v (.head _)
    obtain ⟨haccepted, -⟩ := processArg_tick host tmpl rrd hq
    rw [updateArgs]
    cases hp : processArg host tmpl rrd v with
    | mk rrd₁ r =>
      obtain ⟨e, he, hclock⟩ | ⟨acc, hacc, -⟩ := @processArg_clock host tmpl rrd v
      · rw [hp] at he hclock
        cases he
        simp only [Bool.false_eq_true]
        exact ⟨congrArg Prod.fst hclock, .inl (Rrd.last_of_clock hclock)⟩
      · obtain ⟨hv, hlast⟩ := haccepted acc hacc
        rw [hp] at hacc hv hlast
        cases hacc
        obtain ⟨hver, hrest⟩ := @ih rrd₁ fun w hw => h w (.tail _ hw)
        refine ⟨hver.trans hv, .inr ?_⟩
        obtain heq | ⟨w, hw, p, hp, heq⟩ := hrest
        · exact ⟨v, .head _, q, hq, heq.trans hlast⟩
        · exact ⟨w, .tail _ hw, p, hp, heq.trans (Rrd.tick_congr hv)⟩

end Tick

/-! ### The condition -/

/-- The loop over the values, beginning with `stamp`: each value that is taken has no `@`, its stamp is a time since 1970
that fits `time_t`, and does not fall into the same microsecond as the stamp before it. -/
@[grind] def Resolved (rrd : Rrd) : ℚ → List Text → Prop
  | _, [] => True
  | stamp, value :: values =>
    match Daemon.stampOf value with
    | none => True
    | some t =>
      stamp < t → '@' ∉ value ∧ 0 ≤ t ∧ t < 2 ^ 63 ∧ rrd.tick t ≠ rrd.tick stamp ∧ Resolved rrd t values

instance Resolved.decidable (rrd : Rrd) (stamp : ℚ) : (values : List Text) → Decidable (Resolved rrd stamp values)
  | [] => .isTrue trivial
  | value :: values =>
    match h : Daemon.stampOf value with
    | none => .isTrue (by rw [Resolved, h]; trivial)
    | some t =>
      have := Resolved.decidable rrd t values
      decidable_of_iff
        (stamp < t → '@' ∉ value ∧ 0 ≤ t ∧ t < 2 ^ 63 ∧ rrd.tick t ≠ rrd.tick stamp ∧ Resolved rrd t values)
        (by rw [Resolved, h])

/-- The loop does not begin before the last update of the file, or the first value it takes is later than that. -/
def StartsLater (rrd : Rrd) (stamp : ℚ) (values : List Text) : Prop :=
  rrd.last ≤ rrd.tick stamp ∨ ∀ t ∈ values.head?.bind Daemon.stampOf, stamp < t → rrd.last < rrd.tick t

instance (rrd : Rrd) (stamp : ℚ) (values : List Text) : Decidable (StartsLater rrd stamp values) :=
  inferInstanceAs (Decidable (_ ∨ _))

/-- The loop over the values of an `UPDATE` that is carried out in this step: the file, the stamp with which it begins and
the values. -/
@[grind] def Daemon.loops (d : Daemon) : Act → Option (Text × ℚ × List Text)
  | .update _ file values _ => (d.tree file).map fun ci => (file, ci.lastUpdateStamp, values)
  | .insert client _ _ =>
    match d.requests client with
    | some (.opened file values stamp) => some (file, ((d.tree file).map (·.lastUpdateStamp)).getD stamp, values)
    | _ => none
  | _ => none

/-- A queue thread takes a batch, and a client adds an item, only when no batch of the file is on its way, and the values
that are taken can be told apart by the file. -/
def keepsTime (d : Daemon) (a : Act) : Prop :=
  (∀ file ∈ d.takes a, d.settled file) ∧ (∀ p ∈ d.adds a, d.settled p.1) ∧
    ∀ u ∈ d.loops a, ∀ rrd ∈ d.files u.1, StartsLater rrd u.2.1 u.2.2 ∧ Resolved rrd u.2.1 u.2.2

instance (d : Daemon) (a : Act) : Decidable (keepsTime d a) := inferInstanceAs (Decidable (_ ∧ _ ∧ _))

/-! ### The loop -/

section Loop

variable {rrd : Rrd} {stamp : ℚ} {values : List Text}

/-- The values that are taken are read as later and later times. -/
lemma takeValues_resolved (h : Resolved rrd stamp values) :
    (∀ v ∈ (Daemon.takeValues stamp values).1, Timed v ((Daemon.stampOf v).getD 0) ∧
      rrd.tick stamp < rrd.tick ((Daemon.stampOf v).getD 0)) ∧
    (Daemon.takeValues stamp values).1.Pairwise fun v w =>
      rrd.tick ((Daemon.stampOf v).getD 0) < rrd.tick ((Daemon.stampOf w).getD 0) := by
  induction values generalizing stamp with
  | nil => exact ⟨by simp [Daemon.takeValues], .nil⟩
  | cons v values ih =>
    rw [Resolved] at h
    rw [Daemon.takeValues]
    cases hv : Daemon.stampOf v with
    | none => exact ⟨by simp, .nil⟩
    | some t =>
      rw [hv] at h
      dsimp only at h ⊢
      split
      · exact ⟨by simp, .nil⟩
      · rename_i hgt
        have hlt : stamp < t := not_le.1 hgt
        obtain ⟨hplain, h0, hmax, hne, hrest⟩ := h hlt
        obtain ⟨hall, hinc⟩ := ih hrest
        have htick : rrd.tick stamp < rrd.tick t := lt_of_le_of_ne (rrd.tick_mono hlt.le h0 hmax) hne.symm
        have hstamp : (Daemon.stampOf v).getD 0 = t := by rw [hv, Option.getD_some]
        constructor
        · intro w hw
          obtain rfl | hw := List.mem_cons.1 hw
          · rw [hstamp]
            exact ⟨⟨⟨hv, hplain⟩, h0, hmax⟩, htick⟩
          · exact ⟨(hall w hw).1, htick.trans (hall w hw).2⟩
        · refine List.pairwise_cons.2 ⟨fun w hw => ?_, hinc⟩
          rw [hstamp]
          exact (hall w hw).2

/-- All values that are taken are later than the last update of the file. -/
lemma takeValues_later (hstart : StartsLater rrd stamp values) (h : Resolved rrd stamp values) :
    ∀ v ∈ (Daemon.takeValues stamp values).1, rrd.last < rrd.tick ((Daemon.stampOf v).getD 0) := by
  obtain ⟨hall, hinc⟩ := takeValues_resolved h
  intro v hv
  obtain hle | hfirst := hstart
  · exact lt_of_le_of_lt hle (hall v hv).2
  · cases values with
    | nil => cases hv
    | cons w values =>
      rw [Daemon.takeValues] at hv hinc
      cases hw : Daemon.stampOf w with
      | none =>
        rw [hw] at hv
        cases hv
      | some t =>
        rw [hw] at hv hinc
        dsimp only at hv hinc
        split at hv
        · cases hv
        · rename_i hgt
          rw [if_neg hgt] at hinc
          have hlast : rrd.last < rrd.tick t := hfirst t hw (not_le.1 hgt)
          have hstamp : (Daemon.stampOf w).getD 0 = t := by rw [hw, Option.getD_some]
          obtain rfl | hv := List.mem_cons.1 hv
          · rwa [hstamp]
          · have hlater := (List.pairwise_cons.1 hinc).1 v hv
            rw [hstamp] at hlater
            exact hlast.trans hlater

end Loop

/-! ### Values on their way -/

/-- The file can apply the values one after the other, as far as their times go. -/
structure Applicable (rrd : Rrd) (vs : List Value) : Prop where
  timed : ∀ v ∈ vs, Timed v.text v.stamp
  increasing : vs.Pairwise fun v w => rrd.tick v.stamp < rrd.tick w.stamp
  later : ∀ v ∈ vs, rrd.last < rrd.tick v.stamp

section Applicable

variable {rrd rrd' : Rrd} {vs rest : List Value} {stamp : ℚ} {values : List Text}

lemma Applicable.nil (rrd : Rrd) : Applicable rrd [] := ⟨by simp, .nil, by simp⟩

lemma Applicable.sublist (h : Applicable rrd vs) (hsub : rest.Sublist vs) : Applicable rrd rest :=
  ⟨fun v hv => h.timed v (hsub.subset hv), h.increasing.sublist hsub, fun v hv => h.later v (hsub.subset hv)⟩

/-- The values that are taken come behind those that are there. -/
lemma Applicable.take (h : Applicable rrd vs) (hle : ∀ v ∈ vs, v.stamp ≤ stamp) (hstart : StartsLater rrd stamp values)
    (hres : Resolved rrd stamp values) (base : ℕ) :
    Applicable rrd (vs ++ Daemon.numbered base (Daemon.takeValues stamp values).1) := by
  obtain ⟨hall, hinc⟩ := takeValues_resolved hres
  have hlater := takeValues_later hstart hres
  have htext : ∀ v ∈ Daemon.numbered base (Daemon.takeValues stamp values).1,
      v.text ∈ (Daemon.takeValues stamp values).1 := by
    intro v hv
    rw [← Daemon.numbered_text base (Daemon.takeValues stamp values).1]
    exact List.mem_map.2 ⟨v, hv, rfl⟩
  constructor
  case timed =>
    intro v hv
    obtain hv | hv := List.mem_append.1 hv
    · exact h.timed v hv
    · exact (hall _ (htext v hv)).1
  case increasing =>
    refine List.pairwise_append.2 ⟨h.increasing, ?_, fun v hv w hw => ?_⟩
    · rw [← Daemon.numbered_text base (Daemon.takeValues stamp values).1] at hinc
      exact (@List.pairwise_map _ _ _ fun v w => rrd.tick ((Daemon.stampOf v).getD 0) <
        rrd.tick ((Daemon.stampOf w).getD 0)).1 hinc
    · obtain ⟨htimed, hnew⟩ := hall _ (htext w hw)
      have hstamp : stamp ≤ w.stamp := by
        obtain ⟨-, q, hq, hlt, -⟩ := (Daemon.takeValues_spec stamp values).2.1 _ (htext w hw)
        rw [Value.stamp, hq, Option.getD_some]
        exact hlt.le
      have hold : rrd.tick v.stamp ≤ rrd.tick stamp :=
        rrd.tick_mono (hle v hv) ((h.timed v hv).nonneg.trans (hle v hv)) (lt_of_le_of_lt hstamp htimed.lt)
      exact lt_of_le_of_lt hold hnew
  case later =>
    intro v hv
    obtain hv | hv := List.mem_append.1 hv
    · exact h.later v hv
    · exact hlater _ (htext v hv)

/-- None of the values is refused as too old. -/
lemma Applicable.not_tooOld (h : Applicable rrd vs) (host : Host) (tmpl : List ℕ) (v : Value) :
    tooOld host tmpl rrd vs ≠ some v := by
  induction vs generalizing rrd with
  | nil => exact Option.some_ne_none v ∘ Eq.symm
  | cons w vs ih =>
    obtain ⟨hfirst, hinc⟩ := List.pairwise_cons.1 h.increasing
    obtain ⟨haccepted, hrefused⟩ := processArg_tick host tmpl rrd (h.timed w (.head _))
    rw [tooOld]
    cases hp : processArg host tmpl rrd w.text with
    | mk rrd₁ r =>
      rw [hp] at haccepted hrefused
      cases r with
      | error e =>
        have hcode := hrefused (h.later w (.head _)) e rfl
        dsimp only
        rw [if_neg (by omega)]
        exact (Option.some_ne_none v).symm
      | ok acc =>
        obtain ⟨hver, hlast⟩ := haccepted acc rfl
        refine ih ⟨fun u hu => h.timed u (.tail _ hu), ?_, fun u hu => ?_⟩
        · exact hinc.imp fun hlt => by rwa [Rrd.tick_congr hver, Rrd.tick_congr hver]
        · rw [hlast, Rrd.tick_congr hver]
          exact hfirst u hu

/-- What comes behind a batch that has been written. -/
lemma Applicable.written {host : Host} {ok : Bool} (h : Applicable rrd (vs ++ rest))
    (hupdate : Daemon.rrdUpdateR host rrd vs = (rrd', ok)) : Applicable rrd' rest := by
  obtain ⟨-, hrest, hcross⟩ := List.pairwise_append.1 h.increasing
  have htexts : ∀ t ∈ vs.map (·.text), ∃ q, Timed t q := by
    intro t ht
    obtain ⟨v, hv, rfl⟩ := List.mem_map.1 ht
    exact ⟨v.stamp, h.timed v (List.mem_append_left _ hv)⟩
  have hclock := @Daemon.rrdUpdateR_clock host rrd vs
  rw [hupdate] at hclock
  obtain ⟨hver, hlast⟩ := updateArgs_last host rrd.defaultTemplate htexts
  have hversion : rrd'.version = rrd.version := (congrArg Prod.fst hclock).trans hver
  rw [← Rrd.last_of_clock hclock] at hlast
  refine ⟨fun v hv => h.timed v (List.mem_append_right _ hv), ?_, fun w hw => ?_⟩
  · exact hrest.imp fun hlt => by rwa [Rrd.tick_congr hversion, Rrd.tick_congr hversion]
  · rw [Rrd.tick_congr hversion]
    obtain heq | ⟨t, ht, q, hq, heq⟩ := hlast
    · rw [heq]
      exact h.later w (List.mem_append_right _ hw)
    · obtain ⟨v, hv, rfl⟩ := List.mem_map.1 ht
      have hstamp : v.stamp = q := by rw [Value.stamp, hq.stamp, Option.getD_some]
      rw [heq, ← hstamp]
      exact hcross v hv w hw

end Applicable

/-! ### Steps -/

/-- What is known of the times of a file as long as `keepsTime` holds. -/
structure FileState.InTime (s : FileState) : Prop where
  pending : ∀ rrd ∈ s.rrd, Applicable rrd s.pending
  item : ∀ p ∈ s.item, ∀ v ∈ s.pending, v.stamp ≤ p.1
  applied : ∀ h ∈ s.handovers, ∀ v, ¬ h.refusesAsOld v

section Steps

variable {cfg : Config} {d : Daemon} {f : Text} {a : Act} {s s' : FileState} {stamp : ℚ} {values : List Text}

/-- Values leave the cache, or are moved in it. -/
lemma FileState.InTime.mono (h : s.InTime) (hs : s.Shrinks s') : s'.InTime := by
  obtain ⟨pending, rrd, handovers, item⟩ := hs
  refine ⟨?_, ?_, ?_⟩
  · rw [rrd]
    exact fun r hr => (h.pending r hr).sublist pending
  · intro p' hp' v hv
    obtain ⟨p, hp, heq⟩ := item p' hp'
    rw [heq]
    exact h.item p hp v (pending.subset hv)
  · rw [handovers]
    exact h.applied

lemma FileState.InTime.take (h : s.InTime) (hle : ∀ v ∈ s.pending, v.stamp ≤ stamp)
    (hok : ∀ rrd ∈ s.rrd, StartsLater rrd stamp values ∧ Resolved rrd stamp values) :
    (s.take f stamp s.cached values).InTime := by
  obtain ⟨hlast, -⟩ := Daemon.takeValues_spec stamp values
  obtain ⟨hnew, -⟩ := Daemon.numbered_spec s.total stamp values
  refine ⟨?_, ?_, h.applied⟩
  · rw [pending_take]
    exact fun rrd hr => (h.pending rrd hr).take hle (hok rrd hr).1 (hok rrd hr).2 s.total
  · rintro p ⟨⟩
    rw [pending_take]
    intro v hv
    obtain hv | hv := List.mem_append.1 hv
    · exact (hle v hv).trans hlast
    · exact (hnew v hv).2.2.2

/-- The batch on its way is written. -/
lemma FileState.InTime.write {host : Host} {pre post : List Batch} {vs : List Value} {rrd : Option Rrd} {ok : Bool}
    (h : s.InTime) (single : s.Single) (batches : s.batches = pre ++ ⟨f, vs, .detached⟩ :: post)
    (written : ∀ r ∈ s.rrd, ∃ r', rrd = some r' ∧ Daemon.rrdUpdateR host r vs = (r', ok))
    (missing : s.rrd = none → rrd = none ∧ ok = false) :
    FileState.InTime
      { s with
        batches := pre ++ ⟨f, vs, .updated⟩ :: post
        rrd := rrd
        handovers := s.handovers ++ [⟨f, vs, host, s.rrd, ok⟩] } := by
  obtain ⟨hpre, hpost⟩ := single.around batches
  have hpending : s.pending = vs ++ s.cached := by
    simp [FileState.pending, detached, batches, hpre, hpost]
  have hcached : detachedOf (pre ++ ⟨f, vs, .updated⟩ :: post) ++ s.cached = s.cached := by
    simp [hpre, hpost]
  obtain ⟨hall, hitem, happlied⟩ := h
  rw [hpending] at hall hitem
  refine ⟨?_, ?_, ?_⟩
  · intro r' hr'
    show Applicable r' (detachedOf _ ++ s.cached)
    rw [hcached]
    cases hr : s.rrd with
    | none =>
      rw [(missing hr).1] at hr'
      cases hr'
    | some r =>
      obtain ⟨r'', heq, hupdate⟩ := written r hr
      cases heq.symm.trans hr'
      exact (hall r hr).written hupdate
  · intro p hp v hv
    replace hv : v ∈ s.cached := hcached ▸ hv
    exact hitem p hp v (List.mem_append_right _ hv)
  · intro hand hmem v
    obtain hmem | hmem := List.mem_append.1 hmem
    · exact happlied hand hmem v
    · cases List.mem_singleton.1 hmem
      rintro ⟨r, hr, hold⟩
      exact ((hall r hr).sublist (List.sublist_append_left _ _)).not_tooOld host _ v hold

/-- The loop of an `UPDATE` begins with the stamp of the item. -/
lemma Daemon.loops_of_item {vs : List Value} (item : (d.fileState f).item = some (stamp, vs))
    (acts : d.requested a = some (f, values)) : d.loops a = some (f, stamp, values) := by
  obtain ⟨ci, hci, hstamp⟩ : ∃ ci, d.tree f = some ci ∧ ci.lastUpdateStamp = stamp := by
    obtain ⟨ci, hci, heq⟩ := Option.map_eq_some_iff.1 item
    exact ⟨ci, hci, congrArg Prod.fst heq⟩
  cases a with
  | update client file vals now =>
    cases acts
    rw [Daemon.loops, hci, Option.map_some, hstamp]
  | insert client now random =>
    rw [Daemon.requested] at acts
    split at acts
    · rename_i hreq
      cases acts
      rw [Daemon.loops, hreq]
      dsimp only
      rw [hci, Option.map_some, Option.getD_some, hstamp]
    · cases acts
  | _ => cases acts

lemma Daemon.loops_of_opened {client random : ℕ} {now : ℤ} (item : (d.fileState f).item = none)
    (acts : d.requests client = some (.opened f values stamp)) :
    d.loops (.insert client now random) = some (f, stamp, values) := by
  have htree : d.tree f = none := Option.map_eq_none_iff.1 item
  rw [Daemon.loops, acts]
  dsimp only
  rw [htree]
  rfl

/-- What is known of a file as long as `keepsTime` holds. -/
structure FileState.Timely (s : FileState) : Prop where
  single : s.Single
  inTime : s.InTime

theorem FileStep.inTime (h : FileStep cfg d f (d.fileState f) a s') (hok : keepsTime d a)
    (hs : (d.fileState f).Timely) : s'.InTime := by
  obtain ⟨hsingle, hin⟩ := hs
  obtain ⟨-, hadds, hloops⟩ := hok
  -- an item is made while nothing is pending
  have hnew : ∀ {client now random values stamp}, (d.fileState f).item = none →
      d.requests client = some (.opened f values stamp) → a = .insert client now random →
        (d.fileState f).pending = [] := by
    rintro client now random values stamp item hreq rfl
    have hsettled := hadds _ (Daemon.adds_of_item item hreq)
    rw [pending, cached_of_none item, detached, detachedOf, hsettled.batches]
    rfl
  rcases h.pending_cases with hshrinks | ⟨stamp, values, item, acts, rfl⟩ |
    ⟨client, now, random, values, stamp, rfl, item, acts, hmade⟩ |
    ⟨i, host, pre, vs, post, rrd, ok, -, batches, written, missing, rfl⟩
  · exact hin.mono hshrinks
  · exact hin.take (hin.item _ item) (hloops _ (Daemon.loops_of_item item acts))
  · have hnil := hnew item acts rfl
    obtain rfl | rfl := hmade
    · obtain ⟨hpending, -, happlied⟩ := hin
      rw [pending, cached_of_none item] at hnil hpending
      refine ⟨hpending, ?_, happlied⟩
      rintro p ⟨⟩ v hv
      replace hv : v ∈ (d.fileState f).detached ++ [] := hv
      rw [hnil] at hv
      cases hv
    · refine hin.take ?_ (hloops _ (Daemon.loops_of_opened item acts))
      rw [hnil]
      simp
  · exact hin.write hsingle batches written missing

end Steps

/-! ### Runs -/

/-- The values in the cache item are read as later and later times, all later than the last update of the file, and no
value that was handed over was refused as too old. -/
structure AppliesInTime (d : Daemon) (f : Text) : Prop where
  increasing : ∀ rrd ∈ d.files f, (d.fileState f).cached.Pairwise fun v w => rrd.tick v.stamp < rrd.tick w.stamp
  later : ∀ rrd ∈ d.files f, ∀ v ∈ (d.fileState f).cached, rrd.last < rrd.tick v.stamp
  applied : ∀ h ∈ d.handovers, h.file = f → ∀ v, ¬ h.refusesAsOld v

lemma FileState.Timely.appliesInTime {d : Daemon} {f : Text} (h : (d.fileState f).Timely) : AppliesInTime d f := by
  obtain ⟨-, hpending, -, happlied⟩ := h
  have hcached : ∀ rrd ∈ d.files f, Applicable rrd (d.fileState f).cached := fun rrd hr =>
    (hpending rrd hr).sublist (List.sublist_append_right _ _)
  refine ⟨fun rrd hr => (hcached rrd hr).increasing, fun rrd hr => (hcached rrd hr).later, fun h hh hf => ?_⟩
  refine happlied h ?_
  exact List.mem_filter.2 ⟨hh, by simpa using hf⟩

lemma init_timely {cfg : Config} {fas : Bool} {files : Text → Option Rrd} (f : Text) :
    ((Daemon.init cfg fas files).fileState f).Timely := by
  refine ⟨Daemon.init_single f, fun rrd _ => ?_, ?_, ?_⟩
  · exact Applicable.nil rrd
  · simp [Daemon.init, Daemon.fileState]
  · simp [Daemon.init, Daemon.fileState]

/-- Every file was last updated half a second after 1000. -/
def halfSecondFiles (file : Text) : Option Rrd := (gaugeFiles file).map fun rrd => { rrd with lastUpUsec := 500000 }

end Rrdtool
