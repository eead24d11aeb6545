import Rrdtool.Daemon.Step
import Rrdtool.Update.Pass
import Mathlib.Data.List.TakeWhile

/-!
# Time stamps in the daemon and in the file

The daemon compares the number in front of a value with the latest stamp it has seen; `rrd_update_r`
reads the same number again and compares it with the time in the file, which has whole seconds and
microseconds. The two agree on values without `@` (`getTimeFromReading_stamp`): a value later than
the time in the file is not refused as too old if the file can store its stamp, and the file is not
later than the stamp afterwards. `updateArgs_time` says this for a whole batch.
-/

namespace Rrdtool

/-! ### Reading the stamp again -/

section Cut

variable {p : Char → Bool} {a r : Text}

lemma takeWhile_colon (hp : p ':' = false) : (a ++ ':' :: r).takeWhile p = a.takeWhile p := by
  induction a with
  | nil => simp [hp]
  | cons c a ih =>
    rw [List.cons_append, List.takeWhile_cons, List.takeWhile_cons, ih]

lemma dropWhile_colon (hp : p ':' = false) :
    (a ++ ':' :: r).dropWhile p = a.dropWhile p ++ ':' :: r := by
  induction a with
  | nil => simp [hp]
  | cons c a ih =>
    rw [List.cons_append, List.dropWhile_cons, List.dropWhile_cons, ih]
    split <;> rfl

lemma readSign_colon : readSign (a ++ ':' :: r) = ((readSign a).1, (readSign a).2 ++ ':' :: r) := by
  cases a with
  | nil => rfl
  | cons c a =>
    by_cases minus : c = '-'
    · subst minus
      rfl
    · by_cases plus : c = '+'
      · subst plus
        rfl
      · have hsign : ∀ p, readSign (c :: p) = (false, c :: p) := by
          intro p
          unfold readSign
          split <;> simp_all
        rw [List.cons_append, hsign, hsign]
        rfl

lemma readDecimals_colon :
    readDecimals (a ++ ':' :: r) = ((readDecimals a).1, (readDecimals a).2 ++ ':' :: r) := by
  cases a with
  | nil => rfl
  | cons c a =>
    by_cases point : c = '.'
    · subst point
      simp only [List.cons_append, readDecimals]
      rw [takeWhile_colon (by decide), dropWhile_colon (by decide)]
    · have hdec : ∀ p, readDecimals (c :: p) = ([], c :: p) := by
        intro p
        unfold readDecimals
        split <;> simp_all
      rw [List.cons_append, hdec, hdec]
      rfl

lemma readExponent_colon :
    readExponent (a ++ ':' :: r) = ((readExponent a).1, (readExponent a).2 ++ ':' :: r) := by
  cases a with
  | nil => rfl
  | cons c a =>
    simp only [List.cons_append, readExponent]
    split
    · rw [readSign_colon]
      simp only
      rw [takeWhile_colon (by decide), dropWhile_colon (by decide)]
    · rfl

/-- A number ends before a colon. -/
lemma rrdStrtod_colon :
    rrdStrtod (a ++ ':' :: r) = (rrdStrtod a).map fun x => (x.1, x.2 ++ ':' :: r) := by
  simp only [rrdStrtod]
  rw [dropWhile_colon (by decide), readSign_colon]
  simp only
  rw [takeWhile_colon (by decide), dropWhile_colon (by decide), readDecimals_colon]
  simp only
  split
  · rfl
  · rw [readExponent_colon]
    split
    · rfl
    · rfl

end Cut

/-- What `rrd_strtod` leaves is the end of the text. -/
lemma rrdStrtod_suffix {s rest : Text} {q : ℚ} (h : rrdStrtod s = some (q, rest)) : rest <:+ s := by
  simp only [rrdStrtod] at h
  split at h
  · cases h
  · split at h
    · cases h
    · cases h
      refine (readExponent_suffix _).trans ((readDecimals_suffix _).trans ?_)
      exact (List.dropWhile_suffix _).trans ((readSign_suffix _).trans (List.dropWhile_suffix _))

/-- The time of a value is its stamp. -/
lemma rrdStrtodbl_of_stampOf {value : Text} {q : ℚ} (h : Daemon.stampOf value = some q) :
    rrdStrtodbl (value.takeWhile (· ≠ ':')) = .whole (.fin q) := by
  obtain ⟨rest, hrest⟩ : ∃ rest, rrdStrtod value = some (q, ':' :: rest) := by
    unfold Daemon.stampOf at h
    split at h
    · rename_i v rest hv
      cases h
      refine ⟨rest, ?_⟩
      unfold rrdStrtodbl at hv
      split at hv
      · split at hv <;> cases hv
      · cases hv
      · rename_i heq
        cases hv
        exact heq
    · cases h
  have hmem : ':' ∈ value := (rrdStrtod_suffix hrest).subset (.head _)
  obtain ⟨a, r, hr, hfree⟩ := List.eq_append_cons_of_mem hmem
  have htake : value.takeWhile (· ≠ ':') = a := by
    rw [hr, takeWhile_colon (by decide), List.takeWhile_eq_self_iff]
    intro c hc
    have hne : c ≠ ':' := fun he => hfree (he ▸ hc)
    simpa using hne
  rw [htake]
  rw [hr, rrdStrtod_colon] at hrest
  obtain ⟨⟨q', p⟩, ha, hp⟩ := Option.map_eq_some_iff.1 hrest
  cases p with
  | nil =>
    cases hp
    simp only [rrdStrtodbl, ha]
  | cons c p =>
    cases hp
    exact absurd ((rrdStrtod_suffix ha).subset (.head _)) hfree

/-! ### The time in the file -/

/-- The time of the last update, in seconds. -/
@[grind] def Rrd.time (rrd : Rrd) : ℚ := rrd.lastUp + (rrd.lastUpUsec : ℚ) / 10 ^ 6

/-- The stamp fits `time_t` and has no more digits than a file of this version keeps. -/
def storable (version : ℕ) (q : ℚ) : Prop :=
  q < 2 ^ 63 ∧ (⌊q * (if version < 3 then 1 else 10 ^ 6)⌋ : ℚ) = q * (if version < 3 then 1 else 10 ^ 6)

instance (version : ℕ) (q : ℚ) : Decidable (storable version q) := inferInstanceAs (Decidable (_ ∧ _))

lemma readTime_stamp {host value q} (h : Daemon.stampOf value = some q) (h0 : 0 ≤ q) :
    readTime host false (value.takeWhile (· ≠ ':')) = .ok (splitTime (.fin q)) := by
  have hread := rrdStrtodbl_of_stampOf h
  have hN : value.takeWhile (· ≠ ':') ≠ ['N'] := by
    intro he
    rw [he, show rrdStrtodbl ['N'] = .notConverted by decide +kernel] at hread
    cases hread
  have hneg : ¬ (ExtNum.fin q : RrdValue) < .fin 0 := by
    rw [ExtNum.fin_lt_fin]
    exact not_lt.2 h0
  simp only [readTime, hread, if_neg hN, if_neg hneg, Bool.false_eq_true, if_false]

/-- The microseconds that are read are no more than those of the stamp. -/
lemma splitTime_usec_le {q : ℚ} (version : ℕ) :
    ((⌊q⌋ : ℤ) : ℚ) + (keepUsec version (splitTime (.fin q)).2 : ℕ) / 10 ^ 6 ≤ q := by
  have hpos : 0 ≤ (q - ⌊q⌋) * 10 ^ 6 := by
    have := Int.floor_le q
    have : 0 ≤ q - ⌊q⌋ := by linarith
    positivity
  have hfloor : ((splitTime (.fin q)).2 : ℚ) ≤ (q - ⌊q⌋) * 10 ^ 6 := Nat.floor_le hpos
  have hkeep : ((keepUsec version (splitTime (.fin q)).2 : ℕ) : ℚ) ≤ (splitTime (.fin q)).2 := by
    exact_mod_cast keepUsec_le version (splitTime (.fin q)).2
  have hdiv : ((keepUsec version (splitTime (.fin q)).2 : ℕ) : ℚ) / 10 ^ 6 ≤ q - ⌊q⌋ := by
    rw [div_le_iff₀ (by norm_num)]
    exact hkeep.trans hfloor
  linarith

/-- A stamp that the file can store is read exactly. -/
lemma splitTime_exact {version : ℕ} {q : ℚ} (h : storable version q) :
    ((⌊q⌋ : ℤ) : ℚ) + (keepUsec version (splitTime (.fin q)).2 : ℕ) / 10 ^ 6 = q := by
  obtain ⟨-, hexact⟩ := h
  unfold keepUsec
  split
  · rename_i hv
    rw [if_pos hv, mul_one] at hexact
    rw [hexact]
    simp
  · rename_i hv
    rw [if_neg hv] at hexact
    have hint : (q - ⌊q⌋) * 10 ^ 6 = ((⌊q * 10 ^ 6⌋ - ⌊q⌋ * 10 ^ 6 : ℤ) : ℚ) := by
      push_cast
      rw [hexact]
      ring
    have hnonneg : 0 ≤ ⌊q * 10 ^ 6⌋ - ⌊q⌋ * 10 ^ 6 := by
      have hle := Int.floor_le q
      have : (0 : ℚ) ≤ ((⌊q * 10 ^ 6⌋ - ⌊q⌋ * 10 ^ 6 : ℤ) : ℚ) := by
        rw [← hint]
        have : 0 ≤ q - ⌊q⌋ := by linarith
        positivity
      exact_mod_cast this
    obtain ⟨n, hn⟩ := Int.eq_ofNat_of_zero_le hnonneg
    have husec : (splitTime (.fin q)).2 = n := by
      show ⌊(q - ⌊q⌋) * 10 ^ 6⌋₊ = n
      rw [hint, hn, Int.cast_natCast, Nat.floor_natCast]
    have hq : (n : ℚ) = (q - ⌊q⌋) * 10 ^ 6 := by
      rw [hint, hn]
      simp
    rw [husec, hq]
    field_simp
    ring

/-- How `get_time_from_reading` judges a stamp. -/
lemma getTimeFromReading_stamp {host rrd value q} (h : Daemon.stampOf value = some q) (h0 : 0 ≤ q) :
    (∀ sec usec, getTimeFromReading host rrd false (value.takeWhile (· ≠ ':')) = .ok (sec, usec) →
      (sec : ℚ) + (usec : ℚ) / 10 ^ 6 ≤ q ∧
        (storable rrd.version q → (sec : ℚ) + (usec : ℚ) / 10 ^ 6 = q)) ∧
    (storable rrd.version q → rrd.time < q →
      ∃ t, getTimeFromReading host rrd false (value.takeWhile (· ≠ ':')) = .ok t) := by
  have hfloor : 0 ≤ ⌊q⌋ := Int.floor_nonneg.2 h0
  simp only [getTimeFromReading, readTime_stamp h h0]
  constructor
  · intro sec usec hok
    split at hok
    · cases hok
    · rename_i late
      cases hok
      have hsec : (splitTime (.fin q)).1 = ⌊q⌋ := by
        show toTimeT q = _
        by_contra hne
        have hz : toTimeT q = -2 ^ 63 := by
          unfold toTimeT at hne ⊢
          split
          · rename_i hin
            rw [if_pos hin] at hne
            exact absurd rfl hne
          · rfl
        refine late (.inl ?_)
        show toTimeT q < _
        rw [hz]
        omega
      have hcast : (((splitTime (.fin q)).1.toNat : ℕ) : ℚ) = (⌊q⌋ : ℤ) := by
        rw [hsec]
        exact_mod_cast Int.toNat_of_nonneg hfloor
      rw [hcast]
      exact ⟨splitTime_usec_le rrd.version, fun hs => splitTime_exact hs⟩
  · intro hs hlater
    have hexact := splitTime_exact hs
    have hsec : (splitTime (.fin q)).1 = ⌊q⌋ := by
      show toTimeT q = _
      refine if_pos ⟨by omega, ?_⟩
      have := Int.floor_le q
      have hlt : (⌊q⌋ : ℚ) < 2 ^ 63 := lt_of_le_of_lt this hs.1
      exact_mod_cast hlt
    rw [if_neg ?_]
    · exact ⟨_, rfl⟩
    · rw [hsec]
      have husec : keepUsec rrd.version (splitTime (.fin q)).2 < 10 ^ 6 :=
        lt_of_le_of_lt (keepUsec_le _ _) (splitTime_lt (.fin q)).2
      generalize keepUsec rrd.version (splitTime (.fin q)).2 = u at hexact husec
      have hu : (u : ℚ) / 10 ^ 6 < 1 := by
        rw [div_lt_one (by norm_num)]
        exact_mod_cast husec
      have hlast : (0 : ℚ) ≤ (rrd.lastUpUsec : ℚ) / 10 ^ 6 := by positivity
      rw [Rrd.time, ← hexact] at hlater
      rintro (hlt | ⟨heq, hle⟩)
      · have : ((⌊q⌋ : ℤ) : ℚ) + 1 ≤ rrd.lastUp := by exact_mod_cast hlt
        linarith
      · have h1 : ((⌊q⌋ : ℤ) : ℚ) = rrd.lastUp := by exact_mod_cast heq
        have h2 : (u : ℚ) / 10 ^ 6 ≤ (rrd.lastUpUsec : ℚ) / 10 ^ 6 := by
          gcongr
        linarith

/-! ### A whole batch -/

/-- A value the daemon has taken: it has a stamp, and no `@`. -/
structure Stamped (value : Text) (q : ℚ) : Prop where
  stamp : Daemon.stampOf value = some q
  plain : '@' ∉ value

/-- The parts of a file that time stamps are compared with. -/
@[grind] def Rrd.clock (rrd : Rrd) : ℕ × ℕ × ℕ := (rrd.version, rrd.lastUp, rrd.lastUpUsec)

lemma Rrd.time_of_clock {rrd rrd' : Rrd} (h : rrd'.clock = rrd.clock) : rrd'.time = rrd.time := by
  obtain ⟨-, h1, h2⟩ : rrd'.version = rrd.version ∧ rrd'.lastUp = rrd.lastUp ∧
    rrd'.lastUpUsec = rrd.lastUpUsec := by simpa [Rrd.clock] using h
  rw [Rrd.time, Rrd.time, h1, h2]

lemma closePdps_clock {host rrd pass p xs s time rrd' r}
    (h : closePdps host rrd pass p xs s time = (rrd', r)) : rrd'.clock = rrd.clock := by
  unfold closePdps at h
  split at h
  · cases h
    rfl
  · cases h
    rfl

lemma splitLeftOpen_clock {host w rrd' r} (h : splitLeftOpen host w = (rrd', r)) :
    rrd'.clock = w.rrd.clock ∧ ∀ w' ∈ r, w'.rrd.clock = w.rrd.clock := by
  simp only [splitLeftOpen] at h
  split at h
  · split at h
    · rename_i hc
      cases h
      exact ⟨closePdps_clock hc, by simp⟩
    · rename_i hc
      cases h
      refine ⟨closePdps_clock hc, ?_⟩
      rintro w' ⟨⟩
      exact closePdps_clock hc
  · cases h
    refine ⟨rfl, ?_⟩
    rintro w' ⟨⟩
    rfl

/-- A `COMPUTE` program that fails leaves the time alone; otherwise it is that of the update. -/
lemma applyPdpNew_clock {host rrd sec usec xs rrd' r}
    (h : applyPdpNew host rrd sec usec xs = (rrd', r)) :
    rrd'.clock = if r.isSome then (rrd.version, sec, usec) else rrd.clock := by
  simp only [applyPdpNew] at h
  split at h
  · cases h
    rfl
  · split at h
    · rename_i hw
      cases h
      exact (splitLeftOpen_clock hw).1
    · rename_i w hw
      have hclock := (splitLeftOpen_clock hw).2 w rfl
      split at h
      · rename_i hc
        cases h
        exact (closePdps_clock hc).trans hclock
      · rename_i rrd₁ phase _ hc
        cases h
        have hv : rrd₁.version = rrd.version := congrArg Prod.fst ((closePdps_clock hc).trans hclock)
        simp [Rrd.clock, Rrd.setLastUp, hv]

/-- The time after an argument, accepted or not. -/
lemma processArg_clock {host tmpl rrd input} :
    (∃ e, (processArg host tmpl rrd input).2 = .error e ∧
      (processArg host tmpl rrd input).1.clock = rrd.clock) ∨
    ∃ acc, (processArg host tmpl rrd input).2 = .ok acc ∧
      (processArg host tmpl rrd input).1.clock = (rrd.version, acc.sec, acc.usec) := by
  cases hr : (processArg host tmpl rrd input).2 with
  | error e =>
    refine .inl ⟨e, rfl, ?_⟩
    have h : processArg host tmpl rrd input = ((processArg host tmpl rrd input).1, .error e) :=
      Prod.ext rfl hr
    obtain ⟨hrrd, -⟩ | ⟨_, _, _, -, ⟨hrrd, -⟩ | ⟨sec, usec, ds, -, ⟨hrrd, -⟩ | ⟨xs, -, -, ha⟩⟩⟩ :=
      processArg_error h
    · rw [hrrd]
    · rw [hrrd]
    · rw [hrrd]
      rfl
    · exact applyPdpNew_clock ha
  | ok acc =>
    refine .inr ⟨acc, rfl, ?_⟩
    have h : processArg host tmpl rrd input = ((processArg host tmpl rrd input).1, .ok acc) :=
      Prod.ext rfl hr
    obtain ⟨_, _, ds, xs, -, -, -, ha, -, -⟩ := processArg_ok h
    exact applyPdpNew_clock ha

/-- What `rrd_update_r` does with one stamped value. -/
lemma processArg_stamped {host tmpl rrd value q} (h : Stamped value q) (h0 : 0 ≤ q) :
    (∀ acc, (processArg host tmpl rrd value).2 = .ok acc →
      (processArg host tmpl rrd value).1.version = rrd.version ∧
      (processArg host tmpl rrd value).1.time ≤ q ∧
      (storable rrd.version q → (processArg host tmpl rrd value).1.time = q)) ∧
    (storable rrd.version q → rrd.time < q →
      ∀ e, (processArg host tmpl rrd value).2 = .error e → e.code = -1) := by
  have hparse : ∀ {atStyle time updvals},
      parseDs rrd.dsCnt tmpl value = .ok (atStyle, time, updvals) →
        atStyle = false ∧ time = value.takeWhile (· ≠ ':') := by
    intro atStyle time updvals hp
    have hat : value.contains '@' = false := by simpa using h.plain
    obtain ⟨hstyle, htime⟩ := parseDs_time hp
    rw [hat] at hstyle htime
    exact ⟨hstyle, htime⟩
  obtain ⟨hread, haccept⟩ := @getTimeFromReading_stamp host rrd _ _ h.stamp h0
  constructor
  · intro acc hacc
    have hok : processArg host tmpl rrd value = ((processArg host tmpl rrd value).1, .ok acc) :=
      Prod.ext rfl hacc
    obtain ⟨_, _, _, _, hp, ht, -, -, -, -⟩ := processArg_ok hok
    obtain ⟨rfl, rfl⟩ := hparse hp
    obtain ⟨e, he, -⟩ | ⟨acc', hacc', hclock⟩ :=
      @processArg_clock host tmpl rrd value
    · rw [hacc] at he
      cases he
    · rw [hacc] at hacc'
      cases hacc'
      obtain ⟨hv, hs, hu⟩ := by simpa [Rrd.clock] using hclock
      rw [Rrd.time, hs, hu]
      exact ⟨hv, (hread acc.sec acc.usec ht).1, (hread acc.sec acc.usec ht).2⟩
  · intro hs hlater e he
    have herr : processArg host tmpl rrd value = ((processArg host tmpl rrd value).1, .error e) :=
      Prod.ext rfl he
    obtain ⟨-, hp⟩ | ⟨_, _, _, hp, ⟨-, ht⟩ | ⟨_, _, _, -, ⟨-, hu⟩ | ⟨_, hc, -, -⟩⟩⟩ :=
      processArg_error herr
    · exact parseDs_error hp
    · obtain ⟨rfl, rfl⟩ := hparse hp
      obtain ⟨t, ht'⟩ := haccept hs hlater
      rw [ht'] at ht
      cases ht
    · exact updatePdpPrep_error hu
    · rw [hc]
      rfl

/-- The file after a batch, whatever became of it: as it was, or not later than some value of the
batch. -/
lemma updateArgs_time {host tmpl rrd values} (h : ∀ v ∈ values, ∃ q, Stamped v q ∧ 0 ≤ q) :
    (updateArgs host tmpl false rrd values).1.version = rrd.version ∧
      ((updateArgs host tmpl false rrd values).1.time = rrd.time ∨
        ∃ v ∈ values, ∃ q, Stamped v q ∧ (updateArgs host tmpl false rrd values).1.time ≤ q) := by
  induction values generalizing rrd with
  | nil => exact ⟨rfl, .inl rfl⟩
  | cons v values ih =>
    obtain ⟨q, hq, h0⟩ := h v (.head _)
    obtain ⟨haccepted, -⟩ := @processArg_stamped host tmpl rrd _ _ hq h0
    obtain ⟨e, he, hclock⟩ | ⟨acc, hacc, -⟩ :=
      @processArg_clock host tmpl rrd v
    · have hstop : (updateArgs host tmpl false rrd (v :: values)).1 =
          (processArg host tmpl rrd v).1 := by
        simp only [updateArgs]
        split
        · rename_i heq
          rw [heq]
          simp
        · rename_i heq
          rw [heq] at he
          cases he
      rw [hstop]
      exact ⟨congrArg Prod.fst hclock, .inl (Rrd.time_of_clock hclock)⟩
    · obtain ⟨hv, hle, -⟩ := haccepted acc hacc
      have hgo : (updateArgs host tmpl false rrd (v :: values)).1 =
          (updateArgs host tmpl false (processArg host tmpl rrd v).1 values).1 := by
        simp only [updateArgs]
        split
        · rename_i heq
          rw [heq] at hacc
          cases hacc
        · rename_i heq
          rw [heq]
      obtain ⟨hver, htime⟩ := @ih (processArg host tmpl rrd v).1
        fun w hw => h w (.tail _ hw)
      rw [hgo]
      refine ⟨hver.trans hv, .inr ?_⟩
      obtain heq | ⟨w, hw, p, hp, hwle⟩ := htime
      · rw [heq]
        exact ⟨v, .head _, q, hq, hle⟩
      · exact ⟨w, .tail _ hw, p, hp, hwle⟩

lemma time_le_of_later {rrd rrd' : Rrd} (hu : rrd.lastUpUsec < 10 ^ 6)
    (h : rrd.lastUp < rrd'.lastUp ∨ (rrd.lastUp = rrd'.lastUp ∧ rrd.lastUpUsec < rrd'.lastUpUsec)) :
    rrd.time ≤ rrd'.time := by
  have hlast : (0 : ℚ) ≤ (rrd'.lastUpUsec : ℚ) / 10 ^ 6 := by positivity
  unfold Rrd.time
  obtain hlt | ⟨heq, hlt⟩ := h
  · have h1 : (rrd.lastUp : ℚ) + 1 ≤ rrd'.lastUp := by exact_mod_cast hlt
    have h2 : (rrd.lastUpUsec : ℚ) / 10 ^ 6 ≤ 1 := by
      rw [div_le_one (by norm_num)]
      exact_mod_cast hu.le
    linarith
  · rw [heq]
    have : (rrd.lastUpUsec : ℚ) / 10 ^ 6 ≤ (rrd'.lastUpUsec : ℚ) / 10 ^ 6 := by
      gcongr
    linarith

/-- The file after a batch that was written in full: not earlier than any value that it can store. -/
lemma updateArgs_ok_time {host tmpl rrd values rrd' accs}
    (h : ∀ v ∈ values, ∃ q, Stamped v q ∧ 0 ≤ q) (hu : rrd.lastUpUsec < 10 ^ 6)
    (hok : updateArgs host tmpl false rrd values = (rrd', .ok accs)) :
    rrd.time ≤ rrd'.time ∧ rrd'.lastUpUsec < 10 ^ 6 ∧
      ∀ v ∈ values, ∀ q, Stamped v q → storable rrd.version q → q ≤ rrd'.time := by
  induction values generalizing rrd accs with
  | nil =>
    cases hok
    exact ⟨le_refl _, hu, by simp⟩
  | cons v values ih =>
    obtain ⟨q, hq, h0⟩ := h v (.head _)
    obtain ⟨haccepted, -⟩ := @processArg_stamped host tmpl rrd _ _ hq h0
    simp only [updateArgs] at hok
    split at hok
    · simp at hok
    · rename_i rrd₁ acc hp
      cases hr : (updateArgs host tmpl false rrd₁ values).2 with
      | error e =>
        rw [hr] at hok
        cases hok
      | ok accs' =>
        rw [hr] at hok
        cases hok
        rw [hp] at haccepted
        obtain ⟨hv, -, hexact⟩ := haccepted acc rfl
        obtain ⟨_, _, _, _, -, ht, -, ha, -, -⟩ := processArg_ok hp
        obtain ⟨-, hu₁, hlater⟩ := getTimeFromReading_ok ht
        obtain ⟨-, hs, hus⟩ := by simpa [Rrd.clock] using applyPdpNew_clock ha
        rw [← hus] at hu₁
        obtain ⟨hmono, hu', hall⟩ := ih (fun w hw => h w (.tail _ hw)) hu₁ (Prod.ext rfl hr)
        have hstep : rrd.time ≤ rrd₁.time := by
          rw [← hs, ← hus] at hlater
          exact time_le_of_later hu hlater
        refine ⟨hstep.trans hmono, hu', fun w hw p hwp hs => ?_⟩
        obtain rfl | hw := List.mem_cons.1 hw
        · have hpq : p = q := by
            have := hwp.stamp.symm.trans hq.stamp
            exact Option.some.inj this
          subst hpq
          exact (hexact hs).symm.le.trans hmono
        · exact hall w hw p hwp (by rw [hv]; exact hs)

/-! ### The values a request hands over -/

/-- The stamp of a value in the cache. -/
@[grind] def Value.stamp (v : Value) : ℚ := (Daemon.stampOf v.text).getD 0

namespace Daemon

lemma rrdUpdateR_clock {host rrd vs} : (rrdUpdateR host rrd vs).1.clock =
    (updateArgs host rrd.defaultTemplate false rrd (vs.map (·.text))).1.clock := by
  unfold rrdUpdateR rrdUpdatex
  split
  · rename_i h
    split at h
    · cases h
    · rename_i heq
      rw [heq]
      split at h
      · cases h
        rfl
      · cases h
        rfl
  · rename_i h
    split at h
    · rename_i heq
      rw [heq]
      cases h
      rfl
    · split at h <;> cases h

lemma rrdUpdateR_ok {host rrd vs rrd'} (h : rrdUpdateR host rrd vs = (rrd', true)) :
    ∃ rrd₁ accs, updateArgs host rrd.defaultTemplate false rrd (vs.map (·.text)) =
      (rrd₁, .ok accs) ∧ rrd'.clock = rrd₁.clock := by
  have hclock := @rrdUpdateR_clock host rrd vs
  rw [h] at hclock
  unfold rrdUpdateR at h
  split at h
  · rename_i hx
    unfold rrdUpdatex at hx
    split at hx
    · cases hx
    · rename_i rrd₁ accs heq
      rw [heq] at hclock
      exact ⟨rrd₁, accs, heq, hclock⟩
  · cases h

lemma numbered_text (base : ℕ) (taken : List Text) :
    (numbered base taken).map (·.text) = taken := by
  refine List.ext_getElem (by simp [numbered]) fun i h₁ h₂ => ?_
  simp [numbered]

lemma numbered_id (base : ℕ) (taken : List Text) :
    (numbered base taken).map (·.id) = List.range' base taken.length := by
  refine List.ext_getElem (by simp [numbered]) fun i h₁ h₂ => ?_
  simp [numbered]

/-- The values taken have increasing stamps, later than the one before. -/
lemma takeValues_spec (stamp : ℚ) (values : List Text) :
    stamp ≤ (takeValues stamp values).2.1 ∧
      (∀ v ∈ (takeValues stamp values).1, v ∈ values ∧ ∃ q, stampOf v = some q ∧ stamp < q ∧
        q ≤ (takeValues stamp values).2.1) ∧
      (takeValues stamp values).1.Pairwise fun v w =>
        (stampOf v).getD 0 < (stampOf w).getD 0 := by
  induction values generalizing stamp with
  | nil => exact ⟨le_refl _, by simp [takeValues], .nil⟩
  | cons v values ih =>
    simp only [takeValues]
    split
    · exact ⟨le_refl _, by simp, .nil⟩
    · rename_i q hq
      split
      · exact ⟨le_refl _, by simp, .nil⟩
      · rename_i hlt
        obtain ⟨hle, hall, hsorted⟩ := ih q
        have hlt : stamp < q := not_le.1 hlt
        refine ⟨hlt.le.trans hle, fun w hw => ?_, List.pairwise_cons.2 ⟨fun w hw => ?_, hsorted⟩⟩
        · obtain rfl | hw := List.mem_cons.1 hw
          · exact ⟨.head _, q, hq, hlt, hle⟩
          · obtain ⟨hin, p, hp, hqp, hpl⟩ := hall w hw
            exact ⟨.tail _ hin, p, hp, hlt.trans hqp, hpl⟩
        · obtain ⟨-, p, hp, hqp, -⟩ := hall w hw
          rw [hq, hp]
          exact hqp

/-- The same for the numbered values. -/
lemma numbered_spec (base : ℕ) (stamp : ℚ) (values : List Text) :
    (∀ v ∈ numbered base (takeValues stamp values).1, v.text ∈ values ∧
      stampOf v.text = some v.stamp ∧ stamp < v.stamp ∧ v.stamp ≤ (takeValues stamp values).2.1) ∧
    (numbered base (takeValues stamp values).1).Pairwise fun v w => v.stamp < w.stamp := by
  obtain ⟨-, hall, hsorted⟩ := takeValues_spec stamp values
  constructor
  · intro v hv
    have hmem : v.text ∈ (takeValues stamp values).1 := by
      rw [← numbered_text base (takeValues stamp values).1]
      exact List.mem_map.2 ⟨v, hv, rfl⟩
    obtain ⟨hin, q, hq, hlt, hle⟩ := hall v.text hmem
    have hstamp : v.stamp = q := by rw [Value.stamp, hq, Option.getD_some]
    rw [hstamp]
    exact ⟨hin, hq, hlt, hle⟩
  · rw [← numbered_text base (takeValues stamp values).1, List.pairwise_map] at hsorted
    exact hsorted

end Daemon

end Rrdtool
