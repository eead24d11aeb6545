import Rrdtool.Update.Pass
import Rrdtool.Create

/-!
# Refused updates

What a refused argument leaves in the mapped file. Nothing is stored before the readings are looked
at, but `update_pdp_prep` stores each reading as `last_ds` of its data source before it looks at the
next one, and a `COMPUTE` program is evaluated only after that. So a refused argument leaves the
file alone when its form or its time is refused, or when each data source before the refused reading
already holds the reading it was sent (`leavesFile`), and otherwise not, unless it was refused by a
`COMPUTE` program (`processArg_atomic_iff`).
-/

namespace Rrdtool

/-- The reading is refused: it should be used and it cannot be converted. -/
def refused (d : DataSource) (updval : Text) (interval : ℚ) : Bool :=
  isKnownText updval && d.dsDef.dst ≠ .cdef && interval ≤ d.dsDef.mrhbCnt &&
    !(readingAmount d.dsDef.dst d.pdpPrep.lastDs updval interval).isOk

/-- A reading is refused, and the data sources before it hold their readings already. -/
def quietUntilRefused (interval : ℚ) : List DataSource → List Text → Prop
  | d :: ds, v :: vs =>
    refused d v interval ∨
      (copyLastDs v = d.pdpPrep.lastDs ∧ quietUntilRefused interval ds vs)
  | _, _ => False

instance decidableQuietUntilRefused (interval : ℚ) :
    ∀ ds vs, Decidable (quietUntilRefused interval ds vs)
  | d :: ds, v :: vs =>
    have := decidableQuietUntilRefused interval ds vs
    inferInstanceAs (Decidable (refused d v interval ∨
      (copyLastDs v = d.pdpPrep.lastDs ∧ quietUntilRefused interval ds vs)))
  | [], _ => inferInstanceAs (Decidable False)
  | _ :: _, [] => inferInstanceAs (Decidable False)

/-- The argument is refused for its form or its time, or for a reading behind readings that the file
holds already. -/
@[grind] def leavesFile (host : Host) (tmpl : List ℕ) (rrd : Rrd) (input : Text) : Prop :=
  match parseDs rrd.dsCnt tmpl input with
  | .error _ => True
  | .ok (atStyle, time, updvals) =>
    match getTimeFromReading host rrd atStyle time with
    | .error _ => True
    | .ok (sec, usec) => quietUntilRefused (rrd.interval sec usec) rrd.ds updvals

instance (host : Host) (tmpl : List ℕ) (rrd : Rrd) (input : Text) :
    Decidable (leavesFile host tmpl rrd input) := by
  unfold leavesFile
  split
  · infer_instance
  · split <;> infer_instance

/-- One data source: a refused reading stores nothing, any other is stored. -/
lemma updatePdpPrepDs_cases (d : DataSource) (v : Text) (interval : ℚ) :
    (refused d v interval ∧
      ∃ e, updatePdpPrepDs d.dsDef d.pdpPrep v interval = (d.pdpPrep, .error e)) ∨
    (¬ refused d v interval ∧
      ∃ x, updatePdpPrepDs d.dsDef d.pdpPrep v interval =
        ({ d.pdpPrep with lastDs := copyLastDs v }, .ok x)) := by
  unfold updatePdpPrepDs refused
  by_cases late : (d.dsDef.mrhbCnt : ℚ) < interval
  · have hnot : ¬ interval ≤ d.dsDef.mrhbCnt := not_le.2 late
    refine .inr ⟨by simp [hnot], .nan, ?_⟩
    simp [late, hnot]
  · by_cases used : isKnownText v ∧ d.dsDef.dst ≠ .cdef ∧ interval ≤ d.dsDef.mrhbCnt
    · obtain ⟨hk, hdst, hle⟩ := used
      cases ha : readingAmount d.dsDef.dst d.pdpPrep.lastDs v interval with
      | error e =>
        refine .inl ⟨by simp [hk, hdst, hle, Except.isOk, Except.toBool], e, ?_⟩
        simp [late, hk, hdst, hle, ha]
      | ok a =>
        refine .inr ⟨by simp [Except.isOk, Except.toBool],
          if outOfLimits d.dsDef a.2 then .nan else a.1, ?_⟩
        simp [late, hk, hdst, hle, ha]
    · refine .inr ⟨?_, .nan, ?_⟩
      · simp only [Bool.and_eq_true, decide_eq_true_eq, not_and]
        intro h
        exact absurd ⟨h.1.1, h.1.2, h.2⟩ used
      · simp only [late, if_false, if_neg used]

/-- A loop that fails leaves the data sources alone exactly when it is quiet until then. -/
lemma updatePdpPrep_error_iff {interval ds vs ds' e}
    (h : updatePdpPrep interval ds vs = (ds', .error e)) :
    ds' = ds ↔ quietUntilRefused interval ds vs := by
  induction ds generalizing vs ds' with
  | nil => cases h
  | cons d ds ih =>
    obtain _ | ⟨v, vs⟩ := vs
    · cases h
    · obtain ⟨hr, e', he⟩ | ⟨hr, x, hx⟩ := updatePdpPrepDs_cases d v interval
      · simp only [updatePdpPrep, he] at h
        cases h
        exact iff_of_true rfl (.inl hr)
      · simp only [updatePdpPrep, hx] at h
        rcases hrest : updatePdpPrep interval ds vs with ⟨ds₁, r₁⟩
        rw [hrest] at h
        cases r₁ with
        | ok xs => cases h
        | error e₁ =>
          cases h
          rw [List.cons.injEq, ih hrest]
          have hd : ({ d with pdpPrep := { d.pdpPrep with lastDs := copyLastDs v } } : DataSource) = d ↔
              copyLastDs v = d.pdpPrep.lastDs := by
            obtain ⟨dsDef, lastDs, unkn, val⟩ := d
            simp
          rw [hd]
          constructor
          · intro hq
            exact .inr hq
          · rintro (hq | hq)
            · exact absurd hq hr
            · exact hq

/-- A loop that succeeds refuses no reading. -/
lemma not_quietUntilRefused_of_ok {interval ds vs ds' xs}
    (h : updatePdpPrep interval ds vs = (ds', .ok xs)) : ¬ quietUntilRefused interval ds vs := by
  induction ds generalizing vs ds' xs with
  | nil =>
    intro hq
    cases hq
  | cons d ds ih =>
    obtain _ | ⟨v, vs⟩ := vs
    · intro hq
      cases hq
    · obtain ⟨hr, e', he⟩ | ⟨hr, x, hx⟩ := updatePdpPrepDs_cases d v interval
      · simp only [updatePdpPrep, he] at h
        cases h
      · simp only [updatePdpPrep, hx] at h
        rcases hrest : updatePdpPrep interval ds vs with ⟨ds₁, r₁⟩
        rw [hrest] at h
        cases r₁ with
        | error e₁ => cases h
        | ok xs₁ =>
          rintro (hq | hq)
          · exact absurd hq hr
          · exact ih hrest hq.2

/-- A refused argument leaves the file as it was if `leavesFile` holds; and if it was not a `COMPUTE`
program that refused it, only then. -/
theorem processArg_atomic_iff {host tmpl rrd input rrd' e}
    (h : processArg host tmpl rrd input = (rrd', .error e)) :
    (leavesFile host tmpl rrd input → rrd' = rrd) ∧
      (e ≠ .compute → (rrd' = rrd ↔ leavesFile host tmpl rrd input)) := by
  unfold leavesFile
  obtain ⟨rfl, hp⟩ | ⟨atStyle, time, updvals, hp, hrest⟩ := processArg_error h
  · rw [hp]
    exact ⟨fun _ => rfl, fun _ => iff_of_true rfl trivial⟩
  · rw [hp]
    obtain ⟨rfl, ht⟩ | ⟨sec, usec, ds, ht, hrest⟩ := hrest
    · refine ⟨fun _ => rfl, fun _ => iff_of_true rfl ?_⟩
      simp only [ht]
    · simp only [ht]
      obtain ⟨rfl, hu⟩ | ⟨pdpNew, rfl, hu, -⟩ := hrest
      · have hds : ({ rrd with ds := ds } : Rrd) = rrd ↔ ds = rrd.ds := by
          obtain ⟨version, pdpStep, lastUp, lastUpUsec, ds₀, rra⟩ := rrd
          simp
        rw [hds, updatePdpPrep_error_iff hu]
        exact ⟨fun hq => hq, fun _ => Iff.rfl⟩
      · exact ⟨fun hq => absurd hq (not_quietUntilRefused_of_ok hu), fun hne => absurd rfl hne⟩

/-- Two `GAUGE` data sources and an archive. -/
def twoGaugesHeader : Header where
  version := 3
  pdpStep := 10
  lastUp := 1000
  ds := [gaugeDs ['a'] 60, gaugeDs ['b'] 60]
  rra := [plainRra .average 5 1 (1 / 2)]
  pdpStep_pos := tenSeconds_pos
  lastUp_lt := thousand_lt
  valid r hr := by
    rw [List.mem_singleton.1 hr]
    exact ⟨by decide, by decide, by decide, fun _ => ⟨1 / 2, rfl, by norm_num, by norm_num⟩⟩

example : (processArg .idle [0] (rrdInitData (gaugeHeader 10 60 (by decide)) fun _ => 0) "1005:5".toList).2.isOk := by
  decide +kernel

theorem processArg_atomic_behind_unknown :
    ∃ rrd' e, processArg .idle [0, 1] (rrdInitData twoGaugesHeader fun _ => 0) "1005:U:x".toList =
        (rrd', .error e) ∧ rrd' = rrdInitData twoGaugesHeader fun _ => 0 := by
  have herr : (processArg .idle [0, 1] (rrdInitData twoGaugesHeader fun _ => 0)
      "1005:U:x".toList).2.isOk = false := by decide +kernel
  rcases h : processArg .idle [0, 1] (rrdInitData twoGaugesHeader fun _ => 0)
      "1005:U:x".toList with ⟨rrd', _ | acc⟩
  · rename_i e
    exact ⟨rrd', e, rfl, (processArg_atomic_iff h).1 (by decide +kernel)⟩
  · rw [h] at herr
    cases herr

/-- The second reading is refused, and the first is in the file. -/
theorem refused_reading_stores_last_ds :
    (processArg .idle [0, 1] (rrdInitData twoGaugesHeader fun _ => 0) "1005:5:x".toList).2.isOk =
        false ∧
      (processArg .idle [0, 1] (rrdInitData twoGaugesHeader fun _ => 0) "1005:5:x".toList).1 ≠
        rrdInitData twoGaugesHeader fun _ => 0 := by
  refine ⟨by decide +kernel, fun h => ?_⟩
  have hds : (processArg .idle [0, 1] (rrdInitData twoGaugesHeader fun _ => 0)
      "1005:5:x".toList).1.ds ≠ (rrdInitData twoGaugesHeader fun _ => 0).ds := by decide +kernel
  exact hds (congrArg Rrd.ds h)

end Rrdtool
