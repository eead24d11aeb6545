import Rrdtool.Create.Parse
import Rrdtool.HoltWinters

/-!
# What create accepts

The parsers of `rrd_create_r2` check each parameter where it stands. Three things are not checked: that a number
is not `nan`, that the index of another archive is one, and that the period of a `HWPREDICT` archive is not zero.

Arguments that are not refused give a well-formed header without a division by zero exactly if every archive among
them is written with care in these respects (`rrdCreateR2_wellFormed_iff`).
-/

namespace Rrdtool

open Checked

/-! ### Well-formed headers -/

/-- The consolidation functions of the archive that one with this function depends on. -/
def Cf.expects : Cf → Option (List Cf)
  | .hwpredict | .mhwpredict => some [.seasonal]
  | .seasonal | .devseasonal => some [.hwpredict, .mhwpredict]
  | .devpredict | .failures => some [.devseasonal]
  | _ => none

/-- The index refers to an archive that one with the function `cf` can depend on; `cfs` are the functions of all
archives. -/
def Refers (cfs : List Cf) (cf : Cf) (idx : ℕ) : Prop :=
  ∀ expected, cf.expects = some expected → ∃ cf' ∈ expected, cfs[idx]? = some cf'

/-- A well-formed archive. -/
structure RraDef.WellFormed (cfs : List Cf) (rra : RraDef) : Prop where
  pdpCnt : 1 ≤ rra.pdpCnt
  rowCnt : 1 ≤ rra.rowCnt
  xff : rra.cf.isPlain → ∃ q : ℚ, rra.xff = .fin q ∧ 0 ≤ q ∧ q < 1
  failures : rra.cf = .failures →
    1 ≤ rra.failureThreshold ∧ rra.failureThreshold ≤ rra.windowLen ∧ rra.windowLen ≤ maxFailuresWindowLen
  smoothIdx : rra.cf.isSeasonal → rra.seasonalSmoothIdx < rra.rowCnt
  smoothingWindow : rra.cf.isSeasonal → ∃ q : ℚ, rra.smoothingWindow = .fin q ∧ 0 ≤ q ∧ q ≤ 1
  dependent : Refers cfs rra.cf rra.dependentRraIdx

/-- The functions of the archives. -/
@[grind] def NewRrd.cfs (rrd : NewRrd) : List Cf := rrd.rra.map (·.cf)

/-- A well-formed header. -/
structure NewRrd.WellFormed (rrd : NewRrd) : Prop where
  pdpStep : 1 ≤ rrd.pdpStep
  rra : ∀ rra ∈ rrd.rra, rra.WellFormed rrd.cfs
  names : rrd.names.Nodup

/-! ### Archives that are written with care -/

/-- The consolidation function that an archive starts with. -/
def cfOf (token : Text) : Option Cf := rrdCfConv (scanSet 19 Char.isUpper token)

/-- The index of the archive that it depends on; `tokens` are those behind the first. -/
def dependentOf (cf : Cf) (tokens : List Text) : ℕ :=
  match tokens[4]? with
  | some token => dependentIdx token
  | none =>
    match cf with
    | .hwpredict | .mhwpredict => intMax
    | .seasonal | .devseasonal => (tokens[2]?).elim (2 ^ 64 - 1) dependentIdx
    | .devpredict => (tokens[1]?).elim (2 ^ 64 - 1) dependentIdx
    | .failures => (tokens[3]?).elim (2 ^ 64 - 1) dependentIdx
    | _ => 0

/-- The period of a `HWPREDICT` archive. -/
def periodOf (tokens : List Text) : ℕ := (tokens[3]?).elim 0 fun token => (atoi token % 2 ^ 16).toNat

/-- The archives that it depends on are created with it. -/
def IsAutomatic (cf : Cf) (tokens : List Text) : Prop := cf.isHwpredict ∧ dependentOf cf tokens = intMax

instance (cf : Cf) (tokens : List Text) : Decidable (IsAutomatic cf tokens) := inferInstanceAs (Decidable (_ ∧ _))

/-- What is not checked in the tokens behind the first. -/
structure TokensOk (cfs : List Cf) (cf : Cf) (tokens : List Text) : Prop where
  xff : cf.isPlain → ∀ token, tokens[0]? = some token → rrdStrtodbl token ≠ .whole .nan
  smoothingWindow : cf.isSeasonal → ∀ token, tokens[3]? = some token → scanWindow token ≠ some (some .nan)
  period : IsAutomatic cf tokens → periodOf tokens ≠ 0
  dependent : ¬ IsAutomatic cf tokens → Refers cfs cf (dependentOf cf tokens)

/-- The archives that an argument creates, by their functions. -/
@[grind] def cfsOfArg (arg : Text) : List Cf :=
  if "DS:".toList.isPrefixOf arg then []
  else
    match colonTokens (arg.drop 4) with
    | [] => []
    | token :: tokens =>
      match cfOf token with
      | none => []
      | some cf => if IsAutomatic cf tokens then [cf, .seasonal, .devseasonal, .devpredict, .failures] else [cf]

/-- An argument that is not an archive, or an archive that is written with care. -/
def ArgOk (cfs : List Cf) (arg : Text) : Prop :=
  "DS:".toList.isPrefixOf arg = false →
    ∀ token tokens cf, colonTokens (arg.drop 4) = token :: tokens → cfOf token = some cf → TokensOk cfs cf tokens

/-! ### What one token does -/

/-- The consolidation functions that the parser treats alike. -/
inductive CfKind where
  | plain | hwpredict | seasonal | devpredict | failures
deriving DecidableEq

def Cf.kind : Cf → CfKind
  | .hwpredict | .mhwpredict => .hwpredict
  | .seasonal | .devseasonal => .seasonal
  | .devpredict => .devpredict
  | .failures => .failures
  | _ => .plain

/-- The token with the index `tokenIdx` is accepted. -/
inductive RraStep (hash : ℕ) : CfKind → ℕ → Text → RraParse → RraParse → Prop where
  | xff {token st v} : rrdStrtodbl token = .whole v → outsideXff v = false →
    RraStep hash .plain 1 token st { st with rraDef := { st.rraDef with xff := v } }
  | rows {kind token st n} : kind ≠ .plain → 1 ≤ n →
    RraStep hash kind 1 token st { st with rraDef := { st.rraDef with rowCnt := n } }
  | alpha {token st v} : RraStep hash .hwpredict 2 token st { st with rraDef := { st.rraDef with hwAlpha := v } }
  | gamma {token st v} : st.rraDef.rowCnt ≠ 0 →
    RraStep hash .seasonal 2 token st
      { st with rraDef := { st.rraDef with seasonalGamma := v, seasonalSmoothIdx := hash % st.rraDef.rowCnt } }
  | threshold {token st n} : 1 ≤ n →
    RraStep hash .failures 2 token st { st with rraDef := { st.rraDef with failureThreshold := n } }
  | devpredict {token st} :
    RraStep hash .devpredict 2 token st { st with rraDef := { st.rraDef with dependentRraIdx := dependentIdx token } }
  | pdpCnt {token st n} : 1 ≤ n →
    RraStep hash .plain 2 token st { st with rraDef := { st.rraDef with pdpCnt := n } }
  | beta {token st v} : RraStep hash .hwpredict 3 token st { st with rraDef := { st.rraDef with hwBeta := v } }
  | seasonal {token st} :
    RraStep hash .seasonal 3 token st { st with rraDef := { st.rraDef with dependentRraIdx := dependentIdx token } }
  | window {token st n} : st.rraDef.failureThreshold ≤ n → n ≤ maxFailuresWindowLen →
    RraStep hash .failures 3 token st { st with rraDef := { st.rraDef with windowLen := n } }
  | plainRows {token st n} : 1 ≤ n →
    RraStep hash .plain 3 token st { st with rraDef := { st.rraDef with rowCnt := n } }
  | failures {token st} :
    RraStep hash .failures 4 token st { st with rraDef := { st.rraDef with dependentRraIdx := dependentIdx token } }
  | smoothing {token st scanned required} : scanWindow token = some scanned →
    outsideClosed (scanned.getD st.rraDef.smoothingWindow) = false →
    RraStep hash .seasonal 4 token st
      { st with
        rraDef := { st.rraDef with smoothingWindow := scanned.getD st.rraDef.smoothingWindow }
        requireVersion := required }
  | period {token st} :
    RraStep hash .hwpredict 4 token st { st with period := (atoi token % 2 ^ 16).toNat }
  | last {kind token st} :
    RraStep hash kind 5 token st { st with rraDef := { st.rraDef with dependentRraIdx := dependentIdx token } }

lemma rrdScaledDuration_pos {token : Text} {divisor n : ℕ} (h : rrdScaledDuration token divisor = .ok n) : 1 ≤ n := by
  simp only [rrdScaledDuration] at h
  split at h
  case isTrue => cases h
  case isFalse =>
    split at h
    case isTrue => cases h
    case isFalse hdiv =>
      split at h
      case h_1 =>
        split at h
        case isTrue => cases h
        case isFalse hne =>
          cases h
          exact Nat.one_le_iff_ne_zero.2 hne
      case h_2 =>
        split at h
        case h_1 => cases h
        case h_2 seconds _ =>
          split at h
          case isTrue => cases h
          case isFalse hne =>
            split at h
            case isTrue => cases h
            case isFalse hmod =>
              cases h
              have hdvd := Nat.dvd_of_mod_eq_zero (not_not.1 hmod)
              exact Nat.div_pos (Nat.le_of_dvd (Nat.pos_of_ne_zero hne) hdvd) (Nat.pos_of_ne_zero hdiv)

lemma parseFraction_ok {name : String} {refused : RrdValue → Bool} {token : Text} {v : RrdValue}
    (h : parseFraction name refused token = .ok v) : rrdStrtodbl token = .whole v ∧ refused v = false := by
  simp only [parseFraction] at h
  split at h
  case h_1 w hw =>
    split at h
    case isTrue => cases h
    case isFalse hno =>
      cases h
      exact ⟨hw, Bool.eq_false_iff.2 hno⟩
  case h_2 => cases h

lemma parseRowCount_ok {token : Text} {divisor n : ℕ} (h : parseRowCount token divisor = .ok n) : 1 ≤ n := by
  simp only [parseRowCount] at h
  split at h
  case h_1 => cases h
  case h_2 hn =>
    cases h
    exact rrdScaledDuration_pos hn

lemma hashMod_ok {hash n i : ℕ} (h : hashMod hash n = .ok i) : n ≠ 0 ∧ i = hash % n := by
  simp only [hashMod] at h
  split at h
  case isTrue => cases h
  case isFalse hn =>
    cases h
    exact ⟨hn, rfl⟩

variable {pdpStep hash : ℕ} {token : Text} {st st' : RraParse}

lemma rraToken1_step (h : rraToken1 pdpStep token st = .ok st') :
    RraStep hash st.rraDef.cf.kind 1 token st st' := by
  unfold rraToken1 at h
  cases hcf : st.rraDef.cf <;> rw [hcf] at h <;> obtain ⟨v, hv, h⟩ := bind_eq_ok h <;> cases h
  case average | minimum | maximum | last => exact .xff (parseFraction_ok hv).1 (parseFraction_ok hv).2
  all_goals exact .rows (by decide) (parseRowCount_ok hv)

lemma rraToken2_step (h : rraToken2 pdpStep hash token st = .ok st') :
    RraStep hash st.rraDef.cf.kind 2 token st st' := by
  unfold rraToken2 at h
  cases hcf : st.rraDef.cf <;> rw [hcf] at h
  case hwpredict | mhwpredict =>
    obtain ⟨v, -, h⟩ := bind_eq_ok h
    cases h
    exact .alpha
  case seasonal | devseasonal =>
    obtain ⟨v, -, h⟩ := bind_eq_ok h
    obtain ⟨i, hi, h⟩ := bind_eq_ok h
    obtain ⟨hne, rfl⟩ := hashMod_ok hi
    cases h
    exact .gamma hne
  case failures =>
    simp only at h
    split at h
    case isTrue => cases h
    case isFalse hrange =>
      cases h
      exact .threshold (by omega)
  case devpredict =>
    cases h
    exact .devpredict
  all_goals
    simp only at h
    split at h
    case h_1 => cases h
    case h_2 hn =>
      cases h
      exact .pdpCnt (rrdScaledDuration_pos hn)

lemma rraToken3_step (h : rraToken3 pdpStep token st = .ok st') :
    RraStep hash st.rraDef.cf.kind 3 token st st' := by
  unfold rraToken3 at h
  cases hcf : st.rraDef.cf <;> rw [hcf] at h
  case hwpredict | mhwpredict =>
    obtain ⟨v, -, h⟩ := bind_eq_ok h
    cases h
    exact .beta
  case seasonal | devseasonal =>
    cases h
    exact .seasonal
  case failures =>
    simp only at h
    split at h
    case isTrue => cases h
    case isFalse hle =>
      split at h
      case isTrue => cases h
      case isFalse hrange =>
        cases h
        rw [maxFailuresWindowLen] at hrange
        have hlen : u64 (atoi token) = (atoi token).toNat := u64_of_lt (by omega) (by omega)
        exact .window (by omega) (by rw [maxFailuresWindowLen]; omega)
  case devpredict => cases h
  all_goals
    obtain ⟨n, hn, h⟩ := bind_eq_ok h
    cases h
    exact .plainRows (parseRowCount_ok hn)

lemma rraToken4_step (h : rraToken4 token st = .ok st') : RraStep hash st.rraDef.cf.kind 4 token st st' := by
  unfold rraToken4 at h
  cases hcf : st.rraDef.cf <;> rw [hcf] at h
  case hwpredict | mhwpredict =>
    simp only at h
    split at h
    case isTrue => cases h
    case isFalse =>
      cases h
      exact .period
  case seasonal | devseasonal =>
    simp only at h
    split at h
    case h_1 => cases h
    case h_2 scanned hscan =>
      split at h
      case isTrue => cases h
      case isFalse hno =>
        cases h
        exact .smoothing hscan (Bool.eq_false_iff.2 hno)
  case failures =>
    cases h
    exact .failures
  all_goals cases h

/-- Every token that the parser accepts is one of the steps. -/
lemma rraToken_step {tokenIdx : ℕ} (h : rraToken pdpStep hash tokenIdx token st = .ok st') :
    RraStep hash st.rraDef.cf.kind tokenIdx token st st' := by
  unfold rraToken at h
  split at h
  · exact rraToken1_step h
  · exact rraToken2_step h
  · exact rraToken3_step h
  · exact rraToken4_step h
  · cases h
    exact .last
  · cases h

/-- A token does not change the consolidation function. -/
lemma RraStep.cf {kind : CfKind} {tokenIdx : ℕ} (h : RraStep hash kind tokenIdx token st st') :
    st'.rraDef.cf = st.rraDef.cf := by
  cases h <;> rfl

/-! ### What all tokens do -/

/-- A run of the loop over the tokens. -/
inductive RraRun (hash : ℕ) (kind : CfKind) : ℕ → List Text → RraParse → RraParse → Prop where
  | nil {tokenIdx st} : RraRun hash kind tokenIdx [] st st
  | cons {tokenIdx token tokens st st' st''} : RraStep hash kind tokenIdx token st st' →
    RraRun hash kind (tokenIdx + 1) tokens st' st'' → RraRun hash kind tokenIdx (token :: tokens) st st''

lemma rraTokens_run {tokenIdx : ℕ} {tokens : List Text} (h : rraTokens pdpStep hash tokenIdx tokens st = .ok st') :
    RraRun hash st.rraDef.cf.kind tokenIdx tokens st st' := by
  induction tokens generalizing tokenIdx st with
  | nil =>
    cases h
    exact .nil
  | cons token tokens ih =>
    obtain ⟨st₁, h₁, h⟩ := bind_eq_ok h
    have step := rraToken_step h₁
    have run := ih h
    rw [step.cf] at run
    exact .cons step run

/-- What is known of an archive when all its tokens are read. -/
structure RraParse.Read (cf : Cf) (tokens : List Text) (st : RraParse) : Prop where
  cf_eq : st.rraDef.cf = cf
  pdpCnt : 1 ≤ st.rraDef.pdpCnt
  rowCnt : 1 ≤ st.rraDef.rowCnt
  xff : cf.isPlain →
    ∃ token, tokens[0]? = some token ∧ rrdStrtodbl token = .whole st.rraDef.xff ∧ outsideXff st.rraDef.xff = false
  failures : cf = .failures →
    1 ≤ st.rraDef.failureThreshold ∧ st.rraDef.failureThreshold ≤ st.rraDef.windowLen ∧
      st.rraDef.windowLen ≤ maxFailuresWindowLen
  smoothIdx : cf.isSeasonal → st.rraDef.seasonalSmoothIdx < st.rraDef.rowCnt
  window : cf.isSeasonal → outsideClosed st.rraDef.smoothingWindow = false
  windowNan : cf.isSeasonal →
    (st.rraDef.smoothingWindow = .nan ↔ ∃ token, tokens[3]? = some token ∧ scanWindow token = some (some .nan))
  period : cf.isHwpredict → st.period = periodOf tokens
  dependent : st.rraDef.dependentRraIdx = dependentOf cf tokens

variable {cf : Cf} {tokens : List Text} {required : Option ℕ}

lemma read_plain (hcf : cf.kind = .plain) (hmin : 4 ≤ tokens.length + 1)
    (run : RraRun hash .plain 1 tokens ⟨rraDefaults cf, 0, required⟩ st) : st.Read cf tokens := by
  obtain _ | ⟨s₁, _ | ⟨s₂, _ | ⟨s₃, _ | ⟨s₄, -⟩⟩⟩⟩ := run
  case cons.cons.cons.cons => cases s₄
  case cons.cons.cons.nil =>
    cases s₁ with
    | rows hne => exact absurd rfl hne
    | xff hread hrange =>
      cases s₂ with
      | pdpCnt hpdp =>
        cases s₃ with
        | plainRows hrows =>
          cases cf <;> cases hcf
          all_goals exact ⟨rfl, hpdp, hrows, fun _ => ⟨_, rfl, hread, hrange⟩, nofun, nofun, nofun, nofun, nofun, rfl⟩
  all_goals simp at hmin

lemma read_hwpredict (hcf : cf.kind = .hwpredict) (hmin : 5 ≤ tokens.length + 1)
    (run : RraRun hash .hwpredict 1 tokens ⟨rraDefaults cf, 0, required⟩ st) : st.Read cf tokens := by
  obtain _ | ⟨s₁, _ | ⟨s₂, _ | ⟨s₃, _ | ⟨s₄, run⟩⟩⟩⟩ := run
  case cons.cons.cons.cons =>
    cases s₁ with
    | rows _ hrows =>
      cases s₂
      cases s₃
      cases s₄
      obtain _ | ⟨s₅, _ | ⟨s₆, -⟩⟩ := run
      case nil =>
        cases cf <;> cases hcf
        all_goals exact ⟨rfl, le_rfl, hrows, nofun, nofun, nofun, nofun, nofun, fun _ => rfl, rfl⟩
      case cons.nil =>
        cases s₅
        cases cf <;> cases hcf
        all_goals exact ⟨rfl, le_rfl, hrows, nofun, nofun, nofun, nofun, nofun, fun _ => rfl, rfl⟩
      case cons.cons => cases s₆
  all_goals simp at hmin

lemma read_devpredict (hcf : cf.kind = .devpredict) (hmin : 3 ≤ tokens.length + 1)
    (run : RraRun hash .devpredict 1 tokens ⟨rraDefaults cf, 0, required⟩ st) : st.Read cf tokens := by
  obtain _ | ⟨s₁, _ | ⟨s₂, _ | ⟨s₃, -⟩⟩⟩ := run
  case cons.cons.cons => cases s₃
  case cons.cons.nil =>
    cases s₁ with
    | rows _ hrows =>
      cases s₂
      cases cf <;> cases hcf
      exact ⟨rfl, le_rfl, hrows, nofun, nofun, nofun, nofun, nofun, nofun, rfl⟩
  all_goals simp at hmin

lemma read_failures (hcf : cf.kind = .failures) (hmin : 5 ≤ tokens.length + 1)
    (run : RraRun hash .failures 1 tokens ⟨rraDefaults cf, 0, required⟩ st) : st.Read cf tokens := by
  obtain _ | ⟨s₁, _ | ⟨s₂, _ | ⟨s₃, _ | ⟨s₄, run⟩⟩⟩⟩ := run
  case cons.cons.cons.cons =>
    cases s₁ with
    | rows _ hrows =>
      cases s₂ with
      | threshold hpos =>
        cases s₃ with
        | window hle hmax =>
          cases s₄
          obtain _ | ⟨s₅, _ | ⟨s₆, -⟩⟩ := run
          case nil =>
            cases cf <;> cases hcf
            exact ⟨rfl, le_rfl, hrows, nofun, fun _ => ⟨hpos, hle, hmax⟩, nofun, nofun, nofun, nofun, rfl⟩
          case cons.nil =>
            cases s₅
            cases cf <;> cases hcf
            exact ⟨rfl, le_rfl, hrows, nofun, fun _ => ⟨hpos, hle, hmax⟩, nofun, nofun, nofun, nofun, rfl⟩
          case cons.cons => cases s₆
  all_goals simp at hmin

/-- The window is the default one, or it is read from its token. -/
lemma windowNan_iff {scanned : Option RrdValue} {d : RrdValue} (hd : d ≠ .nan) (hscan : scanWindow token = some scanned) :
    scanned.getD d = .nan ↔ scanWindow token = some (some .nan) := by
  rw [hscan]
  cases scanned with
  | none => simpa using hd
  | some v => simp

lemma read_seasonal (hcf : cf.kind = .seasonal) (hmin : 3 ≤ tokens.length + 1)
    (run : RraRun hash .seasonal 1 tokens ⟨rraDefaults cf, 0, required⟩ st) : st.Read cf tokens := by
  have hclosed : outsideClosed (.fin (1 / 20)) = false := by decide +kernel
  have hdefault : (.fin (1 / 20) : RrdValue) ≠ .nan := by simp
  have hrange : ∀ n : ℕ, n ≠ 0 → hash % n < n := fun n hn => Nat.mod_lt _ (Nat.pos_of_ne_zero hn)
  obtain _ | ⟨s₁, _ | ⟨s₂, run⟩⟩ := run
  case cons.cons =>
    cases s₁ with
    | rows _ hrows =>
      cases s₂ with
      | gamma hne =>
        obtain _ | ⟨s₃, _ | ⟨s₄, run⟩⟩ := run
        case nil =>
          cases cf <;> cases hcf
          all_goals
            refine ⟨rfl, le_rfl, hrows, nofun, nofun, fun _ => hrange _ hne, fun _ => hclosed, fun _ => ?_, nofun, rfl⟩
            simp [rraDefaults]
        case cons.nil =>
          cases s₃
          cases cf <;> cases hcf
          all_goals
            refine ⟨rfl, le_rfl, hrows, nofun, nofun, fun _ => hrange _ hne, fun _ => hclosed, fun _ => ?_, nofun, rfl⟩
            simp [rraDefaults]
        case cons.cons =>
          cases s₃
          cases s₄ with
          | smoothing hscan hout =>
            obtain _ | ⟨s₅, _ | ⟨s₆, -⟩⟩ := run
            case nil =>
              cases cf <;> cases hcf
              all_goals
                refine ⟨rfl, le_rfl, hrows, nofun, nofun, fun _ => hrange _ hne, fun _ => hout, fun _ => ?_, nofun, rfl⟩
                exact (windowNan_iff hdefault hscan).trans (by simp)
            case cons.nil =>
              cases s₅
              cases cf <;> cases hcf
              all_goals
                refine ⟨rfl, le_rfl, hrows, nofun, nofun, fun _ => hrange _ hne, fun _ => hout, fun _ => ?_, nofun, rfl⟩
                exact (windowNan_iff hdefault hscan).trans (by simp)
            case cons.cons => cases s₆
  all_goals simp at hmin

/-- The least number of tokens of a kind. -/
def CfKind.tokenMin : CfKind → ℕ
  | .plain => 4
  | .hwpredict | .failures => 5
  | .seasonal | .devpredict => 3

lemma kind_tokenMin_le (cf : Cf) : cf.kind.tokenMin ≤ tokenMin cf := by cases cf <;> decide

lemma parseCf_ok (h : parseCf token = .ok cf) : cfOf token = some cf := by
  simp only [parseCf] at h
  split at h
  case isTrue => cases h
  case isFalse =>
    split at h
    case h_1 => cases h
    case h_2 hcf =>
      cases h
      exact hcf

lemma parseRRA_read {arg : Text} (h : parseRRA pdpStep hash required arg = .ok st) :
    ∃ token tokens cf, colonTokens (arg.drop 4) = token :: tokens ∧ cfOf token = some cf ∧ st.Read cf tokens := by
  simp only [parseRRA] at h
  split at h
  case h_1 => cases h
  case h_2 token tokens htokens =>
    obtain ⟨cf, hcf, h⟩ := bind_eq_ok h
    obtain ⟨st₁, h₁, h⟩ := bind_eq_ok h
    split at h
    case isTrue => cases h
    case isFalse hmin =>
      cases h
      have run := rraTokens_run h₁
      have hkind : (rraDefaults cf).cf.kind = cf.kind := by cases cf <;> rfl
      simp only [hkind] at run
      refine ⟨token, tokens, cf, htokens, parseCf_ok hcf, ?_⟩
      have hlen := (kind_tokenMin_le cf).trans (Nat.le_of_not_lt hmin)
      cases hk : cf.kind <;> rw [hk] at run hlen
      case plain => exact read_plain hk hlen run
      case hwpredict => exact read_hwpredict hk hlen run
      case seasonal => exact read_seasonal hk hlen run
      case devpredict => exact read_devpredict hk hlen run
      case failures => exact read_failures hk hlen run

/-! ### No token divides by zero -/

lemma noFault_parseFraction (name : String) (refused : RrdValue → Bool) (token : Text) :
    NoFault (parseFraction name refused token) := by
  unfold parseFraction
  split
  · split <;> trivial
  · trivial

lemma noFault_parseRowCount (token : Text) (divisor : ℕ) : NoFault (parseRowCount token divisor) := by
  unfold parseRowCount
  split <;> trivial

lemma noFault_rraToken {tokenIdx : ℕ}
    (h : tokenIdx = 2 → st.rraDef.cf.kind = .seasonal → st.rraDef.rowCnt ≠ 0) :
    NoFault (rraToken pdpStep hash tokenIdx token st) := by
  unfold rraToken
  split
  · unfold rraToken1
    cases st.rraDef.cf
    case average | minimum | maximum | last => exact (safe_bind _ _).2 (noFault_parseFraction ..)
    all_goals exact (safe_bind _ _).2 (noFault_parseRowCount ..)
  · unfold rraToken2
    cases hcf : st.rraDef.cf
    case hwpredict | mhwpredict => exact (safe_bind _ _).2 (noFault_parseFraction ..)
    case seasonal | devseasonal =>
      refine (safe_bind _ _).2 ((noFault_parseFraction ..).mono fun v _ => (safe_bind _ _).2 ?_)
      rw [hashMod, if_neg (h rfl (by rw [hcf]; rfl))]
      trivial
    case failures =>
      dsimp only
      split <;> trivial
    case devpredict => trivial
    all_goals
      dsimp only
      split <;> trivial
  · unfold rraToken3
    cases st.rraDef.cf
    case hwpredict | mhwpredict => exact (safe_bind _ _).2 (noFault_parseFraction ..)
    case failures =>
      dsimp only
      split
      · trivial
      · split <;> trivial
    case seasonal | devseasonal | devpredict => trivial
    all_goals exact (safe_bind _ _).2 (noFault_parseRowCount ..)
  · unfold rraToken4
    cases st.rraDef.cf
    case hwpredict | mhwpredict =>
      dsimp only
      split <;> trivial
    case seasonal | devseasonal =>
      dsimp only
      split
      · trivial
      · split <;> trivial
    all_goals trivial
  · trivial
  · trivial

lemma noFault_rraTokens {tokenIdx : ℕ} (hidx : tokenIdx ≠ 0)
    (h : tokenIdx = 2 → st.rraDef.cf.kind = .seasonal → st.rraDef.rowCnt ≠ 0) :
    NoFault (rraTokens pdpStep hash tokenIdx tokens st) := by
  induction tokens generalizing tokenIdx st with
  | nil => trivial
  | cons token tokens ih =>
    refine (safe_bind _ _).2 ((noFault_rraToken h).safe fun st₁ h₁ => ?_)
    refine ih (Nat.succ_ne_zero _) fun h2 hkind => ?_
    have step := rraToken_step h₁
    rw [step.cf] at hkind
    rw [hkind] at step
    obtain rfl : tokenIdx = 1 := by omega
    cases step with
    | rows _ hrows => exact Nat.one_le_iff_ne_zero.1 hrows

lemma noFault_parseRRA (arg : Text) : NoFault (parseRRA pdpStep hash required arg) := by
  unfold parseRRA
  split
  case h_1 => trivial
  case h_2 token tokens _ =>
    have hcf : NoFault (parseCf token) := by
      unfold parseCf
      dsimp only
      split
      · trivial
      · split <;> trivial
    refine (safe_bind _ _).2 (hcf.mono fun cf _ => (safe_bind _ _).2 ?_)
    refine (noFault_rraTokens one_ne_zero (by simp)).mono fun st _ => ?_
    split <;> trivial

/-! ### One archive -/

lemma xff_iff {v : RrdValue} (h : outsideXff v = false) : (∃ q : ℚ, v = .fin q ∧ 0 ≤ q ∧ q < 1) ↔ v ≠ .nan := by
  simp only [outsideXff, decide_eq_false_iff_not, not_or] at h
  cases v with
  | nan => simp
  | ninf => exact absurd (show (ExtNum.ninf : RrdValue) < 0 from rfl) h.1
  | pinf => exact absurd (show (.fin 1 : RrdValue) < .pinf from rfl) h.2.2
  | fin q =>
    have h0 : ¬ q < 0 := fun hq => h.1 ((ExtNum.fin_lt_fin q 0).2 hq)
    have h1 : ¬ 1 < q := fun hq => h.2.2 ((ExtNum.fin_lt_fin 1 q).2 hq)
    have hne : q ≠ 1 := fun hq => h.2.1 (by rw [hq])
    exact iff_of_true ⟨q, rfl, not_lt.1 h0, lt_of_le_of_ne (not_lt.1 h1) hne⟩ nofun

lemma closed_iff {v : RrdValue} (h : outsideClosed v = false) :
    (∃ q : ℚ, v = .fin q ∧ 0 ≤ q ∧ q ≤ 1) ↔ v ≠ .nan := by
  simp only [outsideClosed, decide_eq_false_iff_not, not_or] at h
  cases v with
  | nan => simp
  | ninf => exact absurd (show (ExtNum.ninf : RrdValue) < 0 from rfl) h.1
  | pinf => exact absurd (show (.fin 1 : RrdValue) < .pinf from rfl) h.2
  | fin q =>
    have h0 : ¬ q < 0 := fun hq => h.1 ((ExtNum.fin_lt_fin q 0).2 hq)
    have h1 : ¬ 1 < q := fun hq => h.2 ((ExtNum.fin_lt_fin 1 q).2 hq)
    exact iff_of_true ⟨q, rfl, not_lt.1 h0, not_lt.1 h1⟩ nofun

variable {cfs : List Cf}

/-- An archive whose contingent archives are not created with it. -/
lemma RraParse.Read.wellFormed_iff (h : st.Read cf tokens) (hauto : ¬ IsAutomatic cf tokens) :
    st.rraDef.WellFormed cfs ↔ TokensOk cfs cf tokens := by
  constructor
  · intro hwf
    refine ⟨fun hcf token htoken hnan => ?_, fun hcf token htoken hnan => ?_, fun h => absurd h hauto, fun _ => ?_⟩
    · obtain ⟨token', htoken', hread, hout⟩ := h.xff hcf
      rw [htoken] at htoken'
      cases htoken'
      refine (xff_iff hout).1 (hwf.xff (h.cf_eq ▸ hcf)) ?_
      exact (Strtodbl.whole.inj (hnan.symm.trans hread)).symm
    · exact (closed_iff (h.window hcf)).1 (hwf.smoothingWindow (h.cf_eq ▸ hcf))
        ((h.windowNan hcf).2 ⟨token, htoken, hnan⟩)
    · rw [← h.dependent, ← h.cf_eq]
      exact hwf.dependent
  · intro hok
    refine ⟨h.pdpCnt, h.rowCnt, fun hcf => ?_, fun hcf => h.failures (h.cf_eq ▸ hcf),
      fun hcf => h.smoothIdx (h.cf_eq ▸ hcf), fun hcf => ?_, ?_⟩
    · rw [h.cf_eq] at hcf
      obtain ⟨token, htoken, hread, hout⟩ := h.xff hcf
      exact (xff_iff hout).2 fun hnan => hok.xff hcf token htoken (hnan ▸ hread)
    · rw [h.cf_eq] at hcf
      refine (closed_iff (h.window hcf)).2 fun hnan => ?_
      obtain ⟨token, htoken, hscan⟩ := (h.windowNan hcf).1 hnan
      exact hok.smoothingWindow hcf token htoken hscan
    · rw [h.cf_eq, h.dependent]
      exact hok.dependent hauto

lemma isHwpredict_iff : cf.isHwpredict ↔ cf = .hwpredict ∨ cf = .mhwpredict := by
  cases cf <;> simp [Cf.isHwpredict]

/-- The archives that are created together. -/
lemma automatic_wellFormed (hash : ℕ) {pre : List Cf} (h : st.Read cf tokens) (hcf : cf.isHwpredict) (hpos : st.period ≠ 0)
    (hpre : pre ++ [cf, .seasonal, .devseasonal, .devpredict, .failures] <+: cfs) :
    ∀ rra ∈ { st.rraDef with dependentRraIdx := pre.length + 1 } ::
      createHwContingentRras pre.length st.period (hash % st.period) st.rraDef, rra.WellFormed cfs := by
  obtain ⟨post, rfl⟩ := hpre
  have hget : ∀ i cf', [cf, .seasonal, .devseasonal, .devpredict, .failures][i]? = some cf' →
      (pre ++ [cf, .seasonal, .devseasonal, .devpredict, .failures] ++ post)[pre.length + i]? = some cf' := by
    intro i cf' hi
    rw [List.append_assoc, List.getElem?_append_right (Nat.le_add_right _ _), Nat.add_sub_cancel_left]
    exact (List.getElem?_append_left (List.getElem?_eq_some_iff.1 hi).1).trans hi
  have hlt : hash % st.period < st.period := Nat.mod_lt _ (Nat.pos_of_ne_zero hpos)
  have hone : 1 ≤ st.period := Nat.one_le_iff_ne_zero.2 hpos
  have hzero : ∃ q : ℚ, (ExtNum.fin 0 : RrdValue) = .fin q ∧ 0 ≤ q ∧ q ≤ 1 := ⟨0, rfl, le_rfl, zero_le_one⟩
  have hwindow : 1 ≤ 7 ∧ 7 ≤ 9 ∧ 9 ≤ maxFailuresWindowLen := by decide
  have hhw : ∀ expected, some [Cf.hwpredict, .mhwpredict] = some expected → ∃ cf' ∈ expected,
      (pre ++ [cf, .seasonal, .devseasonal, .devpredict, .failures] ++ post)[pre.length]? = some cf' := by
    intro expected he
    cases he
    refine ⟨cf, ?_, hget 0 cf rfl⟩
    obtain rfl | rfl := isHwpredict_iff.1 hcf <;> decide
  have hdev : ∀ expected, some [Cf.devseasonal] = some expected → ∃ cf' ∈ expected,
      (pre ++ [cf, .seasonal, .devseasonal, .devpredict, .failures] ++ post)[pre.length + 2]? = some cf' := by
    intro expected he
    cases he
    exact ⟨_, List.mem_singleton_self _, hget 2 _ rfl⟩
  simp only [createHwContingentRras, List.forall_mem_cons]
  refine ⟨⟨h.pdpCnt, h.rowCnt, ?_, ?_, ?_, ?_, ?_⟩, ⟨le_rfl, hone, nofun, nofun, fun _ => hlt, fun _ => hzero, hhw⟩,
    ⟨le_rfl, hone, nofun, nofun, fun _ => hlt, fun _ => hzero, hhw⟩, ⟨le_rfl, h.rowCnt, nofun, nofun, nofun, nofun, hdev⟩,
    ⟨le_rfl, hone, nofun, fun _ => hwindow, nofun, nofun, hdev⟩, List.forall_mem_nil _⟩
  -- the parameters of the other kinds do not concern the first one
  case refine_5 =>
    intro expected he
    refine ⟨.seasonal, ?_, hget 1 _ rfl⟩
    simp only [h.cf_eq] at he
    obtain rfl | rfl := isHwpredict_iff.1 hcf <;> cases he <;> exact List.mem_singleton_self _
  all_goals
    simp only [h.cf_eq]
    obtain rfl | rfl := isHwpredict_iff.1 hcf <;> exact nofun

lemma argOk_iff {arg : Text} (hds : "DS:".toList.isPrefixOf arg = false)
    (htokens : colonTokens (arg.drop 4) = token :: tokens) (hcf : cfOf token = some cf) :
    ArgOk cfs arg ↔ TokensOk cfs cf tokens := by
  constructor
  · exact fun h => h hds token tokens cf htokens hcf
  · intro h _ token' tokens' cf' htokens' hcf'
    cases htokens.symm.trans htokens'
    cases hcf.symm.trans hcf'
    exact h

/-- The archives of one argument: they follow those that are there, or their period is zero. -/
lemma handleDependentRras_cases {arg : Text} (rras : List RraDef) (hds : "DS:".toList.isPrefixOf arg = false)
    (h : parseRRA pdpStep hash required arg = .ok st) :
    (∃ new, handleDependentRras hash rras st = .ok (rras ++ new) ∧ new.map (·.cf) = cfsOfArg arg ∧
      ∀ cfs, rras.map (·.cf) ++ cfsOfArg arg <+: cfs → ((∀ rra ∈ new, rra.WellFormed cfs) ↔ ArgOk cfs arg)) ∨
    handleDependentRras hash rras st = .error (.fault .mk) ∧ ∀ cfs, ¬ ArgOk cfs arg := by
  obtain ⟨token, tokens, cf, htokens, hcf, hread⟩ := parseRRA_read h
  have harg : ∀ cfs, ArgOk cfs arg ↔ TokensOk cfs cf tokens := fun cfs => argOk_iff hds htokens hcf
  have hauto : (st.rraDef.cf.isHwpredict ∧ st.rraDef.dependentRraIdx = intMax) ↔ IsAutomatic cf tokens := by
    rw [hread.cf_eq, hread.dependent]
    exact Iff.rfl
  have hcfs : cfsOfArg arg =
      if IsAutomatic cf tokens then [cf, .seasonal, .devseasonal, .devpredict, .failures] else [cf] := by
    simp only [cfsOfArg, hds, htokens, hcf, Bool.false_eq_true, if_false]
  by_cases ha : IsAutomatic cf tokens
  · have hperiod := hread.period ha.1
    simp only [handleDependentRras, hauto, ha, if_true, hashMod]
    rw [hcfs, if_pos ha]
    by_cases hzero : st.period = 0
    · right
      rw [if_pos hzero]
      exact ⟨rfl, fun cfs hok => ((harg cfs).1 hok).period ha (hperiod ▸ hzero)⟩
    · left
      rw [if_neg hzero]
      refine ⟨_, rfl, by simp [createHwContingentRras, plainRra, hread.cf_eq], fun cfs hpre => ?_⟩
      have hwf := automatic_wellFormed hash hread ha.1 hzero hpre
      rw [List.length_map] at hwf
      refine iff_of_true hwf ((harg cfs).2 ⟨?_, ?_, fun _ => hperiod ▸ hzero, fun hna => absurd ha hna⟩)
      all_goals
        intro hkind
        obtain rfl | rfl := isHwpredict_iff.1 ha.1 <;> cases hkind
  · left
    refine ⟨[st.rraDef], ?_, ?_, fun cfs _ => ?_⟩
    · simp only [handleDependentRras, hauto, ha, if_false]
    · rw [hcfs, if_neg ha, List.map_singleton, hread.cf_eq]
    · rw [List.forall_mem_singleton, harg cfs]
      exact hread.wellFormed_iff ha

/-! ### All arguments -/

/-- What the arguments add to the header: data sources with new names, and archives. -/
structure Extends (argv : List Text) (rrd rrd' : NewRrd) (new : List RraDef) : Prop where
  pdpStep : rrd'.pdpStep = rrd.pdpStep
  names : rrd.names.Nodup → rrd'.names.Nodup
  rra : rrd'.rra = rrd.rra ++ new
  cfs : new.map (·.cf) = argv.flatMap cfsOfArg
  wellFormed : ∀ cfs, rrd.cfs ++ argv.flatMap cfsOfArg <+: cfs →
    ((∀ rra ∈ new, rra.WellFormed cfs) ↔ ∀ arg ∈ argv, ArgOk cfs arg)

lemma parseDS_name {names : List Text} {s : Text} {d : DsDef} (h : (parseDS names s).2 = .ok d) :
    d.dsNam = (parseDS names s).1 := by
  unfold parseDS at h ⊢
  cases hre : matchDsRe s with
  | none =>
    rw [hre] at h
    cases h
  | some r =>
    obtain ⟨dsNam, dst, args⟩ := r
    rw [hre] at h
    simp only [parseDst] at h
    split at h
    case h_1 => cases h
    case h_2 =>
      split at h
      · cases h
      · cases h
        rfl
    case h_3 =>
      split at h
      · cases h
      · cases h
        rfl

lemma addDs_extends {rrd rrd' : NewRrd} {arg : Text} (hds : "DS:".toList.isPrefixOf arg = true)
    (h : addDs rrd (arg.drop 3) = .ok rrd') : Extends [arg] rrd rrd' [] := by
  have hcfs : cfsOfArg arg = [] := by simp only [cfsOfArg, hds, if_true]
  have hok : ∀ cfs, ArgOk cfs arg := fun cfs hno => by
    rw [hds] at hno
    cases hno
  simp only [addDs] at h
  split at h
  case isTrue => cases h
  case isFalse hdup =>
    split at h
    case h_1 => cases h
    case h_2 d hd =>
      cases h
      have hname := parseDS_name hd
      have hnew : d.dsNam ∉ rrd.names := by
        rw [hname]
        simpa [lookupDS, List.findIdx?_isSome] using hdup
      refine ⟨rfl, fun hnodup => ?_, (List.append_nil _).symm, by simp [hcfs], fun cfs _ => ?_⟩
      · simp only [NewRrd.names, List.map_append, List.map_singleton]
        exact List.nodup_append_comm.1 (List.nodup_cons.2 ⟨hnew, hnodup⟩)
      · simpa using hok cfs

/-- One argument extends the header, is refused, or divides by a period that is zero. -/
lemma createArg_cases (hash : ℕ) (rrd : NewRrd) (arg : Text) :
    (∃ rrd' new, createArg hash rrd arg = .ok rrd' ∧ Extends [arg] rrd rrd' new) ∨
    (∃ e, createArg hash rrd arg = .error (.error e)) ∨
    createArg hash rrd arg = .error (.fault .mk) ∧ ∀ cfs, ¬ ArgOk cfs arg := by
  unfold createArg
  cases hds : "DS:".toList.isPrefixOf arg with
  | true =>
    simp only [if_true]
    cases h : addDs rrd (arg.drop 3) with
    | ok rrd' => exact .inl ⟨rrd', [], rfl, addDs_extends hds h⟩
    | error e =>
      obtain e | f := e
      · exact .inr (.inl ⟨e, rfl⟩)
      · simp only [addDs] at h
        split at h
        · cases h
        · split at h <;> cases h
  | false =>
    simp only [Bool.false_eq_true, if_false]
    split
    case isFalse => exact .inr (.inl ⟨_, rfl⟩)
    case isTrue =>
      have hno : NoFault (parseRRA rrd.pdpStep hash rrd.requireVersion arg) := noFault_parseRRA arg
      cases h : parseRRA rrd.pdpStep hash rrd.requireVersion arg with
      | error e =>
        rw [h] at hno
        obtain e | f := e
        · exact .inr (.inl ⟨e, rfl⟩)
        · exact absurd hno (not_safe_fault f)
      | ok st =>
        obtain ⟨new, hok, hcfs, hwf⟩ | ⟨hfault, hbad⟩ := handleDependentRras_cases rrd.rra hds h
        · refine .inl ⟨{ rrd with rra := rrd.rra ++ new, requireVersion := st.requireVersion }, new,
            by rw [ok_bind, hok]; rfl, rfl, id, rfl, by simpa using hcfs, fun cfs hpre => ?_⟩
          rw [List.forall_mem_singleton]
          exact hwf cfs (by simpa [NewRrd.cfs] using hpre)
        · exact .inr (.inr ⟨by rw [ok_bind, hfault]; rfl, hbad⟩)

lemma Extends.trans {arg : Text} {argv : List Text} {rrd rrd₁ rrd₂ : NewRrd} {new₁ new₂ : List RraDef}
    (h₁ : Extends [arg] rrd rrd₁ new₁) (h₂ : Extends argv rrd₁ rrd₂ new₂) :
    Extends (arg :: argv) rrd rrd₂ (new₁ ++ new₂) := by
  have hcfs₁ : new₁.map (·.cf) = cfsOfArg arg := by simpa using h₁.cfs
  have hrrd₁ : rrd₁.cfs = rrd.cfs ++ cfsOfArg arg := by
    rw [NewRrd.cfs, h₁.rra, List.map_append, hcfs₁]
    rfl
  refine ⟨h₂.pdpStep.trans h₁.pdpStep, fun h => h₂.names (h₁.names h), ?_, ?_, fun cfs hpre => ?_⟩
  · rw [h₂.rra, h₁.rra, List.append_assoc]
  · rw [List.map_append, hcfs₁, h₂.cfs, List.flatMap_cons]
  · rw [List.flatMap_cons, ← List.append_assoc] at hpre
    rw [List.forall_mem_append, List.forall_mem_cons, h₂.wellFormed cfs (hrrd₁ ▸ hpre),
      h₁.wellFormed cfs (by simpa using (List.prefix_append _ _).trans hpre), List.forall_mem_singleton]

/-- All arguments extend the header, one is refused, or one divides by a period that is zero. -/
lemma createArgs_cases (hash : ℕ) (argv : List Text) (rrd : NewRrd) :
    (∃ rrd' new, argv.foldlM (createArg hash) rrd = .ok rrd' ∧ Extends argv rrd rrd' new) ∨
    (∃ e, argv.foldlM (createArg hash) rrd = .error (.error e)) ∨
    argv.foldlM (createArg hash) rrd = .error (.fault .mk) ∧ ∀ cfs, ∃ arg ∈ argv, ¬ ArgOk cfs arg := by
  induction argv generalizing rrd with
  | nil => exact .inl ⟨rrd, [], rfl, rfl, id, (List.append_nil _).symm, rfl, fun cfs _ => by simp⟩
  | cons arg argv ih =>
    rw [List.foldlM_cons]
    obtain ⟨rrd₁, new₁, h₁, hext₁⟩ | ⟨e, h₁⟩ | ⟨h₁, hbad⟩ := createArg_cases hash rrd arg
    · rw [h₁, ok_bind]
      obtain ⟨rrd₂, new₂, h₂, hext₂⟩ | h₂ | ⟨h₂, hbad⟩ := ih rrd₁
      · exact .inl ⟨rrd₂, new₁ ++ new₂, h₂, hext₁.trans hext₂⟩
      · exact .inr (.inl h₂)
      · refine .inr (.inr ⟨h₂, fun cfs => ?_⟩)
        obtain ⟨arg', harg', hno⟩ := hbad cfs
        exact ⟨arg', List.mem_cons_of_mem arg harg', hno⟩
    · exact .inr (.inl ⟨e, by rw [h₁]; rfl⟩)
    · exact .inr (.inr ⟨by rw [h₁]; rfl, fun cfs => ⟨arg, List.mem_cons_self, hbad cfs⟩⟩)

/-- Arguments that are not refused make a well-formed header, and divide by nothing that is zero, exactly if every
archive is written with care. -/
theorem rrdCreateR2_wellFormed_iff (filename : Text) (pdpStep : ℕ) (lastUp now : ℤ) (argv : List Text)
    (haccepted : ∀ e, rrdCreateR2 filename pdpStep lastUp now argv ≠ .error (.error e)) :
    Safe NewRrd.WellFormed (rrdCreateR2 filename pdpStep lastUp now argv) ↔
      ∀ arg ∈ argv, ArgOk (argv.flatMap cfsOfArg) arg := by
  unfold rrdCreateR2 at haccepted ⊢
  dsimp only at haccepted ⊢
  obtain ⟨rrd, new, h, hext⟩ | ⟨e, h⟩ | ⟨h, hbad⟩ := createArgs_cases (fnvHash filename) argv
    ⟨3, if pdpStep = 0 then 300 else pdpStep, if 0 < lastUp then lastUp else now - 10, [], [], none⟩
  · rw [h, ok_bind] at haccepted ⊢
    have hrra : rrd.rra = new := hext.rra
    have hstep : 1 ≤ rrd.pdpStep := by
      rw [hext.pdpStep]
      dsimp only
      split <;> omega
    split at haccepted
    case isTrue => exact absurd rfl (haccepted _)
    case isFalse hne =>
      rw [if_neg hne]
      split at haccepted
      case isTrue => exact absurd rfl (haccepted _)
      case isFalse hds =>
        rw [if_neg hds]
        have hall := hext.wellFormed (argv.flatMap cfsOfArg) (List.prefix_refl _)
        rw [← hall, safe_pure]
        have hcfs : rrd.cfs = argv.flatMap cfsOfArg := by rw [NewRrd.cfs, hrra, hext.cfs]
        constructor
        · intro hwf
          rw [← hcfs, ← hrra]
          exact hwf.rra
        · intro hwf
          rw [← hcfs, ← hrra] at hwf
          exact ⟨hstep, hwf, hext.names List.nodup_nil⟩
  · exact absurd (by rw [h]; rfl) (haccepted e)
  · rw [h]
    refine iff_of_false id fun hall => ?_
    obtain ⟨arg, harg, hno⟩ := hbad (argv.flatMap cfsOfArg)
    exact hno (hall arg harg)

example : (rrdCreateR2 ['x'] 300 1000 0 ["DS:a:GAUGE:600:U:U".toList, "RRA:AVERAGE:0.5:1:10".toList]).toOption.isSome := by
  decide +kernel

/-- A data source and archives for a forecast, which are all created with the first. -/
def hwArguments : List Text := ["DS:a:GAUGE:600:U:U".toList, "RRA:HWPREDICT:10:0.1:0.0035:5".toList]

theorem rrdCreateR2_wellFormed_iff_hw :
    (∀ e, rrdCreateR2 ['x'] 300 1000 0 hwArguments ≠ .error (.error e)) ∧
      (Safe NewRrd.WellFormed (rrdCreateR2 ['x'] 300 1000 0 hwArguments) ↔
        ∀ arg ∈ hwArguments, ArgOk (hwArguments.flatMap cfsOfArg) arg) := by
  have hok : (rrdCreateR2 ['x'] 300 1000 0 hwArguments).toOption.isSome := by decide +kernel
  have haccepted : ∀ e, rrdCreateR2 ['x'] 300 1000 0 hwArguments ≠ .error (.error e) := fun e he => by
    rw [he] at hok
    cases hok
  exact ⟨haccepted, rrdCreateR2_wellFormed_iff ['x'] 300 1000 0 hwArguments haccepted⟩

/-- An archive that demands that `nan` of its steps are known. -/
def nanArguments : List Text := ["DS:a:GAUGE:600:U:U".toList, "RRA:AVERAGE:nan:1:10".toList]

/-- A period of zero. -/
def zeroPeriodArguments : List Text := ["DS:a:GAUGE:600:U:U".toList, "RRA:HWPREDICT:10:0.1:0.0035:0".toList]

/-- A fraction that is not a number is accepted, and a period of zero is divided by. -/
theorem rrdCreateR2_accepts_nan :
    (∃ rrd, rrdCreateR2 ['x'] 300 1000 0 nanArguments = .ok rrd ∧ ¬ rrd.WellFormed) ∧
      rrdCreateR2 ['x'] 300 1000 0 zeroPeriodArguments = .error (.fault .mk) := by
  refine ⟨?_, by decide +kernel⟩
  have hok : ∃ rrd, rrdCreateR2 ['x'] 300 1000 0 nanArguments = .ok rrd ∧
      rrd.rra = [{ plainRra .average 10 1 0 with xff := .nan }] :=
    ⟨⟨3, 300, 1000, [gaugeDs ['a'] 600], [{ plainRra .average 10 1 0 with xff := .nan }], none⟩,
      by decide +kernel, rfl⟩
  obtain ⟨rrd, h, hrra⟩ := hok
  refine ⟨rrd, h, fun hwf => ?_⟩
  have hmem : { plainRra .average 10 1 0 with xff := .nan } ∈ rrd.rra := hrra ▸ List.mem_singleton_self _
  obtain ⟨q, hq, -⟩ := (hwf.rra _ hmem).xff rfl
  cases hq

end Rrdtool
