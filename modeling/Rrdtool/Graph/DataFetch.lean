import Rrdtool.Lib.CInt
import Rrdtool.Strtol

/-!
# The data of the DEFs of a graph

Port of `data_fetch`, `rrd_reduce_data` (`src/rrd_graph.c`), `gdes_fetch_key` (`src/rrd_graph.h`) and
`rrd_fetch_empty` (`src/rrd_fetch.c`). What a file or a daemon answers is a parameter `fetch`.

Data that were fetched are kept under a key, a text of eight fields, and a later DEF with that key gets the same
data. `dataFetch_alone_iff` says for which DEFs this can not be seen.
-/

namespace Rrdtool

/-- A request to a file or a daemon. -/
structure FetchRequest where
  rrd : Text
  daemon : Text
  cf : Cf
  start : ℤ
  endTime : ℤ
  step : ℕ
  step_lt : step < 2 ^ 64 := by decide
deriving DecidableEq

/-- The data of a DEF, row by row. -/
structure FetchedData where
  start : ℤ
  endTime : ℤ
  step : ℕ
  dsNamv : List Text
  data : List (List RrdValue)
  step_pos : 0 < step
deriving DecidableEq

/-- A DEF before its data are fetched: the request, the name of the data source, and the CF that was given for the
reduction. -/
structure DefElem where
  request : FetchRequest
  dsNam : Text
  reduce : Option Cf
deriving DecidableEq

/-- The fields of the image that are read: the step of the image now and when the DEFs were made, and the flag
`ALLOW_MISSING_DS`. -/
structure Image where
  step : ℕ
  stepOrig : ℕ
  allowMissingDs : Bool
  step_lt : step < 2 ^ 64 := by decide

/-! ### `rrd_reduce_data` -/

/-- The ways to consolidate values, the branches of the `switch`. -/
inductive ReduceKind where
  | average
  | minimum
  | maximum
  | last
deriving DecidableEq

def reduceKind : Cf → ReduceKind
  | .hwpredict | .mhwpredict | .devseasonal | .devpredict | .seasonal | .average => .average
  | .minimum => .minimum
  | .failures | .maximum => .maximum
  | .last => .last

/-- One more value of an interval. -/
def addValue (kind : ReduceKind) (newval val : RrdValue) : RrdValue :=
  match kind with
  | .average => newval + val
  | .minimum => if newval < val then newval else val
  | .maximum => if val < newval then newval else val
  | .last => val

/-- The value of an interval and the number of its known values. -/
@[grind] def combineStep (kind : ReduceKind) (acc : RrdValue × ℕ) (val : RrdValue) : RrdValue × ℕ :=
  if val.isnan then acc
  else (if acc.1.isnan then val else addValue kind acc.1 val, acc.2 + 1)

/-- The value of an interval. -/
@[grind] def combine (kind : ReduceKind) (vals : List RrdValue) : RrdValue :=
  let acc := vals.foldl (combineStep kind) (.nan, 0)
  if acc.2 = 0 then .nan
  else
    match kind with
    | .average => acc.1 / .fin acc.2
    | _ => acc.1

/-- `reduce_factor`. -/
def reduceFactor (curStep step : ℕ) : ℕ := (step + curStep - 1) / curStep

/-- The times of the reduced data: the start and the end, the rows that are skipped at the start, the number of rows
that are combined, and whether there are rows of `nan` at the start and at the end. -/
structure ReduceTimes where
  start : ℤ
  endTime : ℤ
  skiprows : ℕ
  rowCnt : ℤ
  nanStart : Bool
  nanEnd : Bool

/-- The first part of `rrd_reduce_data`, up to its sanity check. -/
def reduceTimes (start endTime : ℤ) (curStep step : ℕ) : Option ReduceTimes :=
  let factor := reduceFactor curStep step
  let newStep := curStep * factor
  let endOffset := endTime % newStep
  let startOffset := start % newStep
  let skipStart := if startOffset ≠ 0 then (factor - startOffset / curStep).toNat else 0
  let skipEnd := if endOffset ≠ 0 then endOffset / curStep else 0
  let rowCnt := (endTime - start) / curStep - skipStart - skipEnd
  if u64 rowCnt % factor ≠ 0 then none
  else some
    { start := start - startOffset
      endTime := if endOffset ≠ 0 then endTime - endOffset + newStep else endTime
      skiprows := skipStart
      rowCnt := rowCnt
      nanStart := startOffset ≠ 0
      nanEnd := endOffset ≠ 0 }

/-- One row of the reduced data. -/
def combineRows (kind : ReduceKind) (dsCnt : ℕ) (rows : List (List RrdValue)) : List RrdValue :=
  (List.range dsCnt).map fun col => combine kind (rows.map fun row => row.getD col .nan)

/-- The loop of `rrd_reduce_data`. -/
def reduceRows (kind : ReduceKind) (dsCnt factor : ℕ) : ℕ → List (List RrdValue) → List (List RrdValue)
  | 0, _ => []
  | n + 1, rows => combineRows kind dsCnt (rows.take factor) :: reduceRows kind dsCnt factor n (rows.drop factor)

/-- `rrd_reduce_data`. -/
@[grind] def rrdReduceData (kind : ReduceKind) (f : FetchedData) (step : ℕ) (h : f.step < step) : Option FetchedData :=
  let factor := reduceFactor f.step step
  let nanRow := List.replicate f.dsNamv.length (.nan : RrdValue)
  (reduceTimes f.start f.endTime f.step step).map fun t =>
    { start := t.start
      endTime := t.endTime
      step := f.step * factor
      dsNamv := f.dsNamv
      data := (if t.nanStart then [nanRow] else []) ++
        reduceRows kind f.dsNamv.length factor (t.rowCnt / (factor : ℤ)).toNat (f.data.drop t.skiprows) ++
        (if t.nanEnd then [nanRow] else [])
      step_pos := Nat.mul_pos f.step_pos (Nat.div_pos (by have := f.step_pos; omega) f.step_pos) }

/-! ### `data_fetch` -/

/-- The step that `rrd_fetch_empty` makes up. -/
def emptyStep (req : FetchRequest) : ℕ :=
  if req.step = 0 then ((req.endTime - req.start) / 100).toNat else req.step

/-- `rrd_fetch_empty`; a step of 0 that stays 0 ends the program. -/
def rrdFetchEmpty (req : FetchRequest) (dsNam : Text) : Option FetchedData :=
  if h : 0 < emptyStep req then
    let start := req.start - req.start % emptyStep req
    let endTime := req.endTime + (emptyStep req - req.endTime % emptyStep req)
    some ⟨start, endTime, emptyStep req, [dsNam], List.replicate ((endTime - start) / emptyStep req).toNat [.nan], h⟩
  else none

/-- The CF of the reduction. -/
def DefElem.kind (d : DefElem) : ReduceKind := reduceKind (d.reduce.getD d.request.cf)

/-- What was fetched is reduced to at least the step of the image. -/
@[grind] def reduced (im : Image) (d : DefElem) (f : FetchedData) : Option FetchedData :=
  if h : f.step < max d.request.step im.step then rrdReduceData d.kind f (max d.request.step im.step) h else some f

/-- The data of a DEF when they are not there already. -/
@[grind] def fetchAlone (fetch : FetchRequest → Option FetchedData) (im : Image) (d : DefElem) : Option FetchedData :=
  match fetch d.request with
  | some f => reduced im d f
  | none => if im.allowMissingDs then (rrdFetchEmpty d.request d.dsNam).bind (reduced im d) else none

/-- The required data source is really there. -/
@[grind] def checkDs (im : Image) (d : DefElem) (f : FetchedData) : Option FetchedData :=
  if d.dsNam ∈ f.dsNamv ∨ im.allowMissingDs then some f else none

/-- The number of a CF. -/
@[grind] def Cf.code (cf : Cf) : ℕ := cf.ctorIdx

/-- The fields of `gdes_fetch_key` that do not change, printed with `%s` and `%d`. -/
def fetchKeyPrefix (im : Image) (d : DefElem) : Text :=
  d.request.rrd ++ ':' :: d.request.daemon ++ ':' :: decimal d.request.cf.code ++
    ':' :: decimal (d.reduce.getD .average).code ++ ':' :: decimal (s32 d.request.start) ++
    ':' :: decimal (s32 d.request.endTime) ++ ':' :: decimal (s32 im.stepOrig)

/-- `gdes_fetch_key`, with the step that the DEF has at that moment. -/
def gdesFetchKey (im : Image) (d : DefElem) (step : ℕ) : Text := fetchKeyPrefix im d ++ ':' :: decimal (s32 step)

/-- One DEF, with the data that are there already. -/
@[grind] def fetchOne (fetch : FetchRequest → Option FetchedData) (im : Image) (rrdMap : List (Text × FetchedData)) (d : DefElem) :
    Option FetchedData :=
  match rrdMap.lookup (gdesFetchKey im d d.request.step) with
  | some f => checkDs im d f
  | none => (fetchAlone fetch im d).bind (checkDs im d)

/-- The loop of `data_fetch`. -/
@[grind] def fetchLoop (fetch : FetchRequest → Option FetchedData) (im : Image) :
    List (Text × FetchedData) → List DefElem → Option (List FetchedData)
  | _, [] => some []
  | rrdMap, d :: defs =>
    (fetchOne fetch im rrdMap d).bind fun f =>
      (fetchLoop fetch im ((gdesFetchKey im d f.step, f) :: rrdMap) defs).map (f :: ·)

/-- `data_fetch`: the data of each DEF. -/
def dataFetch (fetch : FetchRequest → Option FetchedData) (im : Image) (defs : List DefElem) : Option (List FetchedData) :=
  fetchLoop fetch im [] defs

/-! ### What a DEF depends on -/

/-- The step of the data for a fetched step. -/
@[grind] def stepOf (im : Image) (step ft : ℕ) : ℕ :=
  if ft < max step im.step then ft * reduceFactor ft (max step im.step) else ft

/-- Data can be reduced to a step that prints like the requested one. -/
def Reducible (im : Image) (step : ℕ) : Prop :=
  ∃ ft, 0 < ft ∧ ft < max step im.step ∧ s32 (stepOf im step ft) = s32 step

/-- The data that are made up for a missing file have a step that prints like the requested one. -/
def EmptyLands (im : Image) (req : FetchRequest) : Prop :=
  ∃ f, (rrdFetchEmpty req []).bind (reduced im ⟨req, [], none⟩) = some f ∧ s32 f.step = s32 req.step

open Classical in
/-- What the data of a DEF depend on, as far as they can be shared: the request, the way to reduce, and the name of
the data source that is made up. -/
noncomputable def effective (im : Image) (d : DefElem) : FetchRequest × Option ReduceKind × Option Text :=
  (d.request, if Reducible im d.request.step then some d.kind else none,
    if im.allowMissingDs ∧ EmptyLands im d.request then some d.dsNam else none)

section Alone

variable {fetch : FetchRequest → Option FetchedData} {im : Image} {d e : DefElem} {f : FetchedData}

lemma rrdReduceData_some {kind : ReduceKind} {step : ℕ} {h : f.step < step} {f' : FetchedData}
    (hf : rrdReduceData kind f step h = some f') :
    f'.step = f.step * reduceFactor f.step step ∧ f'.dsNamv = f.dsNamv ∧
      (reduceTimes f.start f.endTime f.step step).isSome := by
  obtain ⟨t, ht, rfl⟩ := Option.map_eq_some_iff.1 hf
  exact ⟨rfl, rfl, by rw [ht]; rfl⟩

lemma reduced_step {f' : FetchedData} (h : reduced im d f = some f') : f'.step = stepOf im d.request.step f.step := by
  unfold reduced at h
  unfold stepOf
  split at h
  · rename_i hlt
    rw [if_pos hlt, (rrdReduceData_some h).1]
  · rename_i hlt
    rw [if_neg hlt, ← Option.some.inj h]

/-- The reduction depends on its way only if the result can be shared. -/
lemma reduced_congr {f' : FetchedData} (h : reduced im d f = some f') (hshare : s32 f'.step = s32 d.request.step)
    (hreq : d.request = e.request) (hkind : Reducible im d.request.step → d.kind = e.kind) : reduced im e f = some f' := by
  rw [reduced_step h] at hshare
  unfold reduced at h ⊢
  rw [← hreq]
  split at h
  · rename_i hlt
    rw [dif_pos hlt, ← hkind ⟨f.step, f.step_pos, hlt, hshare⟩]
    exact h
  · rename_i hlt
    rw [dif_neg hlt]
    exact h

lemma rrdFetchEmpty_some {req : FetchRequest} {dsNam : Text} (h : rrdFetchEmpty req dsNam = some f) (dsNam' : Text) :
    rrdFetchEmpty req dsNam' = some { f with dsNamv := [dsNam'] } := by
  simp only [rrdFetchEmpty] at h ⊢
  split at h
  · rename_i hpos
    rw [dif_pos hpos, ← Option.some.inj h]
  · cases h

/-- Whether data are reduced and to which step does not depend on the values. -/
lemma reduced_isSome {f g : FetchedData} (hstart : f.start = g.start) (hend : f.endTime = g.endTime)
    (hstep : f.step = g.step) (hreq : d.request = e.request) {f' : FetchedData} (h : reduced im d f = some f') :
    ∃ g', reduced im e g = some g' ∧ g'.step = f'.step := by
  unfold reduced at h ⊢
  rw [← hreq]
  split at h
  · rename_i hlt
    rw [dif_pos (hstep ▸ hlt)]
    obtain ⟨hfstep, -, htimes⟩ := rrdReduceData_some h
    rw [hstart, hend, hstep] at htimes
    obtain ⟨t, ht⟩ := Option.isSome_iff_exists.1 htimes
    simp only [rrdReduceData, ht, Option.map_some]
    refine ⟨_, rfl, ?_⟩
    show g.step * reduceFactor g.step _ = f'.step
    rw [hfstep, hstep]
  · rename_i hlt
    rw [dif_neg (hstep ▸ hlt)]
    exact ⟨g, rfl, by rw [← Option.some.inj h, hstep]⟩

/-- Two DEFs with the same dependencies share their data rightly. -/
lemma fetchAlone_congr (h : fetchAlone fetch im d = some f) (hshare : s32 f.step = s32 d.request.step)
    (heff : effective im d = effective im e) : fetchAlone fetch im e = some f := by
  obtain ⟨hreq, hrest⟩ := Prod.mk.inj heff
  obtain ⟨hkind, hname⟩ := Prod.mk.inj hrest
  have hkind' : Reducible im d.request.step → d.kind = e.kind := by
    intro hred
    rw [if_pos hred, if_pos (hreq ▸ hred)] at hkind
    exact Option.some.inj hkind
  unfold fetchAlone at h ⊢
  rw [← hreq]
  cases hfetch : fetch d.request with
  | some F =>
    rw [hfetch] at h
    exact reduced_congr h hshare hreq hkind'
  | none =>
    rw [hfetch] at h
    simp only at h ⊢
    split at h
    · rename_i hmissing
      obtain ⟨F, hF, hf⟩ := Option.bind_eq_some_iff.1 h
      have hlands : EmptyLands im d.request := by
        obtain ⟨g, hg, hstep⟩ := @reduced_isSome im d ⟨d.request, [], none⟩ F { F with dsNamv := [[]] } rfl rfl rfl rfl f hf
        exact ⟨g, Option.bind_eq_some_iff.2 ⟨_, rrdFetchEmpty_some hF [], hg⟩, by rw [hstep, hshare]⟩
      have hname' : d.dsNam = e.dsNam := by
        rw [if_pos ⟨hmissing, hlands⟩, if_pos ⟨hmissing, hreq ▸ hlands⟩] at hname
        exact Option.some.inj hname
      rw [if_pos hmissing, ← hname']
      exact Option.bind_eq_some_iff.2 ⟨F, hF, reduced_congr hf hshare hreq hkind'⟩
    · cases h

end Alone

/-! ### Keys -/

lemma decimal_injective {a b : ℤ} (h : decimal a = decimal b) : a = b := by
  have ha := @strtol_decimal a 10 [] (.inr rfl) rfl
  have hb := @strtol_decimal b 10 [] (.inr rfl) rfl
  rw [h, hb] at ha
  exact (Prod.mk.inj (Option.some.inj ha)).1.symm

lemma colon_not_mem_decimal (z : ℤ) : ':' ∉ decimal z := by
  have hdigits : ':' ∉ ulong z.natAbs := fun hmem => absurd (isDigit_of_mem_ulong hmem) (by decide)
  unfold decimal
  split
  · exact fun hmem => (List.mem_cons.1 hmem).elim (by decide) hdigits
  · exact hdigits

/-- A text is cut at its last colon in one way. -/
lemma last_colon_unique {s s' t t' : Text} (h : s ++ ':' :: t = s' ++ ':' :: t') (ht : ':' ∉ t) (ht' : ':' ∉ t') :
    s = s' ∧ t = t' := by
  have hrev : t.reverse ++ ':' :: s.reverse = t'.reverse ++ ':' :: s'.reverse := by
    have := congrArg List.reverse h
    simpa using this
  have htake : ∀ {u v : Text}, ':' ∉ u → (u ++ ':' :: v).takeWhile (· ≠ ':') = u := by
    intro u v hu
    have hall : ∀ c ∈ u, (decide (c ≠ ':')) = true := fun c hc => decide_eq_true fun heq => hu (heq ▸ hc)
    rw [List.takeWhile_append_of_pos hall]
    simp
  have heq : t.reverse = t'.reverse := by
    rw [← htake (fun hmem => ht (List.mem_reverse.1 hmem)), hrev, htake fun hmem => ht' (List.mem_reverse.1 hmem)]
  have htt := List.reverse_injective heq
  subst htt
  exact ⟨List.append_cancel_right h, rfl⟩

lemma gdesFetchKey_eq {im : Image} {d e : DefElem} {step step' : ℕ} :
    gdesFetchKey im d step = gdesFetchKey im e step' ↔
      fetchKeyPrefix im d = fetchKeyPrefix im e ∧ s32 step = s32 step' := by
  constructor
  · intro h
    obtain ⟨hpre, hstep⟩ := last_colon_unique h (colon_not_mem_decimal _) (colon_not_mem_decimal _)
    exact ⟨hpre, decimal_injective hstep⟩
  · rintro ⟨hpre, hstep⟩
    rw [gdesFetchKey, gdesFetchKey, hpre, hstep]

/-! ### DEFs that share rightly -/

/-- The DEFs that print the same prefix depend on the same. -/
def NoClash (im : Image) (defs : List DefElem) : Prop :=
  defs.Pairwise fun d e => fetchKeyPrefix im d = fetchKeyPrefix im e → effective im d = effective im e

section Shared

variable {fetch : FetchRequest → Option FetchedData} {im : Image} {rrdMap : List (Text × FetchedData)}

/-- The data under a key are those of an earlier DEF. -/
def MapOk (fetch : FetchRequest → Option FetchedData) (im : Image) (done : List DefElem) (rrdMap : List (Text × FetchedData)) :
    Prop :=
  ∀ key f, (key, f) ∈ rrdMap → ∃ d ∈ done, key = gdesFetchKey im d f.step ∧ fetchAlone fetch im d = some f

/-- A DEF that finds its key gets the data that it would have fetched. -/
lemma lookup_alone {done : List DefElem} {e : DefElem} {f : FetchedData} (hmap : MapOk fetch im done rrdMap)
    (hclash : ∀ d ∈ done, fetchKeyPrefix im d = fetchKeyPrefix im e → effective im d = effective im e)
    (h : rrdMap.lookup (gdesFetchKey im e e.request.step) = some f) : fetchAlone fetch im e = some f := by
  obtain ⟨l, l', hl, -⟩ := List.lookup_eq_some_iff.1 h
  obtain ⟨d, hd, hkey, halone⟩ := hmap _ f (hl ▸ List.mem_append_right l List.mem_cons_self)
  obtain ⟨hpre, hstep⟩ := gdesFetchKey_eq.1 hkey.symm
  have heff := hclash d hd hpre
  have hreq : d.request = e.request := (Prod.mk.inj heff).1
  exact fetchAlone_congr halone (by rw [hstep, hreq]) heff

lemma checkDs_some {e : DefElem} {f f' : FetchedData} (h : checkDs im e f = some f') : f' = f := by
  unfold checkDs at h
  split at h
  · exact (Option.some.inj h).symm
  · cases h

/-- The data of a DEF that shares nothing. -/
@[grind] def fetchSingle (fetch : FetchRequest → Option FetchedData) (im : Image) (d : DefElem) : Option FetchedData :=
  (fetchAlone fetch im d).bind (checkDs im d)

lemma fetchSingle_some {d : DefElem} {f : FetchedData} (h : fetchSingle fetch im d = some f) :
    fetchAlone fetch im d = some f := by
  obtain ⟨f', halone, hcheck⟩ := Option.bind_eq_some_iff.1 h
  rw [halone, checkDs_some hcheck]

lemma fetchOne_single {done : List DefElem} {e : DefElem} (hmap : MapOk fetch im done rrdMap)
    (hclash : ∀ d ∈ done, fetchKeyPrefix im d = fetchKeyPrefix im e → effective im d = effective im e) :
    fetchOne fetch im rrdMap e = fetchSingle fetch im e := by
  unfold fetchOne fetchSingle
  cases hlook : rrdMap.lookup (gdesFetchKey im e e.request.step) with
  | none => rfl
  | some f =>
    rw [lookup_alone hmap hclash hlook]
    rfl

lemma MapOk.insert {done : List DefElem} {e : DefElem} {f : FetchedData} (hmap : MapOk fetch im done rrdMap)
    (h : fetchAlone fetch im e = some f) : MapOk fetch im (e :: done) ((gdesFetchKey im e f.step, f) :: rrdMap) := by
  intro key g hmem
  obtain heq | hmem := List.mem_cons.1 hmem
  · obtain ⟨rfl, rfl⟩ := Prod.mk.inj heq
    exact ⟨e, List.mem_cons_self, rfl, h⟩
  · obtain ⟨d, hd, hkey⟩ := hmap key g hmem
    exact ⟨d, List.mem_cons_of_mem e hd, hkey⟩

lemma fetchLoop_single {done defs : List DefElem} (hmap : MapOk fetch im done rrdMap)
    (hdone : ∀ e ∈ defs, ∀ d ∈ done, fetchKeyPrefix im d = fetchKeyPrefix im e → effective im d = effective im e)
    (hdefs : NoClash im defs) : fetchLoop fetch im rrdMap defs = defs.mapM (fetchSingle fetch im) := by
  induction defs generalizing done rrdMap with
  | nil => rfl
  | cons e defs ih =>
    rw [fetchLoop, fetchOne_single hmap (hdone e List.mem_cons_self), List.mapM_cons]
    cases hsingle : fetchSingle fetch im e with
    | none => rfl
    | some f =>
      obtain ⟨hhead, htail⟩ := List.pairwise_cons.1 hdefs
      have hrest := ih (hmap.insert (fetchSingle_some hsingle))
        (fun x hx => List.forall_mem_cons.2 ⟨hhead x hx, hdone x (List.mem_cons_of_mem e hx)⟩) htail
      show (fetchLoop fetch im _ defs).map _ = _
      rw [hrest]
      cases defs.mapM (fetchSingle fetch im) <;> rfl

end Shared

/-! ### DEFs that do not -/

section Clash

variable {fetch : FetchRequest → Option FetchedData} {im : Image} {rrdMap : List (Text × FetchedData)}

/-- The data of the DEFs that are done are all in the map. -/
def MapFull (fetch : FetchRequest → Option FetchedData) (im : Image) (done : List DefElem)
    (rrdMap : List (Text × FetchedData)) : Prop :=
  ∀ d ∈ done, ∃ f, fetchAlone fetch im d = some f ∧ (gdesFetchKey im d f.step, f) ∈ rrdMap

lemma exists_mapM_some {F : DefElem → Option FetchedData} {l : List DefElem} (h : ∀ d ∈ l, (F d).isSome) :
    ∃ fs, l.mapM F = some fs := by
  induction l with
  | nil => exact ⟨[], rfl⟩
  | cons d l ih =>
    obtain ⟨f, hf⟩ := Option.isSome_iff_exists.1 (h d List.mem_cons_self)
    obtain ⟨fs, hfs⟩ := ih fun x hx => h x (List.mem_cons_of_mem d hx)
    exact ⟨f :: fs, by rw [List.mapM_cons, hf, hfs]; rfl⟩

lemma exists_lookup {key : Text} {f : FetchedData} (h : (key, f) ∈ rrdMap) :
    ∃ g, rrdMap.lookup key = some g ∧ (key, g) ∈ rrdMap := by
  cases hlook : rrdMap.lookup key with
  | none =>
    have hne := List.lookup_eq_none_iff.1 hlook _ h
    simp at hne
  | some g =>
    obtain ⟨l, l', hl, -⟩ := List.lookup_eq_some_iff.1 hlook
    exact ⟨g, rfl, hl ▸ List.mem_append_right l List.mem_cons_self⟩

/-- A DEF that finds data under its key which it would not have fetched. -/
lemma fetchLoop_ne {done defs : List DefElem} {e : DefElem} {post : List DefElem} (hmap : MapOk fetch im done rrdMap)
    (hfull : MapFull fetch im done rrdMap) (hall : ∀ d ∈ defs ++ e :: post, (fetchSingle fetch im d).isSome)
    (hclash : NoClash im defs)
    (hdone : ∀ x ∈ defs, ∀ d ∈ done, fetchKeyPrefix im d = fetchKeyPrefix im x → effective im d = effective im x)
    (hbad : ∃ d ∈ done ++ defs, fetchKeyPrefix im d = fetchKeyPrefix im e)
    (hlands : ∀ d ∈ done ++ defs, fetchKeyPrefix im d = fetchKeyPrefix im e → ∀ f, fetchAlone fetch im d = some f →
      s32 f.step = s32 e.request.step ∧ fetchAlone fetch im e ≠ some f) :
    fetchLoop fetch im rrdMap (defs ++ e :: post) ≠ (defs ++ e :: post).mapM (fetchSingle fetch im) := by
  induction defs generalizing done rrdMap with
  | nil =>
    rw [List.append_nil] at hbad hlands
    rw [List.nil_append] at hall ⊢
    obtain ⟨d, hd, hpre⟩ := hbad
    obtain ⟨f, halone, hmem⟩ := hfull d hd
    have hkey : gdesFetchKey im d f.step = gdesFetchKey im e e.request.step :=
      gdesFetchKey_eq.2 ⟨hpre, (hlands d hd hpre f halone).1⟩
    obtain ⟨g, hlook, hmem'⟩ := exists_lookup (hkey ▸ hmem)
    obtain ⟨d', hd', hkey', halone'⟩ := hmap _ g hmem'
    obtain ⟨-, hne⟩ := hlands d' hd' (gdesFetchKey_eq.1 hkey'.symm).1 g halone'
    obtain ⟨fe, hfe⟩ := Option.isSome_iff_exists.1 (hall e List.mem_cons_self)
    obtain ⟨fs, hfs⟩ := exists_mapM_some fun x hx => hall x (List.mem_cons_of_mem e hx)
    have hright : (e :: post).mapM (fetchSingle fetch im) = some (fe :: fs) := by
      rw [List.mapM_cons, hfe, hfs]
      rfl
    rw [hright]
    intro hleft
    rw [fetchLoop, fetchOne, hlook] at hleft
    obtain ⟨g', hcheck, htail⟩ := Option.bind_eq_some_iff.1 hleft
    obtain ⟨gs, -, hcons⟩ := Option.map_eq_some_iff.1 htail
    obtain ⟨hhead, -⟩ := List.cons.inj hcons
    rw [checkDs_some hcheck] at hhead
    exact hne (hhead ▸ fetchSingle_some hfe)
  | cons x defs ih =>
    obtain ⟨hhead, htail⟩ := List.pairwise_cons.1 hclash
    obtain ⟨f, hf⟩ := Option.isSome_iff_exists.1 (hall x List.mem_cons_self)
    have hmem : ∀ d, d ∈ (x :: done) ++ defs ↔ d ∈ done ++ (x :: defs) := by
      intro d
      simp only [List.mem_append, List.mem_cons]
      tauto
    have hfull' : MapFull fetch im (x :: done) ((gdesFetchKey im x f.step, f) :: rrdMap) := by
      intro d hd
      obtain rfl | hd := List.mem_cons.1 hd
      · exact ⟨f, fetchSingle_some hf, List.mem_cons_self⟩
      · obtain ⟨g, halone, hg⟩ := hfull d hd
        exact ⟨g, halone, List.mem_cons_of_mem _ hg⟩
    have hrest := ih (hmap.insert (fetchSingle_some hf)) hfull'
      (fun d hd => hall d (List.mem_cons_of_mem x hd)) htail
      (fun y hy => List.forall_mem_cons.2 ⟨hhead y hy, hdone y (List.mem_cons_of_mem x hy)⟩)
      (hbad.imp fun d hd => ⟨(hmem d).2 hd.1, hd.2⟩) (fun d hd => hlands d ((hmem d).1 hd))
    rw [List.cons_append, fetchLoop, fetchOne_single hmap (hdone x List.mem_cons_self), List.mapM_cons, hf]
    intro heq
    apply hrest
    have heq' : (fetchLoop fetch im ((gdesFetchKey im x f.step, f) :: rrdMap) (defs ++ e :: post)).map (f :: ·) =
        ((defs ++ e :: post).mapM (fetchSingle fetch im)).map (f :: ·) := by
      refine Eq.trans heq ?_
      cases (defs ++ e :: post).mapM (fetchSingle fetch im) <;> rfl
    exact Option.map_injective List.cons_injective heq'

/-- The first element that does not fit to those before it. -/
lemma exists_first {R : DefElem → DefElem → Prop} {l : List DefElem} (h : ¬ l.Pairwise R) :
    ∃ pre e post, l = pre ++ e :: post ∧ pre.Pairwise R ∧ ∃ d ∈ pre, ¬ R d e := by
  induction l using List.reverseRecOn with
  | nil => exact absurd List.Pairwise.nil h
  | append_singleton l a ih =>
    by_cases hl : l.Pairwise R
    · refine ⟨l, a, [], rfl, hl, ?_⟩
      by_contra hnot
      push Not at hnot
      exact h (List.pairwise_append.2 ⟨hl, List.pairwise_singleton _ _, fun d hd b hb =>
        List.mem_singleton.1 hb ▸ hnot d hd⟩)
    · obtain ⟨pre, e, post, rfl, hpre, hbad⟩ := ih hl
      exact ⟨pre, e, post ++ [a], by simp, hpre, hbad⟩

/-- A step that prints like another one and that is not reduced. -/
@[grind] def landingStep (step bound : ℕ) : ℕ := if bound ≤ step ∧ 0 < step then step else step + 2 ^ 32 * (bound / 2 ^ 32 + 1)

lemma s32_landingStep (step bound : ℕ) : s32 (landingStep step bound) = s32 step := by
  unfold landingStep
  split
  · rfl
  · push_cast
    exact s32_add_mul _ _

lemma landingStep_spec (step bound : ℕ) : bound ≤ landingStep step bound ∧ 0 < landingStep step bound := by
  unfold landingStep
  split <;> omega

/-- Data that tell the request, with a step that is not reduced. -/
def echo (im : Image) (names : List Text) (step : ℕ) (req : FetchRequest) : FetchedData :=
  ⟨req.start, req.endTime, landingStep step (max req.step im.step),
    req.rrd :: req.daemon :: cfToString req.cf :: decimal req.step :: names, [], (landingStep_spec _ _).2⟩

lemma echo_injective {names : List Text} {step : ℕ} {r r' : FetchRequest}
    (h : echo im names step r = echo im names step r') : r = r' := by
  simp only [echo, FetchedData.mk.injEq, List.cons.injEq] at h
  obtain ⟨hstart, hend, -, ⟨hrrd, hdaemon, hcf, hstep, -⟩, -⟩ := h
  have hcf' : r.cf = r'.cf := by
    have hconv := rrdCfConv_cfToString r.cf
    rw [hcf, rrdCfConv_cfToString] at hconv
    exact (Option.some.inj hconv).symm
  have hstep' : r.step = r'.step := by exact_mod_cast decimal_injective hstep
  cases r
  cases r'
  simp_all

lemma fetchAlone_echo {d : DefElem} {names : List Text} {step : ℕ}
    (h : fetch d.request = some (echo im names step d.request)) :
    fetchAlone fetch im d = some (echo im names step d.request) := by
  simp only [fetchAlone, h, reduced]
  rw [dif_neg]
  exact not_lt.2 (landingStep_spec _ _).1

lemma fetchSingle_isSome {d : DefElem} {f : FetchedData} (h : fetchAlone fetch im d = some f)
    (hds : d.dsNam ∈ f.dsNamv ∨ im.allowMissingDs) : (fetchSingle fetch im d).isSome := by
  rw [fetchSingle, h, Option.bind_some, checkDs, if_pos hds]
  rfl

/-- The first clash of a list, and the DEFs in front of it that print the same prefix. -/
structure FirstClash (im : Image) (pre : List DefElem) (e : DefElem) (d : DefElem) : Prop where
  noClash : NoClash im pre
  mem : d ∈ pre
  same_prefix : fetchKeyPrefix im d = fetchKeyPrefix im e
  differ : effective im d ≠ effective im e
  all_same : ∀ x ∈ pre, fetchKeyPrefix im x = fetchKeyPrefix im e → effective im x = effective im d

lemma exists_firstClash {defs : List DefElem} (h : ¬ NoClash im defs) :
    ∃ pre e post d, defs = pre ++ e :: post ∧ FirstClash im pre e d := by
  obtain ⟨pre, e, post, hdefs, hpre, d, hd, hbad⟩ := exists_first h
  obtain ⟨hsame, hdiffer⟩ := Classical.not_imp.1 hbad
  refine ⟨pre, e, post, d, hdefs, hpre, hd, hsame, hdiffer, fun x hx hxe => ?_⟩
  have : Std.Symm fun d e : DefElem => fetchKeyPrefix im d = fetchKeyPrefix im e → effective im d = effective im e :=
    ⟨fun a b hab hba => (hab hba.symm).symm⟩
  exact List.Pairwise.forall_of_forall (fun _ _ _ => rfl) hpre hx hd (hxe.trans hsame.symm)

/-- A DEF in front of the clash gets data under the key of the later one, which are not its own. -/
lemma dataFetch_ne {pre post : List DefElem} {e d : DefElem} (h : FirstClash im pre e d)
    (hall : ∀ x ∈ pre ++ e :: post, (fetchSingle fetch im x).isSome)
    (hlands : ∀ x ∈ pre, effective im x = effective im d → ∀ f, fetchAlone fetch im x = some f →
      s32 f.step = s32 e.request.step ∧ fetchAlone fetch im e ≠ some f) :
    dataFetch fetch im (pre ++ e :: post) ≠ (pre ++ e :: post).mapM (fetchSingle fetch im) := by
  refine @fetchLoop_ne fetch im [] [] pre e post ?_ ?_ hall h.noClash ?_ ⟨d, h.mem, h.same_prefix⟩ ?_
  · exact fun key f hf => absurd hf List.not_mem_nil
  · exact fun x hx => absurd hx List.not_mem_nil
  · exact fun x _ y hy => absurd hy List.not_mem_nil
  · exact fun x hx hxe => hlands x hx (h.all_same x hx hxe)

/-! #### Three ways to clash -/

variable {pre post : List DefElem} {e d : DefElem}

/-- The requests are not the same. -/
lemma clash_request (h : FirstClash im pre e d) (hreq : d.request ≠ e.request) :
    ∃ fetch, dataFetch fetch im (pre ++ e :: post) ≠ (pre ++ e :: post).mapM (fetchSingle fetch im) := by
  let names := (pre ++ e :: post).map DefElem.dsNam
  refine ⟨fun r => some (echo im names e.request.step r), dataFetch_ne h ?_ ?_⟩
  · intro x hx
    refine fetchSingle_isSome (fetchAlone_echo rfl) (.inl ?_)
    exact List.mem_cons_of_mem _ (List.mem_cons_of_mem _ (List.mem_cons_of_mem _ (List.mem_cons_of_mem _
      (List.mem_map_of_mem hx))))
  · intro x hx heff f hf
    rw [fetchAlone_echo rfl] at hf
    obtain rfl := Option.some.inj hf
    refine ⟨s32_landingStep _ _, fun he => hreq ?_⟩
    rw [fetchAlone_echo rfl] at he
    have hx' : x.request = d.request := (Prod.mk.inj heff).1
    exact hx'.symm.trans (echo_injective (Option.some.inj he)).symm

/-- The names of the data sources that are made up are not the same. -/
lemma clash_name (h : FirstClash im pre e d) (hreq : d.request = e.request) (hmissing : im.allowMissingDs)
    (hlands : EmptyLands im d.request) (hname : d.dsNam ≠ e.dsNam) :
    ∃ fetch, dataFetch fetch im (pre ++ e :: post) ≠ (pre ++ e :: post).mapM (fetchSingle fetch im) := by
  obtain ⟨f₀, hf₀, hstep₀⟩ := hlands
  obtain ⟨F, hF, hred⟩ := Option.bind_eq_some_iff.1 hf₀
  let fetch : FetchRequest → Option FetchedData := fun r => if r = d.request then none else some (echo im [] 0 r)
  -- each DEF with this request gets made up data with its own name
  have hempty : ∀ x : DefElem, x.request = d.request → ∃ f, fetchAlone fetch im x = some f ∧ f.step = f₀.step ∧
      f.dsNamv = [x.dsNam] := by
    intro x hx
    obtain ⟨g, hg, hgstep⟩ := @reduced_isSome im ⟨d.request, [], none⟩ x F { F with dsNamv := [x.dsNam] } rfl rfl rfl
      hx.symm f₀ hred
    refine ⟨g, ?_, hgstep, ?_⟩
    · have hnone : fetch d.request = none := if_pos rfl
      simp only [fetchAlone, hx, hnone, hmissing, if_true, rrdFetchEmpty_some hF x.dsNam, Option.bind_some]
      exact hg
    · unfold reduced at hg
      split at hg
      · exact (rrdReduceData_some hg).2.1
      · rw [← Option.some.inj hg]
  refine ⟨fetch, dataFetch_ne h ?_ ?_⟩
  · intro x hx
    by_cases hxd : x.request = d.request
    · obtain ⟨f, hf, -⟩ := hempty x hxd
      exact fetchSingle_isSome hf (.inr hmissing)
    · exact fetchSingle_isSome (fetchAlone_echo (if_neg hxd)) (.inr hmissing)
  · intro x hx heff f hf
    obtain ⟨hxreq, hrest⟩ := Prod.mk.inj heff
    have hxname : x.dsNam = d.dsNam := by
      have hxl : im.allowMissingDs ∧ EmptyLands im x.request := ⟨hmissing, by rw [hxreq]; exact ⟨f₀, hf₀, hstep₀⟩⟩
      have hdl : im.allowMissingDs ∧ EmptyLands im d.request := ⟨hmissing, f₀, hf₀, hstep₀⟩
      have hthird := (Prod.mk.inj hrest).2
      rw [if_pos hxl, if_pos hdl] at hthird
      exact Option.some.inj hthird
    obtain ⟨g, hg, hgstep, hgname⟩ := hempty x hxreq
    obtain rfl := Option.some.inj (hg.symm.trans hf)
    refine ⟨by rw [hgstep, hstep₀, hreq], fun he => ?_⟩
    obtain ⟨g', hg', -, hgname'⟩ := hempty e hreq.symm
    obtain rfl := Option.some.inj (hg'.symm.trans he)
    rw [hgname, hxname] at hgname'
    exact hname (List.cons.inj hgname').1

/-- Two rows with 0 and 1 in different order tell the ways to reduce apart. -/
def twoRows (names : List Text) (ft factor : ℕ) (hft : 0 < ft) : FetchedData :=
  ⟨0, ((ft * factor : ℕ) : ℤ), ft, [] :: [] :: names,
    [.fin 0, .fin 1] :: [.fin 1, .fin 0] :: List.replicate (factor - 2) [], hft⟩

lemma combine_known (kind : ReduceKind) (a b : RrdValue) (n : ℕ) :
    combine kind (a :: b :: List.replicate n .nan) = combine kind [a, b] := by
  have hnan : ∀ acc : RrdValue × ℕ, (List.replicate n (.nan : RrdValue)).foldl (combineStep kind) acc = acc := by
    intro acc
    induction n with
    | zero => rfl
    | succ n ih => exact ih
  simp only [combine, List.foldl_cons, hnan, List.foldl_nil]
  rfl

lemma two_le_reduceFactor {ft step : ℕ} (hft : 0 < ft) (hlt : ft < step) : 2 ≤ reduceFactor ft step :=
  (Nat.le_div_iff_mul_le hft).2 (by omega)

lemma reduceFactor_le {ft step : ℕ} (hft : 0 < ft) (hlt : ft < step) : reduceFactor ft step ≤ step := by
  refine Nat.div_le_of_le_mul ?_
  obtain ⟨a, rfl⟩ : ∃ a, ft = a + 1 := ⟨ft - 1, by omega⟩
  have hle : a ≤ a * step := Nat.le_mul_of_pos_right a (by omega)
  rw [Nat.add_mul, Nat.one_mul]
  omega

lemma reduceTimes_twoRows {ft step : ℕ} (hft : 0 < ft) (hlt : ft < step) (hstep : step < 2 ^ 64) :
    reduceTimes 0 ((ft * reduceFactor ft step : ℕ) : ℤ) ft step =
      some ⟨0, ((ft * reduceFactor ft step : ℕ) : ℤ), 0, reduceFactor ft step, false, false⟩ := by
  have hbound := (reduceFactor_le hft hlt).trans_lt hstep
  have hrows : (((ft * reduceFactor ft step : ℕ) : ℤ) - 0) / (ft : ℤ) - ((0 : ℕ) : ℤ) - 0 = reduceFactor ft step := by
    have hne : (ft : ℤ) ≠ 0 := by exact_mod_cast hft.ne'
    simp only [Nat.cast_mul, Nat.cast_zero, Int.sub_zero, Int.mul_ediv_cancel_left _ hne]
  simp only [reduceTimes, Int.emod_self, Int.zero_emod, ne_eq, not_true, if_false, decide_false, hrows]
  rw [u64_natCast hbound, Nat.mod_self]
  rfl

/-- The first two columns of a reduced row. -/
lemma combineRows_two (kind : ReduceKind) (n k : ℕ) :
    (combineRows kind (n + 2) ([.fin 0, .fin 1] :: [.fin 1, .fin 0] :: List.replicate k [])).take 2 =
      [combine kind [.fin 0, .fin 1], combine kind [.fin 1, .fin 0]] := by
  have hrange : (List.range (n + 2)).take 2 = [0, 1] := by
    rw [List.take_range, Nat.min_eq_left (by omega)]
    rfl
  rw [combineRows, ← List.map_take, hrange]
  simp only [List.map_cons, List.map_nil, List.map_replicate]
  show [combine kind (.fin 0 :: .fin 1 :: List.replicate k .nan), combine kind (.fin 1 :: .fin 0 :: List.replicate k .nan)] = _
  rw [combine_known, combine_known]

lemma reduced_twoRows {names : List Text} {ft step : ℕ} (hft : 0 < ft) (hlt : ft < step) (hstep : step < 2 ^ 64)
    (kind : ReduceKind) :
    ∃ f, rrdReduceData kind (twoRows names ft (reduceFactor ft step) hft) step hlt = some f ∧
      f.dsNamv = [] :: [] :: names ∧
      (f.data.map fun row => row.take 2) = [[combine kind [.fin 0, .fin 1], combine kind [.fin 1, .fin 0]]] := by
  obtain ⟨k, hk⟩ : ∃ k, reduceFactor ft step = k + 2 := ⟨_, (Nat.sub_add_cancel (two_le_reduceFactor hft hlt)).symm⟩
  have hone : ((reduceFactor ft step : ℤ) / (reduceFactor ft step : ℤ)).toNat = 1 := by
    rw [Int.ediv_self (by rw [hk]; omega)]
    rfl
  have hrows : reduceRows kind (names.length + 2) (reduceFactor ft step)
      ((reduceFactor ft step : ℤ) / (reduceFactor ft step : ℤ)).toNat
      ([.fin 0, .fin 1] :: [.fin 1, .fin 0] :: List.replicate (reduceFactor ft step - 2) []) =
      [combineRows kind (names.length + 2) ([.fin 0, .fin 1] :: [.fin 1, .fin 0] :: List.replicate k [])] := by
    rw [hone, reduceRows, reduceRows, hk, List.take_of_length_le (by simp), Nat.add_sub_cancel]
  simp only [rrdReduceData, twoRows, reduceTimes_twoRows hft hlt hstep, Option.map_some]
  refine ⟨_, rfl, rfl, ?_⟩
  show ([] ++ reduceRows kind (names.length + 2) (reduceFactor ft step) _ _ ++ []).map _ = _
  rw [List.nil_append, List.append_nil, List.drop_zero, hrows, List.map_singleton, combineRows_two]

/-- The ways to reduce differ on these rows. -/
lemma combine_injective {kind kind' : ReduceKind}
    (h : [combine kind [.fin 0, .fin 1], combine kind [.fin 1, .fin 0]] =
      [combine kind' [.fin 0, .fin 1], combine kind' [.fin 1, .fin 0]]) : kind = kind' := by
  cases kind <;> cases kind' <;> first | rfl | exact absurd h (by decide +kernel)

/-- The ways to reduce are not the same. -/
lemma clash_kind (h : FirstClash im pre e d) (hreq : d.request = e.request) (hred : Reducible im d.request.step)
    (hkind : d.kind ≠ e.kind) :
    ∃ fetch, dataFetch fetch im (pre ++ e :: post) ≠ (pre ++ e :: post).mapM (fetchSingle fetch im) := by
  obtain ⟨ft, hft, hlt, hland⟩ := hred
  have hmax : max d.request.step im.step < 2 ^ 64 := max_lt d.request.step_lt im.step_lt
  let names := (pre ++ e :: post).map DefElem.dsNam
  let F := twoRows names ft (reduceFactor ft (max d.request.step im.step)) hft
  let fetch : FetchRequest → Option FetchedData := fun r => if r = d.request then some F else some (echo im names 0 r)
  have hreduced : ∀ x : DefElem, x.request = d.request → ∃ f, fetchAlone fetch im x = some f ∧
      f.step = stepOf im d.request.step ft ∧ f.dsNamv = [] :: [] :: names ∧
      (f.data.map fun row => row.take 2) = [[combine x.kind [.fin 0, .fin 1], combine x.kind [.fin 1, .fin 0]]] := by
    intro x hx
    obtain ⟨f, hf, hnames, hdata⟩ := @reduced_twoRows names ft _ hft hlt hmax x.kind
    have hfetch : fetch d.request = some F := if_pos rfl
    refine ⟨f, ?_, ?_, hnames, hdata⟩
    · simp only [fetchAlone, hx, hfetch, reduced]
      exact (dif_pos hlt).trans hf
    · rw [(rrdReduceData_some hf).1, stepOf, if_pos hlt]
      rfl
  refine ⟨fetch, dataFetch_ne h ?_ ?_⟩
  · intro x hx
    have hname : x.dsNam ∈ names := List.mem_map_of_mem hx
    by_cases hxd : x.request = d.request
    · obtain ⟨f, hf, -, hnames, -⟩ := hreduced x hxd
      refine fetchSingle_isSome hf (.inl ?_)
      rw [hnames]
      exact List.mem_cons_of_mem _ (List.mem_cons_of_mem _ hname)
    · refine fetchSingle_isSome (fetchAlone_echo (if_neg hxd)) (.inl ?_)
      exact List.mem_cons_of_mem _ (List.mem_cons_of_mem _ (List.mem_cons_of_mem _ (List.mem_cons_of_mem _ hname)))
  · intro x hx heff f hf
    obtain ⟨hxreq, hrest⟩ := Prod.mk.inj heff
    have hred' : Reducible im d.request.step := ⟨ft, hft, hlt, hland⟩
    have hxkind : x.kind = d.kind := by
      have hsecond := (Prod.mk.inj hrest).1
      rw [if_pos (hxreq ▸ hred'), if_pos hred'] at hsecond
      exact Option.some.inj hsecond
    obtain ⟨g, hg, hgstep, -, hgdata⟩ := hreduced x hxreq
    obtain rfl := Option.some.inj (hg.symm.trans hf)
    refine ⟨by rw [hgstep, hland, hreq], fun he => ?_⟩
    obtain ⟨g', hg', -, -, hgdata'⟩ := hreduced e hreq.symm
    obtain rfl := Option.some.inj (hg'.symm.trans he)
    rw [hgdata, hxkind] at hgdata'
    exact hkind (combine_injective (List.cons.inj hgdata').1)

end Clash

/-- Whatever the files and daemons answer, each DEF gets the data that it would have got alone, exactly if the DEFs
that print the same prefix of the key depend on the same. -/
theorem dataFetch_alone_iff (im : Image) (defs : List DefElem) :
    (∀ fetch, dataFetch fetch im defs = defs.mapM (fetchSingle fetch im)) ↔ NoClash im defs := by
  constructor
  · intro h
    by_contra hclash
    obtain ⟨pre, e, post, d, rfl, hfirst⟩ := exists_firstClash hclash
    obtain ⟨fetch, hne⟩ : ∃ fetch,
        dataFetch fetch im (pre ++ e :: post) ≠ (pre ++ e :: post).mapM (fetchSingle fetch im) := by
      by_cases hreq : d.request = e.request
      · by_cases hkind : Reducible im d.request.step ∧ d.kind ≠ e.kind
        · exact clash_kind hfirst hreq hkind.1 hkind.2
        · by_cases hname : (im.allowMissingDs ∧ EmptyLands im d.request) ∧ d.dsNam ≠ e.dsNam
          · exact clash_name hfirst hreq hname.1.1 hname.1.2 hname.2
          · refine absurd ?_ hfirst.differ
            unfold effective
            rw [← hreq]
            refine Prod.ext rfl (Prod.ext ?_ ?_)
            · by_cases hred : Reducible im d.request.step
              · simp only [if_pos hred, not_not.1 fun hne => hkind ⟨hred, hne⟩]
              · simp only [if_neg hred]
            · by_cases hlands : im.allowMissingDs ∧ EmptyLands im d.request
              · simp only [if_pos hlands, not_not.1 fun hne => hname ⟨hlands, hne⟩]
              · simp only [if_neg hlands]
      · exact clash_request hfirst hreq
    exact hne (h fetch)
  · intro h fetch
    exact fetchLoop_single (fun key f hf => absurd hf List.not_mem_nil)
      (fun e _ d hd => absurd hd List.not_mem_nil) h

/-- Two rows of one second each. -/
def twoSeconds : FetchRequest → Option FetchedData := fun _ =>
  some ⟨920804400, 920804402, 1, ["x".toList], [[.fin 0], [.fin 1]], Nat.one_pos⟩

/-- `DEF:a=f.rrd:x:MAX:step=2` and the same with `reduce=AVERAGE`: the second one gets the maximum of the first. -/
theorem dataFetch_shares_reduction :
    let request : FetchRequest := { rrd := "f.rrd".toList, daemon := [], cf := .maximum, start := 920804400,
                                    endTime := 920804402, step := 2 }
    let im : Image := { step := 1, stepOrig := 1, allowMissingDs := false }
    let defs := [⟨request, "x".toList, none⟩, ⟨request, "x".toList, some .average⟩]
    (dataFetch twoSeconds im defs).map (·.map FetchedData.data) = some [[[.fin 1]], [[.fin 1]]] ∧
      (defs.mapM (fetchSingle twoSeconds im)).map (·.map FetchedData.data) = some [[[.fin 1]], [[.fin (1 / 2)]]] := by
  decide +kernel

end Rrdtool
