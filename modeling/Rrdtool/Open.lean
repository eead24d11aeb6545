import Rrdtool.Strtol
import Rrdtool.Lib.Checked

/-!
# Opening a file

`rrd_open` on the path that maps an existing file (`src/rrd_open.c`). The header is not copied: `__rrd_read`
checks that an array ends inside the file, lets the pointer to it point into the mapping and goes on behind it.
The counts are read from the file, and the sizes, like the offset, are of type `size_t`.

The arrays and the data area that the counts announce lie inside a file that is accepted exactly if their
sizes together are less than `2 ^ 64` (`rrdOpen_inside_iff`).
-/

namespace Rrdtool

/-! ### The mapping -/

/-- A file that `rrd_open` has mapped: `byte` is what stands in the memory from `data` on, of which the first
`fileLen` bytes are the file. `st_size` is an `off_t`. -/
structure MappedFile where
  byte : ℕ → UInt8
  fileLen : ℕ
  fileLen_lt : fileLen < 2 ^ 63

/-- The bytes of a little-endian `unsigned long`. -/
def MappedFile.ulongAt (m : MappedFile) (off : ℕ) : ℕ :=
  (List.range 8).foldr (fun i n => (m.byte (off + i)).toNat + 256 * n) 0

/-- The string at an offset. -/
def MappedFile.stringAt (m : MappedFile) (off : ℕ) : Text :=
  ((List.range (m.fileLen - off)).map fun i => Char.ofNat (m.byte (off + i)).toNat).takeWhile (· ≠ '\x00')

/-- `RRD_COOKIE`, with its terminator. -/
def rrdCookie : List UInt8 := [82, 82, 68, 0]

/-- `FLOAT_COOKIE`, 8.642135E130, as it lies in the file. No other double is equal to it. -/
def floatCookie : ℕ := 0x5b1f2b43c7c0252f

/-! Fields of `stat_head_t` and `rra_def_t`. -/

def MappedFile.cookie (m : MappedFile) : List UInt8 := (List.range 4).map m.byte
@[grind] def MappedFile.version (m : MappedFile) : Text := m.stringAt 4
@[grind] def MappedFile.dsCnt (m : MappedFile) : ℕ := m.ulongAt 24
def MappedFile.rraCnt (m : MappedFile) : ℕ := m.ulongAt 32

/-- `rra_def[ui].row_cnt`, where the definitions start at `rraDef`. -/
@[grind] def MappedFile.rowCnt (m : MappedFile) (rraDef ui : ℕ) : ℕ := m.ulongAt (rraDef + 120 * ui + 24)

/-! ### rrd_open -/

/-- What a pointer of `rrd_t` points to. -/
inductive RrdPart where
  | statHead | dsDef | rraDef | legacyLastUp | liveHead | pdpPrep | cdpPrep | rraPtr | rrdValue
deriving DecidableEq

/-- The `dst` of `__rrd_read`, as the messages name it. -/
@[grind] def RrdPart.name : RrdPart → String
  | .statHead => "rrd->stat_head"
  | .dsDef => "rrd->ds_def"
  | .rraDef => "rrd->rra_def"
  | .legacyLastUp => "rrd->legacy_last_up"
  | .liveHead => "rrd->live_head"
  | .pdpPrep => "rrd->pdp_prep"
  | .cdpPrep => "rrd->cdp_prep"
  | .rraPtr => "rrd->rra_ptr"
  | .rrdValue => "rrd->rrd_value"

/-- `sizeof` of an element. -/
@[grind] def RrdPart.sizeof : RrdPart → ℕ
  | .statHead => 128
  | .dsDef => 120
  | .rraDef => 120
  | .legacyLastUp => 8
  | .liveHead => 16
  | .pdpPrep => 112
  | .cdpPrep => 80
  | .rraPtr => 8
  | .rrdValue => 8

inductive OpenError where
  | eof (dst : RrdPart)
  | notRrd
  | architecture
  | version (version : Text)
  | tooSmall (correctLen : ℕ)
deriving DecidableEq

/-- The message left by `rrd_set_error`. -/
def OpenError.message (fileName : String) : OpenError → String
  | .eof dst => "reached EOF while loading header " ++ dst.name
  | .notRrd => "'" ++ fileName ++ "' is not an RRD file"
  | .architecture => "This RRD was created on another architecture"
  | .version text => "can't handle RRD file version " ++ String.ofList text
  | .tooSmall correctLen =>
    "'" ++ fileName ++ "' is too small (should be " ++ String.ofList (decimal (s64 correctLen)) ++ " bytes)"

/-- `__rrd_read_mmap`: the offset behind the array at `offset`. -/
def MappedFile.rrdRead (m : MappedFile) (dst : RrdPart) (cnt offset : ℕ) : Except OpenError ℕ :=
  let wanted := dst.sizeof * cnt % 2 ^ 64
  if m.fileLen < (offset + wanted) % 2 ^ 64 then .error (.eof dst) else .ok ((offset + wanted) % 2 ^ 64)

/-- The pointers that `rrd_open` sets, as offsets into the mapping, and the length of the header. -/
structure Opened where
  dsDef : ℕ
  rraDef : ℕ
  /-- `live_head`, or `legacy_last_up` before version 3 -/
  lastUp : ℕ
  pdpPrep : ℕ
  cdpPrep : ℕ
  rraPtr : ℕ
  headerLen : ℕ
deriving DecidableEq

/-- What holds the time of the last update: before version 3 a `time_t`. -/
def MappedFile.lastUpPart (m : MappedFile) : RrdPart := if atoi m.version < 3 then .legacyLastUp else .liveHead

/-- The sum over the archives, of type `unsigned long`. -/
def MappedFile.rowSum (m : MappedFile) (rraDef : ℕ) : ℕ :=
  (List.range m.rraCnt).foldl (fun rowCnt ui => (rowCnt + m.rowCnt rraDef ui) % 2 ^ 64) 0

/-- The checks on the static header. -/
def MappedFile.checkHead (m : MappedFile) : Except OpenError Unit :=
  if m.cookie ≠ rrdCookie then .error .notRrd
  else if m.ulongAt 16 ≠ floatCookie then .error .architecture
  else if 5 < atoi m.version then .error (.version m.version)
  else .ok ()

/-- `rrd_open` of a file that exists, once it is mapped; `readvalues` is the flag `RRD_READVALUES`. -/
def rrdOpen (m : MappedFile) (readvalues : Bool) : Except OpenError Opened := do
  let dsDef ← m.rrdRead .statHead 1 0
  m.checkHead
  let rraDef ← m.rrdRead .dsDef m.dsCnt dsDef
  let lastUp ← m.rrdRead .rraDef m.rraCnt rraDef
  let pdpPrep ← m.rrdRead m.lastUpPart 1 lastUp
  let cdpPrep ← m.rrdRead .pdpPrep m.dsCnt pdpPrep
  let rraPtr ← m.rrdRead .cdpPrep (m.rraCnt * m.dsCnt % 2 ^ 64) cdpPrep
  let headerLen ← m.rrdRead .rraPtr m.rraCnt rraPtr
  let correctLen := (headerLen + 8 * m.rowSum rraDef * m.dsCnt % 2 ^ 64) % 2 ^ 64
  if m.fileLen < correctLen then .error (.tooSmall correctLen)
  else
    if readvalues then
      let _ ← m.rrdRead .rrdValue (m.rowSum rraDef * m.dsCnt % 2 ^ 64) headerLen
    .ok ⟨dsDef, rraDef, lastUp, pdpPrep, cdpPrep, rraPtr, headerLen⟩

/-! ### What lies inside the file -/

/-- The arrays of an opened file and its data area, each with the size that the counts announce. -/
@[grind] def Opened.extents (f : Opened) (m : MappedFile) : List (ℕ × ℕ) :=
  [(0, 128),
    (f.dsDef, 120 * m.dsCnt),
    (f.rraDef, 120 * m.rraCnt),
    (f.lastUp, m.lastUpPart.sizeof),
    (f.pdpPrep, 112 * m.dsCnt),
    (f.cdpPrep, 80 * (m.rraCnt * m.dsCnt)),
    (f.rraPtr, 8 * m.rraCnt),
    (f.headerLen, 8 * ((List.range m.rraCnt).map (m.rowCnt f.rraDef)).sum * m.dsCnt)]

/-- All of it lies inside the file. -/
@[grind] def Opened.Inside (f : Opened) (m : MappedFile) : Prop := ∀ e ∈ f.extents m, e.1 + e.2 ≤ m.fileLen

/-- The size of a file with the counts of this one. -/
def MappedFile.announced (m : MappedFile) : ℕ :=
  128 + 120 * m.dsCnt + 120 * m.rraCnt + m.lastUpPart.sizeof + 112 * m.dsCnt + 80 * (m.rraCnt * m.dsCnt) +
    8 * m.rraCnt + 8 * ((List.range m.rraCnt).map (m.rowCnt (128 + 120 * m.dsCnt))).sum * m.dsCnt

variable {m : MappedFile}

lemma rrdRead_ok {dst : RrdPart} {cnt offset offset' : ℕ} (h : m.rrdRead dst cnt offset = .ok offset') :
    offset' = (offset + dst.sizeof * cnt) % 2 ^ 64 ∧ offset' ≤ m.fileLen := by
  simp only [MappedFile.rrdRead, Nat.add_mod_mod] at h
  split at h
  case isTrue => cases h
  case isFalse hle =>
    cases h
    exact ⟨rfl, Nat.le_of_not_lt hle⟩

/-- Reducing the sum after every archive is reducing it once. -/
lemma rowSum_eq (m : MappedFile) (rraDef : ℕ) :
    m.rowSum rraDef = ((List.range m.rraCnt).map (m.rowCnt rraDef)).sum % 2 ^ 64 := by
  have hgen : ∀ (uis : List ℕ) (acc : ℕ),
      uis.foldl (fun rowCnt ui => (rowCnt + m.rowCnt rraDef ui) % 2 ^ 64) (acc % 2 ^ 64) =
        (acc + (uis.map (m.rowCnt rraDef)).sum) % 2 ^ 64 := by
    intro uis
    induction uis with
    | nil => exact fun acc => rfl
    | cons ui uis ih =>
      intro acc
      rw [List.foldl_cons, Nat.mod_add_mod, ih, List.map_cons, List.sum_cons, Nat.add_assoc]
  have h := hgen (List.range m.rraCnt) 0
  rwa [Nat.zero_add] at h

/-- What an accepted file has passed: every offset is the end of the array before it, modulo `2 ^ 64`. -/
structure Opened.Checked (f : Opened) (m : MappedFile) : Prop where
  dsDef : f.dsDef = 128
  rraDef : f.rraDef = (f.dsDef + 120 * m.dsCnt) % 2 ^ 64
  lastUp : f.lastUp = (f.rraDef + 120 * m.rraCnt) % 2 ^ 64
  pdpPrep : f.pdpPrep = (f.lastUp + m.lastUpPart.sizeof) % 2 ^ 64
  cdpPrep : f.cdpPrep = (f.pdpPrep + 112 * m.dsCnt) % 2 ^ 64
  rraPtr : f.rraPtr = (f.cdpPrep + 80 * (m.rraCnt * m.dsCnt)) % 2 ^ 64
  headerLen : f.headerLen = (f.rraPtr + 8 * m.rraCnt) % 2 ^ 64
  inside : f.dsDef ≤ m.fileLen ∧ f.rraDef ≤ m.fileLen ∧ f.lastUp ≤ m.fileLen ∧ f.pdpPrep ≤ m.fileLen ∧
    f.cdpPrep ≤ m.fileLen ∧ f.rraPtr ≤ m.fileLen ∧ f.headerLen ≤ m.fileLen
  correctLen : (f.headerLen + 8 * ((List.range m.rraCnt).map (m.rowCnt f.rraDef)).sum * m.dsCnt) % 2 ^ 64 ≤ m.fileLen

lemma rrdOpen_checked {readvalues : Bool} {f : Opened} (h : rrdOpen m readvalues = .ok f) : f.Checked m := by
  obtain ⟨dsDef, hdsDef, h⟩ := Checked.bind_eq_ok h
  obtain ⟨_, -, h⟩ := Checked.bind_eq_ok h
  obtain ⟨rraDef, hrraDef, h⟩ := Checked.bind_eq_ok h
  obtain ⟨lastUp, hlastUp, h⟩ := Checked.bind_eq_ok h
  obtain ⟨pdpPrep, hpdpPrep, h⟩ := Checked.bind_eq_ok h
  obtain ⟨cdpPrep, hcdpPrep, h⟩ := Checked.bind_eq_ok h
  obtain ⟨rraPtr, hrraPtr, h⟩ := Checked.bind_eq_ok h
  obtain ⟨headerLen, hheaderLen, h⟩ := Checked.bind_eq_ok h
  simp only [Nat.add_mod_mod] at h
  split at h
  case isTrue => cases h
  case isFalse hlen =>
    obtain rfl : (⟨dsDef, rraDef, lastUp, pdpPrep, cdpPrep, rraPtr, headerLen⟩ : Opened) = f := by
      cases readvalues with
      | false => exact Except.ok.inj h
      | true =>
        obtain ⟨_, -, h⟩ := Checked.bind_eq_ok h
        exact Except.ok.inj h
    obtain ⟨hdsDef, hdsDef'⟩ := rrdRead_ok hdsDef
    obtain ⟨hrraDef, hrraDef'⟩ := rrdRead_ok hrraDef
    obtain ⟨hlastUp, hlastUp'⟩ := rrdRead_ok hlastUp
    obtain ⟨hpdpPrep, hpdpPrep'⟩ := rrdRead_ok hpdpPrep
    obtain ⟨hcdpPrep, hcdpPrep'⟩ := rrdRead_ok hcdpPrep
    obtain ⟨hrraPtr, hrraPtr'⟩ := rrdRead_ok hrraPtr
    obtain ⟨hheaderLen, hheaderLen'⟩ := rrdRead_ok hheaderLen
    refine ⟨hdsDef, hrraDef, hlastUp, ?_, hcdpPrep, ?_, hheaderLen,
      ⟨hdsDef', hrraDef', hlastUp', hpdpPrep', hcdpPrep', hrraPtr', hheaderLen'⟩, ?_⟩
    · rwa [Nat.mul_one] at hpdpPrep
    · rw [hrraPtr, Nat.add_mod, Nat.mul_mod_mod, ← Nat.add_mod]
      rfl
    · have hsum := Nat.le_of_not_lt hlen
      have hmod := (((Nat.mod_modEq ((List.range m.rraCnt).map (m.rowCnt rraDef)).sum (2 ^ 64)).mul_left 8).mul_right
        m.dsCnt).add_left headerLen
      rw [rowSum_eq] at hsum
      exact hmod.symm.trans_le hsum

lemma eq_of_mod {a b : ℕ} (h : a = b % 2 ^ 64) (hb : b < 2 ^ 64) : a = b := h.trans (Nat.mod_eq_of_lt hb)

/-- Sizes that do not wrap around give the offsets that they announce. -/
lemma Opened.Checked.exact {f : Opened} (h : f.Checked m) (hlt : m.announced < 2 ^ 64) :
    f.rraDef = f.dsDef + 120 * m.dsCnt ∧ f.lastUp = f.rraDef + 120 * m.rraCnt ∧
      f.pdpPrep = f.lastUp + m.lastUpPart.sizeof ∧ f.cdpPrep = f.pdpPrep + 112 * m.dsCnt ∧
      f.rraPtr = f.cdpPrep + 80 * (m.rraCnt * m.dsCnt) ∧ f.headerLen = f.rraPtr + 8 * m.rraCnt ∧
      f.headerLen + 8 * ((List.range m.rraCnt).map (m.rowCnt f.rraDef)).sum * m.dsCnt = m.announced := by
  have hds := h.dsDef
  have hrra : f.rraDef = f.dsDef + 120 * m.dsCnt := by
    refine eq_of_mod h.rraDef (lt_of_le_of_lt ?_ hlt)
    unfold MappedFile.announced
    omega
  have hsize : m.announced = f.rraDef + 120 * m.rraCnt + m.lastUpPart.sizeof + 112 * m.dsCnt +
      80 * (m.rraCnt * m.dsCnt) + 8 * m.rraCnt +
      8 * ((List.range m.rraCnt).map (m.rowCnt f.rraDef)).sum * m.dsCnt := by
    rw [hrra, hds]
    rfl
  have hup := eq_of_mod h.lastUp (by omega)
  have hpdp := eq_of_mod h.pdpPrep (by omega)
  have hcdp := eq_of_mod h.cdpPrep (by omega)
  have hptr := eq_of_mod h.rraPtr (by omega)
  have hlen := eq_of_mod h.headerLen (by omega)
  exact ⟨hrra, hup, hpdp, hcdp, hptr, hlen, by omega⟩

/-- A file that is accepted has all that its counts announce exactly if the sizes together do not wrap around. -/
theorem rrdOpen_inside_iff (m : MappedFile) (readvalues : Bool) (f : Opened) (h : rrdOpen m readvalues = .ok f) :
    f.Inside m ↔ m.announced < 2 ^ 64 := by
  have hc := rrdOpen_checked h
  have hfile : m.fileLen < 2 ^ 64 := lt_trans m.fileLen_lt (by norm_num)
  constructor
  · intro hinside
    simp only [Opened.Inside, Opened.extents, List.forall_mem_cons] at hinside
    obtain ⟨-, hds, hrra, hup, hpdp, hcdp, hptr, hdata, -⟩ := hinside
    -- each array ends inside the file, so the next one starts where it ends
    have hrra' := eq_of_mod hc.rraDef (hds.trans_lt hfile)
    have hup' := eq_of_mod hc.lastUp (hrra.trans_lt hfile)
    have hpdp' := eq_of_mod hc.pdpPrep (hup.trans_lt hfile)
    have hcdp' := eq_of_mod hc.cdpPrep (hpdp.trans_lt hfile)
    have hptr' := eq_of_mod hc.rraPtr (hcdp.trans_lt hfile)
    have hlen' := eq_of_mod hc.headerLen (hptr.trans_lt hfile)
    have hsize : m.announced = f.headerLen +
        8 * ((List.range m.rraCnt).map (m.rowCnt f.rraDef)).sum * m.dsCnt := by
      rw [hlen', hptr', hcdp', hpdp', hup', hrra', hc.dsDef]
      rfl
    rw [hsize]
    exact hdata.trans_lt hfile
  · intro hlt
    obtain ⟨hrra, hup, hpdp, hcdp, hptr, hlen, hsize⟩ := hc.exact hlt
    have hdata := hc.correctLen
    rw [hsize, Nat.mod_eq_of_lt hlt] at hdata
    obtain ⟨hds', hrra', hup', hpdp', hcdp', hptr', hlen'⟩ := hc.inside
    simp only [Opened.Inside, Opened.extents, List.forall_mem_cons]
    refine ⟨hc.dsDef.symm.trans_le hds', hrra.symm.trans_le hrra', hup.symm.trans_le hup', hpdp.symm.trans_le hpdp',
      hcdp.symm.trans_le hcdp', hptr.symm.trans_le hptr', hlen.symm.trans_le hlen', hsize.trans_le hdata,
      List.forall_mem_nil _⟩

/-- The bytes of an `unsigned long`. -/
def ulongBytes (n : ℕ) : List UInt8 := (List.range 8).map fun i => UInt8.ofNat (n / 256 ^ i)

/-- A version 3 header for `dsCnt` data sources with one archive of `rowCnt` rows, behind which `behind` zeros
stand. -/
def headBytes (dsCnt rowCnt behind : ℕ) : List UInt8 :=
  rrdCookie ++ [48, 48, 48, 51] ++ List.replicate 8 0 ++ ulongBytes floatCookie ++ ulongBytes dsCnt ++ ulongBytes 1 ++
    ulongBytes 300 ++ List.replicate 80 0 ++ List.replicate (120 * dsCnt % 2 ^ 64) 0 ++ List.replicate 24 0 ++
    ulongBytes rowCnt ++ List.replicate (88 + behind) 0

/-- A file of these bytes. -/
def mapBytes (bytes : List UInt8) (h : bytes.length < 2 ^ 63) : MappedFile := ⟨fun i => bytes.getD i 0, bytes.length, h⟩

/-- One data source and three rows. -/
def smallFile : MappedFile := mapBytes (headBytes 1 3 240) (by decide +kernel)

theorem rrdOpen_inside_iff_smallFile :
    ∃ f, rrdOpen smallFile true = .ok f ∧ (f.Inside smallFile ↔ smallFile.announced < 2 ^ 64) :=
  have h : rrdOpen smallFile true = .ok ⟨128, 248, 368, 384, 496, 576, 584⟩ := by decide +kernel
  ⟨_, h, rrdOpen_inside_iff smallFile true _ h⟩

/-- Of `2 ^ 61` data sources every array has a multiple of `2 ^ 64` bytes. -/
def hugeFile : MappedFile := mapBytes (headBytes (2 ^ 61) 1 24) (by decide +kernel)

/-- A file of 272 bytes is accepted although its definitions alone would need more than the address space. -/
theorem rrdOpen_accepts_wrapped :
    hugeFile.fileLen = 272 ∧ hugeFile.dsCnt = 2 ^ 61 ∧
      ∃ f, rrdOpen hugeFile false = .ok f ∧ ¬ f.Inside hugeFile := by
  have h : rrdOpen hugeFile false = .ok ⟨128, 128, 248, 264, 264, 264, 272⟩ := by decide +kernel
  refine ⟨by decide +kernel, by decide +kernel, _, h, fun hinside => ?_⟩
  have hds := hinside (128, 120 * hugeFile.dsCnt) (by simp [Opened.extents])
  exact absurd hds (by decide +kernel)

end Rrdtool
