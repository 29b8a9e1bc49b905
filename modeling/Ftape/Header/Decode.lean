import Ftape.Algebra.ByteOrder
import Ftape.Bsm.Driver
import Ftape.Write.Ring

/-!
# Decoding the header segment

`ftape_decode_header_segment()` takes the geometry of the cartridge from a header segment that was
read from tape, or that `set_format_parms()` made up. Numbers are those of the machine: `unsigned
int` is arithmetic modulo 2 ^ 32. A division by zero gives no result.
-/

namespace Ftape.Header

open Ftape.Algebra Ftape.Bsm Ftape.Write

/-- `FT_SIGNATURE`. -/
def ftSignature : ℕ := 0

/-- `FT_FMT_CODE`. -/
def ftFmtCode : ℕ := 4

/-- `FT_HSEG_1`, `FT_HSEG_2`, `FT_FRST_SEG` and `FT_LAST_SEG`. -/
def ftHseg1 : ℕ := 6
def ftHseg2 : ℕ := 8
def ftFrstSeg : ℕ := 10
def ftLastSeg : ℕ := 12

/-- `FT_SPT`, `FT_TPC`, `FT_FHM`, `FT_FTM` and `FT_FSM`. -/
def ftSpt : ℕ := 24
def ftTpc : ℕ := 26
def ftFhm : ℕ := 27
def ftFtm : ℕ := 28
def ftFsm : ℕ := 29

/-- `FT_6_HSEG_1`, `FT_6_HSEG_2`, `FT_6_FRST_SEG` and `FT_6_LAST_SEG`. -/
def ft6Hseg1 : ℕ := 234
def ft6Hseg2 : ℕ := 238
def ft6FrstSeg : ℕ := 242
def ft6LastSeg : ℕ := 246

/-- `FT_HSEG_MAGIC`. -/
def ftHsegMagic : ℕ := 0xaa55aa55

/-- `FT_D2G_MAGIC`. -/
def ftD2gMagic : ℕ := 0x82288228

/-- `FT_SECOND`. -/
def ftSecond : ℤ := 1000

/-- `QIC_TOP_TAPE_LEN`. -/
def qicTopTapeLen : ℕ := 1500

/-- `segments_per_cylinder`, set once by `ftape_init_driver()`. -/
def segmentsPerCylinder : ℕ := 4

/-- A value converted to `unsigned int`. -/
def uint (value : ℕ) : ℕ := value % 0x100000000

/-- A value converted to `int`. -/
def int (value : ℤ) : ℤ := value.bmod 0x100000000

/-- A value in the range of `int` stays what it is. -/
theorem int_eq_self {value : ℤ} (hlow : -0x80000000 ≤ value) (hhigh : value < 0x80000000) :
    int value = value := by
  unfold int
  rw [Int.bmod_eq_of_le_mul_two (by push_cast; omega) (by push_cast; omega)]

/-- Every `int` is below 2 ^ 31. -/
theorem int_lt (value : ℤ) : int value < 0x80000000 := Int.bmod_lt (by decide)

/-- An `unsigned int` that is not negative as `int` stays what it is. -/
theorem int_of_nonneg {value : ℕ} (hlt : value < 0x100000000) (hnonneg : 0 ≤ int value) :
    int value = value := by
  by_cases hhigh : value < 0x80000000
  · exact int_eq_self (by omega) (by omega)
  · have hwrap : int value = (value : ℤ) - 0x100000000 := by
      unfold int
      rw [Int.bmod_eq_emod, Int.emod_eq_of_lt (by omega) (by push_cast; omega)]
      rw [if_pos (by push_cast; omega)]
      rfl
    omega

/-- A division, without a result when the divisor is zero. -/
def divide (a b : ℕ) : Option ℕ := if b = 0 then none else some (a / b)

/-- A signed division, without a result when the divisor is zero. -/
def divideInt (a b : ℤ) : Option ℤ := if b = 0 then none else some (a.tdiv b)

/-- `qic_std_t`. -/
inductive QicStd where
  | qicUnknown
  | qic40
  | qic80
  | qic3010
  | qic3020
  | dittoMax
deriving DecidableEq

/-- The values of `ft_format_type` that a format code may have. -/
def formatOf (code : Byte) : Option FormatCode :=
  match code.toNat with
  | 2 => some .fmtNormal
  | 3 => some .fmt1100ft
  | 4 => some .fmtVar
  | 5 => some .fmt425ft
  | 6 => some .fmtBig
  | _ => none

/-- The fields of `ft_timeout_table` and of the drive type that the timeouts are made from. -/
structure Timeouts where
  seek : ℤ
  rewind : ℤ
  reset : ℤ
  dt : ℕ
  firstTime : Bool
  speed : ℤ

/-- The fields of `ftape_info_t` that decoding a header segment uses. -/
structure FtapeInfo where
  bsm : Bsm.FtapeInfo
  formatCode : Byte
  headerSegment1 : ℤ
  headerSegment2 : ℤ
  firstDataSegment : ℤ
  lastDataSegment : ℤ
  segmentsPerTrack : ℕ
  tracksPerTape : ℕ
  segmentsPerHead : ℕ
  dittoMaxExt : Bool
  qicStd : QicStd
  dataRate : ℕ
  tapeLen : ℕ
  timeout : Timeouts

/-- `ftape_init_driver()`. -/
def ftapeInitDriver : FtapeInfo where
  bsm := ⟨-1, .fmtVar, fun _ => 0, none, none, 0, 0⟩
  formatCode := 0
  headerSegment1 := -1
  headerSegment2 := -1
  firstDataSegment := -1
  lastDataSegment := -1
  segmentsPerTrack := 102
  tracksPerTape := 20
  segmentsPerHead := 1020
  dittoMaxExt := false
  qicStd := .qicUnknown
  dataRate := 500
  tapeLen := 0
  timeout := ⟨650 * ftSecond, 650 * ftSecond, 670 * ftSecond, 0, true, 0⟩

/-- The speed `ftape_calc_timeouts()` assumes for a standard and a data rate. -/
def transportSpeed (qicStd : QicStd) (dataRate : ℕ) : ℤ :=
  match qicStd with
  | .qic40 => if dataRate = 250 then 250 else 500
  | .qic80 => if dataRate = 500 then 340 else 680
  | .qic3010 => if dataRate = 500 then 226 else 452
  | .qic3020 => if dataRate = 1000 then 226 else 452
  | .dittoMax => if dataRate = 3000 then 510 else if dataRate = 4000 then 680 else 340
  | .qicUnknown => 500

/-- The part of `ftape_calc_timeouts()` that times a drive of unknown speed. `windTime` is the time
the drive takes to wind to the end of the tape and back. -/
def measureSpeed (windTime : ℕ) (timeout : Timeouts) (tapeLen : ℕ) : Option Timeouts :=
  if timeout.speed ≠ 0 then some timeout
  else
    let timeout := if timeout.firstTime then { timeout with dt := max windTime 1, firstTime := false }
      else timeout
    if tapeLen = 0 then some timeout
    else do
      let speed ← divide (uint (2 * 12 * tapeLen * 1000)) timeout.dt
      some { timeout with speed := int speed }

/-- `ftape_calc_timeouts()`. -/
def ftapeCalcTimeouts (windTime : ℕ) (timeout : Timeouts) (qicStd : QicStd) (dataRate tapeLen : ℕ) :
    Option Timeouts := do
  let speed := transportSpeed qicStd dataRate
  let timeout ← measureSpeed windTime timeout tapeLen
  let length : ℤ := if tapeLen = 0 then qicTopTapeLen else int tapeLen
  let ffSpeed := if timeout.speed = 0 then speed else timeout.speed
  let seek ← divideInt (int (length * 132 * ftSecond)) speed
  let rewind ← divideInt (int (length * 144 * ftSecond)) (int (10 * ffSpeed))
  some { timeout with seek := seek, rewind := rewind, reset := 20 * ftSecond + rewind }

/-- The first test of `ftape_decode_header_segment()`: the header segment with its bad sector map
decrypted, unless the signature is wrong. -/
def checkSignature (bigEndian : Bool) (address : ℕ → Byte) : Option (ℕ → Byte) :=
  if fetch bigEndian address ftSignature 4 = ftD2gMagic then
    some (store bigEndian (fun i =>
      if 256 ≤ i ∧ i < 29 * ftSectorSize then ~~~(address i - BitVec.ofNat 8 i) else address i)
      0 4 ftHsegMagic)
  else if fetch bigEndian address ftSignature 4 = ftHsegMagic then some address
  else none

/-- The header and data segments that a header segment names. -/
def readSegmentRange (bigEndian : Bool) (ftape : FtapeInfo) (address : ℕ → Byte) : FtapeInfo :=
  if formatOf ftape.formatCode ≠ some .fmtBig then
    { ftape with
      headerSegment1 := fetch bigEndian address ftHseg1 2
      headerSegment2 := fetch bigEndian address ftHseg2 2
      firstDataSegment := fetch bigEndian address ftFrstSeg 2
      lastDataSegment := fetch bigEndian address ftLastSeg 2 }
  else
    { ftape with
      headerSegment1 := int (fetch bigEndian address ft6Hseg1 4)
      headerSegment2 := int (fetch bigEndian address ft6Hseg2 4)
      firstDataSegment := int (fetch bigEndian address ft6FrstSeg 4)
      lastDataSegment := int (fetch bigEndian address ft6LastSeg 4) }

/-- The tape length that goes with a format. -/
def newTapeLen (fmt : FormatCode) (qicStd : QicStd) (segmentsPerTrack tapeLen : ℕ) : Option ℕ :=
  match fmt with
  | .fmt425ft => some 425
  | .fmtNormal => some (if tapeLen = 0 then 205 else tapeLen)
  | .fmt1100ft => some 1100
  | .fmtBig | .fmtVar =>
    let segmentsPer1000Feet := match qicStd with
      | .qicUnknown | .qic40 => 332
      | .qic80 => 488
      | .qic3010 => 730
      | .qic3020 => 1430
      | .dittoMax => 1940
    divide (uint (1000 * segmentsPerTrack + (segmentsPer1000Feet - 1))) segmentsPer1000Feet

/-- The tape parameters of a header segment, on their way through the tests for known mistakes. -/
structure Parameters where
  segmentsPerTrack : ℕ
  tracksPerTape : ℕ
  maxFloppySide : ℕ
  maxFloppyTrack : ℕ
  maxFloppySector : ℕ
deriving DecidableEq

/-- The values for headers that have none, with those for a Xenix tape. -/
def Parameters.orDefault (p : Parameters) (lastDataSegment : ℤ) : Parameters :=
  if p = ⟨0, 0, 0, 0, 0⟩ then
    if lastDataSegment = 2799 then ⟨100, 28, 4, 149, 128⟩ else ⟨68, 20, 1, 169, 128⟩
  else p

/-- The tests that compensate for mistakes of known formatting programs, in their order. -/
def Parameters.compensate (p : Parameters) (formatCode : Byte) : Parameters :=
  -- Conner, then ComByte for 205 foot and for 307 foot tapes
  let p := if p = ⟨150, 28, 7, 149, 128⟩ then { p with maxFloppySide := 6 } else p
  let p := if p = ⟨100, 28, 9, 149, 128⟩ then { p with maxFloppySide := 4 } else p
  let p := if p = ⟨150, 28, 9, 149, 128⟩ then { p with maxFloppySide := 6 } else p
  -- Colorado, then OS/2
  let p := if p = ⟨150, 28, 6, 150, 128⟩ then { p with maxFloppyTrack := 149 } else p
  let p := if p = ⟨150, 28, 6, 254, 128⟩ then { p with maxFloppyTrack := 149 } else p
  let p := if (formatOf formatCode = some .fmtVar ∨ formatOf formatCode = some .fmtBig) ∧
      p.tracksPerTape = 50 ∧ p.maxFloppySide = 54 ∧ p.maxFloppyTrack = 255 ∧
      p.maxFloppySector = 128 then { p with maxFloppyTrack := 254 } else p
  -- Imation
  if formatCode.toNat = 6 ∧ p = ⟨1414, 62, 2, 254, 128⟩ then { p with maxFloppySide := 85 } else p

/-- The last part of `ftape_decode_header_segment()`: `segments_per_head` and whether the parameters
are consistent. The message about parameters that are not divides as well. -/
def Parameters.verify (p : Parameters) : Option (ℕ × Bool) := do
  let segmentsPerHead := p.maxFloppySector / ftSectorsPerSegment * (p.maxFloppyTrack + 1)
  let last := uint (uint (p.segmentsPerTrack * p.tracksPerTape) + 0xffffffff)
  let shouldBe ← divide last segmentsPerHead
  let maxFloppySide := if uint (p.maxFloppySide + 0x100000000 - shouldBe) = 1 then
    uint (p.maxFloppySide + 0xffffffff) else p.maxFloppySide
  if segmentsPerHead = 0 ∨ segmentsPerCylinder = 0 ∨ shouldBe ≠ maxFloppySide ∨
      uint (segmentsPerHead / segmentsPerCylinder + 0xffffffff) ≠ p.maxFloppyTrack ∨
      segmentsPerCylinder * ftSectorsPerSegment ≠ p.maxFloppySector then do
    let _ ← divide last segmentsPerHead
    let _ ← divide segmentsPerHead segmentsPerCylinder
    some (segmentsPerHead, false)
  else some (segmentsPerHead, true)

/-- The tape parameters of a header segment. -/
def readParameters (bigEndian : Bool) (address : ℕ → Byte) : Parameters :=
  ⟨fetch bigEndian address ftSpt 2, (address ftTpc).toNat, (address ftFhm).toNat,
    (address ftFtm).toNat, (address ftFsm).toNat⟩

/-- The geometry that a header segment names, with the standard of a Ditto Max cartridge. -/
def readGeometry (bigEndian : Bool) (ftape : FtapeInfo) (address : ℕ → Byte) : FtapeInfo :=
  let p := readParameters bigEndian address
  { ftape with
    segmentsPerTrack := p.segmentsPerTrack
    tracksPerTape := p.tracksPerTape
    qicStd := if 50 < p.tracksPerTape ∧ ftape.dittoMaxExt then .dittoMax else ftape.qicStd }

/-- The timeouts for a tape length that a header segment implies. -/
def newTimeouts (windTime : ℕ) (ftape : FtapeInfo) (tapeLen : ℕ) : Option Timeouts :=
  if tapeLen ≠ ftape.tapeLen then
    ftapeCalcTimeouts windTime ftape.timeout ftape.qicStd ftape.dataRate tapeLen
  else some ftape.timeout

/-- The part of `ftape_decode_header_segment()` that is for headers of a known format. -/
def verifyHeader (bigEndian : Bool) (windTime : ℕ) (fmt : FormatCode) (ftape : FtapeInfo)
    (address : ℕ → Byte) : Option (FtapeInfo × Except Errno Unit) := do
  let tapeLen ← newTapeLen fmt ftape.qicStd ftape.segmentsPerTrack ftape.tapeLen
  let timeout ← newTimeouts windTime ftape tapeLen
  let p := ((readParameters bigEndian address).orDefault ftape.lastDataSegment).compensate
    ftape.formatCode
  let (segmentsPerHead, consistent) ← p.verify
  let ftape := { ftape with
    tapeLen := tapeLen
    timeout := timeout
    segmentsPerTrack := p.segmentsPerTrack
    tracksPerTape := p.tracksPerTape
    segmentsPerHead := segmentsPerHead }
  if consistent then
    some ({ ftape with
      bsm := ftapeExtractBadSectorMap { ftape.bsm with formatCode := fmt } address }, .ok ())
  else some (ftape, .error .eio)

/-- `ftape_decode_header_segment()`: the new state with the outcome. -/
def ftapeDecodeHeaderSegment (bigEndian : Bool) (windTime : ℕ) (ftape : FtapeInfo)
    (address : ℕ → Byte) : Option (FtapeInfo × Except Errno Unit) :=
  match checkSignature bigEndian address with
  | none => some (ftape, .error .eio)
  | some address =>
    let ftape := { ftape with formatCode := address ftFmtCode }
    let ftape := readGeometry bigEndian (readSegmentRange bigEndian ftape address) address
    match formatOf ftape.formatCode with
    | none => some (ftape, .error .eio)
    | some fmt => verifyHeader bigEndian windTime fmt ftape address

/-- `struct ftfmtparms`, less what only goes to the controller. -/
structure FormatParms where
  fmtCode : Byte
  spt : BitVec 16
  tpc : BitVec 16
  fhm : Byte
  ftm : Byte

/-- The header segment that `set_format_parms()` makes up. -/
def formatHeader (bigEndian : Bool) (p : FormatParms) : ℕ → Byte :=
  let hseg := store bigEndian (fun _ => 0) ftSignature 4 ftHsegMagic
  let hseg := Function.update hseg ftFmtCode p.fmtCode
  let hseg := store bigEndian hseg ftSpt 2 p.spt.toNat
  let hseg := Function.update hseg ftTpc (p.tpc.setWidth 8)
  let hseg := Function.update hseg ftFhm p.fhm
  let hseg := Function.update hseg ftFtm p.ftm
  let hseg := Function.update hseg ftFsm 128
  let last := uint (uint (p.spt.toNat * p.tpc.toNat) + 0xffffffff)
  if p.fmtCode.toNat = 6 then
    let hseg := store bigEndian hseg ft6Hseg1 4 0
    let hseg := store bigEndian hseg ft6Hseg2 4 1
    let hseg := store bigEndian hseg ft6FrstSeg 4 2
    store bigEndian hseg ft6LastSeg 4 last
  else
    let hseg := store bigEndian hseg ftHseg1 2 0
    let hseg := store bigEndian hseg ftHseg2 2 1
    let hseg := store bigEndian hseg ftFrstSeg 2 2
    store bigEndian hseg ftLastSeg 2 last

end Ftape.Header
