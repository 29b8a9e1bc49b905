import Ftape.Header.Decode
import Ftape.Write.Ring

/-!
# Reading segments in the interrupt handler

A segment is read in clusters of good sectors. Each interrupt tells how far the controller got; the
handler moves the cursors of the buffer on, skips a sector that failed, and starts the next cluster,
the next segment or a retry. What the DMA controller moved into a buffer is logged.
-/

namespace Ftape.Isr

open Ftape.Write

/-- `enum runner_status_enum`. -/
inductive RunnerStatus where
  | idle
  | running
  | doAbort
  | aborting
  | logicalEot
  | endOfTape
deriving DecidableEq

/-- `ft_error_cause_t`. -/
inductive ErrorCause where
  | noError
  | idAmError
  | idCrcError
  | dataAmError
  | dataCrcError
  | noDataError
  | overrunError
deriving DecidableEq

/-- `FAKE_SEGMENT`, all but the first sector bad. -/
def fakeSegment : SectorMap := 0xfffffffe

/-- `FT_SECTORS_PER_SEGMENT`, in a form arithmetic sees through. -/
theorem sectorsPerSegment_eq : ftSectorsPerSegment = 32 := rfl

/-- A value converted to `unsigned int`. -/
def toUint (value : ℤ) : ℕ := (value % 0x100000000).toNat

/-- A value in the range of `unsigned int` stays what it is. -/
@[simp] theorem toUint_natCast {n : ℕ} (h : n < 0x100000000) : toUint n = n := by
  rw [toUint]
  omega

/-- The fields of `buffer_struct` that reading uses. `moved` logs the sectors the DMA controller
moved into the buffer, with the address of each. -/
structure Buffer where
  dmaAddress : ℕ
  ptr : ℕ
  status : BufferState
  bytes : ℕ
  segmentId : ℕ
  badSectorMap : SectorMap
  softErrorMap : SectorMap
  hardErrorMap : SectorMap
  retry : ℤ
  shortStart : Bool
  skip : ℕ
  dataOffset : ℕ
  sectorOffset : ℕ
  sectorCount : ℕ
  remaining : ℕ
  nextSegment : ℕ
  deleted : Bool
  head : Byte
  cyl : Byte
  sect : Byte
  moved : List (ℕ × ℕ)

/-- What does not change while segments are read: `ftape_get_bad_sector_entry()`, the geometry of the
tape, the controller, and the module parameters. -/
structure Setting where
  badSectorEntry : ℕ → SectorMap
  segmentsPerHead : ℕ
  segmentsPerCylinder : ℕ
  segmentsPerTrack : ℕ
  dittoEz : Bool
  ftSoftRetries : ℤ
  ftIgnoreEccErr : Bool

/-- The fields of `ftape_info_t` and `fdc_info_t` that reading uses, with the ring of buffers from
`HEAD` on. -/
structure Runner where
  ring : List Buffer
  oldSegmentId : ℤ
  lastSegmentSkipped : ℤ
  runnerStatus : RunnerStatus
  stopReadAhead : Bool

/-- `(1 << offset) - 1`, a bit for each sector in front of an offset. -/
def offsetMask (offset : ℕ) : SectorMap := ((1 : SectorMap) <<< offset) - 1

/-- The loop of `setup_segment()` that takes the bad sectors out of the mask. Shifting on after the
map is zero changes nothing, so the number of rounds is the width of the map. -/
def packMask : ℕ → SectorMap → SectorMap → SectorMap
  | 0, _, offsetMask => offsetMask
  | rounds + 1, mask, offsetMask =>
    packMask rounds (mask >>> 1) (if mask.getLsbD 0 then offsetMask >>> 1 else offsetMask)

/-- `setup_segment()`. The log keeps what is skipped. -/
def setupSegment (setting : Setting) (buff : Buffer) (segmentId sectorOffset sectorCount : ℕ)
    (retry : Bool) : Buffer :=
  let entry := setting.badSectorEntry segmentId
  let mask := packMask 32 (entry &&& offsetMask sectorOffset) (offsetMask sectorOffset)
  let dataOffset := countOnes mask
  let badSectorMap := if 0 < sectorOffset then entry >>> sectorOffset else entry
  { buff with
    segmentId := segmentId
    sectorOffset := sectorOffset
    remaining := sectorCount
    head := BitVec.ofNat 8 (segmentId / setting.segmentsPerHead)
    cyl := BitVec.ofNat 8 (segmentId % setting.segmentsPerHead / setting.segmentsPerCylinder)
    sect := BitVec.ofNat 8 (segmentId % setting.segmentsPerCylinder * ftSectorsPerSegment + 1)
    deleted := false
    dataOffset := dataOffset
    ptr := buff.dmaAddress + dataOffset * ftSectorSize
    softErrorMap := if retry then buff.softErrorMap &&& mask else 0
    hardErrorMap := if retry then buff.hardErrorMap else 0
    badSectorMap := if badSectorMap = emptySegment then fakeSegment else badSectorMap
    nextSegment := segmentId + 1
    moved := buff.moved.filter (·.1 < sectorOffset) }

/-- `ftape_setup_new_segment()` for a retry: where to go on, and the skip that is kept. -/
def retrySkip (setting : Setting) (runner : Runner) (buff : Buffer) (segmentId : ℕ) (skip : Bool) :
    Runner × Buffer × ℕ :=
  if skip ∧ 0 < buff.skip then
    if setting.ftIgnoreEccErr ∧ 1 < buff.skip ∧ buff.skip < ftSectorsPerSegment - 1 ∧
        runner.lastSegmentSkipped ≠ segmentId then
      ({ runner with lastSegmentSkipped := segmentId }, { buff with skip := ftSectorsPerSegment - 1 },
        ftSectorsPerSegment - 1)
    else (runner, buff, buff.skip)
  else (runner, buff, 0)

/-- `ftape_setup_new_segment()`. -/
def ftapeSetupNewSegment (setting : Setting) (runner : Runner) (buff : Buffer) (segmentId : ℕ)
    (skip : Bool) : Runner × Buffer :=
  if runner.oldSegmentId = segmentId then
    let (runner, buff, offset) :=
      retrySkip setting runner { buff with retry := buff.retry + 1 } segmentId skip
    (runner, setupSegment setting { buff with shortStart := buff.shortStart && decide (0 < buff.skip) }
      segmentId offset (ftSectorsPerSegment - offset) true)
  else
    ({ runner with oldSegmentId := segmentId },
      setupSegment setting { buff with shortStart := false, retry := 0, skip := 0 } segmentId 0
        ftSectorsPerSegment false)

/-- The first loop of `ftape_calc_next_cluster()`, for the sectors that remain. -/
def skipBadSectors : ℕ → Buffer → Buffer
  | 0, buff => buff
  | left + 1, buff =>
    if buff.badSectorMap.getLsbD 0 then
      skipBadSectors left { buff with
        badSectorMap := buff.badSectorMap >>> 1
        sectorOffset := buff.sectorOffset + 1
        remaining := buff.remaining - 1 }
    else buff

/-- The second loop of `ftape_calc_next_cluster()`, for the sectors that remain. -/
def clusterLoop : ℕ → SectorMap → ℕ
  | 0, _ => 0
  | left + 1, map => if map.getLsbD 0 then 0 else clusterLoop left (map >>> 1) + 1

/-- `ftape_calc_next_cluster()`. -/
def ftapeCalcNextCluster (buff : Buffer) : Buffer :=
  let buff := skipBadSectors buff.remaining buff
  { buff with
    sectorCount := if buff.badSectorMap = 0 then buff.remaining
      else clusterLoop buff.remaining buff.badSectorMap }

/-- What an interrupt at the end of a transfer tells: the status registers `ST0` to `ST2`, the
cylinder and the sector, and the bytes `terminate_dma()` counts as missing, if it can count. -/
structure FdcResult where
  st0 : Byte
  st1 : Byte
  st2 : Byte
  cylinder : Byte
  sector : Byte
  dmaResidue : Option ℕ

/-- A status register has some of the bits of a mask. -/
def hasBits (byte mask : Byte) : Bool := byte &&& mask ≠ 0

/-- `decode_irq_cause()`. -/
def decodeIrqCause (result : FdcResult) : ErrorCause :=
  if result.st0 &&& 0xc0 = 0x40 then
    if hasBits result.st1 0x01 then if hasBits result.st2 0x01 then .dataAmError else .idAmError
    else if hasBits result.st1 0x20 then if hasBits result.st2 0x20 then .dataCrcError else .idCrcError
    else if hasBits result.st1 0x04 then .noDataError
    else if hasBits result.st1 0x10 then .overrunError
    else .noError
  else .noError

/-- `get_fdc_transfer_size()`. -/
def getFdcTransferSize (buff : Buffer) (result : FdcResult) : ℕ :=
  if result.cylinder ≠ buff.cyl ∧ result.sector = 1 then buff.sectorCount
  else toUint (result.sector.toNat - buff.sect.toNat - buff.sectorOffset)

/-- `get_ez_transfer_size()`. -/
def getEzTransferSize (buff : Buffer) (result : FdcResult) : ℕ :=
  let cylDist : ℤ := result.cylinder.toNat - buff.cyl.toNat
  let cylDist := if cylDist < 0 then cylDist + 255 else cylDist
  toUint (cylDist * 128 + result.sector.toNat - buff.sect.toNat - buff.sectorOffset)

/-- The sectors the controller transferred, by its own account. -/
def fdcCount (setting : Setting) (buff : Buffer) (result : FdcResult) : ℕ :=
  if setting.dittoEz then getEzTransferSize buff result else getFdcTransferSize buff result

/-- `EAGAIN`. -/
def eagain : ℤ := 11

/-- `get_transfer_size()`. -/
def getTransferSize (setting : Setting) (buff : Buffer) (result : FdcResult) (cause : ErrorCause) :
    Buffer × ℤ :=
  let count := fdcCount setting buff result
  match result.dmaResidue with
  | none => (buff, Header.int count)
  | some residue =>
    let residue := Header.uint (residue + (ftSectorSize - 1)) / ftSectorSize
    if buff.sectorCount < Header.uint (count + residue) then ({ buff with sectorCount := 0 }, -eagain)
    else if count = buff.sectorCount ∧ cause ≠ .noError then ({ buff with sectorCount := 0 }, -eagain)
    else (buff, Header.int count)

/-- `skip_bad_sector()`. -/
def skipBadSector (buff : Buffer) : Buffer :=
  if 0 < buff.remaining then
    { buff with
      sectorOffset := buff.sectorOffset + 1
      dataOffset := buff.dataOffset + 1
      remaining := buff.remaining - 1
      ptr := buff.ptr + ftSectorSize
      badSectorMap := buff.badSectorMap >>> 1 }
  else { buff with sectorOffset := buff.sectorOffset + 1 }

/-- `update_error_maps()`. -/
def updateErrorMaps (setting : Setting) (buff : Buffer) (errorOffset : ℕ) : Buffer :=
  if ftSectorsPerSegment ≤ errorOffset then buff
  else if buff.retry < setting.ftSoftRetries then
    { buff with softErrorMap := buff.softErrorMap ||| (1 : SectorMap) <<< errorOffset }
  else
    let hardErrorMap := buff.hardErrorMap ||| (1 : SectorMap) <<< errorOffset
    { buff with
      hardErrorMap := hardErrorMap
      softErrorMap := buff.softErrorMap &&& ~~~hardErrorMap
      retry := -1 }

/-- The part of `determine_progress()` that moves the cursors past what was transferred. -/
def advance (buff : Buffer) : Buffer :=
  if 0 < buff.sectorCount then
    { buff with
      sectorOffset := Header.uint (buff.sectorOffset + buff.sectorCount)
      dataOffset := Header.uint (buff.dataOffset + buff.sectorCount)
      ptr := buff.ptr + Header.uint (buff.sectorCount * ftSectorSize)
      remaining := toUint (buff.remaining - buff.sectorCount)
      badSectorMap := buff.badSectorMap >>> buff.sectorCount
      moved := buff.moved ++ (List.range buff.sectorCount).map fun i =>
        (buff.sectorOffset + i, buff.ptr + i * ftSectorSize) }
  else buff

/-- The part of `determine_progress()` that skips the sector that failed. -/
def markFailure (setting : Setting) (buff : Buffer) (cause : ErrorCause) : Buffer :=
  let buff := if cause = .overrunError then
      if 0 < buff.retry then { buff with retry := buff.retry - 1, shortStart := false } else buff
    else { buff with shortStart := true }
  let buff := skipBadSector buff
  updateErrorMaps setting buff (buff.sectorOffset - 1)

/-- `determine_progress()`. -/
def determineProgress (setting : Setting) (buff : Buffer) (cause : ErrorCause) (transferred : ℤ) :
    Buffer :=
  let buff := if cause = .noError then { buff with sectorCount := toUint transferred }
    else if buff.sectorCount = toUint transferred then
      { buff with sectorCount := toUint (transferred - 1) }
    else { buff with sectorCount := toUint transferred }
  let buff := advance buff
  if cause = .noError then buff else markFailure setting buff cause

/-- The first loop of `find_resume_point()`. -/
def firstError (map : SectorMap) : ℕ → ℕ → ℕ
  | 0, i => i
  | rounds + 1, i => if map.getLsbD i then i else firstError map rounds (i + 1)

/-- The second loop of `find_resume_point()`. -/
def lastError (map : SectorMap) : ℕ → ℕ
  | 0 => 0
  | i + 1 => if map.getLsbD (i + 1) then i + 1 else lastError map i

/-- `find_resume_point()`. -/
def findResumePoint (buff : Buffer) : ℕ :=
  if buff.sectorOffset < 1 ∨ 32 < buff.sectorOffset then 0
  else
    let mask : SectorMap := if 32 ≤ buff.sectorOffset then 0xffffffff else offsetMask buff.sectorOffset
    if buff.softErrorMap &&& mask ≠ 0 then firstError (buff.softErrorMap &&& mask) 32 0
    else if buff.hardErrorMap &&& mask ≠ 0 then
      lastError (buff.hardErrorMap &&& mask) (buff.sectorOffset - 1) + 1
    else buff.sectorOffset - 1

/-- The part of `continue_xfer()` that goes on with the next segment, once `HEAD` is the next buffer.
The flag tells whether the controller takes the command. -/
def nextSegment (setting : Setting) (runner : Runner) (lastSegment next : ℕ) (setupOk : Bool) : Runner :=
  if (lastSegment + 1) % setting.segmentsPerTrack = 0 then { runner with runnerStatus := .logicalEot }
  else if next = 0 then { runner with runnerStatus := .idle }
  else
    match runner.ring with
    | [] => runner
    | head :: others =>
      if head.status ≠ .waiting then { runner with runnerStatus := .idle }
      else
        let (runner, head) := ftapeSetupNewSegment setting runner head next false
        let head := if runner.stopReadAhead then { head with nextSegment := 0 } else head
        let head := ftapeCalcNextCluster head
        if head.sectorCount = 0 ∨ setupOk = false then
          { runner with ring := head :: others, stopReadAhead := false, runnerStatus := .doAbort }
        else
          { runner with ring := { head with status := .reading } :: others, stopReadAhead := false }

/-- `HEAD->bytes = HEAD->ptr - HEAD->dma_address`. -/
def setBytes (buff : Buffer) (status : BufferState) : Buffer :=
  { buff with bytes := toUint (buff.ptr - buff.dmaAddress), status := status }

/-- `continue_xfer()` when reading. -/
def continueXfer (setting : Setting) (runner : Runner) (skip : ℕ) (setupOk : Bool) : Runner :=
  match runner.ring with
  | [] => runner
  | head :: others =>
    if 0 < skip ∧ (runner.runnerStatus ≠ .running ∨ head.status ≠ .reading) then
      { runner with ring := others ++ [{ head with status := .error }], runnerStatus := .aborting }
    else
      let cluster := if 0 < head.remaining then ftapeCalcNextCluster head else head
      if 0 < head.remaining ∧ 0 < cluster.sectorCount then
        if setupOk then { runner with ring := cluster :: others }
        else { runner with ring := others ++ [setBytes cluster .error], runnerStatus := .aborting }
      else
        nextSegment setting { runner with ring := others ++ [setBytes cluster .done] }
          head.segmentId head.nextSegment setupOk

/-- `retry_sector()`. -/
def retrySector (runner : Runner) (skip : ℕ) : Runner :=
  match runner.ring with
  | [] => runner
  | head :: others =>
    { runner with
      ring := { head with status := .error, skip := skip } :: others
      runnerStatus := .aborting }

/-- The branch of `handle_fdc_busy()` for deleted data. -/
def skipDeleted (runner : Runner) (head : Buffer) (others : List Buffer) : Runner × ℕ :=
  ({ runner with
    ring := { head with
      deleted := true
      remaining := 0
      softErrorMap := head.softErrorMap ||| BitVec.allOnes 32 <<< head.sectorOffset
      nextSegment := head.segmentId + 1 } :: others
    stopReadAhead := if head.segmentId = 0 then true else runner.stopReadAhead },
    toUint (ftSectorsPerSegment - head.sectorOffset))

/-- The branch of `handle_fdc_busy()` for an error. -/
def readError (setting : Setting) (runner : Runner) (head : Buffer) (others : List Buffer)
    (cause : ErrorCause) (transferred : ℤ) (setupOk : Bool) : Runner :=
  let retry := head.softErrorMap ≠ 0 ∨ head.hardErrorMap ≠ 0
  let head := determineProgress setting head cause transferred
  let skip := if retry then findResumePoint head else head.sectorOffset
  if retry ∧ skip < 32 then retrySector { runner with ring := head :: others } skip
  else continueXfer setting { runner with ring := head :: others } skip setupOk

/-- The branch of `handle_fdc_busy()` for `fdc_reading_data`. -/
def readingData (setting : Setting) (runner : Runner) (result : FdcResult) (setupOk : Bool) : Runner :=
  let cause := decodeIrqCause result
  match runner.ring with
  | [] => runner
  | head :: others =>
    if runner.runnerStatus = .aborting ∨ runner.runnerStatus = .doAbort then runner
    else
      let (head, transferred) := getTransferSize setting head result cause
      if head.badSectorMap = fakeSegment then
        continueXfer setting { runner with ring := { head with remaining := 0 } :: others } 1 setupOk
      else if transferred = -eagain then retrySector { runner with ring := head :: others } 0
      else if cause = .noError then
        if hasBits result.st2 0x40 then
          let (runner, skip) := skipDeleted runner head others
          continueXfer setting runner skip setupOk
        else
          continueXfer setting
            { runner with ring := determineProgress setting head cause transferred :: others } 0 setupOk
      else readError setting runner head others cause transferred setupOk

/-- `handle_fdc_busy()` when reading. -/
def handleFdcBusy (setting : Setting) (runner : Runner) (result : FdcResult) (setupOk : Bool) : Runner :=
  let runner := readingData setting runner result setupOk
  if runner.runnerStatus = .doAbort then { runner with runnerStatus := .aborting } else runner

/-- The part of `ftape_read_segment()` that sets `HEAD` up and starts the tape, once the runner has
stopped. Starting the tape may take retries back, and `single` disables reading ahead. -/
def startReading (setting : Setting) (runner : Runner) (segmentId : ℕ) (single : Bool) (lowered : ℕ) :
    Runner :=
  match runner.ring with
  | [] => runner
  | head :: others =>
    let (runner, head) := ftapeSetupNewSegment setting runner { head with status := .waiting } segmentId true
    let head := if single then { head with nextSegment := 0 } else head
    let head := ftapeCalcNextCluster head
    { runner with
      ring := { head with status := .reading, retry := head.retry - lowered } :: others
      runnerStatus := .running }

/-- What happens to the ring: an interrupt while `HEAD` is read, the start of reading at a segment,
a buffer whose data was taken, and `ftape_abort_operation()`, which takes another buffer for `HEAD`. -/
inductive Event where
  | irq (result : FdcResult) (setupOk : Bool)
  | start (segmentId : ℕ) (single : Bool) (lowered : ℕ)
  | taken (buffer : ℕ)
  | abort (head : ℕ)

/-- `fdc_zap_buffers()`. -/
def zapBuffer (buff : Buffer) : Buffer := { buff with status := .waiting, bytes := 0, skip := 0, retry := 0 }

/-- A buffer whose data was taken, if there was any. -/
def takeBuffer (buff : Buffer) : Buffer :=
  if buff.status = .done then { buff with status := .waiting } else buff

/-- What an event makes of the runner. -/
def Runner.step (setting : Setting) (runner : Runner) : Event → Runner
  | .irq result setupOk => handleFdcBusy setting runner result setupOk
  | .start segmentId single lowered => startReading setting runner segmentId single lowered
  | .taken buffer => { runner with ring := runner.ring.modify buffer takeBuffer }
  | .abort head =>
    { runner with
      ring := (runner.ring.rotate head).map zapBuffer
      oldSegmentId := -1
      runnerStatus := .idle }

/-- One event after the other. -/
def Runner.run (setting : Setting) (runner : Runner) (events : List Event) : Runner :=
  events.foldl (Runner.step setting) runner

end Ftape.Isr
