import Ftape.Write.Recovery

/-!
# The drive at work

The interrupt handler writes the segments of the ring one after the other while the driver
waits. Its part is given from outside: a report says how many segments it finished in the
meantime and whether `HEAD` stopped with a hard error. Soft errors are retried and leave no
trace. What reaches the tape is logged, so that data can be followed out of the ring.
-/

namespace Ftape.Write

open Ftape.Algebra

variable {α : Type*}

/-- What the interrupt handler did while the driver waited: it finished some segments, and then
one sector of `HEAD` may have failed for good. -/
structure RunnerReport where
  completed : ℕ
  hardError : Option (Fin 32)

/-- The driver with the tape: whether `driver_state` is `writing`, the number of segments of the
cartridge and the payloads written so far, the latest one last. -/
structure Drive (α : Type*) extends FtapeInfo α where
  writing : Bool
  segments : ℕ
  tape : List (ℕ × List α)

/-- `HEAD` is on tape, and the next buffer becomes `HEAD`. -/
def Drive.completeHead (drive : Drive α) : Drive α :=
  match drive.ring with
  | [] => drive
  | head :: others =>
    if head.status = .waiting then
      { drive with
        ring := others ++ [{ head with status := .done }]
        tail := (drive.tail + others.length) % (others.length + 1)
        tape := drive.tape ++ [(head.segmentId, head.payload drive.badSectorMap)] }
    else drive

/-- The bit of a sector in a map. -/
def sectorBit (sector : Fin 32) : SectorMap := (1 : SectorMap) <<< sector.val

/-- A sector of `HEAD` failed for good. Setting the segment up had cleared its error map. -/
def Drive.failHead (drive : Drive α) (sector : Fin 32) : Drive α :=
  match drive.ring with
  | [] => drive
  | head :: others =>
    if head.status = .waiting then
      { drive with
        ring := { head with status := .error, hardErrorMap := sectorBit sector } :: others }
    else drive

/-- The interrupt handler at work. -/
def Drive.run (drive : Drive α) (report : RunnerReport) : Drive α :=
  let drive := Drive.completeHead^[report.completed] drive
  match report.hardError with
  | none => drive
  | some sector => drive.failHead sector

/-- `ftape_zap_write_buffers()`. -/
def Drive.zapWriteBuffers (drive : Drive α) : Drive α :=
  { drive with
    ring := drive.ring.map fun buff => { buff with status := .done }
    tail := 0 }

/-- The driver enters the state `writing`; leaving another one drops what the buffers hold. -/
def Drive.startWriting (drive : Drive α) : Drive α :=
  if drive.writing then drive else { drive.zapWriteBuffers with writing := true }

/-- `ftape_write_segment()`, the retries included. With `TAIL` in error, or after too many
retries, the result is `-EIO`; the error state is kept. -/
def ftapeWriteSegment (ecc : EccCode α) (drive : Drive α) (segmentId : ℕ) (report : RunnerReport) :
    Drive α × Except Errno Unit :=
  if drive.segments ≤ segmentId then (drive, .error .enospc)
  else
    let drive := drive.startWriting.run report
    match drive.ring[drive.tail]? with
    | none => (drive, .error .eio)
    | some buff =>
      if buff.status = .done then
        let (buff, deblock) :=
          fdcIntCopyAndGenEcc ecc buff drive.deblockBuffer (drive.badSectorMap segmentId)
        ({ drive with
          ring := drive.ring.set drive.tail { buff with segmentId := segmentId, status := .waiting }
          deblockBuffer := deblock
          tail := (drive.tail + 1) % drive.ring.length }, .ok ())
      else (drive, .error .eio)

/-- `ftape_loop_until_writes_done()`. Ending the report before the ring is empty stands for a
signal. -/
def ftapeLoopUntilWritesDone (drive : Drive α) (report : RunnerReport) :
    Drive α × Except Errno Unit :=
  if drive.writing then
    let drive := drive.run report
    match drive.ring with
    | [] => (drive, .error .eio)
    | head :: _ =>
      match head.status with
      | .done => ({ drive with writing := false }, .ok ())
      | .error => (drive, .error .eio)
      | _ => (drive, .error .eintr)
  else (drive, .ok ())

/-- The segment a buffer is about, with the payload it holds for it. -/
def BufferStruct.entry (bsm : ℕ → SectorMap) (buff : BufferStruct α) : ℕ × List α :=
  (buff.segmentId, buff.payload bsm)

/-- The segments on tape and those the ring still holds, in order, with their payloads. -/
def Drive.log (drive : Drive α) : List (ℕ × List α) :=
  drive.tape ++ (drive.ring.takeWhile (·.status ≠ .done)).map (BufferStruct.entry drive.badSectorMap)

/-- The data on tape followed by the data in the ring. -/
def Drive.data (drive : Drive α) : List α := drive.log.flatMap Prod.snd

/-- A buffer that stopped with one newly failed sector. -/
structure FailedBuffer (drive : Drive α) (buff : BufferStruct α) : Prop where
  status : buff.status = .error
  one : countOnes buff.hardErrorMap = 1
  new : drive.badSectorMap buff.segmentId &&& buff.hardErrorMap = 0

/-- The ring in use: from `HEAD` on come the buffers with data, which wait but for `HEAD` that
may have failed, then the free ones; `TAIL` is the first free one, or `HEAD` in a full ring. -/
structure Drive.Queued (drive : Drive α) (queue free : List (BufferStruct α)) : Prop where
  ring : drive.ring = queue ++ free
  nonempty : drive.ring ≠ []
  tail : drive.tail = queue.length % drive.ring.length
  head : ∀ buff ∈ queue.head?, buff.status = .waiting ∨ buff.status = .error
  waiting : ∀ buff ∈ queue.tail, buff.status = .waiting
  free : ∀ buff ∈ free, buff.status = .done
  ids : (queue.map BufferStruct.segmentId).Nodup

end Ftape.Write
