import Ftape.Algebra.Recorded
import Ftape.Zftape.Bookkeeping

/-!
# Writing and flushing

`_zft_write()` fills the deblock buffer and queues it segment by segment, `zft_flush_buffers()` pads
the last one and waits until the ring is empty. Both take pending sectors back into the stream, and
each keeps the position record on its own. What they do apart from moving forward is noted down as an
event with the state before it, so that one can tell which of them the position record survives.
-/

namespace Ftape.Zftape

open Ftape.Algebra Ftape.Write

variable {α : Type}

/-- Why a routine cannot go on: it leaves the memory of a buffer, or the list of volumes. -/
inductive Fault where
  | memory
  | list

/-- What happens to the position record, or behind its back. `recovery` is a recovery from a failure
of `HEAD`, where only segments in front of `bound` should be in the ring. `givesUp` drops pending
sectors at the end of the tape. A flush that waits in the state `waiting` finds pending sectors:
`absorbed` takes them for padding, `again` goes on with the next segment. `interrupted` is a signal
between two segments of a flush. -/
inductive Event (α : Type) where
  | recovery (drive : Drive α) (bound : ℕ)
  | givesUp
  | absorbed (waiting : ZftapeInfo α)
  | again (waiting waited : ZftapeInfo α)
  | interrupted

/-- A routine of the write path. -/
abbrev Traced (α β : Type) := Recorded (Event α) Fault β

/-- A copy between two memories. -/
def Traced.copied {β : Type} : Option β → Traced α β
  | some value => pure value
  | none => Recorded.halt .memory

/-- The states of the drive in which `zftape_write_segment()` comes to a recovery. -/
def recoveries (kernel : Kernel α) (segPos segSz : ℕ) : List RunnerReport → ZftapeInfo α → List (Drive α)
  | [], _ => []
  | report :: reports, zftape =>
    let (drive, result) := ftapeWriteSegment kernel.ecc zftape.drive segPos report
    match result with
    | .ok () => []
    | .error errno =>
      if errno ≠ .eio ∨ headFailed drive = false then []
      else drive :: match recoverWrite kernel { zftape with drive := drive } segSz with
        | some (.ok zftape) => recoveries kernel segPos segSz reports zftape
        | _ => []

/-- `zftape_write_segment()` of the current segment, with its recoveries. -/
def writeSegment (kernel : Kernel α) (reports : List RunnerReport) (zftape : ZftapeInfo α) :
    Traced α (ZftapeInfo α × Except Errno Unit) :=
  let segSz := zftape.segSz zftape.pos.segPos
  ⟨(recoveries kernel zftape.pos.segPos segSz reports zftape).map fun drive => .recovery drive zftape.pos.segPos,
    match zftapeWriteSegment kernel zftape.pos.segPos segSz reports zftape with
    | some written => .ok written
    | none => .error .memory⟩

/-- `zftape_loop_until_writes_done()`, with its recovery. -/
def loopUntilWritesDone (kernel : Kernel α) (report : RunnerReport) (zftape : ZftapeInfo α) :
    Traced α (ZftapeInfo α × Except Errno Unit) :=
  let (drive, result) := ftapeLoopUntilWritesDone zftape.drive report
  ⟨match result with
    | .ok () => []
    | .error errno => if errno ≠ .eio ∨ headFailed drive = false then []
      else [.recovery drive (zftape.pos.segPos + 1)],
    match zftapeLoopUntilWritesDone kernel report zftape with
    | some done => .ok done
    | none => .error .memory⟩

/-- Take the first pending sector into the deblock buffer. -/
def takeSector (sector : ℕ → α) (sectors : List (ℕ → α)) (zftape : ZftapeInfo α) :
    Traced α (ZftapeInfo α) := do
  let deblock ← Traced.copied (copy ftBuffSize ftSectorSize zftape.drive.deblockBuffer
    zftape.pos.segBytePos sector 0 ftSectorSize)
  pure { zftape with
    drive := { zftape.drive with deblockBuffer := deblock }
    hardErrors := sectors
    pos := { zftape.pos with segBytePos := zftape.pos.segBytePos + ftSectorSize } }

/-- The loop of `empty_hard_error_list()`, for the sectors that are pending. -/
def emptyHardErrorLoop (segSz : ℤ) :
    List (ℕ → α) → ZftapeInfo α → Traced α (ZftapeInfo α × Except Errno Unit)
  | [], zftape => pure (zftape, .ok ())
  | sector :: sectors, zftape =>
    let spaceLeft := segSz - zftape.pos.segBytePos
    if spaceLeft % ftSectorSize ≠ 0 then pure (zftape, .error .eio)
    else if spaceLeft < ftSectorSize then pure (zftape, .ok ())
    else if zftape.capacity < zftape.pos.tapePos + ftSectorSize then do
      Recorded.note .givesUp
      pure (zftZapWriteBuffers zftape, .error .enospc)
    else do
      let zftape ← takeSector sector sectors zftape
      emptyHardErrorLoop segSz sectors zftape

/-- `empty_hard_error_list()`. -/
def emptyHardErrorList (segSz : ℕ) (zftape : ZftapeInfo α) :
    Traced α (ZftapeInfo α × Except Errno Unit) :=
  emptyHardErrorLoop segSz zftape.hardErrors zftape

/-- The cells of the user's buffer. -/
def userCells (kernel : Kernel α) (buff : List α) (i : ℕ) : α := buff.getD i kernel.zero

/-- The part of `fill_deblock_buf()` for new data. The user's buffer can be read. -/
def fillRegular (kernel : Kernel α) (segSz : ℕ) (buff : List α) (zftape : ZftapeInfo α) :
    Traced α (ZftapeInfo α × Except Errno ℤ) := do
  let spaceLeft := segSz - zftape.pos.segBytePos
  let cnt := min (buff.length : ℤ) spaceLeft
  let deblock ← Traced.copied (copy ftBuffSize buff.length zftape.drive.deblockBuffer
    zftape.pos.segBytePos (userCells kernel buff) 0 cnt)
  pure ({ zftape with
    drive := { zftape.drive with deblockBuffer := deblock }
    pos := { zftape.pos with
      volumePos := zftape.pos.volumePos + cnt
      segBytePos := zftape.pos.segBytePos + cnt
      tapePos := zftape.pos.tapePos + cnt } }, .ok cnt)

/-- `fill_deblock_buf()`. -/
def fillDeblockBuf (kernel : Kernel α) (segSz : ℕ) (buff : List α) (zftape : ZftapeInfo α) :
    Traced α (ZftapeInfo α × Except Errno ℤ) :=
  if segSz = 0 then pure (zftape, .ok 0)
  else do
    let (zftape, result) ← emptyHardErrorList segSz zftape
    match result with
    | .error errno => pure (zftape, .error errno)
    | .ok () =>
      if zftape.capacity < zftape.pos.tapePos + zftape.volume.blkSz then pure (zftape, .error .enospc)
      else fillRegular kernel segSz buff zftape

/-- What `_zft_write()` makes of a negative result of `fill_deblock_buf()`: without space it leaves the
rest to the flush, else it returns its own result, which is still zero. -/
def writeRefused (written : ℤ) (zftape : ZftapeInfo α) (errno : Errno) : ZftapeInfo α × Except Errno ℤ :=
  let zftape := { zftape with resid := zftape.resid - written }
  if errno = .enospc then
    ({ zftape with
      lastWriteFailed := false
      needFlush := zftape.needFlush || decide (0 < written) },
      if 0 < written then .ok written else .error .enospc)
  else (zftape, .ok 0)

/-- The end of `_zft_write()`. -/
def writeDone (written : ℤ) (zftape : ZftapeInfo α) : ZftapeInfo α × Except Errno ℤ :=
  ({ zftape with
    lastWriteFailed := false
    resid := zftape.resid - written
    needFlush := zftape.needFlush || decide (0 < written) }, .ok written)

/-- The first half of a round of the loop of `_zft_write()`, with what follows when the deblock buffer
has taken some bytes. -/
def writeRound (kernel : Kernel α) (buff : List α) (written : ℤ) (zftape : ZftapeInfo α)
    (next : ZftapeInfo α → ℤ → Traced α (ZftapeInfo α × Except Errno ℤ)) :
    Traced α (ZftapeInfo α × Except Errno ℤ) :=
  if buff = [] ∧ zftape.hardErrors = [] then pure (writeDone written zftape)
  else do
    let (zftape, filled) ← fillDeblockBuf kernel (zftape.segSz zftape.pos.segPos) buff
      { zftape with deblockBuf := true }
    match filled with
    | .error errno => pure (writeRefused written zftape errno)
    | .ok cnt => next zftape cnt

/-- The loop of `_zft_write()`, with what the interrupt handler reports in each of its rounds. Running
out of rounds stands for a signal. -/
def writeLoop (kernel : Kernel α) :
    List (List RunnerReport) → List α → ℤ → ZftapeInfo α → Traced α (ZftapeInfo α × Except Errno ℤ)
  | [], buff, written, zftape =>
    writeRound kernel buff written zftape fun zftape _ => pure (zftape, .error .eintr)
  | reports :: rounds, buff, written, zftape =>
    writeRound kernel buff written zftape fun filled cnt =>
      if filled.pos.segBytePos = zftape.segSz zftape.pos.segPos then do
        let (zftape, result) ← writeSegment kernel reports filled
        match result with
        | .error errno => pure ({ zftape with resid := zftape.resid - written }, .error errno)
        | .ok () =>
          writeLoop kernel rounds (buff.drop cnt.toNat) (written + cnt) { zftape with
            pos := { zftape.pos with segBytePos := 0, segPos := zftape.pos.segPos + 1 } }
      else writeLoop kernel rounds (buff.drop cnt.toNat) (written + cnt) filled

/-- `flush_handle_hard_errors()`, with the new padding. Another round of the flush is `-EAGAIN`. -/
def flushHandleHardErrors (padCnt oldSegSize : ℤ) (zftape : ZftapeInfo α) :
    Traced α (ZftapeInfo α × ℤ × Except Errno Unit) :=
  let thisSegsSize : ℤ := zftape.segSz zftape.pos.segPos
  let spaceLeft := thisSegsSize - zftape.pos.segBytePos - zftape.hardErrorCnt * ftSectorSize
  if -padCnt ≤ spaceLeft then
    let segBytePos := zftape.pos.segBytePos +
      (zftape.hardErrorCnt * ftSectorSize - (oldSegSize - thisSegsSize))
    pure (zftZapWriteBuffers { zftape with pos := { zftape.pos with segBytePos := segBytePos } },
      thisSegsSize - segBytePos, .ok ())
  else do
    let pos := { zftape.pos with segPos := zftape.pos.segPos + 1, segBytePos := 0 }
    let (zftape, _) ← emptyHardErrorList (zftape.segSz pos.segPos)
      { zftape with deblockBuf := true, pos := pos }
    pure (zftape, padCnt, .error .eagain)

/-- The end of `zft_flush_buffers()` after an error. -/
def flushFailed (zftape : ZftapeInfo α) (errno : Errno) : ZftapeInfo α × Except Errno Unit :=
  ({ zftape with
    pos := { zftape.pos with tapePos := zftape.pos.tapePos - zftape.pos.segBytePos, segBytePos := 0 }
    lastWriteFailed := true }, .error errno)

/-- The end of `zft_flush_buffers()` when everything is on tape. -/
def outFlushed (zftape : ZftapeInfo α) : ZftapeInfo α × Except Errno Unit :=
  let zftape := { zftape with lastWriteFailed := false, needFlush := false }
  if zftape.pos.segBytePos = 0 then
    let segPos := Header.uint (zftape.pos.segPos + 0xffffffff)
    ({ zftape with
      pos := { zftape.pos with segPos := segPos, segBytePos := (zftape.segSz segPos : ℕ) } }, .ok ())
  else (zftape, .ok ())

/-- What the loop inside `zft_flush_buffers()` comes to: another segment has to be written, or the
flush returns. -/
inductive Flushed where
  | again
  | done (result : Except Errno Unit)

/-- A round of the loop inside `zft_flush_buffers()` that waits for the ring to become empty, with what
follows when the pending sectors are forgotten. -/
def flushWait (kernel : Kernel α) (oldSegSize : ℤ) (report : RunnerReport) (padCnt : ℤ)
    (waiting : ZftapeInfo α) (next : ZftapeInfo α → ℤ → Traced α (ZftapeInfo α × ℤ × Flushed)) :
    Traced α (ZftapeInfo α × ℤ × Flushed) := do
  let (waited, result) ← loopUntilWritesDone kernel report waiting
  match result with
  | .error errno =>
    let (zftape, result) := flushFailed waited errno
    pure (zftape, padCnt, .done result)
  | .ok () =>
    if waited.hardErrorCnt = 0 then
      let (zftape, result) := outFlushed waited
      pure (zftape, padCnt, .done result)
    else do
      let (zftape, padCnt, result) ← flushHandleHardErrors padCnt oldSegSize waited
      match result with
      | .error _ => do
        Recorded.note (.again waiting waited)
        pure (zftape, padCnt, .again)
      | .ok () => do
        Recorded.note (.absorbed waiting)
        next zftape padCnt

/-- The loop inside `zft_flush_buffers()`, with what the interrupt handler reports in each of its
rounds. Running out of reports stands for a signal. -/
def flushWaitLoop (kernel : Kernel α) (oldSegSize : ℤ) :
    List RunnerReport → RunnerReport → ℤ → ZftapeInfo α → Traced α (ZftapeInfo α × ℤ × Flushed)
  | [], report, padCnt, zftape =>
    flushWait kernel oldSegSize report padCnt zftape fun zftape padCnt =>
      pure (zftape, padCnt, .done (.error .eintr))
  | report' :: reports, report, padCnt, zftape =>
    flushWait kernel oldSegSize report padCnt zftape fun zftape padCnt =>
      flushWaitLoop kernel oldSegSize reports report' padCnt zftape

/-- What the interrupt handler reports in a round of `zft_flush_buffers()`: while it writes the
segment, and each time it waits for the ring to become empty. -/
structure FlushRound where
  write : List RunnerReport
  wait : RunnerReport
  waits : List RunnerReport

/-- The part of `zft_flush_buffers()` that pads the deblock buffer and queues it. -/
def padAndWrite (kernel : Kernel α) (reports : List RunnerReport) (zftape : ZftapeInfo α) :
    Traced α (ZftapeInfo α × Except Errno Unit) := do
  let segSz := zftape.segSz zftape.pos.segPos
  let padding := segSz - zftape.pos.segBytePos
  let deblock ← Traced.copied (copy ftBuffSize padding.toNat zftape.drive.deblockBuffer
    zftape.pos.segBytePos (fun _ => kernel.zero) 0 padding)
  writeSegment kernel reports
    { zftape with drive := { zftape.drive with deblockBuffer := deblock } }

/-- A round of the loop of `zft_flush_buffers()`, with what follows when another segment has to be
written. -/
def flushRound (kernel : Kernel α) (round : FlushRound) (padCnt : ℤ) (zftape : ZftapeInfo α)
    (next : ZftapeInfo α → ℤ → Traced α (ZftapeInfo α × Except Errno Unit)) :
    Traced α (ZftapeInfo α × Except Errno Unit) :=
  let segSz : ℤ := zftape.segSz zftape.pos.segPos
  let unpadded := zftape.pos.segBytePos ≠ segSz
  let segBytePos := if unpadded then zftape.pos.segBytePos - padCnt else zftape.pos.segBytePos
  let padCnt := if unpadded then segSz - segBytePos else padCnt
  let zftape := { zftape with pos := { zftape.pos with segBytePos := segBytePos } }
  if 0 < segBytePos ∧ zftape.deblockBuf = false then pure (zftape, .error .eio)
  else do
    let (zftape, result) ← (if 0 < segBytePos then padAndWrite kernel round.write zftape
      else pure (zftape, .ok ()))
    match result with
    | .error errno => pure (flushFailed zftape errno)
    | .ok () => do
      let (zftape, padCnt, flushed) ← flushWaitLoop kernel segSz round.waits round.wait padCnt zftape
      match flushed with
      | .done result => pure (zftape, result)
      | .again => next zftape padCnt

/-- The loop of `zft_flush_buffers()`. Running out of rounds stands for a signal. -/
def flushLoop (kernel : Kernel α) :
    List FlushRound → FlushRound → ℤ → ZftapeInfo α → Traced α (ZftapeInfo α × Except Errno Unit)
  | [], round, padCnt, zftape =>
    flushRound kernel round padCnt zftape fun zftape _ => do
      Recorded.note .interrupted
      pure (zftape, .error .eintr)
  | round' :: rounds, round, padCnt, zftape =>
    flushRound kernel round padCnt zftape fun zftape padCnt =>
      flushLoop kernel rounds round' padCnt zftape

/-- `ftape_abort_operation()`. -/
def ZftapeInfo.abortOperation (zftape : ZftapeInfo α) : ZftapeInfo α :=
  { zftape with drive := { zftape.drive with writing := false } }

/-- `zft_flush_buffers()`. -/
def zftFlushBuffers (kernel : Kernel α) (round : FlushRound) (rounds : List FlushRound)
    (zftape : ZftapeInfo α) : Traced α (ZftapeInfo α × Except Errno Unit) :=
  if zftape.drive.writing = false ∧ zftape.needFlush = false then pure (zftape, .ok ())
  else
    let zftape := { zftape with ioState := .idle }
    if zftape.lastWriteFailed then pure (zftape.abortOperation, .error .eio)
    else flushLoop kernel rounds round 0 zftape

end Ftape.Zftape
