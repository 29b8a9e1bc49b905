import Ftape.Volume.ListInvariant
import Ftape.Zftape.WritePath

/-!
# Writing volumes

Writing begins a volume at the beginning of the tape or at the end of the data, and a file mark, a seek
or closing the device ends it. The header segments and the volume table are read, and the cartridge was
not written by an old version of the driver.
-/

namespace Ftape.Volume

open Ftape.Algebra Ftape.Bsm Ftape.Write Ftape.Zftape

variable {α : Type}

/-- A device that writes, with its volume table. `bookSegPos` and `bookTapePos` are `seg_pos` and
`tape_pos` of `zftape_info_t`, which `zft_calc_tape_pos()` remembers. `writeProtected` includes the
access mode, `cartridgeProtected` does not. -/
structure Writer (α : Type) extends ZftapeInfo α where
  table : Vtbl
  curVtbl : ℕ
  bigEndian : Bool
  formatCode : FormatCode
  firstDataSegment : ℕ
  lastDataSegment : ℕ
  vtblSz : ℕ
  bookSegPos : ℤ
  bookTapePos : ℤ
  offline : Bool
  formatted : Bool
  writeProtected : Bool
  cartridgeProtected : Bool

namespace Writer

/-- What tape positions are calculated from. -/
def books (zftape : Writer α) : Books :=
  zftape.toZftapeInfo.books zftape.firstDataSegment zftape.lastDataSegment zftape.bookSegPos
    zftape.bookTapePos

/-- `zft_calc_tape_pos()`, with the position it remembers. -/
def zftCalcTapePos (zftape : Writer α) (segment : ℤ) : Writer α × ℤ :=
  ({ zftape with
    bookSegPos := (zftape.books.zftCalcTapePos segment).1.segPos
    bookTapePos := (zftape.books.zftCalcTapePos segment).1.tapePos },
    (zftape.books.zftCalcTapePos segment).2)

/-- What the volume table routines take from the device. -/
def cartridge (zftape : Writer α) : Cartridge where
  bigEndian := zftape.bigEndian
  formatCode := zftape.formatCode
  firstDataSegment := zftape.firstDataSegment
  lastDataSegment := zftape.lastDataSegment
  capacity := zftape.capacity
  blkSz := zftape.blkSz
  vtblSz := zftape.vtblSz
  calcTapePos segment := (zftape.books.zftCalcTapePos segment).2
  segSz := zftape.segSz

/-- `zft_tape_at_lbot()`. -/
def zftTapeAtLbot (zftape : Writer α) : Bool := zftape.table.zftTapeAtLbot zftape.pos

/-- `zft_tape_at_eod()`. -/
def zftTapeAtEod (zftape : Writer α) : Bool :=
  decide (zftape.table.eom.startSeg ≤ zftape.pos.segPos) || zftape.table.openVolume.isSome

/-- `zft_vtbl_soft_ro()`. -/
def zftVtblSoftRo (zftape : Writer α) : Bool := zftape.table.exvtExtension || zftape.table.vtblBroken

/-- The list with a new volume. A node that is cached stays the same; `zft_eom_vtbl` is behind the new
volume then. -/
def withTable (zftape : Writer α) (table : Vtbl) : Writer α :=
  { zftape with
    table := table
    curVtbl := if zftape.curVtbl = zftape.table.volumes.length then table.volumes.length
      else zftape.curVtbl }

/-- `zft_init_vtbl()`, which caches `zft_eom_vtbl`. -/
def initVtbl (zftape : Writer α) : Writer α :=
  { zftape with table := zftInitVtbl zftape.cartridge, curVtbl := 0 }

/-- `zft_reset_position()`. -/
def zftResetPosition (zftape : Writer α) : Traced α (Writer α) :=
  match zftape.table.volumeBySegpos zftape.curVtbl 0 with
  | none => Recorded.halt .list
  | some cur =>
    let startSeg := (zftape.table.node cur).startSeg
    let calculated := zftape.zftCalcTapePos (Header.int startSeg)
    pure { calculated.1 with
      curVtbl := cur
      pos := ⟨startSeg, 0, 0, calculated.2⟩
      ioState := .idle
      deblockBuf := false
      hardErrors := []
      needFlush := false }

/-- `zft_open_volume()`. -/
def zftOpenVolume (zftape : Writer α) : Traced α (Writer α × Except Errno Unit) := do
  let zftape ← (if zftape.zftTapeAtLbot then zftape.initVtbl.zftResetPosition else pure zftape)
  match zftape.table.appendVolume zftape.cartridge zftape.pos zftape.blkSz with
  | (_, .error errno) => pure (zftape, .error errno)
  | (table, .ok pos) => pure ({ zftape.withTable table with pos := pos }, .ok ())

/-- `zft_close_volume()`. It calculates the positions of the first segment and of the one behind the
last. -/
def zftCloseVolume (zftape : Writer α) : Writer α × Except Errno Unit :=
  match zftape.table.openVolume with
  | none => (zftape, .error .eio)
  | some volume =>
    match zftape.table.zftCloseVolume zftape.cartridge zftape.pos with
    | (_, .error errno) => (zftape, .error errno)
    | (table, .ok pos) =>
      let behind := (zftape.zftCalcTapePos (Header.int (Header.uint (pos.segPos + 1)))).1
      let start := (behind.zftCalcTapePos (Header.int volume.startSeg)).1
      ({ start with table := table, pos := pos }, .ok ())

/-- `zft_move_past_eof()`. -/
def zftMovePastEof (zftape : Writer α) : Writer α :=
  { zftape with pos := zftape.cartridge.zftMovePastEof zftape.pos, deblockBuf := false }

/-- The part of `zft_weof()` that appends the file marks. -/
def weofMarks (count : ℕ) (zftape : Writer α) : Writer α × Except Errno Unit :=
  match zftape.table.weofLoop zftape.cartridge count zftape.pos with
  | (table, pos, 0) => ({ zftape.withTable table with pos := pos }, .ok ())
  | (table, pos, left + 1) =>
    ({ zftape.withTable table with pos := pos, resid := (left + 1 : ℕ) },
      if pos.segPos ≤ zftape.lastDataSegment ∧ table.eom.count < zftape.cartridge.zftMaxVolumes then
        .error .eio
      else if table.eom.count = zftape.cartridge.zftMaxVolumes then .error .einval
      else .error .enospc)

/-- `zft_weof()`. -/
def zftWeof (count : ℕ) (zftape : Writer α) : Writer α × Except Errno Unit :=
  if count = 0 then (zftape, .ok ())
  else
    let zftape := if zftape.zftTapeAtLbot then zftape.initVtbl else zftape
    if zftape.table.openVolume.isSome then
      let (zftape, _) := zftape.zftCloseVolume
      zftape.zftMovePastEof.weofMarks (count - 1)
    else zftape.weofMarks count

/-- `zft_check_write_access()` in qic mode. -/
def zftCheckWriteAccess (zftape : Writer α) : Except Errno Unit :=
  if zftape.offline then .error .enxio
  else if zftape.formatted = false then .error .eacces
  else if zftape.writeProtected then .error .eacces
  else if zftape.zftTapeAtLbot then .ok ()
  else if zftape.zftVtblSoftRo then .error .eacces
  else if zftape.zftTapeAtEod then .ok ()
  else .error .eacces

/-- `check_write_access()`. -/
def checkWriteAccess (reqLen : ℕ) (zftape : Writer α) : Traced α (Writer α × Except Errno Unit) :=
  if reqLen % zftape.blkSz ≠ 0 then pure (zftape, .error .einval)
  else if zftape.ioState = .writing then pure (zftape, .ok ())
  else
    let zftape := { zftape with ioState := .idle }
    match zftape.zftCheckWriteAccess with
    | .error errno => pure (zftape, .error errno)
    | .ok () => do
      let (zftape, result) ← zftape.zftOpenVolume
      match result with
      | .error errno => pure (zftape, .error errno)
      | .ok () =>
        match zftape.table.volumeBySegpos zftape.curVtbl zftape.pos.segPos with
        | none => Recorded.halt .list
        | some cur => pure ({ zftape with
            curVtbl := cur
            volume := (zftape.table.node cur).toVolinfo
            ioState := .writing }, .ok ())

/-- `_zft_write()`. -/
def zftWrite (kernel : Kernel α) (buff : List α) (rounds : List (List RunnerReport))
    (zftape : Writer α) : Traced α (Writer α × Except Errno ℤ) := do
  let zftape := { zftape with resid := (buff.length : ℕ), lastWriteFailed := true }
  let (zftape, result) ← zftape.checkWriteAccess buff.length
  match result with
  | .error errno => pure (zftape, .error errno)
  | .ok () => do
    let (written, result) ← writeLoop kernel rounds buff 0 zftape.toZftapeInfo
    pure ({ zftape with toZftapeInfo := written }, result)

/-- `zft_flush_buffers()`. -/
def zftFlushBuffers (kernel : Kernel α) (round : FlushRound) (rounds : List FlushRound)
    (zftape : Writer α) : Traced α (Writer α × Except Errno Unit) := do
  let (flushed, result) ← Zftape.zftFlushBuffers kernel round rounds zftape.toZftapeInfo
  pure ({ zftape with toZftapeInfo := flushed }, result)

/-- `ftape_abort_operation()` before the device is idle. -/
def idle (zftape : Writer α) : Writer α :=
  { zftape with toZftapeInfo := { zftape.abortOperation with ioState := .idle } }

/-- `zft_def_idle_state()`. -/
def zftDefIdleState (kernel : Kernel α) (round : FlushRound) (rounds : List FlushRound)
    (zftape : Writer α) : Traced α (Writer α × Except Errno Unit) := do
  let (zftape, result) ← zftape.zftFlushBuffers kernel round rounds
  match result with
  | .error errno => pure (zftape.idle, .error errno)
  | .ok () =>
    let (zftape, _) := zftape.zftCloseVolume
    pure (zftape.idle, .ok ())

/-- `MTWEOF`. -/
def mtWeof (kernel : Kernel α) (count : ℕ) (round : FlushRound) (rounds : List FlushRound)
    (zftape : Writer α) : Traced α (Writer α × Except Errno Unit) := do
  let zftape := { zftape with resid := (count : ℕ) }
  match zftape.zftCheckWriteAccess with
  | .error errno => pure (zftape, .error errno)
  | .ok () => do
    let (zftape, result) ← zftape.zftFlushBuffers kernel round rounds
    match result with
    | .error errno => pure (zftape, .error errno)
    | .ok () => pure (zftape.zftWeof count)

/-- A command that moves over the volumes: the device becomes idle, and the command goes to a
position. -/
def seek (kernel : Kernel α) (pos : Position) (curVtbl : ℕ) (round : FlushRound)
    (rounds : List FlushRound) (zftape : Writer α) : Traced α (Writer α × Except Errno Unit) :=
  if zftape.offline then pure (zftape, .error .enxio)
  else if zftape.formatted = false then pure (zftape, .error .eacces)
  else do
    let (zftape, result) ← zftape.zftDefIdleState kernel round rounds
    match result with
    | .error errno => pure (zftape, .error errno)
    | .ok () => pure ({ zftape with pos := pos, curVtbl := curVtbl, deblockBuf := false }, .ok ())

/-- The part of `_zft_close()` that ends the volume. -/
def closeFile (kernel : Kernel α) (round : FlushRound) (rounds : List FlushRound) (zftape : Writer α) :
    Traced α (Writer α) := do
  let (zftape, _) ← zftape.zftFlushBuffers kernel round rounds
  match zftape.zftCloseVolume with
  | (zftape, .error _) => pure zftape
  | (zftape, .ok ()) => pure { zftape.zftMovePastEof with ioState := .idle }

/-- `_zft_close()`, less the update of the header segments. -/
def zftClose (kernel : Kernel α) (rewind : Bool) (round : FlushRound) (rounds : List FlushRound)
    (zftape : Writer α) : Traced α (Writer α) :=
  if zftape.offline then pure zftape
  else do
    let zftape ← (if zftape.cartridgeProtected || zftape.zftVtblSoftRo then pure zftape
      else zftape.closeFile kernel round rounds)
    let zftape := { zftape with toZftapeInfo := zftape.abortOperation }
    if rewind then zftape.zftResetPosition else pure zftape

end Writer

end Ftape.Volume
