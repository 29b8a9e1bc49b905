import Ftape.Zftape.Basic

/-!
# Reading

`_zft_read()` hands out the segments one after the other, cut into the pieces the user asks for.
The position, the deblock buffer with the segment it holds, and the bytes left until the end of
the volume are carried from one call to the next. What a segment reads back as is given from
outside, together with the errors that reading it may end in.
-/

namespace Ftape.Zftape

open Ftape.Algebra Ftape.Write

/-- The volume table: the volumes in order, and the entry for the end of the recorded media. -/
structure VolumeTable where
  volumes : List Volinfo
  eom : Volinfo

/-- The fields of `zftape_info_t` that reading uses, with what `ftape_read_segment()` leaves in the
deblock buffer for each segment. `curVtbl` counts entries of the volume table. -/
structure Reader (α : Type*) where
  readSegment : ℕ → Except Errno (ℕ → α)
  badSectorMap : ℕ → SectorMap
  segments : ℕ
  firstDataSegment : ℕ
  lastDataSegment : ℕ
  offline : Bool
  formatted : Bool
  qicMode : Bool
  rawImage : Bool
  blkSz : ℕ
  capacity : ℤ
  table : VolumeTable
  curVtbl : ℕ
  ioState : IoState
  eod : ℕ
  pos : Position
  volume : Volinfo
  remaining : ℤ
  bufLenRd : ℤ
  segSz : ℤ
  deblockBuffer : ℕ → α
  deblockSegment : Option ℕ
  justBeforeEof : Bool
  resid : ℤ

variable {α : Type*}

/-- `zft_get_seg_sz()`. -/
def Reader.zftGetSegSz (zftape : Reader α) (segment : ℕ) : ℕ :=
  let size := segDataSz (zftape.badSectorMap segment)
  if 0 < size ∧ zftape.rawImage then size + ftEccSectors * ftSectorSize else size

/-- `zft_first_segment()`. -/
def Reader.zftFirstSegment (zftape : Reader α) : ℕ :=
  if zftape.rawImage then 0 else zftape.firstDataSegment

/-- `zft_get_capacity()`. -/
def Reader.zftGetCapacity (zftape : Reader α) : ℕ :=
  ((List.range' zftape.zftFirstSegment (zftape.lastDataSegment + 1 - zftape.zftFirstSegment)).map
    zftape.zftGetSegSz).sum

/-- `tape_vtbl`, the volume of the raw device. -/
def Reader.tapeVtbl (zftape : Reader α) : Volinfo :=
  ⟨zftape.zftFirstSegment, zftape.lastDataSegment, zftape.capacity, zftape.capacity, zftape.blkSz, false⟩

/-- `eot_vtbl`, behind the volume of the raw device. -/
def Reader.eotVtbl (zftape : Reader α) : Volinfo :=
  ⟨zftape.lastDataSegment + 1, zftape.lastDataSegment + 1, 0, 0, zftape.blkSz, false⟩

/-- The entries `zft_volume_by_segpos()` walks over. -/
def VolumeTable.entries (table : VolumeTable) : List Volinfo := table.volumes ++ [table.eom]

/-- The first loop of `zft_volume_by_segpos()`: forwards past the volumes that end too early. -/
def walkForwards (entries : List Volinfo) (segPos cur : ℕ) : ℕ :=
  cur + ((entries.drop cur).takeWhile (·.endSeg < segPos)).length

/-- The second loop: backwards past the volumes that start too late. -/
def walkBackwards (entries : List Volinfo) (segPos cur : ℕ) : ℕ :=
  cur - ((entries.take (cur + 1)).reverse.takeWhile (segPos < ·.startSeg)).length

/-- `zft_volume_by_segpos()`: the entry the walk stops at, and the volume. -/
def Reader.zftVolumeBySegpos (zftape : Reader α) (segPos : ℕ) : ℕ × Volinfo :=
  if zftape.qicMode then
    let entries := zftape.table.entries
    if segPos < (entries.headD zftape.table.eom).startSeg then (0, entries.headD zftape.table.eom)
    else
      let cur := walkBackwards entries segPos (walkForwards entries segPos zftape.curVtbl)
      (cur, entries.getD cur zftape.table.eom)
  else if zftape.lastDataSegment < segPos then (zftape.curVtbl, zftape.eotVtbl)
  else (zftape.curVtbl, zftape.tapeVtbl)

/-- `zft_tape_at_eod()`. -/
def Reader.zftTapeAtEod (zftape : Reader α) : Bool :=
  if zftape.qicMode then
    zftape.table.eom.startSeg ≤ zftape.pos.segPos ∨
      (zftape.table.volumes.getLast?.any fun last => last.isOpen)
  else zftape.lastDataSegment < zftape.pos.segPos

/-- `zft_release_deblock_buffer()`. -/
def Reader.zftReleaseDeblockBuffer (zftape : Reader α) : Reader α :=
  { zftape with bufLenRd := 0, deblockSegment := none }

/-- `zft_fetch_segment()`, with the zero filled segment `zft_blank_segment()` hands out. -/
def Reader.zftFetchSegment (kernel : Kernel α) (zftape : Reader α) (segment : ℕ) :
    Reader α × Except Errno ℕ :=
  if zftape.deblockSegment = some segment then (zftape, .ok (zftape.zftGetSegSz segment))
  else
    let zftape := zftape.zftReleaseDeblockBuffer
    match zftape.readSegment segment with
    | .error errno =>
      if errno = .eintr ∨ zftape.rawImage = false ∨ zftape.firstDataSegment ≤ segment then
        (zftape, .error errno)
      else if zftape.zftGetSegSz segment = 0 then (zftape, .ok 0)
      else
        ({ zftape with
          deblockBuffer := blit zftape.deblockBuffer 0 (fun _ => kernel.zero) 0 (zftape.zftGetSegSz segment)
          deblockSegment := some segment }, .ok (zftape.zftGetSegSz segment))
    | .ok deblockBuffer =>
      ({ zftape with deblockBuffer := deblockBuffer, deblockSegment := some segment },
        .ok (zftape.zftGetSegSz segment))

/-- The loop of `_zft_read()` over segments that have nothing to hand out. Segments behind the end
of the tape cannot be read, which bounds the rounds. -/
def Reader.fetchNext (kernel : Kernel α) : ℕ → Reader α → Reader α × Except Errno ℕ
  | 0, zftape => (zftape, .error .eio)
  | rounds + 1, zftape =>
    let (zftape, result) := zftape.zftFetchSegment kernel zftape.pos.segPos
    match result with
    | .ok 0 => Reader.fetchNext kernel rounds
        { zftape with pos := { zftape.pos with segPos := zftape.pos.segPos + 1, segBytePos := 0 } }
    | result => (zftape, result)

/-- `empty_deblock_buf()` of an uncompressed volume: the bytes handed to the user. -/
def Reader.emptyDeblockBuf (zftape : Reader α) (reqLen : ℤ) : Reader α × List α :=
  let cnt := if zftape.segSz - zftape.pos.segBytePos < reqLen then
    zftape.segSz - zftape.pos.segBytePos else reqLen
  let bytes := window zftape.deblockBuffer zftape.pos.segBytePos.toNat cnt.toNat
  let segBytePos := zftape.pos.segBytePos + cnt
  let pos := { zftape.pos with
    volumePos := zftape.pos.volumePos + cnt
    tapePos := zftape.pos.tapePos + cnt
    segBytePos := segBytePos }
  ({ zftape with
    pos := if zftape.segSz ≤ segBytePos then { pos with segPos := pos.segPos + 1, segBytePos := 0 } else pos
    bufLenRd := zftape.bufLenRd - cnt }, bytes)

/-- The part of the loop of `_zft_read()` that reads a segment when the buffer is used up. -/
def Reader.refill (kernel : Kernel α) (zftape : Reader α) : Reader α × Except Errno Unit :=
  if zftape.bufLenRd = 0 then
    match zftape.fetchNext kernel (zftape.segments + 1 - zftape.pos.segPos) with
    | (zftape, .ok size) =>
      ({ zftape with segSz := size, bufLenRd := size - zftape.pos.segBytePos }, .ok ())
    | (zftape, .error errno) => (zftape, .error errno)
  else (zftape, .ok ())

/-- The loop of `_zft_read()`. Each round but the first hands out a byte or more, which bounds the rounds. -/
def Reader.readLoop (kernel : Kernel α) : ℕ → Reader α → ℤ → Reader α × Except Errno (List α)
  | 0, zftape, _ => (zftape, .ok [])
  | rounds + 1, zftape, reqLen =>
    if reqLen ≤ 0 then (zftape, .ok [])
    else
      match zftape.refill kernel with
      | (zftape, .error errno) => (zftape, .error errno)
      | (zftape, .ok ()) =>
        let (zftape, bytes) := zftape.emptyDeblockBuf reqLen
        match Reader.readLoop kernel rounds zftape (reqLen - bytes.length) with
        | (zftape, .ok rest) => (zftape, .ok (bytes ++ rest))
        | (zftape, .error errno) => (zftape, .error errno)

/-- `zft_move_past_eof()`. -/
def Reader.zftMovePastEof (zftape : Reader α) : Reader α :=
  { zftape with
    pos := ⟨zftape.pos.segPos + 1, 0, 0,
      zftape.pos.tapePos + (zftape.zftGetSegSz zftape.pos.segPos - zftape.pos.segBytePos)⟩
    justBeforeEof := false }.zftReleaseDeblockBuffer

/-- `zft_position_before_eof()`. -/
def Reader.zftPositionBeforeEof (zftape : Reader α) : Reader α :=
  if zftape.pos.segPos = zftape.volume.endSeg + 1 ∧ zftape.pos.segBytePos = 0 then
    { zftape with pos := { zftape.pos with
      segPos := zftape.pos.segPos - 1
      segBytePos := zftape.zftGetSegSz (zftape.pos.segPos - 1) } }
  else zftape

/-- The outcome of `check_read_access()`: the request, clipped at the end of the volume, or the end
of the recorded media. -/
inductive ReadAccess where
  | granted (reqLen : ℤ) (clipped : Bool)
  | endOfData
  | failed (errno : Errno)

/-- The part of `check_read_access()` that clips the request. -/
def Reader.clipRequest (zftape : Reader α) (reqLen : ℤ) : Reader α × ReadAccess :=
  if reqLen % zftape.volume.blkSz ≠ 0 then (zftape, .failed .einval)
  else
    let remaining := zftape.remaining - reqLen
    let zftape := { zftape with remaining := remaining }
    if remaining ≤ 0 then (zftape, .granted (reqLen + remaining) true)
    else (zftape, .granted reqLen false)

/-- `check_read_access()` of a device whose header segments and volume table are read and whose
write buffers are flushed: entering the idle state then only drops the read buffers. -/
def Reader.checkReadAccess (zftape : Reader α) (reqLen : ℤ) : Reader α × ReadAccess :=
  if zftape.ioState ≠ .reading then
    if zftape.offline then (zftape, .failed .enxio)
    else if zftape.formatted = false then (zftape, .failed .eacces)
    else
      let zftape := { zftape with bufLenRd := 0, ioState := .reading }
      if zftape.zftTapeAtEod then ({ zftape with eod := 1 }, .endOfData)
      else
        let (cur, volume) := zftape.zftVolumeBySegpos zftape.pos.segPos
        Reader.clipRequest { zftape with
          eod := 0
          curVtbl := cur
          volume := volume
          remaining := volume.size - zftape.pos.volumePos
          bufLenRd := 0 } reqLen
  else if zftape.zftTapeAtEod then
    let zftape := { zftape with eod := zftape.eod + 1 }
    if 2 < zftape.eod then (zftape, .failed .eio) else (zftape, .endOfData)
  else zftape.clipRequest reqLen

/-- What `_zft_read()` does after a clipped request. -/
def Reader.atEof (zftape : Reader α) (bytesRead : ℕ) : Reader α :=
  if zftape.justBeforeEof ∧ bytesRead = 0 then { zftape.zftMovePastEof with ioState := .idle }
  else { zftape with justBeforeEof := true }.zftPositionBeforeEof

/-- `_zft_read()`: the bytes the user gets. -/
def Reader.zftRead (kernel : Kernel α) (zftape : Reader α) (reqLen : ℤ) :
    Reader α × Except Errno (List α) :=
  match Reader.checkReadAccess { zftape with resid := reqLen } reqLen with
  | (zftape, .failed errno) => (zftape, .error errno)
  | (zftape, .endOfData) => (zftape, .ok [])
  | (zftape, .granted reqLen clipped) =>
    match zftape.readLoop kernel (reqLen.toNat + 1) reqLen with
    | (zftape, .error errno) => (zftape, .error errno)
    | (zftape, .ok bytes) =>
      let zftape := if clipped then zftape.atEof bytes.length else zftape
      (zftape, .ok bytes)

end Ftape.Zftape
