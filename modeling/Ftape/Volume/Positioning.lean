import Ftape.Algebra.Recorded
import Ftape.Volume.Lookup

/-!
# Moving over the volumes

The commands that move over the volumes look them up on the way, and so does reading when it starts.
Every lookup goes on from the node where the last one ended. The volume table is read, and nothing is
written.
-/

namespace Ftape.Volume

open Ftape.Algebra Ftape.Write Ftape.Zftape

variable {α : Type}

/-- Why a command cannot go on: a walk over the list left it, or the block size of a volume makes a
divisor of zero. -/
inductive Halt where
  | listLeft
  | divideError
deriving DecidableEq

/-- What a command does, with the lookups it makes. -/
abbrev Call (β : Type) := Recorded Lookup Halt β

/-- The volume at a node. -/
def Vtbl.node (table : Vtbl) (i : ℕ) : VtblEntry := table.entries.getD i table.eom

/-- `zft_volume_by_segpos()` in qic mode, with the node it caches. -/
def zftVolumeBySegpos (table : Vtbl) (zftape : Reader α) (segPos : ℕ) : Call (Reader α × ℕ) :=
  match table.volumeBySegpos zftape.curVtbl segPos with
  | some cur => ⟨[⟨zftape.curVtbl, segPos⟩], .ok ({ zftape with curVtbl := cur }, cur)⟩
  | none => ⟨[⟨zftape.curVtbl, segPos⟩], .error .listLeft⟩

/-- `zft_div_blksz()`. -/
def zftDivBlksz (value : ℤ) (blkSz : ℕ) : Call ℤ :=
  if blkSz = 1 then pure value
  else if blkSz / 1024 = 0 then Recorded.halt .divideError
  else pure ((value / 1024 + (blkSz / 1024 : ℕ) - 1) % 0x100000000 / (blkSz / 1024 : ℕ))

/-- `zft_mul_blksz()`. -/
def zftMulBlksz (value : ℤ) (blkSz : ℕ) : ℤ :=
  if blkSz = 1 then value else value * (blkSz / 1024 : ℕ) * 1024 % 0x100000000

/-- `zft_volume_size()`, without a compressor. -/
def VtblEntry.volumeSize (volume : VtblEntry) : ℤ :=
  if volume.useCompression then volume.rawsize else volume.size

/-- `zft_block_size()`, without a compressor. -/
def VtblEntry.blockSize (volume : VtblEntry) : ℕ := if volume.useCompression then 1024 else volume.blkSz

/-- The loop of `zft_blk_offs()`, with one block for each file mark. -/
def blkOffsLoop : List VtblEntry → Call ℤ
  | [] => pure 0
  | volume :: rest => do
    let blocks ← zftDivBlksz volume.volumeSize volume.blockSize
    let offset ← blkOffsLoop rest
    pure (blocks + 1 + offset)

/-- `zft_blk_offs()`. -/
def zftBlkOffs (table : Vtbl) (volume : ℕ) : Call ℤ := blkOffsLoop (table.volumes.take volume)

/-- The loop of `zft_volume_by_blkpos()`, for the nodes that are left. -/
def blkposLoop (blkPos : ℤ) : List VtblEntry → ℕ → ℤ → Call (ℕ × ℤ)
  | [], i, offset => pure (i, offset)
  | volume :: rest, i, offset => do
    let volBlocks ← zftDivBlksz volume.volumeSize volume.blockSize
    if offset + volBlocks < blkPos ∧ rest ≠ [] then blkposLoop blkPos rest (i + 1) (offset + volBlocks + 1)
    else pure (i, offset)

/-- `zft_volume_by_blkpos()` of a block behind the first one, with the number of the first block of
the volume. -/
def zftVolumeByBlkpos (table : Vtbl) (blkPos : ℤ) : Call (ℕ × ℤ) := blkposLoop blkPos table.entries 0 0

/-- `zft_calc_tape_pos()`, which gets by without the position it remembers. -/
def zftCalcTapePos (zftape : Reader α) (segment : ℤ) : ℤ :=
  if zftape.lastDataSegment < segment then zftape.capacity
  else ((List.range' zftape.zftFirstSegment (segment.toNat - zftape.zftFirstSegment)).map
    zftape.zftGetSegSz).sum

/-- The loop of `zft_calc_seg_byte_coord()`, for the segments that are left: the segment behind those
it took off, what is left of the position, and the size of the last segment. -/
def segByteCoordLoop (zftape : Reader α) : ℕ → ℕ → ℤ → ℤ → ℕ × ℤ × ℤ
  | 0, segment, tapePos, segSz => (segment, tapePos, segSz)
  | left + 1, segment, tapePos, segSz =>
    if 0 < tapePos then
      segByteCoordLoop zftape left (segment + 1) (tapePos - zftape.zftGetSegSz segment)
        (zftape.zftGetSegSz segment)
    else (segment, tapePos, segSz)

/-- `zft_calc_seg_byte_coord()`: the segment, and the byte in it. -/
def zftCalcSegByteCoord (zftape : Reader α) (tapePos : ℤ) : ℕ × ℤ :=
  if tapePos = 0 then (zftape.zftFirstSegment, 0)
  else
    let (segment, tapePos, segSz) := segByteCoordLoop zftape
      (zftape.lastDataSegment + 1 - zftape.zftFirstSegment) zftape.zftFirstSegment tapePos 0
    if 0 ≤ tapePos then (segment, 0) else (Header.uint (segment + 0xffffffff), tapePos + segSz)

/-- The position at the start of a volume. -/
def startOf (zftape : Reader α) (volume : VtblEntry) : Position :=
  ⟨volume.startSeg, 0, 0, zftCalcTapePos zftape (Header.int volume.startSeg)⟩

/-- `zft_reset_position()` when the volume table is read. -/
def zftResetPosition (table : Vtbl) (zftape : Reader α) : Call (Reader α) := do
  let (zftape, volume) ← zftVolumeBySegpos table zftape 0
  pure { zftape with
    pos := startOf zftape (table.node volume)
    justBeforeEof := false
    ioState := .idle }.zftReleaseDeblockBuffer

/-- `zft_def_idle_state()` when the volume table is read and nothing was written. -/
def zftDefIdleState (zftape : Reader α) : Reader α := { zftape with bufLenRd := 0, ioState := .idle }

/-- The first loop of `zft_skip_volumes()`: the volume, and what is left of the count. -/
def skipForwards (eom : ℕ) : ℕ → ℕ → ℕ × ℕ
  | 0, vtbl => (vtbl, 0)
  | count + 1, vtbl => if vtbl = eom then (vtbl, count + 1) else skipForwards eom count (vtbl + 1)

/-- The second loop. -/
def skipBackwards : ℕ → ℕ → ℕ × ℕ
  | 0, vtbl => (vtbl, 0)
  | count + 1, vtbl => if vtbl = 0 then (vtbl, count + 1) else skipBackwards count (vtbl - 1)

/-- `zft_skip_volumes()`. -/
def zftSkipVolumes (table : Vtbl) (zftape : Reader α) (count : ℤ) :
    Call (Reader α × Except Errno Unit) := do
  let (zftape, vtbl) ← zftVolumeBySegpos table zftape zftape.pos.segPos
  let (vtbl, count) := if 0 < count then skipForwards table.volumes.length count.toNat vtbl
    else skipBackwards (-count).toNat vtbl
  pure ({ zftape with
    pos := startOf zftape (table.node vtbl)
    justBeforeEof := (table.node vtbl).volumeSize = 0
    resid := count }.zftReleaseDeblockBuffer, if count = 0 then .ok () else .error .einval)

/-- `mt_fsf()`. -/
def mtFsf (table : Vtbl) (zftape : Reader α) (arg : ℤ) : Call (Reader α × Except Errno Unit) := do
  let (zftape, result) ← zftSkipVolumes table zftape arg
  pure ({ zftape with justBeforeEof := false }, result)

/-- `mt_bsf()`. -/
def mtBsf (table : Vtbl) (zftape : Reader α) (arg : ℤ) : Call (Reader α × Except Errno Unit) :=
  if arg ≠ 0 then zftSkipVolumes table zftape (-arg + 1) else pure (zftape, .ok ())

/-- `zft_position_before_eof()` of a given volume. -/
def positionBeforeEof (zftape : Reader α) (volume : VtblEntry) : Reader α :=
  { { zftape with volume := volume.toVolinfo }.zftPositionBeforeEof with volume := zftape.volume }

/-- The part of `seek_block_in_volume()` that takes the position of a block. -/
def takeBlockPos (zftape : Reader α) (volume : VtblEntry) (newBlockPos : ℤ) : Reader α :=
  let volumePos := zftMulBlksz newBlockPos volume.blkSz
  let tapePos := zftCalcTapePos zftape (Header.int volume.startSeg) + volumePos
  let coord := zftCalcSegByteCoord zftape tapePos
  let zftape := { zftape with pos := ⟨coord.1, coord.2, volumePos, tapePos⟩ }
  if volume.size = volumePos then positionBeforeEof { zftape with justBeforeEof := true } volume
  else { zftape with justBeforeEof := false }

/-- `seek_block_in_volume()` from the start of the volume. -/
def seekBlockInVolume (table : Vtbl) (zftape : Reader α) (blockIncrement : ℤ) :
    Call (Reader α × Except Errno Unit) := do
  let (zftape, i) ← zftVolumeBySegpos table zftape zftape.pos.segPos
  let volume := table.node i
  if volume.startSeg = 0 ∨ volume.endSeg = 0 then pure (zftape, .error .eio)
  else do
    let dataBlocks ← zftDivBlksz 0 volume.blkSz
    let volBlockCount ← zftDivBlksz volume.size volume.blkSz
    let wanted := dataBlocks + blockIncrement
    let newBlockPos := if wanted < 0 then 0 else if volBlockCount < wanted then volBlockCount else wanted
    let zftape := takeBlockPos zftape volume newBlockPos
    let arrived ← zftDivBlksz zftape.pos.volumePos volume.blkSz
    let resid := |Header.int (if wanted < 0 then wanted else
      if volBlockCount < wanted then volBlockCount - wanted else newBlockPos - arrived)|
    pure ({ zftape with resid := resid },
      if wanted < 0 ∨ volBlockCount < wanted ∨ resid ≠ 0 then .error .einval else .ok ())

/-- `zft_seek_direction_t`. -/
inductive SeekDirection where
  | backwards
  | absolute
  | forward

/-- The number of the block the tape stands at. -/
def blockPosition (table : Vtbl) (zftape : Reader α) (volume : ℕ) : Call ℤ := do
  let blocks ← zftDivBlksz zftape.pos.volumePos (table.node volume).blockSize
  let offset ← zftBlkOffs table volume
  pure (blocks + offset)

/-- The number of the block `seek_block()` looks for. -/
def SeekDirection.newPos (table : Vtbl) (zftape : Reader α) (volume : ℕ) (blocks : ℤ) :
    SeekDirection → Call ℤ
  | backwards => do
    let oldPos ← blockPosition table zftape volume
    pure (oldPos - blocks)
  | absolute => pure blocks
  | forward => do
    let oldPos ← blockPosition table zftape volume
    pure (oldPos + blocks)

/-- The part of `seek_block()` that leads to a block behind the first one. -/
def seekNewPos (table : Vtbl) (zftape : Reader α) (newPos : ℤ) :
    Call (Reader α × Except Errno Unit) := do
  let (i, offset) ← zftVolumeByBlkpos table newPos
  let volume := table.node i
  let zftape := { zftape with pos := startOf zftape volume }
  let volBlocks ← zftDivBlksz volume.volumeSize volume.blockSize
  let inside := seekBlockInVolume table zftape (newPos - offset)
  let (zftape, result) ← (if newPos ≤ offset + volBlocks then inside else pure (zftape, .ok ()))
  let arrived ← zftDivBlksz zftape.pos.volumePos volume.blockSize
  let resid := |Header.int (newPos - offset - arrived)|
  pure ({ zftape with resid := resid },
    result.bind fun _ => if resid ≠ 0 then .error .einval else .ok ())

/-- `seek_block()`. -/
def seekBlock (table : Vtbl) (zftape : Reader α) (direction : SeekDirection) (blocks : ℤ) :
    Call (Reader α × Except Errno Unit) := do
  let (zftape, volume) ← zftVolumeBySegpos table zftape zftape.pos.segPos
  let newPos ← direction.newPos table zftape volume blocks
  if newPos ≤ 0 then do
    let zftape ← zftResetPosition table zftape
    pure ({ zftape with resid := Header.int (-newPos) }, if newPos ≠ 0 then .error .einval else .ok ())
  else seekNewPos table zftape newPos

/-- `fsfbsfm()`. -/
def fsfbsfm (table : Vtbl) (zftape : Reader α) (arg : ℤ) : Call (Reader α × Except Errno Unit) :=
  if arg = 0 then pure (zftape, .ok ())
  else do
    let (zftape, result) ← zftSkipVolumes table { zftape with justBeforeEof := false }
      (if arg < 0 then arg else arg - 1)
    match result with
    | .error errno =>
      pure ({ zftape with resid := if 0 < arg then zftape.resid + 1 else zftape.resid }, .error errno)
    | .ok () => do
      let (zftape, i) ← zftVolumeBySegpos table zftape zftape.pos.segPos
      let volume := table.node i
      let blockPos ← zftDivBlksz volume.size volume.blkSz
      let (zftape, _) ← seekBlockInVolume table zftape blockPos
      if zftape.pos.volumePos ≠ volume.size then
        pure ({ zftape with justBeforeEof := false, resid := 1 }, .error .eio)
      else pure ({ zftape with justBeforeEof := true }, .ok ())

/-- `mt_tell()`. -/
def mtTell (table : Vtbl) (zftape : Reader α) : Call (Reader α × ℤ) := do
  let (zftape, vol) ← zftVolumeBySegpos table zftape zftape.pos.segPos
  let block ← blockPosition table zftape vol
  pure (zftape, block)

/-- The file number and the block number `MTIOCGET` tells. -/
def mtiocget (table : Vtbl) (zftape : Reader α) : Call (Reader α × Option (ℕ × ℤ)) :=
  if zftape.offline then pure (zftape, none)
  else do
    let (zftape, volume) ← zftVolumeBySegpos table zftape zftape.pos.segPos
    let (zftape, block) ← mtTell table zftape
    pure (zftape, some ((table.node volume).count, block))

/-- The number and the block size `MTIOCVOLINFO` tells. -/
def mtiocVolinfo (table : Vtbl) (zftape : Reader α) : Call (Reader α × Except Errno (ℕ × ℕ)) :=
  if zftape.offline then pure (zftape, .error .enxio)
  else if zftape.formatted = false then pure (zftape, .error .eacces)
  else do
    let (zftape, i) ← zftVolumeBySegpos table (zftDefIdleState zftape) zftape.pos.segPos
    let volume := table.node i
    pure (zftape, .ok (volume.count, if volume.blkSz = 1 then 0 else volume.blkSz))

/-- The commands of `mt_funs` that move over the volumes. -/
inductive MtOp where
  | mtFsf
  | mtBsf
  | mtFsr
  | mtBsr
  | mtRew
  | mtBsfm
  | mtFsfm
  | mtEom
  | mtSeek

/-- The functions of `mt_funs`. -/
def MtOp.function (table : Vtbl) (zftape : Reader α) (arg : ℤ) :
    MtOp → Call (Reader α × Except Errno Unit)
  | mtFsf => Volume.mtFsf table zftape arg
  | mtBsf => Volume.mtBsf table zftape arg
  | mtFsr => seekBlock table zftape .forward arg
  | mtBsr => seekBlock table zftape .backwards arg
  | mtRew => do
    let zftape ← zftResetPosition table (zftDefIdleState zftape)
    pure (zftape, .ok ())
  | mtBsfm => fsfbsfm table zftape (-arg)
  | mtFsfm => fsfbsfm table zftape arg
  | mtEom => pure ({ zftape with pos := startOf zftape table.eom, justBeforeEof := false }, .ok ())
  | mtSeek => seekBlock table zftape .absolute arg

/-- `mtioctop()` of these commands on a formatted cartridge. -/
def mtioctop (table : Vtbl) (zftape : Reader α) (mtOp : MtOp) (mtCount : ℤ) :
    Call (Reader α × Except Errno Unit) :=
  let zftape := { zftape with resid := mtCount }
  if zftape.offline then pure (zftape, .error .enxio)
  else if zftape.formatted = false then pure (zftape, .error .eacces)
  else do
    let (zftape, result) ← mtOp.function table (zftDefIdleState zftape) mtCount
    pure (if result.toBool then { zftape with resid := 0 } else zftape, result)

/-- `check_read_access()` looks the volume up. -/
def LooksUp (zftape : Reader α) : Prop :=
  zftape.ioState ≠ .reading ∧ zftape.offline = false ∧ zftape.formatted = true ∧
    zftape.zftTapeAtEod = false

instance (zftape : Reader α) : Decidable (LooksUp zftape) := inferInstanceAs (Decidable (_ ∧ _ ∧ _ ∧ _))

/-- `_zft_read()` in qic mode, with its lookup and the division by the block size of the volume. -/
def zftRead (kernel : Kernel α) (table : Vtbl) (zftape : Reader α) (reqLen : ℤ) :
    Call (Reader α × Except Errno (List α)) :=
  if LooksUp zftape then do
    let (_, volume) ← zftVolumeBySegpos table zftape zftape.pos.segPos
    if (table.node volume).blkSz = 0 then Recorded.halt .divideError
    else pure (zftape.zftRead kernel reqLen)
  else if zftape.ioState = .reading ∧ zftape.zftTapeAtEod = false ∧ zftape.volume.blkSz = 0 then
    Recorded.halt .divideError
  else pure (zftape.zftRead kernel reqLen)

/-- What a user may do with a cartridge that is read. -/
inductive Request where
  | mtop (mtOp : MtOp) (mtCount : ℤ)
  | get
  | volinfo
  | read (reqLen : ℤ)

/-- What a request makes of the device. -/
def Request.exec (kernel : Kernel α) (table : Vtbl) (zftape : Reader α) : Request → Call (Reader α)
  | mtop mtOp mtCount => do
    let (zftape, _) ← mtioctop table zftape mtOp mtCount
    pure zftape
  | get => do
    let (zftape, _) ← mtiocget table zftape
    pure zftape
  | volinfo => do
    let (zftape, _) ← mtiocVolinfo table zftape
    pure zftape
  | read reqLen => do
    let (zftape, _) ← zftRead kernel table zftape reqLen
    pure zftape

/-- One request after the other. -/
def execRequests (kernel : Kernel α) (table : Vtbl) : List Request → Reader α → Call (Reader α)
  | [], zftape => pure zftape
  | request :: requests, zftape => do
    let zftape ← request.exec kernel table zftape
    execRequests kernel table requests zftape

/-- The device when the volume table was read: `cur_vtbl` is `zft_eom_vtbl`. -/
def withVtbl (cartridge : Cartridge) (table : Vtbl) (zftape : Reader α) : Reader α :=
  { zftape with
    firstDataSegment := cartridge.firstDataSegment
    lastDataSegment := cartridge.lastDataSegment
    capacity := cartridge.capacity
    blkSz := cartridge.blkSz
    qicMode := true
    table := table.volumeTable
    curVtbl := table.volumes.length }

/-- `zft_def_idle_state()` reads the volume table, and requests follow. -/
def session (kernel : Kernel α) (cartridge : Cartridge) (buffer : ℕ → Byte) (zftape : Reader α)
    (requests : List Request) : Call (Reader α) := do
  let table := zftExtractVolumeHeaders cartridge buffer
  let zftape ← zftResetPosition table (withVtbl cartridge table zftape)
  execRequests kernel table requests zftape

end Ftape.Volume
