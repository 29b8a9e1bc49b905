import Ftape.Write.Queue

/-!
# The state of the tape device

The upper layer cuts the byte stream of the user into segments. It keeps a position, a list of
sectors that hard write errors shifted out of the ring, and the volume table.
-/

namespace Ftape.Zftape

open Ftape.Algebra Ftape.Write

/-- What the routines take from elsewhere: the parity generator of the controller, the contents
of freshly allocated memory, and the byte `memset()` writes. -/
structure Kernel (α : Type*) where
  ecc : EccCode α
  fresh : ℕ → α
  zero : α

/-- `zft_position`. -/
structure Position where
  segPos : ℕ
  segBytePos : ℤ
  volumePos : ℤ
  tapePos : ℤ

/-- The fields of `zft_volinfo` that reading and writing use. -/
structure Volinfo where
  startSeg : ℕ
  endSeg : ℕ
  size : ℤ
  rawsize : ℤ
  blkSz : ℕ
  isOpen : Bool

/-- `zft_idle`, `zft_reading` and `zft_writing`. -/
inductive IoState where
  | idle
  | reading
  | writing
deriving DecidableEq

/-- The fields of `zftape_info_t` that writing uses. `deblock_buf` is null or the controller's
deblock buffer, and the list of hard errors is kept from `next` to `prev`. -/
structure ZftapeInfo (α : Type*) where
  drive : Drive α
  deblockBuf : Bool
  hardErrors : List (ℕ → α)
  capacity : ℤ
  pos : Position
  blkSz : ℕ
  volume : Volinfo
  ioState : IoState
  lastWriteFailed : Bool
  needFlush : Bool
  resid : ℤ

variable {α : Type*}

/-- `hard_error_cnt`, the length of the list. -/
def ZftapeInfo.hardErrorCnt (zftape : ZftapeInfo α) : ℕ := zftape.hardErrors.length

/-- `zft_get_seg_sz()` on a device that can write, where no raw image is shown. -/
def ZftapeInfo.segSz (zftape : ZftapeInfo α) (segment : ℕ) : ℕ :=
  segDataSz (zftape.drive.badSectorMap segment)

/-- The bytes of the pending sectors, in the order in which they will be taken. -/
def ZftapeInfo.pending (zftape : ZftapeInfo α) : List α :=
  zftape.hardErrors.flatMap fun sector => window sector 0 ftSectorSize

end Ftape.Zftape
