import Ftape.Compressor.Read

/-!
# Seeking in compressed volumes

The blocks of a compressed volume lie in clusters of different sizes, so that the segment of a block is not known.
`zftc_seek()` estimates it from the size of the volume, and searches a segment with a file offset there, which tells
the place in the volume. Near the block, or after ten such trials, it goes on cluster by cluster. Where an estimate
leads too far, or to segments that cannot be read, it goes back.
-/

namespace Ftape.Compressor

open Ftape.Algebra Ftape.Volume Ftape.Zftape

/-- `ZFT_FAST_SEEK_MAX_TRIALS`. -/
def zftFastSeekMaxTrials : ℕ := 10

/-- The error codes of seeking. -/
inductive SeekError where
  | eio
  | eintr
  | other (errno : ℕ)
deriving DecidableEq

/-- The deblock buffer with the size that `zft_fetch_segment()` returns. A segment without usable sectors has the
size zero, and its buffer holds anything. -/
structure DeblockBuf where
  data : ℕ → Byte
  size : ℕ
  size_le : size ≤ ftBuffSize

/-- What seeking works on: `zftc->cseg`, the position, and how many fetches and checks there were. -/
structure Seeker where
  cseg : CmprInfo
  pos : Position
  now : ℕ

section Clusters

variable (bigEndian : Bool) (volume : VtblEntry) (surface : Surface)

/-- The part of `get_cseg()` for the data that goes on from the segment before. -/
def DeblockBuf.continuedCluster (buf : DeblockBuf) (firstBlock : ℕ) (cinfo : CmprInfo) : CmprInfo :=
  if firstBlock = 0 then { cinfo with firstBlock, count := uintSub buf.size 2, offset := buf.size, spans := true }
  else { cinfo with firstBlock, count := uintSub firstBlock 2, offset := firstBlock, spans := false }

/-- The part of `get_cseg()` that takes the file offset of the first cluster. -/
def DeblockBuf.fileOffset (buf : DeblockBuf) (cinfo : CmprInfo) : CmprInfo :=
  if 18 < uintSub buf.size cinfo.offset then
    if volume.qic113 then
      let foffs := fetch bigEndian buf.data cinfo.offset 8
      { cinfo with foffs := (foffs : ℤ).bmod (2 ^ 64), offset := Header.uint (cinfo.offset + 8) }
    else
      let foffs := fetch bigEndian buf.data cinfo.offset 4
      { cinfo with foffs := foffs, offset := Header.uint (cinfo.offset + 4) }
  else cinfo

/-- `get_cseg()`: whether the segment is consistent. -/
def DeblockBuf.getCseg (buf : DeblockBuf) (cinfo : CmprInfo) : Bool × CmprInfo :=
  let firstBlock := fetch bigEndian buf.data 0 2
  if buf.size < firstBlock then (false, { cinfo with firstBlock })
  else
    let cinfo := buf.fileOffset bigEndian volume (buf.continuedCluster firstBlock cinfo)
    (cinfo.foffs ≤ volume.size ∧ cinfo.pending ≤ volume.blkSz, cinfo)

/-- `get_next_cluster()`. -/
def DeblockBuf.getNextCluster (buf : DeblockBuf) (finish : Bool) (cluster : CmprInfo) : CmprInfo :=
  if 18 < uintSub buf.size cluster.offset ∨ cluster.foffs ≠ 0 then
    let header := fetch bigEndian buf.data cluster.offset 2
    let uncmpr := header &&& 0x8000
    let count := header - uncmpr
    let offset := Header.uint (cluster.offset + 2)
    let stop := Header.uint (offset + count)
    let cluster := { cluster with count, uncmpr, offset, foffs := 0 }
    if stop < buf.size then { cluster with spans := false }
    else if stop = buf.size then { cluster with spans := !finish }
    else { cluster with spans := true, count := uintSub buf.size offset }
  else { cluster with count := 0, spans := false, foffs := 0 }

/-- The variables of `seek_in_segment()`. -/
structure Walk where
  cseg : CmprInfo
  result : ℕ
  remaining : ℤ
  now : ℕ

/-- The part of the loop that passes a complete cluster. -/
def Walk.pass (walk : Walk) : Walk :=
  if walk.cseg.cmprPos ≠ 0 then
    { walk with
      cseg := { walk.cseg with cmprPos := 0 }
      result := walk.result + volume.blkSz / 1024
      remaining := walk.remaining - (volume.blkSz / 1024 : ℕ) }
  else walk

/-- The part of `seek_in_segment()` for a segment that was just read. -/
def DeblockBuf.enter (buf : DeblockBuf) (cseg : CmprInfo) : Bool × CmprInfo :=
  if cseg.offset = 0 then
    match buf.getCseg bigEndian volume cseg with
    | (true, cseg) => (true, { cseg with cmprPos := Header.int (cseg.cmprPos + cseg.count) })
    | (false, cseg) => (false, cseg)
  else (true, cseg)

/-- Less than a cluster header is left of the segment. -/
def DeblockBuf.skipRest (buf : DeblockBuf) (cseg : CmprInfo) : CmprInfo :=
  if uintSub buf.size cseg.offset ≤ 18 then { cseg with offset := buf.size } else cseg

/-- The position behind a part of a segment. -/
def Seeker.advance (seeker : Seeker) (buf : DeblockBuf) (segPos result : ℕ) (cseg : CmprInfo) (now : ℕ) : Seeker :=
  let pos := { seeker.pos with
    segPos := segPos
    segBytePos := Header.int cseg.offset
    volumePos := seeker.pos.volumePos + Header.int (result * 1024) }
  if segPos + 1 ≤ volume.endSeg ∧ cseg.offset = buf.size then
    ⟨{ cseg with offset := 0 }, { pos with segPos := segPos + 1, segBytePos := 0 }, now⟩
  else ⟨cseg, pos, now⟩

/-- The variables of `slow_seek_forward_until_error()`. -/
structure Slow where
  remaining : ℕ
  segPos : ℕ
  seeker : Seeker

/-- The position in a segment that was found. -/
def Seeker.found (seeker : Seeker) (segment : ℕ) (cseg : CmprInfo) (now : ℕ) : Seeker :=
  ⟨cseg, { seeker.pos with segPos := segment, volumePos := cseg.foffs, segBytePos := Header.int cseg.offset }, now⟩

end Clusters

section Estimates

variable (bigEndian : Bool) (volume : VtblEntry) (surface : Surface)

/-- The variables of the inner loops of `zftc_seek()`. -/
structure Backup where
  newSeg : ℤ
  limit : ℕ
  now : ℕ

/-- The variables of `zftc_seek()`. -/
structure Trial where
  seeker : Seeker
  oldSeg : ℤ
  trials : ℕ

end Estimates

end Ftape.Compressor
