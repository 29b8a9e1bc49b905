import Ftape.Bsm.SectorList
import Ftape.Algebra.LaneWord

/-!
# Bad sector lookups and updates

The driver keeps a pointer into the header segment it was given and answers lookups from a
cached last segment, its map and a list pointer. This file transcribes those routines. List
pointers are counted in entries from `bad_sector_map`, and an access outside the header buffer
or through a null pointer gives no result.
-/

namespace Ftape.Bsm

open Ftape.Algebra

/-- `FT_HEADER_END`, where the list of the variable and big formats begins. -/
def ftHeaderEnd : ℕ := 256

/-- `FT_FSL`, the start of the failed sector log. -/
def ftFsl : ℕ := 256

/-- `FT_FSL_SIZE`. -/
def ftFslSize : ℕ := 2 * ftSectorSize - ftHeaderEnd

/-- The fields of `ftape_info_t` that bad sector handling uses, with the header buffer that
`bad_sector_map` points into. -/
structure FtapeInfo where
  usedHeaderSegment : ℤ
  formatCode : FormatCode
  header : ℕ → Byte
  badSectorMap : Option ℕ
  bsmHashPtr : Option ℕ
  lastReference : ℤ
  map : SectorMap

/-- `get_sector()` of the entry at a list pointer. -/
def getSector (header : ℕ → Byte) (base ptr : ℕ) : Option ℕ :=
  if base + 3 * ptr + 3 ≤ ftSegmentSize then
    some ((header (base + 3 * ptr)).toNat + (header (base + 3 * ptr + 1)).toNat * 0x100 +
      (header (base + 3 * ptr + 2)).toNat * 0x10000)
  else none

/-- `put_sector()`. -/
def putSector (header : ℕ → Byte) (base ptr sector : ℕ) : Option (ℕ → Byte) :=
  if base + 3 * ptr + 3 ≤ ftSegmentSize then
    some (Function.update (Function.update (Function.update header
      (base + 3 * ptr) (BitVec.ofNat 8 sector))
      (base + 3 * ptr + 1) (BitVec.ofNat 8 (sector / 0x100)))
      (base + 3 * ptr + 2) (BitVec.ofNat 8 (sector / 0x10000)))
  else none

/-- `memmove()` of list entries; source and destination may overlap. -/
def moveEntries (header : ℕ → Byte) (base dst src n : ℕ) : Option (ℕ → Byte) :=
  if base + 3 * (dst + n) ≤ ftSegmentSize ∧ base + 3 * (src + n) ≤ ftSegmentSize then
    some fun a =>
      if base + 3 * dst ≤ a ∧ a < base + 3 * (dst + n) then header (a - 3 * dst + 3 * src)
      else header a
  else none

/-- A `SectorMap` in memory. -/
def loadSectorMap (bigEndian : Bool) (header : ℕ → Byte) (a : ℕ) : Option SectorMap :=
  if a + 4 ≤ ftSegmentSize then
    some (ofLanes 32 (fun i => header (a + if bigEndian then 3 - i else i)) 4)
  else none

/-- Store a `SectorMap`. -/
def storeSectorMap (bigEndian : Bool) (header : ℕ → Byte) (a : ℕ) (map : SectorMap) :
    Option (ℕ → Byte) :=
  if a + 4 ≤ ftSegmentSize then
    some fun k =>
      if a ≤ k ∧ k < a + 4 then lane 8 map (if bigEndian then 3 - (k - a) else k - a)
      else header k
  else none

section Seek

variable (fmt : FormatCode) (header : ℕ → Byte) (base segmentId : ℕ)

/-- The first loop of `forward_seek_entry()`: the pointer and the value of the first entry that
is not before the segment. The list ends within the header, which bounds the rounds. -/
def forwardSkip : ℕ → ℕ → Option (ℕ × ℕ)
  | 0, _ => none
  | rounds + 1, ptr => do
    let sector ← getSector header base ptr
    if sector ≠ 0 ∧ cvt2segment sector < segmentId then forwardSkip rounds (ptr + 1)
    else some (ptr, sector)

/-- The second loop of `forward_seek_entry()`, which collects the rest of the segment. -/
def forwardCollect : ℕ → ℕ → SectorMap → ℕ → Option (SectorMap × ℕ)
  | 0, _, _, _ => none
  | rounds + 1, tmpPtr, map, count => do
    let sector ← getSector header base tmpPtr
    if sector ≠ 0 ∧ cvt2segment sector = segmentId then
      forwardCollect rounds (tmpPtr + 1) (map ||| cvt2map sector) (count + 1)
    else some (map, count)

/-- `forward_seek_entry()`: the new pointer, the map and the number of sectors found. -/
def forwardSeekEntry (ptr : ℕ) : Option (ℕ × SectorMap × ℕ) := do
  let (ptr, sector) ← forwardSkip header base segmentId ftSegmentSize ptr
  if sector = 0 ∨ cvt2segment sector ≠ segmentId then some (ptr, 0, 0)
  else if 0x800000 ≤ sector ∧ fmt.flagged then some (ptr, emptySegment, ftSectorsPerSegment)
  else do
    let (map, count) ← forwardCollect header base segmentId ftSegmentSize (ptr + 1) (cvt2map sector) 1
    some (ptr, map, count)

/-- The first loop of `backwards_seek_entry()`, entered with a pointer past the list start. -/
def backwardSkip : ℕ → Option (ℕ × ℕ)
  | 0 => none
  | ptr + 1 => do
    let sector ← getSector header base ptr
    if 0 < ptr ∧ segmentId < cvt2segment sector then backwardSkip ptr else some (ptr, sector)

/-- The second loop of `backwards_seek_entry()` and the adjustment for its overshoot. -/
def backwardCollect : ℕ → SectorMap → ℕ → Option (ℕ × SectorMap × ℕ)
  | 0, map, count => some (0, map, count)
  | ptr + 1, map, count => do
    let sector ← getSector header base ptr
    if cvt2segment sector ≠ segmentId then
      some (if cvt2segment sector < segmentId then ptr + 1 else ptr, map, count)
    else backwardCollect ptr (map ||| cvt2map sector) (count + 1)

/-- `backwards_seek_entry()`. -/
def backwardsSeekEntry (ptr : ℕ) : Option (ℕ × SectorMap × ℕ) :=
  if ptr = 0 then some (0, 0, 0)
  else do
    let (ptr, sector) ← backwardSkip header base segmentId ptr
    if segmentId < cvt2segment sector then some (ptr, 0, 0)
    else if cvt2segment sector < segmentId then some (ptr + 1, 0, 0)
    else if 0x800000 ≤ sector ∧ fmt.flagged then some (ptr, emptySegment, ftSectorsPerSegment)
    else backwardCollect header base segmentId ptr (cvt2map sector) 1

/-- The loop that looks for the terminator; the pointer returned is one past it. -/
def endOfList : ℕ → ℕ → Option ℕ
  | 0, _ => none
  | rounds + 1, hiPtr => do
    let sector ← getSector header base hiPtr
    if sector ≠ 0 then endOfList rounds (hiPtr + 1) else some (hiPtr + 1)

end Seek

/-- The loop that writes the marked sectors of a map. Shifting on after the mask is zero writes
nothing more, so the number of rounds is the width of the mask. -/
def putSectors (base segmentId : ℕ) : ℕ → ℕ → ℕ → SectorMap → (ℕ → Byte) → Option (ℕ → Byte)
  | 0, _, _, _, header => some header
  | rounds + 1, i, ptr, newMap, header =>
    if newMap.getLsbD 0 then do
      let header ← putSector header base ptr (1 + segmentId * ftSectorsPerSegment + i)
      putSectors base segmentId rounds (i + 1) (ptr + 1) (newMap >>> 1) header
    else putSectors base segmentId rounds (i + 1) ptr (newMap >>> 1) header

/-- The part of `ftape_put_bad_sector_entry()` that makes room for `new_count` entries where
`count` stand, moving the rest of the list with its terminator. -/
def resizeRun (header : ℕ → Byte) (base ptr count newCount : ℕ) : Option (ℕ → Byte) :=
  if count ≠ newCount then do
    let hiPtr ← endOfList header base ftSegmentSize ptr
    moveEntries header base (ptr + newCount) (ptr + count) (hiPtr - (ptr + count))
  else some header

/-- The part of `ftape_put_bad_sector_entry()` that writes the entries of the new map. -/
def writeRun (header : ℕ → Byte) (base ptr segmentId newCount : ℕ) (newMap : SectorMap) :
    Option (ℕ → Byte) :=
  if newCount = 1 ∧ newMap = emptySegment then
    putSector header base ptr (0x800001 + segmentId * ftSectorsPerSegment)
  else putSectors base segmentId 32 0 ptr newMap header

/-- `ftape_put_bad_sector_entry()`. -/
def ftapePutBadSectorEntry (bigEndian : Bool) (ftape : FtapeInfo) (segmentId : ℕ)
    (newMap : SectorMap) : Option FtapeInfo := do
  let base ← ftape.badSectorMap
  let fmt := ftape.formatCode
  -- the cached entry is replaced before anything is written
  let ftape := { ftape with lastReference := segmentId, map := newMap }
  if fmt.listed then do
    let (ptr, _, count) ← forwardSeekEntry fmt ftape.header base segmentId 0
    let newCount := countOnes newMap
    let newCount := if fmt.flagged ∧ newCount = ftSectorsPerSegment then 1 else newCount
    let count := if fmt.flagged ∧ count = ftSectorsPerSegment then 1 else count
    let header ← resizeRun ftape.header base ptr count newCount
    let header ← writeRun header base ptr segmentId newCount newMap
    some { ftape with header := header, bsmHashPtr := some ptr }
  else do
    let header ← storeSectorMap bigEndian ftape.header (base + 4 * segmentId) newMap
    some { ftape with header := header }

/-- The seek of `ftape_get_bad_sector_entry()`: forward, backwards or not at all. -/
def seekEntry (ftape : FtapeInfo) (base segmentId ptr : ℕ) : Option (ℕ × SectorMap × ℕ) :=
  if ftape.lastReference < segmentId then
    forwardSeekEntry ftape.formatCode ftape.header base segmentId ptr
  else if (segmentId : ℤ) < ftape.lastReference then
    backwardsSeekEntry ftape.formatCode ftape.header base segmentId ptr
  else some (ptr, ftape.map, 0)

/-- `ftape_get_bad_sector_entry()`. -/
def ftapeGetBadSectorEntry (bigEndian : Bool) (ftape : FtapeInfo) (segmentId : ℕ) :
    Option (SectorMap × FtapeInfo) :=
  -- a blank map while the header segment itself is read
  if ftape.usedHeaderSegment = -1 then some (0, ftape)
  else do
    let base ← ftape.badSectorMap
    match ftape.bsmHashPtr with
    | some ptr => do
      let (ptr, map, _) ← seekEntry ftape base segmentId ptr
      some (map, { ftape with bsmHashPtr := some ptr, map := map, lastReference := segmentId })
    | none => do
      let map ← loadSectorMap bigEndian ftape.header (base + 4 * segmentId)
      some (map, ftape)

/-- The offset of the bad sector map in the header segment. The formats without a flag keep a
failed sector log in front of it. -/
def bsmOffset (fmt : FormatCode) : ℕ := if fmt.flagged then ftHeaderEnd else ftFsl + ftFslSize

/-- `ftape_extract_bad_sector_map()`. It leaves the cached segment and its map alone. -/
def ftapeExtractBadSectorMap (ftape : FtapeInfo) (buffer : ℕ → Byte) : FtapeInfo :=
  { ftape with
    header := buffer
    badSectorMap := some (bsmOffset ftape.formatCode)
    bsmHashPtr := if ftape.formatCode.listed then some 0 else none }

/-- `ftape_init_bsm()`. -/
def ftapeInitBsm (ftape : FtapeInfo) : FtapeInfo :=
  { ftape with badSectorMap := none, bsmHashPtr := none, lastReference := -1, map := 0 }

end Ftape.Bsm
