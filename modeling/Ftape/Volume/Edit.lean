import Ftape.Algebra.Writes
import Ftape.Volume.Entries
import Mathlib.Data.Nat.Digits.Lemmas

/-!
# Editing the volume table

Volumes are appended behind the last one, or behind an empty table when the tape is at its logical
beginning. The table goes back into the segment it was read from: only the entries of new volumes
are written, what follows the last volume is cleared.
-/

namespace Ftape.Volume

open Ftape.Algebra Ftape.Bsm Ftape.Write Ftape.Zftape

/-- The label of a new volume, `ZFT_VOL_NAME" %03d"`. -/
def volumeLabel (count : ℕ) : List Byte :=
  zftVolName ++ ascii [' '] ++
    (List.leftpad 3 0 (Nat.digits 10 count).reverse).map fun digit => BitVec.ofNat 8 (48 + digit)

/-- The flags of a new volume, `VTBL_FL_NOT_VERIFIED` and `VTBL_FL_SEG_SPANNING`. -/
def newVolumeFlags : Byte := 0x14

/-- The compression byte of a new volume. -/
def cmprByte (vtbl : VtblEntry) : Byte :=
  if vtbl.useCompression then vtblCmprUnreg ||| vtblCmprUsed else vtblCmprUnreg

/-- The part of `create_zft_volume()` that every volume has in common. -/
def createLabel (entry : ℕ) (vtbl : VtblEntry) : List (Put Byte) :=
  let label := volumeLabel vtbl.count
  [putFill entry 0 vtblSize, putCells (entry + vtblSig) vtblId,
    putCells (entry + vtblDesc) (label ++ [0]),
    putFill (entry + (vtblDesc + label.length)) 0x20 (vtblDescLen - label.length),
    putCells (entry + vtblFlags) [newVolumeFlags], putCells (entry + vtblMNo) [1]]

/-- The part of `create_zft_volume()` that writes the vendor extension. -/
def createExtension (cartridge : Cartridge) (entry : ℕ) (vtbl : VtblEntry) : List (Put Byte) :=
  if cartridge.formatCode = .fmtBig then
    [putCells (entry + (vtbl6Ext + ext6ZftSig)) zftSig2, putCells (entry + (vtbl6Ext + ext6ZftSigv)) [2],
      putNumber cartridge.bigEndian (entry + (vtbl6Ext + ext6ZftBlksz)) 2 vtbl.blkSz]
  else
    [putCells (entry + (vtblExt + extZftSig)) zftSig,
      putNumber cartridge.bigEndian (entry + (vtblExt + extZftBlksz)) 2 vtbl.blkSz]

/-- The part of `create_zft_volume()` that writes the size. -/
def createSize (cartridge : Cartridge) (entry : ℕ) (vtbl : VtblEntry) : List (Put Byte) :=
  let size := (vtbl.size % 2 ^ 64).toNat
  if cartridge.qic113 then
    [putNumber cartridge.bigEndian (entry + vtblDataSize) 8 size, putCells (entry + vtblCmpr) [cmprByte vtbl]] ++
      if cartridge.formatCode = .fmtBig then [] else [putCells (entry + (vtblExt + extZftQic113)) [1]]
  else
    [putNumber cartridge.bigEndian (entry + vtblDataSize) 4 size, putCells (entry + vtblKCmpr) [cmprByte vtbl]]

/-- The part of `create_zft_volume()` that writes the segments. -/
def createRange (cartridge : Cartridge) (entry : ℕ) (vtbl : VtblEntry) : List (Put Byte) :=
  if cartridge.formatCode = .fmtBig then
    [putNumber cartridge.bigEndian (entry + vtbl6Major) 2 113, putNumber cartridge.bigEndian (entry + vtbl6Minor) 2 7,
      putNumber cartridge.bigEndian (entry + vtbl6Segs) 4 (Header.uint (vtbl.endSeg + 0x100000000 - vtbl.startSeg + 1)),
      putNumber cartridge.bigEndian (entry + vtbl6Start) 4 vtbl.startSeg,
      putNumber cartridge.bigEndian (entry + vtbl6End) 4 vtbl.endSeg]
  else
    [putNumber cartridge.bigEndian (entry + vtblStart) 2 vtbl.startSeg,
      putNumber cartridge.bigEndian (entry + vtblEnd) 2 vtbl.endSeg]

/-- `create_zft_volume()`. -/
def createZftVolume (cartridge : Cartridge) (entry : ℕ) (vtbl : VtblEntry) : List (Put Byte) :=
  createLabel entry vtbl ++ createExtension cartridge entry vtbl ++ createSize cartridge entry vtbl ++
    createRange cartridge entry vtbl

/-- The part of the loop of `zft_create_volume_headers()` that corrects an offset. -/
def VtblEntry.corrected (vtbl : VtblEntry) : VtblEntry :=
  if ftSegmentSize ≤ vtbl.offset then { vtbl with offset := ftSegmentSize - vtblSize } else vtbl

/-- The part of the loop of `zft_create_volume_headers()` that fills in a volume. -/
def createEntry (cartridge : Cartridge) (vtbl : VtblEntry) : List (Put Byte) :=
  if vtbl.newVolume then createZftVolume cartridge vtbl.corrected.offset vtbl.corrected else []

/-- The volume of a compression map is in front, for `zft_create_volume_headers()`. -/
def hasCmapVolume (buffer : ℕ → Byte) : Bool :=
  hasText buffer (vtblExt + extZftSig) zftSig && buffer (vtblExt + extZftCmap) != 0

/-- The `memmove()` that deletes the volume of a compression map. -/
def deleteCmap (buffer : ℕ → Byte) : List (Put Byte) :=
  if hasCmapVolume buffer then [⟨0, ftSegmentSize - vtblSize, fun i => buffer (i + vtblSize)⟩] else []

/-- What `zft_create_volume_headers()` writes, to a buffer at address 0. -/
def createPuts (cartridge : Cartridge) (table : Vtbl) (buffer : ℕ → Byte) : List (Put Byte) :=
  let last := (table.volumes.getLast?.map fun vtbl => vtbl.corrected.offset).getD 0
  deleteCmap buffer ++ table.volumes.flatMap (createEntry cartridge) ++
    [putFill (last + vtblSize) 0 (ftSegmentSize - table.eom.count * vtblSize)]

/-- What `zft_create_volume_headers()` changes in the list. -/
def VtblEntry.written (vtbl : VtblEntry) : VtblEntry := { vtbl.corrected with newVolume := false }

/-- `zft_create_volume_headers()`. -/
def zftCreateVolumeHeaders (cartridge : Cartridge) (table : Vtbl) (buffer : ℕ → Byte) :
    Vtbl × (ℕ → Byte) :=
  ({ table with volumes := table.volumes.map VtblEntry.written },
    runPuts (createPuts cartridge table buffer) buffer)

/-- `ZFT_MAX_VOLUMES`. -/
def Cartridge.zftMaxVolumes (cartridge : Cartridge) : ℕ := cartridge.vtblSz / vtblSize

/-- `zft_tape_at_lbot()` of a device whose volume table is read. -/
def Vtbl.zftTapeAtLbot (table : Vtbl) (pos : Position) : Bool :=
  pos.segPos ≤ table.first.startSeg ∧ pos.volumePos = 0

/-- What `zft_open_volume()` fills into a new entry. -/
def Vtbl.fillOpened (cartridge : Cartridge) (table : Vtbl) (pos : Position) (blkSz : ℕ)
    (vtbl : VtblEntry) : VtblEntry :=
  { vtbl with
    startSeg := pos.segPos
    endSeg := cartridge.lastDataSegment
    blkSz := blkSz
    size := cartridge.capacity
    zftVolume := true
    useCompression := false
    qic113 := cartridge.qic113
    offset := table.nextOffset
    version := if cartridge.qic113 then 2 else 0
    newVolume := true
    isOpen := true }

/-- What `zft_weof()` fills into a new entry. -/
def Vtbl.fillMark (cartridge : Cartridge) (table : Vtbl) (pos : Position) (vtbl : VtblEntry) : VtblEntry :=
  { vtbl with
    startSeg := pos.segPos
    endSeg := pos.segPos
    size := 0
    blkSz := cartridge.blkSz
    zftVolume := true
    useCompression := false
    qic113 := cartridge.qic113
    offset := table.nextOffset
    version := if cartridge.qic113 then 2 else 0
    newVolume := true }

/-- The part of `zft_open_volume()` behind the test for the logical beginning of the tape. -/
def Vtbl.appendVolume (cartridge : Cartridge) (table : Vtbl) (pos : Position) (blkSz : ℕ) :
    Vtbl × Except Errno Position :=
  if pos.segPos ≠ Header.uint (table.lastEndSeg cartridge + 1) then (table, .error .eio)
  else if cartridge.zftMaxVolumes ≤ table.eom.count then (table, .error .enospc)
  else if ftSegmentSize ≤ table.nextOffset then (table, .error .eio)
  else
    let table := table.newVtblEntry (table.fillOpened cartridge pos blkSz)
    ({ table with eom := { table.eom with startSeg := cartridge.lastDataSegment + 1 } },
      .ok { pos with volumePos := 0, segBytePos := 0 })

/-- `zft_open_volume()`. In an empty table `zft_reset_position()` finds the entry behind the
volumes. -/
def Vtbl.zftOpenVolume (cartridge : Cartridge) (table : Vtbl) (pos : Position) (blkSz : ℕ) :
    Vtbl × Except Errno Position :=
  if table.zftTapeAtLbot pos then
    let table := zftInitVtbl cartridge
    let segPos := table.first.startSeg
    table.appendVolume cartridge ⟨segPos, 0, 0, cartridge.calcTapePos (Header.int segPos)⟩ blkSz
  else table.appendVolume cartridge pos blkSz

/-- Change the last volume. -/
def Vtbl.modifyLast (table : Vtbl) (f : VtblEntry → VtblEntry) : Vtbl :=
  { table with volumes := table.volumes.modify (table.volumes.length - 1) f }

/-- The volume in progress of being written. -/
def Vtbl.openVolume (table : Vtbl) : Option VtblEntry := table.volumes.getLast?.filter (·.isOpen)

/-- Where `zft_close_volume()` leaves the position, before the file mark. -/
def Cartridge.beforeMark (cartridge : Cartridge) (pos : Position) (startSeg : ℕ) : Position :=
  if pos.segBytePos = 0 ∧ pos.segPos ≠ startSeg then
    { pos with
      segPos := Header.uint (pos.segPos + 0xffffffff)
      segBytePos := cartridge.segSz (Header.uint (pos.segPos + 0xffffffff)) }
  else pos

/-- What `zft_close_volume()` makes of the last volume. -/
def VtblEntry.closedAt (cartridge : Cartridge) (pos : Position) (vtbl : VtblEntry) : VtblEntry :=
  { vtbl with
    endSeg := pos.segPos
    size := pos.volumePos
    rawsize := cartridge.rawsize vtbl.startSeg pos.segPos
    isOpen := false }

/-- `zft_close_volume()`. -/
def Vtbl.zftCloseVolume (cartridge : Cartridge) (table : Vtbl) (pos : Position) :
    Vtbl × Except Errno Position :=
  match table.openVolume with
  | none => (table, .error .eio)
  | some vtbl =>
    let pos := cartridge.beforeMark pos vtbl.startSeg
    let table := table.modifyLast (VtblEntry.closedAt cartridge pos)
    ({ table with eom := { table.eom with startSeg := Header.uint (pos.segPos + 1) } }, .ok pos)

/-- `zft_move_past_eof()`. -/
def Cartridge.zftMovePastEof (cartridge : Cartridge) (pos : Position) : Position :=
  ⟨Header.uint (pos.segPos + 1), 0, 0, pos.tapePos + (cartridge.segSz pos.segPos - pos.segBytePos)⟩

/-- The loop of `zft_weof()`, with the file marks that could not be written. -/
def Vtbl.weofLoop (cartridge : Cartridge) : ℕ → Vtbl → Position → Vtbl × Position × ℕ
  | 0, table, pos => (table, pos, 0)
  | count + 1, table, pos =>
    if pos.segPos ≤ cartridge.lastDataSegment ∧ table.eom.count < cartridge.zftMaxVolumes ∧
        table.nextOffset < ftSegmentSize then
      let table := table.newVtblEntry (table.fillMark cartridge pos)
      Vtbl.weofLoop cartridge count
        { table with eom := { table.eom with startSeg := pos.segPos + 1 } }
        { pos with segPos := pos.segPos + 1, tapePos := pos.tapePos + cartridge.segSz pos.segPos }
    else (table, pos, count + 1)

/-- The part of `zft_weof()` that finishes the volume in progress. -/
def Vtbl.weofClose (cartridge : Cartridge) (table : Vtbl) (pos : Position) (count : ℕ) :
    Vtbl × Position × ℕ :=
  match table.zftCloseVolume cartridge pos with
  | (table, .ok pos) => (table, cartridge.zftMovePastEof pos, count - 1)
  | (table, .error _) => (table, pos, count)

/-- `zft_weof()`, with the file marks that could not be written. -/
def Vtbl.zftWeof (cartridge : Cartridge) (table : Vtbl) (count : ℕ) (pos : Position) :
    Vtbl × Position × ℕ :=
  if count = 0 then (table, pos, 0)
  else
    let table := if table.zftTapeAtLbot pos then zftInitVtbl cartridge else table
    let (table, pos, count) := table.weofClose cartridge pos count
    Vtbl.weofLoop cartridge count table pos

/-- The list of volumes and `vtbl_buf`. -/
structure Device where
  table : Vtbl
  buffer : ℕ → Byte

/-- What changes the volume table. `update` is `zft_update_volume_table()`. -/
inductive Operation where
  | openVolume (pos : Position) (blkSz : ℕ)
  | closeVolume (pos : Position)
  | weof (count : ℕ) (pos : Position)
  | erase
  | update

/-- `zft_update_volume_table()`, without writing the buffer to tape. -/
def Device.update (cartridge : Cartridge) (device : Device) : Device :=
  let (table, buffer) := zftCreateVolumeHeaders cartridge device.table device.buffer
  ⟨table, buffer⟩

/-- What an operation makes of the list and the buffer. `zft_erase()` updates the header segments
with an empty list. -/
def Device.exec (cartridge : Cartridge) (device : Device) : Operation → Device
  | .openVolume pos blkSz => { device with table := (device.table.zftOpenVolume cartridge pos blkSz).1 }
  | .closeVolume pos => { device with table := (device.table.zftCloseVolume cartridge pos).1 }
  | .weof count pos => { device with table := (device.table.zftWeof cartridge count pos).1 }
  | .erase => Device.update cartridge { device with table := zftInitVtbl cartridge }
  | .update => device.update cartridge

/-- `zft_read_volume_table()`. -/
def zftReadVolumeTable (cartridge : Cartridge) (buffer : ℕ → Byte) : Device :=
  ⟨zftExtractVolumeHeaders cartridge buffer, buffer⟩

end Ftape.Volume
