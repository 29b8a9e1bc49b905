import Ftape.Algebra.ByteOrder
import Ftape.Header.Decode
import Ftape.Zftape.Basic

/-!
# The volume table segment

The first data segment holds the volume table, an entry of 128 bytes for each volume. The driver
keeps the entries in a list between two dummy entries, and remembers where in the segment each of
them came from.
-/

namespace Ftape.Volume

open Ftape.Algebra Ftape.Bsm Ftape.Zftape

/-- `VTBL_SIZE`. -/
def vtblSize : ℕ := 128

/-- `VTBL_SIG`, `VTBL_START`, `VTBL_END` and `VTBL_DESC`. -/
def vtblSig : ℕ := 0
def vtblStart : ℕ := 4
def vtblEnd : ℕ := 6
def vtblDesc : ℕ := 8

/-- `VTBL_DESC_LEN`. -/
def vtblDescLen : ℕ := 44

/-- `VTBL_FLAGS`, `VTBL_M_NO` and `VTBL_EXT`. -/
def vtblFlags : ℕ := 56
def vtblMNo : ℕ := 57
def vtblExt : ℕ := 58

/-- `EXT_ZFT_SIG`, `EXT_ZFT_BLKSZ`, `EXT_ZFT_CMAP` and `EXT_ZFT_QIC113`. -/
def extZftSig : ℕ := 0
def extZftBlksz : ℕ := 10
def extZftCmap : ℕ := 12
def extZftQic113 : ℕ := 13

/-- `VTBL_DATA_SIZE`, `VTBL_CMPR` and `VTBL_K_CMPR`. -/
def vtblDataSize : ℕ := 96
def vtblCmpr : ℕ := 124
def vtblKCmpr : ℕ := 120

/-- `VTBL_CMPR_UNREG` and `VTBL_CMPR_USED`. -/
def vtblCmprUnreg : Byte := 0x3f
def vtblCmprUsed : Byte := 0x80

/-- `VTBL_6_SEGS`, `VTBL_6_MAJOR`, `VTBL_6_MINOR` and `VTBL_6_EXT`. -/
def vtbl6Segs : ℕ := 4
def vtbl6Major : ℕ := 58
def vtbl6Minor : ℕ := 60
def vtbl6Ext : ℕ := 62

/-- `EXT_6_ZFT_SIG`, `EXT_6_ZFT_SIGV` and `EXT_6_ZFT_BLKSZ`. -/
def ext6ZftSig : ℕ := 0
def ext6ZftSigv : ℕ := 3
def ext6ZftBlksz : ℕ := 4

/-- `VTBL_6_START` and `VTBL_6_END`. -/
def vtbl6Start : ℕ := 76
def vtbl6End : ℕ := 80

/-- `ZFT_MAX_BLK_SZ`. -/
def zftMaxBlkSz : ℕ := 62 * 1024

/-- The bytes of a text. -/
def ascii (text : List Char) : List Byte := text.map fun c => BitVec.ofNat 8 c.toNat

/-- `VTBL_ID`, and the other ids an entry may have. -/
def vtblId : List Byte := ascii ['V', 'T', 'B', 'L']
def xtblId : List Byte := ascii ['X', 'T', 'B', 'L']
def utidId : List Byte := ascii ['U', 'T', 'I', 'D']
def exvtId : List Byte := ascii ['E', 'X', 'V', 'T']

/-- `ZFT_SIG`, as far as `strlen()` counts it. -/
def zftSigText : List Byte := ascii ['L', 'I', 'N', 'U', 'X', ' ', 'Z', 'F', 'T']

/-- The `ZFT_SIGLEN` bytes of `ZFT_SIG`. -/
def zftSig : List Byte := zftSigText ++ [0]

/-- The `ZFT_SIGLEN2` bytes of `ZFT_SIG2`. -/
def zftSig2 : List Byte := ascii ['Z', 'F', 'T']

/-- `ZFT_VOL_NAME`. -/
def zftVolName : List Byte := ascii ['z', 'f', 't', 'a', 'p', 'e', ' ', 'v', 'o', 'l', 'u', 'm', 'e']

/-- What stands in front of the block size in an old label. -/
def blocksizeText : List Byte := ascii [' ', 'b', 'l', 'o', 'c', 'k', 's', 'i', 'z', 'e', ' ']

/-- `memcmp()` finds a text at an address. -/
def hasText (buffer : ℕ → Byte) (address : ℕ) (text : List Byte) : Bool :=
  window buffer address text.length = text

/-- A text is there if each of its bytes is. -/
theorem hasText_congr {buffer buffer' : ℕ → Byte} {address : ℕ} {text : List Byte}
    (h : ∀ i, i < text.length → buffer (address + i) = buffer' (address + i)) :
    hasText buffer address text = hasText buffer' address text := by
  rw [hasText, hasText, window_congr h]

/-- `strstr()`: the first place of a text in front of the end of the string. A string has at most
`rounds` bytes. -/
def strstr (buffer : ℕ → Byte) (text : List Byte) : ℕ → ℕ → Option ℕ
  | 0, _ => none
  | rounds + 1, address =>
    if hasText buffer address text then some address
    else if buffer address = 0 then none
    else strstr buffer text rounds (address + 1)

/-- The loop of `check_volume_label()` over the digits of the block size. -/
def blocksizeLoop (buffer : ℕ → Byte) : ℕ → ℕ → ℤ → ℤ
  | 0, _, blkSz => blkSz
  | rounds + 1, address, blkSz =>
    let digit := (buffer address).toNat
    if 48 ≤ digit ∧ digit ≤ 57 then
      blocksizeLoop buffer rounds (address + 1)
        (Header.int (Header.int (blkSz * 10) + (digit - 48 : ℕ)))
    else blkSz

/-- `check_volume_label()`: whether the format is valid, and the block size. -/
def checkVolumeLabel (buffer : ℕ → Byte) (label : ℕ) : Bool × ℤ :=
  if hasText buffer label zftVolName then
    match strstr buffer blocksizeText ftSegmentSize label with
    | some blocksize =>
      let blkSz := blocksizeLoop buffer ftSegmentSize (blocksize + blocksizeText.length) 0
      if zftMaxBlkSz < blkSz then (false, 1) else (true, blkSz)
    | none => (false, 1024)
  else (false, 1024)

/-- `zft_volinfo`, less the links of the list. -/
structure VtblEntry extends Volinfo where
  count : ℕ
  version : ℕ
  offset : ℕ
  zftVolume : Bool
  useCompression : Bool
  qic113 : Bool
  newVolume : Bool

/-- A `zft_volinfo` as `ftape_kmalloc()` hands it out. -/
def VtblEntry.blank : VtblEntry := ⟨⟨0, 0, 0, 0, 0, false⟩, 0, 0, 0, false, false, false, false⟩

/-- What the volume table routines take from the rest of the driver. `calcTapePos` is
`zft_calc_tape_pos()`, `segSz` is `zft_get_seg_sz()`, `vtblSz` is `vtbl_size`. -/
structure Cartridge where
  bigEndian : Bool
  formatCode : FormatCode
  firstDataSegment : ℕ
  lastDataSegment : ℕ
  capacity : ℤ
  blkSz : ℕ
  vtblSz : ℕ
  calcTapePos : ℤ → ℤ
  segSz : ℕ → ℕ

/-- The formats whose volume tables conform to QIC-113. -/
def isQic113 (formatCode : FormatCode) : Bool :=
  formatCode ≠ .fmtNormal ∧ formatCode ≠ .fmt1100ft ∧ formatCode ≠ .fmt425ft

/-- `qic113` of the device, as `zft_read_header_segments()` sets it. -/
def Cartridge.qic113 (cartridge : Cartridge) : Bool := isQic113 cartridge.formatCode

/-- The list of volumes with the flags that were set on reading it. The dummy entry in front of the
volumes never changes, the one behind them is `eom`. -/
structure Vtbl where
  volumes : List VtblEntry
  eom : VtblEntry
  exvtExtension : Bool
  vtblBroken : Bool

/-- `zft_init_vtbl()`. -/
def zftInitVtbl (cartridge : Cartridge) : Vtbl where
  volumes := []
  eom := { VtblEntry.blank with
    startSeg := cartridge.firstDataSegment + 1
    endSeg := cartridge.lastDataSegment + 1
    blkSz := cartridge.blkSz }
  exvtExtension := false
  vtblBroken := false

/-- `end_seg` of `zft_last_vtbl`, that of `zft_head_vtbl` in an empty table. -/
def Vtbl.lastEndSeg (table : Vtbl) (cartridge : Cartridge) : ℕ :=
  match table.volumes.getLast? with
  | some volume => volume.endSeg
  | none => cartridge.firstDataSegment

/-- `offset` of `zft_last_vtbl` plus `VTBL_SIZE`. That of `zft_head_vtbl` is `-128`. -/
def Vtbl.nextOffset (table : Vtbl) : ℕ :=
  match table.volumes.getLast? with
  | some volume => volume.offset + vtblSize
  | none => 0

/-- `zft_first_vtbl`. -/
def Vtbl.first (table : Vtbl) : VtblEntry := table.volumes.headD table.eom

/-- `zft_new_vtbl_entry()`, with what the caller fills into the new entry. -/
def Vtbl.newVtblEntry (table : Vtbl) (fill : VtblEntry → VtblEntry) : Vtbl :=
  { table with
    volumes := table.volumes ++ [fill { VtblEntry.blank with count := table.eom.count }]
    eom := { table.eom with count := table.eom.count + 1 } }

/-- `get_type_and_block_size()`. -/
def getTypeAndBlockSize (cartridge : Cartridge) (buffer : ℕ → Byte) (entry : ℕ)
    (volume : VtblEntry) : VtblEntry :=
  if hasText buffer (entry + (vtblExt + extZftSig)) zftSig then
    { volume with
      blkSz := fetch cartridge.bigEndian buffer (entry + (vtblExt + extZftBlksz)) 2
      qic113 := (buffer (entry + (vtblExt + extZftQic113))).getLsbD 0
      version := 1
      zftVolume := true }
  else if cartridge.formatCode = .fmtBig ∧ hasText buffer (entry + (vtbl6Ext + ext6ZftSig)) zftSig2 then
    { volume with
      version := (buffer (entry + (vtbl6Ext + ext6ZftSigv))).toNat
      blkSz := fetch cartridge.bigEndian buffer (entry + (vtbl6Ext + ext6ZftBlksz)) 2
      qic113 := true
      zftVolume := true }
  else
    let (validFormat, blkSz) := checkVolumeLabel buffer (entry + vtblDesc)
    { volume with version := 0, blkSz := (blkSz % 0x100000000).toNat, zftVolume := validFormat }

/-- `extract_segment_range()`. -/
def extractSegmentRange (cartridge : Cartridge) (buffer : ℕ → Byte) (entry eomStart : ℕ)
    (volume : VtblEntry) : VtblEntry :=
  if cartridge.formatCode = .fmtBig then
    if volume.zftVolume ∧ volume.version = 1 then
      let numSegments := fetch cartridge.bigEndian buffer (entry + vtbl6Segs) 4
      { volume with
        startSeg := eomStart
        endSeg := Header.uint (eomStart + numSegments + 0xffffffff) }
    else
      { volume with
        startSeg := fetch cartridge.bigEndian buffer (entry + vtbl6Start) 4
        endSeg := fetch cartridge.bigEndian buffer (entry + vtbl6End) 4 }
  else
    { volume with
      startSeg := fetch cartridge.bigEndian buffer (entry + vtblStart) 2
      endSeg := fetch cartridge.bigEndian buffer (entry + vtblEnd) 2 }

/-- The tape space between the first and the last segment of a volume. -/
def Cartridge.rawsize (cartridge : Cartridge) (startSeg endSeg : ℕ) : ℤ :=
  cartridge.calcTapePos (Header.int (Header.uint (endSeg + 1))) - cartridge.calcTapePos (Header.int startSeg)

/-- `extract_alien_volume()`. -/
def extractAlienVolume (cartridge : Cartridge) (volume : VtblEntry) : VtblEntry :=
  { volume with
    rawsize := cartridge.rawsize volume.startSeg volume.endSeg
    size := cartridge.rawsize volume.startSeg volume.endSeg
    useCompression := false
    qic113 := cartridge.qic113 }

/-- A byte has some of the bits of a mask. -/
def hasBits (byte mask : Byte) : Bool := byte &&& mask ≠ 0

/-- `extract_zft_volume()`. -/
def extractZftVolume (cartridge : Cartridge) (buffer : ℕ → Byte) (entry : ℕ)
    (volume : VtblEntry) : VtblEntry :=
  { volume with
    size :=
      if volume.qic113 then
        (fetch cartridge.bigEndian buffer (entry + vtblDataSize) 8 : ℤ).bmod (2 ^ 64)
      else fetch cartridge.bigEndian buffer (entry + vtblDataSize) 4
    useCompression :=
      if volume.qic113 then hasBits (buffer (entry + vtblCmpr)) vtblCmprUsed
      else if hasBits (buffer (entry + vtblKCmpr)) vtblCmprUnreg then
        hasBits (buffer (entry + vtblKCmpr)) vtblCmprUsed
      else if hasBits (buffer (entry + vtblCmpr)) vtblCmprUnreg then
        hasBits (buffer (entry + vtblCmpr)) vtblCmprUsed
      else volume.useCompression
    rawsize := cartridge.rawsize volume.startSeg volume.endSeg }

/-- The part of the loop of `zft_extract_volume_headers()` that fills in a new entry, given
`start_seg` of `zft_eom_vtbl`. -/
def extractEntry (cartridge : Cartridge) (buffer : ℕ → Byte) (entry eomStart : ℕ)
    (volume : VtblEntry) : VtblEntry :=
  let volume := getTypeAndBlockSize cartridge buffer entry volume
  let volume := extractSegmentRange cartridge buffer entry eomStart volume
  let volume := if volume.zftVolume then extractZftVolume cartridge buffer entry volume
    else extractAlienVolume cartridge volume
  { volume with offset := entry }

/-- The type and the block size leave the number alone. -/
@[simp] theorem getTypeAndBlockSize_count (cartridge : Cartridge) (buffer : ℕ → Byte) (entry : ℕ)
    (volume : VtblEntry) :
    (getTypeAndBlockSize cartridge buffer entry volume).count = volume.count := by
  rw [getTypeAndBlockSize]
  split_ifs <;> rfl

/-- The segments leave the number alone. -/
@[simp] theorem extractSegmentRange_count (cartridge : Cartridge) (buffer : ℕ → Byte)
    (entry eomStart : ℕ) (volume : VtblEntry) :
    (extractSegmentRange cartridge buffer entry eomStart volume).count = volume.count := by
  rw [extractSegmentRange]
  split_ifs <;> rfl

/-- The size leaves the number alone. -/
@[simp] theorem extractZftVolume_count (cartridge : Cartridge) (buffer : ℕ → Byte) (entry : ℕ)
    (volume : VtblEntry) : (extractZftVolume cartridge buffer entry volume).count = volume.count := rfl

/-- The type and the block size do not make a volume a new one. -/
@[simp] theorem getTypeAndBlockSize_newVolume (cartridge : Cartridge) (buffer : ℕ → Byte) (entry : ℕ)
    (volume : VtblEntry) :
    (getTypeAndBlockSize cartridge buffer entry volume).newVolume = volume.newVolume := by
  rw [getTypeAndBlockSize]
  split_ifs <;> rfl

/-- The segments do not make a volume a new one. -/
@[simp] theorem extractSegmentRange_newVolume (cartridge : Cartridge) (buffer : ℕ → Byte)
    (entry eomStart : ℕ) (volume : VtblEntry) :
    (extractSegmentRange cartridge buffer entry eomStart volume).newVolume = volume.newVolume := by
  rw [extractSegmentRange]
  split_ifs <;> rfl

/-- The size does not make a volume a new one. -/
@[simp] theorem extractZftVolume_newVolume (cartridge : Cartridge) (buffer : ℕ → Byte) (entry : ℕ)
    (volume : VtblEntry) :
    (extractZftVolume cartridge buffer entry volume).newVolume = volume.newVolume := rfl

/-- A volume that was read is no new one. -/
@[simp] theorem extractEntry_newVolume (cartridge : Cartridge) (buffer : ℕ → Byte) (entry eomStart : ℕ)
    (volume : VtblEntry) :
    (extractEntry cartridge buffer entry eomStart volume).newVolume = volume.newVolume := by
  simp only [extractEntry, extractAlienVolume]
  split <;> simp

/-- The number of a volume is given when its entry is made. -/
@[simp] theorem extractEntry_count (cartridge : Cartridge) (buffer : ℕ → Byte) (entry eomStart : ℕ)
    (volume : VtblEntry) :
    (extractEntry cartridge buffer entry eomStart volume).count = volume.count := by
  simp only [extractEntry, extractAlienVolume]
  split <;> simp

/-- The part of the loop of `zft_extract_volume_headers()` for a volume, with its sanity check. -/
def extractVolume (cartridge : Cartridge) (buffer : ℕ → Byte) (entry : ℕ) (table : Vtbl) : Vtbl :=
  let volume := extractEntry cartridge buffer entry table.eom.startSeg
    { VtblEntry.blank with count := table.eom.count }
  { table with
    volumes := table.volumes ++ [volume]
    eom := { table.eom with
      count := table.eom.count + 1
      startSeg := Header.uint (volume.endSeg + 1) }
    vtblBroken := table.vtblBroken ||
      decide (volume.startSeg ≤ table.lastEndSeg cartridge ∨
        volume.startSeg ≤ cartridge.firstDataSegment ∨ table.eom.endSeg ≤ volume.endSeg) }

/-- The loop of `zft_extract_volume_headers()`, for the entries that are left. -/
def extractLoop (cartridge : Cartridge) (buffer : ℕ → Byte) : ℕ → ℕ → Vtbl → Vtbl
  | 0, _, table => table
  | rounds + 1, entry, table =>
    if hasText buffer (entry + vtblSig) exvtId then { table with exvtExtension := true }
    else if hasText buffer (entry + vtblSig) xtblId || hasText buffer (entry + vtblSig) utidId then
      extractLoop cartridge buffer rounds (entry + vtblSize) table
    else if hasText buffer (entry + vtblSig) vtblId then
      extractLoop cartridge buffer rounds (entry + vtblSize) (extractVolume cartridge buffer entry table)
    else table

/-- The first entry of the volume table is the volume of a compression map, for
`zft_extract_volume_headers()`. -/
def hasCmap (buffer : ℕ → Byte) : Bool :=
  hasText buffer (vtblExt + extZftSig) zftSigText && buffer (vtblExt + extZftCmap) != 0

/-- The first entry `zft_extract_volume_headers()` looks at. -/
def firstEntry (buffer : ℕ → Byte) : ℕ := if hasCmap buffer then vtblSize else 0

/-- `zft_extract_volume_headers()`. -/
def zftExtractVolumeHeaders (cartridge : Cartridge) (buffer : ℕ → Byte) : Vtbl :=
  extractLoop cartridge buffer ((ftSegmentSize - firstEntry buffer) / vtblSize) (firstEntry buffer)
    (zftInitVtbl cartridge)

end Ftape.Volume
