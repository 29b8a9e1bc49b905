import Ftape.Volume.Bounds
import Ftape.Volume.Positioning

/-!
# Block sizes

The block size of a volume divides, in reading as in seeking. It comes from a vendor extension of the
volume table, from the label of an old volume, from the faked volumes of the tapes of old drivers, or
from the user. Only the user's block size is checked: a volume table may bring one that does not divide.
-/

namespace Ftape.Volume

open Ftape.Algebra Ftape.Bsm Ftape.Write Ftape.Zftape

/-- A block size that divides: 1, or a multiple of 1024 not above `ZFT_MAX_BLK_SZ`. -/
def UsableBlkSz (blkSz : ℕ) : Prop := blkSz = 1 ∨ 0 < blkSz ∧ 1024 ∣ blkSz ∧ blkSz ≤ zftMaxBlkSz

instance (blkSz : ℕ) : Decidable (UsableBlkSz blkSz) := inferInstanceAs (Decidable (_ ∨ _))

/-- Such a block size never stops a division. -/
theorem UsableBlkSz.divides {blkSz : ℕ} (h : UsableBlkSz blkSz) :
    blkSz ≠ 0 ∧ ∀ value, (zftDivBlksz value blkSz).result ≠ .error .divideError := by
  constructor
  · rintro rfl
    rcases h with hone | hpos
    · cases hone
    · exact Nat.lt_irrefl 0 hpos.1
  · intro value hstop
    rw [zftDivBlksz] at hstop
    split at hstop
    · cases hstop
    · rename_i hone
      obtain ⟨hpos, hdvd, -⟩ := h.resolve_left hone
      rw [if_neg (Nat.div_pos (Nat.le_of_dvd hpos hdvd) (by decide)).ne'] at hstop
      cases hstop

/-- A decimal digit. -/
def isDigit (byte : Byte) : Bool := 48 ≤ byte.toNat ∧ byte.toNat ≤ 57

/-- The decimal number that some bytes start with. -/
def decimalNumber (bytes : List Byte) (number : ℕ) : ℕ :=
  (bytes.takeWhile isDigit).foldl (fun number byte => number * 10 + (byte.toNat - 48)) number

/-- The loop over the digits computes the number, as far as an `int` holds it. -/
theorem blocksizeLoop_eq (buffer : ℕ → Byte) (rounds address number : ℕ) :
    blocksizeLoop buffer rounds address (Header.int number) =
      Header.int (decimalNumber (window buffer address rounds) number) := by
  induction rounds generalizing address number with
  | zero => simp [blocksizeLoop, decimalNumber]
  | succ rounds ih =>
    have hwindow : window buffer address (rounds + 1) = buffer address :: window buffer (address + 1) rounds := by
      rw [Nat.add_comm rounds 1, window_append]
      simp [window]
    rw [blocksizeLoop, hwindow]
    by_cases hdigit : 48 ≤ (buffer address).toNat ∧ (buffer address).toNat ≤ 57
    · have hstep : Header.int (Header.int (Header.int number * 10) + ((buffer address).toNat - 48 : ℕ)) =
          Header.int ((number * 10 + ((buffer address).toNat - 48) : ℕ) : ℤ) := by
        simp only [Header.int, Int.bmod_add_bmod, Int.bmod_mul_bmod]
        push_cast
        rfl
      have htake : decimalNumber (buffer address :: window buffer (address + 1) rounds) number =
          decimalNumber (window buffer (address + 1) rounds) (number * 10 + ((buffer address).toNat - 48)) := by
        have hhead : isDigit (buffer address) = true := decide_eq_true hdigit
        rw [decimalNumber, List.takeWhile_cons_of_pos hhead]
        rfl
      rw [if_pos hdigit, hstep, ih, htake]
    · have htake : decimalNumber (buffer address :: window buffer (address + 1) rounds) number = number := by
        rw [decimalNumber, List.takeWhile_cons_of_neg (by simpa [isDigit] using hdigit)]
        rfl
      rw [if_neg hdigit, htake]

/-- The number in an old label is a block size that divides, or is too large to be taken. -/
def UsableNumber (number : ℤ) : Prop := zftMaxBlkSz < number ∨ number = 1 ∨ 0 < number ∧ 1024 ∣ number

instance (number : ℤ) : Decidable (UsableNumber number) := inferInstanceAs (Decidable (_ ∨ _))

/-- The block size that stands in an entry of the volume table divides: that of the extension, or the
number behind the keyword in an old label. -/
def UsableEntry (cartridge : Cartridge) (buffer : ℕ → Byte) (entry : ℕ) : Prop :=
  if hasText buffer (entry + (vtblExt + extZftSig)) zftSig then
    UsableBlkSz (fetch cartridge.bigEndian buffer (entry + (vtblExt + extZftBlksz)) 2)
  else if cartridge.formatCode = .fmtBig ∧ hasText buffer (entry + (vtbl6Ext + ext6ZftSig)) zftSig2 then
    UsableBlkSz (fetch cartridge.bigEndian buffer (entry + (vtbl6Ext + ext6ZftBlksz)) 2)
  else
    hasText buffer (entry + vtblDesc) zftVolName →
      ∀ blocksize ∈ strstr buffer blocksizeText ftSegmentSize (entry + vtblDesc),
        UsableNumber (Header.int
          (decimalNumber (window buffer (blocksize + blocksizeText.length) ftSegmentSize) 0))

/-- A label leads to a block size that divides exactly if its number does. -/
theorem checkVolumeLabel_usable_iff (buffer : ℕ → Byte) (label : ℕ) :
    UsableBlkSz ((checkVolumeLabel buffer label).2 % 0x100000000).toNat ↔
      (hasText buffer label zftVolName → ∀ blocksize ∈ strstr buffer blocksizeText ftSegmentSize label,
        UsableNumber (Header.int
          (decimalNumber (window buffer (blocksize + blocksizeText.length) ftSegmentSize) 0))) := by
  rw [checkVolumeLabel]
  by_cases hname : hasText buffer label zftVolName = true
  · rw [if_pos hname, forall_prop_of_true hname]
    cases strstr buffer blocksizeText ftSegmentSize label with
    | none =>
      refine iff_of_true ?_ nofun
      dsimp only
      decide
    | some blocksize =>
      have hloop := blocksizeLoop_eq buffer ftSegmentSize (blocksize + blocksizeText.length) 0
      rw [show Header.int ((0 : ℕ) : ℤ) = 0 from rfl] at hloop
      simp only [Option.mem_def, Option.some.injEq, forall_eq']
      rw [hloop]
      generalize hnumber : Header.int
        (decimalNumber (window buffer (blocksize + blocksizeText.length) ftSegmentSize) 0) = number
      have hrange : -0x80000000 ≤ number ∧ number < 0x80000000 := by
        rw [← hnumber]
        exact ⟨Int.le_bmod (by decide), Int.bmod_lt (by decide)⟩
      by_cases hlarge : (zftMaxBlkSz : ℤ) < number
      · rw [if_pos hlarge]
        exact iff_of_true (by decide) (Or.inl hlarge)
      · rw [if_neg hlarge, UsableBlkSz, UsableNumber]
        rw [zftMaxBlkSz] at hlarge ⊢
        omega
  · rw [if_neg hname]
    exact iff_of_true (by decide) fun h => absurd h hname

/-- An entry leads to a block size that divides exactly if the one that stands there does. -/
theorem getTypeAndBlockSize_usable_iff (cartridge : Cartridge) (buffer : ℕ → Byte) (entry : ℕ)
    (volume : VtblEntry) :
    UsableBlkSz (getTypeAndBlockSize cartridge buffer entry volume).blkSz ↔
      UsableEntry cartridge buffer entry := by
  rw [getTypeAndBlockSize, UsableEntry]
  split
  · exact Iff.rfl
  · split
    · exact Iff.rfl
    · exact checkVolumeLabel_usable_iff buffer (entry + vtblDesc)

/-- What else is read leaves the block size alone. -/
theorem extractEntry_blkSz (cartridge : Cartridge) (buffer : ℕ → Byte) (entry eomStart : ℕ)
    (volume : VtblEntry) :
    (extractEntry cartridge buffer entry eomStart volume).blkSz =
      (getTypeAndBlockSize cartridge buffer entry volume).blkSz := by
  have hrange : ∀ volume : VtblEntry,
      (extractSegmentRange cartridge buffer entry eomStart volume).blkSz = volume.blkSz := by
    intro volume
    rw [extractSegmentRange]
    split_ifs <;> rfl
  rw [extractEntry]
  dsimp only
  split
  · exact hrange _
  · exact hrange _

/-- The entries `zft_extract_volume_headers()` makes volumes of. -/
def volumeEntries (buffer : ℕ → Byte) : ℕ → ℕ → List ℕ
  | 0, _ => []
  | rounds + 1, entry =>
    if hasText buffer (entry + vtblSig) exvtId then []
    else if hasText buffer (entry + vtblSig) xtblId || hasText buffer (entry + vtblSig) utidId then
      volumeEntries buffer rounds (entry + vtblSize)
    else if hasText buffer (entry + vtblSig) vtblId then
      entry :: volumeEntries buffer rounds (entry + vtblSize)
    else []

/-- The block size in each entry of a volume table segment divides. -/
def UsableTable (cartridge : Cartridge) (buffer : ℕ → Byte) : Prop :=
  ∀ entry ∈ volumeEntries buffer ((ftSegmentSize - firstEntry buffer) / vtblSize) (firstEntry buffer),
    UsableEntry cartridge buffer entry

/-- The block sizes of all volumes divide, and that of the entry behind them. -/
structure Vtbl.Usable (table : Vtbl) : Prop where
  volumes : ∀ volume ∈ table.volumes, UsableBlkSz volume.blkSz
  eom : UsableBlkSz table.eom.blkSz

/-- A table with one more volume. -/
theorem Vtbl.usable_append {table table' : Vtbl} {volume : VtblEntry}
    (hvolumes : table'.volumes = table.volumes ++ [volume]) (heom : table'.eom.blkSz = table.eom.blkSz) :
    table'.Usable ↔ table.Usable ∧ UsableBlkSz volume.blkSz := by
  constructor
  · intro h
    refine ⟨⟨fun v hv => h.volumes v ?_, by rw [← heom]; exact h.eom⟩, h.volumes volume ?_⟩
    · rw [hvolumes]
      exact List.mem_append_left _ hv
    · rw [hvolumes]
      exact List.mem_append_right _ List.mem_cons_self
  · rintro ⟨h, hvolume⟩
    refine ⟨fun v hv => ?_, by rw [heom]; exact h.eom⟩
    rw [hvolumes] at hv
    cases List.mem_append.mp hv with
    | inl hold => exact h.volumes v hold
    | inr hnew => rwa [List.mem_singleton.mp hnew]

/-- A table with the same block sizes. -/
theorem Vtbl.Usable.of_blkSz {table table' : Vtbl} (h : table.Usable)
    (hvolumes : table'.volumes.map (·.blkSz) = table.volumes.map (·.blkSz))
    (heom : table'.eom.blkSz = table.eom.blkSz) : table'.Usable where
  volumes := by
    intro volume hvolume
    have hmem : volume.blkSz ∈ table.volumes.map (·.blkSz) := by
      rw [← hvolumes]
      exact List.mem_map_of_mem hvolume
    obtain ⟨old, hold, heq⟩ := List.mem_map.mp hmem
    rw [← heq]
    exact h.volumes old hold
  eom := by
    rw [heom]
    exact h.eom

/-- Reading the entries keeps the block sizes usable exactly if those of the entries are. -/
theorem extractLoop_usable_iff (cartridge : Cartridge) (buffer : ℕ → Byte) (rounds entry : ℕ) (table : Vtbl) :
    (extractLoop cartridge buffer rounds entry table).Usable ↔
      table.Usable ∧ ∀ e ∈ volumeEntries buffer rounds entry, UsableEntry cartridge buffer e := by
  induction rounds generalizing entry table with
  | zero => exact (and_iff_left (List.forall_mem_nil _)).symm
  | succ rounds ih =>
    rw [extractLoop, volumeEntries]
    split
    · exact ⟨fun h => ⟨⟨h.volumes, h.eom⟩, List.forall_mem_nil _⟩, fun h => ⟨h.1.volumes, h.1.eom⟩⟩
    · split
      · exact ih _ _
      · split
        · have hvolume : (extractVolume cartridge buffer entry table).Usable ↔
              table.Usable ∧ UsableEntry cartridge buffer entry := by
            have happend : (extractVolume cartridge buffer entry table).volumes = table.volumes ++
                [extractEntry cartridge buffer entry table.eom.startSeg
                  { VtblEntry.blank with count := table.eom.count }] := rfl
            refine (Vtbl.usable_append happend rfl).trans ?_
            rw [extractEntry_blkSz, getTypeAndBlockSize_usable_iff]
          rw [ih, hvolume, List.forall_mem_cons, and_assoc]
        · exact (and_iff_left (List.forall_mem_nil _)).symm

/-- An empty table has the block size of the device. -/
theorem zftInitVtbl_usable {cartridge : Cartridge} (h : UsableBlkSz cartridge.blkSz) :
    (zftInitVtbl cartridge).Usable :=
  ⟨nofun, h⟩

/-- The volumes of a volume table segment have usable block sizes exactly if its entries have. -/
theorem zftExtractVolumeHeaders_usable_iff {cartridge : Cartridge} (h : UsableBlkSz cartridge.blkSz)
    (buffer : ℕ → Byte) :
    (zftExtractVolumeHeaders cartridge buffer).Usable ↔ UsableTable cartridge buffer := by
  rw [zftExtractVolumeHeaders, extractLoop_usable_iff, and_iff_right (zftInitVtbl_usable h)]
  exact Iff.rfl

/-- `CONFIG_ZFT_DFLT_BLK_SZ`. -/
def zftDfltBlkSz : ℕ := 10 * 1024

/-- The default block size divides. -/
theorem zftDfltBlkSz_usable : UsableBlkSz zftDfltBlkSz := Or.inr ⟨by decide, by decide, by decide⟩

/-- The fields of `zftape_info_t` that the block sizes pass through, with the volumes of the raw device.
`cartridge.blkSz` is `blk_sz`, the block size the user set. -/
structure Driver extends Device where
  cartridge : Cartridge
  rawImage : Bool
  tapeVtbl : Volinfo
  eotVtbl : Volinfo

/-- The part of `zft_init_vtbl()` for the volumes of the raw device. -/
def Driver.initRaw (driver : Driver) : Driver :=
  let cartridge := driver.cartridge
  { driver with
    eotVtbl := ⟨cartridge.lastDataSegment + 1, cartridge.lastDataSegment + 1, 0, 0, cartridge.blkSz, false⟩
    tapeVtbl := ⟨if driver.rawImage then 0 else cartridge.firstDataSegment, cartridge.lastDataSegment,
      cartridge.capacity, cartridge.capacity, cartridge.blkSz, false⟩ }

/-- `zft_init_vtbl()`. -/
def Driver.initVtbl (driver : Driver) : Driver :=
  { driver.initRaw with table := zftInitVtbl driver.cartridge }

/-- The loop of `zft_fake_volume_headers()`, for the segment and the sector of each file mark. -/
def fakeLoop (cartridge : Cartridge) : List (ℕ × ℕ) → Vtbl → Vtbl
  | [], table => table
  | (segment, sector) :: marks, table =>
    let startSeg := table.eom.startSeg
    let table := table.newVtblEntry fun volume => { volume with
      startSeg := startSeg
      endSeg := segment
      blkSz := 1
      size := cartridge.calcTapePos segment - cartridge.calcTapePos startSeg +
        Header.uint (Header.uint (sector + 0xffffffff) * ftSectorSize)
      rawsize := cartridge.rawsize startSeg segment }
    fakeLoop cartridge marks { table with eom := { table.eom with startSeg := segment + 1 } }

/-- The last file mark of an old tape stands for the end of the recorded media. -/
def haveEom (marks : List (ℕ × ℕ)) : Bool :=
  match marks.reverse with
  | last :: previous :: _ => last.1 = previous.1 + 1 ∧ last.2 = 1
  | _ => false

/-- `zft_fake_volume_headers()`. -/
def zftFakeVolumeHeaders (cartridge : Cartridge) (marks : List (ℕ × ℕ)) : Vtbl :=
  let table := zftInitVtbl cartridge
  let table := { table with eom := { table.eom with startSeg := cartridge.firstDataSegment } }
  if haveEom marks then fakeLoop cartridge marks.dropLast table
  else
    let table := fakeLoop cartridge marks table
    let startSeg := table.eom.startSeg
    let table := table.newVtblEntry fun volume => { volume with
      startSeg := startSeg
      endSeg := cartridge.lastDataSegment
      size := cartridge.capacity - cartridge.calcTapePos startSeg
      rawsize := cartridge.capacity - cartridge.calcTapePos startSeg
      blkSz := 1 }
    { table with eom := { table.eom with startSeg := cartridge.lastDataSegment + 1 } }

/-- `mt_setblk()`. -/
def mtSetblk (cartridge : Cartridge) (newSize : ℤ) : Cartridge × Except Errno Unit :=
  let newSize := (newSize % 0x100000000).toNat
  if zftMaxBlkSz < newSize then (cartridge, .error .einval)
  else if newSize % ftSectorSize ≠ 0 then (cartridge, .error .einval)
  else ({ cartridge with blkSz := if newSize = 0 then 1 else newSize }, .ok ())

/-- What the driver does with block sizes: it reads the header segments of a cartridge or a volume
table, takes over the file marks of an old tape, edits the volume table, looks a volume of the raw
device up, or is told another block size or mode. -/
inductive Action where
  | readHeaderSegments (cartridge : Cartridge)
  | readVolumeTable (buffer : ℕ → Byte)
  | fakeVolumeHeaders (marks : List (ℕ × ℕ))
  | openVolume (pos : Position)
  | closeVolume (pos : Position)
  | weof (count : ℕ) (pos : Position)
  | erase
  | update
  | rawVolumeBySegpos (segPos : ℕ)
  | rawVolumeByBlkpos (blkPos : ℤ)
  | setblk (newSize : ℤ)
  | reset
  | setRawImage (rawImage : Bool) (capacity : ℤ)

/-- `zft_volume_by_segpos()` on the raw device. -/
def Driver.rawVolumeBySegpos (driver : Driver) (segPos : ℕ) : Driver × Volinfo :=
  if driver.cartridge.lastDataSegment < segPos then (driver, driver.eotVtbl)
  else
    let driver := { driver with tapeVtbl := { driver.tapeVtbl with blkSz := driver.cartridge.blkSz } }
    (driver, driver.tapeVtbl)

/-- `zft_volume_by_blkpos()` on the raw device. -/
def Driver.rawVolumeByBlkpos (driver : Driver) (blkPos : ℤ) : Driver × Volinfo :=
  if driver.cartridge.capacity < blkPos * driver.cartridge.blkSz then
    let driver := { driver with eotVtbl := { driver.eotVtbl with blkSz := driver.cartridge.blkSz } }
    (driver, driver.eotVtbl)
  else
    let driver := { driver with tapeVtbl := { driver.tapeVtbl with blkSz := driver.cartridge.blkSz } }
    (driver, driver.tapeVtbl)

/-- An operation on the volume table, for which an empty table is made up at the logical beginning. -/
def Driver.edit (driver : Driver) (pos : Position) (operation : Operation) : Driver :=
  let edited := if driver.table.zftTapeAtLbot pos then driver.initRaw else driver
  { edited with toDevice := driver.toDevice.exec driver.cartridge operation }

/-- What an action makes of the driver. -/
def Driver.step (driver : Driver) : Action → Driver
  | .readHeaderSegments cartridge =>
    Driver.initVtbl { driver with cartridge := { cartridge with blkSz := driver.cartridge.blkSz } }
  | .readVolumeTable buffer =>
    { driver.initRaw with toDevice := zftReadVolumeTable driver.cartridge buffer }
  | .fakeVolumeHeaders marks => { driver.initRaw with table := zftFakeVolumeHeaders driver.cartridge marks }
  | .openVolume pos => driver.edit pos (.openVolume pos driver.cartridge.blkSz)
  | .closeVolume pos => { driver with toDevice := driver.toDevice.exec driver.cartridge (.closeVolume pos) }
  | .weof count pos => if count = 0 then driver else driver.edit pos (.weof count pos)
  | .erase => { driver.initRaw with toDevice := driver.toDevice.exec driver.cartridge .erase }
  | .update => { driver with toDevice := driver.toDevice.exec driver.cartridge .update }
  | .rawVolumeBySegpos segPos => (driver.rawVolumeBySegpos segPos).1
  | .rawVolumeByBlkpos blkPos => (driver.rawVolumeByBlkpos blkPos).1
  | .setblk newSize => { driver with cartridge := (mtSetblk driver.cartridge newSize).1 }
  | .reset => { driver with cartridge := { driver.cartridge with blkSz := zftDfltBlkSz } }
  | .setRawImage rawImage capacity =>
    if rawImage = driver.rawImage then driver
    else Driver.initVtbl { driver with
      rawImage := rawImage
      cartridge := { driver.cartridge with capacity := capacity } }

/-- The volumes that can become the current one: those of the table with the entry behind them, and the
two volumes of the raw device. -/
def Driver.candidates (driver : Driver) : List Volinfo :=
  driver.table.entries.map (·.toVolinfo) ++ [driver.tapeVtbl, driver.eotVtbl]

/-- The block size of each volume that can become the current one divides. -/
def Driver.AllUsable (driver : Driver) : Prop := ∀ volume ∈ driver.candidates, UsableBlkSz volume.blkSz

section Tables

variable {table : Vtbl} {cartridge : Cartridge}

/-- A new volume takes its block size from the caller. -/
theorem Vtbl.Usable.newVtblEntry (h : table.Usable) {fill : VtblEntry → VtblEntry}
    (hfill : UsableBlkSz (fill { VtblEntry.blank with count := table.eom.count }).blkSz) :
    (table.newVtblEntry fill).Usable := by
  have happend : (table.newVtblEntry fill).volumes =
      table.volumes ++ [fill { VtblEntry.blank with count := table.eom.count }] := rfl
  exact (Vtbl.usable_append happend rfl).mpr ⟨h, hfill⟩

/-- A volume is opened with a usable block size. -/
theorem Vtbl.Usable.appendVolume (h : table.Usable) (pos : Position) {blkSz : ℕ} (hblkSz : UsableBlkSz blkSz) :
    (table.appendVolume cartridge pos blkSz).1.Usable := by
  rw [Vtbl.appendVolume]
  split_ifs
  · exact h
  · exact h
  · exact h
  · have hopened : (table.newVtblEntry (table.fillOpened cartridge pos blkSz)).Usable := h.newVtblEntry hblkSz
    exact { hopened with }

/-- So is one at the logical beginning of the tape. -/
theorem Vtbl.Usable.zftOpenVolume (h : table.Usable) (hdevice : UsableBlkSz cartridge.blkSz) (pos : Position)
    {blkSz : ℕ} (hblkSz : UsableBlkSz blkSz) : (table.zftOpenVolume cartridge pos blkSz).1.Usable := by
  rw [Vtbl.zftOpenVolume]
  split
  · exact (zftInitVtbl_usable hdevice).appendVolume _ hblkSz
  · exact h.appendVolume pos hblkSz

/-- Closing the last volume leaves its block size alone. -/
theorem Vtbl.Usable.zftCloseVolume (h : table.Usable) (pos : Position) :
    (table.zftCloseVolume cartridge pos).1.Usable := by
  rw [Vtbl.zftCloseVolume]
  split
  · exact h
  · refine h.of_blkSz ?_ rfl
    exact table.map_modifyLast (·.blkSz) fun _ => rfl

/-- File marks take the block size of the device. -/
theorem Vtbl.Usable.weofLoop (h : table.Usable) (hdevice : UsableBlkSz cartridge.blkSz) (count : ℕ)
    (pos : Position) : (Vtbl.weofLoop cartridge count table pos).1.Usable := by
  induction count generalizing table pos with
  | zero => exact h
  | succ count ih =>
    rw [Vtbl.weofLoop]
    split
    · have hmark : (table.newVtblEntry (table.fillMark cartridge pos)).Usable := h.newVtblEntry hdevice
      apply ih
      exact { hmark with }
    · exact h

/-- So does an empty volume table that is made up for them. -/
theorem Vtbl.Usable.zftWeof (h : table.Usable) (hdevice : UsableBlkSz cartridge.blkSz) (count : ℕ)
    (pos : Position) : (table.zftWeof cartridge count pos).1.Usable := by
  have hstart : (if table.zftTapeAtLbot pos then zftInitVtbl cartridge else table).Usable := by
    split
    · exact zftInitVtbl_usable hdevice
    · exact h
  rw [Vtbl.zftWeof]
  split
  · exact h
  · apply weofLoop _ hdevice
    change (Vtbl.weofClose cartridge (if table.zftTapeAtLbot pos then zftInitVtbl cartridge else table)
      pos count).1.Usable
    rw [weofClose_fst]
    exact hstart.zftCloseVolume pos

/-- Writing the table changes no block size of the list. -/
theorem Device.update_usable {device : Device} (h : device.table.Usable) :
    (device.update cartridge).table.Usable := by
  refine h.of_blkSz ?_ rfl
  change (device.table.volumes.map VtblEntry.written).map (·.blkSz) = _
  rw [List.map_map]
  refine List.map_congr_left fun volume _ => ?_
  change volume.corrected.blkSz = volume.blkSz
  rw [VtblEntry.corrected]
  split <;> rfl

/-- An operation on the table that takes its block sizes from the device. -/
theorem Device.exec_usable {device : Device} (h : device.table.Usable) (hdevice : UsableBlkSz cartridge.blkSz)
    {operation : Operation} (hopen : ∀ pos blkSz, operation = .openVolume pos blkSz → UsableBlkSz blkSz) :
    (device.exec cartridge operation).table.Usable := by
  cases operation with
  | openVolume pos blkSz => exact h.zftOpenVolume hdevice pos (hopen pos blkSz rfl)
  | closeVolume pos => exact h.zftCloseVolume pos
  | weof count pos => exact h.zftWeof hdevice count pos
  | erase => exact Device.update_usable (zftInitVtbl_usable hdevice)
  | update => exact Device.update_usable h

/-- Faked volumes have blocks of one byte. -/
theorem Vtbl.Usable.fakeLoop (h : table.Usable) (marks : List (ℕ × ℕ)) :
    (fakeLoop cartridge marks table).Usable := by
  induction marks generalizing table with
  | nil => exact h
  | cons mark marks ih =>
    rw [Volume.fakeLoop]
    apply ih
    refine { h.newVtblEntry ?_ with }
    exact Or.inl rfl

/-- So does the volume that is made of the rest of an old tape. -/
theorem zftFakeVolumeHeaders_usable (hdevice : UsableBlkSz cartridge.blkSz) (marks : List (ℕ × ℕ)) :
    (zftFakeVolumeHeaders cartridge marks).Usable := by
  have hstart : Vtbl.Usable { zftInitVtbl cartridge with
      eom := { (zftInitVtbl cartridge).eom with startSeg := cartridge.firstDataSegment } } :=
    { zftInitVtbl_usable hdevice with }
  rw [zftFakeVolumeHeaders]
  dsimp only
  split
  · exact hstart.fakeLoop _
  · refine { (hstart.fakeLoop marks).newVtblEntry ?_ with }
    exact Or.inl rfl

/-- The block size the user sets divides. -/
theorem mtSetblk_usable (hdevice : UsableBlkSz cartridge.blkSz) (newSize : ℤ) :
    UsableBlkSz (mtSetblk cartridge newSize).1.blkSz := by
  rw [mtSetblk]
  generalize (newSize % 0x100000000).toNat = newSize
  split
  · exact hdevice
  · rename_i hlarge
    split
    · exact hdevice
    · rename_i hmultiple
      dsimp only
      split
      · exact Or.inl rfl
      · rename_i hzero
        right
        rw [ftSectorSize] at hmultiple
        rw [zftMaxBlkSz] at hlarge ⊢
        omega

end Tables

/-- The driver has usable block sizes throughout. -/
structure Driver.Usable (driver : Driver) : Prop where
  blkSz : UsableBlkSz driver.cartridge.blkSz
  candidates : driver.AllUsable

section Runs

variable {driver : Driver}

/-- What the candidates are. -/
theorem Driver.allUsable_iff : driver.AllUsable ↔
    driver.table.Usable ∧ UsableBlkSz driver.tapeVtbl.blkSz ∧ UsableBlkSz driver.eotVtbl.blkSz := by
  simp only [Driver.AllUsable, Driver.candidates, Vtbl.entries, List.map_append, List.map_cons, List.map_nil,
    List.mem_append, List.mem_map, List.mem_cons, List.not_mem_nil, or_false]
  constructor
  · intro h
    refine ⟨⟨fun volume hvolume => h _ (Or.inl (Or.inl ⟨volume, hvolume, rfl⟩)), h _ (Or.inl (Or.inr rfl))⟩,
      h _ (Or.inr (Or.inl rfl)), h _ (Or.inr (Or.inr rfl))⟩
  · rintro ⟨htable, htape, heot⟩ volume ((⟨entry, hentry, rfl⟩ | rfl) | rfl | rfl)
    · exact htable.volumes entry hentry
    · exact htable.eom
    · exact htape
    · exact heot

/-- The volume table an action reads has usable block sizes. -/
def Driver.Reads (driver : Driver) : Action → Prop
  | .readVolumeTable buffer => UsableTable driver.cartridge buffer
  | _ => True

/-- No action leaves the device with a block size that does not divide. -/
theorem Driver.step_blkSz (h : UsableBlkSz driver.cartridge.blkSz) (action : Action) :
    UsableBlkSz (driver.step action).cartridge.blkSz := by
  have hedit : ∀ pos operation, (driver.edit pos operation).cartridge = driver.cartridge := by
    intro pos operation
    rw [Driver.edit]
    dsimp only
    split <;> rfl
  cases action with
  | openVolume pos =>
    rw [Driver.step, hedit]
    exact h
  | weof count pos =>
    rw [Driver.step]
    split
    · exact h
    · rw [hedit]
      exact h
  | rawVolumeBySegpos segPos =>
    rw [Driver.step, Driver.rawVolumeBySegpos]
    split <;> exact h
  | rawVolumeByBlkpos blkPos =>
    rw [Driver.step, Driver.rawVolumeByBlkpos]
    split <;> exact h
  | setblk newSize => exact mtSetblk_usable h newSize
  | reset => exact zftDfltBlkSz_usable
  | setRawImage rawImage capacity =>
    rw [Driver.step]
    split <;> exact h
  | readHeaderSegments _ => exact h
  | readVolumeTable _ => exact h
  | fakeVolumeHeaders _ => exact h
  | closeVolume _ => exact h
  | erase => exact h
  | update => exact h

/-- Editing the table keeps the block sizes usable. -/
theorem Driver.Usable.edit (h : driver.Usable) (pos : Position) {operation : Operation}
    (hopen : ∀ pos blkSz, operation = .openVolume pos blkSz → UsableBlkSz blkSz) :
    (driver.edit pos operation).AllUsable := by
  obtain ⟨htable, htape, heot⟩ := allUsable_iff.mp h.candidates
  rw [allUsable_iff, Driver.edit]
  dsimp only
  have hexec := Device.exec_usable htable h.blkSz hopen
  split
  · exact ⟨hexec, h.blkSz, h.blkSz⟩
  · exact ⟨hexec, htape, heot⟩

/-- Each action keeps the block sizes usable, reading a volume table exactly if those in it are. -/
theorem Driver.Usable.step_iff (h : driver.Usable) (action : Action) :
    (driver.step action).AllUsable ↔ driver.Reads action := by
  obtain ⟨htable, htape, heot⟩ := allUsable_iff.mp h.candidates
  have hnone : ∀ operation, (∀ pos blkSz, operation ≠ Operation.openVolume pos blkSz) →
      (driver.toDevice.exec driver.cartridge operation).table.Usable := fun operation hother =>
    Device.exec_usable htable h.blkSz fun pos blkSz heq => absurd heq (hother pos blkSz)
  cases action with
  | readVolumeTable buffer =>
    rw [allUsable_iff]
    refine (and_iff_left ⟨h.blkSz, h.blkSz⟩).trans ?_
    exact zftExtractVolumeHeaders_usable_iff h.blkSz buffer
  | readHeaderSegments cartridge =>
    exact iff_of_true (allUsable_iff.mpr ⟨zftInitVtbl_usable h.blkSz, h.blkSz, h.blkSz⟩) trivial
  | fakeVolumeHeaders marks =>
    exact iff_of_true (allUsable_iff.mpr ⟨zftFakeVolumeHeaders_usable h.blkSz marks, h.blkSz, h.blkSz⟩) trivial
  | openVolume pos =>
    refine iff_of_true (h.edit pos ?_) trivial
    rintro _ _ ⟨⟩
    exact h.blkSz
  | closeVolume pos => exact iff_of_true (allUsable_iff.mpr ⟨hnone _ nofun, htape, heot⟩) trivial
  | weof count pos =>
    rw [Driver.step]
    split
    · exact iff_of_true h.candidates trivial
    · exact iff_of_true (h.edit pos nofun) trivial
  | erase => exact iff_of_true (allUsable_iff.mpr ⟨hnone _ nofun, h.blkSz, h.blkSz⟩) trivial
  | update => exact iff_of_true (allUsable_iff.mpr ⟨hnone _ nofun, htape, heot⟩) trivial
  | rawVolumeBySegpos segPos =>
    refine iff_of_true ?_ trivial
    rw [Driver.step, Driver.rawVolumeBySegpos]
    split
    · exact h.candidates
    · exact allUsable_iff.mpr ⟨htable, h.blkSz, heot⟩
  | rawVolumeByBlkpos blkPos =>
    refine iff_of_true ?_ trivial
    rw [Driver.step, Driver.rawVolumeByBlkpos]
    split
    · exact allUsable_iff.mpr ⟨htable, htape, h.blkSz⟩
    · exact allUsable_iff.mpr ⟨htable, h.blkSz, heot⟩
  | setblk newSize => exact iff_of_true h.candidates trivial
  | reset => exact iff_of_true h.candidates trivial
  | setRawImage rawImage capacity =>
    refine iff_of_true ?_ trivial
    rw [Driver.step]
    split
    · exact h.candidates
    · exact allUsable_iff.mpr ⟨zftInitVtbl_usable h.blkSz, h.blkSz, h.blkSz⟩

/-- The block sizes are usable before and after each action of a run. -/
def Driver.AlwaysUsable (driver : Driver) : List Action → Prop
  | [] => driver.AllUsable
  | action :: actions => driver.AllUsable ∧ (driver.step action).AlwaysUsable actions

/-- Each volume table that is read in a run has usable block sizes. -/
def Driver.AlwaysReads (driver : Driver) : List Action → Prop
  | [] => True
  | action :: actions => driver.Reads action ∧ (driver.step action).AlwaysReads actions

/-- Once the block sizes are usable, they are so throughout a run exactly if those of each volume table
that is read are. -/
theorem Driver.Usable.run_iff (h : driver.Usable) (actions : List Action) :
    driver.AlwaysUsable actions ↔ driver.AlwaysReads actions := by
  induction actions generalizing driver with
  | nil => exact iff_of_true h.candidates trivial
  | cons action actions ih =>
    rw [Driver.AlwaysUsable, Driver.AlwaysReads, and_iff_right h.candidates]
    constructor
    · intro halways
      have hstep : (driver.step action).AllUsable := by
        cases actions with
        | nil => exact halways
        | cons _ _ => exact halways.1
      exact ⟨(h.step_iff action).mp hstep, (ih ⟨step_blkSz h.blkSz action, hstep⟩).mp halways⟩
    · rintro ⟨hreads, halways⟩
      exact (ih ⟨step_blkSz h.blkSz action, (h.step_iff action).mpr hreads⟩).mpr halways

end Runs

/-- A device that was opened for the first time, with the header segments of its cartridge read. -/
def firstOpened (cartridge : Cartridge) (buffer : ℕ → Byte) (rawImage : Bool) : Driver :=
  let cartridge := { cartridge with blkSz := zftDfltBlkSz }
  Driver.initVtbl ⟨⟨zftInitVtbl cartridge, buffer⟩, cartridge, rawImage, VtblEntry.blank.toVolinfo,
    VtblEntry.blank.toVolinfo⟩

/-- It starts with usable block sizes. -/
theorem firstOpened_usable (cartridge : Cartridge) (buffer : ℕ → Byte) (rawImage : Bool) :
    (firstOpened cartridge buffer rawImage).Usable where
  blkSz := zftDfltBlkSz_usable
  candidates :=
    Driver.allUsable_iff.mpr ⟨zftInitVtbl_usable zftDfltBlkSz_usable, zftDfltBlkSz_usable, zftDfltBlkSz_usable⟩

/-- In each run of a device, the block size of each volume that can become the current one divides
exactly if the block sizes in each volume table that is read do; then no division is by zero. -/
theorem blockSizes_usable_iff (cartridge : Cartridge) (buffer : ℕ → Byte) (rawImage : Bool)
    (actions : List Action) :
    ((firstOpened cartridge buffer rawImage).AlwaysUsable actions ↔
      (firstOpened cartridge buffer rawImage).AlwaysReads actions) ∧
    ∀ volume : Volinfo, UsableBlkSz volume.blkSz →
      volume.blkSz ≠ 0 ∧ ∀ value, (zftDivBlksz value volume.blkSz).result ≠ .error .divideError :=
  ⟨(firstOpened_usable cartridge buffer rawImage).run_iff actions, fun _ husable => husable.divides⟩

/-- A volume table segment with one volume, whose extension has a block size of 0. -/
def emptyBlocksSegment : ℕ → Byte :=
  runPuts (createZftVolume qic80Cartridge 0 ⟨⟨3, 10, 237568, 237568, 0, false⟩, 0, 0, 0, true, false,
    false, true⟩) fun _ => 0

/-- After that segment is read, a volume with a block size of 0 is there, at which `zft_div_blksz()` stops
with a division error. -/
theorem emptyBlocks_unusable :
    ¬(firstOpened qic80Cartridge (fun _ => 0) false).AlwaysUsable [.readVolumeTable emptyBlocksSegment] ∧
      (∃ volume ∈ ((firstOpened qic80Cartridge (fun _ => 0) false).step
          (.readVolumeTable emptyBlocksSegment)).candidates,
        (zftDivBlksz volume.size volume.blkSz).result = .error .divideError) := by
  have hread : ((firstOpened qic80Cartridge (fun _ => 0) false).step
      (.readVolumeTable emptyBlocksSegment)).candidates.map (·.blkSz) = [0, zftDfltBlkSz, zftDfltBlkSz,
        zftDfltBlkSz] := by
    decide +kernel
  have hmem : 0 ∈ ((firstOpened qic80Cartridge (fun _ => 0) false).step
      (.readVolumeTable emptyBlocksSegment)).candidates.map (·.blkSz) := by
    rw [hread]
    exact List.mem_cons_self
  obtain ⟨volume, hvolume, hzero⟩ := List.mem_map.mp hmem
  constructor
  · rintro ⟨-, hread⟩
    have husable := hread volume hvolume
    rw [show volume.blkSz = 0 from hzero] at husable
    revert husable
    decide
  · refine ⟨volume, hvolume, ?_⟩
    rw [show volume.blkSz = 0 from hzero]
    rfl

end Ftape.Volume
