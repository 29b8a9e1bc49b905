import Ftape.Volume.Edit

/-!
# The bounds of the volume table

`zft_create_volume_headers()` clears the room behind the last volume, and works out how much that is
from the number of volumes. Volumes have an entry each, but entries of other kinds have none in the
list: the writes stay in the buffer exactly when the list has volumes and no entry of another kind
stands in front of the last one.
-/

namespace Ftape.Volume

open Ftape.Algebra Ftape.Bsm Ftape.Write Ftape.Zftape

/-- Where the volumes have their entries, and their numbers. -/
def Vtbl.places (table : Vtbl) : List (ℕ × ℕ) := table.volumes.map fun vtbl => (vtbl.offset, vtbl.count)

/-- The volumes have entries of their own in the buffer, in order. -/
structure Vtbl.Laid (table : Vtbl) : Prop where
  count : table.eom.count = table.places.length
  place : ∀ p ∈ table.places, vtblSize ∣ p.1 ∧ p.1 < ftSegmentSize ∧ p.2 * vtblSize ≤ p.1
  spaced : table.places.length * vtblSize ≤ table.nextOffset

/-- The next offset follows the last place. -/
theorem Vtbl.nextOffset_eq (table : Vtbl) :
    table.nextOffset = (table.places.getLast?.map fun p => p.1 + vtblSize).getD 0 := by
  rw [nextOffset, places, List.getLast?_map]
  cases table.volumes.getLast? <;> rfl

/-- Only the places of the volumes matter. -/
theorem Vtbl.Laid.of_places {table table' : Vtbl} (h : table.Laid) (hplaces : table'.places = table.places)
    (hcount : table'.eom.count = table.eom.count) : table'.Laid := by
  have hnext : table'.nextOffset = table.nextOffset := by
    rw [nextOffset_eq, nextOffset_eq, hplaces]
  exact ⟨hcount ▸ hplaces ▸ h.count, hplaces ▸ h.place, hnext ▸ hplaces ▸ h.spaced⟩

/-- A new entry behind the last one. -/
theorem Vtbl.Laid.append {table table' : Vtbl} {offset : ℕ} (h : table.Laid)
    (hplaces : table'.places = table.places ++ [(offset, table.eom.count)])
    (hcount : table'.eom.count = table.eom.count + 1) (hnext : table.nextOffset ≤ offset)
    (haligned : vtblSize ∣ offset) (hlt : offset < ftSegmentSize) : table'.Laid := by
  have hlength : table'.places.length = table.places.length + 1 := by
    rw [hplaces, List.length_append, List.length_singleton]
  have hspaced := h.spaced
  refine ⟨by rw [hcount, hlength, h.count], ?_, ?_⟩
  · intro p hp
    rw [hplaces, List.mem_append, List.mem_singleton] at hp
    rcases hp with hp | rfl
    · exact h.place p hp
    · refine ⟨haligned, hlt, ?_⟩
      calc table.eom.count * vtblSize = table.places.length * vtblSize := by rw [h.count]
        _ ≤ offset := hspaced.trans hnext
  · rw [nextOffset_eq, hlength, hplaces, List.getLast?_concat, Option.map_some, Option.getD_some,
      Nat.add_mul]
    omega

/-- The next offset is that of an entry. -/
theorem Vtbl.Laid.aligned {table : Vtbl} (h : table.Laid) : vtblSize ∣ table.nextOffset := by
  rw [nextOffset_eq]
  cases hlast : table.places.getLast? with
  | none => exact Nat.dvd_zero _
  | some p =>
    have hp := h.place p (List.mem_of_getLast? hlast)
    exact (Nat.dvd_add_right hp.1).mpr (Nat.dvd_refl _)

/-- The next offset is at most the end of the buffer. -/
theorem Vtbl.Laid.nextOffset_le {table : Vtbl} (h : table.Laid) : table.nextOffset ≤ ftSegmentSize := by
  have haligned := h.aligned
  rw [nextOffset_eq] at haligned ⊢
  cases hlast : table.places.getLast? with
  | none => exact Nat.zero_le _
  | some p =>
    obtain ⟨⟨k, hk⟩, hlt, -⟩ := h.place p (List.mem_of_getLast? hlast)
    simp only [Option.map_some, Option.getD_some, vtblSize, ftSegmentSize, ftSectorsPerSegment,
      ftEccSectors, ftSectorSize] at *
    omega

/-- A table without volumes. -/
theorem zftInitVtbl_laid (cartridge : Cartridge) : (zftInitVtbl cartridge).Laid :=
  ⟨rfl, fun _ hp => absurd hp List.not_mem_nil, Nat.zero_le _⟩

/-- Extracting a volume keeps the entries in order. -/
theorem extractVolume_laid (cartridge : Cartridge) (buffer : ℕ → Byte) {entry : ℕ} {table : Vtbl}
    (h : table.Laid) (hnext : table.nextOffset ≤ entry) (haligned : vtblSize ∣ entry)
    (hlt : entry < ftSegmentSize) :
    (extractVolume cartridge buffer entry table).Laid ∧
      (extractVolume cartridge buffer entry table).nextOffset = entry + vtblSize := by
  have hplaces : (extractVolume cartridge buffer entry table).places =
      table.places ++ [(entry, table.eom.count)] := by
    rw [Vtbl.places, extractVolume, List.map_append, List.map_singleton, extractEntry_count]
    rfl
  refine ⟨h.append hplaces rfl hnext haligned hlt, ?_⟩
  rw [Vtbl.nextOffset_eq, hplaces, List.getLast?_concat]
  rfl

/-- The loop finds each volume behind the one before. -/
theorem extractLoop_laid (cartridge : Cartridge) (buffer : ℕ → Byte) {rounds entry : ℕ} {table : Vtbl}
    (h : table.Laid) (hnext : table.nextOffset ≤ entry) (haligned : vtblSize ∣ entry)
    (hroom : entry + rounds * vtblSize ≤ ftSegmentSize) :
    (extractLoop cartridge buffer rounds entry table).Laid := by
  induction rounds generalizing entry table with
  | zero => exact h
  | succ rounds ih =>
    have hlt : entry < ftSegmentSize := by
      rw [Nat.add_mul] at hroom
      unfold vtblSize at hroom
      omega
    have hnext_entry : entry + vtblSize + rounds * vtblSize ≤ ftSegmentSize := by
      rw [Nat.add_mul] at hroom
      omega
    have haligned' : vtblSize ∣ entry + vtblSize := (Nat.dvd_add_right haligned).mpr (Nat.dvd_refl _)
    rw [extractLoop]
    split_ifs
    · exact h.of_places rfl rfl
    · exact ih h (Nat.le_add_right_of_le hnext) haligned' hnext_entry
    · obtain ⟨hlaid, hoffset⟩ := extractVolume_laid cartridge buffer h hnext haligned hlt
      exact ih hlaid hoffset.le haligned' hnext_entry
    · exact h

/-- The volumes that were read from a segment are laid out in it. -/
theorem zftExtractVolumeHeaders_laid (cartridge : Cartridge) (buffer : ℕ → Byte) :
    (zftExtractVolumeHeaders cartridge buffer).Laid := by
  apply extractLoop_laid cartridge buffer (zftInitVtbl_laid cartridge) (Nat.zero_le _)
  · unfold firstEntry
    split
    · exact Nat.dvd_refl _
    · exact Nat.dvd_zero _
  · unfold firstEntry
    split <;> decide

/-- A new volume gets the entry behind the last one. -/
theorem Vtbl.Laid.newVtblEntry {table : Vtbl} (h : table.Laid) {fill : VtblEntry → VtblEntry}
    (hoffset : ∀ vtbl, (fill vtbl).offset = table.nextOffset) (hcount : ∀ vtbl, (fill vtbl).count = vtbl.count)
    (hroom : table.nextOffset < ftSegmentSize) : (table.newVtblEntry fill).Laid := by
  have hplaces : (table.newVtblEntry fill).places =
      table.places ++ [(table.nextOffset, table.eom.count)] := by
    rw [places, Vtbl.newVtblEntry, List.map_append, List.map_singleton, hoffset, hcount]
    rfl
  exact h.append hplaces rfl (Nat.le_refl _) h.aligned hroom

/-- An opened volume has the next offset. -/
theorem Vtbl.fillOpened_offset (table : Vtbl) (cartridge : Cartridge) (pos : Position) (blkSz : ℕ)
    (vtbl : VtblEntry) : (table.fillOpened cartridge pos blkSz vtbl).offset = table.nextOffset := rfl

/-- An empty volume has the next offset. -/
theorem Vtbl.fillMark_offset (table : Vtbl) (cartridge : Cartridge) (pos : Position) (vtbl : VtblEntry) :
    (table.fillMark cartridge pos vtbl).offset = table.nextOffset := rfl

/-- Opening a volume behind the last one. -/
theorem Vtbl.Laid.appendVolume {table : Vtbl} (h : table.Laid) (cartridge : Cartridge) (pos : Position)
    (blkSz : ℕ) : (table.appendVolume cartridge pos blkSz).1.Laid := by
  rw [Vtbl.appendVolume]
  split
  case isTrue => exact h
  split
  case isTrue => exact h
  split
  case isTrue => exact h
  case isFalse hroom =>
    exact (h.newVtblEntry (table.fillOpened_offset cartridge pos blkSz) (fun _ => rfl)
      (Nat.lt_of_not_le hroom)).of_places rfl rfl

/-- Opening a volume. -/
theorem Vtbl.Laid.zftOpenVolume {table : Vtbl} (h : table.Laid) (cartridge : Cartridge) (pos : Position)
    (blkSz : ℕ) : (table.zftOpenVolume cartridge pos blkSz).1.Laid := by
  rw [Vtbl.zftOpenVolume]
  split
  · exact (zftInitVtbl_laid cartridge).appendVolume cartridge _ blkSz
  · exact h.appendVolume cartridge pos blkSz

/-- A change to the last volume that leaves something alone leaves it alone everywhere. -/
theorem Vtbl.map_modifyLast {β : Type*} (table : Vtbl) {f : VtblEntry → VtblEntry} (g : VtblEntry → β)
    (hg : ∀ vtbl, g (f vtbl) = g vtbl) : (table.modifyLast f).volumes.map g = table.volumes.map g := by
  apply List.ext_getElem?
  intro i
  simp only [modifyLast, List.getElem?_map, List.getElem?_modify]
  cases table.volumes[i]? with
  | none => rfl
  | some vtbl => by_cases hi : table.volumes.length - 1 = i <;> simp [hi, hg]

/-- A change to the last volume that leaves its entry in place. -/
theorem Vtbl.places_modifyLast (table : Vtbl) {f : VtblEntry → VtblEntry}
    (hoffset : ∀ vtbl, (f vtbl).offset = vtbl.offset) (hcount : ∀ vtbl, (f vtbl).count = vtbl.count) :
    (table.modifyLast f).places = table.places :=
  table.map_modifyLast (fun vtbl => (vtbl.offset, vtbl.count)) fun vtbl => by rw [hoffset, hcount]

/-- Closing a volume. -/
theorem Vtbl.Laid.zftCloseVolume {table : Vtbl} (h : table.Laid) (cartridge : Cartridge) (pos : Position) :
    (table.zftCloseVolume cartridge pos).1.Laid := by
  rw [Vtbl.zftCloseVolume]
  split
  · exact h
  · exact h.of_places (table.places_modifyLast (fun _ => rfl) fun _ => rfl) rfl

/-- Appending empty volumes. -/
theorem Vtbl.Laid.weofLoop {table : Vtbl} (h : table.Laid) (cartridge : Cartridge) (count : ℕ)
    (pos : Position) : (table.weofLoop cartridge count pos).1.Laid := by
  induction count generalizing table pos with
  | zero => exact h
  | succ count ih =>
    rw [Vtbl.weofLoop]
    split
    case isTrue hroom =>
      have hmark := h.newVtblEntry (table.fillMark_offset cartridge pos) (fun _ => rfl) hroom.2.2
      apply ih
      exact hmark.of_places rfl rfl
    case isFalse => exact h

/-- Closing the volume in progress, or having none. -/
theorem Vtbl.weofClose_fst (table : Vtbl) (cartridge : Cartridge) (pos : Position) (count : ℕ) :
    (table.weofClose cartridge pos count).1 = (table.zftCloseVolume cartridge pos).1 := by
  rw [weofClose]
  cases hresult : table.zftCloseVolume cartridge pos with
  | mk table' result => cases result <;> rfl

/-- Writing file marks. -/
theorem Vtbl.Laid.zftWeof {table : Vtbl} (h : table.Laid) (cartridge : Cartridge) (count : ℕ)
    (pos : Position) : (table.zftWeof cartridge count pos).1.Laid := by
  rw [Vtbl.zftWeof]
  split
  · exact h
  · apply weofLoop
    change (Vtbl.weofClose cartridge (if table.zftTapeAtLbot pos then zftInitVtbl cartridge else table)
      pos count).1.Laid
    rw [weofClose_fst]
    apply zftCloseVolume
    split
    · exact zftInitVtbl_laid cartridge
    · exact h

/-- The entries of volumes are not moved when they are written. -/
theorem Vtbl.Laid.corrected {table : Vtbl} (h : table.Laid) {vtbl : VtblEntry} (hvtbl : vtbl ∈ table.volumes) :
    vtbl.corrected = vtbl := by
  have hplace := h.place (vtbl.offset, vtbl.count) (List.mem_map_of_mem hvtbl)
  exact if_neg (Nat.not_le.mpr hplace.2.1)

/-- Writing the volume table. -/
theorem Vtbl.Laid.update {table : Vtbl} (h : table.Laid) (cartridge : Cartridge) (buffer : ℕ → Byte) :
    (Device.update cartridge ⟨table, buffer⟩).table.Laid := by
  apply h.of_places
  · change List.map _ (table.volumes.map VtblEntry.written) = List.map _ table.volumes
    rw [List.map_map]
    apply List.map_congr_left
    intro vtbl hvtbl
    rw [Function.comp_apply, VtblEntry.written, h.corrected hvtbl]
  · rfl

/-- Every operation keeps the entries in order. -/
theorem Device.exec_laid (cartridge : Cartridge) {device : Device} (h : device.table.Laid) (op : Operation) :
    (device.exec cartridge op).table.Laid := by
  cases op with
  | openVolume pos blkSz => exact h.zftOpenVolume cartridge pos blkSz
  | closeVolume pos => exact h.zftCloseVolume cartridge pos
  | weof count pos => exact h.zftWeof cartridge count pos
  | erase => exact (zftInitVtbl_laid cartridge).update cartridge device.buffer
  | update => exact h.update cartridge device.buffer

/-- The entries stay in order in every run. -/
theorem Device.run_laid (cartridge : Cartridge) {device : Device} (h : device.table.Laid)
    (ops : List Operation) : (ops.foldl (Device.exec cartridge) device).table.Laid := by
  induction ops generalizing device with
  | nil => exact h
  | cons op ops ih => exact ih (Device.exec_laid cartridge h op)

/-- A write to the buffer of the volume table. -/
def InBuffer (put : Put Byte) : Prop := put.address + put.size ≤ ftSegmentSize

instance : DecidablePred InBuffer := fun _ => inferInstanceAs (Decidable (_ ≤ _))

/-- The label has room in the entry for its number. -/
theorem volumeLabel_length {count : ℕ} (h : count < 1000) : (volumeLabel count).length = 17 := by
  have hdigits : (Nat.digits 10 count).length ≤ 3 := (Nat.digits_length_le_iff (by decide) count).mpr h
  simp only [volumeLabel, List.length_append, List.length_map, List.length_leftpad,
    List.length_reverse, Nat.max_eq_left hdigits]
  rfl

/-- Where `create_zft_volume()` writes to, counted from the entry. -/
def volumeFields (formatCode : FormatCode) : List (ℕ × ℕ) :=
  [(vtblSig, vtblSize), (vtblSig, 4), (vtblDesc, 18), (vtblDesc + 17, vtblDescLen - 17), (vtblFlags, 1),
    (vtblMNo, 1)] ++
  (if formatCode = .fmtBig then
    [(vtbl6Ext + ext6ZftSig, 3), (vtbl6Ext + ext6ZftSigv, 1), (vtbl6Ext + ext6ZftBlksz, 2)]
  else [(vtblExt + extZftSig, 10), (vtblExt + extZftBlksz, 2)]) ++
  (if isQic113 formatCode then
    [(vtblDataSize, 8), (vtblCmpr, 1)] ++
      if formatCode = .fmtBig then [] else [(vtblExt + extZftQic113, 1)]
  else [(vtblDataSize, 4), (vtblKCmpr, 1)]) ++
  if formatCode = .fmtBig then
    [(vtbl6Major, 2), (vtbl6Minor, 2), (vtbl6Segs, 4), (vtbl6Start, 4), (vtbl6End, 4)]
  else [(vtblStart, 2), (vtblEnd, 2)]

/-- `create_zft_volume()` writes to the fields of the entry. -/
theorem createZftVolume_places (cartridge : Cartridge) (entry : ℕ) {vtbl : VtblEntry}
    (hcount : vtbl.count < 1000) :
    Places (createZftVolume cartridge entry vtbl) entry (volumeFields cartridge.formatCode) := by
  have hlabel := volumeLabel_length hcount
  have hname : (volumeLabel vtbl.count ++ [0]).length = 18 := by
    rw [List.length_append, hlabel, List.length_singleton]
  obtain ⟨_, formatCode, _⟩ := cartridge
  cases formatCode
  all_goals
    simp only [Places, createZftVolume, createLabel, createExtension, createSize, createRange, putCells,
      putFill, putNumber, hlabel, hname]
    rfl

/-- The fields lie in the entry. -/
theorem volumeFields_le (formatCode : FormatCode) : ∀ f ∈ volumeFields formatCode, f.1 + f.2 ≤ vtblSize := by
  cases formatCode <;> decide

/-- `create_zft_volume()` writes to the entry of the volume. -/
theorem createZftVolume_inEntry (cartridge : Cartridge) (entry : ℕ) {vtbl : VtblEntry}
    (hcount : vtbl.count < 1000) {put : Put Byte} (hput : put ∈ createZftVolume cartridge entry vtbl) :
    entry ≤ put.address ∧ put.address + put.size ≤ entry + vtblSize := by
  have hmem : (put.address, put.size) ∈
      (volumeFields cartridge.formatCode).map fun f => (entry + f.1, f.2) := by
    rw [← createZftVolume_places cartridge entry hcount]
    exact List.mem_map_of_mem hput
  obtain ⟨f, hf, heq⟩ := List.mem_map.mp hmem
  obtain ⟨haddress, hsize⟩ := Prod.mk.inj heq
  have hle := volumeFields_le cartridge.formatCode f hf
  constructor <;> omega

/-- The number of a volume has three digits at most. -/
theorem Vtbl.Laid.count_lt {table : Vtbl} (h : table.Laid) {vtbl : VtblEntry} (hvtbl : vtbl ∈ table.volumes) :
    vtbl.count < 1000 := by
  obtain ⟨-, hlt, hcount⟩ := h.place (vtbl.offset, vtbl.count) (List.mem_map_of_mem hvtbl)
  simp only [vtblSize, ftSegmentSize, ftSectorsPerSegment, ftEccSectors, ftSectorSize] at *
  omega

/-- The entries of new volumes are written inside the buffer. -/
theorem Vtbl.Laid.createEntry_inBuffer {table : Vtbl} (h : table.Laid) (cartridge : Cartridge)
    {vtbl : VtblEntry} (hvtbl : vtbl ∈ table.volumes) :
    ∀ put ∈ createEntry cartridge vtbl, InBuffer put := by
  intro put hput
  rw [createEntry, h.corrected hvtbl] at hput
  split at hput
  case isTrue =>
    have hentry := createZftVolume_inEntry cartridge vtbl.offset (h.count_lt hvtbl) hput
    obtain ⟨⟨k, hk⟩, hlt, -⟩ := h.place (vtbl.offset, vtbl.count) (List.mem_map_of_mem hvtbl)
    have hend := hentry.2
    simp only [InBuffer, vtblSize, ftSegmentSize, ftSectorsPerSegment, ftEccSectors,
      ftSectorSize] at *
    omega
  case isFalse => exact absurd hput List.not_mem_nil

/-- The place behind the last volume, where the buffer is cleared. -/
theorem Vtbl.Laid.last_corrected {table : Vtbl} (h : table.Laid) (hne : table.volumes ≠ []) :
    (table.volumes.getLast?.map fun vtbl => vtbl.corrected.offset).getD 0 + vtblSize = table.nextOffset := by
  obtain ⟨vtbl, hvtbl⟩ := Option.isSome_iff_exists.mp (List.getLast?_isSome.mpr hne)
  rw [hvtbl, Option.map_some, Option.getD_some, h.corrected (List.mem_of_getLast? hvtbl),
    Vtbl.nextOffset, hvtbl]

/-- `zft_create_volume_headers()` stays in its buffer exactly when the volumes fill the entries in
front of the next offset. -/
theorem Vtbl.Laid.puts_inBuffer {table : Vtbl} (h : table.Laid) (cartridge : Cartridge)
    (buffer : ℕ → Byte) : (∀ put ∈ createPuts cartridge table buffer, InBuffer put) ↔
      table.volumes ≠ [] ∧ table.nextOffset ≤ table.eom.count * vtblSize := by
  have hcmap : ∀ put ∈ deleteCmap buffer, InBuffer put := by
    intro put hput
    rw [deleteCmap] at hput
    split at hput
    case isTrue =>
      rw [List.mem_singleton.mp hput]
      exact (by decide : 0 + (ftSegmentSize - vtblSize) ≤ ftSegmentSize)
    case isFalse => exact absurd hput List.not_mem_nil
  have hentries : ∀ put ∈ table.volumes.flatMap (createEntry cartridge), InBuffer put := by
    intro put hput
    obtain ⟨vtbl, hvtbl, hput⟩ := List.mem_flatMap.mp hput
    exact h.createEntry_inBuffer cartridge hvtbl put hput
  have hcleared : (∀ put ∈ createPuts cartridge table buffer, InBuffer put) ↔
      (table.volumes.getLast?.map fun vtbl => vtbl.corrected.offset).getD 0 + vtblSize +
        (ftSegmentSize - table.eom.count * vtblSize) ≤ ftSegmentSize := by
    simp only [createPuts, List.forall_mem_append, List.forall_mem_singleton]
    exact ⟨fun hputs => hputs.2, fun hput => ⟨⟨hcmap, hentries⟩, hput⟩⟩
  rw [hcleared]
  by_cases hempty : table.volumes = []
  · -- an empty list has a count of zero: all of the buffer is cleared, from the second entry on
    have hcount : table.eom.count = 0 := by rw [h.count, places, hempty]; rfl
    rw [hcount, hempty]
    exact ⟨fun hle => absurd hle (by decide), fun hle => absurd rfl hle.1⟩
  · have hcount : table.eom.count * vtblSize ≤ ftSegmentSize :=
      h.count ▸ h.spaced.trans h.nextOffset_le
    rw [h.last_corrected hempty]
    constructor
    · intro hle
      exact ⟨hempty, by omega⟩
    · intro hle
      have hnext := hle.2
      omega

/-- In every run from any volume table segment, writing the volume table stays in the buffer exactly
when the list has volumes, and no entry of another kind stands in front of the last one. -/
theorem Device.createPuts_inBuffer (cartridge : Cartridge) (buffer : ℕ → Byte) (ops : List Operation) :
    let device := ops.foldl (Device.exec cartridge) (zftReadVolumeTable cartridge buffer)
    (∀ put ∈ createPuts cartridge device.table device.buffer, InBuffer put) ↔
      device.table.volumes ≠ [] ∧ device.table.nextOffset ≤ device.table.eom.count * vtblSize :=
  (Device.run_laid cartridge (zftExtractVolumeHeaders_laid cartridge buffer) ops).puts_inBuffer
    cartridge _

/-- A QIC-80 cartridge. -/
def qic80Cartridge : Cartridge where
  bigEndian := false
  formatCode := .fmtNormal
  firstDataSegment := 2
  lastDataSegment := 149
  capacity := 4395008
  blkSz := 10240
  vtblSz := ftSegmentSize
  calcTapePos segment := (segment - 2) * ftSegmentSize
  segSz _ := ftSegmentSize

/-- Writing the table of a blank cartridge clears the 128 bytes behind the buffer. -/
theorem Device.createPuts_blank : ¬∀ put ∈ createPuts qic80Cartridge
    (zftReadVolumeTable qic80Cartridge fun _ => 0).table fun _ => 0, InBuffer put := by
  decide +kernel

end Ftape.Volume
