import Ftape.Volume.Positioning
import Ftape.Volume.RoundTrip
import Ftape.Zftape.ReadInside

/-!
# Lookups of a session

The commands of a session leave the position at the start of a node, at a place that was computed from the sizes of the
segments, or where reading left it. So in a table that can be searched all lookups are made at positions
up to the end of `zft_eom_vtbl`, start at a node of the list, and find what they look for.
-/

namespace Ftape.Volume

open Ftape.Algebra Ftape.Write Ftape.Zftape

variable {α : Type}

/-- The device keeps its volume table and caches a node of the list, and the tape ends with the last data segment. -/
structure Tracks (table : Vtbl) (zftape : Reader α) : Prop where
  qicMode : zftape.qicMode = true
  table_eq : zftape.table = table.volumeTable
  curVtbl : zftape.curVtbl < table.entries.length
  data : zftape.firstDataSegment ≤ zftape.lastDataSegment + 1
  media : table.eom.startSeg ≤ table.eom.endSeg
  eom : table.eom.endSeg = zftape.lastDataSegment + 1
  unsigned : zftape.lastDataSegment < 0x100000000
  unreadable : ∀ s, zftape.lastDataSegment < s → ∃ errno, zftape.readSegment s = .error errno
  capacity : 0 ≤ zftape.capacity

/-- The device stands on the tape. -/
structure Stands (table : Vtbl) (zftape : Reader α) : Prop extends Tracks table zftape where
  onTape : zftape.OnTape

/-- The device stands on the tape, and nothing is left in the deblock buffer to hand out. -/
structure Rests (table : Vtbl) (zftape : Reader α) : Prop extends Tracks table zftape where
  segPos : zftape.pos.segPos ≤ zftape.lastDataSegment + 1
  byte : 0 ≤ zftape.pos.segBytePos
  room : zftape.pos.segBytePos ≤ zftape.zftGetSegSz zftape.pos.segPos
  held : ∀ s, zftape.deblockSegment = some s → s ≤ zftape.lastDataSegment
  drained : zftape.bufLenRd = 0

/-- A device that tracks its table knows where the tape ends. -/
theorem Tracks.ends {table : Vtbl} {zftape : Reader α} (h : Tracks table zftape) : zftape.Ends := by
  refine ⟨h.data, ?_, h.unreadable⟩
  rw [Reader.mediaEnd, if_pos h.qicMode, h.table_eq, ← h.eom]
  exact h.media

/-- A device at rest stands on the tape. -/
theorem Rests.stands {table : Vtbl} {zftape : Reader α} (h : Rests table zftape) : Stands table zftape :=
  ⟨h.toTracks, ⟨⟨h.byte, Or.inl ⟨h.drained, h.room⟩⟩, ⟨h.segPos, h.held⟩, fun hpending => absurd h.drained hpending⟩⟩

/-- The lookups of a call start at nodes of the list, at positions up to the end of `zft_eom_vtbl`, and it leaves the
list exactly if one of them is not stopped there. -/
abbrev Sound {β : Type} (table : Vtbl) (call : Call β) (post : β → Prop) : Prop :=
  call.Meets (fun lookup => lookup.cur < table.entries.length ∧ lookup.segPos ≤ table.eom.endSeg) table.Reaches
    .listLeft post

/-- A lookup caches the node it ends at, and changes nothing else. -/
theorem sound_zftVolumeBySegpos {table : Vtbl} {zftape : Reader α} (h : Tracks table zftape) {segPos : ℕ}
    (hsegPos : segPos ≤ table.eom.endSeg) :
    Sound table (zftVolumeBySegpos table zftape segPos) fun found =>
      table.volumeBySegpos zftape.curVtbl segPos = some found.2 ∧
        found.1 = { zftape with curVtbl := found.2 } := by
  have hreaches := table.volumeBySegpos_isSome ⟨zftape.curVtbl, segPos⟩
  have hasks : ∀ lookup ∈ [Lookup.mk zftape.curVtbl segPos],
      lookup.cur < table.entries.length ∧ lookup.segPos ≤ table.eom.endSeg := by
    intro lookup hlookup
    rw [List.mem_singleton.mp hlookup]
    exact ⟨h.curVtbl, hsegPos⟩
  rw [zftVolumeBySegpos]
  dsimp only at hreaches
  split
  · rename_i cur hcur
    rw [hcur] at hreaches
    refine ⟨hasks, ?_, ?_⟩
    · constructor
      · intro hstop
        cases hstop
      · rintro ⟨lookup, hlookup, hopen⟩
        rw [List.mem_singleton.mp hlookup] at hopen
        exact absurd (hreaches.mp rfl) hopen
    · intro found hfound
      cases hfound
      exact ⟨hcur, rfl⟩
  · rename_i hnone
    rw [hnone] at hreaches
    refine ⟨hasks, ?_, ?_⟩
    · constructor
      · intro _
        exact ⟨_, List.mem_singleton_self _, fun hr => absurd (hreaches.mpr hr) Bool.false_ne_true⟩
      · intro _
        rfl
    · intro found hfound
      cases hfound

/-- Divisions look nothing up, and lead to no negative numbers. -/
theorem sound_zftDivBlksz (table : Vtbl) (value : ℤ) (blkSz : ℕ) :
    Sound table (zftDivBlksz value blkSz) fun blocks => 0 ≤ value → 0 ≤ blocks := by
  rw [zftDivBlksz]
  split_ifs
  · exact .pure id
  · exact .halt (by decide)
  · exact .pure fun _ => Int.ediv_nonneg (Int.emod_nonneg _ (by decide)) (Int.natCast_nonneg _)

/-- Counting blocks looks nothing up. -/
theorem sound_zftBlkOffs (table : Vtbl) (volume : ℕ) :
    Sound table (zftBlkOffs table volume) fun _ => True := by
  rw [zftBlkOffs]
  generalize table.volumes.take volume = volumes
  induction volumes with
  | nil => exact .pure trivial
  | cons v rest ih =>
    refine (sound_zftDivBlksz table _ _).bind fun blocks _ => ?_
    refine ih.bind fun offset _ => ?_
    exact .pure trivial

/-- The number of the block the tape stands at needs no lookup. -/
theorem sound_blockPosition (table : Vtbl) (zftape : Reader α) (volume : ℕ) :
    Sound table (blockPosition table zftape volume) fun _ => True := by
  refine (sound_zftDivBlksz table _ _).bind fun blocks _ => ?_
  refine (sound_zftBlkOffs table volume).bind fun offset _ => ?_
  exact .pure trivial

/-- Finding the volume of a block looks no segment up. -/
theorem sound_zftVolumeByBlkpos (table : Vtbl) (blkPos : ℤ) :
    Sound table (zftVolumeByBlkpos table blkPos) fun _ => True := by
  rw [zftVolumeByBlkpos]
  generalize table.entries = volumes, (0 : ℕ) = i, (0 : ℤ) = offset
  induction volumes generalizing i offset with
  | nil => exact .pure trivial
  | cons v rest ih =>
    refine (sound_zftDivBlksz table _ _).bind fun blocks _ => ?_
    split_ifs
    · exact ih _ _
    · exact .pure trivial

/-- Finding the block to seek looks no segment up. -/
theorem sound_newPos (table : Vtbl) (zftape : Reader α) (volume : ℕ) (blocks : ℤ) (direction : SeekDirection) :
    Sound table (direction.newPos table zftape volume blocks) fun _ => True := by
  cases direction with
  | absolute => exact .pure trivial
  | backwards =>
    refine (sound_blockPosition table zftape volume).bind fun oldPos _ => ?_
    exact .pure trivial
  | forward =>
    refine (sound_blockPosition table zftape volume).bind fun oldPos _ => ?_
    exact .pure trivial

/-- The place the loop over the segments comes to: behind the segment that takes the position below zero. -/
theorem segByteCoordLoop_within (zftape : Reader α) {left segment : ℕ} {tapePos segSz : ℤ}
    (h : tapePos < 0 → ∃ k, segment = k + 1 ∧ segSz = zftape.zftGetSegSz k ∧ 0 < tapePos + segSz) :
    let coord := segByteCoordLoop zftape left segment tapePos segSz
    coord.1 ≤ segment + left ∧ (coord.2.1 < 0 →
      ∃ k, coord.1 = k + 1 ∧ coord.2.2 = zftape.zftGetSegSz k ∧ 0 < coord.2.1 + coord.2.2) := by
  induction left generalizing segment tapePos segSz with
  | zero => exact ⟨le_rfl, h⟩
  | succ left ih =>
    rw [segByteCoordLoop]
    by_cases hpos : 0 < tapePos
    · rw [if_pos hpos]
      obtain ⟨hle, hplace⟩ := @ih (segment + 1) (tapePos - zftape.zftGetSegSz segment) (zftape.zftGetSegSz segment)
        fun _ => ⟨segment, rfl, rfl, by omega⟩
      exact ⟨by omega, hplace⟩
    · rw [if_neg hpos]
      exact ⟨Nat.le_add_right _ _, h⟩

/-- The coordinates of a position on the tape lie in a segment of it, or behind the last one. -/
theorem zftCalcSegByteCoord_within (zftape : Reader α) (hends : zftape.Ends)
    (hunsigned : zftape.lastDataSegment < 0x100000000) {tapePos : ℤ} (htapePos : 0 ≤ tapePos) :
    (zftCalcSegByteCoord zftape tapePos).1 ≤ zftape.lastDataSegment + 1 ∧
      0 ≤ (zftCalcSegByteCoord zftape tapePos).2 ∧
      (zftCalcSegByteCoord zftape tapePos).2 ≤ zftape.zftGetSegSz (zftCalcSegByteCoord zftape tapePos).1 := by
  have hfirst : zftape.zftFirstSegment ≤ zftape.lastDataSegment + 1 := by
    rw [Reader.zftFirstSegment]
    split_ifs
    · exact Nat.zero_le _
    · exact hends.data
  rw [zftCalcSegByteCoord]
  split_ifs with hzero
  · exact ⟨hfirst, le_rfl, Int.natCast_nonneg _⟩
  obtain ⟨hle, hplace⟩ := @segByteCoordLoop_within _ zftape (zftape.lastDataSegment + 1 - zftape.zftFirstSegment)
    zftape.zftFirstSegment tapePos 0 fun hneg => absurd htapePos (Int.not_le.mpr hneg)
  generalize segByteCoordLoop zftape (zftape.lastDataSegment + 1 - zftape.zftFirstSegment)
    zftape.zftFirstSegment tapePos 0 = coord at hle hplace ⊢
  obtain ⟨segment, rest, segSz⟩ := coord
  dsimp only at hle hplace ⊢
  split_ifs with hrest
  · exact ⟨by dsimp only; omega, le_rfl, Int.natCast_nonneg _⟩
  · obtain ⟨k, rfl, rfl, hpos⟩ := hplace (Int.lt_of_not_ge hrest)
    have hk : Header.uint (k + 1 + 0xffffffff) = k := by
      rw [Header.uint]
      omega
    dsimp only
    rw [hk]
    omega

/-- The position of a device that stands on the tape is one to look up. -/
theorem Stands.segPos_le {table : Vtbl} {zftape : Reader α} (h : Stands table zftape) :
    zftape.pos.segPos ≤ table.eom.endSeg := by
  rw [h.eom]
  exact h.onTape.inside.segPos

/-- A lookup at the position leaves the device where it stands. -/
theorem Stands.zftVolumeBySegpos {table : Vtbl} {zftape : Reader α} (h : Stands table zftape) :
    Sound table (zftVolumeBySegpos table zftape zftape.pos.segPos) fun found => Stands table found.1 := by
  refine (sound_zftVolumeBySegpos h.toTracks h.segPos_le).mono ?_
  rintro ⟨found, cur⟩ ⟨hcur, hfound⟩
  dsimp only at hcur hfound ⊢
  rw [hfound]
  exact { h with
    curVtbl := Vtbl.volumeBySegpos_lt hcur
    onTape := h.onTape.congr rfl rfl rfl rfl rfl fun _ => rfl }

/-- A lookup at the position leaves a device at rest. -/
theorem Rests.zftVolumeBySegpos {table : Vtbl} {zftape : Reader α} (h : Rests table zftape) :
    Sound table (zftVolumeBySegpos table zftape zftape.pos.segPos) fun found => Rests table found.1 := by
  refine (sound_zftVolumeBySegpos h.toTracks h.stands.segPos_le).mono ?_
  rintro ⟨found, cur⟩ ⟨hcur, hfound⟩
  dsimp only at hcur hfound ⊢
  rw [hfound]
  exact { h with curVtbl := Vtbl.volumeBySegpos_lt hcur }

section Commands

variable {table : Vtbl} {zftape : Reader α} (hsearch : table.Searchable)
include hsearch

/-- The start of a node is a place on the tape. -/
theorem Tracks.node_le (h : Tracks table zftape) (i : ℕ) :
    (table.node i).startSeg ≤ zftape.lastDataSegment + 1 ∧ 0 ≤ (table.node i).size := by
  rw [← h.eom]
  have hnode : table.node i ∈ table.entries := by
    rw [Vtbl.node, List.getD_eq_getElem?_getD]
    cases hi : table.entries[i]? with
    | none => exact List.mem_append_right _ List.mem_cons_self
    | some v => exact List.mem_of_getElem? hi
  exact ⟨hsearch.inside _ hnode, hsearch.size _ hnode⟩

/-- Going back to the first volume comes to rest there. -/
theorem Tracks.zftResetPosition (h : Tracks table zftape) :
    Sound table (zftResetPosition table zftape) (Rests table) := by
  refine (sound_zftVolumeBySegpos h (Nat.zero_le _)).bind ?_
  rintro ⟨found, volume⟩ ⟨hcur, hfound⟩
  dsimp only at hcur hfound ⊢
  refine .pure ?_
  rw [hfound]
  exact { h with
    curVtbl := Vtbl.volumeBySegpos_lt hcur
    segPos := (h.node_le hsearch volume).1
    byte := le_rfl
    room := Int.natCast_nonneg _
    held := nofun
    drained := rfl }

/-- Skipping volumes comes to rest at the start of one. -/
theorem Rests.zftSkipVolumes (h : Rests table zftape) (count : ℤ) :
    Sound table (zftSkipVolumes table zftape count) fun skipped => Rests table skipped.1 := by
  refine h.zftVolumeBySegpos.bind ?_
  rintro ⟨found, volume⟩ hfound
  refine .pure ?_
  exact { hfound with
    segPos := (hfound.node_le hsearch _).1
    byte := le_rfl
    room := Int.natCast_nonneg _
    held := nofun
    drained := rfl }

omit hsearch in
/-- Stepping back in front of a file mark stays at rest. -/
theorem Rests.positionBeforeEof (h : Rests table zftape) (volume : VtblEntry) :
    Rests table (positionBeforeEof zftape volume) := by
  rw [Volume.positionBeforeEof, Reader.zftPositionBeforeEof]
  split_ifs
  · exact { h with
      segPos := Nat.le_trans (Nat.sub_le _ _) h.segPos
      byte := Int.natCast_nonneg _
      room := le_rfl }
  · exact { h with }

omit hsearch in
/-- The position of a segment is not negative. -/
theorem Tracks.zftCalcTapePos_nonneg (h : Tracks table zftape) (segment : ℤ) : 0 ≤ zftCalcTapePos zftape segment := by
  rw [zftCalcTapePos]
  split_ifs
  · exact h.capacity
  · exact Int.natCast_nonneg _

omit hsearch in
/-- The number of a block leads to a position that is not negative. -/
theorem zftMulBlksz_nonneg {value : ℤ} (hvalue : 0 ≤ value) (blkSz : ℕ) : 0 ≤ zftMulBlksz value blkSz := by
  rw [zftMulBlksz]
  split_ifs
  · exact hvalue
  · exact Int.emod_nonneg _ (by omega)

omit hsearch in
/-- Moving to a place on the tape, in front of the file mark of a volume if it is there, stays at rest. -/
theorem Rests.movedTo (h : Rests table zftape) (volume : VtblEntry) {coord : ℕ × ℤ} (volumePos tapePos : ℤ)
    (hcoord : coord.1 ≤ zftape.lastDataSegment + 1 ∧ 0 ≤ coord.2 ∧ coord.2 ≤ zftape.zftGetSegSz coord.1) :
    Rests table (if volume.size = volumePos then
      Volume.positionBeforeEof
        { zftape with pos := ⟨coord.1, coord.2, volumePos, tapePos⟩, justBeforeEof := true } volume
    else { zftape with pos := ⟨coord.1, coord.2, volumePos, tapePos⟩, justBeforeEof := false }) := by
  obtain ⟨hsegPos, hbyte, hroom⟩ := hcoord
  split_ifs
  · refine Rests.positionBeforeEof ?_ volume
    exact { h with segPos := hsegPos, byte := hbyte, room := hroom }
  · exact { h with segPos := hsegPos, byte := hbyte, room := hroom }

omit hsearch in
/-- Taking the position of a block stays at rest. -/
theorem Rests.takeBlockPos (h : Rests table zftape) (volume : VtblEntry) {newBlockPos : ℤ} (hblock : 0 ≤ newBlockPos) :
    Rests table (takeBlockPos zftape volume newBlockPos) := by
  have htapePos : 0 ≤ zftCalcTapePos zftape (Header.int volume.startSeg) + zftMulBlksz newBlockPos volume.blkSz :=
    Int.add_nonneg (h.zftCalcTapePos_nonneg _) (zftMulBlksz_nonneg hblock _)
  rw [Volume.takeBlockPos]
  exact h.movedTo volume _ _ (zftCalcSegByteCoord_within zftape h.ends h.unsigned htapePos)

/-- Seeking a block in a volume stays at rest. -/
theorem Rests.seekBlockInVolume (h : Rests table zftape) (blockIncrement : ℤ) :
    Sound table (seekBlockInVolume table zftape blockIncrement) fun seeked => Rests table seeked.1 := by
  refine h.zftVolumeBySegpos.bind ?_
  rintro ⟨found, volume⟩ hfound
  dsimp only
  split_ifs
  · exact .pure hfound
  · refine (sound_zftDivBlksz table _ _).bind fun dataBlocks _ => ?_
    refine (sound_zftDivBlksz table _ _).bind fun volBlockCount hcount => ?_
    refine (sound_zftDivBlksz table _ _).bind fun arrived _ => ?_
    have hblock : 0 ≤ (if dataBlocks + blockIncrement < 0 then 0 else
        if volBlockCount < dataBlocks + blockIncrement then volBlockCount else dataBlocks + blockIncrement) := by
      have hblocks := hcount (hfound.node_le hsearch volume).2
      split_ifs
      · exact le_rfl
      · exact hblocks
      · omega
    have htaken := hfound.takeBlockPos (table.node volume) hblock
    exact .pure { htaken with }

/-- Seeking a block behind the first one stays at rest. -/
theorem Rests.seekNewPos (h : Rests table zftape) (newPos : ℤ) :
    Sound table (seekNewPos table zftape newPos) fun seeked => Rests table seeked.1 := by
  refine (sound_zftVolumeByBlkpos table newPos).bind ?_
  rintro ⟨i, offset⟩ -
  dsimp only
  refine (sound_zftDivBlksz table _ _).bind fun volBlocks _ => ?_
  have hstart : Rests table { zftape with pos := startOf zftape (table.node i) } :=
    { h with segPos := (h.node_le hsearch i).1, byte := le_rfl, room := Int.natCast_nonneg _ }
  have hinside : Sound table (if newPos ≤ offset + volBlocks then
      Volume.seekBlockInVolume table { zftape with pos := startOf zftape (table.node i) } (newPos - offset)
      else pure ({ zftape with pos := startOf zftape (table.node i) }, .ok ()))
      fun seeked => Rests table seeked.1 := by
    split_ifs
    · exact hstart.seekBlockInVolume hsearch _
    · exact .pure hstart
  refine hinside.bind ?_
  rintro ⟨seeked, result⟩ hseeked
  dsimp only
  refine (sound_zftDivBlksz table _ _).bind fun arrived _ => ?_
  exact .pure { hseeked with }

/-- Seeking a block stays at rest. -/
theorem Rests.seekBlock (h : Rests table zftape) (direction : SeekDirection) (blocks : ℤ) :
    Sound table (seekBlock table zftape direction blocks) fun seeked => Rests table seeked.1 := by
  refine h.zftVolumeBySegpos.bind ?_
  rintro ⟨found, volume⟩ hfound
  refine (sound_newPos table found volume blocks direction).bind fun target _ => ?_
  by_cases htarget : target ≤ 0
  · rw [if_pos htarget]
    refine (hfound.toTracks.zftResetPosition hsearch).bind fun reset hreset => ?_
    exact .pure { hreset with }
  · rw [if_neg htarget]
    exact hfound.seekNewPos hsearch target

/-- Moving in front of a file mark stays at rest. -/
theorem Rests.fsfbsfm (h : Rests table zftape) (arg : ℤ) :
    Sound table (fsfbsfm table zftape arg) fun moved => Rests table moved.1 := by
  by_cases harg : arg = 0
  · rw [Volume.fsfbsfm, if_pos harg]
    exact .pure h
  · rw [Volume.fsfbsfm, if_neg harg]
    have hmark : Rests table { zftape with justBeforeEof := false } :=
      { h with }
    refine (hmark.zftSkipVolumes hsearch _).bind ?_
    rintro ⟨skipped, result⟩ hskipped
    cases result with
    | error errno => exact .pure { hskipped with }
    | ok _ =>
      refine hskipped.zftVolumeBySegpos.bind ?_
      rintro ⟨found, volume⟩ hfound
      refine (sound_zftDivBlksz table _ _).bind fun blockPos _ => ?_
      refine (hfound.seekBlockInVolume hsearch _).bind ?_
      rintro ⟨seeked, _⟩ hseeked
      dsimp only
      split_ifs
      · exact .pure { hseeked with }
      · exact .pure { hseeked with }

omit hsearch in
/-- Telling the position leaves the device where it stands. -/
theorem Stands.mtTell (h : Stands table zftape) :
    Sound table (mtTell table zftape) fun told => Stands table told.1 := by
  refine h.zftVolumeBySegpos.bind ?_
  rintro ⟨found, volume⟩ hfound
  refine (sound_blockPosition table found volume).bind fun block _ => ?_
  exact .pure hfound

omit hsearch in
/-- Entering the idle state comes to rest. -/
theorem Stands.zftDefIdleState (h : Stands table zftape) : Rests table (zftDefIdleState zftape) :=
  { h with
    segPos := h.onTape.inside.segPos
    byte := h.onTape.sound.byte
    room := by
      have hbuffer := h.onTape.sound.buffer
      change zftape.pos.segBytePos ≤ (zftape.zftGetSegSz zftape.pos.segPos : ℤ)
      omega
    held := h.onTape.inside.held
    drained := rfl }

/-- The commands stay at rest. -/
theorem Rests.function (h : Rests table zftape) (arg : ℤ) (mtOp : MtOp) :
    Sound table (mtOp.function table zftape arg) fun moved => Rests table moved.1 := by
  cases mtOp with
  | mtFsf =>
    refine (h.zftSkipVolumes hsearch arg).bind ?_
    rintro ⟨skipped, result⟩ hskipped
    exact .pure { hskipped with }
  | mtBsf =>
    simp only [MtOp.function, mtBsf]
    split_ifs
    · exact h.zftSkipVolumes hsearch _
    · exact .pure h
  | mtFsr => exact h.seekBlock hsearch _ _
  | mtBsr => exact h.seekBlock hsearch _ _
  | mtRew =>
    refine (h.stands.zftDefIdleState.toTracks.zftResetPosition hsearch).bind fun reset hreset => ?_
    exact .pure hreset
  | mtBsfm => exact h.fsfbsfm hsearch _
  | mtFsfm => exact h.fsfbsfm hsearch _
  | mtEom =>
    have heom : table.eom.startSeg ≤ zftape.lastDataSegment + 1 := by
      rw [← h.eom]
      exact hsearch.inside _ (List.mem_append_right _ List.mem_cons_self)
    exact .pure { h with segPos := heom, byte := le_rfl, room := Int.natCast_nonneg _ }
  | mtSeek => exact h.seekBlock hsearch _ _

/-- `MTIOCTOP` leaves the device on the tape. -/
theorem Stands.mtioctop (h : Stands table zftape) (mtOp : MtOp) (mtCount : ℤ) :
    Sound table (mtioctop table zftape mtOp mtCount) fun moved => Stands table moved.1 := by
  have hcount : Stands table { zftape with resid := mtCount } :=
    { h with onTape := h.onTape.congr rfl rfl rfl rfl rfl fun _ => rfl }
  rw [Volume.mtioctop]
  dsimp only
  split_ifs
  · exact .pure hcount
  · exact .pure hcount
  · refine (hcount.zftDefIdleState.function hsearch mtCount mtOp).bind ?_
    rintro ⟨moved, result⟩ hmoved
    refine .pure ?_
    dsimp only
    split_ifs
    · exact Rests.stands { hmoved with }
    · exact hmoved.stands

omit hsearch in
/-- `MTIOCGET` leaves the device where it stands. -/
theorem Stands.mtiocget (h : Stands table zftape) :
    Sound table (mtiocget table zftape) fun told => Stands table told.1 := by
  rw [Volume.mtiocget]
  split_ifs
  · exact .pure h
  · refine h.zftVolumeBySegpos.bind ?_
    rintro ⟨found, volume⟩ hfound
    refine hfound.mtTell.bind ?_
    rintro ⟨told, block⟩ htold
    exact .pure htold

omit hsearch in
/-- `MTIOCVOLINFO` leaves the device where it stands. -/
theorem Stands.mtiocVolinfo (h : Stands table zftape) :
    Sound table (mtiocVolinfo table zftape) fun told => Stands table told.1 := by
  rw [Volume.mtiocVolinfo]
  split_ifs
  · exact .pure h
  · exact .pure h
  · refine h.zftDefIdleState.zftVolumeBySegpos.bind ?_
    rintro ⟨found, volume⟩ hfound
    exact .pure hfound.stands

end Commands

section Reading

variable {table : Vtbl} {zftape : Reader α}

/-- What reading moves is not what tracks the table. -/
theorem Tracks.moved (h : Tracks table zftape) {zftape' : Reader α} (hmoved : zftape.Moved zftape') :
    Tracks table zftape' := by
  obtain ⟨_, _, _, _, _, rfl⟩ := hmoved
  exact { h with }

/-- Clipping a request keeps track of the table. -/
theorem Tracks.clipRequest (h : Tracks table zftape) (reqLen : ℤ) :
    Tracks table (zftape.clipRequest reqLen).1 := by
  rw [Reader.clipRequest]
  dsimp only
  split_ifs
  · exact h
  · exact { h with }
  · exact { h with }

/-- `check_read_access()` keeps track of the table if its lookup stays in the list. -/
theorem Tracks.checkReadAccess (h : Tracks table zftape)
    (hfound : LooksUp zftape → ∃ i, table.volumeBySegpos zftape.curVtbl zftape.pos.segPos = some i)
    (reqLen : ℤ) : Tracks table (zftape.checkReadAccess reqLen).1 := by
  by_cases hstate : zftape.ioState = .reading
  · rw [Reader.checkReadAccess, if_neg (not_not.mpr hstate)]
    dsimp only
    split_ifs
    · exact { h with }
    · exact { h with }
    · exact h.clipRequest reqLen
  · rw [Reader.checkReadAccess, if_pos hstate]
    split_ifs with hoffline hformatted
    · exact h
    · exact h
    dsimp only
    split_ifs with hend
    · exact { h with }
    · obtain ⟨i, hi⟩ := hfound ⟨hstate, Bool.eq_false_of_not_eq_true hoffline,
        Bool.eq_true_of_not_eq_false hformatted, Bool.eq_false_of_not_eq_true hend⟩
      have hlookup : Reader.zftVolumeBySegpos { zftape with bufLenRd := 0, ioState := .reading }
          zftape.pos.segPos = (i, (table.entries.getD i table.eom).toVolinfo) :=
        Vtbl.zftVolumeBySegpos_eq h.qicMode h.table_eq hi
      rw [hlookup]
      apply clipRequest
      exact { h with curVtbl := Vtbl.volumeBySegpos_lt hi }

/-- The end of a file keeps track of the table. -/
theorem Tracks.atEof (h : Tracks table zftape) (bytesRead : ℕ) : Tracks table (zftape.atEof bytesRead) := by
  rw [Reader.atEof, Reader.zftPositionBeforeEof]
  split_ifs
  · exact { h with }
  · exact { h with }
  · exact { h with }

/-- `_zft_read()` keeps track of the table if its lookup stays in the list. -/
theorem Tracks.readerZftRead (h : Tracks table zftape)
    (hfound : LooksUp zftape → ∃ i, table.volumeBySegpos zftape.curVtbl zftape.pos.segPos = some i)
    (kernel : Kernel α) (reqLen : ℤ) : Tracks table (zftape.zftRead kernel reqLen).1 := by
  have hresid : Tracks table { zftape with resid := reqLen } := { h with }
  have haccess := hresid.checkReadAccess hfound reqLen
  rw [Reader.zftRead]
  split
  · rename_i after errno heq
    rwa [heq] at haccess
  · rename_i after heq
    rwa [heq] at haccess
  · rename_i after len clipped heq
    rw [heq] at haccess
    have hloop := haccess.moved (after.readLoop_moved kernel (len.toNat + 1) len)
    split
    · rename_i rest errno hrest
      rwa [hrest] at hloop
    · rename_i rest bytes hrest
      rw [hrest] at hloop
      dsimp only
      split_ifs
      · exact hloop.atEof _
      · exact hloop

/-- Reading leaves the device on the tape. -/
theorem Stands.zftRead (h : Stands table zftape) (kernel : Kernel α) (reqLen : ℤ) :
    Sound table (zftRead kernel table zftape reqLen) fun read => Stands table read.1 := by
  rw [Volume.zftRead]
  by_cases hlooks : LooksUp zftape
  · rw [if_pos hlooks]
    refine (sound_zftVolumeBySegpos h.toTracks h.segPos_le).bind ?_
    rintro ⟨found, volume⟩ ⟨hfound, -⟩
    dsimp only
    split_ifs
    · exact .halt (by decide)
    · exact .pure ⟨h.toTracks.readerZftRead (fun _ => ⟨volume, hfound⟩) kernel reqLen, h.onTape.zftRead h.ends reqLen⟩
  · rw [if_neg hlooks]
    split_ifs
    · exact .halt (by decide)
    · exact .pure ⟨h.toTracks.readerZftRead (fun hl => absurd hl hlooks) kernel reqLen, h.onTape.zftRead h.ends reqLen⟩

end Reading

section Runs

variable {table : Vtbl} {zftape : Reader α}

/-- A request leaves the device on the tape. -/
theorem Stands.exec (hsearch : table.Searchable) (h : Stands table zftape) (kernel : Kernel α) (request : Request) :
    Sound table (request.exec kernel table zftape) (Stands table) := by
  cases request with
  | mtop mtOp mtCount =>
    refine (h.mtioctop hsearch mtOp mtCount).bind ?_
    rintro ⟨after, result⟩ hafter
    exact .pure hafter
  | get =>
    refine h.mtiocget.bind ?_
    rintro ⟨after, told⟩ hafter
    exact .pure hafter
  | volinfo =>
    refine h.mtiocVolinfo.bind ?_
    rintro ⟨after, told⟩ hafter
    exact .pure hafter
  | read reqLen =>
    refine (h.zftRead kernel reqLen).bind ?_
    rintro ⟨after, bytes⟩ hafter
    exact .pure hafter

/-- So do requests one after the other. -/
theorem Stands.execRequests (hsearch : table.Searchable) (h : Stands table zftape) (kernel : Kernel α)
    (requests : List Request) : Sound table (execRequests kernel table requests zftape) (Stands table) := by
  induction requests generalizing zftape with
  | nil => exact .pure h
  | cons request requests ih =>
    refine (h.exec hsearch kernel request).bind fun after hafter => ?_
    exact ih hafter

/-- Reading the entries leaves the end of `zft_eom_vtbl` behind the tape. -/
theorem extractLoop_eom (cartridge : Cartridge) (buffer : ℕ → Byte) (rounds entry : ℕ) (table : Vtbl) :
    (extractLoop cartridge buffer rounds entry table).eom.endSeg = table.eom.endSeg := by
  induction rounds generalizing entry table with
  | zero => rfl
  | succ rounds ih =>
    rw [extractLoop]
    split_ifs
    · rfl
    · exact ih _ _
    · exact ih _ _
    · rfl

/-- `zft_eom_vtbl` ends behind the last data segment. -/
theorem zftExtractVolumeHeaders_eom (cartridge : Cartridge) (buffer : ℕ → Byte) :
    (zftExtractVolumeHeaders cartridge buffer).eom.endSeg = cartridge.lastDataSegment + 1 :=
  extractLoop_eom cartridge buffer _ _ _

/-- A tape that ends with its last data segment. -/
structure Cartridge.Ends (cartridge : Cartridge) (readSegment : ℕ → Except Errno (ℕ → α)) : Prop where
  data : cartridge.firstDataSegment ≤ cartridge.lastDataSegment + 1
  unsigned : cartridge.lastDataSegment < 0x100000000
  capacity : 0 ≤ cartridge.capacity
  unreadable : ∀ s, cartridge.lastDataSegment < s → ∃ errno, readSegment s = .error errno

/-- The device starts at a node of the list. -/
theorem withVtbl_tracks {cartridge : Cartridge} {buffer : ℕ → Byte} {zftape : Reader α}
    (hsearch : (zftExtractVolumeHeaders cartridge buffer).Searchable) (hends : cartridge.Ends zftape.readSegment) :
    Tracks (zftExtractVolumeHeaders cartridge buffer)
      (withVtbl cartridge (zftExtractVolumeHeaders cartridge buffer) zftape) where
  qicMode := rfl
  table_eq := rfl
  curVtbl := by
    rw [Vtbl.entries, List.length_append]
    exact Nat.lt_succ_self _
  data := hends.data
  media := hsearch.inside _ (List.mem_append_right _ List.mem_cons_self)
  eom := zftExtractVolumeHeaders_eom cartridge buffer
  unsigned := hends.unsigned
  unreadable := hends.unreadable
  capacity := hends.capacity

/-- If the table that was read can be searched and the tape ends with its last data segment, then whatever the requests
of a session are, no lookup leaves the list, each one starts at a node of it, and each one finds a volume that covers
its segment if there is one. -/
theorem session_answers (kernel : Kernel α) {cartridge : Cartridge} {buffer : ℕ → Byte} {zftape : Reader α}
    (hsearch : (zftExtractVolumeHeaders cartridge buffer).Searchable) (hends : cartridge.Ends zftape.readSegment)
    (requests : List Request) :
    let table := zftExtractVolumeHeaders cartridge buffer
    let call := session kernel cartridge buffer zftape requests
    call.result ≠ .error .listLeft ∧
      ∀ lookup ∈ call.queries, lookup.cur < table.entries.length ∧ table.Answers lookup := by
  intro table call
  have hsound : Sound table call (Stands table) := by
    refine ((withVtbl_tracks hsearch hends).zftResetPosition hsearch).bind fun reset hreset => ?_
    exact hreset.stands.execRequests hsearch kernel requests
  constructor
  · intro hstop
    obtain ⟨lookup, hlookup, hopen⟩ := hsound.stops.mp hstop
    obtain ⟨hcur, hend⟩ := hsound.asks lookup hlookup
    exact hopen (table.reaches_of_le hcur hend)
  · intro lookup hlookup
    obtain ⟨hcur, hend⟩ := hsound.asks lookup hlookup
    exact ⟨hcur, (Vtbl.answers_all_iff hend).mpr (hsearch.covered _ hend) lookup.cur hcur⟩

end Runs

/-- A volume table with two volumes. -/
def twoVolumesSegment : ℕ → Byte :=
  let volume (startSeg endSeg offset : ℕ) : VtblEntry :=
    ⟨⟨startSeg, endSeg, 4096, 4096, 1024, false⟩, 0, 0, offset, true, false, false, true⟩
  runPuts (createZftVolume qic80Cartridge 0 (volume 3 10 0) ++
    createZftVolume qic80Cartridge 128 (volume 11 100 128)) fun _ => 0

/-- A reader of a tape with 150 segments. -/
def endedReader : Reader Byte :=
  { sampleReader 0 with readSegment := fun s => if s < 150 then .ok fun _ => 0x5a else .error .eio }

/-- A session that skips to the second volume, reads, seeks a block of the first one and reads again. -/
theorem session_answers_two :
    let table := zftExtractVolumeHeaders qic80Cartridge twoVolumesSegment
    let call := session sampleKernel qic80Cartridge twoVolumesSegment endedReader
      [.mtop .mtFsf 1, .read 1024, .get, .mtop .mtSeek 2, .read 2048, .volinfo]
    call.result ≠ .error .listLeft ∧
      ∀ lookup ∈ call.queries, lookup.cur < table.entries.length ∧ table.Answers lookup := by
  have hordered : (zftExtractVolumeHeaders qic80Cartridge twoVolumesSegment).Ordered :=
    ⟨by decide +kernel, by decide +kernel⟩
  have hends : qic80Cartridge.Ends endedReader.readSegment :=
    ⟨by decide, by decide, by decide, fun s hs => ⟨.eio, if_neg (Nat.not_lt.mpr hs)⟩⟩
  exact session_answers sampleKernel (hordered.searchable (by decide +kernel)) hends _

/-- A volume table with two volumes, the second of which ends in front of its start. -/
def invertedVolumeSegment : ℕ → Byte :=
  let volume (startSeg endSeg offset : ℕ) : VtblEntry :=
    ⟨⟨startSeg, endSeg, 1024, 1024, 1024, false⟩, 0, 0, offset, true, false, false, true⟩
  runPuts (createZftVolume qic80Cartridge 0 (volume 3 10 0) ++
    createZftVolume qic80Cartridge 128 (volume 200 100 128)) fun _ => 0

/-- The volume table passes for a sound one, but skipping to the second volume makes the next lookup
leave the list. -/
theorem session_leaves_list :
    let table := zftExtractVolumeHeaders qic80Cartridge invertedVolumeSegment
    let call := session sampleKernel qic80Cartridge invertedVolumeSegment (sampleReader 0)
      [.mtop .mtFsf 1, .get]
    table.vtblBroken = false ∧
      ∃ lookup ∈ call.queries, table.volumeBySegpos lookup.cur lookup.segPos = none := by
  decide +kernel

end Ftape.Volume
