import Ftape.Isr.Transfer

/-!
# Cursors of a transfer

Five cursors say how far a segment is read: the sector, the sectors that remain, the good sectors so
far, the address and the map of the rest. They agree after a setup, and finding the next cluster of
good sectors keeps them in agreement.
-/

namespace Ftape.Isr

open Ftape.Write

/-- The number of good sectors in front of a sector. -/
def goodBelow (map : SectorMap) (sector : ℕ) : ℕ := Nat.count (map.getLsbD · = false) sector

/-- A good sector counts. -/
theorem goodBelow_succ_of_good {map : SectorMap} {sector : ℕ} (h : map.getLsbD sector = false) :
    goodBelow map (sector + 1) = goodBelow map sector + 1 := by
  rw [goodBelow, Nat.count_succ, if_pos h, goodBelow]

/-- A bad sector does not. -/
theorem goodBelow_succ_of_bad {map : SectorMap} {sector : ℕ} (h : map.getLsbD sector = true) :
    goodBelow map (sector + 1) = goodBelow map sector := by
  rw [goodBelow, Nat.count_succ, if_neg (by simp [h]), goodBelow, Nat.add_zero]

/-- A run of good sectors counts as a whole. -/
theorem goodBelow_add_of_good {map : SectorMap} {sector n : ℕ}
    (h : ∀ i, i < n → map.getLsbD (sector + i) = false) :
    goodBelow map (sector + n) = goodBelow map sector + n := by
  induction n with
  | zero => rfl
  | succ n ih =>
    rw [← Nat.add_assoc, goodBelow_succ_of_good (h n (Nat.lt_succ_self n)),
      ih fun i hi => h i (Nat.lt_succ_of_lt hi), Nat.add_assoc]

/-- There are no more good sectors than sectors. -/
theorem goodBelow_le (map : SectorMap) (sector : ℕ) : goodBelow map sector ≤ sector := Nat.count_le _

/-- Good and bad sectors together. -/
theorem goodBelow_add_count (map : SectorMap) (sector : ℕ) :
    goodBelow map sector + Nat.count (map.getLsbD ·) sector = sector := by
  induction sector with
  | zero => rfl
  | succ sector ih =>
    rw [Nat.count_succ]
    cases h : map.getLsbD sector with
    | false =>
      rw [goodBelow_succ_of_good h]
      simp only [Bool.false_eq_true, if_false]
      omega
    | true =>
      rw [goodBelow_succ_of_bad h]
      simp only [if_true]
      omega

/-- The bits of an offset mask. -/
theorem getLsbD_offsetMask {offset : ℕ} (h : offset ≤ 32) (i : ℕ) :
    (offsetMask offset).getLsbD i = decide (i < offset) := by
  have hbits : ∀ offset : Fin 33, ∀ i : Fin 32,
      (offsetMask offset).getLsbD i = decide (i.val < offset.val) := by decide +kernel
  by_cases hi : i < 32
  · exact hbits ⟨offset, by omega⟩ ⟨i, hi⟩
  · rw [BitVec.getLsbD_of_ge _ _ (by omega)]
    exact (decide_eq_false (by omega)).symm

/-- Taking a sector out of an offset mask. -/
theorem offsetMask_shift {offset : ℕ} (h : offset ≤ 32) :
    offsetMask offset >>> 1 = offsetMask (offset - 1) := by
  have hshift : ∀ offset : Fin 33, offsetMask offset >>> 1 = offsetMask (offset - 1 : ℕ) := by
    decide +kernel
  exact hshift ⟨offset, by omega⟩

/-- An offset mask has a bit for each sector. -/
theorem countOnes_offsetMask {offset : ℕ} (h : offset ≤ 32) : countOnes (offsetMask offset) = offset := by
  have hones : ∀ offset : Fin 33, countOnes (offsetMask offset) = offset := by decide +kernel
  exact hones ⟨offset, by omega⟩

/-- Each bad sector takes a sector out of the mask. -/
theorem packMask_offsetMask (rounds : ℕ) {mask : SectorMap} {offset : ℕ} (h : offset ≤ 32) :
    packMask rounds mask (offsetMask offset) =
      offsetMask (offset - Nat.count (mask.getLsbD ·) rounds) := by
  induction rounds generalizing mask offset with
  | zero => rfl
  | succ rounds ih =>
    have hshift : (fun i => (mask >>> 1).getLsbD i = true) = fun i => mask.getLsbD (i + 1) = true := by
      funext i
      rw [BitVec.getLsbD_ushiftRight, Nat.add_comm]
    rw [packMask, Nat.count_succ']
    simp only [← hshift]
    split
    · rw [offsetMask_shift h, ih (by omega)]
      congr 1
      omega
    · rw [ih h, Nat.add_zero]

/-- The mask of `setup_segment()` has a bit for each good sector that is skipped. -/
theorem packMask_eq {entry : SectorMap} {offset : ℕ} (h : offset ≤ 32) :
    packMask 32 (entry &&& offsetMask offset) (offsetMask offset) = offsetMask (goodBelow entry offset) := by
  have hcount : Nat.count ((entry &&& offsetMask offset).getLsbD ·) 32 =
      Nat.count (entry.getLsbD ·) offset := by
    rw [Nat.count_eq_card_filter_range, Nat.count_eq_card_filter_range]
    congr 1
    ext k
    simp only [Finset.mem_filter, Finset.mem_range, BitVec.getLsbD_and, getLsbD_offsetMask h,
      Bool.and_eq_true, decide_eq_true_eq]
    constructor
    · rintro ⟨-, hentry, hk⟩
      exact ⟨hk, hentry⟩
    · rintro ⟨hk, hentry⟩
      exact ⟨Nat.lt_of_lt_of_le hk h, hentry, hk⟩
  rw [packMask_offsetMask 32 h, hcount]
  congr 1
  have := goodBelow_add_count entry offset
  omega

/-- The map the driver goes by: of an empty segment the first sector is faked good. -/
def drivenMap (map : SectorMap) : SectorMap := if map = emptySegment then fakeSegment else map

/-- A map that is not faked is the map of the segment. -/
theorem drivenMap_eq {map : SectorMap} (h : drivenMap map ≠ fakeSegment) : drivenMap map = map := by
  rw [drivenMap] at h ⊢
  split
  · rename_i hempty
    exact absurd (if_pos hempty) h
  · rfl

/-- A sector is flagged as failed, or was moved to its place in the buffer. -/
def Buffer.Covered (map : SectorMap) (buff : Buffer) (sector : ℕ) : Prop :=
  buff.softErrorMap.getLsbD sector = true ∨ buff.hardErrorMap.getLsbD sector = true ∨
    (sector, buff.dmaAddress + goodBelow map sector * ftSectorSize) ∈ buff.moved

/-- The cursors of a buffer agree, and what they passed is covered. A retry may go on at `skip`, where the soft
errors in front of it are kept. -/
structure Buffer.InProgress (map : SectorMap) (buff : Buffer) : Prop where
  sectors : buff.sectorOffset + buff.remaining = 32
  data : buff.dataOffset = goodBelow map buff.sectorOffset
  ptr : buff.ptr = buff.dmaAddress + buff.dataOffset * ftSectorSize
  rest : buff.badSectorMap = drivenMap map >>> buff.sectorOffset
  fake : drivenMap map = fakeSegment → buff.sectorOffset = 0 ∧ buff.skip = 0
  skip : buff.skip ≤ buff.sectorOffset
  soft : ∀ s, buff.softErrorMap.getLsbD s = true →
    (s < buff.skip → s < goodBelow map buff.skip) ∧ s < buff.sectorOffset
  covered : ∀ s, s < buff.sectorOffset → map.getLsbD s = false → buff.Covered map s
  deleted : buff.deleted = false

/-- The sectors of the next transfer are good ones that remain. -/
structure Buffer.Cluster (map : SectorMap) (buff : Buffer) : Prop where
  remaining : buff.sectorCount ≤ buff.remaining
  good : ∀ i, i < buff.sectorCount → (drivenMap map).getLsbD (buff.sectorOffset + i) = false

/-- A map with its first bits shifted out is neither the empty nor the faked one. -/
theorem shift_ne_of_msb {map other : SectorMap} {offset : ℕ} (hoffset : 0 < offset)
    (hother : other.getLsbD 31 = true) : map >>> offset ≠ other := by
  intro h
  rw [← h, BitVec.getLsbD_ushiftRight, BitVec.getLsbD_of_ge _ _ (by omega)] at hother
  cases hother

/-- A faked map is only seen in front of the segment. -/
theorem Buffer.InProgress.fake_iff {map : SectorMap} {buff : Buffer} (h : buff.InProgress map) :
    buff.badSectorMap = fakeSegment ↔ drivenMap map = fakeSegment := by
  rw [h.rest]
  constructor
  · intro hfake
    cases Nat.eq_zero_or_pos buff.sectorOffset with
    | inl hzero => rwa [hzero, BitVec.ushiftRight_zero] at hfake
    | inr hpos => exact absurd hfake (shift_ne_of_msb hpos (by decide))
  · intro hfake
    rw [(h.fake hfake).1, BitVec.ushiftRight_zero, hfake]

/-- The cursors of a buffer agree. -/
structure Buffer.Placed (map : SectorMap) (buff : Buffer) : Prop where
  sectors : buff.sectorOffset + buff.remaining = 32
  data : buff.dataOffset = goodBelow map buff.sectorOffset
  ptr : buff.ptr = buff.dmaAddress + buff.dataOffset * ftSectorSize
  rest : buff.badSectorMap = drivenMap map >>> buff.sectorOffset
  skip : buff.skip ≤ 32
  deleted : buff.deleted = false

/-- A transfer in progress has its cursors in agreement. -/
theorem Buffer.InProgress.placed {map : SectorMap} {buff : Buffer} (h : buff.InProgress map) : buff.Placed map where
  sectors := h.sectors
  data := h.data
  ptr := h.ptr
  rest := h.rest
  skip := by
    have := h.skip
    have := h.sectors
    omega
  deleted := h.deleted

section Maps

variable {map : SectorMap}

/-- Every sector of a segment without good sectors is bad. -/
theorem getLsbD_emptySegment {s : ℕ} (hs : s < 32) : emptySegment.getLsbD s = true := by
  have hbad : ∀ s : Fin 32, emptySegment.getLsbD s = true := by decide
  exact hbad ⟨s, hs⟩

/-- A sector the driver takes for bad is bad. -/
theorem bad_of_driven {s : ℕ} (hs : s < 32) (h : (drivenMap map).getLsbD s = true) : map.getLsbD s = true := by
  rw [drivenMap] at h
  by_cases hempty : map = emptySegment
  · rw [hempty]
    exact getLsbD_emptySegment hs
  · rwa [if_neg hempty] at h

/-- A sector the driver takes for good is good, but for the first one of a faked segment. -/
theorem good_of_driven {offset s : ℕ} (hreal : drivenMap map >>> offset ≠ fakeSegment) (hs : offset ≤ s)
    (h : (drivenMap map).getLsbD s = false) : map.getLsbD s = false := by
  rw [drivenMap] at h hreal
  by_cases hempty : map = emptySegment
  · rw [if_pos hempty] at h hreal
    -- only the first sector is faked, and it was passed
    have hpos : 0 < offset := by
      by_contra hzero
      rw [Nat.eq_zero_of_not_pos hzero, BitVec.ushiftRight_zero] at hreal
      exact hreal rfl
    by_cases h32 : s < 32
    · have hbad : ∀ s : Fin 32, 0 < s.val → fakeSegment.getLsbD s = true := by decide
      rw [hbad ⟨s, h32⟩ (Nat.lt_of_lt_of_le hpos hs)] at h
      cases h
    · exact BitVec.getLsbD_of_ge _ _ (Nat.le_of_not_lt h32)
  · rwa [if_neg hempty] at h

/-- The map of a setup is the rest of the map the driver goes by. -/
theorem setup_rest (map : SectorMap) (offset : ℕ) :
    (if (if 0 < offset then map >>> offset else map) = emptySegment then fakeSegment
      else if 0 < offset then map >>> offset else map) = drivenMap map >>> offset := by
  by_cases hpos : 0 < offset
  · have hmsb : map >>> offset ≠ emptySegment := shift_ne_of_msb hpos (by decide)
    rw [if_pos hpos, if_neg hmsb, drivenMap]
    by_cases hempty : map = emptySegment
    · rw [if_pos hempty, hempty]
      apply BitVec.eq_of_getLsbD_eq
      intro i _
      rw [BitVec.getLsbD_ushiftRight, BitVec.getLsbD_ushiftRight]
      by_cases h32 : offset + i < 32
      · have hbits : ∀ s : Fin 32, 0 < s.val → emptySegment.getLsbD s = fakeSegment.getLsbD s := by decide
        exact hbits ⟨offset + i, h32⟩ (Nat.lt_of_lt_of_le hpos (Nat.le_add_right _ _))
      · rw [BitVec.getLsbD_of_ge _ _ (Nat.le_of_not_lt h32), BitVec.getLsbD_of_ge _ _ (Nat.le_of_not_lt h32)]
    · rw [if_neg hempty]
  · rw [if_neg hpos, Nat.eq_zero_of_not_pos hpos, BitVec.ushiftRight_zero, drivenMap]

end Maps

-- unfolding the loops over all 32 bits of a map is never of use below
attribute [local irreducible] packMask countOnes

section Setup

variable (setting : Setting) (buff : Buffer) (segmentId sectorOffset sectorCount : ℕ) (retry : Bool)

/-- The memory of a buffer stays where it is. -/
theorem setupSegment_dmaAddress :
    (setupSegment setting buff segmentId sectorOffset sectorCount retry).dmaAddress = buff.dmaAddress := rfl

/-- A setup leaves the state of the buffer alone. -/
theorem setupSegment_status :
    (setupSegment setting buff segmentId sectorOffset sectorCount retry).status = buff.status := rfl

/-- The segment that is set up. -/
theorem setupSegment_segmentId :
    (setupSegment setting buff segmentId sectorOffset sectorCount retry).segmentId = segmentId := rfl

/-- Reading goes on with the segment behind it. -/
theorem setupSegment_nextSegment :
    (setupSegment setting buff segmentId sectorOffset sectorCount retry).nextSegment = segmentId + 1 := rfl

/-- The good sectors that are skipped. -/
theorem setupSegment_dataOffset (h : sectorOffset ≤ 32) :
    (setupSegment setting buff segmentId sectorOffset sectorCount retry).dataOffset =
      goodBelow (setting.badSectorEntry segmentId) sectorOffset := by
  rw [setupSegment]
  dsimp only
  rw [packMask_eq h, countOnes_offsetMask ((goodBelow_le _ _).trans h)]

/-- The place of the first sector that is read. -/
theorem setupSegment_ptr (h : sectorOffset ≤ 32) :
    (setupSegment setting buff segmentId sectorOffset sectorCount retry).ptr =
      buff.dmaAddress + goodBelow (setting.badSectorEntry segmentId) sectorOffset * ftSectorSize := by
  rw [setupSegment]
  dsimp only
  rw [packMask_eq h, countOnes_offsetMask ((goodBelow_le _ _).trans h)]

/-- The soft errors that a retry keeps: as many sectors as there are good ones in front of its place. -/
theorem setupSegment_softErrorMap (h : sectorOffset ≤ 32) (s : ℕ) :
    (setupSegment setting buff segmentId sectorOffset sectorCount true).softErrorMap.getLsbD s =
      (buff.softErrorMap.getLsbD s && decide (s < goodBelow (setting.badSectorEntry segmentId) sectorOffset)) := by
  change (buff.softErrorMap &&& packMask 32 _ (offsetMask sectorOffset)).getLsbD s = _
  rw [packMask_eq h, BitVec.getLsbD_and, getLsbD_offsetMask ((goodBelow_le _ _).trans h)]

end Setup

/-- A setup places the buffer, wherever it goes on. -/
theorem setupSegment_placed (setting : Setting) {buff : Buffer} (segmentId : ℕ) {offset : ℕ} (retry : Bool)
    (hskip : buff.skip ≤ 32) (hoffset : offset ≤ 32) :
    (setupSegment setting buff segmentId offset (ftSectorsPerSegment - offset) retry).Placed
      (setting.badSectorEntry segmentId) where
  sectors := by
    change offset + (32 - offset) = 32
    omega
  data := setupSegment_dataOffset setting buff segmentId offset _ _ hoffset
  ptr := by
    rw [setupSegment_ptr _ _ _ _ _ _ hoffset, setupSegment_dataOffset _ _ _ _ _ _ hoffset,
      setupSegment_dmaAddress]
  rest := setup_rest (setting.badSectorEntry segmentId) offset
  skip := hskip
  deleted := rfl

/-- A segment that is set up from its first sector on is in progress. -/
theorem setupSegment_fresh (setting : Setting) (buff : Buffer) (segmentId : ℕ) (retry : Bool)
    (hskip : buff.skip = 0) :
    (setupSegment setting buff segmentId 0 ftSectorsPerSegment retry).InProgress
      (setting.badSectorEntry segmentId) where
  sectors := rfl
  data := (setupSegment_placed setting segmentId retry (hskip.trans_le (Nat.zero_le _)) (Nat.zero_le _)).data
  ptr := (setupSegment_placed setting segmentId retry (hskip.trans_le (Nat.zero_le _)) (Nat.zero_le _)).ptr
  rest := (setupSegment_placed setting segmentId retry (hskip.trans_le (Nat.zero_le _)) (Nat.zero_le _)).rest
  fake := fun _ => ⟨rfl, hskip⟩
  skip := Nat.le_of_eq hskip
  soft := by
    -- in front of the first sector there is nothing to keep
    intro s hs
    cases retry with
    | false =>
      change (0 : SectorMap).getLsbD s = true at hs
      simp at hs
    | true =>
      rw [setupSegment_softErrorMap _ _ _ _ _ (Nat.zero_le _), Bool.and_eq_true, decide_eq_true_eq] at hs
      exact absurd (Nat.lt_of_lt_of_le hs.2 (goodBelow_le _ _)) (Nat.not_lt_zero s)
  covered := fun s hs => absurd hs (Nat.not_lt_zero s)
  deleted := rfl

/-- What a setup at a place keeps of a sector in front of it: a hard error, a soft one that the mask leaves, or what
was moved. -/
def Buffer.Keeps (map : SectorMap) (buff : Buffer) (offset sector : ℕ) : Prop :=
  (buff.softErrorMap.getLsbD sector = true ∧ sector < goodBelow map offset) ∨
    buff.hardErrorMap.getLsbD sector = true ∨
    (sector, buff.dmaAddress + goodBelow map sector * ftSectorSize) ∈ buff.moved

/-- A segment that is set up again is in progress if the setup keeps all good sectors in front of its place. -/
theorem setupSegment_again {setting : Setting} {buff : Buffer} {segmentId offset : ℕ} (hskip : buff.skip = offset)
    (hoffset : offset ≤ 32) (hfake : drivenMap (setting.badSectorEntry segmentId) = fakeSegment → offset = 0)
    (hkeeps : ∀ s, s < offset → (setting.badSectorEntry segmentId).getLsbD s = false →
      buff.Keeps (setting.badSectorEntry segmentId) offset s) :
    (setupSegment setting buff segmentId offset (ftSectorsPerSegment - offset) true).InProgress
      (setting.badSectorEntry segmentId) where
  sectors := (setupSegment_placed setting segmentId true (hskip.trans_le hoffset) hoffset).sectors
  data := (setupSegment_placed setting segmentId true (hskip.trans_le hoffset) hoffset).data
  ptr := (setupSegment_placed setting segmentId true (hskip.trans_le hoffset) hoffset).ptr
  rest := (setupSegment_placed setting segmentId true (hskip.trans_le hoffset) hoffset).rest
  fake := fun hdriven => ⟨hfake hdriven, hskip.trans (hfake hdriven)⟩
  skip := Nat.le_of_eq hskip
  soft := by
    intro s hs
    rw [setupSegment_softErrorMap _ _ _ _ _ hoffset, Bool.and_eq_true, decide_eq_true_eq] at hs
    have hbelow := goodBelow_le (setting.badSectorEntry segmentId) offset
    refine ⟨fun _ => ?_, Nat.lt_of_lt_of_le hs.2 hbelow⟩
    change s < goodBelow (setting.badSectorEntry segmentId) buff.skip
    rw [hskip]
    exact hs.2
  covered := by
    intro s hs hgood
    change s < offset at hs
    rcases hkeeps s hs hgood with hsoft | hhard | hmoved
    · left
      rw [setupSegment_softErrorMap _ _ _ _ _ hoffset, hsoft.1, decide_eq_true hsoft.2]
      rfl
    · exact Or.inr (Or.inl hhard)
    · exact Or.inr (Or.inr (List.mem_filter.mpr ⟨hmoved, decide_eq_true hs⟩))
  deleted := rfl

/-- A retry goes on where it may, with what was read in front of that. -/
theorem Buffer.InProgress.setupSegment_retry {setting : Setting} {buff : Buffer} {segmentId : ℕ}
    (h : buff.InProgress (setting.badSectorEntry segmentId)) (hskip : buff.skip ≤ 32) :
    (setupSegment setting buff segmentId buff.skip (ftSectorsPerSegment - buff.skip) true).InProgress
      (setting.badSectorEntry segmentId) := by
  apply setupSegment_again rfl hskip fun hdriven => (h.fake hdriven).2
  intro s hs hgood
  rcases h.covered s (Nat.lt_of_lt_of_le hs h.skip) hgood with hsoft | hhard | hmoved
  · exact Or.inl ⟨hsoft, (h.soft s hsoft).1 hs⟩
  · exact Or.inr (Or.inl hhard)
  · exact Or.inr (Or.inr hmoved)

/-- What finding a cluster leaves alone. -/
structure Buffer.SameTransfer (buff buff' : Buffer) : Prop where
  dmaAddress : buff'.dmaAddress = buff.dmaAddress
  ptr : buff'.ptr = buff.ptr
  status : buff'.status = buff.status
  segmentId : buff'.segmentId = buff.segmentId
  softErrorMap : buff'.softErrorMap = buff.softErrorMap
  hardErrorMap : buff'.hardErrorMap = buff.hardErrorMap
  skip : buff'.skip = buff.skip
  nextSegment : buff'.nextSegment = buff.nextSegment
  deleted : buff'.deleted = buff.deleted
  moved : buff'.moved = buff.moved

/-- The good sectors in front of the cursor are sectors of the segment. -/
theorem Buffer.Placed.dataOffset_le {map : SectorMap} {buff : Buffer} (h : buff.Placed map) :
    buff.dataOffset ≤ goodBelow map 32 ∧ buff.dataOffset ≤ buff.sectorOffset ∧ buff.sectorOffset ≤ 32 := by
  have hoffset : buff.sectorOffset ≤ 32 := by
    have := h.sectors
    omega
  refine ⟨?_, h.data.trans_le (goodBelow_le _ _), hoffset⟩
  rw [h.data]
  exact Nat.count_monotone _ hoffset

/-- A bad sector is passed. -/
theorem Buffer.Placed.skipBad {map : SectorMap} {buff : Buffer} (h : buff.Placed map) (hpos : 0 < buff.remaining)
    (hbad : buff.badSectorMap.getLsbD 0 = true) :
    Buffer.Placed map { buff with
      badSectorMap := buff.badSectorMap >>> 1
      sectorOffset := buff.sectorOffset + 1
      remaining := buff.remaining - 1 } := by
  have hsum := h.sectors
  have hmap : map.getLsbD buff.sectorOffset = true := by
    rw [h.rest, BitVec.getLsbD_ushiftRight, Nat.add_zero] at hbad
    exact bad_of_driven (by omega) hbad
  refine ⟨?_, h.data.trans (goodBelow_succ_of_bad hmap).symm, h.ptr, ?_, h.skip, h.deleted⟩
  · dsimp only
    omega
  · dsimp only
    rw [h.rest, BitVec.shiftRight_add]

/-- The first loop of `ftape_calc_next_cluster()` keeps the cursors in agreement. -/
theorem Buffer.Placed.skipBadSectors {map : SectorMap} (left : ℕ) {buff : Buffer} (h : buff.Placed map)
    (hleft : buff.remaining = left) :
    (skipBadSectors left buff).Placed map ∧ buff.SameTransfer (skipBadSectors left buff) ∧
      (skipBadSectors left buff).bytes = buff.bytes ∧
      ((skipBadSectors left buff).remaining = 0 ∨
        (skipBadSectors left buff).badSectorMap.getLsbD 0 = false) := by
  induction left generalizing buff with
  | zero => exact ⟨h, ⟨rfl, rfl, rfl, rfl, rfl, rfl, rfl, rfl, rfl, rfl⟩, rfl, Or.inl hleft⟩
  | succ left ih =>
    rw [Isr.skipBadSectors]
    split
    · rename_i hbad
      have hnext := h.skipBad (by omega) hbad
      obtain ⟨hplaced, hsame, hbytes, hstop⟩ := ih hnext (by dsimp only; omega)
      exact ⟨hplaced, { hsame with }, hbytes, hstop⟩
    · rename_i hgood
      exact ⟨h, ⟨rfl, rfl, rfl, rfl, rfl, rfl, rfl, rfl, rfl, rfl⟩, rfl,
        Or.inr (Bool.eq_false_of_not_eq_true hgood)⟩

/-- A bad sector is passed without a change of what was read. -/
theorem Buffer.InProgress.skipBad {map : SectorMap} {buff : Buffer} (h : buff.InProgress map)
    (hpos : 0 < buff.remaining) (hbad : buff.badSectorMap.getLsbD 0 = true) :
    Buffer.InProgress map { buff with
      badSectorMap := buff.badSectorMap >>> 1
      sectorOffset := buff.sectorOffset + 1
      remaining := buff.remaining - 1 } := by
  have hbit : (drivenMap map).getLsbD buff.sectorOffset = true := by
    rwa [h.rest, BitVec.getLsbD_ushiftRight, Nat.add_zero] at hbad
  have hreal : drivenMap map ≠ fakeSegment := by
    -- the first sector of a faked segment is good
    intro hfake
    rw [hfake, (h.fake hfake).1] at hbit
    exact absurd hbit (by decide)
  have hmap : map.getLsbD buff.sectorOffset = true := by rwa [drivenMap_eq hreal] at hbit
  have hplaced := h.placed.skipBad hpos hbad
  refine ⟨hplaced.sectors, hplaced.data, hplaced.ptr, hplaced.rest, fun hfake => absurd hfake hreal,
    Nat.le_succ_of_le h.skip, ?_, ?_, h.deleted⟩
  · intro s hs
    exact ⟨(h.soft s hs).1, Nat.lt_succ_of_lt (h.soft s hs).2⟩
  · intro s hs hgood
    cases Nat.lt_or_eq_of_le (Nat.le_of_lt_succ hs) with
    | inl hlt => exact h.covered s hlt hgood
    | inr heq =>
      rw [heq, hmap] at hgood
      cases hgood

/-- The first loop of `ftape_calc_next_cluster()` keeps a transfer in progress. -/
theorem Buffer.InProgress.skipBadSectors {map : SectorMap} (left : ℕ) {buff : Buffer}
    (h : buff.InProgress map) (hleft : buff.remaining = left) : (skipBadSectors left buff).InProgress map := by
  induction left generalizing buff with
  | zero => exact h
  | succ left ih =>
    rw [Isr.skipBadSectors]
    split
    · rename_i hbad
      exact ih (h.skipBad (by omega) hbad) (by dsimp only; omega)
    · exact h

/-- The second loop counts good sectors, as many as there are up to the next bad one. -/
theorem clusterLoop_spec (left : ℕ) (map : SectorMap) :
    clusterLoop left map ≤ left ∧ (∀ i, i < clusterLoop left map → map.getLsbD i = false) ∧
      (0 < left → map.getLsbD 0 = false → 0 < clusterLoop left map) := by
  induction left generalizing map with
  | zero => exact ⟨Nat.le_refl _, fun i hi => absurd hi (Nat.not_lt_zero i), fun h => absurd h (by omega)⟩
  | succ left ih =>
    obtain ⟨hle, hgood, -⟩ := ih (map >>> 1)
    rw [clusterLoop]
    split
    · rename_i hbad
      refine ⟨Nat.zero_le _, fun i hi => absurd hi (Nat.not_lt_zero i), fun _ h => ?_⟩
      rw [h] at hbad
      cases hbad
    · rename_i hfirst
      refine ⟨Nat.succ_le_succ hle, ?_, fun _ _ => Nat.succ_pos _⟩
      intro i hi
      cases i with
      | zero => exact Bool.eq_false_of_not_eq_true hfirst
      | succ i =>
        have := hgood i (Nat.lt_of_succ_lt_succ hi)
        rwa [BitVec.getLsbD_ushiftRight, Nat.add_comm] at this

/-- `ftape_calc_next_cluster()` keeps the cursors in agreement, and finds a cluster or the end. -/
theorem Buffer.Placed.calcNextCluster {map : SectorMap} {buff : Buffer} (h : buff.Placed map) :
    (ftapeCalcNextCluster buff).Placed map ∧ (ftapeCalcNextCluster buff).Cluster map ∧
      buff.SameTransfer (ftapeCalcNextCluster buff) ∧ (ftapeCalcNextCluster buff).bytes = buff.bytes ∧
      ((ftapeCalcNextCluster buff).sectorCount = 0 → (ftapeCalcNextCluster buff).remaining = 0) := by
  obtain ⟨hplaced, hsame, hbytes, hstop⟩ := h.skipBadSectors buff.remaining rfl
  rw [ftapeCalcNextCluster]
  generalize Isr.skipBadSectors buff.remaining buff = skipped at hplaced hsame hbytes hstop
  obtain ⟨hle, hgood, hpos⟩ := clusterLoop_spec skipped.remaining skipped.badSectorMap
  have hbit : ∀ i, (drivenMap map).getLsbD (skipped.sectorOffset + i) = skipped.badSectorMap.getLsbD i := by
    intro i
    rw [hplaced.rest, BitVec.getLsbD_ushiftRight]
  refine ⟨{ hplaced with }, ⟨?_, ?_⟩, { hsame with }, hbytes, ?_⟩
  · dsimp only
    split
    · exact Nat.le_refl _
    · exact hle
  · intro i hi
    dsimp only at hi ⊢
    rw [hbit]
    split at hi
    · rename_i hzero
      rw [hzero]
      simp
    · exact hgood i hi
  · dsimp only
    split
    · exact id
    · intro hnone
      cases hstop with
      | inl hend => exact hend
      | inr hfirst =>
        by_contra hremaining
        exact absurd hnone (hpos (Nat.pos_of_ne_zero hremaining) hfirst).ne'

/-- `ftape_calc_next_cluster()` finds a cluster of good sectors, or the end of the segment. -/
theorem Buffer.InProgress.calcNextCluster {map : SectorMap} {buff : Buffer} (h : buff.InProgress map) :
    (ftapeCalcNextCluster buff).InProgress map ∧ (ftapeCalcNextCluster buff).Cluster map ∧
      buff.SameTransfer (ftapeCalcNextCluster buff) ∧
      ((ftapeCalcNextCluster buff).sectorCount = 0 → (ftapeCalcNextCluster buff).remaining = 0) := by
  obtain ⟨-, hcluster, hsame, -, hend⟩ := h.placed.calcNextCluster
  have hprogress := h.skipBadSectors buff.remaining rfl
  refine ⟨?_, hcluster, hsame, hend⟩
  rw [ftapeCalcNextCluster]
  exact { hprogress with }

end Ftape.Isr
