import Ftape.Basic
import Ftape.Algebra.KeyRuns

/-!
# Lists of bad sectors

The 1100 ft, variable and big formats record bad sectors as an ascending list of sector
addresses counted from one at the beginning of tape. The variable and big formats also have a
flagged entry that marks a whole segment. This file says which lists are well formed, which
map from segments to sector maps they stand for, and how a segment is exchanged.
-/

namespace Ftape.Bsm

open Ftape.Algebra

/-- `ft_format_type`. -/
inductive FormatCode where
  | fmtNormal
  | fmt1100ft
  | fmtVar
  | fmt425ft
  | fmtBig
deriving DecidableEq

/-- The formats whose bad sector map is a list of addresses. -/
def FormatCode.listed : FormatCode → Bool
  | .fmt1100ft | .fmtVar | .fmtBig => true
  | .fmtNormal | .fmt425ft => false

/-- The formats with an entry for a whole segment. -/
def FormatCode.flagged : FormatCode → Bool
  | .fmtVar | .fmtBig => true
  | .fmtNormal | .fmt1100ft | .fmt425ft => false

/-- The zero-based sector number of an entry without its flag, in 32-bit arithmetic. -/
def sectorIndex (sector : ℕ) : ℕ := (sector % 0x800000 + 0xffffffff) % 0x100000000

/-- `cvt2map()`. -/
def cvt2map (sector : ℕ) : SectorMap := 1#32 <<< (sectorIndex sector % ftSectorsPerSegment)

/-- `cvt2segment()`. -/
def cvt2segment (sector : ℕ) : ℕ := sectorIndex sector / ftSectorsPerSegment

/-- The sectors an entry marks in its segment. -/
def entryMap (fmt : FormatCode) (sector : ℕ) : SectorMap :=
  if 0x800000 ≤ sector ∧ fmt.flagged then emptySegment else cvt2map sector

/-- An address of 23 bits, counted from one. A flag needs a format that has it and stands at
the first sector of a segment. -/
structure ValidEntry (fmt : FormatCode) (sector : ℕ) : Prop where
  address_pos : 0 < sector % 0x800000
  lt : sector < 0x1000000
  flag : 0x800000 ≤ sector → fmt.flagged ∧ (sector % 0x800000 - 1) % ftSectorsPerSegment = 0

/-- Addresses ascend, and a flagged segment has no further entries. -/
def EntryOrder (a b : ℕ) : Prop :=
  a % 0x800000 < b % 0x800000 ∧ (0x800000 ≤ a → cvt2segment a < cvt2segment b)

/-- A sorted list of bad sectors. -/
structure SectorList (fmt : FormatCode) where
  entries : List ℕ
  valid : ∀ e ∈ entries, ValidEntry fmt e
  ascending : entries.Pairwise EntryOrder

/-- The union of the sectors that some entries mark. -/
def unionMap (fmt : FormatCode) (entries : List ℕ) : SectorMap :=
  entries.foldr (fun e map => entryMap fmt e ||| map) 0

/-- The bad sectors that a list records for a segment. -/
def SectorList.lookup {fmt : FormatCode} (l : SectorList fmt) (segment : ℕ) : SectorMap :=
  unionMap fmt (keyRun cvt2segment segment l.entries)

/-- A canonical list never spells a bad segment out when the format has a flag for it. -/
def SectorList.Canonical {fmt : FormatCode} (l : SectorList fmt) : Prop :=
  fmt.flagged → ∀ segment, (keyRun cvt2segment segment l.entries).length < ftSectorsPerSegment

/-- The segments whose sector addresses fit into the 23 bits of an entry. -/
def Admissible (segment : ℕ) : Prop := segment * ftSectorsPerSegment + ftSectorsPerSegment < 0x800000

instance (segment : ℕ) : Decidable (Admissible segment) := Nat.decLt _ _

/-- The addresses of the marked sectors of a segment. -/
def sectorAddresses (segment : ℕ) (map : SectorMap) : List ℕ :=
  ((List.range 32).filter (map.getLsbD ·)).map (1 + segment * ftSectorsPerSegment + ·)

/-- The entries a segment is recorded with. -/
def segmentEntries (fmt : FormatCode) (segment : ℕ) (map : SectorMap) : List ℕ :=
  if fmt.flagged ∧ map = emptySegment then [0x800001 + segment * ftSectorsPerSegment]
  else sectorAddresses segment map

/-- The sector number of a valid entry is its address less one. -/
theorem ValidEntry.sectorIndex_eq {fmt : FormatCode} {e : ℕ} (h : ValidEntry fmt e) :
    sectorIndex e = e % 0x800000 - 1 := by
  have hpos := h.address_pos
  unfold sectorIndex
  omega

/-- Segments ascend with the addresses. -/
theorem EntryOrder.segment_le {fmt : FormatCode} {a b : ℕ} (h : EntryOrder a b)
    (ha : ValidEntry fmt a) (hb : ValidEntry fmt b) : cvt2segment a ≤ cvt2segment b := by
  unfold cvt2segment
  rw [ha.sectorIndex_eq, hb.sectorIndex_eq]
  apply Nat.div_le_div_right
  have := h.1
  omega

/-- Entries of smaller segments come first. -/
theorem entryOrder_of_segment_lt {a b : ℕ} (h : cvt2segment a < cvt2segment b)
    (ha : 0 < a % 0x800000) (hb : 0 < b % 0x800000) : EntryOrder a b := by
  refine ⟨?_, fun _ => h⟩
  unfold cvt2segment sectorIndex ftSectorsPerSegment at h
  omega

/-- A sorted list is sorted by segment. -/
theorem SectorList.segments_sorted {fmt : FormatCode} (l : SectorList fmt) :
    l.entries.Pairwise fun a b => cvt2segment a ≤ cvt2segment b :=
  l.ascending.imp_of_mem fun ha hb h => h.segment_le (l.valid _ ha) (l.valid _ hb)

/-- The terminator of a list is not a valid entry. -/
theorem ValidEntry.ne_zero {fmt : FormatCode} {e : ℕ} (h : ValidEntry fmt e) : e ≠ 0 := by
  have hpos := h.address_pos
  intro hzero
  rw [hzero, Nat.zero_mod] at hpos
  exact Nat.lt_irrefl 0 hpos

/-- A sector is recorded when some entry of its segment marks it. -/
theorem getLsbD_unionMap (fmt : FormatCode) (entries : List ℕ) (i : ℕ) :
    (unionMap fmt entries).getLsbD i = true ↔ ∃ e ∈ entries, (entryMap fmt e).getLsbD i = true := by
  induction entries with
  | nil => simp [unionMap]
  | cons e rest ih =>
    change (entryMap fmt e ||| unionMap fmt rest).getLsbD i = true ↔ _
    rw [BitVec.getLsbD_or, Bool.or_eq_true, ih]
    simp

/-- The bit of an unflagged entry. -/
theorem getLsbD_cvt2map (e i : ℕ) :
    (cvt2map e).getLsbD i = decide (i = sectorIndex e % ftSectorsPerSegment) := by
  have hlt : sectorIndex e % ftSectorsPerSegment < 32 := Nat.mod_lt _ (by decide)
  rw [cvt2map, BitVec.getLsbD_shiftLeft, BitVec.getLsbD_one]
  generalize sectorIndex e % ftSectorsPerSegment = k at *
  by_cases hi : i = k
  · subst hi
    simp [hlt]
  · simp only [hi, decide_false]
    grind

/-- The sector number of the address of sector `i` in an admissible segment. -/
theorem sectorIndex_address {segment i : ℕ} (hseg : Admissible segment) (hi : i < 32) :
    sectorIndex (1 + segment * ftSectorsPerSegment + i) = segment * ftSectorsPerSegment + i := by
  unfold Admissible at hseg
  unfold sectorIndex
  unfold ftSectorsPerSegment at *
  omega

/-- The sector number of the flagged entry of a segment. -/
theorem sectorIndex_flag {segment : ℕ} (hseg : Admissible segment) :
    sectorIndex (0x800001 + segment * ftSectorsPerSegment) = segment * ftSectorsPerSegment := by
  unfold Admissible at hseg
  unfold sectorIndex
  unfold ftSectorsPerSegment at *
  omega

/-- The addresses written for a segment belong to it. -/
theorem cvt2segment_sectorAddresses {segment : ℕ} {map : SectorMap} (hseg : Admissible segment) :
    ∀ e ∈ sectorAddresses segment map, cvt2segment e = segment := by
  intro e he
  obtain ⟨i, hi, rfl⟩ := List.mem_map.mp he
  have hlt : i < 32 := List.mem_range.mp (List.mem_filter.mp hi).1
  rw [cvt2segment, sectorIndex_address hseg hlt]
  unfold ftSectorsPerSegment
  omega

/-- The entries written for a segment belong to it. -/
theorem cvt2segment_segmentEntries {fmt : FormatCode} {segment : ℕ} {map : SectorMap}
    (hseg : Admissible segment) : ∀ e ∈ segmentEntries fmt segment map, cvt2segment e = segment := by
  unfold segmentEntries
  split
  · intro e he
    rw [List.mem_singleton.mp he, cvt2segment, sectorIndex_flag hseg]
    exact Nat.mul_div_cancel segment (by decide)
  · exact cvt2segment_sectorAddresses hseg

/-- The entries written for a segment are valid. -/
theorem valid_segmentEntries {fmt : FormatCode} {segment : ℕ} {map : SectorMap}
    (hseg : Admissible segment) : ∀ e ∈ segmentEntries fmt segment map, ValidEntry fmt e := by
  unfold Admissible at hseg
  unfold segmentEntries
  split
  · next h =>
    intro e he
    rw [List.mem_singleton.mp he]
    unfold ftSectorsPerSegment at *
    refine ⟨by omega, by omega, fun _ => ⟨h.1, ?_⟩⟩
    unfold ftSectorsPerSegment
    omega
  · intro e he
    obtain ⟨i, hi, rfl⟩ := List.mem_map.mp he
    have hlt : i < 32 := List.mem_range.mp (List.mem_filter.mp hi).1
    unfold ftSectorsPerSegment at *
    exact ⟨by omega, by omega, fun _ => by omega⟩

/-- The entries written for a segment ascend. -/
theorem ascending_segmentEntries {fmt : FormatCode} {segment : ℕ} {map : SectorMap}
    (hseg : Admissible segment) : (segmentEntries fmt segment map).Pairwise EntryOrder := by
  unfold Admissible at hseg
  unfold segmentEntries
  split
  · exact List.pairwise_singleton _ _
  · apply List.pairwise_map.mpr
    apply (List.pairwise_lt_range.filter _).imp_of_mem
    intro i j hi hj hij
    have hi' : i < 32 := List.mem_range.mp (List.mem_filter.mp hi).1
    have hj' : j < 32 := List.mem_range.mp (List.mem_filter.mp hj).1
    unfold ftSectorsPerSegment at *
    exact ⟨by omega, fun h => by omega⟩

/-- Reading the entries of a segment back gives the map they were written for. -/
theorem unionMap_segmentEntries {fmt : FormatCode} {segment : ℕ} (map : SectorMap)
    (hseg : Admissible segment) : unionMap fmt (segmentEntries fmt segment map) = map := by
  apply BitVec.eq_of_getLsbD_eq
  intro i hi
  rw [Bool.eq_iff_iff, getLsbD_unionMap]
  unfold segmentEntries
  split
  · next h =>
    simp only [List.mem_singleton, exists_eq_left]
    rw [entryMap, if_pos ⟨by omega, h.1⟩, h.2]
  · constructor
    · rintro ⟨e, he, hbit⟩
      obtain ⟨j, hj, rfl⟩ := List.mem_map.mp he
      obtain ⟨hrange, hmark⟩ := List.mem_filter.mp hj
      have hlt : j < 32 := List.mem_range.mp hrange
      have hsmall : ¬ 0x800000 ≤ 1 + segment * ftSectorsPerSegment + j := by
        unfold Admissible at hseg
        unfold ftSectorsPerSegment at *
        omega
      rw [entryMap, if_neg (fun h => hsmall h.1), getLsbD_cvt2map, sectorIndex_address hseg hlt] at hbit
      have hij : i = j := by
        have := of_decide_eq_true hbit
        unfold ftSectorsPerSegment at this
        omega
      rw [hij]
      exact hmark
    · intro hmark
      refine ⟨1 + segment * ftSectorsPerSegment + i, List.mem_map.mpr ⟨i, ?_, rfl⟩, ?_⟩
      · exact List.mem_filter.mpr ⟨List.mem_range.mpr hi, hmark⟩
      · have hsmall : ¬ 0x800000 ≤ 1 + segment * ftSectorsPerSegment + i := by
          unfold Admissible at hseg
          unfold ftSectorsPerSegment at *
          omega
        rw [entryMap, if_neg (fun h => hsmall h.1), getLsbD_cvt2map, sectorIndex_address hseg hi]
        apply decide_eq_true
        unfold ftSectorsPerSegment
        omega

/-- As many addresses are written as sectors are marked. -/
theorem length_sectorAddresses (segment : ℕ) (map : SectorMap) :
    (sectorAddresses segment map).length = countOnes map := by
  rw [sectorAddresses, List.length_map, countOnes_eq_card, markedSectors,
    ← List.toFinset_card_of_nodup (List.nodup_range.filter _)]
  congr 1
  ext i
  simp

/-- Only the empty segment has all its sectors marked. -/
theorem countOnes_eq_iff (map : SectorMap) :
    countOnes map = ftSectorsPerSegment ↔ map = emptySegment := by
  constructor
  · intro h
    have hall : markedSectors map = Finset.range 32 := by
      apply Finset.eq_of_subset_of_card_le (Finset.filter_subset _ _)
      rw [Finset.card_range]
      exact (countOnes_eq_card map).symm.trans h |>.ge
    apply BitVec.eq_of_getLsbD_eq
    intro i hi
    have hmem : i ∈ markedSectors map := by rw [hall]; exact Finset.mem_range.mpr hi
    have hone : emptySegment = BitVec.allOnes 32 := by decide
    rw [(mem_markedSectors map i).mp hmem, hone, BitVec.getLsbD_allOnes, decide_eq_true hi]
  · rintro rfl
    decide

/-- Exchange the entries of an admissible segment. -/
def SectorList.update {fmt : FormatCode} (l : SectorList fmt) {segment : ℕ}
    (hseg : Admissible segment) (map : SectorMap) : SectorList fmt where
  entries := replaceRun cvt2segment segment (segmentEntries fmt segment map) l.entries
  valid e he := (mem_replaceRun he).elim (l.valid e) (valid_segmentEntries hseg e)
  ascending := by
    have hpos : ∀ e ∈ replaceRun cvt2segment segment (segmentEntries fmt segment map) l.entries,
        0 < e % 0x800000 := fun e he =>
      ((mem_replaceRun he).elim (l.valid e) (valid_segmentEntries hseg e)).address_pos
    have horder : (replaceRun cvt2segment segment (segmentEntries fmt segment map) l.entries).Pairwise
        fun a b => 0 < a % 0x800000 → 0 < b % 0x800000 → EntryOrder a b := by
      apply replaceRun_pairwise
      · exact fun a b h ha hb => entryOrder_of_segment_lt h ha hb
      · exact l.ascending.imp fun h _ _ => h
      · exact (ascending_segmentEntries hseg).imp fun h _ _ => h
      · exact cvt2segment_segmentEntries hseg
    exact horder.imp_of_mem fun ha hb h => h (hpos _ ha) (hpos _ hb)

/-- The exchanged segment is read back. -/
theorem SectorList.lookup_update_self {fmt : FormatCode} (l : SectorList fmt) {segment : ℕ}
    (hseg : Admissible segment) (map : SectorMap) : (l.update hseg map).lookup segment = map := by
  rw [lookup, update, keyRun_replaceRun_self (cvt2segment_segmentEntries hseg),
    unionMap_segmentEntries map hseg]

/-- Every other segment is unchanged. -/
theorem SectorList.lookup_update_of_ne {fmt : FormatCode} (l : SectorList fmt) {segment other : ℕ}
    (hseg : Admissible segment) (map : SectorMap) (hne : other ≠ segment) :
    (l.update hseg map).lookup other = l.lookup other := by
  rw [lookup, update, keyRun_replaceRun_of_ne hne (cvt2segment_segmentEntries hseg) l.segments_sorted,
    lookup]

/-- An exchange keeps the list canonical. -/
theorem SectorList.Canonical.update {fmt : FormatCode} {l : SectorList fmt} (h : l.Canonical)
    {segment : ℕ} (hseg : Admissible segment) (map : SectorMap) : (l.update hseg map).Canonical := by
  intro hflag other
  by_cases hne : other = segment
  · subst hne
    rw [SectorList.update, keyRun_replaceRun_self (cvt2segment_segmentEntries hseg), segmentEntries]
    split
    · exact (show 1 < 32 by decide)
    · next hspell =>
      rw [length_sectorAddresses]
      apply lt_of_le_of_ne (countOnes_le map)
      intro hfull
      exact hspell ⟨hflag, (countOnes_eq_iff map).mp hfull⟩
  · rw [SectorList.update,
      keyRun_replaceRun_of_ne hne (cvt2segment_segmentEntries hseg) l.segments_sorted]
    exact h hflag other

end Ftape.Bsm
