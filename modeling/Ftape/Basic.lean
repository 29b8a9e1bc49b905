import Mathlib.Data.Finset.Card
import Mathlib.Data.Nat.Count
import Mathlib.Tactic.Common

/-!
# Bytes, sectors and sector maps

The sizes every part of the driver shares, and the bitmap of the 32 sectors of a segment.
-/

namespace Ftape

/-- A byte, `__u8`. -/
abbrev Byte := BitVec 8

/-- One bit for each of the 32 sectors of a segment, `SectorMap`. -/
abbrev SectorMap := BitVec 32

/-- `FT_SECTOR_SIZE`. -/
def ftSectorSize : ℕ := 1024

/-- `FT_SECTORS_PER_SEGMENT`. -/
def ftSectorsPerSegment : ℕ := 32

/-- `FT_ECC_SECTORS`. -/
def ftEccSectors : ℕ := 3

/-- `FT_SEGMENT_SIZE`, the payload of a segment without bad sectors. -/
def ftSegmentSize : ℕ := (ftSectorsPerSegment - ftEccSectors) * ftSectorSize

/-- `FT_BUFF_SIZE`, the memory of one segment buffer. -/
def ftBuffSize : ℕ := ftSectorsPerSegment * ftSectorSize

/-- `EMPTY_SEGMENT`, every sector bad. -/
def emptySegment : SectorMap := 0xffffffff

/-- The loop of `count_ones()`. Shifting on after the mask is zero counts nothing more, so
the number of rounds is the width of the mask. -/
def countOnesLoop : ℕ → SectorMap → ℕ
  | 0, _ => 0
  | rounds + 1, mask => (if mask.getLsbD 0 then 1 else 0) + countOnesLoop rounds (mask >>> 1)

/-- `count_ones()`. -/
def countOnes (mask : SectorMap) : ℕ := countOnesLoop 32 mask

/-- The sectors marked in a map. -/
def markedSectors (mask : SectorMap) : Finset ℕ := (Finset.range 32).filter (mask.getLsbD ·)

/-- Membership in the marked sectors needs no bound: bits past the width are clear. -/
@[simp] theorem mem_markedSectors (mask : SectorMap) (i : ℕ) :
    i ∈ markedSectors mask ↔ mask.getLsbD i = true := by
  simp only [markedSectors, Finset.mem_filter, Finset.mem_range, and_iff_right_iff_imp]
  exact BitVec.lt_of_getLsbD

/-- The loop counts the set bits among the rounds it makes. -/
private theorem countOnesLoop_eq_count (rounds : ℕ) (mask : SectorMap) :
    countOnesLoop rounds mask = Nat.count (mask.getLsbD ·) rounds := by
  induction rounds generalizing mask with
  | zero => rfl
  | succ rounds ih =>
    have hshift : (fun i => (mask >>> 1).getLsbD i = true) = fun i => mask.getLsbD (i + 1) = true := by
      funext i
      rw [BitVec.getLsbD_ushiftRight, Nat.add_comm]
    rw [countOnesLoop, ih, Nat.count_succ', Nat.add_comm]
    simp only [hshift]

/-- `count_ones()` is the number of marked sectors. -/
theorem countOnes_eq_card (mask : SectorMap) : countOnes mask = (markedSectors mask).card := by
  rw [countOnes, countOnesLoop_eq_count, Nat.count_eq_card_filter_range, markedSectors]

/-- At most every sector is marked. -/
theorem countOnes_le (mask : SectorMap) : countOnes mask ≤ 32 := by
  rw [countOnes_eq_card]
  exact (Finset.card_filter_le _ _).trans (by simp)

end Ftape
