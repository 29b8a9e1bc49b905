import Ftape.Volume.Positioning
import Ftape.Zftape.Bookkeeping

/-!
# Positions and coordinates

A position in bytes belongs to a segment and an offset in it. `zft_calc_seg_byte_coord()` takes the sizes
of the segments off the position, and `zft_calc_tape_pos()` goes on from the position it remembers. The
two are inverse to each other, whatever the bad sectors are and whatever is remembered.
-/

namespace Ftape.Volume

open Ftape.Algebra Ftape.Write Ftape.Zftape

variable {α : Type}

/-- The books of a device, with the position it remembers. -/
def readerBooks (zftape : Reader α) (segPos tapePos : ℤ) : Books where
  badSectorMap segment := zftape.badSectorMap segment.toNat
  rawImage := zftape.rawImage
  firstDataSegment := zftape.firstDataSegment
  lastDataSegment := zftape.lastDataSegment
  capacity := zftape.capacity
  segPos := segPos
  tapePos := tapePos

/-- Both know the same sizes. -/
@[simp] theorem readerBooks_zftGetSegSz (zftape : Reader α) (segPos tapePos : ℤ) (segment : ℕ) :
    (readerBooks zftape segPos tapePos).zftGetSegSz segment = zftape.zftGetSegSz segment := by
  simp only [Books.zftGetSegSz, readerBooks, Int.toNat_natCast, segSize, Reader.zftGetSegSz]
  rfl

/-- Both have the same first segment. -/
@[simp] theorem readerBooks_zftFirstSegment (zftape : Reader α) (segPos tapePos : ℤ) :
    (readerBooks zftape segPos tapePos).zftFirstSegment = zftape.zftFirstSegment := by
  rw [Books.zftFirstSegment, Reader.zftFirstSegment, Nat.cast_ite, Nat.cast_zero]
  rfl

/-- The loop takes the sizes of the segments off until nothing is left or no segment is left, and
remembers the size of the last one. -/
theorem segByteCoordLoop_eq (zftape : Reader α) {sizes : ℤ → ℤ}
    (hsizes : ∀ segment : ℕ, sizes segment = zftape.zftGetSegSz segment) (left segment : ℕ)
    (tapePos segSz : ℤ) :
    ∃ (past : ℕ) (rest last : ℤ), segByteCoordLoop zftape left segment tapePos segSz = (past, rest, last) ∧
      segment ≤ past ∧ past ≤ segment + left ∧ rest = tapePos - runSum sizes segment past ∧
      (0 < rest → past = segment + left) ∧
      (past = segment ∧ last = segSz ∨ segment < past ∧ last = sizes (past - 1) ∧ 0 < rest + last) := by
  induction left generalizing segment tapePos segSz with
  | zero =>
    refine ⟨segment, tapePos, segSz, rfl, le_rfl, le_rfl, ?_, fun _ => rfl, Or.inl ⟨rfl, rfl⟩⟩
    rw [runSum_of_le sizes le_rfl, sub_zero]
  | succ left ih =>
    rw [segByteCoordLoop]
    by_cases hmore : 0 < tapePos
    · obtain ⟨past, rest, last, hloop, hle, hpast, hrest, hend, hlast⟩ :=
        ih (segment + 1) (tapePos - zftape.zftGetSegSz segment) (zftape.zftGetSegSz segment)
      have hless : (segment : ℤ) < past := by omega
      have hcons := runSum_cons sizes hless
      rw [hsizes] at hcons
      push_cast at hrest
      refine ⟨past, rest, last, by rw [if_pos hmore, hloop], by omega, by omega, by omega,
        fun hpos => by have := hend hpos; omega, Or.inr ⟨by omega, ?_⟩⟩
      rcases hlast with ⟨rfl, rfl⟩ | ⟨-, hlast, hpos⟩
      · have hself : ((segment + 1 : ℕ) : ℤ) - 1 = segment := by omega
        rw [hself, hsizes, hrest]
        push_cast
        rw [runSum_of_le sizes le_rfl]
        exact ⟨rfl, by omega⟩
      · exact ⟨hlast, hpos⟩
    · refine ⟨segment, tapePos, segSz, if_neg hmore, le_rfl, by omega, ?_, fun hpos => absurd hpos hmore,
        Or.inl ⟨rfl, rfl⟩⟩
      rw [runSum_of_le sizes le_rfl, sub_zero]

/-- For every position of the tape, `zft_calc_seg_byte_coord()` finds the segment and the offset that
`zft_calc_tape_pos()` turns into the position again: an offset in the segment, or the start of a segment. -/
theorem zftCalcSegByteCoord_inverse (zftape : Reader α) {segPos cachedPos tapePos : ℤ}
    (hlast : zftape.lastDataSegment ≤ 0x7fffffff)
    (hcoherent : (readerBooks zftape segPos cachedPos).Coherent) (hpos : 0 ≤ tapePos)
    (hcapacity : tapePos ≤ zftape.capacity) :
    ((readerBooks zftape segPos cachedPos).zftCalcTapePos (zftCalcSegByteCoord zftape tapePos).1).2 +
        (zftCalcSegByteCoord zftape tapePos).2 = tapePos ∧
      0 ≤ (zftCalcSegByteCoord zftape tapePos).2 ∧
      ((zftCalcSegByteCoord zftape tapePos).2 <
          zftape.zftGetSegSz (zftCalcSegByteCoord zftape tapePos).1 ∨
        (zftCalcSegByteCoord zftape tapePos).2 = 0 ∧
          (zftCalcSegByteCoord zftape tapePos).1 ≤ max zftape.zftFirstSegment (zftape.lastDataSegment + 1)) := by
  have hsizes := readerBooks_zftGetSegSz zftape segPos cachedPos
  have htapePos : ∀ segment : ℤ, ((readerBooks zftape segPos cachedPos).zftCalcTapePos segment).2 =
      runSum (readerBooks zftape segPos cachedPos).zftGetSegSz zftape.zftFirstSegment
        (min segment (zftape.lastDataSegment + 1)) := by
    intro segment
    rw [hcoherent.zftCalcTapePos_snd, readerBooks_zftFirstSegment]
    rfl
  have hfull : zftape.capacity = runSum (readerBooks zftape segPos cachedPos).zftGetSegSz
      zftape.zftFirstSegment (zftape.lastDataSegment + 1) := by
    rw [← readerBooks_zftFirstSegment zftape segPos cachedPos]
    exact hcoherent.capacity
  generalize (readerBooks zftape segPos cachedPos).zftGetSegSz = sizes at hsizes htapePos hfull
  rw [htapePos]
  by_cases hzero : tapePos = 0
  · have hcoord : zftCalcSegByteCoord zftape tapePos = (zftape.zftFirstSegment, 0) := if_pos hzero
    rw [hcoord]
    refine ⟨?_, le_rfl, Or.inr ⟨rfl, le_max_left _ _⟩⟩
    rw [runSum_of_le sizes (min_le_left _ _), hzero]
    rfl
  · obtain ⟨past, rest, last, hloop, hle, hpast, hrest, hend, hback⟩ :=
      segByteCoordLoop_eq zftape hsizes (zftape.lastDataSegment + 1 - zftape.zftFirstSegment)
        zftape.zftFirstSegment tapePos 0
    have hcoord : zftCalcSegByteCoord zftape tapePos =
        if 0 ≤ rest then (past, 0) else (Header.uint (past + 0xffffffff), rest + last) := by
      rw [zftCalcSegByteCoord, if_neg hzero, hloop]
    have hfirst : zftape.zftFirstSegment ≤ zftape.lastDataSegment + 1 := by
      by_contra hempty
      rw [runSum_of_le sizes (by omega)] at hfull
      omega
    have hbehind : ¬0 < rest := by
      intro hmore
      have hall := hend hmore
      have hwhole : (past : ℤ) = zftape.lastDataSegment + 1 := by omega
      rw [hwhole, ← hfull] at hrest
      omega
    rw [hcoord]
    by_cases hnone : 0 ≤ rest
    · rw [if_pos hnone]
      refine ⟨?_, le_rfl, Or.inr ⟨rfl, le_max_of_le_right (by omega)⟩⟩
      rw [min_eq_left (by dsimp only; omega)]
      dsimp only
      omega
    · rw [if_neg hnone]
      obtain ⟨hless, hlastSize, hoffset⟩ : zftape.zftFirstSegment < past ∧ last = sizes (past - 1) ∧
          0 < rest + last := by
        rcases hback with ⟨hstart, -⟩ | hback
        · rw [hstart, runSum_of_le sizes le_rfl] at hrest
          omega
        · exact hback
      have hsegment : Header.uint (past + 0xffffffff) = past - 1 := by
        rw [Header.uint]
        omega
      have hcast : ((past - 1 : ℕ) : ℤ) = past - 1 := by omega
      have hsum := runSum_pred sizes (Int.ofNat_lt.mpr hless)
      rw [hsegment]
      refine ⟨?_, by dsimp only; omega, Or.inl ?_⟩
      · rw [min_eq_left (by dsimp only; omega)]
        dsimp only
        rw [hcast]
        omega
      · dsimp only
        rw [← hsizes, hcast]
        omega

/-- The byte 5000 of a tape with segments of a sector, with the last position remembered. -/
theorem zftCalcSegByteCoord_inverse_sample :
    ((readerBooks (sampleReader 2048) 32 (30 * 1024)).zftCalcTapePos
          (zftCalcSegByteCoord (sampleReader 2048) 5000).1).2 +
        (zftCalcSegByteCoord (sampleReader 2048) 5000).2 = 5000 ∧
      0 ≤ (zftCalcSegByteCoord (sampleReader 2048) 5000).2 ∧
      ((zftCalcSegByteCoord (sampleReader 2048) 5000).2 <
          (sampleReader 2048).zftGetSegSz (zftCalcSegByteCoord (sampleReader 2048) 5000).1 ∨
        (zftCalcSegByteCoord (sampleReader 2048) 5000).2 = 0 ∧
          (zftCalcSegByteCoord (sampleReader 2048) 5000).1 ≤
            max (sampleReader 2048).zftFirstSegment ((sampleReader 2048).lastDataSegment + 1)) :=
  zftCalcSegByteCoord_inverse (sampleReader 2048) (by decide)
    ⟨by decide, by decide, by decide +kernel, by decide +kernel⟩ (by decide) (by decide)

end Ftape.Volume
