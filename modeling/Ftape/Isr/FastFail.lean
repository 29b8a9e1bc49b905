import Ftape.Isr.ErasureMap

/-!
# Fast fail

With `ft_ignore_ecc_err` the first retry of a segment is made at its last sector, whatever place the error handling
found. What was not read in front of it is then missing without a flag, unless all of it is covered already.
-/

namespace Ftape.Isr

open Ftape.Write

/-- A segment that is not faked has no good sector, or is driven by its own map. -/
theorem drivenMap_ne_of_good {map : SectorMap} (hreal : map ≠ fakeSegment) {s : ℕ} (hs : s < 32)
    (hgood : map.getLsbD s = false) : drivenMap map ≠ fakeSegment := by
  rw [drivenMap]
  split
  · rename_i hempty
    have hbad : ∀ s : Fin 32, emptySegment.getLsbD s = true := by decide
    rw [hempty, hbad ⟨s, hs⟩] at hgood
    cases hgood
  · exact hreal

/-- What a flagged sector is for the error correction: an erasure. -/
theorem erasure_of_flag {setting : Setting} {buff : Buffer} {erasures : SectorMap}
    (hconvert : ∀ j, erasures.getLsbD j = true ↔ ∃ s < ftSectorsPerSegment,
      StandsFor (setting.badSectorEntry buff.segmentId) j s ∧
        (buff.softErrorMap ||| buff.hardErrorMap).getLsbD s = true)
    {s : ℕ} (hs : s < ftSectorsPerSegment) (hgood : (setting.badSectorEntry buff.segmentId).getLsbD s = false)
    (hflag : buff.softErrorMap.getLsbD s = true ∨ buff.hardErrorMap.getLsbD s = true) :
    erasures.getLsbD (goodBelow (setting.badSectorEntry buff.segmentId) s) = true := by
  apply (hconvert _).mpr
  refine ⟨s, hs, ⟨hgood, rfl⟩, ?_⟩
  rw [BitVec.getLsbD_or, Bool.or_eq_true]
  exact hflag

/-- In each run from waiting buffers in which no retry at a last sector loses anything, a segment that is done hides
nothing: each good sector was moved to its place or is flagged, and each one that was not moved is an erasure. -/
theorem Runner.run_hides_nothing {setting : Setting} {runner : Runner}
    (hwaiting : ∀ buff ∈ runner.ring, buff.status = .waiting) {events : List Event}
    (hallows : runner.AllowsAll setting events) (hskips : runner.SkipsAll setting events) :
    ∀ buff ∈ (runner.run setting events).ring, buff.status = .done →
      setting.badSectorEntry buff.segmentId ≠ fakeSegment →
      ∃ erasures, convertSectorMap 33 setting buff = some erasures ∧
        ∀ s < ftSectorsPerSegment, (setting.badSectorEntry buff.segmentId).getLsbD s = false →
          buff.Covered (setting.badSectorEntry buff.segmentId) s ∧
            ((s, buff.dmaAddress + goodBelow (setting.badSectorEntry buff.segmentId) s * ftSectorSize) ∈ buff.moved ∨
              erasures.getLsbD (goodBelow (setting.badSectorEntry buff.segmentId) s) = true) := by
  intro buff hbuff hdone hreal
  have hsound := ((runner.sound_of_waiting hwaiting).run hskips hallows).buffers buff hbuff
  have hfinished := hsound.finished hdone
  obtain ⟨erasures, hconvert, hbits⟩ := convertSectorMap_eq setting buff le_rfl
  refine ⟨erasures, hconvert, fun s hs hgood => ?_⟩
  have hcovered := (hfinished.whole (drivenMap_ne_of_good hreal hs hgood)).2 s hs hgood
  refine ⟨hcovered, ?_⟩
  rcases hcovered with hsoft | hhard | hmoved
  · exact Or.inr (erasure_of_flag hbits hs hgood (Or.inl hsoft))
  · exact Or.inr (erasure_of_flag hbits hs hgood (Or.inr hhard))
  · exact Or.inl hmoved

/-- The spotted tape with fast fail. -/
def spottedFastTape : Setting := { spottedTape with ftIgnoreEccErr := true }

/-- Segment 5 is read with errors at its eighth and its last sector, so that a retry at the last sector has nothing
to lose. -/
def readWithLateError : List Event :=
  [.start 5 false 0,
    .irq ⟨0x00, 0x00, 0x00, 1, 34, some 0⟩ true,
    .irq ⟨0x40, 0x20, 0x20, 1, 40, some 25600⟩ true,
    .irq ⟨0x40, 0x20, 0x20, 1, 64, some 1024⟩ true,
    .start 5 true 0,
    .irq ⟨0x00, 0x00, 0x00, 2, 1, some 0⟩ true]

/-- The eighth sector of the segment is an erasure, the sixth one of the good sectors. -/
theorem Runner.run_hides_nothing_late_error :
    ∃ buff ∈ (emptyRing.run spottedFastTape readWithLateError).ring, buff.status = .done ∧
      ∃ erasures, convertSectorMap 33 spottedFastTape buff = some erasures ∧
        ((7, buff.dmaAddress + 5 * ftSectorSize) ∈ buff.moved ∨ erasures.getLsbD 5 = true) := by
  obtain ⟨buff, hbuff, hdone, hsegment⟩ :
      ∃ buff ∈ (emptyRing.run spottedFastTape readWithLateError).ring, buff.status = .done ∧ buff.segmentId = 5 := by
    decide +kernel
  have hhides := @Runner.run_hides_nothing spottedFastTape emptyRing (by decide) readWithLateError
    (by decide +kernel) (by decide +kernel) buff hbuff hdone
  rw [hsegment] at hhides
  obtain ⟨erasures, hconvert, hcovered⟩ := hhides (by decide)
  exact ⟨buff, hbuff, hdone, erasures, hconvert, (hcovered 7 (by decide) (by decide)).2⟩

instance (map : SectorMap) (buff : Buffer) (sector : ℕ) : Decidable (buff.Covered map sector) :=
  inferInstanceAs (Decidable (_ ∨ _ ∨ _))

/-- With errors at the eighth and the thirteenth sector the retry at the last one jumps over 18 sectors that were not
read. The segment is done, and the fourteenth sector neither moved nor flagged. -/
theorem fast_fail_hides_sector :
    let events : List Event := [.start 5 false 0,
      .irq ⟨0x00, 0x00, 0x00, 1, 34, some 0⟩ true,
      .irq ⟨0x40, 0x20, 0x20, 1, 40, some 25600⟩ true,
      .irq ⟨0x40, 0x20, 0x20, 1, 45, some 19456⟩ true,
      .start 5 true 0,
      .irq ⟨0x00, 0x00, 0x00, 2, 1, some 0⟩ true]
    emptyRing.AllowsAll spottedFastTape events ∧
      ∃ buff ∈ (emptyRing.run spottedFastTape events).ring, buff.status = .done ∧ buff.segmentId = 5 ∧
        ¬buff.Covered (spottedFastTape.badSectorEntry 5) 13 := by
  decide +kernel

end Ftape.Isr
