import Ftape.Isr.Progress

/-!
# Segments that are set up and finished

A segment is set up from its first sector on, or where its last retry left off. Once no sector
remains the bytes of a segment are those of its good sectors, unless it was deleted or faked.
-/

namespace Ftape.Isr

open Ftape.Write

/-- A segment nothing remains of. Unless it was faked, all its good sectors are covered. -/
structure Buffer.Finished (map : SectorMap) (buff : Buffer) : Prop where
  data : buff.dataOffset = goodBelow map buff.sectorOffset
  ptr : buff.ptr = buff.dmaAddress + buff.dataOffset * ftSectorSize
  remaining : buff.remaining = 0
  bytes : buff.bytes = buff.dataOffset * ftSectorSize
  whole : drivenMap map ≠ fakeSegment → (buff.deleted = false → buff.sectorOffset = 32) ∧
    ∀ s, s < 32 → map.getLsbD s = false → buff.Covered map s

/-- The good sectors of a whole segment. -/
theorem goodBelow_whole (map : SectorMap) : goodBelow map 32 = 32 - countOnes map := by
  have hcount : countOnes map = Nat.count (map.getLsbD ·) 32 := by
    rw [countOnes_eq_card, markedSectors, Nat.count_eq_card_filter_range]
  have := goodBelow_add_count map 32
  omega

/-- The bytes of a buffer whose address agrees with its good sectors. -/
theorem setBytes_bytes {buff : Buffer} {status : BufferState} (hdata : buff.dataOffset ≤ 32)
    (hptr : buff.ptr = buff.dmaAddress + buff.dataOffset * ftSectorSize) :
    (setBytes buff status).bytes = buff.dataOffset * ftSectorSize := by
  rw [setBytes]
  dsimp only
  rw [hptr, toUint, ftSectorSize]
  omega

/-- A segment that was read to its end. -/
theorem Buffer.InProgress.finished {map : SectorMap} {buff : Buffer} (h : buff.InProgress map)
    (hend : buff.remaining = 0) : (setBytes buff .done).Finished map where
  data := h.data
  ptr := h.ptr
  remaining := hend
  bytes := setBytes_bytes (by have := goodBelow_le map buff.sectorOffset; have := h.sectors; have := h.data; omega) h.ptr
  whole := by
    intro _
    have hwhole : buff.sectorOffset = 32 := by
      have := h.sectors
      omega
    exact ⟨fun _ => hwhole, fun s hs hgood => h.covered s (by omega) hgood⟩

/-- A segment that is given up, because it was faked, or because it was deleted and all its other sectors are
flagged. -/
theorem Buffer.InProgress.givenUp {map : SectorMap} {buff : Buffer} (h : buff.InProgress map)
    (deleted : Bool) (soft : SectorMap) (next : ℕ)
    (hgiven : drivenMap map = fakeSegment ∨ deleted = true ∧
      ∀ s, s < 32 → buff.softErrorMap.getLsbD s = true ∨ buff.sectorOffset ≤ s → soft.getLsbD s = true) :
    Buffer.Finished map (setBytes { buff with
      deleted := deleted
      remaining := 0
      softErrorMap := soft
      nextSegment := next } .done) where
  data := h.data
  ptr := h.ptr
  remaining := rfl
  bytes := setBytes_bytes (by have := goodBelow_le map buff.sectorOffset; have := h.sectors; have := h.data; dsimp only; omega) h.ptr
  whole := by
    intro hreal
    obtain ⟨hdeleted, hflagged⟩ := hgiven.resolve_left hreal
    refine ⟨fun hkept => absurd hdeleted (ne_of_eq_of_ne hkept Bool.false_ne_true), fun s hs hgood => ?_⟩
    cases Nat.lt_or_ge s buff.sectorOffset with
    | inl hlt => exact (h.covered s hlt hgood).imp_left fun hsoft => hflagged s hs (Or.inl hsoft)
    | inr hge => exact Or.inl (hflagged s hs (Or.inr hge))

/-- What `get_transfer_size()` tells of a transfer within the request: its sectors, or that it has to
be tried again. -/
theorem getTransferSize_cases {setting : Setting} {buff : Buffer} {result : FdcResult} {cause : ErrorCause}
    (hcount : fdcCount setting buff result ≤ buff.sectorCount) (hsectors : buff.sectorCount ≤ 32)
    (hresidue : result.dmaResidue = none → cause = .noError ∨ 0 < buff.sectorCount) :
    (getTransferSize setting buff result cause = (buff, (fdcCount setting buff result : ℤ)) ∧
      (cause = .noError ∨ 0 < buff.sectorCount)) ∨
    getTransferSize setting buff result cause = ({ buff with sectorCount := 0 }, -eagain) := by
  have hint : Header.int (fdcCount setting buff result) = fdcCount setting buff result :=
    Header.int_eq_self (by omega) (by omega)
  rw [getTransferSize]
  cases hr : result.dmaResidue with
  | none => exact Or.inl ⟨by rw [hint], hresidue hr⟩
  | some residue =>
    dsimp only
    split
    · exact Or.inr rfl
    · split
      · exact Or.inr rfl
      · rename_i hmatch
        refine Or.inl ⟨by rw [hint], ?_⟩
        by_cases hcause : cause = .noError
        · exact Or.inl hcause
        · exact Or.inr (by by_contra hzero; exact hmatch ⟨by omega, hcause⟩)

/-- A segment that is set up with what comes behind it. -/
structure Buffer.Planned (fresh planned : Buffer) : Prop where
  inProgress : ∀ {map : SectorMap}, fresh.InProgress map → planned.InProgress map
  placed : ∀ {map : SectorMap}, fresh.Placed map → planned.Placed map
  status : planned.status = fresh.status
  segmentId : planned.segmentId = fresh.segmentId
  bytes : planned.bytes = fresh.bytes
  nextSegment : planned.nextSegment = 0 ∨ planned.nextSegment = fresh.nextSegment

/-- Whether or not reading ahead ends with a segment, nothing changes but what comes behind it. -/
theorem exists_planned (fresh : Buffer) (stop : Bool) :
    ∃ planned, (if stop = true then { fresh with nextSegment := 0 } else fresh) = planned ∧ fresh.Planned planned := by
  cases stop with
  | true => exact ⟨_, rfl, fun h => { h with }, fun h => { h with }, rfl, rfl, rfl, Or.inl rfl⟩
  | false => exact ⟨_, rfl, id, id, rfl, rfl, rfl, Or.inr rfl⟩

section Setup

variable {setting : Setting} {runner : Runner} {buff : Buffer} {segmentId : ℕ} {skip : Bool}

/-- A segment other than the last one is set up from its first sector on. -/
theorem ftapeSetupNewSegment_new (h : runner.oldSegmentId ≠ segmentId) :
    ftapeSetupNewSegment setting runner buff segmentId skip =
      ({ runner with oldSegmentId := segmentId },
        setupSegment setting { buff with shortStart := false, retry := 0, skip := 0 } segmentId 0
          ftSectorsPerSegment false) := by
  rw [ftapeSetupNewSegment, if_neg h]

/-- A retry that is not made where the buffer says, but at the last sector of the segment. -/
def FastFails (setting : Setting) (runner : Runner) (buff : Buffer) (segmentId : ℕ) : Prop :=
  setting.ftIgnoreEccErr = true ∧ 1 < buff.skip ∧ buff.skip < ftSectorsPerSegment - 1 ∧
    runner.lastSegmentSkipped ≠ segmentId

instance (setting : Setting) (runner : Runner) (buff : Buffer) (segmentId : ℕ) :
    Decidable (FastFails setting runner buff segmentId) :=
  inferInstanceAs (Decidable (_ ∧ _ ∧ _ ∧ _))

/-- A retry goes on where the buffer says, or at the last sector. -/
theorem ftapeSetupNewSegment_again (h : runner.oldSegmentId = segmentId) :
    ∃ lastSkipped offset, ftapeSetupNewSegment setting runner buff segmentId true =
        ({ runner with lastSegmentSkipped := lastSkipped }, setupSegment setting
          { buff with
            retry := buff.retry + 1
            shortStart := buff.shortStart && decide (0 < offset)
            skip := offset } segmentId offset (ftSectorsPerSegment - offset) true) ∧
      (offset = buff.skip ∨ FastFails setting runner buff segmentId ∧ offset = ftSectorsPerSegment - 1) := by
  have hskip : ∃ lastSkipped offset, retrySkip setting runner { buff with retry := buff.retry + 1 } segmentId true =
        ({ runner with lastSegmentSkipped := lastSkipped }, { buff with retry := buff.retry + 1, skip := offset },
          offset) ∧
      (offset = buff.skip ∨ FastFails setting runner buff segmentId ∧ offset = ftSectorsPerSegment - 1) := by
    rw [retrySkip]
    dsimp only
    by_cases hpos : 0 < buff.skip
    · rw [if_pos ⟨rfl, hpos⟩]
      by_cases hfast : FastFails setting runner buff segmentId
      · refine ⟨segmentId, ftSectorsPerSegment - 1, ?_, Or.inr ⟨hfast, rfl⟩⟩
        rw [FastFails] at hfast
        rw [if_pos hfast]
      · refine ⟨runner.lastSegmentSkipped, buff.skip, ?_, Or.inl rfl⟩
        rw [FastFails] at hfast
        rw [if_neg hfast]
    · rw [if_neg fun hboth => hpos hboth.2]
      exact ⟨runner.lastSegmentSkipped, buff.skip, by rw [Nat.eq_zero_of_not_pos hpos], Or.inl rfl⟩
  obtain ⟨lastSkipped, offset, hskip, hoffset⟩ := hskip
  refine ⟨lastSkipped, offset, ?_, hoffset⟩
  rw [ftapeSetupNewSegment, if_pos h, hskip]

/-- Going on with the next segment sets it up in a buffer that stays what it is otherwise. -/
theorem ftapeSetupNewSegment_next (buff : Buffer) (skip : Bool) (h : runner.oldSegmentId ≠ segmentId) :
    ∃ buff', ftapeSetupNewSegment setting runner buff segmentId skip =
        ({ runner with oldSegmentId := segmentId }, buff') ∧
      buff'.InProgress (setting.badSectorEntry segmentId) ∧ buff'.status = buff.status ∧
      buff'.segmentId = segmentId ∧ buff'.nextSegment = segmentId + 1 :=
  ⟨_, ftapeSetupNewSegment_new h, setupSegment_fresh setting _ segmentId false rfl,
    setupSegment_status _ _ _ _ _ _, setupSegment_segmentId _ _ _ _ _ _, setupSegment_nextSegment _ _ _ _ _ _⟩

/-- Starting to read sets a segment up from its first sector on, or where its retry left off, or at its last sector if
nothing in front of that is lost. -/
theorem ftapeSetupNewSegment_inProgress
    (h : runner.oldSegmentId = segmentId →
      buff.InProgress (setting.badSectorEntry segmentId) ∨ buff.skip = 0)
    (hfast : runner.oldSegmentId = segmentId → FastFails setting runner buff segmentId →
      ∀ s, s < ftSectorsPerSegment - 1 → (setting.badSectorEntry segmentId).getLsbD s = false →
        buff.Keeps (setting.badSectorEntry segmentId) (ftSectorsPerSegment - 1) s) :
    ∃ lastSkipped buff', ftapeSetupNewSegment setting runner buff segmentId true =
        ({ runner with oldSegmentId := segmentId, lastSegmentSkipped := lastSkipped }, buff') ∧
      buff'.InProgress (setting.badSectorEntry segmentId) ∧ buff'.segmentId = segmentId ∧
      buff'.nextSegment = segmentId + 1 := by
  by_cases hold : runner.oldSegmentId = segmentId
  · obtain ⟨lastSkipped, offset, hsetup, hoffset⟩ := @ftapeSetupNewSegment_again setting _ buff _ hold
    refine ⟨lastSkipped, _, by rw [hsetup, ← hold], ?_, setupSegment_segmentId _ _ _ _ _ _,
      setupSegment_nextSegment _ _ _ _ _ _⟩
    rcases hoffset with rfl | ⟨hfails, rfl⟩
    · cases h hold with
      | inl hprogress =>
        have hretry : Buffer.InProgress (setting.badSectorEntry segmentId)
            { buff with retry := buff.retry + 1, shortStart := buff.shortStart && decide (0 < buff.skip) } :=
          { hprogress with }
        exact hretry.setupSegment_retry (by have := hprogress.skip; have := hprogress.sectors; dsimp only; omega)
      | inr hskip =>
        rw [hskip]
        exact setupSegment_fresh setting _ segmentId true rfl
    · refine setupSegment_again rfl (by decide) (fun hdriven => ?_) (hfast hold hfails)
      -- a faked segment is never tried again behind its first sector
      have hskip : buff.skip = 0 := by
        cases h hold with
        | inl hprogress => exact (hprogress.fake hdriven).2
        | inr hskip => exact hskip
      have hlow := hfails.2.1
      omega
  · exact ⟨runner.lastSegmentSkipped, _, ftapeSetupNewSegment_new hold, setupSegment_fresh setting _ segmentId false rfl,
      setupSegment_segmentId _ _ _ _ _ _, setupSegment_nextSegment _ _ _ _ _ _⟩

end Setup

end Ftape.Isr
