import Ftape.Isr.TransferSize

/-!
# Verifying a segment

A track that was formatted is read back, and the sectors that cannot be read become bad sectors. So a
sector must not be taken for a good one unless the controller went over it. The driver relies on the size
of the transfer, but a transfer whose size is contradicted counts as none, which is all that was asked for
by then.
-/

namespace Ftape.Isr

open Ftape.Write

/-- The part of `determine_verify_progress()` for a transfer that did not go over all sectors. -/
def verifyFailure (setting : Setting) (buff : Buffer) (cause : ErrorCause) (sectorCount : ℤ) : Buffer :=
  let sectorOffset := toUint (buff.sectorOffset + sectorCount)
  let buff := { buff with
    sectorCount := toUint sectorCount
    sectorOffset := sectorOffset
    remaining := toUint (ftSectorsPerSegment - sectorOffset) }
  let buff := if cause = .overrunError then
      if 0 < buff.retry then { buff with retry := buff.retry - 1, shortStart := false } else buff
    else { buff with shortStart := true, retry := setting.ftSoftRetries }
  let buff := { buff with
    sectorOffset := Header.uint (buff.sectorOffset + 1)
    remaining := toUint (buff.remaining - 1) }
  let buff := updateErrorMaps setting buff (toUint (buff.sectorOffset - 1))
  if 0 < buff.remaining then
    { buff with sectorOffset := Header.uint (buff.sectorOffset + 1), remaining := buff.remaining - 1 }
  else buff

/-- `determine_verify_progress()`. -/
def determineVerifyProgress (setting : Setting) (buff : Buffer) (cause : ErrorCause) (result : FdcResult) :
    Buffer :=
  let (buff, transferred) := getTransferSize setting buff result cause
  let sectorCount := if transferred = -eagain then 0 else transferred
  if cause = .noError ∧ toUint sectorCount = buff.sectorCount then
    { buff with sectorOffset := ftSectorsPerSegment, remaining := 0 }
  else verifyFailure setting buff cause sectorCount

/-- A sector is in one of the error maps. -/
def Buffer.Flags (buff : Buffer) (sector : ℕ) : Prop :=
  (buff.softErrorMap ||| buff.hardErrorMap).getLsbD sector = true

instance (buff : Buffer) : DecidablePred buff.Flags := fun _ => inferInstanceAs (Decidable (_ = _))

/-- The size check confirmed that all sectors that were asked for were transferred, without an error. -/
def Confirmed (setting : Setting) (buff : Buffer) (cause : ErrorCause) (result : FdcResult) : Prop :=
  cause = .noError ∧ (getTransferSize setting buff result cause).2 = buff.sectorCount

/-- The sectors that were transferred, by the size check. -/
def transferredSectors (setting : Setting) (buff : Buffer) (cause : ErrorCause) (result : FdcResult) : ℤ :=
  if (getTransferSize setting buff result cause).2 = -eagain then 0
  else (getTransferSize setting buff result cause).2

/-- The rest of a segment is only taken for good if the size check confirmed that it was transferred, else the
sector where the transfer stopped is in an error map. -/
structure VerifySound (setting : Setting) (buff : Buffer) (cause : ErrorCause) (result : FdcResult)
    (after : Buffer) : Prop where
  good : after.sectorOffset = ftSectorsPerSegment → after.remaining = 0 →
    after.softErrorMap ||| after.hardErrorMap = 0 → Confirmed setting buff cause result
  flagged : ¬Confirmed setting buff cause result →
    ∃ sector : ℕ, sector = buff.sectorOffset + transferredSectors setting buff cause result ∧ after.Flags sector

/-- The count of the controller and the residue add up to more than was asked for. -/
def Contradicts (setting : Setting) (buff : Buffer) (result : FdcResult) : Prop :=
  ∃ residue ∈ result.dmaResidue, buff.sectorCount <
    Header.uint (fdcCount setting buff result + Header.uint (residue + (ftSectorSize - 1)) / ftSectorSize)

instance (setting : Setting) (buff : Buffer) (result : FdcResult) : Decidable (Contradicts setting buff result) :=
  inferInstanceAs (Decidable (∃ _ ∈ _, _))

/-- When verifying a segment goes well: counts that contradict each other come with an error or at a sector that is
flagged already, an error does not come behind the last sector of the segment unless the residue tells so, and
the controller stopped in the segment. -/
def VerifiesWell (setting : Setting) (buff : Buffer) (cause : ErrorCause) (result : FdcResult) : Prop :=
  if Contradicts setting buff result then cause ≠ .noError ∨ buff.Flags buff.sectorOffset
  else if stopDistance setting buff result = buff.sectorCount then
    cause = .noError ∨ result.dmaResidue ≠ none ∨ buff.sectorOffset + buff.sectorCount < ftSectorsPerSegment
  else stopDistance setting buff result = -eagain ∨
    0 ≤ buff.sectorOffset + stopDistance setting buff result ∧
      buff.sectorOffset + stopDistance setting buff result < ftSectorsPerSegment

section Verify

variable {setting : Setting} {buff : Buffer} {result : FdcResult} {cause : ErrorCause}

/-- `update_error_maps()` flags one sector of the segment, softly or hard. -/
theorem flags_updateErrorMaps (errorOffset sector : ℕ) :
    (updateErrorMaps setting buff errorOffset).Flags sector ↔
      buff.Flags sector ∨ (sector = errorOffset ∧ errorOffset < ftSectorsPerSegment) := by
  rw [updateErrorMaps, sectorsPerSegment_eq]
  split
  · rename_i hoff
    constructor
    · exact Or.inl
    · intro hflag
      cases hflag with
      | inl hbefore => exact hbefore
      | inr hhere => omega
  · rename_i hin
    have hbit := @getLsbD_one_shiftLeft errorOffset (by omega) sector
    generalize (1 : SectorMap) <<< errorOffset = bit at hbit ⊢
    by_cases hsector : sector = errorOffset
    · rw [decide_eq_true hsector] at hbit
      refine iff_of_true ?_ (Or.inr ⟨hsector, by omega⟩)
      split
      · simp [Buffer.Flags, hbit]
      · simp [Buffer.Flags, hbit]
    · rw [decide_eq_false hsector] at hbit
      rw [or_iff_left fun hhere => hsector hhere.1]
      split
      · simp [Buffer.Flags, hbit]
      · have hlt : buff.softErrorMap.getLsbD sector = true → sector < 32 := BitVec.lt_of_getLsbD
        simp only [Buffer.Flags, BitVec.getLsbD_or, BitVec.getLsbD_and, BitVec.getLsbD_not, hbit, Bool.or_false]
        cases hsoft : buff.softErrorMap.getLsbD sector with
        | false => simp
        | true =>
          cases buff.hardErrorMap.getLsbD sector with
          | false => simp [hlt hsoft]
          | true => simp

/-- A transfer that stopped flags the sector where it stopped, if it is one of the segment. -/
theorem flags_verifyFailure (sectorCount : ℤ) (sector : ℕ) :
    (verifyFailure setting buff cause sectorCount).Flags sector ↔
      buff.Flags sector ∨ (sector = toUint (buff.sectorOffset + sectorCount) ∧
        toUint (buff.sectorOffset + sectorCount) < ftSectorsPerSegment) := by
  have hmarked : ∀ stopped : Buffer, stopped.softErrorMap = buff.softErrorMap →
      stopped.hardErrorMap = buff.hardErrorMap →
      stopped.sectorOffset = Header.uint (toUint (buff.sectorOffset + sectorCount) + 1) →
      ((updateErrorMaps setting stopped (toUint (stopped.sectorOffset - 1))).Flags sector ↔
        buff.Flags sector ∨ (sector = toUint (buff.sectorOffset + sectorCount) ∧
          toUint (buff.sectorOffset + sectorCount) < ftSectorsPerSegment)) := by
    intro stopped hsoft hhard hoffset
    have hback : toUint ((stopped.sectorOffset : ℤ) - 1) = toUint (buff.sectorOffset + sectorCount) := by
      rw [hoffset, Header.uint, toUint, toUint]
      omega
    rw [flags_updateErrorMaps, hback, Buffer.Flags, hsoft, hhard]
    rfl
  have hrest : ∀ marked : Buffer, (if 0 < marked.remaining then { marked with
      sectorOffset := Header.uint (marked.sectorOffset + 1), remaining := marked.remaining - 1 }
      else marked).Flags sector ↔ marked.Flags sector := by
    intro marked
    split
    · rfl
    · rfl
  rw [verifyFailure]
  dsimp only
  rw [hrest]
  apply hmarked
  · split_ifs
    · rfl
    · rfl
    · rfl
  · split_ifs
    · rfl
    · rfl
    · rfl
  · split_ifs
    · rfl
    · rfl
    · rfl

/-- What the size check comes to. -/
theorem getTransferSize_eq (h : buff.Requests) :
    getTransferSize setting buff result cause =
      if Contradicts setting buff result ∨
          (result.dmaResidue ≠ none ∧ stopDistance setting buff result = buff.sectorCount ∧ cause ≠ .noError) then
        ({ buff with sectorCount := 0 }, -eagain)
      else (buff, stopDistance setting buff result) := by
  have hinside := h.inside
  rw [sectorsPerSegment_eq] at hinside
  obtain ⟨hlow, hhigh⟩ : -287 ≤ stopDistance setting buff result ∧ stopDistance setting buff result ≤ 32895 :=
    stopDistance_bounds h
  have hcount : fdcCount setting buff result = toUint (stopDistance setting buff result) :=
    fdcCount_eq (by omega)
  have hwhole : toUint (stopDistance setting buff result) = buff.sectorCount ↔
      stopDistance setting buff result = buff.sectorCount := by
    rw [toUint]
    omega
  have hint : Header.int (toUint (stopDistance setting buff result)) = stopDistance setting buff result :=
    int_toUint (by omega) (by omega)
  rw [getTransferSize]
  cases hresidue : result.dmaResidue with
  | none => simp [Contradicts, hresidue, hcount, hint]
  | some residue => simp [Contradicts, hresidue, hcount, hint, hwhole, ite_or]

/-- A buffer that flags a sector has a bit in its maps. -/
theorem Buffer.Flags.maps_ne_zero {sector : ℕ} (h : buff.Flags sector) :
    buff.softErrorMap ||| buff.hardErrorMap ≠ 0 := by
  intro hzero
  rw [Buffer.Flags, hzero] at h
  simp at h

/-- Without a confirmation, verifying is sound exactly if the sector where the transfer stopped is flagged. -/
theorem verifySound_iff_flags {after : Buffer} (hconfirmed : ¬Confirmed setting buff cause result) {stop : ℤ}
    (hstop : buff.sectorOffset + transferredSectors setting buff cause result = stop) :
    VerifySound setting buff cause result after ↔ ∃ sector : ℕ, (sector : ℤ) = stop ∧ after.Flags sector := by
  constructor
  · intro h
    rw [← hstop]
    exact h.flagged hconfirmed
  · intro h
    obtain ⟨sector, hsector, hflags⟩ := h
    refine ⟨fun _ _ hzero => absurd hzero hflags.maps_ne_zero, fun _ => ⟨sector, ?_, hflags⟩⟩
    rw [hstop]
    exact hsector

/-- A failure flags the sector where the transfer stopped exactly if it is one of the segment. -/
theorem verifySound_verifyFailure (hconfirmed : ¬Confirmed setting buff cause result) {start : Buffer}
    (hstart : start.sectorOffset = buff.sectorOffset)
    (hbounds : -0x80000000 ≤ buff.sectorOffset + transferredSectors setting buff cause result ∧
      buff.sectorOffset + transferredSectors setting buff cause result < 0x80000000) :
    VerifySound setting buff cause result
        (verifyFailure setting start cause (transferredSectors setting buff cause result)) ↔
      0 ≤ buff.sectorOffset + transferredSectors setting buff cause result ∧
        buff.sectorOffset + transferredSectors setting buff cause result < ftSectorsPerSegment := by
  rw [verifySound_iff_flags hconfirmed rfl, sectorsPerSegment_eq]
  constructor
  · intro h
    obtain ⟨sector, hsector, hflags⟩ := h
    have hlt : sector < 32 := BitVec.lt_of_getLsbD hflags
    omega
  · intro h
    refine ⟨toUint (buff.sectorOffset + transferredSectors setting buff cause result), ?_, ?_⟩
    · rw [toUint]
      omega
    · rw [flags_verifyFailure, hstart, sectorsPerSegment_eq]
      refine Or.inr ⟨rfl, ?_⟩
      rw [toUint]
      omega

/-- A transfer that has to be repeated counts as one of no sectors, which flags the first one that was asked
for unless no error was reported. -/
theorem verifySound_retry (h : buff.Requests)
    (hretry : getTransferSize setting buff result cause = ({ buff with sectorCount := 0 }, -eagain)) :
    VerifySound setting buff cause result (determineVerifyProgress setting buff cause result) ↔
      cause ≠ .noError ∨ buff.Flags buff.sectorOffset := by
  have hinside := h.inside
  have hsome := h.some
  rw [sectorsPerSegment_eq] at hinside
  have hconfirmed : ¬Confirmed setting buff cause result := by
    rw [Confirmed, hretry, eagain]
    omega
  have hnone : transferredSectors setting buff cause result = 0 := by
    rw [transferredSectors, hretry]
    exact if_pos rfl
  rw [determineVerifyProgress, hretry]
  dsimp only
  rw [if_pos rfl]
  by_cases hcause : cause = .noError
  · have hall : cause = .noError ∧ toUint 0 = 0 := ⟨hcause, rfl⟩
    rw [if_pos hall, verifySound_iff_flags hconfirmed (by rw [hnone, add_zero]), or_iff_right (not_not.mpr hcause)]
    constructor
    · intro hflagged
      obtain ⟨sector, hsector, hflags⟩ := hflagged
      rwa [Int.ofNat_inj.mp hsector] at hflags
    · intro hflags
      exact ⟨buff.sectorOffset, rfl, hflags⟩
  · rw [if_neg fun hall => hcause hall.1]
    refine iff_of_true ?_ (Or.inl hcause)
    have hfailure := @verifySound_verifyFailure _ _ _ _ hconfirmed { buff with sectorCount := 0 } rfl
      (by rw [hnone]; omega)
    rw [hnone, sectorsPerSegment_eq] at hfailure
    exact hfailure.mpr (by omega)

/-- A transfer that stopped flags the sector where it did if it is one of the segment. -/
theorem verifySound_stopped (h : buff.Requests) {distance : ℤ} (hlow : -287 ≤ distance) (hhigh : distance ≤ 32895)
    (hsize : getTransferSize setting buff result cause = (buff, distance))
    (hconfirmed : ¬Confirmed setting buff cause result) :
    VerifySound setting buff cause result (determineVerifyProgress setting buff cause result) ↔
      distance = -eagain ∨
        0 ≤ buff.sectorOffset + distance ∧ buff.sectorOffset + distance < ftSectorsPerSegment := by
  have hinside := h.inside
  have hsome := h.some
  have hagain : eagain = 11 := rfl
  rw [sectorsPerSegment_eq] at hinside
  have htransferred : transferredSectors setting buff cause result = if distance = -eagain then 0 else distance := by
    rw [transferredSectors, hsize]
  have hfailed : ¬(cause = .noError ∧
      toUint (transferredSectors setting buff cause result) = buff.sectorCount) := by
    intro hall
    rw [htransferred, toUint] at hall
    split at hall
    · omega
    · exact hconfirmed ⟨hall.1, by rw [hsize]; dsimp only; omega⟩
  have hprogress : determineVerifyProgress setting buff cause result =
      verifyFailure setting buff cause (transferredSectors setting buff cause result) := by
    rw [determineVerifyProgress, hsize]
    dsimp only
    rw [← htransferred, if_neg hfailed]
  rw [hprogress, verifySound_verifyFailure hconfirmed rfl (by rw [htransferred]; split <;> omega), htransferred,
    sectorsPerSegment_eq]
  by_cases hretry : distance = -eagain
  · rw [if_pos hretry]
    omega
  · rw [if_neg hretry, or_iff_right hretry]

/-- Verifying is sound exactly when it goes well. -/
theorem determineVerifyProgress_sound_iff (h : buff.Requests) :
    VerifySound setting buff cause result (determineVerifyProgress setting buff cause result) ↔
      VerifiesWell setting buff cause result := by
  have hsize := @getTransferSize_eq setting _ result cause h
  have hinside := h.inside
  have hsome := h.some
  rw [sectorsPerSegment_eq] at hinside
  obtain ⟨hlow, hhigh⟩ : -287 ≤ stopDistance setting buff result ∧ stopDistance setting buff result ≤ 32895 :=
    stopDistance_bounds h
  rw [VerifiesWell]
  by_cases hcontradicts : Contradicts setting buff result
  · rw [if_pos hcontradicts]
    rw [if_pos (Or.inl hcontradicts)] at hsize
    exact verifySound_retry h hsize
  rw [if_neg hcontradicts]
  by_cases hwhole : stopDistance setting buff result = buff.sectorCount
  · rw [if_pos hwhole]
    by_cases hcause : cause = .noError
    · rw [if_neg fun hlate => hlate.elim hcontradicts fun hlate => hlate.2.2 hcause] at hsize
      have hconfirmed : Confirmed setting buff cause result := ⟨hcause, by rw [hsize]; exact hwhole⟩
      exact iff_of_true ⟨fun _ _ _ => hconfirmed, fun hnot => absurd hconfirmed hnot⟩ (Or.inl hcause)
    · by_cases hresidue : result.dmaResidue = none
      · rw [if_neg fun hlate => hlate.elim hcontradicts fun hlate => hlate.1 hresidue] at hsize
        rw [verifySound_stopped h hlow hhigh hsize fun hconfirmed => hcause hconfirmed.1, hwhole,
          or_iff_right hcause, or_iff_right (not_not.mpr hresidue), sectorsPerSegment_eq, eagain]
        omega
      · rw [if_pos (Or.inr ⟨hresidue, hwhole, hcause⟩)] at hsize
        rw [verifySound_retry h hsize]
        exact iff_of_true (Or.inl hcause) (Or.inr (Or.inl hresidue))
  · rw [if_neg hwhole]
    rw [if_neg fun hlate => hlate.elim hcontradicts fun hlate => hwhole hlate.2.1] at hsize
    have hconfirmed : ¬Confirmed setting buff cause result := by
      intro hconfirmed
      rw [Confirmed, hsize] at hconfirmed
      exact hwhole hconfirmed.2
    exact verifySound_stopped h hlow hhigh hsize hconfirmed

end Verify

/-- A transfer of four sectors that failed at the third one. -/
theorem determineVerifyProgress_sound_third_sector :
    VerifySound spottedTape (requestBuffer 4) .dataCrcError { stopResult 4 with dmaResidue := some 2048 }
      (determineVerifyProgress spottedTape (requestBuffer 4) .dataCrcError
        { stopResult 4 with dmaResidue := some 2048 }) := by
  have hrequests : (requestBuffer 4).Requests := ⟨by decide, by decide⟩
  apply (determineVerifyProgress_sound_iff hrequests).mpr
  rw [VerifiesWell]
  decide

/-- Three sectors that were transferred and two that are missing contradict a request for four. It becomes one for
no sectors, and so many were transferred. -/
theorem determineVerifyProgress_takes_rest_for_good :
    (requestBuffer 4).Requests ∧
      ¬VerifySound spottedTape (requestBuffer 4) .noError { stopResult 5 with dmaResidue := some 2048 }
        (determineVerifyProgress spottedTape (requestBuffer 4) .noError
          { stopResult 5 with dmaResidue := some 2048 }) := by
  refine ⟨⟨by decide, by decide⟩, ?_⟩
  intro hsound
  have hconfirmed := hsound.good (by decide) (by decide) (by decide)
  exact absurd hconfirmed.2 (by decide)

end Ftape.Isr
