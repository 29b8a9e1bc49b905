import Ftape.Isr.Residue

/-!
# The size of a transfer

`get_transfer_size()` works out how many sectors were transferred from the place where the controller
stopped, and checks it against what the DMA controller did not move. Both numbers are unsigned, so a
controller that stopped in front of the request passes the check if the residue makes up for it.
-/

namespace Ftape.Isr

/-- How far behind the start of the request the controller stopped, by its result. -/
def stopDistance (setting : Setting) (buff : Buffer) (result : FdcResult) : ℤ :=
  if setting.dittoEz then
    (if (result.cylinder.toNat : ℤ) - buff.cyl.toNat < 0 then
        (result.cylinder.toNat : ℤ) - buff.cyl.toNat + 255
      else (result.cylinder.toNat : ℤ) - buff.cyl.toNat) * 128 +
      result.sector.toNat - buff.sect.toNat - buff.sectorOffset
  else if result.cylinder ≠ buff.cyl ∧ result.sector = 1 then buff.sectorCount
  else (result.sector.toNat : ℤ) - buff.sect.toNat - buff.sectorOffset

/-- The sectors a residue counts as missing, a part of a sector as a whole one. -/
def residueSectors (residue : ℕ) : ℕ := (residue + 1023) / 1024

/-- A request that lies in its segment. -/
structure Buffer.Requests (buff : Buffer) : Prop where
  some : 0 < buff.sectorCount
  inside : buff.sectorOffset + buff.sectorCount ≤ ftSectorsPerSegment

section Size

variable {setting : Setting} {buff : Buffer} {result : FdcResult} {cause : ErrorCause}

/-- The count of the controller is a distance. -/
theorem fdcCount_eq (h : buff.sectorCount < 0x100000000) :
    fdcCount setting buff result = toUint (stopDistance setting buff result) := by
  rw [fdcCount, stopDistance]
  split
  · rfl
  · rw [getFdcTransferSize]
    split
    · rw [toUint_natCast h]
    · rfl

/-- Bytes are less than 256, so the distance is short. -/
theorem stopDistance_bounds (h : buff.Requests) :
    -287 ≤ stopDistance setting buff result ∧ stopDistance setting buff result ≤ 32895 := by
  have hcylinder := result.cylinder.isLt
  have hsector := result.sector.isLt
  have hcyl := buff.cyl.isLt
  have hsect := buff.sect.isLt
  have hinside := h.inside
  rw [sectorsPerSegment_eq] at hinside
  rw [stopDistance]
  split
  · split
    · omega
    · omega
  · split
    · omega
    · omega

/-- An `unsigned int` taken for a distance again. -/
theorem int_toUint {distance : ℤ} (hlow : -0x80000000 ≤ distance) (hhigh : distance < 0x80000000) :
    Header.int (toUint distance) = distance := by
  have hcast : (toUint distance : ℤ) = distance % 0x100000000 := by
    rw [toUint]
    omega
  have hmod := Int.emod_bmod distance 0x100000000
  push_cast at hmod
  rw [hcast, Header.int, hmod]
  exact Header.int_eq_self hlow hhigh

/-- The sum of both counts, which wraps around if the distance is negative and the residue makes up for
it. -/
theorem uint_add_residue {distance : ℤ} {missing : ℕ} (hlow : -287 ≤ distance) (hhigh : distance ≤ 32895)
    (hmissing : missing ≤ 32) :
    (Header.uint (toUint distance + missing) : ℤ) =
      if distance + missing < 0 then distance + missing + 0x100000000 else distance + missing := by
  rw [Header.uint, toUint]
  split
  · omega
  · omega

/-- `get_transfer_size()` when the back end can tell what is missing: the counts may contradict each other,
and an error may come after the last sector. -/
theorem getTransferSize_some (h : buff.Requests) {residue : ℕ} (hresidue : result.dmaResidue = some residue)
    (hle : residue ≤ buff.sectorCount * ftSectorSize) :
    getTransferSize setting buff result cause =
      if stopDistance setting buff result + residueSectors residue < 0 ∨
          buff.sectorCount < stopDistance setting buff result + residueSectors residue ∨
          (stopDistance setting buff result = buff.sectorCount ∧ cause ≠ .noError) then
        ({ buff with sectorCount := 0 }, -eagain)
      else (buff, stopDistance setting buff result) := by
  have hinside := h.inside
  rw [sectorsPerSegment_eq] at hinside
  obtain ⟨hlow, hhigh⟩ : -287 ≤ stopDistance setting buff result ∧ stopDistance setting buff result ≤ 32895 :=
    stopDistance_bounds h
  have hcount : fdcCount setting buff result = toUint (stopDistance setting buff result) :=
    fdcCount_eq (by omega)
  have hsectors : Header.uint (residue + (ftSectorSize - 1)) / ftSectorSize = residueSectors residue := by
    rw [show ftSectorSize = 1024 from rfl] at hle
    exact residueSectors_eq (by omega)
  have hmissing : residueSectors residue ≤ 32 := by
    rw [show ftSectorSize = 1024 from rfl] at hle
    rw [residueSectors]
    omega
  have hsum := uint_add_residue hlow hhigh hmissing
  have hwhole : toUint (stopDistance setting buff result) = buff.sectorCount ↔
      stopDistance setting buff result = buff.sectorCount := by
    rw [toUint]
    omega
  rw [getTransferSize, hresidue, hcount]
  dsimp only
  rw [hsectors, int_toUint (by omega) (by omega)]
  by_cases hcontradicts : stopDistance setting buff result + residueSectors residue < 0 ∨
      buff.sectorCount < stopDistance setting buff result + residueSectors residue
  · rw [if_pos (by split at hsum <;> omega), if_pos (or_assoc.mp (Or.inl hcontradicts))]
  · rw [if_neg (by split at hsum <;> omega)]
    obtain ⟨hnonneg, hfits⟩ := not_or.mp hcontradicts
    by_cases hlate : stopDistance setting buff result = buff.sectorCount ∧ cause ≠ .noError
    · rw [if_pos (hlate.imp_left hwhole.mpr), if_pos (Or.inr (Or.inr hlate))]
    · rw [if_neg fun hrequest => hlate (hrequest.imp_left hwhole.mp),
        if_neg (not_or.mpr ⟨hnonneg, not_or.mpr ⟨hfits, hlate⟩⟩)]

/-- `get_transfer_size()` returns `-EAGAIN` or a part of the request exactly if the controller did not stop in
front of the request by sectors that the residue makes up for. Eleven sectors in front look like `-EAGAIN`. -/
theorem getTransferSize_range_iff (h : buff.Requests) {residue : ℕ}
    (hresidue : result.dmaResidue = some residue) (hle : residue ≤ buff.sectorCount * ftSectorSize) :
    ((getTransferSize setting buff result cause).2 = -eagain ∨
        0 ≤ (getTransferSize setting buff result cause).2 ∧
          (getTransferSize setting buff result cause).2 ≤ buff.sectorCount) ↔
      ¬(stopDistance setting buff result < 0 ∧
        -stopDistance setting buff result ≤ residueSectors residue ∧
        stopDistance setting buff result ≠ -eagain) := by
  rw [getTransferSize_some h hresidue hle]
  by_cases hrejected : stopDistance setting buff result + residueSectors residue < 0 ∨
      buff.sectorCount < stopDistance setting buff result + residueSectors residue ∨
      (stopDistance setting buff result = buff.sectorCount ∧ cause ≠ .noError)
  · rw [if_pos hrejected]
    refine iff_of_true (Or.inl rfl) ?_
    rintro ⟨hfront, hmade, -⟩
    have hpositive := h.some
    have hmissing : residueSectors residue ≤ buff.sectorCount := by
      rw [show ftSectorSize = 1024 from rfl] at hle
      rw [residueSectors]
      omega
    rcases hrejected with hless | hmore | hlate
    · omega
    · omega
    · omega
  · rw [if_neg hrejected]
    obtain ⟨hnonneg, hfits⟩ := not_or.mp hrejected
    have hmore := (not_or.mp hfits).1
    dsimp only
    omega

end Size

/-- A transfer of four sectors that stopped where it began. -/
theorem getTransferSize_range_iff_none_moved :
    (getTransferSize spottedTape (requestBuffer 4) { stopResult 2 with dmaResidue := some 4096 } .noDataError).2 =
        -eagain ∨
      0 ≤ (getTransferSize spottedTape (requestBuffer 4) { stopResult 2 with dmaResidue := some 4096 }
        .noDataError).2 ∧
      (getTransferSize spottedTape (requestBuffer 4) { stopResult 2 with dmaResidue := some 4096 }
        .noDataError).2 ≤ (requestBuffer 4).sectorCount := by
  have hrequests : (requestBuffer 4).Requests := ⟨by decide, by decide⟩
  exact (getTransferSize_range_iff hrequests rfl (by decide)).mpr (by decide)

/-- A transfer of four sectors that stopped one sector in front of where it began, with one sector missing: both
counts add up to nothing, and the result is `-1`. -/
theorem getTransferSize_stops_in_front :
    (requestBuffer 4).Requests ∧ 1024 ≤ (requestBuffer 4).sectorCount * ftSectorSize ∧
      (getTransferSize spottedTape (requestBuffer 4) { stopResult 1 with dmaResidue := some 1024 } .noDataError).2 =
        -1 :=
  ⟨⟨by decide, by decide⟩, by decide, by decide⟩

end Ftape.Isr
