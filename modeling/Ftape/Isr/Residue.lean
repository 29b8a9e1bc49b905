import Ftape.Isr.Runs

/-!
# What the back ends count as missing

`terminate_dma()` of a back end tells how much of a transfer the DMA controller did not move. The
driver of the internal controller counts bytes, as `get_transfer_size()` expects it, the driver of the
parallel port tape counts sectors.
-/

namespace Ftape.Isr

/-- `fdc_int_terminate_dma()`, given what `get_dma_residue()` returns. -/
def fdcIntTerminateDma (setting : Setting) (dmaResidue : ℕ) (cause : ErrorCause) : ℕ :=
  if setting.dittoEz = false ∧ cause = .dataCrcError then Header.uint (dmaResidue + ftSectorSize)
  else dmaResidue

/-- The bytes that are left, by the registers `0x13` and `0x14` of the parallel port tape. -/
def trakkerCount (low high : Byte) : ℕ := low.toNat + high.toNat <<< 8

/-- `trakker_terminate_dma()`, given the two registers. -/
def trakkerTerminateDma (low high : Byte) : ℕ :=
  Header.uint (trakkerCount low high + ftSectorSize - 1) / ftSectorSize

/-- What `get_transfer_size()` makes of a result when `terminate_dma()` returns a residue. -/
def transferSizeWith (setting : Setting) (buff : Buffer) (result : FdcResult) (cause : ErrorCause)
    (residue : ℕ) : Buffer × ℤ :=
  getTransferSize setting buff { result with dmaResidue := some residue } cause

/-- Two registers hold less than 65536 bytes. -/
theorem trakkerCount_lt (low high : Byte) : trakkerCount low high < 0x10000 := by
  have hlow := low.isLt
  have hhigh := high.isLt
  rw [trakkerCount, Nat.shiftLeft_eq]
  omega

/-- The sectors that are left, the last one counted as a whole. -/
theorem trakkerTerminateDma_eq (low high : Byte) :
    trakkerTerminateDma low high = (trakkerCount low high + 1023) / 1024 := by
  have := trakkerCount_lt low high
  rw [trakkerTerminateDma, Header.uint, ftSectorSize]
  omega

/-- Only the sectors of a residue matter, the last one counted as a whole. -/
theorem transferSizeWith_congr (setting : Setting) (buff : Buffer) (result : FdcResult) (cause : ErrorCause)
    {residue residue' : ℕ}
    (h : Header.uint (residue + (ftSectorSize - 1)) / ftSectorSize =
      Header.uint (residue' + (ftSectorSize - 1)) / ftSectorSize) :
    transferSizeWith setting buff result cause residue =
      transferSizeWith setting buff result cause residue' := by
  rw [transferSizeWith, transferSizeWith, getTransferSize, getTransferSize]
  dsimp only
  rw [h]
  rfl

/-- A buffer in front of a request for a number of sectors, from the second sector of a segment at the start of its
cylinder on. -/
def requestBuffer (sectorCount : ℕ) : Buffer :=
  { emptyBuffer 0 with sect := 1, sectorOffset := 1, sectorCount := sectorCount }

/-- A result that stops at a sector of the first cylinder. -/
def stopResult (sector : Byte) : FdcResult := ⟨0, 0, 0, 0, sector, none⟩

/-- The count of the controller is a distance from the second sector. -/
theorem fdcCount_stopResult (setting : Setting) (sectorCount : ℕ) (sector : Byte) (residue : Option ℕ) :
    fdcCount setting (requestBuffer sectorCount) { stopResult sector with dmaResidue := residue } =
      toUint (sector.toNat - 2) := by
  have htwo : (sector.toNat : ℤ) - 2 = sector.toNat - 1 - 1 := by omega
  rw [htwo]
  cases hez : setting.dittoEz with
  | false => simp [fdcCount, hez, getFdcTransferSize, requestBuffer, emptyBuffer, stopResult]
  | true => simp [fdcCount, hez, getEzTransferSize, requestBuffer, emptyBuffer, stopResult]

/-- The verdict on a result for such a request. -/
theorem transferSizeWith_request (setting : Setting) (sectorCount : ℕ) (sector : Byte) (cause : ErrorCause)
    (residue : ℕ) :
    (transferSizeWith setting (requestBuffer sectorCount) (stopResult sector) cause residue).2 =
      if sectorCount < Header.uint (toUint (sector.toNat - 2) +
          Header.uint (residue + (ftSectorSize - 1)) / ftSectorSize) then -eagain
      else if toUint (sector.toNat - 2) = sectorCount ∧ cause ≠ .noError then -eagain
      else Header.int (toUint (sector.toNat - 2)) := by
  rw [transferSizeWith, getTransferSize, fdcCount_stopResult]
  dsimp only
  split
  · rename_i hexceeds
    rw [if_pos (show sectorCount < _ from hexceeds)]
  · rename_i hfits
    rw [if_neg (show ¬sectorCount < _ from hfits)]
    split
    · rename_i hunexpected
      rw [if_pos (show _ = sectorCount ∧ _ from hunexpected)]
    · rename_i hexpected
      rw [if_neg (show ¬(_ = sectorCount ∧ _) from hexpected)]

/-- The sectors of a residue. -/
theorem residueSectors_eq {residue : ℕ} (h : residue < 0x20000) :
    Header.uint (residue + (ftSectorSize - 1)) / ftSectorSize = (residue + 1023) / 1024 := by
  rw [Header.uint, ftSectorSize]
  omega

/-- Two residues lead to the same verdicts only if they count the same sectors. -/
theorem residueSectors_of_verdicts {setting : Setting} {sectorCount : ℕ} {cause : ErrorCause}
    {residue residue' : ℕ} (hsectors : sectorCount ≤ 32) (hresidue : residue < 0x20000)
    (hresidue' : residue' < 0x20000) (hless : (residue' + 1023) / 1024 < (residue + 1023) / 1024)
    (hrequest : (residue' + 1023) / 1024 ≤ sectorCount) (hmore : (residue + 1023) / 1024 ≤ sectorCount + 1)
    (h : ∀ sector, transferSizeWith setting (requestBuffer sectorCount) (stopResult sector) cause residue =
      transferSizeWith setting (requestBuffer sectorCount) (stopResult sector) cause residue') : False := by
  rcases Nat.eq_zero_or_pos ((residue' + 1023) / 1024) with hzero | hpos
  · -- a controller that stops in front of the request is taken for one that made up for the residue
    have hverdict := congrArg Prod.snd (h 1)
    have hfdc : toUint (((1 : Byte).toNat : ℤ) - 2) = 0xffffffff := by decide
    have hrejected : sectorCount < Header.uint (0xffffffff + 0) := by
      rw [Header.uint]
      omega
    have haccepted : ¬sectorCount < Header.uint (0xffffffff + (residue + 1023) / 1024) := by
      rw [Header.uint]
      omega
    rw [transferSizeWith_request, transferSizeWith_request, residueSectors_eq hresidue,
      residueSectors_eq hresidue', hfdc, hzero, if_pos hrejected, if_neg haccepted, if_neg (by omega)] at hverdict
    exact absurd hverdict (by decide)
  · -- a controller that counts all but the sectors of the smaller residue
    have hsector : (BitVec.ofNat 8 (sectorCount - (residue' + 1023) / 1024 + 2)).toNat =
        sectorCount - (residue' + 1023) / 1024 + 2 := by
      rw [BitVec.toNat_ofNat]
      omega
    have hfdc : toUint (((sectorCount - (residue' + 1023) / 1024 + 2 : ℕ) : ℤ) - 2) =
        sectorCount - (residue' + 1023) / 1024 := by
      rw [toUint]
      omega
    have hverdict := congrArg Prod.snd (h (BitVec.ofNat 8 (sectorCount - (residue' + 1023) / 1024 + 2)))
    rw [transferSizeWith_request, transferSizeWith_request, residueSectors_eq hresidue,
      residueSectors_eq hresidue', hsector, hfdc, if_pos (by rw [Header.uint]; omega),
      if_neg (by rw [Header.uint]; omega), if_neg (by omega), Header.int_eq_self (by omega) (by omega),
      eagain] at hverdict
    omega

/-- After a transfer of which some bytes are left, both drivers tell the same number exactly when none or
one is left and no sector failed after it was moved. They lead to the same verdicts on all results
exactly when no more than a sector is left and no sector failed after it was moved. -/
theorem terminateDma_agree (setting : Setting) (cause : ErrorCause) (low high : Byte) {sectorCount : ℕ}
    (hsectors : sectorCount ≤ ftSectorsPerSegment) (hcount : trakkerCount low high ≤ sectorCount * ftSectorSize) :
    (fdcIntTerminateDma setting (trakkerCount low high) cause = trakkerTerminateDma low high ↔
      (setting.dittoEz = true ∨ cause ≠ .dataCrcError) ∧ trakkerCount low high ≤ 1) ∧
    ((∀ buff : Buffer, buff.sectorCount = sectorCount → ∀ result,
        transferSizeWith setting buff result cause (fdcIntTerminateDma setting (trakkerCount low high) cause) =
          transferSizeWith setting buff result cause (trakkerTerminateDma low high)) ↔
      (setting.dittoEz = true ∨ cause ≠ .dataCrcError) ∧ trakkerCount low high ≤ ftSectorSize) := by
  have htrakker := trakkerTerminateDma_eq low high
  rw [sectorsPerSegment_eq] at hsectors
  rw [show ftSectorSize = 1024 from rfl] at hcount ⊢
  generalize trakkerCount low high = left at hcount htrakker ⊢
  rw [htrakker]
  have hsmall : (left + 1023) / 1024 ≤ 32 := by omega
  by_cases hmoved : setting.dittoEz = true ∨ cause ≠ .dataCrcError
  · have hint : fdcIntTerminateDma setting left cause = left := by
      refine if_neg fun hfailed => ?_
      rw [hfailed.1, hfailed.2] at hmoved
      exact hmoved.elim nofun fun hne => hne rfl
    rw [hint]
    refine ⟨⟨fun h => ⟨hmoved, by omega⟩, fun h => by omega⟩, fun h => ⟨hmoved, ?_⟩, ?_⟩
    · by_contra hleft
      refine residueSectors_of_verdicts hsectors (by omega) (by omega) ?_ ?_ ?_ fun sector =>
        h (requestBuffer sectorCount) rfl (stopResult sector)
      · omega
      · omega
      · omega
    · rintro ⟨-, hleft⟩ buff - result
      refine transferSizeWith_congr setting buff result cause ?_
      rw [residueSectors_eq (by omega), residueSectors_eq (by omega)]
      omega
  · have hfailed := hmoved
    rw [not_or, Bool.not_eq_true, not_not] at hfailed
    have hint : fdcIntTerminateDma setting left cause = left + 1024 := by
      rw [fdcIntTerminateDma, if_pos hfailed, Header.uint, ftSectorSize]
      omega
    rw [hint]
    refine ⟨⟨fun h => by omega, fun h => absurd h.1 hmoved⟩, fun h => ?_, fun h => absurd h.1 hmoved⟩
    refine absurd (residueSectors_of_verdicts hsectors (by omega) (by omega) ?_ ?_ ?_ fun sector =>
      h (requestBuffer sectorCount) rfl (stopResult sector)) id
    · omega
    · omega
    · omega

/-- With no byte left both drivers tell the same number, and with half of a sector left they lead to the same verdict
on a transfer that stops at its last sector. -/
theorem terminateDma_agree_half_left :
    fdcIntTerminateDma spottedTape (trakkerCount 0 0) .noError = trakkerTerminateDma 0 0 ∧
      transferSizeWith spottedTape (requestBuffer 4) (stopResult 5) .noError
          (fdcIntTerminateDma spottedTape (trakkerCount 0 2) .noError) =
        transferSizeWith spottedTape (requestBuffer 4) (stopResult 5) .noError (trakkerTerminateDma 0 2) := by
  have hhalf := @terminateDma_agree spottedTape .noError 0 2 4 (by decide) (by decide)
  exact ⟨(@terminateDma_agree spottedTape .noError 0 0 4 (by decide) (by decide)).1.mpr ⟨Or.inr nofun, by decide⟩,
    hhalf.2.mpr ⟨Or.inr nofun, by decide⟩ (requestBuffer 4) rfl (stopResult 5)⟩

/-- Four sectors were asked for, and the driver of the parallel port tape takes two that are missing for
one. -/
theorem terminateDma_agree_two_left :
    ∃ buff : Buffer, buff.sectorCount = 4 ∧ transferSizeWith spottedTape buff (stopResult 5) .noError
        (fdcIntTerminateDma spottedTape (trakkerCount 0 8) .noError) ≠
      transferSizeWith spottedTape buff (stopResult 5) .noError (trakkerTerminateDma 0 8) := by
  refine ⟨requestBuffer 4, rfl, fun h => ?_⟩
  exact absurd (congrArg Prod.snd h) (by decide +kernel)

end Ftape.Isr
