import Ftape.Zftape.Basic

/-!
# Hard errors while segments are written

A hard write error makes the ring hand back a sector. While a segment is being written that
sector goes in front of the deblock buffer, whose own last sector joins the list of pending
sectors; while the ring is being emptied it joins the list at once.
-/

namespace Ftape.Zftape

open Ftape.Algebra Ftape.Write

variable {α : Type*}

/-- `zft_zap_write_buffers()`. -/
def zftZapWriteBuffers (zftape : ZftapeInfo α) : ZftapeInfo α := { zftape with hardErrors := [] }

/-- The test for a hard error that both writing routines make after `-EIO`. -/
def headFailed (drive : Drive α) : Bool :=
  match drive.ring with
  | [] => false
  | head :: _ => head.status = .error ∧ head.hardErrorMap ≠ 0

/-- The part of the loop of `zftape_write_segment()` that puts the sector handed back in front of
the deblock buffer and takes the last one from it. -/
def insertScratch (deblock backup scratch : ℕ → α) (segSz : ℕ) : Option ((ℕ → α) × (ℕ → α)) :=
  if 0 < segSz then do
    let deblock ← copy ftBuffSize ftSectorSize deblock 0 scratch 0 ftSectorSize
    let deblock ← copy ftBuffSize ftSegmentSize deblock ftSectorSize backup 0
      ((segSz : ℤ) - ftSectorSize)
    let scratch ← copy ftSectorSize ftSegmentSize scratch 0 backup ((segSz : ℤ) - ftSectorSize)
      ftSectorSize
    some (deblock, scratch)
  else some (deblock, scratch)

/-- The recovery in the loop of `zftape_write_segment()`. -/
def recoverWrite (kernel : Kernel α) (zftape : ZftapeInfo α) (segSz : ℕ) :
    Option (Except Errno (ZftapeInfo α)) := do
  let backup ← copy ftSegmentSize ftBuffSize kernel.fresh 0 zftape.drive.deblockBuffer 0 segSz
  match ← ftapeHardErrorRecovery kernel.ecc zftape.drive.toFtapeInfo kernel.fresh with
  | .error errno => some (.error errno)
  | .ok (ftape, scratch) => do
    let (deblock, scratch) ← insertScratch ftape.deblockBuffer backup scratch segSz
    some (.ok { zftape with
      drive := { zftape.drive with toFtapeInfo := { ftape with deblockBuffer := deblock } }
      capacity := zftape.capacity - ftSectorSize
      deblockBuf := true
      hardErrors := zftape.hardErrors ++ [scratch] })

/-- `zftape_write_segment()`. Each round has its own report; running out of reports stands for a
signal. -/
def zftapeWriteSegment (kernel : Kernel α) (segPos segSz : ℕ) :
    List RunnerReport → ZftapeInfo α → Option (ZftapeInfo α × Except Errno Unit)
  | [], zftape => some (zftape, .error .eintr)
  | report :: reports, zftape =>
    let (drive, result) := ftapeWriteSegment kernel.ecc zftape.drive segPos report
    let zftape := { zftape with drive := drive }
    match result with
    | .ok () => some ({ zftape with deblockBuf := false }, .ok ())
    | .error errno =>
      if errno ≠ .eio ∨ headFailed drive = false then some (zftape, .error errno)
      else do
        match ← recoverWrite kernel zftape segSz with
        | .error _ => some (zftape, .error errno)
        | .ok zftape => zftapeWriteSegment kernel segPos segSz reports zftape

/-- `zftape_loop_until_writes_done()`. -/
def zftapeLoopUntilWritesDone (kernel : Kernel α) (report : RunnerReport) (zftape : ZftapeInfo α) :
    Option (ZftapeInfo α × Except Errno Unit) :=
  let (drive, result) := ftapeLoopUntilWritesDone zftape.drive report
  let zftape := { zftape with drive := drive }
  match result with
  | .ok () => some (zftape, .ok ())
  | .error errno =>
    if errno ≠ .eio ∨ headFailed drive = false then some (zftape, .error errno)
    else do
      match ← ftapeHardErrorRecovery kernel.ecc drive.toFtapeInfo kernel.fresh with
      | .error _ => some (zftape, .error .eio)
      | .ok (ftape, scratch) => some ({ zftape with
          drive := { drive with toFtapeInfo := ftape }
          capacity := zftape.capacity - ftSectorSize
          hardErrors := zftape.hardErrors ++ [scratch] }, .ok ())

/-- Inserting a sector in front of a deblock buffer with data pushes the buffer's last sector
out. -/
theorem insertScratch_spec (deblock backup scratch : ℕ → α) {segSz : ℕ}
    (hsector : segSz = 0 ∨ ftSectorSize ≤ segSz) (hle : segSz ≤ ftSegmentSize) :
    ∃ deblock' scratch', insertScratch deblock backup scratch segSz = some (deblock', scratch') ∧
      window scratch 0 ftSectorSize ++ window backup 0 segSz =
        window deblock' 0 segSz ++ window scratch' 0 ftSectorSize := by
  have hpos : 0 < ftSectorSize := by decide
  cases hsector with
  | inl hzero =>
    refine ⟨deblock, scratch, ?_, ?_⟩
    · rw [insertScratch, if_neg (by omega)]
    · rw [hzero, window_zero, window_zero, List.append_nil, List.nil_append]
  | inr hsector =>
    obtain ⟨rest, hrest⟩ := Nat.exists_eq_add_of_le hsector
    have hcast : (segSz : ℤ) - ftSectorSize = (rest : ℕ) := by
      rw [hrest]
      push_cast
      ring
    have hbuff : ftSegmentSize ≤ ftBuffSize := by decide
    have hcopy₁ : copy ftBuffSize ftSectorSize deblock 0 scratch 0 ftSectorSize =
        some (blit deblock 0 scratch 0 ftSectorSize) :=
      copy_start_to_start (by omega) le_rfl _ _
    have hcopy₂ : copy ftBuffSize ftSegmentSize (blit deblock 0 scratch 0 ftSectorSize) ftSectorSize
        backup 0 rest =
        some (blit (blit deblock 0 scratch 0 ftSectorSize) ftSectorSize backup 0 rest) :=
      copy_from_start (by omega) (by omega) _ _
    have hcopy₃ : copy ftSectorSize ftSegmentSize scratch 0 backup rest ftSectorSize =
        some (blit scratch 0 backup rest ftSectorSize) :=
      copy_to_start le_rfl (by omega) _ _
    refine ⟨blit (blit deblock 0 scratch 0 ftSectorSize) ftSectorSize backup 0 rest,
      blit scratch 0 backup rest ftSectorSize, ?_, ?_⟩
    · rw [insertScratch, if_pos (by omega), hcast, hcopy₁, Option.bind_eq_bind, Option.bind_some, hcopy₂,
        Option.bind_some, hcopy₃, Option.bind_some]
    · have hfront : window (blit (blit deblock 0 scratch 0 ftSectorSize) ftSectorSize backup 0 rest) 0
          segSz = window scratch 0 ftSectorSize ++ window backup 0 rest := by
        rw [hrest, window_append, window_blit_of_disjoint _ _ (Or.inl (by omega)), window_blit,
          Nat.zero_add, window_blit]
      rw [hfront, window_blit, hrest, Nat.add_comm, window_append, Nat.zero_add, List.append_assoc]

/-- What `zftape_write_segment()` does after a hard error: the data of the ring and of the deblock
buffer moves by one sector, which joins the pending ones. -/
theorem recoverWrite_spec (kernel : Kernel α) (zftape : ZftapeInfo α) {segSz : ℕ}
    {head : BufferStruct α} {queue free : List (BufferStruct α)}
    (h : zftape.drive.Queued (head :: queue) free) (hfailed : FailedBuffer zftape.drive head)
    (hroom : countOnes (zftape.drive.badSectorMap head.segmentId) ≤ 28)
    (hsector : segSz = 0 ∨ ftSectorSize ≤ segSz) (hle : segSz ≤ ftSegmentSize) :
    ∃ drive' scratch' queue' free',
      recoverWrite kernel zftape segSz = some (.ok { zftape with
        drive := drive'
        capacity := zftape.capacity - ftSectorSize
        deblockBuf := true
        hardErrors := zftape.hardErrors ++ [scratch'] }) ∧
      queue'.map BufferStruct.segmentId = (head :: queue).map BufferStruct.segmentId ∧
      free'.length = free.length ∧ drive'.Queued queue' free' ∧
      (∀ buff ∈ queue', buff.status = .waiting) ∧
      zftape.drive.data ++ window zftape.drive.deblockBuffer 0 segSz =
        drive'.data ++ window drive'.deblockBuffer 0 segSz ++ window scratch' 0 ftSectorSize ∧
      drive'.badSectorMap = Function.update zftape.drive.badSectorMap head.segmentId
        (zftape.drive.badSectorMap head.segmentId ||| head.hardErrorMap) ∧
      drive'.tape = zftape.drive.tape ∧
      drive'.writing = zftape.drive.writing ∧ drive'.segments = zftape.drive.segments := by
  have hbuff : ftSegmentSize ≤ ftBuffSize := by decide
  have hbackup : copy ftSegmentSize ftBuffSize kernel.fresh 0 zftape.drive.deblockBuffer 0 segSz =
      some (blit kernel.fresh 0 zftape.drive.deblockBuffer 0 segSz) :=
    copy_start_to_start hle (by omega) _ _
  obtain ⟨ftape, scratch, queue', free', hrecovery, hids, hlength, hrecovers⟩ :=
    h.recovers kernel.ecc hfailed hroom kernel.fresh
  obtain ⟨deblock', scratch', hinsert, hdata⟩ := insertScratch_spec ftape.deblockBuffer
    (blit kernel.fresh 0 zftape.drive.deblockBuffer 0 segSz) scratch hsector hle
  refine ⟨{ zftape.drive with toFtapeInfo := { ftape with deblockBuffer := deblock' } }, scratch',
    queue', free', ?_, hids, hlength, ?_, hrecovers.waiting, ?_, hrecovers.badSectorMap, rfl, rfl, rfl⟩
  · rw [recoverWrite, hbackup, Option.bind_eq_bind, Option.bind_some, hrecovery, Option.bind_eq_bind,
      Option.bind_some]
    dsimp only
    rw [hinsert, Option.bind_eq_bind, Option.bind_some]
  · obtain ⟨hring, hnonempty, htail, hhead, hwaiting, hfree, hnodup⟩ := hrecovers.queued
    exact ⟨hring, hnonempty, htail, hhead, hwaiting, hfree, hnodup⟩
  · rw [window_blit] at hdata
    rw [hrecovers.data, List.append_assoc, hdata, List.append_assoc]
    rfl

/-- The recovery runs out of the deblock buffer when the failing segment had no payload. -/
theorem recoverWrite_of_short (kernel : Kernel α) (zftape : ZftapeInfo α) {segSz : ℕ}
    {head : BufferStruct α} {queue free : List (BufferStruct α)}
    (h : zftape.drive.Queued (head :: queue) free) (hone : countOnes head.hardErrorMap = 1)
    (hshort : 29 ≤ countOnes (zftape.drive.badSectorMap head.segmentId))
    (hle : segSz ≤ ftSegmentSize) : recoverWrite kernel zftape segSz = none := by
  have hbuff : ftSegmentSize ≤ ftBuffSize := by decide
  have hbackup : copy ftSegmentSize ftBuffSize kernel.fresh 0 zftape.drive.deblockBuffer 0 segSz =
      some (blit kernel.fresh 0 zftape.drive.deblockBuffer 0 segSz) :=
    copy_start_to_start hle (by omega) _ _
  rw [recoverWrite, hbackup, Option.bind_eq_bind, Option.bind_some,
    ftapeHardErrorRecovery_of_short kernel.ecc h.ring kernel.fresh hone hshort, Option.bind_eq_bind,
    Option.bind_none]

/-- `HEAD` counts as failed when it is in error with a sector to show for it. -/
theorem headFailed_of_failed {drive : Drive α} {head : BufferStruct α}
    {queue free : List (BufferStruct α)} (h : drive.Queued (head :: queue) free)
    (hstatus : head.status = .error) (hone : countOnes head.hardErrorMap = 1) :
    headFailed drive = true := by
  have hring : drive.ring = head :: (queue ++ free) := h.ring
  have hmap : head.hardErrorMap ≠ 0 := by
    intro hzero
    rw [hzero] at hone
    exact absurd hone (by decide)
  rw [headFailed, hring]
  simpa [hstatus] using hmap

/-- `HEAD` does not count as failed while it waits. -/
theorem headFailed_of_waiting {drive : Drive α} {head : BufferStruct α}
    {queue free : List (BufferStruct α)} (h : drive.Queued (head :: queue) free)
    (hstatus : head.status = .waiting) : headFailed drive = false := by
  have hring : drive.ring = head :: (queue ++ free) := h.ring
  rw [headFailed, hring]
  simp [hstatus]

end Ftape.Zftape
