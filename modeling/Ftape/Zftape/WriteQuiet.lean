import Ftape.Zftape.WritePath

/-!
# Writing without hard errors

If the interrupt handler reports no hard error, the ring has no buffer in the state `error` and no sector becomes
pending. Then the write path meets nothing that could move the position record away from the tape.
-/

namespace Ftape.Write

variable {α : Type*} {drive : Drive α}

/-- No buffer of the ring is in the state `error`. -/
def Drive.Quiet (drive : Drive α) : Prop := ∀ buff ∈ drive.ring, buff.status ≠ .error

/-- A buffer that is completed does not fail. -/
theorem Drive.Quiet.completeHead (h : drive.Quiet) : drive.completeHead.Quiet := by
  rw [Drive.completeHead]
  split
  · exact h
  · rename_i head others hring
    split
    · intro buff hbuff
      cases List.mem_append.mp hbuff with
      | inl hothers => exact h buff (hring ▸ List.mem_cons_of_mem _ hothers)
      | inr hhead =>
        rw [List.mem_singleton.mp hhead]
        rintro ⟨⟩
    · exact h

/-- Nothing fails while the interrupt handler reports no hard error. -/
theorem Drive.Quiet.run (h : drive.Quiet) {report : RunnerReport} (hreport : report.hardError = none) :
    (drive.run report).Quiet := by
  have hcompleted : ∀ n, (Drive.completeHead^[n] drive).Quiet := by
    intro n
    induction n with
    | zero => exact h
    | succ n ih =>
      rw [Function.iterate_succ_apply']
      exact ih.completeHead
  rw [Drive.run, hreport]
  exact hcompleted report.completed

/-- The buffers that are dropped when writing starts are done. -/
theorem Drive.Quiet.startWriting (h : drive.Quiet) : drive.startWriting.Quiet := by
  rw [Drive.startWriting]
  split
  · exact h
  · intro buff hbuff
    obtain ⟨buff', -, rfl⟩ := List.mem_map.mp hbuff
    rintro ⟨⟩

/-- Queueing a segment. -/
theorem Drive.Quiet.ftapeWriteSegment (h : drive.Quiet) (ecc : EccCode α) (segmentId : ℕ)
    {report : RunnerReport} (hreport : report.hardError = none) :
    (ftapeWriteSegment ecc drive segmentId report).1.Quiet := by
  rw [Write.ftapeWriteSegment]
  have hrun := h.startWriting.run hreport
  split
  · exact h
  · dsimp only
    split
    · exact hrun
    · split
      · intro buff hbuff
        cases List.mem_or_eq_of_mem_set hbuff with
        | inl hring => exact hrun buff hring
        | inr hqueued =>
          rw [hqueued]
          rintro ⟨⟩
      · exact hrun

/-- Waiting for the ring to become empty. -/
theorem Drive.Quiet.ftapeLoopUntilWritesDone (h : drive.Quiet) {report : RunnerReport}
    (hreport : report.hardError = none) : (ftapeLoopUntilWritesDone drive report).1.Quiet := by
  rw [Write.ftapeLoopUntilWritesDone]
  have hrun := h.run hreport
  split
  · dsimp only
    split
    · exact hrun
    · split <;> exact hrun
  · exact h

end Ftape.Write

namespace Ftape.Zftape

open Ftape.Algebra Ftape.Write

/-- A `HEAD` that did not fail. -/
theorem headFailed_of_quiet {α : Type*} {drive : Drive α} (h : drive.Quiet) : headFailed drive = false := by
  rw [headFailed]
  split
  · rfl
  · rename_i head others hring
    have hhead := h head (hring ▸ List.mem_cons_self)
    exact decide_eq_false fun hfailed => hhead hfailed.1

section Routines

variable {α : Type} {zftape : ZftapeInfo α}

/-- No buffer failed, and no sector is pending. -/
structure ZftapeInfo.Quiet (zftape : ZftapeInfo α) : Prop where
  drive : zftape.drive.Quiet
  none : zftape.hardErrors = []

/-- Nothing is recovered while a segment is queued. -/
theorem silent_writeSegment (kernel : Kernel α) {reports : List RunnerReport}
    (hreports : ∀ report ∈ reports, report.hardError = none) (h : zftape.Quiet) :
    (writeSegment kernel reports zftape).Silent fun written => written.1.Quiet := by
  rw [writeSegment]
  cases reports with
  | nil =>
    refine ⟨rfl, fun written hwritten => ?_⟩
    cases hwritten
    exact h
  | cons report reports =>
    have hdrive := h.drive.ftapeWriteSegment kernel.ecc zftape.pos.segPos (hreports report List.mem_cons_self)
    rw [recoveries, zftapeWriteSegment]
    generalize ftapeWriteSegment kernel.ecc zftape.drive zftape.pos.segPos report = written at hdrive
    obtain ⟨drive, result⟩ := written
    cases result with
    | ok _ =>
      refine ⟨rfl, fun written hwritten => ?_⟩
      cases hwritten
      exact ⟨hdrive, h.none⟩
    | error errno =>
      dsimp only
      have hfailed := headFailed_of_quiet hdrive
      rw [if_pos (Or.inr hfailed), if_pos (Or.inr hfailed)]
      refine ⟨rfl, fun written hwritten => ?_⟩
      cases hwritten
      exact ⟨hdrive, h.none⟩

/-- Nothing is recovered while the ring becomes empty. -/
theorem silent_loopUntilWritesDone (kernel : Kernel α) {report : RunnerReport} (hreport : report.hardError = none)
    (h : zftape.Quiet) : (loopUntilWritesDone kernel report zftape).Silent fun done => done.1.Quiet := by
  have hdrive := h.drive.ftapeLoopUntilWritesDone hreport
  rw [loopUntilWritesDone, zftapeLoopUntilWritesDone]
  generalize ftapeLoopUntilWritesDone zftape.drive report = done at hdrive
  obtain ⟨drive, result⟩ := done
  cases result with
  | ok _ =>
    refine ⟨rfl, fun done hdone => ?_⟩
    cases hdone
    exact ⟨hdrive, h.none⟩
  | error errno =>
    dsimp only
    have hfailed := headFailed_of_quiet hdrive
    rw [if_pos (Or.inr hfailed), if_pos (Or.inr hfailed)]
    refine ⟨rfl, fun done hdone => ?_⟩
    cases hdone
    exact ⟨hdrive, h.none⟩

/-- A copy asks nothing. -/
theorem silent_copied {β : Type} (copied : Option β) : (Traced.copied (α := α) copied).Silent fun _ => True := by
  cases copied with
  | none => exact .halt _
  | some value => exact .pure trivial

/-- Filling the deblock buffer. -/
theorem silent_fillDeblockBuf (kernel : Kernel α) (segSz : ℕ) (buff : List α) (h : zftape.Quiet) :
    (fillDeblockBuf kernel segSz buff zftape).Silent fun filled => filled.1.Quiet := by
  rw [fillDeblockBuf, emptyHardErrorList, h.none, emptyHardErrorLoop]
  split
  · exact .pure h
  · have hempty : (pure (zftape, .ok ()) : Traced α (ZftapeInfo α × Except Errno Unit)).Silent
        fun emptied => emptied = (zftape, .ok ()) := .pure rfl
    refine hempty.bind ?_
    rintro _ rfl
    dsimp only
    split
    · exact .pure h
    · rw [fillRegular]
      exact (silent_copied _).bind fun deblock _ => .pure ⟨h.drive, h.none⟩

/-- The first half of a round of `_zft_write()`. -/
theorem silent_writeRound (kernel : Kernel α) (buff : List α) (written : ℤ) (h : zftape.Quiet)
    {next : ZftapeInfo α → ℤ → Traced α (ZftapeInfo α × Except Errno ℤ)}
    (hnext : ∀ filled cnt, filled.Quiet → (next filled cnt).Silent fun done => done.1.Quiet) :
    (writeRound kernel buff written zftape next).Silent fun done => done.1.Quiet := by
  rw [writeRound]
  split
  · exact .pure ⟨h.drive, h.none⟩
  · have hbuffer : ZftapeInfo.Quiet { zftape with deblockBuf := true } := ⟨h.drive, h.none⟩
    refine (silent_fillDeblockBuf kernel _ buff hbuffer).bind ?_
    rintro ⟨filled, result⟩ hfilled
    cases result with
    | error errno =>
      refine .pure ?_
      rw [writeRefused]
      split <;> exact ⟨hfilled.drive, hfilled.none⟩
    | ok cnt => exact hnext filled cnt hfilled

/-- The loop of `_zft_write()`. -/
theorem silent_writeLoop (kernel : Kernel α) {rounds : List (List RunnerReport)}
    (hrounds : ∀ reports ∈ rounds, ∀ report ∈ reports, report.hardError = none) (buff : List α) (written : ℤ)
    (h : zftape.Quiet) : (writeLoop kernel rounds buff written zftape).Silent fun done => done.1.Quiet := by
  induction rounds generalizing buff written zftape with
  | nil => exact silent_writeRound kernel buff written h fun filled cnt hfilled => .pure hfilled
  | cons reports rounds ih =>
    have hrest := fun reports hreports => hrounds reports (List.mem_cons_of_mem _ hreports)
    refine silent_writeRound kernel buff written h fun filled cnt hfilled => ?_
    split
    · refine (silent_writeSegment kernel (hrounds reports List.mem_cons_self) hfilled).bind ?_
      rintro ⟨queued, result⟩ hqueued
      cases result with
      | error errno => exact .pure ⟨hqueued.drive, hqueued.none⟩
      | ok _ => exact ih hrest _ _ ⟨hqueued.drive, hqueued.none⟩
    · exact ih hrest _ _ hfilled

/-- A flush that fails. -/
theorem ZftapeInfo.Quiet.flushFailed (h : zftape.Quiet) (errno : Errno) : (flushFailed zftape errno).1.Quiet :=
  ⟨h.drive, h.none⟩

/-- A flush that is done. -/
theorem ZftapeInfo.Quiet.outFlushed (h : zftape.Quiet) : (outFlushed zftape).1.Quiet := by
  have hend : ∀ pos : Position,
      ZftapeInfo.Quiet { zftape with pos := pos, lastWriteFailed := false, needFlush := false } :=
    fun _ => ⟨h.drive, h.none⟩
  rw [Zftape.outFlushed]
  dsimp only
  split
  · exact hend _
  · exact hend _

/-- Waiting once is enough, as nothing is pending then. -/
theorem silent_flushWait (kernel : Kernel α) (oldSegSize : ℤ) {report : RunnerReport}
    (hreport : report.hardError = none) (padCnt : ℤ) (h : zftape.Quiet)
    (next : ZftapeInfo α → ℤ → Traced α (ZftapeInfo α × ℤ × Flushed)) :
    (flushWait kernel oldSegSize report padCnt zftape next).Silent fun flushed =>
      flushed.1.Quiet ∧ ∃ result, flushed.2.2 = .done result := by
  rw [flushWait]
  refine (silent_loopUntilWritesDone kernel hreport h).bind ?_
  rintro ⟨waited, result⟩ hwaited
  cases result with
  | error errno => exact .pure ⟨hwaited.flushFailed errno, _, rfl⟩
  | ok _ =>
    dsimp only
    have hcnt : waited.hardErrorCnt = 0 := by
      rw [ZftapeInfo.hardErrorCnt, hwaited.none, List.length_nil]
    rw [if_pos hcnt]
    exact .pure ⟨hwaited.outFlushed, _, rfl⟩

/-- The loop inside `zft_flush_buffers()` waits once. -/
theorem silent_flushWaitLoop (kernel : Kernel α) (oldSegSize : ℤ) {report : RunnerReport}
    (hreport : report.hardError = none) (reports : List RunnerReport) (padCnt : ℤ) (h : zftape.Quiet) :
    (flushWaitLoop kernel oldSegSize reports report padCnt zftape).Silent fun flushed =>
      flushed.1.Quiet ∧ ∃ result, flushed.2.2 = .done result := by
  cases reports with
  | nil => exact silent_flushWait kernel oldSegSize hreport padCnt h _
  | cons report' reports => exact silent_flushWait kernel oldSegSize hreport padCnt h _

/-- What the interrupt handler reports in a round of a flush has no hard error. -/
def FlushRound.Quiet (round : FlushRound) : Prop :=
  (∀ report ∈ round.write, report.hardError = none) ∧ round.wait.hardError = none

/-- A round of a flush is its last one. -/
theorem silent_flushRound (kernel : Kernel α) {round : FlushRound} (hround : round.Quiet) (padCnt : ℤ)
    (h : zftape.Quiet) (next : ZftapeInfo α → ℤ → Traced α (ZftapeInfo α × Except Errno Unit)) :
    (flushRound kernel round padCnt zftape next).Silent fun flushed => flushed.1.Quiet := by
  rw [flushRound]
  dsimp only
  generalize (if zftape.pos.segBytePos ≠ zftape.segSz zftape.pos.segPos then
    zftape.pos.segBytePos - padCnt else zftape.pos.segBytePos) = segBytePos
  generalize (if zftape.pos.segBytePos ≠ zftape.segSz zftape.pos.segPos then
    zftape.segSz zftape.pos.segPos - segBytePos else padCnt) = padCnt'
  split
  · exact .pure ⟨h.drive, h.none⟩
  · have hqueue : (if 0 < segBytePos then
        padAndWrite kernel round.write { zftape with pos := { zftape.pos with segBytePos := segBytePos } }
        else pure ({ zftape with pos := { zftape.pos with segBytePos := segBytePos } }, .ok ())).Silent
        fun queued => queued.1.Quiet := by
      split
      · rw [padAndWrite]
        exact (silent_copied _).bind fun deblock _ => silent_writeSegment kernel hround.1 ⟨h.drive, h.none⟩
      · exact .pure ⟨h.drive, h.none⟩
    refine hqueue.bind ?_
    rintro ⟨queued, result⟩ hqueued
    cases result with
    | error errno => exact .pure (hqueued.flushFailed errno)
    | ok _ =>
      refine (silent_flushWaitLoop kernel _ hround.2 round.waits padCnt' hqueued).bind ?_
      rintro ⟨flushed, padCnt'', _⟩ ⟨hflushed, result, rfl⟩
      exact .pure hflushed

/-- `zft_flush_buffers()`, without a hard error in its first round. -/
theorem silent_zftFlushBuffers (kernel : Kernel α) {round : FlushRound} (hround : round.Quiet)
    (rounds : List FlushRound) (h : zftape.Quiet) :
    (zftFlushBuffers kernel round rounds zftape).Silent fun flushed => flushed.1.Quiet := by
  rw [zftFlushBuffers]
  split
  · exact .pure h
  · have hidle : ZftapeInfo.Quiet { zftape with ioState := .idle } := ⟨h.drive, h.none⟩
    dsimp only
    split
    · exact .pure ⟨h.drive, h.none⟩
    · cases rounds with
      | nil => exact silent_flushRound kernel hround 0 hidle _
      | cons round' rounds => exact silent_flushRound kernel hround 0 hidle _

end Routines

end Ftape.Zftape
