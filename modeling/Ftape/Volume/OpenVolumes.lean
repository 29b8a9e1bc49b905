import Ftape.Volume.TapePosition

/-!
# Writing and open volumes

While the device is in the state of writing, `_zft_write()` does not look at the volume table. So this
state should end before the volume does. Every request sees to that but `MTWEOF`, which relies on a
flush that has nothing to do as long as nothing was written.
-/

namespace Ftape.Volume

open Ftape.Algebra Ftape.Write Ftape.Zftape

variable {α : Type}

/-- What a routine of the write path leads to if it goes on. -/
abbrev Gives {β : Type} (call : Traced α β) (post : β → Prop) : Prop := call.Keeps (fun _ => True) post

section Flush

variable {zftape : ZftapeInfo α}

/-- A copy that goes on has been made. -/
theorem gives_copied {β : Type} (copied : Option β) :
    Gives (α := α) (Traced.copied copied) fun value => copied = some value := by
  cases copied with
  | none => exact .halt _
  | some value => exact .pure rfl

/-- What the position and the state keep while the deblock buffer is filled. -/
structure SamePlace (zftape zftape' : ZftapeInfo α) : Prop where
  ioState : zftape'.ioState = zftape.ioState
  segPos : zftape'.pos.segPos = zftape.pos.segPos

/-- Taking pending sectors stays in the segment. -/
theorem gives_emptyHardErrorLoop (segSz : ℤ) (sectors : List (ℕ → α)) :
    Gives (emptyHardErrorLoop segSz sectors zftape) fun taken => SamePlace zftape taken.1 := by
  induction sectors generalizing zftape with
  | nil => exact .pure ⟨rfl, rfl⟩
  | cons sector sectors ih =>
    rw [emptyHardErrorLoop]
    split_ifs
    · exact .pure ⟨rfl, rfl⟩
    · exact .pure ⟨rfl, rfl⟩
    · exact (Recorded.Keeps.note _).bind fun _ _ => .pure ⟨rfl, rfl⟩
    · have htake : Gives (takeSector sector sectors zftape) (SamePlace zftape) :=
        (gives_copied _).bind fun _ _ => .pure ⟨rfl, rfl⟩
      refine htake.bind fun taken htaken => ih.mono fun _ hdone => ?_
      exact ⟨hdone.ioState.trans htaken.ioState, hdone.segPos.trans htaken.segPos⟩

/-- Filling the deblock buffer stays in the segment. -/
theorem gives_fillDeblockBuf (kernel : Kernel α) (segSz : ℕ) (buff : List α) :
    Gives (fillDeblockBuf kernel segSz buff zftape) fun filled => SamePlace zftape filled.1 := by
  rw [fillDeblockBuf]
  split
  · exact .pure ⟨rfl, rfl⟩
  · refine (gives_emptyHardErrorLoop segSz zftape.hardErrors).bind ?_
    rintro ⟨taken, result⟩ htaken
    cases result with
    | error errno => exact .pure htaken
    | ok _ =>
      dsimp only
      split
      · exact .pure ⟨htaken.ioState, htaken.segPos⟩
      · exact (gives_copied _).bind fun _ _ => .pure ⟨htaken.ioState, htaken.segPos⟩

/-- Queueing a segment stays in it. -/
theorem gives_writeSegment (kernel : Kernel α) (reports : List RunnerReport) :
    Gives (writeSegment kernel reports zftape) fun written =>
      written.1.pos = zftape.pos ∧ written.1.ioState = zftape.ioState ∧
        written.1.volume = zftape.volume ∧ written.1.resid = zftape.resid := by
  intro _ written hwritten
  dsimp only [writeSegment] at hwritten
  cases hrun : zftapeWriteSegment kernel zftape.pos.segPos (zftape.segSz zftape.pos.segPos) reports zftape with
  | none =>
    rw [hrun] at hwritten
    cases hwritten
  | some written' =>
    rw [hrun] at hwritten
    cases hwritten
    exact zftapeWriteSegment_frame hrun

/-- What the position and the state keep while `_zft_write()` goes on. -/
structure Onwards (zftape zftape' : ZftapeInfo α) : Prop where
  ioState : zftape'.ioState = zftape.ioState
  segPos : zftape.pos.segPos ≤ zftape'.pos.segPos

/-- A round of `_zft_write()` moves forwards if what follows does. -/
theorem gives_writeRound (kernel : Kernel α) (buff : List α) (written : ℤ)
    {next : ZftapeInfo α → ℤ → Traced α (ZftapeInfo α × Except Errno ℤ)}
    (hnext : ∀ filled cnt, SamePlace zftape filled →
      Gives (next filled cnt) fun done => Onwards zftape done.1) :
    Gives (writeRound kernel buff written zftape next) fun done => Onwards zftape done.1 := by
  rw [writeRound]
  split
  · exact .pure ⟨rfl, le_rfl⟩
  · refine (gives_fillDeblockBuf kernel (zftape.segSz zftape.pos.segPos) buff).bind ?_
    rintro ⟨filled, result⟩ hfilled
    have hsame : SamePlace zftape filled := ⟨hfilled.ioState, hfilled.segPos⟩
    cases result with
    | ok cnt => exact hnext filled cnt hsame
    | error errno =>
      refine .pure ?_
      dsimp only [writeRefused]
      split
      · exact ⟨hsame.ioState, hsame.segPos.ge⟩
      · exact ⟨hsame.ioState, hsame.segPos.ge⟩

/-- `_zft_write()` moves forwards, and stays in the state of writing. -/
theorem gives_writeLoop (kernel : Kernel α) (rounds : List (List RunnerReport)) (buff : List α) (written : ℤ) :
    Gives (writeLoop kernel rounds buff written zftape) fun done => Onwards zftape done.1 := by
  induction rounds generalizing zftape buff written with
  | nil =>
    exact gives_writeRound kernel buff written fun filled cnt hsame => .pure ⟨hsame.ioState, hsame.segPos.ge⟩
  | cons reports rounds ih =>
    refine gives_writeRound kernel buff written fun filled cnt hsame => ?_
    split
    · refine (gives_writeSegment kernel reports).bind ?_
      rintro ⟨queued, result⟩ ⟨hpos, hioState, -⟩
      have hqueued : Onwards zftape queued :=
        ⟨hioState.trans hsame.ioState, (hsame.segPos.symm.trans (congrArg Position.segPos hpos).symm).le⟩
      cases result with
      | error errno => exact .pure ⟨hqueued.ioState, hqueued.segPos⟩
      | ok _ =>
        refine (ih _ _).mono fun done hdone => ⟨hdone.ioState.trans hqueued.ioState, ?_⟩
        exact (Nat.le_succ_of_le hqueued.segPos).trans hdone.segPos
    · refine (ih _ _).mono fun done hdone => ⟨hdone.ioState.trans hsame.ioState, ?_⟩
      exact hsame.segPos.ge.trans hdone.segPos

/-- Waiting for the ring does not change the state. -/
theorem gives_loopUntilWritesDone (kernel : Kernel α) (report : RunnerReport) :
    Gives (loopUntilWritesDone kernel report zftape) fun done => done.1.ioState = zftape.ioState := by
  intro _ done hdone
  rw [loopUntilWritesDone, zftapeLoopUntilWritesDone] at hdone
  generalize ftapeLoopUntilWritesDone zftape.drive report = waited at hdone
  obtain ⟨drive, result⟩ := waited
  cases result with
  | ok _ =>
    cases hdone
    rfl
  | error errno =>
    dsimp only at hdone
    by_cases hfailed : errno ≠ .eio ∨ headFailed drive = false
    · rw [if_pos hfailed] at hdone
      cases hdone
      rfl
    · rw [if_neg hfailed] at hdone
      cases hrecovery : ftapeHardErrorRecovery kernel.ecc drive.toFtapeInfo kernel.fresh with
      | none =>
        rw [hrecovery] at hdone
        cases hdone
      | some recovered =>
        rw [hrecovery] at hdone
        cases recovered with
        | error _ =>
          cases hdone
          rfl
        | ok recovered =>
          cases hdone
          rfl

/-- When everything is on tape, the state is what it was. -/
theorem outFlushed_ioState : (outFlushed zftape).1.ioState = zftape.ioState := by
  have hend : ∀ pos : Position, ({ zftape with
      pos := pos, lastWriteFailed := false, needFlush := false } : ZftapeInfo α).ioState = zftape.ioState :=
    fun _ => rfl
  rw [outFlushed]
  dsimp only
  split
  · exact hend _
  · exact hend _

/-- Handling hard errors does not change the state. -/
theorem gives_flushHandleHardErrors (padCnt oldSegSize : ℤ) :
    Gives (flushHandleHardErrors padCnt oldSegSize zftape) fun handled =>
      handled.1.ioState = zftape.ioState := by
  rw [flushHandleHardErrors]
  dsimp only
  split
  · exact .pure rfl
  · refine (gives_emptyHardErrorLoop _ _).bind ?_
    rintro ⟨taken, result⟩ htaken
    exact .pure htaken.ioState

/-- A round of waiting does not change the state if what follows does not. -/
theorem gives_flushWait (kernel : Kernel α) (oldSegSize : ℤ) (report : RunnerReport) (padCnt : ℤ)
    {next : ZftapeInfo α → ℤ → Traced α (ZftapeInfo α × ℤ × Flushed)}
    (hnext : ∀ waited padCnt, waited.ioState = zftape.ioState →
      Gives (next waited padCnt) fun done => done.1.ioState = zftape.ioState) :
    Gives (flushWait kernel oldSegSize report padCnt zftape next) fun done =>
      done.1.ioState = zftape.ioState := by
  refine (gives_loopUntilWritesDone kernel report).bind ?_
  rintro ⟨waited, result⟩ hwaited
  have hwaited : waited.ioState = zftape.ioState := hwaited
  cases result with
  | error errno => exact .pure hwaited
  | ok _ =>
    dsimp only
    split
    · exact .pure (outFlushed_ioState.trans hwaited)
    · refine (gives_flushHandleHardErrors padCnt oldSegSize).bind ?_
      rintro ⟨handled, padCnt', result⟩ hhandled
      cases result with
      | error errno => exact (Recorded.Keeps.note _).bind fun _ _ => .pure (hhandled.trans hwaited)
      | ok _ => exact (Recorded.Keeps.note _).bind fun _ _ => hnext handled padCnt' (hhandled.trans hwaited)

/-- Waiting for the ring to become empty does not change the state. -/
theorem gives_flushWaitLoop (kernel : Kernel α) (oldSegSize : ℤ) (reports : List RunnerReport)
    (report : RunnerReport) (padCnt : ℤ) :
    Gives (flushWaitLoop kernel oldSegSize reports report padCnt zftape) fun done =>
      done.1.ioState = zftape.ioState := by
  induction reports generalizing report padCnt zftape with
  | nil => exact gives_flushWait kernel oldSegSize report padCnt fun waited padCnt hwaited => .pure hwaited
  | cons report' reports ih =>
    refine gives_flushWait kernel oldSegSize report padCnt fun waited padCnt hwaited => ?_
    exact (ih report' padCnt).mono fun done hdone => hdone.trans hwaited

/-- Padding the deblock buffer and queueing it does not change the state. -/
theorem gives_padAndWrite (kernel : Kernel α) (reports : List RunnerReport) :
    Gives (padAndWrite kernel reports zftape) fun queued => queued.1.ioState = zftape.ioState :=
  (gives_copied _).bind fun _ _ => (gives_writeSegment kernel reports).mono fun _ hqueued => hqueued.2.1

/-- A round of a flush does not change the state if what follows does not. -/
theorem gives_flushRound (kernel : Kernel α) (round : FlushRound) (padCnt : ℤ)
    {next : ZftapeInfo α → ℤ → Traced α (ZftapeInfo α × Except Errno Unit)}
    (hnext : ∀ waited padCnt, waited.ioState = zftape.ioState →
      Gives (next waited padCnt) fun done => done.1.ioState = zftape.ioState) :
    Gives (flushRound kernel round padCnt zftape next) fun done => done.1.ioState = zftape.ioState := by
  rw [flushRound]
  dsimp only
  generalize (if zftape.pos.segBytePos ≠ zftape.segSz zftape.pos.segPos then
    zftape.pos.segBytePos - padCnt else zftape.pos.segBytePos) = segBytePos
  generalize (if zftape.pos.segBytePos ≠ zftape.segSz zftape.pos.segPos then
    zftape.segSz zftape.pos.segPos - segBytePos else padCnt) = padCnt'
  split
  · exact .pure rfl
  · have hqueue : Gives (if 0 < segBytePos then
        padAndWrite kernel round.write { zftape with pos := { zftape.pos with segBytePos := segBytePos } }
        else pure ({ zftape with pos := { zftape.pos with segBytePos := segBytePos } }, .ok ()))
        fun queued => queued.1.ioState = zftape.ioState := by
      split
      · exact gives_padAndWrite kernel round.write
      · exact .pure rfl
    refine hqueue.bind ?_
    rintro ⟨queued, result⟩ hqueued
    cases result with
    | error errno => exact .pure hqueued
    | ok _ =>
      refine (gives_flushWaitLoop kernel _ round.waits round.wait padCnt').bind ?_
      rintro ⟨waited, padCnt'', flushed⟩ hwaited
      have hstate : waited.ioState = zftape.ioState := hwaited.trans hqueued
      cases flushed with
      | done result => exact .pure hstate
      | again => exact hnext waited padCnt'' hstate

/-- The loop of a flush does not change the state. -/
theorem gives_flushLoop (kernel : Kernel α) (rounds : List FlushRound) (round : FlushRound) (padCnt : ℤ) :
    Gives (flushLoop kernel rounds round padCnt zftape) fun done => done.1.ioState = zftape.ioState := by
  induction rounds generalizing round padCnt zftape with
  | nil =>
    refine gives_flushRound kernel round padCnt fun waited padCnt hwaited => ?_
    exact (Recorded.Keeps.note _).bind fun _ _ => .pure hwaited
  | cons round' rounds ih =>
    refine gives_flushRound kernel round padCnt fun waited padCnt hwaited => ?_
    exact (ih round' padCnt).mono fun done hdone => hdone.trans hwaited

/-- Whether `zft_flush_buffers()` believes that there is something to flush. -/
def HasToFlush (zftape : ZftapeInfo α) : Prop := zftape.drive.writing = true ∨ zftape.needFlush = true

/-- A flush that has something to do leaves the state of writing, any other one does nothing. -/
theorem gives_zftFlushBuffers (kernel : Kernel α) (round : FlushRound) (rounds : List FlushRound) :
    Gives (zftFlushBuffers kernel round rounds zftape) fun flushed =>
      flushed.1.ioState = .idle ∨ ¬HasToFlush zftape ∧ flushed.1 = zftape := by
  rw [zftFlushBuffers]
  split
  case isTrue hnone =>
    refine .pure (.inr ⟨?_, rfl⟩)
    rintro (hwriting | hneed)
    · exact Bool.false_ne_true (hnone.1.symm.trans hwriting)
    · exact Bool.false_ne_true (hnone.2.symm.trans hneed)
  case isFalse =>
    dsimp only
    split
    · exact .pure (.inl rfl)
    · exact (gives_flushLoop kernel rounds round 0).mono fun _ hflushed => .inl hflushed

end Flush

namespace Writer

variable {zftape : Writer α}

/-- While the device is in the state of writing, the last volume is open and does not start behind the
position. -/
def Inside (zftape : Writer α) : Prop :=
  zftape.ioState = .writing → ∃ volume ∈ zftape.table.openVolume, volume.startSeg ≤ zftape.pos.segPos

/-- A device in another state need not have an open volume. -/
theorem inside_of_idle (h : zftape.ioState = .idle) : zftape.Inside := by
  intro hwriting
  rw [h] at hwriting
  cases hwriting

/-- What moves onwards in the same list of volumes stays inside its last volume. -/
theorem Inside.onwards (h : zftape.Inside) {info : ZftapeInfo α} (honwards : Onwards zftape.toZftapeInfo info) :
    Inside { zftape with toZftapeInfo := info } := by
  intro hwriting
  obtain ⟨volume, hvolume, hstart⟩ := h (honwards.ioState.symm.trans hwriting)
  exact ⟨volume, hvolume, hstart.trans honwards.segPos⟩

/-- A volume that was appended is open, and starts at the position. -/
theorem openVolume_appendVolume {cartridge : Cartridge} {table table' : Vtbl} {pos pos' : Position} {blkSz : ℕ}
    (h : table.appendVolume cartridge pos blkSz = (table', .ok pos')) :
    ∃ volume ∈ table'.openVolume, volume.startSeg ≤ pos'.segPos := by
  rw [Vtbl.appendVolume] at h
  split_ifs at h
  · cases h
  · cases h
  · cases h
  · cases h
    refine ⟨table.fillOpened cartridge pos blkSz { VtblEntry.blank with count := table.eom.count }, ?_, le_rfl⟩
    have hlast : (table.volumes ++ [table.fillOpened cartridge pos blkSz
        { VtblEntry.blank with count := table.eom.count }]).getLast? = some _ := List.getLast?_concat
    exact Option.filter_eq_some_iff.mpr ⟨hlast, rfl⟩

/-- `zft_reset_position()` leaves the device idle. -/
theorem gives_zftResetPosition : Gives zftape.zftResetPosition fun reset => reset.ioState = .idle := by
  rw [zftResetPosition]
  split
  · exact .halt _
  · exact .pure rfl

/-- After `zft_open_volume()` there is an open volume at the position. -/
theorem gives_zftOpenVolume (h : zftape.ioState = .idle) :
    Gives zftape.zftOpenVolume fun opened => opened.1.ioState = .idle ∧
      (opened.2.toBool = true → ∃ volume ∈ opened.1.table.openVolume, volume.startSeg ≤ opened.1.pos.segPos) := by
  have hstart : Gives (if zftape.zftTapeAtLbot then zftape.initVtbl.zftResetPosition else pure zftape)
      fun started => started.ioState = .idle := by
    split
    · exact gives_zftResetPosition
    · exact .pure h
  refine hstart.bind fun started hstarted => ?_
  dsimp only
  generalize happended : started.table.appendVolume started.cartridge started.pos started.blkSz = appended
  obtain ⟨table, result⟩ := appended
  cases result with
  | error errno => exact .pure ⟨hstarted, fun hok => absurd hok Bool.false_ne_true⟩
  | ok pos => exact .pure ⟨hstarted, fun _ => openVolume_appendVolume happended⟩

/-- `check_write_access()` begins a volume before it enters the state of writing. -/
theorem gives_checkWriteAccess (h : zftape.Inside) (reqLen : ℕ) :
    Gives (zftape.checkWriteAccess reqLen) fun checked => checked.1.Inside := by
  rw [checkWriteAccess]
  split
  · exact .pure h
  · split
    · exact .pure h
    · dsimp only
      split
      · exact .pure (inside_of_idle rfl)
      · have hidle : { zftape with toZftapeInfo := { zftape.toZftapeInfo with ioState := .idle } }.ioState = .idle := rfl
        refine (gives_zftOpenVolume hidle).bind ?_
        rintro ⟨opened, result⟩ ⟨hstate, hopened⟩
        cases result with
        | error errno => exact .pure (inside_of_idle hstate)
        | ok _ =>
          dsimp only
          split
          · exact .halt _
          · exact .pure fun _ => hopened rfl

/-- Writing stays inside the open volume. -/
theorem gives_zftWrite (kernel : Kernel α) (buff : List α) (rounds : List (List RunnerReport)) (h : zftape.Inside) :
    Gives (zftape.zftWrite kernel buff rounds) fun written => written.1.Inside := by
  have hstart : Inside { zftape with toZftapeInfo := { zftape.toZftapeInfo with
      resid := (buff.length : ℕ), lastWriteFailed := true } } := h
  refine (gives_checkWriteAccess hstart buff.length).bind ?_
  rintro ⟨checked, result⟩ hchecked
  cases result with
  | error errno => exact .pure hchecked
  | ok _ =>
    refine (gives_writeLoop kernel rounds buff 0).bind ?_
    rintro ⟨written, result⟩ hwritten
    exact .pure (hchecked.onwards hwritten)

/-- A flush either leaves the state of writing or does nothing. -/
theorem gives_flush (kernel : Kernel α) (round : FlushRound) (rounds : List FlushRound) :
    Gives (zftape.zftFlushBuffers kernel round rounds) fun flushed =>
      flushed.1.ioState = .idle ∨ ¬HasToFlush zftape.toZftapeInfo ∧ flushed.1 = zftape := by
  refine (gives_zftFlushBuffers kernel round rounds).bind ?_
  rintro ⟨flushed, result⟩ hflushed
  refine .pure ?_
  cases hflushed with
  | inl hidle => exact .inl hidle
  | inr hnone =>
    have hsame : flushed = zftape.toZftapeInfo := hnone.2
    rw [hsame]
    exact .inr ⟨hnone.1, rfl⟩

/-- A flush keeps a device inside its volume. -/
theorem Inside.flushed (h : zftape.Inside) {flushed : Writer α}
    (hflushed : flushed.ioState = .idle ∨ ¬HasToFlush zftape.toZftapeInfo ∧ flushed = zftape) : flushed.Inside := by
  cases hflushed with
  | inl hidle => exact inside_of_idle hidle
  | inr hnone =>
    rw [hnone.2]
    exact h

/-- Positions that are calculated do not change the state. -/
theorem ioState_calculated (behind start : ℤ) (table : Vtbl) (pos : Position) :
    ({ ((zftape.zftCalcTapePos behind).1.zftCalcTapePos start).1 with table := table, pos := pos } :
      Writer α).ioState = zftape.ioState := rfl

/-- Closing a volume does not change the state. -/
theorem zftCloseVolume_ioState : (zftape.zftCloseVolume).1.ioState = zftape.ioState := by
  rw [zftCloseVolume]
  split
  · rfl
  · split
    · rfl
    case h_2 table pos _ => exact ioState_calculated _ _ table pos

/-- Closing a volume changes nothing if it fails. -/
theorem zftCloseVolume_error {closed : Writer α} {errno : Errno}
    (h : zftape.zftCloseVolume = (closed, .error errno)) : closed = zftape := by
  rw [zftCloseVolume] at h
  split at h
  · exact (congrArg Prod.fst h).symm
  · split at h
    · exact (congrArg Prod.fst h).symm
    · cases congrArg Prod.snd h

/-- Appending file marks does not change the state. -/
theorem weofMarks_ioState (count : ℕ) : (zftape.weofMarks count).1.ioState = zftape.ioState := by
  rw [weofMarks]
  split
  · rfl
  · rfl

/-- `zft_weof()` does not change the state. -/
theorem zftWeof_ioState (count : ℕ) : (zftape.zftWeof count).1.ioState = zftape.ioState := by
  rw [zftWeof]
  split
  · rfl
  · have hstart : (if zftape.zftTapeAtLbot then zftape.initVtbl else zftape).ioState = zftape.ioState := by
      split
      · rfl
      · rfl
    dsimp only
    generalize (if zftape.zftTapeAtLbot then zftape.initVtbl else zftape) = started at hstart
    split
    · rw [weofMarks_ioState]
      exact zftCloseVolume_ioState.trans hstart
    · rw [weofMarks_ioState]
      exact hstart

/-- `MTWEOF` is harmless if there is something to flush whenever it ends a volume. -/
theorem gives_mtWeof (kernel : Kernel α) (count : ℕ) (round : FlushRound) (rounds : List FlushRound)
    (h : zftape.Inside) (hflush : count ≠ 0 → zftape.zftCheckWriteAccess = .ok () → zftape.ioState = .writing →
      HasToFlush zftape.toZftapeInfo) :
    Gives (zftape.mtWeof kernel count round rounds) fun marked => marked.1.Inside := by
  have hstart : Inside { zftape with toZftapeInfo := { zftape.toZftapeInfo with resid := (count : ℕ) } } := h
  rw [mtWeof]
  dsimp only
  split
  · exact .pure h
  case h_2 hallowed =>
    refine (gives_flush kernel round rounds).bind ?_
    rintro ⟨flushed, result⟩ hflushed
    have hinside : flushed.Inside := hstart.flushed hflushed
    cases result with
    | error errno => exact .pure hinside
    | ok _ =>
      refine .pure ?_
      have hstate : (flushed.zftWeof count).1.ioState = flushed.ioState := zftWeof_ioState count
      by_cases hcount : count = 0
      · have hsame : (flushed.zftWeof count).1 = flushed := congrArg Prod.fst (if_pos hcount)
        rw [hsame]
        exact hinside
      · cases hflushed with
        | inl hidle => exact inside_of_idle (hstate.trans hidle)
        | inr hnone =>
          have hsame : flushed.ioState = zftape.ioState := congrArg (fun flushed => flushed.ioState) hnone.2
          intro hwriting
          exact absurd (hflush hcount hallowed (hsame.symm.trans (hstate.symm.trans hwriting))) hnone.1

/-- `zft_def_idle_state()` leaves the device idle. -/
theorem gives_zftDefIdleState (kernel : Kernel α) (round : FlushRound) (rounds : List FlushRound) :
    Gives (zftape.zftDefIdleState kernel round rounds) fun entered => entered.1.ioState = .idle := by
  refine (gives_flush kernel round rounds).bind ?_
  rintro ⟨flushed, result⟩ -
  cases result with
  | error errno => exact .pure rfl
  | ok _ => exact .pure rfl

/-- A command that moves over the volumes ends the state of writing. -/
theorem gives_seek (kernel : Kernel α) (pos : Position) (curVtbl : ℕ) (round : FlushRound)
    (rounds : List FlushRound) (h : zftape.Inside) :
    Gives (zftape.seek kernel pos curVtbl round rounds) fun seeked => seeked.1.Inside := by
  rw [seek]
  split_ifs
  · exact .pure h
  · exact .pure h
  · refine (gives_zftDefIdleState kernel round rounds).bind ?_
    rintro ⟨entered, result⟩ hidle
    cases result with
    | error errno => exact .pure (inside_of_idle hidle)
    | ok _ => exact .pure (inside_of_idle hidle)

/-- The part of `_zft_close()` that ends the volume ends the state of writing with it. -/
theorem gives_closeFile (kernel : Kernel α) (round : FlushRound) (rounds : List FlushRound) (h : zftape.Inside) :
    Gives (zftape.closeFile kernel round rounds) Inside := by
  refine (gives_flush kernel round rounds).bind ?_
  rintro ⟨flushed, result⟩ hflushed
  have hinside : flushed.Inside := h.flushed hflushed
  dsimp only
  split
  case h_1 closed errno hclosed =>
    refine .pure ?_
    rw [zftCloseVolume_error hclosed]
    exact hinside
  case h_2 => exact .pure (inside_of_idle rfl)

/-- So does `_zft_close()`. -/
theorem gives_zftClose (kernel : Kernel α) (rewind : Bool) (round : FlushRound) (rounds : List FlushRound)
    (h : zftape.Inside) : Gives (zftape.zftClose kernel rewind round rounds) Inside := by
  rw [zftClose]
  split
  · exact .pure h
  · have hfile : Gives (if zftape.cartridgeProtected || zftape.zftVtblSoftRo then pure zftape
        else zftape.closeFile kernel round rounds) Inside := by
      split
      · exact .pure h
      · exact gives_closeFile kernel round rounds h
    refine hfile.bind fun closed hclosed => ?_
    dsimp only
    split
    · exact gives_zftResetPosition.mono fun _ hidle => inside_of_idle hidle
    · exact .pure hclosed

end Writer

/-- What a user does with a device that writes. -/
inductive WriteRequest (α : Type) where
  | write (buff : List α) (rounds : List (List RunnerReport))
  | weof (count : ℕ) (round : FlushRound) (rounds : List FlushRound)
  | flush (round : FlushRound) (rounds : List FlushRound)
  | seek (pos : Position) (curVtbl : ℕ) (round : FlushRound) (rounds : List FlushRound)
  | close (rewind : Bool) (round : FlushRound) (rounds : List FlushRound)

/-- What a request makes of the device. -/
def WriteRequest.exec (kernel : Kernel α) (zftape : Writer α) : WriteRequest α → Traced α (Writer α)
  | write buff rounds => do
    let (zftape, _) ← zftape.zftWrite kernel buff rounds
    pure zftape
  | weof count round rounds => do
    let (zftape, _) ← zftape.mtWeof kernel count round rounds
    pure zftape
  | flush round rounds => do
    let (zftape, _) ← zftape.zftFlushBuffers kernel round rounds
    pure zftape
  | seek pos curVtbl round rounds => do
    let (zftape, _) ← zftape.seek kernel pos curVtbl round rounds
    pure zftape
  | close rewind round rounds => zftape.zftClose kernel rewind round rounds

/-- One request after the other. -/
def Writer.serve (kernel : Kernel α) : List (WriteRequest α) → Writer α → Traced α (Writer α)
  | [], zftape => pure zftape
  | request :: requests, zftape => do
    let zftape ← request.exec kernel zftape
    Writer.serve kernel requests zftape

/-- File marks that are to be written find something to flush if the device is in the state of writing. -/
def WriteRequest.Flushes (zftape : Writer α) : WriteRequest α → Prop
  | weof count _ _ => count ≠ 0 → zftape.zftCheckWriteAccess = .ok () → zftape.ioState = .writing →
      HasToFlush zftape.toZftapeInfo
  | _ => True

/-- Every request finds something to flush if it has to. -/
def Writer.FlushesAll (kernel : Kernel α) : List (WriteRequest α) → Writer α → Prop
  | [], _ => True
  | request :: requests, zftape => request.Flushes zftape ∧
      ∀ zftape' ∈ (request.exec kernel zftape).result.toOption, Writer.FlushesAll kernel requests zftape'

/-- A request keeps the device inside an open volume while it writes. -/
theorem WriteRequest.gives_exec (kernel : Kernel α) {zftape : Writer α} (h : zftape.Inside)
    (request : WriteRequest α) (hflushes : request.Flushes zftape) :
    Gives (request.exec kernel zftape) Writer.Inside := by
  cases request with
  | write buff rounds => exact (Writer.gives_zftWrite kernel buff rounds h).bind fun _ hwritten => .pure hwritten
  | weof count round rounds =>
    exact (Writer.gives_mtWeof kernel count round rounds h hflushes).bind fun _ hmarked => .pure hmarked
  | flush round rounds =>
    refine (Writer.gives_flush kernel round rounds).bind ?_
    rintro ⟨flushed, result⟩ hflushed
    exact .pure (h.flushed hflushed)
  | seek pos curVtbl round rounds =>
    exact (Writer.gives_seek kernel pos curVtbl round rounds h).bind fun _ hseeked => .pure hseeked
  | close rewind round rounds => exact Writer.gives_zftClose kernel rewind round rounds h

/-- In every run in which file marks find something to flush, the state of writing implies an open volume that
does not start behind the position. -/
theorem Writer.serve_inside (kernel : Kernel α) (requests : List (WriteRequest α)) {zftape zftape' : Writer α}
    (h : zftape.Inside) (hflushes : Writer.FlushesAll kernel requests zftape)
    (hserve : (Writer.serve kernel requests zftape).result = .ok zftape') : zftape'.Inside := by
  induction requests generalizing zftape with
  | nil =>
    cases hserve
    exact h
  | cons request requests ih =>
    obtain ⟨hhere, hthere⟩ := hflushes
    have hrun : (Recorded.bind (request.exec kernel zftape) (Writer.serve kernel requests)).result = .ok zftape' :=
      hserve
    rw [Recorded.bind] at hrun
    cases hexec : (request.exec kernel zftape).result with
    | error fault =>
      rw [hexec] at hrun
      cases hrun
    | ok served =>
      rw [hexec] at hrun
      have hinside := request.gives_exec kernel h hhere (fun _ _ => trivial) _ hexec
      rw [hexec] at hthere
      exact ih hinside (hthere served rfl) hrun

/-- Whether a run flushes whenever it has to can be tested. -/
instance (zftape : ZftapeInfo α) : Decidable (HasToFlush zftape) := inferInstanceAs (Decidable (_ ∨ _))

instance (zftape : Writer α) : Decidable zftape.Inside := inferInstanceAs (Decidable (_ → _))

instance (zftape : Writer α) : DecidablePred (WriteRequest.Flushes zftape)
  | .weof _ _ _ => inferInstanceAs (Decidable (_ → _ → _ → _))
  | .write _ _ => inferInstanceAs (Decidable True)
  | .flush _ _ => inferInstanceAs (Decidable True)
  | .seek _ _ _ _ => inferInstanceAs (Decidable True)
  | .close _ _ _ => inferInstanceAs (Decidable True)

instance decidableFlushesAll (kernel : Kernel α) :
    (requests : List (WriteRequest α)) → (zftape : Writer α) → Decidable (Writer.FlushesAll kernel requests zftape)
  | [], _ => inferInstanceAs (Decidable True)
  | request :: requests, zftape =>
    have := decidableFlushesAll kernel requests
    inferInstanceAs (Decidable (request.Flushes zftape ∧
      ∀ zftape' ∈ (request.exec kernel zftape).result.toOption, Writer.FlushesAll kernel requests zftape'))

/-- A file, a file mark behind it, and a seek back to the beginning of the tape. -/
def fileWithMark : List (WriteRequest Byte) :=
  [.write [1, 2, 3] [[]], .weof 1 ⟨[⟨0, none⟩], ⟨1, none⟩, []⟩ [], .seek ⟨3, 0, 0, 29696⟩ 0 ⟨[], ⟨0, none⟩, []⟩ []]

/-- The file mark finds the three bytes to flush. -/
theorem Writer.serve_inside_file_with_mark :
    ∃ zftape', (Writer.serve sampleKernel fileWithMark blankWriter).result = .ok zftape' ∧ zftape'.Inside := by
  have hserved : (Writer.serve sampleKernel fileWithMark blankWriter).result.isOk = true := by decide +kernel
  cases hserve : (Writer.serve sampleKernel fileWithMark blankWriter).result with
  | error fault =>
    rw [hserve] at hserved
    cases hserved
  | ok zftape' =>
    refine ⟨zftape', rfl, ?_⟩
    exact Writer.serve_inside sampleKernel fileWithMark (by decide +kernel) (by decide +kernel) hserve

/-- A write of nothing begins a volume. The file mark behind it has nothing to flush, so it ends the volume and the
device goes on writing. -/
theorem Writer.serve_inside_empty_write :
    blankWriter.Inside ∧
      ∃ zftape' ∈ (Writer.serve sampleKernel [.write [] [], .weof 1 ⟨[], ⟨0, none⟩, []⟩ []] blankWriter).result.toOption,
        ¬zftape'.Inside := by
  decide +kernel

end Ftape.Volume
