import Ftape.Zftape.HardErrors

/-!
# The order of the byte stream

The stream is what the user sees in the end: the data on tape and in the ring, the filled part of
the deblock buffer, and the pending sectors in the order in which they will be written. Every
hard error moves the last sector of the data to the end of the pending sectors, so the stream
survives a call exactly when the pending sectors and those that follow commute in this sense.
-/

namespace Ftape.Zftape

open Ftape.Algebra Ftape.Write

variable {α : Type*}

/-- The data in front of the pending sectors. -/
def ZftapeInfo.front (zftape : ZftapeInfo α) (filled : ℕ) : List α :=
  zftape.drive.data ++ if zftape.deblockBuf then window zftape.drive.deblockBuffer 0 filled else []

/-- The byte stream. -/
def ZftapeInfo.stream (zftape : ZftapeInfo α) (filled : ℕ) : List α :=
  zftape.front filled ++ zftape.pending

/-- The sectors that hard errors shift out of the data, one after the other. -/
def ZftapeInfo.overflow (zftape : ZftapeInfo α) (filled n : ℕ) : List (List α) :=
  lastBlocks ftSectorSize n (zftape.front filled)

/-- After `n` hard errors the last `n` sectors of the data are pending, the last of them first. -/
structure Shifted (zftape zftape' : ZftapeInfo α) (filled n : ℕ) : Prop where
  front : zftape.front filled =
    zftape'.front filled ++ (zftape.overflow filled n).reverse.flatten
  pending : zftape'.pending = zftape.pending ++ (zftape.overflow filled n).flatten

/-- Without an error nothing is shifted. -/
theorem Shifted.none {zftape zftape' : ZftapeInfo α} {filled : ℕ}
    (hfront : zftape'.front filled = zftape.front filled)
    (hpending : zftape'.pending = zftape.pending) : Shifted zftape zftape' filled 0 := by
  constructor
  · simp [ZftapeInfo.overflow, lastBlocks, hfront]
  · simp [ZftapeInfo.overflow, lastBlocks, hpending]

/-- One error, and then some more. -/
theorem Shifted.cons {zftape zftape₁ zftape' : ZftapeInfo α} {filled n : ℕ} {sector : List α}
    (hsector : sector.length = ftSectorSize)
    (hfront : zftape.front filled = zftape₁.front filled ++ sector)
    (hpending : zftape₁.pending = zftape.pending ++ sector)
    (h : Shifted zftape₁ zftape' filled n) : Shifted zftape zftape' filled (n + 1) := by
  have hoverflow : zftape.overflow filled (n + 1) = sector :: zftape₁.overflow filled n := by
    rw [ZftapeInfo.overflow, hfront, lastBlocks_append hsector, ZftapeInfo.overflow]
  constructor
  · rw [hoverflow, List.reverse_cons, List.flatten_append, ← List.append_assoc, ← h.front, hfront]
    simp
  · rw [hoverflow, List.flatten_cons, h.pending, hpending, List.append_assoc]

/-- The stream is the same exactly when the pending sectors may change places with the shifted
ones. -/
theorem Shifted.shifted_iff {zftape zftape' : ZftapeInfo α} {filled n : ℕ}
    (h : Shifted zftape zftape' filled n) :
    zftape'.stream filled = zftape.stream filled ↔
      zftape.pending ++ (zftape.overflow filled n).flatten =
        (zftape.overflow filled n).reverse.flatten ++ zftape.pending := by
  rw [ZftapeInfo.stream, ZftapeInfo.stream, h.pending, h.front, List.append_assoc]
  exact List.append_right_inj _

/-- The failures of `HEAD` that a call of `zftape_write_segment()` sees with a full ring: after
anything else a buffer is free, or the call ends. -/
def surfacing : List RunnerReport → List (Fin 32)
  | ⟨0, some sector⟩ :: reports => sector :: surfacing reports
  | _ => []

/-- A payload is empty or at least a sector long. -/
theorem segDataSz_cases (bsm : SectorMap) : segDataSz bsm = 0 ∨ ftSectorSize ≤ segDataSz bsm := by
  rw [segDataSz_eq]
  cases h : 29 - countOnes bsm with
  | zero => exact Or.inl (Nat.zero_mul _)
  | succ n =>
    apply Or.inr
    rw [Nat.succ_mul]
    exact Nat.le_add_left _ _

/-- A payload leaves room for the error correcting sectors. -/
theorem segDataSz_le (bsm : SectorMap) : segDataSz bsm ≤ ftSegmentSize := by
  rw [segDataSz]
  exact Nat.sub_le _ _

/-- The state in which a segment is about to be written: the buffers of the queue wait, the
deblock buffer is filled, and the segment is not queued yet. -/
structure WriteReady (zftape : ZftapeInfo α) (queue free : List (BufferStruct α)) (segPos : ℕ) :
    Prop where
  queued : zftape.drive.Queued queue free
  waiting : ∀ buff ∈ queue, buff.status = .waiting
  writing : zftape.drive.writing = true
  deblockBuf : zftape.deblockBuf = true
  fresh : segPos ∉ queue.map BufferStruct.segmentId

/-- With a free buffer after the report, `zftape_write_segment()` queues the deblock buffer. -/
theorem zftapeWriteSegment_of_free (kernel : Kernel α) {zftape : ZftapeInfo α} {segPos : ℕ}
    {queue queue' free' : List (BufferStruct α)} {buff : BufferStruct α} {report : RunnerReport}
    (reports : List RunnerReport) (hwriting : zftape.drive.writing = true)
    (hdeblock : zftape.deblockBuf = true) (honTape : segPos < zftape.drive.segments)
    (hqueued : (zftape.drive.run report).Queued queue' (buff :: free'))
    (hran : zftape.drive.Ran (zftape.drive.run report) queue queue')
    (hfresh : segPos ∉ queue.map BufferStruct.segmentId) :
    ∃ zftape' result, zftapeWriteSegment kernel segPos (zftape.segSz segPos) (report :: reports) zftape =
        some (zftape', result) ∧ Shifted zftape zftape' (zftape.segSz segPos) 0 := by
  have hstart := Drive.startWriting_of_writing hwriting
  obtain ⟨written, hids⟩ := hran.ids
  have hfresh' : segPos ∉ queue'.map BufferStruct.segmentId := by
    rw [hids] at hfresh
    exact fun hmem => hfresh (List.mem_append_right _ hmem)
  obtain ⟨drive', queue'', hwrite, -, htook⟩ := ftapeWriteSegment_of_free kernel.ecc honTape
    (hstart ▸ hqueued) hfresh'
  rw [hstart] at htook
  refine ⟨{ zftape with drive := drive', deblockBuf := false }, .ok (), ?_, ?_⟩
  · rw [zftapeWriteSegment, hwrite]
  · apply Shifted.none
    · have hdata : drive'.data = zftape.drive.data ++
          window zftape.drive.deblockBuffer 0 (zftape.segSz segPos) := by
        rw [Drive.data, htook.log, hran.log, hran.deblockBuffer, hran.badSectorMap,
          List.flatMap_append, List.flatMap_singleton]
        rfl
      rw [ZftapeInfo.front, ZftapeInfo.front, hdeblock, if_pos rfl, hdata]
      exact List.append_nil _
    · rfl

/-- A call that finds a free buffer, or a segment beyond the tape, shifts nothing. -/
theorem zftapeWriteSegment_of_room (kernel : Kernel α) {zftape : ZftapeInfo α} {segPos : ℕ}
    {queue free : List (BufferStruct α)} (reports : List RunnerReport)
    (h : WriteReady zftape queue free segPos)
    (hroom : ¬(free.length = 0 ∧ segPos < zftape.drive.segments)) :
    ∃ zftape' result, zftapeWriteSegment kernel segPos (zftape.segSz segPos) reports zftape =
        some (zftape', result) ∧ Shifted zftape zftape' (zftape.segSz segPos) 0 := by
  cases reports with
  | nil => exact ⟨zftape, .error .eintr, rfl, Shifted.none rfl rfl⟩
  | cons report reports =>
    by_cases honTape : segPos < zftape.drive.segments
    · obtain ⟨queue', free', hqueued, hlength, hran⟩ := h.queued.run report
      cases free' with
      | nil => exact absurd ⟨Nat.le_zero.mp hlength, honTape⟩ hroom
      | cons buff free' =>
        exact zftapeWriteSegment_of_free kernel reports h.writing h.deblockBuf honTape hqueued hran
          h.fresh
    · refine ⟨zftape, .error .enospc, ?_, Shifted.none rfl rfl⟩
      rw [zftapeWriteSegment, ftapeWriteSegment, if_pos (by omega)]
      rfl

section FullRing

variable (kernel : Kernel α) {zftape : ZftapeInfo α} {segPos : ℕ} {head : BufferStruct α}
  {queue : List (BufferStruct α)}

/-- What a report that begins with a failure of `HEAD` makes of a full ring. -/
theorem WriteReady.fails (h : WriteReady zftape (head :: queue) [] segPos) (sector : Fin 32) :
    (zftape.drive.run ⟨0, some sector⟩).Queued (head.failed sector :: queue) [] ∧
      zftape.drive.Ran (zftape.drive.run ⟨0, some sector⟩) (head :: queue)
        (head.failed sector :: queue) ∧
      headFailed (zftape.drive.run ⟨0, some sector⟩) = true := by
  obtain ⟨free', hqueued, hlength, hran⟩ := h.queued.run_of_waiting h.waiting ⟨0, some sector⟩
  obtain rfl : free' = [] := List.length_eq_zero_iff.mp (by simpa using hlength)
  exact ⟨hqueued, hran, headFailed_of_failed hqueued rfl (countOnes_sectorBit sector)⟩

/-- The round of `zftape_write_segment()` that sees such a report comes to the recovery, and goes
on if that succeeds. -/
theorem zftapeWriteSegment_of_failure (h : WriteReady zftape (head :: queue) [] segPos)
    (honTape : segPos < zftape.drive.segments) (sector : Fin 32) (reports : List RunnerReport) (segSz : ℕ) :
    zftapeWriteSegment kernel segPos segSz (⟨0, some sector⟩ :: reports) zftape =
      (recoverWrite kernel { zftape with drive := zftape.drive.run ⟨0, some sector⟩ } segSz).bind
        fun
        | .error _ => some ({ zftape with drive := zftape.drive.run ⟨0, some sector⟩ }, .error .eio)
        | .ok zftape => zftapeWriteSegment kernel segPos segSz reports zftape := by
  obtain ⟨hqueued, -, hhead⟩ := h.fails sector
  have hstart := Drive.startWriting_of_writing h.writing
  have hwrite := ftapeWriteSegment_of_full kernel.ecc honTape (hstart.symm ▸ hqueued)
  rw [hstart] at hwrite
  rw [zftapeWriteSegment, hwrite]
  dsimp only
  rw [hhead, if_neg (by simp)]
  rfl

/-- A failure that can be recovered from shifts one sector and leaves the ring full. -/
theorem zftapeWriteSegment_round (h : WriteReady zftape (head :: queue) [] segPos)
    (honTape : segPos < zftape.drive.segments) {sector : Fin 32}
    (hgood : (zftape.drive.badSectorMap head.segmentId).getLsbD sector = false)
    (hroom : countOnes (zftape.drive.badSectorMap head.segmentId) ≤ 28)
    (reports : List RunnerReport) :
    ∃ zftape₁ head₁ queue₁ lost,
      zftapeWriteSegment kernel segPos (zftape.segSz segPos) (⟨0, some sector⟩ :: reports) zftape =
        zftapeWriteSegment kernel segPos (zftape.segSz segPos) reports zftape₁ ∧
      WriteReady zftape₁ (head₁ :: queue₁) [] segPos ∧
      zftape₁.drive.badSectorMap head₁.segmentId =
        zftape.drive.badSectorMap head.segmentId ||| sectorBit sector ∧
      zftape₁.segSz segPos = zftape.segSz segPos ∧
      zftape₁.drive.segments = zftape.drive.segments ∧
      lost.length = ftSectorSize ∧
      zftape.front (zftape.segSz segPos) = zftape₁.front (zftape.segSz segPos) ++ lost ∧
      zftape₁.pending = zftape.pending ++ lost := by
  obtain ⟨hqueued, hran, -⟩ := h.fails sector
  have hfailed : FailedBuffer (zftape.drive.run ⟨0, some sector⟩) (head.failed sector) := by
    apply failedBuffer_failed
    rwa [hran.badSectorMap]
  obtain ⟨drive', scratch', queue', free', hrecover, hids, hlength, hqueued', hwaiting', hdata, hmap,
    -, hwriting, hsegments⟩ := recoverWrite_spec kernel
      { zftape with drive := zftape.drive.run ⟨0, some sector⟩ } hqueued hfailed
      (by rwa [hran.badSectorMap]) (segDataSz_cases (zftape.drive.badSectorMap segPos))
      (segDataSz_le _)
  obtain rfl : free' = [] := List.length_eq_zero_iff.mp hlength
  cases queue' with
  | nil => exact absurd (congrArg List.length hids) (by simp)
  | cons head₁ queue₁ =>
    have hhead₁ : head₁.segmentId = head.segmentId := (List.cons.inj hids).1
    have hne : segPos ≠ head.segmentId := by
      intro heq
      exact h.fresh (heq ▸ List.mem_cons_self)
    dsimp only at hdata hmap hwriting hsegments
    rw [hran.badSectorMap] at hmap
    refine ⟨{ zftape with
        drive := drive'
        capacity := zftape.capacity - ftSectorSize
        deblockBuf := true
        hardErrors := zftape.hardErrors ++ [scratch'] }, head₁, queue₁, window scratch' 0 ftSectorSize, ?_,
      ⟨hqueued', hwaiting', ?_, rfl, ?_⟩, ?_, ?_, hsegments.trans hran.segments, window_length _ _ _, ?_, ?_⟩
    · rw [zftapeWriteSegment_of_failure kernel h honTape]
      exact congrArg (Option.bind · _) hrecover
    · exact hwriting.trans (hran.writing.trans h.writing)
    · rw [hids]
      exact h.fresh
    · rw [hhead₁]
      exact (congrFun hmap _).trans (Function.update_self _ _ _)
    · exact congrArg segDataSz ((congrFun hmap _).trans (Function.update_of_ne hne _ _))
    · rw [Drive.data, hran.log, hran.deblockBuffer] at hdata
      rw [ZftapeInfo.front, ZftapeInfo.front, h.deblockBuf, if_pos rfl, if_pos rfl]
      exact hdata
    · simp [ZftapeInfo.pending]

/-- A failure in a segment without payload leaves the deblock buffer. -/
theorem zftapeWriteSegment_of_short (h : WriteReady zftape (head :: queue) [] segPos)
    (honTape : segPos < zftape.drive.segments) (sector : Fin 32) (hshort : 29 ≤ countOnes (zftape.drive.badSectorMap head.segmentId))
    (reports : List RunnerReport) :
    zftapeWriteSegment kernel segPos (zftape.segSz segPos) (⟨0, some sector⟩ :: reports) zftape =
      none := by
  obtain ⟨hqueued, hran, -⟩ := h.fails sector
  have hone : countOnes (head.failed sector).hardErrorMap = 1 := countOnes_sectorBit sector
  have hrecover : recoverWrite kernel { zftape with drive := zftape.drive.run ⟨0, some sector⟩ }
      (zftape.segSz segPos) = none := by
    apply recoverWrite_of_short kernel _ hqueued hone
    · rwa [hran.badSectorMap]
    · exact segDataSz_le _
  rw [zftapeWriteSegment_of_failure kernel h honTape, hrecover, Option.bind_none]

/-- A call of `zftape_write_segment()` that begins with a full ring shifts one sector for each of
its failures, unless one of them finds no payload. -/
theorem zftapeWriteSegment_of_full (reports : List RunnerReport)
    (h : WriteReady zftape (head :: queue) [] segPos) (honTape : segPos < zftape.drive.segments)
    (hnodup : (surfacing reports).Nodup)
    (hgood : ∀ sector ∈ surfacing reports,
      (zftape.drive.badSectorMap head.segmentId).getLsbD sector = false) :
    (surfacing reports = [] ∨ countOnes (zftape.drive.badSectorMap head.segmentId) +
        (surfacing reports).length ≤ 29 →
      ∃ zftape' result,
        zftapeWriteSegment kernel segPos (zftape.segSz segPos) reports zftape =
          some (zftape', result) ∧
        Shifted zftape zftape' (zftape.segSz segPos) (surfacing reports).length) ∧
    (¬(surfacing reports = [] ∨ countOnes (zftape.drive.badSectorMap head.segmentId) +
        (surfacing reports).length ≤ 29) →
      zftapeWriteSegment kernel segPos (zftape.segSz segPos) reports zftape = none) := by
  induction reports generalizing zftape head queue with
  | nil =>
    refine ⟨fun _ => ⟨zftape, .error .eintr, rfl, Shifted.none rfl rfl⟩, ?_⟩
    intro hnot
    exact absurd (Or.inl rfl) hnot
  | cons report reports ih =>
    obtain ⟨completed, hardError⟩ := report
    cases completed with
    | succ completed =>
      -- a segment is finished, which frees a buffer
      obtain ⟨free', hqueued, hlength, hran⟩ := h.queued.run_of_waiting h.waiting ⟨completed + 1, hardError⟩
      cases free' with
      | nil => exact absurd hlength (by simp)
      | cons buff free' =>
        obtain ⟨zftape', result, hrun, hshifted⟩ := zftapeWriteSegment_of_free kernel reports
          h.writing h.deblockBuf honTape hqueued hran h.fresh
        exact ⟨fun _ => ⟨zftape', result, hrun, hshifted⟩, fun hnot => absurd (Or.inl rfl) hnot⟩
    | zero =>
      cases hardError with
      | none =>
        -- nothing happens, and the driver gives up
        obtain ⟨free', hqueued, hlength, hran⟩ := h.queued.run_of_waiting h.waiting ⟨0, none⟩
        obtain rfl : free' = [] := List.length_eq_zero_iff.mp (by simpa using hlength)
        have hstart := Drive.startWriting_of_writing h.writing
        have hwrite := ftapeWriteSegment_of_full kernel.ecc honTape (hstart.symm ▸ hqueued)
        rw [hstart] at hwrite
        have hhead : headFailed (zftape.drive.run ⟨0, none⟩) = false :=
          headFailed_of_waiting hqueued (h.waiting head List.mem_cons_self)
        refine ⟨fun _ => ⟨{ zftape with drive := zftape.drive.run ⟨0, none⟩ }, .error .eio, ?_, ?_⟩,
          fun hnot => absurd (Or.inl rfl) hnot⟩
        · rw [zftapeWriteSegment, hwrite]
          dsimp only
          rw [if_pos (Or.inr hhead)]
        · exact Shifted.none rfl rfl
      | some sector =>
        rw [surfacing] at hnodup hgood ⊢
        obtain ⟨hnew, hnodup'⟩ := List.nodup_cons.mp hnodup
        obtain ⟨hsector, hgood'⟩ := List.forall_mem_cons.mp hgood
        by_cases hroom : countOnes (zftape.drive.badSectorMap head.segmentId) ≤ 28
        · obtain ⟨zftape₁, head₁, queue₁, lost, hrun, hready, hmap, hsize, hsegments, hlost, hfront,
              hpending⟩ := zftapeWriteSegment_round kernel h honTape hsector hroom reports
          have hcount : countOnes (zftape₁.drive.badSectorMap head₁.segmentId) =
              countOnes (zftape.drive.badSectorMap head.segmentId) + 1 := by
            rw [hmap]
            exact countOnes_or_of_new (countOnes_sectorBit sector) (and_sectorBit_eq_zero hsector)
          have hgood₁ : ∀ other ∈ surfacing reports,
              (zftape₁.drive.badSectorMap head₁.segmentId).getLsbD other = false := by
            intro other hother
            have hne : other.val ≠ sector.val := fun heq => hnew (Fin.ext heq ▸ hother)
            rw [hmap, BitVec.getLsbD_or, hgood' other hother, getLsbD_sectorBit, decide_eq_false hne,
              Bool.or_false]
          obtain ⟨hgoes, hfails⟩ := ih hready (hsegments.symm ▸ honTape) hnodup' hgood₁
          rw [hsize, ← hrun] at hgoes hfails
          rw [List.length_cons]
          constructor
          · intro hcond
            obtain ⟨zftape', result, hrun', hshifted⟩ := hgoes (by
              cases hcond with
              | inl hnil => exact absurd hnil (List.cons_ne_nil _ _)
              | inr hle =>
                apply Or.inr
                omega)
            exact ⟨zftape', result, hrun', hshifted.cons hlost hfront hpending⟩
          · intro hnot
            apply hfails
            intro hcond
            apply hnot
            cases hcond with
            | inl hnil =>
              rw [hnil, List.length_nil]
              apply Or.inr
              omega
            | inr hle =>
              apply Or.inr
              omega
        · rw [List.length_cons]
          constructor
          · intro hcond
            cases hcond with
            | inl hnil => exact absurd hnil (List.cons_ne_nil _ _)
            | inr hle => exact absurd hle (by omega)
          · intro _
            exact zftapeWriteSegment_of_short kernel h honTape sector (by omega) reports

end FullRing

section Flush

variable (kernel : Kernel α) {report : RunnerReport} {zftape : ZftapeInfo α}
  {queue free : List (BufferStruct α)}

/-- Emptying the ring without a failure shifts nothing. -/
theorem zftapeLoopUntilWritesDone_of_quiet (hqueued : zftape.drive.Queued queue free)
    (hwaiting : ∀ buff ∈ queue, buff.status = .waiting) (hwriting : zftape.drive.writing = true)
    (hquiet : report.leaves queue = queue.drop report.completed) :
    ∃ zftape' result, zftapeLoopUntilWritesDone kernel report zftape = some (zftape', result) ∧
      Shifted zftape zftape' 0 0 := by
  obtain ⟨free', hran', -, hran⟩ := hqueued.run_of_waiting hwaiting report
  rw [hquiet] at hran' hran
  have hfront : (zftape.drive.run report).data = zftape.drive.data := by
    rw [Drive.data, hran.log, Drive.data]
  cases hrest : queue.drop report.completed with
  | nil =>
    rw [hrest] at hran'
    refine ⟨{ zftape with drive := { zftape.drive.run report with writing := false } }, .ok (), ?_, ?_⟩
    · rw [zftapeLoopUntilWritesDone, ftapeLoopUntilWritesDone_of_empty hwriting hran']
    · apply Shifted.none
      · rw [ZftapeInfo.front, ZftapeInfo.front, window_zero, window_zero]
        exact congrArg (· ++ _) hfront
      · rfl
  | cons head rest =>
    rw [hrest] at hran'
    have hhead : head.status = .waiting :=
      hwaiting head (List.mem_of_mem_drop (hrest ▸ List.mem_cons_self))
    refine ⟨{ zftape with drive := zftape.drive.run report }, .error .eintr, ?_, ?_⟩
    · rw [zftapeLoopUntilWritesDone, ftapeLoopUntilWritesDone_of_queue hwriting hran', hhead]
      rfl
    · apply Shifted.none
      · rw [ZftapeInfo.front, ZftapeInfo.front, window_zero, window_zero]
        exact congrArg (· ++ _) hfront
      · rfl

/-- What a failure makes of the ring while it is being emptied. -/
theorem zftapeLoopUntilWritesDone_of_failure (hqueued : zftape.drive.Queued queue free)
    (hwaiting : ∀ buff ∈ queue, buff.status = .waiting) (hwriting : zftape.drive.writing = true)
    {sector : Fin 32} (herror : report.hardError = some sector) {head : BufferStruct α}
    {rest : List (BufferStruct α)} (hrest : queue.drop report.completed = head :: rest) :
    ∃ free', (zftape.drive.run report).Queued (head.failed sector :: rest) free' ∧
      zftape.drive.Ran (zftape.drive.run report) queue (head.failed sector :: rest) ∧
      zftapeLoopUntilWritesDone kernel report zftape =
        (ftapeHardErrorRecovery kernel.ecc (zftape.drive.run report).toFtapeInfo kernel.fresh).bind fun
          | .error _ => some ({ zftape with drive := zftape.drive.run report }, .error .eio)
          | .ok (ftape, scratch) => some ({ zftape with
              drive := { zftape.drive.run report with toFtapeInfo := ftape }
              capacity := zftape.capacity - ftSectorSize
              hardErrors := zftape.hardErrors ++ [scratch] }, .ok ()) := by
  have hleaves : report.leaves queue = head.failed sector :: rest := by
    rw [RunnerReport.leaves, herror, hrest]
  obtain ⟨free', hran', -, hran⟩ := hqueued.run_of_waiting hwaiting report
  rw [hleaves] at hran' hran
  refine ⟨free', hran', hran, ?_⟩
  have hstatus : (head.failed sector).status = .error := rfl
  have hhead := headFailed_of_failed hran' hstatus (countOnes_sectorBit sector)
  rw [zftapeLoopUntilWritesDone, ftapeLoopUntilWritesDone_of_queue hwriting hran', if_pos hstatus]
  dsimp only
  rw [hhead, if_neg (by simp)]
  rfl

/-- A failure that can be recovered from shifts one sector. -/
theorem zftapeLoopUntilWritesDone_of_room (hqueued : zftape.drive.Queued queue free)
    (hwaiting : ∀ buff ∈ queue, buff.status = .waiting) (hwriting : zftape.drive.writing = true)
    {sector : Fin 32} (herror : report.hardError = some sector) {head : BufferStruct α}
    {rest : List (BufferStruct α)} (hrest : queue.drop report.completed = head :: rest)
    (hgood : (zftape.drive.badSectorMap head.segmentId).getLsbD sector = false)
    (hroom : countOnes (zftape.drive.badSectorMap head.segmentId) ≤ 28) :
    ∃ zftape' result, zftapeLoopUntilWritesDone kernel report zftape = some (zftape', result) ∧
      Shifted zftape zftape' 0 1 := by
  obtain ⟨free', hran', hran, hrun⟩ :=
    zftapeLoopUntilWritesDone_of_failure kernel hqueued hwaiting hwriting herror hrest
  have hfailed : FailedBuffer (zftape.drive.run report) (head.failed sector) := by
    apply failedBuffer_failed
    rwa [hran.badSectorMap]
  obtain ⟨ftape, scratch, queue', free'', hrecovery, -, -, hrecovers⟩ :=
    hran'.recovers kernel.ecc hfailed (by rwa [hran.badSectorMap]) kernel.fresh
  have hdata := hrecovers.data
  rw [Drive.data, hran.log] at hdata
  refine ⟨_, .ok (), by rw [hrun, hrecovery, Option.bind_some], ?_⟩
  apply Shifted.cons (window_length scratch 0 ftSectorSize) _ _ (Shifted.none rfl rfl)
  · rw [ZftapeInfo.front, ZftapeInfo.front, window_zero, window_zero]
    simpa [Drive.data] using hdata
  · simp [ZftapeInfo.pending]

/-- A failure in a segment without payload leaves the deblock buffer. -/
theorem zftapeLoopUntilWritesDone_of_short (hqueued : zftape.drive.Queued queue free)
    (hwaiting : ∀ buff ∈ queue, buff.status = .waiting) (hwriting : zftape.drive.writing = true)
    {sector : Fin 32} (herror : report.hardError = some sector) {head : BufferStruct α}
    {rest : List (BufferStruct α)} (hrest : queue.drop report.completed = head :: rest)
    (hshort : 29 ≤ countOnes (zftape.drive.badSectorMap head.segmentId)) :
    zftapeLoopUntilWritesDone kernel report zftape = none := by
  obtain ⟨free', hran', hran, hrun⟩ :=
    zftapeLoopUntilWritesDone_of_failure kernel hqueued hwaiting hwriting herror hrest
  have hone : countOnes (head.failed sector).hardErrorMap = 1 := countOnes_sectorBit sector
  have hshort' : 29 ≤ countOnes ((zftape.drive.run report).badSectorMap
      (head.failed sector).segmentId) := by rwa [hran.badSectorMap]
  rw [hrun, ftapeHardErrorRecovery_of_short kernel.ecc hran'.ring kernel.fresh hone hshort',
    Option.bind_none]

end Flush

/-- The two routines that write segments and shift data after hard errors. -/
inductive WriteCall where
  | writeSegment (segPos : ℕ) (reports : List RunnerReport)
  | loopUntilWritesDone (report : RunnerReport)

/-- Run a call on a device. -/
def WriteCall.run (kernel : Kernel α) (zftape : ZftapeInfo α) :
    WriteCall → Option (ZftapeInfo α × Except Errno Unit)
  | .writeSegment segPos reports =>
    zftapeWriteSegment kernel segPos (zftape.segSz segPos) reports zftape
  | .loopUntilWritesDone report => zftapeLoopUntilWritesDone kernel report zftape

/-- The bytes in the deblock buffer that the call is about. -/
def WriteCall.filled (zftape : ZftapeInfo α) : WriteCall → ℕ
  | .writeSegment segPos _ => zftape.segSz segPos
  | .loopUntilWritesDone _ => 0

/-- The segment whose failures the call sees: `HEAD` of a full ring, or the segment the drive has
come to when it empties the ring. -/
def WriteCall.segment (queue : List (BufferStruct α)) : WriteCall → Option (BufferStruct α)
  | .writeSegment _ _ => queue.head?
  | .loopUntilWritesDone report => queue[report.completed]?

/-- The hard errors the call sees, as the sectors that fail. -/
def WriteCall.failures (zftape : ZftapeInfo α) (queue free : List (BufferStruct α)) :
    WriteCall → List (Fin 32)
  | .writeSegment segPos reports =>
    if free.length = 0 ∧ segPos < zftape.drive.segments then surfacing reports else []
  | .loopUntilWritesDone report =>
    if report.completed < queue.length then report.hardError.toList else []

/-- The state in which the driver makes the call. -/
def WriteCall.Ready (zftape : ZftapeInfo α) (queue free : List (BufferStruct α)) : WriteCall → Prop
  | .writeSegment segPos _ => WriteReady zftape queue free segPos
  | .loopUntilWritesDone _ => zftape.drive.Queued queue free ∧
      (∀ buff ∈ queue, buff.status = .waiting) ∧ zftape.drive.writing = true

/-- Each failure is in a sector that was good until then. -/
def WriteCall.NewFailures (zftape : ZftapeInfo α) (queue free : List (BufferStruct α))
    (call : WriteCall) : Prop :=
  (call.failures zftape queue free).Nodup ∧
    ∀ sector ∈ call.failures zftape queue free, ∀ buff ∈ call.segment queue,
      (zftape.drive.badSectorMap buff.segmentId).getLsbD sector = false

/-- Every failure finds a sector of payload in its segment. -/
def WriteCall.Payload (zftape : ZftapeInfo α) (queue free : List (BufferStruct α))
    (call : WriteCall) : Prop :=
  call.failures zftape queue free = [] ∨ ∀ buff ∈ call.segment queue,
    countOnes (zftape.drive.badSectorMap buff.segmentId) + (call.failures zftape queue free).length ≤ 29

/-- A call shifts one sector for each failure, or leaves the deblock buffer when a failure finds
no payload. -/
theorem WriteCall.outcome (kernel : Kernel α) {zftape : ZftapeInfo α}
    {queue free : List (BufferStruct α)} (call : WriteCall) (hready : call.Ready zftape queue free)
    (hnew : call.NewFailures zftape queue free) :
    (call.Payload zftape queue free → ∃ zftape' result, call.run kernel zftape = some (zftape', result) ∧
      Shifted zftape zftape' (call.filled zftape) (call.failures zftape queue free).length) ∧
    (¬call.Payload zftape queue free → call.run kernel zftape = none) := by
  have hquiet (hnone : call.failures zftape queue free = [])
      (hrun : ∃ zftape' result, call.run kernel zftape = some (zftape', result) ∧
        Shifted zftape zftape' (call.filled zftape) 0) :
      (call.Payload zftape queue free → ∃ zftape' result,
        call.run kernel zftape = some (zftape', result) ∧
          Shifted zftape zftape' (call.filled zftape) (call.failures zftape queue free).length) ∧
      (¬call.Payload zftape queue free → call.run kernel zftape = none) := by
    rw [hnone]
    exact ⟨fun _ => hrun, fun hnot => absurd (Or.inl hnone) hnot⟩
  cases call with
  | writeSegment segPos reports =>
    have hready : WriteReady zftape queue free segPos := hready
    by_cases hfull : free.length = 0 ∧ segPos < zftape.drive.segments
    · obtain rfl : free = [] := List.length_eq_zero_iff.mp hfull.1
      have hfailures : WriteCall.failures zftape queue [] (.writeSegment segPos reports) =
          surfacing reports := if_pos hfull
      cases queue with
      | nil => exact absurd hready.queued.ring hready.queued.nonempty
      | cons head rest =>
        rw [WriteCall.NewFailures, hfailures] at hnew
        have hgood : ∀ sector ∈ surfacing reports,
            (zftape.drive.badSectorMap head.segmentId).getLsbD sector = false :=
          fun sector hsector => hnew.2 sector hsector head rfl
        have hpayload : WriteCall.Payload zftape (head :: rest) [] (.writeSegment segPos reports) ↔
            (surfacing reports = [] ∨ countOnes (zftape.drive.badSectorMap head.segmentId) +
              (surfacing reports).length ≤ 29) := by
          rw [WriteCall.Payload, hfailures]
          exact or_congr_right ⟨fun h => h head rfl, fun h buff hbuff => Option.some.inj hbuff ▸ h⟩
        rw [hfailures, hpayload]
        exact zftapeWriteSegment_of_full kernel reports hready hfull.2 hnew.1 hgood
    · exact hquiet (if_neg hfull) (zftapeWriteSegment_of_room kernel reports hready hfull)
  | loopUntilWritesDone report =>
    obtain ⟨hqueued, hwaiting, hwriting⟩ := hready
    by_cases hreached : report.completed < queue.length
    · cases herror : report.hardError with
      | none =>
        have hnone : WriteCall.failures zftape queue free (.loopUntilWritesDone report) = [] := by
          rw [WriteCall.failures, if_pos hreached, herror]
          rfl
        apply hquiet hnone
        apply zftapeLoopUntilWritesDone_of_quiet kernel hqueued hwaiting hwriting
        rw [RunnerReport.leaves, herror]
      | some sector =>
        have hrest := List.drop_eq_getElem_cons hreached
        generalize queue[report.completed] = head at hrest
        have hhead : queue[report.completed]? = some head := by
          rw [← List.head?_drop, hrest, List.head?_cons]
        have hone : WriteCall.failures zftape queue free (.loopUntilWritesDone report) = [sector] := by
          rw [WriteCall.failures, if_pos hreached, herror]
          rfl
        have hgood := hnew.2 sector (by rw [hone]; exact List.mem_cons_self) head hhead
        have hpayload : WriteCall.Payload zftape queue free (.loopUntilWritesDone report) ↔
            countOnes (zftape.drive.badSectorMap head.segmentId) ≤ 28 := by
          rw [WriteCall.Payload, hone, WriteCall.segment, hhead]
          constructor
          · intro h
            cases h with
            | inl hnil => exact absurd hnil (List.cons_ne_nil _ _)
            | inr hroom => exact Nat.le_of_succ_le_succ (hroom head rfl)
          · intro hroom
            apply Or.inr
            intro buff hbuff
            rw [← Option.some.inj hbuff]
            exact Nat.succ_le_succ hroom
        rw [hpayload, hone]
        constructor
        · exact zftapeLoopUntilWritesDone_of_room kernel hqueued hwaiting hwriting herror hrest hgood
        · intro hshort
          exact zftapeLoopUntilWritesDone_of_short kernel hqueued hwaiting hwriting herror hrest
            (by omega)
    · apply hquiet (if_neg hreached)
      apply zftapeLoopUntilWritesDone_of_quiet kernel hqueued hwaiting hwriting
      have hnil : queue.drop report.completed = [] := List.drop_eq_nil_of_le (by omega)
      rw [RunnerReport.leaves, hnil]
      cases report.hardError <;> rfl

/-- The stream is the same before and after a call exactly when every failing segment has payload
to give and the pending sectors may change places with the last sectors of the data: with `n`
hard errors, the pending sectors followed by the last `n` sectors of the data, last one first,
must spell the last `n` sectors in order followed by the pending ones. -/
theorem WriteCall.stream_iff (kernel : Kernel α) {zftape : ZftapeInfo α}
    {queue free : List (BufferStruct α)} (call : WriteCall) (hready : call.Ready zftape queue free)
    (hnew : call.NewFailures zftape queue free) :
    (∃ zftape' result, call.run kernel zftape = some (zftape', result) ∧
      zftape'.stream (call.filled zftape) = zftape.stream (call.filled zftape)) ↔
    call.Payload zftape queue free ∧
      zftape.pending ++
          (zftape.overflow (call.filled zftape) (call.failures zftape queue free).length).flatten =
        (zftape.overflow (call.filled zftape) (call.failures zftape queue free).length).reverse.flatten ++
          zftape.pending := by
  obtain ⟨hgoes, hfails⟩ := call.outcome kernel hready hnew
  constructor
  · intro hexists
    obtain ⟨zftape', result, hrun, hstream⟩ := hexists
    have hpayload : call.Payload zftape queue free := by
      by_contra hnot
      rw [hfails hnot] at hrun
      exact absurd hrun (Option.some_ne_none _).symm
    obtain ⟨zftape₁, result₁, hrun₁, hshifted⟩ := hgoes hpayload
    obtain ⟨rfl, rfl⟩ := Prod.mk.inj (Option.some.inj (hrun.symm.trans hrun₁))
    exact ⟨hpayload, hshifted.shifted_iff.mp hstream⟩
  · intro hcond
    obtain ⟨zftape', result, hrun, hshifted⟩ := hgoes hcond.1
    exact ⟨zftape', result, hrun, hshifted.shifted_iff.mpr hcond.2⟩

/-- A queued buffer of zeroes. -/
def queuedBuffer (segmentId : ℕ) : BufferStruct Byte := ⟨fun _ => 0, 0, segmentId, .waiting, 0⟩

/-- A ring full of the segments 7, 8 and 9 on a clean tape, and a deblock buffer whose last sector
holds ones. -/
def fullRing : ZftapeInfo Byte where
  drive :=
    { ring := [queuedBuffer 7, queuedBuffer 8, queuedBuffer 9]
      tail := 0
      deblockBuffer := fun a => if a < 28 * ftSectorSize then 0 else 1
      badSectorMap := fun _ => 0
      oldSegmentId := -1
      writing := true
      segments := 100
      tape := [] }
  deblockBuf := true
  hardErrors := []
  capacity := 100 * ftSegmentSize
  pos := ⟨10, ftSegmentSize, 4 * ftSegmentSize, 4 * ftSegmentSize⟩
  blkSz := 1024
  volume := ⟨7, 99, 0, 0, 1024, true⟩
  ioState := .writing
  lastWriteFailed := true
  needFlush := true
  resid := 0

/-- The controller of the samples. -/
def sampleKernel : Kernel Byte := ⟨qicEcc Ecc.target64, fun _ => 0, 0⟩

/-- The sample ring is in order. -/
theorem fullRing_queued : fullRing.drive.Queued [queuedBuffer 7, queuedBuffer 8, queuedBuffer 9] [] where
  ring := rfl
  nonempty := List.cons_ne_nil _ _
  tail := rfl
  head := by simp [queuedBuffer]
  waiting := by simp [queuedBuffer]
  free := by simp
  ids := by decide

/-- Segment 10 may be written next. -/
theorem fullRing_ready (reports : List RunnerReport) :
    WriteCall.Ready fullRing [queuedBuffer 7, queuedBuffer 8, queuedBuffer 9] []
      (.writeSegment 10 reports) where
  queued := fullRing_queued
  waiting := by simp [queuedBuffer]
  writing := rfl
  deblockBuf := rfl
  fresh := by decide

/-- Nothing is pending in the sample. -/
theorem fullRing_pending : fullRing.pending = [] := rfl

/-- One hard error with nothing pending leaves the stream alone. -/
theorem WriteCall.stream_one_error :
    ∃ zftape' result,
      WriteCall.run sampleKernel fullRing (.writeSegment 10 [⟨0, some 0⟩, ⟨1, none⟩]) =
        some (zftape', result) ∧
      zftape'.stream (fullRing.segSz 10) = fullRing.stream (fullRing.segSz 10) := by
  apply (WriteCall.stream_iff sampleKernel (.writeSegment 10 [⟨0, some 0⟩, ⟨1, none⟩])
    (fullRing_ready _) ⟨by decide, by decide⟩).mpr
  constructor
  · apply Or.inr
    decide
  · have hone : WriteCall.failures fullRing [queuedBuffer 7, queuedBuffer 8, queuedBuffer 9] []
        (.writeSegment 10 [⟨0, some 0⟩, ⟨1, none⟩]) = [0] := by decide
    rw [hone, List.length_singleton, ZftapeInfo.overflow, lastBlocks, lastBlocks,
      List.reverse_singleton, fullRing_pending, List.append_nil, List.nil_append]

/-- Two hard errors in a row reorder the stream: the ones at the end of the deblock buffer come
back in front of the zeroes that preceded them. -/
theorem WriteCall.stream_two_errors :
    let call : WriteCall := .writeSegment 10 [⟨0, some 0⟩, ⟨0, some 1⟩, ⟨1, none⟩]
    let queue := [queuedBuffer 7, queuedBuffer 8, queuedBuffer 9]
    call.Ready fullRing queue [] ∧ call.NewFailures fullRing queue [] ∧
      ¬∃ zftape' result, call.run sampleKernel fullRing = some (zftape', result) ∧
        zftape'.stream (call.filled fullRing) = fullRing.stream (call.filled fullRing) := by
  intro call queue
  have hready : call.Ready fullRing queue [] := fullRing_ready _
  have hnew : call.NewFailures fullRing queue [] := ⟨by decide, by decide⟩
  refine ⟨hready, hnew, ?_⟩
  intro hexists
  obtain ⟨zftape', result, hrun, hstream⟩ := hexists
  obtain ⟨zftape₁, result₁, hrun₁, hshifted⟩ :=
    (call.outcome sampleKernel hready hnew).1 (Or.inr (by decide))
  obtain ⟨rfl, rfl⟩ := Prod.mk.inj (Option.some.inj (hrun.symm.trans hrun₁))
  have hcommute := hshifted.shifted_iff.mp hstream
  have htwo : call.failures fullRing queue [] = [0, 1] := by decide
  have hfront : fullRing.front (call.filled fullRing) =
      fullRing.drive.data ++ window fullRing.drive.deblockBuffer 0 (27 * ftSectorSize) ++
        List.replicate ftSectorSize 0 ++ List.replicate ftSectorSize 1 := by
    have hfilled : call.filled fullRing = 27 * ftSectorSize + ftSectorSize + ftSectorSize := by
      rw [WriteCall.filled, ZftapeInfo.segSz, segDataSz_eq]
      decide
    have hzeroes : window fullRing.drive.deblockBuffer (27 * ftSectorSize) ftSectorSize =
        List.replicate ftSectorSize 0 := by
      apply window_eq_replicate
      intro i hi
      exact if_pos (by omega)
    have hones : window fullRing.drive.deblockBuffer (27 * ftSectorSize + ftSectorSize) ftSectorSize =
        List.replicate ftSectorSize 1 := by
      apply window_eq_replicate
      intro i hi
      exact if_neg (by omega)
    have hdeblock : fullRing.deblockBuf = true := rfl
    rw [ZftapeInfo.front, hfilled, if_pos hdeblock, window_append, window_append, Nat.zero_add,
      Nat.zero_add, hzeroes, hones]
    simp only [List.append_assoc]
  have hoverflow : fullRing.overflow (call.filled fullRing) (call.failures fullRing queue []).length =
      [List.replicate ftSectorSize 1, List.replicate ftSectorSize 0] := by
    rw [htwo, ZftapeInfo.overflow, hfront, List.length_cons, List.length_singleton,
      lastBlocks_append (List.length_replicate), lastBlocks_append (List.length_replicate), lastBlocks]
  obtain ⟨n, hn⟩ : ∃ n, ftSectorSize = n + 1 := ⟨1023, rfl⟩
  rw [hoverflow, fullRing_pending, hn] at hcommute
  simp [List.replicate_succ] at hcommute

end Ftape.Zftape
