import Ftape.Zftape.WritePath

/-!
# The position while segments are written

The position counts the bytes of the stream, the pending sectors included: a recovery makes a segment
in front one sector smaller and adds a pending sector. While a flush waits for the ring to become
empty, the segment at the position is in the ring as well, with its padding.
-/

namespace Ftape.Zftape

open Ftape.Algebra Ftape.Write

variable {α : Type}

/-- The sizes of the segments as they are now. -/
def ZftapeInfo.sizes (zftape : ZftapeInfo α) : ℤ → ℤ := (zftape.books 0 0 0 0).zftGetSegSz

/-- The size of a segment as it is now. -/
theorem ZftapeInfo.sizes_natCast (zftape : ZftapeInfo α) (segment : ℕ) :
    zftape.sizes segment = zftape.segSz segment := by
  have hsize : zftape.sizes segment =
      (segSize false (if (0 : ℤ) ≤ segment then zftape.drive.badSectorMap (segment : ℤ).toNat else 0) : ℕ) :=
    rfl
  rw [hsize, if_pos (Int.natCast_nonneg segment), Int.toNat_natCast, segSize, if_neg (by simp)]
  rfl

/-- The position and a rest of bytes reach to the end of the segments in front of `bound` and of the
pending sectors. -/
def ZftapeInfo.Balanced (first bound : ℕ) (rest : ℤ) (zftape : ZftapeInfo α) : Prop :=
  zftape.pos.tapePos + rest = runSum zftape.sizes first bound + zftape.hardErrorCnt * ftSectorSize

/-- The position record is right. -/
structure ZftapeInfo.Placed (first : ℕ) (zftape : ZftapeInfo α) : Prop where
  behind : first ≤ zftape.pos.segPos
  balanced : zftape.Balanced first zftape.pos.segPos (-zftape.pos.segBytePos)

/-- What the position record survives, for a call that started with the bad sectors `before`: `HEAD` is in
front of the bound and has a new bad sector, and no pending sector is given up. Pending sectors are taken
for padding only while the segment at the position has the size it had when the call started. They do
not fill the next segment, unless there was no padding. -/
def Event.Harmless (first : ℕ) (before : ℕ → SectorMap) : Event α → Prop
  | .recovery drive bound => ∀ head ∈ drive.ring.head?, first ≤ head.segmentId ∧ head.segmentId < bound ∧
      drive.badSectorMap head.segmentId &&& head.hardErrorMap = 0
  | .givesUp => False
  | .absorbed waiting => waiting.segSz waiting.pos.segPos = segDataSz (before waiting.pos.segPos)
  | .again waiting waited => waited.hardErrorCnt * ftSectorSize < waited.segSz (waiting.pos.segPos + 1) ∨
      waiting.pos.segBytePos = waiting.segSz waiting.pos.segPos
  | .interrupted => False

/-- A routine of the write path keeps something when everything on the way is harmless. -/
abbrev Keeps {β : Type} (first : ℕ) (before : ℕ → SectorMap) (call : Traced α β) (post : β → Prop) : Prop :=
  call.Keeps (Event.Harmless first before) post

section Recovery

/-- What a recovery does to the bad sectors: the new one is added to those of `HEAD`, which had data. -/
theorem ftapeHardErrorRecovery_ok {ecc : EccCode α} {ftape ftape' : FtapeInfo α} {scratch scratch' : ℕ → α}
    (h : ftapeHardErrorRecovery ecc ftape scratch = some (.ok (ftape', scratch'))) :
    ∃ head ∈ ftape.ring.head?, countOnes head.hardErrorMap = 1 ∧
      countOnes (ftape.badSectorMap head.segmentId) ≤ 28 ∧
      ftape'.badSectorMap = Function.update ftape.badSectorMap head.segmentId
        (ftape.badSectorMap head.segmentId ||| head.hardErrorMap) := by
  unfold ftapeHardErrorRecovery at h
  cases hring : ftape.ring with
  | nil =>
    rw [hring] at h
    cases h
  | cons head others =>
    rw [hring] at h
    dsimp only at h
    by_cases hone : countOnes head.hardErrorMap ≠ 1
    · rw [if_pos hone] at h
      cases h
    · rw [if_neg hone] at h
      refine ⟨head, rfl, not_not.mp hone, ?_⟩
      by_cases hroom : countOnes (ftape.badSectorMap head.segmentId) ≤ 28
      · refine ⟨hroom, ?_⟩
        obtain ⟨scratch₁, -, h⟩ := Option.bind_eq_some_iff.mp h
        obtain ⟨⟨others', deblock', scratch₂⟩, -, h⟩ := Option.bind_eq_some_iff.mp h
        cases h
        rfl
      · -- the last sector of the segment would be in front of its buffer
        have hneg : (ftSegmentSize : ℤ) - countOnes (ftape.badSectorMap head.segmentId) * ftSectorSize -
            ftSectorSize < 0 := by
          have hle : (ftSegmentSize : ℤ) - countOnes (ftape.badSectorMap head.segmentId) * ftSectorSize ≤ 0 :=
            segSize_nonpos (by omega)
          have hpos : (0 : ℤ) < ftSectorSize := by decide
          omega
        rw [copy_of_neg hneg] at h
        cases h

/-- What a recovery makes of the position record: the segment of `HEAD` has the bad sector, and a sector is pending. -/
structure ZftapeInfo.Recovers (head : BufferStruct α) (zftape zftape' : ZftapeInfo α) : Prop where
  one : countOnes head.hardErrorMap = 1
  room : countOnes (zftape.drive.badSectorMap head.segmentId) ≤ 28
  map : zftape'.drive.badSectorMap = Function.update zftape.drive.badSectorMap head.segmentId
    (zftape.drive.badSectorMap head.segmentId ||| head.hardErrorMap)
  capacity : zftape'.capacity = zftape.capacity - ftSectorSize
  pos : zftape'.pos = zftape.pos
  cnt : zftape'.hardErrorCnt = zftape.hardErrorCnt + 1

/-- A recovery leaves what it takes with it where it is. -/
theorem ZftapeInfo.Balanced.recovered {first bound : ℕ} {rest : ℤ} {zftape zftape' : ZftapeInfo α}
    (h : zftape.Balanced first bound rest) {head : BufferStruct α} (hrecovers : zftape.Recovers head zftape')
    (hnew : zftape.drive.badSectorMap head.segmentId &&& head.hardErrorMap = 0)
    (hfirst : first ≤ head.segmentId) (hbound : head.segmentId < bound) : zftape'.Balanced first bound rest := by
  have hentry : (zftape.books 0 0 0 0).badSectorMap head.segmentId =
      zftape.drive.badSectorMap head.segmentId := by
    change (if (0 : ℤ) ≤ head.segmentId then zftape.drive.badSectorMap (head.segmentId : ℤ).toNat else 0) = _
    rw [if_pos (Int.natCast_nonneg _), Int.toNat_natCast]
  have hsizes : zftape'.sizes =
      Function.update zftape.sizes head.segmentId (zftape.sizes head.segmentId - ftSectorSize) := by
    have hbooks := ZftapeInfo.books_of_recovered hrecovers.map hrecovers.capacity 0 0 0 0
    simp only [ZftapeInfo.sizes]
    rw [hbooks]
    apply Books.hardError_zftGetSegSz
    · rfl
    · exact hrecovers.one
    · rw [hentry]
      exact hnew
    · rw [hentry]
      exact hrecovers.room
  have hfirst' : (first : ℤ) ≤ head.segmentId := Int.ofNat_le.mpr hfirst
  have hbound' : (head.segmentId : ℤ) < bound := Int.ofNat_lt.mpr hbound
  rw [ZftapeInfo.Balanced] at h ⊢
  rw [hrecovers.pos, hsizes, runSum_update_of_inside _ _ hfirst' hbound', hrecovers.cnt, h]
  push_cast
  ring

/-- What a recovery in `zftape_write_segment()` changes. -/
theorem recoverWrite_ok {kernel : Kernel α} {zftape zftape' : ZftapeInfo α} {segSz : ℕ}
    (h : recoverWrite kernel zftape segSz = some (.ok zftape')) :
    (∃ head ∈ zftape.drive.ring.head?, zftape.Recovers head zftape') ∧
      ∃ drive' sector, zftape' = { zftape with
        drive := drive'
        capacity := zftape.capacity - ftSectorSize
        deblockBuf := true
        hardErrors := zftape.hardErrors ++ [sector] } := by
  obtain ⟨backup, -, h⟩ := Option.bind_eq_some_iff.mp h
  obtain ⟨recovered, hrecovered, h⟩ := Option.bind_eq_some_iff.mp h
  cases recovered with
  | error errno => cases h
  | ok recovered =>
    obtain ⟨ftape, scratch⟩ := recovered
    obtain ⟨⟨deblock, scratch'⟩, -, h⟩ := Option.bind_eq_some_iff.mp h
    obtain ⟨head, hhead, hone, hroom, hmap⟩ := ftapeHardErrorRecovery_ok hrecovered
    cases h
    exact ⟨⟨head, hhead, hone, hroom, hmap, rfl, rfl, List.length_append⟩, _, _, rfl⟩

/-- The interrupt handler marks no sectors as bad. -/
theorem run_badSectorMap (drive : Drive α) (report : RunnerReport) :
    (drive.run report).badSectorMap = drive.badSectorMap := by
  have hhead : ∀ drive : Drive α, drive.completeHead.badSectorMap = drive.badSectorMap := by
    intro drive
    unfold Drive.completeHead
    split
    · rfl
    · split <;> rfl
  have hcompleted : ∀ n, (Drive.completeHead^[n] drive).badSectorMap = drive.badSectorMap := by
    intro n
    induction n with
    | zero => rfl
    | succ n ih => rw [Function.iterate_succ_apply', hhead, ih]
  unfold Drive.run
  dsimp only
  cases report.hardError with
  | none => exact hcompleted _
  | some sector =>
    dsimp only
    rw [← hcompleted report.completed]
    unfold Drive.failHead
    split
    · rfl
    · split <;> rfl

/-- `ftape_write_segment()` marks no sectors as bad. -/
theorem ftapeWriteSegment_badSectorMap (ecc : EccCode α) (drive : Drive α) (segmentId : ℕ)
    (report : RunnerReport) :
    (ftapeWriteSegment ecc drive segmentId report).1.badSectorMap = drive.badSectorMap := by
  have hrun : (drive.startWriting.run report).badSectorMap = drive.badSectorMap := by
    rw [run_badSectorMap, Drive.startWriting]
    split <;> rfl
  unfold ftapeWriteSegment
  split
  · rfl
  · dsimp only
    split
    · exact hrun
    · split
      · exact hrun
      · exact hrun

/-- `ftape_loop_until_writes_done()` marks no sectors as bad. -/
theorem ftapeLoopUntilWritesDone_badSectorMap (drive : Drive α) (report : RunnerReport) :
    (ftapeLoopUntilWritesDone drive report).1.badSectorMap = drive.badSectorMap := by
  have hrun := run_badSectorMap drive report
  unfold ftapeLoopUntilWritesDone
  split
  · dsimp only
    split
    · exact hrun
    · split <;> exact hrun
  · rfl

/-- What `zftape_write_segment()` leaves alone. -/
theorem zftapeWriteSegment_frame {kernel : Kernel α} {segPos segSz : ℕ} {reports : List RunnerReport}
    {zftape zftape' : ZftapeInfo α} {result : Except Errno Unit}
    (h : zftapeWriteSegment kernel segPos segSz reports zftape = some (zftape', result)) :
    zftape'.pos = zftape.pos ∧ zftape'.ioState = zftape.ioState ∧ zftape'.volume = zftape.volume ∧
      zftape'.resid = zftape.resid := by
  induction reports generalizing zftape with
  | nil =>
    cases h
    exact ⟨rfl, rfl, rfl, rfl⟩
  | cons report reports ih =>
    rw [zftapeWriteSegment] at h
    generalize ftapeWriteSegment kernel.ecc zftape.drive segPos report = written at h
    obtain ⟨drive, written⟩ := written
    cases written with
    | ok _ =>
      cases h
      exact ⟨rfl, rfl, rfl, rfl⟩
    | error errno =>
      dsimp only at h
      split_ifs at h
      · cases h
        exact ⟨rfl, rfl, rfl, rfl⟩
      · obtain ⟨recovered, hrecovered, h⟩ := Option.bind_eq_some_iff.mp h
        cases recovered with
        | error _ =>
          cases h
          exact ⟨rfl, rfl, rfl, rfl⟩
        | ok recovered =>
          obtain ⟨-, drive', sector, hwhole⟩ := recoverWrite_ok hrecovered
          obtain ⟨hpos, hioState, hvolume, hresid⟩ := ih h
          rw [hpos, hioState, hvolume, hresid, hwhole]
          exact ⟨rfl, rfl, rfl, rfl⟩

/-- A drive with the same bad sectors has segments of the same sizes. -/
theorem ZftapeInfo.Balanced.withDrive {first bound : ℕ} {rest : ℤ} {zftape : ZftapeInfo α}
    (h : zftape.Balanced first bound rest) {drive : Drive α}
    (hmap : drive.badSectorMap = zftape.drive.badSectorMap) :
    ZftapeInfo.Balanced first bound rest { zftape with drive := drive } := by
  have hsizes : ZftapeInfo.sizes { zftape with drive := drive } = zftape.sizes := by
    simp only [ZftapeInfo.sizes, ZftapeInfo.books, hmap]
  rw [ZftapeInfo.Balanced, hsizes]
  exact h

/-- What a routine keeps that recovers from hard errors in front of a bound. -/
structure InFront (first bound : ℕ) (zftape zftape' : ZftapeInfo α) : Prop where
  pos : zftape'.pos = zftape.pos
  balanced : ∀ bound' rest, bound ≤ bound' → zftape.Balanced first bound' rest → zftape'.Balanced first bound' rest
  behind : ∀ segment, bound ≤ segment → zftape'.drive.badSectorMap segment = zftape.drive.badSectorMap segment

/-- One such routine after the other. -/
theorem InFront.trans {first bound : ℕ} {zftape zftape₁ zftape₂ : ZftapeInfo α}
    (h : InFront first bound zftape zftape₁) (h' : InFront first bound zftape₁ zftape₂) :
    InFront first bound zftape zftape₂ where
  pos := h'.pos.trans h.pos
  balanced bound' rest hle hbalanced := h'.balanced bound' rest hle (h.balanced bound' rest hle hbalanced)
  behind segment hle := (h'.behind segment hle).trans (h.behind segment hle)

/-- A drive with the same bad sectors. -/
theorem InFront.withDrive (first bound : ℕ) (zftape : ZftapeInfo α) {drive : Drive α}
    (hmap : drive.badSectorMap = zftape.drive.badSectorMap) :
    InFront first bound zftape { zftape with drive := drive } where
  pos := rfl
  balanced _ _ _ hbalanced := hbalanced.withDrive hmap
  behind segment _ := congrFun hmap segment

/-- A recovery in front of the bound. -/
theorem InFront.recovered {first bound : ℕ} {zftape zftape' : ZftapeInfo α} {head : BufferStruct α}
    (hrecovers : zftape.Recovers head zftape')
    (hnew : zftape.drive.badSectorMap head.segmentId &&& head.hardErrorMap = 0)
    (hfirst : first ≤ head.segmentId) (hbound : head.segmentId < bound) : InFront first bound zftape zftape' where
  pos := hrecovers.pos
  balanced bound' rest hle hbalanced := hbalanced.recovered hrecovers hnew hfirst (hbound.trans_le hle)
  behind segment hle := by
    rw [hrecovers.map]
    exact Function.update_of_ne (hbound.trans_le hle).ne' _ _

/-- `zftape_write_segment()` stays in front of the bound if its recoveries do. -/
theorem zftapeWriteSegment_inFront {kernel : Kernel α} {first bound : ℕ} {before : ℕ → SectorMap}
    {segPos segSz : ℕ} {reports : List RunnerReport} {zftape zftape' : ZftapeInfo α}
    {result : Except Errno Unit}
    (hharmless : ∀ drive ∈ recoveries kernel segPos segSz reports zftape,
      (Event.recovery drive bound).Harmless first before)
    (hrun : zftapeWriteSegment kernel segPos segSz reports zftape = some (zftape', result)) :
    InFront first bound zftape zftape' := by
  induction reports generalizing zftape with
  | nil =>
    cases hrun
    exact .withDrive first bound _ rfl
  | cons report reports ih =>
    have hmap := ftapeWriteSegment_badSectorMap kernel.ecc zftape.drive segPos report
    rw [zftapeWriteSegment] at hrun
    rw [recoveries] at hharmless
    generalize ftapeWriteSegment kernel.ecc zftape.drive segPos report = written at hrun hharmless hmap
    obtain ⟨drive, written⟩ := written
    have hdrive := InFront.withDrive first bound zftape hmap
    cases written with
    | ok _ =>
      cases hrun
      exact ⟨rfl, hdrive.balanced, hdrive.behind⟩
    | error errno =>
      dsimp only at hrun hharmless
      by_cases hfailed : errno ≠ .eio ∨ headFailed drive = false
      · rw [if_pos hfailed] at hrun
        cases hrun
        exact hdrive
      · rw [if_neg hfailed] at hrun hharmless
        obtain ⟨recovered, hrecovered, hrun⟩ := Option.bind_eq_some_iff.mp hrun
        cases recovered with
        | error _ =>
          cases hrun
          exact hdrive
        | ok recovered =>
          rw [hrecovered] at hharmless
          obtain ⟨hhere, hbehind⟩ := List.forall_mem_cons.mp hharmless
          obtain ⟨⟨head, hhead, hrecovers⟩, -⟩ := recoverWrite_ok hrecovered
          obtain ⟨hfirst, hbound, hnew⟩ := hhere head hhead
          have hrecovery : InFront first bound { zftape with drive := drive } recovered :=
            .recovered hrecovers hnew hfirst hbound
          exact (hdrive.trans hrecovery).trans (ih hbehind hrun)

/-- Writing the segment at the position stays in front of it. -/
theorem keeps_writeSegment (kernel : Kernel α) (first : ℕ) (before : ℕ → SectorMap) (reports : List RunnerReport)
    (zftape : ZftapeInfo α) :
    Keeps first before (writeSegment kernel reports zftape) fun written =>
      InFront first zftape.pos.segPos zftape written.1 := by
  intro hharmless written hwritten
  have hdrives : ∀ drive ∈ recoveries kernel zftape.pos.segPos (zftape.segSz zftape.pos.segPos) reports zftape,
      (Event.recovery drive zftape.pos.segPos).Harmless first before :=
    fun drive hdrive => hharmless _ (List.mem_map_of_mem hdrive)
  dsimp only [writeSegment] at hwritten
  cases hrun : zftapeWriteSegment kernel zftape.pos.segPos (zftape.segSz zftape.pos.segPos) reports zftape with
  | none =>
    rw [hrun] at hwritten
    cases hwritten
  | some written' =>
    rw [hrun] at hwritten
    cases hwritten
    exact zftapeWriteSegment_inFront hdrives hrun

/-- Waiting for the ring stays in front of the segment behind the position. No sector was marked as bad if it
fails, or if nothing is pending behind it. -/
theorem keeps_loopUntilWritesDone (kernel : Kernel α) (first : ℕ) (before : ℕ → SectorMap) (report : RunnerReport)
    (zftape : ZftapeInfo α) :
    Keeps first before (loopUntilWritesDone kernel report zftape) fun done =>
      InFront first (zftape.pos.segPos + 1) zftape done.1 ∧
        (done.2.isOk = false ∨ done.1.hardErrorCnt = 0 → done.1.drive.badSectorMap = zftape.drive.badSectorMap) := by
  intro hharmless done hdone
  have hmap := ftapeLoopUntilWritesDone_badSectorMap zftape.drive report
  rw [loopUntilWritesDone, zftapeLoopUntilWritesDone] at hdone
  rw [loopUntilWritesDone] at hharmless
  generalize ftapeLoopUntilWritesDone zftape.drive report = waited at hdone hharmless hmap
  obtain ⟨drive, result⟩ := waited
  have hdrive := InFront.withDrive first (zftape.pos.segPos + 1) zftape hmap
  cases result with
  | ok _ =>
    cases hdone
    exact ⟨hdrive, fun _ => hmap⟩
  | error errno =>
    dsimp only at hdone hharmless
    by_cases hfailed : errno ≠ .eio ∨ headFailed drive = false
    · rw [if_pos hfailed] at hdone
      cases hdone
      exact ⟨hdrive, fun _ => hmap⟩
    · rw [if_neg hfailed] at hdone hharmless
      cases hrecovery : ftapeHardErrorRecovery kernel.ecc drive.toFtapeInfo kernel.fresh with
      | none =>
        rw [hrecovery] at hdone
        cases hdone
      | some recovered =>
        rw [hrecovery] at hdone
        cases recovered with
        | error _ =>
          cases hdone
          exact ⟨hdrive, fun _ => hmap⟩
        | ok recovered =>
          obtain ⟨ftape, scratch⟩ := recovered
          obtain ⟨head, hhead, hone, hroom, hnewMap⟩ := ftapeHardErrorRecovery_ok hrecovery
          obtain ⟨hfirst, hbound, hnew⟩ := hharmless _ List.mem_cons_self head hhead
          cases hdone
          refine ⟨hdrive.trans (.recovered ⟨hone, hroom, hnewMap, rfl, rfl, List.length_append⟩ hnew hfirst hbound), ?_⟩
          rintro (hfailed | hnone)
          · cases hfailed
          · have hpending : zftape.hardErrors.length + 1 = 0 := List.length_append.symm.trans hnone
            cases hpending

end Recovery

section Filling

variable {first bound : ℕ} {before : ℕ → SectorMap} {rest : ℤ} {zftape zftape₁ zftape₂ : ZftapeInfo α}

/-- A memory whose copy goes through. -/
theorem keeps_copied {β : Type} (copied : Option β) :
    Keeps (α := α) first before (Traced.copied copied) fun _ => True := by
  cases copied with
  | none => exact .halt _
  | some value => exact .pure trivial

/-- Bytes that move from the rest to the position keep the balance. -/
theorem ZftapeInfo.Balanced.congr (h : zftape.Balanced first bound rest) {zftape' : ZftapeInfo α} {rest' : ℤ}
    (hmap : zftape'.drive.badSectorMap = zftape.drive.badSectorMap)
    (hmoved : zftape'.pos.tapePos + rest' - zftape'.hardErrorCnt * ftSectorSize =
      zftape.pos.tapePos + rest - zftape.hardErrorCnt * ftSectorSize) :
    zftape'.Balanced first bound rest' := by
  have hsizes : zftape'.sizes = zftape.sizes := by
    simp only [ZftapeInfo.sizes, ZftapeInfo.books, hmap]
    rfl
  rw [ZftapeInfo.Balanced] at h ⊢
  rw [hsizes]
  linarith

/-- What filling the deblock buffer keeps. -/
structure Filled (first bound : ℕ) (rest : ℤ) (zftape zftape' : ZftapeInfo α) : Prop where
  balanced : zftape'.Balanced first bound (rest - zftape'.pos.segBytePos)
  segPos : zftape'.pos.segPos = zftape.pos.segPos
  badSectorMap : zftape'.drive.badSectorMap = zftape.drive.badSectorMap

/-- Filling goes on. -/
theorem Filled.trans (h : Filled first bound rest zftape zftape₁)
    (h' : Filled first bound rest zftape₁ zftape₂) : Filled first bound rest zftape zftape₂ :=
  ⟨h'.balanced, h'.segPos.trans h.segPos, h'.badSectorMap.trans h.badSectorMap⟩

/-- Taking pending sectors keeps the balance. -/
theorem keeps_emptyHardErrorLoop (segSz : ℤ) {sectors : List (ℕ → α)}
    (hsectors : zftape.hardErrors = sectors)
    (h : zftape.Balanced first bound (rest - zftape.pos.segBytePos)) :
    Keeps first before (emptyHardErrorLoop segSz sectors zftape) fun taken =>
      Filled first bound rest zftape taken.1 ∧
        taken.1.pos.segBytePos ≤ zftape.pos.segBytePos + sectors.length * ftSectorSize := by
  have hnothing : ∀ n : ℕ, zftape.pos.segBytePos ≤ zftape.pos.segBytePos + n * ftSectorSize :=
    fun n => le_add_of_nonneg_right (by positivity)
  induction sectors generalizing zftape with
  | nil => exact .pure ⟨⟨h, rfl, rfl⟩, hnothing 0⟩
  | cons sector sectors ih =>
    rw [emptyHardErrorLoop]
    split_ifs
    · exact .pure ⟨⟨h, rfl, rfl⟩, hnothing _⟩
    · exact .pure ⟨⟨h, rfl, rfl⟩, hnothing _⟩
    · exact (Recorded.Keeps.note _).bind fun _ hgone => False.elim hgone
    · have htake : Keeps first before (takeSector sector sectors zftape) fun taken =>
          taken.hardErrors = sectors ∧ taken.pos.segBytePos = zftape.pos.segBytePos + ftSectorSize ∧
            Filled first bound rest zftape taken := by
        refine (keeps_copied _).bind fun deblock _ => .pure ⟨rfl, rfl, h.congr rfl ?_, rfl, rfl⟩
        simp only [ZftapeInfo.hardErrorCnt, hsectors, List.length_cons]
        push_cast
        ring
      refine htake.bind ?_
      rintro taken ⟨hleft, hbytes, htaken⟩
      refine (ih hleft htaken.balanced ?_).mono fun _ hdone => ⟨htaken.trans hdone.1, ?_⟩
      · intro n
        exact le_add_of_nonneg_right (by positivity)
      · have hlast := hdone.2
        rw [hbytes] at hlast
        rw [List.length_cons]
        push_cast
        linarith

/-- Taking new data keeps the balance. -/
theorem keeps_fillRegular (kernel : Kernel α) (segSz : ℕ) (buff : List α)
    (h : zftape.Balanced first bound (rest - zftape.pos.segBytePos)) :
    Keeps first before (fillRegular kernel segSz buff zftape) fun filled =>
      Filled first bound rest zftape filled.1 := by
  refine (keeps_copied _).bind fun deblock _ => .pure ⟨h.congr rfl ?_, rfl, rfl⟩
  dsimp only [ZftapeInfo.hardErrorCnt]
  ring

/-- Filling the deblock buffer keeps the balance. -/
theorem keeps_fillDeblockBuf (kernel : Kernel α) (segSz : ℕ) (buff : List α)
    (h : zftape.Balanced first bound (rest - zftape.pos.segBytePos)) :
    Keeps first before (fillDeblockBuf kernel segSz buff zftape) fun filled =>
      Filled first bound rest zftape filled.1 := by
  rw [fillDeblockBuf]
  split
  · exact .pure ⟨h, rfl, rfl⟩
  · refine (keeps_emptyHardErrorLoop segSz rfl h).bind ?_
    rintro ⟨taken, result⟩ ⟨htaken, -⟩
    cases result with
    | error errno => exact .pure htaken
    | ok _ =>
      dsimp only
      split
      · exact .pure htaken
      · exact (keeps_fillRegular kernel segSz buff htaken.balanced).mono fun _ hdone => htaken.trans hdone

/-- The segment at the position counts for the segments in front when the position is behind it. -/
theorem ZftapeInfo.Balanced.succ (h : zftape.Balanced first bound rest) (hle : first ≤ bound) {rest' : ℤ}
    (hrest : rest' = rest + zftape.segSz bound) : zftape.Balanced first (bound + 1) rest' := by
  rw [ZftapeInfo.Balanced] at h ⊢
  rw [Nat.cast_succ, runSum_succ _ (Int.ofNat_le.mpr hle), ZftapeInfo.sizes_natCast, hrest]
  linarith

/-- The segment in front of the position counts for the position when that steps back. -/
theorem ZftapeInfo.Balanced.pred (h : zftape.Balanced first (bound + 1) rest) (hle : first ≤ bound) :
    zftape.Balanced first bound (rest - zftape.segSz bound) := by
  rw [ZftapeInfo.Balanced] at h ⊢
  rw [Nat.cast_succ, runSum_succ _ (Int.ofNat_le.mpr hle), ZftapeInfo.sizes_natCast] at h
  linarith

/-- The deblock buffer of a right position record is filled. -/
theorem Filled.placed (h : Filled first zftape.pos.segPos 0 zftape zftape₁) (hbehind : first ≤ zftape.pos.segPos) :
    zftape₁.Placed first := by
  have hbalanced := h.balanced
  rw [zero_sub] at hbalanced
  exact ⟨hbehind.trans h.segPos.ge, h.segPos ▸ hbalanced⟩

/-- A round of `_zft_write()` keeps the position record right if what follows does. -/
theorem keeps_writeRound (kernel : Kernel α) (buff : List α) (written : ℤ) (h : zftape.Placed first)
    {next : ZftapeInfo α → ℤ → Traced α (ZftapeInfo α × Except Errno ℤ)}
    (hnext : ∀ filled cnt, Filled first zftape.pos.segPos 0 zftape filled →
      Keeps first before (next filled cnt) fun done => done.1.Placed first) :
    Keeps first before (writeRound kernel buff written zftape next) fun done => done.1.Placed first := by
  rw [writeRound]
  split
  · exact .pure ⟨h.behind, h.balanced⟩
  · have hbalanced := h.balanced
    rw [← zero_sub] at hbalanced
    have hgot : ZftapeInfo.Balanced first zftape.pos.segPos (0 - zftape.pos.segBytePos)
        { zftape with deblockBuf := true } := hbalanced
    refine (keeps_fillDeblockBuf kernel (zftape.segSz zftape.pos.segPos) buff hgot).bind ?_
    rintro ⟨filled, result⟩ hfilled
    have hfilled' : Filled first zftape.pos.segPos 0 zftape filled :=
      ⟨hfilled.balanced, hfilled.segPos, hfilled.badSectorMap⟩
    cases result with
    | ok cnt => exact hnext filled cnt hfilled'
    | error errno =>
      have hplaced := hfilled'.placed h.behind
      refine .pure ?_
      dsimp only [writeRefused]
      split
      · exact ⟨hplaced.behind, hplaced.balanced⟩
      · exact ⟨hplaced.behind, hplaced.balanced⟩

/-- The loop of `_zft_write()` keeps the position record right. -/
theorem keeps_writeLoop (kernel : Kernel α) (rounds : List (List RunnerReport)) (buff : List α) (written : ℤ)
    (h : zftape.Placed first) :
    Keeps first before (writeLoop kernel rounds buff written zftape) fun done => done.1.Placed first := by
  induction rounds generalizing zftape buff written with
  | nil => exact keeps_writeRound kernel buff written h fun filled cnt hfilled => .pure (hfilled.placed h.behind)
  | cons reports rounds ih =>
    refine keeps_writeRound kernel buff written h fun filled cnt hfilled => ?_
    have hplaced := hfilled.placed h.behind
    split
    case isFalse => exact ih _ _ hplaced
    case isTrue hfull =>
      refine (keeps_writeSegment kernel first before reports filled).bind ?_
      rintro ⟨queued, result⟩ hqueued
      have hpos : queued.pos = filled.pos := hqueued.pos
      have hhere := hqueued.balanced _ _ le_rfl hplaced.balanced
      cases result with
      | error errno =>
        refine .pure ⟨?_, ?_⟩
        · exact hplaced.behind.trans (congrArg Position.segPos hpos).ge
        · rw [← hpos] at hhere
          exact hhere
      | ok _ =>
        -- the segment is in front of the new position
        have hsize : filled.segSz filled.pos.segPos = zftape.segSz zftape.pos.segPos := by
          rw [hfilled.segPos]
          exact congrArg segDataSz (congrFun hfilled.badSectorMap _)
        have hbehind := hqueued.balanced (filled.pos.segPos + 1) 0 (Nat.le_succ _)
          (hplaced.balanced.succ hplaced.behind (by rw [hfull, hsize]; ring))
        rw [← hpos, ← neg_zero] at hbehind
        refine ih _ _ ⟨?_, hbehind⟩
        exact Nat.le_succ_of_le (hplaced.behind.trans (congrArg Position.segPos hpos).ge)

end Filling

section Flushing

variable {first segPos : ℕ} {before : ℕ → SectorMap} {padCnt oldSegSize : ℤ} {zftape waited : ZftapeInfo α}

/-- What a flush has while it waits: the padded segment at the position counts as well. -/
structure Waiting (first segPos : ℕ) (before : ℕ → SectorMap) (padCnt : ℤ) (zftape : ZftapeInfo α) : Prop where
  here : zftape.pos.segPos = segPos
  balanced : zftape.Balanced first (segPos + 1) padCnt
  padded : zftape.pos.segBytePos + padCnt = zftape.segSz segPos
  behind : ∀ segment, segPos + 1 ≤ segment → zftape.drive.badSectorMap segment = before segment

/-- What a flush has when another segment has to be written: the padding of the segment in front is
part of the position. -/
structure Restarted (first segPos : ℕ) (before : ℕ → SectorMap) (padCnt : ℤ) (zftape : ZftapeInfo α) :
    Prop where
  here : zftape.pos.segPos = segPos
  balanced : zftape.Balanced first segPos (padCnt - zftape.pos.segBytePos)
  filled : zftape.pos.segBytePos = zftape.segSz segPos → padCnt = 0
  behind : ∀ segment, segPos ≤ segment → zftape.drive.badSectorMap segment = before segment

/-- The padding reaches from the position to the end of the segment. -/
theorem Waiting.placed (h : Waiting first segPos before padCnt zftape) (hfirst : first ≤ segPos) :
    zftape.Placed first := by
  have hbalanced := h.balanced
  rw [ZftapeInfo.Balanced, Nat.cast_succ, runSum_succ _ (Int.ofNat_le.mpr hfirst), ZftapeInfo.sizes_natCast,
    ← h.padded] at hbalanced
  refine ⟨hfirst.trans h.here.ge, ?_⟩
  rw [ZftapeInfo.Balanced, h.here]
  linarith

/-- Stepping back from the start of a segment to the end of the one in front. -/
theorem ZftapeInfo.Placed.stepBack (h : zftape.Placed first) (hzero : zftape.pos.segBytePos = 0)
    (hfirst : first < zftape.pos.segPos) (hrange : zftape.pos.segPos < 0x100000000) :
    ZftapeInfo.Placed first { zftape with
      pos := { zftape.pos with
        segPos := Header.uint (zftape.pos.segPos + 0xffffffff)
        segBytePos := zftape.segSz (Header.uint (zftape.pos.segPos + 0xffffffff)) } } := by
  obtain ⟨front, hfront⟩ := Nat.exists_eq_add_of_lt hfirst
  have hpred : Header.uint (zftape.pos.segPos + 0xffffffff) = first + front := by
    rw [Header.uint]
    omega
  have hbalanced := h.balanced
  rw [hzero, hfront] at hbalanced
  have hbefore := hbalanced.pred (Nat.le_add_right first front)
  rw [hpred]
  refine ⟨Nat.le_add_right _ _, hbefore.congr rfl ?_⟩
  dsimp only [ZftapeInfo.hardErrorCnt, ZftapeInfo.segSz]
  ring

/-- After an error the position is that of the start of the segment. -/
theorem ZftapeInfo.Placed.flushFailed (h : zftape.Placed first) (errno : Errno) :
    (Zftape.flushFailed zftape errno).1.Placed first := by
  refine ⟨h.behind, h.balanced.congr rfl ?_⟩
  dsimp only [Zftape.flushFailed, ZftapeInfo.hardErrorCnt]
  ring

/-- When everything is on tape, the position is the end of the data. -/
theorem ZftapeInfo.Placed.outFlushed (h : zftape.Placed first) (hfirst : first < zftape.pos.segPos)
    (hrange : zftape.pos.segPos < 0x100000000) : (Zftape.outFlushed zftape).1.Placed first := by
  rw [Zftape.outFlushed]
  dsimp only
  split
  case isFalse => exact ⟨h.behind, h.balanced⟩
  case isTrue hzero =>
    exact ⟨(h.stepBack hzero hfirst hrange).behind, (h.stepBack hzero hfirst hrange).balanced⟩

/-- A flush goes on waiting if no sector was marked as bad. -/
theorem Waiting.unmarked (h : Waiting first segPos before padCnt zftape)
    (hwaited : InFront first (segPos + 1) zftape waited)
    (hmap : waited.drive.badSectorMap = zftape.drive.badSectorMap) : Waiting first segPos before padCnt waited where
  here := (congrArg Position.segPos hwaited.pos).trans h.here
  balanced := hwaited.balanced _ _ le_rfl h.balanced
  padded := by
    rw [hwaited.pos, ZftapeInfo.segSz, hmap]
    exact h.padded
  behind segment hle := (hwaited.behind segment hle).trans (h.behind segment hle)

/-- Pending sectors that are taken for padding leave the flush waiting. -/
theorem Waiting.absorbed (h : Waiting first segPos before padCnt zftape)
    (hwaited : InFront first (segPos + 1) zftape waited) (hsize : zftape.segSz segPos = oldSegSize) {segBytePos : ℤ}
    (hbytes : segBytePos = waited.pos.segBytePos +
      (waited.hardErrorCnt * ftSectorSize - (oldSegSize - waited.segSz segPos))) :
    Waiting first segPos before (waited.segSz segPos - segBytePos)
      (zftZapWriteBuffers { waited with pos := { waited.pos with segBytePos := segBytePos } }) where
  here := (congrArg Position.segPos hwaited.pos).trans h.here
  balanced := by
    have hcnt : ∀ zftape : ZftapeInfo α, (zftZapWriteBuffers zftape).hardErrorCnt = 0 := fun _ => rfl
    have hbefore := h.padded
    rw [hsize, ← hwaited.pos] at hbefore
    refine (hwaited.balanced _ _ le_rfl h.balanced).congr rfl ?_
    rw [hcnt, hbytes, ← hbefore]
    dsimp only [zftZapWriteBuffers]
    push_cast
    ring
  padded := add_sub_cancel _ _
  behind segment hle := (hwaited.behind segment hle).trans (h.behind segment hle)

/-- Pending sectors that are taken to the next segment. -/
theorem Waiting.again (h : Waiting first segPos before padCnt zftape)
    (hwaited : InFront first (segPos + 1) zftape waited) :
    Keeps first before (emptyHardErrorList (waited.segSz (segPos + 1)) { waited with
      deblockBuf := true, pos := { waited.pos with segPos := segPos + 1, segBytePos := 0 } }) fun taken =>
      (waited.hardErrorCnt * ftSectorSize < waited.segSz (segPos + 1) ∨ zftape.pos.segBytePos = zftape.segSz segPos) →
        Restarted first (segPos + 1) before padCnt taken.1 := by
  have hbalanced : ZftapeInfo.Balanced first (segPos + 1) (padCnt - 0) { waited with
      deblockBuf := true
      pos := { waited.pos with segPos := segPos + 1, segBytePos := 0 } } := by
    rw [sub_zero]
    exact hwaited.balanced _ _ le_rfl h.balanced
  refine (keeps_emptyHardErrorLoop _ rfl hbalanced).mono ?_
  rintro ⟨taken, result⟩ ⟨htaken, hbytes⟩ hroom
  have hmap : taken.drive.badSectorMap = waited.drive.badSectorMap := htaken.badSectorMap
  refine ⟨htaken.segPos, htaken.balanced, ?_, ?_⟩
  · intro hfull
    cases hroom with
    | inl hless =>
      -- the pending sectors end in front of the end of the segment
      have hend : taken.pos.segBytePos ≤ 0 + waited.hardErrorCnt * ftSectorSize := hbytes
      rw [hfull, zero_add, ZftapeInfo.segSz, hmap] at hend
      exact absurd (Int.ofNat_le.mp (by exact_mod_cast hend)) (not_le.mpr hless)
    | inr hnone =>
      have hpadded := h.padded
      rw [hnone] at hpadded
      exact add_eq_left.mp hpadded
  · intro segment hle
    have hkept : taken.drive.badSectorMap segment = waited.drive.badSectorMap segment := congrFun hmap segment
    exact hkept.trans ((hwaited.behind segment hle).trans (h.behind segment hle))

/-- Handling hard errors either takes them for padding, or takes them to the next segment. -/
theorem keeps_flushHandleHardErrors (h : Waiting first segPos before padCnt zftape)
    (hwaited : InFront first (segPos + 1) zftape waited) :
    Keeps first before (flushHandleHardErrors padCnt oldSegSize waited) fun handled =>
      match handled.2.2 with
      | .ok () => zftape.segSz segPos = oldSegSize → Waiting first segPos before handled.2.1 handled.1
      | .error _ => (waited.hardErrorCnt * ftSectorSize < waited.segSz (segPos + 1) ∨
          zftape.pos.segBytePos = zftape.segSz segPos) → Restarted first (segPos + 1) before handled.2.1 handled.1 := by
  have hsegPos : waited.pos.segPos = segPos := (congrArg Position.segPos hwaited.pos).trans h.here
  rw [flushHandleHardErrors, hsegPos]
  dsimp only
  split
  · exact .pure fun hsize => h.absorbed hwaited hsize rfl
  · exact (h.again hwaited).bind fun taken htaken => .pure htaken

/-- What a flush has when it comes out of the loop that waits. -/
def FlushWaited (first segPos : ℕ) (before : ℕ → SectorMap) (waited : ZftapeInfo α × ℤ × Flushed) : Prop :=
  match waited.2.2 with
  | .again => Restarted first (segPos + 1) before waited.2.1 waited.1
  | .done _ => waited.1.Placed first

/-- A round of waiting keeps the position record right if what follows does. -/
theorem keeps_flushWait (kernel : Kernel α) (hfirst : first < segPos) (hrange : segPos < 0x100000000)
    (hold : oldSegSize = segDataSz (before segPos)) (report : RunnerReport)
    (h : Waiting first segPos before padCnt zftape)
    {next : ZftapeInfo α → ℤ → Traced α (ZftapeInfo α × ℤ × Flushed)}
    (hnext : ∀ waited padCnt, Waiting first segPos before padCnt waited →
      Keeps first before (next waited padCnt) (FlushWaited first segPos before)) :
    Keeps first before (flushWait kernel oldSegSize report padCnt zftape next) (FlushWaited first segPos before) := by
  have hloop := keeps_loopUntilWritesDone kernel first before report zftape
  rw [h.here] at hloop
  refine hloop.bind ?_
  rintro ⟨waited, result⟩ ⟨hwaited, hmap⟩
  cases result with
  | error errno => exact .pure (((h.unmarked hwaited (hmap (.inl rfl))).placed hfirst.le).flushFailed errno)
  | ok _ =>
    dsimp only
    split
    case isTrue hnone =>
      have hwaiting := h.unmarked hwaited (hmap (.inr hnone))
      exact .pure ((hwaiting.placed hfirst.le).outFlushed (hfirst.trans_eq hwaiting.here.symm)
        (hwaiting.here.trans_lt hrange))
    case isFalse =>
      refine (keeps_flushHandleHardErrors h hwaited).bind ?_
      rintro ⟨handled, padCnt', result⟩ hhandled
      cases result with
      | error errno =>
        refine (Recorded.Keeps.note _).bind fun _ hagain => .pure (hhandled ?_)
        rw [Event.Harmless, h.here] at hagain
        exact hagain
      | ok _ =>
        refine (Recorded.Keeps.note _).bind fun _ habsorbed => hnext handled padCnt' (hhandled ?_)
        rw [Event.Harmless, h.here] at habsorbed
        rw [hold, habsorbed]

/-- Waiting for the ring to become empty keeps the position record right. -/
theorem keeps_flushWaitLoop (kernel : Kernel α) (hfirst : first < segPos) (hrange : segPos < 0x100000000)
    (hold : oldSegSize = segDataSz (before segPos)) (reports : List RunnerReport) (report : RunnerReport)
    (h : Waiting first segPos before padCnt zftape) :
    Keeps first before (flushWaitLoop kernel oldSegSize reports report padCnt zftape)
      (FlushWaited first segPos before) := by
  induction reports generalizing report padCnt zftape with
  | nil =>
    exact keeps_flushWait kernel hfirst hrange hold report h fun waited padCnt hwaiting =>
      .pure (hwaiting.placed hfirst.le)
  | cons report' reports ih =>
    exact keeps_flushWait kernel hfirst hrange hold report h fun waited padCnt hwaiting => ih report' hwaiting

/-- Padding the deblock buffer and queueing it leaves the flush waiting. -/
theorem keeps_padAndWrite (kernel : Kernel α) (reports : List RunnerReport)
    (h : Waiting first segPos before padCnt zftape) :
    Keeps first before (padAndWrite kernel reports zftape) fun queued =>
      Waiting first segPos before padCnt queued.1 := by
  refine (keeps_copied _).bind fun deblock _ => ?_
  refine (keeps_writeSegment kernel first before reports _).mono ?_
  rintro ⟨queued, result⟩ hqueued
  have hpos : queued.pos = zftape.pos := hqueued.pos
  have hbehind : ∀ segment, segPos ≤ segment →
      queued.drive.badSectorMap segment = zftape.drive.badSectorMap segment :=
    fun segment hle => hqueued.behind segment (h.here.trans_le hle)
  refine ⟨(congrArg Position.segPos hpos).trans h.here, ?_, ?_, ?_⟩
  · exact hqueued.balanced _ _ (Nat.le_succ_of_le h.here.le) (h.balanced.withDrive rfl)
  · dsimp only
    rw [hpos, ZftapeInfo.segSz, hbehind segPos le_rfl]
    exact h.padded
  · intro segment hle
    exact (hbehind segment (Nat.le_of_succ_le hle)).trans (h.behind segment hle)

/-- A round of a flush keeps the position record right if what follows does. -/
theorem keeps_flushRound (kernel : Kernel α) (hfirst : first < segPos) (hrange : segPos < 0x100000000)
    (round : FlushRound) (h : Restarted first segPos before padCnt zftape)
    {next : ZftapeInfo α → ℤ → Traced α (ZftapeInfo α × Except Errno Unit)}
    (hnext : ∀ waited padCnt, Restarted first (segPos + 1) before padCnt waited →
      Keeps first before (next waited padCnt) fun done => done.1.Placed first) :
    Keeps first before (flushRound kernel round padCnt zftape next) fun done => done.1.Placed first := by
  have hsize : zftape.segSz segPos = segDataSz (before segPos) := congrArg segDataSz (h.behind segPos le_rfl)
  rw [flushRound, h.here]
  dsimp only
  generalize hpos : (if zftape.pos.segBytePos ≠ zftape.segSz segPos then
    zftape.pos.segBytePos - padCnt else zftape.pos.segBytePos) = segBytePos
  generalize hpad : (if zftape.pos.segBytePos ≠ zftape.segSz segPos then
    zftape.segSz segPos - segBytePos else padCnt) = padCnt'
  have hpadded : segBytePos + padCnt' = zftape.segSz segPos ∧
      padCnt' = padCnt - zftape.pos.segBytePos + zftape.segSz segPos := by
    by_cases hunpadded : zftape.pos.segBytePos ≠ zftape.segSz segPos
    · rw [if_pos hunpadded] at hpos hpad
      constructor
      · linarith
      · linarith
    · -- a segment that the pending sectors fill has no padding
      rw [if_neg hunpadded] at hpos hpad
      have hfull := not_not.mp hunpadded
      have hnone := h.filled hfull
      constructor
      · linarith
      · linarith
  have hwaiting : Waiting first segPos before padCnt'
      { zftape with pos := { zftape.pos with segBytePos := segBytePos } } := by
    refine ⟨h.here, (h.balanced.succ hfirst.le hpadded.2).congr rfl rfl, hpadded.1, ?_⟩
    intro segment hle
    exact h.behind segment (Nat.le_of_succ_le hle)
  split
  · exact .pure (hwaiting.placed hfirst.le)
  · have hqueue : Keeps first before (if 0 < segBytePos then
        padAndWrite kernel round.write { zftape with pos := { zftape.pos with segBytePos := segBytePos } }
        else pure ({ zftape with pos := { zftape.pos with segBytePos := segBytePos } }, .ok ()))
        fun queued => Waiting first segPos before padCnt' queued.1 := by
      split
      · exact keeps_padAndWrite kernel round.write hwaiting
      · exact .pure hwaiting
    refine hqueue.bind ?_
    rintro ⟨queued, result⟩ hqueued
    cases result with
    | error errno => exact .pure ((hqueued.placed hfirst.le).flushFailed errno)
    | ok _ =>
      have hold : (zftape.segSz segPos : ℤ) = segDataSz (before segPos) := congrArg Nat.cast hsize
      refine (keeps_flushWaitLoop kernel hfirst hrange hold round.waits round.wait hqueued).bind ?_
      rintro ⟨waited, padCnt'', flushed⟩ hwaited
      cases flushed with
      | done result => exact .pure hwaited
      | again => exact hnext waited padCnt'' hwaited

/-- The loop of a flush keeps the position record right. -/
theorem keeps_flushLoop (kernel : Kernel α) (rounds : List FlushRound) (hfirst : first < segPos)
    (hrange : segPos + rounds.length < 0x100000000) (round : FlushRound)
    (h : Restarted first segPos before padCnt zftape) :
    Keeps first before (flushLoop kernel rounds round padCnt zftape) fun done => done.1.Placed first := by
  induction rounds generalizing segPos round padCnt zftape with
  | nil =>
    refine keeps_flushRound kernel hfirst hrange round h fun waited padCnt _ => ?_
    exact (Recorded.Keeps.note _).bind fun _ hinterrupted => False.elim hinterrupted
  | cons round' rounds ih =>
    rw [List.length_cons] at hrange
    refine keeps_flushRound kernel hfirst (by omega) round h fun waited padCnt hrestarted => ?_
    exact ih (Nat.lt_succ_of_lt hfirst) (by omega) round' hrestarted

/-- `zft_flush_buffers()` keeps the position record right. -/
theorem keeps_zftFlushBuffers (kernel : Kernel α) (round : FlushRound) (rounds : List FlushRound)
    (h : zftape.Placed first) (hfirst : first < zftape.pos.segPos)
    (hrange : zftape.pos.segPos + rounds.length < 0x100000000) :
    Keeps first zftape.drive.badSectorMap (zftFlushBuffers kernel round rounds zftape) fun done =>
      done.1.Placed first := by
  rw [zftFlushBuffers]
  split
  · exact .pure h
  · dsimp only
    split
    · exact .pure ⟨h.behind, h.balanced⟩
    · refine keeps_flushLoop kernel rounds hfirst hrange round ⟨rfl, ?_, fun _ => rfl, fun _ _ => rfl⟩
      rw [zero_sub]
      exact h.balanced

end Flushing

end Ftape.Zftape
