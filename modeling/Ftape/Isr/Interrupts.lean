import Ftape.Isr.Segment

/-!
# Interrupts while a segment is read

What holds of the ring between two interrupts: only `HEAD` is read, a buffer that is read or whose
transfer failed is in progress, and one that is done is finished. An interrupt whose result lies
within the request keeps it so.
-/

namespace Ftape.Isr

open Ftape.Write

/-- What holds of a buffer at any time. -/
structure Buffer.Sound (setting : Setting) (buff : Buffer) : Prop where
  progress : buff.status = .reading ∨ buff.status = .error →
    buff.InProgress (setting.badSectorEntry buff.segmentId)
  cluster : buff.status = .reading → buff.Cluster (setting.badSectorEntry buff.segmentId)
  finished : buff.status = .done → buff.Finished (setting.badSectorEntry buff.segmentId)

/-- What holds of the ring at any time: only `HEAD` is read, as the segment that was set up last. -/
structure Runner.Sound (setting : Setting) (runner : Runner) : Prop where
  buffers : ∀ buff ∈ runner.ring, buff.Sound setting
  others : ∀ buff ∈ runner.ring.tail, buff.status ≠ .reading
  head : ∀ head ∈ runner.ring.head?, head.status = .reading →
    runner.runnerStatus = .running ∧ runner.oldSegmentId = head.segmentId ∧
      (head.nextSegment = 0 ∨ head.nextSegment = head.segmentId + 1)

section Buffers

variable {setting : Setting} {buff : Buffer}

/-- Nothing is known of a buffer that waits. -/
theorem Buffer.Sound.of_waiting (h : buff.status = .waiting) : buff.Sound setting where
  progress := by
    rintro (hstatus | hstatus) <;> rw [h] at hstatus <;> cases hstatus
  cluster := by
    intro hstatus
    rw [h] at hstatus
    cases hstatus
  finished := by
    intro hstatus
    rw [h] at hstatus
    cases hstatus

/-- A buffer whose transfer failed. -/
theorem Buffer.Sound.of_error (h : buff.status = .error)
    (hprogress : buff.InProgress (setting.badSectorEntry buff.segmentId)) : buff.Sound setting where
  progress := fun _ => hprogress
  cluster := by
    intro hstatus
    rw [h] at hstatus
    cases hstatus
  finished := by
    intro hstatus
    rw [h] at hstatus
    cases hstatus

/-- A buffer that is done. -/
theorem Buffer.Sound.of_done (h : buff.status = .done)
    (hfinished : buff.Finished (setting.badSectorEntry buff.segmentId)) : buff.Sound setting where
  progress := by
    rintro (hstatus | hstatus) <;> rw [h] at hstatus <;> cases hstatus
  cluster := by
    intro hstatus
    rw [h] at hstatus
    cases hstatus
  finished := fun _ => hfinished

/-- A buffer the next cluster of which is read. -/
theorem Buffer.Sound.of_reading (hprogress : buff.InProgress (setting.badSectorEntry buff.segmentId))
    (retry : ℤ) :
    Buffer.Sound setting { ftapeCalcNextCluster buff with status := .reading, retry := retry } := by
  obtain ⟨hcluster, hgood, hsame, -⟩ := hprogress.calcNextCluster
  have hsegment := hsame.segmentId
  refine ⟨fun _ => ?_, fun _ => ?_, fun hdone => by cases hdone⟩
  · dsimp only
    rw [hsegment]
    exact { hcluster with }
  · dsimp only
    rw [hsegment]
    exact { hgood with }

end Buffers

section Steps

variable {setting : Setting} {runner : Runner}

/-- A ring that stands still. -/
theorem Runner.Sound.of_stopped (hbuffers : ∀ buff ∈ runner.ring, buff.Sound setting)
    (hstopped : ∀ buff ∈ runner.ring, buff.status ≠ .reading) : runner.Sound setting where
  buffers := hbuffers
  others := fun buff hbuff => hstopped buff (List.mem_of_mem_tail hbuff)
  head := fun head hhead hreading => absurd hreading (hstopped head (List.mem_of_mem_head? hhead))

/-- The ring goes on with the next segment, or stops. -/
theorem Runner.Sound.nextSegment {lastSegment next : ℕ}
    (hbuffers : ∀ buff ∈ runner.ring, buff.Sound setting)
    (hstopped : ∀ buff ∈ runner.ring, buff.status ≠ .reading) (hrunning : runner.runnerStatus = .running)
    (hold : runner.oldSegmentId = lastSegment) (hnext : next = 0 ∨ next = lastSegment + 1)
    (setupOk : Bool) : (nextSegment setting runner lastSegment next setupOk).Sound setting := by
  rw [Isr.nextSegment]
  by_cases heot : (lastSegment + 1) % setting.segmentsPerTrack = 0
  · rw [if_pos heot]
    exact .of_stopped hbuffers hstopped
  by_cases hnone : next = 0
  · rw [if_neg heot, if_pos hnone]
    exact .of_stopped hbuffers hstopped
  rw [if_neg heot, if_neg hnone]
  cases hring : runner.ring with
  | nil => exact .of_stopped hbuffers hstopped
  | cons head others =>
    rw [hring] at hbuffers hstopped
    dsimp only
    by_cases hwaiting : head.status = .waiting
    · obtain ⟨fresh, hsetup, hfresh, hstatus, hid, hafter⟩ := @ftapeSetupNewSegment_next setting
        runner next head false (by rw [hold]; omega)
      rw [if_neg (not_not.mpr hwaiting), hsetup]
      dsimp only
      obtain ⟨planned, hplanned, hplan⟩ := exists_planned fresh runner.stopReadAhead
      have hprogress := hplan.inProgress hfresh
      have hplannedId := hplan.segmentId.trans hid
      have hplannedStatus := hplan.status.trans (hstatus.trans hwaiting)
      have hplannedNext := hplan.nextSegment.imp_right (·.trans hafter)
      rw [hplanned]
      obtain ⟨-, -, hsame, -⟩ := hprogress.calcNextCluster
      have hothers : ∀ buff ∈ others, buff.Sound setting ∧ buff.status ≠ .reading := fun buff hbuff =>
        ⟨hbuffers buff (List.mem_cons_of_mem _ hbuff), hstopped buff (List.mem_cons_of_mem _ hbuff)⟩
      split
      · have hidle := hsame.status.trans hplannedStatus
        refine .of_stopped ?_ ?_
        · rintro buff (_ | ⟨_, hbuff⟩)
          · exact .of_waiting hidle
          · exact (hothers buff hbuff).1
        · rintro buff (_ | ⟨_, hbuff⟩)
          · rw [hidle]
            exact BufferState.noConfusion
          · exact (hothers buff hbuff).2
      · refine ⟨?_, fun buff hbuff => (hothers buff hbuff).2, ?_⟩
        · rintro buff (_ | ⟨_, hbuff⟩)
          · exact .of_reading (by rwa [hplannedId]) _
          · exact (hothers buff hbuff).1
        · rintro _ ⟨⟩ -
          refine ⟨hrunning, ?_, ?_⟩
          · dsimp only
            rw [hsame.segmentId, hplannedId]
          · dsimp only
            rw [hsame.segmentId, hsame.nextSegment, hplannedId]
            exact hplannedNext
    · rw [if_pos hwaiting]
      exact .of_stopped hbuffers hstopped

/-- An interrupt comes while `HEAD` is read. -/
structure Runner.Reading (setting : Setting) (runner : Runner) (head : Buffer) (others : List Buffer) :
    Prop where
  ring : runner.ring = head :: others
  status : head.status = .reading
  running : runner.runnerStatus = .running
  old : runner.oldSegmentId = head.segmentId
  next : head.nextSegment = 0 ∨ head.nextSegment = head.segmentId + 1
  others : ∀ buff ∈ others, buff.Sound setting ∧ buff.status ≠ .reading

variable {head : Buffer} {others : List Buffer}

/-- The progress of `HEAD` changes nothing about the ring. -/
theorem Runner.Reading.progress (h : runner.Reading setting head others) {head' : Buffer}
    (hsame : head.SameSegment head') :
    Runner.Reading setting { runner with ring := head' :: others } head' others where
  ring := rfl
  status := hsame.status.trans h.status
  running := h.running
  old := by rw [hsame.segmentId, ← h.old]
  next := by
    rw [hsame.segmentId, hsame.nextSegment]
    exact h.next
  others := h.others

/-- `HEAD` makes room for the next buffer, with its transfer finished or failed. -/
theorem Runner.Reading.rotated (h : runner.Reading setting head others) {last : Buffer}
    (hlast : last.Sound setting) (hstatus : last.status ≠ .reading) :
    (∀ buff ∈ others ++ [last], buff.Sound setting) ∧ ∀ buff ∈ others ++ [last], buff.status ≠ .reading := by
  constructor
  · intro buff hbuff
    cases List.mem_append.mp hbuff with
    | inl hother => exact (h.others buff hother).1
    | inr heq => rwa [List.mem_singleton.mp heq]
  · intro buff hbuff
    cases List.mem_append.mp hbuff with
    | inl hother => exact (h.others buff hother).2
    | inr heq => rwa [List.mem_singleton.mp heq]

/-- The segment in `HEAD` is finished, and the ring goes on with the next one. -/
theorem Runner.Reading.finish (h : runner.Reading setting head others) {last : Buffer}
    (hfinished : (setBytes last .done).Finished (setting.badSectorEntry last.segmentId)) (setupOk : Bool) :
    (nextSegment setting { runner with ring := others ++ [setBytes last .done] } head.segmentId
      head.nextSegment setupOk).Sound setting := by
  have hlast : (setBytes last .done).Sound setting := .of_done rfl hfinished
  obtain ⟨hbuffers, hstopped⟩ := h.rotated hlast nofun
  refine .nextSegment ?_ ?_ ?_ ?_ h.next setupOk
  · exact hbuffers
  · exact hstopped
  · exact h.running
  · exact h.old

/-- The transfer into `HEAD` failed, and the runner stops. -/
theorem Runner.Reading.fail (h : runner.Reading setting head others) {last : Buffer}
    (hprogress : last.InProgress (setting.badSectorEntry last.segmentId)) :
    Runner.Sound setting { runner with
      ring := others ++ [setBytes last .error]
      runnerStatus := .aborting } := by
  have hlast : (setBytes last .error).Sound setting := .of_error rfl { hprogress with }
  obtain ⟨hbuffers, hstopped⟩ := h.rotated hlast nofun
  exact .of_stopped hbuffers hstopped

/-- A segment that is given up is done with. -/
theorem Runner.Reading.continueXfer_givenUp (h : runner.Reading setting head others)
    (hremaining : head.remaining = 0)
    (hfinished : (setBytes head .done).Finished (setting.badSectorEntry head.segmentId)) (skip : ℕ)
    (setupOk : Bool) : (continueXfer setting runner skip setupOk).Sound setting := by
  rw [continueXfer, h.ring]
  dsimp only
  have hrunning : ¬(0 < skip ∧ (runner.runnerStatus ≠ .running ∨ head.status ≠ .reading)) := fun hunexpected =>
    hunexpected.2.elim (fun hne => hne h.running) fun hne => hne h.status
  have hnone : ¬0 < head.remaining := by omega
  rw [if_neg hrunning, if_neg hnone, if_neg fun hcluster => hnone hcluster.1]
  exact h.finish hfinished setupOk

/-- A transfer goes on with the next cluster, or the segment is done with. -/
theorem Runner.Reading.continueXfer (h : runner.Reading setting head others)
    (hprogress : head.InProgress (setting.badSectorEntry head.segmentId)) (skip : ℕ) (setupOk : Bool) :
    (continueXfer setting runner skip setupOk).Sound setting := by
  by_cases hremaining : 0 < head.remaining
  · rw [Isr.continueXfer, h.ring]
    dsimp only
    have hrunning : ¬(0 < skip ∧ (runner.runnerStatus ≠ .running ∨ head.status ≠ .reading)) :=
      fun hunexpected =>
        hunexpected.2.elim (fun hne => hne h.running) fun hne => hne h.status
    rw [if_neg hrunning, if_pos hremaining]
    obtain ⟨hcluster, hgood, hsame, hend⟩ := hprogress.calcNextCluster
    have hreading := Buffer.Sound.of_reading hprogress (ftapeCalcNextCluster head).retry
    have hstatus := hsame.status.trans h.status
    generalize ftapeCalcNextCluster head = cluster at hcluster hgood hsame hend hreading hstatus ⊢
    have hmap : cluster.InProgress (setting.badSectorEntry cluster.segmentId) := by rwa [hsame.segmentId]
    by_cases hsectors : 0 < cluster.sectorCount
    · rw [if_pos ⟨hremaining, hsectors⟩]
      split
      · refine ⟨?_, fun buff hbuff => (h.others buff hbuff).2, ?_⟩
        · rintro buff (_ | ⟨_, hbuff⟩)
          · rwa [← hstatus] at hreading
          · exact (h.others buff hbuff).1
        · rintro _ ⟨⟩ -
          rw [hsame.segmentId, hsame.nextSegment]
          exact ⟨h.running, h.old, h.next⟩
      · exact h.fail hmap
    · rw [if_neg fun hboth => hsectors hboth.2]
      exact h.finish (hmap.finished (hend (Nat.eq_zero_of_not_pos hsectors))) setupOk
  · exact h.continueXfer_givenUp (Nat.eq_zero_of_not_pos hremaining)
      (hprogress.finished (Nat.eq_zero_of_not_pos hremaining)) skip setupOk

/-- A retry in the buffer that is read may go on at a place in front of the cursors. -/
theorem Runner.Reading.retrySector (h : runner.Reading setting head others)
    (hprogress : head.InProgress (setting.badSectorEntry head.segmentId)) {skip : ℕ}
    (hskip : skip ≤ head.sectorOffset) (hsoft : ∀ s, head.softErrorMap.getLsbD s = true → skip ≤ s)
    (hfake : drivenMap (setting.badSectorEntry head.segmentId) = fakeSegment → skip = 0) :
    (retrySector runner skip).Sound setting := by
  rw [Isr.retrySector, h.ring]
  have hretry : Buffer.InProgress (setting.badSectorEntry head.segmentId)
      { head with status := .error, skip := skip } :=
    { hprogress with
      fake := fun hempty => ⟨(hprogress.fake hempty).1, hfake hempty⟩
      skip := hskip
      soft := fun s hs => ⟨fun hlt => absurd hlt (Nat.not_lt.mpr (hsoft s hs)), (hprogress.soft s hs).2⟩ }
  refine .of_stopped ?_ ?_
  · rintro buff (_ | ⟨_, hbuff⟩)
    · exact .of_error rfl hretry
    · exact (h.others buff hbuff).1
  · rintro buff (_ | ⟨_, hbuff⟩)
    · exact BufferState.noConfusion
    · exact (h.others buff hbuff).2

/-- A failed sector of `HEAD` is passed or tried again. -/
theorem Runner.Reading.readError (h : runner.Reading setting head others)
    (hprogress : head.InProgress (setting.badSectorEntry head.segmentId))
    (hcluster : head.Cluster (setting.badSectorEntry head.segmentId))
    (hreal : drivenMap (setting.badSectorEntry head.segmentId) ≠ fakeSegment) {cause : ErrorCause}
    (hcause : cause ≠ .noError) {n : ℕ} (hn : n ≤ head.sectorCount) (hsectors : 0 < head.sectorCount)
    (setupOk : Bool) : (readError setting runner head others cause n setupOk).Sound setting := by
  obtain ⟨hafter, hsame, hoffset⟩ :=
    hprogress.determineProgress hreal hcluster setting cause hn (Or.inr hsectors)
  have hresume := hafter.findResumePoint (hoffset hcause)
  rw [Isr.readError]
  generalize determineProgress setting head cause n = after at hafter hsame hresume ⊢
  have hreading := h.progress hsame
  have hmap : after.InProgress (setting.badSectorEntry after.segmentId) := by rwa [hsame.segmentId]
  by_cases hretry : head.softErrorMap ≠ 0 ∨ head.hardErrorMap ≠ 0
  · simp only [if_pos hretry]
    by_cases hskip : findResumePoint after < 32
    · rw [if_pos ⟨hretry, hskip⟩]
      refine hreading.retrySector hmap hresume.1 hresume.2 fun hfake => absurd hfake ?_
      rwa [hsame.segmentId]
    · rw [if_neg fun hboth => hskip hboth.2]
      exact hreading.continueXfer hmap _ setupOk
  · simp only [if_neg hretry]
    rw [if_neg fun hboth => hretry hboth.1]
    exact hreading.continueXfer hmap _ setupOk

/-- An interrupt while `HEAD` is read, with a result within the request. -/
theorem Runner.Reading.readingData (h : runner.Reading setting head others)
    (hprogress : head.InProgress (setting.badSectorEntry head.segmentId))
    (hcluster : head.Cluster (setting.badSectorEntry head.segmentId)) {result : FdcResult}
    (hcount : fdcCount setting head result ≤ head.sectorCount)
    (hresidue : result.dmaResidue = none → decodeIrqCause result = .noError ∨ 0 < head.sectorCount)
    (setupOk : Bool) : (readingData setting runner result setupOk).Sound setting := by
  have hle : head.sectorCount ≤ 32 := by
    have := hcluster.remaining
    have := hprogress.sectors
    omega
  have hrunning : ¬(runner.runnerStatus = .aborting ∨ runner.runnerStatus = .doAbort) := by
    rw [h.running]
    exact not_or.mpr ⟨nofun, nofun⟩
  rw [Isr.readingData]
  dsimp only
  rw [h.ring]
  dsimp only
  rw [if_neg hrunning]
  cases getTransferSize_cases hcount hle hresidue with
  | inl hsize =>
    obtain ⟨hsize, herror⟩ := hsize
    rw [hsize]
    dsimp only
    by_cases hfake : head.badSectorMap = fakeSegment
    · rw [if_pos hfake]
      have hgiven := hprogress.givenUp head.deleted head.softErrorMap head.nextSegment
        (Or.inl (hprogress.fake_iff.mp hfake))
      have hreading : Runner.Reading setting { runner with ring := { head with remaining := 0 } :: others }
          { head with remaining := 0 } others := h.progress ⟨rfl, rfl, rfl⟩
      exact hreading.continueXfer_givenUp rfl hgiven 1 setupOk
    have hreal := fun hdriven => hfake (hprogress.fake_iff.mpr hdriven)
    have hagain : (fdcCount setting head result : ℤ) ≠ -eagain := by
      rw [eagain]
      omega
    rw [if_neg hfake, if_neg hagain]
    by_cases hcause : decodeIrqCause result = .noError
    · rw [if_pos hcause]
      by_cases hdeleted : hasBits result.st2 0x40 = true
      · rw [if_pos hdeleted, skipDeleted]
        dsimp only
        have hflagged : ∀ s, s < 32 → head.softErrorMap.getLsbD s = true ∨ head.sectorOffset ≤ s →
            (head.softErrorMap ||| BitVec.allOnes 32 <<< head.sectorOffset).getLsbD s = true := by
          intro s hs hflag
          rw [BitVec.getLsbD_or, BitVec.getLsbD_shiftLeft, BitVec.getLsbD_allOnes]
          cases hflag with
          | inl hsoft => rw [hsoft, Bool.true_or]
          | inr hbehind =>
            have hnot : ¬s < head.sectorOffset := Nat.not_lt.mpr hbehind
            have hshift : s - head.sectorOffset < 32 := by omega
            simp [hs, hnot, hshift]
        have hgiven := hprogress.givenUp true (head.softErrorMap ||| BitVec.allOnes 32 <<< head.sectorOffset)
          (head.segmentId + 1) (Or.inr ⟨rfl, hflagged⟩)
        have hreading : Runner.Reading setting { runner with
            ring := { head with
              deleted := true
              remaining := 0
              softErrorMap := head.softErrorMap ||| BitVec.allOnes 32 <<< head.sectorOffset
              nextSegment := head.segmentId + 1 } :: others
            stopReadAhead := if head.segmentId = 0 then true else runner.stopReadAhead } _ others :=
          ⟨rfl, h.status, h.running, h.old, Or.inr rfl, h.others⟩
        exact hreading.continueXfer_givenUp rfl hgiven _ setupOk
      · rw [if_neg hdeleted]
        obtain ⟨hafter, hsame, -⟩ :=
          hprogress.determineProgress hreal hcluster setting (decodeIrqCause result) hcount (Or.inl hcause)
        exact (h.progress hsame).continueXfer (by rwa [hsame.segmentId]) 0 setupOk
    · rw [if_neg hcause]
      exact h.readError hprogress hcluster hreal hcause hcount (herror.resolve_left hcause) setupOk
  | inr hsize =>
    rw [hsize]
    dsimp only
    have hmap : Buffer.InProgress (setting.badSectorEntry head.segmentId) { head with sectorCount := 0 } :=
      { hprogress with }
    by_cases hfake : head.badSectorMap = fakeSegment
    · rw [if_pos hfake]
      have hgiven := hmap.givenUp head.deleted head.softErrorMap head.nextSegment
        (Or.inl (hprogress.fake_iff.mp hfake))
      have hreading : Runner.Reading setting
          { runner with ring := { head with sectorCount := 0, remaining := 0 } :: others }
          { head with sectorCount := 0, remaining := 0 } others := h.progress ⟨rfl, rfl, rfl⟩
      exact hreading.continueXfer_givenUp rfl hgiven 1 setupOk
    · rw [if_neg hfake, if_pos rfl]
      have hreading : Runner.Reading setting { runner with ring := { head with sectorCount := 0 } :: others }
          { head with sectorCount := 0 } others := h.progress ⟨rfl, rfl, rfl⟩
      exact hreading.retrySector hmap (Nat.zero_le _) (fun _ _ => Nat.zero_le _) fun _ => rfl

end Steps

end Ftape.Isr
