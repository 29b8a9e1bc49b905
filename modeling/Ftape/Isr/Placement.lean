import Ftape.Isr.Runs

/-!
# The byte count of a segment that is done

Which sectors were moved or lost matters to no cursor. In each run, wherever retries go on, the buffer that
is read is placed by the sector it stands at, and a segment that is done counts the bytes of its good sectors.
-/

namespace Ftape.Isr

open Ftape.Write

/-- What the byte count of a segment that is done tells. -/
structure Buffer.Measured (map : SectorMap) (buff : Buffer) : Prop where
  whole : buff.deleted = false → drivenMap map ≠ fakeSegment → buff.bytes = (32 - countOnes map) * ftSectorSize
  faked : drivenMap map = fakeSegment → buff.bytes ≤ ftSectorSize

/-- What holds of a buffer at any time, whatever was lost. -/
structure Buffer.Kept (setting : Setting) (buff : Buffer) : Prop where
  skip : buff.skip ≤ 32
  bytes : buff.bytes ≤ 32 * ftSectorSize
  placed : buff.status = .reading → buff.Placed (setting.badSectorEntry buff.segmentId)
  cluster : buff.status = .reading → buff.Cluster (setting.badSectorEntry buff.segmentId)
  measured : buff.status = .done → buff.Measured (setting.badSectorEntry buff.segmentId)

/-- A faked segment has one good sector at most. -/
theorem goodBelow_faked {map : SectorMap} (hfake : drivenMap map = fakeSegment) : goodBelow map 32 ≤ 1 := by
  rw [goodBelow_whole]
  have hmap : map = emptySegment ∨ map = fakeSegment := by
    by_cases hempty : map = emptySegment
    · exact Or.inl hempty
    · rw [drivenMap, if_neg hempty] at hfake
      exact Or.inr hfake
  rcases hmap with rfl | rfl <;> decide

-- unfolding the loops over all 32 bits of a map is never of use below
attribute [local irreducible] packMask countOnes

section Cursors

variable {map : SectorMap} {buff : Buffer}

/-- The bytes of a buffer whose cursors agree. -/
theorem Buffer.Placed.setBytes (h : buff.Placed map) (status : BufferState) :
    (setBytes buff status).bytes = buff.dataOffset * ftSectorSize := by
  obtain ⟨-, hdata, hoffset⟩ := h.dataOffset_le
  exact setBytes_bytes (hdata.trans hoffset) h.ptr

/-- The bytes of a segment are no more than its sectors hold. -/
theorem Buffer.Placed.setBytes_le (h : buff.Placed map) (status : BufferState) :
    (Isr.setBytes buff status).bytes ≤ 32 * ftSectorSize := by
  obtain ⟨-, hdata, hoffset⟩ := h.dataOffset_le
  rw [h.setBytes status]
  exact Nat.mul_le_mul_right _ (hdata.trans hoffset)

/-- A segment ends measured: read to its last sector, faked or deleted. -/
theorem Buffer.Placed.measured (h : buff.Placed map) {after : Buffer}
    (hbytes : after.bytes = buff.dataOffset * ftSectorSize)
    (hend : buff.remaining = 0 ∨ drivenMap map = fakeSegment ∨ after.deleted = true) : after.Measured map where
  whole := by
    intro hkept hreal
    have hremaining : buff.remaining = 0 := by
      rcases hend with hend | hfake | hdeleted
      · exact hend
      · exact absurd hfake hreal
      · exact absurd (hkept.symm.trans hdeleted) Bool.false_ne_true
    have hoffset : buff.sectorOffset = 32 := by
      have := h.sectors
      omega
    rw [hbytes, h.data, hoffset, goodBelow_whole]
  faked := by
    intro hfake
    rw [hbytes]
    calc buff.dataOffset * ftSectorSize ≤ 1 * ftSectorSize :=
          Nat.mul_le_mul_right _ (h.dataOffset_le.1.trans (goodBelow_faked hfake))
      _ = ftSectorSize := Nat.one_mul _

end Cursors

/-- A buffer that is about to be done: nothing remains of its segment, which is measured. -/
structure Buffer.Ending (map : SectorMap) (buff : Buffer) : Prop where
  remaining : buff.remaining = 0
  measured : (setBytes buff .done).Measured map
  bytes : (setBytes buff .done).bytes ≤ 32 * ftSectorSize

/-- A segment nothing remains of ends. -/
theorem Buffer.Placed.ending {map : SectorMap} {buff : Buffer} (h : buff.Placed map) (hend : buff.remaining = 0) :
    buff.Ending map :=
  ⟨hend, h.measured (h.setBytes .done) (Or.inl hend), h.setBytes_le .done⟩

/-- A segment that is given up ends. -/
theorem Buffer.Placed.ending_givenUp {map : SectorMap} {buff : Buffer} (h : buff.Placed map) (deleted : Bool)
    (soft : SectorMap) (next : ℕ) (hgiven : drivenMap map = fakeSegment ∨ deleted = true) :
    Buffer.Ending map { buff with
      deleted := deleted
      remaining := 0
      softErrorMap := soft
      nextSegment := next } :=
  ⟨rfl, h.measured (h.setBytes .done) (Or.inr hgiven), h.setBytes_le .done⟩

/-- A faked map shows that the segment is faked. -/
theorem Buffer.Placed.faked {map : SectorMap} {buff : Buffer} (h : buff.Placed map)
    (hfake : buff.badSectorMap = fakeSegment) : drivenMap map = fakeSegment := by
  rw [h.rest] at hfake
  cases Nat.eq_zero_or_pos buff.sectorOffset with
  | inl hzero => rwa [hzero, BitVec.ushiftRight_zero] at hfake
  | inr hpos => exact absurd hfake (shift_ne_of_msb hpos (by decide))

section Rings

variable {setting : Setting} {runner : Runner} {buff head : Buffer} {others : List Buffer}

/-- Nothing more is known of a buffer that is neither read nor done. -/
theorem Buffer.Kept.of_idle (hskip : buff.skip ≤ 32) (hbytes : buff.bytes ≤ 32 * ftSectorSize)
    (hreading : buff.status ≠ .reading) (hdone : buff.status ≠ .done) : buff.Kept setting :=
  ⟨hskip, hbytes, fun h => absurd h hreading, fun h => absurd h hreading, fun h => absurd h hdone⟩

/-- A buffer the next cluster of which is read. -/
theorem Buffer.Kept.of_reading (hplaced : buff.Placed (setting.badSectorEntry buff.segmentId))
    (hcluster : buff.Cluster (setting.badSectorEntry buff.segmentId)) (hbytes : buff.bytes ≤ 32 * ftSectorSize)
    (retry : ℤ) : Buffer.Kept setting { buff with status := .reading, retry := retry } :=
  ⟨hplaced.skip, hbytes, fun _ => { hplaced with }, fun _ => { hcluster with }, fun h => by cases h⟩

/-- A buffer that is done. -/
theorem Buffer.Ending.kept (h : buff.Ending (setting.badSectorEntry buff.segmentId)) (hskip : buff.skip ≤ 32) :
    (setBytes buff .done).Kept setting :=
  ⟨hskip, h.bytes, (by rintro ⟨⟩), (by rintro ⟨⟩), fun _ => h.measured⟩

/-- The ring is kept buffer by buffer. -/
def Runner.Kept (setting : Setting) (runner : Runner) : Prop := ∀ buff ∈ runner.ring, buff.Kept setting

/-- A buffer at the front. -/
theorem kept_cons (hhead : head.Kept setting) (hothers : ∀ buff ∈ others, buff.Kept setting) :
    ∀ buff ∈ head :: others, buff.Kept setting := by
  intro buff hbuff
  cases hbuff with
  | head => exact hhead
  | tail _ hbuff => exact hothers buff hbuff

/-- A buffer at the back. -/
theorem kept_concat (hhead : head.Kept setting) (hothers : ∀ buff ∈ others, buff.Kept setting) :
    ∀ buff ∈ others ++ [head], buff.Kept setting := by
  intro buff hbuff
  cases List.mem_append.mp hbuff with
  | inl hother => exact hothers buff hother
  | inr heq => rwa [List.mem_singleton.mp heq]

/-- A retry goes on at a sector of the segment. -/
theorem retrySkip_le (setting : Setting) (runner : Runner) (buff : Buffer) (hskip : buff.skip ≤ 32) (segmentId : ℕ) (skip : Bool) :
    ∃ runner' buff' offset, retrySkip setting runner buff segmentId skip = (runner', buff', offset) ∧ offset ≤ 32 ∧
      buff'.skip ≤ 32 ∧ buff'.status = buff.status ∧ buff'.bytes = buff.bytes := by
  rw [retrySkip]
  split
  · split
    · exact ⟨_, _, _, rfl, Nat.le_succ 31, Nat.le_succ 31, rfl, rfl⟩
    · exact ⟨_, _, _, rfl, hskip, hskip, rfl, rfl⟩
  · exact ⟨_, _, _, rfl, Nat.zero_le _, hskip, rfl, rfl⟩

/-- Setting a segment up places the buffer, whether it is a new one or a retry. -/
theorem ftapeSetupNewSegment_placed (setting : Setting) (runner : Runner) (buff : Buffer) (hskip : buff.skip ≤ 32)
    (segmentId : ℕ) (skip : Bool) :
    ∃ runner' buff', ftapeSetupNewSegment setting runner buff segmentId skip = (runner', buff') ∧
      buff'.Placed (setting.badSectorEntry segmentId) ∧ buff'.segmentId = segmentId ∧
      buff'.status = buff.status ∧ buff'.bytes = buff.bytes := by
  by_cases hold : runner.oldSegmentId = segmentId
  · obtain ⟨runner', buff', offset, hretry, hoffset, hskip', hstatus, hbytes⟩ :=
      retrySkip_le setting runner { buff with retry := buff.retry + 1 } hskip segmentId skip
    rw [ftapeSetupNewSegment, if_pos hold, hretry]
    exact ⟨_, _, rfl, setupSegment_placed setting segmentId true hskip' hoffset, rfl, hstatus, hbytes⟩
  · rw [ftapeSetupNewSegment_new hold]
    exact ⟨_, _, rfl, setupSegment_placed setting segmentId false (Nat.zero_le _) (Nat.zero_le _), rfl, rfl, rfl⟩

/-- The ring goes on with the next segment, or stops. -/
theorem Runner.Kept.nextSegment (h : runner.Kept setting) (lastSegment next : ℕ) (setupOk : Bool) :
    (nextSegment setting runner lastSegment next setupOk).Kept setting := by
  rw [Isr.nextSegment]
  by_cases heot : (lastSegment + 1) % setting.segmentsPerTrack = 0
  · rw [if_pos heot]
    exact h
  by_cases hnone : next = 0
  · rw [if_neg heot, if_pos hnone]
    exact h
  rw [if_neg heot, if_neg hnone]
  cases hring : runner.ring with
  | nil => exact h
  | cons head others =>
    dsimp only
    by_cases hwaiting : head.status = .waiting
    · have hhead : head.Kept setting := h head (by rw [hring]; exact List.mem_cons_self)
      have hothers : ∀ buff ∈ others, buff.Kept setting := fun buff hbuff =>
        h buff (by rw [hring]; exact List.mem_cons_of_mem _ hbuff)
      obtain ⟨runner', fresh, hsetup, hplaced, hid, hstatus, hbytes⟩ :=
        ftapeSetupNewSegment_placed setting runner head hhead.skip next false
      rw [if_neg (not_not.mpr hwaiting), hsetup]
      dsimp only
      obtain ⟨planned, hplanned, hplan⟩ := exists_planned fresh runner'.stopReadAhead
      rw [hplanned]
      obtain ⟨hnext, hcluster, hsame, hnextBytes, -⟩ := (hplan.placed hplaced).calcNextCluster
      have hsegment := hsame.segmentId.trans (hplan.segmentId.trans hid)
      have hnextStatus := hsame.status.trans (hplan.status.trans (hstatus.trans hwaiting))
      have hle := (hnextBytes.trans (hplan.bytes.trans hbytes)).trans_le hhead.bytes
      generalize ftapeCalcNextCluster planned = cluster at hnext hcluster hsegment hnextStatus hle ⊢
      subst hsegment
      split
      · exact kept_cons (.of_idle hnext.skip hle (by rw [hnextStatus]; rintro ⟨⟩) (by rw [hnextStatus]; rintro ⟨⟩)) hothers
      · exact kept_cons (.of_reading hnext hcluster hle cluster.retry) hothers
    · rw [if_pos hwaiting]
      rwa [Runner.Kept, hring] at h

/-- A transfer goes on with the next cluster, or the segment is done with. -/
theorem continueXfer_kept (hring : runner.ring = head :: others) (hothers : ∀ buff ∈ others, buff.Kept setting)
    (hstatus : head.status = .reading) (hskip : head.skip ≤ 32) (hbytes : head.bytes ≤ 32 * ftSectorSize)
    (hcursors : head.Placed (setting.badSectorEntry head.segmentId) ∨
      head.Ending (setting.badSectorEntry head.segmentId)) (skip : ℕ) (setupOk : Bool) :
    (continueXfer setting runner skip setupOk).Kept setting := by
  rw [continueXfer, hring]
  dsimp only
  split
  · exact kept_concat (.of_idle hskip hbytes (by rintro ⟨⟩) (by rintro ⟨⟩)) hothers
  have hfinish : ∀ {last : Buffer}, last.segmentId = head.segmentId → last.skip ≤ 32 →
      last.Ending (setting.badSectorEntry head.segmentId) →
      (nextSegment setting { runner with ring := others ++ [setBytes last .done] } head.segmentId head.nextSegment
        setupOk).Kept setting := by
    intro last hid hlast hending
    rw [← hid] at hending
    have hkept : Runner.Kept setting { runner with ring := others ++ [setBytes last .done] } :=
      kept_concat (hending.kept hlast) hothers
    exact hkept.nextSegment _ _ _
  by_cases hremaining : 0 < head.remaining
  · have hplaced := hcursors.resolve_right fun hending => hremaining.ne' hending.remaining
    rw [if_pos hremaining]
    obtain ⟨hnext, hcluster, hsame, hnextBytes, hend⟩ := hplaced.calcNextCluster
    have hsegment := hsame.segmentId
    have hreading := hsame.status.trans hstatus
    generalize ftapeCalcNextCluster head = cluster at hnext hcluster hsegment hreading hend hnextBytes ⊢
    split
    · split
      · refine kept_cons ⟨hnext.skip, hnextBytes.trans_le hbytes, fun _ => ?_, fun _ => ?_, fun hdone => ?_⟩ hothers
        · rwa [hsegment]
        · rwa [hsegment]
        · rw [hreading] at hdone
          cases hdone
      · exact kept_concat (.of_idle hnext.skip (hnext.setBytes_le .error) (by rintro ⟨⟩) (by rintro ⟨⟩)) hothers
    · rename_i hcount
      have hnone : cluster.sectorCount = 0 :=
        Nat.eq_zero_of_not_pos fun hpos => hcount ⟨hremaining, hpos⟩
      exact hfinish hsegment hnext.skip (hnext.ending (hend hnone))
  · have hnone := Nat.eq_zero_of_not_pos hremaining
    rw [if_neg hremaining, if_neg fun hboth => hremaining hboth.1]
    refine hfinish rfl hskip ?_
    rcases hcursors with hplaced | hending
    · exact hplaced.ending hnone
    · exact hending

/-- A retry of a sector waits for the runner to stop. -/
theorem retrySector_kept (hring : runner.ring = head :: others) (hothers : ∀ buff ∈ others, buff.Kept setting)
    (hbytes : head.bytes ≤ 32 * ftSectorSize) {skip : ℕ} (hskip : skip ≤ 32) :
    (retrySector runner skip).Kept setting := by
  rw [retrySector, hring]
  exact kept_cons (.of_idle hskip hbytes (by rintro ⟨⟩) (by rintro ⟨⟩)) hothers

/-- A failed sector of `HEAD` is passed or tried again. -/
theorem Buffer.Placed.readError (h : head.Placed (setting.badSectorEntry head.segmentId))
    (hcluster : head.Cluster (setting.badSectorEntry head.segmentId)) (hreal : head.badSectorMap ≠ fakeSegment)
    (hstatus : head.status = .reading) (hbytes : head.bytes ≤ 32 * ftSectorSize)
    (hothers : ∀ buff ∈ others, buff.Kept setting) {cause : ErrorCause} {n : ℕ} (hn : n ≤ head.sectorCount)
    (hsectors : 0 < head.sectorCount) (setupOk : Bool) :
    (readError setting runner head others cause n setupOk).Kept setting := by
  obtain ⟨hafter, hsame, hafterBytes⟩ := h.determineProgress hreal hcluster setting cause hn (Or.inr hsectors)
  have hle : (Isr.determineProgress setting head cause n).bytes ≤ 32 * ftSectorSize := hafterBytes.trans_le hbytes
  rw [Isr.readError]
  generalize Isr.determineProgress setting head cause n = after at hafter hsame hle ⊢
  have hgoesOn : ∀ skip,
      (continueXfer setting { runner with ring := after :: others } skip setupOk).Kept setting := by
    intro skip
    refine continueXfer_kept rfl hothers (hsame.status.trans hstatus) hafter.skip hle (Or.inl ?_) skip setupOk
    rwa [hsame.segmentId]
  by_cases hretry : head.softErrorMap ≠ 0 ∨ head.hardErrorMap ≠ 0
  · simp only [if_pos hretry]
    by_cases hskip : findResumePoint after < 32
    · rw [if_pos ⟨hretry, hskip⟩]
      exact retrySector_kept rfl hothers hle (Nat.le_of_lt hskip)
    · rw [if_neg fun hboth => hskip hboth.2]
      exact hgoesOn _
  · simp only [if_neg hretry]
    rw [if_neg fun hboth => hretry hboth.1]
    exact hgoesOn _

/-- An interrupt while `HEAD` is read, with a result within the request. -/
theorem readingData_kept (hring : runner.ring = head :: others) (hothers : ∀ buff ∈ others, buff.Kept setting)
    (hhead : head.Kept setting) (hstatus : head.status = .reading) {result : FdcResult}
    (hcount : fdcCount setting head result ≤ head.sectorCount)
    (hresidue : result.dmaResidue = none → decodeIrqCause result = .noError ∨ 0 < head.sectorCount)
    (setupOk : Bool) : (readingData setting runner result setupOk).Kept setting := by
  have hplaced := hhead.placed hstatus
  have hcluster := hhead.cluster hstatus
  have hle : head.sectorCount ≤ 32 := by
    have := hcluster.remaining
    have := hplaced.sectors
    omega
  rw [readingData]
  dsimp only
  rw [hring]
  dsimp only
  by_cases habort : runner.runnerStatus = .aborting ∨ runner.runnerStatus = .doAbort
  · rw [if_pos habort, Runner.Kept, hring]
    exact kept_cons hhead hothers
  rw [if_neg habort]
  -- the count of sectors is all that `get_transfer_size()` changes
  have hgiven : ∀ sectorCount, head.badSectorMap = fakeSegment →
      (continueXfer setting
        { runner with ring := { head with sectorCount := sectorCount, remaining := 0 } :: others } 1
        setupOk).Kept setting := by
    intro sectorCount hfake
    have hcursors : Buffer.Placed (setting.badSectorEntry head.segmentId) { head with sectorCount := sectorCount } :=
      { hplaced with }
    have hending := hcursors.ending_givenUp head.deleted head.softErrorMap head.nextSegment
      (Or.inl (hplaced.faked hfake))
    exact @continueXfer_kept setting _ { head with sectorCount := sectorCount, remaining := 0 } others rfl hothers
      hstatus hhead.skip hhead.bytes (Or.inr hending) 1 setupOk
  cases getTransferSize_cases hcount hle hresidue with
  | inl hsize =>
    obtain ⟨hsize, herror⟩ := hsize
    rw [hsize]
    dsimp only
    by_cases hfake : head.badSectorMap = fakeSegment
    · rw [if_pos hfake]
      exact hgiven head.sectorCount hfake
    have hagain : (fdcCount setting head result : ℤ) ≠ -eagain := by
      rw [eagain]
      omega
    rw [if_neg hfake, if_neg hagain]
    by_cases hcause : decodeIrqCause result = .noError
    · rw [if_pos hcause]
      by_cases hdeleted : hasBits result.st2 0x40 = true
      · rw [if_pos hdeleted, skipDeleted]
        have hending := hplaced.ending_givenUp true
          (head.softErrorMap ||| BitVec.allOnes 32 <<< head.sectorOffset) (head.segmentId + 1) (Or.inr rfl)
        exact @continueXfer_kept setting _ { head with
          deleted := true
          remaining := 0
          softErrorMap := head.softErrorMap ||| BitVec.allOnes 32 <<< head.sectorOffset
          nextSegment := head.segmentId + 1 } others rfl hothers hstatus hhead.skip hhead.bytes (Or.inr hending) _ setupOk
      · rw [if_neg hdeleted]
        obtain ⟨hafter, hsame, hbytes⟩ :=
          hplaced.determineProgress hfake hcluster setting (decodeIrqCause result) hcount (Or.inl hcause)
        refine continueXfer_kept rfl hothers (hsame.status.trans hstatus) hafter.skip (hbytes.trans_le hhead.bytes)
          (Or.inl ?_) 0 setupOk
        rwa [hsame.segmentId]
    · rw [if_neg hcause]
      exact hplaced.readError hcluster hfake hstatus hhead.bytes hothers hcount (herror.resolve_left hcause) setupOk
  | inr hsize =>
    rw [hsize]
    dsimp only
    by_cases hfake : head.badSectorMap = fakeSegment
    · rw [if_pos hfake]
      exact hgiven 0 hfake
    · rw [if_neg hfake, if_pos rfl]
      have hbytes : ({ head with sectorCount := 0 } : Buffer).bytes ≤ 32 * ftSectorSize := hhead.bytes
      exact retrySector_kept rfl hothers hbytes (Nat.zero_le _)

/-- An interrupt. -/
theorem Runner.Kept.irq (h : runner.Kept setting) {result : FdcResult} (hinterrupts : runner.Interrupts setting result)
    (setupOk : Bool) : (handleFdcBusy setting runner result setupOk).Kept setting := by
  have hdata : (readingData setting runner result setupOk).Kept setting := by
    by_cases habort : runner.runnerStatus = .aborting ∨ runner.runnerStatus = .doAbort
    · rw [readingData]
      dsimp only
      cases hring : runner.ring with
      | nil => exact h
      | cons head others =>
        dsimp only
        rwa [if_pos habort]
    · obtain ⟨head, hhead, hstatus, hcount, hresidue⟩ :=
        (hinterrupts.resolve_left fun ha => habort (Or.inl ha)).resolve_left fun hd => habort (Or.inr hd)
      exact readingData_kept (List.cons_head?_tail hhead).symm (fun buff hbuff => h buff (List.mem_of_mem_tail hbuff))
        (h head (List.mem_of_mem_head? hhead)) hstatus hcount hresidue setupOk
  rw [handleFdcBusy]
  split
  · exact hdata
  · exact hdata

/-- The start of reading at a segment, wherever it goes on. -/
theorem Runner.Kept.start (h : runner.Kept setting) (segmentId : ℕ) (single : Bool) (lowered : ℕ) :
    (startReading setting runner segmentId single lowered).Kept setting := by
  rw [startReading]
  cases hring : runner.ring with
  | nil => exact h
  | cons head others =>
    have hhead : head.Kept setting := h head (by rw [hring]; exact List.mem_cons_self)
    have hothers : ∀ buff ∈ others, buff.Kept setting := fun buff hbuff =>
      h buff (by rw [hring]; exact List.mem_cons_of_mem _ hbuff)
    obtain ⟨runner', fresh, hsetup, hplaced, hid, -, hbytes⟩ :=
      ftapeSetupNewSegment_placed setting runner { head with status := .waiting } hhead.skip segmentId true
    dsimp only
    rw [hsetup]
    dsimp only
    obtain ⟨planned, hplanned, hplan⟩ := exists_planned fresh single
    rw [hplanned]
    obtain ⟨hnext, hcluster, hsame, hnextBytes, -⟩ := (hplan.placed hplaced).calcNextCluster
    have hsegment := hsame.segmentId.trans (hplan.segmentId.trans hid)
    have hle := (hnextBytes.trans (hplan.bytes.trans hbytes)).trans_le hhead.bytes
    generalize ftapeCalcNextCluster planned = cluster at hnext hcluster hsegment hle ⊢
    subst hsegment
    exact kept_cons (.of_reading hnext hcluster hle _) hothers

/-- A buffer whose data is taken. -/
theorem Buffer.Kept.taken (h : buff.Kept setting) : (takeBuffer buff).Kept setting := by
  rw [takeBuffer]
  split
  · exact .of_idle h.skip h.bytes (by rintro ⟨⟩) (by rintro ⟨⟩)
  · exact h

/-- What an event may tell: the results of interrupts lie within the request. -/
def Runner.Reports (setting : Setting) (runner : Runner) : Event → Prop
  | .irq result _ => runner.Interrupts setting result
  | .start _ _ _ => True
  | .taken _ => True
  | .abort _ => True

/-- Each event of a run may. -/
def Runner.ReportsAll (setting : Setting) (runner : Runner) : List Event → Prop
  | [] => True
  | event :: events => runner.Reports setting event ∧ (runner.step setting event).ReportsAll setting events

/-- Each event keeps the ring. -/
theorem Runner.Kept.step (h : runner.Kept setting) {event : Event} (hreports : runner.Reports setting event) :
    (runner.step setting event).Kept setting := by
  cases event with
  | irq result setupOk => exact h.irq hreports setupOk
  | start segmentId single lowered => exact h.start segmentId single lowered
  | taken buffer =>
    intro buff hbuff
    obtain ⟨old, hold, hcases⟩ := mem_modify_takeBuffer hbuff
    rcases hcases with rfl | rfl
    · exact h _ hold
    · exact (h old hold).taken
  | abort head =>
    intro buff hbuff
    obtain ⟨old, -, rfl⟩ := List.mem_map.mp hbuff
    exact .of_idle (Nat.zero_le _) (Nat.zero_le _) (by rintro ⟨⟩) (by rintro ⟨⟩)

/-- So does a run. -/
theorem Runner.Kept.run (h : runner.Kept setting) {events : List Event} (hreports : runner.ReportsAll setting events) :
    (runner.run setting events).Kept setting := by
  induction events generalizing runner with
  | nil => exact h
  | cons event events ih => exact ih (h.step hreports.1) hreports.2

/-- A ring as `fdc_zap_buffers()` leaves it. -/
def Runner.Zapped (runner : Runner) : Prop :=
  ∀ buff ∈ runner.ring, buff.status = .waiting ∧ buff.skip = 0 ∧ buff.bytes = 0

/-- Nothing is read into it yet. -/
theorem Runner.Zapped.kept (h : runner.Zapped) : runner.Kept setting := by
  intro buff hbuff
  obtain ⟨hwaiting, hskip, hbytes⟩ := h buff hbuff
  exact .of_idle (by omega) (by omega) (by rw [hwaiting]; rintro ⟨⟩) (by rw [hwaiting]; rintro ⟨⟩)

instance (runner : Runner) : Decidable runner.Zapped :=
  inferInstanceAs (Decidable (∀ buff ∈ runner.ring, _))

instance (setting : Setting) (runner : Runner) : (event : Event) → Decidable (runner.Reports setting event)
  | .irq result _ => inferInstanceAs (Decidable (runner.Interrupts setting result))
  | .start _ _ _ => inferInstanceAs (Decidable True)
  | .taken _ => inferInstanceAs (Decidable True)
  | .abort _ => inferInstanceAs (Decidable True)

/-- Whether the interrupts of a run lie within their requests can be computed. -/
def Runner.decidableReportsAll (setting : Setting) :
    (runner : Runner) → (events : List Event) → Decidable (runner.ReportsAll setting events)
  | _, [] => inferInstanceAs (Decidable True)
  | runner, event :: events =>
    have := (runner.step setting event).decidableReportsAll setting events
    inferInstanceAs (Decidable (_ ∧ _))

instance (setting : Setting) (runner : Runner) (events : List Event) :
    Decidable (runner.ReportsAll setting events) :=
  runner.decidableReportsAll setting events

/-- In each run whose interrupts lie within their requests, a segment that is done and was not deleted has the bytes
of its good sectors, or one sector at most if it is faked. -/
theorem Runner.Zapped.run_measured (h : runner.Zapped) {events : List Event}
    (hreports : runner.ReportsAll setting events) (hbuff : buff ∈ (runner.run setting events).ring)
    (hdone : buff.status = .done) : buff.Measured (setting.badSectorEntry buff.segmentId) :=
  (h.kept.run hreports buff hbuff).measured hdone

/-- No buffer ever counts more bytes than a segment has. -/
theorem Runner.Zapped.run_bytes (h : runner.Zapped) {events : List Event}
    (hreports : runner.ReportsAll setting events) (hbuff : buff ∈ (runner.run setting events).ring) :
    buff.bytes ≤ 32 * ftSectorSize :=
  (h.kept.run hreports buff hbuff).bytes

end Rings

end Ftape.Isr
