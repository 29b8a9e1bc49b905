import Ftape.Isr.Interrupts

/-!
# Runs of the ring

Whatever interrupts, retries and aborts come in whatever order, the cursors of each buffer agree, and
each buffer that is done was read to its end. The interrupts may be those of any transfer whose result
lies within the request, the retries those of the buffer whose transfer was interrupted.
-/

namespace Ftape.Isr

open Ftape.Write

/-- What an interrupt may tell: nothing that matters while a transfer is aborted, or else the end of
the transfer into `HEAD`, with no more sectors than the request. Only a controller that counts what is
missing can tell an error of a request for no sectors. -/
def Runner.Interrupts (setting : Setting) (runner : Runner) (result : FdcResult) : Prop :=
  runner.runnerStatus = .aborting ∨ runner.runnerStatus = .doAbort ∨
    ∃ head ∈ runner.ring.head?, head.status = .reading ∧ fdcCount setting head result ≤ head.sectorCount ∧
      (result.dmaResidue = none → decodeIrqCause result = .noError ∨ 0 < head.sectorCount)

/-- Where a segment may be tried again: in the buffer whose transfer was interrupted, or in one that
has nothing to skip. -/
def Runner.Retries (runner : Runner) (segmentId : ℕ) : Prop :=
  runner.oldSegmentId = segmentId → ∀ head ∈ runner.ring.head?,
    head.skip = 0 ∨ head.segmentId = segmentId ∧ (head.status = .reading ∨ head.status = .error)

/-- The events of a run that are looked at. -/
def Runner.Allows (setting : Setting) (runner : Runner) : Event → Prop
  | .irq result _ => runner.Interrupts setting result
  | .start segmentId _ _ => runner.Retries segmentId
  | .taken _ => True
  | .abort _ => True

/-- Each event of a run is one that is looked at. -/
def Runner.AllowsAll (setting : Setting) (runner : Runner) : List Event → Prop
  | [] => True
  | event :: events => runner.Allows setting event ∧ (runner.step setting event).AllowsAll setting events

/-- A retry that is made at the last sector loses no good sector in front of it. -/
def Runner.SkipsCovered (setting : Setting) (runner : Runner) (segmentId : ℕ) : Prop :=
  runner.oldSegmentId = segmentId → ∀ head ∈ runner.ring.head?, FastFails setting runner head segmentId →
    ∀ s, s < ftSectorsPerSegment - 1 → (setting.badSectorEntry segmentId).getLsbD s = false →
      head.Keeps (setting.badSectorEntry segmentId) (ftSectorsPerSegment - 1) s

/-- The events that lose nothing. -/
def Runner.Skips (setting : Setting) (runner : Runner) : Event → Prop
  | .irq _ _ => True
  | .start segmentId _ _ => runner.SkipsCovered setting segmentId
  | .taken _ => True
  | .abort _ => True

/-- No event of a run loses a sector. -/
def Runner.SkipsAll (setting : Setting) (runner : Runner) : List Event → Prop
  | [] => True
  | event :: events => runner.Skips setting event ∧ (runner.step setting event).SkipsAll setting events

instance (setting : Setting) (runner : Runner) (result : FdcResult) :
    Decidable (runner.Interrupts setting result) :=
  inferInstanceAs (Decidable (_ ∨ _ ∨ _))

instance (runner : Runner) (segmentId : ℕ) : Decidable (runner.Retries segmentId) :=
  inferInstanceAs (Decidable (_ → _))

instance (setting : Setting) (runner : Runner) : (event : Event) → Decidable (runner.Allows setting event)
  | .irq result _ => inferInstanceAs (Decidable (runner.Interrupts setting result))
  | .start segmentId _ _ => inferInstanceAs (Decidable (runner.Retries segmentId))
  | .taken _ => inferInstanceAs (Decidable True)
  | .abort _ => inferInstanceAs (Decidable True)

/-- Whether a run is looked at can be computed. -/
def Runner.decidableAllowsAll (setting : Setting) :
    (runner : Runner) → (events : List Event) → Decidable (runner.AllowsAll setting events)
  | _, [] => inferInstanceAs (Decidable True)
  | runner, event :: events =>
    have := (runner.step setting event).decidableAllowsAll setting events
    inferInstanceAs (Decidable (_ ∧ _))

instance (setting : Setting) (runner : Runner) (events : List Event) :
    Decidable (runner.AllowsAll setting events) :=
  runner.decidableAllowsAll setting events

instance (map : SectorMap) (buff : Buffer) (offset sector : ℕ) : Decidable (buff.Keeps map offset sector) :=
  inferInstanceAs (Decidable (_ ∨ _ ∨ _))

instance (setting : Setting) (runner : Runner) (segmentId : ℕ) : Decidable (runner.SkipsCovered setting segmentId) :=
  inferInstanceAs (Decidable (_ → _))

instance (setting : Setting) (runner : Runner) : (event : Event) → Decidable (runner.Skips setting event)
  | .irq _ _ => inferInstanceAs (Decidable True)
  | .start segmentId _ _ => inferInstanceAs (Decidable (runner.SkipsCovered setting segmentId))
  | .taken _ => inferInstanceAs (Decidable True)
  | .abort _ => inferInstanceAs (Decidable True)

/-- Whether a run loses a sector can be computed. -/
def Runner.decidableSkipsAll (setting : Setting) :
    (runner : Runner) → (events : List Event) → Decidable (runner.SkipsAll setting events)
  | _, [] => inferInstanceAs (Decidable True)
  | runner, event :: events =>
    have := (runner.step setting event).decidableSkipsAll setting events
    inferInstanceAs (Decidable (_ ∧ _))

instance (setting : Setting) (runner : Runner) (events : List Event) :
    Decidable (runner.SkipsAll setting events) :=
  runner.decidableSkipsAll setting events

section Events

variable {setting : Setting} {runner : Runner}

/-- If no errors are ignored no retry is made elsewhere. -/
theorem Runner.skipsAll_of_ecc (hecc : setting.ftIgnoreEccErr = false) (events : List Event) :
    runner.SkipsAll setting events := by
  induction events generalizing runner with
  | nil => trivial
  | cons event events ih =>
    refine ⟨?_, ih⟩
    cases event with
    | start segmentId _ _ =>
      intro _ head _ hfast
      exact absurd (hecc.symm.trans hfast.1) Bool.false_ne_true
    | irq _ _ => trivial
    | taken _ => trivial
    | abort _ => trivial

/-- The ring while `HEAD` is read. -/
theorem Runner.Sound.reading (h : runner.Sound setting) {head : Buffer} (hhead : head ∈ runner.ring.head?)
    (hstatus : head.status = .reading) :
    runner.Reading setting head runner.ring.tail := by
  obtain ⟨hrunning, hold, hnext⟩ := h.head head hhead hstatus
  exact ⟨(List.cons_head?_tail hhead).symm, hstatus, hrunning, hold, hnext, fun buff hbuff =>
    ⟨h.buffers buff (List.mem_of_mem_tail hbuff), h.others buff hbuff⟩⟩

/-- An interrupt. -/
theorem Runner.Sound.irq (h : runner.Sound setting) {result : FdcResult}
    (hinterrupts : runner.Interrupts setting result) (setupOk : Bool) :
    (handleFdcBusy setting runner result setupOk).Sound setting := by
  have hdata : (readingData setting runner result setupOk).Sound setting := by
    by_cases habort : runner.runnerStatus = .aborting ∨ runner.runnerStatus = .doAbort
    · rw [readingData]
      dsimp only
      cases hring : runner.ring with
      | nil => exact h
      | cons head others =>
        dsimp only
        rw [if_pos habort]
        exact h
    · obtain ⟨head, hhead, hstatus, hcount, hresidue⟩ :=
        (hinterrupts.resolve_left fun ha => habort (Or.inl ha)).resolve_left fun hd => habort (Or.inr hd)
      have hsound := h.buffers head (List.mem_of_mem_head? hhead)
      exact (h.reading hhead hstatus).readingData (hsound.progress (Or.inl hstatus)) (hsound.cluster hstatus)
        hcount hresidue setupOk
  rw [handleFdcBusy]
  split
  · rename_i habort
    refine ⟨hdata.buffers, hdata.others, fun head hhead hreading => ?_⟩
    have hrunning := (hdata.head head hhead hreading).1
    rw [habort] at hrunning
    cases hrunning
  · exact hdata

/-- The start of reading at a segment. -/
theorem Runner.Sound.start (h : runner.Sound setting) {segmentId : ℕ}
    (hskips : runner.SkipsCovered setting segmentId) (hretries : runner.Retries segmentId) (single : Bool)
    (lowered : ℕ) :
    (startReading setting runner segmentId single lowered).Sound setting := by
  rw [startReading]
  cases hring : runner.ring with
  | nil => exact h
  | cons head others =>
    have hothers : ∀ buff ∈ others, buff.Sound setting ∧ buff.status ≠ .reading := by
      intro buff hbuff
      exact ⟨h.buffers buff (by rw [hring]; exact List.mem_cons_of_mem _ hbuff),
        h.others buff (by rwa [hring])⟩
    have hwhere : runner.oldSegmentId = segmentId →
        Buffer.InProgress (setting.badSectorEntry segmentId) { head with status := .waiting } ∨
          ({ head with status := .waiting } : Buffer).skip = 0 := by
      intro hold
      cases hretries hold head (by rw [hring]; rfl) with
      | inl hskip => exact Or.inr hskip
      | inr hsame =>
        have hprogress := (h.buffers head (by rw [hring]; exact List.mem_cons_self)).progress hsame.2.symm.symm
        rw [hsame.1] at hprogress
        exact Or.inl { hprogress with }
    have hkeeps : runner.oldSegmentId = segmentId → FastFails setting runner { head with status := .waiting } segmentId →
        ∀ s, s < ftSectorsPerSegment - 1 → (setting.badSectorEntry segmentId).getLsbD s = false →
          Buffer.Keeps (setting.badSectorEntry segmentId) { head with status := .waiting } (ftSectorsPerSegment - 1) s :=
      fun hold hfast => hskips hold head (by rw [hring]; rfl) hfast
    obtain ⟨lastSkipped, fresh, hsetup, hprogress, hid, hnext⟩ := ftapeSetupNewSegment_inProgress hwhere hkeeps
    dsimp only
    rw [hsetup]
    dsimp only
    obtain ⟨planned, hplanned, hplan⟩ := exists_planned fresh single
    have hplannedProgress := hplan.inProgress hprogress
    have hplannedId := hplan.segmentId.trans hid
    have hplannedNext := hplan.nextSegment.imp_right (·.trans hnext)
    rw [hplanned]
    obtain ⟨-, -, hsame, -⟩ := hplannedProgress.calcNextCluster
    refine ⟨?_, fun buff hbuff => (hothers buff hbuff).2, ?_⟩
    · rintro buff (_ | ⟨_, hbuff⟩)
      · exact .of_reading (by rwa [hplannedId]) _
      · exact (hothers buff hbuff).1
    · rintro _ ⟨⟩ -
      refine ⟨rfl, ?_, ?_⟩
      · dsimp only
        rw [hsame.segmentId, hplannedId]
      · dsimp only
        rw [hsame.segmentId, hsame.nextSegment, hplannedId]
        exact hplannedNext

/-- A buffer whose data is taken waits afterwards, any other stays what it is. -/
theorem Buffer.Sound.taken {buff : Buffer} (h : buff.Sound setting) :
    (takeBuffer buff).Sound setting ∧ (takeBuffer buff = buff ∨ (takeBuffer buff).status = .waiting) := by
  rw [takeBuffer]
  split
  · exact ⟨.of_waiting rfl, Or.inr rfl⟩
  · exact ⟨h, Or.inl rfl⟩

/-- Each buffer of a ring one of whose buffers is taken. -/
theorem mem_modify_takeBuffer {ring : List Buffer} {i : ℕ} {buff : Buffer}
    (h : buff ∈ ring.modify i takeBuffer) : ∃ old ∈ ring, buff = old ∨ buff = takeBuffer old := by
  induction ring generalizing i with
  | nil =>
    rw [List.modify_nil] at h
    cases h
  | cons head others ih =>
    cases i with
    | zero =>
      rw [List.modify_zero_cons] at h
      cases h with
      | head => exact ⟨head, List.mem_cons_self, Or.inr rfl⟩
      | tail _ h => exact ⟨buff, List.mem_cons_of_mem _ h, Or.inl rfl⟩
    | succ i =>
      rw [List.modify_succ_cons] at h
      cases h with
      | head => exact ⟨_, List.mem_cons_self, Or.inl rfl⟩
      | tail _ h =>
        obtain ⟨old, hold, hbuff⟩ := ih h
        exact ⟨old, List.mem_cons_of_mem _ hold, hbuff⟩

/-- A buffer that is read was so before another one was taken. -/
theorem status_reading_of_takeBuffer {old buff : Buffer} (h : buff = old ∨ buff = takeBuffer old)
    (hreading : buff.status = .reading) : buff = old := by
  rcases h with rfl | rfl
  · rfl
  · rw [takeBuffer] at hreading ⊢
    split at hreading
    · cases hreading
    · rename_i hdone
      rw [if_neg hdone]

/-- The data of a buffer is taken. -/
theorem Runner.Sound.taken (h : runner.Sound setting) (buffer : ℕ) :
    Runner.Sound setting { runner with ring := runner.ring.modify buffer takeBuffer } where
  buffers := by
    intro buff hbuff
    obtain ⟨old, hold, hcases⟩ := mem_modify_takeBuffer hbuff
    rcases hcases with rfl | rfl
    · exact h.buffers _ hold
    · exact (h.buffers old hold).taken.1
  others := by
    intro buff hbuff hreading
    cases hring : runner.ring with
    | nil =>
      rw [hring, List.modify_nil] at hbuff
      cases hbuff
    | cons head others =>
      have hothers := h.others
      rw [hring] at hbuff hothers
      cases buffer with
      | zero => exact hothers buff hbuff hreading
      | succ i =>
        obtain ⟨old, hold, hcases⟩ := mem_modify_takeBuffer hbuff
        obtain rfl := status_reading_of_takeBuffer hcases hreading
        exact hothers _ hold hreading
  head := by
    intro buff hbuff hreading
    cases hring : runner.ring with
    | nil =>
      rw [hring, List.modify_nil] at hbuff
      cases hbuff
    | cons head others =>
      have hhead := h.head
      rw [hring] at hbuff hhead
      cases buffer with
      | zero =>
        have htaken : takeBuffer head = buff := Option.some.inj hbuff
        obtain rfl := status_reading_of_takeBuffer (Or.inr htaken.symm) hreading
        exact hhead _ rfl hreading
      | succ i =>
        obtain rfl : head = buff := Option.some.inj hbuff
        exact hhead _ rfl hreading

/-- A transfer is aborted, and nothing of the ring is kept. -/
theorem Runner.Sound.abort (setting : Setting) (runner : Runner) (head : ℕ) :
    Runner.Sound setting { runner with
      ring := (runner.ring.rotate head).map zapBuffer
      oldSegmentId := -1
      runnerStatus := .idle } := by
  have hwaiting : ∀ buff ∈ (runner.ring.rotate head).map zapBuffer, buff.status = .waiting := by
    intro buff hbuff
    obtain ⟨old, -, rfl⟩ := List.mem_map.mp hbuff
    rfl
  refine .of_stopped (fun buff hbuff => .of_waiting (hwaiting buff hbuff)) fun buff hbuff => ?_
  rw [hwaiting buff hbuff]
  nofun

/-- Each event keeps the ring sound. -/
theorem Runner.Sound.step (h : runner.Sound setting) {event : Event} (hskips : runner.Skips setting event)
    (hallows : runner.Allows setting event) : (runner.step setting event).Sound setting := by
  cases event with
  | irq result setupOk => exact h.irq hallows setupOk
  | start segmentId single lowered => exact h.start hskips hallows single lowered
  | taken buffer => exact h.taken buffer
  | abort head => exact .abort setting runner head

/-- So does a run. -/
theorem Runner.Sound.run (h : runner.Sound setting) {events : List Event} (hskips : runner.SkipsAll setting events)
    (hallows : runner.AllowsAll setting events) : (runner.run setting events).Sound setting := by
  induction events generalizing runner with
  | nil => exact h
  | cons event events ih => exact ih (h.step hskips.1 hallows.1) hskips.2 hallows.2

/-- A ring of waiting buffers is sound. -/
theorem Runner.sound_of_waiting (hwaiting : ∀ buff ∈ runner.ring, buff.status = .waiting) : runner.Sound setting := by
  refine .of_stopped (fun buff hbuff => .of_waiting (hwaiting buff hbuff)) fun buff hbuff => ?_
  rw [hwaiting buff hbuff]
  nofun

end Events

/-- What the cursors of a buffer say of a segment. A segment that is done but was deleted or faked has
nothing left although its sectors were not passed. -/
structure Buffer.Agrees (map : SectorMap) (buff : Buffer) : Prop where
  data : buff.dataOffset = goodBelow map buff.sectorOffset
  ptr : buff.ptr = buff.dmaAddress + buff.dataOffset * ftSectorSize
  sectors : buff.sectorOffset + buff.remaining = ftSectorsPerSegment ∨
    buff.status = .done ∧ (buff.deleted = true ∨ drivenMap map = fakeSegment) ∧ buff.remaining = 0

/-- What a segment that is done holds: the bytes of its good sectors, each moved to its place or flagged
as failed. -/
structure Buffer.Complete (map : SectorMap) (buff : Buffer) : Prop where
  bytes : buff.bytes = (ftSectorsPerSegment - countOnes map) * ftSectorSize
  covered : ∀ s, s < ftSectorsPerSegment → map.getLsbD s = false → buff.Covered map s

/-- In each run from waiting buffers, the cursors of each buffer that is read, failed or done agree,
and a segment that is done is complete unless it was deleted or faked. -/
theorem Runner.run_agrees {setting : Setting} (hecc : setting.ftIgnoreEccErr = false) {runner : Runner}
    (hwaiting : ∀ buff ∈ runner.ring, buff.status = .waiting) {events : List Event}
    (hallows : runner.AllowsAll setting events) :
    ∀ buff ∈ (runner.run setting events).ring,
      (buff.status = .reading ∨ buff.status = .error ∨ buff.status = .done →
        buff.Agrees (setting.badSectorEntry buff.segmentId)) ∧
      (buff.status = .done → buff.deleted = false →
        drivenMap (setting.badSectorEntry buff.segmentId) ≠ fakeSegment →
        buff.Complete (setting.badSectorEntry buff.segmentId)) := by
  intro buff hbuff
  have hsound := ((runner.sound_of_waiting hwaiting).run (runner.skipsAll_of_ecc hecc events) hallows).buffers buff hbuff
  constructor
  · intro hstatus
    by_cases hdone : buff.status = .done
    · have hfinished := hsound.finished hdone
      refine ⟨hfinished.data, hfinished.ptr, ?_⟩
      by_cases hgiven : buff.deleted = true ∨ drivenMap (setting.badSectorEntry buff.segmentId) = fakeSegment
      · exact Or.inr ⟨hdone, hgiven, hfinished.remaining⟩
      · rw [not_or, Bool.not_eq_true] at hgiven
        left
        rw [(hfinished.whole hgiven.2).1 hgiven.1, hfinished.remaining]
        rfl
    · have hprogress := hsound.progress (by tauto)
      exact ⟨hprogress.data, hprogress.ptr, Or.inl hprogress.sectors⟩
  · intro hdone hdeleted hreal
    have hfinished := hsound.finished hdone
    obtain ⟨hwhole, hcovered⟩ := hfinished.whole hreal
    refine ⟨?_, hcovered⟩
    rw [hfinished.bytes, hfinished.data, hwhole hdeleted, goodBelow_whole]
    rfl

/-- A tape of which only segment 5 has bad sectors, the second and the third one. -/
def spottedTape : Setting where
  badSectorEntry segmentId := if segmentId = 5 then 0b110 else 0
  segmentsPerHead := 1020
  segmentsPerCylinder := 4
  segmentsPerTrack := 68
  dittoEz := false
  ftSoftRetries := 2
  ftIgnoreEccErr := false

/-- A buffer nothing was read into. -/
def emptyBuffer (dmaAddress : ℕ) : Buffer where
  dmaAddress := dmaAddress
  ptr := 0
  status := .waiting
  bytes := 0
  segmentId := 0
  badSectorMap := 0
  softErrorMap := 0
  hardErrorMap := 0
  retry := 0
  shortStart := false
  skip := 0
  dataOffset := 0
  sectorOffset := 0
  sectorCount := 0
  remaining := 0
  nextSegment := 0
  deleted := false
  head := 0
  cyl := 0
  sect := 0
  moved := []

/-- Two buffers nothing was read into. -/
def emptyRing : Runner where
  ring := [emptyBuffer 0x8000, emptyBuffer 0x10000]
  oldSegmentId := -1
  lastSegmentSkipped := -1
  runnerStatus := .idle
  stopReadAhead := false

/-- Segment 5 is read: its first sector, four more up to one that fails, the rest, and the failed sector
once more. -/
def readWithRetry : List Event :=
  [.start 5 false 0,
    .irq ⟨0x00, 0x00, 0x00, 1, 34, some 0⟩ true,
    .irq ⟨0x40, 0x20, 0x20, 1, 40, some 25600⟩ true,
    .irq ⟨0x40, 0x20, 0x20, 1, 45, some 19456⟩ true,
    .start 5 true 0,
    .irq ⟨0x00, 0x00, 0x00, 2, 1, some 0⟩ true]

theorem Runner.run_agrees_spotted :
    ∃ buff ∈ (emptyRing.run spottedTape readWithRetry).ring, buff.status = .done ∧ buff.Complete 0b110 := by
  obtain ⟨buff, hbuff, hdone, hdeleted, hsegment⟩ :
      ∃ buff ∈ (emptyRing.run spottedTape readWithRetry).ring, buff.status = .done ∧ buff.deleted = false ∧
        buff.segmentId = 5 := by
    decide +kernel
  have hagrees := @Runner.run_agrees spottedTape rfl emptyRing (by decide) readWithRetry
    (by decide +kernel) buff hbuff
  rw [hsegment] at hagrees
  exact ⟨buff, hbuff, hdone, hagrees.2 hdone hdeleted (by decide)⟩

/-- A deleted data mark ends the transfer of a segment with sectors it never passed. -/
theorem deleted_segment_stops :
    emptyRing.AllowsAll spottedTape [.start 5 false 0, .irq ⟨0x00, 0x00, 0x40, 1, 34, some 0⟩ true] ∧
      ∃ buff ∈ (emptyRing.run spottedTape
          [.start 5 false 0, .irq ⟨0x00, 0x00, 0x40, 1, 34, some 0⟩ true]).ring,
        buff.segmentId = 5 ∧ buff.status = .done ∧ buff.sectorOffset + buff.remaining = 0 := by
  decide +kernel

end Ftape.Isr
