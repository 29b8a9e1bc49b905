import Ftape.Write.Drive

/-!
# The queue of segments

The buffers with data form a queue: the interrupt handler takes segments off its front and
`ftape_write_segment()` adds one at its end. One lemma for each operation says what it does to
the queue and to the log of segments; later files use these and never look into the ring.
-/

namespace Ftape.Write

open Ftape.Algebra

variable {α : Type*} {drive : Drive α} {queue free : List (BufferStruct α)}

/-- A buffer of the queue is not done. -/
theorem Drive.Queued.ne_done (h : drive.Queued queue free) :
    ∀ buff ∈ queue, buff.status ≠ .done := by
  intro buff hbuff
  cases queue with
  | nil => exact absurd hbuff (List.not_mem_nil)
  | cons head rest =>
    cases List.mem_cons.mp hbuff with
    | inl heq =>
      have hhead := h.head head rfl
      rw [heq]
      cases hhead with
      | inl hwaiting => simp [hwaiting]
      | inr hfailed => simp [hfailed]
    | inr hrest => simp [h.waiting buff hrest]

/-- The buffers that are not done are the queue. -/
theorem Drive.Queued.takeWhile_eq (h : drive.Queued queue free) :
    drive.ring.takeWhile (·.status ≠ .done) = queue := by
  have hfree : free.takeWhile (·.status ≠ .done) = [] := by
    cases hlist : free with
    | nil => rfl
    | cons buff rest =>
      have hdone := h.free buff (by simp [hlist])
      simp [hdone]
  rw [h.ring, List.takeWhile_append_of_pos, hfree, List.append_nil]
  intro buff hbuff
  exact decide_eq_true (h.ne_done buff hbuff)

/-- The log in terms of the queue. -/
theorem Drive.Queued.log_eq (h : drive.Queued queue free) :
    drive.log = drive.tape ++ queue.map (BufferStruct.entry drive.badSectorMap) := by
  rw [Drive.log, h.takeWhile_eq]

/-- The ring has room for the queue and the free buffers. -/
theorem Drive.Queued.length (h : drive.Queued queue free) :
    drive.ring.length = queue.length + free.length := by
  rw [h.ring, List.length_append]

/-- What stays when the interrupt handler is at work: the log, the buffers' segments but for
those taken off the front, and everything outside the ring. -/
structure Drive.Ran (drive drive' : Drive α) (queue queue' : List (BufferStruct α)) : Prop where
  log : drive'.log = drive.log
  ids : ∃ written, queue.map BufferStruct.segmentId = written ++ queue'.map BufferStruct.segmentId
  badSectorMap : drive'.badSectorMap = drive.badSectorMap
  deblockBuffer : drive'.deblockBuffer = drive.deblockBuffer
  writing : drive'.writing = drive.writing
  segments : drive'.segments = drive.segments

/-- Nothing happened. -/
theorem Drive.Ran.refl (drive : Drive α) (queue : List (BufferStruct α)) :
    drive.Ran drive queue queue := ⟨rfl, ⟨[], rfl⟩, rfl, rfl, rfl, rfl⟩

/-- One thing after the other. -/
theorem Drive.Ran.trans {drive₁ drive₂ drive₃ : Drive α} {queue₁ queue₂ queue₃ : List (BufferStruct α)}
    (h : drive₁.Ran drive₂ queue₁ queue₂) (h' : drive₂.Ran drive₃ queue₂ queue₃) :
    drive₁.Ran drive₃ queue₁ queue₃ := by
  obtain ⟨written, hids⟩ := h.ids
  obtain ⟨written', hids'⟩ := h'.ids
  exact ⟨h'.log.trans h.log, ⟨written ++ written', by rw [hids, hids', List.append_assoc]⟩,
    h'.badSectorMap.trans h.badSectorMap, h'.deblockBuffer.trans h.deblockBuffer,
    h'.writing.trans h.writing, h'.segments.trans h.segments⟩

/-- Finishing `HEAD` takes it off the queue. -/
theorem Drive.Queued.completeHead {head : BufferStruct α} (h : drive.Queued (head :: queue) free)
    (hhead : head.status = .waiting) :
    drive.completeHead.Queued queue (free ++ [{ head with status := .done }]) ∧
      drive.Ran drive.completeHead (head :: queue) queue := by
  have hring : drive.ring = head :: (queue ++ free) := h.ring
  have hrun : drive.completeHead = { drive with
      ring := queue ++ free ++ [{ head with status := .done }]
      tail := (drive.tail + (queue ++ free).length) % ((queue ++ free).length + 1)
      tape := drive.tape ++ [(head.segmentId, head.payload drive.badSectorMap)] } := by
    rw [Drive.completeHead]
    split
    · next hnil => exact absurd (hring.symm.trans hnil) (List.cons_ne_nil _ _)
    · next head' others heq =>
      obtain ⟨rfl, rfl⟩ := List.cons.inj (hring.symm.trans heq)
      rw [if_pos hhead]
  have hqueued : drive.completeHead.Queued queue (free ++ [{ head with status := .done }]) := by
    rw [hrun]
    refine ⟨by rw [List.append_assoc], by simp, ?_, ?_, ?_, ?_, ?_⟩
    · have htail := h.tail
      rw [hring, List.length_cons, List.length_cons] at htail
      simp only [List.length_append, List.length_cons, List.length_nil, htail]
      rw [Nat.mod_add_mod]
      have hsum : queue.length + 1 + (queue.length + free.length) =
          queue.length + (queue.length + free.length + 1) := by omega
      rw [hsum, Nat.add_mod_right]
    · intro buff hbuff
      exact Or.inl (h.waiting buff (List.mem_of_mem_head? hbuff))
    · intro buff hbuff
      exact h.waiting buff (List.mem_of_mem_tail hbuff)
    · intro buff hbuff
      cases List.mem_append.mp hbuff with
      | inl hfree => exact h.free buff hfree
      | inr hlast => rw [List.mem_singleton.mp hlast]
    · exact (List.nodup_cons.mp h.ids).2
  refine ⟨hqueued, ?_, ⟨[head.segmentId], rfl⟩, by rw [hrun], by rw [hrun], by rw [hrun], by rw [hrun]⟩
  rw [hqueued.log_eq, h.log_eq, hrun, List.map_cons, List.append_assoc]
  rfl

/-- A map with one sector. -/
theorem countOnes_sectorBit (sector : Fin 32) : countOnes (sectorBit sector) = 1 := by
  revert sector
  decide

/-- The map of a sector has that bit only. -/
theorem getLsbD_sectorBit (sector : Fin 32) (i : ℕ) :
    (sectorBit sector).getLsbD i = decide (i = sector.val) := by
  have hsector := sector.isLt
  simp only [sectorBit, BitVec.getLsbD_shiftLeft]
  grind

/-- A sector that is good is not in the map. -/
theorem and_sectorBit_eq_zero {bsm : SectorMap} {sector : Fin 32}
    (hgood : bsm.getLsbD sector = false) : bsm &&& sectorBit sector = 0 := by
  apply BitVec.eq_of_getLsbD_eq
  intro i hi
  by_cases hsector : i = sector.val
  · rw [BitVec.getLsbD_and, hsector, hgood, Bool.false_and]
    simp
  · rw [BitVec.getLsbD_and, getLsbD_sectorBit, decide_eq_false hsector, Bool.and_false]
    simp

/-- `HEAD` after one of its sectors failed. -/
def BufferStruct.failed (head : BufferStruct α) (sector : Fin 32) : BufferStruct α :=
  { head with status := .error, hardErrorMap := sectorBit sector }

/-- `HEAD` fails: it stays in the queue, in error. -/
theorem Drive.Queued.failHead {head : BufferStruct α} (h : drive.Queued (head :: queue) free)
    (hhead : head.status = .waiting) (sector : Fin 32) :
    (drive.failHead sector).Queued (head.failed sector :: queue) free ∧
      drive.Ran (drive.failHead sector) (head :: queue) (head.failed sector :: queue) := by
  have hring : drive.ring = head :: (queue ++ free) := h.ring
  have hrun : drive.failHead sector = { drive with ring := head.failed sector :: (queue ++ free) } := by
    rw [Drive.failHead]
    split
    · next hnil => exact absurd (hring.symm.trans hnil) (List.cons_ne_nil _ _)
    · next head' others heq =>
      obtain ⟨rfl, rfl⟩ := List.cons.inj (hring.symm.trans heq)
      rw [if_pos hhead]
      rfl
  have hqueued : (drive.failHead sector).Queued (head.failed sector :: queue) free := by
    rw [hrun]
    refine ⟨rfl, List.cons_ne_nil _ _, ?_, ?_, h.waiting, h.free, h.ids⟩
    · have htail := h.tail
      rwa [hring] at htail
    · intro buff hbuff
      obtain rfl : head.failed sector = buff := Option.some.inj hbuff
      exact Or.inr rfl
  refine ⟨hqueued, ?_, ⟨[], rfl⟩, by rw [hrun], by rw [hrun], by rw [hrun], by rw [hrun]⟩
  rw [hqueued.log_eq, h.log_eq, hrun]
  rfl

/-- There is nothing for the interrupt handler to do: `HEAD` is done, or in error. -/
def Drive.Idle (drive : Drive α) : Prop := ∀ head ∈ drive.ring.head?, head.status ≠ .waiting

/-- An idle handler finishes nothing. -/
theorem Drive.Idle.completeHead (h : drive.Idle) : drive.completeHead = drive := by
  rw [Drive.completeHead]
  split
  · rfl
  · next head others heq => rw [if_neg (h head (by simp [heq]))]

/-- Nothing fails while the handler is idle. -/
theorem Drive.Idle.failHead (h : drive.Idle) (sector : Fin 32) : drive.failHead sector = drive := by
  rw [Drive.failHead]
  split
  · rfl
  · next head others heq => rw [if_neg (h head (by simp [heq]))]

/-- Nothing happens while the handler is idle. -/
theorem Drive.Idle.run (h : drive.Idle) (report : RunnerReport) : drive.run report = drive := by
  rw [Drive.run, Function.iterate_fixed h.completeHead]
  cases report.hardError with
  | none => rfl
  | some sector => exact h.failHead sector

/-- The handler is idle while the queue is empty. -/
theorem Drive.Queued.idle (h : drive.Queued [] free) : drive.Idle := by
  intro head hhead
  rw [h.ring, List.nil_append] at hhead
  rw [h.free head (List.mem_of_mem_head? hhead)]
  decide

/-- The handler is idle while `HEAD` is in error. -/
theorem Drive.Queued.idle_of_failed {head : BufferStruct α} (h : drive.Queued (head :: queue) free)
    (hhead : head.status ≠ .waiting) : drive.Idle := by
  intro head' hhead'
  rw [h.ring] at hhead'
  rwa [← Option.some.inj hhead']

/-- The front of a queue whose buffers wait is written segment by segment. -/
theorem Drive.Queued.completes (h : drive.Queued queue free)
    (hwaiting : ∀ buff ∈ queue, buff.status = .waiting) (completed : ℕ) :
    ∃ freed, (Drive.completeHead^[completed] drive).Queued (queue.drop completed) (free ++ freed) ∧
      freed.length = min completed queue.length ∧
      drive.Ran (Drive.completeHead^[completed] drive) queue (queue.drop completed) := by
  induction completed generalizing drive queue free with
  | zero => exact ⟨[], by simpa using h, by simp, Drive.Ran.refl drive queue⟩
  | succ completed ih =>
    cases queue with
    | nil =>
      have hidle := h.idle.completeHead
      obtain ⟨freed, hqueued, hfreed, hran⟩ := ih h hwaiting
      rw [Function.iterate_succ_apply, hidle]
      rw [List.drop_nil] at hqueued hran ⊢
      exact ⟨freed, hqueued, by simpa using hfreed, hran⟩
    | cons head rest =>
      obtain ⟨hhead, hrest⟩ := List.forall_mem_cons.mp hwaiting
      obtain ⟨hqueued₁, hran₁⟩ := h.completeHead hhead
      obtain ⟨freed, hqueued, hfreed, hran⟩ := ih hqueued₁ hrest
      refine ⟨{ head with status := .done } :: freed, ?_, ?_, ?_⟩
      · simpa [Function.iterate_succ_apply] using hqueued
      · rw [List.length_cons, hfreed, List.length_cons, Nat.add_min_add_right]
      · simpa [Function.iterate_succ_apply] using hran₁.trans hran

/-- What a report leaves of a queue whose buffers wait. -/
def RunnerReport.leaves (report : RunnerReport) (queue : List (BufferStruct α)) :
    List (BufferStruct α) :=
  match report.hardError, queue.drop report.completed with
  | some sector, head :: rest => head.failed sector :: rest
  | _, rest => rest

/-- The interrupt handler at work on a queue whose buffers wait. -/
theorem Drive.Queued.run_of_waiting (h : drive.Queued queue free)
    (hwaiting : ∀ buff ∈ queue, buff.status = .waiting) (report : RunnerReport) :
    ∃ free', (drive.run report).Queued (report.leaves queue) free' ∧
      free'.length = free.length + min report.completed queue.length ∧
      drive.Ran (drive.run report) queue (report.leaves queue) := by
  obtain ⟨freed, hqueued, hfreed, hran⟩ := h.completes hwaiting report.completed
  have hlength : (free ++ freed).length = free.length + min report.completed queue.length := by
    rw [List.length_append, hfreed]
  have hboth : (drive.run report).Queued (report.leaves queue) (free ++ freed) ∧
      drive.Ran (drive.run report) queue (report.leaves queue) := by
    rw [Drive.run, RunnerReport.leaves]
    cases report.hardError with
    | none => exact ⟨hqueued, hran⟩
    | some sector =>
      cases hrest : queue.drop report.completed with
      | nil =>
        rw [hrest] at hqueued hran
        dsimp only
        rw [hqueued.idle.failHead]
        exact ⟨hqueued, hran⟩
      | cons head rest =>
        rw [hrest] at hqueued hran
        have hhead : head.status = .waiting :=
          hwaiting head (List.mem_of_mem_drop (hrest ▸ List.mem_cons_self))
        obtain ⟨hfailed, hran'⟩ := hqueued.failHead hhead sector
        exact ⟨hfailed, hran.trans hran'⟩
  exact ⟨free ++ freed, hboth.1, hlength, hboth.2⟩

/-- The interrupt handler keeps the queue in order and never takes a free buffer away. -/
theorem Drive.Queued.run (h : drive.Queued queue free) (report : RunnerReport) :
    ∃ queue' free', (drive.run report).Queued queue' free' ∧ free.length ≤ free'.length ∧
      drive.Ran (drive.run report) queue queue' := by
  by_cases hwaiting : ∀ buff ∈ queue, buff.status = .waiting
  · obtain ⟨free', hqueued, hlength, hran⟩ := h.run_of_waiting hwaiting report
    exact ⟨_, free', hqueued, by omega, hran⟩
  · cases queue with
    | nil => exact absurd (fun buff hbuff => absurd hbuff List.not_mem_nil) hwaiting
    | cons head rest =>
      have hhead : head.status ≠ .waiting := fun hhead =>
        hwaiting (List.forall_mem_cons.mpr ⟨hhead, h.waiting⟩)
      rw [(h.idle_of_failed hhead).run]
      exact ⟨_, _, h, le_rfl, Drive.Ran.refl _ _⟩

/-- A failure in a good sector is one the driver can recover from. -/
theorem failedBuffer_failed {head : BufferStruct α} {sector : Fin 32}
    (hgood : (drive.badSectorMap head.segmentId).getLsbD sector = false) :
    FailedBuffer drive (head.failed sector) :=
  ⟨rfl, countOnes_sectorBit sector, and_sectorBit_eq_zero hgood⟩

/-- A ring with free buffers takes a segment: it joins the queue at its end with what the deblock
buffer held. -/
structure Drive.Took (drive drive' : Drive α) (queue queue' : List (BufferStruct α))
    (segmentId : ℕ) : Prop where
  log : drive'.log = drive.log ++
    [(segmentId, window drive.deblockBuffer 0 (segDataSz (drive.badSectorMap segmentId)))]
  ids : queue'.map BufferStruct.segmentId = queue.map BufferStruct.segmentId ++ [segmentId]
  badSectorMap : drive'.badSectorMap = drive.badSectorMap
  writing : drive'.writing = drive.writing
  segments : drive'.segments = drive.segments

/-- `ftape_write_segment()` finds `TAIL` done. -/
theorem ftapeWriteSegment_of_free (ecc : EccCode α) {segmentId : ℕ} {report : RunnerReport}
    {buff : BufferStruct α} (hsegment : segmentId < drive.segments)
    (h : (drive.startWriting.run report).Queued queue (buff :: free))
    (hids : segmentId ∉ queue.map BufferStruct.segmentId) :
    ∃ drive' queue', ftapeWriteSegment ecc drive segmentId report = (drive', .ok ()) ∧
      drive'.Queued queue' free ∧ (drive.startWriting.run report).Took drive' queue queue' segmentId := by
  generalize hran : drive.startWriting.run report = ran at h
  have htail : ran.tail = queue.length := by
    rw [h.tail, h.length, Nat.mod_eq_of_lt (by simp)]
  have hbuff : ran.ring[ran.tail]? = some buff := by
    rw [htail, h.ring]
    simp
  have hdone : buff.status = .done := h.free buff List.mem_cons_self
  generalize hcopied : fdcIntCopyAndGenEcc ecc buff ran.deblockBuffer (ran.badSectorMap segmentId) =
    copied
  generalize hnew : ({ copied.1 with segmentId := segmentId, status := .waiting } : BufferStruct α) =
    new
  have hset : ran.ring.set ran.tail new = queue ++ [new] ++ free := by
    rw [htail, h.ring, List.append_assoc]
    simp
  have hlength : ran.ring.length = queue.length + (free.length + 1) := h.length
  have hwaits : new.status = .waiting := by rw [← hnew]
  have hsegmentId : new.segmentId = segmentId := by rw [← hnew]
  have hqueued : Drive.Queued { ran with
      ring := ran.ring.set ran.tail new
      deblockBuffer := copied.2
      tail := (ran.tail + 1) % ran.ring.length } (queue ++ [new]) free := by
    refine ⟨hset, ?_, ?_, ?_, ?_, ?_, ?_⟩
    · rw [hset]
      simp
    · rw [hset, htail, hlength]
      simp only [List.length_append, List.length_singleton]
      rw [Nat.add_assoc, Nat.add_comm 1]
    · intro head hhead
      cases queue with
      | nil => exact Or.inl ((Option.some.inj hhead) ▸ hwaits)
      | cons first rest => exact h.head head hhead
    · intro other hother
      cases queue with
      | nil => exact absurd hother List.not_mem_nil
      | cons first rest =>
        cases List.mem_append.mp hother with
        | inl hrest => exact h.waiting other hrest
        | inr hlast => rw [List.mem_singleton.mp hlast, hwaits]
    · intro other hother
      exact h.free other (List.mem_cons_of_mem _ hother)
    · rw [List.map_append, List.map_singleton, hsegmentId]
      exact List.nodup_append.mpr ⟨h.ids, List.nodup_singleton _, by
        intro id hid id' hid' heq
        rw [List.mem_singleton.mp hid'] at heq
        exact hids (heq ▸ hid)⟩
  refine ⟨_, _, ?_, hqueued, ?_⟩
  · rw [ftapeWriteSegment, if_neg (not_le.mpr hsegment)]
    dsimp only
    rw [hran, hbuff]
    dsimp only
    rw [if_pos hdone, hcopied, hnew]
  · refine ⟨?_, by rw [List.map_append, List.map_singleton, hsegmentId], rfl, rfl, rfl⟩
    have hentry : new.entry ran.badSectorMap =
        (segmentId, window ran.deblockBuffer 0 (segDataSz (ran.badSectorMap segmentId))) := by
      rw [← fdcIntCopyAndGenEcc_payload ecc buff, hcopied, BufferStruct.entry, BufferStruct.payload, ← hnew]
    rw [hqueued.log_eq, h.log_eq, List.map_append, List.map_singleton, hentry, List.append_assoc]

/-- `ftape_write_segment()` finds `TAIL`, which is `HEAD`, waiting or in error. -/
theorem ftapeWriteSegment_of_full (ecc : EccCode α) {segmentId : ℕ} {report : RunnerReport}
    (hsegment : segmentId < drive.segments)
    (h : (drive.startWriting.run report).Queued queue []) :
    ftapeWriteSegment ecc drive segmentId report =
      (drive.startWriting.run report, .error .eio) := by
  generalize hran : drive.startWriting.run report = ran at h
  have hring : ran.ring = queue := h.ring.trans (List.append_nil _)
  have htail : ran.tail = 0 := by rw [h.tail, hring, Nat.mod_self]
  cases queue with
  | nil => exact absurd hring h.nonempty
  | cons head rest =>
    have hhead : ran.ring[ran.tail]? = some head := by
      rw [htail, hring]
      rfl
    rw [ftapeWriteSegment, if_neg (not_le.mpr hsegment)]
    dsimp only
    rw [hran, hhead]
    dsimp only
    rw [if_neg (h.ne_done head List.mem_cons_self)]

/-- A driver that is writing goes on. -/
theorem Drive.startWriting_of_writing (h : drive.writing = true) : drive.startWriting = drive :=
  if_pos h

/-- The data in terms of the queue. -/
theorem Drive.Queued.data_eq (h : drive.Queued queue free) :
    drive.data = drive.tape.flatMap Prod.snd ++ ringPayload drive.badSectorMap queue := by
  rw [Drive.data, h.log_eq, List.flatMap_append, List.flatMap_map]
  rfl

/-- Buffers that wait, in front of free ones, are what still has to be written. -/
theorem waitingRun_append (hqueue : ∀ buff ∈ queue, buff.status = .waiting)
    (hfree : ∀ buff ∈ free, buff.status = .done) : waitingRun (queue ++ free) = queue := by
  induction queue with
  | nil =>
    cases free with
    | nil => rfl
    | cons buff rest =>
      apply waitingRun_cons_of_not
      rw [hfree buff List.mem_cons_self]
      decide
  | cons head rest ih =>
    obtain ⟨hhead, hrest⟩ := List.forall_mem_cons.mp hqueue
    rw [List.cons_append, waitingRun_cons_of_waiting hhead, ih hrest]

/-- Buffers have the statuses their labels say. -/
theorem status_of_labels {buffers buffers' : List (BufferStruct α)} {status : BufferState}
    (h : buffers'.map BufferStruct.label = buffers.map BufferStruct.label)
    (hstatus : ∀ buff ∈ buffers, buff.status = status) : ∀ buff ∈ buffers', buff.status = status := by
  intro buff hbuff
  have hlabel : buff.label ∈ buffers.map BufferStruct.label := h ▸ List.mem_map_of_mem hbuff
  obtain ⟨old, hold, heq⟩ := List.mem_map.mp hlabel
  rw [← status_of_label heq, hstatus old hold]

/-- Buffers are about the segments their labels say. -/
theorem segmentIds_of_labels {buffers buffers' : List (BufferStruct α)}
    (h : buffers'.map BufferStruct.label = buffers.map BufferStruct.label) :
    buffers'.map BufferStruct.segmentId = buffers.map BufferStruct.segmentId := by
  have hids (l : List (BufferStruct α)) :
      l.map BufferStruct.segmentId = (l.map BufferStruct.label).map Prod.fst := by
    rw [List.map_map]
    rfl
  rw [hids, hids, h]

/-- What a recovery does to the queue: its data moves by the sector handed back, and every
segment waits again. -/
structure Drive.Recovers (drive drive' : Drive α) (queue' free' : List (BufferStruct α))
    (head : BufferStruct α) (scratch : ℕ → α) : Prop where
  queued : drive'.Queued queue' free'
  waiting : ∀ buff ∈ queue', buff.status = .waiting
  data : drive.data = drive'.data ++ window scratch 0 ftSectorSize
  badSectorMap : drive'.badSectorMap = Function.update drive.badSectorMap head.segmentId
    (drive.badSectorMap head.segmentId ||| head.hardErrorMap)
  tape : drive'.tape = drive.tape
  writing : drive'.writing = drive.writing
  segments : drive'.segments = drive.segments

/-- Recovering from a failure of `HEAD`. -/
theorem Drive.Queued.recovers (ecc : EccCode α) {head : BufferStruct α}
    (h : drive.Queued (head :: queue) free) (hfailed : FailedBuffer drive head)
    (hroom : countOnes (drive.badSectorMap head.segmentId) ≤ 28) (scratch : ℕ → α) :
    ∃ ftape' scratch' queue' free',
      ftapeHardErrorRecovery ecc drive.toFtapeInfo scratch = some (.ok (ftape', scratch')) ∧
      queue'.map BufferStruct.segmentId = (head :: queue).map BufferStruct.segmentId ∧
      free'.length = free.length ∧
      drive.Recovers { drive with toFtapeInfo := ftape' } queue' free' head scratch' := by
  have hring : drive.ring = head :: (queue ++ free) := h.ring
  have hrun : waitingRun (queue ++ free) = queue := waitingRun_append h.waiting h.free
  have hids : ∀ buff ∈ waitingRun (queue ++ free), buff.segmentId ≠ head.segmentId := by
    intro buff hbuff heq
    rw [hrun] at hbuff
    exact (List.nodup_cons.mp h.ids).1 (heq ▸ List.mem_map_of_mem hbuff)
  obtain ⟨ftape', scratch', hrecovery, hrecovered⟩ :=
    ftapeHardErrorRecovery_spec ecc hring scratch hids hfailed.one hfailed.new hroom
  have hlabels : ftape'.ring.map BufferStruct.label =
      ({ head with status := .waiting } :: queue).map BufferStruct.label ++
        free.map BufferStruct.label := by
    rw [hrecovered.ring, List.map_append]
    rfl
  obtain ⟨queue', free', hring', hqueue', hfree'⟩ := List.map_eq_append_iff.mp hlabels
  have hwaiting := status_of_labels hqueue'
    (List.forall_mem_cons.mpr ⟨rfl, h.waiting⟩)
  have hdone := status_of_labels hfree' h.free
  have hsegments : queue'.map BufferStruct.segmentId =
      (head :: queue).map BufferStruct.segmentId := by
    rw [segmentIds_of_labels hqueue', List.map_cons, List.map_cons]
  have hlength : queue'.length = queue.length + 1 := by
    simpa using congrArg List.length hqueue'
  have hlength' : free'.length = free.length := by
    simpa using congrArg List.length hfree'
  have hqueued : Drive.Queued { drive with toFtapeInfo := ftape' } queue' free' := by
    refine ⟨hring', ?_, ?_, ?_, ?_, hdone, hsegments ▸ h.ids⟩
    · apply List.ne_nil_of_length_pos
      rw [hring', List.length_append, hlength]
      omega
    · change ftape'.tail = queue'.length % ftape'.ring.length
      rw [hrecovered.tail, h.tail, h.length, hring', List.length_append, hlength, hlength']
      rfl
    · intro buff hbuff
      exact Or.inl (hwaiting buff (List.mem_of_mem_head? hbuff))
    · intro buff hbuff
      exact hwaiting buff (List.mem_of_mem_tail hbuff)
  refine ⟨ftape', scratch', queue', free', hrecovery, hsegments, hlength', hqueued, hwaiting, ?_,
    hrecovered.badSectorMap, rfl, rfl, rfl⟩
  have hpayload : ftape'.payload = ringPayload ftape'.badSectorMap queue' := by
    cases queue' with
    | nil => exact absurd hlength (by simp)
    | cons head' rest' =>
      obtain ⟨-, hrest'⟩ := List.forall_mem_cons.mp hwaiting
      have hring'' : ftape'.ring = head' :: (rest' ++ free') := hring'
      rw [payload_of_ring hring'', waitingRun_append hrest' hdone]
  have hdata : drive.toFtapeInfo.payload = ringPayload drive.badSectorMap (head :: queue) := by
    rw [payload_of_ring hring, hrun]
  rw [h.data_eq, hqueued.data_eq, List.append_assoc, ← hpayload, ← hrecovered.payload, hdata]

/-- `ftape_loop_until_writes_done()` ends when the queue is empty. -/
theorem ftapeLoopUntilWritesDone_of_empty {report : RunnerReport} (hwriting : drive.writing = true)
    (h : (drive.run report).Queued [] free) :
    ftapeLoopUntilWritesDone drive report = ({ drive.run report with writing := false }, .ok ()) := by
  rw [ftapeLoopUntilWritesDone, if_pos hwriting]
  generalize drive.run report = ran at h
  cases free with
  | nil => exact absurd h.ring h.nonempty
  | cons head rest =>
    have hring : ran.ring = head :: rest := h.ring
    dsimp only
    rw [hring]
    simp only [h.free head List.mem_cons_self]

/-- `ftape_loop_until_writes_done()` stops early when `HEAD` is in error, or for a signal. -/
theorem ftapeLoopUntilWritesDone_of_queue {report : RunnerReport} (hwriting : drive.writing = true)
    {head : BufferStruct α} (h : (drive.run report).Queued (head :: queue) free) :
    ftapeLoopUntilWritesDone drive report =
      (drive.run report, .error (if head.status = .error then .eio else .eintr)) := by
  rw [ftapeLoopUntilWritesDone, if_pos hwriting]
  generalize drive.run report = ran at h
  have hring : ran.ring = head :: (queue ++ free) := h.ring
  dsimp only
  rw [hring]
  cases h.head head rfl with
  | inl hwaiting => simp [hwaiting]
  | inr hfailed => simp [hfailed]

end Ftape.Write
