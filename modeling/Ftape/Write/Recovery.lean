import Ftape.Write.Ring

/-!
# Recovery from a hard write error

`ftape_hard_error_recovery()` marks the failed sector of `HEAD` as bad and shifts the data that
is still in the ring by one sector. The sector that no longer fits is handed back. Positions in
the deblock buffer are integers here, as in the source, and a copy that leaves a buffer gives no
result.
-/

namespace Ftape.Write

open Ftape.Algebra

variable {α : Type*}

/-- The body of the loop of `ftape_hard_error_recovery()`: one waiting buffer, the deblock buffer
and the sector carried along. -/
def shiftBuffer (ecc : EccCode α) (bsm : SectorMap) (pos : BufferStruct α) (deblock scratch : ℕ → α) :
    Option (BufferStruct α × (ℕ → α) × (ℕ → α)) :=
  let (pos, deblock) := fdcIntReadBuffer pos deblock
  let segSize : ℤ := ftSegmentSize - countOnes bsm * ftSectorSize
  -- without payload the loop goes on at once, and the memories stay exchanged
  if segSize ≤ 0 then some (pos, deblock, scratch)
  else do
    let deblock ← copy ftBuffSize ftBuffSize deblock ftSectorSize deblock 0 segSize
    let deblock ← copy ftBuffSize ftSectorSize deblock 0 scratch 0 ftSectorSize
    let scratch ← copy ftSectorSize ftBuffSize scratch 0 deblock segSize ftSectorSize
    let (pos, deblock) := fdcIntCopyAndGenEcc ecc pos deblock bsm
    some (pos, deblock, scratch)

/-- The loop of `ftape_hard_error_recovery()` over the buffers behind `HEAD`. -/
def shiftWaiting (ecc : EccCode α) (badSectorMap : ℕ → SectorMap) :
    List (BufferStruct α) → (ℕ → α) → (ℕ → α) →
      Option (List (BufferStruct α) × (ℕ → α) × (ℕ → α))
  | [], deblock, scratch => some ([], deblock, scratch)
  | pos :: rest, deblock, scratch =>
    if pos.status = .waiting then do
      let (pos, deblock, scratch) ←
        shiftBuffer ecc (badSectorMap pos.segmentId) pos deblock scratch
      let (rest, deblock, scratch) ← shiftWaiting ecc badSectorMap rest deblock scratch
      some (pos :: rest, deblock, scratch)
    else some (pos :: rest, deblock, scratch)

/-- `ftape_hard_error_recovery()`, with a controller that can read buffers back. -/
def ftapeHardErrorRecovery (ecc : EccCode α) (ftape : FtapeInfo α) (scratch : ℕ → α) :
    Option (Except Errno (FtapeInfo α × (ℕ → α))) :=
  match ftape.ring with
  | [] => none
  | head :: others =>
    let bsm := ftape.badSectorMap head.segmentId
    let oldSize : ℤ := ftSegmentSize - countOnes bsm * ftSectorSize
    if countOnes head.hardErrorMap ≠ 1 then some (.error .eio)
    else do
      let bsm := bsm ||| head.hardErrorMap
      let badSectorMap := Function.update ftape.badSectorMap head.segmentId bsm
      let segSize := oldSize - ftSectorSize
      let (head, deblock) := fdcIntReadBuffer head ftape.deblockBuffer
      let scratch ← copy ftSectorSize ftBuffSize scratch 0 deblock segSize ftSectorSize
      let (head, deblock) := fdcIntCopyAndGenEcc ecc head deblock bsm
      let head := { head with status := .waiting }
      let (others, deblock, scratch) ← shiftWaiting ecc badSectorMap others deblock scratch
      some (.ok ({ ftape with
        ring := head :: others
        deblockBuffer := deblock
        badSectorMap := badSectorMap
        oldSegmentId := -1 }, scratch))

/-- The payload in sectors. -/
theorem segDataSz_eq (bsm : SectorMap) : segDataSz bsm = (29 - countOnes bsm) * ftSectorSize := by
  rw [segDataSz, ftSegmentSize, ← Nat.sub_mul]
  rfl

/-- The payload size as the source computes it, when the segment has one. -/
theorem segSize_natCast {bsm : SectorMap} (hbsm : countOnes bsm ≤ 29) :
    (ftSegmentSize : ℤ) - countOnes bsm * ftSectorSize = (segDataSz bsm : ℕ) := by
  simp only [segDataSz, ftSegmentSize, ftSectorsPerSegment, ftEccSectors, ftSectorSize]
  omega

/-- The payload size as the source computes it, when the segment has none. -/
theorem segSize_nonpos {bsm : SectorMap} (hbsm : 29 ≤ countOnes bsm) :
    (ftSegmentSize : ℤ) - countOnes bsm * ftSectorSize ≤ 0 := by
  simp only [ftSegmentSize, ftSectorsPerSegment, ftEccSectors, ftSectorSize]
  omega

/-- A segment has no payload exactly when 29 sectors or more are bad. -/
theorem segDataSz_eq_zero_iff (bsm : SectorMap) : segDataSz bsm = 0 ↔ 29 ≤ countOnes bsm := by
  simp only [segDataSz, ftSegmentSize, ftSectorsPerSegment, ftEccSectors, ftSectorSize]
  omega

/-- A buffer has room for a payload and another sector. -/
theorem segDataSz_add_le (bsm : SectorMap) : ftSectorSize + segDataSz bsm ≤ ftBuffSize := by
  simp only [segDataSz, ftSegmentSize, ftSectorsPerSegment, ftEccSectors, ftSectorSize, ftBuffSize]
  omega

/-- The waiting buffers at the front of a run have the labels they had. -/
theorem waitingRun_cons_of_waiting {pos : BufferStruct α} (hpos : pos.status = .waiting)
    (rest : List (BufferStruct α)) : waitingRun (pos :: rest) = pos :: waitingRun rest := by
  simp [waitingRun, hpos]

/-- A run that starts with another status has no waiting front. -/
theorem waitingRun_cons_of_not {pos : BufferStruct α} (hpos : pos.status ≠ .waiting)
    (rest : List (BufferStruct α)) : waitingRun (pos :: rest) = [] := by
  simp [waitingRun, hpos]

/-- The payload of a run, one buffer at a time. -/
@[simp] theorem ringPayload_cons (bsm : ℕ → SectorMap) (pos : BufferStruct α)
    (rest : List (BufferStruct α)) :
    ringPayload bsm (pos :: rest) = pos.payload bsm ++ ringPayload bsm rest := rfl

/-- An empty run has no payload. -/
@[simp] theorem ringPayload_nil (bsm : ℕ → SectorMap) :
    ringPayload bsm ([] : List (BufferStruct α)) = [] := rfl

/-- What the loop does to one buffer: the sector carried along goes in front of the payload, and
the last sector of the payload is carried on. -/
theorem shiftBuffer_spec (ecc : EccCode α) (bsm : ℕ → SectorMap) (pos : BufferStruct α)
    (deblock scratch : ℕ → α) :
    ∃ pos' deblock' scratch',
      shiftBuffer ecc (bsm pos.segmentId) pos deblock scratch = some (pos', deblock', scratch') ∧
      pos'.label = pos.label ∧
      window scratch 0 ftSectorSize ++ pos.payload bsm =
        pos'.payload bsm ++ window scratch' 0 ftSectorSize := by
  generalize hmap : bsm pos.segmentId = map
  have hpayload (buff : BufferStruct α) (hlabel : buff.label = pos.label) :
      buff.payload bsm = window buff.virtual 0 (segDataSz map) := by
    rw [BufferStruct.payload, segmentId_of_label hlabel, hmap]
  by_cases hempty : 29 ≤ countOnes map
  · refine ⟨{ pos with virtual := deblock }, pos.virtual, scratch, ?_, rfl, ?_⟩
    · simp only [shiftBuffer, fdcIntReadBuffer, if_pos (segSize_nonpos hempty)]
    · have hzero : segDataSz map = 0 := (segDataSz_eq_zero_iff map).mpr hempty
      have hpos : pos.payload bsm = [] := by rw [hpayload pos rfl, hzero, window_zero]
      have hpos' : BufferStruct.payload bsm { pos with virtual := deblock } = [] := by
        rw [hpayload { pos with virtual := deblock } rfl, hzero, window_zero]
      rw [hpos, hpos', List.append_nil, List.nil_append]
  · have hcast := segSize_natCast (show countOnes map ≤ 29 by omega)
    have hpositive : ¬(segDataSz map : ℤ) ≤ 0 := by
      have := (segDataSz_eq_zero_iff map).not.mpr hempty
      omega
    have hroom := segDataSz_add_le map
    generalize hmoved : blit pos.virtual ftSectorSize pos.virtual 0 (segDataSz map) = moved
    generalize hshifted : blit moved 0 scratch 0 ftSectorSize = shifted
    have hcopy₁ : copy ftBuffSize ftBuffSize pos.virtual ftSectorSize pos.virtual 0 (segDataSz map) =
        some moved := by
      rw [← hmoved]
      exact copy_from_start hroom (by omega) _ _
    have hcopy₂ : copy ftBuffSize ftSectorSize moved 0 scratch 0 ftSectorSize = some shifted := by
      rw [← hshifted]
      exact copy_start_to_start (by omega) le_rfl _ _
    have hcopy₃ : copy ftSectorSize ftBuffSize scratch 0 shifted (segDataSz map) ftSectorSize =
        some (blit scratch 0 shifted (segDataSz map) ftSectorSize) :=
      copy_to_start le_rfl (by omega) _ _
    refine ⟨(fdcIntCopyAndGenEcc ecc { pos with virtual := deblock } shifted map).1,
      (fdcIntCopyAndGenEcc ecc { pos with virtual := deblock } shifted map).2,
      blit scratch 0 shifted (segDataSz map) ftSectorSize, ?_,
      fdcIntCopyAndGenEcc_label ecc { pos with virtual := deblock } shifted map, ?_⟩
    · rw [shiftBuffer]
      dsimp only [fdcIntReadBuffer]
      rw [hcast, if_neg hpositive, hcopy₁, Option.bind_eq_bind, Option.bind_some, hcopy₂,
        Option.bind_some, hcopy₃, Option.bind_some]
    · rw [hpayload pos rfl, hpayload _ (fdcIntCopyAndGenEcc_label ecc { pos with virtual := deblock } _ _),
        fdcIntCopyAndGenEcc_payload, window_blit, ← hshifted, ← hmoved, window_shift]

/-- The loop cannot fail. It keeps the labels of the buffers, and the sector it carries ends up
behind their data. -/
theorem shiftWaiting_spec (ecc : EccCode α) (bsm : ℕ → SectorMap) (buffers : List (BufferStruct α))
    (deblock scratch : ℕ → α) :
    ∃ buffers' deblock' scratch',
      shiftWaiting ecc bsm buffers deblock scratch = some (buffers', deblock', scratch') ∧
      buffers'.map BufferStruct.label = buffers.map BufferStruct.label ∧
      window scratch 0 ftSectorSize ++ ringPayload bsm (waitingRun buffers) =
        ringPayload bsm (waitingRun buffers') ++ window scratch' 0 ftSectorSize := by
  induction buffers generalizing deblock scratch with
  | nil => exact ⟨[], deblock, scratch, rfl, rfl, by simp [waitingRun]⟩
  | cons pos rest ih =>
    by_cases hpos : pos.status = .waiting
    · obtain ⟨pos', deblock₁, scratch₁, hstep, hlabel, hcarry⟩ :=
        shiftBuffer_spec ecc bsm pos deblock scratch
      obtain ⟨rest', deblock₂, scratch₂, hrest, hlabels, hcarries⟩ := ih deblock₁ scratch₁
      have hpos' : pos'.status = .waiting := (status_of_label hlabel).trans hpos
      refine ⟨pos' :: rest', deblock₂, scratch₂, ?_, ?_, ?_⟩
      · simp only [shiftWaiting, if_pos hpos, hstep, hrest, Option.bind_eq_bind, Option.bind_some]
      · rw [List.map_cons, List.map_cons, hlabel, hlabels]
      · rw [waitingRun_cons_of_waiting hpos, waitingRun_cons_of_waiting hpos', ringPayload_cons,
          ringPayload_cons, ← List.append_assoc, hcarry, List.append_assoc, hcarries, List.append_assoc]
    · refine ⟨pos :: rest, deblock, scratch, ?_, rfl, ?_⟩
      · simp only [shiftWaiting, if_neg hpos]
      · rw [waitingRun_cons_of_not hpos, ringPayload_nil, List.append_nil, List.nil_append]

/-- Marking one more sector takes one sector from the payload. -/
theorem countOnes_or_of_new {bsm map : SectorMap} (hone : countOnes map = 1)
    (hnew : bsm &&& map = 0) : countOnes (bsm ||| map) = countOnes bsm + 1 := by
  have hunion : markedSectors (bsm ||| map) = markedSectors bsm ∪ markedSectors map := by
    ext i
    simp only [mem_markedSectors, Finset.mem_union, BitVec.getLsbD_or, Bool.or_eq_true]
  have hdisjoint : Disjoint (markedSectors bsm) (markedSectors map) := by
    rw [Finset.disjoint_left]
    intro i hi hi'
    have hbit : (bsm &&& map).getLsbD i = true := by
      rw [BitVec.getLsbD_and, (mem_markedSectors bsm i).mp hi, (mem_markedSectors map i).mp hi']
      rfl
    simp [hnew] at hbit
  rw [countOnes_eq_card, hunion, Finset.card_union_of_disjoint hdisjoint, ← countOnes_eq_card,
    ← countOnes_eq_card, hone]

/-- What a recovery leaves behind: the failed sector is marked, the buffers are about the same
segments, `HEAD` waits again, and the ring's data has moved by the sector handed back. -/
structure Recovered (ftape ftape' : FtapeInfo α) (scratch : ℕ → α) (head : BufferStruct α)
    (others : List (BufferStruct α)) : Prop where
  ring : ftape'.ring.map BufferStruct.label =
    (head.segmentId, .waiting) :: others.map BufferStruct.label
  tail : ftape'.tail = ftape.tail
  badSectorMap : ftape'.badSectorMap = Function.update ftape.badSectorMap head.segmentId
    (ftape.badSectorMap head.segmentId ||| head.hardErrorMap)
  payload : ftape.payload = ftape'.payload ++ window scratch 0 ftSectorSize

/-- The payload of a run depends on the entries of its own segments only. -/
theorem ringPayload_congr {bsm bsm' : ℕ → SectorMap} {buffers : List (BufferStruct α)}
    (h : ∀ buff ∈ buffers, bsm' buff.segmentId = bsm buff.segmentId) :
    ringPayload bsm' buffers = ringPayload bsm buffers := by
  induction buffers with
  | nil => rfl
  | cons pos rest ih =>
    obtain ⟨hpos, hrest⟩ := List.forall_mem_cons.mp h
    rw [ringPayload_cons, ringPayload_cons, ih hrest, BufferStruct.payload, BufferStruct.payload, hpos]

/-- The data of a ring that is not empty. -/
theorem payload_of_ring {ftape : FtapeInfo α} {head : BufferStruct α}
    {others : List (BufferStruct α)} (hring : ftape.ring = head :: others) :
    ftape.payload = ringPayload ftape.badSectorMap (head :: waitingRun others) := by
  unfold FtapeInfo.payload
  rw [hring]

/-- A recovery on a segment with a sector of payload to give goes through. -/
theorem ftapeHardErrorRecovery_spec (ecc : EccCode α) {ftape : FtapeInfo α} {head : BufferStruct α}
    {others : List (BufferStruct α)} (hring : ftape.ring = head :: others) (scratch : ℕ → α)
    (hids : ∀ buff ∈ waitingRun others, buff.segmentId ≠ head.segmentId)
    (hone : countOnes head.hardErrorMap = 1)
    (hnew : ftape.badSectorMap head.segmentId &&& head.hardErrorMap = 0)
    (hroom : countOnes (ftape.badSectorMap head.segmentId) ≤ 28) :
    ∃ ftape' scratch', ftapeHardErrorRecovery ecc ftape scratch = some (.ok (ftape', scratch')) ∧
      Recovered ftape ftape' scratch' head others := by
  generalize hmap : ftape.badSectorMap head.segmentId = map at hnew hroom
  generalize hbsm : Function.update ftape.badSectorMap head.segmentId (map ||| head.hardErrorMap) =
    bsm
  have hself : bsm head.segmentId = map ||| head.hardErrorMap := by
    rw [← hbsm, Function.update_self]
  have hcount := countOnes_or_of_new hone hnew
  have hold : segDataSz map = segDataSz (map ||| head.hardErrorMap) + ftSectorSize := by
    have hsectors : 29 - countOnes map = 29 - (countOnes map + 1) + 1 := by omega
    rw [segDataSz_eq, segDataSz_eq, hcount, hsectors, Nat.add_mul, Nat.one_mul]
  generalize hsize : segDataSz (map ||| head.hardErrorMap) = size at hold
  have hcast : (ftSegmentSize : ℤ) - countOnes map * ftSectorSize - ftSectorSize = (size : ℕ) := by
    rw [segSize_natCast (by omega), hold]
    push_cast
    ring
  have hcopy : copy ftSectorSize ftBuffSize scratch 0 head.virtual size ftSectorSize =
      some (blit scratch 0 head.virtual size ftSectorSize) := by
    have hle := segDataSz_add_le map
    exact copy_to_start le_rfl (by omega) _ _
  generalize hqueued : fdcIntCopyAndGenEcc ecc { head with virtual := ftape.deblockBuffer }
    head.virtual (map ||| head.hardErrorMap) = queued
  generalize hlast : blit scratch 0 head.virtual size ftSectorSize = last at hcopy
  obtain ⟨others', deblock', scratch', hloop, hlabels, hcarry⟩ :=
    shiftWaiting_spec ecc bsm others queued.2 last
  have hlabel : queued.1.segmentId = head.segmentId := by
    rw [← hqueued]
    exact segmentId_of_label
      (fdcIntCopyAndGenEcc_label ecc { head with virtual := ftape.deblockBuffer } _ _)
  refine ⟨{ ftape with
      ring := { queued.1 with status := .waiting } :: others'
      deblockBuffer := deblock'
      badSectorMap := bsm
      oldSegmentId := -1 }, scratch', ?_, ?_⟩
  · rw [ftapeHardErrorRecovery, hring]
    dsimp only [fdcIntReadBuffer]
    rw [if_neg (not_not.mpr hone), hmap, hcast, hcopy, Option.bind_eq_bind, Option.bind_some, hbsm,
      hqueued, hloop, Option.bind_eq_bind, Option.bind_some]
  · refine ⟨?_, rfl, by rw [hmap, hbsm], ?_⟩
    · rw [List.map_cons, hlabels, BufferStruct.label, hlabel]
    · have hothers : ringPayload ftape.badSectorMap (waitingRun others) =
          ringPayload bsm (waitingRun others) := by
        apply ringPayload_congr
        intro buff hbuff
        rw [← hbsm, Function.update_of_ne (hids buff hbuff)]
      have hhead : head.payload ftape.badSectorMap =
          BufferStruct.payload bsm { queued.1 with status := .waiting } ++ window last 0 ftSectorSize := by
        have hkept : window queued.1.virtual 0 size = window head.virtual 0 size := by
          rw [← hqueued, ← hsize, fdcIntCopyAndGenEcc_payload]
        rw [BufferStruct.payload, BufferStruct.payload, hmap, hlabel, hself, hsize, hold, window_append,
          hkept, ← hlast, window_blit, Nat.zero_add]
      calc ftape.payload
          = head.payload ftape.badSectorMap ++ ringPayload bsm (waitingRun others) := by
            rw [payload_of_ring hring, ringPayload_cons, hothers]
        _ = BufferStruct.payload bsm { queued.1 with status := .waiting } ++
              (window last 0 ftSectorSize ++ ringPayload bsm (waitingRun others)) := by
            rw [hhead, List.append_assoc]
        _ = ringPayload bsm ({ queued.1 with status := .waiting } :: waitingRun others') ++
              window scratch' 0 ftSectorSize := by
            rw [hcarry, ringPayload_cons, List.append_assoc]

/-- A recovery on a segment without payload reads in front of the deblock buffer. -/
theorem ftapeHardErrorRecovery_of_short (ecc : EccCode α) {ftape : FtapeInfo α}
    {head : BufferStruct α} {others : List (BufferStruct α)} (hring : ftape.ring = head :: others)
    (scratch : ℕ → α) (hone : countOnes head.hardErrorMap = 1)
    (hshort : 29 ≤ countOnes (ftape.badSectorMap head.segmentId)) :
    ftapeHardErrorRecovery ecc ftape scratch = none := by
  have hneg : (ftSegmentSize : ℤ) - countOnes (ftape.badSectorMap head.segmentId) * ftSectorSize -
      ftSectorSize < 0 := by
    have hpos : (0 : ℤ) < ftSectorSize := by decide
    have := segSize_nonpos hshort
    omega
  rw [ftapeHardErrorRecovery, hring]
  dsimp only [fdcIntReadBuffer]
  rw [if_neg (not_not.mpr hone), copy_of_neg hneg, Option.bind_eq_bind, Option.bind_none]

/-- The recovery from one newly failed sector stays within the buffers and conserves the ring's
data, shifted by the sector it hands back, exactly when the failing segment had a sector of
payload to give. -/
theorem ftapeHardErrorRecovery_conserves_iff (ecc : EccCode α) {ftape : FtapeInfo α}
    {head : BufferStruct α} {others : List (BufferStruct α)} (hring : ftape.ring = head :: others)
    (scratch : ℕ → α) (hids : ∀ buff ∈ waitingRun others, buff.segmentId ≠ head.segmentId)
    (hone : countOnes head.hardErrorMap = 1)
    (hnew : ftape.badSectorMap head.segmentId &&& head.hardErrorMap = 0) :
    (∃ ftape' scratch', ftapeHardErrorRecovery ecc ftape scratch = some (.ok (ftape', scratch')) ∧
      Recovered ftape ftape' scratch' head others) ↔
      countOnes (ftape.badSectorMap head.segmentId) ≤ 28 := by
  constructor
  · rintro ⟨ftape', scratch', hrun, -⟩
    by_contra hshort
    rw [ftapeHardErrorRecovery_of_short ecc hring scratch hone (by omega)] at hrun
    exact absurd hrun (Option.some_ne_none _).symm
  · intro hroom
    exact ftapeHardErrorRecovery_spec ecc hring scratch hids hone hnew hroom

/-- A buffer for segment 7 whose sector 29 failed. -/
def failedBuffer : BufferStruct Byte := ⟨fun _ => 0x55, 0, 7, .error, 0x20000000⟩

/-- A buffer for segment 8 that waits. -/
def waitingBuffer : BufferStruct Byte := ⟨fun _ => 0xaa, 0, 8, .waiting, 0⟩

/-- A ring of the two, on a tape whose segments all have the given bad sectors. -/
def failedRing (bsm : SectorMap) : FtapeInfo Byte :=
  ⟨[failedBuffer, waitingBuffer], 0, fun _ => 0, fun _ => bsm, -1⟩

/-- On a clean tape the data is conserved. -/
theorem ftapeHardErrorRecovery_conserves_clean :
    ∃ ftape' scratch', ftapeHardErrorRecovery (qicEcc Ecc.target64) (failedRing 0) (fun _ => 0) =
        some (.ok (ftape', scratch')) ∧
      Recovered (failedRing 0) ftape' scratch' failedBuffer [waitingBuffer] :=
  (ftapeHardErrorRecovery_conserves_iff (qicEcc Ecc.target64) rfl (fun _ => 0) (by decide) (by decide)
    (by decide)).mpr (by decide)

/-- With three usable sectors left in the failing segment nothing is conserved: the recovery
reads in front of the deblock buffer. -/
theorem ftapeHardErrorRecovery_three_sectors :
    countOnes failedBuffer.hardErrorMap = 1 ∧ 0x1fffffff &&& failedBuffer.hardErrorMap = 0 ∧
      ftapeHardErrorRecovery (qicEcc Ecc.target64) (failedRing 0x1fffffff) (fun _ => 0) = none ∧
      ¬∃ ftape' scratch', ftapeHardErrorRecovery (qicEcc Ecc.target64) (failedRing 0x1fffffff)
          (fun _ => 0) = some (.ok (ftape', scratch')) ∧
        Recovered (failedRing 0x1fffffff) ftape' scratch' failedBuffer [waitingBuffer] := by
  have hone : countOnes failedBuffer.hardErrorMap = 1 := by decide
  have hnone : ftapeHardErrorRecovery (qicEcc Ecc.target64) (failedRing 0x1fffffff) (fun _ => 0) =
      none :=
    ftapeHardErrorRecovery_of_short (qicEcc Ecc.target64) rfl (fun _ => 0) hone (by decide)
  refine ⟨hone, by decide, hnone, ?_⟩
  rintro ⟨ftape', scratch', hrun, -⟩
  rw [hnone] at hrun
  exact absurd hrun (Option.some_ne_none _).symm

end Ftape.Write
