import Ftape.Ecc.Segment
import Ftape.Isr.ErasureMap
import Ftape.Isr.Placement
import Ftape.Zftape.Read

/-!
# Fetching a segment

`zft_fetch_segment()` finds the size of a segment in three ways: from the bad sector map if the segment is in the
deblock buffer, from the bytes that were transferred and the error correction if it is read, and from the bad
sector map again if a segment in front of the data is filled with zeroes. The deblock buffer belongs to the
controller; the ring of buffers and the drivers of the controllers are modelled down to the byte count of a buffer.
-/

namespace Ftape.Zftape

open Ftape.Algebra Ftape.Write

/-- `ft_bpck_error_t`. -/
inductive BpckError where
  | noError
  | eccError
  | crcError
deriving DecidableEq

/-- The drivers of the controllers. -/
inductive FdcDriver where
  | internal
  | trakker
  | bpck
deriving DecidableEq

/-- What the controller is: its driver, the machine the error correction runs on, and whether
`get_deblock_buffer()` has a buffer to hand out. -/
structure Controller where
  driver : FdcDriver
  target : Ecc.Target
  hasDeblockBuffer : Bool

/-- A buffer of the ring after some run of interrupts within their requests, with the memory its sectors were moved
to, and what `bpck_fdc_read()` returns when it is read once and once more. -/
structure RingBuffer (setting : Isr.Setting) where
  runner : Isr.Runner
  events : List Isr.Event
  buff : Isr.Buffer
  virtual : ℕ → Byte
  firstRead : BpckError
  secondRead : BpckError
  zapped : runner.Zapped
  reports : runner.ReportsAll setting events
  mem : buff ∈ (runner.run setting events).ring

/-- The sectors of a buffer of the ring. -/
theorem RingBuffer.blocks_le {setting : Isr.Setting} (ring : RingBuffer setting) :
    ring.buff.bytes / ftSectorSize ≤ ftSectorsPerSegment := by
  have hbytes := ring.zapped.run_bytes ring.reports ring.mem
  rw [ftSectorSize] at *
  rw [ftSectorsPerSegment]
  omega

/-- What `ftape_read_segment()` meets at `TAIL`: a signal that is pending or none, and the buffer. -/
structure TailLook (setting : Isr.Setting) where
  signal : Bool
  ring : RingBuffer setting

/-- A round of the loop of `ftape_read_segment()`: a signal that is pending or none, the buffers from `TAIL` on, and
the errors of waiting for the segment, of stopping the tape, and of starting it again. -/
structure ReadRound (setting : Isr.Setting) where
  signal : Bool
  tails : List (TailLook setting)
  wait : Option Errno
  stop : Option Errno
  start : Option Errno

/-- What the search from `TAIL` on ends with: an error, a segment of some size, or nothing but the number of errors
the error correction could not repair. -/
inductive Search where
  | exit (errno : Errno)
  | found (size : ℕ)
  | missing (retry : ℕ)

section Controllers

variable (controller : Controller) {setting : Isr.Setting}

/-- `ftape_ecc_correct()` on the memory a buffer was moved to. The loops of `convert_sector_map()` end after 33
rounds at the latest. -/
def ftapeEccCorrect (ring : RingBuffer setting) (memory : ℕ → Byte) : (ℕ → Byte) × Except Errno ℕ :=
  if h : ring.buff.bytes / ftSectorSize ≤ 3 then (memory, .ok 0)
  else
    let mseg : Ecc.MemorySegment :=
      { readBad := (Isr.convertSectorMap 33 setting ring.buff).getD 0
        blocks := ring.buff.bytes / ftSectorSize
        data := memory
        corrected := 0
        four_le_blocks := Nat.lt_of_not_le h
        blocks_le := ring.blocks_le }
    let (result, mseg) := Ecc.ftapeEccCorrectData controller.target mseg
    if result = .corrected ∨ result = .ok ∨ setting.ftIgnoreEccErr = true then
      (mseg.data, .ok ((mseg.blocks - 3) * ftSectorSize))
    else (mseg.data, .error .eagain)

/-- The bytes `bpck_fdc_read()` transfers, in pieces of `BPCK_FDC_POLL_SIZE`. -/
def polled (size : ℕ) : ℕ := (size + 511) / 512 * 512

/-- `bpck_fdc_correct_and_copy()` once `bpck_fdc_read()` has returned for the last time. -/
def bpckCorrectAndCopy (passEcc : Bool) (ring : RingBuffer setting) (memory : ℕ → Byte) :
    BpckError → (ℕ → Byte) × Except Errno ℕ
  | .noError =>
    let size := if passEcc then ring.buff.bytes else ring.buff.bytes - ftEccSectors * ftSectorSize
    (blit memory 0 ring.virtual 0 (polled size), .ok (ring.buff.bytes - 3 * ftSectorSize))
  | .eccError =>
    let memory := blit memory 0 ring.virtual 0 (polled ring.buff.bytes)
    match ftapeEccCorrect controller ring memory with
    | (memory, .ok _) => (memory, .ok (ring.buff.bytes - 3 * ftSectorSize))
    | (memory, .error errno) => (memory, .error errno)
  | .crcError => (blit memory 0 ring.virtual 0 (polled ring.buff.bytes), .error .eio)

/-- `correct_and_copy()` of the drivers, which leaves a segment in the deblock buffer. The internal driver flips the
memory of the buffer with it. -/
def correctAndCopy (passEcc : Bool) (ring : RingBuffer setting) (memory : ℕ → Byte) :
    (ℕ → Byte) × Except Errno ℕ :=
  match controller.driver with
  | .internal =>
    match ftapeEccCorrect controller ring ring.virtual with
    | (corrected, .ok size) => (corrected, .ok size)
    | (_, .error errno) => (memory, .error errno)
  | .trakker => ftapeEccCorrect controller ring (blit memory 0 ring.virtual 0 ring.buff.bytes)
  | .bpck =>
    if ring.buff.bytes ≤ 3 * ftSectorSize then (memory, .ok 0)
    else bpckCorrectAndCopy controller passEcc ring memory
      (if ring.firstRead = .crcError then ring.secondRead else ring.firstRead)

/-- The search of `ftape_read_segment()` through the buffers that are done, from `TAIL` on. -/
def searchTails (passEcc : Bool) (segment : ℕ) (memory : ℕ → Byte) (retry : ℕ) :
    List (TailLook setting) → (ℕ → Byte) × Search
  | [] => (memory, .missing retry)
  | tail :: tails =>
    if tail.ring.buff.status ≠ .done then (memory, .missing retry)
    else if tail.signal then (memory, .exit .eintr)
    else if tail.ring.buff.segmentId = segment then
      if tail.ring.buff.deleted then (memory, .exit .enodata)
      else
        match correctAndCopy controller passEcc tail.ring memory with
        | (memory, .ok size) => (memory, .found size)
        | (memory, .error errno) =>
          if errno ≠ .eagain then (memory, .exit errno)
          else searchTails passEcc segment memory (retry + 1) tails
    else searchTails passEcc segment memory retry tails

/-- The loop of `ftape_read_segment()`, which goes on until a signal comes at the latest. -/
def readRoundsFrom (passEcc : Bool) (segment : ℕ) :
    (ℕ → Byte) → ℕ → List (ReadRound setting) → (ℕ → Byte) × Except Errno ℕ
  | memory, _, [] => (memory, .error .eintr)
  | memory, retry, round :: rounds =>
    if round.signal then (memory, .error .eintr)
    else
      match searchTails controller passEcc segment memory retry round.tails with
      | (memory, .exit errno) => (memory, .error errno)
      | (memory, .found size) =>
        match round.stop with
        | some errno => (memory, .error errno)
        | none => (memory, .ok size)
      | (memory, .missing retry) =>
        match round.wait <|> round.stop with
        | some errno => (memory, .error errno)
        | none =>
          if setting.ftSoftRetries < retry then (memory, .error .eio)
          else
            match round.start with
            | some errno => (memory, .error errno)
            | none => readRoundsFrom passEcc segment memory retry rounds

/-- `ftape_read_segment()`. What was going on before is aborted first, which may fail. -/
def ftapeReadSegment (passEcc : Bool) (segment : ℕ) (memory : ℕ → Byte) (abort : Option Errno)
    (rounds : List (ReadRound setting)) : (ℕ → Byte) × Except Errno ℕ :=
  match abort with
  | some errno => (memory, .error errno)
  | none => readRoundsFrom controller passEcc segment memory 0 rounds

end Controllers

/-- The fields of `zftape_info_t` that fetching uses, with `pass_ecc` and the deblock buffer of the controller.
`deblock_buf` is null or that buffer, and no segment is named by a `deblock_segment` of -1. -/
structure Fetcher where
  rawImage : Bool
  passEcc : Bool
  headerRead : Bool
  bufLenRd : ℤ
  deblockBuf : Bool
  deblockSegment : Option ℕ
  memory : ℕ → Byte

section Fetching

variable (controller : Controller) {setting : Isr.Setting} (firstDataSegment : ℕ)

/-- `zft_get_seg_sz()`. -/
def Fetcher.zftGetSegSz (setting : Isr.Setting) (zftape : Fetcher) (segment : ℕ) : ℕ :=
  let size := segDataSz (setting.badSectorEntry segment)
  if 0 < size ∧ zftape.rawImage then size + ftEccSectors * ftSectorSize else size

/-- `zft_release_deblock_buffer()`. -/
def Fetcher.zftReleaseDeblockBuffer (zftape : Fetcher) : Fetcher :=
  { zftape with bufLenRd := 0, deblockSegment := none, deblockBuf := false }

/-- `zft_blank_segment()`. -/
def Fetcher.zftBlankSegment (setting : Isr.Setting) (zftape : Fetcher) (segment : ℕ) : Fetcher × Except Errno ℕ :=
  let segSz := zftape.zftGetSegSz setting segment
  if segSz = 0 then (zftape, .ok 0)
  else if controller.hasDeblockBuffer = false then ({ zftape with deblockBuf := false }, .error .eio)
  else ({ zftape with deblockBuf := true, memory := blit zftape.memory 0 (fun _ => 0) 0 segSz }, .ok segSz)

/-- `zft_fetch_segment()`, called with `&zftape->deblock_buf`. -/
def Fetcher.zftFetchSegment (zftape : Fetcher) (segment : ℕ) (abort : Option Errno) (rounds : List (ReadRound setting)) :
    Fetcher × Except Errno ℕ :=
  if zftape.deblockSegment = some segment then (zftape, .ok (zftape.zftGetSegSz setting segment))
  else
    let zftape := zftape.zftReleaseDeblockBuffer
    match ftapeReadSegment controller zftape.passEcc segment zftape.memory abort rounds with
    | (memory, .error errno) =>
      let zftape := { zftape with memory := memory }
      if errno = .eintr ∨ zftape.rawImage = false ∨ firstDataSegment ≤ segment then (zftape, .error errno)
      else
        match zftape.zftBlankSegment controller setting segment with
        | (zftape, .error errno) => (zftape, .error errno)
        | (zftape, .ok segSz) =>
          (if 0 < segSz then { zftape with deblockSegment := some segment } else zftape, .ok segSz)
    | (memory, .ok segSz) =>
      let zftape := { zftape with memory := memory, deblockBuf := controller.hasDeblockBuffer }
      let segSz := if 0 < segSz ∧ zftape.rawImage then segSz + ftEccSectors * ftSectorSize else segSz
      if zftape.deblockBuf = false then (zftape, .error .eio)
      else ({ zftape with deblockSegment := some segment }, .ok segSz)

/-- `zft_update_raw_image()` with the answer it comes to, and `pass_ecc` after it. If the header segments were read
the position is reset, which releases the deblock buffer. -/
def Fetcher.zftUpdateRawImage (zftape : Fetcher) (rawImage : Bool) : Fetcher :=
  let updated :=
    if rawImage = zftape.rawImage then zftape
    else if zftape.headerRead then { zftape.zftReleaseDeblockBuffer with rawImage := rawImage }
    else { zftape with rawImage := rawImage }
  { updated with passEcc := updated.rawImage }

/-- `zft_read_header_segments()` as far as the deblock buffer goes, which it messes up, and whether it succeeds. -/
def Fetcher.zftReadHeaderSegments (zftape : Fetcher) (memory : ℕ → Byte) (ok : Bool) : Fetcher :=
  { zftape with deblockBuf := false, deblockSegment := none, memory := memory, headerRead := ok || zftape.headerRead }

/-- What happens to the deblock buffer. -/
inductive FetchEvent (setting : Isr.Setting) where
  | fetch (segment : ℕ) (abort : Option Errno) (rounds : List (ReadRound setting))
  | release
  | updateRawImage (rawImage : Bool)
  | readHeader (memory : ℕ → Byte) (ok : Bool)

/-- What an event makes of the state. No caller fetches a segment before the header segments are read. -/
def Fetcher.step (zftape : Fetcher) : FetchEvent setting → Fetcher
  | .fetch segment abort rounds =>
    if zftape.headerRead then (zftape.zftFetchSegment controller firstDataSegment segment abort rounds).1 else zftape
  | .release => zftape.zftReleaseDeblockBuffer
  | .updateRawImage rawImage => zftape.zftUpdateRawImage rawImage
  | .readHeader memory ok => zftape.zftReadHeaderSegments memory ok

/-- One event after the other. -/
def Fetcher.run (zftape : Fetcher) (events : List (FetchEvent setting)) : Fetcher :=
  events.foldl (Fetcher.step controller firstDataSegment) zftape

/-- The buffers of the ring `ftape_read_segment()` finds. -/
def ringsOf (rounds : List (ReadRound setting)) : List (RingBuffer setting) :=
  rounds.flatMap fun round => round.tails.map (·.ring)

/-- The buffers the last read from the tape found, after a fetch: a segment in the deblock buffer is not read again. -/
def Fetcher.looksAt (zftape : Fetcher) (looked : List (RingBuffer setting)) (segment : ℕ)
    (rounds : List (ReadRound setting)) : List (RingBuffer setting) :=
  if zftape.deblockSegment = some segment then looked else ringsOf rounds

/-- The buffers the last read from the tape found, after an event. -/
def Fetcher.stepLooked (zftape : Fetcher) (looked : List (RingBuffer setting)) :
    FetchEvent setting → List (RingBuffer setting)
  | .fetch segment _ rounds => if zftape.headerRead then zftape.looksAt looked segment rounds else looked
  | .release => looked
  | .updateRawImage _ => looked
  | .readHeader _ _ => looked

/-- The buffers the last read from the tape found, after a run. -/
def Fetcher.looked (zftape : Fetcher) (looked : List (RingBuffer setting)) :
    List (FetchEvent setting) → List (RingBuffer setting)
  | [] => looked
  | event :: events =>
    (zftape.step controller firstDataSegment event).looked (zftape.stepLooked looked event) events

end Fetching

/-- A memory begins with the bytes of a buffer of the ring, as they were moved or as the error correction left them. -/
def RingBuffer.Delivers (controller : Controller) {setting : Isr.Setting} (ring : RingBuffer setting)
    (memory : ℕ → Byte) (size : ℕ) : Prop :=
  size ≤ ring.buff.bytes ∧ ∃ before : ℕ → Byte, (∀ i < ring.buff.bytes, before i = ring.virtual i) ∧
    ((∀ i < size, memory i = before i) ∨ ∀ i < size, memory i = (ftapeEccCorrect controller ring before).1 i)

/-- The deblock buffer holds bytes of a segment: those of one of the buffers that were found, which was read to its end
as this segment, or the zeroes of a segment in front of the data. -/
inductive Holds (controller : Controller) {setting : Isr.Setting} (firstDataSegment : ℕ)
    (found : List (RingBuffer setting)) (memory : ℕ → Byte) (segment size : ℕ) : Prop
  | read (ring : RingBuffer setting) (hfound : ring ∈ found) (hdone : ring.buff.status = .done)
      (hkept : ring.buff.deleted = false) (hsegment : ring.buff.segmentId = segment)
      (hdelivers : ring.Delivers controller memory size)
  | blank (hfront : segment < firstDataSegment) (hzero : ∀ i < size, memory i = 0)

/-- The memory of a buffer has the sectors of a tape: each one that was moved and is not flagged, at the address it was
moved to. -/
def RingBuffer.Carries {setting : Isr.Setting} (ring : RingBuffer setting) (tape : ℕ → ℕ → ℕ → Byte) : Prop :=
  ∀ entry ∈ ring.buff.moved, (ring.buff.softErrorMap ||| ring.buff.hardErrorMap).getLsbD entry.1 = false →
    ∀ i < ftSectorSize, ring.virtual (entry.2 - ring.buff.dmaAddress + i) = tape ring.buff.segmentId entry.1 i

/-- The place of a sector in the deblock buffer, behind the good sectors in front of it. -/
def placeOf (setting : Isr.Setting) (segment sector : ℕ) : ℕ :=
  Isr.goodBelow (setting.badSectorEntry segment) sector * ftSectorSize

/-- If the buffers that are found have the sectors of a tape, a segment of the data that is held is the one of the
tape: each sector that was moved to its place and is not flagged, as it was or as the error correction left it. -/
theorem Holds.sectors {controller : Controller} {setting : Isr.Setting} {firstDataSegment segment size : ℕ}
    {found : List (RingBuffer setting)} {memory : ℕ → Byte} {tape : ℕ → ℕ → ℕ → Byte}
    (h : Holds controller firstDataSegment found memory segment size) (hdata : firstDataSegment ≤ segment)
    (hcarries : ∀ ring ∈ found, ring.Carries tape) :
    ∃ ring ∈ found, ring.buff.segmentId = segment ∧ ∃ before : ℕ → Byte,
      ((∀ i < size, memory i = before i) ∨ ∀ i < size, memory i = (ftapeEccCorrect controller ring before).1 i) ∧
      ∀ sector, (sector, ring.buff.dmaAddress + placeOf setting segment sector) ∈ ring.buff.moved →
        (ring.buff.softErrorMap ||| ring.buff.hardErrorMap).getLsbD sector = false →
        ∀ i < ftSectorSize, placeOf setting segment sector + i < ring.buff.bytes →
          before (placeOf setting segment sector + i) = tape segment sector i := by
  cases h with
  | blank hfront => exact absurd hfront (Nat.not_lt.mpr hdata)
  | read ring hfound _ _ hsegment hdelivers =>
    obtain ⟨-, before, hbefore, hmemory⟩ := hdelivers
    refine ⟨ring, hfound, hsegment, before, hmemory, fun sector hmoved hgood i hi hbytes => ?_⟩
    have hsector := hcarries ring hfound _ hmoved hgood i hi
    rw [Nat.add_sub_cancel_left, hsegment] at hsector
    rw [hbefore _ hbytes, hsector]

section Sizes

variable {controller : Controller} {setting : Isr.Setting} {ring : RingBuffer setting} {memory memory' : ℕ → Byte}

/-- The byte count of a segment, without its error correction, is the size the bad sector map tells. -/
theorem bytes_of_measured {map : SectorMap} {buff : Isr.Buffer} (h : buff.Measured map) (hkept : buff.deleted = false) :
    (buff.bytes / ftSectorSize - 3) * ftSectorSize = segDataSz map ∧
      buff.bytes - 3 * ftSectorSize = segDataSz map ∧
      (0 < segDataSz map → segDataSz map + ftEccSectors * ftSectorSize = buff.bytes) := by
  rw [segDataSz_eq]
  by_cases hfake : Isr.drivenMap map = Isr.fakeSegment
  · have hgood := Isr.goodBelow_faked hfake
    have hbytes := h.faked hfake
    rw [Isr.goodBelow_whole] at hgood
    have hones : 29 - countOnes map = 0 := by omega
    rw [hones]
    simp only [ftSectorSize] at *
    omega
  · have hbytes := h.whole hkept hfake
    rw [hbytes]
    simp only [ftSectorSize, ftEccSectors]
    omega

/-- What a copy to the front of a memory leaves there. -/
theorem blit_front {src : ℕ → Byte} {n i : ℕ} (h : i < n) : blit memory 0 src 0 n i = src i := by
  rw [blit, if_pos ⟨Nat.zero_le _, by omega⟩]
  rfl

/-- The pieces that are polled cover the whole. -/
theorem le_polled (size : ℕ) : size ≤ polled size := by
  rw [polled]
  omega

/-- The error correction keeps the number of sectors. -/
theorem ftapeEccCorrectData_blocks (t : Ecc.Target) (mseg : Ecc.MemorySegment) :
    (Ecc.ftapeEccCorrectData t mseg).2.blocks = mseg.blocks := by
  rw [Ecc.ftapeEccCorrectData]
  dsimp only
  split
  · rfl
  · split
    · rfl
    · split
      · rfl
      · split
        · rfl
        · rfl

/-- The size `ftape_ecc_correct()` returns. -/
theorem ftapeEccCorrect_ok {size : ℕ} (h : ftapeEccCorrect controller ring memory = (memory', .ok size)) :
    size = (ring.buff.bytes / ftSectorSize - 3) * ftSectorSize := by
  rw [ftapeEccCorrect] at h
  split at h
  · rename_i hempty
    cases h
    rw [Nat.sub_eq_zero_of_le hempty, Nat.zero_mul]
  · dsimp only at h
    split at h
    · cases h
      rw [ftapeEccCorrectData_blocks]
    · cases h

/-- All bytes of a buffer are at the front of a memory. -/
theorem RingBuffer.Delivers.of_front {n size : ℕ} (hsize : size ≤ ring.buff.bytes) (hn : size ≤ n) :
    ring.Delivers controller (blit memory 0 ring.virtual 0 n) size :=
  ⟨hsize, ring.virtual, fun _ _ => rfl, Or.inl fun _ hi => blit_front (hi.trans_le hn)⟩

/-- All bytes of a buffer are at the front of a memory that the error correction works on. -/
theorem RingBuffer.Delivers.of_corrected {size : ℕ} (hsize : size ≤ ring.buff.bytes)
    (hbefore : ∀ i < ring.buff.bytes, memory i = ring.virtual i) :
    ring.Delivers controller (ftapeEccCorrect controller ring memory).1 size :=
  ⟨hsize, memory, hbefore, Or.inr fun _ _ => rfl⟩

/-- What a driver leaves in the deblock buffer, and the size it returns. -/
theorem correctAndCopy_ok {rawImage : Bool} {map : SectorMap} {size : ℕ} (hmeasured : ring.buff.Measured map)
    (hkept : ring.buff.deleted = false)
    (h : correctAndCopy controller rawImage ring memory = (memory', .ok size)) :
    size = segDataSz map ∧
      ring.Delivers controller memory'
        (if 0 < size ∧ rawImage then size + ftEccSectors * ftSectorSize else size) := by
  obtain ⟨hblocks, hbytes, hwhole⟩ := bytes_of_measured hmeasured hkept
  -- with its ECC sectors or without, the segment is no longer than what was transferred
  have hfits : (if 0 < segDataSz map ∧ rawImage then segDataSz map + ftEccSectors * ftSectorSize
      else segDataSz map) ≤ ring.buff.bytes := by
    split
    · rename_i hraw
      exact (hwhole hraw.1).le
    · omega
  have hcorrected : ∀ {before : ℕ → Byte}, (∀ i < ring.buff.bytes, before i = ring.virtual i) →
      ftapeEccCorrect controller ring before = (memory', .ok size) →
      size = segDataSz map ∧ ring.Delivers controller memory'
        (if 0 < size ∧ rawImage then size + ftEccSectors * ftSectorSize else size) := by
    intro before hbefore hcorrect
    have hsize : size = segDataSz map := (ftapeEccCorrect_ok hcorrect).trans hblocks
    have hmemory : memory' = (ftapeEccCorrect controller ring before).1 := by rw [hcorrect]
    rw [hsize, hmemory]
    exact ⟨rfl, .of_corrected hfits hbefore⟩
  rw [correctAndCopy] at h
  cases hdriver : controller.driver with
  | internal =>
    rw [hdriver] at h
    dsimp only at h
    cases hcorrect : ftapeEccCorrect controller ring ring.virtual with
    | mk corrected result =>
      rw [hcorrect] at h
      cases result with
      | error errno => cases h
      | ok size' =>
        cases h
        exact hcorrected (fun _ _ => rfl) hcorrect
  | trakker =>
    rw [hdriver] at h
    exact hcorrected (fun i hi => blit_front hi) h
  | bpck =>
    rw [hdriver] at h
    dsimp only at h
    by_cases hempty : ring.buff.bytes ≤ 3 * ftSectorSize
    · rw [if_pos hempty] at h
      cases h
      have hnone : segDataSz map = 0 := by omega
      exact ⟨hnone.symm, ⟨Nat.zero_le _, ring.virtual, fun _ _ => rfl, Or.inl fun i hi => absurd hi (Nat.not_lt_zero i)⟩⟩
    · rw [if_neg hempty] at h
      cases hread : (if ring.firstRead = .crcError then ring.secondRead else ring.firstRead) with
      | noError =>
        rw [hread, bpckCorrectAndCopy, Prod.mk.injEq, Except.ok.injEq] at h
        obtain ⟨rfl, rfl⟩ := h
        rw [hbytes]
        refine ⟨rfl, .of_front hfits (le_trans ?_ (le_polled _))⟩
        by_cases hraw : rawImage = true
        · rwa [if_pos hraw]
        · rw [if_neg hraw, if_neg fun hboth => hraw hboth.2]
          exact hbytes.ge
      | eccError =>
        rw [hread, bpckCorrectAndCopy] at h
        cases hcorrect : ftapeEccCorrect controller ring
            (blit memory 0 ring.virtual 0 (polled ring.buff.bytes)) with
        | mk corrected result =>
          rw [hcorrect] at h
          cases result with
          | error errno => cases h
          | ok size' =>
            dsimp only at h
            rw [Prod.mk.injEq, Except.ok.injEq] at h
            obtain ⟨rfl, rfl⟩ := h
            have hsize : size' = ring.buff.bytes - 3 * ftSectorSize :=
              (ftapeEccCorrect_ok hcorrect).trans (hblocks.trans hbytes.symm)
            rw [hsize] at hcorrect
            exact hcorrected (fun i hi => blit_front (hi.trans_le (le_polled _))) hcorrect
      | crcError =>
        rw [hread, bpckCorrectAndCopy] at h
        cases h

end Sizes

section Reading

variable {controller : Controller} {setting : Isr.Setting} {firstDataSegment segment size : ℕ} {rawImage : Bool}
  {memory memory' : ℕ → Byte} {found : List (RingBuffer setting)}

/-- What a read leaves: the size of the segment, and the deblock buffer with its bytes. -/
structure ReadsWell (controller : Controller) {setting : Isr.Setting} (firstDataSegment : ℕ) (rawImage : Bool)
    (found : List (RingBuffer setting)) (segment : ℕ) (memory : ℕ → Byte) (size : ℕ) : Prop where
  payload : size = segDataSz (setting.badSectorEntry segment)
  holds : Holds controller firstDataSegment found memory segment
    (if 0 < size ∧ rawImage then size + ftEccSectors * ftSectorSize else size)

/-- A segment that is found among the buffers that are done. -/
theorem searchTails_found {tails : List (TailLook setting)} {retry : ℕ} (hfound : ∀ tail ∈ tails, tail.ring ∈ found)
    (h : searchTails controller rawImage segment memory retry tails = (memory', .found size)) :
    ReadsWell controller firstDataSegment rawImage found segment memory' size := by
  induction tails generalizing memory retry with
  | nil => cases h
  | cons tail tails ih =>
    have hothers : ∀ other ∈ tails, other.ring ∈ found :=
      fun other hother => hfound other (List.mem_cons_of_mem _ hother)
    rw [searchTails] at h
    by_cases hdone : tail.ring.buff.status = .done
    · rw [if_neg (not_not.mpr hdone)] at h
      by_cases hsignal : tail.signal = true
      · rw [if_pos hsignal] at h
        cases h
      rw [if_neg hsignal] at h
      by_cases hsegment : tail.ring.buff.segmentId = segment
      · rw [if_pos hsegment] at h
        by_cases hdeleted : tail.ring.buff.deleted = true
        · rw [if_pos hdeleted] at h
          cases h
        rw [if_neg hdeleted] at h
        have hkept := Bool.eq_false_of_not_eq_true hdeleted
        have hmeasured := tail.ring.zapped.run_measured tail.ring.reports tail.ring.mem hdone
        cases hcopy : correctAndCopy controller rawImage tail.ring memory with
        | mk copied result =>
          rw [hcopy] at h
          cases result with
          | ok size' =>
            cases h
            obtain ⟨hsize, hdelivers⟩ := correctAndCopy_ok hmeasured hkept hcopy
            rw [hsegment] at hsize
            exact ⟨hsize, .read tail.ring (hfound tail List.mem_cons_self) hdone hkept hsegment hdelivers⟩
          | error errno =>
            dsimp only at h
            by_cases hagain : errno ≠ .eagain
            · rw [if_pos hagain] at h
              cases h
            · rw [if_neg hagain] at h
              exact ih hothers h
      · rw [if_neg hsegment] at h
        exact ih hothers h
    · rw [if_pos hdone] at h
      cases h

/-- Each round ends with an error, or leaves the segment, or goes on. -/
theorem readRoundsFrom_ok {rounds : List (ReadRound setting)} {retry : ℕ} (hfound : ringsOf rounds ⊆ found)
    (h : readRoundsFrom controller rawImage segment memory retry rounds = (memory', .ok size)) :
    ReadsWell controller firstDataSegment rawImage found segment memory' size := by
  induction rounds generalizing memory retry with
  | nil => cases h
  | cons round rounds ih =>
    rw [ringsOf, List.flatMap_cons, List.append_subset] at hfound
    rw [readRoundsFrom] at h
    by_cases hsignal : round.signal = true
    · rw [if_pos hsignal] at h
      cases h
    rw [if_neg hsignal] at h
    cases hsearch : searchTails controller rawImage segment memory retry round.tails with
    | mk searched result =>
      rw [hsearch] at h
      cases result with
      | exit errno => cases h
      | found size' =>
        dsimp only at h
        cases hstop : round.stop with
        | some errno =>
          rw [hstop] at h
          cases h
        | none =>
          rw [hstop] at h
          cases h
          exact searchTails_found (fun tail htail => hfound.1 (List.mem_map_of_mem htail)) hsearch
      | missing retry' =>
        dsimp only at h
        cases hstop : (round.wait <|> round.stop) with
        | some errno =>
          rw [hstop] at h
          cases h
        | none =>
          rw [hstop] at h
          dsimp only at h
          by_cases hretries : setting.ftSoftRetries < retry'
          · rw [if_pos hretries] at h
            cases h
          rw [if_neg hretries] at h
          cases hstart : round.start with
          | some errno =>
            rw [hstart] at h
            cases h
          | none =>
            rw [hstart] at h
            exact ih hfound.2 h

/-- `ftape_read_segment()` returns the size of the payload of the segment, and the deblock buffer holds the segment,
with its ECC sectors if they are asked for. -/
theorem ftapeReadSegment_ok {abort : Option Errno} {rounds : List (ReadRound setting)}
    (h : ftapeReadSegment controller rawImage segment memory abort rounds = (memory', .ok size)) :
    ReadsWell controller firstDataSegment rawImage (ringsOf rounds) segment memory' size := by
  cases abort with
  | some errno => cases h
  | none => exact readRoundsFrom_ok (List.Subset.refl _) h

end Reading

/-- The tag of the deblock buffer is right: a segment that is named is held, in the size the user is shown. -/
structure Fetcher.InStep (controller : Controller) {setting : Isr.Setting} (firstDataSegment : ℕ)
    (found : List (RingBuffer setting)) (zftape : Fetcher) : Prop where
  passEcc : zftape.passEcc = zftape.rawImage
  read : ∀ segment, zftape.deblockSegment = some segment → zftape.headerRead = true
  holds : ∀ segment, zftape.deblockSegment = some segment →
    Holds controller firstDataSegment found zftape.memory segment (zftape.zftGetSegSz setting segment)

section Steps

variable {controller : Controller} {setting : Isr.Setting} {firstDataSegment : ℕ} {zftape : Fetcher}
  {found : List (RingBuffer setting)}

/-- Nothing is named. -/
theorem Fetcher.InStep.of_none (hpass : zftape.passEcc = zftape.rawImage) (hnone : zftape.deblockSegment = none) :
    zftape.InStep controller firstDataSegment found where
  passEcc := hpass
  read := by
    intro segment hnamed
    rw [hnone] at hnamed
    cases hnamed
  holds := by
    intro segment hnamed
    rw [hnone] at hnamed
    cases hnamed

/-- A segment is named that is held. -/
theorem Fetcher.InStep.of_holds {segment : ℕ} (hpass : zftape.passEcc = zftape.rawImage)
    (hnamed : zftape.deblockSegment = some segment) (hread : zftape.headerRead = true)
    (hholds : Holds controller firstDataSegment found zftape.memory segment (zftape.zftGetSegSz setting segment)) :
    zftape.InStep controller firstDataSegment found where
  passEcc := hpass
  read := fun _ _ => hread
  holds := by
    intro other hother
    obtain rfl : segment = other := Option.some.inj (hnamed.symm.trans hother)
    exact hholds

/-- What fetching leaves alone. -/
structure Fetcher.SameMode (zftape zftape' : Fetcher) : Prop where
  rawImage : zftape'.rawImage = zftape.rawImage
  passEcc : zftape'.passEcc = zftape.passEcc
  headerRead : zftape'.headerRead = zftape.headerRead

/-- What is shown of a segment depends on the mode. -/
theorem Fetcher.SameMode.zftGetSegSz {zftape' : Fetcher} (h : zftape.SameMode zftape') (segment : ℕ) :
    zftape'.zftGetSegSz setting segment = zftape.zftGetSegSz setting segment := by
  rw [Fetcher.zftGetSegSz, Fetcher.zftGetSegSz, h.rawImage]

/-- A segment that is not in the deblock buffer cannot be fetched, or is fetched in its size; then it is named if it
is held, or not at all. -/
structure Fetcher.Fetched (controller : Controller) {setting : Isr.Setting} (firstDataSegment : ℕ)
    (found : List (RingBuffer setting)) (zftape : Fetcher) (segment : ℕ) (zftape' : Fetcher)
    (result : Except Errno ℕ) : Prop where
  mode : zftape.SameMode zftape'
  named : zftape'.deblockSegment = none ∨ zftape'.deblockSegment = some segment ∧
    Holds controller firstDataSegment found zftape'.memory segment (zftape'.zftGetSegSz setting segment)
  size : ∀ size, result = .ok size → size = zftape.zftGetSegSz setting segment
  failed : ∀ errno, result = .error errno → zftape'.deblockSegment = none

/-- A segment that cannot be fetched. -/
theorem Fetcher.Fetched.of_error {zftape' : Fetcher} {segment : ℕ} (errno : Errno) (hmode : zftape.SameMode zftape')
    (hnone : zftape'.deblockSegment = none) :
    zftape.Fetched controller firstDataSegment found segment zftape' (.error errno) :=
  ⟨hmode, Or.inl hnone, nofun, fun _ _ => hnone⟩

/-- A segment that is fetched. -/
theorem Fetcher.Fetched.of_ok {zftape' : Fetcher} {segment size : ℕ} (hmode : zftape.SameMode zftape')
    (hsize : size = zftape.zftGetSegSz setting segment)
    (hnamed : zftape'.deblockSegment = none ∨ zftape'.deblockSegment = some segment ∧
      Holds controller firstDataSegment found zftape'.memory segment size) :
    zftape.Fetched controller firstDataSegment found segment zftape' (.ok size) := by
  refine ⟨hmode, ?_, ?_, nofun⟩
  · rwa [hmode.zftGetSegSz, ← hsize]
  · rintro _ ⟨⟩
    exact hsize

/-- A fetch after a change that is not one of the mode. -/
theorem Fetcher.SameMode.fetched {released zftape' : Fetcher} {segment : ℕ} {result : Except Errno ℕ}
    (hmode : zftape.SameMode released)
    (h : released.Fetched controller firstDataSegment found segment zftape' result) :
    zftape.Fetched controller firstDataSegment found segment zftape' result where
  mode :=
    ⟨h.mode.rawImage.trans hmode.rawImage, h.mode.passEcc.trans hmode.passEcc,
      h.mode.headerRead.trans hmode.headerRead⟩
  named := h.named
  size := fun size hok => (h.size size hok).trans (hmode.zftGetSegSz segment)
  failed := h.failed

/-- A segment in front of the data is filled with zeroes, as far as there is anything to show. -/
theorem Fetcher.zftBlankSegment_fetched (hnone : zftape.deblockSegment = none) {segment : ℕ}
    (hfront : segment < firstDataSegment) {zftape' : Fetcher} {result : Except Errno ℕ}
    (h : (match zftape.zftBlankSegment controller setting segment with
      | (zftape, .error errno) => (zftape, .error errno)
      | (zftape, .ok segSz) =>
        (if 0 < segSz then { zftape with deblockSegment := some segment } else zftape, .ok segSz)) =
      (zftape', result)) :
    zftape.Fetched controller firstDataSegment found segment zftape' result := by
  rw [Fetcher.zftBlankSegment] at h
  by_cases hempty : zftape.zftGetSegSz setting segment = 0
  · rw [if_pos hempty] at h
    cases h
    exact .of_ok ⟨rfl, rfl, rfl⟩ hempty.symm (Or.inl hnone)
  rw [if_neg hempty] at h
  by_cases hbuffer : controller.hasDeblockBuffer = false
  · rw [if_pos hbuffer] at h
    cases h
    exact .of_error .eio ⟨rfl, rfl, rfl⟩ hnone
  · rw [if_neg hbuffer] at h
    dsimp only at h
    rw [if_pos (Nat.pos_of_ne_zero hempty)] at h
    cases h
    refine .of_ok ⟨rfl, rfl, rfl⟩ rfl (Or.inr ⟨rfl, .blank hfront fun i hi => ?_⟩)
    dsimp only
    rw [blit_front hi]

/-- `zft_fetch_segment()` of a segment that is not in the deblock buffer. -/
theorem Fetcher.zftFetchSegment_fetched (hpass : zftape.passEcc = zftape.rawImage) {segment : ℕ}
    (hother : zftape.deblockSegment ≠ some segment) (abort : Option Errno) (rounds : List (ReadRound setting)) :
    zftape.Fetched controller firstDataSegment (ringsOf rounds) segment
      (zftape.zftFetchSegment controller firstDataSegment segment abort rounds).1
      (zftape.zftFetchSegment controller firstDataSegment segment abort rounds).2 := by
  generalize h : zftape.zftFetchSegment controller firstDataSegment segment abort rounds = fetched
  obtain ⟨zftape', result⟩ := fetched
  rw [Fetcher.zftFetchSegment, if_neg hother] at h
  dsimp only [Fetcher.zftReleaseDeblockBuffer] at h
  cases hread : ftapeReadSegment controller zftape.passEcc segment zftape.memory abort rounds with
  | mk memory answer =>
    rw [hread] at h
    have hmode : zftape.SameMode
        { zftape with bufLenRd := 0, deblockSegment := none, deblockBuf := false, memory := memory } :=
      ⟨rfl, rfl, rfl⟩
    cases answer with
    | error errno =>
      dsimp only at h
      by_cases hgiven : errno = .eintr ∨ zftape.rawImage = false ∨ firstDataSegment ≤ segment
      · rw [if_pos hgiven] at h
        cases h
        exact .of_error errno hmode rfl
      · rw [if_neg hgiven] at h
        have hfront : segment < firstDataSegment := by
          by_contra hbehind
          exact hgiven (Or.inr (Or.inr (Nat.le_of_not_lt hbehind)))
        exact hmode.fetched (Fetcher.zftBlankSegment_fetched rfl hfront h)
    | ok segSz =>
      dsimp only at h
      rw [hpass] at hread
      have hreads : ReadsWell controller firstDataSegment zftape.rawImage (ringsOf rounds) segment memory segSz :=
        ftapeReadSegment_ok hread
      by_cases hbuffer : controller.hasDeblockBuffer = false
      · rw [if_pos hbuffer] at h
        cases h
        exact .of_error .eio ⟨rfl, rfl, rfl⟩ rfl
      · rw [if_neg hbuffer] at h
        cases h
        refine .of_ok ⟨rfl, rfl, rfl⟩ ?_ (Or.inr ⟨rfl, hreads.holds⟩)
        rw [hreads.payload, Fetcher.zftGetSegSz]

/-- `zft_fetch_segment()` keeps the tag right, once the header segments are read. -/
theorem Fetcher.InStep.fetch (h : zftape.InStep controller firstDataSegment found)
    (hread : zftape.headerRead = true) (segment : ℕ) (abort : Option Errno) (rounds : List (ReadRound setting)) :
    (zftape.zftFetchSegment controller firstDataSegment segment abort rounds).1.InStep controller firstDataSegment
      (zftape.looksAt found segment rounds) := by
  rw [Fetcher.looksAt]
  by_cases hnamed : zftape.deblockSegment = some segment
  · rw [Fetcher.zftFetchSegment, if_pos hnamed, if_pos hnamed]
    exact h
  · rw [if_neg hnamed]
    have hfetched := @Fetcher.zftFetchSegment_fetched controller setting firstDataSegment zftape h.passEcc segment
      hnamed abort rounds
    have hpass := hfetched.mode.passEcc.trans (h.passEcc.trans hfetched.mode.rawImage.symm)
    cases hfetched.named with
    | inl hnone => exact .of_none hpass hnone
    | inr hholds => exact .of_holds hpass hholds.1 (hfetched.mode.headerRead.trans hread) hholds.2

/-- A release names nothing. -/
theorem Fetcher.InStep.release (h : zftape.InStep controller firstDataSegment found) :
    zftape.zftReleaseDeblockBuffer.InStep controller firstDataSegment found :=
  .of_none h.passEcc rfl

/-- A change of the mode names nothing, unless nothing changes. -/
theorem Fetcher.InStep.updateRawImage (h : zftape.InStep controller firstDataSegment found) (rawImage : Bool) :
    (zftape.zftUpdateRawImage rawImage).InStep controller firstDataSegment found := by
  rw [Fetcher.zftUpdateRawImage]
  dsimp only
  by_cases hsame : rawImage = zftape.rawImage
  · rw [if_pos hsame]
    exact ⟨rfl, h.read, h.holds⟩
  rw [if_neg hsame]
  by_cases hread : zftape.headerRead = true
  · rw [if_pos hread]
    exact .of_none rfl rfl
  · rw [if_neg hread]
    refine .of_none rfl ?_
    dsimp only
    -- before the header segments are read nothing is fetched
    cases hnamed : zftape.deblockSegment with
    | none => rfl
    | some segment => exact absurd (h.read segment hnamed) hread

/-- Each event keeps the tag right. -/
theorem Fetcher.InStep.step (h : zftape.InStep controller firstDataSegment found) (event : FetchEvent setting) :
    (zftape.step controller firstDataSegment event).InStep controller firstDataSegment
      (zftape.stepLooked found event) := by
  cases event with
  | fetch segment abort rounds =>
    rw [Fetcher.step, Fetcher.stepLooked]
    split
    · rename_i hread
      exact h.fetch hread segment abort rounds
    · exact h
  | release => exact h.release
  | updateRawImage rawImage => exact h.updateRawImage rawImage
  | readHeader memory ok => exact .of_none h.passEcc rfl

/-- So does a run. -/
theorem Fetcher.InStep.run (h : zftape.InStep controller firstDataSegment found) (events : List (FetchEvent setting)) :
    (zftape.run controller firstDataSegment events).InStep controller firstDataSegment
      (zftape.looked controller firstDataSegment found events) := by
  induction events generalizing zftape found with
  | nil => exact h
  | cons event events ih => exact ih (h.step event)

/-- After any sequence of fetches, releases and changes of the mode, a segment that is named is held in its full size
as the last read from the tape found it, a fetch of any segment returns the size the bad sector map tells, and a fetch
that fails leaves no segment named. -/
theorem Fetcher.run_fetches_in_step (hpass : zftape.passEcc = zftape.rawImage) (hnone : zftape.deblockSegment = none)
    (events : List (FetchEvent setting)) :
    let reached := zftape.run controller firstDataSegment events
    let looked := zftape.looked controller firstDataSegment [] events
    (∀ segment, reached.deblockSegment = some segment →
      Holds controller firstDataSegment looked reached.memory segment (reached.zftGetSegSz setting segment)) ∧
    ∀ segment abort, ∀ rounds : List (ReadRound setting),
      let fetched := reached.zftFetchSegment controller firstDataSegment segment abort rounds
      (∀ size, fetched.2 = .ok size → size = reached.zftGetSegSz setting segment) ∧
        (∀ errno, fetched.2 = .error errno → fetched.1.deblockSegment = none) ∧
        ∀ other, fetched.1.deblockSegment = some other → other = segment ∧
          Holds controller firstDataSegment (reached.looksAt looked segment rounds) fetched.1.memory segment
            (reached.zftGetSegSz setting segment) := by
  have hreached : (zftape.run controller firstDataSegment events).InStep controller firstDataSegment
      (zftape.looked controller firstDataSegment [] events) :=
    (Fetcher.InStep.of_none hpass hnone).run events
  refine ⟨hreached.holds, fun segment abort rounds => ?_⟩
  generalize zftape.run controller firstDataSegment events = reached at hreached
  generalize zftape.looked controller firstDataSegment [] events = looked at hreached
  rw [Fetcher.looksAt]
  by_cases hnamed : reached.deblockSegment = some segment
  · rw [Fetcher.zftFetchSegment, if_pos hnamed, if_pos hnamed]
    refine ⟨?_, nofun, fun other hother => ?_⟩
    · rintro _ ⟨⟩
      rfl
    · obtain rfl : segment = other := Option.some.inj (hnamed.symm.trans hother)
      exact ⟨rfl, hreached.holds _ hnamed⟩
  · rw [if_neg hnamed]
    have hfetched := @Fetcher.zftFetchSegment_fetched controller setting firstDataSegment reached hreached.passEcc
      segment hnamed abort rounds
    refine ⟨hfetched.size, hfetched.failed, fun other hother => ?_⟩
    cases hfetched.named with
    | inl hnone =>
      rw [hnone] at hother
      cases hother
    | inr hholds =>
      obtain rfl : segment = other := Option.some.inj (hholds.1.symm.trans hother)
      rw [← hfetched.mode.zftGetSegSz]
      exact ⟨rfl, hholds.2⟩

/-- A tape whose bytes tell the segment, the sector and the place in the sector. -/
def tellingTape (segment sector i : ℕ) : Byte := (segment + 8 * sector + i : ℕ)

/-- Segment 5 of the spotted tape as it was read in the ring, with a checksum error when it was first transferred. Its
second and its third sector are bad. -/
def spottedRead : RingBuffer Isr.spottedTape where
  runner := Isr.emptyRing
  events := Isr.readWithRetry
  buff := (Isr.emptyRing.run Isr.spottedTape Isr.readWithRetry).ring.get ⟨1, by decide +kernel⟩
  virtual := fun i => tellingTape 5 (if i < ftSectorSize then 0 else i / ftSectorSize + 2) (i % ftSectorSize)
  firstRead := .crcError
  secondRead := .noError
  zapped := by decide
  reports := by decide +kernel
  mem := List.get_mem _ _

/-- A tape that is shown as a raw image, nothing of which was read. -/
def rawFetcher : Fetcher := ⟨true, true, false, 0, false, none, fun _ => 0⟩

/-- The header is read, a segment in front of the data cannot be read, and segment 5 is found in the ring. -/
def spottedFetches : List (FetchEvent Isr.spottedTape) :=
  [.readHeader (fun _ => 0) true, .fetch 1 (some .eio) [],
    .fetch 5 none [⟨false, [⟨false, spottedRead⟩], none, none, none⟩]]

theorem Fetcher.run_fetches_in_step_spotted :
    let controller : Controller := ⟨.bpck, ⟨8, false, Or.inr rfl⟩, true⟩
    let reached := rawFetcher.run controller 3 spottedFetches
    reached.deblockSegment = some 5 ∧
      Holds controller 3 [spottedRead] reached.memory 5 (reached.zftGetSegSz Isr.spottedTape 5) := by
  intro controller reached
  have hnamed : reached.deblockSegment = some 5 := by decide +kernel
  -- the last of the fetches goes to the tape
  have hread : (rawFetcher.run controller 3 (spottedFetches.take 2)).headerRead = true := by decide +kernel
  have hother : (rawFetcher.run controller 3 (spottedFetches.take 2)).deblockSegment ≠ some 5 := by decide +kernel
  have hlooked : rawFetcher.looked controller 3 [] spottedFetches = [spottedRead] :=
    (if_pos hread).trans (if_neg hother)
  have hstep := @Fetcher.run_fetches_in_step controller Isr.spottedTape 3 rawFetcher rfl rfl spottedFetches
  rw [hlooked] at hstep
  exact ⟨hnamed, hstep.1 5 hnamed⟩

/-- The buffer has the sectors of the tape, and so has the deblock buffer: the fourth sector is the second good one. -/
example : (∀ entry ∈ spottedRead.buff.moved,
      (spottedRead.buff.softErrorMap ||| spottedRead.buff.hardErrorMap).getLsbD entry.1 = false →
        spottedRead.virtual (entry.2 - spottedRead.buff.dmaAddress + 7) = tellingTape 5 entry.1 7) ∧
    (rawFetcher.run ⟨.bpck, ⟨8, false, Or.inr rfl⟩, true⟩ 3 spottedFetches).memory (ftSectorSize + 7) =
      tellingTape 5 3 7 := by
  decide +kernel

end Steps

section Refinement

variable {controller : Controller} {setting : Isr.Setting} {firstDataSegment : ℕ} {zftape : Fetcher}

/-- What the reader of the stream takes for the deblock buffer: the tag, the mode, and as many bytes as it is shown. -/
structure Reader.Shows (setting : Isr.Setting) (firstDataSegment : ℕ) (reader : Reader Byte) (zftape : Fetcher) :
    Prop where
  badSectorMap : reader.badSectorMap = setting.badSectorEntry
  firstDataSegment : reader.firstDataSegment = firstDataSegment
  rawImage : reader.rawImage = zftape.rawImage
  deblockSegment : reader.deblockSegment = zftape.deblockSegment
  bytes : ∀ segment, zftape.deblockSegment = some segment →
    ∀ i < zftape.zftGetSegSz setting segment, reader.deblockBuffer i = zftape.memory i

/-- The reader is shown segments in the size they are fetched in. -/
theorem Reader.Shows.zftGetSegSz {reader : Reader Byte} (h : reader.Shows setting firstDataSegment zftape)
    (segment : ℕ) : reader.zftGetSegSz segment = zftape.zftGetSegSz setting segment := by
  rw [Reader.zftGetSegSz, Fetcher.zftGetSegSz, h.badSectorMap, h.rawImage]

/-- The read from the tape as the reader of the stream sees it: the deblock buffer, or an error. -/
def readAnswer (answer : (ℕ → Byte) × Except Errno ℕ) : Except Errno (ℕ → Byte) :=
  answer.2.map fun _ => answer.1

/-- Fetching does what the reader of the stream takes it for: it returns the same, and shows the same segment. -/
theorem Reader.Shows.zftFetchSegment {reader : Reader Byte} (h : reader.Shows setting firstDataSegment zftape)
    (hpass : zftape.passEcc = zftape.rawImage) (hbuffer : controller.hasDeblockBuffer = true) {kernel : Kernel Byte}
    (hzero : kernel.zero = 0) {segment : ℕ} {abort : Option Errno} {rounds : List (ReadRound setting)}
    (hanswer : reader.readSegment segment =
      readAnswer (ftapeReadSegment controller zftape.passEcc segment zftape.memory abort rounds)) :
    (reader.zftFetchSegment kernel segment).2 =
        (zftape.zftFetchSegment controller firstDataSegment segment abort rounds).2 ∧
      (reader.zftFetchSegment kernel segment).1.Shows setting firstDataSegment
        (zftape.zftFetchSegment controller firstDataSegment segment abort rounds).1 := by
  rw [Reader.zftFetchSegment, Fetcher.zftFetchSegment, h.deblockSegment]
  by_cases hnamed : zftape.deblockSegment = some segment
  · rw [if_pos hnamed, if_pos hnamed, h.zftGetSegSz segment]
    exact ⟨rfl, h⟩
  rw [if_neg hnamed, if_neg hnamed]
  dsimp only [Reader.zftReleaseDeblockBuffer, Fetcher.zftReleaseDeblockBuffer]
  rw [hanswer]
  cases hread : ftapeReadSegment controller zftape.passEcc segment zftape.memory abort rounds with
  | mk memory answer =>
    have hreleased : Reader.Shows setting firstDataSegment { reader with bufLenRd := 0, deblockSegment := none }
        { zftape with bufLenRd := 0, deblockSegment := none, deblockBuf := false, memory := memory } :=
      ⟨h.badSectorMap, h.firstDataSegment, h.rawImage, rfl, nofun⟩
    have hsize := hreleased.zftGetSegSz segment
    cases answer with
    | error errno =>
      dsimp only [readAnswer, Except.map]
      have hgiven : (errno = .eintr ∨ reader.rawImage = false ∨ reader.firstDataSegment ≤ segment) ↔
          (errno = .eintr ∨ zftape.rawImage = false ∨ firstDataSegment ≤ segment) := by
        rw [h.rawImage, h.firstDataSegment]
      by_cases hgives : errno = .eintr ∨ zftape.rawImage = false ∨ firstDataSegment ≤ segment
      · rw [if_pos (hgiven.mpr hgives), if_pos hgives]
        exact ⟨rfl, hreleased⟩
      rw [if_neg fun hgives' => hgives (hgiven.mp hgives'), if_neg hgives, Fetcher.zftBlankSegment]
      by_cases hempty : Fetcher.zftGetSegSz setting
          { zftape with bufLenRd := 0, deblockSegment := none, deblockBuf := false, memory := memory } segment = 0
      · rw [if_pos (hsize.trans hempty), if_pos hempty]
        exact ⟨rfl, hreleased⟩
      · rw [if_neg fun hempty' => hempty (hsize.symm.trans hempty'), if_neg hempty,
          if_neg (by rw [hbuffer]; exact Bool.noConfusion)]
        dsimp only
        rw [if_pos (Nat.pos_of_ne_zero hempty), hsize]
        refine ⟨rfl, h.badSectorMap, h.firstDataSegment, h.rawImage, rfl, ?_⟩
        rintro _ ⟨⟩ i hi
        replace hi : i < Fetcher.zftGetSegSz setting
            { zftape with bufLenRd := 0, deblockSegment := none, deblockBuf := false, memory := memory } segment := hi
        dsimp only
        rw [blit_front hi, blit_front hi, hzero]
    | ok segSz =>
      dsimp only [readAnswer, Except.map]
      rw [hpass] at hread
      have hreads : ReadsWell controller firstDataSegment zftape.rawImage (ringsOf rounds) segment memory segSz :=
        ftapeReadSegment_ok hread
      rw [if_neg (by rw [hbuffer]; exact Bool.noConfusion), hsize, hreads.payload]
      exact ⟨rfl, h.badSectorMap, h.firstDataSegment, h.rawImage, rfl, fun _ _ _ _ => rfl⟩

end Refinement

end Ftape.Zftape
