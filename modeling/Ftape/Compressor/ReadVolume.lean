import Ftape.Compressor.Progress
import Ftape.Zftape.Residue

/-!
# Reading a compressed volume to its end

The loop of `_zft_read()` hands the deblock buffer to `zftc_read()` and moves on by the bytes that were taken. It reads
the next segment when none are left. If the bytes that were taken are counted short, the loop does not get to the end
of the segment.
-/

namespace Ftape.Compressor

open Ftape.Algebra Ftape.Volume Ftape.Write Ftape.Zftape

/-- What a round of the loop of `_zft_read()` meets: a signal that is pending or none, the memory that an allocation
finds, and the places of the user's buffer that cannot be written. -/
structure Surroundings where
  signal : Bool
  memory : Option ((ℕ → Byte) × (ℕ → Byte))
  userFault : ℤ → Bool

/-- The device with its compressor. -/
structure Device where
  zftape : Reader Byte
  zftc : Zftc

/-- What is recorded of the device: what the compressor records, each call of `zftc_read()` with its place in the
segment and what it leaves behind, and where the device was placed. -/
inductive DeviceRecord where
  | reading (event : Event)
  | called (segBytePos : ℤ) (surroundings : Surroundings)
  | returned (segBytePos : ℤ) (segment : Segment) (p : Progress)
  | placed (zftape : Reader Byte) (pos : Position) (cseg : CmprInfo)

/-- Why the loop of `_zft_read()` ends early. -/
inductive Failure where
  | signal
  | fetch (errno : Errno)
  | reading (error : ReadError)

/-- The segment in the deblock buffer. Its size is that of some sectors. -/
def deblocked (zftape : Reader Byte) : Segment where
  data := zftape.deblockBuffer
  size := max 1 (min (zftape.segSz.toNat / ftSectorSize) ftSectorsPerSegment) * ftSectorSize
  sectors := ⟨_, lt_of_lt_of_le Nat.one_pos (le_max_left _ _), max_le (by decide) (min_le_right _ _), rfl⟩

/-- The end of `empty_deblock_buf()`, behind `cnt` bytes of the segment that stand for `result` bytes of the volume. -/
def consume (zftape : Reader Byte) (cnt result : ℤ) : Reader Byte :=
  let pos := { zftape.pos with
    volumePos := zftape.pos.volumePos + result
    tapePos := zftape.pos.tapePos + cnt
    segBytePos := zftape.pos.segBytePos + cnt }
  { zftape with
    pos := if zftape.segSz ≤ pos.segBytePos then { pos with segPos := pos.segPos + 1, segBytePos := 0 } else pos
    bufLenRd := zftape.bufLenRd - cnt }

section Definitions

variable (kernel : Kernel Byte) (bigEndian : Bool) (volume : VtblEntry)

/-- `empty_deblock_buf()` of a compressed volume. -/
def emptyDeblockBuf (surroundings : Surroundings) (device : Device) (reqLen : ℤ) :
    Recorded DeviceRecord Halt (Device × Except Failure ℤ) := do
  let zftape := device.zftape
  Recorded.note (.called zftape.pos.segBytePos surroundings)
  let p ← (zftcRead bigEndian volume ⟨zftape.pos.segBytePos.toNat, zftape.pos.segPos, deblocked zftape, reqLen,
    surroundings.memory, surroundings.userFault⟩ device.zftc).translate .reading
  Recorded.note (.returned zftape.pos.segBytePos (deblocked zftape) p)
  match p.error with
  | some error => pure (⟨zftape, p.zftc⟩, .error (.reading error))
  | none => pure (⟨consume zftape p.readCnt p.result, p.zftc⟩, .ok p.result)

/-- The loop of `_zft_read()` on a compressed volume. -/
def readRounds : ℕ → (ℕ → Surroundings) → Device → ℤ → Recorded DeviceRecord Halt (Device × Except Failure Unit)
  | 0, _, _, _ => .halt .outOfRounds
  | rounds + 1, surroundings, device, reqLen =>
    if reqLen ≤ 0 then pure (device, .ok ())
    else if (surroundings 0).signal then pure (device, .error .signal)
    else
      match device.zftape.refill kernel with
      | (zftape, .error errno) => pure (⟨zftape, device.zftc⟩, .error (.fetch errno))
      | (zftape, .ok ()) => do
        match ← emptyDeblockBuf bigEndian volume (surroundings 0) ⟨zftape, device.zftc⟩ reqLen with
        | (device, .error failure) => pure (device, .error failure)
        | (device, .ok result) => readRounds rounds (fun round => surroundings (round + 1)) device (reqLen - result)

/-- What happens to the device on a compressed volume: a request of the user, clipped at the end of the volume, or the
device is placed somewhere on the volume. -/
inductive DeviceEvent where
  | request (surroundings : ℕ → Surroundings) (reqLen : ℤ)
  | place (pos : Position) (cseg : CmprInfo)

/-- One of these. A request that fails may be followed by others. -/
def deviceStep (rounds : ℕ) (device : Device) : DeviceEvent → Recorded DeviceRecord Halt Device
  | .request surroundings reqLen => do
    let (device, _) ← readRounds kernel bigEndian volume rounds surroundings device reqLen
    pure device
  | .place pos cseg => do
    Recorded.note (.placed device.zftape pos cseg)
    pure ⟨{ device.zftape.zftReleaseDeblockBuffer with pos }, { device.zftc with cseg }⟩

/-- One after the other. -/
def deviceRun (rounds : ℕ) : List DeviceEvent → Device → Recorded DeviceRecord Halt Device
  | [], device => pure device
  | event :: events, device => do
    let device ← deviceStep kernel bigEndian volume rounds device event
    deviceRun rounds events device

end Definitions

/-- What the device must find. Each cluster header that is taken announces bytes of the cluster in the segment. The
user's buffer can be written in the middle of a segment. The device is placed at the start of a segment or between two
clusters. -/
def DeviceRecord.Sound (bigEndian : Bool) : DeviceRecord → Prop
  | .reading event => event.Announced bigEndian
  | .called segBytePos surroundings => segBytePos ≠ 0 → ∀ i, surroundings.userFault i = false
  | .returned _ _ _ => True
  | .placed zftape pos cseg => pos.segBytePos = 0 ∨
      0 < pos.segBytePos ∧ pos.segBytePos < zftape.zftGetSegSz pos.segPos ∧ cseg.Between pos.segBytePos

/-- A call of `zftc_read()` returns an error, or it delivers bytes or takes some of the segment. The bytes that the calls
have taken of the segment do not add up to more than its size. -/
def DeviceRecord.Counts : DeviceRecord → Prop
  | .returned segBytePos segment p =>
      p.error ≠ none ∨ (0 < p.result ∨ 0 < p.readCnt) ∧ segBytePos + p.readCnt ≤ segment.size
  | _ => True

instance : DecidablePred DeviceRecord.Counts := fun
  | .returned _ _ _ => inferInstanceAs (Decidable (_ ∨ _ ∧ _))
  | .reading _ | .called _ _ | .placed _ _ _ => inferInstanceAs (Decidable True)

/-- A routine of the device counts right if it finds what it must. -/
abbrev CountsRight (bigEndian : Bool) {Value : Type} (post : Value → Prop)
    (routine : Recorded DeviceRecord Halt Value) : Prop :=
  routine.Guards (DeviceRecord.Sound bigEndian) DeviceRecord.Counts post

/-- The deblock buffer is used up, or counts what is left of the segment that the position is in. -/
def BufferCounts (zftape : Reader Byte) : Prop :=
  zftape.bufLenRd = 0 ∨
    0 < zftape.bufLenRd ∧ zftape.bufLenRd = zftape.segSz - zftape.pos.segBytePos ∧
      zftape.segSz = zftape.zftGetSegSz zftape.pos.segPos ∧ zftape.pos.segPos ≤ zftape.segments

/-- The device can go on reading. -/
structure Device.Ready (volume : VtblEntry) (device : Device) : Prop where
  byte : 0 ≤ device.zftape.pos.segBytePos
  buffer : BufferCounts device.zftape
  place : device.zftc.GoesOnAt volume (device.zftape.zftGetSegSz device.zftape.pos.segPos) device.zftape.pos.segBytePos

/-- The bytes of the tape from the position on, if all segments were full. -/
def bytesAhead (zftape : Reader Byte) : ℕ :=
  (zftape.segments + 1 - zftape.pos.segPos) * ftBuffSize - zftape.pos.segBytePos.toNat

section Rounds

variable {kernel : Kernel Byte} {bigEndian : Bool} {volume : VtblEntry} {zftape zftape' : Reader Byte} {zftc : Zftc}

/-- Reading does not change the length of the tape. -/
theorem moved_segments (h : zftape.Moved zftape') : zftape'.segments = zftape.segments := by
  obtain ⟨_, _, _, _, _, rfl⟩ := h
  rfl

/-- A segment has no more than the sectors of the deblock buffer. -/
theorem zftGetSegSz_le (zftape : Reader Byte) (segment : ℕ) :
    ∃ sectors, sectors ≤ ftSectorsPerSegment ∧ zftape.zftGetSegSz segment = sectors * ftSectorSize := by
  rw [Reader.zftGetSegSz, segDataSz_eq]
  by_cases hraw : 0 < (29 - countOnes (zftape.badSectorMap segment)) * ftSectorSize ∧ zftape.rawImage = true
  · rw [if_pos hraw, ← Nat.add_mul]
    exact ⟨_, by rw [ftEccSectors, ftSectorsPerSegment]; omega, rfl⟩
  · rw [if_neg hraw]
    exact ⟨_, by rw [ftSectorsPerSegment]; omega, rfl⟩

/-- A segment fits the deblock buffer. -/
theorem zftGetSegSz_le_ftBuffSize (zftape : Reader Byte) (segment : ℕ) : zftape.zftGetSegSz segment ≤ ftBuffSize := by
  obtain ⟨sectors, hle, hsectors⟩ := zftGetSegSz_le zftape segment
  rw [hsectors]
  simp only [ftBuffSize, ftSectorsPerSegment, ftSectorSize] at hle ⊢
  omega

/-- The device reads on inside of a segment. -/
theorem Device.Ready.byte_le {device : Device} (h : device.Ready volume) :
    device.zftape.pos.segBytePos ≤ ftBuffSize := by
  have hfits := zftGetSegSz_le_ftBuffSize device.zftape device.zftape.pos.segPos
  rcases h.place with hzero | ⟨-, hinside, -⟩
  · rw [hzero]
    exact Int.natCast_nonneg _
  · omega

/-- The segment in the deblock buffer has its size. -/
theorem deblocked_size (hsize : zftape.segSz = zftape.zftGetSegSz zftape.pos.segPos) (hpos : 0 < zftape.segSz) :
    ((deblocked zftape).size : ℤ) = zftape.segSz := by
  obtain ⟨sectors, hle, hsectors⟩ := zftGetSegSz_le zftape zftape.pos.segPos
  have hcount : zftape.segSz.toNat / ftSectorSize = sectors := by
    rw [hsize, Int.toNat_natCast, hsectors, Nat.mul_div_cancel _ (by decide)]
  have hone : 1 ≤ sectors := by
    rw [hsize, hsectors] at hpos
    exact Nat.pos_of_ne_zero fun hzero => by
      rw [hzero, Nat.zero_mul] at hpos
      exact lt_irrefl _ hpos
  change ((max 1 (min (zftape.segSz.toNat / ftSectorSize) ftSectorsPerSegment) * ftSectorSize : ℕ) : ℤ) = _
  rw [hcount, min_eq_left hle, max_eq_right hone, hsize, hsectors]

/-- Looking for a segment does not go behind the end of the tape. -/
theorem fetchNext_segPos_lt {rounds size : ℕ} (h : zftape.fetchNext kernel rounds = (zftape', .ok size)) :
    zftape'.pos.segPos < zftape.pos.segPos + rounds := by
  induction rounds generalizing zftape with
  | zero => cases h
  | succ rounds ih =>
    rw [Reader.fetchNext] at h
    have hpos := Reader.zftFetchSegment_pos kernel zftape zftape.pos.segPos
    generalize zftape.zftFetchSegment kernel zftape.pos.segPos = fetch at h hpos
    obtain ⟨fetched, result⟩ := fetch
    dsimp only at h hpos
    split at h
    · have hlt := ih h
      rw [hpos] at hlt
      dsimp only at hlt
      omega
    · cases h
      rw [hpos]
      omega

/-- The deblock buffer holds what is left of a segment. -/
structure Filled (zftape : Reader Byte) : Prop where
  byte : 0 ≤ zftape.pos.segBytePos
  size : zftape.segSz = zftape.zftGetSegSz zftape.pos.segPos
  nonempty : 0 < zftape.segSz
  buffer : zftape.bufLenRd = zftape.segSz - zftape.pos.segBytePos
  segPos : zftape.pos.segPos ≤ zftape.segments

/-- A segment is read when the deblock buffer is used up. -/
theorem Device.Ready.refill_ok (h : Device.Ready volume ⟨zftape, zftc⟩)
    (hrefill : zftape.refill kernel = (zftape', .ok ())) :
    Filled zftape' ∧ zftape.Moved zftape' ∧ zftape.pos.segPos ≤ zftape'.pos.segPos ∧
      zftc.GoesOnAt volume (zftape'.zftGetSegSz zftape'.pos.segPos) zftape'.pos.segBytePos ∧
      (zftape'.pos = zftape.pos ∨ zftape.pos.segPos < zftape'.pos.segPos ∧ zftape'.pos.segBytePos = 0) := by
  have hbyte := h.byte
  have hmoved := Reader.refill_moved kernel zftape
  rw [hrefill] at hmoved
  rw [Reader.refill] at hrefill
  by_cases hbuffer : zftape.bufLenRd = 0
  · rw [if_pos hbuffer] at hrefill
    cases hnext : zftape.fetchNext kernel (zftape.segments + 1 - zftape.pos.segPos) with
    | mk found result =>
      rw [hnext] at hrefill
      cases result with
      | error errno => cases hrefill
      | ok size =>
        cases hrefill
        obtain ⟨hsize, hpos, hplace⟩ := Reader.fetchNext_ok hnext
        have hlt := fetchNext_segPos_lt hnext
        have hsegments := moved_segments hmoved
        dsimp only at hsegments
        have hsame : found.zftGetSegSz found.pos.segPos = size :=
          (hmoved.zftGetSegSz found.pos.segPos).trans hsize.symm
        have hle : zftape.pos.segPos ≤ found.pos.segPos := by
          rcases hplace with hplace | ⟨hless, -⟩
          · rw [hplace]
          · exact hless.le
        have hfilled : ∀ hbyte' : 0 ≤ found.pos.segBytePos, Filled { found with
            segSz := size, bufLenRd := size - found.pos.segBytePos } := fun hbyte' =>
          ⟨hbyte', congrArg Nat.cast hsame.symm, Int.natCast_pos.mpr hpos, rfl, by dsimp only; omega⟩
        rcases hplace with hplace | ⟨hless, hzero, -⟩
        · refine ⟨hfilled (hplace ▸ hbyte), hmoved, hle, ?_, Or.inl hplace⟩
          have hgoes := h.place
          dsimp only at hgoes ⊢
          rw [hmoved.zftGetSegSz, hplace]
          exact hgoes
        · exact ⟨hfilled hzero.ge, hmoved, hle, Or.inl hzero, Or.inr ⟨hless, hzero⟩⟩
  · rw [if_neg hbuffer] at hrefill
    cases hrefill
    obtain ⟨hpos, hleft, hsize, hsegPos⟩ := h.buffer.resolve_left hbuffer
    dsimp only at hbyte hpos hleft
    exact ⟨⟨hbyte, hsize, by omega, hleft, hsegPos⟩, hmoved, le_rfl, h.place, Or.inl rfl⟩

/-- A segment that cannot be read leaves the device ready. -/
theorem Device.Ready.refill_error {errno : Errno} (h : Device.Ready volume ⟨zftape, zftc⟩)
    (hrefill : zftape.refill kernel = (zftape', .error errno)) : Device.Ready volume ⟨zftape', zftc⟩ := by
  have hmoved := Reader.refill_moved kernel zftape
  rw [hrefill] at hmoved
  rw [Reader.refill] at hrefill
  by_cases hbuffer : zftape.bufLenRd = 0
  · rw [if_pos hbuffer] at hrefill
    cases hnext : zftape.fetchNext kernel (zftape.segments + 1 - zftape.pos.segPos) with
    | mk found result =>
      rw [hnext] at hrefill
      cases result with
      | ok size => cases hrefill
      | error errno' =>
        cases hrefill
        obtain ⟨hempty, hplace⟩ := Reader.fetchNext_error hbuffer hnext
        rcases hplace with hplace | hzero
        · refine ⟨hplace ▸ h.byte, Or.inl hempty, ?_⟩
          have hgoes := h.place
          dsimp only at hgoes ⊢
          rw [hmoved.zftGetSegSz, hplace]
          exact hgoes
        · exact ⟨hzero.ge, Or.inl hempty, Or.inl hzero⟩
  · rw [if_neg hbuffer] at hrefill
    cases hrefill

/-- What the bytes that were taken leave of the device. -/
theorem Filled.consume (h : Filled zftape) {cnt : ℤ} (result : ℤ) (hcnt : 0 < cnt)
    (hroom : zftape.pos.segBytePos + cnt ≤ zftape.segSz)
    (hgoes : zftape.pos.segBytePos + cnt < zftape.segSz →
      zftc.GoesOnAt volume (zftape.zftGetSegSz zftape.pos.segPos) (zftape.pos.segBytePos + cnt)) :
    Device.Ready volume ⟨consume zftape cnt result, zftc⟩ ∧
      bytesAhead (consume zftape cnt result) < bytesAhead zftape ∧
      (consume zftape cnt result).segments = zftape.segments := by
  have hbyte := h.byte
  have hbuffer := h.buffer
  have hsegPos := h.segPos
  have hfull : zftape.segSz ≤ ftBuffSize := by
    rw [h.size]
    exact Int.ofNat_le.mpr (zftGetSegSz_le_ftBuffSize zftape _)
  obtain ⟨left, hleft⟩ : ∃ left, zftape.segments + 1 - zftape.pos.segPos = left + 1 :=
    ⟨zftape.segments - zftape.pos.segPos, by omega⟩
  by_cases hend : zftape.segSz ≤ zftape.pos.segBytePos + cnt
  · have hconsumed : Compressor.consume zftape cnt result = { zftape with
        pos := ⟨zftape.pos.segPos + 1, 0, zftape.pos.volumePos + result, zftape.pos.tapePos + cnt⟩
        bufLenRd := zftape.bufLenRd - cnt } := by
      rw [Compressor.consume]
      dsimp only
      rw [if_pos hend]
    rw [hconsumed]
    refine ⟨⟨le_rfl, Or.inl ?_, Or.inl rfl⟩, ?_, rfl⟩
    · dsimp only
      omega
    · rw [bytesAhead, bytesAhead, hleft]
      have hnext : zftape.segments + 1 - (zftape.pos.segPos + 1) = left := by omega
      dsimp only
      rw [hnext, Nat.add_mul]
      omega
  · have hconsumed : Compressor.consume zftape cnt result = { zftape with
        pos := ⟨zftape.pos.segPos, zftape.pos.segBytePos + cnt, zftape.pos.volumePos + result,
          zftape.pos.tapePos + cnt⟩
        bufLenRd := zftape.bufLenRd - cnt } := by
      rw [Compressor.consume]
      dsimp only
      rw [if_neg hend]
    rw [hconsumed]
    refine ⟨⟨?_, Or.inr ⟨?_, ?_, h.size, hsegPos⟩, hgoes (lt_of_not_ge hend)⟩, ?_, rfl⟩
    · dsimp only
      omega
    · dsimp only
      omega
    · dsimp only
      omega
    · rw [bytesAhead, bytesAhead, hleft, Nat.add_mul]
      dsimp only
      omega

/-- The place that the device reads on from lies in the segment. -/
theorem Filled.left (h : Filled zftape)
    (hgoes : zftc.GoesOnAt volume (zftape.zftGetSegSz zftape.pos.segPos) zftape.pos.segBytePos) :
    zftape.pos.segBytePos < zftape.segSz := by
  have hsize := h.size
  have hnonempty := h.nonempty
  rcases hgoes with hzero | ⟨-, hinside, -⟩
  · omega
  · omega

/-- A filled deblock buffer can be read on from. -/
theorem Filled.ready (h : Filled zftape)
    (hgoes : zftc.GoesOnAt volume (zftape.zftGetSegSz zftape.pos.segPos) zftape.pos.segBytePos) :
    Device.Ready volume ⟨zftape, zftc⟩ := by
  have hleft := h.left hgoes
  have hbuffer := h.buffer
  exact ⟨h.byte, Or.inr ⟨by dsimp only; omega, hbuffer, h.size, h.segPos⟩, hgoes⟩

/-- What a call of `empty_deblock_buf()` leaves behind: less of the tape ahead, or an error. -/
def Emptied (volume : VtblEntry) (zftape : Reader Byte) (outcome : Device × Except Failure ℤ) : Prop :=
  outcome.1.Ready volume ∧ outcome.1.zftape.segments = zftape.segments ∧
    ∀ result, outcome.2 = .ok result → bytesAhead outcome.1.zftape < bytesAhead zftape

/-- Emptying the deblock buffer counts right. -/
theorem emptyDeblockBuf_counts {surroundings : Surroundings} {reqLen : ℤ} (h : Filled zftape)
    (hgoes : zftc.GoesOnAt volume (zftape.zftGetSegSz zftape.pos.segPos) zftape.pos.segBytePos) (hreq : 0 < reqLen) :
    CountsRight bigEndian (Emptied volume zftape)
      (emptyDeblockBuf bigEndian volume surroundings ⟨zftape, zftc⟩ reqLen) := by
  have hbyte : ((zftape.pos.segBytePos.toNat : ℕ) : ℤ) = zftape.pos.segBytePos := Int.toNat_of_nonneg h.byte
  have hsize := deblocked_size h.size h.nonempty
  have hsize' : (deblocked zftape).size = zftape.zftGetSegSz zftape.pos.segPos :=
    Int.ofNat_inj.mp (hsize.trans h.size)
  rw [emptyDeblockBuf]
  refine Recorded.Guards.bind (Recorded.Guards.note fun _ => trivial) fun _ hsound => ?_
  have htaken : CountsRight bigEndian
      (fun p => p.Taken volume (zftape.zftGetSegSz zftape.pos.segPos) zftape.pos.segBytePos)
      ((zftcRead bigEndian volume ⟨zftape.pos.segBytePos.toNat, zftape.pos.segPos, deblocked zftape, reqLen,
        surroundings.memory, surroundings.userFault⟩ zftc).translate .reading) := by
    refine Recorded.Guards.translate ?_
    rw [← hsize', ← hbyte]
    refine zftcRead_taken hreq ?_ fun hne => hsound fun hzero => hne ?_
    · rw [hsize']
      change zftc.GoesOnAt volume _ (zftape.pos.segBytePos.toNat : ℕ)
      rw [hbyte]
      exact hgoes
    · exact Int.toNat_eq_zero.mpr hzero.le
  refine Recorded.Guards.bind htaken fun p hp => ?_
  refine Recorded.Guards.bind (Recorded.Guards.note fun _ => ?_) fun _ _ => ?_
  · by_cases herror : p.error = none
    · refine Or.inr ⟨Or.inr (hp.taken herror), ?_⟩
      rw [hsize']
      exact hp.inside herror
    · exact Or.inl herror
  · cases herror : p.error with
    | some error =>
      have hfailed := hp.failed (herror ▸ Option.some_ne_none _)
      exact Recorded.Guards.pure ⟨h.ready hfailed, rfl, fun _ hok => by cases hok⟩
    | none =>
      have hroom := hp.inside herror
      rw [← h.size] at hroom
      obtain ⟨hready, hless, hsegments⟩ := h.consume p.result (hp.taken herror) hroom fun hlt =>
        hp.goesOn herror (h.size ▸ hlt)
      exact Recorded.Guards.pure ⟨hready, hsegments, fun _ _ => hless⟩

/-- Skipping to a segment leaves less of the tape ahead. -/
theorem bytesAhead_skip (hmoved : zftape.Moved zftape') (hfilled : Filled zftape')
    (hroom : zftape.pos.segBytePos ≤ ftBuffSize)
    (hpos : zftape'.pos = zftape.pos ∨ zftape.pos.segPos < zftape'.pos.segPos ∧ zftape'.pos.segBytePos = 0) :
    zftape'.segments = zftape.segments ∧ bytesAhead zftape' ≤ bytesAhead zftape := by
  have hsegments := moved_segments hmoved
  have hsegPos := hfilled.segPos
  refine ⟨hsegments, ?_⟩
  rw [bytesAhead, bytesAhead, hsegments]
  rcases hpos with hsame | ⟨hless, hzero⟩
  · rw [hsame]
  · obtain ⟨skipped, hskipped⟩ : ∃ skipped, zftape.segments + 1 - zftape.pos.segPos =
        zftape.segments + 1 - zftape'.pos.segPos + (skipped + 1) :=
      ⟨zftape'.pos.segPos - zftape.pos.segPos - 1, by omega⟩
    rw [hskipped, hzero, Nat.add_mul, Nat.add_mul]
    omega

/-- A request counts right, and comes to its end. -/
theorem readRounds_counts {rounds : ℕ} {surroundings : ℕ → Surroundings} {device : Device} {reqLen : ℤ}
    (h : device.Ready volume) (hrounds : bytesAhead device.zftape < rounds) :
    CountsRight bigEndian (fun outcome => outcome.1.Ready volume ∧
      outcome.1.zftape.segments = device.zftape.segments)
      (readRounds kernel bigEndian volume rounds surroundings device reqLen) := by
  induction rounds generalizing surroundings device reqLen with
  | zero => exact absurd hrounds (Nat.not_lt_zero _)
  | succ rounds ih =>
    obtain ⟨zftape, zftc⟩ := device
    rw [readRounds]
    by_cases hreq : reqLen ≤ 0
    · rw [if_pos hreq]
      exact Recorded.Guards.pure ⟨h, rfl⟩
    · rw [if_neg hreq]
      by_cases hsignal : (surroundings 0).signal = true
      · rw [if_pos hsignal]
        exact Recorded.Guards.pure ⟨h, rfl⟩
      · rw [if_neg hsignal]
        have hmoved := Reader.refill_moved kernel zftape
        cases hrefill : zftape.refill kernel with
        | mk zftape' outcome =>
          rw [hrefill] at hmoved
          cases outcome with
          | error errno =>
            exact Recorded.Guards.pure ⟨h.refill_error hrefill, moved_segments hmoved⟩
          | ok =>
            obtain ⟨hfilled, hmoved, -, hgoes, hpos⟩ := h.refill_ok hrefill
            obtain ⟨hsegments, hahead⟩ := bytesAhead_skip hmoved hfilled h.byte_le hpos
            refine Recorded.Guards.bind (emptyDeblockBuf_counts hfilled hgoes (not_le.mp hreq)) ?_
            rintro ⟨device', result⟩ ⟨hready, hsegments', hless⟩
            cases result with
            | error failure => exact Recorded.Guards.pure ⟨hready, hsegments'.trans hsegments⟩
            | ok result =>
              have hless : bytesAhead device'.zftape < bytesAhead zftape' := hless result rfl
              have hrounds : bytesAhead zftape < rounds + 1 := hrounds
              have hready : device'.Ready volume := hready
              refine (ih hready (by omega)).mono ?_
              rintro outcome ⟨hready', hsame⟩
              exact ⟨hready', hsame.trans (hsegments'.trans hsegments)⟩

/-- The device is placed where it can read on. -/
theorem place_counts {rounds : ℕ} (device : Device) (pos : Position) (cseg : CmprInfo) :
    CountsRight bigEndian (fun device' => device'.Ready volume ∧ device'.zftape.segments = device.zftape.segments)
      (deviceStep kernel bigEndian volume rounds device (.place pos cseg)) := by
  refine Recorded.Guards.bind (Recorded.Guards.note fun _ => trivial) fun _ hsound => ?_
  refine Recorded.Guards.pure ⟨?_, rfl⟩
  rcases hsound with hzero | ⟨hpos, hinside, hbetween⟩
  · exact ⟨hzero.ge, Or.inl rfl, Or.inl hzero⟩
  · exact ⟨hpos.le, Or.inl rfl, Or.inr ⟨hpos, hinside, Or.inl hbetween⟩⟩

/-- What happens to the device counts right. -/
theorem deviceStep_counts {rounds : ℕ} {device : Device} (hready : device.Ready volume)
    (hrounds : (device.zftape.segments + 1) * ftBuffSize < rounds) (event : DeviceEvent) :
    CountsRight bigEndian (fun device' => device'.Ready volume ∧ device'.zftape.segments = device.zftape.segments)
      (deviceStep kernel bigEndian volume rounds device event) := by
  cases event with
  | request surroundings reqLen =>
    have hahead : bytesAhead device.zftape ≤ (device.zftape.segments + 1) * ftBuffSize :=
      le_trans (Nat.sub_le _ _) (Nat.mul_le_mul_right _ (Nat.sub_le _ _))
    refine Recorded.Guards.bind (readRounds_counts hready (lt_of_le_of_lt hahead hrounds)) ?_
    rintro ⟨device', outcome⟩ hready'
    exact Recorded.Guards.pure hready'
  | place pos cseg => exact place_counts device pos cseg

/-- A run of the device counts right. -/
theorem deviceRun_counts {rounds : ℕ} {device : Device} (hready : device.Ready volume)
    (hrounds : (device.zftape.segments + 1) * ftBuffSize < rounds) (events : List DeviceEvent) :
    CountsRight bigEndian (fun device' => device'.Ready volume)
      (deviceRun kernel bigEndian volume rounds events device) := by
  induction events generalizing device with
  | nil => exact Recorded.Guards.pure hready
  | cons event events ih =>
    refine Recorded.Guards.bind (deviceStep_counts hready hrounds event) ?_
    rintro device' ⟨hready', hsegments⟩
    exact ih hready' (hsegments.symm ▸ hrounds)

end Rounds

/-- Reading a compressed volume comes to its end, whatever the segments contain, in each run that finds what it must: each
call of `zftc_read()` returns an error, or it delivers bytes or takes some of the segment, and a segment is left when
the bytes that were taken of it add up to its size. -/
theorem deviceRun_ends (kernel : Kernel Byte) (bigEndian : Bool) (volume : VtblEntry) (device : Device) (pos : Position)
    (cseg : CmprInfo) (events : List DeviceEvent) {rounds : ℕ}
    (hrounds : (device.zftape.segments + 1) * ftBuffSize < rounds)
    (hsound : ∀ record ∈ (deviceRun kernel bigEndian volume rounds (.place pos cseg :: events) device).queries,
      record.Sound bigEndian) :
    (∀ record ∈ (deviceRun kernel bigEndian volume rounds (.place pos cseg :: events) device).queries, record.Counts) ∧
      ∃ device', (deviceRun kernel bigEndian volume rounds (.place pos cseg :: events) device).result = .ok device' := by
  have hrun : CountsRight bigEndian (fun device' => device'.Ready volume)
      (deviceRun kernel bigEndian volume rounds (.place pos cseg :: events) device) := by
    refine Recorded.Guards.bind (place_counts device pos cseg) ?_
    rintro device' ⟨hready, hsegments⟩
    exact deviceRun_counts hready (hsegments.symm ▸ hrounds) events
  obtain ⟨hcounts, device', hresult, -⟩ := hrun hsound
  exact ⟨hcounts, device', hresult⟩

/-- A tape of segments with the same contents. -/
def uniformTape (badSectors : SectorMap) (contents : ℕ → Byte) : Reader Byte :=
  { sampleReader 0 with
    readSegment := fun _ => .ok contents
    badSectorMap := fun _ => badSectors
    segments := 2 }

/-- Nothing disturbs a request. -/
def undisturbed : ℕ → Surroundings := fun _ => ⟨false, some (fun _ => 0, fun _ => 0), fun _ => false⟩

/-- A block is read from the start of the first segment. -/
def readBlock : List DeviceEvent := [.place ⟨1, 0, 0, 0⟩ .zero, .request undisturbed 1024]

/-- A check of records that is enough for calls of `zftc_read()` at the starts of segments. -/
def DeviceRecord.checked (bigEndian : Bool) : DeviceRecord → Bool
  | .reading (.nextCluster _ segment cseg) =>
    cseg.offset + 2 < segment.size ∧ fetch bigEndian segment.data cseg.offset 2 % 0x8000 ≠ 0
  | .called segBytePos _ => segBytePos = 0
  | .placed _ pos _ => pos.segBytePos = 0
  | .reading _ | .returned _ _ _ => true

/-- Records that pass the check are sound. -/
theorem DeviceRecord.sound_of_checked {bigEndian : Bool} {record : DeviceRecord}
    (h : record.checked bigEndian = true) : record.Sound bigEndian := by
  cases record with
  | reading event =>
    cases event with
    | nextCluster volume segment cseg => exact fun _ => of_decide_eq_true h
    | access _ => trivial
    | moved _ _ => trivial
    | newSegment _ _ => trivial
    | uncompress _ _ => trivial
  | called segBytePos surroundings => exact fun hne => absurd (of_decide_eq_true h) hne
  | returned _ _ _ => trivial
  | placed zftape pos cseg => exact Or.inl (of_decide_eq_true h)

/-- A tape of two segments of one sector, with a compressed block and a stored one. -/
def pairTape : Reader Byte :=
  { uniformTape 0x0fffffff (fun _ => 0) with readSegment := fun segment => .ok (pairData segment) }

/-- Two blocks are read from the start of the first segment. -/
def readPair : List DeviceEvent := [.place ⟨1, 0, 0, 0⟩ .zero, .request undisturbed 2048]

/-- The second block goes on in the second segment. -/
theorem deviceRun_ends_pair :
    (∀ record ∈ (deviceRun sampleKernel false pairVolume 98305 readPair ⟨pairTape, .opened⟩).queries, record.Counts) ∧
      ∃ device', (deviceRun sampleKernel false pairVolume 98305 readPair ⟨pairTape, .opened⟩).result = .ok device' := by
  refine deviceRun_ends sampleKernel false pairVolume _ _ _ _ (by decide) fun record hrecord => ?_
  have hchecked : ∀ record ∈ (deviceRun sampleKernel false pairVolume 98305 readPair ⟨pairTape, .opened⟩).queries,
      record.checked false = true := by
    decide +kernel
  exact DeviceRecord.sound_of_checked (hchecked record hrecord)

section Stalls

variable {kernel : Kernel Byte} {bigEndian : Bool} {volume : VtblEntry} {surroundings : ℕ → Surroundings} {device : Device}
  {reqLen : ℤ}

/-- A round of the loop that goes on: the device, and what is left of the request. -/
def passRound (kernel : Kernel Byte) (bigEndian : Bool) (volume : VtblEntry) (surroundings : Surroundings)
    (device : Device) (reqLen : ℤ) : Option (Device × ℤ) :=
  match device.zftape.refill kernel with
  | (_, .error _) => none
  | (zftape, .ok ()) =>
    match (emptyDeblockBuf bigEndian volume surroundings ⟨zftape, device.zftc⟩ reqLen).result with
    | .ok (device, .ok result) => some (device, reqLen - result)
    | _ => none

/-- The loop goes on behind a round. -/
theorem readRounds_pass {device' : Device} {left : ℤ} (hreq : 0 < reqLen) (hsignal : (surroundings 0).signal = false)
    (hpass : passRound kernel bigEndian volume (surroundings 0) device reqLen = some (device', left)) (rounds : ℕ) :
    (readRounds kernel bigEndian volume (rounds + 1) surroundings device reqLen).result =
      (readRounds kernel bigEndian volume rounds (fun round => surroundings (round + 1)) device' left).result := by
  rw [readRounds, if_neg (not_le.mpr hreq), if_neg (by rw [hsignal]; exact Bool.false_ne_true)]
  rw [passRound] at hpass
  cases hrefill : device.zftape.refill kernel with
  | mk zftape outcome =>
    rw [hrefill] at hpass
    cases outcome with
    | error errno => cases hpass
    | ok =>
      dsimp only at hpass ⊢
      cases hempty : (emptyDeblockBuf bigEndian volume (surroundings 0) ⟨zftape, device.zftc⟩ reqLen).result with
      | error halt =>
        rw [hempty] at hpass
        cases hpass
      | ok emptied =>
        obtain ⟨device'', result⟩ := emptied
        rw [hempty] at hpass
        rw [Recorded.result_bind hempty]
        cases result with
        | error failure => cases hpass
        | ok result =>
          cases hpass
          rfl

/-- The last cluster goes on in the next segment, but bytes of this one are left to count. -/
structure Device.Stalled (volume : VtblEntry) (device : Device) : Prop where
  allocated : device.zftc.Allocated volume
  spans : device.zftc.cseg.spans = true
  left : device.zftape.bufLenRd ≠ 0
  byte : 0 < device.zftape.pos.segBytePos
  inside : device.zftape.pos.segBytePos < device.zftape.segSz
  rest : uintSub (deblocked device.zftape).size device.zftc.cseg.offset = 0

instance (volume : VtblEntry) (zftc : Zftc) : Decidable (zftc.Allocated volume) :=
  inferInstanceAs (Decidable (_ ∧ _))

instance (volume : VtblEntry) (device : Device) : Decidable (device.Stalled volume) :=
  decidable_of_iff (device.zftc.Allocated volume ∧ device.zftc.cseg.spans = true ∧ device.zftape.bufLenRd ≠ 0 ∧
      0 < device.zftape.pos.segBytePos ∧ device.zftape.pos.segBytePos < device.zftape.segSz ∧
      uintSub (deblocked device.zftape).size device.zftc.cseg.offset = 0)
    ⟨fun ⟨h₁, h₂, h₃, h₄, h₅, h₆⟩ => ⟨h₁, h₂, h₃, h₄, h₅, h₆⟩,
      fun ⟨h₁, h₂, h₃, h₄, h₅, h₆⟩ => ⟨h₁, h₂, h₃, h₄, h₅, h₆⟩⟩

/-- A call of `zftc_read()` that finds a stalled compressor takes nothing, and changes nothing. -/
theorem zftcRead_stalled {call : ReadCall} {zftc : Zftc} (hallocated : zftc.Allocated volume)
    (hspans : zftc.cseg.spans = true) (hbyte : call.segBytePos ≠ 0)
    (hrest : uintSub call.segment.size zftc.cseg.offset = 0) :
    (zftcRead bigEndian volume call zftc).result = .ok ⟨zftc, 0, 0, call.toDo, none⟩ := by
  have hloop : ∀ rounds, readLoop bigEndian volume call.segment (volume.endSeg = call.segPos) call.userFault (rounds + 1)
      ⟨zftc, 0, 0, call.toDo, none⟩ = pure ⟨zftc, 0, 0, call.toDo, none⟩ := by
    intro rounds
    rw [readLoop]
    exact if_neg fun hgoes => by
      dsimp only at hgoes
      rw [hspans] at hgoes
      cases hgoes.1
  rw [zftcRead, (zftAllocateCmprMem_spec volume call.memory zftc).2.2 hallocated]
  dsimp only
  rw [beginRead, if_neg hbyte]
  refine (Recorded.result_pure_bind _ _).trans ?_
  rw [if_pos rfl, hloop]
  refine (Recorded.result_pure_bind _ _).trans ?_
  rw [expandReadCnt, hrest, if_pos ⟨rfl, Nat.zero_le _⟩]
  rfl

/-- A stalled device stays as it is. -/
theorem Device.Stalled.passRound (h : device.Stalled volume) (surroundings : Surroundings) :
    Compressor.passRound kernel bigEndian volume surroundings device reqLen = some (device, reqLen) := by
  obtain ⟨zftape, zftc⟩ := device
  have hbyte := h.byte
  have hrefill : zftape.refill kernel = (zftape, .ok ()) := by
    rw [Reader.refill]
    exact if_neg h.left
  have hread : (zftcRead bigEndian volume ⟨zftape.pos.segBytePos.toNat, zftape.pos.segPos, deblocked zftape, reqLen,
      surroundings.memory, surroundings.userFault⟩ zftc).result = .ok ⟨zftc, 0, 0, reqLen, none⟩ := by
    refine zftcRead_stalled h.allocated h.spans ?_ h.rest
    dsimp only at hbyte ⊢
    omega
  have hread' : ((zftcRead bigEndian volume ⟨zftape.pos.segBytePos.toNat, zftape.pos.segPos, deblocked zftape, reqLen,
      surroundings.memory, surroundings.userFault⟩ zftc).translate DeviceRecord.reading).result =
        .ok ⟨zftc, 0, 0, reqLen, none⟩ := hread
  have hconsume : consume zftape 0 0 = zftape := by
    rw [consume]
    dsimp only
    rw [add_zero, add_zero, add_zero, sub_zero, if_neg (not_le.mpr h.inside)]
  have hempty : (emptyDeblockBuf bigEndian volume surroundings ⟨zftape, zftc⟩ reqLen).result =
      .ok (⟨zftape, zftc⟩, .ok 0) := by
    rw [emptyDeblockBuf]
    refine (Recorded.result_note_bind _ _).trans ?_
    refine (Recorded.result_bind hread' _).trans ?_
    refine (Recorded.result_note_bind _ _).trans ?_
    dsimp only
    rw [hconsume]
    rfl
  rw [Compressor.passRound]
  dsimp only
  rw [hrefill]
  dsimp only
  rw [hempty]
  dsimp only
  rw [sub_zero]

/-- A request to a stalled device never ends. -/
theorem Device.Stalled.readRounds (h : device.Stalled volume) (hreq : 0 < reqLen)
    (hsignal : ∀ round, (surroundings round).signal = false) (rounds : ℕ) :
    (Compressor.readRounds kernel bigEndian volume rounds surroundings device reqLen).result = .error .outOfRounds := by
  induction rounds generalizing surroundings with
  | zero => rfl
  | succ rounds ih =>
    rw [readRounds_pass hreq (hsignal 0) (h.passRound _)]
    exact ih fun round => hsignal (round + 1)

end Stalls

/-- The contents of a segment of one sector. Behind the file offset there are a cluster header that announces nothing, and
one that announces the rest of the segment. -/
def emptyHeader (k : ℕ) : Byte := if k = 0 then 2 else if k = 12 then 0xf2 else if k = 13 then 0x03 else 0

/-- The header that announces nothing is not counted: two bytes of the segment are left to count when its last cluster
goes on in the next segment, and the request never ends. -/
theorem deviceRun_stalls :
    (∃ record ∈ (deviceRun sampleKernel false smallBlocks 4 readBlock
        ⟨uniformTape 0x0fffffff emptyHeader, .opened⟩).queries, ¬record.Counts) ∧
      ∀ rounds, (deviceRun sampleKernel false smallBlocks rounds readBlock
        ⟨uniformTape 0x0fffffff emptyHeader, .opened⟩).result = .error .outOfRounds := by
  refine ⟨by decide +kernel, fun rounds => ?_⟩
  let device : Device := ⟨{ (uniformTape 0x0fffffff emptyHeader).zftReleaseDeblockBuffer with pos := ⟨1, 0, 0, 0⟩ },
    { Zftc.opened with cseg := .zero }⟩
  have hloop : (readRounds sampleKernel false smallBlocks rounds undisturbed device 1024).result =
      .error .outOfRounds := by
    have hstalls : ((passRound sampleKernel false smallBlocks (undisturbed 0) device 1024).bind fun passed =>
        passRound sampleKernel false smallBlocks (undisturbed 1) passed.1 passed.2).any
          (fun passed => passed.1.Stalled smallBlocks ∧ 0 < passed.2) = true := by decide +kernel
    have hmore : (passRound sampleKernel false smallBlocks (undisturbed 0) device 1024).all
        (fun passed => 0 < passed.2) = true := by decide +kernel
    cases hfirst : passRound sampleKernel false smallBlocks (undisturbed 0) device 1024 with
    | none =>
      rw [hfirst] at hstalls
      cases hstalls
    | some first =>
      obtain ⟨device₁, left₁⟩ := first
      rw [hfirst] at hstalls hmore
      rw [Option.bind_some] at hstalls
      cases hsecond : passRound sampleKernel false smallBlocks (undisturbed 1) device₁ left₁ with
      | none =>
        rw [hsecond] at hstalls
        cases hstalls
      | some second =>
        obtain ⟨device₂, left₂⟩ := second
        rw [hsecond] at hstalls
        obtain ⟨hstalled, hleft⟩ := of_decide_eq_true hstalls
        cases rounds with
        | zero => rfl
        | succ rounds =>
          rw [readRounds_pass (by decide) rfl hfirst]
          cases rounds with
          | zero => rfl
          | succ rounds =>
            rw [readRounds_pass (of_decide_eq_true hmore) rfl hsecond]
            exact hstalled.readRounds hleft (fun _ => rfl) rounds
  have hplace : (deviceStep sampleKernel false smallBlocks rounds
      ⟨uniformTape 0x0fffffff emptyHeader, .opened⟩ (.place ⟨1, 0, 0, 0⟩ .zero)).result = .ok device := rfl
  rw [readBlock, deviceRun]
  refine (Recorded.result_bind hplace _).trans ?_
  rw [deviceRun]
  exact Recorded.result_bind_error (Recorded.result_bind_error hloop _) _

end Ftape.Compressor
