import Ftape.Algebra.Window
import Ftape.Ecc.RoundTrip

/-!
# The ring of segment buffers

Data on its way to tape waits in a ring of segment buffers. The internal floppy controller
moves data between the ring and the deblock buffer by flipping the two pointers; each buffer
owns its memory, so a flip is an exchange of memories here.

The routines never look at a byte, so they are stated for any type of cells and any generator
of error correcting sectors that leaves the payload alone; `qicEcc` is the driver's own.
-/

namespace Ftape.Write

open Ftape.Algebra

/-- `buffer_state_enum`. -/
inductive BufferState where
  | waiting
  | reading
  | writing
  | formatting
  | verifying
  | deleting
  | done
  | error
  | fatalError
deriving DecidableEq

/-- The kernel's error codes that the driver returns. -/
inductive Errno where
  | eio
  | eintr
  | eagain
  | enospc
  | einval
  | eacces
  | enxio
  | etime
  | ebusy
  | enodev
  | erofs
  | efault
  | enodata
deriving DecidableEq

/-- The fields of `buffer_struct` that writing uses, with the memory `virtual` points to. -/
structure BufferStruct (α : Type*) where
  virtual : ℕ → α
  bytes : ℕ
  segmentId : ℕ
  status : BufferState
  hardErrorMap : SectorMap

/-- A generator of error correcting sectors for the first `blocks` sectors of a buffer. -/
structure EccCode (α : Type*) where
  setSegmentParity : ℕ → (ℕ → α) → ℕ → α
  payload_unchanged : ∀ blocks mem a, a < (blocks - ftEccSectors) * ftSectorSize →
    setSegmentParity blocks mem a = mem a

/-- `ftape_ecc_set_segment_parity()` as `copy_and_gen_ecc` calls it. -/
def qicSetSegmentParity (t : Ecc.Target) (blocks : ℕ) (mem : ℕ → Byte) : ℕ → Byte :=
  if h : 4 ≤ blocks ∧ blocks ≤ ftSectorsPerSegment then
    (Ecc.ftapeEccSetSegmentParity t ⟨0, blocks, mem, 0, h.1, h.2⟩).data
  else mem

/-- The driver's Reed-Solomon code. -/
def qicEcc (t : Ecc.Target) : EccCode Byte where
  setSegmentParity := qicSetSegmentParity t
  payload_unchanged blocks mem a ha := by
    unfold qicSetSegmentParity
    split
    · next h =>
      have hcolumn : a % ftSectorSize < ftSectorSize := Nat.mod_lt _ (by decide)
      have hrow : a / ftSectorSize < blocks - 3 := Nat.div_lt_of_lt_mul (by rwa [Nat.mul_comm])
      have hsame := (Ecc.setSegmentParity_column t ⟨0, blocks, mem, 0, h.1, h.2⟩ hcolumn).2
        (a / ftSectorSize) (Or.inl hrow)
      have ha' : a % ftSectorSize + a / ftSectorSize * ftSectorSize = a := Nat.mod_add_div' a _
      simpa only [Ecc.column, ha', Ecc.Gf.mk.injEq] using hsame
    · rfl

/-- The payload of a segment with the given bad sectors, `zft_get_seg_data_sz()`. -/
@[irreducible] def segDataSz (bsm : SectorMap) : ℕ := ftSegmentSize - countOnes bsm * ftSectorSize

/-- The fields of `ftape_info_t` that writing uses: the ring from `HEAD` on, the steps from
`HEAD` to `TAIL`, the controller's deblock buffer and the bad sector entries. -/
structure FtapeInfo (α : Type*) where
  ring : List (BufferStruct α)
  tail : ℕ
  deblockBuffer : ℕ → α
  badSectorMap : ℕ → SectorMap
  oldSegmentId : ℤ

variable {α : Type*}

/-- The payload a buffer holds for its segment. -/
def BufferStruct.payload (bsm : ℕ → SectorMap) (buff : BufferStruct α) : List α :=
  window buff.virtual 0 (segDataSz (bsm buff.segmentId))

/-- The concatenated payload of a run of buffers. -/
def ringPayload (bsm : ℕ → SectorMap) (buffers : List (BufferStruct α)) : List α :=
  buffers.flatMap (BufferStruct.payload bsm)

/-- The buffers at the front of a run that hold data not yet on tape. -/
def waitingRun (buffers : List (BufferStruct α)) : List (BufferStruct α) :=
  buffers.takeWhile (·.status = .waiting)

/-- The data still to be written: `HEAD` and the waiting buffers behind it. -/
def FtapeInfo.payload (ftape : FtapeInfo α) : List α :=
  match ftape.ring with
  | [] => []
  | head :: others => ringPayload ftape.badSectorMap (head :: waitingRun others)

/-- `fdc_int_read_buffer()`: the buffer and the deblock buffer change memories. -/
def fdcIntReadBuffer (buff : BufferStruct α) (deblock : ℕ → α) : BufferStruct α × (ℕ → α) :=
  ({ buff with virtual := deblock }, buff.virtual)

/-- `fdc_int_write_buffer()`, the same exchange. -/
def fdcIntWriteBuffer (buff : BufferStruct α) (deblock : ℕ → α) : BufferStruct α × (ℕ → α) :=
  ({ buff with virtual := deblock }, buff.virtual)

/-- `fdc_int_copy_and_gen_ecc()`. The parity generator cannot fail, and the number of bytes that
is returned is the payload of the segment. -/
def fdcIntCopyAndGenEcc (ecc : EccCode α) (buff : BufferStruct α) (deblock : ℕ → α)
    (badSectorMap : SectorMap) : BufferStruct α × (ℕ → α) :=
  let bads := countOnes badSectorMap
  let (buff, deblock) := fdcIntWriteBuffer buff deblock
  if ftSectorsPerSegment ≤ bads + 3 then (buff, deblock)
  else
    let blocks := ftSectorsPerSegment - bads
    ({ buff with
        virtual := ecc.setSegmentParity blocks buff.virtual
        bytes := blocks * ftSectorSize }, deblock)

/-- What a buffer is about, its content aside. -/
def BufferStruct.label (buff : BufferStruct α) : ℕ × BufferState := (buff.segmentId, buff.status)

/-- Buffers with one label are about one segment. -/
theorem segmentId_of_label {buff buff' : BufferStruct α} (h : buff.label = buff'.label) :
    buff.segmentId = buff'.segmentId := congrArg Prod.fst h

/-- Buffers with one label have one status. -/
theorem status_of_label {buff buff' : BufferStruct α} (h : buff.label = buff'.label) :
    buff.status = buff'.status := congrArg Prod.snd h

/-- Queueing data leaves the label of the buffer alone. -/
@[simp] theorem fdcIntCopyAndGenEcc_label (ecc : EccCode α) (buff : BufferStruct α)
    (deblock : ℕ → α) (bsm : SectorMap) :
    (fdcIntCopyAndGenEcc ecc buff deblock bsm).1.label = buff.label := by
  unfold fdcIntCopyAndGenEcc
  dsimp only
  split <;> rfl

/-- The payload of a queued buffer is what the deblock buffer held. -/
theorem fdcIntCopyAndGenEcc_payload (ecc : EccCode α) (buff : BufferStruct α)
    (deblock : ℕ → α) (bsm : SectorMap) :
    window (fdcIntCopyAndGenEcc ecc buff deblock bsm).1.virtual 0 (segDataSz bsm) =
      window deblock 0 (segDataSz bsm) := by
  unfold fdcIntCopyAndGenEcc
  dsimp only
  split
  · rfl
  · apply window_congr
    intro i hi
    apply ecc.payload_unchanged
    simp only [segDataSz, ftSegmentSize, ftSectorsPerSegment, ftEccSectors] at hi ⊢
    rw [← Nat.sub_mul] at hi
    rwa [Nat.sub_right_comm, Nat.zero_add]

end Ftape.Write
