import Ftape.Compressor.Lzrw3
import Ftape.Volume.Entries
import Mathlib.Data.Nat.Bitwise

/-!
# Reading compressed volumes

A compressed volume is a sequence of clusters, each of them a block of data that was compressed or
stored. Clusters lie behind each other in the segments and may go on in the next segment. A cluster is
gathered in the cluster buffer, is uncompressed into the scratch buffer once it is complete, and is
handed to the user from there. Each access to these buffers and to the segment is recorded, and so is
what each step of reading finds when it begins.
-/

namespace Ftape.Compressor

open Ftape.Algebra Ftape.Volume

/-- `CMPR_OVERRUN`. -/
def cmprOverrun : ℕ := maxCmpGroup

/-- `cmpr_info`, less `cmpr_sz`. -/
structure CmprInfo where
  cmprPos : ℤ
  firstBlock : ℕ
  count : ℕ
  offset : ℕ
  spans : Bool
  uncmpr : ℕ
  foffs : ℤ

/-- A `cmpr_info` after `memset()`. -/
def CmprInfo.zero : CmprInfo := ⟨0, 0, 0, 0, false, 0, 0⟩

/-- A segment in the deblock buffer with its size. -/
structure Segment where
  data : ℕ → Byte
  size : ℕ
  sectors : ∃ sectors, 0 < sectors ∧ sectors ≤ ftSectorsPerSegment ∧ size = sectors * ftSectorSize

/-- `zftc_struct`, less the working memory and the statistics. -/
structure Zftc where
  buf : ℕ → Byte
  scratchBuf : ℕ → Byte
  cmprMemInitialized : Bool
  allocBlksz : ℕ
  cseg : CmprInfo

/-- The size that `buf` and `scratch_buf` are allocated with. -/
def Zftc.room (zftc : Zftc) : ℕ := Header.uint (zftc.allocBlksz + cmprOverrun)

/-- A `zftc_struct` as `zftc_open()` hands it out. -/
def Zftc.opened : Zftc := ⟨fun _ => 0, fun _ => 0, false, 0, .zero⟩

/-- The accesses of reading, and what its steps begin with: a new place on the tape, a segment that was
just read, a cluster that starts in a segment, and a cluster that is complete. -/
inductive Event where
  | access (access : Access)
  | moved (volume : VtblEntry) (cseg : CmprInfo)
  | newSegment (segment : Segment) (cseg : CmprInfo)
  | nextCluster (volume : VtblEntry) (segment : Segment) (cseg : CmprInfo)
  | uncompress (volume : VtblEntry) (zftc : Zftc)

/-- Routines of the compressor. -/
abbrev Reading (Value : Type) := Recorded Event Halt Value

/-- The error codes of reading. -/
inductive ReadError where
  | eio
  | efault
  | enomem
deriving DecidableEq

/-- A difference of `unsigned int`. -/
def uintSub (a b : ℕ) : ℕ := Header.uint (a + 0x100000000 - b)

/-- What is given from outside when `zftc_read()` is called: the place in the segment and the segment,
how much the user asks for, the memory that an allocation finds, and the places of the user's buffer
that cannot be written. -/
structure ReadCall where
  segBytePos : ℕ
  segPos : ℕ
  segment : Segment
  toDo : ℤ
  memory : Option ((ℕ → Byte) × (ℕ → Byte))
  userFault : ℤ → Bool

/-- The variables of `zftc_read()`, and the error it returns. -/
structure Progress where
  zftc : Zftc
  readCnt : ℤ
  result : ℤ
  remaining : ℤ
  error : Option ReadError

section Routines

variable (bigEndian : Bool) (volume : VtblEntry) (segment : Segment)

/-- A number in the segment. -/
def Segment.get (offset bytes : ℕ) : Reading ℕ := do
  Recorded.note (.access ⟨.segment, offset, bytes, segment.size⟩)
  pure (fetch bigEndian segment.data offset bytes)

/-- The part of `get_cseg()` for the data that goes on from the segment before. -/
def continuedCluster (firstBlock : ℕ) (cinfo : CmprInfo) : CmprInfo :=
  if firstBlock = 0 then
    { cinfo with firstBlock, count := uintSub segment.size 2, offset := segment.size, spans := true }
  else { cinfo with firstBlock, count := uintSub firstBlock 2, offset := firstBlock, spans := false }

/-- The part of `get_cseg()` that takes the file offset of the first cluster. -/
def fileOffset (cinfo : CmprInfo) : Reading CmprInfo :=
  if 18 < uintSub segment.size cinfo.offset then
    if volume.qic113 then do
      let foffs ← segment.get bigEndian cinfo.offset 8
      pure { cinfo with foffs := (foffs : ℤ).bmod (2 ^ 64), offset := Header.uint (cinfo.offset + 8) }
    else do
      let foffs ← segment.get bigEndian cinfo.offset 4
      pure { cinfo with foffs := foffs, offset := Header.uint (cinfo.offset + 4) }
  else pure cinfo

/-- The sum of `cmpr_pos` and `count` as an `unsigned int`. -/
def CmprInfo.pending (cinfo : CmprInfo) : ℕ := ((cinfo.cmprPos + cinfo.count) % 0x100000000).toNat

/-- `get_cseg()`: whether the segment is consistent. -/
def getCseg (cinfo : CmprInfo) : Reading (Bool × CmprInfo) := do
  let firstBlock ← segment.get bigEndian 0 2
  if segment.size < firstBlock then pure (false, { cinfo with firstBlock })
  else do
    let cinfo ← fileOffset bigEndian volume segment (continuedCluster segment firstBlock cinfo)
    pure (cinfo.foffs ≤ volume.size ∧ cinfo.pending ≤ volume.blkSz, cinfo)

/-- `get_next_cluster()`. -/
def getNextCluster (finish : Bool) (cluster : CmprInfo) : Reading CmprInfo :=
  if 18 < uintSub segment.size cluster.offset ∨ cluster.foffs ≠ 0 then do
    let header ← segment.get bigEndian cluster.offset 2
    let uncmpr := header &&& 0x8000
    let count := header - uncmpr
    let offset := Header.uint (cluster.offset + 2)
    let stop := Header.uint (offset + count)
    let cluster := { cluster with count, uncmpr, offset, foffs := 0 }
    pure (if stop < segment.size then { cluster with spans := false }
      else if stop = segment.size then { cluster with spans := !finish }
      else { cluster with spans := true, count := uintSub segment.size offset })
  else pure { cluster with count := 0, spans := false, foffs := 0 }

/-- `memcpy()` from the segment into `buf`. -/
def Zftc.fill (zftc : Zftc) (dst : ℤ) (src count : ℕ) : Reading Zftc := do
  Recorded.note (.access ⟨.segment, src, count, segment.size⟩)
  Recorded.note (.access ⟨.cluster, dst, count, zftc.room⟩)
  pure { zftc with buf := blit zftc.buf dst.toNat segment.data src count }

/-- `zft_allocate_cmpr_mem()`: whether there is memory. -/
def zftAllocateCmprMem (memory : Option ((ℕ → Byte) × (ℕ → Byte))) (blksz : ℕ) (zftc : Zftc) :
    Bool × Zftc :=
  if zftc.cmprMemInitialized ∧ blksz = zftc.allocBlksz then (true, zftc)
  else match memory with
    | some (buf, scratchBuf) =>
      (true, { zftc with buf, scratchBuf, allocBlksz := blksz, cmprMemInitialized := true })
    | none => (false, { zftc with allocBlksz := 0, cmprMemInitialized := false })

/-- `zft_uncompress()`. -/
def zftUncompress (zftc : Zftc) (inSz : ℤ) (maxOutSz : ℕ) : Reading (ℕ × (ℕ → Byte)) :=
  (compressDecompress zftc.buf zftc.room inSz maxOutSz zftc.scratchBuf).translate Event.access

/-- The part of `zftc_read()` for a segment that was just read. -/
def startSegment (p : Progress) : Reading Progress := do
  Recorded.note (.newSegment segment p.zftc.cseg)
  let (consistent, cseg) ← getCseg bigEndian volume segment p.zftc.cseg
  if consistent then do
    let zftc ← { p.zftc with cseg := cseg }.fill segment cseg.cmprPos 2 cseg.count
    pure { p with
      zftc := { zftc with cseg := { cseg with cmprPos := Header.int (cseg.cmprPos + cseg.count) } }
      readCnt := Header.int cseg.offset }
  else pure { p with zftc := { p.zftc with cseg := cseg }, readCnt := 0, error := some .eio }

/-- The part of the loop that uncompresses a complete cluster. -/
def uncompressCluster (userFault : ℤ → Bool) (p : Progress) : Reading Progress :=
  if p.zftc.cseg.cmprPos ≠ 0 then do
    Recorded.note (.uncompress volume p.zftc)
    let cseg := p.zftc.cseg
    let (uncompressedSz, scratchBuf) ← zftUncompress p.zftc
      (if cseg.uncmpr = 0x8000 then -cseg.cmprPos else cseg.cmprPos) volume.blkSz
    let zftc := { p.zftc with scratchBuf }
    if uncompressedSz ≠ volume.blkSz then pure { p with zftc, readCnt := 0, error := some .eio }
    else do
      Recorded.note (.access ⟨.scratch, 0, volume.blkSz, zftc.room⟩)
      if userFault p.result then pure { p with zftc, error := some .efault }
      else pure { p with
        zftc := { zftc with cseg := { cseg with cmprPos := 0 } }
        remaining := p.remaining - volume.blkSz
        result := p.result + volume.blkSz }
  else pure p

/-- The part of the loop that takes the next cluster. -/
def fillCluster (finish : Bool) (p : Progress) : Reading Progress :=
  if 0 < p.remaining then do
    Recorded.note (.nextCluster volume segment p.zftc.cseg)
    let cseg ← getNextCluster bigEndian segment finish p.zftc.cseg
    if cseg.count ≠ 0 then do
      let zftc ← { p.zftc with cseg := cseg }.fill segment 0 cseg.offset cseg.count
      pure { p with
        zftc := { zftc with cseg := { cseg with
          cmprPos := Header.int cseg.count
          offset := Header.uint (cseg.offset + cseg.count) } }
        readCnt := Header.int (p.readCnt + cseg.count + 2) }
    else pure { p with zftc := { p.zftc with cseg := cseg }, remaining := 0 }
  else pure p

/-- The loop of `zftc_read()`. -/
def readLoop (finish : Bool) (userFault : ℤ → Bool) : ℕ → Progress → Reading Progress
  | 0, _ => .halt .outOfRounds
  | rounds + 1, p =>
    if p.zftc.cseg.spans = false ∧ 0 < p.remaining then do
      let p ← uncompressCluster volume userFault p
      if p.error = none then do
        let p ← fillCluster bigEndian volume segment finish p
        readLoop finish userFault rounds p
      else pure p
    else pure p

/-- The end of `zftc_read()`, where less than a cluster header is left of the segment. -/
def expandReadCnt (p : Progress) : Progress :=
  let rest := uintSub segment.size p.zftc.cseg.offset
  if p.error = none ∧ rest ≤ 18 then { p with readCnt := Header.int (p.readCnt + rest) } else p

end Routines

/-- The part of `zftc_read()` in front of the loop. -/
def beginRead (bigEndian : Bool) (volume : VtblEntry) (call : ReadCall) (zftc : Zftc) :
    Reading Progress :=
  let p : Progress := ⟨zftc, 0, 0, call.toDo, none⟩
  if call.segBytePos = 0 then startSegment bigEndian volume call.segment p else pure p

/-- `zftc_read()`. Each cluster takes a header, which bounds the rounds. -/
def zftcRead (bigEndian : Bool) (volume : VtblEntry) (call : ReadCall) (zftc : Zftc) :
    Reading Progress :=
  match zftAllocateCmprMem call.memory volume.blkSz zftc with
  | (false, zftc) => pure ⟨zftc, 0, 0, call.toDo, some .enomem⟩
  | (true, zftc) => do
    let p ← beginRead bigEndian volume call zftc
    if p.error = none then do
      let p ← readLoop bigEndian volume call.segment (volume.endSeg = call.segPos) call.userFault
        (call.segment.size + 2) p
      pure (expandReadCnt call.segment p)
    else pure p

/-- What the driver does with the compressor: it reads at some place of a segment, or something else than
reading has left it on a volume with a `cmpr_info`, as `zftc_seek()`, `zftc_close()` and the change of
volumes do. -/
inductive Op where
  | read (call : ReadCall)
  | move (volume : VtblEntry) (cseg : CmprInfo)

/-- One of these. -/
def step (bigEndian : Bool) : Op → VtblEntry × Zftc → Reading (VtblEntry × Zftc)
  | .read call, (volume, zftc) => do
    let p ← zftcRead bigEndian volume call zftc
    pure (volume, p.zftc)
  | .move volume cseg, (_, zftc) => do
    Recorded.note (.moved volume cseg)
    pure (volume, { zftc with cseg })

/-- Some of these, one after the other. -/
def run (bigEndian : Bool) : List Op → VtblEntry × Zftc → Reading (VtblEntry × Zftc)
  | [], s => pure s
  | op :: ops, s => do
    let s ← step bigEndian op s
    run bigEndian ops s

/-- A run begins on a volume, behind `zftc_open()`. -/
def readRun (bigEndian : Bool) (volume : VtblEntry) (ops : List Op) : Reading (VtblEntry × Zftc) :=
  run bigEndian (.move volume .zero :: ops) (volume, .opened)

/-- A cluster that starts in a segment fits: its header lies in the segment, and the bytes of it that the
segment has fit the buffer. -/
def ClusterFits (bigEndian : Bool) (volume : VtblEntry) (segment : Segment) (cseg : CmprInfo) : Prop :=
  18 < uintSub segment.size cseg.offset ∨ cseg.foffs ≠ 0 →
    cseg.offset + 2 ≤ segment.size ∧
      min (fetch bigEndian segment.data cseg.offset 2 % 0x8000) (segment.size - (cseg.offset + 2)) ≤
        volume.blkSz + cmprOverrun

/-- What a step of reading must find. A place on the tape comes with no more of a cluster than the buffer
holds. Where a cluster goes on, the data from the segment before has a length. A cluster that starts in
a segment fits, and the items of compressed data lie in the buffer. -/
def Event.Sound (bigEndian : Bool) : Event → Prop
  | .access _ => True
  | .moved volume cseg => volume.blkSz + cmprOverrun < 0x80000000 ∧ 0 ≤ cseg.cmprPos ∧
      cseg.cmprPos ≤ (volume.blkSz + cmprOverrun : ℕ)
  | .newSegment segment cseg => cseg.cmprPos ≠ 0 → fetch bigEndian segment.data 0 2 ≠ 1
  | .nextCluster volume segment cseg => ClusterFits bigEndian volume segment cseg
  | .uncompress volume zftc => zftc.cseg.uncmpr ≠ 0x8000 →
      ItemsInside zftc.buf (volume.blkSz + cmprOverrun) zftc.cseg.cmprPos volume.blkSz

/-- An access stays inside. -/
def Event.Inside : Event → Prop
  | .access a => a.Inside
  | _ => True

instance : DecidablePred Event.Inside := fun
  | .access a => inferInstanceAs (Decidable a.Inside)
  | .moved _ _ | .newSegment _ _ | .nextCluster _ _ _ | .uncompress _ _ => inferInstanceAs (Decidable True)

/-- A routine stays inside if its steps find what they must. -/
abbrev ReadsInside (bigEndian : Bool) {Value : Type} (post : Value → Prop) (routine : Reading Value) :
    Prop :=
  routine.Guards (Event.Sound bigEndian) Event.Inside post

/-- The pending part of a cluster fits the buffers for a block size. -/
structure Pending (room : ℕ) (cmprPos : ℤ) : Prop where
  small : room < 0x80000000
  nonneg : 0 ≤ cmprPos
  fits : cmprPos ≤ room

/-- The buffers have been allocated for a volume, and hold the pending part of a cluster. -/
structure Zftc.Ready (volume : VtblEntry) (zftc : Zftc) : Prop where
  room_eq : zftc.room = volume.blkSz + cmprOverrun
  pending : Pending (volume.blkSz + cmprOverrun) zftc.cseg.cmprPos

section Safety

variable {bigEndian : Bool} {volume : VtblEntry} {segment : Segment} {zftc : Zftc}

/-- A step begins, and finds what it must. -/
theorem readsInside_begin {event : Event} (h : event.Inside) :
    ReadsInside bigEndian (fun _ => event.Sound bigEndian) (Recorded.note event) :=
  Recorded.Guards.note fun _ => h

/-- A single access. -/
theorem readsInside_access {access : Access} (h : access.Inside) :
    ReadsInside bigEndian (fun _ => True) (Recorded.note (.access access)) :=
  Recorded.Guards.note fun _ => h

/-- A segment has at least a sector, and at most the sectors of the deblock buffer. -/
theorem Segment.size_bounds (segment : Segment) : 1024 ≤ segment.size ∧ segment.size ≤ 0x8000 := by
  obtain ⟨sectors, hpos, hle, hsize⟩ := segment.sectors
  rw [ftSectorsPerSegment] at hle
  rw [ftSectorSize] at hsize
  omega

/-- A difference that does not wrap. -/
theorem uintSub_of_le {a b : ℕ} (h : b ≤ a) (ha : a < 0x100000000) : uintSub a b = a - b := by
  rw [uintSub, Header.uint]
  omega

/-- A number in the segment. -/
theorem Segment.get_inside {offset bytes : ℕ} (h : offset + bytes ≤ segment.size) :
    ReadsInside bigEndian (fun value => value = fetch bigEndian segment.data offset bytes)
      (segment.get bigEndian offset bytes) :=
  Recorded.Guards.bind (readsInside_access (inside_of_le h)) fun _ _ => Recorded.Guards.pure rfl

/-- What filling the buffer leaves of the compressor. -/
structure Zftc.Filled (zftc zftc' : Zftc) : Prop where
  room_eq : zftc'.room = zftc.room
  cseg : zftc'.cseg = zftc.cseg

/-- The buffer is filled from the segment. -/
theorem Zftc.fill_inside {dst : ℤ} {src count : ℕ} (hdst : 0 ≤ dst) (hroom : dst + count ≤ zftc.room)
    (hsrc : src + count ≤ segment.size) :
    ReadsInside bigEndian zftc.Filled (zftc.fill segment dst src count) := by
  refine Recorded.Guards.bind (readsInside_access (inside_of_le hsrc)) fun _ _ => ?_
  refine Recorded.Guards.bind (readsInside_access ⟨hdst, hroom⟩) fun _ _ => ?_
  exact Recorded.Guards.pure ⟨rfl, rfl⟩

/-- The data that goes on from the segment before lies in the segment. -/
theorem continuedCluster_count {firstBlock : ℕ} (cinfo : CmprInfo) (hfirst : firstBlock ≤ segment.size)
    (hone : firstBlock ≠ 1) : 2 + (continuedCluster segment firstBlock cinfo).count ≤ segment.size := by
  obtain ⟨hlow, hhigh⟩ := segment.size_bounds
  rw [continuedCluster]
  split
  · rw [uintSub_of_le (by omega) (by omega)]
    dsimp only
    omega
  · rw [uintSub_of_le (by omega) (by omega)]
    dsimp only
    omega

/-- The first cluster that starts in a segment starts in front of its end. -/
theorem continuedCluster_offset {firstBlock : ℕ} {cinfo : CmprInfo} (hfirst : firstBlock ≤ segment.size) :
    (continuedCluster segment firstBlock cinfo).offset ≤ segment.size := by
  rw [continuedCluster]
  split
  · exact le_rfl
  · exact hfirst

/-- The data that goes on from the segment before is added to what is pending. -/
theorem continuedCluster_cmprPos (firstBlock : ℕ) (cinfo : CmprInfo) :
    (continuedCluster segment firstBlock cinfo).cmprPos = cinfo.cmprPos := by
  rw [continuedCluster]
  split <;> rfl

/-- What the file offset leaves of the information. -/
structure CmprInfo.Offset (segment : Segment) (cinfo cinfo' : CmprInfo) : Prop where
  count : cinfo'.count = cinfo.count
  cmprPos : cinfo'.cmprPos = cinfo.cmprPos

/-- The file offset is taken from the segment. -/
theorem fileOffset_inside {cinfo : CmprInfo} (hoffset : cinfo.offset ≤ segment.size) :
    ReadsInside bigEndian (cinfo.Offset segment) (fileOffset bigEndian volume segment cinfo) := by
  obtain ⟨-, hhigh⟩ := segment.size_bounds
  rw [fileOffset]
  split
  next hroom =>
    rw [uintSub_of_le hoffset (by omega)] at hroom
    split
    · refine Recorded.Guards.bind (Segment.get_inside (by omega)) fun _ _ => ?_
      exact Recorded.Guards.pure ⟨rfl, rfl⟩
    · refine Recorded.Guards.bind (Segment.get_inside (by omega)) fun _ _ => ?_
      exact Recorded.Guards.pure ⟨rfl, rfl⟩
  next => exact Recorded.Guards.pure ⟨rfl, rfl⟩

/-- What `get_cseg()` says about the information it has set. -/
structure CmprInfo.Started (volume : VtblEntry) (segment : Segment) (cinfo cinfo' : CmprInfo)
    (consistent : Bool) : Prop where
  cmprPos : cinfo'.cmprPos = cinfo.cmprPos
  count : consistent = true → 2 + cinfo'.count ≤ segment.size
  fits : consistent = true → cinfo.cmprPos + cinfo'.count ≤ volume.blkSz

/-- A sum that does not wrap. -/
theorem CmprInfo.pending_eq (cinfo : CmprInfo) {room : ℕ} (h : Pending room cinfo.cmprPos)
    (hcount : cinfo.count ≤ 0x8000) : (cinfo.pending : ℤ) = cinfo.cmprPos + cinfo.count := by
  have hsmall := h.small
  have hnonneg := h.nonneg
  have hfits := h.fits
  rw [CmprInfo.pending]
  omega

/-- The count of no data at all is too large for any buffer. -/
theorem CmprInfo.pending_of_wrapped {cinfo : CmprInfo} (hpos : cinfo.cmprPos = 0)
    (hcount : cinfo.count = 0xffffffff) : cinfo.pending = 0xffffffff := by
  rw [CmprInfo.pending, hpos, hcount]
  decide

/-- A segment that begins with data from the segment before. -/
theorem getCseg_inside {cinfo : CmprInfo} (hpending : Pending (volume.blkSz + cmprOverrun) cinfo.cmprPos)
    (hsound : cinfo.cmprPos ≠ 0 → fetch bigEndian segment.data 0 2 ≠ 1) :
    ReadsInside bigEndian (fun result => cinfo.Started volume segment result.2 result.1)
      (getCseg bigEndian volume segment cinfo) := by
  obtain ⟨hlow, hhigh⟩ := segment.size_bounds
  rw [getCseg]
  refine Recorded.Guards.bind (Segment.get_inside (by omega)) ?_
  rintro firstBlock rfl
  generalize fetch bigEndian segment.data 0 2 = firstBlock at hsound ⊢
  split
  · exact Recorded.Guards.pure ⟨rfl, fun h => Bool.noConfusion h, fun h => Bool.noConfusion h⟩
  next hfirst =>
    have hfirst : firstBlock ≤ segment.size := Nat.not_lt.mp hfirst
    refine Recorded.Guards.bind (fileOffset_inside (continuedCluster_offset hfirst)) ?_
    intro cinfo' h
    have hpos : cinfo'.cmprPos = cinfo.cmprPos := h.cmprPos.trans (continuedCluster_cmprPos firstBlock cinfo)
    refine Recorded.Guards.pure ?_
    by_cases hone : firstBlock = 1
    · -- the length of the data wraps, and is refused unless a part of a cluster is pending
      have hzero : cinfo.cmprPos = 0 := by
        by_contra hne
        exact hsound hne hone
      have hcount : cinfo'.count = 0xffffffff := by
        rw [h.count, continuedCluster, hone]
        rfl
      have hwrapped := CmprInfo.pending_of_wrapped (hpos.trans hzero) hcount
      have hrefused : ¬(cinfo'.foffs ≤ volume.size ∧ cinfo'.pending ≤ volume.blkSz) := by
        have := hpending.small
        omega
      refine ⟨hpos, fun h => ?_, fun h => ?_⟩
      · exact absurd (of_decide_eq_true h) hrefused
      · exact absurd (of_decide_eq_true h) hrefused
    · have hbounds := continuedCluster_count cinfo hfirst hone
      rw [← h.count] at hbounds
      refine ⟨hpos, fun _ => hbounds, fun h => ?_⟩
      have haccepted := (of_decide_eq_true h).2
      have hsum := cinfo'.pending_eq (hpos ▸ hpending) (by omega)
      rw [hpos] at hsum
      change cinfo.cmprPos + cinfo'.count ≤ volume.blkSz
      omega

/-- The information about a cluster that starts in a segment. -/
structure CmprInfo.Next (volume : VtblEntry) (segment : Segment) (cseg cseg' : CmprInfo) : Prop where
  cmprPos : cseg'.cmprPos = cseg.cmprPos
  starts : cseg'.count ≠ 0 → cseg.offset + 2 ≤ cseg'.offset
  inside : cseg'.count ≠ 0 → cseg'.offset + cseg'.count ≤ segment.size
  fits : cseg'.count ≠ 0 → cseg'.count ≤ volume.blkSz + cmprOverrun

/-- A cluster header without its highest bit. -/
theorem header_sub_highBit {header : ℕ} (h : header < 0x10000) :
    header - (header &&& 0x8000) = header % 0x8000 := by
  have hbit : header &&& 0x8000 = (header.testBit 15).toNat * 0x8000 := Nat.and_two_pow header 15
  rw [hbit, Nat.toNat_testBit]
  omega

/-- A cluster that starts in a segment. -/
theorem getNextCluster_inside {finish : Bool} {cseg : CmprInfo}
    (hsound : ClusterFits bigEndian volume segment cseg) :
    ReadsInside bigEndian (cseg.Next volume segment) (getNextCluster bigEndian segment finish cseg) := by
  obtain ⟨hlow, hhigh⟩ := segment.size_bounds
  rw [getNextCluster]
  split
  next hstarts =>
    obtain ⟨hoffset, hfits⟩ := hsound hstarts
    have hheader := fetch_lt bigEndian segment.data cseg.offset 2
    refine Recorded.Guards.bind (Segment.get_inside hoffset) ?_
    rintro header rfl
    generalize fetch bigEndian segment.data cseg.offset 2 = header at hfits hheader ⊢
    refine Recorded.Guards.pure ?_
    have hcount := header_sub_highBit hheader
    have hoffset' : Header.uint (cseg.offset + 2) = cseg.offset + 2 := by
      rw [Header.uint]
      omega
    have hstop : Header.uint (cseg.offset + 2 + header % 0x8000) = cseg.offset + 2 + header % 0x8000 := by
      rw [Header.uint]
      omega
    dsimp only
    rw [hcount, hoffset', hstop]
    split_ifs with hless hequal
    · refine ⟨rfl, fun _ => le_rfl, fun _ => ?_, fun _ => ?_⟩
      · exact hless.le
      · change header % 0x8000 ≤ _
        omega
    · refine ⟨rfl, fun _ => le_rfl, fun _ => ?_, fun _ => ?_⟩
      · exact hequal.le
      · change header % 0x8000 ≤ _
        omega
    · rw [uintSub_of_le hoffset (by omega)]
      refine ⟨rfl, fun _ => le_rfl, fun _ => ?_, fun _ => ?_⟩
      · change cseg.offset + 2 + (segment.size - (cseg.offset + 2)) ≤ segment.size
        omega
      · change segment.size - (cseg.offset + 2) ≤ _
        omega
  next =>
    exact Recorded.Guards.pure ⟨rfl, fun h => absurd rfl h, fun h => absurd rfl h, fun h => absurd rfl h⟩

/-- The buffers do not change with the information about the segment. -/
theorem Zftc.ready_of_cseg {cseg : CmprInfo} (hroom : zftc.room = volume.blkSz + cmprOverrun)
    (hpending : Pending (volume.blkSz + cmprOverrun) cseg.cmprPos) :
    ({ zftc with cseg := cseg } : Zftc).Ready volume := ⟨hroom, hpending⟩

/-- A number below the range of `int`. -/
theorem int_natCast {value : ℕ} (h : value < 0x80000000) : Header.int value = value :=
  Header.int_eq_self (by omega) (by omega)

/-- A segment that was just read fills the buffer with the data that goes on. -/
theorem startSegment_inside {p : Progress} (h : p.zftc.Ready volume) :
    ReadsInside bigEndian (fun p' => p'.zftc.Ready volume) (startSegment bigEndian volume segment p) := by
  rw [startSegment]
  refine Recorded.Guards.bind (readsInside_begin trivial) fun _ hsound => ?_
  refine Recorded.Guards.bind (getCseg_inside h.pending hsound) ?_
  rintro ⟨consistent, cseg⟩ hstarted
  have hpos : cseg.cmprPos = p.zftc.cseg.cmprPos := hstarted.cmprPos
  have hpending := h.pending
  cases consistent with
  | false =>
    refine Recorded.Guards.pure ⟨h.room_eq, ?_⟩
    change Pending _ cseg.cmprPos
    rwa [hpos]
  | true =>
    have hcount : 2 + cseg.count ≤ segment.size := hstarted.count rfl
    have hfits : p.zftc.cseg.cmprPos + cseg.count ≤ volume.blkSz := hstarted.fits rfl
    have hroom : ({ p.zftc with cseg := cseg } : Zftc).room = volume.blkSz + cmprOverrun := h.room_eq
    have hnonneg := hpending.nonneg
    have hsmall := hpending.small
    refine Recorded.Guards.bind (Zftc.fill_inside (by omega) (by rw [hroom]; push_cast; omega) hcount) ?_
    intro zftc hfilled
    refine Recorded.Guards.pure ⟨hfilled.room_eq.trans hroom, ?_⟩
    have hsum : Header.int (cseg.cmprPos + cseg.count) = cseg.cmprPos + cseg.count :=
      Header.int_eq_self (by omega) (by omega)
    change Pending _ (Header.int (cseg.cmprPos + cseg.count))
    rw [hsum, hpos]
    exact ⟨hsmall, by omega, by push_cast; omega⟩

/-- A complete cluster is uncompressed inside the buffers. -/
theorem uncompressCluster_inside {p : Progress} {userFault : ℤ → Bool} (h : p.zftc.Ready volume) :
    ReadsInside bigEndian (fun p' => p'.zftc.Ready volume ∧
      p'.zftc.cseg.offset = p.zftc.cseg.offset) (uncompressCluster volume userFault p) := by
  have hpending := h.pending
  have hnonneg := hpending.nonneg
  have hfits := hpending.fits
  rw [uncompressCluster]
  split
  next hne =>
    refine Recorded.Guards.bind (readsInside_begin trivial) fun _ hsound => ?_
    have huncompress : ReadsInside bigEndian (fun _ => True) (zftUncompress p.zftc
        (if p.zftc.cseg.uncmpr = 0x8000 then -p.zftc.cseg.cmprPos else p.zftc.cseg.cmprPos)
        volume.blkSz) := by
      refine Recorded.Guards.translate (compressDecompress_inside ?_ ?_ ?_)
      · rw [h.room_eq]
        exact Nat.add_le_add_left (by decide) _
      · intro _
        rw [h.room_eq]
        split <;> omega
      · intro hlen
        rw [h.room_eq]
        split at hlen
        · omega
        next hcompressed =>
          rw [if_neg hcompressed]
          exact hsound hcompressed
    refine Recorded.Guards.bind huncompress ?_
    rintro ⟨uncompressedSz, scratchBuf⟩ -
    dsimp only
    split
    · exact Recorded.Guards.pure ⟨⟨h.room_eq, hpending⟩, rfl⟩
    · have hroom : ({ p.zftc with scratchBuf := scratchBuf } : Zftc).room = volume.blkSz + cmprOverrun :=
        h.room_eq
      have hblock : 0 + volume.blkSz ≤ ({ p.zftc with scratchBuf := scratchBuf } : Zftc).room := by
        rw [hroom, Nat.zero_add]
        exact Nat.le_add_right _ _
      refine Recorded.Guards.bind (readsInside_access (inside_of_le hblock)) fun _ _ => ?_
      split
      · exact Recorded.Guards.pure ⟨⟨h.room_eq, hpending⟩, rfl⟩
      · refine Recorded.Guards.pure ⟨⟨h.room_eq, hpending.small, le_rfl, ?_⟩, rfl⟩
        exact Int.natCast_nonneg _
  next => exact Recorded.Guards.pure ⟨h, rfl⟩

/-- The loop of `zftc_read()` goes on. -/
def Progress.GoesOn (p : Progress) : Prop := p.zftc.cseg.spans = false ∧ 0 < p.remaining

/-- The next cluster fills the buffer, and the place in the segment moves on if the loop does. -/
theorem fillCluster_inside {p : Progress} {finish : Bool} (h : p.zftc.Ready volume) :
    ReadsInside bigEndian (fun p' => p'.zftc.Ready volume ∧ (p'.GoesOn →
      p.zftc.cseg.offset < p'.zftc.cseg.offset ∧ p'.zftc.cseg.offset ≤ segment.size))
      (fillCluster bigEndian volume segment finish p) := by
  obtain ⟨-, hhigh⟩ := segment.size_bounds
  have hpending := h.pending
  have hsmall := hpending.small
  rw [fillCluster]
  split
  next hmore =>
    refine Recorded.Guards.bind (readsInside_begin trivial) fun _ hsound => ?_
    refine Recorded.Guards.bind (getNextCluster_inside hsound) fun cseg hnext => ?_
    split
    next hcount =>
      have hstarts := hnext.starts hcount
      have hinside := hnext.inside hcount
      have hfits := hnext.fits hcount
      have hroom : ({ p.zftc with cseg := cseg } : Zftc).room = volume.blkSz + cmprOverrun := h.room_eq
      refine Recorded.Guards.bind (Zftc.fill_inside le_rfl (by rw [hroom]; omega) hinside) ?_
      intro zftc hfilled
      have hint : Header.int cseg.count = cseg.count := int_natCast (by omega)
      have huint : Header.uint (cseg.offset + cseg.count) = cseg.offset + cseg.count := by
        rw [Header.uint]
        omega
      rw [hint, huint]
      refine Recorded.Guards.pure ⟨Zftc.ready_of_cseg (hfilled.room_eq.trans hroom) ?_, fun _ => ⟨?_, ?_⟩⟩
      · exact ⟨hsmall, Int.natCast_nonneg _, by dsimp only; omega⟩
      · dsimp only
        omega
      · exact hinside
    next =>
      refine Recorded.Guards.pure ⟨⟨h.room_eq, ?_⟩, fun hgoes => ?_⟩
      · change Pending _ cseg.cmprPos
        rwa [hnext.cmprPos]
      · have hnothing : (0 : ℤ) < 0 := hgoes.2
        omega
  next hdone => exact Recorded.Guards.pure ⟨h, fun hgoes => absurd hgoes.2 hdone⟩

/-- The loop stays inside. Each round but the last moves on in the segment. -/
theorem readLoop_inside {p : Progress} {finish : Bool} {userFault : ℤ → Bool} {rounds : ℕ}
    (h : p.zftc.Ready volume) (hrounds : 1 ≤ rounds)
    (hgoes : p.GoesOn → 2 + (segment.size - p.zftc.cseg.offset) ≤ rounds) :
    ReadsInside bigEndian (fun p' => p'.zftc.Ready volume)
      (readLoop bigEndian volume segment finish userFault rounds p) := by
  induction rounds generalizing p with
  | zero => omega
  | succ rounds ih =>
    rw [readLoop]
    split
    next hon =>
      have hleft := hgoes hon
      refine Recorded.Guards.bind (uncompressCluster_inside h) ?_
      rintro p₁ ⟨h₁, hoffset₁⟩
      split
      · refine Recorded.Guards.bind (fillCluster_inside h₁) ?_
        rintro p₂ ⟨h₂, hmoves⟩
        refine ih h₂ (by omega) fun hgoes₂ => ?_
        obtain ⟨hstarts, hinside⟩ := hmoves hgoes₂
        omega
      · exact Recorded.Guards.pure h₁
    next => exact Recorded.Guards.pure h

/-- The end of reading moves no data. -/
theorem expandReadCnt_zftc (p : Progress) : (expandReadCnt segment p).zftc = p.zftc := by
  rw [expandReadCnt]
  split <;> rfl

/-- Memory that could be had is what the volume needs. -/
theorem zftAllocateCmprMem_ready {memory : Option ((ℕ → Byte) × (ℕ → Byte))} {zftc' : Zftc}
    (hpending : Pending (volume.blkSz + cmprOverrun) zftc.cseg.cmprPos)
    (h : zftAllocateCmprMem memory volume.blkSz zftc = (true, zftc')) : zftc'.Ready volume := by
  have hroom : Header.uint (volume.blkSz + cmprOverrun) = volume.blkSz + cmprOverrun := by
    have := hpending.small
    rw [Header.uint]
    omega
  unfold zftAllocateCmprMem at h
  split at h
  next hsame =>
    cases h
    refine ⟨?_, hpending⟩
    rw [Zftc.room, ← hsame.2, hroom]
  next =>
    cases memory with
    | none => cases h
    | some buffers =>
      cases h
      exact ⟨hroom, hpending⟩

/-- Memory that could not be had leaves the pending part alone. -/
theorem zftAllocateCmprMem_cseg (memory : Option ((ℕ → Byte) × (ℕ → Byte))) (blksz : ℕ) (zftc : Zftc) :
    (zftAllocateCmprMem memory blksz zftc).2.cseg = zftc.cseg := by
  unfold zftAllocateCmprMem
  split
  · rfl
  · cases memory <;> rfl

/-- A call of `zftc_read()` stays inside. -/
theorem zftcRead_inside {call : ReadCall} (h : Pending (volume.blkSz + cmprOverrun) zftc.cseg.cmprPos) :
    ReadsInside bigEndian (fun p => Pending (volume.blkSz + cmprOverrun) p.zftc.cseg.cmprPos)
      (zftcRead bigEndian volume call zftc) := by
  have hcseg := zftAllocateCmprMem_cseg call.memory volume.blkSz zftc
  rw [zftcRead]
  cases hallocated : zftAllocateCmprMem call.memory volume.blkSz zftc with
  | mk success zftc' =>
    rw [hallocated] at hcseg
    cases success with
    | false =>
      refine Recorded.Guards.pure ?_
      change Pending _ zftc'.cseg.cmprPos
      rwa [hcseg]
    | true =>
      have hready := zftAllocateCmprMem_ready h hallocated
      have hbegin : ReadsInside bigEndian (fun p => p.zftc.Ready volume)
          (beginRead bigEndian volume call zftc') := by
        rw [beginRead]
        split
        · exact startSegment_inside hready
        · exact Recorded.Guards.pure hready
      refine Recorded.Guards.bind hbegin fun p hp => ?_
      split
      · refine Recorded.Guards.bind (readLoop_inside hp (by omega) fun _ => by omega) fun p' hp' => ?_
        refine Recorded.Guards.pure ?_
        rw [expandReadCnt_zftc]
        exact hp'.pending
      · exact Recorded.Guards.pure hp.pending

/-- One step of the driver stays inside. -/
theorem step_inside {op : Op} (h : Pending (volume.blkSz + cmprOverrun) zftc.cseg.cmprPos) :
    ReadsInside bigEndian (fun s => Pending (s.1.blkSz + cmprOverrun) s.2.cseg.cmprPos)
      (step bigEndian op (volume, zftc)) := by
  cases op with
  | read call => exact Recorded.Guards.bind (zftcRead_inside h) fun _ hp => Recorded.Guards.pure hp
  | move volume cseg =>
    refine Recorded.Guards.bind (readsInside_begin trivial) fun _ hsound => ?_
    exact Recorded.Guards.pure ⟨hsound.1, hsound.2.1, hsound.2.2⟩

/-- A run of the driver stays inside. -/
theorem run_inside {ops : List Op} (h : Pending (volume.blkSz + cmprOverrun) zftc.cseg.cmprPos) :
    ReadsInside bigEndian (fun s => Pending (s.1.blkSz + cmprOverrun) s.2.cseg.cmprPos)
      (run bigEndian ops (volume, zftc)) := by
  induction ops generalizing volume zftc with
  | nil => exact Recorded.Guards.pure h
  | cons op ops ih =>
    refine Recorded.Guards.bind (step_inside h) ?_
    rintro ⟨volume', zftc'⟩ h'
    exact ih h'

end Safety

/-- Reading compressed volumes stays inside the segment, the cluster buffer, the scratch buffer and the
tables of the decompressor in each run whose steps find what they must, and every call comes to its
end. -/
theorem readRun_inside (bigEndian : Bool) (volume : VtblEntry) (ops : List Op)
    (hsound : ∀ event ∈ (readRun bigEndian volume ops).queries, event.Sound bigEndian) :
    (∀ event ∈ (readRun bigEndian volume ops).queries, event.Inside) ∧
      ∃ s, (readRun bigEndian volume ops).result = .ok s := by
  have hmove : ReadsInside bigEndian (fun s => Pending (s.1.blkSz + cmprOverrun) s.2.cseg.cmprPos)
      (step bigEndian (.move volume .zero) (volume, .opened)) := by
    refine Recorded.Guards.bind (readsInside_begin trivial) fun _ h => ?_
    exact Recorded.Guards.pure ⟨h.1, h.2.1, h.2.2⟩
  have hrun : ReadsInside bigEndian (fun _ => True) (readRun bigEndian volume ops) := by
    refine Recorded.Guards.bind hmove ?_
    rintro ⟨volume', zftc'⟩ h
    exact (run_inside h).mono fun _ _ => trivial
  obtain ⟨hinside, s, hresult, -⟩ := hrun hsound
  exact ⟨hinside, s, hresult⟩

/-- A volume of blocks of 1024 bytes. -/
def smallBlocks : VtblEntry :=
  { VtblEntry.blank with
    startSeg := 3, endSeg := 10, size := 4096, rawsize := 8 * 29696, blkSz := 1024
    zftVolume := true, useCompression := true, qic113 := true }

/-- A segment in which a cluster with a header of two bytes follows a file offset of zero. -/
def clusterSegment (low high : Byte) : Segment where
  data := fun k => if k = 0 then 2 else if k = 10 then low else if k = 11 then high else 0
  size := 29 * ftSectorSize
  sectors := ⟨29, by decide⟩

/-- The first block of the volume is asked for. -/
def firstRead (segment : Segment) : ReadCall :=
  ⟨0, 3, segment, 1024, some (fun _ => 0, fun _ => 0), fun _ => false⟩

/-- Copy items for eighteen bytes of the phrase `abc`. -/
def copyBytes (count : ℕ) : List Byte :=
  (List.replicate count
    [BitVec.ofNat 8 (hashOf 97 98 99 / 256 * 16 + 15), BitVec.ofNat 8 (hashOf 97 98 99 % 256)]).flatten

/-- The compressed data of a block `abcabc` and so on: three bytes, and sixty items in all. -/
def phraseBytes : List Byte :=
  [0, 0, 0, 0, 0xf8, 0xff, 97, 98, 99] ++ copyBytes 13 ++ ([0xff, 0xff] ++ copyBytes 16) ++
    ([0xff, 0xff] ++ copyBytes 16) ++ ([0xff, 0x0f] ++ copyBytes 11 ++
      [BitVec.ofNat 8 (hashOf 97 98 99 / 256 * 16 + 10), BitVec.ofNat 8 (hashOf 97 98 99 % 256)])

/-- A block of bytes that count up. -/
def countBytes : List Byte := (List.range 1024).map fun i => BitVec.ofNat 8 (i + 1)

/-- A segment of one sector with a compressed cluster, and with 881 bytes of a stored one behind it. -/
def frontBytes : List Byte :=
  [2, 0] ++ List.replicate 8 0 ++ [129, 0] ++ phraseBytes ++ [0x71, 0x83] ++ countBytes.take 881

/-- A segment of one sector with the rest of the stored cluster. -/
def backBytes : List Byte := [145, 0] ++ countBytes.drop 881

/-- A tape of two such segments. -/
def pairData (segment k : ℕ) : Byte := (if segment = 1 then frontBytes else backBytes).getD k 0

/-- The segments of the tape. -/
def pairSegment (segment : ℕ) : Segment := ⟨pairData segment, ftSectorSize, 1, by decide⟩

/-- A volume of two segments. -/
def pairVolume : VtblEntry := { smallBlocks with startSeg := 1, endSeg := 2 }

/-- Two blocks are asked for in the first segment, and the second one of them in the second segment. -/
def pairReads : List Op :=
  [.read ⟨0, 1, pairSegment 1, 2048, some (fun _ => 0, fun _ => 0), fun _ => false⟩,
    .read ⟨0, 2, pairSegment 2, 1024, some (fun _ => 0, fun _ => 0), fun _ => false⟩]

/-- A check of events that is enough for compressed data of a known number of items. -/
def Event.checked (bigEndian : Bool) (items : ℕ) : Event → Bool
  | .nextCluster volume segment cseg =>
    cseg.offset + 2 ≤ segment.size ∧
      min (fetch bigEndian segment.data cseg.offset 2 % 0x8000) (segment.size - (cseg.offset + 2)) ≤
        volume.blkSz + cmprOverrun
  | .moved volume cseg => volume.blkSz + cmprOverrun < 0x80000000 ∧ 0 ≤ cseg.cmprPos ∧
      cseg.cmprPos ≤ (volume.blkSz + cmprOverrun : ℕ)
  | .newSegment segment _ => fetch bigEndian segment.data 0 2 ≠ 1
  | .uncompress volume zftc => zftc.cseg.uncmpr = 0x8000 ∨
      (((Place.next zftc.buf)^[items] Place.first).src : ℤ) = zftc.cseg.cmprPos ∧
        ∀ k < items, ((Place.next zftc.buf)^[k + 1] Place.first).src ≤ volume.blkSz + cmprOverrun
  | .access _ => true

/-- Events that pass the check are sound. -/
theorem Event.sound_of_checked {bigEndian : Bool} {items : ℕ} {event : Event}
    (h : event.checked bigEndian items = true) : event.Sound bigEndian := by
  cases event with
  | access a => trivial
  | moved volume cseg =>
    have h := of_decide_eq_true h
    exact h
  | newSegment segment cseg => exact fun _ => of_decide_eq_true h
  | nextCluster volume segment cseg => exact fun _ => of_decide_eq_true h
  | uncompress volume zftc =>
    intro hcompressed
    obtain ⟨hend, hitems⟩ := (of_decide_eq_true h).resolve_left hcompressed
    exact itemsInside_of_ends volume.blkSz hend hitems

/-- A compressed cluster is read, and a stored one that goes on in the next segment. -/
theorem readRun_inside_pair :
    (∀ event ∈ (readRun false pairVolume pairReads).queries, event.Inside) ∧
      ∃ s, (readRun false pairVolume pairReads).result = .ok s := by
  apply readRun_inside
  have hchecked : ∀ event ∈ (readRun false pairVolume pairReads).queries, event.checked false 60 = true := by
    decide +kernel
  intro event hevent
  exact Event.sound_of_checked (hchecked event hevent)

/-- The count of a cluster is not compared with the block size: the cluster buffer is left when the first
segment is read. -/
theorem readRun_outside :
    ∃ event ∈ (readRun false smallBlocks [.read (firstRead (clusterSegment 0xff 0xff))]).queries,
      ¬event.Inside := by
  decide +kernel

end Ftape.Compressor
