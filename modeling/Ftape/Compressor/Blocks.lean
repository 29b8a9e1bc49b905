import Ftape.Compressor.Format
import Ftape.Compressor.ReadVolume

/-!
# The blocks of a compressed volume

The blocks of a compressed volume are on the tape as clusters, one behind the other. A cluster that does not
fit the rest of a segment goes on in the segments behind it. A segment begins with the place of its first
cluster, with what belongs to a cluster in front of that, and with a file offset. What the driver hands out of
such a volume are its blocks in order, whatever the sizes of the requests and of the segments are.
-/

namespace Ftape.Compressor

open Ftape.Algebra Ftape.Volume Ftape.Write Ftape.Zftape

/-- The bytes of a cluster stand for a block: they are the block, or items of it behind the copy flag. -/
inductive StandsFor (block : List Byte) : Bool → List Byte → Prop
  | stored : StandsFor block true block
  | compressed (flag : List Byte) (items : List Item) (hflag : flag.length = flagBytes)
      (hdescribes : Describes block .first items) : StandsFor block false (flag ++ encodeItems items)

/-- A cluster: the block it stands for, whether the block is stored as it is, and the bytes on the tape. A
block that compression makes longer is stored. -/
structure Cluster (blkSz : ℕ) where
  block : List Byte
  stored : Bool
  bytes : List Byte
  block_length : block.length = blkSz
  nonempty : 0 < bytes.length
  fits : bytes.length ≤ blkSz
  standsFor : StandsFor block stored bytes

/-- The header of a cluster that has so many bytes in the segment. -/
def Cluster.header {blkSz : ℕ} (cluster : Cluster blkSz) (count : ℕ) : ℕ :=
  if cluster.stored then 0x8000 + count else count

/-- The size of a file offset. -/
def fileOffsetBytes (volume : VtblEntry) : ℕ := if volume.qic113 then 8 else 4

section Layout

variable (bigEndian : Bool) (volume : VtblEntry) (size : ℕ → ℕ) (data : ℕ → ℕ → Byte)

mutual

/-- The clusters start at an offset in a segment. The next one follows in the segment, ends the volume with the
segment, or goes on in the next segment, also if it ends with this one. Where there is no room for a header
and some bytes, the next segment begins with a cluster. -/
inductive StartAt : ℕ → ℕ → List (Cluster volume.blkSz) → Prop
  | none (s offset : ℕ) : StartAt s offset []
  | inside {s offset : ℕ} {cluster : Cluster volume.blkSz} {clusters : List (Cluster volume.blkSz)}
      (hroom : offset + 18 < size s)
      (hheader : fetch bigEndian (data s) offset 2 = cluster.header cluster.bytes.length)
      (hbytes : window (data s) (offset + 2) cluster.bytes.length = cluster.bytes)
      (hless : offset + 2 + cluster.bytes.length < size s)
      (hrest : StartAt s (offset + 2 + cluster.bytes.length) clusters) : StartAt s offset (cluster :: clusters)
  | last {s offset : ℕ} {cluster : Cluster volume.blkSz} (hroom : offset + 18 < size s)
      (hheader : fetch bigEndian (data s) offset 2 = cluster.header cluster.bytes.length)
      (hbytes : window (data s) (offset + 2) cluster.bytes.length = cluster.bytes)
      (hequal : offset + 2 + cluster.bytes.length = size s) (hlast : s = volume.endSeg) :
      StartAt s offset [cluster]
  | spans {s offset count : ℕ} {cluster : Cluster volume.blkSz} {clusters : List (Cluster volume.blkSz)}
      (hroom : offset + 18 < size s) (hheader : fetch bigEndian (data s) offset 2 = cluster.header count)
      (hequal : offset + 2 + count = size s) (hcount : count ≤ cluster.bytes.length)
      (hbytes : window (data s) (offset + 2) count = cluster.bytes.take count) (hlast : s < volume.endSeg)
      (hrest : GoOn (s + 1) (cluster.bytes.drop count) clusters) : StartAt s offset (cluster :: clusters)
  | full {s offset : ℕ} {clusters : List (Cluster volume.blkSz)} (hfull : size s ≤ offset + 18)
      (hrest : GoOn (s + 1) [] clusters) : StartAt s offset clusters

/-- A segment begins with bytes of a cluster, and the clusters behind it start there. The bytes may take the
whole segment, and a segment without usable sectors has none of them. Where there is room, a file offset is in
front of the first cluster that starts in the segment. There is room for the cluster as well: a request that ends
at a file offset with no more than 18 bytes behind it passes these bytes. -/
inductive GoOn : ℕ → List Byte → List (Cluster volume.blkSz) → Prop
  | skip {s : ℕ} {rest : List Byte} {clusters : List (Cluster volume.blkSz)} (htape : s < volume.endSeg)
      (hempty : size s = 0) (hrest : GoOn (s + 1) rest clusters) : GoOn s rest clusters
  | through {s : ℕ} {rest : List Byte} {clusters : List (Cluster volume.blkSz)} (htape : s < volume.endSeg)
      (hsize : 2 < size s) (hfirst : fetch bigEndian (data s) 0 2 = 0) (hlong : size s - 2 ≤ rest.length)
      (hbytes : window (data s) 2 (size s - 2) = rest.take (size s - 2))
      (hrest : GoOn (s + 1) (rest.drop (size s - 2)) clusters) : GoOn s rest clusters
  | ends {s : ℕ} {rest : List Byte} {clusters : List (Cluster volume.blkSz)} (htape : s ≤ volume.endSeg)
      (hfirst : fetch bigEndian (data s) 0 2 = 2 + rest.length) (hbytes : window (data s) 2 rest.length = rest)
      (hroom : 2 + rest.length + fileOffsetBytes volume + 18 < size s)
      (hoffset : (fetch bigEndian (data s) (2 + rest.length) (fileOffsetBytes volume) : ℤ) ≤ volume.size)
      (hrest : StartAt s (2 + rest.length + fileOffsetBytes volume) clusters) : GoOn s rest clusters
  | late {s : ℕ} {rest : List Byte} {clusters : List (Cluster volume.blkSz)} (htape : s ≤ volume.endSeg)
      (hfirst : fetch bigEndian (data s) 0 2 = 2 + rest.length) (hbytes : window (data s) 2 rest.length = rest)
      (hless : 2 + rest.length ≤ size s) (hroom : size s ≤ 2 + rest.length + 18)
      (hrest : StartAt s (2 + rest.length) clusters) : GoOn s rest clusters

end

end Layout

/-- `copy_to_user()` of the scratch buffer, once it holds a block. -/
def Event.handedOut : Event → List Byte
  | .uncompress volume zftc =>
    match (zftUncompress zftc zftc.inSz volume.blkSz).result with
    | .ok (uncompressedSz, scratchBuf) =>
      if uncompressedSz ≠ volume.blkSz then [] else window scratchBuf 0 uncompressedSz
    | .error _ => []
  | .access _ | .moved _ _ | .newSegment _ _ | .nextCluster _ _ _ => []

/-- What is handed out by what the device does. -/
def DeviceRecord.handedOut : DeviceRecord → List Byte
  | .reading event => event.handedOut
  | .called _ _ | .returned _ _ _ | .placed _ _ _ => []

/-- What the loop of `zftc_read()` shows of a routine. -/
abbrev Reads {Value : Type} (post : Value → List Byte → Prop) (routine : Reading Value) : Prop :=
  routine.Yields Event.handedOut post

/-- A segment in the deblock buffer is this one of the tape. -/
structure Segment.Is (size : ℕ → ℕ) (data : ℕ → ℕ → Byte) (s : ℕ) (segment : Segment) : Prop where
  size_eq : segment.size = size s
  data_eq : ∀ i < size s, segment.data i = data s i

/-- The cluster buffer holds the front of a cluster. -/
structure Zftc.Gathers {blkSz : ℕ} (zftc : Zftc) (cluster : Cluster blkSz) (front : List Byte) : Prop where
  cmprPos : zftc.cseg.cmprPos = front.length
  buf : window zftc.buf 0 front.length = front
  uncmpr : zftc.cseg.uncmpr = if cluster.stored then 0x8000 else 0

section Clusters

variable {blkSz : ℕ} {cluster : Cluster blkSz} {zftc : Zftc}

/-- The blocks of some clusters. -/
def blocks (clusters : List (Cluster blkSz)) : List Byte := clusters.flatMap Cluster.block

/-- The blocks of some clusters and of others. -/
theorem blocks_append (front back : List (Cluster blkSz)) : blocks (front ++ back) = blocks front ++ blocks back :=
  List.flatMap_append

/-- The header tells how many bytes there are, and whether the block is stored. -/
theorem Cluster.header_bits {count : ℕ} (cluster : Cluster blkSz) (hcount : count < 0x8000) :
    cluster.header count &&& 0x8000 = (if cluster.stored then 0x8000 else 0) ∧
      cluster.header count - (cluster.header count &&& 0x8000) = count := by
  have hbit : ∀ header : ℕ, header &&& 0x8000 = (header.testBit 15).toNat * 0x8000 := fun header =>
    Nat.and_two_pow header 15
  rw [hbit, Nat.toNat_testBit, Cluster.header]
  cases cluster.stored with
  | true =>
    simp only [if_true]
    omega
  | false =>
    simp only [Bool.false_eq_true, if_false]
    omega

/-- A cluster that was gathered is uncompressed to its block. -/
theorem Zftc.Gathers.uncompress (h : zftc.Gathers cluster cluster.bytes) :
    (zftUncompress zftc zftc.inSz blkSz).Ends fun result =>
      result.1 = blkSz ∧ window result.2 0 blkSz = cluster.block := by
  obtain ⟨hpos, hbuf, huncmpr⟩ := h
  have hnonempty := cluster.nonempty
  have hlength := cluster.block_length
  have hstands := cluster.standsFor
  rw [zftUncompress, Zftc.inSz, huncmpr, hpos]
  refine Recorded.Ends.translate _ ?_
  generalize cluster.bytes = bytes at hbuf hnonempty hstands ⊢
  generalize cluster.stored = stored at hstands ⊢
  cases hstands with
  | stored =>
    rw [if_pos rfl, if_pos rfl, compressDecompress, if_pos (by omega)]
    refine Recorded.Ends.bind (Recorded.Ends.note _) fun _ _ => ?_
    refine Recorded.Ends.bind (Recorded.Ends.note _) fun _ _ => Recorded.Ends.pure ?_
    rw [hlength] at hbuf
    rw [neg_neg, Int.toNat_natCast, hlength]
    refine ⟨rfl, ?_⟩
    rw [window_blit]
    exact hbuf
  | compressed flag items hflag hdescribes =>
    have hstored : Stored zftc.buf flagBytes (encodeItems items) := by
      have hwhole : Stored zftc.buf 0 (flag ++ encodeItems items) := hbuf
      have hsplit := stored_append.mp hwhole
      rw [hflag, Nat.zero_add] at hsplit
      exact hsplit.2
    rw [if_neg Bool.false_ne_true, if_neg (by decide), List.length_append, hflag, compressDecompress, if_neg (by omega)]
    refine (outerLoop_describes zftc.scratchBuf zftc.room blkSz hdescribes hstored hlength.le).mono ?_
    rintro result ⟨hsize, hresult⟩
    rw [hlength] at hsize hresult
    exact ⟨hsize, hresult⟩

/-- Its block is what is handed out. -/
theorem Zftc.Gathers.handedOut {volume : VtblEntry} {cluster : Cluster volume.blkSz}
    (h : zftc.Gathers cluster cluster.bytes) : (Event.uncompress volume zftc).handedOut = cluster.block := by
  obtain ⟨⟨uncompressedSz, scratchBuf⟩, hresult, hsize, hblock⟩ := h.uncompress
  dsimp only at hsize hblock
  rw [Event.handedOut, hresult]
  dsimp only
  rw [if_neg (not_not.mpr hsize), hsize, hblock]

end Clusters

section Routines

variable {bigEndian : Bool} {volume : VtblEntry} {size : ℕ → ℕ} {data : ℕ → ℕ → Byte} {s : ℕ} {segment : Segment}
  {cluster : Cluster volume.blkSz} {clusters : List (Cluster volume.blkSz)} {zftc : Zftc}

/-- A number in the deblock buffer is the one on the tape. -/
theorem Segment.Is.fetch (h : segment.Is size data s) {offset bytes : ℕ} (hinside : offset + bytes ≤ size s) :
    Algebra.fetch bigEndian segment.data offset bytes = Algebra.fetch bigEndian (data s) offset bytes :=
  fetch_congr fun i hlow hhigh => h.data_eq i (by omega)

/-- Bytes in the deblock buffer are those on the tape. -/
theorem Segment.Is.window (h : segment.Is size data s) {offset count : ℕ} (hinside : offset + count ≤ size s) :
    Algebra.window segment.data offset count = Algebra.window (data s) offset count :=
  window_congr fun i hi => h.data_eq (offset + i) (by omega)

/-- A number in the segment is taken. -/
theorem Segment.Is.get (h : segment.Is size data s) {offset bytes : ℕ} (hinside : offset + bytes ≤ size s) :
    Reads (fun value output => value = Algebra.fetch bigEndian (data s) offset bytes ∧ output = [])
      (segment.get bigEndian offset bytes) :=
  Recorded.Yields.note_bind _ (Recorded.Yields.pure ⟨h.fetch hinside, rfl⟩)

/-- The cluster buffer is filled. -/
theorem Zftc.fill_reads (zftc : Zftc) (dst : ℤ) (src count : ℕ) :
    Reads (fun zftc' output =>
        zftc' = { zftc with buf := blit zftc.buf dst.toNat segment.data src count } ∧ output = [])
      (zftc.fill segment dst src count) :=
  Recorded.Yields.note_bind _ (Recorded.Yields.note_bind _ (Recorded.Yields.pure ⟨rfl, rfl⟩))

/-- The header of the next cluster is taken. -/
theorem getNextCluster_header {finish : Bool} {cseg : CmprInfo} {count : ℕ} (h : segment.Is size data s)
    (hroom : cseg.offset + 18 < size s)
    (hheader : fetch bigEndian (data s) cseg.offset 2 = cluster.header count)
    (hcount : cseg.offset + 2 + count ≤ size s) :
    Reads (fun cseg' output => cseg' = { cseg with
        count := count, uncmpr := if cluster.stored then 0x8000 else 0, offset := cseg.offset + 2, foffs := 0
        spans := if cseg.offset + 2 + count < size s then false else !finish } ∧ output = [])
      (getNextCluster bigEndian segment finish cseg) := by
  obtain ⟨-, hhigh⟩ := segment.size_bounds
  have hsize := h.size_eq
  have hstarts : 18 < uintSub segment.size cseg.offset := by
    rw [uintSub_of_le (by omega) (by omega)]
    omega
  rw [getNextCluster, if_pos (Or.inl hstarts)]
  refine Recorded.Yields.silent_bind (h.get (by omega)) ?_
  rintro header rfl
  have hbelow : count < 0x8000 := by omega
  obtain ⟨huncmpr, hbytes⟩ := cluster.header_bits hbelow
  have hoffset : Header.uint (cseg.offset + 2) = cseg.offset + 2 := by
    rw [Header.uint]
    omega
  have hstop : Header.uint (cseg.offset + 2 + count) = cseg.offset + 2 + count := by
    rw [Header.uint]
    omega
  dsimp only
  rw [hheader, hbytes, huncmpr, hoffset, hstop, hsize]
  refine Recorded.Yields.pure ⟨?_, rfl⟩
  by_cases hless : cseg.offset + 2 + count < size s
  · rw [if_pos hless, if_pos hless]
  · rw [if_neg hless, if_neg hless, if_pos (le_antisymm hcount (not_lt.mp hless))]

/-- There is no room for a header. -/
theorem getNextCluster_full {finish : Bool} {cseg : CmprInfo} (h : segment.Is size data s)
    (hfull : size s ≤ cseg.offset + 18) (hinside : cseg.offset ≤ size s) (hfoffs : cseg.foffs = 0) :
    Reads (fun cseg' output => cseg' = { cseg with count := 0, spans := false, foffs := 0 } ∧ output = [])
      (getNextCluster bigEndian segment finish cseg) := by
  obtain ⟨-, hhigh⟩ := segment.size_bounds
  have hsize := h.size_eq
  have hstarts : ¬(18 < uintSub segment.size cseg.offset ∨ cseg.foffs ≠ 0) := by
    rw [uintSub_of_le (by omega) (by omega)]
    omega
  rw [getNextCluster, if_neg hstarts]
  exact Recorded.Yields.pure ⟨rfl, rfl⟩

/-- A cluster in the buffer is handed out as its block. -/
theorem uncompressCluster_reads {p : Progress} {userFault : ℤ → Bool} (hfault : ∀ i, userFault i = false)
    (h : p.zftc.Gathers cluster cluster.bytes) :
    Reads (fun p' output => output = cluster.block ∧ ∃ scratchBuf, p' = { p with
        zftc := { p.zftc with scratchBuf := scratchBuf, cseg := { p.zftc.cseg with cmprPos := 0 } }
        remaining := p.remaining - volume.blkSz
        result := p.result + volume.blkSz })
      (uncompressCluster volume userFault p) := by
  have hnonempty := cluster.nonempty
  have hpending : p.zftc.cseg.cmprPos ≠ 0 := by
    rw [h.cmprPos]
    omega
  rw [uncompressCluster, if_pos hpending]
  refine Recorded.Yields.note_bind _ ?_
  refine Recorded.Yields.silent_bind (Recorded.Yields.of_ends h.uncompress ?_) ?_
  · intro query hquery
    obtain ⟨access, -, rfl⟩ := List.mem_map.mp hquery
    rfl
  · rintro ⟨uncompressedSz, scratchBuf⟩ ⟨hsize, -⟩
    dsimp only at hsize ⊢
    rw [if_neg (not_not.mpr hsize)]
    refine Recorded.Yields.note_bind _ ?_
    rw [hfault, if_neg Bool.false_ne_true]
    refine Recorded.Yields.pure ⟨?_, scratchBuf, rfl⟩
    rw [h.handedOut]
    exact List.append_nil _

end Routines

section Segments

variable (bigEndian : Bool) (volume : VtblEntry) (size : ℕ → ℕ) (data : ℕ → ℕ → Byte) (s : ℕ)

/-- What lies ahead of `zftc_read()` in a segment while so many blocks are left to read: clusters from its
offset on, a cluster in the buffer and others behind it, a cluster that goes on in the next segment, or clusters
that start in the next segment. -/
inductive Progress.Ahead (n : ℕ) (p : Progress) : List (Cluster volume.blkSz) → Prop
  | between {clusters : List (Cluster volume.blkSz)} (hleft : p.remaining = (n * volume.blkSz : ℕ))
      (hspans : p.zftc.cseg.spans = false) (hpos : p.zftc.cseg.cmprPos = 0)
      (hfoffs : p.zftc.cseg.foffs ≠ 0 → p.zftc.cseg.offset + 18 < size s)
      (hstart : StartAt bigEndian volume size data s p.zftc.cseg.offset clusters) : p.Ahead n clusters
  | loaded {cluster : Cluster volume.blkSz} {clusters : List (Cluster volume.blkSz)}
      (hleft : p.remaining = (n * volume.blkSz : ℕ)) (hmore : 0 < n) (hspans : p.zftc.cseg.spans = false)
      (hgathers : p.zftc.Gathers cluster cluster.bytes)
      (hfoffs : p.zftc.cseg.foffs ≠ 0 → p.zftc.cseg.offset + 18 < size s)
      (hstart : StartAt bigEndian volume size data s p.zftc.cseg.offset clusters) : p.Ahead n (cluster :: clusters)
  | spans {cluster : Cluster volume.blkSz} {clusters : List (Cluster volume.blkSz)} {front rest : List Byte}
      (hspans : p.zftc.cseg.spans = true) (hend : p.zftc.cseg.offset = size s) (hfoffs : p.zftc.cseg.foffs = 0)
      (hgathers : p.zftc.Gathers cluster front) (hbytes : cluster.bytes = front ++ rest)
      (hrest : GoOn bigEndian volume size data (s + 1) rest clusters) : p.Ahead n (cluster :: clusters)
  | full {clusters : List (Cluster volume.blkSz)} (hleft : p.remaining ≤ 0)
      (hpos : p.zftc.cseg.cmprPos = 0) (hfull : size s ≤ p.zftc.cseg.offset + 18) (hfoffs : p.zftc.cseg.foffs = 0)
      (hrest : GoOn bigEndian volume size data (s + 1) [] clusters) : p.Ahead n clusters

/-- What a compressor has ahead at the start of a segment: nothing that is still needed, clusters of which the
first one starts there, or a cluster that goes on there with others behind it. -/
inductive Zftc.Waits (zftc : Zftc) : List (Cluster volume.blkSz) → Prop
  | drained (hpos : zftc.cseg.cmprPos = 0) (hfoffs : zftc.cseg.foffs = 0) : zftc.Waits []
  | next {clusters : List (Cluster volume.blkSz)} (hpos : zftc.cseg.cmprPos = 0) (hfoffs : zftc.cseg.foffs = 0)
      (hrest : GoOn bigEndian volume size data s [] clusters) : zftc.Waits clusters
  | pending {cluster : Cluster volume.blkSz} {clusters : List (Cluster volume.blkSz)} {front rest : List Byte}
      (hallocated : zftc.Allocated volume) (hfoffs : zftc.cseg.foffs = 0) (hgathers : zftc.Gathers cluster front)
      (hbytes : cluster.bytes = front ++ rest) (hrest : GoOn bigEndian volume size data s rest clusters) :
      zftc.Waits (cluster :: clusters)

/-- A compressor that has handed out a block and goes on in the segment. -/
structure Zftc.Paused (zftc : Zftc) (clusters : List (Cluster volume.blkSz)) : Prop where
  allocated : zftc.Allocated volume
  spans : zftc.cseg.spans = false
  cmprPos : zftc.cseg.cmprPos = 0
  room : zftc.cseg.offset + 18 < size s
  start : StartAt bigEndian volume size data s zftc.cseg.offset clusters

/-- A call of `zftc_read()` at a place in a segment has handed out all that was asked for, or all that the
segment had. -/
inductive Progress.Done (place n : ℕ) (p : Progress) (clusters : List (Cluster volume.blkSz)) : Prop
  | paused (hn : n = 0) (hcount : place + p.readCnt = p.zftc.cseg.offset)
      (hpaused : p.zftc.Paused bigEndian volume size data s clusters)
  | finished (hcount : place + p.readCnt = size s) (hwaits : p.zftc.Waits bigEndian volume size data (s + 1) clusters)

/-- Reading has gone on in a segment without an error: the count agrees with the offset. -/
structure Progress.Advances (p p' : Progress) : Prop where
  error : p'.error = p.error
  allocated : p.zftc.Allocated volume → p'.zftc.Allocated volume
  count : p'.readCnt - p'.zftc.cseg.offset = p.readCnt - p.zftc.cseg.offset
  offset : p.zftc.cseg.offset ≤ p'.zftc.cseg.offset
  inside : p'.zftc.cseg.offset ≤ size s

/-- What a segment that was just read leaves of `zftc_read()`. -/
structure Progress.Begins (p p' : Progress) : Prop where
  error : p'.error = p.error
  result : p'.result = p.result
  allocated : p.zftc.Allocated volume → p'.zftc.Allocated volume
  count : p'.readCnt = p'.zftc.cseg.offset
  pos : 0 < p'.zftc.cseg.offset
  inside : p'.zftc.cseg.offset ≤ size s

end Segments

section Loop

variable {bigEndian : Bool} {volume : VtblEntry} {size : ℕ → ℕ} {data : ℕ → ℕ → Byte} {s : ℕ} {segment : Segment}
  {clusters : List (Cluster volume.blkSz)} {p : Progress} {n : ℕ}

/-- Going on once and again. -/
theorem Progress.Advances.trans {p' p'' : Progress} (h : Progress.Advances volume size s p p')
    (h' : Progress.Advances volume size s p' p'') : Progress.Advances volume size s p p'' :=
  ⟨h'.error.trans h.error, fun hallocated => h'.allocated (h.allocated hallocated), h'.count.trans h.count,
    h.offset.trans h'.offset, h'.inside⟩

/-- A cluster whose header was taken is in the buffer as far as the segment has it. -/
theorem fillCluster_header {finish : Bool} {cluster : Cluster volume.blkSz} {count : ℕ} (h : segment.Is size data s)
    (hmore : 0 < p.remaining) (hroom : p.zftc.cseg.offset + 18 < size s)
    (hheader : fetch bigEndian (data s) p.zftc.cseg.offset 2 = cluster.header count)
    (hinside : p.zftc.cseg.offset + 2 + count ≤ size s) (hcount : 0 < count)
    (hnonneg : 0 ≤ p.readCnt) (hread : p.readCnt ≤ p.zftc.cseg.offset) :
    Reads (fun p' output => output = [] ∧ p' = { p with
        zftc := { p.zftc with
          buf := blit p.zftc.buf 0 segment.data (p.zftc.cseg.offset + 2) count
          cseg := { p.zftc.cseg with
            cmprPos := count, count := count, uncmpr := if cluster.stored then 0x8000 else 0
            offset := p.zftc.cseg.offset + 2 + count, foffs := 0
            spans := if p.zftc.cseg.offset + 2 + count < size s then false else !finish } }
        readCnt := p.readCnt + count + 2 })
      (fillCluster bigEndian volume segment finish p) := by
  obtain ⟨-, hhigh⟩ := segment.size_bounds
  have hsize := h.size_eq
  rw [fillCluster, if_pos hmore]
  refine Recorded.Yields.note_bind _ ?_
  refine Recorded.Yields.silent_bind (getNextCluster_header h hroom hheader hinside) ?_
  rintro cseg rfl
  rw [if_pos hcount.ne']
  refine Recorded.Yields.silent_bind (Zftc.fill_reads _ _ _ _) ?_
  rintro zftc rfl
  have hint : Header.int count = count := int_natCast (by omega)
  have hsum : Header.int (p.readCnt + count + 2) = p.readCnt + count + 2 :=
    Header.int_eq_self (by omega) (by omega)
  have huint : Header.uint (p.zftc.cseg.offset + 2 + count) = p.zftc.cseg.offset + 2 + count := by
    rw [Header.uint]
    omega
  dsimp only
  rw [hint, hsum, huint]
  exact Recorded.Yields.pure ⟨rfl, rfl⟩

/-- The buffer holds what was taken of a cluster. -/
theorem gathers_taken {zftc : Zftc} {buf : ℕ → Byte} {cluster : Cluster volume.blkSz} {front : List Byte}
    {offset count : ℕ} (h : segment.Is size data s) (hbytes : window (data s) (offset + 2) count = front)
    (hinside : offset + 2 + count ≤ size s) (hbuf : zftc.buf = blit buf 0 segment.data (offset + 2) count)
    (hpos : zftc.cseg.cmprPos = count) (huncmpr : zftc.cseg.uncmpr = if cluster.stored then 0x8000 else 0) :
    zftc.Gathers cluster front := by
  have hlength : front.length = count := by rw [← hbytes, window_length]
  refine ⟨?_, ?_, huncmpr⟩
  · rw [hlength, hpos]
  · rw [hlength, hbuf, window_blit, h.window hinside, hbytes]

/-- The bytes that were taken of a cluster are counted with its header. -/
theorem advances_taken {p' : Progress} {count : ℕ} (hinside : p.zftc.cseg.offset + 2 + count ≤ size s)
    (herror : p'.error = p.error) (hallocated : p.zftc.Allocated volume → p'.zftc.Allocated volume)
    (hread : p'.readCnt = p.readCnt + count + 2) (hoffset : p'.zftc.cseg.offset = p.zftc.cseg.offset + 2 + count) :
    Progress.Advances volume size s p p' ∧
      (p'.GoesOn ∨ 0 < n ∧ p.zftc.cseg.offset + 18 < size s → p.zftc.cseg.offset < p'.zftc.cseg.offset) := by
  refine ⟨⟨herror, hallocated, ?_, ?_, ?_⟩, fun _ => ?_⟩
  · rw [hread, hoffset]
    push_cast
    ring
  · omega
  · omega
  · omega

/-- The next cluster is taken from the segment, if more is asked for. -/
theorem fillCluster_ahead {finish : Bool} (h : segment.Is size data s) (hfinish : finish = true ↔ volume.endSeg = s)
    (hn : n ≤ clusters.length) (hblk : 0 < volume.blkSz) (hleft : p.remaining = (n * volume.blkSz : ℕ))
    (hspans : p.zftc.cseg.spans = false) (hpos : p.zftc.cseg.cmprPos = 0)
    (hfoffs : p.zftc.cseg.foffs ≠ 0 → p.zftc.cseg.offset + 18 < size s)
    (hstart : StartAt bigEndian volume size data s p.zftc.cseg.offset clusters)
    (hnonneg : 0 ≤ p.readCnt) (hread : p.readCnt ≤ p.zftc.cseg.offset) (hinside : p.zftc.cseg.offset ≤ size s) :
    Reads (fun p' output => output = [] ∧ p'.result = p.result ∧ p'.Ahead bigEndian volume size data s n clusters ∧
        Progress.Advances volume size s p p' ∧
        (p'.GoesOn ∨ 0 < n ∧ p.zftc.cseg.offset + 18 < size s → p.zftc.cseg.offset < p'.zftc.cseg.offset))
      (fillCluster bigEndian volume segment finish p) := by
  rcases Nat.eq_zero_or_pos n with hzero | hmore
  · have hnothing : ¬0 < p.remaining := by
      rw [hleft, hzero, Nat.zero_mul]
      exact lt_irrefl _
    rw [fillCluster, if_neg hnothing]
    refine Recorded.Yields.pure ⟨rfl, rfl, .between hleft hspans hpos hfoffs hstart,
      ⟨rfl, id, rfl, le_rfl, hinside⟩, fun hgoes => ?_⟩
    rcases hgoes with hgoes | hmore
    · exact absurd hgoes.2 hnothing
    · omega
  · have hremaining : 0 < p.remaining := by
      rw [hleft]
      exact Int.natCast_pos.mpr (Nat.mul_pos hmore hblk)
    cases hstart with
    | none =>
      rw [List.length_nil] at hn
      omega
    | @inside _ _ cluster rest hroom hheader hbytes hless hrest =>
      refine (fillCluster_header h hremaining hroom hheader hless.le cluster.nonempty hnonneg hread).mono ?_
      rintro p' output ⟨hnone, rfl⟩
      rw [if_pos hless]
      exact ⟨hnone, rfl, .loaded hleft hmore rfl (gathers_taken h hbytes hless.le rfl rfl rfl)
        (fun hne => absurd rfl hne) hrest, advances_taken hless.le rfl id rfl rfl⟩
    | @last _ _ cluster hroom hheader hbytes hequal hlast =>
      refine (fillCluster_header h hremaining hroom hheader hequal.le cluster.nonempty hnonneg hread).mono ?_
      rintro p' output ⟨hnone, rfl⟩
      rw [if_neg hequal.not_lt, hfinish.mpr hlast.symm]
      exact ⟨hnone, rfl, .loaded hleft hmore rfl (gathers_taken h hbytes hequal.le rfl rfl rfl)
        (fun hne => absurd rfl hne) (.none _ _), advances_taken hequal.le rfl id rfl rfl⟩
    | @spans _ _ count cluster rest hroom hheader hequal hcount hbytes hlast hrest =>
      have hpositive : 0 < count := by omega
      refine (fillCluster_header h hremaining hroom hheader hequal.le hpositive hnonneg hread).mono ?_
      rintro p' output ⟨hnone, rfl⟩
      have hnotLast : finish = false := by
        rw [Bool.eq_false_iff]
        exact fun htrue => absurd (hfinish.mp htrue) (by omega)
      rw [if_neg hequal.not_lt, hnotLast]
      exact ⟨hnone, rfl, .spans rfl hequal rfl (gathers_taken h hbytes hequal.le rfl rfl rfl)
        (List.take_append_drop _ _).symm hrest, advances_taken hequal.le rfl id rfl rfl⟩
    | full hfull hrest =>
      have hzero : p.zftc.cseg.foffs = 0 := by
        by_contra hne
        have := hfoffs hne
        omega
      rw [fillCluster, if_pos hremaining]
      refine Recorded.Yields.note_bind _ ?_
      refine Recorded.Yields.silent_bind (getNextCluster_full h hfull hinside hzero) ?_
      rintro cseg rfl
      rw [if_neg (not_not.mpr rfl)]
      refine Recorded.Yields.pure ⟨rfl, rfl, .full le_rfl hpos hfull rfl hrest, ⟨rfl, id, rfl, le_rfl, hinside⟩,
        fun hgoes => ?_⟩
      rcases hgoes with hgoes | hroom
      · exact absurd hgoes.2 (lt_irrefl _)
      · omega

/-- The cluster in the buffer is handed out, if there is one, and the others start at the offset. -/
theorem uncompressCluster_ahead {userFault : ℤ → Bool} (hfault : ∀ i, userFault i = false)
    (hahead : p.Ahead bigEndian volume size data s n clusters) (hgoes : p.GoesOn) :
    Reads (fun p' output => ∃ k ≤ n, output = blocks (clusters.take k) ∧
        (p.zftc.cseg.cmprPos = 0 → 0 < n - k) ∧ (p.zftc.cseg.foffs ≠ 0 → p.zftc.cseg.offset + 18 < size s) ∧
        StartAt bigEndian volume size data s p.zftc.cseg.offset (clusters.drop k) ∧ ∃ scratchBuf, p' = { p with
          zftc := { p.zftc with scratchBuf := scratchBuf, cseg := { p.zftc.cseg with cmprPos := 0, spans := false } }
          remaining := ((n - k) * volume.blkSz : ℕ)
          result := p.result + (k * volume.blkSz : ℕ) })
      (uncompressCluster volume userFault p) := by
  obtain ⟨hgoing, hmore⟩ := hgoes
  cases hahead with
  | between hleft hspans hpos hfoffs hstart =>
    have hsome : n ≠ 0 := by
      rintro rfl
      rw [hleft, Nat.zero_mul] at hmore
      exact lt_irrefl _ hmore
    rw [uncompressCluster, if_neg (not_not.mpr hpos)]
    refine Recorded.Yields.pure ⟨0, Nat.zero_le n, rfl, fun _ => Nat.pos_of_ne_zero hsome, hfoffs, hstart,
      p.zftc.scratchBuf, ?_⟩
    rw [Nat.zero_mul, Nat.cast_zero, add_zero, Nat.sub_zero, ← hleft, ← hpos, ← hspans]
  | @loaded cluster rest hleft hone hspans hgathers hfoffs hstart =>
    refine (uncompressCluster_reads hfault hgathers).mono ?_
    rintro p' output ⟨hblock, scratchBuf, rfl⟩
    refine ⟨1, hone, ?_, fun hpos => ?_, hfoffs, hstart, scratchBuf, ?_⟩
    · rw [hblock]
      exact (List.append_nil _).symm
    · have hnonempty := cluster.nonempty
      rw [hgathers.cmprPos] at hpos
      omega
    · have hrest : p.remaining - volume.blkSz = ((n - 1) * volume.blkSz : ℕ) := by
        obtain ⟨n, rfl⟩ := Nat.exists_eq_add_of_le' hone
        rw [hleft, Nat.add_sub_cancel]
        push_cast
        ring
      rw [hrest, Nat.one_mul, ← hspans]
  | spans hspans =>
    rw [hspans] at hgoing
    cases hgoing
  | full hleft => omega

/-- The loop hands out blocks until there are enough, or until the segment has no more. -/
theorem readLoop_reads {userFault : ℤ → Bool} {finish : Bool} {rounds : ℕ} (h : segment.Is size data s)
    (hfinish : finish = true ↔ volume.endSeg = s) (hblk : 0 < volume.blkSz) (hfault : ∀ i, userFault i = false)
    (herror : p.error = none) (hahead : p.Ahead bigEndian volume size data s n clusters) (hn : n ≤ clusters.length)
    (hnonneg : 0 ≤ p.readCnt) (hread : p.readCnt ≤ p.zftc.cseg.offset) (hinside : p.zftc.cseg.offset ≤ size s)
    (hrounds : 1 ≤ rounds) (hgoes : p.GoesOn → 2 + (size s - p.zftc.cseg.offset) ≤ rounds) :
    Reads (fun p' output => ∃ k ≤ n, output = blocks (clusters.take k) ∧
        p'.result = p.result + (k * volume.blkSz : ℕ) ∧
        p'.Ahead bigEndian volume size data s (n - k) (clusters.drop k) ∧ Progress.Advances volume size s p p' ∧
        ¬p'.GoesOn ∧ (p.GoesOn ∧ p.zftc.cseg.cmprPos = 0 ∧ p.zftc.cseg.offset + 18 < size s →
          p.zftc.cseg.offset < p'.zftc.cseg.offset))
      (readLoop bigEndian volume segment finish userFault rounds p) := by
  induction rounds generalizing p n clusters with
  | zero => omega
  | succ rounds ih =>
    rw [readLoop]
    by_cases hon : p.zftc.cseg.spans = false ∧ 0 < p.remaining
    · have hleft := hgoes hon
      rw [if_pos hon]
      refine Recorded.Yields.bind (uncompressCluster_ahead hfault hahead hon) ?_
      rintro p₁ output₁ ⟨k, hk, rfl, hsome, hfoffs, hstart, scratchBuf, rfl⟩
      rw [if_pos herror]
      have hfewer : n - k ≤ (clusters.drop k).length := by
        rw [List.length_drop]
        omega
      refine Recorded.Yields.bind
        (fillCluster_ahead h hfinish hfewer hblk rfl rfl rfl hfoffs hstart hnonneg hread hinside) ?_
      rintro p₂ output₂ ⟨rfl, hresult, hahead₂, hadvances, hmoves⟩
      dsimp only at hresult hmoves
      have hcount := hadvances.count
      have hoffset := hadvances.offset
      dsimp only at hcount hoffset
      refine (ih (hadvances.error.trans herror) hahead₂ hfewer (by omega) (by omega) hadvances.inside (by omega)
        fun hgoes₂ => ?_).mono ?_
      · have := hmoves (Or.inl hgoes₂)
        have := hadvances.inside
        omega
      · rintro p₃ output₃ ⟨k', hk', rfl, hresult', hahead₃, hadvances', hstops, -⟩
        refine ⟨k + k', by omega, ?_, ?_, ?_, ?_, hstops, ?_⟩
        · rw [List.nil_append, List.take_add, blocks_append]
        · rw [hresult', hresult]
          push_cast
          ring
        · rwa [List.drop_drop, Nat.sub_sub] at hahead₃
        · have hround : Progress.Advances volume size s p p₂ :=
            ⟨hadvances.error, fun hallocated => hadvances.allocated hallocated, hcount, hoffset, hadvances.inside⟩
          exact hround.trans hadvances'
        · rintro ⟨-, hpos, hroom⟩
          have hoffset' := hadvances'.offset
          have hfirst := hmoves (Or.inr ⟨hsome hpos, hroom⟩)
          omega
    · rw [if_neg hon]
      exact Recorded.Yields.pure ⟨0, Nat.zero_le n, rfl, by simp, hahead, ⟨rfl, id, rfl, le_rfl, hinside⟩, hon,
        fun hgoes => absurd hgoes.1 hon⟩

end Loop

section Starts

variable {bigEndian : Bool} {volume : VtblEntry} {size : ℕ → ℕ} {data : ℕ → ℕ → Byte} {s : ℕ} {segment : Segment}
  {clusters : List (Cluster volume.blkSz)} {cinfo : CmprInfo}

/-- What `get_cseg()` accepts. -/
theorem getCseg_accepts {pos : ℕ} (hpos : cinfo.cmprPos = pos) (hfits : pos + cinfo.count ≤ volume.blkSz)
    (hblk : volume.blkSz < 0x80000000) (hfoffs : cinfo.foffs ≤ volume.size) :
    decide (cinfo.foffs ≤ volume.size ∧ cinfo.pending ≤ volume.blkSz) = true := by
  refine decide_eq_true ⟨hfoffs, ?_⟩
  rw [CmprInfo.pending, hpos]
  omega

/-- The segment belongs to a cluster that goes on. -/
theorem getCseg_through (cinfo : CmprInfo) {pos : ℕ} (h : segment.Is size data s) (hsize : 2 < size s)
    (hfirst : fetch bigEndian (data s) 0 2 = 0) (hfoffs : cinfo.foffs = 0) (hvolume : 0 ≤ volume.size)
    (hpos : cinfo.cmprPos = pos) (hfits : pos + (size s - 2) ≤ volume.blkSz) (hblk : volume.blkSz < 0x80000000) :
    Reads (fun result output => result = (true, { cinfo with
        firstBlock := 0, count := size s - 2, offset := size s, spans := true }) ∧ output = [])
      (getCseg bigEndian volume segment cinfo) := by
  obtain ⟨-, hhigh⟩ := segment.size_bounds
  have hsame := h.size_eq
  rw [getCseg]
  refine Recorded.Yields.silent_bind (h.get (by omega)) ?_
  rintro firstBlock rfl
  have hcount : uintSub (size s) 2 = size s - 2 := uintSub_of_le hsize.le (by omega)
  have hnone : ¬18 < uintSub (size s) (size s) := by
    rw [uintSub_of_le le_rfl (by omega)]
    omega
  rw [hfirst, if_neg (Nat.not_lt_zero _), continuedCluster, if_pos rfl, fileOffset, hsame, hcount, if_neg hnone]
  refine Recorded.Yields.silent_bind (Recorded.Yields.pure ⟨rfl, rfl⟩) ?_
  rintro cinfo' rfl
  refine Recorded.Yields.pure ⟨Prod.ext (getCseg_accepts hpos hfits hblk ?_) rfl, rfl⟩
  rw [hfoffs]
  exact hvolume

/-- A file offset is taken. -/
theorem fileOffset_room (h : segment.Is size data s) (hroom : cinfo.offset + fileOffsetBytes volume + 18 < size s)
    (hoffset : (fetch bigEndian (data s) cinfo.offset (fileOffsetBytes volume) : ℤ) ≤ volume.size)
    (hvolume : volume.size < 2 ^ 63) :
    Reads (fun cinfo' output => cinfo' = { cinfo with
        offset := cinfo.offset + fileOffsetBytes volume
        foffs := fetch bigEndian (data s) cinfo.offset (fileOffsetBytes volume) } ∧ output = [])
      (fileOffset bigEndian volume segment cinfo) := by
  obtain ⟨-, hhigh⟩ := segment.size_bounds
  have hsame := h.size_eq
  have hmore : 18 < uintSub segment.size cinfo.offset := by
    rw [uintSub_of_le (by omega) (by omega)]
    omega
  rw [fileOffset, if_pos hmore]
  rw [fileOffsetBytes] at hroom hoffset ⊢
  by_cases hqic : volume.qic113 = true
  · rw [if_pos hqic] at hroom hoffset ⊢
    rw [if_pos hqic]
    refine Recorded.Yields.silent_bind (h.get (by omega)) ?_
    rintro foffs rfl
    have hsigned : (fetch bigEndian (data s) cinfo.offset 8 : ℤ).bmod (2 ^ 64) =
        fetch bigEndian (data s) cinfo.offset 8 :=
      Int.bmod_eq_of_le (by omega) (by omega)
    have huint : Header.uint (cinfo.offset + 8) = cinfo.offset + 8 := by
      rw [Header.uint]
      omega
    rw [hsigned, huint]
    exact Recorded.Yields.pure ⟨rfl, rfl⟩
  · rw [if_neg hqic] at hroom hoffset ⊢
    rw [if_neg hqic]
    refine Recorded.Yields.silent_bind (h.get (by omega)) ?_
    rintro foffs rfl
    have huint : Header.uint (cinfo.offset + 4) = cinfo.offset + 4 := by
      rw [Header.uint]
      omega
    rw [huint]
    exact Recorded.Yields.pure ⟨rfl, rfl⟩

/-- Where the bytes from the segment before end. -/
theorem continuedCluster_ends {count : ℕ} (h : segment.Is size data s) (hless : 2 + count ≤ size s) :
    continuedCluster segment (2 + count) cinfo =
      { cinfo with firstBlock := 2 + count, count := count, offset := 2 + count, spans := false } := by
  obtain ⟨-, hhigh⟩ := segment.size_bounds
  have hsame := h.size_eq
  have hcount : uintSub (2 + count) 2 = count := by
    rw [uintSub_of_le (by omega) (by omega)]
    omega
  rw [continuedCluster, if_neg (by omega), hcount]

/-- The cluster from the segment before ends, and a file offset is in front of the next one. -/
theorem getCseg_room (cinfo : CmprInfo) {pos count : ℕ} (h : segment.Is size data s)
    (hfirst : fetch bigEndian (data s) 0 2 = 2 + count)
    (hroom : 2 + count + fileOffsetBytes volume + 18 < size s)
    (hoffset : (fetch bigEndian (data s) (2 + count) (fileOffsetBytes volume) : ℤ) ≤ volume.size)
    (hvolume : volume.size < 2 ^ 63) (hpos : cinfo.cmprPos = pos) (hfits : pos + count ≤ volume.blkSz)
    (hblk : volume.blkSz < 0x80000000) :
    Reads (fun result output => result = (true, { cinfo with
        firstBlock := 2 + count, count := count, offset := 2 + count + fileOffsetBytes volume, spans := false
        foffs := fetch bigEndian (data s) (2 + count) (fileOffsetBytes volume) }) ∧ output = [])
      (getCseg bigEndian volume segment cinfo) := by
  have hsame := h.size_eq
  rw [getCseg]
  refine Recorded.Yields.silent_bind (h.get (by omega)) ?_
  rintro firstBlock rfl
  rw [hfirst, if_neg (by omega), continuedCluster_ends h (by omega)]
  refine Recorded.Yields.silent_bind (fileOffset_room h hroom hoffset hvolume) ?_
  rintro cinfo' rfl
  exact Recorded.Yields.pure ⟨Prod.ext (getCseg_accepts hpos hfits hblk hoffset) rfl, rfl⟩

/-- The cluster from the segment before ends, and the segment has no room for another one. -/
theorem getCseg_late (cinfo : CmprInfo) {pos count : ℕ} (h : segment.Is size data s)
    (hfirst : fetch bigEndian (data s) 0 2 = 2 + count) (hless : 2 + count ≤ size s)
    (hroom : size s ≤ 2 + count + 18) (hfoffs : cinfo.foffs = 0) (hvolume : 0 ≤ volume.size)
    (hpos : cinfo.cmprPos = pos) (hfits : pos + count ≤ volume.blkSz) (hblk : volume.blkSz < 0x80000000) :
    Reads (fun result output => result = (true, { cinfo with
        firstBlock := 2 + count, count := count, offset := 2 + count, spans := false }) ∧ output = [])
      (getCseg bigEndian volume segment cinfo) := by
  obtain ⟨-, hhigh⟩ := segment.size_bounds
  have hsame := h.size_eq
  have hnone : ¬18 < uintSub segment.size (2 + count) := by
    rw [uintSub_of_le (by omega) (by omega)]
    omega
  rw [getCseg]
  refine Recorded.Yields.silent_bind (h.get (by omega)) ?_
  rintro firstBlock rfl
  rw [hfirst, if_neg (by omega), continuedCluster_ends h hless, fileOffset, if_neg hnone]
  refine Recorded.Yields.silent_bind (Recorded.Yields.pure ⟨rfl, rfl⟩) ?_
  rintro cinfo' rfl
  refine Recorded.Yields.pure ⟨Prod.ext (getCseg_accepts hpos hfits hblk ?_) rfl, rfl⟩
  rw [hfoffs]
  exact hvolume

/-- The bytes that a segment begins with are behind those that the buffer holds. -/
theorem startSegment_takes {p : Progress} {pos : ℕ}
    (hget : Reads (fun result output => result = (true, cinfo) ∧ output = [])
      (getCseg bigEndian volume segment p.zftc.cseg))
    (hpos : cinfo.cmprPos = pos) (hsum : pos + cinfo.count < 0x80000000) (hoffset : cinfo.offset < 0x80000000) :
    Reads (fun p' output => output = [] ∧ p' = { p with
        zftc := { p.zftc with
          buf := blit p.zftc.buf pos segment.data 2 cinfo.count
          cseg := { cinfo with cmprPos := (pos + cinfo.count : ℕ) } }
        readCnt := cinfo.offset })
      (startSegment bigEndian volume segment p) := by
  rw [startSegment]
  refine Recorded.Yields.note_bind _ ?_
  refine Recorded.Yields.silent_bind hget ?_
  rintro _ rfl
  refine Recorded.Yields.silent_bind (Zftc.fill_reads _ _ _ _) ?_
  rintro zftc rfl
  have hint : Header.int (cinfo.cmprPos + cinfo.count) = (pos + cinfo.count : ℕ) := by
    rw [hpos, ← Nat.cast_add]
    exact int_natCast hsum
  dsimp only
  rw [hint, int_natCast hoffset, hpos, Int.toNat_natCast]
  exact Recorded.Yields.pure ⟨rfl, rfl⟩

/-- More bytes of a cluster are in the buffer. -/
theorem Zftc.Gathers.more {zftc zftc' : Zftc} {cluster : Cluster volume.blkSz} {front : List Byte}
    (h : zftc.Gathers cluster front) (taken : List Byte) (hsegment : segment.Is size data s)
    (hinside : 2 + taken.length ≤ size s)
    (hbytes : window (data s) 2 taken.length = taken)
    (hbuf : zftc'.buf = blit zftc.buf front.length segment.data 2 taken.length)
    (hpos : zftc'.cseg.cmprPos = (front.length + taken.length : ℕ)) (huncmpr : zftc'.cseg.uncmpr = zftc.cseg.uncmpr) :
    zftc'.Gathers cluster (front ++ taken) := by
  refine ⟨by rw [hpos, List.length_append], ?_, huncmpr.trans h.uncmpr⟩
  rw [List.length_append, window_append, Nat.zero_add, hbuf, window_blit, hsegment.window hinside, hbytes,
    window_blit_of_disjoint _ _ (by omega), h.buf]

/-- A segment begins behind a cluster: the next one starts in it. -/
theorem startSegment_next {p : Progress} {n : ℕ} (h : segment.Is size data s) (hblk : volume.blkSz < 0x80000000)
    (hvolume : 0 ≤ volume.size ∧ volume.size < 2 ^ 63) (hleft : p.remaining = (n * volume.blkSz : ℕ))
    (hpos : p.zftc.cseg.cmprPos = (0 : ℕ)) (hfoffs : p.zftc.cseg.foffs = 0)
    (hrest : GoOn bigEndian volume size data s [] clusters) :
    Reads (fun p' output => output = [] ∧ p'.Ahead bigEndian volume size data s n clusters ∧
        Progress.Begins volume size s p p')
      (startSegment bigEndian volume segment p) := by
  obtain ⟨hlow, hhigh⟩ := segment.size_bounds
  have hsame := h.size_eq
  cases hrest with
  | skip htape hempty hrest => omega
  | through htape hsize hfirst hlong hbytes hrest =>
    rw [List.length_nil] at hlong
    omega
  | ends htape hfirst hbytes hroom hoffset hrest =>
    have hget := getCseg_room p.zftc.cseg h hfirst hroom hoffset hvolume.2 hpos
      (by rw [List.length_nil]; omega) hblk
    rw [List.length_nil] at hroom hrest hget
    refine (startSegment_takes hget hpos (by dsimp only; omega) (by dsimp only; omega)).mono ?_
    rintro p' output ⟨hnone, rfl⟩
    refine ⟨hnone, .between hleft rfl rfl (fun _ => hroom) hrest, rfl, rfl, id, rfl, ?_, ?_⟩
    · dsimp only
      omega
    · dsimp only
      omega
  | late htape hfirst hbytes hless hroom hrest =>
    have hget := getCseg_late p.zftc.cseg h hfirst hless hroom hfoffs hvolume.1 hpos
      (by rw [List.length_nil]; omega) hblk
    rw [List.length_nil] at hrest hless hroom hget
    refine (startSegment_takes hget hpos (by dsimp only; omega) (by dsimp only; omega)).mono ?_
    rintro p' output ⟨hnone, rfl⟩
    refine ⟨hnone, .between hleft rfl rfl (fun hne => absurd hfoffs hne) hrest, rfl, rfl, id, rfl, ?_, hless⟩
    dsimp only
    omega

/-- A segment begins inside of a cluster: the cluster goes on, or ends in it. -/
theorem startSegment_pending {p : Progress} {n : ℕ} {cluster : Cluster volume.blkSz} {front rest : List Byte}
    (h : segment.Is size data s) (hblk : volume.blkSz < 0x80000000)
    (hvolume : 0 ≤ volume.size ∧ volume.size < 2 ^ 63) (hmore : 0 < n)
    (hleft : p.remaining = (n * volume.blkSz : ℕ)) (hfoffs : p.zftc.cseg.foffs = 0)
    (hgathers : p.zftc.Gathers cluster front) (hcluster : cluster.bytes = front ++ rest)
    (hrest : GoOn bigEndian volume size data s rest clusters) :
    Reads (fun p' output => output = [] ∧ p'.Ahead bigEndian volume size data s n (cluster :: clusters) ∧
        Progress.Begins volume size s p p')
      (startSegment bigEndian volume segment p) := by
  obtain ⟨hlow, hhigh⟩ := segment.size_bounds
  have hsame := h.size_eq
  have hpos := hgathers.cmprPos
  have hfits : front.length + rest.length ≤ volume.blkSz := by
    rw [← List.length_append, ← hcluster]
    exact cluster.fits
  cases hrest with
  | skip htape hempty hrest => omega
  | through htape hsize hfirst hlong hbytes hrest =>
    have hget := getCseg_through p.zftc.cseg h hsize hfirst hfoffs hvolume.1 hpos (by omega) hblk
    refine (startSegment_takes hget hpos (by dsimp only; omega) (by dsimp only; omega)).mono ?_
    rintro p' output ⟨hnone, rfl⟩
    have htaken : (rest.take (size s - 2)).length = size s - 2 := List.length_take_of_le hlong
    refine ⟨hnone, .spans rfl rfl hfoffs (hgathers.more (rest.take (size s - 2)) h ?_ ?_ ?_ ?_ rfl) ?_ hrest, rfl,
      rfl, id, rfl, by dsimp only; omega, le_rfl⟩
    · rw [htaken]
      omega
    · rw [htaken]
      exact hbytes
    · rw [htaken]
    · rw [htaken]
    · rw [hcluster, List.append_assoc, List.take_append_drop]
  | ends htape hfirst hbytes hroom hoffset hrest =>
    have hget := getCseg_room p.zftc.cseg h hfirst hroom hoffset hvolume.2 hpos hfits hblk
    refine (startSegment_takes hget hpos (by dsimp only; omega) (by dsimp only; omega)).mono ?_
    rintro p' output ⟨hnone, rfl⟩
    refine ⟨hnone, .loaded hleft hmore rfl ?_ (fun _ => hroom) hrest, rfl, rfl, id, rfl, by dsimp only; omega,
      by dsimp only; omega⟩
    rw [hcluster]
    exact hgathers.more rest h (by omega) hbytes rfl rfl rfl
  | late htape hfirst hbytes hless hroom hrest =>
    have hget := getCseg_late p.zftc.cseg h hfirst hless hroom hfoffs hvolume.1 hpos hfits hblk
    refine (startSegment_takes hget hpos (by dsimp only; omega) (by dsimp only; omega)).mono ?_
    rintro p' output ⟨hnone, rfl⟩
    refine ⟨hnone, .loaded hleft hmore rfl ?_ (fun hne => absurd hfoffs hne) hrest, rfl, rfl, id, rfl,
      by dsimp only; omega, hless⟩
    rw [hcluster]
    exact hgathers.more rest h (by omega) hbytes rfl rfl rfl

end Starts

section Calls

variable {bigEndian : Bool} {volume : VtblEntry} {size : ℕ → ℕ} {data : ℕ → ℕ → Byte} {s : ℕ} {segment : Segment}
  {clusters : List (Cluster volume.blkSz)} {p : Progress} {n place : ℕ}

/-- Bytes at the end of a segment that are too few for a cluster are taken as well. -/
theorem expandReadCnt_full (h : segment.Is size data s) (herror : p.error = none)
    (hinside : p.zftc.cseg.offset ≤ size s) (hfull : size s ≤ p.zftc.cseg.offset + 18)
    (hcount : place + p.readCnt = p.zftc.cseg.offset) (hnonneg : 0 ≤ p.readCnt) :
    place + (expandReadCnt segment p).readCnt = size s := by
  obtain ⟨-, hhigh⟩ := segment.size_bounds
  have hsame := h.size_eq
  have hrest : uintSub segment.size p.zftc.cseg.offset = size s - p.zftc.cseg.offset := by
    rw [uintSub_of_le (by omega) (by omega), hsame]
  rw [expandReadCnt, hrest, if_pos ⟨herror, by omega⟩]
  dsimp only
  rw [Header.int_eq_self (by omega) (by omega)]
  omega

/-- The end of reading hands out nothing. -/
theorem expandReadCnt_result (segment : Segment) (p : Progress) :
    (expandReadCnt segment p).result = p.result ∧ (expandReadCnt segment p).error = p.error := by
  rw [expandReadCnt]
  split <;> exact ⟨rfl, rfl⟩

/-- The end of a call. -/
theorem expandReadCnt_done (h : segment.Is size data s) (hblk : 0 < volume.blkSz) (herror : p.error = none)
    (hallocated : p.zftc.Allocated volume) (hahead : p.Ahead bigEndian volume size data s n clusters)
    (hstops : ¬p.GoesOn) (hinside : p.zftc.cseg.offset ≤ size s)
    (hcount : place + p.readCnt = p.zftc.cseg.offset) (hnonneg : 0 ≤ p.readCnt) :
    (expandReadCnt segment p).Done bigEndian volume size data s place n clusters := by
  obtain ⟨-, hhigh⟩ := segment.size_bounds
  have hsame := h.size_eq
  have hzftc : (expandReadCnt segment p).zftc = p.zftc := expandReadCnt_zftc p
  cases hahead with
  | between hleft hspans hpos hfoffs hstart =>
    have hn : n = 0 := by
      by_contra hne
      have hmore : 0 < n * volume.blkSz := Nat.mul_pos (Nat.pos_of_ne_zero hne) hblk
      exact hstops ⟨hspans, by rw [hleft]; exact Int.natCast_pos.mpr hmore⟩
    by_cases hroom : p.zftc.cseg.offset + 18 < size s
    · have hmore : ¬(p.error = none ∧ uintSub segment.size p.zftc.cseg.offset ≤ 18) := by
        rw [uintSub_of_le (by omega) (by omega)]
        omega
      rw [expandReadCnt, if_neg hmore]
      exact .paused hn hcount ⟨hallocated, hspans, hpos, hroom, hstart⟩
    · have hfull : size s ≤ p.zftc.cseg.offset + 18 := not_lt.mp hroom
      have hzero : p.zftc.cseg.foffs = 0 := by
        by_contra hne
        exact hroom (hfoffs hne)
      refine .finished (expandReadCnt_full h herror hinside hfull hcount hnonneg) ?_
      rw [hzftc]
      cases hstart with
      | none => exact .drained hpos hzero
      | inside hroom' => exact absurd hroom' hroom
      | last hroom' => exact absurd hroom' hroom
      | spans hroom' => exact absurd hroom' hroom
      | full hfull hrest => exact .next hpos hzero hrest
  | loaded hleft hmore hspans =>
    have hmore : 0 < n * volume.blkSz := Nat.mul_pos hmore hblk
    exact absurd ⟨hspans, by rw [hleft]; exact Int.natCast_pos.mpr hmore⟩ hstops
  | spans hspans hend hfoffs hgathers hbytes hrest =>
    refine .finished (expandReadCnt_full h herror hinside (by omega) hcount hnonneg) ?_
    rw [hzftc]
    exact .pending hallocated hfoffs hgathers hbytes hrest
  | full hleft hpos hfull hfoffs hrest =>
    refine .finished (expandReadCnt_full h herror hinside hfull hcount hnonneg) ?_
    rw [hzftc]
    exact .next hpos hfoffs hrest

/-- The memory of the compressor is allocated before the first block is read, and is kept. -/
theorem zftAllocateCmprMem_waits {memory : Option ((ℕ → Byte) × (ℕ → Byte))} {zftc : Zftc}
    (hmemory : memory ≠ none) (h : zftc.Waits bigEndian volume size data s clusters) :
    ∃ zftc', zftAllocateCmprMem memory volume.blkSz zftc = (true, zftc') ∧ zftc'.Allocated volume ∧
      zftc'.Waits bigEndian volume size data s clusters := by
  by_cases hsame : zftc.Allocated volume
  · exact ⟨zftc, (zftAllocateCmprMem_spec volume memory zftc).2.2 hsame, hsame, h⟩
  · cases memory with
    | none => exact absurd rfl hmemory
    | some buffers =>
      obtain ⟨buf, scratchBuf⟩ := buffers
      have hnew : zftAllocateCmprMem (some (buf, scratchBuf)) volume.blkSz zftc = (true, { zftc with
          buf := buf, scratchBuf := scratchBuf, allocBlksz := volume.blkSz, cmprMemInitialized := true }) := by
        rw [zftAllocateCmprMem]
        exact if_neg hsame
      refine ⟨_, hnew, ⟨rfl, rfl⟩, ?_⟩
      cases h with
      | drained hpos hfoffs => exact .drained hpos hfoffs
      | next hpos hfoffs hrest => exact .next hpos hfoffs hrest
      | pending hallocated => exact absurd hallocated hsame

/-- The loop of a call, and what follows on it. -/
theorem readRest_reads {call : ReadCall} (h : call.segment.Is size data s) (hseg : call.segPos = s)
    (hblk : 0 < volume.blkSz) (hfault : ∀ i, call.userFault i = false) (herror : p.error = none)
    (hahead : p.Ahead bigEndian volume size data s n clusters) (hn : n ≤ clusters.length) (hnonneg : 0 ≤ p.readCnt)
    (hread : p.readCnt ≤ p.zftc.cseg.offset) (hinside : p.zftc.cseg.offset ≤ size s)
    (hcount : place + p.readCnt = p.zftc.cseg.offset) (hallocated : p.zftc.Allocated volume)
    (hmoves : 0 < p.readCnt ∨ p.GoesOn ∧ p.zftc.cseg.cmprPos = 0 ∧ p.zftc.cseg.offset + 18 < size s) :
    Reads (fun p' output => ∃ k ≤ n, output = blocks (clusters.take k) ∧ p'.error = none ∧
        p'.result = p.result + ((k * volume.blkSz : ℕ) : ℤ) ∧ 0 < p'.readCnt ∧
        p'.Done bigEndian volume size data s place (n - k) (clusters.drop k))
      (do
        let p ← readLoop bigEndian volume call.segment (volume.endSeg = call.segPos) call.userFault
          (call.segment.size + 2) p
        pure (expandReadCnt call.segment p)) := by
  have hsame := h.size_eq
  refine Recorded.Yields.bind (readLoop_reads h (by rw [decide_eq_true_iff, hseg]) hblk hfault herror hahead hn hnonneg
    hread hinside (by omega) fun _ => by omega) ?_
  rintro p' output ⟨k, hk, rfl, hresult, hahead', hadvances, hstops, hmoved⟩
  have hcount' := hadvances.count
  have hoffset' := hadvances.offset
  have hinside' := hadvances.inside
  have herror' := hadvances.error.trans herror
  have hdone := expandReadCnt_done (n := n - k) h hblk herror' (hadvances.allocated hallocated) hahead' hstops hinside'
    (by omega : place + p'.readCnt = p'.zftc.cseg.offset) (by omega)
  refine Recorded.Yields.pure ⟨k, hk, List.append_nil _, ?_, ?_, ?_, hdone⟩
  · rw [(expandReadCnt_result _ p').2, herror']
  · rw [(expandReadCnt_result _ p').1, hresult]
  · have hcounts : place + (expandReadCnt call.segment p').readCnt = p'.zftc.cseg.offset ∨
        place + (expandReadCnt call.segment p').readCnt = size s := by
      cases hdone with
      | paused _ hpaused =>
        rw [expandReadCnt_zftc] at hpaused
        exact Or.inl hpaused
      | finished hfinished => exact Or.inr hfinished
    rcases hmoves with hpositive | hgoes
    · omega
    · have hless := hmoved hgoes
      omega

/-- A call of `zftc_read()` at the start of a segment. -/
theorem zftcRead_waits {call : ReadCall} {zftc : Zftc} (h : call.segment.Is size data s) (hseg : call.segPos = s)
    (hblk : 0 < volume.blkSz) (hsmall : volume.blkSz < 0x80000000)
    (hvolume : 0 ≤ volume.size ∧ volume.size < 2 ^ 63) (hmemory : call.memory ≠ none)
    (hfault : ∀ i, call.userFault i = false) (hplace : call.segBytePos = 0)
    (htoDo : call.toDo = (n * volume.blkSz : ℕ)) (hmore : 0 < n) (hn : n ≤ clusters.length)
    (hwaits : zftc.Waits bigEndian volume size data s clusters) :
    Reads (fun p' output => ∃ k ≤ n, output = blocks (clusters.take k) ∧ p'.error = none ∧
        p'.result = ((k * volume.blkSz : ℕ) : ℤ) ∧ 0 < p'.readCnt ∧
        p'.Done bigEndian volume size data s 0 (n - k) (clusters.drop k))
      (zftcRead bigEndian volume call zftc) := by
  obtain ⟨hlow, hhigh⟩ := call.segment.size_bounds
  have hsame := h.size_eq
  obtain ⟨zftc', hnew, hallocated, hwaits'⟩ := zftAllocateCmprMem_waits hmemory hwaits
  rw [zftcRead, hnew]
  dsimp only
  rw [beginRead, if_pos hplace]
  have hbegin : Reads (fun p' output => output = [] ∧ p'.Ahead bigEndian volume size data s n clusters ∧
      Progress.Begins volume size s ⟨zftc', 0, 0, call.toDo, none⟩ p')
      (startSegment bigEndian volume call.segment ⟨zftc', 0, 0, call.toDo, none⟩) := by
    cases hwaits' with
    | drained =>
      rw [List.length_nil] at hn
      omega
    | next hpos hfoffs hrest => exact startSegment_next h hsmall hvolume htoDo hpos hfoffs hrest
    | pending hallocated hfoffs hgathers hbytes hrest =>
      exact startSegment_pending h hsmall hvolume hmore htoDo hfoffs hgathers hbytes hrest
  refine Recorded.Yields.bind hbegin ?_
  rintro p output ⟨rfl, hahead, herror, hresult, hkept, hcount, hpos, hinside⟩
  have hplace' : ((0 : ℕ) : ℤ) + p.readCnt = p.zftc.cseg.offset := by omega
  rw [if_pos herror]
  refine (readRest_reads h hseg hblk hfault herror hahead hn (by omega) (by omega) hinside hplace' (hkept hallocated)
    (Or.inl (by omega))).mono ?_
  rintro p' output ⟨k, hk, houtput, herror', hresult', hcounts, hdone⟩
  exact ⟨k, hk, houtput, herror', by rw [hresult', hresult, zero_add], hcounts, hdone⟩

/-- A call of `zftc_read()` between two clusters of a segment. -/
theorem zftcRead_paused {call : ReadCall} {zftc : Zftc} (h : call.segment.Is size data s) (hseg : call.segPos = s)
    (hblk : 0 < volume.blkSz) (hfault : ∀ i, call.userFault i = false) (hplace : call.segBytePos = zftc.cseg.offset)
    (hinside : 0 < zftc.cseg.offset) (htoDo : call.toDo = (n * volume.blkSz : ℕ)) (hmore : 0 < n)
    (hn : n ≤ clusters.length) (hpaused : zftc.Paused bigEndian volume size data s clusters) :
    Reads (fun p' output => ∃ k ≤ n, output = blocks (clusters.take k) ∧ p'.error = none ∧
        p'.result = ((k * volume.blkSz : ℕ) : ℤ) ∧ 0 < p'.readCnt ∧
        p'.Done bigEndian volume size data s zftc.cseg.offset (n - k) (clusters.drop k))
      (zftcRead bigEndian volume call zftc) := by
  obtain ⟨hallocated, hspans, hpos, hroom, hstart⟩ := hpaused
  have hremaining : 0 < call.toDo := by
    rw [htoDo]
    exact Int.natCast_pos.mpr (Nat.mul_pos hmore hblk)
  rw [zftcRead, (zftAllocateCmprMem_spec volume call.memory zftc).2.2 hallocated]
  dsimp only
  rw [beginRead, if_neg (by omega)]
  refine Recorded.Yields.silent_bind (Recorded.Yields.pure ⟨rfl, rfl⟩) ?_
  rintro p rfl
  rw [if_pos rfl]
  refine (readRest_reads (p := ⟨zftc, 0, 0, call.toDo, none⟩) h hseg hblk hfault rfl
    (.between htoDo hspans hpos (fun _ => hroom) hstart) hn le_rfl (Int.natCast_nonneg _) (by dsimp only; omega)
    (add_zero _) hallocated (Or.inr ⟨⟨hspans, hremaining⟩, hpos, hroom⟩)).mono ?_
  rintro p' output ⟨k, hk, houtput, herror', hresult', hcounts, hdone⟩
  exact ⟨k, hk, houtput, herror', by rw [hresult', zero_add], hcounts, hdone⟩

end Calls

/-- What the device shows of what it does. -/
abbrev Delivers {Value : Type} (post : Value → List Byte → Prop) (routine : Recorded DeviceRecord Halt Value) : Prop :=
  routine.Yields DeviceRecord.handedOut post

section Tapes

variable (bigEndian : Bool) (volume : VtblEntry) (size : ℕ → ℕ) (data : ℕ → ℕ → Byte)

/-- The segments of the volume can be read from the tape, and the deblock buffer holds one of them, if any. -/
structure Carries (zftape : Reader Byte) : Prop where
  size : ∀ s, zftape.zftGetSegSz s = size s
  readable : ∀ s ≤ volume.endSeg, zftape.readSegment s = .ok (data s)
  onTape : volume.endSeg ≤ zftape.segments
  cached : zftape.Cached data

/-- The device has these clusters ahead: it has used up the deblock buffer, or goes on in it. -/
inductive Device.Stands (device : Device) (clusters : List (Cluster volume.blkSz)) : Prop
  | start (hbyte : device.zftape.pos.segBytePos = 0) (hbuffer : device.zftape.bufLenRd = 0)
      (hwaits : device.zftc.Waits bigEndian volume size data device.zftape.pos.segPos clusters)
  | inside (hbyte : device.zftape.pos.segBytePos = device.zftc.cseg.offset) (hpos : 0 < device.zftc.cseg.offset)
      (hheld : device.zftape.deblockSegment = some device.zftape.pos.segPos)
      (hsize : device.zftape.segSz = size device.zftape.pos.segPos)
      (hbuffer : device.zftape.bufLenRd = device.zftape.segSz - device.zftape.pos.segBytePos)
      (htape : device.zftape.pos.segPos ≤ volume.endSeg)
      (hpaused : device.zftc.Paused bigEndian volume size data device.zftape.pos.segPos clusters)

end Tapes

section Devices

variable {kernel : Kernel Byte} {bigEndian : Bool} {volume : VtblEntry} {size : ℕ → ℕ} {data : ℕ → ℕ → Byte} {s : ℕ}
  {clusters : List (Cluster volume.blkSz)} {zftape zftape' : Reader Byte} {zftc : Zftc}

/-- The clusters go on in a segment of the volume. -/
theorem GoOn.le {rest : List Byte} (h : GoOn bigEndian volume size data s rest clusters) : s ≤ volume.endSeg := by
  cases h with
  | skip htape => exact htape.le
  | through htape => exact htape.le
  | ends htape => exact htape
  | late htape => exact htape

/-- A segment without usable sectors is passed. -/
theorem GoOn.pass {rest : List Byte} (h : GoOn bigEndian volume size data s rest clusters) (hempty : size s = 0) :
    GoOn bigEndian volume size data (s + 1) rest clusters := by
  cases h with
  | skip htape hempty hrest => exact hrest
  | through htape hsize => omega
  | ends htape hfirst hbytes hroom => omega
  | late htape hfirst hbytes hless => omega

/-- The compressor waits for a segment of the volume. -/
theorem Zftc.Waits.le (h : zftc.Waits bigEndian volume size data s clusters) (hmore : clusters ≠ []) :
    s ≤ volume.endSeg := by
  cases h with
  | drained => exact absurd rfl hmore
  | next hpos hfoffs hrest => exact hrest.le
  | pending hallocated hfoffs hgathers hbytes hrest => exact hrest.le

/-- The compressor does not notice that a segment without usable sectors is passed. -/
theorem Zftc.Waits.pass (h : zftc.Waits bigEndian volume size data s clusters) (hempty : size s = 0) :
    zftc.Waits bigEndian volume size data (s + 1) clusters := by
  cases h with
  | drained hpos hfoffs => exact .drained hpos hfoffs
  | next hpos hfoffs hrest => exact .next hpos hfoffs (hrest.pass hempty)
  | pending hallocated hfoffs hgathers hbytes hrest =>
    exact .pending hallocated hfoffs hgathers hbytes (hrest.pass hempty)

/-- The tape stays the same while the reader moves over it. -/
theorem Carries.moved (h : Carries volume size data zftape) (hmoved : zftape.Moved zftape')
    (hcached : zftape'.Cached data) : Carries volume size data zftape' := by
  have hsize := fun s => (hmoved.zftGetSegSz s).trans (h.size s)
  obtain ⟨_, _, _, _, _, rfl⟩ := hmoved
  exact ⟨hsize, h.readable, h.onTape, hcached⟩

/-- The next segment with something in it is fetched. -/
theorem fetchNext_waits (kernel : Kernel Byte) (rounds : ℕ) (h : Carries volume size data zftape)
    (hbyte : zftape.pos.segBytePos = 0)
    (hwaits : zftc.Waits bigEndian volume size data zftape.pos.segPos clusters) (hmore : clusters ≠ [])
    (hrounds : volume.endSeg < zftape.pos.segPos + rounds) :
    ∃ zftape', zftape.fetchNext kernel rounds = (zftape', .ok (size zftape'.pos.segPos)) ∧ zftape.Moved zftape' ∧
      Carries volume size data zftape' ∧ zftape'.pos.segBytePos = 0 ∧
      zftape'.deblockSegment = some zftape'.pos.segPos ∧ 0 < size zftape'.pos.segPos ∧
      zftc.Waits bigEndian volume size data zftape'.pos.segPos clusters ∧
      (zftape'.pos = zftape.pos ∨ zftape.pos.segPos < zftape'.pos.segPos) := by
  have hinside := hwaits.le hmore
  induction rounds generalizing zftape with
  | zero => omega
  | succ rounds ih =>
    obtain ⟨fetched, hfetch, hmoved, hcached, hpos, hheld⟩ :=
      Reader.zftFetchSegment_of_readable kernel h.cached (h.readable _ hinside)
    rw [Reader.fetchNext, hfetch, h.size]
    dsimp only
    cases hsize : size zftape.pos.segPos with
    | zero =>
      have hnext := hwaits.pass hsize
      obtain ⟨pos, buffer, held, bufLen, segSz, rfl⟩ := hmoved
      obtain rfl : pos = zftape.pos := hpos
      have hmoved : zftape.Moved { zftape with
          pos := { zftape.pos with segPos := zftape.pos.segPos + 1, segBytePos := 0 }
          deblockBuffer := buffer, deblockSegment := held, bufLenRd := bufLen, segSz := segSz } :=
        ⟨_, _, _, _, _, rfl⟩
      obtain ⟨zftape', hfetched, hmoved', hcarries, hbyte', hheld', hsize', hwaits', hplace⟩ :=
        ih (h.moved hmoved hcached) rfl hnext (by dsimp only; omega) (hnext.le hmore)
      refine ⟨zftape', hfetched, hmoved.trans hmoved', hcarries, hbyte', hheld', hsize', hwaits', Or.inr ?_⟩
      rcases hplace with hplace | hplace
      · rw [hplace]
        exact Nat.lt_succ_self _
      · exact Nat.lt_of_succ_lt hplace
    | succ count =>
      refine ⟨fetched, ?_, hmoved, h.moved hmoved hcached, ?_, ?_, ?_, ?_, Or.inl hpos⟩
      · rw [hpos, hsize]
        rfl
      · rw [hpos, hbyte]
      · rw [hpos, hheld]
      · rw [hpos, hsize]
        exact Nat.succ_pos count
      · rwa [hpos]

/-- A device that can call `zftc_read()`: the deblock buffer is filled, and the compressor waits for the segment or
has paused in it. -/
structure Device.Loaded (bigEndian : Bool) (volume : VtblEntry) (size : ℕ → ℕ) (data : ℕ → ℕ → Byte)
    (device : Device) (clusters : List (Cluster volume.blkSz)) : Prop where
  filled : Filled device.zftape
  held : device.zftape.deblockSegment = some device.zftape.pos.segPos
  place : device.zftape.pos.segBytePos = 0 ∧
      device.zftc.Waits bigEndian volume size data device.zftape.pos.segPos clusters ∨
    device.zftape.pos.segBytePos = device.zftc.cseg.offset ∧ 0 < device.zftc.cseg.offset ∧
      device.zftc.Paused bigEndian volume size data device.zftape.pos.segPos clusters
  tape : device.zftape.pos.segPos ≤ volume.endSeg

/-- The deblock buffer is filled, unless it has more. -/
theorem refill_stands (kernel : Kernel Byte) (h : Carries volume size data zftape) (hmore : clusters ≠ [])
    (hstands : Device.Stands bigEndian volume size data ⟨zftape, zftc⟩ clusters) :
    ∃ zftape', zftape.refill kernel = (zftape', .ok ()) ∧ zftape.Moved zftape' ∧ Carries volume size data zftape' ∧
      Device.Loaded bigEndian volume size data ⟨zftape', zftc⟩ clusters ∧
      (zftape'.pos = zftape.pos ∨ zftape.pos.segPos < zftape'.pos.segPos ∧ zftape'.pos.segBytePos = 0) := by
  have htape := h.onTape
  cases hstands with
  | start hbyte hbuffer hwaits =>
    have hinside := hwaits.le hmore
    dsimp only at hbyte hbuffer hwaits hinside
    obtain ⟨found, hfetch, hmoved, hcarries, hbyte', hheld, hsize, hwaits', hplace⟩ :=
      fetchNext_waits kernel (zftape.segments + 1 - zftape.pos.segPos) h hbyte hwaits hmore (by omega)
    have hfound := hwaits'.le hmore
    have hsegments := moved_segments hmoved
    refine ⟨{ found with segSz := size found.pos.segPos, bufLenRd := size found.pos.segPos - found.pos.segBytePos },
      ?_, ?_, ?_, ⟨⟨hbyte'.ge, ?_, Int.natCast_pos.mpr hsize, rfl, ?_⟩, hheld, Or.inl ⟨hbyte', hwaits'⟩, hfound⟩,
      hplace.imp id fun hless => ⟨hless, hbyte'⟩⟩
    · rw [Reader.refill, if_pos hbuffer, hfetch]
    · obtain ⟨pos, buffer, held, bufLen, segSz, rfl⟩ := hmoved
      exact ⟨_, _, _, _, _, rfl⟩
    · exact ⟨hcarries.size, hcarries.readable, hcarries.onTape, hcarries.cached⟩
    · exact congrArg Nat.cast (hcarries.size found.pos.segPos).symm
    · dsimp only
      omega
  | inside hbyte hpos hheld hsize hbuffer hsegment hpaused =>
    have hroom := hpaused.room
    dsimp only at hbyte hpos hheld hsize hbuffer hsegment hpaused hroom
    refine ⟨zftape, ?_, ⟨_, _, _, _, _, rfl⟩, h, ⟨⟨?_, ?_, ?_, hbuffer, ?_⟩, hheld, Or.inr ⟨hbyte, hpos, hpaused⟩,
      hsegment⟩, Or.inl rfl⟩
    · rw [Reader.refill, if_neg (by omega)]
    · dsimp only
      omega
    · rw [hsize, h.size]
    · dsimp only
      omega
    · dsimp only
      omega

/-- The deblock buffer holds the segment of the tape. -/
theorem deblocked_is (h : Carries volume size data zftape) (hfilled : Filled zftape)
    (hheld : zftape.deblockSegment = some zftape.pos.segPos) :
    (deblocked zftape).Is size data zftape.pos.segPos := by
  have hsize := deblocked_size hfilled.size hfilled.nonempty
  rw [hfilled.size, h.size] at hsize
  refine ⟨Int.ofNat_inj.mp hsize, fun i hi => ?_⟩
  have hwindow := h.cached _ hheld
  rw [Reader.payload, h.size] at hwindow
  have hcell := congrArg (fun cells : List Byte => cells.getD i 0) hwindow
  change zftape.deblockBuffer i = _
  simpa [List.getD_eq_getElem?_getD, window, hi] using hcell

/-- The bytes that a call has taken leave the device between two clusters, or at the next segment. -/
theorem Device.Stands.consume {p : Progress} {place n : ℕ} (h : Carries volume size data zftape)
    (hfilled : Filled zftape) (hheld : zftape.deblockSegment = some zftape.pos.segPos)
    (htape : zftape.pos.segPos ≤ volume.endSeg) (hplace : zftape.pos.segBytePos = place) (hcounts : 0 < p.readCnt)
    (hdone : p.Done bigEndian volume size data zftape.pos.segPos place n clusters) :
    Device.Stands bigEndian volume size data ⟨Compressor.consume zftape p.readCnt p.result, p.zftc⟩ clusters ∧
      Carries volume size data (Compressor.consume zftape p.readCnt p.result) ∧
      bytesAhead (Compressor.consume zftape p.readCnt p.result) < bytesAhead zftape ∧
      (Compressor.consume zftape p.readCnt p.result).segments = zftape.segments := by
  have hsize := hfilled.size
  have hbuffer := hfilled.buffer
  rw [h.size] at hsize
  have hcarries : Carries volume size data (Compressor.consume zftape p.readCnt p.result) :=
    ⟨h.size, h.readable, h.onTape, h.cached⟩
  cases hdone with
  | paused hn hcount hpaused =>
    have hroom := hpaused.room
    have hless : ¬zftape.segSz ≤ zftape.pos.segBytePos + p.readCnt := by omega
    obtain ⟨-, hahead, hsegments⟩ : Device.Ready volume ⟨Compressor.consume zftape p.readCnt p.result, p.zftc⟩ ∧ _ :=
      hfilled.consume p.result hcounts (by omega) fun _ => Or.inr
        ⟨by omega, by rw [h.size]; omega, Or.inl ⟨by omega, hpaused.spans, hpaused.cmprPos⟩⟩
    refine ⟨.inside ?_ (by dsimp only; omega) ?_ ?_ ?_ ?_ ?_, hcarries, hahead, hsegments⟩
    all_goals rw [Compressor.consume]
    all_goals dsimp only
    all_goals rw [if_neg hless]
    · dsimp only
      omega
    · exact hheld
    · exact hsize
    · dsimp only
      omega
    · exact htape
    · exact hpaused
  | finished hcount hwaits =>
    have hend : zftape.segSz ≤ zftape.pos.segBytePos + p.readCnt := by omega
    obtain ⟨-, hahead, hsegments⟩ : Device.Ready volume ⟨Compressor.consume zftape p.readCnt p.result, p.zftc⟩ ∧ _ :=
      hfilled.consume p.result hcounts (by omega) fun hless => absurd hend (not_le.mpr hless)
    refine ⟨.start ?_ ?_ ?_, hcarries, hahead, hsegments⟩
    all_goals rw [Compressor.consume]
    all_goals dsimp only
    · rw [if_pos hend]
    · omega
    · rw [if_pos hend]
      exact hwaits

/-- The device stands inside of the deblock buffer. -/
theorem Device.Stands.byte_le {device : Device} (h : Carries volume size data device.zftape)
    (hstands : Device.Stands bigEndian volume size data device clusters) :
    device.zftape.pos.segBytePos ≤ ftBuffSize := by
  cases hstands with
  | start hbyte =>
    rw [hbyte]
    exact Int.natCast_nonneg _
  | inside hbyte hpos hheld hsize hbuffer htape hpaused =>
    have hroom := hpaused.room
    have hfits := zftGetSegSz_le_ftBuffSize device.zftape device.zftape.pos.segPos
    rw [h.size] at hfits
    omega

/-- Nothing disturbs a round of the loop. -/
structure Surroundings.Quiet (surroundings : Surroundings) : Prop where
  signal : surroundings.signal = false
  memory : surroundings.memory ≠ none
  userFault : ∀ i, surroundings.userFault i = false

variable {surroundings : Surroundings} {n : ℕ}

/-- What a round of the loop of `_zft_read()` hands out, and what is ahead of the device behind it. -/
def Rounds (bigEndian : Bool) (volume : VtblEntry) (size : ℕ → ℕ) (data : ℕ → ℕ → Byte) (zftape : Reader Byte) (n : ℕ)
    (clusters : List (Cluster volume.blkSz)) (outcome : Device × Except Failure ℤ) (output : List Byte) : Prop :=
  ∃ k ≤ n, output = blocks (clusters.take k) ∧ outcome.2 = .ok ((k * volume.blkSz : ℕ) : ℤ) ∧
    Device.Stands bigEndian volume size data outcome.1 (clusters.drop k) ∧ Carries volume size data outcome.1.zftape ∧
    bytesAhead outcome.1.zftape < bytesAhead zftape ∧ outcome.1.zftape.segments = zftape.segments

/-- The deblock buffer is emptied by a call of `zftc_read()`. -/
theorem emptyDeblockBuf_delivers (h : Carries volume size data zftape)
    (hloaded : Device.Loaded bigEndian volume size data ⟨zftape, zftc⟩ clusters) (hquiet : surroundings.Quiet)
    (hblk : 0 < volume.blkSz) (hsmall : volume.blkSz < 0x80000000)
    (hvolume : 0 ≤ volume.size ∧ volume.size < 2 ^ 63) (hmore : 0 < n) (hn : n ≤ clusters.length) :
    Delivers (Rounds bigEndian volume size data zftape n clusters)
      (emptyDeblockBuf bigEndian volume surroundings ⟨zftape, zftc⟩ (n * volume.blkSz : ℕ)) := by
  obtain ⟨hfilled, hheld, hplace, htape⟩ := hloaded
  have hsegment := deblocked_is h hfilled hheld
  have hbyte : ((zftape.pos.segBytePos.toNat : ℕ) : ℤ) = zftape.pos.segBytePos := Int.toNat_of_nonneg hfilled.byte
  have hread : Delivers (fun p output => ∃ k ≤ n, output = blocks (clusters.take k) ∧ p.error = none ∧
      p.result = ((k * volume.blkSz : ℕ) : ℤ) ∧ 0 < p.readCnt ∧
      p.Done bigEndian volume size data zftape.pos.segPos zftape.pos.segBytePos.toNat (n - k) (clusters.drop k))
      ((zftcRead bigEndian volume ⟨zftape.pos.segBytePos.toNat, zftape.pos.segPos, deblocked zftape,
        (n * volume.blkSz : ℕ), surroundings.memory, surroundings.userFault⟩ zftc).translate .reading) := by
    refine Recorded.Yields.translate _ ?_
    rcases hplace with ⟨hzero, hwaits⟩ | ⟨hoffset, hpos, hpaused⟩
    · have hzero' : zftape.pos.segBytePos.toNat = 0 := by
        rw [hzero]
        rfl
      rw [hzero']
      exact zftcRead_waits hsegment rfl hblk hsmall hvolume hquiet.memory hquiet.userFault rfl rfl hmore hn hwaits
    · have hoffset' : zftape.pos.segBytePos.toNat = zftc.cseg.offset := by
        dsimp only at hoffset
        rw [hoffset, Int.toNat_natCast]
      rw [hoffset']
      exact zftcRead_paused hsegment rfl hblk hquiet.userFault rfl hpos rfl hmore hn hpaused
  rw [emptyDeblockBuf]
  refine Recorded.Yields.note_bind _ ?_
  refine Recorded.Yields.bind hread ?_
  rintro p output ⟨k, hk, rfl, herror, hresult, hcounts, hdone⟩
  refine Recorded.Yields.note_bind _ ?_
  rw [herror]
  obtain ⟨hstands, hcarries, hahead, hsegments⟩ := Device.Stands.consume h hfilled hheld htape hbyte.symm hcounts hdone
  refine Recorded.Yields.pure ⟨k, hk, ?_, congrArg Except.ok hresult, hstands, hcarries, hahead, hsegments⟩
  exact List.append_nil _

/-- A request hands out the blocks that it asks for. -/
theorem readRounds_delivers {rounds : ℕ} {surroundings : ℕ → Surroundings} {device : Device}
    (h : Carries volume size data device.zftape)
    (hstands : Device.Stands bigEndian volume size data device clusters)
    (hquiet : ∀ round, (surroundings round).Quiet) (hblk : 0 < volume.blkSz) (hsmall : volume.blkSz < 0x80000000)
    (hvolume : 0 ≤ volume.size ∧ volume.size < 2 ^ 63) (hn : n ≤ clusters.length)
    (hrounds : bytesAhead device.zftape < rounds) :
    Delivers (fun outcome output => output = blocks (clusters.take n) ∧ outcome.2 = .ok () ∧
        Device.Stands bigEndian volume size data outcome.1 (clusters.drop n) ∧
        Carries volume size data outcome.1.zftape ∧
        outcome.1.zftape.segments = device.zftape.segments)
      (readRounds kernel bigEndian volume rounds surroundings device (n * volume.blkSz : ℕ)) := by
  induction rounds generalizing surroundings device clusters n with
  | zero => exact absurd hrounds (Nat.not_lt_zero _)
  | succ rounds ih =>
    obtain ⟨zftape, zftc⟩ := device
    dsimp only at h hrounds
    rw [readRounds]
    rcases Nat.eq_zero_or_pos n with rfl | hmore
    · rw [Nat.zero_mul, if_pos (Int.natCast_zero.le)]
      exact Recorded.Yields.pure ⟨rfl, rfl, hstands, h, rfl⟩
    · have hpositive : 0 < n * volume.blkSz := Nat.mul_pos hmore hblk
      have hne : clusters ≠ [] := by
        rintro rfl
        rw [List.length_nil] at hn
        omega
      rw [if_neg (by omega), (hquiet 0).signal, if_neg Bool.false_ne_true]
      obtain ⟨zftape', hrefill, hmoved, hcarries, hloaded, hpos⟩ := refill_stands kernel h hne hstands
      obtain ⟨hsegments, hskipped⟩ := bytesAhead_skip hmoved hloaded.filled (Device.Stands.byte_le h hstands) hpos
      rw [hrefill]
      refine Recorded.Yields.bind
        (emptyDeblockBuf_delivers hcarries hloaded (hquiet 0) hblk hsmall hvolume hmore hn) ?_
      rintro ⟨device, result⟩ output ⟨k, hk, rfl, hresult, hstands', hcarries', hahead, hsegments'⟩
      dsimp only at hresult hstands' hcarries' hahead hsegments'
      subst hresult
      have hleft : ((n * volume.blkSz : ℕ) : ℤ) - ((k * volume.blkSz : ℕ) : ℤ) = ((n - k) * volume.blkSz : ℕ) := by
        obtain ⟨m, rfl⟩ := Nat.exists_eq_add_of_le hk
        rw [Nat.add_sub_cancel_left]
        push_cast
        ring
      have hfewer : n - k ≤ (clusters.drop k).length := by
        rw [List.length_drop]
        omega
      dsimp only
      rw [hleft]
      refine (ih hcarries' hstands' (fun round => hquiet (round + 1)) hfewer (by omega)).mono ?_
      rintro outcome output ⟨rfl, hdone, hstands'', hcarries'', hsegments''⟩
      have hsplit : k + (n - k) = n := by omega
      refine ⟨?_, hdone, ?_, hcarries'', hsegments''.trans (hsegments'.trans hsegments)⟩
      · rw [← blocks_append, ← List.take_add, hsplit]
      · rwa [List.drop_drop, hsplit] at hstands''

/-- Requests for so many blocks, one after the other. -/
def requests (volume : VtblEntry) : List ((ℕ → Surroundings) × ℕ) → List DeviceEvent :=
  List.map fun request => .request request.1 (request.2 * volume.blkSz : ℕ)

/-- The requests hand out the blocks in order. -/
theorem deviceRun_delivers {rounds : ℕ} {device : Device} (asked : List ((ℕ → Surroundings) × ℕ))
    (h : Carries volume size data device.zftape)
    (hstands : Device.Stands bigEndian volume size data device clusters)
    (hquiet : ∀ request ∈ asked, ∀ round, (request.1 round).Quiet) (hblk : 0 < volume.blkSz)
    (hsmall : volume.blkSz < 0x80000000) (hvolume : 0 ≤ volume.size ∧ volume.size < 2 ^ 63)
    (hn : (asked.map Prod.snd).sum ≤ clusters.length)
    (hrounds : (device.zftape.segments + 1) * ftBuffSize < rounds) :
    Delivers (fun _ output => output = blocks (clusters.take (asked.map Prod.snd).sum))
      (deviceRun kernel bigEndian volume rounds (requests volume asked) device) := by
  induction asked generalizing device clusters with
  | nil => exact Recorded.Yields.pure rfl
  | cons request asked ih =>
    obtain ⟨surroundings, n⟩ := request
    rw [List.map_cons, List.sum_cons] at hn
    have hahead : bytesAhead device.zftape ≤ (device.zftape.segments + 1) * ftBuffSize :=
      le_trans (Nat.sub_le _ _) (Nat.mul_le_mul_right _ (Nat.sub_le _ _))
    have hstep : Delivers (fun device' output => output = blocks (clusters.take n) ∧
        Device.Stands bigEndian volume size data device' (clusters.drop n) ∧ Carries volume size data device'.zftape ∧
        device'.zftape.segments = device.zftape.segments)
        (deviceStep kernel bigEndian volume rounds device (.request surroundings (n * volume.blkSz : ℕ))) := by
      refine Recorded.Yields.bind (readRounds_delivers h hstands (hquiet _ List.mem_cons_self) hblk hsmall hvolume
        (by omega) (by omega)) ?_
      rintro ⟨device', outcome⟩ output ⟨rfl, -, hstands', hcarries, hsegments⟩
      exact Recorded.Yields.pure ⟨List.append_nil _, hstands', hcarries, hsegments⟩
    refine Recorded.Yields.bind hstep ?_
    rintro device' output ⟨rfl, hstands', hcarries, hsegments⟩
    have hfewer : (asked.map Prod.snd).sum ≤ (clusters.drop n).length := by
      rw [List.length_drop]
      omega
    refine (ih hcarries hstands' (fun request hrequest => hquiet request (List.mem_cons_of_mem _ hrequest)) hfewer
      (by rw [hsegments]; exact hrounds)).mono ?_
    rintro _ output rfl
    rw [← blocks_append, ← List.take_add]
    rfl

end Devices

/-- Whatever requests for blocks read a compressed volume from its start, they hand out the blocks of its clusters in
order, however the clusters are spread over the segments. -/
theorem deviceRun_blocks (kernel : Kernel Byte) (bigEndian : Bool) (volume : VtblEntry) (data : ℕ → ℕ → Byte)
    (clusters : List (Cluster volume.blkSz)) (device : Device) (tapePos : ℤ) (asked : List ((ℕ → Surroundings) × ℕ))
    {rounds : ℕ} (hrounds : (device.zftape.segments + 1) * ftBuffSize < rounds)
    (htape : volume.endSeg ≤ device.zftape.segments)
    (hreadable : ∀ s ≤ volume.endSeg, device.zftape.readSegment s = .ok (data s))
    (hclusters : GoOn bigEndian volume device.zftape.zftGetSegSz data volume.startSeg [] clusters)
    (hblk : 0 < volume.blkSz ∧ volume.blkSz < 0x80000000) (hvolume : 0 ≤ volume.size ∧ volume.size < 2 ^ 63)
    (hquiet : ∀ request ∈ asked, ∀ round, (request.1 round).Quiet)
    (hasked : (asked.map Prod.snd).sum ≤ clusters.length) :
    ∃ device', (deviceRun kernel bigEndian volume rounds
        (.place ⟨volume.startSeg, 0, 0, tapePos⟩ .zero :: requests volume asked) device).result = .ok device' ∧
      (deviceRun kernel bigEndian volume rounds
        (.place ⟨volume.startSeg, 0, 0, tapePos⟩ .zero :: requests volume asked) device).queries.flatMap
          DeviceRecord.handedOut = blocks (clusters.take (asked.map Prod.snd).sum) := by
  have hplace : Delivers (fun device' output => output = [] ∧
      Device.Stands bigEndian volume device.zftape.zftGetSegSz data device' clusters ∧
      Carries volume device.zftape.zftGetSegSz data device'.zftape ∧
      device'.zftape.segments = device.zftape.segments)
      (deviceStep kernel bigEndian volume rounds device (.place ⟨volume.startSeg, 0, 0, tapePos⟩ .zero)) := by
    refine Recorded.Yields.note_bind _ (Recorded.Yields.pure ⟨rfl, ?_, ?_, rfl⟩)
    · exact .start rfl rfl (.next rfl rfl hclusters)
    · exact ⟨fun _ => rfl, hreadable, htape, fun s hheld => by cases hheld⟩
  have hrun : Delivers (fun _ output => output = blocks (clusters.take (asked.map Prod.snd).sum))
      (deviceRun kernel bigEndian volume rounds
        (.place ⟨volume.startSeg, 0, 0, tapePos⟩ .zero :: requests volume asked) device) := by
    refine Recorded.Yields.bind hplace ?_
    rintro device' output ⟨rfl, hstands, hcarries, hsegments⟩
    exact deviceRun_delivers asked hcarries hstands hquiet hblk.1 hblk.2 hvolume hasked
      (by rw [hsegments]; exact hrounds)
  exact hrun

/-- The letters `abcabc` and so on. -/
def phraseText : List Byte := (List.range 1024).map fun i => BitVec.ofNat 8 (97 + i % 3)

/-- A copy of so many bytes of the phrase `abc`. -/
def phraseCopy (lenmt : Fin 16) : Item := .copy ⟨hashOf 97 98 99, hashOf_lt 97 98 99⟩ lenmt

/-- A copy of eighteen letters. -/
def longCopy : Item := phraseCopy (.last 15)

/-- A copy of the last thirteen letters. -/
def lastCopy : Item := phraseCopy (.castAdd 5 (.last 10))

/-- The letters as items, in groups of sixteen. -/
def phraseItems : List Item :=
  ([.literal 97, .literal 98, .literal 99] ++ List.replicate 13 longCopy) ++ (List.replicate 16 longCopy ++
    (List.replicate 16 longCopy ++ (List.replicate 11 longCopy ++ [lastCopy])))

/-- A group of sixteen items. -/
theorem encodeItems_group {group : List Item} (items : List Item) (h : group.length = 16) :
    encodeItems (group ++ items) = groupBytes group ++ encodeItems items := by
  obtain ⟨item, group', rfl⟩ := List.exists_cons_of_length_pos (show 0 < group.length by omega)
  rw [List.cons_append, encodeItems, ← List.cons_append, List.take_left' h, List.drop_left' h]

/-- The compressed data has these items. -/
theorem encodeItems_phraseItems : List.replicate flagBytes 0 ++ encodeItems phraseItems = phraseBytes := by
  have hlast : encodeItems (List.replicate 11 longCopy ++ [lastCopy]) =
      groupBytes (List.replicate 11 longCopy ++ [lastCopy]) := by
    rw [List.replicate_succ, List.cons_append, encodeItems, List.drop_of_length_le (by decide), encodeItems,
      List.append_nil, List.take_of_length_le (by decide)]
  rw [phraseItems, encodeItems_group _ rfl, encodeItems_group _ rfl, encodeItems_group _ rfl, hlast]
  decide +kernel

/-- The number of the letters. -/
theorem phraseText_length : phraseText.length = 1024 := by
  rw [phraseText, List.length_map, List.length_range]

/-- A letter. -/
theorem phraseText_getD {i : ℕ} (h : i < 1024) : phraseText.getD i 0 = BitVec.ofNat 8 (97 + i % 3) := by
  have hinside : i < phraseText.length := phraseText_length.symm ▸ h
  rw [List.getD_eq_getElem?_getD, List.getElem?_eq_getElem hinside, Option.getD_some]
  simp only [phraseText, List.getElem_map, List.getElem_range]

/-- A letter as an item. -/
theorem phraseLetter_matches {scan : Scan} {byte : Byte} (hfits : scan.pos < 1024)
    (hbyte : BitVec.ofNat 8 (97 + scan.pos % 3) = byte) : scan.Matches phraseText (.literal byte) :=
  ⟨phraseText_length.symm ▸ hfits, (phraseText_getD hfits).trans hbyte⟩

/-- A copy of the letters, of a phrase that is some phrases in front. -/
theorem phraseCopy_matches {scan : Scan} {place : ℕ} {lenmt : Fin 16} (hfits : scan.pos + (lenmt + 3) ≤ 1024)
    (hentry : scan.table (hashOf 97 98 99) = .output place) (hfront : place ≤ scan.pos)
    (hphase : place % 3 = scan.pos % 3) : scan.Matches phraseText (phraseCopy lenmt) := by
  refine ⟨phraseText_length.symm ▸ hfits, fun i hi => ?_⟩
  dsimp only
  rw [hentry, phraseByte, phraseText_getD (by omega), phraseText_getD (by omega)]
  congr 2
  omega

/-- Copies of eighteen letters, and one of the rest. -/
theorem describes_copies {scan : Scan} {count place : ℕ} (hend : scan.pos + 18 * count + 13 = 1024)
    (hentry : scan.table (hashOf 97 98 99) = .output place) (hfront : place ≤ scan.pos)
    (hphase : place % 3 = scan.pos % 3) :
    Describes phraseText scan (List.replicate count longCopy ++ [lastCopy]) := by
  induction count generalizing scan place with
  | zero =>
    have hfits : scan.pos + (10 + 3) ≤ 1024 := by omega
    refine .item (phraseCopy_matches hfits hentry hfront hphase) (.done ?_)
    rw [phraseText_length]
    change scan.pos + (10 + 3) = 1024
    omega
  | succ count ih =>
    have hfits : scan.pos + (15 + 3) ≤ 1024 := by omega
    have hnext : (scan.next phraseText longCopy).table (hashOf 97 98 99) = .output scan.pos := by
      change Function.update (scan.flush phraseText).table (hashOf 97 98 99) (.output scan.pos) (hashOf 97 98 99) = _
      rw [Function.update_self]
    refine .item (phraseCopy_matches hfits hentry hfront hphase) (ih ?_ hnext ?_ ?_)
    · change scan.pos + (15 + 3) + 18 * count + 13 = 1024
      omega
    · exact Nat.le_add_right _ _
    · change scan.pos % 3 = (scan.pos + (15 + 3)) % 3
      omega

/-- The items describe the letters. -/
theorem describes_phraseItems : Describes phraseText .first phraseItems := by
  have hitems : phraseItems = [.literal 97, .literal 98, .literal 99] ++
      (List.replicate 56 longCopy ++ [lastCopy]) := rfl
  have hhash : hashAt phraseText 0 = hashOf 97 98 99 := by
    rw [hashAt, phraseText_getD (by decide), phraseText_getD (by decide), phraseText_getD (by decide)]
    decide
  have hscan : ((Scan.first.next phraseText (.literal 97)).next phraseText (.literal 98)).next phraseText
      (.literal 99) = ⟨3, 2, Function.update (fun _ => .startString 0) (hashAt phraseText 0) (.output 0)⟩ := rfl
  rw [hitems]
  refine .item (phraseLetter_matches (by decide) rfl) (.item (phraseLetter_matches (by decide) rfl)
    (.item (phraseLetter_matches (by decide) rfl) ?_))
  rw [hscan, hhash]
  refine describes_copies rfl ?_ (Nat.zero_le _) rfl
  dsimp only
  rw [Function.update_self]

/-- The bytes of the letters on the tape. -/
theorem phraseBytes_length : phraseBytes.length = 129 := by decide +kernel

/-- The letters as a compressed cluster. -/
def phraseCluster : Cluster pairVolume.blkSz where
  block := phraseText
  stored := false
  bytes := phraseBytes
  block_length := phraseText_length
  nonempty := phraseBytes_length.symm ▸ Nat.succ_pos 128
  fits := phraseBytes_length.symm ▸ (by decide : 129 ≤ 1024)
  standsFor := by
    rw [← encodeItems_phraseItems]
    exact .compressed _ _ List.length_replicate describes_phraseItems

/-- The bytes of the stored block. -/
theorem countBytes_length : countBytes.length = 1024 := by
  rw [countBytes, List.length_map, List.length_range]

/-- Bytes that count up as a stored cluster. -/
def countCluster : Cluster pairVolume.blkSz where
  block := countBytes
  stored := true
  bytes := countBytes
  block_length := countBytes_length
  nonempty := countBytes_length.symm ▸ Nat.succ_pos 1023
  fits := countBytes_length.le
  standsFor := .stored

/-- Two blocks are read with a request for each of them. The first one is compressed, and the second one goes on in
the second segment. -/
theorem deviceRun_blocks_pair :
    ∃ device', (deviceRun sampleKernel false pairVolume 98305
        (.place ⟨1, 0, 0, 0⟩ .zero :: requests pairVolume [(undisturbed, 1), (undisturbed, 1)])
        ⟨pairTape, .opened⟩).result = .ok device' ∧
      (deviceRun sampleKernel false pairVolume 98305
        (.place ⟨1, 0, 0, 0⟩ .zero :: requests pairVolume [(undisturbed, 1), (undisturbed, 1)])
        ⟨pairTape, .opened⟩).queries.flatMap DeviceRecord.handedOut = phraseText ++ countBytes := by
  have hsector : segDataSz 0x0fffffff = 1024 := by decide +kernel
  have hsize : ∀ s, pairTape.zftGetSegSz s = 1024 := by
    intro s
    rw [Reader.zftGetSegSz]
    exact (if_neg fun hraw => Bool.false_ne_true hraw.2).trans hsector
  have hrest : (countBytes.drop 881).length = 143 := by
    rw [List.length_drop, countBytes_length]
  have hphrase : window (pairData 1) 12 129 = phraseBytes := by
    have hpart := window_getD ([2, 0] ++ List.replicate 8 0 ++ [129, 0]) phraseBytes
      ([0x71, 0x83] ++ countBytes.take 881) 0
    rw [phraseBytes_length, ← List.append_assoc, ← List.append_assoc] at hpart
    exact hpart
  have hfront : window (pairData 1) 143 881 = countBytes.take 881 := by
    have hpart := window_getD ([2, 0] ++ List.replicate 8 0 ++ [129, 0] ++ phraseBytes ++ [0x71, 0x83])
      (countBytes.take 881) [] 0
    rw [List.append_nil, List.length_take, countBytes_length] at hpart
    exact hpart
  have hback : window (pairData 2) 2 143 = countBytes.drop 881 := by
    have hpart := window_getD [145, 0] (countBytes.drop 881) [] 0
    rw [List.append_nil, hrest] at hpart
    exact hpart
  have hsecond : GoOn false pairVolume pairTape.zftGetSegSz pairData 2 (countBytes.drop 881) [] := by
    have hfirst : fetch false (pairData 2) 0 2 = 2 + 143 := by decide +kernel
    have hoffset : (fetch false (pairData 2) (2 + 143) 8 : ℤ) ≤ pairVolume.size := by decide +kernel
    refine .ends le_rfl ?_ ?_ ?_ ?_ (.none _ _)
    · rw [hrest]
      exact hfirst
    · rw [hrest]
      exact hback
    · rw [hrest, hsize]
      decide
    · rw [hrest]
      exact hoffset
  have hspans : StartAt false pairVolume pairTape.zftGetSegSz pairData 1 141 [countCluster] := by
    have hbytes : countCluster.bytes = countBytes := by rw [countCluster]
    have hheader : fetch false (pairData 1) 141 2 = countCluster.header 881 := by
      rw [Cluster.header, countCluster, if_pos rfl]
      decide +kernel
    refine .spans (by rw [hsize]; decide) hheader (by rw [hsize] : 141 + 2 + 881 = _) ?_ ?_ (by decide) ?_
    · rw [hbytes, countBytes_length]
      decide
    · rw [hbytes]
      exact hfront
    · rw [hbytes]
      exact hsecond
  have hfirst : GoOn false pairVolume pairTape.zftGetSegSz pairData 1 [] [phraseCluster, countCluster] := by
    have hbytes : phraseCluster.bytes.length = 129 := phraseBytes_length
    have hstart : StartAt false pairVolume pairTape.zftGetSegSz pairData 1 10 [phraseCluster, countCluster] := by
      refine .inside (by rw [hsize]; decide) ?_ ?_ ?_ ?_
      · decide +kernel
      · rw [hbytes]
        exact hphrase
      · rw [hbytes, hsize]
        decide
      · rw [hbytes]
        exact hspans
    exact .ends (by decide) (by decide +kernel) (window_zero _ _) (by rw [hsize]; decide) (by decide +kernel) hstart
  have hquiet : ∀ request ∈ [(undisturbed, 1), (undisturbed, 1)], ∀ round, (request.1 round).Quiet := by
    intro request hrequest round
    rw [List.mem_cons, List.mem_singleton, or_self] at hrequest
    rw [hrequest]
    exact ⟨rfl, Option.some_ne_none _, fun _ => rfl⟩
  have hblocks : blocks ([phraseCluster, countCluster].take ([(undisturbed, 1), (undisturbed, 1)].map Prod.snd).sum) =
      phraseText ++ countBytes := by
    have hall : [phraseCluster, countCluster].take ([(undisturbed, 1), (undisturbed, 1)].map Prod.snd).sum =
        [phraseCluster, countCluster] := rfl
    rw [hall, blocks, List.flatMap_cons, List.flatMap_cons, List.flatMap_nil, List.append_nil, phraseCluster,
      countCluster]
  rw [← hblocks]
  exact deviceRun_blocks sampleKernel false pairVolume pairData [phraseCluster, countCluster] ⟨pairTape, .opened⟩ 0
    [(undisturbed, 1), (undisturbed, 1)] (by decide) le_rfl (fun _ _ => rfl) hfirst (by decide) (by decide) hquiet le_rfl

end Ftape.Compressor
