import Ftape.Algebra.Window
import Ftape.Write.Ring
import Mathlib.Algebra.BigOperators.Intervals

/-!
# Writing segments and verifying them

The header segments and the volume table are written by one loop, and read back and compared by
another one. Each loop has its own pointer into the data.
-/

namespace Ftape.Zftape

open Ftape.Algebra Ftape.Write

/-- `ft_write_mode_t` as far as it is used here. -/
inductive FtWriteMode where
  | single
  | multi
  | async

/-- `ft_read_mode_t`. -/
inductive FtReadMode where
  | single
  | ahead

/-- What writing takes from elsewhere. `segSz` is `zft_get_seg_data_sz()`, `segments` the number of segments
of the cartridge; `deblockBuffer` tells whether there is a deblock buffer for a segment, `write` is what
`ftape_write_segment()` returns for a segment and its payload, and `finish` what the calls that wait for the
end of the writes return. -/
structure Medium where
  segments : ℕ
  segSz : ℕ → ℕ
  deblockBuffer : ℕ → Bool
  write : ℕ → List Byte → FtWriteMode → Except Errno ℕ
  finish : Except Errno Unit

/-- What `ftape_read_segment()` returns for each segment, with the deblock buffer that it hands out. A
segment that is read has the bytes of its good sectors without those for error correction. -/
structure Reads (segSz : ℕ → ℕ) where
  read : ℕ → FtReadMode → Except Errno (Option (List Byte))
  length_read : ∀ segment mode buffer, read segment mode = .ok (some buffer) → buffer.length = segSz segment

/-- Bytes of the data that belong to the first bytes of a segment. -/
structure Piece where
  segment : ℕ
  srcBuf : ℕ
  count : ℕ

variable (medium : Medium) (data : ℕ → Byte)

/-- The part of the write loop that fills the deblock buffer: its payload, the mode, and the bytes that
remain. -/
def fillSegment (single : Bool) (srcBuf remaining segSz : ℕ) : List Byte × FtWriteMode × ℕ :=
  if remaining = segSz then
    (window data srcBuf segSz, if single then .single else .multi, 0)
  else if segSz < remaining then
    (window data srcBuf segSz, .async, remaining - segSz)
  else
    (window data srcBuf remaining ++ List.replicate (segSz - remaining) 0,
      if single then .single else .multi, 0)

/-- The loop of `zft_verify_write_segments()` that writes. The values are the pieces written with the
payloads of their segments, and `seg_sz` as the loop leaves it. No segment behind the last one is written. -/
def segmentsWriteLoop (single : Bool) : ℕ → ℕ → ℕ → ℕ → Except Errno (List (Piece × List Byte) × ℕ)
  | 0, _, _, _ => .error .enospc
  | rounds + 1, segPos, srcBuf, remaining =>
    let segSz := medium.segSz segPos
    if medium.deblockBuffer segPos = false then .error .eio
    else
      let (payload, mode, rest) := fillSegment data single srcBuf remaining segSz
      match medium.write segPos payload mode with
      | .error code => .error code
      | .ok result =>
        if result ≠ segSz then .error .eio
        else
          let piece : Piece × List Byte := (⟨segPos, srcBuf, min remaining segSz⟩, payload)
          if 0 < rest then
            match segmentsWriteLoop single rounds (segPos + 1) (srcBuf + result) rest with
            | .error code => .error code
            | .ok (pieces, next) => .ok (piece :: pieces, next)
          else .ok ([piece], medium.segSz (segPos + 1))

/-- The loop of `zft_verify_write_segments()` that compares. `segSz` is what the other loop has left. The
values are the pieces compared. -/
def verifyLoop {sizes : ℕ → ℕ} (reads : Reads sizes) (mode : FtReadMode) (segSz : ℕ) :
    ℕ → ℕ → ℕ → ℕ → Except Errno (List Piece)
  | 0, _, _, _ => .error .eio
  | rounds + 1, segPos, srcBuf, remaining =>
    match reads.read segPos mode with
    | .error code => .error code
    | .ok none => .error .eio
    | .ok (some deblockBuf) =>
      let count := min remaining deblockBuf.length
      if window data srcBuf count ≠ deblockBuf.take count then .error .eio
      else
        let rest := remaining - deblockBuf.length
        if 0 < rest then
          match verifyLoop reads mode segSz rounds (segPos + 1) (srcBuf + segSz) rest with
          | .error code => .error code
          | .ok pieces => .ok (⟨segPos, srcBuf, count⟩ :: pieces)
        else .ok [⟨segPos, srcBuf, count⟩]

/-- `zft_verify_write_segments()` up to the end of the writes. -/
def writeSegments (segment size : ℕ) : Except Errno (List (Piece × List Byte) × ℕ) := do
  let single : Bool := size ≤ medium.segSz segment
  let written ← segmentsWriteLoop medium data single (medium.segments - segment) segment 0 size
  medium.finish
  pure written

/-- The mode in which the segments are read back. -/
def readMode (segment size : ℕ) : FtReadMode := if size ≤ medium.segSz segment then .single else .ahead

/-- `zft_verify_write_segments()`, with the pieces written and the pieces compared. -/
def zftVerifyWriteSegments (reads : Reads medium.segSz) (segment size : ℕ) :
    Except Errno (List (Piece × List Byte) × List Piece) := do
  let (written, segSz) ← writeSegments medium data segment size
  let compared ← verifyLoop data reads (readMode medium segment size) segSz (medium.segments - segment)
    segment 0 size
  pure (written, compared)

variable {medium data}

/-- A byte of the data belongs to a byte of a segment. -/
def Piece.At (piece : Piece) (segment offset byte : ℕ) : Prop :=
  piece.segment = segment ∧ offset < piece.count ∧ byte = piece.srcBuf + offset

/-- Every byte is compared, and each with the byte of the payload that it was written to. -/
def ComparesAll (size : ℕ) (written : List (Piece × List Byte)) (compared : List Piece) : Prop :=
  (∀ byte < size, ∃ piece ∈ compared, ∃ segment offset, piece.At segment offset byte) ∧
    ∀ segment offset byte, (∃ piece ∈ compared, piece.At segment offset byte) ↔
      ∃ piece ∈ written, piece.1.At segment offset byte

/-- Each segment reads back the payload that was written to it. -/
def ReadsBack {sizes : ℕ → ℕ} (reads : Reads sizes) (mode : FtReadMode)
    (written : List (Piece × List Byte)) : Prop :=
  ∀ piece ∈ written, reads.read piece.1.segment mode = .ok (some piece.2)

/-- If the segments read back what was written the call succeeds, and if it succeeds all bytes were
compared. -/
def VerifiesAll (medium : Medium) (data : ℕ → Byte) (segment size : ℕ) : Prop :=
  ∀ reads : Reads medium.segSz,
    (∀ written next, writeSegments medium data segment size = .ok (written, next) →
      ReadsBack reads (readMode medium segment size) written →
        ∃ result, zftVerifyWriteSegments medium data reads segment size = .ok result) ∧
    ∀ written compared, zftVerifyWriteSegments medium data reads segment size = .ok (written, compared) →
      ComparesAll size written compared

section Layout

variable {sizes : ℕ → ℕ} {segment size n : ℕ}

/-- The bytes of the segments in front of segment `i` of a run. -/
def offset (sizes : ℕ → ℕ) (segment i : ℕ) : ℕ := ∑ j ∈ Finset.range i, sizes (segment + j)

/-- The first segment of a run comes in front of the others. -/
theorem offset_succ (sizes : ℕ → ℕ) (segment i : ℕ) :
    offset sizes segment (i + 1) = sizes segment + offset sizes (segment + 1) i := by
  rw [offset, Finset.sum_range_succ', Nat.add_comm, offset]
  congr 1
  exact Finset.sum_congr rfl fun j _ => congrArg sizes (by omega)

/-- The last segment of a run comes behind the others. -/
theorem offset_succ_last (sizes : ℕ → ℕ) (segment i : ℕ) :
    offset sizes segment (i + 1) = offset sizes segment i + sizes (segment + i) := by
  rw [offset, Finset.sum_range_succ, ← offset]

/-- A run without segments. -/
@[simp] theorem offset_zero (sizes : ℕ → ℕ) (segment : ℕ) : offset sizes segment 0 = 0 := rfl

/-- Data of `size` bytes takes `n` segments, at least one. -/
structure Takes (sizes : ℕ → ℕ) (segment size n : ℕ) : Prop where
  pos : 0 < n
  reached : size ≤ offset sizes segment n
  before : ∀ m, 0 < m → m < n → offset sizes segment m < size

/-- The number of segments is determined. -/
theorem Takes.unique (h : Takes sizes segment size n) {m : ℕ} (hm : Takes sizes segment size m) : m = n := by
  rcases Nat.lt_trichotomy m n with hlt | heq | hgt
  · have := h.before m hm.pos hlt
    have := hm.reached
    omega
  · exact heq
  · have := hm.before n h.pos hgt
    have := h.reached
    omega

/-- Data that fits into the first segment. -/
theorem takes_one (h : size ≤ sizes segment) : Takes sizes segment size 1 where
  pos := Nat.one_pos
  reached := by
    rw [offset_succ, offset_zero, Nat.add_zero]
    exact h
  before := fun m hm hm' => by omega

/-- Data that goes on behind the first segment. -/
theorem Takes.succ (hmore : sizes segment < size)
    (h : Takes sizes (segment + 1) (size - sizes segment) n) : Takes sizes segment size (n + 1) where
  pos := Nat.succ_pos n
  reached := by
    have := h.reached
    rw [offset_succ]
    omega
  before := by
    intro m hm hm'
    cases m with
    | zero => exact absurd hm (Nat.lt_irrefl 0)
    | succ m =>
      rw [offset_succ]
      cases m with
      | zero => simpa using hmore
      | succ m =>
        have := h.before (m + 1) (Nat.succ_pos m) (by omega)
        omega

/-- Data that does not fit into the first segment takes the others. -/
theorem Takes.tail (h : Takes sizes segment size n) (hmore : sizes segment < size) :
    ∃ m, n = m + 1 ∧ Takes sizes (segment + 1) (size - sizes segment) m := by
  have hreached := h.reached
  cases n with
  | zero => exact absurd h.pos (Nat.lt_irrefl 0)
  | succ m =>
    rw [offset_succ] at hreached
    refine ⟨m, rfl, ?_, by omega, fun k hk hk' => ?_⟩
    · by_contra hzero
      obtain rfl : m = 0 := by omega
      rw [offset_zero] at hreached
      omega
    · have := h.before (k + 1) (Nat.succ_pos k) (by omega)
      rw [offset_succ] at this
      omega

/-- Piece `i` of data that lies at `srcAt i` for segment `i`. -/
def pieceAt (sizes srcAt : ℕ → ℕ) (segment size i : ℕ) : Piece :=
  ⟨segment + i, srcAt i, min (size - offset sizes segment i) (sizes (segment + i))⟩

/-- The pieces behind the first one. -/
theorem pieceAt_succ (srcAt : ℕ → ℕ) (i : ℕ) :
    pieceAt sizes srcAt segment size (i + 1) =
      pieceAt sizes (fun i => srcAt (i + 1)) (segment + 1) (size - sizes segment) i := by
  rw [pieceAt, pieceAt, offset_succ, Nat.sub_sub, Nat.add_right_comm segment 1 i, Nat.add_assoc segment i 1]

/-- The pieces in the order of their segments. -/
def pieces (sizes srcAt : ℕ → ℕ) (segment size n : ℕ) : List Piece :=
  (List.range n).map (pieceAt sizes srcAt segment size)

/-- The first piece comes in front of the others. -/
theorem pieces_succ (srcAt : ℕ → ℕ) (n : ℕ) :
    pieces sizes srcAt segment size (n + 1) = ⟨segment, srcAt 0, min size (sizes segment)⟩ ::
      pieces sizes (fun i => srcAt (i + 1)) (segment + 1) (size - sizes segment) n := by
  rw [pieces, List.range_succ_eq_map, List.map_cons, List.map_map, pieces]
  congr 1
  exact List.map_congr_left fun i _ => pieceAt_succ srcAt i

end Layout

section Loops

variable {single : Bool} {segPos srcBuf remaining : ℕ}

/-- The deblock buffer holds the next bytes of the data and is filled up with zeroes. -/
theorem fillSegment_eq (data : ℕ → Byte) (single : Bool) (srcBuf remaining segSz : ℕ) :
    (fillSegment data single srcBuf remaining segSz).1 =
        window data srcBuf (min remaining segSz) ++ List.replicate (segSz - remaining) 0 ∧
      (fillSegment data single srcBuf remaining segSz).2.2 = remaining - segSz := by
  rw [fillSegment]
  rcases Nat.lt_trichotomy remaining segSz with hlt | rfl | hgt
  · rw [if_neg (by omega), if_neg (by omega), Nat.min_eq_left hlt.le]
    exact ⟨rfl, by dsimp only; omega⟩
  · simp
  · rw [if_neg (by omega), if_pos hgt, Nat.min_eq_right hgt.le, Nat.sub_eq_zero_of_le hgt.le]
    simp

/-- What is known about the pieces that were written: they are the ones that the data takes, one behind the
other, and each payload begins with the bytes of its piece. -/
theorem segmentsWriteLoop_pieces {rounds next : ℕ} {written : List (Piece × List Byte)}
    (h : segmentsWriteLoop medium data single rounds segPos srcBuf remaining = .ok (written, next)) :
    ∃ n ≤ rounds, Takes medium.segSz segPos remaining n ∧ next = medium.segSz (segPos + n) ∧
      written.map Prod.fst =
        pieces medium.segSz (fun i => srcBuf + offset medium.segSz segPos i) segPos remaining n ∧
      ∀ piece ∈ written, piece.2.take piece.1.count = window data piece.1.srcBuf piece.1.count := by
  induction rounds generalizing segPos srcBuf remaining written next with
  | zero => cases h
  | succ rounds ih =>
    obtain ⟨hpayload, hrest⟩ := fillSegment_eq data single srcBuf remaining (medium.segSz segPos)
    have hbytes : ((fillSegment data single srcBuf remaining (medium.segSz segPos)).1).take
        (min remaining (medium.segSz segPos)) = window data srcBuf (min remaining (medium.segSz segPos)) := by
      rw [hpayload, List.take_left' (window_length _ _ _)]
    rw [segmentsWriteLoop] at h
    generalize fillSegment data single srcBuf remaining (medium.segSz segPos) = filled at *
    obtain ⟨payload, mode, rest⟩ := filled
    obtain rfl : rest = remaining - medium.segSz segPos := hrest
    dsimp only at h hbytes
    split at h
    · cases h
    · split at h
      · cases h
      next result hresult =>
        split at h
        · cases h
        next hsize =>
          obtain rfl : result = medium.segSz segPos := not_not.mp hsize
          split at h
          next hmore =>
            split at h
            · cases h
            next written' next' hlater =>
              cases h
              obtain ⟨n, hn, htakes, rfl, hpieces, hpayloads⟩ := ih hlater
              refine ⟨n + 1, by omega, Takes.succ (by omega) htakes, by rw [Nat.add_assoc, Nat.add_comm 1], ?_, ?_⟩
              · rw [List.map_cons, hpieces, pieces_succ]
                simp only [offset_zero, offset_succ, Nat.add_zero, Nat.add_assoc]
              · intro piece hpiece
                rcases List.mem_cons.mp hpiece with rfl | hpiece
                · exact hbytes
                · exact hpayloads piece hpiece
          next hend =>
            cases h
            refine ⟨1, by omega, takes_one (by omega), rfl, rfl, fun piece hpiece => ?_⟩
            obtain rfl := List.mem_singleton.mp hpiece
            exact hbytes

/-- A pointer that advances by the same step for each segment. -/
theorem strided_succ (srcBuf segSz : ℕ) :
    (fun i => srcBuf + (i + 1) * segSz) = fun i => srcBuf + segSz + i * segSz := by
  funext i
  ring

/-- The pieces that were compared: they begin at multiples of the step. -/
theorem verifyLoop_pieces {sizes : ℕ → ℕ} {reads : Reads sizes} {mode : FtReadMode} {segSz rounds : ℕ}
    {compared : List Piece}
    (h : verifyLoop data reads mode segSz rounds segPos srcBuf remaining = .ok compared) :
    ∃ n, Takes sizes segPos remaining n ∧
      compared = pieces sizes (fun i => srcBuf + i * segSz) segPos remaining n := by
  induction rounds generalizing segPos srcBuf remaining compared with
  | zero => cases h
  | succ rounds ih =>
    rw [verifyLoop] at h
    split at h
    · cases h
    · cases h
    next deblockBuf hread =>
      have hlength := reads.length_read _ _ _ hread
      dsimp only at h
      rw [hlength] at h
      split at h
      · cases h
      · split at h
        next hmore =>
          split at h
          · cases h
          next compared' hlater =>
            cases h
            obtain ⟨n, htakes, rfl⟩ := ih hlater
            refine ⟨n + 1, Takes.succ (by omega) htakes, ?_⟩
            simp only [pieces_succ, strided_succ, Nat.zero_mul, Nat.add_zero]
        next hend =>
          cases h
          exact ⟨1, takes_one (by omega), by simp [pieces, pieceAt]⟩

/-- The comparison succeeds if each piece reads back what it is compared with. -/
theorem verifyLoop_ok {sizes : ℕ → ℕ} {reads : Reads sizes} {mode : FtReadMode} {segSz rounds n : ℕ}
    (htakes : Takes sizes segPos remaining n) (hrounds : n ≤ rounds)
    (hreads : ∀ piece ∈ pieces sizes (fun i => srcBuf + i * segSz) segPos remaining n, ∃ deblockBuf,
      reads.read piece.segment mode = .ok (some deblockBuf) ∧
        deblockBuf.take piece.count = window data piece.srcBuf piece.count) :
    ∃ compared, verifyLoop data reads mode segSz rounds segPos srcBuf remaining = .ok compared := by
  induction rounds generalizing segPos srcBuf remaining n with
  | zero =>
    have := htakes.pos
    omega
  | succ rounds ih =>
    obtain ⟨n, rfl⟩ : ∃ m, n = m + 1 := ⟨n - 1, by have := htakes.pos; omega⟩
    simp only [pieces_succ, strided_succ, Nat.zero_mul, Nat.add_zero] at hreads
    obtain ⟨deblockBuf, hread, hbytes⟩ := hreads _ List.mem_cons_self
    dsimp only at hread hbytes
    have hlength := reads.length_read _ _ _ hread
    rw [verifyLoop, hread]
    dsimp only
    rw [hlength, if_neg (by rw [hbytes]; exact not_not.mpr rfl)]
    split
    next hmore =>
      obtain ⟨m, hm, htail⟩ := htakes.tail (by omega)
      obtain rfl : n = m := by omega
      obtain ⟨compared, hcompared⟩ := @ih (segPos + 1) (srcBuf + segSz) (remaining - sizes segPos) n htail
        (by omega) fun piece hpiece => hreads piece (List.mem_cons_of_mem _ hpiece)
      rw [hcompared]
      exact ⟨_, rfl⟩
    next => exact ⟨_, rfl⟩

end Loops

section Pieces

variable {sizes : ℕ → ℕ} {segment size n : ℕ}

/-- A byte of a segment of the run. -/
theorem exists_at_pieces {srcAt : ℕ → ℕ} {segPos k byte : ℕ} :
    (∃ piece ∈ pieces sizes srcAt segment size n, piece.At segPos k byte) ↔
      ∃ i < n, segPos = segment + i ∧
        k < min (size - offset sizes segment i) (sizes (segment + i)) ∧ byte = srcAt i + k := by
  constructor
  · rintro ⟨piece, hpiece, hsegment, hk, hbyte⟩
    obtain ⟨i, hi, rfl⟩ := List.mem_map.mp hpiece
    exact ⟨i, List.mem_range.mp hi, hsegment.symm, hk, hbyte⟩
  · rintro ⟨i, hi, rfl, hk, rfl⟩
    exact ⟨_, List.mem_map_of_mem (List.mem_range.mpr hi), rfl, hk, rfl⟩

/-- Every byte of the data is in one of the pieces. -/
theorem exists_piece_of_lt (htakes : Takes sizes segment size n) {byte : ℕ} (hbyte : byte < size) :
    ∃ i < n, offset sizes segment i ≤ byte ∧ byte < offset sizes segment i + sizes (segment + i) := by
  have hreached : byte < offset sizes segment n := hbyte.trans_le htakes.reached
  clear htakes
  induction n with
  | zero => exact absurd hreached (Nat.not_lt_zero byte)
  | succ n ih =>
    by_cases hlow : byte < offset sizes segment n
    · obtain ⟨i, hi, hfound⟩ := ih hlow
      exact ⟨i, by omega, hfound⟩
    · rw [offset_succ_last] at hreached
      exact ⟨n, Nat.lt_succ_self n, not_lt.mp hlow, hreached⟩

/-- Segments that hold what the comparison looks at: it takes each segment's bytes from a multiple of the
step. -/
def expectedReads (data : ℕ → Byte) (sizes : ℕ → ℕ) (segment segSz : ℕ) : Reads sizes where
  read := fun segPos _ => .ok (some (window data ((segPos - segment) * segSz) (sizes segPos)))
  length_read := by
    intro segPos mode buffer hread
    cases hread
    exact window_length _ _ _

/-- The pieces of both loops begin at the same bytes if they have any. -/
def StrideFits (sizes : ℕ → ℕ) (segment size : ℕ) : Prop :=
  ∀ n, Takes sizes segment size n → ∀ i < n, 0 < sizes (segment + i) → offset sizes segment i < size →
    i * sizes (segment + n) = offset sizes segment i

end Pieces

section Main

variable {segment size next : ℕ} {written : List (Piece × List Byte)}

/-- What was written goes into the comparison. -/
theorem zftVerifyWriteSegments_of_written {reads : Reads medium.segSz}
    (hwritten : writeSegments medium data segment size = .ok (written, next)) :
    zftVerifyWriteSegments medium data reads segment size =
      (verifyLoop data reads (readMode medium segment size) next (medium.segments - segment) segment 0
        size).map (written, ·) := by
  rw [zftVerifyWriteSegments, hwritten]
  change (verifyLoop data reads (readMode medium segment size) next (medium.segments - segment) segment 0
    size >>= fun compared => pure (written, compared)) = _
  cases verifyLoop data reads (readMode medium segment size) next (medium.segments - segment) segment 0
    size <;> rfl

/-- The pieces that were written. -/
theorem writeSegments_pieces (hwritten : writeSegments medium data segment size = .ok (written, next)) :
    ∃ n ≤ medium.segments - segment, Takes medium.segSz segment size n ∧ next = medium.segSz (segment + n) ∧
      written.map Prod.fst = pieces medium.segSz (offset medium.segSz segment) segment size n ∧
      ∀ piece ∈ written, piece.2.take piece.1.count = window data piece.1.srcBuf piece.1.count := by
  rw [writeSegments] at hwritten
  cases hloop : segmentsWriteLoop medium data (size ≤ medium.segSz segment) (medium.segments - segment) segment 0 size with
  | error code =>
    rw [hloop] at hwritten
    cases hwritten
  | ok value =>
    rw [hloop] at hwritten
    obtain rfl : value = (written, next) := by
      cases hfinish : medium.finish with
      | error code =>
        rw [hfinish] at hwritten
        cases hwritten
      | ok =>
        rw [hfinish] at hwritten
        exact Except.ok.inj hwritten
    simpa only [Nat.zero_add] using segmentsWriteLoop_pieces hloop

/-- The pieces that were written hold the bytes of the data in their order. -/
theorem exists_at_written {n : ℕ} (hpieces : written.map Prod.fst =
    pieces medium.segSz (offset medium.segSz segment) segment size n) (segPos k byte : ℕ) :
    (∃ piece ∈ written, piece.1.At segPos k byte) ↔
      ∃ piece ∈ pieces medium.segSz (offset medium.segSz segment) segment size n, piece.At segPos k byte := by
  rw [← hpieces]
  simp only [List.mem_map, exists_exists_and_eq_and]

/-- Segments that hold what the comparison takes for theirs pass it, so the comparison covers the right
bytes only if the pieces begin where it looks for them. -/
theorem strideFits_of_verifiesAll (hwritten : writeSegments medium data segment size = .ok (written, next))
    (hverifies : VerifiesAll medium data segment size) : StrideFits medium.segSz segment size := by
  obtain ⟨n, hn, htakes, rfl, hpieces, -⟩ := writeSegments_pieces hwritten
  intro m hm i hi hsize hlow
  obtain rfl := htakes.unique hm
  obtain ⟨compared, hcompared⟩ := @verifyLoop_ok data segment 0 size medium.segSz
    (expectedReads data medium.segSz segment (medium.segSz (segment + m))) (readMode medium segment size)
    (medium.segSz (segment + m)) (medium.segments - segment) m htakes hn (by
      intro piece hpiece
      obtain ⟨i, hi, rfl⟩ := List.mem_map.mp hpiece
      refine ⟨_, rfl, ?_⟩
      have hcount := window_drop_take data ((segment + i - segment) * medium.segSz (segment + m))
        (show 0 + (pieceAt medium.segSz (fun i => 0 + i * medium.segSz (segment + m)) segment size i).count ≤
          medium.segSz (segment + i) by rw [Nat.zero_add]; exact Nat.min_le_right _ _)
      simpa only [List.drop_zero, Nat.add_zero, Nat.zero_add, Nat.add_sub_cancel_left, pieceAt] using hcount)
  obtain ⟨m', hm', rfl⟩ := verifyLoop_pieces hcompared
  obtain rfl := htakes.unique hm'
  have hall := (hverifies (expectedReads data medium.segSz segment (medium.segSz (segment + m')))).2 written _
    (by rw [zftVerifyWriteSegments_of_written hwritten, hcompared]; rfl)
  have hfirst := (hall.2 (segment + i) 0 (i * medium.segSz (segment + m'))).mp
    (exists_at_pieces.mpr ⟨i, hi, rfl, by omega, by omega⟩)
  obtain ⟨j, -, hj, -, hbyte⟩ := exists_at_pieces.mp ((exists_at_written hpieces _ _ _).mp hfirst)
  obtain rfl : j = i := by omega
  simpa using hbyte

/-- Pieces that begin where the comparison looks for them are all compared. -/
theorem verifiesAll_of_strideFits (hwritten : writeSegments medium data segment size = .ok (written, next))
    (hfits : StrideFits medium.segSz segment size) : VerifiesAll medium data segment size := by
  obtain ⟨n, hn, htakes, rfl, hpieces, hpayloads⟩ := writeSegments_pieces hwritten
  have hat := exists_at_written hpieces
  intro reads
  have hsame (i : ℕ) (hi : i < n) (hcount : 0 < min (size - offset medium.segSz segment i)
      (medium.segSz (segment + i))) : i * medium.segSz (segment + n) = offset medium.segSz segment i :=
    hfits n htakes i hi (by omega) (by omega)
  constructor
  · intro written' next' hwritten' hreads
    obtain ⟨rfl, rfl⟩ : written = written' ∧ medium.segSz (segment + n) = next' := by
      have := Except.ok.inj (hwritten.symm.trans hwritten')
      exact Prod.mk.inj this
    obtain ⟨compared, hcompared⟩ := @verifyLoop_ok data segment 0 size medium.segSz reads
      (readMode medium segment size) (medium.segSz (segment + n)) (medium.segments - segment) n htakes hn (by
        intro piece hpiece
        obtain ⟨i, hi, rfl⟩ := List.mem_map.mp hpiece
        have hi := List.mem_range.mp hi
        have hmem : pieceAt medium.segSz (offset medium.segSz segment) segment size i ∈
            written.map Prod.fst := by
          rw [hpieces]
          exact List.mem_map_of_mem (List.mem_range.mpr hi)
        obtain ⟨piece, hpiece, hfst⟩ := List.mem_map.mp hmem
        have hpayload := hpayloads piece hpiece
        have hread := hreads piece hpiece
        rw [hfst] at hpayload hread
        refine ⟨piece.2, hread, ?_⟩
        rcases Nat.eq_zero_or_pos (min (size - offset medium.segSz segment i)
          (medium.segSz (segment + i))) with hnone | hcount
        · simp only [pieceAt, hnone, List.take_zero, window_zero]
        · simpa only [pieceAt, Nat.zero_add, hsame i hi hcount] using hpayload)
    exact ⟨(written, compared), by rw [zftVerifyWriteSegments_of_written hwritten, hcompared]; rfl⟩
  · intro written' compared hresult
    rw [zftVerifyWriteSegments_of_written hwritten] at hresult
    cases hcompared : verifyLoop data reads (readMode medium segment size) (medium.segSz (segment + n))
        (medium.segments - segment) segment 0 size with
    | error code =>
      rw [hcompared] at hresult
      cases hresult
    | ok value =>
      rw [hcompared] at hresult
      cases hresult
      obtain ⟨m, hm, rfl⟩ := verifyLoop_pieces hcompared
      obtain rfl := htakes.unique hm
      have hcovers (segPos k byte : ℕ) :
          (∃ piece ∈ pieces medium.segSz (fun i => 0 + i * medium.segSz (segment + m)) segment size m,
              piece.At segPos k byte) ↔
            ∃ piece ∈ written, piece.1.At segPos k byte := by
        rw [hat, exists_at_pieces, exists_at_pieces]
        refine exists_congr fun i => and_congr_right fun hi => and_congr_right fun _ =>
          and_congr_right fun hk => ?_
        rw [Nat.zero_add, hsame i hi (by omega)]
      refine ⟨fun byte hbyte => ?_, hcovers⟩
      obtain ⟨i, hi, hlow, hhigh⟩ := exists_piece_of_lt htakes hbyte
      obtain ⟨piece, hpiece, hfound⟩ := (hcovers (segment + i) (byte - offset medium.segSz segment i) byte).mpr
        ((hat _ _ _).mpr (exists_at_pieces.mpr ⟨i, hi, rfl, by omega, by omega⟩))
      exact ⟨piece, hpiece, _, _, hfound⟩

/-- When the segments were written, the comparison covers all bytes for every way in which the segments
read back, and succeeds if they read back right, if and only if every piece begins at that multiple of the
size behind the last segment written. -/
theorem verifiesAll_iff (hwritten : writeSegments medium data segment size = .ok (written, next)) :
    VerifiesAll medium data segment size ↔ StrideFits medium.segSz segment size :=
  ⟨strideFits_of_verifiesAll hwritten, verifiesAll_of_strideFits hwritten⟩

/-- A cartridge that takes every segment, with segments of the given sizes. -/
def goodMedium (segSz : ℕ → ℕ) : Medium where
  segments := 2800
  segSz := segSz
  deblockBuffer := fun _ => true
  write := fun segPos _ _ => .ok (segSz segPos)
  finish := .ok ()

/-- Data whose bytes differ from segment to segment. -/
def countedData (i : ℕ) : Byte := BitVec.ofNat 8 (i + i / ftSegmentSize)

/-- Segments of one size. -/
theorem offset_const (size segment i : ℕ) : offset (fun _ => size) segment i = i * size := by
  rw [offset, Finset.sum_const, Finset.card_range, smul_eq_mul]

/-- Data for segments 3 and 4 and a part of segment 5, which are of one size. -/
theorem verifiesAll_iff_threeSegments :
    VerifiesAll (goodMedium fun _ => ftSegmentSize) countedData 3 (2 * ftSegmentSize + ftSectorSize) := by
  have hwritten : ∃ written next, writeSegments (goodMedium fun _ => ftSegmentSize) countedData 3
      (2 * ftSegmentSize + ftSectorSize) = .ok (written, next) := ⟨_, _, rfl⟩
  obtain ⟨written, next, hwritten⟩ := hwritten
  refine (verifiesAll_iff hwritten).mpr fun n _ i _ _ _ => ?_
  exact (offset_const ftSegmentSize 3 i).symm

/-- Segment 3 has a bad sector. -/
def badSectorSizes (segment : ℕ) : ℕ := if segment = 3 then 28 * ftSectorSize else 29 * ftSectorSize

/-- Data for segments 3 and 4: the comparison looks for the bytes of segment 4 one sector too far. -/
theorem not_verifiesAll_bad_sector : (∃ written next,
    writeSegments (goodMedium badSectorSizes) (fun _ => 0) 3 (57 * ftSectorSize) = .ok (written, next)) ∧
      ¬VerifiesAll (goodMedium badSectorSizes) (fun _ => 0) 3 (57 * ftSectorSize) := by
  have hwritten : ∃ written next,
      writeSegments (goodMedium badSectorSizes) (fun _ => 0) 3 (57 * ftSectorSize) = .ok (written, next) :=
    ⟨_, _, rfl⟩
  refine ⟨hwritten, fun hverifies => ?_⟩
  obtain ⟨written, next, hwritten⟩ := hwritten
  have hfits := strideFits_of_verifiesAll hwritten hverifies
  have htakes : Takes badSectorSizes 3 (57 * ftSectorSize) 2 :=
    Takes.succ (by decide) (takes_one (by decide))
  exact absurd (hfits 2 htakes 1 (by decide) (by decide) (by decide)) (by decide)

end Main

end Ftape.Zftape
