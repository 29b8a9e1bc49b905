import Ftape.Compressor.Seek
import Ftape.Header.Totality

/-!
# What a tape holds for seeking

Seeking relies on two things on the tape. A segment that `search_valid_segment()` accepts is a mark: its file offset
tells the place in the volume. From a mark on, the clusters tell how many blocks lie in front of a segment. Both are
functions of the contents of the segments, and what the search and the walk of `zftc_seek()` find is what they say.
-/

namespace Ftape.Compressor

open Ftape.Algebra Ftape.Volume Ftape.Zftape

section Contents

variable (bigEndian : Bool) (volume : VtblEntry) (content : ℕ → Except SeekError DeblockBuf)

/-- What `search_valid_segment()` takes from a segment of the volume, if it accepts the segment. -/
def mark (segment : ℕ) : Option CmprInfo :=
  match content segment with
  | .error _ => none
  | .ok buf =>
    let (consistent, cseg) := buf.getCseg bigEndian volume .zero
    if volume.startSeg ≤ segment ∧ segment ≤ volume.endSeg ∧ 0 < buf.size ∧ consistent ∧
        (cseg.foffs ≠ 0 ∨ segment = volume.startSeg) then some cseg
    else none

/-- An inconsistent segment leaves no file offset behind that a later segment could take for its own. -/
def CleanAt (segment : ℕ) : Prop :=
  ∀ buf ∈ (content segment).toOption, (buf.getCseg bigEndian volume .zero).1 = false →
    (buf.getCseg bigEndian volume .zero).2.foffs = 0 ∨
      volume.size < (buf.getCseg bigEndian volume .zero).2.foffs

instance (segment : ℕ) : Decidable (CleanAt bigEndian volume content segment) :=
  inferInstanceAs (Decidable (∀ buf ∈ _, _))

/-- The clusters that end in a segment from a place on, and the place behind them. -/
def DeblockBuf.clusters (finish : Bool) (buf : DeblockBuf) : ℕ → CmprInfo → ℕ × CmprInfo
  | 0, cseg => (0, cseg)
  | rounds + 1, cseg =>
    if cseg.spans then (0, cseg)
    else
      let ended := if cseg.cmprPos ≠ 0 then 1 else 0
      let next := buf.getNextCluster bigEndian finish { cseg with cmprPos := 0 }
      if next.count ≠ 0 then
        let (count, cseg) := DeblockBuf.clusters finish buf rounds { next with
          cmprPos := Header.int next.count
          offset := Header.uint (next.offset + next.count) }
        (ended + count, cseg)
      else (ended, next)

/-- The blocks that end in a segment, and the place behind them, if the segment is consistent. -/
def DeblockBuf.blocks (buf : DeblockBuf) (segPos : ℕ) (cseg : CmprInfo) : Option (ℕ × CmprInfo) :=
  match buf.enter bigEndian volume cseg with
  | (false, _) => none
  | (true, cseg) =>
    let (count, cseg) := buf.clusters bigEndian (volume.endSeg = segPos) (buf.size + 4) cseg
    some (count, buf.skipRest cseg)

/-- The place at the start of the next segment, if the segment is finished and not the last one. -/
def DeblockBuf.leave (buf : DeblockBuf) (segPos : ℕ) (cseg : CmprInfo) : CmprInfo :=
  if segPos + 1 ≤ volume.endSeg ∧ cseg.offset = buf.size then { cseg with offset := 0 } else cseg

/-- The blocks that end in a number of segments, if all of them can be read and are consistent. -/
def blocksFrom : ℕ → ℕ → CmprInfo → Option ℕ
  | 0, _, _ => some 0
  | left + 1, segPos, cseg =>
    match content segPos with
    | .error _ => none
    | .ok buf =>
      match buf.blocks bigEndian volume segPos cseg with
      | none => none
      | some (count, cseg) => (blocksFrom left (segPos + 1) (buf.leave volume segPos cseg)).map (count + ·)

/-- The clusters from a place to the end of the volume reach to a target in kilobytes, unless a segment on the way
cannot be read. -/
def Covers (dest segPos : ℕ) (volumePos : ℤ) (cseg : CmprInfo) : Prop :=
  ∀ count ∈ blocksFrom bigEndian volume content (volume.endSeg + 1 - segPos) segPos cseg,
    (dest * 1024 : ℕ) ≤ volumePos + (count * volume.blkSz : ℕ)

instance (dest segPos : ℕ) (volumePos : ℤ) (cseg : CmprInfo) :
    Decidable (Covers bigEndian volume content dest segPos volumePos cseg) :=
  inferInstanceAs (Decidable (∀ count ∈ _, _))

/-- How many segments an estimate leads back from a place to a target in kilobytes. -/
def stepBack (dest : ℕ) (volumePos : ℤ) : ℕ :=
  ((volumePos / 1024 - dest) / (ftSectorsPerSegment - ftEccSectors : ℕ)).toNat

/-- A tape on which a target in kilobytes can be sought. The file offsets are whole blocks and increase, and the
clusters behind a mark in front of the target reach to it. From a mark behind the target, the estimate does not lead
to a segment in front of the tape, and there is another mark where it leads to. Near the start of the tape, a search
that goes back by ten segments finds a mark in them. -/
structure Seekable (dest : ℕ) : Prop where
  clean : ∀ segment ≤ volume.endSeg, CleanAt bigEndian volume content segment
  whole : ∀ segment ≤ volume.endSeg, ∀ cseg ∈ mark bigEndian volume content segment,
    0 ≤ cseg.foffs ∧ (volume.blkSz : ℤ) ∣ cseg.foffs
  increasing : ∀ segment ≤ volume.endSeg, ∀ cseg ∈ mark bigEndian volume content segment,
    ∀ segment' < segment, ∀ cseg' ∈ mark bigEndian volume content segment', cseg'.foffs ≤ cseg.foffs
  covered : ∀ segment ≤ volume.endSeg, ∀ cseg ∈ mark bigEndian volume content segment,
    cseg.foffs / 1024 ≤ dest → Covers bigEndian volume content dest segment cseg.foffs cseg
  gaps : ∀ segment ≤ volume.endSeg, ∀ cseg ∈ mark bigEndian volume content segment, dest < cseg.foffs / 1024 →
    stepBack dest cseg.foffs ≤ segment ∧ ∃ segment' < segment, mark bigEndian volume content segment' ≠ none ∧
      segment ≤ segment' + max 1 (stepBack dest cseg.foffs)
  backups : ∀ segment < 10, volume.startSeg < segment → segment + 10 ≤ volume.endSeg →
    ∃ segment' ≤ segment + 10, segment ≤ segment' ∧ mark bigEndian volume content segment' ≠ none

/-- A place in the volume from which a target in kilobytes ahead can be walked to. -/
structure Stands (dest : ℕ) (seeker : Seeker) : Prop where
  start_le : volume.startSeg ≤ seeker.pos.segPos
  le_end : seeker.pos.segPos ≤ volume.endSeg + 1
  nonneg : 0 ≤ seeker.pos.volumePos
  le_size : seeker.pos.volumePos ≤ volume.size
  whole : seeker.pos.volumePos / 1024 = dest → 1024 ∣ seeker.pos.volumePos
  ahead : seeker.pos.volumePos / 1024 < dest → (volume.blkSz : ℤ) ∣ seeker.pos.volumePos ∧
    Covers bigEndian volume content dest seeker.pos.segPos seeker.pos.volumePos seeker.cseg

/-- A place from which a target in kilobytes can be sought. The estimate back does not lead in front of the tape, and
the search that starts there finds a mark, or goes back further inside of the tape. -/
structure SeeksFrom (dest : ℕ) (seeker : Seeker) : Prop extends Stands bigEndian volume content dest seeker where
  back : dest < seeker.pos.volumePos / 1024 → stepBack dest seeker.pos.volumePos ≤ seeker.pos.segPos
  before : dest < seeker.pos.volumePos / 1024 → ∀ segment ≤ seeker.pos.segPos,
    ∀ cseg ∈ mark bigEndian volume content segment, cseg.foffs / 1024 ≤ seeker.pos.volumePos
  finds : dest < seeker.pos.volumePos / 1024 →
    (seeker.pos.segPos ≤ volume.endSeg ∧
        (seeker.pos.segPos ≤ volume.startSeg + stepBack dest seeker.pos.volumePos ∨
          10 + stepBack dest seeker.pos.volumePos ≤ seeker.pos.segPos)) ∨
      ∃ segment ≤ seeker.pos.segPos, seeker.pos.segPos ≤ segment + stepBack dest seeker.pos.volumePos ∧
        mark bigEndian volume content segment ≠ none

end Contents

/-- A volume whose sizes `zftc_seek()` can calculate with, and a block inside of it. -/
structure InReach (volume : VtblEntry) (newBlockPos : ℕ) : Prop where
  whole : 1024 ∣ volume.blkSz
  pos : 0 < volume.blkSz
  small : volume.blkSz < 0x10000
  filled : volume.startSeg ≤ volume.endSeg
  tape : volume.endSeg + 2 < 0x2000000
  size : volume.size < 0x100000000
  inside : (newBlockPos * volume.blkSz : ℕ) ≤ volume.size

/-- A block in kilobytes. -/
def destOf (volume : VtblEntry) (newBlockPos : ℕ) : ℕ := newBlockPos * (volume.blkSz / 1024)

section Search

variable {bigEndian : Bool} {volume : VtblEntry} {surface : Surface} {content : ℕ → Except SeekError DeblockBuf}

/-- A segment that cannot be read is no mark. -/
theorem mark_of_error {segment : ℕ} {errno : SeekError} (h : content segment = .error errno) :
    mark bigEndian volume content segment = none := by
  rw [mark, h]

/-- A segment that can be read is a mark if it is accepted. -/
theorem mark_of_ok {segment : ℕ} {buf : DeblockBuf} (h : content segment = .ok buf) :
    mark bigEndian volume content segment =
      if volume.startSeg ≤ segment ∧ segment ≤ volume.endSeg ∧ 0 < buf.size ∧
          (buf.getCseg bigEndian volume .zero).1 ∧
          ((buf.getCseg bigEndian volume .zero).2.foffs ≠ 0 ∨ segment = volume.startSeg) then
        some (buf.getCseg bigEndian volume .zero).2
      else none := by
  rw [mark, h]

/-- What a mark is. -/
theorem mark_eq_some {segment : ℕ} {cseg : CmprInfo} (h : mark bigEndian volume content segment = some cseg) :
    volume.startSeg ≤ segment ∧ segment ≤ volume.endSeg ∧ cseg.foffs ≤ volume.size := by
  cases hcontent : content segment with
  | error errno =>
    rw [mark_of_error hcontent] at h
    cases h
  | ok buf =>
    rw [mark_of_ok hcontent] at h
    split at h
    case isFalse => cases h
    case isTrue hvalid =>
      obtain ⟨hstart, hend, -, hconsistent, -⟩ := hvalid
      refine ⟨hstart, hend, ?_⟩
      cases h
      rw [DeblockBuf.getCseg] at hconsistent ⊢
      dsimp only at hconsistent ⊢
      split at hconsistent
      case isTrue => cases hconsistent
      case isFalse hfirst =>
        rw [if_neg hfirst]
        exact (of_decide_eq_true hconsistent).1

/-- The first mark among some segments. -/
structure FirstMark (bigEndian : Bool) (volume : VtblEntry) (content : ℕ → Except SeekError DeblockBuf)
    (segment found : ℕ) (cseg : CmprInfo) : Prop where
  le : segment ≤ found
  marked : mark bigEndian volume content found = some cseg
  first : ∀ t, segment ≤ t → t < found → mark bigEndian volume content t = none

/-- What a search comes to: a signal, the first mark, or no mark that it may take. -/
inductive SearchEnds (bigEndian : Bool) (volume : VtblEntry) (content : ℕ → Except SeekError DeblockBuf)
    (maxFoffs left segment : ℕ) : Except SeekError (ℕ × CmprInfo) → Prop
  | interrupted : SearchEnds bigEndian volume content maxFoffs left segment (.error .eintr)
  | found (target : ℕ) (cseg : CmprInfo) (hfirst : FirstMark bigEndian volume content segment target cseg)
      (hlast : target < segment + left) (hmax : cseg.foffs / 1024 ≤ maxFoffs) :
      SearchEnds bigEndian volume content maxFoffs left segment (.ok (target, cseg))
  | behind (target : ℕ) (cseg : CmprInfo) (hfirst : FirstMark bigEndian volume content segment target cseg)
      (hlast : target < segment + left) (hmax : maxFoffs < cseg.foffs / 1024) :
      SearchEnds bigEndian volume content maxFoffs left segment (.error .eio)
  | none (hnone : ∀ t, segment ≤ t → t < segment + left → mark bigEndian volume content t = none) :
      SearchEnds bigEndian volume content maxFoffs left segment (.error .eio)

/-- A search goes on behind a segment that is no mark. -/
theorem SearchEnds.skip {maxFoffs left segment : ℕ} {outcome : Except SeekError (ℕ × CmprInfo)}
    (hnone : mark bigEndian volume content segment = .none)
    (h : SearchEnds bigEndian volume content maxFoffs left (segment + 1) outcome) :
    SearchEnds bigEndian volume content maxFoffs (left + 1) segment outcome := by
  have hskip : ∀ {bound : ℕ}, (∀ t, segment + 1 ≤ t → t < bound → mark bigEndian volume content t = .none) →
      ∀ t, segment ≤ t → t < bound → mark bigEndian volume content t = .none := by
    intro bound hbehind t hle hlt
    cases Nat.eq_or_lt_of_le hle with
    | inl heq => exact heq ▸ hnone
    | inr hless => exact hbehind t hless hlt
  cases h with
  | interrupted => exact .interrupted
  | found target cseg hfirst hlast hmax =>
    exact .found target cseg ⟨Nat.le_of_succ_le hfirst.le, hfirst.marked, hskip hfirst.first⟩ (by omega) hmax
  | behind target cseg hfirst hlast hmax =>
    exact .behind target cseg ⟨Nat.le_of_succ_le hfirst.le, hfirst.marked, hskip hfirst.first⟩ (by omega) hmax
  | none hbehind => exact .none (hskip fun t hle hlt => hbehind t hle (by omega))

end Search

section Walks

variable {bigEndian : Bool} {volume : VtblEntry} {surface : Surface}

end Walks

end Ftape.Compressor
