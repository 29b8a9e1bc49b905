import Ftape.Compressor.SeekTape

/-!
# Where seeking in compressed volumes leads

Each estimate of `zftc_seek()` is counted as a trial. A target behind the position gets at most ten of them, and then
is walked to, through segments with growing numbers. A target in front of the position gets any number of trials: they
come to an end where each of them leads to an earlier mark. A walk ends at the target if the clusters of the volume
reach that far.
-/

namespace Ftape.Compressor

open Ftape.Algebra Ftape.Volume Ftape.Zftape

/-- What a segment in the deblock buffer is to seeking. -/
def Segment.deblockBuf (segment : Segment) : DeblockBuf :=
  ⟨segment.data, segment.size, segment.size_bounds.2⟩

section Segments

variable {bigEndian : Bool} {volume : VtblEntry} {surface : Surface} {content : ℕ → Except SeekError DeblockBuf}

/-- Seeking and reading take the same file offset from a segment. -/
theorem fileOffset_result (segment : Segment) (cinfo : CmprInfo) :
    (fileOffset bigEndian volume segment cinfo).result =
      .ok (segment.deblockBuf.fileOffset bigEndian volume cinfo) := by
  rw [fileOffset, DeblockBuf.fileOffset]
  by_cases hroom : 18 < uintSub segment.size cinfo.offset
  · have hroom' : 18 < uintSub segment.deblockBuf.size cinfo.offset := hroom
    rw [if_pos hroom, if_pos hroom']
    cases volume.qic113 <;> rfl
  · have hroom' : ¬18 < uintSub segment.deblockBuf.size cinfo.offset := hroom
    rw [if_neg hroom, if_neg hroom']
    rfl

/-- Seeking and reading take the same information from the start of a segment. -/
theorem getCseg_result (segment : Segment) (cinfo : CmprInfo) :
    (getCseg bigEndian volume segment cinfo).result = .ok (segment.deblockBuf.getCseg bigEndian volume cinfo) := by
  rw [getCseg, DeblockBuf.getCseg]
  have hvalue : (segment.get bigEndian 0 2).result = .ok (fetch bigEndian segment.data 0 2) := rfl
  refine (Recorded.result_bind hvalue _).trans ?_
  by_cases hfirst : segment.size < fetch bigEndian segment.data 0 2
  · have hfirst' : segment.deblockBuf.size < fetch bigEndian segment.deblockBuf.data 0 2 := hfirst
    rw [if_pos hfirst, if_pos hfirst']
    rfl
  · have hfirst' : ¬segment.deblockBuf.size < fetch bigEndian segment.deblockBuf.data 0 2 := hfirst
    rw [if_neg hfirst, if_neg hfirst']
    exact Recorded.result_bind (fileOffset_result segment _) _

/-- Seeking and reading take the same cluster from a segment. -/
theorem getNextCluster_result (segment : Segment) (finish : Bool) (cluster : CmprInfo) :
    (getNextCluster bigEndian segment finish cluster).result =
      .ok (segment.deblockBuf.getNextCluster bigEndian finish cluster) := by
  rw [getNextCluster, DeblockBuf.getNextCluster]
  by_cases hroom : 18 < uintSub segment.size cluster.offset ∨ cluster.foffs ≠ 0
  · have hroom' : 18 < uintSub segment.deblockBuf.size cluster.offset ∨ cluster.foffs ≠ 0 := hroom
    rw [if_pos hroom, if_pos hroom']
    rfl
  · have hroom' : ¬(18 < uintSub segment.deblockBuf.size cluster.offset ∨ cluster.foffs ≠ 0) := hroom
    rw [if_neg hroom, if_neg hroom']
    rfl

/-- A cluster that ends in the segment lies behind the place where it was taken. -/
theorem getNextCluster_offset (finish : Bool) (buf : DeblockBuf) (cluster : CmprInfo)
    (hcount : (buf.getNextCluster bigEndian finish cluster).count ≠ 0)
    (hspans : (buf.getNextCluster bigEndian finish cluster).spans = false) :
    let next := buf.getNextCluster bigEndian finish cluster
    Header.uint (next.offset + next.count) ≤ buf.size ∧
      (cluster.offset ≤ buf.size → cluster.offset < Header.uint (next.offset + next.count)) := by
  have hsize := buf.size_le
  have hheader := fetch_lt bigEndian buf.data cluster.offset 2
  rw [DeblockBuf.getNextCluster] at hcount hspans ⊢
  by_cases hroom : 18 < uintSub buf.size cluster.offset ∨ cluster.foffs ≠ 0
  · rw [if_pos hroom] at hcount hspans ⊢
    dsimp only at hcount hspans ⊢
    generalize fetch bigEndian buf.data cluster.offset 2 = header at hheader hcount hspans ⊢
    have hgrow : cluster.offset ≤ buf.size →
        cluster.offset < Header.uint (Header.uint (cluster.offset + 2) + (header - (header &&& 0x8000))) := by
      intro hle
      simp only [ftBuffSize, ftSectorsPerSegment, ftSectorSize] at hsize
      simp only [Header.uint]
      omega
    split at hspans
    · rename_i hstop
      rw [if_pos hstop]
      exact ⟨hstop.le, hgrow⟩
    · split at hspans
      · rename_i hstop hend
        rw [if_neg hstop, if_pos hend]
        exact ⟨hend.le, hgrow⟩
      · cases hspans
  · rw [if_neg hroom] at hcount
    exact absurd rfl hcount

/-- How many rounds are left for the loop of `seek_in_segment()`. -/
def Walk.left (buf : DeblockBuf) (walk : Walk) : ℕ :=
  if walk.cseg.spans = true ∨ walk.remaining ≤ 0 then 0
  else if walk.cseg.offset ≤ buf.size then buf.size - walk.cseg.offset + 1 else buf.size + 2

/-- A loop that goes on has rounds left. -/
theorem Walk.left_of_goes {buf : DeblockBuf} {walk : Walk} (h : walk.cseg.spans = false ∧ 0 < walk.remaining) :
    walk.left buf = if walk.cseg.offset ≤ buf.size then buf.size - walk.cseg.offset + 1 else buf.size + 2 := by
  rw [Walk.left, if_neg]
  rintro (hspans | hremaining)
  · rw [h.1] at hspans
    cases hspans
  · exact absurd h.2 (not_lt.mpr hremaining)

/-- Behind a cluster that was taken, fewer rounds are left. -/
theorem Walk.left_lt {finish : Bool} {buf : DeblockBuf} {walk walk' : Walk} {cluster next : CmprInfo}
    (hgoes : walk.cseg.spans = false ∧ 0 < walk.remaining) (hoffset : cluster.offset = walk.cseg.offset)
    (hnext : buf.getNextCluster bigEndian finish cluster = next) (hcount : next.count ≠ 0)
    (hspans : walk'.cseg.spans = next.spans) (hend : walk'.cseg.offset = Header.uint (next.offset + next.count)) :
    walk'.left buf < walk.left buf := by
  subst hnext
  rw [Walk.left_of_goes hgoes]
  by_cases hleaves : walk'.cseg.spans = true ∨ walk'.remaining ≤ 0
  · rw [Walk.left, if_pos hleaves]
    split <;> omega
  · rw [not_or, Bool.not_eq_true, hspans] at hleaves
    obtain ⟨hinside, hgrow⟩ := getNextCluster_offset finish buf cluster hcount hleaves.1
    rw [← hend] at hinside hgrow
    rw [Walk.left_of_goes ⟨hspans.trans hleaves.1, not_le.mp hleaves.2⟩, if_pos hinside]
    rw [hoffset] at hgrow
    split
    · rename_i hfront
      have hfurther := hgrow hfront
      omega
    · omega

/-- What lies in front of a target: a number of blocks, which end between the place and the end of the volume. -/
structure OnWay (bigEndian : Bool) (volume : VtblEntry) (content : ℕ → Except SeekError DeblockBuf)
    (dest blocks segPos : ℕ) (seeker : Seeker) : Prop where
  nonneg : 0 ≤ seeker.pos.volumePos
  place : seeker.pos.volumePos + (blocks * volume.blkSz : ℕ) = (dest * 1024 : ℕ)
  covered : ∀ count ∈ blocksFrom bigEndian volume content (volume.endSeg + 1 - segPos) segPos seeker.cseg,
    blocks ≤ count

/-- The sizes of a volume that `zftc_seek()` can calculate with, for a target in kilobytes. -/
structure Kilobytes (volume : VtblEntry) (dest : ℕ) : Prop where
  blkSz : 1024 * (volume.blkSz / 1024) = volume.blkSz
  pos : 0 < volume.blkSz / 1024
  small : volume.blkSz / 1024 < 64
  blocks : volume.blkSz ∣ dest * 1024
  size : volume.size < 0x100000000
  inside : (dest * 1024 : ℕ) ≤ volume.size

/-- The distance to the target. -/
theorem OnWay.distance {dest blocks segPos : ℕ} {seeker : Seeker} (hvolume : Kilobytes volume dest)
    (h : OnWay bigEndian volume content dest blocks segPos seeker) :
    dest - seeker.pos.volumePos / 1024 = (blocks * (volume.blkSz / 1024) : ℕ) ∧
      blocks * (volume.blkSz / 1024) < 0x400000 := by
  have hplace := h.place
  have hnonneg := h.nonneg
  have hsize := hvolume.size
  have hinside := hvolume.inside
  rw [← hvolume.blkSz] at hplace
  have hblocks : blocks * (1024 * (volume.blkSz / 1024)) = 1024 * (blocks * (volume.blkSz / 1024)) := by ring
  rw [hblocks] at hplace
  generalize blocks * (volume.blkSz / 1024) = distance at hplace ⊢
  push_cast at hplace
  omega

/-- The blocks that are passed in a segment. -/
theorem OnWay.passed {dest blocks segPos passed : ℕ} {seeker seeker' : Seeker} {buf : DeblockBuf} {cseg : CmprInfo}
    (h : OnWay bigEndian volume content dest blocks segPos seeker)
    (hend : segPos ≤ volume.endSeg) (hcontent : content segPos = .ok buf)
    (hvolumePos : seeker'.pos.volumePos = seeker.pos.volumePos + (passed * volume.blkSz : ℕ))
    (hcseg : seeker'.cseg = buf.leave volume segPos cseg) (hle : passed ≤ blocks)
    (hblocks : passed = blocks ∨ buf.blocks bigEndian volume segPos seeker.cseg = some (passed, cseg)) :
    OnWay bigEndian volume content dest (blocks - passed) (segPos + 1) seeker' where
  nonneg := hvolumePos ▸ add_nonneg h.nonneg (Int.natCast_nonneg _)
  place := by
    rw [hvolumePos, ← h.place, Nat.sub_mul, Nat.cast_sub (Nat.mul_le_mul_right _ hle)]
    ring
  covered := by
    intro count hcount
    cases hblocks with
    | inl hall => omega
    | inr hsome =>
      have hleft : volume.endSeg + 1 - segPos = (volume.endSeg + 1 - (segPos + 1)) + 1 := by omega
      have hthere := h.covered (passed + count)
      rw [hleft, blocksFrom, hcontent] at hthere
      dsimp only at hthere
      rw [hsome] at hthere
      rw [hcseg] at hcount
      have := hthere (Option.mem_map_of_mem _ hcount)
      omega

/-- What the loop of `slow_seek_forward_until_error()` keeps from its start on. -/
structure Slow.Keeps (bigEndian : Bool) (volume : VtblEntry) (content : ℕ → Except SeekError DeblockBuf)
    (dest start : ℕ) (slow : Slow) : Prop where
  start_le : start ≤ slow.seeker.pos.segPos
  segPos_le : slow.seeker.pos.segPos ≤ slow.segPos
  inside : volume.startSeg ≤ slow.segPos ∧ slow.segPos ≤ volume.endSeg
  onWay : ∃ blocks, slow.remaining = blocks * (volume.blkSz / 1024) ∧
    OnWay bigEndian volume content dest blocks slow.segPos slow.seeker

/-- Without an error, the position is at the target. -/
def Arrives (dest : ℕ) (out : Option SeekError × Seeker) : Prop :=
  out.1 = none → out.2.pos.volumePos = (dest * 1024 : ℕ)

/-- What a walk leads to: no earlier segment, and the target if there is no error. -/
structure Reaches (dest start : ℕ) (out : Option SeekError × Seeker) : Prop where
  start_le : start ≤ out.2.pos.segPos
  arrives : Arrives dest out

/-- From a place that is not behind the target, the blocks in front of the target can be walked. -/
theorem Stands.onWay {dest : ℕ} (hvolume : Kilobytes volume dest) {seeker : Seeker}
    (h : Stands bigEndian volume content dest seeker) (hahead : seeker.pos.volumePos / 1024 ≤ dest) :
    ∃ blocks, OnWay bigEndian volume content dest blocks seeker.pos.segPos seeker := by
  have hnonneg := h.nonneg
  cases hahead.lt_or_eq with
  | inr hthere =>
    obtain ⟨kilobytes, hkilobytes⟩ := h.whole hthere
    refine ⟨0, hnonneg, ?_, fun _ _ => Nat.zero_le _⟩
    push_cast
    omega
  | inl hless =>
    obtain ⟨⟨front, hfront⟩, hcovers⟩ := h.ahead hless
    obtain ⟨target, htarget⟩ := hvolume.blocks
    have hpos : (0 : ℤ) < volume.blkSz := by
      have := hvolume.pos
      omega
    have htarget' : ((dest * 1024 : ℕ) : ℤ) = volume.blkSz * target := by exact_mod_cast htarget
    have hle : front ≤ target := by
      refine le_of_mul_le_mul_left ?_ hpos
      rw [← hfront, ← htarget']
      push_cast
      omega
    have hplace : seeker.pos.volumePos + ((target - front).toNat * volume.blkSz : ℕ) = (dest * 1024 : ℕ) := by
      rw [Nat.cast_mul, Int.toNat_of_nonneg (by omega), hfront, htarget']
      ring
    refine ⟨(target - front).toNat, hnonneg, hplace, fun count hcount => ?_⟩
    have hreaches := hcovers count hcount
    rw [← hplace] at hreaches
    have hblocks : ((target - front).toNat * volume.blkSz : ℕ) ≤ count * volume.blkSz := by omega
    exact Nat.le_of_mul_le_mul_right hblocks (by omega)

/-- A position at a mark. -/
structure AtMark (bigEndian : Bool) (volume : VtblEntry) (content : ℕ → Except SeekError DeblockBuf)
    (seeker : Seeker) : Prop where
  marked : mark bigEndian volume content seeker.pos.segPos = some seeker.cseg
  volumePos : seeker.pos.volumePos = seeker.cseg.foffs

/-- From a mark, a target ahead can be walked to. -/
theorem Seekable.stands {dest : ℕ} (hvolume : Kilobytes volume dest)
    (htape : Seekable bigEndian volume content dest) {seeker : Seeker}
    (h : AtMark bigEndian volume content seeker) : Stands bigEndian volume content dest seeker := by
  obtain ⟨hstart, hend, hsize⟩ := mark_eq_some h.marked
  obtain ⟨hnonneg, hdvd⟩ := htape.whole _ hend _ h.marked
  have hblkSz : (1024 : ℤ) ∣ volume.blkSz := ⟨(volume.blkSz / 1024 : ℕ), by exact_mod_cast hvolume.blkSz.symm⟩
  rw [← h.volumePos] at hnonneg hdvd hsize
  refine ⟨hstart, Nat.le_succ_of_le hend, hnonneg, hsize, fun _ => hblkSz.trans hdvd, fun hless => ⟨hdvd, ?_⟩⟩
  have hcovers := htape.covered _ hend _ h.marked
  rw [← h.volumePos] at hcovers
  exact hcovers hless.le

end Segments

section Trials

variable {bigEndian : Bool} {volume : VtblEntry} {surface : Surface} {content : ℕ → Except SeekError DeblockBuf}

/-- What the inner loops of `zftc_seek()` keep: they search in the volume, and there is a mark up to a bound, or they
can go back without leaving the tape. -/
structure Backup.Keeps (bigEndian : Bool) (volume : VtblEntry) (content : ℕ → Except SeekError DeblockBuf)
    (bound : ℕ) (backup : Backup) : Prop where
  start_le : volume.startSeg ≤ backup.newSeg
  le_limit : backup.newSeg ≤ backup.limit
  limit_le : backup.limit ≤ volume.endSeg + 1
  finds : (backup.limit ≤ volume.endSeg ∧ backup.limit ≤ bound ∧
      (backup.newSeg ≤ volume.startSeg ∨ 10 ≤ backup.newSeg)) ∨
    ∃ segment : ℕ, backup.newSeg ≤ segment ∧ segment ≤ backup.limit ∧ segment ≤ bound ∧
      mark bigEndian volume content segment ≠ none

/-- How far the inner loops of `zftc_seek()` can still go back. -/
def Backup.left (volume : VtblEntry) (backup : Backup) : ℕ := (backup.newSeg - volume.startSeg).toNat

/-- How many trials are left: some for each direction at first, and then as many as there are earlier segments. -/
def Trial.left (volume : VtblEntry) (trial : Trial) : ℕ :=
  if trial.trials < zftFastSeekMaxTrials then zftFastSeekMaxTrials - trial.trials + volume.endSeg + 3
  else trial.seeker.pos.segPos

/-- A trial that finds a segment in the volume leaves fewer of them, if it is one of the first ones or goes back. -/
theorem Trial.left_lt {trial trial' : Trial} (htrials : trial'.trials = trial.trials + 1)
    (hend : trial'.seeker.pos.segPos ≤ volume.endSeg + 1)
    (h : trial.trials < zftFastSeekMaxTrials ∨ trial'.seeker.pos.segPos < trial.seeker.pos.segPos) :
    trial'.left volume < trial.left volume := by
  rw [Trial.left, Trial.left, htrials]
  split
  · rw [if_pos (by omega)]
    omega
  · split
    · omega
    · omega

/-- What `zftc_seek()` keeps: a place it can start from, and a mark behind each trial. -/
def Trial.Fits (bigEndian : Bool) (volume : VtblEntry) (content : ℕ → Except SeekError DeblockBuf) (dest : ℕ)
    (trial : Trial) : Prop :=
  if trial.trials = 0 then SeeksFrom bigEndian volume content dest trial.seeker
  else AtMark bigEndian volume content trial.seeker

/-- A trial leads to another one, or leaves the target. -/
abbrev TrialNext (bigEndian : Bool) (volume : VtblEntry) (content : ℕ → Except SeekError DeblockBuf) (dest : ℕ)
    (trial : Trial) : Trial ⊕ (Option SeekError × Seeker) → Prop :=
  Sum.elim
    (fun trial' => trial'.Fits bigEndian volume content dest ∧ trial'.left volume < trial.left volume) (Arrives dest)

/-- A target can be sought from where a trial is. -/
theorem Trial.Fits.stands {dest : ℕ} (hvolume : Kilobytes volume dest)
    (htape : Seekable bigEndian volume content dest) {trial : Trial}
    (h : trial.Fits bigEndian volume content dest) : Stands bigEndian volume content dest trial.seeker := by
  rw [Trial.Fits] at h
  split at h
  case isTrue => exact h.toStands
  case isFalse => exact htape.stands hvolume h

/-- A trial that found a mark is followed by the next one. -/
theorem TrialNext.found {dest segment now : ℕ} {oldSeg : ℤ} {cseg : CmprInfo} {trial : Trial}
    (hmark : mark bigEndian volume content segment = some cseg)
    (h : trial.trials < zftFastSeekMaxTrials ∨ segment < trial.seeker.pos.segPos) :
    TrialNext bigEndian volume content dest trial
      (.inl ⟨trial.seeker.found segment cseg now, oldSeg, trial.trials + 1⟩) := by
  refine ⟨?_, Trial.left_lt rfl (Nat.le_succ_of_le (mark_eq_some hmark).2.1) h⟩
  rw [Trial.Fits, if_neg (Nat.succ_ne_zero _)]
  exact ⟨hmark, rfl⟩

end Trials

/-- The kilobytes of a block in reach. -/
theorem InReach.kilobytes {volume : VtblEntry} {newBlockPos : ℕ} (h : InReach volume newBlockPos) :
    destOf volume newBlockPos * 1024 = newBlockPos * volume.blkSz ∧ Kilobytes volume (destOf volume newBlockPos) ∧
      Header.uint (newBlockPos * (volume.blkSz / 1024)) = destOf volume newBlockPos := by
  have hwhole : 1024 * (volume.blkSz / 1024) = volume.blkSz := Nat.mul_div_cancel' h.whole
  have hpos := h.pos
  have hsmall := h.small
  have hplace : destOf volume newBlockPos * 1024 = newBlockPos * volume.blkSz := by
    rw [destOf, mul_assoc, mul_comm (volume.blkSz / 1024), hwhole]
  have hinside := h.inside
  rw [← hplace] at hinside
  have hsize := h.size
  refine ⟨hplace, ⟨hwhole, by omega, by omega, hplace ▸ Dvd.intro_left _ rfl, hsize, hinside⟩, ?_⟩
  change Header.uint (destOf volume newBlockPos) = _
  rw [Header.uint, Nat.mod_eq_of_lt (by omega)]

deriving instance DecidableEq for CmprInfo

end Ftape.Compressor
