import Ftape.Bsm.Bounds
import Ftape.Header.Acceptance

/-!
# The bad sector map of an accepted header

Decoding a header ends with setting up its bad sector map. The map is taken as it is: nothing makes
sure that a list is terminated in the header, or that an array has room for all segments.
-/

namespace Ftape.Header

open Ftape.Algebra Ftape.Bsm Ftape.Write

/-- The requests for which the map of a header is large enough: a list that is terminated in the
header, after each update as well, or the segments of an array. -/
def Contained (ftape : Bsm.FtapeInfo) (requests : List Request) : Prop :=
  if ftape.formatCode.listed then
    ∃ entries, Terminated ftape.header (bsmOffset ftape.formatCode) entries ∧
      ListFits ftape.formatCode entries requests
  else ∀ request ∈ requests, request.segment < arraySegments

/-- The segments of an accepted header have addresses of 23 bits. -/
theorem Accepted.segments_le {bigEndian : Bool} {address : ℕ → Byte} {ftape : FtapeInfo}
    (h : Accepted bigEndian address ftape) :
    ftape.segmentsPerTrack * ftape.tracksPerTape ≤ 0x40000 := by
  have hrange : (geometry bigEndian address).InRange :=
    ((readParameters_inRange bigEndian address).orDefault _).compensate _
  obtain ⟨hhead, hpos, hside⟩ := hrange.of_verify h.verified
  have htrack := hrange.maxFloppyTrack
  rw [← h.segmentsPerTrack, ← h.tracksPerTape] at hpos hside
  have hperHead : 0 < ftape.segmentsPerHead ∧ ftape.segmentsPerHead ≤ 0x400 := by
    rw [hhead, segmentsPerCylinder]
    omega
  have hlt := (Nat.div_lt_iff_lt_mul hperHead.1).mp hside
  have hle : 0x100 * ftape.segmentsPerHead ≤ 0x100 * 0x400 := Nat.mul_le_mul_left _ hperHead.2
  omega

/-- Lookups and updates on the segments of an accepted header stay within it as long as its map is
large enough for them. `usedHeaderSegment` is what `ftape_read_header_segment()` remembers of the
header afterwards. -/
theorem ftapeDecodeHeaderSegment_contained {bigEndian : Bool} {windTime : ℕ}
    {ftape ftape' : FtapeInfo} {address : ℕ → Byte}
    (h : ftapeDecodeHeaderSegment bigEndian windTime ftape address = some (ftape', .ok ()))
    (usedHeaderSegment : ℤ) {requests : List Request}
    (hsegments : ∀ request ∈ requests,
      request.segment < ftape'.segmentsPerTrack * ftape'.tracksPerTape)
    (hcontained : Contained ftape'.bsm requests) :
    (execute bigEndian { ftape'.bsm with usedHeaderSegment := usedHeaderSegment } requests).isSome := by
  obtain ⟨haccepted, fmt, address', -, -, hbsm⟩ := ftapeDecodeHeaderSegment_ok h
  have hle := haccepted.segments_le
  have hbase : ftape'.bsm.badSectorMap = some (bsmOffset ftape'.bsm.formatCode) := by
    rw [hbsm]
    rfl
  have hpointer : ftape'.bsm.bsmHashPtr = if ftape'.bsm.formatCode.listed then some 0 else none := by
    rw [hbsm]
    rfl
  unfold Contained at hcontained
  cases hlisted : ftape'.bsm.formatCode.listed with
  | true =>
    rw [hlisted, if_pos rfl] at hcontained hpointer
    obtain ⟨entries, hterminated, hfits⟩ := hcontained
    have hbounded : Bounded { ftape'.bsm with usedHeaderSegment := usedHeaderSegment } entries :=
      ⟨hlisted, hbase, hterminated, 0, Nat.zero_le _, hpointer⟩
    exact hbounded.execute bigEndian
      (fun request hmem => (hsegments request hmem).trans_le hle) hfits
  | false =>
    rw [hlisted, if_neg Bool.false_ne_true] at hcontained hpointer
    have harrayed : Arrayed { ftape'.bsm with usedHeaderSegment := usedHeaderSegment } :=
      ⟨hlisted, hbase, hpointer⟩
    exact harrayed.execute bigEndian hcontained

/-- A header of the variable format for 2800 segments with an empty list. -/
def variableHeader : ℕ → Byte := formatHeader false ⟨4, 100, 28, 4, 149⟩

/-- The empty list ends in that header. -/
theorem terminated_variableHeader : Terminated variableHeader (bsmOffset .fmtVar) [] where
  stored k hk := by
    rw [Nat.le_zero.mp hk]
    decide +kernel
  nonzero e he := absurd he List.not_mem_nil

/-- With an empty list segments are looked up and recorded. -/
theorem ftapeDecodeHeaderSegment_contained_empty :
    ∃ ftape', ftapeDecodeHeaderSegment false 0 ftapeInitDriver variableHeader = some (ftape', .ok ()) ∧
      (execute false { ftape'.bsm with usedHeaderSegment := 0 }
        [.get 2799, .put 7 1, .get 7]).isSome := by
  have haccept : ∃ ftape',
      ftapeDecodeHeaderSegment false 0 ftapeInitDriver variableHeader = some (ftape', .ok ()) ∧
        ftape'.segmentsPerTrack * ftape'.tracksPerTape = 2800 ∧
        ftape'.bsm.formatCode = .fmtVar ∧ ftape'.bsm.header = variableHeader :=
    ⟨_, rfl, rfl, rfl, rfl⟩
  obtain ⟨ftape', haccept, hsegments, hfmt, hheader⟩ := haccept
  refine ⟨ftape', haccept, ftapeDecodeHeaderSegment_contained haccept 0 ?_ ?_⟩
  · rw [hsegments]
    decide
  · rw [Contained, hfmt, hheader]
    exact ⟨[], terminated_variableHeader, by decide, trivial⟩

/-- A list whose entries all come before a segment, and that does not end in the header, is read
past its end. -/
theorem forwardSkip_unterminated {header : ℕ → Byte} {base segment : ℕ}
    (h : ∀ k sector, getSector header base k = some sector →
      sector ≠ 0 ∧ cvt2segment sector < segment) (rounds ptr : ℕ) :
    forwardSkip header base segment rounds ptr = none := by
  induction rounds generalizing ptr with
  | zero => rfl
  | succ rounds ih =>
    rw [forwardSkip]
    cases hread : getSector header base ptr with
    | none => rfl
    | some sector =>
      rw [Option.bind_eq_bind, Option.bind_some, if_pos (h ptr sector hread)]
      exact ih (ptr + 1)

/-- The same header with a list of the sector 65793 throughout. -/
def unterminatedHeader (a : ℕ) : Byte := if a < 256 then variableHeader a else 1

/-- The header is accepted, and looking its last segment up reads past it. -/
theorem ftapeDecodeHeaderSegment_unterminated :
    ∃ ftape', ftapeDecodeHeaderSegment false 0 ftapeInitDriver unterminatedHeader =
        some (ftape', .ok ()) ∧
      2799 < ftape'.segmentsPerTrack * ftape'.tracksPerTape ∧
      execute false { ftape'.bsm with usedHeaderSegment := 0 } [.get 2799] = none := by
  have haccept : ∃ ftape',
      ftapeDecodeHeaderSegment false 0 ftapeInitDriver unterminatedHeader = some (ftape', .ok ()) ∧
        ftape'.segmentsPerTrack * ftape'.tracksPerTape = 2800 ∧
        ftape'.bsm = ⟨-1, .fmtVar, unterminatedHeader, some ftHeaderEnd, some 0, 0, 0⟩ :=
    ⟨_, rfl, rfl, rfl⟩
  obtain ⟨ftape', haccept, hsegments, hbsm⟩ := haccept
  refine ⟨ftape', haccept, by omega, ?_⟩
  have hentries : ∀ k sector, getSector unterminatedHeader ftHeaderEnd k = some sector →
      sector ≠ 0 ∧ cvt2segment sector < 2799 := by
    intro k sector hread
    have hone : ∀ a, ftHeaderEnd ≤ a → (unterminatedHeader a).toNat = 1 := by
      intro a ha
      rw [unterminatedHeader, if_neg (by unfold ftHeaderEnd at ha; omega)]
      rfl
    unfold getSector at hread
    rw [hone _ (by omega), hone _ (by omega), hone _ (by omega)] at hread
    split at hread
    · rw [← Option.some.inj hread]
      decide
    · cases hread
  have hseek : seekEntry ⟨0, .fmtVar, unterminatedHeader, some ftHeaderEnd, some 0, 0, 0⟩ ftHeaderEnd
      2799 0 = none := by
    rw [seekEntry, if_pos (by decide), forwardSeekEntry,
      forwardSkip_unterminated hentries ftSegmentSize 0]
    rfl
  have hget : ftapeGetBadSectorEntry false
      ⟨0, .fmtVar, unterminatedHeader, some ftHeaderEnd, some 0, 0, 0⟩ 2799 = none := by
    rw [ftapeGetBadSectorEntry, if_neg (by decide), Option.bind_eq_bind, Option.bind_some]
    dsimp only
    rw [hseek]
    rfl
  rw [hbsm, execute]
  dsimp only
  rw [hget]
  rfl

end Ftape.Header
