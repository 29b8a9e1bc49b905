import Ftape.Header.Acceptance
import Ftape.Zftape.Bookkeeping

/-!
# The segment range of an accepted header

The decoder takes the first and the last data segment from the header without comparing them to each
other or to the geometry. `zft_get_capacity()` goes through the range and trusts it.
-/

namespace Ftape.Header

open Ftape.Algebra Ftape.Bsm Ftape.Write Ftape.Zftape

/-- The number of segments a header records, or that old headers without parameters stand for. -/
def recordedSegments (bigEndian : Bool) (address : ℕ → Byte) : ℕ :=
  if readParameters bigEndian address = ⟨0, 0, 0, 0, 0⟩ then
    if namedLast bigEndian address = 2799 then 100 * 28 else 68 * 20
  else fetch bigEndian address ftSpt 2 * (address ftTpc).toNat

/-- The headers whose data segments are in order and on the tape. -/
def Usable (bigEndian : Bool) (address : ℕ → Byte) : Prop :=
  namedFirst bigEndian address ≤ namedLast bigEndian address ∧
    namedLast bigEndian address < recordedSegments bigEndian address

/-- A usable segment range: in order and on the tape, and calculating the capacity returns and looks
up existing segments only. -/
structure RangeUsable (ftape : FtapeInfo) : Prop where
  nonneg : 0 ≤ ftape.firstDataSegment
  ordered : ftape.firstDataSegment ≤ ftape.lastDataSegment
  onTape : ftape.lastDataSegment < (ftape.segmentsPerTrack * ftape.tracksPerTape : ℕ)
  capacity : ∀ books : Books, books.firstDataSegment = ftape.firstDataSegment →
    books.lastDataSegment = ftape.lastDataSegment → ∃ rounds books' segments,
      books.zftGetCapacity rounds = some (books', segments) ∧ ∀ segment ∈ segments,
        0 ≤ segment ∧ segment < (ftape.segmentsPerTrack * ftape.tracksPerTape : ℕ)

/-- The fields for segments have at most four bytes. -/
theorem named_lt (bigEndian : Bool) (address : ℕ → Byte) :
    namedFirst bigEndian address < 0x100000000 ∧ namedLast bigEndian address < 0x100000000 := by
  have hlt : ∀ a n, n ≤ 4 → fetch bigEndian address a n < 0x100000000 := by
    intro a n hn
    calc fetch bigEndian address a n
        < 256 ^ n := fetch_lt bigEndian address a n
      _ ≤ 256 ^ 4 := Nat.pow_le_pow_right (by decide) hn
      _ = 0x100000000 := by norm_num
  unfold namedFirst namedLast
  split
  · exact ⟨hlt _ _ (by decide), hlt _ _ (by decide)⟩
  · exact ⟨hlt _ _ (by decide), hlt _ _ (by decide)⟩

/-- The number of segments an accepted header stands for. -/
theorem Accepted.segments {bigEndian : Bool} {address : ℕ → Byte} {ftape : FtapeInfo}
    (h : Accepted bigEndian address ftape) :
    ftape.segmentsPerTrack * ftape.tracksPerTape = recordedSegments bigEndian address := by
  have hxenix : int (namedLast bigEndian address) = 2799 ↔ namedLast bigEndian address = 2799 := by
    have hlt := (named_lt bigEndian address).2
    constructor
    · intro heq
      have hself := int_of_nonneg hlt (by omega)
      omega
    · intro heq
      rw [heq]
      rfl
  obtain ⟨hspt, htpc⟩ := Parameters.compensate_segments
    ((readParameters bigEndian address).orDefault (int (namedLast bigEndian address)))
    (address ftFmtCode)
  rw [h.segmentsPerTrack, h.tracksPerTape, geometry, hspt, htpc, recordedSegments,
    Parameters.orDefault]
  by_cases hzero : readParameters bigEndian address = ⟨0, 0, 0, 0, 0⟩
  · simp only [if_pos hzero, hxenix]
    split <;> rfl
  · simp only [if_neg hzero]
    rfl

/-- An accepted header records less than 2 ^ 24 segments. -/
theorem recordedSegments_lt (bigEndian : Bool) (address : ℕ → Byte) :
    recordedSegments bigEndian address < 0x1000000 := by
  have hrange := readParameters_inRange bigEndian address
  unfold recordedSegments
  split
  · split <;> norm_num
  · calc fetch bigEndian address ftSpt 2 * (address ftTpc).toNat
        < 0x10000 * 0x100 := Nat.mul_lt_mul'' hrange.segmentsPerTrack hrange.tracksPerTape
      _ = 0x1000000 := by norm_num

/-- An accepted header has a usable segment range exactly if it names one. -/
theorem ftapeDecodeHeaderSegment_usable {bigEndian : Bool} {windTime : ℕ} {ftape ftape' : FtapeInfo}
    {address : ℕ → Byte}
    (h : ftapeDecodeHeaderSegment bigEndian windTime ftape address = some (ftape', .ok ())) :
    RangeUsable ftape' ↔ Usable bigEndian address := by
  have haccepted := (ftapeDecodeHeaderSegment_ok h).1
  have hfew := recordedSegments_lt bigEndian address
  obtain ⟨hfirstlt, hlastlt⟩ := named_lt bigEndian address
  constructor
  · rintro ⟨hnonneg, hordered, honTape, -⟩
    rw [haccepted.segments, haccepted.lastDataSegment] at honTape
    rw [haccepted.firstDataSegment, haccepted.lastDataSegment] at hordered
    rw [haccepted.firstDataSegment] at hnonneg
    have hfirst := int_of_nonneg hfirstlt hnonneg
    have hlast := int_of_nonneg hlastlt (hnonneg.trans hordered)
    exact ⟨by omega, by omega⟩
  · rintro ⟨hordered, honTape⟩
    have hfirst : ftape'.firstDataSegment = (namedFirst bigEndian address : ℕ) := by
      rw [haccepted.firstDataSegment, int_eq_self (by omega) (by omega)]
    have hlast : ftape'.lastDataSegment = (namedLast bigEndian address : ℕ) := by
      rw [haccepted.lastDataSegment, int_eq_self (by omega) (by omega)]
    refine ⟨by omega, by omega, by rw [haccepted.segments]; omega, ?_⟩
    intro books hbooksFirst hbooksLast
    have hstart : 0 ≤ books.zftFirstSegment ∧ books.zftFirstSegment ≤ books.lastDataSegment := by
      unfold Books.zftFirstSegment
      split <;> omega
    refine ⟨_, _, _, Books.zftGetCapacity_eq (by omega) (by omega) rfl, ?_⟩
    intro segment hmem
    rw [mem_segmentsFrom] at hmem
    rw [haccepted.segments]
    omega

/-- The range of a QIC-80 header is usable. -/
theorem ftapeDecodeHeaderSegment_usable_qic80 :
    ∃ ftape', ftapeDecodeHeaderSegment false 0 ftapeInitDriver qic80Header = some (ftape', .ok ()) ∧
      RangeUsable ftape' := by
  have haccept : ∃ ftape',
      ftapeDecodeHeaderSegment false 0 ftapeInitDriver qic80Header = some (ftape', .ok ()) :=
    ⟨_, rfl⟩
  obtain ⟨ftape', haccept⟩ := haccept
  refine ⟨ftape', haccept, (ftapeDecodeHeaderSegment_usable haccept).mpr ?_⟩
  unfold Usable
  decide +kernel

/-- A header of the big format for 2800 segments whose last data segment is the largest `int`. -/
def endlessHeader : ℕ → Byte :=
  store false (formatHeader false ⟨6, 100, 28, 4, 149⟩) ft6LastSeg 4 0x7fffffff

/-- The header is accepted, and calculating the capacity never returns. -/
theorem ftapeDecodeHeaderSegment_endless :
    ∃ ftape', ftapeDecodeHeaderSegment false 0 ftapeInitDriver endlessHeader = some (ftape', .ok ()) ∧
      ftape'.segmentsPerTrack * ftape'.tracksPerTape = 2800 ∧
      ftape'.lastDataSegment = 0x7fffffff ∧
      ∀ books : Books, books.rawImage = false → books.firstDataSegment = ftape'.firstDataSegment →
        books.lastDataSegment = ftape'.lastDataSegment →
        ∀ rounds, books.zftGetCapacity rounds = none := by
  have haccept : ∃ ftape',
      ftapeDecodeHeaderSegment false 0 ftapeInitDriver endlessHeader = some (ftape', .ok ()) :=
    ⟨_, rfl⟩
  obtain ⟨ftape', haccept⟩ := haccept
  have haccepted := (ftapeDecodeHeaderSegment_ok haccept).1
  have hsegments : recordedSegments false endlessHeader = 2800 := by decide +kernel
  have hfirst : int (namedFirst false endlessHeader) = 2 := by decide +kernel
  have hlast : int (namedLast false endlessHeader) = 0x7fffffff := by decide +kernel
  refine ⟨ftape', haccept, haccepted.segments.trans hsegments,
    haccepted.lastDataSegment.trans hlast, ?_⟩
  intro books hraw hbooksFirst hbooksLast
  have hstart : books.zftFirstSegment = 2 := by
    rw [Books.zftFirstSegment, hraw, hbooksFirst, haccepted.firstDataSegment, hfirst]
    rfl
  apply Books.zftGetCapacity_endless
  · rw [hstart]
    decide
  · rw [hbooksLast, haccepted.lastDataSegment, hlast]

end Ftape.Header
