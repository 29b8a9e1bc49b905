import Ftape.Header.Totality

/-!
# Accepted header segments

What the driver knows about a cartridge once `ftape_decode_header_segment()` has accepted its header:
the segment range as the header names it, and a geometry that passed the consistency test.
-/

namespace Ftape.Header

open Ftape.Algebra Ftape.Bsm Ftape.Write

/-- The first data segment that a header names, where its format has it. -/
def namedFirst (bigEndian : Bool) (address : ℕ → Byte) : ℕ :=
  if formatOf (address ftFmtCode) ≠ some .fmtBig then fetch bigEndian address ftFrstSeg 2
  else fetch bigEndian address ft6FrstSeg 4

/-- The last data segment that a header names. -/
def namedLast (bigEndian : Bool) (address : ℕ → Byte) : ℕ :=
  if formatOf (address ftFmtCode) ≠ some .fmtBig then fetch bigEndian address ftLastSeg 2
  else fetch bigEndian address ft6LastSeg 4

/-- The parameters of a header, after the defaults and the corrections. -/
def geometry (bigEndian : Bool) (address : ℕ → Byte) : Parameters :=
  ((readParameters bigEndian address).orDefault (int (namedLast bigEndian address))).compensate
    (address ftFmtCode)

/-- The state after a header was accepted. -/
structure Accepted (bigEndian : Bool) (address : ℕ → Byte) (ftape : FtapeInfo) : Prop where
  firstDataSegment : ftape.firstDataSegment = int (namedFirst bigEndian address)
  lastDataSegment : ftape.lastDataSegment = int (namedLast bigEndian address)
  segmentsPerTrack : ftape.segmentsPerTrack = (geometry bigEndian address).segmentsPerTrack
  tracksPerTape : ftape.tracksPerTape = (geometry bigEndian address).tracksPerTape
  verified : (geometry bigEndian address).verify = some (ftape.segmentsPerHead, true)

/-- Numbers below the encrypted part are the same after decryption. -/
theorem fetch_checkSignature {bigEndian : Bool} {address address' : ℕ → Byte}
    (h : checkSignature bigEndian address = some address') {a n : ℕ} (ha : 4 ≤ a) (hn : a + n ≤ 256) :
    fetch bigEndian address' a n = fetch bigEndian address a n := by
  apply fetch_congr
  intro k hle hlt
  exact checkSignature_apply h (by omega) (by omega)

/-- A number of two bytes is an `int`. -/
theorem int_fetch_two (bigEndian : Bool) (address : ℕ → Byte) (a : ℕ) :
    int (fetch bigEndian address a 2) = fetch bigEndian address a 2 := by
  have hlt := fetch_lt bigEndian address a 2
  rw [int_eq_self]
  · omega
  · norm_num at hlt
    omega

/-- The segment range is read as the header names it. -/
theorem readSegmentRange_eq (bigEndian : Bool) (ftape : FtapeInfo) {address : ℕ → Byte}
    (hcode : ftape.formatCode = address ftFmtCode) :
    ∃ headerSegment1 headerSegment2, readSegmentRange bigEndian ftape address = { ftape with
      headerSegment1 := headerSegment1
      headerSegment2 := headerSegment2
      firstDataSegment := int (namedFirst bigEndian address)
      lastDataSegment := int (namedLast bigEndian address) } := by
  unfold readSegmentRange namedFirst namedLast
  rw [hcode]
  by_cases hbig : formatOf (address ftFmtCode) ≠ some .fmtBig
  · simp only [if_pos hbig, int_fetch_two]
    exact ⟨_, _, rfl⟩
  · simp only [if_neg hbig]
    exact ⟨_, _, rfl⟩

/-- What verifying a header leaves when it succeeds. -/
theorem verifyHeader_ok {bigEndian : Bool} {windTime : ℕ} {fmt : FormatCode} {ftape ftape' : FtapeInfo}
    {address : ℕ → Byte}
    (h : verifyHeader bigEndian windTime fmt ftape address = some (ftape', .ok ())) :
    ftape'.firstDataSegment = ftape.firstDataSegment ∧
      ftape'.lastDataSegment = ftape.lastDataSegment ∧
      ftape'.bsm = ftapeExtractBadSectorMap { ftape.bsm with formatCode := fmt } address ∧
      ∃ p, p = ((readParameters bigEndian address).orDefault ftape.lastDataSegment).compensate
          ftape.formatCode ∧
        ftape'.segmentsPerTrack = p.segmentsPerTrack ∧ ftape'.tracksPerTape = p.tracksPerTape ∧
        p.verify = some (ftape'.segmentsPerHead, true) := by
  simp only [verifyHeader, Option.bind_eq_bind, Option.bind_eq_some_iff] at h
  obtain ⟨tapeLen, -, timeout, -, ⟨segmentsPerHead, consistent⟩, hverify, h⟩ := h
  cases consistent with
  | false => simp at h
  | true =>
    simp only [if_true, Option.some.injEq, Prod.mk.injEq, and_true] at h
    subst h
    exact ⟨rfl, rfl, rfl, _, rfl, rfl, rfl, hverify⟩

/-- What the driver knows after accepting a header. -/
theorem ftapeDecodeHeaderSegment_ok {bigEndian : Bool} {windTime : ℕ} {ftape ftape' : FtapeInfo}
    {address : ℕ → Byte}
    (h : ftapeDecodeHeaderSegment bigEndian windTime ftape address = some (ftape', .ok ())) :
    Accepted bigEndian address ftape' ∧ ∃ fmt address',
      formatOf (address ftFmtCode) = some fmt ∧ checkSignature bigEndian address = some address' ∧
      ftape'.bsm = ftapeExtractBadSectorMap { ftape.bsm with formatCode := fmt } address' := by
  unfold ftapeDecodeHeaderSegment at h
  cases hsignature : checkSignature bigEndian address with
  | none => simp [hsignature] at h
  | some address' =>
    have hcode : address' ftFmtCode = address ftFmtCode :=
      checkSignature_apply hsignature (by decide) (by decide)
    have hfirst : namedFirst bigEndian address' = namedFirst bigEndian address := by
      unfold namedFirst
      rw [hcode, fetch_checkSignature hsignature (by decide) (by decide),
        fetch_checkSignature hsignature (by decide) (by decide)]
    have hlast : namedLast bigEndian address' = namedLast bigEndian address := by
      unfold namedLast
      rw [hcode, fetch_checkSignature hsignature (by decide) (by decide),
        fetch_checkSignature hsignature (by decide) (by decide)]
    obtain ⟨headerSegment1, headerSegment2, hrange⟩ := readSegmentRange_eq bigEndian
      { ftape with formatCode := address' ftFmtCode } rfl
    simp only [hsignature, hrange, readGeometry, hfirst, hlast] at h
    rw [hcode] at h
    cases hfmt : formatOf (address ftFmtCode) with
    | none => simp [hfmt] at h
    | some fmt =>
      simp only [hfmt] at h
      obtain ⟨hfirst', hlast', hbsm, p, hp, hspt, htpc, hverify⟩ := verifyHeader_ok h
      dsimp only at hp hfirst' hlast' hbsm
      rw [readParameters_checkSignature hsignature] at hp
      have hgeometry : p = geometry bigEndian address := hp
      rw [hgeometry] at hspt htpc hverify
      exact ⟨⟨hfirst', hlast', hspt, htpc, hverify⟩, fmt, address', rfl, rfl, hbsm⟩

/-- The ranges of the fields of a header. -/
structure Parameters.InRange (p : Parameters) : Prop where
  segmentsPerTrack : p.segmentsPerTrack < 0x10000
  tracksPerTape : p.tracksPerTape < 0x100
  maxFloppySide : p.maxFloppySide < 0x100
  maxFloppyTrack : p.maxFloppyTrack < 0x100

/-- The parameters are read from fields of one and two bytes. -/
theorem readParameters_inRange (bigEndian : Bool) (address : ℕ → Byte) :
    (readParameters bigEndian address).InRange where
  segmentsPerTrack := fetch_lt bigEndian address ftSpt 2
  tracksPerTape := (address ftTpc).isLt
  maxFloppySide := (address ftFhm).isLt
  maxFloppyTrack := (address ftFtm).isLt

/-- The default parameters would fit into the fields as well. -/
theorem Parameters.InRange.orDefault {p : Parameters} (h : p.InRange) (lastDataSegment : ℤ) :
    (p.orDefault lastDataSegment).InRange := by
  unfold Parameters.orDefault
  split
  · split
    · exact ⟨by decide, by decide, by decide, by decide⟩
    · exact ⟨by decide, by decide, by decide, by decide⟩
  · exact h

/-- A correction of one parameter fits if the new value does. -/
theorem Parameters.InRange.ite {p q : Parameters} {c : Prop} [Decidable c] (hq : q.InRange)
    (hp : p.InRange) : (if c then q else p).InRange := by
  split
  · exact hq
  · exact hp

/-- The corrected parameters fit into the fields. -/
theorem Parameters.InRange.compensate {p : Parameters} (h : p.InRange) (formatCode : Byte) :
    (p.compensate formatCode).InRange := by
  have hside : ∀ {p : Parameters} (side : ℕ), side < 0x100 → p.InRange →
      ({ p with maxFloppySide := side } : Parameters).InRange :=
    fun _ hlt hp => ⟨hp.segmentsPerTrack, hp.tracksPerTape, hlt, hp.maxFloppyTrack⟩
  have htrack : ∀ {p : Parameters} (track : ℕ), track < 0x100 → p.InRange →
      ({ p with maxFloppyTrack := track } : Parameters).InRange :=
    fun _ hlt hp => ⟨hp.segmentsPerTrack, hp.tracksPerTape, hp.maxFloppySide, hlt⟩
  unfold Parameters.compensate
  extract_lets conner comByte205 comByte307 colorado os2 unknown
  have hconner : conner.InRange := (hside 6 (by decide) h).ite h
  have hcomByte205 : comByte205.InRange := (hside 4 (by decide) hconner).ite hconner
  have hcomByte307 : comByte307.InRange := (hside 6 (by decide) hcomByte205).ite hcomByte205
  have hcolorado : colorado.InRange := (htrack 149 (by decide) hcomByte307).ite hcomByte307
  have hos2 : os2.InRange := (htrack 149 (by decide) hcolorado).ite hcolorado
  have hunknown : unknown.InRange := (htrack 254 (by decide) hos2).ite hos2
  exact (hside 85 (by decide) hunknown).ite hunknown

/-- No correction changes the number of segments or of tracks. -/
theorem Parameters.compensate_segments (p : Parameters) (formatCode : Byte) :
    (p.compensate formatCode).segmentsPerTrack = p.segmentsPerTrack ∧
      (p.compensate formatCode).tracksPerTape = p.tracksPerTape := by
  constructor
  · simp only [compensate, apply_ite Parameters.segmentsPerTrack, ite_self]
  · simp only [compensate, apply_ite Parameters.tracksPerTape, ite_self]

/-- A number that is one less than another in `unsigned int`, if both are in range. -/
theorem uint_sub_one {value : ℕ} (hlt : value < 0x100000000) :
    uint (value + 0xffffffff) = if value = 0 then 0xffffffff else value - 1 := by
  unfold uint
  split <;> omega

/-- What is left of the test of the parameters when it succeeds. -/
theorem Parameters.of_verify {p : Parameters} {segmentsPerHead : ℕ}
    (h : p.verify = some (segmentsPerHead, true)) :
    segmentsPerHead = p.maxFloppySector / ftSectorsPerSegment * (p.maxFloppyTrack + 1) ∧
      p.maxFloppySector = segmentsPerCylinder * ftSectorsPerSegment ∧
      (uint (uint (p.segmentsPerTrack * p.tracksPerTape) + 0xffffffff) / segmentsPerHead =
        p.maxFloppySide ∨
      uint (uint (p.segmentsPerTrack * p.tracksPerTape) + 0xffffffff) / segmentsPerHead =
        uint (p.maxFloppySide + 0xffffffff)) := by
  simp only [verify, Option.bind_eq_bind, Option.bind_eq_some_iff] at h
  obtain ⟨shouldBe, hshould, h⟩ := h
  have hcorrected : (if uint (p.maxFloppySide + 0x100000000 - shouldBe) = 1 then
      uint (p.maxFloppySide + 0xffffffff) else p.maxFloppySide) = p.maxFloppySide ∨
      (if uint (p.maxFloppySide + 0x100000000 - shouldBe) = 1 then
        uint (p.maxFloppySide + 0xffffffff) else p.maxFloppySide) =
        uint (p.maxFloppySide + 0xffffffff) := by
    split
    · exact Or.inr rfl
    · exact Or.inl rfl
  generalize (if uint (p.maxFloppySide + 0x100000000 - shouldBe) = 1 then
      uint (p.maxFloppySide + 0xffffffff) else p.maxFloppySide) = side at h hcorrected
  split at h
  · simp [Option.bind_eq_some_iff] at h
  · rename_i hconsistent
    rw [not_or, not_or, not_or, not_or, not_not, not_not, not_not] at hconsistent
    obtain ⟨hhead, -, hside, -, hsector⟩ := hconsistent
    rw [divide, if_neg hhead] at hshould
    simp only [Option.some.injEq, Prod.mk.injEq, and_true] at hshould h
    rw [← h, hshould, hside]
    exact ⟨rfl, hsector.symm, hcorrected⟩

/-- Parameters that pass the consistency test: a cylinder has four segments, and the sides are as
many as the segments need. -/
theorem Parameters.InRange.of_verify {p : Parameters} (hp : p.InRange) {segmentsPerHead : ℕ}
    (h : p.verify = some (segmentsPerHead, true)) :
    segmentsPerHead = segmentsPerCylinder * (p.maxFloppyTrack + 1) ∧
      0 < p.segmentsPerTrack * p.tracksPerTape ∧
      (p.segmentsPerTrack * p.tracksPerTape - 1) / segmentsPerHead < 0x100 := by
  obtain ⟨hhead, hsector, hside⟩ := Parameters.of_verify h
  have hcylinder : p.maxFloppySector / ftSectorsPerSegment = segmentsPerCylinder := by
    rw [hsector]
    decide
  rw [hcylinder] at hhead
  have hhead' : segmentsPerHead ≤ 0x400 := by
    have htrack := hp.maxFloppyTrack
    rw [hhead, segmentsPerCylinder]
    omega
  have hpos : 0 < segmentsPerHead := by
    rw [hhead, segmentsPerCylinder]
    omega
  have hsegments : p.segmentsPerTrack * p.tracksPerTape < 0x1000000 := by
    calc p.segmentsPerTrack * p.tracksPerTape
        < 0x10000 * 0x100 := Nat.mul_lt_mul'' hp.segmentsPerTrack hp.tracksPerTape
      _ = 0x1000000 := by norm_num
  have huint : uint (p.segmentsPerTrack * p.tracksPerTape) = p.segmentsPerTrack * p.tracksPerTape :=
    Nat.mod_eq_of_lt (by omega)
  have hsmall : uint (uint (p.segmentsPerTrack * p.tracksPerTape) + 0xffffffff) / segmentsPerHead <
      0x100 ∨
      uint (uint (p.segmentsPerTrack * p.tracksPerTape) + 0xffffffff) / segmentsPerHead =
        0xffffffff := by
    have hsidelt := hp.maxFloppySide
    cases hside with
    | inl hside => omega
    | inr hside =>
      rw [hside, uint_sub_one (by omega)]
      split <;> omega
  rw [huint, uint_sub_one (by omega)] at hsmall
  refine ⟨hhead, ?_⟩
  by_cases hzero : p.segmentsPerTrack * p.tracksPerTape = 0
  · rw [if_pos hzero] at hsmall
    have hlow : 0xffffffff / 0x400 ≤ 0xffffffff / segmentsPerHead := Nat.div_le_div_left hhead' hpos
    have hhigh : 0xffffffff / segmentsPerHead ≤ 0xffffffff / 4 := Nat.div_le_div_left (by
      rw [hhead, segmentsPerCylinder]; omega) (by norm_num)
    omega
  · rw [if_neg hzero] at hsmall
    have hle := Nat.div_le_self (p.segmentsPerTrack * p.tracksPerTape - 1) segmentsPerHead
    exact ⟨Nat.pos_of_ne_zero hzero, by omega⟩

end Ftape.Header
