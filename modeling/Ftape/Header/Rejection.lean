import Ftape.Header.Acceptance

/-!
# Rejected header segments

`ftape_decode_header_segment()` puts the fields of a header in force while it reads them, and rejects the header
later. A driver that goes on to the backup header then works with the geometry of the header it rejected.
-/

namespace Ftape.Header

open Ftape.Algebra Ftape.Bsm Ftape.Write

/-- The fields of `ftape_info_t` that reading a segment depends on. -/
structure TapeGeometry where
  formatCode : Byte
  headerSegment1 : ℤ
  headerSegment2 : ℤ
  firstDataSegment : ℤ
  lastDataSegment : ℤ
  segmentsPerTrack : ℕ
  tracksPerTape : ℕ
  segmentsPerHead : ℕ
  tapeLen : ℕ
deriving DecidableEq

/-- The geometry in force. -/
def FtapeInfo.tapeGeometry (ftape : FtapeInfo) : TapeGeometry where
  formatCode := ftape.formatCode
  headerSegment1 := ftape.headerSegment1
  headerSegment2 := ftape.headerSegment2
  firstDataSegment := ftape.firstDataSegment
  lastDataSegment := ftape.lastDataSegment
  segmentsPerTrack := ftape.segmentsPerTrack
  tracksPerTape := ftape.tracksPerTape
  segmentsPerHead := ftape.segmentsPerHead
  tapeLen := ftape.tapeLen

/-- The first header segment that a header names. -/
def namedHeader1 (bigEndian : Bool) (address : ℕ → Byte) : ℕ :=
  if formatOf (address ftFmtCode) ≠ some .fmtBig then fetch bigEndian address ftHseg1 2
  else fetch bigEndian address ft6Hseg1 4

/-- The second header segment that a header names. -/
def namedHeader2 (bigEndian : Bool) (address : ℕ → Byte) : ℕ :=
  if formatOf (address ftFmtCode) ≠ some .fmtBig then fetch bigEndian address ftHseg2 2
  else fetch bigEndian address ft6Hseg2 4

/-- The format and the segments that a header names are those in force. -/
structure NamesRange (bigEndian : Bool) (ftape : FtapeInfo) (address : ℕ → Byte) : Prop where
  formatCode : address ftFmtCode = ftape.formatCode
  headerSegment1 : int (namedHeader1 bigEndian address) = ftape.headerSegment1
  headerSegment2 : int (namedHeader2 bigEndian address) = ftape.headerSegment2
  firstDataSegment : int (namedFirst bigEndian address) = ftape.firstDataSegment
  lastDataSegment : int (namedLast bigEndian address) = ftape.lastDataSegment

/-- The segments per track and the tracks of some parameters are those in force. -/
def Parameters.Counts (p : Parameters) (ftape : FtapeInfo) : Prop :=
  p.segmentsPerTrack = ftape.segmentsPerTrack ∧ p.tracksPerTape = ftape.tracksPerTape

/-- The segments per head of some parameters. -/
def Parameters.heads (p : Parameters) : ℕ := p.maxFloppySector / ftSectorsPerSegment * (p.maxFloppyTrack + 1)

/-- The parameters that pass the consistency test: the four segments of a cylinder, and the sides that the segments
need, or one more. -/
def Parameters.Consistent (p : Parameters) : Prop :=
  let side := uint (uint (p.segmentsPerTrack * p.tracksPerTape) + 0xffffffff) / p.heads
  p.maxFloppySector = segmentsPerCylinder * ftSectorsPerSegment ∧
    (p.maxFloppySide = side ∨ p.maxFloppySide = side + 1)

instance (p : Parameters) : Decidable p.Consistent :=
  inferInstanceAs (Decidable (_ ∧ (_ ∨ _)))

/-- The standard a header is read with. -/
def standard (bigEndian : Bool) (ftape : FtapeInfo) (address : ℕ → Byte) : QicStd :=
  if 50 < (readParameters bigEndian address).tracksPerTape ∧ ftape.dittoMaxExt then .dittoMax else ftape.qicStd

/-- The headers that leave the geometry in force if they are rejected. A wrong signature does. Beyond that a header must
name what is in force already, unless it is not rejected: its parameters are consistent, or there are so few sectors
on a floppy track that the decoder divides by zero. -/
def KeepsGeometry (bigEndian : Bool) (ftape : FtapeInfo) (address : ℕ → Byte) : Prop :=
  fetch bigEndian address ftSignature 4 ≠ ftD2gMagic ∧ fetch bigEndian address ftSignature 4 ≠ ftHsegMagic ∨
    match formatOf (address ftFmtCode) with
    | none => NamesRange bigEndian ftape address ∧ (readParameters bigEndian address).Counts ftape
    | some fmt =>
      (geometry bigEndian address).Consistent ∨ (geometry bigEndian address).maxFloppySector < ftSectorsPerSegment ∨
        NamesRange bigEndian ftape address ∧ (geometry bigEndian address).Counts ftape ∧
          (geometry bigEndian address).heads = ftape.segmentsPerHead ∧
          newTapeLen fmt (standard bigEndian ftape address) (readParameters bigEndian address).segmentsPerTrack
            ftape.tapeLen = some ftape.tapeLen

/-- The side test forgives one side too many. -/
theorem side_ne_iff {side maxFloppySide : ℕ} (hside : side < 0x40000000) (hmax : maxFloppySide < 0x100) :
    side ≠ (if uint (maxFloppySide + 0x100000000 - side) = 1 then uint (maxFloppySide + 0xffffffff)
        else maxFloppySide) ↔ ¬(maxFloppySide = side ∨ maxFloppySide = side + 1) := by
  by_cases hone : uint (maxFloppySide + 0x100000000 - side) = 1
  · rw [if_pos hone]
    rw [uint] at hone ⊢
    omega
  · rw [if_neg hone]
    rw [uint] at hone
    omega

/-- The test of the parameters answers whether they are consistent. -/
theorem Parameters.InRange.verify_eq {p : Parameters} (hp : p.InRange)
    (hsectors : ftSectorsPerSegment ≤ p.maxFloppySector) : p.verify = some (p.heads, decide p.Consistent) := by
  have hquotient : 0 < p.maxFloppySector / ftSectorsPerSegment := Nat.div_pos hsectors (by decide)
  have hpos : p.maxFloppySector / ftSectorsPerSegment * (p.maxFloppyTrack + 1) ≠ 0 :=
    Nat.mul_ne_zero hquotient.ne' (Nat.succ_ne_zero _)
  have hcylinder : segmentsPerCylinder ≠ 0 := by decide
  have hconsistent : p.Consistent ↔ p.maxFloppySector = segmentsPerCylinder * ftSectorsPerSegment ∧
      (p.maxFloppySide = uint (uint (p.segmentsPerTrack * p.tracksPerTape) + 0xffffffff) /
          (p.maxFloppySector / ftSectorsPerSegment * (p.maxFloppyTrack + 1)) ∨
        p.maxFloppySide = uint (uint (p.segmentsPerTrack * p.tracksPerTape) + 0xffffffff) /
          (p.maxFloppySector / ftSectorsPerSegment * (p.maxFloppyTrack + 1)) + 1) := Iff.rfl
  have hlast : uint (uint (p.segmentsPerTrack * p.tracksPerTape) + 0xffffffff) < 0x100000000 :=
    Nat.mod_lt _ (by decide)
  simp only [verify, divide, if_neg hpos, if_neg hcylinder, Option.bind_eq_bind, Option.bind_some]
  rw [heads]
  generalize uint (uint (p.segmentsPerTrack * p.tracksPerTape) + 0xffffffff) = last at hconsistent hlast ⊢
  by_cases hsector : p.maxFloppySector = segmentsPerCylinder * ftSectorsPerSegment
  · have hheads : p.maxFloppySector / ftSectorsPerSegment * (p.maxFloppyTrack + 1) = 4 * (p.maxFloppyTrack + 1) := by
      rw [hsector]
      rfl
    have hside : last / (p.maxFloppySector / ftSectorsPerSegment * (p.maxFloppyTrack + 1)) < 0x40000000 := by
      rw [hheads, Nat.div_lt_iff_lt_mul (by omega)]
      omega
    have htrack : uint (p.maxFloppySector / ftSectorsPerSegment * (p.maxFloppyTrack + 1) / segmentsPerCylinder +
        0xffffffff) = p.maxFloppyTrack := by
      have hrange := hp.maxFloppyTrack
      rw [hheads, segmentsPerCylinder, uint]
      omega
    have hne := side_ne_iff hside hp.maxFloppySide
    by_cases hfits : p.Consistent
    · rw [if_neg, decide_eq_true hfits]
      rw [not_or, not_or, not_or, not_or, hne, htrack, not_not]
      exact ⟨hpos, hcylinder, (hconsistent.mp hfits).2, not_not_intro rfl, not_not_intro hsector.symm⟩
    · have hside' := mt (fun h => hconsistent.mpr ⟨hsector, h⟩) hfits
      rw [if_pos (Or.inr (Or.inr (Or.inl (hne.mpr hside')))), decide_eq_false hfits]
  · have hfits : ¬p.Consistent := fun h => hsector (hconsistent.mp h).1
    rw [if_pos (Or.inr (Or.inr (Or.inr (Or.inr (Ne.symm hsector))))), decide_eq_false hfits]

/-- What a header names is the same after decryption. -/
theorem named_checkSignature {bigEndian : Bool} {address address' : ℕ → Byte}
    (h : checkSignature bigEndian address = some address') :
    address' ftFmtCode = address ftFmtCode ∧ namedHeader1 bigEndian address' = namedHeader1 bigEndian address ∧
      namedHeader2 bigEndian address' = namedHeader2 bigEndian address ∧
      namedFirst bigEndian address' = namedFirst bigEndian address ∧
      namedLast bigEndian address' = namedLast bigEndian address := by
  have hcode : address' ftFmtCode = address ftFmtCode := checkSignature_apply h (by decide) (by decide)
  have hnarrow (a : ℕ) (ha : 4 ≤ a) (hlt : a + 2 ≤ 256) :
      fetch bigEndian address' a 2 = fetch bigEndian address a 2 := fetch_checkSignature h ha hlt
  have hwide (a : ℕ) (ha : 4 ≤ a) (hlt : a + 4 ≤ 256) :
      fetch bigEndian address' a 4 = fetch bigEndian address a 4 := fetch_checkSignature h ha hlt
  refine ⟨hcode, ?_, ?_, ?_, ?_⟩
  · rw [namedHeader1, namedHeader1, hcode, hnarrow _ (by decide) (by decide), hwide _ (by decide) (by decide)]
  · rw [namedHeader2, namedHeader2, hcode, hnarrow _ (by decide) (by decide), hwide _ (by decide) (by decide)]
  · rw [namedFirst, namedFirst, hcode, hnarrow _ (by decide) (by decide), hwide _ (by decide) (by decide)]
  · rw [namedLast, namedLast, hcode, hnarrow _ (by decide) (by decide), hwide _ (by decide) (by decide)]

/-- The segments and the geometry as a header names them. -/
theorem readGeometry_named (bigEndian : Bool) (ftape : FtapeInfo) {address address' : ℕ → Byte}
    (h : checkSignature bigEndian address = some address') :
    readGeometry bigEndian (readSegmentRange bigEndian { ftape with formatCode := address' ftFmtCode } address')
        address' =
      { ftape with
        formatCode := address ftFmtCode
        headerSegment1 := int (namedHeader1 bigEndian address)
        headerSegment2 := int (namedHeader2 bigEndian address)
        firstDataSegment := int (namedFirst bigEndian address)
        lastDataSegment := int (namedLast bigEndian address)
        segmentsPerTrack := (readParameters bigEndian address).segmentsPerTrack
        tracksPerTape := (readParameters bigEndian address).tracksPerTape
        qicStd := standard bigEndian ftape address } := by
  obtain ⟨hcode, hheader1, hheader2, hfirst, hlast⟩ := named_checkSignature h
  rw [← hheader1, ← hheader2, ← hfirst, ← hlast, readGeometry, readParameters_checkSignature h, readSegmentRange,
    namedHeader1, namedHeader2, namedFirst, namedLast, standard, hcode]
  by_cases hbig : formatOf (address ftFmtCode) ≠ some .fmtBig
  · simp only [if_pos hbig, int_fetch_two]
  · simp only [if_neg hbig]

section Decode

variable {bigEndian : Bool} {windTime : ℕ} {ftape : FtapeInfo} {address address' : ℕ → Byte}

/-- A header of an unknown format is rejected with its segments and its counts in force. -/
theorem ftapeDecodeHeaderSegment_unknown (h : checkSignature bigEndian address = some address')
    (hfmt : formatOf (address ftFmtCode) = none) :
    ∃ ftape', ftapeDecodeHeaderSegment bigEndian windTime ftape address = some (ftape', .error .eio) ∧
      (ftape'.tapeGeometry = ftape.tapeGeometry ↔
        NamesRange bigEndian ftape address ∧ (readParameters bigEndian address).Counts ftape) := by
  rw [ftapeDecodeHeaderSegment, h]
  dsimp only
  rw [readGeometry_named bigEndian ftape h]
  dsimp only
  rw [hfmt]
  refine ⟨_, rfl, ?_⟩
  simp only [FtapeInfo.tapeGeometry, TapeGeometry.mk.injEq, Parameters.Counts, and_true]
  constructor
  · rintro ⟨hcode, hheader1, hheader2, hfirst, hlast, hsegments, htracks⟩
    exact ⟨⟨hcode, hheader1, hheader2, hfirst, hlast⟩, hsegments, htracks⟩
  · rintro ⟨hrange, hsegments, htracks⟩
    exact ⟨hrange.formatCode, hrange.headerSegment1, hrange.headerSegment2, hrange.firstDataSegment,
      hrange.lastDataSegment, hsegments, htracks⟩

/-- What is in force once the parameters of a header of a known format were tested. -/
def announced (bigEndian : Bool) (ftape : FtapeInfo) (address : ℕ → Byte) (tapeLen : ℕ) (timeout : Timeouts)
    (segmentsPerHead : ℕ) : FtapeInfo :=
  { ftape with
    formatCode := address ftFmtCode
    headerSegment1 := int (namedHeader1 bigEndian address)
    headerSegment2 := int (namedHeader2 bigEndian address)
    firstDataSegment := int (namedFirst bigEndian address)
    lastDataSegment := int (namedLast bigEndian address)
    segmentsPerTrack := (geometry bigEndian address).segmentsPerTrack
    tracksPerTape := (geometry bigEndian address).tracksPerTape
    segmentsPerHead := segmentsPerHead
    qicStd := standard bigEndian ftape address
    tapeLen := tapeLen
    timeout := timeout }

/-- A header of a known format comes down to the test of its parameters. -/
theorem ftapeDecodeHeaderSegment_verify {fmt : FormatCode} (htimeout : ftape.timeout.Reached)
    (h : checkSignature bigEndian address = some address') (hfmt : formatOf (address ftFmtCode) = some fmt) :
    ∃ tapeLen timeout,
      newTapeLen fmt (standard bigEndian ftape address) (readParameters bigEndian address).segmentsPerTrack
        ftape.tapeLen = some tapeLen ∧
      ftapeDecodeHeaderSegment bigEndian windTime ftape address =
        (geometry bigEndian address).verify.bind fun verified =>
          let ftape' := announced bigEndian ftape address tapeLen timeout verified.1
          if verified.2 then
            some ({ ftape' with bsm := ftapeExtractBadSectorMap { ftape.bsm with formatCode := fmt } address' }, .ok ())
          else some (ftape', .error .eio) := by
  obtain ⟨tapeLen, hlen, hshort⟩ := newTapeLen_eq_some fmt (standard bigEndian ftape address)
    (readParameters bigEndian address).segmentsPerTrack ftape.tapeLen
  rw [ftapeDecodeHeaderSegment, h]
  dsimp only
  rw [readGeometry_named bigEndian ftape h]
  simp only [announced, geometry]
  generalize int (namedHeader1 bigEndian address) = header1
  generalize int (namedHeader2 bigEndian address) = header2
  generalize int (namedFirst bigEndian address) = first
  generalize int (namedLast bigEndian address) = last
  generalize standard bigEndian ftape address = qicStd at hlen ⊢
  set ranged : FtapeInfo := { ftape with
    formatCode := address ftFmtCode
    headerSegment1 := header1
    headerSegment2 := header2
    firstDataSegment := first
    lastDataSegment := last
    segmentsPerTrack := (readParameters bigEndian address).segmentsPerTrack
    tracksPerTape := (readParameters bigEndian address).tracksPerTape
    qicStd := qicStd } with hranged
  obtain ⟨timeout, htimeouts⟩ := @newTimeouts_eq_some ranged htimeout windTime _ hshort
  have hnew : newTapeLen fmt ranged.qicStd ranged.segmentsPerTrack ranged.tapeLen = some tapeLen := hlen
  refine ⟨tapeLen, timeout, hlen, ?_⟩
  rw [hfmt]
  dsimp only
  simp only [verifyHeader, hnew, htimeouts, readParameters_checkSignature h, Option.bind_eq_bind, Option.bind_some]
  rfl

/-- A header of a known format is accepted if its parameters are consistent, and rejected with all it names in force
if they are not. -/
theorem ftapeDecodeHeaderSegment_known {fmt : FormatCode} (htimeout : ftape.timeout.Reached)
    (h : checkSignature bigEndian address = some address') (hfmt : formatOf (address ftFmtCode) = some fmt)
    (hsectors : ftSectorsPerSegment ≤ (geometry bigEndian address).maxFloppySector) :
    if (geometry bigEndian address).Consistent then
      ∃ ftape', ftapeDecodeHeaderSegment bigEndian windTime ftape address = some (ftape', .ok ())
    else
      ∃ ftape', ftapeDecodeHeaderSegment bigEndian windTime ftape address = some (ftape', .error .eio) ∧
        (ftape'.tapeGeometry = ftape.tapeGeometry ↔
          NamesRange bigEndian ftape address ∧ (geometry bigEndian address).Counts ftape ∧
            (geometry bigEndian address).heads = ftape.segmentsPerHead ∧
            newTapeLen fmt (standard bigEndian ftape address) (readParameters bigEndian address).segmentsPerTrack
              ftape.tapeLen = some ftape.tapeLen) := by
  have hrange : (geometry bigEndian address).InRange :=
    ((readParameters_inRange bigEndian address).orDefault _).compensate _
  obtain ⟨tapeLen, timeout, hlen, hdecode⟩ := @ftapeDecodeHeaderSegment_verify _ windTime _ _ _ _ htimeout h hfmt
  rw [hrange.verify_eq hsectors, Option.bind_some] at hdecode
  by_cases hconsistent : (geometry bigEndian address).Consistent
  · rw [if_pos hconsistent, hdecode, decide_eq_true hconsistent]
    exact ⟨_, rfl⟩
  · rw [if_neg hconsistent, hdecode, decide_eq_false hconsistent]
    refine ⟨_, rfl, ?_⟩
    rw [hlen, Option.some.injEq]
    simp only [FtapeInfo.tapeGeometry, announced, TapeGeometry.mk.injEq, Parameters.Counts]
    constructor
    · rintro ⟨hcode, hheader1, hheader2, hfirst, hlast, hsegments, htracks, hheads, hlength⟩
      exact ⟨⟨hcode, hheader1, hheader2, hfirst, hlast⟩, ⟨hsegments, htracks⟩, hheads, hlength⟩
    · rintro ⟨hnames, ⟨hsegments, htracks⟩, hheads, hlength⟩
      exact ⟨hnames.formatCode, hnames.headerSegment1, hnames.headerSegment2, hnames.firstDataSegment,
        hnames.lastDataSegment, hsegments, htracks, hheads, hlength⟩

/-- With few sectors on a floppy track decoding divides by zero. -/
theorem ftapeDecodeHeaderSegment_few_sectors {fmt : FormatCode} (htimeout : ftape.timeout.Reached)
    (h : checkSignature bigEndian address = some address') (hfmt : formatOf (address ftFmtCode) = some fmt)
    (hsectors : (geometry bigEndian address).maxFloppySector < ftSectorsPerSegment) :
    ftapeDecodeHeaderSegment bigEndian windTime ftape address = none := by
  obtain ⟨tapeLen, timeout, -, hdecode⟩ := @ftapeDecodeHeaderSegment_verify _ windTime _ _ _ _ htimeout h hfmt
  have hnone : (geometry bigEndian address).verify = none := by
    rw [← Option.not_isSome_iff_eq_none, Parameters.verify_isSome]
    omega
  rw [hdecode, hnone, Option.bind_none]

/-- Decoding a header keeps the geometry in force whenever it returns an error exactly if the header has a wrong
signature, or names nothing else, or is not rejected. -/
theorem ftapeDecodeHeaderSegment_error_unchanged_iff (bigEndian : Bool) (windTime : ℕ) {ftape : FtapeInfo}
    (htimeout : ftape.timeout.Reached) (address : ℕ → Byte) :
    (∀ ftape' e, ftapeDecodeHeaderSegment bigEndian windTime ftape address = some (ftape', .error e) →
      ftape'.tapeGeometry = ftape.tapeGeometry) ↔ KeepsGeometry bigEndian ftape address := by
  rw [KeepsGeometry, ← checkSignature_eq_none_iff]
  cases h : checkSignature bigEndian address with
  | none =>
    refine iff_of_true ?_ (Or.inl rfl)
    intro ftape' e hdecode
    rw [ftapeDecodeHeaderSegment, h] at hdecode
    obtain ⟨rfl, -⟩ := Prod.mk.inj (Option.some.inj hdecode)
    rfl
  | some address' =>
    rw [or_iff_right (Option.some_ne_none address')]
    cases hfmt : formatOf (address ftFmtCode) with
    | none =>
      obtain ⟨ftape', hdecode, hkeeps⟩ := @ftapeDecodeHeaderSegment_unknown _ windTime ftape _ _ h hfmt
      rw [hdecode]
      dsimp only
      rw [← hkeeps]
      constructor
      · intro hall
        exact hall ftape' .eio rfl
      · intro hsame _ _ hout
        obtain ⟨rfl, -⟩ := Prod.mk.inj (Option.some.inj hout)
        exact hsame
    | some fmt =>
      dsimp only
      rcases Nat.lt_or_ge (geometry bigEndian address).maxFloppySector ftSectorsPerSegment with hfew | hsectors
      · rw [ftapeDecodeHeaderSegment_few_sectors htimeout h hfmt hfew]
        refine iff_of_true ?_ (Or.inr (Or.inl hfew))
        intro _ _ hout
        cases hout
      · rw [or_iff_right (not_lt.mpr hsectors)]
        have houtcome := @ftapeDecodeHeaderSegment_known _ windTime _ _ _ _ htimeout h hfmt hsectors
        by_cases hconsistent : (geometry bigEndian address).Consistent
        · rw [if_pos hconsistent] at houtcome
          obtain ⟨ftape', hdecode⟩ := houtcome
          rw [hdecode]
          refine iff_of_true ?_ (Or.inl hconsistent)
          intro _ _ hout
          cases hout
        · rw [if_neg hconsistent] at houtcome
          obtain ⟨ftape', hdecode, hkeeps⟩ := houtcome
          rw [hdecode, or_iff_right hconsistent, ← hkeeps]
          constructor
          · intro hall
            exact hall ftape' .eio rfl
          · intro hsame _ _ hout
            obtain ⟨rfl, -⟩ := Prod.mk.inj (Option.some.inj hout)
            exact hsame

end Decode

/-- The header of a QIC-80 cartridge with a damaged number of sides. -/
def damagedHeader : ℕ → Byte := Function.update qic80Header ftFhm 200

deriving instance DecidableEq for Timeouts

/-- The driver once the damaged header was read. -/
def damagedInForce : FtapeInfo :=
  ((ftapeDecodeHeaderSegment false 0 ftapeInitDriver damagedHeader).map (·.1)).getD ftapeInitDriver

/-- The damaged header is rejected again when it is read once more, and this time it names what is in force already. -/
theorem ftapeDecodeHeaderSegment_error_unchanged_again :
    (ftapeDecodeHeaderSegment false 0 damagedInForce damagedHeader).map (fun out => out.2.isOk) = some false ∧
      ∀ ftape' e, ftapeDecodeHeaderSegment false 0 damagedInForce damagedHeader = some (ftape', .error e) →
        ftape'.tapeGeometry = damagedInForce.tapeGeometry := by
  have htimeout : damagedInForce.timeout.Reached :=
    .calculated reached_ftapeInitDriver (Or.inl (show 205 < 0x1000000 by decide))
      (show ftapeCalcTimeouts 0 ftapeInitDriver.timeout .qicUnknown 500 205 = some damagedInForce.timeout by
        decide +kernel)
  have hnames : NamesRange false damagedInForce damagedHeader :=
    ⟨by decide +kernel, by decide +kernel, by decide +kernel, by decide +kernel, by decide +kernel⟩
  have hkeeps : KeepsGeometry false damagedInForce damagedHeader :=
    .inr (.inr (.inr ⟨hnames, ⟨by decide +kernel, by decide +kernel⟩, by decide +kernel, by decide +kernel⟩))
  exact ⟨by decide +kernel, (ftapeDecodeHeaderSegment_error_unchanged_iff false 0 htimeout _).mpr hkeeps⟩

/-- The damaged header is rejected, and its segments per track are in force. -/
theorem ftapeDecodeHeaderSegment_error_changed :
    ¬ ∀ ftape' e, ftapeDecodeHeaderSegment false 0 ftapeInitDriver damagedHeader = some (ftape', .error e) →
      ftape'.tapeGeometry = ftapeInitDriver.tapeGeometry := by
  intro hkeeps
  have hsegments : (ftapeDecodeHeaderSegment false 0 ftapeInitDriver damagedHeader).map
      (fun out => (out.1.segmentsPerTrack, out.2.isOk)) = some (100, false) := by decide +kernel
  obtain ⟨⟨ftape', outcome⟩, hdecode, hout⟩ := Option.map_eq_some_iff.mp hsegments
  obtain ⟨htrack, hok⟩ := Prod.mk.inj hout
  cases outcome with
  | ok _ => cases hok
  | error e =>
    have hsame := congrArg TapeGeometry.segmentsPerTrack (hkeeps ftape' e hdecode)
    have hread : ftape'.segmentsPerTrack = 102 := hsame
    dsimp only at htrack
    omega

end Ftape.Header
