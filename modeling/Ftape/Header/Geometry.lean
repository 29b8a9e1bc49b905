import Ftape.Header.Acceptance

/-!
# Floppy coordinates

A tape looks like a floppy disk to the controller. The driver maps segments to heads, cylinders and
sectors when it sets up a transfer and again when it formats a track, and maps the ids that pass under
the head back to segments.
-/

namespace Ftape.Header

open Ftape.Algebra Ftape.Write

/-- `ft_format_sector`, the id of a sector on tape. -/
structure FormatSector where
  cyl : Byte
  head : Byte
  sect : Byte
  size : Byte
deriving DecidableEq

/-- `FT_FMT_SEGS_PER_BUF`, the ids of so many segments fit into a buffer. -/
def ftFmtSegsPerBuf : ℕ := ftBuffSize / (4 * ftSectorsPerSegment)

/-- The floppy coordinates of a segment as `setup_segment()` calculates them, before they are stored
in bytes. -/
structure SegmentCoordinates where
  head : ℕ
  cyl : ℕ
  sect : ℕ

/-- The part of `setup_segment()` that sets the floppy coordinates of the first sector. -/
def setupCoordinates (ftape : FtapeInfo) (segmentId : ℕ) : SegmentCoordinates where
  head := segmentId / ftape.segmentsPerHead
  cyl := segmentId % ftape.segmentsPerHead / segmentsPerCylinder
  sect := segmentId % segmentsPerCylinder * ftSectorsPerSegment + 1

/-- The ids that `fill_format_buffer()` makes up for a segment. The first one is copied and counted
up. -/
def formatSegment (ftape : FtapeInfo) (seg : ℕ) : List FormatSector :=
  let first : FormatSector :=
    { cyl := BitVec.ofNat 8 (seg % ftape.segmentsPerHead / segmentsPerCylinder)
      head := BitVec.ofNat 8 (seg / ftape.segmentsPerHead)
      sect := BitVec.ofNat 8 (seg % segmentsPerCylinder * ftSectorsPerSegment + 1)
      size := 3 }
  (List.range ftSectorsPerSegment).map fun i => { first with sect := first.sect + BitVec.ofNat 8 i }

/-- `fill_format_buffer()`. -/
def fillFormatBuffer (ftape : FtapeInfo) (start todo : ℕ) : List (List FormatSector) :=
  (List.range' start todo).map (formatSegment ftape)

/-- The buffers that `ftape_format_track()` and `ftape_format_status()` hand to the controller for a
track with `setup_format_buffer()`, one after the other, from a segment of the track on. -/
def formatBuffers (ftape : FtapeInfo) (track : ℕ) : ℕ → ℕ → List (List FormatSector)
  | 0, _ => []
  | rounds + 1, start =>
    let todo := min (ftape.segmentsPerTrack - start) ftFmtSegsPerBuf
    fillFormatBuffer ftape (track * ftape.segmentsPerTrack + start) todo ++
      if ftape.segmentsPerTrack ≤ start + todo then []
      else formatBuffers ftape track rounds (start + todo)

/-- The ids that `ftape_format_track()` puts on a track. Every buffer takes a segment or more, which
bounds the rounds. -/
def formatTrack (ftape : FtapeInfo) (track : ℕ) : List (List FormatSector) :=
  formatBuffers ftape track (ftape.segmentsPerTrack + 1) 0

/-- The segment and the sector that `ftape_read_id()` finds for an id. -/
def ftapeReadId (ftape : FtapeInfo) (cyl head sect : Byte) : Option (ℕ × ℕ) :=
  if sect = 0 then none
  else some (ftape.segmentsPerHead * head.toNat + segmentsPerCylinder * cyl.toNat +
    (sect.toNat - 1) / ftSectorsPerSegment, (sect.toNat - 1) % ftSectorsPerSegment)

/-- The buffers of a track have the ids of its segments, in order. -/
theorem formatBuffers_eq (ftape : FtapeInfo) (track : ℕ) {rounds start : ℕ}
    (hrounds : ftape.segmentsPerTrack - start < rounds) :
    formatBuffers ftape track rounds start =
      (List.range' (track * ftape.segmentsPerTrack + start) (ftape.segmentsPerTrack - start)).map
        (formatSegment ftape) := by
  induction rounds generalizing start with
  | zero => exact absurd hrounds (Nat.not_lt_zero _)
  | succ rounds ih =>
    have hbuf : 0 < ftFmtSegsPerBuf := by decide
    rw [formatBuffers, fillFormatBuffer]
    generalize htodo : min (ftape.segmentsPerTrack - start) ftFmtSegsPerBuf = todo
    by_cases hend : ftape.segmentsPerTrack ≤ start + todo
    · have hall : todo = ftape.segmentsPerTrack - start := by omega
      rw [if_pos hend, List.append_nil, hall]
    · have hsplit : ftape.segmentsPerTrack - start = todo + (ftape.segmentsPerTrack - (start + todo)) := by
        omega
      rw [if_neg hend, ih (by omega), hsplit, ← List.map_append, ← Nat.add_assoc, ← List.range'_append_1]

/-- A track has the ids of its segments, in order. -/
theorem formatTrack_eq (ftape : FtapeInfo) (track : ℕ) :
    formatTrack ftape track =
      (List.range' (track * ftape.segmentsPerTrack) ftape.segmentsPerTrack).map (formatSegment ftape) := by
  rw [formatTrack, formatBuffers_eq ftape track (by omega), Nat.add_zero, Nat.sub_zero]

/-- The ids of a segment are found on its track. -/
theorem formatTrack_getElem? (ftape : FtapeInfo) {segment : ℕ} (hpos : 0 < ftape.segmentsPerTrack) :
    (formatTrack ftape (segment / ftape.segmentsPerTrack))[segment % ftape.segmentsPerTrack]? =
      some (formatSegment ftape segment) := by
  have hlt := Nat.mod_lt segment hpos
  rw [formatTrack_eq, List.getElem?_map, List.getElem?_range' hlt, Option.map_some, one_mul,
    Nat.div_add_mod']

/-- A cylinder and the position in it make up the position in a head. -/
theorem segment_of_coordinates (segmentsPerHead segment : ℕ) (hdvd : segmentsPerCylinder ∣ segmentsPerHead) :
    segmentsPerHead * (segment / segmentsPerHead) +
      segmentsPerCylinder * (segment % segmentsPerHead / segmentsPerCylinder) +
      segment % segmentsPerCylinder = segment := by
  have hcylinder : segment % segmentsPerHead % segmentsPerCylinder = segment % segmentsPerCylinder :=
    Nat.mod_mod_of_dvd segment hdvd
  calc segmentsPerHead * (segment / segmentsPerHead) +
        segmentsPerCylinder * (segment % segmentsPerHead / segmentsPerCylinder) +
        segment % segmentsPerCylinder
      = segmentsPerHead * (segment / segmentsPerHead) +
        (segmentsPerCylinder * (segment % segmentsPerHead / segmentsPerCylinder) +
          segment % segmentsPerHead % segmentsPerCylinder) := by rw [hcylinder, Nat.add_assoc]
    _ = segmentsPerHead * (segment / segmentsPerHead) + segment % segmentsPerHead := by
        rw [Nat.div_add_mod]
    _ = segment := Nat.div_add_mod segment segmentsPerHead

/-- What the geometry of an accepted header is good for: the coordinates of its segments fit into
bytes. -/
theorem Accepted.coordinates {bigEndian : Bool} {address : ℕ → Byte} {ftape : FtapeInfo}
    (h : Accepted bigEndian address ftape) {segment : ℕ}
    (hsegment : segment < ftape.segmentsPerTrack * ftape.tracksPerTape) {sector : ℕ}
    (hsector : sector < ftSectorsPerSegment) :
    (setupCoordinates ftape segment).head < 0x100 ∧ (setupCoordinates ftape segment).cyl < 0x100 ∧
      (setupCoordinates ftape segment).sect + sector < 0x100 := by
  have hrange : (geometry bigEndian address).InRange :=
    ((readParameters_inRange bigEndian address).orDefault _).compensate _
  obtain ⟨hhead, -, hside⟩ := hrange.of_verify h.verified
  rw [← h.segmentsPerTrack, ← h.tracksPerTape] at hside
  have htrack := hrange.maxFloppyTrack
  have hle : segment / ftape.segmentsPerHead ≤
      (ftape.segmentsPerTrack * ftape.tracksPerTape - 1) / ftape.segmentsPerHead :=
    Nat.div_le_div_right (by omega)
  have hmod : segment % ftape.segmentsPerHead <
      segmentsPerCylinder * ((geometry bigEndian address).maxFloppyTrack + 1) := by
    rw [← hhead]
    exact Nat.mod_lt _ (by rw [hhead, segmentsPerCylinder]; omega)
  refine ⟨lt_of_le_of_lt hle hside, ?_, ?_⟩
  · have hcyl := Nat.div_lt_of_lt_mul hmod
    rw [setupCoordinates]
    dsimp only
    omega
  · have hcylinder : segment % segmentsPerCylinder < 4 := Nat.mod_lt _ (by decide)
    simp only [setupCoordinates, ftSectorsPerSegment] at hsector ⊢
    omega

/-- The ids on tape are the coordinates of the transfer that looks for them. -/
theorem formatSegment_getElem? (ftape : FtapeInfo) (segment : ℕ) {sector : ℕ}
    (hsector : sector < ftSectorsPerSegment) :
    (formatSegment ftape segment)[sector]? = some
      { cyl := BitVec.ofNat 8 (setupCoordinates ftape segment).cyl
        head := BitVec.ofNat 8 (setupCoordinates ftape segment).head
        sect := BitVec.ofNat 8 ((setupCoordinates ftape segment).sect + sector)
        size := 3 } := by
  rw [formatSegment, List.getElem?_map, List.getElem?_range hsector, Option.map_some,
    BitVec.ofNat_add _ sector]
  rfl

/-- The id of a sector is mapped back to its segment. -/
theorem ftapeReadId_setupCoordinates (ftape : FtapeInfo)
    (hdvd : segmentsPerCylinder ∣ ftape.segmentsPerHead) {segment sector : ℕ}
    (hsector : sector < ftSectorsPerSegment)
    (hhead : (setupCoordinates ftape segment).head < 0x100)
    (hcyl : (setupCoordinates ftape segment).cyl < 0x100)
    (hsect : (setupCoordinates ftape segment).sect + sector < 0x100) :
    ftapeReadId ftape (BitVec.ofNat 8 (setupCoordinates ftape segment).cyl)
      (BitVec.ofNat 8 (setupCoordinates ftape segment).head)
      (BitVec.ofNat 8 ((setupCoordinates ftape segment).sect + sector)) = some (segment, sector) := by
  have hbyte : ∀ value < 0x100, (BitVec.ofNat 8 value).toNat = value := by
    intro value hlt
    rw [BitVec.toNat_ofNat]
    exact Nat.mod_eq_of_lt hlt
  have hnonzero : BitVec.ofNat 8 ((setupCoordinates ftape segment).sect + sector) ≠ 0 := by
    intro hzero
    have hvalue := congrArg BitVec.toNat hzero
    rw [hbyte _ hsect] at hvalue
    simp [setupCoordinates] at hvalue
  have hpred : (setupCoordinates ftape segment).sect + sector - 1 =
      sector + segment % segmentsPerCylinder * ftSectorsPerSegment := by
    rw [setupCoordinates]
    dsimp only
    omega
  rw [ftapeReadId, if_neg hnonzero, hbyte _ hhead, hbyte _ hcyl, hbyte _ hsect, hpred,
    Nat.add_mul_div_right _ _ (by decide), Nat.div_eq_of_lt hsector, Nat.zero_add,
    Nat.add_mul_mod_self_right, Nat.mod_eq_of_lt hsector]
  rw [setupCoordinates]
  dsimp only
  rw [segment_of_coordinates _ _ hdvd]

/-- The three places that map segments to floppy coordinates and back agree for every accepted
header. -/
theorem ftapeDecodeHeaderSegment_coordinates {bigEndian : Bool} {windTime : ℕ}
    {ftape ftape' : FtapeInfo} {address : ℕ → Byte}
    (h : ftapeDecodeHeaderSegment bigEndian windTime ftape address = some (ftape', .ok ()))
    {segment sector : ℕ} (hsegment : segment < ftape'.segmentsPerTrack * ftape'.tracksPerTape)
    (hsector : sector < ftSectorsPerSegment) :
    ∃ id : FormatSector,
      (setupCoordinates ftape' segment).head = id.head.toNat ∧
      (setupCoordinates ftape' segment).cyl = id.cyl.toNat ∧
      (setupCoordinates ftape' segment).sect + sector = id.sect.toNat ∧
      segment / ftape'.segmentsPerTrack < ftape'.tracksPerTape ∧
      ((formatTrack ftape' (segment / ftape'.segmentsPerTrack))[segment % ftape'.segmentsPerTrack]?.bind
        fun ids => ids[sector]?) = some id ∧
      ftapeReadId ftape' id.cyl id.head id.sect = some (segment, sector) := by
  have haccepted := (ftapeDecodeHeaderSegment_ok h).1
  obtain ⟨hhead, hcyl, hsect⟩ := haccepted.coordinates hsegment hsector
  have hrange : (geometry bigEndian address).InRange :=
    ((readParameters_inRange bigEndian address).orDefault _).compensate _
  have hdvd : segmentsPerCylinder ∣ ftape'.segmentsPerHead :=
    ⟨_, (hrange.of_verify haccepted.verified).1⟩
  have hpos : 0 < ftape'.segmentsPerTrack := Nat.pos_of_mul_pos_right (Nat.zero_lt_of_lt hsegment)
  have hbyte : ∀ value < 0x100, value = (BitVec.ofNat 8 value).toNat := by
    intro value hlt
    rw [BitVec.toNat_ofNat]
    exact (Nat.mod_eq_of_lt hlt).symm
  refine ⟨⟨BitVec.ofNat 8 (setupCoordinates ftape' segment).cyl,
    BitVec.ofNat 8 (setupCoordinates ftape' segment).head,
    BitVec.ofNat 8 ((setupCoordinates ftape' segment).sect + sector), 3⟩,
    hbyte _ hhead, hbyte _ hcyl, hbyte _ hsect, Nat.div_lt_of_lt_mul hsegment, ?_,
    ftapeReadId_setupCoordinates ftape' hdvd hsector hhead hcyl hsect⟩
  rw [formatTrack_getElem? ftape' hpos, Option.bind_some, formatSegment_getElem? ftape' segment hsector]

/-- The last sector of a QIC-80 cartridge of 205 feet. -/
theorem ftapeDecodeHeaderSegment_coordinates_qic80 :
    ∃ ftape', ftapeDecodeHeaderSegment false 0 ftapeInitDriver qic80Header = some (ftape', .ok ()) ∧
      ∃ id : FormatSector, (setupCoordinates ftape' 2799).head = id.head.toNat ∧
        ftapeReadId ftape' id.cyl id.head id.sect = some (2799, 31) := by
  have haccept : ∃ ftape',
      ftapeDecodeHeaderSegment false 0 ftapeInitDriver qic80Header = some (ftape', .ok ()) ∧
        ftape'.segmentsPerTrack * ftape'.tracksPerTape = 2800 :=
    ⟨_, rfl, rfl⟩
  obtain ⟨ftape', haccept, hsegments⟩ := haccept
  obtain ⟨id, hhead, -, -, -, -, hread⟩ := ftapeDecodeHeaderSegment_coordinates haccept
    (show 2799 < _ by omega) (show 31 < ftSectorsPerSegment by decide)
  exact ⟨ftape', haccept, id, hhead, hread⟩

end Ftape.Header
