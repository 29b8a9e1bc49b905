import Ftape.Algebra.RemainderPolynomial
import Ftape.Ecc.RoundTrip
import Mathlib.Data.Int.Bitwise

/-!
# Segments of a tape image

The script that makes blank tape images computes parities on its own: it derives a table of products from the
field polynomial, and runs the feedback register over one column of bytes at a time. Both implementations
compute the same parities, and so the remainder of the column modulo the generator of the code.
-/

namespace Ftape.Ecc

open Ftape.Algebra

/-- `ECC_POLY`. -/
def eccPoly : ℕ := 0x187

/-- `ECC_FACTOR`. -/
def eccFactor : ℕ := 0xc0

/-- `DATA_SECTORS`. -/
def dataSectors : ℕ := 29

/-- The first loop of `ecc_table()`, which fills in the powers of two below a bound of rounds. -/
def tablePowers : ℕ → ℕ → ℕ → List ℕ → List ℕ
  | 0, _, _, tab => tab
  | rounds + 1, v, bit, tab =>
    if bit < 0x100 then
      let tab := tab.set bit (v &&& 0xff)
      let v := v <<< 1
      tablePowers rounds (if v &&& 0x100 ≠ 0 then v ^^^ eccPoly else v) (bit <<< 1) tab
    else tab

/-- `i & (~i + 1)`, the lowest bit of a number. -/
def lowBit (i : ℕ) : ℕ := (Int.land i (~~~(i : ℤ) + 1)).toNat

/-- One round of the second loop of `ecc_table()`. -/
def tableSum (tab : List ℕ) (i : ℕ) : List ℕ :=
  if i ≠ lowBit i then tab.set i (tab.getD (lowBit i) 0 ^^^ tab.getD (i ^^^ lowBit i) 0) else tab

/-- `ecc_table()`. -/
def eccTable : List ℕ :=
  (List.range' 3 0xfd).foldl tableSum (tablePowers 9 eccFactor 1 (List.replicate 0x100 0))

/-- One round of the loop of `ecc_parity_for_column()`. -/
def parityRound (tab : List ℕ) (p : Register Byte) (m : Byte) : Register Byte :=
  let t1 := m ^^^ p.p0
  let t2 := BitVec.ofNat 8 (tab.getD t1.toNat 0)
  ⟨t2 ^^^ p.p1, t2 ^^^ p.p2, t1⟩

/-- `ecc_parity_for_column()`. -/
def eccParityForColumn (column : List Byte) (tab : List ℕ) : Register Byte :=
  column.foldl (parityRound tab) ⟨0, 0, 0⟩

/-- The slice `data[col::SECTOR_SIZE]`. -/
def columnSlice (data : List Byte) (col : ℕ) : List Byte :=
  (List.range ((data.length - col + (ftSectorSize - 1)) / ftSectorSize)).map fun i =>
    data.getD (col + i * ftSectorSize) 0

/-- One of the parity sectors of `build_segment()`. -/
def paritySector (data : List Byte) (tab : List ℕ) (byte : Register Byte → Byte) : List Byte :=
  (List.range ftSectorSize).map fun col => byte (eccParityForColumn (columnSlice data col) tab)

/-- `build_segment()`. `none` stands for the error it raises. -/
def buildSegment (data : List Byte) (tab : List ℕ) : Option (List Byte) :=
  if data.length ≠ dataSectors * ftSectorSize then none
  else some (data ++ paritySector data tab (·.p0) ++ paritySector data tab (·.p1) ++
    paritySector data tab (·.p2))

/-- The script derives the table that the driver has as a literal. -/
theorem eccTable_eq : eccTable = gfmulC0Table := by decide +kernel

/-- The bytes of a register of field elements. -/
def Register.bytes (p : Register Gf) : Register Byte := ⟨p.p0.byte, p.p1.byte, p.p2.byte⟩

/-- The bytes of a register determine it. -/
theorem Register.bytes_injective : Function.Injective Register.bytes := by
  intro p q h
  obtain ⟨h0, h1, h2⟩ := (Register.mk.injEq ..).mp h
  exact Register.ext (congrArg Gf.mk h0) (congrArg Gf.mk h1) (congrArg Gf.mk h2)

/-- A round of the script is a shift of the register. -/
theorem parityRound_eq (p : Register Gf) (m : Gf) :
    parityRound eccTable (Register.bytes p) m.byte = Register.bytes (p.step (feedback rootR) m) := by
  have hproduct : feedback rootR * (m + p.p0) = ⟨gfmulC0 (m.byte ^^^ p.p0.byte)⟩ :=
    (gf_gfmulC0 (m.byte ^^^ p.p0.byte)).symm
  rw [parityRound, eccTable_eq, Register.step, hproduct]
  rfl

/-- The script computes what the register holds after a column. -/
theorem eccParityForColumn_eq (m : ℕ → Gf) (n : ℕ) :
    eccParityForColumn ((List.range n).map fun i => (m i).byte) eccTable =
      Register.bytes (Register.run (feedback rootR) m n) := by
  induction n with
  | zero => rfl
  | succ n ih =>
    rw [eccParityForColumn, List.range_succ, List.map_append, List.foldl_append]
    rw [eccParityForColumn] at ih
    rw [ih]
    exact parityRound_eq (Register.run (feedback rootR) m n) (m n)

section Segment

variable {data : List Byte}

/-- A column of a segment has as many bytes as there are data sectors. -/
theorem columnSlice_eq (hlength : data.length = dataSectors * ftSectorSize) {col : ℕ} (hcol : col < ftSectorSize) :
    columnSlice data col = (List.range dataSectors).map fun i => data.getD (col + i * ftSectorSize) 0 := by
  have hrows : (data.length - col + (ftSectorSize - 1)) / ftSectorSize = dataSectors := by
    rw [hlength, dataSectors, ftSectorSize]
    rw [ftSectorSize] at hcol
    omega
  rw [columnSlice, hrows]

/-- The length of a parity sector. -/
@[simp] theorem length_paritySector (tab : List ℕ) (byte : Register Byte → Byte) :
    (paritySector data tab byte).length = ftSectorSize := by
  rw [paritySector, List.length_map, List.length_range]

/-- The bytes of a parity sector. -/
theorem paritySector_getD (tab : List ℕ) (byte : Register Byte → Byte) {col : ℕ} (hcol : col < ftSectorSize) :
    (paritySector data tab byte).getD col 0 = byte (eccParityForColumn (columnSlice data col) tab) := by
  rw [paritySector, List.getD_eq_getElem?_getD, List.getElem?_map, List.getElem?_range hcol]
  rfl

/-- The data of a segment that was built. -/
theorem buildSegment_data (hlength : data.length = dataSectors * ftSectorSize) {segment : List Byte} {tab : List ℕ}
    (hbuild : buildSegment data tab = some segment) {k : ℕ} (hk : k < dataSectors * ftSectorSize) :
    segment.getD k 0 = data.getD k 0 := by
  rw [buildSegment, if_neg (not_not_intro hlength), Option.some.injEq] at hbuild
  subst hbuild
  rw [List.append_assoc, List.append_assoc, List.getD_append _ _ _ _ (hlength ▸ hk)]

/-- The parities of a segment that was built. -/
theorem buildSegment_parity (hlength : data.length = dataSectors * ftSectorSize) {segment : List Byte}
    {tab : List ℕ} (hbuild : buildSegment data tab = some segment) {col : ℕ} (hcol : col < ftSectorSize) :
    (⟨segment.getD (col + dataSectors * ftSectorSize) 0, segment.getD (col + (dataSectors + 1) * ftSectorSize) 0,
      segment.getD (col + (dataSectors + 2) * ftSectorSize) 0⟩ : Register Byte) =
      eccParityForColumn (columnSlice data col) tab := by
  rw [buildSegment, if_neg (not_not_intro hlength), Option.some.injEq] at hbuild
  subst hbuild
  have hfirst : (data ++ paritySector data tab (·.p0)).length = (dataSectors + 1) * ftSectorSize := by
    rw [List.length_append, hlength, length_paritySector, Nat.succ_mul]
  have hsecond : (data ++ paritySector data tab (·.p0) ++ paritySector data tab (·.p1)).length =
      (dataSectors + 2) * ftSectorSize := by
    rw [List.length_append, hfirst, length_paritySector, ← Nat.succ_mul]
  have hnext (n : ℕ) : (n + 1) * ftSectorSize = n * ftSectorSize + ftSectorSize := Nat.succ_mul n _
  have hlow : (data ++ paritySector data tab (·.p0) ++ paritySector data tab (·.p1) ++
      paritySector data tab (·.p2)).getD (col + dataSectors * ftSectorSize) 0 =
      (paritySector data tab (·.p0)).getD col 0 := by
    rw [List.getD_append _ _ _ _ (by rw [hsecond, hnext, hnext]; omega),
      List.getD_append _ _ _ _ (by rw [hfirst, hnext]; omega),
      List.getD_append_right _ _ _ _ (by omega), hlength, Nat.add_sub_cancel]
  have hmid : (data ++ paritySector data tab (·.p0) ++ paritySector data tab (·.p1) ++
      paritySector data tab (·.p2)).getD (col + (dataSectors + 1) * ftSectorSize) 0 =
      (paritySector data tab (·.p1)).getD col 0 := by
    rw [List.getD_append _ _ _ _ (by rw [hsecond, hnext (dataSectors + 1)]; omega),
      List.getD_append_right _ _ _ _ (by omega), hfirst, Nat.add_sub_cancel]
  have hhigh : (data ++ paritySector data tab (·.p0) ++ paritySector data tab (·.p1) ++
      paritySector data tab (·.p2)).getD (col + (dataSectors + 2) * ftSectorSize) 0 =
      (paritySector data tab (·.p2)).getD col 0 := by
    rw [List.getD_append_right _ _ _ _ (by omega), hsecond, Nat.add_sub_cancel]
  rw [hlow, hmid, hhigh, paritySector_getD _ _ hcol, paritySector_getD _ _ hcol, paritySector_getD _ _ hcol]

/-- The columns of a segment that was built, as field elements, are codewords. -/
theorem buildSegment_isCodeword (hlength : data.length = dataSectors * ftSectorSize) {segment : List Byte}
    (hbuild : buildSegment data eccTable = some segment) {col : ℕ} (hcol : col < ftSectorSize) :
    IsCodeword rootR (dataSectors + 3) (column (segment.getD · 0) col) := by
  have hdata : ∀ i < dataSectors, column (segment.getD · 0) col i = column (data.getD · 0) col i := by
    intro i hi
    rw [column, column, buildSegment_data hlength hbuild (column_lt hcol hi)]
  have hparity := buildSegment_parity hlength hbuild hcol
  rw [columnSlice_eq hlength hcol] at hparity
  have hrun := eccParityForColumn_eq (column (data.getD · 0) col) dataSectors
  apply isCodeword_of_parity hdata
  apply Register.bytes_injective
  exact hparity.trans hrun

end Segment

/-- The registers that run in one lane of the parity words. -/
def laneRegister {t : Target} (p : Register (Word t)) (i : ℕ) : Register Gf :=
  ⟨gfLane p.p0 i, gfLane p.p1 i, gfLane p.p2 i⟩

/-- The three computations of a parity agree, for any number of sectors and any data: a lane of the words runs
the scalar register, which holds the remainder modulo the generator, and the script finds the same bytes. So
the segment that the script builds is the one that the driver encodes. -/
theorem parity_implementations_agree (t : Target) :
    (∀ (data : ℕ → Byte) (off nblocks : ℕ), ∀ i < t.longSize,
      let m := column data (off + t.laneByte i)
      let p := laneRegister (setParity t data off nblocks) i
      p = Register.run (feedback rootR) m nblocks ∧
        generatorPolynomial rootR ∣ Polynomial.X ^ nblocks * p.polynomial - messagePolynomial nblocks m ∧
        Register.bytes p = eccParityForColumn
          ((List.range nblocks).map fun k => data (off + t.laneByte i + k * ftSectorSize)) eccTable) ∧
    ∀ (mseg : MemorySegment) (data : List Byte), mseg.blocks = ftSectorsPerSegment →
      data.length = dataSectors * ftSectorSize →
      (∀ k < dataSectors * ftSectorSize, mseg.data k = data.getD k 0) →
      ∃ segment, buildSegment data eccTable = some segment ∧
        ∀ k < ftSectorsPerSegment * ftSectorSize,
          (ftapeEccSetSegmentParity t mseg).data k = segment.getD k 0 := by
  constructor
  · intro data off nblocks i hi m p
    have hrun : p = Register.run (feedback rootR) m nblocks := setParity_lane t data off nblocks hi
    refine ⟨hrun, ?_, ?_⟩
    · rw [hrun]
      exact Register.generatorPolynomial_dvd_run rootR_ne_zero roots_injective m nblocks
    · rw [hrun]
      exact (eccParityForColumn_eq m nblocks).symm
  · intro mseg data hblocks hlength hdata
    have hbuild : ∃ segment, buildSegment data eccTable = some segment :=
      ⟨_, if_neg (not_not_intro hlength)⟩
    obtain ⟨segment, hbuild⟩ := hbuild
    refine ⟨segment, hbuild, fun k hk => ?_⟩
    obtain ⟨x, hx, i, rfl⟩ := exists_column k
    have hi : i < mseg.blocks := by
      rw [hblocks]
      exact Nat.lt_of_mul_lt_mul_right ((Nat.le_add_left _ x).trans_lt hk)
    obtain ⟨hcode, hkeep⟩ := setSegmentParity_column t mseg hx
    have hscript : IsCodeword rootR mseg.blocks (column (segment.getD · 0) x) := by
      rw [hblocks]
      exact buildSegment_isCodeword hlength hbuild hx
    -- two codewords that agree on the data sectors agree on the parities too
    have hsame := hcode.eq_of_near hscript rootR_ne_zero (locators_injOn mseg.blocks_le)
      (T := {29, 30, 31}) (by decide) (fun j hj hnot => ?_) i hi
    · exact (Gf.mk.injEq _ _).mp hsame
    · have hlow : j < dataSectors := by
        rw [hblocks, ftSectorsPerSegment] at hj
        simp only [Finset.mem_insert, Finset.mem_singleton] at hnot
        unfold dataSectors
        omega
      have hlt : x + j * ftSectorSize < dataSectors * ftSectorSize := column_lt hx hlow
      rw [hkeep j (Or.inl (by rw [hblocks]; exact hlow)), column, column, hdata _ hlt,
        buildSegment_data hlength hbuild hlt]

/-- Bytes that count the place in the sector on from the number of the sector. -/
def countedByte (k : ℕ) : Byte := BitVec.ofNat 8 (k + k / ftSectorSize)

/-- A whole segment of such bytes. -/
def countedSegment : MemorySegment := ⟨0, 32, countedByte, 0, by decide, le_rfl⟩

/-- The image of a segment is what the driver encodes, and the parities of a byte of a word are those that the script
finds for its column. -/
theorem parity_implementations_agree_counted :
    Register.bytes (laneRegister (setParity target64 countedByte 16 dataSectors) 3) =
        eccParityForColumn ((List.range dataSectors).map fun k =>
          countedByte (16 + target64.laneByte 3 + k * ftSectorSize)) eccTable ∧
      ∃ segment, buildSegment ((List.range (dataSectors * ftSectorSize)).map countedByte) eccTable = some segment ∧
        ∀ k < ftSectorsPerSegment * ftSectorSize,
          (ftapeEccSetSegmentParity target64 countedSegment).data k = segment.getD k 0 := by
  obtain ⟨hparities, hsegments⟩ := parity_implementations_agree target64
  refine ⟨(hparities countedByte 16 dataSectors 3 (by decide)).2.2, hsegments countedSegment _ rfl ?_ ?_⟩
  · rw [List.length_map, List.length_range]
  · intro k hk
    have hinside : k < ((List.range (dataSectors * ftSectorSize)).map countedByte).length := by
      rw [List.length_map, List.length_range]
      exact hk
    rw [List.getD_eq_getElem _ _ hinside, List.getElem_map, List.getElem_range]
    rfl

end Ftape.Ecc
