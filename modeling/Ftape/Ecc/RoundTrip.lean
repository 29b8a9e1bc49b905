import Ftape.Ecc.Correctness

/-!
# Round trip, detection and soundness of the error correction

A segment is encoded, damaged and handed back with a map of the sectors that failed their
checksum. Known bad sectors cost one check, other wrong sectors two. Damage within the three
checks is undone; damage one error beyond is reported; and whatever is accepted consists of
codewords.
-/

namespace Ftape.Ecc

open Ftape.Algebra Finset

/-- An encoded segment whose contents were replaced on the way back from the tape. -/
def MemorySegment.received (mseg : MemorySegment) (data : ℕ → Byte) (readBad : SectorMap) :
    MemorySegment :=
  { mseg with data := data, readBad := readBad }

/-- The wrong sectors of a column that the checksums did not report. -/
def silentSectors (nblocks : ℕ) (readBad : SectorMap) (data encoded : ℕ → Byte) (x : ℕ) : Finset ℕ :=
  (wrongSectors nblocks data encoded x).filter fun i => readBad.getLsbD i = false

/-- The sectors of a block that the checksums reported. -/
def reportedSectors (nblocks : ℕ) (readBad : SectorMap) : Finset ℕ :=
  (markedSectors readBad).filter (· < nblocks)

/-- When the map stays below the block, every marked sector counts. -/
theorem card_reportedSectors {nblocks : ℕ} {readBad : SectorMap}
    (hbelow : ∀ i, readBad.getLsbD i = true → i < nblocks) :
    (reportedSectors nblocks readBad).card = countOnes readBad := by
  rw [countOnes_eq_card, reportedSectors, filter_true_of_mem]
  intro i hi
  exact hbelow i ((mem_markedSectors readBad i).mp hi)

/-- A wrong sector is reported or silent. -/
theorem erasure_or_silent (mseg : MemorySegment) (data encoded : ℕ → Byte) {x i : ℕ}
    (hi : i < mseg.blocks) (hne : column data x i ≠ column encoded x i) :
    i ∈ mseg.erasures ∨ i ∈ silentSectors mseg.blocks mseg.readBad data encoded x := by
  rw [column_ne_iff] at hne
  cases hbit : mseg.readBad.getLsbD i with
  | true => exact Or.inl ((mseg.mem_erasures i).mpr ⟨hi, hbit⟩)
  | false =>
    exact Or.inr (mem_filter.mpr ⟨mem_filter.mpr ⟨mem_range.mpr hi, hne⟩, hbit⟩)

/-- Every address lies in one column of one sector. -/
theorem exists_column (k : ℕ) : ∃ x < ftSectorSize, ∃ i, k = x + i * ftSectorSize :=
  ⟨k % ftSectorSize, Nat.mod_lt k (by decide), k / ftSectorSize, by
    rw [Nat.mul_comm, Nat.mod_add_div]⟩

/-- The bytes of a sector of a segment lie in front of its end. -/
theorem column_lt {x i n : ℕ} (hx : x < ftSectorSize) (hi : i < n) : x + i * ftSectorSize < n * ftSectorSize := by
  calc x + i * ftSectorSize < ftSectorSize + i * ftSectorSize := by omega
    _ = (i + 1) * ftSectorSize := by rw [Nat.succ_mul, Nat.add_comm]
    _ ≤ n * ftSectorSize := Nat.mul_le_mul_right _ hi

/-- Every damage within the radius is accepted. -/
theorem ftapeEccCorrectData_accepts (t : Target) (mseg : MemorySegment) (data : ℕ → Byte)
    (readBad : SectorMap)
    (hradius : ∀ x < ftSectorSize,
      2 * (silentSectors mseg.blocks readBad data (ftapeEccSetSegmentParity t mseg).data x).card +
        (reportedSectors mseg.blocks readBad).card ≤ 3) :
    (ftapeEccCorrectData t ((ftapeEccSetSegmentParity t mseg).received data readBad)).1 ≠
      .failed := by
  set encoded := ftapeEccSetSegmentParity t mseg
  have hlen : (encoded.received data readBad).erasures.length =
      (reportedSectors mseg.blocks readBad).card :=
    (encoded.received data readBad).length_erasures
  refine (ftapeEccCorrectData_inv t (encoded.received data readBad)).2 fun x hx =>
    ⟨column encoded.data x, (setSegmentParity_column t mseg hx).1,
      silentSectors mseg.blocks readBad data encoded.data x, fun i hi hne =>
        erasure_or_silent (encoded.received data readBad) data encoded.data hi hne, ?_⟩
  rw [hlen]
  exact hradius x hx

/-- Damage within the radius is undone: the segment is accepted, its contents are the encoded
ones and the corrected map names exactly the sectors that differed. -/
theorem ftapeEccCorrectData_roundTrip (t : Target) (mseg : MemorySegment) (data : ℕ → Byte)
    (readBad : SectorMap) (hbelow : ∀ i, readBad.getLsbD i = true → i < mseg.blocks)
    (hradius : ∀ x < ftSectorSize,
      2 * (silentSectors mseg.blocks readBad data (ftapeEccSetSegmentParity t mseg).data x).card +
        countOnes readBad ≤ 3) :
    let encoded := ftapeEccSetSegmentParity t mseg
    let out := ftapeEccCorrectData t (encoded.received data readBad)
    (out.1 = .ok ∨ out.1 = .corrected) ∧
      (∀ k < mseg.blocks * ftSectorSize, out.2.data k = encoded.data k) ∧
      ∀ i, out.2.corrected.getLsbD i = true ↔
        ∃ x < ftSectorSize, i ∈ wrongSectors mseg.blocks data encoded.data x := by
  intro encoded out
  set read := encoded.received data readBad with hread
  have hcode (x : ℕ) (hx : x < ftSectorSize) : IsCodeword rootR mseg.blocks (column encoded.data x) :=
    (setSegmentParity_column t mseg hx).1
  have hreports := card_reportedSectors hbelow
  have hlen : read.erasures.length = countOnes readBad := read.length_erasures.trans hreports
  have hwrong (x i : ℕ) (hi : i < mseg.blocks) (hne : column data x i ≠ column encoded.data x i) :
      i ∈ read.erasures ∨ i ∈ silentSectors mseg.blocks readBad data encoded.data x :=
    erasure_or_silent read data encoded.data hi hne
  have hok : out.1 ≠ .failed := ftapeEccCorrectData_accepts t mseg data readBad
    fun x hx => by rw [hreports]; exact hradius x hx
  have hprog := (ftapeEccCorrectData_inv t read).1 hok
  have hsame (x : ℕ) (hx : x < ftSectorSize) (i : ℕ) (hi : i < mseg.blocks) :
      column out.2.data x i = column encoded.data x i := by
    refine (hprog.fixed x hx trivial).eq_encoded mseg.blocks_le (hcode x hx) (hwrong x) ?_ i hi
    have hcol : 2 * (silentSectors mseg.blocks readBad data encoded.data x).card +
      countOnes readBad ≤ 3 := hradius x hx
    rw [hlen]
    split <;> omega
  refine ⟨?_, fun k hk => ?_, fun i => ?_⟩
  · cases hout : out.1 with
    | ok => exact Or.inl rfl
    | corrected => exact Or.inr rfl
    | failed => exact absurd hout hok
  · obtain ⟨x, hx, i, rfl⟩ := exists_column k
    have hi : i < mseg.blocks := by
      by_contra hle
      have := Nat.mul_le_mul_right ftSectorSize (Nat.not_lt.mp hle)
      omega
    exact congrArg Gf.byte (hsame x hx i hi)
  · rw [hprog.flagged]
    refine exists_congr fun x => and_congr_right fun hx => ?_
    rw [wrongSectors, mem_filter, mem_range, ← column_ne_iff]
    constructor
    · intro hne
      have hi := (hprog.fixed x hx trivial).below i hne
      exact ⟨hi, fun h => hne ((hsame x hx i hi).trans h.symm)⟩
    · rintro ⟨hi, hne⟩ h
      exact hne (h.symm.trans (hsame x hx i hi))

/-- A 64-bit little-endian machine. -/
def target64 : Target := ⟨8, false, Or.inr rfl⟩

/-- The shortest segment, one zero sector before its parity. -/
def blankSegment : MemorySegment := ⟨0, 4, fun _ => 0, 0, le_rfl, by decide⟩

/-- Changing one byte makes at most its own sector wrong. -/
theorem wrongSectors_update (nblocks : ℕ) (data : ℕ → Byte) {off x : ℕ} (hoff : off < ftSectorSize)
    (hx : x < ftSectorSize) (l : ℕ) (v : Byte) :
    wrongSectors nblocks (Function.update data (off + l * ftSectorSize) v) data x ⊆ {l} := by
  intro i hi
  rw [wrongSectors, mem_filter, ← column_ne_iff, column_update data hoff hx] at hi
  by_contra hne
  rw [mem_singleton] at hne
  exact hi.2 (if_neg fun h => hne h.2)

/-- Changing one byte leaves at most one sector silently wrong in any column. -/
theorem card_silentSectors_update (nblocks : ℕ) (readBad : SectorMap) (data : ℕ → Byte) {off x : ℕ}
    (hoff : off < ftSectorSize) (hx : x < ftSectorSize) (l : ℕ) (v : Byte) :
    (silentSectors nblocks readBad (Function.update data (off + l * ftSectorSize) v) data x).card ≤
      1 :=
  card_le_card ((filter_subset _ _).trans (wrongSectors_update nblocks data hoff hx l v))

/-- Changing one byte of an unreported sector makes exactly that sector silently wrong. -/
theorem silentSectors_update {nblocks : ℕ} {readBad : SectorMap} (data : ℕ → Byte) {off l : ℕ}
    (hoff : off < ftSectorSize) (hl : l < nblocks) (hclear : readBad.getLsbD l = false) {v : Byte}
    (hv : v ≠ data (off + l * ftSectorSize)) :
    silentSectors nblocks readBad (Function.update data (off + l * ftSectorSize) v) data off =
      {l} := by
  refine Subset.antisymm ((filter_subset _ _).trans (wrongSectors_update nblocks data hoff hoff l v))
    (singleton_subset_iff.mpr (mem_filter.mpr ⟨mem_filter.mpr ⟨mem_range.mpr hl, ?_⟩, hclear⟩))
  rw [Function.update_self]
  exact hv

/-- The round trip of the blank segment with one byte of its data sector overwritten. -/
theorem ftapeEccCorrectData_roundTrip_blank :
    let encoded := ftapeEccSetSegmentParity target64 blankSegment
    let data := Function.update encoded.data (5 + 0 * ftSectorSize) 1
    let out := ftapeEccCorrectData target64 (encoded.received data 0)
    (out.1 = .ok ∨ out.1 = .corrected) ∧
      (∀ k < blankSegment.blocks * ftSectorSize, out.2.data k = encoded.data k) ∧
      ∀ i, out.2.corrected.getLsbD i = true ↔
        ∃ x < ftSectorSize, i ∈ wrongSectors blankSegment.blocks data encoded.data x := by
  refine ftapeEccCorrectData_roundTrip target64 blankSegment _ 0 (by simp) fun x hx => ?_
  have hone := card_silentSectors_update blankSegment.blocks 0
    (ftapeEccSetSegmentParity target64 blankSegment).data (by decide : 5 < ftSectorSize) hx 0 1
  have hzero : countOnes 0 = 0 := by decide
  omega

/-- One error beyond the radius is reported: two silent sectors in a column without any report,
or one silent sector beside two reports from inside the block. -/
theorem ftapeEccCorrectData_detects (t : Target) (mseg : MemorySegment) (data : ℕ → Byte)
    (readBad : SectorMap)
    (hbeyond : ∃ x < ftSectorSize,
      ((wrongSectors mseg.blocks data (ftapeEccSetSegmentParity t mseg).data x).card = 2 ∧
        readBad = 0) ∨
      ((silentSectors mseg.blocks readBad data (ftapeEccSetSegmentParity t mseg).data x).card = 1 ∧
        (reportedSectors mseg.blocks readBad).card = 2)) :
    (ftapeEccCorrectData t ((ftapeEccSetSegmentParity t mseg).received data readBad)).1 =
      .failed := by
  set encoded := ftapeEccSetSegmentParity t mseg with hencoded
  set read := encoded.received data readBad with hread
  obtain ⟨x, hx, hbeyond⟩ := hbeyond
  by_contra hok
  have hfixed := ((ftapeEccCorrectData_inv t read).1 hok).fixed x hx trivial
  have hcode : IsCodeword rootR mseg.blocks (column encoded.data x) :=
    (setSegmentParity_column t mseg hx).1
  have hlen : read.erasures.length = (reportedSectors mseg.blocks readBad).card :=
    read.length_erasures
  have hwrong (i : ℕ) (hi : i < mseg.blocks) (hne : column data x i ≠ column encoded.data x i) :
      i ∈ read.erasures ∨ i ∈ silentSectors mseg.blocks readBad data encoded.data x :=
    erasure_or_silent read data encoded.data hi hne
  obtain ⟨extra, hone, hfull, hnear⟩ := hfixed.near
  -- all silent sectors must have been corrected, which takes more changes than are allowed
  have hchanged {i : ℕ} (hcard : read.erasures.length + (if 2 ≤ read.erasures.length then 0 else 1) +
      (silentSectors mseg.blocks readBad data encoded.data x).card ≤ 3)
      (hsilent : i ∈ silentSectors mseg.blocks readBad data encoded.data x) : i ∈ extra := by
    obtain ⟨hi, hclear⟩ := mem_filter.mp hsilent
    rw [wrongSectors, mem_filter, mem_range, ← column_ne_iff] at hi
    have hafter := hfixed.eq_encoded mseg.blocks_le hcode hwrong hcard i hi.1
    refine (hnear i (by rw [hafter]; exact hi.2.symm)).resolve_left fun hmem => ?_
    have hset : readBad.getLsbD i = true := ((read.mem_erasures i).mp hmem).2
    rw [hset] at hclear
    exact Bool.noConfusion hclear
  rcases hbeyond with ⟨htwo, rfl⟩ | ⟨hsilent, hreports⟩
  · have hnone : read.erasures.length = 0 := by
      rw [hlen, reportedSectors]
      simp [markedSectors]
    have hall : silentSectors mseg.blocks 0 data encoded.data x =
        wrongSectors mseg.blocks data encoded.data x := by
      simp [silentSectors]
    have hsub : wrongSectors mseg.blocks data encoded.data x ⊆ extra := by
      intro i hi
      rw [← hall] at hi
      exact hchanged (by rw [hnone, hall, htwo]; decide) hi
    have := card_le_card hsub
    omega
  · rw [hreports] at hlen
    obtain ⟨i, hi⟩ := card_pos.mp (by omega :
      0 < (silentSectors mseg.blocks readBad data encoded.data x).card)
    have hmem := hchanged (by rw [hlen, hsilent]; decide) hi
    rw [hfull (by omega)] at hmem
    exact notMem_empty i hmem

/-- Two reports from the blank segment beside a silent third sector. -/
theorem ftapeEccCorrectData_detects_blank :
    let encoded := ftapeEccSetSegmentParity target64 blankSegment
    let data := Function.update encoded.data (0 + 2 * ftSectorSize)
      (~~~ encoded.data (0 + 2 * ftSectorSize))
    (ftapeEccCorrectData target64 (encoded.received data 3)).1 = .failed := by
  refine ftapeEccCorrectData_detects target64 blankSegment _ 3 ⟨0, by decide, Or.inr ⟨?_, by decide⟩⟩
  rw [silentSectors_update _ (by decide) (by decide) (by decide) ?_, card_singleton]
  exact fun h => absurd h (by generalize MemorySegment.data _ _ = v; revert v; decide)

/-- A report from beyond the block is ignored: with two bits set but only one of them below the
block, a silent wrong sector is within the radius and the segment is accepted. -/
theorem ftapeEccCorrectData_ignores_outside :
    let encoded := ftapeEccSetSegmentParity target64 blankSegment
    let data := Function.update encoded.data (0 + 1 * ftSectorSize)
      (~~~ encoded.data (0 + 1 * ftSectorSize))
    countOnes 0x80000001 = 2 ∧
      (silentSectors blankSegment.blocks 0x80000001 data encoded.data 0).card = 1 ∧
      (ftapeEccCorrectData target64 (encoded.received data 0x80000001)).1 ≠ .failed := by
  intro encoded data
  refine ⟨by decide, ?_, ftapeEccCorrectData_accepts target64 blankSegment data _ fun x hx => ?_⟩
  · rw [silentSectors_update _ (by decide) (by decide) (by decide) ?_, card_singleton]
    exact fun h => absurd h (by generalize MemorySegment.data _ _ = v; revert v; decide)
  · have hone := card_silentSectors_update blankSegment.blocks 0x80000001 encoded.data
      (by decide : 0 < ftSectorSize) hx 1 (~~~ encoded.data (0 + 1 * ftSectorSize))
    have hreport : (reportedSectors blankSegment.blocks 0x80000001).card = 1 := by decide
    rw [hreport]
    exact Nat.add_le_add_right (Nat.mul_le_mul_left 2 hone) 1

/-- Whatever is accepted consists of codewords, the corrected map names the changed sectors, and
each column changed in reported sectors and at most one other, that one only beside fewer than
two reports. -/
theorem ftapeEccCorrectData_sound (t : Target) (mseg : MemorySegment)
    (hbelow : ∀ i, mseg.readBad.getLsbD i = true → i < mseg.blocks)
    (hok : (ftapeEccCorrectData t mseg).1 ≠ .failed) :
    let out := (ftapeEccCorrectData t mseg).2
    (∀ x < ftSectorSize, IsCodeword rootR mseg.blocks (column out.data x)) ∧
      (∀ i, out.corrected.getLsbD i = true ↔ ∃ x < ftSectorSize,
        out.data (x + i * ftSectorSize) ≠ mseg.data (x + i * ftSectorSize)) ∧
      ∀ x < ftSectorSize, ∃ other : Finset ℕ, other.card ≤ 1 ∧
        (other.Nonempty → countOnes mseg.readBad ≤ 1) ∧
        ∀ i, out.data (x + i * ftSectorSize) ≠ mseg.data (x + i * ftSectorSize) →
          mseg.readBad.getLsbD i = true ∨ i ∈ other := by
  intro out
  have hprog := (ftapeEccCorrectData_inv t mseg).1 hok
  have hlen : mseg.erasures.length = countOnes mseg.readBad := by
    rw [mseg.length_erasures]
    exact card_reportedSectors hbelow
  refine ⟨fun x hx => (hprog.fixed x hx trivial).codeword, fun i => ?_, fun x hx => ?_⟩
  · simp only [← column_ne_iff]
    exact hprog.flagged i
  · obtain ⟨extra, hone, hfull, hnear⟩ := (hprog.fixed x hx trivial).near
    refine ⟨extra, hone, fun hnonempty => ?_, fun i hne => ?_⟩
    · by_contra hmany
      exact hnonempty.ne_empty (hfull (by omega))
    · rw [← column_ne_iff] at hne
      exact (hnear i hne).imp_left fun hmem => ((mseg.mem_erasures i).mp hmem).2

/-- Soundness on the blank segment with an unreported wrong byte, which is accepted. -/
theorem ftapeEccCorrectData_sound_blank :
    let encoded := ftapeEccSetSegmentParity target64 blankSegment
    let mseg := encoded.received (Function.update encoded.data (5 + 0 * ftSectorSize) 1) 0
    let out := (ftapeEccCorrectData target64 mseg).2
    (∀ x < ftSectorSize, IsCodeword rootR mseg.blocks (column out.data x)) ∧
      (∀ i, out.corrected.getLsbD i = true ↔ ∃ x < ftSectorSize,
        out.data (x + i * ftSectorSize) ≠ mseg.data (x + i * ftSectorSize)) ∧
      ∀ x < ftSectorSize, ∃ other : Finset ℕ, other.card ≤ 1 ∧
        (other.Nonempty → countOnes mseg.readBad ≤ 1) ∧
        ∀ i, out.data (x + i * ftSectorSize) ≠ mseg.data (x + i * ftSectorSize) →
          mseg.readBad.getLsbD i = true ∨ i ∈ other := by
  refine ftapeEccCorrectData_sound target64 _ (fun i hi => ?_) ?_
  · change (0#32).getLsbD i = true at hi
    simp at hi
  · refine ftapeEccCorrectData_accepts target64 blankSegment _ 0 fun x hx => ?_
    have hone := card_silentSectors_update blankSegment.blocks 0
      (ftapeEccSetSegmentParity target64 blankSegment).data (by decide : 5 < ftSectorSize) hx 0 1
    have hreport : (reportedSectors blankSegment.blocks 0).card = 0 := by decide
    omega

end Ftape.Ecc
