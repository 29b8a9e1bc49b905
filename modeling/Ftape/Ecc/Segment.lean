import Ftape.Ecc.CorrectBlock

/-!
# Encoding and correcting a segment

`ftape_ecc_set_segment_parity()` fills the last three sectors of a segment and
`ftape_ecc_correct_data()` repairs a segment that was read back. Both work on a word of
columns at a time, in ascending order; the second stops at the first column it cannot accept.
The loop invariant `Progress` says what has been done to the columns passed so far.
-/

namespace Ftape.Ecc

open Ftape.Algebra Finset

/-- `struct memory_segment`, of a length the code can work with: one data sector at least and
three parity sectors. The bytes of sector `i` start at `i * FT_SECTOR_SIZE`. -/
structure MemorySegment where
  readBad : SectorMap
  blocks : ℕ
  data : ℕ → Byte
  corrected : SectorMap
  four_le_blocks : 4 ≤ blocks
  blocks_le : blocks ≤ ftSectorsPerSegment

/-- The results of `ftape_ecc_correct_data()`. -/
inductive EccResult where
  | ok
  | corrected
  | failed
deriving DecidableEq

/-- The loop of `ftape_ecc_set_segment_parity()` over the first words of every sector. -/
def setParityWords (t : Target) (nblocks : ℕ) (data : ℕ → Byte) : ℕ → ℕ → Byte
  | 0 => data
  | words + 1 =>
    let data := setParityWords t nblocks data words
    let i := words * t.longSize
    let p := setParity t data i (nblocks - 3)
    let parityBytes := i + (nblocks - 3) * ftSectorSize
    let data := storeLong t data parityBytes p.p0
    let data := storeLong t data (parityBytes + ftSectorSize) p.p1
    storeLong t data (parityBytes + 2 * ftSectorSize) p.p2

/-- `ftape_ecc_set_segment_parity()`, which always returns zero. -/
def ftapeEccSetSegmentParity (t : Target) (mseg : MemorySegment) : MemorySegment :=
  { mseg with data := setParityWords t mseg.blocks mseg.data (ftSectorSize / t.longSize) }

/-- The search for the next word of columns with non-zero syndromes, from `col` on. The first
argument bounds the rounds of the loop. -/
def findColumn (t : Target) (data : ℕ → Byte) (nblocks : ℕ) : ℕ → ℕ → Option (ℕ × Syndromes (Word t))
  | 0, _ => none
  | rounds + 1, col =>
    if col < ftSectorSize then
      match computeSyndromes t data col nblocks with
      | some ss => some (col, ss)
      | none => findColumn t data nblocks rounds (col + t.longSize)
    else none

/-- The loop that collects `erasure_loc[]` from the first sectors; `none` from the fourth on. -/
def erasureLocations (readBad : SectorMap) : ℕ → Option (List ℕ)
  | 0 => some []
  | i + 1 => do
    let erasureLoc ← erasureLocations readBad i
    if readBad.getLsbD i then
      if 3 ≤ erasureLoc.length then none else some (erasureLoc ++ [i])
    else some erasureLoc

/-- One round of the loop over the bytes of a word of syndromes. Once a column has failed the
source has returned and nothing more happens. -/
def correctLane (t : Target) (col nblocks : ℕ) (erasureLoc : List ℕ) (ainv : Matrix)
    (ss : Syndromes (Word t)) (st : BlockResult) (i : ℕ) : BlockResult :=
  match st.result with
  | none => st
  | some ncorrected =>
    let s : Syndromes Byte := ⟨lane 8 ss.s0 i, lane 8 ss.s1 i, lane 8 ss.s2 i⟩
    if s.s0 ||| s.s1 ||| s.s2 ≠ 0 then
      let out := correctBlock st.data (col + t.laneByte i) nblocks erasureLoc ainv s st.correctionMap
      { out with result := out.result.map (ncorrected + ·) }
    else st

/-- The loop over the bytes of a word. -/
def correctWord (t : Target) (col nblocks : ℕ) (erasureLoc : List ℕ) (ainv : Matrix)
    (ss : Syndromes (Word t)) (st : BlockResult) : BlockResult :=
  (List.range t.longSize).foldl (correctLane t col nblocks erasureLoc ainv ss) st

/-- The outer loop of `ftape_ecc_correct_data()`, entered with a word that needs correction. The
first argument bounds the rounds of the loop. -/
def correctWords (t : Target) (nblocks : ℕ) (erasureLoc : List ℕ) (ainv : Matrix) :
    ℕ → ℕ × Syndromes (Word t) → BlockResult → BlockResult
  | 0, _, st => st
  | rounds + 1, (col, ss), st =>
    let st := correctWord t col nblocks erasureLoc ainv ss st
    if st.result = none then st
    else
      match findColumn t st.data nblocks ftSectorSize (col + t.longSize) with
      | none => st
      | some next => correctWords t nblocks erasureLoc ainv rounds next st

/-- `ftape_ecc_correct_data()`. -/
def ftapeEccCorrectData (t : Target) (mseg : MemorySegment) : EccResult × MemorySegment :=
  let mseg := { mseg with corrected := 0 }
  match findColumn t mseg.data mseg.blocks ftSectorSize 0 with
  | none => (.ok, mseg)
  | some first =>
    match erasureLocations mseg.readBad mseg.blocks with
    | none => (.failed, mseg)
    | some erasureLoc =>
      match erasureMatrix erasureLoc (fun _ _ => 0) with
      | none => (.failed, mseg)
      | some ainv =>
        let st := correctWords t mseg.blocks erasureLoc ainv ftSectorSize first
          ⟨mseg.data, mseg.corrected, some 0⟩
        let mseg := { mseg with data := st.data, corrected := st.correctionMap }
        match st.result with
        | none => (.failed, mseg)
        | some ncorrected => (if ncorrected = 0 then .ok else .corrected, mseg)

/-- A word covers the columns of its lanes and no others. -/
theorem exists_lane (t : Target) {off x : ℕ} (hlow : off ≤ x) (hhigh : x < off + t.longSize) :
    ∃ i < t.longSize, x = off + t.laneByte i :=
  ⟨t.laneByte (x - off), t.laneByte_lt (by omega), by rw [t.laneByte_laneByte (by omega)]; omega⟩

/-- A stored word changes the columns it covers at one sector. -/
theorem column_storeLong (t : Target) (data : ℕ → Byte) {off x : ℕ} (l i : ℕ) (a : Word t)
    (hoff : off + t.longSize ≤ ftSectorSize) (hx : x < ftSectorSize) :
    column (storeLong t data (off + l * ftSectorSize) a) x i =
      if (off ≤ x ∧ x < off + t.longSize) ∧ i = l then gfLane a (t.laneByte (x - off))
      else column data x i := by
  have haddr : (off + l * ftSectorSize ≤ x + i * ftSectorSize ∧
      x + i * ftSectorSize < off + l * ftSectorSize + t.longSize) ↔
      (off ≤ x ∧ x < off + t.longSize) ∧ i = l := by
    constructor
    · rintro ⟨hlow, hhigh⟩
      have hil : i = l := by
        unfold ftSectorSize at *
        omega
      subst hil
      exact ⟨⟨by omega, by omega⟩, rfl⟩
    · rintro ⟨⟨hlow, hhigh⟩, rfl⟩
      omega
  simp only [column, storeLong, haddr]
  split
  · next h =>
    obtain ⟨-, rfl⟩ := h
    rw [gfLane, show x + i * ftSectorSize - (off + i * ftSectorSize) = x - off by omega]
  · rfl

/-- Appending the parity of a column makes it a codeword: the register divides by `x` once for
every entry, and the three parity entries give its value back. -/
theorem isCodeword_of_parity {n : ℕ} {m m' : ℕ → Gf} (hm : ∀ i < n, m' i = m i)
    (hparity : (⟨m' n, m' (n + 1), m' (n + 2)⟩ : Register Gf) = Register.run (feedback rootR) m n) :
    IsCodeword rootR (n + 3) m' := by
  have hzero {x : Gf} (hx : x = rootR⁻¹ ∨ x = 1 ∨ x = rootR) : messageValue (n + 3) m' x = 0 := by
    have hrun := Register.value_run (generator_root rootR_ne_zero hx) m n
    have htwo : (2 : Gf) = 0 := CharTwo.two_eq_zero
    rw [← hparity, Register.value, ← messageValue_congr hm] at hrun
    rw [messageValue_succ, messageValue_succ, messageValue_succ, ← hrun]
    linear_combination (x ^ n * (m' n + m' (n + 1) * x + m' (n + 2) * x ^ 2)) * htwo
  exact ⟨hzero (Or.inl rfl), hzero (Or.inr (Or.inl rfl)), hzero (Or.inr (Or.inr rfl))⟩

/-- One round of the encoder makes the columns of its word codewords, keeps their data sectors
and leaves the other columns alone. -/
theorem setParityWords_succ (t : Target) (data : ℕ → Byte) {nblocks words : ℕ}
    (hblocks : 3 ≤ nblocks) (hwords : words * t.longSize + t.longSize ≤ ftSectorSize)
    {x : ℕ} (hx : x < ftSectorSize) :
    let before := column (setParityWords t nblocks data words) x
    let after := column (setParityWords t nblocks data (words + 1)) x
    (∀ i, i < nblocks - 3 ∨ nblocks ≤ i → after i = before i) ∧
      if words * t.longSize ≤ x ∧ x < words * t.longSize + t.longSize then
        IsCodeword rootR nblocks after
      else after = before := by
  obtain ⟨n, rfl⟩ : ∃ n, nblocks = n + 3 := ⟨nblocks - 3, by omega⟩
  set off := words * t.longSize with hoff
  set data' := setParityWords t (n + 3) data words with hdata'
  set p := setParity t data' off n with hp
  have hafter (i : ℕ) : column (setParityWords t (n + 3) data (words + 1)) x i =
      if off ≤ x ∧ x < off + t.longSize then
        if i = n + 2 then gfLane p.p2 (t.laneByte (x - off))
        else if i = n + 1 then gfLane p.p1 (t.laneByte (x - off))
        else if i = n then gfLane p.p0 (t.laneByte (x - off))
        else column data' x i
      else column data' x i := by
    have hnext (k : ℕ) : off + n * ftSectorSize + k * ftSectorSize = off + (n + k) * ftSectorSize := by
      rw [Nat.add_mul]
      omega
    have hone : off + n * ftSectorSize + ftSectorSize = off + (n + 1) * ftSectorSize := by
      rw [← hnext, Nat.one_mul]
    simp only [setParityWords, Nat.add_sub_cancel, ← hoff, ← hdata', ← hp, hnext, hone]
    rw [column_storeLong t _ _ i _ hwords hx, column_storeLong t _ _ i _ hwords hx,
      column_storeLong t _ _ i _ hwords hx]
    by_cases hin : off ≤ x ∧ x < off + t.longSize
    · simp only [hin, and_self, true_and, if_true]
    · simp only [hin, false_and, if_false]
  constructor
  · intro i hi
    rw [hafter, if_neg (by omega : ¬ i = n + 2), if_neg (by omega : ¬ i = n + 1),
      if_neg (by omega : ¬ i = n), ite_self]
  · split
    · next hin =>
      have hlane := setParity_lane t data' off n (i := t.laneByte (x - off))
        (t.laneByte_lt (by omega))
      rw [t.laneByte_laneByte (by omega), show off + (x - off) = x by omega] at hlane
      refine isCodeword_of_parity (m := column data' x) (fun i hi => ?_) ?_
      · rw [hafter, if_pos hin, if_neg (by omega), if_neg (by omega), if_neg (by omega)]
      · rw [hafter, hafter, hafter, if_pos hin, if_pos hin, if_pos hin, ← hlane]
        simp
        exact ⟨rfl, rfl, rfl⟩
    · next hout =>
      funext i
      rw [hafter, if_neg hout]

/-- The encoded segment: every column is a codeword and the data sectors are the given ones. -/
theorem setSegmentParity_column (t : Target) (mseg : MemorySegment) {x : ℕ} (hx : x < ftSectorSize) :
    IsCodeword rootR mseg.blocks (column (ftapeEccSetSegmentParity t mseg).data x) ∧
      ∀ i, i < mseg.blocks - 3 ∨ mseg.blocks ≤ i →
        column (ftapeEccSetSegmentParity t mseg).data x i = column mseg.data x i := by
  have hblocks : 3 ≤ mseg.blocks := by have := mseg.four_le_blocks; omega
  have hrun (words : ℕ) (hwords : words * t.longSize ≤ ftSectorSize) :
      (x < words * t.longSize →
        IsCodeword rootR mseg.blocks (column (setParityWords t mseg.blocks mseg.data words) x)) ∧
      ∀ i, i < mseg.blocks - 3 ∨ mseg.blocks ≤ i →
        column (setParityWords t mseg.blocks mseg.data words) x i = column mseg.data x i := by
    induction words with
    | zero => exact ⟨fun h => by omega, fun i _ => rfl⟩
    | succ words ih =>
      rw [Nat.succ_mul] at hwords ⊢
      obtain ⟨hcode, hdata⟩ := ih (by omega)
      obtain ⟨hkeep, hword⟩ := setParityWords_succ t mseg.data hblocks hwords hx
      refine ⟨fun hlt => ?_, fun i hi => (hkeep i hi).trans (hdata i hi)⟩
      split at hword
      · exact hword
      · next hout =>
        rw [hword]
        exact hcode (by omega)
  have hall : ftSectorSize / t.longSize * t.longSize = ftSectorSize :=
    Nat.div_mul_cancel t.longSize_dvd
  have h := hrun (ftSectorSize / t.longSize) hall.le
  rw [hall] at h
  exact ⟨h.1 hx, h.2⟩

end Ftape.Ecc
