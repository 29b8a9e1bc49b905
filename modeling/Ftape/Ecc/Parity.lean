import Ftape.Ecc.GaloisField
import Ftape.Algebra.LaneWord
import Mathlib.Data.Fin.VecNotation

/-!
# Word-parallel parity and syndromes

The coder handles one machine word of columns at a time. Each lane of the word runs the
scalar feedback register on its own column, so the parity words hold the remainders and the
syndrome words hold the message values of `sizeof(long)` columns at once. The word size and
the byte order are parameters; both sizes the source supports are covered.
-/

namespace Ftape.Ecc

open Ftape.Algebra

/-- What the coder needs to know about the machine: `sizeof(long)` and the byte order. -/
structure Target where
  longSize : ℕ
  bigEndian : Bool
  long_size : longSize = 4 ∨ longSize = 8

/-- An `unsigned long`. -/
abbrev Word (t : Target) := BitVec (8 * t.longSize)

/-- The offset in memory of lane `i` of a word; an involution on the lanes. -/
def Target.laneByte (t : Target) (i : ℕ) : ℕ := if t.bigEndian then t.longSize - 1 - i else i

/-- Read the word at an offset. -/
def loadLong (t : Target) (data : ℕ → Byte) (off : ℕ) : Word t :=
  ofLanes _ (fun i => data (off + t.laneByte i)) t.longSize

/-- Write a word at an offset. -/
def storeLong (t : Target) (data : ℕ → Byte) (off : ℕ) (a : Word t) : ℕ → Byte :=
  fun k => if off ≤ k ∧ k < off + t.longSize then lane 8 a (t.laneByte (k - off)) else data k

/-- `gfadd_long()`. -/
def gfaddLong {t : Target} (a b : Word t) : Word t := a ^^^ b

/-- `gfmul_exp_long()`: every lane on its own, in both word sizes. -/
def gfmulExpLong {t : Target} (a : Word t) (b : ℤ) : Word t :=
  ofLanes _ (fun i => gfmulExp (lane 8 a i) b) t.longSize

/-- The table multiplication by `0xc0` of every lane in `set_parity()`. -/
def gfmulC0Long {t : Target} (a : Word t) : Word t :=
  ofLanes _ (fun i => gfmulC0 (lane 8 a i)) t.longSize

/-- One round of the loop in `set_parity()`. -/
def parityStep {t : Target} (p : Register (Word t)) (m : Word t) : Register (Word t) :=
  let t1 := gfaddLong m p.p0
  let t2 := gfmulC0Long t1
  ⟨gfaddLong t2 p.p1, gfaddLong t2 p.p2, t1⟩

/-- `set_parity()`: the parity words of the columns at `off` over the first `nblocks` sectors. -/
def setParity (t : Target) (data : ℕ → Byte) (off : ℕ) : ℕ → Register (Word t)
  | 0 => ⟨0, 0, 0⟩
  | nblocks + 1 =>
    parityStep (setParity t data off nblocks) (loadLong t data (off + nblocks * ftSectorSize))

/-- The three syndromes of a column, or of a word of columns. -/
structure Syndromes (α : Type*) where
  s0 : α
  s1 : α
  s2 : α

/-- `compute_syndromes()`: `none` where the source returns one because all checks hold. -/
def computeSyndromes (t : Target) (data : ℕ → Byte) (off nblocks : ℕ) :
    Option (Syndromes (Word t)) :=
  let p := setParity t data off nblocks
  if p.p0 ||| p.p1 ||| p.p2 ≠ 0 then
    some
      { s0 := gfmulExpLong (gfaddLong p.p0
          (gfmulExpLong (gfaddLong p.p1 (gfmulExpLong p.p2 (-1))) (-1))) (-nblocks)
        s1 := gfaddLong (gfaddLong p.p2 p.p1) p.p0
        s2 := gfmulExpLong (gfaddLong p.p0
          (gfmulExpLong (gfaddLong p.p1 (gfmulExpLong p.p2 1)) 1)) nblocks }
  else none

/-- The bytes of one column, as field elements indexed by sector. -/
def column (data : ℕ → Byte) (off : ℕ) (i : ℕ) : Gf := ⟨data (off + i * ftSectorSize)⟩

/-- A lane of a word as a field element. -/
def gfLane {t : Target} (a : Word t) (i : ℕ) : Gf := ⟨lane 8 a i⟩

/-- The word size is positive. -/
theorem Target.longSize_pos (t : Target) : 0 < t.longSize := by
  rcases t.long_size with h | h <;> omega

/-- Words do not straddle sectors. -/
theorem Target.longSize_dvd (t : Target) : t.longSize ∣ ftSectorSize := by
  rcases t.long_size with h | h <;> rw [h] <;> decide

/-- A lane lies inside its word. -/
theorem Target.laneByte_lt (t : Target) {i : ℕ} (hi : i < t.longSize) :
    t.laneByte i < t.longSize := by
  unfold laneByte
  split <;> omega

/-- The byte order is an involution, so it also maps memory offsets to lanes. -/
theorem Target.laneByte_laneByte (t : Target) {i : ℕ} (hi : i < t.longSize) :
    t.laneByte (t.laneByte i) = i := by
  unfold laneByte
  split <;> omega

/-- A loaded lane is the byte at its place. -/
@[simp] theorem gfLane_loadLong (t : Target) (data : ℕ → Byte) (off : ℕ) {i : ℕ}
    (hi : i < t.longSize) : gfLane (loadLong t data off) i = ⟨data (off + t.laneByte i)⟩ := by
  rw [gfLane, loadLong, lane_ofLanes (by decide) _ hi le_rfl]

/-- Lanes of a sum. -/
@[simp] theorem gfLane_gfaddLong {t : Target} (a b : Word t) (i : ℕ) :
    gfLane (gfaddLong a b) i = gfLane a i + gfLane b i := by
  rw [gfLane, gfaddLong, lane_xor]
  rfl

/-- Lanes of the zero word. -/
@[simp] theorem gfLane_zero {t : Target} (i : ℕ) : gfLane (0#(8 * t.longSize) : Word t) i = 0 := by
  rw [gfLane, lane_zero]
  rfl

/-- Lanes of a multiple by a power of `r`. -/
theorem gfLane_gfmulExpLong {t : Target} (a : Word t) {b : ℤ} (hlow : -255 ≤ b) (hhigh : b ≤ 255)
    {i : ℕ} (hi : i < t.longSize) : gfLane (gfmulExpLong a b) i = gfLane a i * rootR ^ b := by
  rw [gfLane, gfmulExpLong, lane_ofLanes (by decide) _ hi le_rfl, gf_gfmulExp _ hlow hhigh]
  rfl

/-- Lanes of the table multiplication. -/
theorem gfLane_gfmulC0Long {t : Target} (a : Word t) {i : ℕ} (hi : i < t.longSize) :
    gfLane (gfmulC0Long a) i = feedback rootR * gfLane a i := by
  rw [gfLane, gfmulC0Long, lane_ofLanes (by decide) _ hi le_rfl, gf_gfmulC0]
  rfl

/-- A word is zero exactly when its lanes are. -/
theorem word_eq_zero {t : Target} {a : Word t} : a = 0 ↔ ∀ i < t.longSize, gfLane a i = 0 := by
  constructor
  · rintro rfl i _
    exact gfLane_zero i
  · intro h
    refine eq_of_lanes (by decide) fun i hi => ?_
    rw [show (0 : Word t) = 0#_ from rfl, lane_zero]
    exact gf_eq_zero.mp (h i hi)

/-- Lane by lane, the parity loop runs the scalar register on its column. -/
theorem setParity_lane (t : Target) (data : ℕ → Byte) (off nblocks : ℕ) {i : ℕ}
    (hi : i < t.longSize) :
    (⟨gfLane (setParity t data off nblocks).p0 i, gfLane (setParity t data off nblocks).p1 i,
      gfLane (setParity t data off nblocks).p2 i⟩ : Register Gf) =
      Register.run (feedback rootR) (column data (off + t.laneByte i)) nblocks := by
  induction nblocks with
  | zero => simp [setParity, Register.run, Register.zero]
  | succ n ih =>
    rw [Register.run, ← ih]
    have hbyte : off + n * ftSectorSize + t.laneByte i = off + t.laneByte i + n * ftSectorSize := by
      omega
    simp only [setParity, parityStep, Register.step, gfLane_gfaddLong, gfLane_gfmulC0Long _ hi,
      gfLane_loadLong t data _ hi, hbyte, column]

/-- The three roots are distinct. -/
theorem roots_injective : Function.Injective ![rootR⁻¹, 1, rootR] := by
  have hinv : rootR⁻¹ = ⟨0xc3⟩ := inv_eq_of_mul_eq_one_right (by decide +kernel)
  rw [hinv]
  decide +kernel

/-- The parity of a column vanishes exactly on the codewords. -/
theorem run_eq_zero_iff (m : ℕ → Gf) (n : ℕ) :
    Register.run (feedback rootR) m n = Register.zero ↔ IsCodeword rootR n m := by
  have hroot {x : Gf} (hx : x = rootR⁻¹ ∨ x = 1 ∨ x = rootR) :=
    Register.value_run (generator_root rootR_ne_zero hx) m n
  constructor
  · intro h
    have hzero (x : Gf) : (Register.zero : Register Gf).value x = 0 := by
      simp [Register.value, Register.zero]
    rw [h] at hroot
    exact ⟨by rw [← hroot (Or.inl rfl), hzero, mul_zero],
      by rw [← hroot (Or.inr (Or.inl rfl)), hzero, mul_zero],
      by rw [← hroot (Or.inr (Or.inr rfl)), hzero, mul_zero]⟩
  · intro h
    refine Register.eq_zero_of_values roots_injective fun j => ?_
    have hcancel {x : Gf} (hx : x = rootR⁻¹ ∨ x = 1 ∨ x = rootR) (hx0 : x ≠ 0)
        (hval : messageValue n m x = 0) :
        (Register.run (feedback rootR) m n).value x = 0 := by
      rw [← hroot hx] at hval
      exact (mul_eq_zero.mp hval).resolve_left (pow_ne_zero n hx0)
    fin_cases j
    · exact hcancel (Or.inl rfl) (inv_ne_zero rootR_ne_zero) h.low
    · exact hcancel (Or.inr (Or.inl rfl)) one_ne_zero h.mid
    · exact hcancel (Or.inr (Or.inr rfl)) rootR_ne_zero h.high

/-- `compute_syndromes()` reports no error exactly when every column of the word is a codeword. -/
theorem computeSyndromes_eq_none (t : Target) (data : ℕ → Byte) (off nblocks : ℕ) :
    computeSyndromes t data off nblocks = none ↔
      ∀ i < t.longSize, IsCodeword rootR nblocks (column data (off + t.laneByte i)) := by
  have hlanes : (computeSyndromes t data off nblocks = none ↔
      ∀ i < t.longSize, (⟨gfLane (setParity t data off nblocks).p0 i,
        gfLane (setParity t data off nblocks).p1 i,
        gfLane (setParity t data off nblocks).p2 i⟩ : Register Gf) = Register.zero) := by
    have hwords : computeSyndromes t data off nblocks = none ↔
        (setParity t data off nblocks).p0 = 0 ∧ (setParity t data off nblocks).p1 = 0 ∧
          (setParity t data off nblocks).p2 = 0 := by
      unfold computeSyndromes
      simp [BitVec.or_eq_zero_iff, and_assoc]
    rw [hwords, word_eq_zero, word_eq_zero, word_eq_zero]
    simp only [Register.zero, Register.mk.injEq]
    exact ⟨fun h i hi => ⟨h.1 i hi, h.2.1 i hi, h.2.2 i hi⟩,
      fun h => ⟨fun i hi => (h i hi).1, fun i hi => (h i hi).2.1, fun i hi => (h i hi).2.2⟩⟩
  rw [hlanes]
  refine forall₂_congr fun i hi => ?_
  rw [setParity_lane t data off nblocks hi, run_eq_zero_iff]

/-- The syndrome words hold the message values at the three roots, lane by lane. -/
theorem computeSyndromes_some {t : Target} {data : ℕ → Byte} {off nblocks : ℕ}
    {ss : Syndromes (Word t)} (hss : computeSyndromes t data off nblocks = some ss)
    (hblocks : nblocks ≤ 255) {i : ℕ} (hi : i < t.longSize) :
    gfLane ss.s0 i = messageValue nblocks (column data (off + t.laneByte i)) rootR⁻¹ ∧
    gfLane ss.s1 i = messageValue nblocks (column data (off + t.laneByte i)) 1 ∧
    gfLane ss.s2 i = messageValue nblocks (column data (off + t.laneByte i)) rootR := by
  have hrun := setParity_lane t data off nblocks hi
  have hroot {x : Gf} (hx : x = rootR⁻¹ ∨ x = 1 ∨ x = rootR) :=
    Register.value_run (generator_root rootR_ne_zero hx) (column data (off + t.laneByte i)) nblocks
  rw [← hrun] at hroot
  have hvalue : ∀ p : Register (Word t), ∀ x : Gf,
      (⟨gfLane p.p0 i, gfLane p.p1 i, gfLane p.p2 i⟩ : Register Gf).value x =
        gfLane p.p0 i + (gfLane p.p1 i + gfLane p.p2 i * x) * x := by
    intro p x
    simp only [Register.value]
    ring
  unfold computeSyndromes at hss
  simp only [ne_eq, ite_not, Option.ite_none_left_eq_some, Option.some.injEq] at hss
  obtain ⟨-, rfl⟩ := hss
  have hexp (a : Word t) {b : ℤ} (hlow : -255 ≤ b) (hhigh : b ≤ 255) :=
    gfLane_gfmulExpLong a hlow hhigh hi
  refine ⟨?_, ?_, ?_⟩
  · rw [← hroot (Or.inl rfl), hvalue, hexp _ (by omega) (by omega), gfLane_gfaddLong,
      hexp _ (by decide) (by decide), gfLane_gfaddLong, hexp _ (by decide) (by decide),
      zpow_neg_one, zpow_neg, zpow_natCast, inv_pow]
    ring
  · rw [← hroot (Or.inr (Or.inl rfl)), hvalue]
    simp only [gfLane_gfaddLong]
    ring
  · rw [← hroot (Or.inr (Or.inr rfl)), hvalue, hexp _ (by omega) (by omega), gfLane_gfaddLong,
      hexp _ (by decide) (by decide), gfLane_gfaddLong, hexp _ (by decide) (by decide),
      zpow_one, zpow_natCast]
    ring

end Ftape.Ecc
