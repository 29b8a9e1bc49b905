import Ftape.Basic
import Ftape.Algebra.PrimitiveShift
import Ftape.Algebra.ConsecutiveRoots
import Mathlib.Data.List.GetD
import Mathlib.GroupTheory.OrderOfElement
import Mathlib.Tactic.NormNum.Prime

/-!
# Table arithmetic in the field with 256 elements

The error correction computes with powers and logarithms of `r` modulo
`r^8 + r^7 + r^2 + r + 1`. This file transcribes the tables and the scalar routines, turns
the register that multiplies by `r` into a field, and shows that every routine computes
the operation of that field.
-/

namespace Ftape.Ecc

open Ftape.Algebra

/-- `gfpow[]`: entry `i` is `r^i`. -/
def gfpowTable : List ℕ :=
  [0x01, 0x02, 0x04, 0x08, 0x10, 0x20, 0x40, 0x80, 0x87, 0x89, 0x95, 0xad, 0xdd, 0x3d, 0x7a, 0xf4,
   0x6f, 0xde, 0x3b, 0x76, 0xec, 0x5f, 0xbe, 0xfb, 0x71, 0xe2, 0x43, 0x86, 0x8b, 0x91, 0xa5, 0xcd,
   0x1d, 0x3a, 0x74, 0xe8, 0x57, 0xae, 0xdb, 0x31, 0x62, 0xc4, 0x0f, 0x1e, 0x3c, 0x78, 0xf0, 0x67,
   0xce, 0x1b, 0x36, 0x6c, 0xd8, 0x37, 0x6e, 0xdc, 0x3f, 0x7e, 0xfc, 0x7f, 0xfe, 0x7b, 0xf6, 0x6b,
   0xd6, 0x2b, 0x56, 0xac, 0xdf, 0x39, 0x72, 0xe4, 0x4f, 0x9e, 0xbb, 0xf1, 0x65, 0xca, 0x13, 0x26,
   0x4c, 0x98, 0xb7, 0xe9, 0x55, 0xaa, 0xd3, 0x21, 0x42, 0x84, 0x8f, 0x99, 0xb5, 0xed, 0x5d, 0xba,
   0xf3, 0x61, 0xc2, 0x03, 0x06, 0x0c, 0x18, 0x30, 0x60, 0xc0, 0x07, 0x0e, 0x1c, 0x38, 0x70, 0xe0,
   0x47, 0x8e, 0x9b, 0xb1, 0xe5, 0x4d, 0x9a, 0xb3, 0xe1, 0x45, 0x8a, 0x93, 0xa1, 0xc5, 0x0d, 0x1a,
   0x34, 0x68, 0xd0, 0x27, 0x4e, 0x9c, 0xbf, 0xf9, 0x75, 0xea, 0x53, 0xa6, 0xcb, 0x11, 0x22, 0x44,
   0x88, 0x97, 0xa9, 0xd5, 0x2d, 0x5a, 0xb4, 0xef, 0x59, 0xb2, 0xe3, 0x41, 0x82, 0x83, 0x81, 0x85,
   0x8d, 0x9d, 0xbd, 0xfd, 0x7d, 0xfa, 0x73, 0xe6, 0x4b, 0x96, 0xab, 0xd1, 0x25, 0x4a, 0x94, 0xaf,
   0xd9, 0x35, 0x6a, 0xd4, 0x2f, 0x5e, 0xbc, 0xff, 0x79, 0xf2, 0x63, 0xc6, 0x0b, 0x16, 0x2c, 0x58,
   0xb0, 0xe7, 0x49, 0x92, 0xa3, 0xc1, 0x05, 0x0a, 0x14, 0x28, 0x50, 0xa0, 0xc7, 0x09, 0x12, 0x24,
   0x48, 0x90, 0xa7, 0xc9, 0x15, 0x2a, 0x54, 0xa8, 0xd7, 0x29, 0x52, 0xa4, 0xcf, 0x19, 0x32, 0x64,
   0xc8, 0x17, 0x2e, 0x5c, 0xb8, 0xf7, 0x69, 0xd2, 0x23, 0x46, 0x8c, 0x9f, 0xb9, 0xf5, 0x6d, 0xda,
   0x33, 0x66, 0xcc, 0x1f, 0x3e, 0x7c, 0xf8, 0x77, 0xee, 0x5b, 0xb6, 0xeb, 0x51, 0xa2, 0xc3, 0x01]

/-- `gflog[]`: entry `r^i` is `i`; the entry of zero is not valid. -/
def gflogTable : List ℕ :=
  [0xff, 0x00, 0x01, 0x63, 0x02, 0xc6, 0x64, 0x6a, 0x03, 0xcd, 0xc7, 0xbc, 0x65, 0x7e, 0x6b, 0x2a,
   0x04, 0x8d, 0xce, 0x4e, 0xc8, 0xd4, 0xbd, 0xe1, 0x66, 0xdd, 0x7f, 0x31, 0x6c, 0x20, 0x2b, 0xf3,
   0x05, 0x57, 0x8e, 0xe8, 0xcf, 0xac, 0x4f, 0x83, 0xc9, 0xd9, 0xd5, 0x41, 0xbe, 0x94, 0xe2, 0xb4,
   0x67, 0x27, 0xde, 0xf0, 0x80, 0xb1, 0x32, 0x35, 0x6d, 0x45, 0x21, 0x12, 0x2c, 0x0d, 0xf4, 0x38,
   0x06, 0x9b, 0x58, 0x1a, 0x8f, 0x79, 0xe9, 0x70, 0xd0, 0xc2, 0xad, 0xa8, 0x50, 0x75, 0x84, 0x48,
   0xca, 0xfc, 0xda, 0x8a, 0xd6, 0x54, 0x42, 0x24, 0xbf, 0x98, 0x95, 0xf9, 0xe3, 0x5e, 0xb5, 0x15,
   0x68, 0x61, 0x28, 0xba, 0xdf, 0x4c, 0xf1, 0x2f, 0x81, 0xe6, 0xb2, 0x3f, 0x33, 0xee, 0x36, 0x10,
   0x6e, 0x18, 0x46, 0xa6, 0x22, 0x88, 0x13, 0xf7, 0x2d, 0xb8, 0x0e, 0x3d, 0xf5, 0xa4, 0x39, 0x3b,
   0x07, 0x9e, 0x9c, 0x9d, 0x59, 0x9f, 0x1b, 0x08, 0x90, 0x09, 0x7a, 0x1c, 0xea, 0xa0, 0x71, 0x5a,
   0xd1, 0x1d, 0xc3, 0x7b, 0xae, 0x0a, 0xa9, 0x91, 0x51, 0x5b, 0x76, 0x72, 0x85, 0xa1, 0x49, 0xeb,
   0xcb, 0x7c, 0xfd, 0xc4, 0xdb, 0x1e, 0x8b, 0xd2, 0xd7, 0x92, 0x55, 0xaa, 0x43, 0x0b, 0x25, 0xaf,
   0xc0, 0x73, 0x99, 0x77, 0x96, 0x5c, 0xfa, 0x52, 0xe4, 0xec, 0x5f, 0x4a, 0xb6, 0xa2, 0x16, 0x86,
   0x69, 0xc5, 0x62, 0xfe, 0x29, 0x7d, 0xbb, 0xcc, 0xe0, 0xd3, 0x4d, 0x8c, 0xf2, 0x1f, 0x30, 0xdc,
   0x82, 0xab, 0xe7, 0x56, 0xb3, 0x93, 0x40, 0xd8, 0x34, 0xb0, 0xef, 0x26, 0x37, 0x0c, 0x11, 0x44,
   0x6f, 0x78, 0x19, 0x9a, 0x47, 0x74, 0xa7, 0xc1, 0x23, 0x53, 0x89, 0xfb, 0x14, 0x5d, 0xf8, 0x97,
   0x2e, 0x4b, 0xb9, 0x60, 0x0f, 0xed, 0x3e, 0xe5, 0xf6, 0x87, 0xa5, 0x17, 0x3a, 0xa3, 0x3c, 0xb7]

/-- `gfmul_c0[]`: multiplication by `r^105`. -/
def gfmulC0Table : List ℕ :=
  [0x00, 0xc0, 0x07, 0xc7, 0x0e, 0xce, 0x09, 0xc9, 0x1c, 0xdc, 0x1b, 0xdb, 0x12, 0xd2, 0x15, 0xd5,
   0x38, 0xf8, 0x3f, 0xff, 0x36, 0xf6, 0x31, 0xf1, 0x24, 0xe4, 0x23, 0xe3, 0x2a, 0xea, 0x2d, 0xed,
   0x70, 0xb0, 0x77, 0xb7, 0x7e, 0xbe, 0x79, 0xb9, 0x6c, 0xac, 0x6b, 0xab, 0x62, 0xa2, 0x65, 0xa5,
   0x48, 0x88, 0x4f, 0x8f, 0x46, 0x86, 0x41, 0x81, 0x54, 0x94, 0x53, 0x93, 0x5a, 0x9a, 0x5d, 0x9d,
   0xe0, 0x20, 0xe7, 0x27, 0xee, 0x2e, 0xe9, 0x29, 0xfc, 0x3c, 0xfb, 0x3b, 0xf2, 0x32, 0xf5, 0x35,
   0xd8, 0x18, 0xdf, 0x1f, 0xd6, 0x16, 0xd1, 0x11, 0xc4, 0x04, 0xc3, 0x03, 0xca, 0x0a, 0xcd, 0x0d,
   0x90, 0x50, 0x97, 0x57, 0x9e, 0x5e, 0x99, 0x59, 0x8c, 0x4c, 0x8b, 0x4b, 0x82, 0x42, 0x85, 0x45,
   0xa8, 0x68, 0xaf, 0x6f, 0xa6, 0x66, 0xa1, 0x61, 0xb4, 0x74, 0xb3, 0x73, 0xba, 0x7a, 0xbd, 0x7d,
   0x47, 0x87, 0x40, 0x80, 0x49, 0x89, 0x4e, 0x8e, 0x5b, 0x9b, 0x5c, 0x9c, 0x55, 0x95, 0x52, 0x92,
   0x7f, 0xbf, 0x78, 0xb8, 0x71, 0xb1, 0x76, 0xb6, 0x63, 0xa3, 0x64, 0xa4, 0x6d, 0xad, 0x6a, 0xaa,
   0x37, 0xf7, 0x30, 0xf0, 0x39, 0xf9, 0x3e, 0xfe, 0x2b, 0xeb, 0x2c, 0xec, 0x25, 0xe5, 0x22, 0xe2,
   0x0f, 0xcf, 0x08, 0xc8, 0x01, 0xc1, 0x06, 0xc6, 0x13, 0xd3, 0x14, 0xd4, 0x1d, 0xdd, 0x1a, 0xda,
   0xa7, 0x67, 0xa0, 0x60, 0xa9, 0x69, 0xae, 0x6e, 0xbb, 0x7b, 0xbc, 0x7c, 0xb5, 0x75, 0xb2, 0x72,
   0x9f, 0x5f, 0x98, 0x58, 0x91, 0x51, 0x96, 0x56, 0x83, 0x43, 0x84, 0x44, 0x8d, 0x4d, 0x8a, 0x4a,
   0xd7, 0x17, 0xd0, 0x10, 0xd9, 0x19, 0xde, 0x1e, 0xcb, 0x0b, 0xcc, 0x0c, 0xc5, 0x05, 0xc2, 0x02,
   0xef, 0x2f, 0xe8, 0x28, 0xe1, 0x21, 0xe6, 0x26, 0xf3, 0x33, 0xf4, 0x34, 0xfd, 0x3d, 0xfa, 0x3a]

/-- `gfpow[i]`. -/
def gfpow (i : ℕ) : Byte := BitVec.ofNat 8 (gfpowTable.getD i 0)

/-- `gflog[a]`, promoted to an integer as in every expression that reads it. -/
def gflog (a : Byte) : ℕ := gflogTable.getD a.toNat 0

/-- `gfmul_c0[a]`. -/
def gfmulC0 (a : Byte) : Byte := BitVec.ofNat 8 (gfmulC0Table.getD a.toNat 0)

/-- `mod255()`: reduces exponents in `-255, ..., 509`. The result is returned as a byte. -/
def mod255 (v : ℤ) : ℕ := ((if 0 < v then if v < 255 then v else v - 255 else v + 255) % 256).toNat

/-- `gfadd()`. -/
def gfadd (a b : Byte) : Byte := a ^^^ b

/-- `gfmul()`. -/
def gfmul (a b : Byte) : Byte :=
  if a ≠ 0 ∧ b ≠ 0 then gfpow (mod255 (gflog a + gflog b)) else 0

/-- `gfmul_exp()`: the logarithm of the second factor is already known. -/
def gfmulExp (a : Byte) (b : ℤ) : Byte := if a ≠ 0 then gfpow (mod255 (gflog a + b)) else 0

/-- `gfdiv()`, with its answer to a division by zero. -/
def gfdiv (a b : Byte) : Byte :=
  if b = 0 then 0xff else if a = 0 then 0 else gfpow (mod255 ((gflog a : ℤ) - gflog b))

/-- A byte read as an element of the field. -/
@[ext] structure Gf where
  byte : Byte
deriving DecidableEq

instance : Zero Gf := ⟨⟨0⟩⟩

instance : Add Gf := ⟨fun a b => ⟨gfadd a.byte b.byte⟩⟩

instance : Neg Gf := ⟨id⟩

/-- Addition of field elements is the bitwise sum, and every element is its own negative. -/
instance : AddCommGroup Gf where
  add_assoc a b c := Gf.ext (BitVec.xor_assoc a.byte b.byte c.byte)
  add_comm a b := Gf.ext (BitVec.xor_comm a.byte b.byte)
  zero_add a := Gf.ext BitVec.zero_xor
  add_zero a := Gf.ext BitVec.xor_zero
  neg_add_cancel a := Gf.ext BitVec.xor_self
  nsmul := nsmulRec
  zsmul := zsmulRec

/-- Multiplication by `r`: shift left and reduce by `0x187`. -/
def timesR (a : Byte) : Byte := (a <<< 1) ^^^ (if a.msb then 0x87 else 0)

/-- Multiplication by `r` is additive. -/
theorem timesR_xor (a b : Byte) : timesR (a ^^^ b) = timesR a ^^^ timesR b := by
  have hreduce : (if (a ^^^ b).msb then (0x87 : Byte) else 0) =
      (if a.msb then 0x87 else 0) ^^^ (if b.msb then 0x87 else 0) := by
    rw [BitVec.msb_xor]
    cases a.msb <;> cases b.msb <;> rfl
  unfold timesR
  rw [BitVec.shiftLeft_xor_distrib, hreduce]
  ac_rfl

/-- Consecutive table entries differ by a factor `r`, checked on the whole table at once. -/
private theorem gfpowTable_tail :
    gfpowTable.tail = (gfpowTable.take 255).map fun v => (timesR (BitVec.ofNat 8 v)).toNat := by
  decide +kernel

/-- Consecutive powers differ by a factor `r`. -/
theorem gfpow_succ {i : ℕ} (hi : i < 255) : gfpow (i + 1) = timesR (gfpow i) := by
  have hlen : gfpowTable.length = 256 := by decide +kernel
  have hentry : gfpowTable.getD (i + 1) 0 =
      (timesR (BitVec.ofNat 8 (gfpowTable.getD i 0))).toNat := by
    have htail : gfpowTable.getD (i + 1) 0 = gfpowTable.tail.getD i 0 := by
      simp [List.getD_eq_getElem?_getD]
    rw [htail, gfpowTable_tail]
    simp [List.getD_eq_getElem?_getD, hi, hlen, show i < 256 by omega]
  rw [gfpow, hentry, BitVec.ofNat_toNat, BitVec.setWidth_eq, gfpow]

/-- The entry of zero is out of range, every other logarithm is below the period. -/
theorem gflog_lt : ∀ a : Byte, a ≠ 0 → gflog a < 255 := by
  have htable : ∀ v ∈ gflogTable.tail, v < 255 := by decide +kernel
  intro a ha
  have hlen : gflogTable.length = 256 := by decide +kernel
  have hpos : a.toNat ≠ 0 := fun h => ha (BitVec.eq_of_toNat_eq h)
  have hlt : a.toNat - 1 < gflogTable.tail.length := by
    have := a.isLt
    simp only [List.length_tail, hlen]
    omega
  have hentry : gflog a = gflogTable.tail[a.toNat - 1] := by
    rw [gflog, List.getD_eq_getElem _ _ (by rw [hlen]; exact a.isLt), List.getElem_tail]
    congr 1
    omega
  rw [hentry]
  exact htable _ (List.getElem_mem hlt)

/-- The tables invert each other. -/
theorem gfpow_gflog : ∀ a : Byte, a ≠ 0 → gfpow (gflog a) = a := by decide +kernel

/-- Multiplication by `r` as an additive map. -/
def timesRHom : Gf →+ Gf where
  toFun a := ⟨timesR a.byte⟩
  map_zero' := rfl
  map_add' a b := Gf.ext (timesR_xor a.byte b.byte)

/-- The orbit of one under multiplication by `r` is the power table. -/
theorem timesRHom_iterate {i : ℕ} (hi : i ≤ 255) : timesRHom^[i] ⟨1⟩ = ⟨gfpow i⟩ := by
  induction i with
  | zero => rfl
  | succ i ih =>
    rw [Function.iterate_succ_apply', ih (by omega), gfpow_succ (by omega)]
    rfl

/-- The register that multiplies by `r`, with the tables as its orbit. -/
def gfShift : PrimitiveShift Gf where
  one := ⟨1⟩
  shift := timesRHom
  log a := gflog a.byte
  period := 255
  one_ne_zero := by decide
  period_pos := by decide
  shift_period := by
    rw [timesRHom_iterate le_rfl]
    rfl
  shift_log a ha := by
    have hbyte : a.byte ≠ 0 := fun h => ha (Gf.ext h)
    rw [timesRHom_iterate (gflog_lt a.byte hbyte).le, gfpow_gflog a.byte hbyte]

/-- The field with 256 elements. -/
instance : Field Gf := gfShift.toField

/-- The primitive element `r`. -/
def rootR : Gf := ⟨2⟩

/-- Powers of `r` are those of the register. -/
theorem rootR_pow (k : ℕ) : rootR ^ k = gfShift.power k := by
  induction k with
  | zero => rfl
  | succ k ih =>
    have hone : rootR = gfShift.power 1 := rfl
    rw [pow_succ, ih, hone]
    exact gfShift.power_mul_power k 1

/-- The power table lists the powers of `r`. -/
theorem gf_gfpow {i : ℕ} (hi : i ≤ 255) : (⟨gfpow i⟩ : Gf) = rootR ^ i := by
  rw [rootR_pow]
  exact (timesRHom_iterate hi).symm

/-- `r` is not zero. -/
theorem rootR_ne_zero : rootR ≠ 0 := by decide

/-- The powers of `r` repeat after 255 steps. -/
theorem rootR_pow_period : rootR ^ 255 = 1 := by rw [rootR_pow]; exact gfShift.shift_period

/-- A nonzero byte is the power of `r` that the logarithm table names. -/
theorem gf_eq_pow {a : Byte} (ha : a ≠ 0) : (⟨a⟩ : Gf) = rootR ^ gflog a := by
  rw [← gf_gfpow (gflog_lt a ha).le, gfpow_gflog a ha]

/-- The field has characteristic two. -/
instance : CharP Gf 2 :=
  CharTwo.of_one_ne_zero_of_two_eq_zero one_ne_zero (by
    rw [← one_add_one_eq_two]
    rfl)

/-- No proper divisor of 255 is a period, so `r` is primitive. -/
theorem orderOf_rootR : orderOf rootR = 255 := by
  refine orderOf_eq_of_pow_and_pow_div_prime (by decide) rootR_pow_period fun p hp hdvd => ?_
  have hprime : p = 3 ∨ p = 5 ∨ p = 17 := by
    rw [show 255 = 3 * 5 * 17 from rfl, hp.dvd_mul, hp.dvd_mul] at hdvd
    rcases hdvd with (h | h) | h
    · exact Or.inl ((Nat.prime_dvd_prime_iff_eq hp (by norm_num)).mp h)
    · exact Or.inr (Or.inl ((Nat.prime_dvd_prime_iff_eq hp (by norm_num)).mp h))
    · exact Or.inr (Or.inr ((Nat.prime_dvd_prime_iff_eq hp (by norm_num)).mp h))
  have hne {k : ℕ} (hk : k ≤ 255) (hbyte : gfpow k ≠ 1) : rootR ^ k ≠ 1 := by
    rw [← gf_gfpow hk]
    exact fun h => hbyte (congrArg Gf.byte h)
  rcases hprime with rfl | rfl | rfl
  · exact hne (k := 85) (by decide) (by decide +kernel)
  · exact hne (k := 51) (by decide) (by decide +kernel)
  · exact hne (k := 15) (by decide) (by decide +kernel)

/-- The 255 powers below the period are distinct. -/
theorem rootR_pow_injOn : Set.InjOn (fun i : ℕ => rootR ^ i) {i | i < 255} := by
  have h := pow_injOn_Iio_orderOf (x := rootR)
  rw [orderOf_rootR] at h
  exact h

/-- An exponent in the documented range selects the power of `r` it names. -/
theorem gf_gfpow_mod255 {v : ℤ} (hlow : -255 ≤ v) (hhigh : v ≤ 509) :
    (⟨gfpow (mod255 v)⟩ : Gf) = rootR ^ v := by
  have hperiod : rootR ^ (255 : ℤ) = 1 := by exact_mod_cast rootR_pow_period
  have hcast (w : ℤ) (hw : 0 ≤ w) (hw' : w ≤ 255) :
      (⟨gfpow (w % 256).toNat⟩ : Gf) = rootR ^ w := by
    obtain ⟨n, rfl⟩ := Int.eq_ofNat_of_zero_le hw
    have hmod : ((n : ℤ) % 256).toNat = n := by omega
    rw [hmod, gf_gfpow (by omega), zpow_natCast]
  unfold mod255
  split
  · split
    · exact hcast v (by omega) (by omega)
    · rw [hcast (v - 255) (by omega) (by omega), zpow_sub₀ rootR_ne_zero, hperiod, div_one]
  · rw [hcast (v + 255) (by omega) (by omega), zpow_add₀ rootR_ne_zero, hperiod, mul_one]

/-- `gfadd()` adds. -/
theorem gf_gfadd (a b : Byte) : (⟨gfadd a b⟩ : Gf) = ⟨a⟩ + ⟨b⟩ := rfl

/-- A byte is zero exactly when its field element is. -/
theorem gf_eq_zero {a : Byte} : (⟨a⟩ : Gf) = 0 ↔ a = 0 :=
  ⟨fun h => congrArg Gf.byte h, fun h => by rw [h]; rfl⟩

/-- `gfmul()` multiplies. -/
theorem gf_gfmul (a b : Byte) : (⟨gfmul a b⟩ : Gf) = ⟨a⟩ * ⟨b⟩ := by
  unfold gfmul
  split
  · next h =>
    have ha := gflog_lt a h.1
    have hb := gflog_lt b h.2
    rw [gf_gfpow_mod255 (by omega) (by omega), gf_eq_pow h.1, gf_eq_pow h.2, ← pow_add]
    exact_mod_cast rfl
  · next h =>
    rcases not_and_or.mp h with ha | hb
    · rw [not_not.mp ha]
      exact (zero_mul _).symm
    · rw [not_not.mp hb]
      exact (mul_zero _).symm

/-- `gfmul_exp()` multiplies by a power of `r`. -/
theorem gf_gfmulExp (a : Byte) {b : ℤ} (hlow : -255 ≤ b) (hhigh : b ≤ 255) :
    (⟨gfmulExp a b⟩ : Gf) = ⟨a⟩ * rootR ^ b := by
  unfold gfmulExp
  split
  · next h =>
    have ha := gflog_lt a h
    rw [gf_gfpow_mod255 (by omega) (by omega), gf_eq_pow h, zpow_add₀ rootR_ne_zero, zpow_natCast]
  · next h =>
    rw [not_not.mp h]
    exact (zero_mul _).symm

/-- `gfdiv()` divides by nonzero bytes. -/
theorem gf_gfdiv (a : Byte) {b : Byte} (hb : b ≠ 0) : (⟨gfdiv a b⟩ : Gf) = ⟨a⟩ / ⟨b⟩ := by
  unfold gfdiv
  rw [if_neg hb]
  split
  · next h =>
    rw [h]
    exact (zero_div _).symm
  · next h =>
    have hla := gflog_lt a h
    have hlb := gflog_lt b hb
    rw [gf_gfpow_mod255 (by omega) (by omega), gf_eq_pow h, gf_eq_pow hb,
      zpow_sub₀ rootR_ne_zero, zpow_natCast, zpow_natCast]

/-- The table for `r^105` multiplies by `r^7 + r^6`, checked on the whole table at once. -/
private theorem gfmulC0Table_eq :
    gfmulC0Table = (List.range 256).map fun v =>
      (timesR^[7] (BitVec.ofNat 8 v) ^^^ timesR^[6] (BitVec.ofNat 8 v)).toNat := by
  decide +kernel

/-- Repeated doubling of a byte multiplies by a power of `r`. -/
private theorem gf_timesR_iterate (k : ℕ) (a : Byte) :
    (⟨timesR^[k] a⟩ : Gf) = rootR ^ k * ⟨a⟩ := by
  induction k with
  | zero => rw [pow_zero, one_mul]; rfl
  | succ k ih =>
    have hstep : (⟨timesR (timesR^[k] a)⟩ : Gf) = rootR * ⟨timesR^[k] a⟩ :=
      (gfShift.power_mul 1 _).symm
    rw [Function.iterate_succ_apply', hstep, ih, pow_succ, mul_assoc, mul_left_comm]

/-- The feedback coefficient `r⁻¹ + 1 + r` is the byte `0xc0`. -/
theorem feedback_rootR : feedback rootR = ⟨0xc0⟩ := by
  have hinv : rootR⁻¹ = ⟨0xc3⟩ := inv_eq_of_mul_eq_one_right (by decide +kernel)
  rw [feedback, hinv]
  decide +kernel

/-- `gfmul_c0[]` multiplies by the feedback coefficient of the code. -/
theorem gf_gfmulC0 (a : Byte) : (⟨gfmulC0 a⟩ : Gf) = feedback rootR * ⟨a⟩ := by
  have hentry : gfmulC0 a = timesR^[7] a ^^^ timesR^[6] a := by
    have hlt : a.toNat < 256 := a.isLt
    rw [gfmulC0, gfmulC0Table_eq, List.getD_eq_getElem?_getD, List.getElem?_map,
      List.getElem?_range hlt]
    simp
  have hcoeff : feedback rootR = rootR ^ 7 + rootR ^ 6 := by
    rw [feedback_rootR, ← gf_gfpow (by decide), ← gf_gfpow (by decide)]
    decide +kernel
  rw [hentry, hcoeff, add_mul, ← gf_timesR_iterate, ← gf_timesR_iterate]
  rfl

end Ftape.Ecc
