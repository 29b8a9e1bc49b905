import Ftape.Volume.Positioning
import Mathlib.Algebra.Order.Floor.Div

/-!
# Bytes and blocks

Positions are counted in bytes and in blocks. The product of the blocks of a volume and their size is
taken in 32 bits, and so is the number of sectors that a quotient is rounded up with, so that both go
wrong on large tapes: the product from four gigabytes on, the quotient only in the last blocks in front
of four terabytes.
-/

namespace Ftape.Volume

open Ftape.Algebra

/-- The block sizes of a device: one byte, or some sectors. -/
def IsBlkSz (blkSz : ℕ) : Prop := blkSz = 1 ∨ 0 < blkSz ∧ 1024 ∣ blkSz ∧ blkSz ≤ zftMaxBlkSz

/-- A quotient that is rounded up after a wrap around is too small. -/
theorem mod_div_eq_iff {a k m : ℕ} (hk : 0 < k) (hkm : k ≤ m) (ha : a < 2 * m) :
    a % m / k = a / k ↔ a < m := by
  constructor
  · intro heq
    by_contra hge
    have hwrap : a % m = a - m := by
      rw [Nat.mod_eq_sub_mod (Nat.le_of_not_lt hge), Nat.mod_eq_of_lt (by omega)]
    have hless : (a - m) / k < a / k := by
      calc (a - m) / k < (a - m) / k + 1 := Nat.lt_succ_self _
        _ = (a - m + k) / k := (Nat.add_div_right _ hk).symm
        _ ≤ a / k := Nat.div_le_div_right (by omega)
    rw [hwrap] at heq
    exact hless.ne heq
  · intro hlt
    rw [Nat.mod_eq_of_lt hlt]

section Sectors

variable {k : ℕ}

/-- `zft_mul_blksz()` of blocks of `k` sectors. -/
theorem zftMulBlksz_sectors (n : ℕ) :
    zftMulBlksz n (1024 * k) = ((n * (1024 * k) % 2 ^ 32 : ℕ) : ℤ) := by
  have hbyte : 1024 * k ≠ 1 := by omega
  rw [zftMulBlksz, if_neg hbyte, Nat.mul_div_cancel_left k (by decide)]
  push_cast
  rw [mul_assoc, mul_comm (k : ℤ)]

/-- `zft_div_blksz()` of sectors into blocks of `k` sectors. -/
theorem zftDivBlksz_sectors (hk : 0 < k) (sectors : ℕ) :
    zftDivBlksz ((1024 * sectors : ℕ) : ℤ) (1024 * k) =
      pure (((sectors + k - 1) % 2 ^ 32 / k : ℕ) : ℤ) := by
  have hbyte : 1024 * k ≠ 1 := by omega
  have hsectors : 1024 * k / 1024 = k := Nat.mul_div_cancel_left k (by decide)
  have hvalue : ((1024 * sectors : ℕ) : ℤ) / 1024 = sectors := by
    rw [Nat.cast_mul]
    exact Int.mul_ediv_cancel_left _ (by decide)
  rw [zftDivBlksz, if_neg hbyte, hsectors, if_neg hk.ne', hvalue]
  have hsum : ((sectors : ℤ) + k - 1) = ((sectors + k - 1 : ℕ) : ℤ) := by omega
  rw [hsum]
  rfl

/-- The product is exact up to four gigabytes. -/
theorem zftMulBlksz_exact_iff (n : ℕ) :
    zftMulBlksz n (1024 * k) = ((n * (1024 * k) : ℕ) : ℤ) ↔ n * (1024 * k) < 2 ^ 32 := by
  rw [zftMulBlksz_sectors, Nat.cast_inj]
  exact ⟨fun heq => heq ▸ Nat.mod_lt _ (by decide), Nat.mod_eq_of_lt⟩

/-- The quotient is exact as long as rounding up does not wrap around. -/
theorem zftDivBlksz_exact_iff (hk : 0 < k) (hmax : 1024 * k ≤ zftMaxBlkSz) {sectors : ℕ}
    (hsectors : sectors < 2 ^ 32) :
    (zftDivBlksz ((1024 * sectors : ℕ) : ℤ) (1024 * k)).result =
        .ok (((1024 * sectors) ⌈/⌉ (1024 * k) : ℕ) : ℤ) ↔ sectors + k ≤ 2 ^ 32 := by
  have hceil : (1024 * sectors) ⌈/⌉ (1024 * k) = (sectors + k - 1) / k := by
    rw [Nat.ceilDiv_eq_add_pred_div, ← Nat.div_div_eq_div_mul]
    congr 1
    omega
  have hk32 : k ≤ 62 := by
    rw [zftMaxBlkSz] at hmax
    omega
  rw [zftDivBlksz_sectors hk, hceil]
  have hresult : (pure (((sectors + k - 1) % 2 ^ 32 / k : ℕ) : ℤ) : Call ℤ).result =
      .ok (((sectors + k - 1) % 2 ^ 32 / k : ℕ) : ℤ) := rfl
  rw [hresult, Except.ok.injEq, Nat.cast_inj, mod_div_eq_iff hk (by omega) (by omega)]
  omega

end Sectors

/-- Products and quotients are exact, and inverse to each other, for blocks of a byte, and for others just
if the product stays below four gigabytes and rounding up does not wrap around. -/
theorem zftBlkSz_exact_iff {blkSz n v : ℕ} (hblk : IsBlkSz blkSz) (hn : n * blkSz < 2 ^ 42)
    (hv : v < 2 ^ 42) (hsectors : blkSz = 1 ∨ 1024 ∣ v) :
    (zftMulBlksz n blkSz = ((n * blkSz : ℕ) : ℤ) ∧
        (zftDivBlksz v blkSz).result = .ok ((v ⌈/⌉ blkSz : ℕ) : ℤ) ∧
        (zftDivBlksz (zftMulBlksz n blkSz) blkSz).result = .ok (n : ℤ)) ↔
      blkSz = 1 ∨ n * blkSz < 2 ^ 32 ∧ v / 1024 + blkSz / 1024 ≤ 2 ^ 32 := by
  rcases hblk with rfl | ⟨hpos, ⟨k, rfl⟩, hmax⟩
  · have hresult : ∀ value : ℤ, (pure value : Call ℤ).result = .ok value := fun _ => rfl
    simp [zftMulBlksz, zftDivBlksz, hresult]
  · have hk : 0 < k := Nat.pos_of_mul_pos_left hpos
    have hbyte : 1024 * k ≠ 1 := by omega
    obtain ⟨sectors, rfl⟩ := hsectors.resolve_left hbyte
    have hmul : zftMulBlksz n (1024 * k) = ((n * (1024 * k) : ℕ) : ℤ) ↔ _ := zftMulBlksz_exact_iff n
    have hdiv := zftDivBlksz_exact_iff hk hmax (by omega : sectors < 2 ^ 32)
    have hk62 : k ≤ 62 := by
      rw [zftMaxBlkSz] at hmax
      omega
    rw [hmul, hdiv, Nat.mul_div_cancel_left sectors (by decide), Nat.mul_div_cancel_left k (by decide)]
    constructor
    · rintro ⟨hless, hfits, -⟩
      exact Or.inr ⟨hless, hfits⟩
    · intro hor
      obtain ⟨hless, hfits⟩ := hor.resolve_left hbyte
      refine ⟨hless, hfits, ?_⟩
      have hblocks : (1024 * (n * k)) ⌈/⌉ (1024 * k) = n := by
        rw [show 1024 * (n * k) = (1024 * k) • n by rw [smul_eq_mul]; ring]
        exact smul_ceilDiv (by omega) n
      have hbytes : n * (1024 * k) = 1024 * (n * k) := by ring
      have hback := zftDivBlksz_exact_iff hk hmax (by omega : n * k < 2 ^ 32)
      rw [hmul.mpr hless, hbytes, hback.mpr (by omega), hblocks]

/-- A block of ten kilobytes and a volume of a gigabyte. -/
theorem zftBlkSz_exact_gigabyte :
    zftMulBlksz 104857 10240 = ((104857 * 10240 : ℕ) : ℤ) ∧
      (zftDivBlksz (2 ^ 30 : ℕ) 10240).result = .ok (((2 ^ 30) ⌈/⌉ 10240 : ℕ) : ℤ) ∧
      (zftDivBlksz (zftMulBlksz 104857 10240) 10240).result = .ok ((104857 : ℕ) : ℤ) :=
  (zftBlkSz_exact_iff (Or.inr ⟨by decide, by decide, by decide⟩) (by decide) (by decide)
    (Or.inr (by decide))).mpr (Or.inr (by decide))

/-- The block that begins at four gigabytes is looked for at the beginning of the tape. -/
theorem zftBlkSz_inexact_four_gigabytes :
    IsBlkSz 1024 ∧ 4194304 * 1024 < 2 ^ 42 ∧ zftMulBlksz 4194304 1024 = 0 ∧
      ¬zftMulBlksz 4194304 1024 = ((4194304 * 1024 : ℕ) : ℤ) :=
  ⟨Or.inr ⟨by decide, by decide, by decide⟩, by decide, by decide, by decide⟩

end Ftape.Volume
