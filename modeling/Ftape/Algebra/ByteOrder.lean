import Mathlib.Data.Nat.Basic
import Mathlib.Tactic.Common
import Mathlib.Tactic.Ring

/-!
# Numbers in a byte memory

A number of `n` bytes is stored in a memory of bytes, least or most significant byte first. It is
read back from where it was stored, and a store leaves the other bytes alone.
-/

namespace Ftape.Algebra

/-- The number whose byte `i` is `f i`. -/
def ofBytes (f : ℕ → BitVec 8) : ℕ → ℕ
  | 0 => 0
  | n + 1 => (f 0).toNat + 256 * ofBytes (fun i => f (i + 1)) n

/-- The address of byte `i` of a number of `n` bytes at `a`. -/
def byteAt (bigEndian : Bool) (a n i : ℕ) : ℕ := a + if bigEndian then n - 1 - i else i

/-- The number of `n` bytes at `a`. -/
def fetch (bigEndian : Bool) (mem : ℕ → BitVec 8) (a n : ℕ) : ℕ :=
  ofBytes (fun i => mem (byteAt bigEndian a n i)) n

/-- Store the lower `n` bytes of a number at `a`. -/
def store (bigEndian : Bool) (mem : ℕ → BitVec 8) (a n value : ℕ) : ℕ → BitVec 8 :=
  fun k =>
    if a ≤ k ∧ k < a + n then
      BitVec.ofNat 8 (value / 256 ^ (if bigEndian then n - 1 - (k - a) else k - a))
    else mem k

/-- Numbers of equal bytes. -/
theorem ofBytes_congr {f g : ℕ → BitVec 8} {n : ℕ} (h : ∀ i, i < n → f i = g i) :
    ofBytes f n = ofBytes g n := by
  induction n generalizing f g with
  | zero => rfl
  | succ n ih =>
    rw [ofBytes, ofBytes, h 0 (Nat.succ_pos n)]
    rw [ih fun i hi => h (i + 1) (Nat.succ_lt_succ hi)]

/-- A number of `n` bytes is below `256 ^ n`. -/
theorem ofBytes_lt (f : ℕ → BitVec 8) (n : ℕ) : ofBytes f n < 256 ^ n := by
  induction n generalizing f with
  | zero => exact Nat.one_pos
  | succ n ih =>
    have hlow : (f 0).toNat < 256 := (f 0).isLt
    have hhigh := ih fun i => f (i + 1)
    rw [ofBytes, Nat.pow_succ]
    omega

/-- The bytes of a number make up the number again. -/
theorem ofBytes_digits {value n : ℕ} (h : value < 256 ^ n) :
    ofBytes (fun i => BitVec.ofNat 8 (value / 256 ^ i)) n = value := by
  induction n generalizing value with
  | zero =>
    rw [Nat.pow_zero] at h
    exact (Nat.lt_one_iff.mp h).symm
  | succ n ih =>
    have hshift : (fun i => BitVec.ofNat 8 (value / 256 ^ (i + 1))) =
        fun i => BitVec.ofNat 8 (value / 256 / 256 ^ i) := by
      funext i
      rw [Nat.pow_succ', Nat.div_div_eq_div_mul]
    have hdigit : (BitVec.ofNat 8 (value / 256 ^ 0)).toNat = value % 256 := by
      rw [Nat.pow_zero, Nat.div_one, BitVec.toNat_ofNat]
    rw [ofBytes, hshift, ih (Nat.div_lt_of_lt_mul (by rwa [Nat.pow_succ'] at h)), hdigit]
    exact Nat.mod_add_div value 256

/-- Numbers that are the same have the same bytes. -/
theorem ofBytes_injective {f g : ℕ → BitVec 8} {n : ℕ} (h : ofBytes f n = ofBytes g n) :
    ∀ i, i < n → f i = g i := by
  induction n generalizing f g with
  | zero => exact fun i hi => absurd hi (Nat.not_lt_zero i)
  | succ n ih =>
    rw [ofBytes, ofBytes] at h
    have hf : (f 0).toNat < 256 := (f 0).isLt
    have hg : (g 0).toNat < 256 := (g 0).isLt
    have hhead : (f 0).toNat = (g 0).toNat := by omega
    have htail := ih (f := fun i => f (i + 1)) (g := fun i => g (i + 1)) (by omega)
    intro i hi
    cases i with
    | zero => exact BitVec.eq_of_toNat_eq hhead
    | succ i => exact htail i (by omega)

/-- A fetched number is below `256 ^ n`. -/
theorem fetch_lt (bigEndian : Bool) (mem : ℕ → BitVec 8) (a n : ℕ) :
    fetch bigEndian mem a n < 256 ^ n := ofBytes_lt _ n

/-- Memories with equal bytes at a number hold the same number. -/
theorem fetch_congr {bigEndian : Bool} {mem mem' : ℕ → BitVec 8} {a n : ℕ}
    (h : ∀ k, a ≤ k → k < a + n → mem k = mem' k) :
    fetch bigEndian mem a n = fetch bigEndian mem' a n := by
  apply ofBytes_congr
  intro i hi
  apply h
  · exact Nat.le_add_right a _
  · unfold byteAt
    split <;> omega

/-- Memories that hold the same number hold the same bytes. -/
theorem fetch_injective {bigEndian : Bool} {mem mem' : ℕ → BitVec 8} {a b n : ℕ}
    (h : fetch bigEndian mem a n = fetch bigEndian mem' b n) :
    ∀ i, i < n → mem (a + i) = mem' (b + i) := by
  intro i hi
  cases bigEndian with
  | false => exact ofBytes_injective h i hi
  | true =>
    have hbyte := ofBytes_injective h (n - 1 - i) (by omega)
    simpa only [byteAt, if_true, show n - 1 - (n - 1 - i) = i by omega] using hbyte

/-- A stored number is read back. -/
theorem fetch_store (bigEndian : Bool) (mem : ℕ → BitVec 8) (a n : ℕ) {value : ℕ}
    (h : value < 256 ^ n) : fetch bigEndian (store bigEndian mem a n value) a n = value := by
  calc fetch bigEndian (store bigEndian mem a n value) a n
      = ofBytes (fun i => BitVec.ofNat 8 (value / 256 ^ i)) n := by
        apply ofBytes_congr
        intro i hi
        cases bigEndian with
        | false =>
          have hin : a ≤ a + i ∧ a + i < a + n := by omega
          have hoffset : a + i - a = i := by omega
          simp only [byteAt, store, Bool.false_eq_true, if_false, if_pos hin, hoffset]
        | true =>
          have hin : a ≤ a + (n - 1 - i) ∧ a + (n - 1 - i) < a + n := by omega
          have hoffset : n - 1 - (a + (n - 1 - i) - a) = i := by omega
          simp only [byteAt, store, if_true, if_pos hin, hoffset]
    _ = value := ofBytes_digits h

/-- A store leaves the bytes outside the number alone. -/
theorem store_of_outside (bigEndian : Bool) (mem : ℕ → BitVec 8) {a n k : ℕ} (value : ℕ)
    (h : k < a ∨ a + n ≤ k) : store bigEndian mem a n value k = mem k := by
  apply if_neg
  omega

end Ftape.Algebra
