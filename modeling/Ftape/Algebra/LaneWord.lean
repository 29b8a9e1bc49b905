import Mathlib.Data.Nat.Basic
import Mathlib.Tactic.Common

/-!
# Machine words as vectors of lanes

A word is cut into lanes of `b` bits, lane zero being the least significant one. Reading
the lanes of an assembled word gives back its parts, and a word is determined by its
lanes, so word-parallel code can be followed lane by lane.
-/

namespace Ftape.Algebra

variable {b n : ℕ}

/-- Lane `i` of a word: shift it to the bottom and mask. -/
def lane (b : ℕ) (a : BitVec n) (i : ℕ) : BitVec b := (a >>> (b * i)).setWidth b

/-- The word whose lanes below `w` are given by `f`, every part shifted into place. -/
def ofLanes (n : ℕ) (f : ℕ → BitVec b) : ℕ → BitVec n
  | 0 => 0#n
  | w + 1 => ofLanes n f w ||| ((f w).setWidth n <<< (b * w))

/-- Bit `j` of a lane. -/
theorem getLsbD_lane (a : BitVec n) (i j : ℕ) :
    (lane b a i).getLsbD j = (decide (j < b) && a.getLsbD (b * i + j)) := by
  simp [lane]

/-- Lanes commute with the bitwise sum. -/
@[simp] theorem lane_xor (a c : BitVec n) (i : ℕ) :
    lane b (a ^^^ c) i = lane b a i ^^^ lane b c i := by
  simp [lane, BitVec.ushiftRight_xor_distrib]

/-- Lanes commute with the bitwise or. -/
@[simp] theorem lane_or (a c : BitVec n) (i : ℕ) :
    lane b (a ||| c) i = lane b a i ||| lane b c i := by
  simp [lane, BitVec.ushiftRight_or_distrib]

/-- Every lane of the zero word is zero. -/
@[simp] theorem lane_zero (i : ℕ) : lane b (0#n) i = 0#b := by simp [lane]

/-- Bit `k` of an assembled word belongs to lane `k / b`. -/
theorem getLsbD_ofLanes (hb : 0 < b) (f : ℕ → BitVec b) (w k : ℕ) (hk : k < n) :
    (ofLanes n f w).getLsbD k = (decide (k < b * w) && (f (k / b)).getLsbD (k % b)) := by
  induction w with
  | zero => simp [ofLanes]
  | succ w ih =>
    rw [ofLanes, BitVec.getLsbD_or, ih, BitVec.getLsbD_shiftLeft, BitVec.getLsbD_setWidth]
    have hsucc : b * (w + 1) = b * w + b := Nat.mul_succ b w
    rcases Nat.lt_or_ge k (b * w) with hlow | hhigh
    · simp [hlow, show k < b * (w + 1) by omega]
    · rcases Nat.lt_or_ge k (b * (w + 1)) with htop | hpast
      · have hdiv : k / b = w := by
          rw [Nat.div_eq_iff hb, Nat.mul_comm w b]
          omega
        have hmod : k % b = k - b * w := by
          have := Nat.div_add_mod k b
          rw [hdiv] at this
          omega
        simp [hdiv, hmod, htop, hk, Nat.not_lt.mpr hhigh, show k - b * w < n by omega]
      · have hout : (f w).getLsbD (k - b * w) = false :=
          BitVec.getLsbD_of_ge _ _ (by omega)
        simp [hout, Nat.not_lt.mpr hpast, Nat.not_lt.mpr hhigh]

/-- Reading a lane of an assembled word. -/
theorem lane_ofLanes (hb : 0 < b) (f : ℕ → BitVec b) {w i : ℕ} (hi : i < w) (hn : b * w ≤ n) :
    lane b (ofLanes n f w) i = f i := by
  apply BitVec.eq_of_getLsbD_eq
  intro j hj
  have hbit : b * i + j < b * w := by
    calc b * i + j < b * i + b := by omega
      _ = b * (i + 1) := (Nat.mul_succ b i).symm
      _ ≤ b * w := Nat.mul_le_mul_left b hi
  have hdiv : (b * i + j) / b = i := by
    rw [Nat.mul_add_div hb, Nat.div_eq_of_lt hj, Nat.add_zero]
  have hmod : (b * i + j) % b = j := by rw [Nat.mul_add_mod, Nat.mod_eq_of_lt hj]
  rw [getLsbD_lane, getLsbD_ofLanes hb f w _ (by omega), hdiv, hmod]
  simp [hj, hbit]

/-- A word of whole lanes is determined by them. -/
theorem eq_of_lanes {w : ℕ} {a c : BitVec (b * w)} (hb : 0 < b)
    (h : ∀ i < w, lane b a i = lane b c i) : a = c := by
  apply BitVec.eq_of_getLsbD_eq
  intro k hk
  have hi : k / b < w := Nat.div_lt_of_lt_mul hk
  have hbit := congrArg (fun l => l.getLsbD (k % b)) (h (k / b) hi)
  simp only [getLsbD_lane, Nat.mod_lt k hb, decide_true, Bool.true_and, Nat.div_add_mod] at hbit
  exact hbit

end Ftape.Algebra
