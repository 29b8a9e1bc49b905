import Mathlib.Algebra.Field.Basic
import Mathlib.Algebra.Group.Hom.Basic
import Mathlib.Tactic.Ring

/-!
# The field of a primitive shift

A shift register on an additive group whose orbit through one state meets every nonzero
state makes the group a field: a nonzero state is a power of the shift, and the product
applies that power. Tables of logarithms and antilogarithms compute exactly this product.

Nothing here fixes the group or the register. An instance supplies the orbit as a
computable discrete logarithm, so the arithmetic can be evaluated.
-/

namespace Ftape.Algebra

/-- A linear register whose orbit through `one` lists every nonzero state. -/
structure PrimitiveShift (V : Type*) [AddCommGroup V] where
  one : V
  shift : V →+ V
  log : V → ℕ
  period : ℕ
  one_ne_zero : one ≠ 0
  period_pos : 0 < period
  shift_period : shift^[period] one = one
  shift_log : ∀ v, v ≠ 0 → shift^[log v] one = v

namespace PrimitiveShift

variable {V : Type*} [AddCommGroup V] (S : PrimitiveShift V)

/-- The state reached from `one` after `k` shifts. -/
def power (k : ℕ) : V := S.shift^[k] S.one

/-- The product applies the logarithm of the left factor to the right one. -/
def mul [DecidableEq V] (a b : V) : V := if a = 0 then 0 else S.shift^[S.log a] b

/-- The inverse runs the orbit of a nonzero state forward to the next multiple of the period. -/
def inv [DecidableEq V] (a : V) : V :=
  if a = 0 then 0 else S.power (S.period * S.log a - S.log a)

/-- Zero stays zero under every number of shifts. -/
@[simp] theorem iterate_zero (k : ℕ) : S.shift^[k] (0 : V) = 0 := iterate_map_zero S.shift k

/-- Every state is zero or a power, the case split behind all laws below. -/
theorem eq_zero_or_power (v : V) : v = 0 ∨ v = S.power (S.log v) := by
  by_cases hv : v = 0
  · exact Or.inl hv
  · exact Or.inr (S.shift_log v hv).symm

/-- Shifting a power adds the exponents. -/
theorem iterate_power (i j : ℕ) : S.shift^[i] (S.power j) = S.power (i + j) :=
  (Function.iterate_add_apply S.shift i j S.one).symm

/-- Two shift counts that agree on `one` agree on every state. -/
theorem iterate_eq_of_power_eq {i j : ℕ} (h : S.power i = S.power j) (v : V) :
    S.shift^[i] v = S.shift^[j] v := by
  rcases S.eq_zero_or_power v with hv | hv
  · rw [hv, iterate_zero, iterate_zero]
  · rw [hv, iterate_power, iterate_power, add_comm i, add_comm j, ← iterate_power, h, iterate_power]

/-- A full number of periods changes nothing. -/
theorem power_period_mul (n : ℕ) : S.power (S.period * n) = S.one := by
  induction n with
  | zero => rfl
  | succ n ih =>
    rw [Nat.mul_succ, add_comm, ← iterate_power, ih]
    exact S.shift_period

/-- Powers never vanish: a further shift brings them back to `one`. -/
theorem power_ne_zero (k : ℕ) : S.power k ≠ 0 := by
  intro h
  have hle : k ≤ S.period * k := Nat.le_mul_of_pos_left k S.period_pos
  have hone : S.power (S.period * k - k + k) = 0 := by rw [← iterate_power, h, iterate_zero]
  rw [Nat.sub_add_cancel hle, power_period_mul] at hone
  exact S.one_ne_zero hone

/-- The logarithm of a power applies the same shifts as its exponent. -/
theorem iterate_log_power (k : ℕ) (v : V) : S.shift^[S.log (S.power k)] v = S.shift^[k] v :=
  S.iterate_eq_of_power_eq (S.shift_log _ (S.power_ne_zero k)) v

variable [DecidableEq V]

/-- A product with zero on the left. -/
@[simp] theorem zero_mul' (b : V) : S.mul 0 b = 0 := if_pos rfl

/-- A product with zero on the right. -/
@[simp] theorem mul_zero' (a : V) : S.mul a 0 = 0 := by
  unfold mul
  split
  · rfl
  · exact S.iterate_zero _

/-- Multiplication by a power is the iterated shift, the law every other one reduces to. -/
theorem power_mul (k : ℕ) (v : V) : S.mul (S.power k) v = S.shift^[k] v := by
  rw [mul, if_neg (S.power_ne_zero k), iterate_log_power]

/-- Powers multiply by adding exponents. -/
theorem power_mul_power (i j : ℕ) : S.mul (S.power i) (S.power j) = S.power (i + j) := by
  rw [power_mul, iterate_power]

/-- The product commutes. -/
theorem mul_comm' (a b : V) : S.mul a b = S.mul b a := by
  rcases S.eq_zero_or_power a with ha | ha
  · simp [ha]
  rcases S.eq_zero_or_power b with hb | hb
  · simp [hb]
  rw [ha, hb, power_mul_power, power_mul_power, add_comm]

/-- The product associates. -/
theorem mul_assoc' (a b c : V) : S.mul (S.mul a b) c = S.mul a (S.mul b c) := by
  rcases S.eq_zero_or_power a with ha | ha
  · simp [ha]
  rcases S.eq_zero_or_power b with hb | hb
  · simp [hb]
  rw [ha, hb, power_mul_power, power_mul, power_mul, power_mul, ← Function.iterate_add_apply]

/-- The product distributes over addition on the right, because the shift is additive. -/
theorem mul_add' (a b c : V) : S.mul a (b + c) = S.mul a b + S.mul a c := by
  rcases S.eq_zero_or_power a with ha | ha
  · simp [ha]
  · rw [ha, power_mul, power_mul, power_mul, iterate_map_add]

/-- `one` is neutral. -/
theorem one_mul' (a : V) : S.mul S.one a = a := S.power_mul 0 a

/-- A nonzero state times its inverse is a whole number of periods. -/
theorem mul_inv' (a : V) (ha : a ≠ 0) : S.mul a (S.inv a) = S.one := by
  have hpower : S.power (S.log a) = a := S.shift_log a ha
  have hle : S.log a ≤ S.period * S.log a := Nat.le_mul_of_pos_left _ S.period_pos
  calc S.mul a (S.inv a)
      = S.mul (S.power (S.log a)) (S.power (S.period * S.log a - S.log a)) := by
        rw [hpower, inv, if_neg ha]
    _ = S.power (S.period * S.log a) := by rw [power_mul_power, Nat.add_sub_cancel' hle]
    _ = S.one := S.power_period_mul _

/-- The field whose product and inverse are those of the register. -/
abbrev toField : Field V where
  mul := S.mul
  one := S.one
  inv := S.inv
  mul_assoc := S.mul_assoc'
  mul_comm := S.mul_comm'
  one_mul := S.one_mul'
  mul_one a := (S.mul_comm' a S.one).trans (S.one_mul' a)
  zero_mul := S.zero_mul'
  mul_zero := S.mul_zero'
  left_distrib := S.mul_add'
  right_distrib a b c := by
    change S.mul (a + b) c = S.mul a c + S.mul b c
    rw [S.mul_comm' _ c, S.mul_add', S.mul_comm' c, S.mul_comm' c]
  exists_pair_ne := ⟨0, S.one, S.one_ne_zero.symm⟩
  mul_inv_cancel := S.mul_inv'
  inv_zero := if_pos rfl
  nnqsmul := _
  nnqsmul_def _ _ := rfl
  qsmul := _
  qsmul_def _ _ := rfl

end PrimitiveShift

end Ftape.Algebra
