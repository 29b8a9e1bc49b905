import Ftape.Algebra.ConsecutiveRoots
import Mathlib.Algebra.Polynomial.RingDivision

/-!
# Remainders as polynomials

A polynomial with three distinct roots of the generator is a multiple of it. So what the feedback register
holds after a message agrees with the message up to a power of the variable, modulo the generator.
-/

namespace Ftape.Algebra

open Finset Polynomial

variable {F : Type*} [Field F]

/-- The polynomial of the first entries of a message. -/
noncomputable def messagePolynomial (n : ℕ) (m : ℕ → F) : F[X] := ∑ i ∈ range n, C (m i) * X ^ i

/-- The polynomial that a register holds. -/
noncomputable def Register.polynomial (p : Register F) : F[X] := C p.p0 + C p.p1 * X + C p.p2 * X ^ 2

/-- The generator of the code with roots `r⁻¹`, `1` and `r`. -/
noncomputable def generatorPolynomial (r : F) : F[X] := (X - C r⁻¹) * (X - C 1) * (X - C r)

/-- The value of a message is that of its polynomial. -/
@[simp] theorem eval_messagePolynomial (n : ℕ) (m : ℕ → F) (x : F) :
    (messagePolynomial n m).eval x = messageValue n m x := by
  simp [messagePolynomial, messageValue, eval_finsetSum]

/-- The value of a register is that of its polynomial. -/
@[simp] theorem Register.eval_polynomial (p : Register F) (x : F) : p.polynomial.eval x = p.value x := by
  simp [Register.polynomial, Register.value]

/-- A polynomial that vanishes at three distinct roots is a multiple of the generator. -/
theorem generatorPolynomial_dvd {r : F} (hroots : Function.Injective ![r⁻¹, 1, r]) {f : F[X]}
    (hlow : f.eval r⁻¹ = 0) (hmid : f.eval 1 = 0) (hhigh : f.eval r = 0) : generatorPolynomial r ∣ f := by
  have hcoprime := pairwise_coprime_X_sub_C hroots
  have hlowMid : IsCoprime (X - C r⁻¹) (X - C (1 : F)) := hcoprime (i := 0) (j := 1) (by decide)
  have hlowHigh : IsCoprime (X - C r⁻¹) (X - C r) := hcoprime (i := 0) (j := 2) (by decide)
  have hmidHigh : IsCoprime (X - C (1 : F)) (X - C r) := hcoprime (i := 1) (j := 2) (by decide)
  have htwo : (X - C r⁻¹) * (X - C (1 : F)) ∣ f :=
    hlowMid.mul_dvd (dvd_iff_isRoot.mpr hlow) (dvd_iff_isRoot.mpr hmid)
  exact (hlowHigh.mul_left hmidHigh).mul_dvd htwo (dvd_iff_isRoot.mpr hhigh)

/-- After a message the register holds its remainder: multiplied by a power of the variable it agrees with the
message modulo the generator. -/
theorem Register.generatorPolynomial_dvd_run [CharP F 2] {r : F} (hr : r ≠ 0)
    (hroots : Function.Injective ![r⁻¹, 1, r]) (m : ℕ → F) (n : ℕ) :
    generatorPolynomial r ∣ X ^ n * (Register.run (feedback r) m n).polynomial - messagePolynomial n m := by
  have hvalue : ∀ x, x = r⁻¹ ∨ x = 1 ∨ x = r →
      (X ^ n * (Register.run (feedback r) m n).polynomial - messagePolynomial n m).eval x = 0 := by
    intro x hx
    have hrun := Register.value_run (generator_root hr hx) m n
    simp [hrun]
  apply generatorPolynomial_dvd hroots
  · exact hvalue _ (Or.inl rfl)
  · exact hvalue _ (Or.inr (Or.inl rfl))
  · exact hvalue _ (Or.inr (Or.inr rfl))

end Ftape.Algebra
