import Mathlib.LinearAlgebra.Vandermonde
import Mathlib.Algebra.CharP.Two
import Mathlib.Algebra.BigOperators.Fin
import Mathlib.Tactic.FieldSimp
import Mathlib.Tactic.LinearCombination
import Mathlib.Tactic.Ring

/-!
# Codes with three consecutive roots

Words over a field are read as polynomials, and the codewords are the multiples of
`(x - r⁻¹)(x - 1)(x - r)`. The file gives the three parts every coder of such a code uses:
the feedback register that computes remainders, the distance bound, and the closed
solutions for one, two and three erasures and for one unknown error beside at most one
erasure.

The distance bound holds over every field. The register and the solvers are stated in
characteristic two, where signs disappear.
-/

namespace Ftape.Algebra

open Finset

variable {F : Type*} [Field F]

/-- The value at `x` of the polynomial whose coefficients are the first `n` entries. -/
def messageValue (n : ℕ) (m : ℕ → F) (x : F) : F := ∑ i ∈ range n, m i * x ^ i

/-- The three checks of a codeword of length `n`. -/
structure IsCodeword (r : F) (n : ℕ) (m : ℕ → F) : Prop where
  low : messageValue n m r⁻¹ = 0
  mid : messageValue n m 1 = 0
  high : messageValue n m r = 0

/-- Entries past the length do not matter. -/
theorem messageValue_congr {n : ℕ} {m m' : ℕ → F} (h : ∀ i < n, m i = m' i) (x : F) :
    messageValue n m x = messageValue n m' x :=
  sum_congr rfl fun i hi => by rw [h i (mem_range.mp hi)]

/-- Message values add, so an error contributes its own value. -/
theorem messageValue_add (n : ℕ) (m e : ℕ → F) (x : F) :
    messageValue n (fun i => m i + e i) x = messageValue n m x + messageValue n e x := by
  simp only [messageValue, add_mul, sum_add_distrib]

/-- Message values subtract, used to compare two words. -/
theorem messageValue_sub (n : ℕ) (m e : ℕ → F) (x : F) :
    messageValue n (fun i => m i - e i) x = messageValue n m x - messageValue n e x := by
  simp only [messageValue, sub_mul, sum_sub_distrib]

/-- One more entry adds its own term. -/
theorem messageValue_succ (n : ℕ) (m : ℕ → F) (x : F) :
    messageValue (n + 1) m x = messageValue n m x + m n * x ^ n :=
  sum_range_succ _ _

/-- A word supported on a set of positions is evaluated there. -/
theorem messageValue_eq_sum {n : ℕ} {m : ℕ → F} {T : Finset ℕ} (hT : ∀ i ∈ T, i < n)
    (hm : ∀ i < n, i ∉ T → m i = 0) (x : F) :
    messageValue n m x = ∑ i ∈ T, m i * x ^ i := by
  refine (sum_subset (fun i hi => mem_range.mpr (hT i hi)) fun i hi hnot => ?_).symm
  rw [hm i (mem_range.mp hi) hnot, zero_mul]

/-- The difference of two codewords is a codeword. -/
theorem IsCodeword.sub {r : F} {n : ℕ} {m m' : ℕ → F} (h : IsCodeword r n m)
    (h' : IsCodeword r n m') : IsCodeword r n (fun i => m i - m' i) where
  low := by rw [messageValue_sub, h.low, h'.low, sub_zero]
  mid := by rw [messageValue_sub, h.mid, h'.mid, sub_zero]
  high := by rw [messageValue_sub, h.high, h'.high, sub_zero]

/-- Weights on distinct locators vanish when as many moments as there are locators do. -/
theorem eq_zero_of_moments {ι : Type*} (T : Finset ι) (x e : ι → F)
    (hx : Set.InjOn x T) (h : ∀ j < T.card, ∑ i ∈ T, e i * x i ^ j = 0) :
    ∀ i ∈ T, e i = 0 := by
  classical
  let pick : Fin T.card → ι := fun k => (T.equivFin.symm k : ι)
  have hinj : Function.Injective fun k => x (pick k) := by
    intro a b hab
    have hpick := hx (T.equivFin.symm a).2 (T.equivFin.symm b).2 hab
    exact T.equivFin.symm.injective (Subtype.ext hpick)
  have hzero : (fun k => e (pick k)) = 0 := by
    refine Matrix.eq_zero_of_forall_pow_sum_mul_pow_eq_zero hinj fun j => ?_
    rw [← h j j.isLt, ← sum_coe_sort T]
    exact Equiv.sum_comp T.equivFin.symm fun i : T => e i * x i ^ (j : ℕ)
  intro i hi
  have hi' := congrFun hzero (T.equivFin ⟨i, hi⟩)
  simpa [pick] using hi'

/-- Weights on three distinct locators can have any first three moments. -/
theorem exists_weights {x : Fin 3 → F} (hx : Function.Injective x) (s : Fin 3 → F) :
    ∃ e : Fin 3 → F, ∀ j : Fin 3, ∑ i, e i * x i ^ (j : ℕ) = s j := by
  have hdet : IsUnit (Matrix.vandermonde x).det := isUnit_iff_ne_zero.mpr (Matrix.det_vandermonde_ne_zero_iff.mpr hx)
  refine ⟨Matrix.vecMul s (Matrix.vandermonde x)⁻¹, fun j => ?_⟩
  have hsolved : Matrix.vecMul (Matrix.vecMul s (Matrix.vandermonde x)⁻¹) (Matrix.vandermonde x) = s := by
    rw [Matrix.vecMul_vecMul, Matrix.nonsing_inv_mul _ hdet, Matrix.vecMul_one]
  exact congrFun hsolved j

/-- Three entries of a word are enough to give it any three checks. -/
theorem exists_three_entries {r : F} (hr : r ≠ 0) {n : ℕ} {l : Fin 3 → ℕ} (hl : ∀ k, l k < n)
    (hloc : Function.Injective fun k => r ^ l k) (s : Fin 3 → F) :
    ∃ m : ℕ → F, (∀ i, m i ≠ 0 → ∃ k, i = l k) ∧
      messageValue n m r⁻¹ = s 0 ∧ messageValue n m 1 = s 1 ∧ messageValue n m r = s 2 := by
  obtain ⟨e, he⟩ := exists_weights hloc s
  have hinj : Function.Injective l := fun a b h => hloc (congrArg (r ^ ·) h)
  have hpow (k : Fin 3) : r ^ l k ≠ 0 := pow_ne_zero _ hr
  let m : ℕ → F := fun i => ∑ k, if i = l k then e k * r ^ l k else 0
  have hentry (k : Fin 3) : m (l k) = e k * r ^ l k := by
    simp [m, hinj.eq_iff]
  have hsupport : ∀ i, m i ≠ 0 → ∃ k, i = l k := by
    intro i hi
    by_contra hnone
    push Not at hnone
    exact hi (sum_eq_zero fun k _ => if_neg (hnone k))
  have hvalue (x : F) : messageValue n m x = ∑ k, e k * r ^ l k * x ^ l k := by
    rw [messageValue_eq_sum (T := univ.image l), sum_image hinj.injOn]
    · exact sum_congr rfl fun k _ => by rw [hentry]
    · intro i hi
      obtain ⟨k, -, rfl⟩ := mem_image.mp hi
      exact hl k
    · intro i _ hi
      by_contra hne
      obtain ⟨k, rfl⟩ := hsupport i hne
      exact hi (mem_image_of_mem l (mem_univ k))
  refine ⟨m, hsupport, ?_, ?_, ?_⟩
  · rw [hvalue, ← he 0]
    refine sum_congr rfl fun k _ => ?_
    rw [inv_pow, mul_assoc, mul_inv_cancel₀ (hpow k), Fin.val_zero, pow_zero]
  · rw [hvalue, ← he 1]
    refine sum_congr rfl fun k _ => ?_
    rw [one_pow, mul_one, Fin.val_one, pow_one]
  · rw [hvalue, ← he 2]
    refine sum_congr rfl fun k _ => ?_
    rw [mul_assoc, Fin.val_two, pow_two]

/-- The minimum distance is four: a codeword with at most three nonzero entries is zero. -/
theorem IsCodeword.eq_zero {r : F} {n : ℕ} {m : ℕ → F} (h : IsCodeword r n m) (hr : r ≠ 0)
    (hloc : Set.InjOn (fun i : ℕ => r ^ i) {i | i < n}) {T : Finset ℕ} (hcard : T.card ≤ 3)
    (hT : ∀ i ∈ T, i < n) (hm : ∀ i < n, i ∉ T → m i = 0) : ∀ i < n, m i = 0 := by
  have hpow (i : ℕ) : r ^ i ≠ 0 := pow_ne_zero i hr
  -- dividing each weight by its locator turns the three checks into the first three moments
  have hweights : ∀ i ∈ T, m i * (r ^ i)⁻¹ = 0 := by
    refine eq_zero_of_moments T (fun i => r ^ i) _ (hloc.mono fun i hi => hT i hi) fun j hj => ?_
    have hj3 : j = 0 ∨ j = 1 ∨ j = 2 := by omega
    rcases hj3 with rfl | rfl | rfl
    · rw [← h.low, messageValue_eq_sum hT hm]
      exact sum_congr rfl fun i _ => by rw [pow_zero, mul_one, inv_pow]
    · rw [← h.mid, messageValue_eq_sum hT hm]
      refine sum_congr rfl fun i _ => ?_
      rw [pow_one, mul_assoc, inv_mul_cancel₀ (hpow i), one_pow]
    · rw [← h.high, messageValue_eq_sum hT hm]
      refine sum_congr rfl fun i _ => ?_
      rw [pow_two, mul_assoc, inv_mul_cancel_left₀ (hpow i)]
  intro i hi
  by_cases hiT : i ∈ T
  · exact (mul_eq_zero.mp (hweights i hiT)).resolve_right (inv_ne_zero (hpow i))
  · exact hm i hi hiT

/-- Two codewords that differ in at most three places agree. -/
theorem IsCodeword.eq_of_near {r : F} {n : ℕ} {m m' : ℕ → F} (h : IsCodeword r n m)
    (h' : IsCodeword r n m') (hr : r ≠ 0) (hloc : Set.InjOn (fun i : ℕ => r ^ i) {i | i < n})
    {T : Finset ℕ} (hcard : T.card ≤ 3) (hm : ∀ i < n, i ∉ T → m i = m' i) :
    ∀ i < n, m i = m' i := by
  intro i hi
  have hsub := (h.sub h').eq_zero hr hloc (T := T.filter (· < n))
    ((card_filter_le T _).trans hcard) (fun j hj => (mem_filter.mp hj).2)
    (fun j hj hnot => sub_eq_zero.mpr (hm j hj fun hjT => hnot (mem_filter.mpr ⟨hjT, hj⟩)))
  exact sub_eq_zero.mp (hsub i hi)

section Register

/-- The remainder polynomial held by the feedback register. -/
@[ext] structure Register (F : Type*) where
  p0 : F
  p1 : F
  p2 : F

/-- The empty register. -/
def Register.zero : Register F := ⟨0, 0, 0⟩

/-- Shift one message entry in, with feedback coefficient `c`. -/
def Register.step (c : F) (p : Register F) (m : F) : Register F :=
  ⟨c * (m + p.p0) + p.p1, c * (m + p.p0) + p.p2, m + p.p0⟩

/-- The register after the first `n` entries. -/
def Register.run (c : F) (m : ℕ → F) : ℕ → Register F
  | 0 => Register.zero
  | n + 1 => (Register.run c m n).step c (m n)

/-- The remainder polynomial at `x`. -/
def Register.value (p : Register F) (x : F) : F := p.p0 + p.p1 * x + p.p2 * x ^ 2

/-- Three values on distinct points determine the register. -/
theorem Register.eq_zero_of_values {p : Register F} {x : Fin 3 → F} (hx : Function.Injective x)
    (h : ∀ i, p.value (x i) = 0) : p = Register.zero := by
  have hcoeff : ![p.p0, p.p1, p.p2] = 0 := by
    refine Matrix.eq_zero_of_forall_index_sum_mul_pow_eq_zero hx fun j => ?_
    rw [Fin.sum_univ_three]
    simpa [Register.value] using h j
  have h0 := congrFun hcoeff 0
  have h1 := congrFun hcoeff 1
  have h2 := congrFun hcoeff 2
  exact Register.ext h0 h1 h2

variable [CharP F 2]

/-- The feedback coefficient of the code with roots `r⁻¹`, `1` and `r`. -/
def feedback (r : F) : F := r⁻¹ + 1 + r

/-- The generator polynomial vanishes at its three roots. -/
theorem generator_root {r x : F} (hr : r ≠ 0) (hx : x = r⁻¹ ∨ x = 1 ∨ x = r) :
    x ^ 3 + feedback r * x ^ 2 + feedback r * x + 1 = 0 := by
  have hprod : x ^ 3 - feedback r * x ^ 2 + feedback r * x - 1 =
      (x - r⁻¹) * (x - 1) * (x - r) := by
    unfold feedback
    field_simp
    ring
  have hzero : (x - r⁻¹) * (x - 1) * (x - r) = 0 := by
    rcases hx with h | h | h <;> simp [h]
  rw [hzero, CharTwo.sub_eq_add, CharTwo.sub_eq_add] at hprod
  exact hprod

/-- One shift divides by `x` at every root of the generator. -/
theorem Register.value_step {c x : F} (hx : x ^ 3 + c * x ^ 2 + c * x + 1 = 0)
    (p : Register F) (m : F) : x * (p.step c m).value x = p.value x + m := by
  have htwo : (2 : F) = 0 := CharTwo.two_eq_zero
  unfold Register.value Register.step
  linear_combination (m + p.p0) * hx - (m + p.p0) * htwo

/-- After `n` shifts the register holds the message value up to the factor `x ^ n`. -/
theorem Register.value_run {c x : F} (hx : x ^ 3 + c * x ^ 2 + c * x + 1 = 0) (m : ℕ → F)
    (n : ℕ) : x ^ n * (Register.run c m n).value x = messageValue n m x := by
  induction n with
  | zero => simp [Register.run, Register.zero, Register.value, messageValue]
  | succ n ih =>
    have hstep := Register.value_step hx (Register.run c m n) (m n)
    rw [messageValue_succ, ← ih, Register.run]
    linear_combination x ^ n * hstep

end Register

section Solvers

variable [CharP F 2]

/-- Distinct values have a nonzero sum in characteristic two. -/
theorem add_ne_zero_of_ne {a b : F} (h : a ≠ b) : a + b ≠ 0 :=
  fun hsum => h (CharTwo.add_eq_zero.mp hsum)

/-- Two erasures at `x` and `y` are solved from the first two checks. -/
theorem two_erasures {x y : F} (hxy : x ≠ y) (e f : F) :
    let s0 := e * x⁻¹ + f * y⁻¹
    let s1 := e + f
    (s0 + y⁻¹ * s1) * (x⁻¹ + y⁻¹)⁻¹ = e ∧ (s0 + x⁻¹ * s1) * (x⁻¹ + y⁻¹)⁻¹ = f := by
  have hdet : x⁻¹ + y⁻¹ ≠ 0 := add_ne_zero_of_ne fun h => hxy (inv_injective h)
  have htwo : (2 : F) = 0 := CharTwo.two_eq_zero
  constructor
  · rw [mul_inv_eq_iff_eq_mul₀ hdet]
    linear_combination f * y⁻¹ * htwo
  · rw [mul_inv_eq_iff_eq_mul₀ hdet]
    linear_combination e * x⁻¹ * htwo

/-- An erasure at `x` is eliminated from the checks; what remains belongs to the error at `y`. -/
theorem erasure_and_error {x y : F} (hx : x ≠ 0) (hy : y ≠ 0) (e f : F) :
    let s0 := e * x⁻¹ + f * y⁻¹
    let s1 := e + f
    let s2 := e * x + f * y
    s1 * x + s2 = f * (x + y) ∧ s0 * x + s1 = f * (x + y) * y⁻¹ := by
  have htwo : (2 : F) = 0 := CharTwo.two_eq_zero
  have hx1 : x * x⁻¹ = 1 := mul_inv_cancel₀ hx
  have hy1 : y * y⁻¹ = 1 := mul_inv_cancel₀ hy
  constructor
  · linear_combination e * x * htwo
  · linear_combination e * htwo + e * hx1 - f * hy1

/-- The determinant of three erasures, in the form the solvers compute it. -/
def erasureDet (x y z : F) : F := z / x + (y / x + (z / y + (y / z + (x / y + x / z))))

/-- The determinant is a product of locator differences, hence nonzero. -/
theorem erasureDet_ne_zero {x y z : F} (hx : x ≠ 0) (hy : y ≠ 0) (hz : z ≠ 0)
    (hxy : x ≠ y) (hxz : x ≠ z) (hyz : y ≠ z) : erasureDet x y z ≠ 0 := by
  have htwo : (2 : F) = 0 := CharTwo.two_eq_zero
  have hprod : erasureDet x y z = (x + y) * (x + z) * (y + z) / (x * y * z) := by
    unfold erasureDet
    field_simp
    linear_combination -(x * y * z) * htwo
  rw [hprod]
  have hne := mul_ne_zero (mul_ne_zero (add_ne_zero_of_ne hxy) (add_ne_zero_of_ne hxz))
    (add_ne_zero_of_ne hyz)
  exact div_ne_zero hne (mul_ne_zero (mul_ne_zero hx hy) hz)

/-- Three erasures at `x`, `y` and `z` are solved from all three checks. The statement gives
the first magnitude; the other two follow by permuting the locators. -/
theorem three_erasures {x y z : F} (hx : x ≠ 0) (hy : y ≠ 0) (hz : z ≠ 0)
    (hxy : x ≠ y) (hxz : x ≠ z) (hyz : y ≠ z) (e f g : F) :
    ((y + z) * (e * x⁻¹ + f * y⁻¹ + g * z⁻¹) + (z / y + y / z) * (e + f + g) +
      (y⁻¹ + z⁻¹) * (e * x + f * y + g * z)) * (erasureDet x y z)⁻¹ = e := by
  rw [mul_inv_eq_iff_eq_mul₀ (erasureDet_ne_zero hx hy hz hxy hxz hyz)]
  have htwo : (2 : F) = 0 := CharTwo.two_eq_zero
  -- the first column of the adjugate times the other two columns is even, hence zero
  have hy1 : y * y⁻¹ = 1 := mul_inv_cancel₀ hy
  have hz1 : z * z⁻¹ = 1 := mul_inv_cancel₀ hz
  unfold erasureDet
  simp only [div_eq_mul_inv]
  linear_combination (f + g) * (1 + z * y⁻¹ + y * z⁻¹) * htwo + (2 * f) * hy1 + (2 * g) * hz1

end Solvers

end Ftape.Algebra
