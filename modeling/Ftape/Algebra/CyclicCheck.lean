import Mathlib.Algebra.CharP.Two
import Mathlib.Algebra.Field.ZMod
import Mathlib.Algebra.Polynomial.Div
import Mathlib.Algebra.Polynomial.FieldDivision
import Mathlib.Data.BitVec
import Mathlib.Tactic.LinearCombination

/-!
# Cyclic redundancy checks

A shift register divides by a polynomial: it is shifted by one place for each bit, and the polynomial is
added whenever the bit that leaves it differs from the bit that comes in. What it holds in the end is a
remainder, so that two streams leave different remainders unless the polynomial divides their
difference.
-/

namespace Ftape.Algebra

open Polynomial

/-- A bit as a coefficient. -/
def bitCoeff (bit : Bool) : ZMod 2 := if bit then 1 else 0

/-- The polynomial of a stream of bits, the first bit being the leading coefficient. -/
noncomputable def streamPolynomial (bits : List Bool) : (ZMod 2)[X] :=
  bits.foldl (fun p bit => p * X + C (bitCoeff bit)) 0

/-- The polynomial of a register, the most significant bit being the leading coefficient. -/
noncomputable def registerPolynomial {w : ℕ} (register : BitVec w) : (ZMod 2)[X] :=
  ∑ i ∈ Finset.range w, C (bitCoeff (register.getLsbD i)) * X ^ i

/-- The polynomial that a register divides by: `terms` are those below the leading one. -/
noncomputable def checkPolynomial {w : ℕ} (terms : BitVec w) : (ZMod 2)[X] :=
  X ^ w + registerPolynomial terms

/-- The register is shifted for one bit. -/
def shiftBit {w : ℕ} (terms register : BitVec w) (bit : Bool) : BitVec w :=
  if register.msb ^^ bit then (register <<< 1) ^^^ terms else register <<< 1

/-- The register is shifted for each bit of a stream. -/
def shiftBits {w : ℕ} (terms register : BitVec w) (bits : List Bool) : BitVec w :=
  bits.foldl (shiftBit terms) register

/-- The most significant bits of a register. -/
def topBits {w : ℕ} (register : BitVec w) (n : ℕ) : List Bool := (List.range n).map register.getMsbD

section Streams

/-- The coefficients of bits add up like the bits. -/
theorem bitCoeff_xor (a b : Bool) : bitCoeff (a ^^ b) = bitCoeff a + bitCoeff b := by
  cases a <;> cases b <;> decide

/-- A coefficient determines its bit. -/
theorem bitCoeff_injective : Function.Injective bitCoeff := by
  intro a b h
  cases a <;> cases b <;> first | rfl | exact absurd h (by decide)

/-- The empty stream. -/
@[simp] theorem streamPolynomial_nil : streamPolynomial [] = 0 := rfl

/-- A stream that goes on for a bit. -/
theorem streamPolynomial_concat (bits : List Bool) (bit : Bool) :
    streamPolynomial (bits ++ [bit]) = streamPolynomial bits * X + C (bitCoeff bit) := by
  rw [streamPolynomial, List.foldl_append]
  rfl

/-- A stream that goes on. -/
theorem streamPolynomial_append (front back : List Bool) :
    streamPolynomial (front ++ back) = streamPolynomial front * X ^ back.length + streamPolynomial back := by
  induction back using List.reverseRecOn with
  | nil => simp
  | append_singleton back bit ih =>
    rw [← List.append_assoc, streamPolynomial_concat, ih, streamPolynomial_concat, List.length_append,
      List.length_singleton]
    ring

/-- The polynomial of a stream has a coefficient for each bit. -/
theorem degree_streamPolynomial_lt (bits : List Bool) : (streamPolynomial bits).degree < bits.length := by
  induction bits using List.reverseRecOn with
  | nil => simp
  | append_singleton bits bit ih =>
    rw [streamPolynomial_concat, List.length_append, List.length_singleton, Nat.cast_add, Nat.cast_one]
    refine lt_of_le_of_lt (degree_add_le _ _) (max_lt ?_ ?_)
    · rw [degree_mul_X]
      exact WithBot.add_lt_add_right WithBot.one_ne_bot ih
    · refine lt_of_le_of_lt degree_C_le ?_
      exact_mod_cast Nat.succ_pos bits.length

/-- A stream is determined by its length and its polynomial. -/
theorem streamPolynomial_injective {a b : List Bool} (hlength : a.length = b.length)
    (h : streamPolynomial a = streamPolynomial b) : a = b := by
  induction a using List.reverseRecOn generalizing b with
  | nil => exact (List.length_eq_zero_iff.mp hlength.symm).symm
  | append_singleton a x ih =>
    obtain rfl | ⟨b, y, rfl⟩ := List.eq_nil_or_concat' b
    · exact absurd hlength (by simp)
    rw [streamPolynomial_concat, streamPolynomial_concat] at h
    have hlast : bitCoeff x = bitCoeff y := by simpa using congrArg (coeff · 0) h
    rw [hlast] at h
    have hfront := mul_right_cancel₀ X_ne_zero (add_right_cancel h)
    rw [ih (by simpa using hlength) hfront, bitCoeff_injective hlast]

/-- The sum of the bits of a stream. -/
theorem eval_one_streamPolynomial (bits : List Bool) :
    (streamPolynomial bits).eval 1 = (bits.count true : ZMod 2) := by
  induction bits using List.reverseRecOn with
  | nil => simp
  | append_singleton bits bit ih =>
    rw [streamPolynomial_concat, eval_add, eval_mul, eval_X, eval_C, mul_one, ih, List.count_append,
      Nat.cast_add]
    cases bit <;> rfl

end Streams

section Registers

variable {w : ℕ}

/-- The coefficients are the bits of the register. -/
theorem coeff_registerPolynomial (register : BitVec w) (i : ℕ) :
    (registerPolynomial register).coeff i = bitCoeff (register.getLsbD i) := by
  rw [registerPolynomial, finsetSum_coeff]
  simp only [coeff_C_mul_X_pow]
  rw [Finset.sum_ite_eq]
  split
  · rfl
  next h =>
    rw [BitVec.getLsbD_of_ge register i (by simpa using h)]
    rfl

/-- The polynomial of a register has a coefficient for each bit. -/
theorem degree_registerPolynomial_lt (register : BitVec w) : (registerPolynomial register).degree < w := by
  rw [degree_lt_iff_coeff_zero]
  intro i hi
  rw [coeff_registerPolynomial, BitVec.getLsbD_of_ge register i hi]
  rfl

/-- A register is determined by its polynomial. -/
theorem registerPolynomial_injective : Function.Injective (registerPolynomial (w := w)) := by
  intro a b h
  refine BitVec.eq_of_getLsbD_eq fun i _ => bitCoeff_injective ?_
  rw [← coeff_registerPolynomial, ← coeff_registerPolynomial, h]

/-- Registers are added bit by bit. -/
theorem registerPolynomial_xor (a b : BitVec w) :
    registerPolynomial (a ^^^ b) = registerPolynomial a + registerPolynomial b := by
  ext i
  rw [coeff_add, coeff_registerPolynomial, coeff_registerPolynomial, coeff_registerPolynomial,
    BitVec.getLsbD_xor, bitCoeff_xor]

/-- A shift multiplies by the variable; the most significant bit leaves the register. -/
theorem registerPolynomial_shiftLeft (register : BitVec w) :
    registerPolynomial (register <<< 1) + C (bitCoeff register.msb) * X ^ w =
      X * registerPolynomial register := by
  ext i
  rw [coeff_add, coeff_registerPolynomial, coeff_C_mul_X_pow, BitVec.getLsbD_shiftLeft]
  cases i with
  | zero =>
    rw [mul_coeff_zero, coeff_X_zero, zero_mul]
    cases w with
    | zero => simp [BitVec.msb, bitCoeff]
    | succ w => simp [bitCoeff]
  | succ i =>
    rw [coeff_X_mul, coeff_registerPolynomial]
    rcases lt_trichotomy (i + 1) w with hlt | heq | hgt
    · simp [hlt, hlt.ne]
    · subst heq
      simp [BitVec.msb_eq_getLsbD_last, bitCoeff]
    · rw [BitVec.getLsbD_of_ge register i (by omega)]
      simp [hgt.not_gt, hgt.ne', bitCoeff]

/-- Shifting is additive in the register and the bit. -/
theorem shiftBit_xor (terms x y : BitVec w) (a b : Bool) :
    shiftBit terms (x ^^^ y) (a ^^ b) = shiftBit terms x a ^^^ shiftBit terms y b := by
  have hfeedback : ((x ^^^ y).msb ^^ (a ^^ b)) = ((x.msb ^^ a) ^^ (y.msb ^^ b)) := by
    rw [BitVec.msb_xor]
    cases x.msb <;> cases y.msb <;> cases a <;> cases b <;> rfl
  rw [shiftBit, shiftBit, shiftBit, hfeedback, BitVec.shiftLeft_xor_distrib]
  cases x.msb ^^ a <;> cases y.msb ^^ b
  · rfl
  · exact BitVec.xor_assoc _ _ _
  · simp only [Bool.xor_false, if_true, if_false, Bool.false_eq_true]
    rw [BitVec.xor_assoc, BitVec.xor_assoc, BitVec.xor_comm terms]
  · simp only [Bool.xor_self, if_true, if_false, Bool.false_eq_true]
    rw [BitVec.xor_comm (y <<< 1), ← BitVec.xor_assoc, BitVec.xor_assoc (x <<< 1), BitVec.xor_self,
      BitVec.xor_zero]

/-- Shifting is additive in the register and the stream. -/
theorem shiftBits_xor (terms x y : BitVec w) {a b : List Bool} (hlength : a.length = b.length) :
    shiftBits terms (x ^^^ y) (List.zipWith xor a b) = shiftBits terms x a ^^^ shiftBits terms y b := by
  induction a generalizing x y b with
  | nil =>
    rw [List.length_eq_zero_iff.mp hlength.symm]
    rfl
  | cons bit a ih =>
    cases b with
    | nil => exact absurd hlength (by simp)
    | cons bit' b =>
      have hstep := shiftBit_xor terms x y bit bit'
      calc shiftBits terms (x ^^^ y) (List.zipWith xor (bit :: a) (bit' :: b))
          = shiftBits terms (shiftBit terms (x ^^^ y) (bit ^^ bit')) (List.zipWith xor a b) := rfl
        _ = shiftBits terms x (bit :: a) ^^^ shiftBits terms y (bit' :: b) := by
          rw [hstep, ih _ _ (by simpa using hlength)]
          rfl

/-- A stream that is added twice. -/
theorem zipWith_xor_cancel {a b : List Bool} (hlength : a.length = b.length) :
    List.zipWith xor (List.zipWith xor a b) a = b := by
  induction a generalizing b with
  | nil => exact (List.length_eq_zero_iff.mp hlength.symm).symm
  | cons bit a ih =>
    cases b with
    | nil => exact absurd hlength (by simp)
    | cons bit' b =>
      have hbit : ((bit ^^ bit') ^^ bit) = bit' := by cases bit <;> cases bit' <;> rfl
      rw [List.zipWith_cons_cons, List.zipWith_cons_cons, ih (by simpa using hlength), hbit]

/-- The most significant bits of a sum. -/
theorem topBits_xor (x y : BitVec w) (n : ℕ) :
    topBits (x ^^^ y) n = List.zipWith xor (topBits x n) (topBits y n) := by
  rw [topBits, topBits, topBits, List.zipWith_map_left, List.zipWith_map_right, List.zipWith_self]
  exact List.map_congr_left fun i _ => BitVec.getMsbD_xor

/-- A register that takes its own most significant bits in is shifted without feedback. -/
theorem shiftBits_topBits (terms register : BitVec w) (n : ℕ) :
    shiftBits terms register (topBits register n) = register <<< n := by
  induction n with
  | zero => simp [shiftBits, topBits]
  | succ n ih =>
    have htop : topBits register (n + 1) = topBits register n ++ [register.getMsbD n] := by
      rw [topBits, List.range_succ, List.map_append]
      rfl
    have hlast : shiftBits terms register (topBits register (n + 1)) =
        shiftBit terms (register <<< n) (register.getMsbD n) := by
      rw [htop, shiftBits, List.foldl_append, ← ih]
      rfl
    rw [hlast, shiftBit, BitVec.msb_shiftLeft, Bool.xor_self, if_neg Bool.false_ne_true,
      ← BitVec.shiftLeft_add]

/-- Several shifts at once: what the bits leave in an empty register once the bits that leave the register
are added to them, and the rest of the register. -/
theorem shiftBits_eq_table (terms register : BitVec w) (bits : List Bool) :
    shiftBits terms register bits =
      shiftBits terms 0 (List.zipWith xor (topBits register bits.length) bits) ^^^
        (register <<< bits.length) := by
  have htop : (topBits register bits.length).length = bits.length := by simp [topBits]
  have hsum := shiftBits_xor terms 0 register
    (a := List.zipWith xor (topBits register bits.length) bits) (b := topBits register bits.length)
    (by simp [htop])
  rw [zipWith_xor_cancel htop, shiftBits_topBits] at hsum
  rw [← hsum]
  exact congrArg (shiftBits terms · bits) BitVec.zero_xor.symm

/-- The polynomial that a register divides by has its leading term at the width of the register. -/
theorem degree_checkPolynomial (terms : BitVec w) : (checkPolynomial terms).degree = w := by
  rw [checkPolynomial, degree_add_eq_left_of_degree_lt] <;> rw [degree_X_pow]
  exact degree_registerPolynomial_lt terms

/-- A shift multiplies by the variable and takes a bit in, up to a multiple of the check polynomial. -/
theorem checkPolynomial_dvd_shiftBit (terms register : BitVec w) (bit : Bool) :
    checkPolynomial terms ∣ registerPolynomial (shiftBit terms register bit) -
      (X * registerPolynomial register + C (bitCoeff bit) * X ^ w) := by
  have hshift := registerPolynomial_shiftLeft register
  refine ⟨C (bitCoeff (register.msb ^^ bit)), ?_⟩
  have hbit : registerPolynomial (shiftBit terms register bit) = registerPolynomial (register <<< 1) +
      C (bitCoeff (register.msb ^^ bit)) * registerPolynomial terms := by
    rw [shiftBit]
    cases register.msb ^^ bit <;> simp [registerPolynomial_xor, bitCoeff]
  rw [hbit, ← hshift, bitCoeff_xor, C_add, checkPolynomial, CharTwo.sub_eq_add]
  have htwo : (2 : (ZMod 2)[X]) = 0 := CharTwo.two_eq_zero
  linear_combination registerPolynomial (register <<< 1) * htwo

/-- What the register holds after a stream, up to a multiple of the check polynomial. -/
theorem checkPolynomial_dvd_shiftBits (terms register : BitVec w) (bits : List Bool) :
    checkPolynomial terms ∣ registerPolynomial (shiftBits terms register bits) -
      (X ^ bits.length * registerPolynomial register + X ^ w * streamPolynomial bits) := by
  induction bits using List.reverseRecOn with
  | nil => simp [shiftBits]
  | append_singleton bits bit ih =>
    have hlast := checkPolynomial_dvd_shiftBit terms (shiftBits terms register bits) bit
    have hrun : shiftBits terms register (bits ++ [bit]) =
        shiftBit terms (shiftBits terms register bits) bit := by
      rw [shiftBits, List.foldl_append]
      rfl
    rw [hrun, streamPolynomial_concat, List.length_append, List.length_singleton]
    convert dvd_add hlast (ih.mul_left X) using 1
    ring

/-- What the register holds after a stream is a remainder. -/
theorem registerPolynomial_shiftBits (terms register : BitVec w) (bits : List Bool) :
    registerPolynomial (shiftBits terms register bits) =
      (X ^ bits.length * registerPolynomial register + X ^ w * streamPolynomial bits) %ₘ
        checkPolynomial terms := by
  obtain ⟨q, hq⟩ := checkPolynomial_dvd_shiftBits terms register bits
  have hmonic : (checkPolynomial terms).Monic := by
    rw [checkPolynomial]
    exact monic_X_pow_add (degree_registerPolynomial_lt terms)
  refine (div_modByMonic_unique (-q) _ hmonic ⟨?_, ?_⟩).2.symm
  · rw [mul_neg, ← hq]
    ring
  · rw [degree_checkPolynomial]
    exact degree_registerPolynomial_lt _

variable {terms : BitVec w}

/-- The variable does not divide a check polynomial with a constant term. -/
theorem isCoprime_checkPolynomial (hterms : terms.getLsbD 0 = true) (n : ℕ) :
    IsCoprime (checkPolynomial terms) (X ^ n) := by
  have hprime : Irreducible (X : (ZMod 2)[X]) := irreducible_X
  refine IsCoprime.pow_right (hprime.coprime_iff_not_dvd.mpr ?_).symm
  have hw : w ≠ 0 := by
    rintro rfl
    simp at hterms
  rw [X_dvd_iff, checkPolynomial, coeff_add, coeff_registerPolynomial, hterms, coeff_X_pow,
    if_neg hw.symm]
  decide

/-- Two streams leave the same in the register exactly if the check polynomial divides their difference. -/
theorem shiftBits_eq_iff (hterms : terms.getLsbD 0 = true) (register : BitVec w) {a b : List Bool}
    (hlength : a.length = b.length) :
    shiftBits terms register a = shiftBits terms register b ↔
      checkPolynomial terms ∣ streamPolynomial a - streamPolynomial b := by
  have hboth := dvd_sub (checkPolynomial_dvd_shiftBits terms register a)
    (checkPolynomial_dvd_shiftBits terms register b)
  rw [hlength] at hboth
  have hsplit : registerPolynomial (shiftBits terms register a) -
      (X ^ b.length * registerPolynomial register + X ^ w * streamPolynomial a) -
      (registerPolynomial (shiftBits terms register b) -
        (X ^ b.length * registerPolynomial register + X ^ w * streamPolynomial b)) =
      registerPolynomial (shiftBits terms register a) - registerPolynomial (shiftBits terms register b) -
        X ^ w * (streamPolynomial a - streamPolynomial b) := by
    ring
  rw [hsplit] at hboth
  constructor
  · intro h
    rw [h, sub_self, zero_sub, dvd_neg] at hboth
    exact (isCoprime_checkPolynomial hterms w).dvd_of_dvd_mul_left hboth
  · intro h
    have hdvd := (dvd_sub_left (h.mul_left _)).mp hboth
    have hdegree : (registerPolynomial (shiftBits terms register a) -
        registerPolynomial (shiftBits terms register b)).degree < (checkPolynomial terms).degree := by
      rw [degree_checkPolynomial]
      exact lt_of_le_of_lt (degree_sub_le _ _)
        (max_lt (degree_registerPolynomial_lt _) (degree_registerPolynomial_lt _))
    exact registerPolynomial_injective (sub_eq_zero.mp (eq_zero_of_dvd_of_degree_lt hdvd hdegree))

/-- A burst of errors that is no longer than the register changes what it holds. -/
theorem shiftBits_ne_of_burst (hterms : terms.getLsbD 0 = true) (register : BitVec w)
    {front a b back : List Bool} (hlength : a.length = b.length) (hshort : a.length ≤ w) (hne : a ≠ b) :
    shiftBits terms register (front ++ a ++ back) ≠ shiftBits terms register (front ++ b ++ back) := by
  rw [Ne, shiftBits_eq_iff hterms register (by simp [hlength])]
  have hdifference : streamPolynomial (front ++ a ++ back) - streamPolynomial (front ++ b ++ back) =
      X ^ back.length * (streamPolynomial a - streamPolynomial b) := by
    simp only [streamPolynomial_append, hlength]
    ring
  rw [hdifference]
  intro hdvd
  have hburst := (isCoprime_checkPolynomial hterms _).dvd_of_dvd_mul_left hdvd
  have hdegree : (streamPolynomial a - streamPolynomial b).degree < (checkPolynomial terms).degree := by
    rw [degree_checkPolynomial]
    refine lt_of_le_of_lt (degree_sub_le _ _) (max_lt ?_ ?_)
    · exact lt_of_lt_of_le (degree_streamPolynomial_lt a) (by exact_mod_cast hshort)
    · exact lt_of_lt_of_le (degree_streamPolynomial_lt b) (by exact_mod_cast hlength ▸ hshort)
  exact hne (streamPolynomial_injective hlength
    (sub_eq_zero.mp (eq_zero_of_dvd_of_degree_lt hburst hdegree)))

/-- A check polynomial with an even number of terms tells streams apart whose numbers of ones differ in
parity. -/
theorem shiftBits_ne_of_parity (hterms : terms.getLsbD 0 = true) (register : BitVec w)
    (heven : (checkPolynomial terms).eval 1 = 0) {a b : List Bool} (hlength : a.length = b.length)
    (hparity : a.count true % 2 ≠ b.count true % 2) :
    shiftBits terms register a ≠ shiftBits terms register b := by
  rw [Ne, shiftBits_eq_iff hterms register hlength]
  rintro ⟨q, hq⟩
  have hvalue := congrArg (eval 1) hq
  rw [eval_mul, heven, zero_mul, eval_sub, eval_one_streamPolynomial, eval_one_streamPolynomial,
    sub_eq_zero, ZMod.natCast_eq_natCast_iff'] at hvalue
  exact hparity hvalue

end Registers

end Ftape.Algebra
