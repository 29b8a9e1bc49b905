import Ftape.Ecc.Parity
import Mathlib.Algebra.BigOperators.Fin

/-!
# Solving for the error magnitudes

The switch of `correct_block()` turns the syndromes of one column into a list of sectors to
change and what to add there. Up to three locations are known in advance; with none or one of
them the solver looks for one further location itself. Two facts are proved about it: which
locations it can ever answer with, and that it finds every error vector inside its radius.
-/

namespace Ftape.Ecc

open Ftape.Algebra Finset

/-- `Matrix`, the inverse of the linear system. Entries past the rank are never read. -/
abbrev Matrix := ℕ → ℕ → Byte

/-- The syndrome values as the vector `s[]`. -/
def Syndromes.entry {α : Type*} (s : Syndromes α) : ℕ → α
  | 0 => s.s0
  | 1 => s.s1
  | _ => s.s2

/-- `gfinv3()` for ascending locations; `none` where the source reports a failed inversion. -/
def gfinv3 (l0 l1 l2 : ℕ) : Option Matrix :=
  let t20 := gfpow (l2 - l0)
  let t10 := gfpow (l1 - l0)
  let t21 := gfpow (l2 - l1)
  let t12 := gfpow (255 + l1 - l2)
  let t01 := gfpow (255 + l0 - l1)
  let t02 := gfpow (255 + l0 - l2)
  let det := gfadd t20 (gfadd t10 (gfadd t21 (gfadd t12 (gfadd t01 t02))))
  if det = 0 then none
  else
    let logDet := 255 - gflog det
    some fun i j =>
      match i, j with
      | 0, 0 => gfmulExp (gfadd (gfpow l1) (gfpow l2)) logDet
      | 0, 1 => gfmulExp (gfadd t21 t12) logDet
      | 0, _ => gfmulExp (gfadd (gfpow (255 - l1)) (gfpow (255 - l2))) logDet
      | 1, 0 => gfmulExp (gfadd (gfpow l0) (gfpow l2)) logDet
      | 1, 1 => gfmulExp (gfadd t20 t02) logDet
      | 1, _ => gfmulExp (gfadd (gfpow (255 - l0)) (gfpow (255 - l2))) logDet
      | _, 0 => gfmulExp (gfadd (gfpow l0) (gfpow l1)) logDet
      | _, 1 => gfmulExp (gfadd t10 t01) logDet
      | _, _ => gfmulExp (gfadd (gfpow (255 - l0)) (gfpow (255 - l1))) logDet

/-- `gfinv2()`, which overwrites four entries of the matrix it is given. -/
def gfinv2 (l0 l1 : ℕ) (ainv : Matrix) : Option Matrix :=
  let t1 := gfpow (255 - l0)
  let t2 := gfpow (255 - l1)
  let det := gfadd t1 t2
  if det = 0 then none
  else
    let logDet := 255 - gflog det
    some fun i j =>
      match i, j with
      | 0, 0 => gfpow logDet
      | 1, 0 => gfpow logDet
      | 0, 1 => gfmulExp t2 logDet
      | 1, 1 => gfmulExp t1 logDet
      | _, _ => ainv i j

/-- One entry of the product computed by `gfmat_mul()`. -/
def gfmatMul (n : ℕ) (a : Matrix) (s : Syndromes Byte) (i : ℕ) : Byte :=
  (List.range n).foldl (fun dotProd j => gfadd dotProd (gfmul (a i j) (s.entry j))) 0

/-- The locations with the magnitudes that `gfmat_mul()` leaves in `error_mag[]`. -/
def errorMagnitudes (locs : List ℕ) (ainv : Matrix) (s : Syndromes Byte) : List (ℕ × Byte) :=
  locs.zipIdx.map fun li => (li.1, gfmatMul locs.length ainv s li.2)

/-- The switch of `correct_block()`: the entries of `bad_loc[]` and `error_mag[]` that the
correction loop goes through, or `none` where the switch returns an error. -/
def errorPattern (nblocks : ℕ) (badLoc : List ℕ) (ainv : Matrix) (s : Syndromes Byte) :
    Option (List (ℕ × Byte)) :=
  match badLoc with
  | [] =>
    if s.s0 = 0 then none
    else
      let l0 := gflog (gfdiv s.s1 s.s0)
      if nblocks ≤ l0 then none else some [(l0, s.s1)]
  | [l0] =>
    let t1 := gfadd (gfmulExp s.s1 l0) s.s2
    let t2 := gfadd (gfmulExp s.s0 l0) s.s1
    if t1 = 0 ∧ t2 = 0 then
      some (errorMagnitudes [l0] (fun i j => if i = 0 ∧ j = 0 then gfpow l0 else ainv i j) s)
    else if t1 = 0 ∨ t2 = 0 then none
    else
      let l1 := gflog (gfdiv t1 t2)
      if nblocks ≤ l1 then none
      else (gfinv2 l0 l1 ainv).map fun ainv => errorMagnitudes [l0, l1] ainv s
  | [_, _] | [_, _, _] => some (errorMagnitudes badLoc ainv s)
  | _ => none

/-- The inversion in `ftape_ecc_correct_data()` before any column is corrected. -/
def erasureMatrix (erasureLoc : List ℕ) (ainv : Matrix) : Option Matrix :=
  match erasureLoc with
  | [l0, l1] => gfinv2 l0 l1 ainv
  | [l0, l1, l2] => gfinv3 l0 l1 l2
  | _ => some ainv

/-- The values of a word at the three roots, as bytes. -/
structure IsSyndromes (s : Syndromes Byte) (nblocks : ℕ) (m : ℕ → Gf) : Prop where
  low : ⟨s.s0⟩ = messageValue nblocks m rootR⁻¹
  mid : ⟨s.s1⟩ = messageValue nblocks m 1
  high : ⟨s.s2⟩ = messageValue nblocks m rootR

/-- What a list of locations and magnitudes adds to a column. -/
def patternWord (pattern : List (ℕ × Byte)) (i : ℕ) : Gf :=
  (pattern.map fun le => if le.1 = i then ⟨le.2⟩ else 0).sum

/-- The empty pattern adds nothing. -/
@[simp] theorem patternWord_nil (i : ℕ) : patternWord [] i = 0 := rfl

/-- The first entry of a pattern adds its magnitude at its location. -/
@[simp] theorem patternWord_cons (l : ℕ) (e : Byte) (rest : List (ℕ × Byte)) (i : ℕ) :
    patternWord ((l, e) :: rest) i = (if l = i then ⟨e⟩ else 0) + patternWord rest i := by
  simp [patternWord]

/-- Away from its locations a pattern adds nothing. -/
theorem patternWord_eq_zero {pattern : List (ℕ × Byte)} {i : ℕ}
    (hi : i ∉ pattern.map Prod.fst) : patternWord pattern i = 0 := by
  induction pattern with
  | nil => rfl
  | cons le rest ih =>
    obtain ⟨l, e⟩ := le
    rw [List.map_cons, List.mem_cons, not_or] at hi
    rw [patternWord_cons, if_neg (Ne.symm hi.1), ih hi.2, add_zero]

/-- A pattern that lists each location once adds the listed magnitude there. -/
theorem patternWord_of_mem {pattern : List (ℕ × Byte)} (hnodup : (pattern.map Prod.fst).Nodup)
    {l : ℕ} {e : Byte} (hmem : (l, e) ∈ pattern) : patternWord pattern l = ⟨e⟩ := by
  induction pattern with
  | nil => exact absurd hmem List.not_mem_nil
  | cons head rest ih =>
    obtain ⟨k, f⟩ := head
    rw [List.map_cons, List.nodup_cons] at hnodup
    rw [patternWord_cons]
    rcases List.mem_cons.mp hmem with heq | hrest
    · obtain ⟨rfl, rfl⟩ := Prod.mk.inj heq
      rw [if_pos rfl, patternWord_eq_zero hnodup.1, add_zero]
    · have hmem' : l ∈ rest.map Prod.fst := List.mem_map_of_mem hrest
      have hne : k ≠ l := fun h => hnodup.1 (h ▸ hmem')
      rw [if_neg hne, zero_add, ih hnodup.2 hrest]

/-- A pattern that lists the right magnitudes at every place of an error vector is that vector. -/
theorem patternWord_eq {pattern : List (ℕ × Byte)} {err : ℕ → Gf}
    (hnodup : (pattern.map Prod.fst).Nodup) (hmag : ∀ le ∈ pattern, (⟨le.2⟩ : Gf) = err le.1)
    (herr : ∀ i, err i ≠ 0 → i ∈ pattern.map Prod.fst) : patternWord pattern = err := by
  funext i
  by_cases hi : i ∈ pattern.map Prod.fst
  · obtain ⟨⟨l, e⟩, hmem, rfl⟩ := List.mem_map.mp hi
    rw [patternWord_of_mem hnodup hmem]
    exact hmag _ hmem
  · rw [patternWord_eq_zero hi]
    exact (by_contra fun hne => hi (herr i (Ne.symm hne)))

/-- A two-entry code word is evaluated at its two locations. -/
theorem messageValue_pair {n l0 l1 : ℕ} {m : ℕ → Gf} (h0 : l0 < n) (h1 : l1 < n) (hne : l0 ≠ l1)
    (hm : ∀ i, m i ≠ 0 → i = l0 ∨ i = l1) (x : Gf) :
    messageValue n m x = m l0 * x ^ l0 + m l1 * x ^ l1 := by
  rw [messageValue_eq_sum (T := {l0, l1}), sum_pair hne]
  · intro i hi
    rcases mem_insert.mp hi with rfl | hi
    · exact h0
    · rwa [mem_singleton.mp hi]
  · intro i _ hi
    by_contra hne0
    exact hi (by simpa using hm i hne0)

/-- Powers of `r` at negative exponents, as the solvers write them. -/
theorem gf_gfpow_sub {k l : ℕ} (hkl : k ≤ l) (hl : l ≤ 255) :
    (⟨gfpow (255 + k - l)⟩ : Gf) = rootR ^ k / rootR ^ l := by
  have hsum : 255 + k - l + l = k + 255 := by omega
  rw [gf_gfpow (by omega), eq_div_iff (pow_ne_zero l rootR_ne_zero), ← pow_add, hsum, pow_add,
    rootR_pow_period, mul_one]

/-- The inverse of a power of `r`. -/
theorem gf_gfpow_inv {l : ℕ} (hl : l ≤ 255) : (⟨gfpow (255 - l)⟩ : Gf) = (rootR ^ l)⁻¹ := by
  have h := gf_gfpow_sub (Nat.zero_le l) hl
  rw [Nat.add_zero, pow_zero, one_div] at h
  exact h

/-- A quotient of powers of `r` that is itself a power. -/
theorem gf_gfpow_diff {k l : ℕ} (hkl : k ≤ l) (hl : l ≤ 255) :
    (⟨gfpow (l - k)⟩ : Gf) = rootR ^ l / rootR ^ k := by
  rw [gf_gfpow (by omega), eq_div_iff (pow_ne_zero k rootR_ne_zero), ← pow_add,
    Nat.sub_add_cancel hkl]

/-- Multiplying by the negated logarithm of a determinant divides by it. -/
theorem gf_gfmulExp_logDet (a : Byte) {det : Byte} (hdet : det ≠ 0) :
    (⟨gfmulExp a ((255 - gflog det : ℕ) : ℤ)⟩ : Gf) = ⟨a⟩ * (⟨det⟩ : Gf)⁻¹ := by
  have hlog := gflog_lt det hdet
  rw [gf_gfmulExp _ (by omega) (by omega), zpow_natCast, ← gf_gfpow (by omega),
    gf_gfpow_inv hlog.le, ← gf_eq_pow hdet]

/-- Distinct locations have distinct locators. -/
theorem rootR_pow_ne {k l : ℕ} (hk : k < 255) (hl : l < 255) (hne : k ≠ l) :
    rootR ^ k ≠ rootR ^ l :=
  fun h => hne (rootR_pow_injOn hk hl h)

/-- The locator of a nonzero byte that is a known power of `r`. -/
theorem gflog_eq {a : Byte} {l : ℕ} (hl : l < 255) (ha : (⟨a⟩ : Gf) = rootR ^ l) : gflog a = l := by
  have hne : a ≠ 0 := fun h => pow_ne_zero l rootR_ne_zero (ha ▸ gf_eq_zero.mpr h)
  rw [gf_eq_pow hne] at ha
  exact rootR_pow_injOn (gflog_lt a hne) hl ha

/-- `gfinv2()` succeeds on distinct locations and inverts the system of the first two checks. -/
theorem gfinv2_spec {l0 l1 : ℕ} (h0 : l0 < 255) (h1 : l1 < 255) (hne : l0 ≠ l1) (ainv : Matrix) :
    ∃ a, gfinv2 l0 l1 ainv = some a ∧
      (⟨a 0 0⟩ : Gf) = ((rootR ^ l0)⁻¹ + (rootR ^ l1)⁻¹)⁻¹ ∧ a 1 0 = a 0 0 ∧
      (⟨a 0 1⟩ : Gf) = (rootR ^ l1)⁻¹ * ((rootR ^ l0)⁻¹ + (rootR ^ l1)⁻¹)⁻¹ ∧
      (⟨a 1 1⟩ : Gf) = (rootR ^ l0)⁻¹ * ((rootR ^ l0)⁻¹ + (rootR ^ l1)⁻¹)⁻¹ := by
  have hdet : (⟨gfadd (gfpow (255 - l0)) (gfpow (255 - l1))⟩ : Gf) =
      (rootR ^ l0)⁻¹ + (rootR ^ l1)⁻¹ := by
    rw [gf_gfadd, gf_gfpow_inv h0.le, gf_gfpow_inv h1.le]
  have hdet0 : gfadd (gfpow (255 - l0)) (gfpow (255 - l1)) ≠ 0 := by
    rw [ne_eq, ← gf_eq_zero, hdet]
    exact add_ne_zero_of_ne fun h => rootR_pow_ne h0 h1 hne (inv_injective h)
  refine ⟨_, if_neg hdet0, ?_, rfl, ?_, ?_⟩
  · have hlog := gflog_lt _ hdet0
    change (⟨gfpow _⟩ : Gf) = _
    rw [gf_gfpow_inv hlog.le, ← gf_eq_pow hdet0, hdet]
  · change (⟨gfmulExp _ _⟩ : Gf) = _
    rw [gf_gfmulExp_logDet _ hdet0, gf_gfpow_inv h1.le, hdet]
  · change (⟨gfmulExp _ _⟩ : Gf) = _
    rw [gf_gfmulExp_logDet _ hdet0, gf_gfpow_inv h0.le, hdet]

/-- `gfinv2()` rejects a repeated location. -/
theorem gfinv2_self (l : ℕ) (ainv : Matrix) : gfinv2 l l ainv = none :=
  if_pos BitVec.xor_self

/-- `gfinv3()` succeeds on ascending locations and inverts the full system. -/
theorem gfinv3_spec {l0 l1 l2 : ℕ} (h01 : l0 < l1) (h12 : l1 < l2) (h2 : l2 < 255) :
    ∃ a, gfinv3 l0 l1 l2 = some a ∧
      ∀ x y z d : Gf, x = rootR ^ l0 → y = rootR ^ l1 → z = rootR ^ l2 → d = erasureDet x y z →
        (⟨a 0 0⟩ : Gf) = (y + z) * d⁻¹ ∧ (⟨a 0 1⟩ : Gf) = (z / y + y / z) * d⁻¹ ∧
        (⟨a 0 2⟩ : Gf) = (y⁻¹ + z⁻¹) * d⁻¹ ∧
        (⟨a 1 0⟩ : Gf) = (x + z) * d⁻¹ ∧ (⟨a 1 1⟩ : Gf) = (z / x + x / z) * d⁻¹ ∧
        (⟨a 1 2⟩ : Gf) = (x⁻¹ + z⁻¹) * d⁻¹ ∧
        (⟨a 2 0⟩ : Gf) = (x + y) * d⁻¹ ∧ (⟨a 2 1⟩ : Gf) = (y / x + x / y) * d⁻¹ ∧
        (⟨a 2 2⟩ : Gf) = (x⁻¹ + y⁻¹) * d⁻¹ := by
  have hdet : (⟨gfadd (gfpow (l2 - l0)) (gfadd (gfpow (l1 - l0)) (gfadd (gfpow (l2 - l1))
      (gfadd (gfpow (255 + l1 - l2)) (gfadd (gfpow (255 + l0 - l1)) (gfpow (255 + l0 - l2))))))⟩ : Gf) =
        erasureDet (rootR ^ l0) (rootR ^ l1) (rootR ^ l2) := by
    simp only [gf_gfadd, erasureDet]
    rw [gf_gfpow_diff (h01.trans h12).le h2.le, gf_gfpow_diff h01.le (by omega),
      gf_gfpow_diff h12.le h2.le, gf_gfpow_sub h12.le h2.le, gf_gfpow_sub h01.le (by omega),
      gf_gfpow_sub (h01.trans h12).le h2.le]
  have hpow (l : ℕ) : rootR ^ l ≠ 0 := pow_ne_zero l rootR_ne_zero
  have hdet0 := erasureDet_ne_zero (hpow l0) (hpow l1) (hpow l2)
    (rootR_pow_ne (by omega) (by omega) h01.ne) (rootR_pow_ne (by omega) h2 (h01.trans h12).ne)
    (rootR_pow_ne (by omega) h2 h12.ne)
  rw [← hdet, ne_eq, gf_eq_zero] at hdet0
  refine ⟨_, if_neg hdet0, ?_⟩
  rintro x y z d rfl rfl rfl rfl
  simp only [gf_gfmulExp_logDet _ hdet0, hdet, gf_gfadd, gf_gfpow_inv h2.le,
    gf_gfpow_inv (show l1 ≤ 255 by omega), gf_gfpow_inv (show l0 ≤ 255 by omega),
    gf_gfpow h2.le, gf_gfpow (show l1 ≤ 255 by omega), gf_gfpow (show l0 ≤ 255 by omega),
    gf_gfpow_diff (h01.trans h12).le h2.le, gf_gfpow_diff h01.le (show l1 ≤ 255 by omega),
    gf_gfpow_diff h12.le h2.le, gf_gfpow_sub h12.le h2.le,
    gf_gfpow_sub h01.le (show l1 ≤ 255 by omega), gf_gfpow_sub (h01.trans h12).le h2.le, and_self]

/-- `gfmat_mul()` of rank one. -/
theorem gf_gfmatMul_one (a : Matrix) (s : Syndromes Byte) (i : ℕ) :
    (⟨gfmatMul 1 a s i⟩ : Gf) = ⟨a i 0⟩ * ⟨s.s0⟩ := by
  simp only [gfmatMul, List.range_succ, List.range_zero, List.nil_append, List.foldl_cons,
    List.foldl_nil, Syndromes.entry, gf_gfadd, gf_gfmul]
  exact zero_add _

/-- `gfmat_mul()` of rank two. -/
theorem gf_gfmatMul_two (a : Matrix) (s : Syndromes Byte) (i : ℕ) :
    (⟨gfmatMul 2 a s i⟩ : Gf) = ⟨a i 0⟩ * ⟨s.s0⟩ + ⟨a i 1⟩ * ⟨s.s1⟩ := by
  rw [← gf_gfmatMul_one, ← gf_gfmul, ← gf_gfadd]
  rfl

/-- `gfmat_mul()` of rank three. -/
theorem gf_gfmatMul_three (a : Matrix) (s : Syndromes Byte) (i : ℕ) :
    (⟨gfmatMul 3 a s i⟩ : Gf) = ⟨a i 0⟩ * ⟨s.s0⟩ + ⟨a i 1⟩ * ⟨s.s1⟩ + ⟨a i 2⟩ * ⟨s.s2⟩ := by
  rw [← gf_gfmatMul_two, ← gf_gfmul, ← gf_gfadd]
  rfl

/-- The magnitudes stand at their locations, in order. -/
theorem errorMagnitudes_fst (locs : List ℕ) (ainv : Matrix) (s : Syndromes Byte) :
    (errorMagnitudes locs ainv s).map Prod.fst = locs := by
  rw [errorMagnitudes, List.map_map]
  exact List.zipIdx_map_fst 0 locs

/-- The locations the solver answers with: the known ones, and at most one more when fewer
than two are known. All are distinct sectors of the block. -/
theorem errorPattern_locs {nblocks : ℕ} {badLoc : List ℕ} {ainv : Matrix} {s : Syndromes Byte}
    {pattern : List (ℕ × Byte)} (h : errorPattern nblocks badLoc ainv s = some pattern)
    (hnodup : badLoc.Nodup) (hlt : ∀ l ∈ badLoc, l < nblocks) :
    ∃ extra : List ℕ, pattern.map Prod.fst = badLoc ++ extra ∧ extra.length ≤ 1 ∧
      (2 ≤ badLoc.length → extra = []) ∧ (badLoc ++ extra).Nodup ∧
      ∀ l ∈ badLoc ++ extra, l < nblocks := by
  unfold errorPattern at h
  split at h
  · simp only [Option.ite_none_left_eq_some, Option.some.injEq] at h
    obtain ⟨-, hbound, rfl⟩ := h
    exact ⟨[gflog (gfdiv s.s1 s.s0)], rfl, le_rfl, by simp, by simp, by simpa using hbound⟩
  · next l0 =>
    simp only at h
    split at h
    · rw [← Option.some.inj h, errorMagnitudes_fst]
      exact ⟨[], by simp, by simp, by simp, by simp, by simpa using hlt⟩
    · simp only [Option.ite_none_left_eq_some, Option.map_eq_some_iff] at h
      obtain ⟨-, hbound, a, ha, rfl⟩ := h
      refine ⟨[gflog (gfdiv (gfadd (gfmulExp s.s1 l0) s.s2) (gfadd (gfmulExp s.s0 l0) s.s1))],
        errorMagnitudes_fst _ _ _, le_rfl, by simp, ?_, by
          simpa using ⟨hlt l0 (by simp), Nat.not_le.mp hbound⟩⟩
      have hne : l0 ≠ gflog (gfdiv (gfadd (gfmulExp s.s1 l0) s.s2) (gfadd (gfmulExp s.s0 l0) s.s1)) := by
        intro heq
        rw [← heq, gfinv2_self] at ha
        cases ha
      simpa using hne
  · rw [← Option.some.inj h, errorMagnitudes_fst]
    exact ⟨[], by simp, by simp, by simp, by simpa using hnodup, by simpa using hlt⟩
  · rw [← Option.some.inj h, errorMagnitudes_fst]
    exact ⟨[], by simp, by simp, by simp, by simpa using hnodup, by simpa using hlt⟩
  · cases h

section Completeness

variable {nblocks : ℕ} {ainv : Matrix} {s : Syndromes Byte} {err : ℕ → Gf}

/-- Without erasures a single error is located and evaluated. -/
theorem errorPattern_nil (hblocks : nblocks < 255) (hs : IsSyndromes s nblocks err) {p : ℕ}
    (hp : p < nblocks) (herr : ∀ i, err i ≠ 0 → i = p) (hne : err p ≠ 0) :
    ∃ pattern, errorPattern nblocks [] ainv s = some pattern ∧ patternWord pattern = err := by
  have hvalue (x : Gf) : messageValue nblocks err x = err p * x ^ p := by
    rw [messageValue_eq_sum (T := {p}) (by simpa using hp)
      fun i _ hi => by_contra fun h => hi (mem_singleton.mpr (herr i h)), sum_singleton]
  have hs0 : (⟨s.s0⟩ : Gf) = err p * (rootR ^ p)⁻¹ := by rw [hs.low, hvalue, inv_pow]
  have hs1 : (⟨s.s1⟩ : Gf) = err p := by rw [hs.mid, hvalue, one_pow, mul_one]
  have hpow : rootR ^ p ≠ 0 := pow_ne_zero p rootR_ne_zero
  have hs0ne : s.s0 ≠ 0 := by
    rw [ne_eq, ← gf_eq_zero, hs0]
    exact mul_ne_zero hne (inv_ne_zero hpow)
  have hloc : gflog (gfdiv s.s1 s.s0) = p := by
    refine gflog_eq (by omega) ?_
    rw [gf_gfdiv _ hs0ne, hs0, hs1]
    field_simp
  refine ⟨[(p, s.s1)], ?_, patternWord_eq (by simp) (by simpa using hs1) (by simpa using herr)⟩
  simp only [errorPattern, hs0ne, hloc, Nat.not_le.mpr hp, if_false]

/-- Two known locations are solved by the rank two system, in whatever order they stand. -/
theorem patternWord_two (ainv : Matrix) {l0 l1 : ℕ} (h0 : l0 < nblocks) (h1 : l1 < nblocks) (hne : l0 ≠ l1)
    (hblocks : nblocks < 255) (hs : IsSyndromes s nblocks err)
    (herr : ∀ i, err i ≠ 0 → i = l0 ∨ i = l1) :
    ∃ a, gfinv2 l0 l1 ainv = some a ∧ patternWord (errorMagnitudes [l0, l1] a s) = err := by
  obtain ⟨a, ha, h00, h10, h01, h11⟩ := gfinv2_spec (h0.trans hblocks) (h1.trans hblocks) hne ainv
  have hlocs := rootR_pow_ne (h0.trans hblocks) (h1.trans hblocks) hne
  have hsolve := two_erasures hlocs (err l0) (err l1)
  have hs0 : (⟨s.s0⟩ : Gf) = err l0 * (rootR ^ l0)⁻¹ + err l1 * (rootR ^ l1)⁻¹ := by
    rw [hs.low, messageValue_pair h0 h1 hne herr, inv_pow, inv_pow]
  have hs1 : (⟨s.s1⟩ : Gf) = err l0 + err l1 := by
    rw [hs.mid, messageValue_pair h0 h1 hne herr, one_pow, one_pow, mul_one, mul_one]
  have hmag0 : (⟨gfmatMul 2 a s 0⟩ : Gf) = err l0 := by
    rw [gf_gfmatMul_two, h00, h01, hs0, hs1]
    linear_combination hsolve.1
  have hmag1 : (⟨gfmatMul 2 a s 1⟩ : Gf) = err l1 := by
    rw [gf_gfmatMul_two, h10, h00, h11, hs0, hs1]
    linear_combination hsolve.2
  refine ⟨a, ha, patternWord_eq (by simpa [errorMagnitudes_fst] using hne) ?_
    (by simpa [errorMagnitudes_fst] using herr)⟩
  simpa [errorMagnitudes] using ⟨hmag0, hmag1⟩

/-- One erasure is evaluated, alone or together with one error that is located first. -/
theorem errorPattern_one {l0 p : ℕ} (h0 : l0 < nblocks) (hp : p < nblocks) (hne : l0 ≠ p)
    (hblocks : nblocks < 255) (hs : IsSyndromes s nblocks err)
    (herr : ∀ i, err i ≠ 0 → i = l0 ∨ i = p) :
    ∃ pattern, errorPattern nblocks [l0] ainv s = some pattern ∧ patternWord pattern = err := by
  have hpow (l : ℕ) : rootR ^ l ≠ 0 := pow_ne_zero l rootR_ne_zero
  have hs0 : (⟨s.s0⟩ : Gf) = err l0 * (rootR ^ l0)⁻¹ + err p * (rootR ^ p)⁻¹ := by
    rw [hs.low, messageValue_pair h0 hp hne herr, inv_pow, inv_pow]
  have hs1 : (⟨s.s1⟩ : Gf) = err l0 + err p := by
    rw [hs.mid, messageValue_pair h0 hp hne herr, one_pow, one_pow, mul_one, mul_one]
  have hs2 : (⟨s.s2⟩ : Gf) = err l0 * rootR ^ l0 + err p * rootR ^ p := by
    rw [hs.high, messageValue_pair h0 hp hne herr]
  have helim := erasure_and_error (hpow l0) (hpow p) (err l0) (err p)
  have ht1 : (⟨gfadd (gfmulExp s.s1 l0) s.s2⟩ : Gf) = err p * (rootR ^ l0 + rootR ^ p) := by
    rw [gf_gfadd, gf_gfmulExp _ (by omega) (by omega), zpow_natCast, hs1, hs2]
    exact helim.1
  have ht2 : (⟨gfadd (gfmulExp s.s0 l0) s.s1⟩ : Gf) =
      err p * (rootR ^ l0 + rootR ^ p) * (rootR ^ p)⁻¹ := by
    rw [gf_gfadd, gf_gfmulExp _ (by omega) (by omega), zpow_natCast, hs0, hs1]
    exact helim.2
  have hsum : rootR ^ l0 + rootR ^ p ≠ 0 :=
    add_ne_zero_of_ne (rootR_pow_ne (h0.trans hblocks) (hp.trans hblocks) hne)
  by_cases hzero : err p = 0
  · -- the other location holds no error, so both eliminated checks vanish
    rw [hzero, zero_mul] at ht1 ht2
    rw [zero_mul] at ht2
    have hmag : (⟨gfmatMul 1 (fun i j => if i = 0 ∧ j = 0 then gfpow l0 else ainv i j) s 0⟩ : Gf) =
        err l0 := by
      rw [gf_gfmatMul_one, hs0, hzero, zero_mul, add_zero]
      simp only [and_self, if_true]
      rw [gf_gfpow (by omega), mul_comm, mul_assoc, inv_mul_cancel₀ (hpow l0), mul_one]
    refine ⟨_, if_pos ⟨gf_eq_zero.mp ht1, gf_eq_zero.mp ht2⟩,
      patternWord_eq (by simp [errorMagnitudes_fst]) ?_ fun i hi => ?_⟩
    · simpa [errorMagnitudes] using hmag
    · rw [errorMagnitudes_fst, List.mem_singleton]
      exact (herr i hi).resolve_right fun h => hi (h ▸ hzero)
  · have ht1ne : gfadd (gfmulExp s.s1 l0) s.s2 ≠ 0 := by
      rw [ne_eq, ← gf_eq_zero, ht1]
      exact mul_ne_zero hzero hsum
    have ht2ne : gfadd (gfmulExp s.s0 l0) s.s1 ≠ 0 := by
      rw [ne_eq, ← gf_eq_zero, ht2]
      exact mul_ne_zero (mul_ne_zero hzero hsum) (inv_ne_zero (hpow p))
    have hloc : gflog (gfdiv (gfadd (gfmulExp s.s1 l0) s.s2) (gfadd (gfmulExp s.s0 l0) s.s1)) = p := by
      refine gflog_eq (hp.trans hblocks) ?_
      rw [gf_gfdiv _ ht2ne, ht1, ht2, div_mul_eq_div_div, div_self (mul_ne_zero hzero hsum), one_div,
        inv_inv]
    obtain ⟨a, ha, hword⟩ := patternWord_two ainv h0 hp hne hblocks hs herr
    refine ⟨errorMagnitudes [l0, p] a s, ?_, hword⟩
    simp only [errorPattern, ht1ne, ht2ne, hloc, Nat.not_le.mpr hp, ha, and_self, or_self, if_false,
      Option.map_some]

/-- Three known locations are solved by the full system. -/
theorem patternWord_three {l0 l1 l2 : ℕ} (h01 : l0 < l1) (h12 : l1 < l2) (h2 : l2 < nblocks)
    (hblocks : nblocks < 255) (hs : IsSyndromes s nblocks err)
    (herr : ∀ i, err i ≠ 0 → i = l0 ∨ i = l1 ∨ i = l2) :
    ∃ a, gfinv3 l0 l1 l2 = some a ∧ patternWord (errorMagnitudes [l0, l1, l2] a s) = err := by
  obtain ⟨a, ha, hentries⟩ := gfinv3_spec h01 h12 (h2.trans hblocks)
  obtain ⟨h00, h01', h02, h10, h11, h12', h20, h21, h22⟩ := hentries _ _ _ _ rfl rfl rfl rfl
  have hpow (l : ℕ) : rootR ^ l ≠ 0 := pow_ne_zero l rootR_ne_zero
  have hne01 := rootR_pow_ne (show l0 < 255 by omega) (show l1 < 255 by omega) h01.ne
  have hne02 := rootR_pow_ne (show l0 < 255 by omega) (show l2 < 255 by omega) (h01.trans h12).ne
  have hne12 := rootR_pow_ne (show l1 < 255 by omega) (show l2 < 255 by omega) h12.ne
  have hvalue (x : Gf) : messageValue nblocks err x =
      err l0 * x ^ l0 + err l1 * x ^ l1 + err l2 * x ^ l2 := by
    rw [messageValue_eq_sum (T := {l0, l1, l2}), sum_insert, sum_pair h12.ne, add_assoc]
    · simp only [mem_insert, mem_singleton]
      omega
    · simp only [mem_insert, mem_singleton]
      omega
    · intro i _ hi
      by_contra hne
      exact hi (by simpa using herr i hne)
  have hs0 : (⟨s.s0⟩ : Gf) =
      err l0 * (rootR ^ l0)⁻¹ + err l1 * (rootR ^ l1)⁻¹ + err l2 * (rootR ^ l2)⁻¹ := by
    rw [hs.low, hvalue, inv_pow, inv_pow, inv_pow]
  have hs1 : (⟨s.s1⟩ : Gf) = err l0 + err l1 + err l2 := by
    rw [hs.mid, hvalue]
    simp only [one_pow, mul_one]
  have hs2 : (⟨s.s2⟩ : Gf) = err l0 * rootR ^ l0 + err l1 * rootR ^ l1 + err l2 * rootR ^ l2 := by
    rw [hs.high, hvalue]
  have hmag0 : (⟨gfmatMul 3 a s 0⟩ : Gf) = err l0 := by
    rw [gf_gfmatMul_three, h00, h01', h02, hs0, hs1, hs2]
    linear_combination three_erasures (hpow l0) (hpow l1) (hpow l2) hne01 hne02 hne12
      (err l0) (err l1) (err l2)
  have hmag1 : (⟨gfmatMul 3 a s 1⟩ : Gf) = err l1 := by
    have hsolve := three_erasures (hpow l1) (hpow l0) (hpow l2) hne01.symm hne12 hne02
      (err l1) (err l0) (err l2)
    have hdet : erasureDet (rootR ^ l1) (rootR ^ l0) (rootR ^ l2) =
        erasureDet (rootR ^ l0) (rootR ^ l1) (rootR ^ l2) := by
      unfold erasureDet
      ring
    rw [hdet] at hsolve
    rw [gf_gfmatMul_three, h10, h11, h12', hs0, hs1, hs2]
    linear_combination hsolve
  have hmag2 : (⟨gfmatMul 3 a s 2⟩ : Gf) = err l2 := by
    have hsolve := three_erasures (hpow l2) (hpow l0) (hpow l1) hne02.symm hne12.symm hne01
      (err l2) (err l0) (err l1)
    have hdet : erasureDet (rootR ^ l2) (rootR ^ l0) (rootR ^ l1) =
        erasureDet (rootR ^ l0) (rootR ^ l1) (rootR ^ l2) := by
      unfold erasureDet
      ring
    rw [hdet] at hsolve
    rw [gf_gfmatMul_three, h20, h21, h22, hs0, hs1, hs2]
    linear_combination hsolve
  refine ⟨a, ha, patternWord_eq ?_ ?_ (by simpa [errorMagnitudes_fst] using herr)⟩
  · simpa [errorMagnitudes_fst] using ⟨⟨h01.ne, (h01.trans h12).ne⟩, h12.ne⟩
  · simpa [errorMagnitudes] using ⟨hmag0, hmag1, hmag2⟩

/-- Ascending erasures below the block always have an invertible system. -/
theorem erasureMatrix_isSome {badLoc : List ℕ} (hsorted : badLoc.Pairwise (· < ·))
    (hlt : ∀ l ∈ badLoc, l < nblocks) (hblocks : nblocks < 255) (ainv : Matrix) :
    ∃ a, erasureMatrix badLoc ainv = some a := by
  unfold erasureMatrix
  split
  · next l0 l1 =>
    simp only [List.pairwise_cons, List.mem_cons, List.not_mem_nil, or_false, forall_eq] at hsorted
    obtain ⟨a, ha, -⟩ := gfinv2_spec ((hlt l0 (by simp)).trans hblocks)
      ((hlt l1 (by simp)).trans hblocks) hsorted.1.ne ainv
    exact ⟨a, ha⟩
  · next l0 l1 l2 =>
    simp only [List.pairwise_cons, List.mem_cons, List.not_mem_nil, or_false, forall_eq_or_imp,
      forall_eq] at hsorted
    obtain ⟨a, ha, -⟩ := gfinv3_spec hsorted.1.1 hsorted.2.1 ((hlt l2 (by simp)).trans hblocks)
    exact ⟨a, ha⟩
  · exact ⟨ainv, rfl⟩

/-- The solver finds every nonzero error vector with enough known locations: each error outside
them costs two checks, each known location one. -/
theorem errorPattern_complete {badLoc : List ℕ} (hsorted : badLoc.Pairwise (· < ·))
    (hlt : ∀ l ∈ badLoc, l < nblocks) (htwo : 2 ≤ nblocks) (hblocks : nblocks < 255)
    {ainv₀ : Matrix} (hainv : erasureMatrix badLoc ainv₀ = some ainv)
    (hs : IsSyndromes s nblocks err) (hne : ∃ i, err i ≠ 0) (extra : Finset ℕ)
    (herr : ∀ i, err i ≠ 0 → i ∈ badLoc ∨ i ∈ extra) (hextra : ∀ i ∈ extra, i < nblocks ∧ i ∉ badLoc)
    (hcard : 2 * extra.card + badLoc.length ≤ 3) :
    ∃ pattern, errorPattern nblocks badLoc ainv s = some pattern ∧ patternWord pattern = err := by
  have hempty (hlen : 2 ≤ badLoc.length) : ∀ i, err i ≠ 0 → i ∈ badLoc := by
    have hnone : extra = ∅ := card_eq_zero.mp (by omega)
    intro i hi
    exact (herr i hi).resolve_right (by simp [hnone])
  match badLoc with
  | [] =>
    obtain ⟨i, hi⟩ := hne
    have hmem : i ∈ extra := (herr i hi).resolve_left List.not_mem_nil
    have hone : extra.card ≤ 1 := by simp only [List.length_nil] at hcard; omega
    have honly : ∀ j, err j ≠ 0 → j = i := fun j hj =>
      card_le_one.mp hone j ((herr j hj).resolve_left List.not_mem_nil) i hmem
    exact errorPattern_nil hblocks hs (hextra i hmem).1 honly hi
  | [l0] =>
    have h0 := hlt l0 (by simp)
    have hone : extra.card ≤ 1 := by simp only [List.length_singleton] at hcard; omega
    -- with no further error any other sector serves as the second location
    obtain ⟨p, hp, hpne, hpextra⟩ : ∃ p < nblocks, l0 ≠ p ∧ ∀ i ∈ extra, i = p := by
      rcases extra.eq_empty_or_nonempty with hnone | ⟨p, hp⟩
      · rcases Nat.eq_zero_or_pos l0 with hzero | hpos
        · exact ⟨1, by omega, by omega, by simp [hnone]⟩
        · exact ⟨0, by omega, by omega, by simp [hnone]⟩
      · have hfresh := (hextra p hp).2
        rw [List.mem_singleton] at hfresh
        exact ⟨p, (hextra p hp).1, fun h => hfresh h.symm,
          fun i hi => card_le_one.mp hone i hi p hp⟩
    refine errorPattern_one h0 hp hpne hblocks hs fun i hi => ?_
    rcases herr i hi with hbad | hex
    · exact Or.inl (List.mem_singleton.mp hbad)
    · exact Or.inr (hpextra i hex)
  | [l0, l1] =>
    have h01 : l0 < l1 := by simpa using hsorted
    obtain ⟨a, ha, hword⟩ := patternWord_two ainv₀ (hlt l0 (by simp)) (hlt l1 (by simp))
      h01.ne hblocks hs fun i hi => by simpa using hempty (by simp) i hi
    obtain rfl : a = ainv := Option.some.inj (ha.symm.trans hainv)
    exact ⟨_, rfl, hword⟩
  | [l0, l1, l2] =>
    have horder : (l0 < l1 ∧ l0 < l2) ∧ l1 < l2 := by simpa using hsorted
    obtain ⟨a, ha, hword⟩ := patternWord_three horder.1.1 horder.2 (hlt l2 (by simp)) hblocks hs
      fun i hi => by simpa using hempty (by simp) i hi
    obtain rfl : a = ainv := Option.some.inj (ha.symm.trans hainv)
    exact ⟨_, rfl, hword⟩
  | _ :: _ :: _ :: _ :: _ =>
    simp only [List.length_cons] at hcard
    omega

end Completeness

end Ftape.Ecc
