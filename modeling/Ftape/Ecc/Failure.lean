import Ftape.Ecc.RoundTrip

/-!
# What a failed correction leaves behind

A column outside the radius stops `ftape_ecc_correct_data()`. By then the columns in front of it are corrected,
and with no erasure or two of them the solver can have added a wrong pattern to the column itself, which only
the self-check notices. Nothing takes these changes back.
-/

namespace Ftape.Ecc

open Ftape.Algebra Finset

section Radius

variable {nblocks : ℕ} {badLoc : List ℕ} {m after : ℕ → Gf}

/-- A column is within the radius if few enough errors have its checks. -/
theorem correctable_of_errors (err : ℕ → Gf) {extra : Finset ℕ}
    (hsupport : ∀ i < nblocks, err i ≠ 0 → i ∈ badLoc ∨ i ∈ extra)
    (hcard : 2 * extra.card + badLoc.length ≤ 3)
    (hlow : messageValue nblocks err rootR⁻¹ = messageValue nblocks m rootR⁻¹)
    (hmid : messageValue nblocks err 1 = messageValue nblocks m 1)
    (hhigh : messageValue nblocks err rootR = messageValue nblocks m rootR) : Correctable nblocks badLoc m := by
  refine ⟨fun i => m i - err i, ⟨?_, ?_, ?_⟩, extra, ?_, hcard⟩
  · rw [messageValue_sub, hlow, sub_self]
  · rw [messageValue_sub, hmid, sub_self]
  · rw [messageValue_sub, hhigh, sub_self]
  · intro i hi hne
    apply hsupport i hi
    intro hzero
    exact hne (by simp [hzero])

/-- A column with the checks of an erasure and one error is within the radius. -/
theorem correctable_of_pair {l0 l1 : ℕ} (h0 : l0 < nblocks) (h1 : l1 < nblocks) (hne : l0 ≠ l1) (e f : Gf)
    (hlow : e * (rootR ^ l0)⁻¹ + f * (rootR ^ l1)⁻¹ = messageValue nblocks m rootR⁻¹)
    (hmid : e + f = messageValue nblocks m 1)
    (hhigh : e * rootR ^ l0 + f * rootR ^ l1 = messageValue nblocks m rootR) : Correctable nblocks [l0] m := by
  let err : ℕ → Gf := fun i => if i = l0 then e else if i = l1 then f else 0
  have herr : ∀ i, err i ≠ 0 → i = l0 ∨ i = l1 := by
    intro i hi
    by_contra hother
    obtain ⟨hi0, hi1⟩ := not_or.mp hother
    exact hi ((if_neg hi0).trans (if_neg hi1))
  have hvalue (x : Gf) : messageValue nblocks err x = e * x ^ l0 + f * x ^ l1 := by
    have hfirst : err l0 = e := if_pos rfl
    have hsecond : err l1 = f := (if_neg hne.symm).trans (if_pos rfl)
    rw [messageValue_pair h0 h1 hne herr, hfirst, hsecond]
  have hcard : 2 * ({l1} : Finset ℕ).card + [l0].length ≤ 3 := by simp
  refine correctable_of_errors err (fun i _ hi => ?_) hcard ?_ ?_ ?_
  · exact (herr i hi).imp List.mem_singleton.mpr mem_singleton.mpr
  · rw [hvalue, inv_pow, inv_pow, hlow]
  · rw [hvalue, one_pow, one_pow, mul_one, mul_one, hmid]
  · rw [hvalue, hhigh]

/-- A column that was accepted was within the radius. -/
theorem ColumnFixed.correctable (h : ColumnFixed nblocks badLoc m after) (hlen : badLoc.length ≤ 3) :
    Correctable nblocks badLoc m := by
  obtain ⟨extra, hone, hfull, hnear⟩ := h.near
  refine ⟨after, h.codeword, extra, fun i _ hne => hnear i hne.symm, ?_⟩
  by_cases htwo : 2 ≤ badLoc.length
  · rw [hfull htwo, card_empty]
    omega
  · omega

/-- A codeword is within the radius. -/
theorem correctable_of_isCodeword (hm : IsCodeword rootR nblocks m) (hlen : badLoc.length ≤ 3) :
    Correctable nblocks badLoc m :=
  (ColumnFixed.refl badLoc hm).correctable hlen

/-- A codeword is accepted as it is. -/
theorem ColumnFixed.eq_self (h : ColumnFixed nblocks badLoc m after) (hm : IsCodeword rootR nblocks m)
    (hlen : badLoc.length ≤ 3) (hblocks : nblocks ≤ ftSectorsPerSegment) : after = m := by
  have hcard : badLoc.length + (if 2 ≤ badLoc.length then 0 else 1) + (∅ : Finset ℕ).card ≤ 3 := by
    rw [card_empty]
    split <;> omega
  have hsame := h.eq_encoded hblocks hm (fun i _ hne => absurd rfl hne) hcard
  funext i
  by_contra hne
  exact hne (hsame i (h.below i hne))

/-- Three erasures can have any checks. -/
theorem correctable_of_three {l0 l1 l2 : ℕ} (hnodup : [l0, l1, l2].Nodup) (hlt : ∀ l ∈ [l0, l1, l2], l < nblocks)
    (hblocks : nblocks ≤ ftSectorsPerSegment) : Correctable nblocks [l0, l1, l2] m := by
  have hl : ∀ k, ![l0, l1, l2] k < nblocks := by
    intro k
    apply hlt
    fin_cases k <;> simp
  have hinj : Function.Injective ![l0, l1, l2] := by
    have hof := List.nodup_ofFn.mp (show (List.ofFn ![l0, l1, l2]).Nodup by simpa using hnodup)
    exact hof
  have hloc : Function.Injective fun k => rootR ^ ![l0, l1, l2] k := by
    intro a b hab
    exact hinj (locators_injOn hblocks (hl a) (hl b) hab)
  obtain ⟨err, hsupport, hlow, hmid, hhigh⟩ := exists_three_entries rootR_ne_zero hl hloc
    ![messageValue nblocks m rootR⁻¹, messageValue nblocks m 1, messageValue nblocks m rootR]
  have hcard : 2 * (∅ : Finset ℕ).card + [l0, l1, l2].length ≤ 3 := by simp
  refine correctable_of_errors err (fun i _ hne => ?_) hcard hlow hmid hhigh
  obtain ⟨k, rfl⟩ := hsupport i hne
  left
  fin_cases k <;> simp

/-- The first two checks of a column outside the radius make the solver change it: without erasures they are
those of one error in the block, with two erasures they do not both vanish. With one erasure the solver uses
all three checks. -/
def Misleads (nblocks : ℕ) (m : ℕ → Gf) : List ℕ → Prop
  | [] => messageValue nblocks m 1 ≠ 0 ∧
      ∃ l < nblocks, messageValue nblocks m 1 = messageValue nblocks m rootR⁻¹ * rootR ^ l
  | [_, _] => messageValue nblocks m rootR⁻¹ ≠ 0 ∨ messageValue nblocks m 1 ≠ 0
  | _ => False

end Radius

section Column

variable {nblocks : ℕ} {ainv : Matrix} {s : Syndromes Byte} {m : ℕ → Gf}

/-- The pattern of the solver changes something. -/
def Changes (nblocks : ℕ) (badLoc : List ℕ) (ainv : Matrix) (s : Syndromes Byte) : Prop :=
  ∃ pattern, errorPattern nblocks badLoc ainv s = some pattern ∧ ∃ i, patternWord pattern i ≠ 0

/-- Without erasures the solver changes a column exactly if its first two checks are those of one error. -/
theorem changes_nil (hblocks : nblocks < 255) (hs : IsSyndromes s nblocks m) :
    Changes nblocks [] ainv s ↔ Misleads nblocks m [] := by
  rw [Changes, Misleads, ← hs.low, ← hs.mid]
  have hpattern : errorPattern nblocks [] ainv s = if s.s0 = 0 then none else
      if nblocks ≤ gflog (gfdiv s.s1 s.s0) then none else some [(gflog (gfdiv s.s1 s.s0), s.s1)] := rfl
  by_cases hlow : s.s0 = 0
  · rw [hpattern, if_pos hlow, gf_eq_zero.mpr hlow]
    refine iff_of_false ?_ ?_
    · simp
    · rintro ⟨hmid, l, hl, hone⟩
      exact hmid (hone.trans (zero_mul _))
  have hquotient := gf_gfdiv s.s1 hlow
  have hlow' : (⟨s.s0⟩ : Gf) ≠ 0 := fun h => hlow (gf_eq_zero.mp h)
  rw [hpattern, if_neg hlow]
  constructor
  · rintro ⟨pattern, hsome, i, hi⟩
    rw [Option.ite_none_left_eq_some, Option.some.injEq] at hsome
    obtain ⟨hinside, rfl⟩ := hsome
    have hmid : (⟨s.s1⟩ : Gf) ≠ 0 := by
      intro hzero
      rw [patternWord_cons, patternWord_nil, hzero, ite_self, add_zero] at hi
      exact hi rfl
    have hne : gfdiv s.s1 s.s0 ≠ 0 := by
      rw [ne_eq, ← gf_eq_zero, hquotient]
      exact div_ne_zero hmid hlow'
    refine ⟨hmid, gflog (gfdiv s.s1 s.s0), Nat.not_le.mp hinside, ?_⟩
    rw [← gf_eq_pow hne, hquotient, mul_div_cancel₀ _ hlow']
  · rintro ⟨hmid, l, hl, hone⟩
    have hlocation : gflog (gfdiv s.s1 s.s0) = l := by
      apply gflog_eq (hl.trans hblocks)
      rw [hquotient, hone, mul_div_cancel_left₀ _ hlow']
    rw [hlocation, if_neg (Nat.not_le.mpr hl)]
    refine ⟨_, rfl, l, ?_⟩
    rw [patternWord_cons, patternWord_nil, if_pos rfl, add_zero]
    exact hmid

/-- With one erasure the solver answers columns within the radius only. -/
theorem correctable_of_errorPattern_one {l0 : ℕ} {pattern : List (ℕ × Byte)} (h0 : l0 < nblocks)
    (hblocks : nblocks < 255) (hs : IsSyndromes s nblocks m)
    (h : errorPattern nblocks [l0] ainv s = some pattern) : Correctable nblocks [l0] m := by
  have hpow (l : ℕ) : rootR ^ l ≠ 0 := pow_ne_zero l rootR_ne_zero
  have ht1 : (⟨gfadd (gfmulExp s.s1 l0) s.s2⟩ : Gf) = ⟨s.s1⟩ * rootR ^ l0 + ⟨s.s2⟩ := by
    rw [gf_gfadd, gf_gfmulExp _ (by omega) (by omega), zpow_natCast]
  have ht2 : (⟨gfadd (gfmulExp s.s0 l0) s.s1⟩ : Gf) = ⟨s.s0⟩ * rootR ^ l0 + ⟨s.s1⟩ := by
    rw [gf_gfadd, gf_gfmulExp _ (by omega) (by omega), zpow_natCast]
  have htwo : (2 : Gf) = 0 := CharTwo.two_eq_zero
  simp only [errorPattern] at h
  split at h
  · next hnone =>
    -- both eliminated checks vanish: the erasure is the only error
    rw [gf_eq_zero.mpr hnone.1, eq_comm, CharTwo.add_eq_zero] at ht1
    rw [gf_eq_zero.mpr hnone.2, eq_comm, CharTwo.add_eq_zero] at ht2
    have hvalue (x : Gf) : messageValue nblocks (Pi.single l0 ⟨s.s1⟩) x = ⟨s.s1⟩ * x ^ l0 := by
      rw [messageValue_eq_sum (T := {l0}) (by simpa using h0)
        fun i _ hi => Pi.single_eq_of_ne (fun h => hi (mem_singleton.mpr h)) _, sum_singleton, Pi.single_eq_same]
    have hcard : 2 * (∅ : Finset ℕ).card + [l0].length ≤ 3 := by simp
    refine correctable_of_errors (Pi.single l0 ⟨s.s1⟩) (fun i _ hne => Or.inl ?_) hcard ?_ ?_ ?_
    · by_contra hi
      exact hne (Pi.single_eq_of_ne (fun h => hi (List.mem_singleton.mpr h)) _)
    · rw [hvalue, ← hs.low, inv_pow, ← div_eq_mul_inv, div_eq_iff (hpow l0), ht2]
    · rw [hvalue, ← hs.mid, one_pow, mul_one]
    · rw [hvalue, ← hs.high, ht1]
  · next hsome =>
    rw [Option.ite_none_left_eq_some, Option.ite_none_left_eq_some] at h
    obtain ⟨hboth, hinside, hsolved⟩ := h
    obtain ⟨hne1, hne2⟩ := not_or.mp hboth
    have hne2' : (⟨gfadd (gfmulExp s.s0 l0) s.s1⟩ : Gf) ≠ 0 := fun h => hne2 (gf_eq_zero.mp h)
    have hquotient := gf_gfdiv (gfadd (gfmulExp s.s1 l0) s.s2) hne2
    set l1 := gflog (gfdiv (gfadd (gfmulExp s.s1 l0) s.s2) (gfadd (gfmulExp s.s0 l0) s.s1)) with hl1
    have h1 : l1 < nblocks := Nat.not_le.mp hinside
    have hdistinct : l0 ≠ l1 := by
      intro heq
      rw [← heq, gfinv2_self] at hsolved
      cases hsolved
    have hlocator : (rootR ^ l1 : Gf) * (⟨s.s0⟩ * rootR ^ l0 + ⟨s.s1⟩) = ⟨s.s1⟩ * rootR ^ l0 + ⟨s.s2⟩ := by
      have hnonzero : gfdiv (gfadd (gfmulExp s.s1 l0) s.s2) (gfadd (gfmulExp s.s0 l0) s.s1) ≠ 0 := by
        rw [ne_eq, ← gf_eq_zero, hquotient]
        exact div_ne_zero (fun h => hne1 (gf_eq_zero.mp h)) hne2'
      rw [hl1, ← gf_eq_pow hnonzero, hquotient, ← ht1, ← ht2, div_mul_cancel₀ _ hne2']
    have hsum : rootR ^ l0 + rootR ^ l1 ≠ 0 :=
      add_ne_zero_of_ne (rootR_pow_ne (h0.trans hblocks) (h1.trans hblocks) hdistinct)
    -- the error that was located takes the second eliminated check, the erasure the rest
    obtain ⟨f, hf⟩ : ∃ f : Gf, f * (rootR ^ l0 + rootR ^ l1) = (⟨s.s0⟩ * rootR ^ l0 + ⟨s.s1⟩) * rootR ^ l1 :=
      ⟨_, div_mul_cancel₀ _ hsum⟩
    refine correctable_of_pair h0 h1 hdistinct (⟨s.s1⟩ + f) f ?_ ?_ ?_
    · rw [← hs.low]
      have h0 := hpow l0
      have h1 := hpow l1
      field_simp
      linear_combination hf + (⟨s.s1⟩ : Gf) * rootR ^ l1 * htwo
    · rw [← hs.mid, add_assoc, CharTwo.add_self_eq_zero, add_zero]
    · rw [← hs.high]
      linear_combination hf + hlocator + (⟨s.s1⟩ : Gf) * rootR ^ l0 * htwo

/-- With two erasures the solver changes a column exactly if its first two checks do not both vanish. -/
theorem changes_two {l0 l1 : ℕ} (h0 : l0 < nblocks) (h1 : l1 < nblocks) (hne : l0 ≠ l1) (hblocks : nblocks < 255)
    {ainv₀ : Matrix} (hainv : gfinv2 l0 l1 ainv₀ = some ainv) (hs : IsSyndromes s nblocks m) :
    Changes nblocks [l0, l1] ainv s ↔ Misleads nblocks m [l0, l1] := by
  obtain ⟨a, ha, h00, h10, h01, h11⟩ := gfinv2_spec (h0.trans hblocks) (h1.trans hblocks) hne ainv₀
  obtain rfl : a = ainv := Option.some.inj (ha.symm.trans hainv)
  have hlocs : (rootR ^ l0)⁻¹ ≠ (rootR ^ l1)⁻¹ := fun h =>
    rootR_pow_ne (h0.trans hblocks) (h1.trans hblocks) hne (inv_injective h)
  have hdet : ((rootR ^ l0)⁻¹ + (rootR ^ l1)⁻¹)⁻¹ ≠ 0 := inv_ne_zero (add_ne_zero_of_ne hlocs)
  have hmag0 : (⟨gfmatMul 2 a s 0⟩ : Gf) =
      ((rootR ^ l0)⁻¹ + (rootR ^ l1)⁻¹)⁻¹ * (⟨s.s0⟩ + (rootR ^ l1)⁻¹ * ⟨s.s1⟩) := by
    rw [gf_gfmatMul_two, h00, h01]
    ring
  have hmag1 : (⟨gfmatMul 2 a s 1⟩ : Gf) =
      ((rootR ^ l0)⁻¹ + (rootR ^ l1)⁻¹)⁻¹ * (⟨s.s0⟩ + (rootR ^ l0)⁻¹ * ⟨s.s1⟩) := by
    rw [gf_gfmatMul_two, h10, h00, h11]
    ring
  have hword (i : ℕ) : patternWord (errorMagnitudes [l0, l1] a s) i =
      (if l0 = i then ⟨gfmatMul 2 a s 0⟩ else 0) + (if l1 = i then ⟨gfmatMul 2 a s 1⟩ else 0) := by
    simp [errorMagnitudes]
  have hzero : (∀ i, patternWord (errorMagnitudes [l0, l1] a s) i = 0) ↔ (⟨s.s0⟩ : Gf) = 0 ∧ (⟨s.s1⟩ : Gf) = 0 := by
    constructor
    · intro hall
      have hfirst := hall l0
      have hsecond := hall l1
      rw [hword, if_pos rfl, if_neg hne.symm, add_zero, hmag0] at hfirst
      rw [hword, if_neg hne, if_pos rfl, zero_add, hmag1] at hsecond
      have hfirst' := (mul_eq_zero.mp hfirst).resolve_left hdet
      have hsecond' := (mul_eq_zero.mp hsecond).resolve_left hdet
      have hmid : (⟨s.s1⟩ : Gf) = 0 := by
        have hproduct : ((rootR ^ l0)⁻¹ - (rootR ^ l1)⁻¹) * (⟨s.s1⟩ : Gf) = 0 := by
          linear_combination hsecond' - hfirst'
        exact (mul_eq_zero.mp hproduct).resolve_left (sub_ne_zero.mpr hlocs)
      rw [hmid, mul_zero, add_zero] at hfirst'
      exact ⟨hfirst', hmid⟩
    · rintro ⟨hlow, hmid⟩ i
      rw [hword, hmag0, hmag1, hlow, hmid, mul_zero, add_zero, mul_zero, mul_zero, add_zero, mul_zero, ite_self, ite_self,
        add_zero]
  have hpattern : Changes nblocks [l0, l1] a s ↔ ∃ i, patternWord (errorMagnitudes [l0, l1] a s) i ≠ 0 := by
    rw [Changes]
    simp [errorPattern]
  rw [hpattern, Misleads, ← hs.low, ← hs.mid, ← not_forall, hzero, not_and_or]

variable {data : ℕ → Byte} {off : ℕ} {badLoc : List ℕ} {correctionMap : SectorMap}

/-- A column is changed by `correct_block()` exactly if the pattern of the solver changes something. The other columns
are not touched. -/
theorem column_correctBlock (hoff : off < ftSectorSize) :
    (∀ x < ftSectorSize, x ≠ off →
      column (correctBlock data off nblocks badLoc ainv s correctionMap).data x = column data x) ∧
    (column (correctBlock data off nblocks badLoc ainv s correctionMap).data off ≠ column data off ↔
      Changes nblocks badLoc ainv s) := by
  rw [correctBlock, Changes]
  split
  · next hnone => simp [hnone]
  next pattern hpattern =>
  have hdata (x : ℕ) (hx : x < ftSectorSize) (i : ℕ) :=
    column_correctBytes pattern ⟨data, correctionMap, 0, s⟩ hoff hx i
  constructor
  · intro x hx hne
    funext i
    rw [hdata x hx, if_neg hne, add_zero]
  · rw [hpattern, Function.ne_iff]
    simp [hdata off hoff]

/-- The sectors behind the block are not touched. -/
theorem column_correctBlock_behind (hoff : off < ftSectorSize) (hnodup : badLoc.Nodup)
    (hlt : ∀ l ∈ badLoc, l < nblocks) {i : ℕ} (hi : nblocks ≤ i) :
    column (correctBlock data off nblocks badLoc ainv s correctionMap).data off i = column data off i := by
  rw [correctBlock]
  split
  · rfl
  next pattern hpattern =>
  obtain ⟨extra, hlocs, -, -, -, hinside⟩ := errorPattern_locs hpattern hnodup hlt
  have hnone : i ∉ pattern.map Prod.fst := by
    rw [hlocs]
    intro hmem
    have := hinside i hmem
    omega
  have hdata := column_correctBytes pattern ⟨data, correctionMap, 0, s⟩ hoff hoff i
  rw [if_pos rfl, patternWord_eq_zero hnone, add_zero] at hdata
  exact hdata

/-- A column that is not accepted is outside the radius, and the solver changed it exactly if its first two checks
mislead. -/
theorem correctBlock_failed {ainv₀ : Matrix}
    (hresult : (correctBlock data off nblocks badLoc ainv s correctionMap).result = none)
    (hoff : off < ftSectorSize) (hsorted : badLoc.Pairwise (· < ·)) (hlt : ∀ l ∈ badLoc, l < nblocks)
    (hlen : badLoc.length ≤ 3) (htwo : 2 ≤ nblocks) (hblocks : nblocks ≤ 32)
    (hainv : erasureMatrix badLoc ainv₀ = some ainv) (hs : IsSyndromes s nblocks (column data off))
    (hne : ¬ (s.s0 = 0 ∧ s.s1 = 0 ∧ s.s2 = 0)) :
    ¬ Correctable nblocks badLoc (column data off) ∧
      (column (correctBlock data off nblocks badLoc ainv s correctionMap).data off ≠ column data off ↔
        Misleads nblocks (column data off) badLoc) := by
  have houtside : ¬ Correctable nblocks badLoc (column data off) := by
    intro hcorr
    obtain ⟨count, hcount⟩ := correctBlock_accepts correctionMap hcorr hsorted hlt htwo hblocks hainv hs hne
    rw [hcount] at hresult
    cases hresult
  refine ⟨houtside, ?_⟩
  rw [(column_correctBlock hoff).2]
  match badLoc with
  | [] => exact changes_nil (by omega) hs
  | [l0] =>
    refine iff_of_false ?_ not_false
    rintro ⟨pattern, hpattern, -⟩
    exact houtside (correctable_of_errorPattern_one (hlt l0 (by simp)) (by omega) hs hpattern)
  | [l0, l1] =>
    have h01 : l0 < l1 := by simpa using hsorted
    exact changes_two (hlt l0 (by simp)) (hlt l1 (by simp)) h01.ne (by omega) hainv hs
  | [l0, l1, l2] => exact absurd (correctable_of_three hsorted.nodup hlt hblocks) houtside
  | _ :: _ :: _ :: _ :: _ =>
    simp only [List.length_cons] at hlen
    omega

end Column

/-- The place of a column in the order of the correction: word by word, and in a word from its lowest lane. -/
def Target.rank (t : Target) (x : ℕ) : ℕ := x / t.longSize * t.longSize + t.laneByte (x % t.longSize)

/-- The place of a lane of an aligned word. -/
theorem Target.rank_lane (t : Target) {col i : ℕ} (halign : t.longSize ∣ col) (hi : i < t.longSize) :
    t.rank (col + t.laneByte i) = col + i := by
  obtain ⟨k, rfl⟩ := halign
  have hlane := t.laneByte_lt hi
  rw [rank, Nat.mul_add_div t.longSize_pos, Nat.div_eq_of_lt hlane, Nat.mul_add_mod, Nat.mod_eq_of_lt hlane,
    t.laneByte_laneByte hi, Nat.add_zero, Nat.mul_comm]

/-- A column is the lane of its word at its place. -/
theorem Target.eq_lane (t : Target) (x : ℕ) :
    ∃ i < t.longSize, x = x / t.longSize * t.longSize + t.laneByte i := by
  refine ⟨t.laneByte (x % t.longSize), t.laneByte_lt (Nat.mod_lt _ t.longSize_pos), ?_⟩
  rw [t.laneByte_laneByte (Nat.mod_lt _ t.longSize_pos), Nat.mul_comm, Nat.div_add_mod]

/-- Different columns have different places. -/
theorem Target.rank_injective (t : Target) : Function.Injective t.rank := by
  intro x y h
  have hx := Nat.mod_lt x t.longSize_pos
  have hy := Nat.mod_lt y t.longSize_pos
  have hlanex := t.laneByte_lt hx
  have hlaney := t.laneByte_lt hy
  rw [rank, rank] at h
  have hword : x / t.longSize = y / t.longSize := by
    have hdiv := congrArg (· / t.longSize) h
    simp only [Nat.mul_comm _ t.longSize, Nat.mul_add_div t.longSize_pos, Nat.div_eq_of_lt hlanex,
      Nat.div_eq_of_lt hlaney, Nat.add_zero] at hdiv
    exact hdiv
  rw [hword, Nat.add_left_cancel_iff] at h
  have hlane := congrArg t.laneByte h
  rw [t.laneByte_laneByte hx, t.laneByte_laneByte hy] at hlane
  rw [← Nat.div_add_mod x t.longSize, hword, hlane, Nat.div_add_mod]

/-- The columns that are passed before a lane of a word are those with a lower place. -/
theorem lanesPassed_iff {t : Target} {col n : ℕ} (halign : t.longSize ∣ col) (hn : n < t.longSize) (x : ℕ) :
    lanesPassed t col n x ↔ t.rank x < t.rank (col + t.laneByte n) := by
  rw [t.rank_lane halign hn]
  obtain ⟨i, hi, hx⟩ := t.eq_lane x
  have hrank := t.rank_lane (Dvd.intro_left (x / t.longSize) rfl) hi
  rw [← hx] at hrank
  obtain ⟨k, rfl⟩ := halign
  have hlane := t.laneByte_lt hi
  rcases Nat.lt_trichotomy (x / t.longSize) k with hless | hsame | hmore
  · have hword : x / t.longSize * t.longSize + t.longSize ≤ t.longSize * k := by
      rw [← Nat.succ_mul, Nat.mul_comm t.longSize]
      exact Nat.mul_le_mul_right _ hless
    exact iff_of_true (Or.inl (by omega)) (by omega)
  · rw [Nat.mul_comm, hsame] at hx
    rw [Nat.mul_comm, hsame] at hrank
    rw [hrank, Nat.add_lt_add_iff_left]
    constructor
    · intro hpassed
      rcases hpassed with hlow | ⟨j, hj, heq⟩
      · omega
      · have hjn : j < t.longSize := by omega
        have hlanes := congrArg t.laneByte (Nat.add_left_cancel (hx.symm.trans heq))
        rw [t.laneByte_laneByte hi, t.laneByte_laneByte hjn] at hlanes
        omega
    · intro hlow
      exact Or.inr ⟨i, hlow, hx⟩
  · have hword : t.longSize * k + t.longSize ≤ x / t.longSize * t.longSize := by
      rw [← Nat.mul_succ, Nat.mul_comm t.longSize]
      exact Nat.mul_le_mul_right _ hmore
    refine iff_of_false ?_ (by omega)
    intro hpassed
    rcases hpassed with hlow | ⟨j, hj, heq⟩
    · omega
    · have := @Target.laneByte_lt t j (by omega)
      omega

/-- What a failure leaves: some column is outside the radius. Those in front of it are fixed, those behind it are as
they were, and it is changed exactly if its first two checks mislead. -/
structure StoppedAt (t : Target) (nblocks : ℕ) (badLoc : List ℕ) (before after : ℕ → Byte) (x : ℕ) : Prop where
  inside : x < ftSectorSize
  outside : ¬ Correctable nblocks badLoc (column before x)
  fixed : ∀ y < ftSectorSize, t.rank y < t.rank x → ColumnFixed nblocks badLoc (column before y) (column after y)
  untouched : ∀ y < ftSectorSize, t.rank x < t.rank y → column after y = column before y
  behind : ∀ i, nblocks ≤ i → column after x i = column before x i
  changed : column after x ≠ column before x ↔ Misleads nblocks (column before x) badLoc

section Loops

variable {t : Target} {nblocks : ℕ} {badLoc : List ℕ} {before : ℕ → Byte} {ainv ainv₀ : Matrix} {col : ℕ}
  {ss : Syndromes (Word t)} {st : BlockResult}

/-- A lane that fails stops at its column. -/
theorem correctLane_stopped (hsorted : badLoc.Pairwise (· < ·)) (hlt : ∀ l ∈ badLoc, l < nblocks)
    (hlen : badLoc.length ≤ 3) (hfour : 4 ≤ nblocks) (hblocks : nblocks ≤ 32)
    (hainv : erasureMatrix badLoc ainv₀ = some ainv) (halign : t.longSize ∣ col)
    (hcol : col + t.longSize ≤ ftSectorSize)
    (hss : ∀ i < t.longSize,
      IsSyndromes ⟨lane 8 ss.s0 i, lane 8 ss.s1 i, lane 8 ss.s2 i⟩ nblocks
        (column before (col + t.laneByte i)))
    {n : ℕ} (hn : n < t.longSize) (hprogress : Progress nblocks badLoc before (lanesPassed t col n) st.data st.correctionMap)
    (hgood : st.result ≠ none) (hfailed : (correctLane t col nblocks badLoc ainv ss st n).result = none) :
    StoppedAt t nblocks badLoc before (correctLane t col nblocks badLoc ainv ss st n).data (col + t.laneByte n) := by
  have hoff : col + t.laneByte n < ftSectorSize := by
    have := t.laneByte_lt hn
    omega
  have hpassed := lanesPassed_iff halign hn
  have hkept := hprogress.untouched _ hoff fun h => absurd ((hpassed _).mp h) (lt_irrefl _)
  have hs := hss n hn
  rw [← hkept] at hs
  obtain ⟨count, hcount⟩ := Option.ne_none_iff_exists'.mp hgood
  rw [correctLane, hcount] at hfailed ⊢
  dsimp only at hfailed ⊢
  split at hfailed
  · next hsyndromes =>
    rw [if_pos hsyndromes]
    have hne : ¬ (lane 8 ss.s0 n = 0 ∧ lane 8 ss.s1 n = 0 ∧ lane 8 ss.s2 n = 0) := by
      rintro ⟨h0, h1, h2⟩
      rw [h0, h1, h2] at hsyndromes
      exact hsyndromes (by decide)
    rw [Option.map_eq_none_iff] at hfailed
    obtain ⟨houtside, hchanged⟩ := correctBlock_failed hfailed hoff hsorted hlt hlen (by omega) hblocks hainv hs hne
    obtain ⟨hothers, -⟩ := @column_correctBlock nblocks ainv _ st.data _ badLoc st.correctionMap hoff
    rw [hkept] at houtside hchanged
    refine ⟨hoff, houtside, fun y hy hlow => ?_, fun y hy hhigh => ?_, fun i hi => ?_, hchanged⟩
    · rw [hothers y hy fun h => absurd hlow (h ▸ lt_irrefl _)]
      exact hprogress.fixed y hy ((hpassed y).mpr hlow)
    · rw [hothers y hy fun h => absurd hhigh (h ▸ lt_irrefl _)]
      exact hprogress.untouched y hy fun h => absurd ((hpassed y).mp h) (not_lt.mpr hhigh.le)
    · rw [column_correctBlock_behind hoff hsorted.nodup hlt hi, hkept]
  · rw [hcount] at hfailed
    cases hfailed

/-- Once a lane has failed nothing more happens. -/
theorem correctLane_none (hresult : st.result = none) (n : ℕ) :
    correctLane t col nblocks badLoc ainv ss st n = st := by
  rw [correctLane, hresult]

/-- A word that fails stops at one of its columns. -/
theorem correctLanes_stopped (hsorted : badLoc.Pairwise (· < ·)) (hlt : ∀ l ∈ badLoc, l < nblocks)
    (hlen : badLoc.length ≤ 3) (hfour : 4 ≤ nblocks) (hblocks : nblocks ≤ 32)
    (hainv : erasureMatrix badLoc ainv₀ = some ainv) (halign : t.longSize ∣ col)
    (hcol : col + t.longSize ≤ ftSectorSize)
    (hss : ∀ i < t.longSize,
      IsSyndromes ⟨lane 8 ss.s0 i, lane 8 ss.s1 i, lane 8 ss.s2 i⟩ nblocks
        (column before (col + t.laneByte i)))
    (hinv : LoopInv nblocks badLoc before (· < col) st) (hgood : st.result ≠ none) {n : ℕ} (hn : n ≤ t.longSize)
    (hfailed : ((List.range n).foldl (correctLane t col nblocks badLoc ainv ss) st).result = none) :
    ∃ x, StoppedAt t nblocks badLoc before ((List.range n).foldl (correctLane t col nblocks badLoc ainv ss) st).data
      x := by
  induction n with
  | zero => exact absurd hfailed hgood
  | succ n ih =>
    rw [List.range_succ, List.foldl_append, List.foldl_cons, List.foldl_nil] at hfailed ⊢
    have hlanes := correctLanes_inv hsorted hlt hfour hblocks hainv hcol hss hinv (show n ≤ t.longSize by omega)
    by_cases hearlier : ((List.range n).foldl (correctLane t col nblocks badLoc ainv ss) st).result = none
    · rw [correctLane_none hearlier]
      exact ih (by omega) hearlier
    · exact ⟨_, correctLane_stopped hsorted hlt hlen hfour hblocks hainv halign hcol hss (by omega)
        (hlanes.progress hearlier) hearlier hfailed⟩

/-- A run that fails stops at some column. -/
theorem correctWords_stopped (hsorted : badLoc.Pairwise (· < ·)) (hlt : ∀ l ∈ badLoc, l < nblocks)
    (hlen : badLoc.length ≤ 3) (hfour : 4 ≤ nblocks) (hblocks : nblocks ≤ 32)
    (hainv : erasureMatrix badLoc ainv₀ = some ainv) {rounds : ℕ} (halign : t.longSize ∣ col)
    (hcol : col < ftSectorSize) (hgood : st.result ≠ none)
    (hss : computeSyndromes t st.data col nblocks = some ss)
    (hinv : LoopInv nblocks badLoc before (· < col) st)
    (hfailed : (correctWords t nblocks badLoc ainv rounds (col, ss) st).result = none) :
    ∃ x, StoppedAt t nblocks badLoc before (correctWords t nblocks badLoc ainv rounds (col, ss) st).data x := by
  induction rounds generalizing col ss st with
  | zero => exact absurd hfailed hgood
  | succ rounds ih =>
    have hword := correctWord_inv hsorted hlt hfour hblocks hainv (word_le halign hcol) hgood hss hinv
    have hlanes := (hinv.progress hgood).isSyndromes hblocks (word_le halign hcol) hss
    rw [correctWords] at hfailed ⊢
    by_cases hbad : (correctWord t col nblocks badLoc ainv ss st).result = none
    · rw [if_pos hbad]
      exact correctLanes_stopped hsorted hlt hlen hfour hblocks hainv halign (word_le halign hcol) hlanes hinv hgood
        le_rfl hbad
    · have hprogress := hword.progress hbad
      simp only [if_neg hbad] at hfailed ⊢
      split at hfailed
      · exact absurd hfailed hbad
      · next next hsome =>
        obtain ⟨col', ss'⟩ := next
        obtain ⟨hle, halign', hcol', hss', hcode⟩ := findColumn_some (Nat.dvd_add halign dvd_rfl) hsome
        refine ih halign' hcol' hbad hss' ⟨fun _ => ?_, fun _ => hbad⟩ hfailed
        exact hprogress.skip (fun x _ hx => by omega) fun x _ hx hold => hcode x (by omega) hx

end Loops

/-- A failed correction leaves the segment as it was if too many sectors are reported bad, and otherwise what it did
up to the column where it stopped. -/
theorem ftapeEccCorrectData_stopped (t : Target) (mseg : MemorySegment)
    (hfailed : (ftapeEccCorrectData t mseg).1 = .failed) :
    if mseg.erasures.length ≤ 3 then
      ∃ x, StoppedAt t mseg.blocks mseg.erasures mseg.data (ftapeEccCorrectData t mseg).2.data x
    else (ftapeEccCorrectData t mseg).2.data = mseg.data := by
  have hlt : ∀ l ∈ mseg.erasures, l < mseg.blocks := fun l hl => ((mseg.mem_erasures l).mp hl).1
  have hlocations : erasureLocations mseg.readBad mseg.blocks =
      if mseg.erasures.length ≤ 3 then some mseg.erasures else none := erasureLocations_eq _ _
  rw [ftapeEccCorrectData] at hfailed ⊢
  dsimp only at hfailed ⊢
  split at hfailed
  · cases hfailed
  next first hfirst =>
  obtain ⟨col, ss⟩ := first
  obtain ⟨-, halign, hcol, hss, hcode⟩ := findColumn_some (Nat.dvd_zero _) hfirst
  by_cases hlen : mseg.erasures.length ≤ 3
  · rw [if_pos hlen] at hlocations ⊢
    obtain ⟨ainv, hainv⟩ := erasureMatrix_isSome mseg.erasures_sorted hlt
      (mseg.blocks_le.trans_lt (by decide)) fun _ _ => 0
    simp only [hlocations, hainv] at hfailed ⊢
    have hstart : LoopInv mseg.blocks mseg.erasures mseg.data (· < col) ⟨mseg.data, 0, some 0⟩ := by
      refine ⟨fun _ => ⟨fun x hx hlow => ?_, fun _ _ _ => rfl, fun i => by simp⟩, fun _ => Option.some_ne_none 0⟩
      exact ColumnFixed.refl _ (hcode x (Nat.zero_le x) hlow)
    have hresult : (correctWords t mseg.blocks mseg.erasures ainv ftSectorSize (col, ss)
        ⟨mseg.data, 0, some 0⟩).result = none := by
      by_contra hsome
      obtain ⟨count, hcount⟩ := Option.ne_none_iff_exists'.mp hsome
      rw [hcount] at hfailed
      dsimp only at hfailed
      split at hfailed <;> cases hfailed
    simp only [hresult]
    exact correctWords_stopped mseg.erasures_sorted hlt hlen mseg.four_le_blocks mseg.blocks_le hainv halign hcol
      (Option.some_ne_none 0) hss hstart hresult
  · rw [if_neg hlen] at hlocations ⊢
    simp only [hlocations]

/-- What keeps a segment as it was read when its correction fails: more than three sectors of the block are reported
bad, or every column is within the radius, or the first column that is no codeword is outside the radius and its
checks do not mislead. -/
def LeftAlone (t : Target) (mseg : MemorySegment) : Prop :=
  3 < mseg.erasures.length ∨
    (∀ x < ftSectorSize, Correctable mseg.blocks mseg.erasures (column mseg.data x)) ∨
    ∃ x < ftSectorSize, ¬ Correctable mseg.blocks mseg.erasures (column mseg.data x) ∧
      ¬ Misleads mseg.blocks (column mseg.data x) mseg.erasures ∧
      ∀ y < ftSectorSize, t.rank y < t.rank x → IsCodeword rootR mseg.blocks (column mseg.data y)

/-- Memories agree on a segment if they agree on its columns. -/
theorem data_eq_iff {nblocks : ℕ} {data data' : ℕ → Byte} :
    (∀ k < nblocks * ftSectorSize, data k = data' k) ↔
      ∀ x < ftSectorSize, ∀ i < nblocks, column data x i = column data' x i := by
  constructor
  · intro h x hx i hi
    exact congrArg Gf.mk (h _ (column_lt hx hi))
  · intro h k hk
    obtain ⟨x, hx, i, rfl⟩ := exists_column k
    have hi : i < nblocks := Nat.lt_of_mul_lt_mul_right ((Nat.le_add_left _ x).trans_lt hk)
    exact (Gf.mk.injEq _ _).mp (h x hx i hi)

/-- A column that is unchanged in the block is unchanged where the correction stopped. -/
theorem StoppedAt.not_misleads {t : Target} {nblocks : ℕ} {badLoc : List ℕ} {before after : ℕ → Byte} {x : ℕ}
    (h : StoppedAt t nblocks badLoc before after x) (hsame : ∀ i < nblocks, column after x i = column before x i) :
    ¬ Misleads nblocks (column before x) badLoc := by
  intro hmisleads
  apply h.changed.mpr hmisleads
  funext i
  rcases Nat.lt_or_ge i nblocks with hlow | hhigh
  · exact hsame i hlow
  · exact h.behind i hhigh

/-- The column where the correction stopped is the first one that is no codeword, if anything else was left alone. -/
theorem StoppedAt.eq_of_first {t : Target} {nblocks : ℕ} {badLoc : List ℕ} {before after : ℕ → Byte} {x x' : ℕ}
    (h : StoppedAt t nblocks badLoc before after x) (hlen : badLoc.length ≤ 3) (hx' : x' < ftSectorSize)
    (houtside : ¬ Correctable nblocks badLoc (column before x'))
    (hfirst : ∀ y < ftSectorSize, t.rank y < t.rank x' → IsCodeword rootR nblocks (column before y)) : x' = x := by
  rcases Nat.lt_trichotomy (t.rank x') (t.rank x) with hless | hsame | hmore
  · exact absurd ((h.fixed x' hx' hless).correctable hlen) houtside
  · exact t.rank_injective hsame
  · exact absurd (correctable_of_isCodeword (hfirst x h.inside hmore) hlen) h.outside

/-- A correction that fails leaves every byte of the segment as it was exactly if nothing was there to be changed: more
than three sectors are reported bad, or no column makes it fail, or the first column with syndromes does and does not
mislead the solver. -/
theorem ftapeEccCorrectData_failed_unchanged_iff (t : Target) (mseg : MemorySegment) :
    ((ftapeEccCorrectData t mseg).1 = .failed →
      ∀ k < mseg.blocks * ftSectorSize, (ftapeEccCorrectData t mseg).2.data k = mseg.data k) ↔ LeftAlone t mseg := by
  constructor
  · intro hkept
    by_cases hlen : mseg.erasures.length ≤ 3
    swap
    · exact Or.inl (Nat.not_le.mp hlen)
    by_cases hfailed : (ftapeEccCorrectData t mseg).1 = .failed
    · have hstopped := ftapeEccCorrectData_stopped t mseg hfailed
      rw [if_pos hlen] at hstopped
      obtain ⟨x, hx⟩ := hstopped
      have hsame := data_eq_iff.mp (hkept hfailed)
      refine Or.inr (Or.inr ⟨x, hx.inside, hx.outside, hx.not_misleads (hsame x hx.inside), fun y hy hlow => ?_⟩)
      have hfixed := hx.fixed y hy hlow
      have hself : column (ftapeEccCorrectData t mseg).2.data y = column mseg.data y := by
        funext i
        by_contra hne
        exact hne (hsame y hy i (hfixed.below i hne))
      rw [← hself]
      exact hfixed.codeword
    · have hprogress := (ftapeEccCorrectData_inv t mseg).1 hfailed
      exact Or.inr (Or.inl fun x hx => (hprogress.fixed x hx trivial).correctable hlen)
  · intro hleft hfailed
    have hstopped := ftapeEccCorrectData_stopped t mseg hfailed
    rcases hleft with hmany | hwithin | ⟨x', hx', houtside, hmisleads, hfirst⟩
    · rw [if_neg (by omega)] at hstopped
      rw [hstopped]
      exact fun _ _ => rfl
    · exact absurd hfailed ((ftapeEccCorrectData_inv t mseg).2 hwithin)
    · by_cases hlen : mseg.erasures.length ≤ 3
      swap
      · rw [if_neg hlen] at hstopped
        rw [hstopped]
        exact fun _ _ => rfl
      rw [if_pos hlen] at hstopped
      obtain ⟨x, hx⟩ := hstopped
      obtain rfl := hx.eq_of_first hlen hx' houtside hfirst
      apply data_eq_iff.mpr
      intro y hy i _
      rcases Nat.lt_trichotomy (t.rank y) (t.rank x') with hless | hsame | hmore
      · rw [(hx.fixed y hy hless).eq_self (hfirst y hy hless) hlen mseg.blocks_le]
      · obtain rfl := t.rank_injective hsame
        rw [not_not.mp (mt hx.changed.mp hmisleads)]
      · rw [hx.untouched y hy hmore]

/-- A short segment of zeros with one wrong byte in its first column and two in the ninth. -/
def faultySegment : MemorySegment :=
  { blankSegment with data := fun k => if k = 0 ∨ k = 8 ∨ k = 8 + ftSectorSize then 1 else 0 }

/-- The zero column is a codeword. -/
theorem isCodeword_zero (nblocks : ℕ) : IsCodeword rootR nblocks fun _ => 0 := by
  have hzero (x : Gf) : messageValue nblocks (fun _ => (0 : Gf)) x = 0 := by simp [messageValue]
  exact ⟨hzero _, hzero _, hzero _⟩

/-- The first column of the faulty segment has an error at its first sector. -/
theorem column_faultySegment_first : column faultySegment.data 0 = Pi.single 0 1 := by
  funext i
  rcases Nat.eq_zero_or_pos i with rfl | hi
  · rfl
  · have hother : ¬(0 + i * ftSectorSize = 0 ∨ 0 + i * ftSectorSize = 8 ∨ 0 + i * ftSectorSize = 8 + ftSectorSize) := by
      unfold ftSectorSize
      omega
    have hbyte : faultySegment.data (0 + i * ftSectorSize) = 0 := if_neg hother
    rw [Pi.single_eq_of_ne hi.ne', column, hbyte]
    rfl

/-- The ninth column of the faulty segment is outside the radius: the zero column is the only codeword near it. -/
theorem not_correctable_faultySegment : ¬ Correctable 4 [] (column faultySegment.data 8) := by
  rintro ⟨c, hc, extra, hnear, hcard⟩
  have hone : extra.card ≤ 1 := by
    rw [List.length_nil] at hcard
    omega
  have hfaults : column faultySegment.data 8 0 ≠ 0 ∧ column faultySegment.data 8 1 ≠ 0 := by decide +kernel
  have hrest : ∀ i < 4, i ≠ 0 → i ≠ 1 → column faultySegment.data 8 i = 0 := by decide +kernel
  have hsame : ∀ i < 4, c i = 0 := by
    refine hc.eq_of_near (isCodeword_zero 4) rootR_ne_zero (locators_injOn (by decide)) (T := extra ∪ {0, 1}) ?_ ?_
    · have := card_union_le extra {0, 1}
      have htwo : ({0, 1} : Finset ℕ).card = 2 := rfl
      omega
    · intro i hi hnot
      simp only [mem_union, mem_insert, mem_singleton, not_or] at hnot
      rw [← hrest i hi hnot.2.1 hnot.2.2]
      by_contra hne
      exact hnot.1 ((hnear i hi (Ne.symm hne)).resolve_left List.not_mem_nil)
  have hfirst : 0 ∈ extra :=
    (hnear 0 (by decide) (by rw [hsame 0 (by decide)]; exact hfaults.1)).resolve_left List.not_mem_nil
  have hsecond : 1 ∈ extra :=
    (hnear 1 (by decide) (by rw [hsame 1 (by decide)]; exact hfaults.2)).resolve_left List.not_mem_nil
  have := card_le_one.mp hone 0 hfirst 1 hsecond
  omega

/-- The correction of the faulty segment repairs its first column and fails at the ninth. -/
theorem ftapeEccCorrectData_failed_changed :
    (ftapeEccCorrectData target64 faultySegment).1 = .failed ∧
      ¬ ∀ k < faultySegment.blocks * ftSectorSize,
        (ftapeEccCorrectData target64 faultySegment).2.data k = faultySegment.data k := by
  have hlen : faultySegment.erasures = [] := by decide +kernel
  have hfailed : (ftapeEccCorrectData target64 faultySegment).1 = .failed := by
    by_contra hgood
    have hprogress := (ftapeEccCorrectData_inv target64 faultySegment).1 hgood
    have hcorrectable := (hprogress.fixed 8 (by decide) trivial).correctable (by rw [hlen]; decide)
    rw [hlen] at hcorrectable
    exact not_correctable_faultySegment hcorrectable
  refine ⟨hfailed, fun hkept => ?_⟩
  have hstopped := ftapeEccCorrectData_stopped target64 faultySegment hfailed
  rw [hlen, if_pos (by decide)] at hstopped
  obtain ⟨x, hx⟩ := hstopped
  have hsupport : ∀ i < 4, column faultySegment.data 0 i ≠ 0 → i ∈ ([] : List ℕ) ∨ i ∈ ({0} : Finset ℕ) := by
    intro i _ hi
    rw [column_faultySegment_first] at hi
    right
    rw [mem_singleton]
    by_contra hne
    exact hi (Pi.single_eq_of_ne hne _)
  -- the first column is within the radius, so the correction stopped behind it
  have hbehind : target64.rank 0 < target64.rank x := by
    have hne : x ≠ 0 := by
      intro hzero
      subst hzero
      exact hx.outside ⟨fun _ => 0, isCodeword_zero 4, {0}, hsupport, by decide⟩
    have hrank := target64.rank_injective.ne hne
    have hzero : target64.rank 0 = 0 := by decide
    omega
  have hfixed := hx.fixed 0 (by decide) hbehind
  have hsame : ∀ i < 4, column (ftapeEccCorrectData target64 faultySegment).2.data 0 i =
      column faultySegment.data 0 i := data_eq_iff.mp hkept 0 (by decide)
  rw [column_faultySegment_first] at hsame
  have hzero := hfixed.codeword.eq_zero rootR_ne_zero (locators_injOn (by decide)) (T := {0}) (by decide)
    (by intro i hi; rw [mem_singleton.mp hi]; decide)
    (fun i hi hne => by rw [hsame i hi, Pi.single_eq_of_ne (fun h => hne (mem_singleton.mpr h))]) 0 (by decide)
  rw [hsame 0 (by decide), Pi.single_eq_same] at hzero
  exact one_ne_zero hzero

end Ftape.Ecc
