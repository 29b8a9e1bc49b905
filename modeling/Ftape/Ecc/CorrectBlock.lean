import Ftape.Ecc.Solver

/-!
# Correcting one column

`correct_block()` adds the solved magnitudes to the column, marks the sectors it touched and
updates the syndromes by hand; the column is accepted when the updated syndromes vanish. The
self-check makes every accepted column a codeword, whatever the solver answered. That it
accepts is a different question, settled by the solver inside its radius.
-/

namespace Ftape.Ecc

open Ftape.Algebra Finset

/-- What the correction loop changes: the memory, the map of corrected sectors, the number of
corrected bytes and the check bytes. -/
structure BlockState where
  data : ℕ → Byte
  correctionMap : SectorMap
  ncorrected : ℕ
  check : Syndromes Byte

/-- One round of the correction loop, for the column at `off`. -/
def correctByte (off : ℕ) (st : BlockState) (le : ℕ × Byte) : BlockState :=
  let l := le.1
  let e := le.2
  if e = 0 then st
  else
    let dp := off + l * ftSectorSize
    let logErrorMag : ℤ := gflog e
    { data := Function.update st.data dp (gfadd (st.data dp) e)
      correctionMap := st.correctionMap ||| 1#32 <<< l
      ncorrected := st.ncorrected + 1
      check :=
        { s0 := gfadd st.check.s0 (gfpow (mod255 (logErrorMag - l)))
          s1 := gfadd st.check.s1 e
          s2 := gfadd st.check.s2 (gfpow (mod255 (logErrorMag + l))) } }

/-- What `correct_block()` leaves behind; no count stands for its error return. -/
structure BlockResult where
  data : ℕ → Byte
  correctionMap : SectorMap
  result : Option ℕ

/-- `correct_block()`. A failed self-check does not take the changes back. -/
def correctBlock (data : ℕ → Byte) (off nblocks : ℕ) (badLoc : List ℕ) (ainv : Matrix)
    (s : Syndromes Byte) (correctionMap : SectorMap) : BlockResult :=
  match errorPattern nblocks badLoc ainv s with
  | none => ⟨data, correctionMap, none⟩
  | some pattern =>
    let st := pattern.foldl (correctByte off) ⟨data, correctionMap, 0, s⟩
    ⟨st.data, st.correctionMap,
      if st.check.s0 ≠ 0 ∨ st.check.s1 ≠ 0 ∨ st.check.s2 ≠ 0 then none else some st.ncorrected⟩

/-- Writing a byte of one column changes that column at one sector. -/
theorem column_update (data : ℕ → Byte) {off x : ℕ} (hoff : off < ftSectorSize)
    (hx : x < ftSectorSize) (l i : ℕ) (v : Byte) :
    column (Function.update data (off + l * ftSectorSize) v) x i =
      if x = off ∧ i = l then ⟨v⟩ else column data x i := by
  have haddr : x + i * ftSectorSize = off + l * ftSectorSize ↔ x = off ∧ i = l := by
    constructor
    · intro h
      have hmod := congrArg (· % ftSectorSize) h
      simp only [Nat.add_mul_mod_self_right, Nat.mod_eq_of_lt hx, Nat.mod_eq_of_lt hoff] at hmod
      refine ⟨hmod, Nat.eq_of_mul_eq_mul_right (show 0 < ftSectorSize by decide) ?_⟩
      omega
    · rintro ⟨rfl, rfl⟩
      rfl
  simp only [column, Function.update_apply, haddr]
  split <;> rfl

/-- A zero magnitude changes nothing. -/
theorem correctByte_zero (off : ℕ) (st : BlockState) (l : ℕ) :
    correctByte off st (l, 0) = st := rfl

/-- A nonzero magnitude takes the branch that corrects. -/
theorem correctByte_of_ne (off : ℕ) (st : BlockState) (l : ℕ) {e : Byte} (he : e ≠ 0) :
    correctByte off st (l, e) =
      { data := Function.update st.data (off + l * ftSectorSize)
          (gfadd (st.data (off + l * ftSectorSize)) e)
        correctionMap := st.correctionMap ||| 1#32 <<< l
        ncorrected := st.ncorrected + 1
        check :=
          { s0 := gfadd st.check.s0 (gfpow (mod255 ((gflog e : ℤ) - l)))
            s1 := gfadd st.check.s1 e
            s2 := gfadd st.check.s2 (gfpow (mod255 ((gflog e : ℤ) + l))) } } :=
  if_neg he

/-- A pattern is added to its own column and to no other. -/
theorem column_correctBytes (pattern : List (ℕ × Byte)) (st : BlockState) {off x : ℕ}
    (hoff : off < ftSectorSize) (hx : x < ftSectorSize) (i : ℕ) :
    column (pattern.foldl (correctByte off) st).data x i =
      column st.data x i + if x = off then patternWord pattern i else 0 := by
  induction pattern generalizing st with
  | nil => simp
  | cons le rest ih =>
    obtain ⟨l, e⟩ := le
    rw [List.foldl_cons, ih, patternWord_cons]
    have hstep : column (correctByte off st (l, e)).data x i =
        column st.data x i + if x = off then (if l = i then ⟨e⟩ else 0) else 0 := by
      rcases eq_or_ne e 0 with rfl | he
      · rw [correctByte_zero, gf_eq_zero.mpr rfl, ite_self, ite_self, add_zero]
      · rw [correctByte_of_ne off st l he, column_update st.data hoff hx]
        by_cases hxo : x = off
        · subst hxo
          by_cases hil : i = l
          · subst hil
            simp [column, gf_gfadd]
          · simp [hil, Ne.symm hil]
        · simp [hxo]
    rw [hstep, add_assoc]
    split <;> simp

/-- The check bytes follow the syndromes of the column under correction. -/
theorem check_correctBytes (pattern : List (ℕ × Byte)) (st : BlockState) (off : ℕ) {nblocks : ℕ}
    (hblocks : nblocks ≤ 255) (hlt : ∀ l ∈ pattern.map Prod.fst, l < nblocks) {m : ℕ → Gf}
    (hcheck : IsSyndromes st.check nblocks m) :
    IsSyndromes (pattern.foldl (correctByte off) st).check nblocks
      (fun i => m i + patternWord pattern i) := by
  induction pattern generalizing st m with
  | nil => simpa using hcheck
  | cons le rest ih =>
    obtain ⟨l, e⟩ := le
    have hl : l < nblocks := hlt l (by simp)
    have hword : (fun i => m i + patternWord ((l, e) :: rest) i) =
        fun i => (m i + if l = i then ⟨e⟩ else 0) + patternWord rest i := by
      funext i
      rw [patternWord_cons, add_assoc]
    rw [List.foldl_cons, hword]
    refine ih _ (fun k hk => hlt k (List.mem_cons_of_mem _ hk)) ?_
    have hvalue (x : Gf) : messageValue nblocks (fun i => m i + if l = i then (⟨e⟩ : Gf) else 0) x =
        messageValue nblocks m x + ⟨e⟩ * x ^ l := by
      rw [messageValue_add, messageValue_eq_sum (T := {l}) (by simpa using hl)
        fun i _ hi => if_neg fun h => hi (mem_singleton.mpr h.symm)]
      simp
    rcases eq_or_ne e 0 with rfl | he
    · simpa only [correctByte_zero, gf_eq_zero.mpr rfl, ite_self, add_zero] using hcheck
    · rw [correctByte_of_ne off st l he]
      have hlog := gflog_lt e he
      have hmag (v : ℤ) (hv : v = l ∨ v = -l) :
          (⟨gfpow (mod255 (gflog e + v))⟩ : Gf) = ⟨e⟩ * rootR ^ v := by
        rw [gf_gfpow_mod255 (by omega) (by omega), zpow_add₀ rootR_ne_zero, zpow_natCast,
          ← gf_eq_pow he]
      constructor
      · rw [gf_gfadd, hcheck.low, hvalue, sub_eq_add_neg, hmag _ (Or.inr rfl), zpow_neg, inv_pow,
          zpow_natCast]
      · rw [gf_gfadd, hcheck.mid, hvalue, one_pow, mul_one]
      · rw [gf_gfadd, hcheck.high, hvalue, hmag _ (Or.inl rfl), zpow_natCast]

/-- The map gains the sectors at which the pattern adds something. -/
theorem map_correctBytes (pattern : List (ℕ × Byte)) (st : BlockState) (off : ℕ)
    (hnodup : (pattern.map Prod.fst).Nodup) (hlt : ∀ l ∈ pattern.map Prod.fst, l < 32) (i : ℕ) :
    (pattern.foldl (correctByte off) st).correctionMap.getLsbD i = true ↔
      st.correctionMap.getLsbD i = true ∨ patternWord pattern i ≠ 0 := by
  induction pattern generalizing st with
  | nil => simp
  | cons le rest ih =>
    obtain ⟨l, e⟩ := le
    rw [List.map_cons, List.nodup_cons] at hnodup
    have hl : l < 32 := hlt l (by simp)
    rw [List.foldl_cons, ih _ hnodup.2 fun k hk => hlt k (List.mem_cons_of_mem _ hk),
      patternWord_cons]
    have hstep : (correctByte off st (l, e)).correctionMap.getLsbD i = true ↔
        st.correctionMap.getLsbD i = true ∨ (l = i ∧ e ≠ 0) := by
      rcases eq_or_ne e 0 with rfl | he
      · rw [correctByte_zero]
        simp only [ne_eq, not_true_eq_false, and_false, or_false]
      · rw [correctByte_of_ne off st l he]
        have hbit : (1#32 <<< l).getLsbD i = decide (l = i) := by
          rw [BitVec.getLsbD_shiftLeft, BitVec.getLsbD_one]
          by_cases hi : l = i
          · subst hi
            simp [hl]
          · simp only [hi, decide_false]
            grind
        rw [BitVec.getLsbD_or, hbit, Bool.or_eq_true, decide_eq_true_iff, and_iff_left he]
    rw [hstep]
    by_cases hi : l = i
    · subst hi
      rw [if_pos rfl, patternWord_eq_zero hnodup.1, add_zero, ne_eq (⟨e⟩ : Gf), gf_eq_zero]
      simp
    · simp [hi]

/-- What an accepted correction may have done to a column: the result is a codeword, and the
changed sectors are known erasures and at most one other, that one only when fewer than two
erasures are known. -/
structure ColumnFixed (nblocks : ℕ) (badLoc : List ℕ) (before after : ℕ → Gf) : Prop where
  codeword : IsCodeword rootR nblocks after
  below : ∀ i, after i ≠ before i → i < nblocks
  near : ∃ extra : Finset ℕ, extra.card ≤ 1 ∧ (2 ≤ badLoc.length → extra = ∅) ∧
    ∀ i, after i ≠ before i → i ∈ badLoc ∨ i ∈ extra

/-- A column that already is a codeword may be left alone. -/
theorem ColumnFixed.refl {nblocks : ℕ} (badLoc : List ℕ) {m : ℕ → Gf}
    (hm : IsCodeword rootR nblocks m) : ColumnFixed nblocks badLoc m m where
  codeword := hm
  below i hi := absurd rfl hi
  near := ⟨∅, by simp, fun _ => rfl, fun i hi => absurd rfl hi⟩

/-- An accepted column is fixed, the other columns are untouched and the map gains exactly the
changed sectors. -/
theorem correctBlock_fixed {data : ℕ → Byte} {off nblocks : ℕ} {badLoc : List ℕ} {ainv : Matrix}
    {s : Syndromes Byte} {correctionMap : SectorMap} {count : ℕ}
    (hresult : (correctBlock data off nblocks badLoc ainv s correctionMap).result = some count)
    (hoff : off < ftSectorSize) (hblocks : nblocks ≤ 32) (hnodup : badLoc.Nodup)
    (hlt : ∀ l ∈ badLoc, l < nblocks) (hs : IsSyndromes s nblocks (column data off)) :
    let out := correctBlock data off nblocks badLoc ainv s correctionMap
    ColumnFixed nblocks badLoc (column data off) (column out.data off) ∧
      (∀ x < ftSectorSize, x ≠ off → column out.data x = column data x) ∧
      ∀ i, out.correctionMap.getLsbD i = true ↔
        correctionMap.getLsbD i = true ∨ column out.data off i ≠ column data off i := by
  unfold correctBlock at hresult ⊢
  split at hresult
  · cases hresult
  next pattern hpattern =>
  obtain ⟨extra, hlocs, hlen, hfull, hnodup', hlt'⟩ := errorPattern_locs hpattern hnodup hlt
  rw [← hlocs] at hnodup' hlt'
  have hdata (x : ℕ) (hx : x < ftSectorSize) (i : ℕ) :=
    column_correctBytes pattern ⟨data, correctionMap, 0, s⟩ hoff hx i
  have hself (i : ℕ) := hdata off hoff i
  simp only [if_true] at hself
  have hcheck := check_correctBytes pattern ⟨data, correctionMap, 0, s⟩ off
    (by omega) hlt' hs
  -- the self-check says that the updated syndromes are those of a codeword
  simp only [Option.ite_none_left_eq_some, not_or, not_not] at hresult
  obtain ⟨⟨hc0, hc1, hc2⟩, -⟩ := hresult
  have hchanged (i : ℕ) (hi : patternWord pattern i ≠ 0) : i ∈ badLoc ++ extra := by
    rw [← hlocs]
    exact by_contra fun hnot => hi (patternWord_eq_zero hnot)
  simp only
  refine ⟨⟨⟨?_, ?_, ?_⟩, fun i hi => ?_, extra.toFinset, (List.toFinset_card_le extra).trans hlen,
    fun h => by rw [hfull h, List.toFinset_nil], fun i hi => ?_⟩, fun x hx hne => funext fun i => ?_,
    fun i => ?_⟩
  · rw [funext hself, ← hcheck.low, gf_eq_zero, hc0]
  · rw [funext hself, ← hcheck.mid, gf_eq_zero, hc1]
  · rw [funext hself, ← hcheck.high, gf_eq_zero, hc2]
  · rw [hself, ne_eq, add_eq_left] at hi
    exact hlt' i (by rw [hlocs]; exact hchanged i hi)
  · rw [hself, ne_eq, add_eq_left] at hi
    rw [List.mem_toFinset, ← List.mem_append]
    exact hchanged i hi
  · rw [hdata x hx, if_neg hne, add_zero]
  · rw [map_correctBytes pattern _ off hnodup' (fun l hl => (hlt' l hl).trans_le hblocks), hself,
      ne_eq (column data off i + _), add_eq_left]

/-- A column within the radius of the code: some codeword differs from it in known erasures and
few enough other sectors. -/
def Correctable (nblocks : ℕ) (badLoc : List ℕ) (m : ℕ → Gf) : Prop :=
  ∃ c : ℕ → Gf, IsCodeword rootR nblocks c ∧ ∃ extra : Finset ℕ,
    (∀ i < nblocks, m i ≠ c i → i ∈ badLoc ∨ i ∈ extra) ∧ 2 * extra.card + badLoc.length ≤ 3

/-- Columns within the radius are accepted. -/
theorem correctBlock_accepts {data : ℕ → Byte} {off nblocks : ℕ} {badLoc : List ℕ}
    {ainv ainv₀ : Matrix} {s : Syndromes Byte} (correctionMap : SectorMap)
    (hcorr : Correctable nblocks badLoc (column data off))
    (hsorted : badLoc.Pairwise (· < ·)) (hlt : ∀ l ∈ badLoc, l < nblocks)
    (htwo : 2 ≤ nblocks) (hblocks : nblocks ≤ 32)
    (hainv : erasureMatrix badLoc ainv₀ = some ainv)
    (hs : IsSyndromes s nblocks (column data off))
    (hne : ¬ (s.s0 = 0 ∧ s.s1 = 0 ∧ s.s2 = 0)) :
    ∃ count, (correctBlock data off nblocks badLoc ainv s correctionMap).result = some count := by
  obtain ⟨c, hc, extra, hdiff, hcard⟩ := hcorr
  let err : ℕ → Gf := fun i => if i < nblocks then column data off i - c i else 0
  have herrlt (i : ℕ) (hi : err i ≠ 0) : i < nblocks ∧ column data off i ≠ c i := by
    by_cases hin : i < nblocks
    · simp only [err, hin, if_true] at hi
      exact ⟨hin, sub_ne_zero.mp hi⟩
    · simp [err, hin] at hi
  have hvalue (x : Gf) (hx : messageValue nblocks c x = 0) :
      messageValue nblocks (column data off) x = messageValue nblocks err x := by
    rw [← sub_zero (messageValue nblocks (column data off) x), ← hx, ← messageValue_sub]
    exact messageValue_congr (fun i hi => by simp only [err, hi, if_true]) x
  have hserr : IsSyndromes s nblocks err :=
    ⟨by rw [hs.low, hvalue _ hc.low], by rw [hs.mid, hvalue _ hc.mid],
      by rw [hs.high, hvalue _ hc.high]⟩
  have hsome : ∃ i, err i ≠ 0 := by
    by_contra hall
    push Not at hall
    have hzero (x : Gf) : messageValue nblocks err x = 0 := by simp [messageValue, hall]
    refine hne ⟨?_, ?_, ?_⟩
    · rw [← gf_eq_zero, hserr.low, hzero]
    · rw [← gf_eq_zero, hserr.mid, hzero]
    · rw [← gf_eq_zero, hserr.high, hzero]
  let other := extra.filter fun i => i < nblocks ∧ i ∉ badLoc
  have hother : other.card ≤ extra.card := card_filter_le _ _
  obtain ⟨pattern, hpattern, hword⟩ := errorPattern_complete hsorted hlt htwo (by omega) hainv hserr
    hsome other
    (fun i hi => by
      have hi' := herrlt i hi
      by_cases hbad : i ∈ badLoc
      · exact Or.inl hbad
      · exact Or.inr (mem_filter.mpr
          ⟨(hdiff i hi'.1 hi'.2).resolve_left hbad, hi'.1, hbad⟩))
    (fun i hi => (mem_filter.mp hi).2) (by omega)
  obtain ⟨extra', hlocs, -, -, -, hlt'⟩ := errorPattern_locs hpattern hsorted.nodup hlt
  rw [← hlocs] at hlt'
  have hcheck := check_correctBytes pattern ⟨data, correctionMap, 0, s⟩ off
    (by omega) hlt' hserr
  -- the pattern equals the error vector, so the updated syndromes cancel
  have hcancel : (fun i => err i + patternWord pattern i) = fun _ => 0 := by
    funext i
    rw [hword, CharTwo.add_self_eq_zero]
  have hzero (x : Gf) : messageValue nblocks (fun _ => (0 : Gf)) x = 0 := by simp [messageValue]
  rw [hcancel] at hcheck
  have h0 := gf_eq_zero.mp (hcheck.low.trans (hzero _))
  have h1 := gf_eq_zero.mp (hcheck.mid.trans (hzero _))
  have h2 := gf_eq_zero.mp (hcheck.high.trans (hzero _))
  unfold correctBlock
  simp only [hpattern, h0, h1, h2, ne_eq, not_true_eq_false, or_self, if_false]
  exact ⟨_, rfl⟩

end Ftape.Ecc
