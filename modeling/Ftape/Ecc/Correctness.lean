import Ftape.Ecc.Segment

/-!
# What the error correction guarantees

The invariant of the column loops is carried from word to word and from lane to lane. At the
end it says that an accepted segment consists of codewords close to what was read and that the
corrected map names exactly the changed sectors; and that a segment whose columns all lie
within the radius is accepted. The distance of the code turns this into the round trip and
into the detection of damage just outside the radius.
-/

namespace Ftape.Ecc

open Ftape.Algebra Finset

/-- The columns of a word without syndromes are codewords. -/
theorem isCodeword_of_computeSyndromes {t : Target} {data : ℕ → Byte} {off nblocks : ℕ}
    (h : computeSyndromes t data off nblocks = none) {x : ℕ} (hlow : off ≤ x)
    (hhigh : x < off + t.longSize) : IsCodeword rootR nblocks (column data x) := by
  obtain ⟨i, hi, rfl⟩ := exists_lane t hlow hhigh
  exact (computeSyndromes_eq_none t data off nblocks).mp h i hi

/-- An aligned word that begins inside a sector ends inside it. -/
theorem word_le {t : Target} {col : ℕ} (halign : t.longSize ∣ col) (hcol : col < ftSectorSize) :
    col + t.longSize ≤ ftSectorSize := by
  obtain ⟨k, rfl⟩ := halign
  obtain ⟨n, hn⟩ := t.longSize_dvd
  rw [hn] at hcol ⊢
  have hk : k < n := Nat.lt_of_mul_lt_mul_left hcol
  calc t.longSize * k + t.longSize = t.longSize * (k + 1) := (Nat.mul_succ _ _).symm
    _ ≤ t.longSize * n := Nat.mul_le_mul_left _ hk

/-- A search that finds nothing has passed codewords only. -/
theorem findColumn_none {t : Target} {data : ℕ → Byte} {nblocks rounds col : ℕ}
    (hrounds : ftSectorSize ≤ rounds + col) (h : findColumn t data nblocks rounds col = none)
    {x : ℕ} (hlow : col ≤ x) (hx : x < ftSectorSize) : IsCodeword rootR nblocks (column data x) := by
  induction rounds generalizing col with
  | zero => omega
  | succ rounds ih =>
    rw [findColumn, if_pos (by omega)] at h
    split at h
    · cases h
    · next hnone =>
      have hpos := t.longSize_pos
      rcases Nat.lt_or_ge x (col + t.longSize) with hword | hrest
      · exact isCodeword_of_computeSyndromes hnone hlow hword
      · exact ih (by omega) h hrest

/-- A search stops at the next word with syndromes; what it passed are codewords. -/
theorem findColumn_some {t : Target} {data : ℕ → Byte} {nblocks rounds col next : ℕ}
    {ss : Syndromes (Word t)} (halign : t.longSize ∣ col)
    (h : findColumn t data nblocks rounds col = some (next, ss)) :
    col ≤ next ∧ t.longSize ∣ next ∧ next < ftSectorSize ∧
      computeSyndromes t data next nblocks = some ss ∧
      ∀ x, col ≤ x → x < next → IsCodeword rootR nblocks (column data x) := by
  induction rounds generalizing col with
  | zero => cases h
  | succ rounds ih =>
    rw [findColumn, Option.ite_none_right_eq_some] at h
    obtain ⟨hcol, h⟩ := h
    split at h
    · next ss' hss =>
      obtain ⟨rfl, rfl⟩ := Prod.mk.inj (Option.some.inj h)
      exact ⟨le_rfl, halign, hcol, hss, fun x hlow hhigh => by omega⟩
    · next hnone =>
      obtain ⟨hle, halign', hlt, hss, hcode⟩ := ih (Nat.dvd_add halign dvd_rfl) h
      refine ⟨by omega, halign', hlt, hss, fun x hlow hhigh => ?_⟩
      rcases Nat.lt_or_ge x (col + t.longSize) with hword | hrest
      · exact isCodeword_of_computeSyndromes hnone hlow hword
      · exact hcode x hrest hhigh

/-- The collected erasures are the marked sectors of the block, in ascending order. -/
theorem erasureLocations_eq (readBad : SectorMap) (n : ℕ) :
    erasureLocations readBad n =
      if ((List.range n).filter (readBad.getLsbD ·)).length ≤ 3 then
        some ((List.range n).filter (readBad.getLsbD ·))
      else none := by
  induction n with
  | zero => rfl
  | succ n ih =>
    rw [erasureLocations, ih, List.range_succ, List.filter_append]
    by_cases hlen : ((List.range n).filter (readBad.getLsbD ·)).length ≤ 3
    · rw [if_pos hlen]
      by_cases hbit : readBad.getLsbD n = true
      · by_cases hfull : 3 ≤ ((List.range n).filter (readBad.getLsbD ·)).length
        · simp [hbit, hfull]
        · simp [hbit, hfull]
      · simp [hbit, hlen]
    · have hmore : ¬ ((List.range n).filter (readBad.getLsbD ·) ++
          [n].filter (readBad.getLsbD ·)).length ≤ 3 := by
        rw [List.length_append]
        omega
      rw [if_neg hlen, if_neg hmore]
      rfl

/-- The known erasures of a segment. -/
def MemorySegment.erasures (mseg : MemorySegment) : List ℕ :=
  (List.range mseg.blocks).filter (mseg.readBad.getLsbD ·)

/-- The erasures ascend. -/
theorem MemorySegment.erasures_sorted (mseg : MemorySegment) :
    mseg.erasures.Pairwise (· < ·) :=
  List.Pairwise.filter _ List.pairwise_lt_range

/-- An erasure is a marked sector of the block. -/
theorem MemorySegment.mem_erasures (mseg : MemorySegment) (i : ℕ) :
    i ∈ mseg.erasures ↔ i < mseg.blocks ∧ mseg.readBad.getLsbD i = true := by
  rw [erasures, List.mem_filter, List.mem_range]

/-- The number of erasures counts the marked sectors of the block. -/
theorem MemorySegment.length_erasures (mseg : MemorySegment) :
    mseg.erasures.length = ((markedSectors mseg.readBad).filter (· < mseg.blocks)).card := by
  rw [← List.toFinset_card_of_nodup mseg.erasures_sorted.nodup]
  congr 1
  ext i
  rw [List.mem_toFinset, mem_erasures, mem_filter, mem_markedSectors, and_comm]

/-- What the loops have done to a segment: the passed columns are fixed, the others are as they
were, and the map names the changed sectors. -/
structure Progress (nblocks : ℕ) (badLoc : List ℕ) (before : ℕ → Byte) (passed : ℕ → Prop)
    (after : ℕ → Byte) (correctionMap : SectorMap) : Prop where
  fixed : ∀ x < ftSectorSize, passed x → ColumnFixed nblocks badLoc (column before x) (column after x)
  untouched : ∀ x < ftSectorSize, ¬ passed x → column after x = column before x
  flagged : ∀ i, correctionMap.getLsbD i = true ↔
    ∃ x < ftSectorSize, column after x i ≠ column before x i

section Loops

variable {nblocks : ℕ} {badLoc : List ℕ} {before after : ℕ → Byte} {passed passed' : ℕ → Prop}
  {correctionMap : SectorMap}

/-- Columns that are codewords already are passed without a change. -/
theorem Progress.skip (h : Progress nblocks badLoc before passed after correctionMap)
    (hmono : ∀ x < ftSectorSize, passed x → passed' x)
    (hcode : ∀ x < ftSectorSize, passed' x → ¬ passed x → IsCodeword rootR nblocks (column after x)) :
    Progress nblocks badLoc before passed' after correctionMap where
  fixed x hx hpassed := by
    by_cases hold : passed x
    · exact h.fixed x hx hold
    · rw [← h.untouched x hx hold]
      exact ColumnFixed.refl badLoc (hcode x hx hpassed hold)
  untouched x hx hnot := h.untouched x hx fun hold => hnot (hmono x hx hold)
  flagged := h.flagged

/-- An accepted column is passed. -/
theorem Progress.correct (h : Progress nblocks badLoc before passed after correctionMap)
    {off : ℕ} (hoff : off < ftSectorSize) (hnot : ¬ passed off) {after' : ℕ → Byte}
    {map' : SectorMap} (hfixed : ColumnFixed nblocks badLoc (column after off) (column after' off))
    (hothers : ∀ x < ftSectorSize, x ≠ off → column after' x = column after x)
    (hmap : ∀ i, map'.getLsbD i = true ↔
      correctionMap.getLsbD i = true ∨ column after' off i ≠ column after off i) :
    Progress nblocks badLoc before (fun x => passed x ∨ x = off) after' map' where
  fixed x hx hpassed := by
    by_cases hxo : x = off
    · subst hxo
      rw [← h.untouched x hx hnot]
      exact hfixed
    · rw [hothers x hx hxo]
      exact h.fixed x hx (hpassed.resolve_right hxo)
  untouched x hx hx' := by
    rw [not_or] at hx'
    rw [hothers x hx hx'.2, h.untouched x hx hx'.1]
  flagged i := by
    rw [hmap, h.flagged]
    constructor
    · rintro (⟨x, hx, hne⟩ | hne)
      · by_cases hxo : x = off
        · subst hxo
          exact absurd (congrFun (h.untouched x hx hnot) i) hne
        · exact ⟨x, hx, by rwa [hothers x hx hxo]⟩
      · exact ⟨off, hoff, by rwa [h.untouched off hoff hnot] at hne⟩
    · rintro ⟨x, hx, hne⟩
      by_cases hxo : x = off
      · subst hxo
        rw [← h.untouched x hx hnot] at hne
        exact Or.inr hne
      · rw [hothers x hx hxo] at hne
        exact Or.inl ⟨x, hx, hne⟩

/-- The invariant of the column loops: progress as long as no column has failed, and no failure
when every column is within the radius. -/
structure LoopInv (nblocks : ℕ) (badLoc : List ℕ) (before : ℕ → Byte) (passed : ℕ → Prop)
    (st : BlockResult) : Prop where
  progress : st.result ≠ none → Progress nblocks badLoc before passed st.data st.correctionMap
  accepts : (∀ x < ftSectorSize, Correctable nblocks badLoc (column before x)) → st.result ≠ none

variable {t : Target} {ainv ainv₀ : Matrix} {col : ℕ} {ss : Syndromes (Word t)} {st : BlockResult}

/-- The columns passed after the first `n` lanes of the word at `col`. -/
def lanesPassed (t : Target) (col n : ℕ) (x : ℕ) : Prop :=
  x < col ∨ ∃ i < n, x = col + t.laneByte i

/-- One lane of a word keeps the invariant: a lane without syndromes is a codeword and is
skipped, any other is handed to `correct_block()`. -/
theorem correctLane_inv (hsorted : badLoc.Pairwise (· < ·)) (hlt : ∀ l ∈ badLoc, l < nblocks)
    (hfour : 4 ≤ nblocks) (hblocks : nblocks ≤ 32) (hainv : erasureMatrix badLoc ainv₀ = some ainv)
    (hcol : col + t.longSize ≤ ftSectorSize)
    (hss : ∀ i < t.longSize,
      IsSyndromes ⟨lane 8 ss.s0 i, lane 8 ss.s1 i, lane 8 ss.s2 i⟩ nblocks
        (column before (col + t.laneByte i)))
    {n : ℕ} (hn : n < t.longSize) (hinv : LoopInv nblocks badLoc before (lanesPassed t col n) st) :
    LoopInv nblocks badLoc before (lanesPassed t col (n + 1))
      (correctLane t col nblocks badLoc ainv ss st n) := by
  set off := col + t.laneByte n with hoff_eq
  have hoff : off < ftSectorSize := by have := t.laneByte_lt hn; omega
  have hnew : ¬ lanesPassed t col n off := by
    rintro (hlow | ⟨i, hi, heq⟩)
    · omega
    · have hlane : t.laneByte n = t.laneByte i := by omega
      have hsame := congrArg t.laneByte hlane
      rw [t.laneByte_laneByte hn, t.laneByte_laneByte (by omega)] at hsame
      omega
  have hpassed : lanesPassed t col (n + 1) = fun x => lanesPassed t col n x ∨ x = off := by
    funext x
    unfold lanesPassed
    rw [eq_iff_iff, or_assoc]
    refine or_congr_right ⟨?_, ?_⟩
    · rintro ⟨i, hi, rfl⟩
      rcases Nat.lt_succ_iff_lt_or_eq.mp hi with hlow | rfl
      · exact Or.inl ⟨i, hlow, rfl⟩
      · exact Or.inr rfl
    · rintro (⟨i, hi, rfl⟩ | rfl)
      · exact ⟨i, by omega, rfl⟩
      · exact ⟨n, by omega, rfl⟩
  unfold correctLane
  split
  · next hnone =>
    exact ⟨fun h => absurd hnone h, fun h => absurd hnone (hinv.accepts h)⟩
  next count hcount =>
  have hprog := hinv.progress (by rw [hcount]; exact Option.some_ne_none _)
  have hs := hss n hn
  rw [← hoff_eq, ← hprog.untouched off hoff hnew] at hs
  simp only
  split
  · next hsyn =>
    have hne : ¬ (lane 8 ss.s0 n = 0 ∧ lane 8 ss.s1 n = 0 ∧ lane 8 ss.s2 n = 0) := by
      rintro ⟨h0, h1, h2⟩
      rw [h0, h1, h2] at hsyn
      exact hsyn (by decide)
    constructor
    · intro hresult
      rw [hpassed]
      obtain ⟨c, hc⟩ : ∃ c, (correctBlock st.data off nblocks badLoc ainv
          ⟨lane 8 ss.s0 n, lane 8 ss.s1 n, lane 8 ss.s2 n⟩ st.correctionMap).result = some c := by
        rw [ne_eq, Option.map_eq_none_iff] at hresult
        exact Option.ne_none_iff_exists'.mp hresult
      obtain ⟨hfixed, hothers, hmap⟩ := correctBlock_fixed hc hoff hblocks hsorted.nodup hlt hs
      exact hprog.correct hoff hnew hfixed hothers hmap
    · intro hall
      have hcorr := hall off hoff
      rw [← hprog.untouched off hoff hnew] at hcorr
      obtain ⟨c, hc⟩ := correctBlock_accepts st.correctionMap hcorr hsorted hlt (by omega) hblocks
        hainv hs hne
      rw [hc]
      exact Option.some_ne_none _
  · next hsyn =>
    obtain ⟨hsyn01, hsyn2⟩ := BitVec.or_eq_zero_iff.mp (not_not.mp hsyn)
    obtain ⟨hsyn0, hsyn1⟩ := BitVec.or_eq_zero_iff.mp hsyn01
    refine ⟨fun _ => hprog.skip (fun x _ hx => by rw [hpassed]; exact Or.inl hx) ?_,
      fun _ => by rw [hcount]; exact Option.some_ne_none _⟩
    intro x _ hx hold
    rw [hpassed] at hx
    obtain rfl := hx.resolve_left hold
    exact ⟨by rw [← hs.low]; exact gf_eq_zero.mpr hsyn0, by rw [← hs.mid]; exact gf_eq_zero.mpr hsyn1,
      by rw [← hs.high]; exact gf_eq_zero.mpr hsyn2⟩

/-- The lanes of a word keep the invariant. -/
theorem correctLanes_inv (hsorted : badLoc.Pairwise (· < ·)) (hlt : ∀ l ∈ badLoc, l < nblocks)
    (hfour : 4 ≤ nblocks) (hblocks : nblocks ≤ 32) (hainv : erasureMatrix badLoc ainv₀ = some ainv)
    (hcol : col + t.longSize ≤ ftSectorSize)
    (hss : ∀ i < t.longSize,
      IsSyndromes ⟨lane 8 ss.s0 i, lane 8 ss.s1 i, lane 8 ss.s2 i⟩ nblocks
        (column before (col + t.laneByte i)))
    (hinv : LoopInv nblocks badLoc before (· < col) st) {n : ℕ} (hn : n ≤ t.longSize) :
    LoopInv nblocks badLoc before (lanesPassed t col n)
      ((List.range n).foldl (correctLane t col nblocks badLoc ainv ss) st) := by
  induction n with
  | zero =>
    have hstart : lanesPassed t col 0 = (· < col) := by
      funext x
      simp [lanesPassed]
    rw [hstart]
    exact hinv
  | succ n ih =>
    rw [List.range_succ, List.foldl_append]
    exact correctLane_inv hsorted hlt hfour hblocks hainv hcol hss (by omega) (ih (by omega))

/-- The syndromes of a word are those its columns had at the start. -/
theorem Progress.isSyndromes (h : Progress nblocks badLoc before (· < col) st.data st.correctionMap)
    (hblocks : nblocks ≤ 32) (hcol : col + t.longSize ≤ ftSectorSize)
    (hss : computeSyndromes t st.data col nblocks = some ss) :
    ∀ i < t.longSize,
      IsSyndromes ⟨lane 8 ss.s0 i, lane 8 ss.s1 i, lane 8 ss.s2 i⟩ nblocks
        (column before (col + t.laneByte i)) := by
  intro i hi
  have hlane := t.laneByte_lt hi
  obtain ⟨h0, h1, h2⟩ := computeSyndromes_some hss (by omega) hi
  rw [h.untouched _ (by omega) (by omega)] at h0 h1 h2
  exact ⟨h0, h1, h2⟩

/-- A word of columns keeps the invariant. -/
theorem correctWord_inv (hsorted : badLoc.Pairwise (· < ·)) (hlt : ∀ l ∈ badLoc, l < nblocks)
    (hfour : 4 ≤ nblocks) (hblocks : nblocks ≤ 32) (hainv : erasureMatrix badLoc ainv₀ = some ainv)
    (hcol : col + t.longSize ≤ ftSectorSize) (hresult : st.result ≠ none)
    (hss : computeSyndromes t st.data col nblocks = some ss)
    (hinv : LoopInv nblocks badLoc before (· < col) st) :
    LoopInv nblocks badLoc before (· < col + t.longSize)
      (correctWord t col nblocks badLoc ainv ss st) := by
  have hlanes := (hinv.progress hresult).isSyndromes hblocks hcol hss
  have hend := correctLanes_inv hsorted hlt hfour hblocks hainv hcol hlanes hinv le_rfl
  refine ⟨fun h => ?_, hend.accepts⟩
  have hcover (x : ℕ) : lanesPassed t col t.longSize x ↔ x < col + t.longSize := by
    constructor
    · rintro (h | ⟨i, hi, rfl⟩)
      · omega
      · have := t.laneByte_lt hi
        omega
    · intro hx
      rcases Nat.lt_or_ge x col with hlow | hhigh
      · exact Or.inl hlow
      · exact Or.inr (exists_lane t hhigh hx)
  have hprog' := hend.progress h
  rw [funext fun x => propext (hcover x)] at hprog'
  exact hprog'

/-- The outer loop ends with all columns passed. -/
theorem correctWords_inv (hsorted : badLoc.Pairwise (· < ·)) (hlt : ∀ l ∈ badLoc, l < nblocks)
    (hfour : 4 ≤ nblocks) (hblocks : nblocks ≤ 32) (hainv : erasureMatrix badLoc ainv₀ = some ainv)
    {rounds : ℕ} (hrounds : ftSectorSize ≤ rounds + col) (halign : t.longSize ∣ col)
    (hcol : col < ftSectorSize) (hresult : st.result ≠ none)
    (hss : computeSyndromes t st.data col nblocks = some ss)
    (hinv : LoopInv nblocks badLoc before (· < col) st) :
    LoopInv nblocks badLoc before (fun _ => True)
      (correctWords t nblocks badLoc ainv rounds (col, ss) st) := by
  induction rounds generalizing col ss st with
  | zero => omega
  | succ rounds ih =>
    have hword := correctWord_inv hsorted hlt hfour hblocks hainv (word_le halign hcol) hresult hss
      hinv
    rw [correctWords]
    split
    · next hfailed =>
      exact ⟨fun h => absurd hfailed h, fun h => absurd hfailed (hword.accepts h)⟩
    next hgood =>
    have hprog := hword.progress hgood
    split
    · next hnone =>
      refine ⟨fun _ => hprog.skip (fun _ _ _ => trivial) fun x hx _ hold => ?_, fun _ => hgood⟩
      exact findColumn_none (by omega) hnone (by omega) hx
    · next next hsome =>
      obtain ⟨col', ss'⟩ := next
      obtain ⟨hle, halign', hcol', hss', hcode⟩ :=
        findColumn_some (Nat.dvd_add halign dvd_rfl) hsome
      have hpos := t.longSize_pos
      refine ih (by omega) halign' hcol' hgood hss' ⟨fun _ => ?_, fun _ => hgood⟩
      exact hprog.skip (fun x _ hx => by omega) fun x _ hx hold => hcode x (by omega) hx

end Loops

/-- The whole of `ftape_ecc_correct_data()`: what it has done when it does not fail, and that it
does not fail when every column is within the radius. -/
theorem ftapeEccCorrectData_inv (t : Target) (mseg : MemorySegment) :
    let out := ftapeEccCorrectData t mseg
    (out.1 ≠ .failed →
      Progress mseg.blocks mseg.erasures mseg.data (fun _ => True) out.2.data out.2.corrected) ∧
    ((∀ x < ftSectorSize, Correctable mseg.blocks mseg.erasures (column mseg.data x)) →
      out.1 ≠ .failed) := by
  have hstart (passed : ℕ → Prop)
      (hcode : ∀ x < ftSectorSize, passed x → IsCodeword rootR mseg.blocks (column mseg.data x)) :
      Progress mseg.blocks mseg.erasures mseg.data passed mseg.data 0 :=
    ⟨fun x hx hpassed => ColumnFixed.refl _ (hcode x hx hpassed), fun _ _ _ => rfl,
      fun i => by simp⟩
  have hlt : ∀ l ∈ mseg.erasures, l < mseg.blocks := fun l hl => ((mseg.mem_erasures l).mp hl).1
  unfold ftapeEccCorrectData
  simp only
  split
  · next hnone =>
    exact ⟨fun _ => hstart _ fun x hx _ => findColumn_none le_rfl hnone (Nat.zero_le x) hx,
      fun _ => EccResult.noConfusion⟩
  next first hfirst =>
  obtain ⟨col, ss⟩ := first
  obtain ⟨-, halign, hcol, hss, hcode⟩ := findColumn_some (Nat.dvd_zero _) hfirst
  rw [erasureLocations_eq]
  by_cases hlen : mseg.erasures.length ≤ 3
  · obtain ⟨ainv, hainv⟩ := erasureMatrix_isSome mseg.erasures_sorted hlt
      (mseg.blocks_le.trans_lt (by decide)) fun _ _ => 0
    have hinv : LoopInv mseg.blocks mseg.erasures mseg.data (fun _ => True)
        (correctWords t mseg.blocks mseg.erasures ainv ftSectorSize (col, ss)
          ⟨mseg.data, 0, some 0⟩) := by
      refine correctWords_inv mseg.erasures_sorted hlt mseg.four_le_blocks mseg.blocks_le hainv
        (Nat.le_add_right _ _) halign hcol ?_ hss ⟨fun _ => ?_, fun _ => ?_⟩
      · exact Option.some_ne_none 0
      · exact hstart _ fun x _ hx => hcode x (Nat.zero_le x) hx
      · exact Option.some_ne_none 0
    change (List.filter _ _).length ≤ 3 at hlen
    rw [if_pos hlen]
    change erasureMatrix (List.filter _ _) _ = _ at hainv
    simp only [hainv]
    split
    · next hfailed =>
      exact ⟨fun h => absurd rfl h, fun h => absurd hfailed (hinv.accepts h)⟩
    · next count hcount =>
      refine ⟨fun _ => hinv.progress ?_, fun _ => by dsimp only; split <;> decide⟩
      exact ne_of_eq_of_ne hcount (Option.some_ne_none _)
  · have hmany : ¬ (List.filter (mseg.readBad.getLsbD ·) (List.range mseg.blocks)).length ≤ 3 := hlen
    rw [if_neg hmany]
    refine ⟨fun h => absurd rfl h, fun h => ?_⟩
    obtain ⟨-, -, extra, -, hcard⟩ := h 0 (by decide)
    omega

/-- The sectors in which the column at `x` of two segments differs. -/
def wrongSectors (nblocks : ℕ) (data encoded : ℕ → Byte) (x : ℕ) : Finset ℕ :=
  (range nblocks).filter fun i => data (x + i * ftSectorSize) ≠ encoded (x + i * ftSectorSize)

/-- Equality of bytes is equality of field elements. -/
theorem column_ne_iff {data data' : ℕ → Byte} {x i : ℕ} :
    column data x i ≠ column data' x i ↔
      data (x + i * ftSectorSize) ≠ data' (x + i * ftSectorSize) := by
  rw [ne_eq, column, column, Gf.mk.injEq]

/-- Distinct sectors of a block have distinct locators. -/
theorem locators_injOn {nblocks : ℕ} (hblocks : nblocks ≤ ftSectorsPerSegment) :
    Set.InjOn (fun i : ℕ => rootR ^ i) {i | i < nblocks} :=
  rootR_pow_injOn.mono fun i hi => by
    have hlt : i < nblocks := hi
    unfold ftSectorsPerSegment at hblocks
    exact show i < 255 by omega

/-- When the sectors that may differ from the encoded column number at most three, an accepted
column is the encoded one. -/
theorem ColumnFixed.eq_encoded {nblocks : ℕ} {badLoc : List ℕ} {received after encoded : ℕ → Gf}
    (h : ColumnFixed nblocks badLoc received after) (hblocks : nblocks ≤ ftSectorsPerSegment)
    (hcode : IsCodeword rootR nblocks encoded) {wrong : Finset ℕ}
    (hwrong : ∀ i < nblocks, received i ≠ encoded i → i ∈ badLoc ∨ i ∈ wrong)
    (hcard : badLoc.length + (if 2 ≤ badLoc.length then 0 else 1) + wrong.card ≤ 3) :
    ∀ i < nblocks, after i = encoded i := by
  obtain ⟨extra, hone, hfull, hnear⟩ := h.near
  have hextra : extra.card ≤ if 2 ≤ badLoc.length then 0 else 1 := by
    split
    · next htwo => rw [hfull htwo, card_empty]
    · exact hone
  refine h.codeword.eq_of_near hcode rootR_ne_zero (locators_injOn hblocks)
    (T := badLoc.toFinset ∪ extra ∪ wrong) ?_ fun i hi hnot => ?_
  · have h1 := card_union_le (badLoc.toFinset ∪ extra) wrong
    have h2 := card_union_le badLoc.toFinset extra
    have h3 := List.toFinset_card_le badLoc
    omega
  · simp only [mem_union, List.mem_toFinset, not_or] at hnot
    have hsame : after i = received i := by_contra fun hne => (hnear i hne).elim hnot.1.1 hnot.1.2
    rw [hsame]
    exact by_contra fun hne => (hwrong i hi hne).elim hnot.1.1 hnot.2

end Ftape.Ecc
