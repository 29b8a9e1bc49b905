import Ftape.Algebra.Recorded
import Ftape.Ecc.Parity
import Mathlib.Data.BitVec

/-!
# Exponents of the syndromes

The syndromes are computed from the parity words by multiplications with powers of `r`, each of which looks
the sum of a logarithm and an exponent up. The computation is repeated here with all sums that it passes to
`mod255()`, which have to stay in the range that is documented there.
-/

namespace Ftape.Ecc

open Ftape.Algebra

/-- A computation that passes exponents to `mod255()`. -/
abbrev Exponents (β : Type) := Recorded ℤ Unit β

/-- The exponents that `gfmul_exp_long()` passes to `mod255()`, of the bytes that are not zero. -/
def laneExponents {t : Target} (a : Word t) (b : ℤ) : List ℤ :=
  (List.range t.longSize).filterMap fun i => if lane 8 a i ≠ 0 then some (gflog (lane 8 a i) + b) else none

/-- `gfmul_exp_long()` with its exponents. -/
def mulExpLong {t : Target} (a : Word t) (b : ℤ) : Exponents (Word t) :=
  ⟨laneExponents a b, .ok (gfmulExpLong a b)⟩

/-- `compute_syndromes()` with its exponents. -/
def syndromes (t : Target) (data : ℕ → Byte) (off nblocks : ℕ) : Exponents (Option (Syndromes (Word t))) :=
  let p := setParity t data off nblocks
  if p.p0 ||| p.p1 ||| p.p2 ≠ 0 then do
    let low2 ← mulExpLong p.p2 (-1)
    let low1 ← mulExpLong (gfaddLong p.p1 low2) (-1)
    let s0 ← mulExpLong (gfaddLong p.p0 low1) (-nblocks)
    let s1 := gfaddLong (gfaddLong p.p2 p.p1) p.p0
    let high2 ← mulExpLong p.p2 1
    let high1 ← mulExpLong (gfaddLong p.p1 high2) 1
    let s2 ← mulExpLong (gfaddLong p.p0 high1) nblocks
    pure (some ⟨s0, s1, s2⟩)
  else pure none

/-- The range that is documented at `mod255()`. -/
def InRange (v : ℤ) : Prop := -255 ≤ v ∧ v ≤ 509

/-- A computation whose exponents are in the documented range. -/
abbrev Stays {β : Type} (computation : Exponents β) (post : β → Prop) : Prop :=
  computation.Meets InRange (fun _ => True) () post

/-- The logarithm of a byte that is not zero leaves room for an exponent of either sign. -/
theorem stays_mulExpLong {t : Target} (a : Word t) {b : ℤ} (hlow : -255 ≤ b) (hhigh : b ≤ 255) :
    Stays (mulExpLong a b) fun product => product = gfmulExpLong a b where
  asks := by
    intro v hv
    obtain ⟨i, -, hi⟩ := List.mem_filterMap.mp hv
    split at hi
    · rename_i hne
      have hlog := gflog_lt (lane 8 a i) hne
      rw [Option.some_inj] at hi
      rw [InRange, ← hi]
      omega
    · cases hi
  stops := by simp [mulExpLong]
  post := by
    intro product hproduct
    cases hproduct
    rfl

/-- The exponents of `compute_syndromes()` are in the documented range. -/
theorem stays_syndromes (t : Target) (data : ℕ → Byte) (off : ℕ) {nblocks : ℕ} (hblocks : nblocks ≤ 255) :
    Stays (syndromes t data off nblocks) fun ss => ss = computeSyndromes t data off nblocks := by
  rw [syndromes, computeSyndromes]
  dsimp only
  split
  · refine (stays_mulExpLong _ (by decide) (by decide)).bind fun low2 hlow2 => ?_
    refine (stays_mulExpLong _ (by decide) (by decide)).bind fun low1 hlow1 => ?_
    refine (stays_mulExpLong _ (by omega) (by omega)).bind fun s0 hs0 => ?_
    refine (stays_mulExpLong _ (by decide) (by decide)).bind fun high2 hhigh2 => ?_
    refine (stays_mulExpLong _ (by decide) (by decide)).bind fun high1 hhigh1 => ?_
    refine (stays_mulExpLong _ (by omega) (by omega)).bind fun s2 hs2 => ?_
    refine .pure ?_
    rw [hs0, hlow1, hlow2, hs2, hhigh1, hhigh2]
  · exact .pure rfl

/-- `mod255()` returns a byte, and the table of powers has an entry for each. -/
theorem mod255_lt (v : ℤ) : mod255 v < gfpowTable.length := by
  have hlength : gfpowTable.length = 256 := by decide +kernel
  rw [hlength, mod255]
  omega

/-- `compute_syndromes()` finds nothing wrong exactly if the three checks of every column hold, else it returns the
values of the columns at the three roots. It looks up powers inside the table only. -/
theorem syndromes_exact (t : Target) (data : ℕ → Byte) (off : ℕ) {nblocks : ℕ} (hblocks : nblocks ≤ 32) :
    (∀ v ∈ (syndromes t data off nblocks).queries, InRange v ∧ mod255 v < gfpowTable.length) ∧
    ∃ ss, (syndromes t data off nblocks).result = .ok ss ∧
      (ss = none ↔ ∀ i < t.longSize,
        messageValue nblocks (column data (off + t.laneByte i)) rootR⁻¹ = 0 ∧
        messageValue nblocks (column data (off + t.laneByte i)) 1 = 0 ∧
        messageValue nblocks (column data (off + t.laneByte i)) rootR = 0) ∧
      ∀ s ∈ ss, ∀ i < t.longSize,
        gfLane s.s0 i = messageValue nblocks (column data (off + t.laneByte i)) rootR⁻¹ ∧
        gfLane s.s1 i = messageValue nblocks (column data (off + t.laneByte i)) 1 ∧
        gfLane s.s2 i = messageValue nblocks (column data (off + t.laneByte i)) rootR := by
  have hstays := @stays_syndromes t data off nblocks (by omega)
  refine ⟨fun v hv => ⟨hstays.asks v hv, mod255_lt v⟩, ?_⟩
  cases hresult : (syndromes t data off nblocks).result with
  | error _ =>
    obtain ⟨v, -, hopen⟩ := hstays.stops.mp hresult
    exact absurd trivial hopen
  | ok ss =>
    have hss : ss = computeSyndromes t data off nblocks := hstays.post ss hresult
    refine ⟨ss, rfl, ?_, ?_⟩
    · rw [hss, computeSyndromes_eq_none]
      constructor
      · intro hcode i hi
        exact ⟨(hcode i hi).low, (hcode i hi).mid, (hcode i hi).high⟩
      · intro hzero i hi
        exact ⟨(hzero i hi).1, (hzero i hi).2.1, (hzero i hi).2.2⟩
    · intro s hs i hi
      rw [hss] at hs
      exact computeSyndromes_some hs (by omega) hi

/-- A word of columns with one byte that is not zero. -/
theorem syndromes_exact_one_byte :
    ∃ ss, (syndromes ⟨4, false, Or.inl rfl⟩ (Pi.single 0 1) 0 4).result = .ok ss ∧
      ∀ s ∈ ss, gfLane s.s1 0 = messageValue 4 (column (Pi.single 0 1) 0) 1 := by
  obtain ⟨-, ss, hss, -, hvalues⟩ :=
    @syndromes_exact ⟨4, false, Or.inl rfl⟩ (Pi.single 0 1) 0 4 (by decide)
  exact ⟨ss, hss, fun s hs => (hvalues s hs 0 (by decide)).2.1⟩

end Ftape.Ecc
