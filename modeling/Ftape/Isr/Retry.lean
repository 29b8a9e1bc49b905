import Ftape.Algebra.Recorded
import Ftape.Isr.Runs

/-!
# Where a retry goes on

A retry goes on at the lowest soft error in front of the cursors, or else behind the highest hard error.
It keeps the soft errors in front of that place, but by a mask in which the bad sectors are left out, while
the error maps are indexed by all sectors.
-/

namespace Ftape.Isr

open Ftape.Algebra Ftape.Write

/-- Routines that shift a 1, with the amounts they shift it by. They may be stopped while they loop. -/
abbrev Shifting (Value : Type) := Recorded ℤ Unit Value

/-- `1 << amount`. -/
def shiftOne (amount : ℤ) : Shifting SectorMap := do
  Recorded.note amount
  pure ((1 : SectorMap) <<< amount.toNat)

/-- The loops of `find_resume_point()`, which go up or down in a map until they meet a bit. -/
def scanMap (map : SectorMap) (direction : ℤ) : ℕ → ℤ → Shifting ℤ
  | 0, _ => .halt ()
  | rounds + 1, i => do
    let bit ← shiftOne i
    if map &&& bit = 0 then scanMap map direction rounds (i + direction) else pure i

/-- The mask of `find_resume_point()`, for the sectors in front of the cursors. -/
def resumeMask (sectorOffset : ℕ) : Shifting SectorMap :=
  if 32 ≤ sectorOffset then pure 0xffffffff
  else do
    let bit ← shiftOne sectorOffset
    pure (bit - 1)

/-- `find_resume_point()` with the amounts it shifts by, for loops of some number of rounds. -/
def findResumePointShifts (rounds : ℕ) (buff : Buffer) : Shifting ℤ :=
  if buff.sectorOffset < 1 ∨ 32 < buff.sectorOffset then pure 0
  else do
    let mask ← resumeMask buff.sectorOffset
    if buff.softErrorMap &&& mask ≠ 0 then scanMap (buff.softErrorMap &&& mask) 1 rounds 0
    else if buff.hardErrorMap &&& mask ≠ 0 then do
      let i ← scanMap (buff.hardErrorMap &&& mask) (-1) rounds (buff.sectorOffset - 1)
      pure (i + 1)
    else pure (buff.sectorOffset - 1)

section Scan

variable {map : SectorMap}

/-- The test of the loops. -/
theorem and_one_shiftLeft_eq_zero {i : ℕ} (hi : i < 32) :
    map &&& (1 : SectorMap) <<< i = 0 ↔ map.getLsbD i = false := by
  constructor
  · intro h
    have hbit : (map &&& (1 : SectorMap) <<< i).getLsbD i = false := by
      rw [h]
      simp
    rwa [BitVec.getLsbD_and, getLsbD_one_shiftLeft hi, decide_eq_true rfl, Bool.and_true] at hbit
  · intro h
    apply BitVec.eq_of_getLsbD_eq
    intro j _
    rw [BitVec.getLsbD_and, getLsbD_one_shiftLeft hi]
    by_cases hj : j = i
    · rw [hj, h]
      simp
    · rw [decide_eq_false hj, Bool.and_false]
      simp

/-- A map that is not zero has a bit. -/
theorem exists_getLsbD_of_ne_zero (h : map ≠ 0) : ∃ s < 32, map.getLsbD s = true := by
  by_contra hall
  apply h
  apply BitVec.eq_of_getLsbD_eq
  intro i hi
  rw [Bool.eq_false_of_not_eq_true fun hbit => hall ⟨i, hi, hbit⟩]
  simp

/-- One round of the loops. -/
theorem scanMap_step (direction : ℤ) (rounds : ℕ) {i : ℕ} (hi : i < 32) :
    scanMap map direction (rounds + 1) i =
      if map.getLsbD i then ⟨[(i : ℤ)], .ok (i : ℤ)⟩
      else ⟨(i : ℤ) :: (scanMap map direction rounds (i + direction)).queries,
        (scanMap map direction rounds (i + direction)).result⟩ := by
  rw [scanMap]
  change Recorded.bind (shiftOne i) _ = _
  rw [Recorded.bind]
  have hshift : (shiftOne (i : ℤ)) = ⟨[(i : ℤ)], .ok ((1 : SectorMap) <<< i)⟩ := rfl
  rw [hshift]
  dsimp only
  by_cases hbit : map.getLsbD i = true
  · rw [if_neg, if_pos hbit]
    · rfl
    · rw [and_one_shiftLeft_eq_zero hi, hbit]
      exact Bool.noConfusion
  · rw [if_pos, if_neg hbit]
    · rfl
    · rw [and_one_shiftLeft_eq_zero hi]
      exact Bool.eq_false_of_not_eq_true hbit

/-- The loop that goes up meets the lowest bit, and shifts by no more than its index. -/
theorem scanMap_up {last : ℕ} (hlast : map.getLsbD last = true) (rounds : ℕ) {i : ℕ} (hi : i ≤ last)
    (hbelow : ∀ s < i, map.getLsbD s = false) (hrounds : last < i + rounds) :
    ∃ first : ℕ, IsLeast {s | map.getLsbD s = true} first ∧ (scanMap map 1 rounds i).result = .ok (first : ℤ) ∧
      ∀ shift ∈ (scanMap map 1 rounds i).queries, 0 ≤ shift ∧ shift ≤ first := by
  have hlast32 : last < 32 := BitVec.lt_of_getLsbD hlast
  induction rounds generalizing i with
  | zero => omega
  | succ rounds ih =>
    rw [scanMap_step 1 rounds (Nat.lt_of_le_of_lt hi hlast32)]
    by_cases hbit : map.getLsbD i = true
    · rw [if_pos hbit]
      refine ⟨i, ⟨hbit, ?_⟩, rfl, ?_⟩
      · intro s hs
        by_contra hlt
        exact Bool.false_ne_true ((hbelow s (Nat.lt_of_not_le hlt)).symm.trans hs)
      · intro shift hshift
        rw [List.mem_singleton.mp hshift]
        exact ⟨Int.natCast_nonneg i, le_rfl⟩
    · rw [if_neg hbit]
      have hne : i ≠ last := fun heq => hbit (heq ▸ hlast)
      obtain ⟨first, hfirst, hresult, hshifts⟩ := ih (i := i + 1) (by omega) (fun s hs => by
        cases Nat.lt_or_eq_of_le (Nat.le_of_lt_succ hs) with
        | inl hlt => exact hbelow s hlt
        | inr heq => exact heq ▸ Bool.eq_false_of_not_eq_true hbit) (by omega)
      rw [Nat.cast_add, Nat.cast_one] at hresult hshifts
      refine ⟨first, hfirst, hresult, ?_⟩
      intro shift hshift
      cases List.mem_cons.mp hshift with
      | inl heq =>
        rw [heq]
        refine ⟨Int.natCast_nonneg i, Int.ofNat_le.mpr ?_⟩
        by_contra hlt
        have hclear := hbelow first (Nat.lt_of_not_le hlt)
        rw [hfirst.1] at hclear
        cases hclear
      | inr hmem => exact hshifts shift hmem

/-- The loop that goes down meets the highest bit, and shifts by no more than the index it starts from. -/
theorem scanMap_down {low : ℕ} (hlow : map.getLsbD low = true) (rounds : ℕ) {i : ℕ} (hi : low ≤ i) (h32 : i < 32)
    (habove : ∀ s, i < s → map.getLsbD s = false) (hrounds : i < low + rounds) :
    ∃ last : ℕ, IsGreatest {s | map.getLsbD s = true} last ∧ (scanMap map (-1) rounds i).result = .ok (last : ℤ) ∧
      ∀ shift ∈ (scanMap map (-1) rounds i).queries, 0 ≤ shift ∧ shift ≤ i := by
  induction rounds generalizing i with
  | zero => omega
  | succ rounds ih =>
    rw [scanMap_step (-1) rounds h32]
    by_cases hbit : map.getLsbD i = true
    · rw [if_pos hbit]
      refine ⟨i, ⟨hbit, ?_⟩, rfl, ?_⟩
      · intro s hs
        by_contra hlt
        exact Bool.false_ne_true ((habove s (Nat.lt_of_not_le hlt)).symm.trans hs)
      · intro shift hshift
        rw [List.mem_singleton.mp hshift]
        exact ⟨Int.natCast_nonneg i, le_rfl⟩
    · rw [if_neg hbit]
      have hne : i ≠ low := fun heq => hbit (heq ▸ hlow)
      have hcast : (i : ℤ) + -1 = ((i - 1 : ℕ) : ℤ) := by omega
      rw [hcast]
      obtain ⟨last, hlast, hresult, hshifts⟩ := ih (i := i - 1) (by omega) (by omega) (fun s hs => by
        cases Nat.eq_or_lt_of_le (show i ≤ s by omega) with
        | inl heq => exact heq ▸ Bool.eq_false_of_not_eq_true hbit
        | inr hlt => exact habove s hlt) (by omega)
      refine ⟨last, hlast, hresult, ?_⟩
      intro shift hshift
      cases List.mem_cons.mp hshift with
      | inl heq =>
        rw [heq]
        exact ⟨Int.natCast_nonneg i, le_rfl⟩
      | inr hmem =>
        have := hshifts shift hmem
        omega

/-- Looking for the first error goes the same way. -/
theorem firstError_eq {first : ℕ} (hfirst : IsLeast {s | map.getLsbD s = true} first) {rounds i : ℕ} (hi : i ≤ first)
    (hrounds : first < i + rounds) : firstError map rounds i = first := by
  induction rounds generalizing i with
  | zero => omega
  | succ rounds ih =>
    rw [firstError]
    by_cases hbit : map.getLsbD i = true
    · rw [if_pos hbit]
      exact Nat.le_antisymm hi (hfirst.2 hbit)
    · rw [if_neg hbit]
      have hne : i ≠ first := fun heq => hbit (heq ▸ hfirst.1)
      exact ih (by omega) (by omega)

/-- And so does looking for the last error. -/
theorem lastError_eq {last : ℕ} (hlast : IsGreatest {s | map.getLsbD s = true} last) {i : ℕ} (hi : last ≤ i) :
    lastError map i = last := by
  induction i with
  | zero => exact (Nat.le_zero.mp hi).symm
  | succ i ih =>
    rw [lastError]
    by_cases hbit : map.getLsbD (i + 1) = true
    · rw [if_pos hbit]
      exact Nat.le_antisymm (hlast.2 hbit) hi
    · rw [if_neg hbit]
      have hne : last ≠ i + 1 := fun heq => hbit (heq ▸ hlast.1)
      exact ih (by omega)

end Scan

section Resume

variable {buff : Buffer}

/-- The mask has the sectors in front of the cursors, and takes at most one shift. -/
theorem resumeMask_eq {offset : ℕ} (h : offset ≤ 32) :
    ∃ mask : SectorMap, (if 32 ≤ offset then 0xffffffff else offsetMask offset) = mask ∧
      (resumeMask offset).result = .ok mask ∧
      (∀ shift ∈ (resumeMask offset).queries, 0 ≤ shift ∧ shift ≤ 31) ∧
      ∀ s, mask.getLsbD s = decide (s < offset) := by
  rw [resumeMask]
  by_cases h32 : 32 ≤ offset
  · obtain rfl := Nat.le_antisymm h h32
    refine ⟨offsetMask 32, by decide, congrArg Except.ok (by decide), ?_, getLsbD_offsetMask h⟩
    intro shift hshift
    exact absurd hshift List.not_mem_nil
  · rw [if_neg h32, if_neg h32]
    refine ⟨offsetMask offset, rfl, rfl, ?_, getLsbD_offsetMask h⟩
    intro shift hshift
    rw [show shift = offset from List.mem_singleton.mp hshift]
    omega

/-- The errors of a map that lie in front of a sector. -/
def errorsBelow (map : SectorMap) (sector : ℕ) : Set ℕ := {s | s < sector ∧ map.getLsbD s = true}

/-- A map under the mask of `find_resume_point()` has these errors. -/
theorem errorsBelow_eq {mask : SectorMap} {offset : ℕ} (hmask : ∀ s, mask.getLsbD s = decide (s < offset))
    (map : SectorMap) : {s | (map &&& mask).getLsbD s = true} = errorsBelow map offset := by
  ext s
  change (map &&& mask).getLsbD s = true ↔ s < offset ∧ map.getLsbD s = true
  rw [BitVec.getLsbD_and, hmask, Bool.and_eq_true, decide_eq_true_eq, and_comm]

/-- If it has none of them, the map is zero under that mask. -/
theorem and_resumeMask_eq_zero {mask : SectorMap} {offset : ℕ} (hmask : ∀ s, mask.getLsbD s = decide (s < offset))
    (map : SectorMap) : map &&& mask = 0 ↔ errorsBelow map offset = ∅ := by
  rw [← errorsBelow_eq hmask, Set.eq_empty_iff_forall_notMem]
  constructor
  · intro h s hs
    rw [h] at hs
    change (0 : SectorMap).getLsbD s = true at hs
    simp at hs
  · intro h
    by_contra hne
    obtain ⟨s, -, hs⟩ := exists_getLsbD_of_ne_zero hne
    exact h s hs

/-- What `find_resume_point()` looks for: the lowest soft error in front of the cursors, or else the place
behind the highest hard error. -/
structure Buffer.ResumesAt (buff : Buffer) (sector : ℕ) : Prop where
  soft : (errorsBelow buff.softErrorMap buff.sectorOffset).Nonempty →
    IsLeast (errorsBelow buff.softErrorMap buff.sectorOffset) sector
  hard : ¬(errorsBelow buff.softErrorMap buff.sectorOffset).Nonempty →
    ∃ last, IsGreatest (errorsBelow buff.hardErrorMap buff.sectorOffset) last ∧ sector = last + 1

/-- A place to resume at is not behind the cursors. -/
theorem Buffer.ResumesAt.le {sector : ℕ} (h : buff.ResumesAt sector) : sector ≤ buff.sectorOffset := by
  by_cases hsoft : (errorsBelow buff.softErrorMap buff.sectorOffset).Nonempty
  · exact Nat.le_of_lt (h.soft hsoft).1.1
  · obtain ⟨last, hlast, rfl⟩ := h.hard hsoft
    exact hlast.1.1

/-- In the range of the offset, the errors decide what is looked for. -/
theorem findResumePointShifts_eq (hpos : 1 ≤ buff.sectorOffset) (h32 : buff.sectorOffset ≤ 32) (rounds : ℕ) :
    findResumePointShifts rounds buff = (resumeMask buff.sectorOffset).bind fun mask =>
      if buff.softErrorMap &&& mask ≠ 0 then scanMap (buff.softErrorMap &&& mask) 1 rounds 0
      else if buff.hardErrorMap &&& mask ≠ 0 then
        (scanMap (buff.hardErrorMap &&& mask) (-1) rounds (buff.sectorOffset - 1)).bind fun i => pure (i + 1)
      else pure (buff.sectorOffset - 1) := by
  rw [findResumePointShifts, if_neg (by omega)]
  rfl

/-- A routine with loops comes to its end at a sector, and no shift is by more than 31. -/
def EndsAt (routine : ℕ → Shifting ℤ) (sector : ℕ) : Prop :=
  ∀ rounds, 32 ≤ rounds → (routine rounds).result = .ok (sector : ℤ) ∧
    ∀ shift ∈ (routine rounds).queries, 0 ≤ shift ∧ shift ≤ 31

/-- The lowest soft error is found. -/
theorem findResumePoint_soft (hpos : 1 ≤ buff.sectorOffset) (h32 : buff.sectorOffset ≤ 32)
    (hsoft : (errorsBelow buff.softErrorMap buff.sectorOffset).Nonempty) :
    IsLeast (errorsBelow buff.softErrorMap buff.sectorOffset) (findResumePoint buff) ∧
      EndsAt (findResumePointShifts · buff) (findResumePoint buff) := by
  obtain ⟨mask, hmask, hresult, hshifts, hbits⟩ := resumeMask_eq h32
  have hne : buff.softErrorMap &&& mask ≠ 0 := by
    rwa [Ne, and_resumeMask_eq_zero hbits, ← Ne, ← Set.nonempty_iff_ne_empty]
  obtain ⟨last, hlast32, hlast⟩ := exists_getLsbD_of_ne_zero hne
  have hup := fun rounds (hrounds : 32 ≤ rounds) =>
    scanMap_up hlast rounds (Nat.zero_le last) (fun _ hs => absurd hs (Nat.not_lt_zero _)) (by omega)
  obtain ⟨first, hfirst, -, -⟩ := hup 32 le_rfl
  have hfirst32 : first < 32 := BitVec.lt_of_getLsbD hfirst.1
  have hpoint : findResumePoint buff = first := by
    rw [findResumePoint, if_neg (by omega)]
    dsimp only
    rw [hmask, if_pos hne, firstError_eq hfirst (Nat.zero_le first) (by omega)]
  rw [hpoint]
  refine ⟨errorsBelow_eq hbits _ ▸ hfirst, fun rounds hrounds => ?_⟩
  obtain ⟨first', hfirst', hfound, hbounds⟩ := hup rounds hrounds
  rw [hfirst'.unique hfirst] at hfound hbounds
  simp only [findResumePointShifts_eq hpos h32, Recorded.bind, hresult, if_pos hne]
  refine ⟨hfound, fun shift hshift => ?_⟩
  cases List.mem_append.mp hshift with
  | inl hmem => exact hshifts shift hmem
  | inr hmem =>
    have := hbounds shift hmem
    omega

/-- Without soft errors, the place behind the highest hard error is found. -/
theorem findResumePoint_hard (hpos : 1 ≤ buff.sectorOffset) (h32 : buff.sectorOffset ≤ 32)
    (hsoft : ¬(errorsBelow buff.softErrorMap buff.sectorOffset).Nonempty)
    (hhard : (errorsBelow buff.hardErrorMap buff.sectorOffset).Nonempty) :
    (∃ last, IsGreatest (errorsBelow buff.hardErrorMap buff.sectorOffset) last ∧ findResumePoint buff = last + 1) ∧
      EndsAt (findResumePointShifts · buff) (findResumePoint buff) := by
  obtain ⟨mask, hmask, hresult, hshifts, hbits⟩ := resumeMask_eq h32
  have hclear : ¬buff.softErrorMap &&& mask ≠ 0 := by
    rwa [Ne, and_resumeMask_eq_zero hbits, ← Ne, ← Set.nonempty_iff_ne_empty]
  have hne : buff.hardErrorMap &&& mask ≠ 0 := by
    rwa [Ne, and_resumeMask_eq_zero hbits, ← Ne, ← Set.nonempty_iff_ne_empty]
  obtain ⟨low, -, hlow⟩ := exists_getLsbD_of_ne_zero hne
  have hbelow : ∀ s, (buff.hardErrorMap &&& mask).getLsbD s = true → s < buff.sectorOffset := by
    intro s hs
    have hs' : s ∈ errorsBelow buff.hardErrorMap buff.sectorOffset := errorsBelow_eq hbits _ ▸ hs
    exact hs'.1
  have habove : ∀ s, buff.sectorOffset - 1 < s → (buff.hardErrorMap &&& mask).getLsbD s = false := fun s hs =>
    Bool.eq_false_of_not_eq_true fun hbit => by
      have := hbelow s hbit
      omega
  have hlow32 := hbelow low hlow
  have hdown := fun rounds (hrounds : 32 ≤ rounds) =>
    scanMap_down hlow rounds (i := buff.sectorOffset - 1) (by omega) (by omega) habove (by omega)
  obtain ⟨last, hlast, -, -⟩ := hdown 32 le_rfl
  have hpoint : findResumePoint buff = last + 1 := by
    have := hbelow last hlast.1
    rw [findResumePoint, if_neg (by omega)]
    dsimp only
    rw [hmask, if_neg hclear, if_pos hne, lastError_eq hlast (by omega)]
  rw [hpoint]
  refine ⟨⟨last, errorsBelow_eq hbits _ ▸ hlast, rfl⟩, fun rounds hrounds => ?_⟩
  obtain ⟨last', hlast', hfound, hbounds⟩ := hdown rounds hrounds
  rw [hlast'.unique hlast] at hfound
  have hstart : (buff.sectorOffset : ℤ) - 1 = ((buff.sectorOffset - 1 : ℕ) : ℤ) := by omega
  simp only [findResumePointShifts_eq hpos h32, Recorded.bind, hresult, if_neg hclear, if_pos hne, hstart, hfound]
  refine ⟨by push_cast; rfl, fun shift hshift => ?_⟩
  cases List.mem_append.mp hshift with
  | inl hmem => exact hshifts shift hmem
  | inr hmem =>
    cases List.mem_append.mp hmem with
    | inl hmem =>
      have := hbounds shift hmem
      omega
    | inr hmem => exact absurd hmem List.not_mem_nil

end Resume

/-- `find_resume_point()` returns the lowest soft error in front of the cursors, or else the sector behind the
highest hard error. Its loops come to their end, and no shift is by more than 31. -/
theorem findResumePoint_eq (buff : Buffer) (hpos : 1 ≤ buff.sectorOffset) (h32 : buff.sectorOffset ≤ 32)
    (herror : (errorsBelow buff.softErrorMap buff.sectorOffset ∪
      errorsBelow buff.hardErrorMap buff.sectorOffset).Nonempty) :
    buff.ResumesAt (findResumePoint buff) ∧ EndsAt (findResumePointShifts · buff) (findResumePoint buff) ∧
      findResumePoint buff ≤ buff.sectorOffset := by
  by_cases hsoft : (errorsBelow buff.softErrorMap buff.sectorOffset).Nonempty
  · obtain ⟨hleast, hends⟩ := findResumePoint_soft hpos h32 hsoft
    have hresumes : buff.ResumesAt (findResumePoint buff) := ⟨fun _ => hleast, fun hnone => absurd hsoft hnone⟩
    exact ⟨hresumes, hends, hresumes.le⟩
  · have hhard : (errorsBelow buff.hardErrorMap buff.sectorOffset).Nonempty := by
      rw [Set.union_nonempty] at herror
      exact herror.resolve_left hsoft
    obtain ⟨hlast, hends⟩ := findResumePoint_hard hpos h32 hsoft hhard
    have hresumes : buff.ResumesAt (findResumePoint buff) := ⟨fun h => absurd h hsoft, fun _ => hlast⟩
    exact ⟨hresumes, hends, hresumes.le⟩

theorem findResumePoint_eq_spotted :
    let buff : Buffer := { emptyBuffer 0x8000 with sectorOffset := 32, softErrorMap := 0x80000000, hardErrorMap := 1 }
    buff.ResumesAt 31 ∧ EndsAt (findResumePointShifts · buff) 31 := by
  have h := findResumePoint_eq
    { emptyBuffer 0x8000 with sectorOffset := 32, softErrorMap := 0x80000000, hardErrorMap := 1 }
    (by decide) (by decide) ⟨31, Or.inl ⟨by decide, by decide⟩⟩
  exact ⟨h.1, h.2.1⟩

-- the loops over all 32 bits of a map are known by what they compute
attribute [local irreducible] packMask countOnes

/-- What a setup for a retry is to leave behind: the good sectors in front of its place are skipped, and their
soft errors are kept. -/
structure Buffer.GoesOnAt (before : Buffer) (entry : SectorMap) (offset : ℕ) (buff : Buffer) : Prop where
  data : buff.dataOffset = goodBelow entry offset
  ptr : buff.ptr = before.dmaAddress + 1024 * buff.dataOffset
  soft : ∀ s, buff.softErrorMap.getLsbD s = (before.softErrorMap.getLsbD s && decide (s < offset))

/-- A setup for a retry is right exactly if no soft error lies at one of the last sectors in front of its place,
as many as there are bad ones: the mask for the error map has a bit for each good sector only. -/
theorem setupSegment_goesOnAt_iff (setting : Setting) (buff : Buffer) (segmentId offset count : ℕ) (h : offset ≤ 31) :
    buff.GoesOnAt (setting.badSectorEntry segmentId) offset (setupSegment setting buff segmentId offset count true) ↔
      ∀ s, goodBelow (setting.badSectorEntry segmentId) offset ≤ s → s < offset →
        buff.softErrorMap.getLsbD s = false := by
  have h32 : offset ≤ 32 := by omega
  have hsoft := setupSegment_softErrorMap setting buff segmentId offset count h32
  constructor
  · intro hgoes s hgood hs
    have hkept := hgoes.soft s
    rw [hsoft, decide_eq_false (Nat.not_lt.mpr hgood), decide_eq_true hs, Bool.and_false, Bool.and_true] at hkept
    exact hkept.symm
  · intro hclear
    have hdata := setupSegment_dataOffset setting buff segmentId offset count true h32
    refine ⟨hdata, ?_, fun s => ?_⟩
    · rw [setupSegment_ptr _ _ _ _ _ _ h32, hdata, ftSectorSize, Nat.mul_comm]
    · rw [hsoft]
      by_cases hs : s < offset
      · by_cases hgood : s < goodBelow (setting.badSectorEntry segmentId) offset
        · rw [decide_eq_true hgood, decide_eq_true hs]
        · rw [hclear s (Nat.le_of_not_lt hgood) hs, Bool.false_and, Bool.false_and]
      · have hgood : ¬s < goodBelow (setting.badSectorEntry segmentId) offset := fun hlt =>
          hs (Nat.lt_of_lt_of_le hlt (goodBelow_le _ _))
        rw [decide_eq_false hgood, decide_eq_false hs]

theorem setupSegment_goesOnAt_spotted :
    Buffer.GoesOnAt { emptyBuffer 0x8000 with softErrorMap := 0b1 } (spottedTape.badSectorEntry 5) 4
      (setupSegment spottedTape { emptyBuffer 0x8000 with softErrorMap := 0b1 } 5 4 28 true) := by
  rw [setupSegment_goesOnAt_iff _ _ _ _ _ (by decide)]
  intro s hgood hs
  have hbits : ∀ s : Fin 4, goodBelow 0b110 4 ≤ s.val → (1 : SectorMap).getLsbD s = false := by decide +kernel
  exact hbits ⟨s, hs⟩ hgood

/-- The second and the third sector are bad, and a soft error of the fourth one is forgotten by a retry that goes on
behind it. -/
theorem setupSegment_forgets :
    ¬Buffer.GoesOnAt { emptyBuffer 0x8000 with softErrorMap := 0b1000 } (spottedTape.badSectorEntry 5) 4
      (setupSegment spottedTape { emptyBuffer 0x8000 with softErrorMap := 0b1000 } 5 4 28 true) := by
  intro h
  exact absurd (h.soft 3) (by decide +kernel)

/-- Where no bad sector lies in front of its place, a setup for a retry is right. -/
theorem setupSegment_goesOnAt_of_good {setting : Setting} {segmentId offset : ℕ} (buff : Buffer) (count : ℕ)
    (h : offset ≤ 31) (hgood : ∀ s, s < offset → (setting.badSectorEntry segmentId).getLsbD s = false) :
    buff.GoesOnAt (setting.badSectorEntry segmentId) offset (setupSegment setting buff segmentId offset count true) where
  data := setupSegment_dataOffset setting buff segmentId offset count true (by omega)
  ptr := by
    rw [setupSegment_ptr _ _ _ _ _ _ (by omega), setupSegment_dataOffset _ _ _ _ _ _ (by omega), ftSectorSize,
      Nat.mul_comm]
  soft := fun s => by
    have hall : goodBelow (setting.badSectorEntry segmentId) offset = offset := by
      have hrun : goodBelow (setting.badSectorEntry segmentId) (0 + offset) =
          goodBelow (setting.badSectorEntry segmentId) 0 + offset :=
        goodBelow_add_of_good fun i hi => (Nat.zero_add i).symm ▸ hgood i hi
      have hzero : goodBelow (setting.badSectorEntry segmentId) 0 = 0 := Nat.count_zero _
      rwa [hzero, Nat.zero_add] at hrun
    rw [setupSegment_softErrorMap _ _ _ _ _ (by omega), hall]

end Ftape.Isr
