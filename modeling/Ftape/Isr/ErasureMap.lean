import Ftape.Isr.Runs

/-!
# Sectors as erasures

The maps of a buffer number all sectors of a segment, the error correction numbers the good ones. The
map of errors is compacted before it is handed on: each flag of a good sector moves down by the number
of bad sectors in front of it, and the flags of bad sectors are dropped.
-/

namespace Ftape.Isr

open Ftape.Write

/-- The variables of `convert_sector_map()`. -/
structure MapCursor where
  badMap : SectorMap
  srcMap : SectorMap
  dstMap : SectorMap
  i : ℕ

/-- The inner loop of `convert_sector_map()`, which passes good sectors. `none` stands for a loop that
goes on. -/
def passGood : ℕ → MapCursor → Option MapCursor
  | 0, _ => none
  | fuel + 1, cursor =>
    if cursor.badMap.getLsbD 0 then some cursor
    else passGood fuel
      { badMap := cursor.badMap >>> 1
        srcMap := cursor.srcMap >>> 1
        dstMap := if cursor.srcMap.getLsbD 0 then cursor.dstMap ||| (1 : SectorMap) <<< cursor.i
          else cursor.dstMap
        i := cursor.i + 1 }

/-- The outer loop of `convert_sector_map()`, which passes a bad sector in each round. -/
def passBad : ℕ → MapCursor → Option MapCursor
  | 0, _ => none
  | fuel + 1, cursor =>
    if cursor.badMap = 0 then some cursor
    else do
      let cursor ← passGood fuel cursor
      passBad fuel { cursor with badMap := cursor.badMap >>> 1, srcMap := cursor.srcMap >>> 1 }

/-- `convert_sector_map()`, with the number of rounds its loops may take. -/
def convertSectorMap (fuel : ℕ) (setting : Setting) (buff : Buffer) : Option SectorMap := do
  let cursor ← passBad fuel
    { badMap := setting.badSectorEntry buff.segmentId
      srcMap := buff.softErrorMap ||| buff.hardErrorMap
      dstMap := 0
      i := 0 }
  pure (if cursor.srcMap ≠ 0 then cursor.dstMap ||| cursor.srcMap <<< cursor.i else cursor.dstMap)

/-- Bit `j` of a compacted map stands for sector `s`: it is a good sector behind `j` other ones. -/
def StandsFor (badMap : SectorMap) (j s : ℕ) : Prop := badMap.getLsbD s = false ∧ goodBelow badMap s = j

/-- The cursor in front of a sector: the maps are shifted by all sectors passed so far, and the flags of
those that are good are in the compacted map. -/
structure MapCursor.At (badMap srcMap : SectorMap) (sector : ℕ) (cursor : MapCursor) : Prop where
  bad : cursor.badMap = badMap >>> sector
  src : cursor.srcMap = srcMap >>> sector
  good : cursor.i = goodBelow badMap sector
  dst : ∀ j, cursor.dstMap.getLsbD j = true ↔
    ∃ s < sector, StandsFor badMap j s ∧ srcMap.getLsbD s = true

section Compaction

variable {badMap srcMap : SectorMap} {sector : ℕ} {cursor : MapCursor}

/-- The lowest bit of a shifted map is that of the sector. -/
theorem getLsbD_zero_shift (map : SectorMap) (sector : ℕ) : (map >>> sector).getLsbD 0 = map.getLsbD sector := by
  simp

/-- Passing a bad sector drops its flag. -/
theorem MapCursor.At.bad_step (h : cursor.At badMap srcMap sector) (hbad : badMap.getLsbD sector = true) :
    MapCursor.At badMap srcMap (sector + 1)
      { cursor with badMap := cursor.badMap >>> 1, srcMap := cursor.srcMap >>> 1 } where
  bad := by rw [h.bad, BitVec.shiftRight_add]
  src := by rw [h.src, BitVec.shiftRight_add]
  good := by rw [h.good, goodBelow_succ_of_bad hbad]
  dst := by
    intro j
    rw [h.dst]
    constructor
    · rintro ⟨s, hs, hstands, hflag⟩
      exact ⟨s, Nat.lt_succ_of_lt hs, hstands, hflag⟩
    · rintro ⟨s, hs, hstands, hflag⟩
      refine ⟨s, Nat.lt_of_le_of_ne (Nat.le_of_lt_succ hs) ?_, hstands, hflag⟩
      intro heq
      rw [heq] at hstands
      simp [StandsFor, hbad] at hstands

/-- Passing a good sector moves its flag to the bit that stands for it. -/
theorem MapCursor.At.good_step (h : cursor.At badMap srcMap sector) (hsector : sector < 32)
    (hgood : badMap.getLsbD sector = false) :
    MapCursor.At badMap srcMap (sector + 1)
      { badMap := cursor.badMap >>> 1
        srcMap := cursor.srcMap >>> 1
        dstMap := if cursor.srcMap.getLsbD 0 then cursor.dstMap ||| (1 : SectorMap) <<< cursor.i
          else cursor.dstMap
        i := cursor.i + 1 } where
  bad := by rw [h.bad, BitVec.shiftRight_add]
  src := by rw [h.src, BitVec.shiftRight_add]
  good := by rw [h.good, goodBelow_succ_of_good hgood]
  dst := by
    intro j
    have hi : cursor.i < 32 := by
      have := goodBelow_le badMap sector
      have := h.good
      omega
    have hbit : (if cursor.srcMap.getLsbD 0 then cursor.dstMap ||| (1 : SectorMap) <<< cursor.i
        else cursor.dstMap).getLsbD j = true ↔
          cursor.dstMap.getLsbD j = true ∨ (j = cursor.i ∧ srcMap.getLsbD sector = true) := by
      rw [h.src, getLsbD_zero_shift]
      cases srcMap.getLsbD sector with
      | false => simp
      | true =>
        rw [if_pos rfl, BitVec.getLsbD_or, getLsbD_one_shiftLeft hi]
        simp
    rw [hbit, h.dst]
    constructor
    · intro hflag
      cases hflag with
      | inl hbefore =>
        obtain ⟨s, hs, hstands, hflag⟩ := hbefore
        exact ⟨s, Nat.lt_succ_of_lt hs, hstands, hflag⟩
      | inr hhere => exact ⟨sector, Nat.lt_succ_self _, ⟨hgood, by rw [hhere.1, h.good]⟩, hhere.2⟩
    · rintro ⟨s, hs, hstands, hflag⟩
      cases Nat.lt_or_eq_of_le (Nat.le_of_lt_succ hs) with
      | inl hlt => exact Or.inl ⟨s, hlt, hstands, hflag⟩
      | inr heq =>
        rw [heq] at hstands hflag
        exact Or.inr ⟨by rw [h.good, hstands.2], hflag⟩

/-- The inner loop ends at the next bad sector. -/
theorem passGood_at (h : cursor.At badMap srcMap sector) {next : ℕ} (hnext : next < 32) (hle : sector ≤ next)
    (hbad : badMap.getLsbD next = true) (hgood : ∀ s, sector ≤ s → s < next → badMap.getLsbD s = false)
    {fuel : ℕ} (hfuel : next < sector + fuel) :
    ∃ cursor', passGood fuel cursor = some cursor' ∧ cursor'.At badMap srcMap next := by
  induction fuel generalizing sector cursor with
  | zero => omega
  | succ fuel ih =>
    have hhead : cursor.badMap.getLsbD 0 = badMap.getLsbD sector := by rw [h.bad, getLsbD_zero_shift]
    rw [passGood, hhead]
    cases Nat.lt_or_eq_of_le hle with
    | inl hlt =>
      have hsector := hgood sector le_rfl hlt
      rw [hsector, if_neg Bool.false_ne_true]
      exact ih (h.good_step (by omega) hsector) hlt (fun s hs => hgood s (Nat.le_of_succ_le hs)) (by omega)
    | inr heq =>
      rw [heq, hbad, if_pos rfl]
      exact ⟨cursor, rfl, heq ▸ h⟩

/-- In front of a bad sector there is a next one. -/
theorem exists_next_bad (h : badMap >>> sector ≠ 0) :
    ∃ next, next < 32 ∧ sector ≤ next ∧ badMap.getLsbD next = true ∧
      ∀ s, sector ≤ s → s < next → badMap.getLsbD s = false := by
  have hbad : ∃ offset, badMap.getLsbD (sector + offset) = true := by
    by_contra hnone
    apply h
    apply BitVec.eq_of_getLsbD_eq
    intro offset _
    rw [BitVec.getLsbD_ushiftRight, Bool.eq_false_of_not_eq_true fun hbit => hnone ⟨offset, hbit⟩]
    simp
  refine ⟨sector + Nat.find hbad, BitVec.lt_of_getLsbD (Nat.find_spec hbad), Nat.le_add_right _ _,
    Nat.find_spec hbad, ?_⟩
  intro s hs hlt
  obtain ⟨offset, rfl⟩ := Nat.exists_eq_add_of_le hs
  exact Bool.eq_false_of_not_eq_true (Nat.find_min hbad (Nat.lt_of_add_lt_add_left hlt))

/-- The outer loop ends behind the last bad sector. -/
theorem passBad_at (h : cursor.At badMap srcMap sector) (hsector : sector ≤ 32) {fuel : ℕ}
    (hfuel : 33 ≤ sector + fuel) :
    ∃ cursor' last, passBad fuel cursor = some cursor' ∧ last ≤ 32 ∧ badMap >>> last = 0 ∧
      cursor'.At badMap srcMap last := by
  induction fuel generalizing sector cursor with
  | zero => omega
  | succ fuel ih =>
    rw [passBad]
    by_cases hdone : cursor.badMap = 0
    · rw [if_pos hdone]
      exact ⟨cursor, sector, rfl, hsector, h.bad.symm.trans hdone, h⟩
    · rw [if_neg hdone]
      rw [h.bad] at hdone
      obtain ⟨next, hnext, hle, hbad, hgood⟩ := exists_next_bad hdone
      have hrounds : next < sector + fuel := by omega
      obtain ⟨passed, hpassed, hat⟩ := passGood_at h hnext hle hbad hgood hrounds
      rw [hpassed]
      exact ih (hat.bad_step hbad) hnext (by omega)

/-- Behind the last bad sector each good sector moves down by the same number of sectors. -/
theorem goodBelow_of_no_bad (hnone : badMap >>> sector = 0) (n : ℕ) :
    badMap.getLsbD (sector + n) = false ∧ goodBelow badMap (sector + n) = goodBelow badMap sector + n := by
  have hgood : ∀ n, badMap.getLsbD (sector + n) = false := by
    intro n
    rw [← BitVec.getLsbD_ushiftRight, hnone]
    simp
  exact ⟨hgood n, goodBelow_add_of_good fun i _ => hgood i⟩

end Compaction

/-- `convert_sector_map()` comes to an end for all maps, and a bit of its result is set exactly if the good
sector it stands for is flagged. -/
theorem convertSectorMap_eq (setting : Setting) (buff : Buffer) {fuel : ℕ} (hfuel : 33 ≤ fuel) :
    ∃ dstMap, convertSectorMap fuel setting buff = some dstMap ∧
      ∀ j, dstMap.getLsbD j = true ↔ ∃ s < ftSectorsPerSegment,
        StandsFor (setting.badSectorEntry buff.segmentId) j s ∧
          (buff.softErrorMap ||| buff.hardErrorMap).getLsbD s = true := by
  rw [convertSectorMap, sectorsPerSegment_eq]
  generalize setting.badSectorEntry buff.segmentId = badMap
  generalize buff.softErrorMap ||| buff.hardErrorMap = srcMap
  have hstart : MapCursor.At badMap srcMap 0 ⟨badMap, srcMap, 0, 0⟩ := by
    refine ⟨by simp, by simp, by simp [goodBelow], ?_⟩
    intro j
    simp
  obtain ⟨cursor, last, hpassed, hlast, hnone, hat⟩ := passBad_at hstart (by omega) (by omega : 33 ≤ 0 + fuel)
  rw [hpassed]
  refine ⟨_, rfl, fun j => ?_⟩
  have hrest : (if cursor.srcMap ≠ 0 then cursor.dstMap ||| cursor.srcMap <<< cursor.i
      else cursor.dstMap).getLsbD j = true ↔
        cursor.dstMap.getLsbD j = true ∨ (cursor.srcMap <<< cursor.i).getLsbD j = true := by
    split
    · rw [BitVec.getLsbD_or, Bool.or_eq_true]
    · rename_i hzero
      simp [not_not.mp hzero]
  rw [hrest, hat.dst]
  constructor
  · intro hflag
    cases hflag with
    | inl hbefore =>
      obtain ⟨s, hs, hstands, hflag⟩ := hbefore
      exact ⟨s, Nat.lt_of_lt_of_le hs hlast, hstands, hflag⟩
    | inr hbehind =>
      rw [BitVec.getLsbD_shiftLeft, hat.src, hat.good, BitVec.getLsbD_ushiftRight] at hbehind
      simp only [Bool.and_eq_true, decide_eq_true_eq, Bool.not_eq_true', decide_eq_false_iff_not] at hbehind
      obtain ⟨⟨hj, hge⟩, hflag⟩ := hbehind
      have hbehind := goodBelow_of_no_bad hnone (j - goodBelow badMap last)
      refine ⟨last + (j - goodBelow badMap last), BitVec.lt_of_getLsbD hflag, ⟨hbehind.1, ?_⟩, hflag⟩
      rw [hbehind.2]
      omega
  · rintro ⟨s, hs, hstands, hflag⟩
    cases Nat.lt_or_ge s last with
    | inl hlt => exact Or.inl ⟨s, hlt, hstands, hflag⟩
    | inr hge =>
      obtain ⟨n, rfl⟩ := Nat.exists_eq_add_of_le hge
      have hj := hstands.2
      rw [(goodBelow_of_no_bad hnone n).2] at hj
      have hle := goodBelow_le badMap last
      right
      rw [BitVec.getLsbD_shiftLeft, hat.src, hat.good, BitVec.getLsbD_ushiftRight, ← hj, Nat.add_sub_cancel_left,
        hflag]
      simp
      omega

/-- The flags of the second and the third sector, which are bad, are dropped, and that of the fourth one moves to
the second bit. -/
theorem convertSectorMap_eq_spotted :
    ∃ dstMap, convertSectorMap 33 spottedTape
        { emptyBuffer 0 with segmentId := 5, softErrorMap := 0b1010, hardErrorMap := 0b100 } = some dstMap ∧
      (dstMap.getLsbD 1 = true ↔ ∃ s < ftSectorsPerSegment, StandsFor (spottedTape.badSectorEntry 5) 1 s ∧
        (0b1010 ||| 0b100 : SectorMap).getLsbD s = true) := by
  obtain ⟨dstMap, hconvert, hbits⟩ := convertSectorMap_eq spottedTape
    { emptyBuffer 0 with segmentId := 5, softErrorMap := 0b1010, hardErrorMap := 0b100 } le_rfl
  exact ⟨dstMap, hconvert, hbits 1⟩

end Ftape.Isr
