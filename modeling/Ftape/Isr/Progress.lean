import Ftape.Isr.Cluster

/-!
# Progress of a transfer

What was transferred moves all cursors by the same number of good sectors. A sector that failed is
flagged and passed, and a retry goes on at a place behind which nothing is lost.
-/

namespace Ftape.Isr

open Ftape.Write

/-- What the progress of a transfer leaves alone. -/
structure Buffer.SameSegment (buff buff' : Buffer) : Prop where
  status : buff'.status = buff.status
  segmentId : buff'.segmentId = buff.segmentId
  nextSegment : buff'.nextSegment = buff.nextSegment

/-- What `determine_progress()` makes of a number of sectors that remain. -/
theorem advance_eq {buff : Buffer} {n : ℕ} (hsum : buff.sectorOffset + buff.remaining = 32)
    (hdata : buff.dataOffset ≤ buff.sectorOffset) (hn : n ≤ buff.remaining) :
    advance { buff with sectorCount := n } = { buff with
      sectorCount := n
      sectorOffset := buff.sectorOffset + n
      dataOffset := buff.dataOffset + n
      ptr := buff.ptr + n * ftSectorSize
      remaining := buff.remaining - n
      badSectorMap := buff.badSectorMap >>> n
      moved := buff.moved ++ (List.range n).map fun i =>
        (buff.sectorOffset + i, buff.ptr + i * ftSectorSize) } := by
  rw [advance]
  split
  · have hoffset : Header.uint (buff.sectorOffset + n) = buff.sectorOffset + n := by
      rw [Header.uint]
      omega
    have hgood : Header.uint (buff.dataOffset + n) = buff.dataOffset + n := by
      rw [Header.uint]
      omega
    have hptr : Header.uint (n * ftSectorSize) = n * ftSectorSize := by
      rw [Header.uint, ftSectorSize]
      omega
    have hremaining : toUint (buff.remaining - n) = buff.remaining - n := by
      rw [toUint]
      omega
    dsimp only
    rw [hoffset, hgood, hptr, hremaining]
  · rename_i hnone
    obtain rfl : n = 0 := Nat.eq_zero_of_not_pos hnone
    simp

/-- Sectors that were transferred move all cursors alike. -/
theorem Buffer.Placed.advance {map : SectorMap} {buff : Buffer} (h : buff.Placed map) {n : ℕ} (hn : n ≤ buff.remaining)
    (hgood : ∀ i, i < n → map.getLsbD (buff.sectorOffset + i) = false) :
    (advance { buff with sectorCount := n }).Placed map ∧
      (Isr.advance { buff with sectorCount := n }).bytes = buff.bytes := by
  have hsum := h.sectors
  rw [advance_eq hsum h.dataOffset_le.2.1 hn]
  refine ⟨⟨?_, ?_, ?_, ?_, h.skip, h.deleted⟩, rfl⟩
  · dsimp only
    omega
  · dsimp only
    rw [h.data, goodBelow_add_of_good hgood]
  · dsimp only
    rw [h.ptr, Nat.add_mul, Nat.add_assoc]
  · dsimp only
    rw [h.rest, BitVec.shiftRight_add]

/-- Sectors that were transferred are covered. -/
theorem Buffer.InProgress.advance {map : SectorMap} {buff : Buffer} (h : buff.InProgress map)
    (hreal : drivenMap map ≠ fakeSegment) {n : ℕ} (hn : n ≤ buff.remaining)
    (hgood : ∀ i, i < n → map.getLsbD (buff.sectorOffset + i) = false) :
    (advance { buff with sectorCount := n }).InProgress map := by
  have hplaced := (h.placed.advance hn hgood).1
  rw [advance_eq h.sectors h.placed.dataOffset_le.2.1 hn] at hplaced ⊢
  refine ⟨hplaced.sectors, hplaced.data, hplaced.ptr, hplaced.rest, fun hfake => absurd hfake hreal,
    Nat.le_add_right_of_le h.skip, ?_, ?_, h.deleted⟩
  · intro s hs
    exact ⟨(h.soft s hs).1, Nat.lt_add_right n (h.soft s hs).2⟩
  · intro s hs hsgood
    cases Nat.lt_or_ge s buff.sectorOffset with
    | inl hlt =>
      refine (h.covered s hlt hsgood).imp_right (Or.imp_right fun hmoved => ?_)
      exact List.mem_append_left _ hmoved
    | inr hge =>
      obtain ⟨i, rfl⟩ := Nat.exists_eq_add_of_le hge
      have hi : i < n := Nat.lt_of_add_lt_add_left hs
      refine Or.inr (Or.inr (List.mem_append_right _ (List.mem_map.mpr ⟨i, List.mem_range.mpr hi, ?_⟩)))
      rw [goodBelow_add_of_good fun k hk => hgood k (Nat.lt_trans hk hi), ← h.data, h.ptr, Nat.add_mul,
        Nat.add_assoc]

/-- The bit of a sector. -/
theorem getLsbD_one_shiftLeft {sector : ℕ} (h : sector < 32) (i : ℕ) :
    ((1 : SectorMap) <<< sector).getLsbD i = decide (i = sector) := by
  have hbits : ∀ sector i : Fin 32,
      ((1 : SectorMap) <<< sector.val).getLsbD i = decide (i.val = sector.val) := by decide +kernel
  by_cases hi : i < 32
  · exact hbits ⟨sector, h⟩ ⟨i, hi⟩
  · rw [BitVec.getLsbD_of_ge _ _ (by omega)]
    exact (decide_eq_false (by omega)).symm

/-- A sector that failed is flagged, and all cursors pass it. -/
theorem Buffer.InProgress.skipBadSector {map : SectorMap} {buff : Buffer} (h : buff.InProgress map)
    (hreal : drivenMap map ≠ fakeSegment) (hpos : 0 < buff.remaining)
    (hgood : map.getLsbD buff.sectorOffset = false) (setting : Setting) :
    let after := updateErrorMaps setting (skipBadSector buff) ((skipBadSector buff).sectorOffset - 1)
    after.InProgress map ∧ buff.SameSegment after ∧ 0 < after.sectorOffset := by
  have hsum := h.sectors
  have hbit : ∀ i, ((1 : SectorMap) <<< buff.sectorOffset).getLsbD i = decide (i = buff.sectorOffset) :=
    getLsbD_one_shiftLeft (by omega)
  rw [Isr.skipBadSector, if_pos hpos, updateErrorMaps]
  dsimp only
  rw [Nat.add_sub_cancel, if_neg (by rw [sectorsPerSegment_eq]; omega)]
  have hpassed : ∀ soft hard retry,
      (∀ s, soft.getLsbD s = true → buff.softErrorMap.getLsbD s = true ∨ s = buff.sectorOffset) →
      (∀ s, buff.softErrorMap.getLsbD s = true ∨ buff.hardErrorMap.getLsbD s = true ∨ s = buff.sectorOffset →
        soft.getLsbD s = true ∨ hard.getLsbD s = true) →
      Buffer.InProgress map { buff with
        sectorOffset := buff.sectorOffset + 1
        dataOffset := buff.dataOffset + 1
        remaining := buff.remaining - 1
        ptr := buff.ptr + ftSectorSize
        badSectorMap := buff.badSectorMap >>> 1
        softErrorMap := soft
        hardErrorMap := hard
        retry := retry } := by
    intro soft hard retry hsoft hflagged
    refine ⟨?_, ?_, ?_, ?_, fun hfake => absurd hfake hreal, Nat.le_succ_of_le h.skip, ?_, ?_, h.deleted⟩
    · dsimp only
      omega
    · dsimp only
      rw [h.data, goodBelow_succ_of_good hgood]
    · dsimp only
      rw [h.ptr, Nat.add_mul, Nat.one_mul, Nat.add_assoc]
    · dsimp only
      rw [h.rest, BitVec.shiftRight_add]
    · intro s hs
      cases hsoft s hs with
      | inl hold => exact ⟨(h.soft s hold).1, Nat.lt_succ_of_lt (h.soft s hold).2⟩
      | inr hnew =>
        subst hnew
        exact ⟨fun hlt => absurd hlt (Nat.not_lt.mpr h.skip), Nat.lt_succ_self _⟩
    · intro s hs hsgood
      have hflag : soft.getLsbD s = true ∨ hard.getLsbD s = true →
          Buffer.Covered map { buff with
            sectorOffset := buff.sectorOffset + 1
            dataOffset := buff.dataOffset + 1
            remaining := buff.remaining - 1
            ptr := buff.ptr + ftSectorSize
            badSectorMap := buff.badSectorMap >>> 1
            softErrorMap := soft
            hardErrorMap := hard
            retry := retry } s := fun hf => hf.imp_right Or.inl
      cases Nat.lt_or_eq_of_le (Nat.le_of_lt_succ hs) with
      | inl hlt =>
        rcases h.covered s hlt hsgood with hold | hold | hold
        · exact hflag (hflagged s (Or.inl hold))
        · exact hflag (hflagged s (Or.inr (Or.inl hold)))
        · exact Or.inr (Or.inr hold)
      | inr heq => exact hflag (hflagged s (Or.inr (Or.inr heq)))
  split
  · refine ⟨hpassed _ _ _ ?_ ?_, ⟨rfl, rfl, rfl⟩, Nat.succ_pos _⟩
    · intro s hs
      rwa [BitVec.getLsbD_or, Bool.or_eq_true, hbit, decide_eq_true_eq] at hs
    · intro s hs
      rw [BitVec.getLsbD_or, hbit]
      rcases hs with hold | hold | hnew
      · simp [hold]
      · exact Or.inr hold
      · simp [hnew]
  · refine ⟨hpassed _ _ _ ?_ ?_, ⟨rfl, rfl, rfl⟩, Nat.succ_pos _⟩
    · intro s hs
      rw [BitVec.getLsbD_and, Bool.and_eq_true] at hs
      exact Or.inl hs.1
    · intro s hs
      -- a soft error that is now a hard one is flagged as such
      cases Bool.eq_false_or_eq_true
          ((buff.hardErrorMap ||| (1 : SectorMap) <<< buff.sectorOffset).getLsbD s) with
      | inl hhard => exact Or.inr hhard
      | inr hhard =>
        have hnew := hhard
        rw [BitVec.getLsbD_or, Bool.or_eq_false_iff, hbit, decide_eq_false_iff_not] at hnew
        rcases hs with hold | hold | heq
        · left
          have hs32 : s < 32 := BitVec.lt_of_getLsbD hold
          rw [BitVec.getLsbD_and, BitVec.getLsbD_not, hhard, hold]
          simp [hs32]
        · rw [hnew.1] at hold
          cases hold
        · exact absurd heq hnew.2

/-- After an error the sector is passed and flagged, whatever becomes of the retries. -/
theorem markFailure_eq (setting : Setting) (buff : Buffer) (cause : ErrorCause) :
    ∃ retry shortStart, markFailure setting buff cause =
      let start : Buffer := { buff with retry := retry, shortStart := shortStart }
      updateErrorMaps setting (skipBadSector start) ((skipBadSector start).sectorOffset - 1) := by
  rw [markFailure]
  by_cases hoverrun : cause = .overrunError
  · rw [if_pos hoverrun]
    by_cases hretry : 0 < buff.retry
    · rw [if_pos hretry]
      exact ⟨_, _, rfl⟩
    · rw [if_neg hretry]
      exact ⟨buff.retry, buff.shortStart, rfl⟩
  · rw [if_neg hoverrun]
    exact ⟨buff.retry, true, rfl⟩

/-- `determine_progress()` moves the cursors past what was transferred, and in case of an error past the sector that
failed, which is one that was asked for. -/
theorem determineProgress_eq (setting : Setting) {buff : Buffer} {cause : ErrorCause} {n : ℕ}
    (hn : n ≤ buff.sectorCount) (hsectors : buff.sectorCount ≤ 32) (herror : cause = .noError ∨ 0 < buff.sectorCount) :
    (cause = .noError ∧ determineProgress setting buff cause n = advance { buff with sectorCount := n }) ∨
      cause ≠ .noError ∧ ∃ k < buff.sectorCount, determineProgress setting buff cause n =
        markFailure setting (advance { buff with sectorCount := k }) cause := by
  have hn32 : toUint n = n := toUint_natCast (by omega)
  rw [determineProgress]
  by_cases hcause : cause = .noError
  · rw [if_pos hcause, if_pos hcause, hn32]
    exact Or.inl ⟨hcause, rfl⟩
  · have hpos := herror.resolve_left hcause
    rw [if_neg hcause, if_neg hcause, hn32]
    refine Or.inr ⟨hcause, ?_⟩
    split
    · have hlast : toUint ((n : ℤ) - 1) = n - 1 := by
        rw [toUint]
        omega
      rw [hlast]
      exact ⟨n - 1, by omega, rfl⟩
    · exact ⟨n, by omega, rfl⟩

/-- The cursors after an error agree, one sector further. -/
theorem Buffer.InProgress.markFailure {map : SectorMap} {buff : Buffer} (h : buff.InProgress map)
    (hreal : drivenMap map ≠ fakeSegment) (hpos : 0 < buff.remaining)
    (hgood : map.getLsbD buff.sectorOffset = false) (setting : Setting) (cause : ErrorCause) :
    (markFailure setting buff cause).InProgress map ∧ buff.SameSegment (markFailure setting buff cause) ∧
      0 < (markFailure setting buff cause).sectorOffset := by
  obtain ⟨retry, shortStart, hmark⟩ := markFailure_eq setting buff cause
  have hstart : Buffer.InProgress map { buff with retry := retry, shortStart := shortStart } := { h with }
  obtain ⟨hprogress, hsame, hoffset⟩ := hstart.skipBadSector hreal hpos hgood setting
  rw [hmark]
  exact ⟨hprogress, { hsame with }, hoffset⟩

/-- `determine_progress()` keeps the cursors in agreement when the controller transferred some of the
sectors it was asked for, and an error lies at one of these. -/
theorem Buffer.InProgress.determineProgress {map : SectorMap} {buff : Buffer} (h : buff.InProgress map)
    (hreal : drivenMap map ≠ fakeSegment) (hcluster : buff.Cluster map) (setting : Setting)
    (cause : ErrorCause) {n : ℕ} (hn : n ≤ buff.sectorCount)
    (herror : cause = .noError ∨ 0 < buff.sectorCount) :
    let after := determineProgress setting buff cause n
    after.InProgress map ∧ buff.SameSegment after ∧ (cause ≠ .noError → 0 < after.sectorOffset) := by
  have hsum := h.sectors
  have hremaining := hcluster.remaining
  have hgood : ∀ i, i < buff.sectorCount → map.getLsbD (buff.sectorOffset + i) = false := by
    intro i hi
    rw [← drivenMap_eq hreal]
    exact hcluster.good i hi
  have hdata := h.placed.dataOffset_le.2.1
  rcases determineProgress_eq setting hn (by omega) herror with ⟨hcause, heq⟩ | ⟨hcause, k, hk, heq⟩
  · rw [heq]
    refine ⟨h.advance hreal (by omega) fun i hi => hgood i (by omega), ?_, fun hne => absurd hcause hne⟩
    rw [advance_eq hsum hdata (by omega)]
    exact ⟨rfl, rfl, rfl⟩
  · have hadvance := h.advance hreal (n := k) (by omega) fun i hi => hgood i (by omega)
    rw [heq]
    rw [advance_eq hsum hdata (by omega)] at hadvance ⊢
    obtain ⟨hprogress, hsame, hoffset⟩ :=
      hadvance.markFailure hreal (by dsimp only; omega) (hgood k hk) setting cause
    exact ⟨hprogress, { hsame with }, fun _ => hoffset⟩

/-- The error maps and the retries move no cursor. -/
theorem Buffer.Placed.updateErrorMaps {map : SectorMap} {buff : Buffer} (h : buff.Placed map) (setting : Setting) (errorOffset : ℕ) :
    (updateErrorMaps setting buff errorOffset).Placed map ∧
      buff.SameSegment (Isr.updateErrorMaps setting buff errorOffset) ∧
      (Isr.updateErrorMaps setting buff errorOffset).bytes = buff.bytes := by
  rw [Isr.updateErrorMaps]
  split
  · exact ⟨h, ⟨rfl, rfl, rfl⟩, rfl⟩
  · split
    · exact ⟨{ h with }, ⟨rfl, rfl, rfl⟩, rfl⟩
    · exact ⟨{ h with }, ⟨rfl, rfl, rfl⟩, rfl⟩

/-- A sector that failed is passed. -/
theorem Buffer.Placed.markFailure {map : SectorMap} {buff : Buffer} (h : buff.Placed map) (hpos : 0 < buff.remaining)
    (hgood : map.getLsbD buff.sectorOffset = false) (setting : Setting) (cause : ErrorCause) :
    (markFailure setting buff cause).Placed map ∧ buff.SameSegment (markFailure setting buff cause) ∧
      (Isr.markFailure setting buff cause).bytes = buff.bytes := by
  have hsum := h.sectors
  obtain ⟨retry, shortStart, hmark⟩ := markFailure_eq setting buff cause
  dsimp only at hmark
  rw [hmark, skipBadSector, if_pos hpos]
  have hskipped : Buffer.Placed map { buff with
      retry := retry
      shortStart := shortStart
      sectorOffset := buff.sectorOffset + 1
      dataOffset := buff.dataOffset + 1
      remaining := buff.remaining - 1
      ptr := buff.ptr + ftSectorSize
      badSectorMap := buff.badSectorMap >>> 1 } := by
    refine ⟨?_, ?_, ?_, ?_, h.skip, h.deleted⟩
    · dsimp only
      omega
    · dsimp only
      rw [h.data, goodBelow_succ_of_good hgood]
    · dsimp only
      rw [h.ptr, Nat.add_mul, Nat.one_mul, Nat.add_assoc]
    · dsimp only
      rw [h.rest, BitVec.shiftRight_add]
  obtain ⟨hplaced, hsame, hbytes⟩ := hskipped.updateErrorMaps setting (buff.sectorOffset + 1 - 1)
  exact ⟨hplaced, { hsame with }, hbytes⟩

/-- `determine_progress()` keeps the cursors in agreement, unless the segment is faked. -/
theorem Buffer.Placed.determineProgress {map : SectorMap} {buff : Buffer} (h : buff.Placed map)
    (hreal : buff.badSectorMap ≠ fakeSegment) (hcluster : buff.Cluster map) (setting : Setting) (cause : ErrorCause)
    {n : ℕ} (hn : n ≤ buff.sectorCount) (herror : cause = .noError ∨ 0 < buff.sectorCount) :
    let after := determineProgress setting buff cause n
    after.Placed map ∧ buff.SameSegment after ∧ after.bytes = buff.bytes := by
  have hsum := h.sectors
  have hremaining := hcluster.remaining
  rw [h.rest] at hreal
  have hgood : ∀ i, i < buff.sectorCount → map.getLsbD (buff.sectorOffset + i) = false := fun i hi =>
    good_of_driven hreal (Nat.le_add_right _ _) (hcluster.good i hi)
  have hdata := h.dataOffset_le.2.1
  rcases determineProgress_eq setting hn (by omega) herror with ⟨-, heq⟩ | ⟨-, k, hk, heq⟩
  · obtain ⟨hplaced, hbytes⟩ := h.advance (n := n) (by omega) fun i hi => hgood i (by omega)
    rw [heq]
    refine ⟨hplaced, ?_, hbytes⟩
    rw [advance_eq hsum hdata (by omega)]
    exact ⟨rfl, rfl, rfl⟩
  · obtain ⟨hplaced, -⟩ := h.advance (n := k) (by omega) fun i hi => hgood i (by omega)
    rw [heq]
    rw [advance_eq hsum hdata (by omega)] at hplaced ⊢
    obtain ⟨hmarked, hsame, hbytes⟩ := hplaced.markFailure (by dsimp only; omega) (hgood k hk) setting cause
    exact ⟨hmarked, { hsame with }, hbytes⟩

/-- The first error lies in front of every error. -/
theorem firstError_le {map : SectorMap} {s : ℕ} (hs : map.getLsbD s = true) (rounds : ℕ) {i : ℕ}
    (hi : i ≤ s) (hrounds : s < i + rounds) : firstError map rounds i ≤ s := by
  induction rounds generalizing i with
  | zero => exact hi
  | succ rounds ih =>
    rw [firstError]
    split
    · exact hi
    · rename_i hnone
      have hne : i ≠ s := by
        rintro rfl
        exact hnone hs
      exact ih (by omega) (by omega)

/-- The last error lies in front of where the search starts. -/
theorem lastError_le (map : SectorMap) (i : ℕ) : lastError map i ≤ i := by
  induction i with
  | zero => exact Nat.le_refl _
  | succ i ih =>
    rw [lastError]
    split
    · exact Nat.le_refl _
    · exact Nat.le_succ_of_le ih

/-- A retry goes on in front of the cursors, and no soft error lies in front of that. -/
theorem Buffer.InProgress.findResumePoint {map : SectorMap} {buff : Buffer} (h : buff.InProgress map)
    (hpos : 0 < buff.sectorOffset) :
    findResumePoint buff ≤ buff.sectorOffset ∧
      ∀ s, buff.softErrorMap.getLsbD s = true → findResumePoint buff ≤ s := by
  have hsum := h.sectors
  have hmask : ∀ s, s < buff.sectorOffset →
      (if 32 ≤ buff.sectorOffset then 0xffffffff else offsetMask buff.sectorOffset : SectorMap).getLsbD s =
        true := by
    intro s hs
    split
    · have hones : ∀ s : Fin 32, (0xffffffff : SectorMap).getLsbD s = true := by decide
      exact hones ⟨s, by omega⟩
    · rw [getLsbD_offsetMask (by omega), decide_eq_true hs]
  rw [Isr.findResumePoint, if_neg (by omega)]
  dsimp only
  generalize (if 32 ≤ buff.sectorOffset then 0xffffffff else offsetMask buff.sectorOffset : SectorMap) = mask
    at hmask
  have hsoft : ∀ s, buff.softErrorMap.getLsbD s = true → (buff.softErrorMap &&& mask).getLsbD s = true := by
    intro s hs
    rw [BitVec.getLsbD_and, hs, hmask s (h.soft s hs).2, Bool.true_and]
  by_cases hnone : buff.softErrorMap &&& mask = 0
  · have hclear : ∀ s, buff.softErrorMap.getLsbD s ≠ true := by
      intro s hs
      have := hsoft s hs
      rw [hnone] at this
      simp at this
    rw [if_neg (not_not.mpr hnone)]
    refine ⟨?_, fun s hs => absurd hs (hclear s)⟩
    split
    · have := lastError_le (buff.hardErrorMap &&& mask) (buff.sectorOffset - 1)
      omega
    · omega
  · rw [if_pos hnone]
    have hfirst : ∀ s, (buff.softErrorMap &&& mask).getLsbD s = true →
        firstError (buff.softErrorMap &&& mask) 32 0 ≤ s :=
      fun s hs => firstError_le hs 32 (Nat.zero_le _) (by rw [Nat.zero_add]; exact BitVec.lt_of_getLsbD hs)
    refine ⟨?_, fun s hs => hfirst s (hsoft s hs)⟩
    obtain ⟨s, hs⟩ : ∃ s, (buff.softErrorMap &&& mask).getLsbD s = true := by
      by_contra hall
      apply hnone
      apply BitVec.eq_of_getLsbD_eq
      intro i _
      rw [Bool.eq_false_of_not_eq_true fun hi => hall ⟨i, hi⟩]
      simp
    rw [BitVec.getLsbD_and, Bool.and_eq_true] at hs
    have hle := hfirst s (by rw [BitVec.getLsbD_and, hs.1, hs.2]; rfl)
    exact Nat.le_of_lt (Nat.lt_of_le_of_lt hle (h.soft s hs.1).2)

end Ftape.Isr
