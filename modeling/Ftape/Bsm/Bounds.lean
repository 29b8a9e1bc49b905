import Ftape.Bsm.Update

/-!
# Accesses within the header

A list from tape may be in any order. Whatever it holds, lookups and updates stay inside the header
as long as the list is terminated in it: the list pointer never passes the terminator, and an update
exchanges one run of entries for another.
-/

namespace Ftape.Bsm

open Ftape.Algebra

/-- The position at which `forward_seek_entry()` stops in a list from tape. -/
def seekPosition (entries : List ℕ) (segment : ℕ) : ℕ :=
  (entries.takeWhile (cvt2segment · < segment)).length

/-- The entries that `forward_seek_entry()` finds for a segment, as it counts them. -/
def seekCount (fmt : FormatCode) (entries : List ℕ) (segment : ℕ) : ℕ :=
  match entries.drop (seekPosition entries segment) with
  | [] => 0
  | e :: rest =>
    if cvt2segment e ≠ segment then 0
    else if 0x800000 ≤ e ∧ fmt.flagged then ftSectorsPerSegment
    else 1 + (rest.takeWhile (cvt2segment · = segment)).length

/-- The entries that `ftape_put_bad_sector_entry()` exchanges. -/
def putCount (fmt : FormatCode) (entries : List ℕ) (segment : ℕ) : ℕ :=
  if fmt.flagged ∧ seekCount fmt entries segment = ftSectorsPerSegment then 1
  else seekCount fmt entries segment

/-- A list from tape after an update. -/
def exchange (fmt : FormatCode) (entries : List ℕ) (segment : ℕ) (map : SectorMap) : List ℕ :=
  entries.take (seekPosition entries segment) ++ segmentEntries fmt segment map ++
    entries.drop (seekPosition entries segment + putCount fmt entries segment)

section Seek

variable {fmt : FormatCode} {header : ℕ → Byte} {base segment : ℕ} {entries : List ℕ}

/-- The first loop of `forward_seek_entry()` skips the entries before the segment. -/
theorem Terminated.forwardSkip (h : Terminated header base entries) {rounds ptr : ℕ}
    (hptr : ptr ≤ entries.length) (hrounds : entries.length < rounds + ptr) :
    Bsm.forwardSkip header base segment rounds ptr =
      some (ptr + seekPosition (entries.drop ptr) segment,
        entries.getD (ptr + seekPosition (entries.drop ptr) segment) 0) := by
  induction rounds generalizing ptr with
  | zero => omega
  | succ rounds ih =>
    rw [Bsm.forwardSkip]
    cases Nat.lt_or_eq_of_le hptr with
    | inl hlt =>
      obtain ⟨hread, hne⟩ := h.getSector hlt
      rw [hread, Option.bind_eq_bind, Option.bind_some, seekPosition, List.drop_eq_getElem_cons hlt]
      by_cases hbefore : cvt2segment entries[ptr] < segment
      · rw [if_pos ⟨hne, hbefore⟩, ih hlt (by omega), List.takeWhile_cons_of_pos (by simpa using hbefore),
          List.length_cons, seekPosition]
        have hpos : ptr + 1 + ((entries.drop (ptr + 1)).takeWhile (cvt2segment · < segment)).length =
          ptr + (((entries.drop (ptr + 1)).takeWhile (cvt2segment · < segment)).length + 1) := by omega
        rw [hpos]
      · rw [if_neg fun hskip => hbefore hskip.2, List.takeWhile_cons_of_neg (by simpa using hbefore),
          List.length_nil, Nat.add_zero, List.getD_eq_getElem _ _ hlt]
    | inr heq =>
      subst heq
      simp [h.getSector_length, seekPosition]

/-- The second loop counts the entries of the segment that follow. -/
theorem Terminated.forwardCollect (h : Terminated header base entries) {rounds ptr : ℕ}
    (hptr : ptr ≤ entries.length) (hrounds : entries.length < rounds + ptr) (map : SectorMap)
    (count : ℕ) :
    ∃ map', Bsm.forwardCollect header base segment rounds ptr map count =
      some (map', count + ((entries.drop ptr).takeWhile (cvt2segment · = segment)).length) := by
  induction rounds generalizing ptr map count with
  | zero => omega
  | succ rounds ih =>
    rw [Bsm.forwardCollect]
    cases Nat.lt_or_eq_of_le hptr with
    | inl hlt =>
      obtain ⟨hread, hne⟩ := h.getSector hlt
      rw [hread, Option.bind_eq_bind, Option.bind_some, List.drop_eq_getElem_cons hlt]
      by_cases hsame : cvt2segment entries[ptr] = segment
      · obtain ⟨map', heq⟩ := ih hlt (by omega) (map ||| cvt2map entries[ptr]) (count + 1)
        rw [if_pos ⟨hne, hsame⟩, heq, List.takeWhile_cons_of_pos (by simpa using hsame),
          List.length_cons, Nat.add_assoc, Nat.add_comm 1]
        exact ⟨map', rfl⟩
      · rw [if_neg fun hrun => hsame hrun.2, List.takeWhile_cons_of_neg (by simpa using hsame)]
        exact ⟨map, rfl⟩
    | inr heq =>
      subst heq
      rw [h.getSector_length, List.drop_length]
      exact ⟨map, rfl⟩

/-- The position found is not past the terminator. -/
theorem seekPosition_le (entries : List ℕ) (segment : ℕ) :
    seekPosition entries segment ≤ entries.length := (List.takeWhile_prefix _).length_le

/-- `forward_seek_entry()` from anywhere in a terminated list. -/
theorem Terminated.forwardSeekEntry (h : Terminated header base entries) {ptr : ℕ}
    (hptr : ptr ≤ entries.length) :
    ∃ map, Bsm.forwardSeekEntry fmt header base segment ptr =
      some (ptr + seekPosition (entries.drop ptr) segment, map,
        seekCount fmt (entries.drop ptr) segment) := by
  have hlen := h.length_lt
  have hle := seekPosition_le (entries.drop ptr) segment
  rw [List.length_drop] at hle
  rw [Bsm.forwardSeekEntry, h.forwardSkip hptr (by omega), Option.bind_eq_bind, Option.bind_some]
  dsimp only
  rw [seekCount, List.drop_drop]
  have hpos : ptr + seekPosition (entries.drop ptr) segment ≤ entries.length := by omega
  generalize ptr + seekPosition (entries.drop ptr) segment = pos at hpos ⊢
  cases Nat.lt_or_eq_of_le hpos with
  | inl hlt =>
    rw [List.getD_eq_getElem _ _ hlt, List.drop_eq_getElem_cons hlt]
    have hne := (h.getSector hlt).2
    dsimp only
    by_cases hother : cvt2segment entries[pos] = segment
    · rw [if_neg (by simp [hne, hother]), if_neg (not_not.mpr hother)]
      split
      · exact ⟨emptySegment, rfl⟩
      · have hcollect : ∃ map, Bsm.forwardCollect header base segment ftSegmentSize (pos + 1)
            (cvt2map entries[pos]) 1 =
            some (map, 1 + ((entries.drop (pos + 1)).takeWhile (cvt2segment · = segment)).length) :=
          h.forwardCollect hlt (by omega) _ _
        obtain ⟨map, heq⟩ := hcollect
        rw [heq]
        exact ⟨map, rfl⟩
    · rw [if_pos (Or.inr hother), if_pos hother]
      exact ⟨0, rfl⟩
  | inr heq =>
    subst heq
    rw [List.getD_eq_default _ _ le_rfl, if_pos (Or.inl rfl), List.drop_length]
    exact ⟨0, rfl⟩

/-- The first loop of `backwards_seek_entry()` reads in front of its pointer. -/
theorem Terminated.backwardSkip (h : Terminated header base entries) {ptr : ℕ} (hpos : 0 < ptr)
    (hptr : ptr ≤ entries.length) :
    ∃ ptr' sector, Bsm.backwardSkip header base segment ptr = some (ptr', sector) ∧ ptr' < ptr := by
  induction ptr with
  | zero => omega
  | succ ptr ih =>
    rw [Bsm.backwardSkip, (h.getSector hptr).1, Option.bind_eq_bind, Option.bind_some]
    split
    · rename_i hskip
      obtain ⟨ptr', sector, heq, hlt⟩ := ih hskip.1 (Nat.le_of_succ_le hptr)
      exact ⟨ptr', sector, heq, Nat.lt_succ_of_lt hlt⟩
    · exact ⟨ptr, _, rfl, Nat.lt_succ_self ptr⟩

/-- So does the second loop. -/
theorem Terminated.backwardCollect (h : Terminated header base entries) {ptr : ℕ}
    (hptr : ptr ≤ entries.length) (map : SectorMap) (count : ℕ) :
    ∃ ptr' map' count', Bsm.backwardCollect header base segment ptr map count =
      some (ptr', map', count') ∧ ptr' ≤ ptr := by
  induction ptr generalizing map count with
  | zero => exact ⟨0, map, count, rfl, le_rfl⟩
  | succ ptr ih =>
    rw [Bsm.backwardCollect, (h.getSector hptr).1, Option.bind_eq_bind, Option.bind_some]
    split
    · refine ⟨_, _, _, rfl, ?_⟩
      split
      · exact le_rfl
      · exact Nat.le_succ ptr
    · obtain ⟨ptr', map', count', heq, hle⟩ := ih (Nat.le_of_succ_le hptr) _ _
      exact ⟨ptr', map', count', heq, Nat.le_succ_of_le hle⟩

/-- `backwards_seek_entry()` leaves the pointer where it was or in front. -/
theorem Terminated.backwardsSeekEntry (h : Terminated header base entries) {ptr : ℕ}
    (hptr : ptr ≤ entries.length) :
    ∃ ptr' map count, Bsm.backwardsSeekEntry fmt header base segment ptr = some (ptr', map, count) ∧
      ptr' ≤ ptr := by
  unfold Bsm.backwardsSeekEntry
  by_cases hzero : ptr = 0
  · rw [if_pos hzero]
    exact ⟨0, 0, 0, rfl, Nat.zero_le ptr⟩
  · obtain ⟨ptr', sector, heq, hlt⟩ := h.backwardSkip (Nat.pos_of_ne_zero hzero) hptr
    rw [if_neg hzero, heq, Option.bind_eq_bind, Option.bind_some]
    dsimp only
    split
    · exact ⟨_, _, _, rfl, hlt.le⟩
    · split
      · exact ⟨_, _, _, rfl, hlt⟩
      · split
        · exact ⟨_, _, _, rfl, hlt.le⟩
        · obtain ⟨ptr'', map, count, hcollect, hle⟩ :=
            h.backwardCollect (hlt.le.trans hptr) (cvt2map sector) 1
          exact ⟨ptr'', map, count, hcollect, hle.trans hlt.le⟩

end Seek

section Put

variable {fmt : FormatCode} {header : ℕ → Byte} {base segment : ℕ} {entries : List ℕ}

/-- The entries counted are there, or a flag stands for all sectors of the segment. -/
theorem seekCount_cases (fmt : FormatCode) (entries : List ℕ) (segment : ℕ) :
    seekPosition entries segment + seekCount fmt entries segment ≤ entries.length ∨
      (seekPosition entries segment + 1 ≤ entries.length ∧ fmt.flagged ∧
        seekCount fmt entries segment = ftSectorsPerSegment) := by
  have hle := seekPosition_le entries segment
  have hlen : (entries.drop (seekPosition entries segment)).length =
      entries.length - seekPosition entries segment := List.length_drop
  unfold seekCount
  cases hdrop : entries.drop (seekPosition entries segment) with
  | nil => exact Or.inl hle
  | cons e rest =>
    rw [hdrop, List.length_cons] at hlen
    have hrun : (rest.takeWhile (cvt2segment · = segment)).length ≤ rest.length :=
      (List.takeWhile_prefix _).length_le
    dsimp only
    by_cases hsame : cvt2segment e = segment
    · rw [if_neg (not_not.mpr hsame)]
      by_cases hflag : 0x800000 ≤ e ∧ fmt.flagged
      · rw [if_pos hflag]
        exact Or.inr ⟨by omega, hflag.2, rfl⟩
      · rw [if_neg hflag]
        exact Or.inl (by omega)
    · rw [if_pos hsame]
      exact Or.inl hle

/-- The entries to exchange are there. -/
theorem putCount_le (fmt : FormatCode) (entries : List ℕ) (segment : ℕ) :
    seekPosition entries segment + putCount fmt entries segment ≤ entries.length := by
  unfold putCount
  cases seekCount_cases fmt entries segment with
  | inl hle =>
    by_cases hfull : fmt.flagged ∧ seekCount fmt entries segment = ftSectorsPerSegment
    · have hone : 1 ≤ seekCount fmt entries segment := hfull.2 ▸ (by decide : 1 ≤ ftSectorsPerSegment)
      rw [if_pos hfull]
      omega
    · rwa [if_neg hfull]
  | inr hflag =>
    rw [if_pos ⟨hflag.2.1, hflag.2.2⟩]
    exact hflag.1

/-- The number of entries after an update. -/
theorem length_exchange (fmt : FormatCode) (entries : List ℕ) (segment : ℕ) (map : SectorMap) :
    (exchange fmt entries segment map).length =
      seekPosition entries segment + (segmentEntries fmt segment map).length +
        (entries.length - (seekPosition entries segment + putCount fmt entries segment)) := by
  rw [exchange, List.length_append, List.length_append, List.length_take, List.length_drop,
    Nat.min_eq_left (seekPosition_le entries segment)]

/-- Entries written for a segment are not the terminator. -/
theorem segmentEntries_ne_zero (fmt : FormatCode) (segment : ℕ) (map : SectorMap) :
    ∀ e ∈ segmentEntries fmt segment map, e ≠ 0 := by
  unfold segmentEntries sectorAddresses
  intro e he
  split at he
  · rw [List.mem_singleton.mp he]
    omega
  · obtain ⟨i, -, rfl⟩ := List.mem_map.mp he
    omega

/-- `ftape_put_bad_sector_entry()` stores the list with the run of the segment exchanged, if it still
fits into the header. -/
theorem Terminated.put {ftape : FtapeInfo} (hlisted : ftape.formatCode.listed = true)
    (hbase : ftape.badSectorMap = some base) (h : Terminated ftape.header base entries)
    (hseg : segment < 0x40000) (map : SectorMap)
    (hroom : base + 3 * ((exchange ftape.formatCode entries segment map).length + 1) ≤ ftSegmentSize)
    (bigEndian : Bool) :
    ∃ header', ftapePutBadSectorEntry bigEndian ftape segment map =
        some { ftape with
          lastReference := segment
          map := map
          header := header'
          bsmHashPtr := some (seekPosition entries segment) } ∧
      Terminated header' base (exchange ftape.formatCode entries segment map) := by
  have hlen := length_exchange ftape.formatCode entries segment map
  have hcount := putCount_le ftape.formatCode entries segment
  have hle := seekPosition_le entries segment
  rw [hlen] at hroom
  obtain ⟨header₁, hresize, hback, hfront, -⟩ := h.resizeRun (seekPosition entries segment)
    (putCount ftape.formatCode entries segment) (segmentEntries ftape.formatCode segment map).length
    hcount hroom
  obtain ⟨header₂, hwrite, hwrote⟩ := writeRun_wrote header₁ hseg map (seekPosition entries segment)
    (show base + 3 * (seekPosition entries segment +
      (segmentEntries ftape.formatCode segment map).length) ≤ ftSegmentSize by omega)
  have hseek : ∃ found, Bsm.forwardSeekEntry ftape.formatCode ftape.header base segment 0 =
      some (0 + seekPosition (entries.drop 0) segment, found,
        seekCount ftape.formatCode (entries.drop 0) segment) :=
    h.forwardSeekEntry (Nat.zero_le entries.length)
  obtain ⟨found, hseek⟩ := hseek
  rw [List.drop_zero, Nat.zero_add] at hseek
  refine ⟨header₂, ?_, fun k hk => ?_, fun e he => ?_⟩
  · unfold ftapePutBadSectorEntry
    rw [hbase, Option.bind_eq_bind, Option.bind_some]
    dsimp only
    rw [if_pos hlisted, hseek]
    simp only [Option.bind_eq_bind, Option.bind_some]
    rw [length_segmentEntries ftape.formatCode segment map, ← putCount, hresize, Option.bind_some,
      hwrite, Option.bind_some]
  · have hbelow : (entries.take (seekPosition entries segment)).length = seekPosition entries segment :=
      by rw [List.length_take, Nat.min_eq_left hle]
    rw [hlen] at hk
    cases Nat.lt_or_ge k (seekPosition entries segment) with
    | inl hlow =>
      rw [hwrote.others k (Or.inl hlow), hfront k hlow, exchange, List.append_assoc,
        List.getD_append _ _ _ _ (by rwa [hbelow])]
      simp only [List.getD_eq_getElem?_getD, List.getElem?_take_of_lt hlow]
    | inr hhigh =>
      obtain ⟨j, rfl⟩ := Nat.exists_eq_add_of_le hhigh
      rw [exchange, List.append_assoc, List.getD_append_right _ _ _ _ (by omega), hbelow,
        Nat.add_sub_cancel_left]
      cases Nat.lt_or_ge j (segmentEntries ftape.formatCode segment map).length with
      | inl hrun => rw [hwrote.reads j hrun, List.getD_append _ _ _ _ hrun]
      | inr hpast =>
        obtain ⟨i, rfl⟩ := Nat.exists_eq_add_of_le hpast
        rw [hwrote.others _ (Or.inr (by omega)), ← Nat.add_assoc, hback i (by omega),
          List.getD_append_right _ _ _ _ hpast, Nat.add_sub_cancel_left]
        simp only [List.getD_eq_getElem?_getD, List.getElem?_drop]
  · rw [exchange, List.mem_append, List.mem_append] at he
    cases he with
    | inl he =>
      cases he with
      | inl he => exact h.nonzero e (List.mem_of_mem_take he)
      | inr he => exact segmentEntries_ne_zero ftape.formatCode segment map e he
    | inr he => exact h.nonzero e (List.mem_of_mem_drop he)

end Put

section Runs

/-- The driver state refers to a list that ends in its header. -/
structure Bounded (ftape : FtapeInfo) (entries : List ℕ) : Prop where
  listed : ftape.formatCode.listed = true
  base : ftape.badSectorMap = some (bsmOffset ftape.formatCode)
  terminated : Terminated ftape.header (bsmOffset ftape.formatCode) entries
  pointer : ∃ ptr ≤ entries.length, ftape.bsmHashPtr = some ptr

/-- The driver state refers to an array of maps. -/
structure Arrayed (ftape : FtapeInfo) : Prop where
  unlisted : ftape.formatCode.listed = false
  base : ftape.badSectorMap = some (bsmOffset ftape.formatCode)
  pointer : ftape.bsmHashPtr = none

variable {ftape : FtapeInfo} {entries : List ℕ}

/-- A seek ends within the list. -/
theorem Bounded.seekEntry (h : Bounded ftape entries) {ptr : ℕ} (hptr : ptr ≤ entries.length)
    (segment : ℕ) :
    ∃ ptr' map count, Bsm.seekEntry ftape (bsmOffset ftape.formatCode) segment ptr =
      some (ptr', map, count) ∧ ptr' ≤ entries.length := by
  unfold Bsm.seekEntry
  split
  · have hseek : ∃ map, forwardSeekEntry ftape.formatCode ftape.header (bsmOffset ftape.formatCode)
        segment ptr = some (ptr + seekPosition (entries.drop ptr) segment, map,
          seekCount ftape.formatCode (entries.drop ptr) segment) := h.terminated.forwardSeekEntry hptr
    obtain ⟨map, heq⟩ := hseek
    have hle := seekPosition_le (entries.drop ptr) segment
    rw [List.length_drop] at hle
    exact ⟨_, map, _, heq, by omega⟩
  · split
    · obtain ⟨ptr', map, count, heq, hle⟩ := h.terminated.backwardsSeekEntry hptr
      exact ⟨ptr', map, count, heq, hle.trans hptr⟩
    · exact ⟨ptr, ftape.map, 0, rfl, hptr⟩

/-- A lookup stays within the list. -/
theorem Bounded.get (h : Bounded ftape entries) (bigEndian : Bool) (segment : ℕ) :
    ∃ map ftape', ftapeGetBadSectorEntry bigEndian ftape segment = some (map, ftape') ∧
      Bounded ftape' entries ∧ ftape'.formatCode = ftape.formatCode := by
  unfold ftapeGetBadSectorEntry
  by_cases hblank : ftape.usedHeaderSegment = -1
  · rw [if_pos hblank]
    exact ⟨0, ftape, rfl, h, rfl⟩
  · obtain ⟨ptr, hptr, hpointer⟩ := h.pointer
    obtain ⟨ptr', map, count, hseek, hptr'⟩ := h.seekEntry hptr segment
    rw [if_neg hblank, h.base, Option.bind_eq_bind, Option.bind_some, hpointer]
    dsimp only
    rw [hseek, Option.bind_eq_bind, Option.bind_some]
    exact ⟨_, _, rfl, ⟨h.listed, rfl, h.terminated, ptr', hptr', rfl⟩, rfl⟩

/-- An update stays within the header if the new list does. -/
theorem Bounded.put (h : Bounded ftape entries) {segment : ℕ} (hseg : segment < 0x40000)
    (map : SectorMap)
    (hroom : bsmOffset ftape.formatCode +
      3 * ((exchange ftape.formatCode entries segment map).length + 1) ≤ ftSegmentSize)
    (bigEndian : Bool) :
    ∃ ftape', ftapePutBadSectorEntry bigEndian ftape segment map = some ftape' ∧
      Bounded ftape' (exchange ftape.formatCode entries segment map) ∧
      ftape'.formatCode = ftape.formatCode := by
  obtain ⟨header', hput, hterminated⟩ :=
    h.terminated.put h.listed h.base hseg map hroom bigEndian
  refine ⟨_, hput, ⟨h.listed, h.base, hterminated, _, ?_, rfl⟩, rfl⟩
  rw [length_exchange]
  omega

/-- After each update of some requests the list with its terminator fits into the header. -/
def ListFits (fmt : FormatCode) : List ℕ → List Request → Prop
  | _, [] => True
  | entries, .get _ :: rest => ListFits fmt entries rest
  | entries, .put segment map :: rest =>
    bsmOffset fmt + 3 * ((exchange fmt entries segment map).length + 1) ≤ ftSegmentSize ∧
      ListFits fmt (exchange fmt entries segment map) rest

/-- Requests whose updates fit stay within the header. -/
theorem Bounded.execute (h : Bounded ftape entries) (bigEndian : Bool) {requests : List Request}
    (hsegments : ∀ request ∈ requests, request.segment < 0x40000)
    (hfits : ListFits ftape.formatCode entries requests) :
    (Bsm.execute bigEndian ftape requests).isSome := by
  induction requests generalizing ftape entries with
  | nil => rfl
  | cons request rest ih =>
    have hrest : ∀ request ∈ rest, request.segment < 0x40000 :=
      fun request hmem => hsegments request (List.mem_cons_of_mem _ hmem)
    cases request with
    | get segment =>
      obtain ⟨map, ftape', hget, hbounded, hfmt⟩ := h.get bigEndian segment
      have hrun := ih hbounded hrest (hfmt ▸ hfits)
      obtain ⟨result, hresult⟩ := Option.isSome_iff_exists.mp hrun
      rw [Bsm.execute, hget, Option.bind_eq_bind, Option.bind_some]
      dsimp only
      rw [hresult]
      rfl
    | put segment map =>
      have hseg : segment < 0x40000 := hsegments (.put segment map) List.mem_cons_self
      obtain ⟨ftape', hput, hbounded, hfmt⟩ := h.put hseg map hfits.1 bigEndian
      rw [Bsm.execute, hput, Option.bind_eq_bind, Option.bind_some]
      exact ih hbounded hrest (hfmt ▸ hfits.2)

/-- The segments that an array of maps has room for. -/
def arraySegments : ℕ := (ftSegmentSize - (ftFsl + ftFslSize)) / 4

/-- The map of a segment of the array is in the header. -/
theorem Arrayed.room (h : Arrayed ftape) {segment : ℕ} (hsegment : segment < arraySegments) :
    bsmOffset ftape.formatCode + 4 * segment + 4 ≤ ftSegmentSize := by
  have hflag : ftape.formatCode.flagged = false := by
    have hunlisted := h.unlisted
    revert hunlisted
    cases ftape.formatCode <;> decide
  have hbase : bsmOffset ftape.formatCode = ftFsl + ftFslSize := by
    rw [bsmOffset, hflag]
    rfl
  rw [arraySegments] at hsegment
  omega

/-- Requests for the segments of the array stay within the header. -/
theorem Arrayed.execute (h : Arrayed ftape) (bigEndian : Bool) {requests : List Request}
    (hsegments : ∀ request ∈ requests, request.segment < arraySegments) :
    (Bsm.execute bigEndian ftape requests).isSome := by
  induction requests generalizing ftape with
  | nil => rfl
  | cons request rest ih =>
    have hrest : ∀ request ∈ rest, request.segment < arraySegments :=
      fun request hmem => hsegments request (List.mem_cons_of_mem _ hmem)
    cases request with
    | get segment =>
      have hsegment : segment < arraySegments := hsegments (.get segment) List.mem_cons_self
      have hroom := h.room hsegment
      have hget : ∃ map, ftapeGetBadSectorEntry bigEndian ftape segment = some (map, ftape) := by
        unfold ftapeGetBadSectorEntry
        split
        · exact ⟨0, rfl⟩
        · rw [h.base, Option.bind_eq_bind, Option.bind_some, h.pointer]
          dsimp only
          rw [loadSectorMap, if_pos hroom]
          exact ⟨_, rfl⟩
      obtain ⟨map, hget⟩ := hget
      obtain ⟨result, hresult⟩ := Option.isSome_iff_exists.mp (ih h hrest)
      rw [Bsm.execute, hget, Option.bind_eq_bind, Option.bind_some]
      dsimp only
      rw [hresult]
      rfl
    | put segment map =>
      have hsegment : segment < arraySegments := hsegments (.put segment map) List.mem_cons_self
      have hroom := h.room hsegment
      have hput : ∃ header', ftapePutBadSectorEntry bigEndian ftape segment map =
          some { ftape with lastReference := segment, map := map, header := header' } := by
        unfold ftapePutBadSectorEntry
        rw [h.base, Option.bind_eq_bind, Option.bind_some]
        dsimp only
        rw [if_neg (by rw [h.unlisted]; exact Bool.false_ne_true), storeSectorMap, if_pos hroom]
        exact ⟨_, rfl⟩
      obtain ⟨header', hput⟩ := hput
      rw [Bsm.execute, hput, Option.bind_eq_bind, Option.bind_some]
      exact ih ⟨h.unlisted, h.base, h.pointer⟩ hrest

end Runs

end Ftape.Bsm
