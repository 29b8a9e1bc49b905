import Ftape.Volume.EofMap

/-!
# Reading the marks of an old tape again

The volume table of an old tape is made up from its file marks each time it is read. The marks of
version 1 have their fields exchanged in the header segment itself, so that the next time finds them
exchanged already.
-/

namespace Ftape.Volume

open Ftape.Algebra Ftape.Bsm

section Routines

variable (cartridge : Cartridge)

/-- `zft_read_volume_table()` of an old tape. -/
def OldTape.zftReadVolumeTable (noise : Bool) (zftape : OldTape) : EofRoutine (Vtbl × OldTape) := do
  let zftape ← zftFtapeExtractFileMarks cartridge noise zftape
  let table ← fakeFromEofMap cartridge zftape zftape.nrEofMarks
  pure (table, zftape)

/-- The volumes of each time that the table is read, for the trace level of each time. -/
def rereadVolumeTable : List Bool → OldTape → EofRoutine (List (List VtblEntry))
  | [], _ => pure []
  | noise :: noises, zftape => do
    let (table, zftape) ← zftape.zftReadVolumeTable cartridge noise
    let tables ← rereadVolumeTable noises zftape
    pure (table.volumes :: tables)

/-- However often the table is read, the volumes are the same. -/
def RereadsSame (zftape : OldTape) : Prop :=
  ∃ volumes, ∀ noises, (rereadVolumeTable cartridge noises zftape).result =
    .ok (List.replicate noises.length volumes)

/-- The first and the second field of a mark. -/
def markAt (buffer : ℕ → Byte) (start i : ℕ) : ℕ × ℕ :=
  (fetch cartridge.bigEndian buffer (start + 4 * i) 2,
    fetch cartridge.bigEndian buffer (start + (4 * i + 2)) 2)

/-- The marks of a list. -/
def marksIn (buffer : ℕ → Byte) (start nr : ℕ) : List (ℕ × ℕ) :=
  (List.range nr).map (markAt cartridge buffer start)

/-- The header segment has a list of `nr` marks at `start`. The formats without a failed sector log have
it behind the bad sector list, if it is not longer than the log. -/
def HasMarks (buffer : ℕ → Byte) (start nr : ℕ) : Prop :=
  if cartridge.formatCode = .fmtVar ∨ cartridge.formatCode = .fmtBig then
    ∃ bsmCount, ZeroEnded buffer 3 ftHeaderEnd bsmCount ∧ start = ftHeaderEnd + 3 * bsmCount + 3 ∧
      ZeroEnded buffer 4 start nr ∧ 4 * nr ≤ ftFslSize
  else start = ftFsl ∧ nr = fetch cartridge.bigEndian buffer ftFslCnt 2

end Routines

section Search

/-- A list that the header segment contains is found. -/
theorem ZeroEnded.findZeroes {buffer : ℕ → Byte} {size ptr count rounds : ℕ} (hsize : 0 < size)
    (h : ZeroEnded buffer size ptr count) (hrounds : count < rounds) :
    findZeroes buffer size rounds ptr = some (ptr + size * count) := by
  induction rounds generalizing ptr count with
  | zero => exact absurd hrounds (Nat.not_lt_zero count)
  | succ rounds ih =>
    have hinside := h.inside
    have hspan : size ≤ size * count + size := Nat.le_add_left size _
    rw [Volume.findZeroes, if_pos (by omega)]
    cases count with
    | zero => rw [if_pos (by simpa using h.terminator), Nat.mul_zero, Nat.add_zero]
    | succ count =>
      have hstep (i : ℕ) : ptr + size + size * i = ptr + size * (i + 1) := by
        rw [Nat.mul_succ]
        omega
      have htail : ZeroEnded buffer size (ptr + size) count := by
        refine ⟨fun i hi => ?_, ?_, ?_⟩
        · rw [hstep]
          exact h.entries (i + 1) (by omega)
        · rw [hstep]
          exact h.terminator
        · rw [hstep]
          exact hinside
      have hfirst := h.entries 0 (Nat.succ_pos count)
      rw [Nat.mul_zero, Nat.add_zero] at hfirst
      rw [if_neg (by rw [hfirst]; decide), ih htail (by omega), hstep]

/-- A list has fewer entries than the header segment bytes. -/
theorem ZeroEnded.count_lt {buffer : ℕ → Byte} {size ptr count : ℕ} (hsize : 0 < size)
    (h : ZeroEnded buffer size ptr count) : count < ftSegmentSize := by
  have hinside := h.inside
  have hspan : count ≤ size * count := Nat.le_mul_of_pos_left count hsize
  omega

variable {cartridge : Cartridge} {zftape : OldTape} {start nr : ℕ}

/-- The marks that the header segment has are the ones that are located. -/
theorem HasMarks.locate (h : HasMarks cartridge zftape.hsegBuf start nr) :
    locateFileMarks cartridge zftape = { zftape with eofMap := some start, nrEofMarks := nr } := by
  rw [HasMarks] at h
  rw [locateFileMarks]
  split
  next hlist =>
    rw [if_pos hlist] at h
    obtain ⟨bsmCount, hbsm, hstart, hmarks, hsize⟩ := h
    have hbsmEnd := hbsm.findZeroes (by decide) (hbsm.count_lt (by decide))
    have heofEnd := hmarks.findZeroes (by decide) (hmarks.count_lt (by decide))
    have hlength : start + 4 * nr - start = 4 * nr := by omega
    simp only [ftapeFindEndOfBsmList, hbsmEnd, findEndOfEofList, ← hstart, heofEnd, hlength, if_pos hsize,
      Nat.mul_div_cancel_left nr (by decide : 0 < 4)]
  next hlist =>
    rw [if_neg hlist] at h
    rw [h.1, h.2]

/-- The header segment has one list. -/
theorem HasMarks.unique {buffer : ℕ → Byte} {start' nr' : ℕ} (h : HasMarks cartridge buffer start nr)
    (h' : HasMarks cartridge buffer start' nr') : start' = start ∧ nr' = nr := by
  have hlocate := @HasMarks.locate cartridge ⟨buffer, 0, none, 0, false, false⟩ start nr h
  have hlocate' := @HasMarks.locate cartridge ⟨buffer, 0, none, 0, false, false⟩ start' nr' h'
  rw [hlocate, OldTape.mk.injEq] at hlocate'
  exact ⟨(Option.some.inj hlocate'.2.2.1).symm, hlocate'.2.2.2.1.symm⟩

/-- Without a list there are no marks. -/
theorem locateFileMarks_of_not_hasMarks (h : ∀ start nr, ¬HasMarks cartridge zftape.hsegBuf start nr) :
    locateFileMarks cartridge zftape = { zftape with eofMap := none, nrEofMarks := 0 } := by
  by_cases hlist : cartridge.formatCode = .fmtVar ∨ cartridge.formatCode = .fmtBig
  · rw [locateFileMarks, if_pos hlist]
    dsimp only
    cases hbsm : ftapeFindEndOfBsmList zftape.hsegBuf with
    | none => rfl
    | some bsmEnd =>
      dsimp only
      cases heof : findEndOfEofList zftape.hsegBuf (bsmEnd + 3) with
      | none => rfl
      | some eofEnd =>
        dsimp only
        split
        next hfits =>
          obtain ⟨bsmCount, hbsmEnd, hbsmList⟩ := findZeroes_eq_some (by decide) hbsm
          obtain ⟨count, heofEnd, heofList⟩ := findZeroes_eq_some (by decide) heof
          refine absurd ?_ (h (bsmEnd + 3) count)
          rw [HasMarks, if_pos hlist]
          exact ⟨bsmCount, hbsmList, by rw [hbsmEnd], heofList, by omega⟩
        next => rfl
  · refine absurd ?_ (h ftFsl (fetch cartridge.bigEndian zftape.hsegBuf ftFslCnt 2))
    rw [HasMarks, if_neg hlist]
    exact ⟨rfl, rfl⟩

end Search

section Swapping

variable {cartridge : Cartridge} {zftape : OldTape} {start : ℕ}

/-- A field of a map that is there. -/
theorem OldTape.get2_result (hmap : zftape.eofMap = some start) (offset : ℕ) :
    (zftape.get2 cartridge offset).result =
      .ok (fetch cartridge.bigEndian zftape.hsegBuf (start + offset) 2) := by
  rw [OldTape.get2, hmap]
  rfl

/-- A field of a map that is there is written. -/
theorem OldTape.put2_result (hmap : zftape.eofMap = some start) (offset value : ℕ) :
    (zftape.put2 cartridge offset value).result = .ok { zftape with
      hsegBuf := store cartridge.bigEndian zftape.hsegBuf (start + offset) 2 value } := by
  rw [OldTape.put2, hmap]
  rfl

/-- The fields of `count` entries from entry `first` on are exchanged, and nothing else. -/
structure Swapped (cartridge : Cartridge) (start first count : ℕ) (buffer buffer' : ℕ → Byte) : Prop where
  marks : ∀ i, first ≤ i → i < first + count →
    markAt cartridge buffer' start i = (markAt cartridge buffer start i).swap
  outside : ∀ k, k < start + 4 * first ∨ start + 4 * (first + count) ≤ k → buffer' k = buffer k

/-- Fields in bytes that are the same have the same values. -/
theorem markAt_congr {buffer buffer' : ℕ → Byte} {i : ℕ}
    (h : ∀ k, start + 4 * i ≤ k → k < start + 4 * i + 4 → buffer k = buffer' k) :
    markAt cartridge buffer start i = markAt cartridge buffer' start i := by
  rw [markAt, markAt, fetch_congr fun k hk hk' => h k hk (by omega),
    fetch_congr (a := start + (4 * i + 2)) fun k hk hk' => h k (by omega) (by omega)]

/-- What one round of the loop leaves in the buffer. -/
def swapMark (cartridge : Cartridge) (buffer : ℕ → Byte) (start i : ℕ) : ℕ → Byte :=
  store cartridge.bigEndian
    (store cartridge.bigEndian buffer (start + 4 * i) 2 (markAt cartridge buffer start i).2)
    (start + (4 * i + 2)) 2 (markAt cartridge buffer start i).1

/-- The fields of one entry are exchanged. -/
theorem swapped_one (buffer : ℕ → Byte) (first : ℕ) :
    Swapped cartridge start first 1 buffer (swapMark cartridge buffer start first) := by
  rw [swapMark]
  constructor
  · intro i hi hi'
    obtain rfl : i = first := by omega
    have hsecond : (markAt cartridge buffer start i).1 < 256 ^ 2 := fetch_lt _ _ _ _
    have hfirst : (markAt cartridge buffer start i).2 < 256 ^ 2 := fetch_lt _ _ _ _
    rw [markAt, fetch_store _ _ _ _ hsecond, fetch_congr fun k _ hk =>
      store_of_outside cartridge.bigEndian _ _ (.inl (by omega)), fetch_store _ _ _ _ hfirst]
    rfl
  · intro k hk
    rw [store_of_outside _ _ _ (by omega), store_of_outside _ _ _ (by omega)]

/-- Entries that are exchanged one after the other. -/
theorem Swapped.append {first count more : ℕ} {buffer middle buffer' : ℕ → Byte}
    (h : Swapped cartridge start first count buffer middle)
    (hmore : Swapped cartridge start (first + count) more middle buffer') :
    Swapped cartridge start first (count + more) buffer buffer' := by
  constructor
  · intro i hi hi'
    by_cases hlow : i < first + count
    · rw [← h.marks i hi hlow]
      exact markAt_congr fun k _ hk => hmore.outside k (.inl (by omega))
    · rw [hmore.marks i (by omega) (by omega)]
      congr 1
      exact markAt_congr fun k hk _ => h.outside k (.inr (by omega))
  · intro k hk
    rw [hmore.outside k (by omega), h.outside k (by omega)]

/-- The loop exchanges the fields of its entries. -/
theorem swapLoop_swapped (hmap : zftape.eofMap = some start) (count first : ℕ) :
    ∃ buffer', (swapLoop cartridge count first zftape).result =
        .ok { zftape with hsegBuf := buffer' } ∧
      Swapped cartridge start first count zftape.hsegBuf buffer' := by
  induction count generalizing zftape first with
  | zero => exact ⟨zftape.hsegBuf, rfl, fun i hi hi' => by omega, fun _ _ => rfl⟩
  | succ count ih =>
    have hone := @swapped_one cartridge start zftape.hsegBuf first
    rw [swapLoop, OldTape.segment, OldTape.date, Recorded.result_bind (OldTape.get2_result hmap _),
      Recorded.result_bind (OldTape.get2_result hmap _), Recorded.result_bind (OldTape.put2_result hmap _ _),
      Recorded.result_bind (OldTape.put2_result (by exact hmap) _ _)]
    obtain ⟨buffer', hresult, hswapped⟩ :=
      @ih { zftape with hsegBuf := swapMark cartridge zftape.hsegBuf start first } hmap (first + 1)
    refine ⟨buffer', hresult, ?_⟩
    rw [Nat.add_comm count 1]
    exact hone.append hswapped

/-- A number of two bytes is zero if both of them are. -/
theorem fetch_eq_zero_iff (bigEndian : Bool) (buffer : ℕ → Byte) (a : ℕ) :
    fetch bigEndian buffer a 2 = 0 ↔ buffer a = 0 ∧ buffer (a + 1) = 0 := by
  have hzero (byte : Byte) : byte.toNat = 0 ↔ byte = 0 := by
    rw [BitVec.toNat_eq]
    rfl
  cases bigEndian <;> simp [fetch, ofBytes, byteAt, hzero, and_comm]

/-- An entry of zeroes is a mark of zeroes. -/
theorem hasText_zeroes_iff (cartridge : Cartridge) (buffer : ℕ → Byte) (i : ℕ) :
    hasText buffer (start + 4 * i) (List.replicate 4 0) = true ↔
      markAt cartridge buffer start i = (0, 0) := by
  rw [markAt, Prod.mk.injEq, fetch_eq_zero_iff, fetch_eq_zero_iff, hasText, window]
  simp [List.range_succ, Nat.add_assoc, and_assoc]

/-- The entries that are exchanged are as many as before. -/
theorem Swapped.hasMarks {nr : ℕ} {buffer buffer' : ℕ → Byte}
    (h : Swapped cartridge start 0 nr buffer buffer') (hmarks : HasMarks cartridge buffer start nr) :
    HasMarks cartridge buffer' start nr := by
  rw [HasMarks] at hmarks ⊢
  split at hmarks
  next hlist =>
    rw [if_pos hlist]
    obtain ⟨bsmCount, hbsm, hstart, heof, hsize⟩ := hmarks
    refine ⟨bsmCount, ⟨fun i hi => ?_, ?_, hbsm.inside⟩, hstart, ⟨fun i hi => ?_, ?_, heof.inside⟩, hsize⟩
    · rw [← hbsm.entries i hi]
      refine hasText_congr fun k hk => h.outside _ (.inl ?_)
      have := Nat.mul_le_mul_left 3 hi
      simp only [List.length_replicate] at hk
      omega
    · rw [← hbsm.terminator]
      refine hasText_congr fun k hk => h.outside _ (.inl ?_)
      simp only [List.length_replicate] at hk
      omega
    · have hentry := heof.entries i hi
      rw [← Bool.not_eq_true, hasText_zeroes_iff cartridge] at hentry ⊢
      rw [h.marks i (Nat.zero_le i) (by omega)]
      intro hzero
      exact hentry (Prod.swap_eq_iff_eq_swap.mp hzero)
    · rw [← heof.terminator]
      exact hasText_congr fun k _ => h.outside _ (.inr (by omega))
  next hlist =>
    rw [if_neg hlist]
    obtain ⟨hstart, hnr⟩ := hmarks
    refine ⟨hstart, ?_⟩
    rw [hnr]
    refine fetch_congr fun k _ hk => (h.outside k (.inl ?_)).symm
    rw [hstart]
    exact hk.trans (by decide)

/-- The list holds the same marks with their fields exchanged. -/
theorem Swapped.marksIn {nr : ℕ} {buffer buffer' : ℕ → Byte}
    (h : Swapped cartridge start 0 nr buffer buffer') :
    marksIn cartridge buffer' start nr = (marksIn cartridge buffer start nr).map Prod.swap := by
  rw [Volume.marksIn, Volume.marksIn, List.map_map]
  refine List.map_congr_left fun i hi => ?_
  exact h.marks i (Nat.zero_le i) (by simpa using List.mem_range.mp hi)

end Swapping

section Reading

variable {cartridge : Cartridge} {zftape : OldTape} {start nr : ℕ}

/-- The marks are printed. -/
theorem traceFileMarks_result (noise : Bool) (hmap : zftape.nrEofMarks = 0 ∨ zftape.eofMap = some start) :
    (traceFileMarks cartridge noise zftape).result = .ok () := by
  have hloop (hmap : zftape.eofMap = some start) (rounds i : ℕ) :
      (traceLoop cartridge zftape rounds i).result = .ok () := by
    induction rounds generalizing i with
    | zero => rfl
    | succ rounds ih =>
      rw [traceLoop, OldTape.segment, OldTape.date, Recorded.result_bind (OldTape.get2_result hmap _),
        Recorded.result_bind (OldTape.get2_result hmap _), ih]
  rw [traceFileMarks]
  split
  · rcases hmap with hnone | hsome
    · rw [hnone]
      rfl
    · exact hloop hsome _ _
  · rfl

/-- The marks from one on are read. -/
theorem markLoop_result (hmap : zftape.eofMap = some start) (rounds volNo : ℕ) :
    (markLoop cartridge zftape rounds volNo).result =
      .ok ((List.range' volNo rounds).map (markAt cartridge zftape.hsegBuf start)) := by
  induction rounds generalizing volNo with
  | zero => rfl
  | succ rounds ih =>
    rw [markLoop, OldTape.segment, OldTape.date, Recorded.result_bind (OldTape.get2_result hmap _),
      Recorded.result_bind (OldTape.get2_result hmap _), Recorded.result_bind (ih (volNo + 1))]
    rfl

/-- The last mark is split off, or not. -/
theorem eomMark_result (hmap : zftape.eofMap = some start) (nr : ℕ) :
    (eomMark cartridge zftape nr).result = .ok [] ∨ 2 ≤ nr ∧
      (eomMark cartridge zftape nr).result = .ok [markAt cartridge zftape.hsegBuf start (nr - 1)] := by
  rw [eomMark]
  split
  next htwo =>
    rw [OldTape.segment, OldTape.segment, OldTape.date, Recorded.result_bind (OldTape.get2_result hmap _),
      Recorded.result_bind (OldTape.get2_result hmap _)]
    split
    next =>
      rw [Recorded.result_bind (OldTape.get2_result hmap _)]
      split
      · exact .inr ⟨htwo, rfl⟩
      · exact .inl rfl
    next => exact .inl rfl
  next => exact .inl rfl

/-- The volumes are made up from all the marks. -/
theorem fakeFromEofMap_result (hmap : zftape.eofMap = some start) (nr : ℕ) :
    (fakeFromEofMap cartridge zftape nr).result =
      .ok (zftFakeVolumeHeaders cartridge (marksIn cartridge zftape.hsegBuf start nr)) := by
  rw [fakeFromEofMap]
  rcases eomMark_result hmap nr with heom | ⟨htwo, heom⟩
  · rw [Recorded.result_bind heom, Recorded.result_bind (markLoop_result hmap _ _), List.append_nil,
      marksIn, List.range_eq_range']
    rfl
  · rw [Recorded.result_bind heom, Recorded.result_bind (markLoop_result hmap _ _), marksIn]
    obtain ⟨nr, rfl⟩ : ∃ nr', nr = nr' + 1 := ⟨nr - 1, by omega⟩
    rw [List.range_succ, List.map_append, List.range_eq_range']
    rfl

/-- Reading the table once: the marks of version 1 are exchanged, then the volumes are made up. -/
theorem HasMarks.read (h : HasMarks cartridge zftape.hsegBuf start nr) (noise : Bool) :
    ∃ buffer', (zftape.zftReadVolumeTable cartridge noise).result =
        .ok (zftFakeVolumeHeaders cartridge (marksIn cartridge buffer' start nr),
          { zftape with hsegBuf := buffer', eofMap := some start, nrEofMarks := nr }) ∧
      if zftape.ftapeFmtVersion = 1 then Swapped cartridge start 0 nr zftape.hsegBuf buffer'
      else buffer' = zftape.hsegBuf := by
  have hread (buffer' : ℕ → Byte)
      (hswap : (swapFileMarks cartridge { zftape with eofMap := some start, nrEofMarks := nr }).result =
        .ok { zftape with hsegBuf := buffer', eofMap := some start, nrEofMarks := nr }) :
      (zftape.zftReadVolumeTable cartridge noise).result =
        .ok (zftFakeVolumeHeaders cartridge (marksIn cartridge buffer' start nr),
          { zftape with hsegBuf := buffer', eofMap := some start, nrEofMarks := nr }) := by
    have hextract : (zftFtapeExtractFileMarks cartridge noise zftape).result =
        .ok { zftape with hsegBuf := buffer', eofMap := some start, nrEofMarks := nr } := by
      rw [zftFtapeExtractFileMarks, h.locate, Recorded.result_bind hswap,
        Recorded.result_bind (@traceFileMarks_result cartridge _ start noise (.inr rfl))]
      rfl
    rw [OldTape.zftReadVolumeTable, Recorded.result_bind hextract,
      Recorded.result_bind (fakeFromEofMap_result rfl nr)]
    rfl
  by_cases hversion : zftape.ftapeFmtVersion = 1
  · obtain ⟨buffer', hresult, hswapped⟩ := @swapLoop_swapped cartridge
      { zftape with eofMap := some start, nrEofMarks := nr } start rfl nr 0
    exact ⟨buffer', hread buffer' (by rw [swapFileMarks, if_pos hversion, hresult]), by
      rwa [if_pos hversion]⟩
  · exact ⟨zftape.hsegBuf, hread zftape.hsegBuf (by rw [swapFileMarks, if_neg hversion]; rfl), by
      rw [if_neg hversion]⟩

end Reading

section Volumes

variable {cartridge : Cartridge}

/-- The loop appends a volume that ends at each mark. -/
theorem fakeLoop_endSegs (marks : List (ℕ × ℕ)) (table : Vtbl) :
    (fakeLoop cartridge marks table).volumes.map (·.endSeg) =
      table.volumes.map (·.endSeg) ++ marks.map Prod.fst := by
  induction marks generalizing table with
  | nil => simp [fakeLoop]
  | cons mark marks ih =>
    rw [fakeLoop, ih]
    simp only [Vtbl.newVtblEntry, List.map_append, List.map_cons, List.map_nil, List.append_assoc,
      List.cons_append, List.nil_append]

/-- The volumes end at the marks. Without a mark for the end of the recorded media there is one more, up to
the end of the tape. -/
theorem zftFakeVolumeHeaders_endSegs (marks : List (ℕ × ℕ)) :
    (zftFakeVolumeHeaders cartridge marks).volumes.map (·.endSeg) =
      if haveEom marks then marks.dropLast.map Prod.fst
      else marks.map Prod.fst ++ [cartridge.lastDataSegment] := by
  rw [zftFakeVolumeHeaders]
  split
  · simp [fakeLoop_endSegs, zftInitVtbl]
  · simp [fakeLoop_endSegs, zftInitVtbl, Vtbl.newVtblEntry]

/-- The end of the recorded media is the last of at least two marks. -/
theorem haveEom_append {marks : List (ℕ × ℕ)} (h : haveEom marks = true) :
    ∃ before previous last, marks = before ++ [previous, last] ∧ last.1 = previous.1 + 1 ∧ last.2 = 1 := by
  rw [haveEom] at h
  split at h
  next last previous rest hreverse =>
    refine ⟨rest.reverse, previous, last, ?_, by simpa using h⟩
    rw [← List.reverse_reverse marks, hreverse]
    simp
  next => cases h

/-- Marks that make up the same volumes with their fields exchanged have equal fields. -/
theorem swap_eq_self_of_volumes {marks : List (ℕ × ℕ)}
    (h : (zftFakeVolumeHeaders cartridge (marks.map Prod.swap)).volumes =
      (zftFakeVolumeHeaders cartridge marks).volumes) : marks.map Prod.swap = marks := by
  have hends := congrArg (List.map (·.endSeg)) h
  rw [zftFakeVolumeHeaders_endSegs, zftFakeVolumeHeaders_endSegs] at hends
  have hequal (marks : List (ℕ × ℕ)) (hfields : (marks.map Prod.swap).map Prod.fst = marks.map Prod.fst) :
      marks.map Prod.swap = marks := by
    rw [List.map_map] at hfields
    conv_rhs => rw [← List.map_id marks]
    refine List.map_congr_left fun mark hmark => ?_
    have hmark' : mark.2 = mark.1 := List.map_inj_left.mp hfields mark hmark
    exact Prod.ext hmark' hmark'.symm
  by_cases hswap : haveEom (marks.map Prod.swap) = true
  · by_cases horig : haveEom marks = true
    · rw [if_pos hswap, if_pos horig] at hends
      obtain ⟨before, previous, last, rfl, hnext, hone⟩ := haveEom_append horig
      obtain ⟨before', previous', last', hlast, hnext', hone'⟩ := haveEom_append hswap
      have hdrop : (before ++ [previous, last]).dropLast = before ++ [previous] := by
        simp [List.dropLast_append_of_ne_nil]
      have hlast' : [previous, last].map Prod.swap = [previous', last'] := by
        rw [List.map_append] at hlast
        exact (List.append_inj' hlast rfl).2
      have hfront : (before ++ [previous]).map Prod.swap = before ++ [previous] := by
        refine hequal _ ?_
        rw [← List.map_dropLast, hdrop] at hends
        exact hends
      simp only [List.map_cons, List.map_nil, List.cons.injEq, and_true] at hlast'
      obtain ⟨rfl, rfl⟩ := hlast'
      rw [show before ++ [previous, last] = (before ++ [previous]) ++ [last] by simp, List.map_append, hfront]
      have hsame : last.swap = last := Prod.ext (hone.trans hone'.symm) (hone'.trans hone.symm)
      rw [List.map_cons, List.map_nil, hsame]
    · rw [if_pos hswap, if_neg horig] at hends
      have hlength := congrArg List.length hends
      simp at hlength
  · by_cases horig : haveEom marks = true
    · rw [if_neg hswap, if_pos horig] at hends
      have hlength := congrArg List.length hends
      simp at hlength
      omega
    · rw [if_neg hswap, if_neg horig] at hends
      exact hequal marks (List.append_cancel_right hends)

end Volumes

section Rereading

variable {cartridge : Cartridge} {start nr : ℕ}

/-- A list whose marks do not depend on the version reads the same every time. -/
theorem HasMarks.rereads {zftape : OldTape} (h : HasMarks cartridge zftape.hsegBuf start nr)
    {marks : List (ℕ × ℕ)} (hmarks : marksIn cartridge zftape.hsegBuf start nr = marks)
    (hequal : zftape.ftapeFmtVersion = 1 → marks.map Prod.swap = marks) (noises : List Bool) :
    (rereadVolumeTable cartridge noises zftape).result =
      .ok (List.replicate noises.length (zftFakeVolumeHeaders cartridge marks).volumes) := by
  induction noises generalizing zftape with
  | nil => rfl
  | cons noise noises ih =>
    obtain ⟨buffer', hresult, hbuffer⟩ := h.read noise
    have hnext : HasMarks cartridge buffer' start nr ∧ marksIn cartridge buffer' start nr = marks := by
      split at hbuffer
      next hversion => exact ⟨hbuffer.hasMarks h, by rw [hbuffer.marksIn, hmarks, hequal hversion]⟩
      next => exact ⟨hbuffer ▸ h, hbuffer ▸ hmarks⟩
    have hrest := @ih { zftape with hsegBuf := buffer', eofMap := some start, nrEofMarks := nr }
      hnext.1 hnext.2 hequal
    rw [rereadVolumeTable, Recorded.result_bind hresult]
    dsimp only
    rw [Recorded.result_bind hrest, hnext.2]
    rfl

/-- Without a list the volume up to the end of the tape is the only one. -/
theorem read_of_not_hasMarks {zftape : OldTape}
    (h : ∀ start nr, ¬HasMarks cartridge zftape.hsegBuf start nr) (noise : Bool) :
    (zftape.zftReadVolumeTable cartridge noise).result =
      .ok (zftFakeVolumeHeaders cartridge [], { zftape with eofMap := none, nrEofMarks := 0 }) := by
  have hswap : (swapFileMarks cartridge { zftape with eofMap := none, nrEofMarks := 0 }).result =
      .ok { zftape with eofMap := none, nrEofMarks := 0 } := by
    rw [swapFileMarks]
    split <;> rfl
  have hextract : (zftFtapeExtractFileMarks cartridge noise zftape).result =
      .ok { zftape with eofMap := none, nrEofMarks := 0 } := by
    rw [zftFtapeExtractFileMarks, locateFileMarks_of_not_hasMarks h, Recorded.result_bind hswap,
      Recorded.result_bind (@traceFileMarks_result cartridge _ 0 noise (.inl rfl))]
    rfl
  rw [OldTape.zftReadVolumeTable, Recorded.result_bind hextract]
  rfl

/-- Without a list there is nothing that could change. -/
theorem rereads_of_not_hasMarks {zftape : OldTape}
    (h : ∀ start nr, ¬HasMarks cartridge zftape.hsegBuf start nr) (noises : List Bool) :
    (rereadVolumeTable cartridge noises zftape).result =
      .ok (List.replicate noises.length (zftFakeVolumeHeaders cartridge []).volumes) := by
  induction noises generalizing zftape with
  | nil => rfl
  | cons noise noises ih =>
    have hrest := @ih { zftape with eofMap := none, nrEofMarks := 0 } h
    rw [rereadVolumeTable, Recorded.result_bind (read_of_not_hasMarks h noise)]
    dsimp only
    rw [Recorded.result_bind hrest]
    rfl

/-- Marks of version 1 are read with their fields exchanged, and as they are the second time. -/
theorem HasMarks.read_twice {zftape : OldTape} (h : HasMarks cartridge zftape.hsegBuf start nr)
    (hversion : zftape.ftapeFmtVersion = 1) :
    (rereadVolumeTable cartridge [false, false] zftape).result =
      .ok [(zftFakeVolumeHeaders cartridge ((marksIn cartridge zftape.hsegBuf start nr).map Prod.swap)).volumes,
        (zftFakeVolumeHeaders cartridge (marksIn cartridge zftape.hsegBuf start nr)).volumes] := by
  obtain ⟨first, hfirst, hswapped⟩ := h.read false
  rw [if_pos hversion] at hswapped
  obtain ⟨second, hsecond, hback⟩ := @HasMarks.read cartridge
    { zftape with hsegBuf := first, eofMap := some start, nrEofMarks := nr } start nr
    (hswapped.hasMarks h) false
  rw [if_pos hversion] at hback
  rw [rereadVolumeTable, Recorded.result_bind hfirst]
  dsimp only
  have hlater : (rereadVolumeTable cartridge [false]
      { zftape with hsegBuf := first, eofMap := some start, nrEofMarks := nr }).result =
        .ok [(zftFakeVolumeHeaders cartridge (marksIn cartridge second start nr)).volumes] := by
    rw [rereadVolumeTable, Recorded.result_bind hsecond]
    rfl
  rw [Recorded.result_bind hlater, hback.marksIn, hswapped.marksIn, List.map_map, Prod.swap_swap_eq,
    List.map_id]
  rfl

/-- The volumes are the same each time if and only if the tape is not one of version 1, or every mark of
the list has the same number in both fields. -/
theorem rereadsSame_iff (cartridge : Cartridge) (zftape : OldTape) :
    RereadsSame cartridge zftape ↔
      (zftape.ftapeFmtVersion = 1 → ∀ start nr, HasMarks cartridge zftape.hsegBuf start nr →
        ∀ i < nr, (markAt cartridge zftape.hsegBuf start i).1 =
          (markAt cartridge zftape.hsegBuf start i).2) := by
  constructor
  · rintro ⟨volumes, hsame⟩ hversion start nr hmarks i hi
    have htwice := (hsame [false, false]).symm.trans (hmarks.read_twice hversion)
    simp only [List.length_cons, List.length_nil, List.replicate_succ, List.replicate_zero, Except.ok.injEq,
      List.cons.injEq, and_true] at htwice
    have hfields := swap_eq_self_of_volumes (htwice.1.symm.trans htwice.2)
    rw [marksIn, List.map_map] at hfields
    have hmark := List.map_inj_left.mp hfields i (List.mem_range.mpr hi)
    exact (congrArg Prod.snd hmark)
  · intro hequal
    by_cases hmarks : ∃ start nr, HasMarks cartridge zftape.hsegBuf start nr
    · obtain ⟨start, nr, hmarks⟩ := hmarks
      refine ⟨_, hmarks.rereads rfl fun hversion => ?_⟩
      rw [marksIn, List.map_map]
      refine List.map_congr_left fun i hi => ?_
      have hfields := hequal hversion start nr hmarks i (List.mem_range.mp hi)
      exact Prod.ext hfields.symm hfields
    · push Not at hmarks
      exact ⟨_, rereads_of_not_hasMarks hmarks⟩

/-- A header segment with an old label of version 1 and one mark, at sector 3 of segment 10. -/
def versionOneHeader : ℕ → Byte := fun k =>
  if ftLabel ≤ k ∧ k < ftLabel + 19 then (linuxTapeLabel ++ ascii ['1']).getD (k - ftLabel) 0
  else if k = ftFslCnt then 1
  else if k = ftFsl then 3
  else if k = ftFsl + 2 then 10
  else Header.formatHeader false ⟨2, 100, 28, 4, 149⟩ k

/-- The tape with that header segment, once its label is validated. -/
def versionOneTape : OldTape := (zftFtapeValidateLabel ⟨versionOneHeader, 0, none, 0, false, false⟩).2

/-- The mark ends the volume at segment 10 the first time, and at segment 3 the second time. -/
theorem rereadsSame_fails :
    (zftFtapeValidateLabel ⟨versionOneHeader, 0, none, 0, false, false⟩).1 = true ∧
      ¬RereadsSame overfullCartridge versionOneTape := by
  refine ⟨by decide +kernel, ?_⟩
  rintro ⟨volumes, hsame⟩
  have hbuffer : versionOneTape.hsegBuf = versionOneHeader := zftFtapeValidateLabel_hsegBuf _
  have hmarks : HasMarks overfullCartridge versionOneTape.hsegBuf ftFsl 1 := by
    rw [hbuffer, HasMarks, if_neg (by decide)]
    decide +kernel
  have hmarksIn : marksIn overfullCartridge versionOneTape.hsegBuf ftFsl 1 = [(3, 10)] := by
    rw [hbuffer]
    decide +kernel
  have htwice := (hsame [false, false]).symm.trans (hmarks.read_twice (by decide +kernel))
  rw [hmarksIn] at htwice
  simp only [List.length_cons, List.length_nil, List.replicate_succ, List.replicate_zero, Except.ok.injEq,
    List.cons.injEq, and_true] at htwice
  have hfields := swap_eq_self_of_volumes (htwice.1.symm.trans htwice.2)
  exact absurd hfields (by decide)

end Rereading

end Ftape.Volume
