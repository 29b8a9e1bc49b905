import Ftape.Algebra.Recorded
import Ftape.Bsm.Driver
import Ftape.Volume.BlockSizes

/-!
# The end-of-file list of old tapes

Old tapes keep their file marks in the header segment: in the failed sector log, or behind the bad
sector list where the format has no such log. `eof_map` points at the marks. They are turned into
volumes on reading the tape, and cleared once it is written anew. Every access to the marks is
recorded, and is held against the list that the header segment contains.
-/

namespace Ftape.Volume

open Ftape.Algebra Ftape.Bsm

/-- `FT_LABEL`, `FT_LABEL_DATE` and `FT_LABEL_SZ`. -/
def ftLabel : ℕ := 30
def ftLabelDate : ℕ := 74
def ftLabelSz : ℕ := ftLabelDate - ftLabel

/-- `FT_FSL_CNT`. -/
def ftFslCnt : ℕ := 144

/-- `FT_FSL_MAX_ENTRIES`. -/
def ftFslMaxEntries : ℕ := ftFslSize / 4

/-- `linux_tape_label`. -/
def linuxTapeLabel : List Byte :=
  ascii ['L', 'i', 'n', 'u', 'x', ' ', 'r', 'a', 'w', ' ', 'f', 'o', 'r', 'm', 'a', 't', ' ', 'V']

/-- `min_fmt_version` and `max_fmt_version`. -/
def minFmtVersion : ℕ := 1
def maxFmtVersion : ℕ := 2

/-- `ZFTAPE_LABEL`. -/
def zftapeLabel : List Byte :=
  ascii ['F', 't', 'a', 'p', 'e', ' ', '-', ' ', 'T', 'h', 'e', ' ', 'L', 'i', 'n', 'u', 'x', ' ',
    'F', 'l', 'o', 'p', 'p', 'y', ' ', 'T', 'a', 'p', 'e', ' ', 'P', 'r', 'o', 'j', 'e', 'c', 't', '!']

/-- The fields of `zftape_info_t` that the routines of this file use. `eofMap` is the place of
`eof_map` in `hseg_buf`. -/
structure OldTape where
  hsegBuf : ℕ → Byte
  ftapeFmtVersion : ℕ
  eofMap : Option ℕ
  nrEofMarks : ℕ
  headerChanged : Bool
  labelChanged : Bool

/-- An access to `bytes` bytes of the eof map that lies at `eofMap`, `none` for `NULL`. -/
structure EofAccess where
  eofMap : Option ℕ
  offset : ℕ
  bytes : ℕ

/-- Why an access has no result. -/
inductive EofHalt where
  | nullPointer

/-- Routines that access the eof map. -/
abbrev EofRoutine (Value : Type) := Recorded EofAccess EofHalt Value

/-- The loop of `zft_ftape_validate_label()` over the digits of the version: each digit replaces the
one before. -/
def versionLoop (buffer : ℕ → Byte) : ℕ → ℕ → ℕ → ℕ
  | 0, _, version => version
  | rounds + 1, address, version =>
    let digit := (buffer address).toNat
    if 48 ≤ digit ∧ digit ≤ 57 then versionLoop buffer rounds (address + 1) (digit - 48) else version

/-- `zft_ftape_validate_label()` of the label in the header segment: whether the tape is an old one,
and `ftape_fmt_version`. -/
def zftFtapeValidateLabel (zftape : OldTape) : Bool × OldTape :=
  if hasText zftape.hsegBuf ftLabel linuxTapeLabel then
    let version := versionLoop zftape.hsegBuf ftSegmentSize (ftLabel + linuxTapeLabel.length) 0
    (minFmtVersion ≤ version ∧ version ≤ maxFmtVersion, { zftape with ftapeFmtVersion := version })
  else (false, { zftape with ftapeFmtVersion := 0 })

/-- A search in steps of `size` bytes for an entry of zeroes that the header segment contains. -/
def findZeroes (buffer : ℕ → Byte) (size : ℕ) : ℕ → ℕ → Option ℕ
  | 0, _ => none
  | rounds + 1, ptr =>
    if ptr + (size - 1) < ftSegmentSize then
      if hasText buffer ptr (List.replicate size 0) then some ptr
      else findZeroes buffer size rounds (ptr + size)
    else none

/-- `ftape_find_end_of_bsm_list()`. -/
def ftapeFindEndOfBsmList (buffer : ℕ → Byte) : Option ℕ :=
  findZeroes buffer 3 ftSegmentSize ftHeaderEnd

/-- `find_end_of_eof_list()`. -/
def findEndOfEofList (buffer : ℕ → Byte) (ptr : ℕ) : Option ℕ :=
  findZeroes buffer 4 ftSegmentSize ptr

section Routines

variable (cartridge : Cartridge)

/-- `GET2()` of a field of the eof map. -/
def OldTape.get2 (zftape : OldTape) (offset : ℕ) : EofRoutine ℕ := do
  Recorded.note ⟨zftape.eofMap, offset, 2⟩
  match zftape.eofMap with
  | some eofMap => pure (fetch cartridge.bigEndian zftape.hsegBuf (eofMap + offset) 2)
  | none => .halt .nullPointer

/-- `PUT2()` of a field of the eof map. -/
def OldTape.put2 (zftape : OldTape) (offset value : ℕ) : EofRoutine OldTape := do
  Recorded.note ⟨zftape.eofMap, offset, 2⟩
  match zftape.eofMap with
  | some eofMap =>
    pure { zftape with hsegBuf := store cartridge.bigEndian zftape.hsegBuf (eofMap + offset) 2 value }
  | none => .halt .nullPointer

/-- `memset()` of the eof map to zero. -/
def OldTape.clear (zftape : OldTape) (bytes : ℕ) : EofRoutine OldTape := do
  Recorded.note ⟨zftape.eofMap, 0, bytes⟩
  match zftape.eofMap with
  | some eofMap =>
    pure { zftape with
      hsegBuf := fun k => if eofMap ≤ k ∧ k < eofMap + bytes then 0 else zftape.hsegBuf k }
  | none => if bytes = 0 then pure zftape else .halt .nullPointer

/-- `GET2(&eof_map[i].mark.segment, 0)`. -/
def OldTape.segment (zftape : OldTape) (i : ℕ) : EofRoutine ℕ := zftape.get2 cartridge (4 * i)

/-- `GET2(&eof_map[i].mark.date, 0)`. -/
def OldTape.date (zftape : OldTape) (i : ℕ) : EofRoutine ℕ := zftape.get2 cartridge (4 * i + 2)

/-- The part of `zft_ftape_extract_file_marks()` that sets `eof_map` and `nr_eof_marks`. -/
def locateFileMarks (zftape : OldTape) : OldTape :=
  if cartridge.formatCode = .fmtVar ∨ cartridge.formatCode = .fmtBig then
    let zftape := { zftape with eofMap := none, nrEofMarks := 0 }
    match ftapeFindEndOfBsmList zftape.hsegBuf with
    | none => zftape
    | some bsmEnd =>
      -- the end of list mark is skipped
      let start := bsmEnd + 3
      match findEndOfEofList zftape.hsegBuf start with
      | none => zftape
      | some eofEnd =>
        if eofEnd - start ≤ ftFslSize then
          { zftape with nrEofMarks := (eofEnd - start) / 4, eofMap := some start }
        else zftape
  else
    { zftape with
      eofMap := some ftFsl
      nrEofMarks := fetch cartridge.bigEndian zftape.hsegBuf ftFslCnt 2 }

/-- The loop that exchanges the fields of version 1. -/
def swapLoop : ℕ → ℕ → OldTape → EofRoutine OldTape
  | 0, _, zftape => pure zftape
  | rounds + 1, i, zftape => do
    let tmp ← zftape.segment cartridge i
    let date ← zftape.date cartridge i
    let zftape ← zftape.put2 cartridge (4 * i) date
    let zftape ← zftape.put2 cartridge (4 * i + 2) tmp
    swapLoop rounds (i + 1) zftape

/-- The loop that prints the marks. -/
def traceLoop (zftape : OldTape) : ℕ → ℕ → EofRoutine Unit
  | 0, _ => pure ()
  | rounds + 1, i => do
    let _ ← zftape.segment cartridge i
    let _ ← zftape.date cartridge i
    traceLoop zftape rounds (i + 1)

/-- The part of `zft_ftape_extract_file_marks()` for marks of version 1. -/
def swapFileMarks (zftape : OldTape) : EofRoutine OldTape :=
  if zftape.ftapeFmtVersion = 1 then swapLoop cartridge zftape.nrEofMarks 0 zftape else pure zftape

/-- The part of `zft_ftape_extract_file_marks()` that prints the marks, if the trace level asks for
it. -/
def traceFileMarks (noise : Bool) (zftape : OldTape) : EofRoutine Unit :=
  if noise then traceLoop cartridge zftape zftape.nrEofMarks 0 else pure ()

/-- `zft_ftape_extract_file_marks()`. -/
def zftFtapeExtractFileMarks (noise : Bool) (zftape : OldTape) : EofRoutine OldTape := do
  let zftape ← swapFileMarks cartridge (locateFileMarks cartridge zftape)
  traceFileMarks cartridge noise zftape
  pure zftape

/-- The test of `zft_fake_volume_headers()` for a last mark at the end of the recorded data: that mark,
if there is one. -/
def eomMark (zftape : OldTape) (numFailedSectors : ℕ) : EofRoutine (List (ℕ × ℕ)) :=
  if 2 ≤ numFailedSectors then do
    let last ← zftape.segment cartridge (numFailedSectors - 1)
    let previous ← zftape.segment cartridge (numFailedSectors - 2)
    if last = previous + 1 then do
      let date ← zftape.date cartridge (numFailedSectors - 1)
      pure (if date = 1 then [(last, date)] else [])
    else pure []
  else pure []

/-- The segment and the sector of each mark that ends a volume. -/
def markLoop (zftape : OldTape) : ℕ → ℕ → EofRoutine (List (ℕ × ℕ))
  | 0, _ => pure []
  | rounds + 1, volNo => do
    let segment ← zftape.segment cartridge volNo
    let sector ← zftape.date cartridge volNo
    let marks ← markLoop zftape rounds (volNo + 1)
    pure ((segment, sector) :: marks)

/-- `zft_fake_volume_headers()` of the eof map: the volumes are made up from the marks that are read. -/
def fakeFromEofMap (zftape : OldTape) (numFailedSectors : ℕ) : EofRoutine Vtbl := do
  let eom ← eomMark cartridge zftape numFailedSectors
  let marks ← markLoop cartridge zftape (numFailedSectors - eom.length) 0
  pure (zftFakeVolumeHeaders cartridge (marks ++ eom))

/-- `zft_update_label()`. The `sizeof` in it takes the size of a pointer, so that the blanks run on
into the bytes behind the label. -/
def zftUpdateLabel (pointerSize : ℕ) (zftape : OldTape) : OldTape :=
  if hasText zftape.hsegBuf ftLabel zftapeLabel then zftape
  else
    let length := zftapeLabel.length
    let buffer := fun k => if k < ftLabel then zftape.hsegBuf k
      else if k < ftLabel + length then zftapeLabel.getD (k - ftLabel) 0
      else if k < ftLabel + length + (ftLabelSz - pointerSize) then 0x20
      else zftape.hsegBuf k
    { zftape with
      hsegBuf := store cartridge.bigEndian buffer ftLabelDate 4 0
      labelChanged := true
      headerChanged := true }

/-- `zft_clear_ftape_file_marks()`. -/
def zftClearFtapeFileMarks (pointerSize : ℕ) (zftape : OldTape) : EofRoutine OldTape := do
  let zftape ← zftape.clear (zftape.nrEofMarks * 4)
  let zftape := { zftape with
    nrEofMarks := 0
    hsegBuf := store cartridge.bigEndian zftape.hsegBuf ftFslCnt 2 0
    headerChanged := true }
  pure (zftUpdateLabel cartridge pointerSize zftape)

/-- The life of the eof map of an old tape. The label is validated when the header segment was read,
then the volume table is made up from the marks, and the marks are cleared when the tape is erased or
written from its beginning. -/
def oldTapeRun (noise : Bool) (pointerSize : ℕ) (zftape : OldTape) : EofRoutine (Vtbl × OldTape) := do
  let zftape := (zftFtapeValidateLabel zftape).2
  let zftape ← zftFtapeExtractFileMarks cartridge noise zftape
  let table ← fakeFromEofMap cartridge zftape zftape.nrEofMarks
  let zftape ← zftClearFtapeFileMarks cartridge pointerSize zftape
  pure (table, zftape)

end Routines

/-- A list of entries of `size` bytes begins at an address, holds `count` entries and ends in an entry
of zeroes, all of it in the header segment. -/
structure ZeroEnded (buffer : ℕ → Byte) (size address count : ℕ) : Prop where
  entries : ∀ i, i < count → hasText buffer (address + size * i) (List.replicate size 0) = false
  terminator : hasText buffer (address + size * count) (List.replicate size 0) = true
  inside : address + size * count + size ≤ ftSegmentSize

/-- The list of a header segment begins at `start` and has an entry `i`. The formats without a failed
sector log have the list behind the bad sector list, the others have it in the log. -/
def ListsEntry (cartridge : Cartridge) (buffer : ℕ → Byte) (start i : ℕ) : Prop :=
  if cartridge.formatCode = .fmtVar ∨ cartridge.formatCode = .fmtBig then
    ∃ bsmCount, ZeroEnded buffer 3 ftHeaderEnd bsmCount ∧ start = ftHeaderEnd + 3 * bsmCount + 3 ∧
      ∃ count, ZeroEnded buffer 4 start count ∧ i < count
  else start = ftFsl ∧ i < ftFslMaxEntries ∧ i < fetch cartridge.bigEndian buffer ftFslCnt 2

/-- Each byte of an access lies in the header segment and in an entry that the list has. -/
def EofAccess.Listed (cartridge : Cartridge) (buffer : ℕ → Byte) (access : EofAccess) : Prop :=
  ∀ k, access.offset ≤ k → k < access.offset + access.bytes →
    ∃ start, access.eofMap = some start ∧ start + k < ftSegmentSize ∧
      ListsEntry cartridge buffer start (k / 4)

/-- The access stays in the first `nr` entries of a map. -/
def EofAccess.In (eofMap : Option ℕ) (nr : ℕ) (access : EofAccess) : Prop :=
  access.eofMap = eofMap ∧ access.offset + access.bytes ≤ 4 * nr

/-- The access does not go through a null pointer. -/
def EofAccess.Backed (access : EofAccess) : Prop := access.eofMap ≠ none ∨ access.bytes = 0

/-- An access to a map that is there. -/
theorem EofAccess.backed_at (start offset bytes : ℕ) : (⟨some start, offset, bytes⟩ : EofAccess).Backed :=
  Or.inl (Option.some_ne_none start)

/-- A tape has a map of `nr` entries. -/
structure OldTape.Mapped (eofMap : Option ℕ) (nr : ℕ) (zftape : OldTape) : Prop where
  map_eq : zftape.eofMap = eofMap
  nr_eq : zftape.nrEofMarks = nr
  backed : eofMap = none → nr = 0

/-- A routine stays in the first `nr` entries of a map and never goes through a null pointer. -/
abbrev StaysIn {Value : Type} (eofMap : Option ℕ) (nr : ℕ) (post : Value → Prop)
    (routine : EofRoutine Value) : Prop :=
  routine.Meets (EofAccess.In eofMap nr) EofAccess.Backed .nullPointer post

section Accesses

variable {cartridge : Cartridge} {eofMap : Option ℕ} {nr : ℕ} {zftape : OldTape}

/-- A map with entries is there. -/
theorem OldTape.Mapped.exists_start (h : zftape.Mapped eofMap nr) (hnr : 0 < nr) :
    ∃ start, eofMap = some start := by
  cases hmap : eofMap with
  | none =>
    have := h.backed hmap
    omega
  | some start => exact ⟨start, rfl⟩

/-- A field of an entry is read. -/
theorem OldTape.Mapped.get2 (h : zftape.Mapped eofMap nr) {offset : ℕ} (hoffset : offset + 2 ≤ 4 * nr) :
    StaysIn eofMap nr (fun _ => True) (zftape.get2 cartridge offset) := by
  obtain ⟨start, hstart⟩ := h.exists_start (by omega)
  have hmap : zftape.eofMap = some start := h.map_eq.trans hstart
  rw [OldTape.get2, hmap]
  refine Recorded.Meets.bind (Recorded.Meets.ask ⟨hstart.symm, hoffset⟩ (EofAccess.backed_at _ _ _)) fun _ _ => ?_
  exact Recorded.Meets.pure trivial

/-- A field of an entry is written. -/
theorem OldTape.Mapped.put2 (h : zftape.Mapped eofMap nr) {offset value : ℕ}
    (hoffset : offset + 2 ≤ 4 * nr) :
    StaysIn eofMap nr (OldTape.Mapped eofMap nr) (zftape.put2 cartridge offset value) := by
  obtain ⟨start, hstart⟩ := h.exists_start (by omega)
  have hmap : zftape.eofMap = some start := h.map_eq.trans hstart
  rw [OldTape.put2, hmap]
  refine Recorded.Meets.bind (Recorded.Meets.ask ⟨hstart.symm, hoffset⟩ (EofAccess.backed_at _ _ _)) fun _ _ => ?_
  exact Recorded.Meets.pure ⟨hstart.symm, h.nr_eq, h.backed⟩

/-- The entries are cleared. -/
theorem OldTape.Mapped.clear (h : zftape.Mapped eofMap nr) :
    StaysIn eofMap nr (fun _ => True) (zftape.clear (zftape.nrEofMarks * 4)) := by
  have hin : (⟨zftape.eofMap, 0, zftape.nrEofMarks * 4⟩ : EofAccess).In eofMap nr := by
    refine ⟨h.map_eq, ?_⟩
    rw [h.nr_eq, Nat.zero_add, Nat.mul_comm]
  rw [OldTape.clear]
  cases hmap : zftape.eofMap with
  | some start =>
    refine Recorded.Meets.bind (Recorded.Meets.ask (hmap ▸ hin) (EofAccess.backed_at _ _ _)) fun _ _ => ?_
    exact Recorded.Meets.pure trivial
  | none =>
    have hnone : zftape.nrEofMarks * 4 = 0 := by
      rw [h.nr_eq, h.backed (h.map_eq.symm.trans hmap)]
    refine Recorded.Meets.bind (Recorded.Meets.ask (hmap ▸ hin) (Or.inr hnone)) fun _ _ => ?_
    rw [if_pos hnone]
    exact Recorded.Meets.pure trivial

/-- The loop over the fields of version 1. -/
theorem OldTape.Mapped.swapLoop {rounds i : ℕ} (h : zftape.Mapped eofMap nr) (hrounds : i + rounds ≤ nr) :
    StaysIn eofMap nr (OldTape.Mapped eofMap nr) (Volume.swapLoop cartridge rounds i zftape) := by
  induction rounds generalizing i zftape with
  | zero => exact Recorded.Meets.pure h
  | succ rounds ih =>
    rw [Volume.swapLoop]
    refine Recorded.Meets.bind (h.get2 (by omega)) fun tmp _ => ?_
    refine Recorded.Meets.bind (h.get2 (by omega)) fun date _ => ?_
    refine Recorded.Meets.bind (h.put2 (by omega)) fun swapped hswapped => ?_
    refine Recorded.Meets.bind (hswapped.put2 (by omega)) fun swapped hswapped => ?_
    exact ih hswapped (by omega)

/-- The loop that prints the marks. -/
theorem OldTape.Mapped.traceLoop {rounds i : ℕ} (h : zftape.Mapped eofMap nr)
    (hrounds : i + rounds ≤ nr) :
    StaysIn eofMap nr (fun _ => True) (Volume.traceLoop cartridge zftape rounds i) := by
  induction rounds generalizing i with
  | zero => exact Recorded.Meets.pure trivial
  | succ rounds ih =>
    rw [Volume.traceLoop]
    refine Recorded.Meets.bind (h.get2 (by omega)) fun _ _ => ?_
    refine Recorded.Meets.bind (h.get2 (by omega)) fun _ _ => ?_
    exact ih (by omega)

/-- The loop over the marks. -/
theorem OldTape.Mapped.markLoop {rounds volNo : ℕ} (h : zftape.Mapped eofMap nr)
    (hrounds : volNo + rounds ≤ nr) :
    StaysIn eofMap nr (fun _ => True) (Volume.markLoop cartridge zftape rounds volNo) := by
  induction rounds generalizing volNo with
  | zero => exact Recorded.Meets.pure trivial
  | succ rounds ih =>
    rw [Volume.markLoop]
    refine Recorded.Meets.bind (h.get2 (by omega)) fun segment _ => ?_
    refine Recorded.Meets.bind (h.get2 (by omega)) fun sector _ => ?_
    exact Recorded.Meets.bind (ih (by omega)) fun marks _ => Recorded.Meets.pure trivial

/-- The marks are taken from where the search has put them. -/
theorem OldTape.Mapped.extract {noise : Bool} (h : (locateFileMarks cartridge zftape).Mapped eofMap nr) :
    StaysIn eofMap nr (OldTape.Mapped eofMap nr) (zftFtapeExtractFileMarks cartridge noise zftape) := by
  rw [zftFtapeExtractFileMarks]
  generalize locateFileMarks cartridge zftape = located at h
  have hswapped : StaysIn eofMap nr (OldTape.Mapped eofMap nr) (swapFileMarks cartridge located) := by
    rw [swapFileMarks]
    split
    · exact h.swapLoop (by rw [h.nr_eq]; omega)
    · exact Recorded.Meets.pure h
  refine Recorded.Meets.bind hswapped fun zftape h => ?_
  have htraced : StaysIn eofMap nr (fun _ => True) (traceFileMarks cartridge noise zftape) := by
    rw [traceFileMarks]
    split
    · exact h.traceLoop (by rw [h.nr_eq]; omega)
    · exact Recorded.Meets.pure trivial
  exact Recorded.Meets.bind htraced fun _ _ => Recorded.Meets.pure h

/-- The last two marks are looked at if there are two. -/
theorem OldTape.Mapped.eomMark (h : zftape.Mapped eofMap nr) :
    StaysIn eofMap nr (fun _ => True) (Volume.eomMark cartridge zftape nr) := by
  rw [Volume.eomMark]
  split
  next htwo =>
    refine Recorded.Meets.bind (h.get2 (by omega)) fun last _ => ?_
    refine Recorded.Meets.bind (h.get2 (by omega)) fun previous _ => ?_
    split
    · exact Recorded.Meets.bind (h.get2 (by omega)) fun _ _ => Recorded.Meets.pure trivial
    · exact Recorded.Meets.pure trivial
  next => exact Recorded.Meets.pure trivial

/-- The volumes are made up from the marks. -/
theorem OldTape.Mapped.fakeFromEofMap (h : zftape.Mapped eofMap nr) :
    StaysIn eofMap nr (fun _ => True)
      (Volume.fakeFromEofMap cartridge zftape zftape.nrEofMarks) := by
  rw [Volume.fakeFromEofMap, h.nr_eq]
  refine Recorded.Meets.bind h.eomMark fun eom _ => ?_
  refine Recorded.Meets.bind (h.markLoop (by omega)) fun marks _ => ?_
  exact Recorded.Meets.pure trivial

/-- The marks are cleared. -/
theorem OldTape.Mapped.clearFileMarks {pointerSize : ℕ} (h : zftape.Mapped eofMap nr) :
    StaysIn eofMap nr (fun _ => True) (zftClearFtapeFileMarks cartridge pointerSize zftape) := by
  rw [zftClearFtapeFileMarks]
  exact Recorded.Meets.bind h.clear fun _ _ => Recorded.Meets.pure trivial

/-- A whole run stays in the entries that the search has found. -/
theorem OldTape.Mapped.run {noise : Bool} {pointerSize : ℕ}
    (h : (locateFileMarks cartridge (zftFtapeValidateLabel zftape).2).Mapped eofMap nr) :
    StaysIn eofMap nr (fun _ => True) (oldTapeRun cartridge noise pointerSize zftape) := by
  rw [oldTapeRun]
  refine Recorded.Meets.bind h.extract fun zftape h => ?_
  refine Recorded.Meets.bind h.fakeFromEofMap fun table _ => ?_
  exact Recorded.Meets.bind h.clearFileMarks fun _ _ => Recorded.Meets.pure trivial

/-- Clearing the map is an access of its own. -/
theorem OldTape.keeps_clear {harmless : EofAccess → Prop} (zftape : OldTape) (bytes : ℕ) :
    (zftape.clear bytes).Keeps harmless fun _ => harmless ⟨zftape.eofMap, 0, bytes⟩ := by
  rw [OldTape.clear]
  refine Recorded.Keeps.bind (Recorded.Keeps.note _) fun _ hharmless => ?_
  cases hmap : zftape.eofMap with
  | some start =>
    rw [hmap] at hharmless
    exact Recorded.Keeps.pure hharmless
  | none =>
    rw [hmap] at hharmless
    dsimp only
    split
    · exact Recorded.Keeps.pure hharmless
    · exact Recorded.Keeps.halt _

/-- In a run whose accesses all meet a condition, the access that clears the entries does. -/
theorem OldTape.Mapped.run_clears {noise : Bool} {pointerSize : ℕ} {harmless : EofAccess → Prop}
    (h : (locateFileMarks cartridge (zftFtapeValidateLabel zftape).2).Mapped eofMap nr)
    (hall : ∀ access ∈ (oldTapeRun cartridge noise pointerSize zftape).queries, harmless access) :
    harmless ⟨eofMap, 0, nr * 4⟩ := by
  have hrun : StaysIn eofMap nr (fun _ => True) (oldTapeRun cartridge noise pointerSize zftape) := h.run
  have hbacked : ∀ access : EofAccess, access.In eofMap nr → access.Backed := by
    intro access hin
    cases hmap : eofMap with
    | some start => exact Or.inl (by rw [hin.1, hmap]; exact Option.some_ne_none start)
    | none =>
      have hnone := h.backed hmap
      exact Or.inr (by have := hin.2; omega)
  have hkeeps : (oldTapeRun cartridge noise pointerSize zftape).Keeps harmless
      fun _ => harmless ⟨eofMap, 0, nr * 4⟩ := by
    rw [oldTapeRun]
    refine Recorded.Keeps.bind (Recorded.Keeps.of_meets h.extract) fun zftape h => ?_
    refine Recorded.Keeps.bind (Recorded.Keeps.of_meets h.fakeFromEofMap) fun table _ => ?_
    have hclears : (zftape.clear (zftape.nrEofMarks * 4)).Keeps harmless
        fun _ => harmless ⟨zftape.eofMap, 0, zftape.nrEofMarks * 4⟩ := OldTape.keeps_clear _ _
    rw [zftClearFtapeFileMarks]
    rw [h.map_eq, h.nr_eq] at hclears
    rw [h.nr_eq]
    have hcleared : ((zftape.clear (nr * 4)) >>= fun zftape =>
        pure (zftUpdateLabel cartridge pointerSize { zftape with
          nrEofMarks := 0
          hsegBuf := store cartridge.bigEndian zftape.hsegBuf ftFslCnt 2 0
          headerChanged := true })).Keeps harmless fun _ => harmless ⟨eofMap, 0, nr * 4⟩ :=
      Recorded.Keeps.bind hclears fun _ h => Recorded.Keeps.pure h
    exact Recorded.Keeps.bind hcleared fun _ h => Recorded.Keeps.pure h
  cases hresult : (oldTapeRun cartridge noise pointerSize zftape).result with
  | ok value => exact hkeeps hall value hresult
  | error reason =>
    cases reason
    obtain ⟨access, haccess, hopen⟩ := hrun.stops.mp hresult
    exact absurd (hbacked access (hrun.asks access haccess)) hopen

end Accesses

section Lists

variable {cartridge : Cartridge}

/-- A search that finds the end has passed a list. -/
theorem findZeroes_eq_some {buffer : ℕ → Byte} {size rounds ptr stop : ℕ} (hsize : 0 < size)
    (h : findZeroes buffer size rounds ptr = some stop) :
    ∃ count, stop = ptr + size * count ∧ ZeroEnded buffer size ptr count := by
  induction rounds generalizing ptr with
  | zero => cases h
  | succ rounds ih =>
    rw [findZeroes] at h
    split_ifs at h with hinside hzero
    · cases h
      refine ⟨0, rfl, ?_, hzero, by omega⟩
      intro i hi
      exact absurd hi (Nat.not_lt_zero i)
    · obtain ⟨count, hstop, hlist⟩ := ih h
      have hstep : ∀ i, ptr + size + size * i = ptr + size * (i + 1) := by
        intro i
        rw [Nat.mul_succ]
        omega
      refine ⟨count + 1, by rw [hstop, hstep], ?_, ?_, ?_⟩
      · intro i hi
        cases i with
        | zero => simpa using hzero
        | succ i =>
          rw [← hstep]
          exact hlist.entries i (by omega)
      · rw [← hstep]
        exact hlist.terminator
      · rw [← hstep]
        exact hlist.inside

/-- The formats with a failed sector log take the number of marks from the header segment. -/
theorem locateFileMarks_of_log (zftape : OldTape) (hlog : ¬(cartridge.formatCode = .fmtVar ∨ cartridge.formatCode = .fmtBig)) :
    (locateFileMarks cartridge zftape).Mapped (some ftFsl)
      (fetch cartridge.bigEndian zftape.hsegBuf ftFslCnt 2) := by
  rw [locateFileMarks, if_neg hlog]
  refine ⟨rfl, rfl, ?_⟩
  intro h
  cases h

/-- The other formats count the marks of the list, or have none. -/
theorem locateFileMarks_of_list (zftape : OldTape) (hlist : cartridge.formatCode = .fmtVar ∨ cartridge.formatCode = .fmtBig) :
    ∃ eofMap nr, (locateFileMarks cartridge zftape).Mapped eofMap nr ∧
      (nr = 0 ∨ ∃ bsmCount start, ZeroEnded zftape.hsegBuf 3 ftHeaderEnd bsmCount ∧
        start = ftHeaderEnd + 3 * bsmCount + 3 ∧ eofMap = some start ∧
        ZeroEnded zftape.hsegBuf 4 start nr) := by
  have hnone : ({ zftape with eofMap := none, nrEofMarks := 0 } : OldTape).Mapped none 0 :=
    ⟨rfl, rfl, fun _ => rfl⟩
  rw [locateFileMarks, if_pos hlist]
  dsimp only
  cases hbsm : ftapeFindEndOfBsmList zftape.hsegBuf with
  | none => exact ⟨none, 0, hnone, Or.inl rfl⟩
  | some bsmEnd =>
    dsimp only
    cases heof : findEndOfEofList zftape.hsegBuf (bsmEnd + 3) with
    | none => exact ⟨none, 0, hnone, Or.inl rfl⟩
    | some eofEnd =>
      dsimp only
      split
      next hfits =>
        obtain ⟨bsmCount, hbsmEnd, hbsmList⟩ := findZeroes_eq_some (by decide) hbsm
        obtain ⟨count, heofEnd, heofList⟩ := findZeroes_eq_some (by decide) heof
        have hcount : (eofEnd - (bsmEnd + 3)) / 4 = count := by omega
        rw [hcount]
        refine ⟨some (bsmEnd + 3), count, ⟨rfl, rfl, fun h => ?_⟩, Or.inr ⟨bsmCount, bsmEnd + 3, ?_⟩⟩
        · cases h
        · exact ⟨hbsmList, by rw [hbsmEnd], rfl, heofList⟩
      next => exact ⟨none, 0, hnone, Or.inl rfl⟩

/-- The label does not move the header segment. -/
theorem zftFtapeValidateLabel_hsegBuf (zftape : OldTape) :
    (zftFtapeValidateLabel zftape).2.hsegBuf = zftape.hsegBuf := by
  rw [zftFtapeValidateLabel]
  split <;> rfl

/-- An access that stays in the first entries of a list that the header segment has room for. -/
theorem EofAccess.In.listed {buffer : ℕ → Byte} {access : EofAccess} {start nr : ℕ}
    (h : access.In (some start) nr) (hinside : start + 4 * nr ≤ ftSegmentSize)
    (hentries : ∀ i, i < nr → ListsEntry cartridge buffer start i) : access.Listed cartridge buffer := by
  intro k _ hk
  have hin := h.2
  exact ⟨start, h.1, by omega, hentries (k / 4) (by omega)⟩

/-- An access to no entry. -/
theorem EofAccess.In.listed_of_zero {buffer : ℕ → Byte} {access : EofAccess} {eofMap : Option ℕ}
    (h : access.In eofMap 0) : access.Listed cartridge buffer := by
  intro k _ hk
  have hin := h.2
  omega

/-- The failed sector log lies in the header segment. -/
theorem ftFsl_inside : ftFsl + 4 * ftFslMaxEntries ≤ ftSegmentSize := by decide

/-- On an old tape each access to the eof map stays in the header segment and in the entries of its
list if and only if the format has the list behind the bad sector list, or the number of marks in the
header segment is one that the failed sector log has room for. -/
theorem eofMap_accesses_listed_iff (cartridge : Cartridge) (noise : Bool) (pointerSize : ℕ)
    (zftape : OldTape) :
    (∀ access ∈ (oldTapeRun cartridge noise pointerSize zftape).queries,
        access.Listed cartridge zftape.hsegBuf) ↔
      cartridge.formatCode = .fmtVar ∨ cartridge.formatCode = .fmtBig ∨
        fetch cartridge.bigEndian zftape.hsegBuf ftFslCnt 2 ≤ ftFslMaxEntries := by
  have hbuffer := zftFtapeValidateLabel_hsegBuf zftape
  rw [← or_assoc]
  by_cases hlist : cartridge.formatCode = .fmtVar ∨ cartridge.formatCode = .fmtBig
  · obtain ⟨eofMap, nr, hmapped, hnr⟩ := locateFileMarks_of_list (zftFtapeValidateLabel zftape).2 hlist
    refine ⟨fun _ => Or.inl hlist, fun _ access haccess => ?_⟩
    have hin := hmapped.run.asks access haccess
    cases hnr with
    | inl hzero =>
      rw [hzero] at hin
      exact hin.listed_of_zero
    | inr hlisted =>
      obtain ⟨bsmCount, start, hbsm, hstart, heofMap, hmarks⟩ := hlisted
      rw [hbuffer] at hbsm hmarks
      rw [heofMap] at hin
      have hinside := hmarks.inside
      refine hin.listed (by omega) fun i hi => ?_
      rw [ListsEntry, if_pos hlist]
      exact ⟨bsmCount, hbsm, hstart, nr, hmarks, hi⟩
  · have hmapped := locateFileMarks_of_log (zftFtapeValidateLabel zftape).2 hlist
    rw [hbuffer] at hmapped
    constructor
    · intro hall
      right
      by_contra hlong
      obtain ⟨start, -, -, hentry⟩ := hmapped.run_clears hall (4 * ftFslMaxEntries) (Nat.zero_le _)
        (by dsimp only; omega)
      rw [ListsEntry, if_neg hlist] at hentry
      have := hentry.2.1
      omega
    · rintro (hformat | hcount) access haccess
      · exact absurd hformat hlist
      · have hin := hmapped.run.asks access haccess
        have hinside := ftFsl_inside
        refine hin.listed (by omega) fun i hi => ?_
        rw [ListsEntry, if_neg hlist]
        exact ⟨rfl, by omega, hi⟩

/-- A header segment with an old label and a failed sector log of 65535 entries. -/
def overfullHeader : ℕ → Byte := fun k =>
  if ftLabel ≤ k ∧ k < ftLabel + 19 then (linuxTapeLabel ++ ascii ['2']).getD (k - ftLabel) 0
  else if ftFslCnt ≤ k ∧ k < ftFslCnt + 2 then 0xff
  else Header.formatHeader false ⟨2, 100, 28, 4, 149⟩ k

/-- The tape with that header segment. -/
def overfullTape : OldTape := ⟨overfullHeader, 0, none, 0, false, false⟩

/-- A cartridge of the normal format for it. -/
def overfullCartridge : Cartridge where
  bigEndian := false
  formatCode := .fmtNormal
  firstDataSegment := 2
  lastDataSegment := 2799
  capacity := 2798 * 29 * 1024
  blkSz := 1024
  vtblSz := 29 * 1024
  calcTapePos := fun segment => (segment - 2) * (29 * 1024)
  segSz := fun _ => 29 * 1024

/-- The number of marks is not compared with the size of the log: clearing the marks leaves the header
segment. -/
theorem eofMap_access_outside :
    (zftFtapeValidateLabel overfullTape).1 = true ∧
      ∃ access ∈ (oldTapeRun overfullCartridge false 4 overfullTape).queries,
        access.eofMap = some ftFsl ∧ ftSegmentSize < ftFsl + access.offset + access.bytes ∧
          ¬access.Listed overfullCartridge overfullTape.hsegBuf := by
  refine ⟨by decide +kernel, ?_⟩
  have hmapped : (locateFileMarks overfullCartridge (zftFtapeValidateLabel overfullTape).2).Mapped
      (some ftFsl) 65535 := by
    have h := @locateFileMarks_of_log overfullCartridge (zftFtapeValidateLabel overfullTape).2 (by decide)
    rwa [zftFtapeValidateLabel_hsegBuf] at h
  by_contra hall
  push Not at hall
  have hlisted := hmapped.run_clears hall rfl (by decide)
  obtain ⟨start, hstart, hinside, -⟩ := hlisted (4 * 65534) (Nat.zero_le _) (by decide)
  cases hstart
  exact absurd hinside (by decide)

end Lists

end Ftape.Volume
