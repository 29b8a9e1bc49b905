import Ftape.Volume.Reread

/-!
# The fields of the header segment that the driver changes

The driver changes its copy of the header segment when it takes the file marks of an old tape over, when
it clears them, which puts its own label on the tape, and when it writes the header segments back.
-/

namespace Ftape.Volume

open Ftape.Algebra Ftape.Bsm

/-- `FT_WR_DATE`, `FT_CMAP_START` and `FT_SEG_CNT`. -/
def ftWrDate : ℕ := 18
def ftCmapStart : ℕ := 78
def ftSegCnt : ℕ := 130

/-- The fields of `zftape_info_t` that the changes of the header segment depend on. -/
structure HeaderState extends OldTape where
  oldFtape : Bool

/-- What `zft_update_header_segments()` finds: whether the tape is write protected or set read-only, whether
the volume table has changed, the segments written, the time, and whether the tape takes the header segments
and the volume table. -/
structure Update where
  readOnly : Bool
  volumeTableChanged : Bool
  writtenSegments : ℕ
  timeStamp : ℕ
  ok : Bool

/-- What the driver does to the header segment. -/
inductive HeaderAction where
  | readVolumeTable (noise : Bool)
  | clearFileMarks
  | updateLabel
  | updateHeaderSegments (update : Update)

section Actions

variable (cartridge : Cartridge) (pointerSize : ℕ)

/-- The part of `zft_write_header_segments()` that changes the header segment, with whether it goes on. -/
def OldTape.zftWriteHeaderSegments (zftape : OldTape) (writtenSegments timeStamp : ℕ) : OldTape × Bool :=
  if fetch cartridge.bigEndian zftape.hsegBuf Header.ftSignature 4 ≠ Header.ftHsegMagic then (zftape, false)
  else
    let buffer := store cartridge.bigEndian zftape.hsegBuf ftSegCnt 4
      (writtenSegments + fetch cartridge.bigEndian zftape.hsegBuf ftSegCnt 4 + 2)
    let buffer :=
      if timeStamp ≠ 0 then
        let buffer := store cartridge.bigEndian buffer ftWrDate 4 timeStamp
        if zftape.labelChanged then store cartridge.bigEndian buffer ftLabelDate 4 timeStamp else buffer
      else buffer
    ({ zftape with hsegBuf := buffer }, true)

/-- `zft_update_header_segments()` after the header segments were read. -/
def OldTape.zftUpdateHeaderSegments (zftape : OldTape) (update : Update) : OldTape :=
  if update.readOnly then zftape
  else
    let zftape := { zftape with headerChanged := zftape.headerChanged || 0 < update.writtenSegments }
    if zftape.headerChanged = false ∧ update.volumeTableChanged = false then zftape
    else
      let (zftape, ok) :=
        if zftape.headerChanged then
          zftape.zftWriteHeaderSegments cartridge update.writtenSegments update.timeStamp
        else (zftape, true)
      if ok ∧ update.ok then { zftape with headerChanged := false, labelChanged := false } else zftape

/-- One action. The marks are taken over and cleared while the tape counts as an old one, by
`zft_read_volume_table()`, and by `zft_open_volume()`, `zft_weof()` and `zft_erase()`. -/
def HeaderState.act (state : HeaderState) : HeaderAction → EofRoutine HeaderState
  | .readVolumeTable noise =>
    if state.oldFtape then do
      let (_, zftape) ← state.toOldTape.zftReadVolumeTable cartridge noise
      pure { state with toOldTape := zftape }
    else pure state
  | .clearFileMarks =>
    if state.oldFtape then do
      let zftape ← zftClearFtapeFileMarks cartridge pointerSize state.toOldTape
      pure { state with toOldTape := zftape, oldFtape := false }
    else pure state
  | .updateLabel =>
    pure { state with toOldTape := zftUpdateLabel cartridge pointerSize state.toOldTape }
  | .updateHeaderSegments update =>
    pure { state with toOldTape := state.toOldTape.zftUpdateHeaderSegments cartridge update }

/-- Actions in their order. -/
def HeaderState.acts : HeaderState → List HeaderAction → EofRoutine HeaderState
  | state, [] => pure state
  | state, action :: actions => do
    let state ← state.act cartridge pointerSize action
    state.acts actions

/-- `zft_read_header_segments()`: the label decides whether the tape is an old one. -/
def zftReadHeaderSegments (header : ℕ → Byte) : HeaderState :=
  let validated := zftFtapeValidateLabel ⟨header, 0, none, 0, false, false⟩
  ⟨validated.2, validated.1⟩

/-- A byte that may change: the label, its date, the date of the last write, the number of segments
written, the number of marks, and the marks of the list. -/
def MayChange (header : ℕ → Byte) (k : ℕ) : Prop :=
  (ftLabel ≤ k ∧ k < ftLabel + ftLabelSz) ∨ (ftLabelDate ≤ k ∧ k < ftLabelDate + 4) ∨
    (ftWrDate ≤ k ∧ k < ftWrDate + 4) ∨ (ftSegCnt ≤ k ∧ k < ftSegCnt + 4) ∨
    (ftFslCnt ≤ k ∧ k < ftFslCnt + 2) ∨
    ∃ start i, ListsEntry cartridge header start i ∧ start + 4 * i ≤ k ∧ k < start + 4 * i + 4

/-- The other bytes of the header segment are those that were read from the tape. -/
def KeepsFields (header buffer : ℕ → Byte) : Prop :=
  ∀ k < ftSegmentSize, ¬MayChange cartridge header k → buffer k = header k

/-- The actions come to an end, and leave the other bytes alone. -/
def ActsInFields (header : ℕ → Byte) (actions : List HeaderAction) : Prop :=
  ∃ state, ((zftReadHeaderSegments header).acts cartridge pointerSize actions).result = .ok state ∧
    KeepsFields cartridge header state.hsegBuf

/-- The label is on the tape already, or the bytes that its blanks run over are blank. -/
def LabelFits (header : ℕ → Byte) : Prop :=
  hasText header ftLabel zftapeLabel = true ∨
    ∀ k, ftCmapStart ≤ k → k < ftLabel + zftapeLabel.length + (ftLabelSz - pointerSize) → header k = 0x20

/-- A byte of an entry that the number of marks counts, but that the list does not have. -/
def BehindList (header : ℕ → Byte) (k : ℕ) : Prop :=
  k < ftSegmentSize ∧ ∃ start nr i, HasMarks cartridge header start nr ∧ i < nr ∧
    start + 4 * i ≤ k ∧ k < start + 4 * i + 4 ∧ ¬MayChange cartridge header k

/-- The condition on the header segment under which an action stays in the fields. -/
def HeaderAction.Fits (header : ℕ → Byte) : HeaderAction → Prop
  | .readVolumeTable _ => (zftReadHeaderSegments header).oldFtape = true →
      (zftReadHeaderSegments header).ftapeFmtVersion = 1 → ∀ start nr i, HasMarks cartridge header start nr →
        i < nr → (∃ k, BehindList cartridge header k ∧ start + 4 * i ≤ k ∧ k < start + 4 * i + 4) →
          (markAt cartridge header start i).1 = (markAt cartridge header start i).2
  | .clearFileMarks => (zftReadHeaderSegments header).oldFtape = true →
      LabelFits pointerSize header ∧ ∀ k, BehindList cartridge header k → header k = 0
  | .updateLabel => LabelFits pointerSize header
  | .updateHeaderSegments _ => True

end Actions

section Lists

variable {cartridge : Cartridge} {header buffer buffer' : ℕ → Byte} {start nr : ℕ}

/-- A list of entries depends on the bytes from its start to the end of the header segment. -/
theorem ZeroEnded.congr {size address count : ℕ} (h : ZeroEnded buffer size address count)
    (hsame : ∀ k, address ≤ k → k < ftSegmentSize → buffer k = buffer' k) :
    ZeroEnded buffer' size address count := by
  have hinside := h.inside
  have htext (i : ℕ) (hi : i ≤ count) : hasText buffer (address + size * i) (List.replicate size 0) =
      hasText buffer' (address + size * i) (List.replicate size 0) := by
    refine hasText_congr fun j hj => hsame _ (by omega) ?_
    have hle := Nat.mul_le_mul_left size hi
    rw [List.length_replicate] at hj
    omega
  exact ⟨fun i hi => htext i hi.le ▸ h.entries i hi, htext count le_rfl ▸ h.terminator, hinside⟩

/-- The list of the header segment depends on the number of marks and the bytes behind the fields. -/
theorem HasMarks.congr (h : HasMarks cartridge buffer start nr)
    (hsame : ∀ k < ftSegmentSize, (ftFslCnt ≤ k ∧ k < ftFslCnt + 2) ∨ ftHeaderEnd ≤ k → buffer k = buffer' k) :
    HasMarks cartridge buffer' start nr := by
  rw [HasMarks] at h ⊢
  split at h
  next hlist =>
    rw [if_pos hlist]
    obtain ⟨bsmCount, hbsm, hstart, hmarks, hsize⟩ := h
    exact ⟨bsmCount, hbsm.congr fun k hk hk' => hsame k hk' (.inr hk), hstart,
      hmarks.congr fun k hk hk' => hsame k hk' (.inr (by omega)), hsize⟩
  next hlist =>
    rw [if_neg hlist]
    refine ⟨h.1, h.2.trans (fetch_congr fun k hk hk' => hsame k ?_ (.inl ⟨hk, hk'⟩))⟩
    exact hk'.trans (by decide)

/-- The list is behind the fields. -/
theorem HasMarks.headerEnd_le (h : HasMarks cartridge header start nr) : ftHeaderEnd ≤ start := by
  rw [HasMarks] at h
  split at h
  · obtain ⟨bsmCount, -, hstart, -⟩ := h
    omega
  · exact h.1 ▸ le_refl _

/-- Entries that the list has are behind the fields. -/
theorem ListsEntry.headerEnd_le {i : ℕ} (h : ListsEntry cartridge header start i) : ftHeaderEnd ≤ start := by
  rw [ListsEntry] at h
  split at h
  · obtain ⟨bsmCount, -, hstart, -⟩ := h
    omega
  · exact h.1 ▸ le_refl _

/-- A byte in front of the list may change if it is in one of the fields. -/
theorem not_mayChange_of_lt {k : ℕ} (hk : k < ftHeaderEnd)
    (hfields : (ftCmapStart ≤ k ∧ k < ftSegCnt)) : ¬MayChange cartridge header k := by
  have hcmap : ftCmapStart = 78 := rfl
  have hseg : ftSegCnt = 130 := rfl
  simp only [MayChange, ftLabel, ftLabelSz, ftLabelDate, ftWrDate, ftFslCnt]
  rintro (h | h | h | h | h | ⟨start, i, hentry, h, -⟩)
  all_goals try omega
  have := hentry.headerEnd_le
  omega

/-- A byte behind the list belongs to an entry behind the failed sector log, and none of the entry may
change. -/
theorem HasMarks.behind (h : HasMarks cartridge header start nr) {i k : ℕ} (hi : i < nr)
    (hk : start + 4 * i ≤ k) (hk' : k < start + 4 * i + 4) (hchange : ¬MayChange cartridge header k) :
    ∀ j, start + 4 * i ≤ j → j < start + 4 * i + 4 → ¬MayChange cartridge header j := by
  have hlisted : ¬ListsEntry cartridge header start i := fun hentry =>
    hchange (.inr (.inr (.inr (.inr (.inr ⟨start, i, hentry, hk, hk'⟩)))))
  rw [HasMarks] at h
  split at h
  next hlist =>
    refine absurd ?_ hlisted
    rw [ListsEntry, if_pos hlist]
    obtain ⟨bsmCount, hbsm, hstart, hmarks, -⟩ := h
    exact ⟨bsmCount, hbsm, hstart, nr, hmarks, hi⟩
  next hlist =>
    obtain ⟨hstart, hnr⟩ := h
    have hlong : ftFslMaxEntries ≤ i := by
      by_contra hshort
      refine hlisted ?_
      rw [ListsEntry, if_neg hlist]
      exact ⟨hstart, by omega, hnr ▸ hi⟩
    have hentries : ftFslMaxEntries = 448 := rfl
    have hfsl : ftFsl = 256 := rfl
    intro j hj hj'
    simp only [MayChange, ftLabel, ftLabelSz, ftLabelDate, ftWrDate, ftFslCnt, ftSegCnt]
    rintro (h | h | h | h | h | ⟨start', i', hentry, h, h'⟩)
    all_goals try omega
    rw [ListsEntry, if_neg hlist] at hentry
    omega

/-- An entry that has a byte behind the list in the header segment lies there as a whole. -/
theorem HasMarks.inside (h : HasMarks cartridge header start nr) {i k : ℕ} (hi : i < nr)
    (hk : start + 4 * i ≤ k) (hsize : k < ftSegmentSize) : start + 4 * i + 4 ≤ ftSegmentSize := by
  have hbytes : ftSegmentSize = 29696 := rfl
  rw [HasMarks] at h
  split at h
  next hlist =>
    obtain ⟨bsmCount, -, -, hlisted, -⟩ := h
    have := hlisted.inside
    omega
  next =>
    have hstart : start = 256 := h.1
    omega

/-- A byte of an entry may change, or is behind the list. -/
theorem HasMarks.behindList (h : HasMarks cartridge header start nr) {k : ℕ} (hk : start ≤ k)
    (hk' : k < start + 4 * nr) (hsize : k < ftSegmentSize) (hchange : ¬MayChange cartridge header k) :
    BehindList cartridge header k :=
  ⟨hsize, start, nr, (k - start) / 4, h, by omega, by omega, by omega, hchange⟩

end Lists

section Steps

variable {cartridge : Cartridge} {pointerSize : ℕ} {header : ℕ → Byte}

/-- A label that is on the tape stays. -/
theorem zftUpdateLabel_of_text {zftape : OldTape}
    (h : hasText zftape.hsegBuf ftLabel zftapeLabel = true) :
    zftUpdateLabel cartridge pointerSize zftape = zftape := by
  rw [zftUpdateLabel, if_pos h]

/-- The bytes that a label changes. -/
theorem zftUpdateLabel_hsegBuf {zftape : OldTape}
    (h : hasText zftape.hsegBuf ftLabel zftapeLabel = false) {k : ℕ}
    (hk : k < ftLabel ∨ ftLabelDate + 4 ≤ k) :
    (zftUpdateLabel cartridge pointerSize zftape).hsegBuf k =
      if ftLabelDate + 4 ≤ k ∧ k < ftLabel + zftapeLabel.length + (ftLabelSz - pointerSize) then 0x20
      else zftape.hsegBuf k := by
  have hlabel : ftLabel = 30 := rfl
  have hdate : ftLabelDate = 74 := rfl
  have hlength : zftapeLabel.length = 38 := rfl
  rw [zftUpdateLabel, if_neg (by rw [h]; decide)]
  simp only [hlabel, hdate, hlength] at hk ⊢
  rw [store_of_outside _ _ _ (by omega)]
  split_ifs <;> first | rfl | omega

/-- What else `zft_update_label()` leaves alone. -/
theorem zftUpdateLabel_fields (zftape : OldTape) :
    (zftUpdateLabel cartridge pointerSize zftape).eofMap = zftape.eofMap ∧
      (zftUpdateLabel cartridge pointerSize zftape).nrEofMarks = zftape.nrEofMarks ∧
      (zftUpdateLabel cartridge pointerSize zftape).ftapeFmtVersion = zftape.ftapeFmtVersion := by
  rw [zftUpdateLabel]
  split <;> exact ⟨rfl, rfl, rfl⟩

/-- Writing the header segments changes the dates and the number of segments. -/
theorem OldTape.zftWriteHeaderSegments_hsegBuf (zftape : OldTape) (writtenSegments timeStamp : ℕ) {k : ℕ}
    (hdate : k < ftLabelDate ∨ ftLabelDate + 4 ≤ k) (hwr : k < ftWrDate ∨ ftWrDate + 4 ≤ k)
    (hseg : k < ftSegCnt ∨ ftSegCnt + 4 ≤ k) :
    (zftape.zftWriteHeaderSegments cartridge writtenSegments timeStamp).1.hsegBuf k = zftape.hsegBuf k := by
  rw [zftWriteHeaderSegments]
  split
  · rfl
  · dsimp only
    split_ifs
    · rw [store_of_outside _ _ _ hdate, store_of_outside _ _ _ hwr, store_of_outside _ _ _ hseg]
    · rw [store_of_outside _ _ _ hwr, store_of_outside _ _ _ hseg]
    · exact store_of_outside _ _ _ hseg

/-- What else writing the header segments leaves alone. -/
theorem OldTape.zftWriteHeaderSegments_fields (zftape : OldTape) (writtenSegments timeStamp : ℕ) :
    (zftape.zftWriteHeaderSegments cartridge writtenSegments timeStamp).1.eofMap = zftape.eofMap ∧
      (zftape.zftWriteHeaderSegments cartridge writtenSegments timeStamp).1.nrEofMarks = zftape.nrEofMarks ∧
      (zftape.zftWriteHeaderSegments cartridge writtenSegments timeStamp).1.ftapeFmtVersion =
        zftape.ftapeFmtVersion := by
  rw [zftWriteHeaderSegments]
  split <;> exact ⟨rfl, rfl, rfl⟩

/-- An update writes the header segments or leaves them alone. -/
theorem OldTape.zftUpdateHeaderSegments_cases (zftape : OldTape) (update : Update) :
    ∃ written : OldTape, (written = zftape ∨
        ∃ changed, written = (OldTape.zftWriteHeaderSegments cartridge { zftape with headerChanged := changed }
          update.writtenSegments update.timeStamp).1) ∧
      (zftape.zftUpdateHeaderSegments cartridge update).hsegBuf = written.hsegBuf ∧
      (zftape.zftUpdateHeaderSegments cartridge update).eofMap = written.eofMap ∧
      (zftape.zftUpdateHeaderSegments cartridge update).nrEofMarks = written.nrEofMarks ∧
      (zftape.zftUpdateHeaderSegments cartridge update).ftapeFmtVersion = written.ftapeFmtVersion := by
  rw [zftUpdateHeaderSegments]
  split
  · exact ⟨zftape, .inl rfl, rfl, rfl, rfl, rfl⟩
  · dsimp only
    split
    · exact ⟨zftape, .inl rfl, rfl, rfl, rfl, rfl⟩
    · split
      next =>
        refine ⟨_, .inr ⟨zftape.headerChanged || decide (0 < update.writtenSegments), rfl⟩, ?_⟩
        split <;> exact ⟨rfl, rfl, rfl, rfl⟩
      next =>
        refine ⟨zftape, .inl rfl, ?_⟩
        split <;> exact ⟨rfl, rfl, rfl, rfl⟩

/-- What the actions keep: the bytes that may not change, a label of the driver, and, as long as the tape
counts as an old one, its version, its list and where that is. -/
structure HeaderState.Follows (cartridge : Cartridge) (header : ℕ → Byte) (state : HeaderState) : Prop where
  fields : KeepsFields cartridge header state.hsegBuf
  label : hasText header ftLabel zftapeLabel = true → hasText state.hsegBuf ftLabel zftapeLabel = true
  old : state.oldFtape = true → (zftReadHeaderSegments header).oldFtape = true ∧
    state.ftapeFmtVersion = (zftReadHeaderSegments header).ftapeFmtVersion ∧
    (∀ start nr, HasMarks cartridge header start nr ↔ HasMarks cartridge state.hsegBuf start nr) ∧
    (state.nrEofMarks = 0 ∨
      ∃ start, state.eofMap = some start ∧ HasMarks cartridge header start state.nrEofMarks)

variable {state : HeaderState}

/-- Changes in the fields in front of the list. -/
theorem HeaderState.Follows.ofFields (h : state.Follows cartridge header) {zftape : OldTape}
    (hfields : KeepsFields cartridge header zftape.hsegBuf)
    (hlabel : hasText header ftLabel zftapeLabel = true → hasText zftape.hsegBuf ftLabel zftapeLabel = true)
    (hsame : ∀ k, (ftFslCnt ≤ k ∧ k < ftFslCnt + 2) ∨ ftHeaderEnd ≤ k → state.hsegBuf k = zftape.hsegBuf k)
    (heofMap : zftape.eofMap = state.eofMap) (hnr : zftape.nrEofMarks = state.nrEofMarks)
    (hversion : zftape.ftapeFmtVersion = state.ftapeFmtVersion) :
    HeaderState.Follows cartridge header { state with toOldTape := zftape } where
  fields := hfields
  label := hlabel
  old := by
    intro hold
    obtain ⟨hheader, hformat, hmarks, hlocated⟩ := h.old hold
    refine ⟨hheader, hversion.trans hformat, fun start nr => (hmarks start nr).trans ⟨?_, ?_⟩, ?_⟩
    · exact fun h => h.congr fun k _ hk => hsame k hk
    · exact fun h => h.congr fun k _ hk => (hsame k hk).symm
    · simpa only [heofMap, hnr] using hlocated

/-- The tape as it was read. -/
theorem follows_zftReadHeaderSegments (cartridge : Cartridge) (header : ℕ → Byte) :
    (zftReadHeaderSegments header).Follows cartridge header := by
  have hbuffer : (zftReadHeaderSegments header).hsegBuf = header := zftFtapeValidateLabel_hsegBuf _
  have hnr : (zftReadHeaderSegments header).nrEofMarks = 0 := by
    rw [zftReadHeaderSegments, zftFtapeValidateLabel]
    split <;> rfl
  refine ⟨fun _ _ _ => by rw [hbuffer], fun h => by rwa [hbuffer], fun hold => ⟨hold, rfl, ?_, .inl hnr⟩⟩
  exact fun start nr => by rw [hbuffer]

/-- Writing the header segments. -/
theorem HeaderState.Follows.updateHeaderSegments (h : state.Follows cartridge header) (update : Update) :
    HeaderState.Follows cartridge header
      { state with toOldTape := state.toOldTape.zftUpdateHeaderSegments cartridge update } := by
  have hlabel : ftLabel = 30 := rfl
  have hlabelDate : ftLabelDate = 74 := rfl
  have hwrDate : ftWrDate = 18 := rfl
  have hsegCnt : ftSegCnt = 130 := rfl
  have hfslCnt : ftFslCnt = 144 := rfl
  have hend : ftHeaderEnd = 256 := rfl
  have hlength : zftapeLabel.length = 38 := rfl
  obtain ⟨written, hwritten, hbuffer, heofMap, hnr, hversion⟩ :=
    @OldTape.zftUpdateHeaderSegments_cases cartridge state.toOldTape update
  have hsame (k : ℕ) (hdate : k < ftLabelDate ∨ ftLabelDate + 4 ≤ k) (hwr : k < ftWrDate ∨ ftWrDate + 4 ≤ k)
      (hseg : k < ftSegCnt ∨ ftSegCnt + 4 ≤ k) : written.hsegBuf k = state.hsegBuf k := by
    rcases hwritten with rfl | ⟨changed, rfl⟩
    · rfl
    · exact OldTape.zftWriteHeaderSegments_hsegBuf _ _ _ hdate hwr hseg
  have hrest : written.eofMap = state.eofMap ∧ written.nrEofMarks = state.nrEofMarks ∧
      written.ftapeFmtVersion = state.ftapeFmtVersion := by
    rcases hwritten with rfl | ⟨changed, rfl⟩
    · exact ⟨rfl, rfl, rfl⟩
    · exact OldTape.zftWriteHeaderSegments_fields _ _ _
  refine h.ofFields ?_ ?_ ?_ (heofMap.trans hrest.1) (hnr.trans hrest.2.1) (hversion.trans hrest.2.2)
  · intro k hk hchange
    rw [hbuffer, hsame k, h.fields k hk hchange]
    · by_contra hin
      exact hchange (.inr (.inl (by omega)))
    · by_contra hin
      exact hchange (.inr (.inr (.inl (by omega))))
    · by_contra hin
      exact hchange (.inr (.inr (.inr (.inl (by omega)))))
  · intro htext
    rw [hbuffer, ← h.label htext]
    exact hasText_congr fun i hi => hsame _ (by omega) (by omega) (by omega)
  · intro k hk
    rw [hbuffer, hsame k (by omega) (by omega) (by omega)]

/-- The label, if it fits. -/
theorem HeaderState.Follows.updateLabel (h : state.Follows cartridge header)
    (hfits : LabelFits pointerSize header) :
    HeaderState.Follows cartridge header
      { state with toOldTape := zftUpdateLabel cartridge pointerSize state.toOldTape } := by
  have hlabel : ftLabel = 30 := rfl
  have hlabelDate : ftLabelDate = 74 := rfl
  have hlabelSz : ftLabelSz = 44 := rfl
  have hcmap : ftCmapStart = 78 := rfl
  have hsegCnt : ftSegCnt = 130 := rfl
  have hfslCnt : ftFslCnt = 144 := rfl
  have hend : ftHeaderEnd = 256 := rfl
  have hlength : zftapeLabel.length = 38 := rfl
  cases htext : hasText state.hsegBuf ftLabel zftapeLabel with
  | true =>
    rw [zftUpdateLabel_of_text htext]
    exact h
  | false =>
    obtain ⟨heofMap, hnr, hversion⟩ :=
      @zftUpdateLabel_fields cartridge pointerSize state.toOldTape
    have hnone : hasText header ftLabel zftapeLabel = false := by
      rw [← Bool.not_eq_true]
      intro hheader
      rw [h.label hheader] at htext
      cases htext
    refine h.ofFields ?_ ?_ ?_ heofMap hnr hversion
    · intro k hk hchange
      have hfront : k < ftLabel ∨ ftLabelDate + 4 ≤ k := by
        by_contra hin
        by_cases hdate : k < ftLabelDate
        · exact hchange (.inl (by omega))
        · exact hchange (.inr (.inl (by omega)))
      rw [zftUpdateLabel_hsegBuf htext hfront]
      split
      next hover =>
        rcases hfits with hheader | hblank
        · rw [hnone] at hheader
          cases hheader
        · exact (hblank k (by omega) hover.2).symm
      next => exact h.fields k hk hchange
    · intro hheader
      rw [hnone] at hheader
      cases hheader
    · intro k hk
      rw [zftUpdateLabel_hsegBuf htext (.inr (by omega)), if_neg (by omega)]

/-- The label is in front of the list. -/
theorem hasText_label_congr {buffer buffer' : ℕ → Byte}
    (h : ∀ k < ftHeaderEnd, ¬(ftFslCnt ≤ k ∧ k < ftFslCnt + 2) → buffer' k = buffer k)
    (htext : hasText buffer ftLabel zftapeLabel = true) : hasText buffer' ftLabel zftapeLabel = true := by
  rw [← htext]
  refine hasText_congr fun i hi => h _ ?_ ?_
  · exact (Nat.add_lt_add_left hi ftLabel).trans (by decide)
  · have hend : ftLabel + i < ftLabel + zftapeLabel.length := Nat.add_lt_add_left hi ftLabel
    have hcnt : ftLabel + zftapeLabel.length < ftFslCnt := by decide
    omega

/-- Marks that are exchanged stay in the list, if those behind it have equal fields. -/
theorem Swapped.keepsFields {buffer buffer' : ℕ → Byte} {start nr : ℕ}
    (h : Swapped cartridge start 0 nr buffer buffer') (hmarks : HasMarks cartridge header start nr)
    (hkeeps : KeepsFields cartridge header buffer)
    (hfits : ∀ i < nr, (∃ k, BehindList cartridge header k ∧ start + 4 * i ≤ k ∧ k < start + 4 * i + 4) →
      (markAt cartridge header start i).1 = (markAt cartridge header start i).2) :
    KeepsFields cartridge header buffer' := by
  intro k hk hchange
  by_cases hin : start ≤ k ∧ k < start + 4 * nr
  · have hbehind := hmarks.behindList hin.1 hin.2 hk hchange
    obtain ⟨i, hi, hlow, hhigh⟩ : ∃ i, i < nr ∧ start + 4 * i ≤ k ∧ k < start + 4 * i + 4 :=
      ⟨(k - start) / 4, by omega, by omega, by omega⟩
    have hnone := hmarks.behind hi hlow hhigh hchange
    have hequal := hfits i hi ⟨k, hbehind, hlow, hhigh⟩
    have hinside := hmarks.inside hi hlow hk
    have hsame : markAt cartridge buffer start i = markAt cartridge header start i :=
      markAt_congr fun j hj hj' => hkeeps j (by omega) (hnone j hj hj')
    have hmark : markAt cartridge buffer' start i = markAt cartridge header start i := by
      rw [h.marks i (Nat.zero_le i) (by omega), hsame]
      exact Prod.ext hequal.symm hequal
    rw [markAt, markAt, Prod.mk.injEq] at hmark
    by_cases hfirst : k < start + 4 * i + 2
    · have hbyte := fetch_injective hmark.1 (k - (start + 4 * i)) (by omega)
      rwa [show start + 4 * i + (k - (start + 4 * i)) = k by omega] at hbyte
    · have hbyte := fetch_injective hmark.2 (k - (start + (4 * i + 2))) (by omega)
      rwa [show start + (4 * i + 2) + (k - (start + (4 * i + 2))) = k by omega] at hbyte
  · rw [h.outside k (by omega)]
    exact hkeeps k hk hchange

/-- Reading the volume table of an old tape. -/
theorem HeaderState.Follows.readVolumeTable (h : state.Follows cartridge header) {noise : Bool}
    (hold : state.oldFtape = true) (hfits : (HeaderAction.readVolumeTable noise).Fits cartridge pointerSize header) :
    ∃ state', (state.act cartridge pointerSize (.readVolumeTable noise)).result = .ok state' ∧
      state'.Follows cartridge header := by
  obtain ⟨hheader, hversion, hlists, -⟩ := h.old hold
  rw [HeaderState.act, if_pos hold]
  by_cases hmarks : ∃ start nr, HasMarks cartridge header start nr
  · obtain ⟨start, nr, hmarks⟩ := hmarks
    have hstate := (hlists start nr).mp hmarks
    obtain ⟨buffer', hresult, hbuffer⟩ := hstate.read noise
    refine ⟨{ state with toOldTape :=
      { state.toOldTape with hsegBuf := buffer', eofMap := some start, nrEofMarks := nr } }, ?_, ?_⟩
    · rw [Recorded.result_bind hresult]
      rfl
    · have hlocated : nr = 0 ∨ ∃ start', some start = some start' ∧ HasMarks cartridge header start' nr :=
        .inr ⟨start, rfl, hmarks⟩
      split at hbuffer
      next hone =>
        have hfront (k : ℕ) (hk : k < ftHeaderEnd) : buffer' k = state.hsegBuf k :=
          hbuffer.outside k (.inl (by have := hmarks.headerEnd_le; omega))
        refine ⟨hbuffer.keepsFields hmarks h.fields fun i hi hbehind => ?_, fun htext => ?_, fun _ =>
          ⟨hheader, hversion, fun start' nr' => ⟨fun hmarks' => ?_, fun hmarks' => ?_⟩, hlocated⟩⟩
        · exact hfits hheader (hversion ▸ hone) start nr i hmarks hi hbehind
        · exact hasText_label_congr (fun k hk _ => hfront k hk) (h.label htext)
        · obtain ⟨rfl, rfl⟩ := hmarks.unique hmarks'
          exact hbuffer.hasMarks hstate
        · obtain ⟨rfl, rfl⟩ := (hbuffer.hasMarks hstate).unique hmarks'
          exact hmarks
      next =>
        rw [hbuffer]
        exact ⟨h.fields, h.label, fun _ => ⟨hheader, hversion, hlists, hlocated⟩⟩
  · push Not at hmarks
    have hresult := read_of_not_hasMarks
      (fun start nr hstate => hmarks start nr ((hlists start nr).mpr hstate)) noise
    refine ⟨{ state with toOldTape := { state.toOldTape with eofMap := none, nrEofMarks := 0 } }, ?_, ?_⟩
    · rw [Recorded.result_bind hresult]
      rfl
    · exact ⟨h.fields, h.label, fun _ => ⟨hheader, hversion, hlists, .inl rfl⟩⟩

/-- The marks are cleared: each byte of the entries is zero, the number of marks is zero, and the label
follows. -/
theorem zftClearFtapeFileMarks_result {zftape : OldTape} {start : ℕ}
    (hmap : zftape.nrEofMarks = 0 ∨ zftape.eofMap = some start) :
    ∃ cleared : OldTape, (zftClearFtapeFileMarks cartridge pointerSize zftape).result =
        .ok (zftUpdateLabel cartridge pointerSize cleared) ∧
      ∀ k, ¬(ftFslCnt ≤ k ∧ k < ftFslCnt + 2) → cleared.hsegBuf k =
        if start ≤ k ∧ k < start + 4 * zftape.nrEofMarks then 0 else zftape.hsegBuf k := by
  rw [zftClearFtapeFileMarks, OldTape.clear]
  cases heofMap : zftape.eofMap with
  | none =>
    have hnone : zftape.nrEofMarks = 0 := by
      rcases hmap with hnone | hsome
      · exact hnone
      · rw [heofMap] at hsome
        cases hsome
    rw [hnone]
    refine ⟨_, rfl, fun k hk => ?_⟩
    dsimp only
    rw [store_of_outside _ _ _ (by omega), if_neg (by omega)]
  | some start' =>
    refine ⟨_, rfl, fun k hk => ?_⟩
    dsimp only
    rw [store_of_outside _ _ _ (by omega)]
    rcases hmap with hnone | hsome
    · rw [hnone]
      rw [if_neg (by omega), if_neg (by omega)]
    · obtain rfl : start' = start := Option.some.inj (heofMap.symm.trans hsome)
      rw [Nat.mul_comm]

/-- Clearing the marks of an old tape. -/
theorem HeaderState.Follows.clearFileMarks (h : state.Follows cartridge header)
    (hold : state.oldFtape = true) (hfits : HeaderAction.clearFileMarks.Fits cartridge pointerSize header) :
    ∃ state', (state.act cartridge pointerSize .clearFileMarks).result = .ok state' ∧
      state'.Follows cartridge header := by
  obtain ⟨hheader, -, -, hlocated⟩ := h.old hold
  obtain ⟨hlabel, hbehind⟩ := hfits hheader
  obtain ⟨start, hmap, hmarks⟩ : ∃ start, (state.nrEofMarks = 0 ∨ state.eofMap = some start) ∧
      (state.nrEofMarks = 0 ∨ HasMarks cartridge header start state.nrEofMarks) := by
    rcases hlocated with hnone | ⟨start, heofMap, hmarks⟩
    · exact ⟨0, .inl hnone, .inl hnone⟩
    · exact ⟨start, .inr heofMap, .inr hmarks⟩
  obtain ⟨cleared, hresult, hbuffer⟩ :=
    @zftClearFtapeFileMarks_result cartridge pointerSize state.toOldTape start hmap
  rw [HeaderState.act, if_pos hold, Recorded.result_bind hresult]
  have hcleared : (HeaderState.mk cleared false).Follows cartridge header := by
    refine ⟨fun k hk hchange => ?_, fun htext => ?_, fun hold => by cases hold⟩
    · rw [hbuffer k fun hcnt => hchange (.inr (.inr (.inr (.inr (.inl hcnt)))))]
      split
      next hin =>
        rcases hmarks with hnone | hmarks
        · omega
        · exact (hbehind k (hmarks.behindList hin.1 hin.2 hk hchange)).symm
      next => exact h.fields k hk hchange
    · refine hasText_label_congr (fun k hk hcnt => ?_) (h.label htext)
      rw [hbuffer k hcnt]
      rcases hmarks with hnone | hmarks
      · rw [if_neg (by omega)]
      · have := hmarks.headerEnd_le
        rw [if_neg (by omega)]
  exact ⟨_, rfl, hcleared.updateLabel hlabel⟩

/-- One action that fits. -/
theorem HeaderState.Follows.act (h : state.Follows cartridge header) {action : HeaderAction}
    (hfits : action.Fits cartridge pointerSize header) :
    ∃ state', (state.act cartridge pointerSize action).result = .ok state' ∧
      state'.Follows cartridge header := by
  cases action with
  | readVolumeTable noise =>
    by_cases hold : state.oldFtape = true
    · exact h.readVolumeTable hold hfits
    · rw [HeaderState.act, if_neg hold]
      exact ⟨state, rfl, h⟩
  | clearFileMarks =>
    by_cases hold : state.oldFtape = true
    · exact h.clearFileMarks hold hfits
    · rw [HeaderState.act, if_neg hold]
      exact ⟨state, rfl, h⟩
  | updateLabel => exact ⟨_, rfl, h.updateLabel hfits⟩
  | updateHeaderSegments update => exact ⟨_, rfl, h.updateHeaderSegments update⟩

/-- Actions all of which fit. -/
theorem HeaderState.Follows.acts (h : state.Follows cartridge header) {actions : List HeaderAction}
    (hfits : ∀ action ∈ actions, action.Fits cartridge pointerSize header) :
    ∃ state', (state.acts cartridge pointerSize actions).result = .ok state' ∧
      state'.Follows cartridge header := by
  induction actions generalizing state with
  | nil => exact ⟨state, rfl, h⟩
  | cons action actions ih =>
    obtain ⟨next, hnext, hfollows⟩ := h.act (hfits action (by simp))
    obtain ⟨state', hresult, hstate'⟩ := ih hfollows fun other hother => hfits other (by simp [hother])
    refine ⟨state', ?_, hstate'⟩
    rw [HeaderState.acts, Recorded.result_bind hnext, hresult]

end Steps

section Converse

variable {cartridge : Cartridge} {pointerSize : ℕ} {header : ℕ → Byte}

/-- The tape as it was read has the bytes of the header segment. -/
theorem zftReadHeaderSegments_hsegBuf (header : ℕ → Byte) : (zftReadHeaderSegments header).hsegBuf = header :=
  zftFtapeValidateLabel_hsegBuf _

/-- One action by itself. -/
theorem acts_singleton (state : HeaderState) (action : HeaderAction) {state' : HeaderState}
    (h : (state.act cartridge pointerSize action).result = .ok state') :
    (state.acts cartridge pointerSize [action]).result = .ok state' := by
  rw [HeaderState.acts, Recorded.result_bind h]
  rfl

/-- A label that leaves the other fields alone fits. -/
theorem labelFits_of_acts (h : ActsInFields cartridge pointerSize header [.updateLabel]) :
    LabelFits pointerSize header := by
  have hlabel : ftLabel = 30 := rfl
  have hlabelDate : ftLabelDate = 74 := rfl
  have hlabelSz : ftLabelSz = 44 := rfl
  have hcmap : ftCmapStart = 78 := rfl
  have hlength : zftapeLabel.length = 38 := rfl
  have hsegCnt : ftSegCnt = 130 := rfl
  have hend : ftHeaderEnd = 256 := rfl
  have hsize : ftSegmentSize = 29696 := rfl
  cases htext : hasText header ftLabel zftapeLabel with
  | true => exact .inl htext
  | false =>
    refine .inr fun k hk hk' => ?_
    obtain ⟨state, hresult, hkeeps⟩ := h
    have hact := @acts_singleton cartridge pointerSize (zftReadHeaderSegments header) .updateLabel _ rfl
    rw [hact] at hresult
    cases hresult
    have hbyte := hkeeps k (by omega) (not_mayChange_of_lt (by omega) ⟨hk, by omega⟩)
    rw [← zftReadHeaderSegments_hsegBuf header] at htext
    rw [zftUpdateLabel_hsegBuf htext (.inr (by omega)), if_pos ⟨by omega, hk'⟩] at hbyte
    exact hbyte.symm

/-- If marks are read and cleared within the fields, those behind the list are zero. -/
theorem zero_of_acts (hold : (zftReadHeaderSegments header).oldFtape = true)
    (h : ActsInFields cartridge pointerSize header [.readVolumeTable false, .clearFileMarks]) {k : ℕ}
    (hbehind : BehindList cartridge header k) : header k = 0 := by
  have hlabelDate : ftLabelDate = 74 := rfl
  have hlabelSz : ftLabelSz = 44 := rfl
  have hlabel : ftLabel = 30 := rfl
  have hlength : zftapeLabel.length = 38 := rfl
  have hfslCnt : ftFslCnt = 144 := rfl
  have hend : ftHeaderEnd = 256 := rfl
  obtain ⟨hk, start, nr, i, hmarks, hi, hlow, hhigh, hchange⟩ := hbehind
  have hstart := hmarks.headerEnd_le
  obtain ⟨state, hresult, hkeeps⟩ := h
  have hmarks' : HasMarks cartridge (zftReadHeaderSegments header).hsegBuf start nr := by
    rwa [zftReadHeaderSegments_hsegBuf]
  obtain ⟨buffer', hread, -⟩ := hmarks'.read false
  have hact : ((zftReadHeaderSegments header).act cartridge pointerSize (.readVolumeTable false)).result =
      .ok { zftReadHeaderSegments header with toOldTape :=
        { (zftReadHeaderSegments header).toOldTape with
          hsegBuf := buffer', eofMap := some start, nrEofMarks := nr } } := by
    rw [HeaderState.act, if_pos hold, Recorded.result_bind hread]
    rfl
  obtain ⟨cleared, hclear, hbuffer⟩ := @zftClearFtapeFileMarks_result cartridge pointerSize
    { (zftReadHeaderSegments header).toOldTape with
      hsegBuf := buffer', eofMap := some start, nrEofMarks := nr } start (.inr rfl)
  rw [HeaderState.acts, Recorded.result_bind hact, HeaderState.acts, HeaderState.act] at hresult
  dsimp only at hresult
  rw [if_pos hold, Recorded.result_bind (Recorded.result_bind hclear _)] at hresult
  cases hresult
  have hbyte := hkeeps k hk hchange
  dsimp only at hbyte
  have hzero : cleared.hsegBuf k = 0 := by
    rw [hbuffer k (by omega), if_pos ⟨by omega, by dsimp only; omega⟩]
  cases htext : hasText cleared.hsegBuf ftLabel zftapeLabel with
  | true =>
    rw [zftUpdateLabel_of_text htext, hzero] at hbyte
    exact hbyte.symm
  | false =>
    rw [zftUpdateLabel_hsegBuf htext (.inr (by omega)), if_neg (by omega), hzero] at hbyte
    exact hbyte.symm

/-- Actions that fit the header segment leave every other field alone. No other actions do so for every
run: if all runs leave the other fields alone, every action fits. -/
theorem actsInFields_iff (cartridge : Cartridge) (pointerSize : ℕ) (header : ℕ → Byte) :
    (∀ actions : List HeaderAction, (∀ action ∈ actions, action.Fits cartridge pointerSize header) →
      ActsInFields cartridge pointerSize header actions) ∧
    ((∀ actions, ActsInFields cartridge pointerSize header actions) ↔
      ∀ action : HeaderAction, action.Fits cartridge pointerSize header) := by
  have hfits (actions : List HeaderAction)
      (hfits : ∀ action ∈ actions, action.Fits cartridge pointerSize header) :
      ActsInFields cartridge pointerSize header actions := by
    obtain ⟨state, hresult, hfollows⟩ := (follows_zftReadHeaderSegments cartridge header).acts hfits
    exact ⟨state, hresult, hfollows.fields⟩
  refine ⟨hfits, fun hall action => ?_, fun hall actions => hfits actions fun action _ => hall action⟩
  cases action with
  | readVolumeTable noise =>
    intro hold hversion start nr i hmarks hi hbehind
    obtain ⟨k, ⟨hk, -, -, -, -, -, -, -, hchange⟩, hlow, hhigh⟩ := hbehind
    have hnone := hmarks.behind hi hlow hhigh hchange
    have hinside := hmarks.inside hi hlow hk
    have hzero (j : ℕ) (hj : start + 4 * i ≤ j) (hj' : j < start + 4 * i + 4) : header j = 0 :=
      zero_of_acts hold (hall _) ⟨by omega, start, nr, i, hmarks, hi, hj, hj', hnone j hj hj'⟩
    rw [markAt, (fetch_eq_zero_iff _ _ _).mpr ⟨hzero _ (by omega) (by omega), hzero _ (by omega) (by omega)⟩,
      (fetch_eq_zero_iff _ _ _).mpr ⟨hzero _ (by omega) (by omega), hzero _ (by omega) (by omega)⟩]
  | clearFileMarks =>
    intro hold
    exact ⟨labelFits_of_acts (hall _), fun k hbehind => zero_of_acts hold (hall _) hbehind⟩
  | updateLabel => exact labelFits_of_acts (hall _)
  | updateHeaderSegments update => trivial

/-- A failed sector log that has room for the marks it counts lists all of them. -/
theorem not_behindList_of_log {cartridge : Cartridge} {header : ℕ → Byte}
    (hformat : ¬(cartridge.formatCode = .fmtVar ∨ cartridge.formatCode = .fmtBig))
    (hcount : fetch cartridge.bigEndian header ftFslCnt 2 ≤ ftFslMaxEntries) (k : ℕ) :
    ¬BehindList cartridge header k := by
  rintro ⟨-, start, nr, i, hmarks, hi, hlow, hhigh, hchange⟩
  rw [HasMarks, if_neg hformat] at hmarks
  obtain ⟨hstart, rfl⟩ := hmarks
  have hlisted : ListsEntry cartridge header start i := by
    rw [ListsEntry, if_neg hformat]
    exact ⟨hstart, hi.trans_le hcount, hi⟩
  exact hchange (.inr (.inr (.inr (.inr (.inr ⟨start, i, hlisted, hlow, hhigh⟩)))))

/-- The header segment of version 1 with a blank compression map. -/
def blankMapHeader : ℕ → Byte := fun k =>
  if ftCmapStart ≤ k ∧ k < ftLabel + zftapeLabel.length + (ftLabelSz - 8) then 0x20 else versionOneHeader k

/-- The tape is read, its marks are cleared and its label is changed, and the header segments are written after five
segments were written. -/
theorem actsInFields_iff_cleared : (zftReadHeaderSegments blankMapHeader).oldFtape = true ∧
    ActsInFields overfullCartridge 8 blankMapHeader
      [.readVolumeTable false, .clearFileMarks, .updateLabel, .updateHeaderSegments ⟨false, false, 5, 1, true⟩] := by
  have hlisted := @not_behindList_of_log overfullCartridge blankMapHeader (by decide) (by decide +kernel)
  have hlabel : LabelFits 8 blankMapHeader := .inr fun k hlow hhigh => if_pos ⟨hlow, hhigh⟩
  refine ⟨by decide +kernel, (actsInFields_iff overfullCartridge 8 blankMapHeader).1 _ fun action haction => ?_⟩
  simp only [List.mem_cons, List.not_mem_nil, or_false] at haction
  rcases haction with rfl | rfl | rfl | rfl
  · exact fun _ _ _ _ _ _ _ hbehind => absurd hbehind.choose_spec.1 (hlisted _)
  · exact fun _ => ⟨hlabel, fun k hbehind => absurd hbehind (hlisted k)⟩
  · exact hlabel
  · trivial

/-- The label of the driver replaces that of an old tape, and its blanks the start of the compression
map. -/
theorem label_overwrites_compression_map : (zftReadHeaderSegments versionOneHeader).oldFtape = true ∧
    ¬MayChange overfullCartridge versionOneHeader ftCmapStart ∧
      ¬ActsInFields overfullCartridge 8 versionOneHeader [.clearFileMarks] := by
  have hold : (zftReadHeaderSegments versionOneHeader).oldFtape = true := by decide +kernel
  have hchange : ¬MayChange overfullCartridge versionOneHeader ftCmapStart :=
    not_mayChange_of_lt (by decide) (by decide)
  refine ⟨hold, hchange, fun ⟨state, hresult, hkeeps⟩ => ?_⟩
  obtain ⟨cleared, hclear, hbuffer⟩ := @zftClearFtapeFileMarks_result overfullCartridge 8
    (zftReadHeaderSegments versionOneHeader).toOldTape 0 (.inl (by decide +kernel))
  have hact : ((zftReadHeaderSegments versionOneHeader).act overfullCartridge 8 .clearFileMarks).result =
      .ok ⟨zftUpdateLabel overfullCartridge 8 cleared, false⟩ := by
    rw [HeaderState.act, if_pos hold, Recorded.result_bind hclear]
    rfl
  rw [acts_singleton _ _ hact] at hresult
  cases hresult
  have hsame (k : ℕ) (hk : ¬(ftFslCnt ≤ k ∧ k < ftFslCnt + 2)) : cleared.hsegBuf k = versionOneHeader k := by
    have hnr : (zftReadHeaderSegments versionOneHeader).nrEofMarks = 0 := by decide +kernel
    rw [hbuffer k hk, if_neg (by rw [hnr]; omega), zftReadHeaderSegments_hsegBuf]
  have htext : hasText cleared.hsegBuf ftLabel zftapeLabel = false := by
    have hcongr : hasText cleared.hsegBuf ftLabel zftapeLabel =
        hasText versionOneHeader ftLabel zftapeLabel := by
      refine hasText_congr fun i hi => hsame _ ?_
      have hend : ftLabel + zftapeLabel.length < ftFslCnt := by decide
      omega
    rw [hcongr]
    decide +kernel
  have hbyte := hkeeps ftCmapStart (by decide) hchange
  dsimp only at hbyte
  rw [zftUpdateLabel_hsegBuf htext (.inr (by decide)), if_pos (by decide)] at hbyte
  exact absurd hbyte (by decide +kernel)

end Converse

end Ftape.Volume
