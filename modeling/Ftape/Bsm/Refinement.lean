import Ftape.Bsm.Update

/-!
# The bad sector map as a map

What a header records is a map from segments to sector maps, whichever encoding its format
uses. Lookups read that map and updates change it at one segment, in any order and for any
number of requests, while the stored list stays sorted, canonical and terminated.
-/

namespace Ftape.Bsm

open Ftape.Algebra

/-- The header records a map: in a canonical list, or in an array with one word a segment. -/
def Recorded (bigEndian : Bool) (fmt : FormatCode) (header : ℕ → Byte) (f : ℕ → SectorMap) : Prop :=
  if fmt.listed then
    ∃ l : SectorList fmt, l.Canonical ∧ Stored header (bsmOffset fmt) l.entries ∧ l.lookup = f
  else ∀ segment, bsmOffset fmt + 4 * segment + 4 ≤ ftSegmentSize →
    loadSectorMap bigEndian header (bsmOffset fmt + 4 * segment) = some (f segment)

/-- The segments that a format can record. -/
def Admits (fmt : FormatCode) (segment : ℕ) : Prop :=
  if fmt.listed then Admissible segment else bsmOffset fmt + 4 * segment + 4 ≤ ftSegmentSize

/-- The number of entries of the canonical list of a map. -/
def recordedLength (fmt : FormatCode) (f : ℕ → SectorMap) : ℕ :=
  ∑ segment ∈ Finset.range 0x40000, (segmentEntries fmt segment (f segment)).length

/-- The list of a map fits into the header with its terminator. -/
def Fits (fmt : FormatCode) (f : ℕ → SectorMap) : Prop :=
  fmt.listed → bsmOffset fmt + 3 * (recordedLength fmt f + 1) ≤ ftSegmentSize

/-- The requests as operations on a map: the answers to the lookups and the final map. -/
def answers : (ℕ → SectorMap) → List Request → List SectorMap × (ℕ → SectorMap)
  | f, [] => ([], f)
  | f, .get segment :: rest => (f segment :: (answers f rest).1, (answers f rest).2)
  | f, .put segment newMap :: rest => answers (Function.update f segment newMap) rest

section Lists

variable {fmt : FormatCode} {l : SectorList fmt}

/-- The plain entries of a segment mark as many sectors as they are. -/
theorem SectorList.countOnes_run {segment : ℕ}
    (hplain : ∀ e ∈ keyRun cvt2segment segment l.entries, ¬ (0x800000 ≤ e ∧ fmt.flagged)) :
    countOnes (l.lookup segment) = l.runLength segment := by
  have hmem : ∀ e ∈ keyRun cvt2segment segment l.entries, ValidEntry fmt e ∧ cvt2segment e = segment :=
    fun e he => ⟨l.valid e (List.mem_filter.mp he).1, key_of_mem_keyRun he⟩
  have horder : (keyRun cvt2segment segment l.entries).Pairwise EntryOrder := l.ascending.filter _
  have hmarked : markedSectors (l.lookup segment) =
      ((keyRun cvt2segment segment l.entries).map fun e =>
        sectorIndex e % ftSectorsPerSegment).toFinset := by
    ext i
    rw [mem_markedSectors, SectorList.lookup, getLsbD_unionMap, List.mem_toFinset, List.mem_map]
    apply exists_congr
    intro e
    apply and_congr_right
    intro he
    rw [entryMap, if_neg (hplain e he), getLsbD_cvt2map, decide_eq_true_eq]
    exact eq_comm
  have hnodup : ((keyRun cvt2segment segment l.entries).map fun e =>
      sectorIndex e % ftSectorsPerSegment).Nodup := by
    apply List.pairwise_map.mpr
    apply horder.imp_of_mem
    intro a b ha hb hab
    obtain ⟨hvalida, hsega⟩ := hmem a ha
    obtain ⟨hvalidb, hsegb⟩ := hmem b hb
    have hlt := hab.1
    have hpos := hvalida.address_pos
    rw [cvt2segment, hvalida.sectorIndex_eq] at hsega
    rw [cvt2segment, hvalidb.sectorIndex_eq] at hsegb
    rw [hvalida.sectorIndex_eq, hvalidb.sectorIndex_eq]
    unfold ftSectorsPerSegment at *
    omega
  rw [countOnes_eq_card, hmarked, List.toFinset_card_of_nodup hnodup, List.length_map]
  rfl

/-- A canonical run has the length of the entries that would be written for it. -/
theorem SectorList.Canonical.runLength_eq (hcanon : l.Canonical) (segment : ℕ) :
    l.runLength segment = (segmentEntries fmt segment (l.lookup segment)).length := by
  rcases l.run_cases segment with hnil | ⟨e, hrun, hflag⟩ | ⟨-, hplain⟩
  · have hzero : l.lookup segment = 0 := by rw [SectorList.lookup, hnil]; rfl
    rw [← length_segmentEntries, hzero, SectorList.runLength, hnil, if_neg]
    · decide
    · rintro ⟨-, hfull⟩
      exact absurd hfull (by decide)
  · have hempty : l.lookup segment = emptySegment := by
      rw [SectorList.lookup, hrun, unionMap_singleton]
      exact if_pos hflag
    rw [SectorList.runLength, hrun, segmentEntries, if_pos ⟨hflag.2, hempty⟩]
    rfl
  · rw [← length_segmentEntries, l.countOnes_run hplain, if_neg]
    rintro ⟨hflag, hfull⟩
    exact absurd hfull (hcanon hflag segment).ne

/-- The length of a canonical list is determined by the map it records. -/
theorem SectorList.Canonical.length_eq (hcanon : l.Canonical) :
    l.entries.length = recordedLength fmt l.lookup := by
  have hbound : ∀ e ∈ l.entries, cvt2segment e < 0x40000 := by
    intro e he
    rw [cvt2segment, (l.valid e he).sectorIndex_eq]
    unfold ftSectorsPerSegment
    omega
  rw [← sum_length_keyRun hbound, recordedLength]
  apply Finset.sum_congr rfl
  intro segment _
  exact hcanon.runLength_eq segment

/-- An exchange updates the recorded map at its segment. -/
theorem SectorList.lookup_update (l : SectorList fmt) {segment : ℕ} (hseg : Admissible segment)
    (map : SectorMap) : (l.update hseg map).lookup = Function.update l.lookup segment map := by
  funext other
  by_cases hne : other = segment
  · subst hne
    rw [l.lookup_update_self hseg map, Function.update_self]
  · rw [l.lookup_update_of_ne hseg map hne, Function.update_of_ne hne]

/-- An exchange leaves the position of its segment. -/
theorem SectorList.position_update (l : SectorList fmt) {segment : ℕ} (hseg : Admissible segment)
    (map : SectorMap) : (l.update hseg map).position segment = l.position segment := by
  rw [position, update, belowKey_replaceRun_self (cvt2segment_segmentEntries hseg), position]

end Lists

section Arrays

variable (bigEndian : Bool) (header : ℕ → Byte)

/-- A stored word is read back, and words elsewhere are unchanged. -/
theorem storeSectorMap_eq {a : ℕ} (hroom : a + 4 ≤ ftSegmentSize) (map : SectorMap) :
    ∃ header', storeSectorMap bigEndian header a map = some header' ∧
      loadSectorMap bigEndian header' a = some map ∧
      (∀ b, b + 4 ≤ a ∨ a + 4 ≤ b →
        loadSectorMap bigEndian header' b = loadSectorMap bigEndian header b) ∧
      ∀ b < a, header' b = header b := by
  refine ⟨_, if_pos hroom, ?_, fun b hb => ?_, fun b hb => if_neg (by omega)⟩
  · rw [loadSectorMap, if_pos hroom]
    congr 1
    apply eq_of_lanes (b := 8) (w := 4) (by decide)
    intro i hi
    rw [lane_ofLanes (by decide) _ hi le_rfl]
    cases bigEndian with
    | false =>
      simp only [Bool.false_eq_true, if_false]
      rw [if_pos (by omega), Nat.add_sub_cancel_left]
    | true =>
      simp only [if_true]
      rw [if_pos (by omega), Nat.add_sub_cancel_left, show 3 - (3 - i) = i by omega]
  · unfold loadSectorMap
    split
    · congr 1
      apply eq_of_lanes (b := 8) (w := 4) (by decide)
      intro i hi
      rw [lane_ofLanes (by decide) _ hi le_rfl, lane_ofLanes (by decide) _ hi le_rfl]
      apply if_neg
      split <;> omega
    · rfl

end Arrays

/-- The driver refers to a header that records a map, through an agreeing cache where its format
has one. -/
def Represents (bigEndian : Bool) (ftape : FtapeInfo) (f : ℕ → SectorMap) : Prop :=
  if ftape.formatCode.listed then
    ∃ l : SectorList ftape.formatCode, l.Canonical ∧ Tracks ftape l ∧ l.lookup = f
  else ftape.usedHeaderSegment ≠ -1 ∧ ftape.badSectorMap = some (bsmOffset ftape.formatCode) ∧
    ftape.bsmHashPtr = none ∧ Recorded bigEndian ftape.formatCode ftape.header f

section Steps

variable {bigEndian : Bool} {ftape : FtapeInfo} {f : ℕ → SectorMap}

/-- What is represented is recorded. -/
theorem Represents.recorded (h : Represents bigEndian ftape f) :
    Recorded bigEndian ftape.formatCode ftape.header f := by
  unfold Represents at h
  split at h
  · next hlisted =>
    obtain ⟨l, hcanon, htracks, hlookup⟩ := h
    rw [Recorded, if_pos hlisted]
    exact ⟨l, hcanon, htracks.stored, hlookup⟩
  · exact h.2.2.2

/-- After the driver has been reset, extracting a header that records a map represents it. -/
theorem represents_extracted (hused : ftape.usedHeaderSegment ≠ -1) {header : ℕ → Byte}
    (hrec : Recorded bigEndian ftape.formatCode header f) :
    Represents bigEndian (ftapeExtractBadSectorMap (ftapeInitBsm ftape) header) f := by
  by_cases hlisted : ftape.formatCode.listed = true
  · rw [Recorded, if_pos hlisted] at hrec
    obtain ⟨l, hcanon, hstored, hlookup⟩ := hrec
    have hfresh : (ftapeInitBsm ftape).lastReference = -1 := rfl
    have htracks : Tracks (ftapeExtractBadSectorMap (ftapeInitBsm ftape) header) l := by
      apply tracks_extracted (ftapeInitBsm ftape) hlisted hused hstored
      · intro e _
        omega
      · intro hpos
        omega
    exact (if_pos hlisted).mpr ⟨l, hcanon, htracks, hlookup⟩
  · have hrep : ftape.usedHeaderSegment ≠ -1 ∧ some (bsmOffset ftape.formatCode) =
        some (bsmOffset ftape.formatCode) ∧
        (if ftape.formatCode.listed then some 0 else none) = (none : Option ℕ) ∧
        Recorded bigEndian ftape.formatCode header f :=
      ⟨hused, rfl, if_neg hlisted, hrec⟩
    exact (if_neg hlisted).mpr hrep

/-- A lookup answers from the map. -/
theorem Represents.get (h : Represents bigEndian ftape f) {segment : ℕ}
    (hadmits : Admits ftape.formatCode segment) :
    ∃ ftape', ftapeGetBadSectorEntry bigEndian ftape segment = some (f segment, ftape') ∧
      ftape'.formatCode = ftape.formatCode ∧ ftape'.header = ftape.header ∧
      Represents bigEndian ftape' f := by
  unfold Represents at h
  split at h
  · next hlisted =>
    obtain ⟨l, hcanon, htracks, rfl⟩ := h
    exact ⟨_, htracks.get bigEndian segment, rfl, rfl,
      (if_pos hlisted).mpr ⟨l, hcanon, htracks.after_get segment, rfl⟩⟩
  · next hlisted =>
    obtain ⟨hused, hbase, hptr, hrec⟩ := h
    rw [Admits, if_neg hlisted] at hadmits
    have hload := hrec
    rw [Recorded, if_neg hlisted] at hload
    refine ⟨ftape, ?_, rfl, rfl, (if_neg hlisted).mpr ⟨hused, hbase, hptr, hrec⟩⟩
    unfold ftapeGetBadSectorEntry
    rw [if_neg hused, hbase, hptr, Option.bind_eq_bind, Option.bind_some]
    dsimp only
    rw [hload segment hadmits]
    rfl

/-- An update changes the map at its segment and no byte in front of the recorded map. -/
theorem Represents.put (h : Represents bigEndian ftape f) {segment : ℕ}
    (hadmits : Admits ftape.formatCode segment) (newMap : SectorMap)
    (hfits : Fits ftape.formatCode (Function.update f segment newMap)) :
    ∃ ftape', ftapePutBadSectorEntry bigEndian ftape segment newMap = some ftape' ∧
      ftape'.formatCode = ftape.formatCode ∧
      (∀ a < bsmOffset ftape.formatCode, ftape'.header a = ftape.header a) ∧
      Represents bigEndian ftape' (Function.update f segment newMap) := by
  unfold Represents at h
  split at h
  · next hlisted =>
    obtain ⟨l, hcanon, htracks, rfl⟩ := h
    rw [Admits, if_pos hlisted] at hadmits
    have hcanon' := hcanon.update hadmits newMap
    have hroom := hfits hlisted
    rw [← l.lookup_update hadmits newMap, ← hcanon'.length_eq] at hroom
    obtain ⟨header', hput, hstored, hframe⟩ := ftapePutBadSectorEntry_eq htracks.format hlisted
      htracks.base htracks.stored hcanon hadmits newMap hroom bigEndian
    refine ⟨_, hput, rfl, hframe, (if_pos hlisted).mpr ⟨l.update hadmits newMap, hcanon', ?_,
      l.lookup_update hadmits newMap⟩⟩
    refine ⟨htracks.used, rfl, htracks.base, hstored, Or.inr ⟨segment, rfl, ?_, ?_⟩⟩
    · exact congrArg some (l.position_update hadmits newMap).symm
    · exact (l.lookup_update_self hadmits newMap).symm
  · next hlisted =>
    obtain ⟨hused, hbase, hptr, hrec⟩ := h
    rw [Admits, if_neg hlisted] at hadmits
    rw [Recorded, if_neg hlisted] at hrec
    obtain ⟨header', hstore, hsame, hother, hframe⟩ :=
      storeSectorMap_eq bigEndian ftape.header hadmits newMap
    have hrec' : Recorded bigEndian ftape.formatCode header' (Function.update f segment newMap) := by
      rw [Recorded, if_neg hlisted]
      intro other hin
      by_cases hne : other = segment
      · subst hne
        rw [hsame, Function.update_self]
      · rw [Function.update_of_ne hne, hother _ (by omega), hrec other hin]
    refine ⟨{ ftape with lastReference := segment, map := newMap, header := header' }, ?_, rfl,
      fun a ha => hframe a (by omega), (if_neg hlisted).mpr ⟨hused, hbase, hptr, hrec'⟩⟩
    unfold ftapePutBadSectorEntry
    rw [hbase, Option.bind_eq_bind, Option.bind_some]
    dsimp only
    rw [if_neg hlisted, hstore]
    rfl

/-- Any requests are answered from the map and leave the header recording the final map. -/
theorem Represents.execute (h : Represents bigEndian ftape f) (requests : List Request)
    (hadmits : ∀ r ∈ requests, Admits ftape.formatCode r.segment)
    (hfits : ∀ prior, prior <+: requests → Fits ftape.formatCode (answers f prior).2) :
    ∃ ftape', Bsm.execute bigEndian ftape requests = some ((answers f requests).1, ftape') ∧
      ftape'.formatCode = ftape.formatCode ∧
      (∀ a < bsmOffset ftape.formatCode, ftape'.header a = ftape.header a) ∧
      Represents bigEndian ftape' (answers f requests).2 := by
  induction requests generalizing ftape f with
  | nil => exact ⟨ftape, rfl, rfl, fun _ _ => rfl, h⟩
  | cons r rest ih =>
    have hrest : ∀ r' ∈ rest, Admits ftape.formatCode r'.segment :=
      fun r' hr' => hadmits r' (List.mem_cons_of_mem r hr')
    cases r with
    | get segment =>
      have hhead : Admits ftape.formatCode segment := hadmits (.get segment) List.mem_cons_self
      obtain ⟨ftape₁, hget, hfmt, hheader, hrep⟩ := h.get hhead
      have hfits₁ : ∀ prior, prior <+: rest → Fits ftape.formatCode (answers f prior).2 := by
        intro prior hprior
        have hroom := hfits (.get segment :: prior) (List.cons_prefix_cons.mpr ⟨rfl, hprior⟩)
        rw [answers] at hroom
        exact hroom
      rw [← hfmt] at hrest hfits₁
      obtain ⟨ftape₂, hrun, hfmt₂, hframe, hrep₂⟩ := ih hrep hrest hfits₁
      refine ⟨ftape₂, ?_, hfmt₂.trans hfmt, ?_, hrep₂⟩
      · rw [Bsm.execute, hget, Option.bind_eq_bind, Option.bind_some]
        dsimp only
        rw [hrun]
        rfl
      · rw [hfmt, hheader] at hframe
        exact hframe
    | put segment newMap =>
      have hhead : Admits ftape.formatCode segment :=
        hadmits (.put segment newMap) List.mem_cons_self
      have hfits₁ : ∀ prior, prior <+: rest →
          Fits ftape.formatCode (answers (Function.update f segment newMap) prior).2 := by
        intro prior hprior
        have hroom := hfits (.put segment newMap :: prior) (List.cons_prefix_cons.mpr ⟨rfl, hprior⟩)
        rw [answers] at hroom
        exact hroom
      obtain ⟨ftape₁, hput, hfmt, hframe₁, hrep⟩ := h.put hhead newMap (hfits₁ [] List.nil_prefix)
      rw [← hfmt] at hrest hfits₁
      obtain ⟨ftape₂, hrun, hfmt₂, hframe₂, hrep₂⟩ := ih hrep hrest hfits₁
      refine ⟨ftape₂, ?_, hfmt₂.trans hfmt, fun a ha => ?_, hrep₂⟩
      · rw [Bsm.execute, hput, Option.bind_eq_bind, Option.bind_some, hrun]
        rfl
      · rw [hfmt] at hframe₂
        rw [hframe₂ a ha, hframe₁ a ha]

end Steps

/-- A header that records a map is extracted after a reset, with a header segment in use. Then
any lookups and updates of segments the format admits behave as on the map, as long as the
list of the map fits, and the header goes on recording the map. -/
theorem ftapeExtractBadSectorMap_refines (bigEndian : Bool) (ftape : FtapeInfo)
    (hused : ftape.usedHeaderSegment ≠ -1) (header : ℕ → Byte) (f : ℕ → SectorMap)
    (hrec : Recorded bigEndian ftape.formatCode header f) (requests : List Request)
    (hadmits : ∀ r ∈ requests, Admits ftape.formatCode r.segment)
    (hfits : ∀ prior, prior <+: requests → Fits ftape.formatCode (answers f prior).2) :
    ∃ ftape', execute bigEndian (ftapeExtractBadSectorMap (ftapeInitBsm ftape) header) requests =
        some ((answers f requests).1, ftape') ∧
      Recorded bigEndian ftape.formatCode ftape'.header (answers f requests).2 ∧
      ∀ a < bsmOffset ftape.formatCode, ftape'.header a = header a := by
  obtain ⟨ftape', hrun, hfmt, hframe, hrep⟩ :=
    (represents_extracted hused hrec).execute requests hadmits hfits
  refine ⟨ftape', hrun, ?_, hframe⟩
  have hrec' := hrep.recorded
  rw [hfmt] at hrec'
  exact hrec'

/-- The one-sector list is canonical. -/
theorem canonical_oneSectorList : oneSectorList.Canonical :=
  fun _ _ => lt_of_le_of_lt (List.length_filter_le _ _) (by decide)

/-- The one-sector header records its list. -/
theorem recorded_oneSectorHeader :
    Recorded false .fmtVar oneSectorHeader oneSectorList.lookup :=
  (if_pos rfl).mpr ⟨oneSectorList, canonical_oneSectorList, stored_oneSectorHeader, rfl⟩

/-- An update and a lookup on the header with one bad sector. -/
theorem ftapeExtractBadSectorMap_refines_oneSector :
    ∃ ftape', execute false (ftapeExtractBadSectorMap (ftapeInitBsm idleDriver) oneSectorHeader)
        [.put 4 emptySegment, .get 3] =
        some ((answers oneSectorList.lookup [.put 4 emptySegment, .get 3]).1, ftape') ∧
      Recorded false .fmtVar ftape'.header
        (answers oneSectorList.lookup [.put 4 emptySegment, .get 3]).2 ∧
      ∀ a < bsmOffset .fmtVar, ftape'.header a = oneSectorHeader a := by
  have hfour : Admissible 4 := by decide
  have hold : Fits .fmtVar oneSectorList.lookup := by
    intro _
    rw [← canonical_oneSectorList.length_eq]
    decide
  have hnew : Fits .fmtVar (Function.update oneSectorList.lookup 4 emptySegment) := by
    intro _
    rw [← oneSectorList.lookup_update hfour, ← (canonical_oneSectorList.update hfour _).length_eq,
      SectorList.update_entries]
    decide
  apply ftapeExtractBadSectorMap_refines false idleDriver (by decide) oneSectorHeader
    oneSectorList.lookup recorded_oneSectorHeader
  · intro r hr
    have hcases : r = .put 4 emptySegment ∨ r = .get 3 := by simpa using hr
    cases hcases with
    | inl hput => rw [hput]; exact hfour
    | inr hget => rw [hget]; exact (by decide : Admissible 3)
  · intro prior hprior
    have hcases : prior = [] ∨ prior = [.put 4 emptySegment] ∨
        prior = [.put 4 emptySegment, .get 3] := by
      simpa [List.inits] using (List.mem_inits prior _).mpr hprior
    rcases hcases with rfl | rfl | rfl
    · exact hold
    · exact hnew
    · exact hnew

/-- While no header segment is in use the recorded map is not read: the bad sector in segment
three is reported as good. -/
theorem ftapeExtractBadSectorMap_blank :
    (execute false (ftapeExtractBadSectorMap
      (ftapeInitBsm { idleDriver with usedHeaderSegment := -1 }) oneSectorHeader)
      [.get 3]).map Prod.fst = some [0] ∧
      Recorded false .fmtVar oneSectorHeader oneSectorList.lookup ∧ oneSectorList.lookup 3 = 1 :=
  ⟨rfl, recorded_oneSectorHeader, by decide⟩

end Ftape.Bsm
