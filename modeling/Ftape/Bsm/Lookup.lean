import Ftape.Bsm.Cursor

/-!
# Lookups and their history

A lookup is answered from the cached segment, its map and the list pointer. They agree with the
list once a lookup or an update has set them. Extracting a new list resets the pointer and
nothing else, so the first lookups may still be answered for the earlier list; the last theorem
says exactly when they are not.
-/

namespace Ftape.Bsm

open Ftape.Algebra

/-- A lookup or an update. -/
inductive Request where
  | get (segment : ℕ)
  | put (segment : ℕ) (newMap : SectorMap)

/-- The segment of a request. -/
def Request.segment : Request → ℕ
  | .get segment => segment
  | .put segment _ => segment

/-- Requests in order, with the answers to the lookups. -/
def execute (bigEndian : Bool) : FtapeInfo → List Request → Option (List SectorMap × FtapeInfo)
  | ftape, [] => some ([], ftape)
  | ftape, .get segment :: rest => do
    let (map, ftape) ← ftapeGetBadSectorEntry bigEndian ftape segment
    let (maps, ftape) ← execute bigEndian ftape rest
    some (map :: maps, ftape)
  | ftape, .put segment newMap :: rest => do
    let ftape ← ftapePutBadSectorEntry bigEndian ftape segment newMap
    execute bigEndian ftape rest

/-- The cached fields agree with a list: no segment was looked up yet and the pointer is at its
start, or the pointer and the map belong to the last segment. -/
def Cursor {fmt : FormatCode} (l : SectorList fmt) (lastReference : ℤ) (ptr : Option ℕ)
    (map : SectorMap) : Prop :=
  (lastReference < 0 ∧ ptr = some 0) ∨
    ∃ segment : ℕ, lastReference = segment ∧ ptr = some (l.position segment) ∧
      map = l.lookup segment

/-- The driver state refers to a stored list through an agreeing cache. -/
structure Tracks {fmt : FormatCode} (ftape : FtapeInfo) (l : SectorList fmt) : Prop where
  used : ftape.usedHeaderSegment ≠ -1
  format : ftape.formatCode = fmt
  base : ftape.badSectorMap = some (bsmOffset fmt)
  stored : Stored ftape.header (bsmOffset fmt) l.entries
  cursor : Cursor l ftape.lastReference ftape.bsmHashPtr ftape.map

section Lookups

variable {fmt : FormatCode} {l : SectorList fmt} {ftape : FtapeInfo}

/-- Positions ascend with the segments. -/
theorem SectorList.position_le {s t : ℕ} (hst : s < t) :
    l.position s + l.runLength s ≤ l.position t :=
  length_belowKey_add_keyRun_le hst l.entries

/-- The seek of a lookup ends at the position of its segment with the recorded map. -/
theorem Tracks.seekEntry (h : Tracks ftape l) {ptr : ℕ} (hptr : ftape.bsmHashPtr = some ptr)
    (segment : ℕ) :
    ∃ count, seekEntry ftape (bsmOffset fmt) segment ptr =
      some (l.position segment, l.lookup segment, count) := by
  have hbound (t : ℕ) : l.position t ≤ l.entries.length := List.length_filter_le _ _
  have hstored := h.stored
  unfold Bsm.seekEntry
  rw [h.format]
  cases h.cursor with
  | inl hfresh =>
    obtain rfl : ptr = 0 := Option.some.inj (hptr.symm.trans hfresh.2)
    rw [if_pos (by omega), forwardSeekEntry_eq hstored (Nat.zero_le _)]
    exact ⟨_, rfl⟩
  | inr hlast =>
    obtain ⟨last, hlast, hpos, hmap⟩ := hlast
    obtain rfl : ptr = l.position last := Option.some.inj (hptr.symm.trans hpos)
    rw [hlast]
    rcases Nat.lt_trichotomy last segment with hlt | rfl | hgt
    · have hle : l.position last ≤ l.position segment := by
        have := l.position_le hlt
        omega
      rw [if_pos (by exact_mod_cast hlt), forwardSeekEntry_eq hstored hle]
      exact ⟨_, rfl⟩
    · rw [if_neg (lt_irrefl _), if_neg (lt_irrefl _), hmap]
      exact ⟨_, rfl⟩
    · rw [if_neg (by omega), if_pos (by exact_mod_cast hgt)]
      exact backwardsSeekEntry_eq hstored (l.position_le hgt) (hbound last)

/-- A tracked list has a list pointer. -/
theorem Tracks.hashPtr (h : Tracks ftape l) : ∃ ptr, ftape.bsmHashPtr = some ptr := by
  cases h.cursor with
  | inl hfresh => exact ⟨0, hfresh.2⟩
  | inr hlast =>
    obtain ⟨last, -, hpos, -⟩ := hlast
    exact ⟨_, hpos⟩

/-- A lookup answers from the list and leaves the cache at its segment. -/
theorem Tracks.get (h : Tracks ftape l) (bigEndian : Bool) (segment : ℕ) :
    ftapeGetBadSectorEntry bigEndian ftape segment =
      some (l.lookup segment,
        { ftape with
          bsmHashPtr := some (l.position segment)
          map := l.lookup segment
          lastReference := segment }) := by
  obtain ⟨ptr, hptr⟩ := h.hashPtr
  obtain ⟨count, hseek⟩ := h.seekEntry hptr segment
  unfold ftapeGetBadSectorEntry
  rw [if_neg h.used, h.base, hptr, Option.bind_eq_bind, Option.bind_some]
  dsimp only
  rw [hseek]
  rfl

/-- The state after a lookup still tracks the list. -/
theorem Tracks.after_get (h : Tracks ftape l) (segment : ℕ) :
    Tracks { ftape with
      bsmHashPtr := some (l.position segment)
      map := l.lookup segment
      lastReference := segment } l where
  used := h.used
  format := h.format
  base := h.base
  stored := h.stored
  cursor := Or.inr ⟨segment, rfl, rfl, rfl⟩

/-- Any sequence of lookups is answered from the list. -/
theorem Tracks.lookups (h : Tracks ftape l) (bigEndian : Bool) (segments : List ℕ) :
    ∃ ftape', execute bigEndian ftape (segments.map .get) = some (segments.map l.lookup, ftape') := by
  induction segments generalizing ftape with
  | nil => exact ⟨ftape, rfl⟩
  | cons segment rest ih =>
    obtain ⟨ftape', hrest⟩ := ih (h.after_get segment)
    refine ⟨ftape', ?_⟩
    rw [List.map_cons, execute, h.get bigEndian segment, Option.bind_eq_bind, Option.bind_some]
    dsimp only
    rw [hrest]
    rfl

/-- While no header segment is in use every lookup gives a blank map. -/
theorem lookups_unused (hused : ftape.usedHeaderSegment = -1) (bigEndian : Bool)
    (segments : List ℕ) :
    execute bigEndian ftape (segments.map .get) = some (segments.map fun _ => 0, ftape) := by
  induction segments with
  | nil => rfl
  | cons segment rest ih =>
    have hget : ftapeGetBadSectorEntry bigEndian ftape segment = some (0, ftape) := if_pos hused
    rw [List.map_cons, execute, hget, Option.bind_eq_bind, Option.bind_some]
    dsimp only
    rw [ih]
    rfl

/-- A recorded entry marks a sector of its segment. -/
theorem SectorList.lookup_ne_zero {e : ℕ} (he : e ∈ l.entries) : l.lookup (cvt2segment e) ≠ 0 := by
  have hrun : e ∈ keyRun cvt2segment (cvt2segment e) l.entries :=
    List.mem_filter.mpr ⟨he, decide_eq_true rfl⟩
  obtain ⟨i, hbit⟩ : ∃ i, (entryMap fmt e).getLsbD i = true := by
    unfold entryMap
    split
    · exact ⟨0, by decide⟩
    · refine ⟨sectorIndex e % ftSectorsPerSegment, ?_⟩
      rw [getLsbD_cvt2map]
      exact decide_eq_true rfl
  intro hzero
  have hset := (getLsbD_unionMap fmt _ i).mpr ⟨e, hrun, hbit⟩
  have hclear : (l.lookup (cvt2segment e)).getLsbD i = false := by rw [hzero]; exact BitVec.getLsbD_zero
  rw [SectorList.lookup, hset] at hclear
  exact Bool.noConfusion hclear

/-- Nothing is recorded before the first position. -/
theorem SectorList.position_eq_zero {segment : ℕ}
    (h : ∀ e ∈ l.entries, segment ≤ cvt2segment e) : l.position segment = 0 := by
  unfold position belowKey
  rw [List.length_eq_zero_iff]
  apply List.filter_eq_nil_iff.mpr
  intro e he
  have := h e he
  simp only [decide_eq_true_eq]
  omega

/-- Extracting a list resets the pointer, so a lookup before the cached segment ends at once with
a blank map, and a lookup of the cached segment gives the cached map. -/
theorem ftapeExtractBadSectorMap_get (bigEndian : Bool) (ftape : FtapeInfo)
    (hlisted : ftape.formatCode.listed = true) (hused : ftape.usedHeaderSegment ≠ -1)
    (buffer : ℕ → Byte) {segment : ℕ} (hle : (segment : ℤ) ≤ ftape.lastReference) :
    (ftapeGetBadSectorEntry bigEndian (ftapeExtractBadSectorMap ftape buffer) segment).map Prod.fst =
      some (if (segment : ℤ) = ftape.lastReference then ftape.map else 0) := by
  have hused' : (ftapeExtractBadSectorMap ftape buffer).usedHeaderSegment ≠ -1 := hused
  have hptr : (ftapeExtractBadSectorMap ftape buffer).bsmHashPtr = some 0 := if_pos hlisted
  have hbase : (ftapeExtractBadSectorMap ftape buffer).badSectorMap =
      some (bsmOffset ftape.formatCode) := rfl
  have hseek : seekEntry (ftapeExtractBadSectorMap ftape buffer) (bsmOffset ftape.formatCode)
      segment 0 = some (0, if (segment : ℤ) = ftape.lastReference then ftape.map else 0, 0) := by
    unfold seekEntry
    change (if ftape.lastReference < segment then _ else if (segment : ℤ) < ftape.lastReference then
      backwardsSeekEntry _ _ _ _ _ else some (0, ftape.map, 0)) = _
    rw [if_neg (not_lt.mpr hle)]
    by_cases heq : (segment : ℤ) = ftape.lastReference
    · rw [if_pos heq, if_neg heq.not_lt]
    · rw [if_neg heq, if_pos (lt_of_le_of_ne hle heq)]
      exact if_pos rfl
  unfold ftapeGetBadSectorEntry
  rw [if_neg hused', hbase, hptr, Option.bind_eq_bind, Option.bind_some]
  dsimp only
  rw [hseek]
  rfl

/-- A single lookup is the first answer of a sequence of one. -/
theorem execute_singleton (bigEndian : Bool) (ftape : FtapeInfo) (segment : ℕ) :
    (execute bigEndian ftape [.get segment]).map Prod.fst =
      (ftapeGetBadSectorEntry bigEndian ftape segment).map fun answer => [answer.1] := by
  rw [execute]
  cases ftapeGetBadSectorEntry bigEndian ftape segment with
  | none => rfl
  | some answer => rfl

/-- An extracted list is tracked when the cache happens to agree with it. -/
theorem tracks_extracted (ftape : FtapeInfo) {l : SectorList ftape.formatCode} {buffer : ℕ → Byte}
    (hlisted : ftape.formatCode.listed = true) (hused : ftape.usedHeaderSegment ≠ -1)
    (hstored : Stored buffer (bsmOffset ftape.formatCode) l.entries)
    (hfirst : ∀ e ∈ l.entries, ftape.lastReference ≤ cvt2segment e)
    (hmap : 0 ≤ ftape.lastReference → ftape.map = l.lookup ftape.lastReference.toNat) :
    Tracks (ftapeExtractBadSectorMap ftape buffer) l where
  used := hused
  format := rfl
  base := rfl
  stored := hstored
  cursor := by
    have hptr : (ftapeExtractBadSectorMap ftape buffer).bsmHashPtr = some 0 := if_pos hlisted
    rcases lt_or_ge ftape.lastReference 0 with hneg | hlast
    · exact Or.inl ⟨hneg, hptr⟩
    · refine Or.inr ⟨ftape.lastReference.toNat, (Int.toNat_of_nonneg hlast).symm, ?_, hmap hlast⟩
      rw [hptr, l.position_eq_zero]
      intro e he
      have := hfirst e he
      omega

/-- After a list has been extracted all lookups are answered from it exactly when the segment of
the last earlier lookup is not behind its first entry and its cached map is the one recorded
now. While no header segment is in use this takes an empty list. -/
theorem ftapeExtractBadSectorMap_lookups (bigEndian : Bool) (ftape : FtapeInfo)
    (hlisted : ftape.formatCode.listed = true) (buffer : ℕ → Byte)
    (l : SectorList ftape.formatCode)
    (hstored : Stored buffer (bsmOffset ftape.formatCode) l.entries) :
    (∀ segments : List ℕ,
      (execute bigEndian (ftapeExtractBadSectorMap ftape buffer) (segments.map .get)).map Prod.fst =
        some (segments.map l.lookup)) ↔
      if ftape.usedHeaderSegment = -1 then l.entries = []
      else (∀ e ∈ l.entries, ftape.lastReference ≤ cvt2segment e) ∧
        (0 ≤ ftape.lastReference → ftape.map = l.lookup ftape.lastReference.toNat) := by
  split
  · next hused =>
    have hblank (segments : List ℕ) := lookups_unused
      (show (ftapeExtractBadSectorMap ftape buffer).usedHeaderSegment = -1 from hused) bigEndian segments
    constructor
    · intro h
      by_contra hne
      obtain ⟨e, he⟩ := List.exists_mem_of_ne_nil _ hne
      have hone := h [cvt2segment e]
      rw [hblank, Option.map_some, Option.some.injEq] at hone
      have hzero : (0 : SectorMap) = l.lookup (cvt2segment e) := by simpa using hone
      exact l.lookup_ne_zero he hzero.symm
    · intro hnil segments
      have hlookup : l.lookup = fun _ => 0 := by
        funext segment
        rw [SectorList.lookup, hnil]
        rfl
      rw [hblank, Option.map_some, hlookup]
  · next hused =>
    constructor
    · intro h
      -- one lookup of the cached segment, or of a recorded one before it, shows a stale cache
      have hanswer {segment : ℕ} (hle : (segment : ℤ) ≤ ftape.lastReference) :
          (if (segment : ℤ) = ftape.lastReference then ftape.map else 0) = l.lookup segment := by
        have hone := h [segment]
        have hget := ftapeExtractBadSectorMap_get bigEndian ftape hlisted hused buffer hle
        rw [List.map_cons, List.map_nil, execute_singleton] at hone
        obtain ⟨answer, hsome, hmap⟩ := Option.map_eq_some_iff.mp hget
        rw [hsome, Option.map_some, Option.some.injEq, hmap] at hone
        simpa using hone
      constructor
      · intro e he
        by_contra hbehind
        have hle : (cvt2segment e : ℤ) ≤ ftape.lastReference := by omega
        have hzero := hanswer hle
        rw [if_neg (by omega)] at hzero
        exact l.lookup_ne_zero he hzero.symm
      · intro hlast
        have hnat := Int.toNat_of_nonneg hlast
        have hsame := hanswer hnat.le
        rw [if_pos hnat] at hsame
        exact hsame
    · rintro ⟨hfirst, hmap⟩ segments
      obtain ⟨ftape', hrun⟩ :=
        (tracks_extracted ftape hlisted hused hstored hfirst hmap).lookups bigEndian segments
      rw [hrun, Option.map_some]

end Lookups

/-- A driver without a cartridge yet. -/
def idleDriver : FtapeInfo := ⟨0, .fmtVar, fun _ => 0, none, none, -1, 0⟩

/-- A header whose only entry is the first sector of segment three. -/
def oneSectorHeader : ℕ → Byte := fun a => if a = 256 then 97 else 0

/-- The list in that header. -/
def oneSectorList : SectorList .fmtVar where
  entries := [97]
  valid e he := by
    rw [List.mem_singleton.mp he]
    exact ⟨by decide, by decide, by decide⟩
  ascending := List.pairwise_singleton _ _

/-- The header holds its list. -/
theorem stored_oneSectorHeader :
    Stored oneSectorHeader (bsmOffset .fmtVar) oneSectorList.entries := by
  intro k hk
  have hlen : oneSectorList.entries.length = 1 := rfl
  have hcases : k = 0 ∨ k = 1 := by omega
  cases hcases with
  | inl hzero =>
    subst hzero
    decide +kernel
  | inr hone =>
    subst hone
    decide +kernel

/-- The first cartridge of a driver is looked up correctly, also backwards. -/
theorem ftapeExtractBadSectorMap_lookups_first :
    (execute false (ftapeExtractBadSectorMap idleDriver oneSectorHeader)
      [.get 5, .get 3]).map Prod.fst = some [0, 1] := by
  have hlookups := (ftapeExtractBadSectorMap_lookups false idleDriver rfl oneSectorHeader
    oneSectorList stored_oneSectorHeader).mpr ⟨by decide, by decide⟩
  have hmaps : [5, 3].map oneSectorList.lookup = [0, 1] := by decide
  rw [← hmaps]
  exact hlookups [5, 3]

/-- A cartridge without bad sectors on which segment five was looked up hides the bad sector in
segment three of the next cartridge. -/
theorem ftapeExtractBadSectorMap_stale :
    ∃ ftape,
      execute false (ftapeExtractBadSectorMap (ftapeInitBsm idleDriver) fun _ => 0) [.get 5] =
        some ([0], ftape) ∧
      (execute false (ftapeExtractBadSectorMap ftape oneSectorHeader) [.get 3]).map Prod.fst =
        some [0] ∧
      Stored oneSectorHeader (bsmOffset .fmtVar) oneSectorList.entries ∧
      oneSectorList.lookup 3 = 1 :=
  ⟨_, rfl, rfl, stored_oneSectorHeader, by decide⟩

end Ftape.Bsm
