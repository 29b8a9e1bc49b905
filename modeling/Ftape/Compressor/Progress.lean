import Ftape.Compressor.Read
import Ftape.Compressor.Totality

/-!
# The bytes that reading a compressed volume takes

`zftc_read()` counts the bytes that it takes from a segment, and keeps the offset of the next cluster besides. Both
agree as long as each cluster header that is taken announces bytes of the cluster. The two bytes of a header that
announces none are not counted.
-/

namespace Ftape.Compressor

open Ftape.Algebra Ftape.Volume

/-- A cluster header is taken where there is room for one, or where the file offset tells of a cluster. -/
def HeaderTaken (segment : Segment) (cseg : CmprInfo) : Prop :=
  18 < uintSub segment.size cseg.offset ∨ cseg.foffs ≠ 0

/-- A cluster header that is taken announces bytes of the cluster, and some of them lie in the segment. -/
def Announces (bigEndian : Bool) (segment : Segment) (cseg : CmprInfo) : Prop :=
  HeaderTaken segment cseg →
    cseg.offset + 2 < segment.size ∧ fetch bigEndian segment.data cseg.offset 2 % 0x8000 ≠ 0

/-- What reading must find for its count to be right. -/
def Event.Announced (bigEndian : Bool) : Event → Prop
  | .nextCluster _ segment cseg => Announces bigEndian segment cseg
  | _ => True

/-- What a routine ends with if each cluster header that it takes announces something. -/
abbrev Takes (bigEndian : Bool) {Value : Type} (post : Value → Prop) (routine : Reading Value) : Prop :=
  routine.Guards (Event.Announced bigEndian) (fun _ => True) post

/-- The buffers were allocated for a volume. -/
def Zftc.Allocated (volume : VtblEntry) (zftc : Zftc) : Prop :=
  zftc.cmprMemInitialized = true ∧ volume.blkSz = zftc.allocBlksz

/-- `in_sz` for the cluster in the buffer. -/
def Zftc.inSz (zftc : Zftc) : ℤ := if zftc.cseg.uncmpr = 0x8000 then -zftc.cseg.cmprPos else zftc.cseg.cmprPos

/-- The cluster in the buffer is complete, and does not stand for a block of the volume. -/
structure Zftc.Broken (volume : VtblEntry) (zftc : Zftc) : Prop where
  allocated : zftc.Allocated volume
  spans : zftc.cseg.spans = false
  pending : zftc.cseg.cmprPos ≠ 0
  length : uncompressedLength zftc.buf zftc.inSz volume.blkSz ≠ volume.blkSz

/-- The compressor has passed a cluster, and the next one starts at this place. -/
structure CmprInfo.Between (place : ℤ) (cseg : CmprInfo) : Prop where
  offset : (cseg.offset : ℤ) = place
  spans : cseg.spans = false
  pending : cseg.cmprPos = 0

/-- Reading goes on at a place in a segment: at its start, or between two clusters, or with a cluster that cannot be
uncompressed. -/
def Zftc.GoesOnAt (volume : VtblEntry) (size : ℕ) (place : ℤ) (zftc : Zftc) : Prop :=
  place = 0 ∨ 0 < place ∧ place < size ∧ (zftc.cseg.Between place ∨ zftc.Broken volume)

/-- The count agrees with the offset, from a place in the segment on. -/
structure Progress.Agrees (segment : Segment) (place : ℤ) (p : Progress) : Prop where
  offset : place + p.readCnt = p.zftc.cseg.offset
  inside : p.zftc.cseg.offset ≤ segment.size
  spans : p.zftc.cseg.spans = true → p.zftc.cseg.offset = segment.size
  nonneg : 0 ≤ p.readCnt

/-- What the loop of `zftc_read()` keeps. Without bytes taken yet it starts between two clusters. -/
structure Progress.Kept (volume : VtblEntry) (segment : Segment) (place : ℤ) (p : Progress) : Prop
    extends p.Agrees segment place where
  allocated : p.zftc.Allocated volume
  done : p.remaining ≤ 0 → p.zftc.cseg.cmprPos = 0
  ahead : 0 < p.readCnt ∨ segment.size ≤ p.zftc.cseg.offset + 18 ∨
    p.GoesOn ∧ p.zftc.cseg.cmprPos = 0

/-- An error leaves the compressor where the same error, or none, comes again, unless the user's memory was to blame. -/
def Progress.Fails (volume : VtblEntry) (userFault : ℤ → Bool) (p : Progress) : Prop :=
  p.error = some .eio ∧ p.zftc.Broken volume ∨ p.error = some .efault ∧ ∃ i, userFault i = true

section Routines

variable {bigEndian : Bool} {volume : VtblEntry} {segment : Segment} {place : ℤ}

/-- A number in the segment. -/
theorem Segment.get_ends (offset bytes : ℕ) :
    (segment.get bigEndian offset bytes).Ends fun value => value = fetch bigEndian segment.data offset bytes :=
  Recorded.Ends.bind (Recorded.Ends.note _) fun _ _ => Recorded.Ends.pure rfl

/-- The buffer is filled, and nothing else changes. -/
theorem Zftc.fill_ends (zftc : Zftc) (dst : ℤ) (src count : ℕ) :
    (zftc.fill segment dst src count).Ends fun zftc' => ∃ buf, zftc' = { zftc with buf := buf } :=
  Recorded.Ends.bind (Recorded.Ends.note _) fun _ _ =>
    Recorded.Ends.bind (Recorded.Ends.note _) fun _ _ => Recorded.Ends.pure ⟨_, rfl⟩

/-- The first cluster that starts in a segment starts behind its header. -/
structure CmprInfo.Begun (segment : Segment) (cseg : CmprInfo) : Prop where
  pos : 0 < cseg.offset
  inside : cseg.offset ≤ segment.size
  spans : cseg.spans = true → cseg.offset = segment.size

/-- Where the data from the segment before ends. -/
theorem continuedCluster_begun {firstBlock : ℕ} (cinfo : CmprInfo) (hfirst : firstBlock ≤ segment.size) :
    (continuedCluster segment firstBlock cinfo).Begun segment := by
  obtain ⟨hlow, -⟩ := segment.size_bounds
  rw [continuedCluster]
  by_cases hzero : firstBlock = 0
  · rw [if_pos hzero]
    exact ⟨by dsimp only; omega, le_rfl, fun _ => rfl⟩
  · rw [if_neg hzero]
    exact ⟨Nat.pos_of_ne_zero hzero, hfirst, fun hspans => Bool.noConfusion hspans⟩

/-- The file offset is taken where there is room for it. -/
theorem fileOffset_ends {cinfo : CmprInfo} (h : cinfo.Begun segment) :
    (fileOffset bigEndian volume segment cinfo).Ends fun cinfo' => cinfo'.Begun segment := by
  obtain ⟨-, hhigh⟩ := segment.size_bounds
  have hinside := h.inside
  rw [fileOffset]
  by_cases hroom : 18 < uintSub segment.size cinfo.offset
  · rw [if_pos hroom]
    rw [uintSub_of_le hinside (by omega)] at hroom
    have hmoved : ∀ bytes ≤ 8, ∀ foffs : ℤ,
        ({ cinfo with foffs := foffs, offset := Header.uint (cinfo.offset + bytes) } : CmprInfo).Begun segment := by
      intro bytes hbytes foffs
      have hoffset : Header.uint (cinfo.offset + bytes) = cinfo.offset + bytes := by
        rw [Header.uint]
        omega
      rw [hoffset]
      refine ⟨Nat.add_pos_left h.pos _, by dsimp only; omega, fun hspans => ?_⟩
      have := h.spans hspans
      omega
    by_cases hqic : volume.qic113 = true
    · rw [if_pos hqic]
      exact Recorded.Ends.bind (Segment.get_ends _ _) fun _ _ => Recorded.Ends.pure (hmoved 8 le_rfl _)
    · rw [if_neg hqic]
      exact Recorded.Ends.bind (Segment.get_ends _ _) fun _ _ => Recorded.Ends.pure (hmoved 4 (by decide) _)
  · rw [if_neg hroom]
    exact Recorded.Ends.pure h

/-- A segment that is consistent begins. -/
theorem getCseg_ends (cinfo : CmprInfo) :
    (getCseg bigEndian volume segment cinfo).Ends fun result => result.1 = true → result.2.Begun segment := by
  rw [getCseg]
  refine Recorded.Ends.bind (Segment.get_ends 0 2) fun firstBlock _ => ?_
  by_cases hfirst : segment.size < firstBlock
  · rw [if_pos hfirst]
    exact Recorded.Ends.pure fun h => Bool.noConfusion h
  · rw [if_neg hfirst]
    refine Recorded.Ends.bind (fileOffset_ends (continuedCluster_begun cinfo (Nat.le_of_not_lt hfirst))) ?_
    exact fun cinfo' h => Recorded.Ends.pure fun _ => h

/-- A segment that was just read is taken up to its first cluster, or is refused. -/
theorem startSegment_ends {p : Progress} (hallocated : p.zftc.Allocated volume) (herror : p.error = none)
    (hmore : 0 < p.remaining) :
    (startSegment bigEndian volume segment p).Ends fun p' =>
      (p'.error = none → p'.Kept volume segment 0) ∧ (p'.error ≠ none → p'.error = some .eio) := by
  obtain ⟨-, hhigh⟩ := segment.size_bounds
  rw [startSegment]
  refine Recorded.Ends.bind (Recorded.Ends.note _) fun _ _ => ?_
  refine Recorded.Ends.bind (getCseg_ends p.zftc.cseg) ?_
  rintro ⟨consistent, cseg⟩ hbegun
  cases consistent with
  | false => exact Recorded.Ends.pure ⟨(fun h => by cases h), fun _ => rfl⟩
  | true =>
    refine Recorded.Ends.bind (Zftc.fill_ends _ _ _ _) ?_
    rintro zftc ⟨buf, rfl⟩
    have hbegun : cseg.Begun segment := hbegun rfl
    have hinside := hbegun.inside
    have hpos := hbegun.pos
    have hcount : Header.int cseg.offset = cseg.offset := int_natCast (by omega)
    dsimp only [if_true]
    rw [hcount]
    refine Recorded.Ends.pure ⟨fun _ => ⟨⟨zero_add _, hinside, hbegun.spans, Int.natCast_nonneg _⟩, hallocated,
      fun hdone => absurd hmore (not_lt.mpr hdone), Or.inl (Int.natCast_pos.mpr hpos)⟩,
      fun hsome => absurd herror hsome⟩

/-- A complete cluster gives a block, or fails. -/
theorem uncompressCluster_ends {p : Progress} {userFault : ℤ → Bool} (h : p.Kept volume segment place)
    (herror : p.error = none) (hgoes : p.GoesOn) :
    (uncompressCluster volume userFault p).Ends fun p' =>
      (p'.error = none → p'.Agrees segment place ∧ p'.zftc.Allocated volume ∧ p'.zftc.cseg.spans = false ∧
        p'.zftc.cseg.cmprPos = 0 ∧ p'.zftc.cseg.offset = p.zftc.cseg.offset ∧ p'.readCnt = p.readCnt ∧
        (p.zftc.cseg.cmprPos = 0 → p'.remaining = p.remaining)) ∧
      (p'.error ≠ none → p'.Fails volume userFault) := by
  rw [uncompressCluster]
  by_cases hpending : p.zftc.cseg.cmprPos ≠ 0
  · rw [if_pos hpending]
    refine Recorded.Ends.bind (Recorded.Ends.note _) fun _ _ => ?_
    refine Recorded.Ends.bind ((compressDecompress_ends _ _ _ _ _).translate Event.access) ?_
    rintro ⟨uncompressedSz, scratchBuf⟩ hlength
    have hlength : uncompressedSz = uncompressedLength p.zftc.buf p.zftc.inSz volume.blkSz := hlength
    dsimp only
    by_cases hsize : uncompressedSz ≠ volume.blkSz
    · rw [if_pos hsize]
      refine Recorded.Ends.pure ⟨(fun h => by cases h), fun _ => Or.inl ⟨rfl, h.allocated, hgoes.1, hpending, ?_⟩⟩
      exact hlength ▸ hsize
    · rw [if_neg hsize]
      refine Recorded.Ends.bind (Recorded.Ends.note _) fun _ _ => ?_
      by_cases hfault : userFault p.result = true
      · rw [if_pos hfault]
        exact Recorded.Ends.pure ⟨(fun h => by cases h), fun _ => Or.inr ⟨rfl, _, hfault⟩⟩
      · rw [if_neg hfault]
        refine Recorded.Ends.pure ⟨fun _ => ⟨⟨h.offset, h.inside, h.spans, h.nonneg⟩, h.allocated, hgoes.1, rfl, rfl, rfl,
          fun hzero => absurd hzero hpending⟩, fun hsome => absurd herror hsome⟩
  · rw [if_neg hpending]
    have hzero : p.zftc.cseg.cmprPos = 0 := not_not.mp hpending
    exact Recorded.Ends.pure ⟨fun _ => ⟨h.toAgrees, h.allocated, hgoes.1, hzero, rfl, rfl, fun _ => rfl⟩,
      fun hsome => absurd herror hsome⟩

/-- The information about a cluster whose header announces something. -/
structure CmprInfo.Announced (segment : Segment) (cseg cseg' : CmprInfo) : Prop where
  cmprPos : cseg'.cmprPos = cseg.cmprPos
  offset : cseg'.offset = cseg.offset + 2
  count : 0 < cseg'.count
  inside : cseg'.offset + cseg'.count ≤ segment.size
  spans : cseg'.spans = true → cseg'.offset + cseg'.count = segment.size

/-- A cluster header is taken, or there is none. -/
theorem getNextCluster_takes {finish : Bool} {cseg : CmprInfo} (hannounces : Announces bigEndian segment cseg) :
    (getNextCluster bigEndian segment finish cseg).Ends fun cseg' =>
      HeaderTaken segment cseg ∧ cseg.Announced segment cseg' ∨
        ¬HeaderTaken segment cseg ∧ cseg' = { cseg with count := 0, spans := false, foffs := 0 } := by
  obtain ⟨-, hhigh⟩ := segment.size_bounds
  rw [getNextCluster]
  by_cases htaken : 18 < uintSub segment.size cseg.offset ∨ cseg.foffs ≠ 0
  · obtain ⟨hoffset, hnonzero⟩ := hannounces htaken
    have hheader := fetch_lt bigEndian segment.data cseg.offset 2
    rw [if_pos htaken]
    refine Recorded.Ends.bind (Segment.get_ends _ _) ?_
    rintro header rfl
    generalize fetch bigEndian segment.data cseg.offset 2 = header at hnonzero hheader ⊢
    refine Recorded.Ends.pure (Or.inl ⟨htaken, ?_⟩)
    have hcount := header_sub_highBit hheader
    have hoffset' : Header.uint (cseg.offset + 2) = cseg.offset + 2 := by
      rw [Header.uint]
      omega
    have hstop : Header.uint (cseg.offset + 2 + header % 0x8000) = cseg.offset + 2 + header % 0x8000 := by
      rw [Header.uint]
      omega
    dsimp only
    rw [hcount, hoffset', hstop]
    by_cases hless : cseg.offset + 2 + header % 0x8000 < segment.size
    · rw [if_pos hless]
      exact ⟨rfl, rfl, Nat.pos_of_ne_zero hnonzero, hless.le, fun hspans => Bool.noConfusion hspans⟩
    · rw [if_neg hless]
      by_cases hequal : cseg.offset + 2 + header % 0x8000 = segment.size
      · rw [if_pos hequal]
        exact ⟨rfl, rfl, Nat.pos_of_ne_zero hnonzero, hequal.le, fun _ => hequal⟩
      · rw [if_neg hequal, uintSub_of_le hoffset.le (by omega)]
        exact ⟨rfl, rfl, by dsimp only; omega, by dsimp only; omega, fun _ => by dsimp only; omega⟩
  · rw [if_neg htaken]
    exact Recorded.Ends.pure (Or.inr ⟨htaken, rfl⟩)

/-- The next cluster is counted with its header. -/
theorem fillCluster_takes {p : Progress} {finish : Bool} (h : p.Agrees segment place) (hplace : 0 ≤ place)
    (hallocated : p.zftc.Allocated volume) (herror : p.error = none)
    (hpending : p.zftc.cseg.cmprPos = 0)
    (hahead : 0 < p.readCnt ∨ segment.size ≤ p.zftc.cseg.offset + 18 ∨ 0 < p.remaining) :
    Takes bigEndian (fun p' => p'.Kept volume segment place ∧ p'.error = none ∧
      (p'.GoesOn → p.zftc.cseg.offset < p'.zftc.cseg.offset)) (fillCluster bigEndian volume segment finish p) := by
  obtain ⟨-, hhigh⟩ := segment.size_bounds
  have hinside := h.inside
  have hoffset := h.offset
  have hnonneg := h.nonneg
  rw [fillCluster]
  by_cases hmore : 0 < p.remaining
  · rw [if_pos hmore]
    refine Recorded.Guards.bind (Recorded.Guards.note fun _ => trivial) fun _ hannounces => ?_
    have hannounces : Announces bigEndian segment p.zftc.cseg := hannounces
    refine Recorded.Guards.bind (getNextCluster_takes hannounces).guards ?_
    rintro cseg (⟨-, hnext⟩ | ⟨htaken, rfl⟩)
    · obtain ⟨cmprPos, firstBlock, count, offset, spans, uncmpr, foffs⟩ := cseg
      have hcount : 0 < count := hnext.count
      have hnextOffset : offset = p.zftc.cseg.offset + 2 := hnext.offset
      have hnextInside : offset + count ≤ segment.size := hnext.inside
      have hcontinues : spans = true → offset + count = segment.size := hnext.spans
      rw [if_pos hcount.ne']
      refine Recorded.Guards.bind (Zftc.fill_ends _ _ _ _).guards ?_
      rintro zftc ⟨buf, rfl⟩
      have hint : Header.int (p.readCnt + count + 2) = p.readCnt + count + 2 :=
        Header.int_eq_self (by omega) (by omega)
      have huint : Header.uint (offset + count) = offset + count := by
        rw [Header.uint]
        omega
      dsimp only
      rw [hint, huint]
      refine Recorded.Guards.pure ⟨⟨⟨?_, hnextInside, hcontinues, ?_⟩, hallocated, fun hdone => ?_, Or.inl ?_⟩, herror,
        fun _ => ?_⟩
      · dsimp only
        push_cast
        omega
      · dsimp only
        omega
      · exact absurd hmore (not_lt.mpr hdone)
      · dsimp only
        omega
      · dsimp only
        omega
    · rw [if_neg (not_not.mpr rfl)]
      have hrest : segment.size ≤ p.zftc.cseg.offset + 18 := by
        have hroom : ¬18 < uintSub segment.size p.zftc.cseg.offset := fun hroom => htaken (Or.inl hroom)
        rw [uintSub_of_le hinside (by omega)] at hroom
        omega
      refine Recorded.Guards.pure ⟨⟨⟨hoffset, hinside, fun hspans => Bool.noConfusion hspans, hnonneg⟩, hallocated,
        fun _ => hpending, Or.inr (Or.inl hrest)⟩, herror, fun hgoes => absurd hgoes.2 (lt_irrefl _)⟩
  · rw [if_neg hmore]
    refine Recorded.Guards.pure ⟨⟨h, hallocated, fun _ => hpending, ?_⟩, herror, fun hgoes => absurd hgoes.2 hmore⟩
    rcases hahead with hcounted | hrest | hremaining
    · exact Or.inl hcounted
    · exact Or.inr (Or.inl hrest)
    · exact absurd hremaining hmore

/-- The loop ends with the count right, or with an error. -/
theorem readLoop_takes {p : Progress} {finish : Bool} {userFault : ℤ → Bool} {rounds : ℕ} (hplace : 0 ≤ place)
    (h : p.Kept volume segment place) (herror : p.error = none) (hrounds : 1 ≤ rounds)
    (hgoes : p.GoesOn → 2 + (segment.size - p.zftc.cseg.offset) ≤ rounds) :
    Takes bigEndian (fun p' => (p'.error = none → p'.Kept volume segment place ∧ ¬p'.GoesOn) ∧
      (p'.error ≠ none → p'.Fails volume userFault))
      (readLoop bigEndian volume segment finish userFault rounds p) := by
  induction rounds generalizing p with
  | zero => omega
  | succ rounds ih =>
    rw [readLoop]
    by_cases hon : p.zftc.cseg.spans = false ∧ 0 < p.remaining
    · have hleft := hgoes hon
      rw [if_pos hon]
      refine Recorded.Guards.bind (uncompressCluster_ends h herror hon).guards ?_
      rintro p₁ ⟨hblock, hfails⟩
      by_cases hblocked : p₁.error = none
      · obtain ⟨hagrees, hallocated, -, hpending, hoffset, hcount, hremaining⟩ := hblock hblocked
        rw [if_pos hblocked]
        have hahead : 0 < p₁.readCnt ∨ segment.size ≤ p₁.zftc.cseg.offset + 18 ∨ 0 < p₁.remaining := by
          rw [hcount, hoffset]
          refine h.ahead.imp_right (Or.imp_right ?_)
          rintro ⟨hgoes', hzero⟩
          exact hremaining hzero ▸ hgoes'.2
        refine Recorded.Guards.bind (fillCluster_takes hagrees hplace hallocated hblocked hpending hahead) ?_
        rintro p₂ ⟨hkept, herror₂, hmoves⟩
        refine ih hkept herror₂ (by omega) fun hgoes₂ => ?_
        have hstarts := hmoves hgoes₂
        have hinside := hkept.inside
        omega
      · rw [if_neg hblocked]
        exact Recorded.Guards.pure ⟨fun h => absurd h hblocked, hfails⟩
    · rw [if_neg hon]
      exact Recorded.Guards.pure ⟨fun _ => ⟨h, hon⟩, fun hsome => absurd herror hsome⟩

/-- The end of reading takes what is left behind the last cluster. -/
theorem expandReadCnt_agrees {p : Progress} (h : p.Kept volume segment place) (herror : p.error = none)
    (hends : ¬p.GoesOn) (hplace : 0 ≤ place) (hinside : place < segment.size) :
    (expandReadCnt segment p).error = none ∧ 0 < (expandReadCnt segment p).readCnt ∧
      place + (expandReadCnt segment p).readCnt ≤ segment.size ∧
      (place + (expandReadCnt segment p).readCnt < segment.size →
        p.zftc.cseg.Between (place + (expandReadCnt segment p).readCnt)) := by
  obtain ⟨-, hhigh⟩ := segment.size_bounds
  have hoffset := h.offset
  have hinside' := h.inside
  have hnonneg := h.nonneg
  have hrest : uintSub segment.size p.zftc.cseg.offset = segment.size - p.zftc.cseg.offset :=
    uintSub_of_le hinside' (by omega)
  rw [expandReadCnt, hrest]
  by_cases hshort : segment.size - p.zftc.cseg.offset ≤ 18
  · have hint : Header.int (p.readCnt + (segment.size - p.zftc.cseg.offset : ℕ)) = segment.size - place := by
      rw [Header.int_eq_self (by omega) (by omega)]
      omega
    rw [if_pos ⟨herror, hshort⟩]
    dsimp only
    rw [hint]
    exact ⟨herror, by omega, by omega, fun hless => by omega⟩
  · rw [if_neg fun hshort' => hshort hshort'.2]
    have hspans : p.zftc.cseg.spans = false := by
      rw [← Bool.not_eq_true]
      intro hspans
      have := h.spans hspans
      omega
    have hdone : p.remaining ≤ 0 := not_lt.mp fun hmore => hends ⟨hspans, hmore⟩
    refine ⟨herror, ?_, by omega, fun _ => ⟨hoffset.symm, hspans, h.done hdone⟩⟩
    rcases h.ahead with hcounted | hrest | ⟨hgoes, -⟩
    · exact hcounted
    · omega
    · exact absurd hgoes hends

/-- A cluster that cannot be uncompressed fails again. -/
theorem readLoop_broken {p : Progress} {finish : Bool} {userFault : ℤ → Bool} {rounds : ℕ}
    (h : p.zftc.Broken volume) (hmore : 0 < p.remaining) :
    (readLoop bigEndian volume segment finish userFault (rounds + 1) p).Ends fun p' =>
      p'.error = some .eio ∧ p'.zftc.Broken volume := by
  have hfails : (uncompressCluster volume userFault p).Ends fun p' =>
      p'.error = some .eio ∧ p'.zftc.Broken volume := by
    rw [uncompressCluster, if_pos h.pending]
    refine Recorded.Ends.bind (Recorded.Ends.note _) fun _ _ => ?_
    refine Recorded.Ends.bind ((compressDecompress_ends _ _ _ _ _).translate Event.access) ?_
    rintro ⟨uncompressedSz, scratchBuf⟩ hlength
    have hlength : uncompressedSz = uncompressedLength p.zftc.buf p.zftc.inSz volume.blkSz := hlength
    have hsize : uncompressedSz ≠ volume.blkSz := hlength ▸ h.length
    dsimp only
    rw [if_pos hsize]
    exact Recorded.Ends.pure ⟨rfl, h.allocated, h.spans, h.pending, h.length⟩
  rw [readLoop, if_pos ⟨h.spans, hmore⟩]
  refine Recorded.Ends.bind hfails ?_
  rintro p' ⟨herror, hbroken⟩
  rw [if_neg (herror ▸ Option.some_ne_none _)]
  exact Recorded.Ends.pure ⟨herror, hbroken⟩

/-- Memory for the compressor leaves the information about the segment alone, and buffers that were allocated. -/
theorem zftAllocateCmprMem_spec (volume : VtblEntry) (memory : Option ((ℕ → Byte) × (ℕ → Byte))) (zftc : Zftc) :
    (zftAllocateCmprMem memory volume.blkSz zftc).2.cseg = zftc.cseg ∧
      ((zftAllocateCmprMem memory volume.blkSz zftc).1 = true →
        (zftAllocateCmprMem memory volume.blkSz zftc).2.Allocated volume) ∧
      (zftc.Allocated volume → zftAllocateCmprMem memory volume.blkSz zftc = (true, zftc)) := by
  unfold zftAllocateCmprMem
  by_cases hallocated : zftc.cmprMemInitialized = true ∧ volume.blkSz = zftc.allocBlksz
  · rw [if_pos hallocated]
    exact ⟨rfl, fun _ => hallocated, fun _ => rfl⟩
  · rw [if_neg hallocated]
    cases memory with
    | none => exact ⟨rfl, fun h => Bool.noConfusion h, fun h => absurd h hallocated⟩
    | some buffers => exact ⟨rfl, fun _ => ⟨rfl, rfl⟩, fun h => absurd h hallocated⟩

/-- Behind a call of `zftc_read()` at a place in a segment. Without an error bytes were taken, and no more than the
segment has. -/
structure Progress.Taken (volume : VtblEntry) (size : ℕ) (place : ℤ) (p : Progress) : Prop where
  taken : p.error = none → 0 < p.readCnt
  inside : p.error = none → place + p.readCnt ≤ size
  goesOn : p.error = none → place + p.readCnt < size → p.zftc.GoesOnAt volume size (place + p.readCnt)
  failed : p.error ≠ none → p.zftc.GoesOnAt volume size place

/-- Behind the loop. -/
theorem readLoop_taken {p : Progress} {finish : Bool} {userFault : ℤ → Bool} (hplace : 0 ≤ place)
    (hinside : place < segment.size) (hfault : place ≠ 0 → ∀ i, userFault i = false)
    (h : p.Kept volume segment place) (herror : p.error = none) :
    Takes bigEndian (fun p' => p'.Taken volume segment.size place) (do
      let p ← readLoop bigEndian volume segment finish userFault (segment.size + 2) p
      pure (expandReadCnt segment p)) := by
  refine Recorded.Guards.bind (readLoop_takes hplace h herror (by omega) fun _ => by omega) ?_
  rintro p' ⟨hcounted, hfails⟩
  refine Recorded.Guards.pure ?_
  have hsame : (expandReadCnt segment p').zftc = p'.zftc := expandReadCnt_zftc p'
  by_cases herror' : p'.error = none
  · obtain ⟨hkept, hends⟩ := hcounted herror'
    obtain ⟨hnone, htaken, hroom, hbetween⟩ := expandReadCnt_agrees hkept herror' hends hplace hinside
    refine ⟨fun _ => htaken, fun _ => hroom, fun _ hless => ?_, fun hsome => absurd hnone hsome⟩
    rw [hsame]
    exact Or.inr ⟨by omega, hless, Or.inl (hbetween hless)⟩
  · have hfailed : expandReadCnt segment p' = p' := by
      rw [expandReadCnt]
      exact if_neg fun hnone => herror' hnone.1
    rw [hfailed]
    refine ⟨fun hnone => absurd hnone herror', fun hnone => absurd hnone herror', fun hnone => absurd hnone herror',
      fun _ => ?_⟩
    by_cases hzero : place = 0
    · exact Or.inl hzero
    · rcases hfails herror' with ⟨-, hbroken⟩ | ⟨-, i, hfaulted⟩
      · exact Or.inr ⟨by omega, hinside, Or.inr hbroken⟩
      · rw [hfault hzero i] at hfaulted
        cases hfaulted

/-- A call of `zftc_read()` that goes on where the last one has stopped. -/
theorem zftcRead_taken {call : ReadCall} {zftc : Zftc} (hmore : 0 < call.toDo)
    (hgoes : zftc.GoesOnAt volume call.segment.size call.segBytePos)
    (hfault : call.segBytePos ≠ 0 → ∀ i, call.userFault i = false) :
    Takes bigEndian (fun p => p.Taken volume call.segment.size call.segBytePos)
      (zftcRead bigEndian volume call zftc) := by
  obtain ⟨hlow, -⟩ := call.segment.size_bounds
  obtain ⟨hcseg, hready, hkeeps⟩ := zftAllocateCmprMem_spec volume call.memory zftc
  have hfault' : (call.segBytePos : ℤ) ≠ 0 → ∀ i, call.userFault i = false := fun hne =>
    hfault fun hzero => hne (congrArg Nat.cast hzero)
  have hfailed : ∀ p : Progress, p.error ≠ none →
      p.zftc.GoesOnAt volume call.segment.size call.segBytePos →
      p.Taken volume call.segment.size call.segBytePos := fun p hsome hgoesOn =>
    ⟨fun hnone => absurd hnone hsome, fun hnone => absurd hnone hsome, fun hnone => absurd hnone hsome,
      fun _ => hgoesOn⟩
  rw [zftcRead]
  generalize zftAllocateCmprMem call.memory volume.blkSz zftc = memory at hcseg hready hkeeps
  obtain ⟨success, zftc'⟩ := memory
  cases success with
  | false =>
    refine Recorded.Guards.pure (hfailed _ (Option.some_ne_none _) ?_)
    rcases hgoes with hzero | ⟨hpos, hinside, hbetween | hbroken⟩
    · exact Or.inl hzero
    · exact Or.inr ⟨hpos, hinside, Or.inl (hcseg ▸ hbetween)⟩
    · cases hkeeps hbroken.allocated
  | true =>
    have hallocated : zftc'.Allocated volume := hready rfl
    dsimp only
    rw [beginRead]
    by_cases hzero : call.segBytePos = 0
    · rw [if_pos hzero]
      refine Recorded.Guards.bind (startSegment_ends hallocated rfl hmore).guards ?_
      rintro p ⟨hkept, -⟩
      by_cases herror : p.error = none
      · rw [if_pos herror, hzero]
        exact readLoop_taken le_rfl (by omega) (fun hne => absurd rfl hne) (hkept herror) herror
      · rw [if_neg herror]
        exact Recorded.Guards.pure (hfailed _ herror (Or.inl (congrArg Nat.cast hzero)))
    · rw [if_neg hzero]
      refine Recorded.Guards.bind (Recorded.Guards.pure rfl : Takes bigEndian (fun p => p = _) _) ?_
      rintro p rfl
      rw [if_pos rfl]
      rcases hgoes with hplace | ⟨hpos, hinside, hbetween | hbroken⟩
      · exact absurd (Int.natCast_eq_zero.mp hplace) hzero
      · refine readLoop_taken hpos.le hinside hfault' ⟨⟨?_, ?_, fun hspans => ?_, le_rfl⟩, hallocated, fun hdone => ?_,
          Or.inr (Or.inr ⟨⟨?_, hmore⟩, ?_⟩)⟩ rfl
        · dsimp only
          rw [add_zero, hcseg]
          exact hbetween.offset.symm
        · have hoffset := hbetween.offset
          dsimp only
          rw [hcseg]
          omega
        · dsimp only at hspans
          rw [hcseg, hbetween.spans] at hspans
          cases hspans
        · exact absurd hmore (not_lt.mpr hdone)
        · dsimp only
          rw [hcseg, hbetween.spans]
        · dsimp only
          rw [hcseg, hbetween.pending]
      · cases hkeeps hbroken.allocated
        refine Recorded.Guards.bind (readLoop_broken hbroken hmore).guards ?_
        rintro p ⟨herror, hbroken'⟩
        refine Recorded.Guards.pure ?_
        have hsome : p.error ≠ none := herror ▸ Option.some_ne_none _
        rw [expandReadCnt, if_neg fun hnone => hsome hnone.1]
        exact hfailed _ hsome (Or.inr ⟨hpos, hinside, Or.inr hbroken'⟩)

end Routines

end Ftape.Compressor
