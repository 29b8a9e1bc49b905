import Ftape.Volume.Lookup
import Ftape.Volume.Positioning
import Ftape.Volume.Sessions

/-!
# What holds of the list of volumes

The volumes lie one behind the other on tape, have consecutive numbers and ascending entries, and
`zft_eom_vtbl` starts behind the last one. Every function that changes the list keeps it so where
it is told a position that fits, and so does reading a volume table unless a volume in it ends in
front of its start.
-/

namespace Ftape.Volume

open Ftape.Algebra Ftape.Write Ftape.Zftape

/-- What the lookups, the encoder and the write path rely on. -/
structure Vtbl.Listed (cartridge : Cartridge) (table : Vtbl) : Prop where
  filled : ∀ v ∈ table.volumes, v.startSeg ≤ v.endSeg
  sorted : table.volumes.Pairwise fun v w => v.endSeg < w.startSeg
  numbered : table.volumes.map VtblEntry.count = List.range table.volumes.length
  count : table.eom.count = table.volumes.length
  ascending : table.volumes.Pairwise fun v w => v.offset < w.offset
  inBuffer : ∀ v ∈ table.volumes, vtblSize ∣ v.offset ∧ v.offset < ftSegmentSize
  onTape : ∀ v ∈ table.volumes, v.endSeg ≤ cartridge.lastDataSegment
  closed : ∀ v ∈ table.volumes.dropLast, v.isOpen = false
  openEnd : ∀ v ∈ table.volumes.getLast?, v.isOpen = true → v.endSeg = cartridge.lastDataSegment
  eomStart : table.eom.startSeg = table.lastEndSeg cartridge + 1
  eomEnd : table.eom.endSeg = cartridge.lastDataSegment + 1

variable {cartridge : Cartridge} {table : Vtbl}

/-- A table without volumes. -/
theorem zftInitVtbl_listed (cartridge : Cartridge) : (zftInitVtbl cartridge).Listed cartridge where
  filled := fun _ hv => absurd hv List.not_mem_nil
  sorted := List.Pairwise.nil
  numbered := rfl
  count := rfl
  ascending := List.Pairwise.nil
  inBuffer := fun _ hv => absurd hv List.not_mem_nil
  onTape := fun _ hv => absurd hv List.not_mem_nil
  closed := fun _ hv => absurd hv List.not_mem_nil
  openEnd := fun _ hv => by cases hv
  eomStart := rfl
  eomEnd := rfl

/-- No volume ends behind the last one. -/
theorem Vtbl.Listed.endSeg_le (h : table.Listed cartridge) {v : VtblEntry} (hv : v ∈ table.volumes) :
    v.endSeg ≤ table.lastEndSeg cartridge := by
  rcases List.eq_nil_or_concat table.volumes with hnil | ⟨front, last, hlast⟩
  · rw [hnil] at hv
    exact absurd hv List.not_mem_nil
  · rw [List.concat_eq_append] at hlast
    rw [Vtbl.lastEndSeg, hlast, List.getLast?_concat]
    rw [hlast, List.mem_append, List.mem_singleton] at hv
    rcases hv with hfront | rfl
    · have hsorted := h.sorted
      rw [hlast, List.pairwise_append] at hsorted
      have hless := hsorted.2.2 v hfront last List.mem_cons_self
      have hfilled := h.filled last (by rw [hlast]; simp)
      dsimp only
      omega
    · exact le_rfl

/-- No volume has its entry at or behind the next offset. -/
theorem Vtbl.Listed.offset_lt (h : table.Listed cartridge) {v : VtblEntry} (hv : v ∈ table.volumes) :
    v.offset + vtblSize ≤ table.nextOffset := by
  rcases List.eq_nil_or_concat table.volumes with hnil | ⟨front, last, hlast⟩
  · rw [hnil] at hv
    exact absurd hv List.not_mem_nil
  · rw [List.concat_eq_append] at hlast
    rw [Vtbl.nextOffset, hlast, List.getLast?_concat]
    rw [hlast, List.mem_append, List.mem_singleton] at hv
    rcases hv with hfront | rfl
    · have hascending := h.ascending
      rw [hlast, List.pairwise_append] at hascending
      have hless := hascending.2.2 v hfront last List.mem_cons_self
      obtain ⟨i, hi⟩ := (h.inBuffer v (by rw [hlast]; simp [hfront])).1
      obtain ⟨j, hj⟩ := (h.inBuffer last (by rw [hlast]; simp)).1
      rw [vtblSize] at hi hj ⊢
      dsimp only
      omega
    · exact le_rfl

/-- The next offset is that of an entry. -/
theorem Vtbl.Listed.aligned (h : table.Listed cartridge) : vtblSize ∣ table.nextOffset := by
  rw [Vtbl.nextOffset]
  cases hlast : table.volumes.getLast? with
  | none => exact Nat.dvd_zero _
  | some last =>
    exact (Nat.dvd_add_right (h.inBuffer last (List.mem_of_getLast? hlast)).1).mpr (Nat.dvd_refl _)

/-- A volume behind the last one. -/
theorem Vtbl.Listed.append (h : table.Listed cartridge) {table' : Vtbl} {volume : VtblEntry}
    (hvolumes : table'.volumes = table.volumes ++ [volume])
    (hcount : table'.eom.count = table.eom.count + 1)
    (hstart : table'.eom.startSeg = volume.endSeg + 1) (hend : table'.eom.endSeg = table.eom.endSeg)
    (hnumber : volume.count = table.eom.count) (hfilled : volume.startSeg ≤ volume.endSeg)
    (hbehind : ∀ v ∈ table.volumes, v.endSeg < volume.startSeg)
    (hoffset : table.nextOffset ≤ volume.offset) (haligned : vtblSize ∣ volume.offset)
    (hroom : volume.offset < ftSegmentSize) (htape : volume.endSeg ≤ cartridge.lastDataSegment)
    (hclosed : ∀ v ∈ table.volumes.getLast?, v.isOpen = false)
    (hopen : volume.isOpen = true → volume.endSeg = cartridge.lastDataSegment) :
    table'.Listed cartridge where
  filled := by
    rw [hvolumes]
    intro v hv
    rcases List.mem_append.mp hv with hv | hv
    · exact h.filled v hv
    · rw [List.mem_singleton.mp hv]
      exact hfilled
  sorted := by
    rw [hvolumes, List.pairwise_append]
    refine ⟨h.sorted, List.pairwise_singleton _ _, fun v hv w hw => ?_⟩
    rw [List.mem_singleton.mp hw]
    exact hbehind v hv
  numbered := by
    rw [hvolumes, List.map_append, h.numbered, List.length_append, List.length_singleton,
      List.range_succ, List.map_singleton, hnumber, h.count]
  count := by
    rw [hcount, hvolumes, h.count, List.length_append, List.length_singleton]
  ascending := by
    rw [hvolumes, List.pairwise_append]
    refine ⟨h.ascending, List.pairwise_singleton _ _, fun v hv w hw => ?_⟩
    rw [List.mem_singleton.mp hw]
    have hless := h.offset_lt hv
    rw [vtblSize] at hless
    omega
  inBuffer := by
    rw [hvolumes]
    intro v hv
    rcases List.mem_append.mp hv with hv | hv
    · exact h.inBuffer v hv
    · rw [List.mem_singleton.mp hv]
      exact ⟨haligned, hroom⟩
  onTape := by
    rw [hvolumes]
    intro v hv
    rcases List.mem_append.mp hv with hv | hv
    · exact h.onTape v hv
    · rw [List.mem_singleton.mp hv]
      exact htape
  closed := by
    rw [hvolumes, List.dropLast_concat]
    intro v hv
    rcases List.eq_nil_or_concat table.volumes with hnil | ⟨front, last, hlast⟩
    · rw [hnil] at hv
      exact absurd hv List.not_mem_nil
    · rw [List.concat_eq_append] at hlast
      rw [hlast, List.mem_append, List.mem_singleton] at hv
      rcases hv with hfront | rfl
      · exact h.closed v (by rw [hlast, List.dropLast_concat]; exact hfront)
      · exact hclosed v (by rw [hlast, List.getLast?_concat]; rfl)
  openEnd := by
    rw [hvolumes, List.getLast?_concat]
    rintro v ⟨⟩
    exact hopen
  eomStart := by
    rw [hstart, Vtbl.lastEndSeg, hvolumes, List.getLast?_concat]
  eomEnd := hend.trans h.eomEnd

/-- The volume in progress ends at another segment. -/
theorem Vtbl.Listed.close (h : table.Listed cartridge) {table' : Vtbl} {front : List VtblEntry}
    {last last' : VtblEntry} (hlast : table.volumes = front ++ [last])
    (hlast' : table'.volumes = front ++ [last']) (hcount : table'.eom.count = table.eom.count)
    (hstart : table'.eom.startSeg = last'.endSeg + 1) (hend : table'.eom.endSeg = table.eom.endSeg)
    (hsame : last'.startSeg = last.startSeg ∧ last'.count = last.count ∧ last'.offset = last.offset)
    (hfilled : last'.startSeg ≤ last'.endSeg) (htape : last'.endSeg ≤ cartridge.lastDataSegment)
    (hopen : last'.isOpen = false) :
    table'.Listed cartridge where
  filled := by
    rw [hlast']
    intro v hv
    rcases List.mem_append.mp hv with hv | hv
    · exact h.filled v (by rw [hlast]; exact List.mem_append_left _ hv)
    · rw [List.mem_singleton.mp hv]
      exact hfilled
  sorted := by
    have hsorted := h.sorted
    rw [hlast, List.pairwise_append] at hsorted
    rw [hlast', List.pairwise_append]
    refine ⟨hsorted.1, List.pairwise_singleton _ _, fun v hv w hw => ?_⟩
    rw [List.mem_singleton.mp hw, hsame.1]
    exact hsorted.2.2 v hv last List.mem_cons_self
  numbered := by
    have hnumbered := h.numbered
    rw [hlast, List.map_append, List.map_singleton, List.length_append, List.length_singleton] at hnumbered
    rw [hlast', List.map_append, List.map_singleton, List.length_append, List.length_singleton, hsame.2.1,
      hnumbered]
  count := by
    rw [hcount, h.count, hlast, hlast', List.length_append, List.length_append]
    rfl
  ascending := by
    have hascending := h.ascending
    rw [hlast, List.pairwise_append] at hascending
    rw [hlast', List.pairwise_append]
    refine ⟨hascending.1, List.pairwise_singleton _ _, fun v hv w hw => ?_⟩
    rw [List.mem_singleton.mp hw, hsame.2.2]
    exact hascending.2.2 v hv last List.mem_cons_self
  inBuffer := by
    rw [hlast']
    intro v hv
    rcases List.mem_append.mp hv with hv | hv
    · exact h.inBuffer v (by rw [hlast]; exact List.mem_append_left _ hv)
    · rw [List.mem_singleton.mp hv, hsame.2.2]
      exact h.inBuffer last (by rw [hlast]; simp)
  onTape := by
    rw [hlast']
    intro v hv
    rcases List.mem_append.mp hv with hv | hv
    · exact h.onTape v (by rw [hlast]; exact List.mem_append_left _ hv)
    · rw [List.mem_singleton.mp hv]
      exact htape
  closed := by
    have hclosed := h.closed
    rw [hlast, List.dropLast_concat] at hclosed
    rw [hlast', List.dropLast_concat]
    exact hclosed
  openEnd := by
    rw [hlast', List.getLast?_concat]
    rintro v ⟨⟩ hv
    rw [hopen] at hv
    cases hv
  eomStart := by
    rw [hstart, Vtbl.lastEndSeg, hlast', List.getLast?_concat]
  eomEnd := hend.trans h.eomEnd

/-- The last volume is behind all others. -/
theorem Vtbl.Listed.endSeg_lt (h : table.Listed cartridge) {segment : ℕ}
    (hsegment : table.lastEndSeg cartridge < segment) : ∀ v ∈ table.volumes, v.endSeg < segment :=
  fun _ hv => lt_of_le_of_lt (h.endSeg_le hv) hsegment

section Reading

/-- A volume that was read is not open. -/
theorem extractEntry_isOpen (cartridge : Cartridge) (buffer : ℕ → Byte) (entry eomStart : ℕ)
    (volume : VtblEntry) :
    (extractEntry cartridge buffer entry eomStart volume).isOpen = volume.isOpen := by
  have htype : (getTypeAndBlockSize cartridge buffer entry volume).isOpen = volume.isOpen := by
    rw [getTypeAndBlockSize]
    split_ifs <;> rfl
  have hrange : ∀ volume : VtblEntry,
      (extractSegmentRange cartridge buffer entry eomStart volume).isOpen = volume.isOpen := by
    intro volume
    rw [extractSegmentRange]
    split_ifs <;> rfl
  rw [extractEntry]
  dsimp only
  split_ifs
  · exact (hrange _).trans htype
  · exact (hrange _).trans htype

/-- What holds of a list while volumes are read: it is in order if the table is not broken and no
volume in it ends in front of its start. -/
def Vtbl.ListedIfSound (cartridge : Cartridge) (table : Vtbl) : Prop :=
  table.vtblBroken = false → (∀ v ∈ table.volumes, v.startSeg ≤ v.endSeg) →
    table.Listed cartridge ∧ ∀ v ∈ table.volumes, v.isOpen = false

/-- Reading a volume. -/
theorem Vtbl.ListedIfSound.extractVolume (h : table.ListedIfSound cartridge) (buffer : ℕ → Byte)
    {entry : ℕ} (hlast : cartridge.lastDataSegment < 0xffffffff) (hnext : table.nextOffset ≤ entry)
    (haligned : vtblSize ∣ entry) (hlt : entry < ftSegmentSize) :
    (extractVolume cartridge buffer entry table).ListedIfSound cartridge := by
  intro hbroken hfilled
  obtain ⟨hbefore, hsane⟩ := Bool.or_eq_false_iff.mp hbroken
  rw [decide_eq_false_iff_not, not_or, not_or, Nat.not_le, Nat.not_le, Nat.not_le] at hsane
  obtain ⟨hlisted, hclosed⟩ := h hbefore fun v hv => hfilled v (List.mem_append_left _ hv)
  have hisOpen := extractEntry_isOpen cartridge buffer entry table.eom.startSeg
    { VtblEntry.blank with count := table.eom.count }
  have hend := hsane.2.2
  rw [hlisted.eomEnd] at hend
  constructor
  · refine hlisted.append rfl rfl ?_ rfl (extractEntry_count _ _ _ _ _)
      (hfilled _ (List.mem_append_right _ List.mem_cons_self)) (hlisted.endSeg_lt hsane.1) hnext haligned
      hlt (by omega) (fun v hv => hclosed v (List.mem_of_getLast? hv)) fun hopen => ?_
    · exact Nat.mod_eq_of_lt (by omega)
    · rw [hisOpen] at hopen
      cases hopen
  · intro v hv
    rcases List.mem_append.mp hv with hv | hv
    · exact hclosed v hv
    · rw [List.mem_singleton.mp hv]
      exact hisOpen

/-- The loop over the entries. -/
theorem Vtbl.ListedIfSound.extractLoop (h : table.ListedIfSound cartridge) (buffer : ℕ → Byte)
    (hlast : cartridge.lastDataSegment < 0xffffffff) (hlaid : table.Laid) {rounds entry : ℕ}
    (hnext : table.nextOffset ≤ entry) (haligned : vtblSize ∣ entry)
    (hroom : entry + rounds * vtblSize ≤ ftSegmentSize) :
    (extractLoop cartridge buffer rounds entry table).ListedIfSound cartridge := by
  induction rounds generalizing entry table with
  | zero => exact h
  | succ rounds ih =>
    rw [Nat.succ_mul] at hroom
    have hlt : entry < ftSegmentSize := by
      rw [vtblSize] at hroom
      omega
    have hroom' : entry + vtblSize + rounds * vtblSize ≤ ftSegmentSize := by omega
    have haligned' : vtblSize ∣ entry + vtblSize := (Nat.dvd_add_right haligned).mpr (Nat.dvd_refl _)
    rw [Volume.extractLoop]
    split_ifs
    · intro hbroken hfilled
      obtain ⟨hlisted, hclosed⟩ := h hbroken hfilled
      exact ⟨{ hlisted with }, hclosed⟩
    · exact ih h hlaid (Nat.le_add_right_of_le hnext) haligned' hroom'
    · obtain ⟨hlaid', hoffset⟩ := extractVolume_laid cartridge buffer hlaid hnext haligned hlt
      exact ih (h.extractVolume buffer hlast hnext haligned hlt) hlaid' hoffset.le haligned' hroom'
    · exact h

/-- A table that is not broken, in which no volume ends in front of its start. -/
theorem zftExtractVolumeHeaders_listed (buffer : ℕ → Byte)
    (hlast : cartridge.lastDataSegment < 0xffffffff)
    (hbroken : (zftExtractVolumeHeaders cartridge buffer).vtblBroken = false)
    (hfilled : ∀ v ∈ (zftExtractVolumeHeaders cartridge buffer).volumes, v.startSeg ≤ v.endSeg) :
    (zftExtractVolumeHeaders cartridge buffer).Listed cartridge := by
  have hinit : (zftInitVtbl cartridge).ListedIfSound cartridge := fun _ _ =>
    ⟨zftInitVtbl_listed cartridge, fun _ hv => absurd hv List.not_mem_nil⟩
  have hloop : (zftExtractVolumeHeaders cartridge buffer).ListedIfSound cartridge := by
    apply hinit.extractLoop buffer hlast (zftInitVtbl_laid cartridge) (Nat.zero_le _)
    · unfold firstEntry
      split
      · exact Nat.dvd_refl _
      · exact Nat.dvd_zero _
    · unfold firstEntry
      split <;> decide
  exact (hloop hbroken hfilled).1

end Reading

/-- A position a volume may be closed at: behind its start, and on the tape or just behind it. -/
def Cartridge.Closes (cartridge : Cartridge) (pos : Position) (volume : VtblEntry) : Prop :=
  volume.startSeg ≤ pos.segPos ∧ (pos.segPos ≤ cartridge.lastDataSegment ∨
    pos.segPos = cartridge.lastDataSegment + 1 ∧ pos.segBytePos = 0)

/-- The volume in progress is the last one of the list. -/
theorem Vtbl.openVolume_eq_some {volume : VtblEntry} (h : table.openVolume = some volume) :
    volume.isOpen = true ∧ ∃ front, table.volumes = front ++ [volume] := by
  obtain ⟨hlast, hopen⟩ := Option.filter_eq_some_iff.mp h
  obtain ⟨front, hfront⟩ := List.getLast?_eq_some_iff.mp hlast
  exact ⟨hopen, front, hfront⟩

section Writing

variable (hlast : cartridge.lastDataSegment < 0xffffffff)
include hlast

/-- A volume is appended that starts on the tape. -/
theorem Vtbl.Listed.appendVolume (h : table.Listed cartridge)
    (hfirst : cartridge.firstDataSegment < 0xffffffff) (pos : Position) (blkSz : ℕ)
    (hpos : pos.segPos ≤ cartridge.lastDataSegment) :
    (table.appendVolume cartridge pos blkSz).1.Listed cartridge := by
  rw [Vtbl.appendVolume]
  by_cases hbehind : pos.segPos ≠ Header.uint (table.lastEndSeg cartridge + 1)
  · rw [if_pos hbehind]
    exact h
  by_cases hcount : cartridge.zftMaxVolumes ≤ table.eom.count
  · rw [if_neg hbehind, if_pos hcount]
    exact h
  by_cases hoffset : ftSegmentSize ≤ table.nextOffset
  · rw [if_neg hbehind, if_neg hcount, if_pos hoffset]
    exact h
  rw [if_neg hbehind, if_neg hcount, if_neg hoffset]
  have hbound : table.lastEndSeg cartridge < 0xffffffff := by
    rw [Vtbl.lastEndSeg]
    cases hvolume : table.volumes.getLast? with
    | none => exact hfirst
    | some volume => exact lt_of_le_of_lt (h.onTape volume (List.mem_of_getLast? hvolume)) hlast
  have hstart : pos.segPos = table.lastEndSeg cartridge + 1 := by
    rw [not_not.mp hbehind, Header.uint]
    exact Nat.mod_eq_of_lt (by omega)
  have hstarts : table.lastEndSeg cartridge < pos.segPos := by omega
  refine h.append rfl rfl rfl rfl rfl hpos (h.endSeg_lt hstarts) le_rfl h.aligned
    (Nat.lt_of_not_le hoffset) le_rfl (fun v hv => ?_) fun _ => rfl
  -- the end of a volume in progress is not in front of the position
  by_contra hopen
  have hend := h.openEnd v hv (Bool.eq_true_of_not_eq_false hopen)
  have hlastEnd : table.lastEndSeg cartridge = v.endSeg := by
    rw [Vtbl.lastEndSeg, Option.mem_def.mp hv]
  omega

/-- Opening a volume. -/
theorem Vtbl.Listed.zftOpenVolume (h : table.Listed cartridge)
    (hfirst : cartridge.firstDataSegment < 0xffffffff) (pos : Position) (blkSz : ℕ)
    (hpos : if table.zftTapeAtLbot pos then cartridge.firstDataSegment < cartridge.lastDataSegment
      else pos.segPos ≤ cartridge.lastDataSegment) :
    (table.zftOpenVolume cartridge pos blkSz).1.Listed cartridge := by
  rw [Vtbl.zftOpenVolume]
  by_cases hlbot : table.zftTapeAtLbot pos = true
  · rw [if_pos hlbot] at hpos ⊢
    exact (zftInitVtbl_listed cartridge).appendVolume hlast hfirst _ blkSz hpos
  · rw [if_neg hlbot] at hpos ⊢
    exact h.appendVolume hlast hfirst pos blkSz hpos

/-- Where a volume ends when it is closed. -/
theorem Cartridge.Closes.beforeMark {pos : Position} {volume : VtblEntry}
    (h : cartridge.Closes pos volume) (hfilled : volume.startSeg ≤ cartridge.lastDataSegment) :
    volume.startSeg ≤ (cartridge.beforeMark pos volume.startSeg).segPos ∧
      (cartridge.beforeMark pos volume.startSeg).segPos ≤ cartridge.lastDataSegment := by
  obtain ⟨hstart, hend⟩ := h
  rw [Cartridge.beforeMark]
  by_cases hback : pos.segBytePos = 0 ∧ pos.segPos ≠ volume.startSeg
  · rw [if_pos hback]
    have hpred : Header.uint (pos.segPos + 0xffffffff) = pos.segPos - 1 := by
      rw [Header.uint]
      omega
    dsimp only
    rw [hpred]
    omega
  · rw [if_neg hback]
    omega

/-- Closing a volume. -/
theorem Vtbl.Listed.zftCloseVolume (h : table.Listed cartridge) {pos : Position}
    (hpos : ∀ volume ∈ table.openVolume, cartridge.Closes pos volume) :
    (table.zftCloseVolume cartridge pos).1.Listed cartridge := by
  rw [Vtbl.zftCloseVolume]
  cases hvolume : table.openVolume with
  | none => exact h
  | some volume =>
    obtain ⟨-, front, hfront⟩ := Vtbl.openVolume_eq_some hvolume
    have hmem : volume ∈ table.volumes := by
      rw [hfront]
      exact List.mem_append_right _ List.mem_cons_self
    obtain ⟨hstart, hend⟩ := (hpos volume hvolume).beforeMark hlast
      ((h.filled volume hmem).trans (h.onTape volume hmem))
    refine h.close hfront (Vtbl.modifyLast_concat hfront _) rfl ?_ rfl ⟨rfl, rfl, rfl⟩ hstart hend rfl
    exact Nat.mod_eq_of_lt (by omega)

omit hlast in
/-- Appending empty volumes behind the last one. -/
theorem Vtbl.Listed.weofLoop (h : table.Listed cartridge) (count : ℕ) {pos : Position}
    (hclosed : ∀ v ∈ table.volumes.getLast?, v.isOpen = false)
    (hbehind : ∀ v ∈ table.volumes, v.endSeg < pos.segPos) :
    (table.weofLoop cartridge count pos).1.Listed cartridge := by
  induction count generalizing table pos with
  | zero => exact h
  | succ count ih =>
    rw [Vtbl.weofLoop]
    split
    case isTrue hroom =>
      have hmark : Vtbl.Listed cartridge
          { table.newVtblEntry (table.fillMark cartridge pos) with
            eom := { (table.newVtblEntry (table.fillMark cartridge pos)).eom with
              startSeg := pos.segPos + 1 } } :=
        h.append rfl rfl rfl rfl rfl le_rfl hbehind le_rfl h.aligned hroom.2.2 hroom.1 hclosed (by rintro ⟨⟩)
      refine ih hmark ?_ ?_
      · intro v hv
        obtain rfl := Option.some.inj (List.getLast?_concat.symm.trans hv)
        rfl
      · intro v hv
        rcases List.mem_append.mp hv with hv | hv
        · exact (hbehind v hv).trans (Nat.lt_succ_self _)
        · rw [List.mem_singleton.mp hv]
          exact Nat.lt_succ_self _
    case isFalse => exact h

/-- Where the file marks may be written: at the logical beginning of the tape, or at the end of the data,
where a volume in progress is closed first. -/
def Vtbl.MarksAt (cartridge : Cartridge) (table : Vtbl) (pos : Position) : Prop :=
  table.zftTapeAtLbot pos = true ∨ if table.openVolume.isSome then
    ∀ volume ∈ table.openVolume, cartridge.Closes pos volume
  else table.eom.startSeg ≤ pos.segPos

/-- Writing file marks. -/
theorem Vtbl.Listed.zftWeof (h : table.Listed cartridge) (count : ℕ) {pos : Position}
    (hpos : table.MarksAt cartridge pos) : (table.zftWeof cartridge count pos).1.Listed cartridge := by
  rw [Vtbl.zftWeof]
  by_cases hcount : count = 0
  · rw [if_pos hcount]
    exact h
  rw [if_neg hcount]
  by_cases hlbot : table.zftTapeAtLbot pos = true
  · rw [if_pos hlbot]
    exact (zftInitVtbl_listed cartridge).weofLoop count (by rintro v ⟨⟩) (by rintro v ⟨⟩)
  rw [if_neg hlbot]
  have hmarks := hpos.resolve_left hlbot
  cases hvolume : table.openVolume with
  | none =>
    rw [hvolume, Option.isSome_none, if_neg Bool.false_ne_true] at hmarks
    have hclosed : ∀ v ∈ table.volumes.getLast?, v.isOpen = false := by
      intro v hv
      by_contra hopen
      have hsome : table.openVolume = some v :=
        Option.filter_eq_some_iff.mpr ⟨hv, Bool.eq_true_of_not_eq_false hopen⟩
      rw [hvolume] at hsome
      cases hsome
    rw [h.eomStart] at hmarks
    simp only [Vtbl.weofClose, Vtbl.zftCloseVolume, hvolume]
    exact h.weofLoop count hclosed (h.endSeg_lt (Nat.lt_of_succ_le hmarks))
  | some volume =>
    rw [hvolume, Option.isSome_some, if_pos rfl] at hmarks
    have hlisted := h.zftCloseVolume hlast fun v hv => hmarks v (by rw [← hvolume]; exact hv)
    obtain ⟨-, front, hfront⟩ := Vtbl.openVolume_eq_some hvolume
    have hlastVolume := Vtbl.modifyLast_concat hfront
      (VtblEntry.closedAt cartridge (cartridge.beforeMark pos volume.startSeg))
    have hend := (hmarks volume rfl).beforeMark hlast
      ((h.filled volume (by rw [hfront]; simp)).trans (h.onTape volume (by rw [hfront]; simp)))
    simp only [Vtbl.zftCloseVolume, hvolume] at hlisted
    simp only [Vtbl.weofClose, Vtbl.zftCloseVolume, hvolume]
    have hgetLast := (congrArg List.getLast? hlastVolume).trans List.getLast?_concat
    refine hlisted.weofLoop _ ?_ ?_
    · intro v hv
      obtain rfl := Option.some.inj (hgetLast.symm.trans hv)
      rfl
    · refine hlisted.endSeg_lt ?_
      have hlastEnd : Vtbl.lastEndSeg (table.modifyLast
          (VtblEntry.closedAt cartridge (cartridge.beforeMark pos volume.startSeg))) cartridge =
            (cartridge.beforeMark pos volume.startSeg).segPos := by
        rw [Vtbl.lastEndSeg, hgetLast]
        rfl
      have hpast : (cartridge.zftMovePastEof (cartridge.beforeMark pos volume.startSeg)).segPos =
          (cartridge.beforeMark pos volume.startSeg).segPos + 1 :=
        Nat.mod_eq_of_lt (by omega)
      rw [hpast]
      exact Nat.lt_succ_of_le hlastEnd.le

end Writing

/-- The list of volumes, and the position all functions share. -/
structure Deck where
  table : Vtbl
  pos : Position

/-- What happens to the list and to the position. Reading, writing and seeking move the position to any
place in between; a lookup goes on from any node. -/
inductive Deck.Action where
  | initVtbl
  | extractVolumeHeaders (buffer : ℕ → Byte)
  | openVolume (blkSz : ℕ)
  | closeVolume
  | weof (count : ℕ)
  | skipVolumes (curVtbl : ℕ) (count : ℤ)
  | moveTo (pos : Position)

/-- `zft_skip_volumes()`, without what it does for reading. A walk that leaves the list changes
nothing in it. -/
def Deck.zftSkipVolumes (cartridge : Cartridge) (deck : Deck) (curVtbl : ℕ) (count : ℤ) : Deck :=
  match deck.table.volumeBySegpos curVtbl deck.pos.segPos with
  | none => deck
  | some vtbl =>
    let (vtbl, _) := if 0 < count then skipForwards deck.table.volumes.length count.toNat vtbl
      else skipBackwards (-count).toNat vtbl
    let startSeg := (deck.table.node vtbl).startSeg
    { deck with pos := ⟨startSeg, 0, 0, cartridge.calcTapePos (Header.int startSeg)⟩ }

/-- What an action makes of the list and the position. -/
def Deck.exec (cartridge : Cartridge) (deck : Deck) : Deck.Action → Deck
  | .initVtbl => { deck with table := zftInitVtbl cartridge }
  | .extractVolumeHeaders buffer => { deck with table := zftExtractVolumeHeaders cartridge buffer }
  | .openVolume blkSz =>
    let (table, pos) := deck.table.zftOpenVolume cartridge deck.pos blkSz
    ⟨table, pos.toOption.getD deck.pos⟩
  | .closeVolume =>
    let (table, pos) := deck.table.zftCloseVolume cartridge deck.pos
    ⟨table, pos.toOption.getD deck.pos⟩
  | .weof count =>
    let (table, pos, _) := deck.table.zftWeof cartridge count deck.pos
    ⟨table, pos⟩
  | .skipVolumes curVtbl count => deck.zftSkipVolumes cartridge curVtbl count
  | .moveTo pos => { deck with pos := pos }

/-- When an action keeps the list in order: a volume table that is read is not broken and has no volume
that ends in front of its start, a volume begins on the tape and does not end in front of its start, and
file marks are written at the beginning or at the end of the data. -/
def Deck.Fits (cartridge : Cartridge) (deck : Deck) : Deck.Action → Prop
  | .extractVolumeHeaders buffer =>
    (zftExtractVolumeHeaders cartridge buffer).vtblBroken = false ∧
      ∀ v ∈ (zftExtractVolumeHeaders cartridge buffer).volumes, v.startSeg ≤ v.endSeg
  | .openVolume _ =>
    if deck.table.zftTapeAtLbot deck.pos then cartridge.firstDataSegment < cartridge.lastDataSegment
    else deck.pos.segPos ≤ cartridge.lastDataSegment
  | .closeVolume => ∀ volume ∈ deck.table.openVolume, cartridge.Closes deck.pos volume
  | .weof count => count ≠ 0 → deck.table.MarksAt cartridge deck.pos
  | _ => True

/-- Actions all of which fit when they happen. -/
def Deck.FitsAll (cartridge : Cartridge) : Deck → List Deck.Action → Prop
  | _, [] => True
  | deck, action :: actions =>
    deck.Fits cartridge action ∧ (deck.exec cartridge action).FitsAll cartridge actions

/-- The driver's numbers of segments are integers. -/
structure Cartridge.InRange (cartridge : Cartridge) : Prop where
  first : cartridge.firstDataSegment < 0x80000000
  last : cartridge.lastDataSegment < 0x80000000

/-- An action that fits keeps the list in order. -/
theorem Deck.exec_listed (hrange : cartridge.InRange) {deck : Deck} (h : deck.table.Listed cartridge)
    {action : Deck.Action} (hfits : deck.Fits cartridge action) :
    (deck.exec cartridge action).table.Listed cartridge := by
  have hfirst : cartridge.firstDataSegment < 0xffffffff := hrange.first.trans (by decide)
  have hlast : cartridge.lastDataSegment < 0xffffffff := hrange.last.trans (by decide)
  cases action with
  | initVtbl => exact zftInitVtbl_listed cartridge
  | extractVolumeHeaders buffer => exact zftExtractVolumeHeaders_listed buffer hlast hfits.1 hfits.2
  | openVolume blkSz => exact h.zftOpenVolume hlast hfirst deck.pos blkSz hfits
  | closeVolume => exact h.zftCloseVolume hlast hfits
  | weof count =>
    by_cases hcount : count = 0
    · rw [hcount]
      exact h
    · exact h.zftWeof hlast count (hfits hcount)
  | skipVolumes curVtbl count =>
    rw [Deck.exec, Deck.zftSkipVolumes]
    cases deck.table.volumeBySegpos curVtbl deck.pos.segPos with
    | none => exact h
    | some vtbl => exact h
  | moveTo pos => exact h

/-- In every run of actions that fit, the list is in order. -/
theorem Deck.run_listed (hrange : cartridge.InRange) {deck : Deck} (h : deck.table.Listed cartridge)
    {actions : List Deck.Action} (hfits : deck.FitsAll cartridge actions) :
    (actions.foldl (Deck.exec cartridge) deck).table.Listed cartridge := by
  induction actions generalizing deck with
  | nil => exact h
  | cons action actions ih => exact ih (Deck.exec_listed hrange h hfits.1) hfits.2

/-- In every run of actions that fit, from a fresh list on, the list is in order, and `zft_eom_vtbl`
starts behind the tape while a volume is open. -/
theorem Deck.run_keeps_list (hrange : cartridge.InRange) (pos : Position) (actions : List Deck.Action)
    (hfits : Deck.FitsAll cartridge ⟨zftInitVtbl cartridge, pos⟩ actions) :
    let deck := actions.foldl (Deck.exec cartridge) ⟨zftInitVtbl cartridge, pos⟩
    deck.table.Listed cartridge ∧
      (deck.table.openVolume.isSome = true → deck.table.eom.startSeg = cartridge.lastDataSegment + 1) := by
  have hlisted := Deck.run_listed hrange (zftInitVtbl_listed cartridge) hfits
  refine ⟨hlisted, fun hopen => ?_⟩
  obtain ⟨volume, hvolume⟩ := Option.isSome_iff_exists.mp hopen
  obtain ⟨hisOpen, front, hfront⟩ := Vtbl.openVolume_eq_some hvolume
  have hend := hlisted.openEnd volume (by rw [hfront, List.getLast?_concat]; rfl) hisOpen
  rw [hlisted.eomStart, Vtbl.lastEndSeg, hfront, List.getLast?_concat]
  dsimp only
  rw [hend]

/-- A file of two segments and a file mark of its own, then another file. -/
theorem Deck.run_keeps_list_two_files : qic80Cartridge.InRange ∧
    (List.foldl (Deck.exec qic80Cartridge) ⟨zftInitVtbl qic80Cartridge, ⟨3, 0, 0, 0⟩⟩
      [.openVolume 10240, .moveTo ⟨5, 0, 59392, 89088⟩, .closeVolume, .moveTo ⟨5, 0, 0, 89088⟩,
        .weof 1, .openVolume 10240]).table.Listed qic80Cartridge := by
  have hrange : qic80Cartridge.InRange := ⟨by decide, by decide⟩
  refine ⟨hrange, (Deck.run_keeps_list hrange ⟨3, 0, 0, 0⟩ _ ?_).1⟩
  refine ⟨?_, trivial, ?_, trivial, ?_, ?_, trivial⟩
  · exact (by decide : (2 : ℕ) < 149)
  · rintro _ ⟨⟩
    exact ⟨by decide, Or.inl (by decide)⟩
  · exact fun _ => Or.inr (le_refl (5 : ℕ))
  · exact (by decide : (6 : ℕ) ≤ 149)

/-- Reading a volume table with a volume that ends in front of its start, which passes for a sound one. -/
theorem Deck.run_breaks_list :
    (zftExtractVolumeHeaders qic80Cartridge invertedVolumeSegment).vtblBroken = false ∧
      ¬ (List.foldl (Deck.exec qic80Cartridge) ⟨zftInitVtbl qic80Cartridge, ⟨3, 0, 0, 0⟩⟩
        [.extractVolumeHeaders invertedVolumeSegment]).table.Listed qic80Cartridge := by
  constructor
  · decide +kernel
  · intro h
    exact absurd h.filled (by decide +kernel)

end Ftape.Volume
