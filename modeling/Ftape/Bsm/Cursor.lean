import Ftape.Bsm.Driver
import Mathlib.Data.List.GetD

/-!
# Seeking in a stored list

A stored list is read entry by entry up to its terminator. Both seek routines stop at the first
entry of the segment, or of the next recorded one, and return the recorded map. That position
is what the cached pointer of the driver has to name before the next lookup.
-/

namespace Ftape.Bsm

open Ftape.Algebra

/-- The header holds the entries of a list and its terminator. -/
def Stored (header : ℕ → Byte) (base : ℕ) (entries : List ℕ) : Prop :=
  ∀ k ≤ entries.length, getSector header base k = some (entries.getD k 0)

/-- The position of the first entry that is not before a segment. -/
def SectorList.position {fmt : FormatCode} (l : SectorList fmt) (segment : ℕ) : ℕ :=
  (belowKey cvt2segment segment l.entries).length

/-- The number of entries of a segment. -/
def SectorList.runLength {fmt : FormatCode} (l : SectorList fmt) (segment : ℕ) : ℕ :=
  (keyRun cvt2segment segment l.entries).length

/-- A stored list ends inside the header. -/
theorem Stored.fits {header : ℕ → Byte} {base : ℕ} {entries : List ℕ}
    (h : Stored header base entries) : base + 3 * (entries.length + 1) ≤ ftSegmentSize := by
  have hend := h entries.length le_rfl
  unfold getSector at hend
  split at hend
  · omega
  · cases hend

section Entries

variable {fmt : FormatCode} (l : SectorList fmt) (segment : ℕ)

/-- A list is its entries before, at and after a segment. -/
theorem SectorList.entries_eq :
    belowKey cvt2segment segment l.entries ++ keyRun cvt2segment segment l.entries ++
      aboveKey cvt2segment segment l.entries = l.entries :=
  belowKey_append_keyRun_append_aboveKey segment l.segments_sorted

/-- The lengths of the three parts. -/
theorem SectorList.length_eq :
    l.position segment + l.runLength segment + (aboveKey cvt2segment segment l.entries).length =
      l.entries.length := by
  have h := congrArg List.length (l.entries_eq segment)
  simp only [List.length_append] at h
  exact h

variable {l segment}

/-- Entries before the position belong to smaller segments. -/
theorem SectorList.getD_of_lt {k : ℕ} (hk : k < l.position segment) :
    l.entries.getD k 0 ≠ 0 ∧ cvt2segment (l.entries.getD k 0) < segment := by
  have hget : l.entries.getD k 0 = (belowKey cvt2segment segment l.entries).getD k 0 := by
    conv_lhs => rw [← l.entries_eq segment, List.append_assoc]
    exact List.getD_append _ _ _ _ hk
  have hmem : l.entries.getD k 0 ∈ belowKey cvt2segment segment l.entries := by
    rw [hget, List.getD_eq_getElem _ _ hk]
    exact List.getElem_mem hk
  exact ⟨(l.valid _ (List.mem_filter.mp hmem).1).ne_zero, key_of_mem_belowKey hmem⟩

/-- Entries of the run are read in order. -/
theorem SectorList.getD_run {j : ℕ} (hj : j < l.runLength segment) :
    l.entries.getD (l.position segment + j) 0 = (keyRun cvt2segment segment l.entries).getD j 0 := by
  conv_lhs => rw [← l.entries_eq segment, List.append_assoc]
  unfold position
  rw [List.getD_append_right _ _ _ _ (Nat.le_add_right _ _), Nat.add_sub_cancel_left]
  exact List.getD_append _ _ _ _ hj

/-- Entries of the run belong to the segment. -/
theorem SectorList.mem_run {j : ℕ} (hj : j < l.runLength segment) :
    (keyRun cvt2segment segment l.entries).getD j 0 ∈ keyRun cvt2segment segment l.entries := by
  rw [List.getD_eq_getElem _ _ hj]
  exact List.getElem_mem hj

/-- Entries past the run are read in order. -/
theorem SectorList.getD_above (j : ℕ) :
    l.entries.getD (l.position segment + l.runLength segment + j) 0 =
      (aboveKey cvt2segment segment l.entries).getD j 0 := by
  conv_lhs => rw [← l.entries_eq segment]
  rw [List.getD_append_right]
  · rw [List.length_append]
    congr 1
    unfold position runLength
    omega
  · rw [List.length_append]
    exact Nat.le_add_right _ _

/-- Entries past the run belong to larger segments; behind the last one the list ends. -/
theorem SectorList.getD_of_ge (segment : ℕ) {k : ℕ} (hk : l.position segment + l.runLength segment ≤ k) :
    (k < l.entries.length ∧ segment < cvt2segment (l.entries.getD k 0)) ∨
      (l.entries.length ≤ k ∧ l.entries.getD k 0 = 0) := by
  obtain ⟨j, rfl⟩ := Nat.exists_eq_add_of_le hk
  have hlen := l.length_eq segment
  rw [l.getD_above]
  by_cases hj : j < (aboveKey cvt2segment segment l.entries).length
  · apply Or.inl
    refine ⟨by omega, ?_⟩
    rw [List.getD_eq_getElem _ _ hj]
    exact key_of_mem_aboveKey (List.getElem_mem hj)
  · apply Or.inr
    exact ⟨by omega, List.getD_eq_default _ _ (Nat.not_lt.mp hj)⟩

/-- A flagged entry is alone in its segment, and no flag follows an unflagged entry. -/
theorem SectorList.run_cases (segment : ℕ) :
    keyRun cvt2segment segment l.entries = [] ∨
    (∃ e, keyRun cvt2segment segment l.entries = [e] ∧ 0x800000 ≤ e ∧ fmt.flagged) ∨
    (keyRun cvt2segment segment l.entries ≠ [] ∧
      ∀ e ∈ keyRun cvt2segment segment l.entries, ¬ (0x800000 ≤ e ∧ fmt.flagged)) := by
  have hmem : ∀ e ∈ keyRun cvt2segment segment l.entries, ValidEntry fmt e ∧ cvt2segment e = segment :=
    fun e he => ⟨l.valid e (List.mem_filter.mp he).1, key_of_mem_keyRun he⟩
  have horder : (keyRun cvt2segment segment l.entries).Pairwise EntryOrder := l.ascending.filter _
  generalize keyRun cvt2segment segment l.entries = run at hmem horder
  cases run with
  | nil => exact Or.inl rfl
  | cons e rest =>
    apply Or.inr
    cases horder with
    | cons hhead htail =>
      obtain ⟨hvalid, hseg⟩ := hmem e List.mem_cons_self
      by_cases hflag : 0x800000 ≤ e ∧ fmt.flagged
      · apply Or.inl
        refine ⟨e, ?_, hflag⟩
        cases rest with
        | nil => rfl
        | cons b rest =>
          have hlt := (hhead b List.mem_cons_self).2 hflag.1
          have hb := (hmem b (List.mem_cons_of_mem _ List.mem_cons_self)).2
          omega
      · apply Or.inr
        refine ⟨List.cons_ne_nil _ _, fun b hb => ?_⟩
        cases List.mem_cons.mp hb with
        | inl heq =>
          rw [heq]
          exact hflag
        | inr hrest =>
          -- a later flag would stand at the first sector, before the address of `e`
          intro hbflag
          obtain ⟨hvalidb, hsegb⟩ := hmem b hb
          have haddr := (hhead b hrest).1
          have hfirst := (hvalidb.flag hbflag.1).2
          have hposa := hvalid.address_pos
          rw [cvt2segment, hvalid.sectorIndex_eq] at hseg
          rw [cvt2segment, hvalidb.sectorIndex_eq] at hsegb
          unfold ftSectorsPerSegment at *
          omega

end Entries

/-- The union of two lists of entries. -/
theorem unionMap_append (fmt : FormatCode) (a b : List ℕ) :
    unionMap fmt (a ++ b) = unionMap fmt a ||| unionMap fmt b := by
  induction a with
  | nil => exact BitVec.zero_or.symm
  | cons e rest ih =>
    change entryMap fmt e ||| unionMap fmt (rest ++ b) = entryMap fmt e ||| unionMap fmt rest ||| _
    rw [ih, BitVec.or_assoc]

/-- The union of one more entry. -/
theorem unionMap_cons (fmt : FormatCode) (e : ℕ) (rest : List ℕ) :
    unionMap fmt (e :: rest) = entryMap fmt e ||| unionMap fmt rest := rfl

/-- The union of a single entry. -/
theorem unionMap_singleton (fmt : FormatCode) (e : ℕ) : unionMap fmt [e] = entryMap fmt e :=
  BitVec.or_zero

section Seek

variable {fmt : FormatCode} {l : SectorList fmt} {header : ℕ → Byte} {base segment : ℕ}

/-- The forward loop stops at the position of the segment. -/
theorem forwardSkip_eq (hst : Stored header base l.entries) {rounds ptr : ℕ}
    (hptr : ptr ≤ l.position segment) (hrounds : l.position segment < rounds + ptr) :
    forwardSkip header base segment rounds ptr =
      some (l.position segment, l.entries.getD (l.position segment) 0) := by
  have hlen := l.length_eq segment
  induction rounds generalizing ptr with
  | zero => omega
  | succ rounds ih =>
    rw [forwardSkip, hst ptr (by omega), Option.bind_eq_bind, Option.bind_some]
    rcases Nat.lt_or_ge ptr (l.position segment) with hlt | hge
    · rw [if_pos (l.getD_of_lt hlt)]
      exact ih (by omega) (by omega)
    · obtain rfl : ptr = l.position segment := by omega
      apply if_neg
      rintro ⟨hne, hlt⟩
      rcases Nat.eq_zero_or_pos (l.runLength segment) with hempty | hpos
      · cases l.getD_of_ge segment (k := l.position segment) (by omega) with
        | inl h => omega
        | inr h => exact hne h.2
      · have hrun := l.getD_run hpos
        rw [Nat.add_zero] at hrun
        rw [hrun, key_of_mem_keyRun (l.mem_run hpos)] at hlt
        exact Nat.lt_irrefl _ hlt

/-- The forward loop collects the rest of an unflagged run. -/
theorem forwardCollect_eq (hst : Stored header base l.entries)
    (hplain : ∀ e ∈ keyRun cvt2segment segment l.entries, ¬ (0x800000 ≤ e ∧ fmt.flagged))
    {rounds j : ℕ} (hj : j ≤ l.runLength segment) (hrounds : l.runLength segment < rounds + j)
    (map : SectorMap) (count : ℕ) :
    forwardCollect header base segment rounds (l.position segment + j) map count =
      some (map ||| unionMap fmt ((keyRun cvt2segment segment l.entries).drop j),
        count + (l.runLength segment - j)) := by
  have hlen := l.length_eq segment
  induction rounds generalizing j map count with
  | zero => omega
  | succ rounds ih =>
    rw [forwardCollect, hst _ (by omega), Option.bind_eq_bind, Option.bind_some]
    rcases Nat.lt_or_ge j (l.runLength segment) with hlt | hge
    · have hmem := l.mem_run hlt
      have hne := (l.valid _ (List.mem_filter.mp hmem).1).ne_zero
      rw [l.getD_run hlt, if_pos ⟨hne, key_of_mem_keyRun hmem⟩, Nat.add_assoc,
        ih (by omega) (by omega), List.drop_eq_getElem_cons hlt, unionMap_cons,
        ← List.getD_eq_getElem _ 0 hlt, entryMap, if_neg (hplain _ hmem), BitVec.or_assoc]
      have hcount : count + 1 + (l.runLength segment - (j + 1)) =
          count + (l.runLength segment - j) := by omega
      rw [hcount]
    · obtain rfl : j = l.runLength segment := by omega
      have hnil : (keyRun cvt2segment segment l.entries).drop (l.runLength segment) = [] :=
        List.drop_eq_nil_of_le le_rfl
      have hor : map ||| unionMap fmt [] = map := BitVec.or_zero
      rw [hnil, Nat.sub_self, hor]
      apply if_neg
      rintro ⟨hne, heq⟩
      cases l.getD_of_ge segment le_rfl with
      | inl h => omega
      | inr h => exact hne h.2

/-- The count that the seek routines return. -/
def SectorList.sectorCount {fmt : FormatCode} (l : SectorList fmt) (segment : ℕ) : ℕ :=
  if (keyRun cvt2segment segment l.entries).any fun e => 0x800000 ≤ e ∧ fmt.flagged then
    ftSectorsPerSegment
  else l.runLength segment

/-- `forward_seek_entry()` from any position that is not past the segment. -/
theorem forwardSeekEntry_eq (hst : Stored header base l.entries) {ptr : ℕ}
    (hptr : ptr ≤ l.position segment) :
    forwardSeekEntry fmt header base segment ptr =
      some (l.position segment, l.lookup segment, l.sectorCount segment) := by
  have hfits := hst.fits
  have hlen := l.length_eq segment
  unfold forwardSeekEntry SectorList.lookup SectorList.sectorCount
  rw [forwardSkip_eq hst hptr (by omega), Option.bind_eq_bind, Option.bind_some]
  dsimp only
  have hhead (h : 0 < l.runLength segment) :
      l.entries.getD (l.position segment) 0 = (keyRun cvt2segment segment l.entries).getD 0 0 :=
    l.getD_run h
  rcases l.run_cases segment with hnil | ⟨e, hflag⟩ | ⟨hne, hplain⟩
  · have hzero : l.runLength segment = 0 := by rw [SectorList.runLength, hnil, List.length_nil]
    rw [if_pos, hnil, hzero]
    · rfl
    · cases l.getD_of_ge segment (k := l.position segment) (by omega) with
      | inl h => exact Or.inr (by omega)
      | inr h => exact Or.inl h.2
  · have hmem : e ∈ keyRun cvt2segment segment l.entries := by rw [hflag.1]; exact List.mem_cons_self
    have hone : 0 < l.runLength segment := List.length_pos_of_mem hmem
    rw [hhead hone, hflag.1, List.getD_cons_zero, if_neg, if_pos hflag.2]
    · have hmap : entryMap fmt e = emptySegment := if_pos hflag.2
      rw [unionMap_singleton, hmap, List.any_cons, decide_eq_true hflag.2]
      rfl
    · rw [not_or, not_not]
      exact ⟨(l.valid _ (List.mem_filter.mp hmem).1).ne_zero, key_of_mem_keyRun hmem⟩
  · have hone : 0 < l.runLength segment := List.length_pos_of_ne_nil hne
    have hmem := l.mem_run hone
    have hany : (keyRun cvt2segment segment l.entries).any
        (fun e => 0x800000 ≤ e ∧ fmt.flagged) = false := by
      apply List.any_eq_false.mpr
      intro e he
      rw [decide_eq_true_eq]
      exact hplain e he
    rw [hhead hone, if_neg, if_neg (hplain _ hmem),
      forwardCollect_eq hst hplain hone (by omega), Option.bind_eq_bind, Option.bind_some, hany]
    · have hrun : cvt2map ((keyRun cvt2segment segment l.entries).getD 0 0) |||
          unionMap fmt ((keyRun cvt2segment segment l.entries).drop 1) =
            unionMap fmt (keyRun cvt2segment segment l.entries) := by
        have hplain0 := hplain _ hmem
        conv_rhs => rw [← List.drop_zero (l := keyRun cvt2segment segment l.entries),
          List.drop_eq_getElem_cons hone]
        rw [unionMap_cons, ← List.getD_eq_getElem _ 0 hone, entryMap, if_neg hplain0]
      rw [hrun]
      simp only [Bool.false_eq_true, if_false]
      rw [show 1 + (l.runLength segment - 1) = l.runLength segment by omega]
    · rw [not_or, not_not]
      exact ⟨(l.valid _ (List.mem_filter.mp hmem).1).ne_zero, key_of_mem_keyRun hmem⟩

/-- The backward loop stops at the last entry of the run, or at the one before its place. -/
theorem backwardSkip_eq (hst : Stored header base l.entries) {ptr : ℕ} (hpos : 0 < ptr)
    (hlow : l.position segment + l.runLength segment ≤ ptr) (hhigh : ptr ≤ l.entries.length) :
    backwardSkip header base segment ptr =
      some (l.position segment + l.runLength segment - 1,
        l.entries.getD (l.position segment + l.runLength segment - 1) 0) := by
  induction ptr with
  | zero => omega
  | succ ptr ih =>
    rw [backwardSkip, hst ptr (by omega), Option.bind_eq_bind, Option.bind_some]
    rcases Nat.lt_or_ge ptr (l.position segment + l.runLength segment) with hin | hpast
    · have hlast : l.position segment + l.runLength segment - 1 = ptr := by omega
      rw [hlast]
      apply if_neg
      rintro ⟨-, hlt⟩
      rcases Nat.lt_or_ge ptr (l.position segment) with hbelow | hrun
      · have := (l.getD_of_lt hbelow).2
        omega
      · obtain ⟨j, rfl⟩ := Nat.exists_eq_add_of_le hrun
        have hj : j < l.runLength segment := by omega
        rw [l.getD_run hj, key_of_mem_keyRun (l.mem_run hj)] at hlt
        exact Nat.lt_irrefl _ hlt
    · have hlt : segment < cvt2segment (l.entries.getD ptr 0) := by
        cases l.getD_of_ge segment hpast with
        | inl h => exact h.2
        | inr h => omega
      rcases Nat.eq_zero_or_pos ptr with hzero | hmore
      · have hnone : l.position segment + l.runLength segment - 1 = 0 := by omega
        rw [hnone, hzero]
        exact if_neg fun h => Nat.lt_irrefl 0 h.1
      · rw [if_pos ⟨hmore, hlt⟩]
        exact ih hmore hpast (by omega)

/-- The backward loop collects the front of an unflagged run and stops at its first entry. -/
theorem backwardCollect_eq (hst : Stored header base l.entries)
    (hplain : ∀ e ∈ keyRun cvt2segment segment l.entries, ¬ (0x800000 ≤ e ∧ fmt.flagged))
    {j : ℕ} (hj : j ≤ l.runLength segment) (map : SectorMap) (count : ℕ) :
    backwardCollect header base segment (l.position segment + j) map count =
      some (l.position segment,
        map ||| unionMap fmt ((keyRun cvt2segment segment l.entries).take j), count + j) := by
  have hlen := l.length_eq segment
  induction j generalizing map count with
  | zero =>
    have hor : map ||| unionMap fmt [] = map := BitVec.or_zero
    rw [Nat.add_zero, Nat.add_zero, List.take_zero, hor]
    generalize hposn : l.position segment = ptr at *
    cases ptr with
    | zero => rfl
    | succ ptr =>
      have hbelow := (l.getD_of_lt (show ptr < l.position segment by omega)).2
      rw [backwardCollect, hst ptr (by omega), Option.bind_eq_bind, Option.bind_some,
        if_pos hbelow.ne, if_pos hbelow]
  | succ j ih =>
    have hlt : j < l.runLength segment := hj
    have hmem := l.mem_run hlt
    rw [← Nat.add_assoc, backwardCollect, hst _ (by omega), Option.bind_eq_bind, Option.bind_some,
      l.getD_run hlt, if_neg (not_not.mpr (key_of_mem_keyRun hmem)), ih (by omega),
      List.take_succ_eq_append_getElem hlt, unionMap_append, ← List.getD_eq_getElem _ 0 hlt,
      unionMap_singleton, entryMap, if_neg (hplain _ hmem), BitVec.or_assoc,
      BitVec.or_comm (cvt2map _), Nat.add_assoc count 1 j, Nat.add_comm 1 j]

/-- `backwards_seek_entry()` from any position that is past the segment. -/
theorem backwardsSeekEntry_eq (hst : Stored header base l.entries) {ptr : ℕ}
    (hlow : l.position segment + l.runLength segment ≤ ptr) (hhigh : ptr ≤ l.entries.length) :
    ∃ count, backwardsSeekEntry fmt header base segment ptr =
      some (l.position segment, l.lookup segment, count) := by
  have hlen := l.length_eq segment
  unfold backwardsSeekEntry SectorList.lookup
  rcases Nat.eq_zero_or_pos ptr with hzero | hpos
  · have hnil : keyRun cvt2segment segment l.entries = [] :=
      List.eq_nil_of_length_eq_zero (by unfold SectorList.runLength at hlow; omega)
    rw [if_pos hzero, hnil, show l.position segment = 0 by omega]
    exact ⟨0, rfl⟩
  rw [if_neg hpos.ne', backwardSkip_eq hst hpos hlow hhigh, Option.bind_eq_bind, Option.bind_some]
  dsimp only
  rcases l.run_cases segment with hnil | ⟨e, hrun, hflag⟩ | ⟨hne, hplain⟩
  · have hzero : l.runLength segment = 0 := by rw [SectorList.runLength, hnil, List.length_nil]
    rw [hzero, Nat.add_zero, hnil]
    refine ⟨0, ?_⟩
    rcases Nat.eq_zero_or_pos (l.position segment) with hfirst | hmore
    · -- the segment would stand before the whole list
      have hlt : segment < cvt2segment (l.entries.getD (l.position segment - 1) 0) := by
        cases l.getD_of_ge segment (k := l.position segment - 1) (by omega) with
        | inl h => exact h.2
        | inr h => omega
      rw [if_pos hlt, hfirst]
      rfl
    · have hbelow := (l.getD_of_lt (show l.position segment - 1 < l.position segment by omega)).2
      rw [if_neg hbelow.le.not_gt, if_pos hbelow, Nat.sub_add_cancel hmore]
      rfl
  · have hone : l.runLength segment = 1 := by rw [SectorList.runLength, hrun, List.length_singleton]
    have hmem : e ∈ keyRun cvt2segment segment l.entries := by rw [hrun]; exact List.mem_cons_self
    have hfirst : 0 < l.runLength segment := by omega
    have hentry := l.getD_run hfirst
    rw [Nat.add_zero, hrun, List.getD_cons_zero] at hentry
    refine ⟨ftSectorsPerSegment, ?_⟩
    have hmap : entryMap fmt e = emptySegment := if_pos hflag
    rw [hone, Nat.add_sub_cancel, hentry, key_of_mem_keyRun hmem, if_neg (Nat.lt_irrefl _),
      if_neg (Nat.lt_irrefl _), if_pos hflag, hrun, unionMap_singleton, hmap]
  · obtain ⟨j, hj⟩ : ∃ j, l.runLength segment = j + 1 :=
      Nat.exists_eq_succ_of_ne_zero (List.length_pos_of_ne_nil hne).ne'
    have hlast : j < l.runLength segment := by omega
    have hmem := l.mem_run hlast
    refine ⟨1 + j, ?_⟩
    rw [hj, ← Nat.add_assoc, Nat.add_sub_cancel, l.getD_run hlast, key_of_mem_keyRun hmem,
      if_neg (Nat.lt_irrefl _), if_neg (Nat.lt_irrefl _), if_neg (hplain _ hmem),
      backwardCollect_eq hst hplain hlast.le]
    have hunion : cvt2map ((keyRun cvt2segment segment l.entries).getD j 0) |||
        unionMap fmt ((keyRun cvt2segment segment l.entries).take j) =
          unionMap fmt (keyRun cvt2segment segment l.entries) := by
      have hplainj := hplain _ hmem
      have htake : (keyRun cvt2segment segment l.entries).take (j + 1) =
          keyRun cvt2segment segment l.entries := List.take_of_length_le hj.le
      conv_rhs => rw [← htake, List.take_succ_eq_append_getElem hlast]
      rw [unionMap_append, ← List.getD_eq_getElem _ 0 hlast, unionMap_singleton, entryMap,
        if_neg hplainj, BitVec.or_comm]
    rw [hunion]

end Seek

end Ftape.Bsm
