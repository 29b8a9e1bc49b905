import Ftape.Bsm.Lookup

/-!
# Updates of a stored list

An update finds the run of a segment, moves the rest of the list so that the new run fits and
writes the new entries. Each step is described by what it does to the entries read back, and
together they store the list with the run exchanged.
-/

namespace Ftape.Bsm

open Ftape.Algebra

/-- Reading three bytes of a number back gives its low 24 bits. -/
theorem bytes_of_sector (sector : ℕ) :
    (BitVec.ofNat 8 sector).toNat + (BitVec.ofNat 8 (sector / 0x100)).toNat * 0x100 +
      (BitVec.ofNat 8 (sector / 0x10000)).toNat * 0x10000 = sector % 0x1000000 := by
  simp only [BitVec.toNat_ofNat]
  omega

/-- Equal bytes are read as equal entries. -/
theorem getSector_congr {header header' : ℕ → Byte} {base ptr ptr' : ℕ}
    (hbound : base + 3 * ptr + 3 ≤ ftSegmentSize ↔ base + 3 * ptr' + 3 ≤ ftSegmentSize)
    (h : ∀ i < 3, header' (base + 3 * ptr + i) = header (base + 3 * ptr' + i)) :
    getSector header' base ptr = getSector header base ptr' := by
  have h0 := h 0 (by decide)
  have h1 := h 1 (by decide)
  have h2 := h 2 (by decide)
  simp only [Nat.add_zero] at h0
  unfold getSector
  by_cases hin : base + 3 * ptr + 3 ≤ ftSegmentSize
  · rw [if_pos hin, if_pos (hbound.mp hin), h0, h1, h2]
  · rw [if_neg hin, if_neg fun hin' => hin (hbound.mpr hin')]

/-- What writing entries at a list pointer does: they are read back, the other entries and the
bytes outside are unchanged. -/
structure Wrote (header : ℕ → Byte) (base ptr : ℕ) (entries : List ℕ) (header' : ℕ → Byte) :
    Prop where
  reads : ∀ j < entries.length, getSector header' base (ptr + j) = some (entries.getD j 0)
  others : ∀ k, (k < ptr ∨ ptr + entries.length ≤ k) →
    getSector header' base k = getSector header base k
  frame : ∀ a, (a < base + 3 * ptr ∨ base + 3 * (ptr + entries.length) ≤ a) → header' a = header a

/-- Writing nothing. -/
theorem Wrote.nil (header : ℕ → Byte) (base ptr : ℕ) : Wrote header base ptr [] header where
  reads j hj := absurd hj (Nat.not_lt_zero j)
  others _ _ := rfl
  frame _ _ := rfl

/-- `put_sector()` writes one entry. -/
theorem putSector_wrote {header : ℕ → Byte} {base ptr sector : ℕ}
    (hroom : base + 3 * (ptr + 1) ≤ ftSegmentSize) (hsector : sector < 0x1000000) :
    ∃ header', putSector header base ptr sector = some header' ∧
      Wrote header base ptr [sector] header' := by
  refine ⟨_, if_pos (by omega), ?_, fun k hk => ?_, fun a ha => ?_⟩
  · intro j hj
    have hj' : j = 0 := Nat.lt_one_iff.mp hj
    subst hj'
    have h0 : base + 3 * ptr ≠ base + 3 * ptr + 1 := by omega
    have h1 : base + 3 * ptr ≠ base + 3 * ptr + 2 := by omega
    have h2 : base + 3 * ptr + 1 ≠ base + 3 * ptr + 2 := by omega
    change getSector _ base ptr = some sector
    rw [getSector, if_pos (by omega), Function.update_self, Function.update_of_ne h2,
      Function.update_self, Function.update_of_ne h1, Function.update_of_ne h0,
      Function.update_self, bytes_of_sector, Nat.mod_eq_of_lt hsector]
  · rw [List.length_singleton] at hk
    apply getSector_congr Iff.rfl
    intro i hi
    rw [Function.update_of_ne (by omega), Function.update_of_ne (by omega),
      Function.update_of_ne (by omega)]
  · rw [List.length_singleton] at ha
    rw [Function.update_of_ne (by omega), Function.update_of_ne (by omega),
      Function.update_of_ne (by omega)]

/-- Writes at consecutive pointers combine. -/
theorem Wrote.cons {header header₁ header₂ : ℕ → Byte} {base ptr e : ℕ} {rest : List ℕ}
    (h : Wrote header base ptr [e] header₁) (hrest : Wrote header₁ base (ptr + 1) rest header₂) :
    Wrote header base ptr (e :: rest) header₂ where
  reads j hj := by
    cases j with
    | zero =>
      exact (hrest.others _ (Or.inl (Nat.lt_succ_self ptr))).trans (h.reads 0 Nat.zero_lt_one)
    | succ j =>
      have hread := hrest.reads j (Nat.lt_of_succ_lt_succ hj)
      rw [Nat.add_assoc, Nat.add_comm 1 j] at hread
      rw [hread]
      rfl
  others k hk := by
    rw [List.length_cons] at hk
    rw [hrest.others k (by omega), h.others k (by rw [List.length_singleton]; omega)]
  frame a ha := by
    rw [List.length_cons] at ha
    rw [hrest.frame a (by omega), h.frame a (by rw [List.length_singleton]; omega)]

/-- The marked sectors of a map from its bit `i` on, counted from the sector shifted to the
bottom. -/
theorem sectorAddresses_shift (segment i rounds : ℕ) (map : SectorMap) :
    ((List.range (rounds + 1)).filter (map.getLsbD ·)).map
        (1 + segment * ftSectorsPerSegment + i + ·) =
      (if map.getLsbD 0 then [1 + segment * ftSectorsPerSegment + i] else []) ++
        ((List.range rounds).filter ((map >>> 1).getLsbD ·)).map
          (1 + segment * ftSectorsPerSegment + (i + 1) + ·) := by
  have hshift : (fun j => (map >>> 1).getLsbD j) = (fun j => map.getLsbD j) ∘ Nat.succ := by
    funext j
    rw [BitVec.getLsbD_ushiftRight, Nat.add_comm]
    rfl
  have haddr : (1 + segment * ftSectorsPerSegment + i + ·) ∘ Nat.succ =
      (1 + segment * ftSectorsPerSegment + (i + 1) + ·) := by
    funext j
    simp only [Function.comp]
    omega
  rw [List.range_succ_eq_map, List.filter_cons, hshift]
  have htail : ((List.range rounds).map Nat.succ).filter (map.getLsbD ·) =
      ((List.range rounds).filter ((fun j => map.getLsbD j) ∘ Nat.succ)).map Nat.succ :=
    List.filter_map
  rw [htail]
  split
  · rw [List.map_cons, List.map_map, haddr]
    rfl
  · rw [List.map_map, haddr]
    rfl

/-- Admissible segments have addresses of 23 bits. -/
theorem Admissible.lt {segment : ℕ} (h : Admissible segment) : segment < 0x40000 := by
  unfold Admissible ftSectorsPerSegment at h
  omega

/-- The writing loop writes the addresses of the marked sectors. -/
theorem putSectors_wrote {base segment : ℕ} (hseg : segment < 0x40000) {rounds i ptr : ℕ}
    (hrounds : i + rounds ≤ 32) (map : SectorMap) (header : ℕ → Byte)
    (hroom : base + 3 * (ptr + ((List.range rounds).filter (map.getLsbD ·)).length) ≤
      ftSegmentSize) :
    ∃ header', putSectors base segment rounds i ptr map header = some header' ∧
      Wrote header base ptr (((List.range rounds).filter (map.getLsbD ·)).map
        (1 + segment * ftSectorsPerSegment + i + ·)) header' := by
  induction rounds generalizing i ptr map header with
  | zero => exact ⟨header, rfl, Wrote.nil header base ptr⟩
  | succ rounds ih =>
    have hlist := sectorAddresses_shift segment i rounds map
    have hlen := congrArg List.length hlist
    rw [List.length_map, List.length_append, List.length_map] at hlen
    rw [putSectors, hlist]
    split
    · next hbit =>
      rw [if_pos hbit, List.length_singleton] at hlen
      have hsector : 1 + segment * ftSectorsPerSegment + i < 0x1000000 := by
        unfold ftSectorsPerSegment at *
        omega
      have hfirst : base + 3 * (ptr + 1) ≤ ftSegmentSize := by omega
      have htail : base + 3 * (ptr + 1 + ((List.range rounds).filter ((map >>> 1).getLsbD ·)).length) ≤
          ftSegmentSize := by omega
      obtain ⟨header₁, hput, hwrote⟩ := putSector_wrote hfirst hsector
      have hround : i + 1 + rounds ≤ 32 := by omega
      obtain ⟨header₂, hloop, hrest⟩ := ih hround (map >>> 1) header₁ htail
      rw [hput, Option.bind_eq_bind, Option.bind_some]
      exact ⟨header₂, hloop, hwrote.cons hrest⟩
    · next hbit =>
      rw [if_neg hbit, List.length_nil] at hlen
      exact ih (by omega) (map >>> 1) header (by omega)

/-- `memmove()` of entries: the destination reads as the source did, the rest is unchanged. -/
theorem moveEntries_eq (header : ℕ → Byte) {base dst src n : ℕ}
    (hdst : base + 3 * (dst + n) ≤ ftSegmentSize) (hsrc : base + 3 * (src + n) ≤ ftSegmentSize) :
    ∃ header', moveEntries header base dst src n = some header' ∧
      (∀ j < n, getSector header' base (dst + j) = getSector header base (src + j)) ∧
      (∀ k < dst, getSector header' base k = getSector header base k) ∧
      ∀ a < base, header' a = header a := by
  refine ⟨_, if_pos ⟨hdst, hsrc⟩, fun j hj => ?_, fun k hk => ?_, fun a ha => ?_⟩
  · apply getSector_congr (by omega)
    intro i hi
    rw [if_pos (by omega)]
    congr 1
    omega
  · apply getSector_congr Iff.rfl
    intro i hi
    rw [if_neg (by omega)]
  · rw [if_neg (by omega)]

/-- A list of entries that ends in the header. -/
structure Terminated (header : ℕ → Byte) (base : ℕ) (entries : List ℕ) : Prop where
  stored : Stored header base entries
  nonzero : ∀ e ∈ entries, e ≠ 0

section Terminated

variable {header : ℕ → Byte} {base : ℕ} {entries : List ℕ}

/-- An entry in front of the terminator. -/
theorem Terminated.getSector (h : Terminated header base entries) {k : ℕ} (hk : k < entries.length) :
    Bsm.getSector header base k = some entries[k] ∧ entries[k] ≠ 0 := by
  have hread := h.stored k hk.le
  rw [List.getD_eq_getElem _ _ hk] at hread
  exact ⟨hread, h.nonzero _ (List.getElem_mem hk)⟩

/-- The terminator. -/
theorem Terminated.getSector_length (h : Terminated header base entries) :
    Bsm.getSector header base entries.length = some 0 := by
  rw [h.stored entries.length le_rfl, List.getD_eq_default _ _ le_rfl]

/-- A terminated list is shorter than the header. -/
theorem Terminated.length_lt (h : Terminated header base entries) :
    entries.length < ftSegmentSize := by
  have hfits := h.stored.fits
  omega

/-- The search for the terminator ends one past it. -/
theorem Terminated.endOfList (h : Terminated header base entries) {rounds ptr : ℕ}
    (hptr : ptr ≤ entries.length) (hrounds : entries.length < rounds + ptr) :
    Bsm.endOfList header base rounds ptr = some (entries.length + 1) := by
  induction rounds generalizing ptr with
  | zero => omega
  | succ rounds ih =>
    rw [Bsm.endOfList]
    cases Nat.lt_or_eq_of_le hptr with
    | inl hlt =>
      obtain ⟨hread, hne⟩ := h.getSector hlt
      rw [hread, Option.bind_eq_bind, Option.bind_some, if_pos hne]
      exact ih hlt (by omega)
    | inr heq =>
      rw [heq, h.getSector_length]
      rfl

/-- Making room moves the entries behind some of them and the terminator, and nothing in front. -/
theorem Terminated.resizeRun (h : Terminated header base entries) (ptr count newCount : ℕ)
    (hcount : ptr + count ≤ entries.length)
    (hroom : base + 3 * (ptr + newCount + (entries.length - (ptr + count)) + 1) ≤ ftSegmentSize) :
    ∃ header', Bsm.resizeRun header base ptr count newCount = some header' ∧
      (∀ j ≤ entries.length - (ptr + count), Bsm.getSector header' base (ptr + newCount + j) =
        some (entries.getD (ptr + count + j) 0)) ∧
      (∀ k < ptr, Bsm.getSector header' base k = some (entries.getD k 0)) ∧
      ∀ a < base, header' a = header a := by
  have hfits := h.stored.fits
  have hfront : ∀ k < ptr, Bsm.getSector header base k = some (entries.getD k 0) :=
    fun k hk => h.stored k (by omega)
  have hback : ∀ j ≤ entries.length - (ptr + count),
      Bsm.getSector header base (ptr + count + j) = some (entries.getD (ptr + count + j) 0) :=
    fun j hj => h.stored _ (by omega)
  unfold Bsm.resizeRun
  split
  · have hmoved : entries.length + 1 - (ptr + count) = entries.length - (ptr + count) + 1 := by omega
    rw [h.endOfList (by omega) (by omega), Option.bind_eq_bind, Option.bind_some, hmoved]
    have hdst : base + 3 * (ptr + newCount + (entries.length - (ptr + count) + 1)) ≤ ftSegmentSize := by
      omega
    have hsrc : base + 3 * (ptr + count + (entries.length - (ptr + count) + 1)) ≤ ftSegmentSize := by
      omega
    obtain ⟨header', hmove, hmoved, hkept, hframe⟩ := moveEntries_eq header hdst hsrc
    refine ⟨header', hmove, fun j hj => ?_, fun k hk => ?_, hframe⟩
    · rw [hmoved j (by omega), hback j hj]
    · rw [hkept k (by omega), hfront k hk]
  · next hsame =>
    rw [not_not] at hsame
    rw [← hsame]
    exact ⟨header, rfl, hback, hfront, fun _ _ => rfl⟩

end Terminated

section Put

variable {fmt : FormatCode} {l : SectorList fmt} {header : ℕ → Byte} {base segment : ℕ}

/-- A stored list ends in the header. -/
theorem SectorList.terminated (hst : Stored header base l.entries) : Terminated header base l.entries :=
  ⟨hst, fun e he => (l.valid e he).ne_zero⟩

/-- Making room for a segment moves the entries behind its run. -/
theorem resizeRun_eq (hst : Stored header base l.entries) (newCount : ℕ)
    (hroom : base + 3 * (l.position segment + newCount +
      (aboveKey cvt2segment segment l.entries).length + 1) ≤ ftSegmentSize) :
    ∃ header', resizeRun header base (l.position segment) (l.runLength segment) newCount =
        some header' ∧
      (∀ j ≤ (aboveKey cvt2segment segment l.entries).length,
        getSector header' base (l.position segment + newCount + j) =
          some ((aboveKey cvt2segment segment l.entries).getD j 0)) ∧
      (∀ k < l.position segment, getSector header' base k = some (l.entries.getD k 0)) ∧
      ∀ a < base, header' a = header a := by
  have hlen := l.length_eq segment
  have habove : l.entries.length - (l.position segment + l.runLength segment) =
      (aboveKey cvt2segment segment l.entries).length := by omega
  obtain ⟨header', hresize, hback, hfront, hframe⟩ := (l.terminated hst).resizeRun
    (l.position segment) (l.runLength segment) newCount (by omega) (by rw [habove]; exact hroom)
  rw [habove] at hback
  refine ⟨header', hresize, fun j hj => ?_, hfront, hframe⟩
  rw [hback j hj, l.getD_above]

/-- The number of entries that `ftape_put_bad_sector_entry()` computes for a map. -/
theorem length_segmentEntries (fmt : FormatCode) (segment : ℕ) (map : SectorMap) :
    (if fmt.flagged ∧ countOnes map = ftSectorsPerSegment then 1 else countOnes map) =
      (segmentEntries fmt segment map).length := by
  unfold segmentEntries
  simp only [countOnes_eq_iff]
  split
  · rfl
  · exact (length_sectorAddresses segment map).symm

/-- The number of entries that it finds for a segment of a canonical list. -/
theorem SectorList.Canonical.count {l : SectorList fmt} (hcanon : l.Canonical) (segment : ℕ) :
    (if fmt.flagged ∧ l.sectorCount segment = ftSectorsPerSegment then 1
      else l.sectorCount segment) = l.runLength segment := by
  unfold SectorList.sectorCount
  rcases l.run_cases segment with hnil | ⟨e, hrun, hflag⟩ | ⟨-, hplain⟩
  · have hzero : l.runLength segment = 0 := by rw [SectorList.runLength, hnil, List.length_nil]
    rw [hnil, hzero]
    simp [ftSectorsPerSegment]
  · have hone : l.runLength segment = 1 := by rw [SectorList.runLength, hrun, List.length_singleton]
    rw [hrun, hone]
    simp [hflag]
  · have hany : (keyRun cvt2segment segment l.entries).any
        (fun e => 0x800000 ≤ e ∧ fmt.flagged) = false := by
      apply List.any_eq_false.mpr
      intro e he
      rw [decide_eq_true_eq]
      exact hplain e he
    rw [hany]
    simp only [Bool.false_eq_true, if_false]
    apply if_neg
    rintro ⟨hflag, hfull⟩
    exact absurd hfull (hcanon hflag segment).ne

/-- Writing the new run. -/
theorem writeRun_wrote (header : ℕ → Byte) (hseg : segment < 0x40000) (map : SectorMap) (ptr : ℕ)
    (hroom : base + 3 * (ptr + (segmentEntries fmt segment map).length) ≤ ftSegmentSize) :
    ∃ header', writeRun header base ptr segment (segmentEntries fmt segment map).length map =
        some header' ∧
      Wrote header base ptr (segmentEntries fmt segment map) header' := by
  by_cases hflag : fmt.flagged ∧ map = emptySegment
  · have hentries : segmentEntries fmt segment map =
        [0x800001 + segment * ftSectorsPerSegment] := if_pos hflag
    rw [hentries] at hroom ⊢
    have hwrite : writeRun header base ptr segment 1 map =
        putSector header base ptr (0x800001 + segment * ftSectorsPerSegment) :=
      if_pos ⟨rfl, hflag.2⟩
    rw [List.length_singleton] at hroom ⊢
    rw [hwrite]
    apply putSector_wrote hroom
    unfold ftSectorsPerSegment at *
    omega
  · have hentries : segmentEntries fmt segment map = sectorAddresses segment map := if_neg hflag
    rw [hentries] at hroom ⊢
    rw [writeRun, if_neg]
    · apply putSectors_wrote hseg (by omega) map header
      rw [sectorAddresses, List.length_map] at hroom
      exact hroom
    · rintro ⟨hone, hempty⟩
      rw [length_sectorAddresses, hempty] at hone
      exact absurd hone (by decide)

/-- The exchanged list, part by part. -/
theorem SectorList.update_entries (l : SectorList fmt) (hseg : Admissible segment) (map : SectorMap) :
    (l.update hseg map).entries =
      belowKey cvt2segment segment l.entries ++ segmentEntries fmt segment map ++
        aboveKey cvt2segment segment l.entries := rfl

/-- `ftape_put_bad_sector_entry()` stores the exchanged list, if there is room for it, and moves
the cache to the segment. Nothing in front of the list changes. -/
theorem ftapePutBadSectorEntry_eq {ftape : FtapeInfo} (hfmt : ftape.formatCode = fmt)
    (hlisted : fmt.listed = true) (hbase : ftape.badSectorMap = some base)
    (hst : Stored ftape.header base l.entries) (hcanon : l.Canonical) (hseg : Admissible segment)
    (map : SectorMap)
    (hroom : base + 3 * ((l.update hseg map).entries.length + 1) ≤ ftSegmentSize)
    (bigEndian : Bool) :
    ∃ header', ftapePutBadSectorEntry bigEndian ftape segment map =
        some { ftape with
          lastReference := segment
          map := map
          header := header'
          bsmHashPtr := some (l.position segment) } ∧
      Stored header' base (l.update hseg map).entries ∧
      ∀ a < base, header' a = ftape.header a := by
  have hupdate := l.update_entries hseg map
  have hlen : (l.update hseg map).entries.length =
      l.position segment + (segmentEntries fmt segment map).length +
        (aboveKey cvt2segment segment l.entries).length := by
    rw [hupdate, List.length_append, List.length_append]
    rfl
  rw [hlen] at hroom
  obtain ⟨header₁, hresize, hback, hfront, hframe₁⟩ :=
    resizeRun_eq hst (segmentEntries fmt segment map).length hroom
  have hrun : base + 3 * (l.position segment + (segmentEntries fmt segment map).length) ≤
      ftSegmentSize := by omega
  obtain ⟨header₂, hwrite, hwrote⟩ := writeRun_wrote header₁ hseg.lt map (l.position segment) hrun
  refine ⟨header₂, ?_, fun k hk => ?_, fun a ha => ?_⟩
  · unfold ftapePutBadSectorEntry
    rw [hbase, Option.bind_eq_bind, Option.bind_some, hfmt]
    dsimp only
    rw [if_pos hlisted, forwardSeekEntry_eq hst (Nat.zero_le _)]
    simp only [Option.bind_eq_bind, Option.bind_some]
    rw [hcanon.count segment, length_segmentEntries fmt segment map, hresize, Option.bind_some,
      hwrite, Option.bind_some]
  · rw [hlen] at hk
    rcases Nat.lt_or_ge k (l.position segment) with hlow | hhigh
    · rw [hwrote.others k (Or.inl hlow), hfront k hlow, hupdate, List.append_assoc,
        List.getD_append _ _ _ _ hlow]
      conv_lhs => rw [← l.entries_eq segment, List.append_assoc, List.getD_append _ _ _ _ hlow]
    · obtain ⟨j, rfl⟩ := Nat.exists_eq_add_of_le hhigh
      rcases Nat.lt_or_ge j (segmentEntries fmt segment map).length with hrun | hpast
      · rw [hwrote.reads j hrun, hupdate, List.append_assoc]
        unfold SectorList.position
        rw [List.getD_append_right _ _ _ _ (Nat.le_add_right _ _), Nat.add_sub_cancel_left,
          List.getD_append _ _ _ _ hrun]
      · obtain ⟨i, rfl⟩ := Nat.exists_eq_add_of_le hpast
        rw [hwrote.others _ (Or.inr (by omega)), ← Nat.add_assoc, hback i (by omega), hupdate,
          List.getD_append_right]
        · congr 2
          rw [List.length_append]
          unfold SectorList.position
          omega
        · rw [List.length_append]
          exact Nat.le_add_right _ _
  · rw [hwrote.frame a (Or.inl (by omega)), hframe₁ a ha]

end Put

end Ftape.Bsm
