import Ftape.Algebra.RunSum
import Ftape.Header.Decode
import Ftape.Zftape.HardErrors

/-!
# Tape positions

Positions on tape are bytes of payload from the first segment on. `zft_get_capacity()` adds up the
sizes of all data segments, and `zft_calc_tape_pos()` walks to a segment from the one whose position
it remembers. A hard write error makes a segment smaller, which the remembered position must reflect.
-/

namespace Ftape.Zftape

open Ftape.Algebra Ftape.Write

/-- The fields of `zftape_info_t` and `ftape_info_t` that tape positions are calculated from. -/
@[ext]
structure Books where
  badSectorMap : ℤ → SectorMap
  rawImage : Bool
  firstDataSegment : ℤ
  lastDataSegment : ℤ
  capacity : ℤ
  segPos : ℤ
  tapePos : ℤ

/-- The size of a segment with a given map, as the user sees it. -/
def segSize (rawImage : Bool) (map : SectorMap) : ℕ :=
  if 0 < segDataSz map ∧ rawImage then segDataSz map + ftEccSectors * ftSectorSize else segDataSz map

/-- `zft_get_seg_sz()`. -/
def Books.zftGetSegSz (books : Books) (segment : ℤ) : ℤ :=
  segSize books.rawImage (books.badSectorMap segment)

/-- `zft_first_segment()`. -/
def Books.zftFirstSegment (books : Books) : ℤ := if books.rawImage then 0 else books.firstDataSegment

/-- Take the segment at the remembered position into account. -/
def Books.step (books : Books) : Books :=
  { books with
    segPos := Header.int (books.segPos + 1)
    tapePos := books.tapePos + books.zftGetSegSz books.segPos }

/-- The loop of `zft_get_capacity()`, with the segments whose sizes it looks up. -/
def Books.capacityLoop : ℕ → Books → Option (Books × List ℤ)
  | 0, _ => none
  | rounds + 1, books =>
    if books.segPos ≤ books.lastDataSegment then
      (Books.capacityLoop rounds books.step).map fun (books', segments) =>
        (books', books.segPos :: segments)
    else some (books, [])

/-- `zft_get_capacity()`, if it returns after some rounds. -/
def Books.zftGetCapacity (rounds : ℕ) (books : Books) : Option (Books × List ℤ) :=
  Books.capacityLoop rounds { books with segPos := books.zftFirstSegment, tapePos := 0 }

/-- The capacity as it is kept. -/
def Books.updateCapacity (rounds : ℕ) (books : Books) : Option Books :=
  (books.zftGetCapacity rounds).map fun (books, _) => { books with capacity := books.tapePos }

/-- The first shortcut of `zft_calc_tape_pos()`, from the first segment, with the distance `d2` that
is left. -/
def Books.fromFirst (books : Books) (segment : ℤ) : Books × ℤ :=
  let d2 := segment - books.segPos
  let d1 := segment - books.zftFirstSegment
  if 10 < -d2 ∧ d1 < -d2 then ({ books with tapePos := 0, segPos := books.zftFirstSegment }, d1)
  else (books, d2)

/-- The second shortcut, from the last segment. -/
def Books.fromLast (books : Books) (segment d2 : ℤ) : Books × ℤ :=
  let d3 := books.lastDataSegment - segment
  if 10 < d2 ∧ d3 < d2 then
    ({ books with tapePos := books.capacity, segPos := books.lastDataSegment + 1 }, -d3)
  else (books, d2)

/-- The loop that walks forwards, for the segments that are left. -/
def Books.forwards : ℕ → Books → Books
  | 0, books => books
  | left + 1, books => Books.forwards left { books with
      tapePos := books.tapePos + books.zftGetSegSz books.segPos
      segPos := books.segPos + 1 }

/-- The loop that walks backwards, for the segments that are left. -/
def Books.backwards : ℕ → Books → Books
  | 0, books => books
  | left + 1, books => Books.backwards left { books with
      tapePos := books.tapePos - books.zftGetSegSz (books.segPos - 1)
      segPos := books.segPos - 1 }

/-- `zft_calc_tape_pos()`. -/
def Books.zftCalcTapePos (books : Books) (segment : ℤ) : Books × ℤ :=
  if books.lastDataSegment < segment then (books, books.capacity)
  else if segment < books.zftFirstSegment then (books, 0)
  else
    let (books, d2) := books.fromFirst segment
    let (books, d2) := books.fromLast segment d2
    let books := if 0 < d2 then books.forwards (segment - books.segPos).toNat
      else books.backwards (books.segPos - segment).toNat
    (books, books.tapePos)

/-- What a recovered hard write error does to the books: its sector is bad, and the capacity is one
sector less. -/
def Books.hardError (books : Books) (segment : ℤ) (hardErrorMap : SectorMap) : Books :=
  { books with
    badSectorMap := Function.update books.badSectorMap segment
      (books.badSectorMap segment ||| hardErrorMap)
    capacity := books.capacity - ftSectorSize }

/-- The books of a device that writes, with the position it remembers. -/
def ZftapeInfo.books {α : Type*} (zftape : ZftapeInfo α) (first last segPos tapePos : ℤ) : Books where
  badSectorMap segment := if 0 ≤ segment then zftape.drive.badSectorMap segment.toNat else 0
  rawImage := false
  firstDataSegment := first
  lastDataSegment := last
  capacity := zftape.capacity
  segPos := segPos
  tapePos := tapePos

section Capacity

/-- The segments from a first one on. -/
def segmentsFrom (first : ℤ) (n : ℕ) : List ℤ := (List.range n).map fun i : ℕ => first + i

/-- The segments without the first one. -/
theorem segmentsFrom_succ (first : ℤ) (n : ℕ) :
    segmentsFrom first (n + 1) = first :: segmentsFrom (first + 1) n := by
  rw [segmentsFrom, List.range_succ_eq_map, List.map_cons, List.map_map, Nat.cast_zero, add_zero,
    segmentsFrom]
  congr 1
  apply List.map_congr_left
  intro i _
  rw [Function.comp_apply, Nat.succ_eq_add_one]
  push_cast
  ring

/-- A segment is among `n` segments if it is less than `n` behind the first. -/
theorem mem_segmentsFrom {first segment : ℤ} {n : ℕ} :
    segment ∈ segmentsFrom first n ↔ first ≤ segment ∧ segment < first + n := by
  rw [segmentsFrom, List.mem_map]
  constructor
  · rintro ⟨i, hi, rfl⟩
    rw [List.mem_range] at hi
    omega
  · rintro ⟨hfirst, hlast⟩
    refine ⟨(segment - first).toNat, ?_, ?_⟩
    · rw [List.mem_range]
      omega
    · omega

/-- The loop of `zft_get_capacity()` goes through the segments up to the last one. -/
theorem Books.capacityLoop_eq (books : Books) (hint : -0x80000000 ≤ books.segPos)
    (hlast : books.lastDataSegment < 0x7fffffff) {n : ℕ}
    (hn : (books.lastDataSegment + 1 - books.segPos).toNat = n) :
    Books.capacityLoop (n + 1) books = some
      ({ books with
        segPos := books.segPos + n
        tapePos := books.tapePos + runSum books.zftGetSegSz books.segPos (books.segPos + n) },
        segmentsFrom books.segPos n) := by
  induction n generalizing books with
  | zero =>
    have hpast : ¬books.segPos ≤ books.lastDataSegment := by omega
    simp [capacityLoop, hpast, runSum_of_le, segmentsFrom]
  | succ n ih =>
    have hin : books.segPos ≤ books.lastDataSegment := by omega
    have hstep : books.step.segPos = books.segPos + 1 :=
      Header.int_eq_self (by omega) (by omega)
    have hlow : -0x80000000 ≤ books.step.segPos := by
      rw [hstep]
      omega
    have hleft : (books.step.lastDataSegment + 1 - books.step.segPos).toNat = n := by
      have hsame : books.step.lastDataSegment = books.lastDataSegment := rfl
      rw [hstep, hsame]
      omega
    have hsum : books.step.tapePos +
        runSum books.zftGetSegSz (books.segPos + 1) (books.segPos + 1 + n) =
        books.tapePos + runSum books.zftGetSegSz books.segPos (books.segPos + (n + 1 : ℕ)) := by
      have hend : books.segPos + (n + 1 : ℕ) = books.segPos + 1 + n := by
        push_cast
        ring
      rw [hend, runSum_cons _ (show books.segPos < books.segPos + 1 + n by omega), ← add_assoc]
      rfl
    rw [capacityLoop, if_pos hin, ih books.step hlow hlast hleft, Option.map_some, hstep]
    refine congrArg some (Prod.ext (Books.ext rfl rfl rfl rfl rfl ?_ hsum) (segmentsFrom_succ _ n).symm)
    push_cast
    ring

/-- The loop never ends on a tape whose last segment is the largest `int`. -/
theorem Books.capacityLoop_endless (books : Books) (hint : books.segPos ≤ 0x7fffffff)
    (hlast : books.lastDataSegment = 0x7fffffff) (rounds : ℕ) :
    Books.capacityLoop rounds books = none := by
  induction rounds generalizing books with
  | zero => rfl
  | succ rounds ih =>
    have hin : books.segPos ≤ books.lastDataSegment := hlast ▸ hint
    have hstep : books.step.segPos ≤ 0x7fffffff := by
      exact Int.le_of_lt_add_one (Header.int_lt (books.segPos + 1))
    rw [capacityLoop, if_pos hin, ih books.step hstep hlast, Option.map_none]

/-- More rounds than the loop needs do not change its result. -/
theorem Books.capacityLoop_add {rounds : ℕ} {books : Books} {result : Books × List ℤ}
    (h : Books.capacityLoop rounds books = some result) (more : ℕ) :
    Books.capacityLoop (rounds + more) books = some result := by
  induction rounds generalizing books result with
  | zero => cases h
  | succ rounds ih =>
    rw [Nat.add_right_comm, capacityLoop]
    rw [capacityLoop] at h
    by_cases hin : books.segPos ≤ books.lastDataSegment
    · rw [if_pos hin] at h ⊢
      obtain ⟨rest, hrest, heq⟩ := Option.map_eq_some_iff.mp h
      rw [ih hrest, Option.map_some, heq]
    · rwa [if_neg hin] at h ⊢

/-- `zft_get_capacity()` returns, with all data segments looked up once, in order. -/
theorem Books.zftGetCapacity_eq {books : Books} (hfirst : -0x80000000 ≤ books.zftFirstSegment)
    (hlast : books.lastDataSegment < 0x7fffffff) {n : ℕ}
    (hn : (books.lastDataSegment + 1 - books.zftFirstSegment).toNat = n) :
    books.zftGetCapacity (n + 1) = some
      ({ books with
        segPos := books.zftFirstSegment + n
        tapePos := runSum books.zftGetSegSz books.zftFirstSegment (books.zftFirstSegment + n) },
        segmentsFrom books.zftFirstSegment n) := by
  have hloop := Books.capacityLoop_eq { books with segPos := books.zftFirstSegment, tapePos := 0 }
    hfirst hlast hn
  rw [zftGetCapacity, hloop]
  dsimp only
  rw [zero_add]
  rfl

/-- `zft_get_capacity()` never returns on a tape whose last segment is the largest `int`. -/
theorem Books.zftGetCapacity_endless {books : Books} (hfirst : books.zftFirstSegment ≤ 0x7fffffff)
    (hlast : books.lastDataSegment = 0x7fffffff) (rounds : ℕ) : books.zftGetCapacity rounds = none :=
  capacityLoop_endless { books with segPos := books.zftFirstSegment, tapePos := 0 } hfirst hlast rounds

end Capacity

section Coherence

/-- The remembered position is between the first and the last segment, and right; so is the
capacity. -/
structure Books.Coherent (books : Books) : Prop where
  first : books.zftFirstSegment ≤ books.segPos
  last : books.segPos ≤ max books.zftFirstSegment (books.lastDataSegment + 1)
  tapePos : books.tapePos = runSum books.zftGetSegSz books.zftFirstSegment books.segPos
  capacity : books.capacity =
    runSum books.zftGetSegSz books.zftFirstSegment (books.lastDataSegment + 1)

/-- The segment numbers of a tape are in the range of `int`. -/
structure Books.Numbered (books : Books) : Prop where
  first : -0x80000000 ≤ books.zftFirstSegment
  first' : books.zftFirstSegment ≤ 0x7fffffff
  last : books.lastDataSegment ≤ 0x7fffffff

/-- If `zft_get_capacity()` returns, it has added up all data segments. -/
theorem Books.Numbered.coherent_of_updateCapacity {books books' : Books} (h : books.Numbered)
    {rounds : ℕ} (hupdate : books.updateCapacity rounds = some books') : books'.Coherent := by
  obtain ⟨⟨found, segments⟩, hcapacity, hbooks⟩ := Option.map_eq_some_iff.mp hupdate
  have hlast : books.lastDataSegment < 0x7fffffff := by
    by_contra hlarge
    have hmax : books.lastDataSegment = 0x7fffffff := le_antisymm h.last (not_lt.mp hlarge)
    rw [zftGetCapacity_endless h.first' hmax] at hcapacity
    cases hcapacity
  obtain ⟨n, hn⟩ : ∃ n, (books.lastDataSegment + 1 - books.zftFirstSegment).toNat = n := ⟨_, rfl⟩
  have hloop := capacityLoop_add (zftGetCapacity_eq h.first hlast hn) rounds
  rw [Nat.add_comm, capacityLoop_add hcapacity (n + 1)] at hloop
  have hfound := congrArg Prod.fst (Option.some.inj hloop)
  dsimp only at hfound hbooks
  rw [← hbooks, hfound]
  have hsum : runSum books.zftGetSegSz books.zftFirstSegment (books.zftFirstSegment + n) =
      runSum books.zftGetSegSz books.zftFirstSegment (books.lastDataSegment + 1) := by
    by_cases hempty : books.lastDataSegment + 1 ≤ books.zftFirstSegment
    · rw [runSum_of_le _ hempty, runSum_of_le _ (by omega)]
    · have hend : books.zftFirstSegment + n = books.lastDataSegment + 1 := by omega
      rw [hend]
  refine ⟨?_, ?_, rfl, hsum⟩
  · exact Int.le_add_of_nonneg_right (Int.natCast_nonneg n)
  · change books.zftFirstSegment + n ≤ max books.zftFirstSegment (books.lastDataSegment + 1)
    omega

/-- The loop that walks forwards keeps the position right. -/
theorem Books.forwards_eq (n : ℕ) {books : Books} (hfirst : books.zftFirstSegment ≤ books.segPos)
    (htape : books.tapePos = runSum books.zftGetSegSz books.zftFirstSegment books.segPos) :
    books.forwards n = { books with
      segPos := books.segPos + n
      tapePos := runSum books.zftGetSegSz books.zftFirstSegment (books.segPos + n) } := by
  induction n generalizing books with
  | zero => simp [forwards, ← htape]
  | succ n ih =>
    have hcast : books.segPos + 1 + (n : ℤ) = books.segPos + (n + 1 : ℕ) := by
      push_cast
      ring
    rw [forwards, ih]
    · dsimp only
      rw [hcast]
      rfl
    · exact le_trans hfirst (Int.le_add_one le_rfl)
    · dsimp only
      rw [htape, ← runSum_succ _ hfirst]
      rfl

/-- So does the loop that walks backwards. -/
theorem Books.backwards_eq (n : ℕ) {books : Books} (hfirst : books.zftFirstSegment ≤ books.segPos - n)
    (htape : books.tapePos = runSum books.zftGetSegSz books.zftFirstSegment books.segPos) :
    books.backwards n = { books with
      segPos := books.segPos - n
      tapePos := runSum books.zftGetSegSz books.zftFirstSegment (books.segPos - n) } := by
  induction n generalizing books with
  | zero => simp [backwards, ← htape]
  | succ n ih =>
    have hcast : books.segPos - 1 - (n : ℤ) = books.segPos - (n + 1 : ℕ) := by
      push_cast
      ring
    have hlt : books.zftFirstSegment < books.segPos := by
      push_cast at hfirst
      omega
    rw [backwards, ih]
    · dsimp only
      rw [hcast]
      rfl
    · dsimp only
      rw [hcast]
      exact hfirst
    · dsimp only
      rw [htape, ← runSum_pred _ hlt]
      rfl

/-- The first shortcut keeps the position right. -/
theorem Books.Coherent.fromFirst {books : Books} (h : books.Coherent) (segment : ℤ) :
    ∃ segPos tapePos, books.fromFirst segment =
        ({ books with segPos := segPos, tapePos := tapePos }, segment - segPos) ∧
      books.zftFirstSegment ≤ segPos ∧
      tapePos = runSum books.zftGetSegSz books.zftFirstSegment segPos := by
  unfold Books.fromFirst
  by_cases hfar : 10 < -(segment - books.segPos) ∧
      segment - books.zftFirstSegment < -(segment - books.segPos)
  · simp only [if_pos hfar]
    exact ⟨_, _, rfl, le_rfl, (runSum_of_le _ le_rfl).symm⟩
  · simp only [if_neg hfar]
    exact ⟨_, _, rfl, h.first, h.tapePos⟩

/-- The loops end at the segment they walk to, with its position. -/
theorem Books.walk_eq (books : Books) {segment : ℤ} (d2 : ℤ) (hsegment : books.zftFirstSegment ≤ segment)
    (hfirst : books.zftFirstSegment ≤ books.segPos)
    (htape : books.tapePos = runSum books.zftGetSegSz books.zftFirstSegment books.segPos)
    (hforwards : 0 < d2 → books.segPos ≤ segment) (hbackwards : d2 ≤ 0 → segment ≤ books.segPos) :
    (if 0 < d2 then books.forwards (segment - books.segPos).toNat
      else books.backwards (books.segPos - segment).toNat) = { books with
        segPos := segment
        tapePos := runSum books.zftGetSegSz books.zftFirstSegment segment } := by
  by_cases hd2 : 0 < d2
  · have hend : books.segPos + ((segment - books.segPos).toNat : ℤ) = segment := by
      have hle := hforwards hd2
      omega
    rw [if_pos hd2, forwards_eq _ hfirst htape, hend]
  · have hend : books.segPos - ((books.segPos - segment).toNat : ℤ) = segment := by
      have hle := hbackwards (not_lt.mp hd2)
      omega
    rw [if_neg hd2, backwards_eq _ (by rw [hend]; exact hsegment) htape, hend]

/-- Walking to a segment makes the remembered position the one of that segment. -/
theorem Books.Coherent.zftCalcTapePos_within {books : Books} (h : books.Coherent) {segment : ℤ}
    (hfirst : books.zftFirstSegment ≤ segment) (hlast : segment ≤ books.lastDataSegment) :
    books.zftCalcTapePos segment =
      ({ books with
        segPos := segment
        tapePos := runSum books.zftGetSegSz books.zftFirstSegment segment },
        runSum books.zftGetSegSz books.zftFirstSegment segment) := by
  obtain ⟨segPos, tapePos, hshort, hsegPos, htape⟩ := h.fromFirst segment
  rw [zftCalcTapePos, if_neg (not_lt.mpr hlast), if_neg (not_lt.mpr hfirst), hshort]
  dsimp only
  rw [fromLast]
  by_cases hfar : 10 < segment - segPos ∧ books.lastDataSegment - segment < segment - segPos
  · have hend : books.zftFirstSegment ≤ books.lastDataSegment + 1 := by omega
    have hd2 : ¬0 < -(books.lastDataSegment - segment) := by omega
    have hwalk := walk_eq { books with
      segPos := books.lastDataSegment + 1, tapePos := books.capacity } (-(books.lastDataSegment - segment))
      hfirst hend h.capacity (fun hpos => absurd hpos hd2) (fun _ => Int.le_add_one hlast)
    simp only [if_pos hfar]
    rw [hwalk]
    rfl
  · have hwalk := walk_eq { books with segPos := segPos, tapePos := tapePos } (segment - segPos)
      hfirst hsegPos htape (fun hpos => (Int.sub_pos.mp hpos).le) (fun hneg => sub_nonpos.mp hneg)
    simp only [if_neg hfar]
    rw [hwalk]
    rfl

/-- `zft_calc_tape_pos()` returns the position of every segment, up to the end of the tape. -/
theorem Books.Coherent.zftCalcTapePos_snd {books : Books} (h : books.Coherent) (segment : ℤ) :
    (books.zftCalcTapePos segment).2 = runSum books.zftGetSegSz books.zftFirstSegment
      (min segment (books.lastDataSegment + 1)) := by
  by_cases hlast : books.lastDataSegment < segment
  · rw [zftCalcTapePos, if_pos hlast, min_eq_right (by omega)]
    exact h.capacity
  · rw [min_eq_left (by omega)]
    by_cases hfirst : segment < books.zftFirstSegment
    · rw [zftCalcTapePos, if_neg hlast, if_pos hfirst, runSum_of_le _ hfirst.le]
    · rw [h.zftCalcTapePos_within (not_lt.mp hfirst) (not_lt.mp hlast)]

/-- `zft_calc_tape_pos()` keeps the books right. -/
theorem Books.Coherent.zftCalcTapePos_fst {books : Books} (h : books.Coherent) (segment : ℤ) :
    (books.zftCalcTapePos segment).1.Coherent := by
  by_cases hlast : books.lastDataSegment < segment
  · rwa [zftCalcTapePos, if_pos hlast]
  · by_cases hfirst : segment < books.zftFirstSegment
    · rwa [zftCalcTapePos, if_neg hlast, if_pos hfirst]
    · rw [h.zftCalcTapePos_within (not_lt.mp hfirst) (not_lt.mp hlast)]
      refine ⟨not_lt.mp hfirst, ?_, rfl, h.capacity⟩
      exact le_max_of_le_right (Int.le_add_one (not_lt.mp hlast))

/-- A hard error takes a sector from the size of its segment. -/
theorem Books.hardError_zftGetSegSz {books : Books} (hraw : books.rawImage = false) {segment : ℤ}
    {hardErrorMap : SectorMap} (hone : countOnes hardErrorMap = 1)
    (hnew : books.badSectorMap segment &&& hardErrorMap = 0)
    (hroom : countOnes (books.badSectorMap segment) ≤ 28) :
    (books.hardError segment hardErrorMap).zftGetSegSz =
      Function.update books.zftGetSegSz segment (books.zftGetSegSz segment - ftSectorSize) := by
  have hplain : ∀ map, segSize false map = segDataSz map := fun map => if_neg (by simp)
  have hsmaller : (segDataSz (books.badSectorMap segment ||| hardErrorMap) : ℤ) =
      segDataSz (books.badSectorMap segment) - ftSectorSize := by
    rw [segDataSz_eq, segDataSz_eq, countOnes_or_of_new hone hnew, ftSectorSize]
    omega
  funext k
  have hafter : (books.hardError segment hardErrorMap).zftGetSegSz k =
      segDataSz (Function.update books.badSectorMap segment
        (books.badSectorMap segment ||| hardErrorMap) k) := by
    rw [zftGetSegSz]
    change ((segSize books.rawImage _ : ℕ) : ℤ) = _
    rw [hraw, hplain]
    rfl
  rw [hafter]
  by_cases hk : k = segment
  · rw [hk, Function.update_self, Function.update_self, hsmaller, zftGetSegSz, hraw, hplain]
  · rw [Function.update_of_ne hk, Function.update_of_ne hk, zftGetSegSz, hraw, hplain]

/-- A hard error behind the remembered position keeps the books right. -/
theorem Books.Coherent.hardError {books : Books} (h : books.Coherent) (hraw : books.rawImage = false)
    {segment : ℤ} {hardErrorMap : SectorMap} (hone : countOnes hardErrorMap = 1)
    (hnew : books.badSectorMap segment &&& hardErrorMap = 0)
    (hroom : countOnes (books.badSectorMap segment) ≤ 28) (hpos : books.segPos ≤ segment)
    (hlast : segment ≤ books.lastDataSegment) : (books.hardError segment hardErrorMap).Coherent := by
  have hsize := hardError_zftGetSegSz hraw hone hnew hroom
  refine ⟨h.first, h.last, ?_, ?_⟩
  · rw [hsize]
    change books.tapePos = runSum _ books.zftFirstSegment books.segPos
    rw [runSum_update_of_outside _ _ (Or.inr hpos)]
    exact h.tapePos
  · rw [hsize]
    change books.capacity - ftSectorSize = runSum _ books.zftFirstSegment (books.lastDataSegment + 1)
    rw [runSum_update_of_inside _ _ (h.first.trans hpos) (by omega), h.capacity]
    ring

/-- The states that the driver reaches with calculations of the capacity, which it also starts with
for a new cartridge, and of positions, and with recoveries from hard write errors that meet a
condition. It writes only while it shows no raw image. -/
inductive Books.Reached (condition : Books → ℤ → Prop) : Books → Prop
  | capacity {books books' : Books} {rounds : ℕ} (h : books.Numbered)
      (hupdate : books.updateCapacity rounds = some books') : Reached condition books'
  | position {books : Books} (h : Reached condition books) (segment : ℤ) :
      Reached condition (books.zftCalcTapePos segment).1
  | hardError {books : Books} (h : Reached condition books) (hraw : books.rawImage = false)
      {segment : ℤ} {hardErrorMap : SectorMap} (hone : countOnes hardErrorMap = 1)
      (hnew : books.badSectorMap segment &&& hardErrorMap = 0) (hcondition : condition books segment) :
      Reached condition (books.hardError segment hardErrorMap)

/-- The remembered position is not behind the segment, a data segment that has data. -/
def Books.Unpassed (books : Books) (segment : ℤ) : Prop :=
  books.segPos ≤ segment ∧ segment ≤ books.lastDataSegment ∧
    countOnes (books.badSectorMap segment) ≤ 28

/-- As long as no hard error occurs in front of the remembered position, the books stay right. -/
theorem Books.Reached.coherent {books : Books} (h : Reached Unpassed books) : books.Coherent := by
  induction h with
  | capacity h hupdate => exact h.coherent_of_updateCapacity hupdate
  | position _ segment ih => exact ih.zftCalcTapePos_fst segment
  | hardError _ hraw hone hnew hcondition ih =>
    obtain ⟨hpos, hlast, hroom⟩ := hcondition
    exact ih.hardError hraw hone hnew hroom hpos hlast

/-- Then `zft_calc_tape_pos()` returns the sum of the current sizes of the segments in front, and the
capacity is the sum over all data segments. -/
theorem Books.Reached.positions {books : Books} (h : Reached Unpassed books) :
    (∀ segment, (books.zftCalcTapePos segment).2 = runSum books.zftGetSegSz books.zftFirstSegment
      (min segment (books.lastDataSegment + 1))) ∧
    books.capacity = runSum books.zftGetSegSz books.zftFirstSegment (books.lastDataSegment + 1) :=
  ⟨h.coherent.zftCalcTapePos_snd, h.coherent.capacity⟩

/-- The books of a cartridge with the data segments three to fifty, before anything is calculated. -/
def freshBooks : Books := ⟨fun _ => 0, false, 3, 50, 0, 0, 0⟩

/-- The capacity of that cartridge is calculated. -/
theorem isSome_updateCapacity_freshBooks : (freshBooks.updateCapacity 49).isSome := by
  decide +kernel

/-- The books after the capacity is calculated. -/
def measuredBooks : Books := (freshBooks.updateCapacity 49).get isSome_updateCapacity_freshBooks

/-- A hard error behind the remembered position moves the segments behind it. -/
theorem Books.Reached.positions_behind :
    (((measuredBooks.zftCalcTapePos 10).1.hardError 20 1).zftCalcTapePos 30).2 =
      runSum ((measuredBooks.zftCalcTapePos 10).1.hardError 20 1).zftGetSegSz 3 30 := by
  have hnumbered : freshBooks.Numbered := ⟨by decide, by decide, by decide⟩
  have hupdate : freshBooks.updateCapacity 49 = some measuredBooks := (Option.some_get _).symm
  have hmeasured : Reached Unpassed measuredBooks := .capacity hnumbered hupdate
  have hunpassed : (measuredBooks.zftCalcTapePos 10).1.Unpassed 20 := by
    unfold Unpassed
    decide +kernel
  have hfailed : Reached Unpassed ((measuredBooks.zftCalcTapePos 10).1.hardError 20 1) :=
    .hardError (hmeasured.position 10) (by decide +kernel) (by decide) (by decide +kernel) hunpassed
  exact hfailed.positions.1 30

/-- After the capacity is calculated, a hard error leaves the position of the last segment one sector
too far behind. -/
theorem Books.Reached.positions_stale :
    ((measuredBooks.hardError 5 1).zftCalcTapePos 50).2 ≠
      runSum (measuredBooks.hardError 5 1).zftGetSegSz 3 50 := by
  decide +kernel

end Coherence

section Recovery

variable {α : Type*}

/-- A recovery changes the books like a hard error in the segment of its buffer. -/
theorem ZftapeInfo.books_of_recovered {zftape zftape' : ZftapeInfo α} {segment : ℕ}
    {hardErrorMap : SectorMap}
    (hmap : zftape'.drive.badSectorMap = Function.update zftape.drive.badSectorMap segment
      (zftape.drive.badSectorMap segment ||| hardErrorMap))
    (hcapacity : zftape'.capacity = zftape.capacity - ftSectorSize) (first last segPos tapePos : ℤ) :
    zftape'.books first last segPos tapePos =
      (zftape.books first last segPos tapePos).hardError segment hardErrorMap := by
  refine Books.ext ?_ rfl rfl rfl hcapacity rfl rfl
  funext k
  change (if 0 ≤ k then zftape'.drive.badSectorMap k.toNat else 0) =
    Function.update (fun k : ℤ => if 0 ≤ k then zftape.drive.badSectorMap k.toNat else 0) segment
      ((if 0 ≤ (segment : ℤ) then zftape.drive.badSectorMap (segment : ℤ).toNat else 0) |||
        hardErrorMap) k
  rw [hmap, if_pos (Int.natCast_nonneg segment), Int.toNat_natCast]
  by_cases hk : k = segment
  · rw [hk, Function.update_self, if_pos (Int.natCast_nonneg segment), Int.toNat_natCast,
      Function.update_self]
  · rw [Function.update_of_ne hk]
    by_cases hneg : 0 ≤ k
    · rw [if_pos hneg, if_pos hneg, Function.update_of_ne (by omega)]
    · rw [if_neg hneg, if_neg hneg]

/-- The recovery of `zftape_write_segment()` changes the books like a hard error in the segment of
`HEAD`. -/
theorem recoverWrite_books (kernel : Kernel α) (zftape : ZftapeInfo α) {segSz : ℕ}
    {head : BufferStruct α} {queue free : List (BufferStruct α)}
    (h : zftape.drive.Queued (head :: queue) free) (hfailed : FailedBuffer zftape.drive head)
    (hroom : countOnes (zftape.drive.badSectorMap head.segmentId) ≤ 28)
    (hsector : segSz = 0 ∨ ftSectorSize ≤ segSz) (hle : segSz ≤ ftSegmentSize) :
    ∃ zftape', recoverWrite kernel zftape segSz = some (.ok zftape') ∧
      ∀ first last segPos tapePos, zftape'.books first last segPos tapePos =
        (zftape.books first last segPos tapePos).hardError head.segmentId head.hardErrorMap := by
  obtain ⟨drive', scratch', -, -, hrecover, -, -, -, -, -, hmap, -⟩ :=
    recoverWrite_spec kernel zftape h hfailed hroom hsector hle
  exact ⟨_, hrecover, ZftapeInfo.books_of_recovered hmap rfl⟩

/-- So does the recovery of `zftape_loop_until_writes_done()`. -/
theorem zftapeLoopUntilWritesDone_books (kernel : Kernel α) {zftape : ZftapeInfo α}
    {report : RunnerReport} {drive : Drive α} {head : BufferStruct α}
    {queue free : List (BufferStruct α)}
    (hfails : ftapeLoopUntilWritesDone zftape.drive report = (drive, .error .eio))
    (h : drive.Queued (head :: queue) free) (hfailed : FailedBuffer drive head)
    (hroom : countOnes (drive.badSectorMap head.segmentId) ≤ 28)
    (hmap : drive.badSectorMap = zftape.drive.badSectorMap) :
    ∃ zftape', zftapeLoopUntilWritesDone kernel report zftape = some (zftape', .ok ()) ∧
      ∀ first last segPos tapePos, zftape'.books first last segPos tapePos =
        (zftape.books first last segPos tapePos).hardError head.segmentId head.hardErrorMap := by
  obtain ⟨ftape, scratch, queue', free', hrecovery, -, -, hrecovers⟩ :=
    h.recovers kernel.ecc hfailed hroom kernel.fresh
  have hhead := headFailed_of_failed h hfailed.status hfailed.one
  have hmap' := hrecovers.badSectorMap
  rw [hmap] at hmap'
  refine ⟨{ zftape with
    drive := { drive with toFtapeInfo := ftape }
    capacity := zftape.capacity - ftSectorSize
    hardErrors := zftape.hardErrors ++ [scratch] }, ?_, ZftapeInfo.books_of_recovered hmap' rfl⟩
  rw [zftapeLoopUntilWritesDone, hfails]
  dsimp only
  rw [hhead, if_neg (by simp), hrecovery]
  rfl

end Recovery

end Ftape.Zftape
