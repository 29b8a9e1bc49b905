import Ftape.Volume.Writer
import Ftape.Zftape.WritePosition
import Ftape.Zftape.WriteQuiet

/-!
# The position of the tape in a session that writes

Five functions move the position: writing, flushing, closing a volume, moving past a file mark, and
writing file marks. If the call fits the state it starts from and everything on the way is harmless, each
of them leaves the position at the sum of the sizes of the segments in front, the bytes in the segment,
and the pending sectors.
-/

namespace Ftape.Volume

open Ftape.Algebra Ftape.Write Ftape.Zftape

variable {α : Type}

/-- The position record of a device with given data segments is right. -/
structure Writer.Placed (first last : ℕ) (zftape : Writer α) : Prop where
  firstSegment : zftape.firstDataSegment = first
  lastSegment : zftape.lastDataSegment = last
  placed : zftape.toZftapeInfo.Placed first

namespace Writer

variable {first last : ℕ} {before : ℕ → SectorMap} {zftape : Writer α}

/-- Calculating a position only moves the one that is remembered. -/
theorem zftCalcTapePos_toZftapeInfo (zftape : Writer α) (segment : ℤ) :
    (zftape.zftCalcTapePos segment).1.toZftapeInfo = zftape.toZftapeInfo := rfl

/-- A position that is calculated does not change whether the position record is right. -/
theorem Placed.calculated (h : zftape.Placed first last) (segment : ℤ) :
    Placed first last (zftape.zftCalcTapePos segment).1 := ⟨h.firstSegment, h.lastSegment, h.placed⟩

/-- A list of volumes and a position come with a position record. -/
theorem Placed.moved (h : zftape.Placed first last) {table : Vtbl} {pos : Position}
    (hpos : ZftapeInfo.Placed first { zftape.toZftapeInfo with pos := pos }) :
    Placed first last { zftape with table := table, pos := pos } := ⟨h.firstSegment, h.lastSegment, hpos⟩

/-- Two positions are calculated when a volume is closed. -/
theorem Placed.closed (h : zftape.Placed first last) (behind start : ℤ) {table : Vtbl} {pos : Position}
    (hpos : ZftapeInfo.Placed first { zftape.toZftapeInfo with pos := pos }) :
    Placed first last { ((zftape.zftCalcTapePos behind).1.zftCalcTapePos start).1 with
      table := table, pos := pos } := by
  have hcalculated := (h.calculated behind).calculated start
  apply hcalculated.moved
  rw [zftCalcTapePos_toZftapeInfo, zftCalcTapePos_toZftapeInfo]
  exact hpos

/-- The position of the segment behind the volume table. -/
theorem Placed.reset (h : zftape.Placed first last) (hle : first ≤ last) (hcoherent : zftape.books.Coherent)
    (curVtbl : ℕ) :
    Placed first last { (zftape.zftCalcTapePos (first + 1 : ℕ)).1 with
      curVtbl := curVtbl
      pos := ⟨first + 1, 0, 0, (zftape.zftCalcTapePos (first + 1 : ℕ)).2⟩
      ioState := .idle
      deblockBuf := false
      hardErrors := []
      needFlush := false } := by
  refine ⟨h.firstSegment, h.lastSegment, Nat.le_succ _, ?_⟩
  have hpos : (zftape.zftCalcTapePos (first + 1 : ℕ)).2 = _ :=
    hcoherent.zftCalcTapePos_snd ((first + 1 : ℕ) : ℤ)
  have hmin : min ((first + 1 : ℕ) : ℤ) (zftape.books.lastDataSegment + 1) = (first + 1 : ℕ) := by
    apply min_eq_left
    change ((first + 1 : ℕ) : ℤ) ≤ (zftape.lastDataSegment : ℤ) + 1
    rw [h.lastSegment]
    omega
  have hsegment : zftape.books.zftFirstSegment = first := congrArg Nat.cast h.firstSegment
  have hnone : ∀ info : ZftapeInfo α, info.hardErrors = [] → (info.hardErrorCnt : ℤ) * ftSectorSize = 0 := by
    intro info hinfo
    rw [ZftapeInfo.hardErrorCnt, hinfo, List.length_nil, Nat.cast_zero, zero_mul]
  rw [hmin, hsegment] at hpos
  rw [ZftapeInfo.Balanced, hnone _ rfl, add_zero]
  dsimp only
  rw [hpos, neg_zero, add_zero]
  rfl

/-- A new table leads back to the segment behind the volume table. -/
theorem keeps_zftResetPosition (hfirst : first < 0x7fffffff) (hle : first ≤ last)
    (h : zftape.Placed first last) (hcoherent : zftape.books.Coherent) :
    Keeps first before zftape.initVtbl.zftResetPosition fun started =>
      Placed first last started ∧ started.pos.segBytePos = 0 := by
  have hinit : zftape.initVtbl.Placed first last := ⟨h.firstSegment, h.lastSegment, h.placed⟩
  have hcur : zftape.initVtbl.table.volumeBySegpos zftape.initVtbl.curVtbl 0 = some 0 :=
    if_pos (Nat.succ_pos _)
  have hstart : (zftape.initVtbl.table.node 0).startSeg = first + 1 :=
    congrArg (· + 1) h.firstSegment
  have hint : Header.int ((first + 1 : ℕ) : ℤ) = (first + 1 : ℕ) := by
    apply Header.int_eq_self
    · omega
    · omega
  rw [zftResetPosition, hcur]
  dsimp only
  rw [hstart, hint]
  exact .pure ⟨hinit.reset hle hcoherent 0, rfl⟩

/-- Opening a volume begins it at the start of the segment, where the position should be. -/
theorem appendVolume_ok {cartridge : Cartridge} {table table' : Vtbl} {pos pos' : Position} {blkSz : ℕ}
    (h : table.appendVolume cartridge pos blkSz = (table', .ok pos')) :
    pos' = { pos with volumePos := 0, segBytePos := 0 } := by
  rw [Vtbl.appendVolume] at h
  split_ifs at h
  · cases h
  · cases h
  · cases h
  · cases h
    rfl

/-- A volume that is opened begins with a segment. At the beginning of the tape the position is calculated, and
what `zft_calc_tape_pos()` remembers is right. -/
def Opens (zftape : Writer α) : Prop :=
  if zftape.zftTapeAtLbot then zftape.books.Coherent else zftape.pos.segBytePos = 0

/-- Opening a volume keeps the position record right. -/
theorem keeps_zftOpenVolume (hfirst : first < 0x7fffffff) (hle : first ≤ last)
    (h : zftape.Placed first last) (hopens : zftape.Opens) :
    Keeps first before zftape.zftOpenVolume fun opened => Placed first last opened.1 := by
  have hstart : Keeps first before
      (if zftape.zftTapeAtLbot then zftape.initVtbl.zftResetPosition else pure zftape)
      fun started => Placed first last started ∧ started.pos.segBytePos = 0 := by
    rw [Opens] at hopens
    split
    case isTrue hlbot =>
      rw [if_pos hlbot] at hopens
      exact keeps_zftResetPosition hfirst hle h hopens
    case isFalse hlbot =>
      rw [if_neg hlbot] at hopens
      exact .pure ⟨h, hopens⟩
  refine hstart.bind ?_
  rintro started ⟨hstarted, hzero⟩
  dsimp only
  generalize happended : started.table.appendVolume started.cartridge started.pos started.blkSz = appended
  obtain ⟨table, result⟩ := appended
  cases result with
  | error errno => exact .pure hstarted
  | ok pos =>
    refine .pure ⟨hstarted.firstSegment, hstarted.lastSegment, ?_⟩
    have hbalanced := hstarted.placed.balanced
    rw [hzero] at hbalanced
    rw [appendVolume_ok happended]
    exact ⟨hstarted.placed.behind, hbalanced⟩

/-- The end of a volume keeps the position record right, and is not behind the position. -/
theorem Placed.beforeMark (h : zftape.Placed first last) (hfirst : first < zftape.pos.segPos)
    (hrange : zftape.pos.segPos < 0x100000000) (startSeg : ℕ) :
    ZftapeInfo.Placed first { zftape.toZftapeInfo with pos := zftape.cartridge.beforeMark zftape.pos startSeg } ∧
      (zftape.cartridge.beforeMark zftape.pos startSeg).segPos ≤ zftape.pos.segPos := by
  rw [Cartridge.beforeMark]
  split
  case isTrue hback =>
    refine ⟨h.placed.stepBack hback.1 hfirst hrange, ?_⟩
    dsimp only
    rw [Header.uint]
    omega
  case isFalse => exact ⟨⟨h.placed.behind, h.placed.balanced⟩, le_rfl⟩

/-- Closing a volume keeps the position record right, and does not move forwards. -/
theorem Placed.zftCloseVolume (h : zftape.Placed first last) (hfirst : first < zftape.pos.segPos)
    (hrange : zftape.pos.segPos < 0x100000000) :
    Placed first last (Writer.zftCloseVolume zftape).1 ∧
      (Writer.zftCloseVolume zftape).1.pos.segPos ≤ zftape.pos.segPos := by
  rw [Writer.zftCloseVolume]
  cases hvolume : zftape.table.openVolume with
  | none => exact ⟨h, le_rfl⟩
  | some volume =>
    obtain ⟨hplaced, hle⟩ := h.beforeMark hfirst hrange volume.startSeg
    have hclosed : ∃ table, zftape.table.zftCloseVolume zftape.cartridge zftape.pos =
        (table, .ok (zftape.cartridge.beforeMark zftape.pos volume.startSeg)) := by
      rw [Vtbl.zftCloseVolume, hvolume]
      exact ⟨_, rfl⟩
    obtain ⟨table, hclosed⟩ := hclosed
    dsimp only
    rw [hclosed]
    exact ⟨h.closed _ _ hplaced, hle⟩

/-- Moving past a file mark keeps the position record right. -/
theorem Placed.zftMovePastEof (h : zftape.Placed first last) (hrange : zftape.pos.segPos < 0xffffffff) :
    Placed first last (Writer.zftMovePastEof zftape) := by
  refine ⟨h.firstSegment, h.lastSegment, ?_⟩
  have hnext : Header.uint (zftape.pos.segPos + 1) = zftape.pos.segPos + 1 :=
    Nat.mod_eq_of_lt (by omega)
  rw [Writer.zftMovePastEof, Cartridge.zftMovePastEof, hnext]
  refine ⟨Nat.le_succ_of_le h.placed.behind, ?_⟩
  refine (h.placed.balanced.succ h.placed.behind rfl).congr rfl ?_
  dsimp only [ZftapeInfo.hardErrorCnt, cartridge]
  ring

/-- Appending file marks keeps the position record right. -/
theorem weofLoop_placed {info : ZftapeInfo α} {cartridge : Cartridge} (hsegSz : cartridge.segSz = info.segSz)
    (count : ℕ) {table : Vtbl} {pos : Position} (h : ZftapeInfo.Placed first { info with pos := pos }) :
    ZftapeInfo.Placed first { info with pos := (table.weofLoop cartridge count pos).2.1 } := by
  induction count generalizing table pos with
  | zero => exact h
  | succ count ih =>
    rw [Vtbl.weofLoop]
    split
    case isTrue =>
      refine ih ⟨Nat.le_succ_of_le h.behind, (h.balanced.succ h.behind rfl).congr rfl ?_⟩
      rw [hsegSz]
      dsimp only [ZftapeInfo.hardErrorCnt, ZftapeInfo.segSz]
      ring
    case isFalse => exact h

/-- So does the part of `zft_weof()` that appends them. -/
theorem placed_weofMarks (h : zftape.Placed first last) (count : ℕ) :
    Placed first last (zftape.weofMarks count).1 := by
  have hmarks : ZftapeInfo.Placed first { zftape.toZftapeInfo with
      pos := (zftape.table.weofLoop zftape.cartridge count zftape.pos).2.1 } :=
    weofLoop_placed rfl count h.placed
  rw [weofMarks]
  generalize zftape.table.weofLoop zftape.cartridge count zftape.pos = marks at hmarks
  obtain ⟨table, pos, left⟩ := marks
  cases left with
  | zero => exact ⟨h.firstSegment, h.lastSegment, hmarks⟩
  | succ left => exact ⟨h.firstSegment, h.lastSegment, hmarks.behind, hmarks.balanced⟩

/-- Writing file marks keeps the position record right. -/
theorem Placed.zftWeof (h : zftape.Placed first last) (hfirst : first < zftape.pos.segPos)
    (hrange : zftape.pos.segPos < 0xffffffff) (count : ℕ) : Placed first last (Writer.zftWeof count zftape).1 := by
  rw [Writer.zftWeof]
  split
  · exact h
  · have hstart : ∀ started : Writer α, started = (if zftape.zftTapeAtLbot then zftape.initVtbl else zftape) →
        Placed first last started ∧ started.pos = zftape.pos := by
      rintro _ rfl
      split
      · exact ⟨⟨h.firstSegment, h.lastSegment, h.placed⟩, rfl⟩
      · exact ⟨h, rfl⟩
    dsimp only
    generalize hstarted : (if zftape.zftTapeAtLbot then zftape.initVtbl else zftape) = started
    obtain ⟨hplaced, hpos⟩ := hstart started hstarted.symm
    have hhere : started.pos.segPos = zftape.pos.segPos := congrArg Position.segPos hpos
    split
    · obtain ⟨hclosed, hle⟩ := hplaced.zftCloseVolume (hfirst.trans_eq hhere.symm) (by omega)
      exact placed_weofMarks (hclosed.zftMovePastEof (by omega)) _
    · exact placed_weofMarks hplaced _

/-- Checking for access keeps the position record right. -/
theorem keeps_checkWriteAccess (hfirst : first < 0x7fffffff) (hle : first ≤ last) (reqLen : ℕ)
    (h : zftape.Placed first last) (hopens : zftape.ioState = .writing ∨ zftape.Opens) :
    Keeps first before (zftape.checkWriteAccess reqLen) fun checked => Placed first last checked.1 := by
  rw [checkWriteAccess]
  split
  · exact .pure h
  · split
    · exact .pure h
    case isFalse hidle =>
      have hopens' : Opens { zftape with toZftapeInfo := { zftape.toZftapeInfo with ioState := .idle } } :=
        hopens.resolve_left hidle
      have hplaced : Placed first last
          { zftape with toZftapeInfo := { zftape.toZftapeInfo with ioState := .idle } } :=
        ⟨h.firstSegment, h.lastSegment, h.placed.behind, h.placed.balanced⟩
      dsimp only
      split
      · exact .pure hplaced
      · refine (keeps_zftOpenVolume hfirst hle hplaced hopens').bind ?_
        rintro ⟨opened, result⟩ hopened
        cases result with
        | error errno => exact .pure hopened
        | ok _ =>
          dsimp only
          split
          · exact .halt _
          · exact .pure ⟨hopened.firstSegment, hopened.lastSegment, hopened.placed.behind,
              hopened.placed.balanced⟩

/-- Writing keeps the position record right. -/
theorem keeps_zftWrite (hfirst : first < 0x7fffffff) (hle : first ≤ last) (kernel : Kernel α)
    (buff : List α) (rounds : List (List RunnerReport)) (h : zftape.Placed first last)
    (hopens : zftape.ioState = .writing ∨ zftape.Opens) :
    Keeps first before (zftape.zftWrite kernel buff rounds) fun written => Placed first last written.1 := by
  have hstart : Placed first last { zftape with toZftapeInfo := { zftape.toZftapeInfo with
      resid := (buff.length : ℕ), lastWriteFailed := true } } :=
    ⟨h.firstSegment, h.lastSegment, h.placed.behind, h.placed.balanced⟩
  refine (keeps_checkWriteAccess hfirst hle buff.length hstart hopens).bind ?_
  rintro ⟨checked, result⟩ hchecked
  cases result with
  | error errno => exact .pure hchecked
  | ok _ =>
    refine (keeps_writeLoop kernel rounds buff 0 hchecked.placed).bind ?_
    rintro ⟨written, result⟩ hwritten
    exact .pure ⟨hchecked.firstSegment, hchecked.lastSegment, hwritten⟩

end Writer

/-- The functions that move the position while the device writes. -/
inductive WriteCall (α : Type) where
  | write (buff : List α) (rounds : List (List RunnerReport))
  | flushBuffers (round : FlushRound) (rounds : List FlushRound)
  | closeVolume
  | movePastEof
  | weof (count : ℕ)

/-- What a call makes of the device, and its result. -/
def WriteCall.exec (kernel : Kernel α) (zftape : Writer α) :
    WriteCall α → Traced α (Writer α × Except Errno Unit)
  | write buff rounds => do
    let (zftape, result) ← zftape.zftWrite kernel buff rounds
    pure (zftape, result.map fun _ => ())
  | flushBuffers round rounds => zftape.zftFlushBuffers kernel round rounds
  | closeVolume => pure zftape.zftCloseVolume
  | movePastEof => pure (zftape.zftMovePastEof, .ok ())
  | weof count => pure (zftape.zftWeof count)

/-- One call after the other, with their results. -/
def Writer.run (kernel : Kernel α) :
    List (WriteCall α) → Writer α → Traced α (Writer α × List (Except Errno Unit))
  | [], zftape => pure (zftape, [])
  | call :: calls, zftape => do
    let (zftape, result) ← call.exec kernel zftape
    let (zftape, results) ← Writer.run kernel calls zftape
    pure (zftape, result :: results)

/-- A call fits the device. What opens a volume has to be at the start of a segment. What may step back is
behind the first data segment, and what steps forward has a segment number to step to. -/
def WriteCall.Fits (zftape : Writer α) : WriteCall α → Prop
  | write _ _ => zftape.ioState = .writing ∨ zftape.Opens
  | flushBuffers _ rounds => zftape.firstDataSegment < zftape.pos.segPos ∧
      zftape.pos.segPos + rounds.length < 0x100000000
  | closeVolume => zftape.firstDataSegment < zftape.pos.segPos ∧ zftape.pos.segPos < 0x100000000
  | movePastEof => zftape.pos.segPos < 0xffffffff
  | weof _ => zftape.firstDataSegment < zftape.pos.segPos ∧ zftape.pos.segPos < 0xffffffff

/-- Every call fits the device as it is then, and everything on its way is harmless. -/
def Writer.FitsAll (kernel : Kernel α) : List (WriteCall α) → Writer α → Prop
  | [], _ => True
  | call :: calls, zftape => call.Fits zftape ∧
      (∀ event ∈ (call.exec kernel zftape).queries,
        event.Harmless zftape.firstDataSegment zftape.drive.badSectorMap) ∧
      ∀ done ∈ (call.exec kernel zftape).result.toOption, Writer.FitsAll kernel calls done.1

/-- A call that fits keeps the position record right. -/
theorem WriteCall.keeps_exec {first last : ℕ} (hfirst : first < 0x7fffffff) (hle : first ≤ last)
    (kernel : Kernel α) {zftape : Writer α} (h : zftape.Placed first last) (call : WriteCall α)
    (hfits : call.Fits zftape) :
    Keeps first zftape.drive.badSectorMap (call.exec kernel zftape) fun done =>
      Writer.Placed first last done.1 := by
  have hsegment := h.firstSegment
  cases call with
  | write buff rounds =>
    exact (Writer.keeps_zftWrite hfirst hle kernel buff rounds h hfits).bind fun _ hwritten => .pure hwritten
  | flushBuffers round rounds =>
    obtain ⟨hbehind, hrange⟩ := hfits
    refine (keeps_zftFlushBuffers kernel round rounds h.placed (hsegment.symm.trans_lt hbehind) hrange).bind ?_
    rintro ⟨flushed, result⟩ hflushed
    exact .pure ⟨hsegment, h.lastSegment, hflushed⟩
  | closeVolume =>
    obtain ⟨hbehind, hrange⟩ := hfits
    exact .pure (h.zftCloseVolume (hsegment.symm.trans_lt hbehind) hrange).1
  | movePastEof => exact .pure (h.zftMovePastEof hfits)
  | weof count =>
    obtain ⟨hbehind, hrange⟩ := hfits
    exact .pure (h.zftWeof (hsegment.symm.trans_lt hbehind) hrange count)

/-- A run whose calls fit keeps the position record right. -/
theorem Writer.Placed.run {first last : ℕ} (hfirst : first < 0x7fffffff) (hle : first ≤ last)
    (kernel : Kernel α) (calls : List (WriteCall α)) {zftape zftape' : Writer α}
    {results : List (Except Errno Unit)} (h : zftape.Placed first last)
    (hfits : Writer.FitsAll kernel calls zftape)
    (hrun : (Writer.run kernel calls zftape).result = .ok (zftape', results)) : zftape'.Placed first last := by
  induction calls generalizing zftape results with
  | nil =>
    cases hrun
    exact h
  | cons call calls ih =>
    obtain ⟨hcall, hharmless, hrest⟩ := hfits
    rw [h.firstSegment] at hharmless
    cases hexec : (call.exec kernel zftape).result with
    | error fault =>
      rw [Writer.run, Recorded.result_bind_error hexec] at hrun
      cases hrun
    | ok done =>
      have hdone := call.keeps_exec hfirst hle kernel h hcall hharmless done hexec
      rw [hexec] at hrest
      rw [Writer.run, Recorded.result_bind hexec] at hrun
      cases hnext : (Writer.run kernel calls done.1).result with
      | error fault =>
        rw [Recorded.result_bind_error hnext] at hrun
        cases hrun
      | ok done' =>
        rw [Recorded.result_bind hnext] at hrun
        cases hrun
        exact ih hdone (hrest done rfl) hnext

/-- `tape_pos` is the sum of the sizes of the segments in front, the bytes in the segment, and the
pending sectors. -/
def Writer.TapePosRight (zftape : Writer α) : Prop :=
  zftape.pos.tapePos = runSum zftape.books.zftGetSegSz zftape.firstDataSegment zftape.pos.segPos +
    zftape.pos.segBytePos + zftape.hardErrorCnt * ftSectorSize

instance (zftape : Writer α) : Decidable zftape.TapePosRight := inferInstanceAs (Decidable (_ = _))

/-- The position record is right exactly if `tape_pos` is, behind the first data segment. -/
theorem Writer.placed_iff (zftape : Writer α) :
    zftape.Placed zftape.firstDataSegment zftape.lastDataSegment ↔
      zftape.firstDataSegment ≤ zftape.pos.segPos ∧ zftape.TapePosRight := by
  have hsizes : zftape.books.zftGetSegSz = zftape.sizes := rfl
  rw [TapePosRight, hsizes]
  constructor
  · intro h
    have hbalanced : zftape.pos.tapePos + -zftape.pos.segBytePos =
      runSum zftape.sizes zftape.firstDataSegment zftape.pos.segPos + zftape.hardErrorCnt * ftSectorSize :=
      h.placed.balanced
    exact ⟨h.placed.behind, by linarith⟩
  · rintro ⟨hbehind, hright⟩
    refine ⟨rfl, rfl, hbehind, ?_⟩
    rw [ZftapeInfo.Balanced]
    linarith

/-- In every run in which each call fits and everything on its way is harmless, `tape_pos` is right after each
call. -/
theorem Writer.run_tapePos (kernel : Kernel α) (calls : List (WriteCall α)) {zftape zftape' : Writer α}
    {results : List (Except Errno Unit)} (hfirst : zftape.firstDataSegment < 0x7fffffff)
    (hle : zftape.firstDataSegment ≤ zftape.lastDataSegment)
    (hbehind : zftape.firstDataSegment ≤ zftape.pos.segPos) (hstart : zftape.TapePosRight)
    (hfits : Writer.FitsAll kernel calls zftape)
    (hrun : (Writer.run kernel calls zftape).result = .ok (zftape', results)) : zftape'.TapePosRight := by
  have hplaced := zftape.placed_iff.mpr ⟨hbehind, hstart⟩
  obtain ⟨hfirst', hlast', hplaced'⟩ := hplaced.run hfirst hle kernel calls hfits hrun
  exact (zftape'.placed_iff.mp ⟨rfl, rfl, hfirst' ▸ hplaced'⟩).2

section Quiet

variable {zftape : Writer α}

/-- No buffer failed, and no sector is pending. -/
abbrev Writer.Quiet (zftape : Writer α) : Prop := zftape.toZftapeInfo.Quiet

/-- The interrupt handler reports no hard error in a call. -/
def WriteCall.Quiet : WriteCall α → Prop
  | write _ rounds => ∀ reports ∈ rounds, ∀ report ∈ reports, report.hardError = none
  | flushBuffers round _ => round.Quiet
  | closeVolume | movePastEof | weof _ => True

/-- Opening a volume does not touch the ring. -/
theorem Writer.Quiet.zftOpenVolume (h : zftape.Quiet) :
    zftape.zftOpenVolume.Silent fun opened => Writer.Quiet opened.1 := by
  have hstart : (if zftape.zftTapeAtLbot then zftape.initVtbl.zftResetPosition else pure zftape).Silent
      Writer.Quiet := by
    split
    · rw [Writer.zftResetPosition]
      split
      · exact .halt _
      · exact .pure ⟨h.drive, rfl⟩
    · exact .pure h
  refine hstart.bind fun started hstarted => ?_
  split
  · exact .pure hstarted
  · exact .pure ⟨hstarted.drive, hstarted.none⟩

/-- Nor does checking for access. -/
theorem Writer.Quiet.checkWriteAccess (h : zftape.Quiet) (reqLen : ℕ) :
    (zftape.checkWriteAccess reqLen).Silent fun checked => Writer.Quiet checked.1 := by
  rw [Writer.checkWriteAccess]
  split
  · exact .pure h
  · split
    · exact .pure h
    · have hidle : Writer.Quiet { zftape with toZftapeInfo := { zftape.toZftapeInfo with ioState := .idle } } :=
        ⟨h.drive, h.none⟩
      dsimp only
      split
      · exact .pure hidle
      · refine hidle.zftOpenVolume.bind ?_
        rintro ⟨opened, result⟩ hopened
        cases result with
        | error errno => exact .pure hopened
        | ok _ =>
          dsimp only
          split
          · exact .halt _
          · exact .pure ⟨hopened.drive, hopened.none⟩

/-- Nor does closing a volume. -/
theorem Writer.Quiet.zftCloseVolume (h : zftape.Quiet) : Writer.Quiet zftape.zftCloseVolume.1 := by
  have hclosed : ∀ (behind start : ℤ) (table : Vtbl) (pos : Position),
      Writer.Quiet { ((zftape.zftCalcTapePos behind).1.zftCalcTapePos start).1 with table := table, pos := pos } :=
    fun _ _ _ _ => ⟨h.drive, h.none⟩
  rw [Writer.zftCloseVolume]
  split
  · exact h
  · split
    · exact h
    · exact hclosed _ _ _ _

/-- Nor does writing file marks. -/
theorem Writer.Quiet.zftWeof (h : zftape.Quiet) (count : ℕ) : Writer.Quiet (zftape.zftWeof count).1 := by
  have hmarks : ∀ {started : Writer α}, started.Quiet → ∀ count, Writer.Quiet (started.weofMarks count).1 := by
    intro started hstarted count
    rw [Writer.weofMarks]
    split
    · exact ⟨hstarted.drive, hstarted.none⟩
    · exact ⟨hstarted.drive, hstarted.none⟩
  rw [Writer.zftWeof]
  split
  · exact h
  · have hstart : Writer.Quiet (if zftape.zftTapeAtLbot then zftape.initVtbl else zftape) := by
      split
      · exact ⟨h.drive, h.none⟩
      · exact h
    dsimp only
    generalize (if zftape.zftTapeAtLbot then zftape.initVtbl else zftape) = started at hstart
    split
    · have hclosed := hstart.zftCloseVolume
      have hpast : Writer.Quiet (Writer.zftMovePastEof started.zftCloseVolume.1) := ⟨hclosed.drive, hclosed.none⟩
      exact hmarks hpast _
    · exact hmarks hstart _

/-- Nothing happens behind the back of the position record in a call without hard errors. -/
theorem WriteCall.silent_exec (kernel : Kernel α) (h : zftape.Quiet) {call : WriteCall α} (hquiet : call.Quiet) :
    (call.exec kernel zftape).Silent fun done => Writer.Quiet done.1 := by
  cases call with
  | write buff rounds =>
    have hwrite : (zftape.zftWrite kernel buff rounds).Silent fun written => Writer.Quiet written.1 := by
      have hstart : Writer.Quiet { zftape with toZftapeInfo := { zftape.toZftapeInfo with
          resid := (buff.length : ℕ), lastWriteFailed := true } } := ⟨h.drive, h.none⟩
      refine (hstart.checkWriteAccess buff.length).bind ?_
      rintro ⟨checked, result⟩ hchecked
      cases result with
      | error errno => exact .pure hchecked
      | ok _ => exact (silent_writeLoop kernel hquiet buff 0 hchecked).bind fun written hwritten => .pure hwritten
    exact hwrite.bind fun written hwritten => .pure hwritten
  | flushBuffers round rounds =>
    exact (silent_zftFlushBuffers kernel hquiet rounds h).bind fun flushed hflushed => .pure hflushed
  | closeVolume => exact .pure h.zftCloseVolume
  | movePastEof => exact .pure ⟨h.drive, h.none⟩
  | weof count => exact .pure (h.zftWeof count)

/-- Every call fits the device as it is then. -/
def Writer.FitsEach (kernel : Kernel α) : List (WriteCall α) → Writer α → Prop
  | [], _ => True
  | call :: calls, zftape => call.Fits zftape ∧
      ∀ done ∈ (call.exec kernel zftape).result.toOption, Writer.FitsEach kernel calls done.1

/-- Without hard errors it is enough that every call fits the device. -/
theorem Writer.Quiet.fitsAll (kernel : Kernel α) {calls : List (WriteCall α)} (h : zftape.Quiet)
    (hquiet : ∀ call ∈ calls, call.Quiet) (hfits : Writer.FitsEach kernel calls zftape) :
    Writer.FitsAll kernel calls zftape := by
  induction calls generalizing zftape with
  | nil => trivial
  | cons call calls ih =>
    obtain ⟨hcall, hrest⟩ := hfits
    obtain ⟨hsilent, hdone⟩ := WriteCall.silent_exec kernel h (hquiet call List.mem_cons_self)
    refine ⟨hcall, ?_, fun done hmem => ?_⟩
    · rw [hsilent]
      exact fun event hevent => absurd hevent List.not_mem_nil
    · have hresult : (call.exec kernel zftape).result = .ok done := by
        cases hexec : (call.exec kernel zftape).result with
        | error fault =>
          rw [hexec] at hmem
          cases hmem
        | ok done' =>
          rw [hexec] at hmem
          cases hmem
          rfl
      exact ih (hdone done hresult) (fun call hcall => hquiet call (List.mem_cons_of_mem _ hcall)) (hrest done hmem)

end Quiet

/-- Whether a position is remembered rightly can be tested. -/
instance (books : Books) : Decidable books.Coherent :=
  decidable_of_iff (books.zftFirstSegment ≤ books.segPos ∧
      books.segPos ≤ max books.zftFirstSegment (books.lastDataSegment + 1) ∧
      books.tapePos = runSum books.zftGetSegSz books.zftFirstSegment books.segPos ∧
      books.capacity = runSum books.zftGetSegSz books.zftFirstSegment (books.lastDataSegment + 1))
    ⟨fun h => ⟨h.1, h.2.1, h.2.2.1, h.2.2.2⟩, fun h => ⟨h.first, h.last, h.tapePos, h.capacity⟩⟩

instance (first : ℕ) (before : ℕ → SectorMap) : DecidablePred (Event.Harmless (α := α) first before)
  | .recovery drive bound =>
    match hring : drive.ring with
    | [] => isTrue (by simp [Event.Harmless, hring])
    | head :: _ => decidable_of_iff (first ≤ head.segmentId ∧ head.segmentId < bound ∧
        drive.badSectorMap head.segmentId &&& head.hardErrorMap = 0) (by simp [Event.Harmless, hring])
  | .givesUp => inferInstanceAs (Decidable False)
  | .absorbed _ => inferInstanceAs (Decidable (_ = _))
  | .again _ _ => inferInstanceAs (Decidable (_ ∨ _))
  | .interrupted => inferInstanceAs (Decidable False)

instance (zftape : Writer α) : Decidable zftape.Opens :=
  inferInstanceAs (Decidable (if zftape.zftTapeAtLbot then zftape.books.Coherent else zftape.pos.segBytePos = 0))

instance (zftape : Writer α) : DecidablePred (WriteCall.Fits zftape)
  | .write _ _ => inferInstanceAs (Decidable (_ ∨ _))
  | .flushBuffers _ _ => inferInstanceAs (Decidable (_ ∧ _))
  | .closeVolume => inferInstanceAs (Decidable (_ ∧ _))
  | .movePastEof => inferInstanceAs (Decidable (_ < _))
  | .weof _ => inferInstanceAs (Decidable (_ ∧ _))

instance decidableFitsAll (kernel : Kernel α) :
    (calls : List (WriteCall α)) → (zftape : Writer α) → Decidable (Writer.FitsAll kernel calls zftape)
  | [], _ => inferInstanceAs (Decidable True)
  | call :: calls, zftape =>
    have := decidableFitsAll kernel calls
    inferInstanceAs (Decidable (call.Fits zftape ∧
      (∀ event ∈ (call.exec kernel zftape).queries,
        event.Harmless zftape.firstDataSegment zftape.drive.badSectorMap) ∧
      ∀ done ∈ (call.exec kernel zftape).result.toOption, Writer.FitsAll kernel calls done.1))

/-- A buffer with nothing to write. -/
def freeBuffer : BufferStruct Byte := ⟨fun _ => 0, 0, 0, .done, 0⟩

/-- A blank cartridge with the data segments 2 to 149, at the beginning of the tape. -/
def blankWriter : Writer Byte where
  drive :=
    { ring := [freeBuffer, freeBuffer, freeBuffer]
      tail := 0
      deblockBuffer := fun _ => 0
      badSectorMap := fun _ => 0
      oldSegmentId := -1
      writing := false
      segments := 150
      tape := [] }
  deblockBuf := false
  hardErrors := []
  capacity := 4395008
  pos := ⟨3, 0, 0, 29696⟩
  blkSz := 1
  volume := ⟨0, 0, 0, 0, 0, false⟩
  ioState := .idle
  lastWriteFailed := false
  needFlush := false
  resid := 0
  table := zftInitVtbl qic80Cartridge
  curVtbl := 0
  bigEndian := false
  formatCode := .fmtNormal
  firstDataSegment := 2
  lastDataSegment := 149
  vtblSz := ftSegmentSize
  bookSegPos := 3
  bookTapePos := 29696
  offline := false
  formatted := true
  writeProtected := false
  cartridgeProtected := false

/-- Three bytes, a hard error in the segment with them, and file marks. -/
def shortFile : List (WriteCall Byte) :=
  [.write [1, 2, 3] [[]], .flushBuffers ⟨[⟨0, none⟩], ⟨0, some 5⟩, [⟨1, none⟩]⟩ [], .closeVolume,
    .movePastEof, .weof 1]

/-- The position behind them is right. -/
theorem Writer.run_tapePos_short_file :
    ∃ zftape' results, (Writer.run sampleKernel shortFile blankWriter).result = .ok (zftape', results) ∧
      zftape'.TapePosRight := by
  have hgoes : (Writer.run sampleKernel shortFile blankWriter).result.isOk = true := by decide +kernel
  cases hrun : (Writer.run sampleKernel shortFile blankWriter).result with
  | error fault =>
    rw [hrun] at hgoes
    cases hgoes
  | ok done =>
    refine ⟨done.1, done.2, rfl, ?_⟩
    exact Writer.run_tapePos sampleKernel shortFile (by decide) (by decide) (by decide) (by decide +kernel)
      (by decide +kernel) hrun

/-- A file mark behind the volume of three bytes, and another volume. -/
def markBehindVolume : List (WriteCall Byte) :=
  [.write [1, 2, 3] [[]], .flushBuffers ⟨[⟨0, none⟩], ⟨1, none⟩, []⟩ [], .closeVolume, .weof 1, .write [] []]

/-- The file mark is written in the segment with the end of the volume, and the position keeps the bytes
in that segment. The volume that begins behind it loses them. -/
theorem Writer.run_tapePos_mark_behind_volume :
    blankWriter.TapePosRight ∧
      ∃ done ∈ (Writer.run sampleKernel markBehindVolume blankWriter).result.toOption,
        (∀ result ∈ done.2, result.isOk = true) ∧ ¬done.1.TapePosRight := by
  decide +kernel

end Ftape.Volume
