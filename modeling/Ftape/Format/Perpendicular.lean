import Ftape.Format.Protocol
import Mathlib.Algebra.Group.Even
import Mathlib.Algebra.Ring.Parity

/-!
# Perpendicular mode

QIC-3020 and Ditto Max tapes are written in perpendicular mode on the even tracks. The driver derives
the track from the id of the segment: the ids that are written count from the start of the tape, the
ids in the buffers that are formatted count from the start of the track.
-/

namespace Ftape.Format

open Ftape.Header Ftape.Write

/-- The types of controllers, in the order of the enumeration. -/
inductive FdcType where
  | noFdc
  | i8272
  | i82077
  | i82077AA
  | fc10
  | i82078
  | i82078_1
  | dittoEz
deriving DecidableEq

/-- The commands that move data, and `FDC_FORMAT`. -/
inductive FdcCommand where
  | read
  | readDeleted
  | verify
  | write
  | writeDeleted
  | format
deriving DecidableEq

/-- The fields of `fdc_info_t` that the mode depends on. `configuration` is what the controller itself
keeps, the argument of the last `FDC_PERPEND`. -/
structure FdcInfo where
  type : FdcType
  dataRate : ℕ
  perpendMode : Bool
  configuration : Byte

/-- The controller writes perpendicularly, bit `WGATE` of its configuration. -/
def FdcInfo.perpendicular (fdc : FdcInfo) : Bool := fdc.configuration.getLsbD 0

/-- `fdc_command()` with `FDC_PERPEND`. A command that fails has not been sent to its end and has no
effect. -/
def FdcInfo.sendPerpend (fdc : FdcInfo) (argument : Byte) (sent : Except Errno Unit) :
    Except Errno Unit × FdcInfo :=
  match sent with
  | .error code => (.error code, fdc)
  | .ok () => (.ok (), { fdc with configuration := argument })

/-- `perpend_off()`. -/
def FdcInfo.perpendOff (fdc : FdcInfo) (sent : Except Errno Unit) : Except Errno Unit × FdcInfo :=
  if fdc.perpendMode then
    match fdc.sendPerpend 0x80 sent with
    | (.error code, fdc) => (.error code, fdc)
    | (.ok (), fdc) => (.ok (), { fdc with perpendMode := false })
  else (.ok (), fdc)

/-- `handle_perpend()`. -/
def FdcInfo.handlePerpend (ftape : FtapeInfo) (fdc : FdcInfo) (segmentId : ℕ)
    (sent : Except Errno Unit) : Except Errno Unit × FdcInfo :=
  if (ftape.qicStd = .qic3020 ∨ ftape.qicStd = .dittoMax) ∧
      segmentId / ftape.segmentsPerTrack % 2 = 0 then
    if fdc.type.ctorIdx < FdcType.i82077.ctorIdx then (.error .eio, fdc)
    else if fdc.dataRate < 1000 then (.error .eio, fdc)
    else
      match fdc.sendPerpend 0x03 sent with
      | (.error code, fdc) => (.error code, fdc)
      | (.ok (), fdc) => (.ok (), { fdc with perpendMode := true })
  else fdc.perpendOff sent

/-- What the back end answers to the commands of one setup: to `FDC_PERPEND` and to the command itself. -/
structure Answers where
  perpend : Except Errno Unit
  command : Except Errno Unit

/-- The end of `fdc_setup_formatting()` and `fdc_setup_read_write()`: the command goes out if the mode is
set up. The value is the command with the mode the controller is in. -/
def FdcInfo.issue (command : FdcCommand) (setup : Except Errno Unit × FdcInfo)
    (sent : Except Errno Unit) : Except Errno (FdcCommand × Bool) × FdcInfo :=
  match setup.1 with
  | .error code => (.error code, setup.2)
  | .ok () => (sent.map fun _ => (command, setup.2.perpendicular), setup.2)

/-- `fdc_setup_formatting()`. -/
def FdcInfo.fdcSetupFormatting (ftape : FtapeInfo) (fdc : FdcInfo) (buff : FormatBuffer)
    (answers : Answers) : Except Errno (FdcCommand × Bool) × FdcInfo :=
  issue .format (fdc.handlePerpend ftape buff.segmentId answers.perpend) answers.command

/-- `fdc_setup_read_write()` for a buffer with the id of a segment. -/
def FdcInfo.fdcSetupReadWrite (ftape : FtapeInfo) (fdc : FdcInfo) (segmentId : ℕ)
    (operation : FdcCommand) (answers : Answers) : Except Errno (FdcCommand × Bool) × FdcInfo :=
  match operation with
  | .verify =>
    let operation :=
      if fdc.type.ctorIdx < FdcType.i82077.ctorIdx ∨ fdc.type = .dittoEz then .read else .verify
    issue operation (fdc.perpendOff answers.perpend) answers.command
  | .read => issue .read (fdc.perpendOff answers.perpend) answers.command
  | .readDeleted => issue .readDeleted (fdc.perpendOff answers.perpend) answers.command
  | .writeDeleted => issue .writeDeleted (fdc.handlePerpend ftape segmentId answers.perpend) answers.command
  | .write => issue .write (fdc.handlePerpend ftape segmentId answers.perpend) answers.command
  | .format => (.error .eio, fdc)

/-- A segment that is due while a track is formatted: the buffer was set up at `start`, and `done` of its
segments are formatted. -/
structure FormatPlace (ftape : FtapeInfo) where
  track : ℕ
  start : ℕ
  done : ℕ
  start_lt : start < ftape.segmentsPerTrack
  done_lt : done < min (ftape.segmentsPerTrack - start) ftFmtSegsPerBuf

section Runs

variable (ftape : FtapeInfo)

/-- The buffer of a place, as `setup_format_buffer()` and `determine_fmt_progress()` leave it. -/
def FormatPlace.buffer {ftape : FtapeInfo} (place : FormatPlace ftape) (s : Formatter) (index : ℕ) :
    FormatBuffer :=
  FormatBuffer.doneWithSegment^[place.done]
    ((s.setupFormatBuffer ftape index place.start place.track).buffers index)

/-- The segment of a place, counted from the start of the tape. -/
def FormatPlace.segmentOnTape {ftape : FtapeInfo} (place : FormatPlace ftape) : ℕ :=
  place.track * ftape.segmentsPerTrack + (place.start + place.done)

/-- What the driver does to the controller. A reset leaves the controller in its default mode and the
flag of the driver as it is. -/
inductive Request (ftape : FtapeInfo) where
  | readWrite (segmentId : ℕ) (operation : FdcCommand) (answers : Answers)
  | format (place : FormatPlace ftape) (s : Formatter) (index : ℕ) (answers : Answers)
  | reset
  | dataRate (rate : ℕ)

/-- A command that the controller has taken, with the segment it is for and the mode. -/
structure Issued where
  command : FdcCommand
  segment : ℕ
  perpendicular : Bool
deriving DecidableEq

/-- What a setup adds to the log. -/
def logged (segment : ℕ) (setup : Except Errno (FdcCommand × Bool) × FdcInfo) :
    FdcInfo × List Issued :=
  match setup.1 with
  | .error _ => (setup.2, [])
  | .ok (command, perpendicular) => (setup.2, [⟨command, segment, perpendicular⟩])

/-- One request. -/
def FdcInfo.handle (fdc : FdcInfo) : Request ftape → FdcInfo × List Issued
  | .readWrite segmentId operation answers =>
    logged segmentId (fdc.fdcSetupReadWrite ftape segmentId operation answers)
  | .format place s index answers =>
    logged place.segmentOnTape (fdc.fdcSetupFormatting ftape (place.buffer s index) answers)
  | .reset => ({ fdc with configuration := 0 }, [])
  | .dataRate rate => ({ fdc with dataRate := rate }, [])

/-- Requests in their order, with the commands that were issued. -/
def FdcInfo.run (fdc : FdcInfo) : List (Request ftape) → FdcInfo × List Issued
  | [] => (fdc, [])
  | request :: requests =>
    let (fdc, issued) := fdc.handle ftape request
    let (fdc, later) := fdc.run requests
    (fdc, issued ++ later)

/-- The physical track of a segment, where `ftape_start_tape()` moves the head to. -/
def physicalTrack (segment : ℕ) : ℕ := segment / ftape.segmentsPerTrack

/-- The mode follows the physical track. -/
def Issued.FollowsTrack (issued : Issued) : Prop :=
  issued.perpendicular = true ↔ Even (physicalTrack ftape issued.segment)

/-- Perpendicular tapes. -/
def PerpendicularTape : Prop := ftape.qicStd = .qic3020 ∨ ftape.qicStd = .dittoMax

/-- The commands that write. -/
def FdcCommand.Writes (command : FdcCommand) : Prop :=
  command = .write ∨ command = .writeDeleted ∨ command = .format

end Runs

section Mode

variable {ftape : FtapeInfo} {fdc : FdcInfo}

/-- The driver knows when the controller writes perpendicularly. It may take a controller that was reset
for one that still does. -/
def FdcInfo.Synced (fdc : FdcInfo) : Prop := fdc.perpendicular = true → fdc.perpendMode = true

/-- The mode is a bit of the configuration. -/
@[simp] theorem FdcInfo.perpendicular_mk (type : FdcType) (rate : ℕ) (mode : Bool)
    (configuration : Byte) :
    (FdcInfo.mk type rate mode configuration).perpendicular = configuration.getLsbD 0 := rfl

/-- Without the flag the controller is in its default mode. -/
theorem FdcInfo.Synced.not_perpendicular (h : fdc.Synced) (hmode : fdc.perpendMode = false) :
    fdc.perpendicular = false := by
  cases hperpendicular : fdc.perpendicular with
  | false => rfl
  | true => exact absurd (h hperpendicular) (by simp [hmode])

/-- `perpend_off()` leaves the mode, or fails and changes nothing. -/
theorem FdcInfo.Synced.perpendOff (h : fdc.Synced) (sent : Except Errno Unit) :
    (fdc.perpendOff sent).2.Synced ∧
      ((fdc.perpendOff sent).1 = .ok () → (fdc.perpendOff sent).2.perpendicular = false) := by
  rw [FdcInfo.perpendOff]
  cases hmode : fdc.perpendMode with
  | false => exact ⟨h, fun _ => h.not_perpendicular hmode⟩
  | true =>
    cases sent with
    | error code => exact ⟨h, fun hok => by simp [FdcInfo.sendPerpend] at hok⟩
    | ok => simp [FdcInfo.sendPerpend, FdcInfo.Synced]

/-- `handle_perpend()` sets the mode by the parity of what it takes for the track, or fails. -/
theorem FdcInfo.Synced.handlePerpend (h : fdc.Synced) (hstd : PerpendicularTape ftape) (segmentId : ℕ)
    (sent : Except Errno Unit) :
    (fdc.handlePerpend ftape segmentId sent).2.Synced ∧
      ((fdc.handlePerpend ftape segmentId sent).1 = .ok () →
        ((fdc.handlePerpend ftape segmentId sent).2.perpendicular = true ↔
          Even (physicalTrack ftape segmentId))) := by
  rw [FdcInfo.handlePerpend, physicalTrack, Nat.even_iff]
  by_cases heven : segmentId / ftape.segmentsPerTrack % 2 = 0
  · rw [if_pos ⟨hstd, heven⟩]
    by_cases htype : fdc.type.ctorIdx < FdcType.i82077.ctorIdx
    · rw [if_pos htype]
      exact ⟨h, fun hok => by cases hok⟩
    · rw [if_neg htype]
      by_cases hrate : fdc.dataRate < 1000
      · rw [if_pos hrate]
        exact ⟨h, fun hok => by cases hok⟩
      · rw [if_neg hrate]
        cases sent with
        | error code => exact ⟨h, fun hok => by simp [FdcInfo.sendPerpend] at hok⟩
        | ok => exact ⟨fun _ => rfl, fun _ => iff_of_true (by simp [FdcInfo.sendPerpend]) heven⟩
  · rw [if_neg fun hboth => heven hboth.2]
    obtain ⟨hsynced, hoff⟩ := h.perpendOff sent
    exact ⟨hsynced, fun hok => iff_of_false (by simp [hoff hok]) heven⟩

/-- A command that is issued goes out in the mode that was set up. -/
theorem FdcInfo.mem_logged_issue {segment : ℕ} {command : FdcCommand}
    {setup : Except Errno Unit × FdcInfo} {sent : Except Errno Unit} {issued : Issued}
    (hissued : issued ∈ (logged segment (issue command setup sent)).2) :
    setup.1 = .ok () ∧ issued = ⟨command, segment, setup.2.perpendicular⟩ := by
  obtain ⟨result, fdc⟩ := setup
  cases result with
  | error code => simp [logged, issue] at hissued
  | ok =>
    cases sent with
    | error code => simp [logged, issue, Except.map] at hissued
    | ok => exact ⟨rfl, List.mem_singleton.mp hissued⟩

/-- The log does not change the state. -/
@[simp] theorem logged_fst (segment : ℕ) (setup : Except Errno (FdcCommand × Bool) × FdcInfo) :
    (logged segment setup).1 = setup.2 := by
  obtain ⟨result, fdc⟩ := setup
  cases result <;> rfl

/-- Neither does the command. -/
@[simp] theorem FdcInfo.issue_snd (command : FdcCommand) (setup : Except Errno Unit × FdcInfo)
    (sent : Except Errno Unit) : (issue command setup sent).2 = setup.2 := by
  obtain ⟨result, fdc⟩ := setup
  cases result <;> rfl

end Mode

section Places

variable {ftape : FtapeInfo} (place : FormatPlace ftape) (s : Formatter) (index : ℕ)

/-- Segments that are done are counted by the id, and leave the memory alone. -/
theorem FormatBuffer.iterate_doneWithSegment (buff : FormatBuffer) (done : ℕ) :
    (doneWithSegment^[done] buff).segmentId = buff.segmentId + done ∧
      (doneWithSegment^[done] buff).ptr = buff.ptr + done * idBytes ∧
      (doneWithSegment^[done] buff).virtual = buff.virtual := by
  induction done with
  | zero => simp
  | succ done ih =>
    obtain ⟨hid, hptr, hvirtual⟩ := ih
    rw [Function.iterate_succ_apply', doneWithSegment]
    exact ⟨by rw [hid, Nat.add_assoc], by rw [hptr]; ring, hvirtual⟩

/-- The id in the buffer counts from the start of the track. -/
theorem FormatPlace.segmentId_buffer : (place.buffer s index).segmentId = place.start + place.done := by
  rw [buffer, (FormatBuffer.iterate_doneWithSegment _ _).1]
  simp [Formatter.setupFormatBuffer, Formatter.prepareFormatBuffer, Formatter.setStatus,
    Formatter.setBuffer]

/-- The sectors on the tape get the addresses of the segment, counted from the start of the tape. -/
theorem FormatPlace.virtual_buffer :
    (place.buffer s index).virtual ((place.buffer s index).ptr / idBytes) =
      formatSegment ftape place.segmentOnTape := by
  obtain ⟨-, hptr, hvirtual⟩ := FormatBuffer.iterate_doneWithSegment
    ((s.setupFormatBuffer ftape index place.start place.track).buffers index) place.done
  have hids : (Header.fillFormatBuffer ftape (place.track * ftape.segmentsPerTrack + place.start)
      (min (ftape.segmentsPerTrack - place.start) ftFmtSegsPerBuf))[place.done]? =
        some (formatSegment ftape place.segmentOnTape) := by
    rw [Header.fillFormatBuffer, List.getElem?_map, List.getElem?_range' place.done_lt, one_mul,
      Option.map_some, segmentOnTape, Nat.add_assoc]
  rw [buffer, hptr, hvirtual]
  simp [Formatter.setupFormatBuffer, Formatter.prepareFormatBuffer, Formatter.setStatus,
    Formatter.setBuffer, Formatter.fillFormatBuffer, hids, idBytes, ftSectorsPerSegment]

/-- The segment is on the track. -/
theorem FormatPlace.lt_segmentsPerTrack : place.start + place.done < ftape.segmentsPerTrack := by
  have := place.done_lt
  omega

/-- The id in the buffer is taken for one of track 0. -/
theorem FormatPlace.physicalTrack_segmentId :
    physicalTrack ftape (place.buffer s index).segmentId = 0 := by
  rw [physicalTrack, place.segmentId_buffer, Nat.div_eq_of_lt place.lt_segmentsPerTrack]

/-- The segment on the tape is on the track that is formatted. -/
theorem FormatPlace.physicalTrack_segmentOnTape :
    physicalTrack ftape place.segmentOnTape = place.track := by
  have hpos : 0 < ftape.segmentsPerTrack := Nat.zero_lt_of_lt place.start_lt
  rw [physicalTrack, segmentOnTape, Nat.mul_comm, Nat.mul_add_div hpos,
    Nat.div_eq_of_lt place.lt_segmentsPerTrack, Nat.add_zero]

/-- The buffer that the interrupt handler formats from is at a place of its track. -/
theorem Formatter.Running.exists_place {track current formatted released : ℕ}
    (h : s.Running ftape track current formatted released) :
    ∃ place : FormatPlace ftape, place.track = track ∧
      (s.buffers s.head).segmentId = (place.buffer s index).segmentId := by
  have hwork := h.work
  rw [chunkSize] at hwork
  exact ⟨⟨track, ftFmtSegsPerBuf * current, formatted, by omega, hwork⟩, rfl, by
    rw [h.holds.segmentId, FormatPlace.segmentId_buffer]⟩

end Places

section Run

variable {ftape : FtapeInfo} {fdc : FdcInfo}

/-- What a command must have been sent with. -/
def Issued.Expected (ftape : FtapeInfo) (issued : Issued) : Prop :=
  (issued.command = .format → issued.perpendicular = true) ∧
    (issued.command = .write ∨ issued.command = .writeDeleted → issued.FollowsTrack ftape)

/-- One request keeps the driver in step with the controller, and every command goes out as expected. -/
theorem FdcInfo.Synced.handle (h : fdc.Synced) (hstd : PerpendicularTape ftape)
    (request : Request ftape) :
    (fdc.handle ftape request).1.Synced ∧
      ∀ issued ∈ (fdc.handle ftape request).2, issued.Expected ftape := by
  cases request with
  | readWrite segmentId operation answers =>
    have hread (command : FdcCommand) (hcommand : ¬ command.Writes) (issued : Issued)
        (hissued : issued ∈ (logged segmentId
          (issue command (fdc.perpendOff answers.perpend) answers.command)).2) :
        issued.Expected ftape := by
      obtain ⟨-, rfl⟩ := mem_logged_issue hissued
      exact ⟨fun hformat => absurd (.inr (.inr hformat)) hcommand,
        fun hwrite => absurd (hwrite.imp_right .inl) hcommand⟩
    have hwrite (command : FdcCommand) (hcommand : command ≠ .format) (issued : Issued)
        (hissued : issued ∈ (logged segmentId
          (issue command (fdc.handlePerpend ftape segmentId answers.perpend) answers.command)).2) :
        issued.Expected ftape := by
      obtain ⟨hok, rfl⟩ := mem_logged_issue hissued
      exact ⟨fun hformat => absurd hformat hcommand,
        fun _ => (h.handlePerpend hstd segmentId answers.perpend).2 hok⟩
    cases operation with
    | read => exact ⟨by simpa [FdcInfo.handle, fdcSetupReadWrite] using (h.perpendOff _).1,
        hread .read (by simp [FdcCommand.Writes])⟩
    | readDeleted => exact ⟨by simpa [FdcInfo.handle, fdcSetupReadWrite] using (h.perpendOff _).1,
        hread .readDeleted (by simp [FdcCommand.Writes])⟩
    | verify =>
      refine ⟨by simpa [FdcInfo.handle, fdcSetupReadWrite] using (h.perpendOff _).1, hread _ ?_⟩
      split <;> simp [FdcCommand.Writes]
    | write => exact ⟨by
        simpa [FdcInfo.handle, fdcSetupReadWrite] using (h.handlePerpend hstd _ _).1,
        hwrite .write (by decide)⟩
    | writeDeleted => exact ⟨by
        simpa [FdcInfo.handle, fdcSetupReadWrite] using (h.handlePerpend hstd _ _).1,
        hwrite .writeDeleted (by decide)⟩
    | format => exact ⟨h, fun issued hissued => by
        simp [FdcInfo.handle, fdcSetupReadWrite, logged] at hissued⟩
  | format place s index answers =>
    obtain ⟨hsynced, hmode⟩ := h.handlePerpend hstd (place.buffer s index).segmentId answers.perpend
    refine ⟨by simpa [FdcInfo.handle, fdcSetupFormatting] using hsynced, fun issued hissued => ?_⟩
    obtain ⟨hok, rfl⟩ := mem_logged_issue hissued
    rw [place.physicalTrack_segmentId] at hmode
    exact ⟨fun _ => (hmode hok).mpr Even.zero, by rintro (hwrite | hwrite) <;> cases hwrite⟩
  | reset => simp [FdcInfo.handle, FdcInfo.Synced]
  | dataRate rate => exact ⟨h, by simp [FdcInfo.handle]⟩

/-- Every command of a run goes out as expected. -/
theorem FdcInfo.Synced.run (h : fdc.Synced) (hstd : PerpendicularTape ftape)
    (requests : List (Request ftape)) :
    ∀ issued ∈ (fdc.run ftape requests).2, issued.Expected ftape := by
  induction requests generalizing fdc with
  | nil => simp [FdcInfo.run]
  | cons request requests ih =>
    obtain ⟨hsynced, hissued⟩ := h.handle hstd request
    intro issued hmem
    rw [FdcInfo.run] at hmem
    rcases List.mem_append.mp hmem with hfirst | hlater
    · exact hissued issued hfirst
    · exact ih hsynced issued hlater

/-- A controller of some type before the driver has changed its mode. -/
def fdcInit (type : FdcType) (dataRate : ℕ) : FdcInfo := ⟨type, dataRate, false, 0⟩

/-- The mode follows the physical track for every command that writes, except when a segment of an odd
track is formatted. A segment is formatted and written in the same mode just on the even tracks. -/
theorem perpendicular_followsTrack_iff (hstd : PerpendicularTape ftape) (type : FdcType) (dataRate : ℕ)
    (requests : List (Request ftape)) :
    (∀ issued ∈ ((fdcInit type dataRate).run ftape requests).2, issued.command.Writes →
      (issued.FollowsTrack ftape ↔
        (issued.command = .format → Even (physicalTrack ftape issued.segment)))) ∧
    ∀ formatted ∈ ((fdcInit type dataRate).run ftape requests).2,
      ∀ written ∈ ((fdcInit type dataRate).run ftape requests).2, formatted.command = .format →
        written.command = .write → written.segment = formatted.segment →
          (written.perpendicular = formatted.perpendicular ↔
            Even (physicalTrack ftape formatted.segment)) := by
  have hsynced : (fdcInit type dataRate).Synced := by simp [FdcInfo.Synced, fdcInit]
  have hexpected := hsynced.run hstd requests
  constructor
  · intro issued hissued hwrites
    obtain ⟨hformat, hwrite⟩ := hexpected issued hissued
    by_cases hcommand : issued.command = .format
    · rw [Issued.FollowsTrack, hformat hcommand]
      simp [hcommand]
    · refine iff_of_true (hwrite ?_) fun h => absurd h hcommand
      rcases hwrites with hwrites | hwrites | hwrites
      · exact .inl hwrites
      · exact .inr hwrites
      · exact absurd hwrites hcommand
  · intro formatted hformatted written hwritten hformat hwrite hsegment
    have hmode := (hexpected written hwritten).2 (.inl hwrite)
    rw [Issued.FollowsTrack, hsegment] at hmode
    rw [(hexpected formatted hformatted).1 hformat, hmode]

/-- A QIC-3020 cartridge. -/
def qic3020Cartridge : FtapeInfo := { ftapeInitDriver with qicStd := .qic3020, dataRate := 1000 }

/-- The second segment of a track. -/
def secondSegment (track : ℕ) : FormatPlace qic3020Cartridge := ⟨track, 0, 1, by decide, by decide⟩

/-- Every command is taken. -/
def allTaken : Answers := ⟨.ok (), .ok ()⟩

/-- The second segment of track 1 is formatted and written. -/
def formatAndWrite : List (Request qic3020Cartridge) :=
  [.format (secondSegment 1) twoBuffers 0 allTaken, .readWrite 103 .write allTaken]

/-- The segment is formatted in the mode of track 0, and written in the mode of track 1. -/
theorem run_formatAndWrite : ((fdcInit .i82078 1000).run qic3020Cartridge formatAndWrite).2 =
    [⟨.format, 103, true⟩, ⟨.write, 103, false⟩] := by
  decide

/-- On both tracks the segments are written as they should be. -/
theorem perpendicular_followsTrack_iff_sample : PerpendicularTape qic3020Cartridge ∧
    ∀ issued ∈ ((fdcInit .i82078 1000).run qic3020Cartridge formatAndWrite).2,
      issued.command = .write → issued.FollowsTrack qic3020Cartridge := by
  have hstd : PerpendicularTape qic3020Cartridge := .inl rfl
  refine ⟨hstd, fun issued hissued hwrite => ?_⟩
  have hiff := (perpendicular_followsTrack_iff hstd .i82078 1000 formatAndWrite).1 issued hissued (.inl hwrite)
  exact hiff.mpr fun hformat => by simp [hwrite] at hformat

/-- A segment of track 1 is formatted in perpendicular mode, and written in the other one. -/
theorem perpendicular_odd_track : PerpendicularTape qic3020Cartridge ∧
    ∃ formatted ∈ ((fdcInit .i82078 1000).run qic3020Cartridge formatAndWrite).2,
      ∃ written ∈ ((fdcInit .i82078 1000).run qic3020Cartridge formatAndWrite).2,
        formatted.command = .format ∧ written.command = .write ∧
          written.segment = formatted.segment ∧ ¬ formatted.FollowsTrack qic3020Cartridge ∧
            written.perpendicular ≠ formatted.perpendicular := by
  rw [run_formatAndWrite]
  refine ⟨.inl rfl, ⟨.format, 103, true⟩, by simp, ⟨.write, 103, false⟩, by simp, rfl, rfl, rfl, ?_, by decide⟩
  rw [Issued.FollowsTrack, Nat.even_iff]
  decide

end Run

end Ftape.Format
