import Ftape.Header.Geometry
import Ftape.Isr.Transfer

/-!
# Formatting a track

The user fills a ring of buffers with the ids of the sectors of a track and goes on refilling it
through `ftape_format_status()`. The interrupt handler sets up the controller for the next segment
and switches to the next buffer when one is used up. A call of `ftape_format_status()` is cut where
an interrupt may come in between.
-/

namespace Ftape.Format

open Ftape.Header Ftape.Isr Ftape.Write

/-- The fields of `buffer_struct` that formatting uses, with the ids in its memory, segment by segment.
`ptr` counts from `dma_address` on. -/
structure FormatBuffer where
  virtual : ℕ → List FormatSector
  ptr : ℕ
  bytes : ℕ
  segmentId : ℕ
  status : BufferState
  remaining : ℕ
  nextSegment : ℕ

/-- The modes of `fdc_mode_enum` that occur while a track is formatted. -/
inductive FdcMode where
  | fdcIdle
  | fdcFormatting
deriving DecidableEq

/-- How far a call of `ftape_format_status()` has come. -/
inductive Call where
  | none
  | needBuffers
  | waitSegment
  | setup
  | release
  | switch
  | select
deriving DecidableEq

/-- The fields of `ftape_info_t` and `fdc_info_t` that formatting uses. `formatted` logs the segments
that the controller has formatted, with the ids it put on tape; `answer` is what the last call of
`ftape_format_status()` returned. -/
structure Formatter where
  buffers : ℕ → FormatBuffer
  nrBuffers : ℕ
  head : ℕ
  tail : ℕ
  deblockBuffer : ℕ → List FormatSector
  switchSegment : ℕ
  runnerStatus : RunnerStatus
  track : ℕ
  mode : FdcMode
  call : Call
  answer : Option (Except Errno (ℕ × Bool))
  formatted : List (ℕ × List FormatSector)

variable (ftape : FtapeInfo)

/-- The buffer behind another one. -/
def Formatter.next (s : Formatter) (index : ℕ) : ℕ := (index + 1) % s.nrBuffers

/-- A buffer is changed. -/
def Formatter.setBuffer (s : Formatter) (index : ℕ) (buff : FormatBuffer) : Formatter :=
  { s with buffers := Function.update s.buffers index buff }

/-- A buffer gets a new status. -/
def Formatter.setStatus (s : Formatter) (index : ℕ) (status : BufferState) : Formatter :=
  s.setBuffer index { s.buffers index with status := status }

/-- The ids of one segment are 4 bytes for each sector. -/
def idBytes : ℕ := 4 * ftSectorsPerSegment

/-- `fill_format_buffer()`. The ids go into the deblock buffer, over what it held before, and the
deblock buffer changes places with the memory of the buffer. -/
def Formatter.fillFormatBuffer (s : Formatter) (index start todo : ℕ) : Formatter :=
  let ids := Header.fillFormatBuffer ftape start todo
  { s.setBuffer index { s.buffers index with
      virtual := fun slot => (ids[slot]?).getD (s.deblockBuffer slot) } with
    deblockBuffer := (s.buffers index).virtual }

/-- `setup_format_buffer()` up to where the interrupt handler may use the buffer. -/
def Formatter.prepareFormatBuffer (s : Formatter) (index start track : ℕ) : Formatter :=
  let spt := ftape.segmentsPerTrack
  let toDo := min (spt - start) ftFmtSegsPerBuf
  let s := s.fillFormatBuffer ftape index (track * spt + start) toDo
  s.setBuffer index { s.buffers index with
    ptr := 0
    remaining := toDo * ftSectorsPerSegment
    bytes := toDo * ftSectorsPerSegment * 4
    segmentId := start
    nextSegment := if spt ≤ start + toDo then 0 else start + toDo }

/-- `setup_format_buffer()`. -/
def Formatter.setupFormatBuffer (s : Formatter) (index start track : ℕ) : Formatter :=
  (s.prepareFormatBuffer ftape index start track).setStatus index .waiting

/-- `ftape_abort_operation()`: the buffers are zapped, `HEAD` and `TAIL` are the first one again. -/
def Formatter.ftapeAbortOperation (s : Formatter) : Formatter :=
  { s with
    buffers := fun index => { s.buffers index with status := .waiting, bytes := 0 }
    head := 0
    tail := 0
    runnerStatus := .idle
    mode := .fdcIdle }

/-- The loop of `ftape_format_track()`. `TAIL` comes round to `HEAD` after as many rounds as there are
buffers. -/
def Formatter.fillLoop : ℕ → Formatter → ℕ → Formatter
  | 0, s, _ => s
  | rounds + 1, s, track =>
    let s := s.setupFormatBuffer ftape s.tail s.switchSegment track
    let s := { s with switchSegment := (s.buffers s.tail).nextSegment }
    if s.switchSegment = 0 then s
    else
      let s := { s with tail := s.next s.tail }
      if s.tail = s.head then s else Formatter.fillLoop rounds s track

/-- `ftape_format_track()` with a drive that obeys. The log begins with the track. -/
def Formatter.ftapeFormatTrack (s : Formatter) (track : ℕ) : Formatter :=
  let s := { s.ftapeAbortOperation with switchSegment := 0 }
  let s := s.fillLoop ftape s.nrBuffers track
  let s := s.setStatus s.head .formatting
  { s with track := track, mode := .fdcFormatting, call := .none, formatted := [] }

/-- What an interrupt reports: the cause, the residue that `terminate_dma` finds if the back end can
tell, and whether the controller takes the next command. -/
structure Report where
  cause : ErrorCause
  residue : Option ℕ
  setupOk : Bool

/-- The variables of `HEAD` after the DMA operation for a segment. -/
def FormatBuffer.doneWithSegment (buff : FormatBuffer) : FormatBuffer :=
  { buff with
    ptr := buff.ptr + idBytes
    bytes := toUint (buff.bytes - idBytes)
    remaining := toUint (buff.remaining - ftSectorsPerSegment)
    segmentId := buff.segmentId + 1 }

/-- The controller has formatted the segment that `HEAD` is at. -/
def Formatter.doneWithSegment (s : Formatter) : Formatter :=
  let buff := s.buffers s.head
  { s.setBuffer s.head buff.doneWithSegment with
    formatted := s.formatted ++ [(buff.segmentId, buff.virtual (buff.ptr / idBytes))] }

/-- `determine_fmt_progress()`, with whether formatting goes on. -/
def Formatter.determineFmtProgress (s : Formatter) (report : Report) : Formatter × Bool :=
  if report.residue.any (· ≠ 0) then
    ({ s.setStatus s.head .error with runnerStatus := .doAbort }, false)
  else if report.cause ≠ .noError then
    ({ s.setStatus s.head .error with mode := .fdcIdle, runnerStatus := .doAbort }, false)
  else (s.doneWithSegment, true)

/-- The label `format_setup_error` of `continue_formatting()`. -/
def Formatter.formatSetupError (s : Formatter) : Formatter :=
  { s.setStatus s.head .error with runnerStatus := .doAbort, mode := .fdcIdle }

/-- The end of `continue_formatting()`: the next segment of `HEAD` is formatted. -/
def Formatter.setupFormatting (s : Formatter) (setupOk : Bool) : Formatter :=
  if setupOk then { s.setStatus s.head .formatting with mode := .fdcFormatting }
  else s.formatSetupError

/-- `continue_formatting()`. -/
def Formatter.continueFormatting (s : Formatter) (setupOk : Bool) : Formatter :=
  let buff := s.buffers s.head
  if buff.remaining = 0 then
    let next := buff.nextSegment
    let s := s.setStatus s.head .done
    if next = 0 then { s with runnerStatus := .logicalEot, mode := .fdcIdle }
    else
      let s := { s with head := s.next s.head }
      if (s.buffers s.head).status ≠ .waiting ∨ next ≠ (s.buffers s.head).segmentId then
        s.formatSetupError
      else s.setupFormatting setupOk
  else s.setupFormatting setupOk

/-- `handle_fdc_busy()` while a track is formatted. -/
def Formatter.handleFdcBusy (s : Formatter) (report : Report) : Formatter :=
  match s.mode with
  | .fdcIdle => s
  | .fdcFormatting =>
    let (s, ok) := s.determineFmtProgress report
    let s := if report.cause = .noError ∧ ok then s.continueFormatting report.setupOk else s
    if s.runnerStatus = .doAbort then { s with runnerStatus := .aborting } else s

/-- The segment that `ftape_format_status()` reports, counted from the start of the tape. -/
def Formatter.segmentOnTape (s : Formatter) : ℕ :=
  (s.buffers s.head).segmentId + s.track * ftape.segmentsPerTrack

/-- The next step of `ftape_format_status()`. -/
def Formatter.userStep (s : Formatter) : Formatter :=
  match s.call with
  | .none => { s with call := .needBuffers }
  | .needBuffers =>
    if s.switchSegment ≠ 0 ∧ s.head ≠ s.tail then { s with call := .waitSegment }
    else { s with call := .select }
  | .waitSegment =>
    if (s.buffers s.tail).status = .formatting then s else { s with call := .setup }
  | .setup =>
    { s.prepareFormatBuffer ftape s.tail s.switchSegment s.track with call := .release }
  | .release => { s.setStatus s.tail .waiting with call := .switch }
  | .switch =>
    let next := (s.buffers s.tail).nextSegment
    { s with
      switchSegment := next
      tail := if next ≠ 0 then s.next s.tail else s.tail
      call := .needBuffers }
  | .select =>
    if s.runnerStatus = .aborting ∨ s.runnerStatus = .doAbort then
      let s := s.ftapeAbortOperation
      let code := if (s.buffers s.head).status ≠ .error then Errno.eagain else Errno.eio
      { s with call := .none, answer := some (.error code) }
    else { s with call := .none, answer := some (.ok (s.segmentOnTape ftape, false)) }

/-- A wait of `ftape_format_status()` for an interrupt lasts too long, and the controller is reset. -/
def Formatter.timeout (s : Formatter) : Formatter :=
  match s.call with
  | .waitSegment => { s with mode := .fdcIdle, call := .none, answer := some (.error .etime) }
  | .select =>
    { s with mode := .fdcIdle, call := .none, answer := some (.ok (s.segmentOnTape ftape, true)) }
  | _ => s

/-- What happens while a track is formatted. A call gives up in `ftape_wait_segment()` when a signal
comes or the drive reports an error. -/
inductive Event where
  | user
  | giveUp (code : Errno)
  | timeout
  | interrupt (report : Report)

/-- One event. -/
def Formatter.step (s : Formatter) : Event → Formatter
  | .user => s.userStep ftape
  | .giveUp code =>
    if s.call = .waitSegment then { s with call := .none, answer := some (.error code) } else s
  | .timeout => s.timeout ftape
  | .interrupt report => s.handleFdcBusy report

/-- Events in their order. -/
def Formatter.run (s : Formatter) (events : List Event) : Formatter := events.foldl (·.step ftape) s

/-- An interrupt without errors: the transfer is complete as far as the back end can tell. -/
def Report.Clean (report : Report) : Prop :=
  report.cause = .noError ∧ (∀ residue ∈ report.residue, residue = 0) ∧ report.setupOk

/-- No buffer of the ring waits for the controller. -/
def Formatter.RingEmpty (s : Formatter) : Prop :=
  ∀ index < s.nrBuffers, (s.buffers index).status ≠ .waiting

/-- The next interrupt ends the last segment in `HEAD`, but not the track. -/
def Formatter.NeedsNext (s : Formatter) : Prop :=
  s.mode = .fdcFormatting ∧ (s.buffers s.head).remaining = ftSectorsPerSegment ∧
    (s.buffers s.head).nextSegment ≠ 0

/-- An event of a track that is formatted as planned: interrupts report no error and come before the
ring runs empty, and no wait times out while the controller is at work. -/
def Formatter.Allows (s : Formatter) : Event → Prop
  | .user => True
  | .giveUp _ => True
  | .timeout => s.mode = .fdcIdle
  | .interrupt report => report.Clean ∧ (s.NeedsNext → ¬ s.RingEmpty)

instance (report : Report) : Decidable report.Clean := inferInstanceAs (Decidable (_ ∧ _ ∧ _))

instance (s : Formatter) : Decidable s.RingEmpty := inferInstanceAs (Decidable (∀ index < _, _))

instance (s : Formatter) : Decidable s.NeedsNext := inferInstanceAs (Decidable (_ ∧ _ ∧ _))

instance (s : Formatter) : (event : Event) → Decidable (s.Allows event)
  | .user => inferInstanceAs (Decidable True)
  | .giveUp _ => inferInstanceAs (Decidable True)
  | .timeout => inferInstanceAs (Decidable (_ = _))
  | .interrupt _ => inferInstanceAs (Decidable (_ ∧ _))

/-- Events all of which are as planned when they happen. -/
def Formatter.AllowsAll : Formatter → List Event → Prop
  | _, [] => True
  | s, event :: events => s.Allows event ∧ (s.step ftape event).AllowsAll events

instance Formatter.decidableAllowsAll : (s : Formatter) → (events : List Event) → Decidable (s.AllowsAll ftape events)
  | _, [] => inferInstanceAs (Decidable True)
  | s, event :: events =>
    have := Formatter.decidableAllowsAll (s.step ftape event) events
    inferInstanceAs (Decidable (_ ∧ _))

/-- Whether an event is an interrupt. -/
def Event.isInterrupt : Event → Bool
  | .interrupt _ => true
  | _ => false

/-- The segments of a track in front of another one, with the ids that belong to them. -/
def trackIds (track count : ℕ) : List (ℕ × List FormatSector) :=
  (List.range count).map fun segment =>
    (segment, formatSegment ftape (track * ftape.segmentsPerTrack + segment))

end Ftape.Format
