import Ftape.Algebra.Routine
import Ftape.Write.Ring

/-!
# Commands to the drive

A command is a number of step pulses. Before it is sent, the drive has to be in the state the command
table asks for, which takes commands of its own: those that report the status, or an error that keeps
the command from being sent. The level of the commands counts how far they are nested.
-/

namespace Ftape.Qic117

open Ftape.Algebra Ftape.Write

/-- `command_types`. -/
inductive CommandTypes where
  | unused
  | mode
  | motion
  | report
deriving DecidableEq

/-- An entry of `struct qic117_command_table`: the bits of the status that matter to the command and
the values they need to have, its kind, and whether it can be interrupted. -/
structure Qic117CommandTable where
  mask : Byte
  state : Byte
  cmdType : CommandTypes
  nonIntr : Bool

/-- `QIC117_COMMANDS`. -/
def qic117Cmds : List Qic117CommandTable :=
  [⟨0x00, 0x00, .mode, false⟩, ⟨0x00, 0x00, .motion, true⟩, ⟨0x00, 0x00, .report, false⟩,
    ⟨0x36, 0x24, .motion, true⟩, ⟨0x36, 0x24, .motion, true⟩, ⟨0x00, 0x00, .mode, false⟩,
    ⟨0x00, 0x00, .report, false⟩, ⟨0x01, 0x01, .report, false⟩, ⟨0x00, 0x00, .report, false⟩,
    ⟨0x00, 0x00, .report, false⟩, ⟨0x37, 0x25, .motion, false⟩, ⟨0x17, 0x05, .motion, false⟩,
    ⟨0x17, 0x05, .motion, false⟩, ⟨0x37, 0x25, .motion, false⟩, ⟨0x17, 0x05, .motion, true⟩,
    ⟨0x1f, 0x05, .mode, false⟩, ⟨0x1f, 0x05, .motion, true⟩, ⟨0x37, 0x25, .mode, false⟩,
    ⟨0x00, 0x00, .motion, true⟩, ⟨0x00, 0x00, .unused, false⟩, ⟨0x00, 0x00, .unused, false⟩,
    ⟨0x02, 0x00, .motion, false⟩, ⟨0x02, 0x00, .motion, false⟩, ⟨0x00, 0x00, .mode, false⟩,
    ⟨0x00, 0x00, .mode, false⟩, ⟨0x36, 0x24, .motion, true⟩, ⟨0x36, 0x24, .motion, true⟩,
    ⟨0x03, 0x01, .mode, false⟩, ⟨0x00, 0x00, .mode, false⟩, ⟨0x00, 0x00, .mode, false⟩,
    ⟨0x00, 0x00, .mode, false⟩, ⟨0x00, 0x00, .unused, false⟩, ⟨0x00, 0x00, .report, false⟩,
    ⟨0x04, 0x04, .report, false⟩, ⟨0x36, 0x24, .motion, true⟩, ⟨0x36, 0x24, .motion, true⟩,
    ⟨0x17, 0x05, .motion, true⟩, ⟨0x17, 0x05, .report, false⟩, ⟨0x17, 0x05, .mode, false⟩,
    ⟨0x00, 0x00, .unused, false⟩, ⟨0x00, 0x00, .unused, false⟩, ⟨0x00, 0x00, .unused, false⟩,
    ⟨0x00, 0x00, .unused, false⟩, ⟨0x00, 0x00, .unused, false⟩, ⟨0x00, 0x00, .unused, false⟩,
    ⟨0x00, 0x00, .unused, false⟩, ⟨0x00, 0x00, .mode, false⟩, ⟨0x00, 0x00, .mode, false⟩,
    ⟨0x00, 0x00, .unused, false⟩, ⟨0x00, 0x00, .unused, false⟩, ⟨0x03, 0x01, .mode, false⟩,
    ⟨0x00, 0x00, .report, false⟩, ⟨0x03, 0x01, .unused, false⟩, ⟨0x07, 0x05, .unused, false⟩,
    ⟨0x02, 0x00, .unused, false⟩, ⟨0x07, 0x05, .unused, false⟩]

/-- `QIC_NO_COMMAND`. -/
def qicNoCommand : ℕ := 0

/-- `QIC_REPORT_NEXT_BIT`. -/
def qicReportNextBit : ℕ := 2

/-- `QIC_REPORT_DRIVE_STATUS`. -/
def qicReportDriveStatus : ℕ := 6

/-- `QIC_REPORT_ERROR_CODE`. -/
def qicReportErrorCode : ℕ := 7

/-- `QIC_LOGICAL_FORWARD`. -/
def qicLogicalForward : ℕ := 10

/-- `QIC_ENTER_FORMAT_MODE`. -/
def qicEnterFormatMode : ℕ := 15

/-- `QIC_STOP_TAPE`. -/
def qicStopTape : ℕ := 18

/-- `QIC_STATUS_READY`. -/
def qicStatusReady : Byte := 0x01

/-- `QIC_STATUS_ERROR`. -/
def qicStatusError : Byte := 0x02

/-- `QIC_STATUS_CARTRIDGE_PRESENT | QIC_STATUS_NEW_CARTRIDGE | QIC_STATUS_REFERENCED`. -/
def qicStatusTape : Byte := 0x04 ||| 0x10 ||| 0x20

/-- `FT_CANT_FORMAT`, a flag of a drive type. -/
def ftCantFormat : BitVec 32 := 2

/-- `FT_SECOND`, in milliseconds. -/
def ftSecond : ℕ := 1000

/-- What `ftape_command()` reports to the kernel log as a bug. -/
inductive Bug where
  | badCommand (command : ℕ)
  | recursion (command : ℕ)
deriving DecidableEq

/-- The fields of `ftape_info_t` that commands use, with the bugs in the kernel log. -/
structure FtapeInfo where
  qicCmdLevel : ℤ
  currentCommand : ℕ
  diagnosticMode : Bool
  driveFlags : BitVec 32
  seekTimeout : ℕ
  locationKnown : Bool
  failure : Bool
  lastDriveStatus : Byte
  lastError : Byte × Byte
  bugs : List Bug

/-- The floppy disk controller and the drive behind it: the cylinder, the outcome of a seek with its
interrupt, the track 0 line that `fdc_sense_drive_status()` reads, the milliseconds that have passed,
and whether the process was killed. -/
structure DriveIo (δ : Type) where
  currentCylinder : δ → ℤ
  fdcSeek : ℤ → δ → Except Errno Unit × δ
  fdcSenseDriveStatus : δ → Except Errno Bool × δ
  elapsed : δ → ℕ × δ
  ftSigtest : δ → Bool × δ

/-- The driver with its drive. -/
structure Session (δ : Type) where
  ftape : FtapeInfo
  drive : δ

/-- The result of a function that returns 0 or a negative error code. -/
abbrev Result : Type := Except Errno Unit

section

variable {δ : Type} (io : DriveIo δ)

/-- Change a field of the driver. -/
def setFtape (change : FtapeInfo → FtapeInfo) : Routine (Session δ) Unit :=
  .update fun s => { s with ftape := change s.ftape }

/-- Ask the drive. -/
def askDrive {β : Type} (answer : δ → β × δ) : Routine (Session δ) β :=
  .ask fun s => ((answer s.drive).1, { s with drive := (answer s.drive).2 })

/-- `ft_send_to_drive()`. -/
def ftSendToDrive (arg : ℕ) : Routine (Session δ) Result :=
  askDrive fun drive =>
    let cylinder := io.currentCylinder drive
    if arg ≤ cylinder then io.fdcSeek (cylinder - arg) drive else io.fdcSeek (cylinder + arg) drive

section Reports

variable (ftapeCommand : ℕ → Routine (Session δ) Result)

/-- The loop of `ftape_report_operation()` that waits for the acknowledge. -/
def acknowledgeLoop : ℕ → Routine (Session δ) (Except Errno Bool)
  | 0 => .unfinished
  | rounds + 1 => do
    match ← askDrive io.fdcSenseDriveStatus with
    | .error errno => pure (.error errno)
    | .ok trackZero =>
      let elapsed ← askDrive io.elapsed
      if !trackZero && elapsed < 300 then acknowledgeLoop rounds else pure (.ok trackZero)

/-- The loop of `ftape_report_operation()` that reads the status bits and the stop bit. -/
def bitsLoop (resultLength : ℤ) : ℕ → ℕ → BitVec 32 → Routine (Session δ) (Result × BitVec 32)
  | 0, _, status => pure (.ok (), status)
  | rounds + 1, i, status => do
    match ← ftapeCommand qicReportNextBit with
    | .error errno => pure (.error errno, status)
    | .ok () =>
      match ← askDrive io.fdcSenseDriveStatus with
      | .error errno => pure (.error errno, status)
      | .ok trackZero =>
        if i < resultLength then
          bitsLoop resultLength rounds (i + 1) (status ||| (if trackZero then 1 else 0) <<< i)
        else if trackZero then bitsLoop resultLength rounds (i + 1) status
        else pure (.error .eio, status)

/-- `ftape_report_operation()`. -/
def ftapeReportOperation (rounds : ℕ) (status : BitVec 32) (command : ℕ) (resultLength : ℤ) :
    Routine (Session δ) (Result × BitVec 32) := do
  match ← ftapeCommand command with
  | .error errno => pure (.error errno, status)
  | .ok () =>
    match ← acknowledgeLoop io rounds with
    | .error errno => pure (.error errno, status)
    | .ok false => pure (.error .eio, status)
    | .ok true =>
      match ← bitsLoop io ftapeCommand resultLength (resultLength + 1).toNat 0 0 with
      | (.error errno, status) => pure (.error errno, status)
      | (.ok (), status) =>
        let _ ← ftapeCommand qicReportNextBit
        pure (.ok (), status)

/-- The loop of `ftape_report_raw_drive_status()`, for the trials that are left behind the next one. -/
def trialsLoop (rounds : ℕ) : ℕ → BitVec 32 → Routine (Session δ) (Result × BitVec 32)
  | 0, status => ftapeReportOperation io ftapeCommand rounds status qicReportDriveStatus 8
  | trials + 1, status => do
    match ← ftapeReportOperation io ftapeCommand rounds status qicReportDriveStatus 8 with
    | (.error _, status) => trialsLoop rounds trials status
    | (.ok (), status) => pure (.ok (), status)

/-- `ftape_report_raw_drive_status()`. -/
def ftapeReportRawDriveStatus (rounds : ℕ) (status : BitVec 32) :
    Routine (Session δ) (Result × BitVec 32) := do
  match ← trialsLoop io ftapeCommand rounds 3 status with
  | (.error _, status) => pure (.error .eio, status)
  | (.ok (), status) =>
    let driveStatus := status.setWidth 8
    if driveStatus = 0xff then pure (.error .eio, status)
    else
      setFtape fun ftape => { ftape with
        currentCommand := if driveStatus &&& qicStatusReady ≠ 0 then qicNoCommand else ftape.currentCommand
        lastDriveStatus := driveStatus }
      pure (.ok (), status)

/-- `ftape_report_error()`. -/
def ftapeReportError (rounds : ℕ) : Routine (Session δ) Result := do
  match ← ftapeReportOperation io ftapeCommand rounds 0 qicReportErrorCode 16 with
  | (.error errno, _) => pure (.error errno)
  | (.ok (), code) =>
    setFtape fun ftape => { ftape with lastError := (code.setWidth 8, (code >>> 8).setWidth 8) }
    pure (.ok ())

/-- The limit of the poll delay of `ftape_ready_wait()`. -/
def pollLimit (timeout : ℕ) : ℕ :=
  if timeout ≤ ftSecond then 100 else if timeout < 20 * ftSecond then ftSecond else 5 * ftSecond

/-- The polls of `ftape_ready_wait()` after which it looks for a signal. -/
def signalRetries (timeout : ℕ) : ℤ :=
  if timeout ≤ ftSecond then 20 else if timeout < 20 * ftSecond then 2 else 1

/-- A difference of unsigned integers. -/
def uintSub (a b : ℕ) : ℕ := (((a : ℤ) - b) % 0x100000000).toNat

/-- The loop of `ftape_ready_wait()`. The timeout is unsigned, so it only ends at 0. -/
def readyWaitLoop (limit reportRounds : ℕ) :
    ℕ → ℕ → ℤ → ℕ → BitVec 32 → Routine (Session δ) (Result × BitVec 32)
  | 0, _, _, _, _ => .unfinished
  | rounds + 1, delay, retries, timeout, status => do
    let delay := if delay < limit then delay + 100 else delay
    match ← ftapeReportRawDriveStatus io ftapeCommand reportRounds status with
    | (.error errno, status) => pure (.error errno, status)
    | (.ok (), status) =>
      if status.setWidth 8 &&& qicStatusReady ≠ 0 then pure (.ok (), status)
      else
        let killed ← (if retries = 0 then askDrive io.ftSigtest else pure false)
        if killed then pure (.error .eintr, status)
        else
          let elapsed ← askDrive io.elapsed
          let left := uintSub timeout elapsed
          if left = 0 then pure (.error .etime, status)
          else readyWaitLoop limit reportRounds rounds delay (retries - 1) (uintSub left delay) status

/-- `ftape_ready_wait()`. -/
def ftapeReadyWait (rounds timeout : ℕ) (status : BitVec 32) : Routine (Session δ) (Result × BitVec 32) :=
  readyWaitLoop io ftapeCommand (pollLimit timeout) rounds rounds 0 (signalRetries timeout) timeout status

/-- The status bits in which the drive differs from what a command needs. -/
def Qic117CommandTable.difference (entry : Qic117CommandTable) (status : BitVec 32) : Byte :=
  (status.setWidth 8 ^^^ entry.state) &&& entry.mask

/-- The part of `ft_check_cmd_restrictions()` for a motion command: the command before it may have to
be awaited. -/
def awaitMotion (rounds : ℕ) (entry : Qic117CommandTable) : Routine (Session δ) (Result × BitVec 32) := do
  if entry.cmdType ≠ .motion then pure (.ok (), BitVec.allOnes 32)
  else
    let current ← .lookup qic117Cmds fun s => s.ftape.currentCommand
    if !current.nonIntr then pure (.ok (), BitVec.allOnes 32)
    else
      match ← ftapeReportRawDriveStatus io ftapeCommand rounds (BitVec.allOnes 32) with
      | (.error errno, status) => pure (.error errno, status)
      | (.ok (), status) =>
        if status.setWidth 8 &&& qicStatusReady = 0 then
          let timeout ← .read fun s => s.ftape.seekTimeout
          let (_, status) ← ftapeReadyWait io ftapeCommand rounds timeout status
          pure (.ok (), status)
        else pure (.ok (), status)

/-- The loop of `ft_check_cmd_restrictions()` that waits for the drive. -/
def awaitReady (waitRounds : ℕ) (entry : Qic117CommandTable) :
    ℕ → BitVec 32 → Routine (Session δ) (Result × BitVec 32)
  | 0, _ => .unfinished
  | rounds + 1, status => do
    if entry.difference status &&& qicStatusReady = 0 then pure (.ok (), status)
    else
      let timeout ← .read fun s => s.ftape.seekTimeout
      match ← ftapeReadyWait io ftapeCommand waitRounds timeout status with
      | (.error .eintr, status) => pure (.error .eintr, status)
      | (_, status) => awaitReady waitRounds entry rounds status

/-- The loop of `ft_check_cmd_restrictions()` that clears pending errors. -/
def clearErrors (reportRounds : ℕ) (entry : Qic117CommandTable) :
    ℕ → BitVec 32 → Routine (Session δ) (Result × BitVec 32)
  | 0, _ => .unfinished
  | rounds + 1, status => do
    if entry.difference status &&& qicStatusError = 0 then pure (.ok (), status)
    else
      let _ ← ftapeReportError io ftapeCommand reportRounds
      match ← ftapeReportRawDriveStatus io ftapeCommand reportRounds status with
      | (.error errno, status) => pure (.error errno, status)
      | (.ok (), status) =>
        if entry.difference status &&& qicStatusError = 0 then pure (.ok (), status)
        else
          let killed ← askDrive io.ftSigtest
          if killed then pure (.error .eintr, status) else clearErrors reportRounds entry rounds status

/-- The part of `ft_check_cmd_restrictions()` for a command that needs a certain status. -/
def checkStatus (rounds : ℕ) (entry : Qic117CommandTable) (status : BitVec 32) :
    Routine (Session δ) Result := do
  let (reported, status) ← (if status = BitVec.allOnes 32 then
      ftapeReportRawDriveStatus io ftapeCommand rounds status
    else pure (.ok (), status))
  match reported with
  | .error errno => pure (.error errno)
  | .ok () =>
    match ← awaitReady io ftapeCommand rounds entry rounds status with
    | (.error errno, _) => pure (.error errno)
    | (.ok (), status) =>
      match ← clearErrors io ftapeCommand rounds entry rounds status with
      | (.error errno, _) => pure (.error errno)
      | (.ok (), status) =>
        if entry.difference status ≠ 0 then
          setFtape fun ftape => { ftape with
            failure := ftape.failure || entry.difference status &&& qicStatusTape ≠ 0 }
          pure (.error .eio)
        else if ~~~(status.setWidth 8) &&& qicStatusReady &&& entry.mask ≠ 0 then pure (.error .ebusy)
        else pure (.ok ())

/-- `ft_check_cmd_restrictions()`. -/
def ftCheckCmdRestrictions (rounds command : ℕ) : Routine (Session δ) Result := do
  let entry ← .lookup qic117Cmds fun _ => command
  match ← awaitMotion io ftapeCommand rounds entry with
  | (.error errno, _) => pure (.error errno)
  | (.ok (), status) =>
    if entry.mask = 0 then pure (.ok ()) else checkStatus io ftapeCommand rounds entry status

end Reports

/-- Count a level of commands. -/
def addLevel (amount : ℤ) : Routine (Session δ) Unit :=
  setFtape fun ftape => { ftape with qicCmdLevel := ftape.qicCmdLevel + amount }

/-- Report a bug to the kernel log. -/
def logBug (bug : Bug) : Routine (Session δ) Unit := setFtape fun ftape => { ftape with bugs := bug :: ftape.bugs }

/-- The end of `ftape_command()`, when all conditions are met. -/
def issueCommand (command : ℕ) : Routine (Session δ) Result := do
  let result ← ftSendToDrive io command
  let entry ← .lookup qic117Cmds fun _ => command
  setFtape fun ftape => { ftape with
    locationKnown := ftape.locationKnown &&
      !(entry.cmdType = .motion && command ≠ qicLogicalForward && command ≠ qicStopTape)
    currentCommand := command }
  addLevel (-1)
  pure result

/-- `ftape_command()`. The bound is on the commands that it takes for the restrictions of a command, and
on the rounds of each of their loops. -/
def ftapeCommand : ℕ → ℕ → Routine (Session δ) Result
  | 0, _ => .unfinished
  | fuel + 1, command => do
    if qic117Cmds.length < command then
      logBug (.badCommand command)
      pure (.error .eio)
    else
      addLevel 1
      let ftape ← .read fun s => s.ftape
      if 5 < ftape.qicCmdLevel then
        addLevel (-1)
        logBug (.recursion command)
        pure (.error .eio)
      else if command = qicEnterFormatMode ∧ ftape.driveFlags &&& ftCantFormat ≠ 0 then pure (.error .eio)
      else
        match ← (if ftape.diagnosticMode ∨ command = qicReportDriveStatus ∨ command = qicReportNextBit then
            pure (.ok ())
          else ftCheckCmdRestrictions io (ftapeCommand fuel) fuel command) with
        | .error errno =>
          addLevel (-1)
          pure (.error errno)
        | .ok () => issueCommand io command

/-- `ftape_parameter()`. -/
def ftapeParameter (parameter : ℕ) : Routine (Session δ) Result := ftSendToDrive io (parameter + 2)

/-- `struct mtftcmd`. Behind the three parameters follows whatever is in memory there. -/
structure Mtftcmd where
  ftWaitBefore : ℕ
  ftCmd : ℕ
  ftParmCnt : ℕ
  ftParms : ℕ → Byte
  ftResultBits : ℕ
  ftResult : BitVec 32
  ftWaitAfter : ℕ
  ftStatus : BitVec 32

/-- The loop of `mtiocftcmd()` over the parameters. -/
def parmsLoop (ftParms : ℕ → Byte) : ℕ → ℕ → Routine (Session δ) Result
  | 0, _ => pure (.ok ())
  | rounds + 1, i => do
    match ← ftapeParameter io (ftParms i).toNat with
    | .error errno => pure (.error errno)
    | .ok () => parmsLoop ftParms rounds (i + 1)

/-- The part of `mtiocftcmd()` that waits for the drive, before and after the command. -/
def Mtftcmd.wait (fuel : ℕ) (ftcmd : Mtftcmd) (timeout : ℕ) : Routine (Session δ) (Result × Mtftcmd) :=
  if timeout = 0 then pure (.ok (), ftcmd)
  else do
    let (result, status) ← ftapeReadyWait io (ftapeCommand io fuel) fuel timeout ftcmd.ftStatus
    pure (result, { ftcmd with ftStatus := status })

/-- The part of `mtiocftcmd()` that sends the command, with a report or with its parameters. -/
def Mtftcmd.issue (fuel : ℕ) (ftcmd : Mtftcmd) : Routine (Session δ) (Result × Mtftcmd) :=
  if ftcmd.ftResultBits ≠ 0 then do
    let (result, code) ← ftapeReportOperation io (ftapeCommand io fuel) fuel ftcmd.ftResult ftcmd.ftCmd
      ((ftcmd.ftResultBits : ℤ).bmod 0x100000000)
    pure (result, { ftcmd with ftResult := code })
  else do
    match ← ftapeCommand io fuel ftcmd.ftCmd with
    | .error errno => pure (.error errno, ftcmd)
    | .ok () =>
      let result ← parmsLoop io ftcmd.ftParms ftcmd.ftParmCnt 0
      pure (result, ftcmd)

/-- `mtiocftcmd()`: the result with the `struct mtftcmd` that goes back to the user. -/
def mtiocftcmd (fuel : ℕ) (qicMode bareMode sizeOk : Bool) (ftcmd : Mtftcmd) :
    Routine (Session δ) (Result × Mtftcmd) := do
  if qicMode && !bareMode then pure (.error .eacces, ftcmd)
  else if !sizeOk then pure (.error .einval, ftcmd)
  else
    setFtape fun ftape => { ftape with diagnosticMode := true }
    match ← ftcmd.wait io fuel ftcmd.ftWaitBefore with
    | (.error errno, ftcmd) => pure (.error errno, ftcmd)
    | (.ok (), ftcmd) =>
      match ← ftcmd.issue io fuel with
      | (.error errno, ftcmd) => pure (.error errno, ftcmd)
      | (.ok (), ftcmd) => ftcmd.wait io fuel ftcmd.ftWaitAfter

end

end Ftape.Qic117
