import Ftape.Qic117.Commands

/-!
# The level of the commands

Each command counts a level up when it starts and down when it ends, so that commands which are nested
too deep are refused. One way out does not count down, and one number of a command lies just behind the
command table. Apart from these two, the level is the same before and after each command, whatever the
drive does, and no command is refused.
-/

namespace Ftape.Qic117

open Ftape.Algebra Ftape.Write

/-- A refusal of the nesting check. -/
def Bug.isRecursion : Bug → Bool
  | .badCommand _ => false
  | .recursion _ => true

/-- The commands that the nesting check has refused. -/
def FtapeInfo.refusals (ftape : FtapeInfo) : ℕ := ftape.bugs.countP Bug.isRecursion

/-- A command that is none of those two. -/
def LegalCommand (driveFlags : BitVec 32) (command : ℕ) : Prop :=
  command ≠ qic117Cmds.length ∧ ¬(command = qicEnterFormatMode ∧ driveFlags &&& ftCantFormat ≠ 0)

instance (driveFlags : BitVec 32) (command : ℕ) : Decidable (LegalCommand driveFlags command) :=
  inferInstanceAs (Decidable (_ ∧ _))

/-- What commands keep: the level, a last command that the table has an entry for, the flags of the
drive, and, as long as there is room for nested commands, the number of refused ones. -/
structure Kept {δ : Type} (level : ℤ) (driveFlags : BitVec 32) (refusals : ℕ) (room : Prop)
    (s : Session δ) : Prop where
  level : s.ftape.qicCmdLevel = level
  current : s.ftape.currentCommand < qic117Cmds.length
  flags : s.ftape.driveFlags = driveFlags
  refusals : room → s.ftape.refusals = refusals

section Keeping

variable {δ : Type} {io : DriveIo δ} {level : ℤ} {driveFlags : BitVec 32} {refusals : ℕ} {room : Prop}

/-- The drive changes nothing in the driver. -/
theorem askDrive_keeps {β : Type} (answer : δ → β × δ) :
    (askDrive answer).Keeps (Kept level driveFlags refusals room) :=
  Routine.Keeps.ask fun _ h => { h with }

/-- What the drive answers is taken as it is. -/
theorem meets_askDrive {β : Type} {post : β → Session δ → Prop} {s : Session δ} (answer : δ → β × δ) :
    (askDrive answer).Meets post s ↔ post (answer s.drive).1 { s with drive := (answer s.drive).2 } := Iff.rfl

/-- A change of other fields keeps the level. -/
theorem setFtape_keeps {change : FtapeInfo → FtapeInfo}
    (hlevel : ∀ ftape, (change ftape).qicCmdLevel = ftape.qicCmdLevel)
    (hcurrent : ∀ ftape, ftape.currentCommand < qic117Cmds.length →
      (change ftape).currentCommand < qic117Cmds.length)
    (hflags : ∀ ftape, (change ftape).driveFlags = ftape.driveFlags)
    (hbugs : ∀ ftape, (change ftape).refusals = ftape.refusals) :
    (setFtape change : Routine (Session δ) Unit).Keeps (Kept level driveFlags refusals room) :=
  Routine.Keeps.update fun s h =>
    ⟨(hlevel s.ftape).trans h.level, hcurrent s.ftape h.current, (hflags s.ftape).trans h.flags,
      fun hroom => (hbugs s.ftape).trans (h.refusals hroom)⟩

/-- Sending pulses to the drive keeps the level. -/
theorem ftSendToDrive_keeps (arg : ℕ) :
    (ftSendToDrive io arg).Keeps (Kept level driveFlags refusals room) := askDrive_keeps _

/-- Waiting for the acknowledge keeps the level. -/
theorem acknowledgeLoop_keeps (rounds : ℕ) :
    (acknowledgeLoop io rounds).Keeps (Kept level driveFlags refusals room) := by
  induction rounds with
  | zero => exact Routine.keeps_unfinished
  | succ rounds ih =>
    apply (askDrive_keeps _).bind
    rintro (errno | trackZero)
    · exact Routine.Keeps.pure _
    · apply (askDrive_keeps _).bind
      intro elapsed
      split
      · exact ih
      · exact Routine.Keeps.pure _

section Reports

variable {ftapeCommand : ℕ → Routine (Session δ) Result}

/-- Reading the bits of a report keeps the level if the commands for the next bit do. -/
theorem bitsLoop_keeps (hnext : (ftapeCommand qicReportNextBit).Keeps (Kept level driveFlags refusals room))
    (resultLength : ℤ) (rounds i : ℕ) (status : BitVec 32) :
    (bitsLoop io ftapeCommand resultLength rounds i status).Keeps (Kept level driveFlags refusals room) := by
  induction rounds generalizing i status with
  | zero => exact Routine.Keeps.pure _
  | succ rounds ih =>
    apply hnext.bind
    rintro (errno | _)
    · exact Routine.Keeps.pure _
    · apply (askDrive_keeps _).bind
      rintro (errno | trackZero)
      · exact Routine.Keeps.pure _
      · dsimp only
        split
        · exact ih _ _
        · split
          · exact ih _ _
          · exact Routine.Keeps.pure _

/-- A report keeps the level if its commands do. -/
theorem ftapeReportOperation_keeps {command : ℕ}
    (hcommand : (ftapeCommand command).Keeps (Kept level driveFlags refusals room))
    (hnext : (ftapeCommand qicReportNextBit).Keeps (Kept level driveFlags refusals room))
    (rounds : ℕ) (status : BitVec 32) (resultLength : ℤ) :
    (ftapeReportOperation io ftapeCommand rounds status command resultLength).Keeps
      (Kept level driveFlags refusals room) := by
  apply hcommand.bind
  rintro (errno | _)
  · exact Routine.Keeps.pure _
  · apply (acknowledgeLoop_keeps rounds).bind
    rintro (errno | _ | _)
    · exact Routine.Keeps.pure _
    · exact Routine.Keeps.pure _
    · apply (bitsLoop_keeps hnext resultLength _ 0 0).bind
      rintro ⟨errno | _, status⟩
      · exact Routine.Keeps.pure _
      · exact hnext.bind fun _ => Routine.Keeps.pure _

/-- Reporting an error keeps the level if its commands do. -/
theorem ftapeReportError_keeps
    (herror : (ftapeCommand qicReportErrorCode).Keeps (Kept level driveFlags refusals room))
    (hnext : (ftapeCommand qicReportNextBit).Keeps (Kept level driveFlags refusals room)) (rounds : ℕ) :
    (ftapeReportError io ftapeCommand rounds).Keeps (Kept level driveFlags refusals room) := by
  apply (ftapeReportOperation_keeps herror hnext rounds 0 16).bind
  rintro ⟨errno | _, code⟩
  · exact Routine.Keeps.pure _
  · refine Routine.Keeps.bind ?_ fun _ => Routine.Keeps.pure _
    exact setFtape_keeps (fun _ => rfl) (fun _ h => h) (fun _ => rfl) fun _ => rfl

variable (hstatus : (ftapeCommand qicReportDriveStatus).Keeps (Kept level driveFlags refusals room))
  (hnext : (ftapeCommand qicReportNextBit).Keeps (Kept level driveFlags refusals room))

include hstatus hnext

/-- Reporting the status of the drive keeps the level. -/
theorem ftapeReportRawDriveStatus_keeps (rounds : ℕ) (status : BitVec 32) :
    (ftapeReportRawDriveStatus io ftapeCommand rounds status).Keeps (Kept level driveFlags refusals room) := by
  have htrials : ∀ trials status,
      (trialsLoop io ftapeCommand rounds trials status).Keeps (Kept level driveFlags refusals room) := by
    intro trials
    induction trials with
    | zero => exact fun status => ftapeReportOperation_keeps hstatus hnext rounds status 8
    | succ trials ih =>
      intro status
      apply (ftapeReportOperation_keeps hstatus hnext rounds status 8).bind
      rintro ⟨errno | _, status⟩
      · exact ih status
      · exact Routine.Keeps.pure _
  apply (htrials 3 status).bind
  rintro ⟨errno | _, status⟩
  · exact Routine.Keeps.pure _
  · dsimp only
    split
    · exact Routine.Keeps.pure _
    · refine Routine.Keeps.bind (setFtape_keeps (fun _ => rfl) ?_ (fun _ => rfl) fun _ => rfl) fun _ => ?_
      · intro ftape hcurrent
        dsimp only
        split
        · decide
        · exact hcurrent
      · exact Routine.Keeps.pure _

/-- Waiting for the drive keeps the level. -/
theorem ftapeReadyWait_keeps (rounds timeout : ℕ) (status : BitVec 32) :
    (ftapeReadyWait io ftapeCommand rounds timeout status).Keeps (Kept level driveFlags refusals room) := by
  have hloop : ∀ limit reportRounds rounds delay retries timeout status,
      (readyWaitLoop io ftapeCommand limit reportRounds rounds delay retries timeout status).Keeps
        (Kept level driveFlags refusals room) := by
    intro limit reportRounds rounds
    induction rounds with
    | zero => exact fun _ _ _ _ => Routine.keeps_unfinished
    | succ rounds ih =>
      intro delay retries timeout status
      apply (ftapeReportRawDriveStatus_keeps hstatus hnext _ _).bind
      rintro ⟨errno | _, status⟩
      · exact Routine.Keeps.pure _
      · dsimp only
        split
        · exact Routine.Keeps.pure _
        · refine Routine.Keeps.bind ?_ fun killed => ?_
          · split
            · exact askDrive_keeps _
            · exact Routine.Keeps.pure _
          · split
            · exact Routine.Keeps.pure _
            · apply (askDrive_keeps _).bind
              intro elapsed
              split
              · exact Routine.Keeps.pure _
              · exact ih _ _ _ _
  exact hloop _ _ _ _ _ _ _

/-- Awaiting the command before a motion command keeps the level. -/
theorem awaitMotion_keeps (rounds : ℕ) (entry : Qic117CommandTable) :
    (awaitMotion io ftapeCommand rounds entry).Keeps (Kept level driveFlags refusals room) := by
  rw [awaitMotion]
  split
  · exact Routine.Keeps.pure _
  · apply (Routine.Keeps.lookup fun s (hs : Kept level driveFlags refusals room s) => hs.current).bind
    intro current
    split
    · exact Routine.Keeps.pure _
    · apply (ftapeReportRawDriveStatus_keeps hstatus hnext _ _).bind
      rintro ⟨errno | _, status⟩
      · exact Routine.Keeps.pure _
      · dsimp only
        split
        · apply (Routine.Keeps.read _).bind
          intro timeout
          exact (ftapeReadyWait_keeps hstatus hnext _ _ _).bind fun _ => Routine.Keeps.pure _
        · exact Routine.Keeps.pure _

/-- Waiting until a command can be sent keeps the level. -/
theorem awaitReady_keeps (waitRounds : ℕ) (entry : Qic117CommandTable) (rounds : ℕ) (status : BitVec 32) :
    (awaitReady io ftapeCommand waitRounds entry rounds status).Keeps
      (Kept level driveFlags refusals room) := by
  induction rounds generalizing status with
  | zero => exact Routine.keeps_unfinished
  | succ rounds ih =>
    rw [awaitReady]
    split
    · exact Routine.Keeps.pure _
    · apply (Routine.Keeps.read _).bind
      intro timeout
      apply (ftapeReadyWait_keeps hstatus hnext _ _ _).bind
      rintro ⟨result, status⟩
      split
      · exact Routine.Keeps.pure _
      · exact ih _

/-- Clearing pending errors keeps the level if reporting them does. A command that does not look at the
error bit has none to clear. -/
theorem clearErrors_keeps {entry : Qic117CommandTable}
    (herror : entry.mask &&& qicStatusError ≠ 0 →
      (ftapeCommand qicReportErrorCode).Keeps (Kept level driveFlags refusals room))
    (reportRounds rounds : ℕ) (status : BitVec 32) :
    (clearErrors io ftapeCommand reportRounds entry rounds status).Keeps
      (Kept level driveFlags refusals room) := by
  induction rounds generalizing status with
  | zero => exact Routine.keeps_unfinished
  | succ rounds ih =>
    rw [clearErrors]
    split
    · exact Routine.Keeps.pure _
    · rename_i hdifference
      have hmask : entry.mask &&& qicStatusError ≠ 0 := by
        intro hzero
        apply hdifference
        rw [Qic117CommandTable.difference, BitVec.and_assoc, hzero]
        exact BitVec.and_zero
      apply (ftapeReportError_keeps (herror hmask) hnext reportRounds).bind
      intro _
      apply (ftapeReportRawDriveStatus_keeps hstatus hnext _ _).bind
      rintro ⟨errno | _, status⟩
      · exact Routine.Keeps.pure _
      · dsimp only
        split
        · exact Routine.Keeps.pure _
        · apply (askDrive_keeps _).bind
          intro killed
          split
          · exact Routine.Keeps.pure _
          · exact ih _

/-- The restrictions of a command keep the level, if reporting errors does for commands that look at the
error bit. -/
theorem ftCheckCmdRestrictions_keeps {command : ℕ} (hinside : command < qic117Cmds.length)
    (herror : qic117Cmds[command].mask &&& qicStatusError ≠ 0 →
      (ftapeCommand qicReportErrorCode).Keeps (Kept level driveFlags refusals room)) (rounds : ℕ) :
    (ftCheckCmdRestrictions io ftapeCommand rounds command).Keeps (Kept level driveFlags refusals room) := by
  intro s hs
  rw [ftCheckCmdRestrictions, Routine.meets_bind, Routine.meets_lookup]
  refine ⟨hinside, ?_⟩
  refine (awaitMotion_keeps hstatus hnext _ _).meets_bind hs ?_
  rintro ⟨errno | _, status⟩ s hs
  · exact hs
  · dsimp only
    split
    · exact hs
    · refine Routine.Keeps.bind ?_ ?_ s hs
      · split
        · exact ftapeReportRawDriveStatus_keeps hstatus hnext _ _
        · exact Routine.Keeps.pure _
      · rintro ⟨errno | _, status⟩
        · exact Routine.Keeps.pure _
        · apply (awaitReady_keeps hstatus hnext _ _ _ _).bind
          rintro ⟨errno | _, status⟩
          · exact Routine.Keeps.pure _
          · apply (clearErrors_keeps hstatus hnext herror _ _ _).bind
            rintro ⟨errno | _, status⟩
            · exact Routine.Keeps.pure _
            · dsimp only
              split
              · refine Routine.Keeps.bind ?_ fun _ => Routine.Keeps.pure _
                exact setFtape_keeps (fun _ => rfl) (fun _ h => h) (fun _ => rfl) fun _ => rfl
              · split
                · exact Routine.Keeps.pure _
                · exact Routine.Keeps.pure _

end Reports

/-- Reporting a bad command refuses none. -/
theorem logBug_keeps {bug : Bug} (hbug : room → bug.isRecursion = false) :
    (logBug bug : Routine (Session δ) Unit).Keeps (Kept level driveFlags refusals room) := by
  refine Routine.Keeps.update fun s h => ⟨h.level, h.current, h.flags, fun hroom => ?_⟩
  rw [← h.refusals hroom, FtapeInfo.refusals, FtapeInfo.refusals]
  exact List.countP_cons_of_neg (by simp [hbug hroom])

/-- The driver with another level. -/
def Session.addLevel (s : Session δ) (amount : ℤ) : Session δ :=
  { s with ftape := { s.ftape with qicCmdLevel := s.ftape.qicCmdLevel + amount } }

/-- Counting a level. -/
theorem meets_addLevel {post : Unit → Session δ → Prop} {s : Session δ} (amount : ℤ) :
    (addLevel amount).Meets post s ↔ post () (s.addLevel amount) := Iff.rfl

/-- Counting a level up. -/
theorem Kept.addLevel {s : Session δ} (h : Kept level driveFlags refusals room s) (amount : ℤ) :
    Kept (level + amount) driveFlags refusals room (s.addLevel amount) :=
  { h with level := congrArg (· + amount) h.level }

/-- Counting it down again. -/
theorem Kept.removeLevel {s : Session δ} (h : Kept (level + 1) driveFlags refusals room s) :
    Kept level driveFlags refusals room (s.addLevel (-1)) := by
  have hdown := h.addLevel (-1)
  rwa [add_neg_cancel_right] at hdown

/-- Sending a command counts the level down. -/
theorem issueCommand_meets {command : ℕ} (hinside : command < qic117Cmds.length) {s : Session δ}
    (h : Kept (level + 1) driveFlags refusals room s) :
    (issueCommand io command).Meets (fun _ => Kept level driveFlags refusals room) s := by
  refine (ftSendToDrive_keeps command).meets_bind h fun result s h => ?_
  rw [Routine.meets_bind, Routine.meets_lookup]
  exact ⟨hinside, { h.removeLevel with current := hinside }⟩

/-- A legal command keeps the level if its restrictions do, one level up. -/
theorem ftapeCommand_keeps_of {fuel command : ℕ} (hlegal : LegalCommand driveFlags command)
    (hroom : room → level ≤ 4)
    (hcheck : command < qic117Cmds.length → command ≠ qicReportDriveStatus → command ≠ qicReportNextBit →
      (ftCheckCmdRestrictions io (ftapeCommand io fuel) fuel command).Keeps
        (Kept (level + 1) driveFlags refusals room)) :
    (ftapeCommand io (fuel + 1) command).Keeps (Kept level driveFlags refusals room) := by
  intro s hs
  rw [ftapeCommand]
  split
  · exact (logBug_keeps fun _ => rfl).bind (fun _ => Routine.Keeps.pure _) s hs
  · rename_i hlength
    have hinside : command < qic117Cmds.length := lt_of_le_of_ne (Nat.le_of_not_lt hlength) hlegal.1
    have hup := hs.addLevel 1
    rw [Routine.meets_bind, meets_addLevel, Routine.meets_bind, Routine.meets_read]
    split
    · rename_i hdeep
      rw [hup.level] at hdeep
      have hnone : room → False := fun h => by
        have hlevel := hroom h
        omega
      rw [Routine.meets_bind, meets_addLevel]
      exact (logBug_keeps fun h => (hnone h).elim).bind (fun _ => Routine.Keeps.pure _) _ hup.removeLevel
    · rw [if_neg]
      · refine Routine.Keeps.meets_bind (?_ : Routine.Keeps (Kept (level + 1) driveFlags refusals room) _) hup ?_
        · split
          · exact Routine.Keeps.pure _
          · rename_i hrestricted
            rw [not_or, not_or] at hrestricted
            exact hcheck hinside hrestricted.2.1 hrestricted.2.2
        · rintro (errno | _) s h
          · exact h.removeLevel
          · exact issueCommand_meets hinside h
      · rw [hup.flags]
        exact hlegal.2

/-- The commands of a report of the status need no other. -/
theorem ftapeCommand_keeps_status (hroom : room → level ≤ 4) (fuel : ℕ) {command : ℕ}
    (hcommand : command = qicReportDriveStatus ∨ command = qicReportNextBit) :
    (ftapeCommand io fuel command).Keeps (Kept level driveFlags refusals room) := by
  cases fuel with
  | zero => exact Routine.keeps_unfinished
  | succ fuel =>
    apply ftapeCommand_keeps_of _ hroom fun _ hstatus hnext => (hcommand.elim hstatus hnext).elim
    rcases hcommand with rfl | rfl
    · exact ⟨by decide, fun h => absurd h.1 (by decide)⟩
    · exact ⟨by decide, fun h => absurd h.1 (by decide)⟩

/-- A report of an error needs the status. -/
theorem ftapeCommand_keeps_error (hroom : room → level ≤ 3) (fuel : ℕ) :
    (ftapeCommand io fuel qicReportErrorCode).Keeps (Kept level driveFlags refusals room) := by
  cases fuel with
  | zero => exact Routine.keeps_unfinished
  | succ fuel =>
    refine ftapeCommand_keeps_of ⟨by decide, fun h => absurd h.1 (by decide)⟩ (fun h => (hroom h).trans (by decide))
      fun hinside _ _ => ?_
    have hdeeper : room → level + 1 ≤ 4 := fun h => by
      have hlevel := hroom h
      omega
    refine ftCheckCmdRestrictions_keeps (ftapeCommand_keeps_status hdeeper fuel (Or.inl rfl))
      (ftapeCommand_keeps_status hdeeper fuel (Or.inr rfl)) hinside (fun hmask => ?_) fuel
    simp [qic117Cmds, qicReportErrorCode, qicStatusError] at hmask

/-- Any other command may need the status and the errors. -/
theorem ftapeCommand_keeps (hroom : room → level ≤ 2) (fuel : ℕ) {command : ℕ}
    (hlegal : LegalCommand driveFlags command) :
    (ftapeCommand io fuel command).Keeps (Kept level driveFlags refusals room) := by
  cases fuel with
  | zero => exact Routine.keeps_unfinished
  | succ fuel =>
    refine ftapeCommand_keeps_of hlegal (fun h => (hroom h).trans (by decide)) fun hinside _ _ => ?_
    have hdeeper : room → level + 1 ≤ 3 := fun h => by
      have hlevel := hroom h
      omega
    have hdeepest : room → level + 1 ≤ 4 := fun h => (hdeeper h).trans (by decide)
    exact ftCheckCmdRestrictions_keeps (ftapeCommand_keeps_status hdeepest fuel (Or.inl rfl))
      (ftapeCommand_keeps_status hdeepest fuel (Or.inr rfl)) hinside
      (fun _ => ftapeCommand_keeps_error hdeeper fuel) fuel

/-- Sending parameters keeps the level. -/
theorem parmsLoop_keeps (ftParms : ℕ → Byte) (rounds i : ℕ) :
    (parmsLoop io ftParms rounds i).Keeps (Kept level driveFlags refusals room) := by
  induction rounds generalizing i with
  | zero => exact Routine.Keeps.pure _
  | succ rounds ih =>
    apply (ftSendToDrive_keeps _).bind
    rintro (errno | _)
    · exact Routine.Keeps.pure _
    · exact ih _

/-- Waiting for the drive keeps the level and the command. -/
theorem Mtftcmd.wait_meets (hroom : room → level ≤ 4) (fuel : ℕ) (ftcmd : Mtftcmd) (timeout : ℕ)
    {s : Session δ} (hs : Kept level driveFlags refusals room s) :
    (ftcmd.wait io fuel timeout).Meets
      (fun waited s => waited.2.ftCmd = ftcmd.ftCmd ∧ Kept level driveFlags refusals room s) s := by
  rw [Mtftcmd.wait]
  split
  · exact ⟨rfl, hs⟩
  · exact (ftapeReadyWait_keeps (ftapeCommand_keeps_status hroom fuel (Or.inl rfl))
      (ftapeCommand_keeps_status hroom fuel (Or.inr rfl)) fuel _ _).meets_bind hs fun _ _ h => ⟨rfl, h⟩

/-- Sending a legal command with a report or with parameters keeps the level. -/
theorem Mtftcmd.issue_keeps (hroom : room → level ≤ 2) (fuel : ℕ) {ftcmd : Mtftcmd}
    (hlegal : LegalCommand driveFlags ftcmd.ftCmd) :
    (ftcmd.issue io fuel).Keeps (Kept level driveFlags refusals room) := by
  have hcommand := @ftapeCommand_keeps δ io level driveFlags refusals room hroom fuel ftcmd.ftCmd hlegal
  rw [Mtftcmd.issue]
  split
  · have hnext := @ftapeCommand_keeps_status δ io level driveFlags refusals room
      (fun h => (hroom h).trans (by decide)) fuel qicReportNextBit (Or.inr rfl)
    exact (ftapeReportOperation_keeps hcommand hnext _ _ _).bind fun _ => Routine.Keeps.pure _
  · apply hcommand.bind
    rintro (errno | _)
    · exact Routine.Keeps.pure _
    · exact (parmsLoop_keeps _ _ _).bind fun _ => Routine.Keeps.pure _

/-- The user's command keeps the level if it is a legal one. -/
theorem mtiocftcmd_keeps (hroom : room → level ≤ 2) (fuel : ℕ) (qicMode bareMode sizeOk : Bool)
    {ftcmd : Mtftcmd} (hlegal : LegalCommand driveFlags ftcmd.ftCmd) :
    (mtiocftcmd io fuel qicMode bareMode sizeOk ftcmd).Keeps (Kept level driveFlags refusals room) := by
  have hshallow : room → level ≤ 4 := fun h => (hroom h).trans (by decide)
  intro s hs
  rw [mtiocftcmd]
  split
  · exact hs
  · split
    · exact hs
    · rw [Routine.meets_bind]
      have hdiagnostic : Kept level driveFlags refusals room
          { s with ftape := { s.ftape with diagnosticMode := true } } := { hs with }
      change Routine.Meets _ _ { s with ftape := { s.ftape with diagnosticMode := true } }
      rw [Routine.meets_bind]
      refine (Mtftcmd.wait_meets hshallow fuel ftcmd _ hdiagnostic).imp ?_
      rintro ⟨errno | _, waited⟩ s ⟨hcmd, hs⟩
      · exact hs
      · have hissue := @Mtftcmd.issue_keeps δ io level driveFlags refusals room hroom fuel waited
          (by rw [show waited.ftCmd = ftcmd.ftCmd from hcmd]; exact hlegal)
        refine hissue.meets_bind hs ?_
        rintro ⟨errno | _, issued⟩ s hs
        · exact hs
        · exact (Mtftcmd.wait_meets hshallow fuel issued _ hs).imp fun _ _ h => h.2

end Keeping

section Balance

variable {δ : Type} {io : DriveIo δ}

/-- A routine leaves the level as it was, looks at no entry outside of the command table, and, where
there is room for nested commands, none is refused. -/
def Balanced {β : Type} (routine : Routine (Session δ) β) (s : Session δ) : Prop :=
  routine.Meets (fun _ s' => s'.ftape.qicCmdLevel = s.ftape.qicCmdLevel ∧
    (s.ftape.qicCmdLevel ≤ 2 → s'.ftape.refusals = s.ftape.refusals)) s

/-- What keeps the level of a state is balanced there. -/
theorem Routine.Keeps.balanced {β : Type} {routine : Routine (Session δ) β} {s : Session δ}
    (hcurrent : s.ftape.currentCommand < qic117Cmds.length)
    (h : routine.Keeps (Kept s.ftape.qicCmdLevel s.ftape.driveFlags s.ftape.refusals
      (s.ftape.qicCmdLevel ≤ 2))) : Balanced routine s :=
  (h s ⟨rfl, hcurrent, rfl, fun _ => rfl⟩).imp fun _ _ hkept => ⟨hkept.level, hkept.refusals⟩

/-- A command that starts below the last level and is no legal one is not balanced. -/
theorem ftapeCommand_unbalanced {s : Session δ} (hlevel : s.ftape.qicCmdLevel < 5) {command : ℕ}
    (hlegal : ¬LegalCommand s.ftape.driveFlags command) (fuel : ℕ) :
    ¬Balanced (ftapeCommand io (fuel + 1) command) s := by
  have hnumber : command = qic117Cmds.length ∨
      command = qicEnterFormatMode ∧ s.ftape.driveFlags &&& ftCantFormat ≠ 0 := by
    by_contra hneither
    rw [not_or] at hneither
    exact hlegal hneither
  have hshallow : ¬5 < (s.addLevel 1).ftape.qicCmdLevel := by
    change ¬5 < s.ftape.qicCmdLevel + 1
    omega
  have hknown : ¬qic117Cmds.length < command := by
    rcases hnumber with rfl | ⟨rfl, -⟩
    · exact Nat.lt_irrefl _
    · decide
  rw [Balanced, ftapeCommand, if_neg hknown, Routine.meets_bind, meets_addLevel, Routine.meets_bind,
    Routine.meets_read, if_neg hshallow]
  rcases hnumber with rfl | hformat
  · -- the entry behind the table is looked at, before or after the command is sent
    have hother : ¬(qic117Cmds.length = qicEnterFormatMode ∧
        (s.addLevel 1).ftape.driveFlags &&& ftCantFormat ≠ 0) := fun h => absurd h.1 (by decide)
    have houtside : ∀ {γ : Type} (next : Qic117CommandTable → Routine (Session δ) γ) post s,
        ¬(Routine.lookup qic117Cmds (fun _ => qic117Cmds.length) >>= next).Meets post s := by
      intro γ next post s h
      rw [Routine.meets_bind, Routine.meets_lookup] at h
      exact Nat.lt_irrefl _ h.1
    rw [if_neg hother, Routine.meets_bind]
    split
    · rw [Routine.meets_pure, issueCommand, Routine.meets_bind, ftSendToDrive, meets_askDrive]
      exact houtside _ _ _
    · rw [← Routine.meets_bind, ftCheckCmdRestrictions]
      intro h
      rw [Routine.meets_bind] at h
      exact houtside _ _ _ h
  · rw [if_pos (show command = qicEnterFormatMode ∧
      (s.addLevel 1).ftape.driveFlags &&& ftCantFormat ≠ 0 from hformat)]
    rintro ⟨hleft, -⟩
    change s.ftape.qicCmdLevel + 1 = s.ftape.qicCmdLevel at hleft
    omega

/-- At the last level each command is refused. -/
theorem ftapeCommand_refused {s : Session δ} (hlevel : 5 ≤ s.ftape.qicCmdLevel) (fuel command : ℕ) :
    Balanced (ftapeCommand io (fuel + 1) command) s := by
  have hdeep : 5 < (s.addLevel 1).ftape.qicCmdLevel := by
    change 5 < s.ftape.qicCmdLevel + 1
    omega
  rw [Balanced, ftapeCommand]
  split
  · exact ⟨rfl, fun h => absurd (hlevel.trans h) (by decide)⟩
  · rw [Routine.meets_bind, meets_addLevel, Routine.meets_bind, Routine.meets_read, if_pos hdeep]
    refine ⟨?_, fun h => absurd (hlevel.trans h) (by decide)⟩
    exact add_neg_cancel_right s.ftape.qicCmdLevel 1

/-- A command is balanced exactly if it is a legal one, or refused because it is nested too deep. -/
theorem ftapeCommand_balanced_iff (fuel : ℕ) {s : Session δ}
    (hcurrent : s.ftape.currentCommand < qic117Cmds.length) (command : ℕ) :
    Balanced (ftapeCommand io (fuel + 1) command) s ↔
      (s.ftape.qicCmdLevel < 5 → LegalCommand s.ftape.driveFlags command) := by
  constructor
  · intro hbalanced hlevel
    by_contra hlegal
    exact ftapeCommand_unbalanced hlevel hlegal fuel hbalanced
  · intro hlegal
    by_cases hlevel : s.ftape.qicCmdLevel < 5
    · exact Routine.Keeps.balanced hcurrent (ftapeCommand_keeps id (fuel + 1) (hlegal hlevel))
    · exact ftapeCommand_refused (Int.not_lt.mp hlevel) fuel command

/-- What the rest of the driver does with the drive: it sends a command or a parameter, waits, asks for
a report, passes a user's command on, finds out the type of the drive, or turns the restrictions of
commands on or off. -/
inductive Call where
  | command (number : ℕ)
  | parameter (value : ℕ)
  | readyWait (timeout : ℕ)
  | reportOperation (number : ℕ) (resultLength : ℤ)
  | reportRawDriveStatus
  | reportError
  | mtiocftcmd (qicMode bareMode sizeOk : Bool) (ftcmd : Mtftcmd)
  | driveType (flags : BitVec 32)
  | diagnosticMode (on : Bool)

/-- What a call does. -/
def Call.run (io : DriveIo δ) (fuel : ℕ) : Call → Routine (Session δ) Unit
  | .command number => do let _ ← ftapeCommand io fuel number
  | .parameter value => do let _ ← ftapeParameter io value
  | .readyWait timeout => do let _ ← ftapeReadyWait io (ftapeCommand io fuel) fuel timeout 0
  | .reportOperation number resultLength => do
    let _ ← ftapeReportOperation io (ftapeCommand io fuel) fuel 0 number resultLength
  | .reportRawDriveStatus => do let _ ← ftapeReportRawDriveStatus io (ftapeCommand io fuel) fuel 0
  | .reportError => do let _ ← ftapeReportError io (ftapeCommand io fuel) fuel
  | .mtiocftcmd qicMode bareMode sizeOk ftcmd => do
    let _ ← Qic117.mtiocftcmd io fuel qicMode bareMode sizeOk ftcmd
  | .driveType flags => setFtape fun ftape => { ftape with driveFlags := flags }
  | .diagnosticMode on => setFtape fun ftape => { ftape with diagnosticMode := on }

/-- The flags of the drive after a call. -/
def Call.driveFlags (driveFlags : BitVec 32) : Call → BitVec 32
  | .driveType flags => flags
  | _ => driveFlags

/-- The commands a call is told to send are legal ones. -/
def Call.Legal (driveFlags : BitVec 32) : Call → Prop
  | .command number => LegalCommand driveFlags number
  | .reportOperation number _ => LegalCommand driveFlags number
  | .mtiocftcmd _ _ _ ftcmd => LegalCommand driveFlags ftcmd.ftCmd
  | _ => True

/-- All commands of a run are legal ones. -/
def AllLegal (driveFlags : BitVec 32) : List Call → Prop
  | [] => True
  | call :: calls => call.Legal driveFlags ∧ AllLegal (call.driveFlags driveFlags) calls

/-- Each call of a run is balanced. -/
def AlwaysBalanced (io : DriveIo δ) (fuel : ℕ) : List Call → Session δ → Prop
  | [], _ => True
  | call :: calls, s =>
    Balanced (call.run io fuel) s ∧ (call.run io fuel).Meets (fun _ => AlwaysBalanced io fuel calls) s

/-- A legal call keeps the level, with the flags it leaves. -/
theorem Call.run_meets {level : ℤ} {driveFlags : BitVec 32} {refusals : ℕ} (hlevel : level ≤ 2) (fuel : ℕ)
    {call : Call} (hlegal : call.Legal driveFlags) {s : Session δ} (hs : Kept level driveFlags refusals True s) :
    (call.run io fuel).Meets (fun _ => Kept level (call.driveFlags driveFlags) refusals True) s := by
  have hroom : True → level ≤ 2 := fun _ => hlevel
  have hstatus : (ftapeCommand io fuel qicReportDriveStatus).Keeps (Kept level driveFlags refusals True) :=
    ftapeCommand_keeps_status (fun _ => hlevel.trans (by decide)) fuel (Or.inl rfl)
  have hnext : (ftapeCommand io fuel qicReportNextBit).Keeps (Kept level driveFlags refusals True) :=
    ftapeCommand_keeps_status (fun _ => hlevel.trans (by decide)) fuel (Or.inr rfl)
  cases call with
  | command number => exact (ftapeCommand_keeps hroom fuel hlegal).bind (fun _ => Routine.Keeps.pure _) s hs
  | parameter value => exact (ftSendToDrive_keeps _).bind (fun _ => Routine.Keeps.pure _) s hs
  | readyWait timeout =>
    exact (ftapeReadyWait_keeps hstatus hnext _ _ _).bind (fun _ => Routine.Keeps.pure _) s hs
  | reportOperation number resultLength =>
    exact (ftapeReportOperation_keeps (ftapeCommand_keeps hroom fuel hlegal) hnext _ _ _).bind
      (fun _ => Routine.Keeps.pure _) s hs
  | reportRawDriveStatus =>
    exact (ftapeReportRawDriveStatus_keeps hstatus hnext _ _).bind (fun _ => Routine.Keeps.pure _) s hs
  | reportError =>
    have herror : (ftapeCommand io fuel qicReportErrorCode).Keeps (Kept level driveFlags refusals True) :=
      ftapeCommand_keeps_error (fun _ => hlevel.trans (by decide)) fuel
    exact (ftapeReportError_keeps herror hnext fuel).bind (fun _ => Routine.Keeps.pure _) s hs
  | mtiocftcmd qicMode bareMode sizeOk ftcmd =>
    exact (mtiocftcmd_keeps hroom fuel qicMode bareMode sizeOk hlegal).bind (fun _ => Routine.Keeps.pure _) s hs
  | driveType _ => exact { hs with flags := rfl }
  | diagnosticMode _ => exact { hs with }

/-- In a run of legal commands each call is balanced. -/
theorem AllLegal.alwaysBalanced {driveFlags : BitVec 32} {refusals : ℕ} (fuel : ℕ) {calls : List Call}
    (hlegal : AllLegal driveFlags calls) {s : Session δ} (hs : Kept 0 driveFlags refusals True s) :
    AlwaysBalanced io fuel calls s := by
  induction calls generalizing driveFlags s with
  | nil => trivial
  | cons call calls ih =>
    have hcall := @Call.run_meets δ io 0 driveFlags refusals (by decide) fuel call hlegal.1 s hs
    constructor
    · refine hcall.imp fun _ s' hs' => ⟨hs'.level.trans hs.level.symm, fun _ => ?_⟩
      exact (hs'.refusals trivial).trans (hs.refusals trivial).symm
    · exact hcall.imp fun _ s' hs' => ih hlegal.2 hs'

/-- A command leaves the level as it was, and the command table is only looked at inside, exactly if the
command is a legal one or refused for being nested too deep; in a run of legal commands from level 0 on,
none is ever refused. -/
theorem commandLevel_balanced (io : DriveIo δ) (fuel : ℕ) (s : Session δ)
    (hcurrent : s.ftape.currentCommand < qic117Cmds.length) :
    (∀ command, Balanced (ftapeCommand io (fuel + 1) command) s ↔
      (s.ftape.qicCmdLevel < 5 → LegalCommand s.ftape.driveFlags command)) ∧
    (s.ftape.qicCmdLevel = 0 → ∀ calls, AllLegal s.ftape.driveFlags calls →
      AlwaysBalanced io fuel calls s) :=
  ⟨ftapeCommand_balanced_iff fuel hcurrent, fun hlevel _ hlegal =>
    hlegal.alwaysBalanced fuel ⟨hlevel, hcurrent, rfl, fun _ => rfl⟩⟩

end Balance

/-- A drive that is ready and acknowledges each command. -/
def readyIo : DriveIo Unit where
  currentCylinder _ := 0
  fdcSeek _ _ := (.ok (), ())
  fdcSenseDriveStatus _ := (.ok true, ())
  elapsed _ := (1, ())
  ftSigtest _ := (false, ())

/-- A drive that cannot format, with no command in progress. -/
def dittoSession : Session Unit where
  ftape := ⟨0, qicNoCommand, false, ftCantFormat, 0, true, false, 0, (0, 0), []⟩
  drive := ()

/-- There a command that stops the tape is balanced, and so is a run in which the user sends it. -/
theorem commandLevel_balanced_stopTape :
    Balanced (ftapeCommand readyIo 4 qicStopTape) dittoSession ∧
      AlwaysBalanced readyIo 3 [.reportRawDriveStatus, .mtiocftcmd false false true
        ⟨0, qicStopTape, 0, fun _ => 0, 0, 0, 0, 0⟩] dittoSession :=
  ⟨((commandLevel_balanced readyIo 3 dittoSession (by decide)).1 qicStopTape).mpr fun _ => by decide,
    (commandLevel_balanced readyIo 3 dittoSession (by decide)).2 rfl _
      ⟨trivial, show LegalCommand ftCantFormat qicStopTape by decide, trivial⟩⟩

/-- To enter format mode there leaves the level one up, and after five times each command is refused, such
as one that stops the tape; the number behind the last command is looked up outside of the table. -/
theorem commandLevel_unbalanced :
    ¬Balanced (ftapeCommand readyIo 1 qicEnterFormatMode) dittoSession ∧
      ¬Balanced (ftapeCommand readyIo 1 qic117Cmds.length) dittoSession ∧
      (let refused := (fun s => (ftapeCommand readyIo 1 qicEnterFormatMode s).2)^[5] dittoSession
       refused.ftape.refusals = 0 ∧ (ftapeCommand readyIo 4 qicStopTape refused).2.ftape.refusals = 1) := by
  refine ⟨ftapeCommand_unbalanced (by decide) (by decide) 0, ftapeCommand_unbalanced (by decide) (by decide) 0, ?_, ?_⟩
  · decide
  · decide

end Ftape.Qic117
