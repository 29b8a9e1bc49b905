import Ftape.Device.Open

/-!
# The mode of a session

The minor device says whether a session uses the volume table, and no session is meant to start in
diagnostic mode. The driver takes the one over when it first allocates its structure, and clears the
other when it allocates the structure below it: what an earlier session did to either stays.
-/

namespace Ftape.Device

open Ftape.Volume Ftape.Write

/-- What the driver keeps of the cartridge: nothing, as long as nothing is allocated. -/
def DeviceUnit.cached (device : DeviceUnit) : Cache :=
  match device.zftape with
  | none => Cache.allocated.zftInitDriver
  | some zftape => zftape.cache

/-- A session on a minor device starts with the volume table unless the device is a raw one, and not in
diagnostic mode. -/
structure DeviceUnit.StartsIn (device : DeviceUnit) (minor : ℕ) : Prop where
  qicMode : ∀ zftape ∈ device.zftape, zftape.qicMode = !hasBit minor zftRawMode
  diagnosticMode : ∀ ftape ∈ device.ftape, ftape.diagnosticMode = false

/-- The event belongs to a session on the bare device. -/
def DeviceUnit.OnBare (device : DeviceUnit) : Event → Prop
  | .opens minor _ _ => hasBit minor ftapeBareMode = true
  | _ => ∀ zftape ∈ device.zftape, hasBit zftape.unit ftapeBareMode = true

section

variable (zftGetCapacity : Cartridge → Bool → ℤ)

/-- If the event opens a minor device, the session starts in the mode of that device; if it belongs to a
session on the bare device, it leaves no trace in what is kept of the cartridge. -/
def DeviceUnit.Clean (device : DeviceUnit) (event : Event) : Prop :=
  (∀ minor accessMode answers, event = .opens minor accessMode answers →
    (zftOpen zftGetCapacity device minor accessMode answers).2 = .ok () →
      (device.step zftGetCapacity event).StartsIn minor) ∧
  (device.OnBare event → (device.step zftGetCapacity event).cached = device.cached)

/-- If the event opens a minor device, the structures that are already there are in its mode, or the drive
is one for which the diagnostic mode is left on opening. -/
def DeviceUnit.Fits (device : DeviceUnit) (event : Event) : Prop :=
  ∀ minor accessMode answers, event = .opens minor accessMode answers →
    (zftOpen zftGetCapacity device minor accessMode answers).2 = .ok () →
      (∀ zftape ∈ device.zftape, zftape.qicMode = !hasBit minor zftRawMode) ∧
      ∀ ftape ∈ device.ftape, ftape.diagnosticMode = false ∨
        hasBit minor ftapeBareMode = false ∧ ftape.vendorId = false ∧ answers.cmsVendorId = true

/-- Each event of a history is clean. -/
def DeviceUnit.AlwaysClean (device : DeviceUnit) : List Event → Prop
  | [] => True
  | event :: events => device.Clean zftGetCapacity event ∧ (device.step zftGetCapacity event).AlwaysClean events

/-- Each open of a history fits. -/
def DeviceUnit.AlwaysFits (device : DeviceUnit) : List Event → Prop
  | [] => True
  | event :: events => device.Fits zftGetCapacity event ∧ (device.step zftGetCapacity event).AlwaysFits events

variable {zftGetCapacity}

/-- What finding the drive out makes of the diagnostic mode. -/
def FtapeInfo.diagnosticAfter (ftape : FtapeInfo) (answers : Answers) : Bool :=
  if ftape.vendorId = false ∧ answers.cmsVendorId = true then false else ftape.diagnosticMode

/-- Once the vendor is found out, the diagnostic mode stays. -/
theorem ftapeEnableDetected_diagnosticMode (answers : Answers) (ftape : FtapeInfo) :
    (ftapeEnableDetected answers ftape).1.diagnosticMode = ftape.diagnosticMode := by
  rw [ftapeEnableDetected, ftapeGetDriveStatus]
  cases answers.status with
  | none => rfl
  | some status =>
    dsimp only
    split
    · rw [ftapeInitDrive]
      cases answers.initDrive <;> rfl
    · rfl

/-- Enabling the drive leaves the diagnostic mode only for a drive of CMS that wakes up. -/
theorem ftapeEnable_diagnosticMode (answers : Answers) (ftape : FtapeInfo) :
    (ftapeEnable answers ftape).1.diagnosticMode =
      if ftape.active = false ∧ answers.fdcInit = true ∧ answers.activateDrive = true then
        ftape.diagnosticAfter answers
      else ftape.diagnosticMode := by
  rw [ftapeEnable]
  cases hactive : ftape.active with
  | true => simp
  | false =>
    cases hfdc : answers.fdcInit with
    | false => simp
    | true =>
      cases hdrive : answers.activateDrive with
      | false => simp
      | true =>
        simp only [Bool.not_true, Bool.false_eq_true, if_false, and_self, if_true]
        rw [ftapeEnableDetected_diagnosticMode, FtapeInfo.diagnosticAfter]
        cases hvendor : ftape.vendorId <;> cases hcms : answers.cmsVendorId <;> simp [ftapeLogVendorId, hcms]

/-- A drive that is enabled has woken up. -/
theorem ftapeEnable_ok {answers : Answers} {ftape : FtapeInfo} (hok : (ftapeEnable answers ftape).2 = .ok ()) :
    ftape.active = false ∧ answers.fdcInit = true ∧ answers.activateDrive = true := by
  revert hok
  rw [ftapeEnable]
  cases ftape.active with
  | true => exact fun h => nomatch h
  | false =>
    cases answers.fdcInit with
    | false => exact fun h => nomatch h
    | true =>
      cases answers.activateDrive with
      | false => exact fun h => nomatch h
      | true => exact fun _ => ⟨rfl, rfl, rfl⟩

/-- The end of an open leaves the modes alone. -/
theorem zftOpenRest_modes (zftape : ZftapeInfo) (ftape : FtapeInfo) :
    (zftOpenRest zftGetCapacity zftape ftape).1.qicMode = zftape.qicMode ∧
      (zftOpenRest zftGetCapacity zftape ftape).2.1.diagnosticMode = ftape.diagnosticMode := by
  rw [zftOpenRest]
  dsimp only
  split <;> exact ⟨rfl, rfl⟩

/-- An open takes the modes over from the structures that are there, apart from a drive of CMS. -/
theorem zftOpenDevice_modes {device : DeviceUnit} {minor : ℕ} {accessMode : AccessMode} {answers : Answers}
    (hok : (zftOpenDevice zftGetCapacity device minor accessMode answers).2 = .ok ()) :
    ∃ zftape ftape, (zftOpenDevice zftGetCapacity device minor accessMode answers).1 =
        { device with zftape := some zftape, ftape := some ftape } ∧
      zftape.qicMode = (zftAllocate device minor accessMode).qicMode ∧
      ftape.diagnosticMode = if hasBit minor ftapeBareMode then (device.ftape.getD ftapeInitDriver).diagnosticMode
        else (device.ftape.getD ftapeInitDriver).diagnosticAfter answers := by
  revert hok
  rw [zftOpenDevice]
  split
  · exact fun h => nomatch h
  · dsimp only
    intro hok
    refine ⟨_, _, rfl, ?_⟩
    revert hok
    split
    · rw [zftOpenBare, ftapeEnableBare]
      split
      · exact fun h => nomatch h
      · rename_i heq
        split at heq
        · cases heq
        · split at heq
          · cases heq
          · cases heq
            exact fun _ => ⟨rfl, rfl⟩
    · rw [zftOpenRegular]
      split
      · exact fun h => nomatch h
      · rename_i ftape henable
        intro _
        have hdiagnostic := ftapeEnable_diagnosticMode answers (device.ftape.getD ftapeInitDriver)
        rw [if_pos (ftapeEnable_ok (by rw [henable])), henable] at hdiagnostic
        constructor
        · rw [(zftOpenRest_modes _ _).1]
          split <;> rfl
        · rw [(zftOpenRest_modes _ _).2]
          exact hdiagnostic

/-- An open that succeeds starts in the mode of the minor device exactly if it fits. -/
theorem startsIn_iff {device : DeviceUnit} {minor : ℕ} {accessMode : AccessMode} {answers : Answers}
    (hok : (zftOpen zftGetCapacity device minor accessMode answers).2 = .ok ()) :
    (zftOpen zftGetCapacity device minor accessMode answers).1.StartsIn minor ↔
      (∀ zftape ∈ device.zftape, zftape.qicMode = !hasBit minor zftRawMode) ∧
      ∀ ftape ∈ device.ftape, ftape.diagnosticMode = false ∨
        hasBit minor ftapeBareMode = false ∧ ftape.vendorId = false ∧ answers.cmsVendorId = true := by
  revert hok
  rw [zftOpen]
  split
  · exact fun h => nomatch h
  · split
    · exact fun h => nomatch h
    · split
      · exact fun h => nomatch h
      · rename_i opened hopen
        intro _
        obtain ⟨zftape, ftape, heq, hqic, hdiagnostic⟩ := @zftOpenDevice_modes zftGetCapacity device minor
          accessMode answers (by rw [hopen])
        rw [hopen] at heq
        obtain rfl : opened = { device with zftape := some zftape, ftape := some ftape } := heq
        have hmode : zftape.qicMode = !hasBit minor zftRawMode ↔
            ∀ zftape ∈ device.zftape, zftape.qicMode = !hasBit minor zftRawMode := by
          rw [hqic, zftAllocate]
          cases device.zftape with
          | none => simp
          | some old => simp
        have hdiagnosed : ftape.diagnosticMode = false ↔ ∀ ftape ∈ device.ftape,
            ftape.diagnosticMode = false ∨
              hasBit minor ftapeBareMode = false ∧ ftape.vendorId = false ∧ answers.cmsVendorId = true := by
          rw [hdiagnostic]
          cases device.ftape with
          | none => simp [FtapeInfo.diagnosticAfter, ftapeInitDriver]
          | some old =>
            simp only [Option.getD_some, FtapeInfo.diagnosticAfter, Option.mem_def, Option.some.injEq, forall_eq']
            cases hasBit minor ftapeBareMode <;> cases old.vendorId <;> cases answers.cmsVendorId <;> simp
        rw [← hmode, ← hdiagnosed]
        constructor
        · exact fun h => ⟨h.qicMode zftape rfl, h.diagnosticMode ftape rfl⟩
        · rintro ⟨hzftape, hftape⟩
          constructor
          · rintro _ ⟨⟩
            exact hzftape
          · rintro _ ⟨⟩
            exact hftape

/-- Opening the bare device leaves what is kept of the cartridge alone. -/
theorem zftOpen_cached_of_bare {device : DeviceUnit} {minor : ℕ} (hbare : hasBit minor ftapeBareMode = true)
    (accessMode : AccessMode) (answers : Answers) :
    (zftOpen zftGetCapacity device minor accessMode answers).1.cached = device.cached := by
  have hdevice : (zftOpenDevice zftGetCapacity device minor accessMode answers).1.cached = device.cached := by
    rw [zftOpenDevice]
    split
    · rfl
    · simp only [zftOpenBare, zftAllocate]
      cases hzftape : device.zftape with
      | none => split <;> simp [DeviceUnit.cached, hzftape]
      | some old => split <;> simp [DeviceUnit.cached, hzftape]
  rw [zftOpen]
  split
  · rfl
  · split
    · rfl
    · split <;> rename_i heq <;> rw [heq] at hdevice <;> exact hdevice

/-- So does all that can be done on it. -/
theorem inSession_cache_of_bare {zftape : ZftapeInfo} (hbare : hasBit zftape.unit ftapeBareMode = true)
    (event : Event) (ftape : FtapeInfo) :
    (event.inSession zftGetCapacity zftape ftape).1.cache = zftape.cache := by
  cases event with
  | opens minor accessMode answers => rfl
  | closes finish => simp [Event.inSession, zftCloseDevice, hbare]
  | ftcmd sizeOk => rfl
  | ftmode rawMode sizeOk => simp [Event.inSession, hbare]
  | operates change failure => simp [Event.inSession, hbare]
  | reopens enable => simp [Event.inSession, hbare]

/-- Apart from an open, an event only does something in a session. -/
theorem step_inSession {device : DeviceUnit} {event : Event}
    (hopens : ¬∃ minor accessMode answers, event = .opens minor accessMode answers) :
    device.step zftGetCapacity event = match device.busy, device.zftape, device.ftape with
      | true, some zftape, some ftape =>
        ⟨some (event.inSession zftGetCapacity zftape ftape).1, some (event.inSession zftGetCapacity zftape ftape).2,
          match event with | .closes _ => false | _ => true⟩
      | _, _, _ => device := by
  cases event with
  | opens minor accessMode answers => exact absurd ⟨minor, accessMode, answers, rfl⟩ hopens
  | _ => rfl

/-- A session on the bare device leaves no trace in what is kept of the cartridge. -/
theorem step_cached_of_onBare {device : DeviceUnit} {event : Event} (hbare : device.OnBare event) :
    (device.step zftGetCapacity event).cached = device.cached := by
  by_cases hopens : ∃ minor accessMode answers, event = .opens minor accessMode answers
  · obtain ⟨minor, accessMode, answers, rfl⟩ := hopens
    exact zftOpen_cached_of_bare hbare accessMode answers
  · have hsession : ∀ zftape ∈ device.zftape, hasBit zftape.unit ftapeBareMode = true := by
      cases event with
      | opens minor accessMode answers => exact absurd ⟨minor, accessMode, answers, rfl⟩ hopens
      | _ => exact hbare
    rw [step_inSession hopens]
    split
    · rename_i zftape ftape hbusy hzftape hftape
      rw [DeviceUnit.cached, DeviceUnit.cached, hzftape]
      exact inSession_cache_of_bare (hsession zftape hzftape) event ftape
    · rfl

/-- An event is clean exactly if it fits. -/
theorem clean_iff (device : DeviceUnit) (event : Event) :
    device.Clean zftGetCapacity event ↔ device.Fits zftGetCapacity event := by
  rw [DeviceUnit.Clean, and_iff_left step_cached_of_onBare, DeviceUnit.Fits]
  constructor
  · rintro h minor accessMode answers rfl hok
    exact (startsIn_iff hok).mp (h minor accessMode answers rfl hok)
  · rintro h minor accessMode answers rfl hok
    exact (startsIn_iff hok).mpr (h minor accessMode answers rfl hok)

/-- Each event of a history is clean exactly if each open fits. -/
theorem alwaysClean_iff (device : DeviceUnit) (events : List Event) :
    device.AlwaysClean zftGetCapacity events ↔ device.AlwaysFits zftGetCapacity events := by
  induction events generalizing device with
  | nil => exact Iff.rfl
  | cons event events ih => exact and_congr (clean_iff device event) (ih _)

/-- An event keeps to raw devices or to the others, and sends no QIC-117 command. -/
def Event.KeepsTo (raw : Bool) : Event → Prop
  | .opens minor _ _ => hasBit minor zftRawMode = raw
  | .ftcmd sizeOk => sizeOk = false
  | .ftmode rawMode sizeOk => sizeOk = true → rawMode = raw
  | _ => True

/-- The structures that are there are in the mode of raw devices or of the others. -/
structure DeviceUnit.InMode (raw : Bool) (device : DeviceUnit) : Prop where
  qicMode : ∀ zftape ∈ device.zftape, zftape.qicMode = !raw
  diagnosticMode : ∀ ftape ∈ device.ftape, ftape.diagnosticMode = false

/-- Enabling the drive does not enter the diagnostic mode. -/
theorem ftapeEnable_stays {ftape : FtapeInfo} (h : ftape.diagnosticMode = false) (answers : Answers) :
    (ftapeEnable answers ftape).1.diagnosticMode = false := by
  rw [ftapeEnable_diagnosticMode, FtapeInfo.diagnosticAfter, h]
  split
  · split <;> rfl
  · rfl

/-- Whatever comes of an open, it does not change the mode of what is there. -/
theorem DeviceUnit.InMode.zftOpen {raw : Bool} {device : DeviceUnit} (h : device.InMode raw) {minor : ℕ}
    (hminor : hasBit minor zftRawMode = raw) (accessMode : AccessMode) (answers : Answers) :
    (zftOpen zftGetCapacity device minor accessMode answers).1.InMode raw := by
  have hallocate : (zftAllocate device minor accessMode).qicMode = !raw := by
    rw [zftAllocate]
    cases hzftape : device.zftape with
    | none => rw [← hminor]
    | some old => exact h.qicMode old hzftape
  have hftape : (device.ftape.getD ftapeInitDriver).diagnosticMode = false := by
    cases hftape : device.ftape with
    | none => rfl
    | some old => exact h.diagnosticMode old hftape
  have hdevice : (zftOpenDevice zftGetCapacity device minor accessMode answers).1.InMode raw := by
    rw [zftOpenDevice]
    split
    · exact h
    · generalize zftAllocate device minor accessMode = zftape at hallocate ⊢
      generalize device.ftape.getD ftapeInitDriver = ftape at hftape ⊢
      have hopened : ∀ opened : ZftapeInfo × FtapeInfo × Except Errno Unit,
          opened.1.qicMode = (!raw) → opened.2.1.diagnosticMode = false →
            DeviceUnit.InMode raw { device with zftape := some opened.1, ftape := some opened.2.1 } := by
        intro opened hqic hdiagnostic
        constructor
        · rintro _ ⟨⟩
          exact hqic
        · rintro _ ⟨⟩
          exact hdiagnostic
      dsimp only
      apply hopened
      · split
        · rw [zftOpenBare]
          split <;> exact hallocate
        · rw [zftOpenRegular]
          split
          · exact hallocate
          · dsimp only
            rw [(zftOpenRest_modes _ _).1]
            split <;> exact hallocate
      · split
        · rw [zftOpenBare, ftapeEnableBare]
          split <;> rename_i heq <;> split at heq
          · cases heq
            exact hftape
          · split at heq <;> cases heq
            exact hftape
          · cases heq
          · split at heq <;> cases heq
            exact hftape
        · have hstays := ftapeEnable_stays hftape answers
          rw [zftOpenRegular]
          split <;> rename_i heq <;> rw [heq] at hstays
          · exact hstays
          · rw [(zftOpenRest_modes _ _).2]
            exact hstays
  rw [Device.zftOpen]
  split
  · exact h
  · split
    · exact h
    · split <;> rename_i heq <;> rw [heq] at hdevice
      · exact hdevice
      · exact { hdevice with }

/-- An event that keeps to raw devices, or to the others, keeps the mode of what is there. -/
theorem DeviceUnit.InMode.step {raw : Bool} {device : DeviceUnit} (h : device.InMode raw) {event : Event}
    (hkeeps : event.KeepsTo raw) : (device.step zftGetCapacity event).InMode raw := by
  have hsession : ∀ zftape ftape, zftape.qicMode = (!raw) → ftape.diagnosticMode = false →
      (event.inSession zftGetCapacity zftape ftape).1.qicMode = (!raw) ∧
        (event.inSession zftGetCapacity zftape ftape).2.diagnosticMode = false := by
    intro zftape ftape hqic hdiagnostic
    cases event with
    | opens minor accessMode answers => exact ⟨hqic, hdiagnostic⟩
    | closes finish =>
      rw [Event.inSession, zftCloseDevice]
      split
      · exact ⟨hqic, hdiagnostic⟩
      · split
        · exact ⟨hqic, hdiagnostic⟩
        · exact ⟨hqic, hdiagnostic⟩
    | ftcmd sizeOk =>
      obtain rfl : sizeOk = false := hkeeps
      refine ⟨hqic, ?_⟩
      rw [Event.inSession, mtiocftcmd]
      dsimp only
      split
      · exact hdiagnostic
      · split <;> exact hdiagnostic
    | ftmode rawMode sizeOk =>
      rw [Event.inSession]
      split
      · exact ⟨hqic, hdiagnostic⟩
      · rw [mtiocftmode]
        split
        · exact ⟨hqic, hdiagnostic⟩
        · rename_i hsize
          rw [Bool.not_eq_true, Bool.not_eq_false'] at hsize
          refine ⟨?_, hdiagnostic⟩
          change (!rawMode) = !raw
          rw [hkeeps hsize]
    | operates change failure =>
      rw [Event.inSession]
      split <;> exact ⟨hqic, hdiagnostic⟩
    | reopens enable =>
      rw [Event.inSession]
      split
      · exact ⟨hqic, hdiagnostic⟩
      · have hrest : ∀ zftape ftape, zftape.qicMode = (!raw) → ftape.diagnosticMode = false →
            (zftOpenRest zftGetCapacity zftape ftape).1.qicMode = (!raw) ∧
              (zftOpenRest zftGetCapacity zftape ftape).2.1.diagnosticMode = false := by
          intro zftape ftape hqic hdiagnostic
          rw [(zftOpenRest_modes zftape ftape).1, (zftOpenRest_modes zftape ftape).2]
          exact ⟨hqic, hdiagnostic⟩
        cases enable with
        | none => exact hrest _ _ hqic hdiagnostic
        | some answers =>
          have hstays := ftapeEnable_stays (show (ftapeDisable ftape).diagnosticMode = false from hdiagnostic) answers
          rw [fakeReopen]
          split <;> rename_i heq <;> rw [heq] at hstays
          · exact ⟨hqic, hstays⟩
          · exact hrest _ _ hqic hstays
  by_cases hopens : ∃ minor accessMode answers, event = .opens minor accessMode answers
  · obtain ⟨minor, accessMode, answers, rfl⟩ := hopens
    exact h.zftOpen hkeeps accessMode answers
  · rw [step_inSession hopens]
    split
    · rename_i zftape ftape hbusy hzftape hftape
      obtain ⟨hqic, hdiagnostic⟩ := hsession zftape ftape (h.qicMode zftape hzftape) (h.diagnosticMode ftape hftape)
      constructor
      · rintro _ ⟨⟩
        exact hqic
      · rintro _ ⟨⟩
        exact hdiagnostic
    · exact h

/-- Where all programs keep to raw devices, or to the others, and send no QIC-117 command, each open fits. -/
theorem DeviceUnit.InMode.alwaysFits {raw : Bool} {device : DeviceUnit} (h : device.InMode raw) {events : List Event}
    (hkeeps : ∀ event ∈ events, event.KeepsTo raw) : device.AlwaysFits zftGetCapacity events := by
  induction events generalizing device with
  | nil => trivial
  | cons event events ih =>
    have hevent := hkeeps event List.mem_cons_self
    refine ⟨?_, ih (h.step hevent) fun e he => hkeeps e (List.mem_cons_of_mem _ he)⟩
    rintro minor accessMode answers rfl -
    constructor
    · intro zftape hzftape
      rw [h.qicMode zftape hzftape, show hasBit minor zftRawMode = raw from hevent]
    · exact fun ftape hftape => Or.inl (h.diagnosticMode ftape hftape)

/-- In each history of a unit, each session starts in the mode of its minor device, with no trace of a
session on the bare device, exactly if each open finds the structures that are there in that mode. So it
does where all programs keep to raw devices, or to the others, and send no QIC-117 command. -/
theorem sessions_clean_iff (zftGetCapacity : Cartridge → Bool → ℤ) (events : List Event) :
    (DeviceUnit.unopened.AlwaysClean zftGetCapacity events ↔
      DeviceUnit.unopened.AlwaysFits zftGetCapacity events) ∧
    ∀ raw, (∀ event ∈ events, event.KeepsTo raw) → DeviceUnit.unopened.AlwaysClean zftGetCapacity events := by
  have hiff := @alwaysClean_iff zftGetCapacity DeviceUnit.unopened events
  refine ⟨hiff, fun raw hkeeps => hiff.mpr ?_⟩
  have hunopened : DeviceUnit.unopened.InMode raw := by
    constructor
    · rintro _ ⟨⟩
    · rintro _ ⟨⟩
  exact hunopened.alwaysFits hkeeps

end

/-- A drive that answers, with a formatted cartridge. -/
def sampleAnswers : Answers := ⟨true, true, true, true, false, some (false, false, false), some true, true⟩

/-- Two sessions on raw devices, with the bare device between them, are clean. -/
theorem sessions_clean_raw : DeviceUnit.unopened.AlwaysClean (fun _ _ => 0)
    [.opens 32 .rdonly sampleAnswers, .closes id, .opens 100 .rdwr sampleAnswers, .closes id,
      .opens 36 .rdonly sampleAnswers] := by
  apply (sessions_clean_iff (fun _ _ => 0) _).2 true
  simp only [List.forall_mem_cons, Event.KeepsTo]
  exact ⟨by decide, trivial, by decide, trivial, by decide, fun _ hmem => absurd hmem List.not_mem_nil⟩

/-- The device without raw mode after a session on the bare one starts in the wrong mode, and so does the
raw device after a session on the other; after a QIC-117 command a session starts in diagnostic mode. -/
theorem sessions_mix :
    ¬DeviceUnit.unopened.AlwaysClean (fun _ _ => 0)
      [.opens 100 .rdwr sampleAnswers, .closes id, .opens 0 .rdonly sampleAnswers] ∧
    ¬DeviceUnit.unopened.AlwaysClean (fun _ _ => 0)
      [.opens 0 .rdonly sampleAnswers, .closes id, .opens 32 .rdonly sampleAnswers] ∧
    ¬DeviceUnit.unopened.AlwaysClean (fun _ _ => 0)
      [.opens 100 .rdwr sampleAnswers, .ftcmd true, .closes id, .opens 32 .rdonly sampleAnswers] := by
  refine ⟨?_, ?_, ?_⟩
  · rintro ⟨-, -, ⟨hopen, -⟩, -⟩
    have hstarts := hopen 0 .rdonly sampleAnswers rfl rfl
    exact absurd (hstarts.qicMode _ rfl) (by decide)
  · rintro ⟨-, -, ⟨hopen, -⟩, -⟩
    have hstarts := hopen 32 .rdonly sampleAnswers rfl rfl
    exact absurd (hstarts.qicMode _ rfl) (by decide)
  · rintro ⟨-, -, -, ⟨hopen, -⟩, -⟩
    have hstarts := hopen 32 .rdonly sampleAnswers rfl rfl
    exact absurd (hstarts.diagnosticMode _ rfl) (by decide)

end Ftape.Device
