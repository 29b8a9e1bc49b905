import Ftape.Volume.Entries

/-!
# Opening and closing the device

A unit has several minor devices: with or without the volume table, with or without a rewind, and a bare
one, on which the driver leaves the drive alone. What the driver keeps about a unit is allocated once and
outlives the sessions.
-/

namespace Ftape.Device

open Ftape.Volume Ftape.Write

/-- `FTAPE_SEL_MASK`. -/
def ftapeSelMask : ℕ := 3

/-- `FTAPE_NO_REWIND`. -/
def ftapeNoRewind : ℕ := 4

/-- `ZFT_RAW_MODE`, which is all of `ZFT_MINOR_OP_MASK`. -/
def zftRawMode : ℕ := 32

/-- `FTAPE_BARE_MODE`. -/
def ftapeBareMode : ℕ := 64

/-- A bit of a minor device number is set. -/
def hasBit (minor bit : ℕ) : Bool := minor &&& bit ≠ 0

/-- `access_mode` of a file. -/
inductive AccessMode where
  | rdonly
  | wronly
  | rdwr
deriving DecidableEq

/-- The fields of `zftape_info_t` for the cartridge: the flags, the header segment and the volume table,
as far as they are allocated. -/
structure Cache where
  headerRead : Bool
  vtblRead : Bool
  oldFtape : Bool
  offline : Bool
  goingOffline : Bool
  writeProtected : Bool
  headerChanged : Bool
  volumeTableChanged : Bool
  forceLock : Bool
  rawImage : Bool
  resid : ℤ
  writtenSegments : ℕ
  cartridge : Cartridge
  hsegBuf : Option (ℕ → Byte)
  vtblBuf : Option (ℕ → Byte)
  vtbl : Option Vtbl

/-- The fields of `zftape_info_t` that tell the sessions apart. -/
structure ZftapeInfo where
  unit : ℕ
  qicMode : Bool
  fileAccessMode : AccessMode
  cache : Cache

/-- The fields of `ftape_info_t` that opening and closing use. `wakeUp` and `vendorId` tell whether the
way to wake the drive up and its vendor are known. -/
structure FtapeInfo where
  active : Bool
  failure : Bool
  diagnosticMode : Bool
  wakeUp : Bool
  vendorId : Bool
  initDriveNeeded : Bool
  newTape : Bool
  noTape : Bool
  writeProtected : Bool
  formatted : Bool
  passEcc : Bool

/-- `ftape_init_driver()`. -/
def ftapeInitDriver : FtapeInfo where
  active := false
  failure := true
  diagnosticMode := false
  wakeUp := false
  vendorId := false
  initDriveNeeded := true
  newTape := true
  noTape := true
  writeProtected := true
  formatted := false
  passEcc := false

/-- What the controller and the drive answer when the device is opened: whether there is memory, whether
the controller is found and the drive wakes up, whether its vendor is known, or is only found out in
diagnostic mode, the flags of its status, and whether it gets initialized, with what it reports about
the format until then. -/
structure Answers where
  memory : Bool
  fdcInit : Bool
  activateDrive : Bool
  vendorId : Bool
  cmsVendorId : Bool
  status : Option (Bool × Bool × Bool)
  referenced : Option Bool
  initDrive : Bool

/-- `ftape_log_vendor_id()`. The questions to a drive of CMS leave the diagnostic mode. -/
def ftapeLogVendorId (answers : Answers) (ftape : FtapeInfo) : FtapeInfo :=
  { ftape with
    vendorId := answers.vendorId
    diagnosticMode := if answers.cmsVendorId then false else ftape.diagnosticMode }

/-- `ftape_init_drive()`. -/
def ftapeInitDrive (answers : Answers) (ftape : FtapeInfo) : FtapeInfo × Except Errno Unit :=
  ({ ftape with initDriveNeeded := false, formatted := answers.referenced.getD ftape.formatted },
    if answers.initDrive then .ok () else .error .eio)

/-- `ftape_get_drive_status()`. -/
def ftapeGetDriveStatus (answers : Answers) (ftape : FtapeInfo) : FtapeInfo × Except Errno Unit :=
  match answers.status with
  | none => ({ ftape with noTape := false, writeProtected := false, newTape := false }, .error .eio)
  | some (newTape, noTape, writeProtected) =>
    ({ ftape with newTape := newTape, noTape := noTape, writeProtected := writeProtected }, .ok ())

/-- The part of `ftape_enable()` behind the detection of the drive. -/
def ftapeEnableDetected (answers : Answers) (ftape : FtapeInfo) : FtapeInfo × Except Errno Unit :=
  match ftapeGetDriveStatus answers ftape with
  | (ftape, .error errno) => ({ ftape with active := false }, .error errno)
  | (ftape, .ok ()) =>
    let ftape := { ftape with initDriveNeeded := ftape.initDriveNeeded || ftape.newTape }
    if !ftape.noTape && ftape.initDriveNeeded then
      match ftapeInitDrive answers ftape with
      | (ftape, .error errno) => ({ ftape with active := false }, .error errno)
      | (ftape, .ok ()) => (ftape, .ok ())
    else (ftape, .ok ())

/-- `ftape_enable()`. -/
def ftapeEnable (answers : Answers) (ftape : FtapeInfo) : FtapeInfo × Except Errno Unit :=
  if ftape.active then (ftape, .error .ebusy)
  else
    let ftape := { ftape with active := true, failure := false }
    if !answers.fdcInit then ({ ftape with active := false }, .error .eio)
    else if !answers.activateDrive then ({ ftape with active := false, wakeUp := false }, .error .enodev)
    else
      let ftape := { ftape with wakeUp := true }
      ftapeEnableDetected answers (if ftape.vendorId then ftape else ftapeLogVendorId answers ftape)

/-- `ftape_enable_bare()`. -/
def ftapeEnableBare (answers : Answers) (ftape : FtapeInfo) : FtapeInfo × Except Errno Unit :=
  if ftape.active then (ftape, .error .ebusy)
  else if !answers.fdcInit then ({ ftape with failure := false }, .error .eio)
  else ({ ftape with active := true, failure := false }, .ok ())

/-- `ftape_disable()`. -/
def ftapeDisable (ftape : FtapeInfo) : FtapeInfo := { ftape with active := false }

/-- `ftape_disable_bare()`. -/
def ftapeDisableBare (ftape : FtapeInfo) : FtapeInfo :=
  { ftape with active := false, wakeUp := false, initDriveNeeded := true, failure := true }

/-- `zft_init_driver()`. -/
def Cache.zftInitDriver (cache : Cache) : Cache :=
  { cache with
    resid := 0
    headerRead := false
    vtblRead := false
    oldFtape := false
    vtbl := cache.vtbl.map fun vtbl => { vtbl with exvtExtension := false, vtblBroken := false }
    offline := false
    writeProtected := false
    goingOffline := false
    headerChanged := false
    volumeTableChanged := false
    forceLock := false
    writtenSegments := 0 }

/-- `zft_uninit_mem()`. -/
def Cache.zftUninitMem (cache : Cache) : Cache := { cache with hsegBuf := none, vtblBuf := none, vtbl := none }

/-- The cache in freshly allocated memory, where `blk_sz` is the default. -/
def Cache.allocated : Cache where
  headerRead := false
  vtblRead := false
  oldFtape := false
  offline := false
  goingOffline := false
  writeProtected := false
  headerChanged := false
  volumeTableChanged := false
  forceLock := false
  rawImage := false
  resid := 0
  writtenSegments := 0
  cartridge := ⟨false, .fmtNormal, 0, 0, 0, 10 * 1024, 0, fun _ => 0, fun _ => 0⟩
  hsegBuf := none
  vtblBuf := none
  vtbl := none

/-- A unit of the driver: `zftapes[sel]` and `ftapes[sel]`, as far as they are allocated, and `busy_flag`. -/
structure DeviceUnit where
  zftape : Option ZftapeInfo
  ftape : Option FtapeInfo
  busy : Bool

/-- A unit nobody has opened yet. -/
def DeviceUnit.unopened : DeviceUnit := ⟨none, none, false⟩

section

variable (zftGetCapacity : Cartridge → Bool → ℤ)

/-- `zft_update_raw_image()`. -/
def Cache.zftUpdateRawImage (cache : Cache) (qicMode : Bool) : Cache :=
  let rawImage := !qicMode && cache.writeProtected
  if rawImage = cache.rawImage then cache
  else
    let cache := { cache with rawImage := rawImage }
    if cache.headerRead then
      let cartridge := { cache.cartridge with capacity := zftGetCapacity cache.cartridge rawImage }
      { cache with cartridge := cartridge, vtblRead := false, vtbl := some (zftInitVtbl cartridge) }
    else cache

/-- The end of `_zft_open()`, which a fake reopen shares. -/
def zftOpenRest (zftape : ZftapeInfo) (ftape : FtapeInfo) : ZftapeInfo × FtapeInfo × Except Errno Unit :=
  let cache := if ftape.noTape || !ftape.formatted then zftape.cache.zftUninitMem else zftape.cache
  let cache := if ftape.noTape then { cache with offline := true }
    else if ftape.newTape then { cache with offline := false } else cache
  if zftape.fileAccessMode ≠ AccessMode.rdonly ∧ (ftape.writeProtected ∨ ftape.noTape) then
    ({ zftape with cache := cache }, ftapeDisable ftape, .error (if ftape.noTape then .enxio else .erofs))
  else
    let cache := { cache with
      writeProtected := decide (zftape.fileAccessMode = AccessMode.rdonly) || ftape.writeProtected }
    let cache := cache.zftUpdateRawImage zftGetCapacity zftape.qicMode
    ({ zftape with cache := cache }, { ftape with passEcc := cache.rawImage }, .ok ())

/-- The part of `_zft_open()` for a device that is not bare. -/
def zftOpenRegular (answers : Answers) (oldUnit : ℕ) (zftape : ZftapeInfo) (ftape : FtapeInfo) :
    ZftapeInfo × FtapeInfo × Except Errno Unit :=
  match ftapeEnable answers ftape with
  | (ftape, .error errno) => ({ zftape with unit := oldUnit }, ftape, .error errno)
  | (ftape, .ok ()) =>
    let zftape := if ftape.newTape || ftape.noTape || !ftape.formatted then
        { zftape with cache := zftape.cache.zftInitDriver.zftUninitMem }
      else zftape
    zftOpenRest zftGetCapacity zftape ftape

/-- The part of `_zft_open()` for the bare device. -/
def zftOpenBare (answers : Answers) (oldUnit : ℕ) (zftape : ZftapeInfo) (ftape : FtapeInfo) :
    ZftapeInfo × FtapeInfo × Except Errno Unit :=
  match ftapeEnableBare answers ftape with
  | (ftape, .error errno) => ({ zftape with unit := oldUnit }, ftape, .error errno)
  | (ftape, .ok ()) => (zftape, ftape, .ok ())

/-- The part of `_zft_open()` that allocates the `zftape_info_t`. -/
def zftAllocate (device : DeviceUnit) (devMinor : ℕ) (accessMode : AccessMode) : ZftapeInfo :=
  match device.zftape with
  | none => ⟨devMinor, !hasBit devMinor zftRawMode, accessMode, Cache.allocated.zftInitDriver⟩
  | some zftape => { zftape with unit := devMinor, fileAccessMode := accessMode }

/-- `_zft_open()`. Each combination of the bits of a minor device is valid. -/
def zftOpenDevice (device : DeviceUnit) (devMinor : ℕ) (accessMode : AccessMode) (answers : Answers) :
    DeviceUnit × Except Errno Unit :=
  if device.zftape.isNone && !answers.memory then (device, .error .eagain)
  else
    let zftape := zftAllocate device devMinor accessMode
    let oldUnit := (device.zftape.map (·.unit)).getD devMinor
    let ftape := device.ftape.getD ftapeInitDriver
    match if hasBit devMinor ftapeBareMode then zftOpenBare answers oldUnit zftape ftape
      else zftOpenRegular zftGetCapacity answers oldUnit zftape ftape with
    | (zftape, ftape, result) => ({ device with zftape := some zftape, ftape := some ftape }, result)

/-- `zft_open()`. -/
def zftOpen (device : DeviceUnit) (minor : ℕ) (accessMode : AccessMode) (answers : Answers) :
    DeviceUnit × Except Errno Unit :=
  if device.busy then (device, .error .ebusy)
  else if ftapeSelMask < minor - (minor &&& (zftRawMode ||| ftapeNoRewind ||| ftapeBareMode)) then
    (device, .error .enxio)
  else
    match zftOpenDevice zftGetCapacity device minor accessMode answers with
    | (device, .error errno) => (device, .error errno)
    | (device, .ok ()) => ({ device with busy := true }, .ok ())

/-- `_zft_close()`. What is still to be written changes the cache, before a cartridge that is to go
offline is forgotten. -/
def zftCloseDevice (finish : Cache → Cache) (zftape : ZftapeInfo) (ftape : FtapeInfo) :
    ZftapeInfo × FtapeInfo :=
  if hasBit zftape.unit ftapeBareMode then (zftape, ftapeDisableBare ftape)
  else if zftape.cache.offline then
    ({ zftape with cache := zftape.cache.zftUninitMem }, ftapeDisable ftape)
  else
    let cache := finish zftape.cache
    let cache := if cache.goingOffline then
        { cache.zftInitDriver.zftUninitMem with offline := true }
      else cache
    ({ zftape with cache := cache }, ftapeDisable ftape)

/-- What the programs that use the unit do, each on the minor device it has open: open and close it, send a
QIC-117 command, change the mode, do any other operation on the cartridge, or let the driver fake a
reopen, which may find the drive out again. -/
inductive Event where
  | opens (minor : ℕ) (accessMode : AccessMode) (answers : Answers)
  | closes (finish : Cache → Cache)
  | ftcmd (sizeOk : Bool)
  | ftmode (rawMode sizeOk : Bool)
  | operates (change : Cache → Cache) (failure : Bool)
  | reopens (enable : Option Answers)

/-- `mtiocftcmd()`, as far as the mode goes. -/
def mtiocftcmd (sizeOk : Bool) (zftape : ZftapeInfo) (ftape : FtapeInfo) : FtapeInfo :=
  if zftape.qicMode && !hasBit zftape.unit ftapeBareMode then ftape
  else if !sizeOk then ftape
  else { ftape with diagnosticMode := true }

/-- `mtiocftmode()`. -/
def mtiocftmode (rawMode sizeOk : Bool) (zftape : ZftapeInfo) (ftape : FtapeInfo) : ZftapeInfo × FtapeInfo :=
  if !sizeOk then (zftape, ftape)
  else
    let cache := zftape.cache.zftUpdateRawImage zftGetCapacity !rawMode
    ({ zftape with qicMode := !rawMode, cache := cache }, { ftape with passEcc := cache.rawImage })

/-- A fake reopen, behind a new start of the drive if there is one. -/
def fakeReopen (enable : Option Answers) (zftape : ZftapeInfo) (ftape : FtapeInfo) : ZftapeInfo × FtapeInfo :=
  let reopen := fun ftape =>
    match zftOpenRest zftGetCapacity { zftape with cache := zftape.cache.zftInitDriver } ftape with
    | (zftape, ftape, _) => (zftape, ftape)
  match enable with
  | none => reopen ftape
  | some answers =>
    match ftapeEnable answers (ftapeDisable ftape) with
    | (ftape, .error _) => (zftape, ftape)
    | (ftape, .ok ()) => reopen ftape

/-- What an event makes of the two structures of a unit that is open. -/
def Event.inSession (event : Event) (zftape : ZftapeInfo) (ftape : FtapeInfo) : ZftapeInfo × FtapeInfo :=
  match event with
  | .opens .. => (zftape, ftape)
  | .closes finish => zftCloseDevice finish zftape ftape
  | .ftcmd sizeOk => (zftape, if ftape.failure then ftape else mtiocftcmd sizeOk zftape ftape)
  | .ftmode rawMode sizeOk =>
    if ftape.failure || hasBit zftape.unit ftapeBareMode then (zftape, ftape)
    else mtiocftmode zftGetCapacity rawMode sizeOk zftape ftape
  | .operates change failure =>
    if ftape.failure || hasBit zftape.unit ftapeBareMode then (zftape, ftape)
    else ({ zftape with cache := change zftape.cache }, { ftape with failure := failure })
  | .reopens enable =>
    if ftape.failure || hasBit zftape.unit ftapeBareMode then (zftape, ftape)
    else fakeReopen zftGetCapacity enable zftape ftape

/-- What an event makes of a unit. -/
def DeviceUnit.step (device : DeviceUnit) (event : Event) : DeviceUnit :=
  match event with
  | .opens minor accessMode answers => (zftOpen zftGetCapacity device minor accessMode answers).1
  | _ =>
    match device.busy, device.zftape, device.ftape with
    | true, some zftape, some ftape =>
      let next := event.inSession zftGetCapacity zftape ftape
      ⟨some next.1, some next.2, match event with | .closes _ => false | _ => true⟩
    | _, _, _ => device

end

end Ftape.Device
