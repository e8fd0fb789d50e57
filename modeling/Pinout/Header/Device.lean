import Pinout.Header.Fragment

/-! The devices of a header that take a whole SPI bus: storage and the motion sensor. -/

set_option autoImplicit false

namespace Pinout.Header

open Board (Definition)
open Resolution (Bus Placement Resolved)

def chipsOf (board : Definition) (category : String) : List String :=
  ((board.hints.declaredIn category).filter fun chip => chip ≠ "").eraseDups

/-- The gyro chips; accelerometer hints count where there are no gyro hints. -/
def gyroChips (board : Definition) : List String :=
  match chipsOf board "GYRO_SPI" with
  | [] => chipsOf board "ACC_SPI"
  | chips => chips

/-- Where storage goes: its chip select, its backend, what to call it, and its bus. -/
structure Storage where
  select : Placement
  backend : String
  label : String
  bus : UInt8

def flashStorage (board : Definition) (select : Placement) : Storage where
  select := select
  backend := "LITTLEFS"
  label :=
    match board.hints.selected? "FLASH" with
    | some "" | none => "SPI flash"
    | some chip => chip ++ " SPI flash"
  bus := deviceBus board "flash_spi_bus" 2

def cardStorage (board : Definition) (select : Placement) : Storage where
  select := select
  backend := "SDFS"
  label := "SD card"
  bus := deviceBus board "sdcard_spi_bus" 3

/-- The storage of a board. With both chip selects the card is taken, unless a setting
prefers flash. -/
def storage? (board : Resolved) : Option Storage :=
  let definition := board.definition
  let prefersFlash := match definition.setting? "blackbox_device" with
    | some value => sameWord value "SPIFLASH"
    | none => false
  match board.role? .flashCs, board.role? .sdcardCs with
  | some flash, none => some (flashStorage definition flash)
  | some flash, some card =>
    if prefersFlash then some (flashStorage definition flash)
    else some (cardStorage definition card)
  | none, some card => some (cardStorage definition card)
  | none, none => none

/-- The bus that storage takes. -/
def storageBus? (board : Resolved) : Option Bus :=
  (storage? board).bind fun storage => board.bus? .spi storage.bus

def storageItems (board : Resolved) (options : Options) : List Item :=
  match storage? board with
  | none => []
  | some storage =>
    match board.bus? .spi storage.bus with
    | none => [.line s!"// Storage: omitted (SPI bus {storage.bus} unresolved)", .gap]
    | some bus =>
      [.line s!"// Storage: {storage.label} on {bus.target}",
        constant "StorageConfig" "storage"
          (s!"StorageBackend::{storage.backend}" :: spiPins bus ++
            [pinName (some storage.select), toString options.spiClock]),
        .gap]

def motionIndex (board : Resolved) : UInt8 :=
  deviceBus board.definition "gyro_1_spibus" 1

/-- The bus that the motion sensor takes, if the board has one. -/
def motionBus? (board : Resolved) : Option Bus :=
  (board.role? .gyroCs).bind fun _ => board.bus? .spi (motionIndex board)

def motionItems (board : Resolved) (options : Options) : List Item :=
  match board.role? .gyroCs with
  | none => []
  | some select =>
    match board.bus? .spi (motionIndex board) with
    | none => [.line s!"// IMU: omitted (SPI bus {motionIndex board} unresolved)", .gap]
    | some bus =>
      let label := match gyroChips board.definition with
        | [] => "IMU"
        | chips => ", ".intercalate chips
      [.line s!"// IMU: {label} on {bus.target}",
        constant "SPIConfig" "imu_spi"
          (spiPins bus ++
            [pinName (some select), toString options.spiClock, "CS_Mode::HARDWARE"]),
        constant "IMUConfig" "imu"
          ["imu_spi", pinOrZero (board.role? .gyroExti), toString options.setupClock],
        .gap]

/-- The numbers of the SPI buses that devices take. -/
def takenBuses (board : Resolved) : List UInt8 :=
  ((storageBus? board).toList ++ (motionBus? board).toList).map (·.index)

end Pinout.Header
