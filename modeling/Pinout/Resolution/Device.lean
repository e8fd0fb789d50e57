import Pinout.Resolution.Bus

/-! Settings that put a device on a bus by the number of the bus. Zero and NONE mean
that there is no such device. -/

set_option autoImplicit false

namespace Pinout.Resolution

open Board (Definition Setting)

/-- The settings that name a bus, and the kind of bus each of them names. -/
def deviceSettings : List (String × Kind) :=
  [("gyro_1_spibus", .spi), ("gyro_2_spibus", .spi), ("flash_spi_bus", .spi),
    ("sdcard_spi_bus", .spi), ("max7456_spi_bus", .spi), ("baro_spi_device", .spi),
    ("baro_i2c_device", .i2c), ("mag_i2c_device", .i2c)]

/-- The warning for a setting that names a bus without pins, or no bus at all. -/
def deviceIssue? (buses : List Bus) (kind : Kind) (setting : Setting) : Option Diagnostic :=
  let value := Text.trim setting.value.toList
  match Text.byte? value with
  | some index =>
    if index = 0 ∨ buses.any (fun bus => bus.kind = kind ∧ bus.index = index) then none
    else some {
      severity := .warning
      finding := .unresolvedBusReference
      message :=
        s!"{setting.key} = {index} selects {kind} bus {index}, which has no resolved pins"
      line := some setting.line }
  | none =>
    if value.map Char.toUpper = ['N', 'O', 'N', 'E'] then none
    else some {
      severity := .warning
      finding := .syntaxIssue
      message := s!"{setting.key} = {setting.value} is not a bus number"
      line := some setting.line }

def deviceIssues (board : Definition) (buses : List Bus) : List Diagnostic :=
  deviceSettings.filterMap fun (key, kind) =>
    (board.settingEntry? key).bind (deviceIssue? buses kind)

end Pinout.Resolution
