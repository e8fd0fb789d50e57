import Pinout.Header.Device

/-! The sections of a header for buses, analog inputs, lights and the beeper. -/

set_option autoImplicit false

namespace Pinout.Header

open Resolution (Bus Placement Resolved)

/-- The declaration of an I2C bus. A board with a single one calls it by its use. -/
def i2cItem (only : Bool) (options : Options) (bus : Bus) : List Item :=
  let (name, use) :=
    if only then ("sensors", "Environmental sensors")
    else (s!"i2c{bus.index}", "External sensors")
  [.line s!"// {bus.target}: {use}",
    constant "I2CConfig" name
      [signalPin bus .i2cSda, signalPin bus .i2cScl, toString options.i2cClock],
    .gap]

def i2cItems (board : Resolved) (options : Options) : List Item :=
  let buses := board.busesOf .i2c
  omissions board (.bus .i2cScl) ++ omissions board (.bus .i2cSda) ++
    buses.flatMap (i2cItem (buses.length == 1) options)

def uartItem (options : Options) (bus : Bus) : List Item :=
  [.line s!"// {bus.target}: Serial port",
    constant "UARTConfig" s!"uart{bus.index}"
      [signalPin bus .uartTx, signalPin bus .uartRx, toString options.baudRate],
    .gap]

def uartItems (board : Resolved) (options : Options) : List Item :=
  omissions board (.bus .uartTx) ++ omissions board (.bus .uartRx) ++
    (board.busesOf .uart).flatMap (uartItem options)

/-- The chip select of the display, if a setting puts the display on the bus. -/
def displaySelect? (board : Resolved) (bus : Bus) : Option Placement :=
  let wanted := (board.definition.setting? "max7456_spi_bus").bind fun value =>
    Text.byte? (Text.trim value.toList)
  if wanted = some bus.index then board.role? .osdCs else none

/-- The declaration of an SPI bus that no device has taken. -/
def spiItem (board : Resolved) (options : Options) (bus : Bus) : List Item :=
  match displaySelect? board bus with
  | some select =>
    [.line s!"// {bus.target}: OSD",
      constant "SPIConfig" "osd_spi"
        (spiPins bus ++
          [pinName (some select), toString options.spiClock, "CS_Mode::HARDWARE"]),
      .gap]
  | none =>
    [.line s!"// {bus.target}: General purpose",
      constant "SPIConfig" s!"spi{bus.index}"
        (spiPins bus ++ ["NC", toString options.spiClock]),
      .gap]

/-- The section of the SPI buses that no device has taken. -/
def spiItems (board : Resolved) (options : Options) : List Item :=
  let free := (board.busesOf .spi).filter fun bus => !(takenBuses board).contains bus.index
  omissions board (.bus .spiMosi) ++ omissions board (.bus .spiMiso) ++
    omissions board (.bus .spiSclk) ++ free.flatMap (spiItem board options)

/-- The battery inputs, declared together when there is one of them. -/
def batteryItems (board : Resolved) : List Item :=
  let voltage := board.role? .adcBatt
  let current := board.role? .adcCurr
  if voltage.isNone && current.isNone then []
  else
    [.line "// ADC: Battery voltage and current monitoring",
      constant "ADCConfig" "battery"
        [pinOrZero voltage, pinOrZero current,
          toString (settingNumber board.definition "vbat_scale" 32 110),
          toString (settingNumber board.definition "ibata_scale" 32 170)],
      .gap]

def strengthItems (board : Resolved) : List Item :=
  match board.role? .adcRssi with
  | none => []
  | some input =>
    let label := match input.entry with
      | some entry => entry.label
      | none => ""
    [.line "// ADC: RSSI input",
      .line s!"static constexpr uint32_t rssi_pin = {input.variant};  // {label}",
      .gap]

def analogItems (board : Resolved) : List Item :=
  omissions board (.single .adcBatt) ++ omissions board (.single .adcCurr) ++
    omissions board (.single .adcRssi) ++ batteryItems board ++ strengthItems board

def lightItems (board : Resolved) : List Item :=
  match (board.rolesOf .led).take 2 with
  | [] => []
  | lights =>
    [.line "// Status LEDs",
      constant "LEDConfig" "status_leds" (lights.map fun light => light.variant.name),
      .gap]

/-- The beeper, with its polarity if a setting gives one. -/
def beeperItems (board : Resolved) : List Item :=
  match board.role? .beeper with
  | none => []
  | some beeper =>
    let polarity := match board.definition.setting? "beeper_inversion" with
      | none => []
      | some value =>
        let inverted := sameWord value "ON"
        [Item.line s!"static constexpr bool beeper_inverted = {inverted};"]
    [.line "// Beeper",
      .line s!"static constexpr uint32_t beeper_pin = {beeper.variant};"] ++
      polarity ++ [.gap]

end Pinout.Header
