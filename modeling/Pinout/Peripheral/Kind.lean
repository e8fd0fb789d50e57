import Pinout.Text.Case

/-! Peripheral kinds and the signals of their buses. A kind owns the stems of its
instance names and the signals that a complete bus of it carries. -/

set_option autoImplicit false

namespace Pinout

/-- The kinds of peripheral that a pin can be routed to. -/
inductive Kind where
  | timer
  | spi
  | i2c
  | uart
  | adc
deriving DecidableEq

namespace Kind

def all : List Kind :=
  [.timer, .spi, .i2c, .uart, .adc]

theorem mem_all (kind : Kind) : kind ∈ all := by
  cases kind <;> decide

def rank : Kind → Nat
  | .timer => 0
  | .spi => 1
  | .i2c => 2
  | .uart => 3
  | .adc => 4

def name : Kind → String
  | .timer => "TIMER"
  | .spi => "SPI"
  | .i2c => "I2C"
  | .uart => "UART"
  | .adc => "ADC"

instance : ToString Kind := ⟨name⟩

/-- What stands before the number in the names of its instances. -/
def stems : Kind → List String
  | .timer => ["TIM"]
  | .spi => ["SPI"]
  | .i2c => ["I2C"]
  | .uart => ["USART", "UART"]
  | .adc => ["ADC"]

/-- The kind with this name, in any case. -/
def ofName? (name : String) : Option Kind :=
  match Text.lower name with
  | "timer" | "tim" => some .timer
  | "spi" => some .spi
  | "i2c" => some .i2c
  | "uart" | "usart" | "serial" => some .uart
  | "adc" => some .adc
  | _ => none

end Kind

/-- The signals of buses. -/
inductive Signal where
  | spiMosi
  | spiMiso
  | spiSclk
  | i2cScl
  | i2cSda
  | uartTx
  | uartRx
deriving DecidableEq

namespace Signal

def rank : Signal → Nat
  | .spiMosi => 0
  | .spiMiso => 1
  | .spiSclk => 2
  | .i2cScl => 3
  | .i2cSda => 4
  | .uartTx => 5
  | .uartRx => 6

def kind : Signal → Kind
  | .spiMosi | .spiMiso | .spiSclk => .spi
  | .i2cScl | .i2cSda => .i2c
  | .uartTx | .uartRx => .uart

def label : Signal → String
  | .spiMosi => "MOSI"
  | .spiMiso => "MISO"
  | .spiSclk => "SCLK"
  | .i2cScl => "SCL"
  | .i2cSda => "SDA"
  | .uartTx => "TX"
  | .uartRx => "RX"

def name (signal : Signal) : String :=
  signal.kind.name ++ "_" ++ signal.label

instance : ToString Signal := ⟨name⟩

end Signal

/-- The signals of a complete bus, in the order in which they are missed. -/
def Kind.required : Kind → List Signal
  | .spi => [.spiMosi, .spiMiso, .spiSclk]
  | .i2c => [.i2cScl, .i2cSda]
  | .uart => [.uartTx, .uartRx]
  | .timer | .adc => []

theorem Kind.mem_required_iff {kind : Kind} {signal : Signal} :
    signal ∈ kind.required ↔ signal.kind = kind := by
  cases kind <;> cases signal <;> decide

end Pinout
