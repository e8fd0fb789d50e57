import Pinout.Peripheral.Kind
import Pinout.Text.Numeral

/-! The resources that board definitions assign to pins. Bus signals, timed outputs
and plain roles are modeled; every other keyword is kept by name and takes no part
in resolution. -/

set_option autoImplicit false

namespace Pinout

/-- Outputs that need a timer channel. -/
inductive Family where
  | motor
  | servo
  | ledStrip
deriving DecidableEq

namespace Family

def all : List Family :=
  [.motor, .servo, .ledStrip]

def rank : Family → Nat
  | .motor => 0
  | .servo => 1
  | .ledStrip => 2

def keyword : Family → String
  | .motor => "MOTOR"
  | .servo => "SERVO"
  | .ledStrip => "LED_STRIP"

end Family

/-- Roles that take a single pin. -/
inductive Role where
  | flashCs
  | gyroCs
  | gyroExti
  | sdcardCs
  | osdCs
  | baroCs
  | led
  | beeper
  | adcBatt
  | adcCurr
  | adcRssi
deriving DecidableEq

namespace Role

def rank : Role → Nat
  | .flashCs => 0
  | .gyroCs => 1
  | .gyroExti => 2
  | .sdcardCs => 3
  | .osdCs => 4
  | .baroCs => 5
  | .led => 6
  | .beeper => 7
  | .adcBatt => 8
  | .adcCurr => 9
  | .adcRssi => 10

def keyword : Role → String
  | .flashCs => "FLASH_CS"
  | .gyroCs => "GYRO_CS"
  | .gyroExti => "GYRO_EXTI"
  | .sdcardCs => "SDCARD_CS"
  | .osdCs => "OSD_CS"
  | .baroCs => "BARO_CS"
  | .led => "LED"
  | .beeper => "BEEPER"
  | .adcBatt => "ADC_BATT"
  | .adcCurr => "ADC_CURR"
  | .adcRssi => "ADC_RSSI"

def isAnalog : Role → Bool
  | .adcBatt | .adcCurr | .adcRssi => true
  | _ => false

end Role

/-- What a pin can be assigned to. -/
inductive Resource where
  | bus (signal : Signal)
  | output (family : Family)
  | single (role : Role)
  | other (keyword : String)
deriving DecidableEq

namespace Resource

/-- The resource of a keyword in any case. -/
def ofKeyword (keyword : String) : Resource :=
  let capitals := Text.upper keyword
  match capitals with
  | "SPI_MOSI" => .bus .spiMosi
  | "SPI_MISO" => .bus .spiMiso
  | "SPI_SCK" | "SPI_SCLK" => .bus .spiSclk
  | "I2C_SCL" => .bus .i2cScl
  | "I2C_SDA" => .bus .i2cSda
  | "SERIAL_TX" => .bus .uartTx
  | "SERIAL_RX" => .bus .uartRx
  | "MOTOR" => .output .motor
  | "SERVO" => .output .servo
  | "LED_STRIP" => .output .ledStrip
  | "FLASH_CS" => .single .flashCs
  | "GYRO_CS" => .single .gyroCs
  | "GYRO_EXTI" => .single .gyroExti
  | "SDCARD_CS" => .single .sdcardCs
  | "OSD_CS" => .single .osdCs
  | "BARO_CS" => .single .baroCs
  | "LED" => .single .led
  | "BEEPER" => .single .beeper
  | "ADC_BATT" => .single .adcBatt
  | "ADC_CURR" => .single .adcCurr
  | "ADC_RSSI" => .single .adcRssi
  | _ => .other capitals

def keyword : Resource → String
  | .bus .spiMosi => "SPI_MOSI"
  | .bus .spiMiso => "SPI_MISO"
  | .bus .spiSclk => "SPI_SCK"
  | .bus .i2cScl => "I2C_SCL"
  | .bus .i2cSda => "I2C_SDA"
  | .bus .uartTx => "SERIAL_TX"
  | .bus .uartRx => "SERIAL_RX"
  | .output family => family.keyword
  | .single role => role.keyword
  | .other keyword => keyword

instance : ToString Resource := ⟨keyword⟩

/-- Does the resource take part in resolution? -/
def isModeled : Resource → Bool
  | .other _ => false
  | _ => true

theorem ofKeyword_keyword {resource : Resource} (modeled : resource.isModeled = true) :
    ofKeyword resource.keyword = resource := by
  rcases resource with signal | family | role | keyword
  · cases signal <;> decide +kernel
  · cases family <;> decide +kernel
  · cases role <;> decide +kernel
  · simp [isModeled] at modeled

/-- The position of its category and of the resource within it; resources outside
the model share one position and are told apart by keyword. -/
def rank : Resource → Nat
  | .bus signal => signal.rank
  | .output family => 16 + family.rank
  | .single role => 32 + role.rank
  | .other _ => 48

/-- Modeled resources come first, in their fixed order; the rest follow by keyword. -/
def precedes (left right : Resource) : Bool :=
  left.rank < right.rank || (left.rank == right.rank && left.keyword ≤ right.keyword)

end Resource

/-- One numbered resource. -/
structure ResourceId where
  resource : Resource
  index : UInt8
deriving DecidableEq

def allNumbers : List UInt8 :=
  (List.range 256).map UInt8.ofNat

theorem mem_allNumbers (number : UInt8) : number ∈ allNumbers :=
  List.mem_map.mpr ⟨number.toNat, by simpa using number.toNat_lt, by simp⟩

namespace ResourceId

def name (self : ResourceId) : String :=
  self.resource.keyword ++ " " ++ Text.decimal self.index.toNat

instance : ToString ResourceId := ⟨name⟩

end ResourceId

end Pinout
