import Pinout.Capability.Table
import Pinout.PinMap.Writing

/-! Writing a capability table: a section for each list of entries, a row for each
entry, and an end mark after the rows. -/

set_option autoImplicit false

namespace Pinout.Capability

/-- The section in which a use is listed. -/
def Use.sectionName : Use → String
  | .timer _ _ => "TIM"
  | .bus .spiMosi => "SPI_MOSI"
  | .bus .spiMiso => "SPI_MISO"
  | .bus .spiSclk => "SPI_SCLK"
  | .bus .i2cScl => "I2C_SCL"
  | .bus .i2cSda => "I2C_SDA"
  | .bus .uartTx => "UART_TX"
  | .bus .uartRx => "UART_RX"
  | .analog _ => "ADC"

/-- The macro that packs the data of a row. The extended one takes a channel too. -/
def Use.macroName : Use → String
  | .bus _ => "STM_PIN_DATA"
  | .timer _ _ | .analog _ => "STM_PIN_DATA_EXT"

/-- What the macro takes besides mode, pull and function: the channel, and whether the
output is the complementary one. -/
def Use.channelArguments : Use → List String
  | .bus _ => []
  | .timer channel complementary =>
    [Text.decimal channel.toNat, if complementary then "1" else "0"]
  | .analog channel => [Text.decimal channel.toNat, "0"]

/-- The words of a table that its entries leave open: what stands before the name of a
section, and the mode and the pull of each row. -/
structure Style where
  storage : String
  mode : Entry → String
  pull : Entry → String

namespace Entry

def functionToken (entry : Entry) : String :=
  match entry.function with
  | none => "0"
  | some number => "GPIO_AF" ++ Text.decimal number.toNat ++ "_" ++ entry.target.name

def callArguments (style : Style) (entry : Entry) : List String :=
  style.mode entry :: style.pull entry :: entry.functionToken :: entry.use.channelArguments

/-- The macro call of a row. -/
def call (style : Style) (entry : Entry) : String :=
  entry.use.macroName ++ "(" ++ ", ".intercalate (entry.callArguments style) ++ ")"

/-- The fields of a row. -/
def fields (style : Style) (entry : Entry) : List String :=
  [entry.pin.name, entry.target.name, entry.call style]

end Entry

/-- The fields of the row that ends a section. -/
def endFields : List String :=
  ["NC", "NP", "0"]

/-- The pieces of a table, section by section. -/
def Style.pieces (style : Style) (sections : List (String × List Entry)) : List String :=
  sections.flatMap fun (name, entries) =>
    PinMap.pieces style.storage name (entries.map (Entry.fields style) ++ [endFields])

end Pinout.Capability
