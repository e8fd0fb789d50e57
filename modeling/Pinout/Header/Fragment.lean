import Pinout.Header.Layout
import Pinout.Resolution.Board

/-! Small parts that all sections of a header share: declarations, pins, clocks and the
traces of dropped resources. -/

set_option autoImplicit false

namespace Pinout.Header

open Board (Definition)
open Resolution (Bus Placement Resolved)

/-- What a caller chooses about a header. Nothing here depends on the time or on the
machine. -/
structure Options where
  /-- The name of the board definition, shown at the head. -/
  source : Option String := none
  /-- The digest of the inputs, shown at the head. -/
  digest : Option (List UInt8) := none
  spiClock : Nat := 8000000
  /-- The slow clock while the motion sensor is being set up. -/
  setupClock : Nat := 1000000
  i2cClock : Nat := 400000
  baudRate : Nat := 115200
  /-- Whether what has no place in the header is kept as comments at its end. -/
  keepRest : Bool := true

def braced (values : List String) : String :=
  "\x7b" ++ ", ".intercalate values ++ "\x7d"

def constant (type name : String) (values : List String) : Item :=
  .line (s!"static constexpr {type} {name}" ++ braced values ++ ";")

/-- The pin of a placement in the header, or the word for none. -/
def pinName (placement : Option Placement) : String :=
  match placement with
  | some placement => placement.variant.name
  | none => "NC"

/-- The pin of a placement, or zero where the header takes zero for none. -/
def pinOrZero (placement : Option Placement) : String :=
  match placement with
  | some placement => placement.variant.name
  | none => "0"

def signalPin (bus : Bus) (signal : Signal) : String :=
  pinName (bus.carrier? signal)

def spiPins (bus : Bus) : List String :=
  [signalPin bus .spiMosi, signalPin bus .spiMiso, signalPin bus .spiSclk]

def omission (resource : Resource) (index : UInt8) : String :=
  s!"// {resource.keyword} {index}: omitted (unresolved)"

def omissions (board : Resolved) (resource : Resource) : List Item :=
  match board.droppedOf resource with
  | [] => []
  | indices => indices.map (fun index => .line (omission resource index)) ++ [.gap]

/-- The value of a numeric setting that fits the given number of bits, or a default. -/
def settingNumber (board : Definition) (key : String) (bits fallback : Nat) : Nat :=
  ((board.setting? key).bind fun value =>
    Text.numeral? ((1 <<< bits) - 1) (Text.trim value.toList)).getD fallback

/-- The bus that a device setting names, or a default. -/
def deviceBus (board : Definition) (key : String) (fallback : UInt8) : UInt8 :=
  ((board.setting? key).bind fun value => Text.byte? (Text.trim value.toList)).getD fallback

/-- Do two texts agree but for the case of ASCII letters? -/
def sameWord (left right : String) : Bool :=
  Text.upper left == Text.upper right

end Pinout.Header
