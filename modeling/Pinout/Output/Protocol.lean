import Pinout.Text.Blank
import Pinout.Text.Case

/-! Output protocols and the timing that each of them asks of a timer. -/

set_option autoImplicit false

namespace Pinout

/-- The protocols of motors, servos and light strips. -/
inductive Protocol where
  | pwm
  | oneshot125
  | oneshot42
  | multishot
  | brushed
  | dshot150
  | dshot300
  | dshot600
  | ws2812
deriving DecidableEq

/-- The timing of every channel of one output family. Pulse widths are in
microseconds; both are zero when a protocol does not encode values by width. -/
structure Timing where
  protocol : Protocol
  frequency : Nat
  minPulse : Nat
  maxPulse : Nat
deriving DecidableEq

namespace Protocol

def name : Protocol → String
  | .pwm => "PWM"
  | .oneshot125 => "ONESHOT125"
  | .oneshot42 => "ONESHOT42"
  | .multishot => "MULTISHOT"
  | .brushed => "BRUSHED"
  | .dshot150 => "DSHOT150"
  | .dshot300 => "DSHOT300"
  | .dshot600 => "DSHOT600"
  | .ws2812 => "WS2812"

instance : ToString Protocol := ⟨name⟩

/-- The protocol of a name in any case, blanks around it dropped. -/
def ofName? (text : String) : Option Protocol :=
  match String.ofList ((Text.trim text.toList).map Char.toUpper) with
  | "PWM" | "STANDARD" => some .pwm
  | "ONESHOT125" => some .oneshot125
  | "ONESHOT42" => some .oneshot42
  | "MULTISHOT" => some .multishot
  | "BRUSHED" => some .brushed
  | "DSHOT150" => some .dshot150
  | "DSHOT300" => some .dshot300
  | "DSHOT600" => some .dshot600
  | "WS2812" => some .ws2812
  | _ => none

theorem ofName?_name (protocol : Protocol) : ofName? protocol.name = some protocol := by
  cases protocol <;> decide +kernel

/-- The rate at which the protocol is driven, in hertz. -/
def nominalFrequency : Protocol → Nat
  | .pwm => 50
  | .oneshot125 => 1000
  | .oneshot42 => 2000
  | .multishot => 8000
  | .brushed => 16000
  | .dshot150 | .dshot300 | .dshot600 => 1000
  | .ws2812 => 800000

def pulseRange : Protocol → Nat × Nat
  | .pwm => (1000, 2000)
  | .oneshot125 => (125, 250)
  | .oneshot42 => (42, 84)
  | .multishot => (5, 25)
  | _ => (0, 0)

def isAnalog : Protocol → Bool
  | .pwm | .oneshot125 | .oneshot42 | .multishot | .brushed => true
  | _ => false

def nominal (protocol : Protocol) : Timing where
  protocol := protocol
  frequency := protocol.nominalFrequency
  minPulse := protocol.pulseRange.1
  maxPulse := protocol.pulseRange.2

end Protocol

end Pinout
