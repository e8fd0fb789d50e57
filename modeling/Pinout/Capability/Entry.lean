import Pinout.Peripheral.Instance
import Pinout.Pin.Basic

/-! Entries of a capability table: one mapping of a pin to a peripheral instance,
and what the pin does there. -/

set_option autoImplicit false

namespace Pinout.Capability

/-- What a pin does at a peripheral. -/
inductive Use where
  | timer (channel : UInt8) (complementary : Bool)
  | bus (signal : Signal)
  | analog (channel : UInt8)
deriving DecidableEq

def Use.kind : Use → Kind
  | .timer _ _ => .timer
  | .bus signal => signal.kind
  | .analog _ => .adc

/-- One mapping. The alternate function is known when the table names one. -/
structure Entry where
  pin : Pin.Variant
  target : Instance
  function : Option UInt8
  use : Use
deriving DecidableEq

namespace Entry

def kind (entry : Entry) : Kind :=
  entry.use.kind

def signal? (entry : Entry) : Option Signal :=
  match entry.use with
  | .bus signal => some signal
  | _ => none

def timerChannel? (entry : Entry) : Option UInt8 :=
  match entry.use with
  | .timer channel _ => some channel
  | _ => none

/-- The use by name, as tables note it. -/
def label (entry : Entry) : String :=
  match entry.use with
  | .timer channel false => s!"{entry.target}_CH{channel}"
  | .timer channel true => s!"{entry.target}_CH{channel}N"
  | .bus signal => s!"{entry.target}_{signal.label}"
  | .analog channel => s!"{entry.target}_IN{channel}"

def render (entry : Entry) : String :=
  match entry.function with
  | none => s!"{entry.pin} {entry.label}"
  | some number => s!"{entry.pin} {entry.label} (AF{number})"

/-- Two mappings of one variant for one kind and signal exclude each other. -/
def rivals (left right : Entry) : Bool :=
  left.pin == right.pin && left.kind == right.kind && left.signal? == right.signal?

end Entry

end Pinout.Capability
