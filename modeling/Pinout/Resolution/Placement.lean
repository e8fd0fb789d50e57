import Pinout.Board.Definition
import Pinout.Capability.Table
import Pinout.Diagnostic

/-! Placing one resource: the table entry that carries it, or the reason why there is
none. Each decision looks at the resource, its pin and the table alone; what other
resources do never enters. -/

set_option autoImplicit false

namespace Pinout.Resolution

open Board (Assignment Timer)
open Capability (Entry Table)

/-- A resource that found its place: on a table entry, or on the plain pin. -/
structure Placement where
  source : Assignment
  entry : Option Entry
deriving DecidableEq

namespace Placement

def id (placement : Placement) : ResourceId :=
  placement.source.id

/-- The pin variant in use; a plain pin has its default one. -/
def variant (placement : Placement) : Pin.Variant :=
  match placement.entry with
  | some entry => entry.pin
  | none => .default placement.source.pin

def family? (placement : Placement) : Option Family :=
  match placement.source.id.resource with
  | .output family => some family
  | _ => none

def signal? (placement : Placement) : Option Signal :=
  placement.entry.bind Entry.signal?

def target? (placement : Placement) : Option Instance :=
  placement.entry.map Entry.target

def channel? (placement : Placement) : Option UInt8 :=
  placement.entry.bind Entry.timerChannel?

end Placement

/-- Why a resource has no place. -/
inductive Refusal where
  /-- The table has no entry of the signal's kind for the pin. -/
  | unroutable (kind : Kind)
  /-- The entries of the pin for that kind carry other signals. -/
  | otherSignals (signal : Signal) (entries : List Entry)
  /-- The entries for the signal are at instances that were not asked for. -/
  | otherInstances (signal : Signal) (wanted : Selector) (entries : List Entry)
  /-- The board names no timer function for the pin. -/
  | noTimerFunction
  /-- The table has no timer entry for the pin. -/
  | noTimerEntry
  /-- The timer entries of the pin have other functions. -/
  | otherFunctions (function : UInt8) (entries : List Entry)
  /-- Several timer entries of the pin have the function. -/
  | severalEntries (function : UInt8) (entries : List Entry)
  /-- The pin has no analog input; the capable pins are listed. -/
  | noAnalogInput (capable : List Pin)
deriving DecidableEq

namespace Refusal

def finding : Refusal → Finding
  | .unroutable _ | .otherSignals _ _ | .noTimerEntry | .noAnalogInput _ => .unsupportedPin
  | .otherInstances _ _ _ => .instanceMismatch
  | .noTimerFunction => .missingTimer
  | .otherFunctions _ _ => .noMatchingVariant
  | .severalEntries _ _ => .ambiguousMapping

def enumerate (items : List String) : String :=
  ", ".intercalate items

def functionChoice (entry : Entry) : String :=
  match entry.function with
  | some function => s!"AF{function} ({entry.label} via {entry.pin})"
  | none => s!"{entry.label} via {entry.pin}"

def message (mcu : String) (pin : Pin) : Refusal → String
  | .unroutable kind => s!"{pin} cannot be routed to any {kind} peripheral on {mcu}"
  | .otherSignals signal entries =>
    s!"{pin} has no {signal} mapping; it can serve " ++ enumerate (entries.map Entry.label)
  | .otherInstances signal wanted entries =>
    s!"{pin} cannot reach {wanted} as {signal}; available: " ++
      enumerate (entries.map fun entry => s!"{entry.target} via {entry.pin}")
  | .noTimerFunction => s!"no `timer {pin} AF<n>` line selects a timer for this output"
  | .noTimerEntry => s!"{pin} has no timer channel on {mcu}"
  | .otherFunctions function entries =>
    s!"{pin} has no timer mapping on AF{function}; valid: " ++
      enumerate (entries.map functionChoice)
  | .severalEntries function entries =>
    s!"AF{function} on {pin} matches {entries.length} timer mappings: " ++
      enumerate (entries.map Entry.label)
  | .noAnalogInput [] => s!"{pin} has no ADC input; {mcu} lists no ADC inputs"
  | .noAnalogInput capable =>
    s!"{pin} has no ADC input; ADC-capable pins: " ++ enumerate (capable.map Pin.boardToken)

/-- The error for an assignment without a place. -/
def diagnostic (mcu : String) (source : Assignment) (refusal : Refusal) : Diagnostic where
  severity := .error
  finding := refusal.finding
  message := refusal.message mcu source.pin
  resource := some source.id
  pin := some source.pin
  line := some source.line

end Refusal

/-- The first entry of the pin that carries the signal of a selected instance, be it
the default mapping or another. -/
def placeSignal (table : Table) (pin : Pin) (signal : Signal) (wanted : Selector) :
    Except Refusal Entry :=
  match table.carrying? pin signal wanted with
  | some entry => .ok entry
  | none =>
    match table.entriesForSignal pin signal with
    | [] =>
      match table.entriesFor pin signal.kind with
      | [] => .error (.unroutable signal.kind)
      | entries => .error (.otherSignals signal entries)
    | entries => .error (.otherInstances signal wanted entries)

def timerEntries (table : Table) (pin : Pin) (function : UInt8) : List Entry :=
  (table.entriesFor pin .timer).filter fun entry => entry.function = some function

/-- The one timer entry of the pin that has the function its board names. -/
def placeOutput (table : Table) (pin : Pin) (timer : Option Timer) : Except Refusal Entry :=
  match timer with
  | none => .error .noTimerFunction
  | some timer =>
    match timerEntries table pin timer.function with
    | [entry] => .ok entry
    | [] =>
      match table.entriesFor pin .timer with
      | [] => .error .noTimerEntry
      | entries => .error (.otherFunctions timer.function entries)
    | entries => .error (.severalEntries timer.function entries)

def analogPins (table : Table) : List Pin :=
  Pin.all.filter fun pin => !(table.entriesFor pin .adc).isEmpty

/-- The place of a resource with one pin: analog roles need an analog entry, the
others take the plain pin. -/
def placeRole (table : Table) (pin : Pin) (role : Role) : Except Refusal (Option Entry) :=
  if role.isAnalog then
    match table.analog? pin with
    | some entry => .ok (some entry)
    | none => .error (.noAnalogInput (analogPins table))
  else .ok none

end Pinout.Resolution
