import Pinout.Resolution.Placement
import Pinout.Resolution.Rate

/-! Timed outputs and their banks. The outputs that share a timer form a bank; they
share its rate, and each needs a channel of its own. -/

set_option autoImplicit false

namespace Pinout.Resolution

open Board (Advisory Assignment Definition)
open Capability (Entry Table)

/-- The timed outputs of a board, by family and then number. -/
def outputs (board : Definition) : List Assignment :=
  Family.all.flatMap fun family =>
    (board.resourcesOf (.output family)).mergeSort fun left right =>
      left.id.index ≤ right.id.index

def placeOutputOf (board : Definition) (table : Table) (source : Assignment) :
    Except Refusal Entry :=
  placeOutput table source.pin (board.timerFor? source.pin)

def adviceFits (advisory : Advisory) (entry : Entry) : Bool :=
  advisory.timer == entry.target.name && entry.timerChannel? == some advisory.channel

/-- The warning for advice that names another timer or channel than the entry in
use. -/
def advisoryIssue? (board : Definition) (source : Assignment) (entry : Entry) :
    Option Diagnostic :=
  match board.timerFor? source.pin with
  | none => none
  | some timer =>
    match timer.advisory with
    | none => none
    | some advisory =>
      if adviceFits advisory entry then none
      else some {
        severity := .warning
        finding := .advisoryMismatch
        message :=
          s!"comment names {advisory.timer} CH{advisory.channel} but " ++
            s!"AF{timer.function} on {entry.pin} is {entry.label}"
        resource := some source.id
        pin := some source.pin
        line := some source.line }

def outputIssues (board : Definition) (table : Table) (source : Assignment) :
    List Diagnostic :=
  match placeOutputOf board table source with
  | .ok entry => (advisoryIssue? board source entry).toList
  | .error refusal => [refusal.diagnostic table.mcu source]

def placedOutputs (board : Definition) (table : Table) : List Placement :=
  (outputs board).filterMap fun source =>
    match placeOutputOf board table source with
    | .ok entry => some ⟨source, some entry⟩
    | .error _ => none

/-- The outputs without a place. -/
def refusedOutputs (board : Definition) (table : Table) : List ResourceId :=
  (outputs board).filterMap fun source =>
    match placeOutputOf board table source with
    | .ok _ => none
    | .error _ => some source.id

/-- The outputs at one timer. -/
structure Bank where
  target : Instance
  channels : List Placement
deriving DecidableEq

/-- The order of the channels of a bank: by family, placements of no family first,
and then by number. -/
def channelPrecedes (left right : Placement) : Bool :=
  let family (placement : Placement) : Nat :=
    match placement.family? with
    | none => 0
    | some family => family.rank + 1
  family left < family right ||
    (family left == family right && left.id.index ≤ right.id.index)

/-- The banks of the given placements, in the order in which their timers appear. A
placement without an entry is in no bank. -/
def banksOf (placements : List Placement) : List Bank :=
  (placements.filterMap Placement.target?).eraseDups.map fun target =>
    ⟨target, (placements.filter fun placement => placement.target? = some target).mergeSort
      channelPrecedes⟩

namespace Bank

def channelsOf (bank : Bank) (family : Family) : List Placement :=
  bank.channels.filter fun placement => placement.family? = some family

def drives (bank : Bank) (family : Family) : Bool :=
  !(bank.channelsOf family).isEmpty

def families (bank : Bank) : List Family :=
  Family.all.filter bank.drives

def onChannel (bank : Bank) (channel : UInt8) : List Placement :=
  bank.channels.filter fun placement => placement.channel? = some channel

/-- The error for a family that needs another rate than the first family of its bank.
It points to the first output of the family. -/
def rateConflict? (bank : Bank) (timings : Timings) (first other : Family) :
    Option Diagnostic :=
  let base := timings.of first
  let wanted := timings.of other
  if wanted.frequency = base.frequency then none
  else
    let pointer := (bank.channelsOf other).head?
    some {
      severity := .error
      finding := .timerFrequencyConflict
      message :=
        s!"{bank.target} drives {first.keyword} outputs at {base.frequency} Hz " ++
          s!"({base.protocol}) and {other.keyword} outputs at {wanted.frequency} Hz " ++
          s!"({wanted.protocol}); move one family to another timer"
      resource := pointer.map Placement.id
      pin := pointer.map (·.source.pin)
      line := pointer.map (·.source.line) }

/-- The errors for rates within a bank. Each family is compared with the first. -/
def rateConflicts (timings : Timings) (bank : Bank) : List Diagnostic :=
  match bank.families with
  | [] => []
  | first :: rest => rest.filterMap (bank.rateConflict? timings first)

/-- The error for a channel with several outputs. It points to the second of them. -/
def sharedChannel? (bank : Bank) (channel : UInt8) : Option Diagnostic :=
  match bank.onChannel channel with
  | first :: second :: rest =>
    let placed := first :: second :: rest
    let names := placed.map fun placement => s!"{placement.id} ({placement.source.pin})"
    some {
      severity := .error
      finding := .timerChannelConflict
      message :=
        s!"{bank.target} CH{channel} is driven by {placed.length} outputs: " ++
          ", ".intercalate names ++ "; each output needs its own channel"
      resource := some second.id
      pin := some second.source.pin
      line := some second.source.line }
  | _ => none

/-- The errors for shared channels, by channel. -/
def sharedChannels (bank : Bank) : List Diagnostic :=
  allNumbers.filterMap bank.sharedChannel?

end Bank

end Pinout.Resolution
