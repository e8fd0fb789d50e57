import Pinout.Pin.Basic
import Pinout.Resource

/-! Findings about a board. They are collected beside a best-effort result and
never stop the work; an error tells the caller that the result is not fit for
use, a warning that part of the input had no effect. -/

set_option autoImplicit false

namespace Pinout

/-- How grave a finding is. -/
inductive Severity where
  | error
  | warning
deriving DecidableEq

def Severity.name : Severity → String
  | .error => "error"
  | .warning => "warning"

/-- What a finding is about. -/
inductive Finding where
  | syntaxIssue
  | duplicateResource
  | unsupportedPin
  | instanceMismatch
  | noMatchingVariant
  | ambiguousMapping
  | missingTimer
  | advisoryMismatch
  | pinConflict
  | incompleteBus
  | unresolvedBusReference
  | unknownProtocol
  | timerFrequencyConflict
  | timerChannelConflict
  | busInstanceConflict
  | unknownPin
deriving DecidableEq

def Finding.name : Finding → String
  | .syntaxIssue => "syntax-issue"
  | .duplicateResource => "duplicate-resource"
  | .unsupportedPin => "unsupported-pin"
  | .instanceMismatch => "instance-mismatch"
  | .noMatchingVariant => "no-matching-variant"
  | .ambiguousMapping => "ambiguous-mapping"
  | .missingTimer => "missing-timer"
  | .advisoryMismatch => "advisory-mismatch"
  | .pinConflict => "pin-conflict"
  | .incompleteBus => "incomplete-bus"
  | .unresolvedBusReference => "unresolved-bus-reference"
  | .unknownProtocol => "unknown-protocol"
  | .timerFrequencyConflict => "timer-frequency-conflict"
  | .timerChannelConflict => "timer-channel-conflict"
  | .busInstanceConflict => "bus-instance-conflict"
  | .unknownPin => "unknown-pin"

/-- A finding with what it concerns: a resource, a pin and a line of the board
definition, each where there is one. -/
structure Diagnostic where
  severity : Severity
  finding : Finding
  message : String
  resource : Option ResourceId := none
  pin : Option Pin := none
  line : Option Nat := none
deriving DecidableEq

namespace Diagnostic

def isError (diagnostic : Diagnostic) : Bool :=
  diagnostic.severity == .error

def subject (diagnostic : Diagnostic) : String :=
  match diagnostic.resource, diagnostic.pin with
  | some resource, some pin => s!"{resource} ({pin}): "
  | some resource, none => s!"{resource}: "
  | none, some pin => s!"{pin}: "
  | none, none => ""

def render (diagnostic : Diagnostic) : String :=
  let place := match diagnostic.line with
    | some line => s!" [line {line}]"
    | none => ""
  diagnostic.severity.name ++ ": " ++ diagnostic.subject ++ diagnostic.message ++ place

/-- How many findings of each severity there are. -/
structure Summary where
  errors : Nat
  warnings : Nat
deriving DecidableEq

def summarize (diagnostics : List Diagnostic) : Summary where
  errors := diagnostics.countP isError
  warnings := diagnostics.countP fun diagnostic => !diagnostic.isError

def Summary.hasErrors (summary : Summary) : Bool :=
  summary.errors > 0

def Summary.render (summary : Summary) : String :=
  s!"{summary.errors} error(s), {summary.warnings} warning(s)"

theorem hasErrors_summarize {diagnostics : List Diagnostic} :
    (summarize diagnostics).hasErrors = true ↔
      ∃ diagnostic ∈ diagnostics, diagnostic.isError = true := by
  simp [Summary.hasErrors, summarize, List.countP_pos_iff]

end Diagnostic

end Pinout
