import Pinout.Resolution.Bank
import Pinout.Resolution.Bus
import Pinout.Resolution.Device

/-! Resolving a whole board against a capability table. Every resource of the model is
placed or dropped by itself; the checks between resources then look at the result and
change nothing in it. -/

set_option autoImplicit false

namespace Pinout.Resolution

open Board (Assignment Definition)
open Capability (Table)

def roleAssignments (board : Definition) : List (Assignment × Role) :=
  board.resources.filterMap fun assignment =>
    match assignment.id.resource with
    | .single role => some (assignment, role)
    | _ => none

def placedRoles (board : Definition) (table : Table) : List Placement :=
  (roleAssignments board).filterMap fun (source, role) =>
    match placeRole table source.pin role with
    | .ok entry => some ⟨source, entry⟩
    | .error _ => none

/-- The roles without a place, in order. -/
def refusedRoles (board : Definition) (table : Table) : List ResourceId :=
  (roleAssignments board).filterMap fun (source, role) =>
    match placeRole table source.pin role with
    | .ok _ => none
    | .error _ => some source.id

/-- The warning for a plain role on a pin that the package may not have. -/
def unknownPin (mcu : String) (source : Assignment) : Diagnostic where
  severity := .warning
  finding := .unknownPin
  message := s!"{source.pin} does not appear in the {mcu} capability table"
  resource := some source.id
  pin := some source.pin
  line := some source.line

def roleIssues (table : Table) (source : Assignment) (role : Role) : List Diagnostic :=
  match placeRole table source.pin role with
  | .error refusal => [refusal.diagnostic table.mcu source]
  | .ok (some _) => []
  | .ok none => if table.knowsPin source.pin then [] else [unknownPin table.mcu source]

def pinClaims (board : Definition) (pin : Pin) : List Assignment :=
  board.modeled.filter fun assignment => assignment.pin = pin

/-- The error for a pin with several claims. It names the first resource and the line
of the second. -/
def sharedPin? (board : Definition) (pin : Pin) : Option Diagnostic :=
  match pinClaims board pin with
  | first :: second :: rest =>
    let claims := first :: second :: rest
    let names := claims.map fun claim => s!"{claim.id} (line {claim.line})"
    some {
      severity := .error
      finding := .pinConflict
      message := s!"{pin} is used by {claims.length} resources: " ++ ", ".intercalate names
      resource := some first.id
      pin := some pin
      line := some second.line }
  | _ => none

/-- The errors for shared pins, by pin. -/
def sharedPins (board : Definition) : List Diagnostic :=
  Pin.all.filterMap (sharedPin? board)

/-- A resolved board: the definition with a place for every resource that has one. -/
structure Resolved where
  mcu : String
  definition : Definition
  buses : List Bus
  banks : List Bank
  roles : List Placement
  timings : Timings
  dropped : List ResourceId
deriving DecidableEq

namespace Resolved

def bus? (board : Resolved) (kind : Kind) (index : UInt8) : Option Bus :=
  board.buses.find? fun bus => bus.kind = kind ∧ bus.index = index

def busesOf (board : Resolved) (kind : Kind) : List Bus :=
  board.buses.filter fun bus => bus.kind = kind

/-- The placements of a role, by number. -/
def rolesOf (board : Resolved) (role : Role) : List Placement :=
  (board.roles.filter fun placement => placement.id.resource = .single role).mergeSort
    fun left right => left.id.index ≤ right.id.index

def role? (board : Resolved) (role : Role) : Option Placement :=
  (board.rolesOf role).head?

def banksFor (board : Resolved) (family : Family) : List Bank :=
  board.banks.filter fun bank => bank.drives family

def droppedOf (board : Resolved) (resource : Resource) : List UInt8 :=
  ((board.dropped.filter fun id => id.resource = resource).map (·.index)).mergeSort
    fun left right => left ≤ right

/-- Every placement: buses, banks, roles. -/
def placements (board : Resolved) : List Placement :=
  board.buses.flatMap Bus.pins ++ board.banks.flatMap Bank.channels ++ board.roles

def placedCount (board : Resolved) : Nat :=
  board.buses.foldl (fun total bus => total + bus.pins.length) 0 +
    board.banks.foldl (fun total bank => total + bank.channels.length) 0 +
    board.roles.length

def find? (board : Resolved) (id : ResourceId) : Option Placement :=
  board.placements.find? fun placement => placement.id = id

end Resolved

/-- A resolved board and everything found on the way. -/
structure Outcome where
  board : Resolved
  diagnostics : List Diagnostic
deriving DecidableEq

def Outcome.hasErrors (outcome : Outcome) : Bool :=
  outcome.diagnostics.any Diagnostic.isError

def resolvedBoard (board : Definition) (table : Table) (options : Options) : Resolved where
  mcu := table.mcu
  definition := board
  buses := resolveBuses board table
  banks := banksOf (placedOutputs board table)
  roles := placedRoles board table
  timings := timingsOf board options
  dropped := refusedBusResources board table ++ refusedOutputs board table ++
    refusedRoles board table

/-- Everything found, in the order buses, devices, timing, outputs, roles, pins. -/
def findings (board : Definition) (table : Table) (options : Options) : List Diagnostic :=
  let resolved := resolvedBoard board table options
  (declaredBuses board).flatMap (busIssues board table) ++
    sharedInstances resolved.buses ++
    deviceIssues board resolved.buses ++
    (motorSource options).issues board ++
    (servoSource options).issues board ++
    (outputs board).flatMap (outputIssues board table) ++
    resolved.banks.flatMap (Bank.rateConflicts resolved.timings) ++
    resolved.banks.flatMap Bank.sharedChannels ++
    (roleAssignments board).flatMap (fun (source, role) => roleIssues table source role) ++
    sharedPins board

def resolve (board : Definition) (table : Table) (options : Options) : Outcome where
  board := resolvedBoard board table options
  diagnostics := findings board table options

end Pinout.Resolution
