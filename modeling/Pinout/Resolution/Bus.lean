import Pinout.Resolution.Placement

/-! Buses. A bus is named by its kind and the number that the board gives it; its
signals are all matched against one selector, which a setting can change. -/

set_option autoImplicit false

namespace Pinout.Resolution

open Board (Assignment Definition Setting)
open Capability (Entry Table)

/-- The number by which a board names a bus of a kind. -/
structure BusId where
  kind : Kind
  index : UInt8
deriving DecidableEq

def busKinds : List Kind :=
  [.spi, .i2c, .uart]

def busSignal? (id : ResourceId) : Option (Signal × BusId) :=
  match id.resource with
  | .bus signal => some (signal, ⟨signal.kind, id.index⟩)
  | _ => none

def members (board : Definition) (bus : BusId) : List (Assignment × Signal) :=
  board.resources.filterMap fun assignment =>
    match busSignal? assignment.id with
    | some (signal, owner) => if owner = bus then some (assignment, signal) else none
    | none => none

/-- The declared buses, by kind and then number. -/
def declaredBuses (board : Definition) : List BusId :=
  (busKinds.flatMap fun kind => allNumbers.map fun index => BusId.mk kind index).filter
    fun bus => !(members board bus).isEmpty

/-- The key of the setting for the instance of a bus. -/
def overrideKey (bus : BusId) : String :=
  "bus_" ++ Text.lower bus.kind.name ++ "_" ++ Text.decimal bus.index.toNat

/-- The setting for the instance of a bus. Timers and analog converters have none. -/
def override? (board : Definition) (bus : BusId) : Option Setting :=
  if bus.kind ∈ busKinds then board.settingEntry? (overrideKey bus) else none

/-- Without a setting, the number of a bus is the number of its instance. -/
def impliedSelector (bus : BusId) : Selector :=
  ⟨bus.kind, bus.index⟩

/-- The instance that a bus is wanted at: what its setting names, if that can be
read, or else the implied one. -/
def wantedSelector (board : Definition) (bus : BusId) : Selector :=
  match override? board bus with
  | none => impliedSelector bus
  | some setting => (Selector.ofValue? bus.kind setting.value).getD (impliedSelector bus)

def overrideIssue? (board : Definition) (bus : BusId) : Option Diagnostic :=
  match override? board bus with
  | none => none
  | some setting =>
    match Selector.ofValue? bus.kind setting.value with
    | some _ => none
    | none => some {
        severity := .warning
        finding := .syntaxIssue
        message :=
          s!"{setting.key} = {setting.value} does not name a {bus.kind} instance; " ++
            s!"using {impliedSelector bus}"
        line := some setting.line }

def placeMember (board : Definition) (table : Table) (bus : BusId)
    (member : Assignment × Signal) : Except Refusal Entry :=
  placeSignal table member.1.pin member.2 (wantedSelector board bus)

/-- A bus with at least one signal in place. Its instance is that of the first one. -/
structure Bus where
  index : UInt8
  selector : Selector
  target : Instance
  pins : List Placement
deriving DecidableEq

namespace Bus

def kind (bus : Bus) : Kind :=
  bus.selector.kind

def carrier? (bus : Bus) (signal : Signal) : Option Placement :=
  bus.pins.find? fun placement => placement.signal? = some signal

def isComplete (bus : Bus) : Bool :=
  bus.kind.required.all fun signal => (bus.carrier? signal).isSome

end Bus

def placedMembers (board : Definition) (table : Table) (bus : BusId) :
    List (Assignment × Entry) :=
  (members board bus).filterMap fun member =>
    match placeMember board table bus member with
    | .ok entry => some (member.1, entry)
    | .error _ => none

/-- The members of a bus without a place, with the reasons. -/
def refusedMembers (board : Definition) (table : Table) (bus : BusId) :
    List (Assignment × Refusal) :=
  (members board bus).filterMap fun member =>
    match placeMember board table bus member with
    | .ok _ => none
    | .error refusal => some (member.1, refusal)

/-- The bus, if any of its members has a place. -/
def resolveBus? (board : Definition) (table : Table) (bus : BusId) : Option Bus :=
  match placedMembers board table bus with
  | [] => none
  | first :: rest => some {
      index := bus.index
      selector := wantedSelector board bus
      target := first.2.target
      pins := (first :: rest).map fun (source, entry) => ⟨source, some entry⟩ }

/-- The required signals that no member declares. -/
def missingSignals (board : Definition) (bus : BusId) : List Signal :=
  bus.kind.required.filter fun signal =>
    !(members board bus).any fun member => member.2 = signal

/-- The finding for a bus with missing signals: an error, but only a warning for a
serial port, which is usable in one direction. -/
def incompleteIssue? (board : Definition) (bus : BusId) : Option Diagnostic :=
  match missingSignals board bus with
  | [] => none
  | first :: rest =>
    let names := (first :: rest).map fun signal => (Resource.bus signal).keyword
    some {
      severity := if bus.kind = .uart then .warning else .error
      finding := .incompleteBus
      message := s!"{bus.kind} bus {bus.index} has no " ++ " or ".intercalate names ++
        " resource"
      resource := some ⟨.bus first, bus.index⟩ }

def busIssues (board : Definition) (table : Table) (bus : BusId) : List Diagnostic :=
  (overrideIssue? board bus).toList ++
    ((refusedMembers board table bus).map fun (source, refusal) =>
      refusal.diagnostic table.mcu source) ++
    (incompleteIssue? board bus).toList

/-- The buses of a board, by kind and then number. -/
def resolveBuses (board : Definition) (table : Table) : List Bus :=
  (declaredBuses board).filterMap (resolveBus? board table)

/-- The bus resources without a place, by bus. -/
def refusedBusResources (board : Definition) (table : Table) : List ResourceId :=
  (declaredBuses board).flatMap fun bus =>
    (refusedMembers board table bus).map fun (source, _) => source.id

/-- The instances of the buses of a kind, by name. -/
def busTargets (buses : List Bus) (kind : Kind) : List Instance :=
  ((buses.filter fun bus => bus.kind = kind).map Bus.target).eraseDups.mergeSort
    fun left right => left.name ≤ right.name

def claimants (buses : List Bus) (kind : Kind) (target : Instance) : List Bus :=
  buses.filter fun bus => bus.kind = kind ∧ bus.target = target

/-- The error for an instance that several buses are at. It points to the first pin of
the second bus. -/
def sharedInstance? (kind : Kind) (target : Instance) : List Bus → Option Diagnostic
  | first :: second :: rest =>
    let indices := (first :: second :: rest).map fun bus => toString bus.index
    let pointer := second.pins.head?
    some {
      severity := .error
      finding := .busInstanceConflict
      message := s!"{target} is claimed by {kind} buses " ++ " and ".intercalate indices ++
        "; each bus index needs its own instance"
      resource := pointer.map Placement.id
      pin := pointer.map (·.source.pin)
      line := pointer.map (·.source.line) }
  | _ => none

/-- The errors for shared instances, by kind and then name. -/
def sharedInstances (buses : List Bus) : List Diagnostic :=
  Kind.all.flatMap fun kind =>
    (busTargets buses kind).filterMap fun target =>
      sharedInstance? kind target (claimants buses kind target)

end Pinout.Resolution
