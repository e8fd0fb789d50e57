import Pinout.Command.Examination
import Pinout.Command.Outcome
import Pinout.Pin.Spelling

/-! What a pin of a microcontroller can be routed to. -/

set_option autoImplicit false

namespace Pinout.Command.Pins

/-- What is asked about a pin. -/
structure Request where
  mcu : String
  pin : String
  kind : Option String := none
  tables : Option File.Path := none

/-- Why there is no answer. -/
inductive Refusal where
  | badPin (token : String) (fault : Pin.FreeFault)
  | unknownKind (name : String)
  | badName (fault : Project.NameFault)
  | noTable (mcu : String) (fault : Library.Fault)
  | noSuchPin (pin : Pin) (mcu : String)
deriving DecidableEq

def Refusal.message : Refusal → String
  | .badPin token fault => fault.message token
  | .unknownKind name =>
    s!"unknown peripheral kind: {name} (expected timer, spi, i2c, uart or adc)"
  | .badName fault => fault.message
  | .noTable mcu fault => noTableMessage mcu fault
  | .noSuchPin pin mcu => s!"{pin} does not exist on {mcu}"

/-- The kinds of a name; all of them when none is given. -/
def kinds? : Option String → Except Refusal (List Kind)
  | none => .ok Kind.all
  | some name =>
    match Kind.ofName? name with
    | none => .error (.unknownKind name)
    | some kind => .ok [kind]

/-- The lines on a pin: one for each mapping, by kind. -/
def lines (loaded : Library.Loaded) (pin : Pin) (kinds : List Kind) : List String :=
  let entries := kinds.flatMap (loaded.table.entriesFor pin)
  s!"{pin} on {loaded.table.mcu} ({loaded.path})" ::
    (if entries.isEmpty then ["  GPIO only"]
    else entries.map fun entry => "  " ++ entry.render)

def find (project : Project) (tree : File.Tree) (request : Request) :
    Except Refusal (List String) := do
  let pin ← (Pin.ofFree request.pin).mapError (.badPin request.pin)
  let kinds ← kinds? request.kind
  let library ← (project.library request.tables).mapError .badName
  let loaded ← (library.load tree request.mcu).mapError (.noTable request.mcu)
  if loaded.table.knowsPin pin then
    return lines loaded pin kinds
  else
    throw (.noSuchPin pin loaded.table.mcu)

def run (project : Project) (tree : File.Tree) (request : Request) : Outcome :=
  match find project tree request with
  | .error refusal => .failed tree refusal.message
  | .ok output => ⟨none, output, [], tree⟩

end Pinout.Command.Pins
