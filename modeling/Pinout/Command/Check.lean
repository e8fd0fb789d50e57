import Pinout.Command.Examination
import Pinout.Command.Outcome
import Pinout.Library.Shelf

/-! Validation of board definitions. Nothing is written; boards of one microcontroller
share its table. -/

set_option autoImplicit false

namespace Pinout.Command.Check

open Library (Shelf)

/-- What a validation is asked for. -/
structure Request where
  inputs : List File.Path
  mcu : Option String := none
  tables : Option File.Path := none

/-- Why a definition cannot be examined. -/
inductive Refusal where
  | unreadable (input : File.Path) (fault : File.Fault)
  | unnamedMcu
  | noTable (mcu : String) (fault : Library.Fault)
deriving DecidableEq

def Refusal.message : Refusal → String
  | .unreadable input fault => unreadableMessage input fault
  | .unnamedMcu => "no MCU named; pass --mcu"
  | .noTable mcu fault => noTableMessage mcu fault

def examine (project : Project) (tree : File.Tree) (mcu : Option String) (shelf : Shelf)
    (input : File.Path) : Except Refusal Examination × Shelf :=
  match Manuscript.read project tree input with
  | .error fault => (.error (.unreadable input fault), shelf)
  | .ok manuscript =>
    match manuscript.mcu? mcu with
    | none => (.error .unnamedMcu, shelf)
    | some mcu =>
      match shelf.get tree mcu with
      | (.error fault, shelf) => (.error (.noTable mcu fault), shelf)
      | (.ok (_, loaded), shelf) =>
        (.ok (.of manuscript.text manuscript.parsed loaded), shelf)

def examineAll (project : Project) (tree : File.Tree) (mcu : Option String) :
    Shelf → List File.Path → List (File.Path × Except Refusal Examination)
  | _, [] => []
  | shelf, input :: rest =>
    let (result, shelf) := examine project tree mcu shelf input
    (input, result) :: examineAll project tree mcu shelf rest

def fails : Except Refusal Examination → Bool
  | .error _ => true
  | .ok examination => examination.summary.hasErrors

def outputLines : File.Path × Except Refusal Examination → List String
  | (_, .error _) => []
  | (input, .ok examination) => [s!"{input}: {examination.summary.render}"]

def errorLines : File.Path × Except Refusal Examination → List String
  | (input, .error refusal) => [s!"error: {input}: {refusal.message}"]
  | (input, .ok examination) => findingLines input examination.diagnostics

def run (project : Project) (tree : File.Tree) (request : Request) : Outcome :=
  match project.library request.tables with
  | .error fault => .failed tree fault.message
  | .ok library =>
    let results := examineAll project tree request.mcu (.empty library) request.inputs
    let failed := results.countP fun (_, result) => fails result
    let total := results.length
    let output := results.flatMap outputLines
    let errors := results.flatMap errorLines
    if failed = 0 then
      ⟨none, output ++ [s!"All {total} board definition(s) valid"], errors, tree⟩
    else
      ⟨some s!"{failed} of {total} board definition(s) failed validation", output, errors,
        tree⟩

end Pinout.Command.Check
