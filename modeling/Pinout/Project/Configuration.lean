import Pinout.Board.Assembly
import Pinout.Project.Reading

/-! Configurations of projects. All that is left out has a standard value. -/

set_option autoImplicit false

namespace Pinout.Project

/-- A configuration: the directory of the tables, table files by microcontroller as it
is spelled there, how repeated resources are treated, where headers go, and whether
they are written in spite of errors. -/
structure Configuration where
  tables : Option String := none
  places : List (String × List String) := []
  policy : Board.Policy := .lastWins
  output : Option String := none
  force : Bool := false

def policy? (rigour : Rigour) (value : Value) : Option Board.Policy := do
  Board.Policy.ofName? (← value.choice? rigour)

def files? (rigour : Rigour) (value : Value) : Option (List String) := do
  let fields ← value.fields? rigour ["tables"]
  Value.field fields "tables" [] fun files => do (← files.items?).mapM Value.text?

def places? (rigour : Rigour) (value : Value) : Option (List (String × List String)) := do
  (← value.entries?).mapM fun (name, entry) => do return (name, ← files? rigour entry)

def Configuration.ofValue? (rigour : Rigour) (value : Value) : Option Configuration := do
  let parts ← value.fields? rigour ["tables", "mcu", "parser", "output"]
  let directory (names : List String) (part : Value) : Option (Option String) := do
    Value.field (← part.fields? rigour names) "dir" none (Value.optional Value.text?)
  let tables ← Value.field parts "tables" none (directory ["dir"])
  let places ← Value.field parts "mcu" [] (places? rigour)
  let policy ← Value.field parts "parser" .lastWins fun part => do
    Value.field (← part.fields? rigour ["duplicates"]) "duplicates" .lastWins (policy? rigour)
  let output ← Value.field parts "output" none (directory ["dir", "force"])
  let force ← Value.field parts "output" false fun part => do
    Value.field (← part.fields? rigour ["dir", "force"]) "force" false Value.flag?
  return { tables, places, policy, output, force }

/-- The configuration in a text, which is read leniently. -/
def Configuration.ofText? (text : String) : Option Configuration := do
  Configuration.ofValue? .lenient (← Value.ofText? text)

end Pinout.Project
