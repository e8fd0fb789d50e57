import Pinout.Command.Outcome
import Pinout.Project.Basic
import Pinout.Text.Numeral

/-! The list of microcontrollers and their tables. -/

set_option autoImplicit false

namespace Pinout.Command.Tables

def padEnd (width : Nat) (text : String) : String :=
  text ++ String.ofList (List.replicate (width - text.length) ' ')

def padStart (width : Nat) (text : String) : String :=
  String.ofList (List.replicate (width - text.length) ' ') ++ text

/-- The line on a microcontroller, or what is wrong with its table. -/
def line (library : Library) (tree : File.Tree) (mcu : String) : Except String String :=
  match library.load tree mcu with
  | .ok loaded =>
    let count := padStart 4 (Text.decimal loaded.table.entries.length)
    .ok s!"  {padEnd 12 mcu} {count} entries  {loaded.path.below library.root}"
  | .error (.notFound _ _) => .ok s!"  {padEnd 12 mcu} missing"
  | .error fault => .error s!"warning: {mcu}: {fault.message}"

def run (project : Project) (tree : File.Tree) (tables : Option File.Path) : Outcome :=
  match project.library tables with
  | .error fault => .failed tree fault.message
  | .ok library =>
    let lines := library.known.map (line library tree)
    { failure := none
      output := s!"Capability tables under {library.root}:" ::
        lines.filterMap fun line => line.toOption
      errors := lines.filterMap fun line =>
        match line with
        | .ok _ => none
        | .error warning => some warning
      tree }

end Pinout.Command.Tables
