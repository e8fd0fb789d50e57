import Pinout.Command.Basic

/-! The paths that a command looks at. A tree that is taken from a disk has to know
about these before the command is carried out; which tables matter is known only when
the board definitions are there. -/

set_option autoImplicit false

namespace Pinout.Command

def Request.inputs : Request → List File.Path
  | .convert request => [request.input]
  | .check request => request.inputs
  | .pins _ | .tables _ => []

def Request.outputs (project : Project) : Request → List File.Path
  | .convert request => [Convert.outputOf project request]
  | .check _ | .pins _ | .tables _ => []

def Request.tablesRoot? : Request → Option File.Path
  | .convert request => request.tables
  | .check request => request.tables
  | .pins request => request.tables
  | .tables root => root

def Request.mcus (project : Project) (tree : File.Tree) (library : Library) :
    Request → List String
  | .convert request => named [request.input] request.mcu
  | .check request => named request.inputs request.mcu
  | .pins request => [request.mcu]
  | .tables _ => library.known
where
  named (inputs : List File.Path) (mcu : Option String) : List String :=
    inputs.filterMap fun input =>
      match Manuscript.read project tree input with
      | .ok manuscript => manuscript.mcu? mcu
      | .error _ => none

def Request.tablePaths (request : Request) (project : Project) (tree : File.Tree) :
    List File.Path :=
  match project.library request.tablesRoot? with
  | .error _ => []
  | .ok library =>
    (request.mcus project tree library).flatMap fun mcu =>
      match library.candidates mcu with
      | .ok paths => paths
      | .error _ => []

end Pinout.Command
