import Pinout.Command.Line
import Pinout.Command.Survey

/-! The program. It takes what a command looks at from the disk, carries the command
out, and puts on the disk what the command changed. -/

set_option autoImplicit false

namespace Pinout.Disk

def textOf (location : File.Location) : String :=
  "/" ++ String.intercalate "/" location

/-- What stands at a location, if it can be read. -/
def node? (location : File.Location) : IO (Option File.Node) := do
  let path := (← IO.currentDir) / textOf location
  if ← path.isDir then
    return some .directory
  else
    try
      return some (.file (← IO.FS.readBinFile path).toList)
    catch _ =>
      return none

/-- The location of a path, dots taken at their word. -/
def locationOf (tree : File.Tree) (path : File.Path) : File.Location :=
  path.pieces.foldl (fun location piece =>
    if File.Path.isSilent piece then location
    else if piece = ".." then location.dropLast
    else location ++ [piece]) (tree.origin path)

def takeLocation (tree : File.Tree) (location : File.Location) : IO File.Tree :=
  let places := (List.range (location.length + 1)).map location.take
  places.foldlM (fun tree place => do
    if (tree.node? place).isSome then
      return tree
    else
      match ← node? place with
      | none => return tree
      | some node => return tree.put place node) tree

def take (tree : File.Tree) (paths : List File.Path) : IO File.Tree :=
  paths.foldlM (fun tree path => takeLocation tree (locationOf tree path)) tree

/-- Put what has changed on the disk, directories before what is in them. -/
def give (before after : File.Tree) : IO Unit := do
  let changed := after.nodes.filter fun (location, node) => before.node? location != some node
  let ordered := changed.mergeSort fun left right => left.1.length ≤ right.1.length
  for (location, node) in ordered do
    match node with
    | .directory => IO.FS.createDirAll (textOf location)
    | .file content => IO.FS.writeBinFile (textOf location) ⟨content.toArray⟩

def perform (request : Command.Request) : IO UInt32 := do
  let working : File.Path := ⟨(← IO.currentDir).toString⟩
  let bare : File.Tree := ⟨[], []⟩
  let start : File.Tree := { bare with working := locationOf bare working }
  let tree ← take start (working.ancestors.map (·.join Project.configurationFile))
  match Project.find tree working with
  | .error fault =>
    IO.eprintln s!"error: {fault.message}"
    return 1
  | .ok found =>
    let project := found.getD ⟨working, {}⟩
    let tree ← take tree (request.inputs ++ request.outputs project)
    let tree ← take tree (request.tablePaths project tree)
    let outcome := request.run project tree
    give tree outcome.tree
    IO.print (Command.Outcome.text outcome.output)
    IO.eprint (Command.Outcome.text outcome.errors)
    match outcome.failure with
    | none => return 0
    | some message =>
      IO.eprintln s!"error: {message}"
      return 1

end Pinout.Disk

def main (arguments : List String) : IO UInt32 := do
  match Pinout.Command.Request.ofLine arguments with
  | .error fault =>
    IO.eprintln s!"error: {fault.message}"
    return 2
  | .ok request => Pinout.Disk.perform request
