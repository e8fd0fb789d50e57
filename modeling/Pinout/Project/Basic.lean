import Pinout.Library.Basic
import Pinout.Project.Configuration

/-! Projects: a directory and the configuration that holds there. The configuration is
looked for upward; without one, everything has its standard value. -/

set_option autoImplicit false

namespace Pinout

/-- A project. Paths in its configuration are seen from its directory. -/
structure Project where
  directory : File.Path
  configuration : Project.Configuration

namespace Project

def configurationFile : File.Path :=
  ⟨"pinmux.toml"⟩

def tablesRoot (project : Project) : File.Path :=
  project.directory.join ⟨project.configuration.tables.getD "tables"⟩

/-- A name in a configuration that is not one of a microcontroller. -/
structure NameFault where
  name : String
  cause : Library.Fault
deriving DecidableEq

def NameFault.message (fault : NameFault) : String :=
  s!"[mcu.{fault.name}] in {configurationFile}: {fault.cause.message}"

def registerAll : Library → List (String × List String) → Except NameFault Library
  | library, [] => .ok library
  | library, (name, files) :: rest =>
    match library.register name (files.map File.Path.mk) with
    | .error cause => .error ⟨name, cause⟩
    | .ok library => registerAll library rest

/-- The library of a project, under its own directory of tables or another one. -/
def library (project : Project) (tables : Option File.Path) : Except NameFault Library :=
  registerAll (.atRoot (tables.getD project.tablesRoot)) project.configuration.places

/-- Where the header of a board definition goes when nobody says where: to the output
directory, or beside the definition. -/
def defaultOutput (project : Project) (input : File.Path) : File.Path :=
  let name := input.fileStem?.getD "board" ++ ".h"
  match project.configuration.output with
  | some directory => (project.directory.join ⟨directory⟩).join ⟨name⟩
  | none => input.withFileName name

/-- Why a configuration file that is there gives no configuration. -/
inductive SearchFault where
  | unreadable (path : File.Path)
  | malformed (path : File.Path)
deriving DecidableEq

def SearchFault.message : SearchFault → String
  | .unreadable path => s!"reading {path}"
  | .malformed path => s!"parsing {path}"

def Configuration.read (tree : File.Tree) (path : File.Path) : Except SearchFault Configuration :=
  match tree.readText path with
  | .error _ => .error (.unreadable path)
  | .ok text =>
    match Configuration.ofText? text with
    | none => .error (.malformed path)
    | some configuration => .ok configuration

/-- The nearest directory with a configuration, from the given one upward. -/
def find (tree : File.Tree) (start : File.Path) : Except SearchFault (Option Project) :=
  match start.ancestors.find? fun directory =>
      tree.isFile (directory.join configurationFile) with
  | none => .ok none
  | some directory =>
    (Configuration.read tree (directory.join configurationFile)).map fun found =>
      some ⟨directory, found⟩

end Project

end Pinout
