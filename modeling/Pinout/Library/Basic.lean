import Pinout.Capability.Reading
import Pinout.Digest.Framing
import Pinout.File.Tree
import Pinout.Mcu
import Pinout.Named

/-! Where capability tables are found. A library has a root directory and, for some
microcontrollers, places of its own that come before the usual ones. The first place
that holds a file decides, whatever that file turns out to be. -/

set_option autoImplicit false

namespace Pinout

/-- A library of capability tables. The places of a microcontroller stand under its
canonical name. -/
structure Library where
  root : File.Path
  places : List (String × List File.Path)

namespace Library

def tableFile : File.Path :=
  ⟨"PeripheralPins.c"⟩

/-- Why no table comes from a library. -/
inductive Fault where
  | unknownMcu (name : String)
  | notFound (mcu : String) (tried : List File.Path)
  | empty (path : File.Path)
  | unreadable (fault : File.Fault)
deriving DecidableEq

def Fault.message : Fault → String
  | .unknownMcu name => Mcu.unknownMessage name
  | .notFound mcu tried =>
    let places :=
      if tried.isEmpty then "no candidate paths"
      else String.intercalate ", " (tried.map (·.text))
    s!"no capability table for {mcu} (tried: {places})"
  | .empty path => s!"{path} contains no PinMap sections"
  | .unreadable fault => s!"I/O error: {fault.message}"

def Fault.account (fault : Fault) : String :=
  match fault with
  | .unreadable cause => s!"{fault.message}: {cause.message}"
  | _ => fault.message

/-- A library without places of its own. -/
def atRoot (root : File.Path) : Library :=
  ⟨root, []⟩

def placesOf (library : Library) (mcu : String) : List File.Path :=
  (Named.get? library.places mcu).getD []

def register (library : Library) (name : String) (paths : List File.Path) :
    Except Fault Library :=
  match Mcu.normalize? name with
  | none => .error (.unknownMcu name)
  | some mcu =>
    .ok { library with
      places := Named.put mcu (library.placesOf mcu ++ paths) library.places }

/-- Every microcontroller that is supported or has places, sorted. -/
def known (library : Library) : List String :=
  let names := Mcu.builtin.map (·.1) ++ library.places.map (·.1)
  (names.foldl (fun sorted name => Named.put name () sorted) []).map (·.1)

/-- Where to look for the table of a canonical name, in order: the places of its own,
the directories of a supported name, and the directory that bears the name. -/
def searchOrder (library : Library) (mcu : String) : List File.Path :=
  (library.placesOf mcu).map library.root.join ++
    ((Mcu.builtinDirectories mcu).map fun directory =>
      (library.root.join ⟨directory⟩).join tableFile) ++
    [(library.root.join ⟨mcu⟩).join tableFile]

/-- One more path, unless it is there already in some spelling. -/
def addPath (paths : List File.Path) (path : File.Path) : List File.Path :=
  if paths.any path.same then paths else paths ++ [path]

/-- The paths to look at for a microcontroller, each once. -/
def candidates (library : Library) (name : String) : Except Fault (List File.Path) :=
  match Mcu.normalize? name with
  | none => .error (.unknownMcu name)
  | some mcu => .ok ((library.searchOrder mcu).foldl addPath [])

/-- A table, what was found while reading it, where it was, and the digest of its text. -/
structure Loaded where
  table : Capability.Table
  issues : List Capability.Issue
  path : File.Path
  digest : List UInt8

def loadFile (tree : File.Tree) (mcu : String) (path : File.Path) : Except Fault Loaded :=
  if tree.isFile path then
    match tree.readText path with
    | .error fault => .error (.unreadable fault)
    | .ok text =>
      let parsed := Capability.parse mcu text
      if parsed.table.sections.isEmpty then .error (.empty path)
      else .ok ⟨parsed.table, parsed.issues, path, Digest.ofParts [text.toUTF8.toList]⟩
  else .error (.notFound mcu [path])

/-- Load the table of a microcontroller from the first candidate that is a file. -/
def load (library : Library) (tree : File.Tree) (name : String) : Except Fault Loaded :=
  match Mcu.normalize? name with
  | none => .error (.unknownMcu name)
  | some mcu =>
    let tried := (library.searchOrder mcu).foldl addPath []
    match tried.find? fun path => tree.isFile path with
    | none => .error (.notFound mcu tried)
    | some path => loadFile tree mcu path

end Library

end Pinout
