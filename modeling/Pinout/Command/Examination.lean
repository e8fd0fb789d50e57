import Pinout.Library.Basic
import Pinout.Project.Basic
import Pinout.Resolution.Board

/-! Examination of a board definition: it is read, its microcontroller is named by the
caller or by itself, and it is resolved against the table of that microcontroller. -/

set_option autoImplicit false

namespace Pinout.Command

/-- A board definition, the table that it was held against, and all that came of it. -/
structure Examination where
  text : String
  definition : Board.Definition
  loaded : Library.Loaded
  board : Resolution.Resolved
  diagnostics : List Diagnostic

def Examination.of (text : String) (parsed : Board.Parsed) (loaded : Library.Loaded) :
    Examination :=
  let resolution := Resolution.resolve parsed.board loaded.table {}
  { text
    definition := parsed.board
    loaded
    board := resolution.board
    diagnostics := parsed.diagnostics ++ resolution.diagnostics }

def Examination.summary (examination : Examination) : Diagnostic.Summary :=
  Diagnostic.summarize examination.diagnostics

/-- A definition as text and as it was read. -/
structure Manuscript where
  text : String
  parsed : Board.Parsed

def Manuscript.read (project : Project) (tree : File.Tree) (input : File.Path) :
    Except File.Fault Manuscript :=
  (tree.readText input).map fun text =>
    ⟨text, Board.parse project.configuration.policy text⟩

/-- The microcontroller that the caller names, or else the definition. -/
def Manuscript.mcu? (manuscript : Manuscript) (mcu : Option String) : Option String :=
  mcu <|> manuscript.parsed.board.metadata.mcu

def unreadableMessage (input : File.Path) (fault : File.Fault) : String :=
  s!"reading {input}: {fault.message}"

def noTableMessage (mcu : String) (fault : Library.Fault) : String :=
  s!"loading capability table for {mcu}: {fault.account}"

def findingLines (source : File.Path) (diagnostics : List Diagnostic) : List String :=
  diagnostics.map fun diagnostic => s!"{source}: {diagnostic.render}"

end Pinout.Command
