import Pinout.Command.Examination
import Pinout.Command.Outcome
import Pinout.File.Delivery
import Pinout.Header.Document
import Pinout.Report.Document

/-! Conversion of one board definition to one header. First everything is read and
examined, which changes nothing. Then the header is written, unless there are errors
that nobody chose to overlook. Last comes the report. -/

set_option autoImplicit false

namespace Pinout.Command

open Report (Document)

/-- How a conversion reports. -/
inductive Style where
  | human
  | json
deriving DecidableEq

/-- The style of a name; people are served when none is given. -/
def Style.ofName? : Option String → Option Style
  | none | some "human" => some .human
  | some "json" => some .json
  | some _ => none

namespace Convert

/-- What a conversion is asked for. -/
structure Request where
  input : File.Path
  output : Option File.Path := none
  mcu : Option String := none
  tables : Option File.Path := none
  force : Bool := false
  report : Option String := none

/-- Why a conversion comes to nothing. -/
inductive Refusal where
  | unknownReport (name : String)
  | missing (input : File.Path)
  | unreadable (input : File.Path) (fault : File.Fault)
  | unnamedMcu (input : File.Path)
  | badName (fault : Project.NameFault)
  | noTable (mcu : String) (fault : Library.Fault)
deriving DecidableEq

def Refusal.message : Refusal → String
  | .unknownReport name => s!"unknown report format: {name} (expected human or json)"
  | .missing input => s!"board definition not found: {input}"
  | .unreadable input fault => unreadableMessage input fault
  | .unnamedMcu input =>
    s!"{input} does not name its MCU; pass --mcu (e.g. --mcu STM32F411)"
  | .badName fault => fault.message
  | .noTable mcu fault => noTableMessage mcu fault

/-- Read and examine everything that a conversion needs. -/
def examine (project : Project) (tree : File.Tree) (request : Request) :
    Except Refusal Examination := do
  let input := request.input
  if !tree.isFile input then
    throw (.missing input)
  let manuscript ← (Manuscript.read project tree input).mapError (.unreadable input)
  let some mcu := manuscript.mcu? request.mcu
    | throw (.unnamedMcu input)
  let library ← (project.library request.tables).mapError .badName
  let loaded ← (library.load tree mcu).mapError (.noTable mcu)
  return .of manuscript.text manuscript.parsed loaded

def headerOf (request : Request) (examination : Examination) : String :=
  Header.generate examination.board
    { source := request.input.fileName?
      digest := some (Digest.ofParts
        [examination.text.toUTF8.toList, examination.loaded.digest]) }

def outputOf (project : Project) (request : Request) : File.Path :=
  request.output.getD (project.defaultOutput request.input)

def writes (project : Project) (request : Request) (examination : Examination) : Bool :=
  !examination.summary.hasErrors || request.force || project.configuration.force

/-- The tree after the header was written, if it is. -/
def deliver (project : Project) (tree : File.Tree) (request : Request)
    (examination : Examination) : Except (File.DeliveryFault × File.Tree) File.Tree :=
  if writes project request examination then
    tree.deliver (outputOf project request) (headerOf request examination)
  else .ok tree

/-- The lines of a report for people, without the findings. -/
def summaryLines (project : Project) (request : Request) (examination : Examination) :
    List String :=
  let metadata := examination.definition.metadata
  let loaded := examination.loaded
  ["Board:        " ++ metadata.boardName.getD "(unnamed)",
    "Manufacturer: " ++ metadata.manufacturer.getD "(unknown)",
    s!"MCU:          {loaded.table.mcu} ({loaded.path})"] ++
    (if writes project request examination then
      ["Generated " ++ (outputOf project request).text]
    else []) ++
    [examination.summary.render]

/-- The lines on the flaws of a table, each after the path of the table. -/
def issueLines (loaded : Library.Loaded) : List String :=
  loaded.issues.map fun issue => s!"warning: {loaded.path}: {issue.render}"

def findingDocument (diagnostic : Diagnostic) : Document :=
  let known {α : Type} (name : String) (write : α → Document) :
      Option α → List (String × Document)
    | none => []
    | some value => [(name, write value)]
  .ofMembers
    ([("severity", .text diagnostic.severity.name),
      ("kind", .text diagnostic.finding.name),
      ("message", .text diagnostic.message)] ++
      known "resource" (fun id : ResourceId =>
        .ofMembers [("resource", .text id.resource.keyword), ("index", .number id.index.toNat)])
        diagnostic.resource ++
      known "pin" (fun pin : Pin => .text pin.boardToken) diagnostic.pin ++
      known "line" .number diagnostic.line)

def document (project : Project) (request : Request) (examination : Examination) :
    Document :=
  let metadata := examination.definition.metadata
  let loaded := examination.loaded
  let summary := examination.summary
  .ofMembers
    [("input", .text request.input.text),
      ("output", .text (outputOf project request).text),
      ("written", .flag (writes project request examination)),
      ("board", .ofText? metadata.boardName),
      ("manufacturer", .ofText? metadata.manufacturer),
      ("mcu", .text loaded.table.mcu),
      ("table", .text loaded.path.text),
      ("table_issues", .list (loaded.issues.map fun issue => .text issue.render)),
      ("summary", .ofMembers
        [("errors", .number summary.errors), ("warnings", .number summary.warnings)]),
      ("diagnostics", .list (examination.diagnostics.map findingDocument))]

/-- What a finished conversion prints, for the standard stream and for errors. -/
def report (style : Style) (project : Project) (request : Request)
    (examination : Examination) : List String × List String :=
  match style with
  | .human =>
    (summaryLines project request examination,
      issueLines examination.loaded ++ findingLines request.input examination.diagnostics)
  | .json => ([(document project request examination).render], [])

def verdict (project : Project) (request : Request) (examination : Examination) :
    Option String :=
  let summary := examination.summary
  let input := request.input
  if !summary.hasErrors then none
  else if writes project request examination then
    some (s!"{summary.errors} error(s) in {input}; header written anyway to " ++
      (outputOf project request).text)
  else
    some (s!"{summary.errors} error(s) in {input}; " ++
      "no header written (use --force to write anyway)")

def run (project : Project) (tree : File.Tree) (request : Request) : Outcome :=
  match Style.ofName? request.report with
  | none => .failed tree (Refusal.unknownReport (request.report.getD "")).message
  | some style =>
    match examine project tree request with
    | .error refusal => .failed tree refusal.message
    | .ok examination =>
      match deliver project tree request examination with
      | .error (fault, left) =>
        .failed left s!"writing header for {request.input}: {fault.account}"
      | .ok written =>
        let (output, errors) := report style project request examination
        ⟨verdict project request examination, output, errors, written⟩

end Convert

end Pinout.Command
