import Pinout.Board.Statement

/-! From the statements of a text to a board definition. Each part of the definition
is a reduction of the statements in line order: the last word counts, except that a
policy decides between two assignments of one resource, and a cleared resource
starts afresh. -/

set_option autoImplicit false

namespace Pinout.Board

/-- Which of two assignments of one resource counts. -/
inductive Policy where
  | lastWins
  | firstWins
  | reject
deriving DecidableEq

namespace Policy

def name : Policy → String
  | .lastWins => "last-wins"
  | .firstWins => "first-wins"
  | .reject => "reject"

def ofName? : String → Option Policy
  | "last-wins" => some .lastWins
  | "first-wins" => some .firstWins
  | "reject" => some .reject
  | _ => none

theorem ofName?_name (policy : Policy) : ofName? policy.name = some policy := by
  cases policy <;> rfl

end Policy

/-- A statement and its line. -/
structure Declaration where
  line : Nat
  statement : Statement
deriving DecidableEq

def addResource (policy : Policy) (resources : List Assignment)
    (declaration : Declaration) : List Assignment :=
  match declaration.statement with
  | .assign id pin =>
    let assignment : Assignment := ⟨id, pin, declaration.line⟩
    if resources.any fun earlier => earlier.id = id then
      match policy with
      | .lastWins => resources.map fun earlier =>
          if earlier.id = id then assignment else earlier
      | .firstWins | .reject => resources
    else resources ++ [assignment]
  | .clear id => resources.filter fun earlier => earlier.id ≠ id
  | _ => resources

def addTimer (timers : List Timer) (declaration : Declaration) : List Timer :=
  match declaration.statement with
  | .timer pin function =>
    let timer : Timer := ⟨pin, function, none, declaration.line⟩
    if timers.any fun earlier => earlier.pin = pin then
      timers.map fun earlier => if earlier.pin = pin then timer else earlier
    else timers ++ [timer]
  | _ => timers

def addSetting (settings : List Setting) (declaration : Declaration) : List Setting :=
  match declaration.statement with
  | .setting key value =>
    let setting : Setting := ⟨key, value, declaration.line⟩
    if settings.any fun earlier => earlier.key = key then
      settings.map fun earlier => if earlier.key = key then setting else earlier
    else settings ++ [setting]
  | _ => settings

def addMetadata (metadata : Metadata) (declaration : Declaration) : Metadata :=
  match declaration.statement with
  | .mcu name => { metadata with mcu := some name }
  | .boardName name => { metadata with boardName := some name }
  | .manufacturer name => { metadata with manufacturer := some name }
  | _ => metadata

/-- A note takes the place of an earlier one on its pin. -/
def addNote (notes : List (Pin × Advisory)) (declaration : Declaration) :
    List (Pin × Advisory) :=
  match declaration.statement with
  | .advise pin advisory => (pin, advisory) :: notes.filter fun note => note.1 ≠ pin
  | _ => notes

def noteOn? (notes : List (Pin × Advisory)) (pin : Pin) : Option Advisory :=
  (notes.find? fun note => note.1 = pin).map (·.2)

/-- Give the timers the notes on their pins. Each note is given away once. -/
def giveNotes : List (Pin × Advisory) → List Timer → List Timer
  | _, [] => []
  | notes, timer :: rest =>
    { timer with advisory := noteOn? notes timer.pin } ::
      giveNotes (notes.filter fun note => note.1 ≠ timer.pin) rest

def Declaration.hint? (declaration : Declaration) : Option Hint :=
  match declaration.statement with
  | .hint category variant => some ⟨category, variant, declaration.line⟩
  | _ => none

/-- The statement itself, when it is kept as it stands. -/
def Declaration.verbatim? (declaration : Declaration) : Option Verbatim :=
  match declaration.statement with
  | .verbatim keyword text => some ⟨keyword, text, declaration.line⟩
  | _ => none

def assemble (policy : Policy) (declarations : List Declaration) : Definition where
  resources := declarations.foldl (addResource policy) []
  timers := giveNotes (declarations.foldl addNote []) (declarations.foldl addTimer [])
  settings := declarations.foldl addSetting []
  hints := ⟨declarations.filterMap Declaration.hint?⟩
  verbatim := declarations.filterMap Declaration.verbatim?
  metadata := declarations.foldl addMetadata {}

def repeatedMessage (policy : Policy) (earlier later : Assignment) : String :=
  let id := later.id
  match policy with
  | .lastWins =>
    s!"{id} already assigned to {earlier.pin} on line {earlier.line}; " ++
      s!"the later assignment to {later.pin} wins"
  | .firstWins =>
    s!"{id} already assigned to {earlier.pin} on line {earlier.line}; " ++
      s!"ignoring the later assignment to {later.pin}"
  | .reject =>
    s!"{id} declared twice (lines {earlier.line} and {later.line}); keeping {earlier.pin}"

def repeatedResource (policy : Policy) (earlier later : Assignment) : Diagnostic where
  severity := if policy = .reject then .error else .warning
  finding := .duplicateResource
  message := repeatedMessage policy earlier later
  resource := some later.id
  pin := some later.pin
  line := some later.line

def repeatedTimer (earlier later : Timer) : Diagnostic where
  severity := .warning
  finding := .duplicateResource
  message :=
    s!"timer for {later.pin} already declared on line {earlier.line}; " ++
      s!"AF{later.function} from this line wins"
  pin := some later.pin
  line := some later.line

def repetition? (policy : Policy) (resources : List Assignment) (timers : List Timer)
    (declaration : Declaration) : Option Diagnostic :=
  match declaration.statement with
  | .assign id pin =>
    (resources.find? fun earlier => earlier.id = id).map fun earlier =>
      repeatedResource policy earlier ⟨id, pin, declaration.line⟩
  | .timer pin function =>
    (timers.find? fun earlier => earlier.pin = pin).map fun earlier =>
      repeatedTimer earlier ⟨pin, function, none, declaration.line⟩
  | _ => none

/-- The findings on repetitions, in line order, given what came before. -/
def repetitions (policy : Policy) :
    List Assignment → List Timer → List Declaration → List Diagnostic
  | _, _, [] => []
  | resources, timers, declaration :: rest =>
    (repetition? policy resources timers declaration).toList ++
      repetitions policy (addResource policy resources declaration)
        (addTimer timers declaration) rest

/-- A definition and everything found while reading it. -/
structure Parsed where
  board : Definition
  diagnostics : List Diagnostic
deriving DecidableEq

/-- The lines of a text with their numbers, from one on. -/
def numberedLines (text : String) : List (Nat × List Char) :=
  (Text.lines text.toList).zipIdx 1 |>.map fun (line, number) => (number, line)

def declarations (text : String) : List Declaration :=
  (numberedLines text).filterMap fun (number, line) =>
    (readLine line).statement.map fun statement => ⟨number, statement⟩

def lineIssues (text : String) : List Diagnostic :=
  (numberedLines text).flatMap fun (number, line) =>
    (readLine line).issues.map (Issue.diagnostic number)

theorem exists_line_of_mem_lineIssues {text : String} {found : Diagnostic}
    (member : found ∈ lineIssues text) :
    ∃ number line, (number, line) ∈ numberedLines text ∧
      ∃ issue ∈ (readLine line).issues, found = issue.diagnostic number := by
  obtain ⟨⟨number, line⟩, numbered, raised⟩ := List.mem_flatMap.mp member
  obtain ⟨issue, inside, rfl⟩ := List.mem_map.mp raised
  exact ⟨number, line, numbered, issue, inside, rfl⟩

/-- Read a board definition. Issues of lines come before repetitions. -/
def parse (policy : Policy) (text : String) : Parsed where
  board := assemble policy (declarations text)
  diagnostics := lineIssues text ++ repetitions policy [] [] (declarations text)

end Pinout.Board
