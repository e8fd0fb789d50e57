import Pinout.Board.Definition
import Pinout.Diagnostic
import Pinout.Pin.Spelling

/-! The grammar of one line of a board definition. A line yields at most one
statement, and the issues found in it; neither depends on any other line. Comments
are silent, except that two forms of them carry information. -/

set_option autoImplicit false

namespace Pinout.Board

/-- What one line says. -/
inductive Statement where
  | assign (id : ResourceId) (pin : Pin)
  | clear (id : ResourceId)
  | timer (pin : Pin) (function : UInt8)
  | advise (pin : Pin) (advisory : Advisory)
  | setting (key value : String)
  | hint (category variant : String)
  | mcu (name : String)
  | boardName (name : String)
  | manufacturer (name : String)
  | verbatim (keyword text : String)
deriving DecidableEq

/-- What is wrong with a line. -/
inductive Issue where
  | noBoardName
  | noManufacturer
  | unrecognized (text : String)
  | noDefineName
  | resourceForm
  | resourceTail (words : List String)
  | resourceType (word : String)
  | resourceIndex (word : String)
  | resourcePin (word : String) (id : ResourceId)
  | timerForm
  | timerPin (word : String)
  | timerFunction (word : String) (pin : Pin)
  | timerTail (words : List String) (pin : Pin)
  | settingForm
  | settingName (key : String)
deriving DecidableEq

namespace Issue

def message : Issue → String
  | .noBoardName => "board_name without a value"
  | .noManufacturer => "manufacturer_id without a value"
  | .unrecognized text => s!"unrecognized statement '{text}'"
  | .noDefineName => "#define without a name"
  | .resourceForm => "expected `resource <TYPE> <INDEX> <PIN>`"
  | .resourceTail words =>
    "ignoring trailing tokens after `resource`: " ++ " ".intercalate words
  | .resourceType word => s!"invalid resource type '{word}'"
  | .resourceIndex word =>
    s!"resource index '{word}' must be a positive number; assignment dropped"
  | .resourcePin word _ =>
    s!"pin token '{word}' is not a port letter followed by two digits; assignment dropped"
  | .timerForm => "expected `timer <PIN> AF<N>`"
  | .timerPin word =>
    s!"timer pin token '{word}' is not a port letter followed by two digits"
  | .timerFunction word _ =>
    s!"expected an alternate function `AF0`..`AF15`, found '{word}'"
  | .timerTail words _ =>
    "ignoring trailing tokens after `timer`: " ++ " ".intercalate words
  | .settingForm => "expected `set <KEY> = <VALUE>`"
  | .settingName key => s!"invalid setting name '{key}'"

def resource? : Issue → Option ResourceId
  | .resourcePin _ id => some id
  | _ => none

def pin? : Issue → Option Pin
  | .timerFunction _ pin | .timerTail _ pin => some pin
  | _ => none

def diagnostic (line : Nat) (issue : Issue) : Diagnostic where
  severity := .warning
  finding := .syntaxIssue
  message := issue.message
  resource := issue.resource?
  pin := issue.pin?
  line := some line

end Issue

/-- What reading a line gives. -/
structure Reading where
  statement : Option Statement
  issues : List Issue
deriving DecidableEq

namespace Reading

def silent : Reading := ⟨none, []⟩

def clean (statement : Statement) : Reading := ⟨some statement, []⟩

/-- A line without a statement, for one reason. -/
def refused (issue : Issue) : Reading := ⟨none, [issue]⟩

def noting (issue : Issue) (reading : Reading) : Reading :=
  { reading with issues := issue :: reading.issues }

end Reading

/-- Names start with an ASCII letter or an underscore, and go on with those and
digits. -/
def isIdentifier : List Char → Bool
  | [] => false
  | first :: rest => (first.isAlpha || first == '_') && rest.all Text.isNameChar

def pinToken? (word : List Char) : Option Pin :=
  (Pin.readBoardToken word).toOption

def readPlace (id : ResourceId) (word : List Char) : Reading :=
  if word.map Char.toUpper = ['N', 'O', 'N', 'E'] then .clean (.clear id)
  else
    match pinToken? word with
    | some pin => .clean (.assign id pin)
    | none => .refused (.resourcePin (String.ofList word) id)

def readTriple (type index place : List Char) : Reading :=
  if !isIdentifier type then .refused (.resourceType (String.ofList type))
  else
    match Text.byte? index with
    | none => .refused (.resourceIndex (String.ofList index))
    | some number =>
      if number = 0 then .refused (.resourceIndex (String.ofList index))
      else readPlace ⟨Resource.ofKeyword (String.ofList type), number⟩ place

/-- Read the words after `resource`. Further words are noted and ignored. -/
def readResource : List (List Char) → Reading
  | [type, index, place] => readTriple type index place
  | type :: index :: place :: tail =>
    (readTriple type index place).noting (.resourceTail (tail.map String.ofList))
  | _ => .refused .resourceForm

def functionNumber? : List Char → Option UInt8
  | first :: second :: digits =>
    if [first, second].map Char.toUpper = ['A', 'F'] then
      (Text.byte? digits).filter (· ≤ 15)
    else none
  | _ => none

/-- Read the words after `timer`. Further words are noted only when the rest of the
statement is right. -/
def readTimer : List (List Char) → Reading
  | place :: function :: tail =>
    match pinToken? place with
    | none => .refused (.timerPin (String.ofList place))
    | some pin =>
      match functionNumber? function with
      | none => .refused (.timerFunction (String.ofList function) pin)
      | some number =>
        match tail with
        | [] => .clean (.timer pin number)
        | _ => (Reading.clean (.timer pin number)).noting
            (.timerTail (tail.map String.ofList) pin)
  | _ => .refused .timerForm

/-- Read what follows `set`: a name, an equals sign, and a value that may be empty. -/
def readSetting (rest : List Char) : Reading :=
  match Text.cut? ['='] rest with
  | none => .refused .settingForm
  | some (before, after) =>
    let key := Text.trim before
    if isIdentifier key then
      .clean (.setting (String.ofList (key.map Char.toLower)) (String.ofList (Text.trim after)))
    else .refused (.settingName (String.ofList key))

/-- Read a define, given the whole line and what follows its first word. A name that
is no chip hint is kept as it stands. -/
def readDefine (text rest : List Char) : Reading :=
  match Text.words rest with
  | [] => .refused .noDefineName
  | name :: _ =>
    match splitDefine? name with
    | some (category, variant) => .clean (.hint category variant)
    | none => .clean (.verbatim "#define" (String.ofList text))

def headMark : List Char :=
  ['B', 'e', 't', 'a', 'f', 'l', 'i', 'g', 'h', 't']

/-- The first word of the head comment that is a full microcontroller name. -/
def mcuIn? (body : List Char) : Option String :=
  ((body.splitOnP fun char => !char.isAlphanum).find? fun word =>
    ['S', 'T', 'M', '3', '2'].isPrefixOf word && word.length > 5).map String.ofList

/-- The advice in a note, after the colon: a timer, and a channel whose digits may
be followed by anything. -/
def readAdvisory? (detail : List Char) : Option Advisory :=
  match Text.words detail with
  | timer :: channel :: _ => do
    if ['T', 'I', 'M'].isPrefixOf timer then
      let rest ← Text.dropStart? ['C', 'H'] channel
      let number ← Text.byte? (rest.takeWhile Char.isDigit)
      return ⟨String.ofList timer, number⟩
    else none
  | _ => none

def readNote? (body : List Char) : Option (Pin × Advisory) := do
  let rest ← Text.dropStart? ['p', 'i', 'n', ' '] body
  let (token, detail) ← Text.cut? [':'] rest
  let pin ← pinToken? (Text.trim token)
  let advisory ← readAdvisory? detail
  return (pin, advisory)

/-- Read a comment. It is never wrong. -/
def readComment (text : List Char) : Reading :=
  let body := Text.trim (text.dropWhile (· == '#'))
  if (Text.cut? headMark body).isSome then ⟨(mcuIn? body).map .mcu, []⟩
  else ⟨(readNote? body).map fun (pin, advisory) => .advise pin advisory, []⟩

/-- Read a line that is neither empty nor a comment. Keywords may be in any case. -/
def readStatement (text : List Char) : Reading :=
  let keyword := (text.takeWhile fun char => !Text.isBlank char).map Char.toLower
  let rest := Text.trim (text.dropWhile fun char => !Text.isBlank char)
  match String.ofList keyword with
  | "resource" => readResource (Text.words rest)
  | "timer" => readTimer (Text.words rest)
  | "set" => readSetting rest
  | "board_name" =>
    match Text.words rest with
    | name :: _ => .clean (.boardName (String.ofList name))
    | [] => .refused .noBoardName
  | "manufacturer_id" =>
    match Text.words rest with
    | name :: _ => .clean (.manufacturer (String.ofList name))
    | [] => .refused .noManufacturer
  | name =>
    if isIdentifier keyword then .clean (.verbatim name (String.ofList text))
    else .refused (.unrecognized (String.ofList text))

/-- What follows the word `#define`, if the line starts with that word. -/
def afterDefine? (text : List Char) : Option (List Char) :=
  match Text.dropStart? ['#', 'd', 'e', 'f', 'i', 'n', 'e'] text with
  | some [] => some []
  | some (char :: rest) => if Text.isBlank char then some (char :: rest) else none
  | none => none

/-- The text of a line without byte-order marks in front and blanks around it. -/
def lineText (line : List Char) : List Char :=
  Text.trim (line.dropWhile (· == '\uFEFF'))

def readLine (line : List Char) : Reading :=
  match lineText line with
  | [] => .silent
  | '#' :: rest =>
    match afterDefine? ('#' :: rest) with
    | some tail => readDefine ('#' :: rest) tail
    | none => readComment ('#' :: rest)
  | text => readStatement text

end Pinout.Board
