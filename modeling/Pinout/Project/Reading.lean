import Pinout.Project.Key
import Pinout.Project.Moment
import Pinout.Project.Number
import Pinout.Project.Outline

/-! Reading of configuration texts, which are written in TOML: headings, assignments and
comments, with texts, flags, numbers, moments, lists and tables in braces as values. A
text that breaks a rule has no value at all. -/

set_option autoImplicit false

namespace Pinout.Project

/-- Characters of words: bare values that are not quoted and not bracketed. -/
def isWordChar (char : Char) : Bool :=
  isBare char || char == '+' || char == '.' || char == ':'

def Value.ofWord? (word : List Char) : Option Value :=
  if word = ['t', 'r', 'u', 'e'] then some (.flag true)
  else if word = ['f', 'a', 'l', 's', 'e'] then some (.flag false)
  else if Moment.isWord word then some (.moment (String.ofList word))
  else if Number.isReal word then some (.real (String.ofList word))
  else (Number.whole? word).map .number

/-- The value of the word in front. One blank may stand between a date and a clock. -/
def word? (chars : List Char) : Option (Value × List Char) :=
  let word := chars.takeWhile isWordChar
  let rest := chars.dropWhile isWordChar
  let clock := (rest.drop 1).takeWhile isWordChar
  if Moment.isDate word && rest.head? = some ' ' && Moment.isClock clock then
    some (.moment (String.ofList (word ++ ' ' :: clock)), (rest.drop 1).dropWhile isWordChar)
  else (Value.ofWord? word).map fun value => (value, rest)

mutual

/-- A value that may hold others within each other as deep as the first number says. The
fuel bounds the number of steps. -/
def value? : Nat → Nat → List Char → Option (Value × List Char)
  | depth + 1, fuel + 1, '[' :: rest =>
    (items? depth fuel rest).map fun (items, after) => (.list items, after)
  | depth + 1, fuel + 1, '{' :: rest => do
    let (pairs, after) ←
      match skipSpace rest with
      | '}' :: after => some ([], after)
      | _ => pairs? depth fuel rest
    let outline ← Outline.ofAssignments .empty pairs
    return (outline.root, after)
  | _, _, chars =>
    match quotation? chars with
    | some (text, after) => some (.text (String.ofList text), after)
    | none => word? chars

/-- The items of a list up to its closing bracket, with filler around them. A comma may
follow the last item. -/
def items? : Nat → Nat → List Char → Option (List Value × List Char)
  | _, 0, _ => none
  | depth, fuel + 1, chars => do
    match ← skipFiller false chars with
    | ']' :: rest => return ([], rest)
    | start =>
      let (value, after) ← value? depth fuel start
      match ← skipFiller false after with
      | ',' :: rest =>
        let (items, rest) ← items? depth fuel rest
        return (value :: items, rest)
      | ']' :: rest => return ([value], rest)
      | _ => none

/-- The assignments of a table in braces up to its closing brace, at least one. -/
def pairs? : Nat → Nat → List Char → Option (List (List String × Value) × List Char)
  | _, 0, _ => none
  | depth, fuel + 1, chars => do
    let (names, after) ← chain? chars
    match after with
    | '=' :: start =>
      let (value, rest) ← value? depth fuel (skipSpace start)
      match skipSpace rest with
      | ',' :: rest =>
        let (pairs, rest) ← pairs? depth fuel rest
        return ((names, value) :: pairs, rest)
      | '}' :: rest => return ([(names, value)], rest)
      | _ => none
    | _ => none

end

/-- What a line says: that a table follows, or the next table of a list, or that a name
has a value. -/
inductive Statement where
  | heading (names : List String)
  | nextHeading (names : List String)
  | assignment (names : List String) (value : Value)

def statement? (chars : List Char) : Option (Statement × List Char) := do
  match chars with
  | '[' :: '[' :: rest =>
    match ← chain? rest with
    | (names, ']' :: ']' :: after) => return (.nextHeading names, ← lineEnd? after)
    | _ => none
  | '[' :: rest =>
    match ← chain? rest with
    | (names, ']' :: after) => return (.heading names, ← lineEnd? after)
    | _ => none
  | _ =>
    match ← chain? chars with
    | (names, '=' :: start) =>
      let (value, rest) ← value? nestingLimit (chars.length + 1) (skipSpace start)
      return (.assignment names value, ← lineEnd? rest)
    | _ => none

/-- The statements of a text, as many as the fuel allows. -/
def statementsWithin : Nat → List Char → Option (List Statement)
  | 0, _ => none
  | fuel + 1, chars => do
    match ← skipFiller false chars with
    | [] => return []
    | start =>
      let (statement, rest) ← statement? start
      return statement :: (← statementsWithin fuel rest)

/-- The table that statements make. Assignments go to the table of the last heading. -/
def assemble : Outline → List String → List Statement → Option Outline
  | outline, _, [] => some outline
  | outline, _, .heading names :: rest => do assemble (← outline.declare names) names rest
  | outline, _, .nextHeading names :: rest => do
    assemble (← outline.declareNext names) names rest
  | outline, table, .assignment names value :: rest => do
    assemble (← outline.assign table names value) table rest

/-- The table of a text. A byte-order mark in front is skipped. -/
def Value.ofText? (text : String) : Option Value := do
  let chars := match text.toList with
    | '\uFEFF' :: rest => rest
    | chars => chars
  let statements ← statementsWithin (chars.length + 1) chars
  return (← assemble .empty [] statements).root

end Pinout.Project
