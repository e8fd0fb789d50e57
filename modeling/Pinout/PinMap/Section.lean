import Pinout.PinMap.Comment
import Pinout.Text.Case
import Pinout.Text.Split

/-! The sections of a capability table: initialized arrays named `PinMap_…`, whose
rows are groups of fields in braces. The scan sees only this shape, and goes on
after anything else. Lines are counted from one. -/

set_option autoImplicit false

namespace Pinout.PinMap

/-- A row: its fields, and the line of its opening brace. -/
structure Row where
  line : Nat
  fields : List String
deriving DecidableEq

/-- A section, named without its mark. -/
structure Section where
  name : String
  rows : List Row
deriving DecidableEq

/-- What is wrong with the shape of the text. -/
inductive Flaw where
  | openSection (name : String)
  | strayText (text : String)
  | openRow
deriving DecidableEq

def Flaw.message : Flaw → String
  | .openSection name => s!"PinMap_{name} is never closed"
  | .strayText text => s!"unexpected text between rows: '{text}'"
  | .openRow => "row is never closed"

def lineFeeds (text : List Char) : Nat :=
  text.count '\n'

/-- What stands before and after the brace that closes as many open groups as given,
and one more. -/
def closing? : Nat → List Char → Option (List Char × List Char)
  | _, [] => none
  | depth, char :: rest =>
    let within (depth : Nat) := (closing? depth rest).map fun (before, after) =>
      (char :: before, after)
    if char = '{' then within (depth + 1)
    else if char = '}' then
      match depth with
      | 0 => some ([], rest)
      | outer + 1 => within outer
    else within depth

section Closing

variable {depth : Nat} {rest : List Char}

theorem closing?_open : closing? depth ('{' :: rest) =
    (closing? (depth + 1) rest).map fun (before, after) => ('{' :: before, after) := by
  cases depth <;> rfl

theorem closing?_close_succ : closing? (depth + 1) ('}' :: rest) =
    (closing? depth rest).map fun (before, after) => ('}' :: before, after) :=
  rfl

theorem closing?_other {char : Char} (opens : char ≠ '{') (shuts : char ≠ '}') :
    closing? depth (char :: rest) =
      (closing? depth rest).map fun (before, after) => (char :: before, after) := by
  cases depth <;> simp [closing?, opens, shuts]

end Closing

theorem append_of_closing? {depth : Nat} {text before after : List Char}
    (closed : closing? depth text = some (before, after)) :
    before ++ '}' :: after = text := by
  induction text generalizing depth before with
  | nil => simp [closing?] at closed
  | cons char rest ih =>
      have step {inner : Nat}
          (found : (closing? inner rest).map (fun (left, right) => (char :: left, right)) =
            some (before, after)) : before ++ '}' :: after = char :: rest := by
        obtain ⟨⟨left, right⟩, deeper, same⟩ := Option.map_eq_some_iff.mp found
        cases same
        simp [ih deeper]
      simp only [closing?] at closed
      split at closed
      · exact step closed
      · split at closed
        · rename_i brace
          subst brace
          cases depth with
          | zero =>
              cases closed
              rfl
          | succ outer => exact step closed
        · exact step closed

/-- Cut at the commas that stand in no parentheses or braces. The depth may fall
below zero, and then no comma cuts until it is zero again. -/
def cutAtCommas (depth : Int) : List Char → List (List Char)
  | [] => [[]]
  | char :: rest =>
    if char = '(' ∨ char = '{' then (cutAtCommas (depth + 1) rest).modifyHead (char :: ·)
    else if char = ')' ∨ char = '}' then
      (cutAtCommas (depth - 1) rest).modifyHead (char :: ·)
    else if char = ',' ∧ depth = 0 then [] :: cutAtCommas depth rest
    else (cutAtCommas depth rest).modifyHead (char :: ·)

/-- The fields of a row, trimmed. A blank field counts unless it is the last one. -/
def fields (text : List Char) : List (List Char) :=
  let pieces := (cutAtCommas 0 text).map Text.trim
  if pieces.getLast? = some [] then pieces.dropLast else pieces

/-- The arguments of a macro call, of which only the parentheses are looked at. -/
def callArguments? (field : List Char) : Option (List (List Char)) := do
  let (_, inner) ← Text.cut? ['('] field
  let bare := Text.trimEnd inner
  if bare.getLast? = some ')' then some (fields bare.dropLast) else none

def isSeparator (char : Char) : Bool :=
  Text.isBlank char || char == ','

/-- A text without the separators at both ends. -/
def trimSeparators (text : List Char) : List Char :=
  ((text.dropWhile isSeparator).reverse.dropWhile isSeparator).reverse

/-- What a scan finds. -/
structure Found (α : Type) where
  items : List α
  flaws : List (Nat × Flaw)

/-- The flaw of a stretch between rows that begins on the given line. -/
def strayFlaw (line : Nat) (stretch : List Char) : List (Nat × Flaw) :=
  match trimSeparators stretch with
  | [] => []
  | stray => [(line, .strayText (String.ofList stray))]

/-- The rows of a section's body that begins on the given line. What follows the
last row is not looked at. -/
def scanRows (line : Nat) (body : List Char) : Found Row :=
  match _opened : Text.cut? ['{'] body with
  | none => ⟨[], []⟩
  | some (stretch, inside) =>
    let start := line + lineFeeds stretch
    match _closed : closing? 0 inside with
    | none => ⟨[], strayFlaw line stretch ++ [(start, .openRow)]⟩
    | some (row, rest) =>
      let more := scanRows (start + lineFeeds row) rest
      ⟨⟨start, (fields row).map String.ofList⟩ :: more.items,
        strayFlaw line stretch ++ more.flaws⟩
termination_by body.length
decreasing_by
  have whole := congrArg List.length (Text.append_of_cut? _opened)
  have part := congrArg List.length (append_of_closing? _closed)
  simp only [List.length_append, List.length_cons, List.length_nil] at whole part
  omega

/-- What follows the opening brace of an initializer, if the text after a section's
name starts with one: brackets with anything in them, an equals sign, a brace. -/
def initializer? (text : List Char) : Option (List Char) := do
  let bracket ← Text.dropStart? ['['] (Text.trimStart text)
  let (_, afterBracket) ← Text.cut? [']'] bracket
  let sign ← Text.dropStart? ['='] (Text.trimStart afterBracket)
  Text.dropStart? ['{'] (Text.trimStart sign)

theorem length_initializer?_le {text body : List Char}
    (opened : initializer? text = some body) : body.length ≤ text.length := by
  simp only [initializer?, Option.bind_eq_bind, Option.bind_eq_some_iff, Prod.exists,
    Text.dropStart?_eq_some_iff] at opened
  obtain ⟨bracket, first, _, afterBracket, second, sign, third, fourth⟩ := opened
  have trimmed (chars : List Char) : (Text.trimStart chars).length ≤ chars.length :=
    (List.dropWhile_sublist _).length_le
  have inner := congrArg List.length (Text.append_of_cut? second)
  have outer := trimmed text
  have middle := trimmed afterBracket
  have last := trimmed sign
  rw [first] at outer
  rw [third] at middle
  rw [fourth] at last
  simp only [List.length_append, List.length_cons, List.length_nil] at inner outer middle last
  omega

def sectionMark : List Char :=
  ['P', 'i', 'n', 'M', 'a', 'p', '_']

/-- An initialized array as it stands in the text: its name without the mark, the line
on which its body begins, and the body between the outer braces. -/
structure Block where
  name : String
  line : Nat
  body : List Char
deriving DecidableEq

/-- The arrays of stripped text that begins on the given line. A name without an
initializer is passed over; an array that is never closed ends the search. -/
def blocksFrom (line : Nat) (text : List Char) : Found Block :=
  match _marked : Text.cut? sectionMark text with
  | none => ⟨[], []⟩
  | some (before, after) =>
    let nameLine := line + lineFeeds before
    let name := String.ofList (after.takeWhile Text.isNameChar)
    match _opened : initializer? (after.dropWhile Text.isNameChar) with
    | none => blocksFrom nameLine (after.dropWhile Text.isNameChar)
    | some inside =>
      let bodyLine := nameLine + (lineFeeds after - lineFeeds inside)
      match _closed : closing? 0 inside with
      | none => ⟨[], [(nameLine, .openSection name)]⟩
      | some (body, rest) =>
        let more := blocksFrom (bodyLine + lineFeeds body) rest
        ⟨⟨name, bodyLine, body⟩ :: more.items, more.flaws⟩
termination_by text.length
decreasing_by
  all_goals
    have whole := congrArg List.length (Text.append_of_cut? _marked)
    have named := (List.dropWhile_sublist (l := after) Text.isNameChar).length_le
    simp only [List.length_append, sectionMark, List.length_cons, List.length_nil] at whole
  · omega
  · have headed := length_initializer?_le _opened
    have part := congrArg List.length (append_of_closing? _closed)
    simp only [List.length_append, List.length_cons] at part
    omega

def blocks (text : String) : Found Block :=
  blocksFrom 1 (strip text.toList)

def Block.rows (block : Block) : Found Row :=
  scanRows block.line block.body

/-- The sections of a text. The flaws of rows come section by section, before that of an
array that is never closed. -/
def scan (text : String) : Found Section :=
  let found := blocks text
  ⟨found.items.map fun block => ⟨block.name, block.rows.items⟩,
    (found.items.flatMap fun block => block.rows.flaws) ++ found.flaws⟩

end Pinout.PinMap
