import Pinout.Text.Blank

/-! Removing comments and preprocessor lines from the text of a capability table.
One character is read at a time, with a look at the next one. Every line feed is
kept, so lines keep their numbers. -/

set_option autoImplicit false

namespace Pinout.PinMap

/-- Where in the text a character stands. -/
inductive Zone where
  /-- Outside comments; the flag says that the line has been blank so far. -/
  | code (fresh : Bool)
  /-- In a comment or a preprocessor line that ends with the line. -/
  | line
  /-- At the second character of a block comment's opening. -/
  | opening (fresh : Bool)
  /-- In a block comment; the second flag says that the last character was a star. -/
  | block (fresh star : Bool)
deriving DecidableEq

/-- The zone after a character, given the one that follows it. A block comment
leaves the flag of its line as it was, also when it ends on another line. -/
def Zone.after (zone : Zone) (char : Char) (next : Option Char) : Zone :=
  match zone with
  | .code fresh =>
    if char = '/' ∧ next = some '/' then .line
    else if char = '/' ∧ next = some '*' then .opening fresh
    else if char = '#' ∧ fresh then .line
    else if char = '\n' then .code true
    else .code (fresh && Text.isBlank char)
  | .line => if char = '\n' then .code true else .line
  | .opening fresh => .block fresh false
  | .block fresh star =>
    if star ∧ char = '/' then .code fresh else .block fresh (char == '*')

def Zone.keeps (zone : Zone) (char : Char) (next : Option Char) : Bool :=
  match zone with
  | .code fresh =>
    !(char == '/' && (next == some '/' || next == some '*')) && !(char == '#' && fresh)
  | .line | .block _ _ => char == '\n'
  | .opening _ => false

/-- The text from a zone on, without comments and preprocessor lines. -/
def stripFrom : Zone → List Char → List Char
  | _, [] => []
  | zone, char :: rest =>
    if zone.keeps char rest.head? then
      char :: stripFrom (zone.after char rest.head?) rest
    else stripFrom (zone.after char rest.head?) rest

/-- The text without comments and preprocessor lines. -/
def strip (text : List Char) : List Char :=
  stripFrom (.code true) text

/-- Stripping only removes characters. -/
theorem stripFrom_sublist (zone : Zone) (text : List Char) :
    (stripFrom zone text).Sublist text := by
  induction text generalizing zone with
  | nil => exact .slnil
  | cons char rest ih =>
      simp only [stripFrom]
      split
      · exact (ih _).cons_cons char
      · exact (ih _).cons char

end Pinout.PinMap
