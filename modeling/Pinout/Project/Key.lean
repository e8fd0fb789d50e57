import Pinout.Project.Quoted

/-! Names in configuration texts. A name is bare or quoted, and dots make chains of them. -/

set_option autoImplicit false

namespace Pinout.Project

/-- Characters of names without quotes. -/
def isBare (char : Char) : Bool :=
  char.isAlphanum || char == '_' || char == '-'

def name? (chars : List Char) : Option (String × List Char) :=
  match lineQuotation? chars, chars.takeWhile isBare with
  | some (text, after), _ => some (String.ofList text, after)
  | none, [] => none
  | none, bare => some (String.ofList bare, chars.dropWhile isBare)

/-- Names with dots between them, at most as many as the limit says. -/
def chainWithin : Nat → List Char → Option (List String × List Char)
  | 0, _ => none
  | limit + 1, chars => do
    let (name, after) ← name? (skipSpace chars)
    match skipSpace after with
    | '.' :: rest =>
      let (names, rest) ← chainWithin limit rest
      return (name :: names, rest)
    | rest => return ([name], rest)

/-- The largest number of values within each other, and of names in a chain. -/
def nestingLimit : Nat :=
  79

/-- Names with dots between them, at least one. Blanks may stand around each. -/
def chain? (chars : List Char) : Option (List String × List Char) :=
  chainWithin nestingLimit chars

end Pinout.Project
