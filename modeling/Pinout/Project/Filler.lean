/-! What stands between the parts of a configuration text: blanks, line ends and
comments. -/

set_option autoImplicit false

namespace Pinout.Project

def isSpace (char : Char) : Bool :=
  char == ' ' || char == '\t'

def skipSpace (chars : List Char) : List Char :=
  chars.dropWhile isSpace

/-- What is left after a line end, when one stands in front. A carriage return counts
only directly before a line feed. -/
def afterBreak? : List Char → Option (List Char)
  | '\n' :: rest => some rest
  | '\r' :: '\n' :: rest => some rest
  | _ => none

/-- Characters that stand for themselves in comments and between quotes: tabs and all
that are not for control. -/
def isPrintable (char : Char) : Bool :=
  char == '\t' || (0x20 ≤ char.toNat && char.toNat ≠ 0x7F)

/-- Drop blanks, line ends and comments. The flag says that a comment is open. -/
def skipFiller : Bool → List Char → Option (List Char)
  | _, [] => some []
  | _, '\n' :: rest => skipFiller false rest
  | _, '\r' :: '\n' :: rest => skipFiller false rest
  | true, char :: rest => if isPrintable char then skipFiller true rest else none
  | false, char :: rest =>
    if char = '#' then skipFiller true rest
    else if isSpace char then skipFiller false rest
    else some (char :: rest)

/-- What is left after the end of a line, which blanks and a comment may precede. -/
def lineEnd? (chars : List Char) : Option (List Char) :=
  let content := skipSpace chars
  let ending := if content.head? = some '#' then content.dropWhile isPrintable else content
  if ending.isEmpty then some [] else afterBreak? ending

end Pinout.Project
