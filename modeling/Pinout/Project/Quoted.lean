import Pinout.Project.Filler
import Pinout.Text.Numeral

/-! Quoted texts. Double quotes allow escapes, single quotes do not. One quote closes a
text of one line; three of them close a block, which may hold line ends and up to two
quotes in a row. Each reader starts after the opening quotes, and gives the text and what
is left after the closing ones. -/

set_option autoImplicit false

namespace Pinout.Project

def keep (char : Char) (tail : Option (List Char × List Char)) :
    Option (List Char × List Char) :=
  tail.map fun (text, after) => (char :: text, after)

def hexValue? (digits : List Char) : Option Nat :=
  digits.foldlM (fun value digit =>
    if digit.isDigit then some (16 * value + Text.digitValue digit)
    else if 'a' ≤ digit.toLower ∧ digit.toLower ≤ 'f' then
      some (16 * value + (digit.toLower.toNat - 87))
    else none) 0

/-- The character whose number has the given hexadecimal digits, when there is one. -/
def numbered? (digits : List Char) : Option Char := do
  let value ← hexValue? digits
  if value.isValidChar then some (Char.ofNat value) else none

def escaped? : Char → Option Char
  | 'b' => some '\x08'
  | 't' => some '\t'
  | 'n' => some '\n'
  | 'f' => some '\x0c'
  | 'r' => some '\r'
  | '"' => some '"'
  | '\\' => some '\\'
  | _ => none

def literal? : List Char → Option (List Char × List Char)
  | [] => none
  | '\'' :: rest => some ([], rest)
  | char :: rest => if isPrintable char then keep char (literal? rest) else none

def quoted? : List Char → Option (List Char × List Char)
  | [] => none
  | '"' :: rest => some ([], rest)
  | '\\' :: 'u' :: a :: b :: c :: d :: rest => do
    keep (← numbered? [a, b, c, d]) (quoted? rest)
  | '\\' :: 'U' :: a :: b :: c :: d :: e :: f :: g :: h :: rest => do
    keep (← numbered? [a, b, c, d, e, f, g, h]) (quoted? rest)
  | '\\' :: mark :: rest => do keep (← escaped? mark) (quoted? rest)
  | char :: rest =>
    if isPrintable char && char ≠ '\\' then keep char (quoted? rest) else none

/-- The end of a block after three quotes. As many as two more belong to the text. -/
def blockEnd (quote : Char) (rest : List Char) : List Char × List Char :=
  let more := (rest.take 2).takeWhile (· = quote)
  (more, rest.drop more.length)

/-- The text up to three closing single quotes. Line ends are line feeds. -/
def literalBlock? : List Char → Option (List Char × List Char)
  | [] => none
  | '\'' :: '\'' :: '\'' :: rest => some (blockEnd '\'' rest)
  | '\r' :: '\n' :: rest => keep '\n' (literalBlock? rest)
  | char :: rest =>
    if isPrintable char || char = '\n' then keep char (literalBlock? rest) else none

/-- A backslash joins lines when only blanks stand between it and the end of its line. -/
def joinsLines (rest : List Char) : Bool :=
  (afterBreak? (skipSpace rest)).isSome

/-- The text up to three closing double quotes, with escapes replaced. Line ends are line
feeds. The flag says that lines are being joined, where blanks and line ends are left
out. -/
def quotedBlock? : Bool → List Char → Option (List Char × List Char)
  | _, [] => none
  | true, '\r' :: '\n' :: rest => quotedBlock? true rest
  | false, '\r' :: '\n' :: rest => keep '\n' (quotedBlock? false rest)
  | _, '"' :: '"' :: '"' :: rest => some (blockEnd '"' rest)
  | _, '\\' :: 'u' :: a :: b :: c :: d :: rest => do
    keep (← numbered? [a, b, c, d]) (quotedBlock? false rest)
  | _, '\\' :: 'U' :: a :: b :: c :: d :: e :: f :: g :: h :: rest => do
    keep (← numbered? [a, b, c, d, e, f, g, h]) (quotedBlock? false rest)
  | _, '\\' :: mark :: rest =>
    if joinsLines (mark :: rest) then quotedBlock? true (mark :: rest)
    else do keep (← escaped? mark) (quotedBlock? false rest)
  | joining, char :: rest =>
    if joining && (isSpace char || char = '\n') then quotedBlock? true rest
    else if (isPrintable char && char ≠ '\\') || char = '\n' then
      keep char (quotedBlock? false rest)
    else none

/-- A block without the line end that may follow its opening quotes. -/
def fromNextLine (rest : List Char) : List Char :=
  (afterBreak? rest).getD rest

/-- A quoted text of one line, when one stands in front. -/
def lineQuotation? : List Char → Option (List Char × List Char)
  | '"' :: rest => quoted? rest
  | '\'' :: rest => literal? rest
  | _ => none

/-- A quoted text, when one stands in front. -/
def quotation? : List Char → Option (List Char × List Char)
  | '"' :: '"' :: '"' :: rest => quotedBlock? false (fromNextLine rest)
  | '\'' :: '\'' :: '\'' :: rest => literalBlock? (fromNextLine rest)
  | chars => lineQuotation? chars

end Pinout.Project
