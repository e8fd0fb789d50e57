import Pinout.Pin.Basic
import Pinout.Text.Blank
import Pinout.Text.Case
import Pinout.Text.Split

/-! The three spellings of pins. A board token is a letter and two digits, such as
`B04`. A table name is `P`, a capital, optional underscores and digits, with an
optional `_ALTn`. The free spelling of a command line accepts both, in any case,
without an alternative. -/

set_option autoImplicit false

namespace Pinout.Pin

def readBoardToken : List Char → Except Fault Pin
  | [] => .error .noPortLetter
  | letter :: digits =>
    if !letter.isAlpha then .error .noPortLetter
    else if digits.length == 2 && digits.all Char.isDigit then
      (locate letter (Text.digitsValue digits)).mapError fun _ => .outOfRange
    else .error .notTwoDigits

def ofBoardToken (token : String) : Except Invalid Pin :=
  (readBoardToken token.toList).mapError fun fault => ⟨token, fault⟩

/-- The canonical board token for one with blanks around it, in any case. -/
def normalToken? (token : String) : Option String :=
  match readBoardToken (Text.trim token.toList) with
  | .ok pin => some pin.boardToken
  | .error _ => none

def alternateMark : List Char :=
  ['_', 'A', 'L', 'T']

/-- Separate a table name, without its `P`, from the number of its alternative. -/
def cutAlternate (rest : List Char) : Except Fault (List Char × Option UInt8) :=
  match Text.cut? alternateMark rest with
  | none => .ok (rest, none)
  | some (place, tag) =>
    match Text.byte? tag with
    | none => .error .alternateNotNumeric
    | some number =>
      if number = 0 then .error .alternateZero else .ok (place, some number)

/-- Read the port and number of a table name: a capital, any number of
underscores, and digits. -/
def readPlace : List Char → Except Fault Pin
  | [] => .error .noPortLetter
  | letter :: rest =>
    if !letter.isUpper then .error .noPortLetter
    else
      let digits := rest.dropWhile (· == '_')
      if !Text.isDigits digits then .error .noNumber
      else if Text.digitsValue digits > 255 then .error .numberOverflow
      else (locate letter (Text.digitsValue digits)).mapError fun _ => .outOfRange

/-- Read the characters of a table name. The alternative is read first. -/
def readTableName : List Char → Except Fault Variant
  | 'P' :: rest => do
    let (place, alternate) ← cutAlternate rest
    let base ← readPlace place
    return ⟨base, alternate⟩
  | _ => .error .noLeadingP

def Variant.ofTableName (name : String) : Except Invalid Variant :=
  (readTableName name.toList).mapError fun fault => ⟨name, fault⟩

/-- Why a free spelling names no pin. -/
inductive FreeFault where
  | unreadable
  | noSuchPin (invalid : Invalid)
deriving DecidableEq

/-- A free spelling without the leading `P` of a table name and, when it had one,
without its underscores. The `P` counts as such only in front of a letter. -/
def bareSpelling (capitals : List Char) : List Char :=
  match capitals with
  | 'P' :: letter :: rest =>
    if letter.isAlpha then (letter :: rest).filter (· != '_') else capitals
  | _ => capitals

def readFree (chars : List Char) : Except FreeFault Pin :=
  match bareSpelling ((Text.trim chars).map Char.toUpper) with
  | [] => .error .unreadable
  | letter :: digits =>
    if !letter.isAlpha then .error .unreadable
    else
      match Text.byte? digits with
      | none => .error .unreadable
      | some number => (of letter number.toNat).mapError .noSuchPin

def ofFree (token : String) : Except FreeFault Pin :=
  readFree token.toList

def FreeFault.message (token : String) : FreeFault → String
  | .unreadable => s!"invalid pin: {token}"
  | .noSuchPin invalid => s!"invalid pin: {token}: {invalid.message}"

end Pinout.Pin
