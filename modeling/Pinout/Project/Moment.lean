import Pinout.Text.Numeral
import Pinout.Text.Split

/-! Dates and times in configuration texts: a date, a time of day, or both with a letter
or blank between them and perhaps a distance from universal time. Days that a month does
not have are refused. A minute may have a second 60, for leap seconds. -/

set_option autoImplicit false

namespace Pinout.Project.Moment

/-- The number that two digits in front spell, when it is within bounds. -/
def twoDigits? (low high : Nat) : List Char → Option (Nat × List Char)
  | tens :: ones :: rest =>
    let value := Text.digitsValue [tens, ones]
    if tens.isDigit && ones.isDigit && low ≤ value && value ≤ high then some (value, rest)
    else none
  | _ => none

def isLeap (year : Nat) : Bool :=
  year % 4 = 0 && (year % 100 ≠ 0 || year % 400 = 0)

def daysIn (year month : Nat) : Nat :=
  if month = 2 then (if isLeap year then 29 else 28)
  else if month = 4 ∨ month = 6 ∨ month = 9 ∨ month = 11 then 30
  else 31

/-- What is left after a date: a year of four digits, a month and a day. -/
def afterDate? : List Char → Option (List Char)
  | a :: b :: c :: d :: '-' :: rest =>
    let year := [a, b, c, d]
    if Text.isDigits year then do
      let (month, rest) ← twoDigits? 1 12 rest
      let longest := daysIn (Text.digitsValue year) month
      let (_, rest) ← twoDigits? 1 longest (← Text.dropStart? ['-'] rest)
      return rest
    else none
  | _ => none

/-- What is left after a time of day: hours, minutes, seconds and perhaps a fraction. -/
def afterTime? (chars : List Char) : Option (List Char) := do
  let (_, rest) ← twoDigits? 0 23 chars
  let (_, rest) ← twoDigits? 0 59 (← Text.dropStart? [':'] rest)
  let (_, rest) ← twoDigits? 0 60 (← Text.dropStart? [':'] rest)
  match rest with
  | '.' :: fraction =>
    if (fraction.head?.map Char.isDigit).getD false then some (fraction.dropWhile Char.isDigit)
    else none
  | _ => return rest

def isZone : List Char → Bool
  | ['Z'] => true
  | ['z'] => true
  | sign :: distance =>
    (sign = '+' || sign = '-') &&
      ((twoDigits? 0 23 distance).bind fun (_, rest) =>
        (Text.dropStart? [':'] rest).bind (twoDigits? 0 59)).map (·.2) = some []
  | [] => false

def isClock (chars : List Char) : Bool :=
  match afterTime? chars with
  | some rest => rest.isEmpty || isZone rest
  | none => false

def isDate (chars : List Char) : Bool :=
  afterDate? chars = some []

/-- A moment in one word: a date, a time of day, or a date and a clock with T between. -/
def isWord (word : List Char) : Bool :=
  match afterDate? word with
  | some ('T' :: clock) => isClock clock
  | some ('t' :: clock) => isClock clock
  | some rest => rest.isEmpty
  | none => afterTime? word = some []

end Pinout.Project.Moment
