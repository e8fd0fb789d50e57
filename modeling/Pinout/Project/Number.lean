import Pinout.Project.Quoted

/-! Numbers in configuration texts. An underscore may stand between two digits, and no
zero before other digits. Whole numbers have 64 bits. Real numbers have a fraction, a
power of ten or a name, and those above the largest one are refused. -/

set_option autoImplicit false

namespace Pinout.Project.Number

/-- The digits of a number without the underscores between them. -/
def digits? (isDigit : Char → Bool) (chars : List Char) : Option (List Char) :=
  let groups := chars.splitOn '_'
  if groups.all fun group => !group.isEmpty && group.all isDigit then some groups.flatten
  else none

/-- The digits of a decimal number that has no zero before other digits. -/
def decimal? (chars : List Char) : Option (List Char) :=
  (digits? Char.isDigit chars).filter fun digits => digits.length = 1 || digits.head? ≠ some '0'

/-- A sign in front, as whether it is a minus sign, and what follows it. -/
def signed : List Char → Bool × List Char
  | '-' :: rest => (true, rest)
  | '+' :: rest => (false, rest)
  | chars => (false, chars)

def inBase? (base : Nat) (chars : List Char) : Option Nat := do
  let digits ← digits? (fun char => (hexValue? [char]).any (· < base)) chars
  return digits.foldl (fun value digit => base * value + (hexValue? [digit]).getD 0) 0

/-- A whole number. Only a decimal one has a sign. -/
def whole? (chars : List Char) : Option Int :=
  let value := match chars with
    | '0' :: 'x' :: digits => (inBase? 16 digits).map Int.ofNat
    | '0' :: 'o' :: digits => (inBase? 8 digits).map Int.ofNat
    | '0' :: 'b' :: digits => (inBase? 2 digits).map Int.ofNat
    | _ =>
      let (negative, digits) := signed chars
      (decimal? digits).map fun digits =>
        let size := Int.ofNat (Text.digitsValue digits)
        if negative then -size else size
  value.filter fun value => -9223372036854775808 ≤ value ∧ value ≤ 9223372036854775807

/-- The least number that is too large to be rounded to a real number of 64 bits:
halfway between the largest one and the next that more bits of exponent would give. -/
def realBound : Nat :=
  (1 <<< 1024) - (1 <<< 970)

/-- Whether digits times a power of ten reach the bound. The place of the first digit
settles it unless it is near that of the bound. -/
def isTooLarge (digits : List Char) (power : Int) : Bool :=
  let significant := digits.dropWhile (· = '0')
  let value := Text.digitsValue significant
  let places := Int.ofNat significant.length + power
  if significant.isEmpty || places < 300 then false
  else if 320 < places then true
  else if 0 ≤ power then realBound ≤ value * Nat.pow 10 power.toNat
  else realBound * Nat.pow 10 (-power).toNat ≤ value

/-- The power of ten after its mark, or none at all. -/
def power? : List Char → Option Int
  | [] => some 0
  | _ :: chars => do
    let (negative, digits) := signed chars
    let size := Int.ofNat (Text.digitsValue (← digits? Char.isDigit digits))
    return if negative then -size else size

/-- The digits of a real number without a sign, and the power of ten that they are to be
multiplied by. It has a fraction, a power of its own, or both. -/
def scientific? (chars : List Char) : Option (List Char × Int) := do
  let (mantissa, scale) := chars.span fun char => char ≠ 'e' ∧ char ≠ 'E'
  let (whole, point) := mantissa.span (· ≠ '.')
  if scale.isEmpty && point.isEmpty then none
  else
    let fraction ← if point.isEmpty then some [] else digits? Char.isDigit (point.drop 1)
    return ((← decimal? whole) ++ fraction, (← power? scale) - Int.ofNat fraction.length)

/-- Whether a real number is spelled well and is not too large. There is no bound on how
far below zero it may be. -/
def isReal (chars : List Char) : Bool :=
  let (negative, size) := signed chars
  size = ['i', 'n', 'f'] || size = ['n', 'a', 'n'] ||
    (scientific? size).any fun (digits, power) => negative || !isTooLarge digits power

end Pinout.Project.Number
