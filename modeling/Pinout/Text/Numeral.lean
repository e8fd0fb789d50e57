/-! Decimal numerals. Reading takes an optional plus sign and then digits only,
so leading zeros are welcome and a minus sign never is; a value above the limit
is refused, not wrapped. Writing gives the digits without sign or padding. -/

set_option autoImplicit false

namespace Pinout.Text

def digitValue (char : Char) : Nat :=
  char.toNat - '0'.toNat

/-- The number that a run of digits spells, most significant first. -/
def digitsValue (digits : List Char) : Nat :=
  digits.foldl (fun value digit => 10 * value + digitValue digit) 0

/-- A numeral without the plus sign that may stand in front of it. -/
def unsigned : List Char → List Char
  | '+' :: rest => rest
  | chars => chars

def isDigits (chars : List Char) : Bool :=
  !chars.isEmpty && chars.all Char.isDigit

/-- Read a numeral no larger than the limit. -/
def numeral? (limit : Nat) (chars : List Char) : Option Nat :=
  if isDigits (unsigned chars) && digitsValue (unsigned chars) ≤ limit then
    some (digitsValue (unsigned chars))
  else none

def byte? (chars : List Char) : Option UInt8 :=
  (numeral? 255 chars).map UInt8.ofNat

theorem numeral?_eq_some_iff {limit value : Nat} {chars : List Char} :
    numeral? limit chars = some value ↔
      isDigits (unsigned chars) = true ∧ digitsValue (unsigned chars) = value ∧
        value ≤ limit := by
  simp only [numeral?, Bool.and_eq_true, decide_eq_true_eq]
  constructor
  · intro read
    split at read
    · rename_i accepted
      cases read
      exact ⟨accepted.1, rfl, accepted.2⟩
    · cases read
  · rintro ⟨digits, rfl, bounded⟩
    simp [digits, bounded]

def digitChar (digit : Nat) : Char :=
  Char.ofNat ('0'.toNat + digit % 10)

/-- The decimal digits of a number, at least one, without leading zeros. -/
def digitsOf (value : Nat) : List Char :=
  if value < 10 then [digitChar value]
  else digitsOf (value / 10) ++ [digitChar value]
termination_by value

def decimal (value : Nat) : String :=
  String.ofList (digitsOf value)

def twoDigits (value : Nat) : List Char :=
  [digitChar (value / 10), digitChar value]

end Pinout.Text
