import Pinout.Text.Numeral

/-! Physical pins and their table variants. A pin is one of sixteen lines of one
of eleven ports; a variant names one mapping of a pin, the default one or a
numbered alternative. Both print in one canonical form. -/

set_option autoImplicit false

namespace Pinout

/-- A physical pin: a port from A to K and a line from 0 to 15. -/
structure Pin where
  port : Fin 11
  number : Fin 16
deriving DecidableEq

namespace Pin

def letter (pin : Pin) : Char :=
  Char.ofNat ('A'.toNat + pin.port.val)

def rank (pin : Pin) : Nat :=
  16 * pin.port.val + pin.number.val

theorem rank_inj {left right : Pin} : left.rank = right.rank ↔ left = right := by
  obtain ⟨leftPort, leftNumber⟩ := left
  obtain ⟨rightPort, rightNumber⟩ := right
  simp only [rank, mk.injEq, Fin.ext_iff]
  omega

def all : List Pin :=
  (List.finRange 11).flatMap fun port => (List.finRange 16).map fun number => ⟨port, number⟩

theorem mem_all (pin : Pin) : pin ∈ all := by
  simp only [all, List.mem_flatMap, List.mem_map, List.mem_finRange, true_and]
  exact ⟨pin.port, pin.number, rfl⟩

/-- The spelling of board definitions: the letter and two digits. -/
def boardToken (pin : Pin) : String :=
  String.ofList (pin.letter :: Text.twoDigits pin.number.val)

def tableName (pin : Pin) : String :=
  String.ofList ('P' :: pin.letter :: '_' :: Text.digitsOf pin.number.val)

instance : ToString Pin := ⟨boardToken⟩

/-- Why a spelling names no pin. -/
inductive Fault where
  | portRange
  | numberRange
  | noPortLetter
  | notTwoDigits
  | outOfRange
  | noLeadingP
  | alternateNotNumeric
  | alternateZero
  | noNumber
  | numberOverflow
deriving DecidableEq

def Fault.message : Fault → String
  | .portRange => "port must be A..=K"
  | .numberRange => "pin number must be 0..=15"
  | .noPortLetter => "expected a port letter"
  | .notTwoDigits => "expected a port letter followed by two digits"
  | .outOfRange => "pin out of range"
  | .noLeadingP => "expected a 'P' prefix"
  | .alternateNotNumeric => "variant suffix must be _ALT<n>"
  | .alternateZero => "variant index starts at 1"
  | .noNumber => "expected a pin number"
  | .numberOverflow => "pin number overflow"

/-- A spelling that names no pin, with the first reason found. -/
structure Invalid where
  token : String
  fault : Fault
deriving DecidableEq

def Invalid.message (invalid : Invalid) : String :=
  s!"invalid pin token '{invalid.token}': {invalid.fault.message}"

/-- The pin with this port letter, in either case, and number. The port is
checked before the number. -/
def locate (letter : Char) (number : Nat) : Except Fault Pin :=
  let code := letter.toUpper.toNat
  if inPorts : 'A'.toNat ≤ code ∧ code < 'A'.toNat + 11 then
    if inLines : number < 16 then
      .ok ⟨⟨code - 'A'.toNat, by omega⟩, ⟨number, inLines⟩⟩
    else .error .numberRange
  else .error .portRange

/-- As `locate`; the refusal names the pin by its capital letter and number. -/
def of (letter : Char) (number : Nat) : Except Invalid Pin :=
  (locate letter number).mapError fun fault =>
    ⟨String.ofList (letter.toUpper :: Text.digitsOf number), fault⟩

/-- One mapping of a pin: the default one, or a numbered alternative. -/
structure Variant where
  base : Pin
  alternate : Option UInt8
deriving DecidableEq

/-- The mapping without a number. -/
def Variant.default (pin : Pin) : Variant :=
  ⟨pin, none⟩

/-- Is this the mapping without a number? -/
def Variant.isDefault (variant : Variant) : Bool :=
  variant.alternate.isNone

/-- Variants in order of pin, the default before the numbered ones. -/
def Variant.rank (variant : Variant) : Nat :=
  257 * variant.base.rank +
    (match variant.alternate with
      | none => 0
      | some number => number.toNat + 1)

def Variant.name (variant : Variant) : String :=
  match variant.alternate with
  | none => variant.base.tableName
  | some number => variant.base.tableName ++ "_ALT" ++ Text.decimal number.toNat

instance : ToString Variant := ⟨Variant.name⟩

end Pin

end Pinout
