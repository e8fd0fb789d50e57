import Pinout.Peripheral.Kind
import Pinout.Text.Blank
import Pinout.Text.Numeral

/-! Names of peripheral instances, such as `TIM3`, and selectors, which ask for an
instance by kind and number. Several names can answer one selector: both `USART1`
and `UART1` are the first serial port, and `SPI01` has the number of `SPI1`. -/

set_option autoImplicit false

namespace Pinout

/-- Instance names are nonempty, made of ASCII letters, digits and underscores,
and not digits only. -/
def isInstanceName (chars : List Char) : Bool :=
  !chars.isEmpty && chars.all Text.isNameChar && !chars.all Char.isDigit

/-- The name of a peripheral instance. -/
structure Instance where
  name : String
  isName : isInstanceName name.toList = true
deriving DecidableEq

namespace Instance

instance : ToString Instance := ⟨name⟩

theorem ext_name {left right : Instance} (same : left.name = right.name) :
    left = right := by
  cases left
  cases right
  cases same
  rfl

/-- The instance of this name, blanks around it dropped. -/
def ofName? (name : String) : Option Instance :=
  let bare := String.ofList (Text.trim name.toList)
  if isName : isInstanceName bare.toList = true then some ⟨bare, isName⟩ else none

def invalidMessage (name : String) : String :=
  let bare := String.ofList (Text.trim name.toList)
  s!"invalid peripheral instance '{bare}'"

def digits (self : Instance) : List Char :=
  (self.name.toList.reverse.takeWhile Char.isDigit).reverse

/-- What stands before the digits that end the name. -/
def stem (self : Instance) : String :=
  String.ofList (self.name.toList.reverse.dropWhile Char.isDigit).reverse

/-- The number that ends the name, if one byte holds it. -/
def number? (self : Instance) : Option UInt8 :=
  Text.byte? self.digits

end Instance

/-- A request for the instance of a kind with a number. -/
structure Selector where
  kind : Kind
  number : UInt8
deriving DecidableEq

namespace Selector

def name (selector : Selector) : String :=
  let stem := match selector.kind with
    | .timer => "TIM"
    | kind => kind.name
  stem ++ Text.decimal selector.number.toNat

instance : ToString Selector := ⟨name⟩

def selects (selector : Selector) (candidate : Instance) : Bool :=
  candidate.number? == some selector.number &&
    selector.kind.stems.contains candidate.stem

/-- Read what a setting asks for: a bare number from 1 on, or the name of an
instance of the kind in any case. -/
def ofValue? (kind : Kind) (value : String) : Option Selector :=
  match Text.byte? (Text.trim value.toList) with
  | some number => if number > 0 then some ⟨kind, number⟩ else none
  | none => do
    let named ← Instance.ofName? (Text.upper value)
    let number ← named.number?
    if kind.stems.contains named.stem then some ⟨kind, number⟩ else none

end Selector

end Pinout
