import Pinout.Text.Blank
import Pinout.Text.Case

/-! Names of microcontrollers. A name in any case, with blanks around it, without
its family mark or with the details of one part, is brought to one canonical form. -/

set_option autoImplicit false

namespace Pinout.Mcu

/-- The supported names, each with the directories that hold its tables. -/
def builtin : List (String × List String) :=
  [("STM32F405", ["STM32F4xx/F405RG"]),
    ("STM32F411", ["STM32F4xx/F411C(C-E)(U-Y)"]),
    ("STM32F745", ["STM32F7xx/F74xZ(G-I)"]),
    ("STM32H743",
      ["STM32H7xx/H742V(G-I)(H-T)_H743V(G-I)(H-T)_H750VBT_H753VI(H-T)",
        "STM32H7xx/H742Z(G-I)T_H743Z(G-I)T_H747A(G-I)I_H747I(G-I)T_H750ZBT_H753ZIT_H757AII_H757IIT",
        "STM32H7xx/H742I(G-I)(K-T)_H743I(G-I)(K-T)_H750IB(K-T)_H753II(K-T)"])]

/-- The directories of a canonical name; none when it is not a supported one. -/
def builtinDirectories (mcu : String) : List String :=
  (builtin.lookup mcu).getD []

def familyMark : List Char :=
  ['S', 'T', 'M', '3', '2']

/-- A short name starts with a letter and a digit; it lacks the family mark. -/
def isShort : List Char → Bool
  | letter :: digit :: _ => letter.isAlpha && digit.isDigit
  | _ => false

def addFamily (chars : List Char) : List Char :=
  if isShort chars && !familyMark.isPrefixOf chars then familyMark ++ chars else chars

/-- Reduce the name of a part to the first supported name that it starts with. -/
def reduceToBuiltin (full : List Char) : String :=
  match builtin.find? fun (name, _) => name.toList.isPrefixOf full with
  | some (name, _) => name
  | none => String.ofList full

/-- The canonical name, or none when the text is not a name. -/
def normalize? (text : String) : Option String :=
  let capitals := (Text.trim text.toList).map Char.toUpper
  if !capitals.isEmpty && capitals.all Text.isNameChar then
    some (reduceToBuiltin (addFamily capitals))
  else none

def unknownMessage (text : String) : String :=
  s!"unknown MCU identifier '{text}'"

end Pinout.Mcu
