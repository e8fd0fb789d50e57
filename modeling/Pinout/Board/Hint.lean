import Pinout.Named
import Pinout.Text.Split

/-! Chip hints, from defines such as `USE_FLASH_W25Q128FV`: a category and the
variant of it that the board may carry. A category can be declared many times; the
last declaration selects the variant, and all of them are kept. -/

set_option autoImplicit false

namespace Pinout.Board

/-- A declared chip. The variant is empty for a plain feature. -/
structure Hint where
  category : String
  variant : String
  line : Nat
deriving DecidableEq

/-- The categories with an underscore in their names; none of them starts another. -/
def compoundCategories : List String :=
  ["GYRO_SPI", "ACC_SPI", "BARO_SPI", "BARO_I2C", "MAG_I2C"]

/-- What follows a compound category, if the name has it as a whole part. -/
def afterCompound? (body : List Char) (category : String) : Option (List Char) :=
  match Text.dropStart? category.toList body with
  | some [] => some []
  | some ('_' :: rest) => some (rest.dropWhile (· == '_'))
  | _ => none

/-- Category and variant of a define's name. Other categories end at the first
underscore. -/
def splitDefine? (name : List Char) : Option (String × String) :=
  match Text.dropStart? ['U', 'S', 'E', '_'] name with
  | none | some [] => none
  | some body =>
    let compound := compoundCategories.findSome? fun category =>
      (afterCompound? body category).map fun rest => (category, String.ofList rest)
    match compound with
    | some split => some split
    | none =>
      match Text.cut? ['_'] body with
      | some (category, variant) => some (String.ofList category, String.ofList variant)
      | none => some (String.ofList body, "")

def Hint.ofDefine? (name : String) (line : Nat) : Option Hint :=
  (splitDefine? name.toList).map fun (category, variant) => ⟨category, variant, line⟩

/-- The declared hints, in order. -/
structure Hints where
  declared : List Hint
deriving DecidableEq

namespace Hints

/-- The variant of each category, by name; a later hint takes the place of an
earlier one. -/
def selections (hints : Hints) : List (String × String) :=
  hints.declared.foldl
    (fun chosen hint => Named.put hint.category hint.variant chosen) []

def selected? (hints : Hints) (category : String) : Option String :=
  Named.get? hints.selections category

def declaredIn (hints : Hints) (category : String) : List String :=
  (hints.declared.filter fun hint => hint.category = category).map (·.variant)

end Hints

end Pinout.Board
