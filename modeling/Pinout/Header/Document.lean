import Pinout.Digest.Framing
import Pinout.Header.Bank
import Pinout.Header.Peripheral

/-! The whole header of a resolved board: a head that says where it comes from, one
namespace with the sections in a fixed order, and the rest as comments. -/

set_option autoImplicit false

namespace Pinout.Header

open Board (Definition)
open Resolution (Resolved)

def generator : String :=
  "pinmux 0.1.0"

/-- A line of the head that is there only when its value is. -/
def optionalLine (title : String) (value : Option String) : List Item :=
  match value with
  | some value => [.line (title ++ value)]
  | none => []

/-- A line of the head that lists values, if there are any. -/
def listLine (title : String) (values : List String) : List Item :=
  match values with
  | [] => []
  | values => [.line (title ++ ", ".intercalate values)]

/-- The chips of the board other than gyros, each category with its variant. -/
def features (board : Definition) : List String :=
  let others := board.hints.selections.filter fun (category, _) =>
    category ≠ "GYRO_SPI" ∧ category ≠ "ACC_SPI"
  others.map fun (category, variant) =>
    if variant = "" then category else category ++ " " ++ variant

def noticeItems (options : Options) : List Item :=
  [.line "/*", .line " * Auto-generated BoardConfig from Betaflight unified target"] ++
    optionalLine " * Source: " options.source ++
    optionalLine " * Source digest: sha256:" (options.digest.map Digest.hex) ++
    [.line s!" * Generator: {generator}", .line " */", .gap,
      .line "#pragma once", .gap, .line "#include \"ConfigTypes.h\"", .gap]

def descriptionItems (board : Resolved) : List Item :=
  let definition := board.definition
  optionalLine "// Board: " definition.metadata.boardName ++
    optionalLine "// Manufacturer: " definition.metadata.manufacturer ++
    [.line s!"// MCU: {board.mcu}"] ++
    listLine "// Gyro: " (gyroChips definition) ++
    listLine "// Features: " (features definition)

def bodyItems (board : Resolved) (options : Options) : List Item :=
  storageItems board options ++ motionItems board options ++ i2cItems board options ++
    uartItems board options ++ spiItems board options ++ analogItems board ++
    lightItems board ++ beeperItems board ++ familyItems board .servo ++
    familyItems board .motor ++ familyItems board .ledStrip

def restTexts (board : Definition) : List String :=
  let resources := board.resources.filter fun assignment =>
    !assignment.id.resource.isModeled
  resources.map (fun assignment => s!"resource {assignment.id} {assignment.pin}") ++
    board.verbatim.map (·.text)

def restItems (board : Definition) : List Item :=
  match restTexts board with
  | [] => []
  | texts => [.gap, .line "// Not translated (kept for reference):"] ++
      texts.map fun text => .line s!"//   {text}"

def document (board : Resolved) (options : Options) : List Item :=
  noticeItems options ++ descriptionItems board ++
    [.block "namespace BoardConfig \x7b" (bodyItems board options) "\x7d"] ++
    if options.keepRest then restItems board.definition else []

def generate (board : Resolved) (options : Options) : String :=
  render (document board options)

end Pinout.Header
