import Pinout.Capability.Table
import Pinout.PinMap.Section
import Pinout.Pin.Spelling

/-! Reading a capability table. Each row offers an entry, or a reason why it has
none, or only vouches for its pin. Of two rivals the first is kept. -/

set_option autoImplicit false

namespace Pinout.Capability

open PinMap (Flaw Row Section)

/-- What the rows of a section say. -/
inductive Content where
  | timer
  | bus (signal : Signal)
  | analog
  | pinsOnly
deriving DecidableEq

def Content.ofName : String → Content
  | "TIM" => .timer
  | "SPI_MOSI" => .bus .spiMosi
  | "SPI_MISO" => .bus .spiMiso
  | "SPI_SCLK" => .bus .spiSclk
  | "I2C_SCL" => .bus .i2cScl
  | "I2C_SDA" => .bus .i2cSda
  | "UART_TX" => .bus .uartTx
  | "UART_RX" => .bus .uartRx
  | "ADC" => .analog
  | _ => .pinsOnly

/-- Why a row or a list item adds no entry, or what is wrong with the table's shape. -/
inductive Fault where
  | shape (flaw : Flaw)
  | emptyRow (name : String)
  | badPin (invalid : Pin.Invalid)
  | noInstance (pin : String)
  | badInstance (name : String)
  | noTimerChannel (pin : String) (target : Instance)
  | noAnalogChannel (pin : String) (target : Instance)
  | rival (entry : Entry)
deriving DecidableEq

def Fault.message : Fault → String
  | .shape flaw => flaw.message
  | .emptyRow name => s!"empty row in PinMap_{name}"
  | .badPin invalid => invalid.message
  | .noInstance pin => s!"{pin} has no peripheral instance"
  | .badInstance name => Instance.invalidMessage name
  | .noTimerChannel pin target => s!"{pin} {target}: timer row without a channel"
  | .noAnalogChannel pin target => s!"{pin} {target}: ADC row without a channel"
  | .rival entry =>
    let claim := match entry.signal? with
      | some signal => signal.name
      | none => entry.kind.name
    s!"{entry.pin} is listed twice for {claim}; keeping the first row"

/-- A fault and its line. -/
structure Issue where
  line : Nat
  fault : Fault
deriving DecidableEq

def Issue.render (issue : Issue) : String :=
  s!"line {issue.line}: {issue.fault.message}"

def functionOf? (argument : List Char) : Option UInt8 := do
  let rest ← Text.dropStart? ['G', 'P', 'I', 'O', '_', 'A', 'F'] argument
  Text.byte? (rest.takeWhile Char.isDigit)

/-- The use that a row states, given the arguments of its macro call. -/
def useOf (content : Content) (pin : String) (target : Instance)
    (arguments : List (List Char)) : Except Fault (Option Use) :=
  let number (place : Nat) : Option UInt8 := arguments[place]?.bind Text.byte?
  match content with
  | .timer =>
    match number 3 with
    | some channel => .ok (some (.timer channel (number 4 == some 1)))
    | none => .error (.noTimerChannel pin target)
  | .analog =>
    match number 3 with
    | some channel => .ok (some (.analog channel))
    | none => .error (.noAnalogChannel pin target)
  | .bus signal => .ok (some (.bus signal))
  | .pinsOnly => .ok none

/-- The entry of a row whose pin is known, or none when its section has none. -/
def entryOf (content : Content) (variant : Pin.Variant) (pin : String)
    (fields : List String) : Except Fault (Option Entry) :=
  if content = .pinsOnly then .ok none
  else
    match fields with
    | [] => .error (.noInstance pin)
    | name :: rest =>
      match Instance.ofName? name with
      | none => .error (.badInstance name)
      | some target =>
        let arguments :=
          (rest.head?.bind fun field => PinMap.callArguments? field.toList).getD []
        (useOf content pin target arguments).map fun use =>
          use.map fun use => ⟨variant, target, arguments[2]?.bind functionOf?, use⟩

/-- What a row or a list item offers to the table. -/
structure Offer where
  line : Nat
  pin : Option Pin
  entry : Except Fault (Option Entry)

def offerOf (name : String) (row : Row) : Offer :=
  match row.fields with
  | [] => ⟨row.line, none, .error (.emptyRow name)⟩
  | pin :: rest =>
    match Pin.Variant.ofTableName pin with
    | .error invalid => ⟨row.line, none, .error (.badPin invalid)⟩
    | .ok variant =>
      ⟨row.line, some variant.base, entryOf (Content.ofName name) variant pin rest⟩

/-- The rows of a section that count: those before the end mark. -/
def countedRows (part : Section) : List Row :=
  part.rows.takeWhile fun row => row.fields.head? != some "NC"

def Catalog.add (catalog : Catalog) (offer : Offer) : Catalog :=
  match offer.entry with
  | .ok (some entry) =>
    if catalog.entries.any entry.rivals then catalog else catalog.push entry
  | _ => catalog

def Offer.fault? (offer : Offer) (catalog : Catalog) : Option Fault :=
  match offer.entry with
  | .error fault => some fault
  | .ok none => none
  | .ok (some entry) => if catalog.entries.any entry.rivals then some (.rival entry) else none

/-- What is wrong with the offers, in order, given the entries before them. -/
def offerIssues : Catalog → List Offer → List Issue
  | _, [] => []
  | catalog, offer :: rest =>
    ((offer.fault? catalog).map fun fault => ⟨offer.line, fault⟩).toList ++
      offerIssues (catalog.add offer) rest

/-- A table and what was found while reading it. -/
structure Parsed where
  table : Table
  issues : List Issue

def ofOffers (mcu : String) (sections : List String) (offers : List Offer) : Parsed where
  table :=
    { offers.foldl Catalog.add .empty with
      mcu
      pins := offers.filterMap (·.pin)
      sections }
  issues := offerIssues .empty offers

/-- What the rows of sections offer, in order. -/
def offersOf (sections : List Section) : List Offer :=
  sections.flatMap fun part => (countedRows part).map (offerOf part.name)

/-- Read a table. Flaws of shape come before the faults of rows. -/
def parse (mcu : String) (text : String) : Parsed :=
  let found := PinMap.scan text
  let parsed := ofOffers mcu (found.items.map (·.name)) (offersOf found.items)
  { parsed with
    issues := (found.flaws.map fun (line, flaw) => ⟨line, .shape flaw⟩) ++ parsed.issues }

/-- The table of the given entries, which count as lines from one on. -/
def ofEntries (mcu : String) (entries : List Entry) : Parsed :=
  ofOffers mcu [] <| (entries.zipIdx 1).map fun (entry, line) =>
    ⟨line, some entry.pin.base, .ok (some entry)⟩

end Pinout.Capability
