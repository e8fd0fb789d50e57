import Pinout.Board.Hint
import Pinout.Pin.Basic
import Pinout.Resource

/-! Board definitions: which resource sits on which pin, which timer function each
pin uses, the settings, and what describes the board. -/

set_option autoImplicit false

namespace Pinout.Board

/-- A resource on a pin, and the line that put it there. -/
structure Assignment where
  id : ResourceId
  pin : Pin
  line : Nat
deriving DecidableEq

/-- The timer and channel that a note names. It is advice only. -/
structure Advisory where
  timer : String
  channel : UInt8
deriving DecidableEq

/-- The alternate function that a pin uses as a timer output. -/
structure Timer where
  pin : Pin
  function : UInt8
  advisory : Option Advisory
  line : Nat
deriving DecidableEq

/-- A setting; its key is in lower case. -/
structure Setting where
  key : String
  value : String
  line : Nat
deriving DecidableEq

/-- A statement that is kept as it stands. -/
structure Verbatim where
  keyword : String
  text : String
  line : Nat
deriving DecidableEq

/-- What describes the board. -/
structure Metadata where
  mcu : Option String := none
  boardName : Option String := none
  manufacturer : Option String := none
deriving DecidableEq

/-- A board definition. -/
structure Definition where
  resources : List Assignment
  timers : List Timer
  settings : List Setting
  hints : Hints
  verbatim : List Verbatim
  metadata : Metadata
deriving DecidableEq

namespace Definition

/-- Does the definition say nothing but what describes the board? -/
def isEmpty (board : Definition) : Bool :=
  board.resources.isEmpty && board.timers.isEmpty && board.settings.isEmpty &&
    board.verbatim.isEmpty && board.hints.declared.isEmpty

def resourcesOf (board : Definition) (resource : Resource) : List Assignment :=
  board.resources.filter fun assignment => assignment.id.resource = resource

def resource? (board : Definition) (id : ResourceId) : Option Assignment :=
  board.resources.find? fun assignment => assignment.id = id

/-- The assignments that take part in resolution, in order. -/
def modeled (board : Definition) : List Assignment :=
  board.resources.filter fun assignment => assignment.id.resource.isModeled

def timerFor? (board : Definition) (pin : Pin) : Option Timer :=
  board.timers.find? fun timer => timer.pin = pin

def settingEntry? (board : Definition) (key : String) : Option Setting :=
  board.settings.find? fun setting => setting.key = key

def setting? (board : Definition) (key : String) : Option String :=
  (board.settingEntry? key).map (·.value)

end Definition

end Pinout.Board
