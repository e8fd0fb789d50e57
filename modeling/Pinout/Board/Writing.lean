import Pinout.Board.Assembly

/-! The normal form of a board definition: one line for each part of it, in the order
resources, timers, settings, description. Hints and statements that are kept as they
stand have no place in it. -/

set_option autoImplicit false

namespace Pinout.Board

def Assignment.write (assignment : Assignment) : String :=
  s!"resource {assignment.id} {assignment.pin}"

def Advisory.write (pin : Pin) (advisory : Advisory) : String :=
  s!"# pin {pin}: {advisory.timer} CH{advisory.channel}"

def Timer.write (timer : Timer) : List String :=
  s!"timer {timer.pin} AF{timer.function}" ::
    (timer.advisory.map (Advisory.write timer.pin)).toList

def Setting.write (setting : Setting) : String :=
  s!"set {setting.key} = {setting.value}"

def Metadata.write (metadata : Metadata) : List String :=
  (metadata.boardName.map fun name => s!"board_name {name}").toList ++
    (metadata.manufacturer.map fun name => s!"manufacturer_id {name}").toList ++
    (metadata.mcu.map fun name => s!"# Betaflight / {name}").toList

def Definition.writtenLines (board : Definition) : List String :=
  board.resources.map Assignment.write ++ board.timers.flatMap Timer.write ++
    board.settings.map Setting.write ++ board.metadata.write

def Definition.write (board : Definition) : String :=
  String.join (board.writtenLines.map fun line => line ++ "\n")

end Pinout.Board
