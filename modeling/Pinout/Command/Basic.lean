import Pinout.Command.Check
import Pinout.Command.Convert
import Pinout.Command.Pins
import Pinout.Command.Tables

/-! The commands. Each sees the files through a tree and says what it leaves. -/

set_option autoImplicit false

namespace Pinout.Command

/-- A command and what it is asked for. -/
inductive Request where
  | convert (request : Convert.Request)
  | check (request : Check.Request)
  | pins (request : Pins.Request)
  | tables (tables : Option File.Path)

def Request.run (request : Request) (project : Project) (tree : File.Tree) : Outcome :=
  match request with
  | .convert request => Convert.run project tree request
  | .check request => Check.run project tree request
  | .pins request => Pins.run project tree request
  | .tables root => Tables.run project tree root

end Pinout.Command
