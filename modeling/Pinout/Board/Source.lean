import Pinout.Board.Assembly
import Pinout.File.Tree

/-! Board definitions in files. Only the file can fail; what it says never does. -/

set_option autoImplicit false

namespace Pinout.Board

/-- Why a file gives no board definition. -/
inductive SourceFault where
  | notFound (path : File.Path)
  | unreadable (fault : File.Fault)
deriving DecidableEq

def SourceFault.message : SourceFault → String
  | .notFound path => s!"board definition not found: {path}"
  | .unreadable fault => s!"I/O error: {fault.message}"

def load (policy : Policy) (tree : File.Tree) (path : File.Path) : Except SourceFault Parsed :=
  if tree.contains path then
    match tree.readText path with
    | .error fault => .error (.unreadable fault)
    | .ok text => .ok (parse policy text)
  else .error (.notFound path)

end Pinout.Board
