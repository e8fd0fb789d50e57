import Pinout.File.Tree

/-! Delivery of a text to a path. Directories that are missing on the way are made
first. A failure says which step failed and where, and comes with the tree as the
steps before it left it. -/

set_option autoImplicit false

namespace Pinout.File

/-- Why a text was not delivered. -/
inductive DeliveryFault where
  | directory (path : Path) (cause : Fault)
  | file (path : Path) (cause : Fault)
deriving DecidableEq

namespace DeliveryFault

def cause : DeliveryFault → Fault
  | .directory _ cause => cause
  | .file _ cause => cause

def message : DeliveryFault → String
  | .directory path cause => s!"cannot create output directory {path}: {cause.message}"
  | .file path cause => s!"cannot write {path}: {cause.message}"

def account (fault : DeliveryFault) : String :=
  s!"{fault.message}: {fault.cause.message}"

end DeliveryFault

namespace Tree

/-- The directory that has to be there before a file can be written, when it is missing. -/
def missingDirectory? (tree : Tree) (path : Path) : Option Path :=
  path.parent?.filter fun parent => !parent.text.isEmpty && !tree.contains parent

/-- Make the directory of a file, when it is missing. -/
def prepare (tree : Tree) (path : Path) : Except (DeliveryFault × Tree) Tree :=
  match tree.missingDirectory? path with
  | none => .ok tree
  | some parent =>
    (tree.makeDirectories parent).mapError fun (fault, left) =>
      (.directory parent fault, left)

def deliver (tree : Tree) (path : Path) (text : String) :
    Except (DeliveryFault × Tree) Tree :=
  match tree.prepare path with
  | .error stopped => .error stopped
  | .ok ready =>
    (ready.write path text.toUTF8.toList).mapError fun fault => (.file path fault, ready)

end Tree

end Pinout.File
