import Pinout.File.Tree

/-! What a command leaves: lines for both streams, the files, and the reason why it
failed if it did. -/

set_option autoImplicit false

namespace Pinout.Command

/-- The outcome of a command. -/
structure Outcome where
  failure : Option String
  output : List String
  errors : List String
  tree : File.Tree

namespace Outcome

/-- A command that failed before it printed anything. -/
def failed (tree : File.Tree) (message : String) : Outcome :=
  ⟨some message, [], [], tree⟩

def text (lines : List String) : String :=
  String.join (lines.map fun line => line ++ "\n")

end Outcome

end Pinout.Command
