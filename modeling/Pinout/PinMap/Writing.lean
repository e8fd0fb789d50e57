import Pinout.PinMap.Section

/-! Writing sections. A section is written piece by piece: what opens it, its rows with
commas between them, and what closes it. How the pieces are set on lines is left open. -/

set_option autoImplicit false

namespace Pinout.PinMap

/-- What opens a section, with the words that stand before its name. -/
def opening (storage name : String) : String :=
  storage ++ String.ofList sectionMark ++ name ++ "[] = \x7b"

def braced (fields : List String) : String :=
  "\x7b" ++ ", ".intercalate fields ++ "\x7d"

/-- Rows with commas between them. -/
def rowPieces : List (List String) → List String
  | [] => []
  | [fields] => [braced fields]
  | fields :: next :: rest => braced fields :: "," :: rowPieces (next :: rest)

/-- The pieces of a section whose rows have the given fields. -/
def pieces (storage name : String) (rows : List (List String)) : List String :=
  opening storage name :: rowPieces rows ++ ["\x7d;"]

end Pinout.PinMap
