/-! The layout of a header: lines, gaps and blocks. Blocks indent what they hold. A gap
asks for one empty line; it gets none at the start of a block or of the text, and none
at the end of either, and gaps in a row count as one. -/

set_option autoImplicit false

namespace Pinout.Header

/-- A piece of a header. -/
inductive Item where
  | line (text : String)
  | gap
  | block (opening : String) (body : List Item) (closing : String)

/-- A line with its part in the layout and the number of blocks around it. -/
inductive Row where
  | text (depth : Nat) (content : String)
  | opening (depth : Nat) (content : String)
  | closing (depth : Nat) (content : String)
  | gap
deriving DecidableEq

mutual

/-- The rows of a piece inside the given number of blocks. -/
def Item.rows (depth : Nat) : Item → List Row
  | .line content => [.text depth content]
  | .gap => [.gap]
  | .block opening body closing =>
    .opening depth opening :: (rowsOf (depth + 1) body ++ [.closing depth closing])

/-- The rows of pieces inside the given number of blocks. -/
def rowsOf (depth : Nat) : List Item → List Row
  | [] => []
  | item :: rest => item.rows depth ++ rowsOf depth rest

end

def indented (depth : Nat) (content : String) : String :=
  String.ofList (List.replicate (2 * depth) ' ') ++ content

/-- What was written last, as far as gaps are concerned. -/
inductive Spacing where
  /-- Nothing, or the opening of a block: a gap here is dropped. -/
  | fresh
  /-- A line: a gap here counts. -/
  | filled
  /-- A line and then a gap, which waits for the next line. -/
  | waiting
deriving DecidableEq

def Spacing.owed : Spacing → List String
  | .waiting => [""]
  | .fresh | .filled => []

/-- The lines of rows. A gap is written only once a line follows that closes no
block. -/
def linesOf : Spacing → List Row → List String
  | _, [] => []
  | spacing, .text depth content :: rest =>
    spacing.owed ++ indented depth content :: linesOf .filled rest
  | spacing, .opening depth content :: rest =>
    spacing.owed ++ indented depth content :: linesOf .fresh rest
  | _, .closing depth content :: rest => indented depth content :: linesOf .filled rest
  | .fresh, .gap :: rest => linesOf .fresh rest
  | .filled, .gap :: rest | .waiting, .gap :: rest => linesOf .waiting rest

def lines (items : List Item) : List String :=
  linesOf .fresh (rowsOf 0 items)

/-- The text of a header, each line of which ends with a line feed. -/
def render (items : List Item) : String :=
  "\n".intercalate (lines items) ++ "\n"

end Pinout.Header
