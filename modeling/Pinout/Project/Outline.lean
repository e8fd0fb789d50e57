import Pinout.Project.Value

/-! Growth of a table from headings and assignments. A table is declared by one heading
at most, and a name is given one value. Headings imply the tables on the way to theirs,
which may be declared later; a dotted name implies tables that only dotted names fill.
Tables in a list are declared one after another, and only the last of them grows. -/

set_option autoImplicit false

namespace Pinout.Project

/-- How a name came into a configuration. -/
inductive Mark where
  | implied
  | dotted
  | declared
  | listed
  | value
deriving DecidableEq

/-- A table so far, and how each chain of names came into it. Chains through a list
lead to its last table. -/
structure Outline where
  marks : List (List String × Mark)
  root : Value

namespace Outline

def empty : Outline :=
  ⟨[], .table []⟩

def enter (outline : Outline) (chain : List String) (mark : Mark) (value : Value) :
    Outline where
  marks := (chain, mark) :: outline.marks
  root := outline.root.change (fun _ => value) chain

/-- Pass through the tables on the way, one name after another, and make those that are
missing. -/
def pass (mark : Mark) (admits : Mark → Bool) :
    Outline → List String → List String → Option Outline
  | outline, _, [] => some outline
  | outline, reached, name :: rest =>
    let chain := reached ++ [name]
    match outline.marks.lookup chain with
    | none => pass mark admits (outline.enter chain mark (.table [])) chain rest
    | some found => if admits found then pass mark admits outline chain rest else none

def declare (outline : Outline) (chain : List String) : Option Outline := do
  let ready ← pass .implied (· ≠ .value) outline [] chain.dropLast
  match ready.marks.lookup chain with
  | none => return ready.enter chain .declared (.table [])
  | some .implied => return { ready with marks := (chain, .declared) :: ready.marks }
  | some _ => none

/-- Declare the next table of a list. What came into the one before it is settled. -/
def declareNext (outline : Outline) (chain : List String) : Option Outline := do
  let ready ← pass .implied (· ≠ .value) outline [] chain.dropLast
  match ready.marks.lookup chain with
  | none => return ready.enter chain .listed (.list [.table []])
  | some .listed =>
    let isWithin (found : List String) : Bool := chain.isPrefixOf found && found ≠ chain
    return {
      marks := ready.marks.filter fun (found, _) => !isWithin found
      root := ready.root.change Value.addTable chain }
  | some _ => none

def assign (outline : Outline) (table names : List String) (value : Value) :
    Option Outline := do
  let ready ← pass .dotted (fun mark => mark ≠ .declared ∧ mark ≠ .value) outline table
    names.dropLast
  let holder := table ++ names.dropLast
  let chain := table ++ names
  if names.length ≠ 1 ∧ ready.marks.lookup holder ≠ some .dotted then none
  else if (ready.marks.lookup chain).isSome then none
  else some (ready.enter chain .value value)

def ofAssignments : Outline → List (List String × Value) → Option Outline
  | outline, [] => some outline
  | outline, (names, value) :: rest => do
    ofAssignments (← outline.assign [] names value) rest

end Outline

end Pinout.Project
