import Pinout.Named

/-! Values of configurations, before it is known what they configure. -/

set_option autoImplicit false

namespace Pinout.Project

/-- A value. Real numbers and moments are kept as they are spelled. The entries of a
table are sorted by name. -/
inductive Value where
  | null
  | flag (value : Bool)
  | number (value : Int)
  | real (spelling : String)
  | moment (spelling : String)
  | text (value : String)
  | list (items : List Value)
  | table (entries : List (String × Value))

/-- How closely a value is read. A strict reading wants null where a lenient one takes an
empty list or table, and refuses what a lenient one leaves out. -/
inductive Rigour where
  | strict
  | lenient
deriving DecidableEq

namespace Value

/-- The text, when the value is one. -/
def text? : Value → Option String
  | .text value => some value
  | _ => none

/-- The flag, when the value is one. -/
def flag? : Value → Option Bool
  | .flag value => some value
  | _ => none

/-- The items, when the value is a list. -/
def items? : Value → Option (List Value)
  | .list items => some items
  | _ => none

/-- The entries, when the value is a table. -/
def entries? : Value → Option (List (String × Value))
  | .table entries => some entries
  | _ => none

/-- The fields of a record with the given names. A table may hold other names too; a
list gives the fields in the order of the names and may stop early, and a lenient reading
drops items that are left over. A moment has no field that anyone asks for. -/
def fields? (rigour : Rigour) (names : List String) : Value → Option (List (String × Value))
  | .table entries => some entries
  | .list items =>
    if rigour = .lenient ∨ items.length ≤ names.length then some (names.zip items) else none
  | .moment _ => some []
  | _ => none

/-- The name of a choice: a text, or the only name in a table. A strict reading wants
null beside that name, and a lenient one an empty list or table. -/
def choice? (rigour : Rigour) : Value → Option String
  | .text name => some name
  | .table [(name, value)] =>
    match rigour, value with
    | .strict, .null => some name
    | .lenient, .list [] => some name
    | .lenient, .table [] => some name
    | _, _ => none
  | _ => none

/-- The value of a field, or the standard one when the field is left out. A field that
cannot be read spoils the record. -/
def field {α : Type} (fields : List (String × Value)) (name : String) (standard : α)
    (read : Value → Option α) : Option α :=
  match fields.lookup name with
  | none => some standard
  | some value => read value

def optional {α : Type} (read : Value → Option α) : Value → Option (Option α)
  | .null => some none
  | value => (read value).map some

/-- The entries that the next name of a chain is looked up in: those of a table, or of
the last table in a list. -/
def holder : Value → List (String × Value)
  | .table entries => entries
  | .list items => (items.getLast?.bind entries?).getD []
  | _ => []

def withHolder (entries : List (String × Value)) : Value → Value
  | .list items => .list (items.dropLast ++ [.table entries])
  | _ => .table entries

/-- Change what stands at the end of a chain of names, with tables on the way. -/
def change (step : Value → Value) : List String → Value → Value
  | [], value => step value
  | name :: rest, value =>
    let inner := (Named.get? value.holder name).getD (.table [])
    value.withHolder (Named.put name (change step rest inner) value.holder)

def addTable : Value → Value
  | .list items => .list (items ++ [.table []])
  | value => value

end Value

end Pinout.Project
