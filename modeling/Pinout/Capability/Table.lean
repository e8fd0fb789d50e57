import Pinout.Capability.Catalog

/-! Capability tables: what each pin of a microcontroller can be routed to. Entries
keep the order of the table, and no two of them are rivals when the table was read
from a text. The entries of a pin or of an instance are found by the indexes of the
catalog. -/

set_option autoImplicit false

namespace Pinout.Capability

/-- A capability table. Besides its entries it knows every pin that some row names,
and the names of its sections. -/
structure Table extends Catalog where
  mcu : String
  pins : List Pin
  sections : List String
deriving DecidableEq

namespace Table

def entriesFor (table : Table) (pin : Pin) (kind : Kind) : List Entry :=
  table.entriesAt (pin, kind)

theorem entriesFor_eq (table : Table) (pin : Pin) (kind : Kind) :
    table.entriesFor pin kind =
      table.entries.filter fun entry => entry.pin.base = pin ∧ entry.kind = kind := by
  rw [entriesFor, Catalog.entriesAt_eq]
  exact List.filter_congr fun entry _ => by simp [Entry.site]

/-- The entries of an instance. The name that is looked for is put in capitals; the names
in the index are not. -/
def entriesOf (table : Table) (kind : Kind) (name : String) : List Entry :=
  table.entriesUnder (kind, Text.upper name)

theorem entriesOf_eq (table : Table) (kind : Kind) (name : String) :
    table.entriesOf kind name = table.entries.filter fun entry =>
      entry.kind = kind ∧ entry.target.name = Text.upper name := by
  rw [entriesOf, Catalog.entriesUnder_eq]
  exact List.filter_congr fun entry _ => by simp [Entry.address]

/-- The first mapping of a pin to an instance that the selector selects. -/
def reaching? (table : Table) (pin : Pin) (kind : Kind) (selector : Selector) :
    Option Entry :=
  (table.entriesFor pin kind).find? fun entry => selector.selects entry.target

def entriesForSignal (table : Table) (pin : Pin) (signal : Signal) : List Entry :=
  (table.entriesFor pin signal.kind).filter fun entry => entry.signal? = some signal

/-- The first mapping of a pin that carries the signal of a selected instance. -/
def carrying? (table : Table) (pin : Pin) (signal : Signal) (selector : Selector) :
    Option Entry :=
  (table.entriesForSignal pin signal).find? fun entry => selector.selects entry.target

def analog? (table : Table) (pin : Pin) : Option Entry :=
  (table.entriesFor pin .adc).head?

/-- The pins of the backup domain, which every package has and few tables list. -/
def isBackupPin (pin : Pin) : Bool :=
  pin.letter == 'C' && 13 ≤ pin.number.val

/-- Does the package have the pin? Tables list only pins with a peripheral function,
so a listed pin vouches for its whole port. -/
def knowsPin (table : Table) (pin : Pin) : Bool :=
  isBackupPin pin || table.pins.any fun known => known.port = pin.port

/-- The order of addresses: by kind, and within a kind by name. -/
def addressPrecedes (left right : Kind × String) : Bool :=
  left.1.rank < right.1.rank || (left.1 == right.1 && left.2 ≤ right.2)

/-- The groups of a kind in the order of their addresses. Those of all kinds stand in one
order, in which the kind begins where its empty name would stand and goes on as long as the
groups are of the kind. -/
def groupsOf (table : Table) (kind : Kind) : List ((Kind × String) × List Nat) :=
  let ordered := table.names.mergeSort fun left right => addressPrecedes left.1 right.1
  let behind := ordered.dropWhile fun group => !addressPrecedes (kind, "") group.1
  behind.takeWhile fun group => group.1.1 = kind

/-- The first entry of a group. -/
def firstOf? (table : Table) (group : (Kind × String) × List Nat) : Option Entry :=
  group.2.head?.bind fun place => table.entries[place]?

/-- The place of an instance among those with its stem: unnumbered ones come first. -/
def numberRank (target : Instance) : Nat :=
  match target.number? with
  | none => 0
  | some number => number.toNat + 1

/-- The order of instances: by stem, then by number. -/
def instancePrecedes (left right : Instance) : Bool :=
  left.stem < right.stem ||
    (left.stem == right.stem && numberRank left ≤ numberRank right)

/-- The instances of a kind, one for each group of the kind. Those that have stem and number
in common stay in the order of the groups. -/
def instances (table : Table) (kind : Kind) : List Instance :=
  (((table.groupsOf kind).filterMap table.firstOf?).map (·.target)).mergeSort instancePrecedes

end Table

end Pinout.Capability
