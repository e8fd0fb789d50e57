import Pinout.Proofs.Capability.Listing
import Pinout.Proofs.Evaluation
import Pinout.Proofs.Resolution.Accounting

/-! The instance of a bus. All signals of a bus are matched against one selector, and the
bus is named after the instance of the first one. A selector can have several answers in
one table, such as `USART1` and `UART1`; only where it has one is that name the instance
of every signal. -/

set_option autoImplicit false

namespace Pinout

namespace Capability.Table

/-- At most one instance in the table answers the selector. -/
def Settles (table : Table) (selector : Selector) : Prop :=
  ∀ left ∈ table.instances selector.kind, ∀ right ∈ table.instances selector.kind,
    selector.selects left = true → selector.selects right = true → left.name = right.name

/-- No selector has two answers in the table. -/
def Selective (table : Table) : Prop :=
  ∀ selector, table.Settles selector

theorem settles_iff {table : Table} {selector : Selector} :
    table.Settles selector ↔ ∀ entry ∈ table.entries, ∀ other ∈ table.entries,
      entry.kind = selector.kind → other.kind = selector.kind →
        selector.selects entry.target = true → selector.selects other.target = true →
          entry.target.name = other.target.name := by
  constructor
  · intro settles entry listed other otherListed ofKind otherKind
    exact settles _ (mem_instances_iff.mpr ⟨entry, listed, ofKind, rfl⟩) _
      (mem_instances_iff.mpr ⟨other, otherListed, otherKind, rfl⟩)
  · intro apart left leftListed right rightListed
    obtain ⟨entry, listed, ofKind, rfl⟩ := mem_instances_iff.mp leftListed
    obtain ⟨other, otherListed, otherKind, rfl⟩ := mem_instances_iff.mp rightListed
    exact apart entry listed other otherListed ofKind otherKind

instance (table : Table) (selector : Selector) : Decidable (table.Settles selector) :=
  decidable_of_iff _ settles_iff.symm

/-- The selectors that some entry of the table answers by its number. -/
def selectors (table : Table) : List Selector :=
  table.entries.filterMap fun entry =>
    entry.target.number?.map fun number => ⟨entry.kind, number⟩

theorem selective_iff {table : Table} :
    table.Selective ↔ ∀ selector ∈ table.selectors, table.Settles selector := by
  constructor
  · intro selective selector _
    exact selective selector
  · intro settled selector left listed right otherListed selected otherSelected
    obtain ⟨entry, ofTable, ofKind, rfl⟩ := mem_instances_iff.mp listed
    have numbered : entry.target.number? = some selector.number := by
      simp only [Selector.selects, Bool.and_eq_true, beq_iff_eq] at selected
      exact selected.1
    have answered : selector ∈ table.selectors :=
      List.mem_filterMap.mpr ⟨entry, ofTable, by rw [numbered, ofKind, Option.map_some]⟩
    exact settled selector answered _ listed _ otherListed selected otherSelected

instance (table : Table) : Decidable table.Selective :=
  decidable_of_iff _ selective_iff.symm

end Capability.Table

namespace Resolution

open Board (Assignment Definition Policy)
open Capability (Entry Table)

variable {board : Definition} {table : Table}

theorem selector_of_resolveBus? {owner : BusId} {bus : Bus}
    (found : resolveBus? board table owner = some bus) :
    bus.selector = wantedSelector board owner := by
  unfold resolveBus? at found
  split at found <;> cases found
  rfl

theorem pins_of_resolveBus? {owner : BusId} {bus : Bus}
    (found : resolveBus? board table owner = some bus) :
    bus.pins = ((members board owner).map (·.1)).filterMap (placement? board table) := by
  have pins := pins_resolveBus? board table owner
  rw [found] at pins
  simpa using pins

theorem exists_pin_at_target {owner : BusId} {bus : Bus}
    (found : resolveBus? board table owner = some bus) :
    ∃ placement ∈ bus.pins, placement.target? = some bus.target := by
  unfold resolveBus? at found
  split at found <;> cases found
  exact ⟨_, List.mem_cons_self, rfl⟩

theorem pins_ne_nil_of_resolveBus? {owner : BusId} {bus : Bus}
    (found : resolveBus? board table owner = some bus) : bus.pins ≠ [] := by
  obtain ⟨_, pinned, _⟩ := exists_pin_at_target found
  exact List.ne_nil_of_mem pinned

/-- The selector of a bus selects the instance of each of its pins. -/
theorem selects_of_mem_pins {owner : BusId} {bus : Bus}
    (found : resolveBus? board table owner = some bus) {placement : Placement}
    (pinned : placement ∈ bus.pins) :
    ∃ target ∈ table.instances bus.selector.kind, placement.target? = some target ∧
      bus.selector.selects target = true := by
  rw [pins_of_resolveBus? found] at pinned
  obtain ⟨source, inside, placed⟩ := List.mem_filterMap.mp pinned
  obtain ⟨⟨_, signal⟩, member, rfl⟩ := List.mem_map.mp inside
  obtain ⟨_, carries, rfl⟩ := mem_members_iff.mp member
  obtain ⟨entry, listed, rfl, _, carried, selected⟩ := entry_of_placed_signal carries placed
  rw [selector_of_resolveBus? found]
  refine ⟨entry.target, Table.mem_instances_iff.mpr ⟨entry, listed, ?_, rfl⟩, rfl, selected⟩
  rw [Capability.Entry.kind_of_signal? carried, kind_wantedSelector]

theorem target?_of_mem_pins {owner : BusId} {bus : Bus}
    (found : resolveBus? board table owner = some bus)
    (settles : table.Settles bus.selector) {placement : Placement}
    (pinned : placement ∈ bus.pins) : placement.target? = some bus.target := by
  obtain ⟨first, firstPinned, named⟩ := exists_pin_at_target found
  obtain ⟨_, firstListed, atFirst, firstSelected⟩ := selects_of_mem_pins found firstPinned
  obtain rfl := Option.some.inj (atFirst.symm.trans named)
  obtain ⟨target, listed, located, selected⟩ := selects_of_mem_pins found pinned
  rw [located, Instance.ext_name (settles target listed _ firstListed selected firstSelected)]

/-- Whatever a board and a table say, a bus whose selector has one answer in the table is
at one instance with all its pins. -/
theorem target?_resolve (policy : Policy) (text mcu tableText : String) (options : Options) :
    let table := (Capability.parse mcu tableText).table
    ∀ bus ∈ (resolve (Board.parse policy text).board table options).board.buses,
      table.Settles bus.selector →
        ∀ placement ∈ bus.pins, placement.target? = some bus.target := by
  intro table bus resolved settles placement pinned
  obtain ⟨_, _, found⟩ := List.mem_filterMap.mp resolved
  exact target?_of_mem_pins found settles pinned

def serialBoard : String :=
  "resource SERIAL_TX 1 A09\nresource SERIAL_RX 1 A10"

/-- A table with one mapping for each direction of a serial port, the first at `USART1`. -/
def serialTable (receiver : String) : String :=
  "const PinMap PinMap_UART_TX[] = \x7b\x7bPA_9, USART1, 0\x7d\x7d;\n" ++
    "const PinMap PinMap_UART_RX[] = \x7b\x7bPA_10, " ++ receiver ++ ", 0\x7d\x7d;"

theorem target?_serial :
    let table := (Capability.parse "F4" (serialTable "USART1")).table
    let buses := (resolve (Board.parse .lastWins serialBoard).board table {}).board.buses
    ((buses.map fun bus => bus.pins.length) = [2] ∧
      ∀ bus ∈ buses, table.Settles bus.selector) ∧
      ∀ bus ∈ buses, ∀ placement ∈ bus.pins, placement.target? = some bus.target := by
  intro table buses
  have settled : (buses.map fun bus => bus.pins.length) = [2] ∧
      ∀ bus ∈ buses, table.Settles bus.selector := by
    simp only [buses, table, Board.board_parse, Capability.table_parse]
    decide +kernel
  refine ⟨settled, ?_⟩
  intro bus resolved
  exact target?_resolve .lastWins serialBoard "F4" (serialTable "USART1") {} bus resolved
    (settled.2 bus resolved)

/-- Where both serial names answer, a bus can be named after one and receive at the other. -/
theorem exists_mixed_bus :
    ∃ bus ∈ (resolve (Board.parse .lastWins serialBoard).board
        (Capability.parse "F4" (serialTable "UART1")).table {}).board.buses,
      ∃ placement ∈ bus.pins, placement.target? ≠ some bus.target := by
  simp only [Board.board_parse, Capability.table_parse]
  decide +kernel

end Resolution

end Pinout
