import Pinout.Capability.Reading
import Pinout.Proofs.Text.Case

/-! Lookups by instance. The name that is looked for may be in any case, but the index has the
names of the table as they are spelled there. So a lookup gives those of the entries called
for whose names have no small letter, in the order of the table, and passes over the others. -/

set_option autoImplicit false

namespace Pinout

/-! ## Instances -/

namespace Capability

open Text (SameLetters InCapitals)

namespace Table

/-- The entries of a kind whose instance has the name, in any case. -/
def called (table : Table) (kind : Kind) (name : String) : List Entry :=
  table.entries.filter fun entry => entry.kind = kind ∧ SameLetters entry.target.name name

/-- A lookup by instance gives the entries called for that the table spells in capitals. -/
structure FindsCapitals (table : Table) : Prop where
  found : ∀ kind name, table.entriesOf kind name =
    (table.called kind name).filter fun entry => InCapitals entry.target.name
  complete_iff : ∀ kind name, table.entriesOf kind name = table.called kind name ↔
    ∀ entry ∈ table.called kind name, InCapitals entry.target.name
  own_iff : ∀ entry ∈ table.entries,
    entry ∈ table.entriesOf entry.kind entry.target.name ↔ InCapitals entry.target.name

variable (table : Table) (kind : Kind) (name : String)

theorem entriesOf_eq_filter_called :
    table.entriesOf kind name =
      (table.called kind name).filter fun entry => InCapitals entry.target.name := by
  rw [entriesOf_eq, called, List.filter_filter]
  apply List.filter_congr
  intro entry _
  rw [← Bool.decide_and, decide_eq_decide, Text.eq_upper_iff]
  tauto

theorem findsCapitals : table.FindsCapitals where
  found := table.entriesOf_eq_filter_called
  complete_iff := by
    intro kind name
    rw [entriesOf_eq_filter_called, List.filter_eq_self]
    simp only [decide_eq_true_eq]
  own_iff := by
    intro entry member
    have listed : entry ∈ table.called entry.kind entry.target.name :=
      List.mem_filter.mpr ⟨member, decide_eq_true ⟨rfl, rfl⟩⟩
    rw [entriesOf_eq_filter_called, List.mem_filter, decide_eq_true_eq]
    exact and_iff_right listed

end Table

/-- Whether it was read from a text or made of entries, a table is found to have just those
entries of an instance whose names it spells in capitals. -/
theorem findsCapitals_tables (mcu : String) :
    (∀ text, (parse mcu text).table.FindsCapitals) ∧
      ∀ entries, (ofEntries mcu entries).table.FindsCapitals :=
  ⟨fun text => (parse mcu text).table.findsCapitals,
    fun entries => (ofEntries mcu entries).table.findsCapitals⟩

def smallTable : String :=
  "const PinMap PinMap_UART_TX[] = {{PA_9, usart1, 0}};"

/-- An instance in small letters is found under no name, not even under its own. -/
theorem exists_unfound_instance :
    ∃ entry ∈ (parse "F4" smallTable).table.entries,
      entry ∈ (parse "F4" smallTable).table.called entry.kind entry.target.name ∧
        entry ∉ (parse "F4" smallTable).table.entriesOf entry.kind entry.target.name := by
  decide +kernel

end Capability

end Pinout
