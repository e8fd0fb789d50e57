import Pinout.Proofs.Resolution.Conservation

/-! Resolution is local. What becomes of a resource is settled by its pin, by the timer
function that the board names for the pin and by the setting of its bus. Boards that
agree on these treat it alike, whatever else they hold and in whatever order. -/

set_option autoImplicit false

namespace Pinout.Resolution

open Board (Assignment Definition Policy Timer)
open Capability (Entry Table)

/-- Both boards put the resource on the pin and want the same of it there. -/
structure AsksAlike (left right : Definition) (id : ResourceId) (pin : Pin) : Prop where
  leftPin : (left.resource? id).map Assignment.pin = some pin
  rightPin : (right.resource? id).map Assignment.pin = some pin
  function : (left.timerFor? pin).map Timer.function = (right.timerFor? pin).map Timer.function
  setting : ∀ signal, id.resource = .bus signal →
    left.setting? (overrideKey ⟨signal.kind, id.index⟩) =
      right.setting? (overrideKey ⟨signal.kind, id.index⟩)

/-- Both outcomes drop the resource, or both have it on the same entry; a resource
outside the model is in neither. -/
def TreatsAlike (left right : Outcome) (id : ResourceId) : Prop :=
  (id ∈ left.board.dropped ∧ id ∈ right.board.dropped) ∨
    (∃ place other, left.board.find? id = some place ∧ right.board.find? id = some other ∧
      place.entry = other.entry) ∨
    (id.resource.isModeled = false ∧ left.board.find? id = none ∧
      right.board.find? id = none)

/-- Of a timer only the function counts. -/
theorem placeOutput_congr (table : Table) (pin : Pin) {timer other : Option Timer}
    (same : timer.map Timer.function = other.map Timer.function) :
    placeOutput table pin timer = placeOutput table pin other := by
  cases timer with
  | none =>
      cases other with
      | none => rfl
      | some _ => cases same
  | some timer =>
      cases other with
      | none => cases same
      | some other =>
          have function : timer.function = other.function := Option.some.inj same
          simp only [placeOutput, function]

theorem decision?_congr {left right : Definition} (table : Table) {source other : Assignment}
    (sameId : source.id = other.id) (samePin : source.pin = other.pin)
    (function : (left.timerFor? source.pin).map Timer.function =
      (right.timerFor? source.pin).map Timer.function)
    (setting : ∀ signal, source.id.resource = .bus signal →
      left.setting? (overrideKey ⟨signal.kind, source.id.index⟩) =
        right.setting? (overrideKey ⟨signal.kind, source.id.index⟩)) :
    decision? left table source = decision? right table other := by
  simp only [decision?, placeOutputOf, ← sameId, ← samePin]
  cases carries : source.id.resource with
  | bus signal =>
      simp only [wantedSelector_eq _ (kind_mem_busKinds signal), setting signal carries]
  | output family => simp only [placeOutput_congr table source.pin function]
  | single role => rfl
  | other keyword => rfl

section Lookup

variable {board : Definition} {table : Table} {options : Options} {source : Assignment}

theorem mem_dropped_of_decision (modeled : source ∈ board.modeled) {refusal : Refusal}
    (refused : decision? board table source = some (.error refusal)) :
    source.id ∈ (resolve board table options).board.dropped :=
  mem_dropped_iff.mpr ⟨source, modeled, rfl, refusal, by rw [refusal?, refused]⟩

theorem find?_of_decision (unambiguous : board.Unambiguous) (modeled : source ∈ board.modeled)
    {entry : Option Entry} (placed : decision? board table source = some (.ok entry)) :
    (resolve board table options).board.find? source.id = some ⟨source, entry⟩ := by
  rw [resolve, find?_eq_placement? unambiguous modeled, placement?, placed]

theorem find?_of_unmodeled (unambiguous : board.Unambiguous) {id : ResourceId}
    (outside : id.resource.isModeled = false) :
    (resolve board table options).board.find? id = none := by
  rw [← Option.not_isSome_iff_eq_none, resolve, find?_isSome_iff unambiguous]
  intro given
  obtain ⟨⟨source, modeled, rfl⟩, _⟩ := given
  rw [(mem_modeled_iff.mp modeled).2] at outside
  cases outside

end Lookup

theorem exists_assignment {board : Definition} {id : ResourceId} {pin : Pin}
    (assigned : (board.resource? id).map Assignment.pin = some pin) :
    ∃ source ∈ board.resources, source.id = id ∧ source.pin = pin := by
  obtain ⟨source, found, onPin⟩ := Option.map_eq_some_iff.mp assigned
  exact ⟨source, List.mem_of_find?_eq_some found, by simpa using List.find?_some found, onPin⟩

theorem treatsAlike_of_unambiguous {left right : Definition} (leftClear : left.Unambiguous)
    (rightClear : right.Unambiguous) (table : Table) (leftOptions rightOptions : Options)
    {id : ResourceId} {pin : Pin} (alike : AsksAlike left right id pin) :
    TreatsAlike (resolve left table leftOptions) (resolve right table rightOptions) id := by
  obtain ⟨source, member, rfl, rfl⟩ := exists_assignment alike.leftPin
  obtain ⟨other, otherMember, sameId, samePin⟩ := exists_assignment alike.rightPin
  have same : decision? left table source = decision? right table other :=
    decision?_congr table sameId.symm samePin.symm alike.function alike.setting
  by_cases inside : source.id.resource.isModeled = true
  · have modeled := mem_modeled_iff.mpr ⟨member, inside⟩
    have otherModeled := mem_modeled_iff.mpr ⟨otherMember, sameId ▸ inside⟩
    obtain ⟨outcome, decided⟩ := exists_decision left table inside
    have otherDecided := same ▸ decided
    cases outcome with
    | error refusal =>
        exact .inl ⟨mem_dropped_of_decision modeled decided,
          sameId ▸ mem_dropped_of_decision otherModeled otherDecided⟩
    | ok entry =>
        exact .inr (.inl ⟨⟨source, entry⟩, ⟨other, entry⟩,
          find?_of_decision leftClear modeled decided,
          sameId ▸ find?_of_decision rightClear otherModeled otherDecided, rfl⟩)
  · rw [Bool.not_eq_true] at inside
    exact .inr (.inr ⟨inside, find?_of_unmodeled leftClear inside,
      find?_of_unmodeled rightClear inside⟩)

/-- Whatever two texts say, they agree on what becomes of a resource as soon as they
agree on its pin, on the timer function of the pin and on the setting of its bus. -/
theorem treatsAlike_resolve (table : Table) (leftPolicy rightPolicy : Policy)
    (leftText rightText : String) (leftOptions rightOptions : Options)
    {id : ResourceId} {pin : Pin}
    (alike : AsksAlike (Board.parse leftPolicy leftText).board
      (Board.parse rightPolicy rightText).board id pin) :
    TreatsAlike (resolve (Board.parse leftPolicy leftText).board table leftOptions)
      (resolve (Board.parse rightPolicy rightText).board table rightOptions) id :=
  treatsAlike_of_unambiguous (Board.parse_unambiguous leftPolicy leftText)
    (Board.parse_unambiguous rightPolicy rightText) table leftOptions rightOptions alike

/-- A board with a signal at a bus that it moves to the third instance. -/
def plainBoard : String :=
  "resource SPI_SCK 1 B03\nset bus_spi_1 = 3"

/-- A board with the same signal at the same bus among other things. -/
def fullBoard : String :=
  "set bus_spi_1 = 3\nresource MOTOR 1 B03\nresource SPI_SCK 1 B03\ntimer A08 AF1"

/-- A table with two mappings of the pin, the second of them at the third instance. -/
def clockTable : Table :=
  let entry (alternate : Option UInt8) (target : Instance) : Entry :=
    ⟨⟨⟨1, 3⟩, alternate⟩, target, some 5, .bus .spiSclk⟩
  (Capability.ofEntries "F4" [entry none ⟨"SPI1", rfl⟩, entry (some 1) ⟨"SPI3", rfl⟩]).table

theorem treatsAlike_moved :
    let left := (Board.parse .lastWins plainBoard).board
    let right := (Board.parse .firstWins fullBoard).board
    AsksAlike left right ⟨.bus .spiSclk, 1⟩ ⟨1, 3⟩ ∧
      TreatsAlike (resolve left clockTable {}) (resolve right clockTable {})
        ⟨.bus .spiSclk, 1⟩ := by
  have alike : AsksAlike (Board.parse .lastWins plainBoard).board
      (Board.parse .firstWins fullBoard).board ⟨.bus .spiSclk, 1⟩ ⟨1, 3⟩ := by
    constructor
    case leftPin => decide +kernel
    case rightPin => decide +kernel
    case function => decide +kernel
    case setting =>
      intro signal carries
      cases carries
      decide +kernel
  exact ⟨alike, treatsAlike_resolve clockTable .lastWins .firstWins plainBoard fullBoard {} {}
    alike⟩

end Pinout.Resolution
