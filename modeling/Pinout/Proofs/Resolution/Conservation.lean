import Pinout.Capability.Reading
import Pinout.Proofs.Resolution.Accounting

/-! Conservation of resources: resolution puts every modeled resource in its place or
drops it with one error, and it invents none. -/

set_option autoImplicit false

namespace Pinout.Resolution

open Board (Assignment Definition Policy)
open Capability (Table)

/-- What an outcome owes to each resource of its board. -/
structure Accounted (board : Definition) (outcome : Outcome) : Prop where
  /-- A modeled resource is placed or dropped, once. -/
  once : ∀ source ∈ board.modeled,
    (outcome.board.placements.map Placement.id ++ outcome.board.dropped).count source.id = 1
  /-- A signal that is not dropped is on the bus of its own kind and number. -/
  signals : ∀ source ∈ board.resources, ∀ signal, source.id.resource = .bus signal →
    source.id ∈ outcome.board.dropped ∨
      ∃ bus ∈ outcome.board.buses, bus.kind = signal.kind ∧ bus.index = source.id.index ∧
        ∃ placement ∈ bus.pins, placement.source = source
  /-- An output that is not dropped is in the bank of its timer. -/
  outputs : ∀ source ∈ board.resources, ∀ family, source.id.resource = .output family →
    source.id ∈ outcome.board.dropped ∨
      ∃ bank ∈ outcome.board.banks, ∃ placement ∈ bank.channels,
        placement.source = source ∧ placement.target? = some bank.target
  /-- A role that is not dropped is among the roles. -/
  roles : ∀ source ∈ board.resources, ∀ role, source.id.resource = .single role →
    source.id ∈ outcome.board.dropped ∨
      ∃ placement ∈ outcome.board.roles, placement.source = source
  /-- Nothing else is placed or dropped. -/
  modeledOnly : ∀ id ∈ outcome.board.placements.map Placement.id ++ outcome.board.dropped,
    id.resource.isModeled = true ∧ ∃ source ∈ board.modeled, source.id = id
  total : outcome.board.placedCount + outcome.board.dropped.length = board.modeled.length
  found : ∀ id, (outcome.board.find? id).isSome = true ↔
    (∃ source ∈ board.modeled, source.id = id) ∧ id ∉ outcome.board.dropped
  /-- A dropped resource is named by one refusal, which is an error. -/
  reported : ∀ id ∈ outcome.board.dropped, ∃ diagnostic,
    ((refusalFindings outcome.diagnostics).filter fun found => found.resource = some id) =
      [diagnostic] ∧ diagnostic.isError = true
  /-- A refusal names a dropped resource. -/
  named : ∀ diagnostic ∈ refusalFindings outcome.diagnostics,
    ∃ id ∈ outcome.board.dropped, diagnostic.resource = some id

variable {board : Definition} {table : Table} {options : Options}

theorem find?_isSome_iff (unambiguous : board.Unambiguous) (id : ResourceId) :
    ((resolvedBoard board table options).find? id).isSome = true ↔
      (∃ source ∈ board.modeled, source.id = id) ∧
        id ∉ (resolvedBoard board table options).dropped := by
  constructor
  · intro placed
    obtain ⟨placement, located⟩ := Option.isSome_iff_exists.mp placed
    obtain ⟨source, modeled, decided⟩ :=
      mem_placements_iff.mp (List.mem_of_find?_eq_some located)
    have named : placement.id = id := by simpa using List.find?_some located
    rw [Placement.id, source_of_placement? decided] at named
    refine ⟨⟨source, modeled, named⟩, ?_⟩
    rw [← named, id_mem_dropped_iff unambiguous modeled]
    intro given
    obtain ⟨refusal, refused⟩ := given
    rw [refusal?_of_placed decided] at refused
    cases refused
  · intro given
    obtain ⟨⟨source, modeled, rfl⟩, kept⟩ := given
    rw [find?_eq_placement? unambiguous modeled]
    exact Option.isSome_iff_exists.mpr (exists_placement_of_kept modeled kept)

theorem accounted_of_unambiguous (unambiguous : board.Unambiguous) :
    Accounted board (resolve board table options) where
  once source modeled := by
    rw [resolve, (ids_perm board table options).count_eq]
    exact List.count_eq_one_of_mem unambiguous.modeled (List.mem_map.mpr ⟨source, modeled, rfl⟩)
  signals source member signal carries := by
    by_cases kept : source.id ∈ (resolvedBoard board table options).dropped
    · exact .inl kept
    · have modeled := mem_modeled_iff.mpr ⟨member, by rw [carries]; rfl⟩
      obtain ⟨placement, placed⟩ := exists_placement_of_kept modeled kept
      obtain ⟨bus, resolved, kind, index, pinned⟩ :=
        exists_bus_of_placement member carries placed
      exact .inr ⟨bus, resolved, kind, index, placement, pinned, source_of_placement? placed⟩
  outputs source member family timed := by
    by_cases kept : source.id ∈ (resolvedBoard board table options).dropped
    · exact .inl kept
    · have modeled := mem_modeled_iff.mpr ⟨member, by rw [timed]; rfl⟩
      obtain ⟨placement, placed⟩ := exists_placement_of_kept modeled kept
      obtain ⟨bank, resolved, onTimer, driven⟩ := exists_bank_of_placement member timed placed
      exact .inr ⟨bank, resolved, placement, driven, source_of_placement? placed, onTimer⟩
  roles source member role single := by
    by_cases kept : source.id ∈ (resolvedBoard board table options).dropped
    · exact .inl kept
    · have modeled := mem_modeled_iff.mpr ⟨member, by rw [single]; rfl⟩
      obtain ⟨placement, placed⟩ := exists_placement_of_kept modeled kept
      exact .inr ⟨placement, mem_placedRoles_of_placement member single placed,
        source_of_placement? placed⟩
  modeledOnly id member := by
    have named := (ids_perm board table options).mem_iff.mp member
    obtain ⟨source, modeled, rfl⟩ := List.mem_map.mp named
    exact ⟨(mem_modeled_iff.mp modeled).2, source, modeled, rfl⟩
  total := by
    have together := (ids_perm board table options).length_eq
    rw [List.length_append, List.length_map, List.length_map] at together
    rw [placedCount_eq]
    exact together
  found := find?_isSome_iff unambiguous
  reported id member := by
    obtain ⟨source, modeled, rfl, refusal, refused⟩ := mem_dropped_iff.mp member
    refine ⟨refusal.diagnostic table.mcu source, ?_, rfl⟩
    rw [resolve, refusalFindings_naming unambiguous modeled, refusalIssue?, refused]
    rfl
  named diagnostic member := by
    obtain ⟨source, modeled, issue⟩ :=
      List.mem_filterMap.mp ((refusalFindings_perm board table options).mem_iff.mp member)
    obtain ⟨refusal, refused, rfl⟩ := Option.map_eq_some_iff.mp issue
    exact ⟨source.id, mem_dropped_iff.mpr ⟨source, modeled, rfl, refusal, refused⟩, rfl⟩

/-- Whatever a board and a table say, each modeled resource of the board ends up in one
place or among the dropped ones, where one error explains it. -/
theorem accounted_resolve (policy : Policy) (text mcu tableText : String)
    (options : Options) :
    Accounted (Board.parse policy text).board
      (resolve (Board.parse policy text).board (Capability.parse mcu tableText).table
        options) :=
  accounted_of_unambiguous (Board.parse_unambiguous policy text)

end Pinout.Resolution
