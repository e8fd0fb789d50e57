import Mathlib.Data.List.Nodup
import Pinout.Proofs.Grouping
import Pinout.Proofs.Peripheral.Selector
import Pinout.Proofs.Resolution.Placement

/-! The buses of a board, as groups of its assignments. Every bus signal is a member of
exactly one declared bus, the one of its own kind and number. -/

set_option autoImplicit false

namespace Pinout

theorem pairwise_allNumbers : allNumbers.Pairwise (· < ·) := by
  refine List.pairwise_map.mpr (List.pairwise_lt_range.imp_of_mem ?_)
  intro early late earlyBound lateBound before
  rw [UInt8.lt_iff_toNat_lt]
  simpa [Nat.mod_eq_of_lt (List.mem_range.mp earlyBound),
    Nat.mod_eq_of_lt (List.mem_range.mp lateBound)] using before

theorem nodup_allNumbers : allNumbers.Nodup :=
  pairwise_allNumbers.imp UInt8.ne_of_lt

namespace Resolution

open Board (Assignment Definition)
open Capability (Entry Table)

def owner? (source : Assignment) : Option BusId :=
  (busSignal? source.id).map (·.2)

/-- The assignments of the declared buses, bus by bus. -/
def busSources (board : Definition) : List Assignment :=
  (declaredBuses board).flatMap fun bus => (members board bus).map (·.1)

theorem busSignal?_eq_some_iff {id : ResourceId} {signal : Signal} {bus : BusId} :
    busSignal? id = some (signal, bus) ↔
      id.resource = .bus signal ∧ bus = ⟨signal.kind, id.index⟩ := by
  unfold busSignal?
  split
  · rename_i carried same
    simp only [Option.some.injEq, Prod.mk.injEq, same, Resource.bus.injEq]
    constructor
    · intro given
      obtain ⟨rfl, rfl⟩ := given
      exact ⟨rfl, rfl⟩
    · intro given
      obtain ⟨rfl, rfl⟩ := given
      exact ⟨rfl, rfl⟩
  · rename_i other
    simp only [reduceCtorEq, false_iff, not_and]
    exact fun same => absurd same (other signal)

theorem owner?_eq_some_iff {source : Assignment} {bus : BusId} :
    owner? source = some bus ↔
      ∃ signal, source.id.resource = .bus signal ∧ bus = ⟨signal.kind, source.id.index⟩ := by
  simp [owner?, busSignal?_eq_some_iff]

theorem mem_members_iff {board : Definition} {bus : BusId} {source : Assignment}
    {signal : Signal} :
    (source, signal) ∈ members board bus ↔
      source ∈ board.resources ∧ source.id.resource = .bus signal ∧
        bus = ⟨signal.kind, source.id.index⟩ := by
  simp only [members, List.mem_filterMap]
  constructor
  · intro given
    obtain ⟨assignment, member, chosen⟩ := given
    split at chosen
    · rename_i carried owner found
      split at chosen
      · rename_i same
        subst same
        cases chosen
        exact ⟨member, busSignal?_eq_some_iff.mp found⟩
      · cases chosen
    · cases chosen
  · intro given
    obtain ⟨member, carries⟩ := given
    exact ⟨source, member, by simp [busSignal?_eq_some_iff.mpr carries]⟩

theorem members_map_source (board : Definition) (bus : BusId) :
    (members board bus).map (·.1) =
      board.resources.filter fun source => owner? source = some bus := by
  rw [members, List.map_filterMap, ← List.filterMap_eq_filter]
  apply List.filterMap_congr
  intro source _
  cases carried : busSignal? source.id with
  | none => simp [owner?, carried, Option.guard]
  | some found =>
      by_cases same : found.2 = bus <;> simp [owner?, carried, same, Option.guard]

theorem mem_declaredBuses_iff {board : Definition} {bus : BusId} :
    bus ∈ declaredBuses board ↔ ∃ member, member ∈ members board bus := by
  simp only [declaredBuses, List.mem_filter, List.mem_flatMap, List.mem_map,
    Bool.not_eq_true', List.isEmpty_eq_false_iff_exists_mem]
  constructor
  · intro given
    obtain ⟨_, declared⟩ := given
    exact declared
  · intro given
    obtain ⟨⟨source, signal⟩, member⟩ := given
    obtain ⟨_, _, rfl⟩ := mem_members_iff.mp member
    refine ⟨⟨signal.kind, ?_, source.id.index, mem_allNumbers _, rfl⟩, _, member⟩
    cases signal <;> decide

theorem nodup_declaredBuses (board : Definition) : (declaredBuses board).Nodup := by
  apply List.Nodup.filter
  rw [List.nodup_flatMap]
  refine ⟨?_, ?_⟩
  · intro kind _
    refine nodup_allNumbers.map ?_
    intro left right same
    cases same
    rfl
  · have apart : busKinds.Nodup := by decide
    refine apart.imp ?_
    intro left right different bus inLeft inRight
    obtain ⟨_, _, rfl⟩ := List.mem_map.mp inLeft
    obtain ⟨_, _, same⟩ := List.mem_map.mp inRight
    cases same
    exact different rfl

/-- The declared buses share out the bus signals of a board. -/
theorem busSources_perm (board : Definition) :
    (busSources board).Perm
      (board.resources.filter fun source => (owner? source).isSome) := by
  simp only [busSources, members_map_source]
  apply Grouping.perm_flatMap_filter (nodup_declaredBuses board)
  intro source member bus owned
  obtain ⟨signal, carried, same⟩ := owner?_eq_some_iff.mp owned
  exact mem_declaredBuses_iff.mpr ⟨_, mem_members_iff.mpr ⟨member, carried, same⟩⟩

/-- A setting chooses among the instances of a kind; it never changes the kind. -/
theorem kind_mem_busKinds (signal : Signal) : signal.kind ∈ busKinds := by
  cases signal <;> decide

/-- The kinds of buses have settings for their instances. -/
theorem override?_of_mem_busKinds (board : Definition) {bus : BusId}
    (listed : bus.kind ∈ busKinds) :
    override? board bus = board.settingEntry? (overrideKey bus) :=
  if_pos listed

theorem wantedSelector_eq (board : Definition) {kind : Kind} (listed : kind ∈ busKinds)
    (index : UInt8) : wantedSelector board ⟨kind, index⟩ =
      ((board.setting? (overrideKey ⟨kind, index⟩)).bind (Selector.ofValue? kind)).getD
        ⟨kind, index⟩ := by
  rw [wantedSelector, override?_of_mem_busKinds board listed, Definition.setting?]
  cases board.settingEntry? (overrideKey ⟨kind, index⟩) <;> rfl

theorem kind_wantedSelector (board : Definition) (bus : BusId) :
    (wantedSelector board bus).kind = bus.kind := by
  unfold wantedSelector
  split
  · rfl
  · cases read : Selector.ofValue? bus.kind _ with
    | none => rfl
    | some selector => exact (Selector.ofValue?_eq_some_iff.mp read).1

end Resolution

end Pinout
