import Mathlib.Data.List.Basic
import Pinout.Proofs.Resolution.Bus
import Pinout.Resolution.Board

/-! Resolution as one decision for each assignment. Three passes look at buses, timed
outputs and single roles in orders of their own, but together they look at every
modeled assignment once, and what they make of it depends on nothing but the
assignment, the timer function of its pin and the setting of its bus. -/

set_option autoImplicit false

namespace Pinout.Resolution

open Board (Assignment Definition)
open Capability (Entry Table)

/-- The decision on an assignment; none when its resource is outside the model. -/
def decision? (board : Definition) (table : Table) (source : Assignment) :
    Option (Except Refusal (Option Entry)) :=
  match source.id.resource with
  | .bus signal => some <| (placeSignal table source.pin signal
      (wantedSelector board ⟨signal.kind, source.id.index⟩)).map some
  | .output _ => some <| (placeOutputOf board table source).map some
  | .single role => some (placeRole table source.pin role)
  | .other _ => none

def placement? (board : Definition) (table : Table) (source : Assignment) :
    Option Placement :=
  match decision? board table source with
  | some (.ok entry) => some ⟨source, entry⟩
  | _ => none

def refusal? (board : Definition) (table : Table) (source : Assignment) : Option Refusal :=
  match decision? board table source with
  | some (.error refusal) => some refusal
  | _ => none

def refusals (board : Definition) (table : Table) (sources : List Assignment) :
    List (Assignment × Refusal) :=
  sources.filterMap fun source => (refusal? board table source).map (source, ·)

def roleSources (board : Definition) : List Assignment :=
  (roleAssignments board).map (·.1)

/-- The assignments in the order in which the passes look at them. -/
def passes (board : Definition) : List Assignment :=
  busSources board ++ outputs board ++ roleSources board

variable {board : Definition} {table : Table} {source : Assignment}

theorem mem_refusals_iff {sources : List Assignment} {refusal : Refusal} :
    (source, refusal) ∈ refusals board table sources ↔
      source ∈ sources ∧ refusal? board table source = some refusal := by
  simp only [refusals, List.mem_filterMap, Option.map_eq_some_iff, Prod.mk.injEq]
  constructor
  · intro given
    obtain ⟨_, member, _, refused, rfl, rfl⟩ := given
    exact ⟨member, refused⟩
  · intro given
    obtain ⟨member, refused⟩ := given
    exact ⟨source, member, refusal, refused, rfl, rfl⟩

theorem refusals_cons_of_none {rest : List Assignment}
    (kept : refusal? board table source = none) :
    refusals board table (source :: rest) = refusals board table rest :=
  List.filterMap_cons_none (by rw [kept, Option.map_none])

theorem refusals_cons_of_some {rest : List Assignment} {refusal : Refusal}
    (refused : refusal? board table source = some refusal) :
    refusals board table (source :: rest) = (source, refusal) :: refusals board table rest :=
  List.filterMap_cons_some (by rw [refused, Option.map_some])

theorem source_of_placement? {placement : Placement}
    (placed : placement? board table source = some placement) : placement.source = source := by
  unfold placement? at placed
  split at placed <;> cases placed
  rfl

theorem refusal?_of_placed {placement : Placement}
    (placed : placement? board table source = some placement) :
    refusal? board table source = none := by
  unfold placement? at placed
  split at placed <;> cases placed
  rename_i decided
  rw [refusal?, decided]

theorem exists_decision (board : Definition) (table : Table)
    (modeled : source.id.resource.isModeled = true) :
    ∃ outcome, decision? board table source = some outcome := by
  unfold decision?
  cases carries : source.id.resource with
  | other keyword => simp [carries, Resource.isModeled] at modeled
  | _ => exact ⟨_, rfl⟩

/-- A modeled assignment is placed or refused, and never both. -/
theorem placed_or_refused (board : Definition) (table : Table)
    (modeled : source.id.resource.isModeled = true) :
    (∃ placement, placement? board table source = some placement ∧
      refusal? board table source = none) ∨
    ∃ refusal, refusal? board table source = some refusal ∧
      placement? board table source = none := by
  obtain ⟨outcome, decided⟩ := exists_decision board table modeled
  rw [placement?, refusal?, decided]
  cases outcome with
  | ok entry => exact .inl ⟨⟨source, entry⟩, rfl, rfl⟩
  | error refusal => exact .inr ⟨refusal, rfl, rfl⟩

theorem decision?_of_signal (board : Definition) (table : Table) {signal : Signal}
    (carries : source.id.resource = .bus signal) :
    decision? board table source = some ((placeSignal table source.pin signal
      (wantedSelector board ⟨signal.kind, source.id.index⟩)).map some) := by
  simp only [decision?, carries]

theorem placement?_eq_some_iff {choice : Except Refusal Entry}
    (decided : decision? board table source = some (choice.map some)) {placement : Placement} :
    placement? board table source = some placement ↔
      ∃ entry, choice = .ok entry ∧ placement = ⟨source, some entry⟩ := by
  rw [placement?, decided]
  cases choice <;> simp [Except.map, eq_comm]

theorem refusal?_eq_some_iff {choice : Except Refusal Entry}
    (decided : decision? board table source = some (choice.map some)) {refusal : Refusal} :
    refusal? board table source = some refusal ↔ choice = .error refusal := by
  rw [refusal?, decided]
  cases choice <;> simp [Except.map]

/-- A signal is placed on an entry of its pin that carries it at a wanted instance. -/
theorem entry_of_placed_signal {signal : Signal} {placement : Placement}
    (carries : source.id.resource = .bus signal)
    (placed : placement? board table source = some placement) :
    ∃ entry ∈ table.entries, placement = ⟨source, some entry⟩ ∧
      entry.pin.base = source.pin ∧ entry.signal? = some signal ∧
        (wantedSelector board ⟨signal.kind, source.id.index⟩).selects entry.target = true := by
  have decided := decision?_of_signal board table carries
  obtain ⟨entry, chosen, rfl⟩ := (placement?_eq_some_iff decided).mp placed
  have reached := placeSignal_eq_ok_iff.mp chosen
  rw [Table.carrying?_eq] at reached
  have fits := List.find?_some reached
  simp only [decide_eq_true_eq] at fits
  exact ⟨entry, List.mem_of_find?_eq_some reached, rfl, fits⟩

theorem signal?_of_placement? {signal : Signal} {placement : Placement}
    (carries : source.id.resource = .bus signal)
    (placed : placement? board table source = some placement) :
    placement.signal? = some signal := by
  obtain ⟨_, _, rfl, _, carried, _⟩ := entry_of_placed_signal carries placed
  exact carried

/-! ## Buses -/

private theorem placement?_of_member {bus : BusId} {member : Assignment × Signal}
    (inside : member ∈ members board bus) :
    placement? board table member.1 =
      match placeMember board table bus member with
      | .ok entry => some ⟨member.1, some entry⟩
      | .error _ => none := by
  obtain ⟨_, carries, rfl⟩ := mem_members_iff.mp inside
  simp only [placement?, decision?, carries]
  unfold placeMember
  cases placeSignal table member.1.pin member.2 _ <;> rfl

private theorem refusal?_of_member {bus : BusId} {member : Assignment × Signal}
    (inside : member ∈ members board bus) :
    refusal? board table member.1 =
      match placeMember board table bus member with
      | .ok _ => none
      | .error refusal => some refusal := by
  obtain ⟨_, carries, rfl⟩ := mem_members_iff.mp inside
  simp only [refusal?, decision?, carries]
  unfold placeMember
  cases placeSignal table member.1.pin member.2 _ <;> rfl

private theorem placedMembers_map (board : Definition) (table : Table) (bus : BusId) :
    ((placedMembers board table bus).map fun (source, entry) =>
        (⟨source, some entry⟩ : Placement)) =
      ((members board bus).map (·.1)).filterMap (placement? board table) := by
  rw [placedMembers, List.map_filterMap, List.filterMap_map]
  apply List.filterMap_congr
  intro member inside
  rw [Function.comp_apply, placement?_of_member inside]
  cases placeMember board table bus member <;> rfl

theorem refusedMembers_eq (board : Definition) (table : Table) (bus : BusId) :
    refusedMembers board table bus =
      refusals board table ((members board bus).map (·.1)) := by
  rw [refusedMembers, refusals, List.filterMap_map]
  apply List.filterMap_congr
  intro member inside
  rw [Function.comp_apply, refusal?_of_member inside]
  cases placeMember board table bus member <;> rfl

theorem pins_resolveBus? (board : Definition) (table : Table) (bus : BusId) :
    (resolveBus? board table bus).toList.flatMap Bus.pins =
      ((members board bus).map (·.1)).filterMap (placement? board table) := by
  rw [← placedMembers_map, resolveBus?]
  cases placedMembers board table bus <;> simp

theorem pins_resolveBuses (board : Definition) (table : Table) :
    (resolveBuses board table).flatMap Bus.pins =
      (busSources board).filterMap (placement? board table) := by
  rw [resolveBuses, List.filterMap_eq_flatMap_toList, List.flatMap_assoc, busSources,
    List.filterMap_flatMap]
  exact List.flatMap_congr fun bus _ => pins_resolveBus? board table bus

theorem refusedBusResources_eq (board : Definition) (table : Table) :
    refusedBusResources board table =
      (refusals board table (busSources board)).map (·.1.id) := by
  rw [refusedBusResources, refusals, busSources, List.filterMap_flatMap, List.map_flatMap]
  apply List.flatMap_congr
  intro bus _
  rw [refusedMembers_eq]
  rfl

/-! ## Timed outputs -/

def outputFamily? (source : Assignment) : Option Family :=
  match source.id.resource with
  | .output family => some family
  | _ => none

theorem outputFamily?_eq_some_iff {family : Family} :
    outputFamily? source = some family ↔ source.id.resource = .output family := by
  unfold outputFamily?
  split <;> simp_all

theorem outputs_perm (board : Definition) :
    (outputs board).Perm
      (board.resources.filter fun source => (outputFamily? source).isSome) := by
  have sorted (family : Family) : ((board.resourcesOf (.output family)).mergeSort
      fun left right => left.id.index ≤ right.id.index).Perm
        (board.resources.filter fun source => outputFamily? source = some family) := by
    simp only [outputFamily?_eq_some_iff]
    exact List.mergeSort_perm _ _
  refine (List.Perm.flatMap_left _ fun family _ => sorted family).trans ?_
  apply Grouping.perm_flatMap_filter (by decide)
  intro _ _ family _
  cases family <;> decide

theorem mem_outputs_iff : source ∈ outputs board ↔
    source ∈ board.resources ∧ ∃ family, source.id.resource = .output family := by
  rw [(outputs_perm board).mem_iff, List.mem_filter, Option.isSome_iff_exists]
  simp only [outputFamily?_eq_some_iff]

theorem decision?_of_output (table : Table) (member : source ∈ outputs board) :
    decision? board table source = some ((placeOutputOf board table source).map some) := by
  obtain ⟨_, family, timed⟩ := mem_outputs_iff.mp member
  simp only [decision?, timed]

theorem placedOutputs_eq (board : Definition) (table : Table) :
    placedOutputs board table = (outputs board).filterMap (placement? board table) := by
  apply List.filterMap_congr
  intro source member
  rw [placement?, decision?_of_output table member]
  cases placeOutputOf board table source <;> rfl

theorem refusedOutputs_eq (board : Definition) (table : Table) :
    refusedOutputs board table = (refusals board table (outputs board)).map (·.1.id) := by
  rw [refusals, List.map_filterMap]
  apply List.filterMap_congr
  intro source member
  rw [refusal?, decision?_of_output table member]
  cases placeOutputOf board table source <;> rfl

/-! ## Single roles -/

theorem mem_roleAssignments {role : Role}
    (member : (source, role) ∈ roleAssignments board) :
    source ∈ board.resources ∧ source.id.resource = .single role := by
  obtain ⟨assignment, inside, chosen⟩ := List.mem_filterMap.mp member
  split at chosen
  · rename_i same
    cases chosen
    exact ⟨inside, same⟩
  · cases chosen

theorem decision?_of_role (table : Table) {role : Role}
    (member : (source, role) ∈ roleAssignments board) :
    decision? board table source = some (placeRole table source.pin role) := by
  simp only [decision?, (mem_roleAssignments member).2]

theorem placedRoles_eq (board : Definition) (table : Table) :
    placedRoles board table = (roleSources board).filterMap (placement? board table) := by
  rw [roleSources, List.filterMap_map]
  apply List.filterMap_congr
  intro given member
  obtain ⟨source, role⟩ := given
  rw [Function.comp_apply, placement?, decision?_of_role table member]
  dsimp only
  cases placeRole table source.pin role <;> rfl

theorem refusedRoles_eq (board : Definition) (table : Table) :
    refusedRoles board table = (refusals board table (roleSources board)).map (·.1.id) := by
  rw [refusals, List.map_filterMap, roleSources, List.filterMap_map]
  apply List.filterMap_congr
  intro given member
  obtain ⟨source, role⟩ := given
  rw [Function.comp_apply, refusal?, decision?_of_role table member]
  dsimp only
  cases placeRole table source.pin role <;> rfl

/-! ## All passes together -/

theorem roleSources_eq (board : Definition) :
    roleSources board = board.resources.filter fun source =>
      source.id.resource matches .single _ := by
  rw [roleSources, roleAssignments, List.map_filterMap, ← List.filterMap_eq_filter]
  apply List.filterMap_congr
  intro source _
  cases carries : source.id.resource <;> simp [Option.guard, carries]

/-- The passes look at every modeled assignment, at each of them once, and at no
other. -/
theorem passes_perm (board : Definition) : (passes board).Perm board.modeled := by
  have shared := ((busSources_perm board).append (outputs_perm board)).append
    (.of_eq (roleSources_eq board))
  refine shared.trans (.trans (.append_right _ (Grouping.filter_append_filter_perm ?_)) <|
    .trans (Grouping.filter_append_filter_perm ?_) (.of_eq (List.filter_congr ?_)))
  all_goals
    intro source _
    cases carries : source.id.resource <;>
      simp [owner?, busSignal?, outputFamily?, carries, Resource.isModeled]

end Pinout.Resolution
