import Mathlib.Data.List.Forall2
import Pinout.Proofs.Board.Reordering
import Pinout.Proofs.Resolution.Locality
import Pinout.Proofs.Resolution.Uniformity

/-! Resolution and the order of resource lines. Each placement is a local decision, so a
board in another order has the same placements but for their lines; buses, banks and roles
regroup them by names that no two of them share. Only the name of a bus is taken from its
first signal, which makes no difference where every selector has one answer. -/

set_option autoImplicit false

namespace Pinout.Resolution

open Board (Assignment Definition Hint Timer)
open Capability (Entry Table)

def Placement.unlined (placement : Placement) : Placement :=
  { placement with source := placement.source.unlined }

def Bank.unlined (bank : Bank) : Bank :=
  { bank with channels := bank.channels.map Placement.unlined }

/-- The buses are the same but for the order and the lines of their pins. -/
structure Bus.Alike (left right : Bus) : Prop where
  index : left.index = right.index
  kind : left.kind = right.kind
  target : left.target = right.target
  carrier : ∀ signal, (left.carrier? signal).map Placement.unlined =
    (right.carrier? signal).map Placement.unlined

/-- The boards are the same but for orders that have no meaning and for lines. -/
structure Resolved.Alike (left right : Resolved) : Prop where
  mcu : left.mcu = right.mcu
  setting : ∀ key, left.definition.setting? key = right.definition.setting? key
  hints : left.definition.hints.declared.map Hint.unlined =
    right.definition.hints.declared.map Hint.unlined
  metadata : left.definition.metadata = right.definition.metadata
  buses : List.Forall₂ Bus.Alike left.buses right.buses
  banks : left.banks.map Bank.unlined = right.banks.map Bank.unlined
  roles : ∀ role, (left.rolesOf role).map Placement.unlined =
    (right.rolesOf role).map Placement.unlined
  timings : left.timings = right.timings
  dropped : ∀ resource, left.droppedOf resource = right.droppedOf resource

variable {left right : Definition} {table : Table}

/-! ## Decisions -/

theorem decision?_reordered (same : left.Reordered right) (table : Table)
    (source : Assignment) :
    decision? left table source = decision? right table source.unlined :=
  decision?_congr table rfl rfl (same.function source.pin) fun _ _ => same.setting? _

theorem placement?_reordered (same : left.Reordered right) (table : Table)
    (source : Assignment) :
    (placement? left table source).map Placement.unlined =
      placement? right table source.unlined := by
  rw [placement?, placement?, ← decision?_reordered same]
  cases decision? left table source with
  | none => rfl
  | some outcome => cases outcome <;> rfl

theorem map_placements (same : left.Reordered right) (table : Table)
    (sources : List Assignment) :
    (sources.filterMap (placement? left table)).map Placement.unlined =
      (sources.map Assignment.unlined).filterMap (placement? right table) := by
  rw [List.map_filterMap, List.filterMap_map]
  exact List.filterMap_congr fun source _ => placement?_reordered same table source

theorem placements_reordered (same : left.Reordered right) (table : Table)
    {sources others : List Assignment}
    (perm : (sources.map Assignment.unlined).Perm (others.map Assignment.unlined)) :
    ((sources.filterMap (placement? left table)).map Placement.unlined).Perm
      ((others.filterMap (placement? right table)).map Placement.unlined) := by
  rw [map_placements same, map_placements (.refl right)]
  exact perm.filterMap _

theorem map_refusals (same : left.Reordered right) (table : Table)
    (sources : List Assignment) :
    (refusals left table sources).map (·.1.id) =
      (refusals right table (sources.map Assignment.unlined)).map (·.1.id) := by
  rw [refusals, refusals, List.map_filterMap, List.map_filterMap, List.filterMap_map]
  refine List.filterMap_congr fun source _ => ?_
  rw [Function.comp_apply, refusal?, refusal?, ← decision?_reordered same]
  cases decision? left table source with
  | none => rfl
  | some outcome => cases outcome <;> rfl

/-- The placements of a board are told apart by the names of their resources. -/
theorem eq_of_placed_id (clear : left.Unambiguous) {source other : Assignment}
    (member : source ∈ left.resources) (otherMember : other ∈ left.resources)
    {placement place : Placement} (placed : placement? left table source = some placement)
    (otherPlaced : placement? left table other = some place)
    (same : placement.id = place.id) : placement = place := by
  rw [Placement.id, Placement.id, source_of_placement? placed,
    source_of_placement? otherPlaced] at same
  have sources := clear.eq_of_id_eq member otherMember same
  rw [sources, otherPlaced] at placed
  exact (Option.some.inj placed).symm

/-! ## Buses -/

theorem members_reordered (same : left.Reordered right) (bus : BusId) :
    (((members left bus).map (·.1)).map Assignment.unlined).Perm
      (((members right bus).map (·.1)).map Assignment.unlined) := by
  rw [members_map_source, members_map_source]
  exact same.filter _ fun _ => rfl

theorem declaredBuses_reordered (same : left.Reordered right) :
    declaredBuses left = declaredBuses right := by
  apply List.filter_congr
  intro bus _
  simpa only [List.isEmpty_map] using
    congrArg Bool.not (members_reordered same bus).isEmpty_eq

/-- A pin that carries a signal is that of the signal with the number of the bus. -/
theorem id_of_mem_pins {owner : BusId} {bus : Bus}
    (found : resolveBus? left table owner = some bus) {placement : Placement}
    (pinned : placement ∈ bus.pins) {signal : Signal}
    (carried : placement.signal? = some signal) :
    ∃ source ∈ left.resources, placement? left table source = some placement ∧
      placement.id = ⟨.bus signal, owner.index⟩ := by
  rw [pins_of_resolveBus? found] at pinned
  obtain ⟨source, inside, placed⟩ := List.mem_filterMap.mp pinned
  obtain ⟨⟨_, declared⟩, member, rfl⟩ := List.mem_map.mp inside
  obtain ⟨listed, carries, rfl⟩ := mem_members_iff.mp member
  have signals : declared = signal :=
    Option.some.inj ((signal?_of_placement? carries placed).symm.trans carried)
  refine ⟨_, listed, placed, ?_⟩
  rw [Placement.id, source_of_placement? placed, ← signals, ← carries]

theorem eq_of_signal? (clear : left.Unambiguous) {owner : BusId} {bus : Bus}
    (found : resolveBus? left table owner = some bus) {placement place : Placement}
    (pinned : placement ∈ bus.pins) (alsoPinned : place ∈ bus.pins) {signal : Signal}
    (carried : placement.signal? = some signal) (alsoCarried : place.signal? = some signal) :
    placement = place := by
  obtain ⟨source, member, placed, named⟩ := id_of_mem_pins found pinned carried
  obtain ⟨other, otherMember, otherPlaced, otherNamed⟩ :=
    id_of_mem_pins found alsoPinned alsoCarried
  exact eq_of_placed_id clear member otherMember placed otherPlaced
    (named.trans otherNamed.symm)

theorem carrier?_unlined (bus : Bus) (signal : Signal) :
    (bus.carrier? signal).map Placement.unlined =
      (bus.pins.map Placement.unlined).find? fun placement =>
        placement.signal? = some signal := by
  rw [List.find?_map]
  rfl

section Bus

variable {owner : BusId} {first second : Bus}

theorem carrier?_reordered (clear : left.Unambiguous)
    (found : resolveBus? left table owner = some first)
    (pins : (first.pins.map Placement.unlined).Perm (second.pins.map Placement.unlined))
    (signal : Signal) :
    (first.carrier? signal).map Placement.unlined =
      (second.carrier? signal).map Placement.unlined := by
  rw [carrier?_unlined, carrier?_unlined]
  apply Grouping.find?_eq_of_perm pins
  intro item member other otherMember carried otherCarried
  obtain ⟨placement, pinned, rfl⟩ := List.mem_map.mp member
  obtain ⟨place, alsoPinned, rfl⟩ := List.mem_map.mp otherMember
  rw [eq_of_signal? clear found pinned alsoPinned (of_decide_eq_true carried)
    (of_decide_eq_true otherCarried)]

theorem target_reordered (selective : table.Selective)
    (found : resolveBus? left table owner = some first)
    (otherFound : resolveBus? right table owner = some second)
    (pins : (first.pins.map Placement.unlined).Perm (second.pins.map Placement.unlined)) :
    first.target = second.target := by
  -- The first pin of the one bus may be any pin of the other, all of which are at its target.
  obtain ⟨placement, pinned, named⟩ := exists_pin_at_target found
  have moved := pins.mem_iff.mp (List.mem_map_of_mem pinned)
  obtain ⟨place, otherPinned, same⟩ := List.mem_map.mp moved
  have entries : place.unlined.entry = placement.unlined.entry := congrArg (·.entry) same
  have located := target?_of_mem_pins otherFound (selective _) otherPinned
  have targets : place.target? = placement.target? := congrArg (·.map Entry.target) entries
  exact Option.some.inj (named.symm.trans (targets.symm.trans located))

end Bus

theorem resolveBus?_reordered (same : left.Reordered right) (clear : left.Unambiguous)
    (selective : table.Selective) (owner : BusId) :
    Option.Rel Bus.Alike (resolveBus? left table owner) (resolveBus? right table owner) := by
  have pins := placements_reordered same table (members_reordered same owner)
  rw [← pins_resolveBus?, ← pins_resolveBus?] at pins
  -- A bus has a pin, so the boards have the bus together or not at all.
  cases found : resolveBus? left table owner with
  | none =>
      cases otherFound : resolveBus? right table owner with
      | none => exact .none
      | some second =>
          have empty : second.pins = [] := by simpa [found, otherFound] using pins
          exact absurd empty (pins_ne_nil_of_resolveBus? otherFound)
  | some first =>
      obtain ⟨index, kind⟩ := resolveBus?_eq_some found
      cases otherFound : resolveBus? right table owner with
      | none =>
          have empty : first.pins = [] := by simpa [found, otherFound] using pins
          exact absurd empty (pins_ne_nil_of_resolveBus? found)
      | some second =>
          obtain ⟨otherIndex, otherKind⟩ := resolveBus?_eq_some otherFound
          have perm : (first.pins.map Placement.unlined).Perm
              (second.pins.map Placement.unlined) := by
            simpa [found, otherFound] using pins
          exact .some ⟨index.trans otherIndex.symm, kind.trans otherKind.symm,
            target_reordered selective found otherFound perm,
            carrier?_reordered clear found perm⟩

theorem resolveBuses_reordered (same : left.Reordered right) (clear : left.Unambiguous)
    (selective : table.Selective) :
    List.Forall₂ Bus.Alike (resolveBuses left table) (resolveBuses right table) := by
  rw [resolveBuses, resolveBuses, declaredBuses_reordered same]
  refine List.rel_filterMap (R := Eq) ?_ (List.forall₂_same.mpr fun _ _ => rfl)
  rintro owner _ rfl
  exact resolveBus?_reordered same clear selective owner

/-! ## Banks -/

theorem Bank.channelsOf_unlined (bank : Bank) (family : Family) :
    bank.unlined.channelsOf family = (bank.channelsOf family).map Placement.unlined :=
  List.filter_map

theorem banksOf_unlined (placements : List Placement) :
    (banksOf placements).map Bank.unlined = banksOf (placements.map Placement.unlined) := by
  have targets : (placements.map Placement.unlined).filterMap Placement.target? =
      placements.filterMap Placement.target? := List.filterMap_map
  rw [banksOf, banksOf, targets, List.map_map]
  refine List.map_congr_left fun target _ => ?_
  rw [Function.comp_apply, Bank.unlined, Bank.mk.injEq, List.filter_map]
  exact ⟨rfl, List.map_mergeSort fun _ _ _ _ => rfl⟩

theorem outputs_reordered (same : left.Reordered right) (clear : left.Unambiguous) :
    (outputs left).map Assignment.unlined = (outputs right).map Assignment.unlined := by
  have sorted (board : Definition) (family : Family) :
      ((board.resourcesOf (.output family)).mergeSort fun first second =>
        first.id.index ≤ second.id.index).map Assignment.unlined =
      ((board.resourcesOf (.output family)).map Assignment.unlined).mergeSort
        fun first second => first.id.index ≤ second.id.index :=
    List.map_mergeSort fun _ _ _ _ => rfl
  rw [outputs, outputs, List.map_flatMap, List.map_flatMap]
  refine List.flatMap_congr fun family _ => ?_
  rw [sorted left, sorted right]
  apply Grouping.sort_eq_of_perm (·.id.index) (same.filter _ fun _ => rfl)
  intro item member other otherMember sameIndex
  obtain ⟨source, inside, rfl⟩ := List.mem_map.mp member
  obtain ⟨late, lateInside, rfl⟩ := List.mem_map.mp otherMember
  obtain ⟨listed, named⟩ := List.mem_filter.mp inside
  obtain ⟨lateListed, lateNamed⟩ := List.mem_filter.mp lateInside
  have resources := (of_decide_eq_true named).trans (of_decide_eq_true lateNamed).symm
  have ids : source.id = late.id := congrArg₂ ResourceId.mk resources sameIndex
  rw [clear.eq_of_id_eq listed lateListed ids]

theorem banks_reordered (same : left.Reordered right) (clear : left.Unambiguous)
    (table : Table) :
    (banksOf (placedOutputs left table)).map Bank.unlined =
      (banksOf (placedOutputs right table)).map Bank.unlined := by
  rw [banksOf_unlined, banksOf_unlined, placedOutputs_eq, placedOutputs_eq,
    map_placements same, map_placements (.refl right), outputs_reordered same clear]

/-! ## Roles, omissions and rates -/

theorem placedRoles_reordered (same : left.Reordered right) (table : Table) :
    ((placedRoles left table).map Placement.unlined).Perm
      ((placedRoles right table).map Placement.unlined) := by
  rw [placedRoles_eq, placedRoles_eq]
  apply placements_reordered same
  rw [roleSources_eq, roleSources_eq]
  exact same.filter _ fun _ => rfl

theorem eq_of_placedRoles_id (clear : left.Unambiguous) {placement place : Placement}
    (member : placement ∈ placedRoles left table) (otherMember : place ∈ placedRoles left table)
    (same : placement.id = place.id) : placement = place := by
  have source_of_mem {placement : Placement} (member : placement ∈ placedRoles left table) :
      ∃ source ∈ left.resources, placement? left table source = some placement := by
    rw [placedRoles_eq, roleSources_eq] at member
    obtain ⟨source, inside, placed⟩ := List.mem_filterMap.mp member
    exact ⟨source, List.mem_of_mem_filter inside, placed⟩
  obtain ⟨source, listed, placed⟩ := source_of_mem member
  obtain ⟨other, otherListed, otherPlaced⟩ := source_of_mem otherMember
  exact eq_of_placed_id clear listed otherListed placed otherPlaced same

theorem rolesOf_unlined (resolved : Resolved) (role : Role) :
    (resolved.rolesOf role).map Placement.unlined =
      ((resolved.roles.map Placement.unlined).filter fun placement =>
        placement.id.resource = .single role).mergeSort
          fun first second => first.id.index ≤ second.id.index := by
  rw [Resolved.rolesOf, List.filter_map]
  exact List.map_mergeSort fun _ _ _ _ => rfl

theorem rolesOf_reordered (same : left.Reordered right) (clear : left.Unambiguous)
    (table : Table) (options : Options) (role : Role) :
    ((resolvedBoard left table options).rolesOf role).map Placement.unlined =
      ((resolvedBoard right table options).rolesOf role).map Placement.unlined := by
  rw [rolesOf_unlined, rolesOf_unlined]
  apply Grouping.sort_eq_of_perm (·.id.index) ((placedRoles_reordered same table).filter _)
  intro item member other otherMember sameIndex
  obtain ⟨inside, named⟩ := List.mem_filter.mp member
  obtain ⟨otherInside, otherNamed⟩ := List.mem_filter.mp otherMember
  obtain ⟨placement, listed, rfl⟩ := List.mem_map.mp inside
  obtain ⟨place, otherListed, rfl⟩ := List.mem_map.mp otherInside
  have resources := (of_decide_eq_true named).trans (of_decide_eq_true otherNamed).symm
  have ids : placement.id = place.id := congrArg₂ ResourceId.mk resources sameIndex
  rw [eq_of_placedRoles_id clear listed otherListed ids]

theorem dropped_reordered (same : left.Reordered right) (table : Table) (options : Options) :
    (resolvedBoard left table options).dropped.Perm
      (resolvedBoard right table options).dropped := by
  have modeled : (left.modeled.map Assignment.unlined).Perm
      (right.modeled.map Assignment.unlined) :=
    same.filter _ fun _ => rfl
  have refused := (dropped_perm left table options).trans (.of_eq (map_refusals same table _))
  have otherRefused := (dropped_perm right table options).trans
    (.of_eq (map_refusals (.refl right) table _))
  exact (refused.trans ((modeled.filterMap _).map _)).trans otherRefused.symm

theorem droppedOf_reordered (same : left.Reordered right) (table : Table) (options : Options)
    (resource : Resource) :
    (resolvedBoard left table options).droppedOf resource =
      (resolvedBoard right table options).droppedOf resource :=
  Grouping.sort_eq_of_perm id (((dropped_reordered same table options).filter _).map _)
    fun _ _ _ _ => id

theorem timingsOf_reordered (same : left.Reordered right) (options : Options) :
    timingsOf left options = timingsOf right options := by
  have timing (source : RateSource) : source.timing left = source.timing right := by
    unfold RateSource.timing RateSource.protocol
    rw [same.setting?, same.setting?]
  rw [timingsOf, timingsOf, timing, timing]

/-- Of a board in another order the same is made, but for orders and lines. -/
theorem resolvedBoard_alike (same : left.Reordered right) (clear : left.Unambiguous)
    (selective : table.Selective) (options : Options) :
    (resolvedBoard left table options).Alike (resolvedBoard right table options) where
  mcu := rfl
  setting := same.setting?
  hints := same.hints
  metadata := same.metadata
  buses := resolveBuses_reordered same clear selective
  banks := banks_reordered same clear table
  roles := rolesOf_reordered same clear table options
  timings := timingsOf_reordered same options
  dropped := droppedOf_reordered same table options

/-! ## Boards that are alike -/

/-- Options that agree are both empty, or they hold values that agree. -/
theorem none_or_some_of_map_eq {α β : Type} {value : α → β} {first second : Option α}
    (same : first.map value = second.map value) :
    (first = none ∧ second = none) ∨
      ∃ item other, first = some item ∧ second = some other ∧ value item = value other := by
  cases first with
  | none =>
      cases second with
      | none => exact .inl ⟨rfl, rfl⟩
      | some _ => cases same
  | some item =>
      cases second with
      | none => cases same
      | some other => exact .inr ⟨item, other, rfl, rfl, Option.some.inj same⟩

theorem nil_or_cons_of_map_eq {α β : Type} {value : α → β} {first second : List α}
    (same : first.map value = second.map value) :
    (first = [] ∧ second = []) ∨
      ∃ item rest other others, first = item :: rest ∧ second = other :: others := by
  cases first with
  | nil => exact .inl ⟨rfl, List.map_eq_nil_iff.mp same.symm⟩
  | cons item rest =>
      cases second with
      | nil => cases same
      | cons other others => exact .inr ⟨item, rest, other, others, rfl, rfl⟩

namespace Resolved.Alike

variable {first second : Resolved}

theorem role? (alike : first.Alike second) (role : Role) :
    (first.role? role).map Placement.unlined = (second.role? role).map Placement.unlined := by
  rw [Resolved.role?, Resolved.role?, ← List.head?_map, ← List.head?_map, alike.roles]

theorem bus? (alike : first.Alike second) (kind : Kind) (index : UInt8) :
    (first.bus? kind index = none ∧ second.bus? kind index = none) ∨
      ∃ bus other, first.bus? kind index = some bus ∧ second.bus? kind index = some other ∧
        bus.Alike other := by
  have buses := alike.buses
  unfold Resolved.bus?
  generalize first.buses = early, second.buses = late at buses
  induction buses with
  | nil => exact .inl ⟨rfl, rfl⟩
  | @cons bus other _ _ same _ rest =>
      rw [List.find?_cons, List.find?_cons, ← same.kind, ← same.index]
      cases decide (bus.kind = kind ∧ bus.index = index) with
      | true => exact .inr ⟨bus, other, rfl, rfl, same⟩
      | false => exact rest

theorem busesOf (alike : first.Alike second) (kind : Kind) :
    List.Forall₂ Bus.Alike (first.busesOf kind) (second.busesOf kind) := by
  apply List.rel_filter _ alike.buses
  intro bus other same
  simp only [same.kind]

theorem banksFor (alike : first.Alike second) (family : Family) :
    (first.banksFor family).map Bank.unlined = (second.banksFor family).map Bank.unlined := by
  have unlined (resolved : Resolved) : (resolved.banksFor family).map Bank.unlined =
      (resolved.banks.map Bank.unlined).filter (·.drives family) := by
    rw [List.filter_map, Resolved.banksFor]
    congr 2
    funext bank
    rw [Function.comp_apply, Bank.drives, Bank.drives, Bank.channelsOf_unlined,
      List.isEmpty_map]
  rw [unlined first, unlined second, alike.banks]

end Resolved.Alike

end Pinout.Resolution
