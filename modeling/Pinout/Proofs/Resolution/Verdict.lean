import Pinout.Capability.Reading
import Pinout.Proofs.Resolution.Conflict

/-! The verdict of resolution. Errors come from six checks over different data: what was
dropped, what the board declares, and what was resolved. A board without errors is fit
for use in every respect that the checks look at. -/

set_option autoImplicit false

namespace Pinout.Resolution

open Board (Assignment Definition Policy)
open Capability (Entry Table)

/-- A resolved board with every resource in place and nothing shared. -/
structure Resolved.Fit (resolved : Resolved) : Prop where
  nothingDropped : resolved.dropped = []
  pinsApart : (resolved.definition.modeled.map (·.pin)).Nodup
  busesComplete : ∀ bus ∈ resolved.buses,
    bus.kind = .spi ∨ bus.kind = .i2c → bus.isComplete = true
  instancesApart : resolved.buses.Pairwise fun left right =>
    left.kind = right.kind → left.target.name ≠ right.target.name
  channelsApart : (resolved.banks.flatMap Bank.channels).Pairwise fun left right =>
    left.target? = right.target? → left.channel? ≠ right.channel?
  ratesAgree : ∀ bank ∈ resolved.banks, ∀ left ∈ bank.channels, ∀ right ∈ bank.channels,
    ∀ family other, left.family? = some family → right.family? = some other →
      (resolved.timings.of family).frequency = (resolved.timings.of other).frequency

variable {board : Definition} {table : Table} {options : Options}

theorem hasErrors_iff : (resolve board table options).hasErrors = true ↔
    ∃ diagnostic ∈ findings board table options, diagnostic.isError = true :=
  List.any_eq_true

private theorem exists_refused_iff (options : Options) :
    (∃ source ∈ board.modeled, ∃ refusal, refusal? board table source = some refusal) ↔
      ∃ source ∈ board.modeled, source.id ∈ (resolvedBoard board table options).dropped := by
  constructor
  · intro given
    obtain ⟨source, modeled, refusal, refused⟩ := given
    exact ⟨source, modeled, mem_dropped_iff.mpr ⟨source, modeled, rfl, refusal, refused⟩⟩
  · intro given
    obtain ⟨_, _, dropped⟩ := given
    obtain ⟨source, modeled, _, refusal, refused⟩ := mem_dropped_iff.mp dropped
    exact ⟨source, modeled, refusal, refused⟩

theorem nodup_placement_ids (table : Table) (options : Options)
    (unambiguous : board.Unambiguous) :
    ((resolvedBoard board table options).placements.map Placement.id).Nodup :=
  List.Nodup.of_append_left ((ids_perm board table options).nodup_iff.mpr unambiguous.modeled)

theorem nodup_placedOutput_ids (unambiguous : board.Unambiguous) :
    ((placedOutputs board table).map Placement.id).Nodup := by
  have all := nodup_placement_ids table {} unambiguous
  simp only [Resolved.placements, resolvedBoard, List.map_append] at all
  have inBanks := all.of_append_left.of_append_right
  exact ((channels_placedOutputs_perm board table).map _).nodup_iff.mp inBanks

theorem hasErrors_of_unambiguous (unambiguous : board.Unambiguous) :
    (resolve board table options).hasErrors = true ↔
      (∃ source ∈ board.modeled,
        source.id ∈ (resolvedBoard board table options).dropped) ∨
      LacksSignal board ∨
      SharesInstance (resolveBuses board table) ∨
      MixesRates (timingsOf board options) (banksOf (placedOutputs board table)) ∨
      SharesChannel ((banksOf (placedOutputs board table)).flatMap Bank.channels) ∨
      SharesPin board := by
  rw [hasErrors_iff, exists_error_iff, exists_refused_iff options,
    exists_incomplete_iff, exists_sharedInstances_iff, exists_mixedRates_iff,
    exists_sharedChannels_iff (nodup_placedOutput_ids unambiguous),
    exists_sharedPins_iff unambiguous]

private theorem carrier?_isSome_of_declared {bus : Bus} {signal : Signal}
    (resolved : bus ∈ resolveBuses board table) (kind : signal.kind = bus.kind)
    (declared : Declares board signal bus.index)
    (kept : (resolvedBoard board table options).dropped = []) :
    (bus.carrier? signal).isSome = true := by
  obtain ⟨source, member, named⟩ := declared
  have carries : source.id.resource = .bus signal := by rw [named]
  have modeled := mem_modeled_iff.mpr ⟨member, by rw [carries]; rfl⟩
  have absent : source.id ∉ (resolvedBoard board table options).dropped := by
    rw [kept]
    exact List.not_mem_nil
  obtain ⟨placement, placed⟩ := exists_placement_of_kept modeled absent
  obtain ⟨owner, found, ownerKind, ownerIndex, pinned⟩ :=
    exists_bus_of_placement member carries placed
  have same : owner = bus := by
    apply List.inj_on_of_nodup_map (nodup_resolveBuses board table) found resolved
    rw [ownerKind, ownerIndex, kind, named]
  exact List.find?_isSome.mpr ⟨placement, same ▸ pinned,
    decide_eq_true (signal?_of_placement? carries placed)⟩

private theorem busesComplete_of_kept (complete : ¬ LacksSignal board)
    (kept : (resolvedBoard board table options).dropped = []) {bus : Bus}
    (resolved : bus ∈ resolveBuses board table) (parallel : bus.kind = .spi ∨ bus.kind = .i2c) :
    bus.isComplete = true := by
  obtain ⟨owner, declared, found⟩ := List.mem_filterMap.mp resolved
  obtain ⟨index, kind⟩ := resolveBus?_eq_some found
  obtain ⟨⟨source, first⟩, member⟩ := mem_declaredBuses_iff.mp declared
  obtain ⟨inside, carries, rfl⟩ := mem_members_iff.mp member
  refine List.all_eq_true.mpr fun signal required => ?_
  apply carrier?_isSome_of_declared resolved (Kind.mem_required_iff.mp required) _ kept
  by_contra missing
  refine complete ⟨bus.kind, bus.index, parallel, ⟨first, ?_, ?_⟩, signal, required, missing⟩
  · exact Kind.mem_required_iff.mpr kind.symm
  · exact ⟨source, inside, by rw [index, ← carries]⟩

private theorem exists_channel_of_placed {placement : Placement}
    (member : placement ∈ placedOutputs board table) :
    ∃ channel, placement.channel? = some channel := by
  obtain ⟨source, _, entry, placed, rfl⟩ := mem_placedOutputs_iff.mp member
  exact Entry.timerChannel?_of_kind (kind_of_placeOutputOf placed)

theorem fit_of_not_hasErrors (unambiguous : board.Unambiguous)
    (clean : (resolve board table options).hasErrors = false) :
    (resolvedBoard board table options).Fit := by
  have none := (hasErrors_of_unambiguous unambiguous).not.mp (Bool.eq_false_iff.mp clean)
  simp only [not_or] at none
  obtain ⟨kept, complete, instances, rates, channels, pins⟩ := none
  have nothing : (resolvedBoard board table options).dropped = [] := by
    refine List.eq_nil_iff_forall_not_mem.mpr fun id dropped => kept ?_
    obtain ⟨source, modeled, rfl, _⟩ := mem_dropped_iff.mp dropped
    exact ⟨source, modeled, dropped⟩
  constructor
  case nothingDropped => exact nothing
  case pinsApart =>
    refine List.pairwise_map.mpr (Grouping.pairwise_of_distinct unambiguous.modeled ?_)
    exact fun left leftMember right rightMember apart same =>
      pins ⟨left, leftMember, right, rightMember, apart, same⟩
  case busesComplete =>
    exact fun bus resolved parallel => busesComplete_of_kept complete nothing resolved parallel
  case instancesApart =>
    refine Grouping.pairwise_of_distinct (nodup_resolveBuses board table) ?_
    intro left leftMember right rightMember apart sameKind sameName
    refine instances ⟨left, leftMember, right, rightMember, ?_, sameKind, sameName⟩
    exact fun sameIndex => apart (by rw [sameKind, sameIndex])
  case channelsApart =>
    have gathered := channels_placedOutputs_perm board table
    have distinct := (gathered.map Placement.id).nodup_iff.mpr
      (nodup_placedOutput_ids unambiguous)
    refine Grouping.pairwise_of_distinct distinct ?_
    intro left leftMember right rightMember apart sameTarget sameChannel
    obtain ⟨target, located⟩ := target?_of_mem_placedOutputs (gathered.mem_iff.mp leftMember)
    obtain ⟨channel, driven⟩ := exists_channel_of_placed (gathered.mem_iff.mp leftMember)
    exact channels ⟨left, leftMember, right, rightMember, apart, target, channel, located,
      sameTarget ▸ located, driven, sameChannel ▸ driven⟩
  case ratesAgree =>
    intro bank resolved left leftMember right rightMember family other leftOf rightOf
    by_contra apart
    exact rates ⟨bank, resolved, left, leftMember, right, rightMember, family, other, leftOf,
      rightOf, apart⟩

/-- A board is unfit for use exactly when a resource is dropped, a pin is claimed twice,
an SPI or I2C bus is declared in part, an instance or a channel is used twice, or a bank
mixes rates; without an error it is sound in all these respects. -/
theorem hasErrors_resolve (policy : Policy) (text mcu tableText : String)
    (options : Options) :
    let board := (Board.parse policy text).board
    let outcome := resolve board (Capability.parse mcu tableText).table options
    (outcome.hasErrors = true ↔
      (∃ source ∈ board.modeled, source.id ∈ outcome.board.dropped) ∨
      LacksSignal board ∨
      SharesInstance outcome.board.buses ∨
      MixesRates outcome.board.timings outcome.board.banks ∨
      SharesChannel (outcome.board.banks.flatMap Bank.channels) ∨
      SharesPin board) ∧
    (outcome.hasErrors = false → outcome.board.Fit) :=
  ⟨hasErrors_of_unambiguous (Board.parse_unambiguous policy text),
    fit_of_not_hasErrors (Board.parse_unambiguous policy text)⟩

end Pinout.Resolution
