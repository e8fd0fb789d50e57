import Mathlib.Data.List.Nodup
import Pinout.Proofs.Resolution.Accounting

/-! The checks between resources. Each of them groups what it looks at and reports the
groups with a second member, so it is silent exactly when no two members share what the
groups are made by. -/

set_option autoImplicit false

namespace Pinout.Resolution

open Board (Assignment Definition)
open Capability (Entry Table)

variable {board : Definition} {table : Table} {options : Options}

/-! ## Pins -/

/-- Two modeled resources claim one pin. -/
def SharesPin (board : Definition) : Prop :=
  ∃ left ∈ board.modeled, ∃ right ∈ board.modeled,
    left.id ≠ right.id ∧ left.pin = right.pin

theorem exists_sharedPin?_iff {pin : Pin} :
    (∃ diagnostic, sharedPin? board pin = some diagnostic) ↔
      ∃ first second rest, pinClaims board pin = first :: second :: rest := by
  unfold sharedPin?
  constructor
  · intro given
    obtain ⟨diagnostic, shared⟩ := given
    split at shared
    · rename_i first second rest claims
      exact ⟨first, second, rest, claims⟩
    · cases shared
  · intro given
    obtain ⟨first, second, rest, claims⟩ := given
    rw [claims]
    exact ⟨_, rfl⟩

theorem exists_sharedPins_iff (unambiguous : board.Unambiguous) :
    (∃ diagnostic, diagnostic ∈ sharedPins board) ↔ SharesPin board := by
  have claimed (pin : Pin) := Grouping.filter_eq_cons_cons_iff unambiguous.modeled
    fun assignment => decide (assignment.pin = pin)
  simp only [sharedPins, List.mem_filterMap]
  constructor
  · intro given
    obtain ⟨diagnostic, pin, _, shared⟩ := given
    obtain ⟨left, leftMember, right, rightMember, apart, leftPin, rightPin⟩ :=
      (claimed pin).mp (exists_sharedPin?_iff.mp ⟨diagnostic, shared⟩)
    refine ⟨left, leftMember, right, rightMember, apart, ?_⟩
    rw [of_decide_eq_true leftPin, of_decide_eq_true rightPin]
  · intro given
    obtain ⟨left, leftMember, right, rightMember, apart, same⟩ := given
    obtain ⟨diagnostic, shared⟩ := exists_sharedPin?_iff.mpr ((claimed left.pin).mpr
      ⟨left, leftMember, right, rightMember, apart, by simp, by simp [same]⟩)
    exact ⟨diagnostic, left.pin, Pin.mem_all _, shared⟩

/-! ## Signals of a bus -/

def Declares (board : Definition) (signal : Signal) (index : UInt8) : Prop :=
  ∃ source ∈ board.resources, source.id = ⟨.bus signal, index⟩

/-- Some SPI or I2C bus is declared with some but not all of its signals. -/
def LacksSignal (board : Definition) : Prop :=
  ∃ (kind : Kind) (index : UInt8), (kind = .spi ∨ kind = .i2c) ∧
    (∃ signal ∈ kind.required, Declares board signal index) ∧
      ∃ signal ∈ kind.required, ¬ Declares board signal index

private theorem declares_iff (bus : BusId) {signal : Signal} (kind : signal.kind = bus.kind) :
    Declares board signal bus.index ↔ ∃ member ∈ members board bus, member.2 = signal := by
  constructor
  · intro given
    obtain ⟨source, inside, named⟩ := given
    refine ⟨(source, signal), mem_members_iff.mpr ⟨inside, by rw [named], ?_⟩, rfl⟩
    rw [named, kind]
  · intro given
    obtain ⟨⟨source, carried⟩, member, rfl⟩ := given
    obtain ⟨inside, carries, rfl⟩ := mem_members_iff.mp member
    exact ⟨source, inside, by rw [← carries]⟩

private theorem exists_incompleteIssue?_iff {bus : BusId} :
    (∃ diagnostic, incompleteIssue? board bus = some diagnostic) ↔
      ∃ signal ∈ bus.kind.required, ¬ Declares board signal bus.index := by
  have missing : missingSignals board bus ≠ [] ↔
      ∃ signal ∈ bus.kind.required, ¬ Declares board signal bus.index := by
    simp only [missingSignals, ne_eq, List.filter_eq_nil_iff, not_forall, Bool.not_eq_true',
      Bool.not_eq_false, List.any_eq_true, decide_eq_true_eq]
    constructor
    · intro given
      obtain ⟨signal, required, absent⟩ := given
      refine ⟨signal, required, ?_⟩
      rwa [declares_iff bus (Kind.mem_required_iff.mp required)]
    · intro given
      obtain ⟨signal, required, absent⟩ := given
      refine ⟨signal, required, ?_⟩
      rwa [declares_iff bus (Kind.mem_required_iff.mp required)] at absent
  rw [← missing, incompleteIssue?]
  cases missingSignals board bus <;> simp

theorem exists_incomplete_iff :
    (∃ bus ∈ declaredBuses board, bus.kind ≠ .uart ∧
        ∃ diagnostic, incompleteIssue? board bus = some diagnostic) ↔ LacksSignal board := by
  constructor
  · intro given
    obtain ⟨bus, declared, kind, issue⟩ := given
    obtain ⟨⟨source, signal⟩, member⟩ := mem_declaredBuses_iff.mp declared
    obtain ⟨inside, carries, rfl⟩ := mem_members_iff.mp member
    refine ⟨signal.kind, source.id.index, ?_, ⟨signal, Kind.mem_required_iff.mpr rfl, ?_⟩,
      exists_incompleteIssue?_iff.mp issue⟩
    · cases signal <;> simp_all [Signal.kind]
    · exact ⟨source, inside, by rw [← carries]⟩
  · intro given
    obtain ⟨kind, index, parallel, ⟨signal, required, declared⟩, missing⟩ := given
    obtain ⟨member, inside, _⟩ := (declares_iff ⟨kind, index⟩
      (Kind.mem_required_iff.mp required)).mp declared
    refine ⟨⟨kind, index⟩, mem_declaredBuses_iff.mpr ⟨member, inside⟩, ?_,
      exists_incompleteIssue?_iff.mpr missing⟩
    rcases parallel with rfl | rfl <;> simp

/-! ## Instances of buses -/

/-- Two buses of one kind are at one instance. -/
def SharesInstance (buses : List Bus) : Prop :=
  ∃ left ∈ buses, ∃ right ∈ buses,
    left.index ≠ right.index ∧ left.kind = right.kind ∧ left.target.name = right.target.name

theorem nodup_resolveBuses (board : Definition) (table : Table) :
    ((resolveBuses board table).map fun bus => BusId.mk bus.kind bus.index).Nodup := by
  rw [resolveBuses, List.map_filterMap]
  apply (nodup_declaredBuses board).filterMap
  intro left right name inLeft inRight
  have same {bus : BusId} (chosen : name ∈ (resolveBus? board table bus).map
      fun found => BusId.mk found.kind found.index) : name = bus := by
    obtain ⟨resolved, found, rfl⟩ := Option.map_eq_some_iff.mp chosen
    obtain ⟨index, kind⟩ := resolveBus?_eq_some found
    rw [index, kind]
  rw [← same inLeft, ← same inRight]

theorem target_mem_busTargets {buses : List Bus} {bus : Bus} (member : bus ∈ buses) :
    bus.target ∈ busTargets buses bus.kind := by
  rw [busTargets, (List.mergeSort_perm _ _).mem_iff, List.mem_eraseDups]
  exact List.mem_map.mpr ⟨bus, List.mem_filter.mpr ⟨member, by simp⟩, rfl⟩

theorem exists_sharedInstance?_iff {kind : Kind} {target : Instance}
    {buses : List Bus} :
    (∃ diagnostic, sharedInstance? kind target buses = some diagnostic) ↔
      ∃ first second rest, buses = first :: second :: rest := by
  unfold sharedInstance?
  split
  · rename_i first second rest
    exact ⟨fun _ => ⟨first, second, rest, rfl⟩, fun _ => ⟨_, rfl⟩⟩
  · rename_i single
    simp only [reduceCtorEq, exists_false, false_iff]
    intro given
    obtain ⟨first, second, rest, rfl⟩ := given
    exact single first second rest rfl

theorem exists_sharedInstances_iff :
    (∃ diagnostic, diagnostic ∈ sharedInstances (resolveBuses board table)) ↔
      SharesInstance (resolveBuses board table) := by
  have claimed (kind : Kind) (target : Instance) := Grouping.filter_eq_cons_cons_iff
    (nodup_resolveBuses board table)
    fun bus => decide (bus.kind = kind ∧ bus.target = target)
  simp only [sharedInstances, List.mem_flatMap, List.mem_filterMap]
  constructor
  · intro given
    obtain ⟨diagnostic, kind, _, target, _, shared⟩ := given
    obtain ⟨left, leftMember, right, rightMember, apart, leftClaim, rightClaim⟩ :=
      (claimed kind target).mp (exists_sharedInstance?_iff.mp ⟨diagnostic, shared⟩)
    obtain ⟨leftKind, leftTarget⟩ := of_decide_eq_true leftClaim
    obtain ⟨rightKind, rightTarget⟩ := of_decide_eq_true rightClaim
    refine ⟨left, leftMember, right, rightMember, ?_, by rw [leftKind, rightKind],
      by rw [leftTarget, rightTarget]⟩
    exact fun same => apart (by rw [leftKind, rightKind, same])
  · intro given
    obtain ⟨left, leftMember, right, rightMember, apart, sameKind, sameName⟩ := given
    have sameTarget := Instance.ext_name sameName
    obtain ⟨diagnostic, shared⟩ := exists_sharedInstance?_iff.mpr
      ((claimed left.kind left.target).mpr ⟨left, leftMember, right, rightMember,
        fun same => apart (congrArg BusId.index same), by simp, by simp [sameKind, sameTarget]⟩)
    exact ⟨diagnostic, left.kind, Kind.mem_all _, left.target,
      target_mem_busTargets leftMember, shared⟩

/-! ## Channels -/

/-- Two placements are on one channel of one timer. -/
def SharesChannel (placements : List Placement) : Prop :=
  ∃ left ∈ placements, ∃ right ∈ placements, left.id ≠ right.id ∧
    ∃ target channel, left.target? = some target ∧ right.target? = some target ∧
      left.channel? = some channel ∧ right.channel? = some channel

theorem exists_sharedChannel?_iff {bank : Bank} {channel : UInt8} :
    (∃ diagnostic, bank.sharedChannel? channel = some diagnostic) ↔
      ∃ first second rest, bank.onChannel channel = first :: second :: rest := by
  unfold Bank.sharedChannel?
  constructor
  · intro given
    obtain ⟨diagnostic, shared⟩ := given
    split at shared
    · rename_i first second rest placed
      exact ⟨first, second, rest, placed⟩
    · cases shared
  · intro given
    obtain ⟨first, second, rest, placed⟩ := given
    rw [placed]
    exact ⟨_, rfl⟩

theorem exists_sharedChannels_iff {placements : List Placement}
    (distinct : (placements.map Placement.id).Nodup) :
    (∃ bank ∈ banksOf placements, ∃ diagnostic, diagnostic ∈ bank.sharedChannels) ↔
      SharesChannel ((banksOf placements).flatMap Bank.channels) := by
  have apartOn {bank : Bank} (resolved : bank ∈ banksOf placements) :
      (bank.channels.map Placement.id).Nodup :=
    ((channels_perm resolved).map _).nodup_iff.mpr
      (distinct.sublist (List.filter_sublist.map _))
  have onBank {bank : Bank} (resolved : bank ∈ banksOf placements) (channel : UInt8) :=
    Grouping.filter_eq_cons_cons_iff (apartOn resolved)
      fun placement => decide (placement.channel? = some channel)
  constructor
  · intro given
    obtain ⟨bank, resolved, diagnostic, issue⟩ := given
    obtain ⟨channel, _, shared⟩ := List.mem_filterMap.mp issue
    obtain ⟨left, leftMember, right, rightMember, apart, leftOn, rightOn⟩ :=
      (onBank resolved channel).mp (exists_sharedChannel?_iff.mp ⟨diagnostic, shared⟩)
    exact ⟨left, List.mem_flatMap.mpr ⟨bank, resolved, leftMember⟩,
      right, List.mem_flatMap.mpr ⟨bank, resolved, rightMember⟩, apart, bank.target, channel,
      ((mem_channels_iff resolved).mp leftMember).2,
      ((mem_channels_iff resolved).mp rightMember).2,
      of_decide_eq_true leftOn, of_decide_eq_true rightOn⟩
  · intro given
    obtain ⟨left, leftMember, right, rightMember, apart, target, channel, leftAt, rightAt,
      leftOn, rightOn⟩ := given
    obtain ⟨bank, resolved, leftDriven⟩ := List.mem_flatMap.mp leftMember
    obtain ⟨_, otherResolved, rightDriven⟩ := List.mem_flatMap.mp rightMember
    have same : target = bank.target := by
      simpa [leftAt] using ((mem_channels_iff resolved).mp leftDriven).2
    have together : right ∈ bank.channels := (mem_channels_iff resolved).mpr
      ⟨((mem_channels_iff otherResolved).mp rightDriven).1, by rw [rightAt, same]⟩
    obtain ⟨diagnostic, shared⟩ := exists_sharedChannel?_iff.mpr ((onBank resolved channel).mpr
      ⟨left, leftDriven, right, together, apart, by simp [leftOn], by simp [rightOn]⟩)
    exact ⟨bank, resolved, diagnostic,
      List.mem_filterMap.mpr ⟨channel, mem_allNumbers channel, shared⟩⟩

/-! ## Rates -/

/-- Some bank holds outputs of two families with different rates. -/
def MixesRates (timings : Timings) (banks : List Bank) : Prop :=
  ∃ bank ∈ banks, ∃ left ∈ bank.channels, ∃ right ∈ bank.channels, ∃ family other,
    left.family? = some family ∧ right.family? = some other ∧
      (timings.of family).frequency ≠ (timings.of other).frequency

theorem Bank.mem_families_iff {bank : Bank} {family : Family} :
    family ∈ bank.families ↔ ∃ placement ∈ bank.channels, placement.family? = some family := by
  have listed : family ∈ Family.all := by cases family <;> decide
  simp only [families, drives, channelsOf, List.mem_filter, listed, true_and,
    Bool.not_eq_true', List.isEmpty_eq_false_iff_exists_mem, decide_eq_true_eq]

private theorem exists_rateConflict?_iff (bank : Bank) {timings : Timings}
    {first other : Family} :
    (∃ diagnostic, bank.rateConflict? timings first other = some diagnostic) ↔
      (timings.of other).frequency ≠ (timings.of first).frequency := by
  unfold Bank.rateConflict?
  by_cases same : (timings.of other).frequency = (timings.of first).frequency <;> simp [same]

/-- Comparing every family with the first finds every difference between two. -/
private theorem exists_rateConflicts_iff {bank : Bank} {timings : Timings} :
    (∃ diagnostic, diagnostic ∈ bank.rateConflicts timings) ↔
      ∃ family ∈ bank.families, ∃ other ∈ bank.families,
        (timings.of family).frequency ≠ (timings.of other).frequency := by
  unfold Bank.rateConflicts
  cases present : bank.families with
  | nil => simp
  | cons first rest =>
      simp only [List.mem_filterMap]
      constructor
      · intro given
        obtain ⟨diagnostic, other, member, conflict⟩ := given
        exact ⟨other, List.mem_cons_of_mem _ member, first, List.mem_cons_self,
          (exists_rateConflict?_iff bank).mp ⟨diagnostic, conflict⟩⟩
      · intro given
        obtain ⟨family, familyMember, other, otherMember, apart⟩ := given
        have differs : ∃ late ∈ first :: rest,
            (timings.of late).frequency ≠ (timings.of first).frequency := by
          by_cases same : (timings.of family).frequency = (timings.of first).frequency
          · exact ⟨other, otherMember, fun also => apart (same.trans also.symm)⟩
          · exact ⟨family, familyMember, same⟩
        obtain ⟨late, member, conflict⟩ := differs
        obtain ⟨diagnostic, issue⟩ := (exists_rateConflict?_iff bank).mpr conflict
        rcases List.mem_cons.mp member with rfl | later
        · exact absurd rfl conflict
        · exact ⟨diagnostic, late, later, issue⟩

theorem exists_mixedRates_iff {banks : List Bank} {timings : Timings} :
    (∃ bank ∈ banks, ∃ diagnostic, diagnostic ∈ bank.rateConflicts timings) ↔
      MixesRates timings banks := by
  simp only [exists_rateConflicts_iff, Bank.mem_families_iff]
  constructor
  · intro given
    obtain ⟨bank, member, family, ⟨left, leftMember, leftOf⟩, other,
      ⟨right, rightMember, rightOf⟩, apart⟩ := given
    exact ⟨bank, member, left, leftMember, right, rightMember, family, other, leftOf, rightOf,
      apart⟩
  · intro given
    obtain ⟨bank, member, left, leftMember, right, rightMember, family, other, leftOf, rightOf,
      apart⟩ := given
    exact ⟨bank, member, family, ⟨left, leftMember, leftOf⟩, other,
      ⟨right, rightMember, rightOf⟩, apart⟩

end Pinout.Resolution
