import Mathlib.Data.List.Nodup
import Pinout.Proofs.Board.Unambiguous
import Pinout.Proofs.Resolution.Bank
import Pinout.Proofs.Resolution.Findings

/-! Resolution neither loses nor repeats a resource. The regroupings by bus, by timer
and by role permute the decisions on the modeled assignments, so what is placed and
what is dropped add up to what the board declares. -/

set_option autoImplicit false

namespace Pinout.Resolution

open Board (Assignment Definition)
open Capability (Entry Table)

variable {board : Definition} {table : Table} {options : Options}

theorem mem_modeled_iff {source : Assignment} :
    source ∈ board.modeled ↔
      source ∈ board.resources ∧ source.id.resource.isModeled = true :=
  List.mem_filter

/-- The placements of a resolved board are the decisions in favor, in another order. -/
theorem placements_perm (board : Definition) (table : Table) (options : Options) :
    (resolvedBoard board table options).placements.Perm
      (board.modeled.filterMap (placement? board table)) := by
  refine .trans ?_ ((passes_perm board).filterMap (placement? board table))
  rw [passes, List.filterMap_append, List.filterMap_append, Resolved.placements, resolvedBoard,
    pins_resolveBuses, placedRoles_eq, ← placedOutputs_eq]
  exact ((List.Perm.refl _).append (channels_placedOutputs_perm board table)).append (.refl _)

theorem dropped_perm (board : Definition) (table : Table) (options : Options) :
    (resolvedBoard board table options).dropped.Perm
      ((refusals board table board.modeled).map (·.1.id)) := by
  have together : (resolvedBoard board table options).dropped =
      (refusals board table (passes board)).map (·.1.id) := by
    rw [resolvedBoard, refusedBusResources_eq, refusedOutputs_eq, refusedRoles_eq]
    simp only [refusals, passes, List.filterMap_append, List.map_append]
  rw [together]
  exact ((passes_perm board).filterMap _).map _

theorem refusalFindings_perm (board : Definition) (table : Table) (options : Options) :
    (refusalFindings (findings board table options)).Perm
      (board.modeled.filterMap (refusalIssue? board table)) := by
  rw [refusalFindings_findings]
  exact (passes_perm board).filterMap _

theorem mem_placements_iff {placement : Placement} :
    placement ∈ (resolvedBoard board table options).placements ↔
      ∃ source ∈ board.modeled, placement? board table source = some placement := by
  rw [(placements_perm board table options).mem_iff, List.mem_filterMap]

theorem mem_dropped_iff {id : ResourceId} :
    id ∈ (resolvedBoard board table options).dropped ↔
      ∃ source ∈ board.modeled, source.id = id ∧
        ∃ refusal, refusal? board table source = some refusal := by
  rw [(dropped_perm board table options).mem_iff, List.mem_map]
  constructor
  · intro given
    obtain ⟨⟨source, refusal⟩, member, rfl⟩ := given
    obtain ⟨modeled, refused⟩ := mem_refusals_iff.mp member
    exact ⟨source, modeled, rfl, refusal, refused⟩
  · intro given
    obtain ⟨source, modeled, rfl, refusal, refused⟩ := given
    exact ⟨⟨source, refusal⟩, mem_refusals_iff.mpr ⟨modeled, refused⟩, rfl⟩

private theorem ids_of_decisions (board : Definition) (table : Table) {sources : List Assignment}
    (modeled : ∀ source ∈ sources, source.id.resource.isModeled = true) :
    ((sources.filterMap (placement? board table)).map Placement.id ++
      (refusals board table sources).map (·.1.id)).Perm (sources.map (·.id)) := by
  induction sources with
  | nil => exact .refl _
  | cons source rest ih =>
      have settled := ih fun other member => modeled other (List.mem_cons_of_mem _ member)
      rcases placed_or_refused board table (modeled source List.mem_cons_self) with
        ⟨placement, placed, kept⟩ | ⟨refusal, refused, kept⟩
      · have same : placement.id = source.id := by
          rw [Placement.id, source_of_placement? placed]
        rw [List.filterMap_cons_some placed, refusals_cons_of_none kept]
        simpa [same] using settled
      · rw [List.filterMap_cons_none kept, refusals_cons_of_some refused]
        exact List.perm_middle.trans (settled.cons source.id)

/-- Every modeled resource is placed or dropped, and counted once. -/
theorem ids_perm (board : Definition) (table : Table) (options : Options) :
    ((resolvedBoard board table options).placements.map Placement.id ++
      (resolvedBoard board table options).dropped).Perm (board.modeled.map (·.id)) := by
  refine .trans ?_ (ids_of_decisions board table fun source member =>
    (mem_modeled_iff.mp member).2)
  exact ((placements_perm board table options).map _).append (dropped_perm board table options)

private theorem foldl_length {α : Type} (parts : α → List Placement) (wholes : List α)
    (total : Nat) :
    wholes.foldl (fun total whole => total + (parts whole).length) total =
      total + (wholes.flatMap parts).length := by
  induction wholes generalizing total with
  | nil => rfl
  | cons whole rest ih =>
      rw [List.foldl_cons, ih, List.flatMap_cons, List.length_append, Nat.add_assoc]

theorem placedCount_eq (resolved : Resolved) :
    resolved.placedCount = resolved.placements.length := by
  simp only [Resolved.placedCount, Resolved.placements, foldl_length _, List.length_append,
    Nat.zero_add]

/-! ## Where placements go -/

theorem exists_placement_of_kept {source : Assignment} (modeled : source ∈ board.modeled)
    (kept : source.id ∉ (resolvedBoard board table options).dropped) :
    ∃ placement, placement? board table source = some placement := by
  rcases placed_or_refused board table (mem_modeled_iff.mp modeled).2 with
    ⟨placement, placed, _⟩ | ⟨refusal, refused, _⟩
  · exact ⟨placement, placed⟩
  · exact absurd (mem_dropped_iff.mpr ⟨source, modeled, rfl, refusal, refused⟩) kept

theorem resolveBus?_eq_some {bus : BusId} {resolved : Bus}
    (found : resolveBus? board table bus = some resolved) :
    resolved.index = bus.index ∧ resolved.kind = bus.kind := by
  unfold resolveBus? at found
  split at found <;> cases found
  exact ⟨rfl, kind_wantedSelector board bus⟩

theorem exists_bus_of_placement {source : Assignment} {signal : Signal}
    {placement : Placement} (member : source ∈ board.resources)
    (carries : source.id.resource = .bus signal)
    (placed : placement? board table source = some placement) :
    ∃ bus ∈ resolveBuses board table,
      bus.kind = signal.kind ∧ bus.index = source.id.index ∧ placement ∈ bus.pins := by
  let owner : BusId := ⟨signal.kind, source.id.index⟩
  have inside : (source, signal) ∈ members board owner :=
    mem_members_iff.mpr ⟨member, carries, rfl⟩
  have onBus : placement ∈ (resolveBus? board table owner).toList.flatMap Bus.pins := by
    rw [pins_resolveBus?]
    exact List.mem_filterMap.mpr ⟨source, List.mem_map.mpr ⟨_, inside, rfl⟩, placed⟩
  obtain ⟨bus, found, pinned⟩ := List.mem_flatMap.mp onBus
  have resolved := Option.mem_toList.mp found
  obtain ⟨index, kind⟩ := resolveBus?_eq_some resolved
  refine ⟨bus, ?_, kind, index, pinned⟩
  exact List.mem_filterMap.mpr ⟨owner, mem_declaredBuses_iff.mpr ⟨_, inside⟩, resolved⟩

theorem exists_bank_of_placement {source : Assignment} {family : Family}
    {placement : Placement} (member : source ∈ board.resources)
    (timed : source.id.resource = .output family)
    (placed : placement? board table source = some placement) :
    ∃ bank ∈ banksOf (placedOutputs board table),
      placement.target? = some bank.target ∧ placement ∈ bank.channels := by
  have inside : placement ∈ placedOutputs board table := by
    rw [placedOutputs_eq]
    exact List.mem_filterMap.mpr ⟨source, mem_outputs_iff.mpr ⟨member, family, timed⟩, placed⟩
  obtain ⟨target, onTimer⟩ := target?_of_mem_placedOutputs inside
  obtain ⟨bank, resolved, rfl⟩ := exists_bank inside onTimer
  exact ⟨bank, resolved, onTimer, (mem_channels_iff resolved).mpr ⟨inside, onTimer⟩⟩

theorem mem_placedRoles_of_placement {source : Assignment} {role : Role}
    {placement : Placement} (member : source ∈ board.resources)
    (single : source.id.resource = .single role)
    (placed : placement? board table source = some placement) :
    placement ∈ placedRoles board table := by
  rw [placedRoles_eq]
  refine List.mem_filterMap.mpr ⟨source, List.mem_map.mpr ⟨(source, role), ?_, rfl⟩, placed⟩
  exact List.mem_filterMap.mpr ⟨source, member, by rw [single]⟩

/-! ## Looking up by name -/

variable (unambiguous : board.Unambiguous)
include unambiguous

/-- Looking a modeled resource up gives the decision on it. -/
theorem find?_eq_placement? {source : Assignment} (modeled : source ∈ board.modeled) :
    (resolvedBoard board table options).find? source.id = placement? board table source := by
  have distinct : ((resolvedBoard board table options).placements.map Placement.id).Nodup :=
    List.Nodup.of_append_left ((ids_perm board table options).nodup_iff.mpr unambiguous.modeled)
  apply Option.ext
  intro placement
  rw [Resolved.find?, Grouping.find?_key_eq_some_iff distinct, mem_placements_iff]
  constructor
  · intro given
    obtain ⟨⟨other, otherModeled, placed⟩, named⟩ := given
    rw [Placement.id, source_of_placement? placed] at named
    have same := unambiguous.eq_of_mem_modeled otherModeled modeled named
    exact same ▸ placed
  · intro placed
    exact ⟨⟨source, modeled, placed⟩, by rw [Placement.id, source_of_placement? placed]⟩

theorem id_mem_dropped_iff {source : Assignment} (modeled : source ∈ board.modeled) :
    source.id ∈ (resolvedBoard board table options).dropped ↔
      ∃ refusal, refusal? board table source = some refusal := by
  rw [mem_dropped_iff]
  constructor
  · intro given
    obtain ⟨other, otherModeled, named, refusal, refused⟩ := given
    have same := unambiguous.eq_of_mem_modeled otherModeled modeled named
    exact ⟨refusal, same ▸ refused⟩
  · intro given
    obtain ⟨refusal, refused⟩ := given
    exact ⟨source, modeled, rfl, refusal, refused⟩

/-- The errors that name a modeled resource and have the kind of a refusal are its own
refusal, if it has one. -/
theorem refusalFindings_naming {source : Assignment} (modeled : source ∈ board.modeled) :
    ((refusalFindings (findings board table options)).filter fun diagnostic =>
      diagnostic.resource = some source.id) = (refusalIssue? board table source).toList := by
  have names {other : Assignment} {diagnostic : Diagnostic}
      (issue : refusalIssue? board table other = some diagnostic) :
      diagnostic.resource = some other.id := by
    obtain ⟨refusal, _, rfl⟩ := Option.map_eq_some_iff.mp issue
    rfl
  have alone : (board.modeled.filterMap (refusalIssue? board table)).filter (fun diagnostic =>
        diagnostic.resource = some source.id) =
      (board.modeled.filter fun other => other.id = source.id).filterMap
        (refusalIssue? board table) := by
    rw [List.filter_filterMap, List.filterMap_filter]
    refine List.filterMap_congr fun other _ => ?_
    cases issue : refusalIssue? board table other with
    | none => simp
    | some diagnostic =>
        by_cases same : other.id = source.id <;> simp [Option.filter, names issue, same]
  have regrouped := (refusalFindings_perm board table options).filter fun diagnostic =>
    decide (diagnostic.resource = some source.id)
  rw [alone, Grouping.filter_key_eq_singleton unambiguous.modeled modeled] at regrouped
  cases issue : refusalIssue? board table source with
  | none => simpa [issue] using regrouped
  | some diagnostic => simpa [issue] using regrouped

end Pinout.Resolution
