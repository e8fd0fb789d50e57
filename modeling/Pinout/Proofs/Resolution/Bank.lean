import Pinout.Proofs.Grouping
import Pinout.Proofs.Resolution.Placement
import Pinout.Resolution.Bank

/-! Banks as groups of placements by timer. A bank holds the placements of its timer
and no others, so outputs share a bank exactly when they share a timer. -/

set_option autoImplicit false

namespace Pinout.Resolution

open Board (Assignment Definition)
open Capability (Entry Table)

variable {placements : List Placement}

/-- Placements in the order of channels stay as they are in each bank. -/
theorem banksOf_of_pairwise
    (sorted : placements.Pairwise fun first second => channelPrecedes first second = true) :
    banksOf placements = (placements.filterMap Placement.target?).eraseDups.map fun target =>
      ⟨target, placements.filter fun placement => placement.target? = some target⟩ := by
  unfold banksOf
  refine List.map_congr_left fun target _ => ?_
  rw [List.mergeSort_of_pairwise (sorted.filter _)]

theorem channels_perm {bank : Bank} (member : bank ∈ banksOf placements) :
    bank.channels.Perm
      (placements.filter fun placement => placement.target? = some bank.target) := by
  obtain ⟨target, _, rfl⟩ := List.mem_map.mp member
  exact List.mergeSort_perm _ _

theorem mem_channels_iff {bank : Bank} (member : bank ∈ banksOf placements)
    {placement : Placement} :
    placement ∈ bank.channels ↔
      placement ∈ placements ∧ placement.target? = some bank.target := by
  rw [(channels_perm member).mem_iff, List.mem_filter, decide_eq_true_eq]

theorem exists_bank {placement : Placement} (member : placement ∈ placements)
    {target : Instance} (placed : placement.target? = some target) :
    ∃ bank ∈ banksOf placements, bank.target = target := by
  refine ⟨_, List.mem_map.mpr ⟨target, ?_, rfl⟩, rfl⟩
  exact List.mem_eraseDups.mpr (List.mem_filterMap.mpr ⟨placement, member, placed⟩)

/-- The banks share out the placements that are at a timer. -/
theorem flatMap_channels_perm (placements : List Placement) :
    ((banksOf placements).flatMap Bank.channels).Perm
      (placements.filter fun placement => placement.target?.isSome) := by
  rw [banksOf, List.flatMap_map]
  refine (List.Perm.flatMap_left _ fun target _ => List.mergeSort_perm _ _).trans ?_
  apply Grouping.perm_flatMap_filter (Grouping.nodup_eraseDups _)
  intro placement member target placed
  exact List.mem_eraseDups.mpr (List.mem_filterMap.mpr ⟨placement, member, placed⟩)

theorem map_target_banksOf (placements : List Placement) :
    (banksOf placements).map Bank.target =
      (placements.filterMap Placement.target?).eraseDups := by
  rw [banksOf, List.map_map]
  exact List.map_id _

theorem nodup_targets (placements : List Placement) :
    ((banksOf placements).map Bank.target).Nodup := by
  rw [map_target_banksOf]
  exact Grouping.nodup_eraseDups _

theorem channelPrecedes_trans {first second third : Placement}
    (before : channelPrecedes first second = true) (after : channelPrecedes second third = true) :
    channelPrecedes first third = true := by
  simp only [channelPrecedes, Bool.or_eq_true, Bool.and_eq_true, decide_eq_true_eq, beq_iff_eq,
    UInt8.le_iff_toNat_le] at *
  omega

theorem channelPrecedes_total (left right : Placement) :
    (channelPrecedes left right || channelPrecedes right left) = true := by
  simp only [channelPrecedes, Bool.or_eq_true, Bool.and_eq_true, decide_eq_true_eq, beq_iff_eq,
    UInt8.le_iff_toNat_le]
  omega

/-- Within a bank, the outputs of one family stand by number. -/
theorem pairwise_channels {bank : Bank} (member : bank ∈ banksOf placements) :
    bank.channels.Pairwise fun left right =>
      left.family? = right.family? → left.id.index ≤ right.id.index := by
  obtain ⟨target, _, rfl⟩ := List.mem_map.mp member
  have sorted := @List.pairwise_mergeSort _ channelPrecedes
    (fun _ _ _ => channelPrecedes_trans) channelPrecedes_total
  refine (sorted _).imp ?_
  intro left right before family
  simpa [channelPrecedes, family] using before

theorem mem_placedOutputs_iff {board : Definition} {table : Table} {placement : Placement} :
    placement ∈ placedOutputs board table ↔
      ∃ source ∈ outputs board, ∃ entry, placeOutputOf board table source = .ok entry ∧
        placement = ⟨source, some entry⟩ := by
  simp only [placedOutputs, List.mem_filterMap]
  constructor
  · intro given
    obtain ⟨source, member, chosen⟩ := given
    split at chosen
    · rename_i entry placed
      cases chosen
      exact ⟨source, member, entry, placed, rfl⟩
    · cases chosen
  · intro given
    obtain ⟨source, member, entry, placed, rfl⟩ := given
    exact ⟨source, member, by rw [placed]⟩

theorem kind_of_placeOutputOf {board : Definition} {table : Table} {source : Assignment}
    {entry : Entry} (placed : placeOutputOf board table source = .ok entry) :
    entry.kind = .timer := by
  obtain ⟨named, _, matching⟩ := placeOutput_eq_ok_iff.mp placed
  have inside : entry ∈ timerEntries table source.pin named.function :=
    matching ▸ List.mem_singleton_self entry
  rw [timerEntries_eq] at inside
  exact (of_decide_eq_true (List.mem_filter.mp inside).2).2.1

theorem target?_of_mem_placedOutputs {board : Definition} {table : Table}
    {placement : Placement} (member : placement ∈ placedOutputs board table) :
    ∃ target, placement.target? = some target := by
  obtain ⟨_, _, entry, _, rfl⟩ := mem_placedOutputs_iff.mp member
  exact ⟨entry.target, rfl⟩

/-- The banks of a board hold its placed outputs and nothing else. -/
theorem channels_placedOutputs_perm (board : Definition) (table : Table) :
    ((banksOf (placedOutputs board table)).flatMap Bank.channels).Perm
      (placedOutputs board table) := by
  refine (flatMap_channels_perm _).trans (.of_eq (List.filter_eq_self.mpr ?_))
  intro placement member
  exact Option.isSome_iff_exists.mpr (target?_of_mem_placedOutputs member)

end Pinout.Resolution
