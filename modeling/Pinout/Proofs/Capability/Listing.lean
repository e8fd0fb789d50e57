import Pinout.Capability.Reading
import Pinout.Proofs.Grouping

/-! Listings of instances. The index by name, put in the order of kinds and names, has the
groups of a kind in one run, one for each name that entries of the kind have. Sorting by stem
and number leaves the instances that have both in common in the order of their names. -/

set_option autoImplicit false

namespace Pinout

theorem Kind.rank_inj {left right : Kind} : left.rank = right.rank ↔ left = right := by
  cases left <;> cases right <;> decide

/-- The order of a listing: by stem, then by number with unnumbered ones first, then by name. -/
inductive Instance.ListedBefore (left right : Instance) : Prop
  | stem (before : left.stem < right.stem)
  | unnumbered (same : left.stem = right.stem) (bare : left.number? = none)
    (numbered : right.number? ≠ none)
  | number {small large : UInt8} (same : left.stem = right.stem)
    (first : left.number? = some small) (second : right.number? = some large)
    (before : small < large)
  | name (same : left.stem = right.stem) (tied : left.number? = right.number?)
    (before : left.name < right.name)

namespace Capability

/-! ## Places -/

theorem mem_placesOf_iff {κ : Type} [DecidableEq κ] {key : Entry → κ} {wanted : κ}
    {entries : List Entry} {place : Nat} : place ∈ placesOf key wanted entries ↔
      ∃ entry, entries[place]? = some entry ∧ key entry = wanted := by
  simp [placesOf, List.mem_zipIdx_iff_getElem?]

/-- The places noted under a key are those of one of its groups. -/
theorem exists_group {κ : Type} [DecidableEq κ] {index : List (κ × List Nat)} {key : κ}
    (noted : Index.places index key ≠ []) :
    ∃ group ∈ index, group.1 = key ∧ group.2 = Index.places index key := by
  induction index with
  | nil => exact absurd rfl noted
  | cons first rest ih =>
      rw [Index.places] at noted ⊢
      split at noted
      · rename_i here
        rw [if_pos here]
        exact ⟨first, List.mem_cons_self, here, rfl⟩
      · rename_i apart
        obtain ⟨group, member, same, whole⟩ := ih noted
        rw [if_neg apart]
        exact ⟨group, List.mem_cons_of_mem first member, same, whole⟩

namespace Table

variable {table : Table} {kind : Kind} {entry : Entry} {group : (Kind × String) × List Nat}

/-- The group of an address leads to entries under it. -/
theorem address_of_firstOf? (member : group ∈ table.names)
    (found : table.firstOf? group = some entry) :
    entry ∈ table.entries ∧ entry.address = group.1 := by
  obtain ⟨place, first, here⟩ := Option.bind_eq_some_iff.mp found
  have inside : place ∈ placesOf Entry.address group.1 table.entries := by
    rw [← table.exactNames, Index.places_of_mem table.distinctNames member]
    exact List.mem_of_head? first
  obtain ⟨other, same, under⟩ := mem_placesOf_iff.mp inside
  rw [here, Option.some.injEq] at same
  exact ⟨List.mem_of_getElem? here, same ▸ under⟩

/-- Each entry has a group, and the group leads to an entry. -/
theorem exists_firstOf? (listed : entry ∈ table.entries) :
    ∃ group ∈ table.names, group.1 = entry.address ∧
      ∃ first, table.firstOf? group = some first := by
  obtain ⟨place, here⟩ := List.mem_iff_getElem?.mp listed
  have inside : place ∈ Index.places table.names entry.address := by
    rw [table.exactNames]
    exact mem_placesOf_iff.mpr ⟨entry, here, rfl⟩
  obtain ⟨group, member, under, whole⟩ := exists_group (List.ne_nil_of_mem inside)
  refine ⟨group, member, under, ?_⟩
  obtain ⟨first, others, split⟩ := List.exists_cons_of_ne_nil (List.ne_nil_of_mem inside)
  have noted : first ∈ placesOf Entry.address entry.address table.entries := by
    rw [← table.exactNames, split]
    exact List.mem_cons_self
  obtain ⟨other, found, -⟩ := mem_placesOf_iff.mp noted
  refine ⟨other, ?_⟩
  rw [firstOf?, whole, split]
  exact found

/-! ## Groups of a kind -/

theorem addressPrecedes_iff {left right : Kind × String} : addressPrecedes left right = true ↔
    left.1.rank < right.1.rank ∨ left.1 = right.1 ∧ left.2 ≤ right.2 := by
  simp [addressPrecedes]

theorem addressPrecedes_trans (first second third : Kind × String)
    (before : addressPrecedes first second = true) (after : addressPrecedes second third = true) :
    addressPrecedes first third = true := by
  rw [addressPrecedes_iff] at *
  rcases before with lower | ⟨same, early⟩
  · rcases after with higher | ⟨other, -⟩
    · exact .inl (Nat.lt_trans lower higher)
    · exact .inl (other ▸ lower)
  · rcases after with higher | ⟨other, late⟩
    · exact .inl (same ▸ higher)
    · exact .inr ⟨same.trans other, String.le_trans early late⟩

theorem addressPrecedes_total (left right : Kind × String) :
    (addressPrecedes left right || addressPrecedes right left) = true := by
  rw [Bool.or_eq_true, addressPrecedes_iff, addressPrecedes_iff]
  rcases Nat.lt_trichotomy left.1.rank right.1.rank with lower | same | higher
  · exact .inl (.inl lower)
  · rw [Kind.rank_inj] at same
    exact (String.le_total left.2 right.2).imp (fun early => .inr ⟨same, early⟩)
      fun late => .inr ⟨same.symm, late⟩
  · exact .inr (.inl higher)

/-- The address of a kind with no name comes before those of the kind and of later ones. -/
theorem bare_precedes_iff {address : Kind × String} :
    addressPrecedes (kind, "") address = true ↔ kind.rank ≤ address.1.rank := by
  have least : "" ≤ address.2 := String.not_lt.mp fun early => List.not_lt_nil _ early
  rw [addressPrecedes_iff, Nat.le_iff_lt_or_eq, Kind.rank_inj]
  simp only [least, and_true]

/-- The groups of all kinds, by address. -/
def orderedGroups (table : Table) : List ((Kind × String) × List Nat) :=
  table.names.mergeSort fun left right => addressPrecedes left.1 right.1

theorem pairwise_orderedGroups (table : Table) : table.orderedGroups.Pairwise fun left right =>
    addressPrecedes left.1 right.1 = true := by
  apply List.pairwise_mergeSort
  · exact fun first second third => addressPrecedes_trans first.1 second.1 third.1
  · exact fun left right => addressPrecedes_total left.1 right.1

theorem groupsOf_eq_filter (table : Table) (kind : Kind) :
    table.groupsOf kind = table.orderedGroups.filter fun group => group.1.1 = kind := by
  -- Ranks rise along the order, so the kind begins and ends where its rank does.
  have ranked : table.orderedGroups.Pairwise fun left right =>
      left.1.1.rank ≤ right.1.1.rank := by
    refine table.pairwise_orderedGroups.imp fun before => ?_
    rcases addressPrecedes_iff.mp before with lower | ⟨same, -⟩
    · exact Nat.le_of_lt lower
    · exact Nat.le_of_eq (congrArg Kind.rank same)
  have begins : (fun group : (Kind × String) × List Nat => !addressPrecedes (kind, "") group.1) =
      fun group => decide (group.1.1.rank < kind.rank) := by
    funext group
    rw [Bool.eq_iff_iff, Bool.not_eq_true', ← Bool.not_eq_true, bare_precedes_iff, Nat.not_le,
      decide_eq_true_eq]
  have lasts : (fun group : (Kind × String) × List Nat => decide (group.1.1 = kind)) =
      fun group => decide (group.1.1.rank = kind.rank) := by
    funext group
    rw [decide_eq_decide, Kind.rank_inj]
  rw [groupsOf, begins, lasts]
  exact Grouping.takeWhile_dropWhile_eq_filter ranked kind.rank

theorem mem_groupsOf_iff :
    group ∈ table.groupsOf kind ↔ group ∈ table.names ∧ group.1.1 = kind := by
  rw [groupsOf_eq_filter, List.mem_filter, orderedGroups, List.mem_mergeSort, decide_eq_true_eq]

/-- The groups of a kind stand in the order of their names, and no two have one name. -/
theorem pairwise_groupsOf (table : Table) (kind : Kind) :
    (table.groupsOf kind).Pairwise fun left right => left.1.2 < right.1.2 := by
  have distinct : table.orderedGroups.Pairwise fun left right => left.1 ≠ right.1 := by
    refine List.pairwise_map.mp (List.Nodup.perm table.distinctNames ?_)
    exact ((List.mergeSort_perm _ _).map _).symm
  rw [groupsOf_eq_filter]
  refine ((table.pairwise_orderedGroups.and distinct).filter _).imp_of_mem ?_
  intro left right leftMember rightMember both
  simp only [List.mem_filter, decide_eq_true_eq] at leftMember rightMember
  have sameKind := leftMember.2.trans rightMember.2.symm
  rcases addressPrecedes_iff.mp both.1 with lower | ⟨-, early⟩
  · rw [sameKind] at lower
    exact absurd lower (Nat.lt_irrefl _)
  · exact Std.lt_of_le_of_ne early fun same => both.2 (Prod.ext sameKind same)

/-! ## Instances -/

/-- What decides the place of an instance before its name does. -/
def listingKey (target : Instance) : String × Nat :=
  (target.stem, numberRank target)

theorem numberRank_inj {left right : Instance} :
    numberRank left = numberRank right ↔ left.number? = right.number? := by
  unfold numberRank
  cases left.number? <;> cases right.number? <;> simp [UInt8.toNat_inj]

theorem instancePrecedes_iff {left right : Instance} : instancePrecedes left right = true ↔
    left.stem < right.stem ∨ left.stem = right.stem ∧ numberRank left ≤ numberRank right := by
  simp [instancePrecedes]

theorem instancePrecedes_trans (first second third : Instance)
    (before : instancePrecedes first second = true)
    (after : instancePrecedes second third = true) : instancePrecedes first third = true := by
  rw [instancePrecedes_iff] at *
  rcases before with lower | ⟨same, early⟩
  · rcases after with higher | ⟨other, -⟩
    · exact .inl (String.lt_trans lower higher)
    · exact .inl (other ▸ lower)
  · rcases after with higher | ⟨other, late⟩
    · exact .inl (same ▸ higher)
    · exact .inr ⟨same.trans other, Nat.le_trans early late⟩

theorem instancePrecedes_total (left right : Instance) :
    (instancePrecedes left right || instancePrecedes right left) = true := by
  rw [Bool.or_eq_true, instancePrecedes_iff, instancePrecedes_iff]
  by_cases same : left.stem = right.stem
  · exact (Nat.le_total (numberRank left) (numberRank right)).imp
      (fun early => .inr ⟨same, early⟩) fun late => .inr ⟨same.symm, late⟩
  · rcases String.le_total left.stem right.stem with early | late
    · exact .inl (.inl (Std.lt_of_le_of_ne early same))
    · exact .inr (.inl (Std.lt_of_le_of_ne late (Ne.symm same)))

theorem listedBefore_of_precedes {left right : Instance}
    (before : instancePrecedes left right = true)
    (tied : listingKey left = listingKey right → left.name < right.name) :
    left.ListedBefore right := by
  rcases instancePrecedes_iff.mp before with lower | ⟨same, early⟩
  · exact .stem lower
  · by_cases numbers : left.number? = right.number?
    · exact .name same numbers (tied (Prod.ext same (numberRank_inj.mpr numbers)))
    · have apart : numberRank left ≠ numberRank right := mt numberRank_inj.mp numbers
      cases first : left.number? with
      | none => exact .unnumbered same first fun bare => numbers (first.trans bare.symm)
      | some small =>
          cases second : right.number? with
          | none => simp [numberRank, first, second] at early
          | some large =>
              refine .number same first second (UInt8.lt_iff_toNat_lt.mpr ?_)
              simp only [numberRank, first, second] at early apart
              omega

/-- The instances of a kind as the groups give them. -/
def namedTargets (table : Table) (kind : Kind) : List Instance :=
  ((table.groupsOf kind).filterMap table.firstOf?).map (·.target)

theorem mem_namedTargets_iff {target : Instance} : target ∈ table.namedTargets kind ↔
    ∃ entry ∈ table.entries, entry.kind = kind ∧ entry.target = target := by
  simp only [namedTargets, List.mem_map, List.mem_filterMap]
  constructor
  · rintro ⟨entry, ⟨group, grouped, first⟩, rfl⟩
    obtain ⟨member, ofKind⟩ := mem_groupsOf_iff.mp grouped
    obtain ⟨listed, under⟩ := address_of_firstOf? member first
    exact ⟨entry, listed, (congrArg Prod.fst under).trans ofKind, rfl⟩
  · rintro ⟨entry, listed, rfl, rfl⟩
    obtain ⟨group, member, under, first, found⟩ := exists_firstOf? listed
    have ofKind : group.1.1 = entry.kind := congrArg Prod.fst under
    have named := congrArg Prod.snd ((address_of_firstOf? member found).2.trans under)
    exact ⟨first, ⟨group, mem_groupsOf_iff.mpr ⟨member, ofKind⟩, found⟩, Instance.ext_name named⟩

theorem pairwise_namedTargets (table : Table) (kind : Kind) :
    (table.namedTargets kind).Pairwise fun left right => left.name < right.name := by
  have names : (((table.groupsOf kind).filterMap table.firstOf?).map fun entry =>
      entry.target.name).Sublist ((table.groupsOf kind).map fun group => group.1.2) := by
    apply Grouping.map_filterMap_sublist
    intro group grouped entry first
    obtain ⟨member, -⟩ := mem_groupsOf_iff.mp grouped
    exact congrArg Prod.snd (address_of_firstOf? member first).2
  have ordered := (List.pairwise_map.mpr (table.pairwise_groupsOf kind)).sublist names
  exact List.pairwise_map.mpr (List.pairwise_map.mp ordered)

theorem mem_instances_iff {target : Instance} : target ∈ table.instances kind ↔
    ∃ entry ∈ table.entries, entry.kind = kind ∧ entry.target = target := by
  rw [instances, List.mem_mergeSort, ← namedTargets, mem_namedTargets_iff]

/-- Sorting does not change the order of instances with one stem and number. -/
theorem pairwise_instances (table : Table) (kind : Kind) :
    (table.instances kind).Pairwise Instance.ListedBefore := by
  have sorted := List.pairwise_mergeSort instancePrecedes_trans instancePrecedes_total
    (table.namedTargets kind)
  have tied (left right : Instance) (same : listingKey left = listingKey right) :
      instancePrecedes left right = true := by
    obtain ⟨stems, numbers⟩ := Prod.mk.inj same
    exact instancePrecedes_iff.mpr (.inr ⟨stems, Nat.le_of_eq numbers⟩)
  have stable := @Grouping.filter_mergeSort_key _ _ _ listingKey _ instancePrecedes_trans
    instancePrecedes_total tied (table.namedTargets kind)
  have names (key : String × Nat) : ((table.instances kind).filter fun target =>
      listingKey target = key).Pairwise fun left right => left.name < right.name := by
    refine (congrArg _ (stable key)).mpr ?_
    exact (table.pairwise_namedTargets kind).filter _
  refine (Grouping.pairwise_and_of_filter_key sorted names).imp ?_
  exact fun both => listedBefore_of_precedes both.1 both.2

end Table

/-! ## Listings -/

/-- A listing of the instances of a kind in a table: each name that an entry of the kind has,
once, and nothing else, in the order of listings. -/
structure Lists (table : Table) (kind : Kind) (listed : List Instance) : Prop where
  distinct : (listed.map (·.name)).Nodup
  names : ∀ name, name ∈ listed.map (·.name) ↔
    ∃ entry ∈ table.entries, entry.kind = kind ∧ entry.target.name = name
  ordered : listed.Pairwise Instance.ListedBefore

theorem lists_instances (table : Table) (kind : Kind) :
    Lists table kind (table.instances kind) where
  distinct := by
    have apart : ((table.namedTargets kind).map (·.name)).Nodup := by
      refine List.pairwise_map.mpr ((table.pairwise_namedTargets kind).imp ?_)
      intro left right before same
      rw [same] at before
      exact String.lt_irrefl _ before
    exact apart.perm ((List.mergeSort_perm _ _).map _).symm
  names := by
    intro name
    simp only [List.mem_map, Table.mem_instances_iff]
    constructor
    · rintro ⟨_, ⟨entry, member, ofKind, rfl⟩, same⟩
      exact ⟨entry, member, ofKind, same⟩
    · rintro ⟨entry, member, ofKind, same⟩
      exact ⟨entry.target, ⟨entry, member, ofKind, rfl⟩, same⟩
  ordered := table.pairwise_instances kind

/-- Whether it was read from a text or made of entries, a table lists the instances of each
kind. -/
theorem lists_tables (mcu : String) (kind : Kind) :
    (∀ text, Lists (parse mcu text).table kind ((parse mcu text).table.instances kind)) ∧
      ∀ entries, Lists (ofEntries mcu entries).table kind
        ((ofEntries mcu entries).table.instances kind) :=
  ⟨fun text => lists_instances (parse mcu text).table kind,
    fun entries => lists_instances (ofEntries mcu entries).table kind⟩

end Capability

end Pinout
