import Pinout.Capability.Entry

/-! Catalogs of entries: the entries in the order in which they came, and two indexes to
them. One gives, for each pin and kind, the places of the entries there; the other does so
for each kind and instance name, as it is spelled. Both grow with the entries and are exact
at every step; a name has one group in its index. -/

set_option autoImplicit false

namespace Pinout.Capability

/-! ## Places by key -/

namespace Index

variable {κ : Type} [DecidableEq κ]

/-- The places noted under a key, in the order in which they were noted. -/
def places (index : List (κ × List Nat)) (key : κ) : List Nat :=
  match index with
  | [] => []
  | group :: rest => if group.1 = key then group.2 else places rest key

/-- Note one more place under a key. -/
def note (key : κ) (place : Nat) : List (κ × List Nat) → List (κ × List Nat)
  | [] => [(key, [place])]
  | group :: rest =>
    if group.1 = key then (key, group.2 ++ [place]) :: rest else group :: note key place rest

theorem places_note {index : List (κ × List Nat)} {key other : κ} {place : Nat} :
    places (note key place index) other =
      if key = other then places index key ++ [place] else places index other := by
  induction index with
  | nil => by_cases same : key = other <;> simp [note, places, same]
  | cons group rest ih =>
      rw [note]
      split
      · rename_i here
        by_cases same : key = other <;> simp [places, here, same]
      · rename_i apart
        rw [places, ih]
        by_cases same : key = other
        · subst same
          simp [places, apart]
        · simp [places, same]

/-- Noting a place adds its key if there is no group of it. -/
theorem keys_note {index : List (κ × List Nat)} {key : κ} {place : Nat} :
    (note key place index).map (·.1) =
      if key ∈ index.map (·.1) then index.map (·.1) else index.map (·.1) ++ [key] := by
  induction index with
  | nil => simp [note]
  | cons group rest ih =>
      rw [note]
      split
      · rename_i here
        simp [here]
      · rename_i apart
        rw [List.map_cons, ih, List.map_cons]
        by_cases known : key ∈ rest.map (·.1)
        · rw [if_pos known, if_pos (List.mem_cons_of_mem _ known)]
        · have fresh : key ∉ group.1 :: rest.map (·.1) := by
            simp only [List.mem_cons, not_or]
            exact ⟨Ne.symm apart, known⟩
          rw [if_neg known, if_neg fresh, List.cons_append]

theorem nodup_keys_note {index : List (κ × List Nat)} {key : κ} {place : Nat}
    (distinct : (index.map (·.1)).Nodup) : ((note key place index).map (·.1)).Nodup := by
  rw [keys_note]
  split
  · exact distinct
  · rename_i fresh
    refine List.nodup_append.mpr ⟨distinct, List.nodup_cons.mpr ⟨by simp, .nil⟩, ?_⟩
    intro known member other last same
    rw [List.mem_singleton.mp last] at same
    exact fresh (same ▸ member)

/-- Where a key has one group, this group has all its places. -/
theorem places_of_mem {index : List (κ × List Nat)} {group : κ × List Nat}
    (distinct : (index.map (·.1)).Nodup) (member : group ∈ index) :
    places index group.1 = group.2 := by
  induction index with
  | nil => cases member
  | cons first rest ih =>
      obtain ⟨fresh, others⟩ := List.nodup_cons.mp distinct
      rw [places]
      rcases List.mem_cons.mp member with rfl | later
      · rw [if_pos rfl]
      · have apart : first.1 ≠ group.1 :=
          fun same => fresh (List.mem_map.mpr ⟨group, later, same.symm⟩)
        rw [if_neg apart, ih others later]

end Index

/-! ## Catalogs -/

/-- Where an entry is looked for by pin. -/
def Entry.site (entry : Entry) : Pin × Kind :=
  (entry.pin.base, entry.kind)

/-- Under what an entry is looked for by instance. -/
def Entry.address (entry : Entry) : Kind × String :=
  (entry.kind, entry.target.name)

section Places

variable {κ : Type} [DecidableEq κ] {key : Entry → κ} {wanted : κ} {entries : List Entry}

/-- The places of the entries with one key among all entries. -/
def placesOf (key : Entry → κ) (wanted : κ) (entries : List Entry) : List Nat :=
  (entries.zipIdx.filter fun (entry, _) => key entry = wanted).map (·.2)

theorem placesOf_concat {entry : Entry} :
    placesOf key wanted (entries ++ [entry]) =
      if key entry = wanted then placesOf key wanted entries ++ [entries.length]
      else placesOf key wanted entries := by
  by_cases here : key entry = wanted <;>
    simp [placesOf, List.zipIdx_append, here]

/-- An exact index stays so when the place of one more entry is noted. -/
theorem places_note_eq {index : List (κ × List Nat)} {entry : Entry}
    (exact : ∀ wanted, Index.places index wanted = placesOf key wanted entries) :
    Index.places (Index.note (key entry) entries.length index) wanted =
      placesOf key wanted (entries ++ [entry]) := by
  rw [Index.places_note, placesOf_concat, exact, exact]
  by_cases here : key entry = wanted <;> simp [here]

/-- Going by right places gives the items that were placed. -/
private theorem filterMap_places {items : List (Entry × Nat)}
    (placed : ∀ item ∈ items, entries[item.2]? = some item.1) :
    (items.map (·.2)).filterMap (fun place => entries[place]?) = items.map (·.1) := by
  induction items with
  | nil => rfl
  | cons item rest ih =>
      have here := placed item List.mem_cons_self
      have others := ih fun other member => placed other (List.mem_cons_of_mem item member)
      rw [List.map_cons, List.filterMap_cons_some here, others, List.map_cons]

/-- The places of a key lead to the entries with it, all of them and in their order. -/
theorem filterMap_placesOf :
    (placesOf key wanted entries).filterMap (fun place => entries[place]?) =
      entries.filter fun entry => key entry = wanted := by
  have placed : ∀ item ∈ entries.zipIdx.filter (fun (entry, _) => key entry = wanted),
      entries[item.2]? = some item.1 := by
    intro item member
    exact List.mem_zipIdx_iff_getElem?.mp (List.mem_filter.mp member).1
  calc (placesOf key wanted entries).filterMap (fun place => entries[place]?)
      = (entries.zipIdx.filter fun (entry, _) => key entry = wanted).map (·.1) := by
        rw [placesOf, filterMap_places placed]
    _ = (entries.zipIdx.map (·.1)).filter fun entry => key entry = wanted := by
        rw [List.filter_map]
        rfl
    _ = entries.filter fun entry => key entry = wanted := by rw [List.zipIdx_map_fst]

end Places

/-- Entries with exact indexes to them, and one group for each name. -/
structure Catalog where
  entries : List Entry
  index : List ((Pin × Kind) × List Nat)
  names : List ((Kind × String) × List Nat)
  exact : ∀ site, Index.places index site = placesOf Entry.site site entries
  exactNames : ∀ address, Index.places names address = placesOf Entry.address address entries
  distinctNames : (names.map (·.1)).Nodup
deriving DecidableEq

namespace Catalog

def empty : Catalog :=
  ⟨[], [], [], fun _ => rfl, fun _ => rfl, .nil⟩

/-- Put an entry behind the others, and note its place in both indexes. -/
def push (catalog : Catalog) (entry : Entry) : Catalog where
  entries := catalog.entries ++ [entry]
  index := Index.note entry.site catalog.entries.length catalog.index
  names := Index.note entry.address catalog.entries.length catalog.names
  exact := fun _ => places_note_eq catalog.exact
  exactNames := fun _ => places_note_eq catalog.exactNames
  distinctNames := Index.nodup_keys_note catalog.distinctNames

/-- The entries of a site, found by their places. -/
def entriesAt (catalog : Catalog) (site : Pin × Kind) : List Entry :=
  (Index.places catalog.index site).filterMap fun place => catalog.entries[place]?

theorem entriesAt_eq (catalog : Catalog) (site : Pin × Kind) :
    catalog.entriesAt site = catalog.entries.filter fun entry => entry.site = site := by
  rw [entriesAt, catalog.exact, filterMap_placesOf]

/-- The entries under an address, found by their places. -/
def entriesUnder (catalog : Catalog) (address : Kind × String) : List Entry :=
  (Index.places catalog.names address).filterMap fun place => catalog.entries[place]?

theorem entriesUnder_eq (catalog : Catalog) (address : Kind × String) :
    catalog.entriesUnder address =
      catalog.entries.filter fun entry => entry.address = address := by
  rw [entriesUnder, catalog.exactNames, filterMap_placesOf]

end Catalog

end Pinout.Capability
