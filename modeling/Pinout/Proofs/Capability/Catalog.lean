import Mathlib.Data.List.Induction
import Pinout.Proofs.Capability.Account

/-! What a table holds. Of the entries that claim the same it holds the first one offered,
and the lookups by pin give all that it holds for the pin, in the order of the table. -/

set_option autoImplicit false

namespace Pinout.Capability

/-- What a search for the first suitable entry of a list comes to. -/
structure FindsFirst (entries : List Entry) (suits : Entry → Prop) (found : Option Entry) :
    Prop where
  some_iff : ∀ entry, found = some entry ↔ ∃ before after, entries = before ++ entry :: after ∧
    suits entry ∧ ∀ earlier ∈ before, ¬ suits earlier
  none_iff : found = none ↔ ∀ entry ∈ entries, ¬ suits entry

theorem findsFirst_find? (entries : List Entry) (suits : Entry → Bool) :
    FindsFirst entries (fun entry => suits entry = true) (entries.find? suits) where
  some_iff := by
    intro entry
    rw [List.find?_eq_some_iff_append]
    simp only [Bool.not_eq_eq_eq_not, Bool.not_true, Bool.not_eq_true]
    constructor
    · rintro ⟨suitable, before, after, split, earlier⟩
      exact ⟨before, after, split, suitable, earlier⟩
    · rintro ⟨before, after, split, suitable, earlier⟩
      exact ⟨suitable, before, after, split, earlier⟩
  none_iff := List.find?_eq_none

/-! ## The entries kept -/

/-- Of the offered entries with the same claim the first one was kept, and no other. -/
structure KeepsFirst (offered kept : List Entry) : Prop where
  distinct : kept.Pairwise fun left right => left.claim ≠ right.claim
  ordered : kept.Sublist offered
  first : ∀ claim, (kept.find? fun entry => entry.claim = claim) =
    offered.find? fun entry => entry.claim = claim

section Keeping

variable {offered kept : List Entry} {entry : Entry}

theorem KeepsFirst.concat_claimed (keeps : KeepsFirst offered kept)
    (taken : Claimed kept entry.claim) : KeepsFirst (offered ++ [entry]) kept where
  distinct := keeps.distinct
  ordered := keeps.ordered.trans (List.sublist_append_left _ _)
  first := by
    intro claim
    rw [List.find?_append, ← keeps.first]
    by_cases same : entry.claim = claim
    · obtain ⟨holder, member, holds⟩ := taken
      have found : (kept.find? fun entry => entry.claim = claim).isSome := by
        rw [List.find?_isSome]
        exact ⟨holder, member, by simp [holds, same]⟩
      rw [Option.or_of_isSome found]
    · rw [List.find?_cons_of_neg (by simpa using same), List.find?_nil, Option.or_none]

theorem KeepsFirst.concat_free (keeps : KeepsFirst offered kept)
    (free : ¬ Claimed kept entry.claim) :
    KeepsFirst (offered ++ [entry]) (kept ++ [entry]) where
  distinct := by
    rw [List.pairwise_append]
    refine ⟨keeps.distinct, List.pairwise_singleton _ _, ?_⟩
    intro earlier member last ending same
    rw [List.mem_singleton.mp ending] at same
    exact free ⟨earlier, member, same⟩
  ordered := keeps.ordered.append (List.Sublist.refl [entry])
  first := by
    intro claim
    rw [List.find?_append, List.find?_append, keeps.first]

end Keeping

def Offer.entry? (offer : Offer) : Option Entry :=
  match offer.entry with
  | .ok entry => entry
  | .error _ => none

theorem Offer.entry?_eq_some_iff {offer : Offer} {entry : Entry} :
    offer.entry? = some entry ↔ offer.entry = .ok (some entry) := by
  unfold Offer.entry?
  split
  · rename_i named
    rw [named, Except.ok.injEq]
  · rename_i refused
    simp [refused]

/-- One more offer is kept or passed over as its claim asks. -/
theorem KeepsFirst.add {offered : List Entry} {catalog : Catalog}
    (keeps : KeepsFirst offered catalog.entries) (offer : Offer) :
    KeepsFirst (offered ++ offer.entry?.toList) (catalog.add offer).entries := by
  cases named : offer.entry? with
  | none =>
      have silent : ∀ entry, offer.entry ≠ .ok (some entry) := by
        intro entry told
        rw [Offer.entry?_eq_some_iff.mpr told] at named
        cases named
      rw [Catalog.add_of_silent silent, Option.toList_none, List.append_nil]
      exact keeps
  | some entry =>
      have told := Offer.entry?_eq_some_iff.mp named
      rw [Option.toList_some]
      by_cases taken : Claimed catalog.entries entry.claim
      · rw [Catalog.add_of_claimed told taken]
        exact keeps.concat_claimed taken
      · rw [Catalog.add_of_free told taken]
        exact keeps.concat_free taken

theorem keepsFirst_foldl (offers : List Offer) :
    KeepsFirst (offers.filterMap Offer.entry?) (offers.foldl Catalog.add .empty).entries := by
  induction offers using List.reverseRecOn with
  | nil => exact ⟨.nil, .slnil, fun _ => rfl⟩
  | append_singleton offers offer ih =>
      rw [List.foldl_concat, List.filterMap_append]
      have named : [offer].filterMap Offer.entry? = offer.entry?.toList := by
        cases found : offer.entry? <;> simp [found]
      rw [named]
      exact ih.add offer

/-! ## The pins known -/

/-- An offer names the pin of its entry. -/
def Offer.Vouches (offer : Offer) : Prop :=
  ∀ entry, offer.entry? = some entry → offer.pin = some entry.pin.base

theorem pin_of_entryOf {content : Content} {variant : Pin.Variant} {pin : String}
    {fields : List String} {entry : Entry}
    (told : entryOf content variant pin fields = .ok (some entry)) : entry.pin = variant := by
  unfold entryOf at told
  split at told
  · cases told
  · split at told
    · cases told
    · split at told
      · cases told
      · rename_i target _
        dsimp only at told
        cases used : useOf content pin target _ with
        | error fault =>
            rw [used] at told
            cases told
        | ok use? =>
            rw [used] at told
            cases use? with
            | none => cases told
            | some use =>
                cases told
                rfl

theorem vouches_offerOf (name : String) (row : PinMap.Row) : (offerOf name row).Vouches := by
  intro entry named
  rw [Offer.entry?_eq_some_iff] at named
  unfold offerOf at named ⊢
  split at named
  · cases named
  · split at named
    · cases named
    · rename_i variant _
      dsimp only at named ⊢
      rw [pin_of_entryOf named]

theorem knowsPin_of_mem {table : Table} {pin : Pin} (listed : pin ∈ table.pins) :
    table.knowsPin pin = true := by
  rw [Table.knowsPin, Bool.or_eq_true, List.any_eq_true]
  exact .inr ⟨pin, listed, by simp⟩

/-! ## Tables -/

/-- A table that holds the first of the offered entries with each claim, finds by pin and
kind all that it holds, and knows the pin of each of its entries. -/
structure WellKept (offered : List Entry) (table : Table) : Prop where
  kept : KeepsFirst offered table.entries
  listed : ∀ pin kind, table.entriesFor pin kind =
    table.entries.filter fun entry => entry.pin.base = pin ∧ entry.kind = kind
  reached : ∀ pin kind (selector : Selector), FindsFirst (table.entriesFor pin kind)
    (fun entry => selector.selects entry.target = true) (table.reaching? pin kind selector)
  carried : ∀ pin (signal : Signal) (selector : Selector),
    FindsFirst (table.entriesFor pin signal.kind)
      (fun entry => entry.signal? = some signal ∧ selector.selects entry.target = true)
      (table.carrying? pin signal selector)
  known : ∀ entry ∈ table.entries, table.knowsPin entry.pin.base = true

theorem wellKept_ofOffers (mcu : String) (sections : List String) {offers : List Offer}
    (vouched : ∀ offer ∈ offers, offer.Vouches) :
    WellKept (offers.filterMap Offer.entry?) (ofOffers mcu sections offers).table where
  kept := keepsFirst_foldl offers
  listed := Table.entriesFor_eq _
  reached := fun _ _ _ => findsFirst_find? _ _
  carried := by
    intro pin signal selector
    have found := findsFirst_find?
      ((ofOffers mcu sections offers).table.entriesFor pin signal.kind)
      (fun entry => entry.signal? = some signal ∧ selector.selects entry.target = true)
    simp only [decide_eq_true_eq] at found
    simpa only [Table.carrying?, Table.entriesForSignal, List.find?_filter, decide_eq_true_eq]
      using found
  known := by
    intro entry member
    obtain ⟨offer, offered, named⟩ :=
      List.mem_filterMap.mp ((keepsFirst_foldl offers).ordered.subset member)
    exact knowsPin_of_mem
      (List.mem_filterMap.mpr ⟨offer, offered, vouched offer offered entry named⟩)

/-- Whatever a text or a list of entries says, the table made of it is well kept. -/
theorem wellKept_tables (mcu : String) :
    (∀ text, WellKept ((offersOf (PinMap.scan text).items).filterMap Offer.entry?)
      (parse mcu text).table) ∧
    ∀ entries, WellKept entries (ofEntries mcu entries).table := by
  constructor
  · intro text
    refine wellKept_ofOffers mcu _ ?_
    intro offer member
    obtain ⟨part, _, inside⟩ := List.mem_flatMap.mp member
    obtain ⟨row, _, rfl⟩ := List.mem_map.mp inside
    exact vouches_offerOf part.name row
  · intro entries
    let offers : List Offer := (entries.zipIdx 1).map fun item =>
      ⟨item.2, some item.1.pin.base, .ok (some item.1)⟩
    have offered : offers.filterMap Offer.entry? = entries := by
      rw [List.filterMap_map]
      calc (entries.zipIdx 1).filterMap _ = (entries.zipIdx 1).map (·.1) := by
            rw [← List.filterMap_eq_map]
            rfl
        _ = entries := List.zipIdx_map_fst 1 entries
    have vouched : ∀ offer ∈ offers, offer.Vouches := by
      intro offer member entry named
      obtain ⟨item, _, rfl⟩ := List.mem_map.mp member
      cases named
      rfl
    have kept := wellKept_ofOffers mcu [] vouched
    rwa [offered] at kept

end Pinout.Capability
