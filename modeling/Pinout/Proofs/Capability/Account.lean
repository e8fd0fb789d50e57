import Mathlib.Data.List.Forall2
import Pinout.Capability.Reading

/-! What becomes of the rows of a table. A row that counts leaves one entry or one issue when
its section is in the model, and at most one issue when it is not. Entries and issues keep
the order of the rows. -/

set_option autoImplicit false

namespace Pinout.Capability

open PinMap (Row Section)

/-! ## Claims -/

/-- What an entry claims for itself: a variant, for a kind and a signal. -/
def Entry.claim (entry : Entry) : Pin.Variant × Kind × Option Signal :=
  (entry.pin, entry.kind, entry.signal?)

theorem Entry.rivals_iff {left right : Entry} :
    left.rivals right = true ↔ left.claim = right.claim := by
  simp [Entry.rivals, Entry.claim, and_assoc]

def Claimed (entries : List Entry) (claim : Pin.Variant × Kind × Option Signal) : Prop :=
  ∃ entry ∈ entries, entry.claim = claim

theorem any_rivals_iff {entries : List Entry} {entry : Entry} :
    entries.any entry.rivals = true ↔ Claimed entries entry.claim := by
  rw [List.any_eq_true]
  constructor
  · rintro ⟨other, member, rival⟩
    exact ⟨other, member, (Entry.rivals_iff.mp rival).symm⟩
  · rintro ⟨other, member, same⟩
    exact ⟨other, member, Entry.rivals_iff.mpr same.symm⟩

/-! ## One offer -/

/-- What an offer leaves behind. -/
structure Share where
  entries : List Entry
  issues : List Issue

/-- The ways in which an offer leaves something, given the entries that were kept in all. -/
inductive Offer.Leaves (kept : List Entry) (offer : Offer) : Share → Prop
  | entry {entry : Entry} (told : offer.entry = .ok (some entry)) : offer.Leaves kept ⟨[entry], []⟩
  | rival {entry : Entry} (told : offer.entry = .ok (some entry))
    (taken : Claimed kept entry.claim) : offer.Leaves kept ⟨[], [⟨offer.line, .rival entry⟩]⟩
  | fault {fault : Fault} (told : offer.entry = .error fault) :
    offer.Leaves kept ⟨[], [⟨offer.line, fault⟩]⟩
  | nothing (told : offer.entry = .ok none) : offer.Leaves kept ⟨[], []⟩

section Offers

variable {catalog : Catalog} {offer : Offer} {entry : Entry}

theorem Catalog.add_of_free (told : offer.entry = .ok (some entry))
    (free : ¬ Claimed catalog.entries entry.claim) : catalog.add offer = catalog.push entry := by
  rw [Catalog.add, told]
  dsimp only
  rw [if_neg (mt any_rivals_iff.mp free)]

theorem Catalog.add_of_claimed (told : offer.entry = .ok (some entry))
    (taken : Claimed catalog.entries entry.claim) : catalog.add offer = catalog := by
  rw [Catalog.add, told]
  dsimp only
  rw [if_pos (any_rivals_iff.mpr taken)]

theorem Catalog.add_of_silent (silent : ∀ entry, offer.entry ≠ .ok (some entry)) :
    catalog.add offer = catalog := by
  unfold Catalog.add
  split
  · rename_i entry told
    exact absurd told (silent entry)
  · rfl

theorem Offer.fault?_of_free (told : offer.entry = .ok (some entry))
    (free : ¬ Claimed catalog.entries entry.claim) : offer.fault? catalog = none := by
  rw [Offer.fault?, told]
  dsimp only
  rw [if_neg (mt any_rivals_iff.mp free)]

/-- One more offer adds what it leaves to the entries and to the issues. -/
theorem exists_share (catalog : Catalog) (offer : Offer) :
    ∃ share, offer.Leaves catalog.entries share ∧
      (catalog.add offer).entries = catalog.entries ++ share.entries ∧
      ((offer.fault? catalog).map fun fault => (⟨offer.line, fault⟩ : Issue)).toList =
        share.issues := by
  cases told : offer.entry with
  | error fault =>
      refine ⟨_, .fault told, ?_, ?_⟩
      · rw [Catalog.add_of_silent (by simp [told]), List.append_nil]
      · rw [Offer.fault?, told, Option.map_some, Option.toList_some]
  | ok entry? =>
      cases entry? with
      | none =>
          refine ⟨_, .nothing told, ?_, ?_⟩
          · rw [Catalog.add_of_silent (by simp [told]), List.append_nil]
          · rw [Offer.fault?, told, Option.map_none, Option.toList_none]
      | some entry =>
          by_cases taken : Claimed catalog.entries entry.claim
          · refine ⟨_, .rival told taken, ?_, ?_⟩
            · rw [Catalog.add_of_claimed told taken, List.append_nil]
            · rw [Offer.fault?, told]
              dsimp only
              rw [if_pos (any_rivals_iff.mpr taken), Option.map_some, Option.toList_some]
          · refine ⟨_, .entry told, ?_, ?_⟩
            · rw [Catalog.add_of_free told taken, Catalog.push]
            · rw [Offer.fault?_of_free told taken, Option.map_none, Option.toList_none]

theorem Offer.Leaves.mono {kept more : List Entry} {share : Share}
    (left : offer.Leaves kept share) (grown : kept ⊆ more) : offer.Leaves more share := by
  cases left with
  | entry told => exact .entry told
  | rival told taken =>
      obtain ⟨other, member, same⟩ := taken
      exact .rival told ⟨other, grown member, same⟩
  | fault told => exact .fault told
  | nothing told => exact .nothing told

end Offers

/-! ## All offers -/

/-- The offers of a run leave their shares one behind the other. -/
theorem exists_shares (catalog : Catalog) (offers : List Offer) :
    ∃ shares : List Share,
      List.Forall₂ (Offer.Leaves (offers.foldl Catalog.add catalog).entries) offers shares ∧
      (offers.foldl Catalog.add catalog).entries = catalog.entries ++ shares.flatMap (·.entries) ∧
      offerIssues catalog offers = shares.flatMap (·.issues) := by
  induction offers generalizing catalog with
  | nil => exact ⟨[], .nil, by simp, rfl⟩
  | cons offer rest ih =>
      obtain ⟨share, left, kept, found⟩ := exists_share catalog offer
      obtain ⟨shares, others, keptAll, foundAll⟩ := ih (catalog.add offer)
      refine ⟨share :: shares, .cons (left.mono ?_) others, ?_, ?_⟩
      · rw [List.foldl_cons, keptAll, kept, List.append_assoc]
        exact List.subset_append_left _ _
      · rw [List.foldl_cons, keptAll, kept, List.append_assoc, List.flatMap_cons]
      · rw [offerIssues, found, foundAll, List.flatMap_cons]

/-! ## Rows -/

/-- The names of the sections whose rows are mappings. -/
def sectionNames : List String :=
  ["TIM", "SPI_MOSI", "SPI_MISO", "SPI_SCLK", "I2C_SCL", "I2C_SDA", "UART_TX", "UART_RX", "ADC"]

theorem mem_sectionNames_iff {name : String} :
    name ∈ sectionNames ↔ Content.ofName name ≠ .pinsOnly := by
  unfold Content.ofName
  split
  case h_10 =>
    simp only [ne_eq, not_true, iff_false]
    intro listed
    simp only [sectionNames, List.mem_cons, List.not_mem_nil, or_false] at listed
    tauto
  all_goals simp [sectionNames]

/-- The rows that count, each with the name of its section: those in front of the first row that
has `NC` for a pin. -/
def rowsOf (sections : List Section) : List (String × Row) :=
  sections.flatMap fun part =>
    (part.rows.takeWhile fun row => row.fields.head? != some "NC").map fun row => (part.name, row)

theorem offersOf_eq (sections : List Section) :
    offersOf sections = (rowsOf sections).map fun (name, row) => offerOf name row := by
  simp [offersOf, rowsOf, countedRows, List.map_flatMap, Function.comp_def]

section Rows

variable {name : String} {row : Row}

theorem line_offerOf : (offerOf name row).line = row.line := by
  unfold offerOf
  split
  · rfl
  · split <;> rfl

theorem useOf_ne_ok_none {content : Content} {pin : String} {target : Instance}
    {arguments : List (List Char)} (modeled : content ≠ .pinsOnly) :
    useOf content pin target arguments ≠ .ok none := by
  unfold useOf
  cases content with
  | timer => dsimp only; split <;> simp
  | analog => dsimp only; split <;> simp
  | bus signal => simp
  | pinsOnly => exact absurd rfl modeled

theorem entryOf_ne_ok_none {content : Content} {variant : Pin.Variant} {pin : String}
    {fields : List String} (modeled : content ≠ .pinsOnly) :
    entryOf content variant pin fields ≠ .ok none := by
  intro passed
  unfold entryOf at passed
  rw [if_neg modeled] at passed
  split at passed
  · cases passed
  · split at passed
    · cases passed
    · rename_i target _
      dsimp only at passed
      cases used : useOf content pin target _ with
      | error fault =>
          rw [used] at passed
          cases passed
      | ok use? =>
          cases use? with
          | none => exact useOf_ne_ok_none modeled used
          | some use =>
              rw [used] at passed
              cases passed

/-- A row of a section in the model is not passed over. -/
theorem unmodeled_of_nothing (told : (offerOf name row).entry = .ok none) :
    name ∉ sectionNames := by
  rw [mem_sectionNames_iff, not_not]
  by_contra modeled
  unfold offerOf at told
  split at told
  · cases told
  · split at told
    · cases told
    · exact entryOf_ne_ok_none modeled told

theorem modeled_of_entry {entry : Entry} (told : (offerOf name row).entry = .ok (some entry)) :
    name ∈ sectionNames := by
  rw [mem_sectionNames_iff]
  intro unmodeled
  unfold offerOf at told
  split at told
  · cases told
  · split at told
    · cases told
    · unfold entryOf at told
      rw [if_pos unmodeled] at told
      cases told

end Rows

/-- The ways in which a row of a section leaves something in a table: an entry if the
section is in the model, an issue on the line of the row, and nothing only outside the model. -/
inductive RowLeaves (kept : List Entry) (name : String) (row : Row) : Share → Prop
  | entry {entry : Entry} (modeled : name ∈ sectionNames)
    (told : (offerOf name row).entry = .ok (some entry)) : RowLeaves kept name row ⟨[entry], []⟩
  | issue {fault : Fault}
    (cause : (offerOf name row).entry = .error fault ∨
      ∃ entry, (offerOf name row).entry = .ok (some entry) ∧ fault = .rival entry ∧
        Claimed kept entry.claim) : RowLeaves kept name row ⟨[], [⟨row.line, fault⟩]⟩
  | nothing (unmodeled : name ∉ sectionNames) : RowLeaves kept name row ⟨[], []⟩

theorem rowLeaves_of_leaves {kept : List Entry} {name : String} {row : Row} {share : Share}
    (left : (offerOf name row).Leaves kept share) : RowLeaves kept name row share := by
  cases left with
  | entry told => exact .entry (modeled_of_entry told) told
  | rival told taken =>
      rw [line_offerOf]
      exact .issue (.inr ⟨_, told, rfl, taken⟩)
  | fault told =>
      rw [line_offerOf]
      exact .issue (.inl told)
  | nothing told => exact .nothing (unmodeled_of_nothing told)

/-- Whatever a table says, each row that counts leaves what it may, in the order of the rows,
and the issues of the rows come behind the flaws of shape. -/
theorem rowsAccounted_parse (mcu text : String) :
    let found := PinMap.scan text
    let parsed := parse mcu text
    ∃ shares : List Share,
      List.Forall₂ (fun (name, row) => RowLeaves parsed.table.entries name row)
        (rowsOf found.items) shares ∧
      parsed.table.entries = shares.flatMap (·.entries) ∧
      parsed.issues = (found.flaws.map fun (line, flaw) => ⟨line, .shape flaw⟩) ++
        shares.flatMap (·.issues) := by
  intro found parsed
  obtain ⟨shares, left, kept, faults⟩ := exists_shares .empty (offersOf found.items)
  refine ⟨shares, ?_, ?_, ?_⟩
  · rw [offersOf_eq, List.forall₂_map_left_iff] at left
    refine left.imp fun _ share leaves => ?_
    rw [← offersOf_eq] at leaves
    exact rowLeaves_of_leaves leaves
  · exact kept
  · exact congrArg _ faults

end Pinout.Capability
