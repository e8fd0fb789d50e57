import Pinout.Proofs.Capability.Catalog
import Pinout.Proofs.Resolution.Choice

/-! Analog inputs. The lookup takes the first analog row of a pin, whatever section it is in and
whatever mapping it names, so it finds the default mapping of the pin exactly when the table has
no numbered one before it. An analog role is placed on what the lookup finds. -/

set_option autoImplicit false

namespace Pinout

namespace Capability

/-- The entry is an analog input of the pin. -/
def Entry.Feeds (entry : Entry) (pin : Pin) : Prop :=
  entry.kind = .adc ∧ entry.pin.base = pin

instance (entry : Entry) (pin : Pin) : Decidable (entry.Feeds pin) :=
  inferInstanceAs (Decidable (_ ∧ _))

/-- An entry in front of which no numbered entry feeds its pin. -/
def Leads (entries : List Entry) (entry : Entry) : Prop :=
  ∃ before after, entries = before ++ entry :: after ∧
    ∀ earlier ∈ before, earlier.Feeds entry.pin.base → earlier.pin.isDefault = true

theorem Table.analog?_eq_find? (table : Table) (pin : Pin) :
    table.analog? pin = table.entries.find? fun entry => entry.Feeds pin := by
  rw [analog?, entriesFor_eq, List.head?_filter]
  congr 1
  funext entry
  simp only [Entry.Feeds, and_comm]

/-! ## Rows and entries -/

/-- A test that looks at nothing but claims. -/
def ByClaim (test : Entry → Bool) : Prop :=
  ∀ left right : Entry, left.claim = right.claim → test left = test right

theorem byClaim_feeds (pin : Pin) : ByClaim fun entry => entry.Feeds pin := by
  intro left right same
  obtain ⟨pin, others⟩ := Prod.mk.inj same
  obtain ⟨kind, _⟩ := Prod.mk.inj others
  rw [decide_eq_decide, Entry.Feeds, Entry.Feeds, pin, kind]

section Keeping

variable {test : Entry → Bool}

/-- An offer that is passed over has a rival before it, and a test of claims finds that first. -/
theorem find?_add (claims : ByClaim test) {offered : List Entry} {catalog : Catalog}
    (same : catalog.entries.find? test = offered.find? test) (offer : Offer) :
    (catalog.add offer).entries.find? test = (offered ++ offer.entry?.toList).find? test := by
  cases named : offer.entry? with
  | none =>
      have silent : ∀ entry, offer.entry ≠ .ok (some entry) := by
        intro entry told
        rw [Offer.entry?_eq_some_iff.mpr told] at named
        cases named
      rw [Catalog.add_of_silent silent, Option.toList_none, List.append_nil, same]
  | some entry =>
      have told := Offer.entry?_eq_some_iff.mp named
      rw [Option.toList_some, List.find?_append, ← same]
      by_cases taken : Claimed catalog.entries entry.claim
      · rw [Catalog.add_of_claimed told taken]
        obtain ⟨holder, member, holds⟩ := taken
        cases passes : test entry with
        | true =>
            have found : (catalog.entries.find? test).isSome = true :=
              List.find?_isSome.mpr ⟨holder, member, (claims holder entry holds).trans passes⟩
            rw [Option.or_of_isSome found]
        | false => simp [passes]
      · rw [Catalog.add_of_free told taken, Catalog.push, List.find?_append]

/-- A search by claims finds among the entries of a table what it finds among its rows. -/
theorem find?_foldl_add (claims : ByClaim test) (offers : List Offer) :
    (offers.foldl Catalog.add .empty).entries.find? test =
      (offers.filterMap Offer.entry?).find? test := by
  induction offers using List.reverseRecOn with
  | nil => rfl
  | append_singleton offers offer ih =>
      have named : [offer].filterMap Offer.entry? = offer.entry?.toList := by
        cases found : offer.entry? <;> simp [found]
      rw [List.foldl_concat, List.filterMap_append, named]
      exact find?_add claims ih offer

end Keeping

/-- Entries that are offered one by one are offered in their order. -/
theorem offered_numbered (entries : List Entry) :
    ((entries.zipIdx 1).map fun item =>
      (⟨item.2, some item.1.pin.base, .ok (some item.1)⟩ : Offer)).filterMap Offer.entry? =
      entries := by
  have told : ∀ item : Entry × Nat, Offer.entry?
      ⟨item.2, some item.1.pin.base, .ok (some item.1)⟩ = some item.1 := fun _ => rfl
  simp only [List.filterMap_map, Function.comp_def, told, List.filterMap_eq_map',
    List.zipIdx_map_fst]

/-! ## The default mapping -/

section Default

variable {offered : List Entry} {table : Table} {entry : Entry} {pin : Pin}

theorem claim_of_feeds (feeds : entry.Feeds pin) (default : entry.pin.isDefault = true) :
    entry.claim = (.default pin, .adc, none) := by
  obtain ⟨⟨base, alternate⟩, target, function, use⟩ := entry
  obtain ⟨analog, rfl⟩ := feeds
  have unnumbered : alternate = none := Option.isNone_iff_eq_none.mp default
  subst unnumbered
  cases use with
  | analog channel => rfl
  | timer channel complementary => cases analog
  | bus signal => cases signal <;> cases analog

/-- The default analog entry of a pin is found unless a numbered one stands before it. -/
theorem analog?_eq_default_iff (keeps : KeepsFirst offered table.entries)
    (feeds : entry.Feeds pin) (default : entry.pin.isDefault = true) :
    table.analog? pin = some entry ↔ Leads table.entries entry := by
  have base : entry.pin.base = pin := feeds.2
  rw [Table.analog?_eq_find?, List.find?_eq_some_iff_append, Leads, base]
  constructor
  · intro found
    obtain ⟨_, before, after, split, unfed⟩ := found
    refine ⟨before, after, split, ?_⟩
    intro earlier member feeding
    have refused := unfed earlier member
    simp [feeding] at refused
  · intro leads
    obtain ⟨before, after, split, numbered⟩ := leads
    refine ⟨decide_eq_true feeds, before, after, split, ?_⟩
    intro earlier member
    -- a default entry before this one would have its claim
    have apart : earlier.claim ≠ entry.claim := by
      have distinct := keeps.distinct
      rw [split, List.pairwise_append] at distinct
      exact distinct.2.2 earlier member entry List.mem_cons_self
    rw [Bool.not_eq_true', decide_eq_false_iff_not]
    intro feeding
    apply apart
    rw [claim_of_feeds feeding (numbered earlier member feeding), claim_of_feeds feeds default]

end Default

end Capability

/-! ## Analog roles -/

namespace Resolution

open Board (Assignment Definition Policy)
open Capability (Entry Offer Table FindsFirst KeepsFirst Leads)

/-- How a table made of offered rows answers for the analog inputs of its pins. -/
structure AnswersAnalog (offered : List Entry) (table : Table) : Prop where
  /-- The answer is the first row that feeds the pin. -/
  first : ∀ pin, FindsFirst offered (fun entry => entry.Feeds pin) (table.analog? pin)
  /-- It is the default entry exactly when no numbered one stands before it. -/
  default_iff : ∀ pin, ∀ entry ∈ table.entries, entry.Feeds pin → entry.pin.isDefault = true →
    (table.analog? pin = some entry ↔ Leads table.entries entry)
  /-- A pin has one default analog entry at most. -/
  single : ∀ pin, ∀ entry ∈ table.entries, ∀ other ∈ table.entries, entry.Feeds pin →
    other.Feeds pin → entry.pin.isDefault = true → other.pin.isDefault = true → entry = other
  /-- An analog role on the pin is placed on the answer. -/
  placed : ∀ (policy : Policy) (text : String) (options : Options),
    let board := (Board.parse policy text).board
    ∀ source ∈ board.resources, ∀ role, source.id.resource = .single role →
      role.isAnalog = true → (resolve board table options).board.find? source.id =
        (table.analog? source.pin).map fun entry => ⟨source, some entry⟩

section Roles

variable {board : Definition} {table : Table} {options : Options} {source : Assignment}

theorem find?_of_analog (unambiguous : board.Unambiguous) (member : source ∈ board.resources)
    {role : Role} (single : source.id.resource = .single role) (analog : role.isAnalog = true) :
    (resolve board table options).board.find? source.id =
      (table.analog? source.pin).map fun entry => ⟨source, some entry⟩ := by
  have modeled := mem_modeled_iff.mpr ⟨member, by rw [single]; rfl⟩
  have decided : decision? board table source = some (placeRole table source.pin role) := by
    simp only [decision?, single]
  rw [resolve, find?_eq_placement? unambiguous modeled, placement?, decided, placeRole,
    if_pos analog]
  cases table.analog? source.pin <;> rfl

end Roles

theorem answersAnalog_ofOffers (mcu : String) (sections : List String) (offers : List Offer) :
    AnswersAnalog (offers.filterMap Offer.entry?)
      (Capability.ofOffers mcu sections offers).table where
  first := by
    intro pin
    have found := Capability.findsFirst_find? (offers.filterMap Offer.entry?)
      fun entry => entry.Feeds pin
    rw [← Capability.find?_foldl_add (Capability.byClaim_feeds pin)] at found
    simp only [decide_eq_true_eq] at found
    rw [Table.analog?_eq_find?]
    exact found
  default_iff := fun _ _ _ =>
    Capability.analog?_eq_default_iff (Capability.keepsFirst_foldl offers)
  single := by
    intro pin entry member other otherMember feeds otherFeeds default otherDefault
    have distinct := List.pairwise_map.mpr (Capability.keepsFirst_foldl offers).distinct
    apply List.inj_on_of_nodup_map distinct member otherMember
    rw [Capability.claim_of_feeds feeds default,
      Capability.claim_of_feeds otherFeeds otherDefault]
  placed := fun policy text _ _ member _ single analog =>
    find?_of_analog (Board.parse_unambiguous policy text) member single analog

/-- Whether it was read from a text or made of entries, a table answers for an analog input with
the first row of the pin, and so with the default mapping just where no numbered one is first. -/
theorem answersAnalog_tables (mcu : String) :
    (∀ text, AnswersAnalog
      ((Capability.offersOf (PinMap.scan text).items).filterMap Offer.entry?)
      (Capability.parse mcu text).table) ∧
    ∀ entries, AnswersAnalog entries (Capability.ofEntries mcu entries).table := by
  constructor
  · intro text
    exact answersAnalog_ofOffers mcu _ _
  · intro entries
    have answers := answersAnalog_ofOffers mcu [] ((entries.zipIdx 1).map fun item =>
      ⟨item.2, some item.1.pin.base, .ok (some item.1)⟩)
    rwa [Capability.offered_numbered] at answers

def batteryBoard : String :=
  "resource ADC_BATT 1 A00"

/-- A table with a numbered analog entry before the default one. -/
def turnedTable : String :=
  "const PinMap PinMap_ADC[] = \x7b" ++
    "\x7bPA_0_ALT1, ADC2, STM_PIN_DATA_EXT(M, P, 0, 5, 0)\x7d, " ++
    "\x7bPA_0, ADC1, STM_PIN_DATA_EXT(M, P, 0, 0, 0)\x7d\x7d;"

/-- A default entry behind a numbered one is not found, and the role on its pin misses it. -/
theorem exists_hidden_default :
    let table := (Capability.parse "F4" turnedTable).table
    let board := (Board.parse .lastWins batteryBoard).board
    ∃ entry ∈ table.entries, entry.Feeds entry.pin.base ∧ entry.pin.isDefault = true ∧
      table.analog? entry.pin.base ≠ some entry ∧
      ∃ source ∈ board.resources, source.pin = entry.pin.base ∧
        (resolve board table {}).board.find? source.id ≠ some ⟨source, some entry⟩ := by
  simp only [Board.board_parse, Capability.table_parse]
  decide +kernel

end Resolution

end Pinout
