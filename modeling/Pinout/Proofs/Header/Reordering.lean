import Pinout.Header.Document
import Pinout.Proofs.Resolution.Reordering

/-! The header and the order of resource lines. Boards that are alike have the same header:
each section reads numbers, names and pins, never a line, and where it takes the first of
several it takes it from a list in order of numbers. -/

set_option autoImplicit false

namespace Pinout.Header

open Board (Hints Policy)
open Capability (Table)
open Resolution (Bank Bus Placement Resolved nil_or_cons_of_map_eq none_or_some_of_map_eq
  resolve)

/-! ## Parts -/

def Storage.unlined (storage : Storage) : Storage :=
  { storage with select := storage.select.unlined }

section Parts

variable {placement place : Placement} {bus other : Bus}

theorem variant_congr (same : placement.unlined = place.unlined) :
    placement.variant = place.variant :=
  (congrArg Placement.variant same : placement.unlined.variant = place.unlined.variant)

theorem entry_congr (same : placement.unlined = place.unlined) :
    placement.entry = place.entry :=
  (congrArg Placement.entry same : placement.unlined.entry = place.unlined.entry)

theorem pinName_unlined (placement : Option Placement) :
    pinName (placement.map Placement.unlined) = pinName placement := by
  cases placement <;> rfl

theorem pinOrZero_unlined (placement : Option Placement) :
    pinOrZero (placement.map Placement.unlined) = pinOrZero placement := by
  cases placement <;> rfl

theorem signalPin_congr (same : bus.Alike other) (signal : Signal) :
    signalPin bus signal = signalPin other signal := by
  rw [signalPin, signalPin, ← pinName_unlined, same.carrier, pinName_unlined]

theorem spiPins_congr (same : bus.Alike other) : spiPins bus = spiPins other := by
  simp only [spiPins, signalPin_congr same]

theorem flatMap_congr_of_alike {items : Bus → List Item} {others : Bus → List Item}
    {buses late : List Bus} (alike : List.Forall₂ Bus.Alike buses late)
    (same : ∀ bus other, bus.Alike other → items bus = others other) :
    buses.flatMap items = late.flatMap others := by
  induction alike with
  | nil => rfl
  | cons head _ rest => rw [List.flatMap_cons, List.flatMap_cons, same _ _ head, rest]

end Parts

section Sections

variable {first second : Resolved} (alike : first.Alike second)
include alike

theorem omissions_congr (resource : Resource) :
    omissions first resource = omissions second resource := by
  rw [omissions, omissions, alike.dropped]

theorem pinOrZero_congr (role : Role) :
    pinOrZero (first.role? role) = pinOrZero (second.role? role) := by
  rw [← pinOrZero_unlined, alike.role?, pinOrZero_unlined]

theorem settingNumber_congr (key : String) (bits fallback : Nat) :
    settingNumber first.definition key bits fallback =
      settingNumber second.definition key bits fallback := by
  rw [settingNumber, settingNumber, alike.setting]

theorem deviceBus_congr (key : String) (fallback : UInt8) :
    deviceBus first.definition key fallback = deviceBus second.definition key fallback := by
  rw [deviceBus, deviceBus, alike.setting]

theorem selections_congr :
    first.definition.hints.selections = second.definition.hints.selections := by
  rw [Hints.selections_unlined, Hints.selections_unlined, alike.hints]

theorem gyroChips_congr : gyroChips first.definition = gyroChips second.definition := by
  have chips (category : String) :
      chipsOf first.definition category = chipsOf second.definition category := by
    rw [chipsOf, chipsOf, Hints.declaredIn_unlined, Hints.declaredIn_unlined, alike.hints]
  rw [gyroChips, gyroChips, chips, chips]

theorem index_bus? (kind : Kind) (index : UInt8) :
    (first.bus? kind index).map Bus.index = (second.bus? kind index).map Bus.index := by
  obtain ⟨lost, alsoLost⟩ | ⟨bus, other, found, otherFound, same⟩ := alike.bus? kind index
  · rw [lost, alsoLost]
  · rw [found, otherFound, Option.map_some, Option.map_some, same.index]

/-! ## Devices -/

theorem flashStorage_congr {select place : Placement} (same : select.unlined = place.unlined) :
    (flashStorage first.definition select).unlined =
      (flashStorage second.definition place).unlined := by
  simp only [flashStorage, Storage.unlined, Hints.selected?, selections_congr alike,
    deviceBus_congr alike, same]

theorem cardStorage_congr {select place : Placement} (same : select.unlined = place.unlined) :
    (cardStorage first.definition select).unlined =
      (cardStorage second.definition place).unlined := by
  simp only [cardStorage, Storage.unlined, deviceBus_congr alike, same]

theorem storage?_congr :
    (storage? first).map Storage.unlined = (storage? second).map Storage.unlined := by
  unfold storage?
  dsimp only
  rw [alike.setting]
  obtain ⟨flashless, alsoFlashless⟩ | ⟨flash, flashPlace, flashed, alsoFlashed, sameFlash⟩ :=
    none_or_some_of_map_eq (alike.role? .flashCs)
  · rw [flashless, alsoFlashless]
    obtain ⟨cardless, alsoCardless⟩ | ⟨card, cardPlace, carded, alsoCarded, sameCard⟩ :=
      none_or_some_of_map_eq (alike.role? .sdcardCs)
    · rw [cardless, alsoCardless]
    · rw [carded, alsoCarded]
      exact congrArg some (cardStorage_congr alike sameCard)
  · rw [flashed, alsoFlashed]
    obtain ⟨cardless, alsoCardless⟩ | ⟨card, cardPlace, carded, alsoCarded, sameCard⟩ :=
      none_or_some_of_map_eq (alike.role? .sdcardCs)
    · rw [cardless, alsoCardless]
      exact congrArg some (flashStorage_congr alike sameFlash)
    -- With both chip selects the setting decides, and the boards share it.
    · rw [carded, alsoCarded]
      simp only [apply_ite (Option.map Storage.unlined), Option.map_some,
        flashStorage_congr alike sameFlash, cardStorage_congr alike sameCard]

theorem storageItems_congr (options : Options) :
    storageItems first options = storageItems second options := by
  unfold storageItems
  obtain ⟨absent, alsoAbsent⟩ | ⟨storage, other, found, otherFound, same⟩ :=
    none_or_some_of_map_eq (storage?_congr alike)
  · rw [absent, alsoAbsent]
  · rw [found, otherFound]
    obtain ⟨samePlace, sameBackend, sameLabel, sameNumber⟩ := Storage.mk.inj same
    dsimp only
    rw [sameNumber]
    obtain ⟨lost, alsoLost⟩ | ⟨bus, otherBus, taken, otherTaken, sameBus⟩ :=
      alike.bus? .spi other.bus
    · rw [lost, alsoLost]
    · rw [taken, otherTaken]
      simp only [sameBackend, sameLabel, sameBus.target, spiPins_congr sameBus, pinName,
        variant_congr samePlace]

theorem storageBus?_congr :
    (storageBus? first).map Bus.index = (storageBus? second).map Bus.index := by
  unfold storageBus?
  obtain ⟨absent, alsoAbsent⟩ | ⟨storage, other, found, otherFound, same⟩ :=
    none_or_some_of_map_eq (storage?_congr alike)
  · rw [absent, alsoAbsent]
    rfl
  · have sameNumber := (Storage.mk.inj same).2.2.2
    rw [found, otherFound, Option.bind_some, Option.bind_some, sameNumber, index_bus? alike]

theorem motionIndex_congr : motionIndex first = motionIndex second :=
  deviceBus_congr alike _ _

theorem motionItems_congr (options : Options) :
    motionItems first options = motionItems second options := by
  unfold motionItems
  rw [motionIndex_congr alike, gyroChips_congr alike, pinOrZero_congr alike]
  obtain ⟨absent, alsoAbsent⟩ | ⟨select, place, found, otherFound, same⟩ :=
    none_or_some_of_map_eq (alike.role? .gyroCs)
  · rw [absent, alsoAbsent]
  · rw [found, otherFound]
    obtain ⟨lost, alsoLost⟩ | ⟨bus, other, taken, otherTaken, sameBus⟩ :=
      alike.bus? .spi (motionIndex second)
    · rw [lost, alsoLost]
    · rw [taken, otherTaken]
      simp only [sameBus.target, spiPins_congr sameBus, pinName, variant_congr same]

theorem motionBus?_congr :
    (motionBus? first).map Bus.index = (motionBus? second).map Bus.index := by
  unfold motionBus?
  obtain ⟨absent, alsoAbsent⟩ | ⟨select, place, found, otherFound, _⟩ :=
    none_or_some_of_map_eq (alike.role? .gyroCs)
  · rw [absent, alsoAbsent]
    rfl
  · rw [found, otherFound, Option.bind_some, Option.bind_some, motionIndex_congr alike,
      index_bus? alike]

theorem takenBuses_congr : takenBuses first = takenBuses second := by
  have taken (resolved : Resolved) : takenBuses resolved =
      ((storageBus? resolved).map Bus.index).toList ++
        ((motionBus? resolved).map Bus.index).toList := by
    rw [takenBuses, List.map_append, Option.toList_map, Option.toList_map]
  rw [taken first, taken second, storageBus?_congr alike, motionBus?_congr alike]

/-! ## Buses and roles -/

theorem i2cItems_congr (options : Options) :
    i2cItems first options = i2cItems second options := by
  have only : (first.busesOf .i2c).length = (second.busesOf .i2c).length :=
    (alike.busesOf .i2c).length_eq
  unfold i2cItems
  dsimp only
  rw [omissions_congr alike, omissions_congr alike, only,
    flatMap_congr_of_alike (alike.busesOf .i2c)]
  intro bus other same
  simp only [i2cItem, same.index, same.target, signalPin_congr same]

theorem uartItems_congr (options : Options) :
    uartItems first options = uartItems second options := by
  unfold uartItems
  rw [omissions_congr alike, omissions_congr alike,
    flatMap_congr_of_alike (alike.busesOf .uart)]
  intro bus other same
  simp only [uartItem, same.index, same.target, signalPin_congr same]

theorem spiItem_congr (options : Options) {bus other : Bus} (same : bus.Alike other) :
    spiItem first options bus = spiItem second options other := by
  have displays : (displaySelect? first bus).map Placement.unlined =
      (displaySelect? second other).map Placement.unlined := by
    unfold displaySelect?
    dsimp only
    rw [alike.setting, same.index]
    split
    · exact alike.role? .osdCs
    · rfl
  unfold spiItem
  obtain ⟨absent, alsoAbsent⟩ | ⟨select, place, found, otherFound, samePlace⟩ :=
    none_or_some_of_map_eq displays
  · rw [absent, alsoAbsent]
    simp only [same.index, same.target, spiPins_congr same]
  · rw [found, otherFound]
    simp only [same.target, spiPins_congr same, pinName, variant_congr samePlace]

theorem spiItems_congr (options : Options) :
    spiItems first options = spiItems second options := by
  have free : List.Forall₂ Bus.Alike
      ((first.busesOf .spi).filter fun bus => !(takenBuses first).contains bus.index)
      ((second.busesOf .spi).filter fun bus => !(takenBuses second).contains bus.index) := by
    apply List.rel_filter _ (alike.busesOf .spi)
    intro bus other same
    simp only [takenBuses_congr alike, same.index]
  unfold spiItems
  dsimp only
  rw [omissions_congr alike, omissions_congr alike, omissions_congr alike,
    flatMap_congr_of_alike free fun _ _ same => spiItem_congr alike options same]

theorem analogItems_congr : analogItems first = analogItems second := by
  have absent (role : Role) : (first.role? role).isNone = (second.role? role).isNone := by
    simpa only [Option.isNone_map] using congrArg Option.isNone (alike.role? role)
  have battery : batteryItems first = batteryItems second := by
    simp only [batteryItems, absent, pinOrZero_congr alike, settingNumber_congr alike]
  have strength : strengthItems first = strengthItems second := by
    unfold strengthItems
    obtain ⟨absent, alsoAbsent⟩ | ⟨input, place, found, otherFound, same⟩ :=
      none_or_some_of_map_eq (alike.role? .adcRssi)
    · rw [absent, alsoAbsent]
    · rw [found, otherFound]
      simp only [entry_congr same, variant_congr same]
  simp only [analogItems, omissions_congr alike, battery, strength]

theorem lightItems_congr : lightItems first = lightItems second := by
  have lights : ((first.rolesOf .led).take 2).map Placement.unlined =
      ((second.rolesOf .led).take 2).map Placement.unlined := by
    rw [List.map_take, List.map_take, alike.roles]
  have names (placements : List Placement) : placements.map (·.variant.name) =
      (placements.map Placement.unlined).map (·.variant.name) := by
    rw [List.map_map]
    rfl
  unfold lightItems
  obtain ⟨dark, alsoDark⟩ | ⟨_, _, _, _, lit, alsoLit⟩ := nil_or_cons_of_map_eq lights
  · rw [dark, alsoDark]
  · rw [lit, alsoLit] at lights ⊢
    dsimp only
    rw [names, lights, ← names]

theorem beeperItems_congr : beeperItems first = beeperItems second := by
  unfold beeperItems
  rw [alike.setting]
  obtain ⟨absent, alsoAbsent⟩ | ⟨beeper, place, found, otherFound, same⟩ :=
    none_or_some_of_map_eq (alike.role? .beeper)
  · rw [absent, alsoAbsent]
  · rw [found, otherFound]
    simp only [variant_congr same]

/-! ## Timed outputs -/

omit alike in
theorem bankItems_unlined (family : Family) (timing : Timing) (bank : Bank) :
    bankItems family timing bank.unlined = bankItems family timing bank := by
  unfold bankItems
  dsimp only
  rw [Bank.channelsOf_unlined, List.map_map, List.filterMap_map]
  rfl

theorem familyItems_congr (family : Family) :
    familyItems first family = familyItems second family := by
  have banks := alike.banksFor family
  have items (timing : Timing) (banks : List Bank) : banks.flatMap (bankItems family timing) =
      (banks.map Bank.unlined).flatMap (bankItems family timing) := by
    rw [List.flatMap_map]
    simp only [bankItems_unlined]
  unfold familyItems
  dsimp only
  rw [omissions_congr alike, alike.timings]
  obtain ⟨idle, alsoIdle⟩ | ⟨_, _, _, _, driven, alsoDriven⟩ := nil_or_cons_of_map_eq banks
  · rw [idle, alsoIdle]
  · rw [driven, alsoDriven] at banks ⊢
    dsimp only
    rw [items, banks, ← items]

/-! ## The whole header -/

theorem descriptionItems_congr : descriptionItems first = descriptionItems second := by
  simp only [descriptionItems, features, alike.metadata, alike.mcu, gyroChips_congr alike,
    selections_congr alike]

theorem bodyItems_congr (options : Options) :
    bodyItems first options = bodyItems second options := by
  simp only [bodyItems, storageItems_congr alike, motionItems_congr alike,
    i2cItems_congr alike, uartItems_congr alike, spiItems_congr alike, analogItems_congr alike,
    lightItems_congr alike, beeperItems_congr alike, familyItems_congr alike]

/-- What a header says is settled by the board but for what it keeps for reference. -/
theorem generate_congr {options : Options} (translated : options.keepRest = false) :
    generate first options = generate second options := by
  simp only [generate, document, translated, Bool.false_eq_true, if_false,
    descriptionItems_congr alike, bodyItems_congr alike]

end Sections

/-- Boards that differ only in the order of their resources, in line numbers and in the
statements that are kept as they stand have the same header, if nothing is kept there. -/
theorem generate_reordered {table : Table} (selective : table.Selective)
    (choices : Resolution.Options) {options : Options} (translated : options.keepRest = false)
    (policy otherPolicy : Policy) (text otherText : String)
    (same : (Board.parse policy text).board.Reordered
      (Board.parse otherPolicy otherText).board) :
    generate (resolve (Board.parse policy text).board table choices).board options =
      generate (resolve (Board.parse otherPolicy otherText).board table choices).board
        options :=
  generate_congr (Resolution.resolvedBoard_alike same (Board.parse_unambiguous policy text)
    selective choices) translated

/-- A board with a signal, two lights out of order and a beeper. -/
def orderedBoard : String :=
  "resource SPI_SCK 1 B03\nresource LED 2 C13\nresource LED 1 C14\nresource BEEPER 1 A15"

def shuffledBoard : String :=
  "resource LED 1 C14\nresource BEEPER 1 A15\n\nresource SPI_SCK 1 B03\nresource LED 2 C13"

theorem generate_shuffled :
    let board := (Board.parse .lastWins orderedBoard).board
    let other := (Board.parse .lastWins shuffledBoard).board
    let options : Options := { keepRest := false }
    (Resolution.clockTable.Selective ∧ options.keepRest = false ∧ board.Reordered other) ∧
      generate (resolve board Resolution.clockTable {}).board options =
        generate (resolve other Resolution.clockTable {}).board options := by
  intro board other options
  have selective : Resolution.clockTable.Selective := by decide +kernel
  have same : board.Reordered other := by decide +kernel
  exact ⟨⟨selective, rfl, same⟩,
    generate_reordered selective {} rfl .lastWins .lastWins orderedBoard shuffledBoard same⟩

end Pinout.Header
