import Pinout.Proofs.Board.Origin
import Pinout.Proofs.Evaluation
import Pinout.Proofs.Header.Voice
import Pinout.Proofs.Resolution.Accounting

/-! The declarations of storage and the motion sensor. A header has them exactly when the
bus that the device is put on was resolved. A setting may say that there is no device:
zero is the number of no bus, but NONE is no number, so that the device goes to the bus it
has without a setting. -/

set_option autoImplicit false

namespace Pinout.Header

open Board (Definition Policy Setting)
open Capability (Table)
open Resolution (Bus Placement Resolved deviceIssue? resolve resolveBuses)

/-! ## Settings that name no bus -/

/-- The check of device settings accepts the value although no bus was resolved. -/
def NamesNoBus (value : String) : Prop :=
  ∀ key line, deviceIssue? [] .spi ⟨key, value, line⟩ = none

def IsNone (value : String) : Prop :=
  (Text.trim value.toList).map Char.toUpper = ['N', 'O', 'N', 'E']

instance (value : String) : Decidable (IsNone value) :=
  inferInstanceAs (Decidable (_ = _))

theorem deviceIssue?_eq_none_iff {buses : List Bus} {kind : Kind} {setting : Setting} :
    deviceIssue? buses kind setting = none ↔
      match Text.byte? (Text.trim setting.value.toList) with
      | some index => index = 0 ∨ ∃ bus ∈ buses, bus.kind = kind ∧ bus.index = index
      | none => IsNone setting.value := by
  unfold deviceIssue?
  dsimp only
  cases Text.byte? (Text.trim setting.value.toList) with
  | none => simp [IsNone]
  | some index => simp [Classical.or_iff_not_imp_left]

theorem toUpper_eq_of_isDigit {char : Char} (digit : char.isDigit = true) :
    char.toUpper = char := by
  simp only [Char.isDigit, Bool.and_eq_true, decide_eq_true_eq, UInt32.le_iff_toNat_le] at digit
  unfold Char.toUpper
  refine dif_neg ?_
  rintro ⟨letter, _⟩
  have above := UInt32.le_iff_toNat_le.mp letter
  have below := digit.2
  simp at above below
  omega

/-- A numeral starts with a digit or a plus sign, and neither has another case. -/
theorem byte?_of_isNone {value : String} (given : IsNone value) :
    Text.byte? (Text.trim value.toList) = none := by
  unfold IsNone at given
  cases text : Text.trim value.toList with
  | nil => rw [text] at given; cases given
  | cons first rest =>
      rw [text, List.map_cons, List.cons.injEq] at given
      have letter : first.isDigit = false := by
        by_contra digit
        rw [toUpper_eq_of_isDigit (by simpa using digit)] at given
        exact digit (given.1 ▸ rfl)
      have bare : Text.unsigned (first :: rest) = first :: rest := by
        unfold Text.unsigned
        split
        · rename_i sign
          cases sign
          exact absurd given.1 (by decide)
        · rfl
      simp [Text.byte?, Text.numeral?, bare, Text.isDigits, letter]

theorem namesNoBus_iff {value : String} :
    NamesNoBus value ↔ Text.byte? (Text.trim value.toList) = some 0 ∨ IsNone value := by
  simp only [NamesNoBus, deviceIssue?_eq_none_iff, forall_const]
  cases read : Text.byte? (Text.trim value.toList) with
  | none => simp
  | some index =>
      have number : ¬ IsNone value := by
        intro given
        rw [byte?_of_isNone given] at read
        cases read
      simp [number]

/-- NONE is not read as a number, so it stands for the bus of no setting at all. -/
theorem deviceBus_of_namesNoBus {board : Definition} {key value : String} {fallback : UInt8}
    (said : board.setting? key = some value) (nowhere : NamesNoBus value) :
    deviceBus board key fallback = if IsNone value then fallback else 0 := by
  rw [deviceBus, said, Option.bind_some]
  split
  · rename_i given
    rw [byte?_of_isNone given, Option.getD_none]
  · rename_i other
    have zero := (namesNoBus_iff.mp nowhere).resolve_right other
    rw [zero, Option.getD_some]

/-! ## The devices of a board -/

/-- The setting that names the bus of storage. -/
def Storage.key (storage : Storage) : String :=
  if storage.backend = "SDFS" then "sdcard_spi_bus" else "flash_spi_bus"

/-- The bus of storage where the setting names none. -/
def Storage.fallback (storage : Storage) : UInt8 :=
  if storage.backend = "SDFS" then 3 else 2

theorem storage?_cases {board : Resolved} {storage : Storage}
    (found : storage? board = some storage) :
    (∃ select, storage = flashStorage board.definition select) ∨
      ∃ select, storage = cardStorage board.definition select := by
  have either (flash card : Placement) (prefersFlash : Bool)
      (chosen : (if prefersFlash then some (flashStorage board.definition flash)
        else some (cardStorage board.definition card)) = some storage) :
      (∃ select, storage = flashStorage board.definition select) ∨
        ∃ select, storage = cardStorage board.definition select := by
    cases prefersFlash <;> cases chosen
    · exact .inr ⟨card, rfl⟩
    · exact .inl ⟨flash, rfl⟩
  unfold storage? at found
  dsimp only at found
  cases flash : board.role? .flashCs <;> cases card : board.role? .sdcardCs <;>
    rw [flash, card] at found
  case none.none => cases found
  case none.some => exact .inr ⟨_, (Option.some.inj found).symm⟩
  case some.none => exact .inl ⟨_, (Option.some.inj found).symm⟩
  case some.some => exact either _ _ _ found

theorem bus_of_storage? {board : Resolved} {storage : Storage}
    (found : storage? board = some storage) :
    storage.bus = deviceBus board.definition storage.key storage.fallback := by
  rcases storage?_cases found with ⟨select, rfl⟩ | ⟨select, rfl⟩
  · rfl
  · rfl

def storageOmission (bus : UInt8) : String :=
  s!"// Storage: omitted (SPI bus {bus} unresolved)"

def storageTitle (storage : Storage) (bus : Bus) : String :=
  s!"// Storage: {storage.label} on {bus.target}"

def storageValues (options : Options) (storage : Storage) (bus : Bus) : List String :=
  s!"StorageBackend::{storage.backend}" :: spiPins bus ++
    [pinName (some storage.select), toString options.spiClock]

section Storage

variable {board : Resolved} {options : Options} {storage : Storage}

theorem contentsOf_storageItems_unresolved (found : storage? board = some storage)
    (unresolved : board.bus? .spi storage.bus = none) :
    contentsOf (storageItems board options) = [storageOmission storage.bus] := by
  unfold storageItems
  rw [found]
  dsimp only
  rw [unresolved]
  rfl

theorem contentsOf_storageItems_resolved {bus : Bus} (found : storage? board = some storage)
    (resolved : board.bus? .spi storage.bus = some bus) :
    contentsOf (storageItems board options) = [storageTitle storage bus,
      declaration "StorageConfig" "storage" (storageValues options storage bus)] := by
  unfold storageItems
  rw [found]
  dsimp only
  rw [resolved]
  rfl

theorem mem_storageItems_iff {content : String} :
    content ∈ contentsOf (storageItems board options) ↔
      ∃ storage, storage? board = some storage ∧
        ((board.bus? .spi storage.bus = none ∧ content = storageOmission storage.bus) ∨
          ∃ bus, board.bus? .spi storage.bus = some bus ∧
            (content = storageTitle storage bus ∨ content =
              declaration "StorageConfig" "storage" (storageValues options storage bus))) := by
  cases found : storage? board with
  | none => simp [storageItems, found, contentsOf]
  | some storage =>
      cases resolved : board.bus? .spi storage.bus with
      | none => simp [contentsOf_storageItems_unresolved found resolved, resolved]
      | some bus => simp [contentsOf_storageItems_resolved found resolved, resolved]

end Storage

def motionOmission (bus : UInt8) : String :=
  s!"// IMU: omitted (SPI bus {bus} unresolved)"

def motionLabel (board : Definition) : String :=
  match gyroChips board with
  | [] => "IMU"
  | chips => ", ".intercalate chips

def motionTitle (board : Definition) (bus : Bus) : String :=
  s!"// IMU: {motionLabel board} on {bus.target}"

def motionBusValues (options : Options) (select : Placement) (bus : Bus) : List String :=
  spiPins bus ++ [pinName (some select), toString options.spiClock, "CS_Mode::HARDWARE"]

def motionValues (board : Resolved) (options : Options) : List String :=
  ["imu_spi", pinOrZero (board.role? .gyroExti), toString options.setupClock]

section Motion

variable {board : Resolved} {options : Options} {select : Placement}

theorem contentsOf_motionItems_unresolved (found : board.role? .gyroCs = some select)
    (unresolved : board.bus? .spi (motionIndex board) = none) :
    contentsOf (motionItems board options) = [motionOmission (motionIndex board)] := by
  unfold motionItems
  rw [found]
  dsimp only
  rw [unresolved]
  rfl

theorem contentsOf_motionItems_resolved {bus : Bus} (found : board.role? .gyroCs = some select)
    (resolved : board.bus? .spi (motionIndex board) = some bus) :
    contentsOf (motionItems board options) = [motionTitle board.definition bus,
      declaration "SPIConfig" "imu_spi" (motionBusValues options select bus),
      declaration "IMUConfig" "imu" (motionValues board options)] := by
  unfold motionItems
  rw [found]
  dsimp only
  rw [resolved]
  rfl

theorem mem_motionItems_iff {content : String} :
    content ∈ contentsOf (motionItems board options) ↔
      ∃ select, board.role? .gyroCs = some select ∧
        ((board.bus? .spi (motionIndex board) = none ∧
            content = motionOmission (motionIndex board)) ∨
          ∃ bus, board.bus? .spi (motionIndex board) = some bus ∧
            (content = motionTitle board.definition bus ∨
              content = declaration "SPIConfig" "imu_spi" (motionBusValues options select bus) ∨
              content = declaration "IMUConfig" "imu" (motionValues board options))) := by
  cases found : board.role? .gyroCs with
  | none => simp [motionItems, found, contentsOf]
  | some select =>
      cases resolved : board.bus? .spi (motionIndex board) with
      | none => simp [contentsOf_motionItems_unresolved found resolved]
      | some bus => simp [contentsOf_motionItems_resolved found resolved]

end Motion

/-! ## Declarations -/

/-- Do the pieces declare a constant of the type and name? -/
def Declares (items : List Item) (type name : String) : Prop :=
  ∃ line ∈ lines items, (declarationHead type name).toList <+: unindented line.toList

theorem declares_iff {items : List Item} {type name : String} :
    Declares items type name ↔ ∃ content ∈ contentsOf items,
      (declarationHead type name).toList <+: unindented content.toList := by
  refine exists_line_iff ((declarationHead type name).toList <+: ·) ?_
  rw [List.prefix_nil]
  exact declarationHead_toList_ne_nil type name

theorem declares_of_mem {items : List Item} {type name : String} {values : List String}
    (member : declaration type name values ∈ contentsOf items) : Declares items type name := by
  have opening : Flush ("static constexpr " ++ type ++ " " ++ name) :=
    (((by decide : Flush "static constexpr ").append type).append " ").append name
  have flush : Flush (declaration type name values) :=
    (opening.append (braced values)).append ";"
  refine declares_iff.mpr ⟨_, member, ?_⟩
  rw [flush.bare]
  exact declarationHead_prefix type name values

section Devices

variable {board : Resolved} {options : Options}

/-- Comments declare nothing. -/
theorem apart_of_comment {head : String} (device : head ∈ deviceHeads) (rest : String) :
    Apart head ("// " ++ rest) := by
  have comment : ∀ head ∈ deviceHeads, Apart head "// " := by decide
  exact (comment head device).append rest

/-- Only the sections of storage and the motion sensor declare devices. -/
theorem declares_document_iff {type name : String}
    (device : declarationHead type name ∈ deviceHeads) :
    Declares (document board options) type name ↔
      ∃ content, (content ∈ contentsOf (storageItems board options) ∨
          content ∈ contentsOf (motionItems board options)) ∧
        (declarationHead type name).toList <+: unindented content.toList := by
  rw [declares_iff]
  constructor
  · rintro ⟨content, member, starts⟩
    rcases quoted_or_voiced board options content member with said | voice
    · have openings : ∀ head ∈ deviceHeads, ∀ opening ∈ quoteOpenings, Apart head opening := by
        decide
      exact absurd starts (said.apart (openings _ device)).not_starts
    cases voice with
    | worded said => exact absurd starts (said.apart _ device).not_starts
    | omitted _ _ =>
        rename_i id _ _
        have comment := apart_of_comment device id.resource.keyword
        exact absurd starts (((comment.append " ").append (toString id.index)).append
          ": omitted (unresolved)").not_starts
    | storage member => exact ⟨content, .inl member, starts⟩
    | motion member => exact ⟨content, .inr member, starts⟩
  · rintro ⟨content, member, starts⟩
    exact ⟨content, mem_document_of_device member, starts⟩

theorem apart_declaration {head type name : String} {values : List String}
    (apart : Apart head ("static constexpr " ++ type ++ " " ++ name)) :
    Apart head (declaration type name values) :=
  (apart.append (braced values)).append ";"

theorem storage_resolved_of_starts {head content : String} (device : head ∈ deviceHeads)
    (member : content ∈ contentsOf (storageItems board options))
    (starts : head.toList <+: unindented content.toList) :
    ∃ storage, storage? board = some storage ∧ ∃ bus, board.bus? .spi storage.bus = some bus ∧
      content = declaration "StorageConfig" "storage" (storageValues options storage bus) := by
  have comments : ∀ head ∈ deviceHeads, Apart head "// Storage: omitted (SPI bus " ∧
      Apart head "// Storage: " := by decide
  obtain ⟨omitted, titled⟩ := comments head device
  obtain ⟨storage, found, ⟨_, rfl⟩ | ⟨bus, resolved, rfl | rfl⟩⟩ := mem_storageItems_iff.mp member
  · exact absurd starts ((omitted.append (toString storage.bus)).append " unresolved)").not_starts
  · exact absurd starts (((titled.append storage.label).append " on ").append
      bus.target.name).not_starts
  · exact ⟨storage, found, bus, resolved, rfl⟩

theorem motion_resolved_of_starts {head content : String} (device : head ∈ deviceHeads)
    (member : content ∈ contentsOf (motionItems board options))
    (starts : head.toList <+: unindented content.toList) :
    ∃ select, board.role? .gyroCs = some select ∧
      ∃ bus, board.bus? .spi (motionIndex board) = some bus ∧
        (content = declaration "SPIConfig" "imu_spi" (motionBusValues options select bus) ∨
          content = declaration "IMUConfig" "imu" (motionValues board options)) := by
  have comments : ∀ head ∈ deviceHeads, Apart head "// IMU: omitted (SPI bus " ∧
      Apart head "// IMU: " := by decide
  obtain ⟨omitted, titled⟩ := comments head device
  obtain ⟨select, found, ⟨_, rfl⟩ | ⟨bus, resolved, rfl | declared⟩⟩ :=
    mem_motionItems_iff.mp member
  · exact absurd starts ((omitted.append (toString (motionIndex board))).append
      " unresolved)").not_starts
  · exact absurd starts (((titled.append (motionLabel board.definition)).append " on ").append
      bus.target.name).not_starts
  · exact ⟨select, found, bus, resolved, declared⟩

theorem storageBus?_isSome_iff :
    (storageBus? board).isSome = true ↔
      ∃ storage, storage? board = some storage ∧
        ∃ bus, board.bus? .spi storage.bus = some bus := by
  simp only [Option.isSome_iff_exists, storageBus?, Option.bind_eq_some_iff]
  constructor
  · rintro ⟨bus, storage, found, resolved⟩
    exact ⟨storage, found, bus, resolved⟩
  · rintro ⟨storage, found, bus, resolved⟩
    exact ⟨bus, storage, found, resolved⟩

theorem motionBus?_isSome_iff :
    (motionBus? board).isSome = true ↔
      ∃ select, board.role? .gyroCs = some select ∧
        ∃ bus, board.bus? .spi (motionIndex board) = some bus := by
  simp only [Option.isSome_iff_exists, motionBus?, Option.bind_eq_some_iff]
  constructor
  · rintro ⟨bus, select, found, resolved⟩
    exact ⟨select, found, bus, resolved⟩
  · rintro ⟨select, found, bus, resolved⟩
    exact ⟨bus, select, found, resolved⟩

theorem declares_storage_iff :
    Declares (document board options) "StorageConfig" "storage" ↔
      (storageBus? board).isSome = true := by
  have device : declarationHead "StorageConfig" "storage" ∈ deviceHeads := by decide
  rw [storageBus?_isSome_iff]
  constructor
  · intro declared
    obtain ⟨content, member | member, starts⟩ := (declares_document_iff device).mp declared
    · obtain ⟨storage, found, bus, resolved, _⟩ := storage_resolved_of_starts device member starts
      exact ⟨storage, found, bus, resolved⟩
    · obtain ⟨_, _, bus, _, rfl | rfl⟩ := motion_resolved_of_starts device member starts
      · exact absurd starts (apart_declaration (by decide)).not_starts
      · exact absurd starts (apart_declaration (by decide)).not_starts
  · rintro ⟨storage, found, bus, resolved⟩
    exact declares_of_mem (mem_document_of_device (.inl (mem_storageItems_iff.mpr
      ⟨storage, found, .inr ⟨bus, resolved, .inr rfl⟩⟩)))

private theorem motionBus?_of_declares {type name : String}
    (device : declarationHead type name ∈ deviceHeads)
    (other : Apart (declarationHead type name)
      ("static constexpr " ++ "StorageConfig" ++ " " ++ "storage"))
    (declared : Declares (document board options) type name) :
    (motionBus? board).isSome = true := by
  obtain ⟨content, member | member, starts⟩ := (declares_document_iff device).mp declared
  · obtain ⟨_, _, bus, _, rfl⟩ := storage_resolved_of_starts device member starts
    exact absurd starts (apart_declaration other).not_starts
  · obtain ⟨select, found, bus, resolved, _⟩ := motion_resolved_of_starts device member starts
    exact motionBus?_isSome_iff.mpr ⟨select, found, bus, resolved⟩

theorem declares_motionBus_iff :
    Declares (document board options) "SPIConfig" "imu_spi" ↔
      (motionBus? board).isSome = true := by
  constructor
  · exact motionBus?_of_declares (by decide) (by decide)
  · intro taken
    obtain ⟨select, found, bus, resolved⟩ := motionBus?_isSome_iff.mp taken
    exact declares_of_mem (mem_document_of_device (.inr (mem_motionItems_iff.mpr
      ⟨select, found, .inr ⟨bus, resolved, .inr (.inl rfl)⟩⟩)))

theorem declares_motion_iff :
    Declares (document board options) "IMUConfig" "imu" ↔ (motionBus? board).isSome = true := by
  constructor
  · exact motionBus?_of_declares (by decide) (by decide)
  · intro taken
    obtain ⟨select, found, bus, resolved⟩ := motionBus?_isSome_iff.mp taken
    exact declares_of_mem (mem_document_of_device (.inr (mem_motionItems_iff.mpr
      ⟨select, found, .inr ⟨bus, resolved, .inr (.inr rfl)⟩⟩)))

end Devices

/-! ## Devices on no bus -/

theorem index_ne_zero_of_mem_resolveBuses {board : Definition} {table : Table} {bus : Bus}
    (numbered : ∀ assignment ∈ board.resources, assignment.id.index ≠ 0)
    (member : bus ∈ resolveBuses board table) : bus.index ≠ 0 := by
  obtain ⟨id, declared, found⟩ := List.mem_filterMap.mp member
  obtain ⟨⟨source, signal⟩, owned⟩ := Resolution.mem_declaredBuses_iff.mp declared
  obtain ⟨inside, _, rfl⟩ := Resolution.mem_members_iff.mp owned
  rw [(Resolution.resolveBus?_eq_some found).1]
  exact numbered source inside

theorem bus?_zero (policy : Policy) (text : String) (table : Table)
    (settings : Resolution.Options) (kind : Kind) :
    (resolve (Board.parse policy text).board table settings).board.bus? kind 0 = none := by
  have numbered := (Board.fromText_parse policy text).numbered
  refine List.find?_eq_none.mpr ?_
  intro bus member found
  exact index_ne_zero_of_mem_resolveBuses numbered member (of_decide_eq_true found).2

/-- A device whose setting names no bus is declared exactly when the setting is NONE and the
bus that the device has without a setting was resolved. -/
theorem declares_of_namesNoBus (policy : Policy) (text mcu tableText : String)
    (settings : Resolution.Options) (options : Options) {value : String}
    (nowhere : NamesNoBus value) :
    let board := (resolve (Board.parse policy text).board
      (Capability.parse mcu tableText).table settings).board
    let header := document board options
    (∀ storage, storage? board = some storage →
      board.definition.setting? storage.key = some value →
        (Declares header "StorageConfig" "storage" ↔
          IsNone value ∧ (board.bus? .spi storage.fallback).isSome = true)) ∧
    ((board.role? .gyroCs).isSome = true →
      board.definition.setting? "gyro_1_spibus" = some value →
        (Declares header "SPIConfig" "imu_spi" ↔
          IsNone value ∧ (board.bus? .spi 1).isSome = true) ∧
        (Declares header "IMUConfig" "imu" ↔
          IsNone value ∧ (board.bus? .spi 1).isSome = true)) := by
  intro board header
  have resolved (fallback : UInt8) :
      (board.bus? .spi (if IsNone value then fallback else 0)).isSome = true ↔
        IsNone value ∧ (board.bus? .spi fallback).isSome = true := by
    have zero := bus?_zero policy text (Capability.parse mcu tableText).table settings .spi
    by_cases given : IsNone value
    · simp [given]
    · rw [if_neg given, zero]
      simp [given]
  constructor
  · intro storage found said
    have bus := bus_of_storage? found
    rw [deviceBus_of_namesNoBus said nowhere] at bus
    rw [declares_storage_iff, storageBus?, found, Option.bind_some, bus]
    exact resolved storage.fallback
  · intro selected said
    obtain ⟨select, found⟩ := Option.isSome_iff_exists.mp selected
    have bus : motionIndex board = if IsNone value then 1 else 0 :=
      deviceBus_of_namesNoBus said nowhere
    have taken : (motionBus? board).isSome = true ↔
        IsNone value ∧ (board.bus? .spi 1).isSome = true := by
      rw [motionBus?, found, Option.bind_some, bus]
      exact resolved 1
    exact ⟨declares_motionBus_iff.trans taken, declares_motion_iff.trans taken⟩

/-- A board with flash, a motion sensor and both of their usual buses. -/
def deviceBoard (flashBus gyroBus : String) : String :=
  "resource SPI_MOSI 1 A07\nresource SPI_MOSI 2 B15\n" ++
    "resource FLASH_CS 1 B03\nresource GYRO_CS 1 A04\n" ++
    "set flash_spi_bus = " ++ flashBus ++ "\nset gyro_1_spibus = " ++ gyroBus

def deviceTable : String :=
  "const PinMap PinMap_SPI_MOSI[] = \x7b\x7bPA_7, SPI1, 0\x7d, \x7bPB_15, SPI2, 0\x7d\x7d;"

def deviceResolved (flashBus gyroBus : String) : Resolved :=
  (resolve (Board.parse .lastWins (deviceBoard flashBus gyroBus)).board
    (Capability.parse "F4" deviceTable).table {}).board

theorem namesNoBus_none : NamesNoBus "NONE" :=
  namesNoBus_iff.mpr (.inr (by decide))

theorem declares_none :
    let header := document (deviceResolved "NONE" "NONE") {}
    Declares header "StorageConfig" "storage" ∧ Declares header "SPIConfig" "imu_spi" ∧
      Declares header "IMUConfig" "imu" := by
  have known : (storage? (deviceResolved "NONE" "NONE")).map (fun storage =>
        (storage.key, storage.fallback)) = some ("flash_spi_bus", 2) ∧
      (deviceResolved "NONE" "NONE").definition.setting? "flash_spi_bus" = some "NONE" ∧
      ((deviceResolved "NONE" "NONE").bus? .spi 2).isSome = true ∧
      ((deviceResolved "NONE" "NONE").role? .gyroCs).isSome = true ∧
      (deviceResolved "NONE" "NONE").definition.setting? "gyro_1_spibus" = some "NONE" ∧
      ((deviceResolved "NONE" "NONE").bus? .spi 1).isSome = true := by
    simp only [deviceResolved, Board.board_parse, Capability.table_parse]
    decide +kernel
  obtain ⟨stored, flashSaid, second, selected, gyroSaid, first⟩ := known
  obtain ⟨storage, found, named⟩ := Option.map_eq_some_iff.mp stored
  obtain ⟨key, fallback⟩ := Prod.mk.inj named
  have ⟨flash, sensor⟩ := declares_of_namesNoBus .lastWins (deviceBoard "NONE" "NONE") "F4"
    deviceTable {} {} namesNoBus_none
  have ⟨bus, motion⟩ := sensor selected gyroSaid
  exact ⟨(flash storage found (key ▸ flashSaid)).mpr ⟨by decide, fallback ▸ second⟩,
    bus.mpr ⟨by decide, first⟩, motion.mpr ⟨by decide, first⟩⟩

/-- Zero takes the declaration of storage out of a header and NONE does not, although both
pass the check as no bus. -/
theorem exists_none_declared :
    NamesNoBus "0" ∧ NamesNoBus "NONE" ∧
      ¬ Declares (document (deviceResolved "0" "0") {}) "StorageConfig" "storage" ∧
      Declares (document (deviceResolved "NONE" "0") {}) "StorageConfig" "storage" := by
  refine ⟨namesNoBus_iff.mpr (.inl (by decide)), namesNoBus_none, ?_⟩
  simp only [declares_storage_iff, deviceResolved, Board.board_parse, Capability.table_parse]
  decide +kernel

end Pinout.Header
