import Pinout.Proofs.Header.Naming

/-! The buses of a board in its header. Every bus is declared with its own pins: I2C buses and
serial ports each for themselves, an SPI bus with the devices that are put on it or, without a
device, for itself. Storage and the motion sensor may share a bus, which then stands in both
their declarations. -/

set_option autoImplicit false

namespace Pinout.Header

open Board (Definition Policy)
open Capability (Table)
open Resolution (Bus BusId Resolved resolve resolveBuses resolvedBoard)
open Text (IsWord Without letters_eq)

variable {board : Resolved} {options : Options}

/-! ## Buses for SPI -/

/-- Only the bus of the motion sensor goes by its name. -/
theorem freeName_ne (board : Resolved) (bus : Bus) : freeName board bus ≠ "imu_spi" := by
  unfold freeName
  split
  · decide
  · intro same
    have first : ("spi" ++ toString bus.index).toList.head? = some 'i' :=
      congrArg (fun text => text.toList.head?) same
    rw [String.toList_append] at first
    cases first

theorem filter_spi_eq_self :
    (spiDeclared board options).filter (·.name ≠ "imu_spi") = spiDeclared board options := by
  refine List.filter_eq_self.mpr fun declared member => ?_
  obtain ⟨bus, _, rfl⟩ := List.mem_map.mp member
  exact decide_eq_true (freeName_ne board bus)

theorem filter_spi_eq_nil :
    (spiDeclared board options).filter (·.name = "imu_spi") = [] := by
  refine List.filter_eq_nil_iff.mpr fun declared member named => ?_
  obtain ⟨bus, _, rfl⟩ := List.mem_map.mp member
  exact freeName_ne board bus (of_decide_eq_true named)

/-! ## Resolved buses -/

section Resolved

variable {definition : Definition} {table : Table} {settings : Resolution.Options} {bus : Bus}

theorem bus?_eq_some_iff {kind : Kind} {index : UInt8} :
    (resolvedBoard definition table settings).bus? kind index = some bus ↔
      bus ∈ (resolvedBoard definition table settings).buses ∧ bus.kind = kind ∧
        bus.index = index := by
  have named : (resolveBuses definition table).find?
        (fun candidate => BusId.mk candidate.kind candidate.index = ⟨kind, index⟩) = some bus ↔
      bus ∈ resolveBuses definition table ∧ BusId.mk bus.kind bus.index = ⟨kind, index⟩ :=
    Grouping.find?_key_eq_some_iff (Resolution.nodup_resolveBuses definition table)
  simp only [BusId.mk.injEq] at named
  exact named

/-- The numbers that devices have taken, of the buses that there are. -/
theorem contains_takenBuses_iff
    (member : bus ∈ (resolvedBoard definition table settings).buses) (kind : bus.kind = .spi) :
    (takenBuses (resolvedBoard definition table settings)).contains bus.index = true ↔
      (storage? (resolvedBoard definition table settings)).map Storage.bus = some bus.index ∨
        ((resolvedBoard definition table settings).role? .gyroCs).map
          (fun _ => motionIndex (resolvedBoard definition table settings)) = some bus.index := by
  simp only [takenBuses, List.contains_iff_mem, List.mem_map, List.mem_append, Option.mem_toList,
    storageBus?, motionBus?, Option.bind_eq_some_iff, Option.map_eq_some_iff]
  constructor
  · rintro ⟨other, ⟨storage, placed, found⟩ | ⟨select, chosen, found⟩, numbered⟩
    · exact .inl ⟨storage, placed, (bus?_eq_some_iff.mp found).2.2.symm.trans numbered⟩
    · exact .inr ⟨select, chosen, (bus?_eq_some_iff.mp found).2.2.symm.trans numbered⟩
  · rintro (⟨storage, placed, numbered⟩ | ⟨select, chosen, numbered⟩)
    · exact ⟨bus, .inl ⟨storage, placed,
        bus?_eq_some_iff.mpr ⟨member, kind, numbered.symm⟩⟩, rfl⟩
    · exact ⟨bus, .inr ⟨select, chosen,
        bus?_eq_some_iff.mpr ⟨member, kind, numbered.symm⟩⟩, rfl⟩

theorem carrier?_of_mem (clear : definition.Unambiguous)
    (member : bus ∈ resolveBuses definition table) {placement : Resolution.Placement}
    (pinned : placement ∈ bus.pins) {signal : Signal}
    (carries : placement.id.resource = .bus signal) : bus.carrier? signal = some placement := by
  obtain ⟨owner, _, found⟩ := List.mem_filterMap.mp member
  have inside := pinned
  rw [Resolution.pins_of_resolveBus? found] at inside
  obtain ⟨source, _, placed⟩ := List.mem_filterMap.mp inside
  rw [Resolution.Placement.id, Resolution.source_of_placement? placed] at carries
  have carried := Resolution.signal?_of_placement? carries placed
  cases sought : bus.carrier? signal with
  | none => exact absurd (decide_eq_true carried) (List.find?_eq_none.mp sought placement pinned)
  | some other =>
      unfold Bus.carrier? at sought
      have listed := List.mem_of_find?_eq_some sought
      have also : other.signal? = some signal := by simpa using List.find?_some sought
      rw [Resolution.eq_of_signal? clear found listed pinned also carried]

end Resolved

/-! ## Declarations of buses -/

/-- How the buses of a board stand among declarations in the given scope: in which constants,
under which names and with which pins. Storage and the motion sensor are on the buses of their
numbers, if there are such. -/
structure Wired (board : Resolved) (options : Options) (scope : List String)
    (told : List Declared) : Prop where
  apart : ∀ kind, ((board.buses.filter fun bus => bus.kind = kind).map Bus.index).Nodup
  i2c : constantsOf told "I2CConfig" =
    (board.buses.filter fun bus => bus.kind = .i2c).map fun bus =>
      constantAt scope "I2CConfig"
        (if (board.buses.filter fun bus => bus.kind = .i2c).length = 1 then "sensors"
          else s!"i2c{bus.index}")
        [signalPin bus .i2cSda, signalPin bus .i2cScl, toString options.i2cClock]
  uart : constantsOf told "UARTConfig" =
    (board.buses.filter fun bus => bus.kind = .uart).map fun bus =>
      constantAt scope "UARTConfig" s!"uart{bus.index}"
        [signalPin bus .uartTx, signalPin bus .uartRx, toString options.baudRate]
  storage : ∀ storage ∈ storage? board, ∀ bus ∈ board.buses, bus.kind = .spi →
    bus.index = storage.bus → constantsOf told "StorageConfig" =
      [constantAt scope "StorageConfig" "storage" ["StorageBackend::" ++ storage.backend,
        signalPin bus .spiMosi, signalPin bus .spiMiso, signalPin bus .spiSclk,
        pinName (some storage.select), toString options.spiClock]]
  motion : ∀ select ∈ board.role? .gyroCs, ∀ bus ∈ board.buses, bus.kind = .spi →
    bus.index = motionIndex board → (constantsOf told "SPIConfig").filter (·.name = "imu_spi") =
      [constantAt scope "SPIConfig" "imu_spi"
        [signalPin bus .spiMosi, signalPin bus .spiMiso, signalPin bus .spiSclk,
          pinName (some select), toString options.spiClock, "CS_Mode::HARDWARE"]]
  free : (constantsOf told "SPIConfig").filter (·.name ≠ "imu_spi") =
    (board.buses.filter fun bus => bus.kind = .spi ∧
      (storage? board).map Storage.bus ≠ some bus.index ∧
      (board.role? .gyroCs).map (fun _ => motionIndex board) ≠ some bus.index).map fun bus =>
        match displaySelect? board bus with
        | some select => constantAt scope "SPIConfig" "osd_spi"
            [signalPin bus .spiMosi, signalPin bus .spiMiso, signalPin bus .spiSclk,
              pinName (some select), toString options.spiClock, "CS_Mode::HARDWARE"]
        | none => constantAt scope "SPIConfig" s!"spi{bus.index}"
            [signalPin bus .spiMosi, signalPin bus .spiMiso, signalPin bus .spiSclk, "NC",
              toString options.spiClock]
  carried : ∀ bus ∈ board.buses, ∀ placement ∈ bus.pins, ∀ signal,
    placement.id.resource = .bus signal → signalPin bus signal = placement.variant.name
  missing : ∀ bus ∈ board.buses, ∀ signal,
    (∀ placement ∈ bus.pins, placement.id.resource ≠ .bus signal) → signalPin bus signal = "NC"

section Documents

variable {definition : Definition} {table : Table} {settings : Resolution.Options} {bus : Bus}

theorem constantsOf_storage {storage : Storage} (placed : storage? board = some storage)
    (found : board.bus? .spi storage.bus = some bus) :
    constantsOf (documentDeclared board options) "StorageConfig" =
      [constantAt bodyScope "StorageConfig" "storage" (storageValues options storage bus)] := by
  rw [constantsOf_document_of_bus (by decide) (by decide), constantsOf_buses,
    (among_motionDeclared board options).constantsOf_eq_nil "StorageConfig" (by decide)]
  simp [storageDeclared, placed, found]

theorem constantsOf_i2c :
    constantsOf (documentDeclared board options) "I2CConfig" = i2cDeclared board options := by
  rw [constantsOf_document_of_bus (by decide) (by decide), constantsOf_buses,
    (among_motionDeclared board options).constantsOf_eq_nil "I2CConfig" (by decide)]
  simp

theorem constantsOf_uart :
    constantsOf (documentDeclared board options) "UARTConfig" = uartDeclared board options := by
  rw [constantsOf_document_of_bus (by decide) (by decide), constantsOf_buses,
    (among_motionDeclared board options).constantsOf_eq_nil "UARTConfig" (by decide)]
  simp

theorem constantsOf_spi :
    constantsOf (documentDeclared board options) "SPIConfig" =
      constantsOf (motionDeclared board options) "SPIConfig" ++ spiDeclared board options := by
  rw [constantsOf_document_of_bus (by decide) (by decide), constantsOf_buses]
  simp

theorem filter_constantsOf_motion {select : Resolution.Placement}
    (chosen : board.role? .gyroCs = some select)
    (found : board.bus? .spi (motionIndex board) = some bus) :
    (constantsOf (documentDeclared board options) "SPIConfig").filter (·.name = "imu_spi") =
      [constantAt bodyScope "SPIConfig" "imu_spi" (motionBusValues options select bus)] := by
  rw [constantsOf_spi, List.filter_append, filter_spi_eq_nil, List.append_nil, motionDeclared,
    chosen]
  dsimp only
  rw [found]
  rfl

theorem filter_constantsOf_free :
    (constantsOf (documentDeclared board options) "SPIConfig").filter (·.name ≠ "imu_spi") =
      spiDeclared board options := by
  have none : (constantsOf (motionDeclared board options) "SPIConfig").filter
      (·.name ≠ "imu_spi") = [] := by
    unfold motionDeclared
    split
    · rfl
    · split
      · rfl
      · rfl
  rw [constantsOf_spi, List.filter_append, filter_spi_eq_self, none, List.nil_append]

theorem freeBuses_resolved :
    freeBuses (resolvedBoard definition table settings) =
      (resolvedBoard definition table settings).buses.filter fun bus => bus.kind = .spi ∧
        (storage? (resolvedBoard definition table settings)).map Storage.bus ≠ some bus.index ∧
        ((resolvedBoard definition table settings).role? .gyroCs).map
          (fun _ => motionIndex (resolvedBoard definition table settings)) ≠ some bus.index := by
  rw [freeBuses, Resolved.busesOf, List.filter_filter]
  refine List.filter_congr fun bus member => ?_
  rw [Bool.eq_iff_iff, Bool.and_eq_true, decide_eq_true_eq, decide_eq_true_eq, and_comm]
  refine and_congr_right fun kind => ?_
  rw [Bool.not_eq_true', ← Bool.not_eq_true, contains_takenBuses_iff member kind, not_or]

theorem signalPin_of_missing (member : bus ∈ resolveBuses definition table)
    {signal : Signal} (absent : ∀ placement ∈ bus.pins, placement.id.resource ≠ .bus signal) :
    signalPin bus signal = "NC" := by
  have nowhere : bus.carrier? signal = none := by
    refine List.find?_eq_none.mpr fun placement pinned carried => ?_
    obtain ⟨owner, _, found⟩ := List.mem_filterMap.mp member
    obtain ⟨_, _, _, named⟩ :=
      Resolution.id_of_mem_pins found pinned (of_decide_eq_true carried)
    exact absent placement pinned (by rw [named])
  rw [signalPin, nowhere, pinName]

theorem wired_document (clear : definition.Unambiguous) :
    Wired (resolvedBoard definition table settings) options bodyScope
      (documentDeclared (resolvedBoard definition table settings) options) where
  apart := nodup_index
  i2c := by
    simp only [constantsOf_i2c, i2cDeclared, i2cName, beq_iff_eq]
    rfl
  uart := constantsOf_uart
  storage _ placed _ member kind numbered :=
    constantsOf_storage placed (bus?_eq_some_iff.mpr ⟨member, kind, numbered⟩)
  motion _ chosen _ member kind numbered :=
    filter_constantsOf_motion chosen (bus?_eq_some_iff.mpr ⟨member, kind, numbered⟩)
  free := by
    rw [filter_constantsOf_free, spiDeclared, freeBuses_resolved]
    refine List.map_congr_left fun bus _ => ?_
    unfold freeName freeValues
    cases displaySelect? (resolvedBoard definition table settings) bus <;> rfl
  carried _ member _ pinned _ carries := by
    rw [signalPin, carrier?_of_mem clear member pinned carries, pinName]
  missing _ member _ absent := signalPin_of_missing member absent

end Documents

/-! ## Declarations in code -/

/-- The types of the constants that show buses. -/
def busTypes : List String :=
  ["I2CConfig", "UARTConfig", "StorageConfig", "SPIConfig"]

/-- Declarations show the same buses if the constants of buses stay what they are, but for their
scope. -/
theorem Wired.map {scope other : List String} {told after : List Declared}
    {change : Declared → Declared} (wired : Wired board options scope told)
    (same : ∀ type ∈ busTypes, constantsOf after type = (constantsOf told type).map change)
    (named : ∀ declared, (change declared).name = declared.name)
    (moved : ∀ type name values,
      change (constantAt scope type name values) = constantAt other type name values) :
    Wired board options other after where
  apart := wired.apart
  i2c := by
    rw [same _ (by decide), wired.i2c, List.map_map]
    exact List.map_congr_left fun bus _ => moved _ _ _
  uart := by
    rw [same _ (by decide), wired.uart, List.map_map]
    exact List.map_congr_left fun bus _ => moved _ _ _
  storage storage placed bus member kind numbered := by
    rw [same _ (by decide), wired.storage storage placed bus member kind numbered,
      List.map_singleton, moved]
  motion select chosen bus member kind numbered := by
    have kept := wired.motion select chosen bus member kind numbered
    simp only [same _ (by decide : "SPIConfig" ∈ busTypes), List.filter_map, Function.comp_def,
      named, kept, List.map_singleton, moved]
  free := by
    have kept := wired.free
    simp only [same _ (by decide : "SPIConfig" ∈ busTypes), List.filter_map, Function.comp_def,
      named, kept, List.map_map]
    refine List.map_congr_left fun bus _ => ?_
    cases displaySelect? board bus with
    | none => exact moved _ _ _
    | some select => exact moved _ _ _
  carried := wired.carried
  missing := wired.missing

theorem silent_of_mem_busesDeclared {declared : Declared}
    (member : declared ∈ busesDeclared board options) : Silent declared.text := by
  simp only [busesDeclared, List.mem_append] at member
  rcases member with (((storage | motion) | i2c) | uart) | spi
  · unfold storageDeclared at storage
    split at storage
    · cases storage
    · rename_i found
      split at storage
      · cases storage
      · rw [List.mem_singleton.mp storage]
        exact silent_storage found _
  · unfold motionDeclared at motion
    split at motion
    · cases motion
    · split at motion
      · cases motion
      · rcases List.mem_pair.mp motion with rfl | rfl
        · exact silent_motionBus _ _
        · exact silent_motion
  · obtain ⟨bus, _, rfl⟩ := List.mem_map.mp i2c
    exact silent_i2c _ bus
  · obtain ⟨bus, _, rfl⟩ := List.mem_map.mp uart
    exact silent_uart bus
  · obtain ⟨bus, _, rfl⟩ := List.mem_map.mp spi
    exact silent_spi bus

/-- There is no comment behind the declaration of a bus. -/
theorem map_code_busesDeclared (fromText : board.definition.FromText) :
    (busesDeclared board options).map Declared.code = busesDeclared board options := by
  refine (List.map_congr_left fun declared member => ?_).trans (List.map_id _)
  have listed : declared ∈ documentDeclared board options :=
    List.mem_cons_of_mem _ (List.mem_append_left _ (List.mem_append_left _ member))
  have level : Level declared.text :=
    (voiced_spaceItem fromText _ (outline_spaceItems.text_mem declared listed)).1
  exact Declared.code_eq_self (silent_of_mem_busesDeclared member) level.single

theorem constantsOf_map (change : Declared → Declared)
    (kept : ∀ declared, (change declared).kind = declared.kind) (told : List Declared)
    (type : String) : constantsOf (told.map change) type = (constantsOf told type).map change := by
  rw [constantsOf, List.filter_map, constantsOf]
  simp only [Function.comp_def, kept]

theorem constantsOf_document_of_mem {type : String} (listed : type ∈ busTypes) :
    constantsOf (documentDeclared board options) type =
      constantsOf (busesDeclared board options) type := by
  have inputs : ∀ type ∈ busTypes, "static constexpr " ++ type ∉ inputKinds := by decide
  have outputs : ∀ type ∈ busTypes, "static constexpr " ++ type ∉ familyKinds := by decide
  exact constantsOf_document_of_bus (inputs type listed) (outputs type listed)

/-- Read as code, the constants of buses are those of the layout. -/
theorem constantsOf_code (fromText : board.definition.FromText) {type : String}
    (listed : type ∈ busTypes) :
    constantsOf ((documentDeclared board options).map Declared.code) type =
      constantsOf (documentDeclared board options) type := by
  rw [constantsOf_map Declared.code (fun _ => rfl), constantsOf_document_of_mem listed,
    ← constantsOf_map Declared.code (fun _ => rfl), map_code_busesDeclared fromText]

/-- The block in which the sections declare, if it is among the declarations. -/
def sectionScope (told : List Declared) : List String :=
  if "BoardConfig" ∈ namesIn told [] then ["BoardConfig"] else []

section Documents

variable {definition : Definition} {table : Table} {settings : Resolution.Options}

/-- What the sections declare has other names than the block around them, in that block too. -/
theorem not_mem_namesIn_outer (clear : definition.Unambiguous) : "BoardConfig" ∉ namesIn
    ((documentDeclared (resolvedBoard definition table settings) options).tail.map
      Declared.outer) [] := by
  have sections := @named_sections options definition table settings clear
  intro listed
  obtain ⟨changed, inside, named⟩ := List.mem_map.mp listed
  obtain ⟨member, outermost⟩ := List.mem_filter.mp inside
  obtain ⟨declared, told, rfl⟩ := List.mem_map.mp member
  have within : declared.scope.tail = [] := of_decide_eq_true outermost
  have lead : declared.lead = "BoardConfig" := by
    rw [Declared.lead, List.tail_append_of_ne_nil (sections.inside declared told), within,
      List.nil_append, List.headD_cons]
    exact named
  have stems := sections.leads declared told
  rw [lead] at stems
  exact absurd stems (by decide)

theorem wired_code (clear : definition.Unambiguous) (fromText : definition.FromText) :
    let board := resolvedBoard definition table settings
    let told := (codeDeclared board options).map Declared.code
    Wired board options (sectionScope told) told := by
  intro board told
  have wired : Wired board options bodyScope (documentDeclared board options) :=
    wired_document clear
  dsimp only [told]
  unfold sectionScope codeDeclared
  rw [namesIn_map_code]
  split
  · rw [if_neg (not_mem_namesIn_outer clear)]
    refine @Wired.map _ _ _ _ _ _ Declared.outer wired (fun type listed => ?_) (fun _ => rfl)
      fun _ _ _ => rfl
    have space : ("namespace" : String) ≠ "static constexpr " ++ type := by
      revert type
      decide
    have sections : constantsOf ((documentDeclared board options).tail.map Declared.code) type =
        constantsOf (documentDeclared board options) type :=
      (constantsOf_cons_of_ne space _).symm.trans (constantsOf_code fromText listed)
    rw [← sections, ← constantsOf_map Declared.outer (fun _ => rfl), List.map_map, List.map_map]
    rfl
  · rw [if_pos (by rw [namesIn_documentDeclared clear]; exact List.mem_singleton_self _)]
    refine @Wired.map _ _ _ _ _ _ id wired (fun type listed => ?_) (fun _ => rfl) fun _ _ _ => rfl
    rw [constantsOf_code fromText listed, List.map_id]

end Documents

/-! ## Whole headers -/

/-- Every resolved bus is in the header with its own pins, whatever devices are put on it. -/
theorem wired_generate (policy : Policy) (text mcu tableText : String)
    (settings : Resolution.Options) (options : Options)
    (source : ∀ name, options.source = some name → Unended (logicalOf name.toList))
    (named : Level mcu)
    (kept : options.keepRest = true →
      ∀ kept ∈ (Board.parse policy text).board.verbatim, Level kept.text) :
    let board := (resolve (Board.parse policy text).board
      (Capability.parse mcu tableText).table settings).board
    let told := codeDeclarations (generate board options)
    Wired board options (sectionScope told) told := by
  intro board told
  have contained : Contained board options := ⟨Board.fromText_parse policy text, named, kept⟩
  have read : told = (codeDeclared board options).map Declared.code :=
    codeDeclarations_generate contained source
  rw [read]
  exact wired_code (Board.parse_unambiguous policy text) (Board.fromText_parse policy text)

/-- Storage and the motion sensor share a bus, which has the same pins in both declarations. -/
theorem wired_busy :
    let told := codeDeclarations (generate busyResolved busyOptions)
    (∀ name, busyOptions.source = some name → Unended (logicalOf name.toList)) ∧ Level "F4" ∧
      (busyOptions.keepRest = true →
        ∀ kept ∈ (Board.parse .lastWins busyBoard).board.verbatim, Level kept.text) ∧
      Wired busyResolved busyOptions (sectionScope told) told ∧
      sectionScope told = ["BoardConfig"] ∧
      (constantsOf told "StorageConfig").map (·.text) = ["static constexpr StorageConfig " ++
        "storage\x7bStorageBackend::LITTLEFS, PA_7, PA_6, PA_5, PB_3, 8000000\x7d;"] ∧
      (constantsOf told "SPIConfig").map (·.text) = ["static constexpr SPIConfig " ++
          "imu_spi\x7bPA_7, PA_6, PA_5, PA_4, 8000000, CS_Mode::HARDWARE\x7d;",
        "static constexpr SPIConfig spi2\x7bPB_15, NC, NC, NC, 8000000\x7d;"] ∧
      (constantsOf told "UARTConfig").map (·.text) =
        ["static constexpr UARTConfig uart1\x7bPA_9, NC, 115200\x7d;"] := by
  intro told
  have wired := wired_generate .lastWins busyBoard "F4" busyTable {} busyOptions
    unended_busyOptions contained_busy.mcu contained_busy.kept
  refine ⟨unended_busyOptions, contained_busy.mcu, contained_busy.kept, wired, ?_⟩
  dsimp only [told]
  rw [codeDeclarations_busy]
  decide

/-- A port, and a table that has its pin. -/
def portTable : String :=
  "const PinMap PinMap_UART_TX[] = \x7b\x7bPA_9, USART1, 0\x7d\x7d;"

def portResolved : Resolved :=
  (resolve (Board.parse .lastWins "resource SERIAL_TX 1 A09").board
    (Capability.parse "F4" portTable).table {}).board

/-- What a name of the source says that ends its comment. -/
def portAgain : String :=
  "static constexpr UARTConfig uart1\x7bPA_9, NC, 115200\x7d;"

/-- The same behind a carriage return in a statement that is kept. -/
def returnResolved : Resolved :=
  (resolve (Board.parse .lastWins ("resource SERIAL_TX 1 A09\nfeature OSD\r" ++ portAgain)).board
    (Capability.parse "F4" portTable).table {}).board

/-- Such a name can repeat the declaration of a port, and so can such a statement. -/
theorem exists_repeated_port :
    (let options : Options := { source := some (breakingName portAgain) }
     let told := codeDeclarations (generate portResolved options)
     (portResolved.buses.filter fun bus => bus.kind = .uart).map (·.index) = [1] ∧
        (constantsOf told "UARTConfig").map (·.text) = [portAgain, portAgain] ∧
        ¬ Wired portResolved options (sectionScope told) told) ∧
    (let told := codeDeclarations (generate returnResolved {})
     (returnResolved.buses.filter fun bus => bus.kind = .uart).map (·.index) = [1] ∧
        (constantsOf told "UARTConfig").map (·.text) = [portAgain, portAgain] ∧
        ¬ Wired returnResolved {} (sectionScope told) told) := by
  -- One port is declared once.
  have short {board : Resolved} {options : Options} {scope : List String} {told : List Declared}
      (port : (board.buses.filter fun bus => bus.kind = .uart).map (·.index) = [1])
      (twice : (constantsOf told "UARTConfig").map (·.text) = [portAgain, portAgain]) :
      ¬ Wired board options scope told := by
    intro wired
    have texts := congrArg List.length twice
    have indices := congrArg List.length port
    rw [List.length_map] at texts indices
    rw [wired.uart, List.length_map, indices] at texts
    cases texts
  constructor
  · intro options told
    have contained : Contained portResolved {} :=
      ⟨Board.fromText_parse .lastWins "resource SERIAL_TX 1 A09", (by decide : Level "F4"),
        fun _ => by decide +kernel⟩
    have read : told = ⟨[], "static constexpr UARTConfig", "uart1", portAgain⟩ ::
        (codeDeclared portResolved {}).map Declared.code :=
      codeDeclarations_breakingName contained (by decide) (by decide)
        (separate_silent (by decide) (by decide) (by decide)) (by decide)
    have port : (portResolved.buses.filter fun bus => bus.kind = .uart).map (·.index) = [1] ∧
        (constantsOf ((codeDeclared portResolved {}).map Declared.code)
          "UARTConfig").map (·.text) = [portAgain] := by
      simp only [portResolved, Board.board_parse, Capability.table_parse]
      decide +kernel
    have twice : (constantsOf told "UARTConfig").map (·.text) = [portAgain, portAgain] := by
      rw [read, constantsOf, List.filter_cons_of_pos (by decide), ← constantsOf, List.map_cons,
        port.2]
    exact ⟨port.1, twice, short port.1 twice⟩
  · intro told
    have port : (returnResolved.buses.filter fun bus => bus.kind = .uart).map (·.index) = [1] := by
      simp only [returnResolved, Board.board_parse, Capability.table_parse]
      decide +kernel
    have twice : (constantsOf told "UARTConfig").map (·.text) = [portAgain, portAgain] := by
      dsimp only [told]
      rw [codeDeclarations_textOf (toList_generate returnResolved {})]
      simp only [returnResolved, Board.board_parse, Capability.table_parse, textOf, ← letters_eq]
      decide +kernel
    exact ⟨port, twice, short port twice⟩

end Pinout.Header
