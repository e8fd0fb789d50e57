import Pinout.Header.Document
import Pinout.Proofs.Header.Scope

/-! What the sections of a header declare, and that whole headers declare just that. All other
lines are comments, directives or fields, whatever texts they quote. -/

set_option autoImplicit false

namespace Pinout.Header

open Resolution (Bank Bus Placement Resolved)
open Text (IsWord)

variable {board : Resolved} {options : Options} {scope : List String}

/-- The block around the sections. -/
def bodyScope : List String :=
  ["BoardConfig"]

def constantAt (scope : List String) (type name : String) (values : List String) : Declared :=
  ⟨scope, "static constexpr " ++ type, name, declaration type name values⟩

theorem Outline.constant {type name : String} {values : List String} {items : List Item}
    {told : List Declared} (typed : IsWord type) (word : IsWord name)
    (rest : Outline scope items told) :
    Outline scope (constant type name values :: items)
      (constantAt scope type name values :: told) :=
  .line (introduces_declaration typed word values) (opensBlock_append (by decide) _) rest

theorem Outline.omissions (board : Resolved) (resource : Resource) :
    Outline scope (omissions board resource) [] := by
  have remarks (indices : List UInt8) :
      Outline scope (indices.map fun index => .line (omission resource index)) [] := by
    induction indices with
    | nil => exact .nil
    | cons index rest ih =>
        have comment : Remark (omission resource index) :=
          ((((by decide : Remark "// ").append resource.keyword).append " ").append
            (toString index)).append ": omitted (unresolved)"
        exact .remark comment ih
  unfold Header.omissions
  cases board.droppedOf resource with
  | nil => exact .nil
  | cons index rest => exact (remarks (index :: rest)).append (.gap .nil)

/-! ## Devices -/

def storageDeclared (board : Resolved) (options : Options) : List Declared :=
  match storage? board with
  | none => []
  | some storage =>
    match board.bus? .spi storage.bus with
    | none => []
    | some bus =>
      [constantAt bodyScope "StorageConfig" "storage" (storageValues options storage bus)]

theorem outline_storageItems :
    Outline bodyScope (storageItems board options) (storageDeclared board options) := by
  unfold storageItems storageDeclared
  cases storage? board with
  | none => exact .nil
  | some storage =>
      dsimp only
      cases board.bus? .spi storage.bus with
      | none =>
          have comment := (by decide : Remark "// Storage: omitted (SPI bus ")
          exact .remark ((comment.append (toString storage.bus)).append " unresolved)") (.gap .nil)
      | some bus =>
          have comment := (by decide : Remark "// Storage: ")
          exact .remark (((comment.append storage.label).append " on ").append bus.target.name)
            (.constant (by decide) (by decide) (.gap .nil))

def motionDeclared (board : Resolved) (options : Options) : List Declared :=
  match board.role? .gyroCs with
  | none => []
  | some select =>
    match board.bus? .spi (motionIndex board) with
    | none => []
    | some bus =>
      [constantAt bodyScope "SPIConfig" "imu_spi" (motionBusValues options select bus),
        constantAt bodyScope "IMUConfig" "imu" (motionValues board options)]

theorem outline_motionItems :
    Outline bodyScope (motionItems board options) (motionDeclared board options) := by
  unfold motionItems motionDeclared
  cases board.role? .gyroCs with
  | none => exact .nil
  | some select =>
      dsimp only
      cases board.bus? .spi (motionIndex board) with
      | none =>
          have comment := (by decide : Remark "// IMU: omitted (SPI bus ")
          exact .remark ((comment.append (toString (motionIndex board))).append " unresolved)")
            (.gap .nil)
      | some bus =>
          have comment := (by decide : Remark "// IMU: ")
          exact .remark (((comment.append _).append " on ").append bus.target.name)
            (.constant (by decide) (by decide) (.constant (by decide) (by decide) (.gap .nil)))

/-! ## Buses -/

def i2cName (only : Bool) (bus : Bus) : String :=
  if only then "sensors" else s!"i2c{bus.index}"

def i2cDeclared (board : Resolved) (options : Options) : List Declared :=
  (board.busesOf .i2c).map fun bus =>
    constantAt bodyScope "I2CConfig" (i2cName ((board.busesOf .i2c).length == 1) bus)
      [signalPin bus .i2cSda, signalPin bus .i2cScl, toString options.i2cClock]

def uartDeclared (board : Resolved) (options : Options) : List Declared :=
  (board.busesOf .uart).map fun bus =>
    constantAt bodyScope "UARTConfig" s!"uart{bus.index}"
      [signalPin bus .uartTx, signalPin bus .uartRx, toString options.baudRate]

/-- The buses that no device has taken. -/
def freeBuses (board : Resolved) : List Bus :=
  (board.busesOf .spi).filter fun bus => !(takenBuses board).contains bus.index

/-- The name of a bus that no device has taken, and what its declaration has behind its pins. -/
def freeName (board : Resolved) (bus : Bus) : String :=
  if (displaySelect? board bus).isSome then "osd_spi" else s!"spi{bus.index}"

def freeValues (board : Resolved) (options : Options) (bus : Bus) : List String :=
  match displaySelect? board bus with
  | some select =>
    spiPins bus ++ [pinName (some select), toString options.spiClock, "CS_Mode::HARDWARE"]
  | none => spiPins bus ++ ["NC", toString options.spiClock]

def spiDeclared (board : Resolved) (options : Options) : List Declared :=
  (freeBuses board).map fun bus =>
    constantAt bodyScope "SPIConfig" (freeName board bus) (freeValues board options bus)

theorem isWord_numbered {stem : String} (word : IsWord stem) (index : UInt8) :
    IsWord (stem ++ toString index) :=
  word.append (Text.isWord_toString index.toNat)

/-- The comment in front of the declaration of a bus. -/
theorem remark_title (target : Instance) (use : String) :
    Remark ("// " ++ target.name ++ use) :=
  ((by decide : Remark "// ").append target.name).append use

/-- A section with one declaration for each bus. -/
theorem Outline.each {items : Bus → List Item} {tell : Bus → Declared} {buses : List Bus}
    (one : ∀ bus, Outline scope (items bus) [tell bus]) :
    Outline scope (buses.flatMap items) (buses.map tell) := by
  rw [← List.flatMap_singleton' (buses.map tell), List.flatMap_map]
  exact .flatMap fun bus _ => one bus

theorem outline_i2cItems :
    Outline bodyScope (i2cItems board options) (i2cDeclared board options) := by
  refine ((Outline.omissions board _).append (.omissions board _)).append (.each fun bus => ?_)
  cases (board.busesOf .i2c).length == 1 with
  | true =>
      exact .remark ((remark_title bus.target ": ").append _)
        (.constant (by decide) (by decide) (.gap .nil))
  | false =>
      exact .remark ((remark_title bus.target ": ").append _)
        (.constant (by decide) (isWord_numbered (by decide) bus.index) (.gap .nil))

theorem outline_uartItems :
    Outline bodyScope (uartItems board options) (uartDeclared board options) := by
  refine ((Outline.omissions board _).append (.omissions board _)).append (.each fun bus => ?_)
  exact .remark (remark_title bus.target _)
    (.constant (by decide) (isWord_numbered (by decide) bus.index) (.gap .nil))

theorem outline_spiItems :
    Outline bodyScope (spiItems board options) (spiDeclared board options) := by
  refine (((Outline.omissions board _).append (.omissions board _)).append
    (.omissions board _)).append (.each fun bus => ?_)
  unfold spiItem freeName freeValues
  cases displaySelect? board bus with
  | some select =>
      exact .remark (remark_title bus.target _) (.constant (by decide) (by decide) (.gap .nil))
  | none =>
      exact .remark (remark_title bus.target _)
        (.constant (by decide) (isWord_numbered (by decide) bus.index) (.gap .nil))

/-! ## Inputs, lights and the beeper -/

def batteryDeclared (board : Resolved) : List Declared :=
  if (board.role? .adcBatt).isNone && (board.role? .adcCurr).isNone then []
  else
    [constantAt bodyScope "ADCConfig" "battery"
      [pinOrZero (board.role? .adcBatt), pinOrZero (board.role? .adcCurr),
        toString (settingNumber board.definition "vbat_scale" 32 110),
        toString (settingNumber board.definition "ibata_scale" 32 170)]]

def strengthDeclared (board : Resolved) : List Declared :=
  match board.role? .adcRssi with
  | none => []
  | some input =>
    let label := match input.entry with
      | some entry => entry.label
      | none => ""
    [⟨bodyScope, "static constexpr uint32_t", "rssi_pin",
      s!"static constexpr uint32_t rssi_pin = {input.variant};  // {label}"⟩]

def lightDeclared (board : Resolved) : List Declared :=
  match (board.rolesOf .led).take 2 with
  | [] => []
  | lights =>
    [constantAt bodyScope "LEDConfig" "status_leds" (lights.map fun light => light.variant.name)]

def beeperDeclared (board : Resolved) : List Declared :=
  match board.role? .beeper with
  | none => []
  | some beeper =>
    let polarity := match board.definition.setting? "beeper_inversion" with
      | none => []
      | some value =>
        let inverted := sameWord value "ON"
        [Declared.mk bodyScope "static constexpr bool" "beeper_inverted"
          s!"static constexpr bool beeper_inverted = {inverted};"]
    ⟨bodyScope, "static constexpr uint32_t", "beeper_pin",
      s!"static constexpr uint32_t beeper_pin = {beeper.variant};"⟩ :: polarity

theorem outline_batteryItems : Outline bodyScope (batteryItems board) (batteryDeclared board) := by
  unfold batteryItems batteryDeclared
  dsimp only
  split
  · exact .nil
  · exact .remark (by decide) (.constant (by decide) (by decide) (.gap .nil))

theorem outline_strengthItems :
    Outline bodyScope (strengthItems board) (strengthDeclared board) := by
  unfold strengthItems strengthDeclared
  cases board.role? .adcRssi with
  | none => exact .nil
  | some input =>
      have opening : Introduces "static constexpr uint32_t" "rssi_pin"
        "static constexpr uint32_t rssi_pin = " := by decide
      have line := (opening.append input.variant.name).append ";  // "
      dsimp only
      cases input.entry with
      | none =>
          have level : opensBlock ("static constexpr uint32_t rssi_pin = " ++ input.variant.name ++
              ";  // " ++ "") = false := by
            rw [String.append_empty]
            exact opensBlock_append (by decide) _
          exact .remark (by decide) (.line (line.append "") level (.gap .nil))
      | some entry =>
          exact .remark (by decide) (.line (line.append entry.label)
            (opensBlock_append_word entry.isWord_label _) (.gap .nil))

theorem outline_analogItems :
    Outline bodyScope (analogItems board) (batteryDeclared board ++ strengthDeclared board) :=
  ((((Outline.omissions board _).append (.omissions board _)).append
    (.omissions board _)).append outline_batteryItems).append outline_strengthItems

theorem outline_lightItems : Outline bodyScope (lightItems board) (lightDeclared board) := by
  unfold lightItems lightDeclared
  cases (board.rolesOf .led).take 2 with
  | nil => exact .nil
  | cons light rest => exact .remark (by decide) (.constant (by decide) (by decide) (.gap .nil))

theorem outline_beeperItems : Outline bodyScope (beeperItems board) (beeperDeclared board) := by
  unfold beeperItems beeperDeclared
  cases board.role? .beeper with
  | none => exact .nil
  | some beeper =>
      have opening : Introduces "static constexpr uint32_t" "beeper_pin"
        "static constexpr uint32_t beeper_pin = " := by decide
      have line := (opening.append beeper.variant.name).append ";"
      have polarity : ∀ inverted : Bool, Introduces "static constexpr bool" "beeper_inverted"
          ("static constexpr bool beeper_inverted = " ++ toString inverted ++ ";") := by decide
      refine .remark (by decide) (.line line (opensBlock_append (by decide) _) ?_)
      dsimp only
      cases board.definition.setting? "beeper_inversion" with
      | none => exact .gap .nil
      | some value =>
          exact .line (polarity (sameWord value "ON")) (opensBlock_append (by decide) _) (.gap .nil)

/-! ## Outputs -/

def familyScope (family : Family) : List String :=
  bodyScope ++ [familySpace family]

def bankScope (family : Family) (target : Instance) : List String :=
  familyScope family ++ [target.name ++ "_Bank"]

/-- The declaration of the channel of an output at a timer. -/
def channelAt (family : Family) (timing : Timing) (target : Instance) (placement : Placement) :
    Option Declared :=
  placement.entry.map fun entry =>
    let channel := entry.timerChannel?.getD 0
    let values := [placement.variant.name, toString channel, toString timing.minPulse,
      toString timing.maxPulse]
    ⟨bankScope family target, "static constexpr Channel",
      s!"{familyVariable family}{placement.id.index}",
      s!"static constexpr Channel {familyVariable family}{placement.id.index} = " ++
        braced values ++ s!";  // {entry.label}"⟩

def bankDeclared (family : Family) (timing : Timing) (bank : Bank) : List Declared :=
  [⟨familyScope family, "namespace", bank.target.name ++ "_Bank",
      s!"namespace {bank.target}_Bank \x7b"⟩,
    ⟨bankScope family bank.target, "static inline TIM_TypeDef* const", "timer",
      s!"static inline TIM_TypeDef* const timer = {bank.target};"⟩,
    ⟨bankScope family bank.target, "struct", "Channel", "struct Channel \x7b"⟩] ++
    (bank.channelsOf family).filterMap (channelAt family timing bank.target)

def rateDeclared (family : Family) (timing : Timing) : Declared :=
  ⟨familyScope family, "static constexpr uint32_t", "frequency_hz",
    s!"static constexpr uint32_t frequency_hz = {timing.frequency};"⟩

def familyDeclared (board : Resolved) (family : Family) : List Declared :=
  match board.banksFor family with
  | [] => []
  | banks =>
    let timing := board.timings.of family
    ⟨bodyScope, "namespace", familySpace family, s!"namespace {familySpace family} \x7b"⟩ ::
      rateDeclared family timing :: banks.flatMap (bankDeclared family timing)

theorem outline_channelItem {family : Family} {timing : Timing} {target : Instance}
    (placement : Placement) :
    Outline (bankScope family target) (channelItem? family timing placement).toList
      (channelAt family timing target placement).toList := by
  unfold channelItem? channelAt
  cases placement.entry with
  | none => exact .nil
  | some entry =>
      have phrase : Phrase "static constexpr Channel" := by decide
      have word : IsWord (familyVariable family ++ toString placement.id.index) :=
        isWord_numbered (by cases family <;> decide) placement.id.index
      have line := introduces phrase word " = " (by decide)
      have shown : "static constexpr Channel" ++ " " ++
          (familyVariable family ++ toString placement.id.index) ++ " = " =
          "static constexpr Channel " ++ familyVariable family ++ toString placement.id.index ++
            " = " := by
        simp only [← String.append_assoc]
        rfl
      rw [shown] at line
      refine .line ((line.append _).append _) ?_ .nil
      rw [← String.append_assoc]
      exact opensBlock_append_word entry.isWord_label _

theorem introduces_bank (target : Instance) :
    Introduces "namespace" (target.name ++ "_Bank")
      ("namespace " ++ target.name ++ "_Bank \x7b") := by
  have word : IsWord (target.name ++ "_Bank") := target.isWord.append (by decide)
  have shown : "namespace" ++ " " ++ (target.name ++ "_Bank") ++ " \x7b" =
      "namespace " ++ target.name ++ "_Bank \x7b" := by
    have first : "namespace " = "namespace" ++ " " := rfl
    have last : "_Bank \x7b" = "_Bank" ++ " \x7b" := rfl
    rw [first, last]
    simp only [String.append_assoc]
  rw [← shown]
  exact introduces (by decide) word " \x7b" (by decide)

theorem outline_channelType {items : List Item} {told : List Declared}
    (rest : Outline scope items told) :
    Outline scope (channelType :: items)
      (⟨scope, "struct", "Channel", "struct Channel \x7b"⟩ :: told) :=
  .block (by decide) (by decide) (by decide) (.remark (by decide) (.remark (by decide)
    (.remark (by decide) (.remark (by decide) .nil)))) rest

theorem outline_bankItems (family : Family) (timing : Timing) (bank : Bank) :
    Outline (familyScope family) (bankItems family timing bank)
      (bankDeclared family timing bank) := by
  have timer : Introduces "static inline TIM_TypeDef* const" "timer"
      ("static inline TIM_TypeDef* const timer = " ++ bank.target.name ++ ";") :=
    ((by decide : Introduces "static inline TIM_TypeDef* const" "timer"
      "static inline TIM_TypeDef* const timer = ").append bank.target.name).append ";"
  have channels : Outline (bankScope family bank.target)
      ((bank.channelsOf family).filterMap (channelItem? family timing))
      ((bank.channelsOf family).filterMap (channelAt family timing bank.target)) := by
    rw [List.filterMap_eq_flatMap_toList, List.filterMap_eq_flatMap_toList]
    exact .flatMap fun placement _ => outline_channelItem placement
  have inside := Outline.line timer (opensBlock_append (by decide) _)
    (.gap (outline_channelType (.gap channels)))
  have comment : Remark ("// " ++ bank.target.name ++ " Bank: " ++ familyPlural family ++ " ") :=
    ((remark_title bank.target " Bank: ").append (familyPlural family)).append " "
  exact .remark (comment.append _) (.enclosed (introduces_bank bank.target)
    (opensBlock_append (by decide) _) (by decide) inside (.gap .nil))

theorem outline_familyItems (family : Family) :
    Outline bodyScope (familyItems board family) (familyDeclared board family) := by
  unfold familyItems familyDeclared
  cases board.banksFor family with
  | nil => exact .omissions board _
  | cons bank rest =>
      have title : Remark ("// " ++ familyPlural family ++ ": ") :=
        ((by decide : Remark "// ").append (familyPlural family)).append ": "
      have opening : Introduces "namespace" (familySpace family)
          ("namespace " ++ familySpace family ++ " \x7b") := by
        cases family <;> decide
      have opens : opensBlock ("namespace " ++ familySpace family ++ " \x7b") = true :=
        opensBlock_append (by decide) _
      have rate : Introduces "static constexpr uint32_t" "frequency_hz"
          ("static constexpr uint32_t frequency_hz = " ++
            toString (board.timings.of family).frequency ++ ";") :=
        ((by decide : Introduces "static constexpr uint32_t" "frequency_hz"
          "static constexpr uint32_t frequency_hz = ").append _).append ";"
      have banks : Outline (familyScope family)
          ((bank :: rest).flatMap (bankItems family (board.timings.of family)))
          ((bank :: rest).flatMap (bankDeclared family (board.timings.of family))) :=
        .flatMap fun bank _ => outline_bankItems family _ bank
      have inside := (Outline.line rate (opensBlock_append (by decide) _)
        (.gap (.omissions board (.output family)))).append banks
      exact .remark ((title.append _).append " protocol")
        (.enclosed opening opens (by decide) inside (.gap .nil))

/-! ## Whole headers -/

def busesDeclared (board : Resolved) (options : Options) : List Declared :=
  storageDeclared board options ++ motionDeclared board options ++ i2cDeclared board options ++
    uartDeclared board options ++ spiDeclared board options

def inputsDeclared (board : Resolved) : List Declared :=
  batteryDeclared board ++ strengthDeclared board ++ lightDeclared board ++ beeperDeclared board

def outputsDeclared (board : Resolved) : List Declared :=
  familyDeclared board .servo ++ familyDeclared board .motor ++ familyDeclared board .ledStrip

def documentDeclared (board : Resolved) (options : Options) : List Declared :=
  ⟨[], "namespace", "BoardConfig", "namespace BoardConfig \x7b"⟩ ::
    (busesDeclared board options ++ inputsDeclared board ++ outputsDeclared board)

theorem outline_bodyItems :
    Outline bodyScope (bodyItems board options)
      (busesDeclared board options ++ inputsDeclared board ++ outputsDeclared board) := by
  have buses : Outline bodyScope _ (busesDeclared board options) :=
    (((outline_storageItems.append outline_motionItems).append outline_i2cItems).append
      outline_uartItems).append outline_spiItems
  have inputs : Outline bodyScope _ (inputsDeclared board) :=
    (outline_analogItems.append outline_lightItems).append outline_beeperItems
  have outputs : Outline bodyScope _ (outputsDeclared board) :=
    ((outline_familyItems .servo).append (outline_familyItems .motor)).append
      (outline_familyItems .ledStrip)
  have whole := (buses.append inputs).append outputs
  simp only [← List.append_assoc] at whole
  exact whole

theorem outline_optionalLine {title : String} (remark : Remark title) (value : Option String) :
    Outline scope (optionalLine title value) [] := by
  cases value with
  | none => exact .nil
  | some value => exact .remark (remark.append value) .nil

theorem outline_listLine {title : String} (remark : Remark title) (values : List String) :
    Outline scope (listLine title values) [] := by
  cases values with
  | nil => exact .nil
  | cons value rest => exact .remark (remark.append _) .nil

theorem outline_noticeItems : Outline scope (noticeItems options) [] := by
  have opening : Outline scope
      [.line "/*", .line " * Auto-generated BoardConfig from Betaflight unified target"] [] :=
    .remark (by decide) (.remark (by decide) .nil)
  have closing : Outline scope
      [.line s!" * Generator: {generator}", .line " */", .gap, .line "#pragma once", .gap,
        .line "#include \"ConfigTypes.h\"", .gap] [] :=
    .remark (by decide) (.remark (by decide) (.gap (.remark (by decide) (.gap
      (.remark (by decide) (.gap .nil))))))
  exact ((opening.append (outline_optionalLine (by decide) options.source)).append
    (outline_optionalLine (by decide) _)).append closing

theorem outline_descriptionItems : Outline scope (descriptionItems board) [] :=
  ((((outline_optionalLine (by decide) _).append (outline_optionalLine (by decide) _)).append
    (.remark ((by decide : Remark "// MCU: ").append board.mcu) .nil)).append
    (outline_listLine (by decide) _)).append (outline_listLine (by decide) _)

theorem outline_restItems : Outline scope (restItems board.definition) [] := by
  have remarks (texts : List String) :
      Outline scope (texts.map fun text => .line ("//   " ++ text)) [] := by
    induction texts with
    | nil => exact .nil
    | cons text rest ih => exact .remark ((by decide : Remark "//   ").append text) ih
  unfold restItems
  cases restTexts board.definition with
  | nil => exact .nil
  | cons text rest => exact .gap (.remark (by decide) (remarks (text :: rest)))

theorem outline_spaceItems :
    Outline [] [.block "namespace BoardConfig \x7b" (bodyItems board options) "\x7d"]
      (documentDeclared board options) :=
  .enclosed (by decide) (by decide) (by decide) outline_bodyItems .nil

theorem outline_keptItems :
    Outline scope (if options.keepRest then restItems board.definition else []) [] := by
  split
  · exact outline_restItems
  · exact .nil

theorem outline_document :
    Outline [] (document board options) (documentDeclared board options) := by
  have whole : Outline [] (document board options) (documentDeclared board options ++ []) :=
    ((outline_noticeItems.append outline_descriptionItems).append outline_spaceItems).append
      outline_keptItems
  rwa [List.append_nil] at whole

/-- Where nothing that the caller gives breaks a line, the reader finds in the text of a header
what the sections declare. -/
theorem declarations_generate (fromText : board.definition.FromText)
    (source : ∀ name, options.source = some name → '\n' ∉ name.toList)
    (named : '\n' ∉ board.mcu.toList) :
    declarations (generate board options) = documentDeclared board options :=
  outline_document.declarations_eq (single_of_mem_document fromText source named)

/-! ## Names with line feeds -/

/-- The name of the source stands on the third line. -/
theorem document_source (board : Resolved) (options : Options) (name : String) :
    ∃ back : List Item,
      document board { options with source := none } =
        [.line "/*", .line " * Auto-generated BoardConfig from Betaflight unified target"] ++
          back ∧
      document board { options with source := some name } =
        [.line "/*", .line " * Auto-generated BoardConfig from Betaflight unified target"] ++
          ([.line (" * Source: " ++ name)] ++ back) := by
  simp only [document, noticeItems, optionalLine, List.append_assoc, List.nil_append]
  exact ⟨_, rfl, rfl⟩

/-- A name that ends the comment it stands in, says something else, and opens another. -/
def breakingName (text : String) : String :=
  "quad */\n" ++ text ++ "\n/*"

theorem bareLines_breakingName {text : String} (flush : Flush text) (single : '\n' ∉ text.toList) :
    bareLines (" * Source: " ++ breakingName text) = ["* Source: quad */", text, "/*"] := by
  have shown : (" * Source: " ++ breakingName text).toList =
      " * Source: quad */".toList ++ '\n' :: (text.toList ++ '\n' :: "/*".toList) := by
    unfold breakingName
    simp only [String.toList_append, List.append_assoc]
    rfl
  rw [bareLines, shown, textLines, List.splitOn_append_cons_self, List.splitOn_append_cons_self,
    List.splitOn_eq_singleton single, List.map_append, List.map_append, List.map_singleton,
    flush.bareLine_eq]
  rfl

/-- With such a name a header declares what the name says, and then what the board does. -/
theorem declarations_breakingName (fromText : board.definition.FromText)
    (named : '\n' ∉ board.mcu.toList) {kind name text : String}
    (introduced : Introduces kind name text) (level : opensBlock text = false)
    (single : '\n' ∉ text.toList) :
    declarations (generate board { options with source := some (breakingName text) }) =
      ⟨[], kind, name, text⟩ :: documentDeclared board options := by
  obtain ⟨back, plain, broken⟩ := document_source board options (breakingName text)
  have whole : declarations (generate board { options with source := none }) =
      documentDeclared board options :=
    declarations_generate fromText (fun _ given => nomatch given) named
  have opening (rest : List String) : scoping [] ((contentsOf [.line "/*",
      .line " * Auto-generated BoardConfig from Betaflight unified target"]).flatMap bareLines ++
        rest) = scoping [] rest := by
    have remarks : Outline [] [.line "/*",
        .line " * Auto-generated BoardConfig from Betaflight unified target"] [] :=
      .remark (by decide) (.remark (by decide) .nil)
    rw [flatMap_bareLines_of_single (by decide)]
    exact remarks.scoping_contents rest
  have speaking (rest : List String) :
      scoping [] (["* Source: quad */", text, "/*"] ++ rest) =
        ⟨[], kind, name, text⟩ :: scoping [] rest := by
    have outline : Outline [] [.line "* Source: quad */", .line text, .line "/*"]
        [⟨[], kind, name, text⟩] :=
      .remark (by decide) (.line introduced level (.remark (by decide) .nil))
    have told := outline.scoping_contents rest
    simp only [contentsOf, Item.contents, List.append_nil, List.singleton_append, List.map_cons,
      introduced.flush.bareLine_eq] at told
    exact told
  rw [generate, declarations_render, plain, contentsOf_append, List.flatMap_append, opening]
    at whole
  rw [generate, declarations_render, broken, contentsOf_append, contentsOf_append,
    List.flatMap_append, List.flatMap_append, opening, contentsOf, Item.contents, contentsOf,
    List.append_nil, List.flatMap_singleton, bareLines_breakingName introduced.flush single,
    speaking, whole]

end Pinout.Header
