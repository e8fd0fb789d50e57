import Pinout.Proofs.Header.Comments

/-! The code of a header. Behind the comment at its head, directives and the description, the block
around the sections is code and comments of one line each, so that a reader of the code finds what
the sections declare. The description is comments; the last of them may go on to the opening of the
block, and then the sections declare the same outside of all blocks. -/

set_option autoImplicit false

namespace Pinout.Header

open Resolution (Bank Bus Placement Resolved)
open Text (IsWord Without)

variable {board : Resolved} {options : Options} {items : List Item}

/-! ## Lines -/

theorem comment_title (target : Instance) (use : String) :
    Comment ("// " ++ target.name ++ use) :=
  ((by decide : Comment "// ").append target.name).append use

theorem silent_of_isWord {text : String} (word : IsWord text) : Silent text :=
  word.without (by decide)

theorem silent_toString (value : Nat) : Silent (toString value) :=
  silent_of_isWord (Text.isWord_toString value)

theorem silent_index (index : UInt8) : Silent (toString index) :=
  silent_toString index.toNat

theorem silent_pinName (placement : Option Placement) : Silent (pinName placement) :=
  silent_of_isWord (isWord_pinName placement)

theorem silent_signalPin (bus : Bus) (signal : Signal) : Silent (signalPin bus signal) :=
  silent_pinName _

theorem silent_pinOrZero (placement : Option Placement) : Silent (pinOrZero placement) :=
  silent_of_isWord (isWord_pinOrZero placement)

theorem silent_spiPins (bus : Bus) : ∀ value ∈ spiPins bus, Silent value := by
  simp [spiPins, silent_signalPin]

theorem silent_declaration {type name : String} {values : List String}
    (opens : Silent ("static constexpr " ++ type ++ " " ++ name))
    (silent : ∀ value ∈ values, Silent value) : Silent (declaration type name values) :=
  (opens.append (without_braced (by decide) silent)).append (by decide)

theorem Throughout.comment {text : String} (comment : Comment text)
    (rest : Throughout Coded items) : Throughout Coded (.line text :: items) :=
  .line (.comment comment) rest

theorem Throughout.code {text : String} (silent : Silent text) (rest : Throughout Coded items) :
    Throughout Coded (.line text :: items) :=
  .line (.code silent) rest

theorem Throughout.enclosed {opening closing : String} {body : List Item} (opens : Silent opening)
    (inside : Throughout Coded body) (closes : Silent closing) (rest : Throughout Coded items) :
    Throughout Coded (.block opening body closing :: items) :=
  .block (.code opens) inside (.code closes) rest

/-- What is set is labelled behind its semicolon. -/
theorem coded_labelled {front label : String} (silent : Silent front)
    (level : opensBlock (front ++ ";  // " ++ label) = false) :
    Coded (front ++ ";  // " ++ label) := by
  have shown : front ++ ";  // " ++ label = front ++ ";  " ++ "//" ++ (" " ++ label) := by
    simp only [String.append_assoc]
    rfl
  have marked : (front ++ ";  ").toList.any settingMarks.contains = true := by
    rw [String.toList_append, List.any_append, Bool.or_eq_true]
    exact .inr (by decide)
  rw [shown] at level ⊢
  exact .noted (silent.append (by decide)) marked (opensBlock_append (by decide) _) level

theorem coded_omissions (resource : Resource) : Throughout Coded (omissions board resource) := by
  have comments (indices : List UInt8) :
      Throughout Coded (indices.map fun index => .line (omission resource index)) := by
    induction indices with
    | nil => exact .nil
    | cons index rest ih =>
        exact .comment (((((by decide : Comment "// ").append resource.keyword).append " ").append
          (toString index)).append ": omitted (unresolved)") ih
  unfold omissions
  split
  · exact .nil
  · exact (comments _).append (.gap .nil)

/-! ## Sections -/

theorem silent_storage {storage : Storage} (found : storage? board = some storage) (bus : Bus) :
    Silent (declaration "StorageConfig" "storage" (storageValues options storage bus)) := by
  have backend : Silent storage.backend := by
    rcases storage?_cases found with ⟨select, rfl⟩ | ⟨select, rfl⟩
    · exact (by decide : Silent "LITTLEFS")
    · exact (by decide : Silent "SDFS")
  refine silent_declaration (by decide) ?_
  simp only [storageValues, List.cons_append, List.forall_mem_cons, List.forall_mem_append]
  exact ⟨(by decide : Silent "StorageBackend::").append backend, silent_spiPins bus,
    silent_pinName _, silent_toString _, List.forall_mem_nil _⟩

theorem silent_motionBus (select : Placement) (bus : Bus) :
    Silent (declaration "SPIConfig" "imu_spi" (motionBusValues options select bus)) := by
  refine silent_declaration (by decide) ?_
  simp only [motionBusValues, List.forall_mem_append, List.forall_mem_cons]
  exact ⟨silent_spiPins bus, silent_pinName _, silent_toString _, by decide,
    List.forall_mem_nil _⟩

theorem silent_motion :
    Silent (declaration "IMUConfig" "imu" (motionValues board options)) := by
  refine silent_declaration (by decide) ?_
  simp only [motionValues, List.forall_mem_cons]
  exact ⟨by decide, silent_pinOrZero _, silent_toString _, List.forall_mem_nil _⟩

theorem coded_storageItems : Throughout Coded (storageItems board options) := by
  intro content member
  obtain ⟨storage, found, ⟨_, rfl⟩ | ⟨bus, _, rfl | rfl⟩⟩ := mem_storageItems_iff.mp member
  · exact .comment (((by decide : Comment "// Storage: omitted (SPI bus ").append
      (toString storage.bus)).append " unresolved)")
  · exact .comment ((((by decide : Comment "// Storage: ").append storage.label).append
      " on ").append bus.target.name)
  · exact .code (silent_storage found bus)

theorem coded_motionItems : Throughout Coded (motionItems board options) := by
  intro content member
  obtain ⟨select, _, ⟨_, rfl⟩ | ⟨bus, _, rfl | rfl | rfl⟩⟩ := mem_motionItems_iff.mp member
  · exact .comment (((by decide : Comment "// IMU: omitted (SPI bus ").append
      (toString (motionIndex board))).append " unresolved)")
  · exact .comment ((((by decide : Comment "// IMU: ").append
      (motionLabel board.definition)).append " on ").append bus.target.name)
  · exact .code (silent_motionBus select bus)
  · exact .code silent_motion

theorem silent_i2c (only : Bool) (bus : Bus) :
    Silent (declaration "I2CConfig" (i2cName only bus)
      [signalPin bus .i2cSda, signalPin bus .i2cScl, toString options.i2cClock]) := by
  have opens : Silent ("static constexpr " ++ "I2CConfig" ++ " ") := by decide
  have name : Silent (i2cName only bus) := by
    cases only with
    | true => exact (by decide : Silent "sensors")
    | false => exact (by decide : Silent "i2c").append (silent_index bus.index)
  refine silent_declaration (opens.append name) ?_
  simp only [List.forall_mem_cons]
  exact ⟨silent_signalPin bus _, silent_signalPin bus _, silent_toString _, List.forall_mem_nil _⟩

theorem coded_i2cItem (only : Bool) (bus : Bus) : Throughout Coded (i2cItem only options bus) := by
  have silent := @silent_i2c options only bus
  cases only with
  | true => exact .comment ((comment_title bus.target ": ").append _) (.code silent (.gap .nil))
  | false => exact .comment ((comment_title bus.target ": ").append _) (.code silent (.gap .nil))

theorem silent_uart (bus : Bus) :
    Silent (declaration "UARTConfig" s!"uart{bus.index}"
      [signalPin bus .uartTx, signalPin bus .uartRx, toString options.baudRate]) := by
  have opens : Silent ("static constexpr " ++ "UARTConfig" ++ " ") := by decide
  refine silent_declaration
    (opens.append ((by decide : Silent "uart").append (silent_index bus.index))) ?_
  simp only [List.forall_mem_cons]
  exact ⟨silent_signalPin bus _, silent_signalPin bus _, silent_toString _, List.forall_mem_nil _⟩

theorem coded_uartItem (bus : Bus) : Throughout Coded (uartItem options bus) :=
  .comment (comment_title bus.target _) (.code (silent_uart bus) (.gap .nil))

theorem silent_spi (bus : Bus) :
    Silent (declaration "SPIConfig" (freeName board bus) (freeValues board options bus)) := by
  have opens : Silent ("static constexpr " ++ "SPIConfig" ++ " ") := by decide
  unfold freeName freeValues
  cases displaySelect? board bus with
  | none =>
      refine silent_declaration
        (opens.append ((by decide : Silent "spi").append (silent_index bus.index))) ?_
      simp only [List.forall_mem_append, List.forall_mem_cons]
      exact ⟨silent_spiPins bus, by decide, silent_toString _, List.forall_mem_nil _⟩
  | some select =>
      refine silent_declaration (opens.append (by decide : Silent "osd_spi")) ?_
      simp only [List.forall_mem_append, List.forall_mem_cons]
      exact ⟨silent_spiPins bus, silent_pinName _, silent_toString _, by decide,
        List.forall_mem_nil _⟩

theorem coded_spiItem (bus : Bus) : Throughout Coded (spiItem board options bus) := by
  have silent := @silent_spi board options bus
  unfold freeName freeValues at silent
  unfold spiItem
  split
  · rename_i select shown
    rw [shown] at silent
    exact .comment (comment_title bus.target _) (.code silent (.gap .nil))
  · rename_i shown
    rw [shown] at silent
    exact .comment (comment_title bus.target _) (.code silent (.gap .nil))

theorem coded_batteryItems : Throughout Coded (batteryItems board) := by
  unfold batteryItems
  dsimp only
  split
  · exact .nil
  · refine .comment (by decide) (.code (silent_declaration (by decide) ?_) (.gap .nil))
    simp only [List.forall_mem_cons]
    exact ⟨silent_pinOrZero _, silent_pinOrZero _,
      silent_toString _, silent_toString _, List.forall_mem_nil _⟩

/-- The label behind the input is the only comment behind a constant outside of the banks. -/
theorem coded_strengthItems : Throughout Coded (strengthItems board) := by
  unfold strengthItems
  split
  · exact .nil
  · rename_i input _
    have pin : Silent ("static constexpr uint32_t rssi_pin = " ++ input.variant.name) :=
      (by decide : Silent "static constexpr uint32_t rssi_pin = ").append
        (silent_of_isWord input.variant.isWord_name)
    refine .comment (by decide) (.line (coded_labelled pin ?_) (.gap .nil))
    split
    · exact opensBlock_append_word (Capability.Entry.isWord_label _) _
    · exact (congrArg opensBlock String.append_empty).trans (opensBlock_append (by decide) _)

theorem coded_lightItems : Throughout Coded (lightItems board) := by
  unfold lightItems
  split
  · exact .nil
  · refine .comment (by decide) (.code (silent_declaration (by decide) ?_) (.gap .nil))
    intro value member
    obtain ⟨light, _, rfl⟩ := List.mem_map.mp member
    exact silent_of_isWord light.variant.isWord_name

theorem coded_beeperItems : Throughout Coded (beeperItems board) := by
  unfold beeperItems
  split
  · exact .nil
  · rename_i beeper _
    have pin : Silent ("static constexpr uint32_t beeper_pin = " ++ beeper.variant.name ++ ";") :=
      ((by decide : Silent "static constexpr uint32_t beeper_pin = ").append
        (silent_of_isWord beeper.variant.isWord_name)).append (by decide)
    have polarity : ∀ inverted : Bool, Silent
        ("static constexpr bool beeper_inverted = " ++ toString inverted ++ ";") := by decide
    dsimp only
    split
    · exact .comment (by decide) (.code pin (.gap .nil))
    · exact .comment (by decide) (.code pin (.code (polarity _) (.gap .nil)))

/-! ## Outputs -/

theorem coded_channelItem (family : Family) (timing : Timing) (placement : Placement) :
    Throughout Coded (channelItem? family timing placement).toList := by
  unfold channelItem?
  cases placement.entry with
  | none => exact .nil
  | some entry =>
      have opens : Silent ("static constexpr Channel " ++ familyVariable family) := by
        cases family <;> decide
      have values : ∀ value ∈ [placement.variant.name, toString (entry.timerChannel?.getD 0),
          toString timing.minPulse, toString timing.maxPulse], Silent value := by
        simp only [List.forall_mem_cons]
        exact ⟨silent_of_isWord placement.variant.isWord_name, silent_index _, silent_toString _,
          silent_toString _, List.forall_mem_nil _⟩
      have front := ((opens.append (silent_index placement.id.index)).append
        (by decide : Silent " = ")).append (without_braced (by decide) values)
      have whole := @coded_labelled _ entry.label front
        (opensBlock_append_word entry.isWord_label _)
      rw [String.append_assoc] at whole
      exact .line whole .nil

theorem coded_channelType (rest : Throughout Coded items) :
    Throughout Coded (channelType :: items) :=
  .enclosed (by decide) (.code (by decide) (.code (by decide) (.code (by decide)
    (.code (by decide) .nil)))) (by decide) rest

theorem coded_bankItems (family : Family) (timing : Timing) (bank : Bank) :
    Throughout Coded (bankItems family timing bank) := by
  have title : Comment ("// " ++ bank.target.name ++ " Bank: " ++ familyPlural family ++ " ") :=
    ((comment_title bank.target " Bank: ").append (familyPlural family)).append " "
  have target : Silent bank.target.name := silent_of_isWord bank.target.isWord
  have opening : Silent ("namespace " ++ bank.target.name ++ "_Bank \x7b") :=
    ((by decide : Silent "namespace ").append target).append (by decide)
  have timer : Silent ("static inline TIM_TypeDef* const timer = " ++ bank.target.name ++ ";") :=
    ((by decide : Silent "static inline TIM_TypeDef* const timer = ").append target).append
      (by decide)
  have channels : Throughout Coded
      ((bank.channelsOf family).filterMap (channelItem? family timing)) := by
    rw [List.filterMap_eq_flatMap_toList]
    exact .flatMap fun placement _ => coded_channelItem family timing placement
  exact .comment (title.append _) (.enclosed opening
    (.code timer (.gap (coded_channelType (.gap channels)))) (by decide) (.gap .nil))

theorem coded_familyItems (family : Family) : Throughout Coded (familyItems board family) := by
  unfold familyItems
  dsimp only
  split
  · exact coded_omissions _
  · have title : Comment ("// " ++ familyPlural family ++ ": ") :=
      ((by decide : Comment "// ").append (familyPlural family)).append ": "
    have opening : Silent ("namespace " ++ familySpace family ++ " \x7b") := by
      cases family <;> decide
    have rate : Silent ("static constexpr uint32_t frequency_hz = " ++
        toString (board.timings.of family).frequency ++ ";") :=
      ((by decide : Silent "static constexpr uint32_t frequency_hz = ").append
        (silent_toString _)).append (by decide)
    refine .comment ((title.append _).append " protocol")
      (.enclosed opening (.append (.append (.code rate (.gap .nil)) ?_) ?_) (by decide) (.gap .nil))
    · exact coded_omissions _
    · exact .flatMap fun bank _ => coded_bankItems family _ bank

/-! ## The block around the sections -/

theorem coded_bodyItems : Throughout Coded (bodyItems board options) := by
  have i2c : Throughout Coded (i2cItems board options) :=
    ((coded_omissions _).append (coded_omissions _)).append
      (.flatMap fun bus _ => coded_i2cItem _ bus)
  have uart : Throughout Coded (uartItems board options) :=
    ((coded_omissions _).append (coded_omissions _)).append
      (.flatMap fun bus _ => coded_uartItem bus)
  have spi : Throughout Coded (spiItems board options) :=
    (((coded_omissions _).append (coded_omissions _)).append (coded_omissions _)).append
      (.flatMap fun bus _ => coded_spiItem bus)
  have analog : Throughout Coded (analogItems board) :=
    ((((coded_omissions _).append (coded_omissions _)).append (coded_omissions _)).append
      coded_batteryItems).append coded_strengthItems
  have devices : Throughout Coded (storageItems board options ++ motionItems board options) :=
    coded_storageItems.append coded_motionItems
  have buses := ((devices.append i2c).append uart).append spi
  have light : Throughout Coded (lightItems board) := coded_lightItems
  have beeper : Throughout Coded (beeperItems board) := coded_beeperItems
  have inputs := ((buses.append analog).append light).append beeper
  exact ((inputs.append (coded_familyItems .servo)).append (coded_familyItems .motor)).append
    (coded_familyItems .ledStrip)

theorem intact_of_plain {content : String} (plain : Plain content) : Intact content :=
  intact_of_without (plain.of_fewer (by decide))

/-- What a header says itself is not joined to the next line. -/
theorem intact_of_voice {content : String} (fromText : board.definition.FromText)
    (voice : Voice board options content) : Intact content := by
  have numbered (index : UInt8) : Without ['\n', '\r', '\\'] (toString index) :=
    (plain_index index).of_fewer (by decide)
  cases voice with
  | worded said => exact intact_of_plain said.plain
  | @omitted id _ modeled =>
      have opening : Without ['\n', '\r', '\\'] "// " := by decide
      have keyword := opening.append ((Resource.isWord_keyword modeled).without (by decide))
      exact intact_of_without (((keyword.append (by decide)).append (numbered id.index)).append
        (by decide))
  | storage member =>
      obtain ⟨storage, found, ⟨_, rfl⟩ | ⟨bus, _, rfl | rfl⟩⟩ := mem_storageItems_iff.mp member
      · have opening : Without ['\n', '\r', '\\'] "// Storage: omitted (SPI bus " := by decide
        exact intact_of_without ((opening.append (numbered storage.bus)).append (by decide))
      · exact intact_append_word (level_storageTitle fromText found) bus.target.isWord
      · exact intact_of_plain (plain_declaration (by decide) (plain_storageValues found bus))
  | motion member =>
      obtain ⟨select, _, ⟨_, rfl⟩ | ⟨bus, _, rfl | rfl | rfl⟩⟩ := mem_motionItems_iff.mp member
      · have opening : Without ['\n', '\r', '\\'] "// IMU: omitted (SPI bus " := by decide
        exact intact_of_without ((opening.append (numbered (motionIndex board))).append (by decide))
      · exact intact_append_word (level_motionTitle fromText) bus.target.isWord
      · exact intact_of_plain (plain_declaration (by decide) (plain_motionBusValues select bus))
      · exact intact_of_plain (plain_declaration (by decide) plain_motionValues)

def spaceItem (board : Resolved) (options : Options) : Item :=
  .block "namespace BoardConfig \x7b" (bodyItems board options) "\x7d"

theorem coded_spaceItem : Throughout Coded [spaceItem board options] :=
  .enclosed (by decide) coded_bodyItems (by decide) .nil

/-- The lines of the block behind its opening. -/
def blockLines (board : Resolved) (options : Options) : List String :=
  linesOf .fresh (rowsOf 1 (bodyItems board options) ++ [.closing 0 "\x7d"])

section Block

variable {content : String} (fromText : board.definition.FromText)

include fromText

theorem voiced_spaceItem : Throughout (fun content => Level content ∧ Intact content)
    [spaceItem board options] := by
  have body : Throughout (fun content => Level content ∧ Intact content)
      (bodyItems board options) := fun content member =>
    have voice := voiced_bodyItems board options content member
    ⟨level_of_voice fromText voice, intact_of_voice fromText voice⟩
  exact .block (by decide) body (by decide) .nil

theorem stands_spaceItem : Throughout (fun content => Stands content (codeOf content))
    [spaceItem board options] := fun content member =>
  (coded_spaceItem content member).stands (voiced_spaceItem fromText content member).1.single

theorem separate_spaceItem : Throughout Separate [spaceItem board options] :=
  fun content member => {
    intact := (voiced_spaceItem fromText content member).2
    single := (voiced_spaceItem fromText content member).1.single
    strips := (stands_spaceItem fromText content member).strips }

theorem separate_blockLines : ∀ line ∈ blockLines board options, Separate line := by
  refine forall_mem_linesOf separate_empty (fun content member => ?_) _
  rw [written_append, List.map_append, map_written_rowsOf] at member
  have inside : content ∈ contentsOf [spaceItem board options] :=
    List.mem_cons_of_mem _ (List.mem_append_left _ member)
  exact (separate_spaceItem fromText content inside).indented

end Block

/-! ## Comments around the block -/

/-- What the caller and the board have in the comments behind the head is one line for each. -/
structure Contained (board : Resolved) (options : Options) : Prop where
  fromText : board.definition.FromText
  mcu : Level board.mcu
  kept : options.keepRest = true → ∀ kept ∈ board.definition.verbatim, Level kept.text

/-- The lines that describe the board. -/
def describedLines (board : Resolved) : List String :=
  contentsOf (descriptionItems board)

/-- The lines of what is not translated. -/
def keptLines (board : Resolved) (options : Options) : List String :=
  if options.keepRest then linesOf .filled (rowsOf 0 (restItems board.definition)) else []

theorem comment_described : ∀ line ∈ describedLines board, Comment line := by
  intro line member
  rcases mem_descriptionItems_iff.mp member with
    ⟨name, _, rfl⟩ | ⟨name, _, rfl⟩ | rfl | ⟨_, rfl⟩ | ⟨_, rfl⟩
  · exact (by decide : Comment "// Board: ").append name
  · exact (by decide : Comment "// Manufacturer: ").append name
  · exact (by decide : Comment "// MCU: ").append board.mcu
  · exact (by decide : Comment "// Gyro: ").append _
  · exact (by decide : Comment "// Features: ").append _

theorem Contained.level_described (contained : Contained board options) :
    ∀ line ∈ describedLines board, Level line := by
  have fromText := contained.fromText
  intro line member
  rcases mem_descriptionItems_iff.mp member with
    ⟨name, given, rfl⟩ | ⟨name, given, rfl⟩ | rfl | ⟨_, rfl⟩ | ⟨_, rfl⟩
  · exact (by decide : Level "// Board: ").append (level_of_solid (fromText.boardName _ given))
  · exact (by decide : Level "// Manufacturer: ").append
      (level_of_solid (fromText.manufacturer _ given))
  · exact (by decide : Level "// MCU: ").append contained.mcu
  · exact (by decide : Level "// Gyro: ").append
      (Without.intercalate (by decide) (level_gyroChips fromText))
  · exact (by decide : Level "// Features: ").append
      (Without.intercalate (by decide) (level_features fromText))

theorem linesOf_restItems (definition : Board.Definition) :
    linesOf .filled (rowsOf 0 (restItems definition)) =
      match restTexts definition with
      | [] => []
      | texts => "" :: "// Not translated (kept for reference):" :: texts.map ("//   " ++ ·) := by
  unfold restItems
  cases restTexts definition with
  | nil => rfl
  | cons text texts =>
      have shown := linesOf_waiting_texts (List.cons_ne_nil
        "// Not translated (kept for reference):" ((text :: texts).map ("//   " ++ ·))) []
      have nothing : linesOf .filled (rowsOf 0 []) = [] := rfl
      rw [nothing, List.append_nil, List.append_nil, List.map_cons, List.map_map] at shown
      exact shown

theorem comment_kept : ∀ line ∈ keptLines board options, line = "" ∨ Comment line := by
  unfold keptLines
  rw [linesOf_restItems]
  split
  · split
    · exact List.forall_mem_nil _
    · simp only [List.forall_mem_cons, List.forall_mem_map]
      exact ⟨.inl trivial, .inr (by decide), fun text _ =>
        .inr ((by decide : Comment "//   ").append text)⟩
  · exact List.forall_mem_nil _

theorem Contained.level_kept (contained : Contained board options) :
    ∀ line ∈ keptLines board options, Level line := by
  unfold keptLines
  rw [linesOf_restItems]
  split
  · rename_i keeps
    split
    · exact List.forall_mem_nil _
    · simp only [List.forall_mem_cons, List.forall_mem_map]
      refine ⟨by decide, by decide, fun text member => (by decide : Level "//   ").append ?_⟩
      rcases restTexts_cases contained.fromText member with plain | ⟨kept, inside, rfl⟩
      · exact level_of_plain plain
      · exact contained.kept keeps kept inside
  · exact List.forall_mem_nil _

/-! ## Whole headers -/

def noticeTitle : String :=
  " * Auto-generated BoardConfig from Betaflight unified target"

/-- The lines of the comment at the head behind the name of the source. -/
def noticeRest (options : Options) : List String :=
  (options.digest.map Digest.hex).toList.map (" * Source digest: sha256:" ++ ·) ++
    [s!" * Generator: {generator}"]

/-- The lines within the comment at the head of a header. -/
def noticeTexts (options : Options) : List String :=
  [noticeTitle] ++
    options.source.toList.map (" * Source: " ++ ·) ++ noticeRest options

/-- The comment at the head of a header. -/
def noticeLines (options : Options) : List String :=
  "/*" :: (noticeTexts options ++ [" */"])

def directiveLines : List String :=
  ["", "#pragma once", "", "#include \"ConfigTypes.h\"", ""]

theorem optionalLine_eq_map (title : String) (value : Option String) :
    optionalLine title value = (value.toList.map (title ++ ·)).map .line := by
  cases value with
  | none => rfl
  | some text => rfl

theorem noticeItems_eq (options : Options) :
    noticeItems options = (noticeLines options).map .line ++ [.gap,
      .line "#pragma once", .gap, .line "#include \"ConfigTypes.h\"", .gap] := by
  rw [noticeItems, optionalLine_eq_map, optionalLine_eq_map, noticeLines, noticeTexts, noticeTitle,
    noticeRest]
  simp only [List.map_cons, List.map_append, List.map_nil, List.append_assoc, List.cons_append,
    List.nil_append]

theorem descriptionItems_eq (board : Resolved) :
    descriptionItems board = (describedLines board).map .line := by
  have optional (title : String) (value : Option String) : optionalLine title value =
      (contentsOf (optionalLine title value)).map .line := by
    cases value <;> rfl
  have listed (title : String) (values : List String) : listLine title values =
      (contentsOf (listLine title values)).map .line := by
    cases values <;> rfl
  simp only [describedLines, descriptionItems, contentsOf_append, List.map_append, ← optional,
    ← listed]
  rfl

theorem describedLines_ne_nil (board : Resolved) : describedLines board ≠ [] :=
  List.ne_nil_of_mem (mem_descriptionItems_iff.mpr (.inr (.inr (.inl rfl))))

/-- Behind the directives an empty line is owed. -/
theorem linesOf_directives (items : List Item) :
    linesOf .filled (rowsOf 0 ([.gap, .line "#pragma once", .gap,
        .line "#include \"ConfigTypes.h\"", .gap] ++ items)) =
      ["", "#pragma once", "", "#include \"ConfigTypes.h\""] ++
        linesOf .waiting (rowsOf 0 items) := by
  simp only [List.cons_append, List.nil_append, rowsOf, Item.rows, linesOf, Spacing.owed,
    indented_zero]

theorem linesOf_space (kept : List Item) :
    linesOf .filled (rowsOf 0 (spaceItem board options :: kept)) =
      "namespace BoardConfig \x7b" :: (blockLines board options ++
        linesOf .filled (rowsOf 0 kept)) := by
  rw [spaceItem, rowsOf, Item.rows, List.cons_append, List.append_assoc, List.singleton_append,
    linesOf, linesOf_closing, indented_zero, blockLines]
  rfl

/-- The text of a header: the comment at the head, the directives, the description, the block and
what is not translated. -/
theorem toList_generate (board : Resolved) (options : Options) :
    (generate board options).toList = textOf ((noticeLines options ++ directiveLines) ++
      (describedLines board ++ "namespace BoardConfig \x7b" ::
        (blockLines board options ++ keptLines board options))) := by
  have kept : linesOf .filled (rowsOf 0
      (if options.keepRest then restItems board.definition else [])) = keptLines board options := by
    unfold keptLines
    split <;> rfl
  have shown : lines (document board options) = (noticeLines options ++ directiveLines) ++
      (describedLines board ++ "namespace BoardConfig \x7b" ::
        (blockLines board options ++ keptLines board options)) := by
    rw [document, noticeItems_eq, descriptionItems_eq, List.append_assoc, List.append_assoc,
      List.append_assoc, noticeLines, lines_texts, linesOf_directives,
      linesOf_waiting_texts (describedLines_ne_nil board), ← spaceItem, List.singleton_append,
      linesOf_space, kept]
    simp [directiveLines]
  rw [generate, toList_render (by rw [shown]; exact List.cons_ne_nil _ _), shown]

/-! ## The comment at the head -/

theorem slashless_noticeRest (options : Options) :
    ∀ text ∈ noticeRest options, Without ['\n', '\r', '\\', '/'] text := by
  simp only [noticeRest, List.forall_mem_append, List.forall_mem_map, List.forall_mem_singleton]
  refine ⟨fun hex given => ?_, by decide⟩
  obtain ⟨bytes, _, rfl⟩ := Option.map_eq_some_iff.mp (Option.mem_toList.mp given)
  have title : Without ['\n', '\r', '\\', '/'] " * Source digest: sha256:" := by decide
  exact title.append (without_hex (by decide) bytes)

theorem logicalOf_noticeRest (options : Options) :
    logicalOf (textOf (noticeRest options)) = textOf (noticeRest options) :=
  logicalOf_textOf_of_intact fun text member =>
    intact_of_without ((slashless_noticeRest options text member).of_fewer (by decide))

theorem slash_not_mem_noticeRest (options : Options) : '/' ∉ textOf (noticeRest options) := by
  intro slash
  obtain ⟨text, member, inside⟩ := List.mem_flatMap.mp slash
  rcases List.mem_append.mp inside with within | feed
  · exact slashless_noticeRest options text member '/' within (by decide)
  · exact absurd feed (by decide)

theorem unended_noticeTexts
    (source : ∀ name, options.source = some name → Unended (logicalOf name.toList)) :
    Unended (logicalOf (textOf (noticeTexts options))) := by
  have title : Unended (logicalOf (textOf [noticeTitle])) := by decide
  have named : Unended (logicalOf (textOf ([noticeTitle] ++
      options.source.toList.map (" * Source: " ++ ·)))) := by
    cases given : options.source with
    | none => exact title
    | some name =>
        have front : Without ['\n', '\r', '\\'] " * Source: " := by decide
        have within : Unended (logicalOf (textOf [" * Source: " ++ name])) := by
          rw [logicalOf_textOf_cons, String.toList_append, List.append_assoc,
            logicalOf_append front, logicalOf_textOf_nil, List.append_nil]
          exact (Unended.of_not_mem (by decide)).append (source name given).feed
            fun star => absurd star (by decide)
        rw [textOf_append, logicalOf_textOf_append]
        exact title.append within fun star => absurd star (by decide)
  rw [noticeTexts, textOf_append, logicalOf_textOf_append, logicalOf_noticeRest]
  exact named.append_free (slash_not_mem_noticeRest options)

theorem separate_directive {line : String} (starts : "#".toList <+: line.toList)
    (single : Single line) (intact : Intact line) : Separate line where
  intact := intact
  single := single
  strips := ((Coded.directive starts).stands single).strips

theorem leaves_directives : Leaves directiveLines (List.replicate 5 "") := by
  have separate : ∀ line ∈ directiveLines, Separate line := by
    simp only [directiveLines, List.forall_mem_cons]
    exact ⟨separate_empty, separate_directive (by decide) (by decide) (by decide), separate_empty,
      separate_directive (by decide) (by decide) (by decide), separate_empty,
      List.forall_mem_nil _⟩
  have code : directiveLines.map codeOf = List.replicate 5 "" := by decide
  rw [← code]
  exact leaves_lines separate

theorem exists_leaves_notice
    (source : ∀ name, options.source = some name → Unended (logicalOf name.toList)) :
    ∃ count, Leaves (noticeLines options ++ directiveLines) (List.replicate count "") := by
  obtain ⟨count, leaves⟩ :=
    exists_leaves_comment (unended_noticeTexts source) (by decide : Intact " */")
      (fun star _ => by cases star <;> rfl)
  refine ⟨count + 5, ?_⟩
  rw [← List.replicate_append_replicate]
  exact leaves.append leaves_directives

/-! ## Declarations -/

/-- The declarations of the sections, inside of the block that is around them, if its opening is
not a part of the description. -/
def codeDeclared (board : Resolved) (options : Options) : List Declared :=
  if joinsNext false (describedLines board) then
    (documentDeclared board options).tail.map Declared.outer
  else documentDeclared board options

theorem scoping_blockLines (scope : List String) (opening : List String) :
    scoping scope ((opening ++ (blockLines board options).map codeOf).map
        fun line => bareLine line.toList) =
      scoping scope (opening.map (fun line => bareLine line.toList) ++
        (contentsOf (bodyItems board options) ++ ["\x7d"]).map
          fun content => bareLine (codeOf content).toList) := by
  have kept := filter_map_linesOf (fun line => bareLine (codeOf line).toList) (by decide)
    bareLine_codeOf_indented .fresh (rowsOf 1 (bodyItems board options) ++ [.closing 0 "\x7d"])
  rw [written_append, List.map_append, map_written_rowsOf] at kept
  rw [List.map_append, List.map_map, ← scoping_filter, List.filter_append,
    ← scoping_filter _ (List.map _ opening ++ _), List.filter_append]
  exact congrArg _ (congrArg _ kept)

/-- Outside of all blocks, the end of one changes nothing. -/
theorem scoping_block (fromText : board.definition.FromText) :
    scoping [] (((if joinsNext false (describedLines board) then []
        else [codeOf "namespace BoardConfig \x7b"]) ++ (blockLines board options).map codeOf).map
          fun line => bareLine line.toList) =
      (codeDeclared board options).map Declared.code := by
  have stands := @stands_spaceItem board options fromText
  have closed : scoping [] [bareLine (codeOf "\x7d").toList] = [] := by decide
  rw [scoping_blockLines, codeDeclared, List.map_append]
  cases joinsNext false (describedLines board) with
  | true =>
      have outer : Outline [] (bodyItems board options)
          ((documentDeclared board options).tail.map Declared.outer) :=
        outline_bodyItems.outer (by decide)
      have inside : Throughout (fun content => Stands content (codeOf content))
          (bodyItems board options) := fun content member =>
        stands content (List.mem_cons_of_mem _ (List.mem_append_left _
          (List.mem_append_left _ member)))
      rw [if_pos rfl, if_pos rfl, List.map_nil, List.nil_append, List.map_singleton,
        outer.scoping_code inside, closed, List.append_nil]
  | false =>
      have told := (@outline_spaceItems board options).scoping_code stands []
      rw [List.append_nil, scoping, List.append_nil, contentsOf, Item.contents, contentsOf,
        List.append_nil, List.map_cons, List.map_append] at told
      rw [if_neg Bool.false_ne_true, if_neg Bool.false_ne_true, List.map_singleton,
        List.singleton_append]
      exact told

/-- The code of a header declares what its head does, and then what its sections do. -/
theorem codeDeclarations_of_notice (contained : Contained board options)
    {head front : List String} (spelled : textOf (noticeLines options) = textOf head)
    (leaves : Leaves (head ++ directiveLines) front) (singles : ∀ line ∈ front, Single line) :
    codeDeclarations (generate board options) =
      scoping [] (front.map (fun line => bareLine line.toList) ++
        (((if joinsNext false (describedLines board) then []
            else [codeOf "namespace BoardConfig \x7b"]) ++
              (blockLines board options).map codeOf).map fun line => bareLine line.toList)) := by
  have text := toList_generate board options
  rw [List.append_assoc, textOf_append, spelled, ← textOf_append, ← List.append_assoc] at text
  have separate : ∀ line ∈ "namespace BoardConfig \x7b" :: blockLines board options,
      Separate line :=
    List.forall_mem_cons.mpr ⟨@separate_spaceItem board options contained.fromText _
      List.mem_cons_self, separate_blockLines contained.fromText⟩
  rw [codeDeclarations_of_lines text leaves singles
    (List.forall_mem_append.mpr ⟨contained.level_described, contained.level_kept⟩)
    (List.forall_mem_append.mpr ⟨fun line member => .inr (comment_described line member),
      comment_kept⟩) separate, List.map_append]

/-- The code of a header declares what its sections do, whatever the name of the source is, if
only it does not end the comment it stands in. -/
theorem codeDeclarations_generate (contained : Contained board options)
    (source : ∀ name, options.source = some name → Unended (logicalOf name.toList)) :
    codeDeclarations (generate board options) = (codeDeclared board options).map Declared.code := by
  obtain ⟨count, leaves⟩ := exists_leaves_notice source
  have blank : bareLine "".toList = "" := by decide
  rw [codeDeclarations_of_notice contained rfl leaves fun _ member => single_blank member,
    List.map_replicate, blank, scoping_blanks, scoping_block contained.fromText]

/-- What lines declare, whatever stands in them. -/
theorem codeDeclarations_textOf {text : String} {lines : List String}
    (spelled : text.toList = textOf lines) : codeDeclarations text =
      scoping [] ((textLines (PinMap.strip (logicalOf (textOf lines)))).map bareLine) := by
  rw [codeDeclarations, declarations, bareLines, codeOf, logical, spelled, String.toList_ofList,
    String.toList_ofList]

/-! ## Names that end the comment -/

/-- Such a name ends the comment on its first line and opens another on its last. -/
theorem textOf_breakingName (text : String) (options : Options) :
    textOf (noticeLines { options with source := some (breakingName text) }) =
      textOf ("/*" :: ([noticeTitle] ++ [" * Source: quad */"]) ++ [text] ++
        ("/*" :: (noticeRest options ++ [" */"]))) := by
  have cut : (" * Source: " ++ breakingName text).toList =
      " * Source: quad */".toList ++ '\n' :: (text.toList ++ '\n' :: "/*".toList) := by
    unfold breakingName
    simp only [String.toList_append, List.append_assoc]
    rfl
  have same : noticeRest { options with source := some (breakingName text) } =
      noticeRest options := rfl
  simp only [noticeLines, noticeTexts, same, Option.toList_some, List.map_cons, List.map_nil,
    textOf_append, textOf_cons, cut, List.append_assoc, List.cons_append]
  rfl

theorem exists_leaves_breakingName {text : String} (separate : Separate text)
    (silent : Silent text) (options : Options) : ∃ before after, Leaves
      ("/*" :: ([noticeTitle] ++ [" * Source: quad */"]) ++ [text] ++
        ("/*" :: (noticeRest options ++ [" */"])) ++ directiveLines)
      (List.replicate before "" ++ [text] ++ List.replicate after "") := by
  have first : Ends " * Source: quad */" := fun star _ => by cases star <;> rfl
  have second : Ends " */" := fun star _ => by cases star <;> rfl
  have title : Unended (logicalOf (textOf [noticeTitle])) := by decide
  have rest : Unended (logicalOf (textOf (noticeRest options))) := by
    rw [logicalOf_noticeRest]
    exact .of_not_mem (slash_not_mem_noticeRest options)
  have code : codeOf text = text := (strips_silent silent separate.single).codeOf_eq
  have middle := separate.leaves
  rw [code] at middle
  obtain ⟨before, opening⟩ := exists_leaves_comment title (by decide) first
  obtain ⟨after, closing⟩ := exists_leaves_comment rest (by decide) second
  refine ⟨before, after + 5, ?_⟩
  rw [← List.replicate_append_replicate, ← List.append_assoc]
  exact ((opening.append middle).append closing).append leaves_directives

/-- With a name that ends the comment and opens another, a header declares what the name says
between, and then what the board does. -/
theorem codeDeclarations_breakingName (contained : Contained board options)
    {kind name text : String} (introduced : Introduces kind name text)
    (level : opensBlock text = false) (separate : Separate text) (silent : Silent text) :
    codeDeclarations (generate board { options with source := some (breakingName text) }) =
      ⟨[], kind, name, text⟩ :: (codeDeclared board options).map Declared.code := by
  obtain ⟨before, after, leaves⟩ := exists_leaves_breakingName separate silent options
  have same : Contained board { options with source := some (breakingName text) } :=
    ⟨contained.fromText, contained.mcu, contained.kept⟩
  have flat : ∀ line ∈ List.replicate before "" ++ [text] ++ List.replicate after "",
      Single line :=
    List.forall_mem_append.mpr ⟨List.forall_mem_append.mpr ⟨fun _ member => single_blank member,
      List.forall_mem_singleton.mpr separate.single⟩, fun _ member => single_blank member⟩
  have blank : bareLine "".toList = "" := by decide
  rw [codeDeclarations_of_notice same (textOf_breakingName text options) leaves flat,
    List.map_append, List.map_append, List.map_replicate, List.map_replicate, blank,
    List.append_assoc, List.append_assoc, scoping_blanks, List.map_singleton,
    List.singleton_append, introduced.flush.bareLine_eq, scoping, introduced.read]
  dsimp only
  rw [level, ← @scoping_block board options contained.fromText]
  exact congrArg _ (scoping_blanks [] after _)

end Pinout.Header
