import Pinout.Header.Document
import Pinout.Proofs.Header.Wording

/-! Where the lines of a header come from. Apart from the sections of storage and the motion
sensor and from the traces of dropped resources, a header is made of fixed texts, words and
numbers; what it takes from outside as it stands is quoted behind a fixed opening. -/

set_option autoImplicit false

namespace Pinout.Header

open Resolution (Bank Bus Placement Resolved)

/-! ## Quoted lines -/

/-- The lines that take a text from outside as it stands: from the caller, from the
description of the board, and from what is not translated. -/
inductive Quoted (board : Resolved) (options : Options) : String → Prop where
  | source {name : String} (given : options.source = some name) :
      Quoted board options (" * Source: " ++ name)
  | boardName {name : String} (given : board.definition.metadata.boardName = some name) :
      Quoted board options ("// Board: " ++ name)
  | manufacturer {name : String} (given : board.definition.metadata.manufacturer = some name) :
      Quoted board options ("// Manufacturer: " ++ name)
  | mcu : Quoted board options ("// MCU: " ++ board.mcu)
  | gyros (filled : gyroChips board.definition ≠ []) :
      Quoted board options ("// Gyro: " ++ ", ".intercalate (gyroChips board.definition))
  | features (filled : features board.definition ≠ []) :
      Quoted board options ("// Features: " ++ ", ".intercalate (features board.definition))
  | heading (kept : options.keepRest = true) (filled : restTexts board.definition ≠ []) :
      Quoted board options "// Not translated (kept for reference):"
  | rest {text : String} (kept : options.keepRest = true)
      (member : text ∈ restTexts board.definition) : Quoted board options ("//   " ++ text)

def quoteOpenings : List String :=
  [" * Source: ", "// Board: ", "// Manufacturer: ", "// MCU: ", "// Gyro: ", "// Features: ",
    "// Not translated (kept for reference):", "//   "]

/-- A text that is apart from all openings is apart from everything that is quoted. -/
theorem Quoted.apart {board : Resolved} {options : Options} {text content : String}
    (said : Quoted board options content)
    (openings : ∀ opening ∈ quoteOpenings, Apart text opening) : Apart text content := by
  have quoted {opening : String} (member : opening ∈ quoteOpenings) (rest : String) :
      Apart text (opening ++ rest) :=
    (openings opening member).append rest
  cases said with
  | source _ => exact quoted (by decide) _
  | boardName _ => exact quoted (by decide) _
  | manufacturer _ => exact quoted (by decide) _
  | mcu => exact quoted (by decide) _
  | gyros _ => exact quoted (by decide) _
  | features _ => exact quoted (by decide) _
  | heading _ _ => exact openings _ (by decide)
  | rest _ _ => exact quoted (by decide) _

theorem mem_optionalLine_iff {title content : String} {value : Option String} :
    content ∈ contentsOf (optionalLine title value) ↔
      ∃ text, value = some text ∧ content = title ++ text := by
  cases value <;> simp [optionalLine, contentsOf, Item.contents]

theorem mem_listLine_iff {title content : String} {values : List String} :
    content ∈ contentsOf (listLine title values) ↔
      values ≠ [] ∧ content = title ++ ", ".intercalate values := by
  cases values <;> simp [listLine, contentsOf, Item.contents]

theorem mem_restItems_iff {board : Board.Definition} {content : String} :
    content ∈ contentsOf (restItems board) ↔
      (restTexts board ≠ [] ∧ content = "// Not translated (kept for reference):") ∨
        ∃ text ∈ restTexts board, content = "//   " ++ text := by
  unfold restItems
  cases restTexts board with
  | nil => simp [contentsOf]
  | cons text texts =>
      rw [contentsOf_append, contentsOf_map_line, List.mem_append, List.mem_map]
      simp only [contentsOf, Item.contents, List.nil_append, List.append_nil, List.mem_singleton,
        ne_eq, reduceCtorEq, not_false_eq_true, true_and, eq_comm]
      rfl

theorem mem_descriptionItems_iff {board : Resolved} {content : String} :
    content ∈ contentsOf (descriptionItems board) ↔
      (∃ name, board.definition.metadata.boardName = some name ∧ content = "// Board: " ++ name) ∨
      (∃ name, board.definition.metadata.manufacturer = some name ∧
        content = "// Manufacturer: " ++ name) ∨
      content = "// MCU: " ++ board.mcu ∨
      (gyroChips board.definition ≠ [] ∧
        content = "// Gyro: " ++ ", ".intercalate (gyroChips board.definition)) ∨
      (features board.definition ≠ [] ∧
        content = "// Features: " ++ ", ".intercalate (features board.definition)) := by
  have mcu : contentsOf [.line s!"// MCU: {board.mcu}"] = ["// MCU: " ++ board.mcu] := rfl
  simp only [descriptionItems, contentsOf_append, List.mem_append, mem_optionalLine_iff,
    mem_listLine_iff, mcu, List.mem_singleton, or_assoc]

theorem quoted_of_mem_description {board : Resolved} {options : Options} {content : String}
    (member : content ∈ contentsOf (descriptionItems board)) : Quoted board options content := by
  rcases mem_descriptionItems_iff.mp member with
    ⟨name, given, rfl⟩ | ⟨name, given, rfl⟩ | rfl | ⟨filled, rfl⟩ | ⟨filled, rfl⟩
  · exact .boardName given
  · exact .manufacturer given
  · exact .mcu
  · exact .gyros filled
  · exact .features filled

theorem quoted_of_mem_rest {board : Resolved} {options : Options} {content : String}
    (kept : options.keepRest = true) (member : content ∈ contentsOf (restItems board.definition)) :
    Quoted board options content := by
  rcases mem_restItems_iff.mp member with ⟨filled, rfl⟩ | ⟨text, inside, rfl⟩
  · exact .heading kept filled
  · exact .rest kept inside

/-! ## Origins of lines -/

/-- Where a line that a header says itself may come from. -/
inductive Voice (board : Resolved) (options : Options) : String → Prop where
  | worded {content : String} (said : Worded content) : Voice board options content
  | omitted {id : ResourceId} (dropped : id ∈ board.dropped)
      (modeled : id.resource.isModeled = true) :
      Voice board options (omission id.resource id.index)
  | storage {content : String} (member : content ∈ contentsOf (storageItems board options)) :
      Voice board options content
  | motion {content : String} (member : content ∈ contentsOf (motionItems board options)) :
      Voice board options content

/-- The header says all lines of the pieces itself. -/
def Voiced (board : Resolved) (options : Options) (items : List Item) : Prop :=
  ∀ content ∈ contentsOf items, Voice board options content

namespace Voiced

variable {board : Resolved} {options : Options} {items front back : List Item}

theorem nil : Voiced board options [] :=
  Throughout.nil

theorem append (first : Voiced board options front) (second : Voiced board options back) :
    Voiced board options (front ++ back) :=
  Throughout.append first second

theorem flatMap {α : Type} {pieces : α → List Item} {values : List α}
    (voiced : ∀ value ∈ values, Voiced board options (pieces value)) :
    Voiced board options (values.flatMap pieces) :=
  Throughout.flatMap voiced

theorem gap (rest : Voiced board options items) : Voiced board options (.gap :: items) :=
  rest

theorem line {content : String} (said : Worded content) (rest : Voiced board options items) :
    Voiced board options (.line content :: items) :=
  Throughout.line (.worded said) rest

theorem block {opening closing : String} {body : List Item} (opens : Worded opening)
    (inside : Voiced board options body) (closes : Worded closing)
    (rest : Voiced board options items) :
    Voiced board options (.block opening body closing :: items) :=
  Throughout.block (.worded opens) inside (.worded closes) rest

theorem constant {type name : String} {values : List String}
    (opens : Worded ("static constexpr " ++ type ++ " " ++ name))
    (plain : ∀ value ∈ values, Plain value) (rest : Voiced board options items) :
    Voiced board options (constant type name values :: items) :=
  .line ((opens.append (plain_braced plain)).append (by decide)) rest

end Voiced

/-! ## Sections -/

section Sections

variable (board : Resolved) (options : Options)

theorem mem_droppedOf_iff {resource : Resource} {index : UInt8} :
    index ∈ board.droppedOf resource ↔ ⟨resource, index⟩ ∈ board.dropped := by
  rw [Resolved.droppedOf, List.mem_mergeSort, List.mem_map]
  constructor
  · rintro ⟨⟨kept, number⟩, inside, rfl⟩
    obtain ⟨inside, same⟩ := List.mem_filter.mp inside
    rw [← of_decide_eq_true same]
    exact inside
  · intro inside
    exact ⟨⟨resource, index⟩, List.mem_filter.mpr ⟨inside, by simp⟩, rfl⟩

theorem voiced_omissions {resource : Resource} (modeled : resource.isModeled = true) :
    Voiced board options (omissions board resource) := by
  have known : ∀ index ∈ board.droppedOf resource,
      Voice board options (omission resource index) := by
    intro index member
    exact @Voice.omitted board options ⟨resource, index⟩
      ((mem_droppedOf_iff board).mp member) modeled
  unfold omissions
  split
  · exact .nil
  · intro content member
    rw [contentsOf_append, contentsOf_map_line, List.mem_append] at member
    rcases member with inside | behind
    · obtain ⟨index, member, rfl⟩ := List.mem_map.mp inside
      exact known index member
    · cases behind

variable {board options}

theorem plain_spiPins (bus : Bus) : ∀ value ∈ spiPins bus, Plain value := by
  simp [spiPins, plain_signalPin]

theorem worded_title {target : Instance} {use : String} (plain : Plain use) :
    Worded ("// " ++ target.name ++ use) :=
  ((by decide : Worded "// ").append (plain_target target)).append plain

theorem voiced_i2cItem (only : Bool) (bus : Bus) :
    Voiced board options (i2cItem only options bus) := by
  have values : ∀ value ∈ [signalPin bus .i2cSda, signalPin bus .i2cScl,
      toString options.i2cClock], Plain value := by
    simp only [List.forall_mem_cons]
    exact ⟨plain_signalPin bus _, plain_signalPin bus _, plain_toString _, List.forall_mem_nil _⟩
  have title : Worded ("// " ++ bus.target.name ++ ": ") := worded_title (by decide)
  have opens : Worded ("static constexpr " ++ "I2CConfig" ++ " ") := by decide
  cases only with
  | true =>
      exact .line (title.append (by decide))
        (.constant (opens.append (by decide)) values (.gap .nil))
  | false =>
      exact .line (title.append (by decide))
        (.constant (opens.append ((by decide : Plain "i2c").append (plain_index bus.index))) values
          (.gap .nil))

theorem voiced_i2cItems : Voiced board options (i2cItems board options) :=
  ((voiced_omissions board options rfl).append (voiced_omissions board options rfl)).append
    (.flatMap fun bus _ => voiced_i2cItem _ bus)

theorem voiced_uartItem (bus : Bus) : Voiced board options (uartItem options bus) := by
  have values : ∀ value ∈ [signalPin bus .uartTx, signalPin bus .uartRx,
      toString options.baudRate], Plain value := by
    simp only [List.forall_mem_cons]
    exact ⟨plain_signalPin bus _, plain_signalPin bus _, plain_toString _, List.forall_mem_nil _⟩
  have opens : Worded ("static constexpr " ++ "UARTConfig" ++ " ") := by decide
  exact .line (worded_title (by decide))
    (.constant (opens.append ((by decide : Plain "uart").append (plain_index bus.index))) values
      (.gap .nil))

theorem voiced_uartItems : Voiced board options (uartItems board options) :=
  ((voiced_omissions board options rfl).append (voiced_omissions board options rfl)).append
    (.flatMap fun bus _ => voiced_uartItem bus)

theorem voiced_spiItem (bus : Bus) : Voiced board options (spiItem board options bus) := by
  unfold spiItem
  split
  · rename_i select _
    have values : ∀ value ∈ spiPins bus ++ [pinName (some select), toString options.spiClock,
        "CS_Mode::HARDWARE"], Plain value := by
      simp only [List.forall_mem_append, List.forall_mem_cons]
      exact ⟨plain_spiPins bus, plain_pinName _, plain_toString _, by decide,
        List.forall_mem_nil _⟩
    exact .line (worded_title (by decide)) (.constant (by decide) values (.gap .nil))
  · have values : ∀ value ∈ spiPins bus ++ ["NC", toString options.spiClock], Plain value := by
      simp only [List.forall_mem_append, List.forall_mem_cons]
      exact ⟨plain_spiPins bus, by decide, plain_toString _, List.forall_mem_nil _⟩
    -- The type alone does not tell this bus from that of the motion sensor.
    have opens : Worded ("static constexpr " ++ "SPIConfig" ++ " " ++
        ("spi" ++ toString bus.index)) := by
      rw [← String.append_assoc]
      exact (by decide : Worded ("static constexpr " ++ "SPIConfig" ++ " " ++ "spi")).append
        (plain_index bus.index)
    exact .line (worded_title (by decide)) (.constant opens values (.gap .nil))

theorem voiced_spiItems : Voiced board options (spiItems board options) :=
  (((voiced_omissions board options rfl).append (voiced_omissions board options rfl)).append
    (voiced_omissions board options rfl)).append (.flatMap fun bus _ => voiced_spiItem bus)

theorem voiced_batteryItems : Voiced board options (batteryItems board) := by
  unfold batteryItems
  dsimp only
  split
  · exact .nil
  · refine .line (by decide) (.constant (by decide) ?_ (.gap .nil))
    simp only [List.forall_mem_cons]
    exact ⟨plain_pinOrZero _, plain_pinOrZero _, plain_toString _, plain_toString _,
      List.forall_mem_nil _⟩

theorem voiced_strengthItems : Voiced board options (strengthItems board) := by
  unfold strengthItems
  split
  · exact .nil
  · rename_i input _
    have opens : Worded "static constexpr uint32_t rssi_pin = " := by decide
    have pin := opens.append (plain_of_isWord input.variant.isWord_name)
    refine .line (by decide) (.line ((pin.append (by decide : Plain ";  // ")).append ?_)
      (.gap .nil))
    split
    · exact plain_of_isWord (Capability.Entry.isWord_label _)
    · decide

theorem voiced_analogItems : Voiced board options (analogItems board) :=
  ((((voiced_omissions board options rfl).append (voiced_omissions board options rfl)).append
    (voiced_omissions board options rfl)).append voiced_batteryItems).append voiced_strengthItems

theorem voiced_lightItems : Voiced board options (lightItems board) := by
  unfold lightItems
  split
  · exact .nil
  · refine .line (by decide) (.constant (by decide) ?_ (.gap .nil))
    intro value member
    obtain ⟨light, _, rfl⟩ := List.mem_map.mp member
    exact plain_of_isWord light.variant.isWord_name

theorem voiced_beeperItems : Voiced board options (beeperItems board) := by
  unfold beeperItems
  split
  · exact .nil
  · rename_i beeper _
    have opens : Worded "static constexpr uint32_t beeper_pin = " := by decide
    have pin : Worded ("static constexpr uint32_t beeper_pin = " ++ beeper.variant.name ++ ";") :=
      (opens.append (plain_of_isWord beeper.variant.isWord_name)).append (by decide)
    dsimp only
    split
    · exact .line (by decide) (.line pin (.gap .nil))
    · rename_i value _
      refine .line (by decide) (.line pin (.line ?_ (.gap .nil)))
      have polarity : ∀ inverted : Bool, Worded
          ("static constexpr bool beeper_inverted = " ++ toString inverted ++ ";") := by decide
      exact polarity (sameWord value "ON")

theorem voiced_channelItem {family : Family} {timing : Timing} {placement : Placement}
    {item : Item} (found : channelItem? family timing placement = some item) :
    Voiced board options [item] := by
  obtain ⟨entry, _, rfl⟩ := Option.map_eq_some_iff.mp found
  have opens : Worded ("static constexpr Channel " ++ familyVariable family) := by
    cases family <;> decide
  have values : ∀ value ∈ [placement.variant.name, toString (entry.timerChannel?.getD 0),
      toString timing.minPulse, toString timing.maxPulse], Plain value := by
    simp only [List.forall_mem_cons]
    exact ⟨plain_of_isWord placement.variant.isWord_name, plain_index _, plain_toString _,
      plain_toString _, List.forall_mem_nil _⟩
  have label : Plain (";  // " ++ entry.label) :=
    (by decide : Plain ";  // ").append (plain_of_isWord entry.isWord_label)
  exact .line ((((opens.append (plain_index placement.id.index)).append
    (by decide : Plain " = ")).append (plain_braced values)).append label) .nil

theorem voiced_channels (family : Family) (timing : Timing) (placements : List Placement) :
    Voiced board options (placements.filterMap (channelItem? family timing)) := by
  rw [List.filterMap_eq_flatMap_toList]
  refine .flatMap fun placement _ => ?_
  cases found : channelItem? family timing placement with
  | none => exact .nil
  | some item => exact voiced_channelItem found

theorem voiced_channelType {rest : List Item} (voiced : Voiced board options rest) :
    Voiced board options (channelType :: rest) := by
  refine .block (by decide) ?_ (by decide) voiced
  exact .line (by decide) (.line (by decide) (.line (by decide) (.line (by decide) .nil)))

theorem plain_familyPlural (family : Family) : Plain (familyPlural family) := by
  cases family <;> decide

theorem voiced_bankItems (family : Family) (timing : Timing) (bank : Bank) :
    Voiced board options (bankItems family timing bank) := by
  have indices : Plain (", ".intercalate ((bank.channelsOf family).map fun placement =>
      toString placement.id.index)) := by
    refine Text.Without.intercalate (by decide) ?_
    intro part member
    obtain ⟨placement, _, rfl⟩ := List.mem_map.mp member
    exact plain_index placement.id.index
  have title : Worded ("// " ++ bank.target.name ++ " Bank: " ++ familyPlural family ++ " ") :=
    (((worded_title (by decide)).append (plain_familyPlural family)).append (by decide))
  have opening : Worded ("namespace " ++ bank.target.name ++ "_Bank \x7b") :=
    ((by decide : Worded "namespace ").append (plain_target bank.target)).append (by decide)
  have timer : Worded ("static inline TIM_TypeDef* const timer = " ++ bank.target.name ++ ";") :=
    ((by decide : Worded "static inline TIM_TypeDef* const timer = ").append
      (plain_target bank.target)).append (by decide)
  exact .line (title.append indices) (.block opening
    (.line timer (.gap (voiced_channelType (.gap (voiced_channels family timing _)))))
    (by decide) (.gap .nil))

theorem voiced_familyItems (family : Family) :
    Voiced board options (familyItems board family) := by
  have dropped : Voiced board options (omissions board (.output family)) :=
    voiced_omissions board options rfl
  unfold familyItems
  dsimp only
  split
  · exact dropped
  · have title : Worded ("// " ++ familyPlural family ++ ": " ++
        (board.timings.of family).protocol.name ++ " protocol") := by
      have opens : Worded ("// " ++ familyPlural family ++ ": ") := by cases family <;> decide
      refine (opens.append ?_).append (by decide)
      cases (board.timings.of family).protocol <;> decide
    have opening : Worded ("namespace " ++ familySpace family ++ " \x7b") := by
      cases family <;> decide
    have frequency : Worded ("static constexpr uint32_t frequency_hz = " ++
        toString (board.timings.of family).frequency ++ ";") :=
      ((by decide : Worded "static constexpr uint32_t frequency_hz = ").append
        (plain_toString _)).append (by decide)
    refine .line title (.block opening (.append (.append ?_ dropped) ?_) (by decide) (.gap .nil))
    · exact .line frequency (.gap .nil)
    · exact .flatMap fun bank _ => voiced_bankItems family _ bank

theorem without_hex {marks : List Char}
    (others : ∀ value < 16, Digest.hexDigit value ∉ marks) (bytes : List UInt8) :
    Text.Without marks (Digest.hex bytes) := by
  have digit (value : Nat) : Digest.hexDigit value ∉ marks := by
    have reduced : Digest.hexDigit (value % 16) = Digest.hexDigit value := by
      simp [Digest.hexDigit]
    rw [← reduced]
    exact others (value % 16) (Nat.mod_lt value (by decide))
  intro char member
  rw [Digest.hex, String.toList_ofList, List.mem_flatMap] at member
  obtain ⟨byte, _, inside⟩ := member
  rcases List.mem_pair.mp inside with rfl | rfl
  · exact digit (byte.toNat / 16)
  · exact digit byte.toNat

theorem plain_hex (bytes : List UInt8) : Plain (Digest.hex bytes) :=
  without_hex (by decide) bytes

end Sections

/-! ## Whole headers -/

theorem voiced_bodyItems (board : Resolved) (options : Options) :
    Voiced board options (bodyItems board options) := by
  have storage : Voiced board options (storageItems board options) :=
    fun _ member => .storage member
  have motion : Voiced board options (motionItems board options) :=
    fun _ member => .motion member
  have buses := ((storage.append motion).append voiced_i2cItems).append voiced_uartItems
  have inputs := (buses.append voiced_spiItems).append voiced_analogItems
  have lights := (inputs.append voiced_lightItems).append voiced_beeperItems
  exact ((lights.append (voiced_familyItems .servo)).append (voiced_familyItems .motor)).append
    (voiced_familyItems .ledStrip)

theorem voiced_digest (board : Resolved) (options : Options) :
    Voiced board options
      (optionalLine " * Source digest: sha256:" (options.digest.map Digest.hex)) := by
  cases options.digest with
  | none => exact .nil
  | some digest =>
      exact .line ((by decide : Worded " * Source digest: sha256:").append (plain_hex digest)) .nil

theorem quoted_or_voiced (board : Resolved) (options : Options) :
    Throughout (fun content => Quoted board options content ∨ Voice board options content)
      (document board options) := by
  have own {items : List Item} (voiced : Voiced board options items) : Throughout (fun content =>
      Quoted board options content ∨ Voice board options content) items :=
    fun content member => .inr (voiced content member)
  have source : Throughout (fun content => Quoted board options content ∨
      Voice board options content) (optionalLine " * Source: " options.source) := by
    intro content member
    obtain ⟨name, given, rfl⟩ := mem_optionalLine_iff.mp member
    exact .inl (.source given)
  have description : Throughout (fun content => Quoted board options content ∨
      Voice board options content) (descriptionItems board) :=
    fun _ member => .inl (quoted_of_mem_description member)
  have rest : Throughout (fun content => Quoted board options content ∨
      Voice board options content)
      (if options.keepRest then restItems board.definition else []) := by
    split
    · rename_i kept
      exact fun _ member => .inl (quoted_of_mem_rest kept member)
    · exact .nil
  have opening : Voiced board options
      [.line "/*", .line " * Auto-generated BoardConfig from Betaflight unified target"] :=
    .line (by decide) (.line (by decide) .nil)
  have closing : Voiced board options
      [.line s!" * Generator: {generator}", .line " */", .gap, .line "#pragma once", .gap,
        .line "#include \"ConfigTypes.h\"", .gap] :=
    .line (by decide) (.line (by decide) (.gap (.line (by decide) (.gap (.line (by decide)
      (.gap .nil))))))
  have body : Voiced board options
      [.block "namespace BoardConfig \x7b" (bodyItems board options) "\x7d"] :=
    .block (by decide) (voiced_bodyItems board options) (by decide) .nil
  have digest := own (voiced_digest board options)
  have notice := ((((own opening).append source).append digest).append (own closing))
  exact ((notice.append description).append (own body)).append rest

theorem mem_document_of_quoted {board : Resolved} {options : Options} {content : String}
    (said : Quoted board options content) : content ∈ contentsOf (document board options) := by
  have described {content : String} (member : content ∈ contentsOf (descriptionItems board)) :
      content ∈ contentsOf (document board options) := by
    simp only [document, contentsOf_append, List.mem_append, member, or_true, true_or]
  have remaining {content : String} (kept : options.keepRest = true)
      (member : content ∈ contentsOf (restItems board.definition)) :
      content ∈ contentsOf (document board options) := by
    simp only [document, contentsOf_append, List.mem_append, kept, if_true, member, or_true]
  cases said with
  | @source name given =>
      have member : " * Source: " ++ name ∈
          contentsOf (optionalLine " * Source: " options.source) :=
        mem_optionalLine_iff.mpr ⟨name, given, rfl⟩
      simp only [document, noticeItems, contentsOf_append, List.mem_append, member, or_true,
        true_or]
  | boardName given => exact described (mem_descriptionItems_iff.mpr (.inl ⟨_, given, rfl⟩))
  | manufacturer given =>
      exact described (mem_descriptionItems_iff.mpr (.inr (.inl ⟨_, given, rfl⟩)))
  | mcu => exact described (mem_descriptionItems_iff.mpr (.inr (.inr (.inl rfl))))
  | gyros filled =>
      exact described (mem_descriptionItems_iff.mpr (.inr (.inr (.inr (.inl ⟨filled, rfl⟩)))))
  | features filled =>
      exact described (mem_descriptionItems_iff.mpr (.inr (.inr (.inr (.inr ⟨filled, rfl⟩)))))
  | heading kept filled => exact remaining kept (mem_restItems_iff.mpr (.inl ⟨filled, rfl⟩))
  | rest kept member => exact remaining kept (mem_restItems_iff.mpr (.inr ⟨_, member, rfl⟩))

theorem mem_document_of_device {board : Resolved} {options : Options} {content : String}
    (member : content ∈ contentsOf (storageItems board options) ∨
      content ∈ contentsOf (motionItems board options)) :
    content ∈ contentsOf (document board options) := by
  have inside : content ∈ contentsOf (bodyItems board options) := by
    rcases member with member | member <;>
      simp only [bodyItems, contentsOf_append, List.mem_append, member, true_or, or_true]
  simp only [document, contentsOf_append, List.mem_append, contentsOf, Item.contents,
    List.mem_cons, inside, true_or, or_true]

end Pinout.Header
