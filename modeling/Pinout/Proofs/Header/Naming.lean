import Pinout.Proofs.Header.Channel
import Pinout.Proofs.Header.Code
import Pinout.Proofs.Header.Constant
import Pinout.Proofs.Resolution.Conflict
import Pinout.Proofs.Resolution.Reordering

/-! The names in a header. Sections make names from fixed words, from numbers and from timers; no
two declarations in one block have the same name. Between sections the words keep names apart,
within a section the numbers and timers do, which resolution keeps distinct. -/

set_option autoImplicit false

namespace Pinout.Header

open Board (Definition Policy)
open Capability (Table)
open Resolution (Bank Bus Placement Resolved placedOutputs resolve resolvedBoard)
open Text (Without)

variable {board : Resolved} {options : Options} {told behind : List Declared}

/-! ## Distinct names -/

/-- The names that are declared in a scope, in order. -/
def namesIn (told : List Declared) (scope : List String) : List String :=
  (told.filter fun declared => declared.scope = scope).map (·.name)

/-- No two of the declarations are of one name in one scope. -/
def NamedOnce (told : List Declared) : Prop :=
  told.Pairwise fun first second => first.scope = second.scope → first.name ≠ second.name

theorem NamedOnce.nodup_namesIn (once : NamedOnce told) (scope : List String) :
    (namesIn told scope).Nodup := by
  refine List.pairwise_map.mpr ((once.filter _).imp_of_mem fun first second distinct => ?_)
  refine distinct ?_
  rw [of_decide_eq_true (List.mem_filter.mp first).2,
    of_decide_eq_true (List.mem_filter.mp second).2]

/-- The comments behind declarations make no difference to their names. -/
theorem namesIn_map_code (told : List Declared) (scope : List String) :
    namesIn (told.map Declared.code) scope = namesIn told scope := by
  rw [namesIn, namesIn, List.filter_map, List.map_map]
  rfl

theorem namesIn_cons_self (declared : Declared) (told : List Declared) :
    namesIn (declared :: told) declared.scope = declared.name :: namesIn told declared.scope := by
  rw [namesIn, List.filter_cons_of_pos (by simp), List.map_cons, ← namesIn]

theorem NamedOnce.append (first : NamedOnce told) (second : NamedOnce behind)
    (apart : ∀ one ∈ told, ∀ other ∈ behind, one.scope = other.scope → one.name ≠ other.name) :
    NamedOnce (told ++ behind) :=
  List.pairwise_append.mpr ⟨first, second, apart⟩

/-! ## Stems -/

/-- A name up to its first digit. -/
def stem (name : String) : String :=
  String.ofList (name.toList.takeWhile fun char => !char.isDigit)

theorem stem_numbered (front : String) (index : UInt8) :
    stem (front ++ toString index) = stem front := by
  have stops : (toString index).toList.takeWhile (fun char => !char.isDigit) = [] := by
    rw [Text.toList_toString_byte]
    cases shown : Text.digitsOf index.toNat with
    | nil => exact absurd shown (Text.digitsOf_ne_nil _)
    | cons digit rest =>
        have member : digit ∈ Text.digitsOf index.toNat := shown ▸ List.mem_cons_self
        rw [List.takeWhile_cons_of_neg (by simp [Text.isDigit_of_mem_digitsOf member])]
  rw [stem, stem, String.toList_append, List.takeWhile_append, stops, List.append_nil]
  split
  · rename_i whole
    rw [(List.takeWhile_prefix _).eq_of_length whole]
  · rfl

theorem numbered_injective (front : String) :
    Function.Injective fun index : UInt8 => front ++ toString index :=
  fun _ _ same => Text.toString_byte_injective ((String.append_right_inj front).mp same)

/-- The name that a declaration in a section goes by in the block around the sections: its own,
or that of the outermost block in which it stands there. -/
def Declared.lead (declared : Declared) : String :=
  (declared.scope ++ [declared.name]).tail.headD ""

/-- Declarations of a section, whose names have some stems. -/
structure Named (stems : List String) (told : List Declared) : Prop where
  once : NamedOnce told
  inside : ∀ declared ∈ told, declared.scope ≠ []
  leads : ∀ declared ∈ told, stem declared.lead ∈ stems

namespace Named

variable {stems others : List String}

theorem nil : Named stems [] where
  once := .nil
  inside := List.forall_mem_nil _
  leads := List.forall_mem_nil _

theorem one {kind name text : String} (listed : stem name ∈ stems) :
    Named stems [⟨bodyScope, kind, name, text⟩] where
  once := List.pairwise_singleton _ _
  inside := List.forall_mem_singleton.mpr (by decide : bodyScope ≠ [])
  leads := List.forall_mem_singleton.mpr listed

/-- Sections that share no stem share no name. -/
theorem append (first : Named stems told) (second : Named others behind)
    (apart : ∀ listed ∈ stems, listed ∉ others) : Named (stems ++ others) (told ++ behind) where
  once := by
    refine first.once.append second.once fun one member other member' scopes names => ?_
    refine apart _ (first.leads one member) ?_
    rw [Declared.lead, scopes, names, ← Declared.lead]
    exact second.leads other member'
  inside := List.forall_mem_append.mpr ⟨first.inside, second.inside⟩
  leads := by
    refine List.forall_mem_append.mpr ⟨fun declared member => ?_, fun declared member => ?_⟩
    · exact List.mem_append_left _ (first.leads declared member)
    · exact List.mem_append_right _ (second.leads declared member)

/-- A constant for each of several values. -/
theorem each {α : Type} {values : List α} {name : α → String} {type : String}
    {fields : α → List String}
    (distinct : values.Pairwise fun first second => name first ≠ name second)
    (listed : ∀ value ∈ values, stem (name value) ∈ stems) :
    Named stems (values.map fun value =>
      constantAt bodyScope type (name value) (fields value)) where
  once := by
    refine List.pairwise_map.mpr (distinct.imp ?_)
    exact fun different _ => different
  inside := List.forall_mem_map.mpr fun _ _ => (by decide : bodyScope ≠ [])
  leads := List.forall_mem_map.mpr listed

end Named

/-! ## Sections -/

theorem named_storage (board : Resolved) (options : Options) :
    Named ["storage"] (storageDeclared board options) := by
  unfold storageDeclared
  split
  · exact .nil
  · split
    · exact .nil
    · exact .one (by decide)

theorem named_motion (board : Resolved) (options : Options) :
    Named ["imu_spi", "imu"] (motionDeclared board options) := by
  unfold motionDeclared
  split
  · exact .nil
  · split
    · exact .nil
    · have bus : stem "imu_spi" ∈ ["imu_spi"] := by decide
      have sensor : stem "imu" ∈ ["imu"] := by decide
      exact (Named.one bus).append (.one sensor) (by decide)

theorem named_battery (board : Resolved) : Named ["battery"] (batteryDeclared board) := by
  unfold batteryDeclared
  split
  · exact .nil
  · exact .one (by decide)

theorem named_strength (board : Resolved) : Named ["rssi_pin"] (strengthDeclared board) := by
  unfold strengthDeclared
  split
  · exact .nil
  · exact .one (by decide)

theorem named_light (board : Resolved) : Named ["status_leds"] (lightDeclared board) := by
  unfold lightDeclared
  split
  · exact .nil
  · exact .one (by decide)

theorem named_beeper (board : Resolved) :
    Named ["beeper_pin", "beeper_inverted"] (beeperDeclared board) := by
  have pin : stem "beeper_pin" ∈ ["beeper_pin"] := by decide
  have polarity : stem "beeper_inverted" ∈ ["beeper_inverted"] := by decide
  unfold beeperDeclared
  split
  · exact .nil
  · dsimp only
    split
    · exact (Named.one pin).append (Named.nil : Named ["beeper_inverted"] []) (by decide)
    · exact (Named.one pin).append (.one polarity) (by decide)

section Buses

variable {definition : Definition} {table : Table} {settings : Resolution.Options}

/-- Buses of one kind have different numbers. -/
theorem nodup_index (kind : Kind) :
    (((resolvedBoard definition table settings).busesOf kind).map Bus.index).Nodup := by
  have once := (Resolution.nodup_resolveBuses definition table).of_map
  refine (once.filter _).map_on ?_
  intro left member right otherMember same
  obtain ⟨listed, kindred⟩ := List.mem_filter.mp member
  obtain ⟨otherListed, otherKindred⟩ := List.mem_filter.mp otherMember
  refine List.inj_on_of_nodup_map (Resolution.nodup_resolveBuses definition table) listed
    otherListed ?_
  rw [of_decide_eq_true kindred, of_decide_eq_true otherKindred, same]

theorem pairwise_index (kind : Kind) :
    ((resolvedBoard definition table settings).busesOf kind).Pairwise fun first second =>
      first.index ≠ second.index :=
  List.pairwise_map.mp (nodup_index kind)

theorem named_i2c :
    Named ["sensors", "i"] (i2cDeclared (resolvedBoard definition table settings) options) := by
  have sensors : stem "sensors" ∈ ["sensors", "i"] := by decide
  have numbered : stem "i2c" ∈ ["sensors", "i"] := by decide
  have distinct := @pairwise_index definition table settings .i2c
  unfold i2cDeclared i2cName
  generalize (resolvedBoard definition table settings).busesOf .i2c = buses at distinct
  cases only : buses.length == 1 with
  | true =>
      obtain ⟨bus, rfl⟩ := List.length_eq_one_iff.mp (beq_iff_eq.mp only)
      exact .one sensors
  | false =>
      refine .each (distinct.imp fun different same => ?_) fun bus _ => ?_
      · exact different (numbered_injective "i2c" same)
      · exact (stem_numbered "i2c" bus.index).symm ▸ numbered

theorem named_uart :
    Named ["uart"] (uartDeclared (resolvedBoard definition table settings) options) := by
  have numbered : stem "uart" ∈ ["uart"] := by decide
  refine .each ((pairwise_index .uart).imp fun different same => ?_) fun bus _ => ?_
  · exact different (numbered_injective "uart" same)
  · exact (stem_numbered "uart" bus.index).symm ▸ numbered

/-- The display is on one bus. -/
theorem index_eq_of_display {first second : Bus} (one : (displaySelect? board first).isSome = true)
    (other : (displaySelect? board second).isSome = true) : first.index = second.index := by
  unfold displaySelect? at one other
  dsimp only at one other
  split at one
  · rename_i wanted
    split at other
    · rename_i again
      exact Option.some.inj (wanted.symm.trans again)
    · cases other
  · cases one

/-- A bus without a device goes by its number, or by the display if that is on it. -/
theorem freeName_ne_of_index {first second : Bus} (different : first.index ≠ second.index) :
    freeName board first ≠ freeName board second := by
  have stems : stem "osd_spi" ≠ stem "spi" := by decide
  unfold freeName
  split
  · rename_i one
    split
    · rename_i other
      exact absurd (index_eq_of_display one other) different
    · exact fun same => stems ((congrArg stem same).trans (stem_numbered "spi" second.index))
  · split
    · exact fun same => stems ((congrArg stem same).symm.trans (stem_numbered "spi" first.index))
    · exact fun same => different (numbered_injective "spi" same)

theorem named_spi :
    Named ["spi", "osd_spi"] (spiDeclared (resolvedBoard definition table settings) options) := by
  have numbered : stem "spi" ∈ ["spi", "osd_spi"] := by decide
  have display : stem "osd_spi" ∈ ["spi", "osd_spi"] := by decide
  refine .each (((pairwise_index .spi).filter _).imp freeName_ne_of_index) fun bus _ => ?_
  unfold freeName
  split
  · exact display
  · exact (stem_numbered "spi" bus.index).symm ▸ numbered

end Buses

/-! ## Outputs -/

section Banks

variable {family : Family} {timing : Timing} {bank other : Bank} {declared : Declared}

/-- The section of a bank declares its block and, all within, what the block holds. -/
theorem place_of_mem_bankDeclared (member : declared ∈ bankDeclared family timing bank) :
    (declared.scope = familyScope family ∧ declared.name = bank.target.name ++ "_Bank") ∨
      declared.scope = bankScope family bank.target := by
  rcases List.mem_cons.mp member with rfl | inner
  · exact .inl ⟨rfl, rfl⟩
  · exact .inr (scope_of_mem_tail declared inner)

theorem familyScope_ne_bankScope (family : Family) (target : Instance) :
    familyScope family ≠ bankScope family target := by
  intro same
  have lengths := congrArg List.length same
  simp [bankScope] at lengths

/-- The banks of different timers share no name. -/
theorem apart_of_target (different : bank.target ≠ other.target) {one another : Declared}
    (first : one ∈ bankDeclared family timing bank)
    (second : another ∈ bankDeclared family timing other) (scopes : one.scope = another.scope) :
    one.name ≠ another.name := by
  have blocks : bank.target.name ++ "_Bank" ≠ other.target.name ++ "_Bank" := fun same =>
    different (Instance.ext_name ((String.append_left_inj _).mp same))
  rcases place_of_mem_bankDeclared first with ⟨scope, name⟩ | scope <;>
    rcases place_of_mem_bankDeclared second with ⟨scope', name'⟩ | scope'
  · rw [name, name']
    exact blocks
  · exact absurd (scope.symm.trans (scopes.trans scope')) (familyScope_ne_bankScope _ _)
  · exact absurd (scope'.symm.trans (scopes.symm.trans scope)) (familyScope_ne_bankScope _ _)
  · have ends := List.append_cancel_left (scope.symm.trans (scopes.trans scope'))
    exact absurd (List.cons.inj ends).1 blocks

/-- The words of a bank are no names of channels. -/
theorem numbered_ne_word (family : Family) (index : UInt8) :
    ∀ word ∈ ["timer", "Channel"], word ≠ familyVariable family ++ toString index := by
  intro word listed same
  have stems : ∀ word ∈ ["timer", "Channel"], stem word ≠ stem (familyVariable family) := by
    cases family <;> decide
  exact stems word listed ((congrArg stem same).trans (stem_numbered _ index))

theorem name_of_channelAt {target : Instance} {placement : Placement}
    (shown : channelAt family timing target placement = some declared) :
    declared.name = familyVariable family ++ toString placement.id.index := by
  obtain ⟨entry, _, rfl⟩ := Option.map_eq_some_iff.mp shown
  rfl

theorem once_bankDeclared (distinct : (bank.channelsOf family).Pairwise fun first second =>
    first.id.index ≠ second.id.index) : NamedOnce (bankDeclared family timing bank) := by
  have scopes := familyScope_ne_bankScope family bank.target
  have channels : NamedOnce ((bank.channelsOf family).filterMap
      (channelAt family timing bank.target)) := by
    refine List.pairwise_filterMap.mpr (distinct.imp fun {one another} different first shown second
      shown' _ same => ?_)
    rw [name_of_channelAt shown, name_of_channelAt shown'] at same
    exact different (numbered_injective _ same)
  have words : NamedOnce
      [⟨bankScope family bank.target, "static inline TIM_TypeDef* const", "timer",
        s!"static inline TIM_TypeDef* const timer = {bank.target};"⟩,
      ⟨bankScope family bank.target, "struct", "Channel", "struct Channel \x7b"⟩] :=
    List.pairwise_pair.mpr fun _ => (by decide : "timer" ≠ "Channel")
  refine List.pairwise_cons.mpr ⟨fun inner member same => ?_, words.append channels ?_⟩
  · exact absurd (same.trans (scope_of_mem_tail inner member)) scopes
  · intro word listed other member _
    obtain ⟨placement, _, shown⟩ := List.mem_filterMap.mp member
    rw [name_of_channelAt shown]
    refine numbered_ne_word family _ _ ?_
    rcases List.mem_pair.mp listed with rfl | rfl
    · exact List.mem_cons_self
    · exact List.mem_cons_of_mem _ List.mem_cons_self

/-- What the section of a family declares, but for its block, stands within the block. -/
theorem within_family {banks : List Bank} (member : declared ∈
    rateDeclared family timing :: banks.flatMap (bankDeclared family timing)) :
    familyScope family <+: declared.scope := by
  rcases List.mem_cons.mp member with rfl | banked
  · exact List.prefix_rfl
  · obtain ⟨bank, _, inside⟩ := List.mem_flatMap.mp banked
    rcases place_of_mem_bankDeclared inside with ⟨scope, _⟩ | scope
    · rw [scope]
    · rw [scope]
      exact List.prefix_append _ _

end Banks

section Families

variable {definition : Definition} {table : Table} {settings : Resolution.Options}
  {family : Family} {bank : Bank}

theorem pairwise_channelsOf (clear : definition.Unambiguous)
    (inside : bank ∈ Resolution.banksOf (placedOutputs definition table)) :
    (bank.channelsOf family).Pairwise fun first second => first.id.index ≠ second.id.index := by
  have families := (List.pairwise_flatMap.mp (@pairwise_shownOutputs definition table clear)).1
  have banks := (List.pairwise_flatMap.mp (families family (mem_sectionOrder family))).1
  have located {placement : Placement} (member : placement ∈ bank.channelsOf family) :
      placement.family? = some family ∧ placement.target? = some bank.target :=
    ⟨of_decide_eq_true (List.mem_filter.mp member).2,
      ((Resolution.mem_channels_iff inside).mp (List.mem_filter.mp member).1).2⟩
  refine (banks bank inside).imp_of_mem fun first second before same => ?_
  have smaller := before ((located first).1.trans (located second).1.symm)
    ((located first).2.trans (located second).2.symm)
  rw [same] at smaller
  exact UInt8.lt_irrefl _ smaller

theorem once_familyDeclared (clear : definition.Unambiguous) (family : Family) :
    NamedOnce (familyDeclared (resolvedBoard definition table settings) family) := by
  have kept {bank : Bank}
      (member : bank ∈ (resolvedBoard definition table settings).banksFor family) :
      bank ∈ Resolution.banksOf (placedOutputs definition table) := (List.mem_filter.mp member).1
  have targets : ((resolvedBoard definition table settings).banksFor family).Pairwise
      fun first second => first.target ≠ second.target :=
    (List.pairwise_map.mp (Resolution.nodup_targets (placedOutputs definition table))).filter _
  unfold familyDeclared
  generalize (resolvedBoard definition table settings).banksFor family = banks at kept targets
  cases banks with
  | nil => exact .nil
  | cons bank rest =>
      refine List.pairwise_cons.mpr ⟨?_, List.pairwise_cons.mpr ⟨?_, List.pairwise_flatMap.mpr
        ⟨fun bank member => ?_, targets.imp ?_⟩⟩⟩
      · intro declared member same
        have longer := (within_family member).length_le
        rw [← same] at longer
        exact absurd longer (by decide : ¬ 2 ≤ 1)
      · intro declared member same
        obtain ⟨bank, _, inside⟩ := List.mem_flatMap.mp member
        rcases place_of_mem_bankDeclared inside with ⟨_, name⟩ | scope
        · rw [name]
          exact (bankName_ne_frequency bank.target).symm
        · exact absurd (same.trans scope) (familyScope_ne_bankScope _ _)
      · exact once_bankDeclared (pairwise_channelsOf clear (kept member))
      · exact fun different one first other second => apart_of_target different first second

/-- The blocks of the banks of a family, and the names in them, come from timers and numbers that
resolution keeps distinct. -/
theorem named_family (clear : definition.Unambiguous) (family : Family) :
    Named [familySpace family]
      (familyDeclared (resolvedBoard definition table settings) family) where
  once := once_familyDeclared clear family
  inside := by
    unfold familyDeclared
    split
    · exact List.forall_mem_nil _
    · refine List.forall_mem_cons.mpr ⟨(by decide : bodyScope ≠ []), fun declared member => ?_⟩
      obtain ⟨rest, shown⟩ := within_family member
      rw [← shown]
      exact List.cons_ne_nil _ _
  leads := by
    have words : stem (familySpace family) ∈ [familySpace family] := by cases family <;> decide
    unfold familyDeclared
    split
    · exact List.forall_mem_nil _
    · refine List.forall_mem_cons.mpr ⟨words, fun declared member => ?_⟩
      obtain ⟨rest, shown⟩ := within_family member
      rw [Declared.lead, ← shown]
      exact words

end Families

/-! ## Whole headers -/

section Document

variable {definition : Definition} {table : Table} {settings : Resolution.Options}

theorem named_buses : Named ["storage", "imu_spi", "imu", "sensors", "i", "uart", "spi", "osd_spi"]
    (busesDeclared (resolvedBoard definition table settings) options) :=
  ((((named_storage _ options).append (named_motion _ options) (by decide)).append named_i2c
    (by decide)).append named_uart (by decide)).append named_spi (by decide)

theorem named_inputs (board : Resolved) :
    Named ["battery", "rssi_pin", "status_leds", "beeper_pin", "beeper_inverted"]
      (inputsDeclared board) :=
  (((named_battery board).append (named_strength board) (by decide)).append (named_light board)
    (by decide)).append (named_beeper board) (by decide)

theorem named_outputs (clear : definition.Unambiguous) : Named ["Servo", "Motor", "LedStrip"]
    (outputsDeclared (resolvedBoard definition table settings)) :=
  ((named_family clear .servo).append (named_family clear .motor) (by decide)).append
    (named_family clear .ledStrip) (by decide)

theorem named_sections (clear : definition.Unambiguous) :
    Named ["storage", "imu_spi", "imu", "sensors", "i", "uart", "spi", "osd_spi", "battery",
        "rssi_pin", "status_leds", "beeper_pin", "beeper_inverted", "Servo", "Motor", "LedStrip"]
      (documentDeclared (resolvedBoard definition table settings) options).tail :=
  (named_buses.append (named_inputs _) (by decide)).append (named_outputs clear) (by decide)

theorem once_documentDeclared (clear : definition.Unambiguous) :
    NamedOnce (documentDeclared (resolvedBoard definition table settings) options) := by
  have sections := @named_sections options definition table settings clear
  exact List.pairwise_cons.mpr ⟨fun declared member same =>
    absurd same.symm (sections.inside declared member), sections.once⟩

/-- Outside of all blocks there is only the block around the sections. -/
theorem namesIn_documentDeclared (clear : definition.Unambiguous) :
    namesIn (documentDeclared (resolvedBoard definition table settings) options) [] =
      ["BoardConfig"] := by
  have sections := @named_sections options definition table settings clear
  have none : namesIn (documentDeclared (resolvedBoard definition table settings) options).tail
      [] = [] := by
    rw [namesIn, List.filter_eq_nil_iff.mpr fun declared member outer =>
      sections.inside declared member (of_decide_eq_true outer)]
    rfl
  exact (namesIn_cons_self _ _).trans (congrArg _ none)

/-- Where the opening of the block around the sections is a part of the description, the
declarations have the scopes that they have behind it. -/
theorem once_codeDeclared (clear : definition.Unambiguous) :
    NamedOnce (codeDeclared (resolvedBoard definition table settings) options) := by
  have once := @once_documentDeclared options definition table settings clear
  unfold codeDeclared
  split
  · have inside := (@outline_bodyItems (resolvedBoard definition table settings)
      options).scope_initial
    refine List.pairwise_map.mpr ((List.pairwise_cons.mp once).2.imp_of_mem ?_)
    intro first second member other distinct same
    obtain ⟨within, opens⟩ := inside first member
    obtain ⟨behind, closes⟩ := inside second other
    refine distinct ?_
    change first.scope.tail = second.scope.tail at same
    rw [← opens, ← closes] at same ⊢
    exact congrArg (List.cons _) same
  · exact once

end Document

/-- No block of a header declares a name twice, whatever the name of the source is, if only it
does not end the comment it stands in, and whatever is kept, if only it is one line. -/
theorem nodup_namesIn_generate (policy : Policy) (text mcu tableText : String)
    (settings : Resolution.Options) (options : Options)
    (source : ∀ name, options.source = some name → Unended (logicalOf name.toList))
    (named : Level mcu)
    (kept : options.keepRest = true →
      ∀ kept ∈ (Board.parse policy text).board.verbatim, Level kept.text) :
    let board := (resolve (Board.parse policy text).board
      (Capability.parse mcu tableText).table settings).board
    ∀ scope, (namesIn (codeDeclarations (generate board options)) scope).Nodup := by
  intro board scope
  have contained : Contained board options := ⟨Board.fromText_parse policy text, named, kept⟩
  have once : NamedOnce (codeDeclared board options) :=
    once_codeDeclared (Board.parse_unambiguous policy text)
  rw [codeDeclarations_generate contained source, namesIn_map_code]
  exact once.nodup_namesIn scope

/-- A board with storage and the motion sensor on one bus, a bus without a device, a port, and a
statement that is kept. -/
def busyBoard : String :=
  "resource SPI_MOSI 1 A07\nresource SPI_MISO 1 A06\nresource SPI_SCK 1 A05\n" ++
    "resource SPI_MOSI 2 B15\nresource FLASH_CS 1 B03\nresource GYRO_CS 1 A04\n" ++
    "resource SERIAL_TX 1 A09\nset flash_spi_bus = 1\nfeature OSD"

def busyTable : String :=
  "const PinMap PinMap_SPI_MOSI[] = \x7b\x7bPA_7, SPI1, 0\x7d, \x7bPB_15, SPI2, 0\x7d\x7d;\n" ++
    "const PinMap PinMap_SPI_MISO[] = \x7b\x7bPA_6, SPI1, 0\x7d\x7d;\n" ++
    "const PinMap PinMap_SPI_SCLK[] = \x7b\x7bPA_5, SPI1, 0\x7d\x7d;\n" ++
    "const PinMap PinMap_UART_TX[] = \x7b\x7bPA_9, USART1, 0\x7d\x7d;"

def busyResolved : Resolved :=
  (resolve (Board.parse .lastWins busyBoard).board (Capability.parse "F4" busyTable).table {}).board

/-- A name of the source that looks like a declaration, and ends no comment. -/
def busyOptions : Options :=
  { source := some "quad*\\\nstruct BoardConfig \x7b" }

def busyDeclared : List Declared :=
  [⟨[], "namespace", "BoardConfig", "namespace BoardConfig \x7b"⟩,
    constantAt ["BoardConfig"] "StorageConfig" "storage"
      ["StorageBackend::LITTLEFS", "PA_7", "PA_6", "PA_5", "PB_3", "8000000"],
    constantAt ["BoardConfig"] "SPIConfig" "imu_spi"
      ["PA_7", "PA_6", "PA_5", "PA_4", "8000000", "CS_Mode::HARDWARE"],
    constantAt ["BoardConfig"] "IMUConfig" "imu" ["imu_spi", "0", "1000000"],
    constantAt ["BoardConfig"] "UARTConfig" "uart1" ["PA_9", "NC", "115200"],
    constantAt ["BoardConfig"] "SPIConfig" "spi2" ["PB_15", "NC", "NC", "NC", "8000000"]]

theorem unended_busyOptions :
    ∀ name, busyOptions.source = some name → Unended (logicalOf name.toList) := by
  rintro name ⟨⟩
  decide

theorem contained_busy : Contained busyResolved busyOptions where
  fromText := Board.fromText_parse .lastWins busyBoard
  mcu := (by decide : Level "F4")
  kept _ := by
    change ∀ kept ∈ (Board.parse .lastWins busyBoard).board.verbatim, Level kept.text
    rw [Board.board_parse]
    decide +kernel

theorem map_code_busyDeclared : busyDeclared.map Declared.code = busyDeclared := by
  have free : ∀ declared ∈ busyDeclared, Without ['/', '#', '\n'] declared.text := by
    decide +kernel
  refine (List.map_congr_left fun declared member => ?_).trans (List.map_id _)
  exact Declared.code_eq_self ((free declared member).of_fewer (by decide))
    ((free declared member).of_fewer (by decide))

theorem codeDeclared_busy : codeDeclared busyResolved busyOptions = busyDeclared := by
  simp only [busyResolved, Board.board_parse, Capability.table_parse]
  decide +kernel

theorem codeDeclarations_busy :
    codeDeclarations (generate busyResolved busyOptions) = busyDeclared := by
  rw [codeDeclarations_generate contained_busy unended_busyOptions, codeDeclared_busy,
    map_code_busyDeclared]

/-- The name of the source may even look like a declaration, as long as the comment goes on. -/
theorem nodup_namesIn_devices :
    let told := codeDeclarations (generate busyResolved busyOptions)
    (∀ name, busyOptions.source = some name → Unended (logicalOf name.toList)) ∧ Level "F4" ∧
      (busyOptions.keepRest = true →
        ∀ kept ∈ (Board.parse .lastWins busyBoard).board.verbatim, Level kept.text) ∧
      (∀ scope, (namesIn told scope).Nodup) ∧
      namesIn told ["BoardConfig"] = ["storage", "imu_spi", "imu", "uart1", "spi2"] := by
  intro told
  have distinct := nodup_namesIn_generate .lastWins busyBoard "F4" busyTable {} busyOptions
    unended_busyOptions contained_busy.mcu contained_busy.kept
  refine ⟨unended_busyOptions, contained_busy.mcu, contained_busy.kept, distinct, ?_⟩
  dsimp only [told]
  rw [codeDeclarations_busy]
  decide

/-- A statement that is kept, with a carriage return in it. -/
def returnBoard : Resolved :=
  (resolve (Board.parse .lastWins "feature OSD\rstruct BoardConfig \x7b\x7d;").board
    (Capability.parse "F4" "").table {}).board

/-- With a name of the source that ends the comment, the global names can be declared twice, and
with a carriage return in what is kept. -/
theorem exists_name_twice :
    (let text := "struct BoardConfig \x7b\x7d;"
     let options : Options := { source := some (breakingName text) }
     let told := codeDeclarations (generate emptyResolved options)
     namesIn told [] = ["BoardConfig", "BoardConfig"] ∧ ¬ (namesIn told []).Nodup) ∧
    (let told := codeDeclarations (generate returnBoard {})
     namesIn told [] = ["BoardConfig", "BoardConfig"] ∧ ¬ (namesIn told []).Nodup) := by
  have contained : Contained emptyResolved {} :=
    ⟨Board.fromText_parse .lastWins "", by decide, fun _ => by decide +kernel⟩
  have once : namesIn (codeDeclared emptyResolved {}) [] = ["BoardConfig"] := by decide +kernel
  constructor
  · intro text options told
    have separate : Separate text := separate_silent (by decide) (by decide) (by decide)
    have read : told = ⟨[], "struct", "BoardConfig", text⟩ ::
        (codeDeclared emptyResolved {}).map Declared.code :=
      codeDeclarations_breakingName contained (by decide) (by decide) separate (by decide)
    have twice : namesIn told [] = ["BoardConfig", "BoardConfig"] := by
      rw [read]
      refine (namesIn_cons_self _ _).trans (congrArg _ ?_)
      rw [namesIn_map_code]
      exact once
    exact ⟨twice, by rw [twice]; decide⟩
  · intro told
    have twice : namesIn told [] = ["BoardConfig", "BoardConfig"] := by
      dsimp only [told]
      rw [codeDeclarations_textOf (toList_generate returnBoard {})]
      decide +kernel
    exact ⟨twice, by rw [twice]; decide⟩

end Pinout.Header
