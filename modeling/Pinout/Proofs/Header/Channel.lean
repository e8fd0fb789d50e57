import Pinout.Proofs.Header.Constant
import Pinout.Proofs.Resolution.Verdict

/-! The outputs of a board in its header. Banks group outputs by timer and the header groups
banks by family, so one bank can stand under several families and one family over several
banks. Every placed output still has one line, in the block of its timer in the block of its
family, and a family has a rate exactly if it has a placed output. -/

set_option autoImplicit false

namespace Pinout.Header

open Board (Definition Policy)
open Capability (Table)
open Resolution (Bank Placement Resolved Timings banksOf channelPrecedes placedOutputs resolve
  resolvedBoard timingsOf)

variable {board : Resolved} {options : Options} {family other : Family} {timing : Timing}

/-! ## What a header should say -/

/-- The line for an output at a timer channel, and where it stands. -/
def channelLine? (timings : Timings) (placement : Placement) : Option Declared := do
  let family ← placement.family?
  let entry ← placement.entry
  let channel ← entry.timerChannel?
  let timing := timings.of family
  some ⟨["BoardConfig", familySpace family, entry.target.name ++ "_Bank"],
    "static constexpr Channel", s!"{familyVariable family}{placement.id.index}",
    s!"static constexpr Channel {familyVariable family}{placement.id.index} = " ++
      braced [entry.pin.name, toString channel, toString timing.minPulse,
        toString timing.maxPulse] ++ s!";  // {entry.label}"⟩

/-- The rates in the block of a family. -/
def ratesOf (told : List Declared) (family : Family) : List Declared :=
  told.filter fun declared =>
    declared.scope = ["BoardConfig", familySpace family] ∧ declared.name = "frequency_hz"

/-- How outputs stand among declarations: each with its line, those of one family at one timer
by number, and every family that has outputs with its rate. -/
structure Banked (timings : Timings) (outputs : List Placement) (told : List Declared) :
    Prop where
  channels : ∃ shown : List Placement, shown.Perm outputs ∧
    (constantsOf told "Channel").map some = shown.map (channelLine? timings) ∧
    shown.Pairwise fun left right => left.family? = right.family? →
      left.target? = right.target? → left.id.index < right.id.index
  rates : ∀ family, ratesOf told family =
    if ∃ output ∈ outputs, output.family? = some family then
      [⟨["BoardConfig", familySpace family], "static constexpr uint32_t", "frequency_hz",
        s!"static constexpr uint32_t frequency_hz = {(timings.of family).frequency};"⟩]
    else []

/-! ## Families and banks -/

/-- The families in the order of their sections. -/
def sectionOrder : List Family :=
  [.servo, .motor, .ledStrip]

theorem mem_sectionOrder (family : Family) : family ∈ sectionOrder := by
  cases family <;> decide

theorem outputsDeclared_eq (board : Resolved) :
    outputsDeclared board = sectionOrder.flatMap (familyDeclared board) := by
  rw [sectionOrder, List.flatMap_cons, List.flatMap_cons, List.flatMap_singleton, outputsDeclared,
    List.append_assoc]

theorem channelsOf_eq_nil_iff {bank : Bank} :
    bank.channelsOf family = [] ↔ bank.drives family = false := by
  rw [Bank.drives, Bool.not_eq_false', List.isEmpty_iff]

/-- A bank that does not drive a family has no part in its section. -/
theorem flatMap_banksFor {α : Type} (part : Bank → List Placement → List α)
    (empty : ∀ bank, part bank [] = []) :
    (board.banksFor family).flatMap (fun bank => part bank (bank.channelsOf family)) =
      board.banks.flatMap fun bank => part bank (bank.channelsOf family) := by
  rw [Resolved.banksFor]
  induction board.banks with
  | nil => rfl
  | cons bank rest ih =>
      cases drives : bank.drives family with
      | true =>
          rw [List.filter_cons, if_pos drives, List.flatMap_cons, List.flatMap_cons, ih]
      | false =>
          rw [List.filter_cons, if_neg (by rw [drives]; decide), List.flatMap_cons,
            channelsOf_eq_nil_iff.mpr drives, empty, List.nil_append, ih]

/-! ## Channels -/

theorem constantsOf_bank (bank : Bank) :
    constantsOf (bankDeclared family timing bank) "Channel" =
      (bank.channelsOf family).filterMap (channelAt family timing bank.target) := by
  have front : "static constexpr " ++ "Channel" ∉
      ["namespace", "static inline TIM_TypeDef* const", "struct"] := by
    decide
  rw [bankDeclared, constantsOf_append, constantsOf_eq_nil front,
    (among_channelAt family timing bank.target _).constantsOf_eq, if_pos rfl, List.nil_append]

theorem constantsOf_family (board : Resolved) (family : Family) :
    constantsOf (familyDeclared board family) "Channel" = board.banks.flatMap fun bank =>
      (bank.channelsOf family).filterMap
        (channelAt family (board.timings.of family) bank.target) := by
  rw [← flatMap_banksFor fun bank => List.filterMap
    (channelAt family (board.timings.of family) bank.target)]
  · unfold familyDeclared
    cases board.banksFor family with
    | nil => rfl
    | cons bank rest =>
        have space : "namespace" ≠ "static constexpr " ++ "Channel" := by decide
        have rate : "static constexpr uint32_t" ≠ "static constexpr " ++ "Channel" := by decide
        refine (constantsOf_cons_of_ne space _).trans ((constantsOf_cons_of_ne rate _).trans ?_)
        rw [constantsOf, List.filter_flatMap]
        exact List.flatMap_congr fun bank _ => constantsOf_bank bank
  · exact fun _ => rfl

theorem constantsOf_channels :
    constantsOf (documentDeclared board options) "Channel" = sectionOrder.flatMap fun family =>
      board.banks.flatMap fun bank => (bank.channelsOf family).filterMap
        (channelAt family (board.timings.of family) bank.target) := by
  rw [constantsOf_document, constantsOf_buses,
    (among_motionDeclared board options).constantsOf_eq_nil "Channel" (by decide),
    (among_inputsDeclared board).constantsOf_eq_nil "Channel" (by decide), outputsDeclared_eq,
    constantsOf, List.filter_flatMap]
  exact List.flatMap_congr fun family _ => constantsOf_family board family

/-! ## Placed outputs -/

section Placed

variable {definition : Definition} {table : Table} {settings : Resolution.Options}
  {placement : Placement}

theorem family?_of_mem_placedOutputs (member : placement ∈ placedOutputs definition table) :
    ∃ family, placement.id.resource = .output family ∧ placement.family? = some family := by
  obtain ⟨source, listed, entry, _, rfl⟩ := Resolution.mem_placedOutputs_iff.mp member
  obtain ⟨_, family, timed⟩ := Resolution.mem_outputs_iff.mp listed
  exact ⟨family, timed, Resolution.outputFamily?_eq_some_iff.mpr timed⟩

/-- The header writes an output in the block of its bank as its line says. -/
theorem channelAt_eq_channelLine? {timings : Timings} {bank : Bank}
    (inside : bank ∈ banksOf (placedOutputs definition table))
    (member : placement ∈ bank.channelsOf family) :
    (channelAt family (timings.of family) bank.target placement).map some =
      some (channelLine? timings placement) := by
  obtain ⟨channel, familiar⟩ := List.mem_filter.mp member
  obtain ⟨placed, located⟩ := (Resolution.mem_channels_iff inside).mp channel
  obtain ⟨source, _, entry, chosen, rfl⟩ := Resolution.mem_placedOutputs_iff.mp placed
  obtain ⟨number, driven⟩ :=
    Capability.Entry.timerChannel?_of_kind (Resolution.kind_of_placeOutputOf chosen)
  have target : entry.target = bank.target := Option.some.inj located
  unfold channelAt channelLine?
  rw [of_decide_eq_true familiar, ← target]
  simp only [Option.bind_eq_bind, Option.bind_some, Option.map_some, driven, Option.getD_some]
  rfl

/-- The placed outputs in the order of their lines. -/
def shownOutputs (outputs : List Placement) : List Placement :=
  sectionOrder.flatMap fun family =>
    (banksOf outputs).flatMap fun bank => bank.channelsOf family

theorem constantsOf_channels_eq :
    (constantsOf (documentDeclared (resolvedBoard definition table settings) options)
        "Channel").map some =
      (shownOutputs (placedOutputs definition table)).map
        (channelLine? (timingsOf definition settings)) := by
  rw [constantsOf_channels, shownOutputs, List.map_flatMap, List.map_flatMap]
  refine List.flatMap_congr fun family _ => ?_
  rw [List.map_flatMap, List.map_flatMap]
  refine List.flatMap_congr fun bank inside => ?_
  rw [List.map_filterMap]
  exact List.filterMap_eq_map_iff_forall_eq_some.mpr fun _ member =>
    channelAt_eq_channelLine? inside member

theorem shownOutputs_perm (definition : Definition) (table : Table) :
    (shownOutputs (placedOutputs definition table)).Perm (placedOutputs definition table) := by
  have gathered := Resolution.channels_placedOutputs_perm definition table
  have grouped : (shownOutputs (placedOutputs definition table)).Perm
      (((banksOf (placedOutputs definition table)).flatMap Bank.channels).filter
        fun placement => placement.family?.isSome) := by
    refine .trans (.of_eq (List.flatMap_congr fun family _ => List.filter_flatMap.symm))
      (Grouping.perm_flatMap_filter (by decide) _ ?_)
    exact fun _ _ family _ => mem_sectionOrder family
  refine (grouped.trans (.of_eq (List.filter_eq_self.mpr fun placement member => ?_))).trans
    gathered
  obtain ⟨family, _, familiar⟩ := family?_of_mem_placedOutputs (gathered.mem_iff.mp member)
  rw [familiar]
  rfl

/-- Outputs of one family at one timer are in one bank, which has them by number. -/
theorem pairwise_shownOutputs (clear : definition.Unambiguous) :
    (shownOutputs (placedOutputs definition table)).Pairwise fun left right =>
      left.family? = right.family? → left.target? = right.target? →
        left.id.index < right.id.index := by
  have perm := shownOutputs_perm definition table
  have apart := List.pairwise_map.mp
    ((perm.map Placement.id).nodup_iff.mpr (Resolution.nodup_placedOutput_ids clear))
  have sorted : (shownOutputs (placedOutputs definition table)).Pairwise fun left right =>
      left.family? = right.family? → left.target? = right.target? →
        left.id.index ≤ right.id.index := by
    refine List.pairwise_flatMap.mpr ⟨fun family _ => List.pairwise_flatMap.mpr ⟨?_, ?_⟩, ?_⟩
    · intro bank inside
      exact ((Resolution.pairwise_channels inside).filter _).imp fun before same _ => before same
    · refine (List.pairwise_map.mp (Resolution.nodup_targets _)).imp_of_mem ?_
      intro bank other inside otherInside distinct left leftMember right rightMember _ same
      have leftAt := ((Resolution.mem_channels_iff inside).mp (List.mem_filter.mp leftMember).1).2
      have rightAt :=
        ((Resolution.mem_channels_iff otherInside).mp (List.mem_filter.mp rightMember).1).2
      rw [leftAt, rightAt] at same
      exact absurd (Option.some.inj same) distinct
    · have distinct : sectionOrder.Pairwise (· ≠ ·) := by decide
      refine distinct.imp fun distinct left leftMember right rightMember same _ => ?_
      obtain ⟨_, _, leftInside⟩ := List.mem_flatMap.mp leftMember
      obtain ⟨_, _, rightInside⟩ := List.mem_flatMap.mp rightMember
      rw [of_decide_eq_true (List.mem_filter.mp leftInside).2,
        of_decide_eq_true (List.mem_filter.mp rightInside).2] at same
      exact absurd (Option.some.inj same) distinct
  refine (sorted.and apart).imp_of_mem fun leftMember rightMember given family target => ?_
  obtain ⟨before, distinct⟩ := given
  refine UInt8.lt_of_le_of_ne (before family target) fun index => distinct ?_
  obtain ⟨_, leftNamed, leftFamily⟩ := family?_of_mem_placedOutputs (perm.mem_iff.mp leftMember)
  obtain ⟨_, rightNamed, rightFamily⟩ := family?_of_mem_placedOutputs (perm.mem_iff.mp rightMember)
  rw [leftFamily, rightFamily] at family
  cases family
  exact congrArg₂ ResourceId.mk (leftNamed.trans rightNamed.symm) index

end Placed

/-! ## Rates -/

theorem ratesOf_append (front back : List Declared) (family : Family) :
    ratesOf (front ++ back) family = ratesOf front family ++ ratesOf back family :=
  List.filter_append ..

theorem ratesOf_eq_nil {scope : List String} {told : List Declared}
    (placed : ∀ declared ∈ told, declared.scope = scope)
    (apart : scope.length ≠ 2) : ratesOf told family = [] := by
  refine List.filter_eq_nil_iff.mpr fun declared member holds => apart ?_
  rw [← placed declared member, (of_decide_eq_true holds).1]
  rfl

theorem bankName_ne_frequency (target : Instance) : target.name ++ "_Bank" ≠ "frequency_hz" := by
  intro same
  have last := congrArg (fun text => text.toList.getLast?) same
  rw [String.toList_append, List.getLast?_append_of_ne_nil _ (by decide)] at last
  cases last

/-- All that the block of a bank declares stands within it. -/
theorem scope_of_mem_tail {bank : Bank} : ∀ declared ∈ (bankDeclared family timing bank).tail,
    declared.scope = bankScope family bank.target :=
  List.forall_mem_cons.mpr ⟨rfl, List.forall_mem_cons.mpr ⟨rfl, fun declared member =>
    (among_channelAt family timing bank.target _ declared member).1⟩⟩

theorem ratesOf_bank (bank : Bank) : ratesOf (bankDeclared other timing bank) family = [] := by
  have named := bankName_ne_frequency bank.target
  have split : bankDeclared other timing bank =
      ⟨familyScope other, "namespace", bank.target.name ++ "_Bank",
        s!"namespace {bank.target}_Bank \x7b"⟩ :: (bankDeclared other timing bank).tail := rfl
  rw [split, ratesOf, List.filter_cons_of_neg (by simp [named]), ← ratesOf,
    ratesOf_eq_nil scope_of_mem_tail (by simp [bankScope, familyScope, bodyScope])]

theorem ratesOf_banks (banks : List Bank) :
    ratesOf (banks.flatMap (bankDeclared other timing)) family = [] := by
  induction banks with
  | nil => rfl
  | cons bank rest ih => rw [List.flatMap_cons, ratesOf_append, ratesOf_bank, ih, List.append_nil]

/-- The section of a family declares its rate, if there is a bank. -/
theorem ratesOf_family (board : Resolved) (other family : Family) :
    ratesOf (familyDeclared board other) family =
      if other = family ∧ board.banksFor family ≠ [] then
        [rateDeclared family (board.timings.of family)]
      else [] := by
  have spaces : familySpace other = familySpace family ↔ other = family := by
    cases other <;> cases family <;> decide
  unfold familyDeclared
  cases shown : board.banksFor other with
  | nil =>
      rw [if_neg]
      · rfl
      · rintro ⟨rfl, filled⟩
        exact filled shown
  | cons bank rest =>
      dsimp only
      rw [ratesOf, List.filter_cons_of_neg (by simp [bodyScope])]
      by_cases same : other = family
      · subst same
        rw [List.filter_cons, if_pos (by simp [rateDeclared, familyScope, bodyScope]), ← ratesOf,
          ratesOf_banks, shown, if_pos ⟨rfl, List.cons_ne_nil _ _⟩]
      · rw [List.filter_cons_of_neg
            (by simp [rateDeclared, familyScope, bodyScope, spaces, same]), ← ratesOf,
          ratesOf_banks, if_neg fun both => same both.1]

theorem ratesOf_document (family : Family) :
    ratesOf (documentDeclared board options) family =
      if board.banksFor family ≠ [] then [rateDeclared family (board.timings.of family)]
      else [] := by
  have buses : ratesOf (busesDeclared board options) family = [] :=
    ratesOf_eq_nil (fun _ => scope_of_mem_busesDeclared board options) (by decide)
  have inputs : ratesOf (inputsDeclared board) family = [] :=
    ratesOf_eq_nil (fun declared member => (among_inputsDeclared board declared member).1)
      (by decide)
  rw [documentDeclared, ratesOf, List.filter_cons_of_neg (by simp), ← ratesOf, ratesOf_append,
    ratesOf_append, buses, inputs, List.nil_append, List.nil_append, outputsDeclared,
    ratesOf_append, ratesOf_append, ratesOf_family, ratesOf_family, ratesOf_family]
  cases family <;> simp

section Placed

variable {definition : Definition} {table : Table} {settings : Resolution.Options}

/-- A family has a bank exactly if one of its outputs is placed. -/
theorem banksFor_ne_nil_iff :
    (resolvedBoard definition table settings).banksFor family ≠ [] ↔
      ∃ output ∈ placedOutputs definition table, output.family? = some family := by
  have driven {bank : Bank} : bank.drives family = true ↔
      ∃ placement ∈ bank.channels, placement.family? = some family := by
    rw [← Resolution.Bank.mem_families_iff, Bank.families, List.mem_filter]
    exact (and_iff_right (by cases family <;> decide)).symm
  rw [ne_eq, Resolved.banksFor, List.filter_eq_nil_iff]
  simp only [driven, not_forall, not_not]
  constructor
  · rintro ⟨bank, inside, output, member, familiar⟩
    exact ⟨output, ((Resolution.mem_channels_iff inside).mp member).1, familiar⟩
  · rintro ⟨output, member, familiar⟩
    obtain ⟨target, located⟩ := Resolution.target?_of_mem_placedOutputs member
    obtain ⟨bank, inside, named⟩ := Resolution.exists_bank member located
    exact ⟨bank, inside, output,
      (Resolution.mem_channels_iff inside).mpr ⟨member, named ▸ located⟩, familiar⟩

theorem banked_document (clear : definition.Unambiguous) :
    Banked (timingsOf definition settings) (placedOutputs definition table)
      (documentDeclared (resolvedBoard definition table settings) options) where
  channels := ⟨_, shownOutputs_perm definition table, constantsOf_channels_eq,
    pairwise_shownOutputs clear⟩
  rates family := by
    rw [ratesOf_document]
    simp only [banksFor_ne_nil_iff]
    rfl

end Placed

/-- The banks in a header are an image of the placed outputs. -/
theorem banked_generate (policy : Policy) (text mcu tableText : String)
    (settings : Resolution.Options) (options : Options)
    (source : ∀ name, options.source = some name → '\n' ∉ name.toList)
    (named : '\n' ∉ mcu.toList) :
    let definition := (Board.parse policy text).board
    let table := (Capability.parse mcu tableText).table
    Banked (timingsOf definition settings) (placedOutputs definition table)
      (declarations (generate (resolve definition table settings).board options)) := by
  intro definition table
  have read : declarations (generate (resolve definition table settings).board options) =
      documentDeclared (resolve definition table settings).board options :=
    declarations_generate (Board.fromText_parse policy text) source named
  rw [read]
  exact banked_document (Board.parse_unambiguous policy text)

/-- A motor and a servo at one timer. -/
def pairBoard : String :=
  "resource MOTOR 1 A08\nresource SERVO 1 A09\ntimer A08 AF1\ntimer A09 AF1"

def pairTable : String :=
  "const PinMap PinMap_TIM[] = \x7b" ++
    "\x7bPA_8, TIM1, STM_PIN_DATA_EXT(M, P, GPIO_AF1_TIM1, 1, 0)\x7d, " ++
    "\x7bPA_9, TIM1, STM_PIN_DATA_EXT(M, P, GPIO_AF1_TIM1, 2, 0)\x7d\x7d;"

theorem banked_pair :
    let definition := (Board.parse .lastWins pairBoard).board
    let table := (Capability.parse "F4" pairTable).table
    '\n' ∉ "quad.config".toList ∧ '\n' ∉ "F4".toList ∧
      Banked (timingsOf definition {}) (placedOutputs definition table)
        (declarations (generate (resolve definition table {}).board
          { source := some "quad.config" })) ∧
      (placedOutputs definition table).map (fun output =>
        (channelLine? (timingsOf definition {}) output).map (·.text)) =
        [some "static constexpr Channel motor1 = \x7bPA_8, 1, 125, 250\x7d;  // TIM1_CH1",
          some "static constexpr Channel servo1 = \x7bPA_9, 2, 1000, 2000\x7d;  // TIM1_CH2"] := by
  have single : ∀ name, some "quad.config" = some name → '\n' ∉ name.toList := by
    rintro name ⟨⟩
    decide
  exact ⟨by decide, by decide, banked_generate .lastWins pairBoard "F4" pairTable {}
    { source := some "quad.config" } single (by decide), by
      simp only [Board.board_parse, Capability.table_parse]
      decide +kernel⟩

/-- The line for an output, where there is none. -/
def strayChannel : String :=
  "static constexpr Channel motor1 = \x7bPA_8, 1, 125, 250\x7d;"

def emptyResolved : Resolved :=
  (resolve (Board.parse .lastWins "").board (Capability.parse "F4" pairTable).table {}).board

theorem declarations_strayChannel :
    declarations (generate emptyResolved { source := some (breakingName strayChannel) }) =
      ⟨[], "static constexpr Channel", "motor1", strayChannel⟩ ::
        documentDeclared emptyResolved {} :=
  @declarations_breakingName emptyResolved {} (Board.fromText_parse .lastWins "") (by decide) _ _ _
    (by decide) (by decide) (by decide)

/-- A name of the source with line feeds can declare a channel that no output has. -/
theorem exists_strayChannel :
    let definition := (Board.parse .lastWins "").board
    let table := (Capability.parse "F4" pairTable).table
    let options : Options := { source := some (breakingName strayChannel) }
    let told := declarations (generate (resolve definition table {}).board options)
    placedOutputs definition table = [] ∧
      strayChannel ∈ (constantsOf told "Channel").map (·.text) ∧
      ¬ Banked (timingsOf definition {}) (placedOutputs definition table) told := by
  intro definition table options told
  have nothing : placedOutputs definition table = [] := by decide +kernel
  have stray : strayChannel ∈ (constantsOf told "Channel").map (·.text) := by
    have told : constantsOf told "Channel" =
        ⟨[], "static constexpr Channel", "motor1", strayChannel⟩ ::
          constantsOf (documentDeclared emptyResolved {}) "Channel" := by
      refine (congrArg (constantsOf · "Channel") declarations_strayChannel).trans ?_
      rw [constantsOf, List.filter_cons_of_pos (by decide), ← constantsOf]
    rw [told]
    exact List.mem_cons_self
  refine ⟨nothing, stray, fun banked => ?_⟩
  obtain ⟨shown, perm, lines, _⟩ := banked.channels
  rw [nothing] at perm
  rw [perm.eq_nil, List.map_nil, List.map_eq_nil_iff] at lines
  rw [lines] at stray
  cases stray

end Pinout.Header
