import Pinout.Proofs.Evaluation
import Pinout.Proofs.Resolution.Accounting

/-! Which entry a resource is placed on, and which refusal it meets otherwise. Both are
told by the entries of its pin alone: for a signal by the first entry at a wanted
instance, for an output by the one entry with the function that the board names. -/

set_option autoImplicit false

namespace Pinout.Resolution

open Board (Advisory Assignment Definition Policy Timer)
open Capability (Entry Table)

/-- The resource is dropped, and an error of this kind names it. -/
def Outcome.DropsAs (outcome : Outcome) (id : ResourceId) (finding : Finding) : Prop :=
  id ∈ outcome.board.dropped ∧ ∃ diagnostic ∈ outcome.diagnostics,
    diagnostic.isError = true ∧ diagnostic.finding = finding ∧ diagnostic.resource = some id

variable {board : Definition} {table : Table} {options : Options} {source : Assignment}

theorem dropsAs_iff (unambiguous : board.Unambiguous) (modeled : source ∈ board.modeled)
    {choice : Except Refusal Entry}
    (decided : decision? board table source = some (choice.map some))
    {finding : Finding} (refusing : finding.isRefusal = true) :
    (resolve board table options).DropsAs source.id finding ↔ RefusesAs choice finding := by
  constructor
  · intro drops
    obtain ⟨_, diagnostic, member, _, rfl, named⟩ := drops
    obtain ⟨other, otherModeled, refusal, refused, rfl⟩ :=
      (mem_findings_iff.mp member).refusal_of_isRefusal refusing
    have same := unambiguous.eq_of_mem_modeled otherModeled modeled (Option.some.inj named)
    exact ⟨refusal, (refusal?_eq_some_iff decided).mp (same ▸ refused), rfl⟩
  · intro refuses
    obtain ⟨refusal, chosen, rfl⟩ := refuses
    have refused := (refusal?_eq_some_iff decided).mpr chosen
    exact ⟨mem_dropped_iff.mpr ⟨source, modeled, rfl, refusal, refused⟩,
      refusal.diagnostic table.mcu source, mem_findings_iff.mpr (.refused modeled refused),
      rfl, rfl, rfl⟩

theorem find?_eq_some_iff (unambiguous : board.Unambiguous) (modeled : source ∈ board.modeled)
    {choice : Except Refusal Entry}
    (decided : decision? board table source = some (choice.map some)) {placement : Placement} :
    (resolve board table options).board.find? source.id = some placement ↔
      ∃ entry, choice = .ok entry ∧ placement = ⟨source, some entry⟩ := by
  rw [resolve, find?_eq_placement? unambiguous modeled, placement?_eq_some_iff decided]

theorem isPlaced_iff (unambiguous : board.Unambiguous) (modeled : source ∈ board.modeled)
    {choice : Except Refusal Entry}
    (decided : decision? board table source = some (choice.map some)) :
    ((resolve board table options).board.find? source.id).isSome = true ↔
      ∃ entry, choice = .ok entry := by
  simp only [Option.isSome_iff_exists, find?_eq_some_iff unambiguous modeled decided]
  constructor
  · intro placed
    obtain ⟨_, entry, chosen, _⟩ := placed
    exact ⟨entry, chosen⟩
  · intro placed
    obtain ⟨entry, chosen⟩ := placed
    exact ⟨_, entry, chosen, rfl⟩

theorem mem_dropped_iff_find?_eq_none (unambiguous : board.Unambiguous)
    (modeled : source ∈ board.modeled) :
    source.id ∈ (resolve board table options).board.dropped ↔
      (resolve board table options).board.find? source.id = none := by
  rw [resolve, find?_eq_placement? unambiguous modeled, id_mem_dropped_iff unambiguous modeled]
  rcases placed_or_refused board table (mem_modeled_iff.mp modeled).2 with
    ⟨placement, placed, kept⟩ | ⟨refusal, refused, none⟩
  · simp [placed, kept]
  · simp [refused, none]

/-! ## Signals -/

/-- What an outcome owes to a signal that is wanted at an instance. -/
structure SignalSettled (table : Table) (outcome : Outcome) (source : Assignment)
    (signal : Signal) (wanted : Selector) : Prop where
  placed : (outcome.board.find? source.id).isSome = true ↔ ∃ entry ∈ table.entries,
    entry.pin.base = source.pin ∧ entry.signal? = some signal ∧
      wanted.selects entry.target = true
  /-- The entry in use is the first that fits, in the order of the table. -/
  first : ∀ placement, outcome.board.find? source.id = some placement →
    placement.source = source ∧ placement.entry = table.entries.find? fun entry =>
      entry.pin.base = source.pin ∧ entry.signal? = some signal ∧
        wanted.selects entry.target = true
  dropped : source.id ∈ outcome.board.dropped ↔ outcome.board.find? source.id = none
  unsupported : outcome.DropsAs source.id .unsupportedPin ↔
    ∀ entry ∈ table.entries, ¬ (entry.pin.base = source.pin ∧ entry.signal? = some signal)
  mismatched : outcome.DropsAs source.id .instanceMismatch ↔
    (∃ entry ∈ table.entries, entry.pin.base = source.pin ∧ entry.signal? = some signal) ∧
      ∀ entry ∈ table.entries, entry.pin.base = source.pin → entry.signal? = some signal →
        wanted.selects entry.target = false

theorem signalSettled_of_unambiguous (unambiguous : board.Unambiguous)
    (member : source ∈ board.resources) {signal : Signal}
    (carries : source.id.resource = .bus signal) :
    SignalSettled table (resolve board table options) source signal
      (wantedSelector board ⟨signal.kind, source.id.index⟩) := by
  have modeled := mem_modeled_iff.mpr ⟨member, by rw [carries]; rfl⟩
  have decided := decision?_of_signal board table carries
  constructor
  case placed =>
    simp only [isPlaced_iff unambiguous modeled decided, placeSignal_eq_ok_iff,
      Table.carrying?_eq, ← Option.isSome_iff_exists, List.find?_isSome, decide_eq_true_eq]
  case first =>
    intro placement found
    obtain ⟨entry, chosen, rfl⟩ := (find?_eq_some_iff unambiguous modeled decided).mp found
    have reached := placeSignal_eq_ok_iff.mp chosen
    rw [Table.carrying?_eq] at reached
    exact ⟨rfl, reached.symm⟩
  case dropped => exact mem_dropped_iff_find?_eq_none unambiguous modeled
  case unsupported =>
    rw [dropsAs_iff unambiguous modeled decided rfl, placeSignal_unsupportedPin_iff,
      Table.entriesForSignal_eq, List.filter_eq_nil_iff]
    simp
  case mismatched =>
    rw [dropsAs_iff unambiguous modeled decided rfl, placeSignal_instanceMismatch_iff,
      Table.entriesForSignal_eq, Table.carrying?_eq, ne_eq, List.filter_eq_nil_iff,
      List.find?_eq_none]
    simp

/-- Whatever a board and a table say, a signal is wanted at the instance that the setting
of its bus names, or else at the one with the number of the bus, and it is placed there
if the table can place it there. -/
theorem signalSettled_resolve (policy : Policy) (text mcu tableText : String)
    (options : Options) {source : Assignment} {signal : Signal}
    (member : source ∈ (Board.parse policy text).board.resources)
    (carries : source.id.resource = .bus signal) :
    let board := (Board.parse policy text).board
    let table := (Capability.parse mcu tableText).table
    SignalSettled table (resolve board table options) source signal
      (((board.setting? (overrideKey ⟨signal.kind, source.id.index⟩)).bind
        (Selector.ofValue? signal.kind)).getD ⟨signal.kind, source.id.index⟩) := by
  intro board table
  have wanted := wantedSelector_eq board (kind_mem_busKinds signal) source.id.index
  rw [← wanted]
  exact signalSettled_of_unambiguous (Board.parse_unambiguous policy text) member carries

/-- A board that wants its first SPI bus at the third instance. -/
def movedBoard : String :=
  "resource SPI_SCK 1 B03\nset bus_spi_1 = spi3"

/-- A table with two mappings of one pin, the second of them at the third instance. -/
def movedTable : String :=
  "const PinMap PinMap_SPI_SCLK[] = \x7b" ++
    "\x7bPB_3, SPI1, STM_PIN_DATA(M, P, GPIO_AF5_SPI1)\x7d, " ++
    "\x7bPB_3_ALT1, SPI3, STM_PIN_DATA(M, P, GPIO_AF6_SPI3)\x7d\x7d;"

theorem signalSettled_moved :
    let source : Assignment := ⟨⟨.bus .spiSclk, 1⟩, ⟨1, 3⟩, 1⟩
    let table := (Capability.parse "F4" movedTable).table
    source ∈ (Board.parse .lastWins movedBoard).board.resources ∧ table.entries.length = 2 ∧
      SignalSettled table (resolve (Board.parse .lastWins movedBoard).board table {}) source
        .spiSclk ⟨.spi, 3⟩ := by
  have said : (⟨⟨.bus .spiSclk, 1⟩, ⟨1, 3⟩, 1⟩ : Assignment) ∈
        (Board.parse .lastWins movedBoard).board.resources ∧
      (((Board.parse .lastWins movedBoard).board.setting?
        (overrideKey ⟨.spi, 1⟩)).bind (Selector.ofValue? .spi)).getD ⟨.spi, 1⟩ = ⟨.spi, 3⟩ := by
    simp only [Board.board_parse]
    decide +kernel
  have mapped : (Capability.parse "F4" movedTable).table.entries.length = 2 := by
    simp only [Capability.table_parse]
    decide +kernel
  obtain ⟨member, wanted⟩ := said
  refine ⟨member, mapped, ?_⟩
  rw [← wanted]
  exact signalSettled_resolve .lastWins movedBoard "F4" movedTable {} member rfl

/-! ## Timed outputs -/

/-- What an outcome owes to a timed output. It takes the timer entries of its pin, in the table,
that have the function which the board names for the pin. -/
structure OutputSettled (board : Definition) (table : Table) (outcome : Outcome)
    (source : Assignment) : Prop where
  placed : (outcome.board.find? source.id).isSome = true ↔
    ∃ timer ∈ board.timers, timer.pin = source.pin ∧ ∃ entry, (table.entries.filter fun entry =>
      entry.pin.base = source.pin ∧ entry.kind = .timer ∧
        entry.function = some timer.function) = [entry]
  /-- The entry in use is the only one of the pin with the function that the board names. -/
  only : ∀ placement, outcome.board.find? source.id = some placement →
    placement.source = source ∧ ∃ timer ∈ board.timers, timer.pin = source.pin ∧
      ∃ entry, (table.entries.filter fun entry =>
        entry.pin.base = source.pin ∧ entry.kind = .timer ∧
          entry.function = some timer.function) = [entry] ∧ placement.entry = some entry
  dropped : source.id ∈ outcome.board.dropped ↔ outcome.board.find? source.id = none
  missing : outcome.DropsAs source.id .missingTimer ↔
    ∀ timer ∈ board.timers, timer.pin ≠ source.pin
  unsupported : outcome.DropsAs source.id .unsupportedPin ↔
    (∃ timer ∈ board.timers, timer.pin = source.pin) ∧
      ∀ entry ∈ table.entries, entry.pin.base = source.pin → entry.kind ≠ .timer
  unmatched : outcome.DropsAs source.id .noMatchingVariant ↔
    ∃ timer ∈ board.timers, timer.pin = source.pin ∧
      (∃ entry ∈ table.entries, entry.pin.base = source.pin ∧ entry.kind = .timer) ∧
      ∀ entry ∈ table.entries, entry.pin.base = source.pin → entry.kind = .timer →
        entry.function ≠ some timer.function
  ambiguous : outcome.DropsAs source.id .ambiguousMapping ↔
    ∃ timer ∈ board.timers, timer.pin = source.pin ∧ 2 ≤ (table.entries.filter fun entry =>
      entry.pin.base = source.pin ∧ entry.kind = .timer ∧
        entry.function = some timer.function).length
  /-- A warning says that the advice of the board is not what the table gives. -/
  advised : (∃ diagnostic ∈ outcome.diagnostics, diagnostic.severity = .warning ∧
      diagnostic.finding = .advisoryMismatch ∧ diagnostic.resource = some source.id) ↔
    ∃ entry, outcome.board.find? source.id = some ⟨source, some entry⟩ ∧
      ∃ timer ∈ board.timers, timer.pin = source.pin ∧
        ∃ advisory, timer.advisory = some advisory ∧
          (advisory.timer ≠ entry.target.name ∨ entry.timerChannel? ≠ some advisory.channel)

theorem adviceFits_iff {advisory : Advisory} {entry : Entry} :
    adviceFits advisory entry = true ↔
      advisory.timer = entry.target.name ∧ entry.timerChannel? = some advisory.channel := by
  simp only [adviceFits, Bool.and_eq_true, beq_iff_eq]

theorem exists_advisoryIssue?_iff {entry : Entry} :
    (∃ diagnostic, advisoryIssue? board source entry = some diagnostic) ↔
      ∃ timer, board.timerFor? source.pin = some timer ∧
        ∃ advisory, timer.advisory = some advisory ∧
          (advisory.timer ≠ entry.target.name ∨
            entry.timerChannel? ≠ some advisory.channel) := by
  fun_cases advisoryIssue? board source entry with
  | case1 unnamed => simp [unnamed]
  | case2 timer named silent => simp [named, silent]
  | case3 timer named advisory given fits => simp [named, given, adviceFits_iff.mp fits]
  | case4 timer named advisory given apart =>
      rw [adviceFits_iff, not_and_or] at apart
      simp [named, given, apart]

theorem advisoryIssue?_resource {entry : Entry} {diagnostic : Diagnostic}
    (issue : advisoryIssue? board source entry = some diagnostic) :
    diagnostic.resource = some source.id := by
  revert issue
  fun_cases advisoryIssue? board source entry <;> simp
  intro same
  simp [← same]

/-- Advice is reported for an output when it is placed on an entry that the advice
misses. -/
theorem exists_advice_iff (unambiguous : board.Unambiguous)
    (timed : source ∈ outputs board) :
    (∃ diagnostic ∈ findings board table options, diagnostic.severity = .warning ∧
        diagnostic.finding = .advisoryMismatch ∧ diagnostic.resource = some source.id) ↔
      ∃ entry, placeOutputOf board table source = .ok entry ∧
        ∃ diagnostic, advisoryIssue? board source entry = some diagnostic := by
  constructor
  · intro reported
    obtain ⟨diagnostic, member, _, kind, named⟩ := reported
    obtain ⟨other, otherTimed, entry, placed, issue⟩ :=
      (mem_findings_iff.mp member).advisory_of_finding kind
    have same := unambiguous.eq_of_id_eq (mem_outputs_iff.mp otherTimed).1
      (mem_outputs_iff.mp timed).1
      (Option.some.inj ((advisoryIssue?_resource issue).symm.trans named))
    subst same
    exact ⟨entry, placed, diagnostic, issue⟩
  · intro advised
    obtain ⟨entry, placed, diagnostic, issue⟩ := advised
    exact ⟨diagnostic, mem_findings_iff.mpr (.advisory timed placed issue), 
      (advisoryIssue?_kind issue).1, (advisoryIssue?_kind issue).2, advisoryIssue?_resource issue⟩

theorem outputSettled_of_unambiguous (unambiguous : board.Unambiguous)
    (member : source ∈ board.resources) {family : Family}
    (timed : source.id.resource = .output family) :
    OutputSettled board table (resolve board table options) source := by
  have modeled := mem_modeled_iff.mpr ⟨member, by rw [timed]; rfl⟩
  have inside := mem_outputs_iff.mpr ⟨member, family, timed⟩
  have decided := decision?_of_output table inside
  have named {fits : Timer → Prop} :
      (∃ timer, board.timerFor? source.pin = some timer ∧ fits timer) ↔
        ∃ timer ∈ board.timers, timer.pin = source.pin ∧ fits timer := by
    simp only [unambiguous.timerFor?_eq_some_iff, and_assoc]
  constructor
  case placed =>
    rw [isPlaced_iff unambiguous modeled decided, ← named]
    simp only [placeOutputOf, placeOutput_eq_ok_iff, timerEntries_eq, ← exists_and_left]
    exact exists_comm
  case only =>
    intro placement found
    obtain ⟨entry, chosen, rfl⟩ := (find?_eq_some_iff unambiguous modeled decided).mp found
    obtain ⟨timer, selected, matching⟩ := placeOutput_eq_ok_iff.mp chosen
    obtain ⟨inside, onPin⟩ := unambiguous.timerFor?_eq_some_iff.mp selected
    exact ⟨rfl, timer, inside, onPin, entry, (timerEntries_eq ..).symm.trans matching, rfl⟩
  case dropped => exact mem_dropped_iff_find?_eq_none unambiguous modeled
  case missing =>
    rw [dropsAs_iff unambiguous modeled decided rfl, placeOutputOf,
      placeOutput_missingTimer_iff, Definition.timerFor?, List.find?_eq_none]
    simp
  case unsupported =>
    rw [dropsAs_iff unambiguous modeled decided rfl, placeOutputOf,
      placeOutput_unsupportedPin_iff, named, Table.entriesFor_eq, List.filter_eq_nil_iff]
    simp [← and_assoc, exists_and_right]
  case unmatched =>
    rw [dropsAs_iff unambiguous modeled decided rfl, placeOutputOf,
      placeOutput_noMatchingVariant_iff, named]
    simp only [timerEntries_eq, Table.entriesFor_eq, ne_eq, List.filter_eq_nil_iff]
    simp
  case ambiguous =>
    rw [dropsAs_iff unambiguous modeled decided rfl, placeOutputOf,
      placeOutput_ambiguousMapping_iff, named]
    simp only [timerEntries_eq]
  case advised =>
    have onEntry {entry : Entry} :
        (resolve board table options).board.find? source.id = some ⟨source, some entry⟩ ↔
          placeOutputOf board table source = .ok entry := by
      simp [find?_eq_some_iff unambiguous modeled decided]
    simp only [onEntry, ← named, ← exists_advisoryIssue?_iff]
    exact exists_advice_iff unambiguous inside

/-- Whatever a board and a table say, an output is placed on the one timer entry of its
pin that has the function named for the pin, or else dropped for the one reason that
applies. -/
theorem outputSettled_resolve (policy : Policy) (text mcu tableText : String)
    (options : Options) {source : Assignment} {family : Family}
    (member : source ∈ (Board.parse policy text).board.resources)
    (timed : source.id.resource = .output family) :
    let board := (Board.parse policy text).board
    let table := (Capability.parse mcu tableText).table
    OutputSettled board table (resolve board table options) source :=
  outputSettled_of_unambiguous (Board.parse_unambiguous policy text) member timed

/-- A board that names a timer function for its motor, with advice about another timer. -/
def advisedBoard : String :=
  "resource MOTOR 1 A08\ntimer A08 AF1\n# pin A08: TIM8 CH1 (AF1)"

/-- A table with two timer entries for one pin, which has a function of its own for each. -/
def timerTable : String :=
  "const PinMap PinMap_TIM[] = \x7b" ++
    "\x7bPA_8, TIM1, STM_PIN_DATA_EXT(M, P, GPIO_AF1_TIM1, 1, 0)\x7d, " ++
    "\x7bPA_8_ALT1, TIM8, STM_PIN_DATA_EXT(M, P, GPIO_AF3_TIM8, 1, 0)\x7d\x7d;"

/-- The motor is placed on the first of the two entries, although the advice is for the second. -/
theorem outputSettled_advised :
    let source : Assignment := ⟨⟨.output .motor, 1⟩, ⟨0, 8⟩, 1⟩
    let board := (Board.parse .lastWins advisedBoard).board
    let table := (Capability.parse "F4" timerTable).table
    let outcome := resolve board table {}
    source ∈ board.resources ∧
      table.entries.map (fun entry => (entry.target.name, entry.function)) =
        [("TIM1", some 1), ("TIM8", some 3)] ∧
      OutputSettled board table outcome source ∧
      (outcome.board.find? source.id).bind (fun placement => placement.entry.map (·.target.name)) =
        some "TIM1" ∧
      ∃ diagnostic ∈ outcome.diagnostics, diagnostic.finding = .advisoryMismatch := by
  intro source board table outcome
  have told : source ∈ board.resources ∧
      table.entries.map (fun entry => (entry.target.name, entry.function)) =
        [("TIM1", some 1), ("TIM8", some 3)] ∧
      (outcome.board.find? source.id).bind (fun placement => placement.entry.map (·.target.name)) =
        some "TIM1" ∧
      ∃ diagnostic ∈ outcome.diagnostics, diagnostic.finding = .advisoryMismatch := by
    simp only [source, board, table, outcome, Board.board_parse, Capability.table_parse]
    decide +kernel
  obtain ⟨member, mapped, placed, advised⟩ := told
  exact ⟨member, mapped, outputSettled_resolve .lastWins advisedBoard "F4" timerTable {} member rfl,
    placed, advised⟩

end Pinout.Resolution
