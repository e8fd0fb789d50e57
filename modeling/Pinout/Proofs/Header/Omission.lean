import Pinout.Proofs.Header.Device
import Pinout.Proofs.Resolution.Findings

/-! The lines of a header that say that something is left out. A resource without a place
always has a finding. A device without a bus has one only if a setting puts it on that bus,
so a board without findings can still lack storage or the motion sensor: where no setting
names a bus, and where a setting says that there is no device. -/

set_option autoImplicit false

namespace Pinout.Header

open Board (Definition Policy)
open Capability (Table)
open Resolution (Resolved deviceSettings findings resolve resolveBuses resolvedBoard)

/-! ## Marks -/

/-- The texts that say that a resource of the model or a device is left out. -/
inductive Mark : String → Prop where
  | resource {resource : Resource} (modeled : resource.isModeled = true) (index : UInt8) :
      Mark ("// " ++ resource.keyword ++ " " ++ toString index ++ ": omitted (unresolved)")
  | storage (bus : UInt8) : Mark (storageOmission bus)
  | motion (bus : UInt8) : Mark (motionOmission bus)

/-- Do the pieces have a line with this text, up to indentation? -/
def Says (items : List Item) (text : String) : Prop :=
  ∃ line ∈ lines items, unindented line.toList = text.toList

theorem says_iff {items : List Item} {text : String} (filled : text.toList ≠ []) :
    Says items text ↔
      ∃ content ∈ contentsOf items, unindented content.toList = text.toList :=
  exists_line_iff (· = text.toList) fun empty => filled empty.symm

theorem getLast?_append {front back : String} (filled : back.toList ≠ []) :
    (front ++ back).toList.getLast? = back.toList.getLast? := by
  rw [String.toList_append, List.getLast?_append_of_ne_nil _ filled]

theorem getLast?_unindented {line : List Char} (filled : unindented line ≠ []) :
    (unindented line).getLast? = line.getLast? := by
  conv => rhs; rw [← List.takeWhile_append_dropWhile (p := (· == ' ')) (l := line)]
  exact (List.getLast?_append_of_ne_nil _ filled).symm

namespace Mark

variable {text : String}

theorem flush (mark : Mark text) : Flush text := by
  cases mark with
  | @resource resource _ index =>
      exact ((((by decide : Flush "// ").append resource.keyword).append " ").append
        (toString index)).append ": omitted (unresolved)"
  | storage bus =>
      exact ((by decide : Flush "// Storage: omitted (SPI bus ").append (toString bus)).append
        " unresolved)"
  | motion bus =>
      exact ((by decide : Flush "// IMU: omitted (SPI bus ").append (toString bus)).append
        " unresolved)"

theorem closed (mark : Mark text) : text.toList.getLast? = some ')' := by
  cases mark with
  | resource _ _ => exact (getLast?_append (by decide)).trans (by decide)
  | storage _ => exact (getLast?_append (by decide)).trans (by decide)
  | motion _ => exact (getLast?_append (by decide)).trans (by decide)

/-- The openings of what is not said of a resource. -/
def otherOpenings : List String :=
  "// Storage: omitted (SPI bus " :: "// IMU: omitted (SPI bus " :: quoteOpenings

/-- Modeled resources are finitely many, and no keyword of theirs starts another line. -/
theorem apart_omission {resource : Resource} (modeled : resource.isModeled = true)
    (index : UInt8) : ∀ opening ∈ otherOpenings, Apart (omission resource index) opening := by
  have keyword : ∀ opening ∈ otherOpenings,
      Apart ("// " ++ resource.keyword ++ " ") opening := by
    rcases resource with signal | family | role | keyword
    · cases signal <;> decide
    · cases family <;> decide
    · cases role <;> decide
    · cases modeled
  intro opening member
  exact ((keyword opening member).extend (toString index)).extend ": omitted (unresolved)"

theorem apart_opening (mark : Mark text) : ∀ opening ∈ quoteOpenings, Apart text opening := by
  intro opening member
  cases mark with
  | resource modeled index =>
      exact apart_omission modeled index opening
        (List.mem_cons_of_mem _ (List.mem_cons_of_mem _ member))
  | storage bus =>
      have openings : ∀ opening ∈ quoteOpenings,
          Apart "// Storage: omitted (SPI bus " opening := by decide
      exact ((openings opening member).extend (toString bus)).extend " unresolved)"
  | motion bus =>
      have openings : ∀ opening ∈ quoteOpenings,
          Apart "// IMU: omitted (SPI bus " opening := by decide
      exact ((openings opening member).extend (toString bus)).extend " unresolved)"

end Mark

/-! ## Where marks come from -/

section Origin

variable {board : Resolved} {options : Options} {text content : String}

theorem eq_of_flush (flush : Flush content)
    (same : unindented content.toList = text.toList) : content = text := by
  rw [flush.bare] at same
  exact String.toList_injective same

/-- A title ends with the name of an instance, and so with no mark. -/
theorem getLast?_title_ne {mark : Char} (other : Text.isNameChar mark = false) (front : String)
    (target : Instance) : (front ++ target.name).toList.getLast? ≠ some mark := by
  rw [getLast?_append target.isWord.filled]
  intro closed
  obtain ⟨last, ending, name⟩ := target.isWord.exists_last
  rw [closed, Option.some.injEq] at ending
  rw [← ending, other] at name
  cases name

theorem not_closed_declaration (type name : String) (values : List String) :
    (declaration type name values).toList.getLast? ≠ some ')' := by
  have ending : (declaration type name values).toList.getLast? = ";".toList.getLast? :=
    getLast?_append (by decide)
  rw [ending]
  decide

theorem origin_of_mark (mark : Mark text) (said : Says (document board options) text) :
    (∃ id ∈ board.dropped, text = omission id.resource id.index) ∨
    (∃ storage, storage? board = some storage ∧ board.bus? .spi storage.bus = none ∧
      text = storageOmission storage.bus) ∨
    (board.bus? .spi (motionIndex board) = none ∧ text = motionOmission (motionIndex board)) := by
  obtain ⟨content, member, same⟩ := (says_iff mark.flush.filled).mp said
  have closed : content.toList.getLast? = some ')' := by
    rw [← mark.closed, ← same]
    exact (getLast?_unindented (same ▸ mark.flush.filled)).symm
  -- A mark ends in a closing parenthesis, which leaves the quotations and the marks themselves.
  rcases quoted_or_voiced board options content member with said | voice
  · have apart := (said.apart mark.apart_opening).not_starts
    exact absurd (same ▸ List.prefix_rfl) apart
  cases voice with
  | worded said =>
      exact absurd (said.plain ')' (List.mem_of_getLast? closed)) (by decide)
  | omitted dropped modeled =>
      exact .inl ⟨_, dropped, (eq_of_flush (Mark.resource modeled _).flush same).symm⟩
  | storage member =>
      obtain ⟨storage, found, ⟨unresolved, rfl⟩ | ⟨bus, _, rfl | rfl⟩⟩ :=
        mem_storageItems_iff.mp member
      · exact .inr (.inl ⟨storage, found, unresolved,
          (eq_of_flush (Mark.storage storage.bus).flush same).symm⟩)
      · exact absurd closed (getLast?_title_ne (by decide) _ bus.target)
      · exact absurd closed (not_closed_declaration _ _ _)
  | motion member =>
      obtain ⟨select, _, ⟨unresolved, rfl⟩ | ⟨bus, _, rfl | rfl | rfl⟩⟩ :=
        mem_motionItems_iff.mp member
      · exact .inr (.inr ⟨unresolved, (eq_of_flush (Mark.motion _).flush same).symm⟩)
      · exact absurd closed (getLast?_title_ne (by decide) _ bus.target)
      · exact absurd closed (not_closed_declaration _ _ _)
      · exact absurd closed (not_closed_declaration _ _ _)

theorem says_motionOmission (options : Options) (selected : (board.role? .gyroCs).isSome = true)
    (unresolved : board.bus? .spi (motionIndex board) = none) :
    Says (document board options) (motionOmission (motionIndex board)) := by
  obtain ⟨select, found⟩ := Option.isSome_iff_exists.mp selected
  have flush := (Mark.motion (motionIndex board)).flush
  refine (says_iff flush.filled).mpr ⟨_, mem_document_of_device (.inr ?_), flush.bare⟩
  exact mem_motionItems_iff.mpr ⟨select, found, .inl ⟨unresolved, rfl⟩⟩

theorem ne_of_apart {line : String} (flush : Flush text) (apart : Apart text line) :
    text ≠ line := by
  rintro rfl
  exact apart.not_starts (flush.bare.symm ▸ List.prefix_rfl)

theorem omission_ne_device {resource : Resource} (modeled : resource.isModeled = true)
    (index bus : UInt8) : omission resource index ≠ storageOmission bus ∧
      omission resource index ≠ motionOmission bus := by
  have flush := (Mark.resource modeled index).flush
  have apart := Mark.apart_omission modeled index
  constructor
  · exact ne_of_apart flush
      (((apart _ List.mem_cons_self).append (toString bus)).append " unresolved)")
  · exact ne_of_apart flush (((apart _ (List.mem_cons_of_mem _ List.mem_cons_self)).append
      (toString bus)).append " unresolved)")

theorem storageOmission_ne_motionOmission (first second : UInt8) :
    storageOmission first ≠ motionOmission second := by
  have opening : Apart "// Storage: omitted (SPI bus " "// IMU: omitted (SPI bus " := by decide
  have apart := (opening.extend (toString first)).extend " unresolved)"
  exact ne_of_apart (Mark.storage first).flush
    ((apart.append (toString second)).append " unresolved)")

end Origin

/-! ## Boards without findings -/

section Clean

variable {board : Definition} {table : Table} {settings : Resolution.Options}

theorem dropped_eq_nil_of_clean (clean : findings board table settings = []) :
    (resolvedBoard board table settings).dropped = [] := by
  refine List.eq_nil_iff_forall_not_mem.mpr ?_
  intro id dropped
  obtain ⟨source, modeled, _, refusal, refused⟩ := Resolution.mem_dropped_iff.mp dropped
  have cause : Resolution.Cause board table settings (refusal.diagnostic table.mcu source) :=
    .refused modeled refused
  have found := Resolution.mem_findings_iff.mpr cause
  rw [clean] at found
  cases found

/-- Without findings, a setting that leaves its device without a bus names no bus. -/
theorem namesNoBus_of_clean (clean : findings board table settings = []) {key value : String}
    {fallback : UInt8} (listed : (key, Kind.spi) ∈ deviceSettings)
    (unresolved : (resolvedBoard board table settings).bus? .spi
      (deviceBus board key fallback) = none)
    (said : board.setting? key = some value) : NamesNoBus value := by
  obtain ⟨setting, entry, rfl⟩ := Option.map_eq_some_iff.mp said
  have quiet : Resolution.deviceIssue? (resolveBuses board table) .spi setting = none := by
    cases issue : Resolution.deviceIssue? (resolveBuses board table) .spi setting with
    | none => rfl
    | some diagnostic =>
        have found : diagnostic ∈ Resolution.deviceIssues board (resolveBuses board table) :=
          List.mem_filterMap.mpr ⟨_, listed, Option.bind_eq_some_iff.mpr ⟨setting, entry, issue⟩⟩
        have cause : Resolution.Cause board table settings diagnostic := .device found
        have told := Resolution.mem_findings_iff.mpr cause
        rw [clean] at told
        cases told
  rw [namesNoBus_iff]
  rw [deviceIssue?_eq_none_iff] at quiet
  rw [deviceBus, said, Option.bind_some] at unresolved
  cases read : Text.byte? (Text.trim setting.value.toList) with
  | none =>
      rw [read] at quiet
      exact .inr quiet
  | some index =>
      rw [read] at quiet unresolved
      rcases quiet with rfl | ⟨bus, member, kind, index⟩
      · exact .inl rfl
      · have missing := List.find?_eq_none.mp unresolved bus member
        exact absurd (decide_eq_true ⟨kind, index⟩) missing

end Clean

/-- Where resolving has nothing to say, every resource of the model is in the header; storage
and the motion sensor may be left out, but only where no setting names a bus for them. -/
theorem says_omission_of_clean (policy : Policy) (text mcu tableText : String)
    (settings : Resolution.Options) (options : Options)
    (clean : (resolve (Board.parse policy text).board
      (Capability.parse mcu tableText).table settings).diagnostics = []) :
    let board := (resolve (Board.parse policy text).board
      (Capability.parse mcu tableText).table settings).board
    let header := document board options
    (∀ (resource : Resource) (index : UInt8), resource.isModeled = true → ¬ Says header
      ("// " ++ resource.keyword ++ " " ++ toString index ++ ": omitted (unresolved)")) ∧
    (∀ bus, Says header (storageOmission bus) → ∃ storage, storage? board = some storage ∧
      ∀ value, board.definition.setting? storage.key = some value → NamesNoBus value) ∧
    (∀ bus, Says header (motionOmission bus) →
      ∀ value, board.definition.setting? "gyro_1_spibus" = some value → NamesNoBus value) := by
  intro board header
  have empty : board.dropped = [] := dropped_eq_nil_of_clean clean
  have nothing : ∀ id, id ∉ board.dropped := by
    intro id dropped
    rw [empty] at dropped
    cases dropped
  refine ⟨?resources, ?storage, ?motion⟩
  case resources =>
    intro resource index modeled said
    rcases origin_of_mark (.resource modeled index) said with
      ⟨id, dropped, _⟩ | ⟨storage, _, _, same⟩ | ⟨_, same⟩
    · exact nothing id dropped
    · exact (omission_ne_device modeled index _).1 same
    · exact (omission_ne_device modeled index _).2 same
  case storage =>
    intro bus said
    rcases origin_of_mark (.storage bus) said with
      ⟨id, dropped, _⟩ | ⟨storage, found, unresolved, _⟩ | ⟨_, same⟩
    · exact absurd dropped (nothing id)
    · refine ⟨storage, found, fun value chosen => ?_⟩
      have listed : (storage.key, Kind.spi) ∈ deviceSettings := by
        unfold Storage.key
        split <;> decide
      rw [bus_of_storage? found] at unresolved
      exact namesNoBus_of_clean clean listed unresolved chosen
    · exact absurd same (storageOmission_ne_motionOmission _ _)
  case motion =>
    intro bus said value chosen
    rcases origin_of_mark (.motion bus) said with
      ⟨id, dropped, _⟩ | ⟨_, _, _, same⟩ | ⟨unresolved, _⟩
    · exact absurd dropped (nothing id)
    · exact absurd same.symm (storageOmission_ne_motionOmission _ _)
    · exact namesNoBus_of_clean clean (by decide) unresolved chosen

/-- A board with a motion sensor and no buses. -/
def sensorBoard (bus : String) : String :=
  "resource GYRO_CS 1 A04" ++ bus

def sensorOutcome (bus : String) : Resolution.Outcome :=
  resolve (Board.parse .lastWins (sensorBoard bus)).board (Capability.parse "F4" deviceTable).table
    {}

theorem says_omission_sensor :
    let outcome := sensorOutcome "\nset gyro_1_spibus = 0"
    outcome.diagnostics = [] ∧
      Says (document outcome.board {}) (motionOmission (motionIndex outcome.board)) ∧
      NamesNoBus "0" ∧
      ∀ bus : UInt8, ¬ Says (document outcome.board {})
        ("// SPI_MOSI " ++ toString bus ++ ": omitted (unresolved)") := by
  intro outcome
  have clean : outcome.diagnostics = [] := by decide +kernel
  have facts : (outcome.board.role? .gyroCs).isSome = true ∧
      outcome.board.bus? .spi (motionIndex outcome.board) = none ∧
      outcome.board.definition.setting? "gyro_1_spibus" = some "0" := by
    decide +kernel
  obtain ⟨selected, unresolved, chosen⟩ := facts
  have said := says_motionOmission {} selected unresolved
  have ⟨resources, _, motion⟩ := says_omission_of_clean .lastWins
    (sensorBoard "\nset gyro_1_spibus = 0") "F4" deviceTable {} {} clean
  exact ⟨clean, said, motion _ said "0" chosen, fun bus => resources (.bus .spiMosi) bus rfl⟩

/-- Neither reading nor resolving says that the motion sensor is left out. -/
theorem exists_silent_omission :
    (Board.parse .lastWins (sensorBoard "")).diagnostics = [] ∧
      (sensorOutcome "").diagnostics = [] ∧
      Says (document (sensorOutcome "").board {}) "// IMU: omitted (SPI bus 1 unresolved)" := by
  have facts : ((sensorOutcome "").board.role? .gyroCs).isSome = true ∧
      (sensorOutcome "").board.bus? .spi (motionIndex (sensorOutcome "").board) = none ∧
      motionOmission (motionIndex (sensorOutcome "").board) =
        "// IMU: omitted (SPI bus 1 unresolved)" := by
    decide +kernel
  obtain ⟨selected, unresolved, text⟩ := facts
  exact ⟨by decide +kernel, by decide +kernel, text ▸ says_motionOmission {} selected unresolved⟩

end Pinout.Header
