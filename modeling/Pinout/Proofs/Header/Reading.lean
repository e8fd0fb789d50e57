import Pinout.Proofs.Header.Splice

/-! Reading a header back line by line. Where no content holds a line feed, the lines of the
text are the contents of its pieces, up to indentation and empty lines. What comes from a board
definition holds none; the name of the source and that of the microcontroller are the caller's,
and stand in the header as they are. -/

set_option autoImplicit false

namespace Pinout.Header

open Resolution (Resolved)
open Text (Without)

/-- A line without its indentation. -/
def bareLine (line : List Char) : String :=
  String.ofList (unindented line)

/-- The lines of a text without their indentation. -/
def bareLines (text : String) : List String :=
  (textLines text.toList).map bareLine

theorem toList_bareLine (line : List Char) : (bareLine line).toList = unindented line :=
  String.toList_ofList

theorem Flush.bareLine_eq {content : String} (flush : Flush content) :
    bareLine content.toList = content := by
  rw [bareLine, flush.bare, String.ofList_toList]

theorem Flush.ne_empty {content : String} (flush : Flush content) : content ≠ "" := by
  rintro rfl
  exact flush.filled rfl

/-! ## Lines of a layout -/

theorem bareLines_of_single {text : String} (single : Without ['\n'] text) :
    bareLines text = [bareLine text.toList] := by
  rw [bareLines, textLines_eq_singleton (Text.without_singleton_iff.mp single), List.map_singleton]

/-- Indentation is in front of the first line only, where it is left out. -/
theorem map_bareLine_replicate (count : Nat) (text : List Char) :
    (textLines (List.replicate count ' ' ++ text)).map bareLine =
      (textLines text).map bareLine := by
  induction count with
  | zero => rfl
  | succ count ih =>
      rw [List.replicate_succ, List.cons_append, textLines_cons (by decide), ← ih]
      cases textLines (List.replicate count ' ' ++ text) with
      | nil => rfl
      | cons line rest => rfl

theorem bareLines_indented (depth : Nat) (content : String) :
    bareLines (indented depth content) = bareLines content := by
  rw [bareLines, indented, String.toList_append, String.toList_ofList, map_bareLine_replicate,
    bareLines]

/-- Empty lines are bare, so that it makes no difference when they are left out. -/
theorem filter_flatMap_bareLines (lines : List String) :
    ((lines.filter (· ≠ "")).flatMap bareLines).filter (· ≠ "") =
      (lines.flatMap bareLines).filter (· ≠ "") := by
  have bare : bareLines "" = [""] := by decide
  induction lines with
  | nil => rfl
  | cons line rest ih =>
      by_cases empty : line = ""
      · subst empty
        rw [List.filter_cons_of_neg (by decide), ih, List.flatMap_cons, bare,
          List.singleton_append, List.filter_cons_of_neg (by decide)]
      · rw [List.filter_cons_of_pos (by simpa using empty), List.flatMap_cons, List.flatMap_cons,
          List.filter_append, List.filter_append, ih]

section Render

variable {items : List Item}

/-- Up to indentation and empty lines, a header has the lines of its contents. -/
theorem filter_bareLines_render (items : List Item) :
    (bareLines (render items)).filter (· ≠ "") =
      ((contentsOf items).flatMap bareLines).filter (· ≠ "") := by
  have rows : ((written (rowsOf 0 items)).map fun row => indented row.1 row.2).flatMap bareLines =
      (contentsOf items).flatMap bareLines := by
    rw [← map_written_rowsOf items 0, List.flatMap_map, List.flatMap_map]
    exact List.flatMap_congr fun row _ => bareLines_indented row.1 row.2
  have whole : ((lines items).flatMap bareLines).filter (· ≠ "") =
      ((contentsOf items).flatMap bareLines).filter (· ≠ "") := by
    rw [← filter_flatMap_bareLines, lines, filter_linesOf, filter_flatMap_bareLines, rows]
  rw [← whole]
  by_cases filled : lines items = []
  · rw [render, filled]
    decide
  · rw [bareLines, textLines_render filled, List.map_append, List.filter_append, List.map_flatMap]
    exact List.append_nil _

theorem flatMap_bareLines_of_single
    (single : ∀ content ∈ contentsOf items, Without ['\n'] content) :
    (contentsOf items).flatMap bareLines =
      (contentsOf items).map fun content => bareLine content.toList := by
  rw [← List.flatMap_singleton' ((contentsOf items).map _), List.flatMap_map]
  exact List.flatMap_congr fun content member => bareLines_of_single (single content member)

end Render

/-! ## Headers of one line for each content -/

section Document

variable {board : Resolved} {options : Options} {content : String}

theorem single_of_quoted (fromText : board.definition.FromText)
    (source : ∀ name, options.source = some name → '\n' ∉ name.toList)
    (named : '\n' ∉ board.mcu.toList) (said : Quoted board options content) :
    Single content := by
  cases said with
  | source given =>
      exact (by decide : Single " * Source: ").append
        (Text.without_singleton_iff.mpr (source _ given))
  | boardName given =>
      exact (by decide : Single "// Board: ").append
        (level_of_solid (fromText.boardName _ given)).single
  | manufacturer given =>
      exact (by decide : Single "// Manufacturer: ").append
        (level_of_solid (fromText.manufacturer _ given)).single
  | mcu => exact (by decide : Single "// MCU: ").append (Text.without_singleton_iff.mpr named)
  | gyros _ =>
      exact (by decide : Single "// Gyro: ").append (single_listed (level_gyroChips fromText))
  | features _ =>
      exact (by decide : Single "// Features: ").append (single_listed (level_features fromText))
  | heading _ _ => decide
  | rest _ member =>
      refine (by decide : Single "//   ").append ?_
      rcases restTexts_cases fromText member with plain | ⟨kept, inside, rfl⟩
      · exact single_of_plain plain
      · exact Text.without_singleton_iff.mpr (fromText.verbatim kept inside)

theorem level_omission {resource : Resource} (word : Text.IsWord resource.keyword)
    (index : UInt8) : Level (omission resource index) :=
  (((((by decide : Level "// ").append (level_of_plain (plain_of_isWord word))).append
    (by decide)).append (level_of_plain (plain_index index))).append (by decide))

theorem level_of_mem_storage (fromText : board.definition.FromText)
    (member : content ∈ contentsOf (storageItems board options)) : Level content := by
  obtain ⟨storage, found, ⟨_, rfl⟩ | ⟨bus, _, rfl | rfl⟩⟩ := mem_storageItems_iff.mp member
  · exact ((by decide : Level "// Storage: omitted (SPI bus ").append
      (level_of_plain (plain_index storage.bus))).append (by decide)
  · exact (level_storageTitle fromText found).append (level_of_plain (plain_target bus.target))
  · exact level_of_plain (plain_declaration (by decide) (plain_storageValues found bus))

theorem level_of_mem_motion (fromText : board.definition.FromText)
    (member : content ∈ contentsOf (motionItems board options)) : Level content := by
  obtain ⟨select, _, ⟨_, rfl⟩ | ⟨bus, _, rfl | rfl | rfl⟩⟩ := mem_motionItems_iff.mp member
  · exact ((by decide : Level "// IMU: omitted (SPI bus ").append
      (level_of_plain (plain_index (motionIndex board)))).append (by decide)
  · exact (level_motionTitle fromText).append (level_of_plain (plain_target bus.target))
  · exact level_of_plain (plain_declaration (by decide) (plain_motionBusValues select bus))
  · exact level_of_plain (plain_declaration (by decide) plain_motionValues)

/-- What a header says itself is one line, however lines may end. -/
theorem level_of_voice (fromText : board.definition.FromText)
    (voice : Voice board options content) : Level content := by
  cases voice with
  | worded said => exact level_of_plain said.plain
  | omitted _ modeled => exact level_omission (Resource.isWord_keyword modeled) _
  | storage member => exact level_of_mem_storage fromText member
  | motion member => exact level_of_mem_motion fromText member

/-- Only what the caller gives can break a line of a header. -/
theorem single_of_mem_document (fromText : board.definition.FromText)
    (source : ∀ name, options.source = some name → '\n' ∉ name.toList)
    (named : '\n' ∉ board.mcu.toList) :
    ∀ content ∈ contentsOf (document board options), Single content := by
  intro content member
  rcases quoted_or_voiced board options content member with said | voice
  · exact single_of_quoted fromText source named said
  · exact (level_of_voice fromText voice).single

end Document

end Pinout.Header
