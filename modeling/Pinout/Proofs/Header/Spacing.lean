import Mathlib.Data.List.Chain
import Pinout.Proofs.Header.Splice

/-! The empty lines of a layout and its indentation. The lines that a layout writes are rows
again: those it was given, without the gaps that are dropped. Among these no gap stands next to a
gap, behind the opening of a block or in front of its end, and every row is as deep as the blocks
around it are many. -/

set_option autoImplicit false

namespace Pinout.Header

/-! ## Rows that are shown -/

def Row.line : Row → String
  | .text depth content | .opening depth content | .closing depth content =>
    String.ofList (List.replicate (2 * depth) ' ') ++ content
  | .gap => ""

def Spacing.gaps : Spacing → List Row
  | .waiting => [.gap]
  | .fresh | .filled => []

/-- Rows without the gaps that are dropped. -/
def settle : Spacing → List Row → List Row
  | _, [] => []
  | spacing, .text depth content :: rest =>
    spacing.gaps ++ .text depth content :: settle .filled rest
  | spacing, .opening depth content :: rest =>
    spacing.gaps ++ .opening depth content :: settle .fresh rest
  | _, .closing depth content :: rest => .closing depth content :: settle .filled rest
  | .fresh, .gap :: rest => settle .fresh rest
  | .filled, .gap :: rest | .waiting, .gap :: rest => settle .waiting rest

theorem linesOf_eq_map_settle (spacing : Spacing) (rows : List Row) :
    linesOf spacing rows = (settle spacing rows).map Row.line := by
  have owed (spacing : Spacing) : spacing.owed = spacing.gaps.map Row.line := by
    cases spacing <;> rfl
  induction rows generalizing spacing with
  | nil => rfl
  | cons row rest ih =>
      cases row with
      | text depth content =>
          rw [linesOf, settle, List.map_append, List.map_cons, ← ih, ← owed]
          rfl
      | opening depth content =>
          rw [linesOf, settle, List.map_append, List.map_cons, ← ih, ← owed]
          rfl
      | closing depth content =>
          rw [linesOf, settle, List.map_cons, ← ih]
          rfl
      | gap => cases spacing <;> exact ih _

/-- Only gaps are dropped. -/
theorem filter_settle (spacing : Spacing) (rows : List Row) :
    (settle spacing rows).filter (· ≠ .gap) = rows.filter (· ≠ .gap) := by
  have gaps (spacing : Spacing) : spacing.gaps.filter (· ≠ .gap) = [] := by
    cases spacing <;> rfl
  induction rows generalizing spacing with
  | nil => rfl
  | cons row rest ih =>
      cases row with
      | text depth content =>
          rw [settle, List.filter_append, gaps, List.nil_append]
          exact congrArg (List.cons _) (ih _)
      | opening depth content =>
          rw [settle, List.filter_append, gaps, List.nil_append]
          exact congrArg (List.cons _) (ih _)
      | closing depth content =>
          rw [settle]
          exact congrArg (List.cons _) (ih _)
      | gap =>
          rw [List.filter_cons_of_neg (by decide)]
          cases spacing <;> exact ih _

/-! ## Empty lines -/

/-- May the second row come right behind the first? -/
def MayPrecede : Row → Row → Prop
  | .gap, .gap | .opening _ _, .gap | .gap, .closing _ _ => False
  | _, _ => True

/-- The row that was written last, as far as gaps are concerned. -/
def Spacing.Fits : Spacing → Row → Prop
  | .fresh, row => row ≠ .gap
  | .filled, row | .waiting, row => MayPrecede row .gap

theorem Spacing.Fits.ne_gap {spacing : Spacing} {row : Row} (fits : spacing.Fits row) :
    row ≠ .gap := by
  rintro rfl
  cases spacing with
  | fresh => exact fits rfl
  | filled => exact fits
  | waiting => exact fits

/-- A row that is no gap, behind the gap that is owed. -/
theorem isChain_gaps {spacing : Spacing} {before row : Row} {rest : List Row}
    (fits : spacing.Fits before) (filled : row ≠ .gap) (owed : MayPrecede .gap row)
    (chain : (row :: rest).IsChain MayPrecede) :
    (before :: (spacing.gaps ++ row :: rest)).IsChain MayPrecede := by
  have next : MayPrecede before row := by
    have apart := fits.ne_gap
    cases before <;> cases row <;> trivial
  cases spacing with
  | fresh => exact .cons_cons next chain
  | filled => exact .cons_cons next chain
  | waiting => exact .cons_cons fits (.cons_cons owed chain)

/-- Gaps are where they may be, at the end of the rows too, as if a block ended there. -/
theorem isChain_settle {spacing : Spacing} {before : Row} (fits : spacing.Fits before)
    (rows : List Row) :
    (before :: (settle spacing rows ++ [.closing 0 ""])).IsChain MayPrecede := by
  induction rows generalizing spacing before with
  | nil =>
      have apart := fits.ne_gap
      refine .cons_cons ?_ (.singleton _)
      cases before <;> trivial
  | cons row rest ih =>
      cases row with
      | text depth content =>
          rw [settle, List.append_assoc]
          exact isChain_gaps fits nofun trivial (@ih .filled _ trivial)
      | opening depth content =>
          rw [settle, List.append_assoc]
          exact isChain_gaps fits nofun trivial (@ih .fresh _ nofun)
      | closing depth content =>
          have apart := fits.ne_gap
          refine .cons_cons ?_ (@ih .filled _ trivial)
          cases before <;> trivial
      | gap =>
          cases spacing with
          | fresh => exact @ih .fresh _ fits
          | filled => exact @ih .waiting _ fits
          | waiting => exact @ih .waiting _ fits

/-- Shown rows are spaced as they would be inside a block. -/
theorem isChain_enclosed (rows : List Row) :
    (.opening 0 "" :: (settle .fresh rows ++ [.closing 0 ""])).IsChain MayPrecede := by
  have opened : Spacing.fresh.Fits (.opening 0 "") := by
    intro gap
    cases gap
  exact isChain_settle opened rows

/-! ## Indentation -/

/-- Every row is as deep as blocks are open where it stands, from the given number on, and in the
end none is. -/
def Nested : Nat → List Row → Prop
  | opened, [] => opened = 0
  | opened, .text depth _ :: rest => depth = opened ∧ Nested opened rest
  | opened, .opening depth _ :: rest => depth = opened ∧ Nested (opened + 1) rest
  | opened, .closing depth _ :: rest => depth + 1 = opened ∧ Nested depth rest
  | opened, .gap :: rest => Nested opened rest

/-- Gaps neither open nor close blocks. -/
theorem nested_filter_iff (opened : Nat) (rows : List Row) :
    Nested opened (rows.filter (· ≠ .gap)) ↔ Nested opened rows := by
  induction rows generalizing opened with
  | nil => rfl
  | cons row rest ih =>
      cases row with
      | text depth content => exact and_congr_right fun _ => ih _
      | opening depth content => exact and_congr_right fun _ => ih _
      | closing depth content => exact and_congr_right fun _ => ih _
      | gap => exact ih _

mutual

theorem Item.nested_rows (item : Item) {depth : Nat} {rest : List Row}
    (nested : Nested depth rest) : Nested depth (item.rows depth ++ rest) := by
  match item with
  | .line content => exact ⟨rfl, nested⟩
  | .gap => exact nested
  | .block opening body closing =>
      rw [Item.rows, List.cons_append, List.append_assoc]
      exact ⟨rfl, nested_rowsOf body ⟨rfl, nested⟩⟩

/-- Pieces leave open the blocks that were. -/
theorem nested_rowsOf (items : List Item) {depth : Nat} {rest : List Row}
    (nested : Nested depth rest) : Nested depth (rowsOf depth items ++ rest) := by
  match items with
  | [] => exact nested
  | item :: items =>
      rw [rowsOf, List.append_assoc]
      exact item.nested_rows (nested_rowsOf items nested)

end

/-! ## Texts of layouts -/

/-- A text shows rows that were called for. It has their lines and ends with one line feed. The
empty lines are the gaps, some of which are left out. -/
structure LaidOut (calls shown : List Row) (text : String) : Prop where
  lines : textLines text.toList = shown.map (·.line.toList) ++ [[]]
  ended : ∃ front last, text.toList = front ++ [last, '\n'] ∧ last ≠ '\n'
  empty : ∀ row ∈ shown, row.line = "" ↔ row = .gap
  kept : shown.filter (· ≠ .gap) = calls.filter (· ≠ .gap)
  spaced : shown.IsChain MayPrecede
  nested : Nested 0 shown

/-- Nothing but gaps is left out. -/
theorem LaidOut.line_mem {calls shown : List Row} {text : String} (laid : LaidOut calls shown text)
    {row : Row} (called : row ∈ calls) (filled : row ≠ .gap) :
    row.line.toList ∈ textLines text.toList := by
  have kept : row ∈ shown.filter (· ≠ .gap) :=
    laid.kept ▸ List.mem_filter.mpr ⟨called, decide_eq_true filled⟩
  rw [laid.lines]
  exact List.mem_append_left _ (List.mem_map_of_mem (List.mem_filter.mp kept).1)

theorem indented_ne_empty {content : String} (filled : content ≠ "") (depth : Nat) :
    indented depth content ≠ "" := by
  intro empty
  have shown := congrArg String.toList empty
  rw [toList_indented] at shown
  exact filled (String.toList_eq_nil_iff.mp (List.append_eq_nil_iff.mp shown).2)

/-- A row writes nothing or a content of the pieces. -/
theorem line_of_mem_rowsOf {items : List Item} {row : Row} (member : row ∈ rowsOf 0 items) :
    row = .gap ∨ ∃ depth, ∃ content ∈ contentsOf items, row.line = indented depth content := by
  have known {depth : Nat} {content : String} (writes : row.written? = some (depth, content)) :
      content ∈ contentsOf items := by
    rw [← map_written_rowsOf items 0]
    exact List.mem_map.mpr ⟨_, List.mem_filterMap.mpr ⟨row, member, writes⟩, rfl⟩
  cases row with
  | text depth content => exact .inr ⟨depth, content, known rfl, rfl⟩
  | opening depth content => exact .inr ⟨depth, content, known rfl, rfl⟩
  | closing depth content => exact .inr ⟨depth, content, known rfl, rfl⟩
  | gap => exact .inl rfl

/-- The last of the rows that are shown is no gap. -/
theorem exists_last_settle {rows : List Row} (filled : rows.filter (· ≠ .gap) ≠ []) :
    ∃ front last, settle .fresh rows = front ++ [last] ∧ last ≠ .gap := by
  have chain := isChain_enclosed rows
  rw [← filter_settle .fresh] at filled
  rcases List.eq_nil_or_concat' (settle .fresh rows) with empty | ⟨front, last, shown⟩
  · rw [empty] at filled
    exact absurd rfl filled
  · refine ⟨front, last, shown, ?_⟩
    rintro rfl
    rw [shown, ← List.cons_append, ← List.cons_append, List.append_assoc] at chain
    exact (List.isChain_append_cons_cons.mp chain).2.1

theorem exists_ending {line : String} (filled : line ≠ "") (single : Single line) :
    ∃ front last, line.toList = front ++ [last] ∧ last ≠ '\n' := by
  rcases List.eq_nil_or_concat' line.toList with empty | ⟨front, last, shown⟩
  · exact absurd (String.toList_eq_nil_iff.mp empty) filled
  · refine ⟨front, last, shown, ?_⟩
    rintro rfl
    refine Text.without_singleton_iff.mp single ?_
    rw [shown]
    exact List.mem_append_right _ (List.mem_singleton_self _)

/-- Pieces are laid out well where each of their contents is one line that is not empty. -/
theorem laidOut_render {items : List Item} (occupied : contentsOf items ≠ [])
    (filled : Throughout (· ≠ "") items) (single : Throughout Single items) :
    LaidOut (rowsOf 0 items) (settle .fresh (rowsOf 0 items)) (render items) := by
  have kept := filter_settle .fresh (rowsOf 0 items)
  have spelled : lines items = (settle .fresh (rowsOf 0 items)).map Row.line :=
    linesOf_eq_map_settle .fresh _
  have level : ∀ line ∈ lines items, Single line := by
    refine forall_mem_linesOf (by decide) (fun content member => ?_) _
    rw [map_written_rowsOf] at member
    exact single_indented (single content member)
  have empty : ∀ row ∈ settle .fresh (rowsOf 0 items), row.line = "" ↔ row = .gap := by
    intro row member
    refine ⟨fun blank => by_contra fun apart => ?_, fun gap => by rw [gap]; rfl⟩
    have called : row ∈ (rowsOf 0 items).filter (· ≠ .gap) :=
      kept ▸ List.mem_filter.mpr ⟨member, decide_eq_true apart⟩
    obtain gap | ⟨depth, content, inside, shown⟩ :=
      line_of_mem_rowsOf (List.mem_filter.mp called).1
    · exact apart gap
    · exact indented_ne_empty (filled content inside) depth (shown ▸ blank)
  have called : (rowsOf 0 items).filter (· ≠ .gap) ≠ [] := by
    intro none
    refine occupied ?_
    have gaps : written (rowsOf 0 items) = [] := by
      refine List.filterMap_eq_nil_iff.mpr fun row member => ?_
      have gap : row = .gap := by simpa using List.filter_eq_nil_iff.mp none row member
      rw [gap]
      rfl
    rw [← map_written_rowsOf items 0, gaps]
    rfl
  obtain ⟨front, last, shown, ending⟩ := exists_last_settle called
  have some : lines items = front.map Row.line ++ [last.line] := by
    rw [spelled, shown, List.map_append]
    rfl
  have text : (render items).toList = textOf (lines items) :=
    toList_render (by simp [some])
  constructor
  · rw [text, textLines_textOf fun line member => Text.without_singleton_iff.mp (level line member),
      spelled, List.map_map]
    rfl
  · have inside : last ∈ settle .fresh (rowsOf 0 items) := by simp [shown]
    obtain ⟨before, char, closed, other⟩ := exists_ending
      (fun blank => ending ((empty last inside).mp blank)) (level last.line (by simp [some]))
    refine ⟨textOf (front.map Row.line) ++ before, char, ?_, other⟩
    rw [text, some, textOf_append, textOf_cons, closed]
    simp [textOf]
  · exact empty
  · exact kept
  · exact (List.isChain_append.mp (isChain_enclosed (rowsOf 0 items)).tail).1
  · have nested := @nested_rowsOf items 0 [] rfl
    rwa [List.append_nil, ← nested_filter_iff, ← kept, nested_filter_iff] at nested

end Pinout.Header
