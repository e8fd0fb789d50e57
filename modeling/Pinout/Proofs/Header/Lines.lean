import Mathlib.Data.List.Basic
import Pinout.Header.Layout

/-! What a layout writes. Every content of the pieces becomes one line, in order and behind
an indentation; the gaps add empty lines and nothing else. The text of a header has these
lines, cut further only where a content holds line feeds of its own. -/

set_option autoImplicit false

namespace Pinout.Header

mutual

/-- The contents of a piece, in order, without their indentation. -/
def Item.contents : Item → List String
  | .line content => [content]
  | .gap => []
  | .block opening body closing => opening :: (contentsOf body ++ [closing])

def contentsOf : List Item → List String
  | [] => []
  | item :: rest => item.contents ++ contentsOf rest

end

theorem contentsOf_append (front back : List Item) :
    contentsOf (front ++ back) = contentsOf front ++ contentsOf back := by
  induction front with
  | nil => rfl
  | cons item rest ih => rw [List.cons_append, contentsOf, contentsOf, ih, List.append_assoc]

theorem contentsOf_map_line {α : Type} (content : α → String) (values : List α) :
    contentsOf (values.map fun value => .line (content value)) = values.map content := by
  induction values with
  | nil => rfl
  | cons value rest ih =>
      rw [List.map_cons, contentsOf, ih]
      rfl

theorem contentsOf_flatMap {α : Type} (items : α → List Item) (values : List α) :
    contentsOf (values.flatMap items) = values.flatMap fun value => contentsOf (items value) := by
  induction values with
  | nil => rfl
  | cons value rest ih => rw [List.flatMap_cons, List.flatMap_cons, contentsOf_append, ih]

/-! ## What all contents have -/

/-- All contents of the pieces have the property. -/
def Throughout (property : String → Prop) (items : List Item) : Prop :=
  ∀ content ∈ contentsOf items, property content

namespace Throughout

variable {property : String → Prop} {items front back : List Item}

theorem nil : Throughout property [] := by
  intro content member
  cases member

theorem append (first : Throughout property front) (second : Throughout property back) :
    Throughout property (front ++ back) := by
  intro content member
  rw [contentsOf_append, List.mem_append] at member
  exact member.elim (first content) (second content)

theorem flatMap {α : Type} {pieces : α → List Item} {values : List α}
    (each : ∀ value ∈ values, Throughout property (pieces value)) :
    Throughout property (values.flatMap pieces) := by
  intro content member
  rw [contentsOf_flatMap, List.mem_flatMap] at member
  obtain ⟨value, inside, said⟩ := member
  exact each value inside content said

theorem gap (rest : Throughout property items) : Throughout property (.gap :: items) :=
  rest

theorem line {content : String} (holds : property content) (rest : Throughout property items) :
    Throughout property (.line content :: items) :=
  List.forall_mem_cons.mpr ⟨holds, rest⟩

theorem block {opening closing : String} {body : List Item} (opens : property opening)
    (inside : Throughout property body) (closes : property closing)
    (rest : Throughout property items) :
    Throughout property (.block opening body closing :: items) := by
  intro content member
  rw [contentsOf, Item.contents, List.mem_append, List.mem_cons, List.mem_append,
    List.mem_singleton] at member
  rcases member with (rfl | within | rfl) | behind
  · exact opens
  · exact inside content within
  · exact closes
  · exact rest content behind

end Throughout

/-! ## From pieces to lines -/

theorem rowsOf_append (depth : Nat) (front back : List Item) :
    rowsOf depth (front ++ back) = rowsOf depth front ++ rowsOf depth back := by
  induction front with
  | nil => rfl
  | cons item rest ih => rw [List.cons_append, rowsOf, rowsOf, ih, List.append_assoc]

/-- What a row writes and the number of blocks around it; a gap writes nothing. -/
def Row.written? : Row → Option (Nat × String)
  | .text depth content | .opening depth content | .closing depth content =>
    some (depth, content)
  | .gap => none

def written (rows : List Row) : List (Nat × String) :=
  rows.filterMap Row.written?

theorem written_append (front back : List Row) :
    written (front ++ back) = written front ++ written back :=
  List.filterMap_append

mutual

theorem Item.map_written_rows (item : Item) (depth : Nat) :
    (written (item.rows depth)).map (·.2) = item.contents := by
  match item with
  | .line content => rfl
  | .gap => rfl
  | .block opening body closing =>
      rw [Item.rows, Item.contents, ← map_written_rowsOf body (depth + 1), ← List.singleton_append,
        written_append, written_append, List.map_append, List.map_append]
      rfl

/-- Rows write the contents of their pieces, in order. -/
theorem map_written_rowsOf (items : List Item) (depth : Nat) :
    (written (rowsOf depth items)).map (·.2) = contentsOf items := by
  match items with
  | [] => rfl
  | item :: rest =>
      rw [rowsOf, contentsOf, written_append, List.map_append, item.map_written_rows depth,
        map_written_rowsOf rest depth]

end

private theorem filter_owed (spacing : Spacing) : spacing.owed.filter (· ≠ "") = [] := by
  cases spacing <;> rfl

/-- Gaps account for empty lines only. -/
theorem filter_linesOf (spacing : Spacing) (rows : List Row) :
    (linesOf spacing rows).filter (· ≠ "") =
      ((written rows).map fun row => indented row.1 row.2).filter (· ≠ "") := by
  induction rows generalizing spacing with
  | nil => rfl
  | cons row rest ih =>
      rw [← List.singleton_append, written_append, List.map_append, List.filter_append]
      cases row with
      | text depth content =>
          rw [List.singleton_append, linesOf, List.filter_append, filter_owed, List.nil_append,
            ← List.singleton_append, List.filter_append, ih]
          rfl
      | opening depth content =>
          rw [List.singleton_append, linesOf, List.filter_append, filter_owed, List.nil_append,
            ← List.singleton_append, List.filter_append, ih]
          rfl
      | closing depth content =>
          rw [List.singleton_append, linesOf, ← List.singleton_append, List.filter_append, ih]
          rfl
      | gap => cases spacing <;> exact ih _

/-- What holds of the empty line and of all that rows write, however indented, holds of every
line. -/
theorem forall_mem_linesOf {property : String → Prop} {rows : List Row} (empty : property "")
    (each : ∀ content ∈ (written rows).map (·.2), ∀ depth, property (indented depth content))
    (spacing : Spacing) : ∀ line ∈ linesOf spacing rows, property line := by
  intro line member
  by_cases blank : line = ""
  · rwa [blank]
  · have kept : line ∈ (linesOf spacing rows).filter (· ≠ "") :=
      List.mem_filter.mpr ⟨member, decide_eq_true blank⟩
    rw [filter_linesOf] at kept
    obtain ⟨⟨depth, content⟩, row, rfl⟩ := List.mem_map.mp (List.mem_filter.mp kept).1
    exact each content (List.mem_map.mpr ⟨_, row, rfl⟩) depth

/-- A reading that makes nothing of empty lines and indentation reads the contents of rows. -/
theorem filter_map_linesOf (read : String → String) (empty : read "" = "")
    (bare : ∀ depth content, read (indented depth content) = read content) (spacing : Spacing)
    (rows : List Row) : ((linesOf spacing rows).map read).filter (· ≠ "") =
      (((written rows).map (·.2)).map read).filter (· ≠ "") := by
  have skips (lines : List String) :
      ((lines.filter (· ≠ "")).map read).filter (· ≠ "") = (lines.map read).filter (· ≠ "") := by
    rw [List.filter_map, List.filter_map, List.filter_filter]
    refine congrArg _ (List.filter_congr fun line _ => ?_)
    by_cases blank : line = ""
    · simp [blank, empty]
    · simp [blank]
  rw [← skips, filter_linesOf, skips, List.map_map, List.map_map]
  exact congrArg _ (List.map_congr_left fun row _ => bare row.1 row.2)

theorem indented_zero (content : String) : indented 0 content = content := by
  simp [indented]

/-- Lines in front of pieces come first, as they are. -/
theorem linesOf_texts (texts : List String) (items : List Item) :
    linesOf .filled (rowsOf 0 (texts.map .line ++ items)) =
      texts ++ linesOf .filled (rowsOf 0 items) := by
  induction texts with
  | nil => rfl
  | cons text rest ih =>
      rw [List.map_cons, List.cons_append, rowsOf, Item.rows, List.singleton_append, linesOf, ih,
        indented_zero]
      rfl

theorem lines_texts (text : String) (texts : List String) (items : List Item) :
    lines ((text :: texts).map .line ++ items) =
      text :: texts ++ linesOf .filled (rowsOf 0 items) := by
  rw [lines, List.map_cons, List.cons_append, rowsOf, Item.rows, List.singleton_append, linesOf,
    linesOf_texts, indented_zero]
  rfl

/-- A gap is owed until the next line. -/
theorem linesOf_waiting_texts {texts : List String} (filled : texts ≠ []) (items : List Item) :
    linesOf .waiting (rowsOf 0 (texts.map .line ++ items)) =
      "" :: texts ++ linesOf .filled (rowsOf 0 items) := by
  obtain ⟨text, rest, rfl⟩ := List.exists_cons_of_ne_nil filled
  rw [List.map_cons, List.cons_append, rowsOf, Item.rows, List.singleton_append, linesOf,
    linesOf_texts, indented_zero]
  rfl

/-- Behind the end of a block rows are written as behind a line. -/
theorem linesOf_closing (spacing : Spacing) (rows rest : List Row) (depth : Nat)
    (content : String) : linesOf spacing (rows ++ .closing depth content :: rest) =
      linesOf spacing (rows ++ [.closing depth content]) ++ linesOf .filled rest := by
  induction rows generalizing spacing with
  | nil => rfl
  | cons row rows ih =>
      cases row with
      | text | opening =>
          simp only [List.cons_append, linesOf, ih, List.append_assoc]
      | closing => simp only [List.cons_append, linesOf, ih]
      | gap => cases spacing <;> exact ih _

theorem toList_indented (depth : Nat) (content : String) :
    (indented depth content).toList = List.replicate (2 * depth) ' ' ++ content.toList := by
  rw [indented, String.toList_append, String.toList_ofList]

/-- A line without the blanks in front of it. -/
def unindented (line : List Char) : List Char :=
  line.dropWhile (· == ' ')

theorem unindented_indented (depth : Nat) (content : String) :
    unindented (indented depth content).toList = unindented content.toList := by
  have blanks : ∀ char ∈ List.replicate (2 * depth) ' ', (char == ' ') = true := by
    intro char member
    rw [List.eq_of_mem_replicate member]
    rfl
  rw [unindented, indented, String.toList_append, String.toList_ofList,
    List.dropWhile_append_of_pos blanks]
  rfl

theorem unindented_append {front : List Char} (filled : unindented front ≠ [])
    (back : List Char) : unindented (front ++ back) = unindented front ++ back := by
  rw [unindented, List.dropWhile_append, if_neg]
  · rfl
  · rwa [List.isEmpty_iff]

/-- Up to indentation, the lines of pieces are their contents and some empty lines. -/
theorem exists_line_iff (property : List Char → Prop) (unfilled : ¬ property [])
    {items : List Item} :
    (∃ line ∈ lines items, property (unindented line.toList)) ↔
      ∃ content ∈ contentsOf items, property (unindented content.toList) := by
  have member {line : String} (has : property (unindented line.toList)) (lines : List String) :
      line ∈ lines ↔ line ∈ lines.filter (· ≠ "") := by
    have filled : line ≠ "" := by
      rintro rfl
      exact unfilled has
    simp [filled]
  constructor
  · rintro ⟨line, inside, has⟩
    rw [member has, lines, filter_linesOf, ← member has] at inside
    obtain ⟨⟨depth, content⟩, row, rfl⟩ := List.mem_map.mp inside
    rw [unindented_indented] at has
    refine ⟨content, ?_, has⟩
    rw [← map_written_rowsOf items 0]
    exact List.mem_map.mpr ⟨_, row, rfl⟩
  · rintro ⟨content, inside, has⟩
    rw [← map_written_rowsOf items 0] at inside
    obtain ⟨⟨depth, _⟩, row, rfl⟩ := List.mem_map.mp inside
    rw [← unindented_indented depth] at has
    refine ⟨_, ?_, has⟩
    rw [member has, lines, filter_linesOf, ← member has]
    exact List.mem_map.mpr ⟨_, row, rfl⟩

/-! ## From lines to text -/

/-- The lines of a text, which line feeds divide. -/
def textLines (text : List Char) : List (List Char) :=
  text.splitOn '\n'

theorem textLines_eq_singleton {text : List Char} (single : '\n' ∉ text) :
    textLines text = [text] :=
  List.splitOn_eq_singleton single

theorem textLines_cons {char : Char} (other : char ≠ '\n') (rest : List Char) :
    textLines (char :: rest) = (textLines rest).modifyHead (List.cons char) := by
  simp only [textLines, List.splitOn_eq_splitOnP]
  rw [List.splitOnP_cons_eq_if_modifyHead, if_neg (by simpa using other)]

theorem textLines_intercalate {lines : List String} (filled : lines ≠ []) :
    textLines ("\n".intercalate lines).toList = lines.flatMap (textLines ·.toList) := by
  induction lines with
  | nil => contradiction
  | cons line rest ih =>
      cases rest with
      | nil => simp
      | cons next rest =>
          have cut : ("\n".intercalate (line :: next :: rest)).toList =
              line.toList ++ '\n' :: ("\n".intercalate (next :: rest)).toList := by
            rw [String.intercalate_cons_cons, String.toList_append, String.toList_append,
              List.append_assoc]
            rfl
          rw [cut, List.flatMap_cons, ← ih (by simp)]
          exact List.splitOn_append_cons_self _ _

/-- The text of a header has the lines of its layout and ends with a line feed. -/
theorem textLines_render {items : List Item} (filled : lines items ≠ []) :
    textLines (render items).toList = (lines items).flatMap (textLines ·.toList) ++ [[]] := by
  rw [← textLines_intercalate filled, render, String.toList_append]
  exact List.splitOn_append_cons_self _ []

/-- The text of lines, each with its line feed. -/
def textOf (lines : List String) : List Char :=
  lines.flatMap fun line => line.toList ++ ['\n']

theorem textOf_append (front back : List String) :
    textOf (front ++ back) = textOf front ++ textOf back :=
  List.flatMap_append

theorem textOf_cons (line : String) (rest : List String) :
    textOf (line :: rest) = line.toList ++ '\n' :: textOf rest := by
  rw [textOf, List.flatMap_cons, List.append_assoc, ← textOf]
  rfl

theorem toList_render {items : List Item} (filled : lines items ≠ []) :
    (render items).toList = textOf (lines items) := by
  rw [render]
  generalize lines items = shown at filled
  induction shown with
  | nil => contradiction
  | cons line rest ih =>
      cases rest with
      | nil => simp [textOf]
      | cons next rest =>
          rw [String.intercalate_cons_cons, String.append_assoc, String.toList_append,
            String.toList_append, ih (List.cons_ne_nil _ _), textOf_cons line, List.append_assoc]
          rfl

theorem textLines_textOf {shown : List String} (single : ∀ line ∈ shown, '\n' ∉ line.toList) :
    textLines (textOf shown) = shown.map String.toList ++ [[]] := by
  induction shown with
  | nil => rfl
  | cons line rest ih =>
      obtain ⟨here, others⟩ := List.forall_mem_cons.mp single
      rw [textOf_cons, textLines, List.splitOn_append_cons_self, ← textLines, ← textLines,
        textLines_eq_singleton here, ih others]
      rfl

end Pinout.Header
