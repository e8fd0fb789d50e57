import Pinout.Proofs.Header.Channel
import Pinout.Proofs.Header.Code
import Pinout.Proofs.Header.Spacing

/-! Writing a header line by line. An emitter that is handed one row after the other knows the
lines it has written and the number of blocks it has opened, but not what its lines are: to drop a
gap it looks at the last line, and takes one that ends in a brace for the opening of a block. No
header has another such line in front of a gap, although a text that is quoted may end as it
likes. So the emitter writes the text that the layout gives. -/

set_option autoImplicit false

namespace Pinout.Header

open Board (Policy)
open Resolution (Bank Bus Placement Resolved banksOf_of_pairwise channelPrecedes placedOutputs
  resolve)

/-! ## The emitter -/

/-- The lines that are written, the last one first, and the number of open blocks. -/
structure Emitter where
  done : List String
  opened : Nat

namespace Emitter

def new : Emitter :=
  ⟨[], 0⟩

def line (emitter : Emitter) (content : String) : Emitter :=
  ⟨(String.ofList (List.replicate (2 * emitter.opened) ' ') ++ content) :: emitter.done,
    emitter.opened⟩

def gap (emitter : Emitter) : Emitter :=
  match emitter.done with
  | [] => emitter
  | last :: _ =>
    if last = "" || opensBlock last then emitter else ⟨"" :: emitter.done, emitter.opened⟩

def opening (emitter : Emitter) (content : String) : Emitter :=
  ⟨(emitter.line content).done, emitter.opened + 1⟩

/-- An empty line in front of the end of a block is taken back. -/
def closing (emitter : Emitter) (content : String) : Emitter :=
  let kept := if emitter.done.head? = some "" then emitter.done.tail else emitter.done
  line ⟨kept, emitter.opened - 1⟩ content

/-- What a row asks for. The emitter counts blocks by itself. -/
def step (emitter : Emitter) : Row → Emitter
  | .text _ content => emitter.line content
  | .opening _ content => emitter.opening content
  | .closing _ content => emitter.closing content
  | .gap => emitter.gap

def text (emitter : Emitter) : String :=
  "\n".intercalate emitter.done.reverse ++ "\n"

end Emitter

/-- The text that an emitter makes of rows. -/
def emission (rows : List Row) : String :=
  (rows.foldl Emitter.step .new).text

/-! ## Agreement with the layout -/

def Spacing.after : Spacing → Row → Spacing
  | _, .text _ _ | _, .closing _ _ => .filled
  | _, .opening _ _ => .fresh
  | .fresh, .gap => .fresh
  | .filled, .gap | .waiting, .gap => .waiting

/-- The row has a line that is not empty, which shows the opening of a block as such. -/
def Row.Sound : Row → Prop
  | .text _ content | .closing _ content => content ≠ ""
  | .opening _ content => opensBlock content = true
  | .gap => True

/-- The row does not look like the opening of a block unless it is one. -/
def Row.Level : Row → Prop
  | .text _ content | .closing _ content => opensBlock content = false
  | .opening _ _ | .gap => True

/-- In front of a gap an emitter can tell what the row is. -/
def Yields (first second : Row) : Prop :=
  second = .gap → first.Level

/-- What the lines say about the spacing, in front of the given rows. -/
def Spacing.Shows (done : List String) (rows : List Row) : Spacing → Prop
  | .fresh => ∀ line ∈ done.head?, opensBlock line = true
  | .filled => ∃ line ∈ done.head?, line ≠ "" ∧ (rows.head? = some .gap → opensBlock line = false)
  | .waiting => True

theorem opensBlock_indented {content : String} (filled : content ≠ "") (depth : Nat) :
    opensBlock (indented depth content) = opensBlock content :=
  opensBlock_append (fun empty => filled (String.toList_eq_nil_iff.mp empty)) _

theorem Spacing.reverse_owed (spacing : Spacing) : spacing.owed.reverse = spacing.owed := by
  cases spacing <;> rfl

/-- Closing a block takes back the empty line of a gap that waits, and nothing else. -/
theorem closing_owed {spacing : Spacing} {done : List String} {rows : List Row}
    (shows : spacing.Shows done rows) (opened : Nat) (content : String) :
    Emitter.closing ⟨spacing.owed ++ done, opened⟩ content =
      ⟨indented (opened - 1) content :: done, opened - 1⟩ := by
  cases spacing with
  | waiting => rfl
  | fresh =>
      have kept : done.head? ≠ some "" := fun empty => absurd (shows "" empty) (by decide)
      simp [Emitter.closing, Emitter.line, Spacing.owed, indented, kept]
  | filled =>
      obtain ⟨line, last, filled, _⟩ := shows
      have kept : done.head? ≠ some "" := by
        rw [Option.mem_def.mp last]
        exact fun same => filled (Option.some.inj same)
      simp [Emitter.closing, Emitter.line, Spacing.owed, indented, kept]

/-- A gap changes the spacing and writes an empty line where the layout starts to owe one. -/
theorem gap_owed {spacing : Spacing} {done : List String} {rest : List Row}
    (shows : spacing.Shows done (.gap :: rest)) (opened : Nat) :
    Emitter.gap ⟨spacing.owed ++ done, opened⟩ = ⟨(spacing.after .gap).owed ++ done, opened⟩ := by
  cases spacing with
  | waiting => rfl
  | fresh =>
      cases done with
      | nil => rfl
      | cons last done =>
          have opens : opensBlock last = true := shows last rfl
          simp [Emitter.gap, Spacing.owed, Spacing.after, opens]
  | filled =>
      obtain ⟨line, last, filled, level⟩ := shows
      obtain ⟨tail, rfl⟩ := List.head?_eq_some_iff.mp last
      simp [Emitter.gap, Spacing.owed, Spacing.after, filled, level rfl]

/-- One row: what the emitter adds is what the layout writes, but that the emitter writes the
empty line of a gap at once. -/
theorem exists_step {row : Row} {rest : List Row} {spacing : Spacing} {done : List String}
    {opened : Nat} (sound : row.Sound) (yields : rest.head? = some .gap → row.Level)
    (nested : Nested opened (row :: rest)) (shows : spacing.Shows done (row :: rest)) :
    ∃ shown depth, Emitter.step ⟨spacing.owed ++ done, opened⟩ row =
        ⟨(spacing.after row).owed ++ (shown.reverse ++ done), depth⟩ ∧
      linesOf spacing (row :: rest) = shown ++ linesOf (spacing.after row) rest ∧
      Nested depth rest ∧ (spacing.after row).Shows (shown.reverse ++ done) rest := by
  cases row with
  | text depth content =>
      obtain ⟨rfl, nested⟩ := nested
      refine ⟨spacing.owed ++ [indented depth content], depth, ?_, ?_, nested,
        indented depth content, ?_, indented_ne_empty sound depth, ?_⟩
      · rw [List.reverse_append, spacing.reverse_owed]
        rfl
      · rw [linesOf, List.append_assoc]
        rfl
      · rw [List.reverse_append]
        rfl
      · rw [opensBlock_indented sound]
        exact yields
  | opening depth content =>
      obtain ⟨rfl, nested⟩ := nested
      have filled : content ≠ "" := by
        rintro rfl
        cases sound
      refine ⟨spacing.owed ++ [indented depth content], depth + 1, ?_, ?_, nested, ?_⟩
      · rw [List.reverse_append, spacing.reverse_owed]
        rfl
      · rw [linesOf, List.append_assoc]
        rfl
      · rw [List.reverse_append]
        rintro line ⟨⟩
        exact (opensBlock_indented filled depth).trans sound
  | closing depth content =>
      obtain ⟨rfl, nested⟩ := nested
      refine ⟨[indented depth content], depth, closing_owed shows _ content, rfl, nested,
        indented depth content, rfl, indented_ne_empty sound depth, ?_⟩
      rw [opensBlock_indented sound]
      exact yields
  | gap =>
      refine ⟨[], opened, gap_owed shows opened, ?_, nested, ?_⟩
      · cases spacing <;> rfl
      · cases spacing with
        | fresh => exact shows
        | filled => exact trivial
        | waiting => exact trivial

/-- An emitter that has written what the layout has goes on as the layout does. -/
theorem done_foldl_step {rows : List Row} {spacing : Spacing} {done : List String} {opened : Nat}
    (sound : ∀ row ∈ rows, row.Sound) (chain : rows.IsChain Yields) (nested : Nested opened rows)
    (shows : spacing.Shows done rows) :
    (rows.foldl Emitter.step ⟨spacing.owed ++ done, opened⟩).done =
      (rows.foldl Spacing.after spacing).owed ++ ((linesOf spacing rows).reverse ++ done) := by
  -- What the last line shows is carried along: the emitter has nothing else to go by.
  induction rows generalizing spacing done opened with
  | nil => rfl
  | cons row rest ih =>
      obtain ⟨here, others⟩ := List.forall_mem_cons.mp sound
      have yields : rest.head? = some .gap → row.Level := by
        intro gap
        obtain ⟨tail, rfl⟩ := List.head?_eq_some_iff.mp gap
        exact (List.isChain_cons_cons.mp chain).1 rfl
      obtain ⟨shown, depth, step, lines, nested, shows⟩ := exists_step here yields nested shows
      rw [List.foldl_cons, List.foldl_cons, step, ih others chain.tail nested shows, lines,
        List.reverse_append, List.append_assoc]

/-- Where rows can be told by their lines and the last of them is no gap, an emitter makes of them
the text of the layout. -/
theorem emission_rowsOf {items : List Item} (sound : ∀ row ∈ rowsOf 0 items, row.Sound)
    (chain : (rowsOf 0 items).IsChain Yields)
    (last : (rowsOf 0 items).foldl Spacing.after .fresh = .filled) :
    emission (rowsOf 0 items) = render items := by
  have nested := @nested_rowsOf items 0 [] rfl
  have done := @done_foldl_step _ .fresh [] _ sound chain (by rwa [List.append_nil] at nested) nofun
  simp only [last, List.append_nil] at done
  rw [emission, Emitter.text, render, lines, ← List.reverse_reverse (linesOf .fresh _)]
  exact congrArg (fun done => "\n".intercalate done.reverse ++ "\n") done

/-! ## Pieces that can be told by their lines -/

theorem Remark.ne_empty {content : String} (remark : Remark content) : content ≠ "" := by
  rintro rfl
  cases remark

/-- No content of an outline is empty, and what opens a block looks like it. -/
theorem Outline.sound {scope : List String} {items : List Item} {told : List Declared}
    (outline : Outline scope items told) :
    ∀ depth, ∀ row ∈ rowsOf depth items, row.Sound := by
  induction outline with
  | nil => exact fun _ => List.forall_mem_nil _
  | gap _ ih => exact fun depth => List.forall_mem_cons.mpr ⟨trivial, ih depth⟩
  | remark remark _ ih =>
      exact fun depth => List.forall_mem_cons.mpr ⟨remark.ne_empty, ih depth⟩
  | line introduced _ _ ih =>
      exact fun depth => List.forall_mem_cons.mpr ⟨introduced.flush.ne_empty, ih depth⟩
  | @block _ _ _ _ _ closing _ _ _ _ opens ended _ _ inside ih =>
      have filled : closing ≠ "" := by
        rintro rfl
        exact absurd ended (by decide)
      intro depth
      rw [rowsOf, Item.rows, List.cons_append, List.append_assoc]
      exact List.forall_mem_cons.mpr ⟨opens, List.forall_mem_append.mpr ⟨inside (depth + 1),
        List.forall_mem_cons.mpr ⟨filled, ih depth⟩⟩⟩

/-- The piece starts with a line. -/
def Item.Filled : Item → Prop
  | .line _ | .block _ _ _ => True
  | .gap => False

/-- Pieces none of which looks like the opening of a block in front of a gap, whatever follows. -/
inductive Firm : List Item → Prop where
  | nil : Firm []
  | gap {items} : Firm items → Firm (.gap :: items)
  | line {content items} :
      opensBlock content = false → Firm items → Firm (.line content :: items)
  /-- A line that something else follows than a gap may end as it likes. -/
  | leading {content next items} :
      next.Filled → Firm (next :: items) → Firm (.line content :: next :: items)
  | block {opening body closing items} :
      Firm body → opensBlock closing = false → Firm items →
      Firm (.block opening body closing :: items)

theorem isChain_cons_of_level {row : Row} {rest : List Row} (level : row.Level)
    (chain : rest.IsChain Yields) : (row :: rest).IsChain Yields := by
  cases rest with
  | nil => exact .singleton row
  | cons next rest => exact .cons_cons (fun _ => level) chain

namespace Firm

variable {items front back : List Item}

theorem append (firm : Firm front) (other : Firm back) : Firm (front ++ back) := by
  induction firm with
  | nil => exact other
  | gap _ ih => exact .gap ih
  | line level _ ih => exact .line level ih
  | leading filled _ ih => exact .leading filled ih
  | block inside level _ _ ih => exact .block inside level ih

theorem flatMap {α : Type} {pieces : α → List Item} {values : List α}
    (each : ∀ value ∈ values, Firm (pieces value)) : Firm (values.flatMap pieces) := by
  induction values with
  | nil => exact .nil
  | cons value rest ih =>
      obtain ⟨here, others⟩ := List.forall_mem_cons.mp each
      exact here.append (ih others)

/-- Any lines may stand in front of a piece that is no gap. -/
theorem behind_lines {item : Item} (texts : List String) (filled : item.Filled)
    (firm : Firm (item :: items)) : Firm (texts.map .line ++ item :: items) := by
  induction texts with
  | nil => exact firm
  | cons text rest ih =>
      cases rest with
      | nil => exact .leading filled firm
      | cons next rest => exact .leading trivial ih

theorem isChain (firm : Firm items) (depth : Nat) {rest : List Row} (chain : rest.IsChain Yields) :
    (rowsOf depth items ++ rest).IsChain Yields := by
  induction firm generalizing depth rest with
  | nil => exact chain
  | gap _ ih => exact isChain_cons_of_level trivial (ih depth chain)
  | line level _ ih => exact isChain_cons_of_level level (ih depth chain)
  | @leading content next _ filled _ ih =>
      have behind := ih depth chain
      cases next with
      | line text => exact .cons_cons nofun behind
      | gap => exact absurd filled id
      | block opening body closing => exact .cons_cons nofun behind
  | block _ level _ inside ih =>
      rw [rowsOf, Item.rows, List.cons_append, List.cons_append, List.append_assoc,
        List.append_assoc]
      exact isChain_cons_of_level trivial
        (inside (depth + 1) (isChain_cons_of_level level (ih depth chain)))

theorem constant {type name : String} {values : List String} (firm : Firm items) :
    Firm (Header.constant type name values :: items) :=
  .line (opensBlock_append (by decide) _) firm

theorem titled {title type name : String} {values : List String} (firm : Firm items) :
    Firm (.line title :: Header.constant type name values :: items) :=
  .leading trivial firm.constant

end Firm

/-! ## Sections -/

section Sections

variable {board : Resolved} {options : Options}

theorem firm_omissions (resource : Resource) : Firm (omissions board resource) := by
  have lines (indices : List UInt8) :
      Firm (indices.map fun index => .line (omission resource index)) := by
    induction indices with
    | nil => exact .nil
    | cons index rest ih => exact .line (opensBlock_append (by decide) _) ih
  unfold omissions
  split
  · exact .nil
  · exact (lines _).append (.gap .nil)

theorem firm_storageItems : Firm (storageItems board options) := by
  unfold storageItems
  cases storage? board with
  | none => exact .nil
  | some storage =>
      dsimp only
      cases board.bus? .spi storage.bus with
      | none => exact .line (opensBlock_append (by decide) _) (.gap .nil)
      | some bus => exact .titled (.gap .nil)

theorem firm_motionItems : Firm (motionItems board options) := by
  unfold motionItems
  cases board.role? .gyroCs with
  | none => exact .nil
  | some select =>
      dsimp only
      cases board.bus? .spi (motionIndex board) with
      | none => exact .line (opensBlock_append (by decide) _) (.gap .nil)
      | some bus => exact .titled (.constant (.gap .nil))

theorem firm_i2cItems : Firm (i2cItems board options) :=
  ((firm_omissions _).append (firm_omissions _)).append
    (.flatMap fun _ _ => .titled (.gap .nil))

theorem firm_uartItems : Firm (uartItems board options) :=
  ((firm_omissions _).append (firm_omissions _)).append
    (.flatMap fun _ _ => .titled (.gap .nil))

theorem firm_spiItems : Firm (spiItems board options) := by
  refine (((firm_omissions _).append (firm_omissions _)).append (firm_omissions _)).append
    (.flatMap fun bus _ => ?_)
  unfold spiItem
  split
  · exact .titled (.gap .nil)
  · exact .titled (.gap .nil)

theorem firm_batteryItems : Firm (batteryItems board) := by
  unfold batteryItems
  dsimp only
  split
  · exact .nil
  · exact .titled (.gap .nil)

theorem firm_strengthItems : Firm (strengthItems board) := by
  unfold strengthItems
  split
  · exact .nil
  · refine .leading trivial (.line ?_ (.gap .nil))
    split
    · exact opensBlock_append_word (Capability.Entry.isWord_label _) _
    · exact (congrArg opensBlock String.append_empty).trans (opensBlock_append (by decide) _)

theorem firm_analogItems : Firm (analogItems board) :=
  ((((firm_omissions _).append (firm_omissions _)).append (firm_omissions _)).append
    firm_batteryItems).append firm_strengthItems

theorem firm_lightItems : Firm (lightItems board) := by
  unfold lightItems
  split
  · exact .nil
  · exact .titled (.gap .nil)

theorem firm_beeperItems : Firm (beeperItems board) := by
  unfold beeperItems
  split
  · exact .nil
  · rename_i beeper _
    have pin : opensBlock ("static constexpr uint32_t beeper_pin = " ++ beeper.variant.name ++
        ";") = false := opensBlock_append (by decide) _
    dsimp only
    split
    · exact .leading trivial (.line pin (.gap .nil))
    · exact .leading trivial (.line pin (.line (opensBlock_append (by decide) _) (.gap .nil)))

theorem firm_channels (family : Family) (timing : Timing) (placements : List Placement) :
    Firm (placements.filterMap (channelItem? family timing)) := by
  rw [List.filterMap_eq_flatMap_toList]
  refine .flatMap fun placement _ => ?_
  unfold channelItem?
  cases placement.entry with
  | none => exact .nil
  | some entry =>
      refine .line ?_ .nil
      rw [← String.append_assoc]
      exact opensBlock_append_word entry.isWord_label _

theorem firm_bankItems (family : Family) (timing : Timing) (bank : Bank) :
    Firm (bankItems family timing bank) := by
  have type : Firm [channelType] :=
    .block (.line (by decide) (.line (by decide) (.line (by decide) (.line (by decide) .nil))))
      (by decide) .nil
  exact .leading trivial (.block (.line (opensBlock_append (by decide) _) (.gap (type.append
    (.gap (firm_channels family timing _))))) (by decide) (.gap .nil))

theorem firm_familyItems (family : Family) : Firm (familyItems board family) := by
  unfold familyItems
  dsimp only
  split
  · exact firm_omissions _
  · refine .leading trivial (.block (.append (.append ?_ (firm_omissions _)) ?_) (by decide)
      (.gap .nil))
    · exact .line (opensBlock_append (by decide) _) (.gap .nil)
    · exact .flatMap fun bank _ => firm_bankItems family _ bank

theorem firm_bodyItems : Firm (bodyItems board options) := by
  have buses : Firm (storageItems board options ++ motionItems board options ++
      i2cItems board options ++ uartItems board options ++ spiItems board options) :=
    (((firm_storageItems.append firm_motionItems).append firm_i2cItems).append
      firm_uartItems).append firm_spiItems
  have inputs := ((buses.append (@firm_analogItems board)).append
    (@firm_lightItems board)).append (@firm_beeperItems board)
  exact ((inputs.append (firm_familyItems .servo)).append (firm_familyItems .motor)).append
    (firm_familyItems .ledStrip)

/-! ## Whole headers -/

theorem firm_noticeItems : Firm (noticeItems options) := by
  have closed : Firm [.line " */", .gap, .line "#pragma once", .gap,
      .line "#include \"ConfigTypes.h\"", .gap] :=
    .line (by decide) (.gap (.line (by decide) (.gap (.line (by decide) (.gap .nil)))))
  rw [noticeItems_eq, noticeLines, ← List.cons_append, List.map_append, List.append_assoc]
  exact .behind_lines ("/*" :: noticeTexts options) trivial closed

/-- What is quoted at the head stands in front of the namespace, not of a gap. -/
theorem firm_head : Firm (noticeItems options ++ descriptionItems board ++
    [.block "namespace BoardConfig \x7b" (bodyItems board options) "\x7d"]) := by
  rw [List.append_assoc, descriptionItems_eq]
  exact firm_noticeItems.append
    (.behind_lines (describedLines board) trivial (.block firm_bodyItems (by decide) .nil))

end Sections

theorem isChain_lines (depth : Nat) (texts : List String) :
    (rowsOf depth (texts.map .line)).IsChain Yields := by
  induction texts with
  | nil => exact .nil
  | cons text rest ih =>
      cases rest with
      | nil => exact .singleton _
      | cons next rest => exact .cons_cons nofun ih

theorem after_lines (spacing : Spacing) (depth : Nat) (text : String) (texts : List String) :
    (rowsOf depth ((text :: texts).map .line)).foldl Spacing.after spacing = .filled := by
  induction texts generalizing spacing text with
  | nil => cases spacing <;> rfl
  | cons next rest ih => exact ih _ next

theorem after_block (spacing : Spacing) (depth : Nat) (opening closing : String)
    (body : List Item) :
    (rowsOf depth [.block opening body closing]).foldl Spacing.after spacing = .filled := by
  rw [rowsOf, Item.rows, rowsOf, List.append_nil, List.foldl_cons, List.foldl_append]
  generalize (rowsOf (depth + 1) body).foldl Spacing.after _ = inside
  cases inside <;> rfl

/-- What is kept for reference is a gap and lines, or nothing. -/
theorem exists_keptTexts (board : Resolved) (options : Options) :
    (if options.keepRest then restItems board.definition else []) = [] ∨
      ∃ text texts, (if options.keepRest then restItems board.definition else []) =
        .gap :: (text :: texts).map .line := by
  split
  · unfold restItems
    cases restTexts board.definition with
    | nil => exact .inl rfl
    | cons text rest =>
        refine .inr ⟨"// Not translated (kept for reference):",
          (text :: rest).map ("//   " ++ ·), ?_⟩
        rw [List.map_cons, List.map_map]
        rfl
  · exact .inl rfl

/-- An emitter that looks at its last line only writes the text of a header. -/
theorem emission_document (board : Resolved) (options : Options) :
    emission (rowsOf 0 (document board options)) = generate board options := by
  have firm := @firm_head board options
  refine emission_rowsOf (outline_document.sound 0) ?_ ?_
  · rw [document, rowsOf_append]
    refine firm.isChain 0 ?_
    rcases exists_keptTexts board options with none | ⟨text, texts, kept⟩
    · rw [none]
      exact .nil
    · rw [kept]
      exact isChain_cons_of_level trivial (isChain_lines 0 _)
  · rw [document, rowsOf_append, rowsOf_append, List.foldl_append, List.foldl_append, after_block]
    rcases exists_keptTexts board options with none | ⟨text, texts, kept⟩
    · rw [none]
      rfl
    · rw [kept]
      exact after_lines _ 0 text texts

theorem Outline.filled {scope : List String} {items : List Item} {told : List Declared}
    (outline : Outline scope items told) : Throughout (· ≠ "") items := by
  induction outline with
  | nil => exact .nil
  | gap _ ih => exact .gap ih
  | remark remark _ ih => exact .line remark.ne_empty ih
  | line introduced _ _ ih => exact .line introduced.flush.ne_empty ih
  | block introduced _ ended _ _ inside ih =>
      have closes : ∀ closing ∈ blockEnds, closing ≠ "" := by decide
      exact .block introduced.flush.ne_empty inside (closes _ ended) ih

/-- Where nothing that the caller gives breaks a line, a header is the text that an emitter makes
of its rows, and is laid out well. -/
theorem laidOut_generate (policy : Policy) (text mcu tableText : String)
    (settings : Resolution.Options) (options : Options)
    (source : ∀ name, options.source = some name → '\n' ∉ name.toList)
    (named : '\n' ∉ mcu.toList) :
    let board := (resolve (Board.parse policy text).board
      (Capability.parse mcu tableText).table settings).board
    let calls := rowsOf 0 (document board options)
    generate board options = emission calls ∧
      ∃ shown, LaidOut calls shown (generate board options) := by
  intro board calls
  have single : Throughout Single (document board options) :=
    single_of_mem_document (Board.fromText_parse policy text) source named
  have occupied : contentsOf (document board options) ≠ [] :=
    List.ne_nil_of_mem (mem_document_of_quoted .mcu)
  exact ⟨(emission_document board options).symm, _,
    laidOut_render occupied outline_document.filled single⟩

/-- The name of the source may even end as the opening of a block does. A line inside
of three blocks stands six blanks in. -/
theorem laidOut_pair :
    let board := (resolve (Board.parse .lastWins pairBoard).board
      (Capability.parse "F4" pairTable).table {}).board
    let options : Options := { source := some "quad \x7b" }
    let calls := rowsOf 0 (document board options)
    (∀ name, options.source = some name → '\n' ∉ name.toList) ∧ '\n' ∉ "F4".toList ∧
      calls[2]? = some (.text 0 " * Source: quad \x7b") ∧
      calls[27]? = some (.text 3
        "static constexpr Channel servo1 = \x7bPA_9, 2, 1000, 2000\x7d;  // TIM1_CH2") ∧
      "      static constexpr Channel servo1 = \x7bPA_9, 2, 1000, 2000\x7d;  // TIM1_CH2".toList ∈
        textLines (generate board options).toList ∧
      generate board options = emission calls ∧
      ∃ shown, LaidOut calls shown (generate board options) := by
  intro board options calls
  have source : ∀ name, options.source = some name → '\n' ∉ name.toList := by
    rintro name ⟨⟩
    decide
  have channel : calls[27]? = some (.text 3
      "static constexpr Channel servo1 = \x7bPA_9, 2, 1000, 2000\x7d;  // TIM1_CH2") := by
    -- Sorting two channels does not reduce, but they stand in order.
    have sorted : (placedOutputs (Board.parse .lastWins pairBoard).board
        (Capability.parse "F4" pairTable).table).Pairwise fun first second =>
          channelPrecedes first second = true := by
      simp only [Board.board_parse, Capability.table_parse]
      decide +kernel
    have banks : board.banks = _ := banksOf_of_pairwise sorted
    have replaced (board : Resolved) {found : List Bank} (same : board.banks = found) :
        board = { board with banks := found } := by rw [← same]
    dsimp only [calls]
    rw [replaced board banks]
    simp only [board, Board.board_parse, Capability.table_parse]
    decide +kernel
  obtain ⟨emitted, shown, laid⟩ :=
    laidOut_generate .lastWins pairBoard "F4" pairTable {} options source (by decide)
  have line := laid.line_mem (List.mem_of_getElem? channel) (by rintro ⟨⟩)
  exact ⟨source, by decide, rfl, channel, line, emitted, shown, laid⟩

end Pinout.Header
