import Pinout.Proofs.Header.Logical
import Pinout.Proofs.Header.Omission

/-! Comments that swallow the next line. A backslash at the end of a comment splices the
following line into it. Everything a header says in its own words ends otherwise, but the
lines that quote a text end as the text does, and no text from a board is kept from ending
in a backslash. -/

set_option autoImplicit false

namespace Pinout.Header

open Board (Definition Policy)
open Resolution (Bus Placement Resolved resolve)
open Text (Solid Without letters letters_eq)

/-! ## Spliced lines -/

/-- A comment, indented or not, that ends in a backslash. -/
structure Splices (line : List Char) : Prop where
  comment : ['/', '/'] <+: unindented line
  ending : line.getLast? = some '\\'

instance (line : List Char) : Decidable (Splices line) :=
  decidable_of_iff (['/', '/'] <+: unindented line ∧ line.getLast? = some '\\')
    ⟨fun ⟨comment, ending⟩ => ⟨comment, ending⟩, fun spliced => ⟨spliced.1, spliced.2⟩⟩

/-- Does some line of the text splice the next one into a comment? -/
def SplicesIn (text : List Char) : Prop :=
  ∃ line ∈ textLines text, Splices line

instance (text : List Char) : Decidable (SplicesIn text) :=
  inferInstanceAs (Decidable (∃ line ∈ textLines text, Splices line))

theorem not_splicesIn_nil : ¬ SplicesIn [] := by
  decide

theorem splicesIn_iff_of_single {text : List Char} (single : '\n' ∉ text) :
    SplicesIn text ↔ Splices text := by
  simp [SplicesIn, textLines_eq_singleton single]

theorem not_splicesIn_of_not_mem {text : List Char} (absent : '\\' ∉ text) :
    ¬ SplicesIn text := by
  rintro ⟨line, member, spliced⟩
  rw [textLines, List.splitOn_eq_splitOnP] at member
  exact absent (Text.mem_of_mem_splitOnP member (List.mem_of_getLast? spliced.ending)).1

theorem splices_blank_cons_iff (line : List Char) : Splices (' ' :: line) ↔ Splices line := by
  have bare : unindented (' ' :: line) = unindented line := rfl
  constructor
  · rintro ⟨comment, ending⟩
    rw [bare] at comment
    cases line with
    | nil => exact absurd comment (by decide)
    | cons first rest => exact ⟨comment, by rwa [List.getLast?_cons_cons] at ending⟩
  · rintro ⟨comment, ending⟩
    cases line with
    | nil => exact absurd comment (by decide)
    | cons first rest => exact ⟨by rwa [bare], by rwa [List.getLast?_cons_cons]⟩

theorem splicesIn_blank_cons_iff (text : List Char) :
    SplicesIn (' ' :: text) ↔ SplicesIn text := by
  unfold SplicesIn
  rw [textLines_cons (by decide)]
  cases textLines text with
  | nil => rfl
  | cons line rest =>
      simp only [List.modifyHead_cons, List.exists_mem_cons_iff, splices_blank_cons_iff]

/-- Indentation neither makes nor breaks a splice. -/
theorem splicesIn_unindented_iff (text : List Char) :
    SplicesIn (unindented text) ↔ SplicesIn text := by
  induction text with
  | nil => rfl
  | cons first rest ih =>
      by_cases blank : first = ' '
      · subst blank
        rw [splicesIn_blank_cons_iff, ← ih]
        rfl
      · rw [unindented, List.dropWhile_cons_of_neg (by simpa using blank)]

theorem splicesIn_render_iff {items : List Item} :
    SplicesIn (render items).toList ↔ ∃ content ∈ contentsOf items, SplicesIn content.toList := by
  have lined : SplicesIn (render items).toList ↔ ∃ line ∈ lines items, SplicesIn line.toList := by
    by_cases filled : lines items = []
    · have empty : ¬ SplicesIn ("\n".intercalate [] ++ "\n").toList := by decide
      simp only [render, filled, List.not_mem_nil, false_and, exists_false, iff_false]
      exact empty
    · unfold SplicesIn
      rw [textLines_render filled]
      constructor
      · rintro ⟨line, member, spliced⟩
        rcases List.mem_append.mp member with inside | ending
        · obtain ⟨whole, listed, part⟩ := List.mem_flatMap.mp inside
          exact ⟨whole, listed, line, part, spliced⟩
        · rw [List.mem_singleton.mp ending] at spliced
          exact absurd spliced (by decide)
      · rintro ⟨whole, listed, line, part, spliced⟩
        exact ⟨line, List.mem_append_left _ (List.mem_flatMap.mpr ⟨whole, listed, part⟩), spliced⟩
  have indents := @exists_line_iff SplicesIn not_splicesIn_nil items
  simp only [splicesIn_unindented_iff] at indents
  exact lined.trans indents

/-! ## Quoted texts that end in a backslash -/

def EndsInBackslash (text : String) : Prop :=
  text.toList.getLast? = some '\\'

instance (text : String) : Decidable (EndsInBackslash text) :=
  decidable_of_iff ((letters text).getLast? = some '\\') <| by
    rw [letters_eq, EndsInBackslash]

theorem endsInBackslash_append_iff {front : String} (closed : ¬ EndsInBackslash front)
    (back : String) : EndsInBackslash (front ++ back) ↔ EndsInBackslash back := by
  unfold EndsInBackslash at closed ⊢
  rw [String.toList_append, List.getLast?_append]
  cases back.toList.getLast? with
  | none => simpa using closed
  | some last => simp

/-- A list of texts ends as its last text does. -/
theorem endsInBackslash_intercalate_iff (texts : List String) :
    EndsInBackslash (", ".intercalate texts) ↔
      ∃ last, texts.getLast? = some last ∧ EndsInBackslash last := by
  induction texts with
  | nil => simp [EndsInBackslash]
  | cons text rest ih =>
      cases rest with
      | nil => simp
      | cons next rest =>
          have closed : ¬ EndsInBackslash (text ++ ", ") := by
            unfold EndsInBackslash
            rw [getLast?_append (by decide)]
            decide
          rw [String.intercalate_cons_cons, endsInBackslash_append_iff closed, ih,
            List.getLast?_cons_cons]

theorem splices_comment_iff {text : String} (comment : ['/', '/'] <+: unindented text.toList) :
    Splices text.toList ↔ EndsInBackslash text :=
  ⟨fun spliced => spliced.ending, fun ending => ⟨comment, ending⟩⟩

/-! ## Texts of one line -/

section Single

variable {board : Definition}

theorem exists_hint_of_mem_chipsOf {category chip : String}
    (member : chip ∈ chipsOf board category) :
    ∃ hint ∈ board.hints.declared, hint.variant = chip := by
  have listed := (List.mem_filter.mp (List.mem_eraseDups.mp member)).1
  obtain ⟨hint, declared, rfl⟩ := List.mem_map.mp listed
  exact ⟨hint, (List.mem_filter.mp declared).1, rfl⟩

theorem exists_hint_of_mem_gyroChips {chip : String} (member : chip ∈ gyroChips board) :
    ∃ hint ∈ board.hints.declared, hint.variant = chip := by
  unfold gyroChips at member
  split at member
  · exact exists_hint_of_mem_chipsOf member
  · exact exists_hint_of_mem_chipsOf member

/-- One line: no line feed. -/
abbrev Single (text : String) : Prop :=
  Without ['\n'] text

theorem Level.single {text : String} (level : Level text) : Single text :=
  level.of_fewer (by decide)

theorem level_of_plain {text : String} (plain : Plain text) : Level text :=
  plain.of_fewer (by decide)

/-- A text without blanks is one line. -/
theorem level_of_solid {text : String} (solid : Solid text.toList) : Level text := by
  have blanks : (['\n', '\r'].all Text.isBlank) = true := by decide
  intro char member listed
  have inked := solid char member
  rw [List.all_eq_true.mp blanks char listed] at inked
  cases inked

theorem single_of_plain {text : String} (plain : Plain text) : Single text :=
  (level_of_plain plain).single

theorem single_indented {content : String} (single : Single content) (depth : Nat) :
    Single (indented depth content) := by
  intro char inside
  rw [toList_indented, List.mem_append] at inside
  rcases inside with blank | within
  · rw [List.eq_of_mem_replicate blank]
    decide
  · exact single char within

theorem level_gyroChips (quoted : board.FromText) :
    ∀ chip ∈ gyroChips board, Level chip := by
  intro chip member
  obtain ⟨hint, declared, rfl⟩ := exists_hint_of_mem_gyroChips member
  exact level_of_solid (quoted.hints hint declared).2

theorem level_features (quoted : board.FromText) :
    ∀ feature ∈ features board, Level feature := by
  intro feature member
  obtain ⟨⟨category, variant⟩, chosen, rfl⟩ := List.mem_map.mp member
  obtain ⟨hint, declared, rfl, rfl⟩ :=
    Board.exists_hint_of_mem_selections (List.mem_filter.mp chosen).1
  have ⟨first, second⟩ := quoted.hints hint declared
  have category := level_of_solid first
  have variant := level_of_solid second
  dsimp only
  split
  · exact category
  · exact (category.append (by decide)).append variant

theorem level_label (quoted : board.FromText) (select : Placement) :
    Level (flashStorage board select).label := by
  unfold flashStorage
  dsimp only
  split
  · decide
  · decide
  · rename_i chip _ found
    obtain ⟨hint, declared, _, rfl⟩ := Board.exists_hint_of_selected? found
    have variant := level_of_solid (quoted.hints hint declared).2
    exact variant.append (by decide)

/-- A kept resource is shown by words. -/
theorem restTexts_cases (quoted : board.FromText) {text : String}
    (member : text ∈ restTexts board) :
    Plain text ∨ ∃ kept ∈ board.verbatim, kept.text = text := by
  rcases List.mem_append.mp member with resource | verbatim
  · obtain ⟨assignment, inside, rfl⟩ := List.mem_map.mp resource
    have keyword := plain_of_isWord (quoted.keywords assignment (List.mem_filter.mp inside).1)
    have index := plain_of_isWord (Text.isWord_decimal assignment.id.index.toNat)
    have pin := plain_of_isWord assignment.pin.isWord_boardToken
    have name : Plain assignment.id.name := (keyword.append (by decide)).append index
    exact .inl ((((by decide : Plain "resource ").append name).append (by decide)).append pin)
  · obtain ⟨kept, inside, rfl⟩ := List.mem_map.mp verbatim
    exact .inr ⟨kept, inside, rfl⟩

end Single

/-! ## Lines that splice nothing -/

theorem not_splicesIn_of_plain {content : String} (plain : Plain content) :
    ¬ SplicesIn content.toList :=
  not_splicesIn_of_not_mem fun member => plain '\\' member (by decide)

theorem not_splicesIn_of_mark {text : String} (mark : Mark text) : ¬ SplicesIn text.toList := by
  have closed {front back : String} (plain : Plain front) (tail : Without ['\\'] back) :
      ¬ SplicesIn (front ++ back).toList := by
    have bare : Without ['\\'] front := by
      intro char member slash
      exact plain char member (by simp [List.mem_singleton.mp slash])
    exact not_splicesIn_of_not_mem (Text.without_singleton_iff.mp (bare.append tail))
  cases mark with
  | resource modeled index =>
      have keyword := plain_of_isWord (Resource.isWord_keyword modeled)
      exact closed ((((by decide : Plain "// ").append keyword).append (by decide)).append
        (plain_index index)) (by decide)
  | storage bus =>
      exact closed ((by decide : Plain "// Storage: omitted (SPI bus ").append (plain_index bus))
        (by decide)
  | motion bus =>
      exact closed ((by decide : Plain "// IMU: omitted (SPI bus ").append (plain_index bus))
        (by decide)

theorem not_splicesIn_title {front : String} (single : Single front) (target : Instance) :
    ¬ SplicesIn (front ++ target.name).toList := by
  have whole := single.append (single_of_plain (plain_target target))
  rw [splicesIn_iff_of_single (Text.without_singleton_iff.mp whole)]
  exact fun spliced => getLast?_title_ne (by decide) front target spliced.ending

section Devices

variable {board : Resolved} {options : Options} {content : String}

theorem level_storageTitle {storage : Storage} (quoted : board.definition.FromText)
    (found : storage? board = some storage) :
    Level ("// Storage: " ++ storage.label ++ " on ") := by
  have label : Level storage.label := by
    rcases storage?_cases found with ⟨select, rfl⟩ | ⟨select, rfl⟩
    · exact level_label quoted select
    · exact (by decide : Level "SD card")
  exact ((by decide : Level "// Storage: ").append label).append (by decide)

theorem plain_storageValues {storage : Storage} (found : storage? board = some storage)
    (bus : Bus) : ∀ value ∈ storageValues options storage bus, Plain value := by
  have backend : Plain storage.backend := by
    rcases storage?_cases found with ⟨select, rfl⟩ | ⟨select, rfl⟩
    · exact (by decide : Plain "LITTLEFS")
    · exact (by decide : Plain "SDFS")
  simp only [storageValues, List.cons_append, List.forall_mem_cons, List.forall_mem_append]
  exact ⟨(by decide : Plain "StorageBackend::").append backend, plain_spiPins bus,
    plain_pinName _, plain_toString _, List.forall_mem_nil _⟩

theorem not_splicesIn_storage (quoted : board.definition.FromText)
    (member : content ∈ contentsOf (storageItems board options)) : ¬ SplicesIn content.toList := by
  obtain ⟨storage, found, ⟨_, rfl⟩ | ⟨bus, _, rfl | rfl⟩⟩ := mem_storageItems_iff.mp member
  · exact not_splicesIn_of_mark (.storage storage.bus)
  · exact not_splicesIn_title (level_storageTitle quoted found).single bus.target
  · exact not_splicesIn_of_plain (plain_declaration (by decide) (plain_storageValues found bus))

theorem level_motionTitle (quoted : board.definition.FromText) :
    Level ("// IMU: " ++ motionLabel board.definition ++ " on ") := by
  have label : Level (motionLabel board.definition) := by
    unfold motionLabel
    split
    · decide
    · exact Without.intercalate (by decide) (level_gyroChips quoted)
  exact ((by decide : Level "// IMU: ").append label).append (by decide)

theorem plain_motionBusValues (select : Placement) (bus : Bus) :
    ∀ value ∈ motionBusValues options select bus, Plain value := by
  simp only [motionBusValues, List.forall_mem_append, List.forall_mem_cons]
  exact ⟨plain_spiPins bus, plain_pinName _, plain_toString _, by decide, List.forall_mem_nil _⟩

theorem plain_motionValues : ∀ value ∈ motionValues board options, Plain value := by
  simp only [motionValues, List.forall_mem_cons]
  exact ⟨by decide, plain_pinOrZero _, plain_toString _, List.forall_mem_nil _⟩

theorem not_splicesIn_motion (quoted : board.definition.FromText)
    (member : content ∈ contentsOf (motionItems board options)) : ¬ SplicesIn content.toList := by
  obtain ⟨select, _, ⟨_, rfl⟩ | ⟨bus, _, rfl | rfl | rfl⟩⟩ := mem_motionItems_iff.mp member
  · exact not_splicesIn_of_mark (.motion _)
  · exact not_splicesIn_title (level_motionTitle quoted).single bus.target
  · exact not_splicesIn_of_plain
      (plain_declaration (by decide) (plain_motionBusValues select bus))
  · exact not_splicesIn_of_plain (plain_declaration (by decide) plain_motionValues)

/-- Only lines that quote a text can splice the next line. -/
theorem quoted_of_splicesIn (quoted : board.definition.FromText)
    (member : content ∈ contentsOf (document board options)) (spliced : SplicesIn content.toList) :
    Quoted board options content := by
  refine (quoted_or_voiced board options content member).resolve_right fun voice => ?_
  cases voice with
  | worded said => exact absurd spliced (not_splicesIn_of_plain said.plain)
  | omitted _ modeled => exact absurd spliced (not_splicesIn_of_mark (.resource modeled _))
  | storage member => exact absurd spliced (not_splicesIn_storage quoted member)
  | motion member => exact absurd spliced (not_splicesIn_motion quoted member)

end Devices

/-! ## Quotations -/

/-- The opening of a comment that quotes a text: one line that does not end in a backslash. -/
structure Lead (front : String) : Prop where
  comment : ['/', '/'] <+: unindented front.toList
  single : Single front
  closed : ¬ EndsInBackslash front

instance (front : String) : Decidable (Lead front) :=
  decidable_of_iff (['/', '/'] <+: unindented (letters front) ∧ Single front ∧
      ¬ EndsInBackslash front) <| by
    rw [letters_eq]
    exact ⟨fun ⟨comment, single, closed⟩ => ⟨comment, single, closed⟩,
      fun lead => ⟨lead.comment, lead.single, lead.closed⟩⟩

theorem splicesIn_quotation_iff {front back : String} (lead : Lead front) (single : Single back) :
    SplicesIn (front ++ back).toList ↔ EndsInBackslash back := by
  have filled : unindented front.toList ≠ [] := by
    intro empty
    have comment := lead.comment
    rw [empty] at comment
    exact absurd comment (by decide)
  have comment : ['/', '/'] <+: unindented (front ++ back).toList := by
    rw [String.toList_append, unindented_append filled]
    exact lead.comment.trans (List.prefix_append _ _)
  rw [splicesIn_iff_of_single (Text.without_singleton_iff.mp (lead.single.append single)),
    splices_comment_iff comment, endsInBackslash_append_iff lead.closed]

/-- The texts of a board that end a line of the description. -/
def describedTexts (board : Definition) : List String :=
  board.metadata.boardName.toList ++ board.metadata.manufacturer.toList ++
    (gyroChips board).getLast?.toList ++ (features board).getLast?.toList

theorem mem_describedTexts_iff {board : Definition} {text : String} :
    text ∈ describedTexts board ↔ board.metadata.boardName = some text ∨
      board.metadata.manufacturer = some text ∨ (gyroChips board).getLast? = some text ∨
      (features board).getLast? = some text := by
  simp [describedTexts]

section Quotations

variable {board : Resolved} {options : Options}

/-- A text that a header quotes splices by itself, or it ends a comment with a backslash. -/
def QuotesSplice (board : Resolved) (options : Options) : Prop :=
  (∃ name, options.source = some name ∧ SplicesIn (" * Source: " ++ name).toList) ∨
  SplicesIn ("// MCU: " ++ board.mcu).toList ∨
  (∃ text ∈ describedTexts board.definition, EndsInBackslash text) ∨
  (options.keepRest = true ∧ ∃ kept ∈ board.definition.verbatim, EndsInBackslash kept.text)

theorem single_listed {texts : List String} (level : ∀ text ∈ texts, Level text) :
    Single (", ".intercalate texts) :=
  Without.intercalate (by decide) fun text member => (level text member).single

theorem quotesSplice_of_quoted {content : String} (quoted : board.definition.FromText)
    (said : Quoted board options content) (spliced : SplicesIn content.toList) :
    QuotesSplice board options := by
  have described {text : String} (named : text ∈ describedTexts board.definition)
      (ending : EndsInBackslash text) : QuotesSplice board options :=
    .inr (.inr (.inl ⟨text, named, ending⟩))
  cases said with
  | source given => exact .inl ⟨_, given, spliced⟩
  | boardName given =>
      have single := (level_of_solid (quoted.boardName _ given)).single
      exact described (mem_describedTexts_iff.mpr (.inl given))
        ((splicesIn_quotation_iff (by decide) single).mp spliced)
  | manufacturer given =>
      have single := (level_of_solid (quoted.manufacturer _ given)).single
      exact described (mem_describedTexts_iff.mpr (.inr (.inl given)))
        ((splicesIn_quotation_iff (by decide) single).mp spliced)
  | mcu => exact .inr (.inl spliced)
  | gyros _ =>
      have single := single_listed (level_gyroChips quoted)
      have ending := (splicesIn_quotation_iff (by decide) single).mp spliced
      obtain ⟨last, final, ending⟩ := (endsInBackslash_intercalate_iff _).mp ending
      exact described (mem_describedTexts_iff.mpr (.inr (.inr (.inl final)))) ending
  | features _ =>
      have single := single_listed (level_features quoted)
      have ending := (splicesIn_quotation_iff (by decide) single).mp spliced
      obtain ⟨last, final, ending⟩ := (endsInBackslash_intercalate_iff _).mp ending
      exact described (mem_describedTexts_iff.mpr (.inr (.inr (.inr final)))) ending
  | heading _ _ => exact absurd spliced (by decide)
  | rest kept member =>
      rcases restTexts_cases quoted member with plain | ⟨verbatim, inside, rfl⟩
      · exact absurd spliced (not_splicesIn_of_plain ((by decide : Plain "//   ").append plain))
      · have single := Text.without_singleton_iff.mpr (quoted.verbatim verbatim inside)
        exact .inr (.inr (.inr ⟨kept, verbatim, inside,
          (splicesIn_quotation_iff (by decide) single).mp spliced⟩))

theorem exists_quoted_of_quotesSplice (quoted : board.definition.FromText)
    (quotes : QuotesSplice board options) :
    ∃ content, Quoted board options content ∧ SplicesIn content.toList := by
  rcases quotes with ⟨name, given, spliced⟩ | spliced | ⟨text, named, ending⟩ |
    ⟨kept, verbatim, inside, ending⟩
  · exact ⟨_, .source given, spliced⟩
  · exact ⟨_, .mcu, spliced⟩
  · rcases mem_describedTexts_iff.mp named with given | given | final | final
    · have single := (level_of_solid (quoted.boardName _ given)).single
      exact ⟨_, .boardName given, (splicesIn_quotation_iff (by decide) single).mpr ending⟩
    · have single := (level_of_solid (quoted.manufacturer _ given)).single
      exact ⟨_, .manufacturer given, (splicesIn_quotation_iff (by decide) single).mpr ending⟩
    · have single := single_listed (level_gyroChips quoted)
      have filled := List.ne_nil_of_mem (List.mem_of_getLast? final)
      have listed := (endsInBackslash_intercalate_iff _).mpr ⟨text, final, ending⟩
      exact ⟨_, .gyros filled, (splicesIn_quotation_iff (by decide) single).mpr listed⟩
    · have single := single_listed (level_features quoted)
      have filled := List.ne_nil_of_mem (List.mem_of_getLast? final)
      have listed := (endsInBackslash_intercalate_iff _).mpr ⟨text, final, ending⟩
      exact ⟨_, .features filled, (splicesIn_quotation_iff (by decide) single).mpr listed⟩
  · have single := Text.without_singleton_iff.mpr (quoted.verbatim verbatim inside)
    have member : verbatim.text ∈ restTexts board.definition :=
      List.mem_append_right _ (List.mem_map_of_mem inside)
    exact ⟨_, .rest kept member, (splicesIn_quotation_iff (by decide) single).mpr ending⟩

theorem splicesIn_generate_of_fromText (quoted : board.definition.FromText) :
    SplicesIn (generate board options).toList ↔ QuotesSplice board options := by
  rw [generate, splicesIn_render_iff]
  constructor
  · rintro ⟨content, member, spliced⟩
    exact quotesSplice_of_quoted quoted (quoted_of_splicesIn quoted member spliced) spliced
  · intro quotes
    obtain ⟨content, said, spliced⟩ := exists_quoted_of_quotesSplice quoted quotes
    exact ⟨content, mem_document_of_quoted said, spliced⟩

end Quotations

/-- A comment of a header swallows the next line exactly when a text that the header quotes
makes it do so: the board name, the manufacturer, the last gyro, the last feature or a kept
line that ends in a backslash, or what the caller gives as source and microcontroller. -/
theorem splicesIn_generate_iff (policy : Policy) (text mcu tableText : String)
    (settings : Resolution.Options) (options : Options) :
    let board := (Board.parse policy text).board
    let resolved := (resolve board (Capability.parse mcu tableText).table settings).board
    SplicesIn (generate resolved options).toList ↔
      (∃ name, options.source = some name ∧ SplicesIn (" * Source: " ++ name).toList) ∨
      SplicesIn ("// MCU: " ++ mcu).toList ∨
      (∃ quoted ∈ describedTexts board, EndsInBackslash quoted) ∨
      (options.keepRest = true ∧ ∃ kept ∈ board.verbatim, EndsInBackslash kept.text) := by
  intro board resolved
  have quoted : resolved.definition.FromText := Board.fromText_parse policy text
  exact splicesIn_generate_of_fromText quoted

/-- A feature that ends in a backslash takes the line behind it, which opens the namespace of
the header, into its comment. -/
theorem exists_spliced_header :
    SplicesIn (generate (resolve (Board.parse .lastWins "#define USE_FLASH_W25Q\\").board
      (Capability.parse "F4" deviceTable).table {}).board {}).toList := by
  have final : (features (Board.parse .lastWins "#define USE_FLASH_W25Q\\").board).getLast? =
      some "FLASH W25Q\\" := by
    decide +kernel
  refine (splicesIn_generate_of_fromText (Board.fromText_parse _ _)).mpr ?_
  exact .inr (.inr (.inl ⟨_, mem_describedTexts_iff.mpr (.inr (.inr (.inr final))), by decide⟩))

end Pinout.Header
