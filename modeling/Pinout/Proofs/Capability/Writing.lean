import Pinout.Capability.Writing
import Pinout.Proofs.Capability.Account
import Pinout.Proofs.Pin.TableName
import Pinout.Proofs.PinMap.Writing

/-! Tables that were written are read back. However the pieces of a table are set on lines, with
comments and preprocessor lines between them, reading gives its sections and all its entries in
their order, and finds nothing wrong. -/

set_option autoImplicit false

namespace Pinout.Capability

open Text (IsWord Without)
open PinMap (Legible Whole callText Decorated)

/-! ## Fields -/

/-- Words that the entries leave open and that can stand in a table. -/
structure Style.Plain (style : Style) : Prop where
  introduces : PinMap.Introduces style.storage
  mode : ∀ entry, IsWord (style.mode entry)
  pull : ∀ entry, IsWord (style.pull entry)

theorem legible_of_isWord {text : String} (word : IsWord text) : Legible text where
  whole := PinMap.whole_of_isWord word
  braceless := word.without (by decide)
  plain := word.without (by decide)

section Fields

variable {style : Style} {entry : Entry} {use : Use}

theorem isWord_functionToken (entry : Entry) : IsWord entry.functionToken := by
  unfold Entry.functionToken
  split
  · decide
  · rename_i number _
    have mark : IsWord ("GPIO_AF" ++ Text.decimal number.toNat) :=
      IsWord.append (by decide) (Text.isWord_decimal number.toNat)
    exact (mark.append (by decide)).append entry.target.isWord

theorem isWord_macroName (use : Use) : IsWord use.macroName := by
  unfold Use.macroName
  split <;> decide

theorem isWord_of_mem_channelArguments {argument : String}
    (member : argument ∈ use.channelArguments) : IsWord argument := by
  unfold Use.channelArguments at member
  split at member
  · cases member
  · rcases List.mem_pair.mp member with rfl | rfl
    · exact Text.isWord_decimal _
    · split <;> decide
  · rcases List.mem_pair.mp member with rfl | rfl
    · exact Text.isWord_decimal _
    · decide

theorem Style.Plain.isWord_of_mem_callArguments (plain : style.Plain) {argument : String}
    (member : argument ∈ entry.callArguments style) : IsWord argument := by
  rcases List.mem_cons.mp member with rfl | member
  · exact plain.mode entry
  rcases List.mem_cons.mp member with rfl | member
  · exact plain.pull entry
  rcases List.mem_cons.mp member with rfl | member
  · exact isWord_functionToken entry
  · exact isWord_of_mem_channelArguments member

theorem toList_call (style : Style) (entry : Entry) : (entry.call style).toList =
    callText entry.use.macroName.toList ((entry.callArguments style).map String.toList) := by
  simp [Entry.call, callText]

theorem Style.Plain.without_call (plain : style.Plain) {marks : List Char}
    (opens : Without marks "(") (between : Without marks ", ") (shuts : Without marks ")")
    (unnamed : marks.any Text.isNameChar = false) : Without marks (entry.call style) := by
  have inner : Without marks (", ".intercalate (entry.callArguments style)) :=
    between.intercalate fun argument member =>
      (plain.isWord_of_mem_callArguments member).without unnamed
  have name : Without marks entry.use.macroName := (isWord_macroName entry.use).without unnamed
  exact ((name.append opens).append inner).append shuts

theorem Style.Plain.legible_call (plain : style.Plain) : Legible (entry.call style) where
  whole := by
    rw [toList_call]
    have name := isWord_macroName entry.use
    refine PinMap.whole_callText name.names name.filled fun argument member => ?_
    obtain ⟨argument, written, rfl⟩ := List.mem_map.mp member
    exact (plain.isWord_of_mem_callArguments written).names
  braceless := plain.without_call (by decide) (by decide) (by decide) (by decide)
  plain := plain.without_call (by decide) (by decide) (by decide) (by decide)

theorem Style.Plain.legible_fields (plain : style.Plain) :
    ∀ field ∈ entry.fields style, Legible field := by
  refine List.forall_mem_cons.mpr ⟨legible_of_isWord entry.pin.isWord_name, ?_⟩
  refine List.forall_mem_cons.mpr ⟨legible_of_isWord entry.target.isWord, ?_⟩
  exact List.forall_mem_singleton.mpr plain.legible_call

/-! ## Rows -/

/-- The content of the sections in which a use is listed. -/
def Use.content : Use → Content
  | .timer _ _ => .timer
  | .bus signal => .bus signal
  | .analog _ => .analog

theorem ofName_sectionName (use : Use) : Content.ofName use.sectionName = use.content := by
  rcases use with _ | signal | _
  · rfl
  · cases signal <;> rfl
  · rfl

theorem functionOf?_functionToken (entry : Entry) :
    functionOf? entry.functionToken.toList = entry.function := by
  unfold Entry.functionToken
  split
  · rename_i unnamed
    rw [unnamed]
    rfl
  · rename_i number named
    let digits := Text.digitsOf number.toNat
    have marked : Text.dropStart? ['G', 'P', 'I', 'O', '_', 'A', 'F']
        ("GPIO_AF" ++ Text.decimal number.toNat ++ "_" ++ entry.target.name).toList =
          some (digits ++ '_' :: entry.target.name.toList) := by
      rw [Text.dropStart?_eq_some_iff]
      simp [Text.decimal, digits]
    have spelled : (digits ++ '_' :: entry.target.name.toList).takeWhile Char.isDigit = digits := by
      rw [List.takeWhile_append_of_pos fun _ member => Text.isDigit_of_mem_digitsOf member,
        List.takeWhile_cons_of_neg (by decide), List.append_nil]
    rw [functionOf?, marked, Option.bind_eq_bind, Option.bind_some, spelled, named]
    exact Text.byte?_digitsOf number

theorem ofName?_name (target : Instance) : Instance.ofName? target.name = some target := by
  have bare : String.ofList (Text.trim target.name.toList) = target.name := by
    rw [Text.trim_eq_self target.isWord.solid.trimmed, String.ofList_toList]
  have named : isInstanceName (String.ofList (Text.trim target.name.toList)).toList = true := by
    rw [bare]
    exact target.isName
  unfold Instance.ofName?
  dsimp only
  rw [dif_pos named]
  exact congrArg some (Instance.ext_name bare)

theorem useOf_callArguments (style : Style) (entry : Entry) (pin : String) :
    useOf entry.use.content pin entry.target ((entry.callArguments style).map String.toList) =
      .ok (some entry.use) := by
  have channel (number : UInt8) : Text.byte? (Text.decimal number.toNat).toList = some number := by
    rw [Text.decimal, String.toList_ofList, Text.byte?_digitsOf]
  unfold Entry.callArguments
  cases entry.use with
  | timer number complementary =>
      have flag : (Text.byte? (if complementary then "1" else "0").toList == some 1) =
          complementary := by cases complementary <;> decide
      simp [useOf, Use.content, Use.channelArguments, channel, flag]
  | bus signal => rfl
  | analog number => simp [useOf, Use.content, Use.channelArguments, channel]

theorem Style.Plain.entryOf_fields (plain : style.Plain) (entry : Entry) (pin : String) :
    entryOf entry.use.content entry.pin pin [entry.target.name, entry.call style] =
      .ok (some entry) := by
  have modeled : entry.use.content ≠ .pinsOnly := by cases entry.use <;> simp [Use.content]
  have unopened : '(' ∉ entry.use.macroName.toList := by
    cases entry.use <;> simp [Use.macroName]
  have whole : ∀ argument ∈ (entry.callArguments style).map String.toList, Whole argument := by
    intro argument member
    obtain ⟨argument, written, rfl⟩ := List.mem_map.mp member
    exact PinMap.whole_of_isWord (plain.isWord_of_mem_callArguments written)
  have arguments : PinMap.callArguments? (entry.call style).toList =
      some ((entry.callArguments style).map String.toList) := by
    rw [toList_call]
    exact PinMap.callArguments?_callText unopened whole
  have third : ((entry.callArguments style).map String.toList)[2]? =
      some entry.functionToken.toList := rfl
  unfold entryOf
  rw [if_neg modeled]
  dsimp only
  rw [ofName?_name]
  simp only [List.head?_cons, Option.bind_some, arguments, Option.getD_some, useOf_callArguments,
    third, functionOf?_functionToken]
  rfl

theorem Style.Plain.entry_offerOf (plain : style.Plain) (numbered : entry.pin.Numbered)
    (line : Nat) : (offerOf entry.use.sectionName ⟨line, entry.fields style⟩).entry =
      .ok (some entry) := by
  simp only [offerOf, Entry.fields, Pin.Variant.ofTableName_name numbered, ofName_sectionName]
  exact plain.entryOf_fields entry entry.pin.name

end Fields

/-! ## Sections -/

/-- What the fields of the rows of a section offer, up to the end mark. -/
def offered (part : String × List (List String)) : List (Except Fault (Option Entry)) :=
  (part.2.takeWhile fun fields => fields.head? != some "NC").map fun fields =>
    (offerOf part.1 ⟨0, fields⟩).entry

theorem map_entry_offersOf (sections : List PinMap.Section) :
    (offersOf sections).map (·.entry) =
      (sections.map fun part => (part.name, part.rows.map PinMap.Row.fields)).flatMap offered := by
  have placeless (name : String) (row : PinMap.Row) :
      (offerOf name row).entry = (offerOf name ⟨0, row.fields⟩).entry := by
    obtain ⟨line, fields⟩ := row
    cases fields with
    | nil => rfl
    | cons pin rest => cases read : Pin.Variant.ofTableName pin <;> simp [offerOf, read]
  rw [offersOf, List.map_flatMap, List.flatMap_map]
  refine List.flatMap_congr fun part _ => ?_
  rw [countedRows, offered, List.takeWhile_map, List.map_map, List.map_map]
  exact List.map_congr_left fun row _ => placeless part.name row

/-- The rows of a section as they are written: those of its entries, and the end mark. -/
def Style.outline (style : Style) (part : String × List Entry) : String × List (List String) :=
  (part.1, part.2.map (Entry.fields style) ++ [endFields])

/-- Sections of entries that a table can list: each in a section of its kind, by a name that can
be read, and no two with the same claim. -/
structure Listable (sections : List (String × List Entry)) : Prop where
  modeled : ∀ part ∈ sections, part.1 ∈ sectionNames
  matching : ∀ part ∈ sections, ∀ entry ∈ part.2, entry.use.sectionName = part.1
  numbered : ∀ part ∈ sections, ∀ entry ∈ part.2, entry.pin.Numbered
  distinct : (sections.flatMap (·.2)).Pairwise fun left right => left.claim ≠ right.claim

section Tables

variable {style : Style} {sections : List (String × List Entry)} {part : String × List Entry}

theorem Style.Plain.writable_outline (plain : style.Plain) (modeled : part.1 ∈ sectionNames) :
    PinMap.Writable (style.outline part).1 (style.outline part).2 where
  named := by
    have words : ∀ name ∈ sectionNames, IsWord name := by decide
    exact words part.1 modeled
  filled := by simp [Style.outline]
  legible := by
    have words : ∀ field ∈ endFields, IsWord field := by decide
    intro fields member
    rcases List.mem_append.mp member with row | ending
    · obtain ⟨entry, _, rfl⟩ := List.mem_map.mp row
      exact plain.legible_fields
    · rw [List.mem_singleton.mp ending]
      exact fun field inside => legible_of_isWord (words field inside)

theorem Style.Plain.offered_outline (plain : style.Plain)
    (matching : ∀ entry ∈ part.2, entry.use.sectionName = part.1)
    (numbered : ∀ entry ∈ part.2, entry.pin.Numbered) :
    offered (style.outline part) = part.2.map fun entry => .ok (some entry) := by
  have counts : ∀ fields ∈ part.2.map (Entry.fields style),
      (fields.head? != some "NC") = true := by
    intro fields member
    obtain ⟨entry, _, rfl⟩ := List.mem_map.mp member
    have named : entry.pin.name ≠ "NC" := by
      obtain ⟨rest, name⟩ := entry.pin.exists_toList_name
      intro ending
      rw [ending] at name
      exact absurd (List.cons.inj name).1 (by decide)
    simpa [Entry.fields] using named
  rw [offered, Style.outline]
  dsimp only
  rw [List.takeWhile_append_of_pos counts, List.takeWhile_cons_of_neg (by decide), List.append_nil,
    List.map_map]
  refine List.map_congr_left fun entry member => ?_
  rw [Function.comp_apply, ← matching entry member]
  exact plain.entry_offerOf (numbered entry member) 0

/-- Entries with claims of their own are all kept, and none of them is at fault. -/
theorem foldl_add_of_distinct (catalog : Catalog) {offers : List Offer} {entries : List Entry}
    (told : offers.map (·.entry) = entries.map fun entry => .ok (some entry))
    (distinct : (catalog.entries ++ entries).Pairwise fun left right => left.claim ≠ right.claim) :
    (offers.foldl Catalog.add catalog).entries = catalog.entries ++ entries ∧
      offerIssues catalog offers = [] := by
  induction entries generalizing catalog offers with
  | nil =>
      rw [List.map_nil, List.map_eq_nil_iff] at told
      subst told
      exact ⟨(List.append_nil _).symm, rfl⟩
  | cons entry entries ih =>
      obtain ⟨offer, offers, rfl, here, behind⟩ := List.map_eq_cons_iff.mp told
      have free : ¬ Claimed catalog.entries entry.claim := by
        rintro ⟨other, member, same⟩
        exact (List.pairwise_append.mp distinct).2.2 other member entry List.mem_cons_self same
      have grown : (catalog.add offer).entries = catalog.entries ++ [entry] := by
        rw [Catalog.add_of_free here free, Catalog.push]
      obtain ⟨kept, flawless⟩ := ih (catalog.add offer) behind (by
        rwa [grown, List.append_assoc, List.singleton_append])
      constructor
      · rw [List.foldl_cons, kept, grown, List.append_assoc, List.singleton_append]
      · rw [offerIssues, Offer.fault?_of_free here free, flawless]
        rfl

/-- However the pieces of a table are set on lines, with blanks, comments and preprocessor lines
between them, reading the table gives its sections and its entries, and finds nothing wrong. -/
theorem parse_of_decorated (plain : style.Plain) (listable : Listable sections) {text : String}
    (decorated : Decorated true (style.pieces sections) text.toList) (mcu : String) :
    let parsed := parse mcu text
    parsed.issues = [] ∧ parsed.table.sections = sections.map (·.1) ∧
      parsed.table.entries = sections.flatMap (·.2) := by
  have pieces : style.pieces sections = (sections.map style.outline).flatMap fun part =>
      PinMap.pieces style.storage part.1 part.2 := by
    rw [List.flatMap_map]
    rfl
  have writable : ∀ part ∈ sections.map style.outline, PinMap.Writable part.1 part.2 := by
    intro part member
    obtain ⟨part, listed, rfl⟩ := List.mem_map.mp member
    exact plain.writable_outline (listable.modeled part listed)
  obtain ⟨flawless, found⟩ :=
    PinMap.scan_of_decorated plain.introduces writable (pieces ▸ decorated)
  have told : (offersOf (PinMap.scan text).items).map (·.entry) =
      (sections.flatMap (·.2)).map fun entry => .ok (some entry) := by
    rw [map_entry_offersOf, found, List.flatMap_map, List.map_flatMap]
    exact List.flatMap_congr fun part listed =>
      plain.offered_outline (listable.matching part listed) (listable.numbered part listed)
  obtain ⟨kept, faultless⟩ := foldl_add_of_distinct .empty told listable.distinct
  refine ⟨?_, ?_, kept⟩
  · change (PinMap.scan text).flaws.map _ ++ offerIssues .empty _ = []
    rw [flawless, faultless]
    rfl
  · calc (PinMap.scan text).items.map (·.name)
        = (sections.map style.outline).map (·.1) := by
          rw [← found, List.map_map]
          rfl
      _ = sections.map (·.1) := by
          rw [List.map_map]
          rfl

def sampleStyle : Style where
  storage := "const PinMap "
  mode := fun entry => if entry.kind = .adc then "ANALOG" else "AF_PP"
  pull := fun entry => if entry.kind = .adc then "NOPULL" else "PULLUP"

def sampleSections : List (String × List Entry) :=
  let pin : Pin := ⟨⟨1, by decide⟩, ⟨0, by decide⟩⟩
  [("TIM", [⟨⟨pin, some 1⟩, ⟨"TIM8", by decide⟩, some 3, .timer 2 true⟩]),
    ("ADC", [⟨⟨pin, none⟩, ⟨"ADC1", by decide⟩, none, .analog 8⟩])]

def sampleTable : String :=
  String.join
    ["#include \"PeripheralPins.h\"\n\n", "const PinMap PinMap_TIM[] = \x7b\n",
      "  \x7bPB_0_ALT1, TIM8, STM_PIN_DATA_EXT(", "AF_PP, PULLUP, GPIO_AF3_TIM8, 2, 1)\x7d,",
      " // TIM8_CH2N\n", "  \x7bNC, NP, 0\x7d\n\x7d;\n\n", "  #ifdef ADC1\n",
      "const PinMap PinMap_ADC[] = \x7b\n", "  \x7bPB_0, ADC1, STM_PIN_DATA_EXT(",
      "ANALOG, NOPULL, 0, 8, 0)\x7d, // \x7b8\x7d /*\n", "  \x7bNC, NP, 0\x7d\n\x7d;\n#endif\n"]

/-- Between the pieces stand an include, blank lines, a condition and comments with marks. -/
theorem decorated_sampleTable :
    Decorated true (sampleStyle.pieces sampleSections) sampleTable.toList := by
  have space {fresh : Bool} (text : String) (blank : PinMap.Blank text.toList) :
      PinMap.Gap fresh text.toList := blank.silent
  obtain ⟨chars, text, decorated⟩ : ∃ chars, sampleTable.toList = chars ∧
      Decorated true (sampleStyle.pieces sampleSections) chars := by
    refine ⟨_, ?text,
      .piece (.directive "include \"PeripheralPins.h\"".toList (by decide)
        (space "\n" (by decide))) <|
      .piece (space "\n  " (by decide)) <|
      .piece .nil <|
      .piece (.blank ' ' (by decide) (by decide)
        (.comment " TIM8_CH2N".toList (by decide) (space "  " (by decide)))) <|
      .piece (space "\n" (by decide)) <|
      .piece (.feed (.feed (.blank ' ' (by decide) (by decide)
        (.blank ' ' (by decide) (by decide)
          (.directive "ifdef ADC1".toList (by decide) .nil))))) <|
      .piece (space "\n  " (by decide)) <|
      .piece .nil <|
      .piece (.blank ' ' (by decide) (by decide)
        (.comment " \x7b8\x7d /*".toList (by decide) (space "  " (by decide)))) <|
      .piece (space "\n" (by decide)) <|
      .ending (.feed (.directive "endif".toList (by decide) .nil))⟩
    case text =>
      rw [sampleTable, String.toList_join]
      decide +kernel
  exact text ▸ decorated

theorem parse_sampleTable :
    sampleStyle.Plain ∧ Listable sampleSections ∧
      Decorated true (sampleStyle.pieces sampleSections) sampleTable.toList ∧
      (parse "F4" sampleTable).issues = [] ∧
      (parse "F4" sampleTable).table.sections = sampleSections.map (·.1) ∧
      (parse "F4" sampleTable).table.entries = sampleSections.flatMap (·.2) := by
  have plain : sampleStyle.Plain := by
    refine ⟨⟨by decide, by decide⟩, fun entry => ?_, fun entry => ?_⟩
    all_goals
      simp only [sampleStyle]
      split <;> decide
  have listable : Listable sampleSections := ⟨by decide, by decide, by decide, by decide⟩
  exact ⟨plain, listable, decorated_sampleTable,
    parse_of_decorated plain listable decorated_sampleTable "F4"⟩

end Tables

end Pinout.Capability
