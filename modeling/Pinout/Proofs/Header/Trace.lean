import Pinout.Proofs.Board.Unambiguous
import Pinout.Proofs.Header.Reading
import Pinout.Proofs.Resolution.Accounting
import Pinout.Proofs.Text.Composition

/-! The traces of dropped resources in a header. Each has one line, in the section that its kind
of resource belongs to, and nothing else in a header reads like one: no other comment has a word,
a blank and a digit in a row at its start. -/

set_option autoImplicit false

namespace Pinout.Header

open Board (Policy)
open Resolution (Resolved resolve resolvedBoard)
open Text (IsWord isNameChar)

variable {board : Resolved} {options : Options} {content text : String}

/-! ## Traces and the rest -/

/-- The resources that the sections speak of when they are dropped, in order. -/
def reported : List Resource :=
  [.bus .i2cScl, .bus .i2cSda, .bus .uartTx, .bus .uartRx, .bus .spiMosi, .bus .spiMiso,
    .bus .spiSclk, .single .adcBatt, .single .adcCurr, .single .adcRssi, .output .servo,
    .output .motor, .output .ledStrip]

def traces (board : Resolved) (resource : Resource) : List String :=
  (board.droppedOf resource).map (omission resource)

/-- The board as it were if nothing had been dropped. -/
def undropped (board : Resolved) : Resolved :=
  { board with dropped := [] }

theorem contentsOf_omissions (resource : Resource) :
    contentsOf (omissions board resource) = traces board resource := by
  unfold omissions traces
  cases board.droppedOf resource with
  | nil => rfl
  | cons index rest =>
      rw [contentsOf_append, contentsOf_map_line]
      exact List.append_nil _

theorem traces_undropped (resource : Resource) : traces (undropped board) resource = [] := by
  rw [traces, Resolved.droppedOf, undropped, List.filter_nil, List.map_nil, List.mergeSort_nil,
    List.map_nil]

theorem contentsOf_i2cItems (board : Resolved) (options : Options) :
    contentsOf (i2cItems board options) =
      traces board (.bus .i2cScl) ++ traces board (.bus .i2cSda) ++
        contentsOf (i2cItems (undropped board) options) := by
  simp only [i2cItems, contentsOf_append, traces_undropped, contentsOf_omissions,
    List.nil_append]
  rfl

theorem contentsOf_uartItems (board : Resolved) (options : Options) :
    contentsOf (uartItems board options) =
      traces board (.bus .uartTx) ++ traces board (.bus .uartRx) ++
        contentsOf (uartItems (undropped board) options) := by
  simp only [uartItems, contentsOf_append, traces_undropped, contentsOf_omissions,
    List.nil_append]
  rfl

theorem contentsOf_spiItems (board : Resolved) (options : Options) :
    contentsOf (spiItems board options) =
      traces board (.bus .spiMosi) ++ traces board (.bus .spiMiso) ++
        traces board (.bus .spiSclk) ++ contentsOf (spiItems (undropped board) options) := by
  simp only [spiItems, contentsOf_append, traces_undropped, contentsOf_omissions,
    List.nil_append]
  rfl

theorem contentsOf_analogItems (board : Resolved) :
    contentsOf (analogItems board) =
      traces board (.single .adcBatt) ++ traces board (.single .adcCurr) ++
        traces board (.single .adcRssi) ++ contentsOf (analogItems (undropped board)) := by
  simp only [analogItems, contentsOf_append, traces_undropped, contentsOf_omissions,
    List.nil_append, List.append_assoc]
  rfl

/-- The traces of a family stand inside its namespace, or alone if it has none. -/
theorem count_familyItems (board : Resolved) (family : Family) (text : String) :
    (contentsOf (familyItems board family)).count text =
      (traces board (.output family)).count text +
        (contentsOf (familyItems (undropped board) family)).count text := by
  have same : (undropped board).banksFor family = board.banksFor family := rfl
  unfold familyItems
  dsimp only
  rw [same]
  cases board.banksFor family with
  | nil => simp only [contentsOf_omissions, traces_undropped, List.count_nil]; rfl
  | cons bank rest =>
      simp only [contentsOf, Item.contents, contentsOf_append, List.count_append, List.count_cons,
        contentsOf_omissions, traces_undropped, List.count_nil]
      have timings : (undropped board).timings = board.timings := rfl
      rw [timings]
      omega

theorem contents_perm (board : Resolved) (options : Options) :
    (contentsOf (document board options)).Perm
      (reported.flatMap (traces board) ++ contentsOf (document (undropped board) options)) := by
  rw [List.perm_iff_count]
  intro text
  have description : descriptionItems (undropped board) = descriptionItems board := rfl
  have storage : storageItems (undropped board) options = storageItems board options := rfl
  have motion : motionItems (undropped board) options = motionItems board options := rfl
  have lights : lightItems (undropped board) = lightItems board := rfl
  have beeper : beeperItems (undropped board) = beeperItems board := rfl
  have definition : (undropped board).definition = board.definition := rfl
  simp only [document, bodyItems, reported, contentsOf_append, contentsOf, Item.contents,
    contentsOf_i2cItems board, contentsOf_uartItems board,
    contentsOf_spiItems board, contentsOf_analogItems board,
    count_familyItems board, List.count_append, List.count_cons, List.count_nil,
    List.flatMap_cons, List.flatMap_nil, description, storage, motion, lights, beeper, definition]
  omega

/-! ## Reading traces -/

/-- The keyword that a comment starts with if a blank and a digit follow it. -/
def tracedKeyword? : List Char → Option (List Char)
  | '/' :: '/' :: ' ' :: said =>
    match said.dropWhile isNameChar with
    | ' ' :: digit :: _ => if digit.isDigit then some (said.takeWhile isNameChar) else none
    | _ => none
  | _ => none

theorem toList_omission (resource : Resource) (index : UInt8) :
    (omission resource index).toList = '/' :: '/' :: ' ' ::
      (resource.keyword.toList ++ ' ' ::
        (Text.digitsOf index.toNat ++ ": omitted (unresolved)".toList)) := by
  have parts : omission resource index = "// " ++ resource.keyword ++ " " ++ toString index ++
      ": omitted (unresolved)" := rfl
  rw [parts]
  simp only [String.toList_append, Text.toList_toString_byte, List.append_assoc]
  rfl

theorem tracedKeyword?_omission {resource : Resource} (word : IsWord resource.keyword)
    (index : UInt8) :
    tracedKeyword? (omission resource index).toList = some resource.keyword.toList := by
  obtain ⟨digit, rest, number⟩ := List.exists_cons_of_ne_nil (Text.digitsOf_ne_nil index.toNat)
  have digital : digit.isDigit = true :=
    Text.isDigit_of_mem_digitsOf (number ▸ List.mem_cons_self)
  have stops : ¬ isNameChar ' ' = true := by decide
  rw [toList_omission, number, tracedKeyword?, List.dropWhile_append_of_pos word.names,
    List.dropWhile_cons_of_neg stops, List.takeWhile_append_of_pos word.names,
    List.takeWhile_cons_of_neg stops, List.append_nil]
  exact if_pos digital

theorem tracedKeyword?_quoted (said : Quoted board options content) :
    tracedKeyword? (unindented content.toList) = none := by
  cases said with
  | source _ => rw [String.toList_append]; rfl
  | boardName _ => rw [String.toList_append]; rfl
  | manufacturer _ => rw [String.toList_append]; rfl
  | mcu => rw [String.toList_append]; rfl
  | gyros _ => rw [String.toList_append]; rfl
  | features _ => rw [String.toList_append]; rfl
  | heading _ _ => decide
  | rest _ _ => rw [String.toList_append]; rfl

theorem tracedKeyword?_declaration (type name : String) (values : List String) :
    tracedKeyword? (unindented (declaration type name values).toList) = none := by
  have opening : declaration type name values =
      "static constexpr " ++ (type ++ " " ++ name ++ braced values ++ ";") := by
    unfold declaration
    simp only [String.append_assoc]
  rw [opening, String.toList_append]
  rfl

theorem tracedKeyword?_storage (member : content ∈ contentsOf (storageItems board options)) :
    tracedKeyword? (unindented content.toList) = none := by
  obtain ⟨storage, _, ⟨_, rfl⟩ | ⟨bus, _, rfl | rfl⟩⟩ := mem_storageItems_iff.mp member
  · have opening : storageOmission storage.bus =
        "// Storage: omitted (SPI bus " ++ (toString storage.bus ++ " unresolved)") :=
      String.append_assoc ..
    rw [opening, String.toList_append]
    rfl
  · have opening : storageTitle storage bus =
        "// Storage: " ++ (storage.label ++ (" on " ++ bus.target.name)) := by
      rw [← String.append_assoc, ← String.append_assoc]
      rfl
    rw [opening, String.toList_append]
    rfl
  · exact tracedKeyword?_declaration _ _ _

theorem tracedKeyword?_motion (member : content ∈ contentsOf (motionItems board options)) :
    tracedKeyword? (unindented content.toList) = none := by
  obtain ⟨select, _, ⟨_, rfl⟩ | ⟨bus, _, rfl | rfl | rfl⟩⟩ := mem_motionItems_iff.mp member
  · have opening : motionOmission (motionIndex board) =
        "// IMU: omitted (SPI bus " ++ (toString (motionIndex board) ++ " unresolved)") :=
      String.append_assoc ..
    rw [opening, String.toList_append]
    rfl
  · have opening : motionTitle board.definition bus =
        "// IMU: " ++ (motionLabel board.definition ++ (" on " ++ bus.target.name)) := by
      rw [← String.append_assoc, ← String.append_assoc]
      rfl
    rw [opening, String.toList_append]
    rfl
  · exact tracedKeyword?_declaration _ _ _
  · exact tracedKeyword?_declaration _ _ _

/-- Where nothing was dropped, no line reads like a trace. -/
theorem not_mem_undropped {resource : Resource} (word : IsWord resource.keyword) (index : UInt8) :
    omission resource index ∉ (contentsOf (document (undropped board) options)).map
      fun content => bareLine content.toList := by
  intro member
  obtain ⟨content, listed, same⟩ := List.mem_map.mp member
  have line : unindented content.toList = (omission resource index).toList := by
    rw [← same, toList_bareLine]
  have traced := tracedKeyword?_omission word index
  rw [← line] at traced
  rcases quoted_or_voiced (undropped board) options content listed with said | voice
  · rw [tracedKeyword?_quoted said] at traced
    cases traced
  cases voice with
  | worded said =>
      have closed : ')' ∈ (omission resource index).toList := by
        simp [toList_omission]
      rw [← line] at closed
      exact said.plain ')' ((List.dropWhile_sublist _).subset closed) (by decide)
  | omitted dropped _ => cases dropped
  | storage member => rw [tracedKeyword?_storage member] at traced; cases traced
  | motion member => rw [tracedKeyword?_motion member] at traced; cases traced

/-! ## Counting traces -/

theorem keyword_eq_of_omission {first second : Resource} (word : IsWord first.keyword)
    (other : IsWord second.keyword) {index number : UInt8}
    (same : omission first index = omission second number) : first.keyword = second.keyword := by
  have keywords := tracedKeyword?_omission word index
  rw [same, tracedKeyword?_omission other number, Option.some.injEq] at keywords
  exact String.toList_injective keywords.symm

theorem omission_injective (resource : Resource) : Function.Injective (omission resource) := by
  intro index number same
  have numbered := (String.append_left_inj _).mp same
  exact Text.toString_byte_injective ((String.append_right_inj _).mp numbered)

theorem isModeled_of_reported : ∀ resource ∈ reported, resource.isModeled = true := by
  decide

/-- A keyword names one resource, so a trace is of one. -/
theorem mem_traces_iff {keyword : String} {index : UInt8}
    (word : IsWord (Resource.ofKeyword keyword).keyword) :
    omission (Resource.ofKeyword keyword) index ∈ reported.flatMap (traces board) ↔
      Resource.ofKeyword keyword ∈ reported ∧
        ⟨Resource.ofKeyword keyword, index⟩ ∈ board.dropped := by
  simp only [List.mem_flatMap, traces, List.mem_map, mem_droppedOf_iff]
  constructor
  · rintro ⟨resource, listed, number, dropped, same⟩
    have modeled := isModeled_of_reported resource listed
    have keywords := keyword_eq_of_omission (Resource.isWord_keyword modeled) word same
    have known : resource = Resource.ofKeyword keyword := by
      rw [← Resource.ofKeyword_keyword modeled, keywords,
        Resource.ofKeyword_keyword_ofKeyword]
    subst known
    rw [← omission_injective _ same]
    exact ⟨listed, dropped⟩
  · rintro ⟨listed, dropped⟩
    exact ⟨_, listed, index, dropped, rfl⟩

theorem nodup_traces (once : board.dropped.Nodup) : (reported.flatMap (traces board)).Nodup := by
  rw [List.nodup_flatMap]
  constructor
  · intro resource _
    refine List.Nodup.map (omission_injective resource) ?_
    rw [Resolved.droppedOf, (List.mergeSort_perm _ _).nodup_iff]
    refine (once.filter _).map_on ?_
    intro left member right member' same
    have first := of_decide_eq_true (List.mem_filter.mp member).2
    have second := of_decide_eq_true (List.mem_filter.mp member').2
    cases left
    cases right
    simp only at first second same
    rw [first, second, same]
  · have apart : reported.Pairwise fun first second => first.keyword ≠ second.keyword := by decide
    refine apart.imp_of_mem ?_
    intro first second listed listed' different text inside outside
    obtain ⟨index, _, rfl⟩ := List.mem_map.mp inside
    obtain ⟨number, _, same⟩ := List.mem_map.mp outside
    exact different (keyword_eq_of_omission
      (Resource.isWord_keyword (isModeled_of_reported first listed))
      (Resource.isWord_keyword (isModeled_of_reported second listed')) same.symm)

/-- Whatever resolution drops is of a kind that some section speaks of. -/
theorem reported_of_dropped {definition : Board.Definition} {table : Capability.Table}
    {settings : Resolution.Options} {id : ResourceId}
    (dropped : id ∈ (resolvedBoard definition table settings).dropped) :
    id.resource ∈ reported := by
  obtain ⟨source, _, rfl, refusal, refused⟩ := Resolution.mem_dropped_iff.mp dropped
  cases carried : source.id.resource with
  | bus signal => cases signal <;> decide
  | output family => cases family <;> decide
  | single role =>
      -- Only a role with an analog input can be refused.
      simp only [Resolution.refusal?, Resolution.decision?, carried, Resolution.placeRole]
        at refused
      cases role <;> first | decide | cases refused
  | other keyword =>
      simp only [Resolution.refusal?, Resolution.decision?, carried] at refused
      cases refused

theorem nodup_dropped {definition : Board.Definition} (clear : definition.Unambiguous)
    (table : Capability.Table) (settings : Resolution.Options) :
    (resolvedBoard definition table settings).dropped.Nodup :=
  List.Nodup.of_append_right
    ((Resolution.ids_perm definition table settings).nodup_iff.mpr clear.modeled)

/-- The lines of a header that read like a trace are counted by the traces. -/
theorem count_omission (single : ∀ content ∈ contentsOf (document board options), Single content)
    {resource : Resource} (word : IsWord resource.keyword) (index : UInt8) :
    (bareLines (generate board options)).count (omission resource index) =
      (reported.flatMap (traces board)).count (omission resource index) := by
  have flush (other : Resource) (number : UInt8) : Flush (omission other number) :=
    (((((by decide : Flush "// ").append other.keyword).append " ").append
      (toString number)).append ": omitted (unresolved)")
  have traced : (reported.flatMap (traces board)).map (fun content => bareLine content.toList) =
      reported.flatMap (traces board) := by
    refine (List.map_congr_left fun content member => ?_).trans (List.map_id _)
    obtain ⟨other, _, inside⟩ := List.mem_flatMap.mp member
    obtain ⟨number, _, rfl⟩ := List.mem_map.mp inside
    exact (flush other number).bareLine_eq
  have filled := (flush resource index).ne_empty
  have lines := ((contents_perm board options).map fun content => bareLine content.toList).count_eq
    (omission resource index)
  rw [List.map_append, traced, List.count_append,
    List.count_eq_zero_of_not_mem (not_mem_undropped word index), Nat.add_zero] at lines
  rw [← lines, ← flatMap_bareLines_of_single single,
    ← List.count_filter (p := (· ≠ "")) (by simpa using filled), generate, filter_bareLines_render,
    List.count_filter (by simpa using filled)]

/-- A dropped resource has one line in the header, and no other resource has one. Resources go by
words, as in every definition that is read. -/
theorem count_omission_generate (policy : Policy) (text mcu tableText : String)
    (settings : Resolution.Options) (options : Options)
    (source : ∀ name, options.source = some name → '\n' ∉ name.toList)
    (named : '\n' ∉ mcu.toList) :
    let board := (resolve (Board.parse policy text).board
      (Capability.parse mcu tableText).table settings).board
    let header := bareLines (generate board options)
    (∀ id ∈ board.dropped, header.count
      ("// " ++ id.resource.keyword ++ " " ++ toString id.index ++ ": omitted (unresolved)") = 1) ∧
    ∀ keyword index, IsWord keyword → ⟨Resource.ofKeyword keyword, index⟩ ∉ board.dropped →
      "// " ++ (Resource.ofKeyword keyword).keyword ++ " " ++ toString index ++
        ": omitted (unresolved)" ∉ header := by
  intro board header
  have single : ∀ content ∈ contentsOf (document board options), Single content :=
    single_of_mem_document (Board.fromText_parse policy text) source named
  constructor
  · rintro ⟨resource, index⟩ dropped
    have listed : resource ∈ reported := reported_of_dropped dropped
    have modeled := isModeled_of_reported resource listed
    have word := Resource.isWord_keyword modeled
    have once := nodup_dropped (Board.parse_unambiguous policy text)
      (Capability.parse mcu tableText).table settings
    refine (count_omission single word index).trans ?_
    refine List.count_eq_one_of_mem (nodup_traces once) ?_
    exact List.mem_flatMap.mpr ⟨resource, listed, List.mem_map_of_mem
      ((mem_droppedOf_iff board).mpr dropped)⟩
  · intro keyword index word kept
    have known := Resource.isWord_ofKeyword word
    have counted := count_omission single known index
    rw [List.count_eq_zero_of_not_mem (mt (mem_traces_iff known).mp fun traced => kept traced.2)]
      at counted
    exact List.count_eq_zero.mp counted

/-- A motor that no timer drives is dropped. -/
theorem count_omission_motor :
    let board := (resolve (Board.parse .lastWins "resource MOTOR 1 B00").board
      (Capability.parse "F4" deviceTable).table {}).board
    let header := bareLines (generate board { source := some "quad.config" })
    '\n' ∉ "quad.config".toList ∧ '\n' ∉ "F4".toList ∧ ⟨.output .motor, 1⟩ ∈ board.dropped ∧
      header.count "// MOTOR 1: omitted (unresolved)" = 1 ∧ IsWord "servo" ∧
      ⟨Resource.ofKeyword "servo", 1⟩ ∉ board.dropped ∧
      "// SERVO 1: omitted (unresolved)" ∉ header := by
  intro board header
  have single : ∀ name, some "quad.config" = some name → '\n' ∉ name.toList := by
    rintro name ⟨⟩
    decide
  have ⟨each, others⟩ := count_omission_generate .lastWins "resource MOTOR 1 B00" "F4" deviceTable
    {} { source := some "quad.config" } single (by decide)
  have motor : ⟨.output .motor, 1⟩ ∈ board.dropped := by decide +kernel
  have servo : ⟨Resource.ofKeyword "servo", 1⟩ ∉ board.dropped := by decide +kernel
  have word : IsWord "servo" := by decide
  exact ⟨by decide, by decide, motor, each ⟨.output .motor, 1⟩ motor, word, servo,
    others "servo" 1 word servo⟩

end Pinout.Header
