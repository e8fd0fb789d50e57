import Pinout.Proofs.Board.Origin
import Pinout.Proofs.Board.Reduction

/-! What later stages may take for granted about a definition that was read from a text. Each
resource, timer pin and setting has one answer, in the ranges and spellings that the model
has for it, and whatever is said or reported stands on a line of the text. -/

set_option autoImplicit false

namespace Pinout.Board

/-! ## Lines -/

def lineCount (text : String) : Nat :=
  (Text.lines text.toList).length

/-- The number is that of a line of the text. -/
def IsLineOf (text : String) (number : Nat) : Prop :=
  1 ≤ number ∧ number ≤ lineCount text

/-- The lines of all statements that a definition is made of. -/
def Definition.lines (board : Definition) : List Nat :=
  board.resources.map (·.line) ++ board.timers.map (·.line) ++ board.settings.map (·.line) ++
    board.hints.declared.map (·.line) ++ board.verbatim.map (·.line)

section Lines

variable {text : String} {policy : Policy}

theorem isLineOf_of_mem_numberedLines {number : Nat} {line : List Char}
    (member : (number, line) ∈ numberedLines text) : IsLineOf text number := by
  obtain ⟨⟨content, place⟩, inside, same⟩ := List.mem_map.mp member
  cases same
  obtain ⟨first, last, _⟩ := List.mem_zipIdx inside
  exact ⟨first, by rw [lineCount]; omega⟩

theorem isLineOf_of_mem_declarations {declaration : Declaration}
    (member : declaration ∈ declarations text) : IsLineOf text declaration.line := by
  obtain ⟨⟨number, line⟩, numbered, given⟩ := List.mem_filterMap.mp member
  obtain ⟨statement, _, rfl⟩ := Option.map_eq_some_iff.mp given
  exact isLineOf_of_mem_numberedLines numbered

theorem isLineOf_of_mem_lines {number : Nat} (member : number ∈ (parse policy text).board.lines) :
    IsLineOf text number := by
  simp only [Definition.lines, List.mem_append, List.mem_map, or_assoc] at member
  rcases member with ⟨assignment, inside, rfl⟩ | ⟨timer, inside, rfl⟩ | ⟨setting, inside, rfl⟩ |
    ⟨hint, inside, rfl⟩ | ⟨kept, inside, rfl⟩
  · exact isLineOf_of_mem_declarations (mem_declarations_of_resource inside)
  · exact isLineOf_of_mem_declarations (mem_declarations_of_timer inside)
  · exact isLineOf_of_mem_declarations (mem_declarations_of_setting inside)
  · exact isLineOf_of_mem_declarations (mem_declarations_of_hint inside)
  · exact isLineOf_of_mem_declarations (mem_declarations_of_verbatim inside)

/-- A line puts one resource at most on a pin. -/
theorem eq_of_line {left right : Assignment}
    (leftMember : left ∈ (parse policy text).board.resources)
    (rightMember : right ∈ (parse policy text).board.resources) (same : left.line = right.line) :
    left = right := by
  have apart : ((declarations text).map (·.line)).Nodup :=
    List.pairwise_map.mpr ((rising_declarations text).imp Nat.ne_of_lt)
  have said := List.inj_on_of_nodup_map apart (mem_declarations_of_resource leftMember)
    (mem_declarations_of_resource rightMember) same
  obtain ⟨id, pin, line⟩ := left
  cases said
  rfl

/-! ## Lines of findings -/

/-- Does the statement give a resource or a timer a pin, so that it can repeat another one? -/
def Statement.places : Statement → Bool
  | .assign _ _ | .timer _ _ => true
  | _ => false

/-- The finding says that the declaration, which places something on a pin, repeats another. -/
structure Declaration.Repeats (declaration : Declaration) (found : Diagnostic) : Prop where
  line : found.line = some declaration.line
  finding : found.finding = .duplicateResource
  placed : declaration.statement.places = true

theorem repeats_of_repetition? {resources : List Assignment} {timers : List Timer}
    {declaration : Declaration} {found : Diagnostic}
    (given : repetition? policy resources timers declaration = some found) :
    declaration.Repeats found := by
  unfold repetition? at given
  split at given
  · rename_i said
    obtain ⟨earlier, _, rfl⟩ := Option.map_eq_some_iff.mp given
    exact ⟨rfl, rfl, by rw [said]; rfl⟩
  · rename_i said
    obtain ⟨earlier, _, rfl⟩ := Option.map_eq_some_iff.mp given
    exact ⟨rfl, rfl, by rw [said]; rfl⟩
  · cases given

theorem exists_repeats_of_mem_repetitions {resources : List Assignment} {timers : List Timer}
    {declarations : List Declaration} {found : Diagnostic}
    (member : found ∈ repetitions policy resources timers declarations) :
    ∃ declaration ∈ declarations, declaration.Repeats found := by
  induction declarations generalizing resources timers with
  | nil => exact absurd member List.not_mem_nil
  | cons declaration rest ih =>
      rcases List.mem_append.mp member with here | later
      · exact ⟨declaration, List.mem_cons_self, repeats_of_repetition? (Option.mem_toList.mp here)⟩
      · obtain ⟨other, inside, repeated⟩ := ih later
        exact ⟨other, List.mem_cons_of_mem declaration inside, repeated⟩

theorem exists_line_of_mem_diagnostics {diagnostic : Diagnostic}
    (member : diagnostic ∈ (parse policy text).diagnostics) :
    ∃ number, diagnostic.line = some number ∧ IsLineOf text number := by
  rcases List.mem_append.mp member with issued | repeated
  · obtain ⟨number, line, numbered, issue, _, rfl⟩ := exists_line_of_mem_lineIssues issued
    exact ⟨number, rfl, isLineOf_of_mem_numberedLines numbered⟩
  · obtain ⟨declaration, inside, repeats⟩ := exists_repeats_of_mem_repetitions repeated
    exact ⟨declaration.line, repeats.line, isLineOf_of_mem_declarations inside⟩

end Lines

/-! ## Definitions -/

/-- What holds of everything that is read from a text. -/
structure Parsed.Sound (text : String) (parsed : Parsed) : Prop where
  resources : (parsed.board.resources.map (·.id)).Nodup
  numbers : ∀ assignment ∈ parsed.board.resources,
    1 ≤ assignment.id.index.toNat ∧ assignment.id.index.toNat ≤ 255
  keywords : ∀ assignment ∈ parsed.board.resources, ∀ keyword,
    assignment.id.resource = .other keyword → (Resource.ofKeyword keyword).isModeled = false
  timers : (parsed.board.timers.map (·.pin)).Nodup
  functions : ∀ timer ∈ parsed.board.timers, timer.function.toNat ≤ 15
  settings : (parsed.board.settings.map (·.key)).Nodup
  keys : ∀ setting ∈ parsed.board.settings,
    isIdentifier setting.key.toList = true ∧ Text.lower setting.key = setting.key
  values : ∀ setting ∈ parsed.board.settings,
    Text.trim setting.value.toList = setting.value.toList
  lines : ∀ number ∈ parsed.board.lines, IsLineOf text number
  findings : ∀ diagnostic ∈ parsed.diagnostics,
    ∃ number, diagnostic.line = some number ∧ IsLineOf text number

section Parts

variable {text : String} {policy : Policy}

theorem isResource_of_mem {assignment : Assignment}
    (member : assignment ∈ (parse policy text).board.resources) : IsResource assignment.id :=
  fromLine_of_mem_declarations (mem_declarations_of_resource member) rfl

theorem function_le_of_mem {timer : Timer} (member : timer ∈ (parse policy text).board.timers) :
    timer.function ≤ 15 :=
  fromLine_of_mem_declarations (mem_declarations_of_timer member) rfl

theorem isSetting_of_mem {setting : Setting}
    (member : setting ∈ (parse policy text).board.settings) :
    IsSetting setting.key setting.value :=
  fromLine_of_mem_declarations (mem_declarations_of_setting member) rfl

/-- A resource outside the model is not one of the model by another name. -/
theorem IsResource.unmodeled {id : ResourceId} (known : IsResource id) {keyword : String}
    (other : id.resource = .other keyword) : (Resource.ofKeyword keyword).isModeled = false := by
  have canonical := known.canonical
  rw [other, Resource.keyword] at canonical
  rw [canonical]
  rfl

end Parts

/-- Whatever a text says and however it repeats itself, later stages find each answer once, in
range and in its normal spelling, and every line number within the text. -/
theorem sound_parse (policy : Policy) (text : String) : (parse policy text).Sound text := by
  have unambiguous := parse_unambiguous policy text
  constructor
  case resources => exact unambiguous.resources
  case numbers =>
    intro assignment member
    have positive := (isResource_of_mem member).numbered
    have bounded := assignment.id.index.toNat_lt
    have nonzero : assignment.id.index.toNat ≠ 0 := fun zero => positive (UInt8.toNat_inj.mp zero)
    omega
  case keywords =>
    intro assignment member keyword other
    exact (isResource_of_mem member).unmodeled other
  case timers => exact unambiguous.timers
  case functions =>
    intro timer member
    exact UInt8.le_iff_toNat_le.mp (function_le_of_mem member)
  case settings => exact assemble_keys policy (declarations text)
  case keys =>
    intro setting member
    have spelled := isSetting_of_mem member
    refine ⟨spelled.named, String.toList_inj.mp ?_⟩
    rw [Text.toList_lower, spelled.small]
  case values =>
    intro setting member
    exact Text.trim_eq_self (isSetting_of_mem member).trimmed
  case lines => exact fun _ member => isLineOf_of_mem_lines member
  case findings => exact fun _ member => exists_line_of_mem_diagnostics member

end Pinout.Board
