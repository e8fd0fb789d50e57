import Pinout.Proofs.Header.Reading
import Pinout.Proofs.Text.Composition

/-! What a header declares and where. A reader goes through the lines of a text and keeps the
names of the blocks that are open. A line declares a name where it starts with one of a few
words; the name is the last word before what is set or opened. The reader knows nothing of how
the text was laid out, so what it finds is in the text and not only in its pieces. -/

set_option autoImplicit false

namespace Pinout.Header

open Text (IsWord Without letters letters_eq words)

/-! ## The reader -/

/-- The starts of lines that declare a name. -/
def declaringWords : List String :=
  ["static ", "namespace ", "struct "]

/-- The marks that end what stands before the name and the name. -/
def settingMarks : List Char :=
  ['\x7b', '=', ';']

/-- The words of a line up to what it sets or opens. -/
def headWords (text : String) : List String :=
  (words (text.toList.takeWhile fun char => !settingMarks.contains char)).map String.ofList

/-- The name that a line declares, behind the words that say what it is. -/
def declared? (text : String) : Option (String × String) :=
  if declaringWords.any fun word => word.toList.isPrefixOf text.toList then
    (headWords text).getLast?.map fun name => (" ".intercalate (headWords text).dropLast, name)
  else none

def opensBlock (text : String) : Bool :=
  text.toList.getLast? = some '\x7b'

def closesBlock (text : String) : Bool :=
  text.toList.head? = some '\x7d'

/-- A declaration in a text: the names of the blocks around it, the outermost first, the words
that say what it declares, the name, and the line. -/
structure Declared where
  scope : List String
  kind : String
  name : String
  text : String
deriving DecidableEq

/-- The same declaration outside of the outermost block. -/
def Declared.outer (declared : Declared) : Declared :=
  { declared with scope := declared.scope.tail }

/-- The declarations of lines inside the given blocks. -/
def scoping (scope : List String) : List String → List Declared
  | [] => []
  | text :: rest =>
    match declared? text with
    | some (kind, name) =>
      ⟨scope, kind, name, text⟩ ::
        scoping (if opensBlock text then scope ++ [name] else scope) rest
    | none => scoping (if closesBlock text then scope.dropLast else scope) rest

/-- The declarations of a text, in order. -/
def declarations (text : String) : List Declared :=
  scoping [] (bareLines text)

/-- Empty lines declare nothing and leave the blocks as they are. -/
theorem scoping_filter (scope : List String) (lines : List String) :
    scoping scope (lines.filter (· ≠ "")) = scoping scope lines := by
  have silent : declared? "" = none ∧ closesBlock "" = false := by decide
  induction lines generalizing scope with
  | nil => rfl
  | cons line rest ih =>
      by_cases empty : line = ""
      · subst empty
        rw [List.filter_cons_of_neg (by decide), ih, scoping, silent.1]
        dsimp only
        rw [silent.2]
        rfl
      · rw [List.filter_cons_of_pos (by simpa using empty), scoping, scoping]
        split
        · rw [ih]
        · rw [ih]

theorem declarations_render (items : List Item) :
    declarations (render items) = scoping [] ((contentsOf items).flatMap bareLines) := by
  rw [declarations, ← scoping_filter, filter_bareLines_render, scoping_filter]

/-! ## Lines that declare -/

/-- The words before a name: the reader finds them in front of any name. -/
structure Phrase (kind : String) : Prop where
  flush : Flush kind
  starts : declaringWords.any (fun word => word.toList.isPrefixOf (kind.toList ++ [' '])) = true
  unset : Without settingMarks kind
  spaced : " ".intercalate ((words kind.toList).map String.ofList) = kind

instance (kind : String) : Decidable (Phrase kind) :=
  decidable_of_iff (Flush kind ∧
      declaringWords.any (fun word => word.toList.isPrefixOf (kind.toList ++ [' '])) = true ∧
      Without settingMarks kind ∧
      " ".intercalate ((words kind.toList).map String.ofList) = kind)
    ⟨fun ⟨flush, starts, unset, spaced⟩ => ⟨flush, starts, unset, spaced⟩,
      fun phrase => ⟨phrase.flush, phrase.starts, phrase.unset, phrase.spaced⟩⟩

section Introduces

variable {kind name front back : String}

/-- The reader takes the text for the declaration of the name, and what is set or opened comes
next or is there already. -/
structure Introduces (kind name text : String) : Prop where
  flush : Flush text
  read : declared? text = some (kind, name)
  marked : text.toList.any settingMarks.contains = true

instance (kind name text : String) : Decidable (Introduces kind name text) :=
  decidable_of_iff (Flush text ∧ declared? text = some (kind, name) ∧
      text.toList.any settingMarks.contains = true)
    ⟨fun ⟨flush, read, marked⟩ => ⟨flush, read, marked⟩,
      fun introduced => ⟨introduced.flush, introduced.read, introduced.marked⟩⟩

theorem starts_append (starts : (declaringWords.any fun word =>
      word.toList.isPrefixOf front.toList) = true) (back : String) :
    (declaringWords.any fun word => word.toList.isPrefixOf (front ++ back).toList) = true := by
  obtain ⟨word, listed, opens⟩ := List.any_eq_true.mp starts
  refine List.any_eq_true.mpr ⟨word, listed, ?_⟩
  rw [String.toList_append]
  rw [List.isPrefixOf_iff_prefix] at opens ⊢
  exact opens.trans (List.prefix_append _ _)

/-- The reader stops at the first mark. -/
theorem headWords_append (marked : front.toList.any settingMarks.contains = true)
    (back : String) : headWords (front ++ back) = headWords front := by
  obtain ⟨mark, inside, stops⟩ := List.any_eq_true.mp marked
  rw [headWords, String.toList_append, List.takeWhile_append, if_neg, headWords]
  intro whole
  have all := (List.takeWhile_prefix _).eq_of_length whole
  rw [← all] at inside
  have passed := List.all_eq_true.mp List.all_takeWhile mark inside
  rw [stops] at passed
  cases passed

theorem Introduces.append (introduced : Introduces kind name front) (back : String) :
    Introduces kind name (front ++ back) where
  flush := introduced.flush.append back
  read := by
    have read := introduced.read
    unfold declared? at read ⊢
    split at read
    · rename_i starts
      rw [if_pos (starts_append starts back), headWords_append introduced.marked, read]
    · cases read
  marked := by
    rw [String.toList_append, List.any_append, introduced.marked, Bool.true_or]

/-- What may come right behind a name. -/
def settings : List String :=
  ["\x7b", " \x7b", " = "]

theorem introduces (phrase : Phrase kind) (word : IsWord name) (setting : String)
    (sets : setting ∈ settings) : Introduces kind name (kind ++ " " ++ name ++ setting) where
  flush := ((phrase.flush.append " ").append name).append setting
  marked := by
    have marks : ∀ setting ∈ settings, setting.toList.any settingMarks.contains = true := by
      decide
    rw [String.toList_append, List.any_append, marks setting sets, Bool.or_true]
  read := by
    have starts : (declaringWords.any fun word => word.toList.isPrefixOf
        (kind ++ " " ++ name ++ setting).toList) = true := by
      refine starts_append (starts_append ?_ name) setting
      rw [String.toList_append]
      exact phrase.starts
    have unset : Without settingMarks (kind ++ " " ++ name) :=
      (phrase.unset.append (by decide)).append (word.without (by decide))
    have kept : ∀ char ∈ (kind ++ " " ++ name).toList, (!settingMarks.contains char) = true := by
      intro char member
      simpa using unset char member
    have shown (tail : List Char) : (kind ++ " " ++ name).toList ++ tail =
        kind.toList ++ ' ' :: (name.toList ++ tail) := by
      simp only [String.toList_append, List.append_assoc]
      rfl
    have cuts : ∀ setting ∈ settings, setting.toList.takeWhile
        (fun char => !settingMarks.contains char) ∈ [[], [' ']] := by
      decide
    have named : words (name.toList ++ setting.toList.takeWhile
        fun char => !settingMarks.contains char) = [name.toList] := by
      rcases List.mem_pair.mp (cuts setting sets) with empty | blank
      · rw [empty, List.append_nil, Text.words_of_solid word.solid word.filled]
      · rw [blank, Text.words_append_blank word.solid word.filled (by decide)]
        rfl
    have heads : headWords (kind ++ " " ++ name ++ setting) =
        (words kind.toList).map String.ofList ++ [name] := by
      rw [headWords, String.toList_append, List.takeWhile_append_of_pos kept, shown,
        Text.words_append _ (by decide), named, List.map_append, List.map_singleton,
        String.ofList_toList]
    rw [declared?, if_pos starts, heads, List.getLast?_concat, List.dropLast_concat, phrase.spaced]
    rfl

/-- The words before a constant end with its type. -/
theorem phrase_type {type : String} (word : IsWord type) :
    Phrase ("static constexpr " ++ type) where
  flush := (by decide : Flush "static constexpr ").append type
  unset := (by decide : Without settingMarks "static constexpr ").append (word.without (by decide))
  starts := by
    have starts := starts_append
      (by decide : (declaringWords.any fun word =>
        word.toList.isPrefixOf "static constexpr ".toList) = true) (type ++ " ")
    rwa [← String.append_assoc, String.toList_append] at starts
  spaced := by
    have front : words "static constexpr".toList = ["static".toList, "constexpr".toList] := by
      decide
    have shown : ("static constexpr " ++ type).toList =
        "static constexpr".toList ++ ' ' :: type.toList := by
      rw [String.toList_append]
      rfl
    have spaces : "static" ++ " " ++ "constexpr" ++ " " = "static constexpr " := by decide
    rw [shown, Text.words_append _ (by decide), front, Text.words_of_solid word.solid word.filled]
    simp only [List.cons_append, List.nil_append, List.map_cons, List.map_nil,
      String.ofList_toList]
    rw [← spaces]
    rfl

theorem introduces_declaration {type : String} (typed : IsWord type) (word : IsWord name)
    (values : List String) :
    Introduces ("static constexpr " ++ type) name (declaration type name values) := by
  have shown : declaration type name values =
      "static constexpr " ++ type ++ " " ++ name ++ "\x7b" ++
        (", ".intercalate values ++ "\x7d" ++ ";") := by
    unfold declaration braced
    simp only [String.append_assoc]
  rw [shown]
  exact (introduces (phrase_type typed) word "\x7b" (by decide)).append _

theorem opensBlock_append {back : String} (filled : back.toList ≠ []) (front : String) :
    opensBlock (front ++ back) = opensBlock back := by
  rw [opensBlock, getLast?_append filled, opensBlock]

theorem opensBlock_append_word (word : IsWord name) (front : String) :
    opensBlock (front ++ name) = false := by
  obtain ⟨last, ending, named⟩ := word.exists_last
  rw [opensBlock_append word.filled, opensBlock, ending]
  refine decide_eq_false ?_
  rintro ⟨⟩
  cases named

end Introduces

/-! ## Lines that do not -/

/-- The characters that comments, directives and the fields of structures start with. -/
def remarkMarks : List Char :=
  ['/', '*', '#', 'u']

/-- Behind its indentation, the content starts as no declaration and no end of a block does. -/
def Remark (content : String) : Prop :=
  (unindented content.toList).head?.any remarkMarks.contains = true

instance (content : String) : Decidable (Remark content) :=
  decidable_of_iff ((unindented (letters content)).head?.any remarkMarks.contains = true) <| by
    rw [letters_eq, Remark]

theorem Remark.append {front : String} (remark : Remark front) (back : String) :
    Remark (front ++ back) := by
  have filled : unindented front.toList ≠ [] := by
    intro empty
    rw [Remark, empty] at remark
    cases remark
  rwa [Remark, String.toList_append, unindented_append filled,
    List.head?_append_of_ne_nil _ filled]

theorem Remark.silent {content : String} (remark : Remark content) :
    declared? (bareLine content.toList) = none ∧
      closesBlock (bareLine content.toList) = false := by
  rw [declared?, closesBlock, toList_bareLine]
  unfold Remark at remark
  cases shown : unindented content.toList with
  | nil => rw [shown] at remark; cases remark
  | cons mark rest =>
      rw [shown] at remark
      have listed : mark ∈ remarkMarks := by simpa using remark
      simp only [remarkMarks, List.mem_cons, List.not_mem_nil, or_false] at listed
      rcases listed with rfl | rfl | rfl | rfl
      · exact ⟨rfl, rfl⟩
      · exact ⟨rfl, rfl⟩
      · exact ⟨rfl, rfl⟩
      · exact ⟨rfl, rfl⟩

/-! ## Outlines -/

def blockEnds : List String :=
  ["\x7d", "\x7d;"]

theorem closes_of_mem : ∀ closing ∈ blockEnds,
    declared? (bareLine closing.toList) = none ∧
      closesBlock (bareLine closing.toList) = true := by
  decide

/-- What pieces declare inside the given blocks. Every piece is a remark, a declaration, or a
block with a name. -/
inductive Outline : List String → List Item → List Declared → Prop where
  | nil {scope} : Outline scope [] []
  | gap {scope items told} : Outline scope items told → Outline scope (.gap :: items) told
  | remark {scope content items told} :
      Remark content → Outline scope items told → Outline scope (.line content :: items) told
  | line {scope kind name content items told} :
      Introduces kind name content → opensBlock content = false → Outline scope items told →
      Outline scope (.line content :: items) (⟨scope, kind, name, content⟩ :: told)
  | block {scope kind name opening body closing within items told} :
      Introduces kind name opening → opensBlock opening = true →
      closing ∈ blockEnds → Outline (scope ++ [name]) body within → Outline scope items told →
      Outline scope (.block opening body closing :: items)
        (⟨scope, kind, name, opening⟩ :: (within ++ told))

namespace Outline

variable {scope : List String} {items front back : List Item} {told first second : List Declared}

/-- The reader finds what an outline tells, whatever follows. -/
theorem scoping_contents (outline : Outline scope items told) (rest : List String) :
    scoping scope ((contentsOf items).map (fun content => bareLine content.toList) ++ rest) =
      told ++ scoping scope rest := by
  induction outline generalizing rest with
  | nil => rfl
  | gap _ ih => exact ih rest
  | remark remark _ ih =>
      rw [contentsOf, Item.contents, List.singleton_append, List.map_cons, List.cons_append,
        scoping, remark.silent.1]
      dsimp only
      rw [remark.silent.2]
      exact ih rest
  | line introduced level _ ih =>
      rw [contentsOf, Item.contents, List.singleton_append, List.map_cons, List.cons_append,
        introduced.flush.bareLine_eq, scoping, introduced.read]
      dsimp only
      rw [level, List.cons_append]
      exact congrArg _ (ih rest)
  | block introduced opens ended _ _ inside ih =>
      obtain ⟨silent, closes⟩ := closes_of_mem _ ended
      rw [contentsOf, Item.contents, List.map_append, List.map_cons, List.map_append,
        List.cons_append, List.cons_append, introduced.flush.bareLine_eq, scoping, introduced.read]
      dsimp only
      rw [opens, if_pos rfl, List.append_assoc, List.append_assoc, inside, List.map_singleton,
        List.singleton_append, scoping, silent]
      dsimp only
      rw [closes, if_pos rfl, List.dropLast_concat, ih, List.cons_append, List.append_assoc]

theorem append (outline : Outline scope front first) (other : Outline scope back second) :
    Outline scope (front ++ back) (first ++ second) := by
  induction outline with
  | nil => exact other
  | gap _ ih => exact .gap (ih other)
  | remark remark _ ih => exact .remark remark (ih other)
  | line introduced level _ ih => exact .line introduced level (ih other)
  | block introduced opens ended inside _ _ ih =>
      rw [List.cons_append, List.cons_append, List.append_assoc]
      exact .block introduced opens ended inside (ih other)

theorem flatMap {α : Type} {pieces : α → List Item} {tell : α → List Declared} {values : List α}
    (each : ∀ value ∈ values, Outline scope (pieces value) (tell value)) :
    Outline scope (values.flatMap pieces) (values.flatMap tell) := by
  induction values with
  | nil => exact .nil
  | cons value rest ih =>
      rw [List.flatMap_cons, List.flatMap_cons]
      exact (each value List.mem_cons_self).append
        (ih fun other member => each other (List.mem_cons_of_mem _ member))

/-- A block behind which nothing is declared. -/
theorem enclosed {kind name opening closing : String} {body : List Item} {within : List Declared}
    (introduced : Introduces kind name opening) (opens : opensBlock opening = true)
    (ended : closing ∈ blockEnds) (inside : Outline (scope ++ [name]) body within)
    (rest : Outline scope items []) :
    Outline scope (.block opening body closing :: items)
      (⟨scope, kind, name, opening⟩ :: within) := by
  have whole := Outline.block introduced opens ended inside rest
  rwa [List.append_nil] at whole

/-- What is told stands in the blocks that the pieces stand in. -/
theorem scope_initial (outline : Outline scope items told) :
    ∀ declared ∈ told, scope <+: declared.scope := by
  induction outline with
  | nil => exact List.forall_mem_nil _
  | gap _ ih => exact ih
  | remark _ _ ih => exact ih
  | line _ _ _ ih => exact List.forall_mem_cons.mpr ⟨List.prefix_rfl, ih⟩
  | block _ _ _ _ _ inside ih =>
      refine List.forall_mem_cons.mpr ⟨List.prefix_rfl, List.forall_mem_append.mpr ⟨?_, ih⟩⟩
      exact fun declared member => (List.prefix_append _ _).trans (inside declared member)

/-- What is told is shown by the contents. -/
theorem text_mem (outline : Outline scope items told) :
    ∀ declared ∈ told, declared.text ∈ contentsOf items := by
  induction outline with
  | nil => exact List.forall_mem_nil _
  | gap _ ih => exact ih
  | remark _ _ ih => exact fun declared member => List.mem_cons_of_mem _ (ih declared member)
  | line _ _ _ ih =>
      refine List.forall_mem_cons.mpr ⟨List.mem_cons_self, fun declared member => ?_⟩
      exact List.mem_cons_of_mem _ (ih declared member)
  | block _ _ _ _ _ inside ih =>
      refine List.forall_mem_cons.mpr ⟨List.mem_cons_self, List.forall_mem_append.mpr ⟨?_, ?_⟩⟩
      · intro declared member
        exact List.mem_cons_of_mem _ (List.mem_append_left _
          (List.mem_append_left _ (inside declared member)))
      · exact fun declared member => List.mem_append_right _ (ih declared member)

/-- Without the outermost block the pieces tell the same, outside of it. -/
theorem outer (outline : Outline scope items told) (inside : scope ≠ []) :
    Outline scope.tail items (told.map Declared.outer) := by
  induction outline with
  | nil => exact .nil
  | gap _ ih => exact .gap (ih inside)
  | remark remark _ ih => exact .remark remark (ih inside)
  | line introduced level _ ih => exact .line introduced level (ih inside)
  | @block scope _ name _ _ _ _ _ _ introduced opens ended _ _ within ih =>
      have nested := within (List.append_ne_nil_of_left_ne_nil inside [name])
      rw [List.tail_append_of_ne_nil inside] at nested
      rw [List.map_cons, List.map_append]
      exact .block introduced opens ended nested (ih inside)

/-- A header declares what the outline of its pieces tells. -/
theorem declarations_eq (outline : Outline [] items told)
    (single : ∀ content ∈ contentsOf items, Without ['\n'] content) :
    declarations (render items) = told := by
  have whole := outline.scoping_contents []
  rw [List.append_nil, scoping, List.append_nil] at whole
  rw [declarations_render, flatMap_bareLines_of_single single, whole]

end Outline

end Pinout.Header
