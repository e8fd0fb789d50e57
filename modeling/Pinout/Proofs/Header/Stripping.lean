import Mathlib.Data.List.TakeWhile
import Pinout.Proofs.Header.Outline
import Pinout.Proofs.PinMap.Decoration

/-! Reading a header as code. Lines are joined first, then comments and preprocessor lines are
taken out of the text, as they are out of a capability table; what is left is read line by line.
The name of the source stands in a block comment, so that it may hold all but the end of one. A
comment that ends with its line may go on to the next, and then takes that away. -/

set_option autoImplicit false

namespace Pinout.Header

open PinMap (Zone strip stripFrom)
open Text (Without)

/-! ## Lines without comments -/

/-- A text without comments and preprocessor lines. -/
def codeOf (text : String) : String :=
  String.ofList (strip text.toList)

/-- What the logical lines of a text declare outside of comments and preprocessor lines. -/
def codeDeclarations (text : String) : List Declared :=
  declarations (codeOf (logical text))

theorem toList_codeOf (text : String) : (codeOf text).toList = strip text.toList :=
  String.toList_ofList

/-- A line and what stripping leaves of it. The line ends outside of comments, whatever follows. -/
structure Strips (line code : List Char) : Prop where
  alone : strip line = code
  before (rest : List Char) : stripFrom (.code true) (line ++ '\n' :: rest) =
    code ++ '\n' :: stripFrom (.code true) rest

/-- No comment and no directive starts in the text. -/
abbrev Silent (text : String) : Prop :=
  Without ['/', '#'] text

section Strips

variable {content front : String} {fresh : Bool} {line code words : List Char}

theorem Strips.codeOf_eq (strips : Strips content.toList front.toList) :
    codeOf content = front := by
  rw [codeOf, strips.alone, String.ofList_toList]

theorem stripFrom_blanks (count : Nat) (rest : List Char) :
    stripFrom (.code true) (List.replicate count ' ' ++ rest) =
      List.replicate count ' ' ++ stripFrom (.code true) rest := by
  induction count with
  | zero => rfl
  | succ count ih =>
      rw [List.replicate_succ, List.cons_append, List.cons_append, ← ih]
      exact PinMap.stripFrom_blank (by decide) (by decide)

theorem Strips.behind_blanks (strips : Strips line code) (count : Nat) :
    Strips (List.replicate count ' ' ++ line) (List.replicate count ' ' ++ code) where
  alone := by rw [strip, stripFrom_blanks, ← strip, strips.alone]
  before rest := by rw [List.append_assoc, stripFrom_blanks, strips.before, List.append_assoc]

theorem exists_stripFrom_silent (silent : Silent content) (single : Single content) :
    ∃ flag, ∀ rest, stripFrom (.code fresh) (content.toList ++ rest) =
      content.toList ++ stripFrom (.code flag) rest := by
  refine ⟨_, fun rest => PinMap.stripFrom_plain fun char member listed => ?_⟩
  simp only [List.mem_cons, List.not_mem_nil, or_false] at listed
  rcases listed with rfl | rfl | rfl
  · exact silent _ member (by decide)
  · exact silent _ member (by decide)
  · exact single _ member (by decide)

theorem strips_silent (silent : Silent content) (single : Single content) :
    Strips content.toList content.toList := by
  obtain ⟨flag, left⟩ := exists_stripFrom_silent silent single
  constructor
  · have alone := left []
    rwa [stripFrom, List.append_nil] at alone
  · intro rest
    rw [left, PinMap.stripFrom_feed]

theorem strips_noted (silent : Silent front) (single : Single front) (level : '\n' ∉ words) :
    Strips (front.toList ++ '/' :: '/' :: words) front.toList := by
  obtain ⟨flag, left⟩ := exists_stripFrom_silent silent single
  constructor
  · rw [strip, left, PinMap.stripFrom_comment_end level, List.append_nil]
  · intro rest
    rw [List.append_assoc, left, List.cons_append, List.cons_append,
      PinMap.stripFrom_comment level]

theorem strips_directive (level : '\n' ∉ words) : Strips ('#' :: words) [] where
  alone := PinMap.stripFrom_directive_end level
  before _ := PinMap.stripFrom_directive level

end Strips

/-- The text starts a comment that ends with its line. -/
abbrev Comment (text : String) : Prop :=
  "//".toList <+: text.toList

theorem Comment.append {front : String} (comment : Comment front) (back : String) :
    Comment (front ++ back) := by
  rw [Comment, String.toList_append]
  exact comment.trans (List.prefix_append _ _)

/-- A line that is code, or a comment, or a directive, or code with a comment behind it. -/
inductive Coded : String → Prop where
  | code {content : String} (silent : Silent content) : Coded content
  | comment {content : String} (comment : Comment content) : Coded content
  | directive {content : String} (starts : "#".toList <+: content.toList) : Coded content
  | noted {front note : String} (silent : Silent front)
      (marked : front.toList.any settingMarks.contains = true) (level : opensBlock front = false)
      (ended : opensBlock (front ++ "//" ++ note) = false) : Coded (front ++ "//" ++ note)

section Coded

variable {content opening front back kind name : String}

theorem exists_words (starts : opening.toList <+: content.toList) (single : Single content) :
    ∃ words, content.toList = opening.toList ++ words ∧ '\n' ∉ words := by
  obtain ⟨words, shown⟩ := starts
  exact ⟨words, shown.symm, fun member =>
    single _ (shown ▸ List.mem_append_right _ member) (by decide)⟩

theorem Introduces.not_remark (introduced : Introduces kind name content) : ¬ Remark content := by
  intro remark
  have silent := remark.silent.1
  rw [introduced.flush.bareLine_eq, introduced.read] at silent
  cases silent

theorem remark_of_starts (remark : Remark opening) (starts : opening.toList <+: content.toList) :
    Remark content := by
  obtain ⟨words, shown⟩ := starts
  have whole := remark.append (String.ofList words)
  rwa [Remark, String.toList_append, String.toList_ofList, shown, ← Remark] at whole

/-- A mark is no blank. -/
theorem unindented_ne_nil (marked : front.toList.any settingMarks.contains = true) :
    unindented front.toList ≠ [] := by
  intro empty
  obtain ⟨mark, inside, stops⟩ := List.any_eq_true.mp marked
  have blank : mark = ' ' := by simpa using List.dropWhile_eq_nil_iff.mp empty mark inside
  rw [blank] at stops
  cases stops

theorem Remark.of_append (remark : Remark (front ++ back))
    (marked : front.toList.any settingMarks.contains = true) : Remark front := by
  have filled := unindented_ne_nil marked
  rwa [Remark, String.toList_append, unindented_append filled,
    List.head?_append_of_ne_nil _ filled] at remark

/-- What stands behind a mark does not take part in a declaration. -/
theorem Introduces.of_append (introduced : Introduces kind name (front ++ back))
    (marked : front.toList.any settingMarks.contains = true) : Introduces kind name front where
  flush := by
    have filled := unindented_ne_nil marked
    have bare := introduced.flush.bare
    rw [String.toList_append, unindented_append filled, List.append_cancel_right_eq] at bare
    exact ⟨bare ▸ filled, bare⟩
  read := by
    have read := introduced.read
    unfold declared? at read ⊢
    split at read
    · rename_i starts
      rw [headWords_append marked] at read
      obtain ⟨word, listed, opens⟩ := List.any_eq_true.mp starts
      rw [if_pos, read]
      refine List.any_eq_true.mpr ⟨word, listed, ?_⟩
      rw [List.isPrefixOf_iff_prefix] at opens ⊢
      rw [String.toList_append] at opens
      refine (List.prefix_or_prefix_of_prefix opens (List.prefix_append _ _)).resolve_right ?_
      -- A declaring word holds no mark, so it cannot go on behind one.
      intro within
      obtain ⟨mark, inside, stops⟩ := List.any_eq_true.mp marked
      have unmarked : ∀ word ∈ declaringWords, Without settingMarks word := by decide
      exact unmarked word listed mark (within.subset inside) (by simpa using stops)
    · cases read
  marked := marked

end Coded

/-- The code of a line says what the line does, whether it is a remark or a declaration. -/
structure Stands (content code : String) : Prop where
  strips : Strips content.toList code.toList
  silent : Remark content → declared? (bareLine code.toList) = none ∧
    closesBlock (bareLine code.toList) = false
  declares {kind name : String} : Introduces kind name content →
    Introduces kind name code ∧ opensBlock code = opensBlock content

theorem Coded.exists_code {content : String} (coded : Coded content) (single : Single content) :
    ∃ code, Stands content code := by
  cases coded with
  | code silent =>
      exact ⟨content, strips_silent silent single, Remark.silent,
        fun introduced => ⟨introduced, rfl⟩⟩
  | comment starts =>
      obtain ⟨words, shown, level⟩ := exists_words starts single
      refine ⟨"", ?_, fun _ => by decide, fun introduced => ?_⟩
      · rw [shown]
        exact @strips_noted "" _ (by decide) (by decide) level
      · exact absurd (remark_of_starts (by decide) starts) introduced.not_remark
  | directive starts =>
      obtain ⟨words, shown, level⟩ := exists_words starts single
      refine ⟨"", ?_, fun _ => by decide, fun introduced => ?_⟩
      · rw [shown]
        exact strips_directive level
      · exact absurd (remark_of_starts (by decide) starts) introduced.not_remark
  | @noted front note silent marked level ended =>
      have shown : front ++ "//" ++ note = front ++ ("//" ++ note) := String.append_assoc ..
      rw [shown] at single ended ⊢
      have feeds := Text.without_singleton_iff.mp single
      rw [String.toList_append, String.toList_append, List.mem_append, List.mem_append, not_or,
        not_or] at feeds
      refine ⟨front, ?_, fun remark => (remark.of_append marked).silent,
        fun introduced => ⟨introduced.of_append marked, level.trans ended.symm⟩⟩
      rw [String.toList_append, String.toList_append]
      exact strips_noted silent (Text.without_singleton_iff.mpr feeds.1) feeds.2.2

theorem Coded.stands {content : String} (coded : Coded content) (single : Single content) :
    Stands content (codeOf content) := by
  obtain ⟨code, stands⟩ := coded.exists_code single
  rwa [stands.strips.codeOf_eq]

/-! ## Texts of lines -/

/-- Lines and what stripping leaves of them, whatever follows. -/
def Leaves (shown code : List String) : Prop :=
  ∀ rest, stripFrom (.code true) (logicalOf (textOf shown) ++ rest) =
    textOf code ++ stripFrom (.code true) rest

theorem Leaves.append {front back first second : List String} (leaves : Leaves front first)
    (others : Leaves back second) : Leaves (front ++ back) (first ++ second) := by
  intro rest
  rw [textOf_append, logicalOf_textOf_append, textOf_append, List.append_assoc, leaves, others,
    List.append_assoc]

theorem strips_indented {content : String}
    (strips : Strips content.toList (codeOf content).toList) (depth : Nat) :
    Strips (indented depth content).toList (codeOf (indented depth content)).toList := by
  have whole := strips.behind_blanks (2 * depth)
  rw [← toList_indented] at whole
  rwa [toList_codeOf, whole.alone]

/-- A line that is read by itself: it is not joined to the next, and its comment ends with it. -/
structure Separate (line : String) : Prop where
  intact : Intact line
  single : Single line
  strips : Strips line.toList (codeOf line).toList

theorem Separate.indented {content : String} (separate : Separate content) (depth : Nat) :
    Separate (indented depth content) where
  intact := separate.intact.indented depth
  single := single_indented separate.single depth
  strips := strips_indented separate.strips depth

theorem separate_silent {line : String} (intact : Intact line) (single : Single line)
    (silent : Silent line) : Separate line where
  intact := intact
  single := single
  strips := by
    have strips := strips_silent silent single
    rwa [strips.codeOf_eq]

theorem separate_empty : Separate "" :=
  separate_silent (by decide) (by decide) (by decide)

theorem Separate.single_code {line : String} (separate : Separate line) : Single (codeOf line) := by
  refine Text.without_singleton_iff.mpr fun feed => ?_
  rw [toList_codeOf] at feed
  exact Text.without_singleton_iff.mp separate.single ((PinMap.stripFrom_sublist _ _).subset feed)

theorem Separate.leaves {line : String} (separate : Separate line) :
    Leaves [line] [codeOf line] := by
  intro rest
  rw [logicalOf_textOf_cons, separate.intact, logicalOf_textOf_nil, List.append_nil,
    List.append_assoc, textOf_cons, List.append_assoc]
  exact separate.strips.before rest

/-- Stripping goes line by line where every line is read by itself. -/
theorem leaves_lines {shown : List String} (separate : ∀ line ∈ shown, Separate line) :
    Leaves shown (shown.map codeOf) := by
  induction shown with
  | nil => exact fun _ => rfl
  | cons line rest ih =>
      obtain ⟨here, others⟩ := List.forall_mem_cons.mp separate
      exact here.leaves.append (ih others)

/-! ## Reading code -/

/-- A declaration without the comment behind it. -/
def Declared.code (declared : Declared) : Declared :=
  { declared with text := codeOf declared.text }

theorem Declared.code_eq_self {declared : Declared} (silent : Silent declared.text)
    (single : Single declared.text) : declared.code = declared := by
  rw [Declared.code, (strips_silent silent single).codeOf_eq]

/-- The code of pieces declares what their outline tells. -/
theorem Outline.scoping_code {scope : List String} {items : List Item} {told : List Declared}
    (outline : Outline scope items told)
    (stands : Throughout (fun content => Stands content (codeOf content)) items)
    (rest : List String) :
    scoping scope ((contentsOf items).map (fun content => bareLine (codeOf content).toList) ++
        rest) = told.map Declared.code ++ scoping scope rest := by
  induction outline generalizing rest with
  | nil => rfl
  | gap _ ih => exact ih stands rest
  | @remark _ content _ _ remark _ ih =>
      obtain ⟨here, behind⟩ := List.forall_mem_cons.mp stands
      rw [contentsOf, Item.contents, List.singleton_append, List.map_cons, List.cons_append,
        scoping, (here.silent remark).1]
      dsimp only
      rw [(here.silent remark).2]
      exact ih behind rest
  | line introduced level _ ih =>
      obtain ⟨here, behind⟩ := List.forall_mem_cons.mp stands
      obtain ⟨shown, opens⟩ := here.declares introduced
      rw [contentsOf, Item.contents, List.singleton_append, List.map_cons, List.cons_append,
        shown.flush.bareLine_eq, scoping, shown.read]
      dsimp only
      rw [opens, level, List.map_cons, List.cons_append]
      exact congrArg _ (ih behind rest)
  | block introduced opens ended _ _ inside ih =>
      have closings : ∀ closing ∈ blockEnds, codeOf closing = closing := by decide
      obtain ⟨silent, closes⟩ := closes_of_mem _ ended
      rw [Throughout, contentsOf, Item.contents, List.cons_append, List.append_assoc] at stands
      obtain ⟨here, others⟩ := List.forall_mem_cons.mp stands
      obtain ⟨within, behind⟩ := List.forall_mem_append.mp others
      obtain ⟨shown, same⟩ := here.declares introduced
      rw [contentsOf, Item.contents, List.map_append, List.map_cons, List.map_append,
        List.cons_append, List.cons_append, shown.flush.bareLine_eq, scoping, shown.read]
      dsimp only
      rw [same, opens, if_pos rfl, List.append_assoc, List.append_assoc, inside within,
        List.map_singleton, List.singleton_append, closings _ ended, scoping, silent]
      dsimp only
      rw [closes, if_pos rfl, List.dropLast_concat,
        ih (List.forall_mem_append.mp behind).2, List.map_cons, List.map_append, List.cons_append,
        List.append_assoc]
      rfl

/-! ## Layouts -/

theorem bareLine_codeOf_indented (depth : Nat) (content : String) :
    bareLine (codeOf (indented depth content)).toList = bareLine (codeOf content).toList := by
  rw [toList_codeOf, toList_codeOf, toList_indented, strip, stripFrom_blanks, ← strip, bareLine,
    unindented, List.dropWhile_append_of_pos fun char member => by
      simp [List.eq_of_mem_replicate member]]
  rfl

end Pinout.Header
