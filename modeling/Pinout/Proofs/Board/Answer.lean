import Pinout.Proofs.Board.Soundness
import Pinout.Proofs.Text.Composition

/-! Every line is answered. A line that is neither blank nor a comment makes a statement or
raises an issue; a comment is never wrong, save a define that names nothing. What a line is
answered depends on that line alone. -/

set_option autoImplicit false

namespace Pinout.Board

/-! ## Lines that say something -/

/-- Neither blank nor a comment. -/
def IsSpoken (line : List Char) : Prop :=
  lineText line ≠ [] ∧ (lineText line).head? ≠ some '#'

instance (line : List Char) : Decidable (IsSpoken line) :=
  instDecidableAnd

def IsComment (line : List Char) : Prop :=
  (lineText line).head? = some '#'

instance (line : List Char) : Decidable (IsComment line) :=
  inferInstanceAs (Decidable ((lineText line).head? = some '#'))

/-- A resource or timer line with words behind those that make the statement. -/
def HasExtraWords (line : List Char) : Prop :=
  ∃ keyword rest, Text.words (lineText line) = keyword :: rest ∧
    (keyword.map Char.toLower = "resource".toList ∧ 3 < rest.length ∨
      keyword.map Char.toLower = "timer".toList ∧ 2 < rest.length)

/-- One statement, or issues; both only where there are words in excess. -/
inductive Answered {α β : Type} (excess : Prop) : List α → List β → Prop where
  | stated (statement : α) : Answered excess [statement] []
  | refused (issue : β) (more : List β) : Answered excess [] (issue :: more)
  | both (statement : α) (issue : β) (extra : excess) : Answered excess [statement] [issue]

section Answers

variable {α β γ : Type} {excess further : Prop} {statements : List α} {issues : List β}

theorem Answered.imp (answered : Answered excess statements issues) (given : excess → further) :
    Answered further statements issues := by
  cases answered with
  | stated statement => exact .stated statement
  | refused issue more => exact .refused issue more
  | both statement issue extra => exact .both statement issue (given extra)

theorem Answered.map_issues (answered : Answered excess statements issues) (change : β → γ) :
    Answered excess statements (issues.map change) := by
  cases answered with
  | stated statement => exact .stated statement
  | refused issue more => exact .refused (change issue) (more.map change)
  | both statement issue extra => exact .both statement (change issue) extra

end Answers

/-! ## Readings -/

namespace Reading

def Answers (excess : Prop) (reading : Reading) : Prop :=
  Answered excess reading.statement.toList reading.issues

variable {excess : Prop}

theorem answers_clean (statement : Statement) : (clean statement).Answers excess :=
  .stated statement

theorem answers_refused (issue : Issue) : (refused issue).Answers excess :=
  .refused issue []

/-- Words in excess are noted in front of what the others come to. -/
theorem Answers.noting {reading : Reading} (answers : reading.Answers False) (issue : Issue)
    (extra : excess) : (reading.noting issue).Answers excess := by
  obtain ⟨statement, issues⟩ := reading
  cases statement with
  | none => exact .refused issue issues
  | some statement =>
      cases issues with
      | nil => exact .both statement issue extra
      | cons other more =>
          cases answers with
          | both _ _ never => exact never.elim

end Reading

section Readings

variable {excess : Prop}

theorem answers_readPlace (id : ResourceId) (word : List Char) :
    (readPlace id word).Answers excess := by
  unfold readPlace
  split
  · exact Reading.answers_clean _
  · split
    · exact Reading.answers_clean _
    · exact Reading.answers_refused _

theorem answers_readTriple (type index place : List Char) :
    (readTriple type index place).Answers excess := by
  unfold readTriple
  split
  · exact Reading.answers_refused _
  · split
    · exact Reading.answers_refused _
    · split
      · exact Reading.answers_refused _
      · exact answers_readPlace _ place

theorem answers_readResource (words : List (List Char)) :
    (readResource words).Answers (3 < words.length) := by
  unfold readResource
  split
  · exact answers_readTriple _ _ _
  · rename_i type index place tail several
    have extra : 3 < (type :: index :: place :: tail).length := by
      have filled : tail ≠ [] := by
        rintro rfl
        exact several rfl
      have longer := List.length_pos_iff.mpr filled
      simp only [List.length_cons]
      omega
    exact (answers_readTriple type index place).noting _ extra
  · exact Reading.answers_refused _

theorem answers_readTimer (words : List (List Char)) :
    (readTimer words).Answers (2 < words.length) := by
  unfold readTimer
  split
  · rename_i place function tail
    split
    · exact Reading.answers_refused _
    · split
      · exact Reading.answers_refused _
      · split
        · exact Reading.answers_clean _
        · rename_i several
          refine .both _ _ ?_
          have longer := List.length_pos_iff.mpr several
          simp only [List.length_cons]
          omega
  · exact Reading.answers_refused _

theorem answers_readSetting (rest : List Char) : (readSetting rest).Answers excess := by
  unfold readSetting
  split
  · exact Reading.answers_refused _
  · dsimp only
    split
    · exact Reading.answers_clean _
    · exact Reading.answers_refused _

/-- The words of a text are its keyword and those of what follows it. -/
theorem words_of_filled {line : List Char} (filled : lineText line ≠ []) :
    Text.words (lineText line) =
      ((lineText line).takeWhile fun char => !Text.isBlank char) ::
        Text.words (Text.trim ((lineText line).dropWhile fun char => !Text.isBlank char)) := by
  obtain ⟨first, rest, text⟩ := List.exists_cons_of_ne_nil filled
  have opens : (lineText line).head? = some first := by rw [text, List.head?_cons]
  rw [Text.words_trim, Text.words_of_head? opens ((Text.trimmed_trim _).opens first opens)]

theorem answers_readStatement {line : List Char} (filled : lineText line ≠ []) :
    (readStatement (lineText line)).Answers (HasExtraWords line) := by
  have words := words_of_filled filled
  unfold readStatement
  dsimp only
  split
  · rename_i keyword
    refine Answered.imp (answers_readResource _) fun extra => ⟨_, _, words, .inl ⟨?_, extra⟩⟩
    rw [← keyword, String.toList_ofList]
  · rename_i keyword
    refine Answered.imp (answers_readTimer _) fun extra => ⟨_, _, words, .inr ⟨?_, extra⟩⟩
    rw [← keyword, String.toList_ofList]
  · exact answers_readSetting _
  · split
    · exact Reading.answers_clean _
    · exact Reading.answers_refused _
  · split
    · exact Reading.answers_clean _
    · exact Reading.answers_refused _
  · split
    · exact Reading.answers_clean _
    · exact Reading.answers_refused _

theorem answers_readLine {line : List Char} (spoken : IsSpoken line) :
    (readLine line).Answers (HasExtraWords line) := by
  rw [readLine_of_spoken spoken.1 spoken.2]
  exact answers_readStatement spoken.1

end Readings

/-! ## Comments -/

/-- A reading that has nothing to do with other statements and raises one issue at most. -/
structure Reading.Remarks (wrong : Prop) (reading : Reading) : Prop where
  unplaced : ∀ statement, reading.statement = some statement → statement.places = false
  issues : ∀ issue ∈ reading.issues, issue = .noDefineName ∧ wrong

section Comments

variable {text rest : List Char} {wrong : Prop}

theorem remarks_readComment (text : List Char) : (readComment text).Remarks wrong := by
  unfold readComment
  dsimp only
  split
  · constructor
    · intro statement said
      obtain ⟨name, _, rfl⟩ := Option.map_eq_some_iff.mp said
      rfl
    · exact fun _ raised => absurd raised List.not_mem_nil
  · constructor
    · intro statement said
      obtain ⟨note, _, rfl⟩ := Option.map_eq_some_iff.mp said
      rfl
    · exact fun _ raised => absurd raised List.not_mem_nil

theorem remarks_readDefine (text rest : List Char) :
    (readDefine text rest).Remarks (Text.words rest = []) := by
  unfold readDefine
  split
  · rename_i nameless
    constructor
    · exact fun _ said => nomatch said
    · intro issue raised
      exact ⟨List.mem_singleton.mp raised, nameless⟩
  · split
    · constructor
      · rintro _ ⟨rfl⟩
        rfl
      · exact fun _ raised => absurd raised List.not_mem_nil
    · constructor
      · rintro _ ⟨rfl⟩
        rfl
      · exact fun _ raised => absurd raised List.not_mem_nil

/-- A text that ends without a blank and has only blanks behind a part of it ends there. -/
theorem eq_nil_of_words (trimmed : Text.Trimmed (text ++ rest)) (nameless : Text.words rest = []) :
    rest = [] := by
  rcases List.eq_nil_or_concat rest with empty | ⟨front, last, rfl⟩
  · exact empty
  · have ended : (text ++ front.concat last).getLast? = some last := by simp
    have solid := trimmed.ends last ended
    rw [Text.words_eq_nil_iff.mp nameless last (by simp)] at solid
    cases solid

theorem remarks_readLine {line : List Char} (comment : IsComment line) :
    (readLine line).Remarks (lineText line = "#define".toList) := by
  have trimmed : Text.Trimmed (lineText line) := Text.trimmed_trim _
  obtain ⟨body, text⟩ := List.head?_eq_some_iff.mp comment
  cases define : afterDefine? ('#' :: body) with
  | none =>
      rw [readLine_of_comment text define]
      exact remarks_readComment _
  | some tail =>
      have split := append_of_afterDefine? define
      have remarks := remarks_readDefine ('#' :: body) tail
      rw [readLine_of_define text define]
      refine ⟨remarks.unplaced, fun issue raised => ?_⟩
      obtain ⟨same, nameless⟩ := remarks.issues issue raised
      rw [text, split] at trimmed
      rw [text, split, eq_nil_of_words trimmed nameless, List.append_nil]
      exact ⟨same, rfl⟩

end Comments

/-! ## Texts -/

/-- What the line of a number states. -/
def statementsAt (text : String) (number : Nat) : List Statement :=
  ((declarations text).filter fun declaration => declaration.line = number).map (·.statement)

/-- The syntax issues of the line of a number. -/
def Parsed.issuesAt (parsed : Parsed) (number : Nat) : List Diagnostic :=
  parsed.diagnostics.filter fun found => found.finding = .syntaxIssue ∧ found.line = some number

section Lines

variable {policy : Policy} {text : String} {number : Nat} {line : List Char}

theorem nodup_numbers (text : String) : ((numberedLines text).map (·.1)).Nodup := by
  rw [numberedLines, List.map_map]
  have numbers := List.nodup_range' (s := 1) (n := (Text.lines text.toList).length)
  rwa [← List.zipIdx_map_snd] at numbers

theorem filter_numberedLines (member : (number, line) ∈ numberedLines text) :
    ((numberedLines text).filter fun numbered => numbered.1 = number) = [(number, line)] :=
  Grouping.filter_key_eq_singleton (nodup_numbers text) member

theorem statementsAt_eq (member : (number, line) ∈ numberedLines text) :
    statementsAt text number = (readLine line).statement.toList := by
  let stated (numbered : Nat × List Char) : List Declaration :=
    ((readLine numbered.2).statement.map (Declaration.mk numbered.1)).toList
  have split : declarations text = (numberedLines text).flatMap stated :=
    List.filterMap_eq_flatMap_toList _ _
  have named : ∀ numbered ∈ numberedLines text, ∀ declaration ∈ stated numbered,
      declaration.line = numbered.1 := by
    intro numbered _ declaration inside
    obtain ⟨statement, _, rfl⟩ := Option.map_eq_some_iff.mp (Option.mem_toList.mp inside)
    rfl
  rw [statementsAt, split, Grouping.filter_flatMap_key named, filter_numberedLines member,
    List.flatMap_singleton]
  cases said : (readLine line).statement <;> simp [stated, said]

theorem issuesAt_eq (member : (number, line) ∈ numberedLines text) :
    (parse policy text).issuesAt number = (readLine line).issues.map (Issue.diagnostic number) := by
  have repeated : (repetitions policy [] [] (declarations text)).filter (fun found =>
      found.finding = .syntaxIssue ∧ found.line = some number) = [] := by
    rw [List.filter_eq_nil_iff]
    intro found inside
    obtain ⟨_, _, repeats⟩ := exists_repeats_of_mem_repetitions inside
    simp [repeats.finding]
  have issued : (lineIssues text).filter (fun found =>
      found.finding = .syntaxIssue ∧ found.line = some number) =
        (lineIssues text).filter fun found => found.line = some number := by
    apply List.filter_congr
    intro found inside
    obtain ⟨_, _, _, issue, _, rfl⟩ := exists_line_of_mem_lineIssues inside
    simp [Issue.diagnostic]
  have named : ∀ numbered ∈ numberedLines text,
      ∀ found ∈ (readLine numbered.2).issues.map (Issue.diagnostic numbered.1),
        found.line = some numbered.1 := by
    intro numbered _ found raised
    obtain ⟨issue, _, rfl⟩ := List.mem_map.mp raised
    rfl
  have single : ((numberedLines text).filter fun numbered => some numbered.1 = some number) =
      [(number, line)] := by
    simpa only [Option.some.injEq] using filter_numberedLines member
  rw [Parsed.issuesAt, parse]
  dsimp only
  rw [List.filter_append, repeated, List.append_nil, issued, lineIssues,
    Grouping.filter_flatMap_key named, single, List.flatMap_singleton]

theorem readLine_of_mem_declarations {declaration : Declaration}
    (member : (number, line) ∈ numberedLines text) (inside : declaration ∈ declarations text)
    (placed : declaration.line = number) :
    (readLine line).statement = some declaration.statement := by
  have listed : declaration.statement ∈ statementsAt text number :=
    List.mem_map_of_mem (List.mem_filter.mpr ⟨inside, by simpa using placed⟩)
  rwa [statementsAt_eq member, Option.mem_toList] at listed

theorem issue_of_mem_diagnostics {found : Diagnostic}
    (member : (number, line) ∈ numberedLines text) (comment : IsComment line)
    (inside : found ∈ (parse policy text).diagnostics) (placed : found.line = some number) :
    found = Issue.noDefineName.diagnostic number ∧ lineText line = "#define".toList := by
  have remarks := remarks_readLine comment
  rcases List.mem_append.mp inside with issued | repeated
  · have listed : found ∈ (parse policy text).issuesAt number := by
      obtain ⟨_, _, _, issue, _, rfl⟩ := exists_line_of_mem_lineIssues issued
      exact List.mem_filter.mpr ⟨inside, by simpa [Issue.diagnostic] using placed⟩
    rw [issuesAt_eq member, List.mem_map] at listed
    obtain ⟨issue, raised, rfl⟩ := listed
    obtain ⟨rfl, bare⟩ := remarks.issues issue raised
    exact ⟨rfl, bare⟩
  · obtain ⟨declaration, said, repeats⟩ := exists_repeats_of_mem_repetitions repeated
    have line := repeats.line
    rw [placed, Option.some.injEq] at line
    have statement := readLine_of_mem_declarations member said line.symm
    have placing := repeats.placed
    rw [remarks.unplaced _ statement] at placing
    cases placing

end Lines

/-- Nothing that is said in a text goes unheard, and each line is heard alone. -/
structure Heard (policy : Policy) (text : String) : Prop where
  answered : ∀ number line, (number, line) ∈ numberedLines text → IsSpoken line →
    Answered (HasExtraWords line) (statementsAt text number)
      ((parse policy text).issuesAt number)
  warned : ∀ number, ∀ found ∈ (parse policy text).issuesAt number, found.severity = .warning
  remarked : ∀ number line, (number, line) ∈ numberedLines text → IsComment line →
    ∀ found ∈ (parse policy text).diagnostics, found.line = some number →
      found = Issue.noDefineName.diagnostic number ∧ lineText line = "#define".toList
  alone : ∀ (later : Policy) (other : String) number place line,
    (number, line) ∈ numberedLines text → (place, line) ∈ numberedLines other →
      statementsAt other place = statementsAt text number ∧
        (parse later other).issuesAt place =
          ((parse policy text).issuesAt number).map fun found => { found with line := some place }

/-- Every line of a text that is neither blank nor a comment is answered by one statement or by
syntax warnings, whatever stands on the other lines. -/
theorem heard_parse (policy : Policy) (text : String) : Heard policy text := by
  constructor
  case answered =>
    intro number line member spoken
    rw [statementsAt_eq member, issuesAt_eq member]
    exact (answers_readLine spoken).map_issues _
  case warned =>
    intro number found listed
    obtain ⟨inside, kind⟩ := List.mem_filter.mp listed
    rcases List.mem_append.mp inside with issued | repeated
    · obtain ⟨_, _, _, issue, _, rfl⟩ := exists_line_of_mem_lineIssues issued
      rfl
    · obtain ⟨_, _, repeats⟩ := exists_repeats_of_mem_repetitions repeated
      simp [repeats.finding] at kind
  case remarked =>
    intro number line member comment found inside placed
    exact issue_of_mem_diagnostics member comment inside placed
  case alone =>
    intro later other number place line member again
    rw [statementsAt_eq member, statementsAt_eq again, issuesAt_eq member, issuesAt_eq again,
      List.map_map]
    exact ⟨rfl, rfl⟩

/-- A line without the first of its byte-order marks. -/
def dropMark : List Char → List Char
  | '\uFEFF' :: rest => rest
  | line => line

/-- A line of two byte-order marks goes unheard, though the first of them leaves one over. -/
theorem exists_unheard_line :
    ∃ text number line, (number, line) ∈ numberedLines text ∧
      Text.trim (dropMark line) ≠ [] ∧ (Text.trim (dropMark line)).head? ≠ some '#' ∧
        statementsAt text number = [] ∧ (parse .lastWins text).issuesAt number = [] :=
  ⟨"\uFEFF\uFEFF", 1, ['\uFEFF', '\uFEFF'], by decide +kernel⟩

end Pinout.Board
