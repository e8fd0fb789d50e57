import Pinout.Proofs.Header.Lines
import Pinout.Proofs.Text.Word

/-! The logical lines of a text, as a compiler makes them before it looks for comments. It takes
every end of a line for a line feed, and joins a line that ends in a backslash, with or without
blanks behind it, to the next. Trigraphs stand for themselves. Behind a line feed a text is read as
at its start, so that the lines of a header can be read one by one. -/

set_option autoImplicit false

namespace Pinout.Header

open Text (IsWord Without isNameChar letters letters_eq)

/-! ## Ends of lines -/

/-- A text with line feeds for carriage returns, alone or in front of a line feed. -/
def unified : List Char → List Char
  | '\r' :: '\n' :: rest => '\n' :: unified rest
  | '\r' :: rest => '\n' :: unified rest
  | char :: rest => char :: unified rest
  | [] => []

theorem unified_cons {char : Char} (other : char ≠ '\r') (rest : List Char) :
    unified (char :: rest) = char :: unified rest := by
  rw [unified]
  · rintro _ rfl
    exact absurd rfl other
  · rintro rfl
    exact other rfl

theorem unified_return {rest : List Char} (unfed : ∀ others, rest = '\n' :: others → False) :
    unified ('\r' :: rest) = '\n' :: unified rest := by
  rw [unified]
  exact unfed

theorem unified_append {front : List Char} (absent : '\r' ∉ front) (rest : List Char) :
    unified (front ++ rest) = front ++ unified rest := by
  induction front with
  | nil => rfl
  | cons char front ih =>
      rw [List.mem_cons, not_or] at absent
      rw [List.cons_append, unified_cons (Ne.symm absent.1), ih absent.2, List.cons_append]

/-- A line feed behind a carriage return is one with it. -/
theorem exists_unified_feed (text : List Char) :
    ∃ front, ∀ rest, unified (text ++ '\n' :: rest) = front ++ '\n' :: unified rest := by
  induction text using unified.induct with
  | case1 text ih =>
      obtain ⟨front, ih⟩ := ih
      exact ⟨'\n' :: front, fun rest => congrArg (List.cons '\n') (ih rest)⟩
  | case2 text unfed ih =>
      cases text with
      | nil => exact ⟨[], fun _ => rfl⟩
      | cons char text =>
          obtain ⟨front, ih⟩ := ih
          refine ⟨'\n' :: front, fun rest => ?_⟩
          rw [List.cons_append, unified_return, ih, List.cons_append]
          intro others same
          cases same
          exact unfed _ rfl
  | case3 char text _ other ih =>
      obtain ⟨front, ih⟩ := ih
      refine ⟨char :: front, fun rest => ?_⟩
      rw [List.cons_append, unified_cons other, ih, List.cons_append]
  | case4 => exact ⟨[], fun _ => rfl⟩

theorem unified_concat_cases (text : List Char) :
    unified (text ++ ['\n']) = unified text ++ ['\n'] ∨
      unified (text ++ ['\n']) = unified text := by
  induction text using unified.induct with
  | case1 text ih => exact ih.imp (congrArg (List.cons '\n')) (congrArg (List.cons '\n'))
  | case2 text unfed ih =>
      cases text with
      | nil => exact .inr rfl
      | cons char text =>
          have apart : ∀ others, char :: text ++ ['\n'] = '\n' :: others → False := by
            rintro others ⟨⟩
            exact unfed _ rfl
          rw [List.cons_append, unified_return apart, unified_return unfed]
          exact ih.imp (congrArg _) (congrArg _)
  | case3 char text _ other ih =>
      rw [List.cons_append, unified_cons other, unified_cons other]
      exact ih.imp (congrArg _) (congrArg _)
  | case4 => exact .inl rfl

/-! ## Joined lines -/

/-- The blanks that may stand between a backslash and the end of its line. -/
def lineBlanks : List Char :=
  [' ', '\t', '\x0b', '\x0c']

/-- A text whose lines are joined. A backslash is held back, with the blanks behind it, until
it is known whether its line ends there. -/
def joinedFrom (held : List Char) : List Char → List Char
  | [] => held
  | char :: rest =>
    if char = '\n' then
      if held = [] then '\n' :: joinedFrom [] rest else joinedFrom [] rest
    else if char = '\\' then held ++ joinedFrom ['\\'] rest
    else if held ≠ [] ∧ char ∈ lineBlanks then joinedFrom (held ++ [char]) rest
    else held ++ char :: joinedFrom [] rest

theorem joinedFrom_feed (held text rest : List Char) :
    joinedFrom held (text ++ '\n' :: rest) =
      joinedFrom held (text ++ ['\n']) ++ joinedFrom [] rest := by
  induction text generalizing held with
  | nil =>
      simp only [List.nil_append, joinedFrom, if_true]
      split <;> rfl
  | cons char text ih =>
      simp only [List.cons_append, joinedFrom]
      split
      · split
        · rw [ih, List.cons_append]
        · rw [ih]
      · split
        · rw [ih, List.append_assoc]
        · split
          · rw [ih]
          · rw [ih, List.append_assoc, List.cons_append]

/-- A line feed at the end makes no difference to what stands before it, but for a backslash
that it takes away. -/
theorem joinedFrom_concat_initial (held text : List Char) :
    joinedFrom held (text ++ ['\n']) <+: joinedFrom held text ++ ['\n'] := by
  induction text generalizing held with
  | nil =>
      simp only [List.nil_append, joinedFrom, if_true]
      split
      · rename_i empty
        rw [empty]
        exact List.prefix_rfl
      · exact List.nil_prefix
  | cons char text ih =>
      simp only [List.cons_append, joinedFrom]
      split
      · split
        · exact List.cons_prefix_cons.mpr ⟨rfl, ih _⟩
        · exact ih _
      · split
        · rw [List.append_assoc]
          exact (List.prefix_append_right_inj held).mpr (ih _)
        · split
          · exact ih _
          · rw [List.append_assoc, List.cons_append]
            exact (List.prefix_append_right_inj held).mpr (List.cons_prefix_cons.mpr ⟨rfl, ih _⟩)

/-- Nothing is held back, or a backslash and blanks are. -/
def Held (held : List Char) : Prop :=
  held = [] ∨ ∃ blanks, held = '\\' :: blanks ∧ ∀ char ∈ blanks, char ∈ lineBlanks

/-- Of a line all is read but what is held back at its end. -/
theorem exists_joinedFrom_level {held line : List Char} (holds : Held held) (level : '\n' ∉ line) :
    ∃ shown left, shown ++ left = held ++ line ∧ Held left ∧
      ∀ rest, joinedFrom held (line ++ rest) = shown ++ joinedFrom left rest := by
  induction line generalizing held with
  | nil => exact ⟨[], held, by simp, holds, fun _ => rfl⟩
  | cons char line ih =>
      rw [List.mem_cons, not_or] at level
      obtain ⟨other, level⟩ := level
      by_cases slash : char = '\\'
      · obtain ⟨shown, left, whole, ends, read⟩ :=
          ih (.inr ⟨[], rfl, List.forall_mem_nil _⟩) level
        refine ⟨held ++ shown, left, ?_, ends, fun rest => ?_⟩
        · rw [List.append_assoc, whole, slash]
          rfl
        · rw [List.cons_append, joinedFrom, if_neg (Ne.symm other), if_pos slash, read,
            List.append_assoc]
      · by_cases blank : held ≠ [] ∧ char ∈ lineBlanks
        · obtain ⟨blanks, rfl, listed⟩ := holds.resolve_left blank.1
          have longer : Held ('\\' :: blanks ++ [char]) :=
            .inr ⟨blanks ++ [char], rfl, List.forall_mem_append.mpr
              ⟨listed, List.forall_mem_singleton.mpr blank.2⟩⟩
          obtain ⟨shown, left, whole, ends, read⟩ := ih longer level
          refine ⟨shown, left, ?_, ends, fun rest => ?_⟩
          · rw [whole, List.append_assoc]
            rfl
          · rw [List.cons_append, joinedFrom, if_neg (Ne.symm other), if_neg slash, if_pos blank,
              read]
        · obtain ⟨shown, left, whole, ends, read⟩ := ih (.inl rfl) level
          refine ⟨held ++ char :: shown, left, ?_, ends, fun rest => ?_⟩
          · rw [List.append_assoc, List.cons_append, whole]
            rfl
          · rw [List.cons_append, joinedFrom, if_neg (Ne.symm other), if_neg slash, if_neg blank,
              read, List.append_assoc, List.cons_append]

/-! ## Lines -/

/-- The logical lines of a text. -/
def logicalOf (text : List Char) : List Char :=
  joinedFrom [] (unified text)

def logical (text : String) : String :=
  String.ofList (logicalOf text.toList)

theorem logicalOf_feed (text rest : List Char) :
    logicalOf (text ++ '\n' :: rest) = logicalOf (text ++ ['\n']) ++ logicalOf rest := by
  obtain ⟨front, read⟩ := exists_unified_feed text
  have alone : unified (text ++ ['\n']) = front ++ ['\n'] := read []
  rw [logicalOf, logicalOf, logicalOf, read, alone, joinedFrom_feed]

theorem logicalOf_concat_initial (text : List Char) :
    logicalOf (text ++ ['\n']) <+: logicalOf text ++ ['\n'] := by
  unfold logicalOf
  rcases unified_concat_cases text with fed | same
  · rw [fed]
    exact joinedFrom_concat_initial [] _
  · rw [same]
    exact List.prefix_append _ _

/-- Lines are read one by one. -/
theorem logicalOf_textOf_append (lines : List String) (rest : List Char) :
    logicalOf (textOf lines ++ rest) = logicalOf (textOf lines) ++ logicalOf rest := by
  induction lines with
  | nil => rfl
  | cons line lines ih =>
      rw [textOf_cons, List.append_assoc, List.cons_append, logicalOf_feed, ih,
        logicalOf_feed _ (textOf lines), List.append_assoc]

theorem logicalOf_textOf_nil : logicalOf (textOf []) = [] :=
  rfl

theorem logicalOf_textOf_cons (line : String) (lines : List String) :
    logicalOf (textOf (line :: lines)) =
      logicalOf (line.toList ++ ['\n']) ++ logicalOf (textOf lines) := by
  rw [textOf_cons, logicalOf_feed]

/-- One line, however lines may end. -/
abbrev Level (text : String) : Prop :=
  Without ['\n', '\r'] text

/-- The line ends in a backslash, which stands behind the given front. -/
def Joins (line front : List Char) : Prop :=
  ∃ blanks, line = front ++ '\\' :: blanks ∧ ∀ char ∈ blanks, char ∈ lineBlanks

theorem logicalOf_line_cases {line : String} (level : Level line) :
    logicalOf (line.toList ++ ['\n']) = line.toList ++ ['\n'] ∨
      ∃ front, Joins line.toList front ∧ logicalOf (line.toList ++ ['\n']) = front := by
  have unfed : '\n' ∉ line.toList := fun feed => level _ feed (by decide)
  have unreturned : '\r' ∉ line.toList := fun feed => level _ feed (by decide)
  obtain ⟨shown, left, whole, ends, read⟩ := exists_joinedFrom_level (.inl rfl) unfed
  have feed : unified ['\n'] = ['\n'] := by decide
  rw [logicalOf, unified_append unreturned, feed, read]
  rcases ends with rfl | ⟨blanks, rfl, listed⟩
  · rw [List.append_nil, List.nil_append] at whole
    exact .inl (whole ▸ rfl)
  · refine .inr ⟨shown, ⟨blanks, whole.symm, listed⟩, ?_⟩
    rw [joinedFrom, if_pos rfl, if_neg (List.cons_ne_nil _ _), joinedFrom, List.append_nil]

/-- A line that is read as it stands and is not joined to the next. -/
def Intact (line : String) : Prop :=
  logicalOf (line.toList ++ ['\n']) = line.toList ++ ['\n']

instance (line : String) : Decidable (Intact line) :=
  decidable_of_iff (logicalOf (letters line ++ ['\n']) = letters line ++ ['\n']) <| by
    rw [letters_eq, Intact]

theorem logicalOf_textOf_of_intact {lines : List String} (intact : ∀ line ∈ lines, Intact line) :
    logicalOf (textOf lines) = textOf lines := by
  induction lines with
  | nil => rfl
  | cons line lines ih =>
      obtain ⟨here, others⟩ := List.forall_mem_cons.mp intact
      rw [logicalOf_textOf_cons, here, ih others, textOf_cons, List.append_assoc]
      rfl

theorem intact_of_not_joins {line : String} (level : Level line)
    (apart : ∀ front, ¬ Joins line.toList front) : Intact line :=
  (logicalOf_line_cases level).resolve_right fun ⟨front, joins, _⟩ => apart front joins

theorem intact_of_without {line : String} (free : Without ['\n', '\r', '\\'] line) :
    Intact line := by
  refine intact_of_not_joins (free.of_fewer (by decide)) fun front => ?_
  rintro ⟨blanks, whole, _⟩
  exact free '\\' (whole ▸ List.mem_append_right _ List.mem_cons_self) (by decide)

/-- A word at the end keeps the line from being joined. -/
theorem intact_append_word {front word : String} (level : Level front) (named : IsWord word) :
    Intact (front ++ word) := by
  refine intact_of_not_joins (level.append (named.without (by decide))) fun before => ?_
  rintro ⟨blanks, whole, listed⟩
  obtain ⟨last, ending, letter⟩ := named.exists_last
  have unnamed : (('\\' :: lineBlanks).any isNameChar) = false := by decide
  have final : ('\\' :: blanks).getLast? = some last := by
    rw [← ending, ← List.getLast?_append_of_ne_nil before (List.cons_ne_nil _ _), ← whole,
      String.toList_append, List.getLast?_append_of_ne_nil _ named.filled]
  have held := List.mem_of_getLast? final
  have mark : last ∈ '\\' :: lineBlanks :=
    (List.mem_cons.mp held).elim (fun same => same ▸ List.mem_cons_self)
      fun blank => List.mem_cons_of_mem _ (listed last blank)
  exact absurd letter (List.any_eq_false.mp unnamed last mark)

theorem joinedFrom_append {front : List Char} (free : ∀ char ∈ front, char ∉ ['\n', '\\'])
    (rest : List Char) : joinedFrom [] (front ++ rest) = front ++ joinedFrom [] rest := by
  induction front with
  | nil => rfl
  | cons char front ih =>
      obtain ⟨here, others⟩ := List.forall_mem_cons.mp free
      simp only [List.mem_cons, List.not_mem_nil, or_false, not_or] at here
      rw [List.cons_append, joinedFrom, if_neg here.1, if_neg here.2, if_neg (by simp),
        ih others]
      rfl

/-- What is neither a backslash nor the end of a line is read as it stands. -/
theorem logicalOf_append {front : List Char} (free : ∀ char ∈ front, char ∉ ['\n', '\r', '\\'])
    (rest : List Char) : logicalOf (front ++ rest) = front ++ logicalOf rest := by
  rw [logicalOf, unified_append fun member => free _ member (by decide), joinedFrom_append,
    logicalOf]
  intro char member
  have apart := free char member
  simp only [List.mem_cons, List.not_mem_nil, or_false, not_or] at apart ⊢
  exact ⟨apart.1, apart.2.2⟩

theorem Intact.indented {content : String} (intact : Intact content) (depth : Nat) :
    Intact (indented depth content) := by
  have blanks : ∀ char ∈ List.replicate (2 * depth) ' ', char ∉ ['\n', '\r', '\\'] := by
    intro char member
    rw [List.eq_of_mem_replicate member]
    decide
  rw [Intact, toList_indented, List.append_assoc, logicalOf_append blanks, intact]

end Pinout.Header
