import Pinout.Board.Statement
import Pinout.Proofs.Text.Composition

/-! The text of a line and who reads it. Byte-order marks in front and blanks around the text
never reach a reader; the first character of what remains decides which one it is. -/

set_option autoImplicit false

namespace Pinout.Board

variable {marks body front back rest line : List Char}

/-! ## The text of a line -/

theorem isInfix_lineText (line : List Char) : lineText line <:+: line :=
  (Text.isInfix_trim _).trans (List.dropWhile_suffix _).isInfix

theorem lineText_of_marked (marked : ∀ char ∈ marks, char = '\uFEFF')
    (unmarked : body.head? ≠ some '\uFEFF') : lineText (marks ++ body) = Text.trim body := by
  rw [lineText, List.dropWhile_append_of_pos (by simpa using marked), Text.dropWhile_eq_self]
  intro char found
  rw [beq_eq_false_iff_ne]
  rintro rfl
  exact unmarked found

theorem lineText_of_trimmed (trimmed : Text.Trimmed line) (bare : line.head? ≠ some '\uFEFF') :
    lineText line = line :=
  (lineText_of_marked (List.forall_mem_nil _) bare).trans (Text.trim_eq_self trimmed)

/-- Blanks behind the marks and at the end do not matter to the text of a line. -/
theorem lineText_of_blanks (marked : ∀ char ∈ marks, char = '\uFEFF')
    (unmarked : body.head? ≠ some '\uFEFF') (before : ∀ char ∈ front, Text.isBlank char = true)
    (behind : ∀ char ∈ back, Text.isBlank char = true) :
    lineText (marks ++ front ++ body ++ back) = Text.trim body := by
  have solid : Text.isBlank '\uFEFF' = false := by decide
  have opens : (front ++ (body ++ back)).head? ≠ some '\uFEFF' := by
    rw [List.head?_append, List.head?_append]
    intro found
    rcases Option.or_eq_some_iff.mp found with first | ⟨_, later⟩
    · rw [before _ (List.mem_of_head? first)] at solid
      cases solid
    · rcases Option.or_eq_some_iff.mp later with first | ⟨_, last⟩
      · exact unmarked first
      · rw [behind _ (List.mem_of_head? last)] at solid
        cases solid
  rw [List.append_assoc, List.append_assoc, lineText_of_marked marked opens,
    Text.trim_blanks_append before, Text.trim_append_blanks behind]

/-- A line is byte-order marks, and then something else. -/
theorem exists_marks (line : List Char) : ∃ marks body, line = marks ++ body ∧
    (∀ char ∈ marks, char = '\uFEFF') ∧ body.head? ≠ some '\uFEFF' := by
  refine ⟨line.takeWhile (· == '\uFEFF'), line.dropWhile (· == '\uFEFF'),
    List.takeWhile_append_dropWhile.symm, ?_, ?_⟩
  · intro char member
    simpa using List.all_eq_true.mp List.all_takeWhile char member
  · intro opens
    simpa using Text.not_of_head?_dropWhile opens

theorem lineText_append_blanks (behind : ∀ char ∈ back, Text.isBlank char = true) :
    lineText (line ++ back) = lineText line := by
  obtain ⟨marks, body, rfl, marked, unmarked⟩ := exists_marks line
  have same : lineText (marks ++ [] ++ body ++ back) = Text.trim body :=
    lineText_of_blanks marked unmarked (List.forall_mem_nil _) behind
  rw [List.append_nil] at same
  rw [same, lineText_of_marked marked unmarked]

/-! ## Readers -/

theorem readLine_congr {other : List Char} (same : lineText other = lineText line) :
    readLine other = readLine line := by
  rw [readLine, readLine, same]

/-- A blank at the end of a line makes no difference. -/
theorem readLine_concat_blank {blank : Char} (white : Text.isBlank blank = true) :
    readLine (line ++ [blank]) = readLine line :=
  readLine_congr (lineText_append_blanks (List.forall_mem_singleton.mpr white))

theorem readLine_of_empty (empty : lineText line = []) : readLine line = .silent := by
  rw [readLine, empty]

theorem readLine_of_define (text : lineText line = '#' :: rest)
    (define : afterDefine? ('#' :: rest) = some back) :
    readLine line = readDefine ('#' :: rest) back := by
  rw [readLine, text]
  simp only [define]

theorem readLine_of_comment (text : lineText line = '#' :: rest)
    (plain : afterDefine? ('#' :: rest) = none) : readLine line = readComment ('#' :: rest) := by
  rw [readLine, text]
  simp only [plain]

theorem readLine_of_spoken (filled : lineText line ≠ [])
    (uncommented : (lineText line).head? ≠ some '#') :
    readLine line = readStatement (lineText line) := by
  unfold readLine
  split
  · rename_i empty
    exact absurd empty filled
  · rename_i rest text
    rw [text] at uncommented
    exact absurd rfl uncommented
  · rfl

theorem append_of_afterDefine? {text : List Char} (found : afterDefine? text = some rest) :
    text = "#define".toList ++ rest := by
  unfold afterDefine? at found
  split at found
  · rename_i started
    cases found
    exact Text.dropStart?_eq_some_iff.mp started
  · rename_i started
    split at found <;> cases found
    exact Text.dropStart?_eq_some_iff.mp started
  · cases found

end Pinout.Board
