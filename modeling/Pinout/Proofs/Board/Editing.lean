import Pinout.Proofs.Board.Answer
import Pinout.Proofs.Board.Renumbering

/-! Edits that say nothing. A text with one more blank line or plain comment reads as before with
the numbers of the lines behind moved on by one; more space at the ends of lines, or other line
ends, are not noticed at all. -/

set_option autoImplicit false

namespace Pinout.Board

/-! ## Rows -/

/-- The pieces of a text between its line feeds. -/
def rows (text : String) : List (List Char) :=
  text.toList.splitOn '\n'

def ofRows (rows : List (List Char)) : String :=
  String.ofList (['\n'].intercalate rows)

/-- The text with a carriage return before each of its line feeds. -/
def withReturns (text : String) : String :=
  String.ofList (['\r', '\n'].intercalate (rows text))

section Rows

variable {text : String} {pieces : List (List Char)} {row : List Char}

theorem not_mem_of_mem_rows (member : row ∈ rows text) : '\n' ∉ row := by
  intro feed
  rw [rows, List.splitOn_eq_splitOnP] at member
  simpa using (Text.mem_of_mem_splitOnP member feed).2

theorem rows_ne_nil (text : String) : rows text ≠ [] :=
  List.splitOnP_ne_nil _ _

theorem ofRows_rows (text : String) : ofRows (rows text) = text := by
  rw [ofRows, rows, List.intercalate_splitOn, String.ofList_toList]

theorem rows_ofRows (feedless : ∀ row ∈ pieces, '\n' ∉ row) (filled : pieces ≠ []) :
    rows (ofRows pieces) = pieces := by
  rw [rows, ofRows, String.toList_ofList, List.splitOn_intercalate '\n' feedless filled]

/-- The last row is no line if it is empty, and the others lose a carriage return. -/
theorem exists_rows_eq (text : String) : ∃ front last, rows text = front ++ [last] ∧
    Text.lines text.toList =
      front.map Text.dropReturn ++ if last = [] then [] else [last] := by
  rcases List.eq_nil_or_concat (rows text) with none | ⟨front, last, split⟩
  · exact absurd none (rows_ne_nil text)
  · refine ⟨front, last, by simpa using split, ?_⟩
    rw [rows, List.concat_eq_append] at split
    unfold Text.lines
    rw [split]
    simp only [List.dropLast_concat, List.getLast?_concat]
    cases last <;> simp

end Rows

/-! ## Readings of a text -/

theorem readLine_dropReturn (line : List Char) :
    readLine (Text.dropReturn line) = readLine line := by
  unfold Text.dropReturn
  split
  · rename_i ended
    obtain ⟨front, rfl⟩ := List.getLast?_eq_some_iff.mp (beq_iff_eq.mp ended)
    rw [List.dropLast_concat]
    exact (readLine_concat_blank (by decide)).symm
  · rfl

/-- What the rows of a text are read as, with their numbers. -/
def readings (text : String) : List (Reading × Nat) :=
  ((rows text).map readLine).zipIdx 1

def Reading.stated (numbered : Reading × Nat) : Option Declaration :=
  numbered.1.statement.map (Declaration.mk numbered.2)

def Reading.raised (numbered : Reading × Nat) : List Diagnostic :=
  numbered.1.issues.map (Issue.diagnostic numbered.2)

section Readings

variable {text other : String} {policy : Policy}

/-- What is gathered from the lines of a text can be gathered from its rows. -/
theorem flatMap_numberedLines {β : Type} (gather : Reading × Nat → List β)
    (silent : ∀ number, gather (.silent, number) = []) (text : String) :
    ((numberedLines text).flatMap fun (number, line) => gather (readLine line, number)) =
      (readings text).flatMap gather := by
  obtain ⟨front, last, split, lines⟩ := exists_rows_eq text
  have dropped : (front.map Text.dropReturn).map readLine = front.map readLine := by
    rw [List.map_map]
    exact List.map_congr_left fun row _ => readLine_dropReturn row
  have gathered : ((numberedLines text).flatMap fun (number, line) =>
      gather (readLine line, number)) =
        (((Text.lines text.toList).map readLine).zipIdx 1).flatMap gather := by
    rw [numberedLines, List.zipIdx_map, List.flatMap_map, List.flatMap_map]
    rfl
  rw [gathered, readings, split, lines, List.map_append, List.map_append, dropped,
    List.zipIdx_append, List.zipIdx_append, List.flatMap_append, List.flatMap_append]
  congr 1
  -- A last row without text is no line, and it is read as nothing.
  cases last with
  | nil => exact (List.append_nil _).symm.trans (congrArg (· ++ []) (silent _).symm)
  | cons first rest => rfl

theorem declarations_eq (text : String) :
    declarations text = (readings text).flatMap fun numbered =>
      (Reading.stated numbered).toList := by
  rw [← flatMap_numberedLines _ (fun _ => rfl), declarations, List.filterMap_eq_flatMap_toList]
  rfl

theorem lineIssues_eq (text : String) :
    lineIssues text = (readings text).flatMap Reading.raised :=
  flatMap_numberedLines Reading.raised (fun _ => rfl) text

theorem parse_congr (same : (rows other).map readLine = (rows text).map readLine) :
    parse policy other = parse policy text := by
  have alike : readings other = readings text := by rw [readings, readings, same]
  rw [parse, parse, declarations_eq, declarations_eq, lineIssues_eq, lineIssues_eq, alike]

end Readings

/-! ## Insertion -/

/-- The number of a line when another one is put behind as many lines as given. -/
def movedBehind (place line : Nat) : Nat :=
  if line ≤ place then line else line + 1

section Insertion

variable {α β : Type} {policy : Policy} {text : String} {before after : List (List Char)}
  {line : List Char}

theorem zipIdx_insert (front back : List α) (item : α) :
    (front ++ item :: back).zipIdx 1 =
      (front.zipIdx 1).map (Prod.map id (movedBehind front.length)) ++
        (item, front.length + 1) ::
          (back.zipIdx (front.length + 1)).map (Prod.map id (movedBehind front.length)) := by
  have early : (front.zipIdx 1).map (Prod.map id (movedBehind front.length)) = front.zipIdx 1 := by
    conv_rhs => rw [← List.map_id (front.zipIdx 1)]
    apply List.map_congr_left
    rintro ⟨other, number⟩ member
    obtain ⟨_, bounded, _⟩ := List.mem_zipIdx member
    rw [Prod.map_apply, movedBehind, if_pos (by omega)]
    rfl
  have late : (back.zipIdx (front.length + 1)).map (Prod.map id (movedBehind front.length)) =
      back.zipIdx (front.length + 1 + 1) := by
    rw [List.zipIdx_succ (i := front.length + 1)]
    apply List.map_congr_left
    rintro ⟨other, number⟩ member
    obtain ⟨bounded, _⟩ := List.mem_zipIdx member
    rw [Prod.map_apply, movedBehind, if_neg (by omega)]
    rfl
  rw [early, late, List.zipIdx_append, List.zipIdx_cons, Nat.add_comm 1]

/-- A row without a word moves the numbers of what is gathered behind it. -/
theorem flatMap_readings_insert {gather : Reading × Nat → List β}
    (silent : ∀ number, gather (.silent, number) = []) (inert : readLine line = .silent)
    {other : String} (split : rows text = before ++ after)
    (inserted : rows other = before ++ line :: after) :
    (readings other).flatMap gather = (readings text).flatMap fun (reading, number) =>
      gather (reading, movedBehind before.length number) := by
  have long : (before.map readLine).length = before.length := List.length_map ..
  rw [readings, readings, split, inserted, List.map_append, List.map_append, List.map_cons, inert,
    zipIdx_insert, long, List.flatMap_append, List.flatMap_cons, silent, List.nil_append,
    List.zipIdx_append, List.flatMap_append, long, List.flatMap_map, List.flatMap_map,
    Nat.add_comm 1]
  rfl

/-- A silent line that is put into a text renumbers what the text says. -/
theorem renumbered_of_silent (inert : readLine line = .silent) {other : String}
    (split : rows text = before ++ after) (inserted : rows other = before ++ line :: after) :
    Parsed.Renumbered policy (movedBehind before.length) (parse policy text)
      (parse policy other) := by
  have declared : declarations other =
      (declarations text).map (Declaration.renumber (movedBehind before.length)) := by
    rw [declarations_eq, declarations_eq,
      flatMap_readings_insert (fun _ => rfl) inert split inserted, List.map_flatMap]
    congr 1
    funext ⟨reading, number⟩
    cases said : reading.statement <;> simp [Reading.stated, Declaration.renumber, said]
  have issued : List.Forall₂ (Diagnostic.Renumbered policy (movedBehind before.length))
      (lineIssues text) (lineIssues other) := by
    rw [lineIssues_eq, lineIssues_eq,
      flatMap_readings_insert (fun _ => rfl) inert split inserted]
    refine List.rel_flatMap (R := Eq) (by rw [List.forall₂_eq_eq_eq]) ?_
    rintro ⟨reading, number⟩ _ rfl
    simp only [Reading.raised, List.forall₂_map_left_iff, List.forall₂_map_right_iff,
      List.forall₂_same]
    exact fun issue _ => .issue number issue
  constructor
  case board =>
    rw [parse, parse]
    dsimp only
    rw [declared, assemble_renumber]
  case diagnostics =>
    rw [parse, parse]
    dsimp only
    rw [declared]
    exact List.rel_append issued (renumbered_repetitions _ (declarations text))

end Insertion

/-! ## Lines that say nothing -/

/-- A comment without the marks in front of it. -/
def commentBody (line : List Char) : List Char :=
  Text.trim ((lineText line).dropWhile (· == '#'))

/-- What follows the colon of a note names a timer, and a channel whose digits may be followed
by anything. -/
def GivesAdvice (detail : List Char) : Prop :=
  ∃ timer channel more number,
    Text.words detail = (['T', 'I', 'M'] ++ timer) :: (['C', 'H'] ++ channel) :: more ∧
      Text.byte? (channel.takeWhile Char.isDigit) = some number

/-- A note in good form: a pin, a colon and the advice on the pin. -/
def IsNote (body : List Char) : Prop :=
  ∃ token detail pin, body = ['p', 'i', 'n', ' '] ++ (token ++ ':' :: detail) ∧ ':' ∉ token ∧
    pinToken? (Text.trim token) = some pin ∧ GivesAdvice detail

/-- A line that is blank, or a comment that names no board, defines nothing and is no note. -/
inductive Inert (line : List Char) : Prop where
  | blank (empty : lineText line = [])
  | comment (marked : IsComment line) (headless : ¬ headMark <:+: line)
      (undefining : ¬ "#define".toList <:+: line) (unnoted : ¬ IsNote (commentBody line))

section Inertia

variable {line body detail : List Char}

theorem isSome_readAdvisory?_iff : (readAdvisory? detail).isSome = true ↔ GivesAdvice detail := by
  constructor
  · intro read
    obtain ⟨advisory, read⟩ := Option.isSome_iff_exists.mp read
    unfold readAdvisory? at read
    split at read
    · rename_i timer channel more said
      split at read
      · rename_i named
        obtain ⟨rest, opened, read⟩ := Option.bind_eq_some_iff.mp read
        obtain ⟨number, digits, _⟩ := Option.bind_eq_some_iff.mp read
        obtain ⟨tail, rfl⟩ := List.isPrefixOf_iff_prefix.mp named
        rw [Text.dropStart?_eq_some_iff.mp opened] at said
        exact ⟨tail, rest, more, number, said, digits⟩
      · cases read
    · cases read
  · rintro ⟨timer, channel, more, number, said, digits⟩
    have opened : Text.dropStart? ['C', 'H'] (['C', 'H'] ++ channel) = some channel :=
      Text.dropStart?_eq_some_iff.mpr rfl
    have named : ['T', 'I', 'M'].isPrefixOf (['T', 'I', 'M'] ++ timer) = true :=
      List.isPrefixOf_iff_prefix.mpr (List.prefix_append _ _)
    unfold readAdvisory?
    rw [said]
    simp only [named, if_true, opened, Option.bind_eq_bind, Option.bind_some, digits]
    rfl

theorem isSome_readNote?_iff : (readNote? body).isSome = true ↔ IsNote body := by
  constructor
  · intro read
    obtain ⟨note, read⟩ := Option.isSome_iff_exists.mp read
    unfold readNote? at read
    obtain ⟨rest, opened, read⟩ := Option.bind_eq_some_iff.mp read
    obtain ⟨⟨token, detail⟩, cut, read⟩ := Option.bind_eq_some_iff.mp read
    obtain ⟨pin, placed, read⟩ := Option.bind_eq_some_iff.mp read
    obtain ⟨advisory, advised, _⟩ := Option.bind_eq_some_iff.mp read
    obtain ⟨split, free⟩ := Text.cut?_eq_some_iff.mp cut
    have advice : GivesAdvice detail := isSome_readAdvisory?_iff.mp (by rw [advised]; rfl)
    refine ⟨token, detail, pin, ?_, free, placed, advice⟩
    rw [Text.dropStart?_eq_some_iff.mp opened, split]
  · rintro ⟨token, detail, pin, rfl, free, placed, advice⟩
    obtain ⟨advisory, advised⟩ := Option.isSome_iff_exists.mp (isSome_readAdvisory?_iff.mpr advice)
    have opened : Text.dropStart? ['p', 'i', 'n', ' ']
        (['p', 'i', 'n', ' '] ++ (token ++ ':' :: detail)) = some (token ++ ':' :: detail) :=
      Text.dropStart?_eq_some_iff.mpr rfl
    have cut : Text.cut? [':'] (token ++ ':' :: detail) = some (token, detail) :=
      Text.cut?_append free
    unfold readNote?
    simp only [opened, cut, placed, advised, Option.bind_eq_bind, Option.bind_some]
    rfl

instance (body : List Char) : Decidable (IsNote body) :=
  decidable_of_iff _ isSome_readNote?_iff

theorem isInfix_commentBody (line : List Char) : commentBody line <:+: line :=
  ((Text.isInfix_trim _).trans (List.dropWhile_suffix _).isInfix).trans (isInfix_lineText line)

theorem readLine_of_inert (inert : Inert line) : readLine line = .silent := by
  cases inert with
  | blank empty => exact readLine_of_empty empty
  | comment marked headless undefining unnoted =>
      obtain ⟨rest, text⟩ := List.head?_eq_some_iff.mp marked
      have plain : afterDefine? (lineText line) = none := by
        rw [Option.eq_none_iff_forall_ne_some]
        intro tail found
        have define : "#define".toList <+: lineText line :=
          ⟨tail, (append_of_afterDefine? found).symm⟩
        exact undefining (define.isInfix.trans (isInfix_lineText line))
      have unheaded : Text.cut? headMark (commentBody line) = none :=
        Text.cut?_eq_none_iff.mpr fun inside => headless (inside.trans (isInfix_commentBody line))
      have unread : readNote? (commentBody line) = none := by
        rwa [← isSome_readNote?_iff, Bool.not_eq_true, Option.isSome_eq_false_iff,
          Option.isNone_iff_eq_none] at unnoted
      unfold commentBody at unheaded unread
      rw [text] at plain unheaded unread
      rw [readLine_of_comment text plain, readComment, unheaded, unread]
      rfl

example : Inert "  # pin A08 drives the lamp".toList :=
  .comment (by decide) (by decide) (by decide) (by decide)

end Inertia

/-! ## Space at the ends of lines -/

/-- What may stand between a line and its line feed. -/
def lineEnds : List (List Char) :=
  [[], ['\r']]

/-- The second row has spaces or tabs besides, at its end or in front of the text behind its
byte-order marks, and may have another line end. -/
inductive Respaced : List Char → List Char → Prop where
  | respaced (marks front body back first second : List Char)
      (marked : ∀ char ∈ marks, char = '\uFEFF') (unmarked : body.head? ≠ some '\uFEFF')
      (before : ∀ char ∈ front, char = ' ' ∨ char = '\t')
      (behind : ∀ char ∈ back, char = ' ' ∨ char = '\t')
      (ended : first ∈ lineEnds) (again : second ∈ lineEnds) :
      Respaced (marks ++ body ++ first) (marks ++ front ++ body ++ back ++ second)

section Space

variable {row other : List Char} {pieces others : List (List Char)} {text : String}

theorem isBlank_of_mem_lineEnds {ending : List Char} {char : Char} (ended : ending ∈ lineEnds)
    (member : char ∈ ending) : Text.isBlank char = true := by
  rcases List.mem_pair.mp ended with rfl | rfl
  · cases member
  · rw [List.mem_singleton.mp member]
    decide

theorem readLine_respaced (respaced : Respaced row other) : readLine other = readLine row := by
  obtain ⟨marks, front, body, back, first, second, marked, unmarked, before, behind, ended,
    again⟩ := respaced
  have blank {char : Char} (space : char = ' ' ∨ char = '\t') : Text.isBlank char = true := by
    rcases space with rfl | rfl <;> decide
  have long : lineText (marks ++ front ++ body ++ (back ++ second)) = Text.trim body := by
    refine lineText_of_blanks marked unmarked (fun char member => blank (before char member)) ?_
    intro char member
    rcases List.mem_append.mp member with space | ending
    · exact blank (behind char space)
    · exact isBlank_of_mem_lineEnds again ending
  have short : lineText (marks ++ [] ++ body ++ first) = Text.trim body :=
    lineText_of_blanks marked unmarked (by simp) fun _ => isBlank_of_mem_lineEnds ended
  rw [List.append_nil] at short
  rw [← List.append_assoc] at long
  exact readLine_congr (long.trans short.symm)

theorem map_readLine_respaced (respaced : List.Forall₂ Respaced pieces others) :
    others.map readLine = pieces.map readLine := by
  induction respaced with
  | nil => rfl
  | cons first rest ih => rw [List.map_cons, List.map_cons, readLine_respaced first, ih]

theorem Respaced.returned (row : List Char) : Respaced row (row ++ ['\r']) := by
  obtain ⟨marks, body, rfl, marked, unmarked⟩ := exists_marks row
  have respaced := Respaced.respaced marks [] body [] [] ['\r'] marked unmarked (by simp)
    (by simp) (by decide) (by decide)
  simpa using respaced

theorem Respaced.refl (row : List Char) : Respaced row row := by
  obtain ⟨marks, body, rfl, marked, unmarked⟩ := exists_marks row
  have respaced := Respaced.respaced marks [] body [] [] [] marked unmarked (by simp)
    (by simp) (by decide) (by decide)
  simpa using respaced

theorem exists_returned (filled : pieces ≠ []) (feedless : ∀ row ∈ pieces, '\n' ∉ row) :
    ∃ others, ['\r', '\n'].intercalate pieces = ['\n'].intercalate others ∧ others ≠ [] ∧
      (∀ row ∈ others, '\n' ∉ row) ∧ List.Forall₂ Respaced pieces others := by
  induction pieces with
  | nil => exact absurd rfl filled
  | cons row rest ih =>
      rcases eq_or_ne rest [] with rfl | more
      · exact ⟨[row], rfl, by simp, feedless, .cons (.refl row) .nil⟩
      · obtain ⟨others, same, some, single, respaced⟩ :=
          ih more fun other member => feedless other (List.mem_cons_of_mem row member)
        -- Only rows with another one behind them end in a line feed.
        refine ⟨(row ++ ['\r']) :: others, ?_, by simp, ?_, .cons (.returned row) respaced⟩
        · rw [List.intercalate_cons_of_ne_nil more, List.intercalate_cons_of_ne_nil some, same]
          simp
        · intro other member
          rcases List.mem_cons.mp member with rfl | later
          · simpa using feedless row List.mem_cons_self
          · exact single other later

theorem respaced_withReturns (text : String) :
    List.Forall₂ Respaced (rows text) (rows (withReturns text)) := by
  obtain ⟨others, same, filled, feedless, respaced⟩ :=
    exists_returned (rows_ne_nil text) fun _ => not_mem_of_mem_rows
  have split : rows (withReturns text) = others := by
    rw [withReturns, same, ← ofRows, rows_ofRows feedless filled]
  rwa [split]

end Space

/-! ## Texts -/

/-- No edit that says nothing changes what the text says. -/
structure Steady (policy : Policy) (text : String) : Prop where
  inserted : ∀ before after line, rows text = before ++ after → '\n' ∉ line → Inert line →
    Parsed.Renumbered policy (movedBehind before.length) (parse policy text)
      (parse policy (ofRows (before ++ line :: after)))
  respaced : ∀ other, List.Forall₂ Respaced (rows text) (rows other) →
    parse policy other = parse policy text
  returned : parse policy (withReturns text) = parse policy text

/-- Plain comments and space can be edited anywhere without a change to what a text says. -/
theorem steady_parse (policy : Policy) (text : String) : Steady policy text := by
  constructor
  case inserted =>
    intro before after line split feedless inert
    refine renumbered_of_silent (readLine_of_inert inert) split (rows_ofRows ?_ (by simp))
    intro row member
    rcases List.mem_append.mp member with early | late
    · exact not_mem_of_mem_rows (split ▸ List.mem_append_left after early)
    · rcases List.mem_cons.mp late with rfl | behind
      · exact feedless
      · exact not_mem_of_mem_rows (split ▸ List.mem_append_right before behind)
  case respaced => exact fun other respaced => parse_congr (map_readLine_respaced respaced)
  case returned => exact parse_congr (map_readLine_respaced (respaced_withReturns text))

/-- A space between two byte-order marks makes the second one part of the text. -/
theorem exists_noticed_space :
    ∃ rest, parse .lastWins (String.ofList ('\uFEFF' :: ' ' :: rest)) ≠
      parse .lastWins (String.ofList ('\uFEFF' :: rest)) :=
  ⟨'\uFEFF' :: "resource LED 1 C13".toList, by decide +kernel⟩

end Pinout.Board
