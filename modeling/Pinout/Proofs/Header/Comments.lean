import Pinout.Proofs.Header.Stripping

/-! The comments of a header, as a reader of its code sees them. The one at its head goes on to
the first end of a block comment, so that the name of the source may hold all but that. Others end
with their lines, but one that ends in a backslash goes on to the next line and takes it away. -/

set_option autoImplicit false

namespace Pinout.Header

open PinMap (Zone strip stripFrom)

/-! ## Lines of comments -/

/-- Where the next line starts: in a comment, if that goes on behind its line. -/
def lineZone (joined : Bool) : Zone :=
  if joined then .line else .code true

/-- Is the next line joined to these? -/
def joinsNext (joined : Bool) (lines : List String) : Bool :=
  lines.foldl (fun _ line => decide (¬ Intact line)) joined

section Comments

variable {line : String} {front : List Char}

theorem stripFrom_ended (single : Single line) (comment : line = "" ∨ Comment line)
    (joined : Bool) (rest : List Char) :
    stripFrom (lineZone joined) (line.toList ++ '\n' :: rest) =
      '\n' :: stripFrom (.code true) rest := by
  have level := Text.without_singleton_iff.mp single
  cases joined with
  | true => exact PinMap.stripFrom_line _ level
  | false =>
      rcases comment with rfl | comment
      · exact PinMap.stripFrom_feed
      · obtain ⟨words, shown, level⟩ := exists_words comment single
        rw [shown]
        exact PinMap.stripFrom_comment level

theorem stripFrom_joined (single : Single line) (comment : line = "" ∨ Comment line)
    (joins : Joins line.toList front) (joined : Bool) (rest : List Char) :
    stripFrom (lineZone joined) (front ++ rest) = stripFrom .line rest := by
  obtain ⟨blanks, whole, _⟩ := joins
  have level : '\n' ∉ front := fun feed =>
    Text.without_singleton_iff.mp single (whole ▸ List.mem_append_left _ feed)
  cases joined with
  | true => exact PinMap.stripFrom_line_append level rest
  | false =>
      rcases comment with rfl | ⟨words, shown⟩
      · simp at whole
      · rw [← shown] at whole
        change '/' :: '/' :: words = _ at whole
        -- The backslash is no slash, so that the comment opens in front of it.
        rcases front with _ | ⟨first, _ | ⟨second, more⟩⟩
        · cases whole
        · cases whole
        · cases whole
          rw [List.mem_cons, not_or] at level
          exact PinMap.stripFrom_line_append level.2 rest

/-- Of comments only line feeds are left, and of the line that the last one goes on to. -/
theorem exists_stripFrom_comments {lines : List String} (level : ∀ line ∈ lines, Level line)
    (comments : ∀ line ∈ lines, line = "" ∨ Comment line) (joined : Bool) :
    ∃ count, ∀ rest, stripFrom (lineZone joined) (logicalOf (textOf lines) ++ rest) =
      List.replicate count '\n' ++ stripFrom (lineZone (joinsNext joined lines)) rest := by
  induction lines generalizing joined with
  | nil => exact ⟨0, fun _ => rfl⟩
  | cons line lines ih =>
      obtain ⟨here, levels⟩ := List.forall_mem_cons.mp level
      obtain ⟨comment, others⟩ := List.forall_mem_cons.mp comments
      have single : Single line := here.of_fewer (by decide)
      obtain ⟨count, left⟩ := ih levels others (decide (¬ Intact line))
      by_cases intact : Intact line
      · refine ⟨count + 1, fun rest => ?_⟩
        rw [decide_eq_false (not_not.mpr intact)] at left
        rw [logicalOf_textOf_cons, intact, List.append_assoc, List.append_assoc,
          List.singleton_append, stripFrom_ended single comment, joinsNext, List.foldl_cons,
          decide_eq_false (not_not.mpr intact), List.replicate_succ, List.cons_append]
        exact congrArg _ (left rest)
      · obtain ⟨front, joins, read⟩ := (logicalOf_line_cases here).resolve_left intact
        refine ⟨count, fun rest => ?_⟩
        rw [decide_eq_true intact] at left
        rw [logicalOf_textOf_cons, read, List.append_assoc, stripFrom_joined single comment joins,
          joinsNext, List.foldl_cons, decide_eq_true intact]
        exact left rest

end Comments

/-! ## A comment at the head -/

/-- The text does not end a block comment. -/
def Unended (text : List Char) : Prop :=
  ¬ ['*', '/'] <:+: text

instance (text : List Char) : Decidable (Unended text) :=
  inferInstanceAs (Decidable (¬ _))

section Unended

variable {front back : List Char}

theorem Unended.of_not_mem (absent : '/' ∉ front) : Unended front :=
  fun inside => absent (inside.subset (by decide))

theorem Unended.append (first : Unended front) (second : Unended back)
    (apart : front.getLast? = some '*' → back.head? ≠ some '/') : Unended (front ++ back) := by
  intro inside
  obtain within | behind | ⟨left, right, shown, ended, starts⟩ := List.infix_append_iff.mp inside
  · exact first within
  · exact second behind
  · rcases List.cons_eq_append_iff.mp shown with ⟨rfl, rfl⟩ | ⟨left, rfl, slash⟩
    · exact second starts.isInfix
    rcases List.cons_eq_append_iff.mp slash with ⟨rfl, rfl⟩ | ⟨left, rfl, nothing⟩
    · obtain ⟨before, rfl⟩ := ended
      obtain ⟨after, rfl⟩ := starts
      exact apart List.getLast?_concat rfl
    · obtain ⟨rfl, rfl⟩ := List.append_eq_nil_iff.mp nothing.symm
      exact first ended.isInfix

/-- Without a slash nothing ends, whatever stands before it. -/
theorem Unended.append_free (first : Unended front) (absent : '/' ∉ back) :
    Unended (front ++ back) :=
  first.append (.of_not_mem absent) fun _ slash => absent (List.mem_of_head? slash)

theorem Unended.of_initial (unended : Unended back) (starts : front <+: back) : Unended front :=
  fun inside => unended (inside.trans starts.isInfix)

/-- A line feed at the end makes no end of a comment. -/
theorem Unended.feed {text : List Char} (unended : Unended (logicalOf text)) :
    Unended (logicalOf (text ++ ['\n'])) :=
  (unended.append_free (by decide)).of_initial (logicalOf_concat_initial text)

end Unended

/-- In a block comment a text that does not end it leaves its line feeds only. -/
theorem exists_stripFrom_block {words : List Char} (star : Bool) (unended : Unended words)
    (opens : star = true → words.head? ≠ some '/') :
    ∃ count ends, ∀ rest, stripFrom (.block true star) (words ++ rest) =
      List.replicate count '\n' ++ stripFrom (.block true ends) rest := by
  induction words generalizing star with
  | nil => exact ⟨0, star, fun _ => rfl⟩
  | cons char words ih =>
      have stays : ¬ (star = true ∧ char = '/') := fun both => opens both.1 (congrArg some both.2)
      obtain ⟨count, ends, left⟩ := ih (char == '*') (fun inside => unended (inside.trans
        (List.suffix_cons char words).isInfix)) fun starred slash => by
          obtain ⟨tail, rfl⟩ := List.head?_eq_some_iff.mp slash
          rw [beq_iff_eq.mp starred] at unended
          exact unended ⟨[], tail, rfl⟩
      by_cases feed : char = '\n'
      · subst feed
        refine ⟨count + 1, ends, fun rest => ?_⟩
        simpa [stripFrom, Zone.keeps, Zone.after, List.replicate_succ] using left rest
      · refine ⟨count, ends, fun rest => ?_⟩
        simpa [stripFrom, Zone.keeps, Zone.after, stays, feed] using left rest

/-- The line ends a block comment and says nothing behind it. -/
def Ends (line : String) : Prop :=
  ∀ star rest, stripFrom (.block true star) (line.toList ++ '\n' :: rest) =
    '\n' :: stripFrom (.code true) rest

theorem textOf_blanks (count : Nat) :
    textOf (List.replicate count "") = List.replicate count '\n' := by
  induction count with
  | zero => rfl
  | succ count ih =>
      rw [List.replicate_succ, textOf_cons, ih]
      rfl

/-- Of a comment only empty lines are left. -/
theorem exists_leaves_comment {texts : List String} {last : String}
    (unended : Unended (logicalOf (textOf texts))) (intact : Intact last) (ends : Ends last) :
    ∃ count, Leaves ("/*" :: (texts ++ [last])) (List.replicate count "") := by
  have opening (rest : List Char) : stripFrom (.code true) ("/*".toList ++ '\n' :: rest) =
      '\n' :: stripFrom (.block true false) rest := rfl
  have opens : Intact "/*" := by decide
  obtain ⟨count, star, left⟩ :=
    exists_stripFrom_block false unended (fun starred => nomatch starred)
  refine ⟨count + 2, fun rest => ?_⟩
  rw [logicalOf_textOf_cons, opens, textOf_append, logicalOf_textOf_append, logicalOf_textOf_cons,
    intact, logicalOf_textOf_nil, textOf_blanks, List.replicate_succ, List.replicate_succ']
  have whole := opening (logicalOf (textOf texts) ++ (last.toList ++ '\n' :: rest))
  rw [left, ends] at whole
  simpa using whole

theorem single_blank {line : String} {count : Nat} (member : line ∈ List.replicate count "") :
    Single line := by
  rw [List.eq_of_mem_replicate member]
  decide

theorem scoping_blanks (scope : List String) (count : Nat) (rest : List String) :
    scoping scope (List.replicate count "" ++ rest) = scoping scope rest := by
  have kept : (List.replicate count "" ++ rest).filter (· ≠ "") = rest.filter (· ≠ "") := by
    simp
  rw [← scoping_filter, kept, scoping_filter]

/-! ## Reading lines -/

section Reading

variable {text opening : String} {head front description block kept : List String}

/-- Stripping leaves what it does of the head, then line feeds for the comments, and the code of
the lines between them, the first of which may be a part of the comment before it. -/
theorem exists_codeOf_logical
    (spelled : text.toList = textOf (head ++ (description ++ opening :: (block ++ kept))))
    (leaves : Leaves head front) (level : ∀ line ∈ description ++ kept, Level line)
    (comments : ∀ line ∈ description ++ kept, line = "" ∨ Comment line)
    (separate : ∀ line ∈ opening :: block, Separate line) :
    ∃ before after, (codeOf (logical text)).toList = textOf (front ++
      (List.replicate before "" ++ (if joinsNext false description then "" else codeOf opening) ::
        (block.map codeOf ++ List.replicate after ""))) := by
  obtain ⟨above, below⟩ := List.forall_mem_append.mp level
  obtain ⟨first, last⟩ := List.forall_mem_append.mp comments
  obtain ⟨whole, others⟩ := List.forall_mem_cons.mp separate
  obtain ⟨before, opens⟩ := exists_stripFrom_comments above first false
  obtain ⟨after, closes⟩ := exists_stripFrom_comments below last false
  have tail : stripFrom (.code true) (logicalOf (textOf (block ++ kept))) =
      textOf (block.map codeOf ++ List.replicate after "") := by
    rw [textOf_append, logicalOf_textOf_append, leaves_lines others, textOf_append, textOf_blanks]
    refine congrArg _ ?_
    have ended := closes []
    rwa [List.append_nil, stripFrom, List.append_nil] at ended
  have inner : stripFrom (lineZone (joinsNext false description))
        (logicalOf (textOf (opening :: (block ++ kept)))) =
      textOf ((if joinsNext false description then "" else codeOf opening) ::
        (block.map codeOf ++ List.replicate after "")) := by
    rw [logicalOf_textOf_cons, whole.intact, List.append_assoc, List.singleton_append, textOf_cons,
      ← tail]
    cases joinsNext false description with
    | true => exact PinMap.stripFrom_line _ (Text.without_singleton_iff.mp whole.single)
    | false => exact whole.strips.before _
  refine ⟨before, after, ?_⟩
  rw [toList_codeOf, logical, String.toList_ofList, spelled, textOf_append,
    logicalOf_textOf_append, strip, leaves, textOf_append description, logicalOf_textOf_append,
    textOf_append front]
  refine congrArg _ ?_
  rw [textOf_append, textOf_blanks, ← inner]
  exact opens _

theorem codeDeclarations_of_lines
    (spelled : text.toList = textOf (head ++ (description ++ opening :: (block ++ kept))))
    (leaves : Leaves head front) (singles : ∀ line ∈ front, Single line)
    (level : ∀ line ∈ description ++ kept, Level line)
    (comments : ∀ line ∈ description ++ kept, line = "" ∨ Comment line)
    (separate : ∀ line ∈ opening :: block, Separate line) :
    codeDeclarations text = scoping [] ((front ++
      ((if joinsNext false description then [] else [codeOf opening]) ++ block.map codeOf)).map
        fun line => bareLine line.toList) := by
  obtain ⟨before, after, read⟩ := exists_codeOf_logical spelled leaves level comments separate
  obtain ⟨whole, others⟩ := List.forall_mem_cons.mp separate
  have opened : Single (if joinsNext false description then "" else codeOf opening) := by
    split
    · decide
    · exact whole.single_code
  have apart : ∀ line ∈ front ++ (List.replicate before "" ++
      (if joinsNext false description then "" else codeOf opening) ::
        (block.map codeOf ++ List.replicate after "")), '\n' ∉ line.toList := by
    simp only [← Text.without_singleton_iff, List.forall_mem_append, List.forall_mem_cons,
      List.forall_mem_map]
    exact ⟨singles, fun _ member => single_blank member, opened,
      fun line member => (others line member).single_code, fun _ member => single_blank member⟩
  have blank : bareLine [] = "" := by decide
  -- The lines that are left of comments are empty.
  rw [codeDeclarations, declarations, bareLines, read, textLines_textOf apart, ← scoping_filter,
    ← scoping_filter [] (List.map _ _)]
  refine congrArg _ ?_
  cases joinsNext false description with
  | true => simp [blank, Function.comp_def]
  | false => simp [blank, Function.comp_def, List.filter_cons]

end Reading

end Pinout.Header
