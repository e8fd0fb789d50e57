import Pinout.Proofs.PinMap.Zone

/-! Stripping twice. What stands on the two sides of a comment never makes a new one, so no
comment opens in a stripped text. A line feed inside a block comment does not count as the start
of a line, so a `#` behind such a comment is kept and may come to stand first on its line. Where
block comments end on the lines on which they open, a stripped text stays as it is. -/

set_option autoImplicit false

namespace Pinout.PinMap

open Text (isBlank)

variable {zone : Zone} {fresh flag : Bool} {char : Char} {next : Option Char}
  {text rest before body : List Char}

/-! ## Code -/

theorem keeps_code_iff : (Zone.code fresh).keeps char next = true ↔
    ¬ (char = '/' ∧ (next = some '/' ∨ next = some '*')) ∧ ¬ (char = '#' ∧ fresh = true) := by
  simp [Zone.keeps, imp_iff_not_or]

/-- A character that is kept outside comments leads to no comment. -/
theorem after_of_keeps (kept : (Zone.code fresh).keeps char next = true) :
    (Zone.code fresh).after char next =
      .code (if char = '\n' then true else fresh && isBlank char) := by
  obtain ⟨uncommented, undirected⟩ := keeps_code_iff.mp kept
  have line : ¬ (char = '/' ∧ next = some '/') := fun opens => uncommented ⟨opens.1, .inl opens.2⟩
  have block : ¬ (char = '/' ∧ next = some '*') := fun opens => uncommented ⟨opens.1, .inr opens.2⟩
  rw [Zone.after, if_neg line, if_neg block, if_neg undirected]
  split <;> rfl

/-- What follows a slash that is kept is kept too: it opens no comment, and it cannot open a
preprocessor line because the slash is no blank. -/
theorem head?_stripFrom_of_slash (kept : (Zone.code fresh).keeps '/' rest.head? = true) :
    (stripFrom (.code false) rest).head? = rest.head? := by
  cases rest with
  | nil => rfl
  | cons char rest =>
      have plain : char ≠ '/' := by
        rintro rfl
        exact (keeps_code_iff.mp kept).1 ⟨rfl, .inl rfl⟩
      have stays : (Zone.code false).keeps char rest.head? = true :=
        keeps_code_iff.mpr ⟨fun opens => plain opens.1, by simp⟩
      rw [stripFrom, if_pos stays, List.head?_cons, List.head?_cons]

/-- Outside code only line feeds are kept. -/
theorem eq_feed_of_keeps (kept : zone.keeps char next = true) :
    (∃ fresh, zone = .code fresh) ∨ char = '\n' ∧ ∀ fresh, zone ≠ .opening fresh := by
  cases zone with
  | code fresh => exact .inl ⟨fresh, rfl⟩
  | line => exact .inr ⟨by simpa [Zone.keeps] using kept, by simp⟩
  | opening fresh => cases kept
  | block fresh star => exact .inr ⟨by simpa [Zone.keeps] using kept, by simp⟩

/-! ## Openers -/

/-- The character that is kept opens no comment with the one that is left behind it. -/
theorem not_opens_of_keeps (kept : zone.keeps char rest.head? = true) :
    ¬ (char = '/' ∧ ((stripFrom (zone.after char rest.head?) rest).head? = some '/' ∨
      (stripFrom (zone.after char rest.head?) rest).head? = some '*')) := by
  rintro ⟨rfl, opens⟩
  rcases eq_feed_of_keeps kept with ⟨fresh, rfl⟩ | ⟨feed, -⟩
  -- Behind the slash the line has begun, so the next character is left as well.
  · have solid : ((if ('/' : Char) = '\n' then true else fresh && isBlank '/') : Bool) = false := by
      rw [if_neg (by decide), (by decide : isBlank '/' = false), Bool.and_false]
    rw [after_of_keeps kept, solid, head?_stripFrom_of_slash kept] at opens
    exact (keeps_code_iff.mp kept).1 ⟨rfl, opens⟩
  · exact absurd feed (by decide)

/-- No comment opens in a stripped text. -/
theorem not_opener_infix_stripFrom {mark : Char} (opener : mark = '/' ∨ mark = '*') :
    ¬ ['/', mark] <:+: stripFrom zone text := by
  induction text generalizing zone with
  | nil => simp [stripFrom]
  | cons char rest ih =>
      rw [stripFrom]
      split
      · rename_i kept
        rw [List.infix_cons_iff, not_or]
        refine ⟨?_, ih⟩
        rintro ⟨behind, same⟩
        obtain ⟨rfl, left⟩ := List.cons.inj same
        refine not_opens_of_keeps kept ⟨rfl, ?_⟩
        rw [← left]
        exact opener.imp (congrArg some) (congrArg some)
      · exact ih

/-! ## Block comments on one line -/

/-- The zone of a block comment, behind the slash that opens it. -/
def Zone.inBlock : Zone → Bool
  | .opening _ | .block _ _ => true
  | .code _ | .line => false

/-- No line feed of the text stands in a block comment. -/
def isLevel : Zone → List Char → Bool
  | _, [] => true
  | zone, char :: rest =>
    !(char == '\n' && zone.inBlock) && isLevel (zone.after char rest.head?) rest

/-- The flags with which a stripped text is read again where it was left in the zone. -/
def Zone.Rereads : Zone → Bool → Prop
  | .code fresh, flag | .opening fresh, flag | .block fresh _, flag => flag = fresh
  | .line, _ => True

theorem Zone.Rereads.dropped (rereads : zone.Rereads flag)
    (dropped : zone.keeps char next ≠ true) : (zone.after char next).Rereads flag := by
  cases zone with
  | code fresh =>
      rw [Zone.after]
      split
      · trivial
      · rename_i line
        split
        · exact rereads
        · rename_i block
          split
          · trivial
          · rename_i directive
            refine absurd (keeps_code_iff.mpr ⟨?_, directive⟩) dropped
            rintro ⟨slash, opens⟩
            exact opens.elim (fun same => line ⟨slash, same⟩) fun same => block ⟨slash, same⟩
  | line =>
      have level : char ≠ '\n' := by simpa [Zone.keeps] using dropped
      rw [Zone.after, if_neg level]
      trivial
  | opening fresh => exact rereads
  | block fresh star =>
      rw [Zone.after]
      split <;> exact rereads

/-- A character that was kept is kept again, and leads to the same zone. -/
theorem Zone.Rereads.kept (rereads : zone.Rereads flag) (kept : zone.keeps char next = true)
    (level : (char == '\n' && zone.inBlock) = false) {other : Option Char}
    (plain : ¬ (char = '/' ∧ (other = some '/' ∨ other = some '*'))) :
    (Zone.code flag).keeps char other = true ∧
      ∃ flag', (Zone.code flag).after char other = .code flag' ∧
        (zone.after char next).Rereads flag' := by
  have again : (Zone.code flag).keeps char other = true := by
    refine keeps_code_iff.mpr ⟨plain, ?_⟩
    rcases eq_feed_of_keeps kept with ⟨fresh, rfl⟩ | ⟨rfl, -⟩
    · rw [show flag = fresh from rereads]
      exact (keeps_code_iff.mp kept).2
    · exact fun directive => absurd directive.1 (by decide)
  refine ⟨again, _, after_of_keeps again, ?_⟩
  cases zone with
  | code fresh =>
      rw [after_of_keeps kept, show flag = fresh from rereads]
      rfl
  | line =>
      have feed : char = '\n' := by simpa [Zone.keeps] using kept
      rw [Zone.after, if_pos feed, if_pos feed]
      rfl
  | opening fresh => cases kept
  | block fresh star =>
      have feed : char = '\n' := by simpa [Zone.keeps] using kept
      rw [feed] at level
      cases level

/-- What is left of a text with its block comments on one line each is left again. -/
theorem stripFrom_stripFrom (level : isLevel zone text = true) (rereads : zone.Rereads flag) :
    stripFrom (.code flag) (stripFrom zone text) = stripFrom zone text := by
  -- The flags of the two runs differ only where the first one drops a line to its end.
  induction text generalizing zone flag with
  | nil => rfl
  | cons char rest ih =>
      rw [isLevel, Bool.and_eq_true, Bool.not_eq_true'] at level
      rw [stripFrom]
      split
      · rename_i kept
        obtain ⟨again, flag', leads, others⟩ :=
          rereads.kept kept level.1 (not_opens_of_keeps kept)
        rw [stripFrom, if_pos again, leads, ih level.2 others]
      · rename_i dropped
        exact ih level.2 (rereads.dropped dropped)

/-! ## Where block comments end -/

/-- The text behind the beginning is outside comments and preprocessor lines. -/
def InCode (before : List Char) (next : Char) : Prop :=
  ∃ fresh, (Zone.code true).behind before (some next) = .code fresh

/-- Every block comment of the text is closed before the line ends on which it opens. -/
def OneLineBlocks (text : List Char) : Prop :=
  ∀ before body after, text = before ++ '/' :: '*' :: (body ++ '\n' :: after) →
    InCode before '/' → ['*', '/'] <:+: body

theorem closes_concat_iff : ['*', '/'] <:+: body ++ [char] ↔
    ['*', '/'] <:+: body ∨ body.getLast? = some '*' ∧ char = '/' := by
  rw [List.infix_concat_iff, or_comm]
  refine or_congr_right ?_
  constructor
  · rintro ⟨front, same⟩
    have split : (front ++ ['*']) ++ ['/'] = body ++ [char] := by simpa using same
    obtain ⟨rfl, last⟩ := List.append_inj' split rfl
    exact ⟨List.getLast?_concat, (List.cons.inj last).1.symm⟩
  · rintro ⟨star, rfl⟩
    obtain ⟨front, rfl⟩ := List.getLast?_eq_some_iff.mp star
    exact ⟨front, by simp⟩

/-- A block comment goes on as long as it is not closed. -/
theorem behind_block (unclosed : ¬ ['*', '/'] <:+: body) :
    (Zone.block fresh false).behind body next =
      .block fresh (body.getLast? == some '*') := by
  induction body using List.reverseRecOn generalizing next with
  | nil => rfl
  | append_singleton body char ih =>
      rw [closes_concat_iff, not_or] at unclosed
      have goesOn : ¬ ((body.getLast? == some '*') = true ∧ char = '/') := by
        simpa using unclosed.2
      rw [behind_concat, ih unclosed.1, Zone.after, if_neg goesOn, List.getLast?_concat]
      rfl

theorem behind_opener {front : List Char} (coded : InCode front '/') (next : Option Char) :
    ∃ fresh, (Zone.code true).behind (front ++ ['/', '*']) next = .block fresh false := by
  obtain ⟨fresh, here⟩ := coded
  refine ⟨fresh, ?_⟩
  rw [behind_append, List.head?_cons, Option.some_or, here]
  rfl

/-- An opening stands behind a slash in code and before a star. -/
theorem exists_slash (opening : (Zone.code true).behind before next = .opening fresh) :
    ∃ front, before = front ++ ['/'] ∧ InCode front '/' ∧ next = some '*' := by
  rcases List.eq_nil_or_concat before with rfl | ⟨front, char, rfl⟩
  · cases opening
  · rw [List.concat_eq_append, behind_concat, after_eq_opening_iff] at opening
    obtain ⟨coded, rfl, star⟩ := opening
    exact ⟨front, List.concat_eq_append, ⟨fresh, coded⟩, star⟩

theorem opens_or_goesOn {star : Bool} (inside : zone.after char next = .block fresh star) :
    zone = .opening fresh ∧ star = false ∨ ∃ earlier, zone = .block fresh earlier ∧
      ¬ (earlier = true ∧ char = '/') ∧ star = (char == '*') := by
  cases zone with
  | code flag =>
      rw [Zone.after] at inside
      split at inside
      · cases inside
      · split at inside
        · cases inside
        · split at inside
          · cases inside
          · split at inside <;> cases inside
  | line =>
      rw [Zone.after] at inside
      split at inside <;> cases inside
  | opening flag =>
      cases inside
      exact .inl ⟨rfl, rfl⟩
  | block flag earlier =>
      rw [Zone.after] at inside
      split at inside
      · cases inside
      · rename_i goesOn
        cases inside
        exact .inr ⟨earlier, rfl, goesOn, rfl⟩

/-- A block comment stands behind the slash and the star that open it and is not closed. -/
theorem exists_opener {star : Bool}
    (inside : (Zone.code true).behind before next = .block fresh star) :
    ∃ front body, before = front ++ '/' :: '*' :: body ∧ InCode front '/' ∧
      ¬ ['*', '/'] <:+: body ∧ star = (body.getLast? == some '*') := by
  induction before using List.reverseRecOn generalizing next star with
  | nil => cases inside
  | append_singleton before char ih =>
      rw [behind_concat] at inside
      rcases opens_or_goesOn inside with ⟨opening, rfl⟩ | ⟨earlier, within, goesOn, rfl⟩
      · obtain ⟨front, rfl, coded, star⟩ := exists_slash opening
        cases star
        exact ⟨front, [], List.append_assoc _ _ _, coded, by simp, rfl⟩
      · obtain ⟨front, body, rfl, coded, unclosed, rfl⟩ := ih within
        refine ⟨front, body ++ [char], by simp, coded, ?_, ?_⟩
        · rw [closes_concat_iff, not_or]
          exact ⟨unclosed, by simpa using goesOn⟩
        · rw [List.getLast?_concat]
          rfl

theorem isLevel_iff : isLevel zone text = true ↔ ∀ before after, text = before ++ '\n' :: after →
    (zone.behind before (some '\n')).inBlock = false := by
  induction text generalizing zone with
  | nil => simp [isLevel]
  | cons char rest ih =>
      rw [isLevel, Bool.and_eq_true, ih]
      constructor
      · rintro ⟨here, others⟩ before after whole
        rcases List.cons_eq_append_iff.mp whole with ⟨rfl, same⟩ | ⟨before, rfl, rfl⟩
        · cases same
          simpa [Zone.behind] using here
        · have later := others before after rfl
          rwa [List.head?_append, List.head?_cons] at later
      · intro all
        refine ⟨?_, ?_⟩
        · by_cases feed : char = '\n'
          · subst feed
            have here : zone.inBlock = false := all [] rest rfl
            simp [here]
          · simp [feed]
        · rintro before after rfl
          have later := all (char :: before) after rfl
          rwa [List.head?_append, List.head?_cons]

theorem oneLineBlocks_iff : OneLineBlocks text ↔ isLevel (.code true) text = true := by
  rw [isLevel_iff]
  constructor
  · intro closed before after whole
    cases zone : (Zone.code true).behind before (some '\n') with
    | code fresh => rfl
    | line => rfl
    | opening fresh =>
        obtain ⟨_, _, _, star⟩ := exists_slash zone
        cases star
    | block fresh star =>
        obtain ⟨front, body, rfl, coded, unclosed, -⟩ := exists_opener zone
        refine absurd (closed front body after ?_ coded) unclosed
        rw [whole, List.append_assoc, List.cons_append, List.cons_append]
  · rintro level before body after rfl coded
    by_contra unclosed
    obtain ⟨fresh, opened⟩ := behind_opener coded (body.head?.or (some '\n'))
    have inside := level (before ++ ['/', '*'] ++ body) after (by simp)
    rw [behind_append, opened, behind_block unclosed] at inside
    cases inside

instance (text : List Char) : Decidable (OneLineBlocks text) :=
  decidable_of_iff _ oneLineBlocks_iff.symm

/-! ## Stripped texts -/

/-- Whatever a text says, no comment opens in what stripping leaves of it; and where block
comments end on their lines, stripping once more changes nothing. -/
theorem settled_strip (text : List Char) :
    ¬ ['/', '/'] <:+: strip text ∧ ¬ ['/', '*'] <:+: strip text ∧
      (OneLineBlocks text → strip (strip text) = strip text) := by
  refine ⟨not_opener_infix_stripFrom (.inl rfl), not_opener_infix_stripFrom (.inr rfl), ?_⟩
  intro closed
  exact stripFrom_stripFrom (oneLineBlocks_iff.mp closed) rfl

/-- Slashes that a comment keeps apart, a `#` behind text, and a comment that is never closed. -/
def crowdedText : List Char :=
  "a//* b\n/*/ c */# d\n/ /**// /*\\*/ # e\n / /* f".toList

theorem settled_crowdedText :
    OneLineBlocks crowdedText ∧ ¬ ['/', '/'] <:+: strip crowdedText ∧
      ¬ ['/', '*'] <:+: strip crowdedText ∧ strip (strip crowdedText) = strip crowdedText := by
  have closed : OneLineBlocks crowdedText := by decide +kernel
  obtain ⟨line, block, again⟩ := settled_strip crowdedText
  exact ⟨closed, line, block, again closed⟩

/-- A comment over two lines can leave a `#` at the start of the second one. -/
example : strip (strip "a /*\n*/ # b".toList) ≠ strip "a /*\n*/ # b".toList := by
  decide +kernel

end Pinout.PinMap
