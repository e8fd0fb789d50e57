import Pinout.Proofs.Board.Answer
import Pinout.Proofs.Pin.Spelling

/-! The grammar of lines about pins. A line gives a pin to a resource, takes it away, or names the
timer function of a pin. Which lines do is a matter of their words alone, and the reader takes
exactly these lines for such statements, with the values that they spell. -/

set_option autoImplicit false

namespace Pinout.Board

/-- The words that make a statement about pins. Words behind them change nothing. -/
inductive Phrase : List (List Char) → Statement → Prop where
  | assign {keyword type index place : List Char} {tail : List (List Char)} {number : UInt8}
      {pin : Pin} : keyword.map Char.toLower = "resource".toList → isIdentifier type = true →
      Text.Numeral index number.toNat → 1 ≤ number.toNat → Pin.BoardToken place pin →
      Phrase (keyword :: type :: index :: place :: tail)
        (.assign ⟨Resource.ofKeyword (String.ofList type), number⟩ pin)
  | clear {keyword type index place : List Char} {tail : List (List Char)} {number : UInt8} :
      keyword.map Char.toLower = "resource".toList → isIdentifier type = true →
      Text.Numeral index number.toNat → 1 ≤ number.toNat →
      place.map Char.toUpper = "NONE".toList →
      Phrase (keyword :: type :: index :: place :: tail)
        (.clear ⟨Resource.ofKeyword (String.ofList type), number⟩)
  | timer {keyword place mark digits : List Char} {tail : List (List Char)} {function : UInt8}
      {pin : Pin} : keyword.map Char.toLower = "timer".toList → Pin.BoardToken place pin →
      mark.map Char.toUpper = "AF".toList → Text.Numeral digits function.toNat →
      function.toNat ≤ 15 →
      Phrase (keyword :: place :: (mark ++ digits) :: tail) (.timer pin function)

/-- The statements that phrases make. -/
def Statement.isPhrase : Statement → Bool
  | .assign _ _ | .clear _ | .timer _ _ => true
  | _ => false

/-- A line without the byte-order marks in front of it. -/
def unmarked (line : List Char) : List Char :=
  line.dropWhile (· == '\uFEFF')

variable {line text type index place word : List Char} {words : List (List Char)}
  {statement : Statement}

theorem Phrase.isPhrase (phrase : Phrase words statement) : statement.isPhrase = true := by
  cases phrase <;> rfl

/-! ## Resources -/

theorem pinToken?_eq_some_iff {pin : Pin} :
    pinToken? place = some pin ↔ Pin.BoardToken place pin := by
  rw [pinToken?, ← Pin.readBoardToken_eq_ok_iff]
  cases Pin.readBoardToken place <;> simp [Except.toOption]

/-- A token has three characters, so it is not the word that takes a pin away. -/
theorem toUpper_ne_none {pin : Pin} (token : Pin.BoardToken place pin) :
    place.map Char.toUpper ≠ "NONE".toList := by
  intro same
  have length := congrArg List.length same
  cases token
  simp at length

theorem statement_readPlace_iff {id : ResourceId} :
    (readPlace id place).statement = some statement ↔
      (place.map Char.toUpper = "NONE".toList ∧ statement = .clear id) ∨
        ∃ pin, Pin.BoardToken place pin ∧ statement = .assign id pin := by
  by_cases none : place.map Char.toUpper = "NONE".toList
  · have absent (pin : Pin) : ¬ Pin.BoardToken place pin := fun token => toUpper_ne_none token none
    have read : readPlace id place = .clean (.clear id) := if_pos none
    simp [read, Reading.clean, none, absent, eq_comm]
  · have read : readPlace id place = _ := if_neg none
    rw [read]
    simp only [none, false_and, false_or, ← pinToken?_eq_some_iff]
    cases pinToken? place <;> simp [Reading.clean, Reading.refused, eq_comm]

theorem statement_readTriple_iff : (readTriple type index place).statement = some statement ↔
    isIdentifier type = true ∧ ∃ number : UInt8, Text.Numeral index number.toNat ∧
      1 ≤ number.toNat ∧ (readPlace ⟨Resource.ofKeyword (String.ofList type), number⟩
        place).statement = some statement := by
  simp only [← Text.byte?_eq_some_iff, Text.one_le_toNat_iff]
  constructor
  · intro read
    unfold readTriple at read
    split at read
    · cases read
    · rename_i named
      split at read
      · cases read
      · rename_i number numeral
        split at read
        · cases read
        · rename_i positive
          exact ⟨by simpa using named, number, numeral, positive, read⟩
  · rintro ⟨named, number, numeral, positive, read⟩
    simp only [readTriple, named, numeral, Bool.not_true, Bool.false_eq_true, if_false,
      if_neg positive]
    exact read

theorem statement_readResource_iff : (readResource words).statement = some statement ↔
    ∃ type index place tail, words = type :: index :: place :: tail ∧
      (readTriple type index place).statement = some statement := by
  constructor
  · intro read
    unfold readResource at read
    split at read
    · exact ⟨_, _, _, [], rfl, read⟩
    · exact ⟨_, _, _, _, rfl, read⟩
    · cases read
  · rintro ⟨type, index, place, tail, rfl, read⟩
    cases tail with
    | nil => exact read
    | cons extra tail => exact read

/-! ## Timers -/

theorem functionNumber?_eq_some_iff {function : UInt8} : functionNumber? word = some function ↔
    ∃ mark digits, word = mark ++ digits ∧ mark.map Char.toUpper = "AF".toList ∧
      Text.Numeral digits function.toNat ∧ function.toNat ≤ 15 := by
  simp only [← Text.byte?_eq_some_iff]
  constructor
  · intro read
    unfold functionNumber? at read
    split at read
    · rename_i first second digits
      split at read
      · rename_i mark
        obtain ⟨numeral, bounded⟩ := Option.filter_eq_some_iff.mp read
        exact ⟨[first, second], digits, rfl, mark, numeral,
          UInt8.le_iff_toNat_le.mp (of_decide_eq_true bounded)⟩
      · cases read
    · cases read
  · rintro ⟨mark, digits, rfl, same, numeral, bounded⟩
    have pair : mark.length = 2 := by simpa using congrArg List.length same
    obtain ⟨first, second, rfl⟩ := List.length_eq_two.mp pair
    have read : functionNumber? ([first, second] ++ digits) = (Text.byte? digits).filter (· ≤ 15) :=
      if_pos same
    rw [read, numeral, Option.filter_some,
      if_pos (decide_eq_true (UInt8.le_iff_toNat_le.mpr bounded))]

theorem statement_readTimer_iff : (readTimer words).statement = some statement ↔
    ∃ place word tail pin function, words = place :: word :: tail ∧ Pin.BoardToken place pin ∧
      functionNumber? word = some function ∧ statement = .timer pin function := by
  simp only [← pinToken?_eq_some_iff]
  constructor
  · intro read
    unfold readTimer at read
    split at read
    · split at read
      · cases read
      · rename_i pin token
        split at read
        · cases read
        · rename_i number named
          split at read <;> cases read <;> exact ⟨_, _, _, _, _, rfl, token, named, rfl⟩
    · cases read
  · rintro ⟨place, word, tail, pin, function, rfl, token, named, rfl⟩
    cases tail <;> simp [readTimer, token, named, Reading.clean, Reading.noting]

/-! ## Other statements -/

theorem isPhrase_of_readComment (read : (readComment text).statement = some statement) :
    statement.isPhrase = false := by
  unfold readComment at read
  dsimp only at read
  split at read
  · obtain ⟨name, _, rfl⟩ := Option.map_eq_some_iff.mp read
    rfl
  · obtain ⟨note, _, rfl⟩ := Option.map_eq_some_iff.mp read
    rfl

theorem isPhrase_of_readSetting (read : (readSetting text).statement = some statement) :
    statement.isPhrase = false := by
  unfold readSetting at read
  split at read
  · cases read
  · dsimp only at read
    split at read <;> cases read
    rfl

theorem isPhrase_of_readDefine {rest : List Char}
    (read : (readDefine text rest).statement = some statement) : statement.isPhrase = false := by
  unfold readDefine at read
  split at read
  · cases read
  · split at read <;> cases read <;> rfl

/-! ## Lines -/

/-- A phrase is a keyword and what the reader of that keyword takes for the statement. -/
theorem phrase_cons_iff {keyword : List Char} : Phrase (keyword :: words) statement ↔
    (keyword.map Char.toLower = "resource".toList ∧
        (readResource words).statement = some statement) ∨
      keyword.map Char.toLower = "timer".toList ∧ (readTimer words).statement = some statement := by
  simp only [statement_readResource_iff, statement_readTriple_iff, statement_readPlace_iff,
    statement_readTimer_iff, functionNumber?_eq_some_iff]
  constructor
  · intro phrase
    cases phrase with
    | assign same named numeral positive token =>
        exact .inl ⟨same, _, _, _, _, rfl, named, _, numeral, positive, .inr ⟨_, token, rfl⟩⟩
    | clear same named numeral positive none =>
        exact .inl ⟨same, _, _, _, _, rfl, named, _, numeral, positive, .inl ⟨none, rfl⟩⟩
    | timer same token mark numeral bounded =>
        exact .inr ⟨same, _, _, _, _, _, rfl, token, ⟨_, _, rfl, mark, numeral, bounded⟩, rfl⟩
  · rintro (⟨same, type, index, place, tail, rfl, named, number, numeral, positive, rest⟩ | timer)
    · rcases rest with ⟨none, rfl⟩ | ⟨pin, token, rfl⟩
      · exact .clear same named numeral positive none
      · exact .assign same named numeral positive token
    · obtain ⟨same, place, word, tail, pin, function, rfl, token, spelled, rfl⟩ := timer
      obtain ⟨mark, digits, rfl, marked, numeral, bounded⟩ := spelled
      exact .timer same token marked numeral bounded

theorem words_unmarked (line : List Char) :
    Text.words (unmarked line) = Text.words (lineText line) :=
  (Text.words_trim _).symm

/-- A phrase starts with a letter, so it stands on a line that is neither blank nor a comment. -/
theorem Phrase.isSpoken (phrase : Phrase (Text.words (lineText line)) statement) :
    IsSpoken line := by
  have filled : lineText line ≠ [] := by
    intro empty
    rw [empty] at phrase
    cases phrase
  refine ⟨filled, fun comment => ?_⟩
  rw [words_of_filled filled, phrase_cons_iff] at phrase
  obtain ⟨rest, text⟩ := List.head?_eq_some_iff.mp comment
  rw [text, List.takeWhile_cons_of_pos (by decide), List.map_cons] at phrase
  rcases phrase with ⟨same, _⟩ | ⟨same, _⟩
  · exact absurd (List.cons.inj same).1 (by decide)
  · exact absurd (List.cons.inj same).1 (by decide)

theorem phrase_iff_readStatement (filled : lineText line ≠ []) :
    Phrase (Text.words (lineText line)) statement ↔
      (readStatement (lineText line)).statement = some statement ∧ statement.isPhrase = true := by
  constructor
  · intro phrase
    refine ⟨?_, phrase.isPhrase⟩
    rw [words_of_filled filled, phrase_cons_iff] at phrase
    rcases phrase with ⟨keyword, read⟩ | ⟨keyword, read⟩
    · rw [readStatement, keyword]
      exact read
    · rw [readStatement, keyword]
      exact read
  · rintro ⟨read, made⟩
    rw [words_of_filled filled, phrase_cons_iff]
    have keyword {name : String} {chars : List Char} (same : String.ofList chars = name) :
        chars = name.toList := by rw [← same, String.toList_ofList]
    unfold readStatement at read
    dsimp only at read
    split at read
    · rename_i same
      exact .inl ⟨keyword same, read⟩
    · rename_i same
      exact .inr ⟨keyword same, read⟩
    · exact absurd ((isPhrase_of_readSetting read).symm.trans made) Bool.false_ne_true
    · split at read <;> cases read
      cases made
    · split at read <;> cases read
      cases made
    · split at read <;> cases read
      cases made

theorem isSpoken_of_isPhrase (read : (readLine line).statement = some statement)
    (made : statement.isPhrase = true) : IsSpoken line := by
  unfold readLine at read
  split at read
  · cases read
  · split at read
    · exact absurd ((isPhrase_of_readDefine read).symm.trans made) Bool.false_ne_true
    · exact absurd ((isPhrase_of_readComment read).symm.trans made) Bool.false_ne_true
  · rename_i filled uncommented
    refine ⟨filled, fun comment => ?_⟩
    obtain ⟨rest, text⟩ := List.head?_eq_some_iff.mp comment
    exact uncommented rest text

/-- A line makes a statement about pins exactly when its words, without the byte-order marks in
front of them, are a phrase that makes it. -/
theorem phrase_words_iff (line : List Char) (statement : Statement) :
    Phrase (Text.words (unmarked line)) statement ↔
      (readLine line).statement = some statement ∧ statement.isPhrase = true := by
  rw [words_unmarked]
  constructor
  · intro phrase
    have spoken := phrase.isSpoken
    rw [readLine_of_spoken spoken.1 spoken.2]
    exact (phrase_iff_readStatement spoken.1).mp phrase
  · rintro ⟨read, made⟩
    have spoken := isSpoken_of_isPhrase read made
    rw [readLine_of_spoken spoken.1 spoken.2] at read
    exact (phrase_iff_readStatement spoken.1).mpr ⟨read, made⟩

end Pinout.Board
