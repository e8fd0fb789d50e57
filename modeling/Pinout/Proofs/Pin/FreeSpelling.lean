import Pinout.Proofs.Pin.TableName
import Pinout.Proofs.Text.Respelling

/-! Free spellings of pins. A reader of free spellings takes what the readers of board tokens and
of table names take, in any letter case and with blanks around it, and gives the pin that they
give. Names of alternatives are refused. -/

set_option autoImplicit false

namespace Pinout.Pin

/-- A spelling in capitals: the letter of the port and a numeral, or the two behind a `P`, where
underscores may stand anywhere in the numeral. -/
inductive FreeSpelling : List Char → Pin → Prop where
  | bare {pin : Pin} {chars : List Char} : Text.Numeral chars pin.number.val →
      FreeSpelling (pin.letter :: chars) pin
  | marked {pin : Pin} {chars : List Char} :
      Text.Numeral (chars.filter (· != '_')) pin.number.val →
      FreeSpelling ('P' :: pin.letter :: chars) pin

variable {pin : Pin} {letter char : Char} {chars capitals : List Char} {text : String}

/-! ## The reader -/

theorem letter_ne_mark (pin : Pin) : pin.letter ≠ 'P' := by
  have letters : ∀ port : Fin 11, Char.ofNat ('A'.toNat + port.val) ≠ 'P' := by decide
  exact letters pin.port

theorem bareSpelling_marked (alpha : letter.isAlpha = true) :
    bareSpelling ('P' :: letter :: chars) = letter :: chars.filter (· != '_') := by
  have kept : (letter != '_') = true := by
    rw [bne_iff_ne]
    rintro rfl
    exact absurd alpha (by decide)
  rw [bareSpelling, if_pos alpha]
  exact List.filter_cons_of_pos kept

theorem bareSpelling_cases (capitals : List Char) :
    (∃ letter chars, letter.isAlpha = true ∧ capitals = 'P' :: letter :: chars) ∨
      bareSpelling capitals = capitals := by
  unfold bareSpelling
  split
  · rename_i letter rest
    split
    · rename_i alpha
      exact .inl ⟨letter, rest, alpha, rfl⟩
    · exact .inr rfl
  · exact .inr rfl

theorem bareSpelling_letter (pin : Pin) (chars : List Char) :
    bareSpelling (pin.letter :: chars) = pin.letter :: chars := by
  rcases bareSpelling_cases (pin.letter :: chars) with ⟨letter, rest, -, same⟩ | same
  · exact absurd (List.cons.inj same).1 pin.letter_ne_mark
  · exact same

/-- What is read is a letter, in either case, and a numeral. -/
theorem readFree_eq_ok_iff_bare : readFree chars = .ok pin ↔
    ∃ letter digits, bareSpelling ((Text.trim chars).map Char.toUpper) = letter :: digits ∧
      letter.toUpper = pin.letter ∧ Text.Numeral digits pin.number.val := by
  unfold readFree
  constructor
  · intro read
    split at read
    · cases read
    · rename_i letter digits bare
      split at read
      · cases read
      · split at read
        · cases read
        · rename_i number numeral
          have located := mapError_eq_ok_iff.mp (mapError_eq_ok_iff.mp read)
          obtain ⟨same, value⟩ := locate_eq_ok_iff.mp located
          exact ⟨letter, digits, bare, same, value ▸ Text.byte?_eq_some_iff.mp numeral⟩
  · rintro ⟨letter, digits, bare, same, numeral⟩
    have small : pin.number.val < 256 := Nat.lt_trans pin.number.isLt (by decide)
    have value : (UInt8.ofNat pin.number.val).toNat = pin.number.val :=
      UInt8.toNat_ofNat_of_lt' small
    have read : Text.byte? digits = some (UInt8.ofNat pin.number.val) :=
      Text.byte?_eq_some_iff.mpr (by rwa [value])
    rw [bare]
    dsimp only
    rw [if_neg (by simp [isAlpha_of_toUpper same]), read]
    exact mapError_eq_ok_iff.mpr (mapError_eq_ok_iff.mpr (locate_eq_ok_iff.mpr ⟨same, value⟩))

theorem readFree_eq_ok_iff : readFree chars = .ok pin ↔
    FreeSpelling ((Text.trim chars).map Char.toUpper) pin := by
  have large := Text.map_toUpper_map_toUpper (Text.trim chars)
  rw [readFree_eq_ok_iff_bare]
  generalize (Text.trim chars).map Char.toUpper = capitals at large
  constructor
  · rintro ⟨letter, digits, bare, same, numeral⟩
    rcases bareSpelling_cases capitals with ⟨port, rest, alpha, rfl⟩ | whole
    · rw [bareSpelling_marked alpha, List.cons.injEq] at bare
      obtain ⟨rfl, rfl⟩ := bare
      have capital : port.toUpper = port := Text.toUpper_of_mem large (by simp)
      rw [← capital, same]
      exact .marked numeral
    · obtain rfl := whole.symm.trans bare
      have capital : letter.toUpper = letter := Text.toUpper_of_mem large List.mem_cons_self
      rw [← capital, same]
      exact .bare numeral
  · intro spelled
    cases spelled with
    | bare numeral =>
        exact ⟨_, _, bareSpelling_letter pin _, pin.toUpper_letter, numeral⟩
    | marked numeral =>
        have alpha := isAlpha_of_toUpper pin.toUpper_letter
        exact ⟨_, _, bareSpelling_marked alpha, pin.toUpper_letter, numeral⟩

/-! ## Spellings of the other readers -/

/-- A character that stands in a spelling as it is: no blank, and no small letter. -/
def IsPlain (char : Char) : Prop :=
  Text.isBlank char = false ∧ char.toUpper = char

instance (char : Char) : Decidable (IsPlain char) :=
  inferInstanceAs (Decidable (_ ∧ _))

theorem isPlain_of_isDigit (digit : char.isDigit = true) : IsPlain char := by
  refine ⟨Text.isBlank_of_isNameChar (Text.isNameChar_of_isDigit digit), ?_⟩
  rcases Text.toUpper_cases char with same | ⟨letter, small, rfl⟩
  · exact same
  · revert letter
    decide

theorem isPlain_letter (pin : Pin) : IsPlain pin.letter :=
  ⟨Text.isBlank_of_isNameChar pin.isNameChar_letter, pin.toUpper_letter⟩

theorem capitals_of_plain (plain : ∀ char ∈ chars, IsPlain char) :
    (Text.trim chars).map Char.toUpper = chars := by
  have solid : Text.Solid chars := fun char member => (plain char member).1
  rw [Text.trim_eq_self solid.trimmed]
  exact (List.map_congr_left fun char member => (plain char member).2).trans (List.map_id' chars)

theorem BoardToken.freeSpelling {token : List Char} (spelled : BoardToken token pin) :
    FreeSpelling ((Text.trim token).map Char.toUpper) pin := by
  cases spelled with
  | @intro _ letter tens units port denotes =>
      have digits : ∀ char ∈ [tens, units], IsPlain char :=
        fun char member => isPlain_of_isDigit (denotes.isDigit member)
      have same := toUpper_eq_letter_iff.mpr port
      have solid : Text.Solid [letter, tens, units] := by
        rintro char (_ | ⟨_, digit⟩)
        · rw [← Text.isBlank_toUpper, same]
          exact (isPlain_letter pin).1
        · exact (digits char digit).1
      rw [Text.trim_eq_self solid.trimmed, List.map_cons, same,
        List.map_congr_left fun char member => (digits char member).2, List.map_id']
      exact .bare (.plain denotes)

theorem TablePlace.isPlain {place : List Char} (spelled : TablePlace place pin)
    (member : char ∈ place) : IsPlain char := by
  rcases spelled.mem_cases member with rfl | rfl | digit
  · exact isPlain_letter pin
  · decide
  · exact isPlain_of_isDigit digit

theorem TableName.isPlain {variant : Variant} (named : TableName Text.Numeral chars variant)
    (member : char ∈ chars) : IsPlain char := by
  cases named with
  | default spelled =>
      rcases List.mem_cons.mp member with rfl | inside
      · decide
      · exact spelled.isPlain inside
  | numbered spelled numeral positive =>
      rcases List.mem_cons.mp member with rfl | member
      · decide
      rcases List.mem_append.mp member with member | tag
      · rcases List.mem_append.mp member with inside | mark
        · exact spelled.isPlain inside
        · have marks : "_ALT".toList.all (IsPlain ·) = true := by decide
          exact of_decide_eq_true (List.all_eq_true.mp marks char mark)
      · rcases numeral.mem_cases tag with rfl | digit
        · decide
        · exact isPlain_of_isDigit digit

theorem TablePlace.freeSpelling {place : List Char} (spelled : TablePlace place pin) :
    FreeSpelling ('P' :: place) pin := by
  cases spelled with
  | @intro _ digits bars denotes =>
      have unbarred : (List.replicate bars '_' ++ digits).filter (· != '_') = digits := by
        rw [List.filter_append, List.filter_replicate_of_neg (by decide), List.nil_append,
          List.filter_eq_self]
        intro digit member
        rw [bne_iff_ne]
        rintro rfl
        exact denotes.unmarked (by decide) member
      exact .marked (by rw [unbarred]; exact .plain denotes)

/-- The mark of an alternative is no part of a numeral. -/
theorem not_freeSpelling_alternate {place tag : List Char} {other : Pin}
    (spelled : TablePlace place pin) :
    ¬ FreeSpelling ('P' :: (place ++ "_ALT".toList ++ tag)) other := by
  cases spelled with
  | @intro _ digits bars _ =>
      intro free
      generalize same : 'P' :: (pin.letter :: (List.replicate bars '_' ++ digits) ++
        "_ALT".toList ++ tag) = capitals at free
      cases free with
      | bare _ => exact absurd (List.cons.inj same).1.symm other.letter_ne_mark
      | @marked _ chars numeral =>
          have behind := (List.cons.inj (List.cons.inj same).2).2
          have inside : 'A' ∈ chars := by
            rw [← behind]
            simp
          have mark : 'A' ∈ chars.filter (· != '_') := List.mem_filter.mpr ⟨inside, by decide⟩
          rcases numeral.mem_cases mark with plus | digit
          · exact absurd plus (by decide)
          · exact absurd digit (by decide)

/-! ## The three readers -/

/-- What the reader of free spellings makes of a text, and what the other readers make of it. -/
structure Agrees (text : String) : Prop where
  accepted : ∀ {pin}, ofFree text = .ok pin ↔
    FreeSpelling ((Text.trim text.toList).map Char.toUpper) pin
  board : ∀ {pin}, ofBoardToken text = .ok pin → ofFree text = .ok pin
  table : ∀ {pin}, Variant.ofTableName text = .ok (.default pin) → ofFree text = .ok pin
  alternate : ∀ {pin number}, Variant.ofTableName text = .ok ⟨pin, some number⟩ →
    ∃ fault, ofFree text = .error fault
  /-- Other spellings are answered alike, with the same pin or with the same fault. -/
  respelled : ∀ {other}, Text.Respelled text other → ofFree other = ofFree text

theorem ofFree_respelled {other : String} (respelled : Text.Respelled text other) :
    ofFree other = ofFree text := by
  rw [ofFree, ofFree, readFree, readFree, Text.respelled_iff.mp respelled]

theorem agrees_ofFree (text : String) : Agrees text where
  accepted := readFree_eq_ok_iff
  board := by
    intro pin read
    rw [ofBoardToken, mapError_eq_ok_iff, readBoardToken_eq_ok_iff] at read
    exact readFree_eq_ok_iff.mpr read.freeSpelling
  table := by
    intro pin read
    have named := ofTableName_eq_ok_iff.mp read
    have capitals := capitals_of_plain fun _ => named.isPlain
    refine readFree_eq_ok_iff.mpr ?_
    rw [capitals]
    generalize text.toList = chars at named
    cases named with
    | default spelled => exact spelled.freeSpelling
  alternate := by
    intro pin number read
    have named := ofTableName_eq_ok_iff.mp read
    have capitals := capitals_of_plain fun _ => named.isPlain
    cases free : ofFree text with
    | error fault => exact ⟨fault, rfl⟩
    | ok other =>
        have spelled := readFree_eq_ok_iff.mp free
        rw [capitals] at spelled
        generalize text.toList = chars at named spelled
        cases named with
        | numbered place _ _ => exact absurd spelled (not_freeSpelling_alternate place)
  respelled := ofFree_respelled

end Pinout.Pin
