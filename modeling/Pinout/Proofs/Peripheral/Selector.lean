import Pinout.Peripheral.Instance
import Pinout.Proofs.Text.Numeral
import Pinout.Proofs.Text.Respelling

/-! Values that ask for an instance. A value is a numeral, which stands for a number of the kind
and must not be zero, or the name of an instance of the kind, in any case. The number that ends
a name is not tested for zero, and that is all in which the two spellings differ. -/

set_option autoImplicit false

namespace Pinout

open Text (Denotes Numeral)

variable {kind : Kind} {stem value text : String} {chars digits : List Char} {number : UInt8}
  {count : Nat} {target : Instance}

/-! ## Names taken apart -/

/-- A name without a number, which no numeral begins with. -/
structure IsStem (stem : String) : Prop where
  names : ∀ char ∈ stem.toList, Text.isNameChar char = true
  lettered : ∃ char ∈ stem.toList, char ≠ '+' ∧ char.isDigit = false
  ends : stem.toList.reverse.takeWhile Char.isDigit = []

theorem Kind.isStem_of_mem (listed : stem ∈ kind.stems) : IsStem stem := by
  have stems : ∀ kind ∈ Kind.all, ∀ stem ∈ kind.stems,
      stem.toList.all Text.isNameChar = true ∧
        (stem.toList.any fun char => char != '+' && !char.isDigit) = true ∧
          stem.toList.reverse.takeWhile Char.isDigit = [] := by decide
  obtain ⟨names, lettered, ends⟩ := stems kind kind.mem_all stem listed
  refine ⟨List.all_eq_true.mp names, ?_, ends⟩
  simpa using lettered

theorem IsStem.not_numeral (valid : IsStem stem) : ¬ Numeral (stem.toList ++ digits) count := by
  intro numeral
  obtain ⟨char, member, unsigned, letter⟩ := valid.lettered
  rcases numeral.mem_cases (List.mem_append_left digits member) with plus | digit
  · exact unsigned plus
  · exact Bool.false_ne_true (letter.symm.trans digit)

namespace Instance

theorem toList_name (target : Instance) :
    target.name.toList = target.stem.toList ++ target.digits := by
  rw [stem, String.toList_ofList, digits, ← List.reverse_append, List.takeWhile_append_dropWhile,
    List.reverse_reverse]

theorem isDigit_of_mem_digits {char : Char} (member : char ∈ target.digits) :
    char.isDigit = true :=
  List.all_eq_true.mp List.all_takeWhile char (List.mem_reverse.mp member)

/-- The number of a name is what its digits denote. -/
theorem number?_eq_some_iff :
    target.number? = some number ↔ Denotes target.digits number.toNat := by
  rw [number?, Text.byte?_eq_some_iff, Text.denotes_iff_numeral, iff_self_and]
  intro _ plus
  exact absurd (isDigit_of_mem_digits plus) (by decide)

theorem ofName?_eq_some_iff :
    ofName? text = some target ↔ target.name.toList = Text.trim text.toList := by
  unfold ofName?
  dsimp only
  constructor
  · intro read
    split at read <;> cases read
    exact String.toList_ofList
  · intro spelled
    have bare : String.ofList (Text.trim text.toList) = target.name := by
      rw [← spelled, String.ofList_toList]
    rw [dif_pos (by rw [bare]; exact target.isName), Option.some.injEq]
    exact ext_name bare

/-- A name is taken apart where the digits begin that end it. -/
theorem digits_eq (valid : IsStem stem) (run : ∀ char ∈ digits, char.isDigit = true)
    (spelled : target.name.toList = stem.toList ++ digits) : target.digits = digits := by
  rw [Instance.digits, spelled, List.reverse_append,
    List.takeWhile_append_of_pos (by simpa using run), valid.ends, List.append_nil,
    List.reverse_reverse]

theorem stem_eq (valid : IsStem stem) (run : ∀ char ∈ digits, char.isDigit = true)
    (spelled : target.name.toList = stem.toList ++ digits) : target.stem = stem := by
  have whole := spelled
  rw [toList_name, digits_eq valid run spelled] at whole
  exact String.toList_inj.mp (List.append_cancel_right whole)

theorem exists_of_stem (valid : IsStem stem) (run : ∀ char ∈ digits, char.isDigit = true) :
    ∃ target : Instance, target.name.toList = stem.toList ++ digits := by
  obtain ⟨char, member, _, letter⟩ := valid.lettered
  have named : isInstanceName (stem.toList ++ digits) = true := by
    have filled : stem.toList ≠ [] := List.ne_nil_of_mem member
    have lettered : stem.toList.all Char.isDigit = false := by
      rw [List.all_eq_false]
      exact ⟨char, member, by simp [letter]⟩
    have named : stem.toList.all Text.isNameChar = true := List.all_eq_true.mpr valid.names
    have digital : digits.all Text.isNameChar = true :=
      List.all_eq_true.mpr fun digit inside => Text.isNameChar_of_isDigit (run digit inside)
    simp [isInstanceName, filled, lettered, named, digital]
  refine ⟨⟨String.ofList (stem.toList ++ digits), ?_⟩, String.toList_ofList⟩
  rwa [String.toList_ofList]

end Instance

/-! ## Values -/

namespace Selector

/-- A value in capitals, without the blanks around it. -/
def capitals (value : String) : List Char :=
  (Text.trim value.toList).map Char.toUpper

/-- The text is a name of the kind, and its last digits denote the number. -/
def Names (kind : Kind) (chars : List Char) (count : Nat) : Prop :=
  ∃ stem ∈ kind.stems, ∃ digits, Denotes digits count ∧ chars = stem.toList ++ digits

/-- The text asks for the instance of a kind with a number. A numeral asks from one on. -/
inductive Asks (kind : Kind) (chars : List Char) (number : UInt8) : Prop where
  | bare (numeral : Numeral chars number.toNat) (positive : number ≠ 0)
  | named (names : Names kind chars number.toNat)

theorem Names.not_numeral {other : Nat} (names : Names kind chars count) :
    ¬ Numeral chars other := by
  obtain ⟨stem, listed, digits, _, rfl⟩ := names
  exact (Kind.isStem_of_mem listed).not_numeral

theorem Names.value_eq {other : Nat} (names : Names kind chars count)
    (also : Names kind chars other) : count = other := by
  obtain ⟨stem, listed, digits, denotes, rfl⟩ := names
  obtain ⟨stem', listed', digits', denotes', same⟩ := also
  have valid := Kind.isStem_of_mem listed
  have run : ∀ char ∈ digits, char.isDigit = true := fun _ member => denotes.isDigit member
  have run' : ∀ char ∈ digits', char.isDigit = true := fun _ member => denotes'.isDigit member
  obtain ⟨target, whole⟩ := Instance.exists_of_stem valid run
  -- The name of an instance ends in one run of digits, however it was put together.
  have last : digits = digits' := (Instance.digits_eq valid run whole).symm.trans
    (Instance.digits_eq (Kind.isStem_of_mem listed') run' (whole.trans same))
  subst last
  exact denotes.value_eq denotes'

/-- A numeral asks for its number, unless it is zero. -/
theorem asks_iff_of_numeral (numeral : Numeral chars count) :
    Asks kind chars number ↔ number.toNat = count ∧ number ≠ 0 := by
  constructor
  · rintro (⟨also, positive⟩ | names)
    · exact ⟨also.value_eq numeral, positive⟩
    · exact absurd numeral names.not_numeral
  · rintro ⟨rfl, positive⟩
    exact .bare numeral positive

/-- A name asks for its number, zero or not. -/
theorem asks_iff_of_names (names : Names kind chars count) :
    Asks kind chars number ↔ number.toNat = count := by
  constructor
  · rintro (⟨numeral, _⟩ | also)
    · exact absurd numeral names.not_numeral
    · exact also.value_eq names
  · rintro rfl
    exact .named names

/-- The plus sign and the digits have no case. -/
theorem numeral_map_toUpper_iff : Numeral (chars.map Char.toUpper) count ↔ Numeral chars count := by
  have fixed (char : Char) (plain : (char.toUpper = '+' ∨ char.toUpper.isDigit = true) ∨
      char = '+' ∨ char.isDigit = true) : char.toUpper = char := by
    rcases Text.toUpper_cases char with same | ⟨letter, small, rfl⟩
    · exact same
    · revert letter
      decide
  have caseless (plain : ∀ char ∈ chars, char.toUpper = char) : chars.map Char.toUpper = chars := by
    simpa using List.map_congr_left plain
  constructor
  · intro numeral
    rwa [caseless fun char member =>
      fixed char (.inl (numeral.mem_cases (List.mem_map_of_mem member)))] at numeral
  · intro numeral
    rwa [caseless fun char member => fixed char (.inr (numeral.mem_cases member))]

theorem byte?_eq_some_iff :
    Text.byte? (Text.trim value.toList) = some number ↔ Numeral (capitals value) number.toNat := by
  rw [Text.byte?_eq_some_iff, capitals, numeral_map_toUpper_iff]

theorem named_iff : (∃ target, Instance.ofName? (Text.upper value) = some target ∧
      target.number? = some number ∧ target.stem ∈ kind.stems) ↔
    Names kind (capitals value) number.toNat := by
  have bare : Text.trim (Text.upper value).toList = capitals value := by
    rw [Text.toList_upper, Text.trim_map_toUpper, capitals]
  simp only [Instance.ofName?_eq_some_iff, bare, Instance.number?_eq_some_iff]
  constructor
  · rintro ⟨target, spelled, denotes, listed⟩
    exact ⟨target.stem, listed, target.digits, denotes, spelled ▸ target.toList_name⟩
  · rintro ⟨stem, listed, digits, denotes, spelled⟩
    have valid := Kind.isStem_of_mem listed
    have run : ∀ char ∈ digits, char.isDigit = true := fun _ member => denotes.isDigit member
    obtain ⟨target, whole⟩ := Instance.exists_of_stem valid run
    refine ⟨target, whole.trans spelled.symm, ?_, ?_⟩
    · rwa [Instance.digits_eq valid run whole]
    · rwa [Instance.stem_eq valid run whole]

theorem ofValue?_eq_some_iff {selector : Selector} : ofValue? kind value = some selector ↔
    selector.kind = kind ∧ Asks kind (capitals value) selector.number := by
  obtain ⟨asked, number⟩ := selector
  unfold ofValue?
  cases read : Text.byte? (Text.trim value.toList) with
  | some first =>
      rw [asks_iff_of_numeral (byte?_eq_some_iff.mp read), UInt8.toNat_inj]
      by_cases zero : first = 0
      · subst zero
        refine iff_of_false (by simp) ?_
        rintro ⟨-, rfl, positive⟩
        exact positive rfl
      · have positive : first > 0 := UInt8.pos_iff_ne_zero.mpr zero
        simp only [if_pos positive, Option.some.injEq, mk.injEq]
        constructor
        · rintro ⟨rfl, rfl⟩
          exact ⟨rfl, rfl, zero⟩
        · rintro ⟨rfl, rfl, _⟩
          exact ⟨rfl, rfl⟩
  | none =>
      have asks : Asks kind (capitals value) number ↔ Names kind (capitals value) number.toNat := by
        refine ⟨?_, .named⟩
        rintro (⟨spelled, _⟩ | names)
        · rw [← byte?_eq_some_iff, read] at spelled
          cases spelled
        · exact names
      rw [asks, ← named_iff]
      simp only [Option.bind_eq_bind, Option.bind_eq_some_iff, Option.ite_none_right_eq_some,
        List.contains_iff_mem, Option.some.injEq, mk.injEq]
      constructor
      · rintro ⟨target, spelled, last, denotes, listed, rfl, rfl⟩
        exact ⟨rfl, target, spelled, denotes, listed⟩
      · rintro ⟨rfl, target, spelled, denotes, listed⟩
        exact ⟨target, spelled, number, denotes, listed, rfl, rfl⟩

theorem ofValue?_eq_none_iff :
    ofValue? kind value = none ↔ ∀ number, ¬ Asks kind (capitals value) number := by
  rw [Option.eq_none_iff_forall_ne_some]
  constructor
  · intro unread number asks
    exact unread ⟨kind, number⟩ (ofValue?_eq_some_iff.mpr ⟨rfl, asks⟩)
  · intro silent selector read
    exact silent _ (ofValue?_eq_some_iff.mp read).2

/-- A name and the digits that end it are read alike, except for zero. -/
theorem ofValue?_eq_iff {bare : String} (names : Names kind (capitals value) count)
    (denotes : Numeral (capitals bare) count) :
    ofValue? kind value = ofValue? kind bare ↔ count ≠ 0 := by
  constructor
  · rintro same rfl
    have read : ofValue? kind value = some ⟨kind, 0⟩ :=
      ofValue?_eq_some_iff.mpr ⟨rfl, .named names⟩
    have asks := (ofValue?_eq_some_iff.mp (same.symm.trans read)).2
    exact ((asks_iff_of_numeral denotes).mp asks).2 rfl
  · intro positive
    refine Option.ext fun selector => ?_
    rw [ofValue?_eq_some_iff, ofValue?_eq_some_iff, asks_iff_of_names names,
      asks_iff_of_numeral denotes]
    refine and_congr_right fun _ => (and_iff_left_of_imp ?_).symm
    rintro same zero
    exact positive (by rw [← same, zero]; rfl)

end Selector

end Pinout
