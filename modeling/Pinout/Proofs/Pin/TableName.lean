import Pinout.Proofs.Pin.Spelling

/-! Table names of pins. A name is `P`, the place of a pin, and for an alternative its number
behind a mark. The reader takes any numeral for the number, one with a plus sign too, and
otherwise nothing but such names. The name of a variant is read as that variant, unless it has the
number zero, which no reader accepts. -/

set_option autoImplicit false

namespace Pinout.Pin

/-- A table name of the variant, given the spellings that its number may have. -/
inductive TableName (Number : List Char → Nat → Prop) : List Char → Variant → Prop where
  | default {place : List Char} {pin : Pin} : TablePlace place pin →
      TableName Number ('P' :: place) (.default pin)
  | numbered {place tag : List Char} {pin : Pin} {number : UInt8} : TablePlace place pin →
      Number tag number.toNat → 1 ≤ number.toNat →
      TableName Number ('P' :: (place ++ "_ALT".toList ++ tag)) ⟨pin, some number⟩

/-- A variant that a table can name: its alternative is numbered from one on. -/
def Variant.Numbered (variant : Variant) : Prop :=
  variant.alternate ≠ some 0

instance (variant : Variant) : Decidable variant.Numbered :=
  inferInstanceAs (Decidable (_ ≠ _))

variable {place rest chars : List Char} {pin : Pin} {variant : Variant}

/-! ## The mark of an alternative -/

theorem TablePlace.unmarked_alternate (spelled : TablePlace place pin) :
    ¬ alternateMark <:+: place := by
  have letters : ∀ port : Fin 11, 'L' ≠ Char.ofNat ('A'.toNat + port.val) := by decide
  intro marked
  exact spelled.unmarked (fun pin => letters pin.port) (by decide) (marked.subset (by decide))

theorem cutAlternate_place (spelled : TablePlace place pin) :
    cutAlternate place = .ok (place, none) := by
  rw [cutAlternate, Text.cut?_eq_none_iff.mpr spelled.unmarked_alternate]

theorem cutAlternate_numbered (spelled : TablePlace place pin) {tag : List Char} {number : UInt8}
    (numeral : Text.Numeral tag number.toNat) (positive : 1 ≤ number.toNat) :
    cutAlternate (place ++ "_ALT".toList ++ tag) = .ok (place, some number) := by
  have cut : Text.cut? alternateMark (place ++ "_ALT".toList ++ tag) = some (place, tag) :=
    Text.cut?_append_mark (by decide : '_' ∉ ['A', 'L', 'T']) spelled.unmarked_alternate tag
  rw [cutAlternate, cut]
  dsimp only
  rw [Text.byte?_eq_some_iff.mpr numeral]
  dsimp only
  rw [if_neg (Text.one_le_toNat_iff.mp positive)]

theorem eq_of_cutAlternate {alternate : Option UInt8}
    (cut : cutAlternate rest = .ok (place, alternate)) :
    (rest = place ∧ alternate = none) ∨ ∃ tag number, rest = place ++ "_ALT".toList ++ tag ∧
      alternate = some number ∧ Text.Numeral tag number.toNat ∧ 1 ≤ number.toNat := by
  unfold cutAlternate at cut
  split at cut
  · cases cut
    exact .inl ⟨rfl, rfl⟩
  · rename_i front tag marked
    split at cut
    · cases cut
    · rename_i number numeral
      split at cut <;> cases cut
      rename_i positive
      exact .inr ⟨tag, number, (Text.append_of_cut? marked).symm, rfl,
        Text.byte?_eq_some_iff.mp numeral, Text.one_le_toNat_iff.mpr positive⟩

/-! ## Names -/

theorem readTableName_cons_eq_ok_iff : readTableName ('P' :: rest) = .ok variant ↔
    ∃ place, cutAlternate rest = .ok (place, variant.alternate) ∧
      readPlace place = .ok variant.base := by
  obtain ⟨base, alternate⟩ := variant
  rw [readTableName]
  constructor
  · intro read
    cases cut : cutAlternate rest with
    | error fault => rw [cut] at read; cases read
    | ok part =>
        obtain ⟨place, found⟩ := part
        rw [cut] at read
        cases located : readPlace place with
        | error fault => simp [located, bind, Except.bind] at read
        | ok pin =>
            simp only [located, bind, Except.bind, pure, Except.pure, Except.ok.injEq,
              Variant.mk.injEq] at read
            obtain ⟨rfl, rfl⟩ := read
            exact ⟨place, rfl, located⟩
  · rintro ⟨place, cut, located⟩
    simp [cut, located, bind, Except.bind, pure, Except.pure]

theorem readTableName_eq_ok_iff :
    readTableName chars = .ok variant ↔ TableName Text.Numeral chars variant := by
  constructor
  · intro read
    have opens : ∃ rest, chars = 'P' :: rest := by
      unfold readTableName at read
      split at read
      · exact ⟨_, rfl⟩
      · cases read
    obtain ⟨rest, rfl⟩ := opens
    obtain ⟨place, cut, found⟩ := readTableName_cons_eq_ok_iff.mp read
    have spelled := readPlace_eq_ok_iff.mp found
    obtain ⟨base, alternate⟩ := variant
    rcases eq_of_cutAlternate cut with ⟨rfl, same⟩ | ⟨tag, number, rfl, same, numeral, positive⟩
    · cases same
      exact .default spelled
    · cases same
      exact .numbered spelled numeral positive
  · intro named
    cases named with
    | default spelled =>
        exact readTableName_cons_eq_ok_iff.mpr
          ⟨_, cutAlternate_place spelled, readPlace_eq_ok_iff.mpr spelled⟩
    | numbered spelled numeral positive =>
        exact readTableName_cons_eq_ok_iff.mpr
          ⟨_, cutAlternate_numbered spelled numeral positive, readPlace_eq_ok_iff.mpr spelled⟩

theorem ofTableName_eq_ok_iff {name : String} :
    Variant.ofTableName name = .ok variant ↔ TableName Text.Numeral name.toList variant := by
  rw [Variant.ofTableName, mapError_eq_ok_iff, readTableName_eq_ok_iff]

/-- A name whose number is digits is one without a plus sign anywhere. -/
theorem TableName.denotes_iff : TableName Text.Denotes chars variant ↔
    TableName Text.Numeral chars variant ∧ '+' ∉ chars := by
  have letters : ∀ port : Fin 11, '+' ≠ Char.ofNat ('A'.toNat + port.val) := by decide
  have plain {place : List Char} {pin : Pin} (spelled : TablePlace place pin) : '+' ∉ place :=
    spelled.unmarked (fun pin => letters pin.port) (by decide)
  constructor
  · intro named
    cases named with
    | default spelled => exact ⟨.default spelled, by simpa using plain spelled⟩
    | numbered spelled denotes positive =>
        have bare := Text.denotes_iff_numeral.mp denotes
        refine ⟨.numbered spelled bare.1 positive, ?_⟩
        simp [plain spelled, bare.2]
  · rintro ⟨named, bare⟩
    cases named with
    | default spelled => exact .default spelled
    | numbered spelled numeral positive =>
        refine .numbered spelled (Text.denotes_iff_numeral.mpr ⟨numeral, ?_⟩) positive
        exact fun plus => bare (by simp [plus])

/-! ## The names of variants -/

theorem tablePlace_tableName (pin : Pin) :
    ∃ place, pin.tableName.toList = 'P' :: place ∧ TablePlace place pin := by
  have digits := Text.denotes_iff.mpr
    ⟨Text.isDigits_digitsOf pin.number.val, Text.digitsValue_digitsOf pin.number.val⟩
  exact ⟨_, String.toList_ofList, .intro 1 digits⟩

theorem Variant.exists_toList_name (variant : Variant) :
    ∃ rest, variant.name.toList = 'P' :: rest := by
  obtain ⟨place, text, _⟩ := tablePlace_tableName variant.base
  unfold Variant.name
  split
  · exact ⟨place, text⟩
  · exact ⟨_, by rw [String.toList_append, String.toList_append, text]; rfl⟩

theorem tableName_name (numbered : variant.Numbered) :
    TableName Text.Denotes variant.name.toList variant := by
  obtain ⟨pin, alternate⟩ := variant
  obtain ⟨place, text, spelled⟩ := tablePlace_tableName pin
  cases alternate with
  | none =>
      rw [Variant.name, text]
      exact .default spelled
  | some number =>
      have written : (Variant.mk pin (some number)).name.toList =
          'P' :: (place ++ "_ALT".toList ++ Text.digitsOf number.toNat) := by
        simp [Variant.name, text, Text.decimal]
      have digits := Text.denotes_iff.mpr
        ⟨Text.isDigits_digitsOf number.toNat, Text.digitsValue_digitsOf number.toNat⟩
      rw [written]
      have positive := Text.one_le_toNat_iff.mpr fun zero => numbered (congrArg some zero)
      exact .numbered spelled digits positive

theorem Variant.ofTableName_name (numbered : variant.Numbered) :
    Variant.ofTableName variant.name = .ok variant :=
  ofTableName_eq_ok_iff.mpr (TableName.denotes_iff.mp (tableName_name numbered)).1

theorem TableName.variant_numbered {Number : List Char → Nat → Prop}
    (named : TableName Number chars variant) : variant.Numbered := by
  cases named with
  | default _ =>
      intro zero
      cases zero
  | numbered _ _ positive =>
      exact fun zero => Text.one_le_toNat_iff.mp positive (Option.some.inj zero)

/-- What the reader makes of a name. -/
structure ReadsName (name : String) (variant : Variant) : Prop where
  accepted : Variant.ofTableName name = .ok variant ↔
    TableName Text.Numeral name.toList variant
  /-- The names whose numbers are digits are those that are read and hold no plus sign. -/
  plain : TableName Text.Denotes name.toList variant ↔
    Variant.ofTableName name = .ok variant ∧ '+' ∉ name.toList
  /-- The name of the variant is plain, and is read as the variant. -/
  normal : Variant.ofTableName name = .ok variant →
    TableName Text.Denotes variant.name.toList variant ∧
      Variant.ofTableName variant.name = .ok variant

/-- The reader accepts the names of variants, be the number of an alternative digits or a signed
numeral, and no other text; and every variant that it gives is the one of its own plain name. -/
theorem readsName_ofTableName (name : String) (variant : Variant) : ReadsName name variant where
  accepted := ofTableName_eq_ok_iff
  plain := by rw [TableName.denotes_iff, ofTableName_eq_ok_iff]
  normal := by
    intro read
    have numbered := (ofTableName_eq_ok_iff.mp read).variant_numbered
    exact ⟨tableName_name numbered, Variant.ofTableName_name numbered⟩

/-- A name with a plus sign in front of its number is read, though it is no plain name. -/
theorem exists_signed_name :
    (∃ variant, Variant.ofTableName "PA_1_ALT+1" = .ok variant) ∧
      ¬ ∃ variant, TableName Text.Denotes "PA_1_ALT+1".toList variant := by
  refine ⟨⟨⟨⟨0, 1⟩, some 1⟩, by rfl⟩, ?_⟩
  rintro ⟨variant, named⟩
  exact (TableName.denotes_iff.mp named).2 (by decide)

end Pinout.Pin
