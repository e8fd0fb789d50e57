import Mathlib.Data.List.Basic
import Pinout.Capability.Entry
import Pinout.Resource

/-! Texts that are one word: not empty and made of letters, digits and underscores alone.
Numbers, pins, instances, labels and the keywords of the model are words, so none of them
can break a line or end it with a mark. -/

set_option autoImplicit false

namespace Pinout.Text

/-! ## Characters by their bytes -/

/-- The characters of a text, read from its bytes where each of them is one. Decisions about
texts read them so, which takes fewer steps than to decode them. -/
def letters (text : String) : List Char :=
  let bytes := text.toByteArray.data.toList
  if bytes.all (· < 128) then bytes.map fun byte => Char.ofNat byte.toNat else text.toList

/-- A character whose bytes are all below 128 is its one byte. -/
theorem map_utf8EncodeChar {char : Char}
    (single : (String.utf8EncodeChar char).all (· < 128) = true) :
    (String.utf8EncodeChar char).map (fun byte => Char.ofNat byte.toNat) = [char] := by
  have apart {value : Nat} {rest : List UInt8} (large : 128 ≤ value % 256) :
      (UInt8.ofNat value :: rest).all (· < 128) ≠ true := by
    intro single
    have first := of_decide_eq_true (List.all_eq_true.mp single _ List.mem_cons_self)
    rw [UInt8.lt_iff_toNat_lt, UInt8.toNat_ofNat'] at first
    exact Nat.not_le.mpr first large
  rw [String.utf8EncodeChar] at single ⊢
  split at single
  · rename_i small
    rw [if_pos small, List.map_singleton, UInt8.toNat_ofNat', Nat.mod_eq_of_lt (by omega)]
    exact congrArg (fun char => [char]) (Char.ofNat_toNat char)
  -- Longer encodings start with a byte of 192 or more.
  · split at single
    · exact absurd single (apart (by omega))
    · split at single
      · exact absurd single (apart (by omega))
      · exact absurd single (apart (by omega))

theorem map_flatMap_utf8EncodeChar {chars : List Char}
    (single : (chars.flatMap String.utf8EncodeChar).all (· < 128) = true) :
    (chars.flatMap String.utf8EncodeChar).map (fun byte => Char.ofNat byte.toNat) = chars := by
  induction chars with
  | nil => rfl
  | cons char chars ih =>
      rw [List.flatMap_cons, List.all_append, Bool.and_eq_true] at single
      rw [List.flatMap_cons, List.map_append, map_utf8EncodeChar single.1, ih single.2,
        List.singleton_append]

theorem letters_eq (text : String) : letters text = text.toList := by
  have spelled : text.toByteArray.data.toList = text.toList.flatMap String.utf8EncodeChar := by
    rw [← String.utf8Encode_toList, List.utf8Encode, List.toList_data_toByteArray]
  dsimp only [letters]
  split
  · rename_i single
    rw [spelled] at single ⊢
    exact map_flatMap_utf8EncodeChar single
  · rfl

/-! ## Words -/

structure IsWord (text : String) : Prop where
  filled : text.toList ≠ []
  names : ∀ char ∈ text.toList, isNameChar char = true

instance (text : String) : Decidable (IsWord text) :=
  decidable_of_iff (letters text ≠ [] ∧ (letters text).all isNameChar = true) <| by
    rw [letters_eq]
    exact ⟨fun ⟨filled, names⟩ => ⟨filled, List.all_eq_true.mp names⟩,
      fun word => ⟨word.filled, List.all_eq_true.mpr word.names⟩⟩

namespace IsWord

variable {text front back : String}

theorem append (first : IsWord front) (second : IsWord back) : IsWord (front ++ back) where
  filled := by simp [String.toList_append, first.filled]
  names := by
    intro char member
    rw [String.toList_append, List.mem_append] at member
    exact member.elim (first.names char) (second.names char)

theorem exists_last (word : IsWord text) :
    ∃ last, text.toList.getLast? = some last ∧ isNameChar last = true :=
  ⟨_, List.getLast?_eq_some_getLast word.filled, word.names _ (List.getLast_mem word.filled)⟩

end IsWord

/-! ## Texts without marks -/

/-- A text that has none of the marks. -/
def Without (marks : List Char) (text : String) : Prop :=
  ∀ char ∈ text.toList, char ∉ marks

instance (marks : List Char) (text : String) : Decidable (Without marks text) :=
  decidable_of_iff ((letters text).all (fun char => !marks.contains char) = true) <| by
    simp [Without, letters_eq]

namespace Without

variable {marks : List Char} {front back separator : String} {parts : List String}

theorem append (first : Without marks front) (second : Without marks back) :
    Without marks (front ++ back) := by
  intro char member
  rw [String.toList_append, List.mem_append] at member
  exact member.elim (first char) (second char)

theorem of_subset (free : Without marks back) (part : front.toList ⊆ back.toList) :
    Without marks front :=
  fun char member => free char (part member)

theorem of_fewer {others : List Char} (free : Without marks back) (fewer : others ⊆ marks) :
    Without others back :=
  fun char member mark => free char member (fewer mark)

theorem intercalate (between : Without marks separator)
    (free : ∀ part ∈ parts, Without marks part) : Without marks (separator.intercalate parts) := by
  induction parts with
  | nil =>
      rw [String.intercalate_nil]
      intro char member
      cases member
  | cons part rest ih =>
      have first := free part List.mem_cons_self
      cases rest with
      | nil => simpa using first
      | cons next rest =>
          rw [String.intercalate_cons_cons]
          exact (first.append between).append
            (ih fun later member => free later (List.mem_cons_of_mem part member))

end Without

theorem without_singleton_iff {mark : Char} {text : String} :
    Without [mark] text ↔ mark ∉ text.toList := by
  constructor
  · intro free member
    exact free mark member (List.mem_singleton.mpr rfl)
  · intro absent char member same
    exact absent (List.mem_singleton.mp same ▸ member)

theorem IsWord.without {marks : List Char} {text : String} (word : IsWord text)
    (others : marks.any isNameChar = false) : Without marks text := by
  intro char member mark
  exact List.any_eq_false.mp others char mark (word.names char member)

/-! ## Letter case -/

theorem toUpper_cases (char : Char) :
    char.toUpper = char ∨ ∃ letter < 26, char = Char.ofNat (97 + letter) := by
  by_cases small : 97 ≤ char.toNat ∧ char.toNat ≤ 122
  · refine .inr ⟨char.toNat - 97, by omega, ?_⟩
    rw [Nat.add_sub_cancel' small.1, Char.ofNat_toNat]
  · exact .inl (dif_neg small)

theorem toLower_cases (char : Char) :
    char.toLower = char ∨ ∃ letter < 26, char = Char.ofNat (65 + letter) := by
  by_cases capital : 65 ≤ char.toNat ∧ char.toNat ≤ 90
  · refine .inr ⟨char.toNat - 65, by omega, ?_⟩
    rw [Nat.add_sub_cancel' capital.1, Char.ofNat_toNat]
  · exact .inl (dif_neg capital)

theorem isNameChar_toUpper (char : Char) : isNameChar char.toUpper = isNameChar char := by
  rcases toUpper_cases char with same | ⟨letter, small, rfl⟩
  · rw [same]
  · revert letter
    decide

theorem isNameChar_toLower (char : Char) : isNameChar char.toLower = isNameChar char := by
  rcases toLower_cases char with same | ⟨letter, capital, rfl⟩
  · rw [same]
  · revert letter
    decide

theorem toUpper_toUpper (char : Char) : char.toUpper.toUpper = char.toUpper := by
  rcases toUpper_cases char with same | ⟨letter, small, rfl⟩
  · rw [same, same]
  · revert letter
    decide

theorem toLower_toLower (char : Char) : char.toLower.toLower = char.toLower := by
  rcases toLower_cases char with same | ⟨letter, capital, rfl⟩
  · rw [same, same]
  · revert letter
    decide

theorem map_toUpper_map_toUpper (chars : List Char) :
    (chars.map Char.toUpper).map Char.toUpper = chars.map Char.toUpper := by
  rw [List.map_map]
  exact List.map_congr_left fun char _ => toUpper_toUpper char

theorem upper_upper (text : String) : upper (upper text) = upper text := by
  rw [← String.toList_inj, toList_upper, toList_upper, map_toUpper_map_toUpper]

/-! ## Numbers -/

theorem isNameChar_of_isDigit {char : Char} (digit : char.isDigit = true) :
    isNameChar char = true := by
  simp [isNameChar, Char.isAlphanum, digit]

theorem isWord_toString (value : Nat) : IsWord (toString value) := by
  rw [Nat.toString_eq_ofList_toDigits]
  constructor
  · rw [String.toList_ofList]
    exact Nat.toDigits_ne_nil
  · intro char member
    rw [String.toList_ofList] at member
    exact isNameChar_of_isDigit (Nat.isDigit_of_mem_toDigits (by decide) (by decide) member)

theorem isDigit_digitChar (value : Nat) : (digitChar value).isDigit = true := by
  have digits : ∀ digit < 10, (Char.ofNat ('0'.toNat + digit)).isDigit = true := by decide
  exact digits (value % 10) (Nat.mod_lt value (by decide))

theorem isDigit_of_mem_digitsOf {value : Nat} {char : Char} (member : char ∈ digitsOf value) :
    char.isDigit = true := by
  rw [digitsOf] at member
  split at member
  · rw [List.mem_singleton.mp member]
    exact isDigit_digitChar value
  · rcases List.mem_append.mp member with front | last
    · exact isDigit_of_mem_digitsOf front
    · rw [List.mem_singleton.mp last]
      exact isDigit_digitChar value
termination_by value

theorem isWord_decimal (value : Nat) : IsWord (decimal value) where
  filled := by
    rw [decimal, String.toList_ofList, digitsOf]
    split <;> simp
  names := by
    intro char member
    rw [decimal, String.toList_ofList] at member
    exact isNameChar_of_isDigit (isDigit_of_mem_digitsOf member)

end Pinout.Text

namespace Pinout

open Text (IsWord isNameChar)

/-! ## Names -/

theorem Instance.isWord (self : Instance) : IsWord self.name := by
  have valid := self.isName
  simp only [isInstanceName, Bool.and_eq_true, List.all_eq_true, Bool.not_eq_true',
    List.isEmpty_eq_false_iff] at valid
  exact ⟨valid.1.1, valid.1.2⟩

theorem Capability.Entry.isWord_label (entry : Capability.Entry) : IsWord entry.label := by
  have channel (mark : String) (number : UInt8) (marked : IsWord mark) :
      IsWord (entry.target.name ++ mark ++ toString number) :=
    (entry.target.isWord.append marked).append (Text.isWord_toString number.toNat)
  unfold Capability.Entry.label
  split
  · exact channel "_CH" _ (by decide)
  · exact (channel "_CH" _ (by decide)).append (by decide)
  · rename_i signal _
    exact (entry.target.isWord.append (by decide : IsWord "_")).append
      (by cases signal <;> decide)
  · exact channel "_IN" _ (by decide)

theorem Pin.isNameChar_letter (pin : Pin) : isNameChar pin.letter = true := by
  have letters : ∀ port : Fin 11,
      isNameChar (Char.ofNat ('A'.toNat + port.val)) = true := by decide
  exact letters pin.port

theorem Pin.isWord_boardToken (pin : Pin) : IsWord pin.boardToken where
  filled := by simp [boardToken]
  names := by
    intro char member
    rw [boardToken, String.toList_ofList] at member
    rcases List.mem_cons.mp member with rfl | digit
    · exact pin.isNameChar_letter
    · rcases List.mem_pair.mp digit with rfl | rfl <;>
        exact Text.isNameChar_of_isDigit (Text.isDigit_digitChar _)

theorem Pin.isWord_tableName (pin : Pin) : IsWord pin.tableName where
  filled := by simp [tableName]
  names := by
    intro char member
    rw [tableName, String.toList_ofList] at member
    rcases List.mem_cons.mp member with rfl | member
    · decide
    rcases List.mem_cons.mp member with rfl | member
    · exact pin.isNameChar_letter
    rcases List.mem_cons.mp member with rfl | digit
    · decide
    · exact Text.isNameChar_of_isDigit (Text.isDigit_of_mem_digitsOf digit)

theorem Pin.Variant.isWord_name (variant : Pin.Variant) : IsWord variant.name := by
  unfold Pin.Variant.name
  split
  · exact variant.base.isWord_tableName
  · exact (variant.base.isWord_tableName.append (by decide)).append (Text.isWord_decimal _)

theorem Resource.isWord_keyword {resource : Resource} (modeled : resource.isModeled = true) :
    IsWord resource.keyword := by
  rcases resource with signal | family | role | keyword
  · cases signal <;> decide
  · cases family <;> decide
  · cases role <;> decide
  · cases modeled

theorem Resource.ofKeyword_cases (keyword : String) :
    (Resource.ofKeyword keyword).isModeled = true ∨
      Resource.ofKeyword keyword = .other (Text.upper keyword) := by
  unfold Resource.ofKeyword
  dsimp only
  split <;> first | exact .inl rfl | exact .inr rfl

theorem Resource.ofKeyword_upper (keyword : String) :
    Resource.ofKeyword (Text.upper keyword) = Resource.ofKeyword keyword := by
  rw [Resource.ofKeyword, Resource.ofKeyword, Text.upper_upper]

/-- The keyword of a resource that was named by a keyword names the same resource. -/
theorem Resource.ofKeyword_keyword_ofKeyword (keyword : String) :
    Resource.ofKeyword (Resource.ofKeyword keyword).keyword = Resource.ofKeyword keyword := by
  rcases Resource.ofKeyword_cases keyword with modeled | other
  · exact ofKeyword_keyword modeled
  · rw [other, Resource.keyword, Resource.ofKeyword_upper, other]

theorem Resource.isWord_ofKeyword {keyword : String} (word : IsWord keyword) :
    IsWord (Resource.ofKeyword keyword).keyword := by
  rcases Resource.ofKeyword_cases keyword with modeled | other
  · exact isWord_keyword modeled
  · rw [other, Resource.keyword]
    constructor
    · rw [Text.toList_upper, ne_eq, List.map_eq_nil_iff]
      exact word.filled
    · intro char member
      rw [Text.toList_upper] at member
      obtain ⟨letter, inside, rfl⟩ := List.mem_map.mp member
      rw [Text.isNameChar_toUpper]
      exact word.names letter inside

end Pinout
