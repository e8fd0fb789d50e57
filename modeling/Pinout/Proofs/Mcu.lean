import Pinout.Mcu
import Pinout.Proofs.Text.Respelling

/-! Canonical names of microcontrollers. The canonical form of a name is its own canonical form,
so that it makes no difference how often a name is brought to that form. All spellings of a name
have one canonical form, a text of capitals, digits and underscores, and a canonical name that
starts with a supported one is that one. -/

set_option autoImplicit false

namespace Pinout.Mcu

variable {chars : List Char} {text mcu : String}

theorem addFamily_addFamily (chars : List Char) :
    addFamily (addFamily chars) = addFamily chars := by
  by_cases short : (isShort chars && !familyMark.isPrefixOf chars) = true
  · have marked : familyMark.isPrefixOf (familyMark ++ chars) = true :=
      List.isPrefixOf_iff_prefix.mpr (List.prefix_append familyMark chars)
    rw [addFamily, addFamily, if_pos short, if_neg (by simp [marked])]
  · rw [addFamily, addFamily, if_neg short, if_neg short]

theorem all_addFamily (named : chars.all Text.isNameChar = true) :
    (addFamily chars).all Text.isNameChar = true := by
  unfold addFamily
  split
  · rw [List.all_append, named]
    rfl
  · exact named

theorem map_toUpper_addFamily (large : chars.map Char.toUpper = chars) :
    (addFamily chars).map Char.toUpper = addFamily chars := by
  unfold addFamily
  split
  · rw [List.map_append, large]
    rfl
  · exact large

theorem addFamily_ne_nil (filled : chars ≠ []) : addFamily chars ≠ [] := by
  unfold addFamily
  split
  · exact List.append_ne_nil_of_right_ne_nil _ filled
  · exact filled

theorem normalize?_eq_some_iff :
    normalize? text = some mcu ↔
      let capitals := (Text.trim text.toList).map Char.toUpper
      capitals ≠ [] ∧ capitals.all Text.isNameChar = true ∧
        reduceToBuiltin (addFamily capitals) = mcu := by
  have guard {capitals : List Char} :
      (!capitals.isEmpty && capitals.all Text.isNameChar) = true ↔
        capitals ≠ [] ∧ capitals.all Text.isNameChar = true := by
    simp
  dsimp only
  rw [← and_assoc, ← guard, normalize?]
  split
  · rename_i named
    rw [Option.some.injEq, and_iff_right named]
  · rename_i unnamed
    exact iff_of_false nofun fun named => unnamed named.1

theorem reduceToBuiltin_cases (full : List Char) :
    (∃ directories, (reduceToBuiltin full, directories) ∈ builtin) ∨
      reduceToBuiltin full = String.ofList full := by
  unfold reduceToBuiltin
  split
  · rename_i directories found
    exact .inl ⟨directories, List.mem_of_find?_eq_some found⟩
  · exact .inr rfl

/-- Supported names are canonical. -/
theorem normalize?_builtin {directories : List String} (listed : (mcu, directories) ∈ builtin) :
    normalize? mcu = some mcu := by
  have each : ∀ name ∈ builtin.map Prod.fst, normalize? name = some name := by decide +kernel
  exact each mcu (List.mem_map_of_mem listed)

/-- A full name in capitals has no blanks to drop and no family mark to add. -/
theorem normalize?_full (filled : chars ≠ [])
    (named : chars.all Text.isNameChar = true)
    (large : chars.map Char.toUpper = chars) :
    normalize? (String.ofList chars) = some (reduceToBuiltin (addFamily chars)) := by
  have solid : Text.Solid chars := fun char member =>
    Text.isBlank_of_isNameChar (List.all_eq_true.mp named char member)
  refine normalize?_eq_some_iff.mpr ?_
  rw [String.toList_ofList, Text.trim_eq_self solid.trimmed, large]
  exact ⟨filled, named, rfl⟩

/-- A canonical name is its own canonical form. -/
theorem normalize?_of_normalize? (found : normalize? text = some mcu) :
    normalize? mcu = some mcu := by
  obtain ⟨filled, named, rfl⟩ := normalize?_eq_some_iff.mp found
  have large := Text.map_toUpper_map_toUpper (Text.trim text.toList)
  rcases reduceToBuiltin_cases (addFamily ((Text.trim text.toList).map Char.toUpper)) with
    ⟨directories, listed⟩ | full
  · exact normalize?_builtin listed
  · rw [full, normalize?_full (addFamily_ne_nil filled) (all_addFamily named)
      (map_toUpper_addFamily large), addFamily_addFamily, full]

/-! ## The form of canonical names -/

/-- Spellings of a name have one canonical form. -/
theorem normalize?_respelled {other : String} (respelled : Text.Respelled text other) :
    normalize? other = normalize? text := by
  rw [normalize?, normalize?, Text.respelled_iff.mp respelled]

/-- The characters of canonical names. -/
def IsCanonicalChar (char : Char) : Prop :=
  char.isUpper = true ∨ char.isDigit = true ∨ char = '_'

instance (char : Char) : Decidable (IsCanonicalChar char) :=
  inferInstanceAs (Decidable (_ ∨ _ ∨ _))

theorem isCanonicalChar_of_toUpper {char : Char} (named : Text.isNameChar char = true)
    (large : char.toUpper = char) : IsCanonicalChar char := by
  have capital : char.isLower = false := Text.toUpper_eq_self_iff.mp large
  have letter : char.isAlpha = (char.isUpper || char.isLower) := rfl
  simpa [IsCanonicalChar, Text.isNameChar, Char.isAlphanum, letter, capital, or_assoc] using named

/-- A canonical name is a supported one, or it is written in canonical characters and starts with
no supported one. -/
theorem normalize?_cases (found : normalize? text = some mcu) :
    (∃ directories, (mcu, directories) ∈ builtin) ∨
      (mcu.toList ≠ [] ∧ (∀ char ∈ mcu.toList, IsCanonicalChar char) ∧
        ∀ entry ∈ builtin, ¬ entry.1.toList <+: mcu.toList) := by
  obtain ⟨filled, named, rfl⟩ := normalize?_eq_some_iff.mp found
  have large := Text.map_toUpper_map_toUpper (Text.trim text.toList)
  generalize (Text.trim text.toList).map Char.toUpper = name at filled named large ⊢
  unfold reduceToBuiltin
  split
  · rename_i supported directories listed
    exact .inl ⟨directories, List.mem_of_find?_eq_some listed⟩
  · rename_i unlisted
    refine .inr ⟨?_, ?_, ?_⟩
    · rw [String.toList_ofList]
      exact addFamily_ne_nil filled
    · intro char member
      rw [String.toList_ofList] at member
      exact isCanonicalChar_of_toUpper (List.all_eq_true.mp (all_addFamily named) char member)
        (Text.toUpper_of_mem (map_toUpper_addFamily large) member)
    · intro entry listed start
      rw [String.toList_ofList, ← List.isPrefixOf_iff_prefix] at start
      exact List.find?_eq_none.mp unlisted entry listed start

theorem filled_of_normalize? (found : normalize? text = some mcu) : mcu.toList ≠ [] := by
  have supported : ∀ entry ∈ builtin, entry.1.toList ≠ [] := by decide
  rcases normalize?_cases found with ⟨directories, listed⟩ | ⟨filled, -, -⟩
  · exact supported _ listed
  · exact filled

theorem isCanonicalChar_of_normalize? {char : Char} (found : normalize? text = some mcu)
    (member : char ∈ mcu.toList) : IsCanonicalChar char := by
  have supported : ∀ entry ∈ builtin, entry.1.toList.all (IsCanonicalChar ·) = true := by decide
  rcases normalize?_cases found with ⟨directories, listed⟩ | ⟨-, canonical, -⟩
  · exact of_decide_eq_true (List.all_eq_true.mp (supported _ listed) char member)
  · exact canonical char member

/-- Supported names do not start with each other, and no other canonical name starts with one. -/
theorem eq_of_builtin_prefix {entry : String × List String} (found : normalize? text = some mcu)
    (listed : entry ∈ builtin) (start : entry.1.toList <+: mcu.toList) : mcu = entry.1 := by
  have apart : ∀ entry ∈ builtin, ∀ other ∈ builtin, entry.1.toList <+: other.1.toList →
      other.1 = entry.1 := by decide
  rcases normalize?_cases found with ⟨directories, supported⟩ | ⟨-, -, unlisted⟩
  · exact apart entry listed _ supported start
  · exact absurd start (unlisted entry listed)

end Pinout.Mcu
