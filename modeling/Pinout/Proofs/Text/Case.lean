import Pinout.Proofs.Text.Word

/-! Letter case. Two texts that differ in the case of ASCII letters at most have the same capitals
and the same small letters; a text in capitals has no small letter. -/

set_option autoImplicit false

namespace Pinout.Text

/-- The texts differ in the case of ASCII letters at most. -/
def SameLetters (left right : String) : Prop :=
  lower left = lower right

instance (left right : String) : Decidable (SameLetters left right) :=
  decEq (lower left) (lower right)

/-- A text without small letters; other characters do not matter. -/
def InCapitals (text : String) : Prop :=
  ∀ char ∈ text.toList, char.isLower = false

instance (text : String) : Decidable (InCapitals text) :=
  List.decidableBAll _ _

variable {left right text : String}

theorem toLower_toUpper (char : Char) : char.toUpper.toLower = char.toLower := by
  rcases toUpper_cases char with same | ⟨letter, small, rfl⟩
  · rw [same]
  · revert letter
    decide

theorem toUpper_toLower (char : Char) : char.toLower.toUpper = char.toUpper := by
  rcases toLower_cases char with same | ⟨letter, capital, rfl⟩
  · rw [same]
  · revert letter
    decide

theorem lower_upper (text : String) : lower (upper text) = lower text := by
  rw [← String.toList_inj, toList_lower, toList_upper, toList_lower, List.map_map]
  exact List.map_congr_left fun char _ => toLower_toUpper char

theorem upper_lower (text : String) : upper (lower text) = upper text := by
  rw [← String.toList_inj, toList_upper, toList_lower, toList_upper, List.map_map]
  exact List.map_congr_left fun char _ => toUpper_toLower char

theorem sameLetters_iff : SameLetters left right ↔ upper left = upper right := by
  constructor
  · intro same
    rw [← upper_lower left, same, upper_lower]
  · intro same
    rw [SameLetters, ← lower_upper left, same, lower_upper]

theorem toUpper_of_mem {chars : List Char} {char : Char} (large : chars.map Char.toUpper = chars)
    (member : char ∈ chars) : char.toUpper = char := by
  rw [← large] at member
  obtain ⟨origin, -, rfl⟩ := List.mem_map.mp member
  exact toUpper_toUpper origin

theorem toUpper_eq_self_iff {char : Char} : char.toUpper = char ↔ char.isLower = false := by
  by_cases small : 97 ≤ char.toNat ∧ char.toNat ≤ 122
  · have letters : ∀ letter < 26, (Char.ofNat (97 + letter)).toUpper = Char.ofNat (97 + letter) ↔
        (Char.ofNat (97 + letter)).isLower = false := by decide
    have spelled := letters (char.toNat - 97) (by omega)
    rwa [Nat.add_sub_cancel' small.1, Char.ofNat_toNat] at spelled
  · have other : char.isLower = false := by
      rw [← Bool.not_eq_true]
      intro lower
      have bounds := Bool.and_eq_true_iff.mp lower
      exact small ⟨of_decide_eq_true bounds.1, of_decide_eq_true bounds.2⟩
    exact iff_of_true (dif_neg small) other

theorem inCapitals_iff : InCapitals text ↔ upper text = text := by
  have same : text.toList.map Char.toUpper = text.toList ↔
      ∀ char ∈ text.toList, char.toUpper = char := by
    simpa using List.map_inj_left (f := Char.toUpper) (g := id) (l := text.toList)
  rw [← String.toList_inj, toList_upper, same]
  exact forall₂_congr fun char _ => toUpper_eq_self_iff.symm

/-- A text in capitals is the capital spelling of just those texts that have its letters. -/
theorem eq_upper_iff : left = upper right ↔ SameLetters left right ∧ InCapitals left := by
  rw [sameLetters_iff, inCapitals_iff]
  constructor
  · rintro rfl
    exact ⟨upper_upper right, upper_upper right⟩
  · rintro ⟨same, capital⟩
    rw [← capital, same]

end Pinout.Text
