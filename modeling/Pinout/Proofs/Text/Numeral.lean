import Pinout.Proofs.Text.Composition

/-! Numerals as texts. Digits denote a number digit by digit; a numeral is digits, with one plus
sign in front of them or none. The reader of numerals accepts these texts and no others. -/

set_option autoImplicit false

namespace Pinout.Text

/-- The digits, one or more, denote the number. -/
inductive Denotes : List Char → Nat → Prop where
  | digit {char} : char.isDigit = true → Denotes [char] (digitValue char)
  | concat {digits value char} : Denotes digits value → char.isDigit = true →
      Denotes (digits ++ [char]) (10 * value + digitValue char)

/-- Digits that denote the number, with a plus sign in front of them or without. -/
inductive Numeral : List Char → Nat → Prop where
  | plain {digits value} : Denotes digits value → Numeral digits value
  | signed {digits value} : Denotes digits value → Numeral ('+' :: digits) value

variable {chars digits : List Char} {char : Char} {value : Nat}

theorem isDigits_concat_iff : isDigits (digits ++ [char]) = true ↔
    (∀ digit ∈ digits, digit.isDigit = true) ∧ char.isDigit = true := by
  simp [isDigits]

/-! ## Digits -/

theorem denotes_iff : Denotes digits value ↔
    isDigits digits = true ∧ digitsValue digits = value := by
  constructor
  · intro denotes
    induction denotes with
    | digit found => simp [isDigits, digitsValue, found]
    | concat _ found ih =>
        rw [isDigits_concat_iff, digitsValue_concat, ih.2]
        simp only [isDigits, Bool.and_eq_true, List.all_eq_true] at ih
        exact ⟨⟨ih.1.2, found⟩, rfl⟩
  · rintro ⟨run, rfl⟩
    induction digits using List.reverseRecOn with
    | nil => cases run
    | append_singleton front last ih =>
        obtain ⟨inside, found⟩ := isDigits_concat_iff.mp run
        rcases front with _ | ⟨first, front⟩
        · simpa [digitsValue] using Denotes.digit found
        · rw [digitsValue_concat]
          exact .concat (ih (by simpa [isDigits] using inside)) found

theorem Denotes.isDigit (denotes : Denotes digits value) (member : char ∈ digits) :
    char.isDigit = true := by
  have run := (denotes_iff.mp denotes).1
  simp only [isDigits, Bool.and_eq_true, List.all_eq_true] at run
  exact run.2 char member

theorem Denotes.unmarked (denotes : Denotes digits value) (mark : char.isDigit = false) :
    char ∉ digits :=
  fun member => Bool.false_ne_true (mark.symm.trans (denotes.isDigit member))

/-! ## Numerals -/

theorem numeral_iff : Numeral chars value ↔ Denotes (unsigned chars) value := by
  constructor
  · intro numeral
    cases numeral with
    | plain denotes => rwa [unsigned_of_isDigits (denotes_iff.mp denotes).1]
    | signed denotes => exact denotes
  · intro denotes
    unfold unsigned at denotes
    split at denotes
    · exact .signed denotes
    · exact .plain denotes

theorem Numeral.mem_cases (numeral : Numeral chars value) (member : char ∈ chars) :
    char = '+' ∨ char.isDigit = true := by
  cases numeral with
  | plain denotes => exact .inr (denotes.isDigit member)
  | signed denotes => exact (List.mem_cons.mp member).imp_right denotes.isDigit

theorem Denotes.value_eq {other : Nat} (denotes : Denotes digits value)
    (also : Denotes digits other) : value = other :=
  (denotes_iff.mp denotes).2.symm.trans (denotes_iff.mp also).2

theorem Numeral.value_eq {other : Nat} (numeral : Numeral chars value)
    (also : Numeral chars other) : value = other :=
  (numeral_iff.mp numeral).value_eq (numeral_iff.mp also)

/-- Digits are the numerals without a plus sign. -/
theorem denotes_iff_numeral : Denotes chars value ↔ Numeral chars value ∧ '+' ∉ chars := by
  constructor
  · intro denotes
    exact ⟨.plain denotes, denotes.unmarked (by decide)⟩
  · rintro ⟨numeral, bare⟩
    cases numeral with
    | plain denotes => exact denotes
    | signed _ => exact absurd List.mem_cons_self bare

theorem byte?_eq_some_iff {number : UInt8} :
    byte? chars = some number ↔ Numeral chars number.toNat := by
  simp only [byte?, Option.map_eq_some_iff, numeral?_eq_some_iff, numeral_iff, denotes_iff]
  constructor
  · rintro ⟨value, ⟨run, rfl, bounded⟩, rfl⟩
    exact ⟨run, (UInt8.toNat_ofNat_of_lt' (Nat.lt_succ_of_le bounded)).symm⟩
  · rintro ⟨run, same⟩
    exact ⟨number.toNat, ⟨run, same, Nat.le_of_lt_succ number.toNat_lt⟩, UInt8.ofNat_toNat⟩

theorem one_le_toNat_iff {number : UInt8} : 1 ≤ number.toNat ↔ number ≠ 0 := by
  rw [Nat.one_le_iff_ne_zero, ne_eq, ne_eq, ← UInt8.toNat_inj]
  rfl

end Pinout.Text
