import Pinout.Pin.Spelling
import Pinout.Proofs.Text.Numeral

/-! Spellings of pins. A board spells a pin by the letter of its port, in either case, and two
digits; a table by the capital, any number of underscores, and digits. The readers accept these
spellings and no others, and give the pin that is spelled. -/

set_option autoImplicit false

namespace Pinout.Pin

/-- The letter of a port in either case, and the number in two digits. -/
inductive BoardToken : List Char → Pin → Prop where
  | intro {pin : Pin} {letter tens units : Char} :
      letter = pin.letter ∨ letter = pin.letter.toLower →
      Text.Denotes [tens, units] pin.number.val → BoardToken [letter, tens, units] pin

/-- The capital of a port, underscores, and the number in digits. -/
inductive TablePlace : List Char → Pin → Prop where
  | intro {pin : Pin} {digits : List Char} (bars : Nat) : Text.Denotes digits pin.number.val →
      TablePlace (pin.letter :: (List.replicate bars '_' ++ digits)) pin

variable {pin : Pin} {letter char : Char} {chars word : List Char} {number : Nat}

/-! ## Ports -/

theorem toNat_letter (pin : Pin) : pin.letter.toNat = 'A'.toNat + pin.port.val := by
  have codes : ∀ port : Fin 11,
      (Char.ofNat ('A'.toNat + port.val)).toNat = 'A'.toNat + port.val := by decide
  exact codes pin.port

theorem toUpper_eq_letter_iff :
    letter.toUpper = pin.letter ↔ letter = pin.letter ∨ letter = pin.letter.toLower := by
  have smalls : ∀ small < 26, ∀ port : Fin 11,
      (Char.ofNat (97 + small)).toUpper = Char.ofNat ('A'.toNat + port.val) →
        Char.ofNat (97 + small) = (Char.ofNat ('A'.toNat + port.val)).toLower := by decide
  have capitals : ∀ port : Fin 11,
      (Char.ofNat ('A'.toNat + port.val)).toUpper = Char.ofNat ('A'.toNat + port.val) ∧
        (Char.ofNat ('A'.toNat + port.val)).toLower.toUpper =
          Char.ofNat ('A'.toNat + port.val) := by decide
  constructor
  · intro same
    rcases Text.toUpper_cases letter with kept | ⟨small, bounded, rfl⟩
    · exact .inl (kept.symm.trans same)
    · exact .inr (smalls small bounded pin.port same)
  · rintro (rfl | rfl)
    · exact (capitals pin.port).1
    · exact (capitals pin.port).2

theorem toUpper_letter (pin : Pin) : pin.letter.toUpper = pin.letter :=
  toUpper_eq_letter_iff.mpr (.inl rfl)

theorem isAlpha_of_toUpper (same : letter.toUpper = pin.letter) : letter.isAlpha = true := by
  have letters : ∀ port : Fin 11, (Char.ofNat ('A'.toNat + port.val)).isAlpha = true ∧
      (Char.ofNat ('A'.toNat + port.val)).toLower.isAlpha = true := by decide
  rcases toUpper_eq_letter_iff.mp same with rfl | rfl
  · exact (letters pin.port).1
  · exact (letters pin.port).2

theorem isUpper_iff_of_toUpper (same : letter.toUpper = pin.letter) :
    letter.isUpper = true ↔ letter = pin.letter := by
  have cases : ∀ port : Fin 11, (Char.ofNat ('A'.toNat + port.val)).isUpper = true ∧
      (Char.ofNat ('A'.toNat + port.val)).toLower.isUpper = false := by decide
  constructor
  · intro capital
    rcases toUpper_eq_letter_iff.mp same with kept | rfl
    · exact kept
    · exact absurd ((cases pin.port).2.symm.trans capital) (by decide)
  · rintro rfl
    exact (cases pin.port).1

theorem mapError_eq_ok_iff {α ε φ : Type} {change : ε → φ} {result : Except ε α} {value : α} :
    result.mapError change = .ok value ↔ result = .ok value := by
  cases result <;> simp [Except.mapError]

theorem locate_eq_ok_iff : locate letter number = .ok pin ↔
    letter.toUpper = pin.letter ∧ number = pin.number.val := by
  unfold locate
  dsimp only
  constructor
  · intro found
    split at found
    · rename_i inPorts
      split at found <;> cases found
      refine ⟨?_, rfl⟩
      rw [Pin.letter, Nat.add_sub_cancel' inPorts.1, Char.ofNat_toNat]
    · cases found
  · rintro ⟨same, rfl⟩
    have inPorts := pin.port.isLt
    simp only [same, toNat_letter]
    rw [dif_pos ⟨by omega, by omega⟩, dif_pos pin.number.isLt]
    simp

/-! ## Board tokens -/

theorem readBoardToken_eq_ok_iff : readBoardToken word = .ok pin ↔ BoardToken word pin := by
  constructor
  · intro read
    unfold readBoardToken at read
    split at read
    · cases read
    · rename_i letter digits
      split at read
      · cases read
      · split at read
        · rename_i run
          obtain ⟨same, number⟩ := locate_eq_ok_iff.mp (mapError_eq_ok_iff.mp read)
          simp only [Bool.and_eq_true, beq_iff_eq, List.all_eq_true] at run
          obtain ⟨tens, units, rfl⟩ := List.length_eq_two.mp run.1
          refine .intro (toUpper_eq_letter_iff.mp same) (Text.denotes_iff.mpr ⟨?_, number⟩)
          simpa [Text.isDigits] using run.2
        · cases read
  · rintro ⟨spelled, denotes⟩
    rename_i tens units
    have same := toUpper_eq_letter_iff.mpr spelled
    obtain ⟨run, value⟩ := Text.denotes_iff.mp denotes
    have digits : ([tens, units].length == 2 && [tens, units].all Char.isDigit) = true := by
      simpa [Text.isDigits] using run
    rw [readBoardToken, if_neg (by simp [isAlpha_of_toUpper same]), if_pos digits]
    exact mapError_eq_ok_iff.mpr (locate_eq_ok_iff.mpr ⟨same, value⟩)

/-! ## Places in tables -/

theorem TablePlace.mem_cases (spelled : TablePlace word pin) (member : char ∈ word) :
    char = pin.letter ∨ char = '_' ∨ char.isDigit = true := by
  cases spelled with
  | intro bars denotes =>
      rcases List.mem_cons.mp member with letter | member
      · exact .inl letter
      rcases List.mem_append.mp member with bar | digit
      · exact .inr (.inl (List.eq_of_mem_replicate bar))
      · exact .inr (.inr (denotes.isDigit digit))

/-- The letter, the underscores and the digits are the only characters of a place. -/
theorem TablePlace.unmarked (spelled : TablePlace word pin)
    (portless : ∀ pin : Pin, char ≠ pin.letter)
    (plain : char ≠ '_' ∧ char.isDigit = false) : char ∉ word := by
  intro member
  rcases spelled.mem_cases member with letter | bar | digit
  · exact portless pin letter
  · exact plain.1 bar
  · exact absurd (digit.symm.trans plain.2) (by decide)

theorem readPlace_eq_ok_iff : readPlace word = .ok pin ↔ TablePlace word pin := by
  constructor
  · intro read
    unfold readPlace at read
    split at read
    · cases read
    · rename_i letter rest
      split at read
      · cases read
      · rename_i capital
        dsimp only at read
        split at read
        · cases read
        · rename_i run
          split at read
          · cases read
          · obtain ⟨same, number⟩ := locate_eq_ok_iff.mp (mapError_eq_ok_iff.mp read)
            have bars : rest.takeWhile (· == '_') =
                List.replicate (rest.takeWhile (· == '_')).length '_' := by
              refine List.eq_replicate_of_mem fun bar member => ?_
              simpa using List.all_eq_true.mp List.all_takeWhile bar member
            have whole : rest = List.replicate (rest.takeWhile (· == '_')).length '_' ++
                rest.dropWhile (· == '_') := by
              rw [← bars, List.takeWhile_append_dropWhile]
            rw [(isUpper_iff_of_toUpper same).mp (by simpa using capital), whole]
            exact .intro _ (Text.denotes_iff.mpr ⟨by simpa using run, number⟩)
  · rintro ⟨bars, denotes⟩
    rename_i digits
    have same := pin.toUpper_letter
    obtain ⟨run, value⟩ := Text.denotes_iff.mp denotes
    have unbarred : (List.replicate bars '_' ++ digits).dropWhile (· == '_') = digits := by
      rw [List.dropWhile_append_of_pos (by simp), Text.dropWhile_eq_self]
      intro char first
      rw [beq_eq_false_iff_ne]
      rintro rfl
      exact denotes.unmarked (by decide) (List.mem_of_head? first)
    have small := pin.number.isLt
    simp only [readPlace, unbarred, run, value, (isUpper_iff_of_toUpper same).mpr rfl,
      Bool.not_true, Bool.false_eq_true, if_false]
    rw [if_neg (by omega), mapError_eq_ok_iff, locate_eq_ok_iff]
    exact ⟨same, rfl⟩

end Pinout.Pin
