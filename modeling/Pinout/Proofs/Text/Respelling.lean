import Pinout.Proofs.Text.Case
import Pinout.Proofs.Text.Composition

/-! Spellings of a text that differ in letter case and in the blanks around it. The capitals of
what stands between the blanks are the same for all of them, and no other text has them. -/

set_option autoImplicit false

namespace Pinout.Text

/-- A text of blanks alone, or of nothing. -/
def Blank (text : String) : Prop :=
  ∀ char ∈ text.toList, isBlank char = true

/-- A spelling turns into another one when letters change their case, when blanks are put around
it, and when such changes are undone or follow each other. -/
inductive Respelled : String → String → Prop where
  | recase {text other} : SameLetters text other → Respelled text other
  | surround {before text after} : Blank before → Blank after →
      Respelled text (before ++ text ++ after)
  | symm {text other} : Respelled text other → Respelled other text
  | trans {text other third} : Respelled text other → Respelled other third →
      Respelled text third

variable {text other : String}

theorem isBlank_toUpper (char : Char) : isBlank char.toUpper = isBlank char := by
  rcases toUpper_cases char with same | ⟨letter, small, rfl⟩
  · rw [same]
  · revert letter
    decide

theorem trim_map_toUpper (chars : List Char) :
    trim (chars.map Char.toUpper) = (trim chars).map Char.toUpper := by
  have blanks : isBlank ∘ Char.toUpper = isBlank := funext isBlank_toUpper
  simp only [trim, trimEnd, trimStart, List.dropWhile_map, ← List.map_reverse, blanks]

/-- A text is what trimming leaves, with blanks around it. -/
theorem exists_trim_surrounded (text : String) : ∃ before after,
    text = before ++ String.ofList (trim text.toList) ++ after ∧ Blank before ∧ Blank after := by
  have whole : text.toList.takeWhile isBlank ++ trim text.toList ++
      ((trimStart text.toList).reverse.takeWhile isBlank).reverse = text.toList := by
    rw [trim, trimEnd, List.append_assoc, ← List.reverse_append, List.takeWhile_append_dropWhile,
      List.reverse_reverse, trimStart, List.takeWhile_append_dropWhile]
  refine ⟨String.ofList (text.toList.takeWhile isBlank),
    String.ofList ((trimStart text.toList).reverse.takeWhile isBlank).reverse, ?_, ?_, ?_⟩
  · rw [← String.toList_inj, String.toList_append, String.toList_append, String.toList_ofList,
      String.toList_ofList, String.toList_ofList, whole]
  · intro char member
    rw [String.toList_ofList] at member
    exact List.all_eq_true.mp List.all_takeWhile char member
  · intro char member
    rw [String.toList_ofList, List.mem_reverse] at member
    exact List.all_eq_true.mp List.all_takeWhile char member

theorem respelled_iff : Respelled text other ↔
    (trim text.toList).map Char.toUpper = (trim other.toList).map Char.toUpper := by
  constructor
  · intro respelled
    induction respelled with
    | recase letters =>
        have same := congrArg String.toList (sameLetters_iff.mp letters)
        rw [toList_upper, toList_upper] at same
        rw [← trim_map_toUpper, ← trim_map_toUpper, same]
    | surround before after =>
        rw [String.toList_append, String.toList_append, List.append_assoc,
          trim_blanks_append before, trim_append_blanks after]
    | symm _ ih => exact ih.symm
    | trans _ _ first second => exact first.trans second
  · intro same
    have trimmed (text : String) : Respelled (String.ofList (trim text.toList)) text := by
      obtain ⟨before, after, whole, blank, blank'⟩ := exists_trim_surrounded text
      have surrounded : Respelled (String.ofList (trim text.toList))
          (before ++ String.ofList (trim text.toList) ++ after) := .surround blank blank'
      rwa [← whole] at surrounded
    have letters : SameLetters (String.ofList (trim text.toList))
        (String.ofList (trim other.toList)) := by
      rw [sameLetters_iff, ← String.toList_inj]
      simpa using same
    exact (trimmed text).symm.trans ((Respelled.recase letters).trans (trimmed other))

end Pinout.Text
