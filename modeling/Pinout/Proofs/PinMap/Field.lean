import Pinout.PinMap.Section
import Pinout.Proofs.Text.Composition

/-! Fields of rows and arguments of macro calls. Fields that were joined by commas and blanks
are read back one by one, also when one of them is a call with commas of its own. -/

set_option autoImplicit false

namespace Pinout.PinMap

open Text (IsWord Trimmed isNameChar)

variable {depth final : Int} {chars rest : List Char} {fields : List (List Char)}

/-! ## Cutting at commas -/

/-- A text that leads from one depth to another and is not cut in between. -/
inductive Uncut : Int → List Char → Int → Prop
  | nil {depth : Int} : Uncut depth [] depth
  | opening {depth final : Int} {char : Char} {rest : List Char} (opens : char = '(' ∨ char = '{')
    (uncut : Uncut (depth + 1) rest final) : Uncut depth (char :: rest) final
  | closing {depth final : Int} {char : Char} {rest : List Char} (shuts : char = ')' ∨ char = '}')
    (uncut : Uncut (depth - 1) rest final) : Uncut depth (char :: rest) final
  | comma {depth final : Int} {rest : List Char} (inside : depth ≠ 0)
    (uncut : Uncut depth rest final) : Uncut depth (',' :: rest) final
  | other {depth final : Int} {char : Char} {rest : List Char}
    (plain : char ∉ ['(', '{', ')', '}', ',']) (uncut : Uncut depth rest final) :
    Uncut depth (char :: rest) final

theorem cutAtCommas_append (uncut : Uncut depth chars final) (rest : List Char) :
    cutAtCommas depth (chars ++ rest) = (cutAtCommas final rest).modifyHead (chars ++ ·) := by
  have grown (char : Char) (chars : List Char) (pieces : List (List Char)) :
      (pieces.modifyHead (chars ++ ·)).modifyHead (char :: ·) =
        pieces.modifyHead ((char :: chars) ++ ·) :=
    List.modifyHead_modifyHead
  induction uncut with
  | @nil depth => cases cut : cutAtCommas depth rest <;> simp [cut]
  | opening opens _ ih =>
      rw [List.cons_append, cutAtCommas, if_pos opens, ih, grown]
  | @closing _ _ char _ shuts _ ih =>
      have unopened : ¬(char = '(' ∨ char = '{') := by
        rcases shuts with rfl | rfl <;> decide
      rw [List.cons_append, cutAtCommas, if_neg unopened, if_pos shuts, ih, grown]
  | comma inside _ ih =>
      rw [List.cons_append, cutAtCommas, if_neg (by decide), if_neg (by decide),
        if_neg (by simp [inside]), ih, grown]
  | other plain _ ih =>
      simp only [List.mem_cons, List.not_mem_nil, or_false, not_or] at plain
      rw [List.cons_append, cutAtCommas, if_neg (by simp [plain]), if_neg (by simp [plain]),
        if_neg (by simp [plain]), ih, grown]

theorem Uncut.append {middle : Int} (first : Uncut depth chars middle)
    (second : Uncut middle rest final) : Uncut depth (chars ++ rest) final := by
  induction first with
  | nil => exact second
  | opening opens _ ih => exact .opening opens (ih second)
  | closing shuts _ ih => exact .closing shuts (ih second)
  | comma inside _ ih => exact .comma inside (ih second)
  | other plain _ ih => exact .other plain (ih second)

theorem uncut_of_names (names : ∀ char ∈ chars, isNameChar char = true) :
    Uncut depth chars depth := by
  have marks : ['(', '{', ')', '}', ','].all (fun mark => !isNameChar mark) = true := by decide
  induction chars with
  | nil => exact .nil
  | cons char chars ih =>
      obtain ⟨named, others⟩ := List.forall_mem_cons.mp names
      refine .other (fun mark => ?_) (ih others)
      have unnamed := List.all_eq_true.mp marks char mark
      rw [named] at unnamed
      cases unnamed

/-! ## Fields -/

/-- A text that is one field as it stands. -/
structure Whole (chars : List Char) : Prop where
  uncut : Uncut 0 chars 0
  trimmed : Trimmed chars
  filled : chars ≠ []

theorem whole_of_isWord {text : String} (word : IsWord text) : Whole text.toList where
  uncut := uncut_of_names word.names
  trimmed := word.solid.trimmed
  filled := word.filled

theorem cutAtCommas_intercalate {field : List Char} {others : List (List Char)}
    (whole : ∀ piece ∈ field :: others, Whole piece) :
    cutAtCommas 0 ([',', ' '].intercalate (field :: others)) =
      field :: others.map (' ' :: ·) := by
  induction others generalizing field with
  | nil =>
      have last := cutAtCommas_append (whole field List.mem_cons_self).uncut []
      simpa [cutAtCommas] using last
  | cons next others ih =>
      obtain ⟨here, behind⟩ := List.forall_mem_cons.mp whole
      rw [List.intercalate_cons_cons, List.append_assoc, cutAtCommas_append here.uncut,
        List.cons_append, List.cons_append, List.nil_append, cutAtCommas, if_neg (by decide),
        if_neg (by decide), if_pos (by decide), cutAtCommas, if_neg (by decide),
        if_neg (by decide), if_neg (by decide), ih behind]
      simp

/-- Fields that were joined are read back. -/
theorem fields_intercalate (whole : ∀ field ∈ fields, Whole field) :
    PinMap.fields ([',', ' '].intercalate fields) = fields := by
  cases fields with
  | nil => rfl
  | cons field others =>
      have trimmed : (field :: others.map (' ' :: ·)).map Text.trim = field :: others := by
        rw [List.map_cons, List.map_map]
        congr 1
        · exact Text.trim_eq_self (whole field List.mem_cons_self).trimmed
        · calc others.map (Text.trim ∘ (' ' :: ·)) = others.map id := by
                refine List.map_congr_left fun other member => ?_
                rw [Function.comp_apply, Text.trim_cons_blank (by decide)]
                exact Text.trim_eq_self (whole other (List.mem_cons_of_mem _ member)).trimmed
            _ = others := List.map_id others
      have kept : (field :: others).getLast? ≠ some [] :=
        fun last => (whole [] (List.mem_of_getLast? last)).filled rfl
      rw [PinMap.fields, cutAtCommas_intercalate whole, trimmed, if_neg kept]

/-! ## Macro calls -/

def callText (name : List Char) (arguments : List (List Char)) : List Char :=
  name ++ '(' :: ([',', ' '].intercalate arguments ++ [')'])

theorem callArguments?_callText {name : List Char} (unopened : '(' ∉ name)
    (whole : ∀ argument ∈ fields, Whole argument) :
    callArguments? (callText name fields) = some fields := by
  have cut : Text.cut? ['('] (name ++ '(' :: ([',', ' '].intercalate fields ++ [')'])) =
      some (name, [',', ' '].intercalate fields ++ [')']) := Text.cut?_append unopened
  have ending : Text.trimEnd ([',', ' '].intercalate fields ++ [')']) =
      [',', ' '].intercalate fields ++ [')'] := by
    rw [Text.trimEnd, List.reverse_concat, List.dropWhile_cons_of_neg (by decide),
      ← List.reverse_concat, List.reverse_reverse]
  simp only [callArguments?, callText, cut, Option.bind_eq_bind, Option.bind_some, ending,
    List.getLast?_concat, if_true, List.dropLast_concat, fields_intercalate whole]

/-- Words with commas between them are not cut where a group is open. -/
theorem uncut_intercalate (inside : depth ≠ 0)
    (names : ∀ field ∈ fields, ∀ char ∈ field, isNameChar char = true) :
    Uncut depth ([',', ' '].intercalate fields) depth := by
  induction fields with
  | nil => exact .nil
  | cons field others ih =>
      obtain ⟨here, behind⟩ := List.forall_mem_cons.mp names
      cases others with
      | nil => simpa using uncut_of_names here
      | cons next others =>
          rw [List.intercalate_cons_cons, List.append_assoc]
          exact (uncut_of_names here).append (.comma inside (.other (by decide) (ih behind)))

theorem whole_callText {name : List Char} (named : ∀ char ∈ name, isNameChar char = true)
    (filled : name ≠ []) (names : ∀ field ∈ fields, ∀ char ∈ field, isNameChar char = true) :
    Whole (callText name fields) where
  uncut := by
    have inner : Uncut 1 ([',', ' '].intercalate fields) 1 := uncut_intercalate (by decide) names
    exact (uncut_of_names named).append
      (.opening (.inl rfl) (inner.append (.closing (.inl rfl) .nil)))
  trimmed := by
    have solid : Text.Solid name :=
      fun char member => Text.isBlank_of_isNameChar (named char member)
    have around := solid.trimmed.around (by decide : Text.Solid [')']).trimmed
      ('(' :: [',', ' '].intercalate fields) filled (by simp)
    simpa [callText] using around
  filled := by simp [callText, filled]

end Pinout.PinMap
