import Pinout.Header.Device
import Pinout.Proofs.Header.Lines
import Pinout.Proofs.Text.Word

/-! The wording of lines. Lines are told apart by how they open, whatever follows, and by a
few characters that plain text does not have. -/

set_option autoImplicit false

namespace Pinout.Header

open Resolution (Bus Placement)
open Text (IsWord Without letters letters_eq)

/-! ## Plain text -/

/-- Without ends of lines, backslashes and closing parentheses. -/
abbrev Plain (text : String) : Prop :=
  Without ['\n', '\r', '\\', ')'] text

theorem plain_of_isWord {text : String} (word : IsWord text) : Plain text :=
  word.without (by decide)

theorem plain_toString (value : Nat) : Plain (toString value) :=
  plain_of_isWord (Text.isWord_toString value)

theorem plain_index (index : UInt8) : Plain (toString index) :=
  plain_toString index.toNat

theorem plain_target (target : Instance) : Plain target.name :=
  plain_of_isWord target.isWord

theorem isWord_pinName (placement : Option Placement) : IsWord (pinName placement) := by
  cases placement with
  | none => decide
  | some placement => exact placement.variant.isWord_name

theorem isWord_pinOrZero (placement : Option Placement) : IsWord (pinOrZero placement) := by
  cases placement with
  | none => decide
  | some placement => exact placement.variant.isWord_name

theorem plain_pinName (placement : Option Placement) : Plain (pinName placement) :=
  plain_of_isWord (isWord_pinName placement)

theorem plain_signalPin (bus : Bus) (signal : Signal) : Plain (signalPin bus signal) :=
  plain_pinName _

theorem plain_pinOrZero (placement : Option Placement) : Plain (pinOrZero placement) :=
  plain_of_isWord (isWord_pinOrZero placement)

theorem without_braced {marks : List Char} {values : List String}
    (brackets : Without marks "\x7b, \x7d") (free : ∀ value ∈ values, Without marks value) :
    Without marks (braced values) :=
  ((brackets.of_subset (by decide)).append
    (Without.intercalate (brackets.of_subset (by decide)) free)).append
      (brackets.of_subset (by decide))

theorem plain_braced {values : List String} (plain : ∀ value ∈ values, Plain value) :
    Plain (braced values) :=
  without_braced (by decide) plain

/-! ## Openings -/

/-- The opening of the declaration of a constant. -/
def declarationHead (type name : String) : String :=
  "static constexpr " ++ type ++ " " ++ name ++ "\x7b"

def declaration (type name : String) (values : List String) : String :=
  "static constexpr " ++ type ++ " " ++ name ++ braced values ++ ";"

theorem plain_declaration {type name : String} {values : List String}
    (opening : Plain ("static constexpr " ++ type ++ " " ++ name))
    (plain : ∀ value ∈ values, Plain value) : Plain (declaration type name values) :=
  (opening.append (plain_braced plain)).append (by decide)

theorem declarationHead_prefix (type name : String) (values : List String) :
    (declarationHead type name).toList <+: (declaration type name values).toList := by
  refine ⟨(", ".intercalate values ++ "\x7d" ++ ";").toList, ?_⟩
  rw [← String.toList_append]
  have regrouped : "static constexpr " ++ type ++ " " ++ name ++ "\x7b" ++
        (", ".intercalate values ++ "\x7d" ++ ";") =
      "static constexpr " ++ type ++ " " ++ name ++
        ("\x7b" ++ ", ".intercalate values ++ "\x7d") ++ ";" := by
    simp only [String.append_assoc]
  exact congrArg String.toList regrouped

theorem declarationHead_toList_ne_nil (type name : String) :
    (declarationHead type name).toList ≠ [] := by
  have brace : "\x7b".toList ≠ [] := by decide
  have divided : (declarationHead type name).toList =
      ("static constexpr " ++ type ++ " " ++ name).toList ++ "\x7b".toList :=
    String.toList_append
  rw [divided]
  exact List.append_ne_nil_of_right_ne_nil _ brace

/-- The openings of the declarations of devices that take a whole bus. -/
def deviceHeads : List String :=
  [declarationHead "StorageConfig" "storage", declarationHead "SPIConfig" "imu_spi",
    declarationHead "IMUConfig" "imu"]

/-- A text that does not start with a blank, so that indentation ends where it starts. -/
structure Flush (text : String) : Prop where
  filled : text.toList ≠ []
  bare : unindented text.toList = text.toList

instance (text : String) : Decidable (Flush text) :=
  decidable_of_iff (letters text ≠ [] ∧ unindented (letters text) = letters text) <| by
    rw [letters_eq]
    exact ⟨fun ⟨filled, bare⟩ => ⟨filled, bare⟩, fun flush => ⟨flush.filled, flush.bare⟩⟩

theorem Flush.append {front : String} (flush : Flush front) (back : String) :
    Flush (front ++ back) where
  filled := by
    rw [String.toList_append]
    exact List.append_ne_nil_of_left_ne_nil flush.filled _
  bare := by
    have filled : unindented front.toList ≠ [] := by
      rw [flush.bare]
      exact flush.filled
    rw [String.toList_append, unindented_append filled, flush.bare]

/-- Behind its indentation, the line neither starts with the text nor starts the text. -/
structure Apart (text line : String) : Prop where
  not_starts : ¬ text.toList <+: unindented line.toList
  not_started : ¬ unindented line.toList <+: text.toList

instance (text line : String) : Decidable (Apart text line) :=
  decidable_of_iff (¬ letters text <+: unindented (letters line) ∧
      ¬ unindented (letters line) <+: letters text) <| by
    rw [letters_eq, letters_eq]
    exact ⟨fun ⟨starts, started⟩ => ⟨starts, started⟩, fun apart => ⟨apart.1, apart.2⟩⟩

/-- A line that is apart from a text stays so, whatever follows. -/
theorem Apart.append {text front : String} (apart : Apart text front) (back : String) :
    Apart text (front ++ back) := by
  have filled : unindented front.toList ≠ [] := by
    intro empty
    refine apart.not_started ?_
    rw [empty]
    exact List.nil_prefix
  have longer := unindented_append filled back.toList
  constructor
  · intro starts
    rw [String.toList_append, longer] at starts
    rcases List.prefix_or_prefix_of_prefix starts (List.prefix_append _ _) with before | after
    · exact apart.not_starts before
    · exact apart.not_started after
  · intro started
    rw [String.toList_append, longer] at started
    exact apart.not_started ((List.prefix_append _ _).trans started)

theorem Apart.extend {text line : String} (apart : Apart text line) (more : String) :
    Apart (text ++ more) line := by
  constructor
  · intro starts
    rw [String.toList_append] at starts
    exact apart.not_starts ((List.prefix_append _ _).trans starts)
  · intro started
    rw [String.toList_append] at started
    rcases List.prefix_or_prefix_of_prefix started (List.prefix_append _ _) with before | after
    · exact apart.not_started before
    · exact apart.not_starts after

/-! ## Worded lines -/

/-- A line of plain text that declares no device. -/
structure Worded (content : String) : Prop where
  plain : Plain content
  apart : ∀ head ∈ deviceHeads, Apart head content

theorem apart_deviceHeads {line : String} (apart : Apart "static constexpr " line) :
    ∀ head ∈ deviceHeads, Apart head line := by
  have opening (type name : String) : Apart (declarationHead type name) line :=
    (((apart.extend type).extend " ").extend name).extend "\x7b"
  simp only [deviceHeads, List.forall_mem_cons]
  exact ⟨opening _ _, opening _ _, opening _ _, List.forall_mem_nil _⟩

/-- Most lines declare nothing, which their first words show. -/
instance (content : String) : Decidable (Worded content) :=
  decidable_of_iff (Plain content ∧
      (Apart "static constexpr " content ∨ ∀ head ∈ deviceHeads, Apart head content))
    ⟨fun ⟨plain, apart⟩ => ⟨plain, apart.elim apart_deviceHeads id⟩,
      fun worded => ⟨worded.plain, .inr worded.apart⟩⟩

theorem Worded.append {front back : String} (worded : Worded front) (plain : Plain back) :
    Worded (front ++ back) where
  plain := worded.plain.append plain
  apart := fun head member => (worded.apart head member).append back

end Pinout.Header
