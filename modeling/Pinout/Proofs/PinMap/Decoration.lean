import Pinout.PinMap.Comment
import Pinout.Proofs.Text.Word

/-! Pieces of a text with comments, blank lines and preprocessor lines between them. Stripping
leaves the pieces as they are and blanks between them. -/

set_option autoImplicit false

namespace Pinout.PinMap

open Text (isBlank Without)

variable {fresh : Bool} {chars gap : List Char}

/-! ## Gaps -/

/-- A stretch of text that says nothing: blanks, comments that end with their line, and
preprocessor lines. The flag says that the line has been blank so far. -/
inductive Gap : Bool → List Char → Prop
  | nil {fresh : Bool} : Gap fresh []
  | blank {fresh : Bool} {rest : List Char} (char : Char) (white : isBlank char = true)
    (level : char ≠ '\n') (gap : Gap fresh rest) : Gap fresh (char :: rest)
  | feed {fresh : Bool} {rest : List Char} (gap : Gap true rest) : Gap fresh ('\n' :: rest)
  | comment {fresh : Bool} {rest : List Char} (words : List Char) (single : '\n' ∉ words)
    (gap : Gap true rest) : Gap fresh ('/' :: '/' :: (words ++ '\n' :: rest))
  | directive {rest : List Char} (words : List Char) (single : '\n' ∉ words)
    (gap : Gap true rest) : Gap true ('#' :: (words ++ '\n' :: rest))

def Blank (chars : List Char) : Prop :=
  ∀ char ∈ chars, isBlank char = true

theorem Blank.cons {char : Char} (white : isBlank char = true) (blank : Blank chars) :
    Blank (char :: chars) :=
  List.forall_mem_cons.mpr ⟨white, blank⟩

instance (chars : List Char) : Decidable (Blank chars) :=
  List.decidableBAll _ _

theorem Blank.silent (blank : Blank chars) : Gap fresh chars := by
  induction chars generalizing fresh with
  | nil => exact .nil
  | cons char chars ih =>
      obtain ⟨white, others⟩ := List.forall_mem_cons.mp blank
      by_cases feed : char = '\n'
      · subst feed
        exact .feed (ih others)
      · exact .blank char white feed (ih others)

section Steps

variable {char : Char} {rest words : List Char}

theorem stripFrom_line_append (single : '\n' ∉ words) (rest : List Char) :
    stripFrom .line (words ++ rest) = stripFrom .line rest := by
  induction words with
  | nil => rfl
  | cons first words ih =>
      rw [List.mem_cons, not_or] at single
      have other : first ≠ '\n' := Ne.symm single.1
      simpa [stripFrom, Zone.keeps, Zone.after, other] using ih single.2

theorem stripFrom_line (words : List Char) (single : '\n' ∉ words) :
    stripFrom .line (words ++ '\n' :: rest) = '\n' :: stripFrom (.code true) rest :=
  stripFrom_line_append single _

theorem stripFrom_line_end (single : '\n' ∉ words) : stripFrom .line words = [] := by
  simpa [stripFrom] using stripFrom_line_append single []

theorem stripFrom_blank (white : isBlank char = true) (level : char ≠ '\n') :
    stripFrom (.code fresh) (char :: rest) = char :: stripFrom (.code fresh) rest := by
  have solid : char ≠ '/' ∧ char ≠ '#' := by
    constructor <;> rintro rfl <;> exact absurd white (by decide)
  simp [stripFrom, Zone.keeps, Zone.after, solid, level, white]

theorem stripFrom_feed :
    stripFrom (.code fresh) ('\n' :: rest) = '\n' :: stripFrom (.code true) rest := by
  simp [stripFrom, Zone.keeps, Zone.after]

theorem stripFrom_comment (single : '\n' ∉ words) :
    stripFrom (.code fresh) ('/' :: '/' :: (words ++ '\n' :: rest)) =
      '\n' :: stripFrom (.code true) rest := by
  have slash : stripFrom .line ('/' :: (words ++ '\n' :: rest)) =
      '\n' :: stripFrom (.code true) rest :=
    stripFrom_line ('/' :: words) (by simpa using single)
  simpa [stripFrom, Zone.keeps, Zone.after] using slash

theorem stripFrom_comment_end (single : '\n' ∉ words) :
    stripFrom (.code fresh) ('/' :: '/' :: words) = [] := by
  have slash : stripFrom .line ('/' :: words) = [] := stripFrom_line_end (by simpa using single)
  simpa [stripFrom, Zone.keeps, Zone.after] using slash

theorem stripFrom_directive (single : '\n' ∉ words) :
    stripFrom (.code true) ('#' :: (words ++ '\n' :: rest)) =
      '\n' :: stripFrom (.code true) rest := by
  simpa [stripFrom, Zone.keeps, Zone.after] using stripFrom_line words single

theorem stripFrom_directive_end (single : '\n' ∉ words) :
    stripFrom (.code true) ('#' :: words) = [] := by
  simpa [stripFrom, Zone.keeps, Zone.after] using stripFrom_line_end single

end Steps

/-- Of a gap only blanks stay. -/
theorem Gap.exists_blanks (silent : Gap fresh gap) : ∃ blanks flag, Blank blanks ∧
    ∀ rest, stripFrom (.code fresh) (gap ++ rest) = blanks ++ stripFrom (.code flag) rest := by
  induction silent with
  | @nil fresh => exact ⟨[], fresh, List.forall_mem_nil _, fun _ => rfl⟩
  | blank char white level _ ih =>
      obtain ⟨blanks, flag, blank, left⟩ := ih
      refine ⟨char :: blanks, flag, blank.cons white, fun rest => ?_⟩
      rw [List.cons_append, stripFrom_blank white level, left, List.cons_append]
  | feed _ ih =>
      obtain ⟨blanks, flag, blank, left⟩ := ih
      refine ⟨'\n' :: blanks, flag, blank.cons (by decide), fun rest => ?_⟩
      rw [List.cons_append, stripFrom_feed, left, List.cons_append]
  | comment words single _ ih =>
      obtain ⟨blanks, flag, blank, left⟩ := ih
      refine ⟨'\n' :: blanks, flag, blank.cons (by decide), fun rest => ?_⟩
      rw [List.cons_append, List.cons_append, List.append_assoc, List.cons_append,
        stripFrom_comment single, left, List.cons_append]
  | directive words single _ ih =>
      obtain ⟨blanks, flag, blank, left⟩ := ih
      refine ⟨'\n' :: blanks, flag, blank.cons (by decide), fun rest => ?_⟩
      rw [List.cons_append, List.append_assoc, List.cons_append, stripFrom_directive single, left,
        List.cons_append]

/-! ## Pieces -/

/-- A text made of pieces with gaps before them and behind the last one. The flag says that the
line has been blank before the first gap; behind a piece it has not. -/
inductive Decorated : Bool → List String → List Char → Prop
  | ending {fresh : Bool} {gap : List Char} (silent : Gap fresh gap) : Decorated fresh [] gap
  | piece {fresh : Bool} {gap rest : List Char} {piece : String} {pieces : List String}
    (silent : Gap fresh gap) (behind : Decorated false pieces rest) :
    Decorated fresh (piece :: pieces) (gap ++ piece.toList ++ rest)

/-- A piece that stripping leaves as it is, and that its line shows. -/
structure Visible (piece : String) : Prop where
  plain : Without ['/', '#', '\n'] piece
  solid : ∃ char ∈ piece.toList, isBlank char = false

theorem stripFrom_plain {rest : List Char} (plain : ∀ char ∈ chars, char ∉ ['/', '#', '\n']) :
    stripFrom (.code fresh) (chars ++ rest) =
      chars ++ stripFrom (.code (fresh && chars.all isBlank)) rest := by
  induction chars generalizing fresh with
  | nil => simp
  | cons char chars ih =>
      obtain ⟨here, others⟩ := List.forall_mem_cons.mp plain
      simp only [List.mem_cons, List.not_mem_nil, or_false, not_or] at here
      have step : stripFrom (.code fresh) (char :: (chars ++ rest)) =
          char :: stripFrom (.code (fresh && isBlank char)) (chars ++ rest) := by
        simp [stripFrom, Zone.keeps, Zone.after, here]
      rw [List.cons_append, step, ih others, List.cons_append, List.all_cons, Bool.and_assoc]

theorem Visible.stripFrom {piece : String} (visible : Visible piece) (rest : List Char) :
    stripFrom (.code fresh) (piece.toList ++ rest) =
      piece.toList ++ PinMap.stripFrom (.code false) rest := by
  have shown : piece.toList.all isBlank = false := by
    obtain ⟨char, member, solid⟩ := visible.solid
    rw [List.all_eq_false]
    exact ⟨char, member, by simp [solid]⟩
  rw [stripFrom_plain visible.plain, shown, Bool.and_false]

/-- A text made of pieces with blanks before them and behind the last one. -/
inductive Spaced : List String → List Char → Prop
  | ending {blanks : List Char} (blank : Blank blanks) : Spaced [] blanks
  | piece {blanks rest : List Char} {piece : String} {pieces : List String} (blank : Blank blanks)
    (behind : Spaced pieces rest) : Spaced (piece :: pieces) (blanks ++ (piece.toList ++ rest))

theorem Spaced.exists_piece {piece : String} {pieces : List String}
    (spaced : Spaced (piece :: pieces) chars) : ∃ blanks rest,
      chars = blanks ++ (piece.toList ++ rest) ∧ Blank blanks ∧ Spaced pieces rest := by
  cases spaced with
  | piece blank behind => exact ⟨_, _, rfl, blank, behind⟩

/-- Stripping a decorated text leaves its pieces with blanks between them. -/
theorem Decorated.spaced {pieces : List String} (decorated : Decorated fresh pieces chars)
    (visible : ∀ piece ∈ pieces, Visible piece) :
    Spaced pieces (stripFrom (.code fresh) chars) := by
  induction decorated with
  | ending silent =>
      obtain ⟨blanks, flag, blank, left⟩ := silent.exists_blanks
      have whole := left []
      rw [List.append_nil, stripFrom, List.append_nil] at whole
      rw [whole]
      exact .ending blank
  | piece silent _ ih =>
      obtain ⟨here, others⟩ := List.forall_mem_cons.mp visible
      obtain ⟨blanks, flag, blank, left⟩ := silent.exists_blanks
      rw [List.append_assoc, left, here.stripFrom]
      exact .piece blank (ih others)

end Pinout.PinMap
