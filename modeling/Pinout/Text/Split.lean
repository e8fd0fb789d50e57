/-! Cutting text: into lines, and at the first occurrence of a mark. -/

set_option autoImplicit false

namespace Pinout.Text

/-- A carriage return directly before the end of a line belongs to the line end. -/
def dropReturn (line : List Char) : List Char :=
  if line.getLast? == some '\r' then line.dropLast else line

/-- The lines of a text. Each line end closes a line, so text after the last line
end counts as a line only when there is some. A carriage return is dropped only
before a line feed. -/
def lines (chars : List Char) : List (List Char) :=
  let pieces := chars.splitOn '\n'
  let closed := pieces.dropLast.map dropReturn
  match pieces.getLast? with
  | some [] | none => closed
  | some last => closed ++ [last]

/-- Cut at the first occurrence of a mark, giving what stands before and after it. -/
def cut? (mark : List Char) : List Char → Option (List Char × List Char)
  | [] => if mark.isEmpty then some ([], []) else none
  | char :: rest =>
    if mark.isPrefixOf (char :: rest) then
      some ([], (char :: rest).drop mark.length)
    else
      (cut? mark rest).map fun (before, after) => (char :: before, after)

/-- A cut loses only the mark. -/
theorem append_of_cut? {mark chars before after : List Char}
    (found : cut? mark chars = some (before, after)) :
    before ++ mark ++ after = chars := by
  induction chars generalizing before after with
  | nil =>
      simp only [cut?] at found
      split at found
      · rename_i empty
        cases found
        simpa using empty
      · cases found
  | cons char rest ih =>
      simp only [cut?] at found
      split at found
      · rename_i starts
        cases found
        obtain ⟨tail, same⟩ := List.isPrefixOf_iff_prefix.mp starts
        simp [← same]
      · obtain ⟨⟨left, right⟩, inner, same⟩ := Option.map_eq_some_iff.mp found
        cases same
        simpa using ih inner

/-- What follows the given beginning, if the text has it. -/
def dropStart? (beginning chars : List Char) : Option (List Char) :=
  if beginning.isPrefixOf chars then some (chars.drop beginning.length) else none

theorem dropStart?_eq_some_iff {beginning chars rest : List Char} :
    dropStart? beginning chars = some rest ↔ chars = beginning ++ rest := by
  unfold dropStart?
  split
  · rename_i starts
    obtain ⟨tail, rfl⟩ := List.isPrefixOf_iff_prefix.mp starts
    simp [eq_comm]
  · rename_i differs
    constructor
    · intro impossible
      cases impossible
    · rintro rfl
      exact absurd (List.isPrefixOf_iff_prefix.mpr (List.prefix_append _ _)) differs

end Pinout.Text
