import Mathlib.Data.List.Basic
import Pinout.Text.Blank
import Pinout.Text.Split

/-! Parts of a text. Trimming, splitting into words and cutting at a mark give characters of
the text and no others; no line of a text holds a line feed, and no word holds a blank. -/

set_option autoImplicit false

namespace Pinout.Text

variable {chars part : List Char} {char : Char}

private theorem mem_modifyHead_cons {pieces : List (List Char)}
    (member : part ∈ pieces.modifyHead (List.cons char)) :
    part ∈ pieces ∨ ∃ piece ∈ pieces, part = char :: piece := by
  cases pieces with
  | nil => cases member
  | cons piece rest =>
      rcases List.mem_cons.mp member with rfl | behind
      · exact .inr ⟨piece, List.mem_cons_self, rfl⟩
      · exact .inl (List.mem_cons_of_mem _ behind)

/-- The pieces of a split hold characters of the text, and none that it splits at. -/
theorem mem_of_mem_splitOnP {marks : Char → Bool} (piece : part ∈ chars.splitOnP marks)
    (member : char ∈ part) : char ∈ chars ∧ marks char = false := by
  induction chars generalizing part with
  | nil =>
      rw [List.splitOnP_nil, List.mem_singleton] at piece
      subst piece
      cases member
  | cons first rest ih =>
      rw [List.splitOnP_cons_eq_if_modifyHead] at piece
      split at piece
      · rcases List.mem_cons.mp piece with rfl | behind
        · cases member
        · exact (ih behind member).imp_left (List.mem_cons_of_mem first)
      · rename_i kept
        rcases mem_modifyHead_cons piece with behind | ⟨tail, behind, rfl⟩
        · exact (ih behind member).imp_left (List.mem_cons_of_mem first)
        · rcases List.mem_cons.mp member with rfl | inside
          · exact ⟨List.mem_cons_self, by simpa using kept⟩
          · exact (ih behind inside).imp_left (List.mem_cons_of_mem first)

theorem mem_of_mem_dropWhile {skips : Char → Bool} (member : char ∈ chars.dropWhile skips) :
    char ∈ chars :=
  (List.dropWhile_suffix skips).subset member

theorem mem_of_mem_trim (member : char ∈ trim chars) : char ∈ chars := by
  rw [trim, trimEnd, List.mem_reverse] at member
  exact mem_of_mem_dropWhile (List.mem_reverse.mp (mem_of_mem_dropWhile member))

theorem mem_of_cut? {mark before after : List Char}
    (found : cut? mark chars = some (before, after)) (member : char ∈ before ∨ char ∈ after) :
    char ∈ chars := by
  rw [← append_of_cut? found, List.mem_append, List.mem_append]
  exact member.elim (fun early => .inl (.inl early)) .inr

theorem mem_of_dropStart? {beginning rest : List Char}
    (found : dropStart? beginning chars = some rest) (member : char ∈ rest) : char ∈ chars := by
  rw [dropStart?_eq_some_iff.mp found]
  exact List.mem_append_right _ member

theorem not_mem_of_mem_lines {line : List Char} (member : line ∈ lines chars) : '\n' ∉ line := by
  have apart {piece : List Char} (split : piece ∈ chars.splitOn '\n') : '\n' ∉ piece := by
    intro inside
    rw [List.splitOn_eq_splitOnP] at split
    have kept := (mem_of_mem_splitOnP split inside).2
    simp at kept
  have closed {line : List Char} (inside : line ∈ (chars.splitOn '\n').dropLast.map dropReturn) :
      '\n' ∉ line := by
    obtain ⟨piece, split, rfl⟩ := List.mem_map.mp inside
    intro feed
    refine apart (List.dropLast_subset _ split) ?_
    unfold dropReturn at feed
    split at feed
    · exact List.dropLast_subset _ feed
    · exact feed
  unfold lines at member
  dsimp only at member
  split at member
  · exact closed member
  · exact closed member
  · rename_i last final
    rcases List.mem_append.mp member with inside | ending
    · exact closed inside
    · rw [List.mem_singleton.mp ending]
      exact apart (List.mem_of_getLast? final)

end Pinout.Text
