import Pinout.Proofs.File.Tree

/-! Spellings of one path. Empty pieces and dots say nothing on the way, so that two spellings of
a path lead to the same place. At the end of a path they ask for a directory, so that a spelling
with one there leads to no file, while another spelling may lead to one. -/

set_option autoImplicit false

namespace Pinout.File

namespace Path

variable {path left right : Path} {first : String} {rest : List String}

/-- Does the path end in a slash, or in a dot that is a piece of its own? -/
def trails (path : Path) : Bool :=
  path.pieces.getLast?.any isSilent

theorem exists_pieces (path : Path) : ∃ first rest, path.pieces = first :: rest := by
  have filled : path.pieces ≠ [] := by
    rw [pieces, ne_eq, List.map_eq_nil_iff]
    exact List.splitOn_ne_nil '/' path.text.toList
  exact List.exists_cons_of_ne_nil filled

/-- A path that does not trail has a last piece, which says something. -/
theorem exists_last_of_trails (ends : path.trails = false) :
    ∃ last, path.pieces.getLast? = some last ∧ isSilent last = false := by
  obtain ⟨first, rest, split⟩ := path.exists_pieces
  cases final : path.pieces.getLast? with
  | none => simp [split] at final
  | some last =>
      rw [trails, final] at ends
      exact ⟨last, rfl, ends⟩

theorem text_ne_empty_of_trails (ends : path.trails = false) : path.text.isEmpty = false := by
  rw [← Bool.not_eq_true, String.isEmpty_iff]
  intro empty
  have single : path.pieces = [path.text] := pieces_eq_singleton (by simp [empty])
  rw [trails, single, empty] at ends
  exact absurd ends (by decide)

theorem eq_empty_of_isRooted (split : path.pieces = first :: rest) (rooted : path.isRooted = true) :
    first = "" := by
  rw [isRooted, beq_iff_eq] at rooted
  obtain ⟨back, same⟩ := List.head?_eq_some_iff.mp rooted
  have whole : path.text.toList = [] ++ '/' :: back := same
  rw [pieces, whole, List.splitOn_append_cons_self] at split
  simp only [List.splitOn_nil, List.map_append, List.map_cons, List.map_nil,
    List.cons_append] at split
  exact (List.cons.inj split).1.symm

theorem route_of_pieces (split : path.pieces = first :: rest) :
    path.route = (if path.isRooted then "/" else first) :: speaking rest := by
  rw [route, split]
  rfl

theorem ne_slash_of_pieces (split : path.pieces = first :: rest) : first ≠ "/" := by
  rintro rfl
  exact not_mem_of_mem_pieces (split ▸ List.mem_cons_self) (by decide)

theorem speaking_cons (first : String) (rest : List String) :
    speaking (first :: rest) = speaking [first] ++ speaking rest :=
  List.filter_append [first] rest

/-- Spellings of one path start at the same place and say the same. -/
theorem speaking_of_same (same : left.same right = true) :
    left.isRooted = right.isRooted ∧ speaking left.pieces = speaking right.pieces := by
  obtain ⟨first, rest, split⟩ := left.exists_pieces
  obtain ⟨first', rest', split'⟩ := right.exists_pieces
  rw [Path.same, beq_iff_eq, route_of_pieces split, route_of_pieces split', List.cons.injEq] at same
  obtain ⟨start, others⟩ := same
  cases rooted : left.isRooted <;> cases rooted' : right.isRooted <;> rw [rooted, rooted'] at start
  · obtain rfl : first = first' := start
    refine ⟨rfl, ?_⟩
    rw [split, split', speaking_cons, others, ← speaking_cons]
  · exact absurd start (ne_slash_of_pieces split)
  · exact absurd start.symm (ne_slash_of_pieces split')
  · refine ⟨rfl, ?_⟩
    rw [split, split', eq_empty_of_isRooted split rooted, eq_empty_of_isRooted split' rooted']
    exact others

end Path

namespace Tree

variable {tree : Tree} {location : Location} {piece other last : String}
  {pieces rest others : List String} {left right : Path}

/-- Where no directory is, every path is stopped alike. -/
theorem follow_cons_of_not_directory (closed : tree.node? location ≠ some .directory) :
    tree.follow location (piece :: rest) = tree.follow location (other :: others) := by
  rw [follow, follow]
  cases found : tree.node? location with
  | none => rfl
  | some node =>
      cases node with
      | file content => rfl
      | directory => exact absurd found closed

/-- A silent piece asks for a directory, which the piece behind it does as well. -/
theorem follow_cons_of_silent (silent : Path.isSilent piece = true) (inside : rest ≠ []) :
    tree.follow location (piece :: rest) = tree.follow location rest := by
  by_cases directory : tree.node? location = some .directory
  · rw [follow_cons_of_directory directory, onward, if_pos silent]
  · obtain ⟨next, others, rfl⟩ := List.exists_cons_of_ne_nil inside
    exact follow_cons_of_not_directory directory

/-- The silent pieces before one that says something do not matter. -/
theorem follow_speaking (final : pieces.getLast? = some last)
    (speaks : Path.isSilent last = false) :
    tree.follow location pieces = tree.follow location (Path.speaking pieces) := by
  induction pieces generalizing location with
  | nil => cases final
  | cons piece rest ih =>
      cases silent : Path.isSilent piece with
      | true =>
          rw [Path.speaking, List.filter_cons_of_neg (by simp [silent]), ← Path.speaking]
          cases rest with
          | nil =>
              cases final
              exact absurd (silent.symm.trans speaks) (by decide)
          | cons next others =>
              rw [List.getLast?_cons_cons] at final
              rw [follow_cons_of_silent silent (List.cons_ne_nil _ _), ih final]
      | false =>
          rw [Path.speaking, List.filter_cons_of_pos (by simp [silent]), ← Path.speaking]
          by_cases directory : tree.node? location = some .directory
          · rw [follow_cons_of_directory directory, follow_cons_of_directory directory]
            cases rest with
            | nil => rfl
            | cons next others =>
                rw [List.getLast?_cons_cons] at final
                exact ih final
          · exact follow_cons_of_not_directory directory

theorem locate_of_same (same : left.same right = true) (ends : left.trails = false)
    (ends' : right.trails = false) : tree.locate left = tree.locate right := by
  obtain ⟨rooted, said⟩ := Path.speaking_of_same same
  obtain ⟨last, final, speaks⟩ := Path.exists_last_of_trails ends
  obtain ⟨last', final', speaks'⟩ := Path.exists_last_of_trails ends'
  have led : tree.follow (tree.origin left) left.pieces =
      tree.follow (tree.origin right) right.pieces := by
    rw [follow_speaking final speaks, follow_speaking final' speaks', said, origin, origin, rooted]
  rw [locate, locate, led, Path.text_ne_empty_of_trails ends, Path.text_ne_empty_of_trails ends']

/-- A path that trails leads to a directory, when it leads anywhere. -/
theorem node?_of_follow_silent {place : Location} (found : tree.follow location pieces = .ok place)
    (final : pieces.getLast? = some last) (silent : Path.isSilent last = true) :
    tree.node? place = some .directory := by
  induction pieces generalizing location with
  | nil => cases final
  | cons piece rest ih =>
      obtain ⟨directory, next⟩ := follow_cons_eq_ok_iff.mp found
      cases rest with
      | nil =>
          obtain rfl : piece = last := Option.some.inj final
          rw [onward, if_pos silent, follow_nil, Except.ok.injEq] at next
          rwa [← next]
      | cons other others =>
          rw [List.getLast?_cons_cons] at final
          exact ih next final

theorem trails_of_isFile (file : tree.isFile left = true) : left.trails = false := by
  unfold isFile at file
  split at file
  · rename_i place content found
    obtain ⟨-, led, stands⟩ := locate_eq_ok_iff.mp found
    rw [Path.trails, Option.any_eq_false]
    intro last final
    rw [← Bool.not_eq_true]
    intro silent
    rw [node?_of_follow_silent led final silent] at stands
    cases stands
  · cases file

/-- Two spellings of one path that do not trail are both files or both not. -/
theorem isFile_of_same (same : left.same right = true) (ends : left.trails = false)
    (ends' : right.trails = false) : tree.isFile left = tree.isFile right := by
  rw [isFile, isFile, locate_of_same same ends ends']

end Tree

end Pinout.File
