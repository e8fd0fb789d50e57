import Mathlib.Data.List.Basic
import Pinout.File.Path
import Pinout.Proofs.Text.Part

/-! The last piece of a path. It holds no slash; a path that does not end in a slash has one
that is not empty, and a path that was joined to a name ends in that name. -/

set_option autoImplicit false

namespace Pinout.File.Path

variable {path base : Path} {name : String}

theorem not_mem_of_mem_pieces (member : name ∈ path.pieces) : '/' ∉ name.toList := by
  obtain ⟨piece, split, rfl⟩ := List.mem_map.mp member
  rw [List.splitOn_eq_splitOnP] at split
  intro slash
  rw [String.toList_ofList] at slash
  exact absurd (Text.mem_of_mem_splitOnP split slash).2 (by simp)

theorem pieces_eq_singleton (free : '/' ∉ path.text.toList) : path.pieces = [path.text] := by
  rw [pieces, List.splitOn_eq_singleton free, List.map_singleton, String.ofList_toList]

/-- What follows the last slash is the last piece. -/
theorem getLast?_pieces_of_slash (front : List Char)
    (same : path.text.toList = front ++ '/' :: name.toList) (free : '/' ∉ name.toList) :
    path.pieces.getLast? = some name := by
  rw [pieces, same, List.splitOn_append_cons_self, List.splitOn_eq_singleton free, List.map_append,
    List.map_singleton, List.getLast?_concat, String.ofList_toList]

theorem exists_last_slash {chars : List Char} (slash : '/' ∈ chars) :
    ∃ front back, chars = front ++ '/' :: back ∧ '/' ∉ back := by
  obtain ⟨before, after, same, free⟩ := List.eq_append_cons_of_mem (List.mem_reverse.mpr slash)
  refine ⟨after.reverse, before.reverse, ?_, by simpa using free⟩
  rw [← List.reverse_reverse chars, same]
  simp

/-- A text that does not end in a slash has a last piece that is not empty. -/
theorem exists_getLast?_pieces (filled : path.text ≠ "")
    (unclosed : path.text.toList.getLast? ≠ some '/') :
    ∃ name, path.pieces.getLast? = some name ∧ name ≠ "" := by
  by_cases slash : '/' ∈ path.text.toList
  · obtain ⟨front, back, same, free⟩ := exists_last_slash slash
    rw [← String.toList_ofList (l := back)] at same free
    refine ⟨String.ofList back, getLast?_pieces_of_slash front same free, ?_⟩
    intro empty
    rw [same, empty] at unclosed
    exact unclosed List.getLast?_concat
  · exact ⟨path.text, by rw [pieces_eq_singleton slash, List.getLast?_singleton], filled⟩

/-- A path that was joined to a name ends in the name. -/
theorem getLast?_pieces_join (free : '/' ∉ name.toList) :
    (base.join ⟨name⟩).pieces.getLast? = some name := by
  have bare : (⟨name⟩ : Path).isRooted = false := by
    rw [isRooted, beq_eq_false_iff_ne]
    intro rooted
    exact free (List.mem_of_head? rooted)
  unfold join
  rw [if_neg (by simp [bare])]
  split
  · rename_i ended
    rw [Bool.or_eq_true, beq_iff_eq] at ended
    rcases ended with empty | slash
    · rw [String.isEmpty_iff.mp empty, String.empty_append, pieces_eq_singleton free,
        List.getLast?_singleton]
    · obtain ⟨front, same⟩ := List.getLast?_eq_some_iff.mp slash
      refine getLast?_pieces_of_slash front ?_ free
      rw [String.toList_append, same, List.append_assoc]
      rfl
  · refine getLast?_pieces_of_slash base.text.toList ?_ free
    rw [String.toList_append, String.toList_append, List.append_assoc]
    rfl

/-- The paths of the directories that a path passes on its way, from the last one up. -/
def above (path : Path) : List Path :=
  (path.parent?.map ancestors).getD []

/-! ## Names of files -/

/-- The pieces that say something. -/
def speaking (pieces : List String) : List String :=
  pieces.filter fun piece => !isSilent piece

theorem fileName?_eq_some_iff :
    path.fileName? = some name ↔
      (speaking path.pieces).getLast? = some name ∧ name ≠ ".." := by
  unfold fileName?
  cases path.pieces with
  | nil => simp [speaking]
  | cons first rest =>
      have named : (if (first.isEmpty || first == ".") = true then [] else [first]) ++
          rest.filter (fun piece => !isSilent piece) = speaking (first :: rest) := by
        have silent : (first.isEmpty || first == ".") = isSilent first := by
          rw [isSilent, Bool.eq_iff_iff]
          simp
        rw [silent, speaking, List.filter_cons]
        cases isSilent first <;> rfl
      dsimp only
      rw [named]
      split
      · rename_i dots
        rw [dots]
        constructor
        · intro same
          cases same
        · rintro ⟨same, other⟩
          cases same
          contradiction
      · rename_i none
        simp [none]
      · rename_i last other found
        rw [found]
        constructor
        · intro same
          cases same
          exact ⟨rfl, other⟩
        · exact fun given => given.1

theorem not_mem_of_fileName? (named : path.fileName? = some name) : '/' ∉ name.toList := by
  have speaks := List.mem_of_getLast? (fileName?_eq_some_iff.mp named).1
  exact not_mem_of_mem_pieces (List.mem_filter.mp speaks).1

theorem mem_of_mem_stem {char : Char} (member : char ∈ (stem name).toList) :
    char ∈ name.toList := by
  unfold stem at member
  split at member
  · exact member
  · rw [String.toList_ofList, List.mem_reverse] at member
    exact List.mem_reverse.mp (Text.mem_of_mem_dropWhile (List.mem_of_mem_tail member))

theorem getLast?_pieces_withFileName (free : '/' ∉ name.toList) :
    (path.withFileName name).pieces.getLast? = some name := by
  unfold withFileName
  split
  · exact getLast?_pieces_join free
  · exact getLast?_pieces_join free

end Pinout.File.Path
