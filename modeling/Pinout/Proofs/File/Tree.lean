import Mathlib.Data.List.TakeWhile
import Pinout.File.Delivery
import Pinout.Proofs.File.Path

/-! What operations leave alone. Making directories adds nodes and takes none away, and
writing a file changes the one location that the path leads to. A path that led to a node
goes on leading there, because it passes through directories only. -/

set_option autoImplicit false

namespace Pinout.File.Tree

/-! ## Trees that keep their directories -/

/-- The later tree starts at the same place and has all directories of the earlier one. -/
structure KeepsDirectories (tree later : Tree) : Prop where
  working : later.working = tree.working
  directories : ∀ location, tree.node? location = some .directory →
    later.node? location = some .directory

/-- The later tree has all nodes of the earlier one. -/
structure Grown (tree later : Tree) : Prop where
  working : later.working = tree.working
  nodes : ∀ location node, tree.node? location = some node → later.node? location = some node

section Kept

variable {tree later last : Tree} {path : Path}

theorem Grown.refl (tree : Tree) : Grown tree tree :=
  ⟨rfl, fun _ _ found => found⟩

theorem Grown.trans (first : Grown tree later) (second : Grown later last) : Grown tree last where
  working := second.working.trans first.working
  nodes := fun location node found => second.nodes location node (first.nodes location node found)

theorem Grown.keepsDirectories (grown : Grown tree later) : KeepsDirectories tree later :=
  ⟨grown.working, fun location found => grown.nodes location .directory found⟩

theorem follow_nil (location : Location) : tree.follow location [] = .ok location := by
  rw [follow]

/-- Where one piece of a path leads from a directory. -/
def onward (location : Location) (piece : String) : Location :=
  if Path.isSilent piece then location
  else if piece = ".." then location.dropLast
  else location ++ [piece]

theorem follow_cons_of_directory {location : Location} {piece : String} {rest : List String}
    (directory : tree.node? location = some .directory) :
    tree.follow location (piece :: rest) = tree.follow (onward location piece) rest := by
  rw [follow, directory, onward]
  dsimp only
  split
  · rfl
  · split <;> rfl

theorem follow_cons_eq_ok_iff {location place : Location} {piece : String}
    {rest : List String} :
    tree.follow location (piece :: rest) = .ok place ↔
      tree.node? location = some .directory ∧
        tree.follow (onward location piece) rest = .ok place := by
  by_cases directory : tree.node? location = some .directory
  · simp [follow_cons_of_directory directory, directory]
  · rw [follow]
    cases found : tree.node? location with
    | none => simp
    | some node =>
        cases node with
        | file content => simp
        | directory => exact absurd found directory

theorem follow_append_of_ok {front : List String} {location middle : Location}
    (found : tree.follow location front = .ok middle) (back : List String) :
    tree.follow location (front ++ back) = tree.follow middle back := by
  induction front generalizing location with
  | nil =>
      rw [follow_nil, Except.ok.injEq] at found
      rw [List.nil_append, found]
  | cons piece rest ih =>
      obtain ⟨directory, next⟩ := follow_cons_eq_ok_iff.mp found
      rw [List.cons_append, follow_cons_of_directory directory]
      exact ih next

/-- Where directories are kept, paths lead where they led. -/
theorem KeepsDirectories.follow (kept : KeepsDirectories tree later) {pieces : List String}
    {location place : Location} (found : tree.follow location pieces = .ok place) :
    later.follow location pieces = .ok place := by
  induction pieces generalizing location with
  | nil =>
      rw [follow_nil] at found ⊢
      exact found
  | cons piece rest ih =>
      obtain ⟨directory, next⟩ := follow_cons_eq_ok_iff.mp found
      exact follow_cons_eq_ok_iff.mpr ⟨kept.directories location directory, ih next⟩

theorem locate_eq_ok_iff {place : Location} {node : Node} :
    tree.locate path = .ok (place, node) ↔
      path.text.isEmpty = false ∧ tree.follow (tree.origin path) path.pieces = .ok place ∧
        tree.node? place = some node := by
  unfold locate
  cases path.text.isEmpty with
  | true => simp
  | false =>
      cases tree.follow (tree.origin path) path.pieces with
      | error fault => simp
      | ok reached =>
          cases stands : tree.node? reached with
          | none =>
              simp only [stands, Bool.false_eq_true, if_false, reduceCtorEq, false_iff, true_and,
                Except.ok.injEq, not_and]
              rintro rfl found
              rw [stands] at found
              cases found
          | some other =>
              simp only [stands, Bool.false_eq_true, if_false, true_and, Except.ok.injEq,
                Prod.mk.injEq]
              constructor
              · rintro ⟨rfl, rfl⟩
                exact ⟨rfl, stands⟩
              · rintro ⟨rfl, found⟩
                exact ⟨rfl, Option.some.inj (stands.symm.trans found)⟩

/-- What can be read is a file. -/
theorem isFile_of_readText {text : String} (read : tree.readText path = .ok text) :
    tree.isFile path = true := by
  unfold readText at read
  unfold isFile
  split at read
  · cases read
  · cases read
  · rename_i found
    rw [found]

theorem KeepsDirectories.origin_eq (kept : KeepsDirectories tree later) (path : Path) :
    later.origin path = tree.origin path := by
  rw [origin, origin, kept.working]

theorem KeepsDirectories.locate (kept : KeepsDirectories tree later) {place : Location}
    {node other : Node} (found : tree.locate path = .ok (place, node))
    (stands : later.node? place = some other) : later.locate path = .ok (place, other) := by
  obtain ⟨filled, led, _⟩ := locate_eq_ok_iff.mp found
  refine locate_eq_ok_iff.mpr ⟨filled, ?_, stands⟩
  rw [kept.origin_eq]
  exact kept.follow led

theorem Grown.locate (grown : Grown tree later) {place : Location} {node : Node}
    (found : tree.locate path = .ok (place, node)) : later.locate path = .ok (place, node) :=
  grown.keepsDirectories.locate found (grown.nodes place node (locate_eq_ok_iff.mp found).2.2)

/-- A new node at a free location leaves all others. -/
theorem grown_put {location : Location} {node : Node} (free : tree.node? location = none) :
    Grown tree (tree.put location node) where
  working := rfl
  nodes := by
    intro other stood found
    rw [node?_put]
    split
    · rename_i same
      rw [same, free] at found
      cases found
    · exact found

theorem keepsDirectories_put {location : Location} {node : Node}
    (taken : tree.node? location ≠ some .directory) :
    KeepsDirectories tree (tree.put location node) where
  working := rfl
  directories := by
    intro other found
    rw [node?_put]
    split
    · rename_i same
      exact absurd (same ▸ found) taken
    · exact found

end Kept

/-! ## Making directories -/

/-- The later tree has all nodes of the earlier one, and besides them only directories to which
some of the paths lead. -/
structure ExtendedAlong (tree later : Tree) (paths : List Path) : Prop where
  grown : Grown tree later
  new : ∀ location, later.node? location = tree.node? location ∨
    ∃ path ∈ paths, later.locate path = .ok (location, .directory)

/-- What an operation leaves behind, whether it succeeds or fails. -/
def remains {α : Type} : Except (α × Tree) Tree → Tree
  | .ok tree => tree
  | .error (_, tree) => tree

section Making

variable {tree later last : Tree} {path : Path} {paths : List Path}

theorem ExtendedAlong.refl (tree : Tree) (paths : List Path) : ExtendedAlong tree tree paths :=
  ⟨.refl tree, fun _ => .inl rfl⟩

theorem ExtendedAlong.trans (first : ExtendedAlong tree later paths)
    (second : ExtendedAlong later last paths) : ExtendedAlong tree last paths where
  grown := first.grown.trans second.grown
  new := by
    intro location
    rcases second.new location with same | new
    · rw [same]
      exact (first.new location).imp_right fun ⟨path, member, found⟩ =>
        ⟨path, member, second.grown.locate found⟩
    · exact .inr new

theorem ExtendedAlong.mono {others : List Path} (extended : ExtendedAlong tree later paths)
    (inside : paths ⊆ others) : ExtendedAlong tree later others where
  grown := extended.grown
  new := fun location => (extended.new location).imp_right fun ⟨path, member, found⟩ =>
    ⟨path, inside member, found⟩

theorem named?_eq_some_iff {location place : Location} {name : Option String} :
    named? location name = some place ↔
      ∃ last, name = some last ∧ last ≠ "." ∧ last ≠ ".." ∧ place = location ++ [last] := by
  unfold named?
  split
  · simp
  · simp
  · simp
  · rename_i last dot dots
    simp only [Option.some.injEq, exists_eq_left']
    constructor
    · rintro rfl
      exact ⟨dot, dots, rfl⟩
    · rintro ⟨_, _, rfl⟩
      rfl

/-- The last name of a path is held by the directory to which the pieces before it lead; only
empty pieces come after it. -/
theorem holder_eq_ok {location : Location} {name : String}
    (found : tree.holder path = .ok (location, some name)) :
    path.text.isEmpty = false ∧ name ≠ "" ∧ tree.node? location = some .directory ∧
      ∃ front back, path.pieces = front ++ name :: back ∧ (∀ piece ∈ back, piece = "") ∧
        tree.follow (tree.origin path) front = .ok location := by
  unfold holder at found
  split at found
  · cases found
  · rename_i text
    split at found
    · cases found
    · rename_i last before kept
      have whole : path.pieces = before.reverse ++
          last :: (path.pieces.reverse.takeWhile (·.isEmpty)).reverse := by
        have turned := congrArg List.reverse
          (List.takeWhile_append_dropWhile (p := (·.isEmpty)) (l := path.pieces.reverse))
        rw [kept, List.reverse_reverse, List.reverse_append, List.reverse_cons, List.append_assoc,
          List.singleton_append] at turned
        exact turned.symm
      have filled : last ≠ "" := by
        have stops := List.head?_dropWhile_not (·.isEmpty) path.pieces.reverse
        rw [kept] at stops
        simpa using stops
      split at found
      · cases found
      · rename_i reached followed
        split at found
        · cases found
        · cases found
        · rename_i directory
          cases found
          refine ⟨by simpa using text, filled, directory, _, _, whole, ?_, followed⟩
          intro piece member
          have empty := List.mem_takeWhile_imp (List.mem_reverse.mp member)
          simpa using empty

theorem follow_empties {pieces : List String} {location : Location}
    (directory : tree.node? location = some .directory) (empty : ∀ piece ∈ pieces, piece = "") :
    tree.follow location pieces = .ok location := by
  induction pieces with
  | nil => rw [follow_nil]
  | cons piece rest ih =>
      obtain ⟨rfl, others⟩ := List.forall_mem_cons.mp empty
      rw [follow_cons_of_directory directory]
      exact ih others

/-- A new directory stands where its path leads. -/
theorem extendedAlong_makeDirectory (made : tree.makeDirectory path = .ok later)
    (member : path ∈ paths) : ExtendedAlong tree later paths := by
  unfold makeDirectory at made
  split at made
  · cases made
  · rename_i location name held
    split at made
    · cases made
    · rename_i place named
      split at made
      · cases made
      · rename_i free
        cases made
        have vacant : tree.node? place = none := by simpa using free
        have grown : Grown tree (tree.put place .directory) := grown_put vacant
        obtain ⟨last, rfl, dot, dots, rfl⟩ := named?_eq_some_iff.mp named
        obtain ⟨text, filled, directory, front, back, whole, empty, followed⟩ := holder_eq_ok held
        have stands : (tree.put (location ++ [last]) .directory).node? (location ++ [last]) =
            some .directory := by
          rw [node?_put, if_pos rfl]
        have speaks : Path.isSilent last = false := by simp [Path.isSilent, filled, dot]
        -- The pieces up to the name lead where they led, and the empty ones behind it stay there.
        refine ⟨grown, fun other => ?_⟩
        rw [node?_put]
        split
        · rename_i same
          subst same
          refine .inr ⟨path, member, locate_eq_ok_iff.mpr ⟨text, ?_, stands⟩⟩
          rw [grown.keepsDirectories.origin_eq, whole,
            follow_append_of_ok (grown.keepsDirectories.follow followed),
            follow_cons_of_directory (grown.nodes _ _ directory), onward, speaks,
            if_neg Bool.false_ne_true, if_neg dots]
          exact follow_empties stands empty
        · exact .inl rfl

theorem extendedAlong_makeAlong (tree : Tree) (paths : List Path) :
    ExtendedAlong tree (remains (tree.makeAlong paths)) paths := by
  induction paths with
  | nil => exact .refl tree []
  | cons path parents ih =>
      have above : ExtendedAlong tree (remains (tree.makeAlong parents)) (path :: parents) :=
        ih.mono (List.subset_cons_self path parents)
      -- Whether a fault counts depends on what stands there, but nothing more is done to the tree.
      have settled (current : Tree) (fault : Fault)
          (extended : ExtendedAlong tree current (path :: parents)) :
          ExtendedAlong tree (remains (if current.isDirectory path then Except.ok current
            else Except.error (fault, current))) (path :: parents) := by
        split
        · exact extended
        · exact extended
      rw [makeAlong]
      dsimp only
      split
      · exact .refl tree _
      · split
        · rename_i made
          exact extendedAlong_makeDirectory made List.mem_cons_self
        · split
          · rename_i stopped failed
            rw [failed] at above
            exact above
          · rename_i ready prepared
            rw [prepared] at above
            split
            · rename_i made
              exact above.trans (extendedAlong_makeDirectory made List.mem_cons_self)
            · exact settled ready _ above
        · exact settled tree _ (.refl tree _)

theorem extendedAlong_prepare (tree : Tree) (path : Path) :
    ExtendedAlong tree (remains (tree.prepare path)) path.above := by
  unfold prepare
  split
  · exact .refl tree _
  · rename_i parent missing
    have holds : path.parent? = some parent := (Option.filter_eq_some_iff.mp missing).1
    have above : path.above = parent.ancestors := by
      rw [Path.above, holds, Option.map_some, Option.getD_some]
    have extended := extendedAlong_makeAlong tree parent.ancestors
    rw [above]
    unfold makeDirectories
    cases made : tree.makeAlong parent.ancestors with
    | ok ready =>
        rw [made] at extended
        exact extended
    | error stopped =>
        rw [made] at extended
        exact extended

end Making

/-! ## Writing files -/

section Writing

variable {tree later : Tree} {path : Path}

/-- A file is written where its path leads, under the last piece of the path. -/
theorem slot_eq_ok {place : Location} (found : tree.slot path = .ok place) :
    path.text.isEmpty = false ∧ tree.node? place ≠ some .directory ∧
      tree.follow (tree.origin path) path.pieces = .ok place ∧
      ∃ name, path.pieces.getLast? = some name ∧ place.getLast? = some name := by
  unfold slot at found
  split at found
  · cases found
  · rename_i location name held
    split at found
    · cases found
    · rename_i target named
      split at found
      · cases found
      · rename_i free
        cases found
        rw [not_or] at free
        obtain ⟨unclosed, vacant⟩ := free
        obtain ⟨last, rfl, dot, dots, rfl⟩ := named?_eq_some_iff.mp named
        obtain ⟨text, filled, directory, front, back, whole, empty, followed⟩ := holder_eq_ok held
        have filled_text : path.text ≠ "" := by simpa using text
        obtain ⟨final, ends, spoken⟩ := Path.exists_getLast?_pieces filled_text unclosed
        have alone : back = [] := by
          rcases List.eq_nil_or_concat back with none | ⟨others, piece, rfl⟩
          · exact none
          · rw [whole, List.concat_eq_append, ← List.cons_append, ← List.append_assoc,
              List.getLast?_concat, Option.some.injEq] at ends
            exact absurd (ends.symm.trans (empty piece (by simp))) spoken
        have speaks : Path.isSilent last = false := by simp [Path.isSilent, filled, dot]
        rw [alone] at whole
        refine ⟨text, vacant, ?_, last, by rw [whole, List.getLast?_concat], List.getLast?_concat⟩
        rw [whole, follow_append_of_ok followed, follow_cons_of_directory directory, follow_nil,
          onward, speaks, if_neg Bool.false_ne_true, if_neg dots]

/-- What was written is found again under the path that it was written to. -/
theorem locate_put_of_slot {place : Location} {content : List UInt8}
    (found : tree.slot path = .ok place) :
    (tree.put place (.file content)).locate path = .ok (place, .file content) := by
  obtain ⟨text, vacant, followed, _⟩ := slot_eq_ok found
  have kept : KeepsDirectories tree (tree.put place (.file content)) := keepsDirectories_put vacant
  refine locate_eq_ok_iff.mpr ⟨text, ?_, ?_⟩
  · rw [kept.origin_eq]
    exact kept.follow followed
  · rw [node?_put, if_pos rfl]

/-- A path to another location leads to what stood there. -/
theorem locate_put_of_ne {place other : Location} {node content : Node}
    (vacant : tree.node? place ≠ some .directory) (found : tree.locate path = .ok (other, node))
    (apart : other ≠ place) : (tree.put place content).locate path = .ok (other, node) := by
  have stands : (tree.put place content).node? other = some node := by
    rw [node?_put, if_neg apart]
    exact (locate_eq_ok_iff.mp found).2.2
  exact (keepsDirectories_put vacant).locate found stands

/-! ## Names at the end of a path -/

theorem follow_of_silent {pieces : List String} {location place : Location}
    (silent : Path.speaking pieces = []) (found : tree.follow location pieces = .ok place) :
    place = location := by
  induction pieces generalizing location with
  | nil =>
      rw [follow_nil, Except.ok.injEq] at found
      exact found.symm
  | cons piece rest ih =>
      have quiet : Path.isSilent piece = true ∧ Path.speaking rest = [] := by
        simpa [Path.speaking] using silent
      have next := (follow_cons_eq_ok_iff.mp found).2
      rw [onward, if_pos quiet.1] at next
      exact ih quiet.2 next

/-- A path leads to a location that bears the last name of the path. -/
theorem getLast?_of_follow {pieces : List String} {location place : Location} {name : String}
    (found : tree.follow location pieces = .ok place)
    (final : (Path.speaking pieces).getLast? = some name) (forth : name ≠ "..") :
    place.getLast? = some name := by
  induction pieces generalizing location with
  | nil => cases final
  | cons piece rest ih =>
      have next := (follow_cons_eq_ok_iff.mp found).2
      cases silent : Path.isSilent piece with
      | true =>
          rw [Path.speaking, List.filter_cons_of_neg (by simp [silent])] at final
          exact ih next final
      | false =>
          rw [Path.speaking, List.filter_cons_of_pos (by simp [silent])] at final
          cases others : Path.speaking rest with
          | nil =>
              rw [Path.speaking] at others
              rw [others, List.getLast?_singleton, Option.some.injEq] at final
              subst final
              have reached := follow_of_silent others next
              rw [reached, onward, silent, if_neg Bool.false_ne_true, if_neg forth,
                List.getLast?_concat]
          | cons other more =>
              rw [Path.speaking] at others
              rw [others, List.getLast?_cons_cons, ← others] at final
              exact ih next final

end Writing

/-! ## Deliveries -/

section Deliveries

variable {tree : Tree} {path : Path} {text : String}

/-- A delivery writes one file in a tree that has more directories on the way to it. -/
theorem deliver_eq_ok {written : Tree} (delivered : tree.deliver path text = .ok written) :
    ∃ ready place, ExtendedAlong tree ready path.above ∧ ready.slot path = .ok place ∧
      written = ready.put place (.file text.toUTF8.toList) := by
  have extended := extendedAlong_prepare tree path
  unfold deliver at delivered
  split at delivered
  · cases delivered
  · rename_i ready prepared
    rw [prepared] at extended
    rw [write] at delivered
    cases found : ready.slot path with
    | error fault =>
        rw [found] at delivered
        cases delivered
    | ok place =>
        rw [found] at delivered
        cases delivered
        exact ⟨ready, place, extended, found, rfl⟩

/-- A delivery that fails writes nothing. -/
theorem deliver_eq_error {fault : DeliveryFault} {left : Tree}
    (stopped : tree.deliver path text = .error (fault, left)) :
    ExtendedAlong tree left path.above := by
  have extended := extendedAlong_prepare tree path
  unfold deliver at stopped
  split at stopped
  · rename_i failed
    cases stopped
    rw [failed] at extended
    exact extended
  · rename_i ready prepared
    rw [prepared] at extended
    rw [write] at stopped
    cases found : ready.slot path with
    | error fault =>
        rw [found] at stopped
        cases stopped
        exact extended
    | ok place =>
        rw [found] at stopped
        cases stopped

/-- A delivery writes at most one file, in a tree that has only more directories. -/
theorem remains_deliver_cases (tree : Tree) (path : Path) (text : String) :
    Grown tree (remains (tree.deliver path text)) ∨
      ∃ ready place, Grown tree ready ∧ ready.slot path = .ok place ∧
        remains (tree.deliver path text) = ready.put place (.file text.toUTF8.toList) := by
  cases delivered : tree.deliver path text with
  | error stopped => exact .inl (deliver_eq_error delivered).grown
  | ok written =>
      obtain ⟨ready, place, extended, found, same⟩ := deliver_eq_ok delivered
      exact .inr ⟨ready, place, extended.grown, found, same⟩

end Deliveries

end Pinout.File.Tree
