import Pinout.Library.Shelf
import Pinout.Proofs.Mcu

/-! Shelves of tables over files that stay as they are. A table that stands on the shelf is the
one that the library would load again, so a shelf gives what its library gives, whatever was
asked of it before and however the microcontroller is spelled. -/

set_option autoImplicit false

namespace Pinout.Library

variable {library : Library} {tree : File.Tree} {name mcu : String}

/-- A library takes all spellings of a name alike. -/
theorem load_canonical (found : Mcu.normalize? name = some mcu) :
    library.load tree mcu = library.load tree name := by
  rw [load, load, found, Mcu.normalize?_of_normalize? found]

namespace Shelf

/-- The tables on the shelf are those that the library has. -/
structure Faithful (library : Library) (tree : File.Tree) (shelf : Shelf) : Prop where
  source : shelf.library = library
  tables : ∀ entry ∈ shelf.tables, library.load tree entry.1 = .ok entry.2

variable {shelf : Shelf}

theorem faithful_empty (library : Library) (tree : File.Tree) :
    Faithful library tree (empty library) :=
  ⟨rfl, List.forall_mem_nil _⟩

theorem getElem?_of_standing? {place : Nat} {loaded : Loaded}
    (standing : shelf.standing? mcu = some (place, loaded)) :
    shelf.tables[place]? = some (mcu, loaded) := by
  unfold standing? at standing
  split at standing
  · cases standing
  · rename_i index found
    obtain ⟨inside, named, _⟩ := List.findIdx?_eq_some_iff_getElem.mp found
    obtain ⟨entry, stands, same⟩ := Option.map_eq_some_iff.mp standing
    cases same
    rw [List.getElem?_eq_getElem inside, Option.some.injEq] at stands
    have canonical : entry.1 = mcu := by simpa [stands] using named
    rw [List.getElem?_eq_getElem inside, stands, ← canonical]

theorem mem_of_standing? {place : Nat} {loaded : Loaded}
    (standing : shelf.standing? mcu = some (place, loaded)) : (mcu, loaded) ∈ shelf.tables :=
  List.mem_of_getElem? (getElem?_of_standing? standing)

/-- A faithful shelf gives what its library gives, and stays faithful. -/
theorem Faithful.get (faithful : Faithful library tree shelf) (name : String) :
    (shelf.get tree name).1.map Prod.snd = library.load tree name ∧
      Faithful library tree (shelf.get tree name).2 := by
  unfold Shelf.get
  cases found : Mcu.normalize? name with
  | none =>
      refine ⟨?_, faithful⟩
      rw [load, found]
      rfl
  | some mcu =>
      dsimp only
      rw [← load_canonical found]
      cases standing : shelf.standing? mcu with
      | some standing =>
          refine ⟨?_, faithful⟩
          exact (faithful.tables _ (mem_of_standing? standing)).symm
      | none =>
          rw [faithful.source]
          dsimp only
          cases given : library.load tree mcu with
          | error fault => exact ⟨rfl, faithful⟩
          | ok loaded =>
              refine ⟨rfl, rfl, ?_⟩
              intro entry member
              rcases List.mem_append.mp member with earlier | new
              · exact faithful.tables entry earlier
              · rw [List.mem_singleton.mp new]
                exact given

end Shelf

end Pinout.Library
