import Pinout.Library.Basic

/-! A shelf of loaded tables. Each microcontroller's table is loaded once, when it is
first asked for, and stays at its place on the shelf; later changes of the files go
unseen. A failure leaves the shelf as it was. -/

set_option autoImplicit false

namespace Pinout.Library

/-- A library and the tables that were loaded from it, in the order of loading, each
under its canonical name. -/
structure Shelf where
  library : Library
  tables : List (String × Loaded)

namespace Shelf

def empty (library : Library) : Shelf :=
  ⟨library, []⟩

def size (shelf : Shelf) : Nat :=
  shelf.tables.length

/-- The table of a canonical name that stands on the shelf, and its place there. -/
def standing? (shelf : Shelf) (mcu : String) : Option (Nat × Loaded) :=
  match shelf.tables.findIdx? fun entry => entry.1 = mcu with
  | none => none
  | some place => (shelf.tables[place]?).map fun entry => (place, entry.2)

/-- The table of a microcontroller, loaded if it does not stand on the shelf, with its
place and the shelf afterwards. -/
def get (shelf : Shelf) (tree : File.Tree) (name : String) :
    Except Fault (Nat × Loaded) × Shelf :=
  match Mcu.normalize? name with
  | none => (.error (.unknownMcu name), shelf)
  | some mcu =>
    match shelf.standing? mcu with
    | some found => (.ok found, shelf)
    | none =>
      match shelf.library.load tree mcu with
      | .error fault => (.error fault, shelf)
      | .ok loaded =>
        (.ok (shelf.size, loaded), { shelf with tables := shelf.tables ++ [(mcu, loaded)] })

theorem get_of_error {shelf : Shelf} {tree : File.Tree} {name : String} {fault : Fault}
    (failed : (shelf.get tree name).1 = .error fault) : (shelf.get tree name).2 = shelf := by
  unfold get at failed ⊢
  split <;> try rfl
  split <;> try rfl
  split <;> simp_all

end Shelf

end Pinout.Library
